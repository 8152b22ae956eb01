/-
**Defaults that are written to the file (`src/utils/config.c`).**

`utils_config_get_str` appends the key and the default to the file if it does not find the key. The
next reading of the file takes them for a pair only if the words before them pair up, and the last
one has ended.

* `DefaultKept` — the default is read back, and all other keys are found as before.
* `Closed` — behind the last complete pair of words the file has blanks only.
* `persisted_default_iff` — all defaults are kept exactly if the file is closed, and so is each of
  them that is not the end of the key itself.
-/

import Arax.Utils.Config

namespace Arax.Utils

open Arax.Lib

/-- A word of 1 to `width` characters that are not blank. -/
structure ConfigWord (width : Nat) where
  chars : List CChar
  nonempty : chars ≠ []
  fits : chars.length ≤ width
  solid : ∀ c ∈ chars, c.isspace = false

/-- **A default is kept** if `path` is the file before it was appended, and `path'` after. -/
structure DefaultKept (path path' : Option (List CChar)) (key : ConfigWord 127)
    (defVal : ConfigWord 895) : Prop where
  readBack : ∀ valueSize other stack, utilsConfigGetStr path' key.chars valueSize other stack =
    ⟨1, some (strncpy defVal.chars valueSize), path'⟩
  undisturbed : ∀ other, other ≠ key.chars → ∀ valueSize stack,
    _utilsConfigGetStr path' other valueSize stack = _utilsConfigGetStr path other valueSize stack

/-- **The condition.** A missing file, an empty one, or one whose words pair up, with a blank behind
the last of them if it is shorter than `cval`. -/
def Closed (path : Option (List CChar)) : Prop :=
  ∀ c ∈ configFormat.leftover (path.getD []), c.isspace = true

instance (path : Option (List CChar)) : Decidable (Closed path) :=
  inferInstanceAs (Decidable (∀ c ∈ _, _))

/-- The end of the line that is appended. -/
def lineEnd (value : List CChar) : List CChar := cstr " " ++ (value ++ cstr "\n")

section Reading

variable {key : ConfigWord 127} {defVal : ConfigWord 895} {gap word conf cval : List CChar}

theorem blank_lineEnd (value : List CChar) : BlankNext CChar.isspace (lineEnd value) := by
  intro c first
  cases first
  decide

theorem newline_blank : ∀ c ∈ cstr "\n", configFormat.blank c = true := by decide

theorem newline_next : BlankNext CChar.isspace (cstr "\n") := by
  intro c next
  cases next
  decide

/-- A word that fits, with the default behind it. -/
theorem pairs_word (blanks : ∀ c ∈ gap, c.isspace = true) (nonempty : word ≠ [])
    (fits : word.length ≤ 127) (solid : ∀ c ∈ word, c.isspace = false) (defVal : ConfigWord 895) :
    configFormat.pairs (gap ++ (word ++ lineEnd defVal.chars)) =
      [(word, some defVal.chars)] := by
  have first := spelled_word (f := configFormat) blanks solid nonempty fits
    (blank_lineEnd defVal.chars)
  have second : configFormat.Spelled 895 (lineEnd defVal.chars) defVal.chars (cstr "\n") :=
    spelled_word (by decide) defVal.solid defVal.nonempty defVal.fits newline_next
  rw [pairs_some (scan_pair_iff.mpr ⟨_, first, second⟩),
    pairs_none (scan_none_iff.mpr newline_blank)]

/-- `_utils_config_get_str`, where a missing file is read like an empty one. -/
theorem getStr_path (path : Option (List CChar)) (key : List CChar) (valueSize : Nat)
    (stack : List CChar) : _utilsConfigGetStr path key valueSize stack =
      getStrResult valueSize (valueOf key (held stack (configFormat.pairs (path.getD [])))) := by
  cases path with
  | none =>
    have empty : configFormat.pairs [] = [] := pairs_none (scan_none_iff.mpr (by simp))
    rw [Option.getD_none, empty]
    rfl
  | some conf => exact getStr_eq conf key valueSize stack

/-- Complete pairs are held as they are. -/
theorem held_complete (pairs : List (List CChar × List CChar))
    (rest : List (List CChar × Option (List CChar))) (cval : List CChar) :
    held cval (pairs.map (fun p => (p.1, some p.2)) ++ rest) =
      pairs ++ held (pairs.foldl (fun _ p => p.2) cval) rest := by
  induction pairs generalizing cval with
  | nil => rfl
  | cons p pairs ih => exact congrArg (p :: ·) (ih p.2)

theorem valueOf_append (key : List CChar) (words words' : List (List CChar × List CChar)) :
    valueOf key (words ++ words') = (valueOf key words).or (valueOf key words') := by
  unfold valueOf
  rw [List.find?_append]
  cases words.find? fun p => p.1 = key <;> rfl

/-- A key that is not found is the key of no pair: what it would be found with is not empty. -/
theorem valueOf_full {full : List (List CChar × List CChar)}
    {rest : List (List CChar × Option (List CChar))} {stack : List CChar}
    (spelled : configFormat.pairs conf = full.map (fun p => (p.1, some p.2)) ++ rest)
    (missing : valueOf key.chars (held stack (configFormat.pairs conf)) = none ∨
      valueOf key.chars (held stack (configFormat.pairs conf)) = some []) :
    valueOf key.chars full = none := by
  rw [spelled, held_complete, valueOf_append] at missing
  cases found : valueOf key.chars full with
  | none => rfl
  | some value =>
    obtain ⟨p, here, rfl⟩ := Option.map_eq_some_iff.mp found
    have member : (p.1, some p.2) ∈ configFormat.pairs conf := by
      rw [spelled]
      exact List.mem_append_left _ (List.mem_map_of_mem (List.mem_of_find?_eq_some here))
    rw [found, Option.some_or] at missing
    rcases missing with none | empty
    · cases none
    · exact absurd (Option.some.inj empty) (value_bounds member rfl).1

/-- What falls back has no value for the key. -/
theorem missing_of_len {path : Option (List CChar)} {valueSize : Nat} {stack : List CChar}
    (missing : (_utilsConfigGetStr path key.chars valueSize stack).len = 0) :
    valueOf key.chars (held stack (configFormat.pairs (path.getD []))) = none ∨
      valueOf key.chars (held stack (configFormat.pairs (path.getD []))) = some [] := by
  rw [getStr_path] at missing
  cases found : valueOf key.chars (held stack (configFormat.pairs (path.getD []))) with
  | none => exact .inl rfl
  | some value =>
    rw [found] at missing
    exact .inr (congrArg some (List.length_eq_zero_iff.mp missing))

end Reading

/-! ### A file that is closed -/

section ClosedFile

variable {key : ConfigWord 127} {defVal : ConfigWord 895} {path : Option (List CChar)}
  {stack : List CChar}

theorem written_eq (path : Option (List CChar)) (key value : List CChar) :
    (utilsConfigWriteStr path key value).getD [] = path.getD [] ++ (key ++ lineEnd value) := by
  unfold utilsConfigWriteStr lineEnd
  simp only [Option.getD_some, List.append_assoc]

/-- The appended line is one pair more. -/
theorem pairs_closed (closed : Closed path) (key : ConfigWord 127) (defVal : ConfigWord 895) :
    configFormat.pairs (path.getD [] ++ (key.chars ++ lineEnd defVal.chars)) =
      (configFormat.complete (path.getD [])).map (fun p => (p.1, some p.2)) ++
        [(key.chars, some defVal.chars)] := by
  rw [pairs_append, pairs_word closed key.nonempty key.fits key.solid defVal]

theorem pairs_closed_before (closed : Closed path) : configFormat.pairs (path.getD []) =
    (configFormat.complete (path.getD [])).map (fun p => (p.1, some p.2)) ++ [] := by
  have none' : configFormat.pairs (configFormat.leftover (path.getD [])) = [] :=
    pairs_none (scan_none_iff.mpr closed)
  rw [pairs_split, none']

/-- **Closed files keep defaults.** -/
theorem Closed.kept (closed : Closed path)
    (missing : valueOf key.chars (held stack (configFormat.pairs (path.getD []))) = none ∨
      valueOf key.chars (held stack (configFormat.pairs (path.getD []))) = some []) :
    DefaultKept path (utilsConfigWriteStr path key.chars defVal.chars) key defVal := by
  have fresh := valueOf_full (pairs_closed_before closed) missing
  have words : ∀ other st, valueOf other (held st (configFormat.pairs
      ((utilsConfigWriteStr path key.chars defVal.chars).getD []))) =
        (valueOf other (configFormat.complete (path.getD []))).or
          (if key.chars = other then some defVal.chars else none) := by
    intro other st
    rw [written_eq, pairs_closed closed, held_complete, valueOf_append, held, valueOf_cons]
    rfl
  refine ⟨fun valueSize other st => ?_, fun other apart valueSize st => ?_⟩
  · have found : _utilsConfigGetStr (utilsConfigWriteStr path key.chars defVal.chars) key.chars
        valueSize st = ⟨defVal.chars.length, some (strncpy defVal.chars valueSize)⟩ := by
      rw [getStr_path, words, fresh, if_pos rfl]
      rfl
    have nonzero : defVal.chars.length ≠ 0 := fun empty =>
      defVal.nonempty (List.length_eq_zero_iff.mp empty)
    unfold utilsConfigGetStr
    simp only [found, if_neg nonzero]
  · rw [getStr_path, getStr_path, words, if_neg apart.symm, Option.or_none,
      pairs_closed_before closed, held_complete, valueOf_append, held]
    exact congrArg _ Option.or_none.symm

end ClosedFile

/-! ### A file that is not -/

section OpenFile

variable {key : ConfigWord 127} {defVal : ConfigWord 895} {conf left : List CChar}

/-- No pair shows the default for the key. -/
def Spoiled (key defVal : List CChar) (pairs : List (List CChar × Option (List CChar))) : Prop :=
  ∀ p ∈ pairs, p.1 = key → ∃ value, p.2 = some value ∧ value ≠ defVal

theorem Spoiled.valueOf_ne {key defVal : List CChar}
    {pairs : List (List CChar × Option (List CChar))} (spoiled : Spoiled key defVal pairs)
    (cval : List CChar) : valueOf key (held cval pairs) ≠ some defVal := by
  induction pairs generalizing cval with
  | nil => exact fun impossible => by cases impossible
  | cons p pairs ih =>
    obtain ⟨ckey, value⟩ := p
    unfold Spoiled at spoiled
    rw [List.forall_mem_cons] at spoiled
    rw [held, valueOf_cons]
    split_ifs with here
    · obtain ⟨found, same, other⟩ := spoiled.1 here
      cases same
      exact fun equal => other (Option.some.inj equal)
    · exact ih spoiled.2 _

theorem Spoiled.cons {key defVal ckey : List CChar} {value : Option (List CChar)}
    {pairs : List (List CChar × Option (List CChar))}
    (first : ckey = key → ∃ found, value = some found ∧ found ≠ defVal)
    (spoiled : Spoiled key defVal pairs) : Spoiled key defVal ((ckey, value) :: pairs) :=
  List.forall_mem_cons.mpr ⟨first, spoiled⟩

/-- The default itself is read as a key. -/
theorem spoiled_lineEnd (apart : defVal.chars ≠ key.chars) :
    Spoiled key.chars defVal.chars (configFormat.pairs (lineEnd defVal.chars)) := by
  have first : configFormat.Spelled 127 (lineEnd defVal.chars) (defVal.chars.take 127)
      (defVal.chars.drop 127 ++ cstr "\n") :=
    spelled_cut (by decide) (by decide) defVal.solid defVal.nonempty newline_next
  by_cases short : defVal.chars.length ≤ 127
  · rw [List.drop_eq_nil_of_le short, List.take_of_length_le short, List.nil_append] at first
    rw [pairs_some (scan_lone_iff.mpr ⟨rfl, _, first, newline_blank⟩),
      pairs_none (scan_none_iff.mpr (by simp))]
    exact Spoiled.cons (fun same => absurd same apart) (by simp [Spoiled])
  · -- the rest of a long default is read as its value
    have left : defVal.chars.drop 127 ≠ [] := fun none' => short (List.drop_eq_nil_iff.mp none')
    have second : configFormat.Spelled 895 (defVal.chars.drop 127 ++ cstr "\n")
        (defVal.chars.drop 127) (cstr "\n") :=
      spelled_rest defVal.solid left
        ((List.drop_sublist 127 defVal.chars).length_le.trans defVal.fits) newline_next
    rw [pairs_some (scan_pair_iff.mpr ⟨_, first, second⟩),
      pairs_none (scan_none_iff.mpr newline_blank)]
    refine Spoiled.cons (fun _ => ⟨_, rfl, fun whole => ?_⟩) (by simp [Spoiled])
    have length := congrArg List.length whole
    rw [List.length_drop] at length
    omega

/-- The file ends in a value that can still grow: the new key becomes a part of it. -/
theorem spoiled_value {ckey value : List CChar}
    (scanned : configFormat.scan left = some ⟨ckey, some value, []⟩) (short : value.length < 895)
    (other : ckey ≠ key.chars) (apart : defVal.chars ≠ key.chars) :
    Spoiled key.chars defVal.chars
      (configFormat.pairs (left ++ (key.chars ++ lineEnd defVal.chars))) := by
  obtain ⟨behind, first, second⟩ := scan_pair_iff.mp scanned
  have follows : behind ≠ [] := by
    rintro rfl
    exact absurd second.shorter (Nat.not_lt_zero _)
  have longer := first.append (.inl follows) (key.chars ++ lineEnd defVal.chars)
  obtain ⟨isField, nonempty, gap, blanks, rfl⟩ := second
  have solid : ∀ c ∈ value ++ key.chars, c.isspace = false := by
    intro c member
    rcases List.mem_append.mp member with old | new
    · exact isField.solid c old
    · exact key.solid c new
  have grown : configFormat.Spelled 895 (gap ++ (value ++ key.chars ++ lineEnd defVal.chars))
      ((value ++ key.chars).take 895) ((value ++ key.chars).drop 895 ++ lineEnd defVal.chars) :=
    spelled_cut (by decide) blanks solid (List.append_ne_nil_of_left_ne_nil nonempty _)
      (blank_lineEnd defVal.chars)
  have same : gap ++ (value ++ []) ++ (key.chars ++ lineEnd defVal.chars) =
      gap ++ (value ++ key.chars ++ lineEnd defVal.chars) := by
    simp only [List.append_nil, List.append_assoc]
  rw [same] at longer
  rw [pairs_some (scan_pair_iff.mpr ⟨_, longer, grown⟩)]
  refine Spoiled.cons (fun equal => absurd equal other) ?_
  -- what is left of the key behind a full value
  have rest : (value ++ key.chars).drop 895 = key.chars.drop (895 - value.length) := by
    rw [List.drop_append, List.drop_eq_nil_of_le short.le, List.nil_append]
  by_cases none' : (value ++ key.chars).drop 895 = []
  · rw [none', List.nil_append]
    exact spoiled_lineEnd apart
  · have length : ((value ++ key.chars).drop 895).length =
        key.chars.length - (895 - value.length) := by
      rw [rest, List.length_drop]
    have fits := key.fits
    have read : configFormat.pairs ([] ++ ((value ++ key.chars).drop 895 ++
        lineEnd defVal.chars)) = [((value ++ key.chars).drop 895, some defVal.chars)] :=
      pairs_word (by simp) none' (by omega)
        (fun c member => solid c (List.mem_of_mem_drop member)) defVal
    rw [List.nil_append] at read
    rw [read]
    refine Spoiled.cons (fun equal => ?_) (by simp [Spoiled])
    have shorter := congrArg List.length equal
    have positive := List.length_pos_iff.mpr none'
    omega

/-- The file ends in a key: the new key becomes its value, or a part of it. -/
theorem spoiled_key {ckey : List CChar}
    (scanned : configFormat.scan left = some ⟨ckey, none, []⟩)
    (apart : ¬ defVal.chars <:+ key.chars) :
    Spoiled key.chars defVal.chars
      (configFormat.pairs (left ++ (key.chars ++ lineEnd defVal.chars))) := by
  have other : defVal.chars ≠ key.chars := fun same => apart (same ▸ List.suffix_refl _)
  obtain ⟨-, behind, first, blanks⟩ := scan_lone_iff.mp scanned
  by_cases ended : behind ≠ [] ∨ ckey.length = 127
  · have longer := first.append ended (key.chars ++ lineEnd defVal.chars)
    have value := spelled_word (f := configFormat) blanks key.solid key.nonempty
      (key.fits.trans (by decide : 127 ≤ 895)) (blank_lineEnd defVal.chars)
    rw [pairs_some (scan_pair_iff.mpr ⟨_, longer, value⟩)]
    exact Spoiled.cons (fun _ => ⟨_, rfl, other.symm⟩) (spoiled_lineEnd other)
  · rw [not_or, not_not] at ended
    obtain ⟨rfl, short⟩ := ended
    obtain ⟨isField, nonempty, gap, blanks', rfl⟩ := first
    have solid : ∀ c ∈ ckey ++ key.chars, c.isspace = false := by
      intro c member
      rcases List.mem_append.mp member with old | new
      · exact isField.solid c old
      · exact key.solid c new
    have grown : ckey ++ key.chars ≠ [] := List.append_ne_nil_of_left_ne_nil nonempty _
    have same : gap ++ (ckey ++ []) ++ (key.chars ++ lineEnd defVal.chars) =
        gap ++ (ckey ++ key.chars ++ lineEnd defVal.chars) := by
      simp only [List.append_nil, List.append_assoc]
    rw [same]
    by_cases fits : (ckey ++ key.chars).length ≤ 127
    · rw [pairs_word blanks' grown fits solid defVal]
      refine Spoiled.cons (fun equal => ?_) (by simp [Spoiled])
      exact absurd (List.append_left_eq_self.mp equal) nonempty
    · have cut : configFormat.Spelled 127 (gap ++ (ckey ++ key.chars ++ lineEnd defVal.chars))
          ((ckey ++ key.chars).take 127)
          ((ckey ++ key.chars).drop 127 ++ lineEnd defVal.chars) :=
        spelled_cut (by decide) blanks' solid grown (blank_lineEnd defVal.chars)
      have rest : (ckey ++ key.chars).drop 127 <:+ key.chars := by
        have within : ckey.length ≤ 127 := isField.fits
        rw [List.drop_append, List.drop_eq_nil_of_le within, List.nil_append]
        exact List.drop_suffix _ _
      have left : (ckey ++ key.chars).drop 127 ≠ [] := fun none' =>
        fits (List.drop_eq_nil_iff.mp none')
      have value : configFormat.Spelled 895
          ((ckey ++ key.chars).drop 127 ++ lineEnd defVal.chars)
          ((ckey ++ key.chars).drop 127) (lineEnd defVal.chars) :=
        spelled_rest solid left (rest.length_le.trans (key.fits.trans (by decide)))
          (blank_lineEnd defVal.chars)
      rw [pairs_some (scan_pair_iff.mpr ⟨_, cut, value⟩)]
      refine Spoiled.cons (fun _ => ⟨_, rfl, ?_⟩) (spoiled_lineEnd other)
      rintro equal
      exact apart (equal ▸ rest)

end OpenFile

section Defaults

variable {key : ConfigWord 127} {defVal : ConfigWord 895} {path : Option (List CChar)}
  {stack : List CChar}

/-- In a file that is not closed no default is found, unless it is the end of the key. -/
theorem spoiled_open (opened : ¬ Closed path)
    (missing : valueOf key.chars (held stack (configFormat.pairs (path.getD []))) = none ∨
      valueOf key.chars (held stack (configFormat.pairs (path.getD []))) = some [])
    (apart : ¬ defVal.chars <:+ key.chars) : Spoiled key.chars defVal.chars
      (configFormat.pairs (configFormat.leftover (path.getD []) ++
        (key.chars ++ lineEnd defVal.chars))) := by
  cases left : leftover_left configFormat (path.getD []) with
  | blanks blanks => exact absurd blanks opened
  | key scanned => exact spoiled_key scanned apart
  | @value ckey value scanned short =>
    have other : defVal.chars ≠ key.chars := fun same => apart (same ▸ List.suffix_refl _)
    refine spoiled_value scanned short ?_ other
    -- otherwise the key would have been found with this value
    rintro rfl
    have spelled : configFormat.pairs (path.getD []) =
        (configFormat.complete (path.getD []) ++ [(key.chars, value)]).map
          (fun p => (p.1, some p.2)) ++ [] := by
      rw [pairs_split, pairs_some scanned, pairs_none (scan_none_iff.mpr (by simp))]
      simp
    have full := valueOf_full spelled missing
    rw [valueOf_append, valueOf_cons, if_pos rfl] at full
    cases found : valueOf key.chars (configFormat.complete (path.getD [])) <;> simp [found] at full

/-- **Files that are not closed lose defaults.** -/
theorem not_kept (opened : ¬ Closed path)
    (missing : valueOf key.chars (held stack (configFormat.pairs (path.getD []))) = none ∨
      valueOf key.chars (held stack (configFormat.pairs (path.getD []))) = some [])
    (apart : ¬ defVal.chars <:+ key.chars) :
    ¬ DefaultKept path (utilsConfigWriteStr path key.chars defVal.chars) key defVal := by
  intro kept
  have fresh := valueOf_full (pairs_split configFormat (path.getD [])) missing
  have spoiled := (spoiled_open opened missing apart).valueOf_ne
    ((configFormat.complete (path.getD [])).foldl (fun _ p => p.2) [])
  have found : valueOf key.chars (held [] (configFormat.pairs
      ((utilsConfigWriteStr path key.chars defVal.chars).getD []))) ≠ some defVal.chars := by
    rw [written_eq, pairs_append, held_complete, valueOf_append, fresh, Option.none_or]
    exact spoiled
  cases shown : valueOf key.chars (held [] (configFormat.pairs
      ((utilsConfigWriteStr path key.chars defVal.chars).getD []))) with
  | none =>
    have back := kept.readBack 0 none []
    simp only [utilsConfigGetStr, getStr_path, shown, getStrResult, if_true] at back
    cases congrArg GotStr.ret back
  | some value =>
    rw [shown] at found
    have back := kept.readBack (value.length + defVal.chars.length + 1) none []
    simp only [utilsConfigGetStr, getStr_path, shown, getStrResult] at back
    split_ifs at back with empty
    · cases congrArg GotStr.ret back
    · -- an array that is large enough tells the two values apart
      have same := Option.some.inj (congrArg GotStr.value back)
      have read := congrArg (stringAt · []) same
      rw [stringAt_strncpy (by omega), stringAt_strncpy (by omega)] at read
      exact found (congrArg some read)

/-- **Defaults that are written to the file.** For a file and a key that falls back: every default
is kept exactly if the file is closed. And each default by itself, unless it is the end of the key
and may be found by chance. -/
theorem persisted_default_iff (path : Option (List CChar)) (key : ConfigWord 127) (valueSize : Nat)
    (stack : List CChar) (fallsBack : (_utilsConfigGetStr path key.chars valueSize stack).len = 0) :
    ((∀ defVal : ConfigWord 895, DefaultKept path
        (utilsConfigGetStr path key.chars valueSize (some defVal.chars) stack).path key defVal) ↔
      Closed path) ∧
    ∀ defVal : ConfigWord 895, ¬ defVal.chars <:+ key.chars →
      (DefaultKept path
        (utilsConfigGetStr path key.chars valueSize (some defVal.chars) stack).path key defVal ↔
      Closed path) := by
  have missing := missing_of_len fallsBack
  have written : ∀ defVal : List CChar,
      (utilsConfigGetStr path key.chars valueSize (some defVal) stack).path =
        utilsConfigWriteStr path key.chars defVal := by
    intro defVal
    unfold utilsConfigGetStr
    simp only [fallsBack, if_true]
  simp only [written]
  have each : ∀ defVal : ConfigWord 895, ¬ defVal.chars <:+ key.chars →
      (DefaultKept path (utilsConfigWriteStr path key.chars defVal.chars) key defVal ↔
        Closed path) := by
    intro defVal apart
    refine ⟨fun kept => ?_, fun closed => closed.kept missing⟩
    by_contra opened
    exact not_kept opened missing apart kept
  refine ⟨⟨fun all => ?_, fun closed defVal => closed.kept missing⟩, each⟩
  -- the key written twice is a default that is longer than the key
  have fits := key.fits
  have positive := List.length_pos_iff.mpr key.nonempty
  let twice : ConfigWord 895 :=
    { chars := key.chars ++ key.chars
      nonempty := List.append_ne_nil_of_left_ne_nil key.nonempty _
      fits := by rw [List.length_append]; omega
      solid := fun c member => (List.mem_append.mp member).elim (key.solid c) (key.solid c) }
  refine (each twice fun ends => ?_).mp (all twice)
  have longer : (key.chars ++ key.chars).length ≤ key.chars.length := ends.length_le
  rw [List.length_append] at longer
  omega

/-- The key `k`. -/
def wordK : ConfigWord 127 where
  chars := cstr "k"
  nonempty := by decide
  fits := by decide
  solid := by decide

/-- The default `d`. -/
def wordD : ConfigWord 895 where
  chars := cstr "d"
  nonempty := by decide
  fits := by decide
  solid := by decide

/-- A file of whole lines keeps the default. -/
theorem persisted_default_closed : DefaultKept (some (cstr "a 1\n"))
    (utilsConfigGetStr (some (cstr "a 1\n")) wordK.chars 8 (some wordD.chars) []).path
    wordK wordD :=
  ((persisted_default_iff (some (cstr "a 1\n")) wordK 8 [] (by decide)).2 wordD (by decide)).mpr
    (by decide)

/-- **A file without a newline at its end.** The default of `k` is appended to the value of `a`: it
is not found again, and `a` has another value. -/
theorem persisted_default_lost :
    (_utilsConfigGetStr (some (cstr "a 1")) wordK.chars 8 []).len = 0 ∧
      (utilsConfigGetStr (some (cstr "a 1")) wordK.chars 8 (some wordD.chars) []).path =
        some (cstr "a 1k d\n") ∧
      (utilsConfigGetStr (some (cstr "a 1k d\n")) wordK.chars 8 none []).ret = 0 ∧
      _utilsConfigGetStr (some (cstr "a 1k d\n")) (cstr "a") 8 [] =
        ⟨2, some (strncpy (cstr "1k") 8)⟩ ∧
      ¬ DefaultKept (some (cstr "a 1"))
        (utilsConfigGetStr (some (cstr "a 1")) wordK.chars 8 (some wordD.chars) []).path
        wordK wordD := by
  refine ⟨by decide, by decide, by decide, by decide, fun kept => ?_⟩
  have back := congrArg GotStr.ret (kept.readBack 8 none [])
  revert back
  decide

end Defaults

end Arax.Utils
