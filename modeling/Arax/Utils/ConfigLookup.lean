/-
**Looking up a key (`src/utils/config.c`, `src/utils/config.h`).**

The header describes a file of lines `KEY VALUE`, where the value goes on to the end of the line.
The reader knows no lines: it takes the words of the file two by two.

* `firstValue` — the word behind the first word at an odd position that is the key.
* `key_without_value_iff` — what the reader finds is this word, whatever was in its buffer, exactly
  if the key is not the last word, at an odd position, and at none before.
* `ConfigLine`, `LooksUp` — the documented format, and the lookup in it.
* `config_lookup_iff` — the reader follows the format exactly if the first pair of words with the
  key shows the value of the first line with the key; for files whose keys differ, this is so for
  all keys exactly if no value contains a blank.
-/

import Arax.Utils.Config

namespace Arax.Utils

open Arax.Lib

/-! ### The words of a file -/

/-- The word that follows the first occurrence of the key at an odd position. -/
def firstValue (key : List CChar) : List (List CChar) → Option (List CChar)
  | word :: value :: words => if word = key then some value else firstValue key words
  | _ => none

/-- The key is the last word, at an odd position, and at no odd position before. -/
def Dangling (key : List CChar) : List (List CChar) → Prop
  | [] => False
  | [word] => word = key
  | word :: _ :: words => word ≠ key ∧ Dangling key words

instance Dangling.decidable (key : List CChar) :
    (words : List (List CChar)) → Decidable (Dangling key words)
  | [] => isFalse id
  | [word] => inferInstanceAs (Decidable (word = key))
  | word :: _ :: words =>
    have := Dangling.decidable key words
    inferInstanceAs (Decidable (word ≠ key ∧ Dangling key words))

/-- **What is found is in the file.** -/
structure FoundInFile (conf key : List CChar) : Prop where
  value : ∀ stack valueSize, (_utilsConfigGetStr (some conf) key valueSize stack).len ≠ 0 →
    ∃ value, firstValue key (tokens CChar.isspace conf) = some value ∧
      (_utilsConfigGetStr (some conf) key valueSize stack).value = some (strncpy value valueSize)
  /-- Whatever the buffer held before. -/
  filled : ∀ stack stack' valueSize, _utilsConfigGetStr (some conf) key valueSize stack =
    _utilsConfigGetStr (some conf) key valueSize stack'

section Words

variable {key conf cval : List CChar} {words : List (List CChar)}

/-- The value of a key that is not left without one. -/
theorem valueOf_pairUp (followed : ¬ Dangling key words) (cval : List CChar) :
    valueOf key (held cval (pairUp words)) = firstValue key words := by
  induction words using pairUp.induct generalizing cval with
  | case1 => rfl
  | case2 word =>
    have other : word ≠ key := followed
    rw [pairUp, held, valueOf_cons, if_neg other]
    rfl
  | case3 word value words ih =>
    rw [pairUp, held, valueOf_cons, firstValue]
    by_cases here : word = key
    · rw [if_pos here, if_pos here]
      rfl
    · rw [if_neg here, if_neg here]
      exact ih (fun later => followed ⟨here, later⟩) value

/-- A key without a value gets what the buffer holds: the value before, or what was on the stack. -/
theorem valueOf_dangling (dangling : Dangling key words) (solid : ∀ word ∈ words, word ≠ [])
    (filled : cval ≠ []) : firstValue key words = none ∧
      ∃ stale, stale ≠ [] ∧ valueOf key (held cval (pairUp words)) = some stale := by
  induction words using pairUp.induct generalizing cval with
  | case1 => cases dangling
  | case2 word =>
    have here : word = key := dangling
    refine ⟨rfl, cval, filled, ?_⟩
    rw [pairUp, held, valueOf_cons, if_pos here]
    rfl
  | case3 word value words ih =>
    obtain ⟨here, later⟩ := dangling
    rw [pairUp, held, valueOf_cons, firstValue, if_neg here, if_neg here]
    simp only [List.forall_mem_cons] at solid
    exact ih later solid.2.2 solid.2.1

theorem tokens_ne_nil (blank : CChar → Bool) (conf : List CChar) :
    ∀ word ∈ tokens blank conf, word ≠ [] := by
  intro word member
  have kept := (List.mem_filter.mp member).2
  rintro rfl
  cases kept

/-- **A key without a value.** For a file whose words fit into the buffers. -/
theorem key_without_value_iff (conf key : List CChar)
    (fitting : configFormat.Fitting (tokens CChar.isspace conf)) :
    FoundInFile conf key ↔ ¬ Dangling key (tokens CChar.isspace conf) := by
  have read : configFormat.pairs conf = pairUp (tokens CChar.isspace conf) :=
    pairs_eq_pairUp fitting
  constructor
  · intro found dangling
    -- any string on the stack that is not empty shows that the value is not from the file
    have stack : cstr "x" ≠ [] := by decide
    obtain ⟨missing, stale, filled, gets⟩ := valueOf_dangling dangling
      (tokens_ne_nil CChar.isspace conf) stack
    have result := getStr_eq conf key 896 (cstr "x")
    rw [read, gets] at result
    obtain ⟨value, present, -⟩ := found.value (cstr "x") 896 (by
      rw [result]
      exact fun empty => filled (List.length_eq_zero_iff.mp empty))
    rw [missing] at present
    cases present
  · intro followed
    have result : ∀ stack valueSize, _utilsConfigGetStr (some conf) key valueSize stack =
        getStrResult valueSize (firstValue key (tokens CChar.isspace conf)) := by
      intro stack valueSize
      rw [getStr_eq, read, valueOf_pairUp followed]
    refine ⟨fun stack valueSize nonzero => ?_, fun stack stack' valueSize => ?_⟩
    · rw [result] at nonzero ⊢
      cases found : firstValue key (tokens CChar.isspace conf) with
      | none =>
        rw [found] at nonzero
        exact absurd rfl nonzero
      | some value => exact ⟨value, rfl, rfl⟩
    · rw [result, result]

/-- In a file with two pairs, both keys are followed by their values. -/
theorem key_without_value_of_two : FoundInFile (cstr "shm_file arax\nshm_size 4096\n")
    (cstr "shm_size") :=
  (key_without_value_iff _ _ (by decide)).mpr (by decide)

/-- **The value of another key.** The last word of a file is the key `b`, and the call returns the
value of `a` for it. -/
theorem key_without_value_found : configFormat.Fitting (tokens CChar.isspace (cstr "a 1\nb")) ∧
    ¬ FoundInFile (cstr "a 1\nb") (cstr "b") ∧
      _utilsConfigGetStr (some (cstr "a 1\nb")) (cstr "b") 4 [] =
        ⟨1, some (strncpy (cstr "1") 4)⟩ := by
  refine ⟨by decide, fun found => ?_, by decide⟩
  obtain ⟨value, present, -⟩ := found.value [] 4 (by decide)
  have missing : firstValue (cstr "b") (tokens CChar.isspace (cstr "a 1\nb")) = none := by decide
  rw [missing] at present
  cases present

end Words

/-! ### The lines of a file -/

/-- `KEY VALUE`, up to the end of the line. -/
structure ConfigLine where
  key : List CChar
  /-- The blanks between the key and the value. -/
  gap : List CChar
  value : List CChar
  key_length : 1 ≤ key.length ∧ key.length ≤ 32
  key_solid : ∀ c ∈ key, c.isspace = false
  gap_ne_nil : gap ≠ []
  gap_blank : ∀ c ∈ gap, c.isspace = true
  value_first : ∃ c ∈ value.head?, c.isspace = false
  value_length : value.length ≤ 895
  /-- Neither the blanks nor the value go beyond the line. -/
  one_line : ∀ c ∈ gap ++ value, c ≠ CChar.ofChar '\n'

/-- A line of the file. -/
def ConfigLine.text (line : ConfigLine) : List CChar :=
  line.key ++ line.gap ++ line.value ++ cstr "\n"

/-- The file. -/
def configText (lines : List ConfigLine) : List CChar := lines.flatMap ConfigLine.text

/-- The first line with the key. -/
def lineOf (lines : List ConfigLine) (key : List CChar) : Option ConfigLine :=
  lines.find? fun line => line.key = key

/-- **The documented lookup**, with an array for all characters of a value and its NUL. -/
structure LooksUp (lines : List ConfigLine) (key : List CChar) : Prop where
  found_iff : ∀ stack valueSize, 895 < valueSize →
    ((_utilsConfigGetStr (some (configText lines)) key valueSize stack).len ≠ 0 ↔
      ∃ line ∈ lines, line.key = key)
  value : ∀ stack valueSize, 895 < valueSize → ∀ line, lineOf lines key = some line → ∃ buffer,
    (_utilsConfigGetStr (some (configText lines)) key valueSize stack).value = some buffer ∧
      ∀ behind, stringAt buffer behind = line.value

/-- **The condition.** Of the words of the file, as they are read two by two, the first ones with
the key show the value of the first line with the key. -/
def PairedRight (lines : List ConfigLine) (key : List CChar) : Prop :=
  valueOf key (held [] (configFormat.pairs (configText lines))) =
    (lineOf lines key).map ConfigLine.value

instance (lines : List ConfigLine) (key : List CChar) : Decidable (PairedRight lines key) :=
  inferInstanceAs (Decidable (_ = _))

/-- No value contains a blank. -/
def ValuesSolid (lines : List ConfigLine) : Prop :=
  ∀ line ∈ lines, ∀ c ∈ line.value, c.isspace = false

section Lines

variable {lines : List ConfigLine} {line : ConfigLine} {key cval : List CChar}

theorem configText_cons (line : ConfigLine) (lines : List ConfigLine) :
    configText (line :: lines) =
      line.key ++ (line.gap ++ (line.value ++ (cstr "\n" ++ configText lines))) := by
  unfold configText ConfigLine.text
  simp only [List.flatMap_cons, List.append_assoc]

/-- **What is read of the first line**: its key, and what `%895s` takes of the text behind. -/
theorem scan_line {word rest : List CChar} (line : ConfigLine) (lines : List ConfigLine)
    (taken : takeField CChar.isspace 895 (line.value ++ (cstr "\n" ++ configText lines)) =
      (word, rest)) :
    configFormat.scan (configText (line :: lines)) = some ⟨line.key, some word, rest⟩ := by
  obtain ⟨spelled, isField⟩ := takeField_eq_iff.mp taken
  have nonempty : word ≠ [] := by
    obtain ⟨c, first, solid⟩ := line.value_first
    obtain ⟨value, starts⟩ : ∃ value, line.value = c :: value := by
      cases here : line.value with
      | nil => rw [here] at first; cases first
      | cons d value => rw [here] at first; cases first; exact ⟨value, rfl⟩
    rw [starts, List.cons_append] at spelled
    exact isField.ne_nil (by decide) solid spelled
  obtain ⟨c, gap, separated⟩ := List.exists_cons_of_ne_nil line.gap_ne_nil
  have next : BlankNext CChar.isspace (line.gap ++ (word ++ rest)) := by
    intro d first
    rw [separated] at first
    cases first
    exact line.gap_blank c (separated ▸ List.mem_cons_self)
  rw [configText_cons, spelled]
  exact scan_pair_iff.mpr ⟨_, ⟨⟨line.key_solid, line.key_length.2.trans (by decide), .inr next⟩,
    List.ne_nil_of_length_pos line.key_length.1, [], by simp, rfl⟩,
    ⟨isField, nonempty, line.gap, line.gap_blank, rfl⟩⟩

/-- A line without blanks in its value is read as it is meant. -/
theorem pairs_line (solid : ∀ c ∈ line.value, c.isspace = false) (lines : List ConfigLine) :
    configFormat.pairs (configText (line :: lines)) =
      (line.key, some line.value) :: configFormat.pairs (configText lines) := by
  have isField : IsField CChar.isspace 895 line.value (cstr "\n" ++ configText lines) := by
    refine ⟨solid, line.value_length, .inr fun c first => ?_⟩
    cases first
    decide
  rw [pairs_some (scan_line line lines (takeField_eq_iff.mpr ⟨rfl, isField⟩))]
  have newline : ∀ c ∈ cstr "\n", configFormat.blank c = true := by decide
  exact congrArg _ (pairs_blanks newline _)

theorem lineOf_cons (line : ConfigLine) (lines : List ConfigLine) (key : List CChar) :
    lineOf (line :: lines) key = if line.key = key then some line else lineOf lines key := by
  unfold lineOf
  rw [List.find?_cons]
  by_cases here : line.key = key <;> simp [here]

/-- **Solid values are looked up right.** -/
theorem valueOf_solid (solid : ValuesSolid lines) (key cval : List CChar) :
    valueOf key (held cval (configFormat.pairs (configText lines))) =
      (lineOf lines key).map ConfigLine.value := by
  induction lines generalizing cval with
  | nil =>
    rw [pairs_none (scan_none_iff.mpr (by simp [configText]))]
    rfl
  | cons line lines ih =>
    unfold ValuesSolid at solid
    rw [List.forall_mem_cons] at solid
    rw [pairs_line solid.1, held, valueOf_cons, lineOf_cons, ih solid.2]
    split_ifs <;> rfl

/-- The first value with a blank is cut, and a key that is on no line before is found with what is
left of it. -/
theorem valueOf_cut {before after : List ConfigLine} (solid : ValuesSolid before)
    (fresh : lineOf before line.key = none) (blank : ∃ c ∈ line.value, c.isspace = true)
    (cval : List CChar) : valueOf line.key (held cval
      (configFormat.pairs (configText (before ++ line :: after)))) ≠ some line.value := by
  induction before generalizing cval with
  | nil =>
    cases taken : takeField CChar.isspace 895 (line.value ++ (cstr "\n" ++ configText after)) with
    | mk word rest =>
    rw [List.nil_append, pairs_some (scan_line line after taken), held, valueOf_cons, if_pos rfl]
    rintro same
    obtain ⟨c, member, separates⟩ := blank
    rw [← Option.some.inj same] at member
    have whole := (takeField_eq_iff.mp taken).2.solid c member
    rw [separates] at whole
    cases whole
  | cons first before ih =>
    unfold ValuesSolid at solid
    rw [List.forall_mem_cons] at solid
    rw [lineOf_cons] at fresh
    split_ifs at fresh with here
    rw [List.cons_append, pairs_line solid.1, held, valueOf_cons, if_neg here]
    exact ih solid.2 fresh first.value

/-- What is read of a file does not depend on what was in the buffer. -/
theorem held_configText (lines : List ConfigLine) (cval cval' : List CChar) :
    held cval (configFormat.pairs (configText lines)) =
      held cval' (configFormat.pairs (configText lines)) := by
  cases lines with
  | nil =>
    rw [pairs_none (scan_none_iff.mpr (by simp [configText]))]
    rfl
  | cons line lines =>
    cases taken : takeField CChar.isspace 895 (line.value ++ (cstr "\n" ++ configText lines)) with
    | mk word rest =>
    rw [pairs_some (scan_line line lines taken)]
    rfl

/-- What `cval` holds after an `fscanf` is a value of the file, or what it held before. -/
theorem held_value {pairs : List (List CChar × Option (List CChar))}
    {p : List CChar × List CChar} (member : p ∈ held cval pairs) :
    p.2 = cval ∨ ∃ q ∈ pairs, q.2 = some p.2 := by
  induction pairs generalizing cval with
  | nil => cases member
  | cons q pairs ih =>
    obtain ⟨ckey, value⟩ := q
    rcases List.mem_cons.mp member with rfl | later
    · cases value with
      | none => exact .inl rfl
      | some value => exact .inr ⟨_, List.mem_cons_self, rfl⟩
    · rcases ih later with same | ⟨q, later, same⟩
      · cases value with
        | none => exact .inl same
        | some value =>
          rw [same]
          exact .inr ⟨_, List.mem_cons_self, rfl⟩
      · exact .inr ⟨q, List.mem_cons_of_mem _ later, same⟩

/-- What a file of lines shows for a key is a value that fits into the array. -/
theorem valueOf_bounds {value : List CChar}
    (shown : valueOf key (held [] (configFormat.pairs (configText lines))) = some value) :
    value ≠ [] ∧ value.length ≤ 895 := by
  rw [held_configText lines [] (cstr "x")] at shown
  obtain ⟨p, found, rfl⟩ := Option.map_eq_some_iff.mp shown
  rcases held_value (List.mem_of_find?_eq_some found) with stale | ⟨q, member, here⟩
  · rw [stale]
    decide
  · exact value_bounds member here

theorem lineOf_isSome_iff : (lineOf lines key).isSome ↔ ∃ line ∈ lines, line.key = key := by
  unfold lineOf
  simp

/-- The lookup is right exactly if the words are paired right. -/
theorem looksUp_iff (lines : List ConfigLine) (key : List CChar) :
    LooksUp lines key ↔ PairedRight lines key := by
  have result : ∀ stack valueSize,
      _utilsConfigGetStr (some (configText lines)) key valueSize stack =
        getStrResult valueSize
          (valueOf key (held [] (configFormat.pairs (configText lines)))) := by
    intro stack valueSize
    rw [getStr_eq, held_configText lines stack []]
  unfold PairedRight
  constructor
  · intro looksUp
    have found := looksUp.found_iff [] 896 (by decide)
    rw [← lineOf_isSome_iff, result] at found
    cases shown : valueOf key (held [] (configFormat.pairs (configText lines))) with
    | none =>
      rw [shown] at found
      cases first : lineOf lines key with
      | none => rfl
      | some line =>
        rw [first] at found
        exact absurd rfl (found.mpr rfl)
    | some value =>
      obtain ⟨nonempty, short⟩ := valueOf_bounds shown
      rw [shown] at found
      have some' := found.mp fun empty => nonempty (List.length_eq_zero_iff.mp empty)
      obtain ⟨line, first⟩ := Option.isSome_iff_exists.mp some'
      obtain ⟨buffer, written, reads⟩ := looksUp.value [] 896 (by decide) line first
      rw [result, shown] at written
      cases written
      rw [first, Option.map_some, ← reads [], stringAt_strncpy (by omega)]
  · intro paired
    refine ⟨fun stack valueSize large => ?_, fun stack valueSize large line first => ?_⟩
    · rw [result, ← lineOf_isSome_iff]
      cases first : lineOf lines key with
      | none =>
        rw [first] at paired
        rw [paired]
        simp [getStrResult]
      | some line =>
        rw [first] at paired
        rw [paired]
        simpa [getStrResult] using (valueOf_bounds paired).1
    · rw [first] at paired
      have short := (valueOf_bounds paired).2
      rw [result, paired]
      exact ⟨_, rfl, stringAt_strncpy (by omega)⟩

/-- The first of the values with a blank. -/
theorem exists_first_cut (cut : ¬ ValuesSolid lines) : ∃ before line after,
    lines = before ++ line :: after ∧ ValuesSolid before ∧ ∃ c ∈ line.value, c.isspace = true := by
  induction lines with
  | nil => exact absurd (by simp [ValuesSolid]) cut
  | cons line lines ih =>
    by_cases solid : ∀ c ∈ line.value, c.isspace = false
    · have later : ¬ ValuesSolid lines := fun later =>
        cut (List.forall_mem_cons.mpr ⟨solid, later⟩)
      obtain ⟨before, first, after, rfl, inner, blank⟩ := ih later
      exact ⟨line :: before, first, after, rfl, List.forall_mem_cons.mpr ⟨solid, inner⟩, blank⟩
    · refine ⟨[], line, lines, rfl, by simp [ValuesSolid], ?_⟩
      simpa using solid

/-- **The documented format.** The lookup of a key is right exactly if the pairs of words show the
value of its first line. So it is for every key if no value contains a blank; and if it is for every
key and the keys of the lines differ, no value does. -/
theorem config_lookup_iff (lines : List ConfigLine) :
    (∀ key, LooksUp lines key ↔ PairedRight lines key) ∧
      (ValuesSolid lines → ∀ key, LooksUp lines key) ∧
      ((lines.map ConfigLine.key).Nodup → (∀ key, LooksUp lines key) → ValuesSolid lines) := by
  refine ⟨looksUp_iff lines, fun solid key => ?_, fun distinct looksUp => ?_⟩
  · exact (looksUp_iff lines key).mpr (valueOf_solid solid key [])
  · by_contra cut
    obtain ⟨before, line, after, rfl, solid, blank⟩ := exists_first_cut cut
    have fresh : lineOf before line.key = none := by
      refine List.find?_eq_none.mpr fun other member => ?_
      rw [List.map_append, List.map_cons] at distinct
      have apart := (List.nodup_append.mp distinct).2.2 other.key (List.mem_map_of_mem member)
        line.key List.mem_cons_self
      simpa using apart
    have paired := (looksUp_iff _ line.key).mp (looksUp line.key)
    have first : lineOf (before ++ line :: after) line.key = some line := by
      unfold lineOf at fresh ⊢
      rw [List.find?_append, fresh]
      simp
    unfold PairedRight at paired
    rw [first] at paired
    exact valueOf_cut solid fresh blank [] paired

/-- The line `b 1`. -/
def plainLine : ConfigLine where
  key := cstr "b"
  gap := cstr " "
  value := cstr "1"
  key_length := by decide
  key_solid := by decide
  gap_ne_nil := by decide
  gap_blank := by decide
  value_first := ⟨CChar.ofChar '1', rfl, by decide⟩
  value_length := by decide
  one_line := by decide

/-- The line `a x y`. -/
def cutLine : ConfigLine where
  key := cstr "a"
  gap := cstr " "
  value := cstr "x y"
  key_length := by decide
  key_solid := by decide
  gap_ne_nil := by decide
  gap_blank := by decide
  value_first := ⟨CChar.ofChar 'x', rfl, by decide⟩
  value_length := by decide
  one_line := by decide

/-- A file of one line, whose value has one word. -/
theorem config_lookup_plain : LooksUp [plainLine] (cstr "b") ∧ ValuesSolid [plainLine] := by
  have exact := config_lookup_iff [plainLine]
  have solid : ValuesSolid [plainLine] := by
    intro line member
    cases List.mem_singleton.mp member
    decide
  exact ⟨exact.2.1 solid (cstr "b"), exact.2.2 (by decide) (exact.2.1 solid)⟩

/-- **A value with a blank.** Of the file `a x y`, `b 1`, the key `a` is found with the value `x`,
the key `b` is not found, and `y`, which is no key, is found with the value `b`. -/
theorem config_lookup_cut : ¬ LooksUp [cutLine, plainLine] (cstr "a") ∧
    ¬ LooksUp [cutLine, plainLine] (cstr "b") ∧ ¬ LooksUp [cutLine, plainLine] (cstr "y") := by
  simp only [looksUp_iff]
  decide

end Lines

end Arax.Utils
