/-
**Scanning a text for pairs of words.**

A scanner that takes two words at a time skips blanks, takes a word, skips blanks and takes another
one. Each of the two words has a greatest width, and what is left of a longer word is read as the
next one. The first word of a pair is its key, the second one its value, and at the end of the text
a key can be left without a value.

* `PairFormat` — which characters are blank, and the two widths.
* `PairFormat.scan` — one pair, and what is left of the text.
* `scan_pair_iff`, `scan_lone_iff`, `scan_none_iff` — how a text is spelled of which a pair, a lone
  key or nothing is scanned.
* `PairFormat.pairs` — all the pairs of a text.
* `tokens`, `pairs_eq_pairUp` — the words of a text without widths, and when the pairs are made of
  them.
* `PairFormat.complete`, `PairFormat.leftover`, `pairs_append` — the pairs that stay the same
  whatever is appended to the text, and the text behind them.
-/

import Mathlib.Data.List.TakeWhile
import Mathlib.Tactic.SplitIfs

namespace Arax.Lib

variable {χ : Type*}

/-! ### Fields and blanks -/

/-- The word at the start of a text, up to a width, and what is left of the text. -/
def takeField (blank : χ → Bool) : Nat → List χ → List χ × List χ
  | 0, cs => ([], cs)
  | _ + 1, [] => ([], [])
  | width + 1, c :: cs =>
    if blank c then ([], c :: cs)
    else (c :: (takeField blank width cs).1, (takeField blank width cs).2)

/-- The next character of a text, if there is one, is a blank. -/
def BlankNext (blank : χ → Bool) (cs : List χ) : Prop := ∀ c ∈ cs.head?, blank c = true

/-- `word` is the field of this width at the start of the text `word ++ rest`. -/
structure IsField (blank : χ → Bool) (width : Nat) (word rest : List χ) : Prop where
  solid : ∀ c ∈ word, blank c = false
  fits : word.length ≤ width
  ends : word.length = width ∨ BlankNext blank rest

section Fields

variable {blank : χ → Bool} {width : Nat} {word rest gap cs : List χ}

theorem takeField_eq_iff : takeField blank width cs = (word, rest) ↔
    cs = word ++ rest ∧ IsField blank width word rest := by
  induction width generalizing cs word with
  | zero =>
    constructor
    · intro taken
      cases taken
      exact ⟨rfl, by simp, le_refl 0, .inl rfl⟩
    · rintro ⟨rfl, isField⟩
      rw [List.length_eq_zero_iff.mp (Nat.le_zero.mp isField.fits)]
      rfl
  | succ width ih =>
    cases cs with
    | nil =>
      constructor
      · intro taken
        cases taken
        exact ⟨rfl, by simp, Nat.zero_le _, .inr (by simp [BlankNext])⟩
      · rintro ⟨spelled, -⟩
        obtain ⟨rfl, rfl⟩ := List.append_eq_nil_iff.mp spelled.symm
        rfl
    | cons c cs =>
      unfold takeField
      by_cases separates : blank c = true
      · rw [if_pos separates]
        constructor
        · intro taken
          cases taken
          exact ⟨rfl, by simp, Nat.zero_le _, .inr (by simp [BlankNext, separates])⟩
        · rintro ⟨spelled, isField⟩
          cases word with
          | nil => rw [spelled, List.nil_append]
          | cons d word =>
            obtain ⟨rfl, -⟩ := List.cons.inj spelled
            rw [isField.solid c List.mem_cons_self] at separates
            cases separates
      · rw [if_neg separates]
        have solid : blank c = false := by simpa using separates
        constructor
        · intro taken
          cases taken
          obtain ⟨spelled, inner⟩ := ih.mp rfl
          refine ⟨by rw [List.cons_append, ← spelled], ?_, Nat.succ_le_succ inner.fits, ?_⟩
          · exact List.forall_mem_cons.mpr ⟨solid, inner.solid⟩
          · exact inner.ends.imp_left (congrArg Nat.succ)
        · rintro ⟨spelled, isField⟩
          cases word with
          | nil =>
            -- a field that ends before a solid character would have to be full
            rw [List.nil_append] at spelled
            rcases isField.ends with full | next
            · cases full
            · rw [← spelled] at next
              exact absurd (next c rfl) separates
          | cons d word =>
            obtain ⟨rfl, rfl⟩ := List.cons.inj spelled
            have inner : IsField blank width word rest :=
              ⟨fun x member => isField.solid x (List.mem_cons_of_mem c member),
                Nat.le_of_succ_le_succ isField.fits, isField.ends.imp_left Nat.succ.inj⟩
            have shorter := ih.mpr ⟨rfl, inner⟩
            show (c :: (takeField blank width (word ++ rest)).1,
              (takeField blank width (word ++ rest)).2) = _
            rw [shorter]

/-- Blanks before a text that does not start with one. -/
theorem dropWhile_blanks (blanks : ∀ c ∈ gap, blank c = true)
    (next : ∀ c ∈ cs.head?, blank c = false) : (gap ++ cs).dropWhile blank = cs := by
  rw [List.dropWhile_append_of_pos blanks]
  cases cs with
  | nil => rfl
  | cons c cs => exact List.dropWhile_cons_of_neg (by simp [next c rfl])

/-- The blanks at the start of a text. -/
theorem exists_blanks (blank : χ → Bool) (cs : List χ) : ∃ gap, (∀ c ∈ gap, blank c = true) ∧
    cs = gap ++ cs.dropWhile blank ∧ ∀ c ∈ (cs.dropWhile blank).head?, blank c = false := by
  refine ⟨cs.takeWhile blank, fun c => List.mem_takeWhile_imp, ?_, ?_⟩
  · exact List.takeWhile_append_dropWhile.symm
  · intro c next
    have stopped := List.head?_dropWhile_not blank cs
    rw [Option.mem_def.mp next] at stopped
    simpa using stopped

theorem IsField.ne_nil {c : χ} (positive : 0 < width) (solid : blank c = false)
    (isField : IsField blank width word rest) (spelled : c :: cs = word ++ rest) : word ≠ [] := by
  rintro rfl
  rcases isField.ends with full | next
  · exact positive.ne full
  · rw [List.nil_append] at spelled
    rw [← spelled] at next
    have separates := next c rfl
    rw [solid] at separates
    cases separates

/-- More text behind a field that is ended. -/
theorem IsField.append (isField : IsField blank width word rest)
    (ended : rest ≠ [] ∨ word.length = width) (more : List χ) :
    IsField blank width word (rest ++ more) := by
  refine ⟨isField.solid, isField.fits, ?_⟩
  rcases ended with here | full
  · obtain ⟨c, rest, rfl⟩ := List.exists_cons_of_ne_nil here
    exact isField.ends
  · exact .inl full

end Fields

/-- The words of a text. -/
def tokens (blank : χ → Bool) (cs : List χ) : List (List χ) :=
  (cs.splitOnP blank).filter fun word => !word.isEmpty

/-! ### Pairs -/

/-- The characters that separate words, and the greatest widths of keys and values. -/
structure PairFormat (χ : Type*) where
  blank : χ → Bool
  keyWidth : Nat
  valueWidth : Nat
  keyWidth_pos : 0 < keyWidth
  valueWidth_pos : 0 < valueWidth

/-- What one step of the scanner takes from a text, and what it leaves. -/
structure Scanned (χ : Type*) where
  key : List χ
  value : Option (List χ)
  rest : List χ

namespace PairFormat

variable (f : PairFormat χ)

/-- One step of the scanner, `none` if there is no word left. -/
def scan (cs : List χ) : Option (Scanned χ) :=
  match cs.dropWhile f.blank with
  | [] => none
  | c :: cs =>
    let (key, behind) := takeField f.blank f.keyWidth (c :: cs)
    match behind.dropWhile f.blank with
    | [] => some ⟨key, none, []⟩
    | d :: ds =>
      let (value, rest) := takeField f.blank f.valueWidth (d :: ds)
      some ⟨key, some value, rest⟩

/-- All steps of the scanner; one character of `fuel` for each of them is enough. -/
def scanAll : Nat → List χ → List (List χ × Option (List χ))
  | 0, _ => []
  | fuel + 1, cs =>
    match f.scan cs with
    | none => []
    | some s => (s.key, s.value) :: scanAll fuel s.rest

/-- The pairs of a text. -/
def pairs (cs : List χ) : List (List χ × Option (List χ)) := f.scanAll cs.length cs

/-- `cs` starts with this word, and blanks before it. -/
structure Spelled (width : Nat) (cs word rest : List χ) : Prop where
  field : IsField f.blank width word rest
  nonempty : word ≠ []
  gap : ∃ gap, (∀ c ∈ gap, f.blank c = true) ∧ cs = gap ++ (word ++ rest)

end PairFormat

section Pairs

variable {f : PairFormat χ} {width : Nat} {cs key value word rest : List χ}

theorem PairFormat.Spelled.taken (spelled : f.Spelled width cs word rest) :
    ∃ c ds, cs.dropWhile f.blank = c :: ds ∧ takeField f.blank width (c :: ds) = (word, rest) := by
  obtain ⟨isField, nonempty, gap, blanks, rfl⟩ := spelled
  obtain ⟨c, word, rfl⟩ := List.exists_cons_of_ne_nil nonempty
  refine ⟨c, word ++ rest, dropWhile_blanks blanks ?_, takeField_eq_iff.mpr ⟨rfl, isField⟩⟩
  intro d first
  cases first
  exact isField.solid c List.mem_cons_self

theorem PairFormat.spelled_of_taken {c : χ} {ds : List χ} (positive : 0 < width)
    (skipped : cs.dropWhile f.blank = c :: ds)
    (taken : takeField f.blank width (c :: ds) = (word, rest)) : f.Spelled width cs word rest := by
  obtain ⟨gap, blanks, whole, next⟩ := exists_blanks f.blank cs
  rw [skipped] at whole next
  obtain ⟨spelled, isField⟩ := takeField_eq_iff.mp taken
  exact ⟨isField, isField.ne_nil positive (next c rfl) spelled, gap, blanks, spelled ▸ whole⟩

/-- A text without words. -/
theorem scan_none_iff : f.scan cs = none ↔ ∀ c ∈ cs, f.blank c = true := by
  rw [← List.dropWhile_eq_nil_iff]
  unfold PairFormat.scan
  cases cs.dropWhile f.blank with
  | nil => simp
  | cons c ds =>
    simp only [reduceCtorEq, iff_false]
    split <;> simp

/-- **What is scanned**: a key, and behind it blanks only, or a value. -/
theorem scan_some {s : Scanned χ} (scanned : f.scan cs = some s) :
    ∃ behind, f.Spelled f.keyWidth cs s.key behind ∧
      ((s.value = none ∧ s.rest = [] ∧ ∀ c ∈ behind, f.blank c = true) ∨
        ∃ value, s.value = some value ∧ f.Spelled f.valueWidth behind value s.rest) := by
  unfold PairFormat.scan at scanned
  split at scanned
  · cases scanned
  · next c ds skipped =>
    cases taken : takeField f.blank f.keyWidth (c :: ds) with | mk key behind =>
    have first := PairFormat.spelled_of_taken f.keyWidth_pos skipped taken
    simp only [taken] at scanned
    split at scanned
    · next skipped' =>
      cases scanned
      exact ⟨behind, first, .inl ⟨rfl, rfl, List.dropWhile_eq_nil_iff.mp skipped'⟩⟩
    · next d es skipped' =>
      cases scanned
      exact ⟨behind, first,
        .inr ⟨_, rfl, PairFormat.spelled_of_taken f.valueWidth_pos skipped' rfl⟩⟩

/-- A text with two words or more. -/
theorem scan_pair_iff : f.scan cs = some ⟨key, some value, rest⟩ ↔
    ∃ behind, f.Spelled f.keyWidth cs key behind ∧ f.Spelled f.valueWidth behind value rest := by
  constructor
  · intro scanned
    obtain ⟨behind, first, ⟨lone, -⟩ | ⟨value', same, second⟩⟩ := scan_some scanned
    · cases lone
    · cases same
      exact ⟨behind, first, second⟩
  · rintro ⟨behind, first, second⟩
    obtain ⟨c, ds, skipped, taken⟩ := first.taken
    obtain ⟨d, es, skipped', taken'⟩ := second.taken
    unfold PairFormat.scan
    rw [skipped]
    simp only [taken]
    rw [skipped']
    simp only [taken']

/-- A text with one word, as the scanner cuts it. -/
theorem scan_lone_iff : f.scan cs = some ⟨key, none, rest⟩ ↔
    rest = [] ∧ ∃ behind, f.Spelled f.keyWidth cs key behind ∧ ∀ c ∈ behind, f.blank c = true := by
  constructor
  · intro scanned
    obtain ⟨behind, first, ⟨-, ended, blanks⟩ | ⟨value', same, -⟩⟩ := scan_some scanned
    · exact ⟨ended, behind, first, blanks⟩
    · cases same
  · rintro ⟨rfl, behind, first, blanks⟩
    obtain ⟨c, ds, skipped, taken⟩ := first.taken
    unfold PairFormat.scan
    rw [skipped]
    simp only [taken]
    rw [List.dropWhile_eq_nil_iff.mpr blanks]

/-- A word of a text is a part of it. -/
theorem PairFormat.Spelled.shorter (spelled : f.Spelled width cs word rest) :
    rest.length < cs.length := by
  obtain ⟨-, nonempty, gap, -, rfl⟩ := spelled
  have positive := List.length_pos_iff.mpr nonempty
  simp only [List.length_append]
  omega

theorem scan_shorter {s : Scanned χ} (scanned : f.scan cs = some s) :
    s.rest.length < cs.length := by
  obtain ⟨behind, first, ⟨-, ended, -⟩ | ⟨value, -, second⟩⟩ := scan_some scanned
  · rw [ended]
    exact (Nat.zero_le behind.length).trans_lt first.shorter
  · exact second.shorter.trans first.shorter

/-- **Induction over the steps of the scanner.** -/
theorem scan_induction (f : PairFormat χ) {P : List χ → Prop}
    (ended : ∀ cs, f.scan cs = none → P cs)
    (step : ∀ cs s, f.scan cs = some s → P s.rest → P cs) (cs : List χ) : P cs := by
  induction n : cs.length using Nat.strong_induction_on generalizing cs with
  | _ n ih =>
    subst n
    cases scanned : f.scan cs with
    | none => exact ended cs scanned
    | some s => exact step cs s scanned (ih _ (scan_shorter scanned) s.rest rfl)

/-- More fuel than characters makes no difference. -/
theorem scanAll_eq_pairs {fuel : Nat} (enough : cs.length ≤ fuel) :
    f.scanAll fuel cs = f.pairs cs := by
  induction cs using scan_induction f generalizing fuel with
  | ended cs ended =>
    unfold PairFormat.pairs
    have stops : ∀ n, f.scanAll n cs = [] := by
      intro n
      cases n with
      | zero => rfl
      | succ n => simp only [PairFormat.scanAll, ended]
    rw [stops, stops]
  | step cs s scanned ih =>
    have shorter := scan_shorter scanned
    unfold PairFormat.pairs
    obtain ⟨n, rfl⟩ := Nat.exists_eq_succ_of_ne_zero (by omega : fuel ≠ 0)
    obtain ⟨m, length⟩ := Nat.exists_eq_succ_of_ne_zero (by omega : cs.length ≠ 0)
    rw [length]
    simp only [PairFormat.scanAll, scanned]
    rw [ih (by omega), ih (by omega)]

theorem pairs_none (ended : f.scan cs = none) : f.pairs cs = [] := by
  rw [← scanAll_eq_pairs (Nat.le_succ cs.length)]
  simp only [PairFormat.scanAll, ended]

theorem pairs_some {s : Scanned χ} (scanned : f.scan cs = some s) :
    f.pairs cs = (s.key, s.value) :: f.pairs s.rest := by
  rw [← scanAll_eq_pairs (Nat.le_succ cs.length)]
  simp only [PairFormat.scanAll, scanned]
  rw [scanAll_eq_pairs (scan_shorter scanned).le]

/-- Blanks before a text. -/
theorem pairs_blanks {gap : List χ} (blanks : ∀ c ∈ gap, f.blank c = true) (cs : List χ) :
    f.pairs (gap ++ cs) = f.pairs cs := by
  have same : f.scan (gap ++ cs) = f.scan cs := by
    unfold PairFormat.scan
    rw [List.dropWhile_append_of_pos blanks]
  cases scanned : f.scan cs with
  | none => rw [pairs_none scanned, pairs_none (same.trans scanned)]
  | some s => rw [pairs_some scanned, pairs_some (same.trans scanned)]

/-- A value is a field of the text. -/
theorem value_spelled {p : List χ × Option (List χ)} {value : List χ} (member : p ∈ f.pairs cs)
    (here : p.2 = some value) : ∃ behind rest, f.Spelled f.valueWidth behind value rest := by
  induction cs using scan_induction f with
  | ended cs ended =>
    rw [pairs_none ended] at member
    cases member
  | step cs s scanned ih =>
    rw [pairs_some scanned] at member
    rcases List.mem_cons.mp member with rfl | later
    · obtain ⟨behind, -, ⟨lone, -⟩ | ⟨found, same, second⟩⟩ := scan_some scanned
      · cases lone.symm.trans here
      · cases same.symm.trans here
        exact ⟨behind, s.rest, second⟩
    · exact ih later

/-- A value has a character, and at most as many as its width. -/
theorem value_bounds {p : List χ × Option (List χ)} {value : List χ} (member : p ∈ f.pairs cs)
    (here : p.2 = some value) : value ≠ [] ∧ value.length ≤ f.valueWidth := by
  obtain ⟨behind, rest, spelled⟩ := value_spelled member here
  exact ⟨spelled.nonempty, spelled.field.fits⟩

/-- A value has no blanks. -/
theorem value_solid {p : List χ × Option (List χ)} {value : List χ} (member : p ∈ f.pairs cs)
    (here : p.2 = some value) : ∀ c ∈ value, f.blank c = false := by
  obtain ⟨behind, rest, spelled⟩ := value_spelled member here
  exact spelled.field.solid

end Pairs

/-! ### The words of a text -/

/-- Words taken two by two. -/
def pairUp : List (List χ) → List (List χ × Option (List χ))
  | [] => []
  | [key] => [(key, none)]
  | key :: value :: words => (key, some value) :: pairUp words

/-- No word is longer than the field that it is read into. -/
def PairFormat.Fitting (f : PairFormat χ) : List (List χ) → Prop
  | [] => True
  | [key] => key.length ≤ f.keyWidth
  | key :: value :: words =>
    key.length ≤ f.keyWidth ∧ value.length ≤ f.valueWidth ∧ f.Fitting words

instance PairFormat.decidableFitting (f : PairFormat χ) :
    (words : List (List χ)) → Decidable (f.Fitting words)
  | [] => isTrue trivial
  | [key] => inferInstanceAs (Decidable (key.length ≤ f.keyWidth))
  | key :: value :: words =>
    have := PairFormat.decidableFitting f words
    inferInstanceAs (Decidable (key.length ≤ f.keyWidth ∧ value.length ≤ f.valueWidth ∧ _))

section Tokens

variable {f : PairFormat χ} {blank : χ → Bool} {gap word rest cs : List χ}

theorem tokens_cons_blank {c : χ} (separates : blank c = true) (cs : List χ) :
    tokens blank (c :: cs) = tokens blank cs := by
  unfold tokens
  rw [List.splitOnP_cons_eq_if_modifyHead, if_pos separates]
  rfl

theorem tokens_blanks (blanks : ∀ c ∈ gap, blank c = true) (cs : List χ) :
    tokens blank (gap ++ cs) = tokens blank cs := by
  induction gap with
  | nil => rfl
  | cons c gap ih =>
    rw [List.forall_mem_cons] at blanks
    rw [List.cons_append, tokens_cons_blank blanks.1, ih blanks.2]

theorem tokens_word (solid : ∀ c ∈ word, blank c = false) (nonempty : word ≠ [])
    (next : BlankNext blank rest) : tokens blank (word ++ rest) = word :: tokens blank rest := by
  cases rest with
  | nil =>
    unfold tokens
    rw [List.append_nil, List.splitOnP_eq_singleton solid]
    simp [nonempty]
  | cons c rest =>
    rw [tokens_cons_blank (next c rfl)]
    unfold tokens
    rw [List.splitOnP_append_cons_of_forall_mem solid c (next c rfl)]
    simp [nonempty]

/-- A text starts with blanks and a word, or has blanks only. -/
theorem word_cases (blank : χ → Bool) (cs : List χ) : (∀ c ∈ cs, blank c = true) ∨
    ∃ gap word rest, cs = gap ++ (word ++ rest) ∧ (∀ c ∈ gap, blank c = true) ∧
      (∀ c ∈ word, blank c = false) ∧ word ≠ [] ∧ BlankNext blank rest := by
  obtain ⟨gap, blanks, whole, next⟩ := exists_blanks blank cs
  cases skipped : cs.dropWhile blank with
  | nil => exact .inl (List.dropWhile_eq_nil_iff.mp skipped)
  | cons c ds =>
    rw [skipped] at whole next
    have solid : blank c = false := next c rfl
    refine .inr ⟨gap, (c :: ds).takeWhile fun x => !blank x, (c :: ds).dropWhile fun x => !blank x,
      ?_, blanks, ?_, ?_, ?_⟩
    · rw [List.takeWhile_append_dropWhile]
      exact whole
    · intro x member
      simpa using List.mem_takeWhile_imp member
    · rw [List.takeWhile_cons_of_pos (by simp [solid])]
      exact List.cons_ne_nil _ _
    · intro x first
      have stopped := List.head?_dropWhile_not (fun x => !blank x) (c :: ds)
      rw [Option.mem_def.mp first] at stopped
      simpa using stopped

theorem spelled_word {width : Nat} (blanks : ∀ c ∈ gap, f.blank c = true)
    (solid : ∀ c ∈ word, f.blank c = false) (nonempty : word ≠ []) (fits : word.length ≤ width)
    (next : BlankNext f.blank rest) : f.Spelled width (gap ++ (word ++ rest)) word rest :=
  ⟨⟨solid, fits, .inr next⟩, nonempty, gap, blanks, rfl⟩

/-- A word that is longer than its field is cut. -/
theorem spelled_cut {width : Nat} (positive : 0 < width) (blanks : ∀ c ∈ gap, f.blank c = true)
    (solid : ∀ c ∈ word, f.blank c = false) (nonempty : word ≠ [])
    (next : BlankNext f.blank rest) :
    f.Spelled width (gap ++ (word ++ rest)) (word.take width) (word.drop width ++ rest) := by
  refine ⟨⟨fun c member => solid c (List.mem_of_mem_take member), List.length_take_le _ _, ?_⟩,
    ?_, gap, blanks, ?_⟩
  · by_cases long : width ≤ word.length
    · exact .inl (List.length_take_of_le long)
    · rw [List.drop_eq_nil_of_le (by omega), List.nil_append]
      exact .inr next
  · obtain ⟨n, rfl⟩ := Nat.exists_eq_succ_of_ne_zero positive.ne'
    obtain ⟨c, word, rfl⟩ := List.exists_cons_of_ne_nil nonempty
    exact List.cons_ne_nil _ _
  · rw [← List.append_assoc (word.take width), List.take_append_drop]

/-- What is left of a word that was cut is the next one. -/
theorem spelled_rest {width n : Nat} (solid : ∀ c ∈ word, f.blank c = false)
    (left : word.drop n ≠ []) (fits : (word.drop n).length ≤ width)
    (next : BlankNext f.blank rest) : f.Spelled width (word.drop n ++ rest) (word.drop n) rest :=
  ⟨⟨fun c member => solid c (List.mem_of_mem_drop member), fits, .inr next⟩, left, [], by simp, rfl⟩

/-- **Pairs of words.** If no word is cut, the scanner takes the words two by two. -/
theorem pairs_eq_pairUp (fitting : f.Fitting (tokens f.blank cs)) :
    f.pairs cs = pairUp (tokens f.blank cs) := by
  induction cs using scan_induction f with
  | ended cs ended =>
    have blanks := tokens_blanks (scan_none_iff.mp ended) []
    rw [List.append_nil] at blanks
    rw [pairs_none ended, blanks]
    rfl
  | step cs s scanned ih =>
    rcases word_cases f.blank cs with
      blanks | ⟨gap, key, behind, rfl, blanks, solid, nonempty, next⟩
    · rw [scan_none_iff.mpr blanks] at scanned
      cases scanned
    · rw [tokens_blanks blanks, tokens_word solid nonempty next] at fitting ⊢
      rcases word_cases f.blank behind with blanks' |
        ⟨gap', value, rest, rfl, blanks', solid', nonempty', next'⟩
      · -- one word is left
        have last := tokens_blanks blanks' []
        rw [List.append_nil] at last
        rw [last] at fitting ⊢
        have spelled := spelled_word blanks solid nonempty fitting next
        have lone := scan_lone_iff.mpr ⟨rfl, behind, spelled, blanks'⟩
        rw [pairs_some lone, pairs_none (scan_none_iff.mpr (by simp))]
        rfl
      · rw [tokens_blanks blanks', tokens_word solid' nonempty' next'] at fitting ⊢
        obtain ⟨fits, fits', later⟩ := fitting
        have pair := scan_pair_iff.mpr ⟨_, spelled_word blanks solid nonempty fits next,
          spelled_word blanks' solid' nonempty' fits' next'⟩
        cases Option.some.inj (scanned.symm.trans pair)
        rw [pairs_some pair, ih later]
        rfl

end Tokens

/-! ### Text that grows at its end -/

namespace PairFormat

variable (f : PairFormat χ)

/-- The pairs that are complete, and the text behind them. A value at the end of the text is
complete only if it has its full width. -/
def settle : Nat → List χ → List (List χ × List χ) × List χ
  | 0, cs => ([], cs)
  | fuel + 1, cs =>
    match f.scan cs with
    | some ⟨key, some value, rest⟩ =>
      if rest.isEmpty ∧ value.length < f.valueWidth then ([], cs)
      else ((key, value) :: (settle fuel rest).1, (settle fuel rest).2)
    | _ => ([], cs)

/-- The pairs that stay the same whatever is appended. -/
def complete (cs : List χ) : List (List χ × List χ) := (f.settle cs.length cs).1

/-- The text behind them. -/
def leftover (cs : List χ) : List χ := (f.settle cs.length cs).2

/-- What can be left: blanks, an incomplete value, or a key without a value. -/
inductive Left : List χ → Prop
  | blanks {cs : List χ} (blanks : ∀ c ∈ cs, f.blank c = true) : Left cs
  | value {cs key value : List χ} (scanned : f.scan cs = some ⟨key, some value, []⟩)
    (short : value.length < f.valueWidth) : Left cs
  | key {cs key : List χ} (scanned : f.scan cs = some ⟨key, none, []⟩) : Left cs

end PairFormat

section Growing

variable {f : PairFormat χ} {cs : List χ}

theorem PairFormat.Spelled.append {width : Nat} {word rest : List χ}
    (spelled : f.Spelled width cs word rest) (ended : rest ≠ [] ∨ word.length = width)
    (more : List χ) : f.Spelled width (cs ++ more) word (rest ++ more) := by
  obtain ⟨isField, nonempty, gap, blanks, rfl⟩ := spelled
  exact ⟨isField.append ended more, nonempty, gap, blanks, by simp only [List.append_assoc]⟩

/-- A complete pair is scanned from the longer text as well. -/
theorem scan_append {key value rest : List χ} (scanned : f.scan cs = some ⟨key, some value, rest⟩)
    (ended : ¬ (rest.isEmpty ∧ value.length < f.valueWidth)) (more : List χ) :
    f.scan (cs ++ more) = some ⟨key, some value, rest ++ more⟩ := by
  obtain ⟨behind, first, second⟩ := scan_pair_iff.mp scanned
  have follows : behind ≠ [] := by
    rintro rfl
    exact absurd second.shorter (Nat.not_lt_zero _)
  have closed : rest ≠ [] ∨ value.length = f.valueWidth := by
    rw [List.isEmpty_iff, not_and_or, not_lt] at ended
    exact ended.imp_right (le_antisymm second.field.fits)
  exact scan_pair_iff.mpr ⟨_, first.append (.inl follows) more, second.append closed more⟩

/-- Text behind complete pairs adds its own pairs. -/
theorem settle_append {fuel : Nat} (enough : cs.length ≤ fuel) (more : List χ) :
    f.pairs (cs ++ more) = (f.settle fuel cs).1.map (fun p => (p.1, some p.2)) ++
      f.pairs ((f.settle fuel cs).2 ++ more) := by
  induction fuel generalizing cs with
  | zero => rfl
  | succ fuel ih =>
    unfold PairFormat.settle
    split
    · next key value rest scanned =>
      split_ifs with incomplete
      · rfl
      · have shorter := scan_shorter scanned
        rw [pairs_some (scan_append scanned incomplete more)]
        exact congrArg _ (ih (by simp only at shorter; omega))
    · rfl

theorem settle_left {fuel : Nat} (enough : cs.length ≤ fuel) : f.Left (f.settle fuel cs).2 := by
  induction fuel generalizing cs with
  | zero =>
    rw [List.length_eq_zero_iff.mp (Nat.le_zero.mp enough)]
    exact .blanks (by simp [PairFormat.settle])
  | succ fuel ih =>
    unfold PairFormat.settle
    split
    · next key value rest scanned =>
      split_ifs with incomplete
      · obtain ⟨none, short⟩ := incomplete
        rw [List.isEmpty_iff.mp none] at scanned
        exact .value scanned short
      · have shorter := scan_shorter scanned
        exact ih (by simp only at shorter; omega)
    · next other =>
      cases scanned : f.scan cs with
      | none => exact .blanks (scan_none_iff.mp scanned)
      | some s =>
        obtain ⟨key, value, rest⟩ := s
        cases value with
        | none =>
          obtain ⟨rfl, -⟩ := scan_lone_iff.mp scanned
          exact .key scanned
        | some value => exact absurd scanned (other key value rest)

/-- **Appending.** The complete pairs stay, and the pairs behind them are those of what is left with
the appended text. -/
theorem pairs_append (f : PairFormat χ) (cs more : List χ) :
    f.pairs (cs ++ more) =
      (f.complete cs).map (fun p => (p.1, some p.2)) ++ f.pairs (f.leftover cs ++ more) :=
  settle_append (le_refl _) more

/-- The pairs of a text are the complete ones and those of what is left. -/
theorem pairs_split (f : PairFormat χ) (cs : List χ) :
    f.pairs cs = (f.complete cs).map (fun p => (p.1, some p.2)) ++ f.pairs (f.leftover cs) := by
  have whole := pairs_append f cs []
  rw [List.append_nil, List.append_nil] at whole
  exact whole

theorem leftover_left (f : PairFormat χ) (cs : List χ) : f.Left (f.leftover cs) :=
  settle_left (le_refl _)

end Growing

end Arax.Lib
