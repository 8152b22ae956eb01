/-
**Core placement (`CpuSet` in `controller/src/Core/Config.cpp`).**

The cores of an accelerator thread are read from a word of the configuration, numbers with commas
between them, and printed in the same form. A number below zero stands for all cores; a core that
does not exist is an error.

A text is the list of its characters. `cores` is what `std::thread::hardware_concurrency()` returns.

* `CpuSet.extract`, `CpuSet.print` — `operator >>` and `operator <<`.
* `cpuSet_extract` — what is read has existing cores only, or the error names one that is not.
* `cpuSet_round_trip` — what is printed is read back.
-/

import Mathlib.Algebra.Order.Ring.Int
import Mathlib.Data.Finset.Lattice.Basic
import Mathlib.Data.Finset.Range
import Mathlib.Data.List.TakeWhile
import Mathlib.Tactic.SplitIfs

namespace Arax.Controller

/-! ### The set -/

/-- `CPU_SETSIZE`. -/
def cpuSetSize : Nat := 1024

/-- `cpu_set_t`, by the bits that are set. -/
structure CpuSet where
  bits : Finset Nat
  inside : bits ⊆ Finset.range cpuSetSize
  deriving DecidableEq

namespace CpuSet

/-- `CPU_ZERO`. -/
def zero : CpuSet := ⟨∅, Finset.empty_subset _⟩

/-- `CPU_SET`; it ignores what is no bit of the set. -/
def insert (set : CpuSet) (core : Nat) : CpuSet :=
  if low : core < cpuSetSize then
    ⟨Insert.insert core set.bits, Finset.insert_subset (Finset.mem_range.mpr low) set.inside⟩
  else set

/-- `CpuSet::setAll`. -/
def setAll (cores : Nat) (set : CpuSet) : CpuSet := (List.range cores).foldl insert set

/-- What `CpuSet::set` throws. -/
def nonExisting (core : Nat) : List Char :=
  "Setting non existing core ".toList ++ Nat.toDigits 10 core

/-- `CpuSet::set`. -/
def set (cores : Nat) (set : CpuSet) (core : Int) : Except (List Char) CpuSet :=
  if 0 ≤ core then
    if (cores : Int) ≤ core then .error (nonExisting core.toNat) else .ok (set.insert core.toNat)
  else .ok (set.setAll cores)

end CpuSet

/-! ### Streams -/

/-- `isspace`. -/
def isspace (c : Char) : Bool := decide (c.toNat = 32 ∨ 9 ≤ c.toNat ∧ c.toNat ≤ 13)

/-- `is >> word`. -/
def extractWord (text : List Char) : List Char :=
  (text.dropWhile isspace).takeWhile fun c => !isspace c

/-- A sign, and what follows it. -/
def extractSign : List Char → Bool × List Char
  | '-' :: text => (true, text)
  | '+' :: text => (false, text)
  | text => (false, text)

/-- `is >> number` for an `int`: the number and what is left, `none` if it fails. -/
def extractInt (text : List Char) : Option (Int × List Char) :=
  let signed := extractSign (text.dropWhile isspace)
  let digits := signed.2.takeWhile Char.isDigit
  let magnitude : Int := Nat.ofDigitChars 10 digits 0
  let number := if signed.1 then -magnitude else magnitude
  if digits = [] ∨ number < -2 ^ 31 ∨ 2 ^ 31 ≤ number then none
  else some (number, signed.2.dropWhile Char.isDigit)

/-- The loop of `operator >>`, for at most `fuel` numbers. -/
def CpuSet.extractLoop (cores : Nat) : Nat → List Char → CpuSet → Except (List Char) CpuSet
  | 0, _, set => .ok set
  | fuel + 1, text, set =>
    match extractInt text with
    | none => .ok set
    | some (core, rest) =>
      match set.set cores core with
      | .ok set => extractLoop cores fuel rest set
      | .error what => .error what

/-- `std::replace(fmt.begin(), fmt.end(), ',', ' ')`. -/
def replaceCommas (fmt : List Char) : List Char := fmt.map fun c => if c = ',' then ' ' else c

/-- `operator >>`. -/
def CpuSet.extract (cores : Nat) (text : List Char) (set : CpuSet) : Except (List Char) CpuSet :=
  CpuSet.extractLoop cores ((extractWord text).length + 1) (replaceCommas (extractWord text)) set

/-- `operator <<`. -/
def CpuSet.print (cores : Nat) (set : CpuSet) : List Char :=
  List.intercalate [',']
    (((List.range cores).filter (· ∈ set.bits)).map fun core => Nat.toDigits 10 core)

/-! ### The set -/

section Sets

variable {cores : Nat} {s t : CpuSet}

theorem CpuSet.mem_insert {core c : Nat} :
    c ∈ (s.insert core).bits ↔ c ∈ s.bits ∨ c = core ∧ core < cpuSetSize := by
  unfold CpuSet.insert
  split_ifs with low
  · rw [Finset.mem_insert, or_comm, and_iff_left low]
  · exact (or_iff_left fun here => low here.2).symm

theorem CpuSet.mem_foldl_insert {l : List Nat} {c : Nat} :
    c ∈ (l.foldl CpuSet.insert s).bits ↔ c ∈ s.bits ∨ c ∈ l ∧ c < cpuSetSize := by
  induction l generalizing s with
  | nil => exact (or_iff_left fun none => by cases none.1).symm
  | cons core l ih =>
    rw [List.foldl_cons, ih, CpuSet.mem_insert, List.mem_cons, or_assoc, or_and_right]
    exact or_congr_right (or_congr_left (and_congr_right fun same => by rw [same]))

theorem CpuSet.mem_setAll {c : Nat} :
    c ∈ (s.setAll cores).bits ↔ c ∈ s.bits ∨ c < cores ∧ c < cpuSetSize := by
  unfold CpuSet.setAll
  rw [CpuSet.mem_foldl_insert, List.mem_range]

/-- What `CpuSet::set` does to the set: it adds existing cores. -/
structure Grows (cores : Nat) (s t : CpuSet) : Prop where
  kept : s.bits ⊆ t.bits
  existing : ∀ c ∈ t.bits, c ∈ s.bits ∨ c < cores

theorem Grows.refl (cores : Nat) (s : CpuSet) : Grows cores s s :=
  ⟨Finset.Subset.refl _, fun _ member => .inl member⟩

theorem Grows.trans {u : CpuSet} (first : Grows cores s t) (second : Grows cores t u) :
    Grows cores s u :=
  ⟨first.kept.trans second.kept, fun c member =>
    (second.existing c member).elim (first.existing c) .inr⟩

theorem CpuSet.set_ok {core : Int} (done : s.set cores core = .ok t) : Grows cores s t := by
  unfold CpuSet.set at done
  split_ifs at done with number missing
  · cases done
    refine ⟨fun c member => CpuSet.mem_insert.mpr (.inl member), fun c member => ?_⟩
    refine (CpuSet.mem_insert.mp member).imp_right fun here => ?_
    omega
  · cases done
    exact ⟨fun c member => CpuSet.mem_setAll.mpr (.inl member), fun c member =>
      (CpuSet.mem_setAll.mp member).imp_right And.left⟩

theorem CpuSet.set_error {core : Int} {what : List Char} (done : s.set cores core = .error what) :
    ∃ c, cores ≤ c ∧ what = nonExisting c := by
  unfold CpuSet.set at done
  split_ifs at done with number missing
  cases done
  exact ⟨core.toNat, by omega, rfl⟩

/-- The loop adds existing cores until it ends or comes to one that does not exist. -/
theorem CpuSet.extractLoop_spec (cores fuel : Nat) (text : List Char) (s : CpuSet) :
    (∃ t, CpuSet.extractLoop cores fuel text s = .ok t ∧ Grows cores s t) ∨
      ∃ c, cores ≤ c ∧ CpuSet.extractLoop cores fuel text s = .error (nonExisting c) := by
  induction fuel generalizing text s with
  | zero => exact .inl ⟨s, rfl, .refl cores s⟩
  | succ fuel ih =>
    unfold CpuSet.extractLoop
    cases extractInt text with
    | none => exact .inl ⟨s, rfl, .refl cores s⟩
    | some read =>
      obtain ⟨core, rest⟩ := read
      cases one : s.set cores core with
      | error what =>
        obtain ⟨c, missing, rfl⟩ := CpuSet.set_error one
        exact .inr ⟨c, missing, by simp only [one]⟩
      | ok mid =>
        simp only [one]
        rcases ih rest mid with ⟨t, done, grows⟩ | failed
        · exact .inl ⟨t, done, (CpuSet.set_ok one).trans grows⟩
        · exact .inr failed

end Sets

/-! ### Numbers in a text -/

theorem isDigit_code {c : Char} (digit : c.isDigit = true) : 48 ≤ c.toNat ∧ c.toNat ≤ 57 := by
  unfold Char.isDigit at digit
  rw [Bool.and_eq_true, decide_eq_true_iff, decide_eq_true_iff] at digit
  exact digit

theorem isDigit_not_isspace {c : Char} (digit : c.isDigit = true) : isspace c = false := by
  have code := isDigit_code digit
  unfold isspace
  rw [decide_eq_false_iff_not]
  omega

theorem toDigits_isDigit {n : Nat} {c : Char} (member : c ∈ Nat.toDigits 10 n) :
    c.isDigit = true :=
  Nat.isDigit_of_mem_toDigits (by decide) (by decide) member

/-- A text that starts with a digit has no sign. -/
theorem extractSign_digit {c : Char} {text : List Char} (digit : c.isDigit = true) :
    extractSign (c :: text) = (false, c :: text) := by
  have code := isDigit_code digit
  unfold extractSign
  split
  · next same =>
    cases same
    exact absurd code (by decide)
  · next same =>
    cases same
    exact absurd code (by decide)
  · rfl

theorem extractInt_blank (text : List Char) : extractInt (' ' :: text) = extractInt text := by
  unfold extractInt
  rw [List.dropWhile_cons_of_pos (by decide)]

/-- A number that is followed by no digit. -/
theorem extractInt_number {n : Nat} {rest : List Char} (small : n < 2 ^ 31)
    (ended : ∀ c ∈ rest.head?, c.isDigit = false) :
    extractInt (Nat.toDigits 10 n ++ rest) = some ((n : Int), rest) := by
  have digits : (Nat.toDigits 10 n ++ rest).takeWhile Char.isDigit = Nat.toDigits 10 n := by
    rw [List.takeWhile_append_of_pos fun c => toDigits_isDigit]
    cases rest with
    | nil => exact List.append_nil _
    | cons c rest =>
      rw [List.takeWhile_cons_of_neg (by simp [ended c rfl]), List.append_nil]
  have left : (Nat.toDigits 10 n ++ rest).dropWhile Char.isDigit = rest := by
    rw [List.dropWhile_append_of_pos fun c => toDigits_isDigit]
    cases rest with
    | nil => rfl
    | cons c rest => exact List.dropWhile_cons_of_neg (by simp [ended c rfl])
  obtain ⟨first, more, shape⟩ : ∃ c cs, Nat.toDigits 10 n = c :: cs :=
    List.exists_cons_of_ne_nil Nat.toDigits_ne_nil
  have digit : first.isDigit = true := toDigits_isDigit (n := n) (shape ▸ List.mem_cons_self)
  have start : extractSign ((Nat.toDigits 10 n ++ rest).dropWhile isspace) =
      (false, Nat.toDigits 10 n ++ rest) := by
    rw [shape, List.cons_append, List.dropWhile_cons_of_neg (by simp [isDigit_not_isspace digit])]
    exact extractSign_digit digit
  unfold extractInt
  simp only [start, digits, left, Nat.ofDigitChars_toDigits (b := 10) (by decide) (le_refl 10),
    Bool.false_eq_true, if_false]
  rw [if_neg]
  rintro (none | low | high)
  · exact Nat.toDigits_ne_nil none
  · omega
  · omega

/-- Numbers of existing cores with blanks between them. -/
theorem extractLoop_numbers {cores : Nat} (l : List Nat) (existing : ∀ n ∈ l, n < cores)
    (small : ∀ n ∈ l, n < 2 ^ 31) (fuel : Nat) (enough : l.length < fuel) (s : CpuSet) :
    CpuSet.extractLoop cores fuel (List.intercalate [' '] (l.map (Nat.toDigits 10))) s =
      .ok (l.foldl CpuSet.insert s) := by
  induction l generalizing fuel s with
  | nil =>
    obtain ⟨fuel, rfl⟩ := Nat.exists_eq_succ_of_ne_zero (Nat.ne_of_gt enough)
    rfl
  | cons n l ih =>
    obtain ⟨fuel, rfl⟩ := Nat.exists_eq_succ_of_ne_zero (Nat.ne_of_gt (Nat.zero_lt_of_lt enough))
    have here : s.set cores n = .ok (s.insert n) := by
      have low := existing n List.mem_cons_self
      unfold CpuSet.set
      rw [if_pos (Int.natCast_nonneg n), if_neg (by omega), Int.toNat_natCast]
    have later := ih (fun m member => existing m (List.mem_cons_of_mem _ member))
      (fun m member => small m (List.mem_cons_of_mem _ member)) fuel
      (Nat.lt_of_succ_lt_succ enough) (s.insert n)
    cases l with
    | nil =>
      rw [List.map_singleton, List.intercalate_singleton, CpuSet.extractLoop,
        ← List.append_nil (Nat.toDigits 10 n),
        extractInt_number (small n List.mem_cons_self) (fun _ none => by cases none)]
      simp only [here]
      exact later
    | cons m l =>
      have blank : CpuSet.extractLoop cores fuel
          (' ' :: List.intercalate [' '] ((m :: l).map (Nat.toDigits 10))) (s.insert n) =
            .ok ((m :: l).foldl CpuSet.insert (s.insert n)) := by
        rw [← later]
        cases fuel with
        | zero => rfl
        | succ fuel => rw [CpuSet.extractLoop, CpuSet.extractLoop, extractInt_blank]
      rw [List.map_cons, List.map_cons, List.intercalate_cons_cons, CpuSet.extractLoop,
        List.append_assoc, extractInt_number (small n List.mem_cons_self)]
      · simp only [here]
        exact blank
      · rintro c first
        cases first
        decide

/-! ### What is printed -/

/-- The characters of printed numbers. -/
theorem mem_numbers {l : List Nat} {c : Char}
    (member : c ∈ List.intercalate [','] (l.map (Nat.toDigits 10))) :
    c = ',' ∨ c.isDigit = true := by
  induction l with
  | nil => cases member
  | cons n l ih =>
    cases l with
    | nil =>
      rw [List.map_singleton, List.intercalate_singleton] at member
      exact .inr (toDigits_isDigit member)
    | cons m l =>
      rw [List.map_cons, List.map_cons, List.intercalate_cons_cons, List.append_assoc] at member
      rcases List.mem_append.mp member with digit | later
      · exact .inr (toDigits_isDigit digit)
      · exact (List.mem_cons.mp later).elim .inl ih

theorem replaceCommas_digits (n : Nat) :
    replaceCommas (Nat.toDigits 10 n) = Nat.toDigits 10 n := by
  unfold replaceCommas
  refine (List.map_congr_left fun c member => if_neg ?_).trans (List.map_id _)
  rintro rfl
  exact absurd (toDigits_isDigit member) (by decide)

theorem replaceCommas_numbers (l : List Nat) :
    replaceCommas (List.intercalate [','] (l.map (Nat.toDigits 10))) =
      List.intercalate [' '] (l.map (Nat.toDigits 10)) := by
  induction l with
  | nil => rfl
  | cons n l ih =>
    cases l with
    | nil =>
      rw [List.map_singleton, List.intercalate_singleton, List.intercalate_singleton]
      exact replaceCommas_digits n
    | cons m l =>
      rw [List.map_cons, List.map_cons, List.intercalate_cons_cons, List.intercalate_cons_cons]
      unfold replaceCommas at ih ⊢
      rw [List.map_append, List.map_append]
      exact congrArg₂ (· ++ ·) (congrArg (· ++ [' ']) (replaceCommas_digits n)) ih

theorem length_numbers (sep : Char) (l : List Nat) :
    l.length ≤ (List.intercalate [sep] (l.map (Nat.toDigits 10))).length := by
  induction l with
  | nil => exact Nat.zero_le _
  | cons n l ih =>
    have digits : 0 < (Nat.toDigits 10 n).length := Nat.length_toDigits_pos
    cases l with
    | nil =>
      rw [List.map_singleton, List.intercalate_singleton]
      exact digits
    | cons m l =>
      rw [List.map_cons, List.map_cons, List.intercalate_cons_cons, List.length_append,
        List.length_append, List.length_cons, List.length_singleton]
      have rest : (m :: l).length ≤
          (List.intercalate [sep] (Nat.toDigits 10 m :: l.map (Nat.toDigits 10))).length := ih
      omega

/-- A printed set is one word. -/
theorem extractWord_print (cores : Nat) (s : CpuSet) :
    extractWord (s.print cores) = s.print cores := by
  have solid : ∀ c ∈ s.print cores, isspace c = false := by
    intro c member
    rcases mem_numbers member with rfl | digit
    · decide
    · exact isDigit_not_isspace digit
  have whole : (s.print cores).dropWhile isspace = s.print cores := by
    cases shape : s.print cores with
    | nil => rfl
    | cons c text =>
      exact List.dropWhile_cons_of_neg (by simp [solid c (shape ▸ List.mem_cons_self)])
  unfold extractWord
  rw [whole, List.takeWhile_eq_self_iff]
  intro c member
  rw [solid c member]
  rfl

/-! ### Reading -/

/-- **What is read.** Whatever the text is, the cores that are added exist, or the error names a
core that does not. -/
theorem cpuSet_extract (cores : Nat) (text : List Char) (s : CpuSet) :
    (∃ t, CpuSet.extract cores text s = .ok t ∧ Grows cores s t) ∨
      ∃ c, cores ≤ c ∧ CpuSet.extract cores text s = .error (CpuSet.nonExisting c) :=
  CpuSet.extractLoop_spec cores _ _ s

/-- **Round trip.** A set of existing cores that is printed and read again, into any set, is added
to it. -/
theorem cpuSet_round_trip (cores : Nat) (s t : CpuSet) (existing : ∀ c ∈ s.bits, c < cores) :
    ∃ u, CpuSet.extract cores (s.print cores) t = .ok u ∧ u.bits = t.bits ∪ s.bits := by
  have low : ∀ n ∈ (List.range cores).filter (· ∈ s.bits), n < cores ∧ n ∈ s.bits := by
    intro n member
    rw [List.mem_filter, List.mem_range, decide_eq_true_iff] at member
    exact member
  have small : ∀ n ∈ (List.range cores).filter (· ∈ s.bits), n < 2 ^ 31 := by
    intro n member
    have inside := Finset.mem_range.mp (s.inside (low n member).2)
    unfold cpuSetSize at inside
    omega
  have read := extractLoop_numbers ((List.range cores).filter (· ∈ s.bits))
    (fun n member => (low n member).1) small ((s.print cores).length + 1)
    (Nat.lt_succ_of_le (length_numbers ',' _)) t
  refine ⟨((List.range cores).filter (· ∈ s.bits)).foldl CpuSet.insert t, ?_, ?_⟩
  · unfold CpuSet.extract
    rw [extractWord_print]
    unfold CpuSet.print at read ⊢
    rw [replaceCommas_numbers]
    exact read
  · ext c
    rw [CpuSet.mem_foldl_insert, Finset.mem_union, List.mem_filter, List.mem_range,
      decide_eq_true_iff]
    refine or_congr_right ⟨fun here => here.1.2, fun member => ?_⟩
    exact ⟨⟨existing c member, member⟩, Finset.mem_range.mp (s.inside member)⟩

theorem cpuSet_round_trip_at_three : ∃ s u : CpuSet, s.bits = {0, 2, 11} ∧
    s.print 16 = "0,2,11".toList ∧
      CpuSet.extract 16 (s.print 16) .zero = .ok u ∧ u.bits = ∅ ∪ s.bits := by
  let s := ((CpuSet.zero.insert 11).insert 2).insert 0
  have bits : s.bits = {0, 2, 11} := by decide +kernel
  obtain ⟨u, read, union⟩ := cpuSet_round_trip 16 s .zero (by rw [bits]; decide)
  exact ⟨s, u, bits, by decide +kernel, read, union⟩

end Arax.Controller
