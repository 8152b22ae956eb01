/-
**Expanding paths (`utils_config_alloc_path` of `src/utils/config.c`).**

The path is copied into an array of 4096 characters, with the home directory in place of each `~`.
One character takes one place of the array; a home directory is appended with `strncat`, which
writes a NUL behind it as well.

What is written outside of the array is not part of the model; `high` says how far it went. What
follows the array in memory is a parameter (`behind`).

* `utilsConfigAllocPath` — the copy, as the source makes it.
* `expand` — the path with every `~` replaced.
* `allocPath_result` — the copy is the expanded path if that has at most 4095 characters, and none
  is returned else.
* `alloc_path_iff` — all of it is written into the array exactly if no home directory ends at the
  end of the array.
-/

import Arax.Utils.Bitmap
import Arax.Utils.Config

namespace Arax.Utils

/-! ### The function -/

/-- What `system_home_path` returns: a string that shares the address space with the array. -/
structure HomePath where
  chars : List CChar
  addressable : chars.length + 4096 < 2 ^ 64

/-- The array `temp`, the index of `tp`, and `size`. -/
structure PathCopy where
  temp : Buffer
  tp : Nat
  size : Nat
  /-- One more than the greatest index that was written. -/
  high : Nat

/-- An assignment to the element at an index. -/
def PathCopy.store (s : PathCopy) (i : Nat) (c : Option CChar) : PathCopy :=
  { s with temp := s.temp.set i c, high := max s.high (i + 1) }

/-- Assignments to elements that follow each other. -/
def PathCopy.storeAll (s : PathCopy) (i : Nat) : Buffer → PathCopy
  | [] => s
  | c :: cs => (s.store i c).storeAll (i + 1) cs

/-- `strncat(temp + dest, src, n)`. -/
def PathCopy.strncat (s : PathCopy) (dest : Nat) (src : List CChar) (n : Nat)
    (behind : List CChar) : PathCopy :=
  s.storeAll (dest + (stringAt (s.temp.drop dest) behind).length) ((src.take n).map some ++ [none])

/-- `tp += n; size -= n`. -/
def PathCopy.advance (s : PathCopy) (n : Nat) : PathCopy :=
  { s with tp := s.tp + n, size := sizeSub s.size n }

/-- What `utils_config_alloc_path` returns. -/
inductive AllocPath
  | null
  | path (chars : List CChar)
  /-- `arax_assert` has failed. -/
  | aborted
  deriving DecidableEq

/-- The loop, and the copy that is returned. -/
def allocPathLoop (home : List CChar) (behind : List CChar) :
    List CChar → PathCopy → AllocPath × PathCopy
  | [], s =>
    if s.size = 0 then (.null, s)
    else
      let s := (s.store s.tp none).advance 1
      (.path (stringAt s.temp behind), s)
  | c :: path, s =>
    if s.size = 0 then (.null, s)
    else if c = CChar.ofChar '~' then
      if sizeSub s.size home.length ≤ 4096 then
        allocPathLoop home behind path
          ((s.strncat s.tp home s.size behind).advance home.length)
      else (.aborted, s)
    else allocPathLoop home behind path ((s.store s.tp (some c)).advance 1)

/-- `utils_config_alloc_path`, and what it has written. -/
def utilsConfigAllocPath (home : HomePath) (path : Option (List CChar)) (behind : List CChar) :
    AllocPath × PathCopy :=
  let temp : PathCopy := ⟨List.replicate 4096 none, 0, 4096, 0⟩
  match path with
  | none => (.null, temp)
  | some path => allocPathLoop home.chars behind path temp

/-! ### The expanded path -/

/-- The path with every `~` replaced. -/
def expand (home : List CChar) (path : List CChar) : List CChar :=
  path.flatMap fun c => if c = CChar.ofChar '~' then home else [c]

/-- **Exact and bounded.** -/
structure PathRight (home : HomePath) (path : List CChar) : Prop where
  exact : (expand home.chars path).length ≤ 4095 → ∀ behind,
    (utilsConfigAllocPath home (some path) behind).1 = .path (expand home.chars path)
  refused : 4095 < (expand home.chars path).length → ∀ behind,
    (utilsConfigAllocPath home (some path) behind).1 = .null ∨
      (utilsConfigAllocPath home (some path) behind).1 = .aborted
  bounded : ∀ behind, (utilsConfigAllocPath home (some path) behind).2.high ≤ 4096

/-- A home directory, with a character at least, ends at the end of the array. `n` characters of the
array are in use before the path. -/
def EndsAtEnd (home : List CChar) (n : Nat) (path : List CChar) : Prop :=
  home ≠ [] ∧ ∃ before after, path = before ++ CChar.ofChar '~' :: after ∧
    n + (expand home before).length + home.length = 4096

/-! ### The array -/

section Arrays

variable {e w : List CChar} {c : CChar} {cs : Buffer} {s : PathCopy}

/-- The array with a string in it. -/
def filled (e : List CChar) : Buffer := e.map some ++ List.replicate (4096 - e.length) none

theorem filled_store (room : e.length < 4096) :
    (filled e).set e.length (some c) = filled (e ++ [c]) := by
  obtain ⟨n, length⟩ : ∃ n, 4096 - e.length = n + 1 := ⟨4095 - e.length, by omega⟩
  have next : 4096 - (e ++ [c]).length = n := by
    rw [List.length_append, List.length_singleton]
    omega
  unfold filled
  rw [length, next, List.set_append_right _ _ (by rw [List.length_map]), List.length_map,
    Nat.sub_self, List.map_append, List.append_assoc]
  rfl

/-- A NUL behind the string changes nothing. -/
theorem filled_end (e : List CChar) : (filled e).set e.length none = filled e := by
  unfold filled
  rw [List.set_append_right _ _ (by rw [List.length_map]), List.length_map, Nat.sub_self]
  cases 4096 - e.length with
  | zero => rfl
  | succ n => rfl

theorem stringAt_append (w : List CChar) (buffer : Buffer) (behind : List CChar) :
    stringAt (w.map some ++ buffer) behind = w ++ stringAt buffer behind := by
  induction w with
  | nil => rfl
  | cons c w ih => exact congrArg (c :: ·) ih

theorem stringAt_filled (room : e.length < 4096) (behind : List CChar) :
    stringAt (filled e) behind = e := by
  obtain ⟨n, length⟩ : ∃ n, 4096 - e.length = n + 1 := ⟨4095 - e.length, by omega⟩
  unfold filled
  rw [stringAt_append, length]
  exact List.append_nil e

/-- The array is empty behind the string. -/
theorem stringAt_drop_filled (room : e.length < 4096) (behind : List CChar) :
    stringAt ((filled e).drop e.length) behind = [] := by
  obtain ⟨n, length⟩ : ∃ n, 4096 - e.length = n + 1 := ⟨4095 - e.length, by omega⟩
  unfold filled
  rw [List.drop_append, List.length_map, Nat.sub_self,
    List.drop_eq_nil_of_le (by rw [List.length_map]), length]
  rfl

theorem storeAll_append (s : PathCopy) (i : Nat) (cs ds : Buffer) :
    s.storeAll i (cs ++ ds) = (s.storeAll i cs).storeAll (i + cs.length) ds := by
  induction cs generalizing s i with
  | nil => rfl
  | cons c cs ih =>
    rw [List.length_cons, ← Nat.add_assoc, Nat.add_right_comm]
    exact ih (s.store i c) (i + 1)

/-- Assignments change the array and `high`. -/
theorem storeAll_eq (s : PathCopy) (i : Nat) (cs : Buffer) :
    s.storeAll i cs =
      { s with temp := (s.storeAll i cs).temp, high := (s.storeAll i cs).high } := by
  induction cs generalizing s i with
  | nil => rfl
  | cons c cs ih => exact ih (s.store i c) (i + 1)

theorem storeAll_high (s : PathCopy) (i : Nat) (nonempty : cs ≠ []) :
    (s.storeAll i cs).high = max s.high (i + cs.length) := by
  induction cs generalizing s i with
  | nil => exact absurd rfl nonempty
  | cons c cs ih =>
    show ((s.store i c).storeAll (i + 1) cs).high = _
    cases cs with
    | nil => rfl
    | cons d cs =>
      rw [ih (s.store i c) (i + 1) (List.cons_ne_nil _ _)]
      show max (max s.high (i + 1)) (i + 1 + (d :: cs).length) = _
      simp only [List.length_cons]
      omega

/-- A string behind the string in the array. -/
theorem storeAll_temp (temp : s.temp = filled e) (room : e.length + w.length ≤ 4096) :
    (s.storeAll e.length (w.map some)).temp = filled (e ++ w) := by
  induction w generalizing s e with
  | nil => rw [List.append_nil]; exact temp
  | cons c w ih =>
    rw [List.length_cons] at room
    have stored : (s.store e.length (some c)).temp = filled (e ++ [c]) := by
      show s.temp.set e.length (some c) = _
      rw [temp, filled_store (by omega)]
    have length : (e ++ [c]).length = e.length + 1 := List.length_append
    have rest := ih stored (by omega)
    rw [length, List.append_assoc] at rest
    exact rest

end Arrays

/-! ### The loop -/

/-- **What the loop keeps**: the characters up to here are in the array, and all else is NUL. -/
structure Holds (e : List CChar) (s : PathCopy) : Prop where
  temp : s.temp = filled e
  tp : s.tp = e.length
  size : s.size + e.length = 4096

section Loop

variable {home : HomePath} {e path behind : List CChar} {c : CChar} {s : PathCopy}

/-- The assertion. -/
theorem Holds.asserts (holds : Holds e s) (home : HomePath) :
    sizeSub s.size home.chars.length ≤ 4096 ↔ e.length + home.chars.length ≤ 4096 := by
  have size := holds.size
  have addressable := home.addressable
  unfold sizeSub
  omega

theorem Holds.character (holds : Holds e s) (room : e.length < 4096) (c : CChar) :
    Holds (e ++ [c]) ((s.store s.tp (some c)).advance 1) := by
  have size := holds.size
  have length : (e ++ [c]).length = e.length + 1 := List.length_append
  refine ⟨?_, ?_, ?_⟩
  · show s.temp.set s.tp (some c) = _
    rw [holds.temp, holds.tp, filled_store room]
  · show s.tp + 1 = _
    rw [holds.tp, length]
  · show sizeSub s.size 1 + _ = 4096
    rw [sizeSub_of_le (by omega) (by omega), length]
    omega

/-- `strncat` writes the home directory and a NUL. -/
theorem Holds.strncat_eq (holds : Holds e s) (room : e.length < 4096)
    (fits : e.length + home.chars.length ≤ 4096) (behind : List CChar) :
    s.strncat s.tp home.chars s.size behind =
      s.storeAll e.length (home.chars.map some ++ [none]) := by
  have size := holds.size
  unfold PathCopy.strncat
  rw [holds.temp, holds.tp, stringAt_drop_filled room, List.take_of_length_le (by omega)]
  rfl

theorem Holds.directory (holds : Holds e s) (room : e.length < 4096)
    (fits : e.length + home.chars.length ≤ 4096) (behind : List CChar) :
    Holds (e ++ home.chars)
      ((s.strncat s.tp home.chars s.size behind).advance home.chars.length) := by
  have size := holds.size
  have length : (e ++ home.chars).length = e.length + home.chars.length := List.length_append
  rw [holds.strncat_eq room fits]
  refine ⟨?_, ?_, ?_⟩
  · show (s.storeAll e.length (home.chars.map some ++ [none])).temp = _
    rw [storeAll_append, List.length_map]
    show (s.storeAll e.length (home.chars.map some)).temp.set _ none = _
    rw [storeAll_temp holds.temp fits, ← length, filled_end]
  · show (s.storeAll _ _).tp + _ = _
    rw [storeAll_eq, length, ← holds.tp]
  · show sizeSub (s.storeAll _ _).size _ + _ = 4096
    rw [storeAll_eq]
    show sizeSub s.size _ + _ = 4096
    rw [sizeSub_of_le (by omega) (by omega), length]
    omega

theorem Holds.directory_high (holds : Holds e s) (room : e.length < 4096)
    (fits : e.length + home.chars.length ≤ 4096) (behind : List CChar) :
    ((s.strncat s.tp home.chars s.size behind).advance home.chars.length).high =
      max s.high (e.length + home.chars.length + 1) := by
  rw [holds.strncat_eq room fits]
  show (s.storeAll _ _).high = _
  rw [storeAll_high _ _ (by simp), List.length_append, List.length_map, Nat.add_assoc]
  rfl

theorem expand_tilde (home path : List CChar) :
    expand home (CChar.ofChar '~' :: path) = home ++ expand home path := by
  unfold expand
  rw [List.flatMap_cons, if_pos rfl]

theorem expand_other (other : c ≠ CChar.ofChar '~') (home path : List CChar) :
    expand home (c :: path) = c :: expand home path := by
  unfold expand
  rw [List.flatMap_cons, if_neg other]
  rfl

/-- **What is returned.** -/
theorem allocPathLoop_result (holds : Holds e s) :
    ((e ++ expand home.chars path).length ≤ 4095 →
      (allocPathLoop home.chars behind path s).1 = .path (e ++ expand home.chars path)) ∧
    (4095 < (e ++ expand home.chars path).length →
      (allocPathLoop home.chars behind path s).1 = .null ∨
        (allocPathLoop home.chars behind path s).1 = .aborted) := by
  induction path generalizing e s with
  | nil =>
    have size := holds.size
    have whole : e ++ expand home.chars [] = e := List.append_nil e
    rw [whole]
    unfold allocPathLoop
    refine ⟨fun short => ?_, fun long => ?_⟩
    · rw [if_neg (by omega)]
      show AllocPath.path (stringAt (s.temp.set s.tp none) behind) = _
      rw [holds.temp, holds.tp, filled_end, stringAt_filled (by omega)]
    · rw [if_pos (by omega)]
      exact .inl rfl
  | cons c path ih =>
    have size := holds.size
    unfold allocPathLoop
    by_cases full : s.size = 0
    · rw [if_pos full]
      refine ⟨fun short => ?_, fun _ => .inl rfl⟩
      rw [List.length_append] at short
      omega
    · rw [if_neg full]
      have room : e.length < 4096 := by omega
      by_cases tilde : c = CChar.ofChar '~'
      · rw [if_pos tilde, tilde, expand_tilde]
        by_cases fits : e.length + home.chars.length ≤ 4096
        · rw [if_pos ((holds.asserts home).mpr fits), ← List.append_assoc]
          exact ih (holds.directory room fits behind)
        · rw [if_neg (fun held => fits ((holds.asserts home).mp held))]
          refine ⟨fun short => ?_, fun _ => .inr rfl⟩
          simp only [List.length_append] at short
          omega
      · rw [if_neg tilde, expand_other tilde, List.append_cons]
        exact ih (holds.character room c)

/-! ### The bound -/

theorem endsAtEnd_tilde {n : Nat} {home : List CChar} :
    EndsAtEnd home n (CChar.ofChar '~' :: path) ↔
      (home ≠ [] ∧ n + home.length = 4096) ∨ EndsAtEnd home (n + home.length) path := by
  constructor
  · rintro ⟨nonempty, before, after, spelled, length⟩
    cases before with
    | nil => exact .inl ⟨nonempty, length⟩
    | cons c before =>
      obtain ⟨rfl, rfl⟩ := List.cons.inj spelled
      rw [expand_tilde, List.length_append] at length
      exact .inr ⟨nonempty, before, after, rfl, by omega⟩
  · rintro (⟨nonempty, length⟩ | ⟨nonempty, before, after, rfl, length⟩)
    · exact ⟨nonempty, [], path, rfl, length⟩
    · refine ⟨nonempty, CChar.ofChar '~' :: before, after, rfl, ?_⟩
      rw [expand_tilde, List.length_append]
      omega

theorem endsAtEnd_other {n : Nat} {home : List CChar} (other : c ≠ CChar.ofChar '~') :
    EndsAtEnd home n (c :: path) ↔ EndsAtEnd home (n + 1) path := by
  constructor
  · rintro ⟨nonempty, before, after, spelled, length⟩
    cases before with
    | nil => exact absurd (List.cons.inj spelled).1 other
    | cons d before =>
      obtain ⟨rfl, rfl⟩ := List.cons.inj spelled
      rw [expand_other other, List.length_cons] at length
      exact ⟨nonempty, before, after, rfl, by omega⟩
  · rintro ⟨nonempty, before, after, rfl, length⟩
    refine ⟨nonempty, c :: before, after, rfl, ?_⟩
    rw [expand_other other, List.length_cons]
    omega

/-- There has to be room for the home directory. -/
theorem EndsAtEnd.room {n : Nat} {home : List CChar} (ends : EndsAtEnd home n path) : n < 4096 := by
  obtain ⟨nonempty, before, after, -, length⟩ := ends
  have positive := List.length_pos_iff.mpr nonempty
  omega

theorem allocPathLoop_full (full : s.size = 0) :
    allocPathLoop home.chars behind path s = (.null, s) := by
  cases path with
  | nil => exact if_pos full
  | cons c path => exact if_pos full

/-- **What is written.** -/
theorem allocPathLoop_high (holds : Holds e s) (within : s.high ≤ 4096) :
    (allocPathLoop home.chars behind path s).2.high ≤ 4096 ↔
      ¬ EndsAtEnd home.chars e.length path := by
  induction path generalizing e s with
  | nil =>
    have size := holds.size
    refine iff_of_true ?_ ?_
    · unfold allocPathLoop
      split_ifs with full
      · exact within
      · show max s.high (s.tp + 1) ≤ 4096
        rw [holds.tp]
        omega
    · rintro ⟨-, before, after, spelled, -⟩
      cases before <;> cases spelled
  | cons c path ih =>
    have size := holds.size
    by_cases full : s.size = 0
    · rw [allocPathLoop_full full]
      exact iff_of_true within fun ends => absurd ends.room (by omega)
    · have room : e.length < 4096 := by omega
      unfold allocPathLoop
      rw [if_neg full]
      by_cases tilde : c = CChar.ofChar '~'
      · rw [if_pos tilde, tilde, endsAtEnd_tilde]
        rcases Nat.lt_trichotomy (e.length + home.chars.length) 4096 with inside | exact | beyond
        · rw [if_pos ((holds.asserts home).mpr inside.le),
            ih (holds.directory room inside.le behind) (by
              rw [holds.directory_high room inside.le]
              omega), List.length_append]
          refine not_congr ⟨.inr, ?_⟩
          rintro (⟨-, length⟩ | later)
          · omega
          · exact later
        · -- the NUL of `strncat` is written behind the array
          have next := holds.directory room exact.le behind
          have none' := next.size
          rw [List.length_append] at none'
          rw [if_pos ((holds.asserts home).mpr exact.le), allocPathLoop_full (by omega)]
          refine iff_of_false ?_ (not_not.mpr (.inl ⟨?_, exact⟩))
          · rw [holds.directory_high room exact.le]
            omega
          · intro empty
            rw [empty, List.length_nil] at exact
            omega
        · rw [if_neg (fun held => absurd ((holds.asserts home).mp held) (by omega))]
          refine iff_of_true within ?_
          rintro (⟨-, length⟩ | later)
          · omega
          · exact absurd later.room (by omega)
      · rw [if_neg tilde, endsAtEnd_other tilde, ih (holds.character room c), List.length_append]
        · rfl
        · show max s.high (s.tp + 1) ≤ 4096
          rw [holds.tp]
          omega

end Loop

/-! ### The whole function -/

section Paths

theorem holds_start : Holds [] ⟨List.replicate 4096 none, 0, 4096, 0⟩ := ⟨rfl, rfl, rfl⟩

/-- The path is expanded, or refused if it is too long. -/
theorem allocPath_result (home : HomePath) (path behind : List CChar) :
    ((expand home.chars path).length ≤ 4095 →
      (utilsConfigAllocPath home (some path) behind).1 = .path (expand home.chars path)) ∧
    (4095 < (expand home.chars path).length →
      (utilsConfigAllocPath home (some path) behind).1 = .null ∨
        (utilsConfigAllocPath home (some path) behind).1 = .aborted) :=
  allocPathLoop_result holds_start

/-- All writes are in the array exactly if no home directory ends at its end. -/
theorem allocPath_high (home : HomePath) (path behind : List CChar) :
    (utilsConfigAllocPath home (some path) behind).2.high ≤ 4096 ↔
      ¬ EndsAtEnd home.chars 0 path :=
  allocPathLoop_high holds_start (Nat.zero_le _)

/-- **Paths of every length.** -/
theorem alloc_path_iff (home : HomePath) (path : List CChar) :
    PathRight home path ↔ ¬ EndsAtEnd home.chars 0 path := by
  constructor
  · intro right
    exact (allocPath_high home path []).mp (right.bounded [])
  · intro held
    exact ⟨fun short behind => (allocPath_result home path behind).1 short,
      fun long behind => (allocPath_result home path behind).2 long,
      fun behind => (allocPath_high home path behind).mpr held⟩

/-- The directory `/home/user`. -/
def homeUser : HomePath := ⟨cstr "/home/user", by decide⟩

/-- A path of 4086 characters and `~`. -/
def longPath : List CChar := List.replicate 4086 (CChar.ofChar 'a') ++ [CChar.ofChar '~']

theorem expand_replicate {c : CChar} (other : c ≠ CChar.ofChar '~') (home : List CChar) (n : Nat) :
    expand home (List.replicate n c) = List.replicate n c := by
  induction n with
  | zero => rfl
  | succ n ih => rw [List.replicate_succ, expand_other other, ih]

/-- **One character too much.** With the 10 characters of the home directory the path is as long as
the array: no path is returned, and the NUL behind the home directory is written at index 4096. -/
theorem alloc_path_overrun : ¬ PathRight homeUser longPath ∧
    ∀ behind, 4096 < (utilsConfigAllocPath homeUser (some longPath) behind).2.high := by
  have ends : EndsAtEnd homeUser.chars 0 longPath := by
    refine ⟨by decide, List.replicate 4086 (CChar.ofChar 'a'), [], rfl, ?_⟩
    rw [expand_replicate (by decide), List.length_replicate]
    rfl
  have beyond : ∀ behind,
      4096 < (utilsConfigAllocPath homeUser (some longPath) behind).2.high := by
    intro behind
    by_contra within
    exact (allocPath_high homeUser longPath behind).mp (Nat.le_of_not_lt within) ends
  exact ⟨fun right => absurd (right.bounded []) (Nat.not_le_of_lt (beyond [])), beyond⟩

end Paths

end Arax.Utils
