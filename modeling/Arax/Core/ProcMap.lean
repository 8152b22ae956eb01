/-
**The process map of the pipe (`src/core/arax_pipe.c`).**

`proc_map` holds the pids of the processes that have mapped the segment, followed by zeros. A lookup
stops at the first zero, so `arax_pipe_mark_unmap` closes the gap of the cell that it clears, with a
`memmove` over the cells after it. Its length is given in cells, and `memmove` counts bytes: of the
cells after index `c` only the first `(1023 - c) / 8` are moved, and the next one in part.

* `ProcCells` — the map holds a set of pids.
* `markUnmap_cells_iff` — when a removal leaves the map of the remaining pids.
* `proc_map_set_iff` — the map is the set of the registered pids in every state of a run exactly if
  every removal of the run meets this condition.
-/

import Mathlib.Data.Finset.Card
import Mathlib.Data.Finset.Image
import Mathlib.Tactic.SplitIfs
import Arax.Lib.Bytes
import Arax.Lib.Run

namespace Arax.Core

open Arax.Lib

/-- `ARAX_PROC_MAP_SIZE`. -/
def araxProcMapSize : Nat := 1024

/-- The loop of `arax_pipe_have_to_mmap` over the remaining number of cells, from cell `c` on. -/
def mmapFrom (map : Nat → Nat) (pid : Nat) : Nat → Nat → (Nat → Nat) × Bool
  | 0, _ => (map, true)
  | left + 1, c =>
    if map c = pid then (map, false)
    else if map c = 0 then (Function.update map c pid, true)
    else mmapFrom map pid left (c + 1)

/-- `arax_pipe_have_to_mmap`. -/
def araxPipeHaveToMmap (map : Nat → Nat) (pid : Nat) : Option ((Nat → Nat) × Bool) :=
  if pid = 0 then none else some (mmapFrom map pid araxProcMapSize 0)

/-- The loop of `arax_pipe_mark_unmap`: the value of `c` after it. -/
def findPid (map : Nat → Nat) (pid : Nat) : Nat → Nat → Nat
  | 0, c => c
  | left + 1, c => if map c = pid then c else findPid map pid left (c + 1)

/-- `arax_pipe_mark_unmap`. -/
def araxPipeMarkUnmap (map : Nat → Nat) (pid : Nat) : Option (Nat → Nat) :=
  if pid = 0 then none
  else
    let c := findPid map pid araxProcMapSize 0
    if c < araxProcMapSize then
      let moved := memmove (8 * c) (8 * (c + 1)) (araxProcMapSize - (c + 1)) (byteAt map)
      some (Function.update (wordAt moved) (araxProcMapSize - 1) 0)
    else none

/-! ### Runs -/

/-- The calls of the processes. -/
inductive ProcMapCall where
  | haveToMmap (pid : Nat)
  | markUnmap (pid : Nat)

/-- The map, the registered pids, what the calls of `arax_pipe_have_to_mmap` returned, and whether
their pids were not registered. -/
structure ProcMapRun where
  map : Nat → Nat
  registered : Finset Nat
  returned : List Bool
  unregistered : List Bool

/-- A zeroed map. -/
def procMapInit : ProcMapRun := ⟨fun _ => 0, ∅, [], []⟩

/-- One call. A pid is a positive `int`, only registered pids are unmapped, and there are never more
of them than cells. -/
def procMapStep (r : ProcMapRun) : ProcMapCall → Option ProcMapRun
  | .haveToMmap pid =>
    if 0 < pid ∧ pid < 2 ^ 31 ∧ (pid ∈ r.registered ∨ r.registered.card < araxProcMapSize) then
      (araxPipeHaveToMmap r.map pid).map fun (map, haveToMmap) =>
        { map, registered := insert pid r.registered, returned := r.returned ++ [haveToMmap],
          unregistered := r.unregistered ++ [decide (pid ∉ r.registered)] }
    else none
  | .markUnmap pid =>
    if pid ∈ r.registered then
      (araxPipeMarkUnmap r.map pid).map fun map =>
        { r with map, registered := r.registered.erase pid }
    else none

/-- The map consists of the pids of a set, pairwise distinct, followed by zeros. -/
structure ProcCells (map : Nat → Nat) (pids : Finset Nat) : Prop where
  room : pids.card ≤ araxProcMapSize
  cells : ∀ pid, pid ∈ pids ↔ ∃ i, i < pids.card ∧ map i = pid
  distinct : ∀ i j, i < pids.card → j < pids.card → map i = map j → i = j
  zeros : ∀ i, pids.card ≤ i → i < araxProcMapSize → map i = 0

/-- The map is the set of the registered pids, and `arax_pipe_have_to_mmap` returned 1 exactly for
pids that were not registered. -/
structure ProcMapIsSet (r : ProcMapRun) : Prop where
  cells : ProcCells r.map r.registered
  pids : ∀ pid ∈ r.registered, 0 < pid ∧ pid < 2 ^ 31
  answers : r.returned = r.unregistered

/-- The cells that `memmove` moves as a whole, after the removal at index `c`. -/
def movedCells (c : Nat) : Nat := (araxProcMapSize - (c + 1)) / 8

/-- What the cell that is moved in part holds afterwards. -/
def splicedCell (map : Nat → Nat) (c : Nat) : Nat :=
  map (c + movedCells c + 1) % 256 ^ ((araxProcMapSize - (c + 1)) % 8) +
    (map (c + movedCells c) - map (c + movedCells c) % 256 ^ ((araxProcMapSize - (c + 1)) % 8))

/-- The condition on a removal: no pid is stored behind the cells that are moved, or all cells are
in use and the spliced cell happens to hold the pid of the last one. -/
def UnmapExact (map : Nat → Nat) (count c : Nat) : Prop :=
  (count ≤ c + movedCells c + 1 ∧ splicedCell map c = 0) ∨
    (count = araxProcMapSize ∧ splicedCell map c = map (araxProcMapSize - 1))

instance (map : Nat → Nat) (count c : Nat) : Decidable (UnmapExact map count c) :=
  inferInstanceAs (Decidable (_ ∨ _))

/-- The condition on a call. -/
def UnmapGuard (r : ProcMapRun) : ProcMapCall → Prop
  | .haveToMmap _ => True
  | .markUnmap pid => UnmapExact r.map r.registered.card (findPid r.map pid araxProcMapSize 0)

instance (r : ProcMapRun) : (call : ProcMapCall) → Decidable (UnmapGuard r call)
  | .haveToMmap _ => isTrue trivial
  | .markUnmap pid => inferInstanceAs (Decidable (UnmapExact r.map r.registered.card
      (findPid r.map pid araxProcMapSize 0)))

/-! ### Lookups -/

section Lookup

variable {map : Nat → Nat} {pids : Finset Nat} {pid : Nat}

/-- The map is determined by the pids of its first cells. -/
theorem procCells_of_image (room : pids.card ≤ araxProcMapSize)
    (cells : ∀ pid, pid ∈ pids ↔ ∃ i, i < pids.card ∧ map i = pid)
    (zeros : ∀ i, pids.card ≤ i → i < araxProcMapSize → map i = 0) : ProcCells map pids := by
  refine ⟨room, cells, fun i j first second same => ?_, zeros⟩
  have image : (Finset.range pids.card).image map = pids := by
    ext pid
    rw [cells pid, Finset.mem_image]
    simp only [Finset.mem_range]
  have injective : Set.InjOn map (Finset.range pids.card) := by
    rw [← Finset.card_image_iff, image, Finset.card_range]
  exact injective (Finset.mem_coe.mpr (Finset.mem_range.mpr first))
    (Finset.mem_coe.mpr (Finset.mem_range.mpr second)) same

/-- The search of `arax_pipe_have_to_mmap` goes on until it finds the pid or the first zero. -/
theorem mmapFrom_eq (cells : ProcCells map pids) (valid : ∀ pid ∈ pids, 0 < pid)
    (positive : 0 < pid) (space : pid ∈ pids ∨ pids.card < araxProcMapSize) {left c : Nat}
    (all : c + left = araxProcMapSize) (before : c ≤ pids.card)
    (passed : ∀ i, i < c → map i ≠ pid) :
    mmapFrom map pid left c =
      if pid ∈ pids then (map, false) else (Function.update map pids.card pid, true) := by
  induction left generalizing c with
  | zero =>
    have full : c = pids.card := Nat.le_antisymm before (by have := cells.room; omega)
    have known : pid ∈ pids := space.resolve_right (by omega)
    obtain ⟨i, inside, same⟩ := (cells.cells pid).mp known
    exact absurd same (passed i (full ▸ inside))
  | succ left ih =>
    rw [mmapFrom]
    rcases Nat.lt_or_eq_of_le before with inside | stop
    · have member : map c ∈ pids := (cells.cells _).mpr ⟨c, inside, rfl⟩
      have nonzero := Nat.ne_of_gt (valid _ member)
      by_cases found : map c = pid
      · rw [if_pos found, if_pos (found ▸ member)]
      · rw [if_neg found, if_neg nonzero]
        refine ih (by omega) inside fun i small => ?_
        rcases Nat.lt_succ_iff_lt_or_eq.mp small with earlier | here
        · exact passed i earlier
        · rw [here]
          exact found
    · have unknown : pid ∉ pids := by
        intro known
        obtain ⟨i, inside, same⟩ := (cells.cells pid).mp known
        exact passed i (stop ▸ inside) same
      have zero : map c = 0 := cells.zeros c (Nat.le_of_eq stop.symm) (by omega)
      rw [if_neg (by rw [zero]; exact Nat.ne_of_lt positive), if_pos zero, if_neg unknown, stop]

/-- The search of `arax_pipe_mark_unmap` finds a pid of the map. -/
theorem findPid_spec {left c i : Nat} (from' : c ≤ i) (inside : i < c + left)
    (found : map i = pid) :
    findPid map pid left c ≤ i ∧ map (findPid map pid left c) = pid := by
  induction left generalizing c with
  | zero => exact absurd inside (Nat.not_lt.mpr from')
  | succ left ih =>
    rw [findPid]
    split_ifs with here
    · exact ⟨from', here⟩
    · refine ih (Nat.lt_of_le_of_ne from' fun same => here ?_) (by omega)
      rw [same]
      exact found

/-- **`arax_pipe_have_to_mmap` registers a pid that is not registered, and says so.** -/
theorem haveToMmap_spec (cells : ProcCells map pids) (valid : ∀ pid ∈ pids, 0 < pid)
    (positive : 0 < pid) (space : pid ∈ pids ∨ pids.card < araxProcMapSize) :
    ∃ next, araxPipeHaveToMmap map pid = some (next, decide (pid ∉ pids)) ∧
      next = (if pid ∈ pids then map else Function.update map pids.card pid) ∧
      ProcCells next (insert pid pids) := by
  rw [araxPipeHaveToMmap, if_neg (Nat.ne_of_gt positive), mmapFrom_eq cells valid positive space
    (Nat.zero_add _) (Nat.zero_le _) fun i none => absurd none (Nat.not_lt_zero i)]
  by_cases known : pid ∈ pids
  · rw [if_pos known, if_pos known, Finset.insert_eq_of_mem known]
    exact ⟨map, by simp [known], rfl, cells⟩
  · rw [if_neg known, if_neg known]
    refine ⟨_, by simp [known], rfl, ?_⟩
    have count := Finset.card_insert_of_notMem known
    refine procCells_of_image ?_ (fun other => ?_) fun i beyond inside => ?_
    · rw [count]
      exact space.resolve_left known
    · rw [Finset.mem_insert, cells.cells other, count]
      constructor
      · rintro (rfl | ⟨i, inside, same⟩)
        · exact ⟨pids.card, Nat.lt_succ_self _, Function.update_self ..⟩
        · exact ⟨i, Nat.lt_succ_of_lt inside,
            (Function.update_of_ne (Nat.ne_of_lt inside) _ _).trans same⟩
      · rintro ⟨i, inside, same⟩
        rcases Nat.lt_succ_iff_lt_or_eq.mp inside with old | new
        · rw [Function.update_of_ne (Nat.ne_of_lt old)] at same
          exact .inr ⟨i, old, same⟩
        · rw [new, Function.update_self] at same
          exact .inl same.symm
    · rw [count] at beyond
      rw [Function.update_of_ne (Nat.ne_of_gt beyond)]
      exact cells.zeros i (Nat.le_of_succ_le beyond) inside

end Lookup

/-! ### Removals -/

section Removal

variable {map : Nat → Nat} {pids : Finset Nat} {pid c i : Nat}

/-- The map after the removal at index `c`. -/
def unmapAt (map : Nat → Nat) (c : Nat) : Nat → Nat :=
  Function.update
    (wordAt (memmove (8 * c) (8 * (c + 1)) (araxProcMapSize - (c + 1)) (byteAt map)))
    (araxProcMapSize - 1) 0

theorem unmapAt_last (map : Nat → Nat) (c : Nat) : unmapAt map c (araxProcMapSize - 1) = 0 :=
  Function.update_self ..

theorem unmapAt_before (word : map i < 256 ^ 8) (before : i < c)
    (inside : i < araxProcMapSize - 1) : unmapAt map c i = map i := by
  rw [unmapAt, Function.update_of_ne (Nat.ne_of_lt inside), wordAt_memmove_before _ before,
    Nat.mod_eq_of_lt word]

/-- A cell that is moved as a whole. -/
theorem unmapAt_moved (word : map (i + 1) < 256 ^ 8) (after : c ≤ i) (moved : i < c + movedCells c)
    (inside : i < araxProcMapSize - 1) : unmapAt map c i = map (i + 1) := by
  have whole : min 8 (8 * c + (araxProcMapSize - (c + 1)) - 8 * i) = 8 := by
    unfold movedCells araxProcMapSize at *
    omega
  have splice := wordAt_memmove map (araxProcMapSize - (c + 1)) after
  rw [whole, Nat.mod_eq_of_lt word] at splice
  rw [unmapAt, Function.update_of_ne (Nat.ne_of_lt inside)]
  exact Nat.add_right_cancel splice

/-- The cell that is moved in part. -/
theorem unmapAt_spliced (word : map (c + movedCells c) < 256 ^ 8)
    (inside : c + movedCells c < araxProcMapSize - 1) :
    unmapAt map c (c + movedCells c) = splicedCell map c := by
  have part : min 8 (8 * c + (araxProcMapSize - (c + 1)) - 8 * (c + movedCells c)) =
      (araxProcMapSize - (c + 1)) % 8 := by
    unfold movedCells araxProcMapSize
    omega
  have splice := wordAt_memmove map (araxProcMapSize - (c + 1))
    (Nat.le_add_right c (movedCells c))
  have below := Nat.mod_le (map (c + movedCells c)) (256 ^ ((araxProcMapSize - (c + 1)) % 8))
  rw [part, Nat.mod_eq_of_lt word] at splice
  rw [unmapAt, Function.update_of_ne (Nat.ne_of_lt inside), splicedCell]
  omega

/-- A cell behind those that are moved. -/
theorem unmapAt_behind (word : map i < 256 ^ 8) (behind : c + movedCells c < i)
    (inside : i < araxProcMapSize - 1) : unmapAt map c i = map i := by
  have none : min 8 (8 * c + (araxProcMapSize - (c + 1)) - 8 * i) = 0 := by
    unfold movedCells araxProcMapSize at *
    omega
  have splice := wordAt_memmove map (araxProcMapSize - (c + 1))
    (Nat.le_trans (Nat.le_add_right c _) (Nat.le_of_lt behind))
  rw [none, Nat.pow_zero, Nat.mod_one, Nat.mod_one, Nat.mod_eq_of_lt word, Nat.zero_add,
    Nat.add_zero] at splice
  rw [unmapAt, Function.update_of_ne (Nat.ne_of_lt inside)]
  exact splice

theorem ProcCells.word (cells : ProcCells map pids) (valid : ∀ pid ∈ pids, 0 < pid ∧ pid < 2 ^ 31)
    (inside : i < araxProcMapSize) : map i < 256 ^ 8 := by
  by_cases used : i < pids.card
  · have small := (valid _ ((cells.cells _).mpr ⟨i, used, rfl⟩)).2
    exact Nat.lt_trans small (by decide)
  · rw [cells.zeros i (Nat.le_of_not_lt used) inside]
    decide

theorem ProcCells.mem (cells : ProcCells map pids) (used : i < pids.card) : map i ∈ pids :=
  (cells.cells _).mpr ⟨i, used, rfl⟩

theorem ProcCells.mem_erase (cells : ProcCells map pids) (found : c < pids.card)
    (used : i < pids.card) (other : i ≠ c) : map i ∈ pids.erase (map c) :=
  Finset.mem_erase.mpr ⟨fun same => other (cells.distinct i c used found same), cells.mem used⟩

/-- The last cell is set to zero, so a removal there is right. -/
theorem splicedCell_last (map : Nat → Nat) :
    splicedCell map (araxProcMapSize - 1) = map (araxProcMapSize - 1) := by
  simp [splicedCell, movedCells, araxProcMapSize, Nat.mod_one]

theorem movedCells_inside (before : c < araxProcMapSize - 1) :
    c + movedCells c < araxProcMapSize - 1 := by
  unfold movedCells
  omega

/-- A removal with no pid behind the cells that are moved. -/
theorem unmapAt_cells_few (cells : ProcCells map pids)
    (valid : ∀ pid ∈ pids, 0 < pid ∧ pid < 2 ^ 31) (found : c < pids.card)
    (few : pids.card ≤ c + movedCells c + 1) (zero : splicedCell map c = 0) :
    ProcCells (unmapAt map c) (pids.erase (map c)) := by
  have room := cells.room
  have size : araxProcMapSize = 1024 := rfl
  have count : (pids.erase (map c)).card = pids.card - 1 :=
    Finset.card_erase_of_mem (cells.mem found)
  have moved : ∀ i, c ≤ i → i < pids.card - 1 → unmapAt map c i = map (i + 1) := by
    intro i after inside
    exact unmapAt_moved (cells.word valid (by omega)) after (by omega) (by omega)
  have kept : ∀ i, i < c → unmapAt map c i = map i := by
    intro i before
    exact unmapAt_before (cells.word valid (by omega)) before (by omega)
  refine procCells_of_image (by omega) (fun other => ?_) fun i beyond inside => ?_
  · rw [count]
    constructor
    · intro member
      obtain ⟨apart, member⟩ := Finset.mem_erase.mp member
      obtain ⟨i, used, rfl⟩ := (cells.cells other).mp member
      rcases Nat.lt_trichotomy i c with before | same | after
      · exact ⟨i, by omega, kept i before⟩
      · exact absurd (congrArg map same) apart
      · obtain ⟨j, rfl⟩ := Nat.exists_eq_succ_of_ne_zero (Nat.ne_of_gt (Nat.zero_lt_of_lt after))
        exact ⟨j, by omega, moved j (Nat.le_of_lt_succ after) (by omega)⟩
    · rintro ⟨j, used, rfl⟩
      by_cases before : j < c
      · rw [kept j before]
        exact cells.mem_erase found (by omega) (by omega)
      · rw [moved j (by omega) used]
        exact cells.mem_erase found (by omega) (by omega)
  · rw [count] at beyond
    by_cases last : i = araxProcMapSize - 1
    · rw [last]
      exact unmapAt_last map c
    · rcases Nat.lt_trichotomy i (c + movedCells c) with whole | part | behind
      · rw [unmapAt_moved (cells.word valid (by omega)) (by omega) whole (by omega)]
        exact cells.zeros _ (by omega) (by omega)
      · rw [part, unmapAt_spliced (cells.word valid (by omega)) (by omega)]
        exact zero
      · rw [unmapAt_behind (cells.word valid inside) behind (by omega)]
        exact cells.zeros i (by omega) inside

/-- A removal from a full map, where the spliced cell happens to be right. -/
theorem unmapAt_cells_full (cells : ProcCells map pids)
    (valid : ∀ pid ∈ pids, 0 < pid ∧ pid < 2 ^ 31) (found : c < pids.card)
    (full : pids.card = araxProcMapSize) (same : splicedCell map c = map (araxProcMapSize - 1)) :
    ProcCells (unmapAt map c) (pids.erase (map c)) := by
  have size : araxProcMapSize = 1024 := rfl
  have count : (pids.erase (map c)).card = pids.card - 1 :=
    Finset.card_erase_of_mem (cells.mem found)
  have word : ∀ i, i < araxProcMapSize → map i < 256 ^ 8 := fun i inside => cells.word valid inside
  refine procCells_of_image (by omega) (fun other => ?_) fun i beyond inside => ?_
  · rw [count]
    constructor
    · intro member
      obtain ⟨apart, member⟩ := Finset.mem_erase.mp member
      obtain ⟨i, used, rfl⟩ := (cells.cells other).mp member
      have other : i ≠ c := fun same => apart (congrArg map same)
      by_cases before : i < c
      · exact ⟨i, by omega, unmapAt_before (word i (by omega)) before (by omega)⟩
      · by_cases near : i ≤ c + movedCells c
        · obtain ⟨j, rfl⟩ := Nat.exists_eq_succ_of_ne_zero (show i ≠ 0 by omega)
          exact ⟨j, by omega,
            unmapAt_moved (word _ (by omega)) (by omega) (by omega) (by omega)⟩
        · by_cases last : i = araxProcMapSize - 1
          · refine ⟨c + movedCells c, by omega, ?_⟩
            rw [unmapAt_spliced (word _ (by omega)) (by omega), same, last]
          · exact ⟨i, by omega, unmapAt_behind (word i (by omega)) (by omega) (by omega)⟩
    · rintro ⟨j, used, rfl⟩
      by_cases before : j < c
      · rw [unmapAt_before (word j (by omega)) before (by omega)]
        exact cells.mem_erase found (by omega) (by omega)
      · rcases Nat.lt_trichotomy j (c + movedCells c) with whole | part | behind
        · rw [unmapAt_moved (word _ (by omega)) (by omega) whole (by omega)]
          exact cells.mem_erase found (by omega) (by omega)
        · rw [part, unmapAt_spliced (word _ (by omega)) (by omega), same]
          exact cells.mem_erase found (by omega) (by omega)
        · rw [unmapAt_behind (word j (by omega)) behind (by omega)]
          exact cells.mem_erase found (by omega) (by omega)
  · have last : i = araxProcMapSize - 1 := by omega
    rw [last]
    exact unmapAt_last map c

/-- A removal that is right meets the condition. -/
theorem unmapExact_of_cells (cells : ProcCells map pids)
    (valid : ∀ pid ∈ pids, 0 < pid ∧ pid < 2 ^ 31) (found : c < pids.card)
    (next : ProcCells (unmapAt map c) (pids.erase (map c))) : UnmapExact map pids.card c := by
  have room := cells.room
  have size : araxProcMapSize = 1024 := rfl
  have count : (pids.erase (map c)).card = pids.card - 1 :=
    Finset.card_erase_of_mem (cells.mem found)
  have word : ∀ i, i < araxProcMapSize → map i < 256 ^ 8 := fun i inside => cells.word valid inside
  by_cases last : c = araxProcMapSize - 1
  · rw [last]
    exact .inr ⟨by omega, splicedCell_last map⟩
  · have inside := movedCells_inside (show c < araxProcMapSize - 1 by omega)
    have spliced := unmapAt_spliced (word (c + movedCells c) (by omega)) inside
    by_cases few : pids.card ≤ c + movedCells c + 1
    · refine .inl ⟨few, ?_⟩
      rw [← spliced]
      exact next.zeros _ (by omega) (by omega)
    · -- a pid behind the moved cells stays where it is, so the map has to be full
      have full : pids.card = araxProcMapSize := by
        by_contra space
        have zero := next.zeros (pids.card - 1) (by omega) (by omega)
        rw [unmapAt_behind (word _ (by omega)) (by omega) (by omega)] at zero
        have positive := (valid _ (cells.mem (show pids.card - 1 < pids.card by omega))).1
        omega
      refine .inr ⟨full, ?_⟩
      have member := cells.mem_erase found (show araxProcMapSize - 1 < pids.card by omega)
        (Ne.symm last)
      obtain ⟨j, used, same⟩ := (next.cells _).mp member
      rw [count] at used
      by_cases before : j < c
      · rw [unmapAt_before (word j (by omega)) before (by omega)] at same
        have := cells.distinct _ _ (by omega) (by omega) same
        omega
      · rcases Nat.lt_trichotomy j (c + movedCells c) with whole | part | behind
        · rw [unmapAt_moved (word _ (by omega)) (by omega) whole (by omega)] at same
          have := cells.distinct _ _ (by omega) (by omega) same
          omega
        · rw [← spliced, ← part]
          exact same
        · rw [unmapAt_behind (word j (by omega)) behind (by omega)] at same
          have := cells.distinct _ _ (by omega) (by omega) same
          omega

/-- **A removal.** The map is that of the remaining pids exactly under `UnmapExact`. -/
theorem markUnmap_cells_iff (cells : ProcCells map pids)
    (valid : ∀ pid ∈ pids, 0 < pid ∧ pid < 2 ^ 31) (member : pid ∈ pids) :
    ∃ next, araxPipeMarkUnmap map pid = some next ∧ (ProcCells next (pids.erase pid) ↔
      UnmapExact map pids.card (findPid map pid araxProcMapSize 0)) := by
  obtain ⟨i, used, here⟩ := (cells.cells pid).mp member
  have room := cells.room
  obtain ⟨first, there⟩ := findPid_spec (Nat.zero_le i)
    (show i < 0 + araxProcMapSize by omega) here
  have positive := Nat.ne_of_gt (valid pid member).1
  have found : findPid map pid araxProcMapSize 0 < pids.card := by omega
  refine ⟨unmapAt map (findPid map pid araxProcMapSize 0), ?_, ?_⟩
  · rw [araxPipeMarkUnmap, if_neg positive]
    exact if_pos (by omega)
  · nth_rewrite 2 [← there]
    refine ⟨unmapExact_of_cells cells valid found, ?_⟩
    rintro (⟨few, zero⟩ | ⟨full, same⟩)
    · exact unmapAt_cells_few cells valid found few zero
    · exact unmapAt_cells_full cells valid found full same

end Removal

/-! ### The map is a set -/

theorem procMapInit_isSet : ProcMapIsSet procMapInit := by
  refine ⟨procCells_of_image (Nat.zero_le _) (fun pid => ?_) fun _ _ _ => rfl,
    fun pid impossible => absurd impossible (Finset.notMem_empty pid), rfl⟩
  constructor
  · exact fun impossible => absurd impossible (Finset.notMem_empty pid)
  · rintro ⟨i, impossible, -⟩
    exact absurd impossible (Nat.not_lt_zero i)

/-- From a map that is a set, exactly the calls that meet the condition lead to such a map. -/
theorem procMapStep_exact {r t : ProcMapRun} {call : ProcMapCall} (isSet : ProcMapIsSet r)
    (step : procMapStep r call = some t) : ProcMapIsSet t ↔ UnmapGuard r call := by
  obtain ⟨cells, pids, answers⟩ := isSet
  cases call with
  | haveToMmap pid =>
    simp only [procMapStep] at step
    split_ifs at step with legal
    obtain ⟨positive, int, space⟩ := legal
    obtain ⟨next, call, -, cells'⟩ :=
      haveToMmap_spec cells (fun pid member => (pids pid member).1) positive space
    rw [call] at step
    cases step
    refine ⟨fun _ => trivial, fun _ => ⟨cells', fun other member => ?_, ?_⟩⟩
    · rcases Finset.mem_insert.mp member with same | old
      · rw [same]
        exact ⟨positive, int⟩
      · exact pids other old
    · exact congrArg (· ++ [decide (pid ∉ r.registered)]) answers
  | markUnmap pid =>
    simp only [procMapStep] at step
    split_ifs at step with member
    obtain ⟨next, call, exact⟩ := markUnmap_cells_iff cells pids member
    rw [call] at step
    cases step
    refine ⟨fun isSet => exact.mp isSet.cells, fun guard => ⟨exact.mpr guard, ?_, answers⟩⟩
    exact fun other left => pids other (Finset.mem_of_mem_erase left)

/-- **The process map is a set.** In every state of a run the map consists of the registered pids,
pairwise distinct, followed by zeros, and `arax_pipe_have_to_mmap` has returned 1 exactly for pids
that were not registered, if and only if every removal of the run meets `UnmapExact`. -/
theorem proc_map_set_iff (calls : List ProcMapCall) (last : ProcMapRun)
    (run : exec procMapStep procMapInit calls = some last) :
    Along procMapStep ProcMapIsSet procMapInit calls ↔
      Guarded procMapStep UnmapGuard procMapInit calls :=
  along_iff_guarded (fun _ => True)
    (fun _ _ _ _ isSet step => ⟨trivial, procMapStep_exact isSet step⟩) trivial
    procMapInit_isSet run

/-- Two processes come and go. -/
theorem proc_map_set_at_two :
    Along procMapStep ProcMapIsSet procMapInit
      [.haveToMmap 7, .haveToMmap 8, .haveToMmap 7, .markUnmap 7, .markUnmap 8] := by
  have run : (exec procMapStep procMapInit
      [.haveToMmap 7, .haveToMmap 8, .haveToMmap 7, .markUnmap 7, .markUnmap 8]).isSome := by
    decide
  obtain ⟨last, run⟩ := Option.isSome_iff_exists.mp run
  exact (proc_map_set_iff _ last run).mpr (by decide)

/-- The processes `1` to `n` map the segment. -/
def registerCalls (n : Nat) : List ProcMapCall :=
  (List.range n).map fun i => .haveToMmap (i + 1)

theorem exec_registerCalls {n : Nat} (room : n ≤ araxProcMapSize) :
    ∃ t, exec procMapStep procMapInit (registerCalls n) = some t ∧ ProcMapIsSet t ∧
      t.registered = (Finset.range n).image (· + 1) ∧ (0 < n → t.map 0 = 1) := by
  induction n with
  | zero =>
    refine ⟨procMapInit, rfl, procMapInit_isSet, rfl, fun impossible => ?_⟩
    exact absurd impossible (Nat.lt_irrefl 0)
  | succ n ih =>
    obtain ⟨t, run, isSet, registered, first⟩ := ih (Nat.le_of_succ_le room)
    have count : t.registered.card = n := by
      rw [registered, Finset.card_image_of_injective _ (add_left_injective 1), Finset.card_range]
    have fresh : n + 1 ∉ t.registered := by
      rw [registered, Finset.mem_image]
      rintro ⟨i, inside, same⟩
      exact Nat.ne_of_lt (Finset.mem_range.mp inside) (Nat.succ.inj same)
    have int : n + 1 < 2 ^ 31 := Nat.lt_of_le_of_lt room (by decide)
    have space : n + 1 ∈ t.registered ∨ t.registered.card < araxProcMapSize :=
      .inr (by rw [count]; exact room)
    obtain ⟨next, call, shape, -⟩ := haveToMmap_spec isSet.cells
      (fun pid member => (isSet.pids pid member).1) (Nat.succ_pos n) space
    have move : procMapStep t (.haveToMmap (n + 1)) =
        some ⟨next, insert (n + 1) t.registered, t.returned ++ [decide (n + 1 ∉ t.registered)],
          t.unregistered ++ [decide (n + 1 ∉ t.registered)]⟩ := by
      rw [procMapStep, if_pos ⟨Nat.succ_pos n, int, space⟩, call]
      rfl
    refine ⟨_, ?_, (procMapStep_exact isSet move).mpr trivial, ?_, fun _ => ?_⟩
    · rw [registerCalls, List.range_succ, List.map_append, exec_append]
      show (exec procMapStep procMapInit (registerCalls n)).bind _ = _
      rw [run]
      show (procMapStep t (.haveToMmap (n + 1))).bind _ = _
      rw [move]
      rfl
    · show insert (n + 1) t.registered = _
      rw [registered, Finset.range_add_one, Finset.image_insert]
    · show next 0 = 1
      rw [shape, if_neg fresh, count]
      rcases Nat.eq_zero_or_pos n with none | some
      · rw [none, Function.update_self]
      · rw [Function.update_of_ne (Nat.ne_of_lt some)]
        exact first some

/-- With 129 processes, the removal of the first one leaves the last one twice in the map. -/
theorem proc_map_set_fails_at_129 :
    ¬∀ calls last, exec procMapStep procMapInit calls = some last →
      Along procMapStep ProcMapIsSet procMapInit calls := by
  intro all
  obtain ⟨t, run, isSet, registered, first⟩ := exec_registerCalls (n := 129) (by decide)
  have count : t.registered.card = 129 := by
    rw [registered, Finset.card_image_of_injective _ (add_left_injective 1), Finset.card_range]
  have member : 1 ∈ t.registered := by
    rw [registered]
    exact Finset.mem_image.mpr ⟨0, Finset.mem_range.mpr (by decide), rfl⟩
  obtain ⟨next, call, -⟩ := markUnmap_cells_iff isSet.cells isSet.pids member
  obtain ⟨u, move⟩ : ∃ u, procMapStep t (.markUnmap 1) = some u := by
    rw [procMapStep, if_pos member, call]
    exact ⟨_, rfl⟩
  have whole : exec procMapStep procMapInit (registerCalls 129 ++ [.markUnmap 1]) = some u := by
    rw [exec_append, run]
    show (procMapStep t (.markUnmap 1)).bind _ = _
    rw [move]
    rfl
  have exact := (procMapStep_exact isSet move).mp ((all _ u whole).last whole)
  have found : findPid t.map 1 araxProcMapSize 0 = 0 := if_pos (first (by decide))
  rw [UnmapGuard, found, count] at exact
  rcases exact with ⟨few, -⟩ | ⟨full, -⟩
  · exact absurd few (by decide)
  · exact absurd full (by decide)

end Arax.Core
