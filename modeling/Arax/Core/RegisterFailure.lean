/-
**Registrations that fail (`arax_object_register`, `src/core/arax_object.c`).**

`arax_object_register` takes the bytes of the object from the throttle of the pipe and then asks the
allocator for memory. If there is none, it returns `NULL`, and the bytes stay taken. What the
allocator answers is an argument here.

* `failed_register` — what one failed registration leaves behind.
* `failed_registers_iff` — any number of them leave the throttle and the lists as they were exactly
  if nothing was requested, or if the throttle is not compiled in.
-/

import Arax.Core.ProcHandles

namespace Arax.Core

open Arax.Lib

/-- The arguments of `arax_object_register`. -/
structure RegisterRequest where
  type : ObjectType
  name : String
  size : Nat
  refCount : Nat

/-- `arax_throttle_size_dec`, where `enabled` is `ARAX_THROTTLE_ENABLE`. -/
def throttleDec (enabled : Bool) (r : ObjectRepo) (sz : Nat) : Option ObjectRepo :=
  if sz = 0 then some r
  else if r.available < sz then none
  else
    let available := if enabled then r.available - sz else r.available
    if r.capacity < available then none else some { r with available := available }

/-- `arax_object_register`, where `allocates` says that `arch_alloc_allocate` returns memory. -/
def araxObjectRegisterOr (enabled allocates : Bool) (r : ObjectRepo) (q : RegisterRequest) :
    Option (ObjectRepo × Option Nat) :=
  (throttleDec enabled r q.size).map fun r =>
    if allocates then
      (({ r with next := r.next + 1 }.set r.next
        (freshObject q.type q.name q.size q.refCount)).link q.type r.next, some r.next)
    else (r, none)

/-- With the throttle and with memory, it is the registration of the other models. -/
theorem register_allocates (r : ObjectRepo) (q : RegisterRequest) :
    araxObjectRegisterOr true true r q =
      (araxObjectRegister r q.type q.name q.size q.refCount).map fun (r, id) => (r, some id) := by
  have same : throttleDec true r q.size = r.sizeDec q.size := rfl
  unfold araxObjectRegisterOr araxObjectRegister
  rw [same, Option.map_map]
  rfl

/-- The repository, and what the registrations returned. -/
structure FailureRun where
  repo : ObjectRepo
  returned : List (Option Nat)

/-- A registration for which there is no memory. -/
def failStep (enabled : Bool) (s : FailureRun) (q : RegisterRequest) : Option FailureRun :=
  (araxObjectRegisterOr enabled false s.repo q).map fun (repo, result) =>
    { repo := repo, returned := s.returned ++ [result] }

/-- **The repository is as it was,** with the available size and the lists of all five types. -/
structure AsBefore (r next : ObjectRepo) : Prop where
  available : next.available = r.available
  list : ∀ type, next.list type = r.list type
  length : ∀ type, next.length type = r.length type

/-- **One failed registration.** It returns `NULL`, and takes its bytes. -/
theorem failed_register {enabled : Bool} {r next : ObjectRepo} {q : RegisterRequest}
    {result : Option Nat} (run : araxObjectRegisterOr enabled false r q = some (next, result)) :
    result = none ∧ (enabled = true → q.size ≤ r.available) ∧
      next = { r with available := if enabled then r.available - q.size else r.available } := by
  obtain ⟨taken, dec, pair⟩ := Option.map_eq_some_iff.mp run
  cases pair
  refine ⟨rfl, ?_⟩
  unfold throttleDec at dec
  cases enabled with
  | false =>
    simp only [Bool.false_eq_true, if_false] at dec ⊢
    split_ifs at dec with zero
    · cases dec
      exact ⟨fun off => (by cases off), rfl⟩
    · cases dec
      exact ⟨fun off => (by cases off), rfl⟩
  | true =>
    simp only [if_true] at dec ⊢
    split_ifs at dec with zero few
    · cases dec
      rw [zero]
      exact ⟨fun _ => Nat.zero_le _, rfl⟩
    · cases dec
      exact ⟨fun _ => Nat.le_of_not_lt few, rfl⟩

/-- What any number of failed registrations leave behind. -/
theorem exec_failStep {enabled : Bool} {requests : List RegisterRequest} {s last : FailureRun}
    (run : exec (failStep enabled) s requests = some last) :
    (∀ x ∈ last.returned, x ∈ s.returned ∨ x = none) ∧ last.repo.list = s.repo.list ∧
      last.repo.length = s.repo.length ∧ last.repo.available ≤ s.repo.available ∧
      (last.repo.available = s.repo.available ↔ enabled = false ∨ ∀ q ∈ requests, q.size = 0) := by
  induction requests generalizing s with
  | nil =>
    cases run
    exact ⟨fun x => Or.inl, rfl, rfl, le_rfl, iff_of_true rfl (Or.inr fun q => nofun)⟩
  | cons q rest ih =>
    obtain ⟨mid, step, later⟩ := exec_cons run
    obtain ⟨⟨next, result⟩, failed, rfl⟩ := Option.map_eq_some_iff.mp step
    obtain ⟨rfl, room, rfl⟩ := failed_register failed
    obtain ⟨returned, list, length, less, same⟩ := ih later
    refine ⟨fun x member => ?_, list, length, less.trans ?_, ?_⟩
    · rcases returned x member with old | none
      · rcases List.mem_append.mp old with before | new
        · exact Or.inl before
        · exact Or.inr (List.mem_singleton.mp new)
      · exact Or.inr none
    · show (if enabled then s.repo.available - q.size else s.repo.available) ≤ s.repo.available
      split_ifs
      · exact Nat.sub_le _ _
      · exact le_rfl
    · cases enabled with
      | false => exact iff_of_true (same.mpr (Or.inl rfl)) (Or.inl rfl)
      | true =>
        have taken : s.repo.available - q.size + q.size = s.repo.available :=
          Nat.sub_add_cancel (room rfl)
        have less : last.repo.available ≤ s.repo.available - q.size := less
        have same : last.repo.available = s.repo.available - q.size ↔ _ := same
        rw [List.forall_mem_cons]
        constructor
        · intro kept
          obtain off | zero := same.mp (by omega)
          · cases off
          · exact Or.inr ⟨by omega, zero⟩
        · rintro (off | ⟨none, zero⟩)
          · cases off
          · rw [same.mpr (Or.inr zero), none, Nat.sub_zero]

/-- **Failed registrations.** They all return `NULL`; together they leave the repository as it was
if and only if the throttle is not compiled in or none of them was for a byte. -/
theorem failed_registers_iff (enabled : Bool) (r : ObjectRepo) (requests : List RegisterRequest)
    (last : FailureRun) (run : exec (failStep enabled) ⟨r, []⟩ requests = some last) :
    (∀ x ∈ last.returned, x = none) ∧
      (AsBefore r last.repo ↔ enabled = false ∨ ∀ q ∈ requests, q.size = 0) := by
  obtain ⟨returned, list, length, -, same⟩ := exec_failStep run
  refine ⟨fun x member => (returned x member).resolve_left nofun, ?_⟩
  rw [← same]
  exact ⟨fun kept => kept.available, fun kept => ⟨kept, fun type => congrFun list type,
    fun type => congrFun length type⟩⟩

/-- Without the throttle, failed registrations of data and of a task. -/
theorem failed_registers_unthrottled : ∃ last,
    exec (failStep false) ⟨araxObjectRepoInit 4096, []⟩
        [⟨.data, "UNUSED", 96, 1⟩, ⟨.task, "Task", 64, 1⟩] = some last ∧
      AsBefore (araxObjectRepoInit 4096) last.repo := by
  have view : (exec (failStep false) ⟨araxObjectRepoInit 4096, []⟩
      [⟨.data, "UNUSED", 96, 1⟩, ⟨.task, "Task", 64, 1⟩]).isSome = true := by decide +kernel
  obtain ⟨last, run⟩ := Option.isSome_iff_exists.mp view
  exact ⟨last, run, (failed_registers_iff false _ _ last run).2.mpr (Or.inl rfl)⟩

/-- **Data of 96 bytes for which there is no memory.** The 96 bytes stay taken. -/
theorem failed_register_keeps_bytes :
    ¬∀ (r : ObjectRepo) (q : RegisterRequest) (next : ObjectRepo) (result : Option Nat),
      araxObjectRegisterOr true false r q = some (next, result) →
        result = none ∧ AsBefore r next := by
  intro claimed
  have view : (araxObjectRegisterOr true false (araxObjectRepoInit 4096)
      ⟨.data, "UNUSED", 96, 1⟩).map (fun (next, result) => (next.available, result)) =
      some (4000, none) := by decide +kernel
  obtain ⟨⟨next, result⟩, run, ends⟩ := Option.map_eq_some_iff.mp view
  have same := (claimed _ _ next result run).2.available
  rw [show next.available = 4000 from congrArg Prod.fst ends] at same
  exact absurd same (by decide)

end Arax.Core
