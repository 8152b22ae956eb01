/-
**The assignment of virtual accelerators, without links.**

What the calls on the lists of `Arax.Core.Ownership` are for: each VAQ is an orphan, assigned to
one accelerator, or checked out. Here the lists are lists, in the order of their rings, and a call
is one function on them. The models of the controller are built on these.

* `Assignment` — the VAQs of each list, and `vaccel->phys`.
* `Refines s a` — the links of `s` hold the assignment `a`.
* `addOrphan_refines`, `getOrphan_refines`, `addVaccel_refines`, `delVaccel_refines` — a call on the
  links does to the assignment what its abstract function does.
* `Assigned a` — `phys` says in which list a VAQ is; kept by every function.
-/

import Arax.Core.Ownership

namespace Arax.Core

open Arax.Lib Arax.Core.Ownership

/-- The VAQs of each list, and the accelerator each VAQ is assigned to. -/
structure Assignment where
  vaqs : Owner → List Nat
  phys : Nat → Option Nat

namespace Assignment

/-- `arax_pipe_add_orphan_vaccel`. -/
def addOrphan (a : Assignment) (vac : Nat) : Option Assignment :=
  if a.phys vac = none then
    some { a with vaqs := Function.update a.vaqs .orphans (vac :: a.vaqs .orphans) }
  else none

/-- `arax_pipe_get_orphan_vaccel`. -/
def getOrphan (a : Assignment) : Option Nat × Assignment :=
  ((a.vaqs .orphans).head?,
    { a with vaqs := Function.update a.vaqs .orphans (a.vaqs .orphans).tail })

/-- `arax_pipe_remove_orphan_vaccel`. -/
def removeOrphan (a : Assignment) (vac : Nat) : Assignment :=
  { a with vaqs := Function.update a.vaqs .orphans ((a.vaqs .orphans).erase vac) }

/-- `arax_accel_add_vaccel`. -/
def addVaccel (a : Assignment) (accel vaccel : Nat) : Option Assignment :=
  match a.phys vaccel with
  | some other => if other = accel then some a else none
  | none =>
    some { vaqs := Function.update (a.removeOrphan vaccel).vaqs (.accel accel)
             (vaccel :: a.vaqs (.accel accel))
           phys := Function.update a.phys vaccel (some accel) }

/-- `arax_accel_del_vaccel`. -/
def delVaccel (a : Assignment) (accel vaccel : Nat) : Option Assignment :=
  if a.phys vaccel = some accel then
    some { vaqs := Function.update a.vaqs (.accel accel) ((a.vaqs (.accel accel)).erase vaccel)
           phys := Function.update a.phys vaccel none }
  else none

end Assignment

/-! ### The calls on the links refine these -/

/-- The links hold the assignment. -/
def Refines (s : VaqState) (a : Assignment) : Prop := Ownership.Owned s a.vaqs ∧ s.phys = a.phys

section Refinement

variable {s t : VaqState} {a : Assignment} {p v : Nat}

theorem addOrphan_refines (refines : Refines s a) (alive : s.vaccels v) (away : s.unlinked v)
    (step : Ownership.araxPipeAddOrphanVaccel s v = some t) :
    ∃ b, a.addOrphan v = some b ∧ Refines t b := by
  obtain ⟨owned, phys⟩ := refines
  have owned' := (addOrphan_owned owned alive away step).1
  unfold Ownership.araxPipeAddOrphanVaccel at step
  split_ifs at step with unassigned
  cases step
  rw [phys] at unassigned
  exact ⟨_, if_pos unassigned, owned', phys⟩

theorem getOrphan_refines (refines : Refines s a) :
    ∃ t, Ownership.araxPipeGetOrphanVaccel s = some (a.getOrphan.1, t) ∧
      Refines t a.getOrphan.2 := by
  obtain ⟨owned, phys⟩ := refines
  obtain ⟨t, result, owned', same, -⟩ := getOrphan_owned owned
  exact ⟨t, result, owned', same.trans phys⟩

theorem addVaccel_refines (refines : Refines s a) (alive : s.vaccels v) (here : s.accels p)
    (step : Ownership.araxAccelAddVaccel s p v = some t) :
    ∃ b, a.addVaccel p v = some b ∧ Refines t b := by
  obtain ⟨owned, phys⟩ := refines
  unfold Assignment.addVaccel
  cases assigned : s.phys v with
  | some q =>
    obtain ⟨rfl, rfl⟩ := addVaccel_assigned assigned step
    rw [phys] at assigned
    simp only [assigned, if_true]
    exact ⟨a, rfl, owned, phys⟩
  | none =>
    have owned' := (addVaccel_owned owned alive here assigned step).1
    have phys' := addVaccel_phys assigned step
    rw [phys] at assigned phys'
    simp only [assigned]
    exact ⟨_, rfl, owned', phys'⟩

theorem delVaccel_refines (refines : Refines s a) (alive : s.vaccels v)
    (step : Ownership.araxAccelDelVaccel s p v = some t) :
    ∃ b, a.delVaccel p v = some b ∧ Refines t b := by
  obtain ⟨owned, phys⟩ := refines
  have owned' := (delVaccel_owned owned alive step).1
  unfold Ownership.araxAccelDelVaccel at step
  split_ifs at step with assigned
  cases step
  rw [phys] at assigned
  refine ⟨_, if_pos assigned, owned', ?_⟩
  show Function.update s.phys v none = Function.update a.phys v none
  rw [phys]

end Refinement

/-! ### What the functions keep -/

/-- A VAQ is in the list of the accelerator its `phys` names, once. -/
structure Assigned (a : Assignment) : Prop where
  phys : ∀ p v, v ∈ a.vaqs (.accel p) ↔ a.phys v = some p
  nodup : ∀ p, (a.vaqs (.accel p)).Nodup

section Keeping

variable {a b : Assignment} {p v : Nat}

/-- A change of the orphans. -/
theorem Assigned.orphans (assigned : Assigned a) (xs : List Nat) :
    Assigned { a with vaqs := Function.update a.vaqs .orphans xs } := by
  refine ⟨fun p v => ?_, fun p => ?_⟩
  · show v ∈ Function.update a.vaqs .orphans xs (.accel p) ↔ _
    rw [Function.update_of_ne (by simp)]
    exact assigned.phys p v
  · show (Function.update a.vaqs .orphans xs (.accel p)).Nodup
    rw [Function.update_of_ne (by simp)]
    exact assigned.nodup p

theorem Assigned.addOrphan (assigned : Assigned a) (step : a.addOrphan v = some b) :
    Assigned b := by
  unfold Assignment.addOrphan at step
  split_ifs at step
  cases step
  exact assigned.orphans _

theorem Assigned.getOrphan (assigned : Assigned a) : Assigned a.getOrphan.2 :=
  assigned.orphans _

/-- A VAQ that is assigned to nothing gets an accelerator. -/
theorem Assigned.put (assigned : Assigned a) (unassigned : a.phys v = none) :
    Assigned { vaqs := Function.update a.vaqs (.accel p) (v :: a.vaqs (.accel p))
               phys := Function.update a.phys v (some p) } := by
  have outside : ∀ q, v ∉ a.vaqs (.accel q) := by
    intro q member
    rw [assigned.phys, unassigned] at member
    cases member
  refine ⟨fun q w => ?_, fun q => ?_⟩
  · show w ∈ Function.update a.vaqs _ _ _ ↔ Function.update a.phys v (some p) w = some q
    by_cases here : q = p
    · subst here
      rw [Function.update_self, List.mem_cons, assigned.phys]
      by_cases same : w = v
      · simp [same]
      · simp [same]
    · rw [Function.update_of_ne (by simpa using here)]
      by_cases same : w = v
      · subst same
        simp [outside q, Ne.symm here]
      · rw [Function.update_of_ne same]
        exact assigned.phys q w
  · show (Function.update a.vaqs _ _ _).Nodup
    by_cases here : q = p
    · subst here
      rw [Function.update_self]
      exact List.nodup_cons.mpr ⟨outside q, assigned.nodup q⟩
    · rw [Function.update_of_ne (by simpa using here)]
      exact assigned.nodup q

theorem Assigned.addVaccel (assigned : Assigned a) (step : a.addVaccel p v = some b) :
    Assigned b := by
  unfold Assignment.addVaccel at step
  split at step
  · split_ifs at step
    cases step
    exact assigned
  · rename_i unassigned
    cases step
    have removed : Assigned (a.removeOrphan v) := assigned.orphans _
    have kept : (a.removeOrphan v).vaqs (.accel p) = a.vaqs (.accel p) := by
      simp [Assignment.removeOrphan]
    rw [← kept]
    exact removed.put unassigned

theorem Assigned.delVaccel (assigned : Assigned a) (step : a.delVaccel p v = some b) :
    Assigned b := by
  unfold Assignment.delVaccel at step
  split_ifs at step with phys
  cases step
  refine ⟨fun q w => ?_, fun q => ?_⟩
  · show w ∈ Function.update a.vaqs _ _ _ ↔ Function.update a.phys v none w = some q
    by_cases here : q = p
    · subst here
      rw [Function.update_self, (assigned.nodup q).mem_erase_iff, assigned.phys]
      by_cases same : w = v
      · simp [same]
      · simp [same]
    · rw [Function.update_of_ne (by simpa using here), assigned.phys]
      by_cases same : w = v
      · subst same
        simp [phys, Ne.symm here]
      · rw [Function.update_of_ne same]
  · show (Function.update a.vaqs _ _ _).Nodup
    by_cases here : q = p
    · subst here
      rw [Function.update_self]
      exact (assigned.nodup q).erase v
    · rw [Function.update_of_ne (by simpa using here)]
      exact assigned.nodup q

/-- Only a VAQ without `phys` gets one. -/
theorem addVaccel_phys_kept {w q : Nat} (step : a.addVaccel p v = some b)
    (old : a.phys w = some q) : b.phys w = some q := by
  unfold Assignment.addVaccel at step
  split at step
  · split_ifs at step
    cases step
    exact old
  · rename_i unassigned
    cases step
    show Function.update a.phys v (some p) w = some q
    rw [Function.update_of_ne, old]
    rintro rfl
    rw [old] at unassigned
    cases unassigned

theorem addVaccel_phys_other {w : Nat} (step : a.addVaccel p v = some b) (apart : w ≠ v) :
    b.phys w = a.phys w := by
  unfold Assignment.addVaccel at step
  split at step
  · split_ifs at step
    cases step
    rfl
  · cases step
    exact Function.update_of_ne apart ..

theorem delVaccel_phys_other {w : Nat} (step : a.delVaccel p v = some b) (apart : w ≠ v) :
    b.phys w = a.phys w := by
  unfold Assignment.delVaccel at step
  split_ifs at step
  cases step
  exact Function.update_of_ne apart ..

theorem addOrphan_phys (step : a.addOrphan v = some b) : b.phys = a.phys := by
  unfold Assignment.addOrphan at step
  split_ifs at step
  cases step
  rfl

end Keeping

end Arax.Core
