/-
**The balancer (`controller/src/Schedulers/*.cpp`, `controller/src/Core/Config.cpp`).**

The balancer takes an orphan VAQ and asks the scheduler for an accelerator. All three schedulers
go round robin with an iterator, `paccel_rr`, that is static: it is carried from one call to the
next, while the vector it runs over is made anew for the type of each VAQ. The iterator is read as
a position here. A position that was right for the vector of one type may be outside the next one.

* `getAccelerators` — the accelerators of a type.
* `roundRobinAssignVac`, `elasticAssignVac`, `heterogeneousAssignVac` — `assignVac`.
* `schedStep` — the balancer, and what clients and workers do to the VAQs meanwhile.
* `AssignGood` — the call looks at an accelerator of the vector, and no VAQ gets one of another
  type.
* `AssignGuard` — the condition: the position is not beyond the end of the vector.
* `assign_types_iff` — the calls of a run are good exactly if all of them meet the condition.
* `assign_outside` — a run for each scheduler in which they do not.
-/

import Mathlib.Algebra.Group.Nat.Defs
import Mathlib.Data.List.Basic
import Mathlib.Tactic.SplitIfs
import Arax.Lib.Loop
import Arax.Lib.Run
import Arax.Core.Assignment
import Arax.Core.Heterogeneous
import Arax.Core.Object

namespace Arax.Controller

open Arax.Lib Arax.Core Arax.Core.Ownership

variable {τ : Type}

/-- What does not change in a run. -/
structure Config (τ : Type) where
  /-- The accelerators, in the order of their names. -/
  accelerators : List Nat
  /-- `accel->type`. -/
  type : Nat → AccelType
  /-- `vac->type`. -/
  vaqType : Nat → AccelType
  /-- `accel->free_vaq`. -/
  freeVaq : Nat → Nat
  /-- `arax_proc_can_run_at`, for the procedure of the task. -/
  canRunAt : τ → AccelType → Bool
  nodup : accelerators.Nodup
  freeVaq_type : ∀ p ∈ accelerators, vaqType (freeVaq p) = type p
  freeVaq_injective : ∀ p ∈ accelerators, ∀ q ∈ accelerators, freeVaq p = freeVaq q → p = q

/-- `Config::getAccelerators`. -/
def Config.getAccelerators (c : Config τ) (type : AccelType) : List Nat :=
  c.accelerators.filter fun p => type = .any || c.type p = type

/-- What the balancer, the workers and the clients share. -/
structure SchedState (τ : Type) where
  assignment : Assignment
  queue : Nat → List τ
  /-- `accel->tasks`. -/
  tasks : Nat → Nat
  /-- `th->getAssignedVACs()`, for the thread of each accelerator. -/
  assignedVACs : Nat → List Nat
  /-- Where `paccel_rr` is in its vector. -/
  position : Nat
  vaq4migration : Nat

/-- Why `assignVac` does not return. -/
inductive AssignFault where
  /-- An iterator is dereferenced that is not in the vector. -/
  | outside
  /-- The assertion in `arax_accel_del_vaccel`. -/
  | notAssigned
  /-- The assertion in `arax_accel_add_vaccel`. -/
  | taken
  /-- `abort`, after a loop that found no accelerator. -/
  | noAssignment
  deriving DecidableEq

/-- `arax_accel_add_vaccel`. -/
def SchedState.addVaccel (s : SchedState τ) (accel vac : Nat) :
    Except AssignFault (SchedState τ) :=
  match s.assignment.addVaccel accel vac with
  | none => .error .taken
  | some assignment => .ok { s with
      assignment := assignment
      tasks := if s.assignment.phys vac = some accel then s.tasks
        else Function.update s.tasks accel ((s.tasks accel + (s.queue vac).length) % 2 ^ 64) }

/-- `arax_accel_del_vaccel`. -/
def SchedState.delVaccel (s : SchedState τ) (accel vac : Nat) :
    Except AssignFault (SchedState τ) :=
  match s.assignment.delVaccel accel vac with
  | none => .error .notAssigned
  | some assignment => .ok { s with
      assignment := assignment
      tasks := if (s.queue vac).length = 0 then s.tasks
        else Function.update s.tasks accel
          ((s.tasks accel + (2 ^ 64 - ((s.queue vac).length - 1))) % 2 ^ 64) }

/-- `if (paccel_rr == accelsOfAType.end()) paccel_rr = accelsOfAType.begin();` -/
def wrap (position : Nat) (accels : List Nat) : Nat :=
  if position = accels.length then 0 else position

/-- `RoundRobinScheduler::assignVac`. -/
def roundRobinAssignVac (c : Config τ) (s : SchedState τ) (vac : Nat) :
    Except AssignFault (SchedState τ) :=
  let accels := c.getAccelerators (c.vaqType vac)
  let rr := wrap s.position accels
  match accels[rr]? with
  | none => .error .outside
  | some accel => do
    let s ← s.addVaccel accel vac
    return { s with position := rr + 1 }

/-- The VAQ that `ElasticScheduler::assignVac` moves from `accel` to `other`. -/
def migrating (c : Config τ) (s : SchedState τ) (accel other : Nat) : Option Nat :=
  (s.assignedVACs accel).find? fun mig => mig ≠ c.freeVaq other && mig ≠ c.freeVaq accel

/-- The loop of `ElasticScheduler::assignVac`, which moves one VAQ. -/
def elasticMove (c : Config τ) (s : SchedState τ) (accel other : Nat) :
    Except AssignFault (SchedState τ) :=
  match migrating c s accel other with
  | none => .ok s
  | some mig => do
    let s ← { s with vaq4migration := mig }.delVaccel accel mig
    s.addVaccel other mig

/-- `ElasticScheduler::assignVac`. -/
def elasticAssignVac (c : Config τ) (s : SchedState τ) (vac : Nat) :
    Except AssignFault (SchedState τ) :=
  let accels := c.getAccelerators (c.vaqType vac)
  let rr := wrap s.position accels
  match accels[rr]? with
  | none => .error .outside
  | some accel =>
    if (s.assignedVACs accel).length ≠ 0 then
      match accels[wrap (rr + 1) accels]? with
      | none => .error .outside
      | some tmpAccel => do
        let s ← elasticMove c s accel tmpAccel
        let s ← s.addVaccel accel vac
        return { s with position := rr + 1 }
    else do
      let s ← s.addVaccel accel vac
      return { s with position := rr + 1 }

/-- `HeterogeneousScheduler::checkForRunnableTask`. -/
def SchedState.checkForRunnableTask (c : Config τ) (s : SchedState τ) (accel vac : Nat) :
    TaskState :=
  match (s.queue vac).head? with
  | none => .NT
  | some task => if c.canRunAt task (c.type accel) then .RT else .T

/-- The loop of `HeterogeneousScheduler::assignVac`, with the number of iterations that are left. -/
def heterogeneousLoop (c : Config τ) (s : SchedState τ) (vac : Nat) (accels : List Nat) :
    Nat → Nat → Except AssignFault (SchedState τ)
  | 0, _ => .error .noAssignment
  | left + 1, position =>
    let rr := wrap position accels
    match accels[rr]? with
    | none => .error .outside
    | some accel =>
      match s.checkForRunnableTask c accel vac with
      | .T => heterogeneousLoop c s vac accels left (rr + 1)
      | _ => do
        let s ← s.addVaccel accel vac
        return { s with position := rr }

/-- `HeterogeneousScheduler::assignVac`. -/
def heterogeneousAssignVac (c : Config τ) (s : SchedState τ) (vac : Nat) :
    Except AssignFault (SchedState τ) :=
  let accels := c.getAccelerators (c.vaqType vac)
  heterogeneousLoop c s vac accels accels.length s.position

/-- The schedulers. -/
inductive SchedKind where
  | roundRobin
  | elastic
  | heterogeneous
  deriving DecidableEq

/-- `Scheduler::assignVac`. -/
def assignVac (sched : SchedKind) (c : Config τ) (s : SchedState τ) (vac : Nat) :
    Except AssignFault (SchedState τ) :=
  match sched with
  | .roundRobin => roundRobinAssignVac c s vac
  | .elastic => elasticAssignVac c s vac
  | .heterogeneous => heterogeneousAssignVac c s vac

/-! ### Runs -/

/-- Who does something. -/
inductive SchedMove (τ : Type) where
  /-- A VAQ that is assigned to nothing becomes an orphan. -/
  | orphan (vac : Nat)
  /-- A client adds a task to a VAQ. -/
  | submit (vac : Nat) (task : τ)
  /-- The balancer takes an orphan and calls `assignVac`. -/
  | assign
  /-- `accelThread::updateVirtAccels`. -/
  | update (accel : Nat)
  /-- A worker takes the first task of a VAQ. -/
  | pop (vac : Nat)
  /-- `HeterogeneousScheduler::selectTask` takes a VAQ from its accelerator. -/
  | del (accel vac : Nat)

/-- After `arax_pipe_get_orphan_vaccel`. -/
def SchedState.getOrphan (s : SchedState τ) : SchedState τ :=
  { s with assignment := s.assignment.getOrphan.2 }

/-- `arax_vaccel_add_task`. -/
def SchedState.submit (s : SchedState τ) (vac : Nat) (task : τ) : SchedState τ :=
  { s with
    queue := Function.update s.queue vac (s.queue vac ++ [task])
    tasks := match s.assignment.phys vac with
      | none => s.tasks
      | some accel => Function.update s.tasks accel ((s.tasks accel + 1) % 2 ^ 64) }

/-- `accelThread::updateVirtAccels`, once `arax_accel_wait_for_task` returns. -/
def SchedState.updateVirtAccels (s : SchedState τ) (accel : Nat) : Option (SchedState τ) :=
  if s.tasks accel = 0 then none
  else some { s with
    tasks := Function.update s.tasks accel (s.tasks accel - 1)
    assignedVACs := Function.update s.assignedVACs accel (s.assignment.vaqs (.accel accel)) }

/-- One step. The orphans are linked by the VAQs themselves, so an orphan is not added again. -/
def schedStep (sched : SchedKind) (c : Config τ) (s : SchedState τ) :
    SchedMove τ → Option (SchedState τ)
  | .orphan vac =>
    if vac ∈ s.assignment.vaqs .orphans then none
    else (s.assignment.addOrphan vac).map fun assignment => { s with assignment := assignment }
  | .submit vac task => some (s.submit vac task)
  | .assign => s.assignment.getOrphan.1.bind fun vac => (assignVac sched c s.getOrphan vac).toOption
  | .update accel => s.updateVirtAccels accel
  | .pop vac => some { s with queue := Function.update s.queue vac (s.queue vac).tail }
  | .del accel vac => (s.delVaccel accel vac).toOption

/-- After the accelerators are made, each with its free VAQ. -/
def schedStart (c : Config τ) (vaq4migration : Nat) : SchedState τ where
  assignment :=
    { vaqs := fun
        | .orphans => []
        | .accel p => if p ∈ c.accelerators then [c.freeVaq p] else []
      phys := fun v => c.accelerators.find? fun p => c.freeVaq p == v }
  queue := fun _ => []
  tasks := fun _ => 0
  assignedVACs := fun _ => []
  position := 0
  vaq4migration := vaq4migration

/-! ### Types -/

/-- The accelerator has the type of the VAQ. -/
def Fits (c : Config τ) (vac accel : Nat) : Prop :=
  c.vaqType vac = .any ∨ c.type accel = c.vaqType vac

/-- Every VAQ is assigned to an accelerator of its type. -/
def TypesOk (c : Config τ) (a : Assignment) : Prop :=
  ∀ v p, a.phys v = some p → Fits c v p

/-- `assignVac` stays inside its vector, and after it no VAQ has an accelerator of another type. -/
def AssignGood (sched : SchedKind) (c : Config τ) (s : SchedState τ) : SchedMove τ → Prop
  | .assign => ∀ vac, s.assignment.getOrphan.1 = some vac →
      assignVac sched c s.getOrphan vac ≠ .error .outside ∧
        ∀ t, assignVac sched c s.getOrphan vac = .ok t → TypesOk c t.assignment
  | _ => True

/-- The elastic scheduler moves the VAQ `mig` from `accel` to `other` before it assigns `vac`. -/
structure Moves (c : Config τ) (s : SchedState τ) (vac accel other mig : Nat) : Prop where
  here : (c.getAccelerators (c.vaqType vac))[wrap s.position
    (c.getAccelerators (c.vaqType vac))]? = some accel
  next : (c.getAccelerators (c.vaqType vac))[wrap
    (wrap s.position (c.getAccelerators (c.vaqType vac)) + 1)
    (c.getAccelerators (c.vaqType vac))]? = some other
  found : migrating c s accel other = some mig
  mine : s.assignment.phys mig = some accel

/-- The position is not beyond the end of the vector for the type of the VAQ. When the elastic
scheduler looks at accelerators of all types, what it moves also fits. -/
def AssignGuard (sched : SchedKind) (c : Config τ) (s : SchedState τ) : SchedMove τ → Prop
  | .assign => ∀ vac, s.assignment.getOrphan.1 = some vac →
      s.position ≤ (c.getAccelerators (c.vaqType vac)).length ∧
        (sched = .elastic → c.vaqType vac = .any →
          ∀ accel other mig, Moves c s vac accel other mig → Fits c mig other)
  | _ => True

section Vectors

variable {c : Config τ} {vac accel other i : Nat} {accels : List Nat}

theorem mem_getAccelerators {type : AccelType} :
    accel ∈ c.getAccelerators type ↔
      accel ∈ c.accelerators ∧ (type = .any ∨ c.type accel = type) := by
  unfold Config.getAccelerators
  rw [List.mem_filter, Bool.or_eq_true, decide_eq_true_eq, decide_eq_true_eq]

theorem fits_of_mem (member : accel ∈ c.getAccelerators (c.vaqType vac)) : Fits c vac accel :=
  (mem_getAccelerators.mp member).2

/-- Two accelerators of one vector take the same VAQs, unless it is the vector of all. -/
theorem Fits.beside {mig : Nat} (fits : Fits c mig accel) (typed : c.vaqType vac ≠ .any)
    (here : accel ∈ c.getAccelerators (c.vaqType vac))
    (there : other ∈ c.getAccelerators (c.vaqType vac)) : Fits c mig other := by
  have type : c.type accel = c.vaqType vac := (fits_of_mem here).resolve_left typed
  have type' : c.type other = c.vaqType vac := (fits_of_mem there).resolve_left typed
  unfold Fits
  rw [type', ← type]
  exact fits

theorem wrap_lt (inside : i ≤ accels.length) (nonempty : accels ≠ []) :
    wrap i accels < accels.length := by
  have positive : 0 < accels.length := List.length_pos_of_ne_nil nonempty
  unfold wrap
  split_ifs with at_end
  · exact positive
  · omega

theorem wrap_beyond (beyond : accels.length < i) : accels[wrap i accels]? = none := by
  unfold wrap
  rw [if_neg (Nat.ne_of_gt beyond)]
  exact List.getElem?_eq_none (Nat.le_of_lt beyond)

/-- An iterator that wraps around at the end is inside, if it was not beyond it. -/
theorem wrap_cases (nonempty : accels ≠ []) :
    (i ≤ accels.length ∧ ∃ accel ∈ accels, accels[wrap i accels]? = some accel) ∨
      (accels.length < i ∧ accels[wrap i accels]? = none) := by
  by_cases inside : i ≤ accels.length
  · have here := wrap_lt inside nonempty
    exact .inl ⟨inside, _, List.getElem_mem here, List.getElem?_eq_getElem here⟩
  · have beyond := Nat.lt_of_not_le inside
    exact .inr ⟨beyond, wrap_beyond beyond⟩

end Vectors

/-! ### What the calls keep -/

/-- The orphans have no accelerator, and each of them is in the list once. -/
structure Shaped (a : Assignment) : Prop where
  assigned : Assigned a
  nodup : (a.vaqs .orphans).Nodup
  free : ∀ v ∈ a.vaqs .orphans, a.phys v = none

section Keeping

variable {c : Config τ} {a b : Assignment} {s t : SchedState τ} {v p : Nat}

theorem addVaccel_cases (step : a.addVaccel p v = some b) :
    a.phys v = some p ∧ b = a ∨
      a.phys v = none ∧ b.phys = Function.update a.phys v (some p) ∧
        b.vaqs .orphans = (a.vaqs .orphans).erase v := by
  unfold Assignment.addVaccel at step
  split at step
  · next other assigned =>
    split_ifs at step with same
    cases step
    exact .inl ⟨same ▸ assigned, rfl⟩
  · next unassigned =>
    cases step
    exact .inr ⟨unassigned, rfl, by simp [Assignment.removeOrphan]⟩

theorem delVaccel_cases (step : a.delVaccel p v = some b) :
    a.phys v = some p ∧ b.phys = Function.update a.phys v none ∧
      b.vaqs .orphans = a.vaqs .orphans := by
  unfold Assignment.delVaccel at step
  split_ifs at step with assigned
  cases step
  exact ⟨assigned, rfl, by simp⟩

theorem addOrphan_cases (step : a.addOrphan v = some b) :
    a.phys v = none ∧ b.phys = a.phys ∧ b.vaqs .orphans = v :: a.vaqs .orphans := by
  unfold Assignment.addOrphan at step
  split_ifs at step with unassigned
  cases step
  exact ⟨unassigned, rfl, by simp⟩

theorem Shaped.addVaccel (shaped : Shaped a) (step : a.addVaccel p v = some b) : Shaped b := by
  obtain ⟨-, rfl⟩ | ⟨-, phys, orphans⟩ := addVaccel_cases step
  · exact shaped
  · refine ⟨shaped.assigned.addVaccel step, ?_, fun w member => ?_⟩
    · rw [orphans]
      exact shaped.nodup.erase v
    · rw [orphans, shaped.nodup.mem_erase_iff] at member
      rw [phys, Function.update_of_ne member.1]
      exact shaped.free w member.2

theorem Shaped.delVaccel (shaped : Shaped a) (step : a.delVaccel p v = some b) : Shaped b := by
  obtain ⟨-, phys, orphans⟩ := delVaccel_cases step
  refine ⟨shaped.assigned.delVaccel step, ?_, fun w member => ?_⟩
  · rw [orphans]
    exact shaped.nodup
  · rw [orphans] at member
    rw [phys]
    by_cases same : w = v
    · rw [same, Function.update_self]
    · rw [Function.update_of_ne same]
      exact shaped.free w member

theorem Shaped.addOrphan (shaped : Shaped a) (new : v ∉ a.vaqs .orphans)
    (step : a.addOrphan v = some b) : Shaped b := by
  obtain ⟨unassigned, phys, orphans⟩ := addOrphan_cases step
  refine ⟨shaped.assigned.addOrphan step, ?_, fun w member => ?_⟩
  · rw [orphans]
    exact List.nodup_cons.mpr ⟨new, shaped.nodup⟩
  · rw [orphans] at member
    rw [phys]
    rcases List.mem_cons.mp member with rfl | member
    · exact unassigned
    · exact shaped.free w member

theorem Shaped.getOrphan (shaped : Shaped a) : Shaped a.getOrphan.2 := by
  have orphans : a.getOrphan.2.vaqs .orphans = (a.vaqs .orphans).tail := by
    simp [Assignment.getOrphan]
  refine ⟨shaped.assigned.getOrphan, ?_, fun w member => ?_⟩
  · rw [orphans]
    exact shaped.nodup.tail
  · rw [orphans] at member
    exact shaped.free w (List.mem_of_mem_tail member)

/-- The orphan that the balancer takes has no accelerator. -/
theorem Shaped.taken (shaped : Shaped a) (orphan : a.getOrphan.1 = some v) : a.phys v = none :=
  shaped.free v (List.mem_of_mem_head? orphan)

theorem TypesOk.addVaccel (types : TypesOk c a) (fits : Fits c v p)
    (step : a.addVaccel p v = some b) : TypesOk c b := by
  obtain ⟨-, rfl⟩ | ⟨-, phys, -⟩ := addVaccel_cases step
  · exact types
  · intro w q assigned
    rw [phys] at assigned
    by_cases same : w = v
    · subst same
      rw [Function.update_self] at assigned
      cases assigned
      exact fits
    · rw [Function.update_of_ne same] at assigned
      exact types w q assigned

theorem TypesOk.delVaccel (types : TypesOk c a) (step : a.delVaccel p v = some b) :
    TypesOk c b := by
  obtain ⟨-, phys, -⟩ := delVaccel_cases step
  intro w q assigned
  rw [phys] at assigned
  by_cases same : w = v
  · rw [same, Function.update_self] at assigned
    cases assigned
  · rw [Function.update_of_ne same] at assigned
    exact types w q assigned

theorem addVaccel_parts (step : s.addVaccel p v = .ok t) :
    s.assignment.addVaccel p v = some t.assignment ∧
      t = { s with assignment := t.assignment, tasks := t.tasks } := by
  unfold SchedState.addVaccel at step
  split at step
  · cases step
  · next _ assigned =>
    cases step
    exact ⟨assigned, rfl⟩

theorem delVaccel_parts (step : s.delVaccel p v = .ok t) :
    s.assignment.delVaccel p v = some t.assignment ∧
      t = { s with assignment := t.assignment, tasks := t.tasks } := by
  unfold SchedState.delVaccel at step
  split at step
  · cases step
  · next _ assigned =>
    cases step
    exact ⟨assigned, rfl⟩

/-- A VAQ without an accelerator can be given one. -/
theorem addVaccel_free (free : s.assignment.phys v = none) : ∃ t, s.addVaccel p v = .ok t := by
  unfold SchedState.addVaccel Assignment.addVaccel
  rw [free]
  exact ⟨_, rfl⟩

/-- A VAQ can be taken from the accelerator it is assigned to. -/
theorem delVaccel_mine (mine : s.assignment.phys v = some p) : ∃ t, s.delVaccel p v = .ok t := by
  unfold SchedState.delVaccel Assignment.delVaccel
  rw [if_pos mine]
  exact ⟨_, rfl⟩

theorem addVaccel_ne {e : AssignFault} (other : e ≠ .taken) : s.addVaccel p v ≠ .error e := by
  unfold SchedState.addVaccel
  split
  · exact fun same => other (Except.error.inj same).symm
  · nofun

theorem delVaccel_ne {e : AssignFault} (other : e ≠ .notAssigned) :
    s.delVaccel p v ≠ .error e := by
  unfold SchedState.delVaccel
  split
  · exact fun same => other (Except.error.inj same).symm
  · nofun

end Keeping

/-! ### The calls of `assignVac` -/

section Calls

variable {c : Config τ} {s t : SchedState τ} {vac accel other : Nat}

/-- The last two steps of every `assignVac`. -/
theorem add_position {position : Nat}
    (run : (do
      let s ← s.addVaccel accel vac
      return { s with position := position } : Except AssignFault (SchedState τ)) = .ok t) :
    s.assignment.addVaccel accel vac = some t.assignment ∧
      t = { s with assignment := t.assignment, tasks := t.tasks, position := position } := by
  obtain ⟨r, add, last⟩ := bind_eq_ok.mp run
  obtain ⟨assigned, same⟩ := addVaccel_parts add
  cases last
  refine ⟨assigned, ?_⟩
  rw [same]

theorem add_position_ne {position : Nat} {e : AssignFault} (other : e ≠ .taken) :
    (do
      let s ← s.addVaccel accel vac
      return { s with position := position } : Except AssignFault (SchedState τ)) ≠ .error e :=
  bind_ne_error (addVaccel_ne other) fun _ _ => nofun

theorem elasticMove_inside : elasticMove c s accel other ≠ .error .outside := by
  unfold elasticMove
  split
  · nofun
  · exact bind_ne_error (delVaccel_ne nofun) fun _ _ => addVaccel_ne nofun

/-- What the loop of the elastic scheduler does: nothing, or one VAQ goes to the next
accelerator. -/
theorem elasticMove_cases (run : elasticMove c s accel other = .ok t) :
    t = s ∨
      ∃ mig a, t = { s with assignment := t.assignment, tasks := t.tasks, vaq4migration := mig } ∧
        migrating c s accel other = some mig ∧ s.assignment.phys mig = some accel ∧
        s.assignment.delVaccel accel mig = some a ∧ a.addVaccel other mig = some t.assignment := by
  unfold elasticMove at run
  split at run
  · cases run
    exact .inl rfl
  · next mig found =>
    obtain ⟨r, del, add⟩ := bind_eq_ok.mp run
    obtain ⟨del, same⟩ := delVaccel_parts del
    obtain ⟨add, same'⟩ := addVaccel_parts add
    refine .inr ⟨mig, _, ?_, found, (delVaccel_cases del).1, del, add⟩
    rw [same', same]

theorem heterogeneousLoop_inside {accels : List Nat} (nonempty : accels ≠ []) (left : Nat) :
    ∀ position, position ≤ accels.length →
      heterogeneousLoop c s vac accels left position ≠ .error .outside := by
  induction left with
  | zero => exact fun _ _ => nofun
  | succ left ih =>
    intro position inside
    have here := wrap_lt inside nonempty
    unfold heterogeneousLoop
    simp only [List.getElem?_eq_getElem here]
    split
    · exact ih _ here
    · exact add_position_ne nofun

theorem heterogeneousLoop_outside {accels : List Nat} {left position : Nat} (some_ : 0 < left)
    (outside : accels[wrap position accels]? = none) :
    heterogeneousLoop c s vac accels left position = .error .outside := by
  cases left with
  | zero => exact absurd some_ (Nat.lt_irrefl 0)
  | succ left =>
    unfold heterogeneousLoop
    simp only [outside]

theorem heterogeneousLoop_cases {accels : List Nat} (left : Nat) :
    ∀ position, heterogeneousLoop c s vac accels left position = .ok t →
      ∃ accel ∈ accels, s.assignment.addVaccel accel vac = some t.assignment ∧
        t = { s with assignment := t.assignment, tasks := t.tasks, position := t.position } ∧
        t.position ≤ accels.length := by
  induction left with
  | zero => exact fun _ => nofun
  | succ left ih =>
    intro position run
    unfold heterogeneousLoop at run
    dsimp only at run
    split at run
    · cases run
    · next accel here =>
      split at run
      · exact ih _ run
      · obtain ⟨add, same⟩ := add_position run
        have at_ : t.position = wrap position accels := by rw [same]
        refine ⟨accel, List.mem_of_getElem? here, add, ?_, ?_⟩
        · rw [at_]
          exact same
        · rw [at_]
          exact Nat.le_of_lt (List.getElem?_eq_some_iff.mp here).1

/-- Whether the scheduler stays inside its vector. -/
theorem assignVac_outside_iff (sched : SchedKind)
    (served : c.getAccelerators (c.vaqType vac) ≠ []) :
    assignVac sched c s vac ≠ .error .outside ↔
      s.position ≤ (c.getAccelerators (c.vaqType vac)).length := by
  obtain ⟨inside, accel, -, here⟩ | ⟨beyond, outside⟩ :=
    wrap_cases (i := s.position) served
  · refine iff_of_true ?_ inside
    cases sched with
    | roundRobin =>
      show roundRobinAssignVac c s vac ≠ _
      unfold roundRobinAssignVac
      simp only [here]
      exact add_position_ne nofun
    | elastic =>
      show elasticAssignVac c s vac ≠ _
      unfold elasticAssignVac
      simp only [here]
      have next : wrap s.position (c.getAccelerators (c.vaqType vac)) + 1 ≤
          (c.getAccelerators (c.vaqType vac)).length := wrap_lt inside served
      rw [List.getElem?_eq_getElem (wrap_lt next served)]
      split_ifs
      · exact bind_ne_error elasticMove_inside fun _ _ => add_position_ne nofun
      · exact add_position_ne nofun
    | heterogeneous => exact heterogeneousLoop_inside served _ _ inside
  · refine iff_of_false (not_not_intro ?_) (Nat.not_le_of_gt beyond)
    cases sched with
    | roundRobin =>
      show roundRobinAssignVac c s vac = _
      unfold roundRobinAssignVac
      simp only [outside]
    | elastic =>
      show elasticAssignVac c s vac = _
      unfold elasticAssignVac
      simp only [outside]
    | heterogeneous =>
      show heterogeneousAssignVac c s vac = _
      unfold heterogeneousAssignVac
      exact heterogeneousLoop_outside (List.length_pos_of_ne_nil served) outside

/-- **What `assignVac` does.** The VAQ gets an accelerator of the vector, and the elastic scheduler
may move another VAQ to the next one before. -/
theorem assignVac_cases {sched : SchedKind} (run : assignVac sched c s vac = .ok t) :
    t = { s with
      assignment := t.assignment
      tasks := t.tasks
      position := t.position
      vaq4migration := t.vaq4migration } ∧
      t.position ≤ (c.getAccelerators (c.vaqType vac)).length ∧
      ∃ a, ∃ accel ∈ c.getAccelerators (c.vaqType vac),
        a.addVaccel accel vac = some t.assignment ∧
        (a = s.assignment ∧ t.vaq4migration = s.vaq4migration ∨
          sched = .elastic ∧ ∃ other b, Moves c s vac accel other t.vaq4migration ∧
            s.assignment.delVaccel accel t.vaq4migration = some b ∧
            b.addVaccel other t.vaq4migration = some a) := by
  cases sched with
  | roundRobin =>
    change roundRobinAssignVac c s vac = .ok t at run
    unfold roundRobinAssignVac at run
    dsimp only at run
    split at run
    · cases run
    · next accel here =>
      obtain ⟨add, same⟩ := add_position run
      have inside := (List.getElem?_eq_some_iff.mp here).1
      refine ⟨?_, ?_, _, accel, List.mem_of_getElem? here, add, .inl ⟨rfl, ?_⟩⟩
      · rw [same]
      · rw [same]
        exact inside
      · rw [same]
  | elastic =>
    change elasticAssignVac c s vac = .ok t at run
    unfold elasticAssignVac at run
    dsimp only at run
    split at run
    · cases run
    · next accel here =>
      have member := List.mem_of_getElem? here
      have inside := (List.getElem?_eq_some_iff.mp here).1
      split_ifs at run
      · split at run
        · cases run
        · next other there =>
          obtain ⟨r, move, assign⟩ := bind_eq_ok.mp run
          obtain ⟨add, same⟩ := add_position assign
          obtain kept | ⟨mig, b, same', found, mine, del, moved⟩ := elasticMove_cases move
          · rw [kept] at add same
            refine ⟨?_, ?_, _, accel, member, add, .inl ⟨rfl, ?_⟩⟩
            · rw [same]
            · rw [same]
              exact inside
            · rw [same]
          · have marked : t.vaq4migration = mig := by rw [same, same']
            rw [marked]
            refine ⟨?_, ?_, _, accel, member, add,
              .inr ⟨rfl, other, b, ⟨here, there, found, mine⟩, del, moved⟩⟩
            · rw [same, same']
            · rw [same]
              exact inside
      · obtain ⟨add, same⟩ := add_position run
        refine ⟨?_, ?_, _, accel, member, add, .inl ⟨rfl, ?_⟩⟩
        · rw [same]
        · rw [same]
          exact inside
        · rw [same]
  | heterogeneous =>
    obtain ⟨accel, member, add, same, inside⟩ := heterogeneousLoop_cases _ _ run
    refine ⟨?_, inside, _, accel, member, add, .inl ⟨rfl, ?_⟩⟩
    · rw [same]
    · rw [same]

/-- A VAQ that the elastic scheduler can move is moved. -/
theorem elastic_moves {other mig : Nat} (free : s.assignment.phys vac = none)
    (moves : Moves c s vac accel other mig) :
    ∃ t, assignVac .elastic c s vac = .ok t ∧ t.assignment.phys mig = some other := by
  obtain ⟨r, del⟩ := delVaccel_mine (s := { s with vaq4migration := mig }) moves.mine
  obtain ⟨-, phys, -⟩ := delVaccel_cases (delVaccel_parts del).1
  obtain ⟨u, add⟩ := addVaccel_free (s := r) (v := mig) (p := other)
    (by rw [phys, Function.update_self])
  have add' := (addVaccel_parts add).1
  have moved : elasticMove c s accel other = .ok u := by
    unfold elasticMove
    simp only [moves.found]
    exact bind_eq_ok.mpr ⟨r, del, add⟩
  have mine : u.assignment.phys mig = some other := by
    obtain ⟨assigned, same⟩ | ⟨-, phys', -⟩ := addVaccel_cases add'
    · rw [same, assigned]
    · rw [phys', Function.update_self]
  have apart : vac ≠ mig := by
    rintro rfl
    cases free.symm.trans moves.mine
  have free' : u.assignment.phys vac = none := by
    rw [addVaccel_phys_other add' apart, phys, Function.update_of_ne apart]
    exact free
  obtain ⟨w, assign⟩ := addVaccel_free (s := u) (p := accel) free'
  have some_ : (s.assignedVACs accel).length ≠ 0 := by
    intro empty
    have found := moves.found
    unfold migrating at found
    rw [List.eq_nil_of_length_eq_zero empty] at found
    cases found
  refine ⟨{ w with position := wrap s.position (c.getAccelerators (c.vaqType vac)) + 1 }, ?_, ?_⟩
  · show elasticAssignVac c s vac = _
    unfold elasticAssignVac
    simp only [moves.here, moves.next, if_pos some_]
    exact bind_eq_ok.mpr ⟨u, moved, bind_eq_ok.mpr ⟨w, assign, rfl⟩⟩
  · exact addVaccel_phys_kept (addVaccel_parts assign).1 mine

end Calls

/-! ### The condition -/

/-- What is known of the VAQs before a call. -/
structure SchedOk (c : Config τ) (s : SchedState τ) : Prop where
  shaped : Shaped s.assignment
  types : TypesOk c s.assignment
  /-- Also the VAQs that a worker knows had an accelerator of their type. -/
  seen : ∀ p, ∀ v ∈ s.assignedVACs p, Fits c v p

section Condition

variable {c : Config τ} {s t : SchedState τ} {sched : SchedKind} {move : SchedMove τ}

/-- **One call.** It is good exactly if it meets the condition. -/
theorem assign_good_iff (ok : SchedOk c s)
    (served : ∀ vac, c.getAccelerators (c.vaqType vac) ≠ []) :
    AssignGood sched c s move ↔ AssignGuard sched c s move := by
  cases move with
  | assign =>
    refine forall₂_congr fun vac orphan => ?_
    have free : s.getOrphan.assignment.phys vac = none := ok.shaped.taken orphan
    refine and_congr (assignVac_outside_iff sched (served vac)) ⟨fun good => ?_, fun fits => ?_⟩
    · rintro rfl - accel other mig ⟨here, next, found, mine⟩
      obtain ⟨t, run, moved⟩ := elastic_moves free ⟨here, next, found, mine⟩
      exact good t run mig other moved
    · intro t run
      obtain ⟨-, -, a, accel, member, add, ⟨rfl, -⟩ | ⟨rfl, other, b, moves, del, add'⟩⟩ :=
        assignVac_cases run
      · exact TypesOk.addVaccel (a := s.getOrphan.assignment) ok.types (fits_of_mem member) add
      · have types : TypesOk c s.getOrphan.assignment := ok.types
        have fits' : Fits c t.vaq4migration other := by
          by_cases any : c.vaqType vac = .any
          · exact fits rfl any accel other _ ⟨moves.here, moves.next, moves.found, moves.mine⟩
          · have known : t.vaq4migration ∈ s.assignedVACs accel :=
              List.mem_of_find?_eq_some moves.found
            exact (ok.seen accel _ known).beside any member (List.mem_of_getElem? moves.next)
        exact ((types.delVaccel del).addVaccel fits' add').addVaccel (fits_of_mem member) add
  | _ => exact Iff.rfl

theorem schedStep_ok (ok : SchedOk c s) (good : AssignGood sched c s move)
    (step : schedStep sched c s move = some t) : SchedOk c t := by
  cases move with
  | orphan vac =>
    simp only [schedStep] at step
    split_ifs at step with new
    obtain ⟨a, orphan, rfl⟩ := Option.map_eq_some_iff.mp step
    obtain ⟨-, phys, -⟩ := addOrphan_cases orphan
    refine ⟨ok.shaped.addOrphan new orphan, fun v p assigned => ?_, ok.seen⟩
    exact ok.types v p (phys ▸ assigned)
  | submit vac task =>
    cases step
    exact ⟨ok.shaped, ok.types, ok.seen⟩
  | assign =>
    obtain ⟨vac, orphan, run⟩ := Option.bind_eq_some_iff.mp step
    have run' := toOption_eq_some.mp run
    obtain ⟨same, -, a, accel, -, add, moved⟩ := assignVac_cases run'
    have seen : t.assignedVACs = s.assignedVACs := by
      rw [same]
      rfl
    refine ⟨?_, (good vac orphan).2 t run', seen ▸ ok.seen⟩
    obtain ⟨rfl, -⟩ | ⟨-, other, b, -, del, add'⟩ := moved
    · exact ok.shaped.getOrphan.addVaccel add
    · exact ((ok.shaped.getOrphan.delVaccel del).addVaccel add').addVaccel add
  | update accel =>
    change s.updateVirtAccels accel = some t at step
    unfold SchedState.updateVirtAccels at step
    split_ifs at step
    cases step
    refine ⟨ok.shaped, ok.types, fun p v member => ?_⟩
    change v ∈ Function.update s.assignedVACs accel _ p at member
    by_cases here : p = accel
    · subst here
      rw [Function.update_self, ok.shaped.assigned.phys] at member
      exact ok.types v p member
    · rw [Function.update_of_ne here] at member
      exact ok.seen p v member
  | pop vac =>
    cases step
    exact ⟨ok.shaped, ok.types, ok.seen⟩
  | del accel vac =>
    obtain ⟨del, same⟩ := delVaccel_parts (toOption_eq_some.mp step)
    have seen : t.assignedVACs = s.assignedVACs := by rw [same]
    exact ⟨ok.shaped.delVaccel del, ok.types.delVaccel del, seen ▸ ok.seen⟩

/-- At first each accelerator has its free VAQ. -/
theorem schedStart_phys {m v p : Nat} :
    (schedStart c m).assignment.phys v = some p ↔ p ∈ c.accelerators ∧ c.freeVaq p = v := by
  constructor
  · intro found
    have same := List.find?_some found
    exact ⟨List.mem_of_find?_eq_some found, beq_iff_eq.mp same⟩
  · rintro ⟨member, rfl⟩
    cases found : c.accelerators.find? fun q => c.freeVaq q == c.freeVaq p with
    | none => exact absurd (List.find?_eq_none.mp found p member) (by simp)
    | some q =>
      have equal := List.find?_some found
      have same := c.freeVaq_injective q (List.mem_of_find?_eq_some found) p member
        (beq_iff_eq.mp equal)
      exact found.trans (congrArg some same)

theorem schedStart_ok (c : Config τ) (m : Nat) : SchedOk c (schedStart c m) := by
  refine ⟨⟨⟨fun p v => ?_, fun p => ?_⟩, List.nodup_nil, nofun⟩, fun v p assigned => ?_, nofun⟩
  · rw [schedStart_phys]
    show v ∈ (if p ∈ c.accelerators then [c.freeVaq p] else []) ↔ _
    split_ifs with member
    · rw [List.mem_singleton]
      exact ⟨fun same => ⟨member, same.symm⟩, fun here => here.2.symm⟩
    · exact iff_of_false List.not_mem_nil fun here => member here.1
  · show (if p ∈ c.accelerators then [c.freeVaq p] else []).Nodup
    split_ifs
    · exact List.nodup_singleton _
    · exact List.nodup_nil
  · obtain ⟨member, rfl⟩ := schedStart_phys.mp assigned
    exact .inr (c.freeVaq_type p member).symm

/-- **The types of round-robin assignment.** In a run of any scheduler all calls are good exactly if
each of them meets the condition. -/
theorem assign_types_iff (sched : SchedKind) (c : Config τ)
    (served : ∀ vac, c.getAccelerators (c.vaqType vac) ≠ []) (vaq4migration : Nat)
    (moves : List (SchedMove τ)) :
    Guarded (schedStep sched c) (AssignGood sched c) (schedStart c vaq4migration) moves ↔
      Guarded (schedStep sched c) (AssignGuard sched c) (schedStart c vaq4migration) moves := by
  have start := schedStart_ok c vaq4migration
  constructor
  · exact Guarded.imp (SchedOk c) (fun s act ok good => (assign_good_iff ok served).mp good)
      (fun s act t ok good step => schedStep_ok ok good step) start
  · exact Guarded.imp (SchedOk c) (fun s act ok guard => (assign_good_iff ok served).mpr guard)
      (fun s act t ok guard step =>
        schedStep_ok ok ((assign_good_iff ok served).mpr guard) step) start

/-- Two GPUs and a CPU, with the free VAQs `0`, `1` and `2`. The VAQ `12` is for CPUs and the other
ones are for anything; the only kind of task runs on CPUs. -/
def mixedConfig : Config Unit where
  accelerators := [0, 1, 2]
  type := fun p => if p = 2 then .cpu else .gpu
  vaqType := fun v => if v = 2 ∨ v = 12 then .cpu else if v ≤ 1 then .gpu else .any
  freeVaq := fun p => p
  canRunAt := fun _ type => type = .cpu
  nodup := by decide
  freeVaq_type := by decide
  freeVaq_injective := fun _ _ _ _ same => same

theorem mixedConfig_served (vac : Nat) :
    mixedConfig.getAccelerators (mixedConfig.vaqType vac) ≠ [] := by
  have all : ∀ type, (type = .cpu ∨ type = .gpu ∨ type = .any) →
      mixedConfig.getAccelerators type ≠ [] := by
    rintro type (rfl | rfl | rfl)
    · decide
    · decide
    · decide
  refine all _ ?_
  unfold mixedConfig
  dsimp only
  split_ifs
  · exact .inl rfl
  · exact .inr (.inl rfl)
  · exact .inr (.inr rfl)

theorem assign_types_iff_at_mixedConfig :
    Guarded (schedStep .roundRobin mixedConfig) (AssignGood .roundRobin mixedConfig)
      (schedStart mixedConfig 0) [.orphan 12, .assign, .orphan 10, .assign] := by
  have short : Guarded (schedStep .roundRobin mixedConfig)
      (fun s _ => ∀ vac ∈ s.assignment.getOrphan.1,
        s.position ≤ (mixedConfig.getAccelerators (mixedConfig.vaqType vac)).length)
      (schedStart mixedConfig 0) [.orphan 12, .assign, .orphan 10, .assign] := by decide
  refine (assign_types_iff .roundRobin mixedConfig mixedConfig_served 0 _).mpr
    (Guarded.imp (fun _ => True) (fun s act _ inside => ?_) (fun _ _ _ _ _ _ => trivial) trivial
      short)
  cases act with
  | assign => exact fun vac orphan => ⟨inside vac orphan, nofun⟩
  | _ => trivial

/-- **Outside the vector.** Two VAQs for anything bring the iterator of each scheduler to the third
position, and then there is one for CPUs, of which there is one. -/
theorem assign_outside :
    (∀ vac, mixedConfig.getAccelerators (mixedConfig.vaqType vac) ≠ []) ∧
      ∀ sched, ∃ s, exec (schedStep sched mixedConfig) (schedStart mixedConfig 0)
          [.orphan 10, .submit 10 (), .assign, .orphan 11, .submit 11 (), .assign, .orphan 12] =
            some s ∧
        s.assignment.getOrphan.1 = some 12 ∧
        assignVac sched mixedConfig s.getOrphan 12 = .error .outside ∧
        ¬ AssignGood sched mixedConfig s .assign := by
  refine ⟨mixedConfig_served, fun sched => ?_⟩
  have view : (exec (schedStep sched mixedConfig) (schedStart mixedConfig 0)
      [.orphan 10, .submit 10 (), .assign, .orphan 11, .submit 11 (), .assign, .orphan 12]).map
        (fun s => (s.assignment.getOrphan.1, s.position)) = some (some 12, 2) := by
    cases sched with
    | roundRobin => decide
    | elastic => decide
    | heterogeneous => decide
  obtain ⟨s, run, last⟩ := Option.map_eq_some_iff.mp view
  obtain ⟨orphan, position⟩ := Prod.mk.inj last
  have beyond : ¬ s.getOrphan.position ≤
      (mixedConfig.getAccelerators (mixedConfig.vaqType 12)).length := by
    rw [show s.getOrphan.position = 2 from position]
    decide
  have outside := (assignVac_outside_iff sched (mixedConfig_served 12)).not.mpr beyond
  refine ⟨s, run, orphan, not_not.mp outside, fun good => outside (good 12 orphan).1⟩

end Condition

end Arax.Controller
