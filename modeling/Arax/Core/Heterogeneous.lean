/-
**The heterogeneous scheduler (`controller/src/Schedulers/HeterogeneousScheduler.cpp`).**

Each physical accelerator has a worker that takes a snapshot of its VAQs and goes through it,
round robin, until it finds a task. The first task of a VAQ is looked at with `utils_queue_peek`;
if the worker can run it, a later `utils_queue_pop` takes it, and if not, the VAQ is taken from
the accelerator and becomes an orphan, for the balancer to assign it again. Clients push tasks
meanwhile.

The lists are those of `Arax.Core.Assignment`. `paccel_rr` of `assignVac` is a static iterator
that outlives the vector it points into, so which accelerator the balancer tries is left open: the
move says it.

* `HeteroInv` — a VAQ that a worker has yet to visit, or is about to pop from, is assigned to it;
  so it is the only one that pops from it.
* `hetero_in_order` — in every interleaving the tasks that `selectTask` returns for a VAQ are a
  prefix of what was pushed to it, and each is returned by a worker that can run it.
-/

import Mathlib.Algebra.Group.Nat.Defs
import Mathlib.Data.List.Basic
import Mathlib.Logic.Function.Basic
import Mathlib.Tactic.SplitIfs
import Arax.Lib.Run
import Arax.Core.Assignment
import Arax.Core.DataQueues

namespace Arax.Core

open Arax.Lib Arax.Core.Ownership

variable {τ : Type}

/-- What does not change in a run. -/
structure Controller (τ : Type) where
  /-- `task->proc`. -/
  proc : τ → Nat
  /-- `accel->type`. -/
  type : Nat → Nat
  /-- The number of accelerators of the type of a VAQ. -/
  accelsOfAType : Nat → Nat
  /-- `UTILS_QUEUE_CAPACITY`. -/
  capacity : Nat

/-- Where the worker of an accelerator is. -/
inductive SchedPlace where
  /-- In `arax_accel_wait_for_task`. -/
  | wait
  /-- At `arax_accel_get_assigned_vaccels`. -/
  | update
  /-- In the loops of `selectTask`, with the VAQs that are left and their positions. -/
  | select (rest : List (Nat × Nat))
  /-- At `utils_queue_pop`. -/
  | pop (vac position : Nat)
  /-- At `arax_accel_del_vaccel`. -/
  | del (vac : Nat) (rest : List (Nat × Nat))
  /-- At `arax_pipe_add_orphan_vaccel`. -/
  | orphan (vac : Nat) (rest : List (Nat × Nat))

/-- Where the balancer is. -/
inductive BalancerPlace where
  | idle
  /-- In the loop of `assignVac`, with this many accelerators left. -/
  | assign (vac left : Nat)
  /-- At `arax_accel_add_vaccel`. -/
  | add (vac accel : Nat)

/-- The controller, the clients and what they share. -/
structure HeteroState (τ : Type) where
  assignment : Assignment
  accels : Nat → Bool
  vaccels : Nat → Bool
  /-- `proc->canrun`. -/
  canrun : Nat → Nat
  queue : Nat → List τ
  clients : Nat → ClientPlace τ
  /-- `accel->tasks`. -/
  tasks : Nat → Nat
  workers : Nat → SchedPlace
  rrCounter : Nat → Nat
  balancer : BalancerPlace
  /-- What was pushed to a VAQ. -/
  submitted : Nat → List τ
  /-- What `selectTask` returned: the accelerator of the worker, the VAQ and the task. -/
  returned : List (Nat × Nat × τ)

/-- Before the first accelerator is made. -/
def heteroStart : HeteroState τ where
  assignment := { vaqs := fun _ => [], phys := fun _ => none }
  accels := fun _ => false
  vaccels := fun _ => false
  canrun := fun _ => 0
  queue := fun _ => []
  clients := fun _ => .unlocked
  tasks := fun _ => 0
  workers := fun _ => .wait
  rrCounter := fun _ => 0
  balancer := .idle
  submitted := fun _ => []
  returned := []

/-- `arax_proc_can_run_at`. -/
def araxProcCanRunAt (canrun type : Nat) : Bool := canrun.testBit type

/-- `HeterogeneousScheduler::State`. -/
inductive TaskState where
  | RT
  | T
  | NT
  deriving DecidableEq

/-- `HeterogeneousScheduler::checkForRunnableTask`. -/
def checkForRunnableTask (c : Controller τ) (s : HeteroState τ) (accel vac : Nat) : TaskState :=
  match (s.queue vac).head? with
  | none => .NT
  | some task => if araxProcCanRunAt (s.canrun (c.proc task)) (c.type accel) then .RT else .T

/-- `arax_accel_add_vaccel`: the lists and the number of tasks. -/
def addVaccelTasks (s : HeteroState τ) (accel vac : Nat) : Option (HeteroState τ) :=
  (s.assignment.addVaccel accel vac).map fun assignment =>
    let tasks := (s.queue vac).length
    if s.assignment.phys vac = some accel then s
    else
      { s with
        assignment := assignment
        tasks := Function.update s.tasks accel ((s.tasks accel + tasks) % 2 ^ 64) }

/-- `arax_accel_del_vaccel`: the lists and the number of tasks. -/
def delVaccelTasks (s : HeteroState τ) (accel vac : Nat) : Option (HeteroState τ) :=
  (s.assignment.delVaccel accel vac).map fun assignment =>
    let tasks := (s.queue vac).length
    { s with
      assignment := assignment
      tasks := if tasks = 0 then s.tasks
        else Function.update s.tasks accel ((s.tasks accel + (2 ^ 64 - (tasks - 1))) % 2 ^ 64) }

/-- `arax_vaccel_init`. -/
def vaccelInit (s : HeteroState τ) (vac : Nat) (accel : Option Nat) : Option (HeteroState τ) :=
  let s := { s with
    assignment := { s.assignment with phys := Function.update s.assignment.phys vac none }
    vaccels := Function.update s.vaccels vac true
    queue := Function.update s.queue vac []
    clients := Function.update s.clients vac .unlocked }
  match accel with
  | some accel => addVaccelTasks s accel vac
  | none => (s.assignment.addOrphan vac).map fun assignment => { s with assignment := assignment }

/-- The worker of `accel` is now at `place`. -/
def HeteroState.goto (s : HeteroState τ) (accel : Nat) (place : SchedPlace) : HeteroState τ :=
  { s with workers := Function.update s.workers accel place }

/-- Nobody holds `vaccel->lock`. -/
def HeteroState.unlocked (s : HeteroState τ) (vac : Nat) : Bool := (s.clients vac).isUnlocked

/-- The next step of a worker: `updateVirtAccels`, then `selectTask`. -/
def schedStep (c : Controller τ) (s : HeteroState τ) (accel : Nat) :
    SchedPlace → Option (HeteroState τ)
  | .wait =>
    if s.tasks accel = 0 then none
    else some { s.goto accel .update with
      tasks := Function.update s.tasks accel (s.tasks accel - 1) }
  | .update =>
    let vacs := s.assignment.vaqs (.accel accel)
    some (if vacs.length = 0 then s.goto accel .wait
      else s.goto accel (.select (rrOrder vacs (s.rrCounter accel))))
  | .select [] => some (s.goto accel .wait)
  | .select ((vac, position) :: rest) =>
    match checkForRunnableTask c s accel vac with
    | .RT => some (s.goto accel (.pop vac position))
    | .T => some (s.goto accel (.del vac rest))
    | .NT => some (s.goto accel (.select rest))
  | .pop vac position =>
    match s.queue vac with
    | [] => none
    | task :: tasks =>
      some { s.goto accel .wait with
        queue := Function.update s.queue vac tasks
        rrCounter := Function.update s.rrCounter accel position
        returned := s.returned ++ [(accel, vac, task)] }
  | .del vac rest =>
    if s.unlocked vac then
      (s.assignment.phys vac).bind fun phys =>
        (delVaccelTasks s phys vac).map fun s => s.goto accel (.orphan vac rest)
    else none
  | .orphan vac rest =>
    (s.assignment.addOrphan vac).map fun assignment =>
      { s.goto accel (.select rest) with assignment := assignment }

/-- A move. -/
inductive HeteroMove (τ : Type) where
  | accelInit (accel freeVaq : Nat)
  | vaccelInit (vac : Nat) (accel : Option Nat)
  /-- `arax_proc_set_functor`. -/
  | setFunctor (proc type : Nat)
  /-- A client calls `arax_vaccel_add_task` and gets the lock. -/
  | addTask (vac : Nat) (task : τ)
  /-- Its next access. -/
  | client (vac : Nat)
  /-- The next access of a worker. -/
  | worker (accel : Nat)
  /-- The balancer calls `arax_pipe_get_orphan_vaccel`. -/
  | getOrphan
  /-- The balancer tries the accelerator at `paccel_rr`. -/
  | tryAccel (accel : Nat)
  /-- The balancer calls `arax_accel_add_vaccel`. -/
  | addVaccel

/-- The next access of `arax_vaccel_add_task`. -/
def clientPush (c : Controller τ) (s : HeteroState τ) (vac : Nat) :
    ClientPlace τ → Option (HeteroState τ)
  | .unlocked => none
  | .push task =>
    some (if (s.queue vac).length = c.capacity then s
      else
        { s with
          queue := Function.update s.queue vac (s.queue vac ++ [task])
          submitted := Function.update s.submitted vac (s.submitted vac ++ [task])
          clients := Function.update s.clients vac .count })
  | .count =>
    some { s with
      tasks := match s.assignment.phys vac with
        | some accel => Function.update s.tasks accel ((s.tasks accel + 1) % 2 ^ 64)
        | none => s.tasks
      clients := Function.update s.clients vac .unlocked }

/-- One move. -/
def heteroStep (c : Controller τ) (s : HeteroState τ) : HeteroMove τ → Option (HeteroState τ)
  | .accelInit accel freeVaq =>
    if s.accels accel = false ∧ s.vaccels freeVaq = false then
      -- accelerators are not deleted, so the list of a new one is empty
      vaccelInit
        { s with
          accels := Function.update s.accels accel true
          tasks := Function.update s.tasks accel 0 } freeVaq (some accel)
    else none
  | .vaccelInit vac accel =>
    if s.vaccels vac = false ∧ accel.all s.accels then vaccelInit s vac accel else none
  | .setFunctor proc type =>
    some { s with canrun := Function.update s.canrun proc (s.canrun proc ||| 2 ^ type) }
  | .addTask vac task =>
    if s.vaccels vac ∧ s.unlocked vac then
      some { s with clients := Function.update s.clients vac (.push task) }
    else none
  | .client vac => if s.vaccels vac then clientPush c s vac (s.clients vac) else none
  | .worker accel => if s.accels accel then schedStep c s accel (s.workers accel) else none
  | .getOrphan =>
    match s.balancer, s.assignment.getOrphan with
    | .idle, (some vac, assignment) =>
      some { s with assignment := assignment, balancer := .assign vac (c.accelsOfAType vac) }
    | _, _ => none
  | .tryAccel accel =>
    match s.balancer with
    | .assign vac (left + 1) =>
      if s.accels accel then
        some { s with balancer := match checkForRunnableTask c s accel vac with
          | .RT | .NT => .add vac accel
          | .T => .assign vac left }
      else none
    | _ => none
  | .addVaccel =>
    match s.balancer with
    | .add vac accel =>
      if s.vaccels vac ∧ s.unlocked vac then
        (addVaccelTasks s accel vac).map fun s => { s with balancer := .idle }
      else none
    | _ => none

/-! ### The invariant -/

/-- The VAQs `vacs` are assigned to `p`, each listed once. -/
def Mine (a : Assignment) (p : Nat) (vacs : List Nat) : Prop :=
  vacs.Nodup ∧ ∀ v ∈ vacs, a.phys v = some p

/-- What holds where the worker of `p` is. -/
def SchedInv (c : Controller τ) (s : HeteroState τ) (p : Nat) : SchedPlace → Prop
  | .wait | .update => True
  | .select rest | .orphan _ rest => Mine s.assignment p (rest.map Prod.fst)
  | .pop vac _ => s.assignment.phys vac = some p ∧ checkForRunnableTask c s p vac = .RT
  | .del vac rest => Mine s.assignment p (vac :: rest.map Prod.fst)

/-- The tasks that were returned for a VAQ. -/
def returnedFrom (s : HeteroState τ) (v : Nat) : List τ :=
  (s.returned.filter fun result => result.2.1 = v).map fun result => result.2.2

/-- **The invariant.** -/
structure HeteroInv (c : Controller τ) (s : HeteroState τ) : Prop where
  assigned : Assigned s.assignment
  workers : ∀ p, SchedInv c s p (s.workers p)
  fifo : ∀ v, returnedFrom s v ++ s.queue v = s.submitted v
  runnable : ∀ result ∈ s.returned,
    araxProcCanRunAt (s.canrun (c.proc result.2.2)) (c.type result.1) = true
  fresh : ∀ v, s.vaccels v = false → s.assignment.phys v = none ∧ s.submitted v = []

section Frames

variable {c : Controller τ} {s t : HeteroState τ} {p v : Nat}

theorem Mine.frame {a b : Assignment} {vacs : List Nat} (mine : Mine a p vacs)
    (phys : ∀ v, a.phys v = some p → b.phys v = some p) : Mine b p vacs :=
  ⟨mine.1, fun v member => phys v (mine.2 v member)⟩

/-- A worker does not see a move that keeps its VAQs and their first tasks. -/
theorem SchedInv.frame {place : SchedPlace} (inv : SchedInv c s p place)
    (phys : ∀ v, s.assignment.phys v = some p → t.assignment.phys v = some p)
    (runnable : ∀ v, s.assignment.phys v = some p → checkForRunnableTask c s p v = .RT →
      checkForRunnableTask c t p v = .RT) : SchedInv c t p place := by
  cases place with
  | wait | update => trivial
  | select rest | orphan vac rest => exact Mine.frame inv phys
  | pop vac position => exact ⟨phys vac inv.1, runnable vac inv.1 inv.2⟩
  | del vac rest => exact Mine.frame inv phys

theorem check_eq_RT : checkForRunnableTask c s p v = .RT ↔
    ∃ task, (s.queue v).head? = some task ∧
      araxProcCanRunAt (s.canrun (c.proc task)) (c.type p) = true := by
  unfold checkForRunnableTask
  cases (s.queue v).head? with
  | none => simp
  | some task => simp

/-- The check depends on the first task and on what can run. -/
theorem check_congr (queue : t.queue v = s.queue v) (canrun : t.canrun = s.canrun) :
    checkForRunnableTask c t p v = checkForRunnableTask c s p v := by
  unfold checkForRunnableTask
  rw [queue, canrun]

theorem mine_snapshot {a : Assignment} (assigned : Assigned a) (rrCounter : Nat) :
    Mine a p ((rrOrder (a.vaqs (.accel p)) rrCounter).map Prod.fst) := by
  have perm := rrOrder_perm (a.vaqs (.accel p)) rrCounter
  refine ⟨perm.nodup_iff.mpr (assigned.nodup p), fun v member => ?_⟩
  exact (assigned.phys p v).mp (perm.mem_iff.mp member)

end Frames

/-! ### Every move keeps it -/

section Moves

variable {c : Controller τ} {s t : HeteroState τ} {p v : Nat}

/-- A move that changes only who owns which VAQ, and takes none from a worker. -/
theorem HeteroInv.reassign (inv : HeteroInv c s) (assigned : Assigned t.assignment)
    (phys : ∀ p v, s.assignment.phys v = some p → t.assignment.phys v = some p)
    (fresh : ∀ v, s.vaccels v = false → t.assignment.phys v = none)
    (vaccels : t.vaccels = s.vaccels) (canrun : t.canrun = s.canrun) (queue : t.queue = s.queue)
    (workers : t.workers = s.workers) (submitted : t.submitted = s.submitted)
    (returned : t.returned = s.returned) : HeteroInv c t := by
  refine ⟨assigned, fun p => ?_, fun v => ?_, ?_, fun v dead => ?_⟩
  · rw [workers]
    refine (inv.workers p).frame (phys p) fun v _ runnable => ?_
    rw [check_congr (congrFun queue v) canrun]
    exact runnable
  · rw [queue, submitted, ← inv.fifo v, returnedFrom, returned]
    rfl
  · rw [returned, canrun]
    exact inv.runnable
  · rw [vaccels] at dead
    rw [submitted]
    exact ⟨fresh v dead, (inv.fresh v dead).2⟩

/-- A move of a client or the balancer that the workers do not see. -/
theorem HeteroInv.unseen (inv : HeteroInv c s) (assignment : t.assignment = s.assignment)
    (vaccels : t.vaccels = s.vaccels) (canrun : t.canrun = s.canrun) (queue : t.queue = s.queue)
    (workers : t.workers = s.workers) (submitted : t.submitted = s.submitted)
    (returned : t.returned = s.returned) : HeteroInv c t := by
  refine inv.reassign ?_ ?_ ?_ vaccels canrun queue workers submitted returned
  · rw [assignment]
    exact inv.assigned
  · rw [assignment]
    exact fun _ _ => id
  · rw [assignment]
    exact fun v dead => (inv.fresh v dead).1

/-- **The move of a worker.** The others keep their VAQs and the first tasks of these. -/
theorem HeteroInv.worker {place : SchedPlace} (inv : HeteroInv c s)
    (workers : t.workers = Function.update s.workers p place) (assigned : Assigned t.assignment)
    (here : SchedInv c t p place)
    (phys : ∀ q, q ≠ p → ∀ v, s.assignment.phys v = some q → t.assignment.phys v = some q)
    (queue : ∀ q, q ≠ p → ∀ v, s.assignment.phys v = some q → t.queue v = s.queue v)
    (fifo : ∀ v, returnedFrom t v ++ t.queue v = t.submitted v)
    (runnable : ∀ result ∈ t.returned,
      araxProcCanRunAt (t.canrun (c.proc result.2.2)) (c.type result.1) = true)
    (fresh : ∀ v, t.vaccels v = false → t.assignment.phys v = none ∧ t.submitted v = [])
    (canrun : t.canrun = s.canrun) : HeteroInv c t := by
  refine ⟨assigned, fun q => ?_, fifo, runnable, fresh⟩
  rw [workers]
  by_cases same : q = p
  · rw [same, Function.update_self]
    exact here
  · rw [Function.update_of_ne same]
    refine (inv.workers q).frame (phys q same) fun v mine runnable => ?_
    rw [check_congr (queue q same v mine) canrun]
    exact runnable

/-- A worker goes on and changes nothing but the number of tasks. -/
theorem HeteroInv.goto (inv : HeteroInv c s) (place : SchedPlace) (here : SchedInv c s p place)
    (tasks : Nat → Nat) : HeteroInv c { s.goto p place with tasks := tasks } := by
  refine inv.worker rfl inv.assigned ?_ (fun _ _ _ => id) (fun _ _ _ _ => rfl) inv.fifo inv.runnable
    inv.fresh rfl
  exact here.frame (fun _ => id) (fun _ _ => id)

/-- `utils_queue_pop`: the task that was looked at. -/
theorem HeteroInv.pop {position : Nat} (inv : HeteroInv c s) (mine : s.assignment.phys v = some p)
    {task : τ} {tasks : List τ} (queue : s.queue v = task :: tasks)
    (runnable : checkForRunnableTask c s p v = .RT) :
    HeteroInv c { s.goto p .wait with
      queue := Function.update s.queue v tasks
      rrCounter := Function.update s.rrCounter p position
      returned := s.returned ++ [(p, v, task)] } := by
  refine inv.worker rfl inv.assigned trivial (fun _ _ _ => id) ?_ (fun w => ?_) ?_ inv.fresh rfl
  · intro q apart w theirs
    refine Function.update_of_ne ?_ ..
    rintro rfl
    rw [mine] at theirs
    exact apart (Option.some.inj theirs).symm
  · have before := inv.fifo w
    unfold returnedFrom at before ⊢
    show List.map _ (List.filter _ (s.returned ++ [(p, v, task)])) ++
      Function.update s.queue v tasks w = s.submitted w
    by_cases same : w = v
    · subst same
      rw [queue] at before
      simpa using before
    · rw [Function.update_of_ne same, ← before]
      simp [Ne.symm same]
  · intro result member
    rcases List.mem_append.mp member with old | new
    · exact inv.runnable result old
    · obtain ⟨first, found, can⟩ := check_eq_RT.mp runnable
      rw [queue] at found
      cases found
      cases List.mem_singleton.mp new
      exact can

/-- `arax_accel_del_vaccel` of a VAQ the worker has visited. -/
theorem HeteroInv.del {rest : List (Nat × Nat)} (inv : HeteroInv c s)
    (mine : Mine s.assignment p (v :: rest.map Prod.fst)) {u : HeteroState τ}
    (step : delVaccelTasks s p v = some u) : HeteroInv c (u.goto p (.orphan v rest)) := by
  obtain ⟨assignment, deleted, rfl⟩ := Option.map_eq_some_iff.mp step
  obtain ⟨distinct, owned⟩ := mine
  obtain ⟨outside, distinct⟩ := List.nodup_cons.mp distinct
  have phys := owned v List.mem_cons_self
  refine inv.worker rfl (inv.assigned.delVaccel deleted) ?_ ?_ (fun _ _ _ _ => rfl) inv.fifo
    inv.runnable ?_ rfl
  · refine ⟨distinct, fun w member => ?_⟩
    have apart : w ≠ v := by
      rintro rfl
      exact outside member
    exact (delVaccel_phys_other deleted apart).trans (owned w (List.mem_cons_of_mem v member))
  · intro q apart w theirs
    refine (delVaccel_phys_other deleted ?_).trans theirs
    rintro rfl
    rw [phys] at theirs
    exact apart (Option.some.inj theirs).symm
  · intro w dead
    have unowned := inv.fresh w dead
    refine ⟨(delVaccel_phys_other deleted ?_).trans unowned.1, unowned.2⟩
    rintro rfl
    rw [phys] at unowned
    cases unowned.1

/-- **Every move of a worker keeps the invariant.** -/
theorem schedStep_inv (inv : HeteroInv c s) (step : schedStep c s p (s.workers p) = some t) :
    HeteroInv c t := by
  have here := inv.workers p
  cases place : s.workers p with
  | wait =>
    rw [place] at step
    simp only [schedStep] at step
    split_ifs at step
    cases step
    exact inv.goto .update trivial _
  | update =>
    rw [place] at step
    cases step
    split_ifs
    · exact inv.goto .wait trivial s.tasks
    · exact inv.goto (.select _) (mine_snapshot inv.assigned _) s.tasks
  | select rest =>
    rw [place] at step here
    cases rest with
    | nil =>
      cases step
      exact inv.goto .wait trivial s.tasks
    | cons visit rest =>
      obtain ⟨vac, position⟩ := visit
      simp only [schedStep] at step
      split at step
      · rename_i runnable
        cases step
        exact inv.goto (.pop vac position) ⟨here.2 vac List.mem_cons_self, runnable⟩ s.tasks
      · cases step
        exact inv.goto (.del vac rest) here s.tasks
      · cases step
        refine inv.goto (.select rest) ⟨?_, ?_⟩ s.tasks
        · exact (List.nodup_cons.mp here.1).2
        · exact fun v member => here.2 v (List.mem_cons_of_mem vac member)
  | pop vac position =>
    rw [place] at step here
    simp only [schedStep] at step
    split at step
    · cases step
    · rename_i task tasks queue
      cases step
      exact inv.pop here.1 queue here.2
  | del vac rest =>
    rw [place] at step here
    simp only [schedStep] at step
    split_ifs at step
    rw [here.2 vac List.mem_cons_self] at step
    obtain ⟨u, deleted, rfl⟩ := Option.map_eq_some_iff.mp step
    exact inv.del here deleted
  | orphan vac rest =>
    rw [place] at step here
    obtain ⟨assignment, added, rfl⟩ := Option.map_eq_some_iff.mp step
    have phys := addOrphan_phys added
    refine inv.worker rfl (inv.assigned.addOrphan added) ?_ ?_ (fun _ _ _ _ => rfl) inv.fifo
      inv.runnable ?_ rfl
    · exact Mine.frame here fun v mine => (congrFun phys v).trans mine
    · exact fun q _ v theirs => (congrFun phys v).trans theirs
    · exact fun v dead => ⟨(congrFun phys v).trans (inv.fresh v dead).1, (inv.fresh v dead).2⟩

/-- `arax_accel_add_vaccel`. -/
theorem HeteroInv.add (inv : HeteroInv c s) (alive : s.vaccels v)
    (step : addVaccelTasks s p v = some t) : HeteroInv c t := by
  obtain ⟨assignment, added, rfl⟩ := Option.map_eq_some_iff.mp step
  split_ifs with same
  · exact inv
  · refine inv.reassign (inv.assigned.addVaccel added)
      (fun q w theirs => addVaccel_phys_kept added theirs) ?_ rfl rfl rfl rfl rfl rfl
    intro w dead
    have apart : w ≠ v := by
      rintro rfl
      rw [alive] at dead
      cases dead
    exact (addVaccel_phys_other added apart).trans (inv.fresh w dead).1

/-- The VAQ of `arax_vaccel_init`, before it is in a list. -/
theorem HeteroInv.register (inv : HeteroInv c s) (dead : s.vaccels v = false) :
    HeteroInv c { s with
      assignment := { s.assignment with phys := Function.update s.assignment.phys v none }
      vaccels := Function.update s.vaccels v true
      queue := Function.update s.queue v []
      clients := Function.update s.clients v .unlocked } := by
  obtain ⟨unowned, unused⟩ := inv.fresh v dead
  have phys : Function.update s.assignment.phys v none = s.assignment.phys := by
    rw [← unowned, Function.update_eq_self]
  have empty : s.queue v = [] := by
    have fifo := inv.fifo v
    rw [unused] at fifo
    exact (List.append_eq_nil_iff.mp fifo).2
  have queue : Function.update s.queue v [] = s.queue := by
    rw [← empty, Function.update_eq_self]
  rw [phys, queue]
  refine ⟨inv.assigned, fun q => ?_, inv.fifo, inv.runnable, fun w dead' => ?_⟩
  · exact (inv.workers q).frame (fun _ => id) (fun _ _ => id)
  · change Function.update s.vaccels v true w = false at dead'
    by_cases same : w = v
    · rw [same, Function.update_self] at dead'
      cases dead'
    · rw [Function.update_of_ne same] at dead'
      exact inv.fresh w dead'

theorem vaccelInit_inv (inv : HeteroInv c s) (dead : s.vaccels v = false) {accel : Option Nat}
    (step : vaccelInit s v accel = some t) : HeteroInv c t := by
  have registered := inv.register dead
  cases accel with
  | some q => exact registered.add (Function.update_self ..) step
  | none =>
    obtain ⟨assignment, added, rfl⟩ := Option.map_eq_some_iff.mp step
    have phys := addOrphan_phys added
    refine registered.reassign (registered.assigned.addOrphan added) ?_ ?_ rfl rfl rfl rfl rfl rfl
    · exact fun q w theirs => (congrFun phys w).trans theirs
    · exact fun w dead => (congrFun phys w).trans (registered.fresh w dead).1

/-- `utils_queue_push`: the first task of a VAQ that has one stays. -/
theorem HeteroInv.push (inv : HeteroInv c s) (alive : s.vaccels v) (task : τ)
    (place : ClientPlace τ) :
    HeteroInv c { s with
      queue := Function.update s.queue v (s.queue v ++ [task])
      submitted := Function.update s.submitted v (s.submitted v ++ [task])
      clients := Function.update s.clients v place } := by
  refine ⟨inv.assigned, fun q => ?_, fun w => ?_, inv.runnable, fun w dead => ?_⟩
  · refine (inv.workers q).frame (fun _ => id) fun w _ runnable => ?_
    obtain ⟨first, found, can⟩ := check_eq_RT.mp runnable
    refine check_eq_RT.mpr ⟨first, ?_, can⟩
    show (Function.update s.queue v (s.queue v ++ [task]) w).head? = some first
    by_cases same : w = v
    · subst same
      rw [Function.update_self, List.head?_append, found]
      rfl
    · rw [Function.update_of_ne same]
      exact found
  · show returnedFrom s w ++ Function.update s.queue v (s.queue v ++ [task]) w =
      Function.update s.submitted v (s.submitted v ++ [task]) w
    by_cases same : w = v
    · subst same
      rw [Function.update_self, Function.update_self, ← List.append_assoc, inv.fifo w]
    · rw [Function.update_of_ne same, Function.update_of_ne same]
      exact inv.fifo w
  · have apart : w ≠ v := by
      rintro rfl
      rw [alive] at dead
      cases dead
    show s.assignment.phys w = none ∧ Function.update s.submitted v (s.submitted v ++ [task]) w = []
    rw [Function.update_of_ne apart]
    exact inv.fresh w dead

/-- `arax_proc_set_functor`: what can run stays able to. -/
theorem HeteroInv.set_functor (inv : HeteroInv c s) (proc type : Nat) :
    HeteroInv c { s with
      canrun := Function.update s.canrun proc (s.canrun proc ||| 2 ^ type) } := by
  have kept : ∀ other at', araxProcCanRunAt (s.canrun other) at' = true →
      araxProcCanRunAt (Function.update s.canrun proc (s.canrun proc ||| 2 ^ type) other) at' =
        true := by
    intro other at' can
    by_cases same : other = proc
    · subst same
      rw [Function.update_self]
      unfold araxProcCanRunAt at can ⊢
      rw [Nat.testBit_or, can, Bool.true_or]
    · rw [Function.update_of_ne same]
      exact can
  refine ⟨inv.assigned, fun q => ?_, inv.fifo, fun result member => ?_, inv.fresh⟩
  · refine (inv.workers q).frame (fun _ => id) fun w _ runnable => ?_
    obtain ⟨first, found, can⟩ := check_eq_RT.mp runnable
    exact check_eq_RT.mpr ⟨first, found, kept _ _ can⟩
  · exact kept _ _ (inv.runnable result member)

/-- **Every move keeps the invariant.** -/
theorem heteroStep_inv {move : HeteroMove τ} (inv : HeteroInv c s)
    (step : heteroStep c s move = some t) : HeteroInv c t := by
  cases move with
  | accelInit accel freeVaq =>
    simp only [heteroStep] at step
    split_ifs at step with new
    have registered : HeteroInv c
        { s with
          accels := Function.update s.accels accel true
          tasks := Function.update s.tasks accel 0 } := inv.unseen rfl rfl rfl rfl rfl rfl rfl
    exact vaccelInit_inv registered new.2 step
  | vaccelInit vac accel =>
    simp only [heteroStep] at step
    split_ifs at step with new
    exact vaccelInit_inv inv new.1 step
  | setFunctor proc type =>
    cases step
    exact inv.set_functor proc type
  | addTask vac task =>
    simp only [heteroStep] at step
    split_ifs at step
    cases step
    exact inv.unseen rfl rfl rfl rfl rfl rfl rfl
  | client vac =>
    simp only [heteroStep] at step
    split_ifs at step with alive
    cases place : s.clients vac with
    | unlocked =>
      rw [place] at step
      cases step
    | push task =>
      rw [place] at step
      cases step
      split_ifs
      · exact inv
      · exact inv.push alive task .count
    | count =>
      rw [place] at step
      cases step
      exact inv.unseen rfl rfl rfl rfl rfl rfl rfl
  | worker accel =>
    simp only [heteroStep] at step
    split_ifs at step
    exact schedStep_inv inv step
  | getOrphan =>
    simp only [heteroStep] at step
    split at step
    · rename_i vac assignment _ taken
      cases step
      have result : assignment = s.assignment.getOrphan.2 := by rw [taken]
      subst result
      exact inv.reassign inv.assigned.getOrphan (fun _ _ => id)
        (fun v dead => (inv.fresh v dead).1) rfl rfl rfl rfl rfl rfl
    · cases step
  | tryAccel accel =>
    simp only [heteroStep] at step
    split at step
    · split_ifs at step
      cases step
      exact inv.unseen rfl rfl rfl rfl rfl rfl rfl
    · cases step
  | addVaccel =>
    simp only [heteroStep] at step
    split at step
    · split_ifs at step with alive
      obtain ⟨u, added, rfl⟩ := Option.map_eq_some_iff.mp step
      exact (inv.add alive.1 added).unseen rfl rfl rfl rfl rfl rfl rfl
    · cases step

end Moves

/-- **Tasks are returned in order, once, and where they can run.** For any accelerators, clients
and choices of the balancer, and in every interleaving: the tasks that `selectTask` returned for a
VAQ are a prefix of what was pushed to it, and each was returned by the worker of an accelerator
that can run its procedure. -/
theorem hetero_in_order (c : Controller τ) (moves : List (HeteroMove τ)) (s : HeteroState τ)
    (run : exec (heteroStep c) heteroStart moves = some s) :
    (∀ v, returnedFrom s v <+: s.submitted v) ∧
      ∀ accel v task, (accel, v, task) ∈ s.returned →
        araxProcCanRunAt (s.canrun (c.proc task)) (c.type accel) = true := by
  have start : HeteroInv c heteroStart := by
    refine ⟨⟨fun p v => ?_, fun p => ?_⟩, fun p => ?_, fun v => ?_, ?_, fun v _ => ⟨rfl, rfl⟩⟩
    · simp [heteroStart]
    · exact List.nodup_nil
    · trivial
    · rfl
    · intro result member
      cases member
  have inv := exec_invariant (fun _ _ _ inv step => heteroStep_inv inv step) start run
  refine ⟨fun v => ⟨s.queue v, inv.fifo v⟩, fun accel v task member => ?_⟩
  exact inv.runnable (accel, v, task) member

/-- Tasks are named by their procedure, and accelerator `p` is of type `p`. -/
def twoTypes : Controller Nat where
  proc := id
  type := id
  accelsOfAType := fun _ => 2
  capacity := 256

/-- An empty VAQ is assigned to accelerator 0, which cannot run the task that comes; it is taken
back, assigned to accelerator 1 and served there. -/
def reassigningMoves : List (HeteroMove Nat) :=
  [.accelInit 0 100, .accelInit 1 101, .setFunctor 7 1, .vaccelInit 5 none, .getOrphan, .tryAccel 0,
    .addVaccel, .addTask 5 7, .client 5, .client 5] ++ List.replicate 6 (.worker 0) ++
  [.getOrphan, .tryAccel 0, .tryAccel 1, .addVaccel] ++ List.replicate 5 (.worker 1)

theorem hetero_in_order_at_reassigned :
    ∃ s, exec (heteroStep twoTypes) heteroStart reassigningMoves = some s ∧
      s.returned = [(1, 5, 7)] ∧ (∀ v, returnedFrom s v <+: s.submitted v) ∧
      ∀ accel v task, (accel, v, task) ∈ s.returned →
        araxProcCanRunAt (s.canrun (twoTypes.proc task)) (twoTypes.type accel) = true := by
  have view : (exec (heteroStep twoTypes) heteroStart reassigningMoves).map HeteroState.returned =
      some [(1, 5, 7)] := by decide
  obtain ⟨s, run, returned⟩ := Option.map_eq_some_iff.mp view
  exact ⟨s, run, returned, hetero_in_order twoTypes reassigningMoves s run⟩

end Arax.Core
