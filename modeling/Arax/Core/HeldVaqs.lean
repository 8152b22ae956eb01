/-
**The VAQs that the controller holds (`controller/src/Core/VacBalancerThread.cpp`,
`controller/src/Core/accelThread.cpp`, `controller/src/Schedulers/RoundRobinScheduler.cpp`).**

Clients acquire and release virtual accelerators and issue tasks to them. The balancer takes an
orphan and assigns it, and the worker of an accelerator takes a snapshot of its VAQs and pops a task
from one of them. Neither takes a reference, so a client may drop the last one in between, and the
destructor runs while they go on. The lists are the links of `Arax.Core.Ownership`, one access under
a lock is one step, and VAQs have numbers that are never used again.

* `heldStep` — one step of a client, of a destructor, of the balancer or of a worker.
* `Touches s v` — the next step of the balancer or of a worker dereferences the VAQ `v`.
* `HeldGuard` — the condition: the last reference of a VAQ is dropped only while nobody in the
  controller holds it, and nobody picks up a VAQ that is being destroyed.
* `held_vaqs_live` — in every run that meets it, no VAQ is dereferenced after it was destroyed.
* `held_vaq_freed` — a run that does not.
-/

import Mathlib.Algebra.Group.Nat.Defs
import Mathlib.Data.List.Basic
import Mathlib.Logic.Function.Basic
import Mathlib.Tactic.SplitIfs
import Arax.Lib.Holding
import Arax.Lib.Run
import Arax.Core.DataQueues
import Arax.Core.Ownership

namespace Arax.Core.Ownership

open Arax.Lib Arax.Utils

/-! ### The threads -/

/-- Where the destructor of a VAQ is. -/
inductive DtorPlace where
  /-- At the read of `vaccel->phys`. -/
  | phys
  /-- At `arax_accel_del_vaccel`. -/
  | del (accel : Nat)
  /-- At `arax_pipe_remove_orphan_vaccel`. -/
  | orphan
  /-- At `arch_alloc_free`. -/
  | free
  deriving DecidableEq

/-- Where the worker of an accelerator is in `workFunc`. -/
inductive RrPlace where
  /-- In `arax_accel_wait_for_task`. -/
  | wait
  /-- At `arax_accel_get_assigned_vaccels`. -/
  | update
  /-- In the loops of `selectTask`, with the VAQs that are left and their positions. -/
  | select (rest : List (Nat × Nat))
  /-- At `arax_object_ref_inc` of the task. -/
  | start (task : Nat)
  /-- At `executeOperation`. -/
  | execute (task : Nat)
  /-- At `arax_object_ref_dec` of the task. -/
  | drop (task : Nat)
  /-- In the destructor of a VAQ, which that of a task has called. -/
  | destroy (vac : Nat)

/-- Where the balancer is. -/
inductive OrphanPlace where
  /-- In `arax_pipe_get_orphan_vaccel`. -/
  | idle
  /-- It has an orphan, and looks at its `phys` and its type. -/
  | assign (vac : Nat)
  /-- At the test of `vaccel->phys` in `arax_accel_add_vaccel`. -/
  | check (vac accel : Nat)
  /-- At `arax_pipe_remove_orphan_vaccel`. -/
  | remove (vac accel : Nat)
  /-- At `utils_list_add`. -/
  | link (vac accel : Nat)

/-- `arax_task_msg_s`. -/
structure HeldTask where
  accel : Nat
  refCount : Nat
  /-- The client has come to `arax_vaccel_add_task`. -/
  added : Bool
  /-- `arax_task_mark_done` was called. -/
  done : Bool
  /-- The client has not freed the task. -/
  handle : Bool

/-- The controller, the clients and what they share. -/
structure HeldState where
  vaqs : VaqState
  /-- The number of the next VAQ. -/
  next : Nat
  /-- The number of the next physical accelerator. -/
  nextAccel : Nat
  /-- The number of the next task. -/
  nextTask : Nat
  /-- `ref_count` of a VAQ. -/
  refs : Nat → Nat
  /-- The references that clients have from `arax_accel_acquire_type` and the like. -/
  handles : Nat → Nat
  /-- The VAQ is the `free_vaq` of an accelerator, which has a reference to it. -/
  freeVaq : Nat → Bool
  /-- The destructors that are running. -/
  dtors : Nat → Option DtorPlace
  clients : Nat → ClientPlace Nat
  queue : Nat → List Nat
  tasks : Nat → Option HeldTask
  /-- `accel->tasks`. -/
  pending : Nat → Nat
  workers : Nat → RrPlace
  rrCounter : Nat → Nat
  balancer : OrphanPlace

/-- After `arax_pipe_init`, in memory with any content. -/
def heldStart (memory : VaqState) : HeldState where
  vaqs := araxPipeInit memory
  next := 0
  nextAccel := 0
  nextTask := 0
  refs := fun _ => 0
  handles := fun _ => 0
  freeVaq := fun _ => false
  dtors := fun _ => none
  clients := fun _ => .unlocked
  queue := fun _ => []
  tasks := fun _ => none
  pending := fun _ => 0
  workers := fun _ => .wait
  rrCounter := fun _ => 0
  balancer := .idle

/-! ### References -/

/-- `arax_object_ref_dec` on a VAQ. The destructor of the last reference begins. -/
def dropVaq (s : HeldState) (vac : Nat) : Option HeldState :=
  if s.refs vac = 0 then none
  else some { s with
    refs := Function.update s.refs vac (s.refs vac - 1)
    dtors := if s.refs vac = 1 then Function.update s.dtors vac (some .phys) else s.dtors }

/-- `arax_object_ref_dec` on a task. Nobody sees a task without references, so the reference to its
VAQ is dropped in the same step. -/
def dropTask (s : HeldState) (task : Nat) : Option HeldState :=
  (s.tasks task).bind fun t =>
    if t.refCount = 0 then none
    else if t.refCount = 1 then
      dropVaq { s with tasks := Function.update s.tasks task none } t.accel
    else some { s with
      tasks := Function.update s.tasks task (some { t with refCount := t.refCount - 1 }) }

/-- The next access of `__dtor_arax_vaccel_s` and of the end of `arax_object_ref_dec`. -/
def dtorStep (s : HeldState) (vac : Nat) : DtorPlace → Option HeldState
  | .phys => some { s with
      dtors := Function.update s.dtors vac (some (match s.vaqs.phys vac with
        | some accel => .del accel
        | none => .orphan)) }
  | .del accel =>
    if (s.clients vac).isUnlocked then
      (araxAccelDelVaccel s.vaqs accel vac).map fun vaqs =>
        let tasks := (s.queue vac).length
        { s with
          vaqs := vaqs
          pending := if tasks = 0 then s.pending
            else Function.update s.pending accel
              ((s.pending accel + (2 ^ 64 - (tasks - 1))) % 2 ^ 64)
          dtors := Function.update s.dtors vac (some .free) }
    else none
  | .orphan => some { s with
      vaqs := araxPipeRemoveOrphanVaccel s.vaqs vac
      dtors := Function.update s.dtors vac (some .free) }
  | .free => some { s with
      vaqs := { s.vaqs with vaccels := Function.update s.vaqs.vaccels vac false }
      dtors := Function.update s.dtors vac none }

/-! ### The balancer -/

/-- The rest of `arax_accel_add_vaccel`, under the locks of the VAQ and of the accelerator. -/
def linkVaccel (s : VaqState) (accel vaccel : Nat) : VaqState :=
  if s.phys vaccel ≠ some accel then
    { s with
      lists := utilsListAdd s.lists (.head (.accel accel)) (.vaccel vaccel)
      phys := Function.update s.phys vaccel (some accel)
      revision := incRevision s.revision accel }
  else s

/-- Its parts, one after the other. -/
theorem addVaccel_parts (s : VaqState) (accel vaccel : Nat) :
    araxAccelAddVaccel s accel vaccel =
      if s.phys vaccel = some accel then some s
      else if s.phys vaccel = none then
        some (linkVaccel (araxPipeRemoveOrphanVaccel s vaccel) accel vaccel)
      else none := by
  unfold araxAccelAddVaccel linkVaccel
  simp only
  split_ifs <;> rfl

/-- The next step of the balancer; it chooses the accelerator `accel`, which is what a static
iterator leads to. It waits while there are no orphans. -/
def balancerStep (s : HeldState) (accel : Nat) : OrphanPlace → Option HeldState
  | .idle =>
    match araxPipeGetOrphanVaccel s.vaqs with
    | some (some vac, vaqs) => some { s with vaqs := vaqs, balancer := .assign vac }
    | _ => none
  | .assign vac =>
    if s.vaqs.accels accel then some { s with balancer := .check vac accel } else none
  | .check vac accel =>
    if s.vaqs.phys vac = some accel then some { s with balancer := .idle }
    else if s.vaqs.phys vac = none then some { s with balancer := .remove vac accel }
    else none
  | .remove vac accel => some { s with
      vaqs := araxPipeRemoveOrphanVaccel s.vaqs vac
      balancer := .link vac accel }
  | .link vac accel =>
    if (s.clients vac).isUnlocked then
      some { s with
        vaqs := linkVaccel s.vaqs accel vac
        pending := if s.vaqs.phys vac ≠ some accel then
            Function.update s.pending accel ((s.pending accel + (s.queue vac).length) % 2 ^ 64)
          else s.pending
        balancer := .idle }
    else none

/-! ### The workers -/

/-- `itr->owner`. -/
def VaqNode.vaq : VaqNode → Option Nat
  | .vaccel v => some v
  | .head _ => none

/-- `arax_accel_get_assigned_vaccels`: the array has as many entries as the list is long. -/
def assignedVaccels (s : VaqState) (accel : Nat) : Option (List Nat) :=
  (utilsListToArray s.lists (.head (.accel accel))
    (s.lists.length (.head (.accel accel))).toNat).map fun nodes => nodes.filterMap VaqNode.vaq

/-- The worker of `accel` is now at `place`. -/
def HeldState.goto (s : HeldState) (accel : Nat) (place : RrPlace) : HeldState :=
  { s with workers := Function.update s.workers accel place }

/-- The next step of a worker. -/
def rrStep (s : HeldState) (accel : Nat) : RrPlace → Option HeldState
  | .wait =>
    if s.pending accel = 0 then none
    else some { s.goto accel .update with
      pending := Function.update s.pending accel (s.pending accel - 1) }
  | .update =>
    (assignedVaccels s.vaqs accel).map fun vacs =>
      if vacs.length = 0 then s.goto accel .wait
      else s.goto accel (.select (rrOrder vacs (s.rrCounter accel)))
  | .select [] => some (s.goto accel .wait)
  | .select ((vac, position) :: rest) =>
    match s.queue vac with
    | [] => some (s.goto accel (.select rest))
    | task :: tasks => some { s.goto accel (.start task) with
        queue := Function.update s.queue vac tasks
        rrCounter := Function.update s.rrCounter accel position }
  | .start task =>
    (s.tasks task).map fun t => { s.goto accel (.execute task) with
      tasks := Function.update s.tasks task (some { t with refCount := t.refCount + 1 }) }
  | .execute task =>
    (s.tasks task).map fun t => { s.goto accel (.drop task) with
      tasks := Function.update s.tasks task (some { t with done := true }) }
  | .drop task =>
    (s.tasks task).bind fun t => (dropTask s task).map fun dropped =>
      dropped.goto accel
        (if t.refCount = 1 ∧ s.refs t.accel = 1 then .destroy t.accel else .wait)
  | .destroy vac => if (s.dtors vac).isSome then none else some (s.goto accel .wait)

/-! ### The clients -/

/-- A step. -/
inductive HeldMove where
  /-- `arax_accel_init`. -/
  | accelInit
  /-- `arax_accel_acquire_type`, or `arax_accel_acquire_phys` of an accelerator. -/
  | acquire (accel : Option Nat)
  /-- `arax_task_issue`, up to `arax_vaccel_add_task`. -/
  | issue (vac : Nat)
  /-- Its client gets `vaccel->lock` for the task. -/
  | addTask (task : Nat)
  /-- The next access of the client that holds the lock. -/
  | client (vac : Nat)
  /-- `arax_task_free`, after `arax_task_wait` has returned. -/
  | free (task : Nat)
  /-- `arax_accel_release`. -/
  | release (vac : Nat)
  /-- The next access of a destructor. -/
  | dtor (vac : Nat)
  /-- The next step of the balancer, which may choose `accel`. -/
  | balancer (accel : Nat)
  /-- The next step of a worker. -/
  | worker (accel : Nat)

/-- `arax_vaccel_init`, where the new VAQ starts with one reference. -/
def newVaq (s : HeldState) (accel : Option Nat) : Option HeldState :=
  (araxVaccelInit s.vaqs s.next accel).map fun vaqs =>
    { s with
      vaqs := vaqs
      next := s.next + 1
      refs := Function.update s.refs s.next 1
      clients := Function.update s.clients s.next .unlocked
      queue := Function.update s.queue s.next [] }

/-- The next access of `arax_vaccel_add_task`; `capacity` is that of the queue. -/
def addTaskStep (capacity : Nat) (s : HeldState) (vac : Nat) : ClientPlace Nat → Option HeldState
  | .unlocked => none
  | .push task =>
    some (if (s.queue vac).length = capacity then s
      else { s with
        queue := Function.update s.queue vac (s.queue vac ++ [task])
        clients := Function.update s.clients vac .count })
  | .count => some { s with
      pending := match s.vaqs.phys vac with
        | some accel => Function.update s.pending accel ((s.pending accel + 1) % 2 ^ 64)
        | none => s.pending
      clients := Function.update s.clients vac .unlocked }

/-- One step. Clients use only what they have a reference to, and `free_vaq`. -/
def heldStep (capacity : Nat) (s : HeldState) : HeldMove → Option HeldState
  | .accelInit =>
    (newVaq { s with
        vaqs := registerAccel s.vaqs s.nextAccel
        nextAccel := s.nextAccel + 1
        pending := Function.update s.pending s.nextAccel 0 } (some s.nextAccel)).map fun made =>
      { made with freeVaq := Function.update made.freeVaq s.next true }
  | .acquire accel =>
    if accel.all s.vaqs.accels then
      (newVaq s accel).map fun made =>
        { made with handles := Function.update made.handles s.next 1 }
    else none
  | .issue vac =>
    if 0 < s.handles vac ∨ s.freeVaq vac then
      some { s with
        nextTask := s.nextTask + 1
        refs := Function.update s.refs vac (s.refs vac + 1)
        tasks := Function.update s.tasks s.nextTask (some ⟨vac, 1, false, false, true⟩) }
    else none
  | .addTask task =>
    (s.tasks task).bind fun t =>
      if t.added = false ∧ (s.clients t.accel).isUnlocked then
        some { s with
          tasks := Function.update s.tasks task (some { t with added := true })
          clients := Function.update s.clients t.accel (.push task) }
      else none
  | .client vac => addTaskStep capacity s vac (s.clients vac)
  | .free task =>
    (s.tasks task).bind fun t =>
      if t.done ∧ t.handle then
        dropTask { s with
          tasks := Function.update s.tasks task (some { t with handle := false }) } task
      else none
  | .release vac =>
    if 0 < s.handles vac then
      dropVaq { s with handles := Function.update s.handles vac (s.handles vac - 1) } vac
    else none
  | .dtor vac => (s.dtors vac).bind (dtorStep s vac)
  | .balancer accel => balancerStep s accel s.balancer
  | .worker accel => if accel < s.nextAccel then rrStep s accel (s.workers accel) else none

/-! ### What is dereferenced, and when -/

/-- The VAQs that a worker has yet to visit. -/
def RrPlace.rest : RrPlace → List Nat
  | .select rest => rest.map Prod.fst
  | _ => []

/-- The VAQ that the balancer has. -/
def OrphanPlace.vac : OrphanPlace → Option Nat
  | .idle => none
  | .assign vac | .check vac _ | .remove vac _ | .link vac _ => some vac

/-- The next step of the balancer or of a worker reads or writes the VAQ `v`. -/
inductive Touches (s : HeldState) (v : Nat) : Prop where
  | popped (idle : s.balancer = .idle) (orphans : s.vaqs.lists.length (.head .orphans) ≠ 0)
      (first : s.vaqs.lists.links.next (.head .orphans) = .vaccel v)
  | behind (w : Nat) (idle : s.balancer = .idle)
      (orphans : s.vaqs.lists.length (.head .orphans) ≠ 0)
      (first : s.vaqs.lists.links.next (.head .orphans) = .vaccel w)
      (second : s.vaqs.lists.links.next (.vaccel w) = .vaccel v)
  | balancer (has : s.balancer.vac = some v)
  | unlinked (w accel : Nat) (remove : s.balancer = .remove w accel)
      (linked : utilsListNodeLinked s.vaqs.lists.links (.vaccel w))
      (neighbour : s.vaqs.lists.links.next (.vaccel w) = .vaccel v ∨
        s.vaqs.lists.links.prev (.vaccel w) = .vaccel v)
  | before (w accel : Nat) (link : s.balancer = .link w accel)
      (first : s.vaqs.lists.links.next (.head (.accel accel)) = .vaccel v)
  | snapshot (accel : Nat) (vacs : List Nat) (inside : accel < s.nextAccel)
      (update : s.workers accel = .update) (array : assignedVaccels s.vaqs accel = some vacs)
      (member : v ∈ vacs)
  | pop (accel position : Nat) (rest : List (Nat × Nat)) (inside : accel < s.nextAccel)
      (select : s.workers accel = .select ((v, position) :: rest))
  | drop (accel task : Nat) (t : HeldTask) (inside : accel < s.nextAccel)
      (drop : s.workers accel = .drop task) (found : s.tasks task = some t)
      (last : t.refCount = 1) (vaq : t.accel = v)
  | destroy (accel : Nat) (inside : accel < s.nextAccel)
      (destroy : s.workers accel = .destroy v) (running : s.dtors v ≠ none)

/-- No VAQ is dereferenced after it was destroyed. -/
def HeldLive (s : HeldState) : Prop := ∀ v, Touches s v → s.vaqs.vaccels v = true

/-- The balancer has the VAQ, or a worker has yet to visit it. -/
def HeldState.Holds (s : HeldState) (v : Nat) : Prop :=
  s.balancer.vac = some v ∨ ∃ p < s.nextAccel, v ∈ (s.workers p).rest

instance (s : HeldState) (v : Nat) : Decidable (s.Holds v) :=
  inferInstanceAs (Decidable (_ ∨ ∃ p < s.nextAccel, v ∈ (s.workers p).rest))

/-- The last reference of a VAQ is dropped only while nobody in the controller holds it. -/
def DropGuard (s : HeldState) (vac : Nat) : Prop := s.refs vac = 1 → ¬s.Holds vac

instance (s : HeldState) (vac : Nat) : Decidable (DropGuard s vac) :=
  inferInstanceAs (Decidable (_ → _))

/-- The same for the reference of a task. -/
def TaskGuard (s : HeldState) (task : Nat) : Prop :=
  ∀ t ∈ s.tasks task, t.refCount = 1 → DropGuard s t.accel

instance (s : HeldState) (task : Nat) : Decidable (TaskGuard s task) :=
  inferInstanceAs (Decidable (∀ t ∈ s.tasks task, _ → _))

/-- No VAQ of the accelerator is being destroyed when a worker takes its snapshot. -/
def WorkerGuard (s : HeldState) (accel : Nat) : RrPlace → Prop
  | .drop task => TaskGuard s task
  | .update => ∀ v < s.next, s.vaqs.phys v = some accel → s.dtors v = none
  | _ => True

/-- The first orphan is not being destroyed when the balancer takes it. -/
def BalancerGuard (s : HeldState) : OrphanPlace → Prop
  | .idle => ∀ v < s.next,
      s.vaqs.lists.links.next (.head .orphans) = .vaccel v → s.dtors v = none
  | _ => True

/-- **The condition on a step.** -/
def HeldGuard (s : HeldState) : HeldMove → Prop
  | .release vac => DropGuard s vac
  | .free task => TaskGuard s task
  | .worker accel => WorkerGuard s accel (s.workers accel)
  | .balancer _ => BalancerGuard s s.balancer
  | _ => True

instance (s : HeldState) (accel : Nat) : (place : RrPlace) → Decidable (WorkerGuard s accel place)
  | .drop task => inferInstanceAs (Decidable (TaskGuard s task))
  | .update => inferInstanceAs (Decidable (∀ v < s.next, _ → _))
  | .wait | .select _ | .start _ | .execute _ | .destroy _ => isTrue trivial

instance (s : HeldState) : (place : OrphanPlace) → Decidable (BalancerGuard s place)
  | .idle => inferInstanceAs (Decidable (∀ v < s.next, _ → _))
  | .assign _ | .check _ _ | .remove _ _ | .link _ _ => isTrue trivial

instance (s : HeldState) : (move : HeldMove) → Decidable (HeldGuard s move)
  | .release vac => inferInstanceAs (Decidable (DropGuard s vac))
  | .free task => inferInstanceAs (Decidable (TaskGuard s task))
  | .worker accel => inferInstanceAs (Decidable (WorkerGuard s accel (s.workers accel)))
  | .balancer _ => inferInstanceAs (Decidable (BalancerGuard s s.balancer))
  | .accelInit | .acquire _ | .issue _ | .addTask _ | .client _ | .dtor _ => isTrue trivial

/-! ### The invariant -/

/-- What a running destructor knows of the VAQ. -/
def DtorInv (vaqs : VaqState) (v : Nat) : DtorPlace → Prop
  | .phys => True
  | .del accel => vaqs.phys v = some accel
  | .orphan => vaqs.phys v = none
  | .free => vaqs.unlinked v = true

/-- What the balancer knows of its VAQ. -/
def BalancerInv (vaqs : VaqState) (dtors : Nat → Option DtorPlace) : OrphanPlace → Prop
  | .idle => True
  | .assign vac => vaqs.vaccels vac = true ∧ dtors vac = none ∧ vaqs.unlinked vac = true
  | .check vac accel | .remove vac accel | .link vac accel =>
    (vaqs.vaccels vac = true ∧ dtors vac = none ∧ vaqs.unlinked vac = true) ∧
      vaqs.accels accel = true

/-- **The lives of VAQs.** -/
structure LifeInv (vaqs : VaqState) (next nextAccel : Nat) (refs : Nat → Nat)
    (dtors : Nat → Option DtorPlace) (balancer : OrphanPlace) (workers : Nat → RrPlace) : Prop where
  owned : ∃ lists, Owned vaqs lists
  /-- VAQs to come. -/
  fresh : ∀ v, next ≤ v → vaqs.vaccels v = false ∧ refs v = 0 ∧ dtors v = none
  accels : ∀ p, vaqs.accels p = true ↔ p < nextAccel
  /-- Accelerators to come have no worker. -/
  idle : ∀ p, nextAccel ≤ p → (workers p).rest = []
  /-- A VAQ with references is not destroyed, and not about to be. -/
  alive : ∀ v, 0 < refs v → vaqs.vaccels v = true ∧ dtors v = none
  dying : ∀ v place, dtors v = some place → vaqs.vaccels v = true ∧ DtorInv vaqs v place
  balancer : BalancerInv vaqs dtors balancer
  workers : ∀ p, ∀ v ∈ (workers p).rest, vaqs.vaccels v = true ∧ dtors v = none

/-- **The references to VAQs.** `own` says which VAQ a task has a reference to. -/
structure CountInv (refs handles : Nat → Nat) (freeVaq : Nat → Bool) (own : Nat → Multiset Nat)
    (nextTask : Nat) : Prop where
  counts : ∀ v, refs v = handles v + (freeVaq v).toNat + (held nextTask own).count v
  fresh : ∀ task, nextTask ≤ task → own task = 0

/-- The reference that a task has. -/
def ownTask (tasks : Nat → Option HeldTask) (task : Nat) : Multiset Nat :=
  match tasks task with
  | some t => {t.accel}
  | none => 0

/-- **The invariant.** -/
structure HeldInv (s : HeldState) : Prop where
  life : LifeInv s.vaqs s.next s.nextAccel s.refs s.dtors s.balancer s.workers
  count : CountInv s.refs s.handles s.freeVaq (ownTask s.tasks) s.nextTask

/-! ### What the parts of a step do to the lists -/

section Parts

variable {s t : VaqState} {lists : Owner → List Nat} {p v w : Nat}

theorem getOrphan_some (step : araxPipeGetOrphanVaccel s = some (some v, t)) :
    s.lists.links.next (.head .orphans) = .vaccel v ∧
      t = { s with lists := utilsListDel s.lists (.head .orphans) (.vaccel v) } := by
  unfold araxPipeGetOrphanVaccel utilsListPopHead at step
  split_ifs at step
  · cases step
  · cases first : s.lists.links.next (.head .orphans) with
    | vaccel x =>
      simp only [first] at step
      split_ifs at step
      cases step
      exact ⟨rfl, rfl⟩
    | head o =>
      simp only [first] at step
      cases step

theorem linkVaccel_owned (owned : Owned s lists) (alive : s.vaccels v) (away : s.unlinked v)
    (here : s.accels p) : ∃ lists', Owned (linkVaccel s p v) lists' ∧
      (linkVaccel s p v).unlinked = Function.update s.unlinked v false := by
  unfold linkVaccel
  rw [if_pos (by rw [owned.unassigned v alive away]; simp)]
  exact ⟨_, owned.put (o := .accel p) alive away here rfl rfl rfl rfl⟩

/-- A new VAQ changes nothing of the other ones. -/
theorem vaccelInit_phys {accel : Option Nat} (step : araxVaccelInit s v accel = some t)
    (apart : w ≠ v) : t.phys w = s.phys w := by
  have registered : (registerVaccel s v).phys w = s.phys w := Function.update_of_ne apart ..
  cases accel with
  | none =>
    unfold araxVaccelInit araxPipeAddOrphanVaccel at step
    simp only at step
    split_ifs at step
    cases step
    exact registered
  | some p =>
    have unassigned : (registerVaccel s v).phys v = none := Function.update_self ..
    rw [addVaccel_phys unassigned step, Function.update_of_ne apart]
    exact registered

/-- The snapshot of an accelerator is its list. -/
theorem assignedVaccels_eq (owned : Owned s lists) (here : s.accels p) :
    assignedVaccels s p = some (lists (.accel p)) := by
  have ring := owned.linked.rings.ring (.accel p) here
  have count := owned.linked.length (.accel p) here
  have nodes' : (nodes lists (.accel p)).length = (lists (.accel p)).length := by simp [nodes]
  unfold assignedVaccels
  rw [count, Int.toNat_natCast, ← nodes', toArray_eq ring (by rw [count, nodes']) (le_refl _)]
  simp [nodes, List.filterMap_map, VaqNode.vaq, Function.comp_def]

/-- What is next to the head of a list is in the list. -/
theorem Owned.live_of_ring {o : Owner} {x : VaqNode} (owned : Owned s lists)
    (here : Present s.accels o) (inside : x ∈ VaqNode.head o :: nodes lists o)
    (first : s.lists.links.next x = .vaccel v) : v ∈ lists o ∧ s.vaccels v = true := by
  have member := (owned.linked.rings.ring o here).next_mem inside
  rw [first, vaccel_mem_ring] at member
  exact ⟨member, owned.live o here v member⟩

end Parts

/-! ### The lives of VAQs, step by step -/

section Lives

variable {vaqs vaqs' : VaqState} {next nextAccel : Nat} {refs refs' : Nat → Nat}
  {dtors dtors' : Nat → Option DtorPlace} {balancer balancer' : OrphanPlace}
  {workers : Nat → RrPlace} {v p : Nat}

theorem BalancerInv.frame {place : OrphanPlace} (inv : BalancerInv vaqs dtors place)
    (kept : ∀ w, place.vac = some w → vaqs'.vaccels w = vaqs.vaccels w ∧ dtors' w = dtors w ∧
      vaqs'.unlinked w = vaqs.unlinked w)
    (accels : ∀ p, vaqs.accels p = true → vaqs'.accels p = true) :
    BalancerInv vaqs' dtors' place := by
  cases place with
  | idle => trivial
  | assign vac =>
    obtain ⟨vaccels, idle, unlinked⟩ := kept vac rfl
    exact ⟨vaccels.trans inv.1, idle.trans inv.2.1, unlinked.trans inv.2.2⟩
  | check vac accel | remove vac accel | link vac accel =>
    obtain ⟨vaccels, idle, unlinked⟩ := kept vac rfl
    exact ⟨⟨vaccels.trans inv.1.1, idle.trans inv.1.2.1, unlinked.trans inv.1.2.2⟩,
      accels accel inv.2⟩

/-- What the balancer has is not being destroyed. -/
theorem BalancerInv.idle {place : OrphanPlace} (inv : BalancerInv vaqs dtors place)
    (has : place.vac = some v) : vaqs.vaccels v = true ∧ dtors v = none := by
  cases place with
  | idle => cases has
  | assign vac =>
    cases has
    exact ⟨inv.1, inv.2.1⟩
  | check vac accel | remove vac accel | link vac accel =>
    cases has
    exact ⟨inv.1.1, inv.1.2.1⟩

theorem DtorInv.frame {place : DtorPlace} (inv : DtorInv vaqs v place)
    (phys : vaqs'.phys v = vaqs.phys v) (unlinked : vaqs'.unlinked v = vaqs.unlinked v) :
    DtorInv vaqs' v place := by
  cases place with
  | phys => trivial
  | del accel | orphan => exact phys.trans inv
  | free => exact unlinked.trans inv

/-- References change, but no VAQ loses its last one. -/
theorem LifeInv.recount (inv : LifeInv vaqs next nextAccel refs dtors balancer workers)
    (same : ∀ w, 0 < refs' w → 0 < refs w) :
    LifeInv vaqs next nextAccel refs' dtors balancer workers := by
  refine ⟨inv.owned, fun w later => ?_, inv.accels, inv.idle,
    fun w some => inv.alive w (same w some), inv.dying, inv.balancer, inv.workers⟩
  obtain ⟨dead, none, idle⟩ := inv.fresh w later
  refine ⟨dead, Nat.eq_zero_of_not_pos fun some => ?_, idle⟩
  exact absurd (same w some) (none ▸ Nat.lt_irrefl 0)

/-- **The last reference** of a VAQ that nobody in the controller holds is dropped. -/
theorem LifeInv.last (inv : LifeInv vaqs next nextAccel refs dtors balancer workers)
    (one : refs v = 1) (free : balancer.vac ≠ some v) (unseen : ∀ p, v ∉ (workers p).rest) :
    LifeInv vaqs next nextAccel (Function.update refs v 0)
      (Function.update dtors v (some .phys)) balancer workers := by
  have alive := inv.alive v (one ▸ Nat.one_pos)
  refine ⟨inv.owned, fun w later => ?_, inv.accels, inv.idle, fun w some => ?_,
    fun w place running => ?_, ?_, fun p w member => ?_⟩
  · obtain ⟨dead, none, idle⟩ := inv.fresh w later
    have apart : w ≠ v := by
      rintro rfl
      rw [one] at none
      cases none
    rw [Function.update_of_ne apart, Function.update_of_ne apart]
    exact ⟨dead, none, idle⟩
  · have apart : w ≠ v := by
      rintro rfl
      rw [Function.update_self] at some
      exact absurd some (Nat.lt_irrefl 0)
    rw [Function.update_of_ne apart] at some ⊢
    exact inv.alive w some
  · by_cases same : w = v
    · rw [same, Function.update_self] at running
      cases running
      exact ⟨same ▸ alive.1, trivial⟩
    · rw [Function.update_of_ne same] at running
      exact inv.dying w place running
  · refine inv.balancer.frame (fun w has => ⟨rfl, Function.update_of_ne ?_ .., rfl⟩) fun _ => id
    rintro rfl
    exact free has
  · have apart : w ≠ v := by
      rintro rfl
      exact unseen p member
    rw [Function.update_of_ne apart]
    exact inv.workers p w member

/-- The balancer moves a VAQ that is not being destroyed. -/
theorem LifeInv.balance (inv : LifeInv vaqs next nextAccel refs dtors balancer workers)
    (owned : ∃ lists, Owned vaqs' lists) (accels : vaqs'.accels = vaqs.accels)
    (vaccels : vaqs'.vaccels = vaqs.vaccels) (idle : dtors v = none)
    (others : ∀ w, w ≠ v → vaqs'.phys w = vaqs.phys w ∧ vaqs'.unlinked w = vaqs.unlinked w)
    (after : BalancerInv vaqs' dtors balancer') :
    LifeInv vaqs' next nextAccel refs dtors balancer' workers := by
  refine ⟨owned, ?_, ?_, inv.idle, ?_, fun w place running => ?_, after, ?_⟩
  · rw [vaccels]
    exact inv.fresh
  · rw [accels]
    exact inv.accels
  · rw [vaccels]
    exact inv.alive
  · have apart : w ≠ v := by
      rintro rfl
      rw [idle] at running
      cases running
    rw [vaccels]
    exact ⟨(inv.dying w place running).1,
      (inv.dying w place running).2.frame (others w apart).1 (others w apart).2⟩
  · rw [vaccels]
    exact inv.workers

/-- The destructor of a VAQ goes on. -/
theorem LifeInv.destruct (inv : LifeInv vaqs next nextAccel refs dtors balancer workers)
    {place : DtorPlace} (running : dtors v = some place) (place' : Option DtorPlace)
    (owned : ∃ lists, Owned vaqs' lists) (accels : vaqs'.accels = vaqs.accels)
    (others : ∀ w, w ≠ v → vaqs'.vaccels w = vaqs.vaccels w ∧ vaqs'.phys w = vaqs.phys w ∧
      vaqs'.unlinked w = vaqs.unlinked w)
    (after : ∀ q, place' = some q → vaqs'.vaccels v = true ∧ DtorInv vaqs' v q) :
    LifeInv vaqs' next nextAccel refs (Function.update dtors v place') balancer workers := by
  have held : ∀ w, dtors w = none → w ≠ v := by
    rintro w idle rfl
    rw [running] at idle
    cases idle
  refine ⟨owned, fun w later => ?_, ?_, inv.idle, fun w some => ?_, fun w q dies => ?_, ?_,
    fun p w member => ?_⟩
  · obtain ⟨dead, none, idle⟩ := inv.fresh w later
    rw [(others w (held w idle)).1, Function.update_of_ne (held w idle)]
    exact ⟨dead, none, idle⟩
  · rw [accels]
    exact inv.accels
  · obtain ⟨alive, idle⟩ := inv.alive w some
    rw [(others w (held w idle)).1, Function.update_of_ne (held w idle)]
    exact ⟨alive, idle⟩
  · by_cases same : w = v
    · rw [same, Function.update_self] at dies
      rw [same]
      exact after q dies
    · rw [Function.update_of_ne same] at dies
      obtain ⟨vaccels, phys, unlinked⟩ := others w same
      rw [vaccels]
      exact ⟨(inv.dying w q dies).1, (inv.dying w q dies).2.frame phys unlinked⟩
  · refine inv.balancer.frame (fun w has => ?_) fun p here => accels ▸ here
    have apart := held w (inv.balancer.idle has).2
    exact ⟨(others w apart).1, Function.update_of_ne apart .., (others w apart).2.2⟩
  · obtain ⟨alive, idle⟩ := inv.workers p w member
    rw [(others w (held w idle)).1, Function.update_of_ne (held w idle)]
    exact ⟨alive, idle⟩

/-- A new VAQ, perhaps of a new accelerator. -/
theorem LifeInv.born {nextAccel' : Nat}
    (inv : LifeInv vaqs next nextAccel refs dtors balancer workers)
    (owned : ∃ lists, Owned vaqs' lists) (more : nextAccel ≤ nextAccel')
    (accels : ∀ p, vaqs'.accels p = true ↔ p < nextAccel')
    (vaccels : vaqs'.vaccels = Function.update vaqs.vaccels next true)
    (others : ∀ w, w ≠ next → vaqs'.phys w = vaqs.phys w ∧ vaqs'.unlinked w = vaqs.unlinked w) :
    LifeInv vaqs' (next + 1) nextAccel' (Function.update refs next 1) dtors balancer workers := by
  have dead := inv.fresh next (Nat.le_refl next)
  have kept : ∀ w, vaqs.vaccels w = true → w ≠ next := by
    rintro w alive rfl
    rw [dead.1] at alive
    cases alive
  have lives : ∀ w, vaqs.vaccels w = true → vaqs'.vaccels w = true := by
    intro w alive
    rw [vaccels, Function.update_of_ne (kept w alive)]
    exact alive
  refine ⟨owned, fun w later => ?_, accels, fun p later => inv.idle p (Nat.le_trans more later),
    fun w some => ?_, fun w place running => ?_, ?_, fun p w member => ?_⟩
  · have apart : w ≠ next := Nat.ne_of_gt later
    rw [vaccels, Function.update_of_ne apart, Function.update_of_ne apart]
    exact inv.fresh w (Nat.le_of_succ_le later)
  · by_cases same : w = next
    · rw [same, vaccels, Function.update_self]
      exact ⟨rfl, dead.2.2⟩
    · rw [Function.update_of_ne same] at some
      exact (inv.alive w some).imp_left (lives w)
  · obtain ⟨alive, known⟩ := inv.dying w place running
    have apart := others w (kept w alive)
    exact ⟨lives w alive, known.frame apart.1 apart.2⟩
  · refine inv.balancer.frame (fun w has => ?_) fun p here => ?_
    · have alive := (inv.balancer.idle has).1
      exact ⟨(lives w alive).trans alive.symm, rfl, (others w (kept w alive)).2⟩
    · exact (accels p).mpr (Nat.lt_of_lt_of_le ((inv.accels p).mp here) more)
  · exact (inv.workers p w member).imp_left (lives w)

/-- A worker goes on, with VAQs that it may visit. -/
theorem LifeInv.goto (inv : LifeInv vaqs next nextAccel refs dtors balancer workers)
    (here : p < nextAccel) {place : RrPlace}
    (may : ∀ v ∈ place.rest, vaqs.vaccels v = true ∧ dtors v = none) :
    LifeInv vaqs next nextAccel refs dtors balancer (Function.update workers p place) := by
  refine ⟨inv.owned, inv.fresh, inv.accels, fun q later => ?_, inv.alive, inv.dying, inv.balancer,
    fun q v member => ?_⟩
  · rw [Function.update_of_ne (Nat.ne_of_gt (Nat.lt_of_lt_of_le here later))]
    exact inv.idle q later
  · by_cases same : q = p
    · rw [same, Function.update_self] at member
      exact may v member
    · rw [Function.update_of_ne same] at member
      exact inv.workers q v member

end Lives

/-! ### The references, step by step -/

section Counts

variable {refs handles : Nat → Nat} {freeVaq : Nat → Bool} {own : Nat → Multiset Nat}
  {nextTask task v : Nat} {tasks : Nat → Option HeldTask} {t t' : HeldTask}

theorem ownTask_some (found : tasks task = some t) : ownTask tasks task = {t.accel} := by
  unfold ownTask
  rw [found]

/-- A task changes, but not its VAQ. -/
theorem ownTask_same (found : tasks task = some t) (accel : t'.accel = t.accel) :
    ownTask (Function.update tasks task (some t')) = ownTask tasks := by
  funext j
  unfold ownTask
  by_cases same : j = task
  · subst same
    rw [Function.update_self, found]
    show ({t'.accel} : Multiset Nat) = {t.accel}
    rw [accel]
  · rw [Function.update_of_ne same]

theorem ownTask_update (tasks : Nat → Option HeldTask) (task : Nat) (x : Option HeldTask) :
    ownTask (Function.update tasks task x) =
      Function.update (ownTask tasks) task (match x with | some t => {t.accel} | none => 0) := by
  funext j
  unfold ownTask
  by_cases same : j = task
  · subst same
    rw [Function.update_self, Function.update_self]
  · rw [Function.update_of_ne same, Function.update_of_ne same]

/-- A VAQ that a task refers to has a reference. -/
theorem CountInv.referenced (inv : CountInv refs handles freeVaq own nextTask)
    (member : v ∈ own task) : 0 < refs v := by
  have inside : task < nextTask := by
    by_contra later
    rw [inv.fresh task (Nat.le_of_not_lt later)] at member
    exact absurd member (Multiset.notMem_zero v)
  have some : 0 < (held nextTask own).count v :=
    Multiset.count_pos.mpr (Multiset.mem_sum.mpr ⟨task, Finset.mem_range.mpr inside, member⟩)
  have counts := inv.counts v
  omega

/-- A new VAQ has the reference of a client, or that of its accelerator. -/
theorem CountInv.born {handles' : Nat → Nat} {freeVaq' : Nat → Bool}
    (inv : CountInv refs handles freeVaq own nextTask) (unused : refs v = 0)
    (others : ∀ w, w ≠ v → handles' w = handles w ∧ freeVaq' w = freeVaq w)
    (one : handles' v + (freeVaq' v).toNat = 1) :
    CountInv (Function.update refs v 1) handles' freeVaq' own nextTask := by
  refine ⟨fun w => ?_, inv.fresh⟩
  have counts := inv.counts w
  by_cases same : w = v
  · subst same
    rw [Function.update_self]
    omega
  · rw [Function.update_of_ne same, (others w same).1, (others w same).2]
    exact counts

/-- A new task takes a reference. -/
theorem CountInv.issue (inv : CountInv refs handles freeVaq own nextTask) :
    CountInv (Function.update refs v (refs v + 1)) handles freeVaq
      (Function.update own nextTask {v}) (nextTask + 1) := by
  have before : held nextTask (Function.update own nextTask {v}) = held nextTask own :=
    Finset.sum_congr rfl fun j inside =>
      Function.update_of_ne (Nat.ne_of_lt (Finset.mem_range.mp inside)) _ _
  refine ⟨fun w => ?_, fun j later => ?_⟩
  · have counts := inv.counts w
    rw [held_succ, before, Function.update_self, Multiset.count_add, Multiset.count_singleton]
    by_cases same : w = v
    · subst same
      rw [Function.update_self, if_pos rfl]
      omega
    · rw [Function.update_of_ne same, if_neg same]
      omega
  · rw [Function.update_of_ne (Nat.ne_of_gt later)]
    exact inv.fresh j (Nat.le_of_succ_le later)

/-- A task drops its reference. -/
theorem CountInv.dropTask (inv : CountInv refs handles freeVaq own nextTask)
    (refers : own task = {v}) :
    CountInv (Function.update refs v (refs v - 1)) handles freeVaq
      (Function.update own task 0) nextTask := by
  have some := inv.referenced (refers.symm ▸ Multiset.mem_singleton_self v)
  have inside : task < nextTask := by
    by_contra later
    rw [inv.fresh task (Nat.le_of_not_lt later)] at refers
    exact absurd refers.symm (Multiset.singleton_ne_zero v)
  have update := held_update own inside 0
  rw [refers, add_zero] at update
  refine ⟨fun w => ?_, fun j later => ?_⟩
  · have counts := inv.counts w
    have count := congrArg (Multiset.count w) update
    rw [Multiset.count_add, Multiset.count_singleton] at count
    by_cases same : w = v
    · subst same
      rw [Function.update_self]
      rw [if_pos rfl] at count
      omega
    · rw [Function.update_of_ne same]
      rw [if_neg same] at count
      omega
  · rw [Function.update_of_ne (by omega)]
    exact inv.fresh j later

/-- A client drops its reference. -/
theorem CountInv.release (inv : CountInv refs handles freeVaq own nextTask) (some : 0 < handles v) :
    CountInv (Function.update refs v (refs v - 1)) (Function.update handles v (handles v - 1))
      freeVaq own nextTask := by
  refine ⟨fun w => ?_, inv.fresh⟩
  have counts := inv.counts w
  by_cases same : w = v
  · subst same
    rw [Function.update_self, Function.update_self]
    omega
  · rw [Function.update_of_ne same, Function.update_of_ne same]
    exact counts

end Counts

/-! ### Every step keeps the invariant -/

section Steps

variable {s t : HeldState} {capacity v p task : Nat}

/-- The part of a drop that is about lives. -/
theorem dropVaq_life
    (inv : LifeInv s.vaqs s.next s.nextAccel s.refs s.dtors s.balancer s.workers)
    (guard : DropGuard s v) (step : dropVaq s v = some t) :
    LifeInv t.vaqs t.next t.nextAccel t.refs t.dtors t.balancer t.workers ∧
      t = { s with refs := Function.update s.refs v (s.refs v - 1), dtors := t.dtors } := by
  unfold dropVaq at step
  split_ifs at step with none one
  · cases step
    refine ⟨?_, rfl⟩
    have unheld := guard one
    rw [HeldState.Holds, not_or] at unheld
    show LifeInv _ _ _ (Function.update s.refs v (s.refs v - 1)) _ _ _
    rw [one]
    refine inv.last one unheld.1 fun p member => ?_
    by_cases inside : p < s.nextAccel
    · exact unheld.2 ⟨p, inside, member⟩
    · rw [inv.idle p (Nat.le_of_not_lt inside)] at member
      exact absurd member List.not_mem_nil
  · cases step
    refine ⟨inv.recount fun w some => ?_, rfl⟩
    change 0 < Function.update s.refs v (s.refs v - 1) w at some
    by_cases same : w = v
    · subst same
      omega
    · rwa [Function.update_of_ne same] at some

/-- A task changes, but not its VAQ. -/
theorem HeldInv.retask (inv : HeldInv s) {m : HeldTask} (found : s.tasks task = some m)
    (m' : HeldTask) (accel : m'.accel = m.accel) :
    HeldInv { s with tasks := Function.update s.tasks task (some m') } := by
  refine ⟨inv.life, ?_⟩
  show CountInv _ _ _ (ownTask (Function.update s.tasks task _)) _
  rw [ownTask_same found accel]
  exact inv.count

theorem dropTask_inv (inv : HeldInv s) (guard : TaskGuard s task)
    (step : dropTask s task = some t) : HeldInv t ∧ t.nextAccel = s.nextAccel := by
  obtain ⟨m, found, step⟩ := Option.bind_eq_some_iff.mp step
  split_ifs at step with zero one
  · obtain ⟨life, frame⟩ := dropVaq_life
      (s := { s with tasks := Function.update s.tasks task none })
      inv.life (guard m found one) step
    have count := inv.count.dropTask (ownTask_some found)
    have owners := ownTask_update s.tasks task none
    rw [← owners] at count
    rw [frame] at life ⊢
    exact ⟨⟨life, count⟩, rfl⟩
  · cases step
    exact ⟨inv.retask found { m with refCount := m.refCount - 1 } rfl, rfl⟩

theorem HeldInv.goto (inv : HeldInv s) (here : p < s.nextAccel) (place : RrPlace)
    (may : ∀ v ∈ place.rest, s.vaqs.vaccels v = true ∧ s.dtors v = none) :
    HeldInv (s.goto p place) :=
  ⟨inv.life.goto here may, inv.count⟩

/-- What the controller may visit of its own list. -/
theorem HeldInv.snapshot (inv : HeldInv s) (here : p < s.nextAccel)
    (guard : ∀ v < s.next, s.vaqs.phys v = some p → s.dtors v = none) {vacs : List Nat}
    (array : assignedVaccels s.vaqs p = some vacs) :
    ∀ v ∈ vacs, s.vaqs.vaccels v = true ∧ s.dtors v = none := by
  obtain ⟨lists, owned⟩ := inv.life.owned
  have present := (inv.life.accels p).mpr here
  rw [assignedVaccels_eq owned present] at array
  cases array
  intro v member
  have alive := owned.live (.accel p) present v member
  refine ⟨alive, guard v ?_ (owned.phys (.accel p) present v member)⟩
  by_contra later
  rw [(inv.life.fresh v (Nat.le_of_not_lt later)).1] at alive
  cases alive

/-- **The steps of a worker.** -/
theorem rrStep_inv (inv : HeldInv s) (here : p < s.nextAccel)
    (guard : WorkerGuard s p (s.workers p)) (step : rrStep s p (s.workers p) = some t) :
    HeldInv t := by
  have nothing : ∀ v ∈ ([] : List Nat), s.vaqs.vaccels v = true ∧ s.dtors v = none :=
    fun v impossible => absurd impossible List.not_mem_nil
  have may := inv.life.workers p
  cases place : s.workers p with
  | wait =>
    rw [place] at step
    simp only [rrStep] at step
    split_ifs at step
    cases step
    exact ⟨(inv.goto here .update nothing).life, inv.count⟩
  | update =>
    rw [place] at step guard
    obtain ⟨vacs, array, rfl⟩ := Option.map_eq_some_iff.mp step
    have visit := inv.snapshot here guard array
    split_ifs
    · exact inv.goto here .wait nothing
    · exact inv.goto here _ fun v member => visit v ((rrOrder_perm vacs _).mem_iff.mp member)
  | select rest =>
    rw [place] at step may
    cases rest with
    | nil =>
      cases step
      exact inv.goto here .wait nothing
    | cons first rest =>
      obtain ⟨vac, position⟩ := first
      simp only [rrStep] at step
      cases queue : s.queue vac with
      | nil =>
        rw [queue] at step
        cases step
        exact inv.goto here _ fun v member => may v (List.mem_cons_of_mem vac member)
      | cons task tasks =>
        rw [queue] at step
        cases step
        exact ⟨(inv.goto here (.start task) nothing).life, inv.count⟩
  | start task =>
    rw [place] at step
    obtain ⟨m, found, rfl⟩ := Option.map_eq_some_iff.mp step
    exact (inv.goto here (.execute task) nothing).retask found
      { m with refCount := m.refCount + 1 } rfl
  | execute task =>
    rw [place] at step
    obtain ⟨m, found, rfl⟩ := Option.map_eq_some_iff.mp step
    exact (inv.goto here (.drop task) nothing).retask found { m with done := true } rfl
  | drop task =>
    rw [place] at step guard
    obtain ⟨m, found, step⟩ := Option.bind_eq_some_iff.mp step
    obtain ⟨dropped, drop, rfl⟩ := Option.map_eq_some_iff.mp step
    obtain ⟨inv', same⟩ := dropTask_inv inv guard drop
    refine inv'.goto (same ▸ here) _ fun v impossible => ?_
    split_ifs at impossible <;> cases impossible
  | destroy vac =>
    rw [place] at step
    simp only [rrStep] at step
    split_ifs at step
    cases step
    exact inv.goto here .wait nothing

/-- **The steps of the balancer.** -/
theorem balancerStep_inv (inv : HeldInv s) (guard : BalancerGuard s s.balancer)
    (step : balancerStep s p s.balancer = some t) : HeldInv t := by
  obtain ⟨lists, owned⟩ := inv.life.owned
  have known := inv.life.balancer
  cases place : s.balancer with
  | idle =>
    rw [place] at step guard
    simp only [balancerStep] at step
    split at step
    · rename_i vac vaqs got
      cases step
      obtain ⟨first, rfl⟩ := getOrphan_some got
      obtain ⟨u, result, owned', -, unlinked⟩ := getOrphan_owned owned
      rw [got] at result
      obtain ⟨head, rfl⟩ := Prod.mk.inj (Option.some.inj result)
      simp only [← head] at unlinked
      have alive := (owned.live_of_ring (o := .orphans) trivial List.mem_cons_self first).2
      have inside : vac < s.next := by
        by_contra later
        rw [(inv.life.fresh vac (Nat.le_of_not_lt later)).1] at alive
        cases alive
      have idle := guard vac inside first
      refine ⟨inv.life.balance ⟨_, owned'⟩ rfl rfl idle (fun w apart => ⟨rfl, ?_⟩) ?_, inv.count⟩
      · rw [unlinked, Function.update_of_ne apart]
      · exact ⟨alive, idle, by rw [unlinked, Function.update_self]⟩
    · cases step
  | assign vac =>
    rw [place] at step known
    simp only [balancerStep] at step
    split_ifs at step with accel
    cases step
    exact ⟨inv.life.balance ⟨_, owned⟩ rfl rfl known.2.1 (fun _ _ => ⟨rfl, rfl⟩) ⟨known, accel⟩,
      inv.count⟩
  | check vac accel =>
    rw [place] at step known
    simp only [balancerStep] at step
    split_ifs at step
    · cases step
      exact ⟨inv.life.balance ⟨_, owned⟩ rfl rfl known.1.2.1 (fun _ _ => ⟨rfl, rfl⟩) trivial,
        inv.count⟩
    · cases step
      exact ⟨inv.life.balance ⟨_, owned⟩ rfl rfl known.1.2.1 (fun _ _ => ⟨rfl, rfl⟩) known,
        inv.count⟩
  | remove vac accel =>
    rw [place] at step known
    cases step
    obtain ⟨⟨alive, idle, away⟩, here⟩ := known
    obtain ⟨owned', unlinked⟩ := removeOrphan_owned owned alive (owned.unassigned vac alive away)
    refine ⟨inv.life.balance ⟨_, owned'⟩ removeOrphan_accels removeOrphan_vaccels idle
      (fun w apart => ⟨congrFun removeOrphan_phys w, ?_⟩) ?_, inv.count⟩
    · rw [unlinked, Function.update_of_ne apart]
    · exact ⟨⟨(congrFun removeOrphan_vaccels vac).trans alive, idle,
        by rw [unlinked, Function.update_self]⟩, (congrFun removeOrphan_accels accel).trans here⟩
  | link vac accel =>
    rw [place] at step known
    simp only [balancerStep] at step
    split_ifs at step
    all_goals
      cases step
      obtain ⟨⟨alive, idle, away⟩, here⟩ := known
      have frame : linkVaccel s.vaqs accel vac = { s.vaqs with
          lists := utilsListAdd s.vaqs.lists (.head (.accel accel)) (.vaccel vac)
          phys := Function.update s.vaqs.phys vac (some accel)
          revision := incRevision s.vaqs.revision accel } := by
        unfold linkVaccel
        rw [if_pos (by rw [owned.unassigned vac alive away]; simp)]
      obtain ⟨lists', owned', unlinked⟩ := linkVaccel_owned owned alive away here
      refine ⟨inv.life.balance ⟨lists', owned'⟩ ?_ ?_ idle (fun w apart => ⟨?_, ?_⟩) trivial,
        inv.count⟩
      · rw [frame]
      · rw [frame]
      · rw [frame]
        exact Function.update_of_ne apart ..
      · rw [unlinked, Function.update_of_ne apart]

/-- **The steps of a destructor.** -/
theorem dtorStep_inv {place : DtorPlace} (inv : HeldInv s) (running : s.dtors v = some place)
    (step : dtorStep s v place = some t) : HeldInv t := by
  obtain ⟨lists, owned⟩ := inv.life.owned
  obtain ⟨alive, known⟩ := inv.life.dying v place running
  cases place with
  | phys =>
    cases step
    refine ⟨inv.life.destruct running _ ⟨_, owned⟩ rfl (fun _ _ => ⟨rfl, rfl, rfl⟩)
      fun q place' => ?_, inv.count⟩
    cases place'
    cases phys : s.vaqs.phys v with
    | some accel => exact ⟨alive, phys⟩
    | none => exact ⟨alive, phys⟩
  | del accel =>
    by_cases unlocked : (s.clients v).isUnlocked
    swap
    · rw [dtorStep, if_neg unlocked] at step
      cases step
    rw [dtorStep, if_pos unlocked] at step
    obtain ⟨vaqs, deleted, rfl⟩ := Option.map_eq_some_iff.mp step
    obtain ⟨owned', unlinked⟩ := delVaccel_owned owned alive deleted
    unfold araxAccelDelVaccel at deleted
    split_ifs at deleted
    cases deleted
    refine ⟨inv.life.destruct running _ ⟨_, owned'⟩ rfl (fun w apart => ⟨rfl, ?_, ?_⟩)
      fun q place' => ?_, inv.count⟩
    · exact Function.update_of_ne apart ..
    · rw [unlinked, Function.update_of_ne apart]
    · cases place'
      exact ⟨alive, (congrFun unlinked v).trans (Function.update_self ..)⟩
  | orphan =>
    cases step
    obtain ⟨owned', unlinked⟩ := removeOrphan_owned owned alive known
    refine ⟨inv.life.destruct running _ ⟨_, owned'⟩ removeOrphan_accels
      (fun w apart => ⟨congrFun removeOrphan_vaccels w, congrFun removeOrphan_phys w, ?_⟩)
      fun q place' => ?_, inv.count⟩
    · rw [unlinked, Function.update_of_ne apart]
    · cases place'
      exact ⟨(congrFun removeOrphan_vaccels v).trans alive,
        (congrFun unlinked v).trans (Function.update_self ..)⟩
  | free =>
    cases step
    refine ⟨inv.life.destruct running _ ⟨_, owned.forget known⟩ rfl
      (fun w apart => ⟨Function.update_of_ne apart .., rfl, rfl⟩)
      fun q impossible => (by cases impossible), inv.count⟩

/-- A VAQ that a client may use has a reference. -/
theorem CountInv.usable {refs handles : Nat → Nat} {freeVaq : Nat → Bool}
    {own : Nat → Multiset Nat} {nextTask : Nat} (inv : CountInv refs handles freeVaq own nextTask)
    (may : 0 < handles v ∨ freeVaq v) : 0 < refs v := by
  have counts := inv.counts v
  rcases may with client | free
  · omega
  · rw [free, Bool.toNat_true] at counts
    omega

/-- **A new VAQ**, perhaps of a new accelerator: `vaqs` are the lists before it. -/
theorem newVaq_life {vaqs : VaqState} {nextAccel : Nat} {accel : Option Nat} {made : VaqState}
    (inv : LifeInv s.vaqs s.next s.nextAccel s.refs s.dtors s.balancer s.workers)
    (owned : ∃ lists, Owned vaqs lists) (more : s.nextAccel ≤ nextAccel)
    (accels : ∀ p, vaqs.accels p = true ↔ p < nextAccel) (vaccels : vaqs.vaccels = s.vaqs.vaccels)
    (phys : vaqs.phys = s.vaqs.phys) (unlinked : vaqs.unlinked = s.vaqs.unlinked)
    (here : accel.all vaqs.accels)
    (init : araxVaccelInit vaqs s.next accel = some made) :
    LifeInv made (s.next + 1) nextAccel (Function.update s.refs s.next 1) s.dtors s.balancer
      s.workers := by
  obtain ⟨lists, owned⟩ := owned
  have dead := (inv.fresh s.next (Nat.le_refl _)).1
  rw [← vaccels] at dead
  obtain ⟨owned', unlinked'⟩ := vaccelInit_owned owned dead here init
  obtain ⟨accels', vaccels', -⟩ := vaccelInit_frame init
  refine inv.born owned' more ?_ ?_ fun w apart => ⟨?_, ?_⟩
  · rw [accels']
    exact accels
  · rw [vaccels', vaccels]
  · rw [vaccelInit_phys init apart, phys]
  · rw [unlinked', Function.update_of_ne apart, unlinked]

/-- **Every step that meets the condition keeps the invariant.** -/
theorem heldStep_inv {move : HeldMove} (inv : HeldInv s) (guard : HeldGuard s move)
    (step : heldStep capacity s move = some t) : HeldInv t := by
  obtain ⟨lists, owned⟩ := inv.life.owned
  have unused := (inv.life.fresh s.next (Nat.le_refl _)).2.1
  cases move with
  | accelInit =>
    obtain ⟨u, new, rfl⟩ := Option.map_eq_some_iff.mp step
    obtain ⟨made, init, rfl⟩ := Option.map_eq_some_iff.mp new
    have absent : s.vaqs.accels s.nextAccel = false := by
      rw [← Bool.not_eq_true, inv.life.accels]
      exact Nat.lt_irrefl _
    have accels : ∀ p, (registerAccel s.vaqs s.nextAccel).accels p = true ↔
        p < s.nextAccel + 1 := by
      intro p
      show Function.update s.vaqs.accels s.nextAccel true p = true ↔ _
      by_cases same : p = s.nextAccel
      · simp [same]
      · rw [Function.update_of_ne same, inv.life.accels]
        omega
    refine ⟨newVaq_life (s := s) inv.life ⟨_, owned.register_accel absent⟩ (Nat.le_succ _) accels
      rfl rfl register_accel_unlinked ?_ init,
      inv.count.born unused (fun w apart => ⟨rfl, Function.update_of_ne apart ..⟩) ?_⟩
    · simp [registerAccel]
    · show s.handles s.next + (Function.update s.freeVaq s.next true s.next).toNat = 1
      have counts := inv.count.counts s.next
      rw [Function.update_self, Bool.toNat_true]
      omega
  | acquire accel =>
    simp only [heldStep] at step
    split_ifs at step with here
    obtain ⟨u, new, rfl⟩ := Option.map_eq_some_iff.mp step
    obtain ⟨made, init, rfl⟩ := Option.map_eq_some_iff.mp new
    refine ⟨newVaq_life inv.life ⟨_, owned⟩ (Nat.le_refl _) inv.life.accels rfl rfl rfl here init,
      inv.count.born unused (fun w apart => ⟨Function.update_of_ne apart .., rfl⟩) ?_⟩
    show Function.update s.handles s.next 1 s.next + (s.freeVaq s.next).toNat = 1
    have counts := inv.count.counts s.next
    rw [Function.update_self]
    omega
  | issue vac =>
    simp only [heldStep] at step
    split_ifs at step with may
    cases step
    refine ⟨inv.life.recount fun w some => ?_, ?_⟩
    · by_cases same : w = vac
      · exact same ▸ inv.count.usable may
      · change 0 < Function.update s.refs vac _ w at some
        rwa [Function.update_of_ne same] at some
    · show CountInv _ _ _ (ownTask (Function.update s.tasks s.nextTask _)) _
      rw [ownTask_update]
      exact inv.count.issue
  | addTask task =>
    obtain ⟨m, found, step⟩ := Option.bind_eq_some_iff.mp step
    split_ifs at step
    cases step
    exact ⟨inv.life, (inv.retask found { m with added := true } rfl).count⟩
  | client vac =>
    simp only [heldStep] at step
    cases place : s.clients vac with
    | unlocked =>
      rw [place] at step
      cases step
    | push task =>
      rw [place] at step
      cases step
      split_ifs
      · exact inv
      · exact ⟨inv.life, inv.count⟩
    | count =>
      rw [place] at step
      cases step
      exact ⟨inv.life, inv.count⟩
  | free task =>
    obtain ⟨m, found, step⟩ := Option.bind_eq_some_iff.mp step
    split_ifs at step
    have freed := inv.retask found { m with handle := false } rfl
    refine (dropTask_inv freed (fun m' found' one => ?_) step).1
    change Function.update s.tasks task _ task = some m' at found'
    rw [Function.update_self] at found'
    cases found'
    exact guard m found one
  | release vac =>
    simp only [heldStep] at step
    split_ifs at step with some
    obtain ⟨life, frame⟩ := dropVaq_life
      (s := { s with handles := Function.update s.handles vac (s.handles vac - 1) })
      inv.life guard step
    have count := inv.count.release some
    rw [frame] at life ⊢
    exact ⟨life, count⟩
  | dtor vac =>
    obtain ⟨place, running, step⟩ := Option.bind_eq_some_iff.mp step
    exact dtorStep_inv inv running step
  | balancer accel => exact balancerStep_inv inv guard step
  | worker accel =>
    simp only [heldStep] at step
    split_ifs at step with here
    exact rrStep_inv inv here guard step

theorem heldStart_inv (memory : VaqState) : HeldInv (heldStart memory) := by
  refine ⟨⟨⟨_, araxPipeInit_owned memory⟩, fun v _ => ⟨rfl, rfl, rfl⟩, fun p => ?_, fun _ _ => rfl,
    fun v some => absurd some (Nat.lt_irrefl 0), fun v place impossible => (by cases impossible),
    trivial, fun p v impossible => absurd impossible List.not_mem_nil⟩, fun v => rfl,
    fun _ _ => rfl⟩
  show false = true ↔ p < 0
  simp

/-- Nothing that is dereferenced is destroyed. -/
theorem HeldInv.live (inv : HeldInv s) : HeldLive s := by
  obtain ⟨lists, owned⟩ := inv.life.owned
  have known := inv.life.balancer
  intro v touches
  cases touches with
  | popped idle orphans first =>
    exact (owned.live_of_ring (o := .orphans) trivial List.mem_cons_self first).2
  | behind w idle orphans first second =>
    have member := (owned.live_of_ring (o := .orphans) trivial List.mem_cons_self first).1
    exact (owned.live_of_ring (o := .orphans) trivial (vaccel_mem_ring.mpr member) second).2
  | balancer has => exact (known.idle has).1
  | unlinked w accel remove linked neighbour =>
    rw [remove] at known
    have unlinked := known.1.2.2
    rw [VaqState.unlinked, linked] at unlinked
    cases unlinked
  | before w accel link first =>
    rw [link] at known
    exact (owned.live_of_ring (o := .accel accel) known.2 List.mem_cons_self first).2
  | snapshot accel vacs inside update array member =>
    have present := (inv.life.accels accel).mpr inside
    rw [assignedVaccels_eq owned present] at array
    cases array
    exact owned.live (.accel accel) present v member
  | pop accel position rest inside select =>
    have may := inv.life.workers accel
    rw [select] at may
    exact (may v List.mem_cons_self).1
  | drop accel task m inside drop found last vaq =>
    subst vaq
    have refers : m.accel ∈ ownTask s.tasks task := by
      rw [ownTask_some found]
      exact Multiset.mem_singleton_self m.accel
    exact (inv.life.alive m.accel (inv.count.referenced refers)).1
  | destroy accel inside destroy running =>
    obtain ⟨place, running⟩ := Option.ne_none_iff_exists'.mp running
    exact (inv.life.dying v place running).1

end Steps

/-- **What the controller dereferences is not destroyed.** In every run of clients, destructors, the
balancer and the workers whose steps meet the condition, in every state: a VAQ that the next step of
the balancer or of a worker reads or writes is not destroyed. -/
theorem held_vaqs_live (capacity : Nat) (memory : VaqState) (moves : List HeldMove) (s : HeldState)
    (guarded : Guarded (heldStep capacity) HeldGuard (heldStart memory) moves)
    (run : exec (heldStep capacity) (heldStart memory) moves = some s) : HeldLive s :=
  (exec_guarded (fun _ _ _ inv guard step => heldStep_inv inv guard step) (heldStart_inv memory)
    guarded run).live

/-- Memory before `arax_pipe_init`. -/
def someMemory : VaqState where
  lists := { links := { next := fun _ => .head .orphans, prev := fun _ => .head .orphans }
             length := fun _ => 5 }
  accels := fun _ => true
  vaccels := fun _ => true
  phys := fun _ => some 3
  revision := fun _ => 9

/-- A client issues a task to a VAQ that the balancer has assigned, waits for it, frees it and
releases the VAQ. -/
def servedMoves : List HeldMove :=
  [.accelInit, .acquire none, .balancer 0, .balancer 0, .balancer 0, .balancer 0, .balancer 0,
    .issue 1, .addTask 0, .client 1, .client 1, .worker 0, .worker 0, .worker 0, .worker 0,
    .worker 0, .worker 0, .free 0, .worker 0, .release 1, .dtor 1, .dtor 1, .dtor 1]

theorem held_vaqs_live_at_served :
    ∃ s, exec (heldStep 256) (heldStart someMemory) servedMoves = some s ∧
      s.vaqs.vaccels 1 = false ∧ HeldLive s := by
  have view : (exec (heldStep 256) (heldStart someMemory) servedMoves).map
      (fun s => s.vaqs.vaccels 1) = some false := by
    decide +kernel
  obtain ⟨s, run, freed⟩ := Option.map_eq_some_iff.mp view
  exact ⟨s, run, freed, held_vaqs_live 256 someMemory servedMoves s (by decide +kernel) run⟩

/-- **A VAQ that is used after it was destroyed.** The balancer takes an orphan, and its client
releases it before the balancer looks at it. -/
theorem held_vaq_freed :
    ¬∀ (capacity : Nat) (memory : VaqState) (moves : List HeldMove) (s : HeldState),
      exec (heldStep capacity) (heldStart memory) moves = some s → HeldLive s := by
  intro claimed
  have view : (exec (heldStep 256) (heldStart someMemory) [.accelInit, .acquire none, .balancer 0,
      .release 1, .dtor 1, .dtor 1, .dtor 1]).map (fun s => (s.balancer.vac, s.vaqs.vaccels 1)) =
        some (some 1, false) := by
    decide +kernel
  obtain ⟨s, run, ends⟩ := Option.map_eq_some_iff.mp view
  obtain ⟨has, freed⟩ := Prod.mk.inj ends
  have live := claimed _ _ _ s run 1 (.balancer has)
  rw [freed] at live
  cases live

end Arax.Core.Ownership
