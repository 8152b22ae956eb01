/-
**The pending-task counter of a physical accelerator (`src/core/arax_accel.c`).**

`accel->tasks` wakes the worker of an accelerator. Four parties change it: clients push a task on a
virtual accelerator (VAQ) and then count it; the worker takes one from the counter, takes a snapshot
of the assigned VAQs and pops at most one task from them; a balancer assigns a VAQ, adding its queue
size, and removes one, subtracting one less than its queue size.

The counter is an integer here, so a wrap of the `size_t` below zero is a negative value. Queues are
their lengths. A client holds the lock of its VAQ from the push to the count, so there is at most
one of them for each VAQ (`midway`), and the balancer holds the locks of the VAQ and of the
accelerator from its read of the queue size to its update of the counter, so only pushes on other
VAQs and pops come between.

* `LedgerInv` — every queued task of an assigned VAQ is covered by the counter, by the worker's
  unused decrement, or by a client that has yet to count it.
* `pending_tasks_covered` — in every run that meets `LedgerGuard` the counter does not wrap, and a
  zero counter without work in progress means empty queues.
* `pending_tasks_fail` — two runs without the condition: the counter wraps, and a wake-up is lost.
-/

import Mathlib.Algebra.BigOperators.Intervals
import Mathlib.Algebra.Order.BigOperators.Group.Finset
import Mathlib.Tactic.SplitIfs
import Arax.Lib.Run

namespace Arax.Core

open Arax.Lib

/-- Where the worker is in its loop. -/
inductive WorkerPhase where
  /-- Before `arax_accel_wait_for_task`. -/
  | idle
  /-- The counter was decremented, the snapshot comes next. -/
  | waited
  /-- `selectTask`, with the VAQs of the snapshot it has not looked at yet. -/
  | scanning (rest : List Nat)
  deriving DecidableEq

/-- Where the balancer is. -/
inductive BalancerPhase where
  | idle
  /-- `arax_accel_add_vaccel` has read the queue size of the VAQ. -/
  | adding (vaccel tasks : Nat)
  /-- `arax_accel_del_vaccel` has read the queue size of the VAQ. -/
  | removing (vaccel tasks : Nat)
  deriving DecidableEq

/-- An accelerator, its VAQs, and the parties. -/
structure PendingState where
  /-- `accel->tasks`. -/
  tasks : Int
  /-- The length of the queue of a VAQ. -/
  queue : Nat → Nat
  /-- `accel->vaccels`; these are the VAQs whose `phys` is the accelerator. -/
  assigned : Finset Nat
  /-- A client of the VAQ is between its push and its count. -/
  midway : Nat → Bool
  /-- The VAQ had tasks when it was last removed. -/
  lent : Nat → Bool
  worker : WorkerPhase
  balancer : BalancerPhase

/-- `arax_accel_init`: no VAQ is assigned. -/
def pendingInit : PendingState where
  tasks := 0
  queue := fun _ => 0
  assigned := ∅
  midway := fun _ => false
  lent := fun _ => false
  worker := .idle
  balancer := .idle

/-- The VAQ whose lock the balancer holds. -/
def BalancerPhase.locks : BalancerPhase → Nat → Bool
  | .idle, _ => false
  | .adding held _, vaccel => held == vaccel
  | .removing held _, vaccel => held == vaccel

/-- The steps of the parties. -/
inductive PendingMove where
  /-- `utils_queue_push` in `arax_vaccel_add_task`. -/
  | push (vaccel : Nat)
  /-- `arax_accel_add_task`. -/
  | count (vaccel : Nat)
  /-- `arax_accel_wait_for_task`. -/
  | wait
  /-- `arax_accel_get_assigned_vaccels`, and the order in which the scheduler looks at the VAQs. -/
  | snapshot (order : List Nat)
  /-- `utils_queue_pop` of the next VAQ of the snapshot. -/
  | visit
  /-- `arax_accel_add_vaccel` up to its read of the queue size. -/
  | add (vaccel : Nat)
  /-- `arax_accel_del_vaccel` up to its read of the queue size. -/
  | del (vaccel : Nat)
  /-- The rest of `arax_accel_add_vaccel` or `arax_accel_del_vaccel`. -/
  | update
  deriving DecidableEq

/-- `arax_vaccel_add_task`: lock and push. Without `phys` there is nothing to count. -/
def pushTask (s : PendingState) (vaccel : Nat) : PendingState :=
  { s with
    queue := Function.update s.queue vaccel (s.queue vaccel + 1)
    midway := Function.update s.midway vaccel (decide (vaccel ∈ s.assigned)) }

/-- `arax_accel_add_task`. -/
def countTask (s : PendingState) (vaccel : Nat) : PendingState :=
  { s with tasks := s.tasks + 1, midway := Function.update s.midway vaccel false }

/-- One look of `selectTask` at a VAQ of the snapshot. -/
def visitVaccel (s : PendingState) : WorkerPhase → Option PendingState
  | .scanning [] => some { s with worker := .idle }
  | .scanning (vaccel :: rest) =>
    some (if s.queue vaccel = 0 then { s with worker := .scanning rest }
      else { s with
        queue := Function.update s.queue vaccel (s.queue vaccel - 1), worker := .idle })
  | _ => none

/-- The counter update of the balancer. -/
def updateCounter (s : PendingState) : BalancerPhase → Option PendingState
  | .idle => none
  | .adding vaccel tasks =>
    some { s with
      tasks := if tasks ≠ 0 then s.tasks + tasks else s.tasks
      assigned := insert vaccel s.assigned, balancer := .idle }
  | .removing vaccel tasks =>
    some { s with
      tasks := if tasks ≠ 0 then s.tasks - (tasks - 1) else s.tasks
      assigned := s.assigned.erase vaccel
      lent := Function.update s.lent vaccel (decide (tasks ≠ 0)), balancer := .idle }

/-- One step; `none` while a lock is held, the counter is zero or the queue is full. -/
def pendingStep (capacity : Nat) (s : PendingState) : PendingMove → Option PendingState
  | .push vaccel =>
    if s.balancer.locks vaccel = false ∧ s.midway vaccel = false ∧ s.queue vaccel < capacity then
      some (pushTask s vaccel)
    else none
  | .count vaccel =>
    if s.midway vaccel = true ∧ s.balancer = .idle then some (countTask s vaccel) else none
  | .wait =>
    if s.worker = .idle ∧ s.balancer = .idle ∧ s.tasks ≠ 0 then
      some { s with tasks := s.tasks - 1, worker := .waited }
    else none
  | .snapshot order =>
    if s.worker = .waited ∧ s.balancer = .idle ∧ order.Nodup ∧ order.toFinset = s.assigned then
      some { s with worker := .scanning order }
    else none
  | .visit => visitVaccel s s.worker
  | .add vaccel =>
    if s.balancer = .idle ∧ vaccel ∉ s.assigned ∧ s.midway vaccel = false then
      some { s with balancer := .adding vaccel (s.queue vaccel) }
    else none
  | .del vaccel =>
    if s.balancer = .idle ∧ vaccel ∈ s.assigned ∧ s.midway vaccel = false then
      some { s with balancer := .removing vaccel (s.queue vaccel) }
    else none
  | .update => updateCounter s s.balancer

/-- The decrements of the worker that it has not used for a pop yet. -/
def WorkerPhase.unused : WorkerPhase → Nat
  | .idle => 0
  | .waited | .scanning _ => 1

/-- The counter has not wrapped, and if it is zero, the worker holds no unused decrement and no
client is between push and count (only tasks of assigned VAQs are counted), then every assigned VAQ
is empty. -/
structure TasksCovered (s : PendingState) : Prop where
  noWrap : 0 ≤ s.tasks
  covered : s.tasks = 0 → s.worker.unused = 0 →
    (∀ vaccel ∈ s.assigned, s.midway vaccel = false) → ∀ vaccel ∈ s.assigned, s.queue vaccel = 0

/-- The queued tasks of the VAQs that are counted already: one less than the queue for each client
between push and count. -/
def counted (s : PendingState) (vaccel : Nat) : Int :=
  s.queue vaccel - if s.midway vaccel then 1 else 0

/-- The condition on a step. At the removal of a VAQ that had tasks, the unused decrement, the
uncounted pushes on the other VAQs and a pop since the size was read exceed the tasks queued on the
other VAQs by at most one; and a VAQ that is popped through a stale snapshot had tasks when it was
removed. -/
def LedgerGuard (s : PendingState) : PendingMove → Prop
  | .update =>
    match s.balancer with
    | .removing vaccel tasks => tasks ≠ 0 →
        (s.worker.unused : Int) + (tasks - s.queue vaccel) ≤
          1 + ∑ other ∈ s.assigned.erase vaccel, counted s other
    | _ => True
  | .visit =>
    match s.worker with
    | .scanning (vaccel :: _) => s.queue vaccel ≠ 0 → vaccel ∉ s.assigned → s.lent vaccel = true
    | _ => True
  | _ => True

instance (s : PendingState) : ∀ act, Decidable (LedgerGuard s act)
  | .update =>
    match phase : s.balancer with
    | .removing vaccel tasks => decidable_of_iff (tasks ≠ 0 →
        (s.worker.unused : Int) + (tasks - s.queue vaccel) ≤
          1 + ∑ other ∈ s.assigned.erase vaccel, counted s other)
        (by simp only [LedgerGuard, phase])
    | .idle => isTrue (by simp only [LedgerGuard, phase])
    | .adding _ _ => isTrue (by simp only [LedgerGuard, phase])
  | .visit =>
    match phase : s.worker with
    | .scanning (vaccel :: _) => decidable_of_iff
        (s.queue vaccel ≠ 0 → vaccel ∉ s.assigned → s.lent vaccel = true)
        (by simp only [LedgerGuard, phase])
    | .scanning [] => isTrue (by simp only [LedgerGuard, phase])
    | .idle => isTrue (by simp only [LedgerGuard, phase])
    | .waited => isTrue (by simp only [LedgerGuard, phase])
  | .push _ | .count _ | .wait | .snapshot _ | .add _ | .del _ => isTrue trivial

/-! ### The ledger -/

/-- The counted tasks of a set of VAQs. -/
def backlog (s : PendingState) (vaccels : Finset Nat) : Int := ∑ vaccel ∈ vaccels, counted s vaccel

/-- What the balancer knows: the size it read is the size of the queue, unless the worker has popped
since. -/
def BalancerInv (s : PendingState) : BalancerPhase → Prop
  | .idle => True
  | .adding vaccel tasks => vaccel ∉ s.assigned ∧ s.midway vaccel = false ∧
      (tasks = s.queue vaccel ∨ (tasks = s.queue vaccel + 1 ∧ s.worker = .idle))
  | .removing vaccel tasks => vaccel ∈ s.assigned ∧ s.midway vaccel = false ∧
      (tasks = s.queue vaccel ∨ (tasks = s.queue vaccel + 1 ∧ s.worker = .idle))

/-- The ledger of the counter. The unused decrement covers one task. A scan that finds the rest of
its snapshot empty does not need it, and neither does a pop from a VAQ that had tasks when it was
removed during the scan. -/
structure LedgerInv (s : PendingState) : Prop where
  noWrap : 0 ≤ s.tasks
  ledger : backlog s s.assigned ≤ s.tasks + s.worker.unused
  scan : ∀ rest, s.worker = .scanning rest → (∀ vaccel ∈ rest, s.queue vaccel = 0) →
    backlog s (s.assigned \ rest.toFinset) ≤ s.tasks
  stale : ∀ rest vaccel, s.worker = .scanning rest → vaccel ∈ rest → vaccel ∉ s.assigned →
    s.lent vaccel = true → backlog s s.assigned ≤ s.tasks
  midway : ∀ vaccel, s.midway vaccel = true → vaccel ∈ s.assigned
  balancer : BalancerInv s s.balancer

theorem pendingInit_inv : LedgerInv pendingInit where
  noWrap := le_rfl
  ledger := le_rfl
  scan := fun _ scanning => by cases scanning
  stale := fun _ _ scanning => by cases scanning
  midway := fun _ midway => by cases midway
  balancer := trivial

/-- The ledger after one VAQ gained `c` counted tasks. -/
theorem backlog_of_gain {s t : PendingState} {vaccel : Nat} {c : Int}
    (gain : ∀ other, counted t other = counted s other + if other = vaccel then c else 0)
    (vaccels : Finset Nat) :
    backlog t vaccels = backlog s vaccels + if vaccel ∈ vaccels then c else 0 := by
  unfold backlog
  rw [Finset.sum_congr rfl fun other _ => gain other, Finset.sum_add_distrib,
    Finset.sum_ite_eq']

/-- The ledger depends only on the queues and the clients of the VAQs. -/
theorem backlog_congr {s t : PendingState} {vaccels : Finset Nat}
    (same : ∀ vaccel ∈ vaccels, counted t vaccel = counted s vaccel) :
    backlog t vaccels = backlog s vaccels := Finset.sum_congr rfl same

theorem counted_of_empty {s : PendingState} {vaccel : Nat} (empty : s.queue vaccel = 0) :
    counted s vaccel ≤ 0 := by
  unfold counted
  rw [empty]
  split_ifs <;> decide

/-! ### The clients -/

theorem counted_pushTask {s : PendingState} {vaccel : Nat} (free : s.midway vaccel = false)
    {other : Nat} (member : other ∈ s.assigned) :
    counted (pushTask s vaccel) other = counted s other := by
  unfold counted pushTask
  by_cases same : other = vaccel
  · subst same
    simp [free, member]
  · simp [Function.update_of_ne same]

theorem LedgerInv.push {s : PendingState} {vaccel : Nat} (inv : LedgerInv s)
    (unlocked : s.balancer.locks vaccel = false) (free : s.midway vaccel = false) :
    LedgerInv (pushTask s vaccel) := by
  have same : ∀ vaccels, vaccels ⊆ s.assigned →
      backlog (pushTask s vaccel) vaccels = backlog s vaccels := fun vaccels inside =>
    backlog_congr fun other member => counted_pushTask free (inside member)
  refine ⟨inv.noWrap, ?_, fun rest scanning empty => ?_,
    fun rest stale scanning member out lent => ?_, fun other midway => ?_, ?_⟩
  · exact (same _ le_rfl).trans_le inv.ledger
  · refine (same _ Finset.sdiff_subset).trans_le (inv.scan rest scanning fun other member => ?_)
    have zero : Function.update s.queue vaccel (s.queue vaccel + 1) other = 0 := empty other member
    by_cases here : other = vaccel
    · rw [here, Function.update_self] at zero
      cases zero
    · rwa [Function.update_of_ne here] at zero
  · exact (same _ le_rfl).trans_le (inv.stale rest stale scanning member out lent)
  · by_cases here : other = vaccel
    · have assigned : Function.update s.midway vaccel (decide (vaccel ∈ s.assigned)) other = true :=
        midway
      rw [here, Function.update_self, decide_eq_true_eq] at assigned
      exact here ▸ assigned
    · refine inv.midway other ?_
      have before : Function.update s.midway vaccel (decide (vaccel ∈ s.assigned)) other = true :=
        midway
      rwa [Function.update_of_ne here] at before
  · have known := inv.balancer
    show BalancerInv (pushTask s vaccel) s.balancer
    revert known unlocked
    cases s.balancer with
    | idle => exact fun _ _ => trivial
    | adding held tasks =>
      intro unlocked known
      have apart : held ≠ vaccel := beq_eq_false_iff_ne.mp unlocked
      simpa [BalancerInv, pushTask, Function.update_of_ne apart] using known
    | removing held tasks =>
      intro unlocked known
      have apart : held ≠ vaccel := beq_eq_false_iff_ne.mp unlocked
      simpa [BalancerInv, pushTask, Function.update_of_ne apart] using known

theorem LedgerInv.count {s : PendingState} {vaccel : Nat} (inv : LedgerInv s)
    (midway : s.midway vaccel = true) (free : s.balancer = .idle) :
    LedgerInv (countTask s vaccel) := by
  have gain : ∀ other, counted (countTask s vaccel) other =
      counted s other + if other = vaccel then 1 else 0 := by
    intro other
    unfold counted countTask
    by_cases same : other = vaccel
    · subst same
      simp [midway]
    · simp [same]
  have grows : ∀ vaccels, backlog (countTask s vaccel) vaccels ≤ backlog s vaccels + 1 := by
    intro vaccels
    rw [backlog_of_gain gain]
    split_ifs
    · exact le_rfl
    · omega
  refine ⟨?_, ?_, fun rest scanning empty => ?_, fun rest stale scanning member out lent => ?_,
    fun other still => ?_, ?_⟩
  · exact inv.noWrap.trans (Int.le_add_one le_rfl)
  · have before := inv.ledger
    have after := grows s.assigned
    show backlog (countTask s vaccel) s.assigned ≤ s.tasks + 1 + s.worker.unused
    omega
  · exact (grows _).trans (Int.add_le_add_right (inv.scan rest scanning empty) 1)
  · exact (grows _).trans
      (Int.add_le_add_right (inv.stale rest stale scanning member out lent) 1)
  · refine inv.midway other ?_
    have before : Function.update s.midway vaccel false other = true := still
    by_cases here : other = vaccel
    · rw [here, Function.update_self] at before
      cases before
    · rwa [Function.update_of_ne here] at before
  · show BalancerInv (countTask s vaccel) s.balancer
    rw [free]
    trivial

/-! ### The worker -/

theorem LedgerInv.wait {s : PendingState} (inv : LedgerInv s) (resting : s.worker = .idle)
    (free : s.balancer = .idle) (some : s.tasks ≠ 0) :
    LedgerInv { s with tasks := s.tasks - 1, worker := .waited } := by
  have before := inv.ledger
  rw [resting] at before
  refine ⟨?_, ?_, fun rest scanning => ?_, fun rest stale scanning => ?_, inv.midway, ?_⟩
  · exact Int.le_sub_one_of_lt (lt_of_le_of_ne inv.noWrap some.symm)
  · show backlog s s.assigned ≤ s.tasks - 1 + (1 : Nat)
    exact before.trans (by simp [WorkerPhase.unused])
  · cases scanning
  · cases scanning
  · show BalancerInv _ s.balancer
    rw [free]
    trivial

theorem LedgerInv.snapshot {s : PendingState} {order : List Nat} (inv : LedgerInv s)
    (waited : s.worker = .waited) (free : s.balancer = .idle)
    (whole : order.toFinset = s.assigned) :
    LedgerInv { s with worker := .scanning order } := by
  have before := inv.ledger
  rw [waited] at before
  refine ⟨inv.noWrap, before, fun rest scanning _ => ?_,
    fun rest stale scanning member out => ?_, inv.midway, ?_⟩
  · cases scanning
    show backlog s (s.assigned \ order.toFinset) ≤ s.tasks
    rw [whole, Finset.sdiff_self]
    exact inv.noWrap
  · cases scanning
    exact absurd (whole ▸ List.mem_toFinset.mpr member) out
  · show BalancerInv _ s.balancer
    rw [free]
    trivial

/-- A step of the worker that does not pop keeps what the balancer knows. -/
theorem BalancerInv.frame {s t : PendingState} {phase : BalancerPhase}
    (known : BalancerInv s phase) (queue : t.queue = s.queue) (assigned : t.assigned = s.assigned)
    (midway : t.midway = s.midway) (busy : s.worker ≠ .idle) : BalancerInv t phase := by
  cases phase with
  | idle => trivial
  | adding vaccel tasks =>
    obtain ⟨out, free, size | ⟨_, resting⟩⟩ := known
    · exact ⟨assigned ▸ out, midway ▸ free, Or.inl (queue ▸ size)⟩
    · exact absurd resting busy
  | removing vaccel tasks =>
    obtain ⟨inside, free, size | ⟨_, resting⟩⟩ := known
    · exact ⟨assigned ▸ inside, midway ▸ free, Or.inl (queue ▸ size)⟩
    · exact absurd resting busy

/-- A VAQ found empty. -/
theorem LedgerInv.visitEmpty {s : PendingState} {vaccel : Nat} {rest : List Nat} (inv : LedgerInv s)
    (scanning : s.worker = .scanning (vaccel :: rest)) (empty : s.queue vaccel = 0) :
    LedgerInv { s with worker := .scanning rest } := by
  have before := inv.ledger
  rw [scanning] at before
  refine ⟨inv.noWrap, before, fun others same all => ?_,
    fun others stale same member out lent => ?_, inv.midway, ?_⟩
  · cases same
    have smaller := inv.scan _ scanning fun other member => by
      rcases List.mem_cons.mp member with rfl | inner
      · exact empty
      · exact all other inner
    rw [List.toFinset_cons] at smaller
    refine le_trans ?_ smaller
    show backlog s (s.assigned \ rest.toFinset) ≤
      backlog s (s.assigned \ insert vaccel rest.toFinset)
    rw [Finset.sdiff_insert]
    by_cases member : vaccel ∈ s.assigned \ rest.toFinset
    · have parts : backlog s (s.assigned \ rest.toFinset) =
          counted s vaccel + backlog s ((s.assigned \ rest.toFinset).erase vaccel) :=
        (Finset.add_sum_erase _ _ member).symm
      have negative := counted_of_empty empty
      omega
    · rw [Finset.erase_eq_of_notMem member]
  · cases same
    exact inv.stale _ stale scanning (List.mem_cons_of_mem _ member) out lent
  · exact inv.balancer.frame rfl rfl rfl (by rw [scanning]; nofun)

/-- The end of a scan that found nothing: the decrement is dropped. -/
theorem LedgerInv.visitEnd {s : PendingState} (inv : LedgerInv s)
    (scanning : s.worker = .scanning []) : LedgerInv { s with worker := .idle } := by
  have enough := inv.scan [] scanning fun other member => absurd member List.not_mem_nil
  rw [List.toFinset_nil, Finset.sdiff_empty] at enough
  refine ⟨inv.noWrap, ?_, fun rest same => ?_, fun rest stale same => ?_, inv.midway, ?_⟩
  · show backlog s s.assigned ≤ s.tasks + (0 : Nat)
    simpa using enough
  · cases same
  · cases same
  · exact inv.balancer.frame rfl rfl rfl (by rw [scanning]; nofun)

/-- A pop. It takes a task from an assigned VAQ, or from one that had tasks when it was removed. -/
theorem LedgerInv.visitPop {s : PendingState} {vaccel : Nat} {rest : List Nat} (inv : LedgerInv s)
    (scanning : s.worker = .scanning (vaccel :: rest)) (filled : s.queue vaccel ≠ 0)
    (lent : vaccel ∉ s.assigned → s.lent vaccel = true) :
    LedgerInv { s with
      queue := Function.update s.queue vaccel (s.queue vaccel - 1), worker := .idle } := by
  have gain : ∀ other, counted { s with
      queue := Function.update s.queue vaccel (s.queue vaccel - 1), worker := .idle } other =
        counted s other + if other = vaccel then -1 else 0 := by
    intro other
    unfold counted
    by_cases same : other = vaccel
    · subst same
      simp only [Function.update_self, if_true]
      omega
    · simp [same]
  refine ⟨inv.noWrap, ?_, fun rest same => ?_, fun rest stale same => ?_, inv.midway, ?_⟩
  · rw [backlog_of_gain gain]
    show backlog s s.assigned + _ ≤ s.tasks + (0 : Nat)
    split_ifs with member
    · have before := inv.ledger
      rw [scanning] at before
      simp only [WorkerPhase.unused] at before
      omega
    · have enough := inv.stale _ vaccel scanning List.mem_cons_self member (lent member)
      omega
  · cases same
  · cases same
  · have known := inv.balancer
    have busy : s.worker ≠ .idle := by rw [scanning]; nofun
    have size : ∀ held tasks,
        (tasks = s.queue held ∨ (tasks = s.queue held + 1 ∧ s.worker = .idle)) →
        tasks = Function.update s.queue vaccel (s.queue vaccel - 1) held ∨
          (tasks = Function.update s.queue vaccel (s.queue vaccel - 1) held + 1 ∧
            WorkerPhase.idle = .idle) := by
      rintro held tasks (read | ⟨_, resting⟩)
      · by_cases same : held = vaccel
        · subst same
          rw [Function.update_self]
          exact Or.inr ⟨by omega, rfl⟩
        · rw [Function.update_of_ne same]
          exact Or.inl read
      · exact absurd resting busy
    show BalancerInv _ s.balancer
    revert known
    cases s.balancer with
    | idle => exact fun _ => trivial
    | adding held tasks => exact fun known => ⟨known.1, known.2.1, size held tasks known.2.2⟩
    | removing held tasks => exact fun known => ⟨known.1, known.2.1, size held tasks known.2.2⟩

/-! ### The balancer -/

theorem LedgerInv.read {s : PendingState} {phase : BalancerPhase} (inv : LedgerInv s)
    (known : BalancerInv { s with balancer := phase } phase) :
    LedgerInv { s with balancer := phase } :=
  ⟨inv.noWrap, inv.ledger, inv.scan, inv.stale, inv.midway, known⟩

theorem counted_of_free {s : PendingState} {vaccel : Nat} (free : s.midway vaccel = false) :
    counted s vaccel = s.queue vaccel := by
  unfold counted
  rw [free]
  simp

/-- While the worker scans, the size the balancer read is exact. -/
theorem exact_of_scanning {s : PendingState} {vaccel tasks : Nat} {rest : List Nat}
    (scanning : s.worker = .scanning rest)
    (size : tasks = s.queue vaccel ∨ (tasks = s.queue vaccel + 1 ∧ s.worker = .idle)) :
    tasks = s.queue vaccel := by
  rcases size with read | ⟨_, resting⟩
  · exact read
  · rw [scanning] at resting
    cases resting

theorem LedgerInv.added {s : PendingState} {vaccel tasks : Nat} (inv : LedgerInv s)
    (phase : s.balancer = .adding vaccel tasks) :
    LedgerInv { s with
      tasks := if tasks ≠ 0 then s.tasks + tasks else s.tasks
      assigned := insert vaccel s.assigned, balancer := .idle } := by
  have known := inv.balancer
  rw [phase] at known
  obtain ⟨out, free, size⟩ := known
  have sum : (if tasks ≠ 0 then s.tasks + tasks else s.tasks) = s.tasks + tasks := by
    split_ifs with some
    · rfl
    · simp [not_not.mp some]
  rw [sum]
  have all : backlog s (insert vaccel s.assigned) = s.queue vaccel + backlog s s.assigned := by
    rw [← counted_of_free free]
    exact Finset.sum_insert out
  refine ⟨?_, ?_, fun rest scanning empty => ?_, fun rest stale scanning member notIn lent => ?_,
    fun other midway => Finset.mem_insert_of_mem (inv.midway other midway), trivial⟩
  · exact Int.add_nonneg inv.noWrap (Int.natCast_nonneg _)
  · have before := inv.ledger
    show backlog s (insert vaccel s.assigned) ≤ s.tasks + tasks + s.worker.unused
    omega
  · have exact : tasks = s.queue vaccel := exact_of_scanning scanning size
    have before := inv.scan rest scanning empty
    show backlog s (insert vaccel s.assigned \ rest.toFinset) ≤ s.tasks + tasks
    by_cases member : vaccel ∈ rest.toFinset
    · rw [Finset.insert_sdiff_of_mem _ member]
      omega
    · have parts : backlog s (insert vaccel s.assigned \ rest.toFinset) =
          counted s vaccel + backlog s (s.assigned \ rest.toFinset) := by
        rw [Finset.insert_sdiff_of_notMem _ member]
        exact Finset.sum_insert fun inner => out (Finset.mem_sdiff.mp inner).1
      rw [parts, counted_of_free free]
      omega
  · have exact : tasks = s.queue vaccel := exact_of_scanning scanning size
    have before := inv.stale rest stale scanning member
      (fun inside => notIn (Finset.mem_insert_of_mem inside)) lent
    show backlog s (insert vaccel s.assigned) ≤ s.tasks + tasks
    omega

/-- The removal of a VAQ. With tasks in its queue, the subtraction leaves one more than these tasks
need, and that covers a pop through a stale snapshot. -/
theorem LedgerInv.removed {s : PendingState} {vaccel tasks : Nat} (inv : LedgerInv s)
    (phase : s.balancer = .removing vaccel tasks) (guard : LedgerGuard s .update) :
    LedgerInv { s with
      tasks := if tasks ≠ 0 then s.tasks - (tasks - 1) else s.tasks
      assigned := s.assigned.erase vaccel
      lent := Function.update s.lent vaccel (decide (tasks ≠ 0)), balancer := .idle } := by
  have known := inv.balancer
  rw [phase] at known
  obtain ⟨inside, free, size⟩ := known
  have before := inv.ledger
  have all : backlog s s.assigned = s.queue vaccel + backlog s (s.assigned.erase vaccel) := by
    rw [← counted_of_free free]
    exact (Finset.add_sum_erase _ _ inside).symm
  refine ⟨?_, ?_, fun rest scanning empty => ?_, fun rest stale scanning member notIn lent => ?_,
    fun other midway => ?_, trivial⟩
  · show 0 ≤ if tasks ≠ 0 then s.tasks - (tasks - 1) else s.tasks
    split_ifs with some
    · simp only [LedgerGuard, phase] at guard
      have margin : (s.worker.unused : Int) + (tasks - s.queue vaccel) ≤
        1 + backlog s (s.assigned.erase vaccel) := guard some
      omega
    · exact inv.noWrap
  · show backlog s (s.assigned.erase vaccel) ≤
      (if tasks ≠ 0 then s.tasks - (tasks - 1) else s.tasks) + s.worker.unused
    split_ifs <;> omega
  · have exact : tasks = s.queue vaccel := exact_of_scanning scanning size
    have enough := inv.scan rest scanning empty
    show backlog s (s.assigned.erase vaccel \ rest.toFinset) ≤
      if tasks ≠ 0 then s.tasks - (tasks - 1) else s.tasks
    rw [Finset.erase_sdiff_comm]
    by_cases member : vaccel ∈ rest.toFinset
    · have zero : s.queue vaccel = 0 := empty vaccel (List.mem_toFinset.mp member)
      rw [Finset.erase_eq_of_notMem fun inner => (Finset.mem_sdiff.mp inner).2 member]
      split_ifs <;> omega
    · have parts : backlog s (s.assigned \ rest.toFinset) =
          counted s vaccel + backlog s ((s.assigned \ rest.toFinset).erase vaccel) :=
        (Finset.add_sum_erase _ _ (Finset.mem_sdiff.mpr ⟨inside, member⟩)).symm
      rw [counted_of_free free] at parts
      split_ifs <;> omega
  · have exact : tasks = s.queue vaccel := exact_of_scanning scanning size
    show backlog s (s.assigned.erase vaccel) ≤
      if tasks ≠ 0 then s.tasks - (tasks - 1) else s.tasks
    have unused : s.worker.unused = 1 := by rw [scanning]; rfl
    by_cases same : stale = vaccel
    · have some : Function.update s.lent vaccel (decide (tasks ≠ 0)) stale = true := lent
      rw [same, Function.update_self, decide_eq_true_eq] at some
      rw [if_pos some]
      omega
    · have flag : Function.update s.lent vaccel (decide (tasks ≠ 0)) stale = true := lent
      rw [Function.update_of_ne same] at flag
      have enough := inv.stale rest stale scanning member
        (fun inner => notIn (Finset.mem_erase.mpr ⟨same, inner⟩)) flag
      split_ifs <;> omega
  · refine Finset.mem_erase.mpr ⟨fun same => ?_, inv.midway other midway⟩
    have taken : s.midway other = true := midway
    rw [same, free] at taken
    cases taken

/-! ### Whole runs -/

/-- **One step keeps the ledger.** -/
theorem pendingStep_inv {capacity : Nat} {s t : PendingState} {act : PendingMove}
    (inv : LedgerInv s) (guard : LedgerGuard s act) (step : pendingStep capacity s act = some t) :
    LedgerInv t := by
  cases act with
  | push vaccel =>
    simp only [pendingStep] at step
    split_ifs at step with enabled
    cases step
    exact inv.push enabled.1 enabled.2.1
  | count vaccel =>
    simp only [pendingStep] at step
    split_ifs at step with enabled
    cases step
    exact inv.count enabled.1 enabled.2
  | wait =>
    simp only [pendingStep] at step
    split_ifs at step with enabled
    cases step
    exact inv.wait enabled.1 enabled.2.1 enabled.2.2
  | snapshot order =>
    simp only [pendingStep] at step
    split_ifs at step with enabled
    cases step
    exact inv.snapshot enabled.1 enabled.2.1 enabled.2.2.2
  | visit =>
    simp only [pendingStep] at step
    cases phase : s.worker with
    | idle =>
      rw [phase] at step
      cases step
    | waited =>
      rw [phase] at step
      cases step
    | scanning rest =>
      cases rest with
      | nil =>
        rw [phase] at step
        cases step
        exact inv.visitEnd phase
      | cons vaccel rest =>
        rw [phase] at step
        simp only [LedgerGuard, phase] at guard
        cases step
        split_ifs with empty
        · exact inv.visitEmpty phase empty
        · exact inv.visitPop phase empty (guard empty)
  | add vaccel =>
    simp only [pendingStep] at step
    split_ifs at step with enabled
    cases step
    exact inv.read ⟨enabled.2.1, enabled.2.2, Or.inl rfl⟩
  | del vaccel =>
    simp only [pendingStep] at step
    split_ifs at step with enabled
    cases step
    exact inv.read ⟨enabled.2.1, enabled.2.2, Or.inl rfl⟩
  | update =>
    simp only [pendingStep] at step
    cases phase : s.balancer with
    | idle =>
      rw [phase] at step
      cases step
    | adding vaccel tasks =>
      rw [phase] at step
      cases step
      exact inv.added phase
    | removing vaccel tasks =>
      rw [phase] at step
      cases step
      exact inv.removed phase guard

/-- A balanced ledger: a zero counter and no work in progress leave no task behind. -/
theorem LedgerInv.covered {s : PendingState} (inv : LedgerInv s) : TasksCovered s := by
  refine ⟨inv.noWrap, fun zero resting settled vaccel member => ?_⟩
  have ledger := inv.ledger
  rw [zero, resting] at ledger
  have total : backlog s s.assigned = ∑ other ∈ s.assigned, (s.queue other : Int) :=
    Finset.sum_congr rfl fun other inside => counted_of_free (settled other inside)
  have single : (s.queue vaccel : Int) ≤ ∑ other ∈ s.assigned, (s.queue other : Int) :=
    Finset.single_le_sum (fun other _ => Int.natCast_nonneg (s.queue other)) member
  omega

/-- **The pending-task counter.** In every interleaving of clients, worker and balancer whose steps
meet `LedgerGuard`, the counter does not wrap below zero, and whenever it is zero, the worker holds
no unused decrement and no client is between push and count, every assigned VAQ is empty. -/
theorem pending_tasks_covered (capacity : Nat) (acts : List PendingMove) (s : PendingState)
    (guarded : Guarded (pendingStep capacity) LedgerGuard pendingInit acts)
    (run : exec (pendingStep capacity) pendingInit acts = some s) : TasksCovered s := by
  have inv : LedgerInv s := exec_guarded
    (fun _ _ _ inv guard step => pendingStep_inv inv guard step) pendingInit_inv guarded run
  exact inv.covered

/-- A VAQ with two tasks is removed while the worker scans, and popped through the snapshot. -/
theorem pending_tasks_covered_at_removal : ∃ s,
    exec (pendingStep 4) pendingInit [.add 0, .update, .push 0, .push 1, .count 0, .add 1, .update,
      .push 1, .count 1, .wait, .snapshot [1, 0], .del 1, .update, .visit, .wait, .snapshot [0],
      .visit] = some s ∧ s.tasks = 0 ∧ TasksCovered s := by
  have run : (exec (pendingStep 4) pendingInit [.add 0, .update, .push 0, .push 1, .count 0, .add 1,
      .update, .push 1, .count 1, .wait, .snapshot [1, 0], .del 1, .update, .visit, .wait,
      .snapshot [0], .visit]).map PendingState.tasks = some 0 := by decide +kernel
  obtain ⟨s, reached, tasks⟩ := Option.map_eq_some_iff.mp run
  exact ⟨s, reached, tasks, pending_tasks_covered 4 _ s (by decide +kernel) reached⟩

/-- **Both halves fail without the condition.** Two uncounted tasks are popped, and the removal of a
VAQ with two tasks takes the counter below zero. A VAQ is removed while it is empty, gets a task,
and the worker pops this task through its snapshot: the task of the other VAQ stays without a
wake-up. -/
theorem pending_tasks_fail :
    (¬∀ capacity acts s, exec (pendingStep capacity) pendingInit acts = some s → 0 ≤ s.tasks) ∧
      ¬∀ capacity acts s, exec (pendingStep capacity) pendingInit acts = some s →
        TasksCovered s := by
  have wraps : (exec (pendingStep 4) pendingInit [.add 0, .update, .add 1, .update, .add 2, .update,
      .push 0, .count 0, .push 0, .count 0, .push 1, .push 2, .wait, .snapshot [1, 0, 2], .visit,
      .wait, .snapshot [2, 0, 1], .visit, .del 0, .update]).map PendingState.tasks =
        some (-1) := by decide +kernel
  have loses : (exec (pendingStep 4) pendingInit [.add 0, .update, .add 1, .update, .push 1,
      .count 1, .wait, .snapshot [0, 1], .del 0, .update, .push 0, .visit]).map
        (fun s => (s.tasks, s.worker, s.assigned, s.midway 1, s.queue 1)) =
          some (0, .idle, {1}, false, 1) := by decide +kernel
  refine ⟨fun all => ?_, fun all => ?_⟩
  · obtain ⟨s, reached, tasks⟩ := Option.map_eq_some_iff.mp wraps
    have positive := all 4 _ s reached
    rw [tasks] at positive
    exact absurd positive (by decide)
  · obtain ⟨s, reached, last⟩ := Option.map_eq_some_iff.mp loses
    obtain ⟨tasks, worker, assigned, midway, queue⟩ : s.tasks = 0 ∧ s.worker = .idle ∧
        s.assigned = {1} ∧ s.midway 1 = false ∧ s.queue 1 = 1 := by simpa using last
    have empty := (all 4 _ s reached).covered tasks (by rw [worker]; rfl)
      (by simpa [assigned] using midway) 1 (by simp [assigned])
    rw [queue] at empty
    cases empty

end Arax.Core
