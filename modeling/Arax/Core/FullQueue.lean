/-
**A full queue of an unassigned VAQ (`src/core/arax_vaccel.c`, `arax_accel.c`).**

`arax_vaccel_add_task` repeats `utils_queue_push` until it succeeds, and holds `vaccel->lock`
meanwhile. `arax_accel_add_vaccel` takes the same lock, and only it makes the VAQ visible to a
worker. A client that finds the queue full before the VAQ is assigned therefore waits for a pop
that only a later assignment makes possible, and the assignment waits for the client.

One client submits `n` tasks to a VAQ that is an orphan, the balancer takes the VAQ and assigns it
to an accelerator, and the worker of this accelerator serves it, in any interleaving.

* `Wedged` — client and balancer wait for each other, and no worker has the VAQ.
* `wedged_forever` — nothing leads out of such a state.
* `full_queue_iff` — it is not reachable exactly if `n` is at most the capacity of the queue.
-/

import Mathlib.Tactic.SplitIfs
import Mathlib.Data.List.Basic
import Arax.Lib.Run

namespace Arax.Core

open Arax.Lib

/-- `UTILS_QUEUE_CAPACITY`, as the build sets it. -/
def utilsQueueCapacity : Nat := 256

/-- Where the client is in `arax_vaccel_add_task`. -/
inductive SubmitPlace where
  | idle
  /-- In the loop around `utils_queue_push`. -/
  | push
  /-- At `if (accel->phys)`. -/
  | count
  | unlock
  deriving DecidableEq

/-- Where the balancer is. -/
inductive AssignPlace where
  | idle
  /-- `assignVac` calls `arax_accel_add_vaccel`. -/
  | assign
  /-- At `arax_pipe_remove_orphan_vaccel`. -/
  | removeOrphan
  /-- At `utils_spinlock_lock`. -/
  | lock
  /-- At `utils_list_add`. -/
  | insert
  | unlock
  deriving DecidableEq

/-- Where the worker is. -/
inductive ServePlace where
  | wait
  /-- At `arax_accel_get_assigned_vaccels`. -/
  | snapshot
  /-- In `selectTask`, with or without the VAQ in its snapshot. -/
  | select (seen : Bool)
  deriving DecidableEq

/-- The VAQ and the threads. -/
structure AssignState where
  /-- The tasks that the client has yet to submit. -/
  left : Nat
  client : SubmitPlace
  /-- `vaccel->lock`. -/
  lock : Bool
  /-- The number of tasks in the queue. -/
  used : Nat
  /-- The VAQ is in `pipe->orphan_vacs`. -/
  orphan : Bool
  /-- `vaccel->phys`. -/
  phys : Bool
  /-- The VAQ is in `accel->vaccels`. -/
  listed : Bool
  /-- `accel->tasks`, a `size_t`; that it wraps after `2 ^ 64` tasks is left out. -/
  tasks : Nat
  balancer : AssignPlace
  worker : ServePlace
  deriving DecidableEq

/-- After `arax_vaccel_init` without a physical accelerator. -/
def assignStart (n : Nat) : AssignState where
  left := n
  client := .idle
  lock := false
  used := 0
  orphan := true
  phys := false
  listed := false
  tasks := 0
  balancer := .idle
  worker := .wait

/-- The next access of the client. -/
def submitStep (capacity : Nat) (s : AssignState) : SubmitPlace → Option AssignState
  | .idle =>
    match s.left with
    | 0 => none
    | left + 1 =>
      if s.lock then none else some { s with left := left, lock := true, client := .push }
  | .push =>
    some (if s.used = capacity then s else { s with used := s.used + 1, client := .count })
  | .count => some { s with tasks := if s.phys then s.tasks + 1 else s.tasks, client := .unlock }
  | .unlock => some { s with lock := false, client := .idle }

/-- The next access of the balancer. -/
def assignStep (s : AssignState) : AssignPlace → Option AssignState
  | .idle => if s.orphan then some { s with orphan := false, balancer := .assign } else none
  | .assign => some { s with balancer := if s.phys then .idle else .removeOrphan }
  | .removeOrphan => some { s with orphan := false, balancer := .lock }
  | .lock => if s.lock then none else some { s with lock := true, balancer := .insert }
  | .insert =>
    some { s with listed := true, tasks := s.tasks + s.used, phys := true, balancer := .unlock }
  | .unlock => some { s with lock := false, balancer := .idle }

/-- The next access of the worker. -/
def serveStep (s : AssignState) : ServePlace → Option AssignState
  | .wait => if s.tasks = 0 then none else some { s with tasks := s.tasks - 1, worker := .snapshot }
  | .snapshot => some { s with worker := .select s.listed }
  | .select seen => some { s with used := if seen then s.used - 1 else s.used, worker := .wait }

/-- Who moves. -/
inductive AssignMove where
  | client
  | balancer
  | worker
  /-- Another VAQ of the accelerator gets a task. -/
  | otherTask
  deriving DecidableEq

/-- One move. -/
def fullQueueStep (capacity : Nat) (s : AssignState) : AssignMove → Option AssignState
  | .client => submitStep capacity s s.client
  | .balancer => assignStep s s.balancer
  | .worker => serveStep s s.worker
  | .otherTask => some { s with tasks := s.tasks + 1 }

/-- The client holds the lock and finds the queue full, the balancer waits for the lock, and no
worker has the VAQ. -/
def Wedged (capacity : Nat) (s : AssignState) : Prop :=
  s.client = .push ∧ s.used = capacity ∧ s.balancer = .lock ∧ s.listed = false

/-! ### Few tasks -/

/-- A task is queued, in the hands of the client, or yet to come, or it was popped. -/
def TasksBounded (n : Nat) (s : AssignState) : Prop :=
  s.used + s.left + (if s.client = .push then 1 else 0) ≤ n

theorem fullQueueStep_bounded {capacity n : Nat} {s t : AssignState} {move : AssignMove}
    (bounded : TasksBounded n s) (step : fullQueueStep capacity s move = some t) :
    TasksBounded n t := by
  unfold TasksBounded at bounded ⊢
  cases move with
  | client =>
    cases place : s.client with
    | idle =>
      simp only [fullQueueStep, place, submitStep] at step bounded
      split at step
      · cases step
      · rename_i left more
        split_ifs at step
        cases step
        simp only [reduceCtorEq, if_false, if_true, more] at bounded ⊢
        omega
    | push =>
      simp only [fullQueueStep, place, submitStep] at step
      cases step
      split_ifs
      all_goals simp_all
      omega
    | count | unlock =>
      simp only [fullQueueStep, place, submitStep] at step
      cases step
      simp_all
  | balancer =>
    have kept : t.used = s.used ∧ t.left = s.left ∧ t.client = s.client := by
      cases place : s.balancer with
      | idle | lock =>
        simp only [fullQueueStep, place, assignStep] at step
        split_ifs at step
        cases step
        exact ⟨rfl, rfl, rfl⟩
      | assign | removeOrphan | insert | unlock =>
        simp only [fullQueueStep, place, assignStep] at step
        cases step
        exact ⟨rfl, rfl, rfl⟩
    rw [kept.1, kept.2.1, kept.2.2]
    exact bounded
  | worker =>
    cases place : s.worker with
    | wait =>
      simp only [fullQueueStep, place, serveStep] at step
      split_ifs at step
      cases step
      exact bounded
    | snapshot =>
      simp only [fullQueueStep, place, serveStep] at step
      cases step
      exact bounded
    | select seen =>
      simp only [fullQueueStep, place, serveStep] at step
      cases step
      refine Nat.le_trans ?_ bounded
      show (if seen then s.used - 1 else s.used) + s.left + _ ≤ s.used + s.left + _
      split_ifs <;> omega
  | otherTask =>
    cases step
    exact bounded

/-! ### Many tasks -/

/-- The balancer waits for the lock, which is free, with `used` tasks queued and `left` to come. -/
def balancerWaits (used left : Nat) : AssignState :=
  { assignStart left with used := used, orphan := false, balancer := .lock }

/-- The client submits `k` tasks. -/
def submitMoves (k : Nat) : List AssignMove := (List.replicate k (List.replicate 4 .client)).flatten

theorem submit_one {capacity used : Nat} (left : Nat) (room : used ≠ capacity) :
    exec (fullQueueStep capacity) (balancerWaits used (left + 1)) (List.replicate 4 .client) =
      some (balancerWaits (used + 1) left) := by
  have first : fullQueueStep capacity (balancerWaits used (left + 1)) .client =
      some { balancerWaits used left with lock := true, client := .push } := rfl
  have second : fullQueueStep capacity
      { balancerWaits used left with lock := true, client := .push } .client =
      some { balancerWaits (used + 1) left with lock := true, client := .count } := by
    show some (if used = capacity then _ else _) = _
    rw [if_neg room]
    rfl
  show (fullQueueStep capacity (balancerWaits used (left + 1)) .client).bind _ = _
  rw [first, Option.bind_some]
  show (fullQueueStep capacity _ .client).bind _ = _
  rw [second]
  rfl

/-- The queue fills while the balancer does not get the lock. -/
theorem submit_many {capacity : Nat} (k used left : Nat) (room : used + k ≤ capacity) :
    exec (fullQueueStep capacity) (balancerWaits used (left + k)) (submitMoves k) =
      some (balancerWaits (used + k) left) := by
  induction k generalizing used with
  | zero => rfl
  | succ k ih =>
    have one := @submit_one capacity used (left + k) (by omega)
    show exec _ _ (List.replicate 4 .client ++ submitMoves k) = _
    rw [exec_append, ← Nat.add_assoc left k 1, one, Option.bind_some, ih (used + 1) (by omega)]
    congr 2
    omega

/-- The balancer takes the VAQ and comes to the lock; the client fills the queue and takes the lock
once more. -/
def wedgingMoves (capacity : Nat) : List AssignMove :=
  List.replicate 3 .balancer ++ submitMoves capacity ++ [.client]

/-- One task more than the queue holds can wedge the VAQ. -/
theorem wedge_reachable {capacity n : Nat} (more : capacity < n) :
    ∃ s, exec (fullQueueStep capacity) (assignStart n) (wedgingMoves capacity) = some s ∧
      Wedged capacity s := by
  obtain ⟨left, rfl⟩ : ∃ left, n = left + 1 + capacity := ⟨n - capacity - 1, by omega⟩
  have taken : exec (fullQueueStep capacity) (assignStart (left + 1 + capacity))
      (List.replicate 3 .balancer) = some (balancerWaits 0 (left + 1 + capacity)) := rfl
  have filled := submit_many capacity 0 (left + 1) (Nat.le_of_eq (Nat.zero_add capacity))
  refine ⟨{ balancerWaits capacity left with lock := true, client := .push }, ?_,
    rfl, rfl, rfl, rfl⟩
  unfold wedgingMoves
  rw [exec_append, exec_append, taken, Option.bind_some, filled, Option.bind_some, Nat.zero_add]
  rfl

/-- **A full queue wedges an unassigned VAQ.** No state in which the client and the balancer wait
for each other is reachable if and only if the client submits at most as many tasks as the queue
holds. -/
theorem full_queue_iff (capacity n : Nat) :
    (∀ moves s, exec (fullQueueStep capacity) (assignStart n) moves = some s →
      ¬Wedged capacity s) ↔ n ≤ capacity := by
  constructor
  · intro never
    by_contra more
    obtain ⟨s, run, wedged⟩ := wedge_reachable (Nat.lt_of_not_le more)
    exact never _ s run wedged
  · rintro few moves s run ⟨pushing, full, -, -⟩
    have start : TasksBounded n (assignStart n) := by
      simp [TasksBounded, assignStart]
    have bounded := exec_invariant (fun _ _ _ bounded step => fullQueueStep_bounded bounded step)
      start run
    rw [TasksBounded, pushing, full, if_pos rfl] at bounded
    omega

/-- With the capacity of the build, 257 tasks are too many. -/
theorem full_queue_wedges_at_257 :
    ¬∀ n moves s, exec (fullQueueStep utilsQueueCapacity) (assignStart n) moves = some s →
      ¬Wedged utilsQueueCapacity s := by
  intro never
  obtain ⟨s, run, wedged⟩ := @wedge_reachable utilsQueueCapacity 257 (by decide)
  exact never 257 _ s run wedged

/-! ### No way out -/

/-- One thread at a time holds the lock, and a worker that has the VAQ in its snapshot has it in its
list. -/
structure LockInv (s : AssignState) : Prop where
  client : s.client ≠ .idle → s.lock = true
  balancer : s.balancer = .insert ∨ s.balancer = .unlock → s.lock = true
  exclusive : s.client ≠ .idle → ¬(s.balancer = .insert ∨ s.balancer = .unlock)
  seen : s.worker = .select true → s.listed = true

theorem fullQueueStep_lock {capacity : Nat} {s t : AssignState} {move : AssignMove}
    (inv : LockInv s) (step : fullQueueStep capacity s move = some t) : LockInv t := by
  obtain ⟨client, balancer, exclusive, seen⟩ := inv
  cases move with
  | client =>
    cases place : s.client with
    | idle =>
      simp only [fullQueueStep, place, submitStep] at step
      split at step
      · cases step
      · split_ifs at step
        cases step
        constructor <;> simp_all
    | push =>
      simp only [fullQueueStep, place, submitStep] at step
      cases step
      split_ifs
      all_goals constructor <;> simp_all
    | count | unlock =>
      simp only [fullQueueStep, place, submitStep] at step
      cases step
      constructor <;> simp_all
  | balancer =>
    cases place : s.balancer with
    | idle | lock =>
      simp only [fullQueueStep, place, assignStep] at step
      split_ifs at step
      cases step
      constructor <;> simp_all
    | assign =>
      simp only [fullQueueStep, place, assignStep] at step
      cases step
      split_ifs
      all_goals constructor <;> simp_all
    | removeOrphan | insert | unlock =>
      simp only [fullQueueStep, place, assignStep] at step
      cases step
      constructor <;> simp_all
  | worker =>
    cases place : s.worker with
    | wait =>
      simp only [fullQueueStep, place, serveStep] at step
      split_ifs at step
      cases step
      constructor <;> simp_all
    | snapshot | select =>
      simp only [fullQueueStep, place, serveStep] at step
      cases step
      constructor <;> simp_all
  | otherTask =>
    cases step
    exact ⟨client, balancer, exclusive, seen⟩

/-- No move leads out of a wedged state. -/
theorem wedged_step {capacity : Nat} {s t : AssignState} {move : AssignMove} (inv : LockInv s)
    (wedged : Wedged capacity s) (step : fullQueueStep capacity s move = some t) :
    Wedged capacity t := by
  obtain ⟨pushing, full, waiting, unlisted⟩ := wedged
  have locked : s.lock = true := inv.client (by simp [pushing])
  cases move with
  | client =>
    simp only [fullQueueStep, pushing, submitStep, full, if_true] at step
    cases step
    exact ⟨pushing, full, waiting, unlisted⟩
  | balancer =>
    simp only [fullQueueStep, waiting, assignStep, locked, if_true] at step
    cases step
  | worker =>
    cases place : s.worker with
    | wait =>
      simp only [fullQueueStep, place, serveStep] at step
      split_ifs at step
      cases step
      exact ⟨pushing, full, waiting, unlisted⟩
    | snapshot =>
      simp only [fullQueueStep, place, serveStep] at step
      cases step
      exact ⟨pushing, full, waiting, unlisted⟩
    | select seen =>
      have unseen : seen = false := by
        by_contra visible
        rw [Bool.not_eq_false] at visible
        rw [inv.seen (by rw [place, visible])] at unlisted
        cases unlisted
      simp only [fullQueueStep, place, serveStep, unseen] at step
      cases step
      exact ⟨pushing, full, waiting, unlisted⟩
  | otherTask =>
    cases step
    exact ⟨pushing, full, waiting, unlisted⟩

/-- **A wedged VAQ stays wedged**, whatever the threads do. -/
theorem wedged_forever {capacity n : Nat} {before after : List AssignMove} {s t : AssignState}
    (run : exec (fullQueueStep capacity) (assignStart n) before = some s)
    (wedged : Wedged capacity s) (later : exec (fullQueueStep capacity) s after = some t) :
    Wedged capacity t := by
  have start : LockInv (assignStart n) := by
    constructor <;> simp [assignStart]
  have inv := exec_invariant (fun _ _ _ inv step => fullQueueStep_lock inv step) start run
  have keeps : ∀ s move t, LockInv s ∧ Wedged capacity s → fullQueueStep capacity s move = some t →
      LockInv t ∧ Wedged capacity t := by
    rintro s move t ⟨inv, wedged⟩ step
    exact ⟨fullQueueStep_lock inv step, wedged_step inv wedged step⟩
  exact (exec_invariant keeps ⟨inv, wedged⟩ later).2

end Arax.Core
