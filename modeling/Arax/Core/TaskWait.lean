/-
**Waiting for a task (`src/core/arax_task.c`, `src/async/mutex/async.c`).**

A task is submitted with its completion locked. The worker stores the final state and then completes
the completion, and the client asserts something on the state before it blocks. `arax.h` has the
client wait for a task "to complete or fail", but the assertion lists only `task_issued` and
`task_completed`, so a failure that is stored before the assertion is evaluated aborts the client.

* `TaskMsg`, `asyncCompletionComplete`, `asyncCompletionWait` — the fields of the task that count.
* `waitStep` — the interleavings of one `arax_task_mark_done` and one `arax_task_wait`.
* `WaitInvariant` — who is where, and what the state and the completion are then.
* `length_le_of_run` — every run has an end.
* `task_wait_iff` — a run to its end returns the state exactly if the task completes, or if the
  client moves first.
-/

import Arax.Lib.Run

namespace Arax.Core

open Arax.Lib

/-- `arax_task_state_e`. -/
inductive TaskStateE where
  | taskFailed
  | taskIssued
  | taskCompleted
  deriving DecidableEq

/-- What `arax_task_mark_done` is called with. -/
def TaskStateE.Final (s : TaskStateE) : Prop := s = .taskFailed ∨ s = .taskCompleted

/-- `state` of the task, and whether the mutex of its completion `done` is locked. -/
structure TaskMsg where
  state : TaskStateE
  locked : Bool
  deriving DecidableEq

/-- `pthread_mutex_trylock`: afterwards the mutex is locked, by whomever. -/
def TaskMsg.trylock (task : TaskMsg) : TaskMsg := { task with locked := true }

/-- `pthread_mutex_unlock`. -/
def TaskMsg.unlock (task : TaskMsg) : TaskMsg := { task with locked := false }

/-- `async_completion_complete`. -/
def asyncCompletionComplete (task : TaskMsg) : TaskMsg := task.trylock.unlock

/-- `async_completion_wait`, if it returns. -/
def asyncCompletionWait (task : TaskMsg) : Option TaskMsg :=
  if task.locked then none else some { task with locked := true }

/-- `arax_task_mark_done`. -/
def araxTaskMarkDone (task : TaskMsg) (state : TaskStateE) : TaskMsg :=
  asyncCompletionComplete { task with state := state }

/-- A task behind `arax_task_submit`. -/
def TaskMsg.submitted : TaskMsg := ⟨.taskIssued, true⟩

/-! ### Interleavings -/

/-- The worker in `arax_task_mark_done`, before the step of this name. -/
inductive MarkPlace where
  | store
  | trylock
  | unlock
  | returned
  deriving DecidableEq

/-- The client in `arax_task_wait`. -/
inductive WaitPlace where
  /-- At `msg->state == task_issued` of the assertion. -/
  | issued
  /-- At `msg->state == task_completed`, because the first comparison was false. -/
  | completed
  /-- At `async_completion_wait`. -/
  | lock
  /-- At `return _task->state`. -/
  | read
  | returned (state : TaskStateE)
  /-- The assertion fired. -/
  | aborted
  deriving DecidableEq

structure WaitState where
  task : TaskMsg
  worker : MarkPlace
  client : WaitPlace
  deriving DecidableEq

/-- Both calls are still to be made. -/
def WaitState.start : WaitState := ⟨.submitted, .store, .issued⟩

/-- Who moves. -/
inductive WaitMover where
  | worker
  | client
  deriving DecidableEq

/-- `arax_task_mark_done(task, final)`. -/
def markStep (final : TaskStateE) (s : WaitState) : Option WaitState :=
  match s.worker with
  | .store => some { s with task := { s.task with state := final }, worker := .trylock }
  | .trylock => some { s with task := s.task.trylock, worker := .unlock }
  | .unlock => some { s with task := s.task.unlock, worker := .returned }
  | .returned => none

/-- `arax_task_wait(task)`. -/
def clientWaitStep (s : WaitState) : Option WaitState :=
  match s.client with
  | .issued =>
    some { s with client := if s.task.state = .taskIssued then .lock else .completed }
  | .completed =>
    some { s with client := if s.task.state = .taskCompleted then .lock else .aborted }
  | .lock => (asyncCompletionWait s.task).map fun task => { s with task := task, client := .read }
  | .read => some { s with client := .returned s.task.state }
  | .returned _ => none
  | .aborted => none

/-- One step of one of the two. -/
def waitStep (final : TaskStateE) (s : WaitState) : WaitMover → Option WaitState
  | .worker => markStep final s
  | .client => clientWaitStep s

/-- No more moves: both calls have ended, or the client waits for good. -/
def WaitState.Stuck (final : TaskStateE) (s : WaitState) : Prop :=
  ∀ mover, waitStep final s mover = none

/-! ### The invariant -/

/-- The client is behind `async_completion_wait`. -/
def WaitPlace.Passed : WaitPlace → Prop
  | .read | .returned _ => True
  | _ => False

/-- The state is stored first, and the mutex is locked until the worker has unlocked it, and again
when the client has passed. -/
structure WaitInvariant (final : TaskStateE) (s : WaitState) : Prop where
  state : s.task.state = if s.worker = .store then .taskIssued else final
  before : s.worker ≠ .returned → s.task.locked = true ∧ ¬s.client.Passed
  after : s.worker = .returned → (s.task.locked = true ↔ s.client.Passed)
  result : ∀ r, s.client = .returned r → r = final

section Wait

variable {final : TaskStateE} {s t : WaitState} {mover : WaitMover}

theorem waitInvariant_start (final : TaskStateE) : WaitInvariant final .start :=
  ⟨rfl, fun _ => ⟨rfl, id⟩, fun impossible => (by cases impossible),
    fun _ impossible => (by cases impossible)⟩

theorem WaitInvariant.mark (inv : WaitInvariant final s) (move : markStep final s = some t) :
    WaitInvariant final t := by
  obtain ⟨state, before, after, result⟩ := inv
  unfold markStep at move
  cases at' : s.worker with
  | store =>
    rw [at'] at move before
    cases move
    exact ⟨rfl, fun _ => before (by decide), fun impossible => (by cases impossible), result⟩
  | trylock =>
    rw [at'] at move before state
    cases move
    exact ⟨state, fun _ => ⟨rfl, (before (by decide)).2⟩, fun impossible => (by cases impossible),
      result⟩
  | unlock =>
    rw [at'] at move before state
    cases move
    refine ⟨state, fun contrary => absurd rfl contrary, fun _ => ?_, result⟩
    exact iff_of_false Bool.false_ne_true (before (by decide)).2
  | returned =>
    rw [at'] at move
    cases move

/-- A move of the client before it has passed, to a place before that. -/
theorem WaitInvariant.goto (inv : WaitInvariant final s) {place : WaitPlace}
    (here : ¬s.client.Passed) (there : ¬place.Passed) :
    WaitInvariant final { s with client := place } := by
  obtain ⟨state, before, after, result⟩ := inv
  refine ⟨state, fun working => ⟨(before working).1, there⟩, fun done => ?_, fun r same => ?_⟩
  · exact (after done).trans (iff_of_false here there)
  · exact absurd (by rw [show place = .returned r from same]; trivial) there

theorem WaitInvariant.client (inv : WaitInvariant final s) (move : clientWaitStep s = some t) :
    WaitInvariant final t := by
  unfold clientWaitStep at move
  cases at' : s.client with
  | issued =>
    rw [at'] at move
    cases move
    refine inv.goto (by rw [at']; exact id) ?_
    split_ifs <;> exact id
  | completed =>
    rw [at'] at move
    cases move
    refine inv.goto (by rw [at']; exact id) ?_
    split_ifs <;> exact id
  | lock =>
    rw [at'] at move
    obtain ⟨task, locks, rfl⟩ := Option.map_eq_some_iff.mp move
    unfold asyncCompletionWait at locks
    split_ifs at locks with busy
    cases locks
    have done : s.worker = .returned := by
      by_contra working
      exact busy (inv.before working).1
    exact ⟨inv.state, fun contrary => absurd done contrary,
      fun _ => iff_of_true rfl trivial, fun _ impossible => (by cases impossible)⟩
  | read =>
    rw [at'] at move
    cases move
    have done : s.worker = .returned := by
      by_contra working
      exact (inv.before working).2 (by rw [at']; trivial)
    have held : s.task.locked = true := (inv.after done).mpr (by rw [at']; trivial)
    refine ⟨inv.state, fun contrary => absurd done contrary, fun _ => iff_of_true held trivial,
      fun r same => ?_⟩
    have state := inv.state
    rw [done, if_neg (by decide)] at state
    exact (WaitPlace.returned.inj same).symm.trans state
  | returned state =>
    rw [at'] at move
    cases move
  | aborted =>
    rw [at'] at move
    cases move

theorem WaitInvariant.step (inv : WaitInvariant final s) (move : waitStep final s mover = some t) :
    WaitInvariant final t := by
  cases mover with
  | worker => exact inv.mark move
  | client => exact inv.client move

/-- A run ends with the client's result, unless the assertion has fired. -/
theorem WaitInvariant.ended (inv : WaitInvariant final s) (stuck : s.Stuck final)
    (alive : s.client ≠ .aborted) : s.client = .returned final := by
  have done : s.worker = .returned := by
    have mark := stuck .worker
    simp only [waitStep, markStep] at mark
    cases at' : s.worker with
    | returned => rfl
    | store => rw [at'] at mark; cases mark
    | trylock => rw [at'] at mark; cases mark
    | unlock => rw [at'] at mark; cases mark
  have wait := stuck .client
  simp only [waitStep, clientWaitStep] at wait
  cases at' : s.client with
  | issued => rw [at'] at wait; cases wait
  | completed => rw [at'] at wait; cases wait
  | read => rw [at'] at wait; cases wait
  | lock =>
    -- the mutex is free by now
    have free : ¬s.task.locked = true := by
      rw [inv.after done, at']
      exact id
    rw [at'] at wait
    dsimp only at wait
    unfold asyncCompletionWait at wait
    rw [if_neg free] at wait
    cases wait
  | returned r => rw [inv.result r at']
  | aborted => exact absurd at' alive

/-- The moves that are left to the worker. -/
def MarkPlace.left : MarkPlace → Nat
  | .store => 3
  | .trylock => 2
  | .unlock => 1
  | .returned => 0

/-- The moves that are left to the client at most. -/
def WaitPlace.left : WaitPlace → Nat
  | .issued => 4
  | .completed => 3
  | .lock => 2
  | .read => 1
  | _ => 0

theorem waitStep_left (move : waitStep final s mover = some t) :
    t.worker.left + t.client.left + 1 ≤ s.worker.left + s.client.left := by
  obtain ⟨task, worker, client⟩ := s
  cases mover with
  | worker =>
    cases worker with
    | store => cases move; simp only [MarkPlace.left]; omega
    | trylock => cases move; simp only [MarkPlace.left]; omega
    | unlock => cases move; simp only [MarkPlace.left]; omega
    | returned => cases move
  | client =>
    cases client with
    | issued =>
      cases move
      by_cases waits : task.state = .taskIssued <;> simp only [waits, if_true, if_false,
        WaitPlace.left] <;> omega
    | completed =>
      cases move
      by_cases whole : task.state = .taskCompleted <;> simp only [whole, if_true, if_false,
        WaitPlace.left] <;> omega
    | lock =>
      obtain ⟨after, -, rfl⟩ := Option.map_eq_some_iff.mp move
      exact Nat.le_refl _
    | read =>
      cases move
      exact Nat.le_refl _
    | returned r => cases move
    | aborted => cases move

/-- Every interleaving ends after seven moves at most. -/
theorem length_le_of_run {movers : List WaitMover} (run : exec (waitStep final) s movers = some t) :
    t.worker.left + t.client.left + movers.length ≤ s.worker.left + s.client.left := by
  induction movers generalizing s with
  | nil =>
    cases run
    exact Nat.le_refl _
  | cons mover rest ih =>
    obtain ⟨mid, move, later⟩ := exec_cons run
    have less := waitStep_left move
    have rest := ih later
    rw [List.length_cons]
    omega

/-! ### The assertion -/

theorem waitStep_worker (move : waitStep final s mover = some t) (stored : s.worker ≠ .store) :
    t.worker ≠ .store := by
  cases mover with
  | worker =>
    simp only [waitStep, markStep] at move
    split at move
    · cases move
      nofun
    · cases move
      nofun
    · cases move
      nofun
    · cases move
  | client =>
    simp only [waitStep, clientWaitStep] at move
    split at move
    · cases move
      exact stored
    · cases move
      exact stored
    · obtain ⟨task, -, rfl⟩ := Option.map_eq_some_iff.mp move
      exact stored
    · cases move
      exact stored
    · cases move
    · cases move

theorem waitStep_mark (move : waitStep final s .worker = some t) : t.client = s.client := by
  simp only [waitStep, markStep] at move
  split at move
  · cases move
    rfl
  · cases move
    rfl
  · cases move
    rfl
  · cases move

/-- The assertion does not fire any more: it is behind the client, or the task completes. -/
structure Safe (final : TaskStateE) (s : WaitState) : Prop where
  alive : s.client ≠ .aborted
  issued : s.client = .issued → final = .taskCompleted
  completed : s.client = .completed → final = .taskCompleted ∧ s.worker ≠ .store

theorem Safe.step (safe : Safe final s) (inv : WaitInvariant final s)
    (move : waitStep final s mover = some t) : Safe final t := by
  obtain ⟨alive, issued, completed⟩ := safe
  cases mover with
  | worker =>
    have same := waitStep_mark move
    refine ⟨same ▸ alive, same ▸ issued, fun at' => ?_⟩
    obtain ⟨whole, stored⟩ := completed (same.symm.trans at')
    exact ⟨whole, waitStep_worker move stored⟩
  | client =>
    simp only [waitStep, clientWaitStep] at move
    split at move
    next at' =>
      cases move
      by_cases waits : s.task.state = .taskIssued
      · rw [if_pos waits]
        exact ⟨nofun, nofun, nofun⟩
      · rw [if_neg waits]
        refine ⟨nofun, nofun, fun _ => ⟨issued at', fun storing => waits ?_⟩⟩
        rw [inv.state, if_pos storing]
    next at' =>
      cases move
      obtain ⟨whole, stored⟩ := completed at'
      rw [if_pos (by rw [inv.state, if_neg stored, whole])]
      exact ⟨nofun, nofun, nofun⟩
    next at' =>
      obtain ⟨task, -, rfl⟩ := Option.map_eq_some_iff.mp move
      exact ⟨nofun, nofun, nofun⟩
    next at' =>
      cases move
      exact ⟨nofun, nofun, nofun⟩
    next at' => cases move
    next at' => cases move

/-- The assertion has fired, or it will: the failure is stored. -/
structure Lost (final : TaskStateE) (s : WaitState) : Prop where
  failed : final = .taskFailed
  stored : s.worker ≠ .store
  place : s.client = .issued ∨ s.client = .completed ∨ s.client = .aborted

theorem Lost.step (lost : Lost final s) (inv : WaitInvariant final s)
    (move : waitStep final s mover = some t) : Lost final t := by
  obtain ⟨failed, stored, place⟩ := lost
  refine ⟨failed, waitStep_worker move stored, ?_⟩
  have state : s.task.state = .taskFailed := by rw [inv.state, if_neg stored, failed]
  cases mover with
  | worker =>
    rw [waitStep_mark move]
    exact place
  | client =>
    simp only [waitStep, clientWaitStep, state] at move
    rcases place with at' | at' | at' <;> rw [at'] at move <;> cases move
    · exact .inr (.inl rfl)
    · exact .inr (.inr rfl)

/-- From a safe state, the run ends with the result of the client. -/
theorem Safe.run {movers : List WaitMover} (safe : Safe final s) (inv : WaitInvariant final s)
    (run : exec (waitStep final) s movers = some t) (stuck : t.Stuck final) :
    t.client = .returned final := by
  let good (s : WaitState) : Prop := Safe final s ∧ WaitInvariant final s
  have keeps : ∀ s mover t, good s → waitStep final s mover = some t → good t :=
    fun _ _ _ before move => ⟨before.1.step before.2 move, before.2.step move⟩
  have last := exec_invariant keeps ⟨safe, inv⟩ run
  exact last.2.ended stuck last.1.alive

/-- From a lost state, it does not. -/
theorem Lost.run {movers : List WaitMover} (lost : Lost final s) (inv : WaitInvariant final s)
    (run : exec (waitStep final) s movers = some t) : t.client ≠ .returned final := by
  let bad (s : WaitState) : Prop := Lost final s ∧ WaitInvariant final s
  have keeps : ∀ s mover t, bad s → waitStep final s mover = some t → bad t :=
    fun _ _ _ before move => ⟨before.1.step before.2 move, before.2.step move⟩
  have last := exec_invariant keeps ⟨lost, inv⟩ run
  intro returned
  rcases last.1.place with at' | at' | at' <;> rw [at'] at returned <;> cases returned

/-- **`arax_task_wait` against `arax_task_mark_done`.** In every interleaving that is run to its
end, the wait returns the final state exactly if the task completes, or if the client evaluates the
assertion first. -/
theorem task_wait_iff (final : TaskStateE) (ends : final.Final) (movers : List WaitMover)
    (t : WaitState) (run : exec (waitStep final) .start movers = some t) (stuck : t.Stuck final) :
    t.client = .returned final ↔ final = .taskCompleted ∨ movers.head? = some .client := by
  have start := waitInvariant_start final
  cases movers with
  | nil =>
    cases run
    cases stuck .worker
  | cons first rest =>
    obtain ⟨s, move, later⟩ := exec_cons run
    have inv := start.step move
    cases first with
    | client =>
      refine iff_of_true ?_ (.inr rfl)
      cases move
      have safe : Safe final ⟨.submitted, .store, .lock⟩ :=
        ⟨fun at' => (by cases at'), fun at' => (by cases at'), fun at' => (by cases at')⟩
      exact safe.run inv later stuck
    | worker =>
      rcases ends with failed | completed
      · refine iff_of_false ?_ ?_
        · cases move
          have lost : Lost final ⟨⟨final, true⟩, .trylock, .issued⟩ :=
            ⟨failed, fun at' => (by cases at'), .inl rfl⟩
          exact lost.run inv later
        · rintro (whole | impossible)
          · rw [failed] at whole
            cases whole
          · cases impossible
      · refine iff_of_true ?_ (.inl completed)
        cases move
        have safe : Safe final ⟨⟨final, true⟩, .trylock, .issued⟩ :=
          ⟨fun at' => (by cases at'), fun _ => completed, fun at' => (by cases at')⟩
        exact safe.run inv later stuck

/-- The client waits before the task fails. -/
theorem task_wait_client_first :
    (WaitState.mk ⟨.taskFailed, true⟩ .returned (.returned .taskFailed)).client =
      .returned .taskFailed :=
  (task_wait_iff .taskFailed (.inl rfl) [.client, .worker, .worker, .worker, .client, .client] _ rfl
    (fun mover => by cases mover <;> rfl)).mpr (.inr rfl)

/-- The task fails before the client waits, and the client aborts. -/
theorem task_wait_fails : ¬∀ (final : TaskStateE), final.Final → ∀ (movers : List WaitMover)
    (t : WaitState), exec (waitStep final) .start movers = some t → t.Stuck final →
    t.client = .returned final := by
  intro all
  have returned := all .taskFailed (.inl rfl) [.worker, .worker, .worker, .client, .client]
    ⟨⟨.taskFailed, false⟩, .returned, .aborted⟩ rfl (fun mover => by cases mover <;> rfl)
  cases returned

end Wait

end Arax.Core
