/-
**Program order on data.**

Data is assigned to the VAQ on which it was used last, and a task that uses it goes to this queue
behind the earlier ones. `arax_data_migrate_accel` assigns data to another VAQ while tasks that use
it may still wait in the old one, and then nothing orders the tasks of the two queues. As long as
this does not happen, tasks in different queues use different data, and the worker may execute them
in any order.

* `OrderGuard` — no data moves away from a queue in which a task still uses it.
* `Ordered` — the pending tasks lead to the contents of the program order.
* `ordered_of_run` — they do in every run that keeps to the guard.
-/

import Arax.Core.DataQueues
import Arax.Lib.Locality

namespace Arax.Core

open Arax.Lib

variable {β : Type}

/-! ### Execution uses only the data of a task -/

theorem store_frame {contents : Nat → β} {io : List Nat} {news : List β} {data : Nat}
    (absent : data ∉ io) : store contents io news data = contents data := by
  induction io generalizing contents news with
  | nil => rfl
  | cons first io ih =>
    cases news with
    | nil => rfl
    | cons new news =>
      rw [store, ih fun member => absent (List.mem_cons_of_mem first member)]
      exact Function.update_of_ne (List.ne_of_not_mem_cons absent) _ _

theorem store_reads {contents other : Nat → β} {io : List Nat} {news : List β} {data : Nat}
    (same : contents data = other data) :
    store contents io news data = store other io news data := by
  induction io generalizing contents other news with
  | nil => exact same
  | cons first io ih =>
    cases news with
    | nil => exact same
    | cons new news =>
      rw [store, store]
      refine ih ?_
      by_cases here : data = first
      · rw [here, Function.update_self, Function.update_self]
      · rw [Function.update_of_ne here, Function.update_of_ne here]
        exact same

theorem execute_local (work : Work β) :
    Local work.io fun contents => execute contents work := by
  cases work with
  | set data user =>
    refine ⟨fun contents i absent => ?_, fun contents other _ i member => ?_⟩
    · exact Function.update_of_ne (List.ne_of_not_mem_cons absent) _ _
    · rw [List.mem_singleton.mp member]
      simp only [execute, Function.update_self]
  | get data => exact ⟨fun _ _ _ => rfl, fun _ _ same => same⟩
  | kernel io functor =>
    refine ⟨fun contents i absent => store_frame absent, fun contents other same i member => ?_⟩
    have inputs : io.map contents = io.map other := List.map_congr_left same
    show store contents io (functor (io.map contents)) i = store other io (functor (io.map other)) i
    rw [inputs]
    exact store_reads (same i member)

/-! ### What is pending -/

/-- The task that the worker has selected. -/
def Worker.task : Worker β → List (Work β)
  | .run task => [task]
  | _ => []

/-- No task of `arax_data_get` is among these. -/
def Quiet (works : List (Work β)) : Prop := ∀ work ∈ works, ∀ data, work ≠ .get data

/-- The `arax_data_get` of the client: its task is last in a queue, or selected while no task in a
queue uses the data, or completed. -/
inductive Getting (s : DataState β) (pending : List (Nat × Work β)) (expected : Nat → β)
    (data : Nat) : Prop where
  | queued (front : List (Nat × Work β)) (accel : Nat)
      (last : pending = front ++ [(accel, .get data)])
      (quiet : Quiet (s.worker.task ++ front.map Prod.snd)) (unanswered : s.answer = none)
  | selected (running : s.worker = .run (.get data)) (quiet : Quiet (pending.map Prod.snd))
      (unused : ∀ entry ∈ pending, data ∉ entry.2.io) (unanswered : s.answer = none)
  | answered (quiet : Quiet (s.worker.task ++ pending.map Prod.snd))
      (answer : s.answer = some (expected data))

/-- **Program order.** `pending` are the tasks in the queues, in the order of the calls. -/
structure Ordered (device : Device β) (contents : Nat → β) (s : DataState β)
    (pending : List (Nat × Work β)) : Prop where
  queues : ∀ accel, s.queue accel = (pending.filter fun entry => entry.1 = accel).map Prod.snd
  assigned : ∀ data accel, s.accel data = some accel → accel ∈ device.vacs
  /-- Data is assigned to the VAQ in which tasks use it. -/
  home : ∀ entry ∈ pending, ∀ data ∈ entry.2.io, s.accel data = some entry.1
  /-- The pending tasks lead to the contents of the program order. -/
  leads : (s.worker.task ++ pending.map Prod.snd).foldl execute s.contents =
    inOrder (device.program.take s.pc) contents
  results : s.results = answers (device.program.take s.pc) contents
  getting : if s.waiting then
      ∃ data, device.program[s.pc]? = some (.get data) ∧
        Getting s pending (inOrder (device.program.take s.pc) contents) data
    else Quiet (s.worker.task ++ pending.map Prod.snd) ∧ s.answer = none

/-- The state is in program order. -/
def InProgramOrder (device : Device β) (contents : Nat → β) (s : DataState β) : Prop :=
  ∃ pending, Ordered device contents s pending

theorem ordered_start (device : Device β) (contents : Nat → β) :
    Ordered device contents (DataState.start contents) [] :=
  ⟨fun _ => rfl, fun _ _ impossible => (by cases impossible),
    fun _ impossible => (by cases impossible), rfl, rfl,
    ⟨fun _ impossible => (by cases impossible), rfl⟩⟩

/-! ### The moves of the client -/

/-- The call takes no data away from a queue in which a task still uses it. -/
def DataCall.Idle (s : DataState β) : DataCall β → Prop
  | .issue accel ins outs _ => ∀ data ∈ ins ++ outs, ∀ old ∈ s.accel data,
      old = accel ∨ ∀ work ∈ s.queue old, data ∉ work.io
  | _ => True

/-- The condition on a move: whenever `arax_task_issue` assigns data to another VAQ, no task in the
queue of the old one uses it. -/
def OrderGuard (device : Device β) (s : DataState β) : Mover → Prop
  | .client => ∀ call ∈ device.program[s.pc]?, call.Idle s
  | .worker => True

instance (s : DataState β) : (call : DataCall β) → Decidable (call.Idle s)
  | .issue accel ins outs _ => inferInstanceAs (Decidable (∀ data ∈ ins ++ outs,
      ∀ old ∈ s.accel data, old = accel ∨ ∀ work ∈ s.queue old, data ∉ work.io))
  | .set _ _ _ => isTrue trivial
  | .get _ => isTrue trivial

instance (device : Device β) (s : DataState β) : (mover : Mover) →
    Decidable (OrderGuard device s mover)
  | .client => inferInstanceAs (Decidable (∀ call ∈ device.program[s.pc]?, call.Idle s))
  | .worker => isTrue trivial

section Client

variable {device : Device β} {contents : Nat → β} {s t : DataState β}
  {pending : List (Nat × Work β)} {accel data : Nat} {work : Work β}

theorem foldl_migrateAccel (accel : Nat) (io : List Nat) (accels : Nat → Option Nat) (data : Nat) :
    io.foldl (migrateAccel accel) accels data = if data ∈ io then some accel else accels data := by
  induction io generalizing accels with
  | nil => rfl
  | cons first io ih =>
    rw [List.foldl_cons, ih]
    unfold migrateAccel
    by_cases here : data = first
    · simp [here]
    · simp [here]

theorem submitWork_some (done : submitWork device s accel work = some t) :
    accel ∈ device.vacs ∧ t = { s with
      accel := work.io.foldl (migrateAccel accel) s.accel
      queue := Function.update s.queue accel (s.queue accel ++ [work]) } := by
  unfold submitWork at done
  split_ifs at done with enabled
  exact ⟨enabled.1, (Option.some.inj done).symm⟩

/-- The queues after a task was submitted. -/
theorem Ordered.push_queues (ordered : Ordered device contents s pending) (a : Nat) :
    Function.update s.queue accel (s.queue accel ++ [work]) a =
      ((pending ++ [(accel, work)]).filter fun entry => entry.1 = a).map Prod.snd := by
  rw [List.filter_append, List.map_append, ← ordered.queues]
  by_cases here : a = accel
  · simp [here]
  · rw [Function.update_of_ne here]
    simp [Ne.symm here]

theorem Ordered.push_assigned (ordered : Ordered device contents s pending)
    (inside : accel ∈ device.vacs) (data a : Nat)
    (field : work.io.foldl (migrateAccel accel) s.accel data = some a) : a ∈ device.vacs := by
  rw [foldl_migrateAccel] at field
  split_ifs at field
  · exact Option.some.inj field ▸ inside
  · exact ordered.assigned data a field

/-- Data is still assigned to the VAQ in which tasks use it, if no data moved away from one. -/
theorem Ordered.push_home (ordered : Ordered device contents s pending)
    (idle : ∀ data ∈ work.io, ∀ old ∈ s.accel data, old = accel ∨ ∀ other ∈ s.queue old,
      data ∉ other.io)
    (entry : Nat × Work β) (member : entry ∈ pending ++ [(accel, work)]) (data : Nat)
    (uses : data ∈ entry.2.io) :
    work.io.foldl (migrateAccel accel) s.accel data = some entry.1 := by
  rw [foldl_migrateAccel]
  rcases List.mem_append.mp member with old | new
  · have home := ordered.home entry old data uses
    split_ifs with moves
    · rcases idle data moves entry.1 home with same | unused
      · rw [same]
      · refine absurd uses (unused entry.2 ?_)
        rw [ordered.queues]
        exact List.mem_map.mpr ⟨entry, List.mem_filter.mpr ⟨old, decide_eq_true rfl⟩, rfl⟩
    · exact home
  · rw [List.mem_singleton.mp new] at uses ⊢
    exact if_pos uses

/-- The contents that the pending tasks lead to, with one more task. -/
theorem foldl_push (works : List (Work β)) (memory : Nat → β) :
    (works ++ (pending ++ [(accel, work)]).map Prod.snd).foldl execute memory =
      execute ((works ++ pending.map Prod.snd).foldl execute memory) work := by
  rw [List.map_append, ← List.append_assoc, List.foldl_append]
  rfl

theorem inOrder_succ {call : DataCall β} (next : device.program[s.pc]? = some call) :
    inOrder (device.program.take (s.pc + 1)) contents =
      execute (inOrder (device.program.take s.pc) contents) call.work := by
  unfold inOrder
  rw [List.take_add_one, next, List.map_append, List.foldl_append]
  rfl

theorem answers_append (first second : List (DataCall β)) (memory : Nat → β) :
    answers (first ++ second) memory =
      answers first memory ++ answers second (inOrder first memory) := by
  induction first generalizing memory with
  | nil => rfl
  | cons call rest ih =>
    cases call with
    | set data accel user => exact ih _
    | issue accel ins outs functor => exact ih _
    | get data => exact congrArg (memory data :: ·) (ih memory)

theorem answers_succ {call : DataCall β} (next : device.program[s.pc]? = some call) :
    answers (device.program.take (s.pc + 1)) contents =
      answers (device.program.take s.pc) contents ++
        answers [call] (inOrder (device.program.take s.pc) contents) := by
  rw [List.take_add_one, next, answers_append]
  rfl

theorem Quiet.push {works : List (Work β)} (quiet : Quiet (works ++ pending.map Prod.snd))
    (other : ∀ data, work ≠ .get data) :
    Quiet (works ++ (pending ++ [(accel, work)]).map Prod.snd) := by
  intro w member
  rw [List.map_append, ← List.append_assoc] at member
  rcases List.mem_append.mp member with old | new
  · exact quiet w old
  · rw [List.mem_singleton.mp new]
    exact other

/-- A call that does not wait. -/
theorem Ordered.submit (ordered : Ordered device contents s pending) (call : DataCall β)
    (free : s.waiting = false) (next : device.program[s.pc]? = some call)
    (other : ∀ data, call.work ≠ .get data)
    (nothing : ∀ memory, answers [call] memory = [])
    (idle : ∀ data ∈ call.work.io, ∀ old ∈ s.accel data, old = accel ∨ ∀ work ∈ s.queue old,
      data ∉ work.io)
    (done : ((submitWork device s accel call.work).map fun s => { s with pc := s.pc + 1 }) =
      some t) :
    Ordered device contents t (pending ++ [(accel, call.work)]) := by
  obtain ⟨pushed, submit, rfl⟩ := Option.map_eq_some_iff.mp done
  obtain ⟨inside, rfl⟩ := submitWork_some submit
  have getting := ordered.getting
  rw [free] at getting
  refine ⟨ordered.push_queues, ordered.push_assigned inside, ordered.push_home idle, ?_, ?_, ?_⟩
  · show (s.worker.task ++ _).foldl execute s.contents = inOrder (device.program.take (s.pc + 1)) _
    rw [foldl_push, ordered.leads, inOrder_succ next]
  · show s.results = answers (device.program.take (s.pc + 1)) contents
    rw [answers_succ next, nothing, List.append_nil]
    exact ordered.results
  · show if s.waiting = true then _ else _
    rw [free]
    exact ⟨getting.1.push other, getting.2⟩

/-- `arax_data_get` up to its wait. -/
theorem Ordered.submitGet (ordered : Ordered device contents s pending)
    (free : s.waiting = false) (next : device.program[s.pc]? = some (.get data))
    (home : s.accel data = some accel)
    (done : ((submitWork device s accel (.get data)).map fun s => { s with waiting := true }) =
      some t) :
    Ordered device contents t (pending ++ [(accel, .get data)]) := by
  obtain ⟨pushed, submit, rfl⟩ := Option.map_eq_some_iff.mp done
  obtain ⟨inside, rfl⟩ := submitWork_some submit
  have getting := ordered.getting
  rw [free] at getting
  refine ⟨ordered.push_queues, ordered.push_assigned inside,
    ordered.push_home fun d uses old found => .inl ?_, ?_, ordered.results,
    ⟨data, next, .queued pending accel rfl getting.1 getting.2⟩⟩
  · rw [List.mem_singleton.mp uses, Option.mem_def, home] at found
    exact (Option.some.inj found).symm
  · show (s.worker.task ++ _).foldl execute s.contents = _
    rw [foldl_push]
    exact ordered.leads

/-- The return of `arax_data_get`. -/
theorem Ordered.return (ordered : Ordered device contents s pending) (waits : s.waiting = true)
    {user : β} (answer : s.answer = some user) :
    Ordered device contents
      { s with pc := s.pc + 1, waiting := false, answer := none, results := s.results ++ [user] }
      pending := by
  have getting := ordered.getting
  rw [if_pos waits] at getting
  obtain ⟨data, next, getting⟩ := getting
  cases getting with
  | queued front accel last quiet unanswered =>
    rw [answer] at unanswered
    cases unanswered
  | selected running quiet unused unanswered =>
    rw [answer] at unanswered
    cases unanswered
  | answered quiet expected =>
    refine ⟨ordered.queues, ordered.assigned, ordered.home, ?_, ?_, ⟨quiet, rfl⟩⟩
    · show _ = inOrder (device.program.take (s.pc + 1)) contents
      rw [inOrder_succ next]
      exact ordered.leads
    · show s.results ++ [user] = answers (device.program.take (s.pc + 1)) contents
      rw [answers_succ next, ordered.results, Option.some.inj (answer.symm.trans expected)]
      rfl

end Client

/-! ### The moves of the worker -/

section Serve

variable {device : Device β} {contents : Nat → β} {s t : DataState β}
  {pending : List (Nat × Work β)}

/-- The worker does something that touches neither a queue nor data. -/
theorem Ordered.rework {worker : Worker β} (ordered : Ordered device contents s pending)
    (before : s.worker.task = []) (after : worker.task = []) :
    Ordered device contents { s with worker := worker } pending := by
  have leads := ordered.leads
  have getting := ordered.getting
  rw [before] at leads getting
  refine ⟨ordered.queues, ordered.assigned, ordered.home, ?_, ordered.results, ?_⟩
  · show (worker.task ++ _).foldl execute s.contents = _
    rw [after]
    exact leads
  · show if s.waiting = true then _ else Quiet (worker.task ++ _) ∧ _
    rw [after]
    split_ifs at getting ⊢
    · obtain ⟨data, next, getting⟩ := getting
      refine ⟨data, next, ?_⟩
      cases getting with
      | queued front accel last quiet unanswered =>
        rw [before] at quiet
        exact .queued front accel last (after.symm ▸ quiet) unanswered
      | selected running quiet unused unanswered =>
        rw [running] at before
        cases before
      | answered quiet answer =>
        rw [before] at quiet
        exact .answered (after.symm ▸ quiet) answer
    · exact getting

theorem Quiet.sublist {works others : List (Work β)} (quiet : Quiet works)
    (part : ∀ work ∈ others, work ∈ works) : Quiet others :=
  fun work member => quiet work (part work member)

/-- The first task of a queue is the first of those pending that were issued to it. -/
theorem Ordered.split {vac : Nat} {task : Work β} {tasks : List (Work β)}
    (ordered : Ordered device contents s pending) (found : s.queue vac = task :: tasks) :
    ∃ front back, pending = front ++ (vac, task) :: back ∧ (∀ other ∈ front, other.1 ≠ vac) ∧
      tasks = (back.filter fun entry => entry.1 = vac).map Prod.snd := by
  have queue := ordered.queues vac
  rw [found] at queue
  obtain ⟨⟨home, work⟩, later, filtered, rfl, rfl⟩ := List.map_eq_cons_iff.mp queue.symm
  obtain ⟨front, back, rfl, others, mine, rest⟩ := List.filter_eq_cons_iff.mp filtered
  have same : home = vac := of_decide_eq_true mine
  refine ⟨front, back, by rw [← same], fun other member same => ?_, by rw [rest]⟩
  exact others other member (decide_eq_true same)

section Select

variable {vac : Nat} {task : Work β} {front back : List (Nat × Work β)}

/-- What the tasks in front use is assigned to other VAQs. -/
theorem Ordered.disjoint (ordered : Ordered device contents s (front ++ (vac, task) :: back))
    (away : ∀ other ∈ front, other.1 ≠ vac) :
    ∀ other ∈ front, ∀ data ∈ task.io, data ∉ other.2.io := by
  intro other member data uses also
  have here := ordered.home (vac, task) (by simp) data uses
  have there := ordered.home other (by simp [member]) data also
  rw [here] at there
  exact away other member (Option.some.inj there).symm

/-- The queues without the first task of one of them. -/
theorem Ordered.select_queues (ordered : Ordered device contents s (front ++ (vac, task) :: back))
    (away : ∀ other ∈ front, other.1 ≠ vac) (accel : Nat) :
    Function.update s.queue vac ((back.filter fun entry => entry.1 = vac).map Prod.snd) accel =
      ((front ++ back).filter fun entry => entry.1 = accel).map Prod.snd := by
  have all := ordered.queues accel
  rw [List.filter_append, List.filter_cons] at all
  by_cases here : accel = vac
  · have none : front.filter (fun entry => decide (entry.1 = vac)) = [] :=
      List.filter_eq_nil_iff.mpr fun other member same =>
        away other member (of_decide_eq_true same)
    rw [here, Function.update_self, List.filter_append, none, List.nil_append]
  · rw [Function.update_of_ne here, all, if_neg, List.filter_append]
    simp only [decide_eq_true_eq]
    exact Ne.symm here

/-- No task of `arax_data_get` comes in when a task is selected. -/
theorem Quiet.select {works : List (Work β)}
    (quiet : Quiet (works ++ (front ++ (vac, task) :: back).map Prod.snd)) :
    Quiet ([task] ++ (front ++ back).map Prod.snd) := by
  refine quiet.sublist fun work member => ?_
  simp only [List.map_append, List.map_cons, List.mem_append, List.mem_cons, List.not_mem_nil,
    or_false] at member ⊢
  tauto

/-- The `arax_data_get` of the client when a task is selected: if it is its own, none of the tasks
in the queues uses the data. -/
theorem Getting.select {queue : Nat → List (Work β)} {position data : Nat} {expected : Nat → β}
    (getting : Getting s (front ++ (vac, task) :: back) expected data)
    (before : s.worker.task = [])
    (disjoint : ∀ other ∈ front, ∀ data ∈ task.io, data ∉ other.2.io) :
    Getting { s with queue := queue, rrCounter := position, worker := .run task } (front ++ back)
      expected data := by
  cases getting with
  | queued first accel last quiet unanswered =>
    rcases List.eq_nil_or_concat back with rfl | ⟨middle, final, rfl⟩
    · obtain ⟨rfl, single⟩ := List.append_inj' last rfl
      cases single
      refine .selected rfl ?_ (fun other member => ?_) unanswered
      · exact quiet.sublist fun work member => by simpa [before] using member
      · rw [List.append_nil] at member
        exact disjoint other member data List.mem_cons_self
    · rw [List.concat_eq_append, ← List.cons_append, ← List.append_assoc] at last
      obtain ⟨rfl, single⟩ := List.append_inj' last rfl
      refine .queued (front ++ middle) accel ?_ quiet.select unanswered
      rw [List.concat_eq_append, single, List.append_assoc]
  | selected running quiet unused unanswered =>
    rw [running] at before
    cases before
  | answered quiet answer => exact .answered quiet.select answer

end Select

/-- **A task is selected.** Those that were issued before it and are still in other queues use other
data, so it may go before them. -/
theorem Ordered.select {vac position : Nat} {task : Work β} {tasks : List (Work β)}
    (ordered : Ordered device contents s pending) (before : s.worker.task = [])
    (found : s.queue vac = task :: tasks) :
    InProgramOrder device contents
      { s with
        queue := Function.update s.queue vac tasks
        rrCounter := position
        worker := .run task } := by
  obtain ⟨front, back, rfl, away, rfl⟩ := ordered.split found
  have leads := ordered.leads
  have getting := ordered.getting
  have disjoint := ordered.disjoint away
  rw [before, List.nil_append] at leads
  have part : ∀ other, other ∈ front ++ back → other ∈ front ++ (vac, task) :: back := by
    intro other member
    rcases List.mem_append.mp member with left | right
    · exact List.mem_append_left _ left
    · exact List.mem_append_right _ (List.mem_cons_of_mem _ right)
  refine ⟨front ++ back, ordered.select_queues away, ordered.assigned,
    fun other member => ordered.home other (part other member), ?_, ordered.results, ?_⟩
  · show (task :: (front ++ back).map Prod.snd).foldl execute s.contents = _
    rw [← leads, List.map_append, List.map_append, List.map_cons]
    refine (foldl_front (fun other member memory => ?_) s.contents).symm
    obtain ⟨source, inside, rfl⟩ := List.mem_map.mp member
    exact (execute_local task).comm (execute_local source.2) (disjoint source inside) memory
  · show if s.waiting = true then _ else Quiet ([task] ++ _) ∧ s.answer = none
    split_ifs at getting ⊢
    · obtain ⟨data, next, getting⟩ := getting
      exact ⟨data, next, getting.select before disjoint⟩
    · exact ⟨getting.1.select, getting.2⟩

theorem hostData_other {task : Work β} (other : ∀ data, task ≠ .get data) :
    hostData s task = s.answer := by
  cases task with
  | set data user => rfl
  | get data => exact absurd rfl (other data)
  | kernel io functor => rfl

/-- **A task is executed.** -/
theorem Ordered.execute {task : Work β} (ordered : Ordered device contents s pending)
    (running : s.worker = .run task) :
    Ordered device contents (workerStep device s) pending := by
  have leads := ordered.leads
  have getting := ordered.getting
  have tasks : s.worker.task = [task] := by rw [running]; rfl
  have step : workerStep device s = { s with
      contents := Core.execute s.contents task
      worker := .idle
      answer := hostData s task } := by
    unfold workerStep
    rw [running]
  rw [tasks] at leads getting
  rw [step]
  refine ⟨ordered.queues, ordered.assigned, ordered.home, leads, ordered.results, ?_⟩
  show if s.waiting = true then _ else Quiet ([] ++ _) ∧ hostData s task = none
  split_ifs at getting ⊢
  · obtain ⟨data, next, getting⟩ := getting
    refine ⟨data, next, ?_⟩
    cases getting with
    | queued front accel last quiet unanswered =>
      rw [tasks] at quiet
      refine .queued front accel last (quiet.sublist fun work => List.mem_cons_of_mem task) ?_
      exact (hostData_other (quiet task List.mem_cons_self)).trans unanswered
    | selected get quiet unused unanswered =>
      rw [running] at get
      cases get
      refine .answered quiet (congrArg some ?_)
      -- the tasks that are left use other data
      have rest : (pending.map Prod.snd).foldl Core.execute s.contents = _ := leads
      rw [← rest]
      refine (foldl_frame (fun work member memory => ?_) s.contents).symm
      obtain ⟨entry, inside, rfl⟩ := List.mem_map.mp member
      exact (execute_local entry.2).frame memory data (unused entry inside)
    | answered quiet answer =>
      rw [tasks] at quiet
      refine .answered (quiet.sublist fun work => List.mem_cons_of_mem task) ?_
      exact (hostData_other (quiet task List.mem_cons_self)).trans answer
  · refine ⟨getting.1.sublist fun work => List.mem_cons_of_mem task, ?_⟩
    exact (hostData_other (getting.1 task List.mem_cons_self)).trans getting.2

end Serve

/-! ### Runs -/

section Runs

variable {device : Device β} {contents : Nat → β} {s t : DataState β} {mover : Mover}

/-- The worker keeps the program order. -/
theorem Ordered.work {pending : List (Nat × Work β)} (ordered : Ordered device contents s pending) :
    InProgramOrder device contents (workerStep device s) := by
  unfold workerStep
  cases at' : s.worker with
  | idle =>
    have before : s.worker.task = [] := by rw [at']; rfl
    show InProgramOrder device contents (if device.vacs.length = 0 then s else _)
    split_ifs
    · exact ⟨pending, ordered⟩
    · exact ⟨pending, ordered.rework before rfl⟩
  | select todo =>
    have before : s.worker.task = [] := by rw [at']; rfl
    cases todo with
    | nil => exact ⟨pending, ordered.rework before rfl⟩
    | cons first todo =>
      cases found : s.queue first.1 with
      | nil =>
        simp only [found]
        exact ⟨pending, ordered.rework before rfl⟩
      | cons task tasks =>
        simp only [found]
        exact ordered.select before found
  | run task =>
    have executed := ordered.execute at'
    unfold workerStep at executed
    rw [at'] at executed
    exact ⟨pending, executed⟩

/-- The client keeps the program order, if it takes no data away from a queue that uses it. -/
theorem Ordered.call {pending : List (Nat × Work β)} (ordered : Ordered device contents s pending)
    (guard : OrderGuard device s .client) (move : clientStep device s = some t) :
    InProgramOrder device contents t := by
  unfold clientStep at move
  split_ifs at move with waits
  · obtain ⟨user, answer, rfl⟩ := Option.map_eq_some_iff.mp move
    exact ⟨pending, ordered.return waits answer⟩
  · have free : s.waiting = false := eq_false_of_ne_true waits
    obtain ⟨call, next, move⟩ := Option.bind_eq_some_iff.mp move
    have idle := guard call next
    cases call with
    | set data accel user =>
      simp only [clientCall] at move
      split_ifs at move with same
      refine ⟨_, ordered.submit (.set data accel user) free next
        (fun _ impossible => by cases impossible) (fun _ => rfl) (fun d uses old found => .inl ?_)
        move⟩
      rw [List.mem_singleton.mp uses] at found
      rcases same with unassigned | here
      · rw [Option.mem_def, unassigned] at found
        cases found
      · rw [Option.mem_def, here] at found
        exact (Option.some.inj found).symm
    | issue accel ins outs functor =>
      exact ⟨_, ordered.submit (.issue accel ins outs functor) free next
        (fun _ impossible => by cases impossible) (fun _ => rfl) idle move⟩
    | get data =>
      obtain ⟨accel, home, move⟩ := Option.bind_eq_some_iff.mp move
      exact ⟨_, ordered.submitGet free next home move⟩

/-- Every state of a guarded run is in program order. -/
theorem ordered_of_run {movers : List Mover}
    (guarded : Guarded (dataStep device) (OrderGuard device) (DataState.start contents) movers)
    (run : exec (dataStep device) (DataState.start contents) movers = some s) :
    InProgramOrder device contents s := by
  have keeps : ∀ s mover t, InProgramOrder device contents s → OrderGuard device s mover →
      dataStep device s mover = some t → InProgramOrder device contents t := by
    rintro s mover t ⟨pending, ordered⟩ guard move
    cases mover with
    | client => exact ordered.call guard move
    | worker =>
      cases move
      exact ordered.work
  exact exec_guarded keeps ⟨[], ordered_start device contents⟩ guarded run

end Runs

end Arax.Core
