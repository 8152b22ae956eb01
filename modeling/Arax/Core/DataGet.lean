/-
**What `arax_data_get` returns.**

The client waits in `arax_data_get` until the worker has executed the task of the call. Then the
earlier tasks that use the data have been executed as well, because they were in the same queue; the
comment in the function promises so much for all operations on the data.

* `serves_drained` — the worker gets to every task.
* `data_get_in_order` — if no data moves away from a queue in which a task still uses it, every
  `arax_data_get` returns the contents of the program order, and it does return.
* `data_get_out_of_order` — without this, it may return something else.
-/

import Mathlib.Algebra.Order.BigOperators.Group.List
import Mathlib.Algebra.Order.Ring.Nat
import Arax.Core.DataOrder

namespace Arax.Core

open Arax.Lib

variable {β : Type}

/-! ### The worker gets to every task -/

section Progress

variable {device : Device β} {contents : Nat → β} {s t u : DataState β}

/-- The worker alone leads from one state to another. -/
inductive Serves (device : Device β) : DataState β → DataState β → Prop where
  | refl (s : DataState β) : Serves device s s
  | step {s t : DataState β} (rest : Serves device (workerStep device s) t) : Serves device s t

theorem Serves.trans (first : Serves device s t) (second : Serves device t u) :
    Serves device s u := by
  induction first with
  | refl => exact second
  | step _ ih => exact .step (ih second)

theorem Serves.exec (serves : Serves device s t) :
    ∃ n, exec (dataStep device) s (List.replicate n .worker) = some t := by
  induction serves with
  | refl s => exact ⟨0, rfl⟩
  | step _ ih =>
    obtain ⟨n, run⟩ := ih
    exact ⟨n + 1, run⟩

/-- What the worker does not touch. -/
theorem workerStep_client (device : Device β) (s : DataState β) :
    (workerStep device s).pc = s.pc ∧ (workerStep device s).waiting = s.waiting ∧
      (workerStep device s).accel = s.accel := by
  unfold workerStep
  repeat' split
  all_goals exact ⟨rfl, rfl, rfl⟩

theorem Serves.client (serves : Serves device s t) :
    t.pc = s.pc ∧ t.waiting = s.waiting ∧ t.accel = s.accel := by
  induction serves with
  | refl s => exact ⟨rfl, rfl, rfl⟩
  | @step s _ _ ih =>
    obtain ⟨pc, waiting, accel⟩ := workerStep_client device s
    exact ⟨ih.1.trans pc, ih.2.1.trans waiting, ih.2.2.trans accel⟩

theorem Serves.ordered (serves : Serves device s t) (before : InProgramOrder device contents s) :
    InProgramOrder device contents t := by
  induction serves with
  | refl s => exact before
  | step _ ih =>
    obtain ⟨pending, ordered⟩ := before
    exact ih ordered.work

/-- The tasks in the queues. -/
def queued (device : Device β) (s : DataState β) : Nat :=
  (device.vacs.map fun vac => (s.queue vac).length).sum

/-- `selectTask` takes a task from a queue if one of those it still visits has some. -/
theorem serves_select (device : Device β) {rest : List (Nat × Nat)} (at' : s.worker = .select rest)
    (visits : ∃ entry ∈ rest, s.queue entry.1 ≠ []) :
    ∃ t vac task tasks, Serves device s t ∧ t.worker = .run task ∧ (∃ i, (vac, i) ∈ rest) ∧
      s.queue vac = task :: tasks ∧ t.queue = Function.update s.queue vac tasks := by
  induction rest generalizing s with
  | nil =>
    obtain ⟨entry, impossible, -⟩ := visits
    cases impossible
  | cons first rest ih =>
    cases found : s.queue first.1 with
    | nil =>
      have move : workerStep device s = { s with worker := .select rest } := by
        unfold workerStep
        rw [at']
        simp only [found]
      obtain ⟨entry, member, some⟩ := visits
      have later : entry ∈ rest := by
        rcases List.mem_cons.mp member with same | later
        · rw [same] at some
          exact absurd found some
        · exact later
      obtain ⟨t, vac, task, tasks, serves, running, ⟨i, listed⟩, queue, queues⟩ :=
        ih (s := { s with worker := .select rest }) rfl ⟨entry, later, some⟩
      exact ⟨t, vac, task, tasks, .step (move ▸ serves), running,
        ⟨i, List.mem_cons_of_mem first listed⟩, queue, queues⟩
    | cons task tasks =>
      have move : workerStep device s = { s with
          queue := Function.update s.queue first.1 tasks
          rrCounter := first.2
          worker := .run task } := by
        unfold workerStep
        rw [at']
        simp only [found]
      exact ⟨_, first.1, task, tasks, .step (.refl _), by rw [move], ⟨first.2, List.mem_cons_self⟩,
        found, by rw [move]⟩

/-- Every VAQ is visited. -/
theorem mem_rrOrder {vacs : List Nat} {vac : Nat} (member : vac ∈ vacs) (rrCounter : Nat) :
    ∃ i, (vac, i) ∈ rrOrder vacs rrCounter := by
  obtain ⟨i, here⟩ := List.mem_iff_getElem?.mp member
  refine ⟨i, ?_⟩
  have listed : (vac, i) ∈ vacs.zipIdx := List.mem_zipIdx_iff_getElem?.mpr here
  rw [← List.take_append_drop ((rrCounter + 1) % vacs.length) vacs.zipIdx] at listed
  exact List.mem_append.mpr (List.mem_append.mp listed).symm

theorem of_mem_rrOrder {vacs : List Nat} {vac i rrCounter : Nat}
    (member : (vac, i) ∈ rrOrder vacs rrCounter) : vac ∈ vacs :=
  (rrOrder_perm vacs rrCounter).mem_iff.mp (List.mem_map_of_mem member)

theorem queued_pop (device : Device β) {vac : Nat} {task : Work β} {tasks : List (Work β)}
    (found : s.queue vac = task :: tasks) (queues : t.queue = Function.update s.queue vac tasks) :
    queued device t ≤ queued device s ∧
      (vac ∈ device.vacs → queued device t < queued device s) := by
  have less : ∀ v ∈ device.vacs, (t.queue v).length ≤ (s.queue v).length := by
    intro v _
    rw [queues, Function.update_apply]
    split_ifs with same
    · rw [same, found]
      exact Nat.le_succ _
    · exact Nat.le_refl _
  refine ⟨List.sum_le_sum less, fun member => List.sum_lt_sum _ _ less ⟨vac, member, ?_⟩⟩
  rw [queues, Function.update_self, found]
  exact Nat.lt_succ_self _

theorem serves_run (device : Device β) {task : Work β} (running : s.worker = .run task) :
    ∃ t, Serves device s t ∧ t.worker = .idle ∧ t.queue = s.queue := by
  refine ⟨workerStep device s, .step (.refl _), ?_, ?_⟩ <;>
  · unfold workerStep
    rw [running]

/-- The worker gets out of `selectTask`. -/
theorem serves_idle (device : Device β) (s : DataState β) :
    ∃ t, Serves device s t ∧ t.worker = .idle ∧ queued device t ≤ queued device s := by
  cases at' : s.worker with
  | idle => exact ⟨s, .refl s, at', Nat.le_refl _⟩
  | run task =>
    obtain ⟨t, serves, idle, queues⟩ := serves_run device at'
    exact ⟨t, serves, idle, Nat.le_of_eq (by unfold queued; rw [queues])⟩
  | select rest =>
    by_cases visits : ∃ entry ∈ rest, s.queue entry.1 ≠ []
    · obtain ⟨t, vac, task, tasks, serves, running, -, found, queues⟩ :=
        serves_select device at' visits
      obtain ⟨u, serves', idle, same⟩ := serves_run device running
      refine ⟨u, serves.trans serves', idle, ?_⟩
      exact (queued_pop device found (same.trans queues)).1
    · induction rest generalizing s with
      | nil =>
        refine ⟨{ s with worker := .idle }, .step ?_, rfl, Nat.le_refl _⟩
        unfold workerStep
        rw [at']
        exact .refl _
      | cons first rest ih =>
        have none : s.queue first.1 = [] := by
          by_contra some
          exact visits ⟨first, List.mem_cons_self, some⟩
        obtain ⟨t, serves, idle, less⟩ := ih { s with worker := .select rest } rfl
          fun ⟨entry, member, busy⟩ => visits ⟨entry, List.mem_cons_of_mem first member, busy⟩
        refine ⟨t, .step ?_, idle, less⟩
        unfold workerStep
        rw [at']
        simp only [none]
        exact serves

/-- **The worker empties the queues,** as long as the client waits. -/
theorem serves_drained (device : Device β) (s : DataState β) :
    ∃ t, Serves device s t ∧ t.worker = .idle ∧ ∀ vac ∈ device.vacs, t.queue vac = [] := by
  induction count : queued device s using Nat.strong_induction_on generalizing s with
  | _ n ih =>
    obtain ⟨t, serves, idle, less⟩ := serves_idle device s
    by_cases empty : ∀ vac ∈ device.vacs, t.queue vac = []
    · exact ⟨t, serves, idle, empty⟩
    · simp only [not_forall] at empty
      obtain ⟨vac, member, some⟩ := empty
      have begin' : workerStep device t =
          { t with worker := .select (rrOrder device.vacs t.rrCounter) } := by
        unfold workerStep
        rw [idle]
        exact if_neg (Nat.ne_of_gt (List.length_pos_of_mem member))
      obtain ⟨i, listed⟩ := mem_rrOrder member t.rrCounter
      obtain ⟨u, popped, task, tasks, serves', running, ⟨j, visited⟩, found, queues⟩ :=
        serves_select device
          (s := { t with worker := .select (rrOrder device.vacs t.rrCounter) }) rfl
          ⟨(vac, i), listed, some⟩
      have fewer := (queued_pop device (s := t) found queues).2 (of_mem_rrOrder visited)
      obtain ⟨v, rest, idle', empty⟩ := ih _ (count ▸ Nat.lt_of_lt_of_le fewer less) u rfl
      exact ⟨v, serves.trans (.step (begin' ▸ serves'.trans rest)), idle', empty⟩

/-- A wait of the client ends. -/
theorem answered_of_waiting (ordered : InProgramOrder device contents s)
    (waits : s.waiting = true) :
    ∃ n t, exec (dataStep device) s (List.replicate n .worker ++ [.client]) = some t ∧
      t.pc = s.pc + 1 := by
  obtain ⟨t, serves, idle, empty⟩ := serves_drained device s
  obtain ⟨pc, waiting, -⟩ := serves.client
  obtain ⟨pending, after⟩ := serves.ordered ordered
  have getting := after.getting
  rw [waiting, if_pos waits] at getting
  obtain ⟨data, -, getting⟩ := getting
  have answer : ∃ user, t.answer = some user := by
    cases getting with
    | queued front accel last quiet unanswered =>
      -- the task would still be in a queue
      have member : (accel, Work.get data) ∈ pending := by rw [last]; simp
      have home := after.home _ member data List.mem_cons_self
      have none := empty accel (after.assigned data accel home)
      rw [after.queues, List.map_eq_nil_iff, List.filter_eq_nil_iff] at none
      exact absurd (decide_eq_true rfl) (none _ member)
    | selected running quiet unused unanswered =>
      rw [running] at idle
      cases idle
    | answered quiet answer => exact ⟨_, answer⟩
  obtain ⟨user, answer⟩ := answer
  obtain ⟨n, run⟩ := serves.exec
  refine ⟨n,
    { t with pc := t.pc + 1, waiting := false, answer := none, results := t.results ++ [user] },
    ?_, ?_⟩
  · rw [exec_append, run]
    show (clientStep device t).bind _ = _
    unfold clientStep
    rw [if_pos (waiting.trans waits), answer]
    rfl
  · show t.pc + 1 = s.pc + 1
    rw [pc]

/-- An `arax_data_get` of assigned data returns: the worker makes space for its task, and gets to
it. -/
theorem returns_of_get {data accel : Nat} (ordered : InProgramOrder device contents s)
    (free : s.waiting = false) (next : device.program[s.pc]? = some (.get data))
    (home : s.accel data = some accel) :
    ∃ n m t, exec (dataStep device) s
        (List.replicate n .worker ++ .client :: (List.replicate m .worker ++ [.client])) = some t ∧
      t.pc = s.pc + 1 := by
  obtain ⟨t, serves, -, empty⟩ := serves_drained device s
  obtain ⟨pc, waiting, accels⟩ := serves.client
  obtain ⟨pending, after⟩ := serves.ordered ordered
  have home' : t.accel data = some accel := accels ▸ home
  have next' : device.program[t.pc]? = some (.get data) := pc.symm ▸ next
  have inside := after.assigned data accel home'
  have space : (t.queue accel).length < device.capacity := by
    rw [empty accel inside]
    exact device.positive
  have move : clientStep device t = some { t with
      accel := [data].foldl (migrateAccel accel) t.accel
      queue := Function.update t.queue accel (t.queue accel ++ [.get data])
      waiting := true } := by
    unfold clientStep
    rw [waiting, free, next']
    simp only [Bool.false_eq_true, if_false, Option.bind_some, clientCall, home', submitWork,
      if_pos (And.intro inside space), Option.map_some, Work.io]
  have guard : OrderGuard device t .client := by
    intro call found
    rw [next'] at found
    cases found
    trivial
  obtain ⟨m, u, run, last⟩ := answered_of_waiting (after.call guard move) rfl
  obtain ⟨n, first⟩ := serves.exec
  refine ⟨n, m, u, ?_, last.trans (congrArg (· + 1) pc)⟩
  rw [exec_append, first]
  show (clientStep device t).bind _ = _
  rw [move]
  exact run

/-- **Every `arax_data_get` returns the contents of the program order.** In every run in which
`arax_task_issue` takes no data away from a queue in which a task still uses it, whatever the order
of client and worker: what was returned so far is what the calls return one after the other, and
the next `arax_data_get` returns as well, as soon as the worker was given enough moves. -/
theorem data_get_in_order (device : Device β) (contents : Nat → β) (movers : List Mover)
    (s : DataState β)
    (guarded : Guarded (dataStep device) (OrderGuard device) (DataState.start contents) movers)
    (run : exec (dataStep device) (DataState.start contents) movers = some s) :
    s.results = answers (device.program.take s.pc) contents ∧
      (s.waiting = true → ∃ n t,
        exec (dataStep device) s (List.replicate n .worker ++ [.client]) = some t ∧
          t.pc = s.pc + 1) ∧
      ∀ data accel, s.waiting = false → device.program[s.pc]? = some (.get data) →
        s.accel data = some accel → ∃ n m t,
          exec (dataStep device) s (List.replicate n .worker ++
            .client :: (List.replicate m .worker ++ [.client])) = some t ∧ t.pc = s.pc + 1 := by
  have ordered := ordered_of_run guarded run
  refine ⟨?_, answered_of_waiting ordered, fun data accel => returns_of_get ordered⟩
  obtain ⟨pending, ordered⟩ := ordered
  exact ordered.results

/-- Two VAQs, and a buffer that is set on the first, incremented on the second and read back. -/
def twoVacs : Device Nat where
  vacs := [10, 11]
  capacity := 256
  positive := by decide
  program := [.set 0 10 1, .issue 11 [] [0] (List.map (· + 1)), .get 0]

/-- The worker executes the first task before the buffer moves. -/
def patientMoves : List Mover :=
  .client :: List.replicate 4 .worker ++ [.client, .client] ++ List.replicate 7 .worker ++ [.client]

theorem data_get_in_order_at_patience :
    ∃ s, exec (dataStep twoVacs) (DataState.start fun _ => 0) patientMoves = some s ∧
      s.results = [2] ∧ s.results = answers (twoVacs.program.take s.pc) fun _ => 0 := by
  have returns : ((exec (dataStep twoVacs) (DataState.start fun _ => 0) patientMoves).map
      DataState.results) = some [2] := by
    decide +kernel
  obtain ⟨s, run, results⟩ := Option.map_eq_some_iff.mp returns
  exact ⟨s, run, results,
    (data_get_in_order twoVacs (fun _ => 0) patientMoves s (by decide +kernel) run).1⟩

/-- All calls are made before the worker starts, which visits the second VAQ first. -/
def hastyMoves : List Mover :=
  List.replicate 3 .client ++ List.replicate 9 .worker ++ [.client]

/-- The increment overtakes the task of `arax_data_set`: the client reads 1 instead of 2. -/
theorem data_get_out_of_order :
    ∃ s, exec (dataStep twoVacs) (DataState.start fun _ => 0) hastyMoves = some s ∧
      s.pc = 3 ∧ s.results = [1] ∧ answers (twoVacs.program.take 3) (fun _ => 0) = [2] := by
  have returns : ((exec (dataStep twoVacs) (DataState.start fun _ => 0) hastyMoves).map
      fun s => (s.pc, s.results)) = some (3, [1]) := by
    decide +kernel
  obtain ⟨s, run, both⟩ := Option.map_eq_some_iff.mp returns
  obtain ⟨pc, results⟩ := Prod.mk.inj both
  exact ⟨s, run, pc, results, rfl⟩

end Progress

end Arax.Core
