/-
**Copying data (`arax_data_memcpy` in `src/core/arax_data.c`).**

The copy is an `arax_data_get` of the source into a null pointer, to bring the shared buffer of the
source up to date, and an `arax_data_set` of the destination from this buffer. `arax_data_get` does
not write the shared buffer: it copies the host data of its task to the pointer that it is given.

* `copyStep` — the moves of a client that also copies, beside the worker of `DataQueues`.
* `Steady` — at most one task of `arax_data_get` is under way, and the client waits for it.
* `UpToDate` — what a copy is for, in all runs from a state.
* `data_memcpy_iff` — exactly copies of empty data are so.
-/

import Arax.Core.DataGet

namespace Arax.Core

open Arax.Lib

/-- The bytes of data, of which the first `arax_data_size` ones count. -/
abbrev Contents : Type := Nat → BitVec 8

/-- A call of a client. -/
inductive CopyCall where
  | call (call : DataCall Contents)
  /-- `arax_data_memcpy`. The source does not use its last argument, `block`. -/
  | memcpy (accel dst src : Nat)

/-- The physical accelerator, and the data. -/
structure CopyDevice extends Device Contents where
  /-- `arax_data_size`. -/
  size : Nat → Nat
  /-- On a CPU the contents of data are those of its shared buffer. -/
  cpu : Bool
  /-- Elsewhere no task touches the shared buffers. -/
  shm : Nat → Contents

/-- The state of worker and client, and the calls that the client has still to make. -/
structure CopyState where
  base : DataState Contents
  todo : List CopyCall

/-- The bytes behind `arax_data_deref`. -/
def CopyDevice.deref (device : CopyDevice) (s : CopyState) (data : Nat) : Contents :=
  if device.cpu then s.base.contents data else device.shm data

/-- The return of an `arax_data_get`, without its result. -/
def DataState.returned {β : Type} (s : DataState β) : DataState β :=
  { s with waiting := false, answer := none }

/-- A move in `arax_data_memcpy`. A copy of some bytes to a null pointer ends the client. -/
def memcpyStep (device : CopyDevice) (s : CopyState) (accel dst src : Nat)
    (rest : List CopyCall) : Option CopyState :=
  if dst = src then some { s with todo := rest }
  else if device.size dst ≠ device.size src then none
  else if s.base.waiting then
    s.base.answer.bind fun _ =>
      if device.size src = 0 then
        some { base := s.base.returned
               todo := .call (.set dst accel (device.deref s src)) :: rest }
      else none
  else (clientCall device.toDevice s.base (.get src)).map fun base => { s with base := base }

/-- The next move of the client. -/
def copyClientStep (device : CopyDevice) (s : CopyState) : Option CopyState :=
  match s.todo with
  | [] => none
  | .memcpy accel dst src :: rest => memcpyStep device s accel dst src rest
  | .call call :: rest =>
    if s.base.waiting then
      s.base.answer.map fun user =>
        { base := { s.base.returned with results := s.base.results ++ [user] }, todo := rest }
    else
      (clientCall device.toDevice s.base call).map fun base =>
        { base := base, todo := if base.waiting then s.todo else rest }

/-- One move. -/
def copyStep (device : CopyDevice) (s : CopyState) : Mover → Option CopyState
  | .client => copyClientStep device s
  | .worker => some { s with base := workerStep device.toDevice s.base }

/-- Read the source, copy it, and read both. -/
def copyProgram (accel dst src : Nat) : List CopyCall :=
  [.call (.get src), .memcpy accel dst src, .call (.get dst), .call (.get src)]

/-- **The copy is up to date.** A client that reads the source, copies it and reads both, gets
through, and then it has always read the same contents three times. -/
def UpToDate (device : CopyDevice) (base : DataState Contents) (accel dst src : Nat) : Prop :=
  (∃ movers t, exec (copyStep device) ⟨base, copyProgram accel dst src⟩ movers = some t ∧
    t.todo = []) ∧
  ∀ movers t, exec (copyStep device) ⟨base, copyProgram accel dst src⟩ movers = some t →
    t.todo = [] → ∃ before after kept, t.base.results = base.results ++ [before, after, kept] ∧
      ∀ i < device.size src, after i = before i ∧ kept i = before i

/-! ### The task of `arax_data_get` -/

section Asking

variable {β : Type} {device : Device β} {s t : DataState β}

/-- No task of `arax_data_get` is under way. -/
structure Silent (s : DataState β) : Prop where
  worker : Quiet s.worker.task
  queue : ∀ vac, Quiet (s.queue vac)
  answer : s.answer = none

/-- One is: in a queue of the worker, selected, or completed. -/
inductive Asking (device : Device β) (s : DataState β) : Prop where
  | queued (vac : Nat) (front : List (Work β)) (data : Nat) (inside : vac ∈ device.vacs)
      (last : s.queue vac = front ++ [.get data]) (quiet : Quiet front)
      (others : ∀ v, v ≠ vac → Quiet (s.queue v)) (idle : Quiet s.worker.task)
      (unanswered : s.answer = none)
  | selected (data : Nat) (running : s.worker = .run (.get data)) (quiet : ∀ v, Quiet (s.queue v))
      (unanswered : s.answer = none)
  | answered (user : β) (quiet : ∀ v, Quiet (s.queue v)) (idle : Quiet s.worker.task)
      (answer : s.answer = some user)

/-- The client waits exactly for the task of `arax_data_get` that is under way, and data is assigned
to VAQs of the worker. -/
structure Steady (device : Device β) (s : DataState β) : Prop where
  assigned : ∀ data accel, s.accel data = some accel → accel ∈ device.vacs
  asking : if s.waiting then Asking device s else Silent s

theorem steady_start (contents : Nat → β) : Steady device (DataState.start contents) :=
  ⟨fun _ _ impossible => (by cases impossible),
    ⟨fun _ impossible => (by cases impossible), fun _ _ impossible => (by cases impossible), rfl⟩⟩

theorem quiet_nil : Quiet ([] : List (Work β)) := fun _ impossible => (by cases impossible)

theorem quiet_cons {work : Work β} {works : List (Work β)} :
    Quiet (work :: works) ↔ (∀ data, work ≠ .get data) ∧ Quiet works :=
  List.forall_mem_cons

theorem quiet_append {works others : List (Work β)} :
    Quiet (works ++ others) ↔ Quiet works ∧ Quiet others :=
  List.forall_mem_append

/-- The queues without the first task of one of them. -/
theorem quiet_update {queue : Nat → List (Work β)} {vac : Nat} {works : List (Work β)}
    (quiet : ∀ v, v ≠ vac → Quiet (queue v)) (here : Quiet works) (v : Nat) :
    Quiet (Function.update queue vac works v) := by
  by_cases same : v = vac
  · rw [same, Function.update_self]
    exact here
  · rw [Function.update_of_ne same]
    exact quiet v same

theorem Silent.work (silent : Silent s) : Silent (workerStep device s) := by
  obtain ⟨worker, queue, answer⟩ := silent
  unfold workerStep
  cases at' : s.worker with
  | idle =>
    dsimp only
    split_ifs
    · exact ⟨worker, queue, answer⟩
    · exact ⟨quiet_nil, queue, answer⟩
  | select todo =>
    cases todo with
    | nil => exact ⟨quiet_nil, queue, answer⟩
    | cons first todo =>
      cases found : s.queue first.1 with
      | nil =>
        simp only [found]
        exact ⟨quiet_nil, queue, answer⟩
      | cons task tasks =>
        simp only [found]
        have both := queue first.1
        rw [found, quiet_cons] at both
        refine ⟨quiet_cons.mpr ⟨both.1, quiet_nil⟩, ?_, answer⟩
        exact quiet_update (fun v _ => queue v) both.2
  | run task =>
    rw [at'] at worker
    refine ⟨quiet_nil, queue, ?_⟩
    exact (hostData_other (quiet_cons.mp worker).1).trans answer

/-- The worker selects a task of a queue while one of `arax_data_get` is in a queue. -/
theorem Asking.select {vac position : Nat} {front : List (Work β)} {data : Nat}
    (inside : vac ∈ device.vacs) (last : s.queue vac = front ++ [.get data]) (quiet : Quiet front)
    (others : ∀ v, v ≠ vac → Quiet (s.queue v)) (unanswered : s.answer = none) {v : Nat}
    {task : Work β} {tasks : List (Work β)} (found : s.queue v = task :: tasks) :
    Asking device { s with
      queue := Function.update s.queue v tasks
      rrCounter := position
      worker := .run task } := by
  by_cases same : v = vac
  · rw [same, last] at found
    cases front with
    | nil =>
      obtain ⟨rfl, rfl⟩ := List.cons.inj found
      exact .selected data rfl (quiet_update (same.symm ▸ others) quiet_nil) unanswered
    | cons first front =>
      obtain ⟨rfl, rfl⟩ := List.cons.inj found
      obtain ⟨here, later⟩ := quiet_cons.mp quiet
      refine .queued vac front data inside ?_ later ?_ (quiet_cons.mpr ⟨here, quiet_nil⟩) unanswered
      · show Function.update s.queue v _ vac = _
        rw [same, Function.update_self]
        rfl
      · intro other away
        show Quiet (Function.update s.queue v _ other)
        rw [same, Function.update_of_ne away]
        exact others other away
  · have both := others v same
    rw [found, quiet_cons] at both
    refine .queued vac front data inside ?_ quiet ?_ (quiet_cons.mpr ⟨both.1, quiet_nil⟩) unanswered
    · show Function.update s.queue v tasks vac = _
      rw [Function.update_of_ne (Ne.symm same)]
      exact last
    · intro other away
      show Quiet (Function.update s.queue v tasks other)
      by_cases here : other = v
      · rw [here, Function.update_self]
        exact both.2
      · rw [Function.update_of_ne here]
        exact others other away

theorem Asking.work (asking : Asking device s) : Asking device (workerStep device s) := by
  unfold workerStep
  cases asking with
  | selected data running quiet unanswered =>
    rw [running]
    exact .answered (s.contents data) quiet quiet_nil rfl
  | queued vac front data inside last quiet others idle unanswered =>
    cases at' : s.worker with
    | idle =>
      dsimp only
      split_ifs
      · exact .queued vac front data inside last quiet others idle unanswered
      · exact .queued vac front data inside last quiet others quiet_nil unanswered
    | select todo =>
      cases todo with
      | nil => exact .queued vac front data inside last quiet others quiet_nil unanswered
      | cons first todo =>
        cases found : s.queue first.1 with
        | nil =>
          simp only [found]
          exact .queued vac front data inside last quiet others quiet_nil unanswered
        | cons task tasks =>
          simp only [found]
          exact Asking.select inside last quiet others unanswered found
    | run task =>
      rw [at'] at idle
      refine .queued vac front data inside last quiet others quiet_nil ?_
      exact (hostData_other (quiet_cons.mp idle).1).trans unanswered
  | answered user quiet idle answer =>
    cases at' : s.worker with
    | idle =>
      dsimp only
      split_ifs
      · exact .answered user quiet idle answer
      · exact .answered user quiet quiet_nil answer
    | select todo =>
      cases todo with
      | nil => exact .answered user quiet quiet_nil answer
      | cons first todo =>
        cases found : s.queue first.1 with
        | nil =>
          simp only [found]
          exact .answered user quiet quiet_nil answer
        | cons task tasks =>
          simp only [found]
          have both := quiet first.1
          rw [found, quiet_cons] at both
          refine .answered user ?_ (quiet_cons.mpr ⟨both.1, quiet_nil⟩) answer
          exact quiet_update (fun v _ => quiet v) both.2
    | run task =>
      rw [at'] at idle
      refine .answered user quiet quiet_nil ?_
      exact (hostData_other (quiet_cons.mp idle).1).trans answer

theorem Steady.work (steady : Steady device s) : Steady device (workerStep device s) := by
  obtain ⟨-, waiting, accel⟩ := workerStep_client device s
  refine ⟨fun data a => ?_, ?_⟩
  · rw [accel]
    exact steady.assigned data a
  · have asking := steady.asking
    rw [waiting]
    split_ifs at asking ⊢
    · exact asking.work
    · exact asking.work

theorem Serves.steady (serves : Serves device s t) (steady : Steady device s) :
    Steady device t := by
  induction serves with
  | refl s => exact steady
  | step _ ih => exact ih steady.work

/-- Data is assigned to the VAQ of the task. -/
theorem Steady.submit_assigned (steady : Steady device s) {accel : Nat} (work : Work β)
    (inside : accel ∈ device.vacs) (data a : Nat)
    (field : work.io.foldl (migrateAccel accel) s.accel data = some a) : a ∈ device.vacs := by
  rw [foldl_migrateAccel] at field
  split_ifs at field
  · exact Option.some.inj field ▸ inside
  · exact steady.assigned data a field

/-- A task that is not of `arax_data_get` is submitted. -/
theorem Steady.submit (steady : Steady device s) (free : s.waiting = false) {accel : Nat}
    {work : Work β} (other : ∀ data, work ≠ .get data)
    (done : submitWork device s accel work = some t) :
    Steady device t ∧ t.waiting = false ∧ t.results = s.results := by
  obtain ⟨inside, rfl⟩ := submitWork_some done
  have asking := steady.asking
  rw [free] at asking
  refine ⟨⟨steady.submit_assigned work inside, ?_⟩, free, rfl⟩
  show if s.waiting then _ else _
  rw [free]
  refine ⟨asking.worker, quiet_update (fun v _ => asking.queue v) ?_, asking.answer⟩
  exact quiet_append.mpr ⟨asking.queue accel, quiet_cons.mpr ⟨other, quiet_nil⟩⟩

/-- The number of the calls that have returned does not matter. -/
theorem Steady.count (steady : Steady device s) (pc : Nat) :
    Steady device { s with pc := pc } := by
  refine ⟨steady.assigned, ?_⟩
  have asking := steady.asking
  show if s.waiting then _ else _
  split_ifs at asking ⊢
  · cases asking with
    | queued vac front data inside last quiet others idle unanswered =>
      exact .queued vac front data inside last quiet others idle unanswered
    | selected data running quiet unanswered => exact .selected data running quiet unanswered
    | answered user quiet idle answer => exact .answered user quiet idle answer
  · exact ⟨asking.worker, asking.queue, asking.answer⟩

/-- `arax_data_get` up to its wait. -/
theorem Steady.submitGet (steady : Steady device s) (free : s.waiting = false) {data accel : Nat}
    (done : submitWork device s accel (.get data) = some t) :
    Steady device { t with waiting := true } ∧ t.results = s.results := by
  obtain ⟨inside, rfl⟩ := submitWork_some done
  have asking := steady.asking
  rw [free] at asking
  refine ⟨⟨steady.submit_assigned _ inside, ?_⟩, rfl⟩
  refine .queued accel (s.queue accel) data inside (Function.update_self _ _ _)
    (asking.queue accel) (fun v away => ?_) asking.worker asking.answer
  show Quiet (Function.update s.queue accel _ v)
  rw [Function.update_of_ne away]
  exact asking.queue v

/-- The return of `arax_data_get`. -/
theorem Steady.return (steady : Steady device s) (waits : s.waiting = true) {user : β}
    (answer : s.answer = some user) (results : List β) :
    Steady device { s.returned with results := results } := by
  have asking := steady.asking
  rw [if_pos waits] at asking
  refine ⟨steady.assigned, ?_⟩
  cases asking with
  | queued vac front data inside last quiet others idle unanswered =>
    rw [answer] at unanswered
    cases unanswered
  | selected data running quiet unanswered =>
    rw [answer] at unanswered
    cases unanswered
  | answered user quiet idle answer => exact ⟨idle, quiet, rfl⟩

/-- When the worker has emptied the queues, the task of `arax_data_get` is completed. -/
theorem Asking.drained (asking : Asking device s) (idle : s.worker = .idle)
    (empty : ∀ vac ∈ device.vacs, s.queue vac = []) : ∃ user, s.answer = some user := by
  cases asking with
  | queued vac front data inside last =>
    rw [empty vac inside] at last
    exact absurd last.symm (List.append_ne_nil_of_right_ne_nil _ (List.cons_ne_nil _ _))
  | selected data running =>
    rw [running] at idle
    cases idle
  | answered user quiet idle answer => exact ⟨user, answer⟩

end Asking

/-! ### Progress of the client -/

section Progress

variable {device : CopyDevice} {s t u : CopyState}

/-- Some moves lead from one state to another. -/
def Reaches (device : CopyDevice) (s t : CopyState) : Prop :=
  ∃ movers, exec (copyStep device) s movers = some t

theorem Reaches.trans (first : Reaches device s t) (second : Reaches device t u) :
    Reaches device s u := by
  obtain ⟨movers, run⟩ := first
  obtain ⟨movers', run'⟩ := second
  refine ⟨movers ++ movers', ?_⟩
  rw [exec_append, run]
  exact run'

theorem Reaches.client (move : copyClientStep device s = some t) : Reaches device s t := by
  refine ⟨[.client], ?_⟩
  show (copyClientStep device s).bind _ = _
  rw [move]
  rfl

theorem Reaches.serves {base : DataState Contents} (serves : Serves device.toDevice s.base base) :
    Reaches device s ⟨base, s.todo⟩ := by
  obtain ⟨before, todo⟩ := s
  dsimp only at serves ⊢
  induction serves with
  | refl base => exact ⟨[], rfl⟩
  | @step base _ _ ih =>
    obtain ⟨movers, run⟩ := ih
    exact ⟨.worker :: movers, run⟩

/-- The worker empties the queues, and what the client sees stays. -/
theorem reaches_drained (device : CopyDevice) (s : CopyState) :
    ∃ base, Reaches device s ⟨base, s.todo⟩ ∧ Serves device.toDevice s.base base ∧
      base.worker = .idle ∧ ∀ vac ∈ device.vacs, base.queue vac = [] := by
  obtain ⟨base, serves, idle, empty⟩ := serves_drained device.toDevice s.base
  exact ⟨base, .serves serves, serves, idle, empty⟩

/-- A client between two calls, or before the set of its copy. -/
structure Ready (device : CopyDevice) (s : CopyState) : Prop where
  steady : Steady device.toDevice s.base
  free : s.base.waiting = false

/-- The client, with all tasks served, submits a task. -/
theorem Ready.submits (ready : Ready device s) (accel : Nat) (work : Work Contents)
    (inside : accel ∈ device.vacs) :
    ∃ base after, Reaches device s ⟨base, s.todo⟩ ∧ Ready device ⟨base, s.todo⟩ ∧
      base.accel = s.base.accel ∧ submitWork device.toDevice base accel work = some after ∧
      after.waiting = false ∧
      ∀ data, after.accel data = if data ∈ work.io then some accel else s.base.accel data := by
  obtain ⟨base, reaches, serves, -, empty⟩ := reaches_drained device s
  obtain ⟨-, waiting, accels⟩ := serves.client
  have space : (base.queue accel).length < device.capacity := by
    rw [empty accel inside]
    exact device.positive
  refine ⟨base, _, reaches, ⟨serves.steady ready.steady, waiting.trans ready.free⟩, accels,
    if_pos ⟨inside, space⟩, waiting.trans ready.free, fun data => ?_⟩
  show work.io.foldl (migrateAccel accel) base.accel data = _
  rw [foldl_migrateAccel, accels]

/-- A wait ends. -/
theorem reaches_answer (s : CopyState) (steady : Steady device.toDevice s.base)
    (waits : s.base.waiting = true) :
    ∃ base user, Reaches device s ⟨base, s.todo⟩ ∧ Steady device.toDevice base ∧
      base.waiting = true ∧ base.accel = s.base.accel ∧ base.answer = some user := by
  obtain ⟨base, reaches, serves, idle, empty⟩ := reaches_drained device s
  obtain ⟨-, waiting, accels⟩ := serves.client
  have asking := (serves.steady steady).asking
  rw [waiting, if_pos waits] at asking
  obtain ⟨user, answer⟩ := asking.drained idle empty
  exact ⟨base, user, reaches, serves.steady steady, waiting.trans waits, accels, answer⟩

/-- The client, with all tasks served, is in the wait of `arax_data_get`. -/
theorem Ready.asks (ready : Ready device s) {data home : Nat}
    (assigned : s.base.accel data = some home) :
    ∃ base after, Reaches device s ⟨base, s.todo⟩ ∧ base.waiting = false ∧
      clientCall device.toDevice base (.get data) = some after ∧ after.waiting = true ∧
      Steady device.toDevice after ∧ after.accel = s.base.accel := by
  have inside := ready.steady.assigned data home assigned
  obtain ⟨base, after, reaches, ready', accels, submit, -, fields⟩ :=
    ready.submits home (.get data) inside
  refine ⟨base, { after with waiting := true }, reaches, ready'.free, ?_, rfl,
    (ready'.steady.submitGet ready'.free submit).1, ?_⟩
  · show (base.accel data).bind _ = _
    rw [accels, assigned]
    show (submitWork device.toDevice base home (.get data)).map _ = _
    rw [submit]
    rfl
  · funext other
    show after.accel other = _
    rw [fields]
    split_ifs with same
    · rw [List.mem_singleton.mp same, assigned]
    · rfl

/-- `arax_data_get` of assigned data returns. -/
theorem Ready.get (ready : Ready device s) {data home : Nat} {rest : List CopyCall}
    (next : s.todo = .call (.get data) :: rest) (assigned : s.base.accel data = some home) :
    ∃ t, Reaches device s t ∧ t.todo = rest ∧ Ready device t ∧ t.base.accel = s.base.accel := by
  obtain ⟨base, after, reaches, free, call, waits, steady, accels⟩ := ready.asks assigned
  have ask : copyClientStep device ⟨base, s.todo⟩ = some ⟨after, s.todo⟩ := by
    unfold copyClientStep
    rw [next]
    simp only [free, call, waits, Bool.false_eq_true, if_false, if_true, Option.map_some]
  obtain ⟨answered, user, reaches', steady', waits', accels', answer⟩ :=
    reaches_answer ⟨after, s.todo⟩ steady waits
  have back : copyClientStep device ⟨answered, s.todo⟩ = some
      ⟨{ answered.returned with results := answered.results ++ [user] }, rest⟩ := by
    unfold copyClientStep
    rw [next]
    simp only [waits', answer, if_true, Option.map_some]
  refine ⟨_, (reaches.trans (.client ask)).trans (reaches'.trans (.client back)), rfl,
    ⟨steady'.return waits' answer _, rfl⟩, ?_⟩
  exact accels'.trans accels

/-- A copy of empty data gets to its `arax_data_set`. -/
theorem Ready.memcpy (ready : Ready device s) {accel dst src home : Nat} {rest : List CopyCall}
    (next : s.todo = .memcpy accel dst src :: rest) (distinct : dst ≠ src)
    (equal : device.size dst = device.size src) (empty : device.size src = 0)
    (assigned : s.base.accel src = some home) :
    ∃ t user, Reaches device s t ∧ t.todo = .call (.set dst accel user) :: rest ∧
      Ready device t ∧ t.base.accel = s.base.accel := by
  obtain ⟨base, after, reaches, free, call, waits, steady, accels⟩ := ready.asks assigned
  have ask : copyClientStep device ⟨base, s.todo⟩ = some ⟨after, s.todo⟩ := by
    unfold copyClientStep memcpyStep
    rw [next]
    simp only [if_neg distinct, equal, ne_eq, not_true, free, call, Bool.false_eq_true, if_false,
      Option.map_some]
  obtain ⟨answered, user, reaches', steady', waits', accels', answer⟩ :=
    reaches_answer ⟨after, s.todo⟩ steady waits
  have back : copyClientStep device ⟨answered, s.todo⟩ = some ⟨answered.returned,
      .call (.set dst accel (device.deref ⟨answered, s.todo⟩ src)) :: rest⟩ := by
    unfold copyClientStep memcpyStep
    rw [next]
    simp only [if_neg distinct, equal, ne_eq, not_true, waits', answer, empty, if_true, if_false,
      Option.bind_some]
  refine ⟨_, _, (reaches.trans (.client ask)).trans (reaches'.trans (.client back)), rfl,
    ⟨steady'.return waits' answer answered.results, rfl⟩, ?_⟩
  exact accels'.trans accels

/-- `arax_data_set` returns. -/
theorem Ready.set (ready : Ready device s) {accel dst : Nat} {user : Contents}
    {rest : List CopyCall} (next : s.todo = .call (.set dst accel user) :: rest)
    (inside : accel ∈ device.vacs)
    (same : s.base.accel dst = none ∨ s.base.accel dst = some accel) :
    ∃ t, Reaches device s t ∧ t.todo = rest ∧ Ready device t ∧
      ∀ data, t.base.accel data = if data = dst then some accel else s.base.accel data := by
  obtain ⟨base, after, reaches, ready', accels, submit, free, fields⟩ :=
    ready.submits accel (.set dst user) inside
  have steady := ready'.steady.submit ready'.free (fun _ impossible => by cases impossible) submit
  have still : base.waiting = false := ready'.free
  have move : copyClientStep device ⟨base, s.todo⟩ =
      some ⟨{ after with pc := after.pc + 1 }, rest⟩ := by
    unfold copyClientStep
    rw [next]
    simp only [still, clientCall, accels, if_pos same, submit, free, Bool.false_eq_true,
      if_false, Option.map_some]
  refine ⟨_, reaches.trans (.client move), rfl, ⟨steady.1.count _, free⟩, fun data => ?_⟩
  show after.accel data = _
  rw [fields]
  show (if data ∈ [dst] then _ else _) = _
  simp only [List.mem_singleton]

/-- A copy of empty data and the calls around it return. -/
theorem Ready.program (ready : Ready device s) {accel dst src home : Nat}
    (next : s.todo = copyProgram accel dst src) (distinct : dst ≠ src)
    (equal : device.size dst = device.size src) (empty : device.size src = 0)
    (assigned : s.base.accel src = some home) (inside : accel ∈ device.vacs)
    (same : s.base.accel dst = none ∨ s.base.accel dst = some accel) :
    ∃ t, Reaches device s t ∧ t.todo = [] := by
  obtain ⟨t₁, reaches₁, todo₁, ready₁, accels₁⟩ := ready.get next assigned
  obtain ⟨t₂, user, reaches₂, todo₂, ready₂, accels₂⟩ :=
    ready₁.memcpy todo₁ distinct equal empty (accels₁ ▸ assigned)
  have before : t₂.base.accel = s.base.accel := accels₂.trans accels₁
  obtain ⟨t₃, reaches₃, todo₃, ready₃, accels₃⟩ := ready₂.set todo₂ inside (before ▸ same)
  obtain ⟨t₄, reaches₄, todo₄, ready₄, accels₄⟩ :=
    ready₃.get todo₃ ((accels₃ dst).trans (if_pos rfl))
  have kept : t₄.base.accel src = some home := by
    rw [accels₄, accels₃, if_neg (Ne.symm distinct), before]
    exact assigned
  obtain ⟨t₅, reaches₅, todo₅, -, -⟩ := ready₄.get todo₄ kept
  exact ⟨t₅, (((reaches₁.trans reaches₂).trans reaches₃).trans reaches₄).trans reaches₅, todo₅⟩

end Progress

/-! ### All runs -/

section Runs

variable {device : CopyDevice} {s t : CopyState} {base : DataState Contents}

/-- The client waits in this call. -/
def CopyCall.Asks : CopyCall → Prop
  | .call (.get _) => True
  | .memcpy _ dst src => dst ≠ src
  | _ => False

/-- A result is read. -/
def CopyCall.isGet : CopyCall → Bool
  | .call (.get _) => true
  | _ => false

/-- Every `arax_data_get` of the program gives one result. -/
structure Tracked (device : CopyDevice) (results : List Contents) (total : Nat)
    (s : CopyState) : Prop where
  steady : Steady device.toDevice s.base
  head : s.base.waiting = true → ∃ call rest, s.todo = call :: rest ∧ call.Asks
  counted : ∃ news, s.base.results = results ++ news ∧
    news.length + s.todo.countP CopyCall.isGet = total

theorem workerStep_results {β : Type} (device : Device β) (s : DataState β) :
    (workerStep device s).results = s.results := by
  unfold workerStep
  repeat' split
  all_goals rfl

/-- A call of the client, up to its return or to the wait. -/
theorem Steady.call {β : Type} {device : Device β} {s t : DataState β}
    (steady : Steady device s) (free : s.waiting = false) {call : DataCall β}
    (done : clientCall device s call = some t) : Steady device t ∧ t.results = s.results ∧
      (t.waiting = true ↔ ∃ data, call = .get data) := by
  cases call with
  | set data accel user =>
    simp only [clientCall] at done
    split_ifs at done
    obtain ⟨after, submit, rfl⟩ := Option.map_eq_some_iff.mp done
    obtain ⟨steady', free', results⟩ :=
      steady.submit free (fun _ impossible => by cases impossible) submit
    exact ⟨steady'.count _, results, by simp [free']⟩
  | issue accel ins outs functor =>
    obtain ⟨after, submit, rfl⟩ := Option.map_eq_some_iff.mp done
    obtain ⟨steady', free', results⟩ :=
      steady.submit free (fun _ impossible => by cases impossible) submit
    exact ⟨steady'.count _, results, by simp [free']⟩
  | get data =>
    obtain ⟨accel, -, asked⟩ := Option.bind_eq_some_iff.mp done
    obtain ⟨after, submit, rfl⟩ := Option.map_eq_some_iff.mp asked
    obtain ⟨steady', results⟩ := steady.submitGet free submit
    exact ⟨steady', results, ⟨fun _ => ⟨data, rfl⟩, fun _ => rfl⟩⟩

/-- What a move in `arax_data_memcpy` can be. -/
theorem memcpyStep_some {accel dst src : Nat} {rest : List CopyCall}
    (done : memcpyStep device s accel dst src rest = some t) :
    (dst = src ∧ t = { s with todo := rest }) ∨
      (dst ≠ src ∧ s.base.waiting = true ∧ device.size src = 0 ∧
        (∃ user, s.base.answer = some user) ∧
        t = ⟨s.base.returned, .call (.set dst accel (device.deref s src)) :: rest⟩) ∨
      (dst ≠ src ∧ s.base.waiting = false ∧ ∃ after,
        clientCall device.toDevice s.base (.get src) = some after ∧
          t = { s with base := after }) := by
  unfold memcpyStep at done
  split_ifs at done with one sizes waits empty
  · exact .inl ⟨one, (Option.some.inj done).symm⟩
  · obtain ⟨user, answer, copied⟩ := Option.bind_eq_some_iff.mp done
    exact .inr (.inl ⟨one, waits, empty, ⟨user, answer⟩, (Option.some.inj copied).symm⟩)
  · obtain ⟨user, -, impossible⟩ := Option.bind_eq_some_iff.mp done
    cases impossible
  · obtain ⟨after, call, same⟩ := Option.map_eq_some_iff.mp done
    exact .inr (.inr ⟨one, eq_false_of_ne_true waits, after, call, same.symm⟩)

/-- **One move.** -/
theorem Tracked.step {results : List Contents} {total : Nat}
    (tracked : Tracked device results total s) {mover : Mover}
    (move : copyStep device s mover = some t) : Tracked device results total t := by
  obtain ⟨steady, head, news, same, counted⟩ := tracked
  cases mover with
  | worker =>
    cases move
    obtain ⟨-, waiting, -⟩ := workerStep_client device.toDevice s.base
    refine ⟨steady.work, fun waits => head (waiting.symm.trans waits), news, ?_, counted⟩
    exact (workerStep_results _ _).trans same
  | client =>
    simp only [copyStep, copyClientStep] at move
    cases todo : s.todo with
    | nil =>
      rw [todo] at move
      cases move
    | cons first rest =>
      rw [todo] at move head counted
      cases first with
      | call call =>
        dsimp only at move
        split_ifs at move with waits
        · obtain ⟨user, answer, rfl⟩ := Option.map_eq_some_iff.mp move
          obtain ⟨call', rest', listed, asks⟩ := head waits
          obtain ⟨rfl, rfl⟩ := List.cons.inj listed
          refine ⟨steady.return waits answer _, fun impossible => (by cases impossible),
            news ++ [user], ?_, ?_⟩
          · show s.base.results ++ [user] = _
            rw [same, List.append_assoc]
          · cases call with
            | set data accel user => exact asks.elim
            | issue accel ins outs functor => exact asks.elim
            | get data =>
              rw [List.countP_cons_of_pos rfl] at counted
              show (news ++ [user]).length + rest.countP _ = total
              rw [List.length_append, List.length_singleton]
              omega
        · obtain ⟨after, done, rfl⟩ := Option.map_eq_some_iff.mp move
          obtain ⟨steady', results', asking⟩ := steady.call (eq_false_of_ne_true waits) done
          refine ⟨steady', fun waits' => ?_, news, results'.trans same, ?_⟩
          · obtain ⟨data, rfl⟩ := asking.mp waits'
            refine ⟨.call (.get data), rest, ?_, trivial⟩
            show (if after.waiting then .call (.get data) :: rest else rest) = _
            rw [if_pos waits']
          · dsimp only
            split_ifs with waits'
            · exact counted
            · rwa [List.countP_cons_of_neg] at counted
              intro get
              cases call with
              | set data accel user => cases get
              | issue accel ins outs functor => cases get
              | get data => exact waits' (asking.mpr ⟨data, rfl⟩)
      | memcpy accel dst src =>
        rw [List.countP_cons_of_neg (by simp [CopyCall.isGet])] at counted
        rcases memcpyStep_some move with ⟨one, rfl⟩ | ⟨two, waits, -, ⟨user, answer⟩, rfl⟩ |
          ⟨two, free, after, done, rfl⟩
        · refine ⟨steady, fun waits => ?_, news, same, counted⟩
          obtain ⟨call', rest', listed, asks⟩ := head waits
          obtain ⟨rfl, rfl⟩ := List.cons.inj listed
          exact absurd one asks
        · refine ⟨steady.return waits answer s.base.results,
            fun impossible => (by cases impossible), news, same, ?_⟩
          rw [List.countP_cons_of_neg (by simp [CopyCall.isGet])]
          exact counted
        · obtain ⟨steady', results', -⟩ := steady.call free done
          refine ⟨steady', fun _ => ⟨_, rest, todo, two⟩, news, results'.trans same, ?_⟩
          show news.length + s.todo.countP _ = total
          rw [todo, List.countP_cons_of_neg (by simp [CopyCall.isGet])]
          exact counted

theorem Tracked.run {results : List Contents} {total : Nat} {movers : List Mover}
    (tracked : Tracked device results total s) (run : exec (copyStep device) s movers = some t) :
    Tracked device results total t :=
  exec_invariant (fun _ _ _ before move => before.step move) tracked run

/-- A client without calls does not wait. -/
theorem Tracked.ready {results : List Contents} {total : Nat}
    (tracked : Tracked device results total s) (done : s.todo = []) : Ready device s := by
  refine ⟨tracked.steady, eq_false_of_ne_true fun waits => ?_⟩
  obtain ⟨call, rest, listed, -⟩ := tracked.head waits
  rw [done] at listed
  cases listed

/-- What is reached by some calls is ready for more. -/
theorem ready_of_run {contents : Nat → Contents} {history : List CopyCall} {movers : List Mover}
    (run : exec (copyStep device) ⟨DataState.start contents, history⟩ movers = some s)
    (done : s.todo = []) : Ready device s := by
  have start : Tracked device [] (history.countP CopyCall.isGet)
      ⟨DataState.start contents, history⟩ :=
    ⟨steady_start contents, fun impossible => (by cases impossible), [], rfl, Nat.zero_add _⟩
  exact (start.run run).ready done

/-- A copy of data that is not empty never returns. -/
theorem memcpy_stays {accel dst src : Nat} (distinct : dst ≠ src) (sized : device.size src ≠ 0)
    {movers : List Mover}
    (run : exec (copyStep device) ⟨base, copyProgram accel dst src⟩ movers = some t) :
    t.todo = copyProgram accel dst src ∨ t.todo = (copyProgram accel dst src).tail := by
  let stays (s : CopyState) : Prop :=
    s.todo = copyProgram accel dst src ∨ s.todo = (copyProgram accel dst src).tail
  refine @exec_invariant _ _ _ stays (fun s mover t before move => ?_) _ _ _ (.inl rfl) run
  cases mover with
  | worker =>
    cases move
    exact before
  | client =>
    simp only [copyStep, copyClientStep] at move
    rcases before with first | second
    · rw [first] at move
      dsimp only [copyProgram] at move
      split_ifs at move with waits
      · obtain ⟨user, -, rfl⟩ := Option.map_eq_some_iff.mp move
        exact .inr rfl
      · obtain ⟨after, -, rfl⟩ := Option.map_eq_some_iff.mp move
        unfold stays
        dsimp only
        split_ifs
        · exact .inl rfl
        · exact .inr rfl
    · rw [second] at move
      rcases memcpyStep_some move with ⟨one, -⟩ | ⟨-, -, empty, -⟩ | ⟨-, -, after, -, rfl⟩
      · exact absurd one distinct
      · exact absurd empty sized
      · exact .inr second

/-- Whatever the calls before, a copy is up to date exactly if there is nothing to copy. -/
theorem Ready.upToDate_iff (ready : Ready device ⟨base, []⟩) {accel dst src home : Nat}
    (distinct : dst ≠ src) (equal : device.size dst = device.size src)
    (inside : accel ∈ device.vacs) (assigned : base.accel src = some home)
    (same : base.accel dst = none ∨ base.accel dst = some accel) :
    UpToDate device base accel dst src ↔ device.size src = 0 := by
  constructor
  · rintro ⟨⟨movers, t, run, done⟩, -⟩
    by_contra sized
    rcases memcpy_stays distinct sized run with first | second
    · rw [done] at first
      cases first
    · rw [done] at second
      cases second
  · intro empty
    have begin : Ready device ⟨base, copyProgram accel dst src⟩ := ⟨ready.steady, ready.free⟩
    obtain ⟨t, ⟨movers, run⟩, done⟩ :=
      begin.program rfl distinct equal empty assigned inside same
    refine ⟨⟨movers, t, run, done⟩, fun movers t run done => ?_⟩
    have start : Tracked device base.results 3 ⟨base, copyProgram accel dst src⟩ :=
      ⟨begin.steady, fun waits => absurd (waits.symm.trans ready.free) (by decide), [],
        (List.append_nil _).symm, rfl⟩
    obtain ⟨news, results, counted⟩ := (start.run run).counted
    rw [done] at counted
    obtain ⟨before, after, kept, rfl⟩ := List.length_eq_three.mp counted
    refine ⟨before, after, kept, results, fun i small => ?_⟩
    rw [empty] at small
    exact absurd small (Nat.not_lt_zero i)

/-- **`arax_data_memcpy`, exactly.** For every history of calls that has returned, with the worker
anywhere, for source and destination as the function expects them. -/
theorem data_memcpy_iff (device : CopyDevice) (contents : Nat → Contents) (history : List CopyCall)
    (movers : List Mover) (base : DataState Contents) (accel dst src home : Nat)
    (run : exec (copyStep device) ⟨DataState.start contents, history⟩ movers = some ⟨base, []⟩)
    (distinct : dst ≠ src) (equal : device.size dst = device.size src)
    (inside : accel ∈ device.vacs) (assigned : base.accel src = some home)
    (same : base.accel dst = none ∨ base.accel dst = some accel) :
    UpToDate device base accel dst src ↔ device.size src = 0 :=
  (ready_of_run run rfl).upToDate_iff distinct equal inside assigned same

/-- A CPU with one VAQ and buffers of 16 bytes. -/
def cpuOf16 : CopyDevice where
  vacs := [10]
  capacity := 256
  positive := Nat.two_pow_pos 8
  program := []
  size := fun _ => 16
  cpu := true
  shm := fun _ _ => 0#8

/-- Data 0 is set, and nothing else happens. -/
theorem exec_set : ∃ base, exec (copyStep cpuOf16)
    ⟨DataState.start fun _ _ => 0#8, [.call (.set 0 10 fun _ => 7#8)]⟩ [.client] =
      some ⟨base, []⟩ ∧ base.accel 0 = some 10 ∧ base.accel 1 = none :=
  ⟨_, rfl, rfl, rfl⟩

theorem data_memcpy_of_16 : ∃ base, base.accel 0 = some 10 ∧
    (UpToDate cpuOf16 base 10 1 0 ↔ cpuOf16.size 0 = 0) := by
  obtain ⟨base, run, src, dst⟩ := exec_set
  exact ⟨base, src, data_memcpy_iff cpuOf16 _ _ _ base 10 1 0 10 run (by decide) rfl (by decide)
    src (.inl dst)⟩

/-- A copy of 16 bytes that were set just before is not up to date. -/
theorem data_memcpy_fails : ¬∀ (device : CopyDevice) (contents : Nat → Contents)
    (history : List CopyCall) (movers : List Mover) (base : DataState Contents)
    (accel dst src home : Nat),
    exec (copyStep device) ⟨DataState.start contents, history⟩ movers = some ⟨base, []⟩ →
    dst ≠ src → device.size dst = device.size src → accel ∈ device.vacs →
    base.accel src = some home → base.accel dst = none ∨ base.accel dst = some accel →
    UpToDate device base accel dst src := by
  intro all
  obtain ⟨base, run, src, dst⟩ := exec_set
  have copied := all cpuOf16 _ _ _ base 10 1 0 10 run (by decide) rfl (by decide) src (.inl dst)
  have same : UpToDate cpuOf16 base 10 1 0 ↔ cpuOf16.size 0 = 0 :=
    (ready_of_run run rfl).upToDate_iff (by decide) rfl (by decide) src (.inl dst)
  exact absurd (same.mp copied) (by decide)

end Runs

end Arax.Core
