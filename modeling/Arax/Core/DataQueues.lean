/-
**Data, queues and the worker.**

One client sets data, issues tasks and gets data (`src/core/arax_data.c`, `src/core/arax_task.c`);
one worker serves the virtual accelerator queues (VAQs) of one physical accelerator. A task waits in
the queue of its VAQ until the worker selects it, and `arax_data_get` issues a task too, on the VAQ
that the data is assigned to at this moment. Client and worker move in any order, and the worker
looks at one queue at a time, as `RoundRobinScheduler::selectTask` does.

What a client expects is in `answers`: the contents that data has if the calls are executed one
after the other.

* `clientStep`, `workerStep`, `dataStep` — the moves of the two.
* `inOrder`, `answers` — the calls in program order.
-/

import Mathlib.Logic.Function.Basic
import Arax.Lib.Run

namespace Arax.Core

open Arax.Lib

variable {β : Type}

/-! ### Tasks and the client -/

/-- What a task does to the contents of data. -/
inductive Work (β : Type) where
  /-- The task of `arax_data_set`, with a copy of the contents in its host data. -/
  | set (data : Nat) (user : β)
  /-- The task of `arax_data_get`, which copies the contents to its host data. -/
  | get (data : Nat)
  /-- A kernel, which computes new contents of its inputs and outputs from the old ones. -/
  | kernel (io : List Nat) (functor : List β → List β)

/-- `io` of the task. -/
def Work.io : Work β → List Nat
  | .set data _ => [data]
  | .get data => [data]
  | .kernel io _ => io

/-- New contents of some data, one after the other. -/
def store (contents : Nat → β) : List Nat → List β → Nat → β
  | data :: io, new :: news => store (Function.update contents data new) io news
  | _, _ => contents

/-- `executeOperation`. -/
def execute (contents : Nat → β) : Work β → Nat → β
  | .set data user => Function.update contents data user
  | .get _ => contents
  | .kernel io functor => store contents io (functor (io.map contents))

/-- A call of the client. -/
inductive DataCall (β : Type) where
  /-- `arax_data_set`. -/
  | set (data accel : Nat) (user : β)
  /-- `arax_task_issue`. -/
  | issue (accel : Nat) (ins outs : List Nat) (functor : List β → List β)
  /-- `arax_data_get`. -/
  | get (data : Nat)

/-- The task of a call. -/
def DataCall.work : DataCall β → Work β
  | .set data _ user => .set data user
  | .issue _ ins outs functor => .kernel (ins ++ outs) functor
  | .get data => .get data

/-- The contents after some calls, in program order. -/
def inOrder (calls : List (DataCall β)) (contents : Nat → β) : Nat → β :=
  (calls.map DataCall.work).foldl execute contents

/-- What the calls of `arax_data_get` return in program order. -/
def answers : List (DataCall β) → (Nat → β) → List β
  | [], _ => []
  | .get data :: rest, contents => contents data :: answers rest contents
  | call :: rest, contents => answers rest (execute contents call.work)

/-! ### The queues and the worker -/

/-- Where the worker is. -/
inductive Worker (β : Type) where
  /-- Before `selectTask`. -/
  | idle
  /-- In the loops of `selectTask`, with the VAQs and positions that `itr` still has to visit. -/
  | select (rest : List (Nat × Nat))
  /-- With a selected task. -/
  | run (task : Work β)

/-- The physical accelerator and the client. -/
structure Device (β : Type) where
  /-- `assignedVACs`, the VAQs of the physical accelerator. -/
  vacs : List Nat
  /-- `UTILS_QUEUE_CAPACITY`. -/
  capacity : Nat
  positive : 0 < capacity
  program : List (DataCall β)

/-- The state of the system. -/
structure DataState (β : Type) where
  contents : Nat → β
  /-- `accel` of data. -/
  accel : Nat → Option Nat
  queue : Nat → List (Work β)
  rrCounter : Nat
  worker : Worker β
  /-- The number of calls that have returned. -/
  pc : Nat
  /-- The client is in `arax_task_wait` of its `arax_data_get`. -/
  waiting : Bool
  /-- The host data of the task of `arax_data_get`, when it is completed. -/
  answer : Option β
  /-- What the calls of `arax_data_get` have returned. -/
  results : List β

/-- Nothing has happened yet. -/
def DataState.start (contents : Nat → β) : DataState β where
  contents := contents
  accel := fun _ => none
  queue := fun _ => []
  rrCounter := 0
  worker := .idle
  pc := 0
  waiting := false
  answer := none
  results := []

/-- `arax_data_migrate_accel`. The VAQs have one physical accelerator, so that data is assigned to
the new one in every case. -/
def migrateAccel (accel : Nat) (accels : Nat → Option Nat) (data : Nat) : Nat → Option Nat :=
  Function.update accels data (some accel)

/-- `arax_task_issue`: all inputs and outputs migrate, and the task is pushed, if there is space. -/
def submitWork (device : Device β) (s : DataState β) (accel : Nat) (work : Work β) :
    Option (DataState β) :=
  if accel ∈ device.vacs ∧ (s.queue accel).length < device.capacity then
    some { s with
      accel := work.io.foldl (migrateAccel accel) s.accel
      queue := Function.update s.queue accel (s.queue accel ++ [work]) }
  else none

/-- A call of the client, up to its return or to the wait of `arax_data_get`. -/
def clientCall (device : Device β) (s : DataState β) : DataCall β → Option (DataState β)
  | .set data accel user =>
    if s.accel data = none ∨ s.accel data = some accel then
      (submitWork device s accel (.set data user)).map fun s => { s with pc := s.pc + 1 }
    else none
  | .issue accel ins outs functor =>
    (submitWork device s accel (.kernel (ins ++ outs) functor)).map fun s =>
      { s with pc := s.pc + 1 }
  | .get data =>
    (s.accel data).bind fun accel =>
      (submitWork device s accel (.get data)).map fun s => { s with waiting := true }

/-- The next move of the client. -/
def clientStep (device : Device β) (s : DataState β) : Option (DataState β) :=
  if s.waiting then
    s.answer.map fun user =>
      { s with pc := s.pc + 1, waiting := false, answer := none, results := s.results ++ [user] }
  else (device.program[s.pc]?).bind (clientCall device s)

/-- The client that holds `vaccel->lock` of a VAQ, if one does. -/
inductive ClientPlace (τ : Type) where
  | unlocked
  /-- In the loop around `utils_queue_push`. -/
  | push (task : τ)
  /-- At `arax_accel_add_task`. -/
  | count

def ClientPlace.isUnlocked {τ : Type} : ClientPlace τ → Bool
  | .unlocked => true
  | _ => false

/-- The VAQs in the order of `selectTask`, with their positions. -/
def rrOrder (vacs : List Nat) (rrCounter : Nat) : List (Nat × Nat) :=
  let rrOffset := (rrCounter + 1) % vacs.length
  vacs.zipIdx.drop rrOffset ++ vacs.zipIdx.take rrOffset

/-- The VAQs in round robin order are the VAQs. -/
theorem rrOrder_perm (vacs : List Nat) (rrCounter : Nat) :
    ((rrOrder vacs rrCounter).map Prod.fst).Perm vacs := by
  have rotated : (rrOrder vacs rrCounter).Perm vacs.zipIdx := by
    unfold rrOrder
    refine List.perm_append_comm.trans ?_
    rw [List.take_append_drop]
  refine (rotated.map Prod.fst).trans ?_
  rw [List.zipIdx_map_fst]

/-- The host data that the client reads, after a task was executed. -/
def hostData (s : DataState β) : Work β → Option β
  | .get data => some (s.contents data)
  | _ => s.answer

/-- The next move of the worker. -/
def workerStep (device : Device β) (s : DataState β) : DataState β :=
  match s.worker with
  | .idle =>
    if device.vacs.length = 0 then s
    else { s with worker := .select (rrOrder device.vacs s.rrCounter) }
  | .select [] => { s with worker := .idle }
  | .select ((vac, position) :: rest) =>
    match s.queue vac with
    | [] => { s with worker := .select rest }
    | task :: tasks =>
      { s with
        queue := Function.update s.queue vac tasks
        rrCounter := position
        worker := .run task }
  | .run task =>
    { s with
      contents := execute s.contents task
      worker := .idle
      answer := hostData s task }

/-- Who moves. -/
inductive Mover where
  | client
  | worker

/-- One move. -/
def dataStep (device : Device β) (s : DataState β) : Mover → Option (DataState β)
  | .client => clientStep device s
  | .worker => some (workerStep device s)

end Arax.Core
