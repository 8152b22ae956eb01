/-
**A worker and its clients (`controller/src/Core/accelThread.cpp`,
`controller/src/Cuda/CUDABuiltins.cu`, `controller/src/Cpu/CpuBuiltins.cpp`, `src/core/arax_data.c`,
`src/core/arax_task.c`).**

One accelerator, to which all VAQs are assigned. Clients register data, issue tasks on it, and give
up what they hold. The worker takes a task from any queue that has one, allocates memory for its
outputs, executes it and drops it. The destructor of data with device memory issues a free task.

A call of a client is one step, and the worker takes one step for each output, one for the functor
and one for the drop. A step that waits, or that ends in an assertion or a CUDA error, is not
enabled; neither is one that uses an object that was freed. Copies do not fail, and what they and
the kernels do to the contents of buffers is left out. So are the references to VAQs, and
`arax_task_wait`: a client may free its task at any time.

* `DataPool` — the data, the accelerator and its free tasks, with the calls on them.
* `functor` — the builtin procedures of both backends.
* `serveStep` — one step of a client or of the worker.
* `liveBytes`, `queuedBytes` — the device memory of live data, and of data in free tasks.
* `Idle` — all data are freed, and there is nothing to execute.
* `Keeps`, `serve_inv` — what all calls on the data keep, holds in every state of every run.
-/

import Mathlib.Algebra.Order.Ring.Nat
import Arax.Controller.Elastic
import Arax.Lib.Holding
import Arax.Utils.Bitmap

namespace Arax.Controller

open Arax.Lib
open Arax.Utils (sizeSub)

/-! ### The data -/

/-- The device memory that was allocated for the data, if it is live. -/
def AraxData.block {α : Type} (x : AraxData α) : Option Nat :=
  if x.refCount = 0 ∨ x.othrRemt = true then none else x.remote

/-- The host arguments of a free task. -/
structure FreeArgs where
  data : Nat
  remote : Nat
  size : Nat
  phys : Nat
  deriving DecidableEq

/-- The data and the accelerator. -/
structure DataPool where
  devices : Devices Unit
  /-- The number of the next data. -/
  next : Nat
  /-- The queue of `free_vaq`. -/
  frees : List FreeArgs
  /-- How often the data was an output that the worker allocated. The source does not count
  this. -/
  outputs : Nat → Nat

namespace DataPool

/-- An assignment to the data `d`. -/
def setData (s : DataPool) (d : Nat) (x : AraxData Unit) : DataPool :=
  { s with devices := s.devices.setData d x }

def live (s : DataPool) (d : Nat) : Bool := (s.devices.data d).refCount ≠ 0

/-- `arax_data_init`. -/
def dataInit (s : DataPool) (size : Nat) : DataPool :=
  { s.setData s.next ⟨size, 1, none, none, none, false, ()⟩ with next := s.next + 1 }

/-- `arax_object_ref_inc`. -/
def refInc (s : DataPool) (d : Nat) : Option DataPool :=
  let x := s.devices.data d
  if x.refCount = 0 then none else some (s.setData d { x with refCount := x.refCount + 1 })

/-- `arax_data_input_init` and `arax_data_output_init`, on the VAQ `vac`. -/
def ioInit (vac : Nat) (s : DataPool) (d : Nat) : Option DataPool :=
  (s.refInc d).bind fun s => (migrateAccel s.devices vac d).map fun devices =>
    { s with devices := devices }

/-- `__dtor_arax_data_s`. -/
def dtorData (s : DataPool) (d : Nat) : Option DataPool :=
  let x := s.devices.data d
  match x.remote with
  | none => some s
  | some remote =>
    if x.othrRemt then some s
    else x.phys.map fun phys => { s with frees := s.frees ++ [⟨d, remote, x.size, phys⟩] }

/-- `arax_object_ref_dec`. -/
def refDec (s : DataPool) (d : Nat) : Option DataPool :=
  let x := s.devices.data d
  if x.refCount = 0 then none
  else
    let s := s.setData d { x with refCount := x.refCount - 1 }
    if x.refCount = 1 then s.dtorData d else some s

/-- `arax_data_set_remote`; the VAQs of a GPU are not of type `CPU`. -/
def setRemote (this vac : Nat) (s : DataPool) (d remote : Nat) : Option DataPool :=
  let x := s.devices.data d
  if x.refCount ≠ 0 ∧ s.devices.kind this = .gpu ∧ x.accel = none ∧ x.remote = none then
    some (s.setData d { x with accel := some vac, remote := some remote, othrRemt := true })
  else none

/-- `alloc_remote` for an output. -/
def allocOutput (this : Nat) (s : DataPool) (d : Nat) : Option DataPool :=
  if s.live d then
    (s.devices.allocRemote this d).toOption.map fun devices =>
      { s with devices := devices, outputs := Function.update s.outputs d (s.outputs d + 1) }
  else none

/-- `gpu_memfree` and `cpu_memfree`. -/
def memfree (this : Nat) (s : DataPool) (args : FreeArgs) : Option DataPool :=
  let credit : Except DeviceFault (Devices Unit) :=
    match s.devices.kind this with
    | .gpu => do
      let devices ← s.devices.cudaFree args.remote
      devices.accelSizeInc args.phys args.size
    | .cpu =>
      match (s.devices.data args.data).phys with
      | none => .error .assertion
      | some phys => s.devices.accelSizeInc phys (s.devices.data args.data).size
  credit.toOption.map fun devices => { s with devices := devices }

/-- The sizes of the live data for which device memory was allocated. -/
def liveBytes (s : DataPool) : Nat :=
  ∑ d ∈ Finset.range s.next,
    if (s.devices.data d).block.isSome then (s.devices.data d).size else 0

/-- The sizes of the data in free tasks. -/
def queuedBytes (s : DataPool) : Nat := (s.frees.map FreeArgs.size).sum

end DataPool

/-! ### Tasks -/

/-- What `memcpy` reads of `memcpyArgs`. -/
structure MemcpyArgs where
  srcOffset : Nat
  dstOffset : Nat
  sync : Bool
  size : Nat
  deriving DecidableEq

/-- `task->proc`, with what its functor reads of the host arguments. -/
inductive TaskProc where
  /-- A procedure of the application. -/
  | kernel
  | initPhys
  | allocData
  | memset
  | memcpy (args : MemcpyArgs)
  | dataSet
  | dataGet
  deriving DecidableEq

/-- `arax_task_msg_s`. -/
structure ServedTask where
  proc : TaskProc
  ins : List Nat
  outs : List Nat
  refCount : Nat
  deriving DecidableEq

/-- `task->io`. -/
def ServedTask.io (t : ServedTask) : List Nat := t.ins ++ t.outs

namespace DataPool

/-- `alloc_no_throttle` of `CUDABuiltins.cu`, whose body is that of `alloc_remote`, and the
assertion on `remote` after it. -/
def allocNoThrottle (this : Nat) (s : DataPool) (d : Nat) : Option DataPool :=
  (s.devices.allocRemote this d).toOption.bind fun devices =>
    if (devices.data d).remote.isSome then some { s with devices := devices } else none

/-- `alloc_gpu_data`. -/
def allocGpuData (s : DataPool) (d : Nat) : Option DataPool :=
  if (s.devices.data d).remote.isSome then some s
  else
    (s.devices.accelPhys d).toOption.bind fun phys =>
      let devices := s.devices.cudaMalloc d
      if (devices.data d).remote.isSome then
        some { s with devices := devices.setData d { devices.data d with phys := some phys } }
      else none

/-- The functors of a GPU. -/
def gpuFunctor (this : Nat) (s : DataPool) (t : ServedTask) : Option DataPool :=
  match t.proc with
  | .kernel | .initPhys => some s
  | .allocData =>
    match t.ins, t.outs with
    | [], [d] => s.allocGpuData d
    | _, _ => none
  | .memset => t.io[0]?.bind fun d => s.allocNoThrottle this d
  | .memcpy args =>
    if args.size = 0 then none
    else
      t.io[0]?.bind fun src => t.io[1]?.bind fun dst =>
        (s.allocNoThrottle this dst).bind fun s => (s.allocNoThrottle this src).bind fun s =>
          if sizeSub (s.devices.data dst).size args.dstOffset < args.size then none
          else if sizeSub (s.devices.data src).size args.srcOffset < args.size then none
          else some s
  | .dataSet =>
    match t.ins, t.outs with
    | [], [d] => s.allocNoThrottle this d
    | _, _ => none
  | .dataGet =>
    match t.ins, t.outs with
    | [], [d] => if (s.devices.data d).remote.isSome then some s else none
    | _, _ => none

/-- The functors of a CPU. -/
def cpuFunctor (s : DataPool) (t : ServedTask) : Option DataPool :=
  match t.proc with
  | .kernel | .initPhys => some s
  | .allocData => t.io[0]?.bind fun d => (s.devices.accelPhys d).toOption.map fun phys =>
      s.setData d { s.devices.data d with phys := some phys }
  | .memset => t.io[0]?.map fun _ => s
  | .memcpy args =>
    if args.size = 0 then none else t.io[0]?.bind fun _ => t.io[1]?.map fun _ => s
  | .dataSet | .dataGet =>
    match t.ins, t.outs with
    | [], [_] => some s
    | _, _ => none

/-- `executeOperation`. -/
def functor (this : Nat) (s : DataPool) (t : ServedTask) : Option DataPool :=
  match s.devices.kind this with
  | .gpu => s.gpuFunctor this t
  | .cpu => s.cpuFunctor t

end DataPool

/-- Whether the functor calls `arax_task_free`. -/
def functorFrees : DeviceKind → TaskProc → Bool
  | _, .dataSet => true
  | .cpu, .memcpy args => !args.sync
  | _, _ => false

/-! ### The steps -/

/-- Where the worker is in the loop of `workFunc`. -/
inductive ServePlace where
  /-- At `selectTask`. -/
  | select
  /-- At `alloc_remote`, with the outputs that are left. -/
  | alloc (task : Nat) (outs : List Nat)
  /-- At `executeOperation`. -/
  | execute (task : Nat)
  /-- At `arax_object_ref_dec` of the task. -/
  | drop (task : Nat)
  deriving DecidableEq

/-- The accelerator, its worker and its clients. -/
structure ServeState where
  pool : DataPool
  tasks : Nat → ServedTask
  /-- The number of the next task. -/
  nextTask : Nat
  /-- The queues of the VAQs. -/
  queue : Nat → List Nat
  worker : ServePlace

/-- After `arax_accel_init`. -/
def serveStart (this : Nat) (kind : DeviceKind) (throttle : Throttle) : ServeState where
  pool :=
    { devices :=
        { kind := fun _ => kind
          throttle := fun _ => throttle
          vaqPhys := fun _ => some this
          data := fun _ => ⟨0, 0, none, none, none, false, ()⟩
          memory := Heap.empty
          garbage := ()
          charges := fun _ => 0 }
      next := 0
      frees := []
      outputs := fun _ => 0 }
  tasks := fun _ => ⟨.kernel, [], [], 0⟩
  nextTask := 0
  queue := fun _ => []
  worker := .select

namespace ServeState

/-- `arax_task_issue`. -/
def taskIssue (s : ServeState) (vac : Nat) (proc : TaskProc) (ins outs : List Nat) :
    Option ServeState :=
  ((ins ++ outs).foldlM (DataPool.ioInit vac) s.pool).map fun pool => { s with
    pool := pool
    tasks := Function.update s.tasks s.nextTask ⟨proc, ins, outs, 1⟩
    nextTask := s.nextTask + 1
    queue := Function.update s.queue vac (s.queue vac ++ [s.nextTask]) }

/-- `arax_data_set`. -/
def dataSet (s : ServeState) (vac d : Nat) : Option ServeState :=
  let x := s.pool.devices.data d
  if x.refCount ≠ 0 ∧ (x.accel = none ∨ x.accel = some vac) then
    { s with pool := s.pool.setData d { x with accel := some vac } }.taskIssue vac .dataSet [] [d]
  else none

/-- `arax_data_get`, up to `arax_task_wait`. -/
def dataGet (s : ServeState) (d : Nat) : Option ServeState :=
  (s.pool.devices.data d).accel.bind fun vac => s.taskIssue vac .dataGet [] [d]

/-- The references to a task are now `refs`. -/
def setRefs (s : ServeState) (task refs : Nat) : ServeState :=
  { s with tasks := Function.update s.tasks task { s.tasks task with refCount := refs } }

/-- `arax_object_ref_dec` on a task, with `__dtor_arax_task_msg_s`. -/
def taskRefDec (s : ServeState) (task : Nat) : Option ServeState :=
  let t := s.tasks task
  if t.refCount = 0 then none
  else
    let s := s.setRefs task (t.refCount - 1)
    if t.refCount = 1 then
      (t.io.foldlM DataPool.refDec s.pool).map fun pool => { s with pool := pool }
    else some s

/-- The worker takes the first task of a VAQ. -/
def selectTask (s : ServeState) (vac : Nat) : Option ServeState :=
  match s.worker, s.queue vac with
  | .select, task :: rest =>
    let t := s.tasks task
    if t.refCount = 0 then none
    else some { s.setRefs task (t.refCount + 1) with
      queue := Function.update s.queue vac rest
      worker := .alloc task t.outs }
  | _, _ => none

/-- The worker executes the first free task. -/
def selectFree (this : Nat) (s : ServeState) : Option ServeState :=
  match s.worker, s.pool.frees with
  | .select, args :: rest =>
    (({ s.pool with frees := rest } : DataPool).memfree this args).map fun pool =>
      { s with pool := pool }
  | _, _ => none

/-- The worker goes on with its task. -/
def work (this : Nat) (s : ServeState) : ServePlace → Option ServeState
  | .select => none
  | .alloc task [] => some { s with worker := .execute task }
  | .alloc task (d :: outs) =>
    (s.pool.allocOutput this d).map fun pool =>
      { s with pool := pool, worker := .alloc task outs }
  | .execute task =>
    let t := s.tasks task
    if t.io.all s.pool.live then
      (s.pool.functor this t).bind fun pool =>
        let s := { s with pool := pool, worker := .drop task }
        if functorFrees (pool.devices.kind this) t.proc then s.taskRefDec task else some s
    else none
  | .drop task => { s with worker := .select }.taskRefDec task

end ServeState

/-- Who does something. -/
inductive ServeMove where
  | dataInit (size : Nat)
  | dataSet (vac data : Nat)
  | dataGet (data : Nat)
  | setRemote (vac data remote : Nat)
  | dataFree (data : Nat)
  | taskIssue (vac : Nat) (proc : TaskProc) (ins outs : List Nat)
  | taskFree (task : Nat)
  | selectTask (vac : Nat)
  | selectFree
  | work
  deriving DecidableEq

/-- One step. -/
def serveStep (this : Nat) (s : ServeState) : ServeMove → Option ServeState
  | .dataInit size => some { s with pool := s.pool.dataInit size }
  | .dataSet vac data => s.dataSet vac data
  | .dataGet data => s.dataGet data
  | .setRemote vac data remote =>
    (s.pool.setRemote this vac data remote).map fun pool => { s with pool := pool }
  | .dataFree data => (s.pool.refDec data).map fun pool => { s with pool := pool }
  | .taskIssue vac proc ins outs => s.taskIssue vac proc ins outs
  | .taskFree task => s.taskRefDec task
  | .selectTask vac => s.selectTask vac
  | .selectFree => s.selectFree this
  | .work => s.work this s.worker

/-- All data are freed, and all tasks are executed. -/
structure Idle (s : ServeState) : Prop where
  data : ∀ d, (s.pool.devices.data d).refCount = 0
  frees : s.pool.frees = []
  queue : ∀ vac, s.queue vac = []
  worker : s.worker = .select

/-! ### What the calls change -/

section Calls

variable {this vac d : Nat} {s t : DataPool}

/-- What `arax_data_migrate_accel` changes. -/
theorem migrateAccel_accel {devices u : Devices Unit}
    (step : migrateAccel devices vac d = some u) :
    ∃ accel, u = devices.setData d { devices.data d with accel := accel } := by
  have same : devices = devices.setData d { devices.data d with accel := (devices.data d).accel } :=
    (Devices.setData_same devices d).symm
  unfold migrateAccel at step
  split at step
  · split_ifs at step
    cases step
    exact ⟨some vac, rfl⟩
  · split_ifs at step
    · cases step
      exact ⟨_, same⟩
    · cases step
      exact ⟨some vac, rfl⟩

/-- What a drop of a reference to data does. -/
theorem refDec_cases (step : s.refDec d = some t) :
    (1 < (s.devices.data d).refCount ∧ t = s.setData d
      { s.devices.data d with refCount := (s.devices.data d).refCount - 1 }) ∨
    ((s.devices.data d).refCount = 1 ∧ (s.devices.data d).block = none ∧
      t = s.setData d { s.devices.data d with refCount := 0 }) ∨
    ∃ remote phys, (s.devices.data d).refCount = 1 ∧ (s.devices.data d).block = some remote ∧
      (s.devices.data d).phys = some phys ∧
      t = { s.setData d { s.devices.data d with refCount := 0 } with
        frees := s.frees ++ [⟨d, remote, (s.devices.data d).size, phys⟩] } := by
  unfold DataPool.refDec at step
  simp only at step
  split_ifs at step with dead last
  · right
    rw [last] at step
    have here : (s.setData d { s.devices.data d with refCount := 1 - 1 }).devices.data d =
        { s.devices.data d with refCount := 0 } := Devices.setData_self _
    unfold DataPool.dtorData at step
    simp only [here] at step
    split at step
    · next remote =>
      cases step
      exact .inl ⟨last, by simp [AraxData.block, remote], rfl⟩
    · next ptr remote =>
      split_ifs at step with other
      · cases step
        exact .inl ⟨last, by simp [AraxData.block, other], rfl⟩
      · obtain ⟨phys, home, rfl⟩ := Option.map_eq_some_iff.mp step
        exact .inr ⟨ptr, phys, last, by simp [AraxData.block, other, last, remote], home, rfl⟩
  · cases step
    exact .inl ⟨by omega, rfl⟩

/-- A property of all data, after one of them has changed. -/
theorem forall_setData {x : AraxData Unit} (p : Nat → AraxData Unit → Prop) (here : p d x)
    (others : ∀ e, p e (s.devices.data e)) (e : Nat) : p e ((s.setData d x).devices.data e) :=
  (Function.forall_update_iff s.devices.data p).mpr ⟨here, fun e _ => others e⟩ e

theorem block_of_dead {x : AraxData Unit} (dead : x.refCount = 0) : x.block = none :=
  if_pos (.inl dead)

theorem block_of_none {x : AraxData Unit} (none_ : x.remote = none) : x.block = none := by
  unfold AraxData.block
  rw [none_, ite_self]

theorem ioInit_cases (step : s.ioInit vac d = some t) :
    (s.devices.data d).refCount ≠ 0 ∧ ∃ accel, t = s.setData d { s.devices.data d with
      refCount := (s.devices.data d).refCount + 1, accel := accel } := by
  obtain ⟨r, taken, step⟩ := Option.bind_eq_some_iff.mp step
  obtain ⟨devices, moved, rfl⟩ := Option.map_eq_some_iff.mp step
  obtain ⟨accel, rfl⟩ := migrateAccel_accel moved
  unfold DataPool.refInc at taken
  simp only at taken
  split_ifs at taken with dead
  cases taken
  refine ⟨dead, accel, ?_⟩
  simp only [DataPool.setData, Devices.setData, Function.update_self, Function.update_idem]

theorem ioInit_outputs (step : s.ioInit vac d = some t) : t.outputs = s.outputs := by
  obtain ⟨-, accel, rfl⟩ := ioInit_cases step
  rfl

theorem refDec_outputs (step : s.refDec d = some t) : t.outputs = s.outputs := by
  obtain ⟨-, rfl⟩ | ⟨-, -, rfl⟩ | ⟨remote, phys, -, -, -, rfl⟩ := refDec_cases step
  · rfl
  · rfl
  · rfl

theorem setRemote_outputs {remote : Nat} (step : s.setRemote this vac d remote = some t) :
    t.outputs = s.outputs := by
  unfold DataPool.setRemote at step
  simp only at step
  split_ifs at step
  cases step
  rfl

theorem memfree_outputs {args : FreeArgs} (step : s.memfree this args = some t) :
    t.outputs = s.outputs := by
  obtain ⟨devices, -, rfl⟩ := Option.map_eq_some_iff.mp step
  rfl

end Calls

/-! ### What runs keep -/

/-- All calls on the data keep `P`. -/
structure Keeps (this : Nat) (P : DataPool → Prop) : Prop where
  dataInit : ∀ s size, P s → P (s.dataInit size)
  setAccel : ∀ s vac d, P s → (s.devices.data d).refCount ≠ 0 →
    P (s.setData d { s.devices.data d with accel := some vac })
  ioInit : ∀ s vac d t, P s → s.ioInit vac d = some t → P t
  setRemote : ∀ s vac d remote t, P s → s.setRemote this vac d remote = some t → P t
  refDec : ∀ s d t, P s → s.refDec d = some t → P t
  memfree : ∀ s args rest t, P s → s.frees = args :: rest →
    ({ s with frees := rest } : DataPool).memfree this args = some t → P t
  allocOutput : ∀ s d t, P s → s.allocOutput this d = some t → P t
  functor : ∀ s task t, P s → (∀ d ∈ task.io, (s.devices.data d).refCount ≠ 0) →
    (∀ d ∈ task.outs, 0 < s.outputs d) → s.functor this task = some t → P t

/-- The outputs of the task of the worker are allocated, but for those that are left. -/
def PlaceInv (s : ServeState) : ServePlace → Prop
  | .select | .drop _ => True
  | .alloc task outs =>
    task < s.nextTask ∧ ∀ d ∈ (s.tasks task).outs, d ∈ outs ∨ 0 < s.pool.outputs d
  | .execute task => task < s.nextTask ∧ ∀ d ∈ (s.tasks task).outs, 0 < s.pool.outputs d

/-- What holds of the data, holds in all steps, and the tasks in queues were issued. -/
structure ServeInv (P : DataPool → Prop) (s : ServeState) : Prop where
  pool : P s.pool
  queued : ∀ vac, ∀ task ∈ s.queue vac, task < s.nextTask
  place : PlaceInv s s.worker

section Runs

variable {this vac task : Nat} {P : DataPool → Prop} {s t : ServeState} {place : ServePlace}

/-- What was issued stays as it is, and outputs stay allocated. -/
structure Later (s t : ServeState) : Prop where
  next : s.nextTask ≤ t.nextTask
  outs : ∀ task < s.nextTask, (t.tasks task).outs = (s.tasks task).outs
  outputs : ∀ d, s.pool.outputs d ≤ t.pool.outputs d

theorem PlaceInv.later (inv : PlaceInv s place) (later : Later s t) : PlaceInv t place := by
  cases place with
  | select | drop task => trivial
  | alloc task outs =>
    obtain ⟨issued, done⟩ := inv
    refine ⟨Nat.lt_of_lt_of_le issued later.next, ?_⟩
    rw [later.outs task issued]
    exact fun d member => (done d member).imp_right fun often =>
      Nat.lt_of_lt_of_le often (later.outputs d)
  | execute task =>
    obtain ⟨issued, done⟩ := inv
    refine ⟨Nat.lt_of_lt_of_le issued later.next, ?_⟩
    rw [later.outs task issued]
    exact fun d member => Nat.lt_of_lt_of_le (done d member) (later.outputs d)

/-- A change of the data that leaves the outputs. -/
theorem ServeInv.setPool (inv : ServeInv P s) {pool : DataPool} (holds : P pool)
    (outputs : pool.outputs = s.pool.outputs) : ServeInv P { s with pool := pool } :=
  ⟨holds, inv.queued, inv.place.later
    ⟨Nat.le_refl _, fun _ _ => rfl, fun d => Nat.le_of_eq (congrFun outputs.symm d)⟩⟩

theorem ServeInv.taskIssue (keeps : Keeps this P) (inv : ServeInv P s) {proc : TaskProc}
    {ins outs : List Nat} (step : s.taskIssue vac proc ins outs = some t) : ServeInv P t := by
  obtain ⟨pool, taken, rfl⟩ := Option.map_eq_some_iff.mp step
  rw [foldlM_eq_exec] at taken
  let kept (r : DataPool) : Prop := P r ∧ r.outputs = s.pool.outputs
  have holds : kept pool := exec_invariant (fun r d t before move =>
    ⟨keeps.ioInit r vac d t before.1 move, (ioInit_outputs move).trans before.2⟩)
    ⟨inv.pool, rfl⟩ taken
  refine ⟨holds.1, fun other task member => ?_, inv.place.later
    ⟨Nat.le_succ _, fun task issued => ?_, fun d => Nat.le_of_eq (congrFun holds.2.symm d)⟩⟩
  · show task < s.nextTask + 1
    change task ∈ Function.update s.queue vac (s.queue vac ++ [s.nextTask]) other at member
    by_cases here : other = vac
    · rw [here, Function.update_self] at member
      rcases List.mem_append.mp member with old | new
      · exact Nat.lt_succ_of_lt (inv.queued vac task old)
      · rw [List.mem_singleton.mp new]
        exact Nat.lt_succ_self _
    · rw [Function.update_of_ne here] at member
      exact Nat.lt_succ_of_lt (inv.queued other task member)
  · show (Function.update s.tasks s.nextTask _ task).outs = _
    rw [Function.update_of_ne (Nat.ne_of_lt issued)]

/-- The references to a task change. -/
theorem later_setRefs (s : ServeState) (task refs : Nat) :
    Later s (s.setRefs task refs) := by
  refine ⟨Nat.le_refl _, fun other _ => ?_, fun _ => Nat.le_refl _⟩
  show (Function.update s.tasks task _ other).outs = _
  by_cases here : other = task
  · rw [here, Function.update_self]
  · rw [Function.update_of_ne here]

/-- What changes in a task when its references do. -/
theorem setRefs_self (refs : Nat) :
    (s.setRefs task refs).tasks task = { s.tasks task with refCount := refs } :=
  Function.update_self _ _ _

/-- What a drop of a reference to a task does. -/
theorem taskRefDec_cases (step : s.taskRefDec task = some t) :
    (1 < (s.tasks task).refCount ∧ t = s.setRefs task ((s.tasks task).refCount - 1)) ∨
      ((s.tasks task).refCount = 1 ∧ ∃ pool,
        (s.tasks task).io.foldlM DataPool.refDec s.pool = some pool ∧
        t = { s.setRefs task 0 with pool := pool }) := by
  unfold ServeState.taskRefDec at step
  simp only at step
  split_ifs at step with dead last
  · obtain ⟨pool, dropped, rfl⟩ := Option.map_eq_some_iff.mp step
    rw [last]
    exact .inr ⟨rfl, pool, dropped, rfl⟩
  · cases step
    exact .inl ⟨by omega, rfl⟩

theorem ServeInv.taskRefDec (keeps : Keeps this P) (inv : ServeInv P s)
    (step : s.taskRefDec task = some t) : ServeInv P t := by
  have shared (refs : Nat) : ServeInv P (s.setRefs task refs) :=
    ⟨inv.pool, inv.queued, inv.place.later (later_setRefs s task refs)⟩
  obtain ⟨-, rfl⟩ | ⟨-, pool, dropped, rfl⟩ := taskRefDec_cases step
  · exact shared _
  · rw [foldlM_eq_exec] at dropped
    let kept (r : DataPool) : Prop := P r ∧ r.outputs = s.pool.outputs
    have holds : kept pool := exec_invariant (fun r d t before move =>
      ⟨keeps.refDec r d t before.1 move, (refDec_outputs move).trans before.2⟩)
      ⟨inv.pool, rfl⟩ dropped
    exact (shared 0).setPool holds.1 holds.2

theorem ServeInv.work (keeps : Keeps this P) (inv : ServeInv P s)
    (step : s.work this s.worker = some t) : ServeInv P t := by
  have here := inv.place
  cases place : s.worker with
  | select =>
    rw [place] at step
    cases step
  | alloc task outs =>
    rw [place] at step here
    obtain ⟨issued, done⟩ := here
    cases outs with
    | nil =>
      cases step
      exact ⟨inv.pool, inv.queued, issued, fun d member => (done d member).resolve_left nofun⟩
    | cons d outs =>
      obtain ⟨pool, alloc, rfl⟩ := Option.map_eq_some_iff.mp step
      have holds := keeps.allocOutput s.pool d pool inv.pool alloc
      unfold DataPool.allocOutput at alloc
      split_ifs at alloc
      obtain ⟨devices, -, rfl⟩ := Option.map_eq_some_iff.mp alloc
      refine ⟨holds, inv.queued, issued, fun e member => ?_⟩
      show e ∈ outs ∨ 0 < Function.update s.pool.outputs d (s.pool.outputs d + 1) e
      by_cases same : e = d
      · right
        rw [same, Function.update_self]
        exact Nat.succ_pos _
      · rw [Function.update_of_ne same]
        exact (done e member).imp_left fun left => (List.mem_cons.mp left).resolve_left same
  | execute task =>
    rw [place] at step here
    simp only [ServeState.work] at step
    split_ifs at step with alive
    obtain ⟨pool, executed, step⟩ := Option.bind_eq_some_iff.mp step
    have holds := keeps.functor s.pool (s.tasks task) pool inv.pool
      (fun d member => by simpa [DataPool.live] using List.all_eq_true.mp alive d member) here.2
      executed
    have next : ServeInv P { s with pool := pool, worker := .drop task } :=
      ⟨holds, inv.queued, trivial⟩
    split_ifs at step
    · exact next.taskRefDec keeps step
    · cases step
      exact next
  | drop task =>
    rw [place] at step
    have next : ServeInv P { s with worker := .select } := ⟨inv.pool, inv.queued, trivial⟩
    exact next.taskRefDec keeps step

/-- **Every step keeps what the calls on the data keep.** -/
theorem serveStep_inv {move : ServeMove} (keeps : Keeps this P) (inv : ServeInv P s)
    (step : serveStep this s move = some t) : ServeInv P t := by
  cases move with
  | dataInit size =>
    cases step
    exact inv.setPool (keeps.dataInit _ size inv.pool) rfl
  | dataSet vac d =>
    simp only [serveStep, ServeState.dataSet] at step
    split_ifs at step with may
    exact (inv.setPool (keeps.setAccel _ vac d inv.pool may.1) rfl).taskIssue keeps step
  | dataGet d =>
    obtain ⟨vac, -, step⟩ := Option.bind_eq_some_iff.mp step
    exact inv.taskIssue keeps step
  | setRemote vac d remote =>
    obtain ⟨pool, set, rfl⟩ := Option.map_eq_some_iff.mp step
    exact inv.setPool (keeps.setRemote _ vac d remote pool inv.pool set) (setRemote_outputs set)
  | dataFree d =>
    obtain ⟨pool, dropped, rfl⟩ := Option.map_eq_some_iff.mp step
    exact inv.setPool (keeps.refDec _ d pool inv.pool dropped) (refDec_outputs dropped)
  | taskIssue vac proc ins outs => exact inv.taskIssue keeps step
  | taskFree task => exact inv.taskRefDec keeps step
  | selectTask vac =>
    simp only [serveStep, ServeState.selectTask] at step
    split at step
    · next task rest _ queue =>
      split_ifs at step
      cases step
      refine ⟨inv.pool, fun other task' member => ?_,
        inv.queued vac task (by rw [queue]; exact List.mem_cons_self), fun d member => .inl ?_⟩
      · change task' ∈ Function.update s.queue vac rest other at member
        by_cases here : other = vac
        · rw [here, Function.update_self] at member
          exact inv.queued vac task' (by rw [queue]; exact List.mem_cons_of_mem _ member)
        · rw [Function.update_of_ne here] at member
          exact inv.queued other task' member
      · change d ∈ (Function.update s.tasks task _ task).outs at member
        rwa [Function.update_self] at member
    · cases step
  | selectFree =>
    simp only [serveStep, ServeState.selectFree] at step
    split at step
    · next args rest _ frees =>
      obtain ⟨pool, freed, rfl⟩ := Option.map_eq_some_iff.mp step
      have outputs := memfree_outputs freed
      exact inv.setPool (keeps.memfree _ args rest pool inv.pool frees freed) outputs
    · cases step
  | work => exact inv.work keeps step

/-- **Every run keeps what the calls on the data keep.** -/
theorem serve_inv {kind : DeviceKind} {throttle : Throttle} {moves : List ServeMove}
    (keeps : Keeps this P) (start : P (serveStart this kind throttle).pool)
    (run : exec (serveStep this) (serveStart this kind throttle) moves = some s) :
    ServeInv P s :=
  exec_invariant (fun _ _ _ => serveStep_inv keeps) ⟨start, fun _ _ => nofun, trivial⟩ run

end Runs

end Arax.Controller
