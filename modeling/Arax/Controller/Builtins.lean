/-
**The builtin `memcpy` and `memset` (`controller/src/Cpu/CpuBuiltins.cpp`,
`controller/src/Cuda/CUDABuiltins.cu`, `controller/src/ROCm/HIPBuiltins.cpp`,
`controller/src/OpenCL/OpenclBuiltins.cpp`, `controller/include/CLHelper.h`).**

Each backend has its own handler for a task. The CPU works on the buffers in shared memory, the
others on memory of their device, which they allocate first if the data has none. The copies and
fills of a device are complete when the next call on its stream is made, and follow their
specification; an OpenCL call with invalid arguments changes nothing, and no handler looks at its
error code.

* `contents` — the current contents of data: on the device, or in shared memory.
* `SameAsCpu` — a handler leaves what the one of the CPU leaves.
* `Supported` — the condition under which the handlers of a device do that.
* `cpu_meant` — the handlers of the CPU do what the task says.
-/

import Arax.Controller.Serve
import Arax.Lib.Bytes
import Arax.Lib.Loop

namespace Arax.Controller

open Arax.Lib
open Arax.Utils (sizeSub)

/-- `memsetArgs`. -/
structure MemsetArgs where
  dataOffset : Nat
  /-- An `int`. -/
  value : BitVec 32
  size : Nat

/-- A task with its data. -/
inductive Builtin where
  | memcpy (src dst : Nat) (args : MemcpyArgs)
  | memset (data : Nat) (args : MemsetArgs)

/-- The data that is read, if any is. -/
def Builtin.source : Builtin → Nat
  | .memcpy src _ _ => src
  | .memset data _ => data

/-- The data that is written. -/
def Builtin.target : Builtin → Nat
  | .memcpy _ dst _ => dst
  | .memset data _ => data

/-- Where it is written. -/
def Builtin.start : Builtin → Nat
  | .memcpy _ _ args => args.dstOffset
  | .memset _ args => args.dataOffset

/-- How many bytes are written. -/
def Builtin.length : Builtin → Nat
  | .memcpy _ _ args => args.size
  | .memset _ args => args.size

/-- The bytes that are written. -/
def Builtin.news (before : Nat → Nat → BitVec 8) : Builtin → Nat → BitVec 8
  | .memcpy src _ args => fun k => before src (args.srcOffset + k)
  | .memset _ args => fun _ => args.value.setWidth 8

/-- A backend with memory of its own. -/
inductive RemoteBackend where
  | cuda
  | hip
  | openCl
  deriving DecidableEq

/-- Why a handler does not return. -/
inductive BuiltinFault where
  /-- `abort`. -/
  | abort
  /-- `arax_accel_size_dec` waits. -/
  | throttle
  /-- There is no device memory of that size. -/
  | alloc
  /-- An access outside a buffer: `CUDA_ERROR_FATAL`, or undefined on the CPU. -/
  | bounds
  /-- The use of a task that was freed. -/
  | freed
  deriving DecidableEq

/-- The data and the task that is executed. -/
structure BuiltinState where
  /-- `arax_data_size`. -/
  size : Nat → Nat
  /-- A `size_t`. -/
  sizeT : ∀ d, size d < 2 ^ 64
  /-- `data->remote` is set. -/
  remote : Nat → Bool
  /-- The buffers in shared memory. -/
  buffer : Nat → Nat → BitVec 8
  /-- The memory that data has on the device, or that it will get there. -/
  memory : Nat → Nat → BitVec 8
  /-- `throttle.available` of the accelerator. -/
  available : Nat
  /-- The references to the task. -/
  refs : Nat
  /-- The task is marked done, as completed. -/
  done : Bool

/-- A number that is passed as an `int` and then as a `size_t`. -/
def clInt (n : Nat) : Nat := ((BitVec.ofNat 32 n).signExtend 64).toNat

/-- The device has memory of this size; `_clMallocRW` takes an `int`. -/
def RemoteBackend.allocates (b : RemoteBackend) (n : Nat) : Prop :=
  match b with
  | .openCl => 0 < clInt n ∧ clInt n < 2 ^ 31
  | _ => 0 < n

instance (b : RemoteBackend) (n : Nat) : Decidable (b.allocates n) := by
  cases b <;> unfold RemoteBackend.allocates <;> infer_instance

namespace BuiltinState

/-- The current contents of the data `d`. -/
def contents (s : BuiltinState) (d : Nat) : Nat → BitVec 8 :=
  if s.remote d then s.memory d else s.buffer d

/-- `arax_task_mark_done`. -/
def markDone (s : BuiltinState) : Except BuiltinFault BuiltinState :=
  if s.refs = 0 then .error .freed else .ok { s with done := true }

/-- `arax_task_free`. -/
def taskFree (s : BuiltinState) : Except BuiltinFault BuiltinState :=
  if s.refs = 0 then .error .freed else .ok { s with refs := s.refs - 1 }

/-- New bytes in a buffer in shared memory. -/
def writeBuffer (s : BuiltinState) (d start n : Nat) (news : Nat → BitVec 8) : BuiltinState :=
  { s with buffer := Function.update s.buffer d (overwrite (s.buffer d) start n news) }

/-- New bytes in the memory that the data `d` has on the device. -/
def writeMemory (s : BuiltinState) (d start n : Nat) (news : Nat → BitVec 8) : BuiltinState :=
  { s with memory := Function.update s.memory d (overwrite (s.memory d) start n news) }

/-! ### The CPU -/

/-- `cpu_memcpy`. -/
def cpuMemcpy (s : BuiltinState) (src dst : Nat) (args : MemcpyArgs) :
    Except BuiltinFault BuiltinState :=
  if args.size = 0 then .error .abort
  else if s.size src < args.srcOffset + args.size ∨ s.size dst < args.dstOffset + args.size then
    .error .bounds
  else do
    let s := s.writeBuffer dst args.dstOffset args.size fun k => s.buffer src (args.srcOffset + k)
    let s ← s.markDone
    if args.sync = false then s.taskFree else return s

/-- `cpu_memset`. -/
def cpuMemset (s : BuiltinState) (data : Nat) (args : MemsetArgs) :
    Except BuiltinFault BuiltinState :=
  if s.size data < args.dataOffset + args.size then .error .bounds
  else (s.writeBuffer data args.dataOffset args.size fun _ => args.value.setWidth 8).markDone

/-- The handlers of the CPU. -/
def cpuBuiltin (s : BuiltinState) : Builtin → Except BuiltinFault BuiltinState
  | .memcpy src dst args => s.cpuMemcpy src dst args
  | .memset data args => s.cpuMemset data args

/-! ### The devices -/

/-- `alloc_no_throttle`, which returns true whenever it returns. -/
def allocNoThrottle (b : RemoteBackend) (s : BuiltinState) (d : Nat) :
    Except BuiltinFault BuiltinState :=
  if s.remote d then .ok s
  else if s.available < s.size d then .error .throttle
  else if b.allocates (s.size d) then
    .ok { s with
      available := s.available - s.size d
      remote := Function.update s.remote d true }
  else .error .alloc

/-- What the handlers of the three backends do before they copy. -/
def memcpyChecks (b : RemoteBackend) (s : BuiltinState) (src dst : Nat) (args : MemcpyArgs) :
    Except BuiltinFault BuiltinState :=
  if args.size = 0 then .error .abort
  else do
    let s ← s.allocNoThrottle b dst
    let s ← s.allocNoThrottle b src
    if sizeSub (s.size dst) args.dstOffset < args.size then .error .abort
    else if sizeSub (s.size src) args.srcOffset < args.size then .error .abort
    else return s

/-- `cudaMemcpyAsync` and `hipMemcpyAsync` between two data. -/
def memcpyAsync (s : BuiltinState) (src dst srcOffset dstOffset n : Nat) :
    Except BuiltinFault BuiltinState :=
  if s.size src < srcOffset + n ∨ s.size dst < dstOffset + n then .error .bounds
  else .ok (s.writeMemory dst dstOffset n fun k => s.memory src (srcOffset + k))

/-- `cudaMemsetAsync` and `hipMemsetAsync`. -/
def memsetAsync (s : BuiltinState) (data start : Nat) (value : BitVec 32) (n : Nat) :
    Except BuiltinFault BuiltinState :=
  if s.size data < start + n then .error .bounds
  else .ok (s.writeMemory data start n fun _ => value.setWidth 8)

/-- `gpu_memcpy` of CUDA. -/
def cudaMemcpy (s : BuiltinState) (src dst : Nat) (args : MemcpyArgs) :
    Except BuiltinFault BuiltinState := do
  let s ← s.memcpyChecks .cuda src dst args
  let s ← s.memcpyAsync src dst args.srcOffset args.dstOffset args.size
  if args.sync = false then return s else s.markDone

/-- `gpu_memset` of CUDA. -/
def cudaMemset (s : BuiltinState) (data : Nat) (args : MemsetArgs) :
    Except BuiltinFault BuiltinState := do
  let s ← s.allocNoThrottle .cuda data
  let s ← s.memsetAsync data args.dataOffset args.value args.size
  s.markDone

/-- `gpu_memcpy` of HIP. -/
def hipMemcpy (s : BuiltinState) (src dst : Nat) (args : MemcpyArgs) :
    Except BuiltinFault BuiltinState := do
  let s ← s.memcpyChecks .hip src dst args
  let s ← s.memcpyAsync src dst args.srcOffset args.dstOffset args.size
  if args.sync = false then
    let s ← s.taskFree
    s.markDone
  else s.markDone

/-- `gpu_memset` of HIP. -/
def hipMemset (s : BuiltinState) (data : Nat) (args : MemsetArgs) :
    Except BuiltinFault BuiltinState := do
  let s ← s.allocNoThrottle .hip data
  let s ← s.memsetAsync data args.dataOffset args.value args.size
  s.markDone

/-- `_clMemcpyD2D`, on buffers of the sizes that `_clMallocRW` got. -/
def clMemcpyD2D (s : BuiltinState) (src dst size srcOffset dstOffset : Nat) : BuiltinState :=
  if clInt (s.size src) < clInt srcOffset + clInt size ∨
      clInt (s.size dst) < clInt dstOffset + clInt size then s
  else s.writeMemory dst (clInt dstOffset) (clInt size) fun k => s.memory src (clInt srcOffset + k)

/-- `_clMemset`, with the pattern of an `int`. -/
def clMemset (s : BuiltinState) (data : Nat) (pattern : BitVec 32) (start size : Nat) :
    BuiltinState :=
  if clInt (s.size data) < clInt start + clInt size ∨ clInt start % 4 ≠ 0 ∨ clInt size % 4 ≠ 0 then
    s
  else s.writeMemory data (clInt start) (clInt size) fun k => (pattern >>> (8 * (k % 4))).setWidth 8

/-- `opencl_memcpy`: `_clMemcpyD2D` gets the size of the source. -/
def openclMemcpy (s : BuiltinState) (src dst : Nat) (args : MemcpyArgs) :
    Except BuiltinFault BuiltinState := do
  let s ← s.memcpyChecks .openCl src dst args
  let s ← (s.clMemcpyD2D src dst (s.size src) args.srcOffset args.dstOffset).markDone
  if args.sync = false then s.taskFree else return s

/-- `opencl_memset`: `_clMemset` gets the size of the data. -/
def openclMemset (s : BuiltinState) (data : Nat) (args : MemsetArgs) :
    Except BuiltinFault BuiltinState := do
  let s ← s.allocNoThrottle .openCl data
  let s ← (s.clMemset data args.value args.dataOffset (s.size data)).markDone
  s.taskFree

/-- The handlers of the devices. -/
def builtin (b : RemoteBackend) (s : BuiltinState) : Builtin → Except BuiltinFault BuiltinState
  | .memcpy src dst args =>
    match b with
    | .cuda => s.cudaMemcpy src dst args
    | .hip => s.hipMemcpy src dst args
    | .openCl => s.openclMemcpy src dst args
  | .memset data args =>
    match b with
    | .cuda => s.cudaMemset data args
    | .hip => s.hipMemset data args
    | .openCl => s.openclMemset data args

/-! ### The meaning -/

/-- What a task does to the current contents. -/
def meant (before : Nat → Nat → BitVec 8) (op : Builtin) : Nat → Nat → BitVec 8 :=
  Function.update before op.target
    (overwrite (before op.target) op.start op.length (op.news before))

/-- The ranges of a task are not empty, in bounds and representable in 32 bits, and `memcpy` has two
data. -/
def InRange (s : BuiltinState) : Builtin → Prop
  | .memcpy src dst args =>
    src ≠ dst ∧ 0 < args.size ∧
      args.srcOffset + args.size ≤ s.size src ∧ args.srcOffset + args.size < 2 ^ 31 ∧
      args.dstOffset + args.size ≤ s.size dst ∧ args.dstOffset + args.size < 2 ^ 31
  | .memset data args =>
    0 < args.size ∧ args.dataOffset + args.size ≤ s.size data ∧
      args.dataOffset + args.size < 2 ^ 31

/-- The same data on a CPU. -/
def onHost (s : BuiltinState) : BuiltinState :=
  { s with remote := fun _ => false, buffer := s.contents }

/-- The same data with other bytes in them, and in the memory of the device. -/
def filled (s : BuiltinState) (buffer memory : Nat → Nat → BitVec 8) : BuiltinState :=
  { s with buffer := buffer, memory := memory }

/-- The handler of the backend leaves what the one of the CPU leaves: the current contents of all
data, and the task. -/
def SameAsCpu (b : RemoteBackend) (s : BuiltinState) (op : Builtin) : Prop :=
  ∃ t u, s.onHost.cpuBuiltin op = .ok t ∧ s.builtin b op = .ok u ∧
    (∀ d i, i < s.size d → u.contents d i = t.contents d i) ∧ u.done = t.done ∧ u.refs = t.refs

/-- The data that the task writes is on the device, or it can be allocated there and is written as
a whole. -/
def Placed (s : BuiltinState) (op : Builtin) : Prop :=
  s.remote op.target = true ∨
    (op.start = 0 ∧ op.length = s.size op.target ∧ s.size op.target ≤ s.available)

/-- **The condition on a task.** -/
def Supported (b : RemoteBackend) (s : BuiltinState) (op : Builtin) : Prop :=
  s.Placed op ∧
    match op with
    | .memcpy src dst args =>
      s.remote src = true ∧
        match b with
        | .cuda => args.sync = true
        | .hip => True
        | .openCl =>
          args.srcOffset = 0 ∧ clInt (s.size src) = args.size ∧
            args.dstOffset + args.size ≤ clInt (s.size dst)
    | .memset _ _ => b ≠ .openCl

/-- How many references the handlers of the CPU drop. -/
def cpuDrops : Builtin → Nat
  | .memcpy _ _ args => if args.sync then 0 else 1
  | .memset _ _ => 0

variable {b : RemoteBackend} {s t u : BuiltinState} {op : Builtin} {d : Nat}

/-- The task is done, and some references to it are dropped. -/
def finished (s : BuiltinState) (drops : Nat) : BuiltinState :=
  { s with done := true, refs := s.refs - drops }

@[simp] theorem finished_contents (drops : Nat) : (s.finished drops).contents = s.contents := rfl

theorem markDone_eq (held : 2 ≤ s.refs) : s.markDone = .ok (s.finished 0) :=
  if_neg (by omega)

theorem taskFree_eq (held : 2 ≤ s.refs) : s.taskFree = .ok { s with refs := s.refs - 1 } :=
  if_neg (by omega)

/-- The task is marked done, and freed if nobody waits for it. -/
theorem markDone_taskFree (held : 2 ≤ s.refs) (sync : Bool) :
    (s.markDone >>= fun s => if sync = false then s.taskFree else pure s) =
      .ok (s.finished (if sync then 0 else 1)) := by
  rw [markDone_eq held]
  cases sync with
  | true => rfl
  | false => exact taskFree_eq (s := s.finished 0) held

/-- The other order: the thread holds a reference of its own. -/
theorem taskFree_markDone (held : 2 ≤ s.refs) (sync : Bool) :
    (if sync = false then s.taskFree >>= markDone else s.markDone) =
      .ok (s.finished (if sync then 0 else 1)) := by
  cases sync with
  | true => exact markDone_eq held
  | false =>
    rw [if_pos rfl, taskFree_eq held]
    exact if_neg (show ¬s.refs - 1 = 0 by omega)

/-- On the device the written span is what changes. -/
theorem writeMemory_contents {start n : Nat} {news : Nat → BitVec 8} (on : s.remote d = true) :
    (s.writeMemory d start n news).contents =
      Function.update s.contents d (overwrite (s.contents d) start n news) := by
  funext e
  show (if s.remote e then Function.update s.memory d _ e else s.buffer e) =
    Function.update s.contents d _ e
  by_cases same : e = d
  · rw [same, if_pos on, Function.update_self, Function.update_self]
    exact congrArg (fun cells => overwrite cells start n news) (if_pos on).symm
  · rw [Function.update_of_ne same, Function.update_of_ne same]
    rfl

/-- On the host as well. -/
theorem writeBuffer_contents {start n : Nat} {news : Nat → BitVec 8} :
    (s.onHost.writeBuffer d start n news).contents =
      Function.update s.contents d (overwrite (s.contents d) start n news) := by
  funext e
  exact if_neg Bool.false_ne_true

/-- The handlers of the CPU do what the task says. -/
theorem cpu_meant (held : 2 ≤ s.refs) (inRange : s.InRange op) :
    ∃ t, s.onHost.cpuBuiltin op = .ok t ∧ t.contents = meant s.contents op ∧ t.done = true ∧
      t.refs = s.refs - cpuDrops op := by
  cases op with
  | memcpy src dst args =>
    obtain ⟨-, sized, inSrc, -, inDst, -⟩ := inRange
    have bounds : ¬(s.onHost.size src < args.srcOffset + args.size ∨
        s.onHost.size dst < args.dstOffset + args.size) :=
      not_or.mpr ⟨Nat.not_lt.mpr inSrc, Nat.not_lt.mpr inDst⟩
    refine ⟨_, ?_, (finished_contents _).trans writeBuffer_contents, rfl, rfl⟩
    show s.onHost.cpuMemcpy src dst args = _
    unfold cpuMemcpy
    rw [if_neg (Nat.ne_of_gt sized), if_neg bounds]
    exact markDone_taskFree (s := s.onHost.writeBuffer dst _ _ _) held args.sync
  | memset data args =>
    obtain ⟨-, inData, -⟩ := inRange
    refine ⟨_, ?_, (finished_contents _).trans writeBuffer_contents, rfl, rfl⟩
    show s.onHost.cpuMemset data args = _
    unfold cpuMemset
    rw [if_neg (show ¬s.onHost.size data < _ from Nat.not_lt.mpr inData)]
    exact markDone_eq (s := s.onHost.writeBuffer data _ _ _) held

end BuiltinState

end Arax.Controller
