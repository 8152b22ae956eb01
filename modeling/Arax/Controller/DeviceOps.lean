/-
**Buffers on devices (`controller/src/Cuda/CUDAaccelThread.cpp`,
`controller/src/Cpu/CPUaccelThread.cpp`, `src/core/arax_throttle.c`).**

What the thread of an accelerator does with one buffer: `alloc_remote`, `sync_to_remote`,
`sync_from_remote` and `free_remote`, for CPUs and for GPUs. A thread has the number of its
accelerator. `cudaMalloc` succeeds, with a pointer that is not in use, and copies are complete
when the next call is made.

* `Devices` — the accelerators with their throttles, the VAQs, the data and the device memory.
* `allocRemote`, `syncToRemote`, `syncFromRemote`, `freeRemote` — the calls; a call of the throttle
  that waits, or that fails its assertion, is the fault `throttle`.
* `contents` — the copy of the data that is current.
* `freed`, `allocated`, `placed` — what the calls leave when the throttle returns.
-/

import Mathlib.Algebra.Group.Nat.Defs
import Mathlib.Tactic.SplitIfs
import Arax.Lib.Heap

namespace Arax.Controller

open Arax.Lib

/-- The backend of an `accelThread`. -/
inductive DeviceKind where
  | cpu
  | gpu
  deriving DecidableEq

/-- Why a call does not return. -/
inductive DeviceFault where
  /-- `arax_throttle_size_dec` waits, or the assertion on the capacity fails. -/
  | throttle
  /-- An assertion, or the use of a null pointer. -/
  | assertion
  /-- `CUDA_ERROR_FATAL`. -/
  | cuda
  deriving DecidableEq

/-- `arax_throttle_s`. -/
structure Throttle where
  available : Nat
  capacity : Nat
  deriving DecidableEq

/-- `arax_data_s`. Data that is not live has no references. -/
structure AraxData (α : Type) where
  size : Nat
  refCount : Nat
  /-- The VAQ. -/
  accel : Option Nat
  /-- The accelerator that has the data. -/
  phys : Option Nat
  remote : Option Nat
  /-- The flag `OTHR_REMT`: the device memory belongs to someone else. -/
  othrRemt : Bool
  /-- What is in the buffer in shared memory. -/
  buffer : α

/-- The accelerators and the data. -/
structure Devices (α : Type) where
  kind : Nat → DeviceKind
  /-- `accel->throttle`. -/
  throttle : Nat → Throttle
  /-- `vaccel->phys`. -/
  vaqPhys : Nat → Option Nat
  data : Nat → AraxData α
  /-- The memory of the GPUs. -/
  memory : Heap α
  /-- What is in memory that nobody has written to. -/
  garbage : α
  /-- How often memory was charged for the data. The source does not count this. -/
  charges : Nat → Nat

namespace Devices

variable {α : Type}

/-- An assignment to the data `d`. -/
def setData (s : Devices α) (d : Nat) (x : AraxData α) : Devices α :=
  { s with data := Function.update s.data d x }

/-- `data->accel->phys`, which the calls assert. -/
def accelPhys (s : Devices α) (d : Nat) : Except DeviceFault Nat :=
  match (s.data d).accel.bind s.vaqPhys with
  | none => .error .assertion
  | some accel => .ok accel

/-- The throttle with less available, and the charge counted. -/
def charged (s : Devices α) (accel d : Nat) : Devices α :=
  { s with
    throttle := Function.update s.throttle accel
      { s.throttle accel with available := (s.throttle accel).available - (s.data d).size }
    charges := Function.update s.charges d (s.charges d + 1) }

/-- The throttle with more available. -/
def credited (s : Devices α) (accel size : Nat) : Devices α :=
  { s with
    throttle := Function.update s.throttle accel
      { s.throttle accel with available := (s.throttle accel).available + size } }

/-- `arax_accel_size_dec`, with the size of the data. -/
def accelSizeDec (s : Devices α) (accel d : Nat) : Except DeviceFault (Devices α) :=
  let size := (s.data d).size
  let thr := s.throttle accel
  if size = 0 then .ok s
  else if thr.available < size then .error .throttle
  else if thr.capacity < thr.available - size then .error .throttle
  else .ok (s.charged accel d)

/-- `arax_accel_size_inc`. -/
def accelSizeInc (s : Devices α) (accel size : Nat) : Except DeviceFault (Devices α) :=
  let thr := s.throttle accel
  if size = 0 then .ok s
  else if thr.capacity < thr.available + size then .error .throttle
  else .ok (s.credited accel size)

/-- `cudaMalloc(&(data->remote), size)`: there is no memory of size zero. -/
def cudaMalloc (s : Devices α) (d : Nat) : Devices α :=
  if (s.data d).size = 0 then s.setData d { s.data d with remote := none }
  else
    { s.setData d { s.data d with remote := some s.memory.next } with
      memory := s.memory.alloc s.garbage }

/-- `cudaFree`. -/
def cudaFree (s : Devices α) (ptr : Nat) : Except DeviceFault (Devices α) :=
  match s.memory.cell ptr with
  | none => .error .cuda
  | some _ => .ok { s with memory := s.memory.free ptr }

/-! ### The calls of a thread -/

/-- `alloc_remote`. -/
def allocRemote (th : Nat) (s : Devices α) (d : Nat) : Except DeviceFault (Devices α) :=
  match s.kind th with
  | .gpu =>
    if (s.data d).remote.isSome then .ok s
    else do
      let accel ← s.accelPhys d
      let s ← (s.setData d { s.data d with phys := some accel }).accelSizeDec accel d
      return s.cudaMalloc d
  | .cpu => do
    let accel ← s.accelPhys d
    (s.setData d { s.data d with phys := some accel }).accelSizeDec accel d

/-- `sync_to_remote`. -/
def syncToRemote (th : Nat) (s : Devices α) (d : Nat) : Except DeviceFault (Devices α) :=
  match s.kind th with
  | .gpu =>
    match (s.data d).remote with
    | none => if (s.data d).size = 0 then .ok s else .error .cuda
    | some ptr =>
      if (s.memory.cell ptr).isSome then
        .ok { s with memory := s.memory.write ptr (s.data d).buffer }
      else .error .cuda
  | .cpu => .ok s

/-- `sync_from_remote`. Without a pointer it looks at an error code that was not set. -/
def syncFromRemote (th : Nat) (s : Devices α) (d : Nat) : Except DeviceFault (Devices α) :=
  match s.kind th with
  | .gpu =>
    match (s.data d).remote.bind s.memory.cell with
    | none => .error .cuda
    | some x => .ok (s.setData d { s.data d with buffer := x })
  | .cpu => .ok s

/-- `free_remote`. -/
def freeRemote (th : Nat) (s : Devices α) (d : Nat) : Except DeviceFault (Devices α) :=
  match s.kind th with
  | .gpu =>
    match (s.data d).remote with
    | none => .ok s
    | some ptr => do
      let s ← s.cudaFree ptr
      let accel ← s.accelPhys d
      let s ← s.accelSizeInc accel (s.data d).size
      return s.setData d { s.data d with phys := none, remote := none }
  | .cpu => do
    let accel ← s.accelPhys d
    let s ← s.accelSizeInc accel (s.data d).size
    return s.setData d { s.data d with phys := none }

/-! ### What they do -/

/-- The copy of the data that is current: on a GPU the one on the device. -/
def contents (s : Devices α) (d : Nat) : Option α :=
  match (s.data d).phys.map s.kind with
  | some .gpu => (s.data d).remote.bind s.memory.cell
  | _ => some (s.data d).buffer

variable {s t : Devices α} {th d v accel : Nat}

@[simp] theorem setData_self (x : AraxData α) : (s.setData d x).data d = x :=
  Function.update_self _ _ _

theorem setData_same (s : Devices α) (d : Nat) : s.setData d (s.data d) = s := by
  unfold setData
  rw [Function.update_eq_self]

theorem setData_of_ne {e : Nat} (other : e ≠ d) (x : AraxData α) :
    (s.setData d x).data e = s.data e :=
  Function.update_of_ne other _ _

theorem accelPhys_of (vaq : (s.data d).accel = some v) (assigned : s.vaqPhys v = some accel) :
    s.accelPhys d = .ok accel := by
  unfold accelPhys
  rw [vaq, Option.bind_some, assigned]

/-- An allocation finds the accelerator of the VAQ. -/
theorem accelPhys_of_allocRemote (vaqs : ∀ vac, s.vaqPhys vac = some accel)
    (missing : s.kind th = .gpu → (s.data d).remote = none) (run : s.allocRemote th d = .ok t) :
    s.accelPhys d = .ok accel := by
  cases vaq : (s.data d).accel with
  | some vac => exact accelPhys_of vaq (vaqs vac)
  | none =>
    unfold allocRemote accelPhys at run
    cases kind : s.kind th with
    | gpu =>
      simp only [kind, missing kind, vaq, Option.isSome_none, Bool.false_eq_true, if_false,
        Option.bind_none] at run
      cases run
    | cpu =>
      simp only [kind, vaq, Option.bind_none] at run
      cases run

/-- Nothing is charged for size zero. -/
theorem accelSizeDec_zero {p : Nat} (zero : (s.data d).size = 0) : s.accelSizeDec p d = .ok s :=
  if_pos zero

/-- A charge that returns. -/
theorem accelSizeDec_cases {p : Nat} (sized : 0 < (s.data d).size) :
    s.accelSizeDec p d = .error .throttle ∨
      (s.data d).size ≤ (s.throttle p).available ∧
        s.accelSizeDec p d = .ok (s.charged p d) := by
  unfold accelSizeDec
  by_cases short : (s.throttle p).available < (s.data d).size
  · left
    simp only [Nat.ne_of_gt sized, if_false, short, if_true]
  · by_cases exceeds : (s.throttle p).capacity < (s.throttle p).available - (s.data d).size
    · left
      simp only [Nat.ne_of_gt sized, if_false, short, exceeds, if_true]
    · right
      refine ⟨Nat.le_of_not_lt short, ?_⟩
      simp only [Nat.ne_of_gt sized, if_false, short, exceeds]

/-- A credit that returns. -/
theorem accelSizeInc_cases {p size : Nat} (sized : 0 < size) :
    s.accelSizeInc p size = .error .throttle ∨
      s.accelSizeInc p size = .ok (s.credited p size) := by
  unfold accelSizeInc
  by_cases exceeds : (s.throttle p).capacity < (s.throttle p).available + size
  · left
    simp only [Nat.ne_of_gt sized, if_false, exceeds, if_true]
  · right
    simp only [Nat.ne_of_gt sized, if_false, exceeds]

/-! ### Giving a buffer up -/

/-- After `free_remote`. -/
def freed (s : Devices α) (accel d : Nat) : Devices α :=
  { s.credited accel (s.data d).size with
    data := Function.update s.data d { s.data d with phys := none, remote := none }
    memory := (s.data d).remote.elim s.memory s.memory.free }

theorem freed_self :
    (s.freed accel d).data d = { s.data d with phys := none, remote := none } :=
  Function.update_self _ _ _

theorem freeRemote_gpu {ptr : Nat} {x : α} (kind : s.kind th = .gpu)
    (remote : (s.data d).remote = some ptr) (cell : s.memory.cell ptr = some x)
    (phys : s.accelPhys d = .ok accel) (sized : 0 < (s.data d).size) :
    s.freeRemote th d = .error .throttle ∨ s.freeRemote th d = .ok (s.freed accel d) := by
  have free : s.cudaFree ptr = .ok { s with memory := s.memory.free ptr } := by
    unfold cudaFree
    rw [cell]
  have after : s.freeRemote th d =
      (({ s with memory := s.memory.free ptr } : Devices α).accelSizeInc accel (s.data d).size >>=
        fun s => .ok (s.setData d { s.data d with phys := none, remote := none })) := by
    unfold freeRemote
    simp only [kind, remote, free]
    show (s.accelPhys d >>= _) = _
    rw [phys]
    rfl
  rw [after]
  obtain fails | credit := accelSizeInc_cases (p := accel)
    (s := { s with memory := s.memory.free ptr }) sized
  · left
    rw [fails]
    rfl
  · right
    rw [credit]
    unfold freed
    rw [remote]
    rfl

theorem freeRemote_cpu (kind : s.kind th = .cpu) (remote : (s.data d).remote = none)
    (phys : s.accelPhys d = .ok accel) (sized : 0 < (s.data d).size) :
    s.freeRemote th d = .error .throttle ∨ s.freeRemote th d = .ok (s.freed accel d) := by
  unfold freeRemote
  simp only [kind, phys]
  obtain fails | credit := accelSizeInc_cases (s := s) (p := accel) sized
  · left
    show (s.accelSizeInc accel (s.data d).size >>= _) = _
    rw [fails]
    rfl
  · right
    show (s.accelSizeInc accel (s.data d).size >>= _) = _
    rw [credit]
    unfold freed
    rw [remote]
    show Except.ok _ = Except.ok _
    rw [show ({ s.data d with phys := none, remote := none } : AraxData α) =
      { s.data d with phys := none } by rw [← remote]]
    rfl

/-! ### Taking a buffer -/

/-- After `alloc_remote` on a GPU. -/
def allocated (s : Devices α) (accel d : Nat) : Devices α :=
  { s.charged accel d with
    data := Function.update s.data d
      { s.data d with phys := some accel, remote := some s.memory.next }
    memory := s.memory.alloc s.garbage }

/-- After `alloc_remote` on a CPU. -/
def placed (s : Devices α) (accel d : Nat) : Devices α :=
  { s.charged accel d with data := Function.update s.data d { s.data d with phys := some accel } }

theorem allocated_self : (s.allocated accel d).data d =
    { s.data d with phys := some accel, remote := some s.memory.next } :=
  Function.update_self _ _ _

theorem placed_self : (s.placed accel d).data d = { s.data d with phys := some accel } :=
  Function.update_self _ _ _

theorem allocRemote_gpu (kind : s.kind th = .gpu) (remote : (s.data d).remote = none)
    (phys : s.accelPhys d = .ok accel) (sized : 0 < (s.data d).size) :
    s.allocRemote th d = .error .throttle ∨
      (s.data d).size ≤ (s.throttle accel).available ∧
        s.allocRemote th d = .ok (s.allocated accel d) := by
  have here : ((s.setData d { s.data d with phys := some accel }).data d).size =
      (s.data d).size := by
    rw [setData_self]
  have before : s.allocRemote th d =
      ((s.setData d { s.data d with phys := some accel }).accelSizeDec accel d >>=
        fun s => .ok (s.cudaMalloc d)) := by
    unfold allocRemote
    simp only [kind, remote, Option.isSome_none, Bool.false_eq_true, if_false, phys]
    rfl
  rw [before]
  obtain fails | ⟨enough, charge⟩ := accelSizeDec_cases (p := accel)
    (s := s.setData d { s.data d with phys := some accel }) (here.symm ▸ sized)
  · left
    rw [fails]
    rfl
  · right
    refine ⟨here ▸ enough, ?_⟩
    rw [charge]
    show Except.ok _ = Except.ok _
    have positive : ((s.setData d { s.data d with phys := some accel }).data d).size ≠ 0 := by
      rw [here]
      exact Nat.ne_of_gt sized
    refine congrArg Except.ok ((if_neg positive).trans ?_)
    simp only [allocated, charged, setData, Function.update_self, Function.update_idem]

theorem allocRemote_cpu (kind : s.kind th = .cpu) (phys : s.accelPhys d = .ok accel)
    (sized : 0 < (s.data d).size) :
    s.allocRemote th d = .error .throttle ∨
      (s.data d).size ≤ (s.throttle accel).available ∧
        s.allocRemote th d = .ok (s.placed accel d) := by
  have here : ((s.setData d { s.data d with phys := some accel }).data d).size =
      (s.data d).size := by
    rw [setData_self]
  have before : s.allocRemote th d =
      (s.setData d { s.data d with phys := some accel }).accelSizeDec accel d := by
    unfold allocRemote
    simp only [kind, phys]
    rfl
  rw [before]
  obtain fails | ⟨enough, charge⟩ := accelSizeDec_cases (p := accel)
    (s := s.setData d { s.data d with phys := some accel }) (here.symm ▸ sized)
  · exact .inl fails
  · refine .inr ⟨here ▸ enough, ?_⟩
    rw [charge]
    simp only [placed, charged, setData, Function.update_self]

end Devices

end Arax.Controller
