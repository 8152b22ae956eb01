/-
**The calls of clients and workers (`src/arch/shm/impl.c`, `src/core/arax_data.c`).**

What the functions of the API do to the objects of the repository and to the references between
them. Calls that touch objects only to read them are left out, and so are the queues of the virtual
accelerators, the throttles of the devices and the contents of data.

The arguments of a call have to be objects of the right type, because their memory is used as such:
`arax_assert_obj` expands to a declaration and checks nothing.
-/

import Arax.Core.Object

namespace Arax.Core

/-! ### Accelerators -/

/-- `arax_accel_add_vaccel`, also called as `arax_accel_set_physical`. -/
def araxAccelAddVaccel (r : ObjectRepo) (accel vaccel : Nat) : Option ObjectRepo :=
  (r.live accel).bind fun a => (r.live vaccel).bind fun v =>
    if a.type ≠ .physAccel ∨ v.type ≠ .virtAccel then none
    else if v.phys = some accel then some r
    else if v.phys = none then some (r.set vaccel { v with phys := some accel })
    else none

/-- `arax_vaccel_init`; without a physical accelerator, it is put among the orphans. -/
def araxVaccelInit (sizes : Sizeofs) (r : ObjectRepo) (name : String) (type : AccelType)
    (accel : Option Nat) : Option (ObjectRepo × Nat) :=
  (araxObjectRegister r .virtAccel name sizes.vaccel 1).bind fun (r, vaccel) =>
    (r.live vaccel).bind fun v =>
      let r := r.set vaccel { v with phys := none, accelType := type }
      match accel with
      | some accel => (araxAccelAddVaccel r accel vaccel).map fun r => (r, vaccel)
      | none => some (r, vaccel)

/-- `arax_accel_init`, with the assertions of `arax_throttle_init` on its sizes. -/
def araxAccelInit (sizes : Sizeofs) (r : ObjectRepo) (name : String) (type : AccelType)
    (size capacity : Nat) : Option (ObjectRepo × Nat) :=
  (araxObjectRegister r .physAccel name sizes.accel 1).bind fun (r, obj) =>
    (r.live obj).bind fun a =>
      if 0 < size ∧ 0 < capacity ∧ size ≤ capacity then
        (araxVaccelInit sizes (r.set obj { a with accelType := type }) name type (some obj)).bind
          fun (r, freeVaq) => (r.live obj).map fun a =>
            (r.set obj { a with freeVaq := some freeVaq }, obj)
      else none

/-- `arax_accel_acquire_type`. -/
def araxAccelAcquireType (sizes : Sizeofs) (r : ObjectRepo) (type : AccelType) :
    Option (ObjectRepo × Nat) :=
  araxVaccelInit sizes r "FILL" type none

/-- `arax_accel_acquire_phys`: the new value of `*accel`, if it changes. -/
def araxAccelAcquirePhys (sizes : Sizeofs) (r : ObjectRepo) (accel : Nat) :
    Option (ObjectRepo × Option Nat) :=
  (r.live accel).bind fun a =>
    if a.type = .physAccel then
      (araxVaccelInit sizes r "FILL" a.accelType (some accel)).map fun (r, v) => (r, some v)
    else some (r, none)

/-- `arax_accel_list_free`. -/
def araxAccelListFree (sizes : Sizeofs) (r : ObjectRepo) (accels : List Nat) : Option ObjectRepo :=
  accels.foldlM (araxObjectRefDec sizes) r

/-- `arax_accel_list_free_pre_locked`. -/
def araxAccelListFreePreLocked (sizes : Sizeofs) (r : ObjectRepo) (accels : List Nat) :
    Option ObjectRepo :=
  accels.foldlM (araxObjectRefDecPreLocked sizes) r

/-- The body of the loops of `arax_accel_list`: `acl` are the accelerators so far, if the caller
wants them, and `accelCount` is their number. -/
def listAccel (type : AccelType) (state : ObjectRepo × Option (List Nat) × Nat) (accel : Nat) :
    Option (ObjectRepo × Option (List Nat) × Nat) :=
  (state.1.live accel).bind fun a =>
    if type = .any ∨ a.accelType = type then
      match state.2.1 with
      | some acl =>
        (araxObjectRefInc state.1 accel).map fun r => (r, some (acl ++ [accel]), state.2.2 + 1)
      | none => some (state.1, none, state.2.2 + 1)
    else some state

/-- `arax_accel_list`: `accels` is `NULL`, or leads to the list of an earlier call, if there was
one. It returns the list that `*accels` leads to and its length. -/
def araxAccelList (sizes : Sizeofs) (r : ObjectRepo) (type : AccelType) (physical : Bool)
    (accels : Option (Option (List Nat))) : Option (ObjectRepo × Option (List Nat) × Nat) :=
  (araxAccelListFreePreLocked sizes r (accels.join.getD [])).bind fun r =>
    (r.list (if physical then .physAccel else .virtAccel)).foldlM (listAccel type)
      (r, accels.map fun _ => [], 0)

/-- `arax_accel_release`. -/
def araxAccelRelease (sizes : Sizeofs) (r : ObjectRepo) (accel : Nat) : Option ObjectRepo :=
  (r.live accel).bind fun a =>
    match a.type with
    | .physAccel | .virtAccel => araxObjectRefDec sizes r accel
    | _ => none

/-! ### Procedures -/

/-- `arax_proc_init`. -/
def araxProcInit (sizes : Sizeofs) (r : ObjectRepo) (name : String) : Option (ObjectRepo × Nat) :=
  araxObjectRegister r .proc name sizes.proc 1

/-- `arax_proc_register`; it takes no reference to a procedure that is there already. -/
def araxProcRegister (sizes : Sizeofs) (r : ObjectRepo) (name : String) :
    Option (ObjectRepo × Nat) :=
  match araxPipeFindProc r name with
  | some proc => some (r, proc)
  | none => araxProcInit sizes r name

/-- `arax_proc_put`. -/
def araxProcPut (sizes : Sizeofs) (r : ObjectRepo) (proc : Nat) : Option ObjectRepo :=
  araxObjectRefDec sizes r proc

/-! ### Data and tasks -/

/-- `arax_data_init_aligned`. -/
def araxDataInitAligned (sizes : Sizeofs) (r : ObjectRepo) (size align : Nat) :
    Option (ObjectRepo × Nat) :=
  if align = 0 then none
  else
    (araxObjectRegister r .data "UNUSED" (sizes.data + (size + align + sizes.pointer)) 1).bind
      fun (r, data) => (r.live data).map fun d =>
        (r.set data { d with size := size, othrRemt := false, phys := none }, data)

/-- `arax_data_init`. -/
def araxDataInit (sizes : Sizeofs) (r : ObjectRepo) (size : Nat) : Option (ObjectRepo × Nat) :=
  araxDataInitAligned sizes r size 1

/-- The first part of `arax_data_set`: data without a virtual accelerator gets one. -/
def assignAccel (r : ObjectRepo) (data accel : Nat) : Option ObjectRepo :=
  (r.live data).bind fun d =>
    match d.accel with
    | none => (araxObjectRefInc r accel).bind fun r => setAccel r data accel
    | some old => if old = accel then some r else none

/-- `arax_data_set`. The task that it issues stays with whoever executes it. -/
def araxDataSet (sizes : Sizeofs) (r : ObjectRepo) (data accel : Nat) :
    Option (ObjectRepo × Nat) :=
  (araxProcGet r "arax_data_set").bind fun (r, setProc) =>
    (assignAccel r data accel).bind fun r => (r.live data).bind fun d =>
      (araxTaskIssue sizes r accel setProc d.size [data]).bind fun (r, task) =>
        (araxProcPut sizes r setProc).map fun r => (r, task)

/-- `arax_data_set_remote`, where `remt` says that the pointer is not `NULL`. -/
def araxDataSetRemote (r : ObjectRepo) (data accel : Nat) (remt : Bool) : Option ObjectRepo :=
  (r.live data).bind fun d => (r.live accel).bind fun v =>
    if v.type = .virtAccel ∧ d.type = .data ∧ v.accelType ≠ .cpu ∧ d.accel = none ∧
        d.remote = false then
      (araxObjectRefInc r accel).bind fun r => (setAccel r data accel).bind fun r =>
        (r.live data).map fun d => r.set data { d with remote := remt, othrRemt := true }
    else none

/-- A worker has allocated device memory for data, or has freed it. -/
def setDeviceMemory (r : ObjectRepo) (data : Nat) (phys : Option Nat) (remote : Bool) :
    Option ObjectRepo :=
  (r.live data).map fun d => r.set data { d with phys := phys, remote := remote }

/-- `arax_data_free`. -/
def araxDataFree (sizes : Sizeofs) (r : ObjectRepo) (data : Nat) : Option ObjectRepo :=
  araxObjectRefDec sizes r data

/-- `arax_task_free`. -/
def araxTaskFree (sizes : Sizeofs) (r : ObjectRepo) (task : Nat) : Option ObjectRepo :=
  araxObjectRefDec sizes r task

/-- `arax_data_get`. Who executes the task that it waits for changes no references. -/
def araxDataGet (sizes : Sizeofs) (r : ObjectRepo) (data : Nat) : Option ObjectRepo :=
  (araxProcGet r "arax_data_get").bind fun (r, getProc) => (r.live data).bind fun d =>
    d.accel.bind fun accel => (araxTaskIssue sizes r accel getProc d.size [data]).bind
      fun (r, task) => (araxTaskFree sizes r task).bind fun r => araxProcPut sizes r getProc

/-- `arax_data_allocate_remote`. Who executes the task that it waits for leaves `phys` and `remote`
in the data. -/
def araxDataAllocateRemote (sizes : Sizeofs) (r : ObjectRepo) (data accel : Nat)
    (phys : Option Nat) (remote : Bool) : Option ObjectRepo :=
  (r.live accel).bind fun v =>
    if v.type ≠ .virtAccel then none
    else if v.accelType = .cpu then some r
    else
      (r.live data).bind fun d =>
        if d.type ≠ .data then none
        else if d.remote = true then if d.accel = none then none else some r
        else
          (araxProcGet r "alloc_data").bind fun (r, allocData) =>
            (araxTaskIssue sizes r accel allocData 0 [data]).bind fun (r, task) =>
              (setDeviceMemory r data phys remote).bind fun r => (araxTaskFree sizes r task).bind
                fun r => (r.live data).bind fun d =>
                  if d.remote = true ∧ d.accel = some accel then some r else none

/-- `arax_data_set_accel`. -/
def araxDataSetAccel (r : ObjectRepo) (data accel : Nat) : Option ObjectRepo :=
  (r.live data).bind fun d => (r.live accel).bind fun v =>
    if d.type ≠ .data ∨ v.type ≠ .virtAccel then none
    else if d.accel = some accel then some r
    else (setAccel r data accel).bind fun r => araxObjectRefInc r accel

end Arax.Core
