/-
**Objects, references and destructors (`src/core/arax_object.c`).**

All objects of the shared segment (physical and virtual accelerators, procedures, data, tasks) are
registered in the repository: one list for each type, with a `length` field, and a throttle that
counts the bytes still available. An object is destroyed with its last reference, and its destructor
drops the references the object holds: a task those to its data and its virtual accelerator, a data
object the one to its virtual accelerator, a physical accelerator the one to its `free_vaq`. A data
object with memory on the device also issues a task that frees this memory.

Objects have numbers that are never used again, and a destroyed object stays as a tombstone. `none`
is a call that does not return: an assertion aborts, the throttle waits for space, or memory is used
after it was freed. The calls are made one after the other, so the list locks are left out.

* `araxObjectRegister`, `araxObjectRefInc`, `araxObjectRefDec` — the functions of the repository.
* `araxTaskIssue`, `araxDataMigrateAccel` — what the destructor of a data object calls to free its
  device memory, and clients call to issue tasks.
* `dtorVaccel`, `dtorData`, `dtorTask`, `dtorAccel`, `dtorProc` — the destructors.
-/

import Mathlib.Data.List.Basic
import Mathlib.Logic.Function.Basic

namespace Arax.Core

/-- `arax_object_type_e`. -/
inductive ObjectType where
  | physAccel
  | virtAccel
  | proc
  | data
  | task
  deriving DecidableEq

/-- `arax_accel_type_e`. -/
inductive AccelType where
  | any
  | gpu
  | gpuSoft
  | cpu
  | sda
  | nanoArm
  | nanoCore
  | openCl
  | hip
  deriving DecidableEq

/-- `arax_object_s`, and the fields of the object types that hold or lead to references. -/
structure AraxObject where
  type : ObjectType
  name : String
  allocSize : Nat
  /-- `ref_count`, an `int` that the assertions keep from going below zero; `2 ^ 31` references to
  one object are not reached. -/
  refCount : Nat
  /-- The destructor has run and the memory was given back. -/
  destroyed : Bool
  /-- `type` of an accelerator, physical or virtual. -/
  accelType : AccelType
  /-- `phys` of a virtual accelerator or of data. -/
  phys : Option Nat
  /-- `free_vaq` of a physical accelerator. -/
  freeVaq : Option Nat
  /-- `accel` of data or of a task. -/
  accel : Option Nat
  /-- `size` of data. -/
  size : Nat
  /-- `remote` of data is not `NULL`. -/
  remote : Bool
  /-- The flag `OTHR_REMT` of data: the device memory belongs to someone else. -/
  othrRemt : Bool
  /-- `io` of a task. -/
  io : List Nat
  /-- `proc` of a task; a task holds no reference to it. -/
  proc : Option Nat
  /-- The task was submitted: its `state` is `task_issued` or a later one. -/
  issued : Bool
  deriving DecidableEq

/-- `ARAX_OBJECT_NAME_SIZE`. -/
def araxObjectNameSize : Nat := 32

/-- What `snprintf(obj->name, ARAX_OBJECT_NAME_SIZE, "%s", name)` stores. -/
def objectName (name : String) : String :=
  String.ofList (name.toList.take (araxObjectNameSize - 1))

/-- The zeroed memory of a fresh object, after the fields of `arax_object_s` are set. -/
def freshObject (type : ObjectType) (name : String) (size refCount : Nat) : AraxObject where
  type := type
  name := objectName name
  allocSize := size
  refCount := refCount
  destroyed := false
  accelType := .any
  phys := none
  freeVaq := none
  accel := none
  size := 0
  remote := false
  othrRemt := false
  io := []
  proc := none
  issued := false

/-- `arax_object_repo_s` and the throttle of the pipe. -/
structure ObjectRepo where
  objs : Nat → Option AraxObject
  /-- The number of the next object. -/
  next : Nat
  list : ObjectType → List Nat
  /-- The `length` fields of the lists. -/
  length : ObjectType → Nat
  available : Nat
  capacity : Nat

/-- `arax_object_repo_init` and `arax_throttle_init`. -/
def araxObjectRepoInit (size : Nat) : ObjectRepo where
  objs := fun _ => none
  next := 0
  list := fun _ => []
  length := fun _ => 0
  available := size
  capacity := size

/-- Sizes that the compiler decides. -/
structure Sizeofs where
  accel : Nat
  vaccel : Nat
  proc : Nat
  data : Nat
  task : Nat
  pointer : Nat

namespace ObjectRepo

/-- The object, if its memory may be accessed. -/
def live (r : ObjectRepo) (id : Nat) : Option AraxObject :=
  (r.objs id).filter fun o => !o.destroyed

/-- A write to the object. -/
def set (r : ObjectRepo) (id : Nat) (o : AraxObject) : ObjectRepo :=
  { r with objs := Function.update r.objs id (some o) }

/-- `utils_list_add`. -/
def link (r : ObjectRepo) (type : ObjectType) (id : Nat) : ObjectRepo :=
  { r with
    list := Function.update r.list type (id :: r.list type)
    length := Function.update r.length type (r.length type + 1) }

/-- `utils_list_del`. -/
def unlink (r : ObjectRepo) (type : ObjectType) (id : Nat) : ObjectRepo :=
  { r with
    list := Function.update r.list type ((r.list type).erase id)
    length := Function.update r.length type (r.length type - 1) }

/-- `arax_throttle_size_dec`: it waits until there is space. -/
def sizeDec (r : ObjectRepo) (sz : Nat) : Option ObjectRepo :=
  if sz = 0 then some r
  else if r.available < sz then none
  else if r.capacity < r.available - sz then none
  else some { r with available := r.available - sz }

/-- `arax_throttle_size_inc`. -/
def sizeInc (r : ObjectRepo) (sz : Nat) : Option ObjectRepo :=
  if sz = 0 then some r
  else if r.capacity < r.available + sz then none
  else some { r with available := r.available + sz }

end ObjectRepo

/-- `arax_object_register`, with successful allocation. -/
def araxObjectRegister (r : ObjectRepo) (type : ObjectType) (name : String) (size refCount : Nat) :
    Option (ObjectRepo × Nat) :=
  (r.sizeDec size).map fun r =>
    (({ r with next := r.next + 1 }.set r.next (freshObject type name size refCount)).link type
      r.next, r.next)

/-- `arax_object_ref_inc`. -/
def araxObjectRefInc (r : ObjectRepo) (id : Nat) : Option ObjectRepo :=
  (r.live id).map fun o => r.set id { o with refCount := o.refCount + 1 }

/-- The end of a destroyed object: `arch_alloc_free` and `arax_pipe_size_inc`. -/
def reclaim (r : ObjectRepo) (id : Nat) (o : AraxObject) : Option ObjectRepo :=
  (r.set id { o with refCount := 0, destroyed := true }).sizeInc o.allocSize

/-- `arax_object_ref_dec` on an object of type `type`, whose destructor is `dtor`. -/
def refDecWith (type : ObjectType) (dtor : ObjectRepo → AraxObject → Option ObjectRepo)
    (r : ObjectRepo) (id : Nat) : Option ObjectRepo :=
  match r.live id with
  | none => none
  | some o =>
    if o.type ≠ type then none
    else if o.refCount = 0 then none
    else
      let refs := o.refCount - 1
      let counted := r.set id { o with refCount := refs }
      if refs = 0 then (dtor (counted.unlink type id) o).bind fun r => reclaim r id o
      else some counted

/-! ### Virtual accelerators -/

/-- `__dtor_arax_vaccel_s`: the VAQ leaves its accelerator or the orphans, no reference changes. For
a VAQ with `phys` it uses the list and the counter of this accelerator, which are left out here: if
the accelerator was destroyed before, that is a use after free (`Arax.Core.PhysLifetime`), and the
model goes on. -/
def dtorVaccel (r : ObjectRepo) (_ : AraxObject) : Option ObjectRepo := some r

/-- `arax_object_ref_dec` on a virtual accelerator. -/
def refDecVaccel : ObjectRepo → Nat → Option ObjectRepo := refDecWith .virtAccel dtorVaccel

/-! ### Procedures -/

/-- `__dtor_arax_proc_s`. -/
def dtorProc (r : ObjectRepo) (_ : AraxObject) : Option ObjectRepo := some r

/-- `arax_object_ref_dec` on a procedure. -/
def refDecProc : ObjectRepo → Nat → Option ObjectRepo := refDecWith .proc dtorProc

/-- `arax_pipe_find_proc`. -/
def araxPipeFindProc (r : ObjectRepo) (name : String) : Option Nat :=
  (r.list .proc).find? fun id => ((r.live id).map AraxObject.name) == some name

/-- `arax_proc_get`; a procedure that is not found makes every caller abort. -/
def araxProcGet (r : ObjectRepo) (name : String) : Option (ObjectRepo × Nat) :=
  (araxPipeFindProc r name).bind fun proc => (araxObjectRefInc r proc).map fun r => (r, proc)

/-! ### Issuing tasks -/

/-- `data->accel = accel`. -/
def setAccel (r : ObjectRepo) (data accel : Nat) : Option ObjectRepo :=
  (r.live data).map fun d => r.set data { d with accel := some accel }

/-- `arax_data_migrate_accel`. -/
def araxDataMigrateAccel (r : ObjectRepo) (data accel : Nat) : Option ObjectRepo :=
  (r.live data).bind fun d =>
    if d.accel = some accel then some r
    else
      match d.accel with
      | none =>
        if d.remote then none
        else (araxObjectRefInc r accel).bind fun r => setAccel r data accel
      | some dvac =>
        (r.live dvac).bind fun old => (r.live accel).bind fun new =>
          if old.type = .virtAccel ∧ new.type = .virtAccel ∧ old.phys = new.phys then
            (refDecVaccel r dvac).bind fun r => (araxObjectRefInc r accel).bind fun r =>
              setAccel r data accel
          else none

/-- `*dest = dev_in[cnt]` and `arax_data_input_init`, or the same for an output. -/
def ioInit (task accel : Nat) (r : ObjectRepo) (data : Nat) : Option ObjectRepo :=
  (r.live task).bind fun t =>
    (araxObjectRefInc (r.set task { t with io := t.io ++ [data] }) data).bind fun r =>
      araxDataMigrateAccel r data accel

/-- `check_semantics`: every input and output is data. -/
def checkSemantics (r : ObjectRepo) (io : List Nat) : Bool :=
  io.all fun id => ((r.live id).map AraxObject.type) == some .data

/-- `arax_task_alloc`. -/
def araxTaskAlloc (sizes : Sizeofs) (r : ObjectRepo) (accel proc hostSize : Nat) (io : List Nat) :
    Option (ObjectRepo × Nat) :=
  (araxObjectRegister r .task "Task" (sizes.task + sizes.pointer * io.length + hostSize) 1).bind
    fun (r, task) => (r.live task).bind fun t =>
      (io.foldlM (ioInit task accel)
        (r.set task { t with accel := some accel, proc := some proc })).map fun r => (r, task)

/-- `arax_task_submit`; the queue of the virtual accelerator is not part of the repository. -/
def araxTaskSubmit (r : ObjectRepo) (task accel : Nat) : Option ObjectRepo :=
  (araxObjectRefInc r accel).bind fun r => (r.live task).map fun t =>
    r.set task { t with issued := true }

/-- `arax_task_issue`. The accelerator has to be a virtual one, whose queue `arax_task_submit`
uses. -/
def araxTaskIssue (sizes : Sizeofs) (r : ObjectRepo) (accel proc hostSize : Nat) (io : List Nat) :
    Option (ObjectRepo × Nat) :=
  if checkSemantics r io = true ∧ ((r.live accel).map AraxObject.type) = some .virtAccel then
    (araxTaskAlloc sizes r accel proc hostSize io).bind fun (r, task) =>
      (araxTaskSubmit r task accel).map fun r => (r, task)
  else none

/-! ### Data, tasks and physical accelerators -/

/-- The free task of `__dtor_arax_data_s`, with four pointers as arguments. -/
def issueFree (sizes : Sizeofs) (r : ObjectRepo) (phys : Nat) : Option ObjectRepo :=
  (araxProcGet r "free").bind fun (r, free) => (r.live phys).bind fun p =>
    p.freeVaq.bind fun freeVaq =>
      (araxTaskIssue sizes r freeVaq free (4 * sizes.pointer) []).map Prod.fst

/-- `__dtor_arax_data_s`. -/
def dtorData (sizes : Sizeofs) (r : ObjectRepo) (d : AraxObject) : Option ObjectRepo :=
  if d.remote = true ∧ d.othrRemt = false then
    d.phys.bind fun phys => (issueFree sizes r phys).bind fun r =>
      d.accel.bind fun accel => refDecVaccel r accel
  else
    match d.accel with
    | some accel => refDecVaccel r accel
    | none => some r

/-- `arax_object_ref_dec` on data. -/
def refDecData (sizes : Sizeofs) : ObjectRepo → Nat → Option ObjectRepo :=
  refDecWith .data (dtorData sizes)

/-- `__dtor_arax_task_msg_s`. -/
def dtorTask (sizes : Sizeofs) (r : ObjectRepo) (t : AraxObject) : Option ObjectRepo :=
  (t.io.foldlM (refDecData sizes) r).bind fun r =>
    match t.accel with
    | some accel => refDecVaccel r accel
    | none => some r

/-- `arax_object_ref_dec` on a task. -/
def refDecTask (sizes : Sizeofs) : ObjectRepo → Nat → Option ObjectRepo :=
  refDecWith .task (dtorTask sizes)

/-- `__dtor_arax_accel_s`: `arax_accel_release` of `free_vaq`. -/
def dtorAccel (r : ObjectRepo) (a : AraxObject) : Option ObjectRepo :=
  a.freeVaq.bind fun freeVaq => refDecVaccel r freeVaq

/-- `arax_object_ref_dec` on a physical accelerator. -/
def refDecAccel : ObjectRepo → Nat → Option ObjectRepo := refDecWith .physAccel dtorAccel

/-- `arax_object_ref_dec`: the destructor is that of `dtor_table` for the type of the object. -/
def araxObjectRefDec (sizes : Sizeofs) (r : ObjectRepo) (id : Nat) : Option ObjectRepo :=
  (r.live id).bind fun o =>
    match o.type with
    | .physAccel => refDecAccel r id
    | .virtAccel => refDecVaccel r id
    | .proc => refDecProc r id
    | .data => refDecData sizes r id
    | .task => refDecTask sizes r id

/-- `arax_object_ref_dec_pre_locked`. The caller holds the list lock, the assertion comes after the
decrement and also refuses a count below zero, and the rest is that of `arax_object_ref_dec`. -/
def araxObjectRefDecPreLocked (sizes : Sizeofs) (r : ObjectRepo) (id : Nat) : Option ObjectRepo :=
  araxObjectRefDec sizes r id

end Arax.Core
