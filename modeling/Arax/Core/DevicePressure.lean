/-
**Device memory (`controller/src/Core/accelThread.cpp`, `controller/src/Cuda/CUDAaccelThread.cpp`,
`controller/src/Cuda/CUDABuiltins.cu`, `src/core/arax_data.c`).**

Before the worker of a GPU executes a task it allocates device memory for its outputs, and waits
in `arax_accel_size_dec` until the throttle of the accelerator has enough. Memory comes back when
a task is executed that the destructor of data has put into `free_vaq`, and the worker is the one
who executes it. So a worker that waits, waits for itself.

The throttle is one step here (`Arax.Core.ThrottleMutex` has its parts). The VAQs of the clients
are assigned to the accelerator and not released, nobody but destructors uses `free_vaq`, and
there is no `FREE_THREAD`.

* `pressureStep` — one step of a client, of a destructor or of the worker.
* `NotWedged` — if the worker waits, then the queued free tasks are not enough for its request.
* `RequestGuard` — the condition: a request finds enough available, or is more than the device has.
* `PressureInv.ledger` — what is available, allocated and on its way back is at most the capacity.
* `pressure_not_wedged` — in every run that meets the condition the worker is not wedged.
* `pressure_wedged` — a run that does not.
-/

import Mathlib.Algebra.Order.Ring.Nat
import Mathlib.Data.List.Basic
import Mathlib.Logic.Function.Basic
import Mathlib.Tactic.SplitIfs
import Arax.Lib.Holding
import Arax.Lib.Run
import Arax.Core.DataQueues

namespace Arax.Core

open Arax.Lib

/-! ### Data and tasks -/

/-- `arax_data_s`. -/
structure DeviceData where
  size : Nat
  refCount : Nat
  /-- The client has not freed the data. -/
  handle : Bool
  /-- `remote` is not `NULL`. -/
  remote : Bool
  /-- The flag `OTHR_REMT`: the device memory belongs to someone else. -/
  othrRemt : Bool

/-- `arax_task_msg_s`. -/
structure DeviceTask where
  vac : Nat
  ins : List Nat
  outs : List Nat
  refCount : Nat
  /-- The client has come to `arax_vaccel_add_task`. -/
  added : Bool
  /-- `arax_task_mark_done` was called. -/
  done : Bool
  /-- The client has not freed the task. -/
  handle : Bool

/-- `arax_object_ref_inc` on data. -/
def refData (data : Nat → Option DeviceData) (id : Nat) : Option (Nat → Option DeviceData) :=
  (data id).map fun d => Function.update data id (some { d with refCount := d.refCount + 1 })

/-- `arax_object_ref_dec` on data. The size of what `__dtor_arax_data_s` has to free on the device
comes with it. -/
def dropData (data : Nat → Option DeviceData) (id : Nat) :
    Option ((Nat → Option DeviceData) × List Nat) :=
  (data id).bind fun d =>
    if d.refCount = 0 then none
    else if d.refCount = 1 then
      some (Function.update data id none,
        if d.remote = true ∧ d.othrRemt = false then [d.size] else [])
    else some (Function.update data id (some { d with refCount := d.refCount - 1 }), [])

/-- The loop of `__dtor_arax_task_msg_s`. -/
def dropIo (data : Nat → Option DeviceData) : List Nat →
    Option ((Nat → Option DeviceData) × List Nat)
  | [] => some (data, [])
  | id :: io => (dropData data id).bind fun (data, frees) =>
      (dropIo data io).map fun (data, more) => (data, frees ++ more)

/-! ### The threads -/

/-- Where the worker is in `workFunc`. -/
inductive PressurePlace where
  /-- In `arax_accel_wait_for_task`. -/
  | wait
  /-- At `arax_accel_get_assigned_vaccels`. -/
  | update
  /-- In the loops of `selectTask`, with the VAQs that are left and their positions. -/
  | select (rest : List (Nat × Nat))
  /-- At `arax_object_ref_inc` of the task. -/
  | start (task : Nat)
  /-- At `alloc_remote` of the next output. -/
  | alloc (task : Nat) (outs : List Nat)
  /-- In `arax_accel_size_dec`, called from `alloc_remote`. -/
  | dec (task data : Nat) (outs : List Nat)
  /-- In the functor of the task, which allocates the inputs that are not on the device. -/
  | execute (task : Nat) (ins : List Nat)
  /-- In `gpu_memfree`. -/
  | memfree (size : Nat)
  /-- At `arax_object_ref_dec` of the task. -/
  | drop (task : Nat)
  /-- In the destructors of its data, at the free tasks that they issue. -/
  | submit (sizes : List Nat)
  deriving DecidableEq

/-- The accelerator, its worker and its clients. -/
structure PressureState where
  /-- `accel->throttle`. -/
  available : Nat
  capacity : Nat
  data : Nat → Option DeviceData
  /-- The number of the next data. -/
  nextData : Nat
  tasks : Nat → Option DeviceTask
  /-- The number of the next task. -/
  nextTask : Nat
  /-- `accel->vaccels`. -/
  vacs : List Nat
  /-- The queues of the VAQs of clients. -/
  queue : Nat → List Nat
  clients : Nat → ClientPlace Nat
  /-- The queue of `free_vaq`: how much its free tasks give back. -/
  frees : List Nat
  /-- Who holds the lock of `free_vaq`. -/
  freeClient : ClientPlace Nat
  /-- The destructors in clients that are about to issue a free task. -/
  submitting : List Nat
  /-- `accel->tasks`. -/
  pending : Nat
  worker : PressurePlace
  rrCounter : Nat

/-- The number of `free_vaq`. -/
def freeVaq : Nat := 0

/-- After `arax_accel_init`, with the size that is available at first. -/
def pressureStart (size capacity : Nat) : PressureState where
  available := size
  capacity := capacity
  data := fun _ => none
  nextData := 0
  tasks := fun _ => none
  nextTask := 0
  vacs := [freeVaq]
  queue := fun _ => []
  clients := fun _ => .unlocked
  frees := []
  freeClient := .unlocked
  submitting := []
  pending := 0
  worker := .wait
  rrCounter := 0

/-- `arax_object_ref_dec` on a task, and what its data have to free. -/
def dropDeviceTask (s : PressureState) (task : Nat) : Option (PressureState × List Nat) :=
  (s.tasks task).bind fun t =>
    if t.refCount = 0 then none
    else if t.refCount = 1 then
      (dropIo s.data (t.ins ++ t.outs)).map fun (data, frees) =>
        ({ s with data := data, tasks := Function.update s.tasks task none }, frees)
    else some ({ s with
      tasks := Function.update s.tasks task (some { t with refCount := t.refCount - 1 }) }, [])

/-- `arax_accel_size_dec`, with its assertion; `none` while it waits. -/
def accelSizeDec (s : PressureState) (size : Nat) : Option PressureState :=
  if size = 0 then some s
  else if s.available < size then none
  else if s.capacity < s.available - size then none
  else some { s with available := s.available - size }

/-- `arax_accel_size_inc`, with its assertion. -/
def accelSizeInc (s : PressureState) (size : Nat) : Option PressureState :=
  if size = 0 then some s
  else if s.capacity < s.available + size then none
  else some { s with available := s.available + size }

/-- `arax_accel_size_dec` and `cudaMalloc`. -/
def allocDevice (s : PressureState) (id : Nat) (d : DeviceData) : Option PressureState :=
  (accelSizeDec s d.size).map fun s =>
    { s with data := Function.update s.data id (some { d with remote := true }) }

/-- The next step of the worker; `slots` is the capacity of a queue. -/
def pressureWork (slots : Nat) (s : PressureState) : PressurePlace → Option PressureState
  | .wait =>
    if s.pending = 0 then none
    else some { s with pending := s.pending - 1, worker := .update }
  | .update =>
    some { s with
      worker := if s.vacs.length = 0 then .wait else .select (rrOrder s.vacs s.rrCounter) }
  | .select [] => some { s with worker := .wait }
  | .select ((vac, position) :: rest) =>
    if vac = freeVaq then
      match s.frees with
      | [] => some { s with worker := .select rest }
      | size :: sizes =>
        some { s with frees := sizes, rrCounter := position, worker := .memfree size }
    else
      match s.queue vac with
      | [] => some { s with worker := .select rest }
      | task :: tasks => some { s with
          queue := Function.update s.queue vac tasks
          rrCounter := position
          worker := .start task }
  | .start task =>
    (s.tasks task).map fun t => { s with
      tasks := Function.update s.tasks task (some { t with refCount := t.refCount + 1 })
      worker := .alloc task t.outs }
  | .alloc task [] =>
    (s.tasks task).map fun t => { s with worker := .execute task t.ins }
  | .alloc task (id :: outs) =>
    (s.data id).map fun d =>
      { s with worker := if d.remote then .alloc task outs else .dec task id outs }
  | .dec task id outs =>
    (s.data id).bind fun d => (allocDevice s id d).map fun s =>
      { s with worker := .alloc task outs }
  | .execute task [] =>
    (s.tasks task).map fun t => { s with
      tasks := Function.update s.tasks task (some { t with done := true })
      worker := .drop task }
  | .execute task (id :: ins) =>
    (s.data id).bind fun d =>
      if d.remote then some { s with worker := .execute task ins }
      else (allocDevice s id d).map fun s => { s with worker := .execute task ins }
  | .memfree size => (accelSizeInc s size).map fun s => { s with worker := .wait }
  | .drop task =>
    (dropDeviceTask s task).map fun (s, sizes) => { s with worker := .submit sizes }
  | .submit [] => some { s with worker := .wait }
  | .submit (size :: sizes) =>
    -- only the worker waits for the count, so it is raised together with the push
    if s.freeClient.isUnlocked = true ∧ s.frees.length < slots then
      some { s with
        frees := s.frees ++ [size]
        pending := (s.pending + 1) % 2 ^ 64
        worker := .submit sizes }
    else none

/-- A step. -/
inductive PressureMove where
  /-- A VAQ is assigned to the accelerator. -/
  | attach (vac : Nat)
  /-- `arax_data_init`. -/
  | dataInit (size : Nat)
  /-- `arax_data_set_remote`. -/
  | setRemote (data : Nat)
  /-- `arax_task_issue`, up to `arax_vaccel_add_task`. -/
  | issue (vac : Nat) (ins outs : List Nat)
  /-- Its client gets `vaccel->lock` for the task. -/
  | addTask (task : Nat)
  /-- The next access of the client that holds the lock. -/
  | client (vac : Nat)
  /-- `arax_task_free`, after `arax_task_wait` has returned. -/
  | taskFree (task : Nat)
  /-- `arax_data_free`. -/
  | dataFree (data : Nat)
  /-- A destructor gets the lock of `free_vaq`. -/
  | addFree (size : Nat)
  /-- Its next access. -/
  | freeClient
  /-- The next step of the worker. -/
  | worker

/-- The client has a handle of the data. -/
def PressureState.hasData (s : PressureState) (id : Nat) : Bool := (s.data id).any DeviceData.handle

/-- One step. -/
def pressureStep (slots : Nat) (s : PressureState) : PressureMove → Option PressureState
  | .attach vac => if vac ∈ s.vacs then none else some { s with vacs := vac :: s.vacs }
  | .dataInit size => some { s with
      data := Function.update s.data s.nextData (some ⟨size, 1, true, false, false⟩)
      nextData := s.nextData + 1 }
  | .setRemote id =>
    (s.data id).bind fun d =>
      if d.handle = true ∧ d.remote = false then
        some { s with
          data := Function.update s.data id (some { d with remote := true, othrRemt := true }) }
      else none
  | .issue vac ins outs =>
    if vac ∈ s.vacs ∧ vac ≠ freeVaq ∧ (ins ++ outs).all s.hasData then
      ((ins ++ outs).foldlM refData s.data).map fun data => { s with
        data := data
        tasks := Function.update s.tasks s.nextTask (some ⟨vac, ins, outs, 1, false, false, true⟩)
        nextTask := s.nextTask + 1 }
    else none
  | .addTask task =>
    (s.tasks task).bind fun t =>
      if t.added = false ∧ (s.clients t.vac).isUnlocked then
        some { s with
          tasks := Function.update s.tasks task (some { t with added := true })
          clients := Function.update s.clients t.vac (.push task) }
      else none
  | .client vac =>
    match s.clients vac with
    | .unlocked => none
    | .push task =>
      if (s.queue vac).length < slots then
        some { s with
          queue := Function.update s.queue vac (s.queue vac ++ [task])
          clients := Function.update s.clients vac .count }
      else none
    | .count => some { s with
        pending := (s.pending + 1) % 2 ^ 64
        clients := Function.update s.clients vac .unlocked }
  | .taskFree task =>
    (s.tasks task).bind fun t =>
      if t.done = true ∧ t.handle = true then
        (dropDeviceTask { s with
            tasks := Function.update s.tasks task (some { t with handle := false }) } task).map
          fun (s, sizes) => { s with submitting := s.submitting ++ sizes }
      else none
  | .dataFree id =>
    (s.data id).bind fun d =>
      if d.handle then
        (dropData (Function.update s.data id (some { d with handle := false })) id).map
          fun (data, sizes) => { s with data := data, submitting := s.submitting ++ sizes }
      else none
  | .addFree size =>
    if size ∈ s.submitting ∧ s.freeClient.isUnlocked then
      some { s with submitting := s.submitting.erase size, freeClient := .push size }
    else none
  | .freeClient =>
    match s.freeClient with
    | .unlocked => none
    | .push size =>
      if s.frees.length < slots then
        some { s with frees := s.frees ++ [size], freeClient := .count }
      else none
    | .count => some { s with pending := (s.pending + 1) % 2 ^ 64, freeClient := .unlocked }
  | .worker => pressureWork slots s s.worker

/-! ### What is to hold, and when -/

/-- If the worker waits in `arax_accel_size_dec`, then the free tasks in the queue of `free_vaq`
do not give back enough for its request. -/
def NotWedged (s : PressureState) : Prop :=
  ∀ task id outs d, s.worker = .dec task id outs → s.data id = some d → s.available < d.size →
    s.available + s.frees.sum < d.size

/-- A request for device memory finds enough, or is more than the device has. -/
def WorkGuard (s : PressureState) : PressurePlace → Prop
  | .alloc _ (id :: _) => ∀ d ∈ s.data id, d.remote = false →
      d.size ≤ s.available ∨ s.capacity < d.size
  | _ => True

/-- **The condition on a step.** -/
def RequestGuard (s : PressureState) : PressureMove → Prop
  | .worker => WorkGuard s s.worker
  | _ => True

instance (s : PressureState) : (place : PressurePlace) → Decidable (WorkGuard s place)
  | .alloc _ (id :: _) => inferInstanceAs (Decidable (∀ d ∈ s.data id, _ → _))
  | .alloc _ [] | .wait | .update | .select _ | .start _ | .dec _ _ _ | .execute _ _ | .memfree _
  | .drop _ | .submit _ => isTrue trivial

instance (s : PressureState) : (move : PressureMove) → Decidable (RequestGuard s move)
  | .worker => inferInstanceAs (Decidable (WorkGuard s s.worker))
  | .attach _ | .dataInit _ | .setRemote _ | .issue _ _ _ | .addTask _ | .client _ | .taskFree _
  | .dataFree _ | .addFree _ | .freeClient => isTrue trivial

/-! ### The ledger -/

/-- The device memory that data has to give back. -/
def DeviceData.bytes (d : DeviceData) : Nat :=
  if d.remote = true ∧ d.othrRemt = false then d.size else 0

def bytesOf (data : Nat → Option DeviceData) (id : Nat) : Nat :=
  match data id with
  | some d => d.bytes
  | none => 0

/-- The device memory of the data with numbers below `n`. -/
def allocated (n : Nat) (data : Nat → Option DeviceData) : Nat :=
  ∑ id ∈ Finset.range n, bytesOf data id

/-- What a free task gives back that is about to be pushed. -/
def ClientPlace.bytes : ClientPlace Nat → Nat
  | .push size => size
  | _ => 0

/-- What the worker is about to give back, or to put into `free_vaq`. -/
def PressurePlace.bytes : PressurePlace → Nat
  | .memfree size => size
  | .submit sizes => sizes.sum
  | _ => 0

/-- What is known of a request. -/
def RequestInv (s : PressureState) : PressurePlace → Prop
  | .dec _ id _ => id < s.nextData ∧
      ∀ d, s.data id = some d → d.size ≤ s.available ∨ s.capacity < d.size
  | _ => True

/-- **The invariant.** -/
structure PressureInv (s : PressureState) : Prop where
  ledger : s.available + allocated s.nextData s.data + s.submitting.sum + s.freeClient.bytes +
    s.frees.sum + s.worker.bytes ≤ s.capacity
  fresh : ∀ id, s.nextData ≤ id → s.data id = none
  request : RequestInv s s.worker

/-- A waiting worker asks for more than the device has. -/
theorem PressureInv.notWedged {s : PressureState} (inv : PressureInv s) : NotWedged s := by
  intro task id outs d place found short
  have request := inv.request
  have ledger := inv.ledger
  rw [place] at request
  rcases request.2 d found with enough | more
  · omega
  · omega

section Data

variable {data data' : Nat → Option DeviceData} {n id : Nat} {d d' : DeviceData}
  {sizes io : List Nat}

theorem bytesOf_some (found : data id = some d) : bytesOf data id = d.bytes := by
  unfold bytesOf
  rw [found]

theorem bytesOf_update (x : Option DeviceData) :
    bytesOf (Function.update data id x) =
      Function.update (bytesOf data) id (match x with | some d => d.bytes | none => 0) := by
  funext j
  unfold bytesOf
  by_cases same : j = id
  · subst same
    rw [Function.update_self, Function.update_self]
  · rw [Function.update_of_ne same, Function.update_of_ne same]

/-- One data changes. -/
theorem allocated_update (data : Nat → Option DeviceData) (inside : id < n)
    (x : Option DeviceData) :
    allocated n (Function.update data id x) + bytesOf data id =
      allocated n data + (match x with | some d => d.bytes | none => 0) := by
  unfold allocated
  rw [bytesOf_update]
  exact sum_range_update (bytesOf data) inside _

/-- What the steps keep of the data: those to come are free, and no size changes. -/
structure SameSizes (n : Nat) (data data' : Nat → Option DeviceData) : Prop where
  fresh : (∀ id, n ≤ id → data id = none) → ∀ id, n ≤ id → data' id = none
  size : ∀ id d', data' id = some d' → ∃ d, data id = some d ∧ d.size = d'.size

theorem SameSizes.refl (n : Nat) (data : Nat → Option DeviceData) : SameSizes n data data :=
  ⟨fun fresh => fresh, fun _ d found => ⟨d, found, rfl⟩⟩

theorem SameSizes.trans {data'' : Nat → Option DeviceData} (first : SameSizes n data data')
    (second : SameSizes n data' data'') : SameSizes n data data'' := by
  refine ⟨fun fresh => second.fresh (first.fresh fresh), fun id d'' found => ?_⟩
  obtain ⟨d', found', size'⟩ := second.size id d'' found
  obtain ⟨d, found'', size⟩ := first.size id d' found'
  exact ⟨d, found'', size.trans size'⟩

/-- One data changes, but not its size, or it is destroyed. -/
theorem SameSizes.update (found : data id = some d) {x : Option DeviceData}
    (size : ∀ d' ∈ x, d'.size = d.size) : SameSizes n data (Function.update data id x) := by
  refine ⟨fun fresh j later => ?_, fun j d' found' => ?_⟩
  · have apart : j ≠ id := by
      rintro rfl
      rw [fresh j later] at found
      cases found
    rw [Function.update_of_ne apart]
    exact fresh j later
  · by_cases same : j = id
    · rw [same, Function.update_self] at found'
      exact ⟨d, same ▸ found, (size d' found').symm⟩
    · rw [Function.update_of_ne same] at found'
      exact ⟨d', found', rfl⟩

theorem inside_of_fresh (fresh : ∀ id, n ≤ id → data id = none) (found : data id = some d) :
    id < n := by
  by_contra later
  rw [fresh id (Nat.le_of_not_lt later)] at found
  cases found

/-- A change that keeps the device memory of the data. -/
theorem allocated_same (fresh : ∀ id, n ≤ id → data id = none) (found : data id = some d)
    (same : d'.bytes = d.bytes) :
    allocated n (Function.update data id (some d')) = allocated n data := by
  have update := allocated_update data (inside_of_fresh fresh found) (some d')
  rw [bytesOf_some found] at update
  simp only at update
  omega

/-- References are taken. -/
theorem refData_all (fresh : ∀ id, n ≤ id → data id = none)
    (taken : io.foldlM refData data = some data') :
    allocated n data' = allocated n data ∧ SameSizes n data data' := by
  induction io generalizing data with
  | nil =>
    cases taken
    exact ⟨rfl, SameSizes.refl n _⟩
  | cons id io ih =>
    rw [List.foldlM_cons] at taken
    obtain ⟨next, ref, rest⟩ := Option.bind_eq_some_iff.mp taken
    obtain ⟨d, found, rfl⟩ := Option.map_eq_some_iff.mp ref
    have sizes : SameSizes n data _ := SameSizes.update found
      (x := some { d with refCount := d.refCount + 1 }) (by rintro d' ⟨⟩; rfl)
    obtain ⟨bytes, sizes'⟩ := ih (sizes.fresh fresh) rest
    exact ⟨bytes.trans (allocated_same fresh found rfl), sizes.trans sizes'⟩

/-- **A reference to data is dropped.** What is no longer allocated is to be freed. -/
theorem dropData_allocated (fresh : ∀ id, n ≤ id → data id = none)
    (drop : dropData data id = some (data', sizes)) :
    allocated n data' + sizes.sum = allocated n data ∧ SameSizes n data data' := by
  obtain ⟨d, found, drop⟩ := Option.bind_eq_some_iff.mp drop
  have inside := inside_of_fresh fresh found
  split_ifs at drop with zero last device
  · cases drop
    have update := allocated_update data inside none
    rw [bytesOf_some found, DeviceData.bytes, if_pos device] at update
    exact ⟨by simpa using update, SameSizes.update found fun _ impossible => by cases impossible⟩
  · cases drop
    have update := allocated_update data inside none
    rw [bytesOf_some found, DeviceData.bytes, if_neg device] at update
    exact ⟨by simpa using update, SameSizes.update found fun _ impossible => by cases impossible⟩
  · cases drop
    refine ⟨allocated_same fresh found rfl, SameSizes.update found ?_⟩
    rintro d' ⟨⟩
    rfl

theorem dropIo_allocated (fresh : ∀ id, n ≤ id → data id = none)
    (drop : dropIo data io = some (data', sizes)) :
    allocated n data' + sizes.sum = allocated n data ∧ SameSizes n data data' := by
  induction io generalizing data sizes with
  | nil =>
    cases drop
    exact ⟨rfl, SameSizes.refl n _⟩
  | cons id io ih =>
    obtain ⟨⟨next, frees⟩, first, drops⟩ := Option.bind_eq_some_iff.mp drop
    obtain ⟨⟨last, more⟩, rest, pair⟩ := Option.map_eq_some_iff.mp drops
    cases pair
    obtain ⟨bytes, same⟩ := dropData_allocated fresh first
    obtain ⟨bytes', same'⟩ := ih (same.fresh fresh) rest
    refine ⟨?_, same.trans same'⟩
    rw [List.sum_append]
    omega

end Data

/-! ### Every step keeps the invariant -/

/-- All the memory that is accounted for. -/
def PressureState.accounted (s : PressureState) : Nat :=
  s.available + allocated s.nextData s.data + s.submitting.sum + s.freeClient.bytes + s.frees.sum +
    s.worker.bytes

section Steps

variable {s t : PressureState} {slots : Nat}

theorem PressureInv.goOn (inv : PressureInv s) (capacity : t.capacity = s.capacity)
    (next : t.nextData = s.nextData) (sizes : SameSizes s.nextData s.data t.data)
    (ledger : t.accounted ≤ s.accounted) (request : RequestInv t t.worker) : PressureInv t := by
  refine ⟨?_, ?_, request⟩
  · rw [capacity]
    exact Nat.le_trans ledger inv.ledger
  · rw [next]
    exact sizes.fresh inv.fresh

/-- A step of a client or of a destructor. -/
theorem PressureInv.clientStep (inv : PressureInv s) (capacity : t.capacity = s.capacity)
    (available : t.available = s.available) (worker : t.worker = s.worker)
    (next : t.nextData = s.nextData) (sizes : SameSizes s.nextData s.data t.data)
    (ledger : t.accounted ≤ s.accounted) : PressureInv t := by
  refine inv.goOn capacity next sizes ledger ?_
  have request := inv.request
  rw [worker]
  cases place : s.worker with
  | dec task id outs =>
    rw [place] at request
    obtain ⟨inside, known⟩ := request
    refine ⟨next ▸ inside, fun d' found => ?_⟩
    obtain ⟨d, found', size⟩ := sizes.size id d' found
    rw [available, capacity, ← size]
    exact known d found'
  | _ => trivial

/-- New data has no device memory. -/
theorem PressureInv.dataInit (inv : PressureInv s) (size : Nat) :
    PressureInv { s with
      data := Function.update s.data s.nextData (some ⟨size, 1, true, false, false⟩)
      nextData := s.nextData + 1 } := by
  have unchanged : ∀ id, id < s.nextData →
      Function.update s.data s.nextData (some ⟨size, 1, true, false, false⟩) id = s.data id :=
    fun id inside => Function.update_of_ne (Nat.ne_of_lt inside) ..
  have same : allocated (s.nextData + 1)
      (Function.update s.data s.nextData (some ⟨size, 1, true, false, false⟩)) =
        allocated s.nextData s.data := by
    unfold allocated
    rw [Finset.sum_range_succ, bytesOf_some (Function.update_self ..)]
    show _ + 0 = _
    rw [Nat.add_zero]
    refine Finset.sum_congr rfl fun id inside => ?_
    unfold bytesOf
    rw [unchanged id (Finset.mem_range.mp inside)]
  refine ⟨?_, fun id later => ?_, ?_⟩
  · have ledger := inv.ledger
    rw [← same] at ledger
    exact ledger
  · show Function.update s.data s.nextData _ id = none
    rw [Function.update_of_ne (Nat.ne_of_gt later)]
    exact inv.fresh id (Nat.le_of_succ_le later)
  · have request := inv.request
    show RequestInv _ s.worker
    cases place : s.worker with
    | dec task id outs =>
      rw [place] at request
      refine ⟨Nat.lt_succ_of_lt request.1, fun d found => ?_⟩
      change Function.update s.data s.nextData _ id = some d at found
      rw [unchanged id request.1] at found
      exact request.2 d found
    | _ => trivial

/-- A reference to a task is dropped: no data gets device memory. -/
theorem dropDeviceTask_sizes {task : Nat} {sizes : List Nat} (inv : PressureInv s)
    (drop : dropDeviceTask s task = some (t, sizes)) :
    allocated s.nextData t.data + sizes.sum = allocated s.nextData s.data ∧
      SameSizes s.nextData s.data t.data ∧ t = { s with data := t.data, tasks := t.tasks } := by
  obtain ⟨m, -, drop⟩ := Option.bind_eq_some_iff.mp drop
  split_ifs at drop
  · obtain ⟨⟨data, frees⟩, drops, pair⟩ := Option.map_eq_some_iff.mp drop
    cases pair
    obtain ⟨bytes, same⟩ := dropIo_allocated inv.fresh drops
    exact ⟨bytes, same, rfl⟩
  · cases drop
    exact ⟨rfl, SameSizes.refl _ _, rfl⟩

/-- Device memory is allocated for data. -/
theorem allocDevice_accounted {id : Nat} {d : DeviceData} (inv : PressureInv s)
    (found : s.data id = some d) (alloc : allocDevice s id d = some t) :
    t.available + allocated s.nextData t.data ≤ s.available + allocated s.nextData s.data ∧
      SameSizes s.nextData s.data t.data ∧
      t = { s with available := t.available, data := t.data } := by
  obtain ⟨u, dec, rfl⟩ := Option.map_eq_some_iff.mp alloc
  have sizes : SameSizes s.nextData s.data (Function.update s.data id (some
      { d with remote := true })) := SameSizes.update found (by rintro d' ⟨⟩; rfl)
  have update := allocated_update s.data (inside_of_fresh inv.fresh found)
    (some { d with remote := true })
  have small : ({ d with remote := true } : DeviceData).bytes ≤ d.size := by
    unfold DeviceData.bytes
    split_ifs
    · exact Nat.le_refl _
    · exact Nat.zero_le _
  have more : allocated s.nextData (Function.update s.data id (some { d with remote := true })) ≤
      allocated s.nextData s.data + d.size := by
    simp only at update
    omega
  unfold accelSizeDec at dec
  split_ifs at dec with zero short
  · cases dec
    refine ⟨Nat.add_le_add_left ?_ s.available, sizes, rfl⟩
    exact Nat.le_trans more (Nat.le_of_eq (by rw [zero, Nat.add_zero]))
  · cases dec
    refine ⟨?_, sizes, rfl⟩
    have enough : d.size ≤ s.available := Nat.le_of_not_lt short
    calc s.available - d.size + allocated s.nextData
          (Function.update s.data id (some { d with remote := true }))
        ≤ s.available - d.size + (allocated s.nextData s.data + d.size) :=
          Nat.add_le_add_left more _
      _ = s.available + allocated s.nextData s.data := by omega

/-- The worker goes on, and takes memory or brings it on its way. -/
theorem PressureInv.workStep (inv : PressureInv s)
    (same : t.capacity = s.capacity ∧ t.nextData = s.nextData ∧ t.submitting = s.submitting ∧
      t.freeClient = s.freeClient)
    (sizes : SameSizes s.nextData s.data t.data)
    (bytes : t.available + allocated s.nextData t.data + t.frees.sum + t.worker.bytes ≤
      s.available + allocated s.nextData s.data + s.frees.sum + s.worker.bytes)
    (request : RequestInv t t.worker) : PressureInv t := by
  obtain ⟨capacity, next, submitting, freeClient⟩ := same
  refine inv.goOn capacity next sizes ?_ request
  unfold PressureState.accounted
  rw [next, submitting, freeClient]
  omega

/-- The worker goes on, and no data changes. -/
theorem PressureInv.goto (inv : PressureInv s)
    (same : t.available = s.available ∧ t.capacity = s.capacity ∧ t.nextData = s.nextData ∧
      t.data = s.data ∧ t.submitting = s.submitting ∧ t.freeClient = s.freeClient)
    (bytes : t.frees.sum + t.worker.bytes ≤ s.frees.sum + s.worker.bytes)
    (request : RequestInv t t.worker) : PressureInv t := by
  obtain ⟨available, capacity, next, data, submitting, freeClient⟩ := same
  refine inv.workStep ⟨capacity, next, submitting, freeClient⟩ (data ▸ SameSizes.refl _ _) ?_
    request
  rw [available, data]
  omega

/-- The worker goes on with nothing in its hands. -/
theorem PressureInv.idle (inv : PressureInv s)
    (same : t.available = s.available ∧ t.capacity = s.capacity ∧ t.nextData = s.nextData ∧
      t.data = s.data ∧ t.submitting = s.submitting ∧ t.freeClient = s.freeClient)
    (frees : t.frees = s.frees) (bytes : t.worker.bytes = 0) (request : RequestInv t t.worker) :
    PressureInv t := by
  refine inv.goto same ?_ request
  rw [frees, bytes]
  exact Nat.le_add_right _ _

/-- The worker looks for a task. -/
theorem PressureInv.select {rest : List (Nat × Nat)} (inv : PressureInv s)
    (step : pressureWork slots s (.select rest) = some t) : PressureInv t := by
  cases rest with
  | nil =>
    cases step
    exact inv.idle ⟨rfl, rfl, rfl, rfl, rfl, rfl⟩ rfl rfl trivial
  | cons first rest =>
    obtain ⟨vac, position⟩ := first
    simp only [pressureWork] at step
    by_cases free : vac = freeVaq
    · rw [if_pos free] at step
      cases frees : s.frees with
      | nil =>
        rw [frees] at step
        cases step
        exact inv.idle ⟨rfl, rfl, rfl, rfl, rfl, rfl⟩ frees.symm rfl trivial
      | cons size sizes =>
        rw [frees] at step
        cases step
        refine inv.goto ⟨rfl, rfl, rfl, rfl, rfl, rfl⟩ ?_ trivial
        show sizes.sum + size ≤ s.frees.sum + s.worker.bytes
        rw [frees, List.sum_cons]
        omega
    · rw [if_neg free] at step
      cases queue : s.queue vac with
      | nil =>
        rw [queue] at step
        cases step
        exact inv.idle ⟨rfl, rfl, rfl, rfl, rfl, rfl⟩ rfl rfl trivial
      | cons task tasks =>
        rw [queue] at step
        cases step
        exact inv.idle ⟨rfl, rfl, rfl, rfl, rfl, rfl⟩ rfl rfl trivial

/-- **The steps of the worker.** -/
theorem pressureWork_inv (inv : PressureInv s) (guard : WorkGuard s s.worker)
    (step : pressureWork slots s s.worker = some t) : PressureInv t := by
  cases place : s.worker with
  | wait =>
    rw [place] at step
    simp only [pressureWork] at step
    split_ifs at step
    cases step
    exact inv.idle ⟨rfl, rfl, rfl, rfl, rfl, rfl⟩ rfl rfl trivial
  | update =>
    rw [place] at step
    cases step
    refine inv.goto ⟨rfl, rfl, rfl, rfl, rfl, rfl⟩ ?_ ?_
    · show s.frees.sum + (if s.vacs.length = 0 then _ else _ : PressurePlace).bytes ≤ _
      split_ifs <;> simp [place, PressurePlace.bytes]
    · show RequestInv _ (if s.vacs.length = 0 then _ else _)
      split_ifs <;> trivial
  | select rest =>
    rw [place] at step
    exact inv.select step
  | start task =>
    rw [place] at step
    obtain ⟨m, -, rfl⟩ := Option.map_eq_some_iff.mp step
    exact inv.idle ⟨rfl, rfl, rfl, rfl, rfl, rfl⟩ rfl rfl trivial
  | alloc task outs =>
    rw [place] at step guard
    cases outs with
    | nil =>
      obtain ⟨m, -, rfl⟩ := Option.map_eq_some_iff.mp step
      exact inv.idle ⟨rfl, rfl, rfl, rfl, rfl, rfl⟩ rfl rfl trivial
    | cons id outs =>
      obtain ⟨d, found, rfl⟩ := Option.map_eq_some_iff.mp step
      by_cases remote : d.remote
      · refine inv.goto ⟨rfl, rfl, rfl, rfl, rfl, rfl⟩ ?_ ?_
        · simp [place, remote, PressurePlace.bytes]
        · simp only [remote, if_true]
          trivial
      · refine inv.goto ⟨rfl, rfl, rfl, rfl, rfl, rfl⟩ ?_ ?_
        · simp [place, remote, PressurePlace.bytes]
        · simp only [remote]
          refine ⟨inside_of_fresh inv.fresh found, fun d' found' => ?_⟩
          cases Option.some.inj (found.symm.trans found')
          exact guard d found (by simpa using remote)
  | dec task id outs =>
    rw [place] at step
    obtain ⟨d, found, step⟩ := Option.bind_eq_some_iff.mp step
    obtain ⟨u, alloc, rfl⟩ := Option.map_eq_some_iff.mp step
    obtain ⟨bytes, sizes, frame⟩ := allocDevice_accounted inv found alloc
    rw [frame]
    refine inv.workStep ⟨rfl, rfl, rfl, rfl⟩ sizes ?_ trivial
    show u.available + allocated s.nextData u.data + s.frees.sum + 0 ≤ _
    omega
  | execute task ins =>
    rw [place] at step
    cases ins with
    | nil =>
      obtain ⟨m, -, rfl⟩ := Option.map_eq_some_iff.mp step
      exact inv.idle ⟨rfl, rfl, rfl, rfl, rfl, rfl⟩ rfl rfl trivial
    | cons id ins =>
      obtain ⟨d, found, step⟩ := Option.bind_eq_some_iff.mp step
      split_ifs at step
      · cases step
        exact inv.idle ⟨rfl, rfl, rfl, rfl, rfl, rfl⟩ rfl rfl trivial
      · obtain ⟨u, alloc, rfl⟩ := Option.map_eq_some_iff.mp step
        obtain ⟨bytes, sizes, frame⟩ := allocDevice_accounted inv found alloc
        rw [frame]
        refine inv.workStep ⟨rfl, rfl, rfl, rfl⟩ sizes ?_ trivial
        show u.available + allocated s.nextData u.data + s.frees.sum + 0 ≤ _
        omega
  | memfree size =>
    rw [place] at step
    obtain ⟨u, inc, rfl⟩ := Option.map_eq_some_iff.mp step
    unfold accelSizeInc at inc
    split_ifs at inc
    · cases inc
      exact inv.idle ⟨rfl, rfl, rfl, rfl, rfl, rfl⟩ rfl rfl trivial
    · cases inc
      refine inv.workStep ⟨rfl, rfl, rfl, rfl⟩ (SameSizes.refl _ _) ?_ trivial
      show s.available + size + allocated s.nextData s.data + s.frees.sum + 0 ≤ _
      rw [place, PressurePlace.bytes]
      omega
  | drop task =>
    rw [place] at step
    obtain ⟨⟨u, sizes⟩, drop, rfl⟩ := Option.map_eq_some_iff.mp step
    obtain ⟨bytes, same, frame⟩ := dropDeviceTask_sizes inv drop
    rw [frame]
    refine inv.workStep ⟨rfl, rfl, rfl, rfl⟩ same ?_ trivial
    show s.available + allocated s.nextData u.data + s.frees.sum + sizes.sum ≤ _
    omega
  | submit sizes =>
    rw [place] at step
    cases sizes with
    | nil =>
      cases step
      exact inv.idle ⟨rfl, rfl, rfl, rfl, rfl, rfl⟩ rfl rfl trivial
    | cons size sizes =>
      simp only [pressureWork] at step
      split_ifs at step
      cases step
      refine inv.goto ⟨rfl, rfl, rfl, rfl, rfl, rfl⟩ ?_ trivial
      show (s.frees ++ [size]).sum + sizes.sum ≤ s.frees.sum + s.worker.bytes
      rw [place, List.sum_append, List.sum_singleton]
      show _ ≤ _ + (size :: sizes).sum
      rw [List.sum_cons]
      omega

/-- **Every step that meets the condition keeps the invariant.** -/
theorem pressureStep_inv {move : PressureMove} (inv : PressureInv s) (guard : RequestGuard s move)
    (step : pressureStep slots s move = some t) : PressureInv t := by
  cases move with
  | attach vac =>
    simp only [pressureStep] at step
    split_ifs at step
    cases step
    exact inv.clientStep rfl rfl rfl rfl (SameSizes.refl _ _) (Nat.le_refl _)
  | dataInit size =>
    cases step
    exact inv.dataInit size
  | setRemote id =>
    obtain ⟨d, found, step⟩ := Option.bind_eq_some_iff.mp step
    split_ifs at step with may
    cases step
    have same : ({ d with remote := true, othrRemt := true } : DeviceData).bytes = d.bytes := by
      simp [DeviceData.bytes, may.2]
    refine inv.clientStep rfl rfl rfl rfl (SameSizes.update found (by rintro d' ⟨⟩; rfl)) ?_
    show s.available + allocated s.nextData (Function.update s.data id _) + _ + _ + _ + _ ≤ _
    rw [allocated_same inv.fresh found same]
    exact Nat.le_refl _
  | issue vac ins outs =>
    simp only [pressureStep] at step
    split_ifs at step
    obtain ⟨data, taken, rfl⟩ := Option.map_eq_some_iff.mp step
    obtain ⟨bytes, sizes⟩ := refData_all inv.fresh taken
    refine inv.clientStep rfl rfl rfl rfl sizes ?_
    show s.available + allocated s.nextData data + _ + _ + _ + _ ≤ _
    rw [bytes]
    exact Nat.le_refl _
  | addTask task =>
    obtain ⟨m, -, step⟩ := Option.bind_eq_some_iff.mp step
    split_ifs at step
    cases step
    exact inv.clientStep rfl rfl rfl rfl (SameSizes.refl _ _) (Nat.le_refl _)
  | client vac =>
    simp only [pressureStep] at step
    cases place : s.clients vac with
    | unlocked =>
      rw [place] at step
      cases step
    | push task =>
      rw [place] at step
      simp only at step
      split_ifs at step
      cases step
      exact inv.clientStep rfl rfl rfl rfl (SameSizes.refl _ _) (Nat.le_refl _)
    | count =>
      rw [place] at step
      cases step
      exact inv.clientStep rfl rfl rfl rfl (SameSizes.refl _ _) (Nat.le_refl _)
  | taskFree task =>
    obtain ⟨m, found, step⟩ := Option.bind_eq_some_iff.mp step
    split_ifs at step
    obtain ⟨⟨u, sizes⟩, drop, rfl⟩ := Option.map_eq_some_iff.mp step
    have freed : PressureInv { s with
        tasks := Function.update s.tasks task (some { m with handle := false }) } :=
      inv.clientStep rfl rfl rfl rfl (SameSizes.refl _ _) (Nat.le_refl _)
    obtain ⟨bytes, same, frame⟩ := dropDeviceTask_sizes freed drop
    rw [frame]
    refine inv.clientStep rfl rfl rfl rfl same ?_
    show s.available + allocated s.nextData u.data + (s.submitting ++ sizes).sum +
      s.freeClient.bytes + s.frees.sum + s.worker.bytes ≤ s.accounted
    unfold PressureState.accounted
    rw [List.sum_append]
    change allocated s.nextData u.data + sizes.sum = allocated s.nextData s.data at bytes
    omega
  | dataFree id =>
    obtain ⟨d, found, step⟩ := Option.bind_eq_some_iff.mp step
    split_ifs at step
    obtain ⟨⟨data, sizes⟩, drop, rfl⟩ := Option.map_eq_some_iff.mp step
    have first : SameSizes s.nextData s.data (Function.update s.data id
        (some { d with handle := false })) := SameSizes.update found (by rintro d' ⟨⟩; rfl)
    obtain ⟨bytes, same⟩ := dropData_allocated (first.fresh inv.fresh) drop
    rw [allocated_same inv.fresh found (by rfl)] at bytes
    refine inv.clientStep rfl rfl rfl rfl (first.trans same) ?_
    show s.available + allocated s.nextData data + (s.submitting ++ sizes).sum +
      s.freeClient.bytes + s.frees.sum + s.worker.bytes ≤ s.accounted
    unfold PressureState.accounted
    rw [List.sum_append]
    omega
  | addFree size =>
    simp only [pressureStep] at step
    split_ifs at step with may
    cases step
    refine inv.clientStep rfl rfl rfl rfl (SameSizes.refl _ _) ?_
    show s.available + allocated s.nextData s.data + (s.submitting.erase size).sum + size +
      s.frees.sum + s.worker.bytes ≤ s.accounted
    unfold PressureState.accounted
    have taken := (List.perm_cons_erase may.1).sum_eq
    rw [List.sum_cons] at taken
    omega
  | freeClient =>
    simp only [pressureStep] at step
    cases place : s.freeClient with
    | unlocked =>
      rw [place] at step
      cases step
    | push size =>
      rw [place] at step
      simp only at step
      split_ifs at step
      cases step
      refine inv.clientStep rfl rfl rfl rfl (SameSizes.refl _ _) ?_
      show s.available + allocated s.nextData s.data + s.submitting.sum + 0 +
        (s.frees ++ [size]).sum + s.worker.bytes ≤ s.accounted
      unfold PressureState.accounted
      rw [place, ClientPlace.bytes, List.sum_append, List.sum_singleton]
      omega
    | count =>
      rw [place] at step
      cases step
      refine inv.clientStep rfl rfl rfl rfl (SameSizes.refl _ _) ?_
      unfold PressureState.accounted
      rw [place]
      exact Nat.le_refl _
  | worker => exact pressureWork_inv inv guard step

theorem pressureStart_inv {size capacity : Nat} (fits : size ≤ capacity) :
    PressureInv (pressureStart size capacity) :=
  ⟨fits, fun _ _ => rfl, trivial⟩

end Steps

/-- **Memory pressure does not wedge the worker.** In every run of clients, destructors and the
worker in which each request for device memory finds enough, or is more than the device has, in
every state: if the worker waits in `arax_accel_size_dec`, the queued free tasks are not enough
for it. The accelerator starts as `arax_throttle_init` asserts. -/
theorem pressure_not_wedged (slots size capacity : Nat) (fits : size ≤ capacity)
    (moves : List PressureMove) (s : PressureState)
    (guarded : Guarded (pressureStep slots) RequestGuard (pressureStart size capacity) moves)
    (run : exec (pressureStep slots) (pressureStart size capacity) moves = some s) :
    NotWedged s :=
  (exec_guarded (fun _ _ _ inv guard step => pressureStep_inv inv guard step)
    (pressureStart_inv fits) guarded run).notWedged

/-- A client uses the whole device for the output of a task. -/
def fillMoves : List PressureMove :=
  [.attach 1, .dataInit 64, .issue 1 [] [0], .addTask 0, .client 1, .client 1] ++
    List.replicate 9 .worker ++ [.taskFree 0, .worker, .worker]

/-- It frees the output, the worker executes the free task, and a second output finds enough. -/
def reuseMoves : List PressureMove :=
  fillMoves ++ [.dataFree 0, .addFree 64, .freeClient, .freeClient, .worker, .worker, .worker,
    .worker, .dataInit 64, .issue 1 [] [1], .addTask 1, .client 1, .client 1, .worker, .worker,
    .worker, .worker, .worker]

theorem pressure_not_wedged_at_reuse :
    ∃ s, exec (pressureStep 256) (pressureStart 64 64) reuseMoves = some s ∧
      s.worker = .dec 1 1 [] ∧ NotWedged s := by
  have view : (exec (pressureStep 256) (pressureStart 64 64) reuseMoves).map
      PressureState.worker = some (.dec 1 1 []) := by
    decide +kernel
  obtain ⟨s, run, place⟩ := Option.map_eq_some_iff.mp view
  exact ⟨s, run, place, pressure_not_wedged 256 64 64 (Nat.le_refl 64) reuseMoves s
    (by decide +kernel) run⟩

/-- **A worker that waits for itself.** The second task comes before the first output is freed: the
worker waits for the memory that the free task, which only it can execute, would give back. -/
theorem pressure_wedged :
    ¬∀ (slots size capacity : Nat) (moves : List PressureMove) (s : PressureState),
      size ≤ capacity →
        exec (pressureStep slots) (pressureStart size capacity) moves = some s → NotWedged s := by
  intro claimed
  have view : (exec (pressureStep 256) (pressureStart 64 64) (fillMoves ++ [.dataInit 64,
      .issue 1 [] [1], .addTask 1, .client 1, .client 1, .worker, .worker, .worker, .worker,
      .worker, .worker, .dataFree 0, .addFree 64, .freeClient])).map
        (fun s => (s.worker, s.available, s.frees, (s.data 1).map DeviceData.size)) =
      some (.dec 1 1 [], 0, [64], some 64) := by
    decide +kernel
  obtain ⟨s, run, ends⟩ := Option.map_eq_some_iff.mp view
  simp only [Prod.mk.injEq] at ends
  obtain ⟨place, available, frees, size⟩ := ends
  obtain ⟨d, found, size⟩ := Option.map_eq_some_iff.mp size
  have enough := claimed 256 64 64 _ s (Nat.le_refl 64) run 1 1 [] d place found
    (by rw [available, size]; decide)
  rw [available, frees, size] at enough
  exact absurd enough (by decide)

end Arax.Core
