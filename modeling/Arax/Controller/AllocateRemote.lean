/-
**Clients that allocate device memory (`src/core/arax_data.c`,
`controller/src/Core/accelThread.cpp`, `controller/src/Cuda/CUDABuiltins.cu`).**

`arax_data_allocate_remote` issues an `alloc_data` task with the data as its output and waits for
it. The worker allocates the outputs of a task, and charges them, before the functor
`alloc_gpu_data` looks at them. When the task is done, the client charges the data once more. What
the client charges belongs to no block, and no free task gives it back.

A call is two steps of the client, before and after it waits. The worker and the other clients are
those of `serveStep`.

* `allocate_remote_ledger` — in every state of every run, what clients have charged is missing.
* `allocate_remote_twice` — one call, with nothing else to do for the worker, takes the size twice.
* `allocate_remote_never` — so it never takes the size once.
-/

import Arax.Controller.GpuThrottle

namespace Arax.Controller

open Arax.Lib

/-- A call of `arax_data_allocate_remote` that waits for its task. -/
structure AllocateCall where
  vac : Nat
  data : Nat
  task : Nat

/-- The accelerator with its worker, and the calls. -/
structure RemoteState where
  serve : ServeState
  /-- The `alloc_data` tasks that are marked done. -/
  marked : Nat → Bool
  /-- The call in which a client is. -/
  calls : Nat → Option AllocateCall
  /-- What the calls have charged. The source does not count this. -/
  lost : Nat

/-- After `arax_accel_init`. -/
def remoteStart (this : Nat) (kind : DeviceKind) (throttle : Throttle) : RemoteState where
  serve := serveStart this kind throttle
  marked := fun _ => false
  calls := fun _ => none
  lost := 0

/-- `arax_accel_size_dec` of a client. `charges` counts what the worker charges. -/
def DataPool.clientCharge (s : DataPool) (vac d : Nat) : Option DataPool :=
  (s.devices.vaqPhys vac).bind fun phys =>
    (s.devices.accelSizeDec phys d).toOption.map fun devices =>
      { s with devices := { devices with charges := s.devices.charges } }

namespace RemoteState

/-- `arax_data_allocate_remote`, up to `arax_task_wait`. -/
def allocate (this : Nat) (s : RemoteState) (client vac d : Nat) : Option RemoteState :=
  let x := s.serve.pool.devices.data d
  if (s.calls client).isSome ∨ x.refCount = 0 then none
  else
    match s.serve.pool.devices.kind this with
    | .cpu => some s
    | .gpu =>
      if x.remote.isSome then if x.accel.isSome then some s else none
      else
        (s.serve.taskIssue vac .allocData [] [d]).map fun serve => { s with
          serve := serve
          calls := Function.update s.calls client (some ⟨vac, d, s.serve.nextTask⟩) }

/-- `arax_data_allocate_remote`, from `arax_task_wait` on. -/
def finish (s : RemoteState) (client : Nat) : Option RemoteState :=
  (s.calls client).bind fun call =>
    if s.marked call.task then
      (s.serve.taskRefDec call.task).bind fun serve =>
        let x := serve.pool.devices.data call.data
        if x.refCount = 0 ∨ x.remote = none ∨ x.accel ≠ some call.vac then none
        else
          (serve.pool.clientCharge call.vac call.data).map fun pool => { s with
            serve := { serve with pool := pool }
            calls := Function.update s.calls client none
            lost := s.lost + x.size }
    else none

/-- What the functor marks done. -/
def marks (s : ServeState) (marked : Nat → Bool) : ServeMove → Nat → Bool
  | .work =>
    match s.worker with
    | .execute task =>
      if (s.tasks task).proc = .allocData then Function.update marked task true else marked
    | _ => marked
  | _ => marked

end RemoteState

/-- Who does something. -/
inductive RemoteMove where
  | serve (move : ServeMove)
  | allocate (client vac data : Nat)
  | finish (client : Nat)

/-- One step. -/
def remoteStep (this : Nat) (s : RemoteState) : RemoteMove → Option RemoteState
  | .serve move => (serveStep this s.serve move).map fun serve => { s with
      serve := serve, marked := RemoteState.marks s.serve s.marked move }
  | .allocate client vac d => s.allocate this client vac d
  | .finish client => s.finish client

/-- What is available. -/
def RemoteState.available (this : Nat) (s : RemoteState) : Nat :=
  (s.serve.pool.devices.throttle this).available

/-! ### The ledger -/

section Ledger

variable {this d vac : Nat} {initial : Throttle} {s t : RemoteState}

/-- The accounts of the worker, without what clients have charged. -/
structure RemoteInv (this : Nat) (initial : Throttle) (s : RemoteState) : Prop where
  serve : ServeInv (GpuInv this ⟨initial.available - s.lost, initial.capacity⟩) s.serve
  lost : s.lost ≤ initial.available

/-- What the client charges is missing. -/
theorem GpuInv.clientCharge {pool next : DataPool} (inv : GpuInv this initial pool)
    (step : pool.clientCharge vac d = some next) :
    (pool.devices.data d).size ≤ (pool.devices.throttle this).available ∧
      (next.devices.throttle this).available + (pool.devices.data d).size =
        (pool.devices.throttle this).available ∧
      next.outputs = pool.outputs ∧ next.devices.data = pool.devices.data ∧
      GpuInv this ⟨initial.available - (pool.devices.data d).size, initial.capacity⟩ next := by
  obtain ⟨phys, home, step⟩ := Option.bind_eq_some_iff.mp step
  cases (inv.vaqs vac).symm.trans home
  obtain ⟨devices, charge, rfl⟩ := Option.map_eq_some_iff.mp step
  have charge := toOption_eq_some.mp charge
  by_cases zero : (pool.devices.data d).size = 0
  · rw [Devices.accelSizeDec_zero zero] at charge
    cases charge
    rw [zero]
    exact ⟨Nat.zero_le _, rfl, rfl, rfl, inv⟩
  · obtain fails | ⟨enough, done⟩ := Devices.accelSizeDec_cases (s := pool.devices) (p := this)
      (Nat.pos_of_ne_zero zero)
    · cases fails.symm.trans charge
    · cases done.symm.trans charge
      have left : (Function.update pool.devices.throttle this { pool.devices.throttle this with
          available := (pool.devices.throttle this).available - (pool.devices.data d).size }
          this) = { pool.devices.throttle this with
          available := (pool.devices.throttle this).available - (pool.devices.data d).size } :=
        Function.update_self _ _ _
      refine ⟨enough, ?_, rfl, rfl, inv.kind, inv.vaqs, ?_, inv.fresh, inv.datum, inv.frees, ?_⟩
      · show (Function.update pool.devices.throttle this _ this).available + _ = _
        rw [left]
        exact Nat.sub_add_cancel enough
      · show (Function.update pool.devices.throttle this _ this).capacity = _
        rw [left]
        exact inv.capacity
      · show Budget _ (Function.update pool.devices.throttle this _ this).available _ _
        rw [left]
        exact inv.budget.spend enough

theorem RemoteInv.allocate {client : Nat} (inv : RemoteInv this initial s)
    (step : s.allocate this client vac d = some t) : RemoteInv this initial t := by
  unfold RemoteState.allocate at step
  simp only [inv.serve.pool.kind] at step
  split_ifs at step
  · cases step
    exact inv
  · obtain ⟨serve, issued, rfl⟩ := Option.map_eq_some_iff.mp step
    exact ⟨inv.serve.taskIssue (gpu_keeps this _) issued, inv.lost⟩

/-- The second half of a call. -/
theorem finish_cases {client : Nat} (step : s.finish client = some t) :
    ∃ call serve pool, s.calls client = some call ∧ s.marked call.task = true ∧
      s.serve.taskRefDec call.task = some serve ∧
      ((serve.pool.devices.data call.data).refCount ≠ 0 ∧
        (serve.pool.devices.data call.data).remote ≠ none ∧
        (serve.pool.devices.data call.data).accel = some call.vac) ∧
      serve.pool.clientCharge call.vac call.data = some pool ∧
      t = { s with
        serve := { serve with pool := pool }
        calls := Function.update s.calls client none
        lost := s.lost + (serve.pool.devices.data call.data).size } := by
  obtain ⟨call, here, step⟩ := Option.bind_eq_some_iff.mp step
  split_ifs at step with marked
  obtain ⟨serve, dropped, step⟩ := Option.bind_eq_some_iff.mp step
  simp only at step
  split_ifs at step with fails
  obtain ⟨pool, charged, rfl⟩ := Option.map_eq_some_iff.mp step
  obtain ⟨live, fails⟩ := not_or.mp fails
  obtain ⟨remote, accel⟩ := not_or.mp fails
  exact ⟨call, serve, pool, here, marked, dropped, ⟨live, remote, not_not.mp accel⟩, charged, rfl⟩

theorem RemoteInv.finish {client : Nat} (inv : RemoteInv this initial s)
    (step : s.finish client = some t) : RemoteInv this initial t := by
  obtain ⟨call, serve, pool, -, -, dropped, -, charged, rfl⟩ := finish_cases step
  have kept := inv.serve.taskRefDec (gpu_keeps this _) dropped
  obtain ⟨enough, -, outputs, -, paid⟩ := kept.pool.clientCharge charged
  have ledger := kept.pool.budget.ledger
  have bound := inv.lost
  refine ⟨?_, ?_⟩
  · have total : initial.available - (s.lost + (serve.pool.devices.data call.data).size) =
        initial.available - s.lost - (serve.pool.devices.data call.data).size :=
      Nat.sub_add_eq _ _ _
    show ServeInv (GpuInv this ⟨initial.available - (s.lost + _), initial.capacity⟩) _
    rw [total]
    have moved : ServeInv (fun _ => True) serve := ⟨trivial, kept.queued, kept.place⟩
    have next : ServeInv _ { serve with pool := pool } := moved.setPool trivial outputs
    exact ⟨paid, next.queued, next.place⟩
  · show s.lost + _ ≤ initial.available
    change _ + _ = initial.available - s.lost at ledger
    omega

/-- **Every step keeps the accounts.** -/
theorem remoteStep_inv {move : RemoteMove} (inv : RemoteInv this initial s)
    (step : remoteStep this s move = some t) : RemoteInv this initial t := by
  cases move with
  | serve move =>
    obtain ⟨serve, moved, rfl⟩ := Option.map_eq_some_iff.mp step
    exact ⟨serveStep_inv (gpu_keeps this _) inv.serve moved, inv.lost⟩
  | allocate client vac d => exact inv.allocate step
  | finish client => exact inv.finish step

theorem remoteStart_inv : RemoteInv this initial (remoteStart this .gpu initial) :=
  ⟨⟨gpu_start this initial, fun _ _ => nofun, trivial⟩, Nat.zero_le _⟩

theorem remote_inv {moves : List RemoteMove}
    (run : exec (remoteStep this) (remoteStart this .gpu initial) moves = some s) :
    RemoteInv this initial s :=
  exec_invariant (fun _ _ _ => remoteStep_inv) remoteStart_inv run

/-- **The ledger.** In every state of every run, what is available, what is allocated and what
clients have charged are what was available at first. When all data are freed and there are no free
tasks, what clients have charged is still missing. -/
theorem allocate_remote_ledger {moves : List RemoteMove}
    (run : exec (remoteStep this) (remoteStart this .gpu initial) moves = some s) :
    s.available this + (s.serve.pool.liveBytes + s.serve.pool.queuedBytes) + s.lost =
        initial.available ∧
      ((∀ d, (s.serve.pool.devices.data d).refCount = 0) → s.serve.pool.frees = [] →
        s.available this + s.lost = initial.available) := by
  have inv := remote_inv run
  have bound := inv.lost
  have ledger := inv.serve.pool.budget.ledger
  rw [blockBytes_blocks] at ledger
  refine ⟨?_, fun dead none_ => ?_⟩
  · unfold RemoteState.available
    change _ + _ = initial.available - s.lost at ledger
    omega
  · have back := inv.serve.pool.available_of_dead dead none_
    unfold RemoteState.available
    change _ = initial.available - s.lost at back
    omega

end Ledger

/-! ### One call -/

/-- A move of the worker. -/
def ServeMove.IsWorker : ServeMove → Prop
  | .selectTask _ | .selectFree | .work => True
  | _ => False

/-- The worker has nothing to do. -/
structure Quiet (s : ServeState) : Prop where
  queue : ∀ vac, s.queue vac = []
  frees : s.pool.frees = []
  worker : s.worker = .select

section Call

variable {this vac d n size total : Nat} {s t : ServeState}

/-- The data has no device memory yet, or it has, and its size was charged. -/
def AllocData (this d size total : Nat) (allocated : Bool) (s : ServeState) : Prop :=
  (s.pool.devices.data d).remote.isSome = allocated ∧
    (s.pool.devices.throttle this).available + (if allocated then size else 0) = total

/-- The references to the task, what is queued, and whether the data is allocated, where the worker
is. -/
def ServingAt (this vac d n size total : Nat) (s : ServeState) : ServePlace → Prop
  | .select => (s.tasks n).refCount = 1 ∧
      ((s.queue = Function.update (fun _ => []) vac [n] ∧ AllocData this d size total false s) ∨
        (s.queue = (fun _ => []) ∧ AllocData this d size total true s))
  | .alloc task outs => task = n ∧ (s.tasks n).refCount = 2 ∧ s.queue = (fun _ => []) ∧
      ((outs = [d] ∧ AllocData this d size total false s) ∨
        (outs = [] ∧ AllocData this d size total true s))
  | .execute task | .drop task => task = n ∧ (s.tasks n).refCount = 2 ∧
      s.queue = (fun _ => []) ∧ AllocData this d size total true s

/-- The worker serves the task `n`, which allocates the data `d`, and nothing else. -/
structure Serving (this vac d n size total : Nat) (s : ServeState) : Prop where
  kind : s.pool.devices.kind this = .gpu
  vaqs : ∀ vac, s.pool.devices.vaqPhys vac = some this
  frees : s.pool.frees = []
  proc : (s.tasks n).proc = .allocData
  ins : (s.tasks n).ins = []
  outs : (s.tasks n).outs = [d]
  sized : (s.pool.devices.data d).size = size
  /-- The client and the task have a reference. -/
  refs : 1 < (s.pool.devices.data d).refCount
  place : ServingAt this vac d n size total s s.worker

/-- The references to the task change, and the worker is elsewhere. -/
theorem Serving.setRefs {refs : Nat} {queue : Nat → List Nat} {worker : ServePlace}
    (serving : Serving this vac d n size total s)
    (place : ServingAt this vac d n size total
      { s.setRefs n refs with queue := queue, worker := worker } worker) :
    Serving this vac d n size total { s.setRefs n refs with queue := queue, worker := worker } := by
  refine ⟨serving.kind, serving.vaqs, serving.frees, ?_, ?_, ?_, serving.sized, serving.refs, place⟩
  · show ((s.setRefs n refs).tasks n).proc = _
    rw [setRefs_self]
    exact serving.proc
  · show ((s.setRefs n refs).tasks n).ins = _
    rw [setRefs_self]
    exact serving.ins
  · show ((s.setRefs n refs).tasks n).outs = _
    rw [setRefs_self]
    exact serving.outs

/-- The output of the task is allocated. -/
theorem Serving.allocOutput {pool : DataPool} (serving : Serving this vac d n size total s)
    (sized : 0 < size) (before : AllocData this d size total false s)
    (step : s.pool.allocOutput this d = some pool) :
    pool.frees = s.pool.frees ∧ pool.devices.kind this = .gpu ∧
      (∀ vac, pool.devices.vaqPhys vac = some this) ∧ (pool.devices.data d).size = size ∧
      (pool.devices.data d).refCount = (s.pool.devices.data d).refCount ∧
      AllocData this d size total true { s with pool := pool } := by
  obtain ⟨remote, total_⟩ := before
  unfold DataPool.allocOutput at step
  split_ifs at step
  obtain ⟨devices, run, rfl⟩ := Option.map_eq_some_iff.mp step
  have size_ := serving.sized
  obtain ⟨has, -⟩ | ⟨-, zero, -⟩ | ⟨-, -, enough, rfl⟩ :=
    allocRemote_gpu_cases serving.kind serving.vaqs (toOption_eq_some.mp run)
  · rw [remote] at has
    cases has
  · omega
  · have here : (s.pool.devices.allocated this d).data d = _ := Devices.allocated_self
    have left : ((s.pool.devices.allocated this d).throttle this).available =
        (s.pool.devices.throttle this).available - (s.pool.devices.data d).size := by
      show (Function.update s.pool.devices.throttle this _ this).available = _
      rw [Function.update_self]
    refine ⟨rfl, serving.kind, serving.vaqs, ?_, ?_, ?_, ?_⟩
    · show ((s.pool.devices.allocated this d).data d).size = _
      rw [here]
      exact size_
    · show ((s.pool.devices.allocated this d).data d).refCount = _
      rw [here]
    · show ((s.pool.devices.allocated this d).data d).remote.isSome = true
      rw [here]
      rfl
    · show ((s.pool.devices.allocated this d).throttle this).available + size = total
      change (s.pool.devices.throttle this).available + 0 = total at total_
      omega

/-- **One move of the worker.** -/
theorem Serving.step {move : ServeMove} (serving : Serving this vac d n size total s)
    (sized : 0 < size) (worker : move.IsWorker) (step : serveStep this s move = some t) :
    Serving this vac d n size total t := by
  have here := serving.place
  cases move with
  | selectTask other =>
    simp only [serveStep, ServeState.selectTask] at step
    split at step
    · next task rest place queue =>
      rw [place] at here
      obtain ⟨refs, ⟨queued, before⟩ | ⟨queued, -⟩⟩ := here
      · rw [queued] at queue
        by_cases same : other = vac
        · rw [same, Function.update_self] at queue
          cases queue
          simp only [refs, Nat.one_ne_zero, if_false] at step
          cases step
          refine serving.setRefs ⟨rfl, congrArg ServedTask.refCount (setRefs_self _), ?_,
            .inl ⟨serving.outs, before⟩⟩
          rw [queued, same, Function.update_idem]
          exact Function.update_eq_self vac _
        · rw [Function.update_of_ne same] at queue
          cases queue
      · rw [queued] at queue
        cases queue
    · cases step
  | selectFree =>
    simp only [serveStep, ServeState.selectFree, serving.frees] at step
    split at step
    · next frees => cases frees
    · cases step
  | work =>
    simp only [serveStep] at step
    cases place : s.worker with
    | select =>
      rw [place] at step
      cases step
    | alloc task outs =>
      rw [place] at step here
      obtain ⟨rfl, refs, queue, ⟨rfl, before⟩ | ⟨rfl, after⟩⟩ := here
      · obtain ⟨pool, alloc, rfl⟩ := Option.map_eq_some_iff.mp step
        obtain ⟨frees, kind, vaqs, size_, live, after⟩ := serving.allocOutput sized before alloc
        exact ⟨kind, vaqs, frees.trans serving.frees, serving.proc, serving.ins, serving.outs,
          size_, live ▸ serving.refs, rfl, refs, queue, .inr ⟨rfl, after⟩⟩
      · cases step
        exact { serving with place := ⟨rfl, refs, queue, after⟩ }
    | execute task =>
      rw [place] at step here
      obtain ⟨rfl, refs, queue, after⟩ := here
      have run : s.pool.functor this (s.tasks task) = some s.pool := by
        simp only [DataPool.functor, serving.kind, DataPool.gpuFunctor, serving.proc, serving.ins,
          serving.outs, DataPool.allocGpuData, after.1, if_true]
      simp only [ServeState.work, run, Option.bind_some, serving.proc, functorFrees,
        Bool.false_eq_true, if_false] at step
      split_ifs at step
      cases step
      exact { serving with place := ⟨rfl, refs, queue, after⟩ }
    | drop task =>
      rw [place] at step here
      obtain ⟨rfl, refs, queue, after⟩ := here
      obtain ⟨-, rfl⟩ | ⟨last, -⟩ := taskRefDec_cases step
      · rw [refs]
        exact serving.setRefs ⟨congrArg ServedTask.refCount (setRefs_self _), .inr ⟨queue, after⟩⟩
      · cases refs.symm.trans last
  | _ => exact worker.elim

/-- The call has issued its task. -/
theorem Serving.start (quiet : Quiet s) (kind : s.pool.devices.kind this = .gpu)
    (vaqs : ∀ vac, s.pool.devices.vaqPhys vac = some this)
    (remote : (s.pool.devices.data d).remote = none)
    (step : s.taskIssue vac .allocData [] [d] = some t) :
    Serving this vac d s.nextTask (s.pool.devices.data d).size
      (s.pool.devices.throttle this).available t := by
  obtain ⟨pool, taken, rfl⟩ := Option.map_eq_some_iff.mp step
  obtain ⟨r, taken, last⟩ := exec_cons ((foldlM_eq_exec _ _).symm.trans taken)
  cases last
  obtain ⟨live, accel, rfl⟩ := ioInit_cases taken
  have self : Function.update s.tasks s.nextTask ⟨.allocData, [], [d], 1⟩ s.nextTask =
      ⟨.allocData, [], [d], 1⟩ := Function.update_self _ _ _
  have here : (s.pool.setData d { s.pool.devices.data d with
      refCount := (s.pool.devices.data d).refCount + 1, accel := accel }).devices.data d =
      { s.pool.devices.data d with
        refCount := (s.pool.devices.data d).refCount + 1, accel := accel } :=
    Devices.setData_self _
  refine ⟨kind, vaqs, quiet.frees, congrArg ServedTask.proc self, congrArg ServedTask.ins self,
    congrArg ServedTask.outs self, ?_, ?_, ?_⟩
  · rw [here]
  · rw [here]
    exact Nat.succ_lt_succ (Nat.pos_of_ne_zero live)
  · show ServingAt this vac d s.nextTask _ _ _ s.worker
    rw [quiet.worker]
    refine ⟨congrArg ServedTask.refCount self, .inl ⟨?_, ?_, rfl⟩⟩
    · show Function.update s.queue vac (s.queue vac ++ [s.nextTask]) = _
      rw [funext quiet.queue, List.nil_append]
    · rw [here, remote]
      rfl

/-- Wherever the worker is, the data is allocated or it is not. -/
theorem Serving.account (serving : Serving this vac d n size total s) :
    ∃ allocated, AllocData this d size total allocated s := by
  have here := serving.place
  cases place : s.worker with
  | select =>
    rw [place] at here
    obtain ⟨-, ⟨-, before⟩ | ⟨-, after⟩⟩ := here
    · exact ⟨false, before⟩
    · exact ⟨true, after⟩
  | alloc task outs =>
    rw [place] at here
    obtain ⟨-, -, -, ⟨-, before⟩ | ⟨-, after⟩⟩ := here
    · exact ⟨false, before⟩
    · exact ⟨true, after⟩
  | execute task | drop task =>
    rw [place] at here
    exact ⟨true, here.2.2.2⟩

/-- The client has freed its task, and the data is allocated: it was charged. -/
theorem Serving.taskFree (serving : Serving this vac d n size total s)
    (step : s.taskRefDec n = some t) (remote : (t.pool.devices.data d).remote ≠ none) :
    (t.pool.devices.data d).size = size ∧
      (t.pool.devices.throttle this).available + size = total := by
  obtain ⟨allocated, account⟩ := serving.account
  have same : (t.pool.devices.data d).size = size ∧
      (t.pool.devices.data d).remote = (s.pool.devices.data d).remote ∧
      t.pool.devices.throttle = s.pool.devices.throttle := by
    obtain ⟨-, rfl⟩ | ⟨-, pool, dropped, rfl⟩ := taskRefDec_cases step
    · exact ⟨serving.sized, rfl, rfl⟩
    · rw [ServedTask.io, serving.ins, serving.outs, foldlM_eq_exec] at dropped
      obtain ⟨r, dropped, last⟩ := exec_cons dropped
      cases last
      have shared := serving.refs
      obtain ⟨-, rfl⟩ | ⟨last, -⟩ | ⟨_, _, last, -⟩ := refDec_cases dropped
      · have here := Devices.setData_self (s := s.pool.devices) (d := d)
          { s.pool.devices.data d with refCount := (s.pool.devices.data d).refCount - 1 }
        have sized := congrArg AraxData.size here
        have remote := congrArg AraxData.remote here
        exact ⟨sized.trans serving.sized, remote, rfl⟩
      · omega
      · omega
  obtain ⟨sized, unmoved, unpaid⟩ := same
  obtain ⟨has, paid⟩ := account
  cases allocated with
  | false =>
    rw [unmoved] at remote
    exact absurd has (by simpa using remote)
  | true =>
    rw [unpaid]
    exact ⟨sized, paid⟩

end Call

section Never

variable {this client vac d n size total : Nat} {initial : Throttle} {s t : RemoteState}

/-- The worker serves the call. -/
theorem Serving.run {served : List ServeMove} (serving : Serving this vac d n size total s.serve)
    (sized : 0 < size) (workers : ∀ move ∈ served, move.IsWorker)
    (run : exec (remoteStep this) s (served.map .serve) = some t) :
    Serving this vac d n size total t.serve ∧ t.calls = s.calls := by
  induction served generalizing s with
  | nil =>
    cases run
    exact ⟨serving, rfl⟩
  | cons move rest ih =>
    obtain ⟨u, step, later⟩ := exec_cons run
    obtain ⟨serve, moved, rfl⟩ := Option.map_eq_some_iff.mp step
    have next := serving.step sized (workers move List.mem_cons_self) moved
    exact ih (s := { s with serve := serve, marked := _ }) next
      (fun other member => workers other (List.mem_cons_of_mem _ member)) later

/-- `arax_data_allocate_remote` returns in `t`, and only the worker does anything meanwhile. -/
def AllocatesRemote (this : Nat) (s : RemoteState) (client vac d : Nat) (t : RemoteState) : Prop :=
  ∃ served : List ServeMove, (∀ move ∈ served, move.IsWorker) ∧
    exec (remoteStep this) s (.allocate client vac d :: served.map .serve ++ [.finish client]) =
      some t

/-- The first half of a call, for data without device memory. -/
theorem allocate_cases (kind : s.serve.pool.devices.kind this = .gpu)
    (remote : (s.serve.pool.devices.data d).remote = none)
    (step : remoteStep this s (.allocate client vac d) = some t) :
    ∃ serve, s.serve.taskIssue vac .allocData [] [d] = some serve ∧ t = { s with
      serve := serve
      calls := Function.update s.calls client (some ⟨vac, d, s.serve.nextTask⟩) } := by
  simp only [remoteStep, RemoteState.allocate, kind, remote, Option.isSome_none,
    Bool.false_eq_true, if_false] at step
  split_ifs at step
  obtain ⟨serve, issued, rfl⟩ := Option.map_eq_some_iff.mp step
  exact ⟨serve, issued, rfl⟩

/-- A call does nothing for data with device memory. -/
theorem allocate_again {home : Nat} (kind : s.serve.pool.devices.kind this = .gpu)
    (idle : s.calls client = none) (live : (s.serve.pool.devices.data d).refCount ≠ 0)
    (remote : (s.serve.pool.devices.data d).remote ≠ none)
    (accel : (s.serve.pool.devices.data d).accel = some home) :
    remoteStep this s (.allocate client vac d) = some s := by
  simp only [remoteStep, RemoteState.allocate, kind, idle, live, Option.isSome_none,
    Bool.false_eq_true, or_self, if_false, Option.isSome_iff_ne_none.mpr remote, accel,
    Option.isSome_some, if_true]

/-- **One call takes the size twice**, and another one does nothing. -/
theorem allocate_remote_twice {moves : List RemoteMove}
    (run : exec (remoteStep this) (remoteStart this .gpu initial) moves = some s)
    (quiet : Quiet s.serve) (remote : (s.serve.pool.devices.data d).remote = none)
    (sized : 0 < (s.serve.pool.devices.data d).size)
    (call : AllocatesRemote this s client vac d t) :
    t.available this + 2 * (s.serve.pool.devices.data d).size = s.available this ∧
      remoteStep this t (.allocate client vac d) = some t := by
  have inv := remote_inv run
  obtain ⟨served, workers, call⟩ := call
  obtain ⟨u, issue, call⟩ := exec_cons call
  rw [List.append_eq, exec_append] at call
  obtain ⟨v, served, call⟩ := Option.bind_eq_some_iff.mp call
  obtain ⟨_, finish, last⟩ := exec_cons call
  cases last
  have invV := exec_invariant (fun _ _ _ => remoteStep_inv) (remoteStep_inv inv issue) served
  obtain ⟨serve, issued, rfl⟩ := allocate_cases inv.serve.pool.kind remote issue
  have start := Serving.start quiet inv.serve.pool.kind inv.serve.pool.vaqs remote issued
  obtain ⟨serving, calls⟩ := start.run (s := { s with serve := serve, calls := _ }) sized workers
    served
  obtain ⟨call, free, pool, here, -, freed, ⟨live, has, home⟩, charged, rfl⟩ := finish_cases finish
  rw [calls] at here
  cases (Function.update_self _ _ _).symm.trans here
  -- the worker has charged the data, and now the client does
  obtain ⟨size, worker⟩ := serving.taskFree freed has
  have kept := invV.serve.taskRefDec (gpu_keeps this _) freed
  obtain ⟨-, client_, -, data, paid⟩ := kept.pool.clientCharge charged
  refine ⟨?_, ?_⟩
  · change _ + (free.pool.devices.data d).size = _ at client_
    show (pool.devices.throttle this).available + _ = (s.serve.pool.devices.throttle this).available
    omega
  · rw [← data] at live has home
    exact allocate_again paid.kind (Function.update_self _ _ _) live has home

/-- `arax_data_allocate_remote` charges once: the size is taken, another call does nothing, and when
the data is freed, with its free task, everything is back. -/
def ChargesOnce (this : Nat) (s : RemoteState) (client vac d : Nat) (t : RemoteState) : Prop :=
  t.available this + (s.serve.pool.devices.data d).size = s.available this ∧
    remoteStep this t (.allocate client vac d) = some t ∧
    ∀ (served : List ServeMove) (u : RemoteState), (∀ move ∈ served, move.IsWorker) →
      exec (remoteStep this) t (.serve (.dataFree d) :: served.map .serve) = some u →
      (u.serve.pool.devices.data d).refCount = 0 → u.serve.pool.frees = [] →
      u.available this = s.available this

/-- **It never charges once**: the worker charges the output of the task, and the client charges it
again. -/
theorem allocate_remote_never {moves : List RemoteMove}
    (run : exec (remoteStep this) (remoteStart this .gpu initial) moves = some s)
    (quiet : Quiet s.serve) (remote : (s.serve.pool.devices.data d).remote = none)
    (sized : 0 < (s.serve.pool.devices.data d).size)
    (call : AllocatesRemote this s client vac d t) : ¬ ChargesOnce this s client vac d t := by
  rintro ⟨once, -⟩
  obtain ⟨twice, -⟩ := allocate_remote_twice run quiet remote sized call
  omega

/-- One data of 16 bytes, with 64 bytes available. -/
def oneData : RemoteState :=
  { remoteStart 0 .gpu ⟨64, 64⟩ with
    serve := { serveStart 0 .gpu ⟨64, 64⟩ with
      pool := (serveStart 0 .gpu ⟨64, 64⟩).pool.dataInit 16 } }

/-- What the worker does for the call. -/
def serveOne : List ServeMove := [.selectTask 1, .work, .work, .work, .work]

/-- A client allocates the data: 32 of 64 bytes are left. -/
theorem oneData_allocated :
    ∃ t, AllocatesRemote 0 oneData 5 1 0 t ∧ t.available 0 = 32 := by
  have view : (exec (remoteStep 0) oneData
      (.allocate 5 1 0 :: serveOne.map .serve ++ [.finish 5])).map (fun t => t.available 0) =
      some 32 := by
    decide
  obtain ⟨t, run, left⟩ := Option.map_eq_some_iff.mp view
  exact ⟨t, ⟨serveOne, by simp [serveOne, ServeMove.IsWorker], run⟩, left⟩

/-- The client has charged the data once more than it should. -/
theorem allocate_remote_never_at_oneData :
    ∃ t, AllocatesRemote 0 oneData 5 1 0 t ∧ ¬ ChargesOnce 0 oneData 5 1 0 t := by
  obtain ⟨t, call, -⟩ := oneData_allocated
  have run : exec (remoteStep 0) (remoteStart 0 .gpu ⟨64, 64⟩) [.serve (.dataInit 16)] =
      some oneData := rfl
  exact ⟨t, call, allocate_remote_never run ⟨fun _ => rfl, rfl, rfl⟩ rfl (by decide) call⟩

/-- Memory of 16 bytes takes 32 of those that are available. -/
theorem oneData_charged_twice :
    ¬ ∀ (s t : RemoteState) (client vac d : Nat) (moves : List RemoteMove),
      exec (remoteStep 0) (remoteStart 0 .gpu ⟨64, 64⟩) moves = some s → Quiet s.serve →
      (s.serve.pool.devices.data d).remote = none → 0 < (s.serve.pool.devices.data d).size →
      AllocatesRemote 0 s client vac d t → ChargesOnce 0 s client vac d t := by
  intro claim
  obtain ⟨t, call, left⟩ := oneData_allocated
  obtain ⟨once, -⟩ := claim oneData t 5 1 0 [.serve (.dataInit 16)] rfl ⟨fun _ => rfl, rfl, rfl⟩ rfl
    (by decide) call
  rw [left] at once
  exact absurd once (by decide)

end Never

end Arax.Controller
