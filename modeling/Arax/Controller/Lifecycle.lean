/-
**The threads of the controller, from their start to their end
(`controller/src/Core/arax_controller.cpp`, `controller/src/Core/accelThread.cpp`,
`src/core/arax_accel.c`).**

`main` constructs a thread for every accelerator, waits until all of them are ready, and serves
until it is interrupted. Then it terminates them, one after the other, and joins them. A thread
waits for tasks in `arax_accel_wait_for_task`, so `accelThread::terminate` adds one that is not
there; and a thread without jobs waits for `enable_mtx`, so it enables the thread.

All threads make one access at a time. Besides `main` and the thread itself, any number of clients
and the balancer call the functions that take the lock of an accelerator (`Arax.Async.Condition`).
What a thread does with a task may wait for device memory, or for anything that its functor waits
for, and need not return: that it begins is one move, and that it returns is another one. The
accesses to an accelerator in between are those of somebody else here. The same two moves stand for
what a scheduler does in `selectTask` when it migrates a task or gives a VAQ back. Checkpoints,
statistics, what is printed, and the release of a device at the end of its thread are left out.

* `workFunc`, `startTask`, `endTask`, `terminateNext`, `mainNext` — the threads and `main`.
* `ThreadInv`, `controller_keeps` — what is known of a thread while `main` terminates it.
* `AccelThread.left`, `MainPlace.left` — how many moves a thread and `main` still make.
* `shutdown_ends` — once the controller is interrupted, `main` makes few more moves, and nobody is
  stuck, unless a thread serves a task that does not return.
* `terminated_thread_ends` — a thread that was terminated makes few more moves.
* `noJob_serves_once` — a thread that is configured without jobs looks for a task once.
-/

import Arax.Async.Condition
import Arax.Controller.ConfigFile

namespace Arax.Controller.Lifecycle

open Arax.Lib Arax.Async
open Arax.Controller.ConfigFile (JobPreference)

/-! ### Accelerators -/

/-- The calls that take the lock of an accelerator. The last but one and the one before it come with
the queue size that they read. -/
inductive AccelOp where
  /-- `arax_accel_wait_for_task`. -/
  | waitForTask
  /-- `arax_accel_add_task`. -/
  | addTask
  /-- `arax_accel_add_vaccel`. -/
  | addVaccel (tasks : Nat)
  /-- `arax_accel_del_vaccel`. -/
  | delVaccel (tasks : Nat)
  /-- `arax_accel_get_assigned_vaccels`. -/
  | getAssignedVaccels
  deriving DecidableEq

/-- What these calls do to `accel->tasks`. -/
def accelMonitor : Monitor (BitVec 64) AccelOp where
  ready
    | .waitForTask, tasks => tasks != 0
    | _, _ => true
  apply
    | .waitForTask, accelTasks => accelTasks - 1
    | .addTask, accelTasks => accelTasks + 1
    | .addVaccel tasks, accelTasks =>
      if tasks ≠ 0 then accelTasks + BitVec.ofNat 64 tasks else accelTasks
    | .delVaccel tasks, accelTasks =>
      if tasks ≠ 0 then accelTasks - BitVec.ofNat 64 (tasks - 1) else accelTasks
    | .getAssignedVaccels, accelTasks => accelTasks
  notifies
    | .addTask, _ => true
    | .addVaccel tasks, _ | .delVaccel tasks, _ => tasks != 0
    | .waitForTask, _ | .getAssignedVaccels, _ => false

/-- Who calls them. -/
inductive Caller where
  | worker
  | main
  | other (n : Nat)
  deriving DecidableEq

/-! ### Threads -/

/-- Where a thread is in `workFunc`. -/
inductive WorkerPlace where
  /-- Before the end of its initialisation. -/
  | starting
  /-- At `while (!th->stopExec)`. -/
  | head
  /-- At the test of `job_preference`. -/
  | gate
  /-- At `pthread_mutex_lock(&(th->enable_mtx))`. -/
  | gateLock
  /-- At `updateVirtAccels`. -/
  | update
  /-- In `arax_accel_wait_for_task`. -/
  | waiting
  /-- Behind it. -/
  | snapshot
  /-- In `arax_accel_get_assigned_vaccels`. -/
  | assigned
  /-- At `selectTask`. -/
  | select
  /-- In `alloc_remote`, `executeOperation` or `arax_object_ref_dec` of a task, or in what `selectTask`
  does with one before. -/
  | serving
  | exited
  deriving DecidableEq

/-- `accelThread`, with its accelerator. -/
structure AccelThread where
  place : WorkerPlace
  readyToServe : Bool
  stopExec : Bool
  jobPreference : JobPreference
  /-- `enable_mtx` is locked. -/
  enableMtx : Bool
  cond : CondState Caller (BitVec 64) AccelOp
  /-- How often it has looked for a task. -/
  rounds : Nat

/-- `accelThread::accelThread`. -/
def AccelThread.new (preference : JobPreference) : AccelThread where
  place := .starting
  readyToServe := false
  stopExec := false
  jobPreference := preference
  enableMtx := false
  cond := asyncConditionInit 0
  rounds := 0

/-- An access to the accelerator. -/
def AccelThread.access (arch : CondArch) (th : AccelThread) (caller : Caller)
    (move : MonitorMove AccelOp) : Option AccelThread :=
  (condStep arch accelMonitor th.cond (caller, move)).map fun cond => { th with cond := cond }

/-- The next access of a thread. At `selectTask` it finds nothing; `startTask` is when it does. -/
def workFunc (arch : CondArch) (th : AccelThread) : Option AccelThread :=
  match th.place with
  | .starting | .serving | .exited => none
  | .head => some { th with place := if th.stopExec then .exited else .gate }
  | .gate => some { th with place := if th.jobPreference = .noJob then .gateLock else .update }
  | .gateLock => if th.enableMtx then none else some { th with place := .update, enableMtx := true }
  | .update => { th with place := .waiting }.access arch .worker (.call .waitForTask)
  | .waiting =>
    if th.cond.places .worker = .out then some { th with place := .snapshot }
    else th.access arch .worker .next
  | .snapshot => { th with place := .assigned }.access arch .worker (.call .getAssignedVaccels)
  | .assigned =>
    if th.cond.places .worker = .out then some { th with place := .select }
    else th.access arch .worker .next
  | .select => some { th with place := .head, rounds := th.rounds + 1 }

/-- `selectTask` finds a task, and the thread serves it, or a VAQ that it gives back. -/
def startTask (th : AccelThread) : Option AccelThread :=
  if th.place = .select then some { th with place := .serving, rounds := th.rounds + 1 } else none

/-- The thread is done with it. -/
def endTask (th : AccelThread) : Option AccelThread :=
  if th.place = .serving then some { th with place := .head } else none

/-- Where `main` is in `accelThread::terminate`. -/
inductive TerminatePlace where
  /-- At `stopExec = 1`. -/
  | stop
  /-- At `arax_accel_add_task`. -/
  | add
  | adding
  /-- At `accelConf.job_preference = jpref`. -/
  | prefer
  /-- At `enable`. -/
  | enable
  deriving DecidableEq

/-- The next access of `accelThread::terminate`, and where it goes on. -/
def terminateNext (arch : CondArch) (th : AccelThread) :
    TerminatePlace → Option (AccelThread × Option TerminatePlace)
  | .stop => some ({ th with stopExec := true }, some .add)
  | .add => (th.access arch .main (.call .addTask)).map fun th => (th, some .adding)
  | .adding =>
    if th.cond.places .main = .out then some (th, some .prefer)
    else (th.access arch .main .next).map fun th => (th, some .adding)
  | .prefer => some ({ th with jobPreference := .anyJob }, some .enable)
  | .enable => some ({ th with enableMtx := false }, none)

/-! ### The controller -/

section System

variable {ι : Type*}

/-- Where `main` is. -/
inductive MainPlace (ι : Type*) where
  /-- In `spawnThreads`, waiting for threads. -/
  | spawning (rest : List ι)
  | serving
  /-- In the first loop of `deleteThreads`. -/
  | terminating (accel : ι) (rest : List ι) (place : TerminatePlace)
  /-- In the second loop of `deleteThreads`. -/
  | joining (rest : List ι)
  | finished
  deriving DecidableEq

/-- The controller, with the vector of its accelerators. -/
structure System (ι : Type*) where
  accels : List ι
  threads : ι → AccelThread
  main : MainPlace ι

/-- `spawnThreads`, when the threads are constructed. -/
def spawnThreads (accels : List ι) (preference : ι → JobPreference) : System ι where
  accels := accels
  threads := fun accel => .new (preference accel)
  main := .spawning accels

/-- What happens next. -/
inductive Move (ι : Type*) where
  /-- `main` sees `shouldExit`. -/
  | interrupt
  | main
  /-- The initialisation of a thread ends. -/
  | start (accel : ι) (ok : Bool)
  | worker (accel : ι)
  | startTask (accel : ι)
  | endTask (accel : ι)
  /-- A thread wakes up without a notification. -/
  | spurious (accel : ι)
  | other (accel : ι) (n : Nat) (move : MonitorMove AccelOp)

/-- The loop over the accelerators. -/
def terminateFrom (accels : List ι) : List ι → MainPlace ι
  | [] => .joining accels
  | accel :: rest => .terminating accel rest .stop

/-- Where `main` goes on after an access of `accelThread::terminate`. -/
def goOn (accels : List ι) (accel : ι) (rest : List ι) : Option TerminatePlace → MainPlace ι
  | some place => .terminating accel rest place
  | none => terminateFrom accels rest

variable [DecidableEq ι]

/-- The thread of `accel` is now `th`. -/
def System.set (s : System ι) (accel : ι) (th : AccelThread) : System ι :=
  { s with threads := Function.update s.threads accel th }

/-- The next access of `main`. -/
def mainNext (arch : CondArch) (s : System ι) : MainPlace ι → Option (System ι)
  | .spawning [] => some { s with main := .serving }
  | .spawning (accel :: rest) =>
    if (s.threads accel).readyToServe then some { s with main := .spawning rest } else none
  | .serving | .finished => none
  | .terminating accel rest place =>
    (terminateNext arch (s.threads accel) place).map fun next =>
      { s.set accel next.1 with main := goOn s.accels accel rest next.2 }
  | .joining [] => some { s with main := .finished }
  | .joining (accel :: rest) =>
    if (s.threads accel).place = .exited then some { s with main := .joining rest } else none

/-- One move. Only the thread of an accelerator calls `arax_accel_wait_for_task`. -/
def controllerStep (arch : CondArch) (s : System ι) : Move ι → Option (System ι)
  | .interrupt =>
    match s.main with
    | .serving => some { s with main := terminateFrom s.accels s.accels }
    | _ => none
  | .main => mainNext arch s s.main
  | .start accel ok =>
    let th := s.threads accel
    if th.place = .starting then
      some (s.set accel { th with place := if ok then .head else .exited, readyToServe := ok })
    else none
  | .worker accel => (workFunc arch (s.threads accel)).map (s.set accel)
  | .startTask accel => (startTask (s.threads accel)).map (s.set accel)
  | .endTask accel => (endTask (s.threads accel)).map (s.set accel)
  | .spurious accel => ((s.threads accel).access arch .worker .spurious).map (s.set accel)
  | .other accel n move =>
    if (s.threads accel).place = .starting ∨ move = .call .waitForTask then none
    else ((s.threads accel).access arch (.other n) move).map (s.set accel)

/-- A change of `accel->tasks` that does not wrap: the tasks of a VAQ that is removed were
counted. -/
def Counted (accelTasks : BitVec 64) : AccelOp → Prop
  | .addTask => accelTasks.toNat + 1 < 2 ^ 64
  | .addVaccel tasks => accelTasks.toNat + tasks < 2 ^ 64
  | .delVaccel tasks => tasks ≤ accelTasks.toNat
  | .waitForTask | .getAssignedVaccels => True

instance (accelTasks : BitVec 64) : ∀ op, Decidable (Counted accelTasks op)
  | .addTask => inferInstanceAs (Decidable (_ < _))
  | .addVaccel _ => inferInstanceAs (Decidable (_ < _))
  | .delVaccel _ => inferInstanceAs (Decidable (_ ≤ _))
  | .waitForTask | .getAssignedVaccels => isTrue trivial

/-- The condition on an access to an accelerator: the semaphore of the spin backend fits into an
`int`, and the counter does not wrap. -/
def AccessFits (arch : CondArch) (th : AccelThread) (caller : Caller) : Prop :=
  (arch = .spin → th.cond.semaphore + 1 < 2 ^ 31) ∧
    match th.cond.places caller with
    | .act op => Counted th.cond.object op
    | _ => True

instance (arch : CondArch) (th : AccelThread) (caller : Caller) :
    Decidable (AccessFits arch th caller) :=
  have : Decidable (match th.cond.places caller with
      | .act op => Counted th.cond.object op
      | _ => True) :=
    match th.cond.places caller with
    | .act op => inferInstanceAs (Decidable (Counted th.cond.object op))
    | .out | .lock _ | .test _ | .wait _ | .blocked _ | .semRead _ | .semSwap _ _ | .relock _
    | .notify _ | .tryLock _ | .unlock _ => isTrue trivial
  inferInstanceAs (Decidable (_ ∧ _))

/-- The condition on a move. -/
def MoveFits (arch : CondArch) (s : System ι) : Move ι → Prop
  | .main =>
    match s.main with
    | .terminating accel _ _ => AccessFits arch (s.threads accel) .main
    | _ => True
  | .worker accel | .spurious accel => AccessFits arch (s.threads accel) .worker
  | .other accel n _ => AccessFits arch (s.threads accel) (.other n)
  | .interrupt | .start _ _ | .startTask _ | .endTask _ => True

instance (arch : CondArch) (s : System ι) : ∀ move, Decidable (MoveFits arch s move)
  | .main =>
    match main : s.main with
    | .terminating accel rest place =>
      decidable_of_iff (AccessFits arch (s.threads accel) .main) (by simp only [MoveFits, main])
    | .spawning rest | .joining rest => isTrue (by simp only [MoveFits, main])
    | .serving | .finished => isTrue (by simp only [MoveFits, main])
  | .worker accel | .spurious accel =>
    inferInstanceAs (Decidable (AccessFits arch (s.threads accel) .worker))
  | .other accel n _ => inferInstanceAs (Decidable (AccessFits arch (s.threads accel) (.other n)))
  | .interrupt | .start _ _ | .startTask _ | .endTask _ => isTrue trivial

end System

/-! ### What is known of a thread -/

theorem accelMonitor_announces : accelMonitor.Announces := by
  intro op other accelTasks ready late now
  cases other with
  | waitForTask =>
    have zero : accelTasks = 0 := by simpa [accelMonitor] using late
    subst zero
    cases op with
    | waitForTask => cases ready
    | addTask => rfl
    | addVaccel tasks | delVaccel tasks =>
      by_cases none : tasks = 0
      · subst none
        cases now
      · exact bne_iff_ne.mpr none
    | getAssignedVaccels => cases now
  | _ => cases late

/-- A change that does not wrap leaves tasks. -/
theorem apply_ne_zero {accelTasks : BitVec 64} {op : AccelOp} (patient : op ≠ .waitForTask)
    (counted : Counted accelTasks op) (some : accelTasks ≠ 0 ∨ op = .addTask) :
    accelMonitor.apply op accelTasks ≠ 0 := by
  have positive : op ≠ .addTask → 0 < accelTasks.toNat := fun other =>
    Nat.pos_of_ne_zero fun zero => some.resolve_right other (BitVec.eq_of_toNat_eq zero)
  intro zero
  have zero' := congrArg BitVec.toNat zero
  cases op with
  | waitForTask => exact patient rfl
  | addTask =>
    simp only [Counted] at counted
    simp [accelMonitor, BitVec.toNat_add] at zero'
    omega
  | addVaccel tasks =>
    have positive := positive nofun
    simp only [Counted] at counted
    simp only [accelMonitor] at zero'
    split_ifs at zero' with some
    · simp [BitVec.toNat_add, BitVec.toNat_ofNat] at zero'
      omega
    · simp at zero'
      omega
  | delVaccel tasks =>
    have positive := positive nofun
    simp only [Counted] at counted
    simp only [accelMonitor] at zero'
    split_ifs at zero' with some
    · simp [BitVec.toNat_sub, BitVec.toNat_ofNat] at zero'
      omega
    · simp at zero'
      omega
  | getAssignedVaccels =>
    have positive := positive nofun
    simp [accelMonitor] at zero'
    omega

/-- How far `main` is with a thread. -/
inductive Status where
  | untouched
  | reached (place : TerminatePlace)
  | terminated
  deriving DecidableEq

/-- The thread has yet to take a task from the counter before it looks at `stopExec` again. -/
def NeedsToken (th : AccelThread) : Prop :=
  th.place = .gate ∨ th.place = .gateLock ∨ th.place = .update ∨
    (th.place = .waiting ∧ (th.cond.places .worker).abs.Pending)

/-- `main` has added the task that is not there. -/
def TokenAdded (status : Status) (th : AccelThread) : Prop :=
  status = .reached .prefer ∨ status = .reached .enable ∨ status = .terminated ∨
    (status = .reached .adding ∧ ¬(th.cond.places .main).abs.Pending)

/-- The invariant of a thread. -/
structure ThreadInv (arch : CondArch) (status : Status) (th : AccelThread) : Prop where
  cond : CondInv arch accelMonitor .worker 0 th.cond
  worker : ∀ op, (th.cond.places .worker).abs.op? = some op →
    (th.place = .waiting ∧ op = .waitForTask) ∨ (th.place = .assigned ∧ op = .getAssignedVaccels)
  main : ∀ op, (th.cond.places .main).abs.op? = some op → op = .addTask ∧ status = .reached .adding
  other : ∀ n, (th.cond.places (.other n)).abs.op? ≠ some .waitForTask
  started : th.readyToServe = true → th.place ≠ .starting
  stopped : status ≠ .untouched → status ≠ .reached .stop → th.stopExec = true
  /-- The task that is not there is not lost. -/
  token : TokenAdded status th → NeedsToken th → th.cond.object ≠ 0
  preferred : status = .reached .enable ∨ status = .terminated → th.jobPreference ≠ .noJob
  enabled : status = .terminated → th.place = .gateLock → th.enableMtx = false

theorem AccelThread.new_inv (arch : CondArch) (preference : JobPreference) :
    ThreadInv arch .untouched (.new preference) where
  cond := asyncConditionInit_inv arch accelMonitor Caller.worker 0
  worker := nofun
  main := nofun
  other _ := nofun
  started := nofun
  stopped touched := absurd rfl touched
  token added := by
    rcases added with impossible | impossible | impossible | impossible
    · cases impossible
    · cases impossible
    · cases impossible
    · cases impossible.1
  preferred := by rintro (impossible | impossible) <;> cases impossible
  enabled := nofun

section Accesses

variable {arch : CondArch} {status status' : Status} {th th' : AccelThread} {caller : Caller}

theorem abs_op?_eq_none {place : CondPlace AccelOp} (none : place.abs.op? = none) :
    place = .out := by
  cases place with
  | out => rfl
  | _ => cases none

theorem op?_of_ne_out {place : CondPlace AccelOp} (inside : place ≠ .out) :
    ∃ op, place.abs.op? = some op := by
  cases place with
  | out => exact absurd rfl inside
  | _ => exact ⟨_, rfl⟩

/-- The thread is in no call, except at two places. -/
theorem ThreadInv.worker_out (inv : ThreadInv arch status th) (waiting : th.place ≠ .waiting)
    (assigned : th.place ≠ .assigned) : th.cond.places .worker = .out := by
  by_contra inside
  obtain ⟨op, here⟩ := op?_of_ne_out inside
  rcases inv.worker op here with ⟨place, -⟩ | ⟨place, -⟩
  · exact waiting place
  · exact assigned place

/-- `main` is in no call, except at one place. -/
theorem ThreadInv.main_out (inv : ThreadInv arch status th) (away : status ≠ .reached .adding) :
    th.cond.places .main = .out := by
  by_contra inside
  obtain ⟨op, here⟩ := op?_of_ne_out inside
  exact away (inv.main op here).2

/-- What a call does is fixed by the condition on the access. -/
theorem AccessFits.cond (fits : AccessFits arch th caller) {kind : MonitorMove AccelOp}
    (calls : ∀ op, kind = .call op → caller = .worker ∨ op ≠ .waitForTask) :
    CondFits arch accelMonitor .worker th.cond (caller, kind) := by
  refine ⟨?_, fits.1⟩
  cases kind with
  | call op =>
    intro _ apart accelTasks
    rcases calls op rfl with same | patient
    · exact absurd same apart
    · cases op with
      | waitForTask => exact absurd rfl patient
      | _ => rfl
  | next => trivial
  | spurious => trivial

theorem AccessFits.counted (fits : AccessFits arch th caller) {op : AccelOp}
    (here : (th.cond.places caller).abs = .acting op) : Counted th.cond.object op := by
  have fits := fits.2
  cases place : th.cond.places caller with
  | act now =>
    rw [place] at fits here
    cases here
    exact fits
  | _ =>
    rw [place] at here
    cases here

/-- An access that is no call keeps the invariant. -/
theorem ThreadInv.accessed (inv : ThreadInv arch status th) (fits : AccessFits arch th caller)
    {kind : MonitorMove AccelOp} (inside : th.cond.places caller ≠ .out)
    (noCall : ∀ op, kind ≠ .call op) (step : th.access arch caller kind = some th') :
    ThreadInv arch status th' := by
  obtain ⟨cond, move, rfl⟩ := Option.map_eq_some_iff.mp step
  have fits' : CondFits arch accelMonitor .worker th.cond (caller, kind) :=
    fits.cond fun op same => absurd same (noCall op)
  obtain ⟨goes, others⟩ := condStep_goes inv.cond fits' move
  have inside' : (th.cond.places caller).abs ≠ .out := by
    intro out
    refine inside (abs_op?_eq_none ?_)
    rw [out]
    rfl
  -- nobody gets into another call
  have calls : ∀ who op, (cond.places who).abs.op? = some op →
      (th.cond.places who).abs.op? = some op := by
    intro who op here
    by_cases same : who = caller
    · subst same
      rcases goes with still | goes
      · rw [← show cond.abs.places who = (th.cond.places who).abs from congrFun
          (congrArg MonitorState.places still) who]
        exact here
      · exact goes.op? inside' here
    · exact (others.op? same).symm.trans here
  have stays : ∀ who, who ≠ caller →
      ((cond.places who).abs.Pending ↔ (th.cond.places who).abs.Pending) :=
    fun who apart => others.pending apart
  have moved : (cond.object = th.cond.object ∧
      ((cond.places caller).abs.Pending ↔ (th.cond.places caller).abs.Pending)) ∨
      ∃ op, (th.cond.places caller).abs = .acting op ∧
        cond.object = accelMonitor.apply op th.cond.object ∧
        ¬(cond.places caller).abs.Pending := by
    rcases goes with still | goes
    · refine .inl ⟨congrArg MonitorState.object still, ?_⟩
      rw [show (cond.places caller).abs = (th.cond.places caller).abs from congrFun
        (congrArg MonitorState.places still) caller]
    · exact goes.pending inside'
  refine ⟨cond_keeps accelMonitor_announces inv.cond fits' move,
    fun op here => inv.worker op (calls _ op here), fun op here => inv.main op (calls _ op here),
    fun n here => inv.other n (calls _ _ here), inv.started, inv.stopped, fun added needs => ?_,
    inv.preferred, inv.enabled⟩
  change cond.object ≠ 0
  rcases moved with ⟨object, pending⟩ | ⟨op, acting, object, applied⟩
  · have same : ∀ who, ((cond.places who).abs.Pending ↔ (th.cond.places who).abs.Pending) := by
      intro who
      by_cases mine : who = caller
      · subst mine
        exact pending
      · exact stays who mine
    rw [object]
    refine inv.token ?_ ?_
    · exact added.imp_right (Or.imp_right (Or.imp_right fun both =>
        ⟨both.1, fun before => both.2 ((same .main).mpr before)⟩))
    · exact needs.imp_right (Or.imp_right (Or.imp_right fun both =>
        ⟨both.1, (same .worker).mp both.2⟩))
  · have counted := fits.counted acting
    have here : (th.cond.places caller).abs.op? = some op := by
      rw [acting]
      rfl
    rw [object]
    cases caller with
    | worker =>
      -- the thread that takes a task needs no other one
      exfalso
      rcases inv.worker op here with ⟨place, -⟩ | ⟨place, -⟩
      · rcases needs with other | other | other | ⟨-, pending⟩
        · cases place.symm.trans other
        · cases place.symm.trans other
        · cases place.symm.trans other
        · exact applied pending
      · rcases needs with other | other | other | ⟨other, -⟩ <;> cases place.symm.trans other
    | main =>
      obtain ⟨rfl, -⟩ := inv.main op here
      exact apply_ne_zero nofun counted (.inr rfl)
    | other n =>
      have patient : op ≠ .waitForTask := by
        rintro rfl
        exact inv.other n here
      refine apply_ne_zero patient counted (.inl (inv.token ?_ ?_))
      · exact added.imp_right (Or.imp_right (Or.imp_right fun both =>
          ⟨both.1, fun before => both.2 ((stays .main nofun).mpr before)⟩))
      · exact needs.imp_right (Or.imp_right (Or.imp_right fun both =>
          ⟨both.1, (stays .worker nofun).mp both.2⟩))

/-- A call: the caller is at the lock after it, and everyone else stays. -/
structure Called (arch : CondArch) (before : CondState Caller (BitVec 64) AccelOp) (caller : Caller)
    (op : AccelOp) (after : CondState Caller (BitVec 64) AccelOp) : Prop where
  kept : CondInv arch accelMonitor .worker 0 after
  object : after.object = before.object
  here : after.places caller = .lock op
  there : ∀ who, who ≠ caller → after.places who = before.places who

theorem ThreadInv.called (inv : ThreadInv arch status th) (fits : AccessFits arch th caller)
    {op : AccelOp} (calls : caller = .worker ∨ op ≠ .waitForTask)
    {cond : CondState Caller (BitVec 64) AccelOp}
    (step : condStep arch accelMonitor th.cond (caller, .call op) = some cond) :
    Called arch th.cond caller op cond := by
  have fits' : CondFits arch accelMonitor .worker th.cond (caller, .call op) :=
    fits.cond fun now equal => by
      cases equal
      exact calls
  have kept := cond_keeps accelMonitor_announces inv.cond fits' step
  obtain ⟨-, rfl⟩ := condStep_call.mp step
  exact ⟨kept, rfl, Function.update_self .., fun who apart => Function.update_of_ne apart ..⟩

/-- The thread calls `arax_accel_wait_for_task`, or `arax_accel_get_assigned_vaccels`. -/
theorem ThreadInv.worker_calls (inv : ThreadInv arch status th) (fits : AccessFits arch th .worker)
    {op : AccelOp} {place : WorkerPlace}
    (which : (th.place = .update ∧ place = .waiting ∧ op = .waitForTask) ∨
      (th.place = .snapshot ∧ place = .assigned ∧ op = .getAssignedVaccels))
    (step : { th with place := place }.access arch .worker (.call op) = some th') :
    ThreadInv arch status th' := by
  obtain ⟨cond, move, rfl⟩ := Option.map_eq_some_iff.mp step
  obtain ⟨kept, object, here, there⟩ := inv.called fits (.inl rfl) move
  have place_cases : place = .waiting ∨ place = .assigned :=
    which.imp (fun first => first.2.1) fun second => second.2.1
  refine ⟨kept, fun now called => ?_, fun now called => ?_, fun n called => ?_, fun ready => ?_,
    inv.stopped, fun added needs => ?_, inv.preferred, fun _ gate => ?_⟩
  · change (cond.places .worker).abs.op? = some now at called
    rw [here] at called
    cases called
    exact which.imp And.right And.right
  · change (cond.places .main).abs.op? = some now at called
    rw [there .main nofun] at called
    exact inv.main now called
  · change (cond.places (.other n)).abs.op? = _ at called
    rw [there (.other n) nofun] at called
    exact inv.other n called
  · show place ≠ .starting
    rcases place_cases with rfl | rfl <;> exact nofun
  · change cond.object ≠ 0
    rw [object]
    refine inv.token ?_ ?_
    · have same : cond.places .main = th.cond.places .main := there .main nofun
      unfold TokenAdded at added
      rw [same] at added
      exact added
    · rcases which with ⟨update, -, -⟩ | ⟨-, rfl, -⟩
      · exact .inr (.inr (.inl update))
      · rcases needs with other | other | other | ⟨other, -⟩ <;> cases other
  · change place = .gateLock at gate
    rcases place_cases with rfl | rfl <;> cases gate

/-- `main` calls `arax_accel_add_task`. -/
theorem ThreadInv.main_calls (inv : ThreadInv arch (.reached .add) th)
    (fits : AccessFits arch th .main) (step : th.access arch .main (.call .addTask) = some th') :
    ThreadInv arch (.reached .adding) th' := by
  obtain ⟨cond, move, rfl⟩ := Option.map_eq_some_iff.mp step
  have patient : AccelOp.addTask ≠ .waitForTask := nofun
  obtain ⟨kept, object, here, there⟩ := inv.called fits (.inr patient) move
  refine ⟨kept, fun now called => ?_, fun now called => ?_, fun n called => ?_, inv.started,
    fun _ _ => inv.stopped nofun nofun, fun added _ => ?_, ?_, nofun⟩
  · change (cond.places .worker).abs.op? = some now at called
    rw [there .worker nofun] at called
    exact inv.worker now called
  · change (cond.places .main).abs.op? = some now at called
    rw [here] at called
    cases called
    exact ⟨rfl, rfl⟩
  · change (cond.places (.other n)).abs.op? = _ at called
    rw [there (.other n) nofun] at called
    exact inv.other n called
  · rcases added with other | other | other | ⟨-, applied⟩
    · cases other
    · cases other
    · cases other
    · change ¬(cond.places .main).abs.Pending at applied
      rw [here] at applied
      exact absurd trivial applied
  · rintro (other | other) <;> cases other

/-- Somebody else makes a call. -/
theorem ThreadInv.other_calls (inv : ThreadInv arch status th) {n : Nat}
    (fits : AccessFits arch th (.other n)) {op : AccelOp} (patient : op ≠ .waitForTask)
    (step : th.access arch (.other n) (.call op) = some th') : ThreadInv arch status th' := by
  obtain ⟨cond, move, rfl⟩ := Option.map_eq_some_iff.mp step
  obtain ⟨kept, object, here, there⟩ := inv.called fits (.inr patient) move
  have worker : cond.places .worker = th.cond.places .worker := there .worker nofun
  have main : cond.places .main = th.cond.places .main := there .main nofun
  refine ⟨kept, fun now called => ?_, fun now called => ?_, fun k called => ?_, inv.started,
    inv.stopped, fun added needs => ?_, inv.preferred, inv.enabled⟩
  · exact inv.worker now (worker ▸ called)
  · exact inv.main now (main ▸ called)
  · change (cond.places (.other k)).abs.op? = _ at called
    by_cases mine : Caller.other k = .other n
    · rw [mine, here] at called
      cases called
      exact patient rfl
    · rw [there _ mine] at called
      exact inv.other k called
  · unfold TokenAdded at added
    unfold NeedsToken at needs
    change cond.object ≠ 0
    rw [object]
    refine inv.token ?_ ?_
    · rw [main] at added
      exact added
    · rw [worker] at needs
      exact needs

/-- A move of the thread itself that is no access, when it is in no call. -/
theorem ThreadInv.local (inv : ThreadInv arch status th) {place : WorkerPlace} {mtx : Bool}
    {rounds : Nat} (out : th.cond.places .worker = .out) (started : place ≠ .starting)
    (token : TokenAdded status th → NeedsToken { th with place := place } → NeedsToken th)
    (enabled : status = .terminated → place = .gateLock → mtx = false) :
    ThreadInv arch status { th with place := place, enableMtx := mtx, rounds := rounds } where
  cond := inv.cond
  worker op called := by
    change (th.cond.places .worker).abs.op? = some op at called
    rw [out] at called
    cases called
  main := inv.main
  other := inv.other
  started _ := started
  stopped := inv.stopped
  token added needs := inv.token added (token added needs)
  preferred := inv.preferred
  enabled := enabled

/-- What a thread does next. -/
inductive Works (arch : CondArch) (th : AccelThread) : AccelThread → Prop
  | leave (place : th.place = .head) (stop : th.stopExec = true) :
    Works arch th { th with place := .exited }
  | go (place : th.place = .head) (goes : th.stopExec = false) :
    Works arch th { th with place := .gate }
  | pass (place : th.place = .gate) (job : th.jobPreference ≠ .noJob) :
    Works arch th { th with place := .update }
  | hold (place : th.place = .gate) (noJob : th.jobPreference = .noJob) :
    Works arch th { th with place := .gateLock }
  | lock (place : th.place = .gateLock) (enabled : th.enableMtx = false) :
    Works arch th { th with place := .update, enableMtx := true }
  | call {op : AccelOp} {place : WorkerPlace} {th' : AccelThread}
    (which : (th.place = .update ∧ place = .waiting ∧ op = .waitForTask) ∨
      (th.place = .snapshot ∧ place = .assigned ∧ op = .getAssignedVaccels))
    (step : { th with place := place }.access arch .worker (.call op) = some th') :
    Works arch th th'
  | access {th' : AccelThread} (place : th.place = .waiting ∨ th.place = .assigned)
    (inside : th.cond.places .worker ≠ .out) (step : th.access arch .worker .next = some th') :
    Works arch th th'
  | taken (place : th.place = .waiting) (out : th.cond.places .worker = .out) :
    Works arch th { th with place := .snapshot }
  | listed (place : th.place = .assigned) (out : th.cond.places .worker = .out) :
    Works arch th { th with place := .select }
  | look (place : th.place = .select) :
    Works arch th { th with place := .head, rounds := th.rounds + 1 }
  | serve (place : th.place = .select) :
    Works arch th { th with place := .serving, rounds := th.rounds + 1 }
  | done (place : th.place = .serving) : Works arch th { th with place := .head }

theorem workFunc_works (step : workFunc arch th = some th') : Works arch th th' := by
  unfold workFunc at step
  cases place : th.place with
  | starting | serving | exited =>
    rw [place] at step
    cases step
  | head =>
    rw [place] at step
    cases step
    split_ifs with stop
    · exact .leave place stop
    · exact .go place (Bool.not_eq_true _ ▸ stop)
  | gate =>
    rw [place] at step
    cases step
    split_ifs with noJob
    · exact .hold place noJob
    · exact .pass place noJob
  | gateLock =>
    rw [place] at step
    simp only at step
    split_ifs at step with locked
    cases step
    exact .lock place (Bool.not_eq_true _ ▸ locked)
  | update =>
    rw [place] at step
    exact .call (.inl ⟨place, rfl, rfl⟩) step
  | snapshot =>
    rw [place] at step
    exact .call (.inr ⟨place, rfl, rfl⟩) step
  | waiting =>
    rw [place] at step
    simp only at step
    split_ifs at step with out
    · cases step
      exact .taken place out
    · exact .access (.inl place) out step
  | assigned =>
    rw [place] at step
    simp only at step
    split_ifs at step with out
    · cases step
      exact .listed place out
    · exact .access (.inr place) out step
  | select =>
    rw [place] at step
    cases step
    exact .look place

/-- A thread that moves has not exited. -/
theorem Works.runs (works : Works arch th th') : th.place ≠ .exited := by
  cases works with
  | call which step => rcases which with ⟨place, -⟩ | ⟨place, -⟩ <;> rw [place] <;> exact nofun
  | access place inside step => rcases place with place | place <;> rw [place] <;> exact nofun
  | leave place | go place | pass place | hold place | lock place | taken place | listed place
  | look place | serve place | done place =>
    rw [place]
    exact nofun

theorem startTask_works (step : startTask th = some th') : Works arch th th' := by
  unfold startTask at step
  split_ifs at step with place
  cases step
  exact .serve place

theorem endTask_works (step : endTask th = some th') : Works arch th th' := by
  unfold endTask at step
  split_ifs at step with place
  cases step
  exact .done place

/-- After `stopExec` is set, a task that is added is there for a thread in its last round. -/
theorem TokenAdded.stopped (added : TokenAdded status th) (inv : ThreadInv arch status th) :
    th.stopExec = true := by
  refine inv.stopped ?_ ?_
  · rintro rfl
    rcases added with other | other | other | ⟨other, -⟩ <;> cases other
  · rintro rfl
    rcases added with other | other | other | ⟨other, -⟩ <;> cases other

/-- **The next move of the thread.** The condition is about its accesses. -/
theorem works_keeps (inv : ThreadInv arch status th)
    (fits : th.place ≠ .select → th.place ≠ .serving → AccessFits arch th .worker)
    (works : Works arch th th') : ThreadInv arch status th' := by
  have noToken : ∀ {place : WorkerPlace}, th.cond.places .worker = .out →
      place ≠ .gate → place ≠ .gateLock → place ≠ .update →
      NeedsToken { th with place := place } → NeedsToken th := by
    intro place out first second third needs
    rcases needs with same | same | same | ⟨-, pending⟩
    · exact absurd same first
    · exact absurd same second
    · exact absurd same third
    · change (th.cond.places .worker).abs.Pending at pending
      rw [out] at pending
      exact pending.elim
  have out : th.place ≠ .waiting → th.place ≠ .assigned → th.cond.places .worker = .out :=
    inv.worker_out
  cases works with
  | leave place stop =>
    have out := out (by rw [place]; exact nofun) (by rw [place]; exact nofun)
    exact inv.local out nofun (fun _ => noToken out nofun nofun nofun) nofun
  | go place goes =>
    have out := out (by rw [place]; exact nofun) (by rw [place]; exact nofun)
    exact inv.local out nofun
      (fun added _ => absurd (goes.symm.trans (added.stopped inv)) Bool.noConfusion) nofun
  | pass place job =>
    have out := out (by rw [place]; exact nofun) (by rw [place]; exact nofun)
    exact inv.local out nofun (fun _ _ => .inl place) nofun
  | hold place noJob =>
    have out := out (by rw [place]; exact nofun) (by rw [place]; exact nofun)
    exact inv.local out nofun (fun _ _ => .inl place)
      fun late _ => absurd noJob (inv.preferred (.inr late))
  | lock place enabled =>
    have out := out (by rw [place]; exact nofun) (by rw [place]; exact nofun)
    exact inv.local out nofun (fun _ _ => .inr (.inl place)) nofun
  | call which step =>
    refine inv.worker_calls (fits ?_ ?_) which step
    · rcases which with ⟨place, -⟩ | ⟨place, -⟩ <;> rw [place] <;> exact nofun
    · rcases which with ⟨place, -⟩ | ⟨place, -⟩ <;> rw [place] <;> exact nofun
  | access place inside step =>
    refine inv.accessed (fits ?_ ?_) inside ?_ step
    · rcases place with place | place <;> rw [place] <;> exact nofun
    · rcases place with place | place <;> rw [place] <;> exact nofun
    · exact nofun
  | taken place out => exact inv.local out nofun (fun _ => noToken out nofun nofun nofun) nofun
  | listed place out => exact inv.local out nofun (fun _ => noToken out nofun nofun nofun) nofun
  | look place | serve place | done place =>
    have out := out (by rw [place]; exact nofun) (by rw [place]; exact nofun)
    exact inv.local out nofun (fun _ => noToken out nofun nofun nofun) nofun

/-- The initialisation of the thread ends. -/
theorem ThreadInv.starts (inv : ThreadInv arch status th) (starting : th.place = .starting)
    (ok : Bool) : ThreadInv arch status
      { th with place := if ok then .head else .exited, readyToServe := ok } := by
  have out := inv.worker_out (by rw [starting]; exact nofun) (by rw [starting]; exact nofun)
  have place : (if ok then WorkerPlace.head else .exited) = .head ∨
      (if ok then WorkerPlace.head else .exited) = .exited := ite_eq_or_eq ..
  refine ⟨inv.cond, fun op called => ?_, inv.main, inv.other, fun _ => ?_, inv.stopped,
    fun _ needs => ?_, inv.preferred, fun _ gate => ?_⟩
  · change (th.cond.places .worker).abs.op? = some op at called
    rw [out] at called
    cases called
  · show (if ok then WorkerPlace.head else .exited) ≠ .starting
    rcases place with same | same <;> rw [same] <;> exact nofun
  · rcases needs with other | other | other | ⟨other, -⟩ <;>
      rcases place with same | same <;> cases same.symm.trans other
  · rcases place with same | same <;> cases same.symm.trans gate

/-- Who goes on in a call is in one. -/
theorem access_inside {kind : MonitorMove AccelOp} (noCall : ∀ op, kind ≠ .call op)
    (step : th.access arch caller kind = some th') : th.cond.places caller ≠ .out := by
  obtain ⟨cond, move, -⟩ := Option.map_eq_some_iff.mp step
  intro out
  cases kind with
  | call op => exact noCall op rfl
  | next =>
    simp only [condStep, out] at move
    cases move
  | spurious =>
    simp only [condStep, out] at move
    cases move

theorem ThreadInv.reached_stop (inv : ThreadInv arch .untouched th) :
    ThreadInv arch (.reached .stop) th where
  cond := inv.cond
  worker := inv.worker
  main op called := nomatch (inv.main op called).2
  other := inv.other
  started := inv.started
  stopped _ far := absurd rfl far
  token added := by
    rcases added with other | other | other | ⟨other, -⟩ <;> cases other
  preferred := by rintro (other | other) <;> cases other
  enabled := nofun

/-- How far `main` is, after an access of `accelThread::terminate`. -/
def statusOf : Option TerminatePlace → Status
  | some place => .reached place
  | none => .terminated

/-- **The next access of `main`.** -/
theorem terminateNext_keeps {place : TerminatePlace} {next : Option TerminatePlace}
    (inv : ThreadInv arch (.reached place) th) (fits : AccessFits arch th .main)
    (step : terminateNext arch th place = some (th', next)) :
    ThreadInv arch (statusOf next) th' := by
  have notAdded : ∀ {status : Status}, status = .reached .stop ∨ status = .reached .add →
      ¬TokenAdded status th := by
    rintro status (rfl | rfl) (other | other | other | ⟨other, -⟩) <;> cases other
  cases place with
  | stop =>
    cases step
    exact ⟨inv.cond, inv.worker, fun op called => (nomatch (inv.main op called).2), inv.other,
      inv.started, fun _ _ => rfl, fun added => absurd added (notAdded (.inr rfl)),
      (by rintro (other | other) <;> cases other), nofun⟩
  | add =>
    obtain ⟨th', access, same⟩ := Option.map_eq_some_iff.mp step
    cases same
    exact inv.main_calls fits access
  | adding =>
    simp only [terminateNext] at step
    split_ifs at step with out
    · cases step
      have applied : ¬(th.cond.places .main).abs.Pending := by
        rw [out]
        exact not_false
      refine ⟨inv.cond, inv.worker, fun op called => ?_, inv.other, inv.started,
        fun _ _ => inv.stopped nofun nofun,
        fun _ needs => inv.token (.inr (.inr (.inr ⟨rfl, applied⟩))) needs,
        (by rintro (other | other) <;> cases other), nofun⟩
      rw [out] at called
      cases called
    · obtain ⟨th', access, same⟩ := Option.map_eq_some_iff.mp step
      cases same
      refine inv.accessed fits out ?_ access
      exact nofun
  | prefer =>
    cases step
    exact ⟨inv.cond, inv.worker, fun op called => (nomatch (inv.main op called).2), inv.other,
      inv.started, fun _ _ => inv.stopped nofun nofun, fun _ needs => inv.token (.inl rfl) needs,
      fun _ => nofun, nofun⟩
  | enable =>
    cases step
    exact ⟨inv.cond, inv.worker, fun op called => (nomatch (inv.main op called).2), inv.other,
      inv.started, fun _ _ => inv.stopped nofun nofun,
      fun _ needs => inv.token (.inr (.inl rfl)) needs, fun _ => inv.preferred (.inl rfl),
      fun _ _ => rfl⟩

/-- A thread that another one moves does not start again. -/
theorem access_ready {kind : MonitorMove AccelOp} (step : th.access arch caller kind = some th') :
    th'.readyToServe = th.readyToServe := by
  obtain ⟨cond, -, rfl⟩ := Option.map_eq_some_iff.mp step
  rfl

theorem works_ready (works : Works arch th th') : th'.readyToServe = th.readyToServe := by
  cases works with
  | call which step => exact (access_ready step).trans rfl
  | access place inside step => exact access_ready step
  | _ => rfl

theorem terminateNext_frame {place : TerminatePlace} {next : Option TerminatePlace}
    (step : terminateNext arch th place = some (th', next)) :
    th'.place = th.place ∧ th'.readyToServe = th.readyToServe := by
  cases place with
  | stop | prefer | enable =>
    cases step
    exact ⟨rfl, rfl⟩
  | add =>
    obtain ⟨th', access, same⟩ := Option.map_eq_some_iff.mp step
    obtain ⟨cond, -, rfl⟩ := Option.map_eq_some_iff.mp access
    cases same
    exact ⟨rfl, rfl⟩
  | adding =>
    simp only [terminateNext] at step
    split_ifs at step
    · cases step
      exact ⟨rfl, rfl⟩
    · obtain ⟨th', access, same⟩ := Option.map_eq_some_iff.mp step
      obtain ⟨cond, -, rfl⟩ := Option.map_eq_some_iff.mp access
      cases same
      exact ⟨rfl, rfl⟩

end Accesses

/-! ### Nobody is stuck -/

section Progress

variable {arch : CondArch} {status : Status} {th : AccelThread} {caller : Caller}

/-- Who is in a call that is ready can go on, or the one that has the lock can. -/
theorem ThreadInv.moves (inv : ThreadInv arch status th) (inside : th.cond.places caller ≠ .out)
    (ready : ∀ op, (th.cond.places caller).Sleeps op →
      accelMonitor.ready op th.cond.object = true) :
    (th.access arch caller .next).isSome ∨
      ∃ holder, th.cond.holder = some holder ∧ (th.access arch holder .next).isSome := by
  have access : ∀ who, (condStep arch accelMonitor th.cond (who, .next)).isSome →
      (th.access arch who .next).isSome := fun who moves => by
    unfold AccelThread.access
    rw [Option.isSome_map]
    exact moves
  rcases cond_alive inv.cond inside with moves | ⟨holder, has, moves⟩ | ⟨op, sleeps, late⟩
  · exact .inl (access caller moves)
  · exact .inr ⟨holder, has, access holder moves⟩
  · exact absurd (late.symm.trans (ready op sleeps)) Bool.noConfusion

/-- Who has the lock is in a call. -/
theorem ThreadInv.holder_inside (inv : ThreadInv arch status th)
    (has : th.cond.holder = some caller) : th.cond.places caller ≠ .out := by
  intro out
  have holds : (th.cond.places caller).abs.Holds := (inv.cond.monitor.holds caller).mpr has
  rw [out] at holds
  exact holds

/-- An access of the thread is its next move. -/
theorem ThreadInv.worker_moves (inv : ThreadInv arch status th)
    (inside : th.cond.places .worker ≠ .out) (moves : (th.access arch .worker .next).isSome) :
    (workFunc arch th).isSome := by
  obtain ⟨op, here⟩ := op?_of_ne_out inside
  unfold workFunc
  rcases inv.worker op here with ⟨place, -⟩ | ⟨place, -⟩
  · rw [place]
    show (if _ then _ else _ : Option AccelThread).isSome
    rw [if_neg inside]
    exact moves
  · rw [place]
    show (if _ then _ else _ : Option AccelThread).isSome
    rw [if_neg inside]
    exact moves

/-- An access of `main` is its next move. -/
theorem ThreadInv.main_moves {place : TerminatePlace} (inv : ThreadInv arch (.reached place) th)
    (inside : th.cond.places .main ≠ .out) (moves : (th.access arch .main .next).isSome) :
    (terminateNext arch th place).isSome := by
  obtain ⟨op, here⟩ := op?_of_ne_out inside
  cases (inv.main op here).2
  unfold terminateNext
  rw [if_neg inside, Option.isSome_map]
  exact moves

/-- Who is in no call can make one. -/
theorem access_call_isSome {op : AccelOp} (out : th.cond.places caller = .out) :
    (th.access arch caller (.call op)).isSome := by
  unfold AccelThread.access
  rw [Option.isSome_map]
  simp only [condStep]
  rw [out]
  rfl

/-- The thread of an accelerator serves a task, or it can go on, or somebody who has the lock of the
accelerator can. -/
def AccelThread.Moves (arch : CondArch) (th : AccelThread) : Prop :=
  th.place = .serving ∨ (workFunc arch th).isSome ∨
    ∃ n, th.cond.holder = some (.other n) ∧ (th.access arch (.other n) .next).isSome

/-- **A thread that was terminated is not stuck.** -/
theorem ThreadInv.terminated_moves (inv : ThreadInv arch .terminated th)
    (started : th.place ≠ .starting) (runs : th.place ≠ .exited) : th.Moves arch := by
  have call : (th.place = .waiting ∨ th.place = .assigned) →
      th.cond.places .worker ≠ .out → th.Moves arch := by
    intro place inside
    have ready : ∀ op, (th.cond.places .worker).Sleeps op →
        accelMonitor.ready op th.cond.object = true := by
      intro op sleeps
      have sleeps : (th.cond.places .worker).abs = .asleep op := sleeps
      rcases inv.worker op (by rw [sleeps]; rfl) with ⟨waiting, rfl⟩ | ⟨-, rfl⟩
      · have pending : (th.cond.places .worker).abs.Pending := by
          rw [sleeps]
          trivial
        exact bne_iff_ne.mpr
          (inv.token (.inr (.inr (.inl rfl))) (.inr (.inr (.inr ⟨waiting, pending⟩))))
      · rfl
    rcases inv.moves inside ready with moves | ⟨holder, has, moves⟩
    · exact .inr (.inl (inv.worker_moves inside moves))
    · cases holder with
      | worker => exact .inr (.inl (inv.worker_moves inside moves))
      | main => exact absurd (inv.main_out nofun) (inv.holder_inside has)
      | other n => exact .inr (.inr ⟨n, has, moves⟩)
  cases place : th.place with
  | starting => exact absurd place started
  | exited => exact absurd place runs
  | serving => exact .inl place
  | head | gate | select =>
    right; left
    unfold workFunc
    rw [place]
    rfl
  | gateLock =>
    right; left
    unfold workFunc
    rw [place]
    show (if th.enableMtx then none else _ : Option AccelThread).isSome
    rw [inv.enabled rfl place]
    rfl
  | update | snapshot =>
    right; left
    have out := inv.worker_out (by rw [place]; exact nofun) (by rw [place]; exact nofun)
    unfold workFunc
    rw [place]
    exact access_call_isSome out
  | waiting | assigned =>
    by_cases out : th.cond.places .worker = .out
    · right; left
      unfold workFunc
      rw [place]
      show (if _ then _ else _ : Option AccelThread).isSome
      rw [if_pos out]
      rfl
    · exact call (by simp [place]) out

/-- `main` is not stuck in `accelThread::terminate`. -/
theorem ThreadInv.reached_moves {place : TerminatePlace}
    (inv : ThreadInv arch (.reached place) th) :
    (terminateNext arch th place).isSome ∨ th.Moves arch := by
  cases place with
  | stop | prefer | enable => exact .inl rfl
  | add =>
    left
    unfold terminateNext
    rw [Option.isSome_map]
    exact access_call_isSome (inv.main_out nofun)
  | adding =>
    by_cases out : th.cond.places .main = .out
    · left
      unfold terminateNext
      rw [if_pos out]
      rfl
    · have ready : ∀ op, (th.cond.places .main).Sleeps op →
          accelMonitor.ready op th.cond.object = true := by
        intro op sleeps
        have sleeps : (th.cond.places .main).abs = .asleep op := sleeps
        obtain ⟨rfl, -⟩ := inv.main op (by rw [sleeps]; rfl)
        rfl
      rcases inv.moves out ready with moves | ⟨holder, has, moves⟩
      · exact .inl (inv.main_moves out moves)
      · cases holder with
        | worker => exact .inr (.inr (.inl (inv.worker_moves (inv.holder_inside has) moves)))
        | main => exact .inl (inv.main_moves out moves)
        | other n => exact .inr (.inr (.inr ⟨n, has, moves⟩))

end Progress

/-! ### How many moves are left -/

/-- The moves that a thread still makes once it is terminated, if it makes `call` accesses in its
call. -/
def WorkerPlace.left (call : Nat) : WorkerPlace → Nat
  | .starting | .exited => 0
  | .head => 1
  | .serving => 2
  | .select => 3
  | .assigned => 4 + call
  | .snapshot => 11
  | .waiting => 12 + call
  | .update => 19
  | .gateLock => 20
  | .gate => 21

def AccelThread.left (th : AccelThread) : Nat := th.place.left (th.cond.left .worker)

/-- The moves that `main` still makes in `accelThread::terminate`. -/
def TerminatePlace.left (th : AccelThread) : TerminatePlace → Nat
  | .enable => 1
  | .prefer => 2
  | .adding => 3 + th.cond.left .main
  | .add => 10
  | .stop => 11

section Measures

variable {arch : CondArch} {status : Status} {th th' : AccelThread} {caller : Caller}

theorem AccelThread.left_le (th : AccelThread) : th.left ≤ 21 := by
  have short : th.cond.left .worker ≤ 9 := CondPlace.left_le ..
  unfold AccelThread.left
  cases th.place <;> simp only [WorkerPlace.left] <;> omega

theorem AccelThread.left_at {place : WorkerPlace} (here : th.place = place) :
    th.left = place.left (th.cond.left .worker) := congrArg _ here

theorem WorkerPlace.left_mono {place : WorkerPlace} {fewer more extra : Nat}
    (le : fewer ≤ more + extra) : place.left fewer ≤ place.left more + extra := by
  cases place <;> simp only [WorkerPlace.left] <;> omega

/-- A call is at the lock. -/
theorem access_call_left {op : AccelOp} (step : th.access arch caller (.call op) = some th') :
    th'.place = th.place ∧ th'.cond.left caller = 6 := by
  obtain ⟨cond, move, rfl⟩ := Option.map_eq_some_iff.mp step
  obtain ⟨-, rfl⟩ := condStep_call.mp move
  exact ⟨rfl, left_goto ..⟩

/-- An access in a call that is ready. -/
theorem ThreadInv.access_left (inv : ThreadInv arch status th)
    (ready : ∀ op, th.cond.places caller = .test op → accelMonitor.ready op th.cond.object = true)
    (step : th.access arch caller .next = some th') :
    th'.place = th.place ∧ th'.cond.left caller < th.cond.left caller := by
  obtain ⟨cond, move, rfl⟩ := Option.map_eq_some_iff.mp step
  exact ⟨rfl, condNext_left inv.cond ready move⟩

/-- **A terminated thread comes nearer to its end with each move.** -/
theorem works_left (inv : ThreadInv arch .terminated th) (works : Works arch th th') :
    th'.left < th.left := by
  have stopped : th.stopExec = true := inv.stopped nofun nofun
  cases works with
  | leave place stop =>
    rw [AccelThread.left_at place]
    exact Nat.zero_lt_one
  | go place goes => exact absurd (goes.symm.trans stopped) Bool.noConfusion
  | pass place job =>
    rw [AccelThread.left_at place]
    show 19 < 21
    decide
  | hold place noJob =>
    rw [AccelThread.left_at place]
    exact Nat.lt_succ_self 20
  | lock place enabled =>
    rw [AccelThread.left_at place]
    exact Nat.lt_succ_self 19
  | look place =>
    rw [AccelThread.left_at place]
    show 1 < 3
    decide
  | serve place =>
    rw [AccelThread.left_at place]
    exact Nat.lt_succ_self 2
  | done place =>
    rw [AccelThread.left_at place]
    exact Nat.lt_succ_self 1
  | call which step =>
    obtain ⟨place, length⟩ := access_call_left step
    rcases which with ⟨before, rfl, -⟩ | ⟨before, rfl, -⟩
    · rw [AccelThread.left_at before, AccelThread.left_at place, length]
      exact Nat.lt_succ_self 18
    · rw [AccelThread.left_at before, AccelThread.left_at place, length]
      exact Nat.lt_succ_self 10
  | access place inside step =>
    have ready : ∀ op, th.cond.places .worker = .test op →
        accelMonitor.ready op th.cond.object = true := by
      intro op here
      rcases inv.worker op (by rw [here]; rfl) with ⟨waiting, rfl⟩ | ⟨-, rfl⟩
      · have pending : (th.cond.places .worker).abs.Pending := by
          rw [here]
          trivial
        exact bne_iff_ne.mpr
          (inv.token (.inr (.inr (.inl rfl))) (.inr (.inr (.inr ⟨waiting, pending⟩))))
      · rfl
    obtain ⟨same, shorter⟩ := inv.access_left ready step
    unfold AccelThread.left
    rw [same]
    rcases place with place | place
    · rw [place]
      exact Nat.add_lt_add_left shorter 12
    · rw [place]
      exact Nat.add_lt_add_left shorter 4
  | taken place out =>
    rw [AccelThread.left_at place]
    show 11 < 12 + _
    omega
  | listed place out =>
    rw [AccelThread.left_at place]
    show 3 < 4 + _
    omega

/-- Somebody else delays the thread only by a swap that fails. -/
theorem ThreadInv.left_others (inv : ThreadInv arch status th) (apart : .worker ≠ caller)
    {kind : MonitorMove AccelOp} (step : th.access arch caller kind = some th') :
    th'.left ≤ th.left + arch.retries := by
  obtain ⟨cond, move, rfl⟩ := Option.map_eq_some_iff.mp step
  exact WorkerPlace.left_mono (condStep_left_others inv.cond apart move)

/-- The thread does not lose anything when it wakes up without a notification. -/
theorem left_spurious (step : th.access arch .worker .spurious = some th') :
    th'.left ≤ th.left := by
  obtain ⟨cond, move, rfl⟩ := Option.map_eq_some_iff.mp step
  show th.place.left (cond.left .worker) ≤ th.place.left (th.cond.left .worker) + 0
  exact WorkerPlace.left_mono (condStep_left_spurious move)

/-- **`main` comes nearer to the end of `accelThread::terminate` with each move.** -/
theorem terminateNext_left {place : TerminatePlace} {next : Option TerminatePlace}
    (inv : ThreadInv arch (.reached place) th)
    (step : terminateNext arch th place = some (th', next)) :
    next.elim 0 (TerminatePlace.left th') < place.left th := by
  cases place with
  | stop | prefer | enable =>
    cases step
    exact Nat.lt_succ_self _
  | add =>
    obtain ⟨th', access, same⟩ := Option.map_eq_some_iff.mp step
    cases same
    show 3 + th'.cond.left .main < 10
    rw [(access_call_left access).2]
    decide
  | adding =>
    simp only [terminateNext] at step
    split_ifs at step with out
    · cases step
      show 2 < 3 + th.cond.left .main
      omega
    · obtain ⟨th', access, same⟩ := Option.map_eq_some_iff.mp step
      cases same
      have ready : ∀ op, th.cond.places .main = .test op →
          accelMonitor.ready op th.cond.object = true := by
        intro op here
        obtain ⟨rfl, -⟩ := inv.main op (by rw [here]; rfl)
        rfl
      exact Nat.add_lt_add_left (inv.access_left ready access).2 3

/-- Nobody else delays `main`. -/
theorem ThreadInv.main_left (inv : ThreadInv arch status th) (apart : .main ≠ caller)
    {kind : MonitorMove AccelOp} (step : th.access arch caller kind = some th') :
    th'.cond.left .main ≤ th.cond.left .main := by
  obtain ⟨cond, move, rfl⟩ := Option.map_eq_some_iff.mp step
  exact condStep_left_patient inv.cond apart nofun move

theorem works_main_left (inv : ThreadInv arch status th) (works : Works arch th th') :
    th'.cond.left .main ≤ th.cond.left .main := by
  have apart : Caller.main ≠ .worker := nofun
  cases works with
  | call which step =>
    obtain ⟨cond, move, rfl⟩ := Option.map_eq_some_iff.mp step
    exact condStep_left_patient inv.cond apart apart move
  | access place inside step => exact inv.main_left apart step
  | _ => exact Nat.le_refl _

/-- The thread is between two rounds, or serves the task that it has found in the last one. -/
def WorkerPlace.Between (place : WorkerPlace) : Prop :=
  place = .head ∨ place = .serving ∨ place = .exited

instance (place : WorkerPlace) : Decidable place.Between := by
  unfold WorkerPlace.Between
  infer_instance

/-- The rounds, with the one that the thread is in. -/
def AccelThread.begun (th : AccelThread) : Nat :=
  th.rounds + if th.place.Between then 0 else 1

theorem access_begun {kind : MonitorMove AccelOp} (step : th.access arch caller kind = some th') :
    th'.begun = th.begun := by
  obtain ⟨cond, -, rfl⟩ := Option.map_eq_some_iff.mp step
  rfl

/-- A thread begins no round after `stopExec` is set. -/
theorem works_begun (stopped : th.stopExec = true) (works : Works arch th th') :
    th'.begun = th.begun := by
  have goes : ∀ {th : AccelThread} {place : WorkerPlace}, th.place = place →
      th.begun = th.rounds + if place.Between then 0 else 1 :=
    fun here => by rw [AccelThread.begun, here]
  cases works with
  | go place continues => exact absurd (continues.symm.trans stopped) Bool.noConfusion
  | call which step =>
    refine (access_begun step).trans ?_
    rcases which with ⟨before, rfl, -⟩ | ⟨before, rfl, -⟩ <;> rw [goes before, goes rfl] <;> rfl
  | access place inside step => exact access_begun step
  | leave place | pass place | hold place | lock place | taken place | listed place | look place
  | serve place | done place =>
    rw [goes place, goes rfl]
    rfl

end Measures

/-! ### What is known of the controller -/

section Runs

variable {ι : Type*} [DecidableEq ι]

/-- How far `main` is with the thread of `accel`. -/
def MainPlace.status (accel : ι) : MainPlace ι → Status
  | .spawning _ | .serving => .untouched
  | .terminating now rest place =>
    if accel = now then .reached place else if accel ∈ rest then .untouched else .terminated
  | .joining _ | .finished => .terminated

/-- What is known of `main`. -/
def MainInv (s : System ι) : MainPlace ι → Prop
  | .spawning rest => ∀ accel ∈ s.accels, accel ∈ rest ∨ (s.threads accel).readyToServe = true
  | .terminating accel rest _ => (accel :: rest) <:+ s.accels ∧
      ∀ accel ∈ s.accels, (s.threads accel).readyToServe = true
  | .joining rest => rest ⊆ s.accels ∧ ∀ accel ∈ s.accels, (s.threads accel).readyToServe = true
  | .serving | .finished => ∀ accel ∈ s.accels, (s.threads accel).readyToServe = true

/-- The invariant of the controller. -/
structure SystemInv (arch : CondArch) (s : System ι) : Prop where
  distinct : s.accels.Nodup
  threads : ∀ accel ∈ s.accels, ThreadInv arch (s.main.status accel) (s.threads accel)
  main : MainInv s s.main

theorem spawnThreads_inv (arch : CondArch) (accels : List ι) (preference : ι → JobPreference)
    (distinct : accels.Nodup) : SystemInv arch (spawnThreads accels preference) where
  distinct := distinct
  threads accel _ := AccelThread.new_inv arch (preference accel)
  main _ member := .inl member

variable {arch : CondArch} {s t : System ι} {accel : ι} {th : AccelThread}

theorem System.set_threads (other : ι) : (s.set accel th).threads other =
    if other = accel then th else s.threads other := Function.update_apply ..

/-- A thread that stays ready changes nothing for `main`. -/
theorem MainInv.set (inv : MainInv s s.main)
    (ready : accel ∈ s.accels → (s.threads accel).readyToServe = true → th.readyToServe = true) :
    MainInv (s.set accel th) s.main := by
  have kept : ∀ other ∈ s.accels, (s.threads other).readyToServe = true →
      ((s.set accel th).threads other).readyToServe = true := by
    intro other member was
    rw [System.set_threads]
    split_ifs with same
    · subst same
      exact ready member was
    · exact was
  cases place : s.main with
  | spawning rest =>
    rw [place] at inv
    exact fun other member => (inv other member).imp_right (kept other member)
  | terminating now rest at' =>
    rw [place] at inv
    exact ⟨inv.1, fun other member => kept other member (inv.2 other member)⟩
  | joining rest =>
    rw [place] at inv
    exact ⟨inv.1, fun other member => kept other member (inv.2 other member)⟩
  | serving | finished =>
    rw [place] at inv
    exact fun other member => kept other member (inv other member)

/-- A move of one thread, while `main` stays where it is. -/
theorem SystemInv.set (inv : SystemInv arch s)
    (ready : accel ∈ s.accels → (s.threads accel).readyToServe = true → th.readyToServe = true)
    (thread : ThreadInv arch (s.main.status accel) (s.threads accel) →
      ThreadInv arch (s.main.status accel) th) : SystemInv arch (s.set accel th) where
  distinct := inv.distinct
  threads other member := by
    rw [System.set_threads]
    split_ifs with same
    · subst same
      exact thread (inv.threads other member)
    · exact inv.threads other member
  main := inv.main.set ready

/-- The threads of the accelerators are ready once `main` is behind `spawnThreads`. -/
theorem SystemInv.ready (inv : SystemInv arch s) (behind : ∀ rest, s.main ≠ .spawning rest)
    (member : accel ∈ s.accels) : (s.threads accel).readyToServe = true := by
  have main := inv.main
  cases place : s.main with
  | spawning rest => exact absurd place (behind rest)
  | terminating now rest at' =>
    rw [place] at main
    exact main.2 accel member
  | joining rest =>
    rw [place] at main
    exact main.2 accel member
  | serving | finished =>
    rw [place] at main
    exact main accel member

/-- `main` turns to the next thread. -/
theorem terminateFrom_status {accels rest : List ι} {threads : ι → AccelThread}
    (inv : ∀ accel ∈ accels,
      ThreadInv arch (if accel ∈ rest then .untouched else .terminated) (threads accel)) :
    ∀ accel ∈ accels,
      ThreadInv arch ((terminateFrom accels rest).status accel) (threads accel) := by
  intro accel member
  have inv := inv accel member
  cases rest with
  | nil =>
    rw [if_neg List.not_mem_nil] at inv
    exact inv
  | cons now rest =>
    show ThreadInv arch (if accel = now then .reached .stop else if accel ∈ rest then .untouched
      else .terminated) (threads accel)
    split_ifs with same later
    · rw [if_pos (same ▸ List.mem_cons_self)] at inv
      exact inv.reached_stop
    · rw [if_pos (List.mem_cons_of_mem _ later)] at inv
      exact inv
    · rw [if_neg fun either => (List.mem_cons.mp either).elim same later] at inv
      exact inv

omit [DecidableEq ι] in
theorem terminateFrom_main {rest : List ι} {main : MainPlace ι} (suffix : rest <:+ s.accels)
    (ready : ∀ accel ∈ s.accels, (s.threads accel).readyToServe = true) :
    MainInv { s with main := main } (terminateFrom s.accels rest) := by
  cases rest with
  | nil => exact ⟨List.Subset.refl _, ready⟩
  | cons now rest => exact ⟨suffix, ready⟩

/-- An access of `main` in `accelThread::terminate`. -/
theorem SystemInv.terminated (inv : SystemInv arch s) {now : ι} {rest : List ι}
    {place : TerminatePlace} {next : Option TerminatePlace}
    (main : s.main = .terminating now rest place)
    (fits : AccessFits arch (s.threads now) .main)
    (step : terminateNext arch (s.threads now) place = some (th, next)) :
    SystemInv arch { s.set now th with main := goOn s.accels now rest next } := by
  have suffix : (now :: rest) <:+ s.accels ∧
      ∀ accel ∈ s.accels, (s.threads accel).readyToServe = true := by
    have known := inv.main
    rw [main] at known
    exact known
  have member : now ∈ s.accels := suffix.1.subset List.mem_cons_self
  have apart : now ∉ rest := (List.nodup_cons.mp (inv.distinct.sublist suffix.1.sublist)).1
  have thread : ThreadInv arch (statusOf next) th := by
    have known := inv.threads now member
    rw [main, show (MainPlace.terminating now rest place).status now = .reached place from
      if_pos rfl] at known
    exact terminateNext_keeps known fits step
  have others : ∀ accel ∈ s.accels, accel ≠ now →
      ThreadInv arch (if accel ∈ rest then .untouched else .terminated) (s.threads accel) := by
    intro accel member apart
    have known := inv.threads accel member
    rw [main, show (MainPlace.terminating now rest place).status accel =
      if accel ∈ rest then .untouched else .terminated from if_neg apart] at known
    exact known
  have ready : ∀ accel ∈ s.accels, ((s.set now th).threads accel).readyToServe = true := by
    intro accel member
    rw [System.set_threads]
    split_ifs
    · rw [(terminateNext_frame step).2]
      exact suffix.2 now (suffix.1.subset List.mem_cons_self)
    · exact suffix.2 accel member
  cases next with
  | some place' =>
    refine ⟨inv.distinct, fun accel member => ?_, suffix.1, ready⟩
    show ThreadInv arch (if accel = now then .reached place' else if accel ∈ rest then .untouched
      else .terminated) ((s.set now th).threads accel)
    rw [System.set_threads]
    split_ifs with same later
    · exact thread
    · have known := others accel member same
      rw [if_pos later] at known
      exact known
    · have known := others accel member same
      rw [if_neg later] at known
      exact known
  | none =>
    have after : ∀ accel ∈ s.accels,
        ThreadInv arch (if accel ∈ rest then .untouched else .terminated)
          ((s.set now th).threads accel) := by
      intro accel member
      rw [System.set_threads]
      split_ifs with later same same
      · exact absurd (same ▸ later) apart
      · have known := others accel member same
        rw [if_pos later] at known
        exact known
      · exact thread
      · have known := others accel member same
        rw [if_neg later] at known
        exact known
    exact ⟨inv.distinct, terminateFrom_status after,
      terminateFrom_main (s := s.set now th) ((List.suffix_cons now rest).trans suffix.1) ready⟩

/-- **Every move keeps the invariant.** -/
theorem controller_keeps (inv : SystemInv arch s) {move : Move ι} (fits : MoveFits arch s move)
    (step : controllerStep arch s move = some t) : SystemInv arch t := by
  cases move with
  | interrupt =>
    simp only [controllerStep] at step
    split at step
    · rename_i main
      cases step
      have ready : ∀ accel ∈ s.accels, (s.threads accel).readyToServe = true :=
        fun accel member => inv.ready (by rw [main]; exact nofun) member
      refine ⟨inv.distinct, terminateFrom_status fun accel member => ?_,
        terminateFrom_main List.suffix_rfl ready⟩
      have known := inv.threads accel member
      rw [main] at known
      rw [if_pos member]
      exact known
    · cases step
  | main =>
    change mainNext arch s s.main = some t at step
    have known := inv.main
    have threads := inv.threads
    cases main : s.main with
    | spawning rest =>
      rw [main] at step known threads
      cases rest with
      | nil =>
        cases step
        exact ⟨inv.distinct, threads,
          fun accel member => (known accel member).resolve_left List.not_mem_nil⟩
      | cons now rest =>
        simp only [mainNext] at step
        split_ifs at step with ready
        cases step
        refine ⟨inv.distinct, threads, fun accel member => ?_⟩
        rcases known accel member with waits | was
        · rcases List.mem_cons.mp waits with rfl | later
          · exact .inr ready
          · exact .inl later
        · exact .inr was
    | serving | finished =>
      rw [main] at step
      cases step
    | terminating now rest place =>
      rw [main] at step
      obtain ⟨⟨th, next⟩, access, rfl⟩ := Option.map_eq_some_iff.mp step
      have fits' : AccessFits arch (s.threads now) .main := by
        unfold MoveFits at fits
        rw [main] at fits
        exact fits
      exact inv.terminated main fits' access
    | joining rest =>
      rw [main] at step known threads
      cases rest with
      | nil =>
        cases step
        exact ⟨inv.distinct, threads, known.2⟩
      | cons now rest =>
        simp only [mainNext] at step
        split_ifs at step
        cases step
        exact ⟨inv.distinct, threads, fun accel member => known.1 (List.mem_cons_of_mem _ member),
          known.2⟩
  | start accel ok =>
    simp only [controllerStep] at step
    by_cases starting : (s.threads accel).place = .starting
    · rw [if_pos starting] at step
      cases step
      refine inv.set (fun member ready => ?_) fun thread => ?_
      · exact absurd starting ((inv.threads accel member).started ready)
      · exact thread.starts starting ok
    · rw [if_neg starting] at step
      cases step
  | worker accel =>
    obtain ⟨th, work, rfl⟩ := Option.map_eq_some_iff.mp step
    have works := workFunc_works work
    exact inv.set (fun _ ready => (works_ready works).trans ready)
      fun thread => works_keeps thread (fun _ _ => fits) works
  | startTask accel =>
    obtain ⟨th, starts, rfl⟩ := Option.map_eq_some_iff.mp step
    have works : Works arch (s.threads accel) th := startTask_works starts
    unfold startTask at starts
    split_ifs at starts with place
    exact inv.set (fun _ ready => (works_ready works).trans ready)
      fun thread => works_keeps thread (fun other _ => absurd place other) works
  | endTask accel =>
    obtain ⟨th, ends, rfl⟩ := Option.map_eq_some_iff.mp step
    have works : Works arch (s.threads accel) th := endTask_works ends
    unfold endTask at ends
    split_ifs at ends with place
    exact inv.set (fun _ ready => (works_ready works).trans ready)
      fun thread => works_keeps thread (fun _ other => absurd place other) works
  | spurious accel =>
    obtain ⟨th, access, rfl⟩ := Option.map_eq_some_iff.mp step
    refine inv.set (fun _ ready => (access_ready access).trans ready) fun thread => ?_
    refine thread.accessed fits (access_inside ?_ access) ?_ access
    · exact nofun
    · exact nofun
  | other accel n kind =>
    simp only [controllerStep] at step
    split_ifs at step with refused
    obtain ⟨th, access, rfl⟩ := Option.map_eq_some_iff.mp step
    refine inv.set (fun _ ready => (access_ready access).trans ready) fun thread => ?_
    cases kind with
    | call op =>
      refine thread.other_calls fits ?_ access
      rintro rfl
      exact refused (.inr rfl)
    | next =>
      refine thread.accessed fits (access_inside ?_ access) ?_ access
      · exact nofun
      · exact nofun
    | spurious =>
      refine thread.accessed fits (access_inside ?_ access) ?_ access
      · exact nofun
      · exact nofun

/-! ### The end of the controller -/

/-- `main` is in `deleteThreads`, or behind it. -/
def MainPlace.Stopping : MainPlace ι → Prop
  | .terminating _ _ _ | .joining _ | .finished => True
  | .spawning _ | .serving => False

/-- The accelerator whose thread `main` is at. -/
def MainPlace.at? : MainPlace ι → Option ι
  | .terminating accel _ _ | .joining (accel :: _) => some accel
  | .spawning _ | .serving | .joining [] | .finished => none

/-- The moves that `main` still makes in `deleteThreads`. -/
def MainPlace.left (s : System ι) : MainPlace ι → Nat
  | .terminating accel rest place =>
    place.left (s.threads accel) + (11 * rest.length + (s.accels.length + 1))
  | .joining rest => rest.length + 1
  | .spawning _ | .serving | .finished => 0

/-- The threads that were joined have exited. -/
def Joined (s : System ι) : MainPlace ι → Prop
  | .joining rest => ∀ accel ∈ s.accels, accel ∉ rest → (s.threads accel).place = .exited
  | .finished => ∀ accel ∈ s.accels, (s.threads accel).place = .exited
  | .spawning _ | .serving | .terminating _ _ _ => True

/-- The thread of `accel` serves a task, which need not return, or it can go on, or somebody who has
the lock of the accelerator can. -/
def Unstuck (arch : CondArch) (s : System ι) (accel : ι) : Prop :=
  (s.threads accel).place = .serving ∨ (controllerStep arch s (.worker accel)).isSome ∨
    ∃ n, (s.threads accel).cond.holder = some (.other n) ∧
      (controllerStep arch s (.other accel n .next)).isSome

def Move.ofMain : Move ι → Bool
  | .main => true
  | _ => false

/-- A move of the thread of `accel`. -/
def Move.ofThread (accel : ι) : Move ι → Bool
  | .worker now | .startTask now | .endTask now => decide (now = accel)
  | _ => false

/-- An access of somebody else to its accelerator. -/
def Move.ofOthers (accel : ι) : Move ι → Bool
  | .other now _ _ => decide (now = accel)
  | _ => false

/-- What a move that is none of `main` changes. -/
inductive Touched (arch : CondArch) (s : System ι) (t : System ι) : Move ι → Prop
  | starts {accel : ι} {ok : Bool} (starting : (s.threads accel).place = .starting)
    (after : t = s.set accel { s.threads accel with
      place := if ok then .head else .exited, readyToServe := ok }) :
    Touched arch s t (.start accel ok)
  | works {accel : ι} {th : AccelThread} {move : Move ι}
    (mine : move = .worker accel ∨ move = .startTask accel ∨ move = .endTask accel)
    (step : Works arch (s.threads accel) th) (after : t = s.set accel th) : Touched arch s t move
  | wakes {accel : ι} {th : AccelThread}
    (step : (s.threads accel).access arch .worker .spurious = some th)
    (after : t = s.set accel th) : Touched arch s t (.spurious accel)
  | calls {accel : ι} {n : Nat} {kind : MonitorMove AccelOp} {th : AccelThread}
    (step : (s.threads accel).access arch (.other n) kind = some th)
    (after : t = s.set accel th) : Touched arch s t (.other accel n kind)

/-- A move that is none of `main`. -/
theorem controllerStep_touched {move : Move ι} (step : controllerStep arch s move = some t)
    (others : move ≠ .main) (stopping : s.main.Stopping) : Touched arch s t move := by
  cases move with
  | main => exact absurd rfl others
  | interrupt =>
    simp only [controllerStep] at step
    split at step
    · rename_i serving
      rw [serving] at stopping
      exact stopping.elim
    · cases step
  | start accel ok =>
    simp only [controllerStep] at step
    by_cases starting : (s.threads accel).place = .starting
    · rw [if_pos starting] at step
      cases step
      exact .starts starting rfl
    · rw [if_neg starting] at step
      cases step
  | worker accel =>
    obtain ⟨th, work, rfl⟩ := Option.map_eq_some_iff.mp step
    exact .works (.inl rfl) (workFunc_works work) rfl
  | startTask accel =>
    obtain ⟨th, starts, rfl⟩ := Option.map_eq_some_iff.mp step
    exact .works (.inr (.inl rfl)) (startTask_works starts) rfl
  | endTask accel =>
    obtain ⟨th, ends, rfl⟩ := Option.map_eq_some_iff.mp step
    exact .works (.inr (.inr rfl)) (endTask_works ends) rfl
  | spurious accel =>
    obtain ⟨th, access, rfl⟩ := Option.map_eq_some_iff.mp step
    exact .wakes access rfl
  | other accel n kind =>
    simp only [controllerStep] at step
    split_ifs at step
    obtain ⟨th, access, rfl⟩ := Option.map_eq_some_iff.mp step
    exact .calls access rfl

/-- What `main` waits for in `deleteThreads`. -/
theorem SystemInv.unstuck (inv : SystemInv arch s) (member : accel ∈ s.accels)
    (stopping : s.main.Stopping) (moves : (s.threads accel).Moves arch) : Unstuck arch s accel := by
  have ready : (s.threads accel).readyToServe = true := by
    refine inv.ready (fun rest spawning => ?_) member
    rw [spawning] at stopping
    exact stopping
  have started := (inv.threads accel member).started ready
  rcases moves with serving | moves | ⟨n, has, moves⟩
  · exact .inl serving
  · right; left
    show ((workFunc arch (s.threads accel)).map _).isSome
    rw [Option.isSome_map]
    exact moves
  · refine .inr (.inr ⟨n, has, ?_⟩)
    simp only [controllerStep]
    rw [if_neg (by simp [started]), Option.isSome_map]
    exact moves

/-- **Nobody is stuck in `deleteThreads`.** -/
theorem SystemInv.stopping_moves (inv : SystemInv arch s) (stopping : s.main.Stopping) :
    s.main = .finished ∨ (controllerStep arch s .main).isSome ∨
      ∃ accel, s.main.at? = some accel ∧ Unstuck arch s accel := by
  have known := inv.main
  show _ ∨ (mainNext arch s s.main).isSome ∨ _
  cases main : s.main with
  | spawning rest | serving =>
    rw [main] at stopping
    exact stopping.elim
  | finished => exact .inl rfl
  | terminating now rest place =>
    rw [main] at known
    have member : now ∈ s.accels := known.1.subset List.mem_cons_self
    have thread := inv.threads now member
    rw [main, show (MainPlace.terminating now rest place).status now = .reached place from
      if_pos rfl] at thread
    rcases thread.reached_moves with moves | moves
    · right; left
      simp only [mainNext]
      rw [Option.isSome_map]
      exact moves
    · exact .inr (.inr ⟨now, rfl, inv.unstuck member stopping moves⟩)
  | joining rest =>
    rw [main] at known
    cases rest with
    | nil => exact .inr (.inl rfl)
    | cons now rest =>
      have member : now ∈ s.accels := known.1 List.mem_cons_self
      have thread := inv.threads now member
      rw [main] at thread
      by_cases exited : (s.threads now).place = .exited
      · right; left
        simp only [mainNext]
        rw [if_pos exited]
        rfl
      · have started := thread.started (known.2 now member)
        have moves := thread.terminated_moves started exited
        exact .inr (.inr ⟨now, rfl, inv.unstuck member stopping moves⟩)

omit [DecidableEq ι] in
theorem terminateFrom_stopping {accels : List ι} (rest : List ι) :
    (terminateFrom accels rest).Stopping := by
  cases rest <;> trivial

omit [DecidableEq ι] in
theorem terminateFrom_left (rest : List ι) :
    (terminateFrom s.accels rest).left s ≤ 11 * rest.length + (s.accels.length + 1) := by
  cases rest with
  | nil => exact Nat.le_add_left _ _
  | cons now rest =>
    show 11 + (11 * rest.length + _) ≤ 11 * (rest.length + 1) + _
    omega

/-- A move of a thread does not delay `main`. -/
theorem SystemInv.left_set (inv : SystemInv arch s)
    (le : ThreadInv arch (s.main.status accel) (s.threads accel) →
      th.cond.left .main ≤ (s.threads accel).cond.left .main) :
    s.main.left (s.set accel th) ≤ s.main.left s := by
  have known := inv.main
  have thread := inv.threads accel
  revert le thread known
  cases s.main with
  | terminating now rest place =>
    intro le known thread
    refine Nat.add_le_add_right ?_ _
    rw [System.set_threads]
    split_ifs with same
    · subst same
      have shorter := le (thread (known.1.subset List.mem_cons_self))
      cases place with
      | adding => exact Nat.add_le_add_left shorter 3
      | _ => exact Nat.le_refl _
    · exact Nat.le_refl _
  | _ =>
    intros
    exact Nat.le_refl _

theorem Touched.accels {move : Move ι} (touched : Touched arch s t move) :
    t.accels = s.accels ∧ t.main = s.main := by
  cases touched with
  | starts starting after | works mine work after | wakes access after | calls access after =>
    rw [after]
    exact ⟨rfl, rfl⟩

/-- **Every move of `main` brings it nearer to its end, and no other move delays it.** -/
theorem controllerStep_main_left (inv : SystemInv arch s) (stopping : s.main.Stopping)
    {move : Move ι} (step : controllerStep arch s move = some t) :
    t.accels = s.accels ∧ t.main.Stopping ∧ t.main.left t + move.ofMain.toNat ≤ s.main.left s := by
  by_cases mine : move = .main
  · subst mine
    change mainNext arch s s.main = some t at step
    have threads := inv.threads
    have known := inv.main
    cases main : s.main with
    | spawning rest | serving =>
      rw [main] at stopping
      exact stopping.elim
    | finished =>
      rw [main] at step
      cases step
    | joining rest =>
      rw [main] at step
      cases rest with
      | nil =>
        cases step
        exact ⟨rfl, trivial, Nat.le_refl 1⟩
      | cons now rest =>
        simp only [mainNext] at step
        split_ifs at step
        cases step
        exact ⟨rfl, trivial, Nat.le_refl _⟩
    | terminating now rest place =>
      rw [main] at step known threads
      obtain ⟨⟨th, next⟩, access, rfl⟩ := Option.map_eq_some_iff.mp step
      have thread := threads now (known.1.subset List.mem_cons_self)
      rw [show (MainPlace.terminating now rest place).status now = .reached place from
        if_pos rfl] at thread
      have nearer := terminateNext_left thread access
      cases next with
      | some place' =>
        refine ⟨rfl, trivial, ?_⟩
        show (place'.left ((s.set now th).threads now) + _) + 1 ≤ place.left (s.threads now) + _
        rw [System.set_threads, if_pos rfl]
        have nearer : place'.left th < place.left (s.threads now) := nearer
        show (place'.left th + (11 * rest.length + (s.accels.length + 1))) + 1 ≤
          place.left (s.threads now) + (11 * rest.length + (s.accels.length + 1))
        omega
      | none =>
        have nearer : 0 < place.left (s.threads now) := nearer
        have bound := terminateFrom_left (s := { s.set now th with
          main := goOn s.accels now rest none }) rest
        refine ⟨rfl, terminateFrom_stopping rest, Nat.le_trans (Nat.add_le_add_right bound 1) ?_⟩
        show 11 * rest.length + (s.accels.length + 1) + 1 ≤
          place.left (s.threads now) + (11 * rest.length + (s.accels.length + 1))
        omega
  · have touched := controllerStep_touched step mine stopping
    have none : move.ofMain = false := by
      cases move with
      | main => exact absurd rfl mine
      | _ => rfl
    obtain ⟨accels, main⟩ := touched.accels
    rw [none, main]
    refine ⟨accels, stopping, ?_⟩
    have apart : Caller.main ≠ .worker := nofun
    cases touched with
    | starts starting after =>
      rw [after]
      exact inv.left_set fun _ => Nat.le_refl _
    | works mine work after =>
      rw [after]
      exact inv.left_set fun thread => works_main_left thread work
    | wakes access after =>
      rw [after]
      exact inv.left_set fun thread => thread.main_left apart access
    | calls access after =>
      rw [after]
      exact inv.left_set fun thread => thread.main_left Caller.noConfusion access

/-- A thread that has exited does not come back. -/
theorem Touched.exited {move : Move ι} (touched : Touched arch s t move) {other : ι}
    (exited : (s.threads other).place = .exited) : (t.threads other).place = .exited := by
  have kept : ∀ {accel : ι} {th : AccelThread}, t = s.set accel th →
      ((s.threads accel).place = .exited → th.place = .exited) →
      (t.threads other).place = .exited := by
    intro accel th after here
    rw [after, System.set_threads]
    split_ifs with same
    · exact here (same ▸ exited)
    · exact exited
  cases touched with
  | starts starting after =>
    exact kept after fun gone => absurd (starting.symm.trans gone) WorkerPlace.noConfusion
  | works mine work after => exact kept after fun gone => absurd gone work.runs
  | wakes access after =>
    obtain ⟨cond, -, rfl⟩ := Option.map_eq_some_iff.mp access
    exact kept after id
  | calls access after =>
    obtain ⟨cond, -, rfl⟩ := Option.map_eq_some_iff.mp access
    exact kept after id

omit [DecidableEq ι] in
theorem terminateFrom_joined {accels : List ι} (rest : List ι) (same : s.accels = accels) :
    Joined s (terminateFrom accels rest) := by
  cases rest with
  | nil => exact fun accel member done => absurd (same ▸ member) done
  | cons now rest => trivial

/-- **Only threads that have exited are joined.** -/
theorem joined_keeps (stopping : s.main.Stopping) (joined : Joined s s.main) {move : Move ι}
    (step : controllerStep arch s move = some t) : Joined t t.main := by
  by_cases mine : move = .main
  · subst mine
    change mainNext arch s s.main = some t at step
    cases main : s.main with
    | spawning rest | serving =>
      rw [main] at stopping
      exact stopping.elim
    | finished =>
      rw [main] at step
      cases step
    | joining rest =>
      rw [main] at step joined
      cases rest with
      | nil =>
        cases step
        exact fun accel member => joined accel member List.not_mem_nil
      | cons now rest =>
        simp only [mainNext] at step
        split_ifs at step with exited
        cases step
        intro accel member done
        by_cases same : accel = now
        · subst same
          exact exited
        · exact joined accel member fun either => (List.mem_cons.mp either).elim same done
    | terminating now rest place =>
      rw [main] at step
      obtain ⟨⟨th, next⟩, access, rfl⟩ := Option.map_eq_some_iff.mp step
      cases next with
      | some place' => trivial
      | none => exact terminateFrom_joined rest rfl
  · have touched := controllerStep_touched step mine stopping
    obtain ⟨accels, same⟩ := touched.accels
    rw [same]
    cases main : s.main with
    | joining rest =>
      rw [main] at joined
      intro accel member done
      exact touched.exited (joined accel (accels ▸ member) done)
    | finished =>
      rw [main] at joined
      exact fun accel member => touched.exited (joined accel (accels ▸ member))
    | _ => trivial

omit [DecidableEq ι] in
theorem terminateFrom_late {accels rest : List ι} [DecidableEq ι] (later : accel ∉ rest) :
    (terminateFrom accels rest).status accel = .terminated := by
  cases rest with
  | nil => rfl
  | cons now rest =>
    have away : accel ≠ now := fun same => later (same ▸ List.mem_cons_self)
    have after : accel ∉ rest := fun member => later (List.mem_cons_of_mem _ member)
    exact (if_neg away).trans (if_neg after)

/-- `main` is behind `spawnThreads` once a thread is terminated. -/
theorem MainPlace.stopping_of_late {place : MainPlace ι} (late : place.status accel = .terminated) :
    place.Stopping := by
  cases place with
  | spawning rest | serving => cases late
  | _ => trivial

/-- `main` does not touch a thread again that it has terminated. -/
theorem mainNext_late (late : s.main.status accel = .terminated)
    (step : mainNext arch s s.main = some t) :
    t.main.status accel = .terminated ∧ t.threads accel = s.threads accel := by
  cases main : s.main with
  | spawning rest | serving =>
    rw [main] at late
    cases late
  | finished =>
    rw [main] at step
    cases step
  | joining rest =>
    rw [main] at step
    cases rest with
    | nil =>
      cases step
      exact ⟨rfl, rfl⟩
    | cons now rest =>
      simp only [mainNext] at step
      split_ifs at step
      cases step
      exact ⟨rfl, rfl⟩
  | terminating now rest place =>
    rw [main] at step late
    obtain ⟨⟨th, next⟩, access, rfl⟩ := Option.map_eq_some_iff.mp step
    have status : (if accel = now then Status.reached place
        else if accel ∈ rest then .untouched else .terminated) = .terminated := late
    split_ifs at status with same later
    refine ⟨?_, (System.set_threads accel).trans (if_neg same)⟩
    cases next with
    | some place' => exact (if_neg same).trans (if_neg later)
    | none => exact terminateFrom_late later

/-- **A terminated thread after a move.** Its own moves bring it nearer to its end, an access of
somebody else delays it by a swap that fails, and it begins no round. -/
theorem controllerStep_late (inv : SystemInv arch s) (member : accel ∈ s.accels)
    (late : s.main.status accel = .terminated) {move : Move ι}
    (step : controllerStep arch s move = some t) :
    t.main.status accel = .terminated ∧
      (t.threads accel).begun = (s.threads accel).begun ∧
      (t.threads accel).left + (move.ofThread accel).toNat ≤
        (s.threads accel).left + arch.retries * (move.ofOthers accel).toNat := by
  have thread := inv.threads accel member
  rw [late] at thread
  by_cases mine : move = .main
  · subst mine
    obtain ⟨late, same⟩ := mainNext_late late step
    rw [same]
    exact ⟨late, rfl, Nat.le_add_right _ _⟩
  · have touched := controllerStep_touched step mine (MainPlace.stopping_of_late late)
    rw [touched.accels.2]
    refine ⟨late, ?_⟩
    have kept : ∀ {now : ι} {th : AccelThread}, t = s.set now th → now ≠ accel →
        t.threads accel = s.threads accel := fun after apart => by
      rw [after, System.set_threads, if_neg (Ne.symm apart)]
    have made : ∀ {th : AccelThread}, t = s.set accel th → t.threads accel = th := fun after => by
      rw [after, System.set_threads, if_pos rfl]
    have counted : ∀ {now : ι}, now ≠ accel → (decide (now = accel)).toNat = 0 := fun apart => by
      rw [decide_eq_false apart]
      rfl
    cases touched with
    | @starts now ok starting after =>
      have away : now ≠ accel := by
        rintro rfl
        have ready := inv.ready (fun rest spawning => by rw [spawning] at late; cases late) member
        exact thread.started ready starting
      rw [kept after away]
      exact ⟨rfl, Nat.le_add_right _ _⟩
    | @works now th _ mine work after =>
      have ofThread : move.ofThread accel = decide (now = accel) := by
        rcases mine with rfl | rfl | rfl <;> rfl
      rw [ofThread]
      by_cases same : now = accel
      · subst same
        rw [made after, decide_eq_true rfl]
        refine ⟨works_begun (thread.stopped nofun nofun) work, ?_⟩
        exact Nat.le_trans (works_left thread work) (Nat.le_add_right _ _)
      · rw [kept after same, counted same]
        exact ⟨rfl, Nat.le_add_right _ _⟩
    | @wakes now th access after =>
      by_cases same : now = accel
      · subst same
        rw [made after]
        exact ⟨access_begun access, Nat.le_trans (left_spurious access) (Nat.le_add_right _ _)⟩
      · rw [kept after same]
        exact ⟨rfl, Nat.le_add_right _ _⟩
    | @calls now n kind th access after =>
      by_cases same : now = accel
      · subst same
        rw [made after]
        refine ⟨access_begun access, ?_⟩
        show th.left ≤ _ + arch.retries * (decide (now = now)).toNat
        rw [decide_eq_true rfl]
        refine Nat.le_trans (thread.left_others ?_ access) (Nat.le_of_eq ?_)
        · exact Caller.noConfusion
        · exact congrArg _ (Nat.mul_one _).symm
      · rw [kept after same]
        exact ⟨rfl, Nat.le_add_right _ _⟩

theorem mainNext_accels {place : MainPlace ι} (step : mainNext arch s place = some t) :
    t.accels = s.accels := by
  cases place with
  | serving | finished => cases step
  | spawning rest | joining rest =>
    cases rest with
    | nil =>
      cases step
      rfl
    | cons now rest =>
      simp only [mainNext] at step
      split_ifs at step
      cases step
      rfl
  | terminating now rest place =>
    obtain ⟨next, access, rfl⟩ := Option.map_eq_some_iff.mp step
    rfl

/-- The vector of the accelerators does not change. -/
theorem controllerStep_accels {move : Move ι} (step : controllerStep arch s move = some t) :
    t.accels = s.accels := by
  cases move with
  | main => exact mainNext_accels step
  | interrupt =>
    simp only [controllerStep] at step
    split at step
    · cases step
      rfl
    · cases step
  | start accel ok =>
    simp only [controllerStep] at step
    by_cases starting : (s.threads accel).place = .starting
    · rw [if_pos starting] at step
      cases step
      rfl
    · rw [if_neg starting] at step
      cases step
  | worker accel | startTask accel | endTask accel | spurious accel =>
    obtain ⟨th, access, rfl⟩ := Option.map_eq_some_iff.mp step
    rfl
  | other accel n kind =>
    simp only [controllerStep] at step
    split_ifs at step
    obtain ⟨th, access, rfl⟩ := Option.map_eq_some_iff.mp step
    rfl

/-- What is known of every run. -/
theorem controller_run {accels : List ι} {preference : ι → JobPreference} {moves : List (Move ι)}
    (distinct : accels.Nodup)
    (run : exec (controllerStep arch) (spawnThreads accels preference) moves = some s)
    (fits : Guarded (controllerStep arch) (MoveFits arch) (spawnThreads accels preference) moves) :
    SystemInv arch s ∧ s.accels = accels := by
  have start : SystemInv arch (spawnThreads accels preference) ∧
      (spawnThreads accels preference).accels = accels :=
    ⟨spawnThreads_inv arch accels preference distinct, rfl⟩
  have keeps : ∀ (s : System ι) move t, SystemInv arch s ∧ s.accels = accels →
      MoveFits arch s move → controllerStep arch s move = some t →
        SystemInv arch t ∧ t.accels = accels :=
    fun s move t known fits step =>
      ⟨controller_keeps known.1 fits step, (controllerStep_accels step).trans known.2⟩
  exact exec_guarded keeps start fits run

/-- What is known in `deleteThreads`. -/
structure StoppingInv (arch : CondArch) (accels : List ι) (s : System ι) : Prop where
  system : SystemInv arch s
  accels : s.accels = accels
  stopping : s.main.Stopping
  joined : Joined s s.main

/-- `main` sees `shouldExit`. -/
theorem interrupt_stops {accels : List ι} (inv : SystemInv arch s) (same : s.accels = accels)
    (step : controllerStep arch s .interrupt = some t) :
    StoppingInv arch accels t ∧ t.main.left t ≤ 12 * accels.length + 1 := by
  subst same
  have fits : MoveFits arch s .interrupt := trivial
  have kept := controller_keeps inv fits step
  simp only [controllerStep] at step
  split at step
  · cases step
    refine ⟨⟨kept, rfl, terminateFrom_stopping _, terminateFrom_joined _ rfl⟩, ?_⟩
    have bound : (terminateFrom s.accels s.accels).left { s with
        main := terminateFrom s.accels s.accels } ≤ 11 * s.accels.length + (s.accels.length + 1) :=
      terminateFrom_left s.accels
    exact Nat.le_trans bound (by omega)
  · cases step

/-- **The controller comes to its end.** From the interrupt on, `main` makes at most twelve moves
for an accelerator and one more, whatever the others do. Until it has finished, it can go on, or the
thread that it is at serves a task or can go on, or somebody who has the lock of the accelerator
can. When it has finished, all threads have exited. -/
theorem shutdown_ends (arch : CondArch) (accels : List ι) (preference : ι → JobPreference)
    (moves more : List (Move ι)) (s t : System ι) (distinct : accels.Nodup)
    (run : exec (controllerStep arch) (spawnThreads accels preference) moves = some s)
    (fits : Guarded (controllerStep arch) (MoveFits arch) (spawnThreads accels preference) moves)
    (rest : exec (controllerStep arch) s (.interrupt :: more) = some t)
    (later : Guarded (controllerStep arch) (MoveFits arch) s (.interrupt :: more)) :
    more.countP Move.ofMain ≤ 12 * accels.length + 1 ∧
      (t.main = .finished ∨ (controllerStep arch t .main).isSome ∨
        ∃ accel, t.main.at? = some accel ∧ Unstuck arch t accel) ∧
      (t.main = .finished → ∀ accel ∈ accels, (t.threads accel).place = .exited) := by
  obtain ⟨inv, same⟩ := controller_run distinct run fits
  obtain ⟨u, interrupt, rest⟩ := exec_cons rest
  obtain ⟨stops, bound⟩ := interrupt_stops inv same interrupt
  have keeps : ∀ (s : System ι) move t, StoppingInv arch accels s → MoveFits arch s move →
      controllerStep arch s move = some t → StoppingInv arch accels t ∧
        t.main.left t + move.ofMain.toNat ≤ s.main.left s + 0 * (false).toNat := by
    intro s move t known fits step
    obtain ⟨kept, stopping, left⟩ :=
      controllerStep_main_left known.system known.stopping step
    exact ⟨⟨controller_keeps known.system fits step, kept.trans known.accels, stopping,
      joined_keeps known.stopping known.joined step⟩, left⟩
  have after : StoppingInv arch accels t :=
    exec_guarded (fun s move t known fits step => (keeps s move t known fits step).1) stops
      (later.2 u interrupt) rest
  have few : t.main.left t + more.countP Move.ofMain ≤
      u.main.left u + 0 * more.countP fun _ => false :=
    exec_measure keeps stops (later.2 u interrupt) rest
  refine ⟨?_, after.system.stopping_moves after.stopping, fun finished => ?_⟩
  · omega
  · have joined := after.joined
    rw [finished] at joined
    exact fun accel member => joined accel (after.accels ▸ member)

/-- One accelerator is served. -/
def servesOne : System Unit :=
  (exec (controllerStep .mutex) (spawnThreads [()] fun _ => .anyJob)
    [.start () true, .main, .main]).get (by decide)

/-- `main` terminates its thread and joins it. -/
def stopOne : List (Move Unit) :=
  List.replicate 11 Move.main ++ [Move.worker (), Move.main, Move.main]

theorem shutdown_ends_at_one : ∃ t, exec (controllerStep .mutex) servesOne
    (.interrupt :: stopOne) = some t ∧ t.main = .finished ∧ (t.threads ()).place = .exited ∧
      stopOne.countP Move.ofMain = 13 ∧ stopOne.countP Move.ofMain ≤ 12 * 1 + 1 := by
  have main : (exec (controllerStep .mutex) servesOne (.interrupt :: stopOne)).map System.main =
      some .finished := by decide
  obtain ⟨t, rest, finished⟩ := Option.map_eq_some_iff.mp main
  obtain ⟨few, -, exited⟩ := shutdown_ends .mutex [()] (fun _ => .anyJob)
    [.start () true, .main, .main] stopOne servesOne t (List.nodup_singleton ())
    (Option.some_get _).symm (by decide) rest (by decide)
  exact ⟨t, rest, finished, exited finished () List.mem_cons_self, by decide, few⟩

/-- What is known of a thread that is terminated. -/
structure LateInv (arch : CondArch) (accel : ι) (s : System ι) : Prop where
  system : SystemInv arch s
  member : accel ∈ s.accels
  late : s.main.status accel = .terminated

theorem lateInv_keeps (inv : LateInv arch accel s) {move : Move ι} (fits : MoveFits arch s move)
    (step : controllerStep arch s move = some t) : LateInv arch accel t where
  system := controller_keeps inv.system fits step
  member := controllerStep_accels step ▸ inv.member
  late := (controllerStep_late inv.system inv.member inv.late step).1

/-- **A thread that is terminated ends.** After `accelThread::terminate` it makes at most 21 moves,
and two more for each access of somebody else to its accelerator on the spin backend; it begins no
round. Until it has exited, it serves a task or can go on, or somebody who has the lock of its
accelerator can. -/
theorem terminated_thread_ends (arch : CondArch) (accels : List ι) (preference : ι → JobPreference)
    (moves more : List (Move ι)) (s t : System ι) (accel : ι) (distinct : accels.Nodup)
    (member : accel ∈ accels)
    (run : exec (controllerStep arch) (spawnThreads accels preference) moves = some s)
    (fits : Guarded (controllerStep arch) (MoveFits arch) (spawnThreads accels preference) moves)
    (late : s.main.status accel = .terminated)
    (rest : exec (controllerStep arch) s more = some t)
    (later : Guarded (controllerStep arch) (MoveFits arch) s more) :
    more.countP (Move.ofThread accel) ≤ 21 + arch.retries * more.countP (Move.ofOthers accel) ∧
      (t.threads accel).begun = (s.threads accel).begun ∧
      ((t.threads accel).place = .exited ∨ Unstuck arch t accel) := by
  obtain ⟨inv, rfl⟩ := controller_run distinct run fits
  have first : LateInv arch accel s := ⟨inv, member, late⟩
  have keeps : ∀ (u : System ι) move v, LateInv arch accel u → MoveFits arch u move →
      controllerStep arch u move = some v → LateInv arch accel v ∧
        (v.threads accel).left + (move.ofThread accel).toNat ≤
          (u.threads accel).left + arch.retries * (move.ofOthers accel).toNat :=
    fun u move v inv fits step => ⟨lateInv_keeps inv fits step,
      (controllerStep_late inv.system inv.member inv.late step).2.2⟩
  have few : (t.threads accel).left + more.countP (Move.ofThread accel) ≤
      (s.threads accel).left + arch.retries * more.countP (Move.ofOthers accel) :=
    exec_measure keeps first later rest
  have begins : ∀ (u : System ι) move v,
      LateInv arch accel u ∧ (u.threads accel).begun = (s.threads accel).begun →
      MoveFits arch u move → controllerStep arch u move = some v →
      LateInv arch accel v ∧ (v.threads accel).begun = (s.threads accel).begun := by
    intro u move v known fits step
    obtain ⟨-, same, -⟩ := controllerStep_late known.1.system known.1.member known.1.late step
    exact ⟨lateInv_keeps known.1 fits step, same.trans known.2⟩
  obtain ⟨last, rounds⟩ := exec_guarded begins ⟨first, rfl⟩ later rest
  have short := (s.threads accel).left_le
  refine ⟨by omega, rounds, ?_⟩
  by_cases exited : (t.threads accel).place = .exited
  · exact .inl exited
  · have stopping := MainPlace.stopping_of_late last.late
    have thread := last.system.threads accel last.member
    rw [last.late] at thread
    have behind : ∀ rest, t.main ≠ .spawning rest := fun rest spawning => by
      rw [spawning] at stopping
      exact stopping
    have ready := last.system.ready behind last.member
    exact .inr (last.system.unstuck last.member stopping
      (thread.terminated_moves (thread.started ready) exited))

/-- A thread that is configured without jobs has served a task, and is locked out. -/
def servedOnce : List (Move Unit) :=
  [Move.start () true, Move.main, Move.main, Move.other () 0 (.call .addTask)] ++
    List.replicate 6 (Move.other () 0 .next) ++ List.replicate 17 (Move.worker ()) ++
      [Move.startTask (), Move.endTask (), Move.worker (), Move.worker ()]

/-- `main` has terminated it. -/
def terminatedOne : System Unit :=
  (exec (controllerStep .mutex) (spawnThreads [()] fun _ => .noJob)
    (servedOnce ++ .interrupt :: List.replicate 11 .main)).get (by decide)

theorem terminated_thread_ends_at_one : ∃ t : System Unit,
    exec (controllerStep .mutex) terminatedOne (List.replicate 17 (.worker ())) = some t ∧
      (t.threads ()).begun = (terminatedOne.threads ()).begun ∧
      ((t.threads ()).place = .exited ∨ Unstuck .mutex t ()) := by
  have run : exec (controllerStep .mutex) (spawnThreads [()] fun _ => .noJob)
      (servedOnce ++ .interrupt :: List.replicate 11 .main) = some terminatedOne :=
    (Option.some_get _).symm
  have fits : Guarded (controllerStep .mutex) (MoveFits .mutex) (spawnThreads [()] fun _ => .noJob)
      (servedOnce ++ .interrupt :: List.replicate 11 .main) := by decide
  have late : terminatedOne.main.status () = .terminated := by decide
  have later : Guarded (controllerStep .mutex) (MoveFits .mutex) terminatedOne
      (List.replicate 17 (.worker ())) := by decide
  have runs : (exec (controllerStep .mutex) terminatedOne
      (List.replicate 17 (.worker ()))).isSome := by decide
  obtain ⟨t, rest⟩ := Option.isSome_iff_exists.mp runs
  exact ⟨t, rest, (terminated_thread_ends .mutex [()] (fun _ => .noJob) _ _ terminatedOne t ()
    (List.nodup_singleton ()) List.mem_cons_self run fits late rest later).2⟩

/-! ### Threads without jobs -/

/-- The thread is behind `enable_mtx` in its round. -/
def WorkerPlace.behind : WorkerPlace → Nat
  | .update | .waiting | .snapshot | .assigned | .select => 1
  | .starting | .head | .gate | .gateLock | .serving | .exited => 0

/-- The rounds in which the thread has passed `enable_mtx`. -/
def AccelThread.passed (th : AccelThread) : Nat := th.rounds + th.place.behind

/-- What is known of a thread that is configured without jobs. -/
structure NoJobInv (th : AccelThread) : Prop where
  /-- It has passed `enable_mtx` once if it is locked, since nobody else locks or unlocks it. -/
  locked : th.jobPreference = .noJob → th.passed = th.enableMtx.toNat
  /-- It gets jobs after `stopExec` is set. -/
  after : th.jobPreference ≠ .noJob → th.stopExec = true ∧ th.begun ≤ 2

/-- The thread of `accel` is configured without jobs. -/
structure NoJobSystem (accel : ι) (s : System ι) : Prop where
  thread : NoJobInv (s.threads accel)
  stopped : ∀ rest place, s.main = .terminating accel rest place → place ≠ .stop →
    (s.threads accel).stopExec = true
  preferred : ∀ rest, s.main = .terminating accel rest .enable →
    (s.threads accel).jobPreference ≠ .noJob

theorem access_noJob {before after : AccelThread} {caller : Caller} {kind : MonitorMove AccelOp}
    (inv : NoJobInv before) (step : before.access arch caller kind = some after) :
    NoJobInv after := by
  obtain ⟨cond, -, rfl⟩ := Option.map_eq_some_iff.mp step
  exact ⟨inv.locked, inv.after⟩

theorem AccelThread.passed_at {before : AccelThread} {place : WorkerPlace}
    (here : before.place = place) : before.passed = before.rounds + place.behind :=
  congrArg (fun place => before.rounds + place.behind) here

/-- The rounds of a thread that has passed `enable_mtx` at most once. -/
theorem AccelThread.begun_le (before : AccelThread) : before.begun ≤ before.passed + 1 := by
  unfold AccelThread.begun AccelThread.passed
  split_ifs <;> omega

theorem works_noJob {before after : AccelThread} (inv : NoJobInv before)
    (works : Works arch before after) : NoJobInv after := by
  have begun : before.jobPreference ≠ .noJob → after.begun ≤ 2 := fun jobs => by
    rw [works_begun (inv.after jobs).1 works]
    exact (inv.after jobs).2
  cases works with
  | call which step =>
    obtain ⟨cond, -, rfl⟩ := Option.map_eq_some_iff.mp step
    refine ⟨fun noJob => ?_, fun jobs => ⟨(inv.after jobs).1, begun jobs⟩⟩
    have locked := inv.locked noJob
    rcases which with ⟨place, rfl, -⟩ | ⟨place, rfl, -⟩
    · rw [AccelThread.passed_at place] at locked
      exact locked
    · rw [AccelThread.passed_at place] at locked
      exact locked
  | access place inside step => exact access_noJob inv step
  | pass place job =>
    exact ⟨fun noJob => absurd noJob job, fun jobs => ⟨(inv.after jobs).1, begun jobs⟩⟩
  | lock place enabled =>
    refine ⟨fun noJob => ?_, fun jobs => ⟨(inv.after jobs).1, begun jobs⟩⟩
    have locked := inv.locked noJob
    rw [AccelThread.passed_at place, enabled] at locked
    exact congrArg Nat.succ locked
  | leave place | go place | hold place | taken place | listed place | look place | serve place
  | done place =>
    refine ⟨fun noJob => ?_, fun jobs => ⟨(inv.after jobs).1, begun jobs⟩⟩
    have locked := inv.locked noJob
    rw [AccelThread.passed_at place] at locked
    exact locked

/-- The invariant does not depend on the place before the first round. -/
theorem NoJobInv.starts {before : AccelThread} (inv : NoJobInv before)
    (starting : before.place = .starting) (ok : Bool) :
    NoJobInv { before with place := if ok then .head else .exited, readyToServe := ok } := by
  have place : (if ok then WorkerPlace.head else .exited).behind = 0 := by cases ok <;> rfl
  refine ⟨fun noJob => ?_, fun jobs => ⟨(inv.after jobs).1, ?_⟩⟩
  · have locked := inv.locked noJob
    rw [AccelThread.passed_at starting] at locked
    show before.rounds + (if ok then WorkerPlace.head else .exited).behind = before.enableMtx.toNat
    rw [place]
    exact locked
  · have begun := (inv.after jobs).2
    refine Nat.le_trans ?_ begun
    cases ok <;> exact Nat.le_add_right _ _

/-- `main` stops the thread before it gives it jobs, and gives it jobs before it enables it. -/
theorem terminateNext_noJob {before after : AccelThread} {place : TerminatePlace}
    {next : Option TerminatePlace} (inv : NoJobInv before)
    (stopped : place ≠ .stop → before.stopExec = true)
    (preferred : place = .enable → before.jobPreference ≠ .noJob)
    (step : terminateNext arch before place = some (after, next)) :
    NoJobInv after ∧ after.stopExec = true ∧
      (next = some .enable → after.jobPreference ≠ .noJob) := by
  cases place with
  | stop =>
    cases step
    exact ⟨⟨inv.locked, fun jobs => ⟨rfl, (inv.after jobs).2⟩⟩, rfl, nofun⟩
  | add =>
    obtain ⟨th', access, same⟩ := Option.map_eq_some_iff.mp step
    cases same
    have kept := access_noJob inv access
    obtain ⟨cond, -, rfl⟩ := Option.map_eq_some_iff.mp access
    exact ⟨kept, stopped nofun, nofun⟩
  | adding =>
    simp only [terminateNext] at step
    split_ifs at step
    · cases step
      exact ⟨inv, stopped nofun, nofun⟩
    · obtain ⟨th', access, same⟩ := Option.map_eq_some_iff.mp step
      cases same
      have kept := access_noJob inv access
      obtain ⟨cond, -, rfl⟩ := Option.map_eq_some_iff.mp access
      exact ⟨kept, stopped nofun, nofun⟩
  | prefer =>
    cases step
    refine ⟨⟨nofun, fun _ => ⟨stopped nofun, ?_⟩⟩, stopped nofun, fun _ => nofun⟩
    by_cases noJob : before.jobPreference = .noJob
    · have begun := before.begun_le
      have locked := inv.locked noJob
      have bit : before.enableMtx.toNat ≤ 1 := Bool.toNat_le _
      exact Nat.le_trans begun (by omega)
    · exact (inv.after noJob).2
  | enable =>
    cases step
    exact ⟨⟨fun noJob => absurd noJob (preferred rfl), inv.after⟩, stopped nofun, nofun⟩

omit [DecidableEq ι] in
theorem spawnThreads_noJob (accels : List ι) {preference : ι → JobPreference}
    (noJob : preference accel = .noJob) : NoJobSystem accel (spawnThreads accels preference) where
  thread := ⟨fun _ => rfl, fun jobs => absurd noJob jobs⟩
  stopped := nofun
  preferred := nofun

omit [DecidableEq ι] in
/-- `main` turns to the next thread. -/
theorem NoJobInv.turn (inv : NoJobInv (s.threads accel)) (accels rest : List ι) :
    NoJobSystem accel { s with main := terminateFrom accels rest } := by
  refine ⟨inv, fun later place main away => ?_, fun later main => ?_⟩
  · cases rest with
    | nil => cases main
    | cons next rest =>
      cases main
      exact absurd rfl away
  · cases rest with
    | nil => cases main
    | cons next rest => cases main

/-- A move of one thread, while `main` stays where it is. -/
theorem NoJobSystem.set (inv : NoJobSystem accel s) {now : ι} {th : AccelThread}
    (thread : now = accel → NoJobInv th ∧ th.stopExec = (s.threads now).stopExec ∧
      th.jobPreference = (s.threads now).jobPreference) : NoJobSystem accel (s.set now th) := by
  by_cases same : now = accel
  · subst same
    obtain ⟨kept, stop, preference⟩ := thread rfl
    have here : (s.set now th).threads now = th := (System.set_threads now).trans (if_pos rfl)
    refine ⟨?_, fun rest place main away => ?_, fun rest main => ?_⟩
    · rw [here]
      exact kept
    · rw [here, stop]
      exact inv.stopped rest place main away
    · rw [here, preference]
      exact inv.preferred rest main
  · have there : (s.set now th).threads accel = s.threads accel :=
      (System.set_threads accel).trans (if_neg (Ne.symm same))
    refine ⟨?_, fun rest place main away => ?_, fun rest main => ?_⟩
    · rw [there]
      exact inv.thread
    · rw [there]
      exact inv.stopped rest place main away
    · rw [there]
      exact inv.preferred rest main

/-- The access of a thread leaves what `main` sets. -/
theorem works_frame {before after : AccelThread} (works : Works arch before after) :
    after.stopExec = before.stopExec ∧ after.jobPreference = before.jobPreference := by
  cases works with
  | call which step =>
    obtain ⟨cond, -, rfl⟩ := Option.map_eq_some_iff.mp step
    exact ⟨rfl, rfl⟩
  | access place inside step =>
    obtain ⟨cond, -, rfl⟩ := Option.map_eq_some_iff.mp step
    exact ⟨rfl, rfl⟩
  | _ => exact ⟨rfl, rfl⟩

/-- **Every move keeps what is known of a thread without jobs.** -/
theorem noJob_keeps (inv : NoJobSystem accel s) {move : Move ι}
    (step : controllerStep arch s move = some t) : NoJobSystem accel t := by
  have access : ∀ {now : ι} {th : AccelThread} {caller : Caller} {kind : MonitorMove AccelOp},
      (s.threads now).access arch caller kind = some th → NoJobSystem accel (s.set now th) := by
    intro now th caller kind access
    refine inv.set fun same => ?_
    subst same
    have kept := access_noJob inv.thread access
    obtain ⟨cond, -, rfl⟩ := Option.map_eq_some_iff.mp access
    exact ⟨kept, rfl, rfl⟩
  have works : ∀ {now : ι} {th : AccelThread}, Works arch (s.threads now) th →
      NoJobSystem accel (s.set now th) := by
    intro now th works
    refine inv.set fun same => ?_
    subst same
    exact ⟨works_noJob inv.thread works, works_frame works⟩
  cases move with
  | interrupt =>
    simp only [controllerStep] at step
    split at step
    · cases step
      exact inv.thread.turn s.accels s.accels
    · cases step
  | start now ok =>
    simp only [controllerStep] at step
    by_cases starting : (s.threads now).place = .starting
    · rw [if_pos starting] at step
      cases step
      refine inv.set fun same => ?_
      subst same
      exact ⟨inv.thread.starts starting ok, rfl, rfl⟩
    · rw [if_neg starting] at step
      cases step
  | worker now =>
    obtain ⟨th, work, rfl⟩ := Option.map_eq_some_iff.mp step
    exact works (workFunc_works work)
  | startTask now =>
    obtain ⟨th, starts, rfl⟩ := Option.map_eq_some_iff.mp step
    exact works (startTask_works starts)
  | endTask now =>
    obtain ⟨th, ends, rfl⟩ := Option.map_eq_some_iff.mp step
    exact works (endTask_works ends)
  | spurious now =>
    obtain ⟨th, wakes, rfl⟩ := Option.map_eq_some_iff.mp step
    exact access wakes
  | other now n kind =>
    simp only [controllerStep] at step
    split_ifs at step
    obtain ⟨th, calls, rfl⟩ := Option.map_eq_some_iff.mp step
    exact access calls
  | main =>
    change mainNext arch s s.main = some t at step
    cases main : s.main with
    | serving | finished =>
      rw [main] at step
      cases step
    | spawning rest | joining rest =>
      rw [main] at step
      cases rest with
      | nil =>
        cases step
        exact ⟨inv.thread, nofun, nofun⟩
      | cons now rest =>
        simp only [mainNext] at step
        split_ifs at step
        cases step
        exact ⟨inv.thread, nofun, nofun⟩
    | terminating now rest place =>
      rw [main] at step
      obtain ⟨⟨th, next⟩, ends, rfl⟩ := Option.map_eq_some_iff.mp step
      by_cases same : now = accel
      · subst same
        obtain ⟨kept, stop, jobs⟩ := terminateNext_noJob inv.thread (inv.stopped rest place main)
          (fun enable => inv.preferred rest (enable ▸ main)) ends
        have here : (s.set now th).threads now = th := (System.set_threads now).trans (if_pos rfl)
        have kept : NoJobInv ((s.set now th).threads now) := by
          rw [here]
          exact kept
        cases next with
        | some place' =>
          refine ⟨kept, fun _ _ _ _ => ?_, fun rest' main' => ?_⟩
          · exact (congrArg AccelThread.stopExec here).trans stop
          · cases main'
            exact fun noJob => jobs rfl ((congrArg AccelThread.jobPreference here).symm.trans noJob)
        | none => exact kept.turn s.accels rest
      · have there : (s.set now th).threads accel = s.threads accel :=
          (System.set_threads accel).trans (if_neg (Ne.symm same))
        have kept : NoJobInv ((s.set now th).threads accel) := by
          rw [there]
          exact inv.thread
        cases next with
        | some place' =>
          refine ⟨kept, fun _ _ main' => ?_, fun _ main' => ?_⟩
          · cases main'
            exact absurd rfl same
          · cases main'
            exact absurd rfl same
        | none => exact kept.turn s.accels rest

/-- **A thread without jobs.** A thread that is configured without jobs looks for a task at most
once before it is terminated, and once more after that. It is locked out only after it has looked
for a task. -/
theorem noJob_serves_once (arch : CondArch) (accels : List ι) (preference : ι → JobPreference)
    (moves : List (Move ι)) (s : System ι) (accel : ι) (noJob : preference accel = .noJob)
    (run : exec (controllerStep arch) (spawnThreads accels preference) moves = some s) :
    (s.threads accel).rounds ≤ 2 ∧
      ((s.threads accel).stopExec = false → (s.threads accel).rounds ≤ 1 ∧
        ((s.threads accel).place = .gateLock → (s.threads accel).enableMtx = true →
          (s.threads accel).rounds = 1)) := by
  have inv : NoJobSystem accel s :=
    exec_invariant (fun _ _ _ inv step => noJob_keeps inv step)
      (spawnThreads_noJob accels noJob) run
  have bit : (s.threads accel).enableMtx.toNat ≤ 1 := Bool.toNat_le _
  by_cases jobs : (s.threads accel).jobPreference = .noJob
  · have locked := inv.thread.locked jobs
    have once : (s.threads accel).rounds ≤ 1 :=
      Nat.le_trans (Nat.le_add_right _ _) (locked.symm ▸ bit)
    refine ⟨Nat.le_succ_of_le once, fun _ => ⟨once, fun gate lock => ?_⟩⟩
    rw [AccelThread.passed_at gate, lock] at locked
    exact locked
  · obtain ⟨stop, begun⟩ := inv.thread.after jobs
    exact ⟨Nat.le_trans (Nat.le_add_right _ _) begun,
      fun goes => absurd (goes.symm.trans stop) Bool.noConfusion⟩

theorem noJob_serves_once_at_one : ∃ s : System Unit,
    exec (controllerStep .mutex) (spawnThreads [()] fun _ => .noJob) servedOnce = some s ∧
      (s.threads ()).rounds = 1 ∧ workFunc .mutex (s.threads ()) = none ∧
      (s.threads ()).rounds ≤ 2 := by
  have locked : (exec (controllerStep .mutex) (spawnThreads [()] fun _ => .noJob) servedOnce).map
      (fun s => ((s.threads ()).rounds, (workFunc .mutex (s.threads ())).isNone)) =
      some (1, true) := by decide
  obtain ⟨s, run, state⟩ := Option.map_eq_some_iff.mp locked
  obtain ⟨rounds, stuck⟩ := Prod.ext_iff.mp state
  exact ⟨s, run, rounds, Option.isNone_iff_eq_none.mp stuck,
    (noJob_serves_once .mutex [()] (fun _ => .noJob) servedOnce s () rfl run).1⟩

end Runs

end Arax.Controller.Lifecycle
