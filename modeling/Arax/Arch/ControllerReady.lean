/-
**The controller becomes ready (`src/arch/shm/impl.c`, `src/async/mutex/async.c`,
`src/async/spin/async.c`).**

`arax_init` ends in a loop: while `cntrl_ready` is zero, wait on `cntrl_ready_cond`. The controller
stores `cntrl_ready` and notifies in `arax_controller_init_done`, once, and without the lock of the
condition. So a client may have found zero, and begin to wait when the only notification is over;
and on the spin backend the notification is one token, however many clients wait.

Any number of clients are at any place of the loop. The steps are the accesses; on the mutex backend
`pthread_cond_wait` unlocks and blocks in one step, and may return without a broadcast.

* `LostOnMutex`, `LostOnSpin` — `arax_controller_init_done` has returned and a client is blocked,
  with nothing left that wakes it.
* `BroadcastGuard`, `StoreGuard` — the conditions on the steps of the controller.
* `controller_ready` — in runs that meet them no client is lost.
* `broadcast_lost`, `store_lost` — from every state in which the controller is about to break them,
  a lost client can be reached.
-/

import Mathlib.Logic.Function.Basic
import Mathlib.Tactic.SplitIfs
import Mathlib.Algebra.Group.Nat.Defs
import Arax.Lib.Run

namespace Arax.Arch

open Arax.Lib

/-- Where the controller is in `arax_controller_init_done`. -/
inductive DonePlace where
  /-- At `cntrl_ready = 1`. -/
  | store
  /-- At `async_condition_notify`. -/
  | notify
  | returned
  deriving DecidableEq

/-- What a client does next. -/
inductive ReadyMove where
  /-- Call `arax_init`, up to the loop. -/
  | call (client : Nat)
  /-- The next access of the client. -/
  | next (client : Nat)
  /-- `pthread_cond_wait` of the client returns without a broadcast. -/
  | spurious (client : Nat)
  /-- The next access of the controller. -/
  | controller
  deriving DecidableEq

/-! ### The mutex backend -/

/-- Where a client is in `arax_init`. -/
inductive InitPlace where
  | out
  /-- At `async_condition_lock`. -/
  | lock
  /-- At `while (cntrl_ready == 0)`. -/
  | test
  /-- At `pthread_cond_wait`. -/
  | wait
  /-- Blocked in `pthread_cond_wait`. -/
  | waiting
  /-- Woken up in `pthread_cond_wait`, which locks the mutex again. -/
  | woken
  /-- At `pthread_mutex_trylock` of `async_condition_unlock`. -/
  | tryLock
  /-- At `pthread_mutex_unlock`. -/
  | unlock
  | ready
  deriving DecidableEq

/-- `cntrl_ready`, `cntrl_ready_cond` and the threads. -/
structure ReadyMutex where
  cntrlReady : Bool
  /-- The client that holds the mutex. -/
  mutex : Option Nat
  clients : Nat → InitPlace
  controller : DonePlace

/-- After `arax_pipe_init`. -/
def readyMutexInit : ReadyMutex where
  cntrlReady := false
  mutex := none
  clients := fun _ => .out
  controller := .store

/-- The client is now at `place`. -/
def ReadyMutex.goto (s : ReadyMutex) (client : Nat) (place : InitPlace) : ReadyMutex :=
  { s with clients := Function.update s.clients client place }

/-- `pthread_mutex_lock`. -/
def ReadyMutex.lock (s : ReadyMutex) (client : Nat) : Option ReadyMutex :=
  if s.mutex = none then some { s.goto client .test with mutex := some client } else none

/-- The next access of a client. -/
def initAccess (s : ReadyMutex) (client : Nat) : InitPlace → Option ReadyMutex
  | .out | .waiting | .ready => none
  | .lock | .woken => s.lock client
  | .test => some (s.goto client (if s.cntrlReady then .tryLock else .wait))
  | .wait => some { s.goto client .waiting with mutex := none }
  | .tryLock =>
    some { s.goto client .unlock with mutex := if s.mutex = none then some client else s.mutex }
  | .unlock =>
    if s.mutex = some client then some { s.goto client .ready with mutex := none } else none

/-- `pthread_cond_broadcast`: no client is blocked any more. -/
def wakeClient : InitPlace → InitPlace
  | .waiting => .woken
  | place => place

/-- The next access of `arax_controller_init_done`. -/
def initDone (s : ReadyMutex) : DonePlace → Option ReadyMutex
  | .store => some { s with cntrlReady := true, controller := .notify }
  | .notify => some { s with
      clients := fun client => wakeClient (s.clients client), controller := .returned }
  | .returned => none

/-- One step. -/
def readyMutexStep (s : ReadyMutex) : ReadyMove → Option ReadyMutex
  | .call client => if s.clients client = .out then some (s.goto client .lock) else none
  | .next client => initAccess s client (s.clients client)
  | .spurious client => if s.clients client = .waiting then some (s.goto client .woken) else none
  | .controller => initDone s s.controller

/-- The controller is done and a client is blocked. -/
def LostOnMutex (s : ReadyMutex) : Prop :=
  s.controller = .returned ∧ ∃ client, s.clients client = .waiting

/-- **The condition on the mutex backend.** When the controller broadcasts, no client is between its
test of `cntrl_ready` and `pthread_cond_wait`. -/
def BroadcastGuard (s : ReadyMutex) : ReadyMove → Prop
  | .controller => s.controller = .notify → ∀ client, s.clients client ≠ .wait
  | _ => True

/-- Once the controller has returned nobody waits or is about to. -/
structure ReadyMutexInv (s : ReadyMutex) : Prop where
  stored : s.controller ≠ .store → s.cntrlReady = true
  heard : s.controller = .returned → ∀ client, s.clients client ≠ .wait ∧
    s.clients client ≠ .waiting

theorem ReadyMutexInv.notLost {s : ReadyMutex} (inv : ReadyMutexInv s) : ¬LostOnMutex s := by
  rintro ⟨returned, client, waits⟩
  exact (inv.heard returned client).2 waits

section Mutex

variable {s t : ReadyMutex} {client : Nat} {place : InitPlace}

/-- A client moves; after the controller has returned, not to a place where it waits. -/
theorem ReadyMutexInv.moved (inv : ReadyMutexInv s) (cntrlReady : t.cntrlReady = s.cntrlReady)
    (controller : t.controller = s.controller)
    (clients : t.clients = Function.update s.clients client place)
    (apart : s.controller = .returned → place ≠ .wait ∧ place ≠ .waiting) : ReadyMutexInv t := by
  refine ⟨fun past => ?_, fun returned other => ?_⟩
  · rw [cntrlReady]
    exact inv.stored (controller ▸ past)
  · rw [controller] at returned
    rw [clients]
    by_cases same : other = client
    · rw [same, Function.update_self]
      exact apart returned
    · rw [Function.update_of_ne same]
      exact inv.heard returned other

theorem ReadyMutexInv.lock (inv : ReadyMutexInv s) (step : s.lock client = some t) :
    ReadyMutexInv t := by
  unfold ReadyMutex.lock at step
  split_ifs at step
  cases step
  exact inv.moved rfl rfl rfl fun _ => ⟨by decide, by decide⟩

theorem ReadyMutexInv.access (inv : ReadyMutexInv s) (here : s.clients client = place)
    (step : initAccess s client place = some t) : ReadyMutexInv t := by
  cases place with
  | out | waiting | ready => cases step
  | lock | woken => exact inv.lock step
  | test =>
    cases step
    refine inv.moved rfl rfl rfl fun returned => ?_
    -- the controller has stored, so the loop ends
    rw [if_pos (inv.stored (by rw [returned]; decide))]
    exact ⟨by decide, by decide⟩
  | wait =>
    cases step
    exact inv.moved rfl rfl rfl fun returned => absurd here (inv.heard returned client).1
  | tryLock =>
    cases step
    exact inv.moved rfl rfl rfl fun _ => ⟨by decide, by decide⟩
  | unlock =>
    simp only [initAccess] at step
    split_ifs at step
    cases step
    exact inv.moved rfl rfl rfl fun _ => ⟨by decide, by decide⟩

/-- **Every step that meets the condition keeps the invariant.** -/
theorem readyMutexStep_inv {move : ReadyMove} (inv : ReadyMutexInv s)
    (guard : BroadcastGuard s move) (step : readyMutexStep s move = some t) : ReadyMutexInv t := by
  cases move with
  | call client =>
    simp only [readyMutexStep] at step
    split_ifs at step
    cases step
    exact inv.moved rfl rfl rfl fun _ => ⟨by decide, by decide⟩
  | next client => exact inv.access rfl step
  | spurious client =>
    simp only [readyMutexStep] at step
    split_ifs at step
    cases step
    exact inv.moved rfl rfl rfl fun _ => ⟨by decide, by decide⟩
  | controller =>
    simp only [readyMutexStep] at step
    cases place : s.controller with
    | store =>
      rw [place] at step
      cases step
      exact ⟨fun _ => rfl, fun impossible => by cases impossible⟩
    | notify =>
      rw [place] at step
      cases step
      refine ⟨fun _ => inv.stored (by rw [place]; decide), fun _ client => ?_⟩
      have apart := guard place client
      show wakeClient (s.clients client) ≠ .wait ∧ wakeClient (s.clients client) ≠ .waiting
      cases here : s.clients client with
      | wait => exact absurd here apart
      | _ => exact ⟨by decide, by decide⟩
    | returned =>
      rw [place] at step
      cases step

theorem readyMutexInit_inv : ReadyMutexInv readyMutexInit :=
  ⟨fun apart => absurd rfl apart, fun impossible => by cases impossible⟩

/-- **The condition is exact.** If the controller broadcasts while a client is about to wait, the
client gets lost. -/
theorem broadcast_lost (broken : ¬BroadcastGuard s .controller) :
    ∃ moves t, exec readyMutexStep s moves = some t ∧ LostOnMutex t := by
  simp only [BroadcastGuard, Classical.not_imp, not_forall, not_not] at broken
  obtain ⟨notify, client, about⟩ := broken
  let told : ReadyMutex := { s with
    clients := fun client => wakeClient (s.clients client), controller := .returned }
  have tells : readyMutexStep s .controller = some told := by
    simp only [readyMutexStep, notify, initDone, told]
  have waits : readyMutexStep told (.next client) =
      some { told.goto client .waiting with mutex := none } := by
    simp only [readyMutexStep, told, about, wakeClient, initAccess]
  refine ⟨[.controller, .next client], { told.goto client .waiting with mutex := none }, ?_, rfl,
    client, Function.update_self ..⟩
  rw [exec, tells, Option.bind_some, exec, waits, Option.bind_some, exec]

end Mutex

/-! ### The spin backend -/

/-- Where a client is in `arax_init`. -/
inductive SpinInitPlace where
  | out
  /-- At `async_completion_wait` of `async_condition_lock`. -/
  | lock
  /-- At `while (cntrl_ready == 0)`. -/
  | test
  /-- At `async_completion_complete` of `async_condition_wait`. -/
  | waitUnlock
  /-- At `value = sem->value` of `async_semaphore_dec`. -/
  | semRead
  /-- At the swap of `async_semaphore_dec`. -/
  | semSwap (value : Nat)
  /-- At `async_completion_wait` of `async_condition_wait`. -/
  | waitLock
  /-- At `async_completion_complete` of `async_condition_unlock`. -/
  | unlock
  | ready
  deriving DecidableEq

/-- `cntrl_ready`, `cntrl_ready_cond` and the threads. -/
structure ReadySpin where
  cntrlReady : Bool
  /-- `completed` of the completion: nobody holds the lock. -/
  completed : Bool
  /-- `value` of the semaphore. -/
  semaphore : Nat
  clients : Nat → SpinInitPlace
  controller : DonePlace

/-- After `arax_pipe_init`. -/
def readySpinInit : ReadySpin where
  cntrlReady := false
  completed := true
  semaphore := 0
  clients := fun _ => .out
  controller := .store

/-- The client is now at `place`. -/
def ReadySpin.goto (s : ReadySpin) (client : Nat) (place : SpinInitPlace) : ReadySpin :=
  { s with clients := Function.update s.clients client place }

/-- `async_completion_wait`: the swap from 1 to 0, repeated until it succeeds. -/
def ReadySpin.lock (s : ReadySpin) (client : Nat) : Option ReadySpin :=
  if s.completed then some { s.goto client .test with completed := false } else none

/-- The next access of a client. -/
def spinInitAccess (s : ReadySpin) (client : Nat) : SpinInitPlace → Option ReadySpin
  | .out | .ready => none
  | .lock | .waitLock => s.lock client
  | .test => some (s.goto client (if s.cntrlReady then .unlock else .waitUnlock))
  | .waitUnlock => some { s.goto client .semRead with completed := true }
  | .semRead =>
    -- `value` is an `int`: the low 32 bits, negative from 2 ^ 31 on
    let value := s.semaphore % 2 ^ 32
    some (if 1 ≤ value ∧ value < 2 ^ 31 then s.goto client (.semSwap value) else s)
  | .semSwap value =>
    some (if s.semaphore = value then { s.goto client .waitLock with semaphore := value - 1 }
      else s.goto client .semRead)
  | .unlock => some { s.goto client .ready with completed := true }

/-- The next access of `arax_controller_init_done`. -/
def spinInitDone (s : ReadySpin) : DonePlace → Option ReadySpin
  | .store => some { s with cntrlReady := true, controller := .notify }
  | .notify => some { s with
      semaphore := (s.semaphore + 1) % 2 ^ 64, controller := .returned }
  | .returned => none

/-- One step. -/
def readySpinStep (s : ReadySpin) : ReadyMove → Option ReadySpin
  | .call client => if s.clients client = .out then some (s.goto client .lock) else none
  | .next client => spinInitAccess s client (s.clients client)
  | .spurious _ => none
  | .controller => spinInitDone s s.controller

/-- The client is in `async_semaphore_dec`. -/
def SpinInitPlace.decrements : SpinInitPlace → Bool
  | .semRead | .semSwap _ => true
  | _ => false

/-- The client has found `cntrl_ready` zero and has no token yet. -/
def SpinInitPlace.waits : SpinInitPlace → Bool
  | .waitUnlock | .semRead | .semSwap _ => true
  | _ => false

/-- The controller is done, a client waits for a token and there is none. -/
def LostOnSpin (s : ReadySpin) : Prop :=
  s.controller = .returned ∧ s.semaphore = 0 ∧ ∃ client, (s.clients client).decrements = true

/-- At most one client waits. -/
def OneWaits (s : ReadySpin) : Prop :=
  ∀ client other, (s.clients client).waits = true → (s.clients other).waits = true →
    client = other

/-- **The condition on the spin backend.** When the controller stores `cntrl_ready`, at most one
client has found it zero. -/
def StoreGuard (s : ReadySpin) : ReadyMove → Prop
  | .controller => s.controller = .store → OneWaits s
  | _ => True

/-- Before the controller notifies there is no token, and nobody has seen one. -/
def NoTokenYet (s : ReadySpin) : Prop :=
  s.controller ≠ .returned → s.semaphore = 0 ∧ ∀ client value, s.clients client ≠ .semSwap value

/-- The token, and who waits for it. -/
structure ReadySpinInv (s : ReadySpin) : Prop where
  stored : s.controller ≠ .store → s.cntrlReady = true ∧ OneWaits s
  early : NoTokenYet s
  late : s.controller = .returned →
    s.semaphore = 1 ∨ s.semaphore = 0 ∧ ∀ client, (s.clients client).waits = false

theorem decrements_waits {place : SpinInitPlace} (decrements : place.decrements = true) :
    place.waits = true := by
  cases place with
  | semRead | semSwap value => rfl
  | _ => cases decrements

theorem ReadySpinInv.notLost {s : ReadySpin} (inv : ReadySpinInv s) : ¬LostOnSpin s := by
  rintro ⟨returned, empty, client, decrements⟩
  rcases inv.late returned with one | ⟨-, nobody⟩
  · omega
  · have waits := decrements_waits decrements
    rw [nobody client] at waits
    cases waits

section Spin

variable {s t : ReadySpin} {client : Nat} {place : SpinInitPlace}

/-- A client moves to where it has seen no token. -/
theorem NoTokenYet.moved (early : NoTokenYet s) (controller : t.controller = s.controller)
    (semaphore : t.semaphore = s.semaphore)
    (clients : t.clients = Function.update s.clients client place)
    (unseen : s.semaphore = 0 → ∀ value, place ≠ .semSwap value) : NoTokenYet t := by
  intro before
  rw [controller] at before
  obtain ⟨empty, nobody⟩ := early before
  refine ⟨semaphore.trans empty, fun other value => ?_⟩
  rw [clients]
  by_cases same : other = client
  · rw [same, Function.update_self]
    exact unseen empty value
  · rw [Function.update_of_ne same]
    exact nobody other value

/-- **Every step leaves the token to the controller.** -/
theorem readySpinStep_noTokenYet {move : ReadyMove} (early : NoTokenYet s)
    (step : readySpinStep s move = some t) : NoTokenYet t := by
  cases move with
  | call client =>
    simp only [readySpinStep] at step
    split_ifs at step
    cases step
    exact early.moved rfl rfl rfl fun _ _ => nofun
  | next client =>
    simp only [readySpinStep] at step
    cases here : s.clients client with
    | out | ready =>
      rw [here] at step
      cases step
    | lock | waitLock =>
      rw [here] at step
      simp only [spinInitAccess, ReadySpin.lock] at step
      split_ifs at step
      cases step
      exact early.moved rfl rfl rfl fun _ _ => nofun
    | test =>
      rw [here] at step
      cases step
      refine early.moved rfl rfl rfl fun _ _ => ?_
      split_ifs <;> nofun
    | waitUnlock | unlock =>
      rw [here] at step
      cases step
      exact early.moved rfl rfl rfl fun _ _ => nofun
    | semRead =>
      rw [here] at step
      simp only [spinInitAccess, Option.some.injEq] at step
      split_ifs at step with seen
      · cases step
        refine early.moved rfl rfl rfl fun empty => ?_
        rw [empty] at seen
        exact absurd seen.1 (by decide)
      · cases step
        exact early
    | semSwap value =>
      intro before
      rw [here] at step
      simp only [spinInitAccess, Option.some.injEq] at step
      have same : s.controller = t.controller := by
        split_ifs at step <;> cases step <;> rfl
      exact absurd here ((early (same ▸ before)).2 client value)
  | spurious client => cases step
  | controller =>
    simp only [readySpinStep] at step
    cases place : s.controller with
    | store =>
      rw [place] at step
      cases step
      exact fun _ => early (by rw [place]; decide)
    | notify =>
      rw [place] at step
      cases step
      exact fun before => absurd rfl before
    | returned =>
      rw [place] at step
      cases step

/-- Who waits after a client has moved, waited before. -/
theorem waits_moved (clients : t.clients = Function.update s.clients client place)
    (fewer : place.waits = true → (s.clients client).waits = true) (other : Nat)
    (waits : (t.clients other).waits = true) : (s.clients other).waits = true := by
  rw [clients] at waits
  by_cases same : other = client
  · subst same
    rw [Function.update_self] at waits
    exact fewer waits
  · rwa [Function.update_of_ne same] at waits

/-- A client moves and no token is taken; after the store, nobody starts to wait. -/
theorem ReadySpinInv.moved (inv : ReadySpinInv s) (early : NoTokenYet t)
    (cntrlReady : t.cntrlReady = s.cntrlReady) (controller : t.controller = s.controller)
    (semaphore : t.semaphore = s.semaphore)
    (clients : t.clients = Function.update s.clients client place)
    (fewer : s.controller ≠ .store → place.waits = true → (s.clients client).waits = true) :
    ReadySpinInv t := by
  refine ⟨fun past => ?_, early, fun returned => ?_⟩
  · rw [controller] at past
    obtain ⟨ready, single⟩ := inv.stored past
    refine ⟨cntrlReady.trans ready, fun one two first second => ?_⟩
    exact single one two (waits_moved clients (fewer past) one first)
      (waits_moved clients (fewer past) two second)
  · rw [controller] at returned
    rw [semaphore]
    refine (inv.late returned).imp id fun ⟨empty, nobody⟩ => ⟨empty, fun other => ?_⟩
    by_contra waits
    have waited := waits_moved clients (fewer (by rw [returned]; decide)) other
      (Bool.of_not_eq_false waits)
    rw [nobody other] at waited
    cases waited

/-- The token is taken by the only one who waits. -/
theorem ReadySpinInv.taken (inv : ReadySpinInv s) {value : Nat}
    (here : s.clients client = .semSwap value) (same : s.semaphore = value) :
    ReadySpinInv { s.goto client .waitLock with semaphore := value - 1 } := by
  have returned : s.controller = .returned := by
    by_contra before
    exact (inv.early before).2 client value here
  have past : s.controller ≠ .store := by
    rw [returned]
    decide
  obtain ⟨ready, single⟩ := inv.stored past
  have waits : (s.clients client).waits = true := by
    rw [here]
    rfl
  have one : s.semaphore = 1 := by
    refine (inv.late returned).resolve_right fun ⟨_, nobody⟩ => ?_
    rw [nobody client] at waits
    cases waits
  have nobody : ∀ other, (Function.update s.clients client .waitLock other).waits = false := by
    intro other
    by_cases apart : other = client
    · rw [apart, Function.update_self]
      rfl
    · rw [Function.update_of_ne apart]
      by_contra also
      exact apart (single other client (Bool.of_not_eq_false also) waits)
  refine ⟨fun _ => ⟨ready, fun first second firstWaits => ?_⟩,
    fun before => absurd returned before, fun _ => .inr ⟨by show value - 1 = 0; omega, nobody⟩⟩
  exact absurd ((nobody first).symm.trans firstWaits) Bool.false_ne_true

theorem ReadySpinInv.access (inv : ReadySpinInv s) (early : NoTokenYet t)
    (here : s.clients client = place) (step : spinInitAccess s client place = some t) :
    ReadySpinInv t := by
  cases place with
  | out | ready => cases step
  | lock | waitLock =>
    simp only [spinInitAccess, ReadySpin.lock] at step
    split_ifs at step
    cases step
    exact inv.moved early rfl rfl rfl rfl fun _ impossible => by cases impossible
  | test =>
    cases step
    refine inv.moved early rfl rfl rfl rfl fun past waits => ?_
    -- after the store the loop ends
    rw [if_pos (inv.stored past).1] at waits
    cases waits
  | waitUnlock =>
    cases step
    exact inv.moved early rfl rfl rfl rfl fun _ _ => by rw [here]; rfl
  | unlock =>
    cases step
    exact inv.moved early rfl rfl rfl rfl fun _ impossible => by cases impossible
  | semRead =>
    simp only [spinInitAccess, Option.some.injEq] at step
    split_ifs at step
    · cases step
      exact inv.moved early rfl rfl rfl rfl fun _ _ => by rw [here]; rfl
    · cases step
      exact inv
  | semSwap value =>
    simp only [spinInitAccess, Option.some.injEq] at step
    split_ifs at step with same
    · cases step
      exact inv.taken here same
    · cases step
      exact inv.moved early rfl rfl rfl rfl fun _ _ => by rw [here]; rfl

/-- **Every step that meets the condition keeps the invariant.** -/
theorem readySpinStep_inv {move : ReadyMove} (inv : ReadySpinInv s) (guard : StoreGuard s move)
    (step : readySpinStep s move = some t) : ReadySpinInv t := by
  have early := readySpinStep_noTokenYet inv.early step
  cases move with
  | call client =>
    simp only [readySpinStep] at step
    split_ifs at step
    cases step
    exact inv.moved early rfl rfl rfl rfl fun _ impossible => by cases impossible
  | next client => exact inv.access early rfl step
  | spurious client => cases step
  | controller =>
    simp only [readySpinStep] at step
    cases place : s.controller with
    | store =>
      rw [place] at step
      cases step
      exact ⟨fun _ => ⟨rfl, guard place⟩, early, fun impossible => by cases impossible⟩
    | notify =>
      rw [place] at step
      cases step
      have empty := (inv.early (by rw [place]; decide)).1
      refine ⟨fun _ => inv.stored (by rw [place]; decide), early, fun _ => .inl ?_⟩
      show (s.semaphore + 1) % 2 ^ 64 = 1
      omega
    | returned =>
      rw [place] at step
      cases step

theorem readySpinInit_inv : ReadySpinInv readySpinInit :=
  ⟨fun apart => absurd rfl apart, fun _ => ⟨rfl, fun _ _ => nofun⟩,
    fun impossible => by cases impossible⟩

/-- A client that waits before the store comes to its semaphore. -/
theorem reach_semRead (early : NoTokenYet s) (before : s.controller = .store)
    (waits : (s.clients client).waits = true) :
    ∃ moves t, exec readySpinStep s moves = some t ∧
      t.clients = Function.update s.clients client .semRead ∧ t.semaphore = s.semaphore ∧
      t.controller = s.controller := by
  have unseen := (early (by rw [before]; decide)).2 client
  cases here : s.clients client with
  | waitUnlock =>
    refine ⟨[.next client], { s.goto client .semRead with completed := true }, ?_, rfl, rfl, rfl⟩
    simp only [exec, readySpinStep, here, spinInitAccess, Option.bind_some]
  | semRead => exact ⟨[], s, rfl, by rw [← here, Function.update_eq_self], rfl, rfl⟩
  | semSwap value => exact absurd here (unseen value)
  | _ =>
    rw [here] at waits
    cases waits

/-- **The condition is exact.** If the controller stores while two clients wait, one takes the token
and the other one gets lost. -/
theorem store_lost (early : NoTokenYet s) (broken : ¬StoreGuard s .controller) :
    ∃ moves t, exec readySpinStep s moves = some t ∧ LostOnSpin t := by
  simp only [StoreGuard, OneWaits, Classical.not_imp, not_forall] at broken
  obtain ⟨before, one, two, oneWaits, twoWaits, apart⟩ := broken
  have empty := (early (by rw [before]; decide)).1
  obtain ⟨first, t, firstRun, clients, semaphore, controller⟩ :=
    reach_semRead early before oneWaits
  have early' : NoTokenYet t :=
    exec_invariant (fun _ _ _ => readySpinStep_noTokenYet) early firstRun
  have twoWaits' : (t.clients two).waits = true := by
    rw [clients, Function.update_of_ne (Ne.symm apart)]
    exact twoWaits
  obtain ⟨second, u, secondRun, clients', semaphore', controller'⟩ :=
    reach_semRead early' (controller.trans before) twoWaits'
  have oneReads : u.clients one = .semRead := by
    rw [clients', Function.update_of_ne apart, clients, Function.update_self]
  have twoReads : u.clients two = .semRead := by
    rw [clients', Function.update_self]
  have store : u.controller = .store := controller'.trans (controller.trans before)
  have none' : u.semaphore = 0 := semaphore'.trans (semaphore.trans empty)
  let v : ReadySpin :=
    { cntrlReady := true
      completed := u.completed
      semaphore := 0
      clients := Function.update (Function.update u.clients one (.semSwap 1)) one .waitLock
      controller := .returned }
  have last : exec readySpinStep u [.controller, .controller, .next one, .next one] = some v := by
    simp [exec, readySpinStep, spinInitDone, store, none', oneReads, spinInitAccess,
      ReadySpin.goto, v]
  have run : exec readySpinStep s
      (first ++ (second ++ [.controller, .controller, .next one, .next one])) = some v := by
    rw [exec_append, firstRun, Option.bind_some, exec_append, secondRun, Option.bind_some, last]
  refine ⟨_, v, run, rfl, rfl, two, ?_⟩
  simp [v, Function.update_of_ne (Ne.symm apart), twoReads, SpinInitPlace.decrements]

end Spin

/-! ### Both backends -/

/-- **The handshake.** On the mutex backend, in every run in which the controller does not broadcast
between the test and the wait of a client, and on the spin backend, in every run in which at most
one client has found `cntrl_ready` zero when the controller stores it: no client is lost. -/
theorem controller_ready (moves : List ReadyMove) :
    (∀ s : ReadyMutex, Guarded readyMutexStep BroadcastGuard readyMutexInit moves →
      exec readyMutexStep readyMutexInit moves = some s → ¬LostOnMutex s) ∧
    ∀ s : ReadySpin, Guarded readySpinStep StoreGuard readySpinInit moves →
      exec readySpinStep readySpinInit moves = some s → ¬LostOnSpin s := by
  refine ⟨fun s guarded run => ?_, fun s guarded run => ?_⟩
  · exact (exec_guarded (fun _ _ _ => readyMutexStep_inv) readyMutexInit_inv guarded run).notLost
  · exact (exec_guarded (fun _ _ _ => readySpinStep_inv) readySpinInit_inv guarded run).notLost

/-- A client waits on each backend, and returns after the controller is done. -/
theorem controller_ready_at_waiting :
    (∃ s, exec readyMutexStep readyMutexInit ([.call 0, .next 0, .next 0, .next 0, .controller,
        .controller, .next 0, .next 0, .next 0, .next 0]) = some s ∧ s.clients 0 = .ready ∧
      ¬LostOnMutex s) ∧
    ∃ s, exec readySpinStep readySpinInit ([.call 0, .next 0, .next 0, .next 0, .controller,
        .controller, .next 0, .next 0, .next 0, .next 0, .next 0]) = some s ∧
      s.clients 0 = .ready ∧ ¬LostOnSpin s := by
  constructor
  · have view : (exec readyMutexStep readyMutexInit ([.call 0, .next 0, .next 0, .next 0,
        .controller, .controller, .next 0, .next 0, .next 0, .next 0])).map
          (fun s => s.clients 0) = some .ready := by decide
    obtain ⟨s, run, ready⟩ := Option.map_eq_some_iff.mp view
    have blocked : ∀ client,
        Function.update (fun _ => InitPlace.out) 0 .waiting client ≠ .wait := by
      intro client
      rw [Function.update_apply]
      split_ifs <;> decide
    refine ⟨s, run, ready, (controller_ready _).1 s ?_ run⟩
    simpa [Guarded, BroadcastGuard, readyMutexStep, readyMutexInit, initDone, initAccess,
      ReadyMutex.goto, ReadyMutex.lock, wakeClient] using blocked
  · have view : (exec readySpinStep readySpinInit ([.call 0, .next 0, .next 0, .next 0,
        .controller, .controller, .next 0, .next 0, .next 0, .next 0, .next 0])).map
          (fun s => s.clients 0) = some .ready := by decide
    obtain ⟨s, run, ready⟩ := Option.map_eq_some_iff.mp view
    have alone : ∀ client,
        (Function.update (fun _ => SpinInitPlace.out) 0 .semRead client).waits = true →
          client = 0 := by
      intro client
      rw [Function.update_apply]
      split_ifs with zero
      · exact fun _ => zero
      · nofun
    refine ⟨s, run, ready, (controller_ready _).2 s ?_ run⟩
    simpa [Guarded, StoreGuard, OneWaits, readySpinStep, readySpinInit, spinInitDone,
      spinInitAccess, ReadySpin.goto, ReadySpin.lock] using
      fun client other first second => (alone client first).trans (alone other second).symm

/-- **Lost clients.** On the mutex backend, a client that tests before the controller is done and
waits after it; on the spin backend, the second of two clients that wait. -/
theorem controller_ready_lost :
    (¬∀ (moves : List ReadyMove) (s : ReadyMutex),
      exec readyMutexStep readyMutexInit moves = some s → ¬LostOnMutex s) ∧
    ¬∀ (moves : List ReadyMove) (s : ReadySpin),
      exec readySpinStep readySpinInit moves = some s → ¬LostOnSpin s := by
  constructor
  · intro claimed
    exact claimed [.call 0, .next 0, .next 0, .controller, .controller, .next 0] _ rfl
      ⟨rfl, 0, rfl⟩
  · intro claimed
    exact claimed [.call 0, .next 0, .next 0, .next 0, .call 1, .next 1, .next 1, .next 1,
      .controller, .controller, .next 0, .next 0] _ rfl ⟨rfl, rfl, 1, rfl⟩

end Arax.Arch
