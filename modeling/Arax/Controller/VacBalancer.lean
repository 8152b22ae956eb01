/-
**The balancer waits for orphans (`controller/src/Core/VacBalancerThread.cpp`,
`src/core/arax_pipe.c`, `src/async/mutex/async.c`, `src/async/spin/async.c`).**

In every round the balancer calls `arax_pipe_get_orphan_vaccel`, a second time if the first call
returned null, and passes what it has to `assignVac`, which reads its type. A call waits at most
once on `orphan_cond`, and then takes the head of the list even if the list is empty. Any number of
other threads add VAQs to the list and remove them.

The steps are the accesses to the shared memory. On the mutex backend `pthread_cond_wait` unlocks
and blocks in one step, and may return without a broadcast; on the spin backend a notification is a
token that stays until it is taken, whether anybody waits or not. The callers assert that the VAQs
they add or remove are not assigned, so a VAQ that is linked is linked in the list of the orphans.

* `WakeGuard` — the condition on the steps.
* `balancer_assigns` — in runs that meet it no null VAQ is assigned.
* `leftover_null`, `removed_null`, `spurious_null` — where it is broken, a null VAQ can be assigned.
-/

import Mathlib.Algebra.Group.Nat.Defs
import Mathlib.Logic.Function.Basic
import Mathlib.Tactic.SplitIfs
import Arax.Lib.Run

namespace Arax.Controller

open Arax.Lib

/-- `async_architecture`, for the conditions. -/
inductive ConditionBackend where
  | mutex
  | spin
  deriving DecidableEq

/-- A call of a client. -/
inductive OrphanCall where
  /-- `arax_pipe_add_orphan_vaccel`. -/
  | add (vac : Nat)
  /-- `arax_pipe_remove_orphan_vaccel`. -/
  | remove (vac : Nat)
  deriving DecidableEq

/-- Where a client is in its call. -/
inductive OrphanPlace where
  | out
  /-- At `async_condition_lock`. -/
  | lock (call : OrphanCall)
  /-- At `utils_list_add`, or at `utils_list_node_linked`. -/
  | change (call : OrphanCall)
  /-- At `async_condition_notify`. -/
  | notify
  /-- At `async_condition_unlock`. -/
  | unlock
  deriving DecidableEq

/-- Where the balancer is. -/
inductive BalancerPlace where
  /-- At `async_condition_lock`. -/
  | lock
  /-- At `if (!arax_pipe_have_orphan_vaccels(pipe))`. -/
  | test
  /-- At `async_condition_wait`. -/
  | wait
  /-- Blocked in `pthread_cond_wait`. -/
  | blocked
  /-- At `value = sem->value` of `async_semaphore_dec`. -/
  | semRead
  /-- At the swap of `async_semaphore_dec`. -/
  | semSwap (value : Nat)
  /-- At the end of `async_condition_wait`, which locks again. -/
  | relock
  /-- At `utils_list_pop_head`. -/
  | pop
  /-- At `async_condition_unlock`. -/
  | unlock (vac : Option Nat)
  /-- The call returns. -/
  | returned (vac : Option Nat)
  /-- At `assignVac`. -/
  | assign (vac : Option Nat)
  /-- At `async_condition_lock` of `arax_pipe_remove_orphan_vaccel`, in `arax_accel_add_vaccel`. -/
  | assignLock (vac : Nat)
  /-- At `utils_list_node_linked`. -/
  | assignRemove (vac : Nat)
  /-- At `async_condition_unlock`. -/
  | assignUnlock
  deriving DecidableEq

/-- A thread that uses the list. -/
inductive OrphanThread where
  | balancer
  | client (client : Nat)
  deriving DecidableEq

/-- `orphan_vacs`, `orphan_cond` and the threads. -/
structure OrphanState where
  /-- The head of the list first. -/
  orphans : List Nat
  /-- The thread that holds the lock of the condition. -/
  holder : Option OrphanThread
  /-- `value` of the semaphore of the condition, on the spin backend. -/
  semaphore : Nat
  clients : Nat → OrphanPlace
  balancer : BalancerPlace
  /-- The balancer is in its second call of the round. -/
  second : Bool

/-- After `arax_pipe_init`. -/
def orphanInit : OrphanState where
  orphans := []
  holder := none
  semaphore := 0
  clients := fun _ => .out
  balancer := .lock
  second := false

namespace OrphanState

/-- The client is now at `place`. -/
def goto (s : OrphanState) (client : Nat) (place : OrphanPlace) : OrphanState :=
  { s with clients := Function.update s.clients client place }

/-- The balancer is now at `place`. -/
def balance (s : OrphanState) (place : BalancerPlace) : OrphanState :=
  { s with balancer := place }

/-- `async_condition_notify`. -/
def notify (backend : ConditionBackend) (s : OrphanState) : OrphanState :=
  match backend with
  | .mutex => if s.balancer = .blocked then s.balance .relock else s
  | .spin => { s with semaphore := (s.semaphore + 1) % 2 ^ 64 }

/-- The next access of a client. `async_condition_unlock` leaves the lock free. -/
def clientAccess (backend : ConditionBackend) (s : OrphanState) (client : Nat) :
    OrphanPlace → Option OrphanState
  | .out => none
  | .lock call =>
    if s.holder = none then
      some { s.goto client (.change call) with holder := some (.client client) }
    else none
  | .change (.add vac) =>
    -- a VAQ that is linked is not added again
    if vac ∈ s.orphans then none
    else some { s.goto client .notify with orphans := vac :: s.orphans }
  | .change (.remove vac) =>
    some { s.goto client .unlock with orphans := s.orphans.erase vac }
  | .notify => some ((s.notify backend).goto client .unlock)
  | .unlock => some { s.goto client .out with holder := none }

/-- The next access of the balancer. -/
def balancerAccess (backend : ConditionBackend) (s : OrphanState) :
    BalancerPlace → Option OrphanState
  | .lock =>
    if s.holder = none then some { s.balance .test with holder := some .balancer } else none
  | .test => some (s.balance (if s.orphans = [] then .wait else .pop))
  | .wait =>
    some { s.balance (match backend with | .mutex => .blocked | .spin => .semRead) with
      holder := none }
  | .blocked => none
  | .semRead =>
    -- `value` is an `int`: the low 32 bits, negative from 2 ^ 31 on
    let value := s.semaphore % 2 ^ 32
    some (if 1 ≤ value ∧ value < 2 ^ 31 then s.balance (.semSwap value) else s)
  | .semSwap value =>
    some (if s.semaphore = value then { s.balance .relock with semaphore := value - 1 }
      else s.balance .semRead)
  | .relock =>
    if s.holder = none then some { s.balance .pop with holder := some .balancer } else none
  | .pop => some { s.balance (.unlock s.orphans.head?) with orphans := s.orphans.tail }
  | .unlock vac => some { s.balance (.returned vac) with holder := none }
  | .returned vac =>
    some (if vac = none ∧ s.second = false then { s.balance .lock with second := true }
      else s.balance (.assign vac))
  -- `assignVac` reads `vac->type`
  | .assign none => none
  | .assign (some vac) => some (s.balance (.assignLock vac))
  | .assignLock vac =>
    if s.holder = none then some { s.balance (.assignRemove vac) with holder := some .balancer }
    else none
  | .assignRemove vac => some { s.balance .assignUnlock with orphans := s.orphans.erase vac }
  | .assignUnlock => some { s.balance .lock with holder := none, second := false }

end OrphanState

/-- Who does something. -/
inductive OrphanMove where
  /-- A client makes a call. -/
  | call (client : Nat) (call : OrphanCall)
  /-- The next access of the client. -/
  | next (client : Nat)
  /-- The next access of the balancer. -/
  | balancer
  /-- `pthread_cond_wait` of the balancer returns without a broadcast. -/
  | spurious
  deriving DecidableEq

/-- One step. -/
def orphanStep (backend : ConditionBackend) (s : OrphanState) : OrphanMove → Option OrphanState
  | .call client call => if s.clients client = .out then some (s.goto client (.lock call)) else none
  | .next client => s.clientAccess backend client (s.clients client)
  | .balancer => s.balancerAccess backend s.balancer
  | .spurious => if s.balancer = .blocked then some (s.balance .relock) else none

/-- The balancer has given the lock up in `async_condition_wait`, and not got it back. -/
def BalancerPlace.waiting : BalancerPlace → Bool
  | .blocked | .semRead | .semSwap _ | .relock => true
  | _ => false

namespace OrphanState

/-- There is a token that `async_semaphore_dec` can take. -/
def Token (s : OrphanState) : Prop := 1 ≤ s.semaphore ∧ s.semaphore < 2 ^ 31

instance (s : OrphanState) : Decidable s.Token := by
  unfold Token
  infer_instance

/-- The balancer waits, in its second call. -/
def Waits (s : OrphanState) : Prop := s.second = true ∧ s.balancer.waiting = true

end OrphanState

instance (s : OrphanState) : Decidable s.Waits := by
  unfold OrphanState.Waits
  infer_instance

/-- **The condition on a step.** When the balancer begins to wait in its second call, no token is
left over; it does not wake up without a broadcast; and no client removes the last orphan while it
waits. -/
def WakeGuard (backend : ConditionBackend) (s : OrphanState) : OrphanMove → Prop
  | .balancer => backend = .spin → s.second = true → s.balancer = .wait → ¬s.Token
  | .spurious => s.second = false
  | .next client =>
    ∀ vac ∈ s.orphans, s.clients client = .change (.remove vac) → s.Waits →
      s.orphans.erase vac ≠ []
  | .call _ _ => True

instance (backend : ConditionBackend) (s : OrphanState) :
    (move : OrphanMove) → Decidable (WakeGuard backend s move)
  | .balancer => by unfold WakeGuard; infer_instance
  | .spurious => by unfold WakeGuard; infer_instance
  | .next _ => by unfold WakeGuard; infer_instance
  | .call _ _ => isTrue trivial

/-! ### The lock -/

/-- The client holds the lock at the place. -/
def OrphanPlace.inside : OrphanPlace → Bool
  | .change _ | .notify | .unlock => true
  | .out | .lock _ => false

/-- The balancer holds the lock at the place. -/
def BalancerPlace.inside : BalancerPlace → Bool
  | .test | .wait | .pop | .unlock _ | .assignRemove _ | .assignUnlock => true
  | _ => false

namespace OrphanState

variable {backend : ConditionBackend} {s t : OrphanState} {client : Nat} {place : OrphanPlace}
  {there : BalancerPlace}

/-- The thread is at a place where it holds the lock. -/
def Inside (s : OrphanState) : OrphanThread → Bool
  | .balancer => s.balancer.inside
  | .client client => (s.clients client).inside

/-- Who is inside holds the lock. -/
def Exclusive (s : OrphanState) : Prop :=
  ∀ thread, s.Inside thread = true → s.holder = some thread

/-- Two threads are not inside together. -/
theorem Exclusive.alone (exclusive : s.Exclusive) {first second : OrphanThread}
    (one : s.Inside first = true) (other : s.Inside second = true) : first = second :=
  Option.some.inj ((exclusive first one).symm.trans (exclusive second other))

/-- The lock is not touched, and nobody gets inside. -/
theorem Exclusive.keep (exclusive : s.Exclusive) (holder : t.holder = s.holder)
    (inside : ∀ thread, t.Inside thread = true → s.Inside thread = true) : t.Exclusive := by
  intro thread here
  rw [holder]
  exact exclusive thread (inside thread here)

/-- The lock is free and a thread takes it. -/
theorem Exclusive.take (exclusive : s.Exclusive) {thread : OrphanThread} (free : s.holder = none)
    (holder : t.holder = some thread)
    (inside : ∀ other, other ≠ thread → t.Inside other = true → s.Inside other = true) :
    t.Exclusive := by
  intro other here
  by_cases same : other = thread
  · rw [same, holder]
  · have held := exclusive other (inside other same here)
    rw [free] at held
    cases held

/-- A thread that is inside gives the lock up and leaves. -/
theorem Exclusive.release (exclusive : s.Exclusive) {thread : OrphanThread}
    (held : s.Inside thread = true) (outside : t.Inside thread = false)
    (inside : ∀ other, other ≠ thread → t.Inside other = true → s.Inside other = true) :
    t.Exclusive := by
  intro other here
  by_cases same : other = thread
  · rw [same, outside] at here
    cases here
  · exact absurd (exclusive.alone (inside other same here) held) same

/-- Threads other than the client that moves stay where they are. -/
theorem inside_goto {other : OrphanThread} (balancer : t.balancer = s.balancer)
    (clients : t.clients = Function.update s.clients client place)
    (apart : other ≠ .client client) : t.Inside other = s.Inside other := by
  cases other with
  | balancer => exact congrArg BalancerPlace.inside balancer
  | client other =>
    show (t.clients other).inside = (s.clients other).inside
    rw [clients, Function.update_of_ne fun same => apart (congrArg OrphanThread.client same)]

/-- The client that moves. -/
theorem inside_here (clients : t.clients = Function.update s.clients client place) :
    t.Inside (.client client) = place.inside := by
  show (t.clients client).inside = place.inside
  rw [clients, Function.update_self]

/-- Threads other than the balancer stay where they are. -/
theorem inside_balance {other : OrphanThread} (clients : t.clients = s.clients)
    (apart : other ≠ .balancer) : t.Inside other = s.Inside other := by
  cases other with
  | balancer => exact absurd rfl apart
  | client other =>
    show (t.clients other).inside = (s.clients other).inside
    rw [clients]

/-- A client that moves without the lock. -/
theorem Exclusive.client_keep (exclusive : s.Exclusive) (holder : t.holder = s.holder)
    (balancer : t.balancer = s.balancer)
    (clients : t.clients = Function.update s.clients client place)
    (inside : place.inside = true → (s.clients client).inside = true) : t.Exclusive := by
  refine exclusive.keep holder fun thread here => ?_
  by_cases same : thread = .client client
  · subst same
    exact inside ((inside_here clients).symm.trans here)
  · exact (inside_goto balancer clients same).symm.trans here

/-- The balancer moves without the lock. -/
theorem Exclusive.balancer_keep (exclusive : s.Exclusive) (holder : t.holder = s.holder)
    (clients : t.clients = s.clients)
    (inside : t.balancer.inside = true → s.balancer.inside = true) : t.Exclusive := by
  refine exclusive.keep holder fun thread here => ?_
  by_cases same : thread = .balancer
  · subst same
    exact inside here
  · exact (inside_balance clients same).symm.trans here

/-- A notification moves the balancer out of `pthread_cond_wait` at most. -/
theorem notify_spec (backend : ConditionBackend) (s : OrphanState) :
    (s.notify backend).holder = s.holder ∧
    (s.notify backend).clients = s.clients ∧ (s.notify backend).orphans = s.orphans ∧
    (s.notify backend).second = s.second ∧
    ((s.notify backend).balancer = s.balancer ∨
      s.balancer = .blocked ∧ (s.notify backend).balancer = .relock) := by
  unfold notify
  cases backend with
  | spin => exact ⟨rfl, rfl, rfl, rfl, Or.inl rfl⟩
  | mutex =>
    split_ifs with blocked
    · exact ⟨rfl, rfl, rfl, rfl, Or.inr ⟨blocked, rfl⟩⟩
    · exact ⟨rfl, rfl, rfl, rfl, Or.inl rfl⟩

/-- **Every step of a client keeps the threads apart.** -/
theorem clientAccess_exclusive (exclusive : s.Exclusive)
    (step : s.clientAccess backend client place = some t) (here : s.clients client = place) :
    t.Exclusive := by
  have other (now : OrphanPlace) (balancer : t.balancer = s.balancer)
      (clients : t.clients = Function.update s.clients client now) (thread : OrphanThread)
      (apart : thread ≠ .client client) (inside : t.Inside thread = true) :
      s.Inside thread = true := (inside_goto balancer clients apart).symm.trans inside
  have leaves (clients : t.clients = Function.update s.clients client .out) :
      t.Inside (.client client) = false := inside_here clients
  cases place with
  | out => cases step
  | lock call =>
    simp only [clientAccess] at step
    split_ifs at step with free
    cases step
    exact exclusive.take free rfl (other _ rfl rfl)
  | change call =>
    cases call with
    | add vac =>
      simp only [clientAccess] at step
      split_ifs at step
      cases step
      exact exclusive.client_keep rfl rfl rfl fun _ => congrArg OrphanPlace.inside here
    | remove vac =>
      cases step
      exact exclusive.client_keep rfl rfl rfl fun _ => congrArg OrphanPlace.inside here
  | notify =>
    cases step
    obtain ⟨holder, clients, -, -, balancer⟩ := notify_spec backend s
    have told : (s.notify backend).Exclusive := by
      refine exclusive.balancer_keep holder clients fun inside => ?_
      rcases balancer with same | ⟨-, woken⟩
      · exact same ▸ inside
      · rw [woken] at inside
        cases inside
    refine told.client_keep rfl rfl rfl fun _ => ?_
    rw [clients, here]
    rfl
  | unlock =>
    cases step
    have held : s.Inside (.client client) = true := congrArg OrphanPlace.inside here
    exact exclusive.release held (leaves rfl) (other _ rfl rfl)

/-- **Every step of the balancer keeps the threads apart.** -/
theorem balancerAccess_exclusive (exclusive : s.Exclusive)
    (step : s.balancerAccess backend there = some t) (here : s.balancer = there) :
    t.Exclusive := by
  have other (thread : OrphanThread) (clients : t.clients = s.clients)
      (apart : thread ≠ .balancer) (inside : t.Inside thread = true) : s.Inside thread = true :=
    (inside_balance clients apart).symm.trans inside
  have inside : s.Inside .balancer = there.inside := congrArg BalancerPlace.inside here
  cases there with
  | lock | relock | assignLock vac =>
    simp only [balancerAccess] at step
    split_ifs at step with free
    cases step
    exact exclusive.take free rfl fun thread => other thread rfl
  | test | pop | assignRemove vac =>
    cases step
    exact exclusive.balancer_keep rfl rfl fun _ => inside
  | wait =>
    cases step
    refine exclusive.release inside ?_ fun thread => other thread rfl
    cases backend <;> rfl
  | unlock vac | assignUnlock =>
    cases step
    exact exclusive.release inside rfl fun thread => other thread rfl
  | blocked => cases step
  | semRead =>
    simp only [balancerAccess, Option.some.injEq] at step
    split_ifs at step <;> cases step
    · exact exclusive.balancer_keep rfl rfl nofun
    · exact exclusive
  | semSwap value =>
    simp only [balancerAccess, Option.some.injEq] at step
    split_ifs at step <;> cases step <;> exact exclusive.balancer_keep rfl rfl nofun
  | returned vac =>
    simp only [balancerAccess, Option.some.injEq] at step
    split_ifs at step <;> cases step <;> exact exclusive.balancer_keep rfl rfl nofun
  | assign vac =>
    cases vac with
    | none => cases step
    | some vac =>
      cases step
      exact exclusive.balancer_keep rfl rfl nofun

/-- **Every step keeps the threads apart.** -/
theorem orphanStep_exclusive {move : OrphanMove} (exclusive : s.Exclusive)
    (step : orphanStep backend s move = some t) : t.Exclusive := by
  cases move with
  | call client call =>
    simp only [orphanStep] at step
    split_ifs at step
    cases step
    exact exclusive.client_keep rfl rfl rfl nofun
  | spurious =>
    simp only [orphanStep] at step
    split_ifs at step
    cases step
    exact exclusive.balancer_keep rfl rfl nofun
  | next client => exact clientAccess_exclusive exclusive step rfl
  | balancer => exact balancerAccess_exclusive exclusive step rfl

theorem orphanInit_exclusive : orphanInit.Exclusive := by
  intro thread inside
  cases thread <;> cases inside

/-! ### The orphans -/

/-- What is known where the balancer is. -/
def PlaceOk (s : OrphanState) : BalancerPlace → Prop
  | .semRead => s.second = true → s.Token → s.orphans ≠ []
  | .semSwap value => s.second = true → (1 ≤ value ∧ value < 2 ^ 31) ∧ (s.Token → s.orphans ≠ [])
  | .relock | .pop => s.second = true → s.orphans ≠ []
  | .unlock vac | .returned vac => s.second = true → vac ≠ none
  | .assign vac => vac ≠ none
  | _ => True

/-- **The invariant.** The threads are apart, there is an orphan when a client notifies, and an
orphan for the balancer when it wakes up in its second call. -/
structure WakeInv (s : OrphanState) : Prop where
  exclusive : s.Exclusive
  notify : ∀ client, s.clients client = .notify → s.orphans ≠ []
  place : s.PlaceOk s.balancer

/-- The orphans change, and an orphan is left where the balancer needs one. -/
theorem PlaceOk.frame (ok : s.PlaceOk there) (second : t.second = s.second)
    (semaphore : t.semaphore = s.semaphore)
    (orphans : s.second = true → there = .pop ∨ s.Waits → s.orphans ≠ [] → t.orphans ≠ [])
    (here : s.balancer = there) : t.PlaceOk there := by
  have waits (second : s.second = true) (waiting : there.waiting = true) : s.Waits :=
    ⟨second, by rw [here, waiting]⟩
  have token (has : t.Token) : s.Token := by
    unfold Token at has ⊢
    rw [← semaphore]
    exact has
  cases there with
  | semRead =>
    intro again has
    rw [second] at again
    exact orphans again (Or.inr (waits again rfl)) (ok again (token has))
  | semSwap value =>
    intro again
    rw [second] at again
    exact ⟨(ok again).1, fun has => orphans again (Or.inr (waits again rfl))
      ((ok again).2 (token has))⟩
  | relock =>
    intro again
    rw [second] at again
    exact orphans again (Or.inr (waits again rfl)) (ok again)
  | pop =>
    intro again
    rw [second] at again
    exact orphans again (Or.inl rfl) (ok again)
  | unlock vac | returned vac =>
    intro again
    rw [second] at again
    exact ok again
  | _ => exact ok

/-- A client moves and the list stays. -/
theorem WakeInv.client_moved (inv : s.WakeInv) (exclusive : t.Exclusive)
    (orphans : t.orphans = s.orphans) (second : t.second = s.second)
    (semaphore : t.semaphore = s.semaphore) (balancer : t.balancer = s.balancer)
    (clients : t.clients = Function.update s.clients client place) (other : place ≠ .notify) :
    t.WakeInv := by
  refine ⟨exclusive, fun one at' => ?_, ?_⟩
  · rw [orphans]
    rw [clients] at at'
    by_cases same : one = client
    · rw [same, Function.update_self] at at'
      exact absurd at' other
    · rw [Function.update_of_ne same] at at'
      exact inv.notify one at'
  · rw [balancer]
    exact inv.place.frame second semaphore (fun _ _ left => orphans ▸ left) rfl

/-- While there are orphans, it does not matter what else changes. -/
theorem PlaceOk.nonempty (ok : s.PlaceOk there) (second : t.second = s.second)
    (left : t.orphans ≠ []) : t.PlaceOk there := by
  cases there with
  | semRead => exact fun _ _ => left
  | semSwap value => exact fun again => ⟨(ok (second ▸ again)).1, fun _ => left⟩
  | relock | pop => exact fun _ => left
  | unlock vac | returned vac => exact fun again => ok (second ▸ again)
  | _ => exact ok

/-- **Every guarded step of a client.** -/
theorem clientAccess_wake (inv : s.WakeInv) (guard : WakeGuard backend s (.next client))
    (step : s.clientAccess backend client place = some t) (here : s.clients client = place) :
    t.WakeInv := by
  have exclusive := clientAccess_exclusive inv.exclusive step here
  cases place with
  | out => cases step
  | lock call =>
    simp only [clientAccess] at step
    split_ifs at step
    cases step
    exact inv.client_moved exclusive rfl rfl rfl rfl rfl nofun
  | change call =>
    cases call with
    | add vac =>
      simp only [clientAccess] at step
      split_ifs at step
      cases step
      have left : vac :: s.orphans ≠ [] := List.cons_ne_nil _ _
      exact ⟨exclusive, fun _ _ => left, inv.place.nonempty rfl left⟩
    | remove vac =>
      cases step
      have held : s.Inside (.client client) = true := congrArg OrphanPlace.inside here
      refine ⟨exclusive, fun one at' => ?_, ?_⟩
      · -- nobody else has the lock, so nobody else notifies
        exfalso
        by_cases same : one = client
        · rw [same] at at'
          cases (Function.update_self client _ s.clients).symm.trans at'
        · have there : s.clients one = .notify :=
            (Function.update_of_ne same _ s.clients).symm.trans at'
          have inside : s.Inside (.client one) = true := congrArg OrphanPlace.inside there
          exact same (OrphanThread.client.inj (inv.exclusive.alone inside held))
      · refine inv.place.frame rfl rfl (fun again where' left => ?_) rfl
        rcases where' with pop | waits
        · have inside : s.Inside .balancer = true := congrArg BalancerPlace.inside pop
          cases inv.exclusive.alone inside held
        · by_cases member : vac ∈ s.orphans
          · exact guard vac member here waits
          · show s.orphans.erase vac ≠ []
            rw [List.erase_of_not_mem member]
            exact left
  | notify =>
    cases step
    have nonempty : s.orphans ≠ [] := inv.notify client here
    obtain ⟨-, clients, orphans, second, balancer⟩ := notify_spec backend s
    have left : ((s.notify backend).goto client .unlock).orphans ≠ [] := by
      show (s.notify backend).orphans ≠ []
      rw [orphans]
      exact nonempty
    refine ⟨exclusive, fun _ _ => left, ?_⟩
    show PlaceOk _ (s.notify backend).balancer
    rcases balancer with same | ⟨-, woken⟩
    · rw [same]
      exact inv.place.nonempty second left
    · rw [woken]
      exact fun _ => left
  | unlock =>
    cases step
    exact inv.client_moved exclusive rfl rfl rfl rfl rfl nofun

/-- The balancer moves and the list stays. -/
theorem WakeInv.balancer_moved (inv : s.WakeInv) (exclusive : t.Exclusive)
    (clients : t.clients = s.clients) (orphans : t.orphans = s.orphans)
    (place : t.PlaceOk t.balancer) : t.WakeInv := by
  refine ⟨exclusive, fun client at' => ?_, place⟩
  rw [orphans]
  exact inv.notify client (clients ▸ at')

/-- While the balancer is inside no client notifies. -/
theorem WakeInv.balancer_alone (inv : s.WakeInv) (held : s.Inside .balancer = true) (client : Nat)
    (notifies : s.clients client = .notify) : False := by
  have inside : s.Inside (.client client) = true := congrArg OrphanPlace.inside notifies
  cases inv.exclusive.alone inside held

/-- **Every guarded step of the balancer.** -/
theorem balancerAccess_wake (inv : s.WakeInv) (guard : WakeGuard backend s .balancer)
    (step : s.balancerAccess backend there = some t) (here : s.balancer = there) : t.WakeInv := by
  have exclusive := balancerAccess_exclusive inv.exclusive step here
  have ok : s.PlaceOk there := here ▸ inv.place
  cases there with
  | lock | assignLock vac =>
    simp only [balancerAccess] at step
    split_ifs at step
    cases step
    exact inv.balancer_moved exclusive rfl rfl trivial
  | relock =>
    simp only [balancerAccess] at step
    split_ifs at step
    cases step
    exact inv.balancer_moved exclusive rfl rfl ok
  | test =>
    cases step
    refine inv.balancer_moved exclusive rfl rfl ?_
    show PlaceOk _ (if s.orphans = [] then .wait else .pop)
    split_ifs with empty
    · trivial
    · exact fun _ => empty
  | wait =>
    cases step
    refine inv.balancer_moved exclusive rfl rfl ?_
    cases backend with
    | mutex => trivial
    | spin => exact fun again has => absurd has (guard rfl again here)
  | blocked => cases step
  | semRead =>
    simp only [balancerAccess, Option.some.injEq] at step
    split_ifs at step with seen
    · cases step
      exact inv.balancer_moved exclusive rfl rfl fun again => ⟨seen, ok again⟩
    · cases step
      exact inv
  | semSwap value =>
    simp only [balancerAccess, Option.some.injEq] at step
    split_ifs at step with same
    · cases step
      refine inv.balancer_moved exclusive rfl rfl fun again => ?_
      obtain ⟨bounds, left⟩ := ok again
      exact left (by unfold Token; rw [same]; exact bounds)
    · cases step
      exact inv.balancer_moved exclusive rfl rfl fun again => (ok again).2
  | pop =>
    cases step
    have held : s.Inside .balancer = true := congrArg BalancerPlace.inside here
    refine ⟨exclusive, fun client at' => (inv.balancer_alone held client at').elim, fun again => ?_⟩
    rw [ne_eq, List.head?_eq_none_iff]
    exact ok again
  | unlock vac =>
    cases step
    exact inv.balancer_moved exclusive rfl rfl ok
  | returned vac =>
    simp only [balancerAccess, Option.some.injEq] at step
    split_ifs at step with first
    · cases step
      exact inv.balancer_moved exclusive rfl rfl trivial
    · cases step
      refine inv.balancer_moved exclusive rfl rfl fun null => ?_
      have again : s.second = true := eq_true_of_ne_false fun once => first ⟨null, once⟩
      exact ok again null
  | assign vac =>
    cases vac with
    | none => cases step
    | some vac =>
      cases step
      exact inv.balancer_moved exclusive rfl rfl trivial
  | assignRemove vac =>
    cases step
    have held : s.Inside .balancer = true := congrArg BalancerPlace.inside here
    exact ⟨exclusive, fun client at' => (inv.balancer_alone held client at').elim, trivial⟩
  | assignUnlock =>
    cases step
    exact inv.balancer_moved exclusive rfl rfl trivial

/-- **Every guarded step keeps the invariant.** -/
theorem orphanStep_wake {move : OrphanMove} (inv : s.WakeInv) (guard : WakeGuard backend s move)
    (step : orphanStep backend s move = some t) : t.WakeInv := by
  have exclusive := orphanStep_exclusive inv.exclusive step
  cases move with
  | call client call =>
    simp only [orphanStep] at step
    split_ifs at step
    cases step
    exact inv.client_moved exclusive rfl rfl rfl rfl rfl nofun
  | spurious =>
    simp only [orphanStep] at step
    split_ifs at step
    cases step
    have once : s.second = false := guard
    refine inv.balancer_moved exclusive rfl rfl fun again => ?_
    cases once.symm.trans again
  | next client => exact clientAccess_wake inv guard step rfl
  | balancer => exact balancerAccess_wake inv guard step rfl

theorem orphanInit_wake : orphanInit.WakeInv :=
  ⟨orphanInit_exclusive, fun _ => nofun, trivial⟩

end OrphanState

/-- **The balancer assigns VAQs.** In a run whose steps all meet the condition, `assignVac` is never
called with null. -/
theorem balancer_assigns (backend : ConditionBackend) (moves : List OrphanMove) (s : OrphanState)
    (guarded : Guarded (orphanStep backend) (WakeGuard backend) orphanInit moves)
    (run : exec (orphanStep backend) orphanInit moves = some s) : s.balancer ≠ .assign none := by
  have inv : s.WakeInv :=
    exec_guarded (fun _ _ _ => OrphanState.orphanStep_wake) OrphanState.orphanInit_wake guarded run
  intro null
  have ok := inv.place
  rw [null] at ok
  exact ok rfl

/-- The balancer waits, a client adds a VAQ, and the balancer takes the token and the VAQ. -/
def tokenMoves : List OrphanMove :=
  [.balancer, .balancer, .balancer, .call 1 (.add 7), .next 1, .next 1, .next 1, .next 1,
    .balancer, .balancer, .balancer, .balancer, .balancer, .balancer]

theorem balancer_assigns_at_token :
    ∃ s, exec (orphanStep .spin) orphanInit tokenMoves = some s ∧ s.balancer ≠ .assign none := by
  have view : (exec (orphanStep .spin) orphanInit tokenMoves).isSome = true := by decide +kernel
  obtain ⟨s, run⟩ := Option.isSome_iff_exists.mp view
  exact ⟨s, run, balancer_assigns .spin tokenMoves s (by decide +kernel) run⟩

/-- A client adds a VAQ. -/
def addMoves (client vac : Nat) : List OrphanMove :=
  [.call client (.add vac), .next client, .next client, .next client, .next client]

/-- A client removes a VAQ. -/
def removeMoves (client vac : Nat) : List OrphanMove :=
  [.call client (.remove vac), .next client, .next client, .next client]

/-- The balancer finds an orphan and assigns it, up to the next round. -/
def assignMoves : List OrphanMove := List.replicate 9 .balancer

/-- Two VAQs are added before the balancer looks: their tokens are left over, and the next two
waits end at once. -/
def leftoverMoves : List OrphanMove :=
  addMoves 1 7 ++ addMoves 1 8 ++ assignMoves ++ assignMoves ++ List.replicate 18 .balancer

/-- Twice, a VAQ is added while the balancer waits and removed before it wakes up. -/
def removedMoves : List OrphanMove :=
  List.replicate 3 .balancer ++ addMoves 1 7 ++ removeMoves 1 7 ++ List.replicate 7 .balancer ++
    addMoves 1 8 ++ removeMoves 1 8 ++ List.replicate 4 .balancer

/-- **A null VAQ is assigned,** on both backends. -/
theorem null_assigned :
    (¬∀ moves s, exec (orphanStep .spin) orphanInit moves = some s → s.balancer ≠ .assign none) ∧
    (¬∀ moves s, exec (orphanStep .mutex) orphanInit moves = some s →
      s.balancer ≠ .assign none) := by
  have spin : (exec (orphanStep .spin) orphanInit leftoverMoves).map OrphanState.balancer =
      some (.assign none) := by decide +kernel
  have mutex : (exec (orphanStep .mutex) orphanInit removedMoves).map OrphanState.balancer =
      some (.assign none) := by decide +kernel
  obtain ⟨s, spinRun, spinNull⟩ := Option.map_eq_some_iff.mp spin
  obtain ⟨t, mutexRun, mutexNull⟩ := Option.map_eq_some_iff.mp mutex
  exact ⟨fun claimed => claimed leftoverMoves s spinRun spinNull,
    fun claimed => claimed removedMoves t mutexRun mutexNull⟩

/-! ### Where the condition is broken -/

/-- A null VAQ can be assigned. -/
def NullReachable (backend : ConditionBackend) (s : OrphanState) : Prop :=
  ∃ moves t, exec (orphanStep backend) s moves = some t ∧ t.balancer = .assign none

section Broken

variable {backend : ConditionBackend} {s t : OrphanState} {client vac : Nat}

theorem NullReachable.step {move : OrphanMove} (step : orphanStep backend s move = some t)
    (later : NullReachable backend t) : NullReachable backend s := by
  obtain ⟨moves, last, run, null⟩ := later
  refine ⟨move :: moves, last, ?_, null⟩
  rw [exec, step]
  exact run

/-- The balancer has woken up in its second call, and there is no orphan. -/
theorem woken_null (relock : s.balancer = .relock) (second : s.second = true)
    (free : s.holder = none) (empty : s.orphans = []) : NullReachable backend s := by
  refine ⟨[.balancer, .balancer, .balancer, .balancer],
    { s with balancer := .assign none, holder := none }, ?_, rfl⟩
  simp only [exec, orphanStep, relock, OrphanState.balancerAccess, free, if_true,
    OrphanState.balance, Option.bind_some, empty, List.head?_nil, List.tail_nil, second,
    Bool.true_eq_false, and_false, if_false]

/-- A client removes the last orphan when the balancer has woken up. -/
theorem removed_null (relock : s.balancer = .relock) (second : s.second = true)
    (removes : s.clients client = .change (.remove vac)) (last : s.orphans.erase vac = []) :
    NullReachable backend s := by
  have removed : orphanStep backend s (.next client) =
      some { s.goto client .unlock with orphans := s.orphans.erase vac } := by
    simp only [orphanStep, removes, OrphanState.clientAccess]
  refine .step removed ?_
  have unlocked : orphanStep backend { s.goto client .unlock with orphans := s.orphans.erase vac }
      (.next client) = some { (s.goto client .unlock).goto client .out with
        orphans := s.orphans.erase vac, holder := none } := by
    simp only [orphanStep, OrphanState.goto, Function.update_self, OrphanState.clientAccess]
  exact .step unlocked (woken_null relock second rfl last)

/-- On the spin backend, a token is left over when the balancer begins to wait. -/
theorem leftover_null (wait : s.balancer = .wait) (second : s.second = true) (token : s.Token)
    (empty : s.orphans = []) : NullReachable .spin s := by
  have waits : orphanStep .spin s .balancer =
      some { s.balance .semRead with holder := none } := by
    simp only [orphanStep, wait, OrphanState.balancerAccess]
  have reads : orphanStep .spin { s.balance .semRead with holder := none } .balancer =
      some { s.balance (.semSwap s.semaphore) with holder := none } := by
    have value : s.semaphore % 2 ^ 32 = s.semaphore :=
      Nat.mod_eq_of_lt (Nat.lt_trans token.2 (by decide))
    simp only [orphanStep, OrphanState.balance, OrphanState.balancerAccess, value]
    exact congrArg some (if_pos token)
  have swaps : orphanStep .spin { s.balance (.semSwap s.semaphore) with holder := none }
      .balancer = some { s.balance .relock with
        holder := none, semaphore := s.semaphore - 1 } := by
    simp only [orphanStep, OrphanState.balance, OrphanState.balancerAccess, if_true]
  exact .step waits (.step reads (.step swaps (woken_null rfl second rfl empty)))

/-- On the mutex backend, the balancer wakes up without a broadcast. -/
theorem spurious_null (blocked : s.balancer = .blocked) (second : s.second = true)
    (free : s.holder = none) (empty : s.orphans = []) : NullReachable .mutex s := by
  have wakes : orphanStep .mutex s .spurious = some (s.balance .relock) := by
    simp only [orphanStep, if_pos blocked]
  exact .step wakes (woken_null rfl second free empty)

end Broken

end Arax.Controller
