/-
**The throttle on the mutex backend (`src/core/arax_throttle.c`, `src/async/mutex/async.c`).**

Any number of threads take bytes from a throttle and give them back. The calls are cut at their
accesses: lock, the test of the loop, the wait on the condition, the change of `available`, the
assertion, the broadcast, and the unlock, which is `pthread_mutex_trylock` followed by
`pthread_mutex_unlock`. A wait releases the mutex and blocks in one step; a broadcast, or a spurious
wake-up, makes a blocked thread compete for the mutex again.

`taken` are the bytes that were taken and not returned. That a call returns bytes which were taken
before is asked where it adds them, which is less than asking it where it starts.

* `ThrottleSound` — the balance, the bounds, the assertions, and no lost wake-up.
* `throttle_sound` — it holds in every state of every run.
-/

import Mathlib.Algebra.Group.Nat.Defs
import Mathlib.Logic.Function.Basic
import Mathlib.Tactic.SplitIfs
import Arax.Lib.Run

namespace Arax.Core

open Arax.Lib

/-- Where a thread is in its call. -/
inductive ThrottlePlace where
  | out
  /-- `arax_throttle_size_dec` before `async_condition_lock`. -/
  | decLock (sz : Nat)
  /-- At `while (thr->available < sz)`. -/
  | decTest (sz : Nat)
  /-- Blocked in `pthread_cond_wait`. -/
  | decWaiting (sz : Nat)
  /-- Woken up in `pthread_cond_wait`, which locks the mutex again. -/
  | decWoken (sz : Nat)
  /-- At `thr->available -= sz`. -/
  | decTake (sz : Nat)
  /-- At the assertion of `arax_throttle_size_dec`. -/
  | decCheck
  /-- `arax_throttle_size_inc` before `async_condition_lock`. -/
  | incLock (sz : Nat)
  /-- At `thr->available += sz`. -/
  | incAdd (sz : Nat)
  /-- At the assertion of `arax_throttle_size_inc`. -/
  | incCheck
  /-- At `async_condition_notify`. -/
  | incNotify
  /-- At `pthread_mutex_trylock` of `async_completion_complete`. -/
  | tryLock
  /-- At `pthread_mutex_unlock` of `async_completion_complete`. -/
  | unlock
  /-- An assertion failed. -/
  | aborted
  deriving DecidableEq

/-- `arax_throttle_s`, the threads, and the bytes that were taken and not returned. -/
structure ThrottleState where
  available : Nat
  capacity : Nat
  /-- The thread that holds the mutex. -/
  mutex : Option Nat
  threads : Nat → ThrottlePlace
  taken : Nat

/-- `arax_throttle_init`, with its assertions. -/
def araxThrottleInit (aSz tSz : Nat) : Option ThrottleState :=
  if 0 < aSz ∧ 0 < tSz ∧ aSz ≤ tSz then
    some { available := aSz, capacity := tSz, mutex := none, threads := fun _ => .out, taken := 0 }
  else none

/-- What a thread does next. -/
inductive ThrottleMove where
  /-- Call `arax_throttle_size_dec`. -/
  | sizeDec (sz : Nat)
  /-- Call `arax_throttle_size_inc`. -/
  | sizeInc (sz : Nat)
  /-- Make the next access of its call. -/
  | next
  /-- Wake up without a broadcast. -/
  | spurious
  deriving DecidableEq

/-- The thread `th` is now at `place`. -/
def ThrottleState.goto (s : ThrottleState) (th : Nat) (place : ThrottlePlace) : ThrottleState :=
  { s with threads := Function.update s.threads th place }

/-- `pthread_mutex_lock`. -/
def ThrottleState.lock (s : ThrottleState) (th : Nat) (place : ThrottlePlace) :
    Option ThrottleState :=
  if s.mutex = none then some { s.goto th place with mutex := some th } else none

/-- `pthread_cond_broadcast`: no thread is blocked any more. -/
def wakeUp : ThrottlePlace → ThrottlePlace
  | .decWaiting sz => .decWoken sz
  | place => place

/-- The next access of a call. -/
def throttleAccess (s : ThrottleState) (th : Nat) : ThrottlePlace → Option ThrottleState
  | .out | .decWaiting _ | .aborted => none
  | .decLock sz => s.lock th (.decTest sz)
  | .decTest sz =>
    some (if s.available < sz then { s.goto th (.decWaiting sz) with mutex := none }
      else s.goto th (.decTake sz))
  | .decWoken sz => s.lock th (.decTest sz)
  | .decTake sz =>
    some { s.goto th .decCheck with
      available := (2 ^ 64 - sz + s.available) % 2 ^ 64, taken := s.taken + sz }
  | .decCheck => some (s.goto th (if s.available ≤ s.capacity then .tryLock else .aborted))
  | .incLock sz => s.lock th (.incAdd sz)
  | .incAdd sz =>
    if sz ≤ s.taken then
      some { s.goto th .incCheck with
        available := (s.available + sz) % 2 ^ 64, taken := s.taken - sz }
    else none
  | .incCheck => some (s.goto th (if s.available ≤ s.capacity then .incNotify else .aborted))
  | .incNotify =>
    some { s with threads := Function.update (fun other => wakeUp (s.threads other)) th .tryLock }
  | .tryLock =>
    some { s.goto th .unlock with mutex := if s.mutex = none then some th else s.mutex }
  | .unlock => if s.mutex = some th then some { s.goto th .out with mutex := none } else none

/-- One move of one thread. Calls with `sz == 0` return at once. -/
def throttleStep (s : ThrottleState) : Nat × ThrottleMove → Option ThrottleState
  | (th, .sizeDec sz) =>
    if s.threads th = .out then some (if sz = 0 then s else s.goto th (.decLock sz)) else none
  | (th, .sizeInc sz) =>
    if s.threads th = .out then some (if sz = 0 then s else s.goto th (.incLock sz)) else none
  | (th, .next) => throttleAccess s th (s.threads th)
  | (th, .spurious) =>
    match s.threads th with
    | .decWaiting sz => some (s.goto th (.decWoken sz))
    | _ => none

/-- What the throttle guarantees in every state. -/
structure ThrottleSound (aSz : Nat) (s : ThrottleState) : Prop where
  /-- `available` is `a_sz` without the bytes taken and not returned. -/
  balance : s.available + s.taken = aSz
  bounded : s.available ≤ s.capacity
  /-- What is subtracted was available. -/
  noUnderflow : ∀ th sz, s.threads th = .decTake sz → sz ≤ s.available
  asserted : ∀ th, s.threads th ≠ .aborted
  /-- With the mutex free, a request that fits is not blocked. -/
  wokenUp : s.mutex = none → ∀ th sz, s.threads th = .decWaiting sz → s.available < sz

/-! ### The invariant -/

/-- What holds at a place. A thread is blocked with a request that fits only while another one,
which holds the mutex, has yet to broadcast. -/
def ThrottlePlaceInv (s : ThrottleState) (th : Nat) : ThrottlePlace → Prop
  | .decTest _ | .decCheck | .incAdd _ | .incCheck | .incNotify | .tryLock | .unlock =>
    s.mutex = some th
  | .decTake sz => s.mutex = some th ∧ sz ≤ s.available
  | .decWaiting sz => s.available < sz ∨
      ∃ other, s.mutex = some other ∧
        (s.threads other = .incCheck ∨ s.threads other = .incNotify)
  | .aborted => False
  | .out | .decLock _ | .decWoken _ | .incLock _ => True

/-- The invariant of the throttle. -/
structure ThrottleInv (aSz tSz : Nat) (s : ThrottleState) : Prop where
  capacity : s.capacity = tSz
  balance : s.available + s.taken = aSz
  places : ∀ th, ThrottlePlaceInv s th (s.threads th)

section Steps

variable {aSz tSz : Nat} {s t : ThrottleState} {th : Nat}

/-- A thread that does not hold the mutex, while another one does or nobody: only its wait depends
on what that one does. -/
theorem ThrottlePlaceInv.frame {other : Nat} {place : ThrottlePlace}
    (inv : ThrottlePlaceInv s other place) (apart : other ≠ th)
    (alone : s.mutex = none ∨ s.mutex = some th)
    (waits : ∀ sz, place = .decWaiting sz → ThrottlePlaceInv t other (.decWaiting sz)) :
    ThrottlePlaceInv t other place := by
  have outside : s.mutex ≠ some other := by
    intro holds
    rcases alone with free | held
    · rw [free] at holds
      cases holds
    · rw [held] at holds
      exact apart (Option.some.inj holds).symm
  cases place with
  | decWaiting sz => exact waits sz rfl
  | out | decLock sz | decWoken sz | incLock sz => trivial
  | aborted => exact inv
  | decTake sz => exact absurd inv.1 outside
  | decTest sz | decCheck | incAdd sz | incCheck | incNotify | tryLock | unlock =>
    exact absurd inv outside

/-- A thread that is blocked while nobody is about to broadcast. -/
theorem ThrottlePlaceInv.too_large {other sz : Nat} (th : Nat)
    (inv : ThrottlePlaceInv s other (.decWaiting sz)) (alone : s.mutex = none ∨ s.mutex = some th)
    (quiet : s.threads th ≠ .incCheck ∧ s.threads th ≠ .incNotify) : s.available < sz := by
  rcases inv with small | ⟨holder, holds, posting⟩
  · exact small
  · rcases alone with free | held
    · rw [free] at holds
      cases holds
    · rw [held] at holds
      cases holds
      rcases posting with checks | notifies
      · exact absurd checks quiet.1
      · exact absurd notifies quiet.2

/-- A move that changes neither `available` nor the mutex, by a thread that is not in the critical
section. -/
theorem ThrottleInv.quiet {place : ThrottlePlace} (inv : ThrottleInv aSz tSz s)
    (from' : s.threads th ≠ .incCheck ∧ s.threads th ≠ .incNotify)
    (here : ThrottlePlaceInv (s.goto th place) th place) :
    ThrottleInv aSz tSz (s.goto th place) := by
  refine ⟨inv.capacity, inv.balance, ?_⟩
  refine (Function.forall_update_iff s.threads
    fun other place' => ThrottlePlaceInv (s.goto th place) other place').mpr ⟨here, ?_⟩
  intro other apart
  have before := inv.places other
  cases spot : s.threads other with
  | decWaiting sz =>
    rw [spot] at before
    refine before.imp_right fun ⟨holder, holds, posting⟩ => ⟨holder, holds, ?_⟩
    have away : holder ≠ th := by
      rintro rfl
      exact posting.elim from'.1 from'.2
    have same : (s.goto th place).threads holder = s.threads holder :=
      Function.update_of_ne away _ _
    rw [same]
    exact posting
  | out | decLock sz | decWoken sz | incLock sz => trivial
  | aborted | decTake sz | decTest sz | decCheck | incAdd sz | incCheck | incNotify | tryLock
  | unlock =>
    rw [spot] at before
    exact before

/-- A move in the critical section, or into it. -/
theorem ThrottleInv.critical {place : ThrottlePlace} (inv : ThrottleInv aSz tSz s)
    (alone : s.mutex = none ∨ s.mutex = some th)
    (threads : t.threads = Function.update s.threads th place) (capacity : t.capacity = s.capacity)
    (balance : t.available + t.taken = aSz) (here : ThrottlePlaceInv t th place)
    (waits : ∀ other sz, s.threads other = .decWaiting sz →
      ThrottlePlaceInv t other (.decWaiting sz)) : ThrottleInv aSz tSz t := by
  refine ⟨capacity.trans inv.capacity, balance, ?_⟩
  rw [threads]
  refine (Function.forall_update_iff s.threads
    fun other place' => ThrottlePlaceInv t other place').mpr ⟨here, fun other apart => ?_⟩
  exact (inv.places other).frame apart alone (waits other)

/-- A move in the critical section that leaves `available` and makes nobody wait for a broadcast. -/
theorem ThrottleInv.critical_quiet {place : ThrottlePlace} (inv : ThrottleInv aSz tSz s)
    (alone : s.mutex = none ∨ s.mutex = some th)
    (quiet : s.threads th ≠ .incCheck ∧ s.threads th ≠ .incNotify)
    (threads : t.threads = Function.update s.threads th place) (capacity : t.capacity = s.capacity)
    (available : t.available = s.available) (taken : t.taken = s.taken)
    (here : ThrottlePlaceInv t th place) : ThrottleInv aSz tSz t := by
  refine inv.critical alone threads capacity ?_ here fun other sz blocked => .inl ?_
  · rw [available, taken]
    exact inv.balance
  · have before := inv.places other
    rw [blocked] at before
    rw [available]
    exact before.too_large th alone quiet

/-- `pthread_mutex_lock`. -/
theorem ThrottleInv.lock {place : ThrottlePlace} (inv : ThrottleInv aSz tSz s)
    (quiet : s.threads th ≠ .incCheck ∧ s.threads th ≠ .incNotify)
    (inside : ∀ t : ThrottleState, t.mutex = some th → ThrottlePlaceInv t th place)
    (step : s.lock th place = some t) : ThrottleInv aSz tSz t := by
  unfold ThrottleState.lock at step
  split_ifs at step with free
  cases step
  exact inv.critical_quiet (.inl free) quiet rfl rfl rfl rfl (inside _ rfl)

/-- `pthread_cond_broadcast`. -/
theorem ThrottleInv.notify (inv : ThrottleInv aSz tSz s) (at' : s.threads th = .incNotify) :
    ThrottleInv aSz tSz { s with
      threads := Function.update (fun other => wakeUp (s.threads other)) th .tryLock } := by
  have held := inv.places th
  rw [at'] at held
  refine ⟨inv.capacity, inv.balance, ?_⟩
  refine (Function.forall_update_iff (fun other => wakeUp (s.threads other))
    fun other place => ThrottlePlaceInv _ other place).mpr ⟨held, fun other apart => ?_⟩
  have before := inv.places other
  cases spot : s.threads other with
  | decWaiting sz => trivial
  | out | decLock sz | decWoken sz | incLock sz => trivial
  | aborted | decTake sz | decTest sz | decCheck | incAdd sz | incCheck | incNotify | tryLock
  | unlock =>
    rw [spot] at before
    exact before

/-- What was available and what was taken are at most `a_sz`. -/
theorem ThrottleInv.below (inv : ThrottleInv aSz tSz s) : s.available ≤ aSz ∧ s.taken ≤ aSz := by
  have balance := inv.balance
  omega

/-- **Every access keeps the invariant.** -/
theorem throttleAccess_inv (small : aSz ≤ tSz) (word : tSz < 2 ^ 64) (inv : ThrottleInv aSz tSz s)
    (step : throttleAccess s th (s.threads th) = some t) : ThrottleInv aSz tSz t := by
  have here := inv.places th
  have balance := inv.balance
  have below := inv.below
  have quiet : ∀ place, s.threads th = place → place ≠ .incCheck → place ≠ .incNotify →
      s.threads th ≠ .incCheck ∧ s.threads th ≠ .incNotify := by
    rintro place rfl notCheck notNotify
    exact ⟨notCheck, notNotify⟩
  have bounded : s.available ≤ s.capacity := by
    rw [inv.capacity]
    omega
  cases at' : s.threads th with
  | out | decWaiting sz | aborted =>
    rw [at'] at step
    cases step
  | decLock sz | decWoken sz | incLock sz =>
    rw [at'] at step
    refine inv.lock (quiet _ at' (by simp) (by simp)) ?_ step
    exact fun _ holds => holds
  | decTest sz =>
    rw [at'] at step here
    cases step
    split_ifs with short
    · refine inv.critical_quiet (.inr here) (quiet _ at' (by simp) (by simp)) rfl rfl rfl rfl ?_
      exact .inl short
    · refine inv.critical_quiet (.inr here) (quiet _ at' (by simp) (by simp)) rfl rfl rfl rfl ?_
      exact ⟨here, Nat.le_of_not_lt short⟩
  | decTake sz =>
    rw [at'] at step here
    obtain ⟨held, fits⟩ := here
    cases step
    have left : (2 ^ 64 - sz + s.available) % 2 ^ 64 = s.available - sz := by omega
    refine inv.critical (.inr held) rfl rfl ?_ held fun other size blocked => .inl ?_
    · show (2 ^ 64 - sz + s.available) % 2 ^ 64 + (s.taken + sz) = aSz
      omega
    · have before := inv.places other
      rw [blocked] at before
      have large := before.too_large th (.inr held) (quiet _ at' (by simp) (by simp))
      show (2 ^ 64 - sz + s.available) % 2 ^ 64 < size
      omega
  | decCheck =>
    rw [at'] at step here
    cases step
    rw [if_pos bounded]
    exact inv.critical_quiet (.inr here) (quiet _ at' (by simp) (by simp)) rfl rfl rfl rfl here
  | incAdd sz =>
    rw [at'] at step here
    simp only [throttleAccess] at step
    split_ifs at step with owed
    cases step
    have more : (s.available + sz) % 2 ^ 64 = s.available + sz := Nat.mod_eq_of_lt (by omega)
    refine inv.critical (.inr here) rfl rfl ?_ here fun other size blocked => .inr ?_
    · show (s.available + sz) % 2 ^ 64 + (s.taken - sz) = aSz
      omega
    · exact ⟨th, here, .inl (Function.update_self ..)⟩
  | incCheck =>
    rw [at'] at step here
    cases step
    rw [if_pos bounded]
    refine inv.critical (.inr here) rfl rfl balance here fun other size blocked => .inr ?_
    exact ⟨th, here, .inr (Function.update_self ..)⟩
  | incNotify =>
    rw [at'] at step
    cases step
    exact inv.notify at'
  | tryLock =>
    rw [at'] at step here
    cases step
    refine inv.critical_quiet (.inr here) (quiet _ at' (by simp) (by simp)) rfl rfl rfl rfl ?_
    show (if s.mutex = none then some th else s.mutex) = some th
    rw [here]
    rfl
  | unlock =>
    rw [at'] at step here
    simp only [throttleAccess] at step
    split_ifs at step
    cases step
    exact inv.critical_quiet (.inr here) (quiet _ at' (by simp) (by simp)) rfl rfl rfl rfl trivial

/-- **Every move keeps the invariant.** -/
theorem throttleStep_inv (small : aSz ≤ tSz) (word : tSz < 2 ^ 64) {move : Nat × ThrottleMove}
    (inv : ThrottleInv aSz tSz s) (step : throttleStep s move = some t) :
    ThrottleInv aSz tSz t := by
  obtain ⟨th, move⟩ := move
  cases move with
  | sizeDec sz | sizeInc sz =>
    simp only [throttleStep] at step
    split_ifs at step with idle zero
    · cases step
      exact inv
    · cases step
      exact inv.quiet (by simp [idle]) trivial
  | next => exact throttleAccess_inv small word inv step
  | spurious =>
    simp only [throttleStep] at step
    split at step
    · rename_i sz blocked
      cases step
      exact inv.quiet (by simp [blocked]) trivial
    · cases step

end Steps

/-- What the invariant says about a state. -/
theorem ThrottleInv.sound {aSz tSz : Nat} {s : ThrottleState} (small : aSz ≤ tSz)
    (inv : ThrottleInv aSz tSz s) : ThrottleSound aSz s := by
  refine ⟨inv.balance, ?_, fun th sz at' => ?_, fun th at' => ?_, fun free th sz at' => ?_⟩
  · rw [inv.capacity]
    exact Nat.le_trans inv.below.1 small
  · have here := inv.places th
    rw [at'] at here
    exact here.2
  · have here := inv.places th
    rw [at'] at here
    exact here
  · have here := inv.places th
    rw [at'] at here
    exact here.too_large th (.inl free) (by simp [at'])

/-- **The throttle on the mutex backend.** With any number of threads, requests of any size and any
interleaving, `available` is `a_sz` without the bytes taken and not returned, it stays between zero
and `t_sz`, no assertion fails, and while nobody holds the mutex every blocked request is larger
than what is available. -/
theorem throttle_sound (aSz tSz : Nat) (word : tSz < 2 ^ 64) (s₀ s : ThrottleState)
    (init : araxThrottleInit aSz tSz = some s₀) (moves : List (Nat × ThrottleMove))
    (run : exec throttleStep s₀ moves = some s) : ThrottleSound aSz s := by
  unfold araxThrottleInit at init
  split_ifs at init with sizes
  cases init
  have start : ThrottleInv aSz tSz
      { available := aSz, capacity := tSz, mutex := none, threads := fun _ => .out, taken := 0 } :=
    ⟨rfl, rfl, fun _ => trivial⟩
  have inv := exec_invariant (fun _ _ _ inv step => throttleStep_inv sizes.2.2 word inv step)
    start run
  exact inv.sound sizes.2.2

/-- A thread takes everything, another one blocks, and is woken up when the bytes come back. -/
theorem throttle_sound_at_broadcast :
    ∃ s₀ s, araxThrottleInit 5 10 = some s₀ ∧
      exec throttleStep s₀ ((0, .sizeDec 5) :: List.replicate 6 (0, .next) ++
        [(1, .sizeDec 3), (1, .next), (1, .next), (0, .sizeInc 5)] ++
        List.replicate 6 (0, .next) ++ List.replicate 6 (1, .next)) = some s ∧
      s.available = 2 ∧ ThrottleSound 5 s := by
  have run : (exec throttleStep
      { available := 5, capacity := 10, mutex := none, threads := fun _ => .out, taken := 0 }
      ((0, .sizeDec 5) :: List.replicate 6 (0, .next) ++
        [(1, .sizeDec 3), (1, .next), (1, .next), (0, .sizeInc 5)] ++
        List.replicate 6 (0, .next) ++ List.replicate 6 (1, .next))).map
      ThrottleState.available = some 2 := by decide
  obtain ⟨s, run, available⟩ := Option.map_eq_some_iff.mp run
  exact ⟨_, s, rfl, run, available, throttle_sound 5 10 (by decide) _ s rfl _ run⟩

end Arax.Core
