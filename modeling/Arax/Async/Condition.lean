/-
**Conditions (`src/async/mutex/async.c`, `src/async/spin/async.c`).**

`async_condition_s` is a lock with a place to wait. Its callers lock it, wait in a loop until a test
holds, change what it protects, notify if they have to, and unlock it. The mutex backend has a
`pthread_mutex_t` and a `pthread_cond_t`; its unlock is `pthread_mutex_trylock` followed by
`pthread_mutex_unlock`. The spin backend has a completion, which is one while nobody has the lock,
and a semaphore that counts the notifications; a wait unlocks, takes one from the semaphore, and
locks again.

The threads make one access at a time. The lock is modelled by the thread that has it, and a retry
of a spinning thread that changes nothing is no move. The ivshmem backend is left out: its lock is
not exclusive, since `completed` is never reset.

* `condStep` — the calls on both backends.
* `CondState.abs`, `condStep_refines` — every access is one of the abstract monitor, or changes
  nothing there.
* `condition_sound` — what this means for every run.
* `CondState.left` — how many accesses a thread still makes.
-/

import Mathlib.Algebra.Order.Ring.Nat
import Mathlib.Data.List.Sublists
import Arax.Lib.Monitor

namespace Arax.Async

open Arax.Lib

variable {τ σ ω : Type*}

/-- `async_architecture`, where its conditions are monitors. -/
inductive CondArch where
  | mutex
  | spin
  deriving DecidableEq

/-- What `async_condition_notify` does: `pthread_cond_broadcast`, or `async_semaphore_inc`. -/
def CondArch.signal : CondArch → Signal
  | .mutex => .broadcast
  | .spin => .tokens

/-- Where a thread is in its call. -/
inductive CondPlace (ω : Type*) where
  | out
  /-- At `async_condition_lock`. -/
  | lock (op : ω)
  /-- At the test of the loop. -/
  | test (op : ω)
  /-- At `async_condition_wait`. -/
  | wait (op : ω)
  /-- In `pthread_cond_wait`. -/
  | blocked (op : ω)
  /-- At `value = sem->value` of `async_semaphore_dec`. -/
  | semRead (op : ω)
  /-- At the swap of `async_semaphore_dec`. -/
  | semSwap (op : ω) (value : Nat)
  /-- At the end of `async_condition_wait`, which locks again. -/
  | relock (op : ω)
  /-- Behind the loop. -/
  | act (op : ω)
  /-- At `async_condition_notify`. -/
  | notify (op : ω)
  /-- At `pthread_mutex_trylock` of `async_completion_complete`. -/
  | tryLock (op : ω)
  /-- At `pthread_mutex_unlock`, or at the swap of `async_completion_complete`. -/
  | unlock (op : ω)
  deriving DecidableEq

/-- `async_condition_s`, what it protects, the threads, and the operations that were applied. -/
structure CondState (τ σ ω : Type*) where
  object : σ
  /-- The thread that has the lock. -/
  holder : Option τ
  /-- `value` of the semaphore. -/
  semaphore : Nat
  places : τ → CondPlace ω
  log : List (τ × ω)

/-- `async_condition_init`. -/
def asyncConditionInit (object : σ) : CondState τ σ ω where
  object := object
  holder := none
  semaphore := 0
  places := fun _ => .out
  log := []

/-- What `pthread_cond_broadcast` does to a thread. -/
def CondPlace.wake : CondPlace ω → CondPlace ω
  | .blocked op => .relock op
  | place => place

/-- Where `async_condition_unlock` starts. -/
def CondArch.unlocking : CondArch → ω → CondPlace ω
  | .mutex, op => .tryLock op
  | .spin, op => .unlock op

/-- Where `async_condition_wait` waits. -/
def CondArch.waiting : CondArch → ω → CondPlace ω
  | .mutex, op => .blocked op
  | .spin, op => .semRead op

section Accesses

variable [DecidableEq τ]

/-- The thread `th` is now at `place`. -/
def CondState.goto (s : CondState τ σ ω) (th : τ) (place : CondPlace ω) : CondState τ σ ω :=
  { s with places := Function.update s.places th place }

/-- The next access of a call. -/
def condNext (arch : CondArch) (m : Monitor σ ω) (s : CondState τ σ ω) (th : τ) :
    CondPlace ω → Option (CondState τ σ ω)
  | .out | .blocked _ => none
  | .lock op | .relock op =>
    if s.holder = none then some { s.goto th (.test op) with holder := some th } else none
  | .test op => some (s.goto th (if m.ready op s.object then .act op else .wait op))
  | .wait op => some { s.goto th (arch.waiting op) with holder := none }
  | .semRead op =>
    -- `value` is an `int`: the low 32 bits, negative from 2 ^ 31 on
    let value := s.semaphore % 2 ^ 32
    if 1 ≤ value ∧ value < 2 ^ 31 then some (s.goto th (.semSwap op value)) else none
  | .semSwap op value =>
    some (if s.semaphore = value then { s.goto th (.relock op) with semaphore := value - 1 }
      else s.goto th (.semRead op))
  | .act op =>
    some { s.goto th (if m.notifies op s.object then .notify op else arch.unlocking op) with
      object := m.apply op s.object, log := s.log ++ [(th, op)] }
  | .notify op =>
    match arch with
    | .mutex =>
      some { s with places := Function.update (CondPlace.wake ∘ s.places) th (.tryLock op) }
    | .spin => some { s.goto th (.unlock op) with semaphore := (s.semaphore + 1) % 2 ^ 64 }
  | .tryLock op =>
    some { s.goto th (.unlock op) with holder := if s.holder = none then some th else s.holder }
  | .unlock _ => some { s.goto th .out with holder := none }

/-- One move of one thread. -/
def condStep (arch : CondArch) (m : Monitor σ ω) (s : CondState τ σ ω) :
    τ × MonitorMove ω → Option (CondState τ σ ω)
  | (th, .call op) => if s.places th matches .out then some (s.goto th (.lock op)) else none
  | (th, .next) => condNext arch m s th (s.places th)
  | (th, .spurious) =>
    match s.places th with
    | .blocked op => some (s.goto th (.relock op))
    | _ => none

/-- The condition on a move: on the spin backend one thread makes the calls that may have to wait,
and fewer than 2 ^ 31 notifications are in the semaphore. -/
def CondFits (arch : CondArch) (m : Monitor σ ω) (waiter : τ) (s : CondState τ σ ω)
    (move : τ × MonitorMove ω) : Prop :=
  CallFits m arch.signal waiter move ∧ (arch = .spin → s.semaphore + 1 < 2 ^ 31)

/-! ### The abstract monitor -/

/-- The place in the abstract monitor. -/
def CondPlace.abs : CondPlace ω → MonitorPlace ω
  | .out => .out
  | .lock op => .entering op
  | .test op => .testing op
  | .wait op => .parting op
  | .blocked op | .semRead op | .semSwap op _ => .asleep op
  | .relock op => .woken op
  | .act op => .acting op
  | .notify op => .notifying op
  | .tryLock op | .unlock op => .leaving op

/-- The abstract monitor of a condition. -/
def CondState.abs (s : CondState τ σ ω) : MonitorState τ σ ω where
  object := s.object
  holder := s.holder
  places := CondPlace.abs ∘ s.places
  tokens := s.semaphore
  log := s.log

/-- The places of a backend. -/
def CondPlace.On (arch : CondArch) : CondPlace ω → Prop
  | .blocked _ => arch = .mutex
  | .semRead _ => arch = .spin
  | .semSwap _ value => arch = .spin ∧ 1 ≤ value
  | _ => True

/-- The invariant: the one of the abstract monitor, and the places of the backend. -/
structure CondInv (arch : CondArch) (m : Monitor σ ω) (waiter : τ) (start : σ)
    (s : CondState τ σ ω) : Prop where
  monitor : MonitorInv m arch.signal waiter start s.abs
  places : ∀ th, (s.places th).On arch
  small : s.semaphore < 2 ^ 31

section Refinement

variable {arch : CondArch} {m : Monitor σ ω} {waiter : τ} {start : σ} {s t : CondState τ σ ω}
  {th : τ}

theorem CondState.abs_goto (place : CondPlace ω) :
    (s.goto th place).abs = s.abs.goto th place.abs := by
  unfold CondState.abs CondState.goto MonitorState.goto
  rw [Function.comp_update]

/-- A thread that stays at the same place of the abstract monitor. -/
theorem CondState.abs_stay {place : CondPlace ω} (same : place.abs = (s.places th).abs) :
    (s.goto th place).abs = s.abs := by
  rw [CondState.abs_goto, same]
  unfold MonitorState.goto
  rw [show (s.places th).abs = s.abs.places th from rfl, Function.update_eq_self]

theorem CondPlace.abs_wake (place : CondPlace ω) (on : place.On .mutex) :
    place.wake.abs = place.abs.wake := by
  cases place with
  | semRead op => cases on
  | semSwap op value => cases on.1
  | _ => rfl

theorem CondPlace.wake_on (place : CondPlace ω) (on : place.On arch) : place.wake.On arch := by
  cases place with
  | blocked op => trivial
  | _ => exact on

theorem CondArch.abs_unlocking (op : ω) : (arch.unlocking op).abs = .leaving op := by
  cases arch <;> rfl

theorem CondArch.abs_waiting (op : ω) : (arch.waiting op).abs = .asleep op := by
  cases arch <;> rfl

/-- A thread that is at a place of its backend. -/
theorem CondInv.goto_on (inv : CondInv arch m waiter start s) {place : CondPlace ω}
    (here : place.On arch) (other : τ) : ((s.goto th place).places other).On arch := by
  show (Function.update s.places th place other).On arch
  by_cases same : other = th
  · subst same
    rw [Function.update_self]
    exact here
  · rw [Function.update_of_ne same]
    exact inv.places other

/-- What an access is in the abstract monitor: nothing, or the same move. -/
def Refined (arch : CondArch) (m : Monitor σ ω) (s t : CondState τ σ ω) (move : τ × MonitorMove ω) :
    Prop :=
  t.abs = s.abs ∨ monitorStep m arch.signal s.abs move = some t.abs

/-- The move of the abstract monitor, at the place where the thread is. -/
theorem monitorStep_abs {place : CondPlace ω} (here : s.places th = place) :
    monitorStep m arch.signal s.abs (th, .next) = monitorNext m arch.signal s.abs th place.abs := by
  rw [← here]
  rfl

/-- **Every access is one of the abstract monitor, or changes nothing there.** -/
theorem condNext_refines (inv : CondInv arch m waiter start s)
    (fits : arch = .spin → s.semaphore + 1 < 2 ^ 31)
    (step : condNext arch m s th (s.places th) = some t) :
    Refined arch m s t (th, .next) ∧ (∀ other, (t.places other).On arch) ∧
      t.semaphore < 2 ^ 31 := by
  unfold Refined
  have on := inv.places th
  cases here : s.places th with
  | out | blocked op =>
    rw [here] at step
    cases step
  | lock op | relock op =>
    rw [here] at step
    simp only [condNext] at step
    split_ifs at step with free
    cases step
    refine ⟨.inr ?_, inv.goto_on trivial, inv.small⟩
    rw [monitorStep_abs here]
    refine (if_pos free).trans ?_
    rw [← show (CondPlace.test op).abs = .testing op from rfl, ← CondState.abs_goto]
    rfl
  | test op =>
    rw [here] at step
    cases step
    refine ⟨.inr ?_, inv.goto_on (by split_ifs <;> trivial), inv.small⟩
    rw [monitorStep_abs here, CondState.abs_goto, apply_ite CondPlace.abs]
    rfl
  | wait op =>
    rw [here] at step
    cases step
    refine ⟨.inr ?_, inv.goto_on (by cases arch <;> rfl), inv.small⟩
    rw [monitorStep_abs here]
    show some { s.abs.goto th (.asleep op) with holder := none } = _
    have asleep : (arch.waiting op).abs = .asleep op := CondArch.abs_waiting op
    rw [← asleep, ← CondState.abs_goto]
    rfl
  | semRead op =>
    rw [here] at step on
    simp only [condNext] at step
    split_ifs at step with positive
    cases step
    refine ⟨.inl (CondState.abs_stay ?_), inv.goto_on ⟨on, positive.1⟩, inv.small⟩
    rw [here]
    rfl
  | semSwap op value =>
    rw [here] at step on
    cases step
    obtain ⟨spin, positive⟩ := on
    split_ifs with current
    · refine ⟨.inr ?_, inv.goto_on trivial, ?_⟩
      · rw [monitorStep_abs here]
        have token : arch.signal = .tokens ∧ 0 < s.semaphore :=
          ⟨by rw [spin]; rfl, by rw [current]; exact positive⟩
        refine (if_pos token).trans ?_
        rw [← show (CondPlace.relock op).abs = .woken op from rfl, ← CondState.abs_goto, ← current]
        rfl
      · exact Nat.lt_of_le_of_lt (Nat.sub_le _ _) (current ▸ inv.small)
    · refine ⟨.inl (CondState.abs_stay ?_), inv.goto_on spin, inv.small⟩
      rw [here]
      rfl
  | act op =>
    rw [here] at step
    cases step
    refine ⟨.inr ?_, inv.goto_on ?_, inv.small⟩
    · rw [monitorStep_abs here]
      show some { s.abs.goto th (if m.notifies op s.object then .notifying op else .leaving op)
        with object := m.apply op s.object, log := s.log ++ [(th, op)] } = _
      have leaving : (arch.unlocking op).abs = .leaving op := CondArch.abs_unlocking op
      rw [← leaving, ← show (CondPlace.notify op).abs = .notifying op
        from rfl, ← apply_ite CondPlace.abs, ← CondState.abs_goto]
      rfl
    · split_ifs
      · trivial
      · cases arch <;> trivial
  | notify op =>
    rw [here] at step
    cases arch with
    | mutex =>
      cases step
      refine ⟨.inr ?_, fun other => ?_, inv.small⟩
      · rw [monitorStep_abs here]
        have woken : (fun other => (s.places other).abs.wake) =
            CondPlace.abs ∘ CondPlace.wake ∘ s.places :=
          funext fun other => ((s.places other).abs_wake (inv.places other)).symm
        show some { s.abs with
          places := Function.update (fun other => (s.places other).abs.wake) th (.leaving op) } = _
        rw [woken]
        unfold CondState.abs
        rw [Function.comp_update]
        rfl
      · show (Function.update (CondPlace.wake ∘ s.places) th _ other).On .mutex
        by_cases same : other = th
        · subst same
          rw [Function.update_self]
          trivial
        · rw [Function.update_of_ne same]
          exact (s.places other).wake_on (inv.places other)
    | spin =>
      cases step
      have counts : (s.semaphore + 1) % 2 ^ 64 = s.semaphore + 1 :=
        Nat.mod_eq_of_lt (Nat.lt_trans (fits rfl) (by decide))
      rw [counts]
      refine ⟨.inr ?_, inv.goto_on trivial, ?_⟩
      · rw [monitorStep_abs here]
        show some { s.abs.goto th (.leaving op) with tokens := s.semaphore + 1 } = _
        rw [← show (CondPlace.unlock op).abs = .leaving op from rfl, ← CondState.abs_goto]
        rfl
      · exact fits rfl
  | tryLock op =>
    rw [here] at step
    cases step
    have mine : s.holder = some th := (inv.monitor.holds th).mp (by
      show (s.places th).abs.Holds
      rw [here]
      trivial)
    have stays : (s.goto th (.unlock op)).abs = s.abs := CondState.abs_stay (by rw [here]; rfl)
    refine ⟨.inl ?_, inv.goto_on trivial, inv.small⟩
    rw [if_neg (by rw [mine]; exact nofun)]
    exact stays
  | unlock op =>
    rw [here] at step
    cases step
    refine ⟨.inr ?_, inv.goto_on trivial, inv.small⟩
    rw [monitorStep_abs here]
    show some { s.abs.goto th .out with holder := none } = _
    rw [← show (CondPlace.out : CondPlace ω).abs = .out from rfl, ← CondState.abs_goto]
    rfl

/-- A call is made by a thread that is in none. -/
theorem condStep_call {op : ω} :
    condStep arch m s (th, .call op) = some t ↔ s.places th = .out ∧ t = s.goto th (.lock op) := by
  simp only [condStep]
  cases s.places th with
  | out =>
    exact ⟨fun step => ⟨rfl, (Option.some.inj step).symm⟩, fun both => congrArg some both.2.symm⟩
  | _ => exact ⟨nofun, fun both => nomatch both.1⟩

/-- Every move is one of the abstract monitor, or changes nothing there. -/
theorem condStep_refines (inv : CondInv arch m waiter start s) {move : τ × MonitorMove ω}
    (fits : CondFits arch m waiter s move) (step : condStep arch m s move = some t) :
    Refined arch m s t move ∧ (∀ other, (t.places other).On arch) ∧ t.semaphore < 2 ^ 31 := by
  obtain ⟨th, kind⟩ := move
  cases kind with
  | next => exact condNext_refines inv fits.2 step
  | call op =>
    obtain ⟨here, rfl⟩ := condStep_call.mp step
    refine ⟨.inr ?_, inv.goto_on trivial, inv.small⟩
    have abs : s.abs.places th = .out := congrArg CondPlace.abs here
    simp only [monitorStep, abs]
    exact congrArg some (CondState.abs_goto (.lock op)).symm
  | spurious =>
    simp only [condStep] at step
    split at step
    · rename_i op here
      cases step
      have on := inv.places th
      rw [here] at on
      have abs : s.abs.places th = .asleep op := congrArg CondPlace.abs here
      have signal : arch.signal = .broadcast := by rw [show arch = .mutex from on]; rfl
      refine ⟨.inr ?_, inv.goto_on trivial, inv.small⟩
      simp only [monitorStep, abs, signal]
      exact congrArg some (CondState.abs_goto (.relock op)).symm
    · cases step

/-- Where a thread goes, and what it makes of the object. -/
theorem condStep_goes (inv : CondInv arch m waiter start s) {kind : MonitorMove ω}
    (fits : CondFits arch m waiter s (th, kind)) (step : condStep arch m s (th, kind) = some t) :
    (t.abs = s.abs ∨ m.Goes (s.places th).abs s.object (t.places th).abs t.object) ∧
      OthersStay s.abs t.abs th := by
  rcases (condStep_refines inv fits step).1 with same | move
  · exact ⟨.inl same, fun other _ => .inl (by rw [same])⟩
  · obtain ⟨goes, others⟩ := monitorStep_goes move
    exact ⟨.inr goes, others⟩

theorem cond_keeps (announces : m.Announces) (inv : CondInv arch m waiter start s)
    {move : τ × MonitorMove ω} (fits : CondFits arch m waiter s move)
    (step : condStep arch m s move = some t) : CondInv arch m waiter start t := by
  obtain ⟨refined, places, small⟩ := condStep_refines inv fits step
  refine ⟨?_, places, small⟩
  rcases refined with same | move
  · rw [same]
    exact inv.monitor
  · exact monitor_keeps announces inv.monitor fits.1 move

omit [DecidableEq τ] in
theorem asyncConditionInit_inv (arch : CondArch) (m : Monitor σ ω) (waiter : τ) (start : σ) :
    CondInv arch m waiter start (asyncConditionInit start) where
  monitor := MonitorState.init_inv m arch.signal waiter start
  places _ := trivial
  small := Nat.two_pow_pos 31

/-- A run is one of the abstract monitor, without the accesses that change nothing there. -/
theorem cond_run_refines (announces : m.Announces) {moves : List (τ × MonitorMove ω)}
    (inv : CondInv arch m waiter start s)
    (fits : Guarded (condStep arch m) (CondFits arch m waiter) s moves)
    (run : exec (condStep arch m) s moves = some t) :
    ∃ steps, steps.Sublist moves ∧ exec (monitorStep m arch.signal) s.abs steps = some t.abs := by
  induction moves generalizing s with
  | nil =>
    cases run
    exact ⟨[], .slnil, rfl⟩
  | cons move moves ih =>
    obtain ⟨u, step, run⟩ := exec_cons run
    obtain ⟨steps, sub, rest⟩ := ih (cond_keeps announces inv fits.1 step) (fits.2 u step) run
    rcases (condStep_refines inv fits.1 step).1 with same | first
    · rw [same] at rest
      exact ⟨steps, sub.cons _, rest⟩
    · refine ⟨move :: steps, sub.cons_cons _, ?_⟩
      show (monitorStep m arch.signal s.abs move).bind _ = _
      rw [first]
      exact rest

/-! ### Progress -/

/-- A thread that can go on in the abstract monitor can go on. -/
theorem condNext_isSome (inv : CondInv arch m waiter start s)
    (moves : (monitorStep m arch.signal s.abs (th, .next)).isSome) :
    (condStep arch m s (th, .next)).isSome := by
  have on := inv.places th
  change (condNext arch m s th (s.places th)).isSome
  cases here : s.places th with
  | test op | wait op | act op | tryLock op | unlock op | semSwap op value => rfl
  | notify op => cases arch <;> rfl
  | out =>
    rw [monitorStep_abs here] at moves
    cases moves
  | lock op | relock op =>
    rw [monitorStep_abs here] at moves
    simp only [CondPlace.abs, monitorNext] at moves
    split_ifs at moves with free
    · simp only [condNext]
      rw [if_pos (show s.holder = none from free)]
      rfl
    · cases moves
  | blocked op =>
    rw [here] at on
    rw [monitorStep_abs here, show arch = .mutex from on] at moves
    cases moves
  | semRead op =>
    rw [monitorStep_abs here] at moves
    simp only [CondPlace.abs, monitorNext] at moves
    split_ifs at moves with token
    · have fits : s.semaphore % 2 ^ 32 = s.semaphore :=
        Nat.mod_eq_of_lt (Nat.lt_trans inv.small (by decide))
      simp only [condNext]
      rw [fits, if_pos ⟨token.2, inv.small⟩]
      rfl
    · cases moves

/-- The operation of a thread that waits to be woken up. -/
def CondPlace.Sleeps (place : CondPlace ω) (op : ω) : Prop := place.abs = .asleep op

/-- The thread is between the lock and the unlock. -/
def CondPlace.Inside (place : CondPlace ω) : Prop := place.abs.Holds

/-- A thread in a call can go on, or the one that has the lock can, or the thread waits for
something that is not there. -/
def Alive (arch : CondArch) (m : Monitor σ ω) (s : CondState τ σ ω) (th : τ) : Prop :=
  (condStep arch m s (th, .next)).isSome ∨
    (∃ holder, s.holder = some holder ∧ (condStep arch m s (holder, .next)).isSome) ∨
    ∃ op, (s.places th).Sleeps op ∧ m.ready op s.object = false

theorem cond_alive (inv : CondInv arch m waiter start s) (inside : s.places th ≠ .out) :
    Alive arch m s th := by
  have inside' : s.abs.places th ≠ .out := by
    show (s.places th).abs ≠ .out
    cases here : s.places th with
    | out => exact absurd here inside
    | _ => exact nofun
  rcases monitor_moves inv.monitor inside' with moves | ⟨holder, has, moves⟩ | sleeps
  · exact .inl (condNext_isSome inv moves)
  · exact .inr (.inl ⟨holder, has, condNext_isSome inv moves⟩)
  · exact .inr (.inr sleeps)

/-! ### How many accesses are left -/

/-- The accesses that a thread still makes in its call, if its test holds from now on. A swap that
is bound to fail is made again. -/
def CondPlace.left (semaphore : Nat) : CondPlace ω → Nat
  | .out => 0
  | .unlock _ => 1
  | .tryLock _ => 2
  | .notify _ => 3
  | .act _ => 4
  | .test _ => 5
  | .lock _ | .relock _ => 6
  | .blocked _ => 7
  | .semSwap _ value => if semaphore = value then 7 else 9
  | .semRead _ => 8
  | .wait _ => 9

/-- How many accesses another thread may add. -/
def CondArch.retries : CondArch → Nat
  | .mutex => 0
  | .spin => 2

def CondState.left (s : CondState τ σ ω) (th : τ) : Nat := (s.places th).left s.semaphore

theorem CondPlace.left_le (place : CondPlace ω) (semaphore : Nat) : place.left semaphore ≤ 9 := by
  cases place with
  | semSwap op value =>
    show (if semaphore = value then 7 else 9) ≤ 9
    split_ifs
    · decide
    · exact Nat.le_refl 9
  | _ => simp only [CondPlace.left, Nat.reduceLeDiff, Nat.zero_le, Nat.le_refl]

theorem left_goto (place : CondPlace ω) :
    (s.goto th place).left th = place.left s.semaphore := by
  show (Function.update s.places th place th).left s.semaphore = _
  rw [Function.update_self]

theorem condNext_left (inv : CondInv arch m waiter start s)
    (ready : ∀ op, s.places th = .test op → m.ready op s.object = true)
    (step : condStep arch m s (th, .next) = some t) : t.left th < s.left th := by
  change condNext arch m s th (s.places th) = some t at step
  have before : s.left th = (s.places th).left s.semaphore := rfl
  rw [before]
  cases here : s.places th with
  | out | blocked op =>
    rw [here] at step
    cases step
  | lock op | relock op =>
    rw [here] at step
    simp only [condNext] at step
    split_ifs at step
    cases step
    show (s.goto th (.test op)).left th < _
    rw [left_goto]
    simp [CondPlace.left]
  | test op =>
    rw [here] at step
    cases step
    rw [left_goto, if_pos (ready op here)]
    simp [CondPlace.left]
  | wait op =>
    rw [here] at step
    cases step
    show (s.goto th (arch.waiting op)).left th < _
    rw [left_goto]
    cases arch <;> simp [CondPlace.left, CondArch.waiting]
  | semRead op =>
    rw [here] at step
    simp only [condNext] at step
    split_ifs at step
    cases step
    have fits : s.semaphore % 2 ^ 32 = s.semaphore :=
      Nat.mod_eq_of_lt (Nat.lt_trans inv.small (by decide))
    rw [left_goto, fits]
    show (if s.semaphore = s.semaphore then 7 else 9) < 8
    rw [if_pos rfl]
    exact Nat.lt_succ_self 7
  | semSwap op value =>
    rw [here] at step
    cases step
    show _ < if s.semaphore = value then 7 else 9
    split_ifs with current
    · show (Function.update s.places th (.relock op) th).left _ < 7
      rw [Function.update_self]
      simp [CondPlace.left]
    · rw [left_goto]
      simp [CondPlace.left]
  | act op =>
    rw [here] at step
    cases step
    show (s.goto th (if m.notifies op s.object then .notify op else arch.unlocking op)).left th < 4
    rw [left_goto]
    split_ifs
    · simp [CondPlace.left]
    · cases arch <;> simp [CondPlace.left, CondArch.unlocking]
  | notify op =>
    rw [here] at step
    cases arch with
    | mutex =>
      cases step
      show (Function.update (CondPlace.wake ∘ s.places) th (.tryLock op) th).left _ < 3
      rw [Function.update_self]
      simp [CondPlace.left]
    | spin =>
      cases step
      show (Function.update s.places th (.unlock op) th).left _ < 3
      rw [Function.update_self]
      simp [CondPlace.left]
  | tryLock op =>
    rw [here] at step
    cases step
    show (s.goto th (.unlock op)).left th < 2
    rw [left_goto]
    simp [CondPlace.left]
  | unlock op =>
    rw [here] at step
    cases step
    show (s.goto th .out).left th < 1
    rw [left_goto]
    simp [CondPlace.left]

theorem goto_others {place : CondPlace ω} {other : τ} (apart : other ≠ th) :
    (s.goto th place).places other = s.places other := Function.update_of_ne apart ..

/-- The other threads stay where they are, or are woken up. -/
theorem condStep_others {kind : MonitorMove ω} {other : τ} (apart : other ≠ th)
    (step : condStep arch m s (th, kind) = some t) :
    t.places other = s.places other ∨ t.places other = (s.places other).wake := by
  cases kind with
  | call op =>
    obtain ⟨-, rfl⟩ := condStep_call.mp step
    exact .inl (goto_others apart)
  | spurious =>
    simp only [condStep] at step
    split at step
    · cases step
      exact .inl (goto_others apart)
    · cases step
  | next =>
    change condNext arch m s th (s.places th) = some t at step
    cases here : s.places th with
    | out | blocked op =>
      rw [here] at step
      cases step
    | lock op | relock op | semRead op =>
      rw [here] at step
      simp only [condNext] at step
      split_ifs at step
      cases step
      exact .inl (goto_others apart)
    | test op | wait op | act op | tryLock op | unlock op =>
      rw [here] at step
      cases step
      exact .inl (goto_others apart)
    | semSwap op value =>
      rw [here] at step
      cases step
      split_ifs
      · exact .inl (goto_others apart)
      · exact .inl (goto_others apart)
    | notify op =>
      rw [here] at step
      cases arch with
      | mutex =>
        cases step
        exact .inr (Function.update_of_ne apart ..)
      | spin =>
        cases step
        exact .inl (goto_others apart)

/-- Another thread delays nobody who is not at the swap. -/
theorem condStep_left_stays {kind : MonitorMove ω} {other : τ} (apart : other ≠ th)
    (away : ∀ op value, s.places other ≠ .semSwap op value)
    (step : condStep arch m s (th, kind) = some t) : t.left other ≤ s.left other := by
  have moved := condStep_others apart step
  unfold CondState.left
  cases here : s.places other with
  | blocked op =>
    rw [here] at moved
    rcases moved with same | woken
    · rw [same]
      exact Nat.le_refl 7
    · rw [woken]
      simp [CondPlace.wake, CondPlace.left]
  | semSwap op value => exact absurd here (away op value)
  | _ =>
    rw [here] at moved
    rw [moved.elim id id]
    exact Nat.le_refl _

/-- Another thread makes at most one swap fail. -/
theorem condStep_left_others (inv : CondInv arch m waiter start s) {kind : MonitorMove ω}
    {other : τ} (apart : other ≠ th) (step : condStep arch m s (th, kind) = some t) :
    t.left other ≤ s.left other + arch.retries := by
  by_cases swap : ∃ op value, s.places other = .semSwap op value
  · obtain ⟨op, value, here⟩ := swap
    have on := inv.places other
    have moved := condStep_others apart step
    rw [here] at moved on
    have same : t.places other = .semSwap op value := moved.elim id id
    have spin : arch.retries = 2 := by
      rw [show arch = .spin from on.1]
      rfl
    unfold CondState.left
    rw [here, same, spin]
    show (if t.semaphore = value then 7 else 9) ≤ (if s.semaphore = value then 7 else 9) + 2
    split_ifs <;> omega
  · have away : ∀ op value, s.places other ≠ .semSwap op value :=
      fun op value here => swap ⟨op, value, here⟩
    exact Nat.le_trans (condStep_left_stays apart away step) (Nat.le_add_right _ _)

/-- Nobody delays a thread whose calls do not have to wait. -/
theorem condStep_left_patient (inv : CondInv arch m waiter start s) {kind : MonitorMove ω}
    {other : τ} (apart : other ≠ th) (patient : other ≠ waiter)
    (step : condStep arch m s (th, kind) = some t) : t.left other ≤ s.left other := by
  refine condStep_left_stays apart (fun op value here => patient ?_) step
  have on := inv.places other
  rw [here] at on
  refine inv.monitor.sleeper (by rw [show arch = .spin from on.1]; rfl) other op ?_
  show (s.places other).abs = .asleep op
  rw [here]
  rfl

/-- A thread that wakes up without a notification. -/
theorem condStep_left_spurious (step : condStep arch m s (th, .spurious) = some t) :
    t.left th ≤ s.left th := by
  simp only [condStep] at step
  split at step
  · rename_i op here
    cases step
    rw [left_goto]
    unfold CondState.left
    rw [here]
    simp [CondPlace.left]
  · cases step

/-! ### Runs -/

/-- What the callers of a condition rely on. -/
structure ConditionSound (arch : CondArch) (m : Monitor σ ω) (start : σ) (s : CondState τ σ ω) :
    Prop where
  exclusive : ∀ th other, (s.places th).Inside → (s.places other).Inside → th = other
  /-- The calls are applied one after the other, each when its test holds. -/
  atomic : exec m.atomic start (s.log.map Prod.snd) = some s.object
  /-- No wake-up is lost, and nobody is stuck. -/
  alive : ∀ th, s.places th ≠ .out → Alive arch m s th

/-- **Conditions.** On both backends, in every run in which operations that make another one ready
notify, a condition is a monitor. On the spin backend only one thread may make calls that have to
wait, and the semaphore has to fit into an `int`. -/
theorem condition_sound (arch : CondArch) (m : Monitor σ ω) (waiter : τ) (start : σ)
    (moves : List (τ × MonitorMove ω)) (s : CondState τ σ ω) (announces : m.Announces)
    (run : exec (condStep arch m) (asyncConditionInit start) moves = some s)
    (fits : Guarded (condStep arch m) (CondFits arch m waiter) (asyncConditionInit start) moves) :
    ConditionSound arch m start s ∧ ∃ steps, steps.Sublist moves ∧
      exec (monitorStep m arch.signal) (MonitorState.init start) steps = some s.abs := by
  have first := asyncConditionInit_inv arch m waiter start
  have inv : CondInv arch m waiter start s :=
    exec_guarded (fun _ _ _ inv fits step => cond_keeps announces inv fits step) first fits run
  refine ⟨⟨fun th other here there => ?_, inv.monitor.served,
    fun th inside => cond_alive inv inside⟩, cond_run_refines announces first fits run⟩
  exact inv.monitor.alone here there

end Refinement

/-- A counter of tickets: `true` takes one, and `false` adds one. -/
def tickets : Monitor Nat Bool where
  ready op count := !op || decide (0 < count)
  apply op count := if op then count - 1 else count + 1
  notifies op _ := !op

theorem tickets_announces : tickets.Announces := by
  intro op other count ready late now
  cases op with
  | false => rfl
  | true =>
    cases other with
    | false => cases late
    | true => exact absurd (ready.symm.trans late) Bool.noConfusion

/-- The thread `true` takes tickets. -/
def ticketFits (s : CondState Bool Nat Bool) : Bool × MonitorMove Bool → Bool
  | (false, .call true) => false
  | _ => decide (s.semaphore + 1 < 2 ^ 31)

/-- A thread waits for a ticket, and another one adds it. -/
def ticketMoves : List (Bool × MonitorMove Bool) :=
  [(true, .call true), (true, .next), (true, .next), (true, .next), (false, .call false),
    (false, .next), (false, .next), (false, .next), (false, .next), (true, .next), (true, .next),
    (false, .next), (true, .next), (true, .next), (true, .next), (true, .next)]

theorem condition_sound_at_tickets : ∃ s : CondState Bool Nat Bool,
    exec (condStep .spin tickets) (asyncConditionInit 0) ticketMoves = some s ∧
      s.log = [(false, false), (true, true)] ∧ ConditionSound .spin tickets 0 s := by
  have log : (exec (condStep .spin tickets) (asyncConditionInit 0) ticketMoves).map CondState.log =
      some [(false, false), (true, true)] := by decide
  obtain ⟨s, run, log⟩ := Option.map_eq_some_iff.mp log
  have checked : Guarded (condStep .spin tickets) (fun s move => ticketFits s move = true)
      (asyncConditionInit 0) ticketMoves := by decide
  have fits : Guarded (condStep .spin tickets) (CondFits .spin tickets true)
      (asyncConditionInit 0) ticketMoves := by
    refine checked.imp (fun _ => True) (fun s move _ fits => ?_) (fun _ _ _ _ _ _ => trivial)
      trivial
    obtain ⟨th, kind⟩ := move
    cases kind with
    | call op =>
      cases op with
      | false => exact ⟨fun _ _ _ => rfl, fun _ => of_decide_eq_true (by cases th <;> exact fits)⟩
      | true =>
        cases th with
        | false => cases fits
        | true => exact ⟨fun _ other => absurd rfl other, fun _ => of_decide_eq_true fits⟩
    | next => exact ⟨trivial, fun _ => of_decide_eq_true (by cases th <;> exact fits)⟩
    | spurious => exact ⟨trivial, fun _ => of_decide_eq_true (by cases th <;> exact fits)⟩
  exact ⟨s, run, log,
    (condition_sound .spin tickets true 0 ticketMoves s tickets_announces run fits).1⟩

end Accesses

end Arax.Async
