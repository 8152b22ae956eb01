/-
**Semaphores (`src/async/spin/async.c`, `src/async/ivshmem/async.c`).**

The value of a semaphore is a `size_t`, and `async_semaphore_dec` copies it into an `int`, tests the
copy and swaps. The spin backend swaps the value for one less, so it counts as long as the value
fits into the `int`. The ivshmem backend has the two values of the swap the wrong way around: it
compares the semaphore with one less than what it read, and would store what it read. So a decrement
that finds units never gets one. When it finds none it goes on to wait, with the allocator of
`sem->meta`; but `async_semaphore_init` does not set `sem->meta`, so this ends the process, and
nobody ever gets into `pending_list`.

Any number of threads increment and decrement, one access at a time.

* `countStep` — the abstract counting semaphore.
* `spin_refines` — on the spin backend, the calls that have returned are a run of it.
* `SemaphoreCounts` — the value is right, and a decrement alone takes a unit and returns.
* `semaphore_counts_iff` — when this holds in a state in which no thread is in a call.
-/

import Mathlib.Algebra.Group.Nat.Defs
import Mathlib.Data.List.Induction
import Mathlib.Logic.Function.Basic
import Mathlib.Tactic.SplitIfs
import Arax.Lib.Run

namespace Arax.Async

open Arax.Lib

/-- `async_architecture`, as far as the semaphores are written in the repository. -/
inductive Backend where
  | spin
  | ivshmem
  deriving DecidableEq

/-- Where a thread is in its call. -/
inductive SemPlace where
  | out
  /-- At the addition of `async_semaphore_inc`. -/
  | inc
  /-- At the test of `pending_list.length`. -/
  | wake
  /-- At a read of `sem->value` in `async_semaphore_dec`. -/
  | decRead
  /-- At the swap, with the value read. -/
  | decSwap (value : BitVec 32)
  deriving DecidableEq

/-- `async_semaphore_s`, the threads, and how many calls have returned. -/
structure SemState where
  value : BitVec 64
  /-- `pending_list.length`. -/
  pending : Nat
  threads : Nat → SemPlace
  incs : Nat
  decs : Nat

/-- `async_semaphore_init`. -/
def asyncSemaphoreInit : SemState where
  value := 0
  pending := 0
  threads := fun _ => .out
  incs := 0
  decs := 0

/-- What a thread does next. -/
inductive SemMove where
  /-- Call `async_semaphore_inc`. -/
  | inc
  /-- Call `async_semaphore_dec`. -/
  | dec
  /-- Make the next access of its call. -/
  | next
  deriving DecidableEq

/-- The thread `th` is now at `place`. -/
def SemState.goto (s : SemState) (th : Nat) (place : SemPlace) : SemState :=
  { s with threads := Function.update s.threads th place }

/-- The next access of a call on the spin backend. -/
def spinSemaphore (s : SemState) (th : Nat) : SemPlace → Option SemState
  | .out | .wake => none
  | .inc => some { s.goto th .out with value := s.value + 1, incs := s.incs + 1 }
  | .decRead =>
    let value := s.value.setWidth 32
    some (if (1#32).sle value then s.goto th (.decSwap value) else s)
  | .decSwap value =>
    some (if s.value = value.signExtend 64 then
        { s.goto th .out with value := (value - 1).signExtend 64, decs := s.decs + 1 }
      else s.goto th .decRead)

/-- The next access of a call on the ivshmem backend. -/
def ivshmemSemaphore (s : SemState) (th : Nat) : SemPlace → Option SemState
  | .out => none
  | .inc => some { s.goto th .wake with value := s.value + 1 }
  -- waking up a thread that waits uses `sem->meta`
  | .wake => if s.pending = 0 then some { s.goto th .out with incs := s.incs + 1 } else none
  | .decRead =>
    let value := s.value.setWidth 32
    -- waiting uses `sem->meta`
    if value = 0 then none else some (s.goto th (.decSwap value))
  | .decSwap value =>
    some (if s.value = (value - 1).signExtend 64 then
        { s.goto th .out with value := value.signExtend 64, decs := s.decs + 1 }
      else s.goto th .decRead)

/-- The next access of a call. -/
def semAccess : Backend → SemState → Nat → SemPlace → Option SemState
  | .spin => spinSemaphore
  | .ivshmem => ivshmemSemaphore

/-- One move of one thread. -/
def semStep (backend : Backend) (s : SemState) : Nat × SemMove → Option SemState
  | (th, .inc) => if s.threads th = .out then some (s.goto th .inc) else none
  | (th, .dec) => if s.threads th = .out then some (s.goto th .decRead) else none
  | (th, .next) => semAccess backend s th (s.threads th)

/-! ### The abstract semaphore -/

/-- A call on a semaphore. -/
inductive SemCall where
  | inc
  | dec
  deriving DecidableEq

/-- A counting semaphore. -/
def countStep (units : Nat) : SemCall → Option Nat
  | .inc => some (units + 1)
  | .dec => if units = 0 then none else some (units - 1)

/-- The calls that have returned are the run `calls` of the counting semaphore, and the value is the
number of its units. -/
structure Refines (s : SemState) (calls : List SemCall) (units : Nat) : Prop where
  run : exec countStep 0 calls = some units
  incs : s.incs = calls.count .inc
  decs : s.decs = calls.count .dec
  value : s.value.toNat = units % 2 ^ 64

/-- No call goes unanswered: a counting semaphore has as many units as its run says. -/
theorem count_units {calls : List SemCall} {units : Nat}
    (run : exec countStep 0 calls = some units) :
    units + calls.count .dec = calls.count .inc := by
  induction calls using List.reverseRecOn generalizing units with
  | nil =>
    cases run
    rfl
  | append_singleton calls call ih =>
    rw [exec_append] at run
    obtain ⟨before, earlier, last⟩ := Option.bind_eq_some_iff.mp run
    obtain ⟨after, step, same⟩ := exec_cons last
    cases same
    have count := ih earlier
    rw [List.count_append, List.count_append]
    cases call with
    | inc =>
      cases step
      simp
      omega
    | dec =>
      simp only [countStep] at step
      split_ifs at step with empty
      cases step
      simp
      omega

theorem Refines.balance {s : SemState} {calls : List SemCall} {units : Nat}
    (refines : Refines s calls units) : units + s.decs = s.incs := by
  rw [refines.incs, refines.decs]
  exact count_units refines.run

/-! ### The conversions -/

section Conversions

variable {v : BitVec 64} {value : BitVec 32}

theorem int_positive (positive : (1#32).sle value = true) :
    0 < value.toNat ∧ value.toNat < 2 ^ 31 := by
  have positive' : (1 : Int) ≤ value.toInt := BitVec.sle_iff_toInt_le.mp positive
  rw [BitVec.toInt_eq_toNat_cond] at positive'
  split_ifs at positive' with half <;> omega

theorem int_signExtend (small : value.toNat < 2 ^ 31) :
    (value.signExtend 64).toNat = value.toNat := by
  rw [BitVec.toNat_signExtend, BitVec.msb_eq_false_iff_two_mul_lt.mpr (by omega)]
  simp
  omega

theorem int_pred (some : 0 < value.toNat) : (value - 1).toNat = value.toNat - 1 := by
  rw [BitVec.toNat_sub]
  simp
  omega

/-- Values below `2 ^ 31` survive the `int`. -/
theorem int_of_small (some : 0 < v.toNat) (small : v.toNat < 2 ^ 31) :
    (1#32).sle (v.setWidth 32) = true ∧ v = (v.setWidth 32).signExtend 64 := by
  have low : (v.setWidth 32).toNat = v.toNat := by
    rw [BitVec.toNat_setWidth, Nat.mod_eq_of_lt (by omega)]
  constructor
  · rw [BitVec.sle_iff_toInt_le, BitVec.toInt_eq_toNat_of_lt (x := v.setWidth 32) (by omega), low]
    simp
    omega
  · refine BitVec.eq_of_toNat_eq ?_
    rw [int_signExtend (low ▸ small), low]

/-- No value from `2 ^ 31` on equals a positive `int`. -/
theorem int_of_large (large : 2 ^ 31 ≤ v.toNat) (positive : (1#32).sle value = true) :
    v ≠ value.signExtend 64 := by
  intro same
  have small := (int_positive positive).2
  rw [same, int_signExtend small] at large
  omega

/-- The value is not one less than its own low half. -/
theorem ne_pred_int : v ≠ (v.setWidth 32 - 1).signExtend 64 := by
  intro same
  have low := congrArg (fun x : BitVec 64 => x.toNat % 2 ^ 32) same
  simp only [BitVec.toNat_signExtend, BitVec.toNat_setWidth, BitVec.toNat_sub] at low
  split_ifs at low <;> simp at low <;> omega

end Conversions

/-! ### The spin backend -/

/-- The calls that have returned are a run of the counting semaphore, and the swaps that are about
to be made are of positive values. -/
structure SpinInv (s : SemState) : Prop where
  refines : ∃ calls units, Refines s calls units
  positive : ∀ th value, s.threads th = .decSwap value → (1#32).sle value = true

section Spin

variable {s t : SemState} {calls : List SemCall} {units th : Nat}

/-- A thread moves to where it makes no swap, or one of a positive value. -/
theorem positive_moved {place : SemPlace}
    (positive : ∀ th value, s.threads th = .decSwap value → (1#32).sle value = true)
    (threads : t.threads = Function.update s.threads th place)
    (here : ∀ value, place = .decSwap value → (1#32).sle value = true) :
    ∀ th value, t.threads th = .decSwap value → (1#32).sle value = true := by
  intro other value there
  rw [threads] at there
  by_cases same : other = th
  · rw [same, Function.update_self] at there
    exact here value there
  · rw [Function.update_of_ne same] at there
    exact positive other value there

/-- The calls that have returned, after one more increment. -/
theorem Refines.inc (refines : Refines s calls units) (value : t.value = s.value + 1)
    (incs : t.incs = s.incs + 1) (decs : t.decs = s.decs) :
    Refines t (calls ++ [.inc]) (units + 1) := by
  refine ⟨?_, ?_, ?_, ?_⟩
  · rw [exec_append, refines.run]
    rfl
  · rw [incs, refines.incs, List.count_append, List.count_singleton_self]
  · rw [decs, refines.decs, List.count_append]
    rfl
  · rw [value, BitVec.toNat_add, refines.value]
    simp

/-- The calls that have returned, after one more decrement. -/
theorem Refines.dec (refines : Refines s calls units) (some : 0 < s.value.toNat)
    (value : t.value.toNat = s.value.toNat - 1) (incs : t.incs = s.incs)
    (decs : t.decs = s.decs + 1) : Refines t (calls ++ [.dec]) (units - 1) := by
  have there : 0 < units % 2 ^ 64 := refines.value ▸ some
  have unit : units ≠ 0 := by
    rintro rfl
    exact absurd there (by decide)
  refine ⟨?_, ?_, ?_, ?_⟩
  · rw [exec_append, refines.run, Option.bind_some, exec, countStep, if_neg unit]
    rfl
  · rw [incs, refines.incs, List.count_append]
    rfl
  · rw [decs, refines.decs, List.count_append, List.count_singleton_self]
  · rw [value, refines.value]
    omega

/-- **What one move does to the counting semaphore.** It is not seen, or it is one of its calls. -/
theorem spin_step_refines {move : Nat × SemMove} (inv : SpinInv s)
    (step : semStep .spin s move = some t) : SpinInv t := by
  obtain ⟨⟨calls, units, refines⟩, positive⟩ := inv
  have same (value : t.value = s.value) (incs : t.incs = s.incs) (decs : t.decs = s.decs) :
      ∃ calls units, Refines t calls units :=
    ⟨calls, units, refines.run, incs ▸ refines.incs, decs ▸ refines.decs, value ▸ refines.value⟩
  obtain ⟨th, move⟩ := move
  cases move with
  | inc | dec =>
    simp only [semStep] at step
    split_ifs at step
    cases step
    exact ⟨same rfl rfl rfl, positive_moved positive rfl nofun⟩
  | next =>
    simp only [semStep, semAccess] at step
    cases here : s.threads th with
    | out | wake =>
      rw [here] at step
      cases step
    | inc =>
      rw [here] at step
      cases step
      exact ⟨⟨_, _, refines.inc rfl rfl rfl⟩, positive_moved positive rfl nofun⟩
    | decRead =>
      rw [here] at step
      simp only [spinSemaphore, Option.some.injEq] at step
      split_ifs at step with seen
      · cases step
        refine ⟨same rfl rfl rfl, positive_moved positive rfl fun value read => ?_⟩
        cases read
        exact seen
      · cases step
        exact ⟨⟨calls, units, refines⟩, positive⟩
    | decSwap value =>
      rw [here] at step
      simp only [spinSemaphore, Option.some.injEq] at step
      split_ifs at step with found
      · cases step
        obtain ⟨some, small⟩ := int_positive (positive th value here)
        have size : s.value.toNat = value.toNat := by
          rw [found, int_signExtend small]
        have less : ((value - 1).signExtend 64).toNat = s.value.toNat - 1 := by
          have pred := int_pred some
          rw [int_signExtend (by omega), pred, size]
        exact ⟨⟨_, _, refines.dec (by omega) less rfl rfl⟩, positive_moved positive rfl nofun⟩
      · cases step
        exact ⟨same rfl rfl rfl, positive_moved positive rfl nofun⟩

theorem asyncSemaphoreInit_inv : SpinInv asyncSemaphoreInit :=
  ⟨⟨[], 0, rfl, rfl, rfl, rfl⟩, fun _ _ => nofun⟩

/-- **The spin backend refines the counting semaphore.** -/
theorem spin_refines {moves : List (Nat × SemMove)}
    (run : exec (semStep .spin) asyncSemaphoreInit moves = some s) :
    ∃ calls units, Refines s calls units :=
  (exec_invariant (fun _ _ _ => spin_step_refines) asyncSemaphoreInit_inv run).refines

end Spin

/-! ### A decrement alone -/

/-- A decrement of `th`, with no other thread moving, takes one unit and returns. -/
def DecReturns (backend : Backend) (s : SemState) (th : Nat) : Prop :=
  ∃ n t, exec (semStep backend) s ((th, .dec) :: List.replicate n (th, .next)) = some t ∧
    t.threads th = .out ∧ t.value.toNat + 1 = s.value.toNat

/-- What the semaphore promises while no thread is in a call. -/
structure SemaphoreCounts (backend : Backend) (s : SemState) : Prop where
  value : s.value.toNat + s.decs = s.incs
  dec : 0 < s.value.toNat → ∀ th, DecReturns backend s th

/-- **The condition.** -/
def SmallCount : Backend → SemState → Prop
  | .spin, s => s.incs < s.decs + 2 ^ 31
  | .ivshmem, s => s.value = 0 ∧ s.incs = s.decs

instance (s : SemState) : (backend : Backend) → Decidable (SmallCount backend s)
  | .spin => inferInstanceAs (Decidable (_ < _))
  | .ivshmem => inferInstanceAs (Decidable (_ ∧ _))

section Alone

variable {backend : Backend} {s t : SemState} {v : BitVec 64} {th : Nat}

/-- On the spin backend a decrement takes two accesses. -/
theorem spin_dec_returns (quiet : s.threads th = .out) (some : 0 < s.value.toNat)
    (small : s.value.toNat < 2 ^ 31) : DecReturns .spin s th := by
  obtain ⟨positive, same⟩ := int_of_small some small
  have bounds := int_positive positive
  let low : BitVec 32 := s.value.setWidth 32
  let t : SemState := { s.goto th .out with
    value := (low - 1).signExtend 64, decs := s.decs + 1 }
  have size : low.toNat = s.value.toNat := by
    rw [BitVec.toNat_setWidth, Nat.mod_eq_of_lt (by omega)]
  have less : ((low - 1).signExtend 64).toNat + 1 = s.value.toNat := by
    have pred : (low - 1).toNat = low.toNat - 1 := int_pred (by omega)
    rw [int_signExtend (by omega), pred, size]
    omega
  refine ⟨2, t, ?_, Function.update_self .., less⟩
  have read : semStep .spin (s.goto th .decRead) (th, .next) =
      Option.some ((s.goto th .decRead).goto th (.decSwap low)) := by
    simp [semStep, semAccess, SemState.goto, spinSemaphore, positive, low]
  have swap : semStep .spin ((s.goto th .decRead).goto th (.decSwap low)) (th, .next) =
      Option.some t := by
    simp [semStep, semAccess, SemState.goto, spinSemaphore, ← same, t, low]
  simp only [List.replicate, exec]
  rw [semStep, if_pos quiet, Option.bind_some, read, Option.bind_some, swap, Option.bind_some]

/-- A thread goes around in `async_semaphore_dec` while the value is `v`. -/
structure Tries (backend : Backend) (v : BitVec 64) (th : Nat) (s : SemState) : Prop where
  value : s.value = v
  place : s.threads th = .decRead ∨ s.threads th = .decSwap (v.setWidth 32) ∧
    (backend = .spin → (1#32).sle (v.setWidth 32) = true)

/-- Its swap fails: on the spin backend if the value is too large, on the ivshmem backend always. -/
theorem Tries.step (large : backend = .spin → 2 ^ 31 ≤ v.toNat) (tries : Tries backend v th s)
    (step : semStep backend s (th, .next) = some t) : Tries backend v th t := by
  obtain ⟨value, place⟩ := tries
  have back : Tries backend v th (s.goto th .decRead) :=
    ⟨value, .inl (Function.update_self ..)⟩
  cases backend with
  | spin =>
    rcases place with reads | ⟨swaps, positive⟩
    · simp only [semStep, semAccess, reads, spinSemaphore, value, Option.some.injEq] at step
      split_ifs at step with positive
      · cases step
        exact ⟨value, .inr ⟨Function.update_self .., fun _ => positive⟩⟩
      · cases step
        exact ⟨value, .inl reads⟩
    · simp only [semStep, semAccess, swaps, spinSemaphore, value, Option.some.injEq] at step
      rw [if_neg (int_of_large (large rfl) (positive rfl))] at step
      cases step
      exact back
  | ivshmem =>
    rcases place with reads | ⟨swaps, -⟩
    · simp only [semStep, semAccess, reads, ivshmemSemaphore, value] at step
      split_ifs at step
      cases step
      exact ⟨value, .inr ⟨Function.update_self .., fun impossible => by cases impossible⟩⟩
    · simp only [semStep, semAccess, swaps, ivshmemSemaphore, value, Option.some.injEq] at step
      rw [if_neg ne_pred_int] at step
      cases step
      exact back

/-- **It never returns.** -/
theorem dec_stuck (large : backend = .spin → 2 ^ 31 ≤ s.value.toNat) :
    ¬DecReturns backend s th := by
  rintro ⟨n, t, run, returned, -⟩
  obtain ⟨u, call, rest⟩ := exec_cons run
  have starts : Tries backend s.value th u := by
    simp only [semStep] at call
    split_ifs at call
    cases call
    exact ⟨rfl, .inl (Function.update_self ..)⟩
  have ends : Tries backend s.value th t := by
    clear run call
    induction n generalizing u with
    | zero =>
      cases rest
      exact starts
    | succ n ih =>
      obtain ⟨u', next, rest'⟩ := exec_cons rest
      exact ih u' rest' (starts.step large next)
  rcases ends.place with reads | ⟨swaps, -⟩
  · rw [returned] at reads
    cases reads
  · rw [returned] at swaps
    cases swaps

end Alone

/-- **When the semaphores count.** In every state of every run in which no thread is in a call: the
value is the number of increments minus that of decrements, and a decrement that starts alone with a
positive value takes one unit and returns, if and only if, on the spin backend, fewer than `2 ^ 31`
units are there, and on the ivshmem backend there are none. -/
theorem semaphore_counts_iff (backend : Backend) (moves : List (Nat × SemMove)) (s : SemState)
    (run : exec (semStep backend) asyncSemaphoreInit moves = some s)
    (quiet : ∀ th, s.threads th = .out) :
    SemaphoreCounts backend s ↔ SmallCount backend s := by
  cases backend with
  | spin =>
    obtain ⟨calls, units, refines⟩ := spin_refines run
    have balance := refines.balance
    have value := refines.value
    constructor
    · rintro ⟨counts, dec⟩
      show s.incs < s.decs + 2 ^ 31
      by_contra many
      exact dec_stuck (fun _ => by omega) (dec (by omega) 0)
    · intro few
      have few' : s.incs < s.decs + 2 ^ 31 := few
      rw [Nat.mod_eq_of_lt (by omega)] at value
      exact ⟨by omega, fun some th => spin_dec_returns (quiet th) some (by omega)⟩
  | ivshmem =>
    constructor
    · rintro ⟨counts, dec⟩
      have empty : s.value.toNat = 0 := by
        by_contra some
        exact dec_stuck (fun impossible => by cases impossible) (dec (Nat.pos_of_ne_zero some) 0)
      exact ⟨BitVec.eq_of_toNat_eq empty, by omega⟩
    · rintro ⟨empty, same⟩
      have zero : s.value.toNat = 0 := congrArg BitVec.toNat empty
      exact ⟨by omega, fun some => absurd zero (Nat.ne_of_gt some)⟩

/-- Two units on the spin backend, of which one is taken. -/
theorem semaphore_counts_iff_at_two :
    ∃ s, exec (semStep .spin) asyncSemaphoreInit [(0, .inc), (0, .next), (0, .inc), (0, .next),
        (0, .dec), (0, .next), (0, .next)] = some s ∧ s.value = 1 ∧ SemaphoreCounts .spin s := by
  let s : SemState :=
    { value := 1
      pending := 0
      threads := fun _ => .out
      incs := 2
      decs := 1 }
  have run : exec (semStep .spin) asyncSemaphoreInit [(0, .inc), (0, .next), (0, .inc),
      (0, .next), (0, .dec), (0, .next), (0, .next)] = some s := by
    simp [exec, semStep, semAccess, spinSemaphore, SemState.goto, asyncSemaphoreInit, s]
  exact ⟨s, run, rfl, (semaphore_counts_iff .spin _ s run fun _ => rfl).mpr (by decide)⟩

/-- **A unit that nobody gets.** On the ivshmem backend a decrement after one increment goes around
for ever. -/
theorem semaphore_ivshmem_stuck :
    ¬∀ (backend : Backend) (moves : List (Nat × SemMove)) (s : SemState),
      exec (semStep backend) asyncSemaphoreInit moves = some s →
      (∀ th, s.threads th = .out) → SemaphoreCounts backend s := by
  intro claimed
  let s : SemState :=
    { value := 1
      pending := 0
      threads := fun _ => .out
      incs := 1
      decs := 0 }
  have run : exec (semStep .ivshmem) asyncSemaphoreInit [(0, .inc), (0, .next), (0, .next)] =
      some s := by
    simp [exec, semStep, semAccess, ivshmemSemaphore, SemState.goto, asyncSemaphoreInit, s]
  have counts := claimed .ivshmem _ s run fun _ => rfl
  exact dec_stuck (fun impossible => by cases impossible) (counts.dec (by decide) 0)

end Arax.Async
