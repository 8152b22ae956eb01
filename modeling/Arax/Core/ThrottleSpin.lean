/-
**The throttle on the spin backend (`src/core/arax_throttle.c`, `src/async/spin/async.c`).**

The same calls as on the mutex backend, with a condition that is a completion, used as a lock, and
a counting semaphore: `async_condition_wait` unlocks, takes a token from the semaphore and locks
again, and `async_condition_notify` posts one token. So a call of `arax_throttle_size_inc` wakes
one of the waiting threads, whichever takes the token first; if the request of this one is still
too large, or if more than one request fits, others stay without a token.

An assertion that fails ends the run.

* `Stranded` — every thread is out or waits without a token, and a waiting request fits.
* `spin_not_stranded` — this is not reached if nobody takes the last token while another waiting
  request fits.
* `spin_stranded` — a run that reaches it.
-/

import Mathlib.Algebra.Group.Nat.Defs
import Mathlib.Logic.Function.Basic
import Mathlib.Tactic.SplitIfs
import Arax.Lib.Run

namespace Arax.Core

open Arax.Lib

/-- Where a thread is in its call. -/
inductive SpinPlace where
  | out
  /-- `arax_throttle_size_dec` before `async_condition_lock`. -/
  | decLock (sz : Nat)
  /-- At `while (thr->available < sz)`. -/
  | decTest (sz : Nat)
  /-- At `async_completion_complete` of `async_condition_wait`. -/
  | waitUnlock (sz : Nat)
  /-- At `value = sem->value` of `async_semaphore_dec`. -/
  | semRead (sz : Nat)
  /-- At the swap of `async_semaphore_dec`. -/
  | semSwap (sz value : Nat)
  /-- At `async_completion_wait` of `async_condition_wait`. -/
  | waitLock (sz : Nat)
  /-- At `thr->available -= sz`. -/
  | decTake (sz : Nat)
  /-- At the assertion of `arax_throttle_size_dec`. -/
  | decCheck
  /-- `arax_throttle_size_inc` before `async_condition_lock`. -/
  | incLock (sz : Nat)
  /-- At `thr->available += sz`. -/
  | incAdd (sz : Nat)
  /-- At the assertion of `arax_throttle_size_inc`. -/
  | incCheck
  /-- At `async_condition_notify`. -/
  | incNotify
  /-- At `async_condition_unlock`. -/
  | unlock
  deriving DecidableEq

/-- `arax_throttle_s` with the condition of the spin backend, and the threads. -/
structure SpinState where
  available : Nat
  capacity : Nat
  /-- `completed` of the completion: nobody holds the lock. -/
  completed : Bool
  /-- `value` of the semaphore. -/
  semaphore : Nat
  threads : Nat → SpinPlace

/-- `arax_throttle_init`, with its assertions. -/
def spinThrottleInit (aSz tSz : Nat) : Option SpinState :=
  if 0 < aSz ∧ 0 < tSz ∧ aSz ≤ tSz then
    some { available := aSz, capacity := tSz, completed := true, semaphore := 0,
           threads := fun _ => .out }
  else none

/-- What a thread does next. -/
inductive SpinMove where
  /-- Call `arax_throttle_size_dec`. -/
  | sizeDec (sz : Nat)
  /-- Call `arax_throttle_size_inc`. -/
  | sizeInc (sz : Nat)
  /-- Make the next access of its call. -/
  | next
  deriving DecidableEq

/-- The thread `th` is now at `place`. -/
def SpinState.goto (s : SpinState) (th : Nat) (place : SpinPlace) : SpinState :=
  { s with threads := Function.update s.threads th place }

/-- `async_completion_wait`: the swap from 1 to 0, repeated until it succeeds. -/
def SpinState.lock (s : SpinState) (th : Nat) (place : SpinPlace) : Option SpinState :=
  if s.completed then some { s.goto th place with completed := false } else none

/-- The next access of a call. -/
def spinAccess (s : SpinState) (th : Nat) : SpinPlace → Option SpinState
  | .out => none
  | .decLock sz => s.lock th (.decTest sz)
  | .decTest sz =>
    some (if s.available < sz then s.goto th (.waitUnlock sz) else s.goto th (.decTake sz))
  | .waitUnlock sz => some { s.goto th (.semRead sz) with completed := true }
  | .semRead sz =>
    -- `value` is an `int`: the low 32 bits, negative from 2 ^ 31 on
    let value := s.semaphore % 2 ^ 32
    some (if 1 ≤ value ∧ value < 2 ^ 31 then s.goto th (.semSwap sz value) else s)
  | .semSwap sz value =>
    some (if s.semaphore = value then { s.goto th (.waitLock sz) with semaphore := value - 1 }
      else s.goto th (.semRead sz))
  | .waitLock sz => s.lock th (.decTest sz)
  | .decTake sz =>
    some { s.goto th .decCheck with available := (2 ^ 64 - sz + s.available) % 2 ^ 64 }
  | .decCheck => if s.available ≤ s.capacity then some (s.goto th .unlock) else none
  | .incLock sz => s.lock th (.incAdd sz)
  | .incAdd sz => some { s.goto th .incCheck with available := (s.available + sz) % 2 ^ 64 }
  | .incCheck => if s.available ≤ s.capacity then some (s.goto th .incNotify) else none
  | .incNotify => some { s.goto th .unlock with semaphore := (s.semaphore + 1) % 2 ^ 64 }
  | .unlock => some { s.goto th .out with completed := true }

/-- One move of one thread. Calls with `sz == 0` return at once. -/
def spinStep (s : SpinState) : Nat × SpinMove → Option SpinState
  | (th, .sizeDec sz) =>
    if s.threads th = .out then some (if sz = 0 then s else s.goto th (.decLock sz)) else none
  | (th, .sizeInc sz) =>
    if s.threads th = .out then some (if sz = 0 then s else s.goto th (.incLock sz)) else none
  | (th, .next) => spinAccess s th (s.threads th)

/-- The thread waits for a token, to take `sz` bytes. -/
def SpinPlace.WaitsFor (place : SpinPlace) (sz : Nat) : Prop :=
  place = .semRead sz ∨ ∃ value, place = .semSwap sz value

/-- Every thread is out or waits without a token, and one of them could go on. -/
def Stranded (s : SpinState) : Prop :=
  s.semaphore = 0 ∧ (∀ th, s.threads th = .out ∨ ∃ sz, (s.threads th).WaitsFor sz) ∧
    ∃ th sz, (s.threads th).WaitsFor sz ∧ sz ≤ s.available

/-- A thread has added bytes and has yet to post its token. -/
def Posting (s : SpinState) : Prop :=
  ∃ th, s.threads th = .incCheck ∨ s.threads th = .incNotify

/-- The condition on a move. When a thread takes the last token, no other waiting request fits,
unless the call that made it fit has yet to post a token; and the semaphore does not wrap. -/
def TokenGuard (s : SpinState) : Nat × SpinMove → Prop
  | (th, .next) =>
    match s.threads th with
    | .semSwap _ value => s.semaphore = value → 2 ≤ value ∨ Posting s ∨
        ∀ other, other ≠ th → ∀ sz, (s.threads other).WaitsFor sz → s.available < sz
    | .incNotify => s.semaphore + 1 < 2 ^ 64
    | _ => True
  | _ => True

/-! ### The invariant -/

/-- The thread holds the lock. -/
def SpinPlace.inside : SpinPlace → Bool
  | .decTest _ | .waitUnlock _ | .decTake _ | .decCheck | .incAdd _ | .incCheck | .incNotify
  | .unlock => true
  | .out | .decLock _ | .semRead _ | .semSwap _ _ | .waitLock _ | .incLock _ => false

/-- What holds at a place. -/
def SpinPlaceInv (s : SpinState) : SpinPlace → Prop
  | .decTake sz => sz ≤ s.available
  | .waitUnlock sz => s.available < sz
  | .semRead sz | .semSwap sz _ => s.available < sz ∨ 1 ≤ s.semaphore ∨ Posting s
  | _ => True

/-- The invariant: one thread at a time holds the lock, and a waiting request that fits has a token
to come. -/
structure SpinInv (s : SpinState) : Prop where
  locked : ∀ th, (s.threads th).inside → s.completed = false
  exclusive : ∀ th other, (s.threads th).inside → (s.threads other).inside → th = other
  places : ∀ th, SpinPlaceInv s (s.threads th)

section Steps

variable {s t : SpinState} {th : Nat} {place : SpinPlace}

theorem SpinInv.waits (inv : SpinInv s) {sz : Nat} (waits : (s.threads th).WaitsFor sz) :
    s.available < sz ∨ 1 ≤ s.semaphore ∨ Posting s := by
  have here := inv.places th
  rcases waits with reads | ⟨value, swaps⟩
  · rw [reads] at here
    exact here
  · rw [swaps] at here
    exact here

/-- A thread that is about to post stays where it is while another one moves. -/
theorem Posting.moved (posting : Posting s)
    (threads : t.threads = Function.update s.threads th place)
    (quiet : s.threads th ≠ .incCheck ∧ s.threads th ≠ .incNotify) : Posting t := by
  obtain ⟨other, posts⟩ := posting
  have apart : other ≠ th := by
    rintro rfl
    exact posts.elim quiet.1 quiet.2
  refine ⟨other, ?_⟩
  rw [threads, Function.update_of_ne apart]
  exact posts

/-- **A move.** A thread enters the critical section only if the lock is free, and changes what is
available only there. -/
theorem SpinInv.move (inv : SpinInv s) (threads : t.threads = Function.update s.threads th place)
    (enters : place.inside → t.completed = false ∧ ((s.threads th).inside ∨ s.completed = true))
    (leaves : place.inside = false → t.completed = s.completed ∨ (s.threads th).inside)
    (kept : t.available = s.available ∨ (s.threads th).inside) (here : SpinPlaceInv t place)
    (waits : ∀ other, other ≠ th → ∀ sz, (s.threads other).WaitsFor sz →
      t.available < sz ∨ 1 ≤ t.semaphore ∨ Posting t) : SpinInv t := by
  have alone : ∀ other, other ≠ th → (s.threads other).inside → ¬(s.threads th).inside :=
    fun other apart inner mine => apart (inv.exclusive other th inner mine)
  have occupied : ∀ other, other ≠ th → (s.threads other).inside → place.inside = false := by
    intro other apart inner
    by_contra entered
    rw [Bool.not_eq_false] at entered
    rcases (enters entered).2 with mine | free
    · exact alone other apart inner mine
    · rw [inv.locked other inner] at free
      cases free
  have place' : ∀ other, other ≠ th → t.threads other = s.threads other := by
    intro other apart
    rw [threads, Function.update_of_ne apart]
  have self : t.threads th = place := by
    rw [threads, Function.update_self]
  refine ⟨fun other inner => ?_, fun one two first second => ?_, fun other => ?_⟩
  · by_cases same : other = th
    · rw [same, self] at inner
      exact (enters inner).1
    · rw [place' other same] at inner
      rcases leaves (occupied other same inner) with unchanged | mine
      · rw [unchanged]
        exact inv.locked other inner
      · exact absurd mine (alone other same inner)
  · by_cases oneTh : one = th <;> by_cases twoTh : two = th
    · rw [oneTh, twoTh]
    · rw [oneTh, self] at first
      rw [place' two twoTh] at second
      rw [occupied two twoTh second] at first
      cases first
    · rw [place' one oneTh] at first
      rw [twoTh, self] at second
      rw [occupied one oneTh first] at second
      cases second
    · rw [place' one oneTh] at first
      rw [place' two twoTh] at second
      exact inv.exclusive one two first second
  · by_cases same : other = th
    · rw [same, self]
      exact here
    · have before := inv.places other
      have after := waits other same
      have inner : (s.threads other).inside → t.available = s.available := fun inner =>
        kept.resolve_right (alone other same inner)
      rw [place' other same]
      cases spot : s.threads other with
      | decTake sz =>
        rw [spot] at before inner
        show sz ≤ t.available
        rw [inner rfl]
        exact before
      | waitUnlock sz =>
        rw [spot] at before inner
        show t.available < sz
        rw [inner rfl]
        exact before
      | semRead sz => exact after sz (.inl spot)
      | semSwap sz value => exact after sz (.inr ⟨value, spot⟩)
      | out | decLock sz | decTest sz | waitLock sz | decCheck | incLock sz | incAdd sz | incCheck
      | incNotify | unlock => trivial

/-- A move that adds no bytes and takes no token, by a thread that owes none. -/
theorem SpinInv.quiet (inv : SpinInv s) (threads : t.threads = Function.update s.threads th place)
    (idle : s.threads th ≠ .incCheck ∧ s.threads th ≠ .incNotify)
    (enters : place.inside → t.completed = false ∧ ((s.threads th).inside ∨ s.completed = true))
    (leaves : place.inside = false → t.completed = s.completed ∨ (s.threads th).inside)
    (kept : t.available = s.available ∨ ((s.threads th).inside ∧ t.available ≤ s.available))
    (tokens : t.semaphore = s.semaphore) (here : SpinPlaceInv t place) : SpinInv t := by
  refine inv.move threads enters leaves (kept.imp_right And.left) here fun other _ sz waiting => ?_
  rw [tokens]
  refine (inv.waits waiting).imp (fun large => ?_) (Or.imp_right fun posting => ?_)
  · rcases kept with same | ⟨-, less⟩
    · rw [same]
      exact large
    · exact Nat.lt_of_le_of_lt less large
  · exact posting.moved threads idle

/-- `async_completion_wait`. -/
theorem SpinInv.lock (inv : SpinInv s) (idle : s.threads th ≠ .incCheck ∧ s.threads th ≠ .incNotify)
    (enters : place.inside) (here : ∀ t, SpinPlaceInv t place)
    (step : s.lock th place = some t) : SpinInv t := by
  unfold SpinState.lock at step
  split_ifs at step with free
  cases step
  refine inv.quiet rfl idle (fun _ => ⟨rfl, .inr free⟩) (fun outside => ?_) (.inl rfl) rfl (here _)
  rw [enters] at outside
  cases outside

/-- **Every access that meets the condition keeps the invariant.** -/
theorem spinAccess_inv (inv : SpinInv s) (guard : TokenGuard s (th, .next))
    (step : spinAccess s th (s.threads th) = some t) : SpinInv t := by
  have here := inv.places th
  have idle : ∀ place, s.threads th = place → place ≠ .incCheck → place ≠ .incNotify →
      s.threads th ≠ .incCheck ∧ s.threads th ≠ .incNotify := by
    rintro place rfl notCheck notNotify
    exact ⟨notCheck, notNotify⟩
  have inner : ∀ place, s.threads th = place → place.inside →
      s.completed = false ∧ (s.threads th).inside := by
    rintro place rfl inside
    exact ⟨inv.locked th inside, inside⟩
  cases at' : s.threads th with
  | out =>
    rw [at'] at step
    cases step
  | decLock sz | waitLock sz | incLock sz =>
    rw [at'] at step
    refine inv.lock (idle _ at' (by simp) (by simp)) ?_ ?_ step
    · rfl
    · exact fun _ => trivial
  | decTest sz =>
    rw [at'] at step
    cases step
    obtain ⟨locked, inside⟩ := inner _ at' rfl
    split_ifs with short
    · exact inv.quiet rfl (idle _ at' (by simp) (by simp)) (fun _ => ⟨locked, .inl inside⟩)
        (fun _ => .inl rfl) (.inl rfl) rfl short
    · exact inv.quiet rfl (idle _ at' (by simp) (by simp)) (fun _ => ⟨locked, .inl inside⟩)
        (fun _ => .inl rfl) (.inl rfl) rfl (Nat.le_of_not_lt short)
  | waitUnlock sz =>
    rw [at'] at step here
    cases step
    obtain ⟨locked, inside⟩ := inner _ at' rfl
    exact inv.quiet rfl (idle _ at' (by simp) (by simp)) (fun impossible => by cases impossible)
      (fun _ => .inr inside) (.inl rfl) rfl (.inl here)
  | semRead sz =>
    rw [at'] at step here
    cases step
    split_ifs with positive
    · have token : 1 ≤ s.semaphore := Nat.le_trans positive.1 (Nat.mod_le ..)
      exact inv.quiet rfl (idle _ at' (by simp) (by simp)) (fun impossible => by cases impossible)
        (fun _ => .inl rfl) (.inl rfl) rfl (.inr (.inl token))
    · exact inv
  | semSwap sz value =>
    have large := inv.waits (.inr ⟨value, at'⟩ : (s.threads th).WaitsFor sz)
    rw [at'] at step
    cases step
    split_ifs with same
    · -- the token is gone for the others
      simp only [TokenGuard, at'] at guard
      refine inv.move rfl (fun impossible => by cases impossible) (fun _ => .inl rfl) (.inl rfl)
        trivial fun other apart size waiting => ?_
      rcases guard same with more | posting | none
      · exact .inr (.inl (Nat.le_sub_one_of_lt more))
      · exact .inr (.inr (posting.moved rfl (idle _ at' (by simp) (by simp))))
      · exact .inl (none other apart size waiting)
    · refine inv.quiet rfl (idle _ at' (by simp) (by simp)) (fun impossible => by cases impossible)
        (fun _ => .inl rfl) (.inl rfl) rfl ?_
      exact large.imp_right (Or.imp_right fun posting =>
        posting.moved rfl (idle _ at' (by simp) (by simp)))
  | decTake sz =>
    rw [at'] at step here
    cases step
    obtain ⟨locked, inside⟩ := inner _ at' rfl
    refine inv.quiet rfl (idle _ at' (by simp) (by simp)) (fun _ => ⟨locked, .inl inside⟩)
      (fun impossible => by cases impossible) (.inr ⟨inside, ?_⟩) rfl trivial
    have fits : sz ≤ s.available := here
    show (2 ^ 64 - sz + s.available) % 2 ^ 64 ≤ s.available
    omega
  | decCheck =>
    rw [at'] at step
    simp only [spinAccess] at step
    split_ifs at step
    cases step
    obtain ⟨locked, inside⟩ := inner _ at' rfl
    exact inv.quiet rfl (idle _ at' (by simp) (by simp)) (fun _ => ⟨locked, .inl inside⟩)
      (fun impossible => by cases impossible) (.inl rfl) rfl trivial
  | incAdd sz =>
    rw [at'] at step
    cases step
    obtain ⟨locked, inside⟩ := inner _ at' rfl
    exact inv.move rfl (fun _ => ⟨locked, .inl inside⟩) (fun impossible => by cases impossible)
      (.inr inside) trivial fun _ _ _ _ => .inr (.inr ⟨th, .inl (Function.update_self ..)⟩)
  | incCheck =>
    rw [at'] at step
    simp only [spinAccess] at step
    split_ifs at step
    cases step
    obtain ⟨locked, inside⟩ := inner _ at' rfl
    exact inv.move rfl (fun _ => ⟨locked, .inl inside⟩) (fun impossible => by cases impossible)
      (.inl rfl) trivial fun _ _ _ _ => .inr (.inr ⟨th, .inr (Function.update_self ..)⟩)
  | incNotify =>
    rw [at'] at step
    cases step
    obtain ⟨locked, inside⟩ := inner _ at' rfl
    simp only [TokenGuard, at'] at guard
    refine inv.move rfl (fun _ => ⟨locked, .inl inside⟩) (fun impossible => by cases impossible)
      (.inl rfl) trivial fun _ _ _ _ => .inr (.inl ?_)
    show 1 ≤ (s.semaphore + 1) % 2 ^ 64
    rw [Nat.mod_eq_of_lt guard]
    exact Nat.succ_pos _
  | unlock =>
    rw [at'] at step
    cases step
    obtain ⟨locked, inside⟩ := inner _ at' rfl
    exact inv.quiet rfl (idle _ at' (by simp) (by simp)) (fun impossible => by cases impossible)
      (fun _ => .inr inside) (.inl rfl) rfl trivial

/-- **Every move that meets the condition keeps the invariant.** -/
theorem spinStep_inv {move : Nat × SpinMove} (inv : SpinInv s) (guard : TokenGuard s move)
    (step : spinStep s move = some t) : SpinInv t := by
  obtain ⟨th, move⟩ := move
  cases move with
  | sizeDec sz | sizeInc sz =>
    simp only [spinStep] at step
    split_ifs at step with idle zero
    · cases step
      exact inv
    · cases step
      exact inv.quiet rfl (by simp [idle]) (fun impossible => by cases impossible)
        (fun _ => .inl rfl) (.inl rfl) rfl trivial
  | next => exact spinAccess_inv inv guard step

end Steps

/-- A state of the invariant is not stranded. -/
theorem SpinInv.not_stranded {s : SpinState} (inv : SpinInv s) : ¬Stranded s := by
  rintro ⟨empty, all, th, sz, waits, fits⟩
  rcases inv.waits waits with large | token | ⟨other, posts⟩
  · exact absurd fits (Nat.not_le.mpr large)
  · rw [empty] at token
    exact absurd token (Nat.not_succ_le_zero 0)
  · rcases all other with out | ⟨size, reads | ⟨value, swaps⟩⟩
    · rw [out] at posts
      cases posts <;> contradiction
    · rw [reads] at posts
      cases posts <;> contradiction
    · rw [swaps] at posts
      cases posts <;> contradiction

/-- **No lost wake-up on the spin backend, if no token is taken from a request that fits.** In a run
whose moves meet `TokenGuard`, no state is stranded. -/
theorem spin_not_stranded (aSz tSz : Nat) (s₀ : SpinState)
    (init : spinThrottleInit aSz tSz = some s₀) (moves : List (Nat × SpinMove))
    (guarded : Guarded spinStep TokenGuard s₀ moves) (s : SpinState)
    (run : exec spinStep s₀ moves = some s) : ¬Stranded s := by
  unfold spinThrottleInit at init
  split_ifs at init
  cases init
  have start : SpinInv { available := aSz, capacity := tSz, completed := true, semaphore := 0,
                         threads := fun _ => .out } :=
    ⟨fun _ impossible => (by cases impossible), fun _ _ impossible => (by cases impossible),
      fun _ => trivial⟩
  exact (exec_guarded (fun _ _ _ inv guard step => spinStep_inv inv guard step) start guarded
    run).not_stranded

/-! ### Runs of finitely many threads -/

/-- The threads from `n` on have made no call. -/
def OutFrom (n : Nat) (s : SpinState) : Prop :=
  ∀ th, n ≤ th → s.threads th = .out

theorem goto_other {s : SpinState} {th other : Nat} (place : SpinPlace) (apart : other ≠ th) :
    (s.goto th place).threads other = s.threads other :=
  Function.update_of_ne apart ..

theorem lock_other {s t : SpinState} {th other : Nat} {place : SpinPlace} (apart : other ≠ th)
    (step : s.lock th place = some t) : t.threads other = s.threads other := by
  unfold SpinState.lock at step
  split_ifs at step
  cases step
  exact goto_other place apart

/-- A thread moves only itself. -/
theorem spinStep_other {s t : SpinState} {th other : Nat} {move : SpinMove} (apart : other ≠ th)
    (step : spinStep s (th, move) = some t) : t.threads other = s.threads other := by
  cases move with
  | sizeDec sz | sizeInc sz =>
    simp only [spinStep] at step
    split_ifs at step
    · cases step
      rfl
    · cases step
      exact goto_other _ apart
  | next =>
    simp only [spinStep] at step
    cases at' : s.threads th with
    | out =>
      rw [at'] at step
      cases step
    | decLock sz | waitLock sz | incLock sz =>
      rw [at'] at step
      exact lock_other apart step
    | waitUnlock sz | decTake sz | incAdd sz | incNotify | unlock =>
      rw [at'] at step
      cases step
      exact goto_other _ apart
    | decTest sz | semSwap sz value =>
      rw [at'] at step
      cases step
      split_ifs
      · exact goto_other _ apart
      · exact goto_other _ apart
    | semRead sz =>
      rw [at'] at step
      cases step
      split_ifs
      · exact goto_other _ apart
      · rfl
    | decCheck | incCheck =>
      rw [at'] at step
      simp only [spinAccess] at step
      split_ifs at step
      cases step
      exact goto_other _ apart

theorem OutFrom.step {n : Nat} {s t : SpinState} {move : Nat × SpinMove} (out : OutFrom n s)
    (below : move.1 < n) (step : spinStep s move = some t) : OutFrom n t := by
  intro other above
  have apart : other ≠ move.1 := by omega
  rw [spinStep_other apart step]
  exact out other above

/-- Threads that make no move stay out. -/
theorem OutFrom.run {n : Nat} {s t : SpinState} {moves : List (Nat × SpinMove)} (out : OutFrom n s)
    (below : ∀ move ∈ moves, move.1 < n) (run : exec spinStep s moves = some t) : OutFrom n t := by
  induction moves generalizing s with
  | nil =>
    cases run
    exact out
  | cons move rest ih =>
    obtain ⟨u, step, later⟩ := exec_cons run
    rw [List.forall_mem_cons] at below
    exact ih (out.step below.1 step) below.2 later

/-- The waiting request of a thread. -/
def SpinPlace.request : SpinPlace → Option Nat
  | .semRead sz | .semSwap sz _ => some sz
  | _ => none

theorem SpinPlace.waitsFor_iff (place : SpinPlace) (sz : Nat) :
    place.WaitsFor sz ↔ place.request = some sz := by
  constructor
  · rintro (rfl | ⟨value, rfl⟩)
    · rfl
    · rfl
  · intro request
    cases place with
    | semRead size =>
      cases request
      exact .inl rfl
    | semSwap size value =>
      cases request
      exact .inr ⟨value, rfl⟩
    | _ => cases request

/-- A sufficient condition that can be evaluated, for a run of the threads below `n`. -/
def tokenGuardBelow (n : Nat) (s : SpinState) : Nat × SpinMove → Bool
  | (th, .next) => decide (th < n) &&
    match s.threads th with
    | .semSwap _ value => decide (2 ≤ value) ||
        (List.range n).all fun other => other == th ||
          (s.threads other).request.all fun sz => s.available < sz
    | .incNotify => s.semaphore + 1 < 2 ^ 64
    | _ => true
  | (th, _) => decide (th < n)

theorem tokenGuardBelow_lt {n : Nat} {s : SpinState} {move : Nat × SpinMove}
    (check : tokenGuardBelow n s move) : move.1 < n := by
  obtain ⟨th, move⟩ := move
  cases move with
  | sizeDec sz | sizeInc sz => exact of_decide_eq_true check
  | next => exact of_decide_eq_true (Bool.and_eq_true_iff.mp check).1

theorem tokenGuard_of_below {n : Nat} {s : SpinState} {move : Nat × SpinMove}
    (out : OutFrom n s) (check : tokenGuardBelow n s move) : TokenGuard s move := by
  obtain ⟨th, move⟩ := move
  cases move with
  | sizeDec sz | sizeInc sz => trivial
  | next =>
    have inner := (Bool.and_eq_true_iff.mp check).2
    simp only [TokenGuard]
    cases at' : s.threads th with
    | semSwap size value =>
      simp only [at', Bool.or_eq_true, decide_eq_true_eq, List.all_eq_true, List.mem_range,
        beq_iff_eq, Option.all_eq_true_iff_get] at inner
      refine fun _ => inner.imp_right fun fits => .inr fun other apart sz waits => ?_
      rw [SpinPlace.waitsFor_iff] at waits
      have below : other < n := by
        by_contra above
        rw [out other (Nat.le_of_not_lt above)] at waits
        cases waits
      have large := (fits other below).resolve_left apart
      simpa [waits] using large
    | incNotify =>
      simp only [at', decide_eq_true_eq] at inner
      exact inner
    | _ => trivial

theorem guarded_of_below {n : Nat} {s : SpinState} {moves : List (Nat × SpinMove)}
    (out : OutFrom n s)
    (checked : Guarded spinStep (fun s move => tokenGuardBelow n s move) s moves) :
    Guarded spinStep TokenGuard s moves :=
  checked.imp (OutFrom n) (fun _ _ out check => tokenGuard_of_below out check)
    (fun _ _ _ out check step => out.step (tokenGuardBelow_lt check) step) out

/-- Two threads ask for more than there is. The first request is still too large when five bytes
come back, and its thread takes the token. -/
def strandingRun : List (Nat × SpinMove) :=
  (2, .sizeDec 11) :: List.replicate 5 (2, .next) ++
  (0, .sizeDec 10) :: List.replicate 3 (0, .next) ++
  (1, .sizeDec 3) :: List.replicate 3 (1, .next) ++
  (2, .sizeInc 5) :: List.replicate 5 (2, .next) ++ List.replicate 5 (0, .next)

/-- **A lost wake-up.** The run strands the thread that asks for three bytes, with six available. -/
theorem spin_stranded :
    ¬∀ (aSz tSz : Nat) (s₀ : SpinState), spinThrottleInit aSz tSz = some s₀ →
      ∀ (moves : List (Nat × SpinMove)) (s : SpinState), exec spinStep s₀ moves = some s →
        ¬Stranded s := by
  intro claimed
  have view : (exec spinStep
      { available := 12, capacity := 100, completed := true, semaphore := 0,
        threads := fun _ => .out } strandingRun).map
      (fun s => (s.available, s.semaphore, s.threads 0, s.threads 1, s.threads 2)) =
      some (6, 0, .semRead 10, .semRead 3, .out) := by decide
  obtain ⟨s, run, ends⟩ := Option.map_eq_some_iff.mp view
  simp only [Prod.mk.injEq] at ends
  obtain ⟨available, semaphore, zero, one, two⟩ := ends
  have out : OutFrom 3 s := OutFrom.run (fun _ _ => rfl) (by decide) run
  refine claimed 12 100 _ rfl strandingRun s run ⟨semaphore, fun th => ?_, 1, 3, .inl one, ?_⟩
  · match th with
    | 0 => exact .inr ⟨10, .inl zero⟩
    | 1 => exact .inr ⟨3, .inl one⟩
    | 2 => exact .inl two
    | th + 3 => exact .inl (out (th + 3) (Nat.le_add_left 3 th))
  · rw [available]
    decide

/-- One thread waits; it takes the last token when nobody else waits. -/
theorem spin_not_stranded_at_token :
    ∃ s₀ s, spinThrottleInit 5 10 = some s₀ ∧
      exec spinStep s₀ ((0, .sizeDec 5) :: List.replicate 5 (0, .next) ++
        (1, .sizeDec 3) :: List.replicate 3 (1, .next) ++
        (0, .sizeInc 5) :: List.replicate 5 (0, .next) ++ List.replicate 7 (1, .next)) = some s ∧
      s.available = 2 ∧ ¬Stranded s := by
  have run : (exec spinStep
      { available := 5, capacity := 10, completed := true, semaphore := 0,
        threads := fun _ => .out }
      ((0, .sizeDec 5) :: List.replicate 5 (0, .next) ++
        (1, .sizeDec 3) :: List.replicate 3 (1, .next) ++
        (0, .sizeInc 5) :: List.replicate 5 (0, .next) ++ List.replicate 7 (1, .next))).map
      SpinState.available = some 2 := by decide
  obtain ⟨s, run, available⟩ := Option.map_eq_some_iff.mp run
  refine ⟨_, s, rfl, run, available, spin_not_stranded 5 10 _ rfl _ ?_ s run⟩
  exact guarded_of_below (fun _ _ => rfl : OutFrom 2 _) (by decide)

end Arax.Core
