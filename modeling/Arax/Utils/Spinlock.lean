/-
**The spin lock (`src/utils/spinlock.h`).**

`utils_spinlock_lock` reads the word until it is 0, then tries to swap 0 for 1, and starts again if
another thread was faster. `utils_spinlock_unlock` asserts that the word is not 0 and clears it.
Between the two a thread makes the accesses of its call, one at a time, in any interleaving with the
other threads and processes.

* `spinlockStep` — the accesses to the word and to the object that it protects.
* `spinlock_simulates` — a move on the word is a move on an abstract lock, or none.
* `spinlock_sound` — in every state of every run no assertion has failed, one thread at most is
  between lock and unlock, and the object is what the finished calls make of it one after the other.
* `spinlock_acquires` — a thread that asks for the lock can always get it: the one that has it is
  never stuck.
-/

import Arax.Lib.Serial

namespace Arax.Utils

open Arax.Lib

variable {τ σ ω κ ρ : Type*}

/-- Where a thread is in `lock`, in the accesses of its call, or in `unlock`. -/
inductive SpinlockPlace (ω κ ρ : Type*) where
  | out
  /-- At `while (*lock)`. -/
  | reading (op : ω)
  /-- At `__sync_bool_compare_and_swap(lock, 0, 1)`. -/
  | swapping (op : ω)
  | inside (op : ω) (now : κ)
  /-- At `arax_assert(*lock)`. -/
  | asserting (op : ω) (result : ρ)
  /-- At `__sync_fetch_and_and(lock, 0)`. -/
  | clearing (op : ω) (result : ρ)
  /-- The assertion has failed. -/
  | aborted

/-- The word, the object it protects, the threads, and the calls that have returned. -/
structure SpinlockState (τ σ ω κ ρ : Type*) where
  object : σ
  lock : Nat
  places : τ → SpinlockPlace ω κ ρ
  log : List (Finished τ ω ρ)

/-- `utils_spinlock_init`. -/
def utilsSpinlockInit (object : σ) : SpinlockState τ σ ω κ ρ where
  object := object
  lock := 0
  places := fun _ => .out
  log := []

/-- What a thread does next: call an operation, or make the next access of its call. -/
inductive SpinlockMove (ω : Type*) where
  | call (op : ω)
  | next

/-- Between lock and unlock. -/
def SpinlockPlace.Holds : SpinlockPlace ω κ ρ → Prop
  | .inside _ _ | .asserting _ _ | .clearing _ _ => True
  | .out | .reading _ | .swapping _ | .aborted => False

section Steps

variable [DecidableEq τ]

/-- The thread `th` is now at `place`. -/
def SpinlockState.goto (s : SpinlockState τ σ ω κ ρ) (th : τ) (place : SpinlockPlace ω κ ρ) :
    SpinlockState τ σ ω κ ρ :=
  { s with places := Function.update s.places th place }

/-- The next access of a call. -/
def spinlockAccess (body : Body σ ω κ ρ) (s : SpinlockState τ σ ω κ ρ) (th : τ) :
    SpinlockPlace ω κ ρ → Option (SpinlockState τ σ ω κ ρ)
  | .out | .aborted => none
  | .reading op => some (if s.lock ≠ 0 then s else s.goto th (.swapping op))
  | .swapping op =>
    some (if s.lock = 0 then { s.goto th (.inside op (body.start op)) with lock := 1 }
      else s.goto th (.reading op))
  | .inside op now =>
    match body.access now s.object with
    | .more later object => some { s.goto th (.inside op later) with object := object }
    | .done result object => some { s.goto th (.asserting op result) with object := object }
  | .asserting op result =>
    some (if s.lock ≠ 0 then s.goto th (.clearing op result) else s.goto th .aborted)
  | .clearing op result =>
    some { s.goto th .out with lock := 0, log := s.log ++ [⟨th, op, result⟩] }

/-- One move of one thread. -/
def spinlockStep (body : Body σ ω κ ρ) (s : SpinlockState τ σ ω κ ρ) :
    τ × SpinlockMove ω → Option (SpinlockState τ σ ω κ ρ)
  | (th, .call op) =>
    match s.places th with
    | .out => some (s.goto th (.reading op))
    | _ => none
  | (th, .next) => spinlockAccess body s th (s.places th)

/-! ### The abstract lock -/

/-- Where the thread is with respect to a lock that is taken and given back in one move. -/
def SpinlockPlace.abs : SpinlockPlace ω κ ρ → Place ω κ ρ
  | .out | .aborted => .out
  | .reading op | .swapping op => .waiting op
  | .inside op now => .inside op now
  | .asserting op result | .clearing op result => .leaving op result

/-- The abstract lock is free if the word is 0. -/
def SpinlockState.abs (s : SpinlockState τ σ ω κ ρ) : LockedState τ σ ω κ ρ where
  object := s.object
  free := decide (s.lock = 0)
  places := SpinlockPlace.abs ∘ s.places
  log := s.log

variable {body : Body σ ω κ ρ} {start : σ} {s t : SpinlockState τ σ ω κ ρ} {th : τ}

theorem SpinlockPlace.abs_holds (place : SpinlockPlace ω κ ρ) : place.abs.Holds ↔ place.Holds := by
  cases place <;> exact Iff.rfl

theorem SpinlockState.abs_goto (s : SpinlockState τ σ ω κ ρ) (th : τ)
    (place : SpinlockPlace ω κ ρ) : (s.goto th place).abs = s.abs.goto th place.abs := by
  have places : SpinlockPlace.abs ∘ Function.update s.places th place =
      Function.update (SpinlockPlace.abs ∘ s.places) th place.abs := Function.comp_update _ _ _ _
  exact congrArg (fun all => LockedState.mk s.object (decide (s.lock = 0)) all s.log) places

/-- A thread that moves to where it already is for the abstract lock. -/
theorem SpinlockState.abs_goto_same {place : SpinlockPlace ω κ ρ}
    (same : place.abs = (s.places th).abs) : (s.goto th place).abs = s.abs := by
  rw [SpinlockState.abs_goto, same]
  unfold LockedState.goto
  congr
  exact Function.update_eq_self th _

/-- No assertion has failed. -/
def SpinlockState.Calm (s : SpinlockState τ σ ω κ ρ) : Prop := ∀ th, s.places th ≠ .aborted

theorem SpinlockState.Calm.goto {place : SpinlockPlace ω κ ρ} (calm : s.Calm)
    (fine : place ≠ .aborted) : (s.goto th place).Calm := by
  intro other
  show Function.update s.places th place other ≠ .aborted
  by_cases same : other = th
  · subst same
    rw [Function.update_self]
    exact fine
  · rw [Function.update_of_ne same]
    exact calm other

/-- A move that writes the word, the object or the log besides. -/
theorem SpinlockState.abs_goto_with (s : SpinlockState τ σ ω κ ρ) (th : τ)
    (place : SpinlockPlace ω κ ρ) (object : σ) (lock : Nat) (log : List (Finished τ ω ρ)) :
    (SpinlockState.mk object lock (s.goto th place).places log).abs =
      LockedState.mk object (decide (lock = 0)) (s.abs.goto th place.abs).places log := by
  rw [← SpinlockState.abs_goto]
  rfl

/-- A call starts with a request for the abstract lock. -/
theorem spinlock_simulates_call {op : ω} (calm : s.Calm)
    (step : spinlockStep body s (th, .call op) = some t) :
    lockedStep body s.abs (th, .call op) = some t.abs ∧ t.Calm := by
  have abs : s.abs.places th = (s.places th).abs := rfl
  simp only [spinlockStep] at step
  split at step
  · rename_i here
    rw [here] at abs
    cases step
    refine ⟨?_, calm.goto nofun⟩
    simp only [lockedStep, abs, SpinlockPlace.abs, SpinlockState.abs_goto]
  · cases step

/-- **Simulation.** An access to the word is a move on the abstract lock, or none, and the assertion
holds. -/
theorem spinlock_simulates (inv : LockedInv body start s.abs) (calm : s.Calm)
    (step : spinlockAccess body s th (s.places th) = some t) :
    (t.abs = s.abs ∨
      ∃ act, (∀ op, act ≠ .call op) ∧ lockedStep body s.abs (th, act) = some t.abs) ∧ t.Calm := by
  have abs : s.abs.places th = (s.places th).abs := rfl
  cases here : s.places th with
  | out =>
    rw [here] at step
    cases step
  | reading op =>
    rw [here] at step
    simp only [spinlockAccess, Option.some.injEq] at step
    subst step
    split_ifs
    · exact ⟨.inl rfl, calm⟩
    · exact ⟨.inl (SpinlockState.abs_goto_same (by rw [here]; rfl)),
        calm.goto (fun same => by cases same)⟩
  | swapping op =>
    rw [here] at step abs
    simp only [spinlockAccess, Option.some.injEq] at step
    subst step
    split_ifs with zero
    · have free : s.abs.free = true := decide_eq_true zero
      refine ⟨.inr ⟨.enter, (fun _ same => by cases same), ?_⟩,
        calm.goto (fun same => by cases same)⟩
      simp only [lockedStep, abs, SpinlockPlace.abs, free, if_true]
      exact congrArg some (s.abs_goto_with th (.inside op (body.start op)) s.object 1 s.log).symm
    · exact ⟨.inl (SpinlockState.abs_goto_same (by rw [here]; rfl)),
        calm.goto (fun same => by cases same)⟩
  | inside op now =>
    rw [here] at step abs
    simp only [spinlockAccess] at step
    have same : s.abs.object = s.object := rfl
    cases access : body.access now s.object with
    | more later next =>
      rw [access] at step
      cases step
      refine ⟨.inr ⟨.access, (fun _ same => by cases same), ?_⟩,
        calm.goto (fun same => by cases same)⟩
      simp only [lockedStep, abs, SpinlockPlace.abs, same, access]
      exact congrArg some (s.abs_goto_with th (.inside op later) next s.lock s.log).symm
    | done result next =>
      rw [access] at step
      cases step
      refine ⟨.inr ⟨.access, (fun _ same => by cases same), ?_⟩,
        calm.goto (fun same => by cases same)⟩
      simp only [lockedStep, abs, SpinlockPlace.abs, same, access]
      exact congrArg some (s.abs_goto_with th (.asserting op result) next s.lock s.log).symm
  | asserting op result =>
    have mine : (s.abs.places th).Holds := by rw [abs, here]; trivial
    have taken : ¬s.lock = 0 := of_decide_eq_false (inv.taken mine)
    rw [here] at step
    simp only [spinlockAccess, if_pos taken, Option.some.injEq] at step
    subst step
    exact ⟨.inl (SpinlockState.abs_goto_same (by rw [here]; rfl)),
      calm.goto (fun same => by cases same)⟩
  | clearing op result =>
    rw [here] at step abs
    simp only [spinlockAccess, Option.some.injEq] at step
    subst step
    refine ⟨.inr ⟨.leave, (fun _ same => by cases same), ?_⟩, calm.goto (fun same => by cases same)⟩
    simp only [lockedStep, abs, SpinlockPlace.abs]
    exact congrArg some
      (s.abs_goto_with th .out s.object 0 (s.log ++ [Finished.mk th op result])).symm
  | aborted => exact absurd here (calm th)

/-- The invariant: it is that of the abstract lock, and no assertion has failed. -/
structure SpinlockInv (body : Body σ ω κ ρ) (start : σ) (s : SpinlockState τ σ ω κ ρ) : Prop where
  locked : LockedInv body start s.abs
  calm : s.Calm

theorem spinlock_keeps (move : τ × SpinlockMove ω) (inv : SpinlockInv body start s)
    (step : spinlockStep body s move = some t) : SpinlockInv body start t := by
  obtain ⟨th, kind⟩ := move
  cases kind with
  | call op =>
    obtain ⟨move, calm⟩ := spinlock_simulates_call inv.calm step
    exact ⟨locked_keeps _ inv.locked move, calm⟩
  | next =>
    obtain ⟨same | ⟨act, -, move⟩, calm⟩ := spinlock_simulates inv.locked inv.calm step
    · exact ⟨same ▸ inv.locked, calm⟩
    · exact ⟨locked_keeps _ inv.locked move, calm⟩

theorem spinlock_inv {object : σ} {moves : List (τ × SpinlockMove ω)}
    (run : exec (spinlockStep body) (utilsSpinlockInit object) moves = some t) :
    SpinlockInv body object t := by
  have nobody : ∀ th, ¬((utilsSpinlockInit object : SpinlockState τ σ ω κ ρ).abs.places th).Holds :=
    fun _ holds => holds
  exact exec_invariant (fun _ move _ inv step => spinlock_keeps move inv step)
    ⟨.idle rfl nobody .nil, fun _ => nofun⟩ run

/-- The guard of a system whose calls have to meet a condition when they are made. -/
def SpinlockGuard (guard : LockedState τ σ ω κ ρ → ω → Prop) (s : SpinlockState τ σ ω κ ρ) :
    τ × SpinlockMove ω → Prop
  | (_, .call op) => guard s.abs op
  | (_, .next) => True

instance decidableSpinlockGuard (guard : LockedState τ σ ω κ ρ → ω → Prop)
    [∀ s op, Decidable (guard s op)] (s : SpinlockState τ σ ω κ ρ) :
    ∀ move, Decidable (SpinlockGuard guard s move)
  | (_, .call op) => inferInstanceAs (Decidable (guard s.abs op))
  | (_, .next) => isTrue trivial

/-- What the guarded moves on the abstract lock keep, the guarded moves on the word keep. -/
theorem spinlock_keeps_abs {guard : LockedState τ σ ω κ ρ → ω → Prop}
    {holds : LockedState τ σ ω κ ρ → Prop}
    (keeps : ∀ s act t, holds s → LockedGuard guard s act → lockedStep body s act = some t →
      holds t)
    (move : τ × SpinlockMove ω) (inv : SpinlockInv body start s) (before : holds s.abs)
    (guarded : SpinlockGuard guard s move) (step : spinlockStep body s move = some t) :
    holds t.abs := by
  obtain ⟨th, kind⟩ := move
  cases kind with
  | call op =>
    exact keeps _ (th, .call op) _ before guarded (spinlock_simulates_call inv.calm step).1
  | next =>
    rcases (spinlock_simulates inv.locked inv.calm step).1 with same | ⟨act, other, move⟩
    · exact same ▸ before
    · refine keeps _ _ _ before ?_ move
      cases act with
      | call op => exact absurd rfl (other op)
      | _ => trivial

/-- Finished calls stay in the log, in their order. -/
theorem spinlock_log_prefix {moves : List (τ × SpinlockMove ω)}
    (inv : SpinlockInv body start s) (run : exec (spinlockStep body) s moves = some t) :
    s.log <+: t.log := by
  have keeps : ∀ u move v, SpinlockInv body start u ∧ s.log <+: u.log →
      spinlockStep body u move = some v → SpinlockInv body start v ∧ s.log <+: v.log := by
    rintro u ⟨th, kind⟩ v ⟨here, before⟩ step
    refine ⟨spinlock_keeps _ here step, before.trans ?_⟩
    cases kind with
    | call op => exact lockedStep_log (spinlock_simulates_call here.calm step).1
    | next =>
      rcases (spinlock_simulates here.locked here.calm step).1 with same | ⟨act, -, move⟩
      · have logs : v.log = u.log := congrArg LockedState.log same
        exact ⟨[], by rw [logs, List.append_nil]⟩
      · exact lockedStep_log move
  exact (exec_invariant keeps ⟨inv, List.prefix_refl _⟩ run).2

omit [DecidableEq τ] in
/-- The finished calls lead to the object, or to what the call that has the lock found. -/
theorem SpinlockInv.replays (inv : SpinlockInv body start s) :
    ∃ base, Replays body start s.log base ∧ (s.lock = 0 → s.object = base) := by
  cases inv.locked with
  | idle _ _ replays => exact ⟨s.object, replays, fun _ => rfl⟩
  | busy taken _ _ base replays _ =>
    exact ⟨base, replays, fun zero => absurd zero (of_decide_eq_false taken)⟩

/-- **Ready calls.** If a call is ready and apart from those in progress when it is made, it is
ready when it is served. -/
theorem spinlock_readied {ready : List (Finished τ ω ρ) → ω → Prop} {apart : ω → ω → Prop}
    (symm : ∀ op now, apart op now → apart now op)
    (stable : ∀ log op call, ready log op → apart op call.op → ready (log ++ [call]) op)
    {object : σ} {moves : List (τ × SpinlockMove ω)}
    (guarded : Guarded (spinlockStep body) (SpinlockGuard (CallReady ready apart))
      (utilsSpinlockInit object) moves)
    (run : exec (spinlockStep body) (utilsSpinlockInit object) moves = some t) :
    Readied ready apart t.abs := by
  have keeps : ∀ s move t, SpinlockInv body object s ∧ Readied ready apart s.abs →
      SpinlockGuard (CallReady ready apart) s move → spinlockStep body s move = some t →
      SpinlockInv body object t ∧ Readied ready apart t.abs := by
    rintro s move t ⟨inv, readied⟩ guard step
    refine ⟨spinlock_keeps move inv step, ?_⟩
    exact spinlock_keeps_abs (fun _ act _ before guard step =>
      readied_keeps symm stable act before guard step) move inv readied guard step
  have first : SpinlockInv body object (utilsSpinlockInit object : SpinlockState τ σ ω κ ρ) :=
    spinlock_inv (show exec _ _ [] = _ from rfl)
  have nobody : Readied ready apart (utilsSpinlockInit object : SpinlockState τ σ ω κ ρ).abs :=
    ⟨fun _ op none => absurd none (Place.not_of_out op),
      fun _ _ op _ _ none _ => absurd none (Place.not_of_out op),
      fun before _ _ split => by cases before <;> cases split⟩
  exact (exec_guarded keeps ⟨first, nobody⟩ guarded run).2

/-! ### Nobody waits in vain -/

/-- A run from one state to another. -/
def SpinlockState.Leads (body : Body σ ω κ ρ) (s t : SpinlockState τ σ ω κ ρ) : Prop :=
  ∃ moves, exec (spinlockStep body) s moves = some t

theorem SpinlockState.Leads.trans {u : SpinlockState τ σ ω κ ρ} (first : s.Leads body t)
    (second : t.Leads body u) : s.Leads body u := by
  obtain ⟨before, reached⟩ := first
  obtain ⟨after, left⟩ := second
  refine ⟨before ++ after, ?_⟩
  rw [exec_append, reached]
  exact left

/-- The next access of a thread that is known to be at `place`. -/
theorem SpinlockState.leads_next {place : SpinlockPlace ω κ ρ} (here : s.places th = place)
    (step : spinlockAccess body s th place = some t) : s.Leads body t := by
  refine ⟨[(th, .next)], ?_⟩
  show (spinlockAccess body s th (s.places th)).bind _ = _
  rw [here, step]
  rfl

/-- A run of the accesses of one call up to `t`, where the word is 0. -/
structure Unlocks (body : Body σ ω κ ρ) (th : τ) (s t : SpinlockState τ σ ω κ ρ) : Prop where
  leads : s.Leads body t
  zero : t.lock = 0
  /-- The other threads are where they were. -/
  others : ∀ other, other ≠ th → t.places other = s.places other

/-- One more access before. -/
theorem Unlocks.before {place : SpinlockPlace ω κ ρ} {u : SpinlockState τ σ ω κ ρ}
    (here : s.places th = place) (step : spinlockAccess body s th place = some u)
    (others : ∀ other, other ≠ th → u.places other = s.places other) (rest : Unlocks body th u t) :
    Unlocks body th s t where
  leads := (SpinlockState.leads_next here step).trans rest.leads
  zero := rest.zero
  others other apart := (rest.others other apart).trans (others other apart)

theorem unlocks_clearing {op : ω} {result : ρ} (here : s.places th = .clearing op result) :
    ∃ t, Unlocks body th s t :=
  ⟨_, SpinlockState.leads_next here rfl, rfl, fun _ apart => Function.update_of_ne apart _ _⟩

theorem unlocks_asserting {op : ω} {result : ρ} (here : s.places th = .asserting op result)
    (taken : s.lock ≠ 0) : ∃ t, Unlocks body th s t := by
  have asserted : spinlockAccess body s th (.asserting op result) =
      some (s.goto th (.clearing op result)) := congrArg some (if_pos taken)
  have there : (s.goto th (.clearing op result)).places th = .clearing op result :=
    Function.update_self _ _ _
  obtain ⟨t, rest⟩ : ∃ t, Unlocks body th (s.goto th (.clearing op result)) t :=
    unlocks_clearing there
  exact ⟨t, rest.before here asserted fun _ apart => Function.update_of_ne apart _ _⟩

/-- The accesses of the body, and then the end of the call. -/
theorem unlocks_inside {op : ω} {first last : κ × σ} {next : σ} {result : ρ}
    (steps : Relation.ReflTransGen body.Step first last)
    (ends : body.access last.1 last.2 = .done result next) (same : s.object = first.2)
    (here : s.places th = .inside op first.1) (taken : s.lock ≠ 0) :
    ∃ t, Unlocks body th s t := by
  induction steps using Relation.ReflTransGen.head_induction_on generalizing s with
  | refl =>
    have step : spinlockAccess body s th (.inside op last.1) =
        some { s.goto th (.asserting op result) with object := next } := by
      simp only [spinlockAccess, same, ends]
    have there : (s.goto th (.asserting op result)).places th = .asserting op result :=
      Function.update_self _ _ _
    obtain ⟨t, rest⟩ : ∃ t, Unlocks body th
        { s.goto th (.asserting op result) with object := next } t := unlocks_asserting there taken
    exact ⟨t, rest.before here step fun _ apart => Function.update_of_ne apart _ _⟩
  | @head now later access _ ih =>
    have step : spinlockAccess body s th (.inside op now.1) =
        some { s.goto th (.inside op later.1) with object := later.2 } := by
      have move : body.access now.1 now.2 = .more later.1 later.2 := access
      simp only [spinlockAccess, same, move]
    have there : (s.goto th (.inside op later.1)).places th = .inside op later.1 :=
      Function.update_self _ _ _
    obtain ⟨t, rest⟩ := ih (s := { s.goto th (.inside op later.1) with object := later.2 })
      rfl there taken
    exact ⟨t, rest.before here step fun _ apart => Function.update_of_ne apart _ _⟩

/-- **The thread that has the lock can give it back.** -/
theorem SpinlockInv.unlocks (inv : SpinlockInv body start s) (ends : body.Ends)
    (mine : (s.places th).Holds) : ∃ t, Unlocks body th s t := by
  have holds : (s.abs.places th).Holds := (SpinlockPlace.abs_holds _).mpr mine
  have taken : s.lock ≠ 0 := of_decide_eq_false (inv.locked.taken holds)
  obtain ⟨-, base, -, explains⟩ := inv.locked.mine holds
  change (s.places th).abs.Explains body base s.object at explains
  cases here : s.places th with
  | inside op now =>
    rw [here] at explains
    obtain ⟨last, before, result, next, steps, done⟩ := ends op base now s.object explains
    exact unlocks_inside steps done rfl here taken
  | asserting op result => exact unlocks_asserting here taken
  | clearing op result => exact unlocks_clearing here
  | _ =>
    rw [here] at mine
    exact mine.elim

/-- The thread asks for the lock, to call `op`. -/
def SpinlockPlace.Wants (place : SpinlockPlace ω κ ρ) (op : ω) : Prop :=
  place = .reading op ∨ place = .swapping op

/-- A thread that finds the word 0 gets the lock with its next two accesses. -/
theorem leads_inside {op : ω} (wants : (s.places th).Wants op) (zero : s.lock = 0) :
    ∃ t, s.Leads body t ∧ t.places th = .inside op (body.start op) := by
  have swaps : ∀ u : SpinlockState τ σ ω κ ρ, u.lock = 0 → u.places th = .swapping op →
      ∃ t, u.Leads body t ∧ t.places th = .inside op (body.start op) := by
    intro u free here
    refine ⟨{ u.goto th (.inside op (body.start op)) with lock := 1 },
      SpinlockState.leads_next here (congrArg some (if_pos free)), Function.update_self _ _ _⟩
  rcases wants with reads | here
  · have seen : spinlockAccess body s th (.reading op) = some (s.goto th (.swapping op)) :=
      congrArg some (if_neg (not_not.mpr zero))
    obtain ⟨t, leads, inside⟩ := swaps (s.goto th (.swapping op)) zero (Function.update_self _ _ _)
    exact ⟨t, (SpinlockState.leads_next reads seen).trans leads, inside⟩
  · exact swaps s zero here

/-- **No deadlock.** In every state of every run a thread that asks for the lock can get it. -/
theorem SpinlockInv.acquires (inv : SpinlockInv body start s) (ends : body.Ends) {op : ω}
    (wants : (s.places th).Wants op) :
    ∃ t, s.Leads body t ∧ t.places th = .inside op (body.start op) := by
  by_cases zero : s.lock = 0
  · exact leads_inside wants zero
  cases inv.locked with
  | idle free _ _ => exact absurd (of_decide_eq_true free) zero
  | busy _ holder _ _ _ explains =>
    have holds : (s.places holder).Holds := (SpinlockPlace.abs_holds _).mp explains.holds
    obtain ⟨u, unlocks⟩ := inv.unlocks ends holds
    have apart : th ≠ holder := by
      rintro rfl
      rcases wants with here | here <;> rw [here] at holds <;> exact holds
    have still : (u.places th).Wants op := by
      rw [unlocks.others th apart]
      exact wants
    obtain ⟨t, leads, inside⟩ := leads_inside still unlocks.zero
    exact ⟨t, unlocks.leads.trans leads, inside⟩

/-! ### Soundness -/

/-- What a spin lock is for. -/
structure SpinlockSound (body : Body σ ω κ ρ) (object : σ) (s : SpinlockState τ σ ω κ ρ) :
    Prop where
  /-- No thread has failed the assertion of `utils_spinlock_unlock`. -/
  asserted : ∀ th, s.places th ≠ .aborted
  /-- One thread at most is between lock and unlock. -/
  alone : ∀ th other, (s.places th).Holds → (s.places other).Holds → th = other
  /-- The word is 0 exactly while nobody is there. -/
  word : s.lock = 0 ↔ ∀ th, ¬(s.places th).Holds
  /-- Then the object is what the finished calls, one after the other, make of it. -/
  serial : s.lock = 0 → Replays body object s.log s.object
  /-- A thread that asks for the lock can get it. -/
  acquires : ∀ th op, (s.places th).Wants op →
    ∃ t, s.Leads body t ∧ t.places th = .inside op (body.start op)

/-- **The spin lock.** Whatever the calls make of the object, as long as each of them comes to an
end, the lock keeps them apart, never fails its assertion and is never stuck. -/
theorem spinlock_sound (body : Body σ ω κ ρ) (ends : body.Ends) (object : σ)
    (moves : List (τ × SpinlockMove ω)) (s : SpinlockState τ σ ω κ ρ)
    (run : exec (spinlockStep body) (utilsSpinlockInit object) moves = some s) :
    SpinlockSound body object s := by
  have inv := spinlock_inv run
  have holds : ∀ th, (s.abs.places th).Holds ↔ (s.places th).Holds := fun th =>
    SpinlockPlace.abs_holds (s.places th)
  refine ⟨inv.calm, fun th other mine theirs => ?_, ?_, fun zero => ?_, fun th op wants =>
    inv.acquires ends wants⟩
  · exact inv.locked.alone ((holds th).mpr mine) ((holds other).mpr theirs)
  · cases inv.locked with
    | idle free nobody _ =>
      exact ⟨fun _ th mine => nobody th ((holds th).mpr mine), fun _ => of_decide_eq_true free⟩
    | busy taken holder _ _ _ explains =>
      refine ⟨fun zero => absurd zero (of_decide_eq_false taken), fun nobody => ?_⟩
      exact absurd ((holds holder).mp explains.holds) (nobody holder)
  · cases inv.locked with
    | idle _ _ replays => exact replays
    | busy taken _ _ _ _ _ => exact absurd zero (of_decide_eq_false taken)

end Steps

/-- A counter that is read with one access and written with the next one. -/
def counterBody : Body Nat Unit (Option Nat) Nat where
  start _ := none
  access
    | none, count => .more (some count) count
    | some seen, _ => .done seen (seen + 1)

theorem counterBody_ends : counterBody.Ends := by
  intro op base now object _
  cases now with
  | none => exact ⟨some object, object, object, object + 1, .single rfl, rfl⟩
  | some seen => exact ⟨some seen, object, seen, seen + 1, .refl, rfl⟩

/-- Two threads: the second one reads the word while the first one is between lock and unlock, and
fails to swap after it has seen the word 0. -/
def counterMoves : List (Bool × SpinlockMove Unit) :=
  [(true, .call ()), (false, .call ()), (true, .next), (false, .next), (true, .next),
    (false, .next), (true, .next), (false, .next), (true, .next), (true, .next), (true, .next),
    (false, .next), (false, .next), (false, .next), (false, .next), (false, .next), (false, .next)]

theorem spinlock_sound_at_counter : ∃ s,
    exec (spinlockStep counterBody) (utilsSpinlockInit 0) counterMoves = some s ∧
      s.object = 2 ∧ SpinlockSound counterBody 0 s := by
  have count : (exec (spinlockStep counterBody) (utilsSpinlockInit 0) counterMoves).map
      SpinlockState.object = some 2 := rfl
  obtain ⟨s, run, object⟩ := Option.map_eq_some_iff.mp count
  exact ⟨s, run, object, spinlock_sound counterBody counterBody_ends 0 counterMoves s run⟩

end Arax.Utils
