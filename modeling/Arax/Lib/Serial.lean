/-
**Calls under one lock.**

Threads call operations of a shared object, and every call makes all its accesses to the object
between taking a lock and giving it back. The accesses of two calls are then never mixed, so the
object is at any time what the finished calls make of it one after the other, in the order in which
they gave the lock back.

* `Body` — an operation as the accesses it makes, one at a time.
* `Body.Completes` — what a body does to the object when nobody else touches it.
* `lockedStep` — the interleavings: a call waits for the lock, makes its accesses, and gives the
  lock back.
* `Replays` — the finished calls, one after the other.
* `LockedInv`, `locked_keeps` — a state is explained by its finished calls and by the accesses of
  the call that has the lock.
* `readied_keeps` — a condition that each call meets when it is made, and that the calls that may
  overtake it do not break, is met when the call is served.
-/

import Mathlib.Data.Fintype.Basic
import Mathlib.Logic.Function.Basic
import Mathlib.Logic.Relation
import Mathlib.Tactic.SplitIfs
import Arax.Lib.Run

namespace Arax.Lib

variable {τ σ ω κ ρ : Type*}

/-! ### Bodies -/

/-- What an access leads to: the next place of the body, or the end of it. -/
inductive Access (σ κ ρ : Type*) where
  | more (now : κ) (object : σ)
  | done (result : ρ) (object : σ)

/-- Where an operation starts, and the access it makes at each place. -/
structure Body (σ ω κ ρ : Type*) where
  start : ω → κ
  access : κ → σ → Access σ κ ρ

namespace Body

/-- An access after which the body goes on. -/
def Step (body : Body σ ω κ ρ) (a b : κ × σ) : Prop := body.access a.1 a.2 = .more b.1 b.2

/-- The body of `op`, started on `base`, is at `now` and has made `object` of it. -/
def Reaches (body : Body σ ω κ ρ) (op : ω) (base : σ) (now : κ) (object : σ) : Prop :=
  Relation.ReflTransGen body.Step (body.start op, base) (now, object)

/-- The whole body of `op`, started on `base`, returns `result` and leaves `object`. -/
def Completes (body : Body σ ω κ ρ) (op : ω) (base : σ) (result : ρ) (object : σ) : Prop :=
  ∃ now before, body.Reaches op base now before ∧ body.access now before = .done result object

/-- Wherever the body gets, it comes to its end from there. -/
def Ends (body : Body σ ω κ ρ) : Prop :=
  ∀ op base now object, body.Reaches op base now object →
    ∃ last before result next, Relation.ReflTransGen body.Step (now, object) (last, before) ∧
      body.access last before = .done result next

theorem Reaches.more {body : Body σ ω κ ρ} {op : ω} {base object next : σ} {now later : κ}
    (reaches : body.Reaches op base now object)
    (access : body.access now object = .more later next) :
    body.Reaches op base later next :=
  Relation.ReflTransGen.tail reaches access

/-- A body comes to its end if every access that goes on lowers a measure. -/
theorem ends_of_measure {body : Body σ ω κ ρ} (measure : κ → σ → Nat)
    (falls : ∀ op base now object later next, body.Reaches op base now object →
      body.access now object = .more later next → measure later next < measure now object) :
    body.Ends := by
  intro op base now object reaches
  induction bound : measure now object using Nat.strongRecOn generalizing now object with
  | ind n ih =>
    cases access : body.access now object with
    | more later next =>
      have lower := falls op base now object later next reaches access
      obtain ⟨last, before, result, final, steps, done⟩ :=
        ih _ (bound ▸ lower) later next (reaches.more access) rfl
      have first : body.Step (now, object) (later, next) := access
      exact ⟨last, before, result, final, .head first steps, done⟩
    | done result next => exact ⟨now, object, result, next, .refl, access⟩

end Body

/-! ### Finished calls -/

/-- A call that has returned. -/
structure Finished (τ ω ρ : Type*) where
  thread : τ
  op : ω
  result : ρ
  deriving DecidableEq

/-- The calls of the log, one after the other, make `object` of `start`, with the results of the
log. -/
inductive Replays (body : Body σ ω κ ρ) (start : σ) : List (Finished τ ω ρ) → σ → Prop
  | nil : Replays body start [] start
  | snoc {log : List (Finished τ ω ρ)} {base object : σ} {call : Finished τ ω ρ}
    (before : Replays body start log base)
    (call_completes : body.Completes call.op base call.result object) :
    Replays body start (log ++ [call]) object

/-! ### Interleavings -/

/-- Where a thread is. -/
inductive Place (ω κ ρ : Type*) where
  | out
  /-- Waiting for the lock. -/
  | waiting (op : ω)
  /-- In the body. -/
  | inside (op : ω) (now : κ)
  /-- Behind the body, before giving the lock back. -/
  | leaving (op : ω) (result : ρ)

/-- The thread has the lock. -/
def Place.Holds : Place ω κ ρ → Prop
  | .inside _ _ | .leaving _ _ => True
  | .out | .waiting _ => False

/-- The object, the lock, the threads and the calls that have returned. -/
structure LockedState (τ σ ω κ ρ : Type*) where
  object : σ
  free : Bool
  places : τ → Place ω κ ρ
  log : List (Finished τ ω ρ)

/-- No calls yet. -/
def LockedState.init (object : σ) : LockedState τ σ ω κ ρ where
  object := object
  free := true
  places := fun _ => .out
  log := []

/-- What a thread does next. -/
inductive LockedMove (ω : Type*) where
  | call (op : ω)
  | enter
  | access
  | leave

/-! ### The invariant -/

/-- What the call at `place` has made of `base`. -/
def Place.Explains (body : Body σ ω κ ρ) (base object : σ) : Place ω κ ρ → Prop
  | .inside op now => body.Reaches op base now object
  | .leaving op result => body.Completes op base result object
  | .out | .waiting _ => False

/-- Nobody has the lock and the finished calls explain the object; or one thread has it, and its
accesses come on top. -/
inductive LockedInv (body : Body σ ω κ ρ) (start : σ) (s : LockedState τ σ ω κ ρ) : Prop
  | idle (free : s.free = true) (nobody : ∀ th, ¬(s.places th).Holds)
    (replays : Replays body start s.log s.object)
  | busy (taken : s.free = false) (th : τ) (others : ∀ other, other ≠ th → ¬(s.places other).Holds)
    (base : σ) (replays : Replays body start s.log base)
    (explains : (s.places th).Explains body base s.object)

theorem Place.Explains.holds {body : Body σ ω κ ρ} {base object : σ} {place : Place ω κ ρ}
    (explains : place.Explains body base object) : place.Holds := by
  cases place with
  | out => exact explains
  | waiting op => exact explains
  | inside op now => trivial
  | leaving op result => trivial

section Invariant

variable {body : Body σ ω κ ρ} {start : σ} {s : LockedState τ σ ω κ ρ} {th : τ}

/-- Only one thread has the lock. -/
theorem LockedInv.alone (inv : LockedInv body start s) {other : τ} (mine : (s.places th).Holds)
    (theirs : (s.places other).Holds) : th = other := by
  cases inv with
  | idle _ nobody _ => exact absurd mine (nobody th)
  | busy _ holder others _ _ _ =>
    have left : th = holder := not_not.mp fun apart => others th apart mine
    have right : other = holder := not_not.mp fun apart => others other apart theirs
    rw [left, right]

/-- The thread that has the lock explains the object. -/
theorem LockedInv.mine (inv : LockedInv body start s) (mine : (s.places th).Holds) :
    (∀ other, other ≠ th → ¬(s.places other).Holds) ∧
      ∃ base, Replays body start s.log base ∧ (s.places th).Explains body base s.object := by
  cases inv with
  | idle _ nobody _ => exact absurd mine (nobody th)
  | busy _ holder others base replays explains =>
    have same : th = holder := not_not.mp fun apart => others th apart mine
    subst same
    exact ⟨others, base, replays, explains⟩

theorem LockedInv.taken (inv : LockedInv body start s) (mine : (s.places th).Holds) :
    s.free = false := by
  cases inv with
  | idle _ nobody _ => exact absurd mine (nobody th)
  | busy taken _ _ _ _ _ => exact taken

end Invariant

/-! ### Conditions on calls -/

/-- The thread is in a call of `op`. -/
def Place.Of : Place ω κ ρ → ω → Prop
  | .out, _ => False
  | .waiting op, now | .inside op _, now | .leaving op _, now => op = now

theorem Place.not_of_out (op : ω) : ¬(Place.out : Place ω κ ρ).Of op := fun none => none

/-- The guard of a system whose calls have to meet a condition when they are made. -/
def LockedGuard (guard : LockedState τ σ ω κ ρ → ω → Prop) (s : LockedState τ σ ω κ ρ) :
    τ × LockedMove ω → Prop
  | (_, .call op) => guard s op
  | _ => True

/-- A call is ready after the finished ones, and apart from those in progress. -/
def CallReady (ready : List (Finished τ ω ρ) → ω → Prop) (apart : ω → ω → Prop)
    (s : LockedState τ σ ω κ ρ) (op : ω) : Prop :=
  ready s.log op ∧ ∀ other now, (s.places other).Of now → apart op now

/-- The condition on a call, by the places of the threads. -/
theorem callReady_iff {ready : List (Finished τ ω ρ) → ω → Prop} {apart : ω → ω → Prop}
    {s : LockedState τ σ ω κ ρ} {op : ω} :
    CallReady ready apart s op ↔ ready s.log op ∧ ∀ other,
      match s.places other with
      | .out => True
      | .waiting now | .inside now _ | .leaving now _ => apart op now := by
  refine and_congr Iff.rfl (forall_congr' fun other => ?_)
  cases s.places other with
  | out => exact ⟨fun _ => trivial, fun _ now here => absurd here (Place.not_of_out now)⟩
  | _ => exact ⟨fun all => all _ rfl, fun one _ same => same ▸ one⟩

instance decidableCallReady [Fintype τ] {ready : List (Finished τ ω ρ) → ω → Prop}
    {apart : ω → ω → Prop} [∀ log op, Decidable (ready log op)] [∀ op now, Decidable (apart op now)]
    (s : LockedState τ σ ω κ ρ) (op : ω) : Decidable (CallReady ready apart s op) :=
  have (other : τ) : Decidable (match s.places other with
      | .out => True
      | .waiting now | .inside now _ | .leaving now _ => apart op now) :=
    match s.places other with
    | .out => isTrue trivial
    | .waiting now | .inside now _ | .leaving now _ => inferInstanceAs (Decidable (apart op now))
  decidable_of_iff _ callReady_iff.symm

/-- The calls in progress are ready and apart from one another, and every finished one was ready
when it was served. -/
structure Readied (ready : List (Finished τ ω ρ) → ω → Prop) (apart : ω → ω → Prop)
    (s : LockedState τ σ ω κ ρ) : Prop where
  pending : ∀ th op, (s.places th).Of op → ready s.log op
  apart : ∀ th other op now, th ≠ other → (s.places th).Of op → (s.places other).Of now →
    apart op now
  past : ∀ before call after, s.log = before ++ call :: after → ready before call.op

/-- A move after which every thread is in the call it was in, or in none. -/
theorem Readied.quiet {ready : List (Finished τ ω ρ) → ω → Prop} {apart : ω → ω → Prop}
    {s t : LockedState τ σ ω κ ρ} (readied : Readied ready apart s) (log : t.log = s.log)
    (places : ∀ other op, (t.places other).Of op → (s.places other).Of op) :
    Readied ready apart t where
  pending other op here := log ▸ readied.pending other op (places other op here)
  apart one other op now different here there :=
    readied.apart one other op now different (places one op here) (places other now there)
  past before call after split := readied.past before call after (log ▸ split)

/-! ### Steps -/

section Interleavings

variable [DecidableEq τ]

/-- The thread `th` is now at `place`. -/
def LockedState.goto (s : LockedState τ σ ω κ ρ) (th : τ) (place : Place ω κ ρ) :
    LockedState τ σ ω κ ρ :=
  { s with places := Function.update s.places th place }

/-- One move of one thread. -/
def lockedStep (body : Body σ ω κ ρ) (s : LockedState τ σ ω κ ρ) :
    τ × LockedMove ω → Option (LockedState τ σ ω κ ρ)
  | (th, .call op) =>
    match s.places th with
    | .out => some (s.goto th (.waiting op))
    | _ => none
  | (th, .enter) =>
    match s.places th with
    | .waiting op =>
      if s.free then some { s.goto th (.inside op (body.start op)) with free := false } else none
    | _ => none
  | (th, .access) =>
    match s.places th with
    | .inside op now =>
      match body.access now s.object with
      | .more later next => some { s.goto th (.inside op later) with object := next }
      | .done result next => some { s.goto th (.leaving op result) with object := next }
    | _ => none
  | (th, .leave) =>
    match s.places th with
    | .leaving op result =>
      some { s.goto th .out with free := true, log := s.log ++ [⟨th, op, result⟩] }
    | _ => none

section Steps

variable {body : Body σ ω κ ρ} {start : σ} {s t : LockedState τ σ ω κ ρ} {th : τ}

/-- The other threads are where they were. -/
theorem LockedState.goto_others {place : Place ω κ ρ}
    (others : ∀ other, other ≠ th → ¬(s.places other).Holds) (other : τ) (apart : other ≠ th) :
    ¬((s.goto th place).places other).Holds := by
  show ¬(Function.update s.places th place other).Holds
  rw [Function.update_of_ne apart]
  exact others other apart

/-- A thread that asks for the lock changes nothing else. -/
theorem LockedInv.called (inv : LockedInv body start s) {op : ω} (here : s.places th = .out) :
    LockedInv body start (s.goto th (.waiting op)) := by
  have place : ∀ other, ((s.goto th (.waiting op)).places other).Holds ↔
      (s.places other).Holds := by
    intro other
    show (Function.update s.places th _ other).Holds ↔ _
    by_cases same : other = th
    · subst same
      rw [Function.update_self, here]
      exact Iff.rfl
    · rw [Function.update_of_ne same]
  cases inv with
  | idle free nobody replays =>
    exact .idle free (fun other holds => nobody other ((place other).mp holds)) replays
  | busy taken holder others base replays explains =>
    refine .busy taken holder (fun other apart holds => others other apart ((place other).mp holds))
      base replays ?_
    have apart : holder ≠ th := by
      rintro rfl
      rw [here] at explains
      exact explains
    show (Function.update s.places th _ holder).Explains body base s.object
    rw [Function.update_of_ne apart]
    exact explains

/-- A thread that finds the lock free starts its body on what the finished calls have made. -/
theorem LockedInv.entered (inv : LockedInv body start s) {op : ω} (free : s.free = true) :
    LockedInv body start { s.goto th (.inside op (body.start op)) with free := false } := by
  cases inv with
  | idle _ nobody replays =>
    refine .busy rfl th (LockedState.goto_others fun other _ => nobody other) s.object replays ?_
    show (Function.update s.places th _ th).Explains body s.object s.object
    rw [Function.update_self]
    exact Relation.ReflTransGen.refl
  | busy taken _ _ _ _ _ => exact absurd (free.symm.trans taken) Bool.noConfusion

/-- The thread that has the lock moves on in its body, or to the end of it. -/
theorem LockedInv.accessed (inv : LockedInv body start s)
    {place : Place ω κ ρ} {next : σ} (mine : (s.places th).Holds)
    (explains : ∀ base, (s.places th).Explains body base s.object →
      place.Explains body base next) :
    LockedInv body start { s.goto th place with object := next } := by
  obtain ⟨others, base, replays, before⟩ := inv.mine mine
  refine .busy (inv.taken mine) th (LockedState.goto_others others) base replays ?_
  show (Function.update s.places th place th).Explains body base next
  rw [Function.update_self]
  exact explains base before

/-- A thread that gives the lock back adds its call to the finished ones. -/
theorem LockedInv.left (inv : LockedInv body start s) {op : ω} {result : ρ}
    (here : s.places th = .leaving op result) :
    LockedInv body start
      { s.goto th .out with free := true, log := s.log ++ [⟨th, op, result⟩] } := by
  have mine : (s.places th).Holds := by rw [here]; trivial
  obtain ⟨others, base, replays, completes⟩ := inv.mine mine
  rw [here] at completes
  refine .idle rfl (fun other holds => ?_) (replays.snoc completes)
  by_cases same : other = th
  · subst same
    change (Function.update s.places other Place.out other).Holds at holds
    rw [Function.update_self] at holds
    exact holds
  · exact LockedState.goto_others others other same holds

theorem locked_keeps (move : τ × LockedMove ω) (inv : LockedInv body start s)
    (step : lockedStep body s move = some t) : LockedInv body start t := by
  obtain ⟨th, kind⟩ := move
  cases here : s.places th with
  | out =>
    cases kind with
    | call op =>
      simp only [lockedStep, here, Option.some.injEq] at step
      subst step
      exact inv.called here
    | _ => simp [lockedStep, here] at step
  | waiting op =>
    cases kind with
    | enter =>
      simp only [lockedStep, here] at step
      split_ifs at step with free
      cases step
      exact inv.entered free
    | _ => simp [lockedStep, here] at step
  | inside op now =>
    cases kind with
    | access =>
      have mine : (s.places th).Holds := by rw [here]; trivial
      simp only [lockedStep, here] at step
      cases access : body.access now s.object with
      | more later next =>
        rw [access] at step
        cases step
        refine inv.accessed mine fun base before => ?_
        rw [here] at before
        exact before.more access
      | done result next =>
        rw [access] at step
        cases step
        refine inv.accessed mine fun base before => ?_
        rw [here] at before
        exact ⟨now, s.object, before, access⟩
    | _ => simp [lockedStep, here] at step
  | leaving op result =>
    cases kind with
    | leave =>
      simp only [lockedStep, here, Option.some.injEq] at step
      subst step
      exact inv.left here
    | _ => simp [lockedStep, here] at step

/-- A move adds at most one finished call. -/
theorem lockedStep_log {move : τ × LockedMove ω} (step : lockedStep body s move = some t) :
    s.log <+: t.log := by
  obtain ⟨th, kind⟩ := move
  unfold lockedStep at step
  split at step
  all_goals split at step <;> try cases step
  · exact List.prefix_refl _
  · split_ifs at step
    cases step
    exact List.prefix_refl _
  · split at step <;> cases step <;> exact List.prefix_refl _
  · exact List.prefix_append _ _

end Steps

/-! ### Ready calls -/

section Readied

variable {ready : List (Finished τ ω ρ) → ω → Prop} {apart : ω → ω → Prop} {body : Body σ ω κ ρ}
  {s t : LockedState τ σ ω κ ρ} {th : τ}

/-- A thread that moves to a place of the same call. -/
theorem LockedState.goto_of {place : Place ω κ ρ} {op : ω}
    (same : ∀ now, place.Of now → (s.places th).Of now) (other : τ)
    (here : ((s.goto th place).places other).Of op) : (s.places other).Of op := by
  change (Function.update s.places th place other).Of op at here
  by_cases equal : other = th
  · subst equal
    rw [Function.update_self] at here
    exact same op here
  · rw [Function.update_of_ne equal] at here
    exact here

theorem Readied.called (symm : ∀ op now, apart op now → apart now op)
    (readied : Readied ready apart s) {op : ω} (guard : CallReady ready apart s op) :
    Readied ready apart (s.goto th (.waiting op)) where
  pending other now here := by
    change (Function.update s.places th _ other).Of now at here
    by_cases equal : other = th
    · subst equal
      rw [Function.update_self] at here
      cases here
      exact guard.1
    · rw [Function.update_of_ne equal] at here
      exact readied.pending other now here
  apart one other first second different here there := by
    change (Function.update s.places th _ one).Of first at here
    change (Function.update s.places th _ other).Of second at there
    by_cases left : one = th
    · subst left
      rw [Function.update_self] at here
      rw [Function.update_of_ne different.symm] at there
      cases here
      exact guard.2 other second there
    · rw [Function.update_of_ne left] at here
      by_cases right : other = th
      · subst right
        rw [Function.update_self] at there
        cases there
        exact symm _ _ (guard.2 one first here)
      · rw [Function.update_of_ne right] at there
        exact readied.apart one other first second different here there
  past := readied.past

theorem Readied.left
    (stable : ∀ log op call, ready log op → apart op call.op → ready (log ++ [call]) op)
    (readied : Readied ready apart s) {op : ω} {result : ρ}
    (here : s.places th = .leaving op result) :
    Readied ready apart
      { s.goto th .out with free := true, log := s.log ++ [⟨th, op, result⟩] } := by
  have mine : (s.places th).Of op := by rw [here]; rfl
  have gone : ∀ other now, ((s.goto th .out).places other).Of now →
      other ≠ th ∧ (s.places other).Of now := by
    intro other now there
    refine ⟨?_, LockedState.goto_of (fun now none => absurd none (Place.not_of_out now)) other
      there⟩
    rintro rfl
    change (Function.update s.places other .out other).Of now at there
    rw [Function.update_self] at there
    exact there
  refine ⟨fun other now there => ?_, fun one other first second different left right => ?_,
    fun before call after split => ?_⟩
  · obtain ⟨away, there⟩ := gone other now there
    exact stable _ _ _ (readied.pending other now there)
      (readied.apart other th now op away there mine)
  · exact readied.apart one other first second different (gone one first left).2
      (gone other second right).2
  · change s.log ++ [⟨th, op, result⟩] = before ++ call :: after at split
    rcases List.eq_nil_or_concat after with rfl | ⟨rest, last, rfl⟩
    · obtain ⟨logs, calls⟩ := List.append_inj' split rfl
      cases calls
      exact logs ▸ readied.pending th op mine
    · rw [List.concat_eq_append, ← List.cons_append, ← List.append_assoc] at split
      exact readied.past before call rest (List.append_inj' split rfl).1

/-- **Ready calls stay ready.** -/
theorem readied_keeps (symm : ∀ op now, apart op now → apart now op)
    (stable : ∀ log op call, ready log op → apart op call.op → ready (log ++ [call]) op)
    (move : τ × LockedMove ω) (readied : Readied ready apart s)
    (guard : LockedGuard (CallReady ready apart) s move)
    (step : lockedStep body s move = some t) : Readied ready apart t := by
  obtain ⟨th, kind⟩ := move
  cases kind with
  | call op =>
    simp only [lockedStep] at step
    split at step <;> cases step
    exact readied.called symm guard
  | enter =>
    simp only [lockedStep] at step
    split at step
    · rename_i op here
      split_ifs at step
      cases step
      refine readied.quiet rfl fun other now => LockedState.goto_of (fun now same => ?_) other
      rw [here]
      exact same
    · cases step
  | access =>
    simp only [lockedStep] at step
    split at step
    · rename_i op now here
      split at step <;> cases step
      · refine readied.quiet rfl fun other now => LockedState.goto_of (fun now same => ?_) other
        rw [here]
        exact same
      · refine readied.quiet rfl fun other now => LockedState.goto_of (fun now same => ?_) other
        rw [here]
        exact same
    · cases step
  | leave =>
    simp only [lockedStep] at step
    split at step
    · rename_i op result here
      cases step
      exact readied.left stable here
    · cases step

end Readied

end Interleavings

end Arax.Lib
