/-
**Monitors.**

Threads call operations of a shared object under one lock. An operation that is not ready gives the
lock back, sleeps until it is woken up, and tests again. Two kinds of wake-ups are distinguished: a
notification that wakes all sleeping threads up, and one that is kept as a token until a sleeping
thread takes it.

* `Monitor` — the operations; `Monitor.atomic` — what they do if each call is one step.
* `monitorStep` — the interleavings, one access at a time.
* `MonitorInv`, `monitor_keeps` — one thread at a time is inside, the object is what the calls make
  of it one after the other, and no thread sleeps on while its operation is ready.
* `monitor_moves` — a thread in a call can go on, or the one that has the lock can, or its operation
  is not ready.

With tokens, a wake-up may be taken by the wrong thread, so there only one thread may have to wait.
-/

import Mathlib.Data.List.Basic
import Mathlib.Logic.Function.Basic
import Mathlib.Tactic.SplitIfs
import Arax.Lib.Run

namespace Arax.Lib

variable {τ σ ω : Type*}

/-! ### Operations -/

/-- The operations of a monitor. -/
structure Monitor (σ ω : Type*) where
  /-- The operation does not have to wait. -/
  ready : ω → σ → Bool
  apply : ω → σ → σ
  /-- The operation notifies, after it is applied to this object. -/
  notifies : ω → σ → Bool

/-- A call as one step. -/
def Monitor.atomic (m : Monitor σ ω) (object : σ) (op : ω) : Option σ :=
  if m.ready op object then some (m.apply op object) else none

/-- An operation that makes another one ready notifies. -/
def Monitor.Announces (m : Monitor σ ω) : Prop :=
  ∀ op other object, m.ready op object = true → m.ready other object = false →
    m.ready other (m.apply op object) = true → m.notifies op object = true

/-- What a notification does. -/
inductive Signal where
  | broadcast
  | tokens
  deriving DecidableEq

/-- Where a thread is in its call. -/
inductive MonitorPlace (ω : Type*) where
  | out
  /-- Before the lock. -/
  | entering (op : ω)
  | testing (op : ω)
  /-- Not ready, before giving the lock back. -/
  | parting (op : ω)
  | asleep (op : ω)
  /-- Before taking the lock again. -/
  | woken (op : ω)
  | acting (op : ω)
  | notifying (op : ω)
  /-- Before giving the lock back. -/
  | leaving (op : ω)
  deriving DecidableEq

namespace MonitorPlace

/-- The thread has the lock. -/
def Holds : MonitorPlace ω → Prop
  | .testing _ | .parting _ | .acting _ | .notifying _ | .leaving _ => True
  | .out | .entering _ | .asleep _ | .woken _ => False

/-- The operation that the thread is in. -/
def op? : MonitorPlace ω → Option ω
  | .out => none
  | .entering op | .testing op | .parting op | .asleep op | .woken op | .acting op | .notifying op
  | .leaving op => some op

/-- The thread is in a call whose operation is not applied yet. -/
def Pending : MonitorPlace ω → Prop
  | .entering _ | .testing _ | .parting _ | .asleep _ | .woken _ | .acting _ => True
  | .out | .notifying _ | .leaving _ => False

/-- What a broadcast does to a thread. -/
def wake : MonitorPlace ω → MonitorPlace ω
  | .asleep op => .woken op
  | place => place

theorem wake_cases (place : MonitorPlace ω) :
    place.wake = place ∨ ∃ op, place = .asleep op ∧ place.wake = .woken op := by
  cases place with
  | asleep op => exact .inr ⟨op, rfl, rfl⟩
  | _ => exact .inl rfl

theorem wake_ne_asleep (place : MonitorPlace ω) (op : ω) : place.wake ≠ .asleep op := by
  cases place <;> exact nofun

end MonitorPlace

/-- The object, the lock, the threads, the tokens, and the operations that were applied. -/
structure MonitorState (τ σ ω : Type*) where
  object : σ
  holder : Option τ
  places : τ → MonitorPlace ω
  tokens : Nat
  log : List (τ × ω)

/-- No calls yet. -/
def MonitorState.init (object : σ) : MonitorState τ σ ω where
  object := object
  holder := none
  places := fun _ => .out
  tokens := 0
  log := []

/-- What a thread does next. -/
inductive MonitorMove (ω : Type*) where
  | call (op : ω)
  | next
  /-- Wake up without a notification. -/
  | spurious
  deriving DecidableEq

section Interleavings

variable [DecidableEq τ]

/-- The thread `th` is now at `place`. -/
def MonitorState.goto (s : MonitorState τ σ ω) (th : τ) (place : MonitorPlace ω) :
    MonitorState τ σ ω :=
  { s with places := Function.update s.places th place }

/-- The next access of a call. -/
def monitorNext (m : Monitor σ ω) (signal : Signal) (s : MonitorState τ σ ω) (th : τ) :
    MonitorPlace ω → Option (MonitorState τ σ ω)
  | .out => none
  | .entering op | .woken op =>
    if s.holder = none then some { s.goto th (.testing op) with holder := some th } else none
  | .testing op => some (s.goto th (if m.ready op s.object then .acting op else .parting op))
  | .parting op => some { s.goto th (.asleep op) with holder := none }
  | .asleep op =>
    if signal = .tokens ∧ 0 < s.tokens then
      some { s.goto th (.woken op) with tokens := s.tokens - 1 }
    else none
  | .acting op =>
    some { s.goto th (if m.notifies op s.object then .notifying op else .leaving op) with
      object := m.apply op s.object, log := s.log ++ [(th, op)] }
  | .notifying op =>
    match signal with
    | .broadcast =>
      some { s with
        places := Function.update (fun other => (s.places other).wake) th (.leaving op) }
    | .tokens => some { s.goto th (.leaving op) with tokens := s.tokens + 1 }
  | .leaving _ => some { s.goto th .out with holder := none }

/-- One move of one thread. -/
def monitorStep (m : Monitor σ ω) (signal : Signal) (s : MonitorState τ σ ω) :
    τ × MonitorMove ω → Option (MonitorState τ σ ω)
  | (th, .call op) =>
    match s.places th with
    | .out => some (s.goto th (.entering op))
    | _ => none
  | (th, .next) => monitorNext m signal s th (s.places th)
  | (th, .spurious) =>
    match signal, s.places th with
    | .broadcast, .asleep op => some (s.goto th (.woken op))
    | _, _ => none

/-- With tokens, only the thread `waiter` makes calls that may have to wait. -/
def CallFits (m : Monitor σ ω) (signal : Signal) (waiter : τ) : τ × MonitorMove ω → Prop
  | (th, .call op) =>
    signal = .tokens → th ≠ waiter → ∀ object, m.ready op object = true
  | _ => True

/-! ### The invariant -/

/-- What holds in every state. -/
structure MonitorInv (m : Monitor σ ω) (signal : Signal) (waiter : τ) (start : σ)
    (s : MonitorState τ σ ω) : Prop where
  /-- One thread at a time is inside. -/
  holds : ∀ th, (s.places th).Holds ↔ s.holder = some th
  /-- The operations that were applied were ready, one after the other. -/
  served : exec m.atomic start (s.log.map Prod.snd) = some s.object
  acting : ∀ th op, s.places th = .acting op → m.ready op s.object = true
  parting : ∀ th op, s.places th = .parting op → m.ready op s.object = false
  lone : signal = .tokens → ∀ th op, th ≠ waiter → (s.places th).op? = some op →
    ∀ object, m.ready op object = true
  sleeper : signal = .tokens → ∀ th op, s.places th = .asleep op → th = waiter
  /-- No wake-up is lost. -/
  awake : ∀ th op, s.places th = .asleep op → m.ready op s.object = true →
    (signal = .tokens ∧ 0 < s.tokens) ∨ ∃ other now, s.places other = .notifying now

omit [DecidableEq τ] in
theorem MonitorState.init_inv (m : Monitor σ ω) (signal : Signal) (waiter : τ) (start : σ) :
    MonitorInv m signal waiter start (MonitorState.init start) where
  holds _ := ⟨fun none => none.elim, nofun⟩
  served := rfl
  acting := nofun
  parting := nofun
  lone := nofun
  sleeper := nofun
  awake := nofun

section Steps

variable {m : Monitor σ ω} {signal : Signal} {waiter : τ} {start : σ} {s t : MonitorState τ σ ω}
  {th : τ} {place : MonitorPlace ω}

/-- The other threads stay where they are, or are woken up. -/
def OthersStay (s t : MonitorState τ σ ω) (th : τ) : Prop :=
  ∀ other, other ≠ th → t.places other = s.places other ∨
    ∃ op, s.places other = .asleep op ∧ t.places other = .woken op

theorem OthersStay.of_goto (places : t.places = Function.update s.places th place) :
    OthersStay s t th := fun other apart => .inl (by rw [places, Function.update_of_ne apart])

theorem OthersStay.of_broadcast
    (places : t.places = Function.update (fun other => (s.places other).wake) th place) :
    OthersStay s t th := by
  intro other apart
  rw [places, Function.update_of_ne apart]
  exact (s.places other).wake_cases

omit [DecidableEq τ] in
theorem OthersStay.op? (stay : OthersStay s t th) {other : τ} (apart : other ≠ th) :
    (t.places other).op? = (s.places other).op? := by
  rcases stay other apart with same | ⟨op, before, after⟩
  · rw [same]
  · rw [before, after]
    rfl

omit [DecidableEq τ] in
theorem OthersStay.pending (stay : OthersStay s t th) {other : τ} (apart : other ≠ th) :
    (t.places other).Pending ↔ (s.places other).Pending := by
  rcases stay other apart with same | ⟨op, before, after⟩
  · rw [same]
  · rw [before, after]
    exact Iff.rfl

/-- The lock after a move: the thread is inside after it, or outside. -/
inductive LockMoved (s t : MonitorState τ σ ω) (th : τ) (place : MonitorPlace ω) : Prop
  | inside (inside : place.Holds) (mine : t.holder = some th)
    (before : s.holder = none ∨ (s.places th).Holds)
  | left (outside : ¬place.Holds) (free : t.holder = none) (before : (s.places th).Holds)
  | away (outside : ¬place.Holds) (same : t.holder = s.holder) (before : ¬(s.places th).Holds)

omit [DecidableEq τ] in
/-- Only one thread has the lock. -/
theorem MonitorInv.alone (inv : MonitorInv m signal waiter start s) {other : τ}
    (mine : (s.places th).Holds) (theirs : (s.places other).Holds) : th = other :=
  Option.some.inj (((inv.holds th).mp mine).symm.trans ((inv.holds other).mp theirs))

/-- **A move of one thread.** It may wake the other ones up. -/
theorem MonitorInv.moved (inv : MonitorInv m signal waiter start s) (here : t.places th = place)
    (others : OthersStay s t th)
    (lock : LockMoved s t th place) (object : t.object = s.object ∨ (s.places th).Holds)
    (served : exec m.atomic start (t.log.map Prod.snd) = some t.object)
    (acting : ∀ op, place = .acting op → m.ready op t.object = true)
    (parting : ∀ op, place = .parting op → m.ready op t.object = false)
    (calls : ∀ op, place.op? = some op → (s.places th).op? = some op ∨
      (signal = .tokens → th ≠ waiter → ∀ object, m.ready op object = true))
    (sleeper : ∀ op, place = .asleep op → s.places th = .parting op)
    (awake : ∀ other op, t.places other = .asleep op → m.ready op t.object = true →
      (signal = .tokens ∧ 0 < t.tokens) ∨ ∃ other now, t.places other = .notifying now) :
    MonitorInv m signal waiter start t := by
  have holds : ∀ other, other ≠ th → ((t.places other).Holds ↔ (s.places other).Holds) := by
    intro other apart
    rcases others other apart with same | ⟨op, before, after⟩
    · rw [same]
    · rw [before, after]
      exact Iff.rfl
  have kept : ∀ other, other ≠ th → (s.places other).Holds → t.object = s.object := by
    intro other apart inside
    exact object.resolve_right fun mine => apart (inv.alone inside mine)
  have place' : ∀ other now, other ≠ th → t.places other = now →
      (∀ op, now ≠ .woken op) → s.places other = now := by
    intro other now apart there different
    rcases others other apart with same | ⟨op, -, after⟩
    · rw [← same]
      exact there
    · exact absurd (there.symm.trans after) (different op)
  refine ⟨fun other => ?_, served, fun other op there => ?_, fun other op there => ?_,
    fun tokens other op apart there => ?_, fun tokens other op there => ?_, awake⟩
  · by_cases same : other = th
    · subst same
      rw [here]
      cases lock with
      | inside inside mine _ => exact iff_of_true inside mine
      | left outside free _ => exact iff_of_false outside (by rw [free]; exact nofun)
      | away outside unchanged before =>
        exact iff_of_false outside fun mine =>
          before ((inv.holds other).mpr (unchanged.symm.trans mine))
    · rw [holds other same, inv.holds other]
      cases lock with
      | inside inside mine before =>
        refine iff_of_false (fun theirs => ?_) fun theirs => ?_
        · rcases before with free | inside'
          · rw [free] at theirs
            cases theirs
          · exact same (inv.alone ((inv.holds other).mpr theirs) inside')
        · exact same (Option.some.inj (mine.symm.trans theirs)).symm
      | left outside free before =>
        refine iff_of_false (fun theirs => ?_) fun theirs => ?_
        · exact same (inv.alone ((inv.holds other).mpr theirs) before)
        · rw [free] at theirs
          cases theirs
      | away outside unchanged before => rw [unchanged]
  · by_cases same : other = th
    · subst same
      exact acting op (here.symm.trans there)
    · have before := place' other _ same there nofun
      rw [kept other same (by rw [before]; trivial)]
      exact inv.acting other op before
  · by_cases same : other = th
    · subst same
      exact parting op (here.symm.trans there)
    · have before := place' other _ same there nofun
      rw [kept other same (by rw [before]; trivial)]
      exact inv.parting other op before
  · by_cases same : other = th
    · subst same
      rw [here] at there
      rcases calls op there with before | called
      · exact inv.lone tokens other op apart before
      · exact called tokens apart
    · refine inv.lone tokens other op apart ?_
      rcases others other same with unchanged | ⟨now, before, after⟩
      · rw [← unchanged]
        exact there
      · rw [after] at there
        rw [before]
        exact there
  · by_cases same : other = th
    · subst same
      have before := sleeper op (here.symm.trans there)
      by_contra apart
      have waits := inv.parting other op before
      rw [inv.lone tokens other op apart (by rw [before]; rfl)] at waits
      cases waits
    · exact inv.sleeper tokens other op (place' other _ same there nofun)

/-- A move that leaves the object, the tokens and the notifications as they are. -/
theorem MonitorInv.quiet (inv : MonitorInv m signal waiter start s)
    (places : t.places = Function.update s.places th place) (lock : LockMoved s t th place)
    (object : t.object = s.object) (log : t.log = s.log) (tokens : t.tokens = s.tokens)
    (silent : ∀ op, s.places th ≠ .notifying op)
    (acting : ∀ op, place = .acting op → m.ready op s.object = true)
    (parting : ∀ op, place = .parting op → m.ready op s.object = false)
    (calls : ∀ op, place.op? = some op → (s.places th).op? = some op ∨
      (signal = .tokens → th ≠ waiter → ∀ object, m.ready op object = true))
    (sleeper : ∀ op, place = .asleep op → s.places th = .parting op) :
    MonitorInv m signal waiter start t := by
  have others : ∀ other, other ≠ th → t.places other = s.places other := fun other apart => by
    rw [places, Function.update_of_ne apart]
  have here : t.places th = place := by rw [places, Function.update_self]
  refine inv.moved here (.of_goto places) lock (.inl object)
    (by rw [log, object]; exact inv.served) (object ▸ acting) (object ▸ parting) calls sleeper ?_
  intro other op there ready
  rw [object] at ready
  rw [tokens]
  by_cases same : other = th
  · subst same
    have before := sleeper op (here.symm.trans there)
    rw [inv.parting other op before] at ready
    cases ready
  · rw [others other same] at there
    refine (inv.awake other op there ready).imp_right fun ⟨notifier, now, notifying⟩ => ?_
    have apart : notifier ≠ th := fun same => silent now (same ▸ notifying)
    exact ⟨notifier, now, (others notifier apart).trans notifying⟩

/-- The operation is applied. -/
theorem MonitorInv.acted (announces : m.Announces) (inv : MonitorInv m signal waiter start s)
    {op : ω} (here : s.places th = .acting op) :
    MonitorInv m signal waiter start
      { s.goto th (if m.notifies op s.object then .notifying op else .leaving op) with
        object := m.apply op s.object, log := s.log ++ [(th, op)] } := by
  have inside : (s.places th).Holds := by rw [here]; trivial
  have ready := inv.acting th op here
  generalize after : (if m.notifies op s.object then MonitorPlace.notifying op else .leaving op) =
    place
  have shape : place = .notifying op ∨ place = .leaving op := after ▸ ite_eq_or_eq _ _ _
  have inside' : place.Holds := by
    rcases shape with rfl | rfl <;> trivial
  refine inv.moved (Function.update_self ..) (.of_goto rfl)
    (.inside inside' ((inv.holds th).mp inside) (.inr inside)) (.inr inside) ?_ ?_ ?_ ?_ ?_ ?_
  · show exec m.atomic start ((s.log ++ [(th, op)]).map Prod.snd) = some (m.apply op s.object)
    have one : m.atomic s.object op = some (m.apply op s.object) := if_pos ready
    rw [List.map_append, exec_append, inv.served]
    show (m.atomic s.object op).bind some = _
    rw [one]
    rfl
  · rintro now rfl
    rcases shape with same | same <;> cases same
  · rintro now rfl
    rcases shape with same | same <;> cases same
  · intro now same
    rw [here]
    rcases shape with rfl | rfl <;> exact .inl same
  · rintro now rfl
    rcases shape with same | same <;> cases same
  · intro other now there late
    change Function.update s.places th place other = .asleep now at there
    have apart : other ≠ th := by
      rintro rfl
      rw [Function.update_self] at there
      subst there
      rcases shape with same | same <;> cases same
    rw [Function.update_of_ne apart] at there
    cases early : m.ready now s.object with
    | true =>
      refine (inv.awake other now there early).imp_right fun ⟨notifier, last, notifying⟩ => ?_
      -- whoever notifies has the lock, and this thread has it
      have notifies : (s.places notifier).Holds := by rw [notifying]; trivial
      rw [inv.alone notifies inside, here] at notifying
      cases notifying
    | false =>
      have told := announces op now s.object ready early late
      refine .inr ⟨th, op, ?_⟩
      show Function.update s.places th place th = _
      rw [Function.update_self, ← after, if_pos told]

/-- The notification. -/
theorem MonitorInv.notified (inv : MonitorInv m signal waiter start s) {op : ω}
    (here : s.places th = .notifying op)
    (step : monitorNext m signal s th (.notifying op) = some t) :
    MonitorInv m signal waiter start t := by
  have inside : (s.places th).Holds := by rw [here]; trivial
  have mine : s.holder = some th := (inv.holds th).mp inside
  have calls : ∀ now, (MonitorPlace.leaving op).op? = some now → (s.places th).op? = some now ∨
      (signal = .tokens → th ≠ waiter → ∀ object, m.ready now object = true) := by
    intro now same
    rw [here]
    exact .inl same
  cases signal with
  | broadcast =>
    cases step
    have self : Function.update (fun other => (s.places other).wake) th (.leaving op) th =
        .leaving op := Function.update_self ..
    refine inv.moved self (.of_broadcast rfl) (.inside trivial mine (.inr inside)) (.inl rfl)
      inv.served nofun nofun calls nofun ?_
    intro other now there
    change Function.update (fun other => (s.places other).wake) th _ other = _ at there
    by_cases same : other = th
    · rw [same, Function.update_self] at there
      cases there
    · rw [Function.update_of_ne same] at there
      exact absurd there ((s.places other).wake_ne_asleep now)
  | tokens =>
    cases step
    have self : Function.update s.places th (.leaving op) th = .leaving op :=
      Function.update_self ..
    exact inv.moved self (.of_goto rfl)
      (.inside trivial mine (.inr inside)) (.inl rfl) inv.served nofun nofun calls nofun
      fun _ _ _ _ => .inl ⟨rfl, Nat.succ_pos _⟩

/-- **Every move keeps the invariant.** -/
theorem monitor_keeps (announces : m.Announces) (inv : MonitorInv m signal waiter start s)
    {move : τ × MonitorMove ω} (fits : CallFits m signal waiter move)
    (step : monitorStep m signal s move = some t) : MonitorInv m signal waiter start t := by
  obtain ⟨th, kind⟩ := move
  cases kind with
  | call op =>
    unfold monitorStep at step
    cases here : s.places th with
    | out =>
      simp only [here] at step
      cases step
      refine inv.quiet rfl (.away not_false rfl ?_) rfl rfl rfl ?_ nofun nofun ?_ nofun
      · rw [here]
        exact not_false
      · rw [here]
        exact nofun
      · rintro now ⟨⟩
        exact .inr fits
    | _ => simp [here] at step
  | spurious =>
    unfold monitorStep at step
    cases signal with
    | tokens => cases step
    | broadcast =>
      cases here : s.places th with
      | asleep op =>
        simp only [here] at step
        cases step
        refine inv.quiet rfl (.away not_false rfl ?_) rfl rfl rfl ?_ nofun nofun ?_ nofun
        · rw [here]
          exact not_false
        · rw [here]
          exact nofun
        · intro now same
          rw [here]
          exact .inl same
      | _ => simp [here] at step
  | next =>
    change monitorNext m signal s th (s.places th) = some t at step
    cases here : s.places th with
    | out =>
      rw [here] at step
      cases step
    | entering op | woken op =>
      rw [here] at step
      simp only [monitorNext] at step
      split_ifs at step with free
      cases step
      refine inv.quiet rfl (.inside trivial rfl (.inl free)) rfl rfl rfl ?_ nofun nofun ?_ nofun
      · rw [here]
        exact nofun
      · intro now same
        rw [here]
        exact .inl same
    | testing op =>
      rw [here] at step
      cases step
      have inside : (s.places th).Holds := by rw [here]; trivial
      have mine := (inv.holds th).mp inside
      refine inv.quiet rfl ?_ rfl rfl rfl ?_ ?_ ?_ ?_ ?_
      · split_ifs with ready
        · exact .inside trivial mine (.inr inside)
        · exact .inside trivial mine (.inr inside)
      · rw [here]
        exact nofun
      · intro now same
        split_ifs at same with ready
        cases same
        exact ready
      · intro now same
        split_ifs at same with ready
        cases same
        exact Bool.not_eq_true _ ▸ ready
      · intro now same
        rw [here]
        split_ifs at same with ready
        · exact .inl same
        · exact .inl same
      · intro now same
        split_ifs at same with ready
    | parting op =>
      rw [here] at step
      cases step
      have inside : (s.places th).Holds := by rw [here]; trivial
      refine inv.quiet rfl (.left not_false rfl inside) rfl rfl rfl ?_ nofun nofun ?_ ?_
      · rw [here]
        exact nofun
      · intro now same
        rw [here]
        exact .inl same
      · rintro now ⟨⟩
        exact here
    | asleep op =>
      rw [here] at step
      simp only [monitorNext] at step
      split_ifs at step with some
      cases step
      have outside : ¬(s.places th).Holds := by rw [here]; exact not_false
      have self : Function.update s.places th (.woken op) th = .woken op :=
        Function.update_self ..
      refine inv.moved self (.of_goto rfl) (.away not_false rfl outside) (.inl rfl) inv.served
        nofun nofun ?_ nofun
        fun other now there _ => ?_
      · intro now same
        rw [here]
        exact .inl same
      · -- the only thread that sleeps has taken the token
        change Function.update s.places th _ other = _ at there
        have apart : other ≠ th := by
          rintro rfl
          rw [Function.update_self] at there
          cases there
        rw [Function.update_of_ne apart] at there
        have first := inv.sleeper some.1 other now there
        have second := inv.sleeper some.1 th op here
        exact absurd (first.trans second.symm) apart
    | acting op =>
      rw [here] at step
      cases step
      exact inv.acted announces here
    | notifying op =>
      rw [here] at step
      exact inv.notified here step
    | leaving op =>
      rw [here] at step
      cases step
      have inside : (s.places th).Holds := by rw [here]; trivial
      refine inv.quiet rfl (.left not_false rfl inside) rfl rfl rfl ?_ nofun nofun nofun nofun
      rw [here]
      exact nofun

/-! ### What a move does -/

/-- Where a thread goes, and what it makes of the object. -/
inductive Monitor.Goes (m : Monitor σ ω) : MonitorPlace ω → σ → MonitorPlace ω → σ → Prop
  | call (op : ω) (object : σ) : Goes m .out object (.entering op) object
  | enter (op : ω) (object : σ) : Goes m (.entering op) object (.testing op) object
  | reenter (op : ω) (object : σ) : Goes m (.woken op) object (.testing op) object
  | pass (op : ω) (object : σ) (ready : m.ready op object = true) :
    Goes m (.testing op) object (.acting op) object
  | park (op : ω) (object : σ) (waits : m.ready op object = false) :
    Goes m (.testing op) object (.parting op) object
  | sleep (op : ω) (object : σ) : Goes m (.parting op) object (.asleep op) object
  | wake (op : ω) (object : σ) : Goes m (.asleep op) object (.woken op) object
  | tell (op : ω) (object : σ) (tells : m.notifies op object = true) :
    Goes m (.acting op) object (.notifying op) (m.apply op object)
  | act (op : ω) (object : σ) (silent : m.notifies op object = false) :
    Goes m (.acting op) object (.leaving op) (m.apply op object)
  | notify (op : ω) (object : σ) : Goes m (.notifying op) object (.leaving op) object
  | leave (op : ω) (object : σ) : Goes m (.leaving op) object .out object

namespace Monitor.Goes

variable {old new : MonitorPlace ω} {before after : σ}

/-- A thread in a call stays in it until it is out. -/
theorem op? (goes : m.Goes old before new after) (inside : old ≠ .out) {op : ω}
    (here : new.op? = some op) : old.op? = some op := by
  cases goes with
  | call op object => exact absurd rfl inside
  | leave op object => cases here
  | _ => exact here

/-- The object changes when the operation is applied. -/
theorem pending (goes : m.Goes old before new after) (inside : old ≠ .out) :
    (after = before ∧ (new.Pending ↔ old.Pending)) ∨
      ∃ op, old = .acting op ∧ after = m.apply op before ∧ ¬new.Pending := by
  cases goes with
  | call op object => exact absurd rfl inside
  | tell op object tells => exact .inr ⟨op, rfl, rfl, not_false⟩
  | act op object silent => exact .inr ⟨op, rfl, rfl, not_false⟩
  | _ => exact .inl ⟨rfl, Iff.rfl⟩

end Monitor.Goes

theorem goes_of_goto {old : MonitorPlace ω} (places : t.places = Function.update s.places th place)
    (goes : m.Goes old s.object place t.object) :
    m.Goes old s.object (t.places th) t.object ∧ OthersStay s t th := by
  refine ⟨?_, .of_goto places⟩
  rw [places, Function.update_self]
  exact goes

theorem monitorStep_goes {kind : MonitorMove ω}
    (step : monitorStep m signal s (th, kind) = some t) :
    m.Goes (s.places th) s.object (t.places th) t.object ∧ OthersStay s t th := by
  cases kind with
  | call op =>
    unfold monitorStep at step
    cases here : s.places th with
    | out =>
      simp only [here] at step
      cases step
      exact goes_of_goto rfl (.call op s.object)
    | _ => simp [here] at step
  | spurious =>
    unfold monitorStep at step
    cases signal with
    | tokens => cases step
    | broadcast =>
      cases here : s.places th with
      | asleep op =>
        simp only [here] at step
        cases step
        exact goes_of_goto rfl (.wake op s.object)
      | _ => simp [here] at step
  | next =>
    change monitorNext m signal s th (s.places th) = some t at step
    cases here : s.places th with
    | out =>
      rw [here] at step
      cases step
    | entering op =>
      rw [here] at step
      simp only [monitorNext] at step
      split_ifs at step
      cases step
      exact goes_of_goto rfl (.enter op s.object)
    | woken op =>
      rw [here] at step
      simp only [monitorNext] at step
      split_ifs at step
      cases step
      exact goes_of_goto rfl (.reenter op s.object)
    | testing op =>
      rw [here] at step
      cases step
      refine goes_of_goto rfl ?_
      split_ifs with ready
      · exact .pass op s.object ready
      · exact .park op s.object (Bool.not_eq_true _ ▸ ready)
    | parting op =>
      rw [here] at step
      cases step
      exact goes_of_goto rfl (.sleep op s.object)
    | asleep op =>
      rw [here] at step
      simp only [monitorNext] at step
      split_ifs at step
      cases step
      exact goes_of_goto rfl (.wake op s.object)
    | acting op =>
      rw [here] at step
      cases step
      refine goes_of_goto rfl ?_
      split_ifs with tells
      · exact .tell op s.object tells
      · exact .act op s.object (Bool.not_eq_true _ ▸ tells)
    | notifying op =>
      rw [here] at step
      cases signal with
      | broadcast =>
        cases step
        refine ⟨?_, .of_broadcast rfl⟩
        show m.Goes _ _ (Function.update (fun other => (s.places other).wake) th _ th) _
        rw [Function.update_self]
        exact .notify op s.object
      | tokens =>
        cases step
        exact goes_of_goto rfl (.notify op s.object)
    | leaving op =>
      rw [here] at step
      cases step
      exact goes_of_goto rfl (.leave op s.object)

/-! ### Progress -/

/-- A thread that has the lock can go on. -/
theorem monitorNext_of_holds (inside : (s.places th).Holds) :
    (monitorStep m signal s (th, .next)).isSome := by
  show (monitorNext m signal s th (s.places th)).isSome
  cases here : s.places th with
  | testing op | parting op | acting op | leaving op => rfl
  | notifying op => cases signal <;> rfl
  | out | entering op | asleep op | woken op =>
    rw [here] at inside
    exact inside.elim

/-- **Nobody is stuck.** A thread in a call can go on, or the one that has the lock can, or the
thread sleeps and its operation is not ready. -/
theorem monitor_moves (inv : MonitorInv m signal waiter start s) (inside : s.places th ≠ .out) :
    (monitorStep m signal s (th, .next)).isSome ∨
      (∃ holder, s.holder = some holder ∧ (monitorStep m signal s (holder, .next)).isSome) ∨
      ∃ op, s.places th = .asleep op ∧ m.ready op s.object = false := by
  have locked : s.holder = none ∨
      ∃ holder, s.holder = some holder ∧ (monitorStep m signal s (holder, .next)).isSome := by
    cases lock : s.holder with
    | none => exact .inl rfl
    | some holder => exact .inr ⟨holder, rfl, monitorNext_of_holds ((inv.holds holder).mpr lock)⟩
  cases here : s.places th with
  | out => exact absurd here inside
  | testing op | parting op | acting op | notifying op | leaving op =>
    exact .inl (monitorNext_of_holds (by rw [here]; trivial))
  | entering op | woken op =>
    refine locked.imp (fun free => ?_) .inl
    show (monitorNext m signal s th (s.places th)).isSome
    rw [here]
    simp only [monitorNext, if_pos free]
    rfl
  | asleep op =>
    cases ready : m.ready op s.object with
    | false => exact .inr (.inr ⟨op, rfl, ready⟩)
    | true =>
      rcases inv.awake th op here ready with token | ⟨other, now, notifying⟩
      · refine .inl ?_
        show (monitorNext m signal s th (s.places th)).isSome
        rw [here]
        simp only [monitorNext, if_pos token]
        rfl
      · have inside : (s.places other).Holds := by rw [notifying]; trivial
        exact .inr (.inl ⟨other, (inv.holds other).mp inside, monitorNext_of_holds inside⟩)

end Steps

end Interleavings

end Arax.Lib
