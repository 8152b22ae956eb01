/-
**Runs of a partial step function.**

A system is a partial function `step : σ → α → Option σ`: the second argument says which thread
moves and what it does, and `none` means that the move is not enabled (a lock is held, a queue is
full, an assertion aborts). Interleavings are then lists of moves, and every statement about "all
interleavings" is a statement about all lists.

* `exec step s acts` — the state after the moves `acts`, if each of them was enabled.
* `Guarded step guard s acts` — every move of the run satisfies `guard` in the state it starts in.
* `Along step good s acts` — every state the run passes through satisfies `good`.
* `exec_invariant`, `exec_guarded` — the induction rule for invariants: one step keeps the
  invariant (under the guard), so a run keeps it.
* `Guarded.imp` — a guard that implies another one, for instance one that can be evaluated.
* `along_congr`, `guarded_congr` — properties and guards that agree under the invariant.
* `along_iff_guarded` — where the guard is exact, so that a run is good if and only if it is
  guarded.
* `exec_rest` — the same for loops over a list, where the invariant knows what is left of it.
* `exec_measure` — how many moves of a kind a run has, if each of them lowers a measure.
-/

import Mathlib.Data.List.Basic

namespace Arax.Lib

variable {σ α : Type*}

/-- The state after a list of moves, `none` as soon as one of them is not enabled. -/
def exec (step : σ → α → Option σ) : σ → List α → Option σ
  | s, [] => some s
  | s, act :: rest => (step s act).bind fun t => exec step t rest

/-- Every move of the run satisfies `guard` in the state in which it is made. -/
def Guarded (step : σ → α → Option σ) (guard : σ → α → Prop) : σ → List α → Prop
  | _, [] => True
  | s, act :: rest => guard s act ∧ ∀ t, step s act = some t → Guarded step guard t rest

/-- Every state the run passes through satisfies `good`, the first and the last one included. -/
def Along (step : σ → α → Option σ) (good : σ → Prop) : σ → List α → Prop
  | s, [] => good s
  | s, act :: rest => good s ∧ ∀ t, step s act = some t → Along step good t rest

/-- The guard of a run is checked by running it. -/
instance decidableGuarded (step : σ → α → Option σ) (guard : σ → α → Prop)
    [∀ s act, Decidable (guard s act)] : ∀ s acts, Decidable (Guarded step guard s acts)
  | _, [] => isTrue trivial
  | s, act :: rest =>
    match move : step s act with
    | none => decidable_of_iff (guard s act)
        ⟨fun here => ⟨here, fun _ impossible => by rw [move] at impossible; cases impossible⟩,
          And.left⟩
    | some t =>
      have : Decidable (Guarded step guard t rest) := decidableGuarded step guard t rest
      decidable_of_iff (guard s act ∧ Guarded step guard t rest)
        ⟨fun both => ⟨both.1, fun u same => Option.some.inj (move.symm.trans same) ▸ both.2⟩,
          fun both => ⟨both.1, both.2 t move⟩⟩

variable {step : σ → α → Option σ}

/-- The first move of a run. -/
theorem exec_cons {s u : σ} {act : α} {rest : List α} (run : exec step s (act :: rest) = some u) :
    ∃ t, step s act = some t ∧ exec step t rest = some u :=
  Option.bind_eq_some_iff.mp run

theorem Along.head {good : σ → Prop} {s : σ} {acts : List α} (along : Along step good s acts) :
    good s := by
  cases acts with
  | nil => exact along
  | cons act rest => exact along.1

theorem Along.last {good : σ → Prop} {s u : σ} {acts : List α} (along : Along step good s acts)
    (run : exec step s acts = some u) : good u := by
  induction acts generalizing s with
  | nil =>
    cases run
    exact along
  | cons act rest ih =>
    obtain ⟨t, move, later⟩ := exec_cons run
    exact ih (along.2 t move) later

/-- Two runs, one after the other. -/
theorem exec_append (s : σ) (first second : List α) :
    exec step s (first ++ second) = (exec step s first).bind fun t => exec step t second := by
  induction first generalizing s with
  | nil => rfl
  | cons act rest ih =>
    show (step s act).bind (fun t => exec step t (rest ++ second)) = _
    rw [funext ih]
    exact (Option.bind_assoc _ _ _).symm

/-- **Invariants along guarded runs.** What every guarded step keeps, a guarded run keeps. -/
theorem exec_guarded {guard : σ → α → Prop} {inv : σ → Prop}
    (keeps : ∀ s act t, inv s → guard s act → step s act = some t → inv t)
    {acts : List α} {s u : σ} (start : inv s) (guarded : Guarded step guard s acts)
    (run : exec step s acts = some u) : inv u := by
  induction acts generalizing s with
  | nil =>
    cases run
    exact start
  | cons act rest ih =>
    obtain ⟨t, move, later⟩ := exec_cons run
    exact ih (keeps s act t start guarded.1 move) (guarded.2 t move) later

/-- A guard may be replaced by one that it implies, given what the guarded steps keep. -/
theorem Guarded.imp {guard guard' : σ → α → Prop} (inv : σ → Prop)
    (weaker : ∀ s act, inv s → guard s act → guard' s act)
    (keeps : ∀ s act t, inv s → guard s act → step s act = some t → inv t)
    {acts : List α} {s : σ} (start : inv s) (guarded : Guarded step guard s acts) :
    Guarded step guard' s acts := by
  induction acts generalizing s with
  | nil => trivial
  | cons act rest ih =>
    obtain ⟨here, later⟩ := guarded
    exact ⟨weaker s act start here, fun t move => ih (keeps s act t start here move) (later t move)⟩

/-- **Invariants along runs.** What every step keeps, a run keeps. -/
theorem exec_invariant {inv : σ → Prop}
    (keeps : ∀ s act t, inv s → step s act = some t → inv t)
    {acts : List α} {s u : σ} (start : inv s) (run : exec step s acts = some u) : inv u := by
  induction acts generalizing s with
  | nil =>
    cases run
    exact start
  | cons act rest ih =>
    obtain ⟨t, move, later⟩ := exec_cons run
    exact ih (keeps s act t start move) later

/-- **Exact conditions.** If from every good state exactly the guarded steps lead to a good state,
then exactly the guarded runs stay in good states. What is known of all states may be used. -/
theorem along_iff_guarded {guard : σ → α → Prop} {good : σ → Prop} (inv : σ → Prop)
    (exact : ∀ s act t, inv s → good s → step s act = some t → inv t ∧ (good t ↔ guard s act))
    {acts : List α} {s u : σ} (known : inv s) (start : good s)
    (run : exec step s acts = some u) :
    Along step good s acts ↔ Guarded step guard s acts := by
  induction acts generalizing s with
  | nil => exact ⟨fun _ => trivial, fun _ => start⟩
  | cons act rest ih =>
    obtain ⟨t, move, later⟩ := exec_cons run
    obtain ⟨known', exact'⟩ := exact s act t known start move
    constructor
    · rintro ⟨-, along⟩
      have good' := (along t move).head
      refine ⟨exact'.mp good', fun t' move' => ?_⟩
      cases Option.some.inj (move.symm.trans move')
      exact (ih known' good' later).mp (along t move)
    · rintro ⟨here, after⟩
      refine ⟨start, fun t' move' => ?_⟩
      cases Option.some.inj (move.symm.trans move')
      exact (ih known' (exact'.mpr here) later).mpr (after t move)

/-- Two properties that agree in all states with the invariant, hold along the same runs. -/
theorem along_congr {good good' : σ → Prop} (inv : σ → Prop)
    (keeps : ∀ s act t, inv s → step s act = some t → inv t)
    (same : ∀ s, inv s → (good s ↔ good' s)) {acts : List α} {s : σ} (start : inv s) :
    Along step good s acts ↔ Along step good' s acts := by
  induction acts generalizing s with
  | nil => exact same s start
  | cons act rest ih =>
    refine and_congr (same s start) (forall_congr' fun t => forall_congr' fun move => ?_)
    exact ih (keeps s act t start move)

/-- Two guards that agree on the moves of a run, where the invariant holds, guard the same runs. -/
theorem guarded_congr {guard guard' : σ → α → Prop} (inv : σ → Prop)
    (keeps : ∀ s act t, inv s → step s act = some t → inv t)
    (same : ∀ s act t, inv s → step s act = some t → (guard s act ↔ guard' s act))
    {acts : List α} {s u : σ} (start : inv s) (run : exec step s acts = some u) :
    Guarded step guard s acts ↔ Guarded step guard' s acts := by
  induction acts generalizing s with
  | nil => exact Iff.rfl
  | cons act rest ih =>
    obtain ⟨t, move, later⟩ := exec_cons run
    refine and_congr (same s act t start move)
      (forall_congr' fun t' => forall_congr' fun move' => ?_)
    cases Option.some.inj (move.symm.trans move')
    exact ih (keeps s act t start move) later

/-- A loop over a list is a run whose moves are the elements. -/
theorem foldlM_eq_exec (s : σ) (acts : List α) : acts.foldlM step s = exec step s acts := by
  induction acts generalizing s with
  | nil => rfl
  | cons act rest ih =>
    rw [List.foldlM_cons]
    exact congrArg (Option.bind (step s act)) (funext ih)

/-- **Invariants of loops.** The invariant may speak of the moves that are still to be made. -/
theorem exec_rest (inv : List α → σ → Prop)
    (keeps : ∀ act rest s t, inv (act :: rest) s → step s act = some t → inv rest t)
    {acts : List α} {s u : σ} (start : inv acts s) (run : exec step s acts = some u) :
    inv [] u := by
  induction acts generalizing s with
  | nil =>
    cases run
    exact start
  | cons act rest ih =>
    obtain ⟨t, move, later⟩ := exec_cons run
    exact ih (keeps act rest s t start move) later

/-- **Measures along runs.** Every move that counts lowers the measure, and every move that delays
raises it by at most `retries`. -/
theorem exec_measure {guard : σ → α → Prop} {inv : σ → Prop} {measure : σ → Nat}
    {counts delays : α → Bool} {retries : Nat}
    (keeps : ∀ s act t, inv s → guard s act → step s act = some t → inv t ∧
      measure t + (counts act).toNat ≤ measure s + retries * (delays act).toNat)
    {acts : List α} {s u : σ} (start : inv s) (guarded : Guarded step guard s acts)
    (run : exec step s acts = some u) :
    measure u + acts.countP counts ≤ measure s + retries * acts.countP delays := by
  induction acts generalizing s with
  | nil =>
    cases run
    exact Nat.le_refl _
  | cons act rest ih =>
    obtain ⟨t, move, later⟩ := exec_cons run
    obtain ⟨kept, first⟩ := keeps s act t start guarded.1 move
    have more := ih kept (guarded.2 t move) later
    have split : ∀ p : α → Bool, (act :: rest).countP p = (p act).toNat + rest.countP p := by
      intro p
      rw [List.countP_cons, Nat.add_comm]
      cases p act <;> rfl
    rw [split counts, split delays, Nat.mul_add]
    omega

end Arax.Lib
