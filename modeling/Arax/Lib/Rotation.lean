/-
**Round robin.**

`n` positions in a circle. Again and again somebody looks at them in order, from a start position
on, picks the first one that is ready, and starts behind it the next time (`RoundRobin`).

* `bounded_waiting` — a position that is ready `n` times in a row is picked.
-/

import Mathlib.Tactic.SplitIfs

namespace Arax.Lib

/-- The position `d` places behind `start`, for `d` less than `n`. -/
def advance (n start d : Nat) : Nat := if start + d < n then start + d else start + d - n

/-- How many places `target` is behind `start`. -/
def distance (n start target : Nat) : Nat :=
  if start ≤ target then target - start else target + n - start

variable {n start target d : Nat}

theorem advance_lt (inside : start < n) (few : d ≤ n) : advance n start d < n := by
  unfold advance
  split_ifs <;> omega

theorem distance_lt (inside : start < n) (there : target < n) : distance n start target < n := by
  unfold distance
  split_ifs <;> omega

theorem advance_distance (inside : start < n) (there : target < n) :
    advance n start (distance n start target) = target := by
  unfold advance distance
  split_ifs <;> omega

theorem distance_advance (inside : start < n) (few : d < n) :
    distance n start (advance n start d) = d := by
  unfold advance distance
  split_ifs <;> omega

/-- Starting behind a nearer position brings every other one nearer. -/
theorem distance_next {picked : Nat} (inside : start < n) (there : target < n) (here : picked < n)
    (nearer : distance n start picked ≤ distance n start target) (other : picked ≠ target) :
    distance n (advance n picked 1) target < distance n start target := by
  unfold advance distance at *
  split_ifs at nearer ⊢ <;> omega

/-- **Round robin.** At the time `i`, `ready i` are the positions that can be picked, `start i` is
where the search starts, and `picked i` is what it picks. -/
structure RoundRobin (n : Nat) (ready : Nat → Nat → Prop) (start : Nat → Nat)
    (picked : Nat → Option Nat) : Prop where
  start_lt : ∀ i, start i < n
  nothing : ∀ i, picked i = none → ∀ p, p < n → ¬ready i p
  nearest : ∀ i p, picked i = some p →
    p < n ∧ ∀ q, q < n → ready i q → distance n (start i) p ≤ distance n (start i) q
  next : ∀ i p, picked i = some p → start (i + 1) = advance n p 1

/-- A position at some distance is picked before the search has passed it. -/
theorem RoundRobin.picked_within {ready : Nat → Nat → Prop} {start : Nat → Nat}
    {picked : Nat → Option Nat} (rr : RoundRobin n ready start picked) {p : Nat} (inside : p < n)
    (d : Nat) : ∀ i, distance n (start i) p ≤ d → (∀ j, i ≤ j → j ≤ i + d → ready j p) →
      ∃ j, i ≤ j ∧ j ≤ i + d ∧ picked j = some p := by
  induction d with
  | zero =>
    intro i near waits
    have here := waits i (Nat.le_refl _) (Nat.le_refl _)
    cases pick : picked i with
    | none => exact absurd here (rr.nothing i pick p inside)
    | some q =>
      obtain ⟨low, first⟩ := rr.nearest i q pick
      by_cases same : q = p
      · exact ⟨i, Nat.le_refl _, Nat.le_refl _, same ▸ pick⟩
      · have closer := distance_next (rr.start_lt i) inside low (first p inside here) same
        omega
  | succ d ih =>
    intro i near waits
    have here := waits i (Nat.le_refl _) (Nat.le_add_right _ _)
    cases pick : picked i with
    | none => exact absurd here (rr.nothing i pick p inside)
    | some q =>
      obtain ⟨low, first⟩ := rr.nearest i q pick
      by_cases same : q = p
      · exact ⟨i, Nat.le_refl _, Nat.le_add_right _ _, same ▸ pick⟩
      · have closer := distance_next (rr.start_lt i) inside low (first p inside here) same
        rw [← rr.next i q pick] at closer
        obtain ⟨j, low, high, hit⟩ := ih (i + 1) (by omega)
          fun j low high => waits j (by omega) (by omega)
        exact ⟨j, by omega, by omega, hit⟩

/-- **Bounded waiting.** A position that is ready `n` times in a row is picked one of these
times. -/
theorem RoundRobin.bounded_waiting {ready : Nat → Nat → Prop} {start : Nat → Nat}
    {picked : Nat → Option Nat} (rr : RoundRobin n ready start picked) {p i : Nat} (inside : p < n)
    (waits : ∀ j, i ≤ j → j < i + n → ready j p) :
    ∃ j, i ≤ j ∧ j < i + n ∧ picked j = some p := by
  have near := distance_lt (rr.start_lt i) inside
  obtain ⟨j, low, high, hit⟩ := rr.picked_within inside (n - 1) i (by omega)
    fun j low high => waits j low (by omega)
  exact ⟨j, low, by omega, hit⟩

end Arax.Lib
