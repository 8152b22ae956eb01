/-
**Loops that may fail.**

A loop over a list whose body may fail with an error. Some errors are expected, the others are not:
the rule shows that no other error occurs, and what holds at the end if none does.

* `bind_eq_ok`, `bind_ne_error` — results of two calls, one after the other.
* `toOption_eq_some` — results, when the errors are forgotten.
* `foldlM_keeps`, `foldlM_ok` — what a loop that returned has kept, and what it has settled.
* `foldlM_settles` — the body keeps an invariant, and settles something about its element that the
  later iterations keep.
-/

import Mathlib.Data.List.Basic

namespace Arax.Lib

variable {σ ε ι : Type}

theorem bind_eq_ok {α β : Type} {x : Except ε α} {f : α → Except ε β} {b : β} :
    (x >>= f) = .ok b ↔ ∃ a, x = .ok a ∧ f a = .ok b := by
  cases x with
  | error e => exact ⟨nofun, nofun⟩
  | ok a => exact ⟨fun run => ⟨a, rfl, run⟩, fun ⟨_, same, run⟩ => Except.ok.inj same ▸ run⟩

theorem toOption_eq_some {α : Type} {x : Except ε α} {a : α} :
    x.toOption = some a ↔ x = .ok a := by
  cases x with
  | error e => exact ⟨nofun, nofun⟩
  | ok b => exact ⟨fun same => congrArg Except.ok (Option.some.inj same), fun same =>
      congrArg some (Except.ok.inj same)⟩

theorem bind_ne_error {α β : Type} {x : Except ε α} {f : α → Except ε β} {e : ε}
    (first : x ≠ .error e) (second : ∀ a, x = .ok a → f a ≠ .error e) :
    (x >>= f) ≠ .error e := by
  cases x with
  | error e' => exact fun same => first (congrArg Except.error (Except.error.inj same))
  | ok a => exact second a rfl

theorem foldlM_keeps {body : σ → ι → Except ε σ} {inv : σ → Prop} (io : List ι)
    (each : ∀ s i t, i ∈ io → inv s → body s i = .ok t → inv t) {s u : σ} (start : inv s)
    (run : io.foldlM body s = .ok u) : inv u := by
  induction io generalizing s with
  | nil =>
    cases run
    exact start
  | cons i io ih =>
    rw [List.foldlM_cons] at run
    obtain ⟨t, first, rest⟩ := bind_eq_ok.mp run
    exact ih (fun s j t member => each s j t (List.mem_cons_of_mem _ member))
      (each s i t List.mem_cons_self start first) rest

theorem foldlM_ok {body : σ → ι → Except ε σ} {inv : σ → Prop} {settled : ι → σ → Prop}
    (io : List ι)
    (each : ∀ s i t, i ∈ io → inv s → body s i = .ok t →
      inv t ∧ settled i t ∧ ∀ j, settled j s → settled j t)
    {s u : σ} (start : inv s) (run : io.foldlM body s = .ok u) :
    inv u ∧ ∀ i ∈ io, settled i u := by
  induction io generalizing s with
  | nil =>
    cases run
    exact ⟨start, nofun⟩
  | cons i io ih =>
    rw [List.foldlM_cons] at run
    obtain ⟨t, first, rest⟩ := bind_eq_ok.mp run
    obtain ⟨inv', here, -⟩ := each s i t List.mem_cons_self start first
    have later : ∀ s j u, j ∈ io → inv s → body s j = .ok u →
        inv u ∧ settled j u ∧ ∀ k, settled k s → settled k u :=
      fun s j u member => each s j u (List.mem_cons_of_mem _ member)
    obtain ⟨inv'', all⟩ := ih later inv' rest
    have kept : settled i u := foldlM_keeps io
      (fun s j u member before step => (later s j u member before.1 step).imp_right fun both =>
        both.2 i before.2) ⟨inv', here⟩ rest |>.2
    refine ⟨inv'', fun j member => ?_⟩
    rcases List.mem_cons.mp member with rfl | member
    · exact kept
    · exact all j member

theorem foldlM_settles {expected : ε} {body : σ → ι → Except ε σ} {inv : σ → Prop}
    {settled : ι → σ → Prop} (io : List ι)
    (each : ∀ s i, i ∈ io → inv s → body s i = .error expected ∨
      ∃ t, body s i = .ok t ∧ inv t ∧ settled i t ∧ ∀ j, settled j s → settled j t)
    (s : σ) (start : inv s) :
    io.foldlM body s = .error expected ∨
      ∃ t, io.foldlM body s = .ok t ∧ inv t ∧ (∀ i ∈ io, settled i t) ∧
        ∀ j, settled j s → settled j t := by
  induction io generalizing s with
  | nil => exact .inr ⟨s, rfl, start, nofun, fun _ kept => kept⟩
  | cons i io ih =>
    have later : ∀ s j, j ∈ io → inv s → body s j = .error expected ∨
        ∃ t, body s j = .ok t ∧ inv t ∧ settled j t ∧ ∀ k, settled k s → settled k t :=
      fun s j member => each s j (List.mem_cons_of_mem _ member)
    rw [List.foldlM_cons]
    obtain fails | ⟨t, first, inv', here, keeps⟩ := each s i List.mem_cons_self start
    · left
      rw [fails]
      rfl
    · rw [first]
      obtain fails | ⟨u, rest, inv'', all, keeps'⟩ := ih later t inv'
      · exact .inl fails
      · refine .inr ⟨u, rest, inv'', fun j member => ?_, fun j kept => keeps' j (keeps j kept)⟩
        rcases List.mem_cons.mp member with rfl | member
        · exact keeps' j here
        · exact all j member

end Arax.Lib
