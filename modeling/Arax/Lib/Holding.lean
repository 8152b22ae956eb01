/-
**Who holds what.**

Owners are numbered from `0` to `n - 1`, and `own j` is the multiset of things that owner `j` holds.
`held n own` is what all of them hold together. Giving one owner something else changes the whole by
just that.

* `held_update` — one owner gets something else.
* `sum_change`, `sum_range_update` — the same for sums of any kind.
-/

import Mathlib.Algebra.BigOperators.Group.Finset.Basic
import Mathlib.Algebra.Order.BigOperators.Group.Finset
import Mathlib.Algebra.Order.Group.Multiset
import Mathlib.Data.Multiset.Basic

namespace Arax.Lib

/-- A sum after one of the values changed. -/
theorem sum_change {ι M : Type*} [DecidableEq ι] [AddCommMonoid M] {owners : Finset ι}
    {f g : ι → M} {i : ι} (member : i ∈ owners) (others : ∀ j, j ≠ i → g j = f j) :
    (∑ j ∈ owners, g j) + f i = (∑ j ∈ owners, f j) + g i := by
  have rest : ∑ j ∈ owners.erase i, g j = ∑ j ∈ owners.erase i, f j :=
    Finset.sum_congr rfl fun j member' => others j (Finset.ne_of_mem_erase member')
  rw [← Finset.add_sum_erase _ g member, ← Finset.add_sum_erase _ f member, rest,
    add_right_comm, add_comm (g i), add_right_comm]

/-- A sum over `0, …, n - 1` after one of the values changed. -/
theorem sum_range_update {M : Type*} [AddCommMonoid M] (f : Nat → M) {n i : Nat} (inside : i < n)
    (x : M) :
    (∑ j ∈ Finset.range n, Function.update f i x j) + f i = (∑ j ∈ Finset.range n, f j) + x := by
  have change := sum_change (f := f) (g := Function.update f i x) (Finset.mem_range.mpr inside)
    fun j other => Function.update_of_ne other x f
  rw [Function.update_self] at change
  exact change

variable {α : Type*}

/-- What the owners `0, …, n - 1` hold together. -/
def held (n : Nat) (own : Nat → Multiset α) : Multiset α := ∑ j ∈ Finset.range n, own j

theorem held_succ (n : Nat) (own : Nat → Multiset α) : held (n + 1) own = held n own + own n :=
  Finset.sum_range_succ _ _

/-- One owner gets something else. -/
theorem held_update (own : Nat → Multiset α) {n i : Nat} (inside : i < n) (x : Multiset α) :
    held n (Function.update own i x) + own i = held n own + x :=
  sum_range_update own inside x

end Arax.Lib
