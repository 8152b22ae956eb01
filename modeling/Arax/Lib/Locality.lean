/-
**Operations on a few cells.**

An operation on a memory `ι → β` is local to some cells if it changes no others and does not look at
others. Operations that are local to disjoint cells commute, so in a list of operations one can be
moved to the front if those before it use other cells.

* `Local.comm` — operations on disjoint cells commute.
* `foldl_front` — an operation that commutes with those before it may go first.
* `foldl_frame` — a cell that no operation uses keeps its contents.
-/

import Mathlib.Data.List.Basic

namespace Arax.Lib

variable {ι β α : Type*}

/-- `f` changes only `cells`, and what it writes there depends only on them. -/
structure Local (cells : List ι) (f : (ι → β) → ι → β) : Prop where
  frame : ∀ memory i, i ∉ cells → f memory i = memory i
  reads : ∀ memory other, (∀ i ∈ cells, memory i = other i) → ∀ i ∈ cells, f memory i = f other i

/-- **Operations on disjoint cells commute.** -/
theorem Local.comm {cells cells' : List ι} {f g : (ι → β) → ι → β} (first : Local cells f)
    (second : Local cells' g) (disjoint : ∀ i ∈ cells, i ∉ cells') (memory : ι → β) :
    f (g memory) = g (f memory) := by
  funext i
  by_cases mine : i ∈ cells
  · rw [second.frame _ i (disjoint i mine)]
    exact first.reads _ _ (fun j inside => second.frame memory j (disjoint j inside)) i mine
  · rw [first.frame _ i mine]
    by_cases yours : i ∈ cells'
    · refine second.reads _ _ (fun j inside => ?_) i yours
      exact (first.frame memory j fun also => disjoint j also inside).symm
    · rw [second.frame _ i yours, second.frame _ i yours, first.frame memory i mine]

variable {run : (ι → β) → α → ι → β}

/-- **An operation that commutes with those before it may go first.** -/
theorem foldl_front {op : α} {before after : List α}
    (commutes : ∀ other ∈ before, ∀ memory, run (run memory other) op = run (run memory op) other)
    (memory : ι → β) :
    (before ++ op :: after).foldl run memory = (op :: (before ++ after)).foldl run memory := by
  induction before generalizing memory with
  | nil => rfl
  | cons other rest ih =>
    have later := ih (fun o member => commutes o (List.mem_cons_of_mem other member))
      (run memory other)
    rw [List.cons_append, List.foldl_cons, later, List.foldl_cons, List.foldl_cons,
      List.cons_append, List.foldl_cons, commutes other List.mem_cons_self]

/-- A cell that no operation uses keeps its contents. -/
theorem foldl_frame {ops : List α} {i : ι}
    (frame : ∀ op ∈ ops, ∀ memory, run memory op i = memory i) (memory : ι → β) :
    ops.foldl run memory i = memory i := by
  induction ops generalizing memory with
  | nil => rfl
  | cons op rest ih =>
    rw [List.foldl_cons, ih fun o member => frame o (List.mem_cons_of_mem op member)]
    exact frame op List.mem_cons_self memory

end Arax.Lib
