/-
**Memory that is allocated and freed.**

A heap gives each allocation a number that was not used before. What an allocation holds is one
value, so a copy to it or from it is a copy of all of it.

* `Heap` — the cells, and that everything from `next` on is free.
* `alloc`, `free`, `write` — with what they do to each cell.
* `alloc_write` — an allocation that is written at once.
-/

import Mathlib.Logic.Function.Basic

namespace Arax.Lib

/-- Allocated cells, and the number of the next one. -/
@[ext]
structure Heap (α : Type*) where
  cell : Nat → Option α
  next : Nat
  fresh : ∀ ptr, next ≤ ptr → cell ptr = none

namespace Heap

variable {α : Type*}

/-- Nothing is allocated. -/
def empty : Heap α where
  cell := fun _ => none
  next := 0
  fresh := fun _ _ => rfl

/-- The new allocation is `h.next`. -/
def alloc (h : Heap α) (x : α) : Heap α where
  cell := Function.update h.cell h.next (some x)
  next := h.next + 1
  fresh := by
    intro ptr above
    rw [Function.update_of_ne (Nat.ne_of_gt above)]
    exact h.fresh ptr (Nat.le_of_succ_le above)

def free (h : Heap α) (ptr : Nat) : Heap α where
  cell := Function.update h.cell ptr none
  next := h.next
  fresh := by
    intro other above
    by_cases same : other = ptr
    · rw [same, Function.update_self]
    · rw [Function.update_of_ne same]
      exact h.fresh other above

/-- A write to memory that is not allocated does nothing. -/
def write (h : Heap α) (ptr : Nat) (x : α) : Heap α where
  cell := Function.update h.cell ptr ((h.cell ptr).map fun _ => x)
  next := h.next
  fresh := by
    intro other above
    by_cases same : other = ptr
    · rw [← same, Function.update_self, h.fresh other above]
      rfl
    · rw [Function.update_of_ne same]
      exact h.fresh other above

variable {h : Heap α} {ptr other : Nat} {x y : α}

theorem lt_next (allocated : h.cell ptr = some x) : ptr < h.next := by
  by_contra above
  rw [h.fresh ptr (Nat.le_of_not_lt above)] at allocated
  cases allocated

theorem ne_next (allocated : h.cell ptr = some x) : ptr ≠ h.next :=
  Nat.ne_of_lt (lt_next allocated)

@[simp] theorem alloc_self : (h.alloc x).cell h.next = some x := Function.update_self _ _ _

theorem alloc_of_some (allocated : h.cell ptr = some y) : (h.alloc x).cell ptr = some y :=
  (Function.update_of_ne (ne_next allocated) _ _).trans allocated

theorem free_of_ne (away : other ≠ ptr) : (h.free ptr).cell other = h.cell other :=
  Function.update_of_ne away _ _

/-- Memory that is written as soon as it is allocated. -/
theorem alloc_write : (h.alloc x).write h.next y = h.alloc y := by
  ext1
  · funext ptr
    show Function.update (h.alloc x).cell h.next _ ptr = Function.update h.cell h.next _ ptr
    rw [alloc_self]
    by_cases same : ptr = h.next
    · rw [same, Function.update_self, Function.update_self]
      rfl
    · rw [Function.update_of_ne same, Function.update_of_ne same]
      exact Function.update_of_ne same _ _
  · rfl

end Heap

end Arax.Lib
