/-
**Memory with a budget.**

Somebody allocates blocks on a heap, and pays their sizes from a budget that he gets back when they
are freed. The blocks are a multiset, so that none can be counted twice.

* `Budget` — what is available and what is allocated are the total, and the blocks are allocated at
  places of their own.
* `Budget.alloc`, `Budget.free` — a new block is paid, and a block that is freed is paid back.
* `Budget.spend` — what is paid for nothing is missing from the total.
-/

import Mathlib.Algebra.Order.Group.Multiset
import Mathlib.Algebra.Order.Ring.Nat
import Mathlib.Algebra.BigOperators.Group.Multiset.Basic
import Arax.Lib.Heap
import Arax.Lib.Holding

namespace Arax.Lib

variable {α : Type*}

/-- A block: where it is, and its size. -/
abbrev Block : Type := Nat × Nat

/-- The sizes of some blocks together. -/
def blockBytes (blocks : Multiset Block) : Nat := (blocks.map Prod.snd).sum

@[simp] theorem blockBytes_add (blocks more : Multiset Block) :
    blockBytes (blocks + more) = blockBytes blocks + blockBytes more := by
  unfold blockBytes
  rw [Multiset.map_add, Multiset.sum_add]

@[simp] theorem blockBytes_singleton (block : Block) : blockBytes {block} = block.2 :=
  Multiset.sum_singleton _

/-- The sizes of what several owners hold. -/
theorem blockBytes_held (n : Nat) (own : Nat → Multiset Block) :
    blockBytes (held n own) = ∑ d ∈ Finset.range n, blockBytes (own d) := by
  induction n with
  | zero => rfl
  | succ n ih => rw [held_succ, blockBytes_add, ih, Finset.sum_range_succ]

/-- The blocks of `h` that were paid from a budget of `total`. -/
structure Budget (total available : Nat) (blocks : Multiset Block) (h : Heap α) : Prop where
  ledger : available + blockBytes blocks = total
  distinct : (blocks.map Prod.fst).Nodup
  allocated : ∀ block ∈ blocks, (h.cell block.1).isSome

namespace Budget

variable {total available size ptr : Nat} {blocks : Multiset Block} {h : Heap α}

theorem empty (h : Heap α) : Budget total total 0 h :=
  ⟨rfl, Multiset.nodup_zero, fun _ member => absurd member (Multiset.notMem_zero _)⟩

/-- What is allocated, is allocated before the next place. -/
theorem lt_next {block : Block} (budget : Budget total available blocks h)
    (member : block ∈ blocks) : block.1 < h.next := by
  obtain ⟨x, cell⟩ := Option.isSome_iff_exists.mp (budget.allocated block member)
  exact Heap.lt_next cell

/-- **A new block is paid.** -/
theorem alloc (budget : Budget total available blocks h) (x : α) (enough : size ≤ available) :
    Budget total (available - size) (blocks + {(h.next, size)}) (h.alloc x) := by
  refine ⟨?_, ?_, fun block member => ?_⟩
  · have ledger := budget.ledger
    rw [blockBytes_add, blockBytes_singleton]
    show available - size + (blockBytes blocks + size) = total
    omega
  · rw [Multiset.map_add, Multiset.map_singleton, add_comm, Multiset.singleton_add,
      Multiset.nodup_cons]
    refine ⟨fun member => ?_, budget.distinct⟩
    obtain ⟨block, member, same⟩ := Multiset.mem_map.mp member
    exact Nat.ne_of_lt (budget.lt_next member) same
  · rcases Multiset.mem_add.mp member with old | new
    · obtain ⟨y, cell⟩ := Option.isSome_iff_exists.mp (budget.allocated block old)
      rw [Heap.alloc_of_some cell]
      rfl
    · rw [Multiset.mem_singleton.mp new, Heap.alloc_self]
      rfl

/-- **Something is paid for nothing.** -/
theorem spend (budget : Budget total available blocks h) (enough : size ≤ available) :
    Budget (total - size) (available - size) blocks h := by
  have ledger := budget.ledger
  exact ⟨by omega, budget.distinct, budget.allocated⟩

/-- A block can be freed, and what it gives back is not more than the total. -/
theorem mayFree (budget : Budget total available (blocks + {(ptr, size)}) h) :
    (h.cell ptr).isSome ∧ available + size ≤ total := by
  have ledger := budget.ledger
  rw [blockBytes_add, blockBytes_singleton] at ledger
  refine ⟨budget.allocated (ptr, size) (by simp), ?_⟩
  change available + (blockBytes blocks + size) = total at ledger
  omega

/-- **A block that is freed is paid back.** -/
theorem free (budget : Budget total available (blocks + {(ptr, size)}) h) :
    Budget total (available + size) blocks (h.free ptr) := by
  have ledger := budget.ledger
  have distinct := budget.distinct
  rw [blockBytes_add, blockBytes_singleton] at ledger
  rw [Multiset.map_add, Multiset.map_singleton, add_comm, Multiset.singleton_add,
    Multiset.nodup_cons] at distinct
  refine ⟨?_, distinct.2, fun block member => ?_⟩
  · change available + (blockBytes blocks + size) = total at ledger
    omega
  · have away : block.1 ≠ ptr := fun same =>
      distinct.1 (Multiset.mem_map.mpr ⟨block, member, same⟩)
    rw [Heap.free_of_ne away]
    exact budget.allocated block (Multiset.mem_add.mpr (.inl member))

end Budget

end Arax.Lib
