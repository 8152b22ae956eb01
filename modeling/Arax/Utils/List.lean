/-
**Intrusive lists (`src/utils/list.c`).**

A `utils_list_s` is a head node and a length, and its nodes lie inside the objects that are
listed. The links of all nodes, and the lengths of all lists by their head, are one state here,
since one node can be in different lists at different times.

* `utilsListAdd`, `utilsListDel`, `utilsListPopHead`, `utilsListPopTail`, `utilsListNodeLinked`,
  `utilsListToArray`.
* `nodeAdd_inserted`, `del_removed` — the writes of an insertion and of a removal, as the rules for
  rings want them.
* `toArray_eq` — walking a ring finds its nodes in order.
-/

import Mathlib.Logic.Function.Basic
import Arax.Lib.Circular

namespace Arax.Utils

open Arax.Lib

variable {ν : Type*} [DecidableEq ν]

/-- The nodes and the lists. A list is named by its head. -/
structure NodeLists (ν : Type*) where
  links : Links ν
  length : ν → Int

/-- `utils_list_node_init`. -/
def utilsListNodeInit (l : Links ν) (node : ν) : Links ν :=
  { next := Function.update l.next node node
    prev := Function.update l.prev node node }

/-- `utils_list_init`. -/
def utilsListInit (s : NodeLists ν) (list : ν) : NodeLists ν :=
  { links := utilsListNodeInit s.links list
    length := Function.update s.length list 0 }

/-- `utils_list_node_add`. -/
def utilsListNodeAdd (l : Links ν) (head node : ν) : Links ν :=
  let l := { l with prev := Function.update l.prev (l.next head) node }
  let l := { l with next := Function.update l.next node (l.next head) }
  let l := { l with prev := Function.update l.prev node head }
  { l with next := Function.update l.next head node }

/-- `utils_list_add`. -/
def utilsListAdd (s : NodeLists ν) (list node : ν) : NodeLists ν :=
  { links := utilsListNodeAdd s.links list node
    length := Function.update s.length list (s.length list + 1) }

/-- The writes of `utils_list_del` to nodes. -/
def utilsListUnlink (l : Links ν) (node : ν) : Links ν :=
  let l := { l with prev := Function.update l.prev (l.next node) (l.prev node) }
  let l := { l with next := Function.update l.next (l.prev node) (l.next node) }
  let l := { l with next := Function.update l.next node node }
  { l with prev := Function.update l.prev node node }

/-- `utils_list_del`. -/
def utilsListDel (s : NodeLists ν) (list node : ν) : NodeLists ν :=
  { links := utilsListUnlink s.links node
    length := Function.update s.length list (s.length list - 1) }

/-- `utils_list_pop_head`. -/
def utilsListPopHead (s : NodeLists ν) (list : ν) : Option ν × NodeLists ν :=
  if s.length list = 0 then (none, s)
  else
    let head := s.links.next list
    (some head, utilsListDel s list head)

/-- `utils_list_pop_tail`. -/
def utilsListPopTail (s : NodeLists ν) (list : ν) : Option ν × NodeLists ν :=
  if s.length list = 0 then (none, s)
  else
    let tail := s.links.prev list
    (some tail, utilsListDel s list tail)

/-- `utils_list_node_linked`. -/
def utilsListNodeLinked (l : Links ν) (node : ν) : Bool :=
  l.next node != node

/-- The loop of `utils_list_to_array`, for at most `fuel` nodes. -/
def utilsListWalk (l : Links ν) (list : ν) : Nat → ν → Option (List ν)
  | fuel, itr =>
    if itr = list then some []
    else match fuel with
      | 0 => none
      | fuel + 1 => (utilsListWalk l list fuel (l.next itr)).map (itr :: ·)

/-- `utils_list_to_array`: the nodes in the order of the list, `none` if `fuel` is too small. -/
def utilsListToArray (s : NodeLists ν) (list : ν) (fuel : Nat) : Option (List ν) :=
  if s.length list ≠ 0 then utilsListWalk s.links list fuel (s.links.next list) else some []

/-- A new list is a ring of its head alone. -/
theorem utilsListInit_alone (s : NodeLists ν) (list : ν) :
    Circular (utilsListInit s list).links list [] ∧ (utilsListInit s list).length list = 0 := by
  refine ⟨Circular.alone ?_ ?_, ?_⟩
  · exact Function.update_self ..
  · exact Function.update_self ..
  · exact Function.update_self ..

/-! ### The writes of an insertion and of a removal -/

section Writes

variable {l : Links ν} {head node : ν} {xs : List ν}

theorem nodeAdd_inserted (apart : node ≠ head) (behind : l.next head ≠ node) :
    Inserted l (utilsListNodeAdd l head node) head node := by
  refine ⟨?_, ?_, ?_, ?_, fun x notNode notHead => ?_, fun x notNode notNext => ?_⟩
  · exact Function.update_self ..
  · show Function.update (Function.update l.next node (l.next head)) head node node = l.next head
    rw [Function.update_of_ne apart, Function.update_self]
  · exact Function.update_self ..
  · show Function.update (Function.update l.prev (l.next head) node) node head (l.next head) = node
    rw [Function.update_of_ne behind, Function.update_self]
  · show Function.update (Function.update l.next node (l.next head)) head node x = l.next x
    rw [Function.update_of_ne notHead, Function.update_of_ne notNode]
  · show Function.update (Function.update l.prev (l.next head) node) node head x = l.prev x
    rw [Function.update_of_ne notNode, Function.update_of_ne notNext]

theorem del_removed (forth : l.next node ≠ node) (back : l.prev node ≠ node) :
    Removed l (utilsListUnlink l node) node := by
  have before : Function.update l.prev (l.next node) (l.prev node) node = l.prev node :=
    Function.update_of_ne forth.symm ..
  unfold utilsListUnlink
  simp only [before]
  refine ⟨?_, ?_, fun x notNode notPrev => ?_, fun x notNode notNext => ?_⟩
  · show Function.update (Function.update l.next _ _) _ _ _ = _
    rw [Function.update_of_ne back, Function.update_self]
  · show Function.update (Function.update l.prev _ _) _ _ _ = _
    rw [Function.update_of_ne forth, Function.update_self]
  · show Function.update (Function.update l.next _ _) _ _ _ = _
    rw [Function.update_of_ne notNode, Function.update_of_ne notPrev]
  · show Function.update (Function.update l.prev _ _) _ _ _ = _
    rw [Function.update_of_ne notNode, Function.update_of_ne notNext]

/-- A removed node is linked to itself. -/
@[simp] theorem unlink_next_self : (utilsListUnlink l node).next node = node :=
  Function.update_self ..

@[simp] theorem unlink_prev_self : (utilsListUnlink l node).prev node = node :=
  Function.update_self ..

/-- The removal of a node of a ring. -/
theorem ring_removed (circular : Circular l head xs) (member : node ∈ xs) :
    Removed l (utilsListUnlink l node) node :=
  del_removed (circular.next_ne member) (circular.prev_ne member)

/-- The insertion of a new node into a ring. -/
theorem ring_inserted (circular : Circular l head xs) (fresh : node ∉ head :: xs) :
    Inserted l (utilsListNodeAdd l head node) head node := by
  refine nodeAdd_inserted (fun same => fresh (same ▸ List.mem_cons_self)) fun behind => fresh ?_
  rw [← behind]
  exact circular.next_mem List.mem_cons_self

/-! ### Walking a ring -/

theorem walk_eq (segment : Segment l node xs head) (outside : head ∉ xs) {fuel : Nat}
    (enough : xs.length ≤ fuel) : utilsListWalk l head fuel (l.next node) = some xs := by
  induction xs generalizing node fuel with
  | nil =>
    rw [segment.1]
    unfold utilsListWalk
    exact if_pos rfl
  | cons x xs ih =>
    obtain ⟨forth, -, rest⟩ := segment
    rw [List.mem_cons, not_or] at outside
    cases fuel with
    | zero => cases enough
    | succ fuel =>
      rw [forth]
      unfold utilsListWalk
      rw [if_neg (Ne.symm outside.1)]
      show (utilsListWalk l head fuel (l.next x)).map (x :: ·) = _
      rw [ih rest outside.2 (Nat.le_of_succ_le_succ enough)]
      rfl

/-- The array of a list has its nodes in order. -/
theorem toArray_eq {s : NodeLists ν} (circular : Circular s.links head xs)
    (count : s.length head = xs.length) {fuel : Nat} (enough : xs.length ≤ fuel) :
    utilsListToArray s head fuel = some xs := by
  unfold utilsListToArray
  split_ifs with nonempty
  · exact walk_eq circular.ring (List.nodup_cons.mp circular.nodup).1 enough
  · rw [not_not, count] at nonempty
    rw [List.length_eq_zero_iff.mp (Int.natCast_eq_zero.mp nonempty)]

end Writes

end Arax.Utils
