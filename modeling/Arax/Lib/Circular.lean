/-
**Circular doubly linked lists.**

Nodes carry a `next` and a `prev` link, and a list is a ring through a head node. The nodes are of
any type, so that one pair of link functions holds many rings at once.

* `Segment l a xs b` — the links lead from `a` through `xs` to `b` and back.
* `Circular l head xs` — a ring through `head` whose other nodes are `xs`, each once.
* `Inserted l l' a node`, `Removed l l' node` — how an insertion behind `a` and a removal change
  links.
* `Circular.insert`, `Circular.remove` — what they do to a ring.
* `Links.flip`, `Circular.flip` — a ring is one the other way round as well.
* `Rings l heads present lists` — a family of rings that share no node, with the rules
  `Rings.insert`, `Rings.remove`, `Rings.extend` and `Rings.reset` for it.
-/

import Mathlib.Data.List.Nodup
import Mathlib.Data.List.Basic
import Mathlib.Logic.Function.Basic

namespace Arax.Lib

/-- The links of all nodes. -/
structure Links (ν : Type*) where
  next : ν → ν
  prev : ν → ν

variable {ν ι : Type*}

/-- The links, each in place of the other. -/
def Links.flip (l : Links ν) : Links ν := ⟨l.prev, l.next⟩

/-- From `a` through `xs` to `b`, and back. -/
def Segment (l : Links ν) : ν → List ν → ν → Prop
  | a, [], b => l.next a = b ∧ l.prev b = a
  | a, x :: xs, b => l.next a = x ∧ l.prev x = a ∧ Segment l x xs b

/-- The ring through `head` with the nodes `xs`. -/
structure Circular (l : Links ν) (head : ν) (xs : List ν) : Prop where
  nodup : (head :: xs).Nodup
  ring : Segment l head xs head

/-- `l'` is `l` with `node` taken out. -/
structure Removed (l l' : Links ν) (node : ν) : Prop where
  next_prev : l'.next (l.prev node) = l.next node
  prev_next : l'.prev (l.next node) = l.prev node
  next_other : ∀ x, x ≠ node → x ≠ l.prev node → l'.next x = l.next x
  prev_other : ∀ x, x ≠ node → x ≠ l.next node → l'.prev x = l.prev x

/-- `l'` is `l` with `node` put behind `a`. -/
structure Inserted (l l' : Links ν) (a node : ν) : Prop where
  next_before : l'.next a = node
  next_node : l'.next node = l.next a
  prev_node : l'.prev node = a
  prev_after : l'.prev (l.next a) = node
  next_other : ∀ x, x ≠ node → x ≠ a → l'.next x = l.next x
  prev_other : ∀ x, x ≠ node → x ≠ l.next a → l'.prev x = l.prev x

/-! ### Segments -/

section Segments

variable {l l' : Links ν} {a b node : ν} {xs ys : List ν}

/-- A segment depends on the links along it. -/
theorem Segment.congr (segment : Segment l a xs b)
    (next : ∀ x ∈ a :: xs, l'.next x = l.next x) (prev : ∀ x ∈ xs ++ [b], l'.prev x = l.prev x) :
    Segment l' a xs b := by
  induction xs generalizing a with
  | nil =>
    refine ⟨?_, ?_⟩
    · rw [next a List.mem_cons_self]
      exact segment.1
    · rw [prev b List.mem_cons_self]
      exact segment.2
  | cons x xs ih =>
    obtain ⟨forth, back, rest⟩ := segment
    rw [List.forall_mem_cons] at next
    rw [List.cons_append, List.forall_mem_cons] at prev
    refine ⟨?_, ?_, ih rest next.2 prev.2⟩
    · rw [next.1]
      exact forth
    · rw [prev.1]
      exact back

theorem Segment.next_mem (segment : Segment l a xs b) {x : ν} (member : x ∈ a :: xs) :
    l.next x ∈ xs ++ [b] := by
  induction xs generalizing a with
  | nil =>
    cases List.mem_singleton.mp member
    rw [segment.1]
    exact List.mem_singleton_self b
  | cons y ys ih =>
    obtain ⟨forth, -, rest⟩ := segment
    rcases List.mem_cons.mp member with rfl | member
    · rw [forth]
      exact List.mem_cons_self
    · exact List.mem_cons_of_mem y (ih rest member)

theorem Segment.prev_mem (segment : Segment l a xs b) {x : ν} (member : x ∈ xs ++ [b]) :
    l.prev x ∈ a :: xs := by
  induction xs generalizing a with
  | nil =>
    cases List.mem_singleton.mp member
    rw [segment.2]
    exact List.mem_singleton_self a
  | cons y ys ih =>
    obtain ⟨-, back, rest⟩ := segment
    rcases List.mem_cons.mp member with rfl | member
    · rw [back]
      exact List.mem_cons_self
    · exact List.mem_cons_of_mem a (ih rest member)

/-- The node that follows the segment `a, xs` up to `node`. -/
theorem Segment.prev_last (segment : Segment l a (xs ++ node :: ys) b) :
    l.prev node ∈ a :: xs := by
  induction xs generalizing a with
  | nil =>
    rw [segment.2.1]
    exact List.mem_cons_self
  | cons x xs ih => exact List.mem_cons_of_mem a (ih segment.2.2)

theorem Segment.next_first (segment : Segment l a (xs ++ node :: ys) b) :
    l.next node ∈ ys ++ [b] := by
  induction xs generalizing a with
  | nil => exact segment.2.2.next_mem List.mem_cons_self
  | cons x xs ih => exact ih segment.2.2

/-- **Removal.** The neighbours of `node` are joined, and the links of the others are kept. -/
theorem Segment.splice_out (segment : Segment l a (xs ++ node :: ys) b)
    (nodup : (a :: (xs ++ node :: ys)).Nodup) (inner : b ∉ xs ++ node :: ys)
    (removed : Removed l l' node) : Segment l' a (xs ++ ys) b := by
  obtain ⟨forth, back, next, prev⟩ := removed
  induction xs generalizing a with
  | nil =>
    obtain ⟨-, before, rest⟩ := segment
    rw [before] at forth back next
    cases ys with
    | nil =>
      obtain ⟨after, -⟩ := rest
      rw [after] at forth back
      exact ⟨forth, back⟩
    | cons y ys =>
      obtain ⟨after, -, rest⟩ := rest
      rw [after] at forth back prev
      refine ⟨forth, back, rest.congr (fun x member => next x ?_ ?_) (fun x member => prev x ?_ ?_)⟩
      · rintro rfl
        exact (List.nodup_cons.mp (List.nodup_cons.mp nodup).2).1 member
      · rintro rfl
        exact (List.nodup_cons.mp nodup).1 (List.mem_cons_of_mem node member)
      · rintro rfl
        rcases List.mem_append.mp member with member | last
        · exact (List.nodup_cons.mp (List.nodup_cons.mp nodup).2).1 (List.mem_cons_of_mem y member)
        · rw [List.mem_singleton.mp last] at inner
          exact inner List.mem_cons_self
      · rintro rfl
        rcases List.mem_append.mp member with member | last
        · exact (List.nodup_cons.mp (List.nodup_cons.mp (List.nodup_cons.mp nodup).2).2).1 member
        · rw [List.mem_singleton.mp last] at inner
          exact inner (List.mem_cons_of_mem node List.mem_cons_self)
  | cons x xs ih =>
    obtain ⟨first, second, rest⟩ := segment
    obtain ⟨fresh, distinct⟩ := List.nodup_cons.mp nodup
    obtain ⟨apart, -⟩ := List.nodup_cons.mp distinct
    have inner' : b ∉ xs ++ node :: ys := fun member => inner (List.mem_cons_of_mem x member)
    refine ⟨?_, ?_, ih rest distinct inner'⟩
    · rw [next a, first]
      · rintro rfl
        exact fresh (by simp)
      · rintro same
        have member := rest.prev_last
        rw [← same] at member
        exact fresh (List.mem_append_left (node :: ys) member)
    · rw [prev x, second]
      · rintro rfl
        exact apart (by simp)
      · rintro same
        have member := rest.next_first
        rw [← same] at member
        rcases List.mem_append.mp member with member | last
        · exact apart (by simp [member])
        · rw [List.mem_singleton] at last
          exact inner (by simp [last])

/-- **Insertion.** `node` comes behind `a`, and the links of the others are kept. -/
theorem Segment.splice_in (segment : Segment l a xs b) (nodup : (a :: xs).Nodup) (inner : b ∉ xs)
    (fresh : node ∉ a :: xs) (apart : b ≠ node) (inserted : Inserted l l' a node) :
    Segment l' a (node :: xs) b := by
  obtain ⟨first, second, third, fourth, next, prev⟩ := inserted
  refine ⟨first, third, ?_⟩
  cases xs with
  | nil =>
    obtain ⟨forth, -⟩ := segment
    rw [forth] at second fourth
    exact ⟨second, fourth⟩
  | cons x xs =>
    obtain ⟨forth, -, rest⟩ := segment
    rw [forth] at second fourth prev
    refine ⟨second, fourth, rest.congr (fun y member => next y ?_ ?_)
      (fun y member => prev y ?_ ?_)⟩
    · rintro rfl
      exact fresh (List.mem_cons_of_mem a member)
    · rintro rfl
      exact (List.nodup_cons.mp nodup).1 member
    · rintro rfl
      rcases List.mem_append.mp member with member | last
      · exact fresh (List.mem_cons_of_mem a (List.mem_cons_of_mem x member))
      · exact apart (List.mem_singleton.mp last).symm
    · rintro rfl
      rcases List.mem_append.mp member with member | last
      · exact (List.nodup_cons.mp (List.nodup_cons.mp nodup).2).1 member
      · rw [List.mem_singleton.mp last] at inner
        exact inner List.mem_cons_self

/-- A segment with one node more at its end. -/
theorem segment_snoc : Segment l a (xs ++ [node]) b ↔
    Segment l a xs node ∧ l.next node = b ∧ l.prev b = node := by
  induction xs generalizing a with
  | nil =>
    constructor
    · rintro ⟨forth, back, rest⟩
      exact ⟨⟨forth, back⟩, rest⟩
    · rintro ⟨⟨forth, back⟩, rest⟩
      exact ⟨forth, back, rest⟩
  | cons x xs ih =>
    constructor
    · rintro ⟨forth, back, rest⟩
      obtain ⟨inner, last⟩ := ih.mp rest
      exact ⟨⟨forth, back, inner⟩, last⟩
    · rintro ⟨⟨forth, back, inner⟩, last⟩
      exact ⟨forth, back, ih.mpr ⟨inner, last⟩⟩

/-- A segment is one the other way round. -/
theorem Segment.flip (segment : Segment l a xs b) : Segment l.flip b xs.reverse a := by
  induction xs generalizing a with
  | nil => exact ⟨segment.2, segment.1⟩
  | cons x xs ih =>
    obtain ⟨forth, back, rest⟩ := segment
    rw [List.reverse_cons]
    exact segment_snoc.mpr ⟨ih rest, back, forth⟩

/-- The node behind a node of a segment. -/
theorem Segment.next_eq (segment : Segment l a (xs ++ node :: ys) b) :
    l.next node = ys.headD b := by
  induction xs generalizing a with
  | nil =>
    obtain ⟨-, -, rest⟩ := segment
    cases ys with
    | nil => exact rest.1
    | cons y ys => exact rest.1
  | cons x xs ih => exact ih segment.2.2

end Segments

/-! ### Rings -/

section Circles

variable {l l' : Links ν} {head node : ν} {xs : List ν}

/-- A node alone is a ring. -/
theorem Circular.alone (next : l.next head = head) (prev : l.prev head = head) :
    Circular l head [] :=
  ⟨List.nodup_singleton head, next, prev⟩

theorem Circular.congr (circular : Circular l head xs)
    (next : ∀ x ∈ head :: xs, l'.next x = l.next x)
    (prev : ∀ x ∈ head :: xs, l'.prev x = l.prev x) : Circular l' head xs := by
  refine ⟨circular.nodup, circular.ring.congr next fun x member => prev x ?_⟩
  exact (List.perm_append_singleton head xs).mem_iff.mp member

theorem Circular.next_mem (circular : Circular l head xs) {x : ν} (member : x ∈ head :: xs) :
    l.next x ∈ head :: xs :=
  (List.perm_append_singleton head xs).mem_iff.mp (circular.ring.next_mem member)

theorem Circular.prev_mem (circular : Circular l head xs) {x : ν} (member : x ∈ head :: xs) :
    l.prev x ∈ head :: xs :=
  circular.ring.prev_mem ((List.perm_append_singleton head xs).mem_iff.mpr member)

/-- The first node of a ring follows its head. -/
theorem Circular.next_head {x : ν} (circular : Circular l head (x :: xs)) : l.next head = x :=
  circular.ring.1

/-- **The other way round.** -/
theorem Circular.flip (circular : Circular l head xs) : Circular l.flip head xs.reverse := by
  obtain ⟨outside, distinct⟩ := List.nodup_cons.mp circular.nodup
  refine ⟨List.nodup_cons.mpr ⟨?_, List.nodup_reverse.mpr distinct⟩, circular.ring.flip⟩
  rw [List.mem_reverse]
  exact outside

/-- A node of the list does not follow itself. -/
theorem Circular.next_ne (circular : Circular l head xs) (member : node ∈ xs) :
    l.next node ≠ node := by
  obtain ⟨before, after, rfl⟩ := List.append_of_mem member
  have follows := circular.ring.next_first
  obtain ⟨outside, distinct⟩ := List.nodup_cons.mp circular.nodup
  intro same
  rw [same] at follows
  rcases List.mem_append.mp follows with again | last
  · exact (List.nodup_cons.mp (List.nodup_append.mp distinct).2.1).1 again
  · rw [List.mem_singleton] at last
    exact outside (by simp [last])

theorem Circular.prev_ne (circular : Circular l head xs) (member : node ∈ xs) :
    l.prev node ≠ node := by
  obtain ⟨before, after, rfl⟩ := List.append_of_mem member
  have precedes := circular.ring.prev_last
  obtain ⟨outside, distinct⟩ := List.nodup_cons.mp circular.nodup
  intro same
  rw [same] at precedes
  rcases List.mem_cons.mp precedes with rfl | again
  · exact outside member
  · exact (List.nodup_append.mp distinct).2.2 node again node List.mem_cons_self rfl

theorem Circular.insert (circular : Circular l head xs) (fresh : node ∉ head :: xs)
    (inserted : Inserted l l' head node) : Circular l' head (node :: xs) := by
  obtain ⟨outside, distinct⟩ := List.nodup_cons.mp circular.nodup
  have apart : head ≠ node := fun same => fresh (same ▸ List.mem_cons_self)
  have other : node ∉ xs := fun member => fresh (List.mem_cons_of_mem head member)
  refine ⟨?_, circular.ring.splice_in circular.nodup outside fresh apart inserted⟩
  simp only [List.nodup_cons, List.mem_cons, not_or]
  exact ⟨⟨apart, outside⟩, other, distinct⟩

theorem Circular.remove [DecidableEq ν] (circular : Circular l head xs) (member : node ∈ xs)
    (removed : Removed l l' node) : Circular l' head (xs.erase node) := by
  have outside := (List.nodup_cons.mp circular.nodup).1
  refine ⟨circular.nodup.sublist (List.erase_sublist.cons_cons head), ?_⟩
  obtain ⟨before, after, away, rfl, erased⟩ := List.exists_erase_eq member
  rw [erased]
  exact circular.ring.splice_out circular.nodup outside removed

end Circles

/-! ### Families of rings -/

/-- The rings of the indices that are `present`, with no node in common. -/
structure Rings (l : Links ν) (heads : ι → ν) (present : ι → Prop) (lists : ι → List ν) : Prop where
  ring : ∀ i, present i → Circular l (heads i) (lists i)
  apart : ∀ i j, present i → present j → i ≠ j →
    List.Disjoint (heads i :: lists i) (heads j :: lists j)

section Families

variable {l l' : Links ν} {heads : ι → ν} {present : ι → Prop} {lists : ι → List ν} {node : ν}
  {i : ι}

theorem Rings.congr (rings : Rings l heads present lists)
    (next : ∀ i, present i → ∀ x ∈ heads i :: lists i, l'.next x = l.next x)
    (prev : ∀ i, present i → ∀ x ∈ heads i :: lists i, l'.prev x = l.prev x) :
    Rings l' heads present lists :=
  ⟨fun i here => (rings.ring i here).congr (next i here) (prev i here), rings.apart⟩

theorem Rings.ne (rings : Rings l heads present lists) (here : present i) {j : ι}
    (there : present j) (apart : j ≠ i) {x y : ν} (theirs : x ∈ heads j :: lists j)
    (mine : y ∈ heads i :: lists i) : x ≠ y := by
  rintro rfl
  exact rings.apart i j here there apart.symm mine theirs

/-- The links of a node that is in no ring are its own. -/
theorem Rings.reset (rings : Rings l heads present lists)
    (fresh : ∀ i, present i → node ∉ heads i :: lists i)
    (next : ∀ x, x ≠ node → l'.next x = l.next x) (prev : ∀ x, x ≠ node → l'.prev x = l.prev x) :
    Rings l' heads present lists := by
  have apart : ∀ i, present i → ∀ x ∈ heads i :: lists i, x ≠ node := by
    rintro i here x member rfl
    exact fresh i here member
  exact rings.congr (fun i here x member => next x (apart i here x member))
    (fun i here x member => prev x (apart i here x member))

/-- A new empty ring. -/
theorem Rings.extend [DecidableEq ι] (rings : Rings l heads present lists)
    (next : l.next (heads i) = heads i) (prev : l.prev (heads i) = heads i)
    (fresh : ∀ j, present j → heads i ∉ heads j :: lists j) :
    Rings l heads (fun j => j = i ∨ present j) (Function.update lists i []) := by
  have other : ∀ j, j = i ∨ present j → j ≠ i → present j := fun j here apart =>
    here.resolve_left apart
  refine ⟨fun j here => ?_, fun j k left right apart => ?_⟩
  · by_cases same : j = i
    · rw [same, Function.update_self]
      exact Circular.alone next prev
    · rw [Function.update_of_ne same]
      exact rings.ring j (other j here same)
  · by_cases first : j = i
    · have second : k ≠ i := fun same => apart (first.trans same.symm)
      rw [first, Function.update_self, Function.update_of_ne second, List.singleton_disjoint]
      exact fresh k (other k right second)
    · rw [Function.update_of_ne first]
      by_cases second : k = i
      · rw [second, Function.update_self, List.disjoint_singleton]
        exact fresh j (other j left first)
      · rw [Function.update_of_ne second]
        exact rings.apart j k (other j left first) (other k right second) apart

/-- **A change in one ring.** The list of one index changes, and every node whose links change is
new or was in its ring. -/
theorem Rings.change [DecidableEq ι] (rings : Rings l heads present lists) (here : present i)
    {xs : List ν} (changed : Circular l' (heads i) xs)
    (from' : ∀ x ∈ xs, x ∈ lists i ∨ ∀ j, present j → x ∉ heads j :: lists j)
    (next : ∀ j, present j → j ≠ i → ∀ x ∈ heads j :: lists j, l'.next x = l.next x)
    (prev : ∀ j, present j → j ≠ i → ∀ x ∈ heads j :: lists j, l'.prev x = l.prev x) :
    Rings l' heads present (Function.update lists i xs) := by
  have disjoint : ∀ j, present j → j ≠ i →
      List.Disjoint (heads i :: xs) (heads j :: lists j) := by
    intro j there apart x mine theirs
    rcases List.mem_cons.mp mine with rfl | mine
    · exact rings.apart i j here there apart.symm List.mem_cons_self theirs
    · rcases from' x mine with old | new
      · exact rings.apart i j here there apart.symm (List.mem_cons_of_mem (heads i) old) theirs
      · exact new j there theirs
  refine ⟨fun j there => ?_, fun j k left right apart => ?_⟩
  · by_cases same : j = i
    · rw [same, Function.update_self]
      exact changed
    · rw [Function.update_of_ne same]
      exact (rings.ring j there).congr (next j there same) (prev j there same)
  · by_cases first : j = i
    · have second : k ≠ i := fun same => apart (first.trans same.symm)
      rw [first, Function.update_self, Function.update_of_ne second]
      exact disjoint k right second
    · rw [Function.update_of_ne first]
      by_cases second : k = i
      · rw [second, Function.update_self]
        exact List.disjoint_comm.mp (disjoint j left first)
      · rw [Function.update_of_ne second]
        exact rings.apart j k left right apart

/-- An insertion into one ring keeps the links of the others. -/
theorem Rings.insert_apart (rings : Rings l heads present lists) (here : present i)
    (fresh : ∀ j, present j → node ∉ heads j :: lists j) (inserted : Inserted l l' (heads i) node)
    {j : ι} (there : present j) (apart : j ≠ i) {x : ν} (theirs : x ∈ heads j :: lists j) :
    l'.next x = l.next x ∧ l'.prev x = l.prev x := by
  have other : x ≠ node := by
    rintro rfl
    exact fresh j there theirs
  exact ⟨inserted.next_other x other (rings.ne here there apart theirs List.mem_cons_self),
    inserted.prev_other x other
      (rings.ne here there apart theirs ((rings.ring i here).next_mem List.mem_cons_self))⟩

/-- **Insertion into one of the rings.** -/
theorem Rings.insert [DecidableEq ι] (rings : Rings l heads present lists) (here : present i)
    (fresh : ∀ j, present j → node ∉ heads j :: lists j)
    (inserted : Inserted l l' (heads i) node) :
    Rings l' heads present (Function.update lists i (node :: lists i)) := by
  refine rings.change here ((rings.ring i here).insert (fresh i here) inserted) ?_ ?_ ?_
  · intro x member
    rcases List.mem_cons.mp member with rfl | member
    · exact .inr fresh
    · exact .inl member
  · intro j there apart x theirs
    exact (rings.insert_apart here fresh inserted there apart theirs).1
  · intro j there apart x theirs
    exact (rings.insert_apart here fresh inserted there apart theirs).2

/-- A removal from one ring keeps the links of the others. -/
theorem Rings.remove_apart (rings : Rings l heads present lists) (here : present i)
    (member : node ∈ lists i) (removed : Removed l l' node) {j : ι} (there : present j)
    (apart : j ≠ i) {x : ν} (theirs : x ∈ heads j :: lists j) :
    l'.next x = l.next x ∧ l'.prev x = l.prev x := by
  have mine := rings.ring i here
  have inner : node ∈ heads i :: lists i := List.mem_cons_of_mem (heads i) member
  have other := rings.ne here there apart theirs inner
  exact ⟨removed.next_other x other (rings.ne here there apart theirs (mine.prev_mem inner)),
    removed.prev_other x other (rings.ne here there apart theirs (mine.next_mem inner))⟩

/-- **Removal from one of the rings.** -/
theorem Rings.remove [DecidableEq ι] [DecidableEq ν] (rings : Rings l heads present lists)
    (here : present i) (member : node ∈ lists i) (removed : Removed l l' node) :
    Rings l' heads present (Function.update lists i ((lists i).erase node)) := by
  refine rings.change here ((rings.ring i here).remove member removed) ?_ ?_ ?_
  · exact fun x member => .inl (List.mem_of_mem_erase member)
  · intro j there apart x theirs
    exact (rings.remove_apart here member removed there apart theirs).1
  · intro j there apart x theirs
    exact (rings.remove_apart here member removed there apart theirs).2

end Families

end Arax.Lib
