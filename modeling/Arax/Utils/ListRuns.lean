/-
**Lists as sequences (`src/utils/list.c`, `src/utils/list.h`).**

Any number of lists and nodes lie in one memory, whose contents at the start are arbitrary. What the
lists stand for is a second state: which lists and nodes are initialised, and the sequence of nodes
of each list. The functions change the first one as the source does, and the second one as they are
meant to; they may be called where the second one allows it.

* `Sequences.Allows` — a node that is added is in no list, and a node that is deleted is in the
  list.
* `ListRight`, `ListsRight` — what holds of a list, and of all lists and nodes, in one state.
* `OthersKept` — what a call leaves alone.
* `lists_refine_sequences` — all of it holds after every run.
-/

import Arax.Lib.Run
import Arax.Utils.List

namespace Arax.Utils

open Arax.Lib

variable {ν : Type*}

/-! ### The memory -/

/-- The lists, and the field `owner` of all nodes. -/
structure ListMemory (ν : Type*) where
  lists : NodeLists ν
  owner : ν → ν

/-- The calls. -/
inductive ListOp (ν : Type*)
  | initList (list : ν)
  | initNode (node owner : ν)
  | add (list node : ν)
  | del (list node : ν)
  | popHead (list : ν)
  | popTail (list : ν)

section Calls

variable [DecidableEq ν]

/-- The list that a call is about. -/
def ListOp.list : ListOp ν → Option ν
  | .initList list | .add list _ | .del list _ | .popHead list | .popTail list => some list
  | .initNode _ _ => none

/-- What a call writes. -/
def ListMemory.apply (m : ListMemory ν) : ListOp ν → ListMemory ν
  | .initList list => ⟨utilsListInit m.lists list, Function.update m.owner list list⟩
  | .initNode node owner => ⟨{ m.lists with links := utilsListNodeInit m.lists.links node },
      Function.update m.owner node owner⟩
  | .add list node => { m with lists := utilsListAdd m.lists list node }
  | .del list node => { m with lists := utilsListDel m.lists list node }
  | .popHead list => { m with lists := (utilsListPopHead m.lists list).2 }
  | .popTail list => { m with lists := (utilsListPopTail m.lists list).2 }

/-! ### The loops -/

/-- The nodes that `utils_list_for_each` visits. -/
def utilsListForEach (l : Links ν) (list : ν) (fuel : Nat) : Option (List ν) :=
  utilsListWalk l list fuel (l.next list)

/-- The nodes that `utils_list_for_each_reverse` visits: the same loop along `prev`. -/
def utilsListForEachReverse (l : Links ν) (list : ν) (fuel : Nat) : Option (List ν) :=
  utilsListWalk l.flip list fuel (l.prev list)

/-- The array that `utils_list_to_array` fills. -/
def utilsListOwners (m : ListMemory ν) (list : ν) (fuel : Nat) : Option (List ν) :=
  (utilsListToArray m.lists list fuel).map (List.map m.owner)

/-- The nodes that `utils_list_for_each_safe` visits from `itr` on, and the memory after the loop.
The assignment to `tmp` is a part of the condition. -/
def utilsListForEachSafe (null : ν) (body : ListMemory ν → ν → ListMemory ν) (list : ν) :
    Nat → ν → ListMemory ν → Option (List ν × ListMemory ν)
  | fuel, itr, m =>
    let tmp := m.lists.links.next itr
    if itr ≠ list ∧ tmp ≠ null then
      match fuel with
      | 0 => none
      | fuel + 1 =>
        (utilsListForEachSafe null body list fuel tmp (body m itr)).map fun p => (itr :: p.1, p.2)
    else some ([], m)

/-- A body that deletes the current node where it chooses to. -/
def deleteIf (list : ν) (choose : ListMemory ν → ν → Bool) (m : ListMemory ν) (itr : ν) :
    ListMemory ν :=
  if choose m itr then m.apply (.del list itr) else m

/-! ### The sequences -/

/-- The initialised lists and nodes, and the nodes of each list, the newest first. -/
structure Sequences (ν : Type*) where
  heads : List ν
  nodes : List ν
  contents : ν → List ν

/-- Nothing is initialised. -/
def Sequences.empty : Sequences ν := ⟨[], [], fun _ => []⟩

/-- The node is in no list. -/
def Sequences.Unlinked (q : Sequences ν) (node : ν) : Prop :=
  ∀ list ∈ q.heads, node ∉ q.contents list

/-- The calls that may be made. -/
def Sequences.Allows (null : ν) (q : Sequences ν) : ListOp ν → Prop
  | .initList list => list ≠ null ∧ list ∉ q.heads ∧ list ∉ q.nodes
  | .initNode node _ => node ≠ null ∧ node ∉ q.heads ∧ q.Unlinked node
  | .add list node => list ∈ q.heads ∧ node ∈ q.nodes ∧ q.Unlinked node
  | .del list node => list ∈ q.heads ∧ node ∈ q.contents list
  | .popHead list | .popTail list => list ∈ q.heads

instance (q : Sequences ν) (node : ν) : Decidable (q.Unlinked node) :=
  inferInstanceAs (Decidable (∀ list ∈ q.heads, node ∉ q.contents list))

instance (null : ν) (q : Sequences ν) : (op : ListOp ν) → Decidable (q.Allows null op)
  | .initList list =>
    inferInstanceAs (Decidable (list ≠ null ∧ list ∉ q.heads ∧ list ∉ q.nodes))
  | .initNode node _ =>
    inferInstanceAs (Decidable (node ≠ null ∧ node ∉ q.heads ∧ q.Unlinked node))
  | .add list node =>
    inferInstanceAs (Decidable (list ∈ q.heads ∧ node ∈ q.nodes ∧ q.Unlinked node))
  | .del list node => inferInstanceAs (Decidable (list ∈ q.heads ∧ node ∈ q.contents list))
  | .popHead list | .popTail list => inferInstanceAs (Decidable (list ∈ q.heads))

/-- The sequence of one list changes. -/
def Sequences.set (q : Sequences ν) (list : ν) (xs : List ν) : Sequences ν :=
  { q with contents := Function.update q.contents list xs }

/-- What a call is meant to do. -/
def Sequences.apply (q : Sequences ν) : ListOp ν → Sequences ν
  | .initList list => { q.set list [] with heads := list :: q.heads }
  | .initNode node _ => { q with nodes := node :: q.nodes }
  | .add list node => q.set list (node :: q.contents list)
  | .del list node => q.set list ((q.contents list).erase node)
  | .popHead list => q.set list (q.contents list).tail
  | .popTail list => q.set list (q.contents list).dropLast

/-- A call that is allowed, in the memory and in what it stands for. -/
def listStep (null : ν) (s : ListMemory ν × Sequences ν) (op : ListOp ν) :
    Option (ListMemory ν × Sequences ν) :=
  if s.2.Allows null op then some (s.1.apply op, s.2.apply op) else none

/-! ### What holds -/

/-- **A list is its sequence.** -/
structure ListRight (null : ν) (m : ListMemory ν) (q : Sequences ν) (list : ν) : Prop where
  ring : Circular m.lists.links list (q.contents list)
  length : m.lists.length list = (q.contents list).length
  forEach : ∀ fuel, (q.contents list).length ≤ fuel →
    utilsListForEach m.lists.links list fuel = some (q.contents list)
  forEachReverse : ∀ fuel, (q.contents list).length ≤ fuel →
    utilsListForEachReverse m.lists.links list fuel = some (q.contents list).reverse
  toArray : ∀ fuel, (q.contents list).length ≤ fuel →
    utilsListOwners m list fuel = some ((q.contents list).map m.owner)
  popHead : (utilsListPopHead m.lists list).1 = (q.contents list).head?
  popTail : (utilsListPopTail m.lists list).1 = (q.contents list).getLast?
  /-- Each node is visited, whichever of them the body deletes; and the loop is the deletions. -/
  forEachSafe : ∀ choose fuel, (q.contents list).length ≤ fuel →
    ∃ (deleted : List ν) (m' : ListMemory ν) (q' : Sequences ν),
      utilsListForEachSafe null (deleteIf list choose) list fuel (m.lists.links.next list) m =
        some (q.contents list, m') ∧
      deleted.Sublist (q.contents list) ∧
      exec (listStep null) (m, q) (deleted.map (ListOp.del list)) = some (m', q')

/-- **All lists and nodes.** -/
structure ListsRight (null : ν) (m : ListMemory ν) (q : Sequences ν) : Prop where
  list : ∀ list ∈ q.heads, ListRight null m q list
  apart : ∀ list ∈ q.heads, ∀ other ∈ q.heads, list ≠ other →
    List.Disjoint (list :: q.contents list) (other :: q.contents other)
  linked : ∀ node ∈ q.nodes, utilsListNodeLinked m.lists.links node = true ↔
    ∃ list ∈ q.heads, node ∈ q.contents list

/-- **The other lists** are what they were. -/
def OthersKept (m m' : ListMemory ν) (q q' : Sequences ν) (op : ListOp ν) : Prop :=
  ∀ list ∈ q.heads, op.list ≠ some list →
    q'.contents list = q.contents list ∧ m'.lists.length list = m.lists.length list ∧
      ∀ x ∈ list :: q.contents list, m'.lists.links.next x = m.lists.links.next x ∧
        m'.lists.links.prev x = m.lists.links.prev x ∧ m'.owner x = m.owner x

end Calls

/-! ### The invariant -/

/-- **The memory holds the sequences.** -/
structure Represents (null : ν) (m : ListMemory ν) (q : Sequences ν) : Prop where
  rings : Rings m.lists.links id (· ∈ q.heads) q.contents
  length : ∀ list ∈ q.heads, m.lists.length list = (q.contents list).length
  initialised : ∀ list ∈ q.heads, ∀ node ∈ q.contents list, node ∈ q.nodes
  alone : ∀ node ∈ q.nodes, q.Unlinked node →
    m.lists.links.next node = node ∧ m.lists.links.prev node = node
  apart : ∀ node ∈ q.nodes, node ∉ q.heads
  real : null ∉ q.heads ∧ null ∉ q.nodes

section Members

variable {null list node : ν} {m : ListMemory ν} {q : Sequences ν}

theorem represents_empty (null : ν) (m : ListMemory ν) : Represents null m Sequences.empty := by
  refine ⟨⟨?_, ?_⟩, ?_, ?_, ?_, ?_, ?_⟩ <;> simp [Sequences.empty]

/-- What is in no list is no member of a ring. -/
theorem Sequences.Unlinked.fresh (unlinked : q.Unlinked node) (newHead : node ∉ q.heads) :
    ∀ list, list ∈ q.heads → node ∉ id list :: q.contents list := by
  intro list here member
  rcases List.mem_cons.mp member with rfl | member
  · exact newHead here
  · exact unlinked list here member

/-- What is no node is in no list. -/
theorem Represents.unlinked (represents : Represents null m q) (other : node ∉ q.nodes) :
    q.Unlinked node :=
  fun list here member => other (represents.initialised list here node member)

/-- A node that is visited, and the next one: it is not the head of the list, and not null. -/
theorem Represents.visited {kept rest : List ν} {x : ν} (represents : Represents null m q)
    (here : list ∈ q.heads) (split : q.contents list = kept ++ x :: rest) :
    x ≠ list ∧ m.lists.links.next x = rest.headD list ∧ rest.headD list ≠ null ∧ x ∉ kept := by
  have ring := represents.rings.ring list here
  have nodes := represents.initialised list here
  rw [split] at ring nodes
  have distinct := (List.nodup_cons.mp ring.nodup).2
  refine ⟨?_, ring.ring.next_eq, ?_, fun again => ?_⟩
  · rintro rfl
    exact represents.apart x (nodes x (List.mem_append_right _ List.mem_cons_self)) here
  · cases rest with
    | nil => exact fun same => represents.real.1 (same ▸ here)
    | cons y rest =>
      have member : y ∈ kept ++ x :: y :: rest :=
        List.mem_append_right _ (List.mem_cons_of_mem x List.mem_cons_self)
      exact fun same => represents.real.2 (same ▸ nodes y member)
  · exact (List.nodup_append.mp distinct).2.2 x again x List.mem_cons_self rfl

theorem othersKept_refl (m : ListMemory ν) (q : Sequences ν) (op : ListOp ν) :
    OthersKept m m q q op :=
  fun _ _ _ => ⟨rfl, rfl, fun _ _ => ⟨rfl, rfl, rfl⟩⟩

end Members

section Steps

variable [DecidableEq ν] {null list node : ν} {m m' : ListMemory ν} {q : Sequences ν} {xs : List ν}

/-! ### One call -/

@[simp] theorem Sequences.set_self (q : Sequences ν) (list : ν) (xs : List ν) :
    (q.set list xs).contents list = xs :=
  Function.update_self ..

theorem Sequences.set_other {other : ν} (apart : other ≠ list) (q : Sequences ν) (xs : List ν) :
    (q.set list xs).contents other = q.contents other :=
  Function.update_of_ne apart ..

/-- The sequence of one list changes, and with it the links and the length of this list. -/
theorem Represents.change (represents : Represents null m q)
    (rings : Rings m'.lists.links id (· ∈ q.heads) (Function.update q.contents list xs))
    (length : m'.lists.length = Function.update m.lists.length list xs.length)
    (initialised : ∀ node ∈ xs, node ∈ q.nodes)
    (alone : ∀ node ∈ q.nodes, (q.set list xs).Unlinked node →
      m'.lists.links.next node = node ∧ m'.lists.links.prev node = node) :
    Represents null m' (q.set list xs) := by
  refine ⟨rings, fun other there => ?_, fun other there node member => ?_, alone,
    represents.apart, represents.real⟩
  · rw [length]
    by_cases same : other = list
    · rw [same, Sequences.set_self, Function.update_self]
    · rw [Sequences.set_other same, Function.update_of_ne same]
      exact represents.length other there
  · by_cases same : other = list
    · rw [same, Sequences.set_self] at member
      exact initialised node member
    · rw [Sequences.set_other same] at member
      exact represents.initialised other there node member

/-- A list that is initialised is one more ring. -/
theorem Represents.initList_rings (represents : Represents null m q) (newHead : list ∉ q.heads)
    (newNode : list ∉ q.nodes) : Rings (utilsListNodeInit m.lists.links list) id
      (· ∈ list :: q.heads) (Function.update q.contents list []) := by
  have fresh := (represents.unlinked newNode).fresh newHead
  have reset : Rings (utilsListNodeInit m.lists.links list) id (· ∈ q.heads) q.contents :=
    represents.rings.reset fresh (fun x apart => Function.update_of_ne apart ..)
      fun x apart => Function.update_of_ne apart ..
  have extended := reset.extend (i := list) (Function.update_self ..) (Function.update_self ..)
    fresh
  have heads : (fun head => head = list ∨ head ∈ q.heads) = (· ∈ list :: q.heads) := by
    funext head
    rw [List.mem_cons]
  rw [heads] at extended
  exact extended

theorem Represents.initList (represents : Represents null m q)
    (allowed : q.Allows null (.initList list)) :
    Represents null (m.apply (.initList list)) (q.apply (.initList list)) := by
  obtain ⟨real, newHead, newNode⟩ := allowed
  have other : ∀ head ∈ q.heads, head ≠ list := by
    rintro head there rfl
    exact newHead there
  refine ⟨represents.initList_rings newHead newNode, fun head there => ?_,
    fun head there node member => ?_, fun node there unlinked => ?_, fun node there => ?_, ?_⟩
  · show Function.update m.lists.length list 0 head = _
    rcases List.mem_cons.mp there with rfl | there
    · show _ = (((q.set head []).contents head).length : Int)
      rw [Function.update_self, Sequences.set_self]
      rfl
    · show _ = (((q.set list []).contents head).length : Int)
      rw [Function.update_of_ne (other head there), Sequences.set_other (other head there)]
      exact represents.length head there
  · rcases List.mem_cons.mp there with rfl | there
    · have none' : node ∈ (q.set head []).contents head := member
      rw [Sequences.set_self] at none'
      cases none'
    · have old : node ∈ (q.set list []).contents head := member
      rw [Sequences.set_other (other head there)] at old
      exact represents.initialised head there node old
  · have apart : node ≠ list := by
      rintro rfl
      exact newNode there
    have before : q.Unlinked node := by
      intro head here member
      have later : node ∉ (q.set list []).contents head :=
        unlinked head (List.mem_cons_of_mem _ here)
      rw [Sequences.set_other (other head here)] at later
      exact later member
    have links := represents.alone node there before
    show Function.update m.lists.links.next list list node = node ∧
      Function.update m.lists.links.prev list list node = node
    rw [Function.update_of_ne apart, Function.update_of_ne apart]
    exact links
  · have apart : node ≠ list := by
      rintro rfl
      exact newNode there
    exact List.not_mem_cons_of_ne_of_not_mem apart (represents.apart node there)
  · exact ⟨List.not_mem_cons_of_ne_of_not_mem real.symm represents.real.1, represents.real.2⟩

theorem Represents.initNode {owner : ν} (represents : Represents null m q)
    (allowed : q.Allows null (.initNode node owner)) :
    Represents null (m.apply (.initNode node owner)) (q.apply (.initNode node owner)) := by
  obtain ⟨real, newHead, unlinked⟩ := allowed
  refine ⟨?_, represents.length, fun head there x member => ?_, fun x there alone => ?_,
    fun x there => ?_, ?_⟩
  · exact represents.rings.reset (unlinked.fresh newHead)
      (fun x apart => Function.update_of_ne apart ..) fun x apart => Function.update_of_ne apart ..
  · exact List.mem_cons_of_mem _ (represents.initialised head there x member)
  · show Function.update m.lists.links.next node node x = x ∧
      Function.update m.lists.links.prev node node x = x
    by_cases same : x = node
    · rw [same, Function.update_self, Function.update_self]
      exact ⟨rfl, rfl⟩
    · rw [Function.update_of_ne same, Function.update_of_ne same]
      exact represents.alone x ((List.mem_cons.mp there).resolve_left same) alone
  · rcases List.mem_cons.mp there with rfl | there
    · exact newHead
    · exact represents.apart x there
  · exact ⟨represents.real.1, List.not_mem_cons_of_ne_of_not_mem real.symm represents.real.2⟩

/-- The ring of a list, with the links of an added node. -/
theorem Represents.inserted (represents : Represents null m q) (here : list ∈ q.heads)
    (node' : node ∈ q.nodes) (unlinked : q.Unlinked node) :
    Inserted m.lists.links (utilsListNodeAdd m.lists.links list node) list node :=
  ring_inserted (represents.rings.ring list here)
    (unlinked.fresh (represents.apart node node') list here)

theorem Represents.add (represents : Represents null m q)
    (allowed : q.Allows null (.add list node)) :
    Represents null (m.apply (.add list node)) (q.apply (.add list node)) := by
  obtain ⟨here, node', unlinked⟩ := allowed
  have fresh := unlinked.fresh (represents.apart node node')
  have inserted := represents.inserted here node' unlinked
  have ring := represents.rings.ring list here
  refine represents.change (represents.rings.insert here fresh inserted) ?_ ?_ ?_
  · show Function.update m.lists.length list (m.lists.length list + 1) = _
    rw [represents.length list here, List.length_cons]
    rfl
  · exact List.forall_mem_cons.mpr ⟨node', represents.initialised list here⟩
  · intro x there alone
    have apart : x ≠ node := by
      rintro rfl
      exact alone list here (by rw [Sequences.set_self]; exact List.mem_cons_self)
    have before : q.Unlinked x := by
      intro head head' member
      by_cases same : head = list
      · rw [same] at member
        exact alone list here (by rw [Sequences.set_self]; exact List.mem_cons_of_mem _ member)
      · exact alone head head' (by rw [Sequences.set_other same]; exact member)
    have outside := before.fresh (represents.apart x there) list here
    have links := represents.alone x there before
    constructor
    · refine (inserted.next_other x apart ?_).trans links.1
      rintro rfl
      exact outside List.mem_cons_self
    · refine (inserted.prev_other x apart ?_).trans links.2
      rintro rfl
      exact outside (ring.next_mem List.mem_cons_self)

theorem Represents.removed (represents : Represents null m q) (here : list ∈ q.heads)
    (member : node ∈ q.contents list) :
    Removed m.lists.links (utilsListUnlink m.lists.links node) node :=
  ring_removed (represents.rings.ring list here) member

theorem Represents.del (represents : Represents null m q)
    (allowed : q.Allows null (.del list node)) :
    Represents null (m.apply (.del list node)) (q.apply (.del list node)) := by
  obtain ⟨here, member⟩ := allowed
  have removed := represents.removed here member
  have ring := represents.rings.ring list here
  have inner : node ∈ list :: q.contents list := List.mem_cons_of_mem list member
  refine represents.change (represents.rings.remove here member removed) ?_ ?_ ?_
  · show Function.update m.lists.length list (m.lists.length list - 1) = _
    have positive := List.length_pos_of_mem member
    have count : (((q.contents list).erase node).length : Int) = (q.contents list).length - 1 := by
      rw [List.length_erase_of_mem member]
      omega
    rw [represents.length list here, count]
  · exact fun x member' => represents.initialised list here x (List.mem_of_mem_erase member')
  · intro x there alone
    by_cases apart : x = node
    · rw [apart]
      exact ⟨unlink_next_self, unlink_prev_self⟩
    · have before : q.Unlinked x := by
        intro head head' member'
        by_cases same : head = list
        · rw [same] at member'
          refine alone list here ?_
          rw [Sequences.set_self]
          exact (List.mem_erase_of_ne apart).mpr member'
        · refine alone head head' ?_
          rw [Sequences.set_other same]
          exact member'
      have outside := before.fresh (represents.apart x there) list here
      have links := represents.alone x there before
      constructor
      · refine (removed.next_other x apart ?_).trans links.1
        rintro rfl
        exact outside (ring.prev_mem inner)
      · refine (removed.prev_other x apart ?_).trans links.2
        rintro rfl
        exact outside (ring.next_mem inner)

/-! ### Pops -/

theorem Sequences.set_eq_self (same : q.contents list = xs) : q.set list xs = q := by
  unfold Sequences.set
  rw [← same, Function.update_eq_self]

theorem Represents.popHead_eq {x : ν} (represents : Represents null m q) (here : list ∈ q.heads)
    (first : q.contents list = x :: xs) :
    utilsListPopHead m.lists list = (some x, utilsListDel m.lists list x) := by
  have ring := represents.rings.ring list here
  have count := represents.length list here
  rw [first] at ring count
  have next : m.lists.links.next list = x := ring.next_head
  unfold utilsListPopHead
  rw [if_neg (by rw [count, List.length_cons]; omega), next]

theorem Represents.popTail_eq {x : ν} (represents : Represents null m q) (here : list ∈ q.heads)
    (last : q.contents list = xs ++ [x]) :
    utilsListPopTail m.lists list = (some x, utilsListDel m.lists list x) := by
  have ring := represents.rings.ring list here
  have count := represents.length list here
  rw [last] at ring count
  have flipped := ring.flip
  rw [List.reverse_append, List.reverse_singleton, List.singleton_append] at flipped
  have prev : m.lists.links.prev list = x := flipped.next_head
  unfold utilsListPopTail
  rw [if_neg (by rw [count, List.length_append, List.length_singleton]; omega), prev]

theorem Represents.pop_nil (represents : Represents null m q) (here : list ∈ q.heads)
    (empty : q.contents list = []) :
    utilsListPopHead m.lists list = (none, m.lists) ∧
      utilsListPopTail m.lists list = (none, m.lists) := by
  have count : m.lists.length list = 0 := by
    rw [represents.length list here, empty]
    rfl
  exact ⟨if_pos count, if_pos count⟩

/-- A pop does nothing, or it is a deletion. -/
def PopsAs (m : ListMemory ν) (q : Sequences ν) (list : ν) (op : ListOp ν) : Prop :=
  (m.apply op = m ∧ q.apply op = q) ∨ ∃ x ∈ q.contents list,
    m.apply op = m.apply (.del list x) ∧ q.apply op = q.apply (.del list x)

theorem Represents.popHead (represents : Represents null m q) (here : list ∈ q.heads) :
    PopsAs m q list (.popHead list) := by
  cases first : q.contents list with
  | nil =>
    refine .inl ⟨?_, Sequences.set_eq_self (by rw [first]; rfl)⟩
    show { m with lists := (utilsListPopHead m.lists list).2 } = m
    rw [(represents.pop_nil here first).1]
  | cons x xs =>
    refine .inr ⟨x, by rw [first]; exact List.mem_cons_self, ?_, ?_⟩
    · show { m with lists := (utilsListPopHead m.lists list).2 } = _
      rw [represents.popHead_eq here first]
      rfl
    · show q.set list (q.contents list).tail = q.set list ((q.contents list).erase x)
      rw [first, List.erase_cons_head, List.tail_cons]

theorem Represents.popTail (represents : Represents null m q) (here : list ∈ q.heads) :
    PopsAs m q list (.popTail list) := by
  rcases List.eq_nil_or_concat (q.contents list) with empty | ⟨xs, x, last⟩
  · refine .inl ⟨?_, Sequences.set_eq_self (by rw [empty]; rfl)⟩
    show { m with lists := (utilsListPopTail m.lists list).2 } = m
    rw [(represents.pop_nil here empty).2]
  · rw [List.concat_eq_append] at last
    have distinct := (List.nodup_cons.mp (represents.rings.ring list here).nodup).2
    rw [last] at distinct
    have once : x ∉ xs := fun member =>
      (List.nodup_append.mp distinct).2.2 x member x (List.mem_singleton_self x) rfl
    refine .inr ⟨x, by rw [last]; exact List.mem_append_right _ (List.mem_singleton_self x), ?_, ?_⟩
    · show { m with lists := (utilsListPopTail m.lists list).2 } = _
      rw [represents.popTail_eq here last]
      rfl
    · show q.set list (q.contents list).dropLast = q.set list ((q.contents list).erase x)
      rw [last, List.dropLast_concat, List.erase_append_right _ once, List.erase_cons_head,
        List.append_nil]

/-! ### Other lists -/

theorem Represents.add_kept (represents : Represents null m q)
    (allowed : q.Allows null (.add list node)) :
    OthersKept m (m.apply (.add list node)) q (q.apply (.add list node)) (.add list node) := by
  obtain ⟨here, node', unlinked⟩ := allowed
  intro other there apart
  have different : other ≠ list := fun same => apart (congrArg some same.symm)
  refine ⟨Sequences.set_other different .., Function.update_of_ne different .., fun x member => ?_⟩
  have links := represents.rings.insert_apart here
    (unlinked.fresh (represents.apart node node')) (represents.inserted here node' unlinked)
    there different member
  exact ⟨links.1, links.2, rfl⟩

theorem Represents.del_kept (represents : Represents null m q)
    (allowed : q.Allows null (.del list node)) :
    OthersKept m (m.apply (.del list node)) q (q.apply (.del list node)) (.del list node) := by
  obtain ⟨here, member⟩ := allowed
  intro other there apart
  have different : other ≠ list := fun same => apart (congrArg some same.symm)
  refine ⟨Sequences.set_other different .., Function.update_of_ne different .., fun x theirs => ?_⟩
  have links := represents.rings.remove_apart here member (represents.removed here member)
    there different theirs
  exact ⟨links.1, links.2, rfl⟩

theorem Represents.init_kept (represents : Represents null m q)
    (allowed : q.Allows null (.initList list)) :
    OthersKept m (m.apply (.initList list)) q (q.apply (.initList list)) (.initList list) := by
  obtain ⟨-, newHead, newNode⟩ := allowed
  intro other there apart
  have different : other ≠ list := fun same => apart (congrArg some same.symm)
  refine ⟨Sequences.set_other different .., Function.update_of_ne different .., fun x theirs => ?_⟩
  have outside : x ≠ list := by
    rintro rfl
    exact (represents.unlinked newNode).fresh newHead other there theirs
  exact ⟨Function.update_of_ne outside .., Function.update_of_ne outside ..,
    Function.update_of_ne outside ..⟩

theorem initNode_kept {owner : ν} (allowed : q.Allows null (.initNode node owner)) :
    OthersKept m (m.apply (.initNode node owner)) q (q.apply (.initNode node owner))
      (.initNode node owner) := by
  obtain ⟨-, newHead, unlinked⟩ := allowed
  intro other there apart
  refine ⟨rfl, rfl, fun x theirs => ?_⟩
  have outside : x ≠ node := by
    rintro rfl
    exact unlinked.fresh newHead other there theirs
  exact ⟨Function.update_of_ne outside .., Function.update_of_ne outside ..,
    Function.update_of_ne outside ..⟩

/-- What holds of a deletion holds of a pop. -/
theorem PopsAs.kept {op : ListOp ν} (pops : PopsAs m q list op) (same : op.list = some list)
    (represents : Represents null m q) (here : list ∈ q.heads) :
    Represents null (m.apply op) (q.apply op) ∧ OthersKept m (m.apply op) q (q.apply op) op := by
  rcases pops with ⟨memory, sequences⟩ | ⟨x, member, memory, sequences⟩
  · rw [memory, sequences]
    exact ⟨represents, othersKept_refl m q op⟩
  · have allowed : q.Allows null (.del list x) := ⟨here, member⟩
    rw [memory, sequences]
    refine ⟨represents.del allowed,
      fun other there apart => represents.del_kept allowed other there ?_⟩
    show some list ≠ some other
    rw [← same]
    exact apart

/-- **One call** keeps the invariant, and the other lists. -/
theorem Represents.step {op : ListOp ν} {m' : ListMemory ν} {q' : Sequences ν}
    (represents : Represents null m q) (move : listStep null (m, q) op = some (m', q')) :
    Represents null m' q' ∧ OthersKept m m' q q' op := by
  obtain ⟨allowed, same⟩ := Option.ite_none_right_eq_some.mp move
  cases Option.some.inj same
  cases op with
  | initList list => exact ⟨represents.initList allowed, represents.init_kept allowed⟩
  | initNode node owner => exact ⟨represents.initNode allowed, initNode_kept allowed⟩
  | add list node => exact ⟨represents.add allowed, represents.add_kept allowed⟩
  | del list node => exact ⟨represents.del allowed, represents.del_kept allowed⟩
  | popHead list => exact (represents.popHead allowed).kept rfl represents allowed
  | popTail list => exact (represents.popTail allowed).kept rfl represents allowed

/-! ### The safe loop -/

/-- **The loop.** The nodes that are still to be visited are the end of the list: what the body
deletes is before them. -/
theorem Represents.forEachSafe (choose : ListMemory ν → ν → Bool) {kept rest : List ν} {fuel : Nat}
    (represents : Represents null m q) (here : list ∈ q.heads)
    (split : q.contents list = kept ++ rest) (enough : rest.length ≤ fuel) :
    ∃ (deleted : List ν) (m' : ListMemory ν) (q' : Sequences ν),
      utilsListForEachSafe null (deleteIf list choose) list fuel (rest.headD list) m =
        some (rest, m') ∧
      deleted.Sublist rest ∧
      exec (listStep null) (m, q) (deleted.map (ListOp.del list)) = some (m', q') := by
  induction rest generalizing kept fuel m q with
  | nil =>
    refine ⟨[], m, q, ?_, List.Sublist.slnil, rfl⟩
    unfold utilsListForEachSafe
    exact if_neg fun both => both.1 rfl
  | cons x rest ih =>
    cases fuel with
    | zero => cases enough
    | succ fuel =>
      obtain ⟨inner, next, follows, once⟩ := represents.visited here split
      have member : x ∈ q.contents list := by
        rw [split]
        exact List.mem_append_right _ List.mem_cons_self
      unfold utilsListForEachSafe
      simp only [next, List.headD_cons]
      rw [if_pos ⟨inner, follows⟩]
      have shorter := Nat.le_of_succ_le_succ enough
      by_cases chosen : choose m x = true
      · have allowed : q.Allows null (.del list x) := ⟨here, member⟩
        have split' : (q.apply (.del list x)).contents list = kept ++ rest := by
          show (q.set list ((q.contents list).erase x)).contents list = _
          rw [Sequences.set_self, split, List.erase_append_right _ once, List.erase_cons_head]
        obtain ⟨deleted, m', q', visits, part, run⟩ :=
          ih (represents.del allowed) here split' shorter
        refine ⟨x :: deleted, m', q', ?_, part.cons_cons x, ?_⟩
        · unfold deleteIf
          rw [if_pos chosen]
          exact congrArg (Option.map _) visits
        · show ((listStep null (m, q) (.del list x)).bind _) = _
          have move : listStep null (m, q) (.del list x) =
              some (m.apply (.del list x), q.apply (.del list x)) := if_pos allowed
          rw [move]
          exact run
      · have split' : q.contents list = (kept ++ [x]) ++ rest := by
          rw [split, List.append_assoc]
          rfl
        obtain ⟨deleted, m', q', visits, part, run⟩ := ih represents here split' shorter
        refine ⟨deleted, m', q', ?_, part.cons x, run⟩
        unfold deleteIf
        rw [if_neg chosen]
        exact congrArg (Option.map _) visits

/-! ### Whole runs -/

theorem Represents.listRight (represents : Represents null m q) (here : list ∈ q.heads) :
    ListRight null m q list := by
  have ring : Circular m.lists.links list (q.contents list) := represents.rings.ring list here
  have outside := (List.nodup_cons.mp ring.nodup).1
  refine ⟨ring, represents.length list here, fun fuel enough => ?_, fun fuel enough => ?_,
    fun fuel enough => ?_, ?_, ?_, fun choose fuel enough => ?_⟩
  · exact walk_eq ring.ring outside enough
  · refine walk_eq ring.flip.ring ?_ ?_
    · rw [List.mem_reverse]
      exact outside
    · rw [List.length_reverse]
      exact enough
  · unfold utilsListOwners
    rw [toArray_eq ring (represents.length list here) enough]
    rfl
  · cases first : q.contents list with
    | nil => rw [(represents.pop_nil here first).1]; rfl
    | cons x xs => rw [represents.popHead_eq here first]; rfl
  · rcases List.eq_nil_or_concat (q.contents list) with empty | ⟨xs, x, last⟩
    · rw [(represents.pop_nil here empty).2, empty]
      rfl
    · rw [List.concat_eq_append] at last
      rw [represents.popTail_eq here last, last, List.getLast?_concat]
  · have first : m.lists.links.next list = (q.contents list).headD list := by
      have segment := ring.ring
      cases here' : q.contents list with
      | nil => rw [here'] at segment; exact segment.1
      | cons x xs => rw [here'] at segment; exact segment.1
    rw [first]
    have split : q.contents list = [] ++ q.contents list := rfl
    exact represents.forEachSafe choose here split enough

theorem Represents.listsRight (represents : Represents null m q) : ListsRight null m q := by
  refine ⟨fun list here => represents.listRight here,
    fun list here other there apart => represents.rings.apart list other here there apart,
    fun node node' => ?_⟩
  unfold utilsListNodeLinked
  rw [bne_iff_ne]
  constructor
  · intro linked
    by_contra unlinked
    refine linked (represents.alone node node' fun list here member => ?_).1
    exact unlinked ⟨list, here, member⟩
  · rintro ⟨list, here, member⟩
    exact (represents.rings.ring list here).next_ne member

/-- **Lists are sequences.** After every run of calls that are allowed, from any memory in which no
list or node is initialised; and every further call leaves the other lists alone. -/
theorem lists_refine_sequences (null : ν) (m m' : ListMemory ν) (ops : List (ListOp ν))
    (q : Sequences ν)
    (run : exec (listStep null) (m, Sequences.empty) ops = some (m', q)) :
    ListsRight null m' q ∧ ∀ op m'' q'', listStep null (m', q) op = some (m'', q'') →
      OthersKept m' m'' q q'' op := by
  have represents : Represents null m' q :=
    exec_invariant (fun s act t represents move => (Represents.step represents move).1)
      (represents_empty null m) run
  exact ⟨represents.listsRight, fun op m'' q'' move => (represents.step move).2⟩

/-- A memory of zeros. -/
def zeros : ListMemory Nat := ⟨⟨⟨fun _ => 0, fun _ => 0⟩, fun _ => 0⟩, fun _ => 0⟩

/-- Two nodes are added to a list, and the older one is popped from its tail. -/
def twoNodes : List (ListOp Nat) :=
  [.initList 1, .initNode 2 2, .initNode 3 3, .add 1 2, .add 1 3, .popTail 1]

theorem lists_refine_sequences_two : ∃ m' q,
    exec (listStep 0) (zeros, Sequences.empty) twoNodes = some (m', q) ∧ q.contents 1 = [3] ∧
      ListsRight 0 m' q :=
  ⟨_, _, rfl, rfl, (lists_refine_sequences 0 zeros _ twoNodes _ rfl).1⟩

end Steps

end Arax.Utils
