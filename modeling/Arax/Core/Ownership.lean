/-
**The lists of virtual accelerators (`src/core/arax_accel.c`, `arax_pipe.c`, `arax_vaccel.c`).**

The node `vaccels` of a virtual accelerator (VAQ) is in `pipe->orphan_vacs`, in the list of the
physical accelerator the VAQ is assigned to, or checked out, in no list. The calls move it on the
links themselves; nothing in a node says in which list it is, and `arax_pipe_remove_orphan_vaccel`
only asks if it is linked.

* `VaqState` — the lists, the fields `phys` and `revision`, and which objects are alive.
* `VaqRun` — a state, and what the calls before it and their results say: which VAQs are checked
  out, and how many additions and removals each accelerator saw. The calls do not read it.
* `Owned s vaqs` — the invariant: the links form one ring for each list, with the VAQs `vaqs`.
* `Owned.put`, `Owned.take` — what one insertion and one removal do to it.
* `vaccel_lists_owned` — every run of the calls keeps the ownership of every VAQ.
-/

import Mathlib.Algebra.Group.Nat.Defs
import Mathlib.Data.List.Basic
import Mathlib.Logic.Function.Basic
import Mathlib.Tactic.SplitIfs
import Arax.Lib.Run
import Arax.Lib.Circular
import Arax.Utils.List

namespace Arax.Core.Ownership

open Arax.Lib Arax.Utils

/-- A list of VAQs: `pipe->orphan_vacs`, or `accel->vaccels` of a physical accelerator. -/
inductive Owner where
  | orphans
  | accel (p : Nat)
  deriving DecidableEq

/-- A list node: the head of a list, or `vaccel->vaccels`. The owner of a node is part of its
name. -/
inductive VaqNode where
  | head (list : Owner)
  | vaccel (v : Nat)
  deriving DecidableEq

/-- The state of the lists and of the objects that are listed. -/
structure VaqState where
  lists : NodeLists VaqNode
  /-- The registered physical accelerators. -/
  accels : Nat → Bool
  /-- The registered virtual accelerators. -/
  vaccels : Nat → Bool
  /-- `vaccel->phys`. -/
  phys : Nat → Option Nat
  /-- `accel->revision`. -/
  revision : Nat → Nat

/-- `arax_pipe_init`, in memory with any content. -/
def araxPipeInit (memory : VaqState) : VaqState :=
  { memory with
    lists := utilsListInit memory.lists (.head .orphans)
    accels := fun _ => false
    vaccels := fun _ => false }

/-- `arax_accel_inc_revision`. -/
def incRevision (revision : Nat → Nat) (accel : Nat) : Nat → Nat :=
  Function.update revision accel ((revision accel + 1) % 2 ^ 64)

/-- `arax_pipe_remove_orphan_vaccel`. -/
def araxPipeRemoveOrphanVaccel (s : VaqState) (vac : Nat) : VaqState :=
  if utilsListNodeLinked s.lists.links (.vaccel vac) then
    { s with lists := utilsListDel s.lists (.head .orphans) (.vaccel vac) }
  else s

/-- `arax_pipe_add_orphan_vaccel`, with its assertion. -/
def araxPipeAddOrphanVaccel (s : VaqState) (vac : Nat) : Option VaqState :=
  if s.phys vac = none then
    some { s with lists := utilsListAdd s.lists (.head .orphans) (.vaccel vac) }
  else none

/-- `arax_pipe_get_orphan_vaccel`, which returns `NULL` if the list is still empty after its
wait. -/
def araxPipeGetOrphanVaccel (s : VaqState) : Option (Option Nat × VaqState) :=
  match utilsListPopHead s.lists (.head .orphans) with
  | (none, lists) => some (none, { s with lists := lists })
  | (some (.vaccel vac), lists) =>
    if s.phys vac = none then some (some vac, { s with lists := lists }) else none
  | (some (.head _), _) => none

/-- `arax_accel_add_vaccel`, with its assertion. -/
def araxAccelAddVaccel (s : VaqState) (accel vaccel : Nat) : Option VaqState :=
  if s.phys vaccel = some accel then some s
  else if s.phys vaccel = none then
    let s := araxPipeRemoveOrphanVaccel s vaccel
    if s.phys vaccel ≠ some accel then
      some { s with
        lists := utilsListAdd s.lists (.head (.accel accel)) (.vaccel vaccel)
        phys := Function.update s.phys vaccel (some accel)
        revision := incRevision s.revision accel }
    else some s
  else none

/-- `arax_accel_del_vaccel`, with its assertion. -/
def araxAccelDelVaccel (s : VaqState) (accel vaccel : Nat) : Option VaqState :=
  if s.phys vaccel = some accel then
    some { s with
      lists := utilsListDel s.lists (.head (.accel accel)) (.vaccel vaccel)
      phys := Function.update s.phys vaccel none
      revision := incRevision s.revision accel }
  else none

/-- The part of `arax_vaccel_init` before the VAQ is added to a list. -/
def registerVaccel (s : VaqState) (vaccel : Nat) : VaqState :=
  { s with
    lists := { s.lists with links := utilsListNodeInit s.lists.links (.vaccel vaccel) }
    vaccels := Function.update s.vaccels vaccel true
    phys := Function.update s.phys vaccel none }

/-- `arax_vaccel_init`. -/
def araxVaccelInit (s : VaqState) (vaccel : Nat) (accel : Option Nat) : Option VaqState :=
  match accel with
  | some accel => araxAccelAddVaccel (registerVaccel s vaccel) accel vaccel
  | none => araxPipeAddOrphanVaccel (registerVaccel s vaccel) vaccel

/-- The part of `arax_accel_init` before its `free_vaq` is made. -/
def registerAccel (s : VaqState) (accel : Nat) : VaqState :=
  { s with
    lists := utilsListInit s.lists (.head (.accel accel))
    accels := Function.update s.accels accel true
    revision := Function.update s.revision accel 0 }

/-- `arax_accel_init`. -/
def araxAccelInit (s : VaqState) (accel freeVaq : Nat) : Option VaqState :=
  araxVaccelInit (registerAccel s accel) freeVaq (some accel)

/-- The release of the last reference of a VAQ: its destructor, and then its memory is freed. -/
def releaseVaccel (s : VaqState) (vaccel : Nat) : Option VaqState :=
  let dtor := match s.phys vaccel with
    | some accel => araxAccelDelVaccel s accel vaccel
    | none => some (araxPipeRemoveOrphanVaccel s vaccel)
  dtor.map fun s => { s with vaccels := Function.update s.vaccels vaccel false }

/-- A call. Objects are named by their address, so an address is used again only after a release. -/
inductive VaqCall where
  | accelInit (accel freeVaq : Nat)
  | vaccelInit (vaccel : Nat) (accel : Option Nat)
  | getOrphan
  | addVaccel (accel vaccel : Nat)
  | delVaccel (accel vaccel : Nat)
  | addOrphan (vaccel : Nat)
  | release (vaccel : Nat)
  deriving DecidableEq

/-- A state of a run, and what its calls and their results were about. -/
structure VaqRun where
  state : VaqState
  /-- The last call about the VAQ was `arax_accel_del_vaccel`, or `arax_pipe_get_orphan_vaccel` and
  returned it. -/
  checkedOut : Nat → Bool
  /-- The calls that added a VAQ to the accelerator. -/
  additions : Nat → Nat
  /-- The calls, and the destructors, that removed one from it. -/
  removals : Nat → Nat

/-- A run starts with `arax_pipe_init`. -/
def runStart (memory : VaqState) : VaqRun where
  state := araxPipeInit memory
  checkedOut := fun _ => false
  additions := fun _ => 0
  removals := fun _ => 0

/-- One more addition to, or removal from, `accel`, if there is one. -/
def increment (count : Nat → Nat) : Option Nat → Nat → Nat
  | none => count
  | some accel => Function.update count accel (count accel + 1)

/-- One call, on objects of the right kind. A VAQ becomes an orphan again only if it is checked
out. Beside the new state it records what the call was and returned: a VAQ is checked out if it was
returned or deleted, and not if it was made or added; `arax_accel_add_vaccel` adds a VAQ without
`phys`, and a destructor removes one with `phys`. -/
def vaqStep (r : VaqRun) : VaqCall → Option VaqRun
  | .accelInit accel freeVaq =>
    if r.state.accels accel = false ∧ r.state.vaccels freeVaq = false then
      (araxAccelInit r.state accel freeVaq).map fun state =>
        { state
          checkedOut := Function.update r.checkedOut freeVaq false
          additions := Function.update r.additions accel 1
          removals := Function.update r.removals accel 0 }
    else none
  | .vaccelInit vaccel accel =>
    if r.state.vaccels vaccel = false ∧ accel.all r.state.accels then
      (araxVaccelInit r.state vaccel accel).map fun state =>
        { r with
          state
          checkedOut := Function.update r.checkedOut vaccel false
          additions := increment r.additions accel }
    else none
  | .getOrphan =>
    (araxPipeGetOrphanVaccel r.state).map fun (vac, state) =>
      { r with
        state
        checkedOut := match vac with
          | some vac => Function.update r.checkedOut vac true
          | none => r.checkedOut }
  | .addVaccel accel vaccel =>
    if r.state.accels accel ∧ r.state.vaccels vaccel then
      (araxAccelAddVaccel r.state accel vaccel).map fun state =>
        { r with
          state
          checkedOut := Function.update r.checkedOut vaccel false
          additions := if r.state.phys vaccel = none then increment r.additions (some accel)
            else r.additions }
    else none
  | .delVaccel accel vaccel =>
    if r.state.accels accel ∧ r.state.vaccels vaccel then
      (araxAccelDelVaccel r.state accel vaccel).map fun state =>
        { r with
          state
          checkedOut := Function.update r.checkedOut vaccel true
          removals := increment r.removals (some accel) }
    else none
  | .addOrphan vaccel =>
    if r.state.vaccels vaccel ∧ r.checkedOut vaccel then
      (araxPipeAddOrphanVaccel r.state vaccel).map fun state =>
        { r with state, checkedOut := Function.update r.checkedOut vaccel false }
    else none
  | .release vaccel =>
    if r.state.vaccels vaccel then
      (releaseVaccel r.state vaccel).map fun state =>
        { r with state, removals := increment r.removals (r.state.phys vaccel) }
    else none

/-! ### The invariant -/

/-- The list exists. -/
def Present (accels : Nat → Bool) : Owner → Prop
  | .orphans => True
  | .accel p => accels p

/-- What `vaccel->phys` is for the VAQs of a list. -/
def Owner.phys : Owner → Option Nat
  | .orphans => none
  | .accel p => some p

/-- The node of the VAQ is linked to itself: it was initialised or removed, and not added since. -/
def VaqState.unlinked (s : VaqState) (v : Nat) : Bool :=
  !utilsListNodeLinked s.lists.links (.vaccel v)

/-- The nodes of VAQs. -/
def nodes (vaqs : Owner → List Nat) (o : Owner) : List VaqNode := (vaqs o).map .vaccel

/-- The links and the lengths hold the VAQs `vaqs`. -/
structure Linked (lists : NodeLists VaqNode) (accels : Nat → Bool) (vaqs : Owner → List Nat) :
    Prop where
  rings : Rings lists.links .head (Present accels) (nodes vaqs)
  length : ∀ o, Present accels o → lists.length (.head o) = (vaqs o).length

/-- **The invariant.** `vaqs` are the VAQs of each list. -/
structure Owned (s : VaqState) (vaqs : Owner → List Nat) : Prop where
  linked : Linked s.lists s.accels vaqs
  live : ∀ o, Present s.accels o → ∀ v ∈ vaqs o, s.vaccels v
  /-- A VAQ in a list has the `phys` of this list. -/
  phys : ∀ o, Present s.accels o → ∀ v ∈ vaqs o, s.phys v = o.phys
  /-- A VAQ that is not linked is unassigned. -/
  unassigned : ∀ v, s.vaccels v → s.unlinked v → s.phys v = none
  /-- Every other one is in a list. -/
  listed : ∀ v, s.vaccels v → s.unlinked v = false → ∃ o, Present s.accels o ∧ v ∈ vaqs o

section Nodes

variable {vaqs : Owner → List Nat} {o : Owner} {v : Nat}

theorem mem_nodes : VaqNode.vaccel v ∈ nodes vaqs o ↔ v ∈ vaqs o := by
  simp [nodes]

theorem vaccel_mem_ring : VaqNode.vaccel v ∈ VaqNode.head o :: nodes vaqs o ↔ v ∈ vaqs o := by
  simp [nodes]

theorem head_mem_ring {o' : Owner} : VaqNode.head o' ∈ VaqNode.head o :: nodes vaqs o ↔ o' = o := by
  simp [nodes]

theorem nodes_put : nodes (Function.update vaqs o (v :: vaqs o)) =
    Function.update (nodes vaqs) o (.vaccel v :: nodes vaqs o) := by
  funext o'
  by_cases same : o' = o
  · subst same
    simp [nodes]
  · simp [nodes, same]

theorem nodes_take : nodes (Function.update vaqs o ((vaqs o).erase v)) =
    Function.update (nodes vaqs) o ((nodes vaqs o).erase (.vaccel v)) := by
  have injective : Function.Injective VaqNode.vaccel := fun _ _ same => VaqNode.vaccel.inj same
  funext o'
  by_cases same : o' = o
  · subst same
    simp [nodes, List.map_erase injective]
  · simp [nodes, same]

theorem nodes_empty : nodes (Function.update vaqs o []) = Function.update (nodes vaqs) o [] := by
  funext o'
  by_cases same : o' = o
  · subst same
    simp [nodes]
  · simp [nodes, same]

end Nodes

section Links

variable {lists : NodeLists VaqNode} {accels : Nat → Bool} {vaqs : Owner → List Nat} {o : Owner}
  {v : Nat}

/-- The length of one list changes. -/
theorem Linked.length_update (linked : Linked lists accels vaqs) {xs : List Nat} {count : Int}
    (here : count = xs.length) (o' : Owner) (there : Present accels o') :
    Function.update lists.length (.head o) count (.head o') =
      ((Function.update vaqs o xs o').length : Int) := by
  by_cases same : o' = o
  · rw [same, Function.update_self, Function.update_self]
    exact here
  · rw [Function.update_of_ne same, Function.update_of_ne (by simpa using same)]
    exact linked.length o' there

theorem Linked.inserted (linked : Linked lists accels vaqs) (here : Present accels o)
    (fresh : ∀ o', Present accels o' → v ∉ vaqs o') :
    Inserted lists.links (utilsListNodeAdd lists.links (.head o) (.vaccel v)) (.head o)
      (.vaccel v) :=
  ring_inserted (linked.rings.ring o here) (vaccel_mem_ring.not.mpr (fresh o here))

theorem Linked.removed (linked : Linked lists accels vaqs) (here : Present accels o)
    (member : v ∈ vaqs o) :
    Removed lists.links (utilsListUnlink lists.links (.vaccel v)) (.vaccel v) :=
  ring_removed (linked.rings.ring o here) (mem_nodes.mpr member)

/-- `utils_list_add` of a VAQ that is in no list. -/
theorem Linked.add (linked : Linked lists accels vaqs) (here : Present accels o)
    (fresh : ∀ o', Present accels o' → v ∉ vaqs o') :
    Linked (utilsListAdd lists (.head o) (.vaccel v)) accels
      (Function.update vaqs o (v :: vaqs o)) := by
  refine ⟨?_, linked.length_update ?_⟩
  · rw [nodes_put]
    exact linked.rings.insert here (fun o' there => vaccel_mem_ring.not.mpr (fresh o' there))
      (linked.inserted here fresh)
  · rw [linked.length o here, List.length_cons]
    omega

/-- `utils_list_del` of a VAQ that is in this list. -/
theorem Linked.del (linked : Linked lists accels vaqs) (here : Present accels o)
    (member : v ∈ vaqs o) :
    Linked (utilsListDel lists (.head o) (.vaccel v)) accels
      (Function.update vaqs o ((vaqs o).erase v)) := by
  refine ⟨?_, linked.length_update ?_⟩
  · rw [nodes_take]
    exact linked.rings.remove here (mem_nodes.mpr member) (linked.removed here member)
  · have some := List.length_pos_of_mem member
    rw [linked.length o here, List.length_erase_of_mem member]
    omega

/-- `utils_list_init` of a new list. -/
theorem Linked.extend {p : Nat} (linked : Linked lists accels vaqs) (fresh : accels p = false) :
    Linked (utilsListInit lists (.head (.accel p))) (Function.update accels p true)
      (Function.update vaqs (.accel p) []) := by
  have present : Present (Function.update accels p true) =
      fun o => o = .accel p ∨ Present accels o := by
    funext o
    cases o with
    | orphans => simp [Present]
    | accel q =>
      by_cases same : q = p
      · simp [Present, same]
      · simp [Present, same]
  have absent : ∀ o, Present accels o →
      VaqNode.head (.accel p) ∉ VaqNode.head o :: nodes vaqs o := by
    intro o there
    rw [head_mem_ring]
    rintro rfl
    rw [Present, fresh] at there
    cases there
  refine ⟨?_, fun o there => ?_⟩
  · rw [present, nodes_empty]
    refine Rings.extend (linked.rings.reset absent ?_ ?_) ?_ ?_ absent
    · exact fun x apart => Function.update_of_ne apart ..
    · exact fun x apart => Function.update_of_ne apart ..
    · exact Function.update_self ..
    · exact Function.update_self ..
  · rw [present] at there
    by_cases same : o = .accel p
    · rw [same, Function.update_self]
      exact Function.update_self ..
    · rw [Function.update_of_ne same]
      show Function.update lists.length _ _ _ = _
      rw [Function.update_of_ne (by simpa using same)]
      exact linked.length o (there.resolve_left same)

/-- `utils_list_node_init` of a VAQ that is in no list. -/
theorem Linked.node_init (linked : Linked lists accels vaqs)
    (fresh : ∀ o, Present accels o → v ∉ vaqs o) :
    Linked { lists with links := utilsListNodeInit lists.links (.vaccel v) } accels vaqs := by
  refine ⟨?_, linked.length⟩
  refine linked.rings.reset (fun o' there => vaccel_mem_ring.not.mpr (fresh o' there)) ?_ ?_
  · exact fun x apart => Function.update_of_ne apart ..
  · exact fun x apart => Function.update_of_ne apart ..

/-- The links of the node are as before. -/
theorem unlinked_congr {s t : VaqState}
    (same : t.lists.links.next (.vaccel v) = s.lists.links.next (.vaccel v)) :
    t.unlinked v = s.unlinked v := by
  unfold VaqState.unlinked utilsListNodeLinked
  rw [same]

theorem unlinked_of_self {s : VaqState} (self : s.lists.links.next (.vaccel v) = .vaccel v) :
    s.unlinked v = true := by
  simp [VaqState.unlinked, utilsListNodeLinked, self]

theorem next_of_unlinked {s : VaqState} (away : s.unlinked v) :
    s.lists.links.next (.vaccel v) = .vaccel v := by
  simpa [VaqState.unlinked, utilsListNodeLinked] using away

/-- A VAQ in a list is linked. -/
theorem Linked.member_linked {s : VaqState} (linked : Linked s.lists accels vaqs)
    (here : Present accels o) (member : v ∈ vaqs o) : s.unlinked v = false := by
  have apart := (linked.rings.ring o here).next_ne (mem_nodes.mpr member)
  by_contra away
  exact apart (next_of_unlinked (by simpa using away))

/-- `utils_list_add` links its node, and changes no other VAQ. -/
theorem Linked.add_unlinked {s t : VaqState} (linked : Linked s.lists accels vaqs)
    (here : Present accels o) (fresh : ∀ o', Present accels o' → v ∉ vaqs o')
    (lists : t.lists = utilsListAdd s.lists (.head o) (.vaccel v)) :
    t.unlinked = Function.update s.unlinked v false := by
  have linked' := linked.add here fresh
  rw [← lists] at linked'
  funext w
  by_cases same : w = v
  · subst same
    rw [Function.update_self]
    exact linked'.member_linked here (by simp)
  · rw [Function.update_of_ne same]
    apply unlinked_congr
    rw [lists]
    exact (linked.inserted here fresh).next_other _ (by simpa using same) (by simp)

/-- `utils_list_del` leaves its node alone, and changes no other VAQ. -/
theorem Linked.del_unlinked {s t : VaqState} (linked : Linked s.lists accels vaqs)
    (here : Present accels o) (member : v ∈ vaqs o)
    (lists : t.lists = utilsListDel s.lists (.head o) (.vaccel v)) :
    t.unlinked = Function.update s.unlinked v true := by
  have linked' := linked.del here member
  rw [← lists] at linked'
  funext w
  by_cases same : w = v
  · subst same
    rw [Function.update_self]
    apply unlinked_of_self
    rw [lists]
    exact unlink_next_self
  · rw [Function.update_of_ne same]
    by_cases beside : w ∈ vaqs o
    · -- a VAQ of the same list may be next to it, and is still linked
      rw [linked.member_linked here beside]
      refine linked'.member_linked here ?_
      rw [Function.update_self]
      exact (List.mem_erase_of_ne same).mpr beside
    · apply unlinked_congr
      rw [lists]
      refine (linked.removed here member).next_other _ (by simpa using same) fun before => beside ?_
      -- what is before a listed VAQ is its head or a listed VAQ
      have ring := (linked.rings.ring o here).prev_mem (vaccel_mem_ring.mpr member)
      rwa [← before, vaccel_mem_ring] at ring

/-- The VAQs are in one list only. -/
theorem Linked.unique (linked : Linked lists accels vaqs) {o' : Owner} (here : Present accels o)
    (there : Present accels o') (member : v ∈ vaqs o) (member' : v ∈ vaqs o') : o' = o := by
  by_contra apart
  exact linked.rings.apart o' o there here apart (vaccel_mem_ring.mpr member')
    (vaccel_mem_ring.mpr member)

end Links

section Moves

variable {s t : VaqState} {vaqs : Owner → List Nat} {o : Owner} {v : Nat}

/-- A VAQ that is not linked, or not alive, is in no list. -/
theorem Owned.not_mem (owned : Owned s vaqs) (here : Present s.accels o)
    (away : s.unlinked v ∨ s.vaccels v = false) : v ∉ vaqs o := by
  intro member
  rcases away with unlinked | dead
  · rw [owned.linked.member_linked here member] at unlinked
    cases unlinked
  · rw [owned.live o here v member] at dead
    cases dead

/-- **Insertion** of a VAQ that is not linked. -/
theorem Owned.put (owned : Owned s vaqs) (live : s.vaccels v) (away : s.unlinked v)
    (here : Present s.accels o) (lists : t.lists = utilsListAdd s.lists (.head o) (.vaccel v))
    (accels : t.accels = s.accels) (vaccels : t.vaccels = s.vaccels)
    (phys : t.phys = Function.update s.phys v o.phys) :
    Owned t (Function.update vaqs o (v :: vaqs o)) ∧
      t.unlinked = Function.update s.unlinked v false := by
  have fresh : ∀ o', Present s.accels o' → v ∉ vaqs o' := fun o' there =>
    owned.not_mem there (.inl away)
  have unlinked := owned.linked.add_unlinked here fresh lists
  have member : ∀ o' w, w ∈ Function.update vaqs o (v :: vaqs o) o' ↔
      w ∈ vaqs o' ∨ (o' = o ∧ w = v) := by
    intro o' w
    by_cases same : o' = o
    · subst same
      simp [or_comm]
    · simp [same]
  refine ⟨⟨?_, ?_, ?_, ?_, ?_⟩, unlinked⟩
  · rw [lists, accels]
    exact owned.linked.add here fresh
  · intro o' there w inside
    rw [accels] at there
    rw [vaccels]
    rcases (member o' w).mp inside with old | ⟨-, rfl⟩
    · exact owned.live o' there w old
    · exact live
  · intro o' there w inside
    rw [accels] at there
    rw [phys]
    rcases (member o' w).mp inside with old | ⟨rfl, rfl⟩
    · have apart : w ≠ v := fun same => fresh o' there (same ▸ old)
      rw [Function.update_of_ne apart]
      exact owned.phys o' there w old
    · exact Function.update_self ..
  · intro w alive outside
    rw [vaccels] at alive
    rw [unlinked, Function.update_apply] at outside
    split_ifs at outside with apart
    rw [phys, Function.update_of_ne apart]
    exact owned.unassigned w alive outside
  · intro w alive inside
    rw [vaccels] at alive
    rw [unlinked] at inside
    rw [accels]
    by_cases same : w = v
    · exact ⟨o, here, (member o w).mpr (.inr ⟨rfl, same⟩)⟩
    · rw [Function.update_of_ne same] at inside
      obtain ⟨o', there, listed⟩ := owned.listed w alive inside
      exact ⟨o', there, (member o' w).mpr (.inl listed)⟩

/-- **Removal** of a VAQ from its list. -/
theorem Owned.take (owned : Owned s vaqs) (inside : v ∈ vaqs o) (here : Present s.accels o)
    (lists : t.lists = utilsListDel s.lists (.head o) (.vaccel v))
    (accels : t.accels = s.accels) (vaccels : t.vaccels = s.vaccels)
    (phys : t.phys = Function.update s.phys v none) :
    Owned t (Function.update vaqs o ((vaqs o).erase v)) ∧
      t.unlinked = Function.update s.unlinked v true := by
  have distinct : (vaqs o).Nodup :=
    List.Nodup.of_map _ (List.nodup_cons.mp (owned.linked.rings.ring o here).nodup).2
  have unlinked := owned.linked.del_unlinked here inside lists
  have member : ∀ o', Present s.accels o' → ∀ w,
      w ∈ Function.update vaqs o ((vaqs o).erase v) o' ↔ w ∈ vaqs o' ∧ w ≠ v := by
    intro o' there w
    by_cases same : o' = o
    · rw [same, Function.update_self, distinct.mem_erase_iff, and_comm]
    · rw [Function.update_of_ne same]
      refine ⟨fun member => ⟨member, ?_⟩, And.left⟩
      rintro rfl
      exact same (owned.linked.unique here there inside member)
  refine ⟨⟨?_, ?_, ?_, ?_, ?_⟩, unlinked⟩
  · rw [lists, accels]
    exact owned.linked.del here inside
  · intro o' there w listed
    rw [accels] at there
    rw [vaccels]
    exact owned.live o' there w ((member o' there w).mp listed).1
  · intro o' there w listed
    rw [accels] at there
    obtain ⟨old, apart⟩ := (member o' there w).mp listed
    rw [phys, Function.update_of_ne apart]
    exact owned.phys o' there w old
  · intro w alive outside
    rw [vaccels] at alive
    rw [unlinked] at outside
    rw [phys]
    by_cases same : w = v
    · rw [same, Function.update_self]
    · rw [Function.update_of_ne same] at outside ⊢
      exact owned.unassigned w alive outside
  · intro w alive listed
    rw [vaccels] at alive
    rw [unlinked] at listed
    rw [accels]
    have apart : w ≠ v := by
      rintro rfl
      rw [Function.update_self] at listed
      cases listed
    rw [Function.update_of_ne apart] at listed
    obtain ⟨o', there, old⟩ := owned.listed w alive listed
    exact ⟨o', there, (member o' there w).mpr ⟨old, apart⟩⟩

/-- `utils_list_node_init` leaves its node alone. -/
theorem register_unlinked : (registerVaccel s v).unlinked = Function.update s.unlinked v true := by
  funext w
  by_cases same : w = v
  · subst same
    rw [Function.update_self]
    exact unlinked_of_self (Function.update_self ..)
  · rw [Function.update_of_ne same]
    exact unlinked_congr (Function.update_of_ne (by simpa using same) ..)

/-- A new VAQ is in no list yet. -/
theorem Owned.register (owned : Owned s vaqs) (dead : s.vaccels v = false) :
    Owned (registerVaccel s v) vaqs := by
  have fresh : ∀ o, Present s.accels o → ∀ w ∈ vaqs o, w ≠ v := by
    rintro o here w member rfl
    exact owned.not_mem here (.inr dead) member
  have old : ∀ w, w ≠ v → (registerVaccel s v).vaccels w → s.vaccels w := by
    intro w apart alive
    change Function.update s.vaccels v true w = true at alive
    rwa [Function.update_of_ne apart] at alive
  refine ⟨owned.linked.node_init fun o here member => fresh o here v member rfl, ?_, ?_, ?_, ?_⟩
  · intro o here w member
    show Function.update s.vaccels v true w = true
    rw [Function.update_of_ne (fresh o here w member)]
    exact owned.live o here w member
  · intro o here w member
    show Function.update s.phys v none w = _
    rw [Function.update_of_ne (fresh o here w member)]
    exact owned.phys o here w member
  · intro w alive outside
    rw [register_unlinked] at outside
    show Function.update s.phys v none w = _
    by_cases same : w = v
    · rw [same, Function.update_self]
    · rw [Function.update_of_ne same] at outside
      rw [Function.update_of_ne same]
      exact owned.unassigned w (old w same alive) outside
  · intro w alive listed
    rw [register_unlinked] at listed
    have apart : w ≠ v := by
      rintro rfl
      rw [Function.update_self] at listed
      cases listed
    rw [Function.update_of_ne apart] at listed
    exact owned.listed w (old w apart alive) listed

/-- A VAQ that is not linked is freed. -/
theorem Owned.forget (owned : Owned s vaqs) (away : s.unlinked v) :
    Owned { s with vaccels := Function.update s.vaccels v false } vaqs := by
  have old : ∀ w, Function.update s.vaccels v false w → s.vaccels w := by
    intro w alive
    by_cases same : w = v
    · rw [same, Function.update_self] at alive
      cases alive
    · rwa [Function.update_of_ne same] at alive
  refine ⟨owned.linked, ?_, owned.phys, fun w alive => owned.unassigned w (old w alive),
    fun w alive => owned.listed w (old w alive)⟩
  intro o here w member
  have apart : w ≠ v := by
    rintro rfl
    exact owned.not_mem here (.inl away) member
  show Function.update s.vaccels v false w = true
  rw [Function.update_of_ne apart]
  exact owned.live o here w member

theorem register_accel_unlinked {p : Nat} : (registerAccel s p).unlinked = s.unlinked := by
  funext w
  have apart : VaqNode.vaccel w ≠ .head (.accel p) := by simp
  exact unlinked_congr (Function.update_of_ne apart (.head (.accel p)) s.lists.links.next)

/-- A new physical accelerator. -/
theorem Owned.register_accel {p : Nat} (owned : Owned s vaqs) (fresh : s.accels p = false) :
    Owned (registerAccel s p) (Function.update vaqs (.accel p) []) := by
  have old : ∀ o, Present (Function.update s.accels p true) o → ∀ w,
      w ∈ Function.update vaqs (.accel p) [] o → Present s.accels o ∧ w ∈ vaqs o := by
    intro o here w member
    by_cases same : o = .accel p
    · rw [same, Function.update_self] at member
      cases member
    · rw [Function.update_of_ne same] at member
      refine ⟨?_, member⟩
      cases o with
      | orphans => trivial
      | accel q =>
        rw [Present, Function.update_of_ne (by simpa using same)] at here
        exact here
  refine ⟨owned.linked.extend fresh, ?_, ?_, ?_, ?_⟩
  · intro o here w member
    obtain ⟨there, member⟩ := old o here w member
    exact owned.live o there w member
  · intro o here w member
    obtain ⟨there, member⟩ := old o here w member
    exact owned.phys o there w member
  · intro w alive outside
    rw [register_accel_unlinked] at outside
    exact owned.unassigned w alive outside
  · intro w alive listed
    rw [register_accel_unlinked] at listed
    obtain ⟨o, here, member⟩ := owned.listed w alive listed
    have apart : o ≠ .accel p := by
      rintro rfl
      rw [Present, fresh] at here
      cases here
    refine ⟨o, ?_, ?_⟩
    · cases o with
      | orphans => trivial
      | accel q =>
        show Function.update s.accels p true q = true
        rw [Function.update_of_ne (by simpa using apart)]
        exact here
    · rw [Function.update_of_ne apart]
      exact member

end Moves

/-! ### The calls -/

section Calls

variable {s t : VaqState} {vaqs : Owner → List Nat} {p v : Nat}

/-- A VAQ that is assigned to nothing, but linked, is an orphan. -/
theorem Owned.orphan (owned : Owned s vaqs) (alive : s.vaccels v) (unassigned : s.phys v = none)
    (listed : s.unlinked v = false) : v ∈ vaqs .orphans := by
  obtain ⟨o, here, member⟩ := owned.listed v alive listed
  have phys := owned.phys o here v member
  rw [unassigned] at phys
  cases o with
  | orphans => exact member
  | accel q => cases phys

/-- A VAQ with a `phys` is in the list of this accelerator. -/
theorem Owned.assigned (owned : Owned s vaqs) (alive : s.vaccels v) (phys : s.phys v = some p) :
    s.accels p ∧ v ∈ vaqs (.accel p) := by
  have listed : s.unlinked v = false := by
    by_contra away
    rw [owned.unassigned v alive (by simpa using away)] at phys
    cases phys
  obtain ⟨o, here, member⟩ := owned.listed v alive listed
  have phys' := owned.phys o here v member
  rw [phys] at phys'
  cases o with
  | orphans => cases phys'
  | accel q =>
    cases phys'
    exact ⟨here, member⟩

/-- **`arax_pipe_remove_orphan_vaccel`.** A VAQ without `phys` that is linked is an orphan. -/
theorem removeOrphan_owned (owned : Owned s vaqs) (alive : s.vaccels v)
    (unassigned : s.phys v = none) :
    Owned (araxPipeRemoveOrphanVaccel s v)
      (Function.update vaqs .orphans ((vaqs .orphans).erase v)) ∧
    (araxPipeRemoveOrphanVaccel s v).unlinked = Function.update s.unlinked v true := by
  unfold araxPipeRemoveOrphanVaccel
  split_ifs with linked
  · have listed : s.unlinked v = false := by
      rw [VaqState.unlinked, linked]
      rfl
    refine owned.take (owned.orphan alive unassigned listed) trivial rfl rfl rfl ?_
    rw [← unassigned, Function.update_eq_self]
  · have away : s.unlinked v = true := by
      rw [VaqState.unlinked, Bool.not_eq_true _ |>.mp linked]
      rfl
    refine ⟨?_, ?_⟩
    · rw [List.erase_of_not_mem (owned.not_mem (o := .orphans) trivial (.inl away)),
        Function.update_eq_self]
      exact owned
    · rw [← away, Function.update_eq_self]

@[simp] theorem removeOrphan_phys : (araxPipeRemoveOrphanVaccel s v).phys = s.phys := by
  unfold araxPipeRemoveOrphanVaccel
  split_ifs <;> rfl

@[simp] theorem removeOrphan_accels : (araxPipeRemoveOrphanVaccel s v).accels = s.accels := by
  unfold araxPipeRemoveOrphanVaccel
  split_ifs <;> rfl

@[simp] theorem removeOrphan_vaccels : (araxPipeRemoveOrphanVaccel s v).vaccels = s.vaccels := by
  unfold araxPipeRemoveOrphanVaccel
  split_ifs <;> rfl

@[simp] theorem removeOrphan_revision :
    (araxPipeRemoveOrphanVaccel s v).revision = s.revision := by
  unfold araxPipeRemoveOrphanVaccel
  split_ifs <;> rfl

/-- **`arax_pipe_add_orphan_vaccel`** of a VAQ that is not linked. -/
theorem addOrphan_owned (owned : Owned s vaqs) (alive : s.vaccels v) (away : s.unlinked v)
    (step : araxPipeAddOrphanVaccel s v = some t) :
    Owned t (Function.update vaqs .orphans (v :: vaqs .orphans)) ∧
      t.unlinked = Function.update s.unlinked v false := by
  unfold araxPipeAddOrphanVaccel at step
  split_ifs at step with unassigned
  cases step
  refine owned.put (o := .orphans) alive away trivial rfl rfl rfl ?_
  show s.phys = Function.update s.phys v none
  rw [← unassigned, Function.update_eq_self]

/-- **`arax_accel_add_vaccel`** of a VAQ that is assigned to nothing. -/
theorem addVaccel_owned (owned : Owned s vaqs) (alive : s.vaccels v) (here : s.accels p)
    (unassigned : s.phys v = none) (step : araxAccelAddVaccel s p v = some t) :
    Owned t (Function.update (Function.update vaqs .orphans ((vaqs .orphans).erase v)) (.accel p)
      (v :: vaqs (.accel p))) ∧ t.unlinked = Function.update s.unlinked v false := by
  unfold araxAccelAddVaccel at step
  simp only [removeOrphan_phys, unassigned, reduceCtorEq, ne_eq, not_false_eq_true, if_true,
    if_false] at step
  cases step
  obtain ⟨removed, away⟩ := removeOrphan_owned owned alive unassigned
  have put := removed.put (o := .accel p) (by simpa using alive) (by rw [away]; simp)
    (by simpa [Present] using here) (t := { araxPipeRemoveOrphanVaccel s v with
      lists := utilsListAdd (araxPipeRemoveOrphanVaccel s v).lists (.head (.accel p)) (.vaccel v)
      phys := Function.update s.phys v (some p)
      revision := incRevision (araxPipeRemoveOrphanVaccel s v).revision p })
    rfl rfl rfl (by rw [removeOrphan_phys]; rfl)
  rw [away, Function.update_idem] at put
  exact put

theorem addVaccel_phys (unassigned : s.phys v = none) (step : araxAccelAddVaccel s p v = some t) :
    t.phys = Function.update s.phys v (some p) := by
  unfold araxAccelAddVaccel at step
  simp only [removeOrphan_phys, unassigned, reduceCtorEq, ne_eq, not_false_eq_true, if_true,
    if_false] at step
  cases step
  rfl

/-- A call that returns at once, or fails its assertion. -/
theorem addVaccel_assigned {q : Nat} (assigned : s.phys v = some q)
    (step : araxAccelAddVaccel s p v = some t) : q = p ∧ t = s := by
  unfold araxAccelAddVaccel at step
  simp only [assigned, reduceCtorEq, if_false, Option.some.injEq] at step
  split_ifs at step with same
  exact ⟨same, (Option.some.inj step).symm⟩

/-- **`arax_accel_del_vaccel`.** -/
theorem delVaccel_owned (owned : Owned s vaqs) (alive : s.vaccels v)
    (step : araxAccelDelVaccel s p v = some t) :
    Owned t (Function.update vaqs (.accel p) ((vaqs (.accel p)).erase v)) ∧
      t.unlinked = Function.update s.unlinked v true := by
  unfold araxAccelDelVaccel at step
  split_ifs at step with phys
  cases step
  obtain ⟨here, member⟩ := owned.assigned alive phys
  exact owned.take member here rfl rfl rfl rfl

/-- **`arax_pipe_get_orphan_vaccel`** returns the first orphan, and its assertion holds. -/
theorem getOrphan_owned (owned : Owned s vaqs) :
    ∃ t, araxPipeGetOrphanVaccel s = some ((vaqs .orphans).head?, t) ∧
      Owned t (Function.update vaqs .orphans (vaqs .orphans).tail) ∧ t.phys = s.phys ∧
      t.unlinked = match (vaqs .orphans).head? with
        | some v => Function.update s.unlinked v true
        | none => s.unlinked := by
  have ring := owned.linked.rings.ring .orphans trivial
  have count := owned.linked.length .orphans trivial
  unfold araxPipeGetOrphanVaccel utilsListPopHead
  cases orphans : vaqs .orphans with
  | nil =>
    rw [orphans] at count
    rw [if_pos (by simpa using count)]
    refine ⟨s, rfl, ?_, rfl, rfl⟩
    rw [List.tail_nil, ← orphans, Function.update_eq_self]
    exact owned
  | cons v rest =>
    have member : v ∈ vaqs .orphans := by simp [orphans]
    have unassigned : s.phys v = none := owned.phys .orphans trivial v member
    have first : s.lists.links.next (.head .orphans) = .vaccel v := by
      have nodes' : nodes vaqs .orphans = .vaccel v :: rest.map .vaccel := by
        simp [nodes, orphans]
      rw [nodes'] at ring
      exact ring.next_head
    rw [orphans] at count
    rw [if_neg (by simp [count]; omega)]
    simp only [first]
    rw [if_pos unassigned]
    have phys : s.phys = Function.update s.phys v none := by
      rw [← unassigned, Function.update_eq_self]
    obtain ⟨taken, unlinked⟩ := owned.take member trivial
      (t := { s with lists := utilsListDel s.lists (.head .orphans) (.vaccel v) }) rfl rfl rfl phys
    rw [orphans, List.erase_cons_head] at taken
    exact ⟨_, rfl, taken, rfl, unlinked⟩

/-- **`arax_vaccel_init`.** -/
theorem vaccelInit_owned (owned : Owned s vaqs) (dead : s.vaccels v = false) {accel : Option Nat}
    (here : accel.all s.accels) (step : araxVaccelInit s v accel = some t) :
    (∃ vaqs', Owned t vaqs') ∧ t.unlinked = Function.update s.unlinked v false := by
  have registered := owned.register dead
  have alive : (registerVaccel s v).vaccels v = true := Function.update_self ..
  cases accel with
  | none =>
    have away : (registerVaccel s v).unlinked v = true := by
      rw [register_unlinked, Function.update_self]
    obtain ⟨owned', unlinked⟩ := addOrphan_owned registered alive away step
    rw [register_unlinked, Function.update_idem] at unlinked
    exact ⟨⟨_, owned'⟩, unlinked⟩
  | some p =>
    have there : s.accels p = true := by simpa using here
    obtain ⟨owned', unlinked⟩ :=
      addVaccel_owned registered alive there (Function.update_self ..) step
    rw [register_unlinked, Function.update_idem] at unlinked
    exact ⟨⟨_, owned'⟩, unlinked⟩

/-- **The release of the last reference** of a VAQ. -/
theorem release_owned (owned : Owned s vaqs) (alive : s.vaccels v)
    (step : releaseVaccel s v = some t) :
    (∃ vaqs', Owned t vaqs') ∧ t.unlinked = Function.update s.unlinked v true := by
  unfold releaseVaccel at step
  obtain ⟨u, dtor, rfl⟩ := Option.map_eq_some_iff.mp step
  have after : ∃ vaqs', Owned u vaqs' ∧ u.unlinked = Function.update s.unlinked v true := by
    cases phys : s.phys v with
    | none =>
      rw [phys] at dtor
      cases dtor
      exact ⟨_, removeOrphan_owned owned alive phys⟩
    | some p =>
      rw [phys] at dtor
      exact ⟨_, delVaccel_owned owned alive dtor⟩
  obtain ⟨vaqs', removed, unlinked⟩ := after
  refine ⟨⟨vaqs', removed.forget ?_⟩, unlinked⟩
  rw [unlinked, Function.update_self]

end Calls

/-! ### The objects and the revisions -/

/-- `arax_accel_inc_revision` of the accelerator, if there is one. -/
def incRevisions (revision : Nat → Nat) : Option Nat → Nat → Nat
  | none => revision
  | some accel => incRevision revision accel

section Frames

variable {s t : VaqState} {p v : Nat}

theorem addOrphan_frame (step : araxPipeAddOrphanVaccel s v = some t) :
    t.accels = s.accels ∧ t.vaccels = s.vaccels ∧ t.revision = s.revision := by
  unfold araxPipeAddOrphanVaccel at step
  split_ifs at step
  cases step
  exact ⟨rfl, rfl, rfl⟩

theorem getOrphan_frame {vac : Option Nat} (step : araxPipeGetOrphanVaccel s = some (vac, t)) :
    t.accels = s.accels ∧ t.vaccels = s.vaccels ∧ t.revision = s.revision := by
  unfold araxPipeGetOrphanVaccel at step
  split at step
  · cases step
    exact ⟨rfl, rfl, rfl⟩
  · split_ifs at step
    cases step
    exact ⟨rfl, rfl, rfl⟩
  · cases step

theorem addVaccel_frame (unassigned : s.phys v = none)
    (step : araxAccelAddVaccel s p v = some t) :
    t.accels = s.accels ∧ t.vaccels = s.vaccels ∧ t.revision = incRevision s.revision p := by
  unfold araxAccelAddVaccel at step
  simp only [removeOrphan_phys, unassigned, reduceCtorEq, ne_eq, not_false_eq_true, if_true,
    if_false] at step
  cases step
  exact ⟨removeOrphan_accels, removeOrphan_vaccels, by rw [removeOrphan_revision]⟩

theorem delVaccel_frame (step : araxAccelDelVaccel s p v = some t) :
    t.accels = s.accels ∧ t.vaccels = s.vaccels ∧ t.revision = incRevision s.revision p := by
  unfold araxAccelDelVaccel at step
  split_ifs at step
  cases step
  exact ⟨rfl, rfl, rfl⟩

theorem vaccelInit_frame {accel : Option Nat} (step : araxVaccelInit s v accel = some t) :
    t.accels = s.accels ∧ t.vaccels = Function.update s.vaccels v true ∧
      t.revision = incRevisions s.revision accel := by
  cases accel with
  | none => exact addOrphan_frame step
  | some p => exact addVaccel_frame (Function.update_self ..) step

theorem release_frame (step : releaseVaccel s v = some t) :
    t.accels = s.accels ∧ t.vaccels = Function.update s.vaccels v false ∧
      t.revision = incRevisions s.revision (s.phys v) := by
  unfold releaseVaccel at step
  obtain ⟨u, dtor, rfl⟩ := Option.map_eq_some_iff.mp step
  have frame : u.accels = s.accels ∧ u.vaccels = s.vaccels ∧
      u.revision = incRevisions s.revision (s.phys v) := by
    cases phys : s.phys v with
    | none =>
      rw [phys] at dtor
      cases dtor
      exact ⟨removeOrphan_accels, removeOrphan_vaccels, removeOrphan_revision⟩
    | some p =>
      rw [phys] at dtor
      exact delVaccel_frame dtor
  refine ⟨frame.1, ?_, frame.2.2⟩
  rw [← frame.2.1]

end Frames

/-! ### What a run records -/

/-- The VAQs that are checked out are those whose nodes are linked to themselves. -/
def Recorded (r : VaqRun) : Prop :=
  ∀ v, r.state.vaccels v → r.checkedOut v = r.state.unlinked v

/-- The revision of an accelerator counts the additions to it and the removals from it, as a
`size_t`. -/
def Revised (r : VaqRun) : Prop :=
  ∀ p, r.state.accels p → r.state.revision p = (r.additions p + r.removals p) % 2 ^ 64

section Records

variable {r r' : VaqRun} {v : Nat}

/-- The call is about `v`. -/
theorem Recorded.changed (recorded : Recorded r) {out : Bool}
    (vaccels : ∀ w, w ≠ v → r'.state.vaccels w → r.state.vaccels w)
    (checkedOut : r'.checkedOut = Function.update r.checkedOut v out)
    (unlinked : r'.state.unlinked = Function.update r.state.unlinked v out) : Recorded r' := by
  intro w alive
  rw [checkedOut, unlinked]
  by_cases same : w = v
  · rw [same, Function.update_self, Function.update_self]
  · rw [Function.update_of_ne same, Function.update_of_ne same]
    exact recorded w (vaccels w same alive)

theorem increment_apply (count : Nat → Nat) (accel : Option Nat) (q : Nat) :
    increment count accel q = count q + if accel = some q then 1 else 0 := by
  cases accel with
  | none => rfl
  | some p =>
    by_cases same : p = q
    · subst same
      simp [increment]
    · simp [increment, same, Function.update_of_ne (Ne.symm same)]

/-- One more addition to, or removal from, `accel`. -/
theorem Revised.changed (revised : Revised r) (accel : Option Nat)
    (accels : r'.state.accels = r.state.accels)
    (revision : r'.state.revision = incRevisions r.state.revision accel)
    (count : ∀ q, r'.additions q + r'.removals q =
      r.additions q + r.removals q + if accel = some q then 1 else 0) : Revised r' := by
  intro q here
  rw [accels] at here
  have before := revised q here
  rw [revision, count]
  cases accel with
  | none => exact before
  | some p =>
    show Function.update r.state.revision p ((r.state.revision p + 1) % 2 ^ 64) q = _
    by_cases same : q = p
    · subst same
      rw [Function.update_self, if_pos rfl, before]
      omega
    · rw [Function.update_of_ne same, if_neg (by simpa using Ne.symm same)]
      exact before

/-- What holds after every call. -/
structure RunInv (r : VaqRun) : Prop where
  owned : ∃ vaqs, Owned r.state vaqs
  recorded : Recorded r
  revised : Revised r

/-- **Every call keeps the invariant.** -/
theorem vaqStep_inv {call : VaqCall} (inv : RunInv r) (step : vaqStep r call = some r') :
    RunInv r' := by
  obtain ⟨⟨vaqs, owned⟩, recorded, revised⟩ := inv
  cases call with
  | accelInit p v =>
    simp only [vaqStep] at step
    split_ifs at step with fresh
    obtain ⟨s, init, rfl⟩ := Option.map_eq_some_iff.mp step
    obtain ⟨owned', unlinked⟩ := vaccelInit_owned (owned.register_accel fresh.1) fresh.2
      (by simp [registerAccel]) init
    obtain ⟨accels, vaccels, revision⟩ := vaccelInit_frame init
    rw [register_accel_unlinked] at unlinked
    refine ⟨owned', recorded.changed (v := v) (fun w apart alive => ?_) rfl unlinked,
      fun q here => ?_⟩
    · change s.vaccels w = true at alive
      rw [vaccels, Function.update_of_ne apart] at alive
      exact alive
    · change s.accels q = true at here
      show s.revision q = (Function.update r.additions p 1 q +
        Function.update r.removals p 0 q) % 2 ^ 64
      rw [revision]
      show Function.update (Function.update r.state.revision p 0) p _ q = _
      rw [accels] at here
      change Function.update r.state.accels p true q = true at here
      by_cases same : q = p
      · subst same
        simp [registerAccel]
      · rw [Function.update_of_ne same] at here
        simp only [Function.update_of_ne same]
        exact revised q here
  | vaccelInit v accel =>
    simp only [vaqStep] at step
    split_ifs at step with fresh
    obtain ⟨s, init, rfl⟩ := Option.map_eq_some_iff.mp step
    obtain ⟨owned', unlinked⟩ := vaccelInit_owned owned fresh.1 fresh.2 init
    obtain ⟨accels, vaccels, revision⟩ := vaccelInit_frame init
    refine ⟨owned', recorded.changed (v := v) (fun w apart alive => ?_) rfl unlinked,
      revised.changed _ accels revision fun q => ?_⟩
    · change s.vaccels w = true at alive
      rw [vaccels, Function.update_of_ne apart] at alive
      exact alive
    · show increment r.additions accel q + r.removals q = _
      rw [increment_apply]
      omega
  | getOrphan =>
    obtain ⟨⟨vac, s⟩, result, rfl⟩ := Option.map_eq_some_iff.mp step
    obtain ⟨t, result', owned', -, unlinked⟩ := getOrphan_owned owned
    rw [result] at result'
    obtain ⟨rfl, rfl⟩ := Prod.mk.inj (Option.some.inj result')
    obtain ⟨accels, vaccels, revision⟩ := getOrphan_frame result
    refine ⟨⟨_, owned'⟩, ?_, revised.changed none accels revision fun q => by simp⟩
    cases first : (vaqs .orphans).head? with
    | none =>
      rw [first] at unlinked
      intro w alive
      show r.checkedOut w = s.unlinked w
      rw [unlinked]
      exact recorded w (by rw [← vaccels]; exact alive)
    | some v =>
      rw [first] at unlinked
      exact recorded.changed (v := v) (fun w _ alive => by rw [← vaccels]; exact alive) rfl unlinked
  | addVaccel p v =>
    simp only [vaqStep] at step
    split_ifs at step with alive phys
    · obtain ⟨s, added, rfl⟩ := Option.map_eq_some_iff.mp step
      obtain ⟨owned', unlinked⟩ := addVaccel_owned owned alive.2 alive.1 phys added
      obtain ⟨accels, vaccels, revision⟩ := addVaccel_frame phys added
      refine ⟨⟨_, owned'⟩,
        recorded.changed (v := v) (fun w _ alive => by rw [← vaccels]; exact alive) rfl unlinked,
        revised.changed (some p) accels revision fun q => ?_⟩
      show increment r.additions (some p) q + r.removals q = _
      rw [increment_apply]
      omega
    · obtain ⟨s, added, rfl⟩ := Option.map_eq_some_iff.mp step
      obtain ⟨q, assigned⟩ := Option.ne_none_iff_exists'.mp phys
      obtain ⟨-, rfl⟩ := addVaccel_assigned assigned added
      obtain ⟨here, member⟩ := owned.assigned alive.2 assigned
      have linked := owned.linked.member_linked (o := .accel q) here member
      refine ⟨⟨_, owned⟩, recorded.changed (v := v) (fun _ _ => id) rfl ?_,
        revised.changed none rfl rfl fun q => by simp⟩
      rw [← linked, Function.update_eq_self]
  | delVaccel p v =>
    simp only [vaqStep] at step
    split_ifs at step with alive
    obtain ⟨s, deleted, rfl⟩ := Option.map_eq_some_iff.mp step
    obtain ⟨owned', unlinked⟩ := delVaccel_owned owned alive.2 deleted
    obtain ⟨accels, vaccels, revision⟩ := delVaccel_frame deleted
    refine ⟨⟨_, owned'⟩,
      recorded.changed (v := v) (fun w _ alive => by rw [← vaccels]; exact alive) rfl unlinked,
      revised.changed (some p) accels revision fun q => ?_⟩
    show r.additions q + increment r.removals (some p) q = _
    rw [increment_apply]
    omega
  | addOrphan v =>
    simp only [vaqStep] at step
    split_ifs at step with alive
    obtain ⟨s, added, rfl⟩ := Option.map_eq_some_iff.mp step
    have away : r.state.unlinked v = true := by
      rw [← recorded v alive.1]
      exact alive.2
    obtain ⟨owned', unlinked⟩ := addOrphan_owned owned alive.1 away added
    obtain ⟨accels, vaccels, revision⟩ := addOrphan_frame added
    exact ⟨⟨_, owned'⟩,
      recorded.changed (v := v) (fun w _ alive => by rw [← vaccels]; exact alive) rfl unlinked,
      revised.changed none accels revision fun q => by simp⟩
  | release v =>
    simp only [vaqStep] at step
    split_ifs at step with alive
    obtain ⟨s, released, rfl⟩ := Option.map_eq_some_iff.mp step
    obtain ⟨owned', unlinked⟩ := release_owned owned alive released
    obtain ⟨accels, vaccels, revision⟩ := release_frame released
    refine ⟨owned', fun w alive => ?_, revised.changed _ accels revision fun q => ?_⟩
    · change s.vaccels w = true at alive
      show r.checkedOut w = s.unlinked w
      rw [vaccels, Function.update_apply] at alive
      split_ifs at alive with apart
      rw [unlinked, Function.update_of_ne apart]
      exact recorded w alive
    · show r.additions q + increment r.removals (r.state.phys v) q = _
      rw [increment_apply]
      omega

end Records

/-! ### Every run -/

/-- A fresh pipe has no VAQs. -/
theorem araxPipeInit_owned (memory : VaqState) : Owned (araxPipeInit memory) fun _ => [] := by
  have only : ∀ o, Present (araxPipeInit memory).accels o → o = .orphans := by
    intro o here
    cases o with
    | orphans => rfl
    | accel p => cases here
  refine ⟨⟨⟨?_, ?_⟩, ?_⟩, ?_, ?_, ?_, ?_⟩
  · intro o here
    rw [only o here]
    exact (utilsListInit_alone memory.lists (.head .orphans)).1
  · intro o o' here there apart
    exact absurd ((only o here).trans (only o' there).symm) apart
  · intro o here
    rw [only o here]
    exact (utilsListInit_alone memory.lists (.head .orphans)).2
  · intro o here v member
    cases member
  · intro o here v member
    cases member
  · intro v impossible
    cases impossible
  · intro v impossible
    cases impossible

theorem runStart_inv (memory : VaqState) : RunInv (runStart memory) :=
  ⟨⟨_, araxPipeInit_owned memory⟩, fun v impossible => (by cases impossible),
    fun p impossible => by cases impossible⟩

/-- **Ownership after a run.** There are the VAQs `vaqs` of each list, in the order of the ring. -/
def ListsOwned (r : VaqRun) (vaqs : Owner → List Nat) : Prop :=
  (∀ o, Present r.state.accels o →
    Circular r.state.lists.links (.head o) ((vaqs o).map .vaccel) ∧
      r.state.lists.length (.head o) = (vaqs o).length) ∧
  (∀ v, r.state.vaccels v →
    (r.checkedOut v = true ∧ ∀ o, Present r.state.accels o → v ∉ vaqs o) ∨
    (r.checkedOut v = false ∧ ∃! o, Present r.state.accels o ∧ v ∈ vaqs o)) ∧
  (∀ v, r.state.vaccels v → ∀ p, r.state.phys v = some p ↔
    r.state.accels p ∧ v ∈ vaqs (.accel p)) ∧
  (∀ o, Present r.state.accels o → ∀ v ∈ vaqs o, r.state.vaccels v) ∧
  ∀ p, r.state.accels p → r.state.revision p = (r.additions p + r.removals p) % 2 ^ 64

/-- **Every VAQ is owned.** After every run of the calls, each list is a ring of as many nodes as
its length says, each VAQ is in one list, or in none if the last call about it returned or deleted
it, it is in the list of the accelerator its `phys` names, and the revision of an accelerator has
counted the additions and removals of the calls. -/
theorem vaccel_lists_owned (memory : VaqState) (r : VaqRun) (calls : List VaqCall)
    (run : exec vaqStep (runStart memory) calls = some r) : ∃ vaqs, ListsOwned r vaqs := by
  have keeps : ∀ r call r', RunInv r → vaqStep r call = some r' → RunInv r' :=
    fun r call r' inv step => vaqStep_inv inv step
  obtain ⟨⟨vaqs, owned⟩, recorded, revised⟩ := exec_invariant keeps (runStart_inv memory) run
  refine ⟨vaqs, fun o here => ⟨owned.linked.rings.ring o here, owned.linked.length o here⟩,
    fun v alive => ?_, fun v alive p => ?_, owned.live, revised⟩
  · rw [recorded v alive]
    cases away : r.state.unlinked v with
    | true => exact .inl ⟨rfl, fun o here => owned.not_mem here (.inl away)⟩
    | false =>
      obtain ⟨o, here, member⟩ := owned.listed v alive away
      refine .inr ⟨rfl, o, ⟨here, member⟩, fun o' there => ?_⟩
      exact owned.linked.unique here there.1 member there.2
  · constructor
    · exact owned.assigned alive
    · rintro ⟨here, member⟩
      exact owned.phys (.accel p) here v member

/-- A VAQ is handed to an accelerator, taken back, made an orphan and assigned again. -/
theorem vaccel_lists_owned_at_reassigned :
    ∃ memory r, exec vaqStep (runStart memory) [.accelInit 0 7, .vaccelInit 1 none,
        .vaccelInit 2 (some 0), .getOrphan, .addVaccel 0 1, .delVaccel 0 1, .addOrphan 1,
        .addVaccel 0 1, .release 2] = some r ∧
      r.state.revision 0 = 6 ∧ r.state.phys 1 = some 0 ∧ ∃ vaqs, ListsOwned r vaqs := by
  have view : (exec vaqStep (runStart
      { lists := { links := { next := fun _ => .head .orphans, prev := fun _ => .head .orphans }
                   length := fun _ => 5 }
        accels := fun _ => true
        vaccels := fun _ => true
        phys := fun _ => some 3
        revision := fun _ => 9 })
      [.accelInit 0 7, .vaccelInit 1 none, .vaccelInit 2 (some 0), .getOrphan, .addVaccel 0 1,
        .delVaccel 0 1, .addOrphan 1, .addVaccel 0 1, .release 2]).map
      (fun r => (r.state.revision 0, r.state.phys 1)) = some (6, some 0) := by decide
  obtain ⟨r, run, ends⟩ := Option.map_eq_some_iff.mp view
  rw [Prod.mk.injEq] at ends
  exact ⟨_, r, run, ends.1, ends.2, vaccel_lists_owned _ r _ run⟩

end Arax.Core.Ownership
