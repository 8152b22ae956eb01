/-
**References and the repository.**

The accounting of the object repository: the references to an object are those that other objects
hold and those that are held outside (`outer`), and an object is in the list of its type exactly as
long as there are any. `RepoOk` states this for any assignment `own` of references to their owners,
because in the middle of a call a field may be written before its reference is taken. Between calls
`own` is `ownOf`: every object owns what its destructor drops. `dying` are the objects whose
destructor is running.

* `RepoOk.write` — a write to an object that stays alive.
* `RepoOk.register`, `RepoOk.refInc` — a new object, a new reference.
* `RepoOk.dropShared`, `RepoOk.dropLast`, `RepoOk.reclaim` — the steps of `arax_object_ref_dec`.
-/

import Mathlib.Tactic.SplitIfs
import Arax.Lib.Holding
import Arax.Core.Object

namespace Arax.Core

open Arax.Lib

namespace ObjectRepo

/-- The type of an object, dead or alive. -/
def typeOf (r : ObjectRepo) (id : Nat) : Option ObjectType := (r.objs id).map AraxObject.type

/-- The number of references to an object, 0 if it was never registered. -/
def refs (r : ObjectRepo) (id : Nat) : Nat := ((r.objs id).map AraxObject.refCount).getD 0

/-- The bytes that an object takes from the throttle. -/
def bytes (r : ObjectRepo) (id : Nat) : Nat :=
  ((r.objs id).map fun o => if o.destroyed then 0 else o.allocSize).getD 0

theorem objs_set (r : ObjectRepo) (id : Nat) (o : AraxObject) (j : Nat) :
    (r.set id o).objs j = if j = id then some o else r.objs j :=
  Function.update_apply _ _ _ _

section Change

variable {r next : ObjectRepo} {id : Nat} {o : AraxObject}
  (objs : ∀ j, next.objs j = if j = id then some o else r.objs j)

include objs

theorem typeOf_change (j : Nat) :
    next.typeOf j = if j = id then some o.type else r.typeOf j := by
  unfold typeOf
  rw [objs]
  split_ifs <;> rfl

theorem refs_change (j : Nat) : next.refs j = if j = id then o.refCount else r.refs j := by
  unfold refs
  rw [objs]
  split_ifs <;> rfl

theorem bytes_change (j : Nat) :
    next.bytes j = if j = id then (if o.destroyed then 0 else o.allocSize) else r.bytes j := by
  unfold bytes
  rw [objs]
  by_cases same : j = id
  · rw [if_pos same, if_pos same]
    rfl
  · rw [if_neg same, if_neg same]

end Change

theorem typeOf_set (r : ObjectRepo) (id : Nat) (o : AraxObject) (j : Nat) :
    (r.set id o).typeOf j = if j = id then some o.type else r.typeOf j :=
  typeOf_change (objs_set r id o) j

theorem refs_set (r : ObjectRepo) (id : Nat) (o : AraxObject) (j : Nat) :
    (r.set id o).refs j = if j = id then o.refCount else r.refs j :=
  refs_change (objs_set r id o) j

theorem bytes_set (r : ObjectRepo) (id : Nat) (o : AraxObject) (j : Nat) :
    (r.set id o).bytes j =
      if j = id then (if o.destroyed then 0 else o.allocSize) else r.bytes j :=
  bytes_change (objs_set r id o) j

theorem live_some {r : ObjectRepo} {id : Nat} {o : AraxObject} (live : r.live id = some o) :
    r.objs id = some o ∧ o.destroyed = false := by
  unfold ObjectRepo.live at live
  rw [Option.filter_eq_some_iff] at live
  exact ⟨live.1, by simpa using live.2⟩

theorem typeOf_of_objs {r : ObjectRepo} {id : Nat} {o : AraxObject} (here : r.objs id = some o) :
    r.typeOf id = some o.type := by
  unfold typeOf
  rw [here]
  rfl

theorem typeOf_of_live {r : ObjectRepo} {id : Nat} {o : AraxObject} (live : r.live id = some o) :
    r.typeOf id = some o.type :=
  typeOf_of_objs (live_some live).1

theorem refs_of_objs {r : ObjectRepo} {id : Nat} {o : AraxObject} (here : r.objs id = some o) :
    r.refs id = o.refCount := by
  unfold refs
  rw [here]
  rfl

theorem bytes_of_objs {r : ObjectRepo} {id : Nat} {o : AraxObject} (here : r.objs id = some o) :
    r.bytes id = if o.destroyed then 0 else o.allocSize := by
  unfold bytes
  rw [here]
  rfl

end ObjectRepo

/-- The references that an object holds. A task takes the one to its virtual accelerator when it is
submitted. -/
def holds (o : AraxObject) : Multiset Nat :=
  match o.type with
  | .task => ↑(o.io ++ if o.issued then o.accel.toList else [])
  | .data => ↑o.accel.toList
  | .physAccel => ↑o.freeVaq.toList
  | .virtAccel | .proc => 0

/-- What the objects own between two calls. -/
def ownOf (r : ObjectRepo) (id : Nat) : Multiset Nat :=
  match r.objs id with
  | some o => if o.refCount = 0 then 0 else holds o
  | none => 0

/-- The reference fields of an object lead to objects of the right types. -/
structure FieldsTyped (r : ObjectRepo) (o : AraxObject) : Prop where
  accel : ∀ v, o.accel = some v → r.typeOf v = some .virtAccel
  io : ∀ d ∈ o.io, r.typeOf d = some .data
  freeVaq : ∀ v, o.freeVaq = some v → r.typeOf v = some .virtAccel

/-- **The accounting of the repository.** -/
structure RepoOk (r : ObjectRepo) (own : Nat → Multiset Nat) (outer : Multiset Nat)
    (dying : List Nat) : Prop where
  /-- Numbers of objects to come are free. -/
  fresh : ∀ id, r.next ≤ id → r.objs id = none
  /-- An object with references is once in the list of its type, and no other object is. -/
  linked : ∀ type id, (r.list type).count id =
    if r.typeOf id = some type ∧ 0 < r.refs id then 1 else 0
  length : ∀ type, r.length type = (r.list type).length
  /-- Every reference is held by an object or outside. -/
  counts : ∀ id, r.refs id = (outer + held r.next own).count id
  /-- Without references, an object is destroyed or its destructor is running. -/
  ended : ∀ id o, r.objs id = some o → o.refCount = 0 → (o.destroyed = false ↔ id ∈ dying)
  alive : ∀ id o, r.objs id = some o → 0 < o.refCount → o.destroyed = false
  unreferenced : ∀ id ∈ dying, ∃ o, r.objs id = some o ∧ o.refCount = 0
  throttle : r.available + ∑ j ∈ Finset.range r.next, r.bytes j = r.capacity
  typed : ∀ id o, r.objs id = some o → FieldsTyped r o
  plain : ∀ id, r.typeOf id ≠ some .task → r.typeOf id ≠ some .data →
    r.typeOf id ≠ some .physAccel → own id = 0

/-- A task that has its virtual accelerator but is not submitted yet. -/
def Unsubmitted (r : ObjectRepo) (id : Nat) : Prop :=
  ∃ o, r.objs id = some o ∧ o.type = .task ∧ o.accel ≠ none ∧ o.issued = false

/-- What nothing changes: the types of objects, and objects without references. -/
structure Keeps (r next : ObjectRepo) : Prop where
  types : ∀ id type, r.typeOf id = some type → next.typeOf id = some type
  ends : ∀ id o, r.objs id = some o → o.refCount = 0 → next.objs id = some o

/-- What no call changes; and no call leaves a task without submitting it. -/
structure Extends (r next : ObjectRepo) : Prop extends Keeps r next where
  submits : ∀ id, Unsubmitted next id → Unsubmitted r id

theorem Keeps.trans {r s t : ObjectRepo} (first : Keeps r s) (second : Keeps s t) : Keeps r t :=
  ⟨fun id type known => second.types id type (first.types id type known),
    fun id o here zero => second.ends id o (first.ends id o here zero) zero⟩

theorem Extends.refl (r : ObjectRepo) : Extends r r :=
  ⟨⟨fun _ _ same => same, fun _ _ same _ => same⟩, fun _ same => same⟩

theorem Extends.trans {r s t : ObjectRepo} (first : Extends r s) (second : Extends s t) :
    Extends r t :=
  ⟨first.toKeeps.trans second.toKeeps, fun id left => first.submits id (second.submits id left)⟩

theorem FieldsTyped.mono {r s : ObjectRepo} {o : AraxObject} (typed : FieldsTyped r o)
    (types : ∀ id type, r.typeOf id = some type → s.typeOf id = some type) : FieldsTyped s o :=
  ⟨fun v field => types v _ (typed.accel v field), fun d member => types d _ (typed.io d member),
    fun v field => types v _ (typed.freeVaq v field)⟩

/-- The count of an object does not matter to the types of its fields. -/
theorem FieldsTyped.recount {r : ObjectRepo} {o : AraxObject} (typed : FieldsTyped r o) (n : Nat)
    (destroyed : Bool) : FieldsTyped r { o with refCount := n, destroyed := destroyed } :=
  ⟨typed.accel, typed.io, typed.freeVaq⟩

section Steps

variable {r : ObjectRepo} {own own' : Nat → Multiset Nat} {outer outer' : Multiset Nat}
  {dying : List Nat} {id : Nat} {o o' : AraxObject}

theorem RepoOk.inside (ok : RepoOk r own outer dying) (here : r.objs id = some o) :
    id < r.next := by
  by_contra beyond
  rw [ok.fresh id (Nat.le_of_not_lt beyond)] at here
  cases here

theorem RepoOk.ne_of_beyond (ok : RepoOk r own outer dying) (here : r.objs id = some o) {j : Nat}
    (beyond : r.next ≤ j) : j ≠ id :=
  Nat.ne_of_gt (Nat.lt_of_lt_of_le (ok.inside here) beyond)

/-- A change of one object adds none beyond the last number. -/
theorem RepoOk.fresh_change {next : ObjectRepo} (ok : RepoOk r own outer dying)
    (here : r.objs id = some o) (objs : ∀ j, next.objs j = if j = id then some o' else r.objs j)
    {j : Nat} (beyond : r.next ≤ j) : next.objs j = none := by
  rw [objs, if_neg (ok.ne_of_beyond here beyond)]
  exact ok.fresh j beyond

/-- The types of the fields after a change of one object. -/
theorem RepoOk.typed_change {next : ObjectRepo} (ok : RepoOk r own outer dying)
    (objs : ∀ j, next.objs j = if j = id then some o' else r.objs j)
    (keeps : ∀ j t, r.typeOf j = some t → next.typeOf j = some t) (typed : FieldsTyped r o')
    {j : Nat} {p : AraxObject} (found : next.objs j = some p) : FieldsTyped next p := by
  rw [objs] at found
  split_ifs at found with same
  · cases found
    exact typed.mono keeps
  · exact (ok.typed j p found).mono keeps

/-- An object with a reference is there and may be accessed. -/
theorem RepoOk.present (ok : RepoOk r own outer dying) (referenced : 0 < r.refs id) :
    ∃ o, r.objs id = some o ∧ 0 < o.refCount ∧ r.live id = some o := by
  cases here : r.objs id with
  | none =>
    unfold ObjectRepo.refs at referenced
    rw [here] at referenced
    exact absurd referenced (Nat.lt_irrefl 0)
  | some o =>
    rw [ObjectRepo.refs_of_objs here] at referenced
    refine ⟨o, rfl, referenced, ?_⟩
    unfold ObjectRepo.live
    rw [here, Option.filter_some, ok.alive id o here referenced]
    rfl

/-- References may change hands. -/
theorem RepoOk.transfer (ok : RepoOk r own outer dying)
    (same : outer' + held r.next own' = outer + held r.next own)
    (plain : ∀ id, r.typeOf id ≠ some .task → r.typeOf id ≠ some .data →
      r.typeOf id ≠ some .physAccel → own' id = 0) : RepoOk r own' outer' dying :=
  { ok with
    counts := fun id => by rw [same]; exact ok.counts id
    plain := plain }

/-- One owner exchanges references with the outside. -/
theorem RepoOk.exchange (ok : RepoOk r own outer dying) (inside : id < r.next) {x : Multiset Nat}
    (same : outer' + x = outer + own id)
    (typed : x ≠ 0 → r.typeOf id = some .task ∨ r.typeOf id = some .data ∨
      r.typeOf id = some .physAccel) :
    RepoOk r (Function.update own id x) outer' dying := by
  have changed := held_update own inside x
  refine ok.transfer ?_ fun j task data phys => ?_
  · refine add_right_cancel (b := own id) ?_
    rw [add_assoc, changed, add_right_comm, ← same]
    exact add_left_comm _ _ _ |>.trans (add_comm _ _)
  · by_cases here : j = id
    · rw [here, Function.update_self]
      by_contra some
      rw [here] at task data phys
      rcases typed some with is | is | is
      · exact task is
      · exact data is
      · exact phys is
    · rw [Function.update_of_ne here]
      exact ok.plain j task data phys

/-- A reference from outside gets an owner. -/
theorem RepoOk.give {x : Nat} (ok : RepoOk r own (x ::ₘ outer) dying) (here : r.objs id = some o)
    (type : o.type = .task ∨ o.type = .data ∨ o.type = .physAccel) :
    RepoOk r (Function.update own id (own id + {x})) outer dying := by
  refine ok.exchange (ok.inside here) ?_ fun _ => ?_
  · rw [← Multiset.singleton_add, add_right_comm, add_comm outer, add_comm (own id), add_assoc]
  · rw [ObjectRepo.typeOf_of_objs here, Option.some.injEq, Option.some.injEq, Option.some.injEq]
    exact type

/-- The types of objects after a write that keeps them. -/
theorem typeOf_write (here : r.objs id = some o) (type : o'.type = o.type) (j : Nat) :
    (r.set id o').typeOf j = r.typeOf j := by
  rw [ObjectRepo.typeOf_set]
  split_ifs with same
  · rw [same, ObjectRepo.typeOf_of_objs here, type]
  · rfl

/-- The bytes of objects after a write that keeps them. -/
theorem bytes_write (here : r.objs id = some o) (size : o'.allocSize = o.allocSize)
    (destroyed : o'.destroyed = o.destroyed) (j : Nat) : (r.set id o').bytes j = r.bytes j := by
  rw [ObjectRepo.bytes_set]
  split_ifs with same gone
  · rw [same, ObjectRepo.bytes_of_objs here, ← destroyed, if_pos gone]
  · rw [same, ObjectRepo.bytes_of_objs here, ← destroyed, if_neg gone, size]
  · rfl

/-- **A write to an object that stays alive.** -/
theorem RepoOk.write (ok : RepoOk r own outer dying) (here : r.objs id = some o)
    (type : o'.type = o.type) (size : o'.allocSize = o.allocSize)
    (destroyed : o'.destroyed = o.destroyed) (before : 0 < o.refCount) (after : 0 < o'.refCount)
    (typed : FieldsTyped r o')
    (counts : ∀ j, (r.set id o').refs j = (outer' + held r.next own).count j) :
    RepoOk (r.set id o') own outer' dying := by
  have types := typeOf_write here type
  have objs := ObjectRepo.objs_set r id o'
  have keeps : ∀ j t, r.typeOf j = some t → (r.set id o').typeOf j = some t := fun j t known => by
    rw [types]
    exact known
  refine ⟨fun j beyond => ?_, fun t j => ?_, ok.length, counts, fun j p found zero => ?_,
    fun j p found positive => ?_, fun j member => ?_, ?_, fun j p found => ?_, fun j => ?_⟩
  · exact ok.fresh_change here objs beyond
  · have positive : 0 < (r.set id o').refs j ↔ 0 < r.refs j := by
      rw [ObjectRepo.refs_set]
      split_ifs with same
      · rw [same, ObjectRepo.refs_of_objs here]
        exact ⟨fun _ => before, fun _ => after⟩
      · exact Iff.rfl
    simp only [types, positive]
    exact ok.linked t j
  · rw [objs] at found
    split_ifs at found with same
    · cases found
      exact absurd zero (Nat.ne_of_gt after)
    · exact ok.ended j p found zero
  · rw [objs] at found
    split_ifs at found with same
    · cases found
      rw [destroyed]
      exact ok.alive id o here before
    · exact ok.alive j p found positive
  · obtain ⟨p, found, zero⟩ := ok.unreferenced j member
    refine ⟨p, ?_, zero⟩
    rw [objs, if_neg]
    · exact found
    · intro same
      rw [same, here] at found
      cases found
      exact absurd zero (Nat.ne_of_gt before)
  · show r.available + ∑ j ∈ Finset.range r.next, (r.set id o').bytes j = r.capacity
    rw [Finset.sum_congr rfl fun j _ => bytes_write here size destroyed j]
    exact ok.throttle
  · exact ok.typed_change objs keeps typed found
  · rw [types]
    exact ok.plain j

/-- The references to objects after a write that keeps them. -/
theorem refs_write (here : r.objs id = some o) (count : o'.refCount = o.refCount) (j : Nat) :
    (r.set id o').refs j = r.refs j := by
  rw [ObjectRepo.refs_set]
  split_ifs with same
  · rw [same, ObjectRepo.refs_of_objs here, count]
  · rfl

/-- A write to the fields of an object, with the same references to it. -/
theorem RepoOk.writeFields (ok : RepoOk r own outer dying) (here : r.objs id = some o)
    (type : o'.type = o.type) (size : o'.allocSize = o.allocSize)
    (destroyed : o'.destroyed = o.destroyed) (count : o'.refCount = o.refCount)
    (alive : 0 < o.refCount) (typed : FieldsTyped r o') : RepoOk (r.set id o') own outer dying := by
  refine ok.write here type size destroyed alive (count ▸ alive) typed fun j => ?_
  rw [refs_write here count]
  exact ok.counts j

/-- A change of one object that had references. -/
theorem keeps_of_objs {next : ObjectRepo} (here : r.objs id = some o) (before : 0 < o.refCount)
    (objs : ∀ j, next.objs j = if j = id then some o' else r.objs j)
    (type : o'.type = o.type) : Keeps r next := by
  refine ⟨fun j t known => ?_, fun j p found zero => ?_⟩
  · unfold ObjectRepo.typeOf at known ⊢
    rw [objs]
    split_ifs with same
    · rw [same, here] at known
      rw [← known]
      exact congrArg some type
    · exact known
  · rw [objs, if_neg]
    · exact found
    · intro same
      rw [same, here] at found
      cases found
      exact absurd zero (Nat.ne_of_gt before)

/-- A change of one object that leaves the fields that say whether a task is submitted. -/
theorem extends_of_objs {next : ObjectRepo} (here : r.objs id = some o) (before : 0 < o.refCount)
    (objs : ∀ j, next.objs j = if j = id then some o' else r.objs j) (type : o'.type = o.type)
    (submits : o'.accel = o.accel ∧ o'.issued = o.issued) : Extends r next := by
  refine ⟨keeps_of_objs here before objs type, fun j left => ?_⟩
  obtain ⟨p, found, rest⟩ := left
  rw [objs] at found
  split_ifs at found with same
  · cases found
    rw [type, submits.1, submits.2] at rest
    rw [same]
    exact ⟨o, here, rest⟩
  · exact ⟨p, found, rest⟩

/-- `arax_object_ref_inc`: the new reference is held outside. -/
theorem RepoOk.refInc (ok : RepoOk r own outer dying) (here : r.objs id = some o)
    (before : 0 < o.refCount) :
    RepoOk (r.set id { o with refCount := o.refCount + 1 }) own (id ::ₘ outer) dying := by
  refine ok.write here rfl rfl rfl before (Nat.succ_pos _)
    ((ok.typed id o here).recount _ _) fun j => ?_
  have count := ok.counts j
  rw [ObjectRepo.refs_set, Multiset.cons_add]
  split_ifs with same
  · rw [same, Multiset.count_cons_self, ← same, ← count, same, ObjectRepo.refs_of_objs here]
  · rw [Multiset.count_cons_of_ne same]
    exact count

/-- A drop of a reference that is not the last one. -/
theorem RepoOk.dropShared (ok : RepoOk r own (id ::ₘ outer) dying) (here : r.objs id = some o)
    (several : 0 < o.refCount - 1) :
    RepoOk (r.set id { o with refCount := o.refCount - 1 }) own outer dying := by
  refine ok.write here rfl rfl rfl (by omega) several
    ((ok.typed id o here).recount _ _) fun j => ?_
  have count := ok.counts j
  rw [Multiset.cons_add] at count
  rw [ObjectRepo.refs_set]
  split_ifs with same
  · rw [same, Multiset.count_cons_self, ObjectRepo.refs_of_objs here] at count
    rw [same]
    show o.refCount - 1 = _
    omega
  · rw [Multiset.count_cons_of_ne same] at count
    exact count

/-- The lists after the last reference to an object is dropped. -/
theorem RepoOk.count_erase (ok : RepoOk r own outer dying) (here : r.objs id = some o)
    (last : o.refCount = 1) (t : ObjectType) (j : Nat) :
    (Function.update r.list o.type ((r.list o.type).erase id) t).count j =
      if r.typeOf j = some t ∧ 0 < (if j = id then 0 else r.refs j) then 1 else 0 := by
  have count := ok.linked t j
  by_cases type : t = o.type
  · rw [type] at count ⊢
    rw [Function.update_self, List.count_erase, count]
    by_cases same : j = id
    · have typeOf := ObjectRepo.typeOf_of_objs here
      have refs := ObjectRepo.refs_of_objs here
      simp [same, typeOf, refs, last]
    · simp [same, Ne.symm same]
  · rw [Function.update_of_ne type, count]
    by_cases same : j = id
    · have typeOf := ObjectRepo.typeOf_of_objs here
      simp [same, typeOf, Ne.symm type]
    · simp [same]

/-- The drop of the last reference, up to the destructor: the object is unlinked, and what it owned
is now held outside. -/
theorem RepoOk.dropLast (ok : RepoOk r own (id ::ₘ outer) dying) (here : r.objs id = some o)
    (last : o.refCount = 1) :
    RepoOk ((r.set id { o with refCount := 0 }).unlink o.type id) (Function.update own id 0)
      (own id + outer) (id :: dying) := by
  have types : ∀ j, ((r.set id { o with refCount := 0 }).unlink o.type id).typeOf j = r.typeOf j :=
    typeOf_write here rfl
  have objs : ∀ j, ((r.set id { o with refCount := 0 }).unlink o.type id).objs j =
      if j = id then some { o with refCount := 0 } else r.objs j := ObjectRepo.objs_set r id _
  have refs : ∀ j, ((r.set id { o with refCount := 0 }).unlink o.type id).refs j =
      if j = id then 0 else r.refs j := ObjectRepo.refs_set r id _
  have member : id ∈ r.list o.type := by
    have count := ok.linked o.type id
    rw [ObjectRepo.typeOf_of_objs here, ObjectRepo.refs_of_objs here, last,
      if_pos ⟨rfl, Nat.one_pos⟩] at count
    exact List.count_pos_iff.mp (count ▸ Nat.one_pos)
  have whole :
      own id + outer + held r.next (Function.update own id 0) = outer + held r.next own := by
    have changed := held_update own (ok.inside here) 0
    rw [add_zero] at changed
    rw [← changed, add_comm (own id), add_assoc, add_comm (own id)]
  have keeps : ∀ j t, r.typeOf j = some t →
      ((r.set id { o with refCount := 0 }).unlink o.type id).typeOf j = some t := by
    intro j t known
    rw [types]
    exact known
  have counted := ok.counts id
  rw [Multiset.cons_add, Multiset.count_cons_self, ObjectRepo.refs_of_objs here, last] at counted
  refine ⟨fun j beyond => ?_, fun t j => ?_, fun t => ?_, fun j => ?_, fun j p found zero => ?_,
    fun j p found positive => ?_, fun j inside => ?_, ?_, fun j p found => ?_, fun j => ?_⟩
  · exact ok.fresh_change here objs beyond
  · rw [types, refs]
    exact ok.count_erase here last t j
  · show Function.update r.length o.type (r.length o.type - 1) t =
      (Function.update r.list o.type ((r.list o.type).erase id) t).length
    by_cases type : t = o.type
    · rw [type, Function.update_self, Function.update_self, List.length_erase_of_mem member,
        ok.length]
    · rw [Function.update_of_ne type, Function.update_of_ne type]
      exact ok.length t
  · show _ = (own id + outer + held r.next (Function.update own id 0)).count j
    rw [refs, whole]
    split_ifs with same
    · rw [same]
      omega
    · have count := ok.counts j
      rw [Multiset.cons_add, Multiset.count_cons_of_ne same] at count
      exact count
  · rw [objs] at found
    split_ifs at found with same
    · cases found
      rw [same]
      exact ⟨fun _ => List.mem_cons_self, fun _ => ok.alive id o here (last ▸ Nat.one_pos)⟩
    · rw [ok.ended j p found zero, List.mem_cons]
      exact ⟨Or.inr, fun either => either.resolve_left same⟩
  · rw [objs] at found
    split_ifs at found with same
    · cases found
      exact absurd positive (Nat.lt_irrefl 0)
    · exact ok.alive j p found positive
  · rw [objs]
    split_ifs with same
    · exact ⟨_, rfl, rfl⟩
    · exact ok.unreferenced j ((List.mem_cons.mp inside).resolve_left same)
  · show r.available + ∑ j ∈ Finset.range r.next, (r.set id { o with refCount := 0 }).bytes j =
      r.capacity
    have bytes : ∀ j, (r.set id { o with refCount := 0 }).bytes j = r.bytes j :=
      bytes_write here rfl rfl
    rw [Finset.sum_congr rfl fun j _ => bytes j]
    exact ok.throttle
  · exact ok.typed_change objs keeps ((ok.typed id o here).recount _ _) found
  · rw [types]
    intro task data phys
    by_cases same : j = id
    · rw [same, Function.update_self]
    · rw [Function.update_of_ne same]
      exact ok.plain j task data phys

/-- The throttle gets bytes back. -/
theorem sizeInc_some {s t : ObjectRepo} {sz : Nat} (inc : s.sizeInc sz = some t) :
    t = { s with available := s.available + sz } := by
  unfold ObjectRepo.sizeInc at inc
  split_ifs at inc with zero
  · cases inc
    rw [zero]
    rfl
  · cases inc
    rfl

/-- The throttle gives bytes, which it had. -/
theorem sizeDec_some {s t : ObjectRepo} {sz : Nat} (dec : s.sizeDec sz = some t) :
    sz ≤ s.available ∧ t = { s with available := s.available - sz } := by
  unfold ObjectRepo.sizeDec at dec
  split_ifs at dec with zero short
  · cases dec
    rw [zero]
    exact ⟨Nat.zero_le _, rfl⟩
  · cases dec
    exact ⟨Nat.le_of_not_lt short, rfl⟩

/-- **The end of an object:** its destructor is done, and its bytes go back to the throttle. -/
theorem RepoOk.reclaim {next : ObjectRepo} (ok : RepoOk r own outer (id :: dying))
    (here : r.objs id = some o) (none : o.refCount = 0) (apart : id ∉ dying)
    (freed : reclaim r id o = some next) : RepoOk next own outer dying := by
  have shape := sizeInc_some freed
  have types : ∀ j, next.typeOf j = r.typeOf j := by
    rw [shape]
    exact typeOf_write here rfl
  have refs : ∀ j, next.refs j = r.refs j := fun j => by
    rw [shape]
    refine (ObjectRepo.refs_set r id _ j).trans ?_
    split_ifs with same
    · rw [same, ObjectRepo.refs_of_objs here, none]
    · rfl
  have objs : ∀ j, next.objs j =
      if j = id then some { o with refCount := 0, destroyed := true } else r.objs j := by
    rw [shape]
    exact ObjectRepo.objs_set r id _
  have keeps : ∀ j t, r.typeOf j = some t → next.typeOf j = some t := fun j t known => by
    rw [types]
    exact known
  have numbers : next.next = r.next := by rw [shape]; rfl
  have lists : next.list = r.list ∧ next.length = r.length := by rw [shape]; exact ⟨rfl, rfl⟩
  refine ⟨fun j beyond => ?_, fun t j => ?_, fun t => ?_, fun j => ?_, fun j p found zero => ?_,
    fun j p found positive => ?_, fun j member => ?_, ?_, fun j p found => ?_, fun j => ?_⟩
  · rw [numbers] at beyond
    exact ok.fresh_change here objs beyond
  · rw [types, refs, lists.1]
    exact ok.linked t j
  · rw [lists.1, lists.2]
    exact ok.length t
  · rw [refs, numbers]
    exact ok.counts j
  · rw [objs] at found
    split_ifs at found with same
    · cases found
      rw [same]
      simp [apart]
    · rw [ok.ended j p found zero, List.mem_cons]
      exact ⟨fun either => either.resolve_left same, Or.inr⟩
  · rw [objs] at found
    split_ifs at found with same
    · cases found
      exact absurd positive (Nat.lt_irrefl 0)
    · exact ok.alive j p found positive
  · rw [objs]
    split_ifs with same
    · exact ⟨_, rfl, rfl⟩
    · exact ok.unreferenced j (List.mem_cons_of_mem id member)
  · have running : o.destroyed = false := (ok.ended id o here none).mpr List.mem_cons_self
    have bytes : next.bytes = Function.update r.bytes id 0 := by
      funext j
      rw [shape, Function.update_apply]
      exact ObjectRepo.bytes_set r id _ j
    have sums := sum_range_update r.bytes (ok.inside here) 0
    rw [ObjectRepo.bytes_of_objs here, running] at sums
    have before := ok.throttle
    rw [numbers, bytes, shape]
    show r.available + o.allocSize + _ = r.capacity
    simp only [Bool.false_eq_true, if_false] at sums
    omega
  · exact ok.typed_change objs keeps ((ok.typed id o here).recount _ _) found
  · rw [types]
    exact ok.plain j

/-- What an object owns after a write. -/
theorem ownOf_set (r : ObjectRepo) (id : Nat) (o : AraxObject) :
    ownOf (r.set id o) = Function.update (ownOf r) id (if o.refCount = 0 then 0 else holds o) := by
  funext j
  unfold ownOf
  rw [ObjectRepo.objs_set, Function.update_apply]
  by_cases same : j = id
  · rw [if_pos same, if_pos same]
  · rw [if_neg same, if_neg same]

/-- An object with references owns what it holds. -/
theorem ownOf_of_objs (here : r.objs id = some o) (alive : 0 < o.refCount) :
    ownOf r id = holds o := by
  unfold ownOf
  rw [here]
  exact if_neg (Nat.ne_of_gt alive)

/-- A write that changes nothing that the object holds. -/
theorem ownOf_set_same {o' : AraxObject} (here : r.objs id = some o) (alive : 0 < o.refCount)
    (alive' : 0 < o'.refCount) (same : holds o' = holds o) : ownOf (r.set id o') = ownOf r := by
  rw [ownOf_set, if_neg (Nat.ne_of_gt alive'), Function.update_eq_self_iff, same,
    ownOf_of_objs here alive]

end Steps

section Register

variable {r next : ObjectRepo} {own : Nat → Multiset Nat} {outer : Multiset Nat} {dying : List Nat}
  {type : ObjectType} {name : String} {size refCount id : Nat}

/-- What `arax_object_register` does. -/
theorem register_some
    (done : araxObjectRegister r type name size refCount = some (next, id)) :
    id = r.next ∧ size ≤ r.available ∧
      next = { r with
        objs := Function.update r.objs r.next (some (freshObject type name size refCount))
        next := r.next + 1
        list := Function.update r.list type (r.next :: r.list type)
        length := Function.update r.length type (r.length type + 1)
        available := r.available - size } := by
  obtain ⟨taken, dec, pair⟩ := Option.map_eq_some_iff.mp done
  obtain ⟨enough, shape⟩ := sizeDec_some dec
  cases pair
  rw [shape]
  exact ⟨rfl, enough, rfl⟩

/-- The objects after a registration. -/
theorem objs_register (done : araxObjectRegister r type name size refCount = some (next, id))
    (j : Nat) :
    next.objs j = if j = r.next then some (freshObject type name size refCount) else r.objs j := by
  rw [(register_some done).2.2]
  exact Function.update_apply _ _ _ _

theorem RepoOk.untyped (ok : RepoOk r own outer dying) : r.typeOf r.next = none := by
  unfold ObjectRepo.typeOf
  rw [ok.fresh r.next (Nat.le_refl _)]
  rfl

/-- The lists after a registration. -/
theorem RepoOk.count_cons (ok : RepoOk r own outer dying) (positive : 0 < refCount)
    (t : ObjectType) (j : Nat) :
    (Function.update r.list type (r.next :: r.list type) t).count j =
      if (if j = r.next then some type else r.typeOf j) = some t ∧
        0 < (if j = r.next then refCount else r.refs j) then 1 else 0 := by
  have count := ok.linked t j
  have untyped := ok.untyped
  by_cases same : t = type
  · rw [same] at count ⊢
    rw [Function.update_self, List.count_cons, count]
    by_cases new : j = r.next
    · simp [new, untyped, positive]
    · simp [new, Ne.symm new]
  · rw [Function.update_of_ne same, count]
    by_cases new : j = r.next
    · simp [new, untyped, Ne.symm same]
    · simp [new]

/-- The registered object is linked, all its references are held outside. -/
theorem RepoOk.register (ok : RepoOk r own outer dying) (positive : 0 < refCount)
    (done : araxObjectRegister r type name size refCount = some (next, id)) :
    RepoOk next own (Multiset.replicate refCount id + outer) dying := by
  have objs := objs_register done
  obtain ⟨number, enough, shape⟩ := register_some done
  have free : r.objs r.next = none := ok.fresh r.next (Nat.le_refl _)
  have untyped := ok.untyped
  have empty : own r.next = 0 := by
    refine ok.plain r.next ?_ ?_ ?_ <;> rw [untyped] <;> exact fun impossible => by cases impossible
  have types : ∀ j, next.typeOf j = if j = r.next then some type else r.typeOf j :=
    ObjectRepo.typeOf_change objs
  have refs : ∀ j, next.refs j = if j = r.next then refCount else r.refs j :=
    ObjectRepo.refs_change objs
  have keeps : ∀ j t, r.typeOf j = some t → next.typeOf j = some t := fun j t known => by
    rw [types, if_neg]
    · exact known
    · intro same
      rw [same, untyped] at known
      cases known
  have numbers : next.next = r.next + 1 := by rw [shape]
  refine ⟨fun j beyond => ?_, fun t j => ?_, fun t => ?_, fun j => ?_, fun j p found zero => ?_,
    fun j p found positive => ?_, fun j member => ?_, ?_, fun j p found => ?_, fun j => ?_⟩
  · rw [numbers] at beyond
    rw [objs, if_neg (Nat.ne_of_gt beyond)]
    exact ok.fresh j (Nat.le_of_succ_le beyond)
  · rw [types, refs, shape]
    exact ok.count_cons positive t j
  · rw [shape]
    show Function.update r.length type (r.length type + 1) t =
      (Function.update r.list type (r.next :: r.list type) t).length
    by_cases same : t = type
    · rw [same, Function.update_self, Function.update_self, List.length_cons, ok.length]
    · rw [Function.update_of_ne same, Function.update_of_ne same]
      exact ok.length t
  · have count := ok.counts j
    rw [refs, numbers, held_succ, empty, add_zero, add_assoc, Multiset.count_add, ← count,
      Multiset.count_replicate, number]
    by_cases new : j = r.next
    · have none : r.refs r.next = 0 := by
        unfold ObjectRepo.refs
        rw [free]
        rfl
      rw [new, if_pos rfl, if_pos rfl, none, Nat.add_zero]
    · rw [if_neg new, if_neg (Ne.symm new), Nat.zero_add]
  · rw [objs] at found
    split_ifs at found with new
    · cases found
      exact absurd zero (Nat.ne_of_gt positive)
    · exact ok.ended j p found zero
  · rw [objs] at found
    split_ifs at found with new
    · cases found
      rfl
    · exact ok.alive j p found positive
  · obtain ⟨p, found, zero⟩ := ok.unreferenced j member
    rw [objs, if_neg (Nat.ne_of_lt (ok.inside found))]
    exact ⟨p, found, zero⟩
  · have bytes : ∀ j, next.bytes j = if j = r.next then size else r.bytes j :=
      ObjectRepo.bytes_change objs
    have older : ∑ j ∈ Finset.range r.next, next.bytes j = ∑ j ∈ Finset.range r.next, r.bytes j :=
      Finset.sum_congr rfl fun j inside => by
        rw [bytes, if_neg (Nat.ne_of_lt (Finset.mem_range.mp inside))]
    have before := ok.throttle
    rw [numbers, Finset.sum_range_succ, older, bytes, if_pos rfl, shape]
    show r.available - size + _ = r.capacity
    omega
  · refine ok.typed_change objs keeps ?_ found
    exact ⟨fun _ field => (by cases field), fun _ member => (by cases member),
      fun _ field => (by cases field)⟩
  · rw [types]
    split_ifs with new
    · intro _ _ _
      rw [new]
      exact empty
    · exact ok.plain j

/-- A new object holds nothing. -/
theorem RepoOk.ownOf_register (ok : RepoOk r own outer dying)
    (done : araxObjectRegister r type name size refCount = some (next, id)) :
    ownOf next = ownOf r := by
  funext j
  unfold ownOf
  rw [objs_register done]
  split_ifs with new
  · rw [new, ok.fresh r.next (Nat.le_refl _)]
    have nothing : holds (freshObject type name size refCount) = 0 := by cases type <;> rfl
    simp only [nothing, ite_self]
  · rfl

theorem RepoOk.extends_register (ok : RepoOk r own outer dying)
    (done : araxObjectRegister r type name size refCount = some (next, id)) : Extends r next := by
  have free := ok.fresh r.next (Nat.le_refl _)
  refine ⟨⟨fun j t known => ?_, fun j o here zero => ?_⟩, fun j left => ?_⟩
  · obtain ⟨o, here, type⟩ := Option.map_eq_some_iff.mp known
    unfold ObjectRepo.typeOf
    rw [objs_register done, if_neg (Nat.ne_of_lt (ok.inside here)), here]
    exact congrArg some type
  · rw [objs_register done, if_neg (Nat.ne_of_lt (ok.inside here)), here]
  · obtain ⟨o, here, task, accel, rest⟩ := left
    rw [objs_register done] at here
    split_ifs at here
    · cases here
      exact absurd rfl accel
    · exact ⟨o, here, task, accel, rest⟩

end Register

end Arax.Core
