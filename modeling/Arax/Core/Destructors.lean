/-
**References through destructors.**

When the last reference to an object is dropped, its destructor drops those the object holds, and
with the last of these further destructors run: of the data of a task, of the virtual accelerator of
data, of the `free_vaq` of a physical accelerator. The destructor of data may even register and
submit a task that frees device memory; its reference is left to the worker, and the reference to
the procedure `free` is never given back.

* `Settles` — the accounting after a drop, with the references that destructors leave outside.
* `refDecWith_runs` — `arax_object_ref_dec`, with the state that its destructor starts in.
* `refDecWith_settles` — `arax_object_ref_dec`, given what the destructor does.
* `refDec_settles` — `arax_object_ref_dec` on any object, with all the destructors below it.
-/

import Arax.Core.Issue

namespace Arax.Core

open Arax.Lib

/-- The accounting after a drop. What destructors leave outside are tasks and procedures. -/
def Settles (r next : ObjectRepo) (outer : Multiset Nat) (dying : List Nat) : Prop :=
  ∃ left, RepoOk next (ownOf next) (left + outer) dying ∧ Extends r next ∧
    ∀ j ∈ left, next.typeOf j = some .task ∨ next.typeOf j = some .proc

section Settle

variable {r s next : ObjectRepo} {outer left : Multiset Nat} {dying : List Nat} {id : Nat}

/-- No destructor of another type is running than of data and tasks. -/
def Calm (r : ObjectRepo) (dying : List Nat) : Prop :=
  ∀ j ∈ dying, r.typeOf j = some .data ∨ r.typeOf j = some .task

theorem Calm.mono (calm : Calm r dying) (extended : Extends r s) : Calm s dying :=
  fun j member => (calm j member).imp (extended.types j _) (extended.types j _)

/-- A call that leaves nothing outside but what its caller gets. -/
theorem settles_of_ok (ok : RepoOk next (ownOf next) outer dying) (extended : Extends r next) :
    Settles r next outer dying :=
  ⟨0, (zero_add outer).symm ▸ ok, extended, fun _ impossible =>
    absurd impossible (Multiset.notMem_zero _)⟩

/-- A drop that goes on from what an earlier one left. -/
theorem Settles.after (extended : Extends r s)
    (kinds : ∀ j ∈ left, s.typeOf j = some .task ∨ s.typeOf j = some .proc)
    (settles : Settles s next (left + outer) dying) : Settles r next outer dying := by
  obtain ⟨more, ok, extended', kinds'⟩ := settles
  rw [← add_assoc] at ok
  refine ⟨more + left, ok, extended.trans extended', fun j member => ?_⟩
  rcases Multiset.mem_add.mp member with new | old
  · exact kinds' j new
  · exact (kinds j old).imp (extended'.types j _) (extended'.types j _)

/-- The drop of a reference to a virtual accelerator leaves nothing. -/
theorem refDecVaccel_settles (ok : RepoOk r (ownOf r) (id ::ₘ outer) dying)
    (done : refDecVaccel r id = some next) : Settles r next outer dying := by
  obtain ⟨kept, extended, owners, -⟩ := ok.refDecVaccel done
  rw [← owners] at kept
  exact settles_of_ok kept extended

/-- What the end of an object leaves as it was. -/
theorem reclaim_rest {o : AraxObject} (found : s.objs id = some o) (zero : o.refCount = 0)
    (freed : reclaim s id o = some next) :
    ownOf next = ownOf s ∧ (∀ j, next.typeOf j = s.typeOf j) ∧
      ∀ j, Unsubmitted next j → Unsubmitted s j := by
  have finished := objs_reclaim freed
  refine ⟨?_, fun j => ?_, fun j unsubmitted => ?_⟩
  · funext j
    unfold ownOf
    rw [finished]
    split_ifs with same
    · rw [same, found]
      exact (if_pos zero).symm
    · rfl
  · rw [ObjectRepo.typeOf_change finished]
    split_ifs with same
    · rw [same, ObjectRepo.typeOf_of_objs found]
    · rfl
  · obtain ⟨p, there, rest⟩ := unsubmitted
    rw [finished] at there
    split_ifs at there with same
    · cases there
      rw [same]
      exact ⟨o, found, rest⟩
    · exact ⟨p, there, rest⟩

/-- Before its destructor, what the object held is held outside, and the object is dying. -/
theorem RepoOk.unlinked {o : AraxObject} (ok : RepoOk r (ownOf r) (id ::ₘ outer) dying)
    (here : r.objs id = some o) (last : o.refCount = 1) :
    RepoOk ((r.set id { o with refCount := 0 }).unlink o.type id)
        (ownOf ((r.set id { o with refCount := 0 }).unlink o.type id)) (holds o + outer)
        (id :: dying) ∧
      Extends r ((r.set id { o with refCount := 0 }).unlink o.type id) ∧
      ∀ j, ((r.set id { o with refCount := 0 }).unlink o.type id).objs j =
        if j = id then some { o with refCount := 0 } else r.objs j := by
  have before : 0 < o.refCount := last ▸ Nat.one_pos
  have objs : ∀ j, ((r.set id { o with refCount := 0 }).unlink o.type id).objs j =
      if j = id then some { o with refCount := 0 } else r.objs j := ObjectRepo.objs_set r id _
  have owners : ownOf ((r.set id { o with refCount := 0 }).unlink o.type id) =
      Function.update (ownOf r) id 0 := ownOf_set r id { o with refCount := 0 }
  have dropped := ok.dropLast here last
  rw [ownOf_of_objs here before, ← owners] at dropped
  exact ⟨dropped, extends_of_objs here before objs rfl ⟨rfl, rfl⟩, objs⟩

/-- **What `arax_object_ref_dec` does.** Either there are other references, or the destructor starts
with the references that the object held, and with the object among the dying. What it leaves
outside stays there. -/
theorem refDecWith_runs {type : ObjectType} {dtor : ObjectRepo → AraxObject → Option ObjectRepo}
    (ok : RepoOk r (ownOf r) (id ::ₘ outer) dying) (done : refDecWith type dtor r id = some next) :
    ∃ o, r.objs id = some o ∧ o.type = type ∧
      (o.refCount ≠ 1 ∧ RepoOk next (ownOf next) outer dying ∧ Extends r next ∨
        o.refCount = 1 ∧ ∃ s t, Extends r s ∧ FieldsTyped s o ∧
          (∀ j, j ≠ id → s.objs j = r.objs j) ∧
          RepoOk s (ownOf s) (holds o + outer) (id :: dying) ∧ dtor s o = some t ∧
          reclaim t id o = some next ∧
          ∀ left, RepoOk t (ownOf t) (left + outer) (id :: dying) → Extends s t →
            RepoOk next (ownOf next) (left + outer) dying ∧ Extends r next ∧
              ∀ j, next.typeOf j = t.typeOf j) := by
  obtain ⟨o, here, kind, outcome⟩ := refDecWith_some done
  have before : 0 < o.refCount := by omega
  refine ⟨o, here, kind, ?_⟩
  rcases outcome with ⟨several, rfl⟩ | ⟨last, s, destroyed, freed⟩
  · have owners : ownOf (r.set id { o with refCount := o.refCount - 1 }) = ownOf r :=
      ownOf_set_same here before several rfl
    refine .inl ⟨by omega, ?_, extends_of_objs here before (ObjectRepo.objs_set r id _) rfl
      ⟨rfl, rfl⟩⟩
    rw [owners]
    exact ok.dropShared here several
  · obtain ⟨dropped, extended, objs⟩ := ok.unlinked here last
    refine .inr ⟨last, _, s, extended, (ok.typed id o here).mono extended.types,
      fun j apart => (objs j).trans (if_neg apart), dropped, destroyed, freed,
      fun left kept extended' => ?_⟩
    -- the destructors below left the dying object as it was
    have found : s.objs id = some { o with refCount := 0 } :=
      extended'.ends id _ ((objs id).trans (if_pos rfl)) rfl
    obtain ⟨owners', types, submits⟩ := reclaim_rest found rfl freed
    have reclaimed := kept.reclaim (o := { o with refCount := 0 }) found rfl
      (ok.not_dying here before) freed
    have both := extended.trans extended'
    refine ⟨owners' ▸ reclaimed, ⟨⟨fun j t known => ?_, fun j p there zero => ?_⟩,
      fun j unsubmitted => both.submits j (submits j unsubmitted)⟩, types⟩
    · rw [types]
      exact both.types j t known
    · rw [objs_reclaim freed, if_neg]
      · exact both.ends j p there zero
      · intro same
        rw [same, here] at there
        cases there
        exact absurd zero (Nat.ne_of_gt before)

/-- **`arax_object_ref_dec`, given its destructor.** -/
theorem refDecWith_settles {type : ObjectType}
    {dtor : ObjectRepo → AraxObject → Option ObjectRepo}
    (spec : ∀ s t o, r.objs id = some o → o.type = type → 0 < o.refCount → Extends r s →
      FieldsTyped s o → RepoOk s (ownOf s) (holds o + outer) (id :: dying) → dtor s o = some t →
      Settles s t outer (id :: dying))
    (ok : RepoOk r (ownOf r) (id ::ₘ outer) dying) (done : refDecWith type dtor r id = some next) :
    Settles r next outer dying := by
  obtain ⟨o, here, kind, ⟨-, kept, extended⟩ | ⟨last, s, t, extended, typed, -, dropped,
    destroyed, -, ends⟩⟩ := refDecWith_runs ok done
  · exact settles_of_ok kept extended
  · obtain ⟨left, kept, extended', kinds⟩ :=
      spec s t o here kind (last ▸ Nat.one_pos) extended typed dropped destroyed
    obtain ⟨reclaimed, all, types⟩ := ends left kept extended'
    refine ⟨left, reclaimed, all, fun j member => ?_⟩
    rw [types]
    exact kinds j member

end Settle

section Cascade

variable {sizes : Sizeofs} {r next : ObjectRepo} {outer : Multiset Nat} {dying : List Nat}
  {id : Nat}

/-- `arax_proc_get`: a procedure that is in the list has references, and gets one more. -/
theorem RepoOk.procGet {name : String} {proc : Nat} (ok : RepoOk r (ownOf r) outer dying)
    (done : araxProcGet r name = some (next, proc)) :
    RepoOk next (ownOf next) (proc ::ₘ outer) dying ∧ Extends r next ∧
      next.typeOf proc = some .proc := by
  obtain ⟨id, find, done⟩ := Option.bind_eq_some_iff.mp done
  obtain ⟨taken, inc, pair⟩ := Option.map_eq_some_iff.mp done
  cases pair
  have member : 0 < (r.list .proc).count proc :=
    List.count_pos_iff.mpr (List.mem_of_find?_eq_some find)
  rw [ok.linked] at member
  split_ifs at member with listed
  · obtain ⟨kept, extended, owners, -⟩ := ok.take listed.2 inc
    exact ⟨owners ▸ kept, extended, extended.types _ _ listed.1⟩
  · exact absurd member (Nat.lt_irrefl 0)

/-- What the destructor of data leaves outside if it frees device memory: a task, and a reference to
the procedure of this task. -/
def FreeLeft (r : ObjectRepo) (left : Multiset Nat) : Prop :=
  ∃ task free, left = {task, free} ∧ r.typeOf task = some .task ∧ r.typeOf free = some .proc

theorem FreeLeft.mono {s : ObjectRepo} {left : Multiset Nat} (freed : FreeLeft r left)
    (types : ∀ j type, r.typeOf j = some type → s.typeOf j = some type) : FreeLeft s left := by
  obtain ⟨task, free, same, kind, proc⟩ := freed
  exact ⟨task, free, same, types task _ kind, types free _ proc⟩

theorem FreeLeft.kinds {left : Multiset Nat} (freed : FreeLeft r left) :
    ∀ j ∈ left, r.typeOf j = some .task ∨ r.typeOf j = some .proc := by
  obtain ⟨task, free, rfl, kind, proc⟩ := freed
  intro j member
  rcases Multiset.mem_cons.mp member with same | other
  · exact .inl (same ▸ kind)
  · exact .inr (Multiset.mem_singleton.mp other ▸ proc)

/-- What the destructor of data does to free device memory. -/
theorem issueFree_some {phys : Nat} (done : issueFree sizes r phys = some next) :
    ∃ got free p freeVaq task, araxProcGet r "free" = some (got, free) ∧
      got.live phys = some p ∧ p.freeVaq = some freeVaq ∧
      araxTaskIssue sizes got freeVaq free (4 * sizes.pointer) [] = some (next, task) := by
  obtain ⟨⟨got, free⟩, get, done⟩ := Option.bind_eq_some_iff.mp done
  obtain ⟨p, live, done⟩ := Option.bind_eq_some_iff.mp done
  obtain ⟨freeVaq, field, done⟩ := Option.bind_eq_some_iff.mp done
  obtain ⟨⟨last, task⟩, issue, rfl⟩ := Option.map_eq_some_iff.mp done
  exact ⟨got, free, p, freeVaq, task, get, live, field, issue⟩

/-- What the destructor of data does: it may free device memory, and drops the reference to the
virtual accelerator. -/
theorem dtorData_some {d : AraxObject} (done : dtorData sizes r d = some next) :
    ((d.remote = true ∧ d.othrRemt = false) ∧ ∃ phys accel issued, d.phys = some phys ∧
        d.accel = some accel ∧ issueFree sizes r phys = some issued ∧
          refDecVaccel issued accel = some next) ∨
      ¬(d.remote = true ∧ d.othrRemt = false) ∧
        (d.accel = none ∧ next = r ∨
          ∃ accel, d.accel = some accel ∧ refDecVaccel r accel = some next) := by
  unfold dtorData at done
  split_ifs at done with remote
  · obtain ⟨phys, place, done⟩ := Option.bind_eq_some_iff.mp done
    obtain ⟨issued, free, done⟩ := Option.bind_eq_some_iff.mp done
    obtain ⟨accel, field, drop⟩ := Option.bind_eq_some_iff.mp done
    exact .inl ⟨remote, phys, accel, issued, place, field, free, drop⟩
  · refine .inr ⟨remote, ?_⟩
    cases field : d.accel with
    | none =>
      rw [field] at done
      cases done
      exact .inl ⟨rfl, rfl⟩
    | some accel =>
      rw [field] at done
      exact .inr ⟨accel, rfl, done⟩

/-- The task that frees device memory. -/
theorem issueFree_leaves {phys : Nat} (ok : RepoOk r (ownOf r) outer dying) (calm : Calm r dying)
    (done : issueFree sizes r phys = some next) :
    ∃ left, RepoOk next (ownOf next) (left + outer) dying ∧ Extends r next ∧
      FreeLeft next left := by
  obtain ⟨got, free, -, freeVaq, task, get, -, -, issue⟩ := issueFree_some done
  obtain ⟨kept, extended, proc⟩ := ok.procGet get
  obtain ⟨kept, extended', issued⟩ := kept.issue
    (fun j member => (by rcases calm.mono extended j member with is | is <;> rw [is] <;> decide))
    (fun _ impossible => absurd impossible List.not_mem_nil) issue
  refine ⟨{task, free}, ?_, extended.trans extended', task, free, rfl, issued.typeOf,
    extended'.types free _ proc⟩
  rw [Multiset.insert_eq_cons, Multiset.cons_add, Multiset.singleton_add]
  exact kept

/-- `__dtor_arax_data_s`. -/
theorem dtorData_leaves {d : AraxObject} (ok : RepoOk r (ownOf r) (holds d + outer) dying)
    (calm : Calm r dying) (type : d.type = .data) (done : dtorData sizes r d = some next) :
    ∃ left, RepoOk next (ownOf next) (left + outer) dying ∧ Extends r next ∧
      if d.remote = true ∧ d.othrRemt = false then FreeLeft next left else left = 0 := by
  have mine : holds d = ↑d.accel.toList := by
    unfold holds
    rw [type]
  rw [mine] at ok
  obtain ⟨remote, phys, accel, issued, -, field, free, drop⟩ |
    ⟨local', ⟨field, rfl⟩ | ⟨accel, field, drop⟩⟩ := dtorData_some done
  · rw [field] at ok
    obtain ⟨left, kept, extended, freed⟩ := issueFree_leaves ok calm free
    have given : RepoOk issued (ownOf issued) (accel ::ₘ (left + outer)) dying := by
      rw [← Multiset.singleton_add, add_left_comm]
      exact kept
    obtain ⟨kept, extended', owners, -⟩ := given.refDecVaccel drop
    rw [← owners] at kept
    refine ⟨left, kept, extended.trans extended', ?_⟩
    rw [if_pos remote]
    exact freed.mono extended'.types
  · rw [field] at ok
    refine ⟨0, ok, Extends.refl next, ?_⟩
    rw [if_neg local']
  · rw [field] at ok
    obtain ⟨kept, extended, owners, -⟩ := ok.refDecVaccel drop
    rw [← owners, ← zero_add outer] at kept
    refine ⟨0, kept, extended, ?_⟩
    rw [if_neg local']

/-- The drop of data that is the last one, where the destructor frees device memory. -/
def AraxObject.freesRemote (d : AraxObject) : Prop :=
  d.refCount = 1 ∧ d.remote = true ∧ d.othrRemt = false

instance (d : AraxObject) : Decidable d.freesRemote := inferInstanceAs (Decidable (_ ∧ _ ∧ _))

/-- `arax_object_ref_dec` on data. -/
theorem refDecData_leaves (ok : RepoOk r (ownOf r) (id ::ₘ outer) dying) (calm : Calm r dying)
    (done : refDecData sizes r id = some next) :
    ∃ d left, r.objs id = some d ∧ RepoOk next (ownOf next) (left + outer) dying ∧
      Extends r next ∧ if d.freesRemote then FreeLeft next left else left = 0 := by
  obtain ⟨d, here, type, ⟨several, kept, extended⟩ | ⟨last, s, t, extended, -, -, dropped,
    destroyed, -, ends⟩⟩ := refDecWith_runs ok done
  · refine ⟨d, 0, here, (zero_add outer).symm ▸ kept, extended, ?_⟩
    rw [if_neg fun frees => several frees.1]
  · have calm' : Calm s (id :: dying) := by
      intro j member
      rcases List.mem_cons.mp member with same | old
      · rw [same]
        exact .inl (extended.types id _ (type ▸ ObjectRepo.typeOf_of_objs here))
      · exact calm.mono extended j old
    obtain ⟨left, kept, extended', freed⟩ := dtorData_leaves dropped calm' type destroyed
    obtain ⟨reclaimed, all, types⟩ := ends left kept extended'
    refine ⟨d, left, here, reclaimed, all, ?_⟩
    unfold AraxObject.freesRemote
    simp only [last, true_and]
    split_ifs at freed ⊢
    · exact freed.mono fun j type known => (types j).trans known
    · exact freed

theorem refDecData_settles (ok : RepoOk r (ownOf r) (id ::ₘ outer) dying) (calm : Calm r dying)
    (done : refDecData sizes r id = some next) : Settles r next outer dying := by
  obtain ⟨d, left, -, kept, extended, freed⟩ := refDecData_leaves ok calm done
  refine ⟨left, kept, extended, fun j member => ?_⟩
  split_ifs at freed
  · exact freed.kinds j member
  · rw [freed] at member
    exact absurd member (Multiset.notMem_zero j)

/-- What a task holds that is submitted if it has a virtual accelerator. -/
theorem holds_task {t : AraxObject} (type : t.type = .task)
    (submitted : t.accel ≠ none → t.issued = true) : holds t = ↑t.io + ↑t.accel.toList := by
  unfold holds
  rw [type]
  cases field : t.accel with
  | none =>
    show ((t.io ++ if t.issued then [] else [] : List Nat) : Multiset Nat) = _
    rw [ite_self]
    rfl
  | some accel =>
    rw [field] at submitted
    simp only [submitted (Option.some_ne_none accel), if_true]
    rfl

/-- `__dtor_arax_task_msg_s` of a task that is submitted if it has a virtual accelerator. -/
theorem dtorTask_settles {t : AraxObject} (ok : RepoOk r (ownOf r) (holds t + outer) dying)
    (calm : Calm r dying) (type : t.type = .task) (submitted : t.accel ≠ none → t.issued = true)
    (done : dtorTask sizes r t = some next) : Settles r next outer dying := by
  rw [holds_task type submitted, add_assoc] at ok
  obtain ⟨last, fold, done⟩ := Option.bind_eq_some_iff.mp done
  rw [foldlM_eq_exec] at fold
  -- what is still to be dropped is held outside all along the loop
  have dropped : Settles r last (↑t.accel.toList + outer) dying := by
    have rule : Settles r last (↑([] : List Nat) + (↑t.accel.toList + outer)) dying := by
      refine exec_rest (fun rest s => Settles r s (↑rest + (↑t.accel.toList + outer)) dying)
        (fun data rest s s' before drop => ?_) (settles_of_ok ok (Extends.refl r)) fold
      obtain ⟨left, kept, extended, kinds⟩ := before
      refine Settles.after extended kinds (refDecData_settles ?_ (calm.mono extended) drop)
      rw [← Multiset.cons_coe, Multiset.cons_add, Multiset.add_cons] at kept
      exact kept
    rwa [Multiset.coe_nil, zero_add] at rule
  cases field : t.accel with
  | none =>
    rw [field, Option.toList_none, Multiset.coe_nil, zero_add] at dropped
    rw [field] at done
    cases done
    exact dropped
  | some accel =>
    rw [field] at dropped done
    obtain ⟨left, kept, extended, kinds⟩ := dropped
    refine Settles.after extended kinds (refDecVaccel_settles ?_ done)
    rw [← Multiset.singleton_add, add_left_comm]
    exact kept

/-- `arax_object_ref_dec` on a task, which nothing below does. -/
theorem refDecTask_settles (ok : RepoOk r (ownOf r) (id ::ₘ outer) dying) (calm : Calm r dying)
    (submitted : ¬ Unsubmitted r id) (done : refDecTask sizes r id = some next) :
    Settles r next outer dying := by
  refine refDecWith_settles (fun s t o here type _ extended _ kept destroyed => ?_) ok done
  refine dtorTask_settles kept (fun j member => ?_) type (fun some => ?_) destroyed
  · rcases List.mem_cons.mp member with same | old
    · rw [same]
      exact .inr (extended.types id _ (type ▸ ObjectRepo.typeOf_of_objs here))
    · exact calm.mono extended j old
  · by_contra unissued
    exact submitted ⟨o, here, type, some, Bool.eq_false_of_not_eq_true unissued⟩

/-- The drops of references to data that all have further ones. -/
theorem refDecDatas_shared {io : List Nat} (ok : RepoOk r (ownOf r) (↑io + outer) dying)
    (shared : ∀ data ∈ io, io.count data < r.refs data)
    (done : io.foldlM (refDecData sizes) r = some next) :
    RepoOk next (ownOf next) outer dying ∧ Extends r next ∧
      ∀ j, next.objs j = (r.objs j).map fun o =>
        { o with refCount := o.refCount - io.count j } := by
  let inv (rest : List Nat) (s : ObjectRepo) : Prop :=
    ∃ past, io = past ++ rest ∧ RepoOk s (ownOf s) (↑rest + outer) dying ∧ Extends r s ∧
      ∀ j, s.objs j = (r.objs j).map fun o => { o with refCount := o.refCount - past.count j }
  have keeps : ∀ data rest s s', inv (data :: rest) s → refDecData sizes s data = some s' →
      inv rest s' := by
    rintro data rest s s' ⟨past, split, ok, extended, objs⟩ drop
    have more := shared data (split ▸ List.mem_append_right past List.mem_cons_self)
    rw [split, List.count_append, List.count_cons_self] at more
    rw [← Multiset.cons_coe, Multiset.cons_add] at ok
    obtain ⟨d, here, -, outcome⟩ := refDecWith_some drop
    have before := objs data
    rw [here] at before
    obtain ⟨d', there, same⟩ := Option.map_eq_some_iff.mp before.symm
    have refs : r.refs data = d'.refCount := ObjectRepo.refs_of_objs there
    have count : d.refCount = d'.refCount - past.count data :=
      congrArg AraxObject.refCount same.symm
    rcases outcome with ⟨several, rfl⟩ | ⟨last, -⟩
    · have alive : 0 < d.refCount := by omega
      have owners : ownOf (s.set data { d with refCount := d.refCount - 1 }) = ownOf s :=
        ownOf_set_same here alive several rfl
      refine ⟨past ++ [data], by rw [split, List.append_assoc]; rfl, ?_, extended.trans
        (extends_of_objs here alive (ObjectRepo.objs_set s data _) rfl ⟨rfl, rfl⟩), fun j => ?_⟩
      · rw [owners]
        exact ok.dropShared here several
      · rw [ObjectRepo.objs_set, List.count_append]
        by_cases same' : j = data
        · rw [if_pos same', same', there, List.count_singleton_self, count, ← same]
          rfl
        · rw [if_neg same', objs, List.count_singleton, if_neg (by simpa using Ne.symm same'),
            Nat.add_zero]
    · omega
  rw [foldlM_eq_exec] at done
  obtain ⟨past, split, kept, extended, objs⟩ := exec_rest inv keeps
    ⟨[], rfl, ok, Extends.refl r, fun j => by simp⟩ done
  rw [List.append_nil] at split
  rw [Multiset.coe_nil, zero_add] at kept
  rw [split]
  exact ⟨kept, extended, objs⟩

/-- `arax_object_ref_dec` on a submitted task whose data all have further references. -/
theorem refDecTask_shared {t : AraxObject} (ok : RepoOk r (ownOf r) (id ::ₘ outer) dying)
    (there : r.objs id = some t) (submitted : ¬ Unsubmitted r id)
    (shared : ∀ data ∈ t.io, t.io.count data < r.refs data)
    (done : refDecTask sizes r id = some next) :
    RepoOk next (ownOf next) outer dying ∧ Extends r next := by
  obtain ⟨t', there', type, ⟨-, kept, extended⟩ | ⟨-, s, u, -, typed, others, dropped,
    destroyed, -, ends⟩⟩ := refDecWith_runs ok done
  · exact ⟨kept, extended⟩
  · cases there.symm.trans there'
    rw [holds_task type fun some => by_contra fun unissued =>
      submitted ⟨t, there, type, some, Bool.eq_false_of_not_eq_true unissued⟩, add_assoc] at dropped
    obtain ⟨last, fold, drop⟩ := Option.bind_eq_some_iff.mp destroyed
    have refs : ∀ data ∈ t.io, s.refs data = r.refs data := by
      intro data member
      unfold ObjectRepo.refs
      rw [others]
      intro same
      have known := (ok.typed id t there).io data member
      rw [same, ObjectRepo.typeOf_of_objs there, type] at known
      cases known
    obtain ⟨kept, extended, -⟩ := refDecDatas_shared dropped
      (fun data member => refs data member ▸ shared data member) fold
    have finish : RepoOk u (ownOf u) (0 + outer) (id :: dying) ∧ Extends last u := by
      rw [zero_add]
      cases field : t.accel with
      | none =>
        rw [field] at kept drop
        cases drop
        exact ⟨zero_add outer ▸ kept, Extends.refl _⟩
      | some accel =>
        rw [field] at kept drop
        obtain ⟨kept, extended, owners, -⟩ := kept.refDecVaccel drop
        rw [← owners] at kept
        exact ⟨kept, extended⟩
    obtain ⟨reclaimed, all, -⟩ := ends 0 finish.1 (extended.trans finish.2)
    exact ⟨zero_add outer ▸ reclaimed, all⟩

/-- `arax_object_ref_dec` on a physical accelerator: other accelerators at most are written. -/
theorem RepoOk.refDecAccel (ok : RepoOk r (ownOf r) (id ::ₘ outer) dying)
    (done : refDecAccel r id = some next) :
    RepoOk next (ownOf next) outer dying ∧ Extends r next ∧
      ∀ j, r.typeOf j ≠ some .physAccel → r.typeOf j ≠ some .virtAccel →
        next.objs j = r.objs j := by
  obtain ⟨a, here, type, ⟨several, kept, extended⟩ | ⟨last, s, t, extended, typed, others, dropped,
    destroyed, freed, ends⟩⟩ := refDecWith_runs ok done
  · refine ⟨kept, extended, fun j physical _ => ?_⟩
    obtain ⟨a', here', -, ⟨-, rfl⟩ | ⟨one, -⟩⟩ := refDecWith_some done
    · rw [ObjectRepo.objs_set, if_neg]
      intro same
      rw [same, ObjectRepo.typeOf_of_objs here, type] at physical
      exact physical rfl
    · cases here.symm.trans here'
      exact absurd one several
  · obtain ⟨freeVaq, field, drop⟩ := Option.bind_eq_some_iff.mp destroyed
    have mine : holds a = {freeVaq} := by
      unfold holds
      rw [type, field]
      rfl
    rw [mine, Multiset.singleton_add] at dropped
    obtain ⟨kept, extended', owners, virtual, others'⟩ := dropped.refDecVaccel drop
    rw [← owners, ← zero_add outer] at kept
    obtain ⟨reclaimed, all, -⟩ := ends 0 kept extended'
    refine ⟨zero_add outer ▸ reclaimed, all, fun j physical apart => ?_⟩
    have other : j ≠ id := by
      intro same
      rw [same, ObjectRepo.typeOf_of_objs here, type] at physical
      exact physical rfl
    have other' : j ≠ freeVaq := by
      intro same
      unfold ObjectRepo.typeOf at virtual apart
      rw [← same, others j other] at virtual
      exact apart virtual
    rw [objs_reclaim freed, if_neg other, others' j other', others j other]

/-- `arax_object_ref_dec` on a procedure. -/
theorem RepoOk.refDecProc (ok : RepoOk r (ownOf r) (id ::ₘ outer) dying)
    (done : refDecProc r id = some next) :
    RepoOk next (ownOf next) outer dying ∧ Extends r next := by
  obtain ⟨o, -, type, ⟨-, kept, extended⟩ | ⟨-, s, t, -, -, -, dropped, destroyed, -, ends⟩⟩ :=
    refDecWith_runs ok done
  · exact ⟨kept, extended⟩
  · cases destroyed
    unfold holds at dropped
    rw [type] at dropped
    obtain ⟨reclaimed, all, -⟩ := ends 0 (by rw [zero_add]; exact zero_add outer ▸ dropped)
      (Extends.refl s)
    exact ⟨zero_add outer ▸ reclaimed, all⟩

/-- **`arax_object_ref_dec` keeps the accounting,** with every destructor it runs. -/
theorem refDec_settles (ok : RepoOk r (ownOf r) (id ::ₘ outer) [])
    (submitted : ∀ j, ¬ Unsubmitted r j) (done : araxObjectRefDec sizes r id = some next) :
    Settles r next outer [] := by
  have calm : Calm r [] := fun _ impossible => absurd impossible List.not_mem_nil
  obtain ⟨o, -, done⟩ := Option.bind_eq_some_iff.mp done
  cases type : o.type with
  | physAccel =>
    obtain ⟨kept, extended, -⟩ := ok.refDecAccel (by rw [type] at done; exact done)
    exact settles_of_ok kept extended
  | virtAccel => exact refDecVaccel_settles ok (by rw [type] at done; exact done)
  | proc =>
    obtain ⟨kept, extended⟩ := ok.refDecProc (by rw [type] at done; exact done)
    exact settles_of_ok kept extended
  | data => exact refDecData_settles ok calm (by rw [type] at done; exact done)
  | task => exact refDecTask_settles ok calm (submitted id) (by rw [type] at done; exact done)

end Cascade

end Arax.Core
