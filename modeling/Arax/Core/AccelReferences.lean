/-
**References to virtual accelerators on rare paths (`src/core/arax_task.c`,
`src/core/arax_data.c`).**

`arax_task_alloc` writes the virtual accelerator of a task and takes no reference to it;
`arax_task_submit` does. The destructor of the task drops one whether the task was submitted or not.
`arax_data_set_accel` takes a reference to the new virtual accelerator of data and keeps the one to
the old, which `arax_data_migrate_accel` drops.

* `taskFree_unsubmitted` — what `arax_task_free` does to a task that was never submitted.
* `setAccel_keeps_old` — what `arax_data_set_accel` does to data that has a virtual accelerator.
* `rare_paths_unbalanced` — on neither path, and in no state, the counts are those of the
  references.
-/

import Arax.Core.Conservation

namespace Arax.Core

open Arax.Lib

/-- The count of `v` is the number of its handles, of the `free_vaq` fields, the data and the
submitted tasks that lead to it. -/
def VaccelBalanced (p : Pipe) (v : Nat) : Prop :=
  p.repo.refs v = p.handles.count v + countLive p.repo (AraxObject.freesOn v) +
    countLive p.repo (AraxObject.dataOn v) + countLive p.repo (AraxObject.submittedTo v)

/-- The count of `v` has changed by the data that became assigned to it. -/
def ChangedByData (r next : ObjectRepo) (v : Nat) : Prop :=
  next.refs v + countLive r (AraxObject.dataOn v) =
    r.refs v + countLive next (AraxObject.dataOn v)

/-- One reference has moved from `u` to `v`. -/
def MovesReference (r next : ObjectRepo) (u v : Nat) : Prop :=
  next.refs u + 1 = r.refs u ∧ next.refs v = r.refs v + 1

instance (p : Pipe) (v : Nat) : Decidable (VaccelBalanced p v) :=
  inferInstanceAs (Decidable (_ = _))

instance (r next : ObjectRepo) (v : Nat) : Decidable (ChangedByData r next v) :=
  inferInstanceAs (Decidable (_ = _))

instance (r next : ObjectRepo) (u v : Nat) : Decidable (MovesReference r next u v) :=
  inferInstanceAs (Decidable (_ ∧ _))

section Counts

variable {r next : ObjectRepo} {outer : Multiset Nat} {property : AraxObject → Bool}

/-- Objects of a type that does not have the property. -/
theorem any_of_type {j : Nat} {type : ObjectType} (kind : r.typeOf j = some type)
    (never : ∀ o : AraxObject, o.type = type → property o = false) :
    (r.live j).any property = false := by
  cases live : r.live j with
  | none => rfl
  | some o => exact never o (Option.some.inj ((ObjectRepo.typeOf_of_live live).symm.trans kind))

/-- Live objects are counted by their numbers. -/
theorem mem_counted (fresh : ∀ j, r.next ≤ j → r.objs j = none) {j : Nat} :
    j ∈ (Finset.range r.next).filter (fun id => (r.live id).any property) ↔
      (r.live j).any property = true := by
  rw [Finset.mem_filter, Finset.mem_range, and_iff_right_iff_imp]
  intro counted
  by_contra beyond
  unfold ObjectRepo.live at counted
  rw [fresh j (Nat.le_of_not_lt beyond)] at counted
  cases counted

theorem countLive_congr (fresh : ∀ j, r.next ≤ j → r.objs j = none)
    (fresh' : ∀ j, next.next ≤ j → next.objs j = none)
    (same : ∀ j, (next.live j).any property = (r.live j).any property) :
    countLive next property = countLive r property := by
  unfold countLive
  congr 1
  ext j
  rw [mem_counted fresh, mem_counted fresh', same]

/-- One object has lost the property. -/
theorem countLive_lost {id : Nat} (fresh : ∀ j, r.next ≤ j → r.objs j = none)
    (fresh' : ∀ j, next.next ≤ j → next.objs j = none)
    (before : (r.live id).any property = true) (after : (next.live id).any property = false)
    (same : ∀ j, j ≠ id → (next.live j).any property = (r.live j).any property) :
    countLive next property + 1 = countLive r property := by
  have member : id ∈ (Finset.range r.next).filter fun id => (r.live id).any property :=
    (mem_counted fresh).mpr before
  unfold countLive
  rw [← Finset.card_erase_add_one member]
  congr 2
  ext j
  rw [Finset.mem_erase, mem_counted fresh, mem_counted fresh']
  by_cases apart : j = id
  · rw [apart, after]
    simp
  · rw [same j apart, and_iff_right apart]

end Counts

section Paths

variable {sizes : Sizeofs} {r next : ObjectRepo} {outer : Multiset Nat} {task v : Nat}
  {t : AraxObject}

/-- The objects after `arax_task_free` of a task that was never submitted, where its data have
further references. -/
theorem taskFree_objs (ok : RepoOk r (ownOf r) (task ::ₘ outer) [])
    (there : r.objs task = some t) (kind : t.type = .task) (one : t.refCount = 1)
    (unissued : t.issued = false) (field : t.accel = some v)
    (shared : ∀ data ∈ t.io, t.io.count data < r.refs data)
    (done : araxTaskFree sizes r task = some next) :
    ∃ o o', r.objs v = some o ∧ o'.type = .virtAccel ∧ o'.refCount + 1 = o.refCount ∧
      next.objs v = some o' ∧ next.live task = none ∧
      (∀ j, j ≠ task → j ≠ v → next.objs j =
        (r.objs j).map fun x => { x with refCount := x.refCount - t.io.count j }) ∧
      ∀ j, next.next ≤ j → next.objs j = none := by
  have typed := ok.typed task t there
  have virtual := typed.accel v field
  have away : task ≠ v := by
    intro same
    rw [← same, ObjectRepo.typeOf_of_objs there, kind] at virtual
    cases virtual
  have dropTask : refDecTask sizes r task = some next := by
    obtain ⟨t', live, drop⟩ := Option.bind_eq_some_iff.mp done
    cases (ObjectRepo.live_some live).1.symm.trans there
    rwa [kind] at drop
  obtain ⟨t', there', -, ⟨several, -⟩ | ⟨-, s, u, extended, -, others, dropped, destroyed, freed,
    -⟩⟩ := refDecWith_runs ok dropTask
  · cases there.symm.trans there'
    exact absurd one several
  cases there.symm.trans there'
  have mine : holds t = ↑t.io := by
    unfold holds
    simp only [kind, unissued]
    exact congrArg _ (List.append_nil t.io)
  rw [mine] at dropped
  obtain ⟨last, fold, drop⟩ := Option.bind_eq_some_iff.mp destroyed
  rw [field] at drop
  have data : ∀ j ∈ t.io, j ≠ task ∧ j ≠ v := by
    refine fun j member => ⟨fun same => ?_, fun same => ?_⟩ <;> have known := typed.io j member
    · rw [same, ObjectRepo.typeOf_of_objs there, kind] at known
      cases known
    · rw [same, virtual] at known
      cases known
  have refs : ∀ j, j ≠ task → s.refs j = r.refs j := by
    intro j apart
    unfold ObjectRepo.refs
    rw [others j apart]
  obtain ⟨kept, extended', counted⟩ := refDecDatas_shared dropped
    (fun j member => refs j (data j member).1 ▸ shared j member) fold
  obtain ⟨o, here, virtual', referenced, objs, number, -⟩ := refDecVaccel_some drop
  have finished := objs_reclaim freed
  have number' : next.next = last.next := by
    rw [← number, sizeInc_some freed]
    rfl
  have nowhere : t.io.count v = 0 := List.count_eq_zero.mpr fun member => (data v member).2 rfl
  have before := counted v
  rw [here, nowhere, others v away.symm] at before
  obtain ⟨x, found, same⟩ := Option.map_eq_some_iff.mp before.symm
  have count : x.refCount = o.refCount := congrArg AraxObject.refCount same
  refine ⟨x, { o with
    refCount := o.refCount - 1
    destroyed := o.destroyed || o.refCount == 1 }, found, virtual', ?_, ?_, ?_,
    fun j apart apart' => ?_, fun j beyond => ?_⟩
  · rw [count]
    exact Nat.sub_add_cancel referenced
  · rw [finished, if_neg away.symm, objs, if_pos rfl]
  · unfold ObjectRepo.live
    rw [finished, if_pos rfl]
    rfl
  · rw [finished, if_neg apart, objs, if_neg apart', counted, others j apart]
  · have empty := kept.fresh j (number' ▸ beyond)
    have gone : j ≠ task := by
      intro same
      have still := extended'.types task _ (extended.types task _ (ObjectRepo.typeOf_of_objs there))
      rw [← same, ObjectRepo.typeOf, empty] at still
      cases still
    have gone' : j ≠ v := by
      intro same
      rw [same, here] at empty
      cases empty
    rw [finished, if_neg gone, objs, if_neg gone', empty]

/-- **`arax_task_free` of a task that was never submitted:** the virtual accelerator loses a
reference that no object gives up. -/
theorem taskFree_unsubmitted (ok : RepoOk r (ownOf r) (task ::ₘ outer) [])
    (there : r.objs task = some t) (kind : t.type = .task) (one : t.refCount = 1)
    (unissued : t.issued = false) (field : t.accel = some v)
    (shared : ∀ data ∈ t.io, t.io.count data < r.refs data)
    (done : araxTaskFree sizes r task = some next) :
    next.refs v + 1 = r.refs v ∧ (∀ j, next.next ≤ j → next.objs j = none) ∧
      ∀ property : AraxObject → Bool, (∀ o n, property { o with refCount := n } = property o) →
        (∀ o, o.type = .virtAccel → property o = false) → property t = false →
          countLive next property = countLive r property := by
  obtain ⟨o, o', here, virtual, fewer, after, gone, written, fresh⟩ :=
    taskFree_objs ok there kind one unissued field shared done
  refine ⟨?_, fresh, fun property steady never unfit => countLive_congr ok.fresh fresh fun j => ?_⟩
  · rw [ObjectRepo.refs_of_objs after, ObjectRepo.refs_of_objs here, fewer]
  · by_cases first : j = task
    · rw [first, gone]
      cases live : r.live task with
      | none => rfl
      | some x =>
        cases (ObjectRepo.live_some live).1.symm.trans there
        exact unfit.symm
    by_cases second : j = v
    · rw [second, any_of_type ((ok.typed task t there).accel v field) never,
        any_of_type (virtual ▸ ObjectRepo.typeOf_of_objs after) never]
    · unfold ObjectRepo.live
      rw [written j first second]
      cases r.objs j with
      | none => rfl
      | some x =>
        rw [Option.map_some, Option.filter_some, Option.filter_some]
        split_ifs
        · exact steady x _
        · rfl

/-- Of a task that is not submitted, and of data and virtual accelerators, nothing but data is
counted for `v`. -/
theorem allocates_counts {s : ObjectRepo} {io : List Nat} (sound : Sound r outer)
    (fresh : ∀ j, s.next ≤ j → s.objs j = none) (allocates : Allocates r s task v io)
    (property : AraxObject → Bool)
    (never : ∀ o, o.type = .data ∨ o.type = .virtAccel → property o = false)
    (unfit : ∀ o, o.type = .task → o.issued = false → property o = false) :
    countLive s property = countLive r property := by
  refine countLive_congr sound.ok.fresh fresh fun j => ?_
  obtain ⟨t, there, kind, -, unissued, -⟩ := allocates.made
  by_cases first : j = task
  · have nothing : r.live task = none := by
      unfold ObjectRepo.live
      rw [allocates.fresh]
      rfl
    rw [first, nothing]
    cases live : s.live task with
    | none => rfl
    | some x =>
      cases (ObjectRepo.live_some live).1.symm.trans there
      exact unfit t kind unissued
  by_cases data : r.typeOf j = some .data
  · rw [any_of_type data fun o type => never o (.inl type),
      any_of_type (allocates.keeps.types j _ data) fun o type => never o (.inl type)]
  by_cases virtual : r.typeOf j = some .virtAccel
  · rw [any_of_type virtual fun o type => never o (.inr type),
      any_of_type (allocates.keeps.types j _ virtual) fun o type => never o (.inr type)]
  unfold ObjectRepo.live
  rw [allocates.others j first data virtual]

/-- **`arax_task_alloc` and `arax_task_free`:** one reference to the virtual accelerator is
missing. -/
theorem allocFree_drops {s : ObjectRepo} {proc hostSize : Nat} {io : List Nat}
    (sound : Sound r outer)
    (virtual : (r.live v).map AraxObject.type = some .virtAccel)
    (valid : checkSemantics r io = true)
    (alloc : araxTaskAlloc sizes r v proc hostSize io = some (s, task))
    (free : araxTaskFree sizes s task = some next) :
    next.refs v + 1 + countLive r (AraxObject.dataOn v) =
        r.refs v + countLive next (AraxObject.dataOn v) ∧
      next.refs v + 1 = outer.count v + countLive next (AraxObject.freesOn v) +
        countLive next (AraxObject.dataOn v) + countLive next (AraxObject.submittedTo v) := by
  obtain ⟨o, live, type⟩ := Option.map_eq_some_iff.mp virtual
  obtain ⟨here, alive⟩ := sound.referenced live
  have typeOf : r.typeOf v = some .virtAccel := type ▸ ObjectRepo.typeOf_of_objs here
  have datas : ∀ data ∈ io, r.typeOf data = some .data ∧ 0 < r.refs data := by
    intro data member
    obtain ⟨d, live, type⟩ :=
      Option.map_eq_some_iff.mp (eq_of_beq (List.all_eq_true.mp valid data member))
    obtain ⟨here, alive⟩ := sound.referenced live
    exact ⟨type ▸ ObjectRepo.typeOf_of_objs here, (ObjectRepo.refs_of_objs here).symm ▸ alive⟩
  obtain ⟨kept, allocates⟩ := sound.ok.alloc (fun data member => (datas data member).1)
    (fun data member => (datas data member).2) typeOf
    ((ObjectRepo.refs_of_objs here).symm ▸ alive) alloc
  obtain ⟨t, there, kind, one, unissued, field, io'⟩ := allocates.made
  obtain ⟨fewer, -, counts⟩ := taskFree_unsubmitted kept there kind one unissued field
    (fun data member => by
      rw [io'] at member ⊢
      have more := allocates.refs data (datas data member).2 (datas data member).1
      have before := (datas data member).2
      omega) free
  have frees := counts (AraxObject.freesOn v) (fun _ _ => rfl)
    (fun o type => by simp [AraxObject.freesOn, type]) (by simp [AraxObject.freesOn, kind])
  have assigned := counts (AraxObject.dataOn v) (fun _ _ => rfl)
    (fun o type => by simp [AraxObject.dataOn, type]) (by simp [AraxObject.dataOn, kind])
  have submitted := counts (AraxObject.submittedTo v) (fun _ _ => rfl)
    (fun o type => by simp [AraxObject.submittedTo, type])
    (by simp [AraxObject.submittedTo, unissued])
  have frees' := allocates_counts sound kept.fresh allocates (AraxObject.freesOn v)
    (fun o type => by rcases type with is | is <;> simp [AraxObject.freesOn, is])
    (fun o type _ => by simp [AraxObject.freesOn, type])
  have submitted' := allocates_counts sound kept.fresh allocates (AraxObject.submittedTo v)
    (fun o type => by rcases type with is | is <;> simp [AraxObject.submittedTo, is])
    (fun o _ unissued => by simp [AraxObject.submittedTo, unissued])
  have before := sound.ok.refs_vaccel typeOf
  have between := kept.refs_vaccel (allocates.keeps.types v _ typeOf)
  have apart : v ≠ task := by
    intro same
    rw [same, ObjectRepo.typeOf, allocates.fresh] at typeOf
    cases typeOf
  rw [Multiset.count_cons_of_ne apart] at between
  omega

/-- What `arax_data_set_accel` writes to data that has another virtual accelerator. -/
theorem setAccel_some {data : Nat} {d : AraxObject} (live : r.live data = some d)
    (other : d.accel ≠ some v) (done : araxDataSetAccel r data v = some next) :
    ∃ o, r.live v = some o ∧ d.type = .data ∧ o.type = .virtAccel ∧ next.next = r.next ∧
      next.live data = some { d with accel := some v } ∧
      next.live v = some { o with refCount := o.refCount + 1 } ∧
      ∀ j, j ≠ data → j ≠ v → next.objs j = r.objs j := by
  obtain ⟨d', live', done⟩ := Option.bind_eq_some_iff.mp done
  cases live.symm.trans live'
  obtain ⟨o, there, done⟩ := Option.bind_eq_some_iff.mp done
  split_ifs at done with types
  obtain ⟨kind, virtual⟩ := not_or.mp types
  obtain ⟨s, write, inc⟩ := Option.bind_eq_some_iff.mp done
  obtain ⟨d', live', rfl⟩ := Option.map_eq_some_iff.mp write
  cases live.symm.trans live'
  have apart : v ≠ data := by
    intro same
    rw [same] at there
    cases live.symm.trans there
    rw [not_not.mp kind] at virtual
    exact virtual (by decide)
  obtain ⟨o', here, rfl⟩ := refInc_some inc
  rw [ObjectRepo.objs_set, if_neg apart, (ObjectRepo.live_some there).1] at here
  cases here
  refine ⟨o, there, not_not.mp kind, not_not.mp virtual, rfl, ?_, ?_, fun j first second => ?_⟩
  · unfold ObjectRepo.live
    rw [ObjectRepo.objs_set, if_neg apart.symm, ObjectRepo.objs_set, if_pos rfl,
      Option.filter_some, if_pos (by simp [(ObjectRepo.live_some live).2])]
  · unfold ObjectRepo.live
    rw [ObjectRepo.objs_set, if_pos rfl, Option.filter_some,
      if_pos (by simp [(ObjectRepo.live_some there).2])]
  · rw [ObjectRepo.objs_set, if_neg second, ObjectRepo.objs_set, if_neg first]

/-- **`arax_data_set_accel` on data that has a virtual accelerator:** no reference to this one is
dropped. -/
theorem setAccel_keeps_old {data u : Nat} {d : AraxObject} (sound : Sound r outer)
    (live : r.live data = some d) (field : d.accel = some u) (apart : u ≠ v)
    (done : araxDataSetAccel r data v = some next) :
    next.refs u = r.refs u ∧ next.refs v = r.refs v + 1 ∧
      next.refs u = outer.count u + countLive next (AraxObject.freesOn u) +
        countLive next (AraxObject.dataOn u) + countLive next (AraxObject.submittedTo u) + 1 := by
  have other : d.accel ≠ some v := by
    rw [field]
    exact fun same => apart (Option.some.inj same)
  obtain ⟨o, there, kind, virtual, number, written, counted, others⟩ :=
    setAccel_some live other done
  have here := (ObjectRepo.live_some live).1
  have typeOf : r.typeOf u = some .virtAccel := (sound.ok.typed data d here).accel u field
  have away : u ≠ data := by
    intro same
    rw [same, ObjectRepo.typeOf_of_objs here, kind] at typeOf
    cases typeOf
  have same : next.objs u = r.objs u := others u away apart
  have refs : next.refs u = r.refs u :=
    congrArg (fun o => (Option.map AraxObject.refCount o).getD 0) same
  have typeOfData := ObjectRepo.typeOf_of_live live
  have typeOfData' := ObjectRepo.typeOf_of_live written
  have typeOfV := ObjectRepo.typeOf_of_live there
  have typeOfV' := ObjectRepo.typeOf_of_live counted
  rw [kind] at typeOfData typeOfData'
  rw [virtual] at typeOfV typeOfV'
  have fresh : ∀ j, next.next ≤ j → next.objs j = none := by
    intro j beyond
    rw [number] at beyond
    have empty := sound.ok.fresh j beyond
    rw [others j (sound.ok.ne_of_beyond here beyond)
      (sound.ok.ne_of_beyond (ObjectRepo.live_some there).1 beyond), empty]
  have unchanged : ∀ property : AraxObject → Bool, (∀ o, o.type = .virtAccel → property o = false) →
      ∀ j, j ≠ data → (next.live j).any property = (r.live j).any property := by
    intro property never j apart
    by_cases second : j = v
    · rw [second, any_of_type typeOfV never, any_of_type typeOfV' never]
    · unfold ObjectRepo.live
      rw [others j apart second]
  have equal : ∀ property : AraxObject → Bool, (∀ o, o.type = .virtAccel → property o = false) →
      (∀ o, o.type = .data → property o = false) →
      countLive next property = countLive r property := by
    intro property never never'
    refine countLive_congr sound.ok.fresh fresh fun j => ?_
    by_cases first : j = data
    · rw [first, any_of_type typeOfData never', any_of_type typeOfData' never']
    · exact unchanged property never j first
  have frees := equal (AraxObject.freesOn u) (fun o type => by simp [AraxObject.freesOn, type])
    (fun o type => by simp [AraxObject.freesOn, type])
  have submitted := equal (AraxObject.submittedTo u)
    (fun o type => by simp [AraxObject.submittedTo, type])
    (fun o type => by simp [AraxObject.submittedTo, type])
  have lost : countLive next (AraxObject.dataOn u) + 1 = countLive r (AraxObject.dataOn u) := by
    refine countLive_lost sound.ok.fresh fresh ?_ ?_
      (unchanged _ fun o type => by simp [AraxObject.dataOn, type])
    · rw [live]
      simp [AraxObject.dataOn, kind, field]
    · rw [written]
      simp [AraxObject.dataOn, kind, apart.symm]
  have before := sound.ok.refs_vaccel typeOf
  refine ⟨refs, ?_, by omega⟩
  rw [ObjectRepo.refs_of_objs (ObjectRepo.live_some counted).1,
    ObjectRepo.refs_of_objs (ObjectRepo.live_some there).1]

/-- **The rare paths.** In every state of every run: a task that is allocated and freed without
being submitted takes a reference to its virtual accelerator with it, which is counted no more for
any handle, data or task, and `arax_data_set_accel` on data of another virtual accelerator leaves
this one with a reference that nothing holds. -/
theorem rare_paths_unbalanced (sizes : Sizeofs) (size : Nat) (calls : List Call) (p : Pipe)
    (run : exec (step sizes) (start size) calls = some p) :
    (∀ v proc hostSize io s task next,
      (p.repo.live v).map AraxObject.type = some .virtAccel → checkSemantics p.repo io = true →
      araxTaskAlloc sizes p.repo v proc hostSize io = some (s, task) →
      araxTaskFree sizes s task = some next →
        ¬ ChangedByData p.repo next v ∧ ¬ VaccelBalanced ⟨next, p.handles⟩ v) ∧
    (∀ data d u v next, p.repo.live data = some d → d.accel = some u → u ≠ v →
      araxDataSetAccel p.repo data v = some next →
        ¬ MovesReference p.repo next u v ∧ ¬ VaccelBalanced ⟨next, p.handles⟩ u) := by
  obtain ⟨outer, sound, handles⟩ := accounted_of_run run
  constructor
  · intro v proc hostSize io s task next virtual valid alloc free
    obtain ⟨o, live, type⟩ := Option.map_eq_some_iff.mp virtual
    have same := handles v (.inr (type ▸ ObjectRepo.typeOf_of_live live))
    obtain ⟨changed, counted⟩ := allocFree_drops sound virtual valid alloc free
    unfold ChangedByData VaccelBalanced
    simp only
    omega
  · intro data d u v next live field apart done
    have typed := (sound.ok.typed data d (ObjectRepo.live_some live).1).accel u field
    have same := handles u (.inr typed)
    obtain ⟨kept, -, counted⟩ := setAccel_keeps_old sound live field apart done
    unfold MovesReference VaccelBalanced
    simp only
    omega

/-- Two virtual accelerators of a device, and data that is assigned to the first. -/
def assignedCalls : List Call :=
  [.accelInit "GPU" .gpu 1000 1000, .procRegister "arax_data_set", .accelAcquirePhys 0,
    .accelAcquirePhys 0, .dataInit 16, .dataSet 5 3, .taskFree 6]

theorem rare_paths_unbalanced_at_two : ∃ p s task next last,
    exec (step someSizes) (start 4096) assignedCalls = some p ∧
      araxTaskAlloc someSizes p.repo 4 2 0 [5] = some (s, task) ∧
      araxTaskFree someSizes s task = some next ∧
      ¬ ChangedByData p.repo next 4 ∧ ¬ VaccelBalanced ⟨next, p.handles⟩ 4 ∧
      araxDataSetAccel p.repo 5 4 = some last ∧
      ¬ MovesReference p.repo last 3 4 ∧ ¬ VaccelBalanced ⟨last, p.handles⟩ 3 := by
  have returns : ((exec (step someSizes) (start 4096) assignedCalls).any fun p =>
      ((araxTaskAlloc someSizes p.repo 4 2 0 [5]).any fun made =>
        (araxTaskFree someSizes made.1 made.2).isSome) && (araxDataSetAccel p.repo 5 4).isSome &&
      ((p.repo.live 4).map AraxObject.type == some .virtAccel) && checkSemantics p.repo [5] &&
      ((p.repo.live 5).any fun d => d.accel == some 3)) = true := by
    decide +kernel
  obtain ⟨p, run, returns⟩ := (Option.any_eq_true _ _).mp returns
  simp only [Bool.and_eq_true, beq_iff_eq] at returns
  obtain ⟨⟨⟨⟨made, moved⟩, virtual⟩, valid⟩, assigned⟩ := returns
  obtain ⟨⟨s, task⟩, alloc, freed⟩ := (Option.any_eq_true _ _).mp made
  obtain ⟨next, free⟩ := Option.isSome_iff_exists.mp freed
  obtain ⟨last, move⟩ := Option.isSome_iff_exists.mp moved
  obtain ⟨d, live, field⟩ := (Option.any_eq_true _ _).mp assigned
  obtain ⟨unsubmitted, reassigned⟩ := rare_paths_unbalanced someSizes 4096 assignedCalls p run
  obtain ⟨changed, counted⟩ := unsubmitted 4 2 0 [5] s task next virtual valid alloc free
  obtain ⟨moves, counted'⟩ := reassigned 5 d 3 4 last live (eq_of_beq field) (by decide) move
  exact ⟨p, s, task, next, last, run, alloc, free, changed, counted, move, moves, counted'⟩

/-- `test_empty_task`: a virtual accelerator is acquired, and a task for it allocated and freed. The
handle of the caller leads to a destroyed object. -/
theorem rare_paths_fail :
    (∃ p s task next, exec (step someSizes) (start 4096)
        [.procRegister "test_proc", .accelAcquireType .any] = some p ∧
      araxTaskAlloc someSizes p.repo 1 0 0 [] = some (s, task) ∧
      araxTaskFree someSizes s task = some next ∧ p.handles.count 1 = 1 ∧ next.live 1 = none ∧
      ¬ ChangedByData p.repo next 1 ∧ ¬ VaccelBalanced ⟨next, p.handles⟩ 1) ∧
    ∃ p next, exec (step someSizes) (start 4096) assignedCalls = some p ∧
      araxDataSetAccel p.repo 5 4 = some next ∧ p.repo.refs 3 = 2 ∧ next.refs 3 = 2 ∧
      ¬ MovesReference p.repo next 3 4 ∧ ¬ VaccelBalanced ⟨next, p.handles⟩ 3 := by
  constructor
  · have fails : ((exec (step someSizes) (start 4096)
        [.procRegister "test_proc", .accelAcquireType .any]).any fun p =>
        (araxTaskAlloc someSizes p.repo 1 0 0 []).any fun made =>
          (araxTaskFree someSizes made.1 made.2).any fun next =>
            p.handles.count 1 == 1 && next.live 1 == none &&
              !decide (ChangedByData p.repo next 1) &&
              !decide (VaccelBalanced ⟨next, p.handles⟩ 1)) = true := by
      decide +kernel
    obtain ⟨p, run, fails⟩ := (Option.any_eq_true _ _).mp fails
    obtain ⟨⟨s, task⟩, alloc, fails⟩ := (Option.any_eq_true _ _).mp fails
    obtain ⟨next, free, fails⟩ := (Option.any_eq_true _ _).mp fails
    simp only [Bool.and_eq_true, beq_iff_eq, Bool.not_eq_true', decide_eq_false_iff_not] at fails
    obtain ⟨⟨⟨handle, gone⟩, changed⟩, counted⟩ := fails
    exact ⟨p, s, task, next, run, alloc, free, handle, gone, changed, counted⟩
  · have fails : ((exec (step someSizes) (start 4096) assignedCalls).any fun p =>
        (araxDataSetAccel p.repo 5 4).any fun next =>
          p.repo.refs 3 == 2 && next.refs 3 == 2 && !decide (MovesReference p.repo next 3 4) &&
            !decide (VaccelBalanced ⟨next, p.handles⟩ 3)) = true := by
      decide +kernel
    obtain ⟨p, run, fails⟩ := (Option.any_eq_true _ _).mp fails
    obtain ⟨next, move, fails⟩ := (Option.any_eq_true _ _).mp fails
    simp only [Bool.and_eq_true, beq_iff_eq, Bool.not_eq_true', decide_eq_false_iff_not] at fails
    obtain ⟨⟨⟨before, after⟩, moves⟩, counted⟩ := fails
    exact ⟨p, next, run, move, before, after, moves, counted⟩

end Paths

end Arax.Core
