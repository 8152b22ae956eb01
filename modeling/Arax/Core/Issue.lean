/-
**References while a task is issued.**

`arax_task_issue` registers the task, takes a reference to each of its data, moves these to the
virtual accelerator of the task and takes a reference to that one when it submits. Each of these
steps breaks the accounting for a moment: a field is written before its reference is taken, or a
reference is dropped while the field still names it.

* `RepoOk.refDecVaccel` — the drop of a reference to a virtual accelerator.
* `RepoOk.migrate` — `arax_data_migrate_accel`.
* `RepoOk.issue` — `arax_task_issue`.
-/

import Arax.Lib.Run
import Arax.Core.References

namespace Arax.Core

open Arax.Lib

/-! ### Single references -/

section Single

variable {r next : ObjectRepo} {own : Nat → Multiset Nat} {outer : Multiset Nat} {dying : List Nat}
  {type : ObjectType} {dtor : ObjectRepo → AraxObject → Option ObjectRepo} {id : Nat}

/-- What `arax_object_ref_dec` does. -/
theorem refDecWith_some (done : refDecWith type dtor r id = some next) :
    ∃ o, r.objs id = some o ∧ o.type = type ∧
      (0 < o.refCount - 1 ∧ next = r.set id { o with refCount := o.refCount - 1 } ∨
        o.refCount = 1 ∧ ∃ s,
          dtor ((r.set id { o with refCount := 0 }).unlink o.type id) o = some s ∧
            reclaim s id o = some next) := by
  unfold refDecWith at done
  cases live : r.live id with
  | none =>
    rw [live] at done
    cases done
  | some o =>
    rw [live] at done
    simp only at done
    split_ifs at done with kind zero last
    · obtain ⟨s, destroyed, freed⟩ := Option.bind_eq_some_iff.mp done
      have one : o.refCount = 1 := by omega
      rw [one, ← not_not.mp kind] at destroyed
      exact ⟨o, (ObjectRepo.live_some live).1, not_not.mp kind, .inr ⟨one, s, destroyed, freed⟩⟩
    · cases done
      exact ⟨o, (ObjectRepo.live_some live).1, not_not.mp kind,
        .inl ⟨Nat.pos_of_ne_zero last, rfl⟩⟩

/-- The objects after the end of one. -/
theorem objs_reclaim {s : ObjectRepo} {o : AraxObject} (freed : reclaim s id o = some next)
    (j : Nat) :
    next.objs j =
      if j = id then some { o with refCount := 0, destroyed := true } else s.objs j := by
  rw [sizeInc_some freed]
  exact ObjectRepo.objs_set s id _ j

/-- An object with references is not one whose destructor is running. -/
theorem RepoOk.not_dying {o : AraxObject} (ok : RepoOk r own outer dying)
    (here : r.objs id = some o) (referenced : 0 < o.refCount) : id ∉ dying := by
  intro member
  obtain ⟨p, found, zero⟩ := ok.unreferenced id member
  rw [here] at found
  cases found
  exact absurd zero (Nat.ne_of_gt referenced)

/-- Virtual accelerators hold no references. -/
theorem ownOf_vaccel (type : r.typeOf id = some .virtAccel) : ownOf r id = 0 := by
  obtain ⟨o, here, type⟩ := Option.map_eq_some_iff.mp type
  unfold ownOf holds
  rw [here]
  simp only [type, ite_self]

/-- What the drop of a reference to a virtual accelerator writes. -/
theorem refDecVaccel_some (done : refDecVaccel r id = some next) :
    ∃ o, r.objs id = some o ∧ o.type = .virtAccel ∧ 0 < o.refCount ∧
      (∀ j, next.objs j = if j = id then some { o with
          refCount := o.refCount - 1
          destroyed := o.destroyed || o.refCount == 1 } else r.objs j) ∧
      next.next = r.next ∧ next.list .physAccel = r.list .physAccel := by
  obtain ⟨o, here, type, ⟨several, rfl⟩ | ⟨last, s, destroyed, freed⟩⟩ := refDecWith_some done
  · have more : (o.refCount == 1) = false := by
      rw [beq_eq_false_iff_ne]
      omega
    refine ⟨o, here, type, by omega, fun j => ?_, rfl, rfl⟩
    rw [more, Bool.or_false]
    exact ObjectRepo.objs_set r id _ j
  · cases destroyed
    refine ⟨o, here, type, by omega, fun j => ?_, ?_, ?_⟩
    · rw [objs_reclaim freed, last, beq_self_eq_true, Bool.or_true]
      split_ifs with same
      · rfl
      · exact (ObjectRepo.objs_set r id _ j).trans (if_neg same)
    · rw [sizeInc_some freed]
      rfl
    · rw [sizeInc_some freed]
      show Function.update r.list o.type _ .physAccel = _
      rw [type, Function.update_of_ne (by simp)]

/-- **The drop of a reference to a virtual accelerator,** also in the middle of a call. -/
theorem RepoOk.refDecVaccel (ok : RepoOk r own (id ::ₘ outer) dying)
    (done : refDecVaccel r id = some next) :
    RepoOk next own outer dying ∧ Extends r next ∧ ownOf next = ownOf r ∧
      r.typeOf id = some .virtAccel ∧ ∀ j, j ≠ id → next.objs j = r.objs j := by
  obtain ⟨o, here, type, before, objs, -⟩ := refDecVaccel_some done
  have typeOf : r.typeOf id = some .virtAccel := type ▸ ObjectRepo.typeOf_of_objs here
  have kept : RepoOk next own outer dying := by
    obtain ⟨o', here', -, ⟨several, rfl⟩ | ⟨last, s, destroyed, freed⟩⟩ := refDecWith_some done
    · exact ok.dropShared here' several
    · -- the destructor of a virtual accelerator drops nothing
      have empty : own id = 0 := by
        refine ok.plain id ?_ ?_ ?_ <;> rw [typeOf] <;> decide
      have dropped := ok.dropLast here' last
      rw [empty, zero_add, Function.update_eq_self_iff.mpr empty.symm] at dropped
      cases destroyed
      have alone := ok.not_dying here' (last ▸ Nat.one_pos)
      refine dropped.reclaim (o := { o' with refCount := 0 }) ?_ rfl alone freed
      exact (ObjectRepo.objs_set r id _ id).trans (if_pos rfl)
  have extended := extends_of_objs here before objs rfl ⟨rfl, rfl⟩
  refine ⟨kept, extended, ?_, typeOf, fun j apart => ?_⟩
  · funext j
    by_cases same : j = id
    · rw [same, ownOf_vaccel typeOf, ownOf_vaccel (extended.types id _ typeOf)]
    · unfold ownOf
      rw [objs, if_neg same]
  · rw [objs, if_neg apart]

/-- What `arax_object_ref_inc` does. -/
theorem refInc_some (done : araxObjectRefInc r id = some next) :
    ∃ o, r.objs id = some o ∧ next = r.set id { o with refCount := o.refCount + 1 } := by
  obtain ⟨o, live, shape⟩ := Option.map_eq_some_iff.mp done
  exact ⟨o, (ObjectRepo.live_some live).1, shape.symm⟩

/-- The counts after `arax_object_ref_inc`. -/
theorem refs_refInc (done : araxObjectRefInc r id = some next) (j : Nat) :
    next.refs j = if j = id then r.refs id + 1 else r.refs j := by
  obtain ⟨o, here, rfl⟩ := refInc_some done
  rw [ObjectRepo.refs_set, ObjectRepo.refs_of_objs here]

/-- Another reference to an object that has some, also in the middle of a call. -/
theorem RepoOk.take (ok : RepoOk r own outer dying) (referenced : 0 < r.refs id)
    (done : araxObjectRefInc r id = some next) :
    RepoOk next own (id ::ₘ outer) dying ∧ Extends r next ∧ ownOf next = ownOf r ∧
      (∀ j, r.refs j ≤ next.refs j) ∧ ∀ j, j ≠ id → next.objs j = r.objs j := by
  obtain ⟨o, here, rfl⟩ := refInc_some done
  have before : 0 < o.refCount := ObjectRepo.refs_of_objs here ▸ referenced
  refine ⟨ok.refInc here before,
    extends_of_objs here before (ObjectRepo.objs_set r id _) rfl ⟨rfl, rfl⟩, ?_, fun j => ?_,
    fun j apart => ?_⟩
  · exact ownOf_set_same here before (Nat.succ_pos _) rfl
  · rw [ObjectRepo.refs_set]
    split_ifs with same
    · rw [same, ObjectRepo.refs_of_objs here]
      exact Nat.le_succ _
    · exact Nat.le_refl _
  · rw [ObjectRepo.objs_set, if_neg apart]

end Single

/-! ### Data and its virtual accelerator -/

section Data

variable {r next : ObjectRepo} {own : Nat → Multiset Nat} {outer : Multiset Nat} {dying : List Nat}
  {data accel : Nat} {d : AraxObject}

/-- What a call leaves as it is that gives `data` to `accel`. -/
structure Moves (r next : ObjectRepo) (data accel : Nat) : Prop where
  extended : Extends r next
  refs : r.refs data ≤ next.refs data
  accel : r.refs accel ≤ next.refs accel
  others : ∀ j, j ≠ data → r.typeOf j ≠ some .virtAccel → next.objs j = r.objs j

/-- **Data gets a virtual accelerator:** a reference is taken, then the field is written. -/
theorem RepoOk.attach (ok : RepoOk r own outer dying) (here : r.objs data = some d)
    (type : d.type = .data) (alive : 0 < d.refCount) (none : own data = 0)
    (virtual : r.typeOf accel = some .virtAccel) (referenced : 0 < r.refs accel)
    (done : ((araxObjectRefInc r accel).bind fun r => setAccel r data accel) = some next) :
    RepoOk next (Function.update own data {accel}) outer dying ∧ Moves r next data accel ∧
      ownOf next = Function.update (ownOf r) data {accel} ∧
      next.objs data = some { d with accel := some accel } := by
  obtain ⟨taken, inc, write⟩ := Option.bind_eq_some_iff.mp done
  obtain ⟨kept, extended, owners, more, others⟩ := ok.take referenced inc
  have apart : data ≠ accel := by
    intro same
    rw [← same, ObjectRepo.typeOf_of_objs here, type] at virtual
    cases virtual
  obtain ⟨d', live, shape⟩ := Option.map_eq_some_iff.mp write
  have found := (ObjectRepo.live_some live).1
  have same : d' = d := by
    rw [others data apart, here] at found
    exact (Option.some.inj found).symm
  rw [same] at shape found
  have typed := kept.typed data d found
  have written : RepoOk next own (accel ::ₘ outer) dying := by
    rw [← shape]
    refine kept.writeFields found rfl rfl rfl rfl alive ⟨fun v field => ?_, typed.io, typed.freeVaq⟩
    rw [← Option.some.inj field]
    exact extended.types accel _ virtual
  have objs : ∀ j, next.objs j =
      if j = data then some { d with accel := some accel } else taken.objs j := by
    rw [← shape]
    exact ObjectRepo.objs_set taken data _
  have attached : next.objs data = some { d with accel := some accel } := by
    rw [objs, if_pos rfl]
  have given := written.give attached (.inr (.inl type))
  rw [none, zero_add] at given
  have refs : ∀ j, next.refs j = taken.refs j := by
    rw [← shape]
    exact refs_write found rfl
  refine ⟨given, ⟨?_, ?_, ?_, fun j away real => ?_⟩, ?_, attached⟩
  · refine extended.trans ⟨keeps_of_objs found alive objs rfl, fun j left => ?_⟩
    obtain ⟨p, there, task, rest⟩ := left
    rw [objs] at there
    split_ifs at there
    · cases there
      rw [type] at task
      cases task
    · exact ⟨p, there, task, rest⟩
  · rw [refs]
    exact more data
  · rw [refs]
    exact more accel
  · rw [objs, if_neg away]
    refine others j fun same => real ?_
    rw [same]
    exact virtual
  · rw [← shape, ownOf_set, if_neg (Nat.ne_of_gt alive), owners]
    unfold holds
    rw [type]
    rfl

/-- What data holds. -/
theorem ownOf_data (here : r.objs data = some d) (type : d.type = .data) (alive : 0 < d.refCount) :
    ownOf r data = ↑d.accel.toList := by
  rw [ownOf_of_objs here alive]
  unfold holds
  rw [type]

/-- What `arax_data_migrate_accel` does. -/
theorem migrate_some (done : araxDataMigrateAccel r data accel = some next) :
    ∃ d, r.live data = some d ∧
      (d.accel = some accel ∧ next = r ∨
        d.accel = none ∧ d.remote = false ∧
          ((araxObjectRefInc r accel).bind fun r => setAccel r data accel) = some next ∨
        ∃ dvac old new dropped, d.accel = some dvac ∧ dvac ≠ accel ∧ r.live dvac = some old ∧
          r.live accel = some new ∧
          (old.type = .virtAccel ∧ new.type = .virtAccel ∧ old.phys = new.phys) ∧
          refDecVaccel r dvac = some dropped ∧
          ((araxObjectRefInc dropped accel).bind fun r => setAccel r data accel) = some next) := by
  obtain ⟨d, live, done⟩ := Option.bind_eq_some_iff.mp done
  refine ⟨d, live, ?_⟩
  by_cases already : d.accel = some accel
  · rw [if_pos already] at done
    cases done
    exact .inl ⟨already, rfl⟩
  rw [if_neg already] at done
  cases field : d.accel with
  | none =>
    simp only [field] at done
    split_ifs at done with remote
    exact .inr (.inl ⟨rfl, Bool.eq_false_of_not_eq_true remote, done⟩)
  | some dvac =>
    simp only [field] at done
    obtain ⟨old, there, done⟩ := Option.bind_eq_some_iff.mp done
    obtain ⟨new, there', done⟩ := Option.bind_eq_some_iff.mp done
    split_ifs at done with checks
    obtain ⟨dropped, drop, done⟩ := Option.bind_eq_some_iff.mp done
    have apart : dvac ≠ accel := fun same => already (field.trans (congrArg some same))
    exact .inr (.inr ⟨dvac, old, new, dropped, rfl, apart, there, there', checks, drop, done⟩)

/-- **`arax_data_migrate_accel`.** -/
theorem RepoOk.migrate (ok : RepoOk r (ownOf r) outer dying) (type : r.typeOf data = some .data)
    (alive : 0 < r.refs data) (virtual : r.typeOf accel = some .virtAccel)
    (referenced : 0 < r.refs accel) (done : araxDataMigrateAccel r data accel = some next) :
    RepoOk next (ownOf next) outer dying ∧ Moves r next data accel := by
  obtain ⟨d, live, outcome⟩ := migrate_some done
  have here := (ObjectRepo.live_some live).1
  have type : d.type = .data :=
    Option.some.inj ((ObjectRepo.typeOf_of_objs here).symm.trans type)
  have alive : 0 < d.refCount := ObjectRepo.refs_of_objs here ▸ alive
  have holds := ownOf_data here type alive
  rcases outcome with ⟨-, rfl⟩ | ⟨field, -, done⟩ |
    ⟨dvac, -, -, dropped, field, apart, -, -, -, drop, done⟩
  · exact ⟨ok, Extends.refl next, Nat.le_refl _, Nat.le_refl _, fun _ _ _ => rfl⟩
  · rw [field] at holds
    obtain ⟨kept, moves, owners, -⟩ := ok.attach here type alive holds virtual referenced done
    rw [owners]
    exact ⟨kept, moves⟩
  · rw [field] at holds
    -- the reference of the data is given up before the field is written
    have given : RepoOk r (Function.update (ownOf r) data 0) (dvac ::ₘ outer) dying := by
      refine ok.exchange (ok.inside here) ?_ fun impossible => absurd rfl impossible
      rw [holds, add_zero, ← Multiset.singleton_add, add_comm]
      rfl
    obtain ⟨kept, extended, owners, gone, others⟩ := given.refDecVaccel drop
    have still : dropped.objs data = some d := by
      rw [others data, here]
      intro same
      rw [← same, ObjectRepo.typeOf_of_objs here, type] at gone
      cases gone
    have refs : dropped.refs accel = r.refs accel := by
      unfold ObjectRepo.refs
      rw [others accel apart.symm]
    obtain ⟨kept, moves, owners', -⟩ := kept.attach still type alive (Function.update_self _ _ _)
      (extended.types accel _ virtual) (refs ▸ referenced) done
    rw [Function.update_idem] at kept
    rw [owners', owners]
    refine ⟨kept, extended.trans moves.extended, ?_, refs ▸ moves.accel, fun j away real => ?_⟩
    · have same : dropped.refs data = r.refs data := by
        rw [ObjectRepo.refs_of_objs here, ObjectRepo.refs_of_objs still]
      exact same ▸ moves.refs
    · have kind : j ≠ dvac := fun same => real (same ▸ gone)
      rw [moves.others j away, others j kind]
      unfold ObjectRepo.typeOf at real ⊢
      rw [others j kind]
      exact real

end Data

/-! ### Tasks -/

section Tasks

variable {r next : ObjectRepo} {outer : Multiset Nat} {dying : List Nat} {task data accel : Nat}
  {t : AraxObject}

/-- What a task holds. -/
theorem ownOf_task (there : r.objs task = some t) (kind : t.type = .task) (alive : 0 < t.refCount) :
    ownOf r task = ↑(t.io ++ if t.issued then t.accel.toList else []) := by
  rw [ownOf_of_objs there alive]
  unfold holds
  rw [kind]

/-- What a task leaves as it is that takes `io` as its inputs and outputs: these get a reference for
each time they are named, and move to `accel`. -/
structure Collects (r next : ObjectRepo) (task accel : Nat) (io : List Nat) : Prop where
  extended : Extends r next
  refs : ∀ j, r.typeOf j = some .data → r.refs j + io.count j ≤ next.refs j
  accel : r.refs accel ≤ next.refs accel
  others : ∀ j, j ≠ task → r.typeOf j ≠ some .data → r.typeOf j ≠ some .virtAccel →
    next.objs j = r.objs j

theorem Collects.refl (r : ObjectRepo) (task accel : Nat) : Collects r r task accel [] :=
  ⟨Extends.refl r, fun _ _ => Nat.le_refl _, Nat.le_refl _, fun _ _ _ _ => rfl⟩

/-- One input or output after the other. -/
theorem Collects.trans {s : ObjectRepo} {io : List Nat} (first : Collects r s task accel io)
    (second : Collects s next task accel [data]) : Collects r next task accel (io ++ [data]) := by
  refine ⟨first.extended.trans second.extended, fun j type => ?_,
    Nat.le_trans first.accel second.accel, fun j apart type kind => ?_⟩
  · have before := first.refs j type
    have after := second.refs j (first.extended.types j _ type)
    rw [List.count_append]
    omega
  · have same := first.others j apart type kind
    have types : s.typeOf j = r.typeOf j := congrArg (Option.map AraxObject.type) same
    rw [second.others j apart (types ▸ type) (types ▸ kind), same]

/-- An input or output of a task: the task owns a reference to it. -/
theorem RepoOk.ioInit (ok : RepoOk r (ownOf r) outer dying) (there : r.objs task = some t)
    (kind : t.type = .task) (open' : 0 < t.refCount) (type : r.typeOf data = some .data)
    (alive : 0 < r.refs data) (virtual : r.typeOf accel = some .virtAccel)
    (referenced : 0 < r.refs accel) (done : ioInit task accel r data = some next) :
    RepoOk next (ownOf next) outer dying ∧ Collects r next task accel [data] ∧
      next.objs task = some { t with io := t.io ++ [data] } := by
  obtain ⟨t', live, done⟩ := Option.bind_eq_some_iff.mp done
  cases (ObjectRepo.live_some live).1.symm.trans there
  obtain ⟨taken, inc, migrate⟩ := Option.bind_eq_some_iff.mp done
  have typed := ok.typed task t there
  have written : RepoOk (r.set task { t with io := t.io ++ [data] }) (ownOf r) outer dying := by
    refine ok.writeFields there rfl rfl rfl rfl open'
      ⟨typed.accel, fun j member => ?_, typed.freeVaq⟩
    rcases List.mem_append.mp member with old | new
    · exact typed.io j old
    · rw [List.mem_singleton.mp new]
      exact type
  have extended : Extends r (r.set task { t with io := t.io ++ [data] }) :=
    extends_of_objs there open' (ObjectRepo.objs_set r task _) rfl ⟨rfl, rfl⟩
  have refs : ∀ j, (r.set task { t with io := t.io ++ [data] }).refs j = r.refs j :=
    refs_write there rfl
  have one : taken.refs data = r.refs data + 1 := by
    rw [refs_refInc inc, if_pos rfl, refs]
  obtain ⟨counted, extended', owners, more, others⟩ := written.take ((refs data).symm ▸ alive) inc
  have apart : task ≠ data := by
    intro same
    rw [← same, ObjectRepo.typeOf_of_objs there, kind] at type
    cases type
  have found : taken.objs task = some { t with io := t.io ++ [data] } := by
    rw [others task apart, ObjectRepo.objs_set, if_pos rfl]
  have held : ownOf taken = Function.update (ownOf r) task (ownOf r task + {data}) := by
    rw [owners, ownOf_set, if_neg (Nat.ne_of_gt open'), ownOf_task there kind open']
    unfold holds
    rw [kind]
    congr 1
    simp only [← Multiset.coe_add, ← Multiset.coe_singleton]
    exact add_right_comm _ _ _
  have owned : RepoOk taken (ownOf taken) outer dying := by
    rw [held]
    exact counted.give found (.inl kind)
  have real : taken.typeOf task ≠ some .virtAccel := by
    rw [ObjectRepo.typeOf_of_objs found, kind]
    decide
  have grown : ∀ j, r.refs j ≤ taken.refs j := fun j => refs j ▸ more j
  have both := extended.trans extended'
  obtain ⟨kept, moves⟩ := owned.migrate (both.types data _ type)
    (Nat.lt_of_lt_of_le alive (grown _)) (both.types accel _ virtual)
    (Nat.lt_of_lt_of_le referenced (grown _)) migrate
  refine ⟨kept, ⟨both.trans moves.extended, fun j known => ?_,
    Nat.le_trans (grown accel) moves.accel, fun j away known virtual => ?_⟩, ?_⟩
  · by_cases same : j = data
    · rw [same, List.count_singleton_self, ← one]
      exact moves.refs
    · have still : next.refs j = taken.refs j := by
        unfold ObjectRepo.refs
        rw [moves.others j same]
        rw [both.types j _ known]
        decide
      rw [still, List.count_singleton, if_neg (by simpa using Ne.symm same)]
      exact grown j
  · have away' : j ≠ data := fun same => known (same ▸ type)
    have before : taken.objs j = r.objs j := by
      rw [others j away', ObjectRepo.objs_set, if_neg away]
    have kind' : taken.typeOf j ≠ some .virtAccel := by
      unfold ObjectRepo.typeOf at virtual ⊢
      rw [before]
      exact virtual
    rw [moves.others j away' kind', before]
  · rw [moves.others task apart real, found]

/-- All inputs and outputs of a task. -/
theorem RepoOk.ioInits {io : List Nat} (ok : RepoOk r (ownOf r) outer dying)
    (there : r.objs task = some t) (kind : t.type = .task) (open' : 0 < t.refCount)
    (types : ∀ data ∈ io, r.typeOf data = some .data) (alive : ∀ data ∈ io, 0 < r.refs data)
    (virtual : r.typeOf accel = some .virtAccel) (referenced : 0 < r.refs accel)
    (done : io.foldlM (Core.ioInit task accel) r = some next) :
    RepoOk next (ownOf next) outer dying ∧ Collects r next task accel io ∧
      next.objs task = some { t with io := t.io ++ io } := by
  let inv (rest : List Nat) (s : ObjectRepo) : Prop :=
    ∃ past, io = past ++ rest ∧ RepoOk s (ownOf s) outer dying ∧ Collects r s task accel past ∧
      s.objs task = some { t with io := t.io ++ past }
  rw [foldlM_eq_exec] at done
  have last : inv [] next := by
    refine exec_rest inv (fun data rest s s' before move => ?_)
      ⟨[], rfl, ok, Collects.refl r task accel, by rw [List.append_nil]; exact there⟩ done
    obtain ⟨past, split, ok, collects, there⟩ := before
    have member : data ∈ io := split ▸ List.mem_append_right past List.mem_cons_self
    have more := collects.refs data (types data member)
    have known := collects.extended.types
    obtain ⟨kept, collects', there'⟩ := ok.ioInit there kind open'
      (known data _ (types data member)) (Nat.lt_of_lt_of_le (alive data member) (by omega))
      (known accel _ virtual) (Nat.lt_of_lt_of_le referenced collects.accel) move
    refine ⟨past ++ [data], by rw [split, List.append_assoc]; rfl, kept, collects.trans collects',
      ?_⟩
    rw [there', List.append_assoc]
  obtain ⟨past, split, kept, collects, found⟩ := last
  rw [List.append_nil] at split
  rw [split]
  exact ⟨kept, collects, found⟩

/-- `arax_task_submit`: the task owns a reference to its virtual accelerator from now on. -/
theorem RepoOk.submit (ok : RepoOk r (ownOf r) outer dying) (there : r.objs task = some t)
    (kind : t.type = .task) (alive : 0 < t.refCount) (open' : t.issued = false)
    (mine : t.accel = some accel) (virtual : r.typeOf accel = some .virtAccel)
    (referenced : 0 < r.refs accel) (done : araxTaskSubmit r task accel = some next) :
    RepoOk next (ownOf next) outer dying ∧ Keeps r next ∧
      next.objs task = some { t with issued := true } ∧ (∀ j, r.refs j ≤ next.refs j) ∧
      ∀ j, j ≠ task → Unsubmitted next j → Unsubmitted r j := by
  obtain ⟨taken, inc, write⟩ := Option.bind_eq_some_iff.mp done
  obtain ⟨counted, extended, owners, more, others⟩ := ok.take referenced inc
  have apart : task ≠ accel := by
    intro same
    rw [← same, ObjectRepo.typeOf_of_objs there, kind] at virtual
    cases virtual
  obtain ⟨t', live, shape⟩ := Option.map_eq_some_iff.mp write
  have found := (ObjectRepo.live_some live).1
  cases found.symm.trans ((others task apart).trans there)
  have typed := counted.typed task t found
  have objs : ∀ j, next.objs j =
      if j = task then some { t with issued := true } else taken.objs j := by
    rw [← shape]
    exact ObjectRepo.objs_set taken task _
  have refs : ∀ j, next.refs j = taken.refs j := by
    rw [← shape]
    exact refs_write found rfl
  have issued : next.objs task = some { t with issued := true } := by rw [objs, if_pos rfl]
  have written : RepoOk next (ownOf r) (accel ::ₘ outer) dying := by
    rw [← shape]
    exact counted.writeFields found rfl rfl rfl rfl alive ⟨typed.accel, typed.io, typed.freeVaq⟩
  have given := written.give issued (.inl kind)
  have held : ownOf next = Function.update (ownOf r) task (ownOf r task + {accel}) := by
    rw [← shape, ownOf_set, if_neg (Nat.ne_of_gt alive), owners, ownOf_task there kind alive]
    unfold holds
    rw [kind]
    simp only [open', mine]
    simp [← Multiset.coe_add]
  rw [held]
  refine ⟨given, extended.toKeeps.trans (keeps_of_objs found alive objs rfl), issued, fun j => ?_,
    fun j away left => extended.submits j ?_⟩
  · exact refs j ▸ more j
  · obtain ⟨p, here, rest⟩ := left
    rw [objs, if_neg away] at here
    exact ⟨p, here, rest⟩

/-- What `arax_task_alloc` does: there is a task with its data and its virtual accelerator that is
not submitted yet. -/
structure Allocates (r next : ObjectRepo) (task accel : Nat) (io : List Nat) : Prop where
  keeps : Keeps r next
  fresh : r.objs task = none
  made : ∃ t, next.objs task = some t ∧ t.type = .task ∧ t.refCount = 1 ∧ t.issued = false ∧
    t.accel = some accel ∧ t.io = io
  submits : ∀ j, j ≠ task → Unsubmitted next j → Unsubmitted r j
  refs : ∀ j, 0 < r.refs j → r.typeOf j = some .data → r.refs j + io.count j ≤ next.refs j
  referenced : 0 < next.refs accel
  /-- Objects that are neither data nor virtual accelerators are as before. -/
  others : ∀ j, j ≠ task → r.typeOf j ≠ some .data → r.typeOf j ≠ some .virtAccel →
    next.objs j = r.objs j

/-- **`arax_task_alloc`.** Its task is held by the caller. -/
theorem RepoOk.alloc {sizes : Sizeofs} {proc hostSize : Nat} {io : List Nat}
    (ok : RepoOk r (ownOf r) outer dying) (types : ∀ data ∈ io, r.typeOf data = some .data)
    (alive : ∀ data ∈ io, 0 < r.refs data) (virtual : r.typeOf accel = some .virtAccel)
    (referenced : 0 < r.refs accel)
    (done : araxTaskAlloc sizes r accel proc hostSize io = some (next, task)) :
    RepoOk next (ownOf next) (task ::ₘ outer) dying ∧ Allocates r next task accel io := by
  obtain ⟨⟨made, id⟩, register, done⟩ := Option.bind_eq_some_iff.mp done
  obtain ⟨t, live, done⟩ := Option.bind_eq_some_iff.mp done
  obtain ⟨last, fold, pair⟩ := Option.map_eq_some_iff.mp done
  cases pair
  have registered := ok.register Nat.one_pos register
  rw [Multiset.replicate_one, Multiset.singleton_add, ← ok.ownOf_register register] at registered
  have extended := ok.extends_register register
  have number := (register_some register).1
  have found := (ObjectRepo.live_some live).1
  have fresh : t =
      freshObject .task "Task" (sizes.task + sizes.pointer * io.length + hostSize) 1 := by
    rw [objs_register register, if_pos number] at found
    exact (Option.some.inj found).symm
  have kind : t.type = .task := fresh ▸ rfl
  have one : t.refCount = 1 := fresh ▸ rfl
  have alive' : 0 < t.refCount := one ▸ Nat.one_pos
  have older : ∀ j, 0 < r.refs j → made.refs j = r.refs j := by
    intro j referenced
    obtain ⟨o, here, -⟩ := ok.present referenced
    unfold ObjectRepo.refs
    rw [objs_register register, if_neg (Nat.ne_of_lt (ok.inside here))]
  have typed := registered.typed task t found
  have written : RepoOk (made.set task { t with accel := some accel, proc := some proc })
      (ownOf made) (task ::ₘ outer) dying := by
    refine registered.writeFields found rfl rfl rfl rfl alive'
      ⟨fun v field => ?_, typed.io, typed.freeVaq⟩
    rw [← Option.some.inj field]
    exact extended.types accel _ virtual
  have objs := ObjectRepo.objs_set made task { t with accel := some accel, proc := some proc }
  have keeps := keeps_of_objs found alive' objs rfl
  have refs : ∀ j, (made.set task { t with accel := some accel, proc := some proc }).refs j =
      made.refs j := refs_write found rfl
  -- an unsubmitted task owns its data only, and there are none yet
  have owners : ownOf (made.set task { t with accel := some accel, proc := some proc }) =
      ownOf made := by
    rw [ownOf_set, Function.update_eq_self_iff, ownOf_task found kind alive']
    unfold holds
    simp only [fresh]
    rfl
  rw [← owners] at written
  have known : ∀ j type, r.typeOf j = some type →
      (made.set task { t with accel := some accel, proc := some proc }).typeOf j = some type :=
    fun j type before => keeps.types _ _ (extended.types j type before)
  obtain ⟨kept, collects, built⟩ := written.ioInits ((objs task).trans (if_pos rfl)) kind alive'
    (fun data member => known data _ (types data member))
    (fun data member => (by rw [refs, older data (alive data member)]; exact alive data member))
    (known accel _ virtual) (by rw [refs, older accel referenced]; exact referenced) fold
  refine ⟨kept, (extended.toKeeps.trans keeps).trans collects.extended.toKeeps,
    number ▸ ok.fresh r.next (Nat.le_refl _), ⟨_, built, kind, one, fresh ▸ rfl, rfl, ?_⟩,
    fun j away left => extended.submits j ?_, fun j alive type => ?_,
    Nat.lt_of_lt_of_le ?_ collects.accel, fun j away type virtual => ?_⟩
  · show t.io ++ io = io
    rw [fresh]
    rfl
  · obtain ⟨p, here, rest⟩ := collects.extended.submits j left
    rw [objs, if_neg away] at here
    exact ⟨p, here, rest⟩
  · have more := collects.refs j (known j _ type)
    rwa [refs, older j alive] at more
  · rw [refs, older accel referenced]
    exact referenced
  · have before : (made.set task { t with accel := some accel, proc := some proc }).objs j =
        r.objs j := by
      rw [objs, if_neg away, objs_register register, if_neg (number ▸ away)]
    have typeOf : (made.set task { t with accel := some accel, proc := some proc }).typeOf j =
        r.typeOf j := congrArg (Option.map AraxObject.type) before
    rw [collects.others j away (typeOf ▸ type) (typeOf ▸ virtual), before]

/-- What `arax_task_issue` does: its inputs and outputs are data, its accelerator is virtual, and
the task is allocated and submitted. -/
theorem issue_some {sizes : Sizeofs} {proc hostSize : Nat} {io : List Nat}
    (done : araxTaskIssue sizes r accel proc hostSize io = some (next, task)) :
    (∀ data ∈ io, ∃ d, r.live data = some d ∧ d.type = .data) ∧
      (∃ v, r.live accel = some v ∧ v.type = .virtAccel) ∧
      ∃ made, araxTaskAlloc sizes r accel proc hostSize io = some (made, task) ∧
        araxTaskSubmit made task accel = some next := by
  unfold araxTaskIssue at done
  split_ifs at done with checks
  obtain ⟨⟨made, id⟩, alloc, done⟩ := Option.bind_eq_some_iff.mp done
  obtain ⟨last, submit, pair⟩ := Option.map_eq_some_iff.mp done
  cases pair
  refine ⟨fun data member => ?_, Option.map_eq_some_iff.mp checks.2, made, alloc, submit⟩
  have type := List.all_eq_true.mp checks.1 data member
  exact Option.map_eq_some_iff.mp (eq_of_beq type)

/-- What is known of a task that was issued: it has its inputs and outputs, and these have got their
references. -/
structure Issued (r next : ObjectRepo) (task : Nat) (io : List Nat) : Prop where
  made : ∃ t, next.objs task = some t ∧ t.type = .task ∧ t.refCount = 1 ∧ t.io = io
  refs : ∀ j, 0 < r.refs j → r.typeOf j = some .data → r.refs j + io.count j ≤ next.refs j

theorem Issued.typeOf {io : List Nat} (issued : Issued r next task io) :
    next.typeOf task = some .task := by
  obtain ⟨t, there, kind, -⟩ := issued.made
  exact kind ▸ ObjectRepo.typeOf_of_objs there

/-- **`arax_task_issue`.** Its task is held by the caller. -/
theorem RepoOk.issue {sizes : Sizeofs} {proc hostSize : Nat} {io : List Nat}
    (ok : RepoOk r (ownOf r) outer dying) (calm : ∀ j ∈ dying, r.typeOf j ≠ some .virtAccel)
    (alive : ∀ data ∈ io, 0 < r.refs data)
    (done : araxTaskIssue sizes r accel proc hostSize io = some (next, task)) :
    RepoOk next (ownOf next) (task ::ₘ outer) dying ∧ Extends r next ∧
      Issued r next task io := by
  obtain ⟨datas, ⟨v, live, type⟩, made, alloc, submit⟩ := issue_some done
  have types : ∀ data ∈ io, r.typeOf data = some .data := by
    intro data member
    obtain ⟨d, live, type⟩ := datas data member
    exact type ▸ ObjectRepo.typeOf_of_live live
  obtain ⟨here, running⟩ := ObjectRepo.live_some live
  have virtual : r.typeOf accel = some .virtAccel := type ▸ ObjectRepo.typeOf_of_objs here
  have referenced : 0 < r.refs accel := by
    rw [ObjectRepo.refs_of_objs here]
    refine Nat.pos_of_ne_zero fun zero => ?_
    exact calm accel ((ok.ended accel v here zero).mp running) virtual
  obtain ⟨kept, allocates⟩ := ok.alloc types alive virtual referenced alloc
  obtain ⟨t, there, kind, one, open', mine, io'⟩ := allocates.made
  have keeps := allocates.keeps
  obtain ⟨kept, keeps', issued, more, submits'⟩ := kept.submit there kind (one ▸ Nat.one_pos) open'
    mine (keeps.types accel _ virtual) allocates.referenced submit
  refine ⟨kept, ⟨keeps.trans keeps', fun j left => ?_⟩, ⟨_, issued, kind, one, io'⟩,
    fun j alive type => Nat.le_trans (allocates.refs j alive type) (more j)⟩
  by_cases same : j = task
  · obtain ⟨p, found, -, -, unissued⟩ := left
    rw [same, issued] at found
    cases found
    cases unissued
  · exact allocates.submits j same (submits' j same left)

end Tasks

end Arax.Core
