/-
**References through the calls of the API.**

Every call keeps the accounting of the repository: `Sound r outer` holds between calls, where
`outer` are the references that are held outside the repository. A call takes from `outer` what the
caller gives back and adds to it what the caller gets; beyond that, destructors may leave tasks and
procedures there (`Settles`).

* `Sound` — the accounting between two calls.
* `Sound.vaccelInit`, `Sound.accelInit`, `accelList_settles`, … — one lemma for each call.
-/

import Arax.Core.Api
import Arax.Core.Destructors

namespace Arax.Core

open Arax.Lib

/-- The accounting between two calls: no destructor is running, and every task is submitted. -/
structure Sound (r : ObjectRepo) (outer : Multiset Nat) : Prop where
  ok : RepoOk r (ownOf r) outer []
  submitted : ∀ j, ¬ Unsubmitted r j

section Calls

variable {sizes : Sizeofs} {r s next : ObjectRepo} {outer outer' : Multiset Nat} {id : Nat}
  {o : AraxObject}

/-- What `arax_proc_register` does. -/
theorem araxProcRegister_cases {name : String} {proc : Nat}
    (done : araxProcRegister sizes r name = some (next, proc)) :
    (araxPipeFindProc r name = some proc ∧ next = r) ∨
      (araxPipeFindProc r name = none ∧
        araxObjectRegister r .proc name sizes.proc 1 = some (next, proc)) := by
  unfold araxProcRegister at done
  cases find : araxPipeFindProc r name with
  | some found =>
    rw [find] at done
    cases done
    exact .inl ⟨rfl, rfl⟩
  | none =>
    rw [find] at done
    exact .inr ⟨rfl, done⟩

/-- A call leaves no task unsubmitted. -/
theorem Sound.onwards (sound : Sound r outer') (ok : RepoOk next (ownOf next) outer [])
    (extended : Extends r next) : Sound next outer :=
  ⟨ok, fun j open' => sound.submitted j (extended.submits j open')⟩

/-- After a call the accounting holds again. -/
theorem Sound.settled (sound : Sound r outer') (settles : Settles r next outer []) :
    ∃ left, Sound next (left + outer) ∧
      ∀ j ∈ left, next.typeOf j = some .task ∨ next.typeOf j = some .proc := by
  obtain ⟨left, ok, extended, kinds⟩ := settles
  exact ⟨left, sound.onwards ok extended, kinds⟩

/-- Between calls, an object that may be accessed has references. -/
theorem Sound.referenced (sound : Sound r outer) (live : r.live id = some o) :
    r.objs id = some o ∧ 0 < o.refCount := by
  obtain ⟨here, running⟩ := ObjectRepo.live_some live
  refine ⟨here, Nat.pos_of_ne_zero fun zero => ?_⟩
  exact absurd ((sound.ok.ended id o here zero).mp running) List.not_mem_nil

/-- Objects hold references to virtual accelerators and to data. -/
theorem Sound.mem_holds {j : Nat} (sound : Sound r outer)
    (here : r.objs j = some o) (member : id ∈ holds o) :
    r.typeOf id = some .virtAccel ∨ r.typeOf id = some .data := by
  have typed := sound.ok.typed j o here
  unfold holds at member
  cases type : o.type with
  | physAccel =>
    simp only [type, Multiset.mem_coe, Option.mem_toList] at member
    exact .inl (typed.freeVaq id member)
  | virtAccel | proc =>
    simp only [type, Multiset.notMem_zero] at member
  | data =>
    simp only [type, Multiset.mem_coe, Option.mem_toList] at member
    exact .inl (typed.accel id member)
  | task =>
    simp only [type, Multiset.mem_coe, List.mem_append] at member
    rcases member with data | accel
    · exact .inr (typed.io id data)
    · split_ifs at accel
      · exact .inl (typed.accel id (Option.mem_toList.mp accel))
      · cases accel

theorem Sound.mem_ownOf {j : Nat} (sound : Sound r outer) (member : id ∈ ownOf r j) :
    r.typeOf id = some .virtAccel ∨ r.typeOf id = some .data := by
  unfold ownOf at member
  cases here : r.objs j with
  | none =>
    rw [here] at member
    exact absurd member (Multiset.notMem_zero id)
  | some o =>
    rw [here] at member
    simp only at member
    split_ifs at member
    · exact absurd member (Multiset.notMem_zero id)
    · exact sound.mem_holds here member

/-- The references to objects of the other types are all outside the repository. -/
theorem Sound.count_outside (sound : Sound r outer) (virtual : r.typeOf id ≠ some .virtAccel)
    (data : r.typeOf id ≠ some .data) : r.refs id = outer.count id := by
  have none : (held r.next (ownOf r)).count id = 0 := by
    rw [Multiset.count_eq_zero, held, Multiset.mem_sum]
    rintro ⟨j, -, member⟩
    exact (sound.mem_ownOf member).elim virtual data
  rw [sound.ok.counts, Multiset.count_add, none, Nat.add_zero]

/-- A write to fields that hold no references. -/
theorem Sound.write (sound : Sound r outer) (o' : AraxObject) (here : r.objs id = some o)
    (alive : 0 < o.refCount)
    (fixed : o'.type = o.type ∧ o'.allocSize = o.allocSize ∧ o'.destroyed = o.destroyed ∧
      o'.refCount = o.refCount)
    (fields : o'.accel = o.accel ∧ o'.issued = o.issued ∧ o'.io = o.io ∧ o'.freeVaq = o.freeVaq) :
    Sound (r.set id o') outer ∧ Extends r (r.set id o') ∧ ownOf (r.set id o') = ownOf r := by
  have typed := sound.ok.typed id o here
  have same : holds o' = holds o := by
    unfold holds
    rw [fixed.1, fields.1, fields.2.1, fields.2.2.1, fields.2.2.2]
  have owners : ownOf (r.set id o') = ownOf r :=
    ownOf_set_same here alive (fixed.2.2.2 ▸ alive) same
  have extended : Extends r (r.set id o') :=
    extends_of_objs here alive (ObjectRepo.objs_set r id o') fixed.1 ⟨fields.1, fields.2.1⟩
  refine ⟨sound.onwards ?_ extended, extended, owners⟩
  rw [owners]
  refine sound.ok.writeFields here fixed.1 fixed.2.1 fixed.2.2.1 fixed.2.2.2 alive ⟨?_, ?_, ?_⟩
  · rw [fields.1]
    exact typed.accel
  · rw [fields.2.2.1]
    exact typed.io
  · rw [fields.2.2.2]
    exact typed.freeVaq

/-- `arax_object_ref_inc`. -/
theorem Sound.take (sound : Sound r outer) (done : araxObjectRefInc r id = some next) :
    Sound next (id ::ₘ outer) ∧ Extends r next ∧ (∀ j, r.refs j ≤ next.refs j) ∧
      ∀ j, j ≠ id → next.objs j = r.objs j := by
  obtain ⟨o, live, -⟩ := Option.map_eq_some_iff.mp done
  obtain ⟨here, alive⟩ := sound.referenced live
  obtain ⟨kept, extended, owners, more, others⟩ :=
    sound.ok.take (ObjectRepo.refs_of_objs here ▸ alive) done
  exact ⟨sound.onwards (owners ▸ kept) extended, extended, more, others⟩

/-- `arax_object_register`. -/
theorem Sound.register {type : ObjectType} {name : String} {size refCount : Nat}
    (sound : Sound r outer) (positive : 0 < refCount)
    (done : araxObjectRegister r type name size refCount = some (next, id)) :
    Sound next (Multiset.replicate refCount id + outer) ∧ Extends r next := by
  have extended := sound.ok.extends_register done
  refine ⟨sound.onwards ?_ extended, extended⟩
  rw [sound.ok.ownOf_register done]
  exact sound.ok.register positive done

/-- `arax_object_ref_dec` on a list of references that the caller owns, one after the other. -/
theorem refDecs_settles {ids : List Nat} (sound : Sound r (↑ids + outer))
    (done : ids.foldlM (araxObjectRefDec sizes) r = some next) : Settles r next outer [] := by
  rw [foldlM_eq_exec] at done
  have rule : Settles r next (↑([] : List Nat) + outer) [] := by
    refine exec_rest (fun rest s => Settles r s (↑rest + outer) [])
      (fun id rest s t before drop => ?_) (settles_of_ok sound.ok (Extends.refl r)) done
    obtain ⟨left, kept, extended, kinds⟩ := before
    refine Settles.after extended kinds (refDec_settles ?_ (fun j open' => ?_) drop)
    · rw [← Multiset.cons_coe, Multiset.cons_add, Multiset.add_cons] at kept
      exact kept
    · exact sound.submitted j (extended.submits j open')
  rwa [Multiset.coe_nil, zero_add] at rule

/-! ### Accelerators -/

/-- `arax_accel_add_vaccel`: no reference changes. -/
theorem Sound.addVaccel {accel vaccel : Nat} (sound : Sound r outer)
    (done : araxAccelAddVaccel r accel vaccel = some next) :
    Sound next outer ∧ Extends r next ∧ ∀ j, j ≠ vaccel → next.objs j = r.objs j := by
  obtain ⟨a, -, done⟩ := Option.bind_eq_some_iff.mp done
  obtain ⟨v, live, done⟩ := Option.bind_eq_some_iff.mp done
  split_ifs at done
  · cases done
    exact ⟨sound, Extends.refl r, fun _ _ => rfl⟩
  · cases done
    obtain ⟨here, alive⟩ := sound.referenced live
    obtain ⟨kept, extended, -⟩ := sound.write { v with phys := some accel } here alive
      ⟨rfl, rfl, rfl, rfl⟩ ⟨rfl, rfl, rfl, rfl⟩
    exact ⟨kept, extended, fun j apart => (ObjectRepo.objs_set r vaccel _ j).trans (if_neg apart)⟩

/-- `arax_vaccel_init`: the reference to the new virtual accelerator goes to the caller. -/
theorem Sound.vaccelInit {name : String} {type : AccelType} {accel : Option Nat} {vaccel : Nat}
    (sound : Sound r outer) (done : araxVaccelInit sizes r name type accel = some (next, vaccel)) :
    Sound next (vaccel ::ₘ outer) ∧ Extends r next ∧ next.typeOf vaccel = some .virtAccel ∧
      ∀ j o, r.objs j = some o → next.objs j = some o := by
  obtain ⟨⟨made, id⟩, register, done⟩ := Option.bind_eq_some_iff.mp done
  obtain ⟨v, live, done⟩ := Option.bind_eq_some_iff.mp done
  obtain ⟨registered, extended⟩ := sound.register Nat.one_pos register
  rw [Multiset.replicate_one, Multiset.singleton_add] at registered
  obtain ⟨here, alive⟩ := registered.referenced live
  have number := (register_some register).1
  have older : ∀ j o, r.objs j = some o → j ≠ id ∧ made.objs j = some o := by
    intro j o found
    have inside := Nat.ne_of_lt (sound.ok.inside found)
    rw [objs_register register, if_neg inside, number]
    exact ⟨inside, found⟩
  have kind : v.type = .virtAccel := by
    rw [objs_register register, if_pos number] at here
    exact Option.some.inj here ▸ rfl
  obtain ⟨written, extended', -⟩ := registered.write
    { v with phys := none, accelType := type } here alive ⟨rfl, rfl, rfl, rfl⟩
    ⟨rfl, rfl, rfl, rfl⟩
  have objs := ObjectRepo.objs_set made id { v with phys := none, accelType := type }
  have typeOf := extended'.types id _ (kind ▸ ObjectRepo.typeOf_of_objs here)
  cases accel with
  | none =>
    cases done
    refine ⟨written, extended.trans extended', typeOf, fun j o found => ?_⟩
    rw [objs, if_neg (older j o found).1]
    exact (older j o found).2
  | some accel =>
    obtain ⟨added, add, pair⟩ := Option.map_eq_some_iff.mp done
    cases pair
    obtain ⟨kept, added, others⟩ := written.addVaccel add
    refine ⟨kept, (extended.trans extended').trans added, added.types _ _ typeOf,
      fun j o found => ?_⟩
    rw [others j (older j o found).1, objs, if_neg (older j o found).1]
    exact (older j o found).2

/-- `arax_accel_init`: the reference to `free_vaq` belongs to the physical accelerator. -/
theorem Sound.accelInit {name : String} {type : AccelType} {size capacity obj : Nat}
    (sound : Sound r outer)
    (done : araxAccelInit sizes r name type size capacity = some (next, obj)) :
    Sound next (obj ::ₘ outer) ∧ Extends r next := by
  obtain ⟨⟨made, id⟩, register, done⟩ := Option.bind_eq_some_iff.mp done
  obtain ⟨a, live, done⟩ := Option.bind_eq_some_iff.mp done
  simp only at done
  split_ifs at done
  obtain ⟨⟨owner, freeVaq⟩, init, done⟩ := Option.bind_eq_some_iff.mp done
  obtain ⟨a', live', pair⟩ := Option.map_eq_some_iff.mp done
  obtain ⟨registered, extended⟩ := sound.register Nat.one_pos register
  rw [Multiset.replicate_one, Multiset.singleton_add] at registered
  obtain ⟨here, alive⟩ := registered.referenced live
  have fresh : a = freshObject .physAccel name sizes.accel 1 := by
    rw [objs_register register, if_pos (register_some register).1] at here
    exact (Option.some.inj here).symm
  obtain ⟨written, typing, -⟩ := registered.write { a with accelType := type } here alive
    ⟨rfl, rfl, rfl, rfl⟩ ⟨rfl, rfl, rfl, rfl⟩
  obtain ⟨initialised, initialising, virtual, others⟩ := written.vaccelInit init
  have found := others id _ ((ObjectRepo.objs_set made id _ id).trans (if_pos rfl))
  have there := (ObjectRepo.live_some live').1
  have same : a' = { a with accelType := type } := Option.some.inj (there.symm.trans found)
  have kind : a'.type = .physAccel := by rw [same, fresh]; rfl
  have alive' : 0 < a'.refCount := by rw [same]; exact alive
  have typed := initialised.ok.typed id a' there
  cases pair
  have objs := ObjectRepo.objs_set owner obj { a' with freeVaq := some freeVaq }
  have assigning : Extends owner (owner.set obj { a' with freeVaq := some freeVaq }) :=
    extends_of_objs there alive' objs rfl ⟨rfl, rfl⟩
  have all := ((extended.trans typing).trans initialising).trans assigning
  have fields : RepoOk (owner.set obj { a' with freeVaq := some freeVaq }) (ownOf owner)
      (freeVaq ::ₘ obj ::ₘ outer) [] := by
    refine initialised.ok.writeFields there rfl rfl rfl rfl alive' ⟨typed.accel, typed.io, ?_⟩
    intro v field
    rw [← Option.some.inj field]
    exact virtual
  have empty : ownOf owner obj = 0 := by
    rw [ownOf_of_objs there alive', same, fresh]
    rfl
  have given := fields.give ((objs obj).trans (if_pos rfl)) (.inr (.inr kind))
  have owners : ownOf (owner.set obj { a' with freeVaq := some freeVaq }) =
      Function.update (ownOf owner) obj (ownOf owner obj + {freeVaq}) := by
    rw [ownOf_set, if_neg (Nat.ne_of_gt alive'), empty, zero_add]
    unfold holds
    rw [kind]
    rfl
  rw [← owners] at given
  exact ⟨sound.onwards given all, all⟩

/-- The loop of `arax_accel_list`: every accelerator that is put into the list is referenced. -/
theorem listAccels_sound {type : AccelType} {accels : List Nat} {acl acl' : Option (List Nat)}
    {n n' : Nat} (sound : Sound r (↑(acl.getD []) + outer))
    (done : accels.foldlM (listAccel type) (r, acl, n) = some (next, acl', n')) :
    Sound next (↑(acl'.getD []) + outer) ∧ Extends r next := by
  let inv (state : ObjectRepo × Option (List Nat) × Nat) : Prop :=
    Sound state.1 (↑(state.2.1.getD []) + outer) ∧ Extends r state.1
  have keeps : ∀ state accel after, inv state → listAccel type state accel = some after →
      inv after := by
    rintro ⟨s, acl, n⟩ accel after ⟨sound, extended⟩ move
    obtain ⟨a, -, move⟩ := Option.bind_eq_some_iff.mp move
    split_ifs at move
    · cases acl with
      | none =>
        cases move
        exact ⟨sound, extended⟩
      | some acl =>
        obtain ⟨taken, inc, same⟩ := Option.map_eq_some_iff.mp move
        cases same
        obtain ⟨kept, extended', -⟩ := sound.take inc
        refine ⟨?_, extended.trans extended'⟩
        show Sound taken (↑(acl ++ [accel]) + outer)
        rw [← Multiset.coe_add, Multiset.coe_singleton, add_right_comm, add_comm,
          Multiset.singleton_add]
        exact kept
    · cases move
      exact ⟨sound, extended⟩
  rw [foldlM_eq_exec] at done
  exact exec_invariant keeps ⟨sound, Extends.refl r⟩ done

/-- `arax_accel_list`: the caller gives back the old list and gets the new one. -/
theorem accelList_settles {type : AccelType} {physical : Bool}
    {accels : Option (Option (List Nat))} {acl : Option (List Nat)} {n : Nat}
    (sound : Sound r (↑(accels.join.getD []) + outer))
    (done : araxAccelList sizes r type physical accels = some (next, acl, n)) :
    Settles r next (↑(acl.getD []) + outer) [] := by
  obtain ⟨freed, free, list⟩ := Option.bind_eq_some_iff.mp done
  obtain ⟨left, kept, extended, kinds⟩ := refDecs_settles sound free
  have sound' : Sound freed (left + outer) := sound.onwards kept extended
  have start : ((accels.map fun _ => ([] : List Nat)).getD [] : Multiset Nat) + (left + outer) =
      left + outer := by
    cases accels <;> exact zero_add _
  obtain ⟨listed, extended'⟩ := listAccels_sound (start.symm ▸ sound') list
  rw [add_left_comm] at listed
  exact Settles.after extended kinds (settles_of_ok listed.ok extended')

/-! ### Data and tasks -/

/-- `arax_data_init_aligned`: the reference to the new data goes to the caller. -/
theorem Sound.dataInit {size align data : Nat} (sound : Sound r outer)
    (done : araxDataInitAligned sizes r size align = some (next, data)) :
    Sound next (data ::ₘ outer) ∧ Extends r next := by
  unfold araxDataInitAligned at done
  split_ifs at done
  obtain ⟨⟨made, id⟩, register, done⟩ := Option.bind_eq_some_iff.mp done
  obtain ⟨d, live, pair⟩ := Option.map_eq_some_iff.mp done
  obtain ⟨registered, extended⟩ := sound.register Nat.one_pos register
  rw [Multiset.replicate_one, Multiset.singleton_add] at registered
  obtain ⟨here, alive⟩ := registered.referenced live
  obtain ⟨written, extended', -⟩ := registered.write
    { d with size := size, othrRemt := false, phys := none } here alive
    ⟨rfl, rfl, rfl, rfl⟩ ⟨rfl, rfl, rfl, rfl⟩
  cases pair
  exact ⟨written, extended.trans extended'⟩

/-- `arax_task_issue` by a client. -/
theorem Sound.issue {accel proc hostSize task : Nat} {io : List Nat} (sound : Sound r outer)
    (done : araxTaskIssue sizes r accel proc hostSize io = some (next, task)) :
    Sound next (task ::ₘ outer) ∧ Extends r next ∧ Issued r next task io := by
  have alive : ∀ data ∈ io, 0 < r.refs data := by
    intro data member
    obtain ⟨d, live, -⟩ := (issue_some done).1 data member
    obtain ⟨here, alive⟩ := sound.referenced live
    exact (ObjectRepo.refs_of_objs here).symm ▸ alive
  obtain ⟨kept, extended, issued⟩ := sound.ok.issue
    (fun _ impossible => absurd impossible List.not_mem_nil) alive done
  exact ⟨sound.onwards kept extended, extended, issued⟩

/-- Data gets its first virtual accelerator. -/
theorem Sound.attach {data accel : Nat} {d : AraxObject} (sound : Sound r outer)
    (here : r.objs data = some d) (type : d.type = .data) (alive : 0 < d.refCount)
    (unassigned : d.accel = none) (virtual : r.typeOf accel = some .virtAccel)
    (done : ((araxObjectRefInc r accel).bind fun r => setAccel r data accel) = some next) :
    Sound next outer ∧ Extends r next := by
  obtain ⟨taken, inc, -⟩ := Option.bind_eq_some_iff.mp done
  obtain ⟨v, live, -⟩ := Option.map_eq_some_iff.mp inc
  obtain ⟨there, referenced⟩ := sound.referenced live
  have empty := ownOf_data here type alive
  rw [unassigned] at empty
  obtain ⟨kept, moves, owners, -⟩ := sound.ok.attach here type alive empty virtual
    ((ObjectRepo.refs_of_objs there).symm ▸ referenced) done
  rw [← owners] at kept
  exact ⟨sound.onwards kept moves.extended, moves.extended⟩

/-- The types of objects do not change when data gets a virtual accelerator. -/
theorem typeOf_attach {data accel : Nat}
    (done : ((araxObjectRefInc r accel).bind fun r => setAccel r data accel) = some next)
    (j : Nat) : next.typeOf j = r.typeOf j := by
  obtain ⟨taken, inc, write⟩ := Option.bind_eq_some_iff.mp done
  obtain ⟨v, there, rfl⟩ := refInc_some inc
  obtain ⟨d, live, rfl⟩ := Option.map_eq_some_iff.mp write
  have counted : ∀ j, (r.set accel { v with refCount := v.refCount + 1 }).typeOf j = r.typeOf j :=
    typeOf_write there rfl
  rw [← counted j]
  revert j
  exact typeOf_write (ObjectRepo.live_some live).1 rfl

/-- The first part of `arax_data_set`. -/
theorem Sound.assign {data accel : Nat} (sound : Sound r outer)
    (type : next.typeOf data = some .data) (virtual : next.typeOf accel = some .virtAccel)
    (done : assignAccel r data accel = some next) : Sound next outer ∧ Extends r next := by
  obtain ⟨d, live, done⟩ := Option.bind_eq_some_iff.mp done
  obtain ⟨here, alive⟩ := sound.referenced live
  cases field : d.accel with
  | none =>
    rw [field] at done
    rw [typeOf_attach done] at type virtual
    rw [ObjectRepo.typeOf_of_objs here, Option.some.injEq] at type
    exact sound.attach here type alive field virtual done
  | some old =>
    simp only [field] at done
    split_ifs at done
    cases done
    exact ⟨sound, Extends.refl r⟩

/-- `arax_object_ref_dec` on a procedure, as in `arax_proc_put`. -/
theorem Sound.procPut {proc : Nat} (sound : Sound r (proc ::ₘ outer))
    (type : r.typeOf proc = some .proc) (done : araxProcPut sizes r proc = some next) :
    Sound next outer ∧ Extends r next := by
  obtain ⟨o, live, drop⟩ := Option.bind_eq_some_iff.mp done
  rw [ObjectRepo.typeOf_of_live live, Option.some.injEq] at type
  rw [type] at drop
  obtain ⟨kept, extended⟩ := sound.ok.refDecProc drop
  exact ⟨sound.onwards kept extended, extended⟩

/-- `arax_data_set`: the task that it issues is left outside. -/
theorem Sound.dataSet {data accel task : Nat} (sound : Sound r outer)
    (done : araxDataSet sizes r data accel = some (next, task)) :
    Sound next (task ::ₘ outer) ∧ Extends r next ∧ next.typeOf task = some .task := by
  obtain ⟨⟨got, setProc⟩, get, done⟩ := Option.bind_eq_some_iff.mp done
  obtain ⟨assigned, assign, done⟩ := Option.bind_eq_some_iff.mp done
  obtain ⟨d, live, done⟩ := Option.bind_eq_some_iff.mp done
  obtain ⟨⟨issued, made⟩, issue, done⟩ := Option.bind_eq_some_iff.mp done
  obtain ⟨put, drop, pair⟩ := Option.map_eq_some_iff.mp done
  cases pair
  obtain ⟨kept, extended, proc⟩ := sound.ok.procGet get
  have sound' : Sound got (setProc ::ₘ outer) := sound.onwards kept extended
  -- `arax_task_issue` has checked what `arax_data_set` relied on
  obtain ⟨datas, ⟨v, there, virtual⟩, -⟩ := issue_some issue
  obtain ⟨d', found, type⟩ := datas data List.mem_cons_self
  have type : assigned.typeOf data = some .data := type ▸ ObjectRepo.typeOf_of_live found
  have virtual : assigned.typeOf accel = some .virtAccel :=
    virtual ▸ ObjectRepo.typeOf_of_live there
  obtain ⟨sound', extended'⟩ := sound'.assign type virtual assign
  obtain ⟨sound', issuing, made⟩ := sound'.issue issue
  rw [Multiset.cons_swap] at sound'
  have all := extended'.trans issuing
  obtain ⟨sound', dropping⟩ := sound'.procPut (all.types setProc _ proc) drop
  exact ⟨sound', (extended.trans all).trans dropping, dropping.types task _ made.typeOf⟩

/-- `arax_data_set_remote`. -/
theorem Sound.setRemote {data accel : Nat} {remt : Bool} (sound : Sound r outer)
    (done : araxDataSetRemote r data accel remt = some next) :
    Sound next outer ∧ Extends r next := by
  obtain ⟨d, live, done⟩ := Option.bind_eq_some_iff.mp done
  obtain ⟨v, live', done⟩ := Option.bind_eq_some_iff.mp done
  split_ifs at done with checks
  obtain ⟨virtual, type, -, unassigned, -⟩ := checks
  rw [← Option.bind_assoc] at done
  obtain ⟨attached, attach, done⟩ := Option.bind_eq_some_iff.mp done
  obtain ⟨d', live'', shape⟩ := Option.map_eq_some_iff.mp done
  obtain ⟨here, alive⟩ := sound.referenced live
  obtain ⟨sound', extended⟩ := sound.attach here type alive unassigned
    (virtual ▸ ObjectRepo.typeOf_of_live live') attach
  obtain ⟨there, alive'⟩ := sound'.referenced live''
  obtain ⟨written, extended', -⟩ := sound'.write
    { d' with remote := remt, othrRemt := true } there alive' ⟨rfl, rfl, rfl, rfl⟩
    ⟨rfl, rfl, rfl, rfl⟩
  rw [← shape]
  exact ⟨written, extended.trans extended'⟩

/-- Device memory of data. -/
theorem Sound.deviceMemory {data : Nat} {phys : Option Nat} {remote : Bool} (sound : Sound r outer)
    (done : setDeviceMemory r data phys remote = some next) :
    Sound next outer ∧ Extends r next := by
  obtain ⟨d, live, rfl⟩ := Option.map_eq_some_iff.mp done
  obtain ⟨here, alive⟩ := sound.referenced live
  obtain ⟨written, extended, -⟩ := sound.write { d with phys := phys, remote := remote } here
    alive ⟨rfl, rfl, rfl, rfl⟩ ⟨rfl, rfl, rfl, rfl⟩
  exact ⟨written, extended⟩

end Calls

end Arax.Core
