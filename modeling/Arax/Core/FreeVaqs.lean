/-
**Every physical accelerator has its `free_vaq`.**

`arax_accel_init` sets `free_vaq` before it returns and nothing else writes it, so the destructor of
a physical accelerator always finds a virtual accelerator to release.

* `Homed` — every physical accelerator has a `free_vaq`.
* `Homed.perform` — every call keeps this, with all the destructors it runs, but a registration of a
  physical accelerator outside `arax_accel_init`.
* `homed_of_run` — so it holds in all runs without such registrations.
-/

import Arax.Core.Conservation

namespace Arax.Core

open Arax.Lib

/-- Every physical accelerator has a `free_vaq`, but the one that `arax_accel_init` is working
on. -/
def Homed (but : Option Nat) (r : ObjectRepo) : Prop :=
  ∀ id o, r.objs id = some o → o.type = .physAccel → some id ≠ but → o.freeVaq.isSome = true

/-- The call registers a physical accelerator that has no `free_vaq`. -/
def Call.homeless : Call → Bool
  | .register type _ _ _ => type == .physAccel
  | _ => false

namespace Homed

variable {sizes : Sizeofs} {but : Option Nat} {r s next : ObjectRepo} {id : Nat}
  {o o' : AraxObject}

/-- One object was written, the other ones are those of a state with the property. -/
theorem overwrite (homed : Homed but s)
    (fits : o'.type = .physAccel → some id ≠ but → o'.freeVaq.isSome = true)
    (objs : ∀ j, next.objs j = if j = id then some o' else s.objs j) : Homed but next := by
  intro j p here
  rw [objs] at here
  split_ifs at here with same
  · cases here
    rw [same]
    exact fits
  · exact homed j p here

/-- A write to an object that leaves its `free_vaq`. -/
theorem write (homed : Homed but r) (here : r.objs id = some o) (type : o'.type = o.type)
    (field : o'.freeVaq = o.freeVaq) : Homed but (r.set id o') := by
  refine homed.overwrite (fun kind other => ?_) (ObjectRepo.objs_set r id o')
  rw [field]
  exact homed id o here (type ▸ kind) other

theorem writeLive (homed : Homed but r) (live : r.live id = some o) (type : o'.type = o.type)
    (field : o'.freeVaq = o.freeVaq) : Homed but (r.set id o') :=
  homed.write (ObjectRepo.live_some live).1 type field

theorem register {type : ObjectType} {name : String} {size refCount : Nat} (homed : Homed but r)
    (done : araxObjectRegister r type name size refCount = some (next, id))
    (other : type = .physAccel → some id = but) : Homed but next := by
  refine homed.overwrite (fun kind apart => ?_) (objs_register done)
  rw [← (register_some done).1] at apart
  exact absurd (other kind) apart

/-- A loop. -/
theorem loop {α : Type} {step : ObjectRepo → α → Option ObjectRepo} {acts : List α}
    (each : ∀ s act t, Homed but s → step s act = some t → Homed but t) (homed : Homed but r)
    (done : acts.foldlM step r = some next) : Homed but next := by
  rw [foldlM_eq_exec] at done
  exact exec_invariant each homed done

theorem refInc (homed : Homed but r) (done : araxObjectRefInc r id = some next) :
    Homed but next := by
  obtain ⟨o, here, rfl⟩ := refInc_some done
  exact homed.write here rfl rfl

/-- `arax_object_ref_dec`, given its destructor. -/
theorem refDecWith {type : ObjectType} {dtor : ObjectRepo → AraxObject → Option ObjectRepo}
    (spec : ∀ s t o, Homed but s → dtor s o = some t → Homed but t) (homed : Homed but r)
    (done : refDecWith type dtor r id = some next) : Homed but next := by
  obtain ⟨o, here, -, ⟨-, rfl⟩ | ⟨-, s, destroyed, freed⟩⟩ := refDecWith_some done
  · exact homed.write here rfl rfl
  · have counted : Homed but (r.set id { o with refCount := 0 }) := homed.write here rfl rfl
    have unlinked : Homed but ((r.set id { o with refCount := 0 }).unlink o.type id) := counted
    refine (spec _ s o unlinked destroyed).overwrite ?_ (objs_reclaim freed)
    exact fun kind => homed id o here kind

theorem refDecVaccel (homed : Homed but r) (done : refDecVaccel r id = some next) :
    Homed but next := by
  refine homed.refDecWith (fun s t o before destroyed => ?_) done
  cases destroyed
  exact before

theorem procGet {name : String} {proc : Nat} (homed : Homed but r)
    (done : araxProcGet r name = some (next, proc)) : Homed but next := by
  obtain ⟨q, -, done⟩ := Option.bind_eq_some_iff.mp done
  obtain ⟨taken, inc, pair⟩ := Option.map_eq_some_iff.mp done
  cases pair
  exact homed.refInc inc

theorem setAccel {data accel : Nat} (homed : Homed but r)
    (done : setAccel r data accel = some next) : Homed but next := by
  obtain ⟨d, live, rfl⟩ := Option.map_eq_some_iff.mp done
  exact homed.writeLive live rfl rfl

/-- A reference is taken, then the field is written. -/
theorem attach {data accel : Nat} (homed : Homed but r)
    (done : ((araxObjectRefInc r accel).bind fun r => Core.setAccel r data accel) = some next) :
    Homed but next := by
  obtain ⟨taken, inc, write⟩ := Option.bind_eq_some_iff.mp done
  exact (homed.refInc inc).setAccel write

theorem migrate {data accel : Nat} (homed : Homed but r)
    (done : araxDataMigrateAccel r data accel = some next) : Homed but next := by
  obtain ⟨d, -, ⟨-, rfl⟩ | ⟨-, -, attach⟩ | ⟨dvac, -, -, dropped, -, -, -, -, -, drop, attach⟩⟩ :=
    migrate_some done
  · exact homed
  · exact homed.attach attach
  · exact (homed.refDecVaccel drop).attach attach

theorem ioInit {task accel data : Nat} (homed : Homed but r)
    (done : ioInit task accel r data = some next) : Homed but next := by
  obtain ⟨t, live, done⟩ := Option.bind_eq_some_iff.mp done
  obtain ⟨taken, inc, migrated⟩ := Option.bind_eq_some_iff.mp done
  have written : Homed but (r.set task { t with io := t.io ++ [data] }) :=
    homed.writeLive live rfl rfl
  exact (written.refInc inc).migrate migrated

theorem alloc {accel proc hostSize task : Nat} {io : List Nat} (homed : Homed but r)
    (done : araxTaskAlloc sizes r accel proc hostSize io = some (next, task)) : Homed but next := by
  obtain ⟨⟨made, id⟩, registered, done⟩ := Option.bind_eq_some_iff.mp done
  obtain ⟨t, live, done⟩ := Option.bind_eq_some_iff.mp done
  obtain ⟨last, fold, pair⟩ := Option.map_eq_some_iff.mp done
  cases pair
  have written : Homed but (made.set task { t with accel := some accel, proc := some proc }) :=
    (homed.register registered (fun same => (by cases same))).writeLive live rfl rfl
  exact loop (fun s data u before init => before.ioInit init) written fold

theorem submit {task accel : Nat} (homed : Homed but r)
    (done : araxTaskSubmit r task accel = some next) : Homed but next := by
  obtain ⟨taken, inc, done⟩ := Option.bind_eq_some_iff.mp done
  obtain ⟨t, live, rfl⟩ := Option.map_eq_some_iff.mp done
  exact (homed.refInc inc).writeLive live rfl rfl

theorem issue {accel proc hostSize task : Nat} {io : List Nat} (homed : Homed but r)
    (done : araxTaskIssue sizes r accel proc hostSize io = some (next, task)) : Homed but next := by
  obtain ⟨-, -, made, allocated, submitted⟩ := issue_some done
  exact (homed.alloc allocated).submit submitted

theorem dtorData {d : AraxObject} (homed : Homed but r) (done : dtorData sizes r d = some next) :
    Homed but next := by
  obtain ⟨-, phys, accel, issued, -, -, free, drop⟩ | ⟨-, ⟨-, rfl⟩ | ⟨accel, -, drop⟩⟩ :=
    dtorData_some done
  · obtain ⟨got, proc, -, freeVaq, task, get, -, -, issue⟩ := issueFree_some free
    exact ((homed.procGet get).issue issue).refDecVaccel drop
  · exact homed
  · exact homed.refDecVaccel drop

theorem refDecData (homed : Homed but r) (done : refDecData sizes r id = some next) :
    Homed but next :=
  homed.refDecWith (fun _ _ _ before destroyed => before.dtorData destroyed) done

theorem dtorTask {t : AraxObject} (homed : Homed but r) (done : dtorTask sizes r t = some next) :
    Homed but next := by
  obtain ⟨last, fold, done⟩ := Option.bind_eq_some_iff.mp done
  have dropped := loop (fun s data u before drop => before.refDecData drop) homed fold
  cases field : t.accel with
  | none =>
    rw [field] at done
    cases done
    exact dropped
  | some accel =>
    rw [field] at done
    exact dropped.refDecVaccel done

/-- `arax_object_ref_dec` on any object. -/
theorem refDec (homed : Homed but r) (done : araxObjectRefDec sizes r id = some next) :
    Homed but next := by
  obtain ⟨o, -, done⟩ := Option.bind_eq_some_iff.mp done
  cases type : o.type with
  | physAccel =>
    rw [type] at done
    refine homed.refDecWith (fun s t a before destroyed => ?_) done
    obtain ⟨freeVaq, -, drop⟩ := Option.bind_eq_some_iff.mp destroyed
    exact before.refDecVaccel drop
  | virtAccel =>
    rw [type] at done
    exact homed.refDecVaccel done
  | proc =>
    rw [type] at done
    refine homed.refDecWith (fun s t p before destroyed => ?_) done
    cases destroyed
    exact before
  | data =>
    rw [type] at done
    exact homed.refDecData done
  | task =>
    rw [type] at done
    exact homed.refDecWith (fun _ _ _ before destroyed => before.dtorTask destroyed) done

/-! ### The calls -/

theorem addVaccel {accel vaccel : Nat} (homed : Homed but r)
    (done : araxAccelAddVaccel r accel vaccel = some next) : Homed but next := by
  obtain ⟨a, -, done⟩ := Option.bind_eq_some_iff.mp done
  obtain ⟨v, live, done⟩ := Option.bind_eq_some_iff.mp done
  split_ifs at done <;> cases done
  · exact homed
  · exact homed.writeLive live rfl rfl

theorem vaccelInit {name : String} {type : AccelType} {accel : Option Nat} {vaccel : Nat}
    (homed : Homed but r) (done : araxVaccelInit sizes r name type accel = some (next, vaccel)) :
    Homed but next := by
  obtain ⟨⟨made, id⟩, registered, done⟩ := Option.bind_eq_some_iff.mp done
  obtain ⟨v, live, done⟩ := Option.bind_eq_some_iff.mp done
  have written : Homed but (made.set id { v with phys := none, accelType := type }) :=
    (homed.register registered (fun same => (by cases same))).writeLive live rfl rfl
  cases accel with
  | none =>
    cases done
    exact written
  | some accel =>
    obtain ⟨added, add, pair⟩ := Option.map_eq_some_iff.mp done
    cases pair
    exact written.addVaccel add

/-- `arax_accel_init`: the new physical accelerator gets its `free_vaq` at the end. -/
theorem accelInit {name : String} {type : AccelType} {size capacity obj : Nat}
    (homed : Homed none r)
    (done : araxAccelInit sizes r name type size capacity = some (next, obj)) :
    Homed none next := by
  obtain ⟨⟨made, id⟩, registered, done⟩ := Option.bind_eq_some_iff.mp done
  obtain ⟨a, live, done⟩ := Option.bind_eq_some_iff.mp done
  simp only at done
  split_ifs at done
  obtain ⟨⟨owner, freeVaq⟩, init, done⟩ := Option.bind_eq_some_iff.mp done
  obtain ⟨a', live', pair⟩ := Option.map_eq_some_iff.mp done
  cases pair
  have started : Homed (some obj) r := fun j o here kind _ => homed j o here kind (by simp)
  have written : Homed (some obj) (made.set obj { a with accelType := type }) :=
    (started.register registered (fun _ => rfl)).writeLive live rfl rfl
  have initialised := written.vaccelInit init
  intro j o here kind _
  rw [ObjectRepo.objs_set] at here
  split_ifs at here with same
  · cases here
    rfl
  · exact initialised j o here kind fun equal => same (Option.some.inj equal)

theorem listAccel {type : AccelType} {state after : ObjectRepo × Option (List Nat) × Nat}
    {accel : Nat} (homed : Homed but state.1) (done : listAccel type state accel = some after) :
    Homed but after.1 := by
  obtain ⟨r, acl, n⟩ := state
  obtain ⟨a, -, done⟩ := Option.bind_eq_some_iff.mp done
  split_ifs at done
  · cases acl with
    | none =>
      cases done
      exact homed
    | some acl =>
      obtain ⟨taken, inc, rfl⟩ := Option.map_eq_some_iff.mp done
      exact refInc homed inc
  · cases done
    exact homed

theorem accelList {type : AccelType} {physical : Bool} {accels : Option (Option (List Nat))}
    {acl : Option (List Nat)} {n : Nat} (homed : Homed but r)
    (done : araxAccelList sizes r type physical accels = some (next, acl, n)) : Homed but next := by
  obtain ⟨freed, free, list⟩ := Option.bind_eq_some_iff.mp done
  have dropped : Homed but freed := loop (fun s id t before drop => before.refDec drop) homed free
  rw [foldlM_eq_exec] at list
  exact exec_invariant (fun state accel after before move => listAccel before move) dropped list

theorem dataInit {size align data : Nat} (homed : Homed but r)
    (done : araxDataInitAligned sizes r size align = some (next, data)) : Homed but next := by
  unfold araxDataInitAligned at done
  split_ifs at done
  obtain ⟨⟨made, id⟩, registered, done⟩ := Option.bind_eq_some_iff.mp done
  obtain ⟨d, live, pair⟩ := Option.map_eq_some_iff.mp done
  cases pair
  exact (homed.register registered (fun same => (by cases same))).writeLive live rfl rfl

theorem dataSet {data accel task : Nat} (homed : Homed but r)
    (done : araxDataSet sizes r data accel = some (next, task)) : Homed but next := by
  obtain ⟨⟨got, setProc⟩, get, done⟩ := Option.bind_eq_some_iff.mp done
  obtain ⟨assigned, assign, done⟩ := Option.bind_eq_some_iff.mp done
  obtain ⟨d, -, done⟩ := Option.bind_eq_some_iff.mp done
  obtain ⟨⟨issued, made⟩, issued', done⟩ := Option.bind_eq_some_iff.mp done
  obtain ⟨put, drop, pair⟩ := Option.map_eq_some_iff.mp done
  cases pair
  have given : Homed but assigned := by
    obtain ⟨d', -, assign⟩ := Option.bind_eq_some_iff.mp assign
    cases field : d'.accel with
    | none =>
      rw [field] at assign
      exact (homed.procGet get).attach assign
    | some old =>
      simp only [field] at assign
      split_ifs at assign
      cases assign
      exact homed.procGet get
  exact (given.issue issued').refDec drop

theorem dataSetRemote {data accel : Nat} {remt : Bool} (homed : Homed but r)
    (done : araxDataSetRemote r data accel remt = some next) : Homed but next := by
  obtain ⟨d, -, done⟩ := Option.bind_eq_some_iff.mp done
  obtain ⟨v, -, done⟩ := Option.bind_eq_some_iff.mp done
  split_ifs at done
  rw [← Option.bind_assoc] at done
  obtain ⟨attached, attach, done⟩ := Option.bind_eq_some_iff.mp done
  obtain ⟨d', live, rfl⟩ := Option.map_eq_some_iff.mp done
  exact (homed.attach attach).writeLive live rfl rfl

/-- **Every call keeps the property,** with all the destructors it runs. -/
theorem perform {call : Call} {gets : List Nat} (homed : Homed none r)
    (made : call.homeless = false) (done : perform sizes r call = some (next, gets)) :
    Homed none next := by
  cases call with
  | register type name size refCount =>
    simp only [Core.perform] at done
    split_ifs at done
    obtain ⟨⟨s, id⟩, registered, pair⟩ := Option.map_eq_some_iff.mp done
    cases pair
    refine homed.register registered fun same => ?_
    rw [same] at made
    cases made
  | refInc id =>
    obtain ⟨s, inc, pair⟩ := Option.map_eq_some_iff.mp done
    cases pair
    exact homed.refInc inc
  | refDec id | refDecPreLocked id | procPut id | dataFree id | taskFree id =>
    obtain ⟨s, drop, pair⟩ := Option.map_eq_some_iff.mp done
    cases pair
    exact homed.refDec drop
  | accelInit name type size capacity =>
    obtain ⟨⟨s, accel⟩, init, pair⟩ := Option.map_eq_some_iff.mp done
    cases pair
    exact homed.accelInit init
  | accelSetPhysical vaccel phys =>
    obtain ⟨s, add, pair⟩ := Option.map_eq_some_iff.mp done
    cases pair
    exact homed.addVaccel add
  | accelAcquireType type =>
    obtain ⟨⟨s, vaccel⟩, init, pair⟩ := Option.map_eq_some_iff.mp done
    cases pair
    exact homed.vaccelInit init
  | accelAcquirePhys accel =>
    obtain ⟨⟨s, vaccel⟩, acquire, pair⟩ := Option.map_eq_some_iff.mp done
    cases pair
    obtain ⟨a, -, acquire⟩ := Option.bind_eq_some_iff.mp acquire
    split_ifs at acquire
    · obtain ⟨⟨inited, v⟩, init, pair⟩ := Option.map_eq_some_iff.mp acquire
      cases pair
      exact homed.vaccelInit init
    · cases acquire
      exact homed
  | accelList type physical accels =>
    obtain ⟨⟨s, acl, n⟩, list, pair⟩ := Option.map_eq_some_iff.mp done
    cases pair
    exact homed.accelList list
  | accelListFree accels =>
    obtain ⟨s, free, pair⟩ := Option.map_eq_some_iff.mp done
    cases pair
    exact loop (fun s id t before drop => before.refDec drop) homed free
  | accelRelease accel =>
    obtain ⟨s, release, pair⟩ := Option.map_eq_some_iff.mp done
    cases pair
    obtain ⟨a, -, release⟩ := Option.bind_eq_some_iff.mp release
    have drop : araxObjectRefDec sizes r accel = some next := by
      cases type : a.type <;> rw [type] at release <;> first | exact release | cases release
    exact homed.refDec drop
  | procRegister name =>
    obtain ⟨⟨s, proc⟩, register, pair⟩ := Option.map_eq_some_iff.mp done
    cases pair
    rcases araxProcRegister_cases register with ⟨-, rfl⟩ | ⟨-, registered⟩
    · exact homed
    · exact homed.register registered (fun same => (by cases same))
  | procGet name =>
    obtain ⟨⟨s, proc⟩, get, pair⟩ := Option.map_eq_some_iff.mp done
    cases pair
    exact homed.procGet get
  | dataInit size | dataInitAligned size align =>
    obtain ⟨⟨s, data⟩, init, pair⟩ := Option.map_eq_some_iff.mp done
    cases pair
    exact homed.dataInit init
  | dataSet data accel =>
    obtain ⟨⟨s, task⟩, set, pair⟩ := Option.map_eq_some_iff.mp done
    cases pair
    exact homed.dataSet set
  | dataSetRemote data accel remt =>
    obtain ⟨s, set, pair⟩ := Option.map_eq_some_iff.mp done
    cases pair
    exact homed.dataSetRemote set
  | deviceMemory data phys remote =>
    obtain ⟨s, set, pair⟩ := Option.map_eq_some_iff.mp done
    cases pair
    obtain ⟨d, live, rfl⟩ := Option.map_eq_some_iff.mp set
    exact homed.writeLive live rfl rfl
  | taskIssue accel proc hostSize io =>
    obtain ⟨⟨s, task⟩, issued, pair⟩ := Option.map_eq_some_iff.mp done
    cases pair
    exact homed.issue issued

end Homed

/-- **In every run** in which physical accelerators are made by `arax_accel_init`, they all have a
`free_vaq`. -/
theorem homed_of_run {sizes : Sizeofs} {size : Nat} {calls : List Call} {p : Pipe}
    (made : ∀ call ∈ calls, call.homeless = false)
    (run : exec (step sizes) (start size) calls = some p) : Homed none p.repo := by
  refine exec_rest (fun rest q => (∀ call ∈ rest, call.homeless = false) ∧ Homed none q.repo)
    (fun call rest q q' before move => ?_) ⟨made, fun _ _ impossible => (by cases impossible)⟩ run
    |>.2
  obtain ⟨made, homed⟩ := before
  obtain ⟨-, repo, gets, done, rfl⟩ := step_some move
  exact ⟨fun later member => made later (List.mem_cons_of_mem call member),
    homed.perform (made call List.mem_cons_self) done⟩

end Arax.Core
