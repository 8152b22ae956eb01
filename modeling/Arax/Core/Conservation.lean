/-
**Conservation in the object repository.**

Runs of the pipe: any sequence of registrations, new references, drops and API calls, each with all
the destructors it runs, where nobody drops a reference that he does not own. `step` allows a drop
if there is a reference that no object holds. The handles are bookkeeping of the proof: what callers
got and have not given back.

* `repository_conserved` — in every state of every run the lists hold the objects that have
  references, each once, the other ones are destroyed, and the throttle misses the bytes of the
  registered objects.
* `vaccel_references_counted` — the count of a virtual accelerator is the number of its handles, of
  the `free_vaq` fields, the data and the submitted tasks that lead to it.
-/

import Mathlib.Algebra.BigOperators.Group.Finset.Piecewise
import Mathlib.Algebra.Order.Ring.Nat
import Arax.Core.Calls

namespace Arax.Core

open Arax.Lib

/-! ### Runs of the pipe -/

/-- A call by a client, the controller or a worker. -/
inductive Call where
  | register (type : ObjectType) (name : String) (size refCount : Nat)
  | refInc (id : Nat)
  | refDec (id : Nat)
  | refDecPreLocked (id : Nat)
  | accelInit (name : String) (type : AccelType) (size capacity : Nat)
  | accelSetPhysical (vaccel phys : Nat)
  | accelAcquireType (type : AccelType)
  | accelAcquirePhys (accel : Nat)
  | accelList (type : AccelType) (physical : Bool) (accels : Option (Option (List Nat)))
  | accelListFree (accels : List Nat)
  | accelRelease (accel : Nat)
  | procRegister (name : String)
  | procGet (name : String)
  | procPut (proc : Nat)
  | dataInit (size : Nat)
  | dataInitAligned (size align : Nat)
  | dataSet (data accel : Nat)
  | dataSetRemote (data accel : Nat) (remt : Bool)
  | deviceMemory (data : Nat) (phys : Option Nat) (remote : Bool)
  | dataFree (data : Nat)
  | taskIssue (accel proc hostSize : Nat) (io : List Nat)
  | taskFree (task : Nat)

/-- The references that the caller gives back. -/
def Call.gives : Call → List Nat
  | .refDec id | .refDecPreLocked id => [id]
  | .accelList _ _ accels => accels.join.getD []
  | .accelListFree accels => accels
  | .accelRelease accel => [accel]
  | .procPut proc => [proc]
  | .dataFree data => [data]
  | .taskFree task => [task]
  | _ => []

/-- The call, and the references that the caller gets from it. Nobody registers an object without
a reference. -/
def perform (sizes : Sizeofs) (r : ObjectRepo) : Call → Option (ObjectRepo × List Nat)
  | .register type name size refCount =>
    if refCount = 0 then none
    else (araxObjectRegister r type name size refCount).map fun (r, id) =>
      (r, List.replicate refCount id)
  | .refInc id => (araxObjectRefInc r id).map fun r => (r, [id])
  | .refDec id => (araxObjectRefDec sizes r id).map fun r => (r, [])
  | .refDecPreLocked id => (araxObjectRefDecPreLocked sizes r id).map fun r => (r, [])
  | .accelInit name type size capacity =>
    (araxAccelInit sizes r name type size capacity).map fun (r, accel) => (r, [accel])
  | .accelSetPhysical vaccel phys => (araxAccelAddVaccel r phys vaccel).map fun r => (r, [])
  | .accelAcquireType type => (araxAccelAcquireType sizes r type).map fun (r, v) => (r, [v])
  | .accelAcquirePhys accel =>
    (araxAccelAcquirePhys sizes r accel).map fun (r, v) => (r, v.toList)
  | .accelList type physical accels =>
    (araxAccelList sizes r type physical accels).map fun (r, acl, _) => (r, acl.getD [])
  | .accelListFree accels => (araxAccelListFree sizes r accels).map fun r => (r, [])
  | .accelRelease accel => (araxAccelRelease sizes r accel).map fun r => (r, [])
  | .procRegister name =>
    (araxProcRegister sizes r name).map fun (next, proc) =>
      (next, if (r.objs proc).isSome then [] else [proc])
  | .procGet name => (araxProcGet r name).map fun (r, proc) => (r, [proc])
  | .procPut proc => (araxProcPut sizes r proc).map fun r => (r, [])
  | .dataInit size => (araxDataInit sizes r size).map fun (r, data) => (r, [data])
  | .dataInitAligned size align =>
    (araxDataInitAligned sizes r size align).map fun (r, data) => (r, [data])
  | .dataSet data accel => (araxDataSet sizes r data accel).map fun (r, task) => (r, [task])
  | .dataSetRemote data accel remt => (araxDataSetRemote r data accel remt).map fun r => (r, [])
  | .deviceMemory data phys remote => (setDeviceMemory r data phys remote).map fun r => (r, [])
  | .dataFree data => (araxDataFree sizes r data).map fun r => (r, [])
  | .taskIssue accel proc hostSize io =>
    (araxTaskIssue sizes r accel proc hostSize io).map fun (r, task) => (r, [task])
  | .taskFree task => (araxTaskFree sizes r task).map fun r => (r, [])

/-- There are such references that no object holds. -/
def Owned (r : ObjectRepo) (ids : List Nat) : Prop :=
  ∀ id ∈ ids, ids.count id + (held r.next (ownOf r)).count id ≤ r.refs id

instance (r : ObjectRepo) (ids : List Nat) : Decidable (Owned r ids) :=
  inferInstanceAs (Decidable (∀ id ∈ ids, _ ≤ _))

/-- The repository, and the references that callers hold. -/
structure Pipe where
  repo : ObjectRepo
  handles : Multiset Nat

/-- A new pipe. -/
def start (size : Nat) : Pipe := ⟨araxObjectRepoInit size, 0⟩

/-- One call. -/
def step (sizes : Sizeofs) (p : Pipe) (call : Call) : Option Pipe :=
  if Owned p.repo call.gives then
    (perform sizes p.repo call).map fun (repo, gets) =>
      ⟨repo, p.handles - ↑call.gives + ↑gets⟩
  else none

/-! ### What the calls keep -/

section Runs

variable {sizes : Sizeofs} {r next : ObjectRepo} {outer : Multiset Nat} {call : Call}
  {gets : List Nat} {p q : Pipe}

/-- Nothing was given back. -/
theorem Sound.bare (sound : Sound r (↑([] : List Nat) + outer)) : Sound r outer := by
  rwa [Multiset.coe_nil, zero_add] at sound

/-- One reference was given back. -/
theorem drop_settles {id : Nat} (sound : Sound r (↑[id] + outer))
    (drop : araxObjectRefDec sizes r id = some next) :
    Settles r next (↑([] : List Nat) + outer) [] := by
  rw [Multiset.coe_singleton, Multiset.singleton_add] at sound
  rw [Multiset.coe_nil, zero_add]
  exact refDec_settles sound.ok sound.submitted drop

/-- What is in a list is an object of its type, with references. -/
theorem Sound.of_mem {type : ObjectType} {id : Nat} (sound : Sound r outer)
    (member : id ∈ r.list type) : r.typeOf id = some type ∧ 0 < r.refs id := by
  have count := List.count_pos_iff.mpr member
  rw [sound.ok.linked] at count
  split_ifs at count with listed
  · exact listed
  · exact absurd count (Nat.lt_irrefl 0)

/-- The lists hold the objects of their type that have references. -/
theorem Sound.listed_iff (sound : Sound r outer) (type : ObjectType) (id : Nat) :
    id ∈ r.list type ↔ r.typeOf id = some type ∧ 0 < r.refs id := by
  constructor
  · exact sound.of_mem
  · intro listed
    have count := sound.ok.linked type id
    rw [if_pos listed] at count
    exact List.count_pos_iff.mp (count ▸ Nat.one_pos)

/-- **Every call keeps the accounting.** -/
theorem perform_settles (sound : Sound r (↑call.gives + outer))
    (done : perform sizes r call = some (next, gets)) : Settles r next (↑gets + outer) [] := by
  cases call with
  | register type name size refCount =>
    simp only [perform] at done
    split_ifs at done with zero
    obtain ⟨⟨made, id⟩, register, pair⟩ := Option.map_eq_some_iff.mp done
    cases pair
    have kept := sound.bare.register (Nat.pos_of_ne_zero zero) register
    exact settles_of_ok kept.1.ok kept.2
  | refInc id =>
    obtain ⟨taken, inc, pair⟩ := Option.map_eq_some_iff.mp done
    cases pair
    have kept := sound.bare.take inc
    exact settles_of_ok kept.1.ok kept.2.1
  | refDec id | refDecPreLocked id | procPut id | dataFree id | taskFree id =>
    obtain ⟨dropped, drop, pair⟩ := Option.map_eq_some_iff.mp done
    cases pair
    exact drop_settles sound drop
  | accelInit name type size capacity =>
    obtain ⟨⟨made, accel⟩, init, pair⟩ := Option.map_eq_some_iff.mp done
    cases pair
    have kept := sound.bare.accelInit init
    exact settles_of_ok kept.1.ok kept.2
  | accelSetPhysical vaccel phys =>
    obtain ⟨added, add, pair⟩ := Option.map_eq_some_iff.mp done
    cases pair
    have kept := sound.addVaccel add
    exact settles_of_ok kept.1.ok kept.2.1
  | accelAcquireType type =>
    obtain ⟨⟨made, vaccel⟩, init, pair⟩ := Option.map_eq_some_iff.mp done
    cases pair
    have kept := sound.bare.vaccelInit init
    exact settles_of_ok kept.1.ok kept.2.1
  | accelAcquirePhys accel =>
    obtain ⟨⟨made, vaccel⟩, acquire, pair⟩ := Option.map_eq_some_iff.mp done
    cases pair
    obtain ⟨a, -, acquire⟩ := Option.bind_eq_some_iff.mp acquire
    split_ifs at acquire
    · obtain ⟨⟨inited, v⟩, init, pair⟩ := Option.map_eq_some_iff.mp acquire
      cases pair
      have kept := sound.bare.vaccelInit init
      exact settles_of_ok kept.1.ok kept.2.1
    · cases acquire
      exact settles_of_ok sound.ok (Extends.refl r)
  | accelList type physical accels =>
    obtain ⟨⟨listed, acl, n⟩, list, pair⟩ := Option.map_eq_some_iff.mp done
    cases pair
    exact accelList_settles sound list
  | accelListFree accels =>
    obtain ⟨freed, free, pair⟩ := Option.map_eq_some_iff.mp done
    cases pair
    rw [Multiset.coe_nil, zero_add]
    exact refDecs_settles sound free
  | accelRelease accel =>
    obtain ⟨dropped, release, pair⟩ := Option.map_eq_some_iff.mp done
    cases pair
    obtain ⟨a, -, release⟩ := Option.bind_eq_some_iff.mp release
    have drop : araxObjectRefDec sizes r accel = some next := by
      cases type : a.type <;> rw [type] at release <;> first | exact release | cases release
    exact drop_settles sound drop
  | procRegister name =>
    obtain ⟨⟨made, proc⟩, register, pair⟩ := Option.map_eq_some_iff.mp done
    cases pair
    rcases araxProcRegister_cases register with ⟨find, rfl⟩ | ⟨-, register⟩
    · obtain ⟨o, here, -⟩ := Option.map_eq_some_iff.mp
        (sound.of_mem (List.mem_of_find?_eq_some find)).1
      rw [here]
      exact settles_of_ok sound.ok (Extends.refl _)
    · rw [(register_some register).1, sound.ok.fresh r.next (Nat.le_refl _),
        ← (register_some register).1]
      have kept := sound.bare.register Nat.one_pos register
      exact settles_of_ok kept.1.ok kept.2
  | procGet name =>
    obtain ⟨⟨got, proc⟩, get, pair⟩ := Option.map_eq_some_iff.mp done
    cases pair
    have kept := sound.bare.ok.procGet get
    exact settles_of_ok kept.1 kept.2.1
  | dataInit size =>
    obtain ⟨⟨made, data⟩, init, pair⟩ := Option.map_eq_some_iff.mp done
    cases pair
    have kept := sound.bare.dataInit init
    exact settles_of_ok kept.1.ok kept.2
  | dataInitAligned size align =>
    obtain ⟨⟨made, data⟩, init, pair⟩ := Option.map_eq_some_iff.mp done
    cases pair
    have kept := sound.bare.dataInit init
    exact settles_of_ok kept.1.ok kept.2
  | dataSet data accel =>
    obtain ⟨⟨set, task⟩, call, pair⟩ := Option.map_eq_some_iff.mp done
    cases pair
    have kept := sound.bare.dataSet call
    exact settles_of_ok kept.1.ok kept.2.1
  | dataSetRemote data accel remt =>
    obtain ⟨set, call, pair⟩ := Option.map_eq_some_iff.mp done
    cases pair
    have kept := sound.setRemote call
    exact settles_of_ok kept.1.ok kept.2
  | deviceMemory data phys remote =>
    obtain ⟨set, call, pair⟩ := Option.map_eq_some_iff.mp done
    cases pair
    have kept := sound.deviceMemory call
    exact settles_of_ok kept.1.ok kept.2
  | taskIssue accel proc hostSize io =>
    obtain ⟨⟨issued, task⟩, issue, pair⟩ := Option.map_eq_some_iff.mp done
    cases pair
    have kept := sound.bare.issue issue
    exact settles_of_ok kept.1.ok kept.2.1

/-- The accounting of a pipe: among the references to virtual accelerators, those that are held
outside the repository are the handles. -/
def Accounted (p : Pipe) : Prop :=
  ∃ outer, Sound p.repo outer ∧ ∀ v, p.repo.typeOf v = none ∨ p.repo.typeOf v = some .virtAccel →
    p.handles.count v = outer.count v

theorem accounted_start (size : Nat) : Accounted (start size) := by
  have nothing : held 0 (ownOf (araxObjectRepoInit size)) = 0 := rfl
  refine ⟨0, ⟨⟨fun _ _ => rfl, fun _ _ => rfl, fun _ => rfl, fun id => ?_,
    fun _ _ impossible => (by cases impossible), fun _ _ impossible => (by cases impossible),
    fun _ impossible => (by cases impossible), ?_, fun _ _ impossible => (by cases impossible),
    fun _ _ _ _ => rfl⟩, fun j unsubmitted => ?_⟩, fun _ _ => rfl⟩
  · show 0 = (0 + held 0 (ownOf (araxObjectRepoInit size))).count id
    rw [nothing]
    rfl
  · show size + ∑ j ∈ Finset.range 0, _ = size
    rw [Finset.sum_range_zero, Nat.add_zero]
  · obtain ⟨o, impossible, -⟩ := unsubmitted
    cases impossible

/-- References that no object holds are among those outside. -/
theorem Sound.le_of_owned {ids : List Nat} (sound : Sound r outer) (owned : Owned r ids) :
    ↑ids ≤ outer := by
  rw [Multiset.le_iff_count]
  intro id
  rw [Multiset.coe_count]
  by_cases member : id ∈ ids
  · have enough := owned id member
    have counts := sound.ok.counts id
    rw [Multiset.count_add] at counts
    omega
  · rw [List.count_eq_zero.mpr member]
    exact Nat.zero_le _

/-- The accounting after a call in which the caller gives back `gives` and gets `gets`. -/
theorem Accounted.after {gives : List Nat} (accounted : Accounted p) (owned : Owned p.repo gives)
    (settles : ∀ outer, Sound p.repo (↑gives + outer) → Settles p.repo next (↑gets + outer) []) :
    Accounted ⟨next, p.handles - ↑gives + ↑gets⟩ := by
  obtain ⟨outer, sound, handles⟩ := accounted
  have split := add_tsub_cancel_of_le (sound.le_of_owned owned)
  have settles := settles (outer - ↑gives) (split.symm ▸ sound)
  obtain ⟨left, sound', kinds⟩ := sound.settled settles
  obtain ⟨-, -, extended, -⟩ := settles
  refine ⟨_, sound', fun v virtual => ?_⟩
  have before : p.repo.typeOf v = none ∨ p.repo.typeOf v = some .virtAccel := by
    cases type : p.repo.typeOf v with
    | none => exact .inl rfl
    | some known =>
      rw [extended.types v known type] at virtual
      exact virtual.imp (fun impossible => (by cases impossible)) id
  have absent : v ∉ left := by
    intro member
    rcases kinds v member with is | is <;> rw [is] at virtual <;> simp at virtual
  have outside := handles v before
  show (p.handles - ↑gives + ↑gets).count v = (left + (↑gets + (outer - ↑gives))).count v
  rw [Multiset.count_add, Multiset.count_add, Multiset.count_add, Multiset.count_sub,
    Multiset.count_sub, Multiset.count_eq_zero_of_notMem absent, outside, Nat.zero_add,
    Nat.add_comm]

/-- What a call of a run is: the caller owns what it gives back. -/
theorem step_some (move : step sizes p call = some q) :
    Owned p.repo call.gives ∧ ∃ repo gets, perform sizes p.repo call = some (repo, gets) ∧
      q = ⟨repo, p.handles - ↑call.gives + ↑gets⟩ := by
  unfold Core.step at move
  split_ifs at move with owned
  obtain ⟨⟨repo, gets⟩, done, same⟩ := Option.map_eq_some_iff.mp move
  exact ⟨owned, repo, gets, done, same.symm⟩

theorem Accounted.step (accounted : Accounted p) (move : step sizes p call = some q) :
    Accounted q := by
  obtain ⟨owned, repo, gets, done, rfl⟩ := step_some move
  exact accounted.after owned fun outer sound => perform_settles sound done

/-- Every state of every run is accounted for. -/
theorem accounted_of_run {size : Nat} {calls : List Call}
    (run : exec (Core.step sizes) (start size) calls = some p) : Accounted p :=
  exec_invariant (fun _ _ _ accounted move => accounted.step move) (accounted_start size) run

/-! ### The repository and the throttle -/

/-- The registered objects. -/
def registered (r : ObjectRepo) : List Nat :=
  r.list .physAccel ++ r.list .virtAccel ++ r.list .proc ++ r.list .data ++ r.list .task

/-- `alloc_size` of an object. -/
def allocSize (r : ObjectRepo) (id : Nat) : Nat := ((r.objs id).map AraxObject.allocSize).getD 0

/-- What the repository conserves. -/
structure Conserved (r : ObjectRepo) : Prop where
  /-- An object is linked, once and in the list of its type, as long as it has references. -/
  linked : ∀ id o, r.objs id = some o →
    ((r.list o.type).count id = if 0 < o.refCount then 1 else 0) ∧
      ∀ type, type ≠ o.type → id ∉ r.list type
  listed : ∀ type, ∀ id ∈ r.list type, ∃ o, r.objs id = some o
  destroyed : ∀ id o, r.objs id = some o → (o.destroyed = true ↔ o.refCount = 0)
  length : ∀ type, r.length type = (r.list type).length
  throttle : r.available + ((registered r).map (allocSize r)).sum = r.capacity

/-- If no destructor is running, what is destroyed is what has no references. -/
theorem RepoOk.object {own : Nat → Multiset Nat} {j : Nat} {o : AraxObject}
    (ok : RepoOk r own outer []) (here : r.objs j = some o) :
    FieldsTyped r o ∧ (o.destroyed = true ↔ o.refCount = 0) := by
  refine ⟨ok.typed j o here, fun gone => ?_, fun zero => ?_⟩
  · by_contra referenced
    rw [ok.alive j o here (Nat.pos_of_ne_zero referenced)] at gone
    cases gone
  · by_contra running
    have dying := (ok.ended j o here zero).mp (Bool.eq_false_of_not_eq_true running)
    exact absurd dying List.not_mem_nil

/-- How often an object is registered. -/
theorem Sound.count_registered (sound : Sound r outer) (id : Nat) :
    (registered r).count id = if 0 < r.refs id then 1 else 0 := by
  unfold registered
  simp only [List.count_append, sound.ok.linked]
  by_cases referenced : 0 < r.refs id
  · obtain ⟨o, here, -⟩ := sound.ok.present referenced
    rw [ObjectRepo.typeOf_of_objs here]
    cases o.type <;> simp [referenced]
  · simp [referenced]

/-- The bytes that the throttle misses are those of the registered objects. -/
theorem Sound.sum_registered (sound : Sound r outer) :
    ((registered r).map (allocSize r)).sum = ∑ j ∈ Finset.range r.next, r.bytes j := by
  have inside : (registered r).toFinset ⊆ Finset.range r.next := by
    intro j member
    have count := List.count_pos_iff.mpr (List.mem_toFinset.mp member)
    rw [sound.count_registered] at count
    split_ifs at count with referenced
    · obtain ⟨o, here, -⟩ := sound.ok.present referenced
      exact Finset.mem_range.mpr (sound.ok.inside here)
    · exact absurd count (Nat.lt_irrefl 0)
  have bytes : ∀ j, (registered r).count j • allocSize r j = r.bytes j := by
    intro j
    rw [sound.count_registered]
    cases here : r.objs j with
    | none => simp [allocSize, ObjectRepo.bytes, here]
    | some o =>
      rw [ObjectRepo.refs_of_objs here, ObjectRepo.bytes_of_objs here]
      by_cases referenced : 0 < o.refCount
      · simp [referenced, sound.ok.alive j o here referenced, allocSize, here]
      · have ended := sound.ok.ended j o here (Nat.eq_zero_of_not_pos referenced)
        simp only [List.not_mem_nil, iff_false, Bool.not_eq_false] at ended
        simp [referenced, ended]
  rw [Finset.sum_list_map_count, Finset.sum_congr rfl fun j _ => bytes j]
  refine Finset.sum_subset inside fun j _ absent => ?_
  rw [← bytes, List.count_eq_zero.mpr fun member => absent (List.mem_toFinset.mpr member),
    zero_nsmul]

/-- **Conservation.** In every state of every run, with all destructors: an object is linked
exactly once in the list of its type if it has references and nowhere else, it is destroyed if and
only if it has none, the lengths of the lists are right, and the throttle has what the registered
objects do not take. -/
theorem repository_conserved (sizes : Sizeofs) (size : Nat) (calls : List Call) (p : Pipe)
    (run : exec (Core.step sizes) (start size) calls = some p) : Conserved p.repo := by
  obtain ⟨outer, sound, -⟩ := accounted_of_run run
  refine ⟨fun id o here => ⟨?_, fun type other member => ?_⟩, fun type id member => ?_,
    fun id o here => ?_, sound.ok.length, ?_⟩
  · rw [sound.ok.linked, ObjectRepo.typeOf_of_objs here, ObjectRepo.refs_of_objs here]
    simp only [true_and]
  · have type' := (sound.of_mem member).1
    rw [ObjectRepo.typeOf_of_objs here] at type'
    exact other (Option.some.inj type').symm
  · obtain ⟨o, here, -⟩ := Option.map_eq_some_iff.mp (sound.of_mem member).1
    exact ⟨o, here⟩
  · exact (sound.ok.object here).2
  · rw [sound.sum_registered]
    exact sound.ok.throttle

/-- A run in which a buffer moves between two VAQs of one device. -/
def movingCalls : List Call :=
  [.accelInit "GPU" .gpu 1000 1000, .procRegister "free", .procRegister "arax_data_set",
    .procRegister "kernel", .accelAcquireType .gpu, .accelSetPhysical 5 0, .accelAcquirePhys 0,
    .dataInit 16, .dataSet 7 5, .taskIssue 6 4 0 [7, 7], .deviceMemory 7 (some 0) true]

/-- It goes on until the last references are dropped, through every destructor: the last task takes
the data with it, which issues a task that frees the device memory. -/
def cascadingCalls : List Call :=
  movingCalls ++ [.accelRelease 5, .taskFree 8, .dataFree 7, .accelList .any false (some none),
    .taskFree 9, .accelListFree [6, 1], .accelRelease 6, .taskFree 10, .accelRelease 0]

/-- The sizes that the runs below use. -/
def someSizes : Sizeofs := ⟨160, 120, 96, 88, 128, 8⟩

theorem repository_conserved_at_cascade :
    ∃ p, exec (Core.step someSizes) (start 4096) cascadingCalls = some p ∧ Conserved p.repo := by
  have returns : (exec (Core.step someSizes) (start 4096) cascadingCalls).isSome = true := by
    decide +kernel
  obtain ⟨p, run⟩ := Option.isSome_iff_exists.mp returns
  exact ⟨p, run, repository_conserved someSizes 4096 cascadingCalls p run⟩

/-! ### Virtual accelerators -/

/-- The number of live objects with a property. -/
def countLive (r : ObjectRepo) (property : AraxObject → Bool) : Nat :=
  ((Finset.range r.next).filter fun id => (r.live id).any property).card

/-- A physical accelerator whose `free_vaq` is `v`. -/
def AraxObject.freesOn (v : Nat) (o : AraxObject) : Bool :=
  o.type == .physAccel && o.freeVaq == some v

/-- Data that is assigned to `v`. -/
def AraxObject.dataOn (v : Nat) (o : AraxObject) : Bool := o.type == .data && o.accel == some v

/-- A task that was submitted to `v`. -/
def AraxObject.submittedTo (v : Nat) (o : AraxObject) : Bool :=
  o.type == .task && o.issued && o.accel == some v

theorem count_toList (v : Nat) (field : Option Nat) :
    field.toList.count v = if field = some v then 1 else 0 := by
  cases field with
  | none => rfl
  | some u =>
    rw [Option.toList_some, List.count_singleton]
    simp

/-- What the fields of an object hold of a virtual accelerator. -/
theorem count_holds {v : Nat} (o : AraxObject) (others : o.io.count v = 0) :
    (holds o).count v = (if o.freesOn v then 1 else 0) + (if o.dataOn v then 1 else 0) +
      (if o.submittedTo v then 1 else 0) := by
  unfold AraxObject.freesOn AraxObject.dataOn AraxObject.submittedTo
  cases type : o.type with
  | physAccel => simp [holds, type, count_toList]
  | virtAccel => simp [holds, type]
  | proc => simp [holds, type]
  | data => simp [holds, type, count_toList]
  | task =>
    cases issued : o.issued with
    | false => simp [holds, type, issued, others]
    | true => simp [holds, type, issued, others, count_toList]

/-- How many references to a virtual accelerator an object holds, where no destructor is running. -/
theorem count_ownOf {v : Nat} (j : Nat)
    (object : ∀ o, r.objs j = some o → FieldsTyped r o ∧ (o.destroyed = true ↔ o.refCount = 0))
    (virtual : r.typeOf v = some .virtAccel) :
    (ownOf r j).count v = (if (r.live j).any (AraxObject.freesOn v) then 1 else 0) +
      (if (r.live j).any (AraxObject.dataOn v) then 1 else 0) +
      (if (r.live j).any (AraxObject.submittedTo v) then 1 else 0) := by
  cases here : r.objs j with
  | none => simp [ownOf, ObjectRepo.live, here]
  | some o =>
    obtain ⟨typed, ended⟩ := object o here
    by_cases zero : o.refCount = 0
    · simp [ownOf, ObjectRepo.live, here, zero, ended.mpr zero]
    · have live : r.live j = some o := by
        unfold ObjectRepo.live
        rw [here, Option.filter_some, if_pos]
        simpa using fun gone => zero (ended.mp gone)
      -- the data of a task are no virtual accelerators
      have others : o.io.count v = 0 := by
        rw [List.count_eq_zero]
        intro member
        rw [typed.io v member] at virtual
        cases virtual
      have owns : ownOf r j = holds o := by
        unfold ownOf
        rw [here]
        exact if_neg zero
      rw [live, owns]
      exact count_holds o others

/-- The references to a virtual accelerator that objects hold. -/
theorem count_held {v : Nat}
    (objects : ∀ j o, r.objs j = some o → FieldsTyped r o ∧ (o.destroyed = true ↔ o.refCount = 0))
    (virtual : r.typeOf v = some .virtAccel) :
    (held r.next (ownOf r)).count v = countLive r (AraxObject.freesOn v) +
      countLive r (AraxObject.dataOn v) + countLive r (AraxObject.submittedTo v) := by
  rw [held, Multiset.count_sum', Finset.sum_congr rfl fun j _ => count_ownOf j (objects j) virtual,
    Finset.sum_add_distrib, Finset.sum_add_distrib]
  unfold countLive
  rw [Finset.card_filter, Finset.card_filter, Finset.card_filter]

/-- The references to a virtual accelerator are held outside, or by objects. -/
theorem RepoOk.refs_vaccel {v : Nat} (ok : RepoOk r (ownOf r) outer [])
    (virtual : r.typeOf v = some .virtAccel) :
    r.refs v = outer.count v + countLive r (AraxObject.freesOn v) +
      countLive r (AraxObject.dataOn v) + countLive r (AraxObject.submittedTo v) := by
  rw [ok.counts v, Multiset.count_add, count_held (fun j o => ok.object) virtual]
  simp only [Nat.add_assoc]

/-- **The references to a virtual accelerator.** In every state of every run, the count of a live
virtual accelerator is the number of its handles, of the physical accelerators whose `free_vaq` it
is, of the live data that is assigned to it, and of the live tasks that were submitted to it. -/
theorem vaccel_references_counted (sizes : Sizeofs) (size : Nat) (calls : List Call) (p : Pipe)
    (run : exec (Core.step sizes) (start size) calls = some p) (v : Nat) (o : AraxObject)
    (live : p.repo.live v = some o) (type : o.type = .virtAccel) :
    o.refCount = p.handles.count v + countLive p.repo (AraxObject.freesOn v) +
      countLive p.repo (AraxObject.dataOn v) + countLive p.repo (AraxObject.submittedTo v) := by
  obtain ⟨outer, sound, handles⟩ := accounted_of_run run
  have here := (ObjectRepo.live_some live).1
  have virtual : p.repo.typeOf v = some .virtAccel := type ▸ ObjectRepo.typeOf_of_objs here
  rw [← ObjectRepo.refs_of_objs here, sound.ok.refs_vaccel virtual, handles v (.inr virtual)]

theorem vaccel_references_counted_at_move :
    ∃ p o, exec (Core.step someSizes) (start 4096) movingCalls = some p ∧
      p.repo.live 6 = some o ∧ o.type = .virtAccel ∧
      o.refCount = p.handles.count 6 + countLive p.repo (AraxObject.freesOn 6) +
        countLive p.repo (AraxObject.dataOn 6) + countLive p.repo (AraxObject.submittedTo 6) := by
  have returns : (((exec (Core.step someSizes) (start 4096) movingCalls).bind fun p =>
      p.repo.live 6).map AraxObject.type) = some .virtAccel := by
    decide +kernel
  obtain ⟨o, found, type⟩ := Option.map_eq_some_iff.mp returns
  obtain ⟨p, run, live⟩ := Option.bind_eq_some_iff.mp found
  exact ⟨p, o, run, live, type,
    vaccel_references_counted someSizes 4096 movingCalls p run 6 o live type⟩

end Runs

end Arax.Core
