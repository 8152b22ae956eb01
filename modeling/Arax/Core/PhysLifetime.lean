/-
**The lifetime of physical accelerators (`src/core/arax_accel.c`, `src/core/arax_pipe.c`).**

A virtual accelerator stores a pointer to its physical one in `phys` and takes no reference to it.
The destructor of a physical accelerator looks at its list of virtual accelerators and means to
abort if there are any, but it asserts a string literal, which is never false, and goes on. So it
is up to the callers that no virtual accelerator outlives the physical one it is assigned to.

* `PhysLive` — the physical accelerator of every live virtual one is registered.
* `phys_live_iff` — this holds in all states of a run exactly if the last reference to a physical
  accelerator is dropped only when nothing is assigned to it but its own `free_vaq`.
* `phys_dangles` — a run that breaks it.
-/

import Arax.Core.Conservation

namespace Arax.Core

open Arax.Lib

/-- `arax_accel_del_vaccel`, with its assertion. -/
def araxAccelDelVaccel (r : ObjectRepo) (accel vaccel : Nat) : Option ObjectRepo :=
  (r.live accel).bind fun a => (r.live vaccel).bind fun v =>
    if a.type = .physAccel ∧ v.type = .virtAccel ∧ v.phys = some accel then
      some (r.set vaccel { v with phys := none })
    else none

/-- `arax_pipe_delete_accel`: it returns one, and does nothing, if the accelerator is not found. -/
def araxPipeDeleteAccel (sizes : Sizeofs) (r : ObjectRepo) (accel : Nat) :
    Option (ObjectRepo × Nat) :=
  if accel ∈ r.list .physAccel then (araxObjectRefDec sizes r accel).map fun r => (r, 0)
  else some (r, 1)

/-- A call on accelerators. -/
inductive AccelCall where
  | init (name : String) (type : AccelType) (size capacity : Nat)
  | acquireType (type : AccelType)
  | acquirePhys (accel : Nat)
  | setPhysical (vaccel phys : Nat)
  | delVaccel (accel vaccel : Nat)
  | release (accel : Nat)
  | deleteAccel (accel : Nat)

/-- The call. A caller drops only references that no object holds. -/
def accelCall (sizes : Sizeofs) (r : ObjectRepo) : AccelCall → Option ObjectRepo
  | .init name type size capacity =>
    (araxAccelInit sizes r name type size capacity).map Prod.fst
  | .acquireType type => (araxAccelAcquireType sizes r type).map Prod.fst
  | .acquirePhys accel => (araxAccelAcquirePhys sizes r accel).map Prod.fst
  | .setPhysical vaccel phys => araxAccelAddVaccel r phys vaccel
  | .delVaccel accel vaccel => araxAccelDelVaccel r accel vaccel
  | .release accel => if Owned r [accel] then araxAccelRelease sizes r accel else none
  | .deleteAccel accel =>
    if accel ∈ r.list .physAccel → Owned r [accel] then
      (araxPipeDeleteAccel sizes r accel).map Prod.fst
    else none

/-- The live virtual accelerator `v` has `phys = p`. -/
def AssignedTo (r : ObjectRepo) (v p : Nat) : Prop :=
  ∃ o, r.live v = some o ∧ o.type = .virtAccel ∧ o.phys = some p

/-- The physical accelerator of every live virtual one is registered. -/
def PhysLive (r : ObjectRepo) : Prop :=
  ∀ v p, AssignedTo r v p → p ∈ r.list .physAccel

/-- **The condition on a call.** When the last reference to a physical accelerator is dropped,
nothing is assigned to it but its own `free_vaq`, to which nobody else has a reference. -/
def LastAccelGuard (r : ObjectRepo) : AccelCall → Prop
  | .release accel | .deleteAccel accel =>
    ∀ a, r.live accel = some a → a.type = .physAccel → a.refCount = 1 →
      ∀ v, AssignedTo r v accel → a.freeVaq = some v ∧ r.refs v = 1
  | _ => True

theorem assignedTo_iff {r : ObjectRepo} {v p : Nat} :
    AssignedTo r v p ↔
      ∃ o, r.objs v = some o ∧ o.destroyed = false ∧ o.type = .virtAccel ∧ o.phys = some p := by
  constructor
  · rintro ⟨o, live, type, phys⟩
    obtain ⟨here, running⟩ := ObjectRepo.live_some live
    exact ⟨o, here, running, type, phys⟩
  · rintro ⟨o, here, running, type, phys⟩
    refine ⟨o, ?_, type, phys⟩
    show (r.objs v).filter _ = _
    rw [here]
    exact Option.filter_some_pos (by rw [running]; rfl)

/-! ### What the calls do to the objects -/

section Effects

variable {sizes : Sizeofs} {r next : ObjectRepo} {id : Nat}

/-- One virtual accelerator changes, but not what it is assigned to, or it is destroyed. -/
theorem refDecVaccel_effect (done : refDecVaccel r id = some next) :
    ∃ o o', r.objs id = some o ∧ o.type = .virtAccel ∧ o'.type = o.type ∧ o'.phys = o.phys ∧
      (o.refCount ≠ 1 ∧ o'.destroyed = o.destroyed ∨ o.refCount = 1 ∧ o'.destroyed = true) ∧
      (∀ j, next.objs j = if j = id then some o' else r.objs j) ∧
      next.list .physAccel = r.list .physAccel := by
  obtain ⟨o, here, type, -, objs, -, lists⟩ := refDecVaccel_some done
  refine ⟨o, { o with
    refCount := o.refCount - 1
    destroyed := o.destroyed || o.refCount == 1 }, here, type, rfl, rfl, ?_, objs, lists⟩
  by_cases last : o.refCount = 1
  · exact .inr ⟨last, by simp [last]⟩
  · exact .inl ⟨last, by simp [last]⟩

/-- The end of a physical accelerator: it leaves the list, and its `free_vaq` loses a reference. -/
theorem refDecAccel_effect (done : refDecAccel r id = some next) :
    ∃ a, r.objs id = some a ∧ a.type = .physAccel ∧
      (a.refCount ≠ 1 ∧ next = r.set id { a with refCount := a.refCount - 1 } ∨
        a.refCount = 1 ∧ next.list .physAccel = (r.list .physAccel).erase id ∧
        ∃ v o o', a.freeVaq = some v ∧ v ≠ id ∧ r.objs v = some o ∧ o.type = .virtAccel ∧
          o'.type = o.type ∧ o'.phys = o.phys ∧
          (o.refCount ≠ 1 ∧ o'.destroyed = o.destroyed ∨ o.refCount = 1 ∧ o'.destroyed = true) ∧
          next.objs v = some o' ∧ (∀ j, j ≠ id → j ≠ v → next.objs j = r.objs j) ∧
          ∃ a', next.objs id = some a' ∧ a'.type = .physAccel) := by
  obtain ⟨a, here, type, outcome⟩ := refDecWith_some done
  refine ⟨a, here, type, ?_⟩
  rcases outcome with ⟨several, rfl⟩ | ⟨last, s, destroyed, freed⟩
  · refine .inl ⟨fun one => ?_, rfl⟩
    rw [one] at several
    exact absurd several (Nat.lt_irrefl 0)
  · obtain ⟨v, field, drop⟩ := Option.bind_eq_some_iff.mp destroyed
    obtain ⟨o, o', there, kind, type', phys', fate, objs, lists⟩ := refDecVaccel_effect drop
    have unlinked : ∀ j, ((r.set id { a with refCount := 0 }).unlink a.type id).objs j =
        if j = id then some { a with refCount := 0 } else r.objs j := ObjectRepo.objs_set r id _
    have apart : v ≠ id := by
      rintro rfl
      rw [unlinked, if_pos rfl] at there
      rw [← Option.some.inj there, type] at kind
      cases kind
    rw [unlinked, if_neg apart] at there
    refine .inr ⟨last, ?_, v, o, o', field, apart, there, kind, type', phys', fate, ?_,
      fun j other other' => ?_, _, (objs_reclaim freed id).trans (if_pos rfl), type⟩
    · rw [sizeInc_some freed]
      show s.list .physAccel = _
      rw [lists]
      show Function.update r.list a.type _ .physAccel = _
      rw [type, Function.update_self]
      rfl
    · rw [objs_reclaim freed, if_neg apart, objs, if_pos rfl]
    · rw [objs_reclaim freed, if_neg other, objs, if_neg other', unlinked, if_neg other]

end Effects

/-- What a call that drops no physical accelerator does: each virtual one is assigned as before, or
to an accelerator that is registered. -/
structure Points (r next : ObjectRepo) : Prop where
  lists : ∀ p ∈ r.list .physAccel, p ∈ next.list .physAccel
  source : ∀ v o' p, next.objs v = some o' → o'.type = .virtAccel → o'.phys = some p →
    (∃ o, r.objs v = some o ∧ o.type = .virtAccel ∧ o.phys = some p) ∨ p ∈ next.list .physAccel

namespace Points

variable {sizes : Sizeofs} {r s next : ObjectRepo} {outer : Multiset Nat} {id : Nat}
  {o o' : AraxObject}

theorem refl (r : ObjectRepo) : Points r r :=
  ⟨fun _ member => member, fun _ o' _ here type phys => .inl ⟨o', here, type, phys⟩⟩

theorem trans (first : Points r s) (second : Points s next) : Points r next := by
  refine ⟨fun p member => second.lists p (first.lists p member), fun v o' p here type phys => ?_⟩
  rcases second.source v o' p here type phys with ⟨o, there, type', phys'⟩ | listed
  · exact (first.source v o p there type' phys').imp_right (second.lists p)
  · exact .inr listed

/-- A change of one object that does not assign it. -/
theorem change (here : r.objs id = some o) (type : o'.type = o.type)
    (phys : o'.phys = o.phys ∨ o'.phys = none)
    (objs : ∀ j, next.objs j = if j = id then some o' else r.objs j)
    (lists : next.list .physAccel = r.list .physAccel) : Points r next := by
  refine ⟨fun p member => lists ▸ member, fun v p' p found kind field => ?_⟩
  rw [objs] at found
  split_ifs at found with same
  · cases found
    rw [same]
    rcases phys with kept | dropped
    · exact .inl ⟨o, here, type ▸ kind, kept ▸ field⟩
    · rw [dropped] at field
      cases field
  · exact .inl ⟨p', found, kind, field⟩

theorem write (here : r.objs id = some o) (type : o'.type = o.type) (phys : o'.phys = o.phys) :
    Points r (r.set id o') :=
  change here type (.inl phys) (ObjectRepo.objs_set r id o') rfl

theorem register {type : ObjectType} {name : String} {size refCount : Nat}
    (done : araxObjectRegister r type name size refCount = some (next, id)) : Points r next := by
  refine ⟨fun p member => ?_, fun v p' p found kind field => ?_⟩
  · rw [(register_some done).2.2]
    show p ∈ Function.update r.list type (r.next :: r.list type) .physAccel
    by_cases same : .physAccel = type
    · rw [← same, Function.update_self]
      exact List.mem_cons_of_mem _ member
    · rw [Function.update_of_ne same]
      exact member
  · rw [objs_register done] at found
    split_ifs at found
    · cases found
      cases field
    · exact .inl ⟨p', found, kind, field⟩

/-- `arax_accel_add_vaccel` assigns to a registered accelerator. -/
theorem addVaccel {accel vaccel : Nat} (sound : Sound r outer)
    (done : araxAccelAddVaccel r accel vaccel = some next) : Points r next := by
  obtain ⟨a, liveA, done⟩ := Option.bind_eq_some_iff.mp done
  obtain ⟨v, live, done⟩ := Option.bind_eq_some_iff.mp done
  split_ifs at done with kinds
  · cases done
    exact refl r
  · cases done
    have registered : accel ∈ r.list .physAccel := by
      obtain ⟨here, alive⟩ := sound.referenced liveA
      rw [not_or, not_not] at kinds
      rw [sound.listed_iff, ObjectRepo.typeOf_of_objs here, ObjectRepo.refs_of_objs here, kinds.1]
      exact ⟨rfl, alive⟩
    refine ⟨fun p member => member, fun w p' p found kind field => ?_⟩
    rw [ObjectRepo.objs_set] at found
    split_ifs at found
    · cases found
      cases field
      exact .inr registered
    · exact .inl ⟨p', found, kind, field⟩

theorem vaccelInit {name : String} {type : AccelType} {accel : Option Nat} {vaccel : Nat}
    (sound : Sound r outer) (done : araxVaccelInit sizes r name type accel = some (next, vaccel)) :
    Points r next := by
  obtain ⟨⟨made, made'⟩, registered, done⟩ := Option.bind_eq_some_iff.mp done
  obtain ⟨v, live, done⟩ := Option.bind_eq_some_iff.mp done
  have sound' := (sound.register Nat.one_pos registered).1
  obtain ⟨here, alive⟩ := sound'.referenced live
  have written := (sound'.write { v with phys := none, accelType := type } here alive
    ⟨rfl, rfl, rfl, rfl⟩ ⟨rfl, rfl, rfl, rfl⟩).1
  have objs := ObjectRepo.objs_set made made' { v with phys := none, accelType := type }
  have points := (register registered).trans (change here (by rfl) (.inr (by rfl)) objs rfl)
  cases accel with
  | none =>
    cases done
    exact points
  | some accel =>
    obtain ⟨last, added, pair⟩ := Option.map_eq_some_iff.mp done
    cases pair
    exact points.trans (addVaccel written added)

theorem accelInit {name : String} {type : AccelType} {size capacity obj : Nat}
    (sound : Sound r outer)
    (done : araxAccelInit sizes r name type size capacity = some (next, obj)) : Points r next := by
  obtain ⟨⟨made, made'⟩, registered, done⟩ := Option.bind_eq_some_iff.mp done
  obtain ⟨a, live, done⟩ := Option.bind_eq_some_iff.mp done
  split_ifs at done
  obtain ⟨⟨s, freeVaq⟩, init, done⟩ := Option.bind_eq_some_iff.mp done
  obtain ⟨a', live', pair⟩ := Option.map_eq_some_iff.mp done
  cases pair
  have sound' := (sound.register Nat.one_pos registered).1
  obtain ⟨here, alive⟩ := sound'.referenced live
  have written := (sound'.write { a with accelType := type } here alive
    ⟨rfl, rfl, rfl, rfl⟩ ⟨rfl, rfl, rfl, rfl⟩).1
  have points : Points r (made.set obj { a with accelType := type }) :=
    (register registered).trans (write here rfl rfl)
  exact (points.trans (vaccelInit written init)).trans
    (write (ObjectRepo.live_some live').1 rfl rfl)

/-- Virtual accelerators that are alive after a call were alive before it. -/
theorem physLive (points : Points r next) (sound : Sound r outer) (extended : Extends r next)
    (good : PhysLive r) : PhysLive next := by
  rintro v p ⟨o', live, type, phys⟩
  obtain ⟨here, running⟩ := ObjectRepo.live_some live
  rcases points.source v o' p here type phys with ⟨o, there, type', phys'⟩ | listed
  · have alive : 0 < o.refCount := by
      refine Nat.pos_of_ne_zero fun zero => ?_
      have same := Option.some.inj ((extended.ends v o there zero).symm.trans here)
      rw [← same] at running
      exact absurd ((sound.ok.ended v o there zero).mp running) List.not_mem_nil
    obtain ⟨p', there', -, live'⟩ := sound.ok.present
      ((ObjectRepo.refs_of_objs there).symm ▸ alive)
    rw [there] at there'
    cases there'
    exact points.lists p (good v p ⟨o, live', type', phys'⟩)
  · exact listed

end Points

/-! ### One call -/

section Calls

variable {sizes : Sizeofs} {r next : ObjectRepo} {outer : Multiset Nat} {id : Nat} {a : AraxObject}

/-- **The last reference to a physical accelerator.** Nothing dangles afterwards exactly if nothing
was assigned to it that survives. -/
theorem physLive_last_iff (sound : Sound r outer) (good : PhysLive r)
    (done : refDecAccel r id = some next) (here : r.objs id = some a) (last : a.refCount = 1) :
    PhysLive next ↔ ∀ v, AssignedTo r v id → a.freeVaq = some v ∧ r.refs v = 1 := by
  obtain ⟨a', here', kind, outcome⟩ := refDecAccel_effect done
  cases Option.some.inj (here.symm.trans here')
  rcases outcome with ⟨several, -⟩ | ⟨-, lists, f, o, o', field, apart, there, virtual, type',
    phys', fate, free, others, dead, gone, dead'⟩
  · exact absurd last several
  have unlisted : id ∉ next.list .physAccel := by
    have once := sound.ok.linked .physAccel id
    rw [if_pos ⟨kind ▸ ObjectRepo.typeOf_of_objs here,
      (ObjectRepo.refs_of_objs here).symm ▸ last ▸ Nat.one_pos⟩] at once
    rw [lists]
    exact fun member => absurd (List.count_pos_iff.mpr member)
      (by rw [List.count_erase_self, once]; exact Nat.lt_irrefl 0)
  constructor
  · intro good' v assigned
    obtain ⟨w, found, running, virtual', phys⟩ := assignedTo_iff.mp assigned
    have other : v ≠ id := by
      rintro rfl
      rw [← Option.some.inj (here.symm.trans found), kind] at virtual'
      cases virtual'
    have own : v = f := by
      by_contra apart'
      exact unlisted (good' v id
        (assignedTo_iff.mpr ⟨w, (others v other apart').trans found, running, virtual', phys⟩))
    subst own
    cases Option.some.inj (found.symm.trans there)
    rcases fate with ⟨-, kept⟩ | ⟨one, -⟩
    · exact absurd (good' v id (assignedTo_iff.mpr
        ⟨o', free, kept.trans running, type'.trans virtual, phys'.trans phys⟩)) unlisted
    · exact ⟨field, (ObjectRepo.refs_of_objs found).trans one⟩
  · intro guard v p assigned
    obtain ⟨w, found, running, virtual', phys⟩ := assignedTo_iff.mp assigned
    have other : v ≠ id := by
      rintro rfl
      rw [← Option.some.inj (gone.symm.trans found), dead'] at virtual'
      cases virtual'
    -- what survives was assigned before, and not to the destroyed accelerator
    have before : AssignedTo r v p ∧ p ≠ id := by
      by_cases own : v = f
      · subst own
        cases Option.some.inj (free.symm.trans found)
        rcases fate with ⟨more, kept⟩ | ⟨-, destroyed⟩
        · have before := assignedTo_iff.mpr
            ⟨o, there, kept.symm.trans running, virtual, phys'.symm.trans phys⟩
          refine ⟨before, fun same => more ?_⟩
          rw [← ObjectRepo.refs_of_objs there]
          exact (guard v (same ▸ before)).2
        · exact absurd (running.symm.trans destroyed) Bool.false_ne_true
      · rw [others v other own] at found
        have before := assignedTo_iff.mpr ⟨w, found, running, virtual', phys⟩
        refine ⟨before, fun same => own ?_⟩
        exact (Option.some.inj (field.symm.trans (guard v (same ▸ before)).1)).symm
    rw [lists]
    exact (List.mem_erase_of_ne before.2).mpr (good v p before.1)

/-- A drop of a reference that no object holds. -/
theorem Sound.drop (sound : Sound r outer) (owned : Owned r [id])
    (done : araxObjectRefDec sizes r id = some next) :
    (∃ outer', Sound next outer') ∧ Extends r next := by
  have split := add_tsub_cancel_of_le (sound.le_of_owned owned)
  have settles := drop_settles (split.symm ▸ sound) done
  obtain ⟨left, sound', -⟩ := sound.settled settles
  obtain ⟨-, -, extended, -⟩ := settles
  exact ⟨⟨_, sound'⟩, extended⟩

/-- The condition of `LastAccelGuard` on a drop. -/
theorem physLive_drop_iff (sound : Sound r outer) (good : PhysLive r) (owned : Owned r [id])
    (live : r.live id = some a) (kind : a.type = .physAccel ∨ a.type = .virtAccel)
    (done : araxObjectRefDec sizes r id = some next) :
    PhysLive next ↔ LastAccelGuard r (.release id) := by
  have here := (ObjectRepo.live_some live).1
  have extended := (sound.drop owned done).2
  unfold araxObjectRefDec at done
  rw [live, Option.bind_some] at done
  have guard : LastAccelGuard r (.release id) ↔ (a.type = .physAccel → a.refCount = 1 →
      ∀ v, AssignedTo r v id → a.freeVaq = some v ∧ r.refs v = 1) := by
    constructor
    · exact fun guard => guard a live
    · intro guard a' live'
      cases Option.some.inj (live.symm.trans live')
      exact guard
  rw [guard]
  rcases kind with physical | virtual
  · rw [physical] at done
    obtain ⟨a', here', -, outcome⟩ := refDecAccel_effect done
    cases Option.some.inj (here.symm.trans here')
    rcases outcome with ⟨several, rfl⟩ | ⟨last, -⟩
    · refine ⟨fun _ _ last => absurd last several, fun _ => ?_⟩
      exact (Points.write here (by rfl) (by rfl)).physLive sound extended good
    · rw [physLive_last_iff sound good done here last]
      exact ⟨fun guard _ _ => guard, fun guard => guard physical last⟩
  · rw [virtual] at done
    obtain ⟨o, o', here', -, type, phys, -, objs, lists⟩ := refDecVaccel_effect done
    refine ⟨fun _ physical => ?_, fun _ => ?_⟩
    · rw [virtual] at physical
      cases physical
    · exact (Points.change here' type (.inl phys) objs lists).physLive sound extended good

/-- **One call.** The accounting goes on, and exactly the guarded calls leave nothing dangling. -/
theorem accelCall_exact {call : AccelCall} (sound : Sound r outer) (good : PhysLive r)
    (done : accelCall sizes r call = some next) :
    (∃ outer', Sound next outer') ∧ (PhysLive next ↔ LastAccelGuard r call) := by
  cases call with
  | init name type size capacity =>
    obtain ⟨⟨made, obj⟩, init, pair⟩ := Option.map_eq_some_iff.mp done
    cases pair
    obtain ⟨sound', extended⟩ := sound.accelInit init
    exact ⟨⟨_, sound'⟩, fun _ => trivial, fun _ =>
      (Points.accelInit sound init).physLive sound extended good⟩
  | acquireType type =>
    obtain ⟨⟨made, vaccel⟩, init, pair⟩ := Option.map_eq_some_iff.mp done
    cases pair
    obtain ⟨sound', extended, -⟩ := sound.vaccelInit init
    exact ⟨⟨_, sound'⟩, fun _ => trivial, fun _ =>
      (Points.vaccelInit sound init).physLive sound extended good⟩
  | acquirePhys accel =>
    obtain ⟨⟨made, vaccel⟩, acquire, pair⟩ := Option.map_eq_some_iff.mp done
    cases pair
    obtain ⟨a, -, acquire⟩ := Option.bind_eq_some_iff.mp acquire
    split_ifs at acquire
    · obtain ⟨⟨inited, v⟩, init, pair⟩ := Option.map_eq_some_iff.mp acquire
      cases pair
      obtain ⟨sound', extended, -⟩ := sound.vaccelInit init
      exact ⟨⟨_, sound'⟩, fun _ => trivial, fun _ =>
        (Points.vaccelInit sound init).physLive sound extended good⟩
    · cases acquire
      exact ⟨⟨_, sound⟩, fun _ => trivial, fun _ => good⟩
  | setPhysical vaccel phys =>
    obtain ⟨sound', extended, -⟩ := sound.addVaccel done
    exact ⟨⟨_, sound'⟩, fun _ => trivial, fun _ =>
      (Points.addVaccel sound done).physLive sound extended good⟩
  | delVaccel accel vaccel =>
    obtain ⟨a, -, done⟩ := Option.bind_eq_some_iff.mp done
    obtain ⟨v, live, done⟩ := Option.bind_eq_some_iff.mp done
    split_ifs at done
    cases done
    obtain ⟨here, alive⟩ := sound.referenced live
    obtain ⟨sound', extended, -⟩ := sound.write { v with phys := none } here alive
      ⟨rfl, rfl, rfl, rfl⟩ ⟨rfl, rfl, rfl, rfl⟩
    have objs := ObjectRepo.objs_set r vaccel { v with phys := none }
    exact ⟨⟨_, sound'⟩, fun _ => trivial, fun _ =>
      (Points.change here (by rfl) (.inr (by rfl)) objs rfl).physLive sound extended good⟩
  | release accel =>
    simp only [accelCall] at done
    split_ifs at done with owned
    obtain ⟨a, live, release⟩ := Option.bind_eq_some_iff.mp done
    have drop : araxObjectRefDec sizes r accel = some next ∧
        (a.type = .physAccel ∨ a.type = .virtAccel) := by
      cases type : a.type <;> rw [type] at release <;>
        first | exact ⟨release, by simp⟩ | cases release
    exact ⟨(sound.drop owned drop.1).1, physLive_drop_iff sound good owned live drop.2 drop.1⟩
  | deleteAccel accel =>
    simp only [accelCall] at done
    split_ifs at done with owned
    obtain ⟨⟨deleted, code⟩, delete, pair⟩ := Option.map_eq_some_iff.mp done
    cases pair
    unfold araxPipeDeleteAccel at delete
    split_ifs at delete with member
    · obtain ⟨dropped, drop, pair⟩ := Option.map_eq_some_iff.mp delete
      cases pair
      obtain ⟨a, live, -⟩ := Option.bind_eq_some_iff.mp drop
      have physical : a.type = .physAccel := by
        have type := ((sound.listed_iff .physAccel accel).mp member).1
        rw [ObjectRepo.typeOf_of_live live] at type
        exact Option.some.inj type
      exact ⟨(sound.drop (owned member) drop).1,
        physLive_drop_iff sound good (owned member) live (.inl physical) drop⟩
    · cases delete
      refine ⟨⟨_, sound⟩, fun _ a live physical => ?_, fun _ => good⟩
      obtain ⟨here, alive⟩ := sound.referenced live
      refine absurd ((sound.listed_iff .physAccel accel).mpr ⟨?_, ?_⟩) member
      · exact physical ▸ ObjectRepo.typeOf_of_objs here
      · exact (ObjectRepo.refs_of_objs here).symm ▸ alive

end Calls

/-- **No dangling physical accelerator.** In every state of a run the physical accelerator of each
live virtual one is registered, if and only if every call meets the condition. -/
theorem phys_live_iff {sizes : Sizeofs} {size : Nat} {calls : List AccelCall} {last : ObjectRepo}
    (run : exec (accelCall sizes) (araxObjectRepoInit size) calls = some last) :
    Along (accelCall sizes) PhysLive (araxObjectRepoInit size) calls ↔
      Guarded (accelCall sizes) LastAccelGuard (araxObjectRepoInit size) calls := by
  obtain ⟨outer, sound, -⟩ := accounted_start size
  refine along_iff_guarded (fun r => ∃ outer, Sound r outer) ?_ ⟨outer, sound⟩ ?_ run
  · rintro r call next ⟨outer, sound⟩ good done
    exact accelCall_exact sound good done
  · rintro v p ⟨o, impossible, -⟩
    cases impossible

/-- The condition, on the objects that there are. -/
def lastAccelCheck (r : ObjectRepo) : AccelCall → Bool
  | .release accel | .deleteAccel accel =>
    (List.range r.next).all fun v => ((r.live v).map fun o => (o.type, o.phys)) !=
      some (.virtAccel, some accel) ||
        ((r.live accel).bind AraxObject.freeVaq == some v && r.refs v == 1)
  | _ => true

theorem lastAccelCheck_guard {r : ObjectRepo} {outer : Multiset Nat} {call : AccelCall}
    (sound : Sound r outer) (check : lastAccelCheck r call) : LastAccelGuard r call := by
  cases call with
  | release accel | deleteAccel accel =>
    rintro a live - - v ⟨o, live', type, phys⟩
    have inside := sound.ok.inside (ObjectRepo.live_some live').1
    have here := List.all_eq_true.mp check v (List.mem_range.mpr inside)
    rw [live, live'] at here
    simpa [type, phys] using here
  | _ => trivial

/-- A client acquires a virtual accelerator of a physical one and releases it, and then the
controller deletes the physical one. -/
theorem phys_live_iff_at_delete :
    ∃ last, exec (accelCall someSizes) (araxObjectRepoInit 4096) [.init "gpu0" .gpu 64 64,
        .acquirePhys 0, .release 2, .deleteAccel 0] = some last ∧ last.list .physAccel = [] ∧
      Along (accelCall someSizes) PhysLive (araxObjectRepoInit 4096) [.init "gpu0" .gpu 64 64,
        .acquirePhys 0, .release 2, .deleteAccel 0] := by
  have view : (exec (accelCall someSizes) (araxObjectRepoInit 4096) [.init "gpu0" .gpu 64 64,
      .acquirePhys 0, .release 2, .deleteAccel 0]).map (fun r => r.list .physAccel) = some [] := by
    decide +kernel
  obtain ⟨last, run, accels⟩ := Option.map_eq_some_iff.mp view
  refine ⟨last, run, accels, (phys_live_iff run).mpr ?_⟩
  have checked : Guarded (accelCall someSizes) (fun r call => lastAccelCheck r call)
      (araxObjectRepoInit 4096) [.init "gpu0" .gpu 64 64, .acquirePhys 0, .release 2,
        .deleteAccel 0] := by
    decide +kernel
  obtain ⟨outer, sound, -⟩ := accounted_start 4096
  refine checked.imp (fun r => PhysLive r ∧ ∃ outer, Sound r outer)
    (fun _ _ ⟨_, _, sound⟩ check => lastAccelCheck_guard sound check)
    (fun _ _ _ ⟨good, _, sound⟩ check done => ?_) ⟨?_, outer, sound⟩
  · obtain ⟨sound', exact'⟩ := accelCall_exact sound good done
    exact ⟨exact'.mpr (lastAccelCheck_guard sound check), sound'⟩
  · rintro v p ⟨o, impossible, -⟩
    cases impossible

/-- **A dangling physical accelerator.** It is released while a virtual one is assigned to it: the
destructor prints its message, and the assertion on it holds. -/
theorem phys_dangles :
    ¬∀ (sizes : Sizeofs) (size : Nat) (calls : List AccelCall) (last : ObjectRepo),
      exec (accelCall sizes) (araxObjectRepoInit size) calls = some last → PhysLive last := by
  intro claimed
  have view : (exec (accelCall someSizes) (araxObjectRepoInit 4096) [.init "gpu0" .gpu 64 64,
      .acquirePhys 0, .release 0]).map (fun r => ((r.live 2).map fun v => (v.type, v.phys),
        r.list .physAccel)) = some (some (.virtAccel, some 0), []) := by
    decide +kernel
  obtain ⟨last, run, ends⟩ := Option.map_eq_some_iff.mp view
  obtain ⟨assigned, accels⟩ := Prod.mk.inj ends
  obtain ⟨v, live, fields⟩ := Option.map_eq_some_iff.mp assigned
  obtain ⟨type, phys⟩ := Prod.mk.inj fields
  have registered := claimed _ _ _ last run 2 0 ⟨v, live, type, phys⟩
  rw [accels] at registered
  exact absurd registered List.not_mem_nil

end Arax.Core
