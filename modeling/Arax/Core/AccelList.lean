/-
**Lists of accelerators and the locks of the repository (`src/arch/shm/impl.c`).**

`arax_accel_list` holds the lock of the list that it walks, and under this lock it first drops the
references of the previous array, with `arax_object_ref_dec_pre_locked`. The destructor of a
physical accelerator releases its `free_vaq` with `arax_object_ref_dec`, which takes the lock of the
virtual accelerators. Here the list locks are part of the model: `held` are those that the caller
has.

* `preLocked_eq`, `refDec_eq` — with no lock taken twice, a drop is that of the model without locks.
* `preLocked_spins` — otherwise it waits for itself.
* `drops_return` — the previous array is dropped, and the accounting holds.
* `listAccels_runs` — the loop that fills the array.
* `accelList_lists` — what the array holds, what becomes of all counts, and that the call returns.
-/

import Arax.Core.AccelReferences
import Arax.Core.FreeVaqs

namespace Arax.Core

open Arax.Lib

/-! ### The functions with their locks -/

/-- How a call ends that does not return: an assertion, memory that is not there or a throttle, or
the lock of a list that it has taken itself. -/
inductive Stop where
  | aborts
  | spins (type : ObjectType)
  deriving DecidableEq

/-- A step that takes no lock. -/
def orAborts {α : Type} : Option α → Except Stop α
  | some a => .ok a
  | none => .error .aborts

/-- An array with its delimiter. -/
def nullTerminated (ids : List Nat) : List (Option Nat) := ids.map some ++ [none]

namespace Locked

/-- What both ways to drop a reference do to the count. -/
def dropRef (dtor : ObjectRepo → AraxObject → Except Stop ObjectRepo) (r : ObjectRepo) (id : Nat)
    (o : AraxObject) : Except Stop ObjectRepo :=
  let refs := o.refCount - 1
  let counted := r.set id { o with refCount := refs }
  if refs = 0 then
    (dtor (counted.unlink o.type id) o).bind fun r => orAborts (reclaim r id o)
  else .ok counted

/-- `arax_object_ref_dec` on an object of type `type`, whose destructor is `dtor`. The lock is free
again when the destructor runs. -/
def refDecWith (type : ObjectType)
    (dtor : List ObjectType → ObjectRepo → AraxObject → Except Stop ObjectRepo)
    (held : List ObjectType) (r : ObjectRepo) (id : Nat) : Except Stop ObjectRepo :=
  match r.live id with
  | none => .error .aborts
  | some o =>
    if o.type ≠ type then .error .aborts
    else if o.refCount = 0 then .error .aborts
    else if type ∈ held then .error (.spins type)
    else dropRef (dtor held) r id o

/-- `__dtor_arax_vaccel_s`, which takes no lock of a list. -/
def dtorVaccel (_ : List ObjectType) (r : ObjectRepo) (v : AraxObject) : Except Stop ObjectRepo :=
  orAborts (Core.dtorVaccel r v)

/-- `arax_object_ref_dec` on a virtual accelerator. -/
def refDecVaccel : List ObjectType → ObjectRepo → Nat → Except Stop ObjectRepo :=
  refDecWith .virtAccel dtorVaccel

/-- `__dtor_arax_accel_s`: `arax_accel_release` of `free_vaq`. -/
def dtorAccel (held : List ObjectType) (r : ObjectRepo) (a : AraxObject) : Except Stop ObjectRepo :=
  (orAborts a.freeVaq).bind fun freeVaq => refDecVaccel held r freeVaq

/-- The destructors of accelerators in `dtor_table`. The arrays hold nothing else. -/
def dtorTable : ObjectType → List ObjectType → ObjectRepo → AraxObject → Except Stop ObjectRepo
  | .physAccel => dtorAccel
  | .virtAccel => dtorVaccel
  | _ => fun _ _ _ => .error .aborts

/-- `arax_object_ref_dec` on an accelerator. -/
def araxObjectRefDec (held : List ObjectType) (r : ObjectRepo) (id : Nat) :
    Except Stop ObjectRepo :=
  (orAborts (r.live id)).bind fun o => refDecWith o.type (dtorTable o.type) held r id

/-- `arax_object_ref_dec_pre_locked` on an accelerator: whether the caller has the lock of its list
or that of another one, no lock is taken. -/
def araxObjectRefDecPreLocked (held : List ObjectType) (r : ObjectRepo) (id : Nat) :
    Except Stop ObjectRepo :=
  (orAborts (r.live id)).bind fun o =>
    if o.refCount = 0 then .error .aborts else dropRef (dtorTable o.type held) r id o

/-- `while (*itr)`: a drop for every cell before the delimiter, which has to be there. -/
def dropCells (drop : ObjectRepo → Nat → Except Stop ObjectRepo) (r : ObjectRepo) :
    List (Option Nat) → Except Stop ObjectRepo
  | [] => .error .aborts
  | none :: _ => .ok r
  | some id :: cells => (drop r id).bind fun r => dropCells drop r cells

/-- `arax_accel_list_free`. -/
def araxAccelListFree (r : ObjectRepo) (accels : List (Option Nat)) : Except Stop ObjectRepo :=
  dropCells (araxObjectRefDec []) r accels

/-- `arax_accel_list_free_pre_locked`. -/
def araxAccelListFreePreLocked (held : List ObjectType) (r : ObjectRepo)
    (accels : List (Option Nat)) : Except Stop ObjectRepo :=
  dropCells (araxObjectRefDecPreLocked held) r accels

/-- `ltype`. -/
def listType (physical : Bool) : ObjectType := if physical then .physAccel else .virtAccel

/-- `arax_accel_list`: `accels` is `NULL`, or leads to `NULL` or to a previous array. The new array
has `length + 1` cells, and is written from its start to the delimiter. It returns what `*accels`
leads to, and the number of accelerators. -/
def araxAccelList (r : ObjectRepo) (type : AccelType) (physical : Bool)
    (accels : Option (Option (List (Option Nat)))) :
    Except Stop (ObjectRepo × Option (List (Option Nat)) × Nat) :=
  (match accels.join with
    | some previous => araxAccelListFreePreLocked [listType physical] r previous
    | none => .ok r).bind fun r =>
  (orAborts ((r.list (listType physical)).foldlM (listAccel type)
    (r, accels.map fun _ => [], 0))).bind fun (next, acl, accelCount) =>
      match acl with
      | none => .ok (next, none, accelCount)
      | some acl =>
        if acl.length < r.length (listType physical) + 1 then
          .ok (next, some (nullTerminated acl), accelCount)
        else .error .aborts

end Locked

section Drops

variable {sizes : Sizeofs} {r s next : ObjectRepo} {outer : Multiset Nat} {dying : List Nat}
  {held : List ObjectType} {id : Nat} {o : AraxObject}

/-! ### Without a lock taken twice -/

theorem dropRef_eq {dtor : ObjectRepo → AraxObject → Except Stop ObjectRepo}
    {plain : ObjectRepo → AraxObject → Option ObjectRepo} (live : r.live id = some o)
    (referenced : o.refCount ≠ 0)
    (same : o.refCount = 1 → ∀ s, dtor s o = orAborts (plain s o)) :
    Locked.dropRef dtor r id o = orAborts (refDecWith o.type plain r id) := by
  unfold Locked.dropRef refDecWith
  rw [live]
  simp only [ne_eq, not_true_eq_false, if_false, referenced]
  split_ifs with last
  · rw [same (by omega)]
    cases plain _ o <;> rfl
  · rfl

theorem refDecVaccel_eq (free : .virtAccel ∉ held) :
    Locked.refDecVaccel held r id = orAborts (refDecVaccel r id) := by
  unfold Locked.refDecVaccel Locked.refDecWith
  cases live : r.live id with
  | none =>
    unfold refDecVaccel refDecWith
    rw [live]
    rfl
  | some o =>
    simp only
    split_ifs with other zero
    · unfold refDecVaccel refDecWith
      rw [live]
      simp only [if_pos other]
      rfl
    · unfold refDecVaccel refDecWith
      rw [live]
      simp only [if_neg other, if_pos zero]
      rfl
    · rw [dropRef_eq live zero fun _ _ => rfl, not_not.mp other]
      rfl

/-- The destructor of an accelerator, with the lock of the virtual ones free or not needed. -/
theorem dtorTable_eq (free : .virtAccel ∉ held ∨ o.type = .virtAccel)
    (accelerator : o.type = .physAccel ∨ o.type = .virtAccel) :
    Locked.dtorTable o.type held s o =
      orAborts (if o.type = .physAccel then dtorAccel s o else dtorVaccel s o) := by
  rcases accelerator with physical | virtual
  · rw [if_pos physical, physical]
    have free : .virtAccel ∉ held := free.resolve_right (by rw [physical]; simp)
    show Locked.dtorAccel held s o = orAborts (dtorAccel s o)
    unfold Locked.dtorAccel dtorAccel
    cases o.freeVaq with
    | none => rfl
    | some freeVaq => exact refDecVaccel_eq free
  · rw [if_neg (by rw [virtual]; simp), virtual]
    rfl

/-- What `arax_object_ref_dec` does to an accelerator. -/
theorem refDec_accel (live : r.live id = some o)
    (accelerator : o.type = .physAccel ∨ o.type = .virtAccel) :
    araxObjectRefDec sizes r id = refDecWith o.type
      (fun s o => if o.type = .physAccel then dtorAccel s o else dtorVaccel s o) r id := by
  unfold araxObjectRefDec refDecAccel refDecVaccel refDecWith
  rw [live]
  rcases accelerator with physical | virtual
  · simp only [Option.bind_some, physical, ne_eq, not_true_eq_false, if_false, if_true]
  · simp [Option.bind_some, virtual]

/-- **A drop under the lock of a list,** where the destructor does not need this lock. -/
theorem preLocked_eq (sizes : Sizeofs) (live : r.live id = some o)
    (accelerator : o.type = .physAccel ∨ o.type = .virtAccel)
    (free : .virtAccel ∉ held ∨ o.type = .virtAccel ∨ o.refCount ≠ 1) :
    Locked.araxObjectRefDecPreLocked held r id =
      orAborts (araxObjectRefDecPreLocked sizes r id) := by
  unfold Locked.araxObjectRefDecPreLocked araxObjectRefDecPreLocked
  rw [live, refDec_accel live accelerator]
  show (if o.refCount = 0 then _ else _) = _
  split_ifs with zero
  · unfold refDecWith
    rw [live]
    simp [zero, orAborts]
  · exact dropRef_eq live zero fun last s => dtorTable_eq
      (free.imp_right fun either => either.resolve_right (not_not.mpr last)) accelerator

/-- A drop by a caller without locks. -/
theorem refDec_eq (live : r.live id = some o)
    (accelerator : o.type = .physAccel ∨ o.type = .virtAccel) :
    Locked.araxObjectRefDec [] r id = orAborts (araxObjectRefDec sizes r id) := by
  unfold Locked.araxObjectRefDec Locked.refDecWith
  rw [live, refDec_accel live accelerator]
  simp only [orAborts, Except.bind, ne_eq, not_true_eq_false, if_false, List.not_mem_nil]
  split_ifs with zero
  · unfold refDecWith
    rw [live]
    simp [zero]
  · exact dropRef_eq live zero fun _ s => dtorTable_eq (.inl List.not_mem_nil) accelerator

/-- A physical accelerator waits for the lock of its `free_vaq`. -/
theorem dtorAccel_spins {v : Nat} {u : AraxObject} (field : o.freeVaq = some v)
    (there : r.live v = some u) (virtual : u.type = .virtAccel) (referenced : 0 < u.refCount)
    (taken : .virtAccel ∈ held) : Locked.dtorAccel held r o = .error (.spins .virtAccel) := by
  unfold Locked.dtorAccel
  rw [field]
  show Locked.refDecVaccel held r v = _
  unfold Locked.refDecVaccel Locked.refDecWith
  rw [there]
  simp only [virtual, ne_eq, not_true_eq_false, if_false, Nat.ne_of_gt referenced, taken, if_true]

/-- **The last reference to a physical accelerator, under the lock of the virtual ones:** the call
waits for itself. -/
theorem preLocked_spins {v : Nat} {u : AraxObject} (live : r.live id = some o)
    (physical : o.type = .physAccel) (last : o.refCount = 1) (field : o.freeVaq = some v)
    (there : r.live v = some u) (virtual : u.type = .virtAccel) (referenced : 0 < u.refCount)
    (taken : .virtAccel ∈ held) :
    Locked.araxObjectRefDecPreLocked held r id = .error (.spins .virtAccel) := by
  have apart : v ≠ id := by
    intro same
    rw [same, live] at there
    cases there
    rw [physical] at virtual
    cases virtual
  have still : ((r.set id { o with refCount := 0 }).unlink o.type id).live v = some u := by
    unfold ObjectRepo.live at there ⊢
    rw [← there]
    exact congrArg _ ((ObjectRepo.objs_set r id _ v).trans (if_neg apart))
  have table : Locked.dtorTable o.type = Locked.dtorAccel := by
    rw [physical]
    rfl
  unfold Locked.araxObjectRefDecPreLocked Locked.dropRef
  rw [live]
  simp only [orAborts, Except.bind, last, Nat.sub_self, if_true, Nat.one_ne_zero, if_false, table]
  rw [dtorAccel_spins field still virtual referenced taken]

/-! ### The drops return -/

/-- The throttle has room for the bytes of an object that is still there. -/
theorem reclaim_returns {own : Nat → Multiset Nat} (ok : RepoOk r own outer dying)
    (here : r.objs id = some o) (running : o.destroyed = false) :
    ∃ next, reclaim r id o = some next := by
  have room : r.available + o.allocSize ≤ r.capacity := by
    have part := Finset.single_le_sum (f := r.bytes) (fun j _ => Nat.zero_le _)
      (Finset.mem_range.mpr (ok.inside here))
    rw [ObjectRepo.bytes_of_objs here, running] at part
    simp only [Bool.false_eq_true, if_false] at part
    have whole := ok.throttle
    omega
  unfold reclaim ObjectRepo.sizeInc
  split_ifs with zero short
  · exact ⟨_, rfl⟩
  · exact absurd room (Nat.not_le.mpr short)
  · exact ⟨_, rfl⟩

/-- `arax_object_ref_dec` returns where its destructor does. -/
theorem refDecWith_returns {type : ObjectType}
    {dtor : ObjectRepo → AraxObject → Option ObjectRepo}
    (ok : RepoOk r (ownOf r) (id ::ₘ outer) dying) (kind : r.typeOf id = some type)
    (returns : ∀ s o, r.objs id = some o → Extends r s →
      RepoOk s (ownOf s) (holds o + outer) (id :: dying) → ∃ t, dtor s o = some t ∧ Extends s t ∧
        ∃ left, RepoOk t (ownOf t) left (id :: dying)) :
    ∃ next, refDecWith type dtor r id = some next := by
  have referenced : 0 < r.refs id := by
    have counts := ok.counts id
    rw [Multiset.cons_add, Multiset.count_cons_self] at counts
    omega
  obtain ⟨o, here, alive, live⟩ := ok.present referenced
  have type' : o.type = type := Option.some.inj ((ObjectRepo.typeOf_of_objs here).symm.trans kind)
  unfold refDecWith
  rw [live]
  simp only [type', ne_eq, not_true_eq_false, if_false, Nat.ne_of_gt alive]
  split_ifs with last
  · have last : o.refCount = 1 := by omega
    obtain ⟨dropped, unlinked, objs⟩ := ok.unlinked here last
    obtain ⟨t, destroyed, extended, left, kept⟩ := returns _ o here unlinked dropped
    have found : t.objs id = some { o with refCount := 0 } :=
      extended.ends id _ ((objs id).trans (if_pos rfl)) rfl
    obtain ⟨next, freed⟩ := reclaim_returns kept (o := { o with refCount := 0 }) found
      (ok.alive id o here alive)
    refine ⟨next, Option.bind_eq_some_iff.mpr ⟨t, ?_, freed⟩⟩
    rw [last, Nat.sub_self, ← type']
    exact destroyed
  · exact ⟨_, rfl⟩

theorem refDecVaccel_returns (ok : RepoOk r (ownOf r) (id ::ₘ outer) dying)
    (virtual : r.typeOf id = some .virtAccel) : ∃ next, refDecVaccel r id = some next := by
  refine refDecWith_returns ok virtual fun s o here _ dropped => ?_
  exact ⟨s, rfl, Extends.refl s, holds o + outer, dropped⟩

theorem refDecAccel_returns (ok : RepoOk r (ownOf r) (id ::ₘ outer) dying)
    (homed : Homed none r) (physical : r.typeOf id = some .physAccel) :
    ∃ next, refDecAccel r id = some next := by
  refine refDecWith_returns ok physical fun s a here unlinked dropped => ?_
  have type : a.type = .physAccel :=
    Option.some.inj ((ObjectRepo.typeOf_of_objs here).symm.trans physical)
  obtain ⟨freeVaq, field⟩ := Option.isSome_iff_exists.mp (homed id a here type (by simp))
  have mine : holds a = {freeVaq} := by
    unfold holds
    rw [type, field]
    rfl
  rw [mine, Multiset.singleton_add] at dropped
  have virtual := unlinked.types freeVaq _ ((ok.typed id a here).freeVaq freeVaq field)
  obtain ⟨t, drop⟩ := refDecVaccel_returns dropped virtual
  obtain ⟨kept, extended, owners, -⟩ := dropped.refDecVaccel drop
  rw [← owners] at kept
  exact ⟨t, Option.bind_eq_some_iff.mpr ⟨freeVaq, field, drop⟩, extended, outer, kept⟩

/-- An accelerator, physical or virtual. -/
def Accelerator (r : ObjectRepo) (id : Nat) : Prop :=
  r.typeOf id = some .physAccel ∨ r.typeOf id = some .virtAccel

/-- What the drops of references to accelerators leave. -/
structure Dropped (r s : ObjectRepo) (outer : Multiset Nat) : Prop where
  sound : Sound s outer
  homed : Homed none s
  extended : Extends r s
  others : ∀ j, ¬ Accelerator r j → s.objs j = r.objs j

theorem Dropped.types {j : Nat} (dropped : Dropped r s outer) : s.typeOf j = r.typeOf j := by
  cases type : r.typeOf j with
  | some t => exact dropped.extended.types j t type
  | none =>
    unfold ObjectRepo.typeOf
    rw [dropped.others j (by rintro (is | is) <;> rw [type] at is <;> cases is)]
    exact type

/-- One drop. -/
theorem drop_returns (sizes : Sizeofs) (sound : Sound r (id ::ₘ outer)) (homed : Homed none r)
    (accelerator : Accelerator r id) :
    ∃ s, araxObjectRefDec sizes r id = some s ∧ Dropped r s outer := by
  have referenced : 0 < r.refs id := by
    rw [sound.ok.counts, Multiset.cons_add, Multiset.count_cons_self]
    exact Nat.succ_pos _
  obtain ⟨o, here, -, live⟩ := sound.ok.present referenced
  rcases accelerator with physical | virtual
  · obtain ⟨s, drop⟩ := refDecAccel_returns sound.ok homed physical
    have done : araxObjectRefDec sizes r id = some s := by
      rw [ObjectRepo.typeOf_of_objs here, Option.some.injEq] at physical
      unfold araxObjectRefDec
      rw [live, Option.bind_some, physical]
      exact drop
    obtain ⟨kept, extended, others⟩ := sound.ok.refDecAccel drop
    refine ⟨s, done, sound.onwards kept extended, homed.refDec done, extended, fun j other => ?_⟩
    exact others j (fun is => other (.inl is)) (fun is => other (.inr is))
  · obtain ⟨s, drop⟩ := refDecVaccel_returns sound.ok virtual
    have done : araxObjectRefDec sizes r id = some s := by
      have virtual := virtual
      rw [ObjectRepo.typeOf_of_objs here, Option.some.injEq] at virtual
      unfold araxObjectRefDec
      rw [live, Option.bind_some, virtual]
      exact drop
    obtain ⟨kept, extended, owners, -, others⟩ := sound.ok.refDecVaccel drop
    rw [← owners] at kept
    refine ⟨s, done, sound.onwards kept extended, homed.refDec done, extended, fun j other => ?_⟩
    exact others j fun same => other (.inr (same ▸ virtual))

/-- No destructor needs a lock of `held`: not that of the virtual accelerators, or no physical one
loses its last reference. -/
def NeedsNone (held : List ObjectType) (r : ObjectRepo) (ids : List Nat) : Prop :=
  .virtAccel ∉ held ∨ ∀ a ∈ ids, r.typeOf a = some .physAccel → ids.count a < r.refs a

/-- **The previous array is dropped,** with the locks and without. -/
theorem drops_return (sizes : Sizeofs) {ids : List Nat} (sound : Sound r (↑ids + outer))
    (homed : Homed none r)
    (accelerators : ∀ a ∈ ids, Accelerator r a) (free : NeedsNone held r ids) :
    ∃ s, Locked.araxAccelListFreePreLocked held r (nullTerminated ids) = .ok s ∧
      araxAccelListFreePreLocked sizes r ids = some s ∧ Dropped r s outer := by
  induction ids generalizing r with
  | nil => exact ⟨r, rfl, rfl, sound.bare, homed, Extends.refl r, fun _ _ => rfl⟩
  | cons id rest ih =>
    rw [← Multiset.cons_coe, Multiset.cons_add] at sound
    have accelerator := accelerators id List.mem_cons_self
    obtain ⟨t, drop, dropped⟩ := drop_returns sizes sound homed accelerator
    obtain ⟨o, live, -⟩ := Option.bind_eq_some_iff.mp drop
    have here := (ObjectRepo.live_some live).1
    have lock : Locked.araxObjectRefDecPreLocked held r id = .ok t := by
      rw [preLocked_eq sizes live]
      · exact congrArg orAborts drop
      · unfold Accelerator at accelerator
        simpa only [ObjectRepo.typeOf_of_objs here, Option.some.injEq] using accelerator
      · refine free.imp_right fun several => or_iff_not_imp_left.mpr fun other => ?_
        have physical := accelerator.resolve_right (by
          rw [ObjectRepo.typeOf_of_objs here, Option.some.injEq]
          exact other)
        have more := several id List.mem_cons_self physical
        rw [List.count_cons_self, ObjectRepo.refs_of_objs here] at more
        omega
    have free' : NeedsNone held t rest := by
      refine free.imp_right fun several a member physical => ?_
      rw [dropped.types] at physical
      have before : r.refs a = (id ::ₘ (↑rest + outer)).count a :=
        sound.count_outside (by rw [physical]; simp) (by rw [physical]; simp)
      have after : t.refs a = (↑rest + outer).count a :=
        dropped.sound.count_outside (by rw [dropped.types, physical]; simp)
          (by rw [dropped.types, physical]; simp)
      have more := several a (List.mem_cons_of_mem id member) physical
      rw [Multiset.count_cons, Multiset.count_add] at before
      rw [Multiset.count_add] at after
      rw [← Multiset.coe_count, ← Multiset.cons_coe, Multiset.count_cons] at more
      rw [← Multiset.coe_count]
      omega
    have accelerators' : ∀ a ∈ rest, Accelerator t a := by
      intro a member
      unfold Accelerator
      rw [dropped.types]
      exact accelerators a (List.mem_cons_of_mem id member)
    obtain ⟨s, all, plain, done⟩ := ih dropped.sound dropped.homed accelerators' free'
    refine ⟨s, ?_, Option.bind_eq_some_iff.mpr ⟨t, drop, plain⟩, done.sound, done.homed,
      dropped.extended.trans done.extended, fun j other => ?_⟩
    · show (Locked.araxObjectRefDecPreLocked held r id).bind _ = _
      rw [lock]
      exact all
    · rw [done.others j, dropped.others j other]
      unfold Accelerator
      rw [dropped.types]
      exact other

/-- Only virtual accelerators are the `free_vaq` of others. -/
theorem Sound.no_frees (sound : Sound r outer) (other : r.typeOf id ≠ some .virtAccel) :
    countLive r (AraxObject.freesOn id) = 0 := by
  unfold countLive
  rw [Finset.card_eq_zero, Finset.filter_eq_empty_iff]
  intro j _ frees
  cases live : r.live j with
  | none =>
    rw [live] at frees
    cases frees
  | some o =>
    rw [live, Option.any_some, AraxObject.freesOn, Bool.and_eq_true, beq_iff_eq,
      beq_iff_eq] at frees
    exact other ((sound.ok.typed j o (ObjectRepo.live_some live).1).freeVaq id frees.2)

/-- **The counts after the drops:** beyond the references that were given back, a physical
accelerator that is destroyed drops the one to its `free_vaq`. -/
theorem drops_balance {ids : List Nat} (sound : Sound r (↑ids + outer))
    (accelerators : ∀ a ∈ ids, Accelerator r a) (dropped : Dropped r s outer) (id : Nat) :
    s.refs id + ids.count id + countLive r (AraxObject.freesOn id) =
      r.refs id + countLive s (AraxObject.freesOn id) := by
  by_cases virtual : r.typeOf id = some .virtAccel
  · have untouched : ∀ property : AraxObject → Bool,
        (∀ o, o.type = .physAccel ∨ o.type = .virtAccel → property o = false) →
          countLive s property = countLive r property := by
      intro property never
      refine countLive_congr sound.ok.fresh dropped.sound.ok.fresh fun j => ?_
      by_cases accelerator : Accelerator r j
      · rcases accelerator with is | is
        · rw [any_of_type is fun o type => never o (.inl type),
            any_of_type (dropped.types.trans is) fun o type => never o (.inl type)]
        · rw [any_of_type is fun o type => never o (.inr type),
            any_of_type (dropped.types.trans is) fun o type => never o (.inr type)]
      · unfold ObjectRepo.live
        rw [dropped.others j accelerator]
    have data := untouched (AraxObject.dataOn id) fun o type => by
      rcases type with is | is <;> simp [AraxObject.dataOn, is]
    have tasks := untouched (AraxObject.submittedTo id) fun o type => by
      rcases type with is | is <;> simp [AraxObject.submittedTo, is]
    have before := sound.ok.refs_vaccel virtual
    have after := dropped.sound.ok.refs_vaccel (dropped.types.trans virtual)
    rw [Multiset.count_add, Multiset.coe_count] at before
    omega
  · rw [sound.no_frees virtual, dropped.sound.no_frees (dropped.types.symm ▸ virtual)]
    by_cases data : r.typeOf id = some .data
    · have other : ¬ Accelerator r id := by
        rintro (is | is) <;> rw [data] at is <;> cases is
      have absent : ids.count id = 0 :=
        List.count_eq_zero.mpr fun member => other (accelerators id member)
      unfold ObjectRepo.refs
      rw [dropped.others id other, absent]
    · have before := sound.count_outside virtual data
      have after : s.refs id = outer.count id := dropped.sound.count_outside
        (dropped.types.symm ▸ virtual) (dropped.types.symm ▸ data)
      rw [Multiset.count_add, Multiset.coe_count] at before
      omega

end Drops

section List

variable {sizes : Sizeofs} {r next : ObjectRepo} {outer : Multiset Nat} {type : AccelType}
  {id : Nat} {o : AraxObject}

/-! ### The array -/

/-- The condition of the loops of `arax_accel_list`. -/
def matching (r : ObjectRepo) (type : AccelType) (id : Nat) : Bool :=
  (r.live id).any fun a => decide (type = .any ∨ a.accelType = type)

/-- The objects that may be accessed after a change of one count. -/
theorem live_recount (live : r.live id = some o) (n j : Nat) :
    (r.set id { o with refCount := n }).live j =
      if j = id then some { o with refCount := n } else r.live j := by
  unfold ObjectRepo.live
  rw [ObjectRepo.objs_set]
  split_ifs with same
  · rw [Option.filter_some, (ObjectRepo.live_some live).2]
    rfl
  · rfl

/-- Counts do not change what matches. -/
theorem matching_recount (live : r.live id = some o) (n : Nat) :
    matching (r.set id { o with refCount := n }) type = matching r type := by
  funext j
  unfold matching
  rw [live_recount live]
  split_ifs with same
  · rw [same, live]
    rfl
  · rfl

/-- One step of the loops: an accelerator that matches is counted, and referenced if the caller
wants it. -/
theorem listAccel_some (type : AccelType) (acl : Option (List Nat)) (n : Nat)
    (live : r.live id = some o) :
    listAccel type (r, acl, n) id =
      if matching r type id then
        some (if acl.isSome then r.set id { o with refCount := o.refCount + 1 } else r,
          acl.map (· ++ [id]), n + 1)
      else some (r, acl, n) := by
  unfold listAccel matching araxObjectRefInc
  rw [live]
  cases acl with
  | none => simp
  | some acl => simp

/-- **The loop of `arax_accel_list`:** the accelerators that match, each with a new reference. -/
theorem listAccels_runs {ids : List Nat} (acl : Option (List Nat)) (n : Nat)
    (live : ∀ id ∈ ids, ∃ o, r.live id = some o) :
    ∃ next, ids.foldlM (listAccel type) (r, acl, n) =
        some (next, acl.map (· ++ ids.filter (matching r type)),
          n + (ids.filter (matching r type)).length) ∧
      ∀ j, next.objs j = (r.objs j).map fun o => { o with
        refCount := o.refCount +
          if acl.isSome then (ids.filter (matching r type)).count j else 0 } := by
  induction ids generalizing r acl n with
  | nil => exact ⟨r, by cases acl <;> simp, fun j => by simp⟩
  | cons id rest ih =>
    obtain ⟨o, here⟩ := live id List.mem_cons_self
    have others : ∀ j ∈ rest, ∃ o, r.live j = some o :=
      fun j member => live j (List.mem_cons_of_mem id member)
    have move := listAccel_some type acl n here
    rw [List.filter_cons]
    by_cases fits : matching r type id = true
    · rw [if_pos fits] at move ⊢
      cases acl with
      | none =>
        obtain ⟨next, run, objs⟩ := ih none (n + 1) others
        refine ⟨next, Option.bind_eq_some_iff.mpr ⟨_, move, run.trans ?_⟩, objs⟩
        rw [List.length_cons, Nat.add_right_comm, Nat.add_assoc]
        rfl
      | some acl =>
        have others' : ∀ j ∈ rest, ∃ u,
            (r.set id { o with refCount := o.refCount + 1 }).live j = some u := by
          intro j member
          rw [live_recount here]
          split_ifs
          · exact ⟨_, rfl⟩
          · exact others j member
        obtain ⟨next, run, objs⟩ := ih (some (acl ++ [id])) (n + 1) others'
        rw [matching_recount here] at run objs
        refine ⟨next, Option.bind_eq_some_iff.mpr ⟨_, move, run.trans ?_⟩, fun j => ?_⟩
        · rw [List.length_cons, Nat.add_right_comm, Nat.add_assoc, Option.map_some, Option.map_some,
            List.append_assoc]
          rfl
        · rw [objs, ObjectRepo.objs_set]
          by_cases same : j = id
          · rw [if_pos same, same, (ObjectRepo.live_some here).1, List.count_cons_self]
            simp only [Option.map_some, Option.isSome_some, if_true]
            rw [Nat.add_assoc, Nat.add_comm 1]
          · rw [if_neg same, List.count_cons_of_ne (Ne.symm same)]
            rfl
    · rw [if_neg fits] at move ⊢
      obtain ⟨next, run, objs⟩ := ih acl n others
      exact ⟨next, Option.bind_eq_some_iff.mpr ⟨_, move, run⟩, objs⟩

/-- `arax_accel_list_free`, where all the objects have further references. -/
theorem listFree_shared {ids : List Nat}
    (shared : ∀ id ∈ ids, ∃ o, r.live id = some o ∧ ids.count id < o.refCount) :
    ∃ freed, Locked.araxAccelListFree r (nullTerminated ids) = .ok freed ∧
      ∀ j, freed.objs j = (r.objs j).map fun o =>
        { o with refCount := o.refCount - ids.count j } := by
  induction ids generalizing r with
  | nil => exact ⟨r, rfl, fun j => by simp⟩
  | cons id rest ih =>
    obtain ⟨o, here, several⟩ := shared id List.mem_cons_self
    rw [List.count_cons_self] at several
    have drop : Locked.araxObjectRefDec [] r id =
        .ok (r.set id { o with refCount := o.refCount - 1 }) := by
      unfold Locked.araxObjectRefDec Locked.refDecWith Locked.dropRef
      rw [here]
      simp [orAborts, Except.bind, show o.refCount ≠ 0 by omega,
        show o.refCount - 1 ≠ 0 by omega]
    have shared' : ∀ j ∈ rest, ∃ u, (r.set id { o with refCount := o.refCount - 1 }).live j =
        some u ∧ rest.count j < u.refCount := by
      intro j member
      rw [live_recount here]
      split_ifs with same
      · refine ⟨_, rfl, ?_⟩
        rw [same]
        show rest.count id < o.refCount - 1
        omega
      · obtain ⟨u, there, more⟩ := shared j (List.mem_cons_of_mem id member)
        rw [List.count_cons_of_ne (Ne.symm same)] at more
        exact ⟨u, there, more⟩
    obtain ⟨freed, run, objs⟩ := ih shared'
    refine ⟨freed, ?_, fun j => ?_⟩
    · show (Locked.araxObjectRefDec [] r id).bind _ = _
      rw [drop]
      exact run
    · rw [objs, ObjectRepo.objs_set]
      by_cases same : j = id
      · rw [if_pos same, same, (ObjectRepo.live_some here).1, List.count_cons_self]
        simp only [Option.map_some]
        rw [Nat.sub_sub, Nat.add_comm 1]
      · rw [if_neg same, List.count_cons_of_ne (Ne.symm same)]

/-- What `arax_accel_list` does to a repository `r`, which is `dropped` without the references of
the previous array: `new` are the accelerators that it lists, and `taken` are those it
references. -/
structure Lists (r dropped next : ObjectRepo) (type : AccelType) (physical : Bool)
    (previous new taken : List Nat) : Prop where
  /-- A physical accelerator that is destroyed also drops the reference to its `free_vaq`. -/
  drops : ∀ id, dropped.refs id + previous.count id + countLive r (AraxObject.freesOn id) =
    r.refs id + countLive dropped (AraxObject.freesOn id)
  nodup : new.Nodup
  listed : ∀ id, id ∈ new ↔ ∃ o, dropped.live id = some o ∧ o.type = Locked.listType physical ∧
    (type = .any ∨ o.accelType = type)
  takes : ∀ id, next.refs id = dropped.refs id + taken.count id

/-- The accelerators of a list that match. -/
theorem Sound.mem_matching {kind : ObjectType} (sound : Sound r outer) :
    id ∈ (r.list kind).filter (matching r type) ↔
      ∃ o, r.live id = some o ∧ o.type = kind ∧ (type = .any ∨ o.accelType = type) := by
  rw [List.mem_filter, sound.listed_iff]
  unfold matching
  constructor
  · rintro ⟨⟨kind, referenced⟩, fits⟩
    obtain ⟨o, here, -, live⟩ := sound.ok.present referenced
    rw [live, Option.any_some, decide_eq_true_eq] at fits
    rw [ObjectRepo.typeOf_of_objs here, Option.some.injEq] at kind
    exact ⟨o, live, kind, fits⟩
  · rintro ⟨o, live, kind, fits⟩
    obtain ⟨here, alive⟩ := sound.referenced live
    rw [live, Option.any_some, decide_eq_true_eq]
    exact ⟨⟨kind ▸ ObjectRepo.typeOf_of_objs here, ObjectRepo.refs_of_objs here ▸ alive⟩, fits⟩

/-- **`arax_accel_list` returns,** with the locks and without. -/
theorem accelList_returns (sizes : Sizeofs) (type : AccelType) {physical : Bool}
    {accels : Option (Option (List Nat))}
    (sound : Sound r (↑(accels.join.getD []) + outer)) (homed : Homed none r)
    (accelerators : ∀ a ∈ accels.join.getD [], Accelerator r a)
    (free : NeedsNone [Locked.listType physical] r (accels.join.getD [])) :
    ∃ dropped new next,
      Locked.araxAccelListFreePreLocked [Locked.listType physical] r
        (nullTerminated (accels.join.getD [])) = .ok dropped ∧
      Locked.araxAccelList r type physical (accels.map fun array => array.map nullTerminated) =
        .ok (next, accels.map fun _ => nullTerminated new, new.length) ∧
      araxAccelList sizes r type physical accels =
        some (next, accels.map fun _ => new, new.length) ∧
      Lists r dropped next type physical (accels.join.getD []) new
        (if accels.isSome then new else []) ∧
      (accels.isSome = true → ∃ freed, Locked.araxAccelListFree next (nullTerminated new) =
        .ok freed ∧ ∀ id, freed.objs id = dropped.objs id) := by
  obtain ⟨s, lock, plain, dropped⟩ := drops_return sizes sound homed accelerators free
  have listed : ∀ id ∈ s.list (Locked.listType physical), ∃ o, s.live id = some o := by
    intro id member
    obtain ⟨o, -, -, live⟩ := dropped.sound.ok.present (dropped.sound.of_mem member).2
    exact ⟨o, live⟩
  let new := (s.list (Locked.listType physical)).filter (matching s type)
  obtain ⟨next, run, objs⟩ := listAccels_runs (accels.map fun _ => []) 0 listed
  have acl : (accels.map fun _ => ([] : List Nat)).map (· ++ new) = accels.map fun _ => new := by
    cases accels <;> rfl
  rw [acl, Nat.zero_add] at run
  have nodup : new.Nodup := by
    refine List.Nodup.filter _ (List.nodup_iff_count_le_one.mpr fun id => ?_)
    rw [dropped.sound.ok.linked]
    split_ifs <;> omega
  refine ⟨s, new, next, lock, ?_, Option.bind_eq_some_iff.mpr ⟨s, plain, run⟩,
    ⟨drops_balance sound accelerators dropped, nodup, fun id => dropped.sound.mem_matching,
      fun id => ?_⟩, fun wanted => ?_⟩
  · have first : (match (accels.map fun array => array.map nullTerminated).join with
        | some previous => Locked.araxAccelListFreePreLocked [Locked.listType physical] r previous
        | none => .ok r) = .ok s := by
      rcases accels with _ | _ | previous <;> exact lock
    unfold Locked.araxAccelList
    rw [first, Option.map_map]
    show (orAborts (List.foldlM (listAccel type) (s, accels.map fun _ => [], 0) _)).bind _ = _
    rw [run]
    cases accels with
    | none => rfl
    | some array =>
      have fits : new.length < s.length (Locked.listType physical) + 1 := by
        rw [dropped.sound.ok.length]
        exact Nat.lt_succ_of_le (List.length_filter_le _ _)
      exact if_pos fits
  · unfold ObjectRepo.refs
    rw [objs, Option.isSome_map]
    cases here : s.objs id with
    | none =>
      have absent : new.count id = 0 := by
        refine List.count_eq_zero.mpr fun member => ?_
        obtain ⟨o, live, -⟩ := dropped.sound.mem_matching.mp member
        rw [(ObjectRepo.live_some live).1] at here
        cases here
      cases accels <;> simp [absent]
    | some o => cases accels <;> rfl
  · obtain ⟨array, rfl⟩ := Option.isSome_iff_exists.mp wanted
    have shared : ∀ id ∈ new, ∃ o, next.live id = some o ∧ new.count id < o.refCount := by
      intro id member
      obtain ⟨o, live, -⟩ := dropped.sound.mem_matching.mp member
      obtain ⟨here, alive⟩ := dropped.sound.referenced live
      refine ⟨{ o with refCount := o.refCount + new.count id }, ?_, Nat.lt_add_of_pos_left alive⟩
      unfold ObjectRepo.live
      rw [objs, here, Option.map_some, Option.filter_some, (ObjectRepo.live_some live).2]
      rfl
    obtain ⟨freed, run', back⟩ := listFree_shared shared
    refine ⟨freed, run', fun id => ?_⟩
    rw [back, objs, Option.map_map]
    cases s.objs id with
    | none => rfl
    | some o =>
      show some { o with refCount := o.refCount + new.count id - new.count id } = some o
      rw [Nat.add_sub_cancel]

/-- **`arax_accel_list`.** In every state of every run, and for every filter and previous array, of
which no physical accelerator loses its last reference while the virtual ones are locked: the call
returns, the new array holds exactly the accelerators that match without the references of the
previous one, the counts change by these and by the `free_vaq` of what is destroyed, and
`arax_accel_list_free` takes back what the call added. -/
theorem accelList_lists (sizes : Sizeofs) (size : Nat) (calls : List Call) (p : Pipe)
    (made : ∀ call ∈ calls, call.homeless = false)
    (run : exec (step sizes) (start size) calls = some p) (type : AccelType) (physical : Bool)
    (accels : Option (Option (List Nat))) (owned : Owned p.repo (accels.join.getD []))
    (accelerators : ∀ a ∈ accels.join.getD [], Accelerator p.repo a)
    (free : physical = true ∨ ∀ a ∈ accels.join.getD [], p.repo.typeOf a = some .physAccel →
      (accels.join.getD []).count a < p.repo.refs a) :
    ∃ dropped new next,
      Locked.araxAccelListFreePreLocked [Locked.listType physical] p.repo
        (nullTerminated (accels.join.getD [])) = .ok dropped ∧
      Locked.araxAccelList p.repo type physical (accels.map fun array => array.map nullTerminated) =
        .ok (next, accels.map fun _ => nullTerminated new, new.length) ∧
      Lists p.repo dropped next type physical (accels.join.getD []) new
        (if accels.isSome then new else []) ∧
      (accels.isSome = true → ∃ freed, Locked.araxAccelListFree next (nullTerminated new) =
        .ok freed ∧ ∀ id, freed.objs id = dropped.objs id) := by
  obtain ⟨outer, sound, -⟩ := accounted_of_run run
  have split := add_tsub_cancel_of_le (sound.le_of_owned owned)
  rw [← split] at sound
  have needs : NeedsNone [Locked.listType physical] p.repo (accels.join.getD []) := by
    refine free.imp_left fun physical => ?_
    rw [physical]
    simp [Locked.listType]
  obtain ⟨dropped, new, next, drop, list, -, rest⟩ := accelList_returns sizes type
    sound (homed_of_run made run) accelerators needs
  exact ⟨dropped, new, next, drop, list, rest⟩

/-- A run in which a physical accelerator is listed, and then released by its owner. -/
def listedCalls : List Call :=
  [.accelInit "GPU" .gpu 1000 1000, .accelList .any true (some none), .accelRelease 0]

theorem accelList_lists_at_release :
    ∃ p, exec (step someSizes) (start 4096) listedCalls = some p ∧ ∃ dropped new next,
      Locked.araxAccelListFreePreLocked [.physAccel] p.repo (nullTerminated [0]) = .ok dropped ∧
      Locked.araxAccelList p.repo .any true (some (some (nullTerminated [0]))) =
        .ok (next, some (nullTerminated new), new.length) ∧
      Lists p.repo dropped next .any true [0] new new ∧
      ∃ freed, Locked.araxAccelListFree next (nullTerminated new) = .ok freed ∧
        ∀ id, freed.objs id = dropped.objs id := by
  have returns : (exec (step someSizes) (start 4096) listedCalls).any
      (fun p => decide (Owned p.repo [0] ∧ p.repo.typeOf 0 = some .physAccel)) = true := by
    decide +kernel
  obtain ⟨p, run, checks⟩ := (Option.any_eq_true _ _).mp returns
  have checks := of_decide_eq_true checks
  obtain ⟨dropped, new, next, drop, list, lists, back⟩ := accelList_lists someSizes 4096
    listedCalls p (by decide) run .any true (some (some [0])) checks.1
    (fun a member => .inl (List.mem_singleton.mp member ▸ checks.2)) (.inl rfl)
  exact ⟨p, run, dropped, new, next, drop, list, lists, back rfl⟩

/-- The array has the last reference: dropping it destroys the accelerator, whose `free_vaq` loses a
reference and is in neither array. -/
theorem accelList_drops_freeVaq :
    ∃ p next, exec (step someSizes) (start 4096) listedCalls = some p ∧ Owned p.repo [0] ∧
      Locked.araxAccelList p.repo .any true (some (some (nullTerminated [0]))) =
        .ok (next, some (nullTerminated []), 0) ∧
      next.refs 1 + [0].count 1 ≠ p.repo.refs 1 + ([] : List Nat).count 1 := by
  have returns : (exec (step someSizes) (start 4096) listedCalls).any
      (fun p => decide (Owned p.repo [0]) &&
        match Locked.araxAccelList p.repo .any true (some (some (nullTerminated [0]))) with
        | .ok (next, array, n) => decide (array = some (nullTerminated []) ∧ n = 0 ∧
            next.refs 1 + [0].count 1 ≠ p.repo.refs 1 + ([] : List Nat).count 1)
        | .error _ => false) = true := by
    decide +kernel
  obtain ⟨p, run, checks⟩ := (Option.any_eq_true _ _).mp returns
  rw [Bool.and_eq_true, decide_eq_true_eq] at checks
  obtain ⟨owned, checks⟩ := checks
  split at checks
  · rename_i next array n list
    obtain ⟨rfl, rfl, differs⟩ := of_decide_eq_true checks
    exact ⟨p, next, run, owned, list, differs⟩
  · cases checks

end List

end Arax.Core
