/-
**References to procedures (`src/arch/shm/impl.c`, `src/core/arax_object.c`).**

For every `arax_proc_register` and `arax_proc_get` there is to be a matching `arax_proc_put`. A run
is a sequence of the three calls that keeps to this rule: `owed` counts for every procedure the
calls that returned it and were not yet matched, and a put is only made on a procedure that is owed
one.

* `put_spec` — what a put does to a procedure with references.
* `HandlesBalanced` — the references are what is owed, and a procedure that is owed a put is found
  under its name and can be put.
* `handles_balanced_iff` — this holds in all states of a run exactly if every registration is of a
  name that fits into an object and that no procedure has: `arax_proc_register` returns a procedure
  that is there already without taking a reference.
-/

import Arax.Core.ProcRegistry

namespace Arax.Core

open Arax.Lib

/-- A call. -/
inductive HandleCall where
  | register (name : String)
  | get (name : String)
  | put (proc : Nat)

/-- The repository, and what the callers hold. -/
structure HandleRun where
  repo : ObjectRepo
  /-- The registrations and gets that returned the procedure, without the puts on it. -/
  owed : Nat → Nat
  /-- The name of the last registration that returned the procedure. -/
  name : Nat → String

/-- Before any call. -/
def handleInit (size : Nat) : HandleRun where
  repo := araxObjectRepoInit size
  owed := fun _ => 0
  name := fun _ => ""

/-- `proc` was returned once more. -/
def HandleRun.hand (s : HandleRun) (proc : Nat) : HandleRun :=
  { s with owed := Function.update s.owed proc (s.owed proc + 1) }

/-- The call. A put that nobody owes is no move of a run. -/
def handleStep (sizes : Sizeofs) (s : HandleRun) : HandleCall → Option HandleRun
  | .register name => (araxProcRegister sizes s.repo name).map fun (repo, proc) =>
      { s with repo := repo, name := Function.update s.name proc name }.hand proc
  | .get name => (araxProcGetOrNull s.repo name).map fun (repo, found) =>
      match found with
      | some proc => { s with repo := repo }.hand proc
      | none => { s with repo := repo }
  | .put proc =>
    if s.owed proc = 0 then none
    else (araxProcPut sizes s.repo proc).map fun repo =>
      { s with repo := repo, owed := Function.update s.owed proc (s.owed proc - 1) }

/-- **The references are what is owed.** -/
structure HandlesBalanced (sizes : Sizeofs) (s : HandleRun) : Prop where
  count : ∀ proc, s.repo.refs proc = s.owed proc
  /-- It stays findable until the last put. -/
  found : ∀ proc, 0 < s.owed proc → araxPipeFindProc s.repo (s.name proc) = some proc
  /-- No put is made on a procedure that is destroyed. -/
  put : ∀ proc, 0 < s.owed proc → (araxProcPut sizes s.repo proc).isSome = true

/-- **The condition on a call.** The name of a registration fits into an object, and no procedure
has it. -/
def FreshName (s : HandleRun) : HandleCall → Prop
  | .register name =>
    name.length < araxObjectNameSize ∧ araxPipeFindProc s.repo name = none
  | .get _ | .put _ => True

instance (s : HandleRun) : (call : HandleCall) → Decidable (FreshName s call)
  | .register _ => inferInstanceAs (Decidable (_ ∧ _))
  | .get _ | .put _ => isTrue trivial

/-! ### The invariant -/

/-- What is known of the procedures. -/
structure HandleInv (sizes : Sizeofs) (s : HandleRun) : Prop where
  listed : ∀ id, id ∈ s.repo.list .proc ↔ ∃ o, s.repo.live id = some o
  nodup : (s.repo.list .proc).Nodup
  kind : ∀ id o, s.repo.objs id = some o →
    o.type = .proc ∧ o.allocSize = sizes.proc ∧ o.name = objectName (s.name id)
  counted : ∀ id o, s.repo.objs id = some o → (o.destroyed = true ↔ o.refCount = 0)
  fresh : ∀ id, s.repo.next ≤ id → s.repo.objs id = none ∧ s.owed id = 0
  throttle : s.repo.available + sizes.proc * (s.repo.list .proc).length = s.repo.capacity

theorem handleInit_inv (sizes : Sizeofs) (size : Nat) : HandleInv sizes (handleInit size) where
  listed id := ⟨fun member => (by cases member), fun ⟨o, live⟩ => by cases live⟩
  nodup := List.nodup_nil
  kind id o here := by cases here
  counted id o here := by cases here
  fresh id _ := ⟨rfl, rfl⟩
  throttle := rfl

section Calls

variable {sizes : Sizeofs} {s t : HandleRun} {next : ObjectRepo} {name : String} {proc : Nat}

theorem live_iff {r : ObjectRepo} {id : Nat} {o : AraxObject} :
    r.live id = some o ↔ r.objs id = some o ∧ o.destroyed = false := by
  unfold ObjectRepo.live
  rw [Option.filter_eq_some_iff, Bool.not_eq_true']

/-- A procedure with references is alive. -/
theorem HandleInv.alive (inv : HandleInv sizes s) (referenced : 0 < s.repo.refs proc) :
    ∃ o, s.repo.live proc = some o ∧ o.refCount = s.repo.refs proc := by
  unfold ObjectRepo.refs at referenced ⊢
  cases here : s.repo.objs proc with
  | none =>
    rw [here] at referenced
    exact absurd referenced (Nat.lt_irrefl 0)
  | some o =>
    rw [here] at referenced
    refine ⟨o, live_iff.mpr ⟨here, ?_⟩, rfl⟩
    by_contra dead
    have none := (inv.counted proc o here).mp (Bool.not_eq_false _ ▸ dead)
    exact absurd none (Nat.ne_of_gt referenced)

/-! ### Puts -/

/-- What a put on the procedure `o` does. -/
structure PutDone (r next : ObjectRepo) (proc : Nat) (o : AraxObject) : Prop where
  objs : ∀ id, next.objs id = if id = proc then
    some { o with refCount := o.refCount - 1, destroyed := decide (o.refCount = 1) } else r.objs id
  list : next.list .proc =
    if o.refCount = 1 then (r.list .proc).erase proc else r.list .proc
  number : next.next = r.next
  available : next.available = r.available + if o.refCount = 1 then o.allocSize else 0
  capacity : next.capacity = r.capacity

theorem sizeInc_of_room {r : ObjectRepo} {sz : Nat} (room : r.available + sz ≤ r.capacity) :
    r.sizeInc sz = some { r with available := r.available + sz } := by
  unfold ObjectRepo.sizeInc
  split_ifs with zero full
  · rw [zero]
    rfl
  · omega
  · rfl

/-- **A put on a procedure with references** succeeds. -/
theorem put_spec (inv : HandleInv sizes s) {o : AraxObject} (live : s.repo.live proc = some o)
    (referenced : 0 < o.refCount) :
    ∃ next, araxProcPut sizes s.repo proc = some next ∧ PutDone s.repo next proc o := by
  obtain ⟨here, alive⟩ := live_iff.mp live
  obtain ⟨type, size, -⟩ := inv.kind proc o here
  have shape : araxProcPut sizes s.repo proc =
      if o.refCount - 1 = 0 then
        reclaim ((s.repo.set proc { o with refCount := o.refCount - 1 }).unlink .proc proc) proc o
      else some (s.repo.set proc { o with refCount := o.refCount - 1 }) := by
    unfold araxProcPut araxObjectRefDec
    rw [live, Option.bind_some, type]
    show refDecWith .proc dtorProc s.repo proc = _
    unfold refDecWith
    rw [live]
    simp only [type, ne_eq, not_true_eq_false, if_false, if_neg (Nat.ne_of_gt referenced)]
    rfl
  rw [shape]
  by_cases last : o.refCount = 1
  · have member : proc ∈ s.repo.list .proc := (inv.listed proc).mpr ⟨o, live⟩
    have positive : 0 < (s.repo.list .proc).length := List.length_pos_of_mem member
    have bytes := inv.throttle
    have room : s.repo.available + o.allocSize ≤ s.repo.capacity := by
      have one : sizes.proc ≤ sizes.proc * (s.repo.list .proc).length :=
        Nat.le_mul_of_pos_right _ positive
      omega
    rw [if_pos (by omega)]
    unfold reclaim
    refine ⟨_, sizeInc_of_room ?_, fun id => ?_, ?_, rfl, ?_, rfl⟩
    · exact room
    · show ((s.repo.set proc _).set proc _).objs id = _
      rw [ObjectRepo.objs_set, ObjectRepo.objs_set, last, decide_eq_true rfl]
      split_ifs <;> rfl
    · rw [if_pos last]
      show Function.update s.repo.list .proc _ .proc = _
      exact Function.update_self ..
    · rw [if_pos last]
      rfl
  · rw [if_neg (by omega)]
    refine ⟨_, rfl, fun id => ?_, ?_, rfl, ?_, rfl⟩
    · rw [ObjectRepo.objs_set, decide_eq_false last, alive]
    · rw [if_neg last]
      rfl
    · rw [if_neg last]
      rfl

/-- A put that returns was made on a procedure with references. -/
theorem HandleInv.putDone (inv : HandleInv sizes s) (referenced : 0 < s.repo.refs proc)
    (done : araxProcPut sizes s.repo proc = some next) :
    ∃ o, s.repo.live proc = some o ∧ o.refCount = s.repo.refs proc ∧
      PutDone s.repo next proc o := by
  obtain ⟨o, live, count⟩ := inv.alive referenced
  obtain ⟨next', put, spec⟩ := put_spec inv live (count ▸ referenced)
  rw [done] at put
  cases put
  exact ⟨o, live, count, spec⟩

/-- What a lookup finds is still found when another element leaves the list. -/
theorem find?_erase {p q : Nat → Bool} {l : List Nat} {found gone : Nat}
    (here : l.find? p = some found) (other : found ≠ gone) (same : ∀ id, id ≠ gone → q id = p id)
    (nodup : l.Nodup) : (l.erase gone).find? q = some found := by
  induction l with
  | nil => cases here
  | cons head rest ih =>
    obtain ⟨fresh, nodup⟩ := List.nodup_cons.mp nodup
    by_cases first : head = gone
    · rw [first, List.erase_cons_head]
      rw [List.find?_cons] at here
      split at here
      · cases here
        exact absurd first other
      · rw [← here]
        exact List.find?_congr fun id member => same id fun gone' =>
          fresh (first ▸ gone' ▸ member)
    · rw [List.erase_cons_tail (by simpa using first), List.find?_cons, same head first]
      rw [List.find?_cons] at here
      split at here
      · exact here
      · exact ih here nodup

/-- With what is known of the procedures, the counts and the lookups are enough. -/
theorem HandleInv.balanced_iff (inv : HandleInv sizes s) :
    HandlesBalanced sizes s ↔ (∀ proc, s.repo.refs proc = s.owed proc) ∧
      ∀ proc, 0 < s.owed proc → araxPipeFindProc s.repo (s.name proc) = some proc := by
  refine ⟨fun balanced => ⟨balanced.count, balanced.found⟩, fun ⟨count, found⟩ =>
    ⟨count, found, fun proc owes => ?_⟩⟩
  obtain ⟨o, live, refs⟩ := inv.alive (count proc ▸ owes)
  obtain ⟨next, put, -⟩ := put_spec inv live (by rw [refs, count]; exact owes)
  rw [put]
  rfl

/-! ### What the calls keep -/

/-- A write to a procedure that stays alive. -/
theorem HandleInv.write (inv : HandleInv sizes s) {o o' : AraxObject}
    (live : s.repo.live proc = some o)
    (objs : ∀ id, t.repo.objs id = if id = proc then some o' else s.repo.objs id)
    (same : o'.type = o.type ∧ o'.allocSize = o.allocSize ∧ o'.name = o.name)
    (alive : o'.destroyed = false) (referenced : 0 < o'.refCount)
    (list : t.repo.list .proc = s.repo.list .proc) (number : t.repo.next = s.repo.next)
    (throttle : t.repo.available = s.repo.available ∧ t.repo.capacity = s.repo.capacity)
    (owed : ∀ id, id ≠ proc → t.owed id = s.owed id) (name : t.name = s.name) :
    HandleInv sizes t := by
  have here := (live_iff.mp live).1
  have known : ∀ id o, t.repo.objs id = some o → ∃ o₀, s.repo.objs id = some o₀ ∧
      o.type = o₀.type ∧ o.allocSize = o₀.allocSize ∧ o.name = o₀.name := by
    intro id p there
    rw [objs] at there
    split_ifs at there with at_proc
    · cases there
      exact ⟨o, at_proc ▸ here, same⟩
    · exact ⟨p, there, rfl, rfl, rfl⟩
  refine ⟨fun id => ?_, list ▸ inv.nodup, fun id p there => ?_, fun id p there => ?_,
    fun id high => ?_, ?_⟩
  · rw [list, inv.listed]
    simp only [live_iff, objs]
    split_ifs with at_proc
    · exact iff_of_true ⟨o, at_proc ▸ live_iff.mp live⟩ ⟨o', rfl, alive⟩
    · rfl
  · obtain ⟨o₀, before, type, size, kept⟩ := known id p there
    rw [type, size, kept, name]
    exact inv.kind id o₀ before
  · rw [objs] at there
    split_ifs at there with at_proc
    · cases there
      rw [alive]
      exact iff_of_false Bool.false_ne_true (Nat.ne_of_gt referenced)
    · exact inv.counted id p there
  · rw [number] at high
    have ne : id ≠ proc := by
      rintro rfl
      rw [(inv.fresh id high).1] at here
      cases here
    rw [objs, if_neg ne, owed id ne]
    exact inv.fresh id high
  · rw [list, throttle.1, throttle.2]
    exact inv.throttle

/-- The last put takes the procedure out of the list. -/
theorem HandleInv.last (inv : HandleInv sizes s) {o : AraxObject}
    (live : s.repo.live proc = some o) (spec : PutDone s.repo t.repo proc o)
    (last : o.refCount = 1) (owed : ∀ id, id ≠ proc → t.owed id = s.owed id)
    (name : t.name = s.name) : HandleInv sizes t := by
  obtain ⟨here, alive⟩ := live_iff.mp live
  have member : proc ∈ s.repo.list .proc := (inv.listed proc).mpr ⟨o, live⟩
  have list : t.repo.list .proc = (s.repo.list .proc).erase proc := by rw [spec.list, if_pos last]
  have objs := spec.objs
  rw [last, decide_eq_true rfl] at objs
  refine ⟨fun id => ?_, list ▸ inv.nodup.erase proc, fun id p there => ?_, fun id p there => ?_,
    fun id high => ?_, ?_⟩
  · rw [list, inv.nodup.mem_erase_iff, inv.listed]
    simp only [live_iff, objs]
    split_ifs with at_proc
    · refine iff_of_false (fun both => both.1 at_proc) ?_
      rintro ⟨p, there, dead⟩
      cases there
      cases dead
    · exact and_iff_right at_proc
  · rw [objs] at there
    rw [name]
    split_ifs at there with at_proc
    · cases there
      exact at_proc ▸ inv.kind proc o here
    · exact inv.kind id p there
  · rw [objs] at there
    split_ifs at there with at_proc
    · cases there
      exact iff_of_true rfl rfl
    · exact inv.counted id p there
  · rw [spec.number] at high
    have ne : id ≠ proc := by
      rintro rfl
      rw [(inv.fresh id high).1] at here
      cases here
    rw [objs, if_neg ne, owed id ne]
    exact inv.fresh id high
  · have bytes := inv.throttle
    have positive := List.length_pos_of_mem member
    rw [spec.available, spec.capacity, if_pos last, (inv.kind proc o here).2.1, list,
      List.length_erase_of_mem member]
    obtain ⟨n, count⟩ := Nat.exists_eq_succ_of_ne_zero (Nat.ne_of_gt positive)
    rw [count, Nat.mul_succ] at bytes
    rw [count, Nat.succ_sub_one]
    omega

/-- A new procedure. -/
theorem HandleInv.register (inv : HandleInv sizes s)
    (done : araxObjectRegister s.repo .proc name sizes.proc 1 = some (next, proc)) :
    HandleInv sizes
      ({ s with repo := next, name := Function.update s.name proc name }.hand proc) := by
  obtain ⟨rfl, room, shape⟩ := register_some done
  obtain ⟨-, after, list⟩ := list_register done
  have objs := objs_register done
  have fresh := (inv.fresh s.repo.next le_rfl).1
  have outside : s.repo.next ∉ s.repo.list .proc := by
    intro member
    obtain ⟨o, live⟩ := (inv.listed _).mp member
    rw [(live_iff.mp live).1] at fresh
    cases fresh
  refine ⟨fun id => ?_, ?_, fun id p (there : next.objs id = some p) => ?_,
    fun id p (there : next.objs id = some p) => ?_, fun id (high : next.next ≤ id) => ?_, ?_⟩
  · show id ∈ next.list .proc ↔ ∃ o, next.live id = some o
    rw [list, List.mem_cons, inv.listed]
    simp only [live_iff, objs]
    split_ifs with new
    · exact iff_of_true (Or.inl new) ⟨_, rfl, rfl⟩
    · exact or_iff_right new
  · show (next.list .proc).Nodup
    rw [list]
    exact List.nodup_cons.mpr ⟨outside, inv.nodup⟩
  · show _ ∧ _ ∧ p.name = objectName (Function.update s.name s.repo.next name id)
    rw [objs] at there
    split_ifs at there with new
    · cases there
      rw [new, Function.update_self]
      exact ⟨rfl, rfl, rfl⟩
    · rw [Function.update_of_ne new]
      exact inv.kind id p there
  · rw [objs] at there
    split_ifs at there with new
    · cases there
      exact iff_of_false Bool.false_ne_true Nat.one_ne_zero
    · exact inv.counted id p there
  · rw [after] at high
    have ne : id ≠ s.repo.next := by omega
    show next.objs id = none ∧ Function.update s.owed s.repo.next _ id = 0
    rw [objs, if_neg ne, Function.update_of_ne ne]
    exact inv.fresh id (by omega)
  · show next.available + sizes.proc * (next.list .proc).length = next.capacity
    have bytes := inv.throttle
    rw [list, List.length_cons, Nat.mul_succ, shape]
    show s.repo.available - sizes.proc + _ = s.repo.capacity
    omega

/-- `arax_proc_get` on a procedure that is there. -/
theorem get_some (done : araxProcGetOrNull s.repo name = some (next, some proc)) :
    ∃ o, s.repo.live proc = some o ∧ araxPipeFindProc s.repo name = some proc ∧
      next = s.repo.set proc { o with refCount := o.refCount + 1 } := by
  obtain ⟨missing, -⟩ | ⟨found, same, lookup, ref⟩ := araxProcGetOrNull_cases done
  · cases missing
  · cases same
    obtain ⟨o, live, rfl⟩ := Option.map_eq_some_iff.mp ref
    exact ⟨o, live, lookup, rfl⟩

/-- `arax_proc_get` on a name that is not there. -/
theorem get_none (done : araxProcGetOrNull s.repo name = some (next, none)) : next = s.repo := by
  obtain ⟨-, same⟩ | ⟨found, impossible, -⟩ := araxProcGetOrNull_cases done
  · exact same
  · cases impossible

/-! ### One call -/

theorem HandleInv.get (inv : HandleInv sizes s) (balanced : HandlesBalanced sizes s)
    (done : araxProcGetOrNull s.repo name = some (next, some proc)) :
    HandleInv sizes ({ s with repo := next }.hand proc) ∧
      HandlesBalanced sizes ({ s with repo := next }.hand proc) := by
  obtain ⟨o, live, found, rfl⟩ := get_some done
  obtain ⟨here, alive⟩ := live_iff.mp live
  have kept : HandleInv sizes
      ({ s with repo := s.repo.set proc { o with refCount := o.refCount + 1 } }.hand proc) :=
    inv.write live (ObjectRepo.objs_set _ _ _) ⟨rfl, rfl, rfl⟩ alive (Nat.succ_pos _) rfl rfl
      ⟨rfl, rfl⟩ (fun id ne => Function.update_of_ne ne _ _) rfl
  refine ⟨kept, kept.balanced_iff.mpr ⟨fun id => ?_, fun id owes => ?_⟩⟩
  · show (s.repo.set proc _).refs id = Function.update s.owed proc _ id
    rw [ObjectRepo.refs_set, Function.update_apply, ← balanced.count proc, ← balanced.count id]
    split_ifs
    · rw [ObjectRepo.refs, here]
      rfl
    · rfl
  · have names : ∀ id, ((s.repo.set proc { o with refCount := o.refCount + 1 }).live id).map
        AraxObject.name = (s.repo.live id).map AraxObject.name :=
      name_refInc (by unfold araxObjectRefInc; rw [live]; rfl)
    have same : araxPipeFindProc (s.repo.set proc { o with refCount := o.refCount + 1 })
        (s.name id) = araxPipeFindProc s.repo (s.name id) := find_congr rfl fun id _ => names id
    refine same.trans (balanced.found id ?_)
    have owes : 0 < Function.update s.owed proc (s.owed proc + 1) id := owes
    rw [Function.update_apply] at owes
    split_ifs at owes with same
    · rw [same, ← balanced.count, ObjectRepo.refs, here]
      by_contra zero
      have gone := (inv.counted proc o here).mpr (Nat.eq_zero_of_not_pos zero)
      rw [alive] at gone
      cases gone
    · exact owes

theorem HandleInv.put (inv : HandleInv sizes s) (balanced : HandlesBalanced sizes s)
    (owes : 0 < s.owed proc) (done : araxProcPut sizes s.repo proc = some next) :
    HandleInv sizes { s with repo := next,
                             owed := Function.update s.owed proc (s.owed proc - 1) } ∧
      HandlesBalanced sizes { s with repo := next,
                                     owed := Function.update s.owed proc (s.owed proc - 1) } := by
  have referenced : 0 < s.repo.refs proc := balanced.count proc ▸ owes
  obtain ⟨o, live, count, spec⟩ := inv.putDone referenced done
  obtain ⟨here, alive⟩ := live_iff.mp live
  have others : ∀ id, id ≠ proc →
      Function.update s.owed proc (s.owed proc - 1) id = s.owed id :=
    fun id ne => Function.update_of_ne ne _ _
  have kept : HandleInv sizes { s with
      repo := next, owed := Function.update s.owed proc (s.owed proc - 1) } := by
    by_cases last : o.refCount = 1
    · exact inv.last live spec last others rfl
    · refine inv.write live spec.objs ⟨rfl, rfl, rfl⟩ (decide_eq_false last)
        (by show 0 < o.refCount - 1; omega) (by rw [spec.list, if_neg last]) spec.number
        ⟨by rw [spec.available, if_neg last]; rfl, spec.capacity⟩ others rfl
  refine ⟨kept, kept.balanced_iff.mpr ⟨fun id => ?_, fun id owes' => ?_⟩⟩
  · show next.refs id = Function.update s.owed proc _ id
    rw [ObjectRepo.refs_change spec.objs, Function.update_apply, ← balanced.count proc,
      ← balanced.count id, count]
  · have names : ∀ other, other ≠ proc ∨ o.refCount ≠ 1 →
        (next.live other).map AraxObject.name = (s.repo.live other).map AraxObject.name := by
      intro other stays
      rw [ObjectRepo.live, spec.objs]
      split_ifs with same
      · rw [decide_eq_false (stays.resolve_left (not_not.mpr same)), same, live]
        rfl
      · rfl
    have owes' : 0 < Function.update s.owed proc (s.owed proc - 1) id := owes'
    show araxPipeFindProc next (s.name id) = some id
    rw [Function.update_apply] at owes'
    by_cases last : o.refCount = 1
    · have other : id ≠ proc := by
        rintro rfl
        rw [if_pos rfl, ← balanced.count, ← count, last] at owes'
        exact absurd owes' (Nat.lt_irrefl 0)
      rw [if_neg other] at owes'
      unfold araxPipeFindProc
      rw [spec.list, if_pos last]
      refine find?_erase (balanced.found id owes') other (fun j ne => ?_) inv.nodup
      rw [names j (Or.inl ne)]
    · rw [find_congr (by rw [spec.list, if_neg last]) fun j _ => names j (Or.inr last)]
      refine balanced.found id ?_
      split_ifs at owes' with same
      · rw [same]
        exact owes
      · exact owes'

/-- A registration that finds the procedure takes no reference. -/
theorem HandleInv.again (inv : HandleInv sizes s) (balanced : HandlesBalanced sizes s)
    (lookup : araxPipeFindProc s.repo name = some proc) :
    HandleInv sizes ({ s with name := Function.update s.name proc name }.hand proc) ∧
      ¬HandlesBalanced sizes ({ s with name := Function.update s.name proc name }.hand proc) := by
  obtain ⟨member, named⟩ := find_some lookup
  obtain ⟨o, live, stored⟩ := Option.map_eq_some_iff.mp named
  have here := (live_iff.mp live).1
  have short : objectName name = name := by
    rw [objectName_eq_iff, ← stored, (inv.kind proc o here).2.2]
    exact objectName_length _
  refine ⟨⟨inv.listed, inv.nodup, fun id p there => ?_, inv.counted, fun id high => ?_,
    inv.throttle⟩, fun balanced' => ?_⟩
  · show _ ∧ _ ∧ p.name = objectName (Function.update s.name proc name id)
    by_cases same : id = proc
    · have there : s.repo.objs id = some p := there
      rw [same, here] at there
      cases there
      rw [same, Function.update_self, short]
      exact ⟨(inv.kind proc o here).1, (inv.kind proc o here).2.1, stored⟩
    · rw [Function.update_of_ne same]
      exact inv.kind id p there
  · show s.repo.objs id = none ∧ Function.update s.owed proc _ id = 0
    have ne : id ≠ proc := by
      rintro rfl
      rw [(inv.fresh id high).1] at here
      cases here
    rw [Function.update_of_ne ne]
    exact inv.fresh id high
  · have more : s.repo.refs proc = Function.update s.owed proc (s.owed proc + 1) proc :=
      balanced'.count proc
    rw [Function.update_self, balanced.count] at more
    omega

/-- A registration of a new procedure is balanced if its name is kept. -/
theorem HandleInv.first (inv : HandleInv sizes s) (balanced : HandlesBalanced sizes s)
    (lookup : araxPipeFindProc s.repo name = none)
    (done : araxObjectRegister s.repo .proc name sizes.proc 1 = some (next, proc)) :
    HandlesBalanced sizes
        ({ s with repo := next, name := Function.update s.name proc name }.hand proc) ↔
      name.length < araxObjectNameSize := by
  have kept := inv.register done
  obtain ⟨rfl, -, -⟩ := list_register done
  have inside : ∀ id ∈ s.repo.list .proc, id < s.repo.next := by
    intro id member
    obtain ⟨o, live⟩ := (inv.listed id).mp member
    by_contra high
    have none := (inv.fresh id (Nat.le_of_not_lt high)).1
    rw [(live_iff.mp live).1] at none
    cases none
  have finds := find_register inside done
  constructor
  · intro balanced'
    have owes : 0 < Function.update s.owed s.repo.next (s.owed s.repo.next + 1) s.repo.next := by
      rw [Function.update_self]
      exact Nat.succ_pos _
    have found : araxPipeFindProc next (Function.update s.name s.repo.next name s.repo.next) =
        some s.repo.next := balanced'.found s.repo.next owes
    rw [Function.update_self, finds, lookup] at found
    split_ifs at found with same
    exact objectName_eq_iff.mp same
  · intro short
    have same := objectName_eq_iff.mpr short
    refine kept.balanced_iff.mpr ⟨fun id => ?_, fun id owes => ?_⟩
    · show next.refs id = Function.update s.owed s.repo.next _ id
      rw [ObjectRepo.refs_change (objs_register done), Function.update_apply,
        (inv.fresh s.repo.next le_rfl).2, balanced.count]
      rfl
    · show araxPipeFindProc next (Function.update s.name s.repo.next name id) = some id
      have owes : 0 < Function.update s.owed s.repo.next (s.owed s.repo.next + 1) id := owes
      rw [finds, same]
      by_cases new : id = s.repo.next
      · rw [new, Function.update_self, if_pos rfl]
      · rw [Function.update_of_ne new] at owes ⊢
        have before := balanced.found id owes
        rw [if_neg, before]
        rintro rfl
        rw [lookup] at before
        cases before

theorem HandleInv.registered (inv : HandleInv sizes s) (balanced : HandlesBalanced sizes s)
    (done : araxProcRegister sizes s.repo name = some (next, proc)) :
    HandleInv sizes
        ({ s with repo := next, name := Function.update s.name proc name }.hand proc) ∧
      (HandlesBalanced sizes
          ({ s with repo := next, name := Function.update s.name proc name }.hand proc) ↔
        FreshName s (.register name)) := by
  rcases araxProcRegister_cases done with ⟨lookup, rfl⟩ | ⟨lookup, done⟩
  · obtain ⟨kept, unbalanced⟩ := inv.again balanced lookup
    refine ⟨kept, iff_of_false unbalanced fun ⟨_, absent⟩ => ?_⟩
    rw [lookup] at absent
    cases absent
  · refine ⟨inv.register done, (inv.first balanced lookup done).trans ?_⟩
    exact (and_iff_left lookup).symm

/-- **The condition is exact.** -/
theorem handleStep_exact {call : HandleCall} (inv : HandleInv sizes s)
    (balanced : HandlesBalanced sizes s) (step : handleStep sizes s call = some t) :
    HandleInv sizes t ∧ (HandlesBalanced sizes t ↔ FreshName s call) := by
  cases call with
  | register name =>
    obtain ⟨⟨next, proc⟩, done, rfl⟩ := Option.map_eq_some_iff.mp step
    exact inv.registered balanced done
  | get name =>
    obtain ⟨⟨next, found⟩, done, rfl⟩ := Option.map_eq_some_iff.mp step
    cases found with
    | none =>
      rw [get_none done]
      exact ⟨inv, iff_of_true balanced trivial⟩
    | some proc =>
      obtain ⟨kept, still⟩ := inv.get balanced done
      exact ⟨kept, iff_of_true still trivial⟩
  | put proc =>
    simp only [handleStep] at step
    split_ifs at step with none
    obtain ⟨next, done, rfl⟩ := Option.map_eq_some_iff.mp step
    obtain ⟨kept, still⟩ := inv.put balanced (Nat.pos_of_ne_zero none) done
    exact ⟨kept, iff_of_true still trivial⟩

end Calls

/-- **References to procedures.** In every state of a run in which every registration and get is
matched by at most one later put, the references of every procedure are what is owed, it is found
and it can be put until it is owed nothing: if and only if every registration of the run is of a
name that fits and that no procedure has. -/
theorem handles_balanced_iff (sizes : Sizeofs) (size : Nat) (calls : List HandleCall)
    (last : HandleRun) (run : exec (handleStep sizes) (handleInit size) calls = some last) :
    Along (handleStep sizes) (HandlesBalanced sizes) (handleInit size) calls ↔
      Guarded (handleStep sizes) FreshName (handleInit size) calls := by
  have start := handleInit_inv sizes size
  refine along_iff_guarded (HandleInv sizes) (fun _ _ _ => handleStep_exact) start ?_ run
  exact start.balanced_iff.mpr ⟨fun _ => rfl, fun _ owes => absurd owes (Nat.lt_irrefl 0)⟩

/-- Two users of one name, and a second registration after the last put. -/
theorem handles_balanced_at_two :
    Along (handleStep someSizes) (HandlesBalanced someSizes) (handleInit 4096)
      [.register "kernel", .get "kernel", .put 0, .put 0, .register "kernel"] := by
  have view : (exec (handleStep someSizes) (handleInit 4096)
      [.register "kernel", .get "kernel", .put 0, .put 0, .register "kernel"]).isSome = true := by
    decide +kernel
  obtain ⟨last, run⟩ := Option.isSome_iff_exists.mp view
  exact (handles_balanced_iff someSizes 4096 _ last run).mpr (by decide +kernel)

/-- **Two users register one name.** The put of the first one destroys the procedure of the
second. -/
theorem handles_unbalanced :
    ¬∀ (sizes : Sizeofs) (size : Nat) (calls : List HandleCall) (last : HandleRun),
      exec (handleStep sizes) (handleInit size) calls = some last →
        HandlesBalanced sizes last := by
  intro claimed
  have view : (exec (handleStep someSizes) (handleInit 4096)
      [.register "kernel", .register "kernel", .put 0]).map (fun s =>
        (s.owed 0, (araxProcPut someSizes s.repo 0).isSome)) = some (1, false) := by
    decide +kernel
  obtain ⟨last, run, ends⟩ := Option.map_eq_some_iff.mp view
  obtain ⟨owes, gone⟩ := Prod.mk.inj ends
  have put := (claimed someSizes 4096 _ last run).put 0 (by rw [owes]; decide)
  rw [gone] at put
  cases put

end Arax.Core
