/-
**What a queued task leads to.**

A worker reads `accel`, `proc` and `io` of a task long after the client issued it. A submitted
task holds references to its virtual accelerator and to its data, so these outlive it. It holds
none to its procedure, which is only as long there as somebody else keeps it.

* `Stems r next` — where the tasks of `next` come from: they are tasks of `r`, with the same
  procedure, or their procedure was in the list of `r`. Every call but a registration keeps to
  this, with all the destructors it runs.
* `QueuedLive` — every submitted task that is not destroyed leads to live objects only.
* `queued_live` — this holds in every run in which the last reference to a procedure is dropped only
  when no such task leads to it.
* `queued_dangling` — a run that breaks it.
-/

import Arax.Core.Conservation

namespace Arax.Core

open Arax.Lib

/-! ### Where tasks come from -/

/-- The write of `o'` over `o` keeps what a task is. -/
structure Alike (o o' : AraxObject) : Prop where
  type : o'.type = o.type
  proc : o'.proc = o.proc
  issued : o'.issued = o.issued
  accel : o.accel.isSome → o'.accel.isSome

/-- The tasks of `next` stem from `r`. -/
structure Stems (r next : ObjectRepo) : Prop where
  next_le : r.next ≤ next.next
  procs : ∀ q ∈ next.list .proc, q ∈ r.list .proc
  /-- Objects keep their procedure and their virtual accelerator. -/
  stays : ∀ id o, id < r.next → r.objs id = some o → ∃ o', next.objs id = some o' ∧
    (∀ q, o.proc = some q → o'.proc = some q) ∧ (o.accel.isSome → o'.accel.isSome)
  /-- The procedure of a task is that of before, or was registered. -/
  source : ∀ id o' q, next.objs id = some o' → o'.type = .task → o'.proc = some q →
    (∃ o, r.objs id = some o ∧ o.type = .task ∧ o.proc = some q) ∨ q ∈ r.list .proc
  /-- A task is submitted with a procedure and a virtual accelerator. -/
  submits : ∀ id o', next.objs id = some o' → o'.issued → (o'.proc.isSome ∧ o'.accel.isSome) ∨
    ∃ o, r.objs id = some o ∧ o.issued ∧ o'.proc = o.proc ∧ (o.accel.isSome → o'.accel.isSome)

namespace Stems

variable {r s next : ObjectRepo} {id : Nat} {o o' : AraxObject}

theorem refl (r : ObjectRepo) : Stems r r where
  next_le := Nat.le_refl _
  procs := fun _ member => member
  stays := fun _ o _ here => ⟨o, here, fun _ => id, id⟩
  source := fun _ o' _ here type proc => .inl ⟨o', here, type, proc⟩
  submits := fun _ o' here issued => .inr ⟨o', here, issued, rfl, id⟩

theorem trans (first : Stems r s) (second : Stems s next) : Stems r next where
  next_le := Nat.le_trans first.next_le second.next_le
  procs := fun q member => first.procs q (second.procs q member)
  stays := by
    intro id o below here
    obtain ⟨p, there, procs, accel⟩ := first.stays id o below here
    obtain ⟨o', found, procs', accel'⟩ :=
      second.stays id p (Nat.lt_of_lt_of_le below first.next_le) there
    exact ⟨o', found, fun q proc => procs' q (procs q proc), fun some => accel' (accel some)⟩
  source := by
    intro id o' q here type proc
    rcases second.source id o' q here type proc with ⟨p, there, type', proc'⟩ | registered
    · exact first.source id p q there type' proc'
    · exact .inr (first.procs q registered)
  submits := by
    intro id o' here issued
    rcases second.submits id o' here issued with whole | ⟨p, there, issued', proc, accel⟩
    · exact .inl whole
    · rcases first.submits id p there issued' with whole | ⟨o, found, issued'', proc', accel'⟩
      · exact .inl ⟨proc ▸ whole.1, accel whole.2⟩
      · exact .inr ⟨o, found, issued'', proc.trans proc', fun some => accel (accel' some)⟩

/-- An object of `r` is written again, at the end of a call that started in `r`. -/
theorem overwrite (stems : Stems r s) (here : r.objs id = some o) (alike : Alike o o')
    (objs : ∀ j, next.objs j = if j = id then some o' else s.objs j) (count : next.next = s.next)
    (procs : ∀ q ∈ next.list .proc, q ∈ s.list .proc) : Stems r next where
  next_le := count ▸ stems.next_le
  procs := fun q member => stems.procs q (procs q member)
  stays := by
    intro j p below there
    rw [objs]
    split_ifs with same
    · rw [same, here] at there
      cases there
      exact ⟨o', rfl, fun q proc => alike.proc.trans proc, alike.accel⟩
    · exact stems.stays j p below there
  source := by
    intro j p q there type proc
    rw [objs] at there
    split_ifs at there with same
    · cases there
      rw [same]
      exact .inl ⟨o, here, alike.type ▸ type, alike.proc ▸ proc⟩
    · exact stems.source j p q there type proc
  submits := by
    intro j p there issued
    rw [objs] at there
    split_ifs at there with same
    · cases there
      rw [same]
      exact .inr ⟨o, here, alike.issued ▸ issued, alike.proc, alike.accel⟩
    · exact stems.submits j p there issued

/-- A write to an object. -/
theorem write (here : r.objs id = some o) (alike : Alike o o') : Stems r (r.set id o') :=
  (refl r).overwrite here alike (ObjectRepo.objs_set r id o') rfl fun _ member => member

/-- A loop. -/
theorem loop {α : Type} {step : ObjectRepo → α → Option ObjectRepo} {acts : List α}
    (each : ∀ s act t, step s act = some t → Stems s t) (done : acts.foldlM step r = some next) :
    Stems r next := by
  rw [foldlM_eq_exec] at done
  exact exec_invariant (fun s act t before move => before.trans (each s act t move)) (refl r) done

/-- A registration, but of a procedure. -/
theorem register {type : ObjectType} {name : String} {size refCount : Nat} (other : type ≠ .proc)
    (done : araxObjectRegister r type name size refCount = some (next, id)) : Stems r next where
  next_le := by
    rw [(register_some done).2.2]
    exact Nat.le_succ _
  procs := by
    rw [(register_some done).2.2]
    intro q member
    change q ∈ Function.update r.list type _ .proc at member
    rwa [Function.update_of_ne (Ne.symm other)] at member
  stays := by
    intro j p below here
    rw [objs_register done, if_neg (Nat.ne_of_lt below)]
    exact ⟨p, here, fun _ same => same, fun same => same⟩
  source := by
    intro j p q there kind proc
    rw [objs_register done] at there
    split_ifs at there
    · cases there
      cases proc
    · exact .inl ⟨p, there, kind, proc⟩
  submits := by
    intro j p there issued
    rw [objs_register done] at there
    split_ifs at there
    · cases there
      cases issued
    · exact .inr ⟨p, there, issued, rfl, fun same => same⟩

theorem refInc (done : araxObjectRefInc r id = some next) : Stems r next := by
  obtain ⟨o, here, rfl⟩ := refInc_some done
  exact write here ⟨rfl, rfl, rfl, fun same => same⟩

/-- `arax_object_ref_dec`, given its destructor. -/
theorem refDecWith {type : ObjectType} {dtor : ObjectRepo → AraxObject → Option ObjectRepo}
    (spec : ∀ s t o, dtor s o = some t → Stems s t) (done : refDecWith type dtor r id = some next) :
    Stems r next := by
  obtain ⟨o, here, kind, outcome⟩ := refDecWith_some done
  rcases outcome with ⟨several, rfl⟩ | ⟨last, s, destroyed, freed⟩
  · exact write here ⟨rfl, rfl, rfl, fun same => same⟩
  · have alike : Alike o { o with refCount := 0 } := ⟨rfl, rfl, rfl, fun same => same⟩
    have counted : Stems r ((r.set id { o with refCount := 0 }).unlink o.type id) := by
      refine (refl r).overwrite here alike (ObjectRepo.objs_set r id _) rfl fun q member => ?_
      change q ∈ Function.update r.list o.type ((r.list o.type).erase id) .proc at member
      by_cases proc : .proc = o.type
      · rw [proc, Function.update_self] at member
        rw [proc]
        exact List.mem_of_mem_erase member
      · rwa [Function.update_of_ne proc] at member
    refine (counted.trans (spec _ s o destroyed)).overwrite here ?_ (objs_reclaim freed) ?_ ?_
    · exact ⟨rfl, rfl, rfl, fun same => same⟩
    · rw [sizeInc_some freed]
      rfl
    · rw [sizeInc_some freed]
      exact fun q member => member

theorem refDecVaccel (done : refDecVaccel r id = some next) : Stems r next := by
  refine refDecWith (fun s t o destroyed => ?_) done
  cases destroyed
  exact refl s

theorem refInc_list (done : araxObjectRefInc r id = some next) : next.list = r.list := by
  obtain ⟨o, -, rfl⟩ := refInc_some done
  rfl

/-- `arax_proc_get` finds a registered procedure. -/
theorem procGet {name : String} {proc : Nat} (done : araxProcGet r name = some (next, proc)) :
    Stems r next ∧ proc ∈ next.list .proc := by
  obtain ⟨q, find, done⟩ := Option.bind_eq_some_iff.mp done
  obtain ⟨taken, inc, pair⟩ := Option.map_eq_some_iff.mp done
  cases pair
  refine ⟨refInc inc, ?_⟩
  rw [refInc_list inc]
  exact List.mem_of_find?_eq_some find

theorem setAccel {data accel : Nat} (done : setAccel r data accel = some next) : Stems r next := by
  obtain ⟨d, live, rfl⟩ := Option.map_eq_some_iff.mp done
  exact write (ObjectRepo.live_some live).1 ⟨rfl, rfl, rfl, fun _ => rfl⟩

/-- A reference is taken, then the field is written. -/
theorem attach {data accel : Nat}
    (done : ((araxObjectRefInc r accel).bind fun r => Core.setAccel r data accel) = some next) :
    Stems r next := by
  obtain ⟨taken, inc, write⟩ := Option.bind_eq_some_iff.mp done
  exact (refInc inc).trans (setAccel write)

theorem migrate {data accel : Nat} (done : araxDataMigrateAccel r data accel = some next) :
    Stems r next := by
  obtain ⟨d, -, ⟨-, rfl⟩ | ⟨-, -, move⟩ | ⟨dvac, -, -, dropped, -, -, -, -, -, drop, move⟩⟩ :=
    migrate_some done
  · exact refl next
  · exact attach move
  · exact (refDecVaccel drop).trans (attach move)

theorem ioInit {task accel data : Nat} (done : ioInit task accel r data = some next) :
    Stems r next := by
  obtain ⟨t, live, done⟩ := Option.bind_eq_some_iff.mp done
  obtain ⟨s, inc, done⟩ := Option.bind_eq_some_iff.mp done
  have written : Stems r (r.set task { t with io := t.io ++ [data] }) :=
    write (ObjectRepo.live_some live).1 ⟨rfl, rfl, rfl, fun same => same⟩
  exact (written.trans (refInc inc)).trans (migrate done)

/-- `arax_task_alloc` of a task for a registered procedure. -/
theorem alloc {sizes : Sizeofs} {accel proc hostSize task : Nat} {io : List Nat}
    (registered : proc ∈ r.list .proc)
    (done : araxTaskAlloc sizes r accel proc hostSize io = some (next, task)) :
    Stems r next ∧ task < next.next ∧
      ∃ t, next.objs task = some t ∧ t.proc.isSome ∧ t.accel.isSome := by
  obtain ⟨⟨made, id⟩, register, done⟩ := Option.bind_eq_some_iff.mp done
  obtain ⟨t, live, done⟩ := Option.bind_eq_some_iff.mp done
  obtain ⟨last, fold, pair⟩ := Option.map_eq_some_iff.mp done
  cases pair
  have stems := Stems.register (by simp) register
  have shape := register_some register
  have here := (ObjectRepo.live_some live).1
  have kind : t.proc = none ∧ t.issued = false := by
    rw [objs_register register, if_pos shape.1] at here
    cases here
    exact ⟨rfl, rfl⟩
  have objs := ObjectRepo.objs_set made task { t with accel := some accel, proc := some proc }
  have written : Stems r (made.set task { t with accel := some accel, proc := some proc }) := by
    refine ⟨stems.next_le, stems.procs, ?_, ?_, ?_⟩
    · intro j o below there
      have apart : j ≠ task := by
        rw [shape.1]
        exact Nat.ne_of_lt below
      rw [objs, if_neg apart]
      exact stems.stays j o below there
    · intro j o q there type field
      rw [objs] at there
      split_ifs at there with same
      · cases there
        cases field
        exact .inr registered
      · exact stems.source j o q there type field
    · intro j o there issued
      rw [objs] at there
      split_ifs at there with same
      · cases there
        exact .inl ⟨rfl, rfl⟩
      · exact stems.submits j o there issued
  have inits : Stems (made.set task { t with accel := some accel, proc := some proc }) next :=
    loop (fun s data u init => ioInit init) fold
  have inside : task < made.next := by
    rw [shape.2.2, shape.1]
    exact Nat.lt_succ_self _
  obtain ⟨t', found, procs, accels⟩ := inits.stays task _ inside ((objs task).trans (if_pos rfl))
  refine ⟨written.trans inits, Nat.lt_of_lt_of_le inside inits.next_le, t', found, ?_, accels rfl⟩
  rw [procs proc rfl]
  rfl

/-- `arax_task_submit` of a task with a procedure and a virtual accelerator. -/
theorem submit {task accel : Nat} {t : AraxObject} (here : r.objs task = some t)
    (inside : task < r.next) (whole : t.proc.isSome ∧ t.accel.isSome)
    (done : araxTaskSubmit r task accel = some next) : Stems r next := by
  obtain ⟨s, inc, done⟩ := Option.bind_eq_some_iff.mp done
  obtain ⟨t', live, rfl⟩ := Option.map_eq_some_iff.mp done
  have stems := refInc inc
  have there := (ObjectRepo.live_some live).1
  obtain ⟨t'', found, procs, accels⟩ := stems.stays task t inside here
  rw [there] at found
  cases found
  have whole' : t'.proc.isSome ∧ t'.accel.isSome := by
    obtain ⟨q, field⟩ := Option.isSome_iff_exists.mp whole.1
    exact ⟨by rw [procs q field]; rfl, accels whole.2⟩
  have objs := ObjectRepo.objs_set s task { t' with issued := true }
  refine ⟨stems.next_le, stems.procs, ?_, ?_, ?_⟩
  · intro j o below old
    rw [objs]
    split_ifs with same
    · obtain ⟨o', found, keeps⟩ := stems.stays j o below old
      rw [same, there] at found
      cases found
      exact ⟨_, rfl, keeps⟩
    · exact stems.stays j o below old
  · intro j o q found type field
    rw [objs] at found
    split_ifs at found with same
    · cases found
      rw [same]
      exact stems.source task t' q there type field
    · exact stems.source j o q found type field
  · intro j o found issued
    rw [objs] at found
    split_ifs at found with same
    · cases found
      exact .inl whole'
    · exact stems.submits j o found issued

/-- `arax_task_issue` for a registered procedure. -/
theorem issue {sizes : Sizeofs} {accel proc hostSize task : Nat} {io : List Nat}
    (registered : proc ∈ r.list .proc)
    (done : araxTaskIssue sizes r accel proc hostSize io = some (next, task)) : Stems r next := by
  obtain ⟨-, -, made, allocated, submitted⟩ := issue_some done
  obtain ⟨stems, inside, t, here, whole⟩ := alloc registered allocated
  exact stems.trans (submit here inside whole submitted)

/-- The task that frees device memory is for a registered procedure. -/
theorem issueFree {sizes : Sizeofs} {phys : Nat} (done : issueFree sizes r phys = some next) :
    Stems r next := by
  obtain ⟨got, free, -, freeVaq, task, get, -, -, issued⟩ := issueFree_some done
  obtain ⟨stems, registered⟩ := procGet get
  exact stems.trans (issue registered issued)

theorem dtorData {sizes : Sizeofs} {d : AraxObject} (done : dtorData sizes r d = some next) :
    Stems r next := by
  obtain ⟨-, phys, accel, issued, -, -, free, drop⟩ | ⟨-, ⟨-, rfl⟩ | ⟨accel, -, drop⟩⟩ :=
    dtorData_some done
  · exact (issueFree free).trans (refDecVaccel drop)
  · exact refl next
  · exact refDecVaccel drop

theorem refDecData {sizes : Sizeofs} (done : refDecData sizes r id = some next) : Stems r next :=
  refDecWith (fun _ _ _ destroyed => dtorData destroyed) done

theorem dtorTask {sizes : Sizeofs} {t : AraxObject} (done : dtorTask sizes r t = some next) :
    Stems r next := by
  obtain ⟨s, fold, done⟩ := Option.bind_eq_some_iff.mp done
  have dropped : Stems r s := loop (fun _ _ _ drop => refDecData drop) fold
  cases field : t.accel with
  | none =>
    rw [field] at done
    cases done
    exact dropped
  | some accel =>
    rw [field] at done
    exact dropped.trans (refDecVaccel done)

/-- **`arax_object_ref_dec`,** with every destructor it runs. -/
theorem refDec {sizes : Sizeofs} (done : araxObjectRefDec sizes r id = some next) :
    Stems r next := by
  obtain ⟨o, -, done⟩ := Option.bind_eq_some_iff.mp done
  cases type : o.type with
  | physAccel =>
    rw [type] at done
    refine refDecWith (fun s t a destroyed => ?_) done
    obtain ⟨freeVaq, -, drop⟩ := Option.bind_eq_some_iff.mp destroyed
    exact refDecVaccel drop
  | virtAccel =>
    rw [type] at done
    exact refDecVaccel done
  | proc =>
    rw [type] at done
    refine refDecWith (fun s t a destroyed => ?_) done
    cases destroyed
    exact refl s
  | data =>
    rw [type] at done
    exact refDecData done
  | task =>
    rw [type] at done
    exact refDecWith (fun _ _ _ destroyed => dtorTask destroyed) done

/-! ### The calls -/

theorem addVaccel {accel vaccel : Nat} (done : araxAccelAddVaccel r accel vaccel = some next) :
    Stems r next := by
  obtain ⟨a, -, done⟩ := Option.bind_eq_some_iff.mp done
  obtain ⟨v, live, done⟩ := Option.bind_eq_some_iff.mp done
  split_ifs at done
  · cases done
    exact refl r
  · cases done
    exact write (ObjectRepo.live_some live).1 ⟨rfl, rfl, rfl, fun same => same⟩

theorem vaccelInit {sizes : Sizeofs} {name : String} {type : AccelType} {accel : Option Nat}
    {vaccel : Nat} (done : araxVaccelInit sizes r name type accel = some (next, vaccel)) :
    Stems r next := by
  obtain ⟨⟨made, made'⟩, registered, done⟩ := Option.bind_eq_some_iff.mp done
  obtain ⟨v, live, done⟩ := Option.bind_eq_some_iff.mp done
  have written : Stems r (made.set made' { v with phys := none, accelType := type }) :=
    (register (by simp) registered).trans
      (write (ObjectRepo.live_some live).1 ⟨rfl, rfl, rfl, fun same => same⟩)
  cases accel with
  | none =>
    cases done
    exact written
  | some accel =>
    obtain ⟨last, added, pair⟩ := Option.map_eq_some_iff.mp done
    cases pair
    exact written.trans (addVaccel added)

theorem accelInit {sizes : Sizeofs} {name : String} {type : AccelType} {size capacity obj : Nat}
    (done : araxAccelInit sizes r name type size capacity = some (next, obj)) : Stems r next := by
  obtain ⟨⟨made, made'⟩, registered, done⟩ := Option.bind_eq_some_iff.mp done
  obtain ⟨a, live, done⟩ := Option.bind_eq_some_iff.mp done
  split_ifs at done
  obtain ⟨⟨s, freeVaq⟩, init, done⟩ := Option.bind_eq_some_iff.mp done
  obtain ⟨a', live', pair⟩ := Option.map_eq_some_iff.mp done
  cases pair
  have written : Stems r (made.set obj { a with accelType := type }) :=
    (register (by simp) registered).trans
      (write (ObjectRepo.live_some live).1 ⟨rfl, rfl, rfl, fun same => same⟩)
  exact (written.trans (vaccelInit init)).trans
    (write (ObjectRepo.live_some live').1 ⟨rfl, rfl, rfl, fun same => same⟩)

theorem listAccel {type : AccelType} {state after : ObjectRepo × Option (List Nat) × Nat}
    {accel : Nat} (done : listAccel type state accel = some after) : Stems state.1 after.1 := by
  obtain ⟨a, -, done⟩ := Option.bind_eq_some_iff.mp done
  by_cases wanted : type = .any ∨ a.accelType = type
  · rw [if_pos wanted] at done
    split at done
    · obtain ⟨s, inc, rfl⟩ := Option.map_eq_some_iff.mp done
      exact refInc inc
    · cases done
      exact refl _
  · rw [if_neg wanted] at done
    cases done
    exact refl _

theorem accelList {sizes : Sizeofs} {type : AccelType} {physical : Bool}
    {accels : Option (Option (List Nat))} {acl : Option (List Nat)} {count : Nat}
    (done : araxAccelList sizes r type physical accels = some (next, acl, count)) :
    Stems r next := by
  obtain ⟨s, freed, fold⟩ := Option.bind_eq_some_iff.mp done
  have dropped : Stems r s := loop (fun _ _ _ drop => refDec drop) freed
  rw [foldlM_eq_exec] at fold
  have keeps : ∀ (state : ObjectRepo × Option (List Nat) × Nat) accel after, Stems s state.1 →
      Core.listAccel type state accel = some after → Stems s after.1 :=
    fun state accel after before move => before.trans (listAccel move)
  exact dropped.trans (exec_invariant keeps (refl s) fold)

theorem dataInit {sizes : Sizeofs} {size align data : Nat}
    (done : araxDataInitAligned sizes r size align = some (next, data)) : Stems r next := by
  unfold araxDataInitAligned at done
  split_ifs at done
  obtain ⟨⟨made, made'⟩, registered, done⟩ := Option.bind_eq_some_iff.mp done
  obtain ⟨d, live, pair⟩ := Option.map_eq_some_iff.mp done
  cases pair
  exact (register (by simp) registered).trans
    (write (ObjectRepo.live_some live).1 ⟨rfl, rfl, rfl, fun same => same⟩)

theorem assign {data accel : Nat} (done : assignAccel r data accel = some next) :
    Stems r next ∧ next.list = r.list := by
  obtain ⟨d, -, done⟩ := Option.bind_eq_some_iff.mp done
  cases field : d.accel with
  | none =>
    rw [field] at done
    obtain ⟨s, inc, done⟩ := Option.bind_eq_some_iff.mp done
    refine ⟨(refInc inc).trans (setAccel done), ?_⟩
    obtain ⟨d', -, rfl⟩ := Option.map_eq_some_iff.mp done
    show s.list = r.list
    exact refInc_list inc
  | some old =>
    rw [field] at done
    simp only at done
    split_ifs at done
    cases done
    exact ⟨refl r, rfl⟩

theorem dataSet {sizes : Sizeofs} {data accel task : Nat}
    (done : araxDataSet sizes r data accel = some (next, task)) : Stems r next := by
  obtain ⟨⟨got, setProc⟩, get, done⟩ := Option.bind_eq_some_iff.mp done
  obtain ⟨s, assigned, done⟩ := Option.bind_eq_some_iff.mp done
  obtain ⟨d, -, done⟩ := Option.bind_eq_some_iff.mp done
  obtain ⟨⟨t, made⟩, issued, done⟩ := Option.bind_eq_some_iff.mp done
  obtain ⟨last, put, pair⟩ := Option.map_eq_some_iff.mp done
  cases pair
  obtain ⟨stems, registered⟩ := procGet get
  obtain ⟨stems', lists⟩ := assign assigned
  have registered' : setProc ∈ s.list .proc := by
    rw [lists]
    exact registered
  exact ((stems.trans stems').trans (issue registered' issued)).trans (refDec put)

theorem dataSetRemote {data accel : Nat} {remt : Bool}
    (done : araxDataSetRemote r data accel remt = some next) : Stems r next := by
  obtain ⟨d, -, done⟩ := Option.bind_eq_some_iff.mp done
  obtain ⟨v, -, done⟩ := Option.bind_eq_some_iff.mp done
  split_ifs at done
  obtain ⟨s, inc, done⟩ := Option.bind_eq_some_iff.mp done
  obtain ⟨t, set, done⟩ := Option.bind_eq_some_iff.mp done
  obtain ⟨d', live, rfl⟩ := Option.map_eq_some_iff.mp done
  exact ((refInc inc).trans (setAccel set)).trans
    (write (ObjectRepo.live_some live).1 ⟨rfl, rfl, rfl, fun same => same⟩)

end Stems

/-- The call registers a procedure. -/
def Call.registersProc : Call → Prop
  | .register type _ _ _ => type = .proc
  | .procRegister _ => True
  | _ => False

/-- **The tasks after a call stem from those before it.** -/
theorem perform_stems {sizes : Sizeofs} {r next : ObjectRepo} {call : Call} {gets : List Nat}
    (other : ¬call.registersProc)
    (registered : ∀ accel proc hostSize io, call = .taskIssue accel proc hostSize io →
      proc ∈ r.list .proc)
    (done : perform sizes r call = some (next, gets)) : Stems r next := by
  cases call with
  | register type name size refCount =>
    simp only [perform] at done
    split_ifs at done
    obtain ⟨⟨made, id⟩, register, pair⟩ := Option.map_eq_some_iff.mp done
    cases pair
    exact Stems.register other register
  | refInc id =>
    obtain ⟨taken, inc, pair⟩ := Option.map_eq_some_iff.mp done
    cases pair
    exact Stems.refInc inc
  | refDec id | refDecPreLocked id | procPut id | dataFree id | taskFree id =>
    obtain ⟨dropped, drop, pair⟩ := Option.map_eq_some_iff.mp done
    cases pair
    exact Stems.refDec drop
  | accelInit name type size capacity =>
    obtain ⟨⟨made, accel⟩, init, pair⟩ := Option.map_eq_some_iff.mp done
    cases pair
    exact Stems.accelInit init
  | accelSetPhysical vaccel phys =>
    obtain ⟨added, add, pair⟩ := Option.map_eq_some_iff.mp done
    cases pair
    exact Stems.addVaccel add
  | accelAcquireType type =>
    obtain ⟨⟨made, v⟩, init, pair⟩ := Option.map_eq_some_iff.mp done
    cases pair
    exact Stems.vaccelInit init
  | accelAcquirePhys accel =>
    obtain ⟨⟨made, v⟩, acquire, pair⟩ := Option.map_eq_some_iff.mp done
    cases pair
    obtain ⟨a, -, acquire⟩ := Option.bind_eq_some_iff.mp acquire
    split_ifs at acquire
    · obtain ⟨⟨made', v'⟩, init, pair⟩ := Option.map_eq_some_iff.mp acquire
      cases pair
      exact Stems.vaccelInit init
    · cases acquire
      exact Stems.refl r
  | accelList type physical accels =>
    obtain ⟨⟨listed, acl, count⟩, list, pair⟩ := Option.map_eq_some_iff.mp done
    cases pair
    exact Stems.accelList list
  | accelListFree accels =>
    obtain ⟨dropped, drops, pair⟩ := Option.map_eq_some_iff.mp done
    cases pair
    exact Stems.loop (fun _ _ _ drop => Stems.refDec drop) drops
  | accelRelease accel =>
    obtain ⟨dropped, release, pair⟩ := Option.map_eq_some_iff.mp done
    cases pair
    obtain ⟨a, -, release⟩ := Option.bind_eq_some_iff.mp release
    split at release
    · exact Stems.refDec release
    · exact Stems.refDec release
    · cases release
  | procRegister name => exact absurd trivial other
  | procGet name =>
    obtain ⟨⟨got, proc⟩, get, pair⟩ := Option.map_eq_some_iff.mp done
    cases pair
    exact (Stems.procGet get).1
  | dataInit size | dataInitAligned size align =>
    obtain ⟨⟨made, data⟩, init, pair⟩ := Option.map_eq_some_iff.mp done
    cases pair
    exact Stems.dataInit init
  | dataSet data accel =>
    obtain ⟨⟨last, task⟩, set, pair⟩ := Option.map_eq_some_iff.mp done
    cases pair
    exact Stems.dataSet set
  | dataSetRemote data accel remt =>
    obtain ⟨last, set, pair⟩ := Option.map_eq_some_iff.mp done
    cases pair
    exact Stems.dataSetRemote set
  | deviceMemory data phys remote =>
    obtain ⟨last, set, pair⟩ := Option.map_eq_some_iff.mp done
    cases pair
    obtain ⟨d, live, rfl⟩ := Option.map_eq_some_iff.mp set
    exact Stems.write (ObjectRepo.live_some live).1 ⟨rfl, rfl, rfl, fun same => same⟩
  | taskIssue accel proc hostSize io =>
    obtain ⟨⟨last, task⟩, issue, pair⟩ := Option.map_eq_some_iff.mp done
    cases pair
    exact Stems.issue (registered accel proc hostSize io rfl) issue

/-! ### The condition and the invariant -/

/-- The object is a procedure that is registered. -/
def ProcLive (r : ObjectRepo) (q : Nat) : Prop :=
  ∃ o, r.live q = some o ∧ o.type = .proc

/-- **The condition on a call.** A task is issued for a live procedure, the last reference to a
procedure is dropped when no task that is not destroyed has it as `proc`, and calls on other objects
get objects of their own type. -/
def ProcGuard (p : Pipe) : Call → Prop
  | .taskIssue _ proc _ _ => ProcLive p.repo proc
  | .refDec id | .refDecPreLocked id | .procPut id =>
    p.repo.typeOf id = some .proc → p.repo.refs id = 1 →
      ∀ task t, p.repo.live task = some t → t.type = .task → t.proc ≠ some id
  | call => ∀ id ∈ call.gives, p.repo.typeOf id ≠ some .proc

/-- Every submitted task that is not destroyed leads to live objects. -/
def QueuedLive (r : ObjectRepo) : Prop :=
  ∀ id t, r.live id = some t → t.type = .task → t.issued = true →
    (∃ v o, t.accel = some v ∧ r.live v = some o ∧ o.type = .virtAccel) ∧
    (∃ q, t.proc = some q ∧ ProcLive r q) ∧
    ∀ d ∈ t.io, ∃ o, r.live d = some o ∧ o.type = .data

/-- What holds of the tasks between two calls. -/
structure TasksOk (r : ObjectRepo) : Prop where
  whole : ∀ id o, r.objs id = some o → o.issued → o.proc.isSome ∧ o.accel.isSome
  procs : ∀ id o q, r.objs id = some o → o.type = .task → 0 < o.refCount → o.proc = some q →
    q ∈ r.list .proc

section Guarded

variable {sizes : Sizeofs} {r next : ObjectRepo} {outer outer' : Multiset Nat} {call : Call}
  {gets : List Nat} {handles : Multiset Nat} {q : Nat}

theorem Sound.procLive_iff (sound : Sound r outer) : ProcLive r q ↔ q ∈ r.list .proc := by
  rw [sound.listed_iff]
  constructor
  · rintro ⟨o, live, type⟩
    obtain ⟨here, referenced⟩ := sound.referenced live
    rw [ObjectRepo.typeOf_of_objs here, ObjectRepo.refs_of_objs here, type]
    exact ⟨rfl, referenced⟩
  · rintro ⟨type, referenced⟩
    obtain ⟨o, here, -, live⟩ := sound.ok.present referenced
    rw [ObjectRepo.typeOf_of_objs here] at type
    exact ⟨o, live, Option.some.inj type⟩

/-- No object holds a reference to a procedure. -/
theorem Sound.count_proc (sound : Sound r outer) (type : r.typeOf q = some .proc) :
    r.refs q = outer.count q :=
  sound.count_outside (by rw [type]; decide) (by rw [type]; decide)

/-- A procedure stays if the call does not give back all references to it. -/
theorem proc_kept (sound : Sound r (↑call.gives + outer))
    (done : perform sizes r call = some (next, gets)) (registered : q ∈ r.list .proc)
    (rest : call.gives.count q < r.refs q) : q ∈ next.list .proc := by
  have settles := perform_settles sound done
  obtain ⟨left, sound', -⟩ := sound.settled settles
  obtain ⟨-, -, extended, -⟩ := settles
  have type := ((sound.listed_iff .proc q).mp registered).1
  have before := sound.count_proc type
  have type' := extended.types q _ type
  have after := sound'.count_proc type'
  rw [Multiset.count_add, Multiset.coe_count] at before
  rw [Multiset.count_add, Multiset.count_add] at after
  exact (sound'.listed_iff .proc q).mpr ⟨type', by omega⟩

/-- The drop of a reference to a procedure changes no task. -/
theorem refDec_proc {id : Nat} {o' : AraxObject} (type : r.typeOf q = some .proc)
    (done : araxObjectRefDec sizes r q = some next) (here : next.objs id = some o')
    (task : o'.type = .task) : r.objs id = some o' := by
  obtain ⟨o, live, done⟩ := Option.bind_eq_some_iff.mp done
  have found := (ObjectRepo.live_some live).1
  have kind : o.type = .proc := by
    rw [ObjectRepo.typeOf_of_objs found] at type
    exact Option.some.inj type
  rw [kind] at done
  obtain ⟨p, there, -, outcome⟩ := refDecWith_some done
  rw [found] at there
  cases there
  have other : ∀ n destroyed, { o with refCount := n, destroyed := destroyed } ≠ o' := by
    rintro n destroyed rfl
    rw [kind] at task
    cases task
  rcases outcome with ⟨-, rfl⟩ | ⟨-, s, destroyed, freed⟩
  · rw [ObjectRepo.objs_set] at here
    split_ifs at here
    · exact absurd (Option.some.inj here) (other _ _)
    · exact here
  · cases destroyed
    rw [objs_reclaim freed] at here
    split_ifs at here with same
    · exact absurd (Option.some.inj here) (other _ _)
    · have unchanged := ObjectRepo.objs_set r q { o with refCount := 0 } id
      rw [if_neg same] at unchanged
      exact unchanged.symm.trans here

/-- A guarded call that gives back a reference to a procedure does nothing else. -/
theorem guarded_drop (guard : ProcGuard ⟨r, handles⟩ call)
    (done : perform sizes r call = some (next, gets)) (type : r.typeOf q = some .proc)
    (member : q ∈ call.gives) :
    call.gives = [q] ∧ araxObjectRefDec sizes r q = some next ∧
      (r.refs q = 1 → ∀ task t, r.live task = some t → t.type = .task → t.proc ≠ some q) := by
  cases call with
  | refDec id | refDecPreLocked id | procPut id =>
    cases List.mem_singleton.mp member
    obtain ⟨dropped, drop, pair⟩ := Option.map_eq_some_iff.mp done
    cases pair
    exact ⟨rfl, drop, guard type⟩
  | taskIssue accel proc hostSize io => cases member
  | _ => exact absurd type (guard q member)

/-- The registration of a procedure changes no task. -/
theorem TasksOk.register_proc {name : String} {size refCount id : Nat} (ok : TasksOk r)
    (done : araxObjectRegister r .proc name size refCount = some (next, id)) : TasksOk next := by
  have list : next.list .proc = r.next :: r.list .proc := by
    rw [(register_some done).2.2]
    show Function.update r.list .proc (r.next :: r.list .proc) .proc = _
    rw [Function.update_self]
  refine ⟨fun j o here issued => ?_, fun j o q here task alive proc => ?_⟩
  · rw [objs_register done] at here
    split_ifs at here
    · cases here
      cases issued
    · exact ok.whole j o here issued
  · rw [objs_register done] at here
    split_ifs at here
    · cases here
      cases task
    · rw [list]
      exact List.mem_cons_of_mem _ (ok.procs j o q here task alive proc)

/-- A guarded call that gives back the last reference to a procedure leaves no task that leads to
it. -/
theorem guarded_last {id : Nat} {o : AraxObject} (sound : Sound r outer')
    (guard : ProcGuard ⟨r, handles⟩ call) (done : perform sizes r call = some (next, gets))
    (type : r.typeOf q = some .proc) (referenced : 0 < r.refs q)
    (all : r.refs q ≤ call.gives.count q) (here : next.objs id = some o) (task : o.type = .task)
    (alive : 0 < o.refCount) : o.proc ≠ some q := by
  have member : q ∈ call.gives := List.count_pos_iff.mp (Nat.lt_of_lt_of_le referenced all)
  obtain ⟨gives, drop, unused⟩ := guarded_drop guard done type member
  have one : r.refs q = 1 := by
    rw [gives, List.count_singleton_self] at all
    exact Nat.le_antisymm all referenced
  have old := refDec_proc type drop here task
  obtain ⟨o', there, -, live⟩ := sound.ok.present ((ObjectRepo.refs_of_objs old).symm ▸ alive)
  rw [old] at there
  cases there
  exact unused one id o live task

/-- **A guarded call keeps the procedures of all tasks.** -/
theorem TasksOk.perform (ok : TasksOk r) (sound : Sound r (↑call.gives + outer))
    (guard : ProcGuard ⟨r, handles⟩ call) (done : perform sizes r call = some (next, gets)) :
    TasksOk next := by
  by_cases registers : call.registersProc
  · cases call with
    | register type name size refCount =>
      cases registers
      simp only [Core.perform] at done
      split_ifs at done
      obtain ⟨⟨made, id⟩, register, pair⟩ := Option.map_eq_some_iff.mp done
      cases pair
      exact ok.register_proc register
    | procRegister name =>
      obtain ⟨⟨made, proc⟩, register, pair⟩ := Option.map_eq_some_iff.mp done
      cases pair
      obtain ⟨-, rfl⟩ | ⟨-, register⟩ := araxProcRegister_cases register
      · exact ok
      · exact ok.register_proc register
    | _ => cases registers
  · have registered : ∀ accel proc hostSize io, call = .taskIssue accel proc hostSize io →
        proc ∈ r.list .proc := by
      rintro accel proc hostSize io rfl
      exact sound.procLive_iff.mp guard
    have stems := perform_stems registers registered done
    have extended : Extends r next := (perform_settles sound done).choose_spec.2.1
    refine ⟨fun id o here issued => ?_, fun id o q here task alive proc => ?_⟩
    · rcases stems.submits id o here issued with whole | ⟨p, there, issued', proc, accel⟩
      · exact whole
      · have old := ok.whole id p there issued'
        exact ⟨proc ▸ old.1, accel old.2⟩
    · have member : q ∈ r.list .proc := by
        rcases stems.source id o q here task proc with ⟨p, there, task', proc'⟩ | listed
        · refine ok.procs id p q there task' (Nat.pos_of_ne_zero fun zero => ?_) proc'
          rw [extended.ends id p there zero] at here
          cases here
          exact absurd zero (Nat.ne_of_gt alive)
        · exact listed
      obtain ⟨type, referenced⟩ := (sound.listed_iff .proc q).mp member
      by_cases rest : call.gives.count q < r.refs q
      · exact proc_kept sound done member rest
      · exact absurd proc (guarded_last sound guard done type referenced (Nat.le_of_not_lt rest)
          here task alive)

/-- What a submitted task holds a reference to is live. -/
theorem Sound.held_live {id x : Nat} {t : AraxObject} (sound : Sound r outer)
    (here : r.objs id = some t) (alive : 0 < t.refCount) (member : x ∈ holds t) :
    ∃ o, r.live x = some o ∧ r.typeOf x = some o.type := by
  have inside : x ∈ held r.next (ownOf r) := by
    rw [held, Multiset.mem_sum]
    refine ⟨id, Finset.mem_range.mpr (sound.ok.inside here), ?_⟩
    rw [ownOf_of_objs here alive]
    exact member
  have referenced : 0 < r.refs x := by
    rw [sound.ok.counts, Multiset.count_pos, Multiset.mem_add]
    exact .inr inside
  obtain ⟨o, there, -, live⟩ := sound.ok.present referenced
  exact ⟨o, live, ObjectRepo.typeOf_of_objs there⟩

/-- The accounting and the procedures of the tasks give the claim on every task. -/
theorem TasksOk.queued (ok : TasksOk r) (sound : Sound r outer) : QueuedLive r := by
  intro id t live task issued
  obtain ⟨here, alive⟩ := sound.referenced live
  obtain ⟨proc, accel⟩ := ok.whole id t here issued
  obtain ⟨q, proc⟩ := Option.isSome_iff_exists.mp proc
  obtain ⟨v, accel⟩ := Option.isSome_iff_exists.mp accel
  have typed := sound.ok.typed id t here
  have mine : holds t = ↑(t.io ++ [v]) := by
    unfold holds
    rw [task]
    simp [issued, accel]
  refine ⟨⟨v, ?_⟩, ⟨q, proc, ?_⟩, fun d member => ?_⟩
  · obtain ⟨o, there, type⟩ := sound.held_live here alive (x := v) (by simp [mine])
    rw [typed.accel v accel] at type
    exact ⟨o, accel, there, (Option.some.inj type).symm⟩
  · exact sound.procLive_iff.mpr (ok.procs id t q here task alive proc)
  · obtain ⟨o, there, type⟩ := sound.held_live here alive (x := d) (by simp [mine, member])
    rw [typed.io d member] at type
    exact ⟨o, there, (Option.some.inj type).symm⟩

end Guarded

/-- **What a queued task leads to is live.** In every run whose calls meet `ProcGuard`, every task
that was submitted and is not destroyed has a live virtual accelerator, a live procedure and live
data. -/
theorem queued_live (sizes : Sizeofs) (size : Nat) (calls : List Call) (p : Pipe)
    (guarded : Guarded (step sizes) ProcGuard (start size) calls)
    (run : exec (step sizes) (start size) calls = some p) : QueuedLive p.repo := by
  have keeps : ∀ p call q, Accounted p ∧ TasksOk p.repo → ProcGuard p call →
      step sizes p call = some q → Accounted q ∧ TasksOk q.repo := by
    rintro p call q ⟨accounted, ok⟩ guard move
    refine ⟨accounted.step move, ?_⟩
    obtain ⟨outer, sound, -⟩ := accounted
    unfold step at move
    split_ifs at move with owned
    obtain ⟨⟨repo, gets⟩, done, rfl⟩ := Option.map_eq_some_iff.mp move
    have split := add_tsub_cancel_of_le (sound.le_of_owned owned)
    exact ok.perform (split.symm ▸ sound) guard done
  have nothing : TasksOk (start size).repo :=
    ⟨fun _ _ impossible => (by cases impossible), fun _ _ _ impossible => (by cases impossible)⟩
  obtain ⟨⟨outer, sound, -⟩, ok⟩ := exec_guarded keeps ⟨accounted_start size, nothing⟩ guarded run
  exact ok.queued sound

/-- A condition that implies it and can be evaluated: nobody drops a last reference to a
procedure. -/
def keepsProcs (p : Pipe) : Call → Bool
  | .taskIssue _ proc _ _ => ((p.repo.live proc).map AraxObject.type) == some .proc
  | .refDec id | .refDecPreLocked id | .procPut id => p.repo.refs id != 1
  | call => call.gives.all fun id => p.repo.typeOf id != some .proc

theorem keepsProcs_guard {p : Pipe} {call : Call} (check : keepsProcs p call) :
    ProcGuard p call := by
  cases call with
  | taskIssue accel proc hostSize io =>
    obtain ⟨o, live, type⟩ := Option.map_eq_some_iff.mp (beq_iff_eq.mp check)
    exact ⟨o, live, type⟩
  | refDec id | refDecPreLocked id | procPut id =>
    intro _ one
    exact absurd one (bne_iff_ne.mp check)
  | _ =>
    intro id member
    exact bne_iff_ne.mp (List.all_eq_true.mp check id member)

/-- A client gives back one of two references to the procedure while its task is queued. -/
theorem queued_live_at_put :
    ∃ p, exec (step someSizes) (start 4096) [.procRegister "kernel", .procGet "kernel",
        .accelAcquireType .gpu, .dataInit 16, .taskIssue 1 0 0 [2], .procPut 0, .accelRelease 1,
        .dataFree 2] = some p ∧ p.repo.list .task = [3] ∧ QueuedLive p.repo := by
  have view : (exec (step someSizes) (start 4096) [.procRegister "kernel", .procGet "kernel",
      .accelAcquireType .gpu, .dataInit 16, .taskIssue 1 0 0 [2], .procPut 0, .accelRelease 1,
      .dataFree 2]).map (fun p => p.repo.list .task) = some [3] := by
    decide +kernel
  obtain ⟨p, run, tasks⟩ := Option.map_eq_some_iff.mp view
  refine ⟨p, run, tasks, queued_live someSizes 4096 _ p ?_ run⟩
  have checked : Guarded (step someSizes) (fun p call => keepsProcs p call) (start 4096)
      [.procRegister "kernel", .procGet "kernel", .accelAcquireType .gpu, .dataInit 16,
        .taskIssue 1 0 0 [2], .procPut 0, .accelRelease 1, .dataFree 2] := by
    decide +kernel
  exact checked.imp (fun _ => True) (fun _ _ _ check => keepsProcs_guard check)
    (fun _ _ _ _ _ _ => trivial) trivial

/-- **A queued task whose procedure is gone.** The client registers a procedure, issues a task and
puts the procedure. -/
theorem queued_dangling :
    ¬∀ (sizes : Sizeofs) (size : Nat) (calls : List Call) (p : Pipe),
      exec (step sizes) (start size) calls = some p → QueuedLive p.repo := by
  intro claimed
  have view : (exec (step someSizes) (start 4096) [.procRegister "kernel", .accelAcquireType .gpu,
      .taskIssue 1 0 0 [], .procPut 0]).map (fun p => ((p.repo.live 2).map fun t =>
        (t.type, t.issued, t.proc), p.repo.live 0)) = some (some (.task, true, some 0), none) := by
    decide +kernel
  obtain ⟨p, run, ends⟩ := Option.map_eq_some_iff.mp view
  obtain ⟨task, gone⟩ := Prod.mk.inj ends
  obtain ⟨t, live, fields⟩ := Option.map_eq_some_iff.mp task
  simp only [Prod.mk.injEq] at fields
  obtain ⟨type, issued, proc⟩ := fields
  obtain ⟨-, ⟨q, proc', o, alive, -⟩, -⟩ := claimed _ _ _ p run 2 t live type issued
  rw [proc] at proc'
  cases proc'
  rw [gone] at alive
  cases alive

end Arax.Core
