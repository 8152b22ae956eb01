/-
**References to the procedures of data operations (`src/core/arax_data.c`).**

`arax_data_set`, `arax_data_get`, `arax_data_allocate_remote` and the destructor of data look up the
procedure of the task that they issue with `arax_proc_get`, which takes a reference. The first two
give it back with `arax_proc_put` when the task is issued or done. The other two do not.

A run is any sequence of the calls of the pipe with `arax_data_get` and `arax_data_allocate_remote`
among them.

* `ProcsKept` — every procedure has as many references as before.
* `Sound.dataGet`, `Sound.allocateRemote`, `Sound.dataFree` — what the operations leave outside the
  repository.
* `data_ops_neutral_iff` — the data operations of a run keep the counts of all procedures exactly if
  none of them allocates device memory with a task and none is the last `arax_data_free` of data
  with device memory of its own.
-/

import Arax.Core.Conservation

namespace Arax.Core

open Arax.Lib

/-! ### Runs with data operations -/

/-- A call of the pipe, or one of those that wait for a task. -/
inductive DataOp where
  | call (call : Call)
  | dataGet (data : Nat)
  | dataAllocateRemote (data accel : Nat) (phys : Option Nat) (remote : Bool)

/-- One call. -/
def opStep (sizes : Sizeofs) (p : Pipe) : DataOp → Option Pipe
  | .call call => step sizes p call
  | .dataGet data => (araxDataGet sizes p.repo data).map fun repo => { p with repo := repo }
  | .dataAllocateRemote data accel phys remote =>
    (araxDataAllocateRemote sizes p.repo data accel phys remote).map fun repo =>
      { p with repo := repo }

/-- The data operations that look up a procedure; `arax_data_free` is called on data. -/
def DataOp.UsesProc (r : ObjectRepo) : DataOp → Prop
  | .call (.dataSet _ _) | .dataGet _ | .dataAllocateRemote _ _ _ _ => True
  | .call (.dataFree data) => r.typeOf data = some .data
  | .call _ => False

/-- Every procedure has as many references as before. -/
def ProcsKept (r next : ObjectRepo) : Prop :=
  ∀ proc, next.typeOf proc = some .proc → next.refs proc = r.refs proc

/-- If the operation is one that looks up a procedure and it returns, it keeps the references to all
procedures. -/
def DataOp.Neutral (sizes : Sizeofs) (p : Pipe) (op : DataOp) : Prop :=
  op.UsesProc p.repo → ∀ q, opStep sizes p op = some q → ProcsKept p.repo q.repo

/-- **The condition on a call.** `arax_data_allocate_remote` has nothing to allocate, and
`arax_data_free` does not destroy data with device memory of its own. -/
def DataOp.givesBack (r : ObjectRepo) : DataOp → Bool
  | .dataAllocateRemote data accel _ _ =>
    (r.live accel).any (fun v => v.accelType == .cpu) || (r.live data).any AraxObject.remote
  | .call (.dataFree data) => !(r.live data).any fun d => d.type == .data && decide d.freesRemote
  | _ => true

@[simp] theorem givesBack_allocateRemote (r : ObjectRepo) (data accel : Nat) (phys : Option Nat)
    (remote : Bool) : (DataOp.dataAllocateRemote data accel phys remote).givesBack r =
      ((r.live accel).any (fun v => v.accelType == .cpu) ||
        (r.live data).any AraxObject.remote) :=
  rfl

@[simp] theorem givesBack_dataFree (r : ObjectRepo) (data : Nat) :
    (DataOp.call (.dataFree data)).givesBack r =
      !(r.live data).any fun d => d.type == .data && decide d.freesRemote :=
  rfl

/-! ### What the operations leave outside -/

section Operations

variable {sizes : Sizeofs} {r next : ObjectRepo} {outer left : Multiset Nat} {data accel : Nat}

/-- The references to a procedure are all outside the repository, also before a call. -/
theorem Sound.refs_proc {proc : Nat} (sound : Sound r outer) (extended : Extends r next)
    (kind : next.typeOf proc = some .proc) : r.refs proc = outer.count proc := by
  have apart : ∀ type, type ≠ ObjectType.proc → r.typeOf proc ≠ some type := by
    intro type other same
    exact other (Option.some.inj ((extended.types proc type same).symm.trans kind))
  exact sound.count_outside (apart .virtAccel (by decide)) (apart .data (by decide))

/-- What the count of a procedure becomes. -/
theorem Sound.refs_proc_after {proc : Nat} (after : Sound next (left + outer))
    (kind : next.typeOf proc = some .proc) (before : r.refs proc = outer.count proc) :
    next.refs proc = r.refs proc + left.count proc := by
  rw [after.refs_proc (Extends.refl next) kind, before, Multiset.count_add, Nat.add_comm]

/-- An operation that leaves tasks only. -/
theorem Sound.procsKept (after : Sound next (left + outer))
    (before : ∀ proc, next.typeOf proc = some .proc → r.refs proc = outer.count proc)
    (tasks : ∀ j ∈ left, next.typeOf j = some .task) : ProcsKept r next := by
  intro proc kind
  rw [after.refs_proc_after kind (before proc kind), Multiset.count_eq_zero.mpr, Nat.add_zero]
  intro member
  cases kind.symm.trans (tasks proc member)

/-- An operation that leaves a procedure. -/
theorem Sound.not_procsKept {proc : Nat} (after : Sound next (left + outer))
    (before : ∀ proc, next.typeOf proc = some .proc → r.refs proc = outer.count proc)
    (member : proc ∈ left) (kind : next.typeOf proc = some .proc) : ¬ ProcsKept r next := by
  intro kept
  have counts := after.refs_proc_after kind (before proc kind)
  have more := Multiset.count_pos.mpr member
  have same := kept proc kind
  omega

/-- `arax_task_free` of a task that was issued for data, when it is done: the data has further
references. -/
theorem Sound.freeIssued {s s' : ObjectRepo} {proc hostSize task : Nat} (sound : Sound r outer)
    (issue : araxTaskIssue sizes r accel proc hostSize [data] = some (s, task))
    (sound' : Sound s' (task ::ₘ outer)) (same : s'.objs task = s.objs task)
    (refs : s'.refs data = s.refs data) (done : araxTaskFree sizes s' task = some next) :
    Sound next outer ∧ Extends s' next := by
  obtain ⟨-, -, issued⟩ := sound.issue issue
  obtain ⟨t, there, kind, -, io⟩ := issued.made
  obtain ⟨d, live, type⟩ := (issue_some issue).1 data List.mem_cons_self
  obtain ⟨here, alive⟩ := sound.referenced live
  rw [← ObjectRepo.refs_of_objs here] at alive
  have more := issued.refs data alive (type ▸ ObjectRepo.typeOf_of_objs here)
  rw [List.count_singleton_self, ← refs] at more
  rw [← same] at there
  have drop : refDecTask sizes s' task = some next := by
    obtain ⟨t', live, drop⟩ := Option.bind_eq_some_iff.mp done
    cases (ObjectRepo.live_some live).1.symm.trans there
    rwa [kind] at drop
  obtain ⟨kept, extended⟩ := refDecTask_shared sound'.ok there (sound'.submitted task)
    (fun j member => by
      rw [io] at member ⊢
      rw [List.mem_singleton.mp member, List.count_singleton_self]
      omega) drop
  exact ⟨sound'.onwards kept extended, extended⟩

/-- `arax_data_get` leaves nothing. -/
theorem Sound.dataGet (sound : Sound r outer) (done : araxDataGet sizes r data = some next) :
    Sound next outer ∧ Extends r next := by
  obtain ⟨⟨got, getProc⟩, get, done⟩ := Option.bind_eq_some_iff.mp done
  obtain ⟨d, -, done⟩ := Option.bind_eq_some_iff.mp done
  obtain ⟨accel, -, done⟩ := Option.bind_eq_some_iff.mp done
  obtain ⟨⟨issued, task⟩, issue, done⟩ := Option.bind_eq_some_iff.mp done
  obtain ⟨freed, free, put⟩ := Option.bind_eq_some_iff.mp done
  obtain ⟨kept, extended, proc⟩ := sound.ok.procGet get
  have sound' : Sound got (getProc ::ₘ outer) := sound.onwards kept extended
  obtain ⟨sound'', issuing, -⟩ := sound'.issue issue
  obtain ⟨sound'', freeing⟩ := sound'.freeIssued issue sound'' rfl rfl free
  have all := issuing.trans freeing
  obtain ⟨last, putting⟩ := sound''.procPut (all.types getProc _ proc) put
  exact ⟨last, (extended.trans all).trans putting⟩

/-- `arax_data_allocate_remote` leaves nothing if there is nothing to allocate, and the procedure of
its task otherwise. -/
theorem Sound.allocateRemote {phys : Option Nat} {remote : Bool} (sound : Sound r outer)
    (done : araxDataAllocateRemote sizes r data accel phys remote = some next) :
    if ((DataOp.dataAllocateRemote data accel phys remote).givesBack r) = true then next = r
    else ∃ proc, Sound next (proc ::ₘ outer) ∧ Extends r next ∧ next.typeOf proc = some .proc := by
  obtain ⟨v, live, done⟩ := Option.bind_eq_some_iff.mp done
  by_cases type : v.type ≠ .virtAccel
  · rw [if_pos type] at done
    cases done
  rw [if_neg type] at done
  by_cases cpu : v.accelType = .cpu
  · rw [if_pos cpu] at done
    cases done
    have returns : (DataOp.dataAllocateRemote data accel phys remote).givesBack r = true := by
      simp [live, cpu]
    rw [if_pos returns]
  rw [if_neg cpu] at done
  obtain ⟨d, live', done⟩ := Option.bind_eq_some_iff.mp done
  by_cases kind : d.type ≠ .data
  · rw [if_pos kind] at done
    cases done
  rw [if_neg kind] at done
  by_cases there : d.remote = true
  · have returns : (DataOp.dataAllocateRemote data accel phys remote).givesBack r = true := by
      simp [live', there]
    rw [if_pos there] at done
    split_ifs at done
    cases done
    rw [if_pos returns]
  rw [if_neg there] at done
  have allocates : (DataOp.dataAllocateRemote data accel phys remote).givesBack r ≠ true := by
    simp [live, live', cpu, there]
  rw [if_neg allocates]
  obtain ⟨⟨got, allocData⟩, get, done⟩ := Option.bind_eq_some_iff.mp done
  obtain ⟨⟨issued, task⟩, issue, done⟩ := Option.bind_eq_some_iff.mp done
  obtain ⟨executed, execute, done⟩ := Option.bind_eq_some_iff.mp done
  obtain ⟨freed, free, done⟩ := Option.bind_eq_some_iff.mp done
  obtain ⟨d', -, done⟩ := Option.bind_eq_some_iff.mp done
  split_ifs at done
  cases done
  obtain ⟨kept, extended, proc⟩ := sound.ok.procGet get
  have sound' : Sound got (allocData ::ₘ outer) := sound.onwards kept extended
  obtain ⟨sound'', issuing, made⟩ := sound'.issue issue
  obtain ⟨sound'', executing⟩ := sound''.deviceMemory execute
  -- who executes the task writes to the data only
  obtain ⟨x, there', rfl⟩ := Option.map_eq_some_iff.mp execute
  have there' := (ObjectRepo.live_some there').1
  have apart : task ≠ data := by
    obtain ⟨y, live'', type'⟩ := (issue_some issue).1 data List.mem_cons_self
    have typed := issuing.types data _ (type' ▸ ObjectRepo.typeOf_of_live live'')
    intro same
    rw [← same] at typed
    cases made.typeOf.symm.trans typed
  have refs : ∀ j, (issued.set data { x with phys := phys, remote := remote }).refs j =
      issued.refs j := refs_write there' rfl
  obtain ⟨last, freeing⟩ := sound'.freeIssued issue sound''
    ((ObjectRepo.objs_set issued data _ task).trans (if_neg apart)) (refs data) free
  have all := (issuing.trans executing).trans freeing
  exact ⟨allocData, last, extended.trans all, all.types allocData _ proc⟩

/-- `arax_data_free` leaves nothing, or the task that frees device memory and its procedure. -/
theorem Sound.dataFree (sound : Sound r (data ::ₘ outer)) (type : r.typeOf data = some .data)
    (done : araxDataFree sizes r data = some next) :
    ∃ left, Sound next (left + outer) ∧ Extends r next ∧
      if (DataOp.call (.dataFree data)).givesBack r = true then left = 0
      else FreeLeft next left := by
  obtain ⟨d, live, drop⟩ := Option.bind_eq_some_iff.mp done
  have kind : d.type = .data :=
    Option.some.inj ((ObjectRepo.typeOf_of_live live).symm.trans type)
  rw [kind] at drop
  obtain ⟨d', left, here, kept, extended, freed⟩ := refDecData_leaves sound.ok
    (fun _ impossible => absurd impossible List.not_mem_nil) drop
  cases (ObjectRepo.live_some live).1.symm.trans here
  refine ⟨left, sound.onwards kept extended, extended, ?_⟩
  have exact : (DataOp.call (.dataFree data)).givesBack r = true ↔ ¬ d.freesRemote := by
    simp [live, kind]
  simp only [exact, ite_not]
  exact freed

/-! ### Whole runs -/

variable {p q : Pipe} {op : DataOp}

/-- Every operation keeps the accounting of the pipe. -/
theorem Accounted.opStep (accounted : Accounted p) (move : opStep sizes p op = some q) :
    Accounted q := by
  have bare : ∀ s : ObjectRepo, (∀ outer, Sound p.repo outer → Settles p.repo s outer []) →
      Accounted ⟨s, p.handles⟩ := by
    intro s settles
    have after : Accounted ⟨s, p.handles - ↑([] : List Nat) + ↑([] : List Nat)⟩ :=
      accounted.after (fun _ impossible => absurd impossible List.not_mem_nil) fun outer sound => by
        rw [Multiset.coe_nil, zero_add] at sound ⊢
        exact settles outer sound
    simpa using after
  cases op with
  | call call => exact accounted.step move
  | dataGet data =>
    obtain ⟨s, done, rfl⟩ := Option.map_eq_some_iff.mp move
    refine bare s fun outer sound => ?_
    obtain ⟨kept, extended⟩ := sound.dataGet done
    exact settles_of_ok kept.ok extended
  | dataAllocateRemote data accel phys remote =>
    obtain ⟨s, done, rfl⟩ := Option.map_eq_some_iff.mp move
    refine bare s fun outer sound => ?_
    have leaves := sound.allocateRemote done
    split_ifs at leaves
    · rw [leaves]
      exact settles_of_ok sound.ok (Extends.refl p.repo)
    · obtain ⟨proc, kept, extended, kind⟩ := leaves
      refine ⟨{proc}, by rw [Multiset.singleton_add]; exact kept.ok, extended, fun j member => ?_⟩
      exact .inr (Multiset.mem_singleton.mp member ▸ kind)

/-- **Exactness.** An operation that returns is neutral exactly if it gives back what it got. -/
theorem DataOp.neutral_iff (accounted : Accounted p) (move : Core.opStep sizes p op = some q) :
    op.Neutral sizes p ↔ op.givesBack p.repo = true := by
  obtain ⟨outer, sound, -⟩ := accounted
  have after : op.Neutral sizes p ↔ (op.UsesProc p.repo → ProcsKept p.repo q.repo) := by
    constructor
    · exact fun neutral uses => neutral uses q move
    · intro kept uses q' move'
      cases Option.some.inj (move.symm.trans move')
      exact kept uses
  rw [after]
  cases op with
  | call call =>
    cases call with
    | dataSet data accel =>
      refine ⟨fun _ => rfl, fun _ _ => ?_⟩
      obtain ⟨-, s, gets, done, rfl⟩ := step_some move
      obtain ⟨⟨s, task⟩, set, pair⟩ := Option.map_eq_some_iff.mp done
      cases pair
      obtain ⟨kept, extended, kind⟩ := sound.dataSet set
      rw [← Multiset.singleton_add] at kept
      exact kept.procsKept (fun proc => sound.refs_proc extended)
        fun j member => Multiset.mem_singleton.mp member ▸ kind
    | dataFree data =>
      by_cases type : p.repo.typeOf data = some .data
      · obtain ⟨owned, s, gets, done, rfl⟩ := step_some move
        obtain ⟨s, free, pair⟩ := Option.map_eq_some_iff.mp done
        cases pair
        have inside := add_tsub_cancel_of_le (sound.le_of_owned owned)
        rw [← inside] at sound
        obtain ⟨left, kept, extended, leaves⟩ := Sound.dataFree sound type free
        have before : ∀ proc, s.typeOf proc = some .proc →
            p.repo.refs proc = (outer - {data}).count proc := by
          intro proc kind
          rw [sound.refs_proc extended kind, Multiset.count_add]
          refine (congrArg (· + _) (Multiset.count_eq_zero.mpr fun member => ?_)).trans
            (Nat.zero_add _)
          have same := Multiset.mem_singleton.mp member
          rw [← same] at type
          cases kind.symm.trans (extended.types proc _ type)
        split_ifs at leaves with returns
        · refine ⟨fun _ => returns, fun _ _ => kept.procsKept before fun j member => ?_⟩
          rw [leaves] at member
          exact absurd member (Multiset.notMem_zero j)
        · obtain ⟨task, proc, rfl, -, kind⟩ := leaves
          have grows := kept.not_procsKept before
            (Multiset.mem_cons_of_mem (Multiset.mem_singleton_self proc)) kind
          exact ⟨fun keeps => absurd (keeps type) grows, fun does => absurd does returns⟩
      · have returns : (DataOp.call (.dataFree data)).givesBack p.repo = true := by
          cases live : p.repo.live data with
          | none => simp [live]
          | some d =>
            have other : d.type ≠ .data := fun same =>
              type (same ▸ ObjectRepo.typeOf_of_live live)
            simp [live, other]
        exact ⟨fun _ => returns, fun _ uses => absurd uses type⟩
    | _ => exact ⟨fun _ => rfl, fun _ uses => uses.elim⟩
  | dataGet data =>
    refine ⟨fun _ => rfl, fun _ _ => ?_⟩
    obtain ⟨s, done, rfl⟩ := Option.map_eq_some_iff.mp move
    obtain ⟨kept, extended⟩ := sound.dataGet done
    rw [← zero_add outer] at kept
    exact kept.procsKept (fun proc => sound.refs_proc extended)
      fun _ impossible => absurd impossible (Multiset.notMem_zero _)
  | dataAllocateRemote data accel phys remote =>
    obtain ⟨s, done, rfl⟩ := Option.map_eq_some_iff.mp move
    have leaves := sound.allocateRemote done
    split_ifs at leaves with returns
    · exact ⟨fun _ => returns, fun _ _ => leaves ▸ fun _ _ => rfl⟩
    · obtain ⟨proc, kept, extended, kind⟩ := leaves
      rw [← Multiset.singleton_add] at kept
      have grows := kept.not_procsKept (fun proc => sound.refs_proc extended)
        (Multiset.mem_singleton_self proc) kind
      exact ⟨fun keeps => absurd (keeps trivial) grows, fun does => absurd does returns⟩

/-- **Procedures and data operations.** In a run of the pipe, every data operation that returns
leaves the counts of all procedures as they were, exactly if every one of the run gives back what it
got: no `arax_data_allocate_remote` issues its task, and no `arax_data_free` is the last one of data
with device memory of its own. -/
theorem data_ops_neutral_iff (sizes : Sizeofs) (size : Nat) (ops : List DataOp) (p : Pipe)
    (run : exec (opStep sizes) (start size) ops = some p) :
    Guarded (opStep sizes) (fun s op => op.Neutral sizes s) (start size) ops ↔
      Guarded (opStep sizes) (fun s op => op.givesBack s.repo = true) (start size) ops :=
  guarded_congr Accounted (fun _ _ _ accounted move => accounted.opStep move)
    (fun _ _ _ accounted move => DataOp.neutral_iff accounted move) (accounted_start size) run

/-- Data is set and read back, then its worker allocates device memory, and all references but that
of the caller are dropped. -/
def tidyOps : List DataOp :=
  [.call (.accelInit "GPU" .gpu 1000 1000), .call (.procRegister "free"),
    .call (.procRegister "arax_data_set"), .call (.procRegister "arax_data_get"),
    .call (.procRegister "alloc_data"), .call (.accelAcquirePhys 0), .call (.dataInit 16),
    .call (.dataSet 7 6), .dataGet 7, .call (.taskFree 8), .call (.deviceMemory 7 (some 0) true),
    .dataAllocateRemote 7 6 none false]

/-- New data gets its device memory from `arax_data_allocate_remote` and is freed. -/
def leakingOps : List DataOp :=
  tidyOps ++ [.call (.dataInit 16), .dataAllocateRemote 10 6 (some 0) true, .call (.dataFree 10)]

theorem data_ops_neutral_when_tidy : ∃ p,
    exec (opStep someSizes) (start 4096) tidyOps = some p ∧
      Guarded (opStep someSizes) (fun s op => op.Neutral someSizes s) (start 4096) tidyOps := by
  have returns : (exec (opStep someSizes) (start 4096) tidyOps).isSome = true := by
    decide +kernel
  obtain ⟨p, run⟩ := Option.isSome_iff_exists.mp returns
  exact ⟨p, run, (data_ops_neutral_iff someSizes 4096 tidyOps p run).mpr (by decide +kernel)⟩

/-- Both operations on the new data return, and `free` and `alloc_data` have a reference more than
those that the callers got. -/
theorem data_ops_not_neutral : ∃ p,
    exec (opStep someSizes) (start 4096) leakingOps = some p ∧
      p.repo.refs 2 = p.handles.count 2 + 1 ∧ p.repo.refs 5 = p.handles.count 5 + 1 ∧
      ¬ Guarded (opStep someSizes) (fun s op => op.Neutral someSizes s) (start 4096)
        leakingOps := by
  have returns : (exec (opStep someSizes) (start 4096) leakingOps).any (fun p =>
      p.repo.refs 2 == p.handles.count 2 + 1 && p.repo.refs 5 == p.handles.count 5 + 1) = true := by
    decide +kernel
  obtain ⟨p, run, counts⟩ := (Option.any_eq_true _ _).mp returns
  simp only [Bool.and_eq_true, beq_iff_eq] at counts
  refine ⟨p, run, counts.1, counts.2, fun neutral => ?_⟩
  have back : Guarded (opStep someSizes) (fun s op => op.givesBack s.repo = true) (start 4096)
      leakingOps :=
    (guarded_congr Accounted (fun _ _ _ accounted move => accounted.opStep move)
      (fun _ _ _ accounted move => DataOp.neutral_iff accounted move) (accounted_start 4096)
      run).mp neutral
  revert back
  decide +kernel

end Operations

end Arax.Core
