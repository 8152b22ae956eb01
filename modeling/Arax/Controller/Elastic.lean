/-
**The elastic scheduler and its workers (`controller/src/Schedulers/ElasticScheduler.cpp`,
`controller/src/Core/accelThread.cpp`).**

When a VAQ is to be assigned to an accelerator that already has some, the scheduler moves one of
those to the next accelerator. It picks the one to move from the snapshot of the worker, and the
worker takes a new snapshot only when it is woken up for a task. So a VAQ can be in a snapshot
after it was moved away, and then it is picked again.

* `ElasticState`, `elasticStep` — the balancer, the workers and the clients. What a task does to the
  contents of its buffers is left out.
* `SnapshotFresh` — the condition: no VAQ of the snapshot has been moved away.
* `ElasticInv` — only the VAQ that would be picked can have been moved away.
* `elastic_del_iff` — the assertion in `arax_accel_del_vaccel` holds in all calls of a run exactly
  if all of them meet the condition.
* `elastic_del_fails` — a run in which an idle worker keeps an old snapshot.
-/

import Arax.Controller.AssignVac
import Arax.Controller.Migration

namespace Arax.Controller

open Arax.Lib Arax.Core Arax.Core.Ownership

/-- `arax_task_msg_s`. -/
structure ElasticTask where
  ins : List Nat
  outs : List Nat
  deriving DecidableEq

/-- `task->io`. -/
def ElasticTask.io (task : ElasticTask) : List Nat := task.ins ++ task.outs

/-- Where the worker of an accelerator is. -/
inductive WorkerPlace where
  /-- At `updateVirtAccels`. -/
  | update
  /-- At `selectTask`. -/
  | select
  /-- After `selectTask`, with the task it returned. -/
  | execute (task : ElasticTask)
  deriving DecidableEq

/-- The controller and the clients. The assignment of the VAQs is in `sched`. -/
structure ElasticState where
  sched : SchedState ElasticTask
  devices : Devices Unit
  rrCounter : Nat → Nat
  workers : Nat → WorkerPlace

namespace ElasticState

/-- The devices, as the threads see them. -/
def seen (s : ElasticState) : Devices Unit := { s.devices with vaqPhys := s.sched.assignment.phys }

/-- The worker of `accel` goes on. -/
def goto (s : ElasticState) (accel : Nat) (place : WorkerPlace) : ElasticState :=
  { s with workers := Function.update s.workers accel place }

end ElasticState

/-! ### The steps -/

/-- `arax_data_migrate_accel`. -/
def migrateAccel (devices : Devices Unit) (vac d : Nat) : Option (Devices Unit) :=
  match (devices.data d).accel with
  | none =>
    if (devices.data d).remote.isSome then none
    else some (devices.setData d { devices.data d with accel := some vac })
  | some old =>
    if old = vac then some devices
    else if devices.vaqPhys old = devices.vaqPhys vac then
      some (devices.setData d { devices.data d with accel := some vac })
    else none

/-- `arax_task_issue`. -/
def taskIssue (s : ElasticState) (vac : Nat) (task : ElasticTask) : Option ElasticState :=
  (task.io.foldlM (fun devices d => migrateAccel devices vac d) s.seen).map fun devices =>
    { s with devices := devices, sched := s.sched.submit vac task }

/-- The first VAQ of the snapshot in round robin order that has a task, and its position. -/
def nextVaq (s : ElasticState) (accel : Nat) : Option (Nat × Nat) :=
  (rrOrder (s.sched.assignedVACs accel) (s.rrCounter accel)).find? fun (vac, _) =>
    (s.sched.queue vac).length ≠ 0

/-- `ElasticScheduler::selectTask`: the task is migrated if its VAQ is the one that the scheduler
remembers. -/
def selectTask (s : ElasticState) (accel : Nat) : Option ElasticState :=
  match nextVaq s accel with
  | none => some (s.goto accel .update)
  | some (vac, position) =>
    match s.sched.queue vac with
    | [] => none
    | task :: rest =>
      let devices := if vac = s.sched.vaq4migration then migrate accel s.seen task.io
        else .ok s.seen
      devices.toOption.map fun devices =>
        { s.goto accel (.execute task) with
          devices := devices
          sched := { s.sched with queue := Function.update s.sched.queue vac rest }
          rrCounter := Function.update s.rrCounter accel position }

/-- A builtin allocates one of the buffers of its task. -/
def functorAlloc (accel : Nat) (s : Devices Unit) (d : Nat) : Except DeviceFault (Devices Unit) :=
  match s.kind accel with
  | .gpu => s.allocRemote accel d
  | .cpu => do
    let phys ← s.accelPhys d
    return s.setData d { s.data d with phys := some phys }

/-- The rest of the loop in `workFunc`: `alloc_remote` for the outputs, and then the functor, which
allocates the buffers `more`. -/
def executeTask (s : ElasticState) (accel : Nat) (task : ElasticTask) (more : List Nat) :
    Except DeviceFault (Devices Unit) := do
  let devices ← task.outs.foldlM (Devices.allocRemote accel) s.seen
  more.foldlM (functorAlloc accel) devices

/-- Who does something. -/
inductive ElasticMove where
  /-- A client makes a VAQ. -/
  | orphan (vac : Nat)
  | taskIssue (vac : Nat) (task : ElasticTask)
  /-- The balancer takes an orphan and calls `assignVac`. -/
  | assign
  /-- `arax_accel_wait_for_task` returns in `updateVirtAccels`. -/
  | update (accel : Nat)
  | selectTask (accel : Nat)
  /-- The task is executed. Its functor allocates some of its buffers. -/
  | execute (accel : Nat) (more : List Nat)

/-- One step. -/
def elasticStep (c : Config ElasticTask) (s : ElasticState) : ElasticMove → Option ElasticState
  | .orphan vac => (schedStep .elastic c s.sched (.orphan vac)).map fun sched =>
      { s with sched := sched }
  | .taskIssue vac task => taskIssue s vac task
  | .assign => (schedStep .elastic c s.sched .assign).map fun sched => { s with sched := sched }
  | .update accel =>
    if s.workers accel = .update then
      (s.sched.updateVirtAccels accel).map fun sched =>
        { s.goto accel .select with sched := sched }
    else none
  | .selectTask accel => if s.workers accel = .select then selectTask s accel else none
  | .execute accel more =>
    match s.workers accel with
    | .execute task =>
      if ∀ d ∈ more, d ∈ task.io then
        (executeTask s accel task more).toOption.map fun devices =>
          { s.goto accel .update with devices := devices }
      else none
    | _ => none

/-- After the accelerators are made. The data is that of clients that have not used it yet, and
nobody has written to `vaq4migration`. -/
def elasticStart (c : Config ElasticTask) (devices : Devices Unit) (vaq4migration : Nat) :
    ElasticState where
  sched := schedStart c vaq4migration
  devices := devices
  rrCounter := fun _ => 0
  workers := fun _ => .update

/-! ### The condition -/

/-- There are accelerators, all of one type, and no VAQ is for another one. -/
structure OneType (c : Config ElasticTask) (type : AccelType) : Prop where
  nonempty : c.accelerators ≠ []
  accels : ∀ p ∈ c.accelerators, c.type p = type
  vaqs : ∀ v, c.vaqType v = type ∨ c.vaqType v = .any

/-- The assertion in `arax_accel_del_vaccel` holds, if `assignVac` comes to it. -/
def DelGood (c : Config ElasticTask) (s : ElasticState) : ElasticMove → Prop
  | .assign => ∀ vac, s.sched.assignment.getOrphan.1 = some vac →
      elasticAssignVac c s.sched.getOrphan vac ≠ .error .notAssigned
  | _ => True

/-- Every VAQ in the snapshot of the worker at the position is still assigned to its accelerator. -/
def SnapshotFresh (c : Config ElasticTask) (s : ElasticState) : ElasticMove → Prop
  | .assign => ∀ vac accel, s.sched.assignment.getOrphan.1 = some vac →
      (c.getAccelerators (c.vaqType vac))[wrap s.sched.position
        (c.getAccelerators (c.vaqType vac))]? = some accel →
      ∀ v ∈ s.sched.assignedVACs accel, s.sched.assignment.phys v = some accel
  | _ => True

/-- Of the VAQs in a snapshot only the one that the scheduler picks can have been moved away. -/
structure ElasticInv (c : Config ElasticTask) (s : SchedState ElasticTask) : Prop where
  shaped : Shaped s.assignment
  inside : s.position ≤ c.accelerators.length
  moved : ∀ i p q, c.accelerators[i]? = some p →
    c.accelerators[wrap (i + 1) c.accelerators]? = some q →
    ∀ v ∈ s.assignedVACs p, s.assignment.phys v = some p ∨ migrating c s p q = some v

section Condition

variable {c : Config ElasticTask} {type : AccelType} {s t : ElasticState} {move : ElasticMove}

theorem OneType.vector (one : OneType c type) (vac : Nat) :
    c.getAccelerators (c.vaqType vac) = c.accelerators := by
  unfold Config.getAccelerators
  refine List.filter_eq_self.mpr fun p member => ?_
  rw [one.accels p member]
  obtain same | any := one.vaqs vac
  · rw [same]
    simp
  · rw [any]
    simp

/-- Whether the assertion holds is a matter of the VAQ that is picked. -/
theorem elasticAssignVac_asserts {sched : SchedState ElasticTask} {vac accel other : Nat}
    (here : (c.getAccelerators (c.vaqType vac))[wrap sched.position
      (c.getAccelerators (c.vaqType vac))]? = some accel)
    (next : (c.getAccelerators (c.vaqType vac))[wrap
      (wrap sched.position (c.getAccelerators (c.vaqType vac)) + 1)
      (c.getAccelerators (c.vaqType vac))]? = some other) :
    elasticAssignVac c sched vac ≠ .error .notAssigned ↔
      ∀ mig, migrating c sched accel other = some mig →
        sched.assignment.phys mig = some accel := by
  unfold elasticAssignVac
  simp only [here, next]
  cases found : migrating c sched accel other with
  | none =>
    refine iff_of_true ?_ nofun
    have stays : elasticMove c sched accel other = .ok sched := by
      unfold elasticMove
      rw [found]
    split_ifs
    · rw [stays]
      exact add_position_ne nofun
    · exact add_position_ne nofun
  | some mig =>
    have some_ : (sched.assignedVACs accel).length ≠ 0 :=
      Nat.ne_of_gt (List.length_pos_of_mem (List.mem_of_find?_eq_some found))
    rw [if_pos some_]
    constructor
    · intro asserts picked same
      cases same
      by_contra away
      refine asserts ?_
      unfold elasticMove SchedState.delVaccel Assignment.delVaccel
      simp only [found, if_neg away]
      rfl
    · intro mine
      obtain ⟨r, del⟩ := delVaccel_mine (s := { sched with vaq4migration := mig }) (mine mig rfl)
      refine bind_ne_error ?_ fun _ _ => add_position_ne nofun
      unfold elasticMove
      simp only [found, del]
      exact addVaccel_ne nofun

/-- The accelerator at the position, and the next one. -/
theorem OneType.next (one : OneType c type) {i : Nat} (inside : i ≤ c.accelerators.length) :
    ∃ accel other, c.accelerators[wrap i c.accelerators]? = some accel ∧
      c.accelerators[wrap (wrap i c.accelerators + 1) c.accelerators]? = some other := by
  have here := wrap_lt inside one.nonempty
  have next := wrap_lt (Nat.succ_le_of_lt here) one.nonempty
  exact ⟨_, _, List.getElem?_eq_getElem here, List.getElem?_eq_getElem next⟩

/-- **One call.** The assertion holds exactly if the snapshot is fresh. -/
theorem del_good_iff (one : OneType c type) (inv : ElasticInv c s.sched) :
    DelGood c s move ↔ SnapshotFresh c s move := by
  cases move with
  | assign =>
    obtain ⟨accel, other, here, next⟩ := one.next inv.inside
    have exact_ : ∀ vac, elasticAssignVac c s.sched.getOrphan vac ≠ .error .notAssigned ↔
        ∀ mig, migrating c s.sched accel other = some mig →
          s.sched.assignment.phys mig = some accel := by
      intro vac
      refine elasticAssignVac_asserts ?_ ?_
      · rw [one.vector]
        exact here
      · rw [one.vector]
        exact next
    constructor
    · intro good vac accel' orphan here' v member
      rw [one.vector] at here'
      cases here.symm.trans here'
      obtain mine | picked := inv.moved _ accel other here next v member
      · exact mine
      · exact (exact_ vac).mp (good vac orphan) v picked
    · intro fresh vac orphan
      refine (exact_ vac).mpr fun mig picked => ?_
      refine fresh vac accel orphan ?_ mig (List.mem_of_find?_eq_some picked)
      rw [one.vector]
      exact here
  | _ => exact Iff.rfl

/-- A step that does not touch the assignment or the snapshots. -/
theorem ElasticInv.frame {r u : SchedState ElasticTask} (inv : ElasticInv c r)
    (assignment : u.assignment = r.assignment) (position : u.position = r.position)
    (snapshots : u.assignedVACs = r.assignedVACs) : ElasticInv c u := by
  refine ⟨assignment ▸ inv.shaped, position ▸ inv.inside, fun i p q here next v member => ?_⟩
  unfold migrating
  rw [assignment, snapshots]
  exact inv.moved i p q here next v (snapshots ▸ member)

/-- `assignVac` moves only what it picks. -/
theorem ElasticInv.assign {r u : SchedState ElasticTask} {vac : Nat} (one : OneType c type)
    (inv : ElasticInv c r) (orphan : r.assignment.getOrphan.1 = some vac)
    (run : assignVac .elastic c r.getOrphan vac = .ok u) : ElasticInv c u := by
  obtain ⟨same, inside, a, accel, -, add, moved⟩ := assignVac_cases run
  have snapshots : u.assignedVACs = r.assignedVACs := by
    rw [same]
    rfl
  have free : r.assignment.phys vac = none := inv.shaped.taken orphan
  have shaped : Shaped r.getOrphan.assignment := inv.shaped.getOrphan
  rw [one.vector] at inside
  have rest : ∀ i p q, c.accelerators[i]? = some p →
      c.accelerators[wrap (i + 1) c.accelerators]? = some q → ∀ v ∈ r.assignedVACs p,
        u.assignment.phys v = some p ∨ migrating c r p q = some v := by
    intro i p q here next v member
    obtain mine | picked := inv.moved i p q here next v member
    · obtain ⟨rfl, -⟩ | ⟨-, other, b, moves, del, add'⟩ := moved
      · exact .inl (addVaccel_phys_kept add mine)
      · by_cases same' : v = u.vaq4migration
        · -- the VAQ that was picked was at the position, which is that of no other accelerator
          right
          have accel_eq : p = accel := by
            have mine' : r.assignment.phys u.vaq4migration = some accel := moves.mine
            rw [← same', mine] at mine'
            exact Option.some.inj mine'
          have at_ := moves.here
          have next' := moves.next
          rw [one.vector] at at_ next'
          rw [← accel_eq] at at_
          have position : i = wrap r.getOrphan.position c.accelerators :=
            (List.getElem?_inj (List.getElem?_eq_some_iff.mp here).1 c.nodup).mp
              (here.trans at_.symm)
          rw [← position, next] at next'
          rw [same', accel_eq, Option.some.inj next']
          exact moves.found
        · left
          refine addVaccel_phys_kept add ?_
          rw [addVaccel_phys_other add' same', delVaccel_phys_other del same']
          exact mine
    · exact .inr picked
  refine ⟨?_, inside, fun i p q here next v member => ?_⟩
  · obtain ⟨rfl, -⟩ | ⟨-, other, b, -, del, add'⟩ := moved
    · exact shaped.addVaccel add
    · exact ((shaped.delVaccel del).addVaccel add').addVaccel add
  · unfold migrating
    rw [snapshots] at member ⊢
    exact rest i p q here next v member

/-- Taking a task leaves the VAQs where they are. -/
theorem selectTask_sched {accel : Nat} (step : selectTask s accel = some t) :
    t.sched = { s.sched with queue := t.sched.queue } := by
  unfold selectTask at step
  split at step
  · cases step
    rfl
  · split at step
    · cases step
    · obtain ⟨devices, -, rfl⟩ := Option.map_eq_some_iff.mp step
      rfl

theorem taskIssue_sched {vac : Nat} {task : ElasticTask} (step : taskIssue s vac task = some t) :
    t.sched = s.sched.submit vac task := by
  obtain ⟨devices, -, rfl⟩ := Option.map_eq_some_iff.mp step
  rfl

theorem elasticStep_inv (one : OneType c type) (inv : ElasticInv c s.sched)
    (step : elasticStep c s move = some t) : ElasticInv c t.sched := by
  cases move with
  | orphan vac =>
    obtain ⟨sched, inner, rfl⟩ := Option.map_eq_some_iff.mp step
    simp only [schedStep] at inner
    split_ifs at inner with new
    obtain ⟨a, orphan, rfl⟩ := Option.map_eq_some_iff.mp inner
    obtain ⟨-, phys, -⟩ := addOrphan_cases orphan
    refine ⟨inv.shaped.addOrphan new orphan, inv.inside, fun i p q here next v member => ?_⟩
    show a.phys v = some p ∨ _
    rw [phys]
    exact inv.moved i p q here next v member
  | taskIssue vac task =>
    rw [taskIssue_sched step]
    exact inv.frame rfl rfl rfl
  | assign =>
    obtain ⟨sched, inner, rfl⟩ := Option.map_eq_some_iff.mp step
    obtain ⟨vac, orphan, run⟩ := Option.bind_eq_some_iff.mp inner
    exact inv.assign one orphan (toOption_eq_some.mp run)
  | update accel =>
    simp only [elasticStep] at step
    split_ifs at step
    obtain ⟨sched, inner, rfl⟩ := Option.map_eq_some_iff.mp step
    unfold SchedState.updateVirtAccels at inner
    split_ifs at inner
    cases inner
    refine ⟨inv.shaped, inv.inside, fun i p q here next v member => ?_⟩
    unfold migrating
    change v ∈ Function.update s.sched.assignedVACs accel _ p at member
    show _ ∨ (Function.update s.sched.assignedVACs accel _ p).find? _ = some v
    by_cases same : p = accel
    · subst same
      rw [Function.update_self] at member
      exact .inl ((inv.shaped.assigned.phys p v).mp member)
    · rw [Function.update_of_ne same] at member ⊢
      exact inv.moved i p q here next v member
  | selectTask accel =>
    simp only [elasticStep] at step
    split_ifs at step
    rw [selectTask_sched step]
    exact inv.frame rfl rfl rfl
  | execute accel more =>
    simp only [elasticStep] at step
    split at step
    · split_ifs at step
      obtain ⟨devices, -, rfl⟩ := Option.map_eq_some_iff.mp step
      exact inv
    · cases step

theorem elasticStart_inv (devices : Devices Unit) (m : Nat) :
    ElasticInv c (elasticStart c devices m).sched :=
  ⟨(schedStart_ok c m).shaped, Nat.zero_le _, fun _ _ _ _ _ _ => nofun⟩

/-- **The elastic scheduler and the ownership of VAQs.** In a run the assertion holds in all calls
exactly if each of them finds a fresh snapshot. -/
theorem elastic_del_iff (one : OneType c type) (devices : Devices Unit) (vaq4migration : Nat)
    (moves : List ElasticMove) :
    Guarded (elasticStep c) (DelGood c) (elasticStart c devices vaq4migration) moves ↔
      Guarded (elasticStep c) (SnapshotFresh c) (elasticStart c devices vaq4migration) moves := by
  have start := elasticStart_inv (c := c) devices vaq4migration
  have keeps : ∀ s act t, ElasticInv c s.sched → elasticStep c s act = some t →
      ElasticInv c t.sched := fun s act t inv step => elasticStep_inv one inv step
  constructor
  · exact Guarded.imp (fun s => ElasticInv c s.sched)
      (fun s act inv good => (del_good_iff one inv).mp good)
      (fun s act t inv _ step => keeps s act t inv step) start
  · exact Guarded.imp (fun s => ElasticInv c s.sched)
      (fun s act inv fresh => (del_good_iff one inv).mpr fresh)
      (fun s act t inv _ step => keeps s act t inv step) start

/-- Two GPUs, with the free VAQs `0` and `1`. -/
def twoGpus : Config ElasticTask where
  accelerators := [0, 1]
  type := fun _ => .gpu
  vaqType := fun _ => .gpu
  freeVaq := fun p => p
  canRunAt := fun _ _ => true
  nodup := by decide
  freeVaq_type := fun _ _ => rfl
  freeVaq_injective := fun _ _ _ _ same => same

theorem twoGpus_type : OneType twoGpus .gpu := ⟨nofun, fun _ _ => rfl, fun _ => .inl rfl⟩

/-- Their memory, and data that has not been used. -/
def gpuMemory : Devices Unit where
  kind := fun _ => .gpu
  throttle := fun _ => { available := 100, capacity := 100 }
  vaqPhys := fun _ => none
  data := fun _ =>
    { size := 4
      refCount := 1
      accel := none
      phys := none
      remote := none
      othrRemt := false
      buffer := () }
  memory := Heap.empty
  garbage := ()
  charges := fun _ => 0

theorem elastic_del_iff_at_twoGpus :
    Guarded (elasticStep twoGpus) (DelGood twoGpus) (elasticStart twoGpus gpuMemory 0)
      [.orphan 10, .taskIssue 10 { ins := [], outs := [0] }, .assign, .update 0, .selectTask 0,
        .execute 0 [], .orphan 11, .assign, .orphan 12, .assign] := by
  have fresh : Guarded (elasticStep twoGpus)
      (fun s _ => ∀ accel ∈ [0, 1][wrap s.sched.position [0, 1]]?,
        ∀ v ∈ s.sched.assignedVACs accel, s.sched.assignment.phys v = some accel)
      (elasticStart twoGpus gpuMemory 0)
      [.orphan 10, .taskIssue 10 { ins := [], outs := [0] }, .assign, .update 0, .selectTask 0,
        .execute 0 [], .orphan 11, .assign, .orphan 12, .assign] := by decide
  refine (elastic_del_iff twoGpus_type gpuMemory 0 _).mpr
    (Guarded.imp (fun _ => True) (fun s act _ fresh => ?_) (fun _ _ _ _ _ _ => trivial) trivial
      fresh)
  cases act with
  | assign =>
    intro vac accel _ here
    rw [twoGpus_type.vector] at here
    exact fresh accel here
  | _ => trivial

/-- **The same VAQ twice.** The worker of the first GPU executes the task of VAQ `10` and is not
woken up again. The VAQ is moved to the second GPU when `12` comes, and picked again when `14`
comes. -/
theorem elastic_del_fails :
    ∃ s, exec (elasticStep twoGpus) (elasticStart twoGpus gpuMemory 0)
        [.orphan 10, .taskIssue 10 { ins := [], outs := [0] }, .assign, .update 0, .selectTask 0,
          .execute 0 [], .orphan 11, .assign, .orphan 12, .assign, .orphan 13, .assign,
          .orphan 14] = some s ∧
      s.sched.assignment.getOrphan.1 = some 14 ∧ s.sched.assignment.phys 10 = some 1 ∧
      elasticAssignVac twoGpus s.sched.getOrphan 14 = .error .notAssigned ∧
      ¬ DelGood twoGpus s .assign := by
  have view : (exec (elasticStep twoGpus) (elasticStart twoGpus gpuMemory 0)
      [.orphan 10, .taskIssue 10 { ins := [], outs := [0] }, .assign, .update 0, .selectTask 0,
        .execute 0 [], .orphan 11, .assign, .orphan 12, .assign, .orphan 13, .assign,
        .orphan 14]).map (fun s => (s.sched.assignment.getOrphan.1, s.sched.assignment.phys 10,
          s.sched.position, migrating twoGpus s.sched 0 1)) =
      some (some 14, some 1, 2, some 10) := by decide
  obtain ⟨s, run, last⟩ := Option.map_eq_some_iff.mp view
  obtain ⟨orphan, moved, position, picked⟩ : s.sched.assignment.getOrphan.1 = some 14 ∧
      s.sched.assignment.phys 10 = some 1 ∧ s.sched.position = 2 ∧
      migrating twoGpus s.sched 0 1 = some 10 := by
    simpa using last
  have asserts : elasticAssignVac twoGpus s.sched.getOrphan 14 ≠ .error .notAssigned ↔
      ∀ mig, migrating twoGpus s.sched.getOrphan 0 1 = some mig →
        s.sched.getOrphan.assignment.phys mig = some 0 := by
    refine elasticAssignVac_asserts ?_ ?_
    · rw [show s.sched.getOrphan.position = 2 from position]
      rfl
    · rw [show s.sched.getOrphan.position = 2 from position]
      rfl
  have fails : elasticAssignVac twoGpus s.sched.getOrphan 14 = .error .notAssigned := by
    by_contra good
    have mine : s.sched.assignment.phys 10 = some 0 := asserts.mp good 10 picked
    rw [moved] at mine
    cases mine
  exact ⟨s, run, orphan, moved, fails, fun good => good 14 orphan fails⟩

end Condition

end Arax.Controller
