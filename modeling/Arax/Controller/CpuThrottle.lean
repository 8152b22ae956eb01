/-
**The throttle of a CPU (`controller/src/Cpu/CPUaccelThread.cpp`,
`controller/src/Cpu/CpuBuiltins.cpp`, `src/core/arax_data.c`).**

`alloc_remote` charges the throttle for each output of each task, also for data that was charged
before: `arax_data_set` and `arax_data_get` are tasks with an output. It does not set `remote`, and
the destructor of data issues a free task only if `remote` is set. So nothing is ever given back.

* `CpuInv` — what is missing from the throttle are the sizes of all outputs that were executed.
* `ChargedOnce` — live data is charged at most once, and in the end everything is available.
* `OutputOnce` — the condition: no live data was an output twice, and in the end none was.
* `cpu_throttle_iff` — runs that stay in states with `ChargedOnce` are those with `OutputOnce`.
* `cpu_throttle_drifts` — data that is charged twice, and data that is freed and stays charged.
-/

import Arax.Controller.Serve

namespace Arax.Controller

open Arax.Lib

/-- The sizes of the outputs that were allocated. -/
def DataPool.outputBytes (s : DataPool) : Nat :=
  ∑ d ∈ Finset.range s.next, s.outputs d * (s.devices.data d).size

/-- **The invariant.** -/
structure CpuInv (this : Nat) (initial : Throttle) (s : DataPool) : Prop where
  kind : s.devices.kind this = .cpu
  vaqs : ∀ vac, s.devices.vaqPhys vac = some this
  fresh : ∀ d, s.next ≤ d → (s.devices.data d).refCount = 0 ∧ s.outputs d = 0
  remote : ∀ d, (s.devices.data d).remote = none
  frees : s.frees = []
  charged : ∀ d, s.devices.charges d = if (s.devices.data d).size = 0 then 0 else s.outputs d
  ledger : (s.devices.throttle this).available + s.outputBytes = initial.available

section Steps

variable {this d vac : Nat} {initial : Throttle} {s t : DataPool} {x : AraxData Unit}

/-- Data changes, but not its size. -/
theorem CpuInv.setData (inv : CpuInv this initial s)
    (live : x.refCount ≠ 0 → (s.devices.data d).refCount ≠ 0)
    (size : x.size = (s.devices.data d).size) (remote : x.remote = none) :
    CpuInv this initial (s.setData d x) := by
  have sizes : ∀ e, ((s.setData d x).devices.data e).size = (s.devices.data e).size :=
    forall_setData (fun e y => y.size = (s.devices.data e).size) size fun _ => rfl
  refine ⟨inv.kind, inv.vaqs, ?_, ?_, inv.frees, fun e => ?_, ?_⟩
  · refine forall_setData (fun e y => s.next ≤ e → y.refCount = 0 ∧ s.outputs e = 0)
      (fun beyond => ?_) inv.fresh
    have before := inv.fresh d beyond
    exact ⟨by_contra fun alive => live alive before.1, before.2⟩
  · exact forall_setData (fun _ y => y.remote = none) remote inv.remote
  · rw [sizes]
    exact inv.charged e
  · have bytes : (s.setData d x).outputBytes = s.outputBytes :=
      Finset.sum_congr rfl fun e _ => congrArg (s.outputs e * ·) (sizes e)
    rw [bytes]
    exact inv.ledger

theorem CpuInv.refDec (inv : CpuInv this initial s) (step : s.refDec d = some t) :
    CpuInv this initial t := by
  obtain ⟨shared, rfl⟩ | ⟨last, -, rfl⟩ | ⟨remote, phys, last, block, -, rfl⟩ := refDec_cases step
  · exact inv.setData (fun _ => by omega) rfl (inv.remote d)
  · exact inv.setData (fun alive => absurd rfl alive) rfl (inv.remote d)
  · -- no data has device memory, so no free task is issued
    cases (block_of_none (inv.remote d)).symm.trans block

theorem CpuInv.dataInit (inv : CpuInv this initial s) (size : Nat) :
    CpuInv this initial (s.dataInit size) := by
  obtain ⟨-, never⟩ := inv.fresh s.next (Nat.le_refl _)
  let x : AraxData Unit := ⟨size, 1, none, none, none, false, ()⟩
  have uncharged : s.devices.charges s.next = 0 := by
    rw [inv.charged, never, ite_self]
  have bytes : (s.dataInit size).outputBytes = s.outputBytes := by
    refine (Finset.sum_range_succ _ _).trans ?_
    show _ + s.outputs s.next * _ = _
    rw [never, Nat.zero_mul, Nat.add_zero]
    refine Finset.sum_congr rfl fun e member => ?_
    show s.outputs e * (Function.update s.devices.data s.next x e).size = _
    rw [Function.update_of_ne (Nat.ne_of_lt (Finset.mem_range.mp member))]
  refine ⟨inv.kind, inv.vaqs, fun e beyond => ?_, ?_, inv.frees, ?_, bytes ▸ inv.ledger⟩
  · obtain ⟨dead, rest⟩ := inv.fresh e (Nat.le_of_succ_le beyond)
    refine ⟨?_, rest⟩
    show (Function.update s.devices.data s.next x e).refCount = 0
    rw [Function.update_of_ne (Nat.ne_of_gt beyond)]
    exact dead
  · exact forall_setData (fun _ y => y.remote = none) rfl inv.remote
  · refine forall_setData (fun e y => s.devices.charges e = if y.size = 0 then 0 else s.outputs e)
      ?_ inv.charged
    rw [uncharged, never, ite_self]

/-- `alloc_remote` on a CPU. -/
theorem allocRemote_cpu_cases {devices u : Devices Unit} (kind : devices.kind this = .cpu)
    (vaqs : ∀ vac, devices.vaqPhys vac = some this) (run : devices.allocRemote this d = .ok u) :
    ((devices.data d).size = 0 ∧
        u = devices.setData d { devices.data d with phys := some this }) ∨
      (0 < (devices.data d).size ∧ (devices.data d).size ≤ (devices.throttle this).available ∧
        u = devices.placed this d) := by
  have phys : devices.accelPhys d = .ok this := by
    refine Devices.accelPhys_of_allocRemote vaqs (fun other => ?_) run
    cases kind.symm.trans other
  by_cases zero : (devices.data d).size = 0
  · refine .inl ⟨zero, ?_⟩
    unfold Devices.allocRemote at run
    simp only [kind, phys] at run
    obtain ⟨p, same, charge⟩ := bind_eq_ok.mp run
    cases same
    rw [Devices.accelSizeDec_zero (by rw [Devices.setData_self]; exact zero)] at charge
    cases charge
    rfl
  · obtain fails | ⟨enough, done⟩ := Devices.allocRemote_cpu kind phys (Nat.pos_of_ne_zero zero)
    · cases fails.symm.trans run
    · exact .inr ⟨Nat.pos_of_ne_zero zero, enough, Except.ok.inj (run.symm.trans done)⟩

/-- **An output is charged**, whether it was charged before or not. -/
theorem CpuInv.allocOutput (inv : CpuInv this initial s) (step : s.allocOutput this d = some t) :
    CpuInv this initial t := by
  unfold DataPool.allocOutput at step
  split_ifs at step with alive
  have live : (s.devices.data d).refCount ≠ 0 := by simpa [DataPool.live] using alive
  obtain ⟨devices, run, rfl⟩ := Option.map_eq_some_iff.mp step
  have inside : d < s.next := by
    by_contra beyond
    exact live (inv.fresh d (Nat.le_of_not_lt beyond)).1
  -- in both cases `phys` is all that changes in the data
  have moved : CpuInv this initial
      (s.setData d { s.devices.data d with phys := some this }) :=
    inv.setData (fun _ => live) rfl (inv.remote d)
  have outputs : ∀ e, s.next ≤ e →
      Function.update s.outputs d (s.outputs d + 1) e = 0 := by
    intro e beyond
    rw [Function.update_of_ne (Nat.ne_of_gt (Nat.lt_of_lt_of_le inside beyond))]
    exact (inv.fresh e beyond).2
  let u := s.setData d { s.devices.data d with phys := some this }
  have size : (u.devices.data d).size = (s.devices.data d).size := by
    show (Function.update s.devices.data d _ d).size = _
    rw [Function.update_self]
  have bytes : ({ u with outputs := Function.update s.outputs d (s.outputs d + 1) } :
      DataPool).outputBytes = u.outputBytes + (s.devices.data d).size := by
    have change := sum_change (f := fun e => s.outputs e * (u.devices.data e).size)
      (g := fun e => Function.update s.outputs d (s.outputs d + 1) e * (u.devices.data e).size)
      (Finset.mem_range.mpr inside) fun e other => by
        show Function.update s.outputs d (s.outputs d + 1) e * _ = _
        rw [Function.update_of_ne other]
    simp only [Function.update_self, size, Nat.add_mul, Nat.one_mul] at change
    show (∑ e ∈ Finset.range s.next, Function.update s.outputs d (s.outputs d + 1) e *
      (u.devices.data e).size) =
        (∑ e ∈ Finset.range s.next, s.outputs e * (u.devices.data e).size) + _
    omega
  obtain ⟨zero, rfl⟩ | ⟨sized, enough, rfl⟩ :=
    allocRemote_cpu_cases inv.kind inv.vaqs (toOption_eq_some.mp run)
  · refine ⟨inv.kind, inv.vaqs, fun e beyond => ⟨(moved.fresh e beyond).1, outputs e beyond⟩,
      moved.remote, inv.frees, fun e => ?_, ?_⟩
    · refine (moved.charged e).trans ?_
      by_cases here : e = d
      · rw [here, size, if_pos zero]
        exact (if_pos (size.trans zero)).symm
      · show _ = if _ then 0 else Function.update s.outputs d (s.outputs d + 1) e
        rw [Function.update_of_ne here]
        rfl
    · refine (congrArg (HAdd.hAdd _) (bytes.trans ?_)).trans moved.ledger
      rw [zero, Nat.add_zero]
  · refine ⟨inv.kind, inv.vaqs, fun e beyond => ⟨(moved.fresh e beyond).1, outputs e beyond⟩,
      moved.remote, inv.frees, fun e => ?_, ?_⟩
    · show Function.update s.devices.charges d (s.devices.charges d + 1) e =
        if (u.devices.data e).size = 0 then 0 else Function.update s.outputs d (s.outputs d + 1) e
      by_cases here : e = d
      · rw [here, Function.update_self, Function.update_self, size, if_neg (Nat.ne_of_gt sized),
          inv.charged d, if_neg (Nat.ne_of_gt sized)]
      · rw [Function.update_of_ne here, Function.update_of_ne here]
        exact moved.charged e
    · refine (congrArg (HAdd.hAdd _) bytes).trans ?_
      have ledger : (s.devices.throttle this).available + u.outputBytes = _ := moved.ledger
      show (Function.update s.devices.throttle this _ this).available + _ = _
      rw [Function.update_self]
      show (s.devices.throttle this).available - (s.devices.data d).size + _ = _
      omega

/-- **The functors** of a CPU charge nothing. -/
theorem CpuInv.functor (inv : CpuInv this initial s) {task : ServedTask}
    (alive : ∀ d ∈ task.io, (s.devices.data d).refCount ≠ 0)
    (step : s.functor this task = some t) : CpuInv this initial t := by
  unfold DataPool.functor at step
  simp only [inv.kind] at step
  unfold DataPool.cpuFunctor at step
  split at step
  · cases step
    exact inv
  · cases step
    exact inv
  · obtain ⟨d, first, step⟩ := Option.bind_eq_some_iff.mp step
    obtain ⟨phys, -, rfl⟩ := Option.map_eq_some_iff.mp step
    exact inv.setData (fun _ => alive d (List.mem_of_getElem? first)) rfl (inv.remote d)
  · obtain ⟨d, -, rfl⟩ := Option.map_eq_some_iff.mp step
    exact inv
  · split_ifs at step
    obtain ⟨src, -, step⟩ := Option.bind_eq_some_iff.mp step
    obtain ⟨dst, -, rfl⟩ := Option.map_eq_some_iff.mp step
    exact inv
  · split at step
    · cases step
      exact inv
    · cases step
  · split at step
    · cases step
      exact inv
    · cases step

theorem cpu_keeps (this : Nat) (initial : Throttle) : Keeps this (CpuInv this initial) where
  dataInit _ size inv := inv.dataInit size
  setAccel _ _ d inv live := inv.setData (fun _ => live) rfl (inv.remote d)
  ioInit _ _ d _ inv step := by
    obtain ⟨live, accel, rfl⟩ := ioInit_cases step
    exact inv.setData (fun _ => live) rfl (inv.remote d)
  setRemote s _ _ _ _ inv step := by
    unfold DataPool.setRemote at step
    simp only [inv.kind, reduceCtorEq, false_and, and_false, if_false] at step
  refDec _ _ _ inv step := inv.refDec step
  memfree s _ _ _ inv frees _ := by
    cases inv.frees.symm.trans frees
  allocOutput _ _ _ inv step := inv.allocOutput step
  functor _ _ _ inv alive _ step := inv.functor alive step

theorem cpu_start (this : Nat) (initial : Throttle) :
    CpuInv this initial (serveStart this .cpu initial).pool :=
  ⟨rfl, fun _ => rfl, fun _ _ => ⟨rfl, rfl⟩, fun _ => rfl, rfl, fun _ => rfl, rfl⟩

end Steps

/-! ### Runs -/

/-- Live data is charged at most once, and when all data are freed and all tasks executed,
everything is available. -/
structure ChargedOnce (this : Nat) (initial : Throttle) (s : ServeState) : Prop where
  live : ∀ d, (s.pool.devices.data d).refCount ≠ 0 → s.pool.devices.charges d ≤ 1
  idle : Idle s → (s.pool.devices.throttle this).available = initial.available

/-- **The condition.** No live data of some size was an output more than once, and when all data
are freed and all tasks executed, none of them was an output at all. -/
structure OutputOnce (s : ServeState) : Prop where
  live : ∀ d, (s.pool.devices.data d).refCount ≠ 0 → 0 < (s.pool.devices.data d).size →
    s.pool.outputs d ≤ 1
  idle : Idle s → ∀ d, 0 < (s.pool.devices.data d).size → s.pool.outputs d = 0

section Runs

variable {this : Nat} {initial : Throttle} {s : ServeState}

/-- Everything is available exactly if no data of some size was an output. -/
theorem CpuInv.available_iff {s : DataPool} (inv : CpuInv this initial s) :
    (s.devices.throttle this).available = initial.available ↔
      ∀ d, 0 < (s.devices.data d).size → s.outputs d = 0 := by
  have ledger := inv.ledger
  have zero : s.outputBytes = 0 ↔ ∀ d, 0 < (s.devices.data d).size → s.outputs d = 0 := by
    unfold DataPool.outputBytes
    rw [Finset.sum_eq_zero_iff]
    constructor
    · intro terms d sized
      by_cases inside : d < s.next
      · have term := terms d (Finset.mem_range.mpr inside)
        exact (Nat.mul_eq_zero.mp term).resolve_right (Nat.ne_of_gt sized)
      · exact (inv.fresh d (Nat.le_of_not_lt inside)).2
    · intro never d _
      rcases Nat.eq_zero_or_pos (s.devices.data d).size with none_ | sized
      · rw [none_, Nat.mul_zero]
      · rw [never d sized, Nat.zero_mul]
  rw [← zero]
  omega

theorem CpuInv.chargedOnce_iff (inv : CpuInv this initial s.pool) :
    ChargedOnce this initial s ↔ OutputOnce s := by
  constructor
  · intro once
    refine ⟨fun d live sized => ?_, fun idle => inv.available_iff.mp (once.idle idle)⟩
    have charged := once.live d live
    rwa [inv.charged, if_neg (Nat.ne_of_gt sized)] at charged
  · intro once
    refine ⟨fun d live => ?_, fun idle => inv.available_iff.mpr (once.idle idle)⟩
    rw [inv.charged]
    split_ifs with zero
    · exact Nat.zero_le 1
    · exact once.live d live (Nat.pos_of_ne_zero zero)

/-- **The throttle of a CPU.** A run stays in states in which live data is charged at most once and
everything comes back in the end, exactly if no live data is an output twice, and none of those that
are freed in the end was an output. -/
theorem cpu_throttle_iff (this : Nat) (initial : Throttle) (moves : List ServeMove) :
    Along (serveStep this) (ChargedOnce this initial) (serveStart this .cpu initial) moves ↔
      Along (serveStep this) OutputOnce (serveStart this .cpu initial) moves :=
  along_congr (ServeInv (CpuInv this initial))
    (fun _ _ _ inv step => serveStep_inv (cpu_keeps this initial) inv step)
    (fun _ inv => inv.pool.chargedOnce_iff)
    ⟨cpu_start this initial, fun _ _ => nofun, trivial⟩

/-- `arax_data_set` on new data, executed. -/
def setOnce : List ServeMove :=
  [.dataInit 16, .dataSet 1 0, .selectTask 1, .work, .work, .work, .work]

/-- **The throttle drifts.** After `arax_data_set` and `arax_data_get` the data is charged twice.
After `arax_data_set` and `arax_data_free`, with all tasks executed, it is still charged. -/
theorem cpu_throttle_drifts :
    (∃ s, exec (serveStep 0) (serveStart 0 .cpu ⟨64, 64⟩)
        (setOnce ++ [.dataGet 0, .selectTask 1, .work]) = some s ∧
      (s.pool.devices.data 0).refCount ≠ 0 ∧ s.pool.devices.charges 0 = 2 ∧
      ¬ ChargedOnce 0 ⟨64, 64⟩ s) ∧
    ∃ s, exec (serveStep 0) (serveStart 0 .cpu ⟨64, 64⟩) (setOnce ++ [.dataFree 0]) = some s ∧
      Idle s ∧ (s.pool.devices.throttle 0).available = 48 ∧ ¬ ChargedOnce 0 ⟨64, 64⟩ s := by
  constructor
  · refine ⟨_, rfl, by decide, rfl, fun once => ?_⟩
    exact absurd (once.live 0 (by decide)) (by decide)
  · have idle : ∀ s, exec (serveStep 0) (serveStart 0 .cpu ⟨64, 64⟩)
        (setOnce ++ [.dataFree 0]) = some s → Idle s := by
      intro s run
      have inv := (serve_inv (cpu_keeps 0 _) (cpu_start 0 _) run).pool
      cases run
      refine ⟨fun d => ?_, rfl, fun vac => ?_, rfl⟩
      · by_cases here : d = 0
        · rw [here]
          rfl
        · exact (inv.fresh d (Nat.pos_of_ne_zero here)).1
      · show Function.update (Function.update (fun _ => []) 1 [0]) 1 [] vac = []
        rw [Function.update_idem, Function.update_apply, ite_self]
    refine ⟨_, rfl, idle _ rfl, rfl, fun once => ?_⟩
    exact absurd (once.idle (idle _ rfl)) (by decide)

end Runs

end Arax.Controller
