/-
**The throttle of a GPU (`controller/src/Cuda/CUDAaccelThread.cpp`,
`controller/src/Cuda/CUDABuiltins.cu`, `src/core/arax_data.c`).**

Memory is charged when it is allocated, for an output or in a builtin, and only for data that has
none. It is given back by the free task that the destructor of the data issues. In between, the data
is not registered any more, and the arguments of the free task are all that is left of it.

* `GpuInv` — what is allocated are the blocks of live data and those in free tasks, and they are
  charged, each once.
* `gpu_throttle_conserved` — the accounts in every state of every run.
* `gpu_drains` — free tasks do not fail, and bring everything back when all data are freed.
-/

import Mathlib.Algebra.BigOperators.Group.Finset.Piecewise
import Arax.Lib.Budget
import Arax.Controller.Serve

namespace Arax.Controller

open Arax.Lib

/-- The block of the data. -/
def AraxData.blocks (x : AraxData Unit) : Multiset Block :=
  match x.block with
  | none => 0
  | some remote => {(remote, x.size)}

/-- The block that a free task gives back. -/
def FreeArgs.block (args : FreeArgs) : Block := (args.remote, args.size)

/-- The device memory that is allocated. -/
def DataPool.blocks (s : DataPool) : Multiset Block :=
  held s.next (fun d => (s.devices.data d).blocks) + (s.frees.map FreeArgs.block : Multiset Block)

/-- Data, how often memory was charged for it, and how often it was an output. -/
structure GpuDatum (this : Nat) (x : AraxData Unit) (charges outputs : Nat) : Prop where
  other : x.othrRemt = true → x.remote.isSome
  home : ∀ remote, x.block = some remote → x.phys = some this
  charged : x.refCount ≠ 0 → charges = if x.block.isSome ∧ x.size ≠ 0 then 1 else 0
  once : charges ≤ 1
  output : x.refCount ≠ 0 → 0 < outputs → x.size ≠ 0 → x.remote.isSome

/-- **The invariant.** -/
structure GpuInv (this : Nat) (initial : Throttle) (s : DataPool) : Prop where
  kind : s.devices.kind this = .gpu
  vaqs : ∀ vac, s.devices.vaqPhys vac = some this
  capacity : (s.devices.throttle this).capacity = initial.capacity
  fresh : ∀ d, s.next ≤ d → (s.devices.data d).refCount = 0 ∧ s.devices.charges d = 0 ∧
    s.outputs d = 0
  datum : ∀ d, GpuDatum this (s.devices.data d) (s.devices.charges d) (s.outputs d)
  frees : ∀ args ∈ s.frees, args.phys = this
  budget : Budget initial.available (s.devices.throttle this).available s.blocks s.devices.memory

theorem GpuDatum.ours {this charges outputs : Nat} {x : AraxData Unit}
    (datum : GpuDatum this x charges outputs) (remote : x.remote = none) :
    x.othrRemt = false := by
  by_contra other
  have some_ := datum.other (Bool.of_not_eq_false other)
  rw [remote] at some_
  cases some_

section Blocks

variable {s : DataPool} {x : AraxData Unit} {d : Nat}

theorem blocks_eq_zero (none_ : x.block = none) : x.blocks = 0 := by
  unfold AraxData.blocks
  rw [none_]

theorem inside_of_live (fresh : ∀ d, s.next ≤ d → (s.devices.data d).refCount = 0)
    (live : (s.devices.data d).refCount ≠ 0) : d < s.next := by
  by_contra beyond
  exact live (fresh d (Nat.le_of_not_lt beyond))

/-- One of the data changes. -/
theorem held_blocks (inside : d < s.next) :
    held s.next (fun e => (Function.update s.devices.data d x e).blocks) +
        (s.devices.data d).blocks =
      held s.next (fun e => (s.devices.data e).blocks) + x.blocks := by
  have view : (fun e => (Function.update s.devices.data d x e).blocks) =
      Function.update (fun e => (s.devices.data e).blocks) d x.blocks :=
    Function.comp_update AraxData.blocks s.devices.data d x
  rw [view]
  exact held_update (fun e => (s.devices.data e).blocks) inside x.blocks

end Blocks

section Steps

variable {this d vac : Nat} {initial : Throttle} {s t : DataPool} {x : AraxData Unit}

theorem GpuInv.dead (inv : GpuInv this initial s) (d : Nat) (beyond : s.next ≤ d) :
    (s.devices.data d).refCount = 0 := (inv.fresh d beyond).1

/-- Data changes, but not its size and its device memory. -/
theorem GpuInv.setData (inv : GpuInv this initial s)
    (live : x.refCount ≠ 0 → (s.devices.data d).refCount ≠ 0)
    (size : x.size = (s.devices.data d).size) (block : x.block = (s.devices.data d).block)
    (datum : GpuDatum this x (s.devices.charges d) (s.outputs d)) :
    GpuInv this initial (s.setData d x) := by
  have blocks : x.blocks = (s.devices.data d).blocks := by
    unfold AraxData.blocks
    rw [block, size]
  have all : (s.setData d x).blocks = s.blocks := by
    unfold DataPool.blocks held
    refine congrArg (· + _) (Finset.sum_congr rfl fun e _ => ?_)
    exact forall_setData (fun e y => y.blocks = (s.devices.data e).blocks) blocks (fun _ => rfl) e
  refine ⟨inv.kind, inv.vaqs, inv.capacity, ?_, ?_, inv.frees, all ▸ inv.budget⟩
  · refine forall_setData (fun e y => s.next ≤ e → y.refCount = 0 ∧ s.devices.charges e = 0 ∧
      s.outputs e = 0) (fun beyond => ?_) inv.fresh
    have before := inv.fresh d beyond
    exact ⟨by_contra fun alive => live alive before.1, before.2⟩
  · exact forall_setData (fun e y => GpuDatum this y (s.devices.charges e) (s.outputs e)) datum
      inv.datum

/-- The references to live data change, and it stays alive. -/
theorem GpuInv.setRefs (inv : GpuInv this initial s) {refs : Nat} (accel : Option Nat)
    (live : (s.devices.data d).refCount ≠ 0) (alive : refs ≠ 0) :
    GpuInv this initial
      (s.setData d { s.devices.data d with refCount := refs, accel := accel }) := by
  have block : ({ s.devices.data d with refCount := refs, accel := accel } :
      AraxData Unit).block = (s.devices.data d).block := by
    simp only [AraxData.block, live, alive, false_or]
  have before := inv.datum d
  refine inv.setData (fun _ => live) rfl block ⟨before.other, ?_, fun _ => ?_, before.once,
    fun _ => before.output live⟩
  · rw [block]
    exact before.home
  · rw [block]
    exact before.charged live

theorem GpuInv.ioInit (inv : GpuInv this initial s) (step : s.ioInit vac d = some t) :
    GpuInv this initial t := by
  obtain ⟨live, accel, rfl⟩ := ioInit_cases step
  exact inv.setRefs accel live (Nat.succ_ne_zero _)

/-- The last reference is dropped, and there is no block to free. -/
theorem GpuInv.destroy (inv : GpuInv this initial s) (none_ : (s.devices.data d).block = none) :
    GpuInv this initial (s.setData d { s.devices.data d with refCount := 0 }) := by
  have dead : ({ s.devices.data d with refCount := 0 } : AraxData Unit).block = none :=
    block_of_dead rfl
  have before := inv.datum d
  refine inv.setData (fun alive => absurd rfl alive) rfl (dead.trans none_.symm)
    ⟨before.other, fun remote block => ?_, fun alive => absurd rfl alive, before.once,
      fun alive => absurd rfl alive⟩
  rw [dead] at block
  cases block

/-- The last reference is dropped, and the block goes into a free task. -/
theorem GpuInv.queue (inv : GpuInv this initial s) {remote phys : Nat}
    (block : (s.devices.data d).block = some remote) (here : (s.devices.data d).phys = some phys) :
    GpuInv this initial { s.setData d { s.devices.data d with refCount := 0 } with
      frees := s.frees ++ [⟨d, remote, (s.devices.data d).size, phys⟩] } := by
  have live : (s.devices.data d).refCount ≠ 0 := fun dead => by
    rw [block_of_dead dead] at block
    cases block
  have dead : ({ s.devices.data d with refCount := 0 } : AraxData Unit).block = none :=
    block_of_dead rfl
  have before := inv.datum d
  have home := before.home remote block
  -- the block leaves the data and enters the queue
  have moved := held_blocks (x := { s.devices.data d with refCount := 0 })
    (inside_of_live inv.dead live)
  rw [blocks_eq_zero dead, add_zero,
    show (s.devices.data d).blocks = {(remote, (s.devices.data d).size)} by
      unfold AraxData.blocks; rw [block]] at moved
  have all : ({ s.setData d { s.devices.data d with refCount := 0 } with
      frees := s.frees ++ [⟨d, remote, (s.devices.data d).size, phys⟩] } : DataPool).blocks =
      s.blocks := by
    unfold DataPool.blocks
    rw [← moved, List.map_append, ← Multiset.coe_add]
    show _ + (_ + {(remote, (s.devices.data d).size)}) = _
    rw [add_comm (Multiset.ofList _), ← add_assoc]
    rfl
  refine ⟨inv.kind, inv.vaqs, inv.capacity, ?_, ?_, fun args member => ?_, all ▸ inv.budget⟩
  · exact forall_setData (fun e y => s.next ≤ e → y.refCount = 0 ∧ s.devices.charges e = 0 ∧
      s.outputs e = 0) (fun beyond => ⟨rfl, (inv.fresh d beyond).2⟩) inv.fresh
  · refine forall_setData (fun e y => GpuDatum this y (s.devices.charges e) (s.outputs e))
      ⟨before.other, fun remote block => ?_, fun alive => absurd rfl alive, before.once,
        fun alive => absurd rfl alive⟩ inv.datum
    rw [dead] at block
    cases block
  · rcases List.mem_append.mp member with old | new
    · exact inv.frees args old
    · rw [List.mem_singleton.mp new]
      exact Option.some.inj (here.symm.trans home)

theorem GpuInv.refDec (inv : GpuInv this initial s) (step : s.refDec d = some t) :
    GpuInv this initial t := by
  obtain ⟨shared, rfl⟩ | ⟨-, none_, rfl⟩ | ⟨remote, phys, -, block, here, rfl⟩ :=
    refDec_cases step
  · exact inv.setRefs _ (by omega) (by omega)
  · exact inv.destroy none_
  · exact inv.queue block here

/-! ### Allocations -/

/-- `alloc_remote` on a GPU. -/
theorem allocRemote_gpu_cases {devices u : Devices Unit} (kind : devices.kind this = .gpu)
    (vaqs : ∀ vac, devices.vaqPhys vac = some this) (run : devices.allocRemote this d = .ok u) :
    ((devices.data d).remote.isSome ∧ u = devices) ∨
      ((devices.data d).remote = none ∧ (devices.data d).size = 0 ∧
        u = devices.setData d { devices.data d with phys := some this }) ∨
      ((devices.data d).remote = none ∧ 0 < (devices.data d).size ∧
        (devices.data d).size ≤ (devices.throttle this).available ∧
        u = devices.allocated this d) := by
  cases remote : (devices.data d).remote with
  | some ptr =>
    refine .inl ⟨rfl, ?_⟩
    unfold Devices.allocRemote at run
    simp only [kind, remote, Option.isSome_some, if_true] at run
    cases run
    rfl
  | none =>
    right
    have phys := Devices.accelPhys_of_allocRemote vaqs (fun _ => remote) run
    by_cases zero : (devices.data d).size = 0
    · refine .inl ⟨rfl, zero, ?_⟩
      unfold Devices.allocRemote at run
      simp only [kind, remote, Option.isSome_none, Bool.false_eq_true, if_false, phys] at run
      obtain ⟨p, same, run⟩ := bind_eq_ok.mp run
      cases same
      obtain ⟨r, charge, last⟩ := bind_eq_ok.mp run
      rw [Devices.accelSizeDec_zero (by rw [Devices.setData_self]; exact zero)] at charge
      cases charge
      cases last
      simp only [Devices.cudaMalloc, Devices.setData_self, zero, if_true]
      simp only [Devices.setData, Function.update_idem, remote]
    · obtain fails | ⟨enough, done⟩ :=
        Devices.allocRemote_gpu kind remote phys (Nat.pos_of_ne_zero zero)
      · cases fails.symm.trans run
      · exact .inr ⟨rfl, Nat.pos_of_ne_zero zero, enough, Except.ok.inj (run.symm.trans done)⟩

/-- Live data gets a block, which is charged. -/
theorem GpuInv.allocated (inv : GpuInv this initial s) (live : (s.devices.data d).refCount ≠ 0)
    (remote : (s.devices.data d).remote = none) (sized : 0 < (s.devices.data d).size)
    (enough : (s.devices.data d).size ≤ (s.devices.throttle this).available) :
    GpuInv this initial { s with devices := s.devices.allocated this d } := by
  have before := inv.datum d
  have ours := before.ours remote
  have none_ := block_of_none remote
  let x : AraxData Unit :=
    { s.devices.data d with phys := some this, remote := some s.devices.memory.next }
  have block : x.block = some s.devices.memory.next := by
    simp [AraxData.block, x, live, ours]
  have uncharged : s.devices.charges d = 0 := by
    rw [before.charged live, none_]
    rfl
  have moved := held_blocks (x := x) (inside_of_live inv.dead live)
  rw [blocks_eq_zero none_, add_zero, show x.blocks =
    {(s.devices.memory.next, (s.devices.data d).size)} by unfold AraxData.blocks; rw [block]]
    at moved
  have all : ({ s with devices := s.devices.allocated this d } : DataPool).blocks =
      s.blocks + {(s.devices.memory.next, (s.devices.data d).size)} := by
    refine (congrArg (· + _) moved).trans ?_
    exact add_right_comm _ _ _
  have budget := inv.budget.alloc s.devices.garbage enough
  rw [← all] at budget
  have beyond : ¬ s.next ≤ d := fun beyond => live (inv.dead d beyond)
  refine ⟨inv.kind, inv.vaqs, ?_, fun e above => ?_, fun e => ?_, inv.frees, ?_⟩
  · show (Function.update s.devices.throttle this _ this).capacity = _
    rw [Function.update_self]
    exact inv.capacity
  · have other : e ≠ d := fun same => beyond (same ▸ above)
    show (Function.update s.devices.data d x e).refCount = 0 ∧
      Function.update s.devices.charges d (s.devices.charges d + 1) e = 0 ∧ s.outputs e = 0
    rw [Function.update_of_ne other, Function.update_of_ne other]
    exact inv.fresh e above
  · show GpuDatum this (Function.update s.devices.data d x e)
      (Function.update s.devices.charges d (s.devices.charges d + 1) e) (s.outputs e)
    by_cases here : e = d
    · rw [here, Function.update_self, Function.update_self, uncharged]
      refine ⟨fun _ => rfl, fun _ _ => rfl, fun _ => ?_, Nat.le_refl 1, fun _ _ _ => rfl⟩
      rw [if_pos ⟨by rw [block]; rfl, Nat.ne_of_gt sized⟩]
    · rw [Function.update_of_ne here, Function.update_of_ne here]
      exact inv.datum e
  · show Budget initial.available (Function.update s.devices.throttle this _ this).available _ _
    rw [Function.update_self]
    exact budget

/-- **An allocation.** Afterwards live data has device memory, if it has a size, and no reference
has changed. -/
theorem GpuInv.allocRemote (inv : GpuInv this initial s)
    (live : (s.devices.data d).refCount ≠ 0) {devices : Devices Unit}
    (run : s.devices.allocRemote this d = .ok devices) :
    GpuInv this initial { s with devices := devices } ∧
      ((devices.data d).size ≠ 0 → (devices.data d).remote.isSome) ∧
      ∀ e, (devices.data e).refCount = (s.devices.data e).refCount := by
  obtain ⟨some_, rfl⟩ | ⟨remote, zero, rfl⟩ | ⟨remote, sized, enough, rfl⟩ :=
    allocRemote_gpu_cases inv.kind inv.vaqs run
  · exact ⟨inv, fun _ => some_, fun _ => rfl⟩
  · have before := inv.datum d
    refine ⟨inv.setData (x := { s.devices.data d with phys := some this }) (fun _ => live) rfl rfl
      ⟨before.other, fun _ _ => rfl, before.charged, before.once, before.output⟩, ?_, ?_⟩
    · rw [Devices.setData_self]
      exact fun sized => absurd zero sized
    · exact forall_setData (fun e y => y.refCount = (s.devices.data e).refCount) rfl fun _ => rfl
  · refine ⟨inv.allocated live remote sized enough, fun _ => ?_, ?_⟩
    · rw [Devices.allocated_self]
      rfl
    · exact forall_setData (fun e y => y.refCount = (s.devices.data e).refCount) rfl fun _ => rfl

/-- `alloc_remote` for an output. -/
theorem GpuInv.allocOutput (inv : GpuInv this initial s) (step : s.allocOutput this d = some t) :
    GpuInv this initial t := by
  unfold DataPool.allocOutput at step
  split_ifs at step with alive
  have live : (s.devices.data d).refCount ≠ 0 := by simpa [DataPool.live] using alive
  obtain ⟨devices, run, rfl⟩ := Option.map_eq_some_iff.mp step
  obtain ⟨inv', done, refs⟩ := inv.allocRemote live (toOption_eq_some.mp run)
  refine ⟨inv'.kind, inv'.vaqs, inv'.capacity, fun e beyond => ?_, fun e => ?_, inv'.frees,
    inv'.budget⟩
  · obtain ⟨dead, uncharged, never⟩ := inv'.fresh e beyond
    have other : e ≠ d := fun same => live (inv.dead d (same ▸ beyond))
    exact ⟨dead, uncharged, (Function.update_of_ne other _ _).trans never⟩
  · have before := inv'.datum e
    refine ⟨before.other, before.home, before.charged, before.once, fun alive often sized => ?_⟩
    by_cases here : e = d
    · rw [here] at sized ⊢
      exact done sized
    · change 0 < Function.update s.outputs d (s.outputs d + 1) e at often
      rw [Function.update_of_ne here] at often
      exact before.output alive often sized

theorem GpuInv.allocNoThrottle (inv : GpuInv this initial s)
    (live : (s.devices.data d).refCount ≠ 0) (step : s.allocNoThrottle this d = some t) :
    GpuInv this initial t ∧ ∀ e, (t.devices.data e).refCount = (s.devices.data e).refCount := by
  obtain ⟨devices, run, step⟩ := Option.bind_eq_some_iff.mp step
  split_ifs at step
  cases step
  obtain ⟨inv', -, refs⟩ := inv.allocRemote live (toOption_eq_some.mp run)
  exact ⟨inv', refs⟩

/-- `alloc_gpu_data` finds the memory that was allocated for its output. -/
theorem GpuInv.allocGpuData (inv : GpuInv this initial s)
    (live : (s.devices.data d).refCount ≠ 0) (often : 0 < s.outputs d)
    (step : s.allocGpuData d = some t) : t = s := by
  unfold DataPool.allocGpuData at step
  split_ifs at step with remote
  · cases step
    rfl
  · have zero : (s.devices.data d).size = 0 := by
      by_contra sized
      exact remote ((inv.datum d).output live often sized)
    obtain ⟨phys, -, step⟩ := Option.bind_eq_some_iff.mp step
    simp only [Devices.cudaMalloc, zero, if_true, Devices.setData_self, Option.isSome_none,
      Bool.false_eq_true, if_false] at step
    cases step

/-- **The functors.** -/
theorem GpuInv.functor (inv : GpuInv this initial s) {task : ServedTask}
    (alive : ∀ d ∈ task.io, (s.devices.data d).refCount ≠ 0)
    (often : ∀ d ∈ task.outs, 0 < s.outputs d) (step : s.functor this task = some t) :
    GpuInv this initial t := by
  unfold DataPool.functor at step
  simp only [inv.kind] at step
  unfold DataPool.gpuFunctor at step
  have only : ∀ d, task.outs = [d] → (s.devices.data d).refCount ≠ 0 := fun d outs =>
    alive d (by simp [ServedTask.io, outs])
  split at step
  · cases step
    exact inv
  · cases step
    exact inv
  · split at step
    · next d _ outs =>
      rw [inv.allocGpuData (only d outs) (often d (by simp [outs])) step]
      exact inv
    · cases step
  · obtain ⟨d, first, step⟩ := Option.bind_eq_some_iff.mp step
    exact (inv.allocNoThrottle (alive d (List.mem_of_getElem? first)) step).1
  · split_ifs at step
    obtain ⟨src, first, step⟩ := Option.bind_eq_some_iff.mp step
    obtain ⟨dst, second, step⟩ := Option.bind_eq_some_iff.mp step
    obtain ⟨r, allocDst, step⟩ := Option.bind_eq_some_iff.mp step
    obtain ⟨u, allocSrc, step⟩ := Option.bind_eq_some_iff.mp step
    obtain ⟨inv', refs⟩ := inv.allocNoThrottle (alive dst (List.mem_of_getElem? second)) allocDst
    have live : (r.devices.data src).refCount ≠ 0 := by
      rw [refs]
      exact alive src (List.mem_of_getElem? first)
    split_ifs at step
    cases step
    exact (inv'.allocNoThrottle live allocSrc).1
  · split at step
    · next d _ outs => exact (inv.allocNoThrottle (only d outs) step).1
    · cases step
  · split at step
    · split_ifs at step
      cases step
      exact inv
    · cases step

/-! ### Free tasks -/

/-- The free task gives a block back. -/
theorem blocks_cons {args : FreeArgs} {rest : List FreeArgs} (frees : s.frees = args :: rest) :
    s.blocks = ({ s with frees := rest } : DataPool).blocks + {args.block} := by
  unfold DataPool.blocks
  rw [frees, List.map_cons, ← Multiset.cons_coe, ← Multiset.singleton_add]
  exact (congrArg _ (add_comm _ _)).trans (add_assoc _ _ _).symm

/-- **The worker executes a free task.** -/
theorem GpuInv.memfree (inv : GpuInv this initial s) {args : FreeArgs} {rest : List FreeArgs}
    (frees : s.frees = args :: rest)
    (step : ({ s with frees := rest } : DataPool).memfree this args = some t) :
    GpuInv this initial t := by
  obtain ⟨devices, run, rfl⟩ := Option.map_eq_some_iff.mp step
  have run := toOption_eq_some.mp run
  simp only [inv.kind] at run
  obtain ⟨r, freed, credit⟩ := bind_eq_ok.mp run
  have home : args.phys = this := inv.frees args (by rw [frees]; exact List.mem_cons_self)
  have fewer : ∀ other ∈ rest, other.phys = this := fun other member =>
    inv.frees other (by rw [frees]; exact List.mem_cons_of_mem _ member)
  have budget := inv.budget
  rw [blocks_cons frees] at budget
  have budget' := budget.free
  unfold Devices.cudaFree at freed
  split at freed
  · cases freed
  cases freed
  rw [home] at credit
  unfold Devices.accelSizeInc at credit
  simp only at credit
  split_ifs at credit with zero exceeds
  · cases credit
    rw [zero, Nat.add_zero] at budget'
    exact ⟨inv.kind, inv.vaqs, inv.capacity, inv.fresh, inv.datum, fewer, budget'⟩
  · cases credit
    refine ⟨inv.kind, inv.vaqs, ?_, inv.fresh, inv.datum, fewer, ?_⟩
    · show (Function.update s.devices.throttle this _ this).capacity = _
      rw [Function.update_self]
      exact inv.capacity
    · show Budget initial.available (Function.update s.devices.throttle this _ this).available _ _
      rw [Function.update_self]
      exact budget'

/-! ### Other calls of clients -/

theorem GpuInv.dataInit (inv : GpuInv this initial s) (size : Nat) :
    GpuInv this initial (s.dataInit size) := by
  obtain ⟨dead, uncharged, never⟩ := inv.fresh s.next (Nat.le_refl _)
  let x : AraxData Unit := ⟨size, 1, none, none, none, false, ()⟩
  have all : (s.dataInit size).blocks = s.blocks := by
    unfold DataPool.blocks
    refine congrArg (· + _) ((held_succ _ _).trans ?_)
    show held s.next (fun e => (Function.update s.devices.data s.next x e).blocks) +
      (Function.update s.devices.data s.next x s.next).blocks = _
    rw [Function.update_self, show x.blocks = 0 from rfl, add_zero]
    refine Finset.sum_congr rfl fun e member => ?_
    show (Function.update s.devices.data s.next x e).blocks = _
    rw [Function.update_of_ne (Nat.ne_of_lt (Finset.mem_range.mp member))]
  refine ⟨inv.kind, inv.vaqs, inv.capacity, fun e beyond => ?_, ?_, inv.frees, all ▸ inv.budget⟩
  · obtain ⟨dead', rest⟩ := inv.fresh e (Nat.le_of_succ_le beyond)
    refine ⟨?_, rest⟩
    show (Function.update s.devices.data s.next x e).refCount = 0
    rw [Function.update_of_ne (Nat.ne_of_gt beyond)]
    exact dead'
  · refine forall_setData (fun e y => GpuDatum this y (s.devices.charges e) (s.outputs e)) ?_
      inv.datum
    rw [uncharged, never]
    exact ⟨nofun, fun _ => nofun, fun _ => rfl, Nat.zero_le 1, fun _ => nofun⟩

theorem GpuInv.setRemote (inv : GpuInv this initial s) {remote : Nat}
    (step : s.setRemote this vac d remote = some t) : GpuInv this initial t := by
  unfold DataPool.setRemote at step
  simp only at step
  split_ifs at step with may
  cases step
  obtain ⟨live, -, -, none_⟩ := may
  have before := inv.datum d
  have block := block_of_none none_
  let x : AraxData Unit := { s.devices.data d with
    accel := some vac, remote := some remote, othrRemt := true }
  have block' : x.block = none := if_pos (.inr rfl)
  refine inv.setData (fun _ => live) rfl (block'.trans block.symm) ⟨fun _ => rfl, fun r some_ => ?_,
    fun _ => ?_, before.once, fun _ _ _ => rfl⟩
  · cases block'.symm.trans some_
  · rw [show AraxData.block _ = none from block', before.charged live, block]

theorem gpu_keeps (this : Nat) (initial : Throttle) : Keeps this (GpuInv this initial) where
  dataInit _ size inv := inv.dataInit size
  setAccel _ vac _ inv live := inv.setRefs (some vac) live live
  ioInit _ _ _ _ inv step := inv.ioInit step
  setRemote _ _ _ _ _ inv step := inv.setRemote step
  refDec _ _ _ inv step := inv.refDec step
  memfree _ _ _ _ inv frees step := inv.memfree frees step
  allocOutput _ _ _ inv step := inv.allocOutput step
  functor _ _ _ inv alive often step := inv.functor alive often step

theorem gpu_start (this : Nat) (initial : Throttle) :
    GpuInv this initial (serveStart this .gpu initial).pool :=
  ⟨rfl, fun _ => rfl, rfl, fun _ _ => ⟨rfl, rfl, rfl⟩,
    fun _ => ⟨nofun, fun _ => nofun, fun _ => rfl, Nat.zero_le 1, fun _ => nofun⟩,
    nofun, Budget.empty _⟩

/-- **Free tasks do not fail.** The memory is still allocated, and the throttle has room. -/
theorem GpuInv.memfree_some (inv : GpuInv this initial s)
    (fits : initial.available ≤ initial.capacity) {args : FreeArgs} {rest : List FreeArgs}
    (frees : s.frees = args :: rest) :
    ∃ devices, ({ s with frees := rest } : DataPool).memfree this args =
      some { s with frees := rest, devices := devices } ∧ devices.data = s.devices.data := by
  have home : args.phys = this := inv.frees args (by rw [frees]; exact List.mem_cons_self)
  have budget := inv.budget
  rw [blocks_cons frees] at budget
  obtain ⟨allocated, room⟩ := budget.mayFree
  obtain ⟨x, cell⟩ := Option.isSome_iff_exists.mp allocated
  have cell : s.devices.memory.cell args.remote = some x := cell
  have free : s.devices.cudaFree args.remote =
      .ok { s.devices with memory := s.devices.memory.free args.remote } := by
    unfold Devices.cudaFree
    rw [cell]
  have credit : ∃ devices, ({ s.devices with memory := s.devices.memory.free args.remote } :
      Devices Unit).accelSizeInc this args.size = .ok devices ∧
      devices.data = s.devices.data := by
    have fine : ¬ (s.devices.throttle this).capacity <
        (s.devices.throttle this).available + args.size := by
      rw [inv.capacity]
      exact Nat.not_lt.mpr (Nat.le_trans room fits)
    unfold Devices.accelSizeInc
    simp only [fine, if_false]
    split_ifs
    · exact ⟨_, rfl, rfl⟩
    · exact ⟨_, rfl, rfl⟩
  obtain ⟨devices, credit, same⟩ := credit
  refine ⟨devices, ?_, same⟩
  unfold DataPool.memfree
  simp only [inv.kind, free, home]
  show Option.map _ (Except.toOption (Devices.accelSizeInc _ this args.size)) = _
  rw [credit]
  rfl

/-- What is allocated belongs to live data, or to data in free tasks. -/
theorem blockBytes_blocks (s : DataPool) :
    blockBytes s.blocks = s.liveBytes + s.queuedBytes := by
  unfold DataPool.blocks DataPool.liveBytes DataPool.queuedBytes
  rw [blockBytes_add, blockBytes_held]
  refine congrArg₂ (· + ·) (Finset.sum_congr rfl fun d _ => ?_) ?_
  · unfold AraxData.blocks
    cases (s.devices.data d).block with
    | none => rfl
    | some remote => exact blockBytes_singleton _
  · unfold blockBytes
    rw [Multiset.map_coe, Multiset.sum_coe, List.map_map]
    rfl

/-- Without live data and free tasks nothing is allocated. -/
theorem GpuInv.available_of_dead (inv : GpuInv this initial s)
    (dead : ∀ d, (s.devices.data d).refCount = 0) (none_ : s.frees = []) :
    (s.devices.throttle this).available = initial.available := by
  have ledger := inv.budget.ledger
  rw [blockBytes_blocks] at ledger
  have live : s.liveBytes = 0 := by
    refine Finset.sum_eq_zero fun d _ => ?_
    rw [block_of_dead (dead d)]
    rfl
  have queued : s.queuedBytes = 0 := by
    unfold DataPool.queuedBytes
    rw [none_]
    rfl
  omega

end Steps

/-! ### Runs -/

section Runs

variable {this : Nat} {initial : Throttle} {moves : List ServeMove} {s : ServeState}

theorem ServeInv.drain (inv : ServeInv (GpuInv this initial) s)
    (fits : initial.available ≤ initial.capacity) (idle : s.worker = .select) {n : Nat}
    (length : s.pool.frees.length = n) (dead : ∀ d, (s.pool.devices.data d).refCount = 0) :
    ∃ t, exec (serveStep this) s (List.replicate n .selectFree) = some t ∧
      (t.pool.devices.throttle this).available = initial.available := by
  induction n generalizing s with
  | zero => exact ⟨s, rfl, inv.pool.available_of_dead dead (List.length_eq_zero_iff.mp length)⟩
  | succ n ih =>
    cases frees : s.pool.frees with
    | nil =>
      rw [frees] at length
      cases length
    | cons args rest =>
      rw [frees] at length
      obtain ⟨devices, freed, same⟩ := inv.pool.memfree_some fits frees
      let t : ServeState := { s with
        pool := { s.pool with frees := rest, devices := devices }, worker := .select }
      have step : serveStep this s .selectFree = some t := by
        simp only [serveStep, ServeState.selectFree, idle, frees, freed]
        rfl
      have dead' : ∀ d, (t.pool.devices.data d).refCount = 0 := by
        show ∀ d, (devices.data d).refCount = 0
        rw [same]
        exact dead
      obtain ⟨u, later, back⟩ := ih (serveStep_inv (gpu_keeps this initial) inv step) rfl
        (Nat.succ.inj length) dead'
      refine ⟨u, ?_, back⟩
      rw [List.replicate_succ, exec, step]
      exact later

/-- **The free tasks bring the memory back.** When the worker is at `selectTask`, it can execute all
free tasks, and if all data were freed, everything is available afterwards. -/
theorem gpu_drains (fits : initial.available ≤ initial.capacity)
    (run : exec (serveStep this) (serveStart this .gpu initial) moves = some s)
    (idle : s.worker = .select) (dead : ∀ d, (s.pool.devices.data d).refCount = 0) :
    ∃ t, exec (serveStep this) s (List.replicate s.pool.frees.length .selectFree) = some t ∧
      (t.pool.devices.throttle this).available = initial.available :=
  (serve_inv (gpu_keeps this initial) (gpu_start this initial) run).drain fits idle rfl dead

end Runs

end Arax.Controller
