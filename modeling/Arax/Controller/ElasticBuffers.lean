/-
**Where the buffers of a moved VAQ are (`controller/src/Schedulers/ElasticScheduler.cpp`).**

The elastic scheduler moves VAQs between accelerators, and the buffers of a moved VAQ follow when
its next task is selected. Which VAQ was moved it remembers in one pointer, `vaq4migration`.
A second move overwrites it, and then the buffers of the first VAQ stay where they are while its
tasks run elsewhere.

* `Settling` — what threads do to buffers: each stays, leaves, or comes to the accelerator of its
  VAQ.
* `BuffersHere` — a task that `selectTask` returns has no buffer on another accelerator.
* `MoveSettled` — the condition on a step.
* `BufferInv` — all buffers are where their VAQ is, except for those of the VAQ that is remembered.
* `elastic_buffers_here` — in a run that meets the condition, every selected task finds its buffers.
* `elastic_buffer_left` — a run with two moves.
-/

import Arax.Controller.Elastic

namespace Arax.Controller

open Arax.Lib Arax.Core Arax.Core.Ownership

/-! ### Threads and buffers -/

section Threads

variable {α : Type} {s t u : Devices α} {th d this : Nat}

/-- A call for the buffer `d` leaves the other buffers alone. -/
structure Touched (s t : Devices α) (d : Nat) : Prop where
  vaqPhys : t.vaqPhys = s.vaqPhys
  others : ∀ e, e ≠ d → t.data e = s.data e
  accel : (t.data d).accel = (s.data d).accel

theorem Touched.trans (first : Touched s t d) (second : Touched t u d) : Touched s u d :=
  ⟨second.vaqPhys.trans first.vaqPhys,
    fun e other => (second.others e other).trans (first.others e other),
    second.accel.trans first.accel⟩

theorem Touched.refl (s : Devices α) (d : Nat) : Touched s s d := ⟨rfl, fun _ _ => rfl, rfl⟩

theorem Touched.setData {x : AraxData α} (accel : x.accel = (s.data d).accel) :
    Touched s (s.setData d x) d :=
  ⟨rfl, fun _ other => Devices.setData_of_ne other x, by rw [Devices.setData_self, accel]⟩

/-- The throttle has nothing to do with where the buffers are. -/
theorem Touched.throttle (data : t.data = s.data) (vaqPhys : t.vaqPhys = s.vaqPhys) :
    Touched s t d :=
  ⟨vaqPhys, fun _ _ => by rw [data], by rw [data]⟩

theorem accelSizeDec_parts {accel : Nat} (run : s.accelSizeDec accel d = .ok t) :
    t.data = s.data ∧ t.vaqPhys = s.vaqPhys := by
  unfold Devices.accelSizeDec at run
  dsimp only at run
  split_ifs at run
  · cases run
    exact ⟨rfl, rfl⟩
  · cases run
    exact ⟨rfl, rfl⟩

theorem accelSizeInc_parts {accel size : Nat} (run : s.accelSizeInc accel size = .ok t) :
    t.data = s.data ∧ t.vaqPhys = s.vaqPhys := by
  unfold Devices.accelSizeInc at run
  dsimp only at run
  split_ifs at run
  · cases run
    exact ⟨rfl, rfl⟩
  · cases run
    exact ⟨rfl, rfl⟩

theorem cudaMalloc_touched : Touched s (s.cudaMalloc d) d ∧
    ((s.cudaMalloc d).data d).phys = (s.data d).phys := by
  unfold Devices.cudaMalloc
  split_ifs
  · exact ⟨Touched.setData rfl, by rw [Devices.setData_self]⟩
  · refine ⟨⟨rfl, fun e other => Devices.setData_of_ne other _, ?_⟩, ?_⟩
    · show ((s.setData d _).data d).accel = _
      rw [Devices.setData_self]
    · show ((s.setData d _).data d).phys = _
      rw [Devices.setData_self]

/-- An assignment to `data->phys`, and the charge. -/
theorem place_touched {p : Nat}
    (run : (s.setData d { s.data d with phys := some p }).accelSizeDec p d = .ok t) :
    Touched s t d ∧ (t.data d).phys = some p := by
  obtain ⟨data, vaqPhys⟩ := accelSizeDec_parts run
  have set : Touched s (s.setData d { s.data d with phys := some p }) d := Touched.setData rfl
  refine ⟨set.trans (Touched.throttle data vaqPhys), ?_⟩
  rw [data, Devices.setData_self]

/-- `alloc_remote`: the buffer comes to the accelerator of its VAQ, if it does not stay. -/
theorem allocRemote_touched (run : s.allocRemote th d = .ok t) :
    Touched s t d ∧ ((t.data d).phys = (s.data d).phys ∨
      ∃ p, s.accelPhys d = .ok p ∧ (t.data d).phys = some p) := by
  unfold Devices.allocRemote at run
  split at run
  · split_ifs at run
    · cases run
      exact ⟨Touched.refl s d, .inl rfl⟩
    · obtain ⟨p, phys, rest⟩ := bind_eq_ok.mp run
      obtain ⟨r, charge, last⟩ := bind_eq_ok.mp rest
      obtain ⟨placed, here⟩ := place_touched charge
      obtain ⟨malloc, same⟩ := cudaMalloc_touched (s := r) (d := d)
      cases last
      exact ⟨placed.trans malloc, .inr ⟨p, phys, same.trans here⟩⟩
  · obtain ⟨p, phys, charge⟩ := bind_eq_ok.mp run
    obtain ⟨placed, here⟩ := place_touched charge
    exact ⟨placed, .inr ⟨p, phys, here⟩⟩

theorem functorAlloc_touched {s t : Devices Unit} (run : functorAlloc th s d = .ok t) :
    Touched s t d ∧ ((t.data d).phys = (s.data d).phys ∨
      ∃ p, s.accelPhys d = .ok p ∧ (t.data d).phys = some p) := by
  unfold functorAlloc at run
  split at run
  · exact allocRemote_touched run
  · obtain ⟨p, phys, last⟩ := bind_eq_ok.mp run
    cases last
    exact ⟨Touched.setData rfl, .inr ⟨p, phys, by rw [Devices.setData_self]⟩⟩

theorem syncToRemote_touched (run : s.syncToRemote th d = .ok t) :
    Touched s t d ∧ (t.data d).phys = (s.data d).phys := by
  unfold Devices.syncToRemote at run
  split at run
  · split at run
    · split_ifs at run
      cases run
      exact ⟨Touched.refl s d, rfl⟩
    · split_ifs at run
      cases run
      exact ⟨Touched.throttle rfl rfl, rfl⟩
  · cases run
    exact ⟨Touched.refl s d, rfl⟩

/-- `sync_from_remote` and `free_remote`: the buffer is on no accelerator afterwards. -/
theorem evict_touched (run : (s.syncFromRemote th d >>= fun s => s.freeRemote th d) = .ok t) :
    Touched s t d ∧ (t.data d).phys = none := by
  obtain ⟨r, sync, free⟩ := bind_eq_ok.mp run
  unfold Devices.syncFromRemote at sync
  unfold Devices.freeRemote at free
  split at sync
  · next kind =>
    split at sync
    · cases sync
    · next x cell =>
      cases sync
      obtain ⟨ptr, remote, -⟩ := Option.bind_eq_some_iff.mp cell
      have kind' : (s.setData d { s.data d with buffer := x }).kind th = .gpu := kind
      have remote' : ((s.setData d { s.data d with buffer := x }).data d).remote = some ptr := by
        rw [Devices.setData_self]
        exact remote
      simp only [kind', remote'] at free
      obtain ⟨r, released, rest⟩ := bind_eq_ok.mp free
      obtain ⟨p, -, rest⟩ := bind_eq_ok.mp rest
      obtain ⟨u, credit, last⟩ := bind_eq_ok.mp rest
      obtain ⟨data, vaqPhys⟩ := accelSizeInc_parts credit
      unfold Devices.cudaFree at released
      split at released
      · cases released
      · cases released
        cases last
        have copied : Touched s (s.setData d { s.data d with buffer := x }) d :=
          Touched.setData rfl
        exact ⟨(copied.trans (Touched.throttle data vaqPhys)).trans (Touched.setData rfl),
          by rw [Devices.setData_self]⟩
  · next kind =>
    cases sync
    simp only [kind] at free
    obtain ⟨p, -, rest⟩ := bind_eq_ok.mp free
    obtain ⟨u, credit, last⟩ := bind_eq_ok.mp rest
    obtain ⟨data, vaqPhys⟩ := accelSizeInc_parts credit
    cases last
    have kept : Touched s u d := Touched.throttle data vaqPhys
    exact ⟨kept.trans (Touched.setData rfl), by rw [Devices.setData_self]⟩

theorem fromRemote_touched (run : fromRemote this s d = .ok t) :
    Touched s t d ∧ Settled this d t ∧
      ((t.data d).phys = (s.data d).phys ∨ (t.data d).phys = none) := by
  unfold fromRemote at run
  split at run
  · next nowhere =>
    cases run
    exact ⟨Touched.refl s d, .inl nowhere, .inl rfl⟩
  · next old here =>
    split_ifs at run with same
    · cases run
      exact ⟨Touched.refl s d, .inr (same ▸ here), .inl rfl⟩
    · obtain ⟨touched, nowhere⟩ := evict_touched run
      exact ⟨touched, .inl nowhere, .inr nowhere⟩

theorem toRemote_touched (run : toRemote this s d = .ok t) :
    Touched s t d ∧ ((t.data d).phys = (s.data d).phys ∨
      ∃ p, s.accelPhys d = .ok p ∧ (t.data d).phys = some p) := by
  unfold toRemote at run
  split_ifs at run
  · cases run
    exact ⟨Touched.refl s d, .inl rfl⟩
  · obtain ⟨r, alloc, sync⟩ := bind_eq_ok.mp run
    obtain ⟨first, phys⟩ := allocRemote_touched alloc
    obtain ⟨second, same⟩ := syncToRemote_touched sync
    rw [same]
    exact ⟨first.trans second, phys⟩

theorem accelPhys_some {p : Nat} (phys : s.accelPhys d = .ok p) :
    ∃ v, (s.data d).accel = some v ∧ s.vaqPhys v = some p := by
  unfold Devices.accelPhys at phys
  split at phys
  · cases phys
  · next _ found =>
    cases phys
    exact Option.bind_eq_some_iff.mp found

/-- Each buffer stays, leaves, or comes to the accelerator of its VAQ. -/
structure Settling (s t : Devices α) : Prop where
  vaqPhys : t.vaqPhys = s.vaqPhys
  accel : ∀ d, (t.data d).accel = (s.data d).accel
  phys : ∀ d, (t.data d).phys = (s.data d).phys ∨ (t.data d).phys = none ∨
    ∃ p, s.accelPhys d = .ok p ∧ (t.data d).phys = some p

theorem Settling.refl (s : Devices α) : Settling s s := ⟨rfl, fun _ => rfl, fun _ => .inl rfl⟩

theorem Settling.accelPhys (settling : Settling s t) (d : Nat) :
    t.accelPhys d = s.accelPhys d := by
  unfold Devices.accelPhys
  rw [settling.accel, settling.vaqPhys]

theorem Settling.trans (first : Settling s t) (second : Settling t u) : Settling s u := by
  refine ⟨second.vaqPhys.trans first.vaqPhys, fun d => (second.accel d).trans (first.accel d),
    fun d => ?_⟩
  obtain same | left | ⟨p, phys, here⟩ := second.phys d
  · rw [same]
    exact first.phys d
  · exact .inr (.inl left)
  · exact .inr (.inr ⟨p, (first.accelPhys d) ▸ phys, here⟩)

theorem Touched.settling (touched : Touched s t d)
    (phys : (t.data d).phys = (s.data d).phys ∨ (t.data d).phys = none ∨
      ∃ p, s.accelPhys d = .ok p ∧ (t.data d).phys = some p) : Settling s t := by
  refine ⟨touched.vaqPhys, fun e => ?_, fun e => ?_⟩
  · by_cases same : e = d
    · exact same ▸ touched.accel
    · rw [touched.others e same]
  · by_cases same : e = d
    · exact same ▸ phys
    · rw [touched.others e same]
      exact .inl rfl

theorem Touched.settled {e : Nat} (touched : Touched s t d) (here : Settled this d t)
    (before : Settled this e s) : Settled this e t := by
  by_cases same : e = d
  · exact same ▸ here
  · unfold Settled
    rw [touched.others e same]
    exact before

theorem migrateFromRemote_settling {io : List Nat} (run : migrateFromRemote this s io = .ok t) :
    Settling s t ∧ ∀ d ∈ io, Settled this d t := by
  have each : ∀ r d u, d ∈ io → Settling s r → fromRemote this r d = .ok u →
      Settling s u ∧ Settled this d u ∧ ∀ e, Settled this e r → Settled this e u := by
    intro r d u _ settling step
    obtain ⟨touched, settled, phys⟩ := fromRemote_touched step
    refine ⟨settling.trans (touched.settling ?_), settled, fun e => touched.settled settled⟩
    exact phys.imp id Or.inl
  exact foldlM_ok io each (Settling.refl s) run

theorem migrateToRemote_settling {io : List Nat} (mine : ∀ d ∈ io, s.accelPhys d = .ok this)
    (settled : ∀ d ∈ io, Settled this d s) (run : migrateToRemote this s io = .ok t) :
    Settling s t ∧ ∀ d ∈ io, Settled this d t := by
  have each : ∀ r d u, d ∈ io → (Settling s r ∧ ∀ d ∈ io, Settled this d r) →
      toRemote this r d = .ok u → Settling s u ∧ ∀ d ∈ io, Settled this d u := by
    rintro r d u member ⟨settling, settled⟩ step
    obtain ⟨touched, phys⟩ := toRemote_touched step
    have here : Settled this d u := by
      unfold Settled
      obtain same | ⟨p, place, here⟩ := phys
      · rw [same]
        exact settled d member
      · rw [settling.accelPhys, mine d member] at place
        cases place
        exact .inr here
    exact ⟨settling.trans (touched.settling (phys.imp id Or.inr)), fun e inside =>
      touched.settled here (settled e inside)⟩
  exact foldlM_keeps io each ⟨Settling.refl s, settled⟩ run

/-- After a migration no buffer of the task is on another accelerator. -/
theorem migrate_settling {io : List Nat} (mine : ∀ d ∈ io, s.accelPhys d = .ok this)
    (run : migrate this s io = .ok t) : Settling s t ∧ ∀ d ∈ io, Settled this d t := by
  obtain ⟨r, away, back⟩ := bind_eq_ok.mp run
  obtain ⟨first, settled⟩ := migrateFromRemote_settling away
  have mine' : ∀ d ∈ io, r.accelPhys d = .ok this :=
    fun d member => (first.accelPhys d).trans (mine d member)
  obtain ⟨second, settled'⟩ := migrateToRemote_settling mine' settled back
  exact ⟨first.trans second, settled'⟩

end Threads

/-! ### The condition -/

/-- The buffer is nowhere, or on the accelerator of the VAQ. -/
def HomeAt (s : ElasticState) (d vac : Nat) : Prop :=
  (s.devices.data d).phys = none ∨ (s.devices.data d).phys = s.sched.assignment.phys vac

/-- No buffer is shared between the VAQ and another one. -/
def Unshared (s : ElasticState) (vac : Nat) : Prop :=
  (∀ task ∈ s.sched.queue vac, ∀ d ∈ task.io, (s.devices.data d).accel = some vac) ∧
    ∀ other, other ≠ vac → ∀ task ∈ s.sched.queue other, ∀ d ∈ task.io,
      (s.devices.data d).accel ≠ some vac

/-- A task that `selectTask` returns has no buffer on another accelerator. -/
def BuffersHere (c : Config ElasticTask) (s : ElasticState) : ElasticMove → Prop
  | .selectTask accel => ∀ t task, elasticStep c s (.selectTask accel) = some t →
      t.workers accel = .execute task → ∀ d ∈ task.io,
        (t.devices.data d).phys = none ∨ (t.devices.data d).phys = some accel
  | _ => True

/-- A buffer that changes its VAQ is not away. VAQs that get another accelerator do not share
buffers, and a VAQ is moved only when the buffers of the one that was moved before have followed.
A worker takes tasks only of VAQs that it still has. -/
def MoveSettled (c : Config ElasticTask) (s : ElasticState) : ElasticMove → Prop
  | .taskIssue vac task => ∀ d ∈ task.io, ∀ old, (s.devices.data d).accel = some old →
      old ≠ vac → HomeAt s d old
  | .assign => ∀ vac, s.sched.assignment.getOrphan.1 = some vac → Unshared s vac ∧
      ∀ accel other mig, Moves c s.sched vac accel other mig → Unshared s mig ∧
        (mig ≠ s.sched.vaq4migration → ∀ d,
          (s.devices.data d).accel = some s.sched.vaq4migration →
            HomeAt s d s.sched.vaq4migration)
  | .selectTask accel => ∀ vac position, nextVaq s accel = some (vac, position) →
      s.sched.assignment.phys vac = some accel
  | _ => True

/-- A buffer of a queued task belongs to a VAQ of the same accelerator. -/
def BufferOf (s : ElasticState) (vac d : Nat) : Prop :=
  ∃ owner, (s.devices.data d).accel = some owner ∧
    s.sched.assignment.phys owner = s.sched.assignment.phys vac ∧ (owner ≠ vac → HomeAt s d owner)

/-- **The invariant.** -/
structure BufferInv (s : ElasticState) : Prop where
  shaped : Shaped s.sched.assignment
  unused : ∀ d, (s.devices.data d).accel = none → (s.devices.data d).phys = none
  home : ∀ d vac, (s.devices.data d).accel = some vac → vac ≠ s.sched.vaq4migration →
    HomeAt s d vac
  tasks : ∀ vac, ∀ task ∈ s.sched.queue vac, ∀ d ∈ task.io, BufferOf s vac d

section Steps

variable {c : Config ElasticTask} {s t : ElasticState} {vac accel d : Nat}

/-- Threads keep the buffers where they are, or bring them home. -/
theorem Settling.home {devices : Devices Unit} {owner : Nat} (settling : Settling s.seen devices)
    (mine : (s.devices.data d).accel = some owner) (before : HomeAt s d owner) :
    HomeAt { s with devices := devices } d owner := by
  obtain same | left | ⟨p, phys, here⟩ := settling.phys d
  · unfold HomeAt
    dsimp only
    rw [same]
    exact before
  · exact .inl left
  · right
    obtain ⟨v, mine', place⟩ := accelPhys_some phys
    cases mine.symm.trans mine'
    exact here.trans place.symm

/-- What threads do keeps the invariant. -/
theorem BufferInv.settling {devices : Devices Unit} (inv : BufferInv s)
    (settling : Settling s.seen devices) : BufferInv { s with devices := devices } := by
  refine ⟨inv.shaped, fun d free => ?_, fun d vac mine away => ?_,
    fun vac task queued d member => ?_⟩
  · have free' : (s.devices.data d).accel = none := (settling.accel d).symm.trans free
    obtain same | left | ⟨p, phys, -⟩ := settling.phys d
    · exact same.trans (inv.unused d free')
    · exact left
    · obtain ⟨v, mine, -⟩ := accelPhys_some phys
      cases free'.symm.trans mine
  · exact settling.home ((settling.accel d).symm.trans mine)
      (inv.home d vac ((settling.accel d).symm.trans mine) away)
  · obtain ⟨owner, mine, same, home⟩ := inv.tasks vac task queued d member
    exact ⟨owner, (settling.accel d).trans mine, same, fun other =>
      settling.home mine (home other)⟩

/-- A task is taken from a queue. -/
theorem BufferInv.queue (inv : BufferInv s) (queue : Nat → List ElasticTask)
    (fewer : ∀ vac, ∀ task ∈ queue vac, task ∈ s.sched.queue vac) :
    BufferInv { s with sched := { s.sched with queue := queue } } :=
  ⟨inv.shaped, inv.unused, inv.home,
    fun vac task queued => inv.tasks vac task (fewer vac task queued)⟩

/-- The buffers of a VAQ that is not remembered are where it is. -/
theorem BufferInv.here (inv : BufferInv s) (mine : s.sched.assignment.phys vac = some accel)
    (other : vac ≠ s.sched.vaq4migration) (buffer : BufferOf s vac d) :
    (s.devices.data d).phys = none ∨ (s.devices.data d).phys = some accel := by
  obtain ⟨owner, tagged, same, home⟩ := buffer
  have here : HomeAt s d owner := by
    by_cases own : owner = vac
    · exact inv.home d owner tagged (own ▸ other)
    · exact home own
  unfold HomeAt at here
  rw [same, mine] at here
  exact here

/-- The task that is selected finds its buffers. -/
theorem selectTask_here (inv : BufferInv s)
    (mine : ∀ vac position, nextVaq s accel = some (vac, position) →
      s.sched.assignment.phys vac = some accel)
    (step : selectTask s accel = some t) :
    BufferInv t ∧ ∀ task, t.workers accel = .execute task → ∀ d ∈ task.io,
      (t.devices.data d).phys = none ∨ (t.devices.data d).phys = some accel := by
  unfold selectTask at step
  split at step
  · cases step
    refine ⟨⟨inv.shaped, inv.unused, inv.home, inv.tasks⟩, fun task executes => ?_⟩
    have idle : (s.goto accel .update).workers accel = .update := Function.update_self ..
    rw [idle] at executes
    cases executes
  · next vac position found =>
    have owned := mine vac position found
    split at step
    · cases step
    · next first rest queue =>
      obtain ⟨devices, run, rfl⟩ := Option.map_eq_some_iff.mp step
      have run' := toOption_eq_some.mp run
      have queued : first ∈ s.sched.queue vac := queue ▸ List.mem_cons_self
      have after : Settling s.seen devices ∧ ∀ d ∈ first.io,
          (devices.data d).phys = none ∨ (devices.data d).phys = some accel := by
        split_ifs at run' with remembered
        · refine migrate_settling (fun d member => ?_) run'
          obtain ⟨owner, tagged, same, -⟩ := inv.tasks vac first queued d member
          exact Devices.accelPhys_of tagged (same.trans owned)
        · cases run'
          exact ⟨Settling.refl _, fun d member =>
            inv.here owned remembered (inv.tasks vac first queued d member)⟩
      have inv' := (inv.settling after.1).queue (Function.update s.sched.queue vac rest)
        fun v task member => by
          by_cases same : v = vac
          · subst same
            rw [Function.update_self] at member
            exact queue ▸ List.mem_cons_of_mem _ member
          · rw [Function.update_of_ne same] at member
            exact member
      refine ⟨⟨inv'.shaped, inv'.unused, inv'.home, inv'.tasks⟩, fun task executes => ?_⟩
      have same : (s.goto accel (.execute first)).workers accel = .execute first :=
        Function.update_self ..
      cases same.symm.trans executes
      exact after.2

/-- A buffer gets another VAQ of the same accelerator. -/
theorem BufferInv.retag (inv : BufferInv s) (home : HomeAt s d vac)
    (same : ∀ owner, (s.devices.data d).accel = some owner →
      s.sched.assignment.phys vac = s.sched.assignment.phys owner) :
    BufferInv { s with
      devices := s.seen.setData d { s.devices.data d with accel := some vac } } := by
  let r : Devices Unit := s.seen.setData d { s.devices.data d with accel := some vac }
  have here : r.data d = { s.devices.data d with accel := some vac } := Devices.setData_self _
  have others : ∀ e, e ≠ d → r.data e = s.devices.data e :=
    fun e other => Devices.setData_of_ne other _
  have phys : ∀ e, (r.data e).phys = (s.devices.data e).phys := by
    intro e
    by_cases at_ : e = d
    · rw [at_, here]
    · rw [others e at_]
  have kept : ∀ e owner, HomeAt s e owner → HomeAt { s with devices := r } e owner := by
    intro e owner before
    show (r.data e).phys = none ∨ (r.data e).phys = _
    rw [phys]
    exact before
  refine ⟨inv.shaped, fun e free => ?_, fun e w mine away => ?_, fun v task queued e member => ?_⟩
  · show (r.data e).phys = none
    change (r.data e).accel = none at free
    by_cases at_ : e = d
    · rw [at_, here] at free
      cases free
    · rw [others e at_] at free ⊢
      exact inv.unused e free
  · change (r.data e).accel = some w at mine
    by_cases at_ : e = d
    · subst at_
      rw [here] at mine
      cases mine
      exact kept e _ home
    · rw [others e at_] at mine
      exact kept e w (inv.home e w mine away)
  · obtain ⟨owner, mine, together, home'⟩ := inv.tasks v task queued e member
    by_cases at_ : e = d
    · subst at_
      exact ⟨vac, congrArg AraxData.accel here, (same owner mine).trans together,
        fun _ => kept e vac home⟩
    · exact ⟨owner, (congrArg AraxData.accel (others e at_)).trans mine, together,
        fun other => kept e owner (home' other)⟩

/-- `arax_data_migrate_accel` on a buffer that is not away. -/
theorem BufferInv.migrateAccel {devices : Devices Unit} (inv : BufferInv s)
    (mine : ∀ old, (s.devices.data d).accel = some old → old ≠ vac → HomeAt s d old)
    (step : migrateAccel s.seen vac d = some devices) :
    BufferInv { s with devices := devices } ∧ devices.vaqPhys = s.seen.vaqPhys ∧
      (devices.data d).accel = some vac ∧ ∀ e, e ≠ d → devices.data e = s.devices.data e := by
  unfold Controller.migrateAccel at step
  split at step
  · next free =>
    split_ifs at step
    cases step
    have nowhere : (s.devices.data d).phys = none := inv.unused d free
    refine ⟨inv.retag (.inl nowhere) fun owner tagged => ?_, rfl, ?_, fun e other =>
      Devices.setData_of_ne other _⟩
    · cases tagged.symm.trans free
    · rw [Devices.setData_self]
  · next old tagged =>
    split_ifs at step with own together
    · cases step
      exact ⟨inv.settling (Settling.refl _), rfl, own ▸ tagged, fun _ _ => rfl⟩
    · cases step
      have home : HomeAt s d vac := by
        obtain nowhere | here := mine old tagged own
        · exact .inl nowhere
        · exact .inr (here.trans together)
      refine ⟨inv.retag home fun owner tagged' => ?_, rfl, ?_, fun e other =>
        Devices.setData_of_ne other _⟩
      · cases tagged.symm.trans tagged'
        exact together.symm
      · rw [Devices.setData_self]

/-- The loops of `arax_task_alloc`: afterwards all buffers of the task are of its VAQ. -/
theorem BufferInv.issue {io : List Nat} {devices u : Devices Unit}
    (inv : BufferInv { s with devices := devices })
    (seen : devices.vaqPhys = s.sched.assignment.phys)
    (mine : ∀ d ∈ io, ∀ old, (devices.data d).accel = some old → old ≠ vac →
      HomeAt { s with devices := devices } d old)
    (run : io.foldlM (fun devices d => Controller.migrateAccel devices vac d) devices = some u) :
    BufferInv { s with devices := u } ∧ (∀ d ∈ io, (u.data d).accel = some vac) ∧
      ∀ d, (devices.data d).accel = some vac → (u.data d).accel = some vac := by
  induction io generalizing devices with
  | nil =>
    cases run
    exact ⟨inv, nofun, fun _ tagged => tagged⟩
  | cons d io ih =>
    rw [List.foldlM_cons] at run
    obtain ⟨r, step, rest⟩ := Option.bind_eq_some_iff.mp run
    have eta : ElasticState.seen { s with devices := devices } = devices := by
      unfold ElasticState.seen
      dsimp only
      rw [← seen]
    obtain ⟨inv', seen', tagged, others⟩ :=
      inv.migrateAccel (mine d List.mem_cons_self) (by rw [eta]; exact step)
    rw [eta] at seen'
    have mine' : ∀ e ∈ io, ∀ old, (r.data e).accel = some old → old ≠ vac →
        HomeAt { s with devices := r } e old := by
      intro e member old tagged' other
      by_cases at_ : e = d
      · subst at_
        exact absurd (Option.some.inj (tagged'.symm.trans tagged)) other
      · have same : r.data e = devices.data e := others e at_
        unfold HomeAt
        dsimp only
        rw [same] at tagged' ⊢
        exact mine e (List.mem_cons_of_mem _ member) old tagged' other
    obtain ⟨inv'', all, kept⟩ := ih inv' (seen'.trans seen) mine' rest
    refine ⟨inv'', fun e member => ?_, fun e before => kept e ?_⟩
    · rcases List.mem_cons.mp member with rfl | member
      · exact kept e tagged
      · exact all e member
    · by_cases at_ : e = d
      · exact at_ ▸ tagged
      · rw [show r.data e = devices.data e from others e at_]
        exact before

theorem taskIssue_inv {task : ElasticTask} (inv : BufferInv s)
    (mine : ∀ d ∈ task.io, ∀ old, (s.devices.data d).accel = some old → old ≠ vac → HomeAt s d old)
    (step : taskIssue s vac task = some t) : BufferInv t := by
  obtain ⟨devices, run, rfl⟩ := Option.map_eq_some_iff.mp step
  obtain ⟨inv', all, -⟩ := (inv.settling (Settling.refl s.seen)).issue rfl mine run
  refine ⟨inv'.shaped, inv'.unused, inv'.home, fun v other queued d member => ?_⟩
  change other ∈ Function.update s.sched.queue vac (s.sched.queue vac ++ [task]) v at queued
  by_cases same : v = vac
  · subst same
    rw [Function.update_self] at queued
    rcases List.mem_append.mp queued with old | new
    · exact inv'.tasks v other old d member
    · rw [List.mem_singleton.mp new] at member
      exact ⟨v, all d member, rfl, fun other => absurd rfl other⟩
  · rw [Function.update_of_ne same] at queued
    exact inv'.tasks v other queued d member

/-- VAQs that share no buffers get other accelerators. -/
theorem BufferInv.reassign {sched : SchedState ElasticTask} (inv : BufferInv s)
    (changed : Nat → Prop) (shaped : Shaped sched.assignment) (queue : sched.queue = s.sched.queue)
    (kept : ∀ v, ¬ changed v → sched.assignment.phys v = s.sched.assignment.phys v)
    (unshared : ∀ v, changed v → Unshared s v)
    (home : ∀ d w, (s.devices.data d).accel = some w → w ≠ sched.vaq4migration →
      HomeAt { s with sched := sched } d w) : BufferInv { s with sched := sched } := by
  refine ⟨shaped, inv.unused, home, fun v task queued d member => ?_⟩
  change task ∈ sched.queue v at queued
  rw [queue] at queued
  obtain ⟨owner, tagged, same, away⟩ := inv.tasks v task queued d member
  refine ⟨owner, tagged, ?_, fun other => ?_⟩
  · by_cases own : owner = v
    · rw [own]
    · have still : ¬ changed v := fun moves =>
        own (Option.some.inj (tagged.symm.trans ((unshared v moves).1 task queued d member)))
      have still' : ¬ changed owner := fun moves =>
        (unshared owner moves).2 v (Ne.symm own) task queued d member tagged
      exact (kept owner still').trans (same.trans (kept v still).symm)
  · have still : ¬ changed owner := fun moves =>
      (unshared owner moves).2 v (Ne.symm other) task queued d member tagged
    obtain nowhere | here := away other
    · exact .inl nowhere
    · exact .inr (here.trans (kept owner still).symm)

/-- A VAQ that had no accelerator has no buffers anywhere. -/
theorem HomeAt.reassign {sched : SchedState ElasticTask} (home : HomeAt s d vac)
    (kept : s.sched.assignment.phys vac = none ∨
      sched.assignment.phys vac = s.sched.assignment.phys vac) :
    HomeAt { s with sched := sched } d vac := by
  obtain nowhere | here := home
  · exact .inl nowhere
  · obtain free | same := kept
    · exact .inl (here.trans free)
    · exact .inr (here.trans same.symm)

theorem assign_inv {sched : SchedState ElasticTask} (inv : BufferInv s)
    (orphan : s.sched.assignment.getOrphan.1 = some vac) (unshared : Unshared s vac)
    (settled : ∀ accel other mig, Moves c s.sched vac accel other mig → Unshared s mig ∧
      (mig ≠ s.sched.vaq4migration → ∀ d,
        (s.devices.data d).accel = some s.sched.vaq4migration →
          HomeAt s d s.sched.vaq4migration))
    (run : assignVac .elastic c s.sched.getOrphan vac = .ok sched) :
    BufferInv { s with sched := sched } := by
  obtain ⟨same, -, a, accel, -, add, moved⟩ := assignVac_cases run
  have queue : sched.queue = s.sched.queue := by
    rw [same]
    rfl
  have free : s.sched.assignment.phys vac = none := inv.shaped.taken orphan
  have shaped : Shaped s.sched.getOrphan.assignment := inv.shaped.getOrphan
  obtain ⟨rfl, mark⟩ | ⟨-, other, b, moves, del, add'⟩ := moved
  · have kept : ∀ v, v ≠ vac → sched.assignment.phys v = s.sched.assignment.phys v :=
      fun v apart => (addVaccel_phys_other add apart).trans rfl
    refine inv.reassign (· = vac) (shaped.addVaccel add) queue kept (fun v => ?_)
      fun d w tagged away => ?_
    · rintro rfl
      exact unshared
    · rw [mark] at away
      refine (inv.home d w tagged away).reassign ?_
      by_cases new : w = vac
      · exact .inl (new ▸ free)
      · exact .inr (kept w new)
  · obtain ⟨unshared', settled⟩ := settled accel other sched.vaq4migration
      ⟨moves.here, moves.next, moves.found, moves.mine⟩
    have kept : ∀ v, ¬ (v = vac ∨ v = sched.vaq4migration) →
        sched.assignment.phys v = s.sched.assignment.phys v := by
      intro v apart
      rw [addVaccel_phys_other add fun same => apart (.inl same),
        addVaccel_phys_other add' fun same => apart (.inr same),
        delVaccel_phys_other del fun same => apart (.inr same)]
      rfl
    refine inv.reassign (fun v => v = vac ∨ v = sched.vaq4migration)
      (((shaped.delVaccel del).addVaccel add').addVaccel add) queue kept (fun v => ?_)
      fun d w tagged away => ?_
    · rintro (rfl | rfl)
      · exact unshared
      · exact unshared'
    · have home : HomeAt s d w := by
        by_cases remembered : w = s.sched.vaq4migration
        · subst remembered
          exact settled (Ne.symm away) d tagged
        · exact inv.home d w tagged remembered
      refine home.reassign ?_
      by_cases new : w = vac
      · exact .inl (new ▸ free)
      · exact .inr (kept w (not_or.mpr ⟨new, away⟩))

/-- `alloc_remote` for the outputs, and what the functor allocates. -/
theorem executeTask_settling {task : ElasticTask} {more : List Nat} {devices : Devices Unit}
    (run : executeTask s accel task more = .ok devices) : Settling s.seen devices := by
  obtain ⟨r, outs, functor⟩ := bind_eq_ok.mp run
  have first : Settling s.seen r := foldlM_keeps task.outs
    (fun u d t _ settling step => by
      obtain ⟨touched, phys⟩ := allocRemote_touched step
      exact settling.trans (touched.settling (phys.imp id Or.inr))) (Settling.refl _) outs
  exact foldlM_keeps more (fun u d t _ settling step => by
    obtain ⟨touched, phys⟩ := functorAlloc_touched step
    exact settling.trans (touched.settling (phys.imp id Or.inr))) first functor

end Steps

/-! ### Runs -/

section Runs

variable {c : Config ElasticTask} {s t : ElasticState} {move : ElasticMove}

theorem elasticStep_buffers (inv : BufferInv s) (guard : MoveSettled c s move)
    (step : elasticStep c s move = some t) : BufferInv t := by
  cases move with
  | orphan vac =>
    obtain ⟨sched, inner, rfl⟩ := Option.map_eq_some_iff.mp step
    simp only [schedStep] at inner
    split_ifs at inner with new
    obtain ⟨a, orphan, rfl⟩ := Option.map_eq_some_iff.mp inner
    obtain ⟨-, phys, -⟩ := addOrphan_cases orphan
    refine inv.reassign (fun _ => False) (inv.shaped.addOrphan new orphan) rfl
      (fun v _ => congrFun phys v) (fun _ moved => moved.elim) fun d w tagged away => ?_
    exact (inv.home d w tagged away).reassign (.inr (congrFun phys w))
  | taskIssue vac task => exact taskIssue_inv inv guard step
  | assign =>
    obtain ⟨sched, inner, rfl⟩ := Option.map_eq_some_iff.mp step
    obtain ⟨vac, orphan, run⟩ := Option.bind_eq_some_iff.mp inner
    obtain ⟨unshared, settled⟩ := guard vac orphan
    exact assign_inv inv orphan unshared settled (toOption_eq_some.mp run)
  | update accel =>
    simp only [elasticStep] at step
    split_ifs at step
    obtain ⟨sched, inner, rfl⟩ := Option.map_eq_some_iff.mp step
    unfold SchedState.updateVirtAccels at inner
    split_ifs at inner
    cases inner
    exact ⟨inv.shaped, inv.unused, inv.home, inv.tasks⟩
  | selectTask accel =>
    simp only [elasticStep] at step
    split_ifs at step
    exact (selectTask_here inv guard step).1
  | execute accel more =>
    simp only [elasticStep] at step
    cases place : s.workers accel with
    | update | select =>
      rw [place] at step
      cases step
    | execute task =>
      simp only [place] at step
      split_ifs at step
      obtain ⟨devices, run, rfl⟩ := Option.map_eq_some_iff.mp step
      have inv' := inv.settling (executeTask_settling (toOption_eq_some.mp run))
      exact ⟨inv'.shaped, inv'.unused, inv'.home, inv'.tasks⟩

theorem buffers_here (inv : BufferInv s) (guard : MoveSettled c s move) :
    BuffersHere c s move := by
  cases move with
  | selectTask accel =>
    intro t task step executes
    simp only [elasticStep] at step
    split_ifs at step
    exact (selectTask_here inv guard step).2 task executes
  | _ => trivial

/-- Data that no task has used. -/
def Unused (devices : Devices Unit) : Prop :=
  ∀ d, (devices.data d).accel = none ∧ (devices.data d).phys = none

theorem elasticStart_buffers {devices : Devices Unit} (unused : Unused devices) (m : Nat) :
    BufferInv (elasticStart c devices m) := by
  refine ⟨(schedStart_ok c m).shaped, fun d _ => (unused d).2, fun d w tagged _ => ?_,
    fun _ _ => nofun⟩
  cases (unused d).1.symm.trans tagged

/-- **Elastic scheduling and data.** In every run whose steps meet the condition, each task that
`selectTask` returns has its buffers on the accelerator of the worker or nowhere. -/
theorem elastic_buffers_here {devices : Devices Unit} (unused : Unused devices)
    (vaq4migration : Nat) (moves : List ElasticMove)
    (guarded : Guarded (elasticStep c) (MoveSettled c) (elasticStart c devices vaq4migration)
      moves) :
    Guarded (elasticStep c) (BuffersHere c) (elasticStart c devices vaq4migration) moves :=
  Guarded.imp BufferInv (fun _ _ inv guard => buffers_here inv guard)
    (fun _ _ _ inv guard step => elasticStep_buffers inv guard step)
    (elasticStart_buffers unused vaq4migration) guarded

theorem gpuMemory_unused : Unused gpuMemory := fun _ => ⟨rfl, rfl⟩

theorem elastic_buffers_here_at_twoGpus :
    Guarded (elasticStep twoGpus) (BuffersHere twoGpus) (elasticStart twoGpus gpuMemory 0)
      [.orphan 10, .assign, .taskIssue 10 { ins := [], outs := [0] }, .update 0,
        .selectTask 0, .execute 0 []] := by
  refine elastic_buffers_here gpuMemory_unused 0 _ ⟨trivial, fun s step => ?_⟩
  cases step
  refine ⟨fun vac orphan => ⟨⟨fun _ => nofun, fun _ _ _ => nofun⟩, fun accel other mig moves => ?_⟩,
    fun s step => ?_⟩
  · cases moves.found
  cases step
  refine ⟨fun d _ old tagged => ?_, fun s step => ?_⟩
  · cases tagged
  cases step
  refine ⟨trivial, fun s step => ?_⟩
  cases step
  refine ⟨fun vac position next => ?_, fun s step => ⟨trivial, fun _ _ => trivial⟩⟩
  cases next
  rfl

/-- **A buffer that is left behind.** The VAQ `10` is moved to the second GPU with a task in its
queue, and before the task is selected `11` is moved to the first one. Then the task runs on the
second GPU, and its buffer is on the first. -/
theorem elastic_buffer_left :
    ∃ s t, exec (elasticStep twoGpus) (elasticStart twoGpus gpuMemory 0)
        [.orphan 10, .taskIssue 10 { ins := [], outs := [0] }, .assign, .update 0, .selectTask 0,
          .execute 0 [], .orphan 11, .taskIssue 11 { ins := [], outs := [1] }, .assign, .update 1,
          .selectTask 1, .execute 1 [], .taskIssue 10 { ins := [0], outs := [] }, .orphan 12,
          .assign, .orphan 13, .assign, .update 1] = some s ∧
      elasticStep twoGpus s (.selectTask 1) = some t ∧
      t.workers 1 = .execute { ins := [0], outs := [] } ∧ (t.devices.data 0).phys = some 0 ∧
      ¬ BuffersHere twoGpus s (.selectTask 1) := by
  have view : ((exec (elasticStep twoGpus) (elasticStart twoGpus gpuMemory 0)
      [.orphan 10, .taskIssue 10 { ins := [], outs := [0] }, .assign, .update 0, .selectTask 0,
        .execute 0 [], .orphan 11, .taskIssue 11 { ins := [], outs := [1] }, .assign, .update 1,
        .selectTask 1, .execute 1 [], .taskIssue 10 { ins := [0], outs := [] }, .orphan 12,
        .assign, .orphan 13, .assign, .update 1]).bind fun s =>
          elasticStep twoGpus s (.selectTask 1)).map
        (fun t => (t.workers 1, (t.devices.data 0).phys)) =
      some (.execute { ins := [0], outs := [] }, some 0) := by decide
  obtain ⟨t, run, last⟩ := Option.map_eq_some_iff.mp view
  obtain ⟨s, before, step⟩ := Option.bind_eq_some_iff.mp run
  obtain ⟨executes, left⟩ := Prod.mk.inj last
  refine ⟨s, t, before, step, executes, left, fun good => ?_⟩
  have here := good t _ step executes 0 (by decide)
  rw [left] at here
  exact absurd here (by decide)

end Runs

end Arax.Controller
