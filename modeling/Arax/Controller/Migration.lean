/-
**Migration (`controller/src/Core/accelThread.cpp`).**

Before the thread of an accelerator executes a task whose VAQ came from another accelerator, it
moves the buffers of the task: `migrateFromRemote` has the thread of the old accelerator copy them
to shared memory and free them there, `migrateToRemote` allocates them here and copies them back.

* `migrateFromRemote`, `migrateToRemote`, `migrate` — the loops, and one after the other.
* `Placed` — where a buffer is before: on an accelerator, with a copy if this is a GPU, or nowhere.
* `fromRemote_cases`, `toRemote_cases` — what one iteration does: nothing, or `evicted`, `loaded`.
* `Carried` — what holds of all buffers between two iterations.
* `migrate_preserves` — contents, and where the buffers are afterwards.
-/

import Arax.Controller.DeviceOps
import Arax.Lib.Loop

namespace Arax.Controller

open Arax.Lib

variable {α : Type}

/-- The body of the loop of `migrateFromRemote`. -/
def fromRemote (this : Nat) (s : Devices α) (d : Nat) : Except DeviceFault (Devices α) :=
  match (s.data d).phys with
  | none => .ok s
  | some oldTh =>
    if oldTh = this then .ok s
    else do
      let s ← s.syncFromRemote oldTh d
      s.freeRemote oldTh d

/-- The body of the loop of `migrateToRemote`. -/
def toRemote (this : Nat) (s : Devices α) (d : Nat) : Except DeviceFault (Devices α) :=
  if (s.data d).phys = some this then .ok s
  else do
    let s ← s.allocRemote this d
    s.syncToRemote this d

/-- `migrateFromRemote`. -/
def migrateFromRemote (this : Nat) (s : Devices α) (io : List Nat) :
    Except DeviceFault (Devices α) :=
  io.foldlM (fromRemote this) s

/-- `migrateToRemote`. -/
def migrateToRemote (this : Nat) (s : Devices α) (io : List Nat) :
    Except DeviceFault (Devices α) :=
  io.foldlM (toRemote this) s

/-- `th->migrateFromRemote(task); th->migrateToRemote(task)`. -/
def migrate (this : Nat) (s : Devices α) (io : List Nat) : Except DeviceFault (Devices α) := do
  let s ← migrateFromRemote this s io
  migrateToRemote this s io

/-- A buffer of the VAQ `v`. On a GPU it has memory there, elsewhere it has none. -/
structure Placed (s : Devices α) (v d : Nat) : Prop where
  accel : (s.data d).accel = some v
  sized : 0 < (s.data d).size
  onGpu : (s.data d).phys.map s.kind = some .gpu →
    ∃ ptr x, (s.data d).remote = some ptr ∧ s.memory.cell ptr = some x
  offGpu : (s.data d).phys.map s.kind ≠ some .gpu → (s.data d).remote = none

/-! ### One buffer -/

namespace Devices

/-- After `sync_from_remote`: what is current is in shared memory. -/
def synced (s : Devices α) (d : Nat) : Devices α :=
  s.setData d { s.data d with buffer := (s.contents d).getD (s.data d).buffer }

/-- After the thread of the old accelerator gave the buffer up. -/
def evicted (s : Devices α) (accel d : Nat) : Devices α := (s.synced d).freed accel d

/-- After the thread of the accelerator took the buffer. -/
def loaded (s : Devices α) (accel d : Nat) : Devices α :=
  match s.kind accel with
  | .gpu => { s.allocated accel d with memory := s.memory.alloc (s.data d).buffer }
  | .cpu => s.placed accel d

end Devices

section OneBuffer

variable {s : Devices α} {this v d : Nat}

theorem contents_onGpu (on : (s.data d).phys.map s.kind = some .gpu) :
    s.contents d = (s.data d).remote.bind s.memory.cell := by
  unfold Devices.contents
  rw [on]

theorem contents_offGpu (off : (s.data d).phys.map s.kind ≠ some .gpu) :
    s.contents d = some (s.data d).buffer := by
  unfold Devices.contents
  split
  · next on => exact absurd on off
  · rfl

theorem Placed.accelPhys (placed : Placed s v d) (assigned : s.vaqPhys v = some this) :
    s.accelPhys d = .ok this :=
  Devices.accelPhys_of placed.accel assigned

/-- Where the buffer is, in terms of the accelerator that has it. -/
theorem Placed.home {old : Nat} (placed : Placed s v d) (on : (s.data d).phys = some old) :
    s.kind old = .gpu ∧ (∃ ptr x, (s.data d).remote = some ptr ∧ s.memory.cell ptr = some x ∧
        s.contents d = some x) ∨
      s.kind old = .cpu ∧ (s.data d).remote = none ∧ s.contents d = some (s.data d).buffer := by
  cases kind : s.kind old with
  | gpu =>
    have there : (s.data d).phys.map s.kind = some .gpu := by rw [on, Option.map_some, kind]
    obtain ⟨ptr, x, remote, cell⟩ := placed.onGpu there
    refine .inl ⟨rfl, ptr, x, remote, cell, ?_⟩
    rw [contents_onGpu there, remote, Option.bind_some, cell]
  | cpu =>
    have elsewhere : (s.data d).phys.map s.kind ≠ some .gpu := by
      rw [on, Option.map_some, kind]
      nofun
    exact .inr ⟨rfl, placed.offGpu elsewhere, contents_offGpu elsewhere⟩

theorem syncFromRemote_eq {old : Nat} (placed : Placed s v d) (on : (s.data d).phys = some old) :
    s.syncFromRemote old d = .ok (s.synced d) := by
  unfold Devices.syncFromRemote Devices.synced
  obtain ⟨kind, ptr, x, remote, cell, copy⟩ | ⟨kind, -, copy⟩ := placed.home on
  · simp only [kind, remote, Option.bind_some, cell, copy, Option.getD_some]
  · simp only [kind, copy, Option.getD_some]
    exact congrArg Except.ok (Devices.setData_same s d).symm

theorem freeRemote_synced {old : Nat} (placed : Placed s v d) (assigned : s.vaqPhys v = some this)
    (on : (s.data d).phys = some old) :
    (s.synced d).freeRemote old d = .error .throttle ∨
      (s.synced d).freeRemote old d = .ok (s.evicted this d) := by
  have here : (s.synced d).data d =
      { s.data d with buffer := (s.contents d).getD (s.data d).buffer } := Devices.setData_self _
  have sized : 0 < ((s.synced d).data d).size := by
    rw [here]
    exact placed.sized
  have phys : (s.synced d).accelPhys d = .ok this := by
    refine Devices.accelPhys_of (v := v) ?_ assigned
    rw [here]
    exact placed.accel
  obtain ⟨kind, ptr, x, remote, cell, -⟩ | ⟨kind, remote, -⟩ := placed.home on
  · refine Devices.freeRemote_gpu kind ?_ cell phys sized
    rw [here]
    exact remote
  · refine Devices.freeRemote_cpu kind ?_ phys sized
    rw [here]
    exact remote

/-- What one iteration of `migrateFromRemote` does. -/
theorem fromRemote_cases (placed : Placed s v d) (assigned : s.vaqPhys v = some this) :
    fromRemote this s d = .error .throttle ∨
      ((s.data d).phys = none ∨ (s.data d).phys = some this) ∧ fromRemote this s d = .ok s ∨
      (∃ old, (s.data d).phys = some old ∧ old ≠ this) ∧
        fromRemote this s d = .ok (s.evicted this d) := by
  cases on : (s.data d).phys with
  | none =>
    refine .inr (.inl ⟨.inl rfl, ?_⟩)
    unfold fromRemote
    rw [on]
  | some old =>
    by_cases same : old = this
    · refine .inr (.inl ⟨.inr (congrArg some same), ?_⟩)
      unfold fromRemote
      rw [on]
      exact if_pos same
    · have body : fromRemote this s d =
          (s.syncFromRemote old d >>= fun s => s.freeRemote old d) := by
        unfold fromRemote
        rw [on]
        exact if_neg same
      rw [body, syncFromRemote_eq placed on]
      obtain fails | frees := freeRemote_synced placed assigned on
      · exact .inl fails
      · exact .inr (.inr ⟨⟨old, rfl, same⟩, frees⟩)

/-- What one iteration of `migrateToRemote` does, when no other accelerator has the buffer. -/
theorem toRemote_cases (placed : Placed s v d) (assigned : s.vaqPhys v = some this)
    (settled : (s.data d).phys = none ∨ (s.data d).phys = some this) :
    toRemote this s d = .error .throttle ∨
      (s.data d).phys = some this ∧ toRemote this s d = .ok s ∨
      (s.data d).phys = none ∧ (s.data d).size ≤ (s.throttle this).available ∧
        toRemote this s d = .ok (s.loaded this d) := by
  obtain nowhere | here := settled
  · have body : toRemote this s d =
        (s.allocRemote this d >>= fun s => s.syncToRemote this d) := by
      unfold toRemote
      rw [nowhere]
      exact if_neg nofun
    have remote : (s.data d).remote = none := placed.offGpu (by rw [nowhere]; nofun)
    have phys := placed.accelPhys assigned
    rw [body]
    unfold Devices.loaded
    cases kind : s.kind this with
    | gpu =>
      obtain fails | ⟨enough, allocates⟩ :=
        Devices.allocRemote_gpu kind remote phys placed.sized
      · left
        rw [fails]
        rfl
      · refine .inr (.inr ⟨nowhere, enough, ?_⟩)
        have pointer : ((s.allocated this d).data d).remote = some s.memory.next := by
          rw [Devices.allocated_self]
        have buffer : ((s.allocated this d).data d).buffer = (s.data d).buffer := by
          rw [Devices.allocated_self]
        have cell : (s.allocated this d).memory.cell s.memory.next = some s.garbage :=
          Heap.alloc_self
        rw [allocates]
        show Devices.syncToRemote this (s.allocated this d) d = _
        unfold Devices.syncToRemote
        rw [show (s.allocated this d).kind this = .gpu from kind]
        simp only [pointer, cell, Option.isSome_some, if_true, buffer]
        rw [show (s.allocated this d).memory.write s.memory.next (s.data d).buffer =
          s.memory.alloc (s.data d).buffer from Heap.alloc_write]
    | cpu =>
      obtain fails | ⟨enough, places⟩ := Devices.allocRemote_cpu kind phys placed.sized
      · left
        rw [fails]
        rfl
      · refine .inr (.inr ⟨nowhere, enough, ?_⟩)
        rw [places]
        show Devices.syncToRemote this (s.placed this d) d = _
        unfold Devices.syncToRemote
        rw [show (s.placed this d).kind this = .cpu from kind]
  · refine .inr (.inl ⟨here, ?_⟩)
    unfold toRemote
    exact if_pos here

end OneBuffer

/-! ### The other buffers -/

/-- The buffer `d` of the VAQ `v` moved from `s` to `t`, and nothing else changed. -/
structure Moved (s t : Devices α) (v d : Nat) : Prop where
  kind : t.kind = s.kind
  vaqPhys : t.vaqPhys = s.vaqPhys
  others : ∀ e, e ≠ d → t.data e = s.data e
  /-- Only the memory of the buffer itself may be freed. -/
  memory : ∀ ptr x, s.memory.cell ptr = some x → (s.data d).remote ≠ some ptr →
    t.memory.cell ptr = some x
  /-- The memory it has afterwards was not in use. -/
  fresh : ∀ ptr, (t.data d).remote = some ptr → s.memory.cell ptr = none
  placed : Placed t v d
  contents : t.contents d = s.contents d

section Moving

variable {s t : Devices α} {this v d : Nat}

theorem evicted_moved {old : Nat} (placed : Placed s v d) (on : (s.data d).phys = some old) :
    Moved s (s.evicted this d) v d := by
  have here : (s.evicted this d).data d =
      { s.data d with
        phys := none
        remote := none
        buffer := (s.contents d).getD (s.data d).buffer } := by
    refine Devices.freed_self.trans ?_
    rw [show (s.synced d).data d = _ from Devices.setData_self _]
  have pointer : ((s.synced d).data d).remote = (s.data d).remote := by
    rw [show (s.synced d).data d = _ from Devices.setData_self _]
  have away : ((s.evicted this d).data d).phys.map (s.evicted this d).kind ≠ some .gpu := by
    rw [here]
    nofun
  refine ⟨rfl, rfl, fun e other => ?_, fun ptr x cell other => ?_, fun ptr remote => ?_,
    ⟨?_, ?_, fun there => absurd there away, fun _ => ?_⟩, ?_⟩
  · exact (Function.update_of_ne other _ _).trans (Devices.setData_of_ne other _)
  · show (((s.synced d).data d).remote.elim s.memory s.memory.free).cell ptr = some x
    rw [pointer]
    cases remote : (s.data d).remote with
    | none => exact cell
    | some gone =>
      have away : ptr ≠ gone := fun same => other (remote.trans (congrArg some same.symm))
      exact (Heap.free_of_ne away).trans cell
  · rw [here] at remote
    cases remote
  · rw [here]
    exact placed.accel
  · rw [here]
    exact placed.sized
  · rw [here]
  · rw [contents_offGpu away, here]
    obtain ⟨-, ptr, x, -, -, copy⟩ | ⟨-, -, copy⟩ := placed.home on
    · rw [copy, Option.getD_some]
    · rw [copy, Option.getD_some]

theorem loaded_phys : ((s.loaded this d).data d).phys = some this := by
  unfold Devices.loaded
  split
  · exact congrArg AraxData.phys Devices.allocated_self
  · exact congrArg AraxData.phys Devices.placed_self

theorem loaded_moved (placed : Placed s v d) (nowhere : (s.data d).phys = none) :
    Moved s (s.loaded this d) v d := by
  have copy : s.contents d = some (s.data d).buffer :=
    contents_offGpu (by rw [nowhere]; nofun)
  unfold Devices.loaded
  cases kind : s.kind this with
  | gpu =>
    have here : (s.allocated this d).data d =
        { s.data d with phys := some this, remote := some s.memory.next } := Devices.allocated_self
    have there : ((s.allocated this d).data d).phys.map s.kind = some .gpu := by
      rw [here, Option.map_some, kind]
    refine ⟨rfl, rfl, fun e other => Function.update_of_ne other _ _, fun ptr x cell _ => ?_,
      fun ptr remote => ?_, ⟨?_, ?_, fun _ => ?_, fun off => absurd there off⟩, ?_⟩
    · exact Heap.alloc_of_some cell
    · have same : ptr = s.memory.next := by
        have fresh : AraxData.remote _ = some s.memory.next := congrArg AraxData.remote here
        rw [fresh] at remote
        exact (Option.some.inj remote).symm
      rw [same]
      exact s.memory.fresh _ (Nat.le_refl _)
    · exact (congrArg AraxData.accel here).trans placed.accel
    · exact (congrArg AraxData.size here).symm ▸ placed.sized
    · exact ⟨s.memory.next, (s.data d).buffer, congrArg AraxData.remote here, Heap.alloc_self⟩
    · rw [copy]
      refine (contents_onGpu (s := { s.allocated this d with
        memory := s.memory.alloc (s.data d).buffer }) there).trans ?_
      show ((s.allocated this d).data d).remote.bind (s.memory.alloc (s.data d).buffer).cell = _
      rw [here]
      exact Heap.alloc_self
  | cpu =>
    have here : (s.placed this d).data d = { s.data d with phys := some this } :=
      Devices.placed_self
    have off : ((s.placed this d).data d).phys.map (s.placed this d).kind ≠ some .gpu := by
      rw [here, Option.map_some, show (s.placed this d).kind this = .cpu from kind]
      nofun
    have remote : ((s.placed this d).data d).remote = none := by
      rw [here]
      exact placed.offGpu (by rw [nowhere]; nofun)
    refine ⟨rfl, rfl, fun e other => Function.update_of_ne other _ _, fun ptr x cell _ => cell,
      fun ptr some_ => ?_, ⟨?_, ?_, fun there => absurd there off, fun _ => remote⟩, ?_⟩
    · rw [remote] at some_
      cases some_
    · rw [here]
      exact placed.accel
    · rw [here]
      exact placed.sized
    · rw [copy, contents_offGpu off, here]

end Moving

/-! ### The loops -/

/-- No two of the buffers have the same memory. -/
def Apart (s : Devices α) (io : List Nat) : Prop :=
  ∀ d ∈ io, ∀ e ∈ io, d ≠ e → ∀ ptr, (s.data d).remote = some ptr → (s.data e).remote ≠ some ptr

/-- No other accelerator has the buffer. -/
def Settled (this d : Nat) (s : Devices α) : Prop :=
  (s.data d).phys = none ∨ (s.data d).phys = some this

/-- What holds between two iterations, in terms of the state before the first one. -/
structure Carried (s₀ s : Devices α) (this v : Nat) (io : List Nat) : Prop where
  kind : s.kind = s₀.kind
  vaqPhys : s.vaqPhys = s₀.vaqPhys
  placed : ∀ d ∈ io, Placed s v d
  apart : Apart s io
  contents : ∀ d ∈ io, s.contents d = s₀.contents d
  here : ∀ d ∈ io, (s₀.data d).phys = some this → s.data d = s₀.data d
  others : ∀ d, d ∉ io → s.data d = s₀.data d
  foreign : ∀ ptr x, s₀.memory.cell ptr = some x → (∀ d ∈ io, (s₀.data d).remote ≠ some ptr) →
    s.memory.cell ptr = some x ∧ ∀ d ∈ io, (s.data d).remote ≠ some ptr

section Loops

variable {s₀ s t : Devices α} {this v d : Nat} {io : List Nat}

theorem Carried.refl (placed : ∀ d ∈ io, Placed s v d) (apart : Apart s io) :
    Carried s s this v io :=
  ⟨rfl, rfl, placed, apart, fun _ _ => rfl, fun _ _ _ => rfl, fun _ _ => rfl,
    fun _ _ cell others => ⟨cell, others⟩⟩

/-- A buffer that does not move keeps its place. -/
theorem Moved.rest {e : Nat} (moved : Moved s t v d) (placed : Placed s v e) (other : e ≠ d)
    (apart : ∀ ptr, (s.data d).remote = some ptr → (s.data e).remote ≠ some ptr) :
    Placed t v e ∧ t.contents e = s.contents e := by
  have same := moved.others e other
  have on : (t.data e).phys.map t.kind = (s.data e).phys.map s.kind := by
    rw [same, moved.kind]
  have kept : ∀ ptr x, (s.data e).remote = some ptr → s.memory.cell ptr = some x →
      t.memory.cell ptr = some x :=
    fun ptr x remote cell => moved.memory ptr x cell fun owner => apart ptr owner remote
  refine ⟨⟨same ▸ placed.accel, same ▸ placed.sized, fun there => ?_, fun off => ?_⟩, ?_⟩
  · obtain ⟨ptr, x, remote, cell⟩ := placed.onGpu (on ▸ there)
    exact ⟨ptr, x, same ▸ remote, kept ptr x remote cell⟩
  · rw [same]
    exact placed.offGpu (on ▸ off)
  · by_cases there : (s.data e).phys.map s.kind = some .gpu
    · obtain ⟨ptr, x, remote, cell⟩ := placed.onGpu there
      rw [contents_onGpu there, contents_onGpu (on.trans there), same, remote, Option.bind_some,
        Option.bind_some, cell, kept ptr x remote cell]
    · rw [contents_offGpu there, contents_offGpu (on ▸ there), same]

theorem Carried.moved (carried : Carried s₀ s this v io) (member : d ∈ io)
    (moved : Moved s t v d) (away : (s.data d).phys ≠ some this) : Carried s₀ t this v io := by
  have fresh : ∀ ptr x, s.memory.cell ptr = some x → (t.data d).remote ≠ some ptr := by
    intro ptr x cell remote
    rw [moved.fresh ptr remote] at cell
    cases cell
  -- the memory of a buffer that stays is in use, so it is not what the moved buffer was given
  have held : ∀ e ∈ io, ∀ ptr, (s.data e).remote = some ptr → ∃ x, s.memory.cell ptr = some x := by
    intro e inside ptr remote
    by_cases there : (s.data e).phys.map s.kind = some .gpu
    · obtain ⟨ptr', x, remote', cell⟩ := (carried.placed e inside).onGpu there
      cases remote.symm.trans remote'
      exact ⟨x, cell⟩
    · rw [(carried.placed e inside).offGpu there] at remote
      cases remote
  have rest : ∀ e ∈ io, e ≠ d → Placed t v e ∧ t.contents e = s.contents e := fun e inside other =>
    moved.rest (carried.placed e inside) other (carried.apart d member e inside (Ne.symm other))
  refine ⟨moved.kind.trans carried.kind, moved.vaqPhys.trans carried.vaqPhys,
    fun e inside => ?_, fun e inside f inside' other ptr remote => ?_, fun e inside => ?_,
    fun e inside at_ => ?_, fun e outside => ?_, fun ptr x cell apart => ?_⟩
  · by_cases same : e = d
    · exact same ▸ moved.placed
    · exact (rest e inside same).1
  · by_cases same : e = d
    · subst same
      rw [moved.others f (Ne.symm other)]
      intro owner
      obtain ⟨x, cell⟩ := held f inside' ptr owner
      exact fresh ptr x cell remote
    · rw [moved.others e same] at remote
      by_cases same' : f = d
      · subst same'
        obtain ⟨x, cell⟩ := held e inside ptr remote
        exact fresh ptr x cell
      · rw [moved.others f same']
        exact carried.apart e inside f inside' other ptr remote
  · by_cases same : e = d
    · rw [same, moved.contents]
      exact carried.contents d member
    · rw [(rest e inside same).2]
      exact carried.contents e inside
  · by_cases same : e = d
    · subst same
      exact absurd ((carried.here e inside at_).symm ▸ at_) away
    · rw [moved.others e same]
      exact carried.here e inside at_
  · rw [moved.others e fun same => outside (same ▸ member)]
    exact carried.others e outside
  · obtain ⟨cell', apart'⟩ := carried.foreign ptr x cell apart
    refine ⟨moved.memory ptr x cell' (apart' d member), fun e inside => ?_⟩
    by_cases same : e = d
    · exact same ▸ fresh ptr x cell'
    · rw [moved.others e same]
      exact apart' e inside

/-- One iteration of `migrateFromRemote`: nothing to do, or the buffer comes to shared memory. -/
theorem Carried.fromRemote (assigned : s₀.vaqPhys v = some this)
    (carried : Carried s₀ s this v io) (member : d ∈ io) :
    fromRemote this s d = .error .throttle ∨
      ∃ t, fromRemote this s d = .ok t ∧ Carried s₀ t this v io ∧ Settled this d t ∧
        (∀ e, Settled this e s → Settled this e t) ∧
        (Settled this d s ∧ t = s ∨ ¬ Settled this d s ∧ t = s.evicted this d) := by
  have assigned' : s.vaqPhys v = some this := carried.vaqPhys ▸ assigned
  obtain fails | ⟨settled, run⟩ | ⟨⟨old, on, other⟩, run⟩ :=
    fromRemote_cases (carried.placed d member) assigned'
  · exact .inl fails
  · exact .inr ⟨s, run, carried, settled, fun _ kept => kept, .inl ⟨settled, rfl⟩⟩
  · have moved : Moved s (s.evicted this d) v d := evicted_moved (carried.placed d member) on
    have unsettled : ¬ Settled this d s := by
      rintro (nowhere | here)
      · cases on.symm.trans nowhere
      · exact other (Option.some.inj (on.symm.trans here))
    have nowhere : ((s.evicted this d).data d).phys = none :=
      congrArg AraxData.phys Devices.freed_self
    refine .inr ⟨_, run, carried.moved member moved fun here => unsettled (.inr here),
      .inl nowhere, fun e settled => ?_, .inr ⟨unsettled, rfl⟩⟩
    by_cases same : e = d
    · subst same
      exact .inl nowhere
    · unfold Settled
      rw [moved.others e same]
      exact settled

/-- One iteration of `migrateToRemote`: nothing to do, or the buffer comes to the accelerator. -/
theorem Carried.toRemote (assigned : s₀.vaqPhys v = some this)
    (carried : Carried s₀ s this v io) (settled : ∀ d ∈ io, Settled this d s) (member : d ∈ io) :
    toRemote this s d = .error .throttle ∨
      ∃ t, toRemote this s d = .ok t ∧ Carried s₀ t this v io ∧ (∀ d ∈ io, Settled this d t) ∧
        (t.data d).phys = some this ∧
        (∀ e, (s.data e).phys = some this → (t.data e).phys = some this) ∧
        ((s.data d).phys = some this ∧ t = s ∨ (s.data d).phys ≠ some this ∧
          (s.data d).size ≤ (s.throttle this).available ∧ t = s.loaded this d) := by
  have assigned' : s.vaqPhys v = some this := carried.vaqPhys ▸ assigned
  obtain fails | ⟨here, run⟩ | ⟨nowhere, enough, run⟩ :=
    toRemote_cases (carried.placed d member) assigned' (settled d member)
  · exact .inl fails
  · exact .inr ⟨s, run, carried, settled, here, fun _ kept => kept, .inl ⟨here, rfl⟩⟩
  · have moved : Moved s (s.loaded this d) v d :=
      loaded_moved (carried.placed d member) nowhere
    have away : (s.data d).phys ≠ some this := by
      rw [nowhere]
      nofun
    have here : ((s.loaded this d).data d).phys = some this := loaded_phys
    refine .inr ⟨_, run, carried.moved member moved away, fun e inside => ?_, here,
      fun e there => ?_, .inr ⟨away, enough, rfl⟩⟩
    · by_cases same : e = d
      · subst same
        exact .inr here
      · unfold Settled
        rw [moved.others e same]
        exact settled e inside
    · by_cases same : e = d
      · subst same
        exact here
      · rw [moved.others e same]
        exact there

end Loops

/-! ### Both loops -/

section Whole

variable {s : Devices α} {this v : Nat} {io : List Nat}

/-- `migrateFromRemote` leaves no buffer on another accelerator. -/
theorem migrateFromRemote_carried {s₀ : Devices α} (assigned : s₀.vaqPhys v = some this)
    (carried : Carried s₀ s this v io) :
    migrateFromRemote this s io = .error .throttle ∨
      ∃ t, migrateFromRemote this s io = .ok t ∧ Carried s₀ t this v io ∧
        ∀ d ∈ io, Settled this d t := by
  have each : ∀ s d, d ∈ io → Carried s₀ s this v io →
      fromRemote this s d = .error .throttle ∨ ∃ t, fromRemote this s d = .ok t ∧
        Carried s₀ t this v io ∧ Settled this d t ∧ ∀ e, Settled this e s → Settled this e t := by
    intro s d member carried
    obtain fails | ⟨t, run, carried', settled, keeps, -⟩ := carried.fromRemote assigned member
    · exact .inl fails
    · exact .inr ⟨t, run, carried', settled, keeps⟩
  obtain fails | ⟨t, run, carried', settled, -⟩ := foldlM_settles io each s carried
  · exact .inl fails
  · exact .inr ⟨t, run, carried', settled⟩

/-- `migrateToRemote` brings them all to this one. -/
theorem migrateToRemote_carried {s₀ : Devices α} (assigned : s₀.vaqPhys v = some this)
    (carried : Carried s₀ s this v io) (settled : ∀ d ∈ io, Settled this d s) :
    migrateToRemote this s io = .error .throttle ∨
      ∃ t, migrateToRemote this s io = .ok t ∧ Carried s₀ t this v io ∧
        ∀ d ∈ io, (t.data d).phys = some this := by
  have each : ∀ s d, d ∈ io → (Carried s₀ s this v io ∧ ∀ d ∈ io, Settled this d s) →
      toRemote this s d = .error .throttle ∨ ∃ t, toRemote this s d = .ok t ∧
        (Carried s₀ t this v io ∧ ∀ d ∈ io, Settled this d t) ∧ (t.data d).phys = some this ∧
        ∀ e, (s.data e).phys = some this → (t.data e).phys = some this := by
    rintro s d member ⟨carried, settled⟩
    obtain fails | ⟨t, run, carried', settled', here, keeps, -⟩ :=
      carried.toRemote assigned settled member
    · exact .inl fails
    · exact .inr ⟨t, run, ⟨carried', settled'⟩, here, keeps⟩
  obtain fails | ⟨t, run, ⟨carried', -⟩, here, -⟩ := foldlM_settles io each s ⟨carried, settled⟩
  · exact .inl fails
  · exact .inr ⟨t, run, carried', here⟩

/-- **Migration keeps the contents, and moves every buffer.** The only calls that may not return are
those of the throttle. -/
theorem migrate_preserves (assigned : s.vaqPhys v = some this) (placed : ∀ d ∈ io, Placed s v d)
    (apart : Apart s io) :
    migrate this s io = .error .throttle ∨
      ∃ t, migrate this s io = .ok t ∧
        (∀ d ∈ io, (t.data d).phys = some this ∧ t.contents d = s.contents d) ∧
        (∀ d ∈ io, (s.data d).phys = some this → t.data d = s.data d) ∧
        (∀ d, d ∉ io → t.data d = s.data d) ∧
        (∀ ptr x, s.memory.cell ptr = some x → (∀ d ∈ io, (s.data d).remote ≠ some ptr) →
          t.memory.cell ptr = some x) := by
  have start : Carried s s this v io := Carried.refl placed apart
  unfold migrate
  obtain fails | ⟨t, away, carried, settled⟩ := migrateFromRemote_carried assigned start
  · left
    rw [fails]
    rfl
  rw [away]
  obtain fails | ⟨u, back, carried', here⟩ := migrateToRemote_carried assigned carried settled
  · exact .inl fails
  · refine .inr ⟨u, back, fun d member => ⟨here d member, carried'.contents d member⟩,
      carried'.here, carried'.others, fun ptr x cell others => ?_⟩
    exact (carried'.foreign ptr x cell others).1

/-- A CPU with number `0` and a GPU with number `1`, which has the VAQ `5`. The first buffer is on
the CPU, the second one on the GPU, and the third one nowhere. -/
def twoDevices : Devices Nat where
  kind := fun p => if p = 0 then .cpu else .gpu
  throttle := fun _ => { available := 50, capacity := 100 }
  vaqPhys := fun v => if v = 5 then some 1 else none
  data := fun d =>
    { size := 4
      refCount := 1
      accel := some 5
      phys := if d = 0 then some 0 else if d = 1 then some 1 else none
      remote := if d = 1 then some 0 else none
      othrRemt := false
      buffer := 10 + d }
  memory := Heap.empty.alloc 20
  garbage := 0
  charges := fun _ => 0

theorem twoDevices_placed (d : Nat) : Placed twoDevices 5 d := by
  refine ⟨rfl, Nat.zero_lt_succ 3, fun there => ?_, fun off => ?_⟩
  · by_cases first : d = 0
    · subst first
      cases there
    · by_cases second : d = 1
      · subst second
        exact ⟨0, 20, rfl, rfl⟩
      · simp [twoDevices, first, second] at there
  · by_cases second : d = 1
    · subst second
      exact absurd rfl off
    · simp [twoDevices, second]

theorem twoDevices_apart (io : List Nat) : Apart twoDevices io := by
  intro d _ e _ other ptr remote remote'
  have owner : ∀ d, (twoDevices.data d).remote = some ptr → d = 1 := by
    intro d remote
    by_contra away
    simp [twoDevices, away] at remote
  exact other ((owner d remote).trans (owner e remote').symm)

theorem migrate_preserves_at_twoDevices :
    ∃ t, migrate 1 twoDevices [0, 1, 2, 0] = .ok t ∧ t.contents 0 = some 10 ∧
      t.contents 1 = some 20 ∧ (t.data 2).phys = some 1 := by
  have assigned : twoDevices.vaqPhys 5 = some 1 := rfl
  obtain fails | ⟨t, run, all, -⟩ := migrate_preserves assigned
    (fun d _ => twoDevices_placed d) (twoDevices_apart [0, 1, 2, 0])
  · have returns : (migrate 1 twoDevices [0, 1, 2, 0]).toOption.isSome = true := by decide
    rw [fails] at returns
    cases returns
  · exact ⟨t, run, (all 0 (by decide)).2, (all 1 (by decide)).2, (all 2 (by decide)).1⟩

end Whole

end Arax.Controller
