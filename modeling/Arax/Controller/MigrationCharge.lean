/-
**Who pays for a migrated buffer (`controller/src/Core/accelThread.cpp`).**

`free_remote` gives the memory of a buffer back to `data->accel->phys`, and `alloc_remote` charges
it to the same place. When the loops of a migration run, the VAQ of the data is already assigned
to the new accelerator. So the old accelerator, which had been charged, gets nothing back, and the
new one gets back what it never paid.

* `bytes` — the sizes of the distinct buffers of a task that are in given places.
* `migrate_throttles` — what the two loops do to the throttles.
* `ChargeMoved` — the charge for what the old accelerator had moves to the new one.
* `charge_moved_iff` — it moves exactly if there was nothing to move.
* `charge_not_moved` — a migration after which the old accelerator is still charged.
-/

import Arax.Controller.Migration
import Arax.Lib.Holding

namespace Arax.Controller

open Arax.Lib

variable {α : Type}

/-- The sizes of the distinct buffers of `io` in the places `p`. -/
def bytes (s : Devices α) (io : List Nat) (p : Option Nat → Prop) [DecidablePred p] : Nat :=
  ∑ d ∈ io.toFinset, if p (s.data d).phys then (s.data d).size else 0

section Bytes

variable {s t : Devices α} {io : List Nat} {d : Nat} (p q : Option Nat → Prop) [DecidablePred p]
  [DecidablePred q]

/-- One buffer changed its place. -/
theorem bytes_change (member : d ∈ io) (others : ∀ e, e ≠ d → t.data e = s.data e)
    (size : (t.data d).size = (s.data d).size) :
    bytes t io p + (if p (s.data d).phys then (s.data d).size else 0) =
      bytes s io p + if p (t.data d).phys then (s.data d).size else 0 := by
  have change := sum_change
    (f := fun e => if p (s.data e).phys then (s.data e).size else 0)
    (g := fun e => if p (t.data e).phys then (t.data e).size else 0)
    (List.mem_toFinset.mpr member) fun e other => by
      show (if p (t.data e).phys then (t.data e).size else 0) = _
      rw [others e other]
  rw [size] at change
  exact change

theorem bytes_eq_zero (none_ : ∀ d ∈ io, ¬ p (s.data d).phys) : bytes s io p = 0 :=
  Finset.sum_eq_zero fun d member => if_neg (none_ d (List.mem_toFinset.mp member))

/-- Buffers that have a size are somewhere. -/
theorem bytes_eq_zero_iff (sized : ∀ d ∈ io, 0 < (s.data d).size) :
    bytes s io p = 0 ↔ ∀ d ∈ io, ¬ p (s.data d).phys := by
  refine ⟨fun zero d member here => ?_, bytes_eq_zero p⟩
  have term := Finset.sum_eq_zero_iff.mp zero d (List.mem_toFinset.mpr member)
  rw [if_pos here] at term
  exact Nat.ne_of_gt (sized d member) term

/-- Places of two kinds. -/
theorem bytes_add (apart : ∀ x, p x → ¬ q x) :
    bytes s io (fun x => p x ∨ q x) = bytes s io p + bytes s io q := by
  unfold bytes
  rw [← Finset.sum_add_distrib]
  refine Finset.sum_congr rfl fun d _ => ?_
  by_cases first : p (s.data d).phys
  · simp only [first, true_or, if_true, apart _ first, if_false, Nat.add_zero]
  · simp only [first, false_or, if_false, Nat.zero_add]

theorem bytes_congr (same : ∀ x, p x ↔ q x) : bytes s io p = bytes s io q :=
  Finset.sum_congr rfl fun _ _ => by simp only [same]

end Bytes

/-! ### The loops -/

/-- Other accelerators than the one that migrates. -/
abbrev Foreign (this : Nat) (x : Option Nat) : Prop := x ≠ none ∧ x ≠ some this

/-- Anywhere but on the accelerator that migrates. -/
abbrev Missing (this : Nat) (x : Option Nat) : Prop := x ≠ some this

section Loops

variable {s₀ s t : Devices α} {this v : Nat} {io : List Nat}

theorem evicted_available {d : Nat} : ((s.evicted this d).throttle this).available =
    (s.throttle this).available + (s.data d).size := by
  show (Function.update s.throttle this { s.throttle this with
    available := (s.throttle this).available + ((s.synced d).data d).size } this).available = _
  rw [Function.update_self, show (s.synced d).data d = _ from Devices.setData_self _]

theorem evicted_size {d : Nat} : ((s.evicted this d).data d).size = (s.data d).size := by
  rw [show (s.evicted this d).data d = _ from Devices.freed_self,
    show (s.synced d).data d = _ from Devices.setData_self _]

theorem loaded_throttle {d : Nat} : (s.loaded this d).throttle =
    Function.update s.throttle this
      { s.throttle this with available := (s.throttle this).available - (s.data d).size } := by
  unfold Devices.loaded
  split
  · rfl
  · rfl

theorem loaded_size {d : Nat} : ((s.loaded this d).data d).size = (s.data d).size := by
  unfold Devices.loaded
  split
  · show ((s.allocated this d).data d).size = _
    rw [Devices.allocated_self]
  · rw [Devices.placed_self]

/-- `migrateFromRemote` gives the memory of all foreign buffers back, to this accelerator. -/
theorem migrateFromRemote_throttles (assigned : s₀.vaqPhys v = some this)
    (carried : Carried s₀ s this v io) (run : migrateFromRemote this s io = .ok t) :
    Carried s₀ t this v io ∧ (∀ d ∈ io, Settled this d t) ∧
      (t.throttle this).available = (s.throttle this).available + bytes s io (Foreign this) ∧
      bytes t io (Missing this) = bytes s io (Missing this) ∧
      ∀ p, p ≠ this → t.throttle p = s.throttle p := by
  -- what was given back so far, and what there is to give back
  let inv (r : Devices α) : Prop := Carried s₀ r this v io ∧
    (r.throttle this).available + bytes r io (Foreign this) =
      (s.throttle this).available + bytes s io (Foreign this) ∧
    bytes r io (Missing this) = bytes s io (Missing this) ∧
    ∀ p, p ≠ this → r.throttle p = s.throttle p
  have each : ∀ r d, d ∈ io → inv r → fromRemote this r d = .error .throttle ∨
      ∃ t, fromRemote this r d = .ok t ∧ inv t ∧ Settled this d t ∧
        ∀ e, Settled this e r → Settled this e t := by
    rintro r d member ⟨carried, credit, missing, rest⟩
    obtain fails | ⟨t, run, carried', settled, keeps, ⟨-, rfl⟩ | ⟨unsettled, rfl⟩⟩ :=
      carried.fromRemote assigned member
    · exact .inl fails
    · exact .inr ⟨t, run, ⟨carried, credit, missing, rest⟩, settled, keeps⟩
    · have others : ∀ e, e ≠ d → (r.evicted this d).data e = r.data e := fun e other =>
        (Function.update_of_ne other _ _).trans (Devices.setData_of_ne other _)
      have nowhere : ((r.evicted this d).data d).phys = none :=
        congrArg AraxData.phys Devices.freed_self
      have foreign : Foreign this (r.data d).phys :=
        ⟨fun nowhere => unsettled (.inl nowhere), fun here => unsettled (.inr here)⟩
      have moved := bytes_change (Foreign this) member others evicted_size
      have moved' := bytes_change (Missing this) member others evicted_size
      rw [nowhere, if_pos foreign, if_neg fun foreign => foreign.1 rfl] at moved
      rw [nowhere, if_pos foreign.2, if_pos nofun] at moved'
      refine .inr ⟨_, run, ⟨carried', ?_, ?_, fun p other => ?_⟩, settled, keeps⟩
      · rw [evicted_available]
        omega
      · exact (Nat.add_right_cancel moved').trans missing
      · exact (Function.update_of_ne other _ _).trans (rest p other)
  obtain fails | ⟨u, run', ⟨carried', credit, missing, rest⟩, settled, -⟩ :=
    foldlM_settles io each s ⟨carried, rfl, rfl, fun _ _ => rfl⟩
  · cases run.symm.trans fails
  · cases Except.ok.inj (run.symm.trans run')
    have left : bytes t io (Foreign this) = 0 := by
      refine bytes_eq_zero _ fun d member foreign => ?_
      obtain nowhere | here := settled d member
      · exact foreign.1 nowhere
      · exact foreign.2 here
    rw [left, Nat.add_zero] at credit
    exact ⟨carried', settled, credit, missing, rest⟩

/-- `migrateToRemote` charges this accelerator for all buffers that it did not have. -/
theorem migrateToRemote_throttles (assigned : s₀.vaqPhys v = some this)
    (carried : Carried s₀ s this v io) (settled : ∀ d ∈ io, Settled this d s)
    (run : migrateToRemote this s io = .ok t) :
    (t.throttle this).available + bytes s io (Missing this) = (s.throttle this).available ∧
      ∀ p, p ≠ this → t.throttle p = s.throttle p := by
  -- what was charged so far, and what there is to charge
  let inv (r : Devices α) : Prop := Carried s₀ r this v io ∧ (∀ d ∈ io, Settled this d r) ∧
    (r.throttle this).available + bytes s io (Missing this) =
      (s.throttle this).available + bytes r io (Missing this) ∧
    ∀ p, p ≠ this → r.throttle p = s.throttle p
  have each : ∀ r d, d ∈ io → inv r → toRemote this r d = .error .throttle ∨
      ∃ t, toRemote this r d = .ok t ∧ inv t ∧ (t.data d).phys = some this ∧
        ∀ e, (r.data e).phys = some this → (t.data e).phys = some this := by
    rintro r d member ⟨carried, settled, charge, rest⟩
    obtain fails | ⟨t, run, carried', settled', here, keeps, ⟨-, rfl⟩ | ⟨away, enough, rfl⟩⟩ :=
      carried.toRemote assigned settled member
    · exact .inl fails
    · exact .inr ⟨t, run, ⟨carried, settled, charge, rest⟩, here, keeps⟩
    · have nowhere : (r.data d).phys = none := by
        obtain nowhere | here := settled d member
        · exact nowhere
        · exact absurd here away
      have others : ∀ e, e ≠ d → (r.loaded this d).data e = r.data e :=
        (loaded_moved (carried.placed d member) nowhere).others
      have moved := bytes_change (Missing this) member others loaded_size
      rw [nowhere, here, if_pos nofun, if_neg fun missing => missing rfl] at moved
      refine .inr ⟨_, run, ⟨carried', settled', ?_, fun p other => ?_⟩, here, keeps⟩
      · rw [loaded_throttle, Function.update_self]
        show (r.throttle this).available - (r.data d).size + _ = _
        omega
      · rw [loaded_throttle, Function.update_of_ne other]
        exact rest p other
  obtain fails | ⟨u, run', ⟨-, -, charge, rest⟩, here, -⟩ :=
    foldlM_settles io each s ⟨carried, settled, rfl, fun _ _ => rfl⟩
  · cases run.symm.trans fails
  · cases Except.ok.inj (run.symm.trans run')
    have left : bytes t io (Missing this) = 0 :=
      bytes_eq_zero _ fun d member missing => missing (here d member)
    rw [left, Nat.add_zero] at charge
    exact ⟨charge, rest⟩

/-- **What a migration does to the throttles.** Only this accelerator's changes, by the buffers that
no accelerator had. -/
theorem migrate_throttles (assigned : s.vaqPhys v = some this) (placed : ∀ d ∈ io, Placed s v d)
    (apart : Apart s io) (run : migrate this s io = .ok t) :
    (t.throttle this).available + bytes s io (· = none) = (s.throttle this).available ∧
      ∀ p, p ≠ this → t.throttle p = s.throttle p := by
  have start : Carried s s this v io := Carried.refl placed apart
  unfold migrate at run
  obtain fails | ⟨r, away, -⟩ := migrateFromRemote_carried assigned start
  · rw [fails] at run
    cases run
  rw [away] at run
  obtain ⟨carried, settled, credit, missing, rest⟩ :=
    migrateFromRemote_throttles assigned start away
  obtain ⟨charge, rest'⟩ := migrateToRemote_throttles assigned carried settled run
  have split : bytes s io (Missing this) = bytes s io (· = none) + bytes s io (Foreign this) := by
    rw [← bytes_add (· = none) (Foreign this) fun x nowhere foreign => foreign.1 nowhere]
    refine bytes_congr _ _ fun x => ?_
    by_cases nowhere : x = none
    · simp [nowhere]
    · simp [nowhere]
  refine ⟨?_, fun p other => (rest' p other).trans (rest p other)⟩
  rw [missing, split, credit] at charge
  omega

end Loops

/-! ### The charge -/

/-- `a` gets the charge for the buffers it had back, and `b` pays it. -/
def ChargeMoved (s t : Devices α) (io : List Nat) (a b : Nat) : Prop :=
  (t.throttle a).available = (s.throttle a).available + bytes s io (· = some a) ∧
    (t.throttle b).available + bytes s io (· = some a) = (s.throttle b).available ∧
    ∀ p, p ≠ a → p ≠ b → (t.throttle p).available = (s.throttle p).available

section Charge

variable {s t : Devices α} {a b v : Nat} {io : List Nat}

/-- **When the charge moves.** Exactly if the old accelerator has none of the buffers, and each of
them is on some accelerator. -/
theorem charge_moved_iff (moved : a ≠ b) (assigned : s.vaqPhys v = some b)
    (placed : ∀ d ∈ io, Placed s v d) (apart : Apart s io) (run : migrate b s io = .ok t) :
    ChargeMoved s t io a b ↔
      ∀ d ∈ io, (s.data d).phys ≠ some a ∧ (s.data d).phys ≠ none := by
  obtain ⟨charge, rest⟩ := migrate_throttles assigned placed apart run
  have sized : ∀ d ∈ io, 0 < (s.data d).size := fun d member => (placed d member).sized
  have old := bytes_eq_zero_iff (s := s) (p := (· = some a)) sized
  have nowhere := bytes_eq_zero_iff (s := s) (p := (· = none)) sized
  constructor
  · rintro ⟨credit, paid, -⟩
    rw [rest a moved] at credit
    have zero : bytes s io (· = some a) = 0 := by omega
    have zero' : bytes s io (· = none) = 0 := by omega
    exact fun d member => ⟨old.mp zero d member, nowhere.mp zero' d member⟩
  · intro elsewhere
    have zero := old.mpr fun d member => (elsewhere d member).1
    have zero' := nowhere.mpr fun d member => (elsewhere d member).2
    refine ⟨?_, ?_, fun p _ other => congrArg Throttle.available (rest p other)⟩
    · rw [rest a moved, zero, Nat.add_zero]
    · rw [zero, Nat.add_zero]
      rw [zero', Nat.add_zero] at charge
      exact charge

theorem charge_moved_iff_at_twoDevices : ChargeMoved twoDevices twoDevices [1] 0 1 :=
  (charge_moved_iff (v := 5) (by decide) rfl (fun d _ => twoDevices_placed d)
    (twoDevices_apart _) rfl).mpr (by decide)

/-- **The charge stays.** A buffer of four bytes moves from the CPU to the GPU, and neither throttle
changes. -/
theorem charge_not_moved :
    twoDevices.vaqPhys 5 = some 1 ∧ (∀ d ∈ [0], Placed twoDevices 5 d) ∧
      (twoDevices.data 0).phys = some 0 ∧
      ∃ t, migrate 1 twoDevices [0] = .ok t ∧ (t.data 0).phys = some 1 ∧
        (t.throttle 0).available = (twoDevices.throttle 0).available ∧
        (t.throttle 1).available = (twoDevices.throttle 1).available ∧
        ¬ ChargeMoved twoDevices t [0] 0 1 := by
  refine ⟨rfl, fun d _ => twoDevices_placed d, rfl, ?_⟩
  have view : (migrate 1 twoDevices [0]).toOption.map (fun t =>
      ((t.data 0).phys, (t.throttle 0).available, (t.throttle 1).available)) =
      some (some 1, 50, 50) := by decide
  cases run : migrate 1 twoDevices [0] with
  | error _ =>
    rw [run] at view
    cases view
  | ok t =>
    rw [run] at view
    obtain ⟨here, old, new⟩ : (t.data 0).phys = some 1 ∧ (t.throttle 0).available = 50 ∧
        (t.throttle 1).available = 50 := by simpa using Option.some.inj view
    refine ⟨t, rfl, here, old, new, fun moved => ?_⟩
    have credit := moved.1
    rw [old, show bytes twoDevices [0] (· = some 0) = 4 from rfl] at credit
    exact absurd credit (by decide)

end Charge

end Arax.Controller
