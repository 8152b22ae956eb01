/-
**Processes that attach to the segment and leave it (`src/core/arax_pipe.c`).**

`arax_pipe_init` counts the process first. Then it may still return `NULL`: the revision of the
binary may differ from the one in the segment, or the first process may pass a size that is too
small for the allocator. Neither return takes the count back. `arax_pipe_exit` reads from the count
whether the process was the last one.

A run is a sequence of calls: a process that is not attached calls `arax_pipe_init`, one that is
calls `arax_pipe_exit`.

* `attach_ledger` — the count is the number of attached processes and of rejected calls.
* `attach_counted_iff` — so it is the number of attached processes exactly if no call is rejected.
-/

import Arax.Core.PipeInit

namespace Arax.Core

open Arax.Lib

/-- The segment between the calls, and the processes. -/
structure AttachState where
  /-- `pipe->processes`: a process id is an `int`, so the 64-bit count does not wrap. -/
  processes : Nat
  /-- `pipe->sha`, `none` while its first byte is zero. -/
  sha : Option (Char × List Char)
  /-- The allocator is initialised, and not destroyed. -/
  allocator : Bool
  /-- The processes whose `arax_pipe_init` returned the pipe and that have not left. -/
  attached : List Nat
  /-- The calls of `arax_pipe_init` that returned `NULL`. -/
  rejected : Nat

/-- A zeroed segment. -/
def attachInit : AttachState where
  processes := 0
  sha := none
  allocator := false
  attached := []
  rejected := 0

/-- A call. -/
inductive AttachCall where
  | init (process : Nat) (client : PipeClient)
  | exit (process : Nat)

/-- `arax_pipe_init`, and whether it returns the pipe. -/
def araxPipeAttach (client : PipeClient) (s : AttachState) : AttachState × Bool :=
  let value := s.processes
  let s := { s with processes := value + 1 }
  if value ≠ 0 then
    if s.sha ≠ some (client.first, client.rest) ∧ client.enforceVersion then (s, false)
    else (s, true)
  else
    let s := { s with sha := some (client.first, client.stored) }
    if client.allocates = false then (s, false) else ({ s with allocator := true }, true)

/-- `arax_pipe_exit`, and whether the process was the last one. -/
def araxPipeExit (s : AttachState) : AttachState × Bool :=
  let value := s.processes
  let s := { s with processes := s.processes - 1 }
  if value = 1 then ({ s with allocator := false }, true) else (s, false)

/-- The call, by a process that may make it. -/
def attachStep (s : AttachState) : AttachCall → Option AttachState
  | .init process client =>
    if process ∈ s.attached then none
    else
      match araxPipeAttach client s with
      | (next, true) => some { next with attached := process :: next.attached }
      | (next, false) => some { next with rejected := next.rejected + 1 }
  | .exit process =>
    if process ∈ s.attached then
      some { (araxPipeExit s).1 with attached := s.attached.erase process }
    else none

/-- **The count is right,** and an attached process that leaves is told that it is the last one
exactly if it is, which is when the allocator is destroyed. -/
structure AttachCounted (s : AttachState) : Prop where
  count : s.processes = s.attached.length
  last : ∀ process ∈ s.attached,
    ((araxPipeExit s).2 = true ↔ s.attached = [process]) ∧
      (araxPipeExit s).1.allocator = (s.allocator && !(araxPipeExit s).2)

/-- **The condition on a call.** The first process passes a size that the allocator accepts, and any
other one finds its own revision in the segment, or does not insist on it. -/
def Attachable (s : AttachState) : AttachCall → Prop
  | .init _ client =>
    if s.processes = 0 then client.allocates = true
    else s.sha = some (client.first, client.rest) ∨ client.enforceVersion = false
  | .exit _ => True

instance (s : AttachState) : (call : AttachCall) → Decidable (Attachable s call)
  | .init _ _ => by unfold Attachable; infer_instance
  | .exit _ => isTrue trivial

/-! ### The ledger -/

/-- The count is the number of attached processes and of rejected calls. -/
structure AttachLedger (s : AttachState) : Prop where
  count : s.processes = s.attached.length + s.rejected
  nodup : s.attached.Nodup

/-- What `arax_pipe_init` does to the count, and when it returns the pipe. -/
theorem araxPipeAttach_spec (client : PipeClient) (s : AttachState) (process : Nat) :
    (araxPipeAttach client s).1.processes = s.processes + 1 ∧
      (araxPipeAttach client s).1.attached = s.attached ∧
      (araxPipeAttach client s).1.rejected = s.rejected ∧
      ((araxPipeAttach client s).2 = true ↔ Attachable s (.init process client)) := by
  unfold araxPipeAttach Attachable
  by_cases first : s.processes = 0
  · simp only [first, ne_eq, not_true_eq_false, if_false, if_true]
    cases client.allocates <;> simp
  · simp only [first, ne_eq, not_false_eq_true, if_true, if_false]
    split_ifs with mismatch
    · refine ⟨rfl, rfl, rfl, iff_of_false id ?_⟩
      rintro (same | lax)
      · exact mismatch.1 same
      · rw [lax] at mismatch
        exact Bool.false_ne_true mismatch.2
    · refine ⟨rfl, rfl, rfl, iff_of_true rfl ?_⟩
      by_contra neither
      obtain ⟨differs, enforces⟩ := not_or.mp neither
      exact mismatch ⟨differs, Bool.not_eq_false _ ▸ enforces⟩

/-- What `arax_pipe_exit` does. -/
theorem araxPipeExit_spec (s : AttachState) :
    (araxPipeExit s).1.processes = s.processes - 1 ∧ (araxPipeExit s).1.rejected = s.rejected ∧
      ((araxPipeExit s).2 = true ↔ s.processes = 1) ∧
      (araxPipeExit s).1.allocator = (s.allocator && !(araxPipeExit s).2) := by
  simp only [araxPipeExit]
  split_ifs with last
  · exact ⟨rfl, rfl, iff_of_true rfl last, (Bool.and_false _).symm⟩
  · exact ⟨rfl, rfl, iff_of_false id last, (Bool.and_true _).symm⟩

/-- With the ledger, the count is right exactly if no call was rejected. -/
theorem AttachLedger.counted_iff {s : AttachState} (ledger : AttachLedger s) :
    AttachCounted s ↔ s.rejected = 0 := by
  constructor
  · intro counted
    have count := counted.count
    have total := ledger.count
    omega
  · intro none
    have count : s.processes = s.attached.length := by rw [ledger.count, none, Nat.add_zero]
    refine ⟨count, fun process member => ?_⟩
    obtain ⟨-, -, last, destroyed⟩ := araxPipeExit_spec s
    refine ⟨last.trans ?_, destroyed⟩
    rw [count, List.length_eq_one_iff]
    constructor
    · rintro ⟨only, whole⟩
      rw [whole, List.mem_singleton] at member
      rw [whole, member]
    · exact fun whole => ⟨process, whole⟩

/-- **One call.** The ledger is kept, and exactly the calls that do not meet the condition are
rejected. -/
theorem attachStep_ledger {s t : AttachState} {call : AttachCall} (ledger : AttachLedger s)
    (step : attachStep s call = some t) :
    AttachLedger t ∧
      t.rejected = s.rejected + if Attachable s call then 0 else 1 := by
  cases call with
  | init process client =>
    obtain ⟨count, attached, rejected, returned⟩ := araxPipeAttach_spec client s process
    simp only [attachStep] at step
    split_ifs at step with already
    cases call : araxPipeAttach client s with
    | mk next result =>
      rw [call] at step count attached rejected returned
      simp only at step count attached rejected returned
      cases result with
      | true =>
        cases step
        refine ⟨⟨?_, ?_⟩, ?_⟩
        · show next.processes = (process :: next.attached).length + next.rejected
          rw [count, ledger.count, rejected, attached, List.length_cons]
          omega
        · show (process :: next.attached).Nodup
          rw [attached]
          exact List.nodup_cons.mpr ⟨already, ledger.nodup⟩
        · rw [if_pos (returned.mp rfl)]
          exact rejected
      | false =>
        cases step
        refine ⟨⟨?_, ?_⟩, ?_⟩
        · show next.processes = next.attached.length + (next.rejected + 1)
          rw [count, ledger.count, rejected, attached, Nat.add_assoc]
        · show next.attached.Nodup
          rw [attached]
          exact ledger.nodup
        · rw [if_neg fun able => Bool.false_ne_true (returned.mpr able)]
          show next.rejected + 1 = s.rejected + 1
          rw [rejected]
  | exit process =>
    obtain ⟨count, rejected, -, -⟩ := araxPipeExit_spec s
    simp only [attachStep] at step
    split_ifs at step with member
    cases step
    have some := List.length_pos_of_mem member
    refine ⟨⟨?_, ledger.nodup.erase process⟩, ?_⟩
    · show (araxPipeExit s).1.processes = (s.attached.erase process).length +
        (araxPipeExit s).1.rejected
      rw [count, rejected, ledger.count, List.length_erase_of_mem member]
      omega
    · rw [if_pos (show Attachable s (.exit process) from trivial)]
      exact rejected

theorem attachInit_ledger : AttachLedger attachInit := ⟨rfl, List.nodup_nil⟩

/-- **The ledger of a run.** -/
theorem attach_ledger {calls : List AttachCall} {s : AttachState}
    (run : exec attachStep attachInit calls = some s) :
    s.processes = s.attached.length + s.rejected :=
  (exec_invariant (fun _ _ _ ledger step => (attachStep_ledger ledger step).1) attachInit_ledger
    run).count

/-- **The process count.** In every state of a run the count is the number of attached processes,
and the last one that leaves is told so, if and only if every call of `arax_pipe_init` meets the
condition. -/
theorem attach_counted_iff (calls : List AttachCall) (last : AttachState)
    (run : exec attachStep attachInit calls = some last) :
    Along attachStep AttachCounted attachInit calls ↔
      Guarded attachStep Attachable attachInit calls := by
  refine along_iff_guarded AttachLedger (fun s call t ledger counted step => ?_)
    attachInit_ledger (attachInit_ledger.counted_iff.mpr rfl) run
  obtain ⟨kept, rejected⟩ := attachStep_ledger ledger step
  refine ⟨kept, kept.counted_iff.trans ?_⟩
  rw [rejected, ledger.counted_iff.mp counted]
  split_ifs with able
  · exact iff_of_true rfl able
  · exact iff_of_false (by decide) able

/-- Two processes of one revision and one that does not insist on its own attach and leave. -/
theorem attach_counted_at_three :
    Along attachStep AttachCounted attachInit
      [.init 1 ⟨'a', ['b'], true, true⟩, .init 2 ⟨'a', ['b'], true, true⟩,
        .init 3 ⟨'c', [], false, true⟩, .exit 1, .exit 3, .exit 2] := by
  have view : (exec attachStep attachInit
      [.init 1 ⟨'a', ['b'], true, true⟩, .init 2 ⟨'a', ['b'], true, true⟩,
        .init 3 ⟨'c', [], false, true⟩, .exit 1, .exit 3, .exit 2]).isSome = true := by decide
  obtain ⟨last, run⟩ := Option.isSome_iff_exists.mp view
  exact (attach_counted_iff _ last run).mpr (by decide)

/-- **A process of another revision.** After its call was rejected, the only attached process leaves
and is not told that it is the last one. -/
theorem attach_count_stays :
    ¬∀ (calls : List AttachCall) (last : AttachState),
      exec attachStep attachInit calls = some last → AttachCounted last := by
  intro claimed
  have view : (exec attachStep attachInit
      [.init 1 ⟨'a', [], true, true⟩, .init 2 ⟨'b', [], true, true⟩]).map (fun s =>
        (s.processes, s.attached)) = some (2, [1]) := by decide
  obtain ⟨last, run, ends⟩ := Option.map_eq_some_iff.mp view
  obtain ⟨two, one⟩ := Prod.mk.inj ends
  have count := (claimed _ last run).count
  rw [two, one] at count
  exact absurd count (by decide)

end Arax.Core
