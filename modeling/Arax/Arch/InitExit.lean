/-
**The init count of a process (`src/arch/shm/impl.c`, `src/core/arax_ptr.c`).**

`arax_state.threads` counts the `arax_init` calls of a process; the `arax_exit` that takes it from 1
to 0 leaves the pipe, takes the process out of the process map and unmaps the segment. The functions
that only look at a pointer get the pipe through `arax_init` too, and never call `arax_exit`.

A run is a list of calls. The system calls of the first `arax_init`, the controller's readiness and
the memory that the queries read are part of the calls; `none` is a call that does not return: it
blocks on the controller, exits the process because the segment cannot be mapped, or aborts on an
assertion.

* `query_threads` — what a query does to the count.
* `init_exit_balance_iff` — the count is the number of unmatched inits, and the last exit is the one
  that leaves, in all states of a run exactly if no query of the run reaches `arax_ptr_valid`.
-/

import Mathlib.Tactic.NormNum
import Mathlib.Tactic.SplitIfs
import Arax.Lib.Run

namespace Arax.Arch

open Arax.Lib

/-- Where and how large the segment is mapped. -/
structure Segment where
  address : Nat
  size : Nat

/-- What `arax_init`, `arax_exit` and the queries use of `arax_state`, of the pipe it points to, and
the number of times the process left the pipe. -/
structure AraxState where
  vpipe : Nat
  /-- `arax_state.vpipe->shm_size`. -/
  shmSize : Nat
  threads : Nat
  initialized : Bool
  /-- `arax_state.vpipe->cntrl_ready`. -/
  cntrlReady : Bool
  /-- Calls of `arax_pipe_exit`. -/
  pipeExits : Nat
  /-- Calls of `arax_pipe_mark_unmap`. -/
  unmarks : Nat
  /-- Calls of `munmap` on the segment. -/
  unmaps : Nat

/-- The initial value of `arax_state`, with `vpipe` at `CONF_ARAX_MMAP_BASE`. -/
def araxStateInit (mmapBase : Nat) : AraxState where
  vpipe := mmapBase
  shmSize := 0
  threads := 0
  initialized := false
  cntrlReady := false
  pipeExits := 0
  unmarks := 0
  unmaps := 0

/-- The part of `_arax_init` for the first thread. Configuration, `shm_open`, `ftruncate`, `mmap`
and `arax_pipe_init` give a segment, or the process exits at `FAIL`. -/
def firstInit (setup : Option Segment) (st : AraxState) : Option AraxState :=
  match setup with
  | none => none
  | some segment =>
    if segment.address = 0 then none
    else some { st with vpipe := segment.address, shmSize := segment.size, initialized := true }

/-- `_arax_init`. A thread that is not the first waits for `initialized`, and one with
`wait_controller` waits for the controller. -/
def _araxInit (waitController : Bool) (setup : Option Segment) (st : AraxState) :
    Option AraxState :=
  let counted := { st with threads := (st.threads + 1) % 2 ^ 64 }
  let good := if st.threads ≠ 0 then (if st.initialized then some counted else none)
    else firstInit setup counted
  good.bind fun ready => if waitController && !ready.cntrlReady then none else some ready

/-- `arax_init`. -/
def araxInit : Option Segment → AraxState → Option AraxState := _araxInit true

/-- `arax_controller_init_start`. -/
def araxControllerInitStart : Option Segment → AraxState → Option AraxState := _araxInit false

/-- `arax_controller_init_done`. -/
def araxControllerInitDone (st : AraxState) : AraxState := { st with cntrlReady := true }

/-- `arax_exit`. -/
def araxExit (st : AraxState) : AraxState :=
  if st.vpipe ≠ 0 then
    let counted := { st with threads := (2 ^ 64 - 1 + st.threads) % 2 ^ 64 }
    if st.threads = 1 then
      { counted with
        pipeExits := st.pipeExits + 1, unmarks := st.unmarks + 1, unmaps := st.unmaps + 1,
        vpipe := 0 }
    else counted
  else st

/-! ### The queries -/

/-- What the queries read from the segment. -/
structure DataMemory where
  /-- `VD_BUFF_OWNER`: the back-pointer before a buffer. -/
  owner : Nat → Nat
  /-- The object at this address has type `ARAX_TYPE_DATA`. -/
  isData : Nat → Bool
  /-- Address, buffer and size of the registered data. -/
  datas : List (Nat × Nat × Nat)

/-- `arax_ptr_valid`. -/
def araxPtrValid (setup : Option Segment) (ptr : Nat) (st : AraxState) :
    Option (AraxState × Bool) :=
  (araxInit setup st).map fun next =>
    (next, if ptr < next.vpipe then false else decide (ptr < next.vpipe + next.shmSize))

/-- `arax_data_ref`; `0` is `NULL`. -/
def araxDataRef (memory : DataMemory) (setup : Option Segment) (data : Nat) (st : AraxState) :
    Option (AraxState × Nat) :=
  if data = 0 then none
  else
    let vdata := memory.owner data
    if vdata = 0 then some (st, 0)
    else (araxPtrValid setup vdata st).map fun (next, valid) =>
      (next, if valid && memory.isData vdata then vdata else 0)

/-- `arax_data_ref_offset`. -/
def araxDataRefOffset (memory : DataMemory) (setup : Option Segment) (data : Nat) (st : AraxState) :
    Option (AraxState × Nat) :=
  if data = 0 then none
  else (araxPtrValid setup data st).bind fun (checked, valid) =>
    if valid then
      (araxDataRef memory setup data checked).map fun (next, ret) =>
        if ret ≠ 0 then (next, ret)
        else
          match memory.datas.find? fun (_, start, size) => start < data && data < start + size with
          | some (vd, _, _) => (next, vd)
          | none => (next, 0)
    else none

/-- The pointer queries. -/
inductive Query where
  | ptrValid (ptr : Nat)
  | dataRef (data : Nat)
  | dataRefOffset (data : Nat)
  /-- The test `if (arax_ptr_valid(arax_task))` of `workFunc`. -/
  | workerTest (araxTask : Nat)

/-- The state after a query. -/
def queryStep (memory : DataMemory) (setup : Option Segment) (st : AraxState) :
    Query → Option AraxState
  | .ptrValid ptr => (araxPtrValid setup ptr st).map Prod.fst
  | .dataRef data => (araxDataRef memory setup data st).map Prod.fst
  | .dataRefOffset data => (araxDataRefOffset memory setup data st).map Prod.fst
  | .workerTest araxTask => (araxPtrValid setup araxTask st).map Prod.fst

/-- How often a query calls `arax_ptr_valid`: `arax_data_ref` does not if the back-pointer of the
buffer is `NULL`. -/
def ptrValidCalls (memory : DataMemory) : Query → Nat
  | .ptrValid _ | .workerTest _ => 1
  | .dataRef data => if memory.owner data = 0 then 0 else 1
  | .dataRefOffset data => if memory.owner data = 0 then 1 else 2

/-! ### Runs -/

/-- The calls of a process, and the other processes that set or clear `cntrl_ready`. -/
inductive ProcessCall where
  | init (setup : Option Segment)
  | controllerInitStart (setup : Option Segment)
  | controllerInitDone
  | exit
  | query (memory : DataMemory) (setup : Option Segment) (q : Query)
  | cntrlReady (ready : Bool)

/-- The process, the number of inits not yet matched by an exit, and the number of exits so far that
matched the last one. -/
structure ProcessRun where
  st : AraxState
  unmatched : Nat
  lastExits : Nat

/-- A run before its first call. -/
def processInit (mmapBase : Nat) : ProcessRun := ⟨araxStateInit mmapBase, 0, 0⟩

/-- One call; an exit needs an init that it matches. -/
def processStep (r : ProcessRun) : ProcessCall → Option ProcessRun
  | .init setup =>
    (araxInit setup r.st).map fun st => { r with st, unmatched := r.unmatched + 1 }
  | .controllerInitStart setup =>
    (araxControllerInitStart setup r.st).map fun st =>
      { r with st, unmatched := r.unmatched + 1 }
  | .controllerInitDone => some { r with st := araxControllerInitDone r.st }
  | .exit =>
    if r.unmatched = 0 then none
    else some ⟨araxExit r.st, r.unmatched - 1,
      if r.unmatched = 1 then r.lastExits + 1 else r.lastExits⟩
  | .query memory setup q => (queryStep memory setup r.st q).map fun st => { r with st }
  | .cntrlReady ready => some { r with st := { r.st with cntrlReady := ready } }

/-- The count is the number of unmatched inits, and exactly the exits that matched the last init
left the pipe, took the process out of the map and unmapped the segment. -/
structure InitExitBalanced (r : ProcessRun) : Prop where
  threads : r.st.threads = r.unmatched
  pipeExits : r.st.pipeExits = r.lastExits
  unmarks : r.st.unmarks = r.lastExits
  unmaps : r.st.unmaps = r.lastExits

/-- The call reaches `arax_ptr_valid` from a query. -/
def ReachesPtrValid : ProcessCall → Prop
  | .query memory _ q => ptrValidCalls memory q ≠ 0
  | _ => False

/-! ### What the calls do -/

/-- What a returning `_arax_init` did. -/
structure Entered (st next : AraxState) : Prop where
  threads : next.threads = (st.threads + 1) % 2 ^ 64
  pipeExits : next.pipeExits = st.pipeExits
  unmarks : next.unmarks = st.unmarks
  unmaps : next.unmaps = st.unmaps
  mapped : (st.threads ≠ 0 → st.vpipe ≠ 0) → next.vpipe ≠ 0

theorem firstInit_some {setup : Option Segment} {st next : AraxState}
    (call : firstInit setup st = some next) :
    ∃ segment : Segment, segment.address ≠ 0 ∧
      next =
        { st with vpipe := segment.address, shmSize := segment.size, initialized := true } := by
  unfold firstInit at call
  cases setup with
  | none => cases call
  | some segment =>
    simp only at call
    split_ifs at call with null
    cases call
    exact ⟨segment, null, rfl⟩

theorem _araxInit_entered {waitController : Bool} {setup : Option Segment} {st next : AraxState}
    (call : _araxInit waitController setup st = some next) : Entered st next := by
  unfold _araxInit at call
  obtain ⟨ready, good, wait⟩ := Option.bind_eq_some_iff.mp call
  have same : ready = next := by
    split_ifs at wait
    exact Option.some.inj wait
  rw [← same]
  split_ifs at good with first started
  · cases good
    exact ⟨rfl, rfl, rfl, rfl, fun mapped => mapped first⟩
  · obtain ⟨segment, address, rfl⟩ := firstInit_some good
    exact ⟨rfl, rfl, rfl, rfl, fun _ => address⟩

/-- The exit of the last thread. -/
theorem araxExit_last {st : AraxState} (mapped : st.vpipe ≠ 0) (one : st.threads = 1) :
    araxExit st = { st with
      threads := 0, vpipe := 0, pipeExits := st.pipeExits + 1, unmarks := st.unmarks + 1,
      unmaps := st.unmaps + 1 } := by
  have wraps : (2 ^ 64 - 1 + 1) % 2 ^ 64 = 0 := by norm_num
  unfold araxExit
  rw [if_pos mapped, if_pos one, one, wraps]

/-- The exit of a thread that is not the last one. -/
theorem araxExit_inner {st : AraxState} (mapped : st.vpipe ≠ 0) (several : st.threads ≠ 1) :
    araxExit st = { st with threads := (2 ^ 64 - 1 + st.threads) % 2 ^ 64 } := by
  unfold araxExit
  rw [if_pos mapped, if_neg several]

theorem araxExit_small {st : AraxState} (small : st.threads < 2 ^ 64) :
    (araxExit st).threads < 2 ^ 64 := by
  unfold araxExit
  split_ifs
  · exact Nat.mod_lt _ (by decide)
  · exact Nat.mod_lt _ (by decide)
  · exact small

theorem araxPtrValid_entered {setup : Option Segment} {ptr : Nat} {st : AraxState}
    {result : AraxState × Bool} (call : araxPtrValid setup ptr st = some result) :
    Entered st result.1 := by
  obtain ⟨next, init, rfl⟩ := Option.map_eq_some_iff.mp call
  exact _araxInit_entered init

theorem araxDataRef_threads {memory : DataMemory} {setup : Option Segment} {data : Nat}
    {st : AraxState} {result : AraxState × Nat}
    (call : araxDataRef memory setup data st = some result) :
    (memory.owner data = 0 ∧ result.1 = st) ∨
      (memory.owner data ≠ 0 ∧ result.1.threads = (st.threads + 1) % 2 ^ 64) := by
  unfold araxDataRef at call
  simp only at call
  split_ifs at call with null owner
  · cases call
    exact Or.inl ⟨owner, rfl⟩
  · obtain ⟨checked, valid, rfl⟩ := Option.map_eq_some_iff.mp call
    exact Or.inr ⟨owner, (araxPtrValid_entered valid).threads⟩

theorem araxDataRefOffset_threads {memory : DataMemory} {setup : Option Segment} {data : Nat}
    {st : AraxState} {result : AraxState × Nat}
    (call : araxDataRefOffset memory setup data st = some result) :
    result.1.threads = (st.threads + ptrValidCalls memory (.dataRefOffset data)) % 2 ^ 64 := by
  unfold araxDataRefOffset at call
  split_ifs at call
  obtain ⟨checked, valid, rest⟩ := Option.bind_eq_some_iff.mp call
  have first := (araxPtrValid_entered valid).threads
  simp only at rest
  split_ifs at rest
  obtain ⟨found, ref, rfl⟩ := Option.map_eq_some_iff.mp rest
  have search : (if found.2 ≠ 0 then (found.1, found.2)
      else match memory.datas.find? fun (_, start, size) => start < data && data < start + size with
        | some (vd, _, _) => (found.1, vd)
        | none => (found.1, 0)).1 = found.1 := by
    split_ifs
    · rfl
    · split <;> rfl
  show (if found.2 ≠ 0 then (found.1, found.2) else _).1.threads = _
  rw [search]
  rcases araxDataRef_threads ref with ⟨null, same⟩ | ⟨owner, second⟩
  · rw [same, first, ptrValidCalls, if_pos null]
  · rw [second, first, ptrValidCalls, if_neg owner, Nat.mod_add_mod]

/-- **A query adds its calls of `arax_ptr_valid` to the count.** -/
theorem query_threads {memory : DataMemory} {setup : Option Segment} {q : Query}
    {st next : AraxState} (small : st.threads < 2 ^ 64)
    (call : queryStep memory setup st q = some next) :
    next.threads = (st.threads + ptrValidCalls memory q) % 2 ^ 64 := by
  cases q with
  | ptrValid ptr =>
    obtain ⟨result, valid, rfl⟩ := Option.map_eq_some_iff.mp call
    exact (araxPtrValid_entered valid).threads
  | workerTest araxTask =>
    obtain ⟨result, valid, rfl⟩ := Option.map_eq_some_iff.mp call
    exact (araxPtrValid_entered valid).threads
  | dataRef data =>
    obtain ⟨result, ref, rfl⟩ := Option.map_eq_some_iff.mp call
    rcases araxDataRef_threads ref with ⟨null, same⟩ | ⟨owner, counted⟩
    · rw [same, ptrValidCalls, if_pos null, Nat.add_zero, Nat.mod_eq_of_lt small]
    · rw [counted, ptrValidCalls, if_neg owner]
  | dataRefOffset data =>
    obtain ⟨result, ref, rfl⟩ := Option.map_eq_some_iff.mp call
    exact araxDataRefOffset_threads ref

/-- A query that does not reach `arax_ptr_valid` changes nothing. -/
theorem query_neutral {memory : DataMemory} {setup : Option Segment} {q : Query}
    {st next : AraxState} (quiet : ptrValidCalls memory q = 0)
    (call : queryStep memory setup st q = some next) : next = st := by
  cases q with
  | ptrValid ptr => cases quiet
  | workerTest araxTask => cases quiet
  | dataRef data =>
    obtain ⟨result, ref, rfl⟩ := Option.map_eq_some_iff.mp call
    rcases araxDataRef_threads ref with ⟨_, same⟩ | ⟨owner, _⟩
    · exact same
    · rw [ptrValidCalls, if_neg owner] at quiet
      cases quiet
  | dataRefOffset data =>
    simp only [ptrValidCalls] at quiet
    split_ifs at quiet

/-! ### The balance -/

/-- The count fits its type, and a process with an unmatched init has its segment mapped. -/
structure ProcessInv (r : ProcessRun) : Prop where
  balanced : InitExitBalanced r
  mapped : r.unmatched ≠ 0 → r.st.vpipe ≠ 0

theorem processInit_inv (mmapBase : Nat) : ProcessInv (processInit mmapBase) :=
  ⟨⟨rfl, rfl, rfl, rfl⟩, fun none => absurd rfl none⟩

/-- An init keeps the balance, whether it waits for the controller or not. -/
theorem ProcessInv.enter {r : ProcessRun} {st : AraxState} (inv : ProcessInv r)
    (fits : r.unmatched + 1 < 2 ^ 64) (entered : Entered r.st st) :
    ProcessInv { r with st, unmatched := r.unmatched + 1 } := by
  obtain ⟨⟨threads, pipeExits, unmarks, unmaps⟩, mapped⟩ := inv
  refine ⟨⟨?_, entered.pipeExits.trans pipeExits, entered.unmarks.trans unmarks,
    entered.unmaps.trans unmaps⟩, fun _ => entered.mapped fun some => mapped (threads ▸ some)⟩
  rw [entered.threads, threads]
  exact Nat.mod_eq_of_lt fits

/-- A call that reaches no `arax_ptr_valid` from a query keeps the balance. -/
theorem processStep_inv {r t : ProcessRun} {call : ProcessCall} (inv : ProcessInv r)
    (quiet : ¬ReachesPtrValid call) (fits : t.unmatched < 2 ^ 64)
    (step : processStep r call = some t) : ProcessInv t := by
  have kept := inv
  obtain ⟨⟨threads, pipeExits, unmarks, unmaps⟩, mapped⟩ := inv
  cases call with
  | init setup =>
    obtain ⟨st, init, rfl⟩ := Option.map_eq_some_iff.mp step
    exact kept.enter fits (_araxInit_entered init)
  | controllerInitStart setup =>
    obtain ⟨st, init, rfl⟩ := Option.map_eq_some_iff.mp step
    exact kept.enter fits (_araxInit_entered init)
  | controllerInitDone =>
    cases step
    exact ⟨⟨threads, pipeExits, unmarks, unmaps⟩, mapped⟩
  | exit =>
    simp only [processStep] at step
    split_ifs at step with none last
    · cases step
      have one : r.st.threads = 1 := threads.trans last
      have left := araxExit_last (mapped none) one
      rw [left]
      refine ⟨⟨?_, congrArg (· + 1) pipeExits, congrArg (· + 1) unmarks,
        congrArg (· + 1) unmaps⟩, fun some => ?_⟩
      · show 0 = r.unmatched - 1
        rw [last]
      · exact absurd (by rw [last]) some
    · cases step
      have left := araxExit_inner (mapped none) fun one => last (threads.symm.trans one)
      rw [left]
      refine ⟨⟨?_, pipeExits, unmarks, unmaps⟩, fun _ => mapped none⟩
      show (2 ^ 64 - 1 + r.st.threads) % 2 ^ 64 = r.unmatched - 1
      have bound : r.unmatched - 1 < 2 ^ 64 := fits
      rw [threads]
      omega
  | query memory setup q =>
    obtain ⟨st, result, rfl⟩ := Option.map_eq_some_iff.mp step
    have same := query_neutral (not_not.mp quiet) result
    rw [same]
    exact ⟨⟨threads, pipeExits, unmarks, unmaps⟩, mapped⟩
  | cntrlReady ready =>
    cases step
    exact ⟨⟨threads, pipeExits, unmarks, unmaps⟩, mapped⟩

/-- The count always fits `uint64_t`. -/
theorem processStep_small {r t : ProcessRun} {call : ProcessCall} (small : r.st.threads < 2 ^ 64)
    (step : processStep r call = some t) : t.st.threads < 2 ^ 64 := by
  have range : ∀ n, n % 2 ^ 64 < 2 ^ 64 := fun n => Nat.mod_lt n (by decide)
  cases call with
  | init setup =>
    obtain ⟨st, init, rfl⟩ := Option.map_eq_some_iff.mp step
    exact (_araxInit_entered init).threads ▸ range _
  | controllerInitStart setup =>
    obtain ⟨st, init, rfl⟩ := Option.map_eq_some_iff.mp step
    exact (_araxInit_entered init).threads ▸ range _
  | controllerInitDone =>
    cases step
    exact small
  | exit =>
    simp only [processStep] at step
    split_ifs at step
    · cases step
      exact araxExit_small small
    · cases step
      exact araxExit_small small
  | query memory setup q =>
    obtain ⟨st, result, rfl⟩ := Option.map_eq_some_iff.mp step
    exact query_threads small result ▸ range _
  | cntrlReady ready =>
    cases step
    exact small

theorem ptrValidCalls_le (memory : DataMemory) (q : Query) : ptrValidCalls memory q ≤ 2 := by
  unfold ptrValidCalls
  split
  · exact Nat.le_succ 1
  · exact Nat.le_succ 1
  · split_ifs <;> decide
  · split_ifs <;> decide

/-- After a query that reaches `arax_ptr_valid` the count is no longer the number of inits. -/
theorem reaching_unbalances {r t : ProcessRun} {call : ProcessCall} (small : r.st.threads < 2 ^ 64)
    (here : InitExitBalanced r) (reaches : ReachesPtrValid call)
    (step : processStep r call = some t) : ¬InitExitBalanced t := by
  intro after
  cases call with
  | init setup => exact reaches
  | controllerInitStart setup => exact reaches
  | controllerInitDone => exact reaches
  | exit => exact reaches
  | cntrlReady ready => exact reaches
  | query memory setup q =>
    obtain ⟨st, result, rfl⟩ := Option.map_eq_some_iff.mp step
    have counted := query_threads small result
    have same : st.threads = r.st.threads := after.threads.trans here.threads.symm
    have some : ptrValidCalls memory q ≠ 0 := reaches
    have few := ptrValidCalls_le memory q
    omega

/-- **Init/exit balance.** In a run of matched inits and exits with pointer queries between them,
the count is the number of unmatched inits, and the exits that match the last init are those that
leave the segment, in every state of the run if and only if no query of the run reaches
`arax_ptr_valid` (and there are never `2 ^ 64` unmatched inits). -/
theorem init_exit_balance_iff (mmapBase : Nat) (calls : List ProcessCall) (last : ProcessRun)
    (run : exec processStep (processInit mmapBase) calls = some last) :
    Along processStep InitExitBalanced (processInit mmapBase) calls ↔
      (∀ call ∈ calls, ¬ReachesPtrValid call) ∧
        Along processStep (fun r => r.unmatched < 2 ^ 64) (processInit mmapBase) calls := by
  constructor
  · have small : (processInit mmapBase).st.threads < 2 ^ 64 := Nat.two_pow_pos 64
    revert run small
    generalize processInit mmapBase = r
    intro run small along
    induction calls generalizing r with
    | nil =>
      have count : r.st.threads = r.unmatched := InitExitBalanced.threads along
      refine ⟨fun call member => absurd member List.not_mem_nil, ?_⟩
      show r.unmatched < 2 ^ 64
      exact count ▸ small
    | cons call rest ih =>
      obtain ⟨t, step, later⟩ := exec_cons run
      obtain ⟨here, after⟩ := along
      have count := here.threads
      obtain ⟨quiet, bounded⟩ := ih t later (processStep_small small step) (after t step)
      have fits : r.unmatched < 2 ^ 64 := count ▸ small
      refine ⟨fun other member => ?_, fits, fun u move => ?_⟩
      · rcases List.mem_cons.mp member with rfl | inner
        · exact fun reaches => reaching_unbalances small here reaches step (after t step).head
        · exact quiet other inner
      · exact Option.some.inj (step.symm.trans move) ▸ bounded
  · rintro ⟨quiet, bounded⟩
    have inv := processInit_inv mmapBase
    revert run bounded inv
    generalize processInit mmapBase = r
    intro run bounded inv
    induction calls generalizing r with
    | nil => exact inv.balanced
    | cons call rest ih =>
      refine ⟨inv.balanced, fun t step => ?_⟩
      have later := bounded.2 t step
      obtain ⟨u, move, tail⟩ := exec_cons run
      cases Option.some.inj (step.symm.trans move)
      exact ih (fun other inner => quiet other (List.mem_cons_of_mem _ inner)) t tail later
        (processStep_inv inv (quiet call List.mem_cons_self) later.head step)

/-- Two inits and two exits around queries for a buffer without a back-pointer. -/
theorem init_exit_balance_at_quiet_run :
    Along processStep InitExitBalanced (processInit 4096)
      [.controllerInitStart (some ⟨4096, 100⟩), .controllerInitDone,
        .query ⟨fun _ => 0, fun _ => false, []⟩ none (.dataRef 4100), .init none, .exit,
        .exit] := by
  have run : (exec processStep (processInit 4096)
      [.controllerInitStart (some ⟨4096, 100⟩), .controllerInitDone,
        .query ⟨fun _ => 0, fun _ => false, []⟩ none (.dataRef 4100), .init none, .exit,
        .exit]).isSome := by decide
  obtain ⟨last, run⟩ := Option.isSome_iff_exists.mp run
  refine (init_exit_balance_iff 4096 _ last run).mpr ⟨fun call member => ?_, ?_⟩
  · simp only [List.mem_cons, List.not_mem_nil, or_false] at member
    rcases member with rfl | rfl | rfl | rfl | rfl | rfl <;> simp [ReachesPtrValid, ptrValidCalls]
  · simp [Along, processStep, processInit, araxStateInit, _araxInit, firstInit, queryStep,
      araxDataRef, araxExit, araxInit, araxControllerInitStart, araxControllerInitDone]

/-- One init, one pointer query, one exit: the exit does not leave the segment. -/
theorem init_exit_balance_fails_at_query :
    ¬∀ mmapBase calls last, exec processStep (processInit mmapBase) calls = some last →
      Along processStep InitExitBalanced (processInit mmapBase) calls := by
  intro all
  let calls : List ProcessCall := [.controllerInitStart (some ⟨4096, 100⟩), .controllerInitDone,
    .query ⟨fun _ => 0, fun _ => false, []⟩ none (.ptrValid 4100), .exit]
  have run : (exec processStep (processInit 4096) calls).isSome := by decide
  obtain ⟨last, run⟩ := Option.isSome_iff_exists.mp run
  have balanced := all 4096 calls last run
  simp [calls, Along, processStep, processInit, araxStateInit, _araxInit, firstInit, queryStep,
    araxPtrValid, araxInit, araxControllerInitStart, araxControllerInitDone] at balanced
  have counted := balanced.2.2.2.1.threads
  cases counted

end Arax.Arch
