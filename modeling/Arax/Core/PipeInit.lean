/-
**Initialisation of the shared segment (`arax_pipe_init`, `src/core/arax_pipe.c`).**

Any number of processes enter `arax_pipe_init` on a zeroed segment. The one whose fetch-and-add on
`processes` returns 0 initialises the pipe, one part after the other; the others wait until the
first byte of the revision is written, compare revisions, and return. A run is the list of the
processes that move, one shared access at a time.

The first byte of the revision is written before the object repository, the allocator, the orphan
list, the conditions, the throttle and the key-value stores are initialised, so a process that
accepts the revision may return a pipe that is not initialised yet.

* `PublishedLast` — in every interleaving, a process that returned the pipe found it initialised.
* `pipe_init_published_last_iff` — this holds exactly if no process accepts the revision of another.
-/

import Mathlib.Data.List.Basic
import Mathlib.Logic.Function.Basic
import Mathlib.Tactic.SplitIfs
import Arax.Lib.Run

namespace Arax.Core

open Arax.Lib

/-- `ARAX_PIPE_SHA_SIZE`. -/
def araxPipeShaSize : Nat := 48

/-- `ARAX_GIT_REV` of a binary, a string that is not empty, and the arguments it passes on. -/
structure PipeClient where
  /-- `ARAX_GIT_REV[0]`. -/
  first : Char
  /-- `&ARAX_GIT_REV[1]`. -/
  rest : List Char
  enforceVersion : Bool
  /-- `arch_alloc_init_once` succeeds for the size this process passes. -/
  allocates : Bool

/-- The parts of the pipe in the order in which the first process initialises them. -/
inductive PipePart where
  | shmSize
  | shaRest
  | shaFirst
  | objs
  | allocator
  | orphanVacs
  | async
  | cntrlReadyCond
  | orphanCond
  | throttle
  | assKv
  | metricsKv
  deriving DecidableEq

/-- The initialisation writes of `arax_pipe_init`. -/
def pipeParts : List PipePart :=
  [.shmSize, .shaRest, .shaFirst, .objs, .allocator, .orphanVacs, .async, .cntrlReadyCond,
    .orphanCond, .throttle, .assKv, .metricsKv]

/-- Where a process is in its call of `arax_pipe_init`. -/
inductive PipeCall where
  /-- Before `arax_pipe_add_process`. -/
  | entering
  /-- The first process, with the parts it still has to initialise. -/
  | initialising (todo : List PipePart)
  /-- `while (!pipe->sha[0])`. -/
  | waiting
  /-- `sha[0]` was seen, the revisions are compared next. -/
  | comparing
  /-- Before `arch_alloc_init_always`. -/
  | attaching
  /-- The call returned, with the pipe or with `NULL`. -/
  | returned (pipe : Bool)
  deriving DecidableEq

/-- The shared segment and the calls of the processes. -/
structure PipeState where
  /-- `pipe->processes`: a process id is an `int`, so the 64-bit count does not wrap. -/
  processes : Nat
  /-- `pipe->sha[0]`, `none` while it is zero. -/
  shaFirst : Option Char
  /-- The string at `pipe->sha + 1`. -/
  shaRest : List Char
  initialised : PipePart → Bool
  calls : Nat → PipeCall

/-- A zeroed segment. -/
def pipeZeroed : PipeState where
  processes := 0
  shaFirst := none
  shaRest := []
  initialised := fun _ => false
  calls := fun _ => .entering

/-- The process `i` is now at `call`. -/
def PipeState.goto (s : PipeState) (i : Nat) (call : PipeCall) : PipeState :=
  { s with calls := Function.update s.calls i call }

/-- What `snprintf(pipe->sha + 1, ARAX_PIPE_SHA_SIZE - 1, "%s", &ARAX_GIT_REV[1])` stores. -/
def PipeClient.stored (client : PipeClient) : List Char := client.rest.take (araxPipeShaSize - 2)

/-- One initialisation write. -/
def writePart (client : PipeClient) (s : PipeState) (part : PipePart) : PipeState :=
  let written := { s with initialised := Function.update s.initialised part true }
  match part with
  | .shaRest => { written with shaRest := client.stored }
  | .shaFirst => { written with shaFirst := some client.first }
  | _ => written

/-- One step of the first process; it returns `NULL` if the allocator cannot be initialised. -/
def initialise (client : PipeClient) (s : PipeState) (i : Nat) : List PipePart → PipeState
  | [] => s.goto i (.returned true)
  | part :: todo =>
    if part = .allocator ∧ client.allocates = false then s.goto i (.returned false)
    else (writePart client s part).goto i (.initialising todo)

/-- One step of the process `i`. -/
def pipeStep (clients : List PipeClient) (s : PipeState) (i : Nat) : Option PipeState :=
  match clients[i]? with
  | none => none
  | some client =>
    match s.calls i with
    | .entering =>
      let value := s.processes
      let added := { s with processes := s.processes + 1 }
      some (if value ≠ 0 then added.goto i .waiting else added.goto i (.initialising pipeParts))
    | .initialising todo => some (initialise client s i todo)
    | .waiting => some (if s.shaFirst = none then s else s.goto i .comparing)
    | .comparing =>
      -- `strcmp(pipe->sha, ARAX_GIT_REV)`
      some (if (s.shaFirst ≠ some client.first ∨ s.shaRest ≠ client.rest) ∧ client.enforceVersion
        then s.goto i (.returned false) else s.goto i .attaching)
    | .attaching => some (s.goto i (.returned true))
    | .returned _ => none

/-- In every interleaving, when a call has returned the pipe, the first process has completed all
of its initialisation. -/
def PublishedLast (clients : List PipeClient) : Prop :=
  ∀ acts s, exec (pipeStep clients) pipeZeroed acts = some s →
    ∀ i, s.calls i = .returned true → ∀ part, s.initialised part = true

/-- The process `other` accepts the revision that `client` stores. -/
def Accepts (other client : PipeClient) : Prop :=
  (other.first = client.first ∧ other.rest = client.stored) ∨ other.enforceVersion = false

/-! ### Processes that reject each other -/

/-- Where a process other than the first one can be, if it rejects the first one's revision. -/
def Rejected (call : PipeCall) : Prop :=
  call = .entering ∨ call = .waiting ∨ call = .comparing ∨ call = .returned false

/-- What holds once the process `f` with the revision of `client` has entered first. -/
structure FirstInv (client : PipeClient) (f : Nat) (s : PipeState) : Prop where
  entered : s.processes ≠ 0
  others : ∀ i, i ≠ f → Rejected (s.calls i)
  stored : s.initialised .shaRest = true → s.shaRest = client.stored
  revision : s.shaFirst = none ∨
    (s.shaFirst = some client.first ∧ s.initialised .shaRest = true)
  first : (∃ todo, s.calls f = .initialising todo ∧ todo <:+ pipeParts ∧
      ∀ part, part ∉ todo → s.initialised part = true) ∨
    s.calls f = .returned false ∨
    (s.calls f = .returned true ∧ ∀ part, s.initialised part = true)

/-- The invariant: nothing happened yet, or there is a first process. -/
def PipeInv (clients : List PipeClient) (s : PipeState) : Prop :=
  s = pipeZeroed ∨ ∃ f client, clients[f]? = some client ∧ FirstInv client f s

/-- The first byte of the revision is written after the others. -/
theorem shaRest_not_mem {todo : List PipePart} (suffix : .shaFirst :: todo <:+ pipeParts) :
    PipePart.shaRest ∉ PipePart.shaFirst :: todo := by
  obtain ⟨done, whole⟩ := suffix
  have count := congrArg (List.count PipePart.shaRest) whole
  have before : PipePart.shaRest ∈ done := by
    rcases done with _ | ⟨one, _ | ⟨two, done⟩⟩
    · cases whole
    · cases whole
    · injection whole with _ whole
      injection whole with second _
      rw [second]
      exact List.mem_cons_of_mem _ List.mem_cons_self
  intro after
  rw [List.count_append] at count
  have left := List.count_pos_iff.mpr before
  have right := List.count_pos_iff.mpr after
  have once : List.count PipePart.shaRest pipeParts = 1 := rfl
  omega

theorem writePart_calls (client : PipeClient) (s : PipeState) (part : PipePart) :
    (writePart client s part).calls = s.calls := by
  cases part <;> rfl

theorem writePart_initialised (client : PipeClient) (s : PipeState) (part : PipePart) :
    (writePart client s part).initialised = Function.update s.initialised part true := by
  cases part <;> rfl

theorem writePart_processes (client : PipeClient) (s : PipeState) (part : PipePart) :
    (writePart client s part).processes = s.processes := by
  cases part <;> rfl

/-- What a write does to the stored revision. -/
theorem writePart_sha (client : PipeClient) (s : PipeState) (part : PipePart) :
    (writePart client s part).shaRest = (if part = .shaRest then client.stored else s.shaRest) ∧
      (writePart client s part).shaFirst =
        (if part = .shaFirst then some client.first else s.shaFirst) := by
  cases part <;> exact ⟨rfl, rfl⟩

/-- A step of the first process. -/
theorem FirstInv.initialise {client : PipeClient} {f : Nat} {s : PipeState} {todo : List PipePart}
    (inv : FirstInv client f s) (suffix : todo <:+ pipeParts)
    (done : ∀ part, part ∉ todo → s.initialised part = true) :
    FirstInv client f (initialise client s f todo) := by
  have apart : ∀ call i, i ≠ f → Rejected (Function.update s.calls f call i) := by
    intro call i ne
    rw [Function.update_of_ne ne]
    exact inv.others i ne
  cases todo with
  | nil =>
    refine ⟨inv.entered, apart _, inv.stored, inv.revision, Or.inr (Or.inr ⟨?_, ?_⟩)⟩
    · exact Function.update_self ..
    · exact fun part => done part List.not_mem_nil
  | cons part todo =>
    simp only [Core.initialise]
    split_ifs with fails
    · refine ⟨inv.entered, apart _, inv.stored, inv.revision, Or.inr (Or.inl ?_)⟩
      exact Function.update_self ..
    · have written : ∀ other, other ∉ todo →
          (writePart client s part).initialised other = true := by
        intro other notTodo
        rw [writePart_initialised]
        by_cases same : other = part
        · rw [same, Function.update_self]
        · rw [Function.update_of_ne same]
          exact done other (List.not_mem_cons_of_ne_of_not_mem same notTodo)
      obtain ⟨rest, head⟩ := writePart_sha client s part
      refine ⟨?_, ?_, ?_, ?_, Or.inl ⟨todo, ?_, ?_, written⟩⟩
      · show (writePart client s part).processes ≠ 0
        rw [writePart_processes]
        exact inv.entered
      · intro i ne
        show Rejected (Function.update (writePart client s part).calls f _ i)
        rw [writePart_calls]
        exact apart _ i ne
      · intro set
        show (writePart client s part).shaRest = client.stored
        rw [rest]
        split_ifs with now
        · rfl
        · refine inv.stored ?_
          have kept : (writePart client s part).initialised .shaRest = true := set
          rwa [writePart_initialised, Function.update_of_ne (Ne.symm now)] at kept
      · show (writePart client s part).shaFirst = none ∨
          ((writePart client s part).shaFirst = some client.first ∧
            (writePart client s part).initialised .shaRest = true)
        rw [head]
        split_ifs with now
        · subst now
          refine Or.inr ⟨rfl, written _ fun inner => shaRest_not_mem suffix ?_⟩
          exact List.mem_cons_of_mem _ inner
        · rcases inv.revision with unset | ⟨set, before⟩
          · exact Or.inl unset
          · refine Or.inr ⟨set, ?_⟩
            rw [writePart_initialised]
            by_cases same : PipePart.shaRest = part
            · rw [same, Function.update_self]
            · rw [Function.update_of_ne same]
              exact before
      · exact Function.update_self ..
      · exact (List.suffix_cons part todo).trans suffix

/-- A step of another process that only moves that process, to a place where it is rejected. -/
theorem FirstInv.goto {client : PipeClient} {f i : Nat} {s : PipeState} {call : PipeCall}
    (inv : FirstInv client f s) (other : i ≠ f) (rejected : Rejected call) :
    FirstInv client f (s.goto i call) := by
  have same : (s.goto i call).calls f = s.calls f := Function.update_of_ne (Ne.symm other) _ _
  refine ⟨inv.entered, fun j ne => ?_, inv.stored, inv.revision, ?_⟩
  · by_cases moved : j = i
    · rw [moved]
      show Rejected (Function.update s.calls i call i)
      rw [Function.update_self]
      exact rejected
    · show Rejected (Function.update s.calls i call j)
      rw [Function.update_of_ne moved]
      exact inv.others j ne
  · rw [same]
    exact inv.first

/-- The comparison of a process that does not accept the first one's revision. -/
theorem FirstInv.mismatch {leader client : PipeClient} {f : Nat} {s : PipeState}
    (inv : FirstInv leader f s) (rejects : ¬Accepts client leader) :
    (s.shaFirst ≠ some client.first ∨ s.shaRest ≠ client.rest) ∧ client.enforceVersion = true := by
  obtain ⟨differs, enforces⟩ := not_or.mp rejects
  refine ⟨?_, Bool.not_eq_false _ ▸ enforces⟩
  by_contra same
  obtain ⟨first, rest⟩ := not_or.mp same
  rw [not_not] at first rest
  rcases inv.revision with unset | ⟨set, before⟩
  · rw [unset] at first
    cases first
  · rw [set] at first
    exact differs ⟨(Option.some.inj first).symm, rest.symm.trans (inv.stored before)⟩

/-- **One step among processes that reject each other's revisions.** -/
theorem pipeStep_inv {clients : List PipeClient} {s t : PipeState} {i : Nat}
    (reject : ∀ (f j : Nat) p q, f ≠ j → clients[f]? = some p → clients[j]? = some q → ¬Accepts q p)
    (inv : PipeInv clients s) (step : pipeStep clients s i = some t) : PipeInv clients t := by
  unfold pipeStep at step
  cases found : clients[i]? with
  | none =>
    rw [found] at step
    cases step
  | some client =>
    rw [found] at step
    simp only at step
    rcases inv with rfl | ⟨f, leader, leads, inv⟩
    · cases step
      refine Or.inr ⟨i, client, found, Nat.one_ne_zero, fun j ne => ?_, fun set => (by cases set),
        Or.inl rfl,
        Or.inl ⟨pipeParts, Function.update_self .., List.suffix_rfl, fun part none => ?_⟩⟩
      · show Rejected (Function.update pipeZeroed.calls i _ j)
        rw [Function.update_of_ne ne]
        exact Or.inl rfl
      · exact absurd (by cases part <;> decide) none
    · refine Or.inr ⟨f, leader, leads, ?_⟩
      by_cases self : i = f
      · subst self
        cases Option.some.inj (leads.symm.trans found)
        rcases inv.first with ⟨todo, place, suffix, done⟩ | place | ⟨place, _⟩
        · rw [place] at step
          cases step
          exact inv.initialise suffix done
        · rw [place] at step
          cases step
        · rw [place] at step
          cases step
      · rcases inv.others i self with place | place | place | place
        · rw [place] at step
          cases step
          rw [if_pos inv.entered]
          have added : FirstInv leader f { s with processes := s.processes + 1 } :=
            ⟨Nat.succ_ne_zero _, inv.others, inv.stored, inv.revision, inv.first⟩
          exact added.goto self (Or.inr (Or.inl rfl))
        · rw [place] at step
          cases step
          split_ifs
          · exact inv
          · exact inv.goto self (Or.inr (Or.inr (Or.inl rfl)))
        · rw [place] at step
          cases step
          rw [if_pos (inv.mismatch (reject f i leader client (Ne.symm self) leads found))]
          exact inv.goto self (Or.inr (Or.inr (Or.inr rfl)))
        · rw [place] at step
          cases step

/-! ### Two processes with the same revision -/

/-- The first process writes its revision, then the other one enters, accepts it and returns. -/
def earlyReturn (first other : Nat) : List Nat :=
  List.replicate 4 first ++ List.replicate 4 other

theorem accepts_compares {other client : PipeClient} (accepts : Accepts other client) :
    ¬((¬client.first = other.first ∨ ¬client.stored = other.rest) ∧
      other.enforceVersion = true) := by
  rintro ⟨differs, enforces⟩
  rcases accepts with ⟨first, rest⟩ | lax
  · rcases differs with head | tail
    · exact head first.symm
    · exact tail rest.symm
  · rw [lax] at enforces
    cases enforces

/-- The state after the first process has written its revision, and nothing else. -/
def revisionWritten (client : PipeClient) (f : Nat) : PipeState where
  processes := 1
  shaFirst := some client.first
  shaRest := client.stored
  initialised := Function.update (Function.update (Function.update pipeZeroed.initialised
    .shmSize true) .shaRest true) .shaFirst true
  calls := Function.update pipeZeroed.calls f (.initialising (pipeParts.drop 3))

theorem exec_revisionWritten {clients : List PipeClient} {client : PipeClient} {f : Nat}
    (found : clients[f]? = some client) :
    exec (pipeStep clients) pipeZeroed (List.replicate 4 f) = some (revisionWritten client f) := by
  simp [exec, pipeStep, found, List.replicate, pipeZeroed, PipeState.goto, initialise, writePart,
    pipeParts, revisionWritten]

/-- The other process returns the pipe, and changes nothing but its own place. -/
theorem exec_accepting {clients : List PipeClient} {client other : PipeClient} {f j : Nat}
    (apart : f ≠ j) (found : clients[j]? = some other) (accepts : Accepts other client) :
    ∃ t, exec (pipeStep clients) (revisionWritten client f) (List.replicate 4 j) = some t ∧
      t.calls j = .returned true ∧ t.initialised .objs = false := by
  have compares := accepts_compares accepts
  refine ⟨{ revisionWritten client f with
    processes := 2, calls := Function.update (revisionWritten client f).calls j (.returned true) },
    ?_, Function.update_self .., ?_⟩
  · simp [exec, pipeStep, found, List.replicate, PipeState.goto, revisionWritten, pipeZeroed,
      Function.update_of_ne apart.symm, if_neg compares]
  · rfl

/-- **Publication of the initialised segment.** A call that returns the pipe returns after the
initialisation is complete, in every interleaving, if and only if no process accepts the revision of
another one. -/
theorem pipe_init_published_last_iff (clients : List PipeClient) :
    PublishedLast clients ↔ ∀ (f j : Nat) p q, f ≠ j → clients[f]? = some p →
      clients[j]? = some q → ¬Accepts q p := by
  constructor
  · intro published f j p q apart leads follows accepts
    obtain ⟨t, run, returned, unset⟩ := exec_accepting apart follows accepts
    have whole : exec (pipeStep clients) pipeZeroed (earlyReturn f j) = some t := by
      rw [earlyReturn, exec_append, exec_revisionWritten leads]
      exact run
    have set := published _ t whole j returned .objs
    rw [unset] at set
    cases set
  · intro reject acts s run i returned part
    have inv : PipeInv clients s := exec_invariant
      (fun _ _ _ inv step => pipeStep_inv reject inv step) (Or.inl rfl) run
    rcases inv with rfl | ⟨f, client, leads, inv⟩
    · cases returned
    · by_cases self : i = f
      · rw [self] at returned
        rcases inv.first with ⟨todo, place, _⟩ | place | ⟨_, done⟩
        · rw [place] at returned
          cases returned
        · rw [place] at returned
          cases returned
        · exact done part
      · rcases inv.others i self with place | place | place | place
        · rw [place] at returned
          cases returned
        · rw [place] at returned
          cases returned
        · rw [place] at returned
          cases returned
        · rw [place] at returned
          cases returned

/-- Two processes of the same revision: the second one may return a pipe without repository,
allocator, conditions, throttle and key-value stores. -/
theorem pipe_init_fails_for_two : ¬∀ clients, PublishedLast clients := by
  intro all
  let clients : List PipeClient := [⟨'a', ['b'], true, true⟩, ⟨'a', ['b'], true, true⟩]
  have run : (exec (pipeStep clients) pipeZeroed [0, 0, 0, 0, 1, 1, 1, 1]).map
      (fun s => (s.calls 1, s.initialised .objs)) = some (.returned true, false) := by decide
  obtain ⟨s, reached, last⟩ := Option.map_eq_some_iff.mp run
  have set := all clients _ s reached 1 (congrArg Prod.fst last) .objs
  rw [show s.initialised .objs = false from congrArg Prod.snd last] at set
  cases set

end Arax.Core
