/-
**A kernel that throws (`workFunc` in `controller/src/Core/accelThread.cpp`,
`controller/include/deviceBaseOps.h`).**

The functor of a task marks it done itself. `executeOperation` is generated by a macro; it catches
every `std::exception`, prints it and returns, and the loop of the worker goes on to the next task.

* `runFunctor`, `executeOperation`, `workFuncIteration` — one iteration of the worker.
* `Marking` — a functor that marks the task done on each return, or throws before that.
* `throwing_kernel_iff` — the client is released exactly if the functor does not throw.
-/

import Arax.Core.TaskWait

namespace Arax.Controller

open Arax.Core

/-- What a functor does, as far as the task is concerned. -/
inductive FunctorStep where
  /-- Anything else, on data or on the device. -/
  | compute
  /-- `arax_task_mark_done`. -/
  | markDone (state : TaskStateE)
  /-- `throw` of a `std::exception`. -/
  | throw
  deriving DecidableEq

/-- A functor: what it does may depend on the task. -/
abbrev AraxFunctor : Type := TaskMsg → List FunctorStep

/-- How a functor ends. -/
inductive FunctorEnd where
  | returned
  | threw
  deriving DecidableEq

/-- The steps of a functor, up to its return or its exception. -/
def runFunctor : List FunctorStep → TaskMsg → TaskMsg × FunctorEnd
  | [], task => (task, .returned)
  | .compute :: rest, task => runFunctor rest task
  | .markDone state :: rest, task => runFunctor rest (araxTaskMarkDone task state)
  | .throw :: _, task => (task, .threw)

/-- The default `executeOperation`: it returns in both cases, with the lines that it prints. -/
def executeOperation (functor : AraxFunctor) (task : TaskMsg) : TaskMsg × List String :=
  match runFunctor (functor task) task with
  | (task, .returned) => (task, [])
  | (task, .threw) => (task, ["AraxFunctor !!! "])

/-- A task, and the references to it. -/
structure WorkedTask where
  task : TaskMsg
  refCount : Nat

/-- One iteration of `workFunc` with a selected task: a reference of its own, `executeOperation`,
`postTaskExecution` of the scheduler, which does nothing, and the reference again. -/
def workFuncIteration (functor : AraxFunctor) (w : WorkedTask) : WorkedTask :=
  let held := { w with refCount := w.refCount + 1 }
  let (task, _) := executeOperation functor held.task
  { task := task, refCount := held.refCount - 1 }

/-- A functor that marks the task done on each normal return, with a final state, but may throw at
any point before that. -/
structure Marking (steps : List FunctorStep) : Prop where
  final : ∀ state, .markDone state ∈ steps → state.Final
  marks : .throw ∉ steps → ∃ state, .markDone state ∈ steps
  before : ∀ first rest state, steps = first ++ .markDone state :: rest → .throw ∉ rest

/-- The client in `arax_task_wait` is released: the task is final, and `async_completion_wait`
returns. -/
def Released (task : TaskMsg) : Prop := task.state.Final ∧ (asyncCompletionWait task).isSome = true

section Iteration

variable {steps : List FunctorStep} {task : TaskMsg}

/-- A task that was marked done with a final state. -/
theorem released_markDone {state : TaskStateE} (final : state.Final) :
    Released (araxTaskMarkDone task state) :=
  ⟨final, rfl⟩

/-- A functor that does not throw leaves the task as its last `arax_task_mark_done` did. -/
theorem runFunctor_released (final : ∀ state, .markDone state ∈ steps → state.Final)
    (kept : .throw ∉ steps) (marks : Released task ∨ ∃ state, .markDone state ∈ steps) :
    Released (runFunctor steps task).1 := by
  induction steps generalizing task with
  | nil =>
    rcases marks with released | ⟨state, impossible⟩
    · exact released
    · cases impossible
  | cons step rest ih =>
    have later : ∀ state, .markDone state ∈ rest → state.Final :=
      fun state member => final state (List.mem_cons_of_mem step member)
    have quiet : .throw ∉ rest := fun member => kept (List.mem_cons_of_mem step member)
    cases step with
    | compute =>
      refine ih later quiet (marks.imp_right ?_)
      rintro ⟨state, member⟩
      exact ⟨state, (List.mem_cons.mp member).resolve_left nofun⟩
    | markDone state =>
      exact ih later quiet (.inl (released_markDone (final state List.mem_cons_self)))
    | throw => exact absurd List.mem_cons_self kept

/-- A functor that throws before it marks the task done leaves the task as it was. -/
theorem runFunctor_threw (throws : .throw ∈ steps)
    (before : ∀ first rest state, steps = first ++ .markDone state :: rest → .throw ∉ rest) :
    (runFunctor steps task).1 = task := by
  induction steps with
  | nil => cases throws
  | cons step rest ih =>
    cases step with
    | throw => rfl
    | compute =>
      refine ih ((List.mem_cons.mp throws).resolve_left nofun) fun first back state same => ?_
      exact before (.compute :: first) back state (congrArg _ same)
    | markDone state =>
      have later : .throw ∈ rest := (List.mem_cons.mp throws).resolve_left nofun
      exact absurd later (before [] rest state rfl)

/-- The iteration leaves the task as the functor did. -/
theorem workFuncIteration_task (functor : AraxFunctor) (w : WorkedTask) :
    (workFuncIteration functor w).task = (runFunctor (functor w.task) w.task).1 ∧
      (workFuncIteration functor w).refCount = w.refCount := by
  unfold workFuncIteration executeOperation
  dsimp only
  split
  next same => exact ⟨by rw [same], rfl⟩
  next same => exact ⟨by rw [same], rfl⟩

/-- **One iteration of the worker, exactly.** -/
theorem throwing_kernel_iff (functor : AraxFunctor) (w : WorkedTask)
    (submitted : w.task = .submitted) (marking : Marking (functor w.task)) :
    Released (workFuncIteration functor w).task ↔ .throw ∉ functor w.task := by
  rw [(workFuncIteration_task functor w).1]
  constructor
  · intro released throws
    rw [runFunctor_threw throws marking.before, submitted] at released
    rcases released.1 with failed | completed
    · cases failed
    · cases completed
  · intro kept
    exact runFunctor_released marking.final kept (.inr (marking.marks kept))

/-- A functor that computes and marks the task done. -/
theorem throwing_kernel_returns :
    Released (workFuncIteration (fun _ => [.compute, .markDone .taskCompleted])
      ⟨.submitted, 1⟩).task := by
  refine (throwing_kernel_iff _ ⟨.submitted, 1⟩ rfl ⟨?_, ?_, ?_⟩).mpr (by decide)
  · intro state member
    simp only [List.mem_cons, reduceCtorEq, FunctorStep.markDone.injEq, List.not_mem_nil, or_false,
      false_or] at member
    exact .inr member
  · exact fun _ => ⟨.taskCompleted, by decide⟩
  · intro first rest state same throws
    have all : .throw ∈ [FunctorStep.compute, .markDone .taskCompleted] := by
      rw [same]
      simp [throws]
    exact absurd all (by decide)

/-- A functor that throws at once leaves its client waiting. -/
theorem throwing_kernel_blocks : ¬∀ (functor : AraxFunctor) (w : WorkedTask),
    w.task = .submitted → Marking (functor w.task) →
    Released (workFuncIteration functor w).task := by
  intro all
  have marking : Marking [.throw] := by
    refine ⟨fun state member => ?_, fun kept => absurd List.mem_cons_self kept,
      fun first rest state same => ?_⟩
    · simp at member
    · have member : FunctorStep.markDone state ∈ [FunctorStep.throw] := by
        rw [same]
        simp
      simp at member
  have released := all (fun _ => [.throw]) ⟨.submitted, 1⟩ rfl marking
  exact absurd released.2 (by decide)

end Iteration

end Arax.Controller
