/-
**Fairness of the round robin scheduler (`controller/src/Schedulers/RoundRobinScheduler.cpp`).**

One worker calls `selectTask` again and again on the VAQs of its snapshot, and clients push tasks
between the calls. `selectTask` starts behind the VAQ it served last, visits all VAQs in two loops,
and takes the first task it can pop.

* `roundRobinSelectTask` — the two loops over the queues, with `rr_counter` as an `int` of any
  value.
* `firstTask_ring` — the pops are those of `utils_queue_pop` on the ring queues.
* `rrPick_some`, `atCall_roundRobin` — a call picks the nearest VAQ with a task, so the calls go
  round robin (`RoundRobin`).
* `round_robin_fair` — a call returns nothing only if all queues are empty, and no VAQ waits for
  more calls than there are VAQs.
-/

import Mathlib.Algebra.Group.Int.Defs
import Arax.Core.DataQueues
import Arax.Lib.Rotation
import Arax.Utils.QueueCapacity

namespace Arax.Controller

open Arax.Lib Arax.Core Arax.Utils

variable {τ : Type*}

/-! ### The scheduler -/

/-- The queues of the VAQs, and `rr_counter[th]`. -/
structure RrState (τ : Type*) where
  queue : Nat → List τ
  rrCounter : Int

/-- `(rr_counter[th] + 1) % VACs.size()`; a negative `int` becomes a `size_t`. -/
def rrOffset (rrCounter : Int) (size : Nat) : Nat :=
  (if rrCounter + 1 < 0 then rrCounter + 1 + 2 ^ 64 else rrCounter + 1).toNat % size

/-- The VAQs with their positions, from `rr_point` to the end and from the start to `rr_point`. -/
def rrScan (vacs : List Nat) (offset : Nat) : List (Nat × Nat) :=
  vacs.zipIdx.drop offset ++ vacs.zipIdx.take offset

/-- The loops of `selectTask`: the first VAQ whose pop returns a task. -/
def firstTask (pop : Nat → Option τ) : List (Nat × Nat) → Option (Nat × Nat × τ)
  | [] => none
  | (vac, position) :: rest =>
    match pop vac with
    | some task => some (vac, position, task)
    | none => firstTask pop rest

/-- What the loops of `selectTask` find. -/
def rrPick (vacs : List Nat) (s : RrState τ) : Option (Nat × Nat × τ) :=
  firstTask (fun vac => (s.queue vac).head?) (rrScan vacs (rrOffset s.rrCounter vacs.length))

/-- `RoundRobinScheduler::selectTask`, with the VAQ the task comes from. -/
def roundRobinSelectTask (vacs : List Nat) (s : RrState τ) : RrState τ × Option (Nat × τ) :=
  if vacs.length = 0 then (s, none)
  else
    match rrPick vacs s with
    | none => (s, none)
    | some (vac, position, task) =>
      ({ queue := Function.update s.queue vac (s.queue vac).tail, rrCounter := position },
        some (vac, task))

/-- `utils_queue_push` by a client. -/
def pushTask (capacity : Nat) (s : RrState τ) (vac : Nat) (task : τ) : RrState τ :=
  { s with queue := Function.update s.queue vac (fifoPush capacity (s.queue vac) task) }

/-- The state in which the worker makes its call number `i`; `pushes i` are the pushes since the
call before. -/
def atCall (capacity : Nat) (vacs : List Nat) (s : RrState τ) (pushes : Nat → List (Nat × τ)) :
    Nat → RrState τ
  | 0 => (pushes 0).foldl (fun t push => pushTask capacity t push.1 push.2) s
  | i + 1 => (pushes (i + 1)).foldl (fun t push => pushTask capacity t push.1 push.2)
      (roundRobinSelectTask vacs (atCall capacity vacs s pushes i)).1

/-! ### The offset and the order -/

theorem rrOffset_lt (rrCounter : Int) {size : Nat} (positive : 0 < size) :
    rrOffset rrCounter size < size :=
  Nat.mod_lt _ positive

/-- After a task from some position, the search starts behind it. -/
theorem rrOffset_eq (position size : Nat) : rrOffset position size = (position + 1) % size := by
  have value : (if (position : Int) + 1 < 0 then (position : Int) + 1 + 2 ^ 64
      else (position : Int) + 1).toNat = position + 1 := by
    rw [if_neg (by omega)]
    omega
  rw [rrOffset, value]

/-- The offset after a task from some position. -/
theorem rrOffset_position {position size : Nat} (inside : position < size) :
    rrOffset position size = advance size position 1 := by
  rw [rrOffset_eq, advance]
  split_ifs with below
  · exact Nat.mod_eq_of_lt below
  · rw [show position + 1 = size by omega, Nat.mod_self, Nat.sub_self]

/-- From a position on, the order is that of the other models of the worker. -/
theorem rrScan_position (vacs : List Nat) (position : Nat) :
    rrScan vacs (rrOffset position vacs.length) = rrOrder vacs position := by
  rw [rrOffset_eq]
  rfl

/-- The VAQ that is visited after `d` others. -/
theorem rrScan_getElem? {vacs : List Nat} {offset d : Nat} (inside : offset < vacs.length)
    (few : d < vacs.length) :
    (rrScan vacs offset)[d]? =
      (vacs[advance vacs.length offset d]?).map fun vac => (vac, advance vacs.length offset d) := by
  have whole : vacs.zipIdx.length = vacs.length := List.length_zipIdx
  have dropped : (vacs.zipIdx.drop offset).length = vacs.length - offset := by
    rw [List.length_drop, whole]
  unfold rrScan advance
  split_ifs with first
  · rw [List.getElem?_append_left (by omega), List.getElem?_drop, List.getElem?_zipIdx,
      Nat.zero_add]
  · rw [List.getElem?_append_right (by omega), dropped, List.getElem?_take_of_lt (by omega),
      List.getElem?_zipIdx, Nat.zero_add,
      show d - (vacs.length - offset) = offset + d - vacs.length by omega]

theorem length_rrScan (vacs : List Nat) (offset : Nat) :
    (rrScan vacs offset).length = vacs.length := by
  unfold rrScan
  rw [List.length_append, List.length_drop, List.length_take, List.length_zipIdx]
  omega

/-- What is visited after `d` others. -/
theorem rrScan_visited {vacs : List Nat} {offset d vac position : Nat} (low : offset < vacs.length)
    (visited : (rrScan vacs offset)[d]? = some (vac, position)) :
    d < vacs.length ∧ position = advance vacs.length offset d ∧ vacs[position]? = some vac := by
  have few := (List.getElem?_eq_some_iff.mp visited).1
  rw [length_rrScan] at few
  rw [rrScan_getElem? low few] at visited
  obtain ⟨vac', here, same⟩ := Option.map_eq_some_iff.mp visited
  cases same
  exact ⟨few, rfl, here⟩

/-- Every VAQ is visited, at its distance from the start. -/
theorem rrScan_visits {vacs : List Nat} {offset vac position : Nat} (low : offset < vacs.length)
    (here : vacs[position]? = some vac) :
    (rrScan vacs offset)[distance vacs.length offset position]? = some (vac, position) := by
  have inside := (List.getElem?_eq_some_iff.mp here).1
  rw [rrScan_getElem? low (distance_lt low inside), advance_distance low inside, here]
  rfl

/-! ### One call -/

theorem firstTask_none {pop : Nat → Option τ} {scan : List (Nat × Nat)} :
    firstTask pop scan = none ↔
      ∀ i vac position : Nat, scan[i]? = some (vac, position) → pop vac = none := by
  induction scan with
  | nil => exact ⟨fun _ i vac position visited => (by cases visited), fun _ => rfl⟩
  | cons first rest ih =>
    obtain ⟨vac, position⟩ := first
    unfold firstTask
    cases task : pop vac with
    | some task' =>
      refine ⟨fun impossible => (by cases impossible), fun all => ?_⟩
      have none := all 0 vac position rfl
      rw [task] at none
      cases none
    | none =>
      rw [ih]
      constructor
      · intro later i vac' position' visited
        cases i with
        | zero =>
          cases visited
          exact task
        | succ i => exact later i vac' position' visited
      · exact fun all i vac' position' visited => all (i + 1) vac' position' visited

/-- The task comes from the first VAQ that has one. -/
theorem firstTask_some {pop : Nat → Option τ} {vac position : Nat} {task : τ} :
    ∀ {scan : List (Nat × Nat)}, firstTask pop scan = some (vac, position, task) →
      ∃ d, scan[d]? = some (vac, position) ∧ pop vac = some task ∧
        ∀ e vac' position' : Nat, e < d → scan[e]? = some (vac', position') → pop vac' = none
  | [], found => by cases found
  | (first, place) :: rest, found => by
    unfold firstTask at found
    cases popped : pop first with
    | some task' =>
      rw [popped] at found
      cases found
      exact ⟨0, rfl, popped, fun e _ _ low => absurd low (Nat.not_lt_zero e)⟩
    | none =>
      rw [popped] at found
      obtain ⟨d, visited, value, before⟩ := firstTask_some found
      refine ⟨d + 1, visited, value, fun e vac' position' low there => ?_⟩
      cases e with
      | zero =>
        cases there
        exact popped
      | succ e => exact before e vac' position' (Nat.lt_of_succ_lt_succ low) there

/-- On ring queues that hold these lists, the same task is found. -/
theorem firstTask_ring {capacity : Nat} {rings : Nat → UtilsQueue τ} {s : RrState τ}
    (agree : ∀ vac, QueueMatches capacity ⟨rings vac, s.queue vac⟩) (scan : List (Nat × Nat)) :
    firstTask (fun vac => (utilsQueuePop capacity (rings vac)).2) scan =
      firstTask (fun vac => (s.queue vac).head?) scan := by
  have pops : (fun vac => (utilsQueuePop capacity (rings vac)).2) =
      fun vac => (s.queue vac).head? := by
    funext vac
    exact (agree vac).pop
  rw [pops]

section Turns

variable {vacs : List Nat} {s : RrState τ}

/-- Nothing is found exactly if all queues are empty. -/
theorem rrPick_none (positive : 0 < vacs.length) :
    rrPick vacs s = none ↔ ∀ vac ∈ vacs, s.queue vac = [] := by
  have low := rrOffset_lt s.rrCounter positive
  unfold rrPick
  rw [firstTask_none]
  constructor
  · intro all vac member
    obtain ⟨p, here⟩ := List.mem_iff_getElem?.mp member
    exact List.head?_eq_none_iff.mp (all _ _ _ (rrScan_visits low here))
  · intro empty i vac position visited
    obtain ⟨-, -, here⟩ := rrScan_visited low visited
    rw [empty vac (List.mem_of_getElem? here)]
    rfl

/-- **One call of `selectTask`.** The task comes from the VAQ nearest to the start that has one. -/
theorem rrPick_some {vac position : Nat} {task : τ} (positive : 0 < vacs.length)
    (found : rrPick vacs s = some (vac, position, task)) :
    vacs[position]? = some vac ∧ position < vacs.length ∧
      ∀ q vac', vacs[q]? = some vac' → s.queue vac' ≠ [] →
        distance vacs.length (rrOffset s.rrCounter vacs.length) position ≤
          distance vacs.length (rrOffset s.rrCounter vacs.length) q := by
  have low := rrOffset_lt s.rrCounter positive
  obtain ⟨d, visited, -, before⟩ := firstTask_some found
  obtain ⟨few, rfl, here⟩ := rrScan_visited low visited
  refine ⟨here, advance_lt low few.le, fun q vac' there busy => ?_⟩
  rw [distance_advance low few]
  by_contra nearer
  have earlier := before _ _ _ (Nat.lt_of_not_le nearer) (rrScan_visits low there)
  exact busy (List.head?_eq_none_iff.mp earlier)

theorem roundRobinSelectTask_eq (positive : 0 < vacs.length) :
    (roundRobinSelectTask vacs s).2 = (rrPick vacs s).map fun found => (found.1, found.2.2) := by
  unfold roundRobinSelectTask
  rw [if_neg positive.ne']
  cases rrPick vacs s with
  | none => rfl
  | some found => rfl

theorem roundRobinSelectTask_rrCounter {vac position : Nat} {task : τ} (positive : 0 < vacs.length)
    (found : rrPick vacs s = some (vac, position, task)) :
    (roundRobinSelectTask vacs s).1.rrCounter = position := by
  unfold roundRobinSelectTask
  rw [if_neg positive.ne', found]

end Turns

/-! ### Runs -/

section Runs

variable {capacity : Nat} {vacs : List Nat} {s : RrState τ} {pushes : Nat → List (Nat × τ)}

/-- Pushes do not change the counter. -/
theorem pushes_rrCounter (capacity : Nat) (s : RrState τ) (pushes : List (Nat × τ)) :
    (pushes.foldl (fun t push => pushTask capacity t push.1 push.2) s).rrCounter =
      s.rrCounter := by
  induction pushes generalizing s with
  | nil => rfl
  | cons push rest ih => exact ih (pushTask capacity s push.1 push.2)

theorem atCall_rrCounter (i : Nat) :
    (atCall capacity vacs s pushes (i + 1)).rrCounter =
      (roundRobinSelectTask vacs (atCall capacity vacs s pushes i)).1.rrCounter :=
  pushes_rrCounter capacity _ _

/-- **The calls of a worker go round robin.** -/
theorem atCall_roundRobin (positive : 0 < vacs.length) :
    RoundRobin vacs.length
      (fun i p => ∃ vac, vacs[p]? = some vac ∧ (atCall capacity vacs s pushes i).queue vac ≠ [])
      (fun i => rrOffset (atCall capacity vacs s pushes i).rrCounter vacs.length)
      (fun i => (rrPick vacs (atCall capacity vacs s pushes i)).map fun found => found.2.1) where
  start_lt i := rrOffset_lt _ positive
  nothing i none p inside := by
    rintro ⟨vac, here, busy⟩
    exact busy ((rrPick_none positive).mp (Option.map_eq_none_iff.mp none) vac
      (List.mem_of_getElem? here))
  nearest i p hit := by
    obtain ⟨⟨vac, position, task⟩, found, rfl⟩ := Option.map_eq_some_iff.mp hit
    obtain ⟨_, inside, nearest⟩ := rrPick_some positive found
    exact ⟨inside, fun q _ ⟨vac', there, busy⟩ => nearest q vac' there busy⟩
  next i p hit := by
    obtain ⟨⟨vac, position, task⟩, found, rfl⟩ := Option.map_eq_some_iff.mp hit
    obtain ⟨_, inside, _⟩ := rrPick_some positive found
    show rrOffset (atCall capacity vacs s pushes (i + 1)).rrCounter _ = _
    rw [atCall_rrCounter, roundRobinSelectTask_rrCounter positive found]
    exact rrOffset_position inside

end Runs

/-- **Round robin fairness.** Whatever the counter is at first, and whatever clients push between
the calls of the worker: a call returns nothing exactly if the queues of all VAQs are empty, and a
VAQ that has tasks at as many calls in a row as there are VAQs is served by one of them. -/
theorem round_robin_fair (capacity : Nat) (vacs : List Nat) (s : RrState τ)
    (pushes : Nat → List (Nat × τ)) :
    (∀ i, (roundRobinSelectTask vacs (atCall capacity vacs s pushes i)).2 = none ↔
      ∀ vac ∈ vacs, (atCall capacity vacs s pushes i).queue vac = []) ∧
    ∀ i, ∀ vac ∈ vacs, (∀ j, i ≤ j → j < i + vacs.length →
        (atCall capacity vacs s pushes j).queue vac ≠ []) →
      ∃ j task, i ≤ j ∧ j < i + vacs.length ∧
        (roundRobinSelectTask vacs (atCall capacity vacs s pushes j)).2 = some (vac, task) := by
  constructor
  · intro i
    rcases Nat.eq_zero_or_pos vacs.length with none | positive
    · rw [List.length_eq_zero_iff.mp none]
      exact iff_of_true rfl fun vac member => by cases member
    · rw [roundRobinSelectTask_eq positive, Option.map_eq_none_iff, rrPick_none positive]
  · intro i vac member waits
    obtain ⟨p, inside, rfl⟩ := List.mem_iff_getElem.mp member
    have positive : 0 < vacs.length := Nat.zero_lt_of_lt inside
    have here := List.getElem?_eq_getElem inside
    obtain ⟨j, low, high, hit⟩ := (atCall_roundRobin positive).bounded_waiting inside
      fun j low high => ⟨vacs[p], here, waits j low high⟩
    obtain ⟨⟨vac, position, task⟩, found, rfl⟩ := Option.map_eq_some_iff.mp hit
    have place := (rrPick_some positive found).1
    rw [here] at place
    refine ⟨j, task, low, high, ?_⟩
    rw [roundRobinSelectTask_eq positive, found, Option.some.inj place]
    rfl

end Arax.Controller
