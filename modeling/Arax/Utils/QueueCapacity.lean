/-
**The ring queue by one thread, and the capacities it can have (`src/utils/queue.c`).**

`utilsQueuePush`, `utilsQueuePop` and `utilsQueuePeek` are whole calls, with nobody in between
(`push_alone`, `pop_alone` compare them with the accesses of `Arax.Utils.Queue`). `FifoRun` keeps
beside the queue what a bounded queue of the same capacity would hold.

* `fifoStep_inv` — as long as fewer than `2 ^ 16` elements are queued, the slots between the indices
  hold them in order.
* `matches_iff` — then, and only then, the two agree: with `2 ^ 16` elements the indices are equal,
  which is how an empty queue looks.
* `queue_capacity_iff` — so the queue is a bounded queue along a run unless its capacity is
  `2 ^ 16` and the run fills it.
-/

import Arax.Utils.Queue

namespace Arax.Utils

open Arax.Lib

variable {α : Type*}

/-- `utils_queue_pop`; the compare-and-swap succeeds. -/
def utilsQueuePop (capacity : Nat) (q : UtilsQueue α) : UtilsQueue α × Option α :=
  if q.bottom = q.top then (q, none)
  else ({ q with top := (q.top + 1) % indexRange }, q.entries (q.top &&& (capacity - 1)))

/-- `utils_queue_push`. -/
def utilsQueuePush (capacity : Nat) (q : UtilsQueue α) (data : α) : UtilsQueue α × Option α :=
  if usedSlots q.bottom q.top = capacity then (q, none)
  else
    ({ q with
        entries := Function.update q.entries (q.bottom &&& (capacity - 1)) (some data)
        bottom := (q.bottom + 1) % indexRange }, some data)

/-- `utils_queue_peek`. -/
def utilsQueuePeek (capacity : Nat) (q : UtilsQueue α) : Option α :=
  if q.bottom = q.top then none else q.entries (q.top &&& (capacity - 1))

/-! ### A call without interference -/

/-- The accesses of `utils_queue_pop` by one thread, with nobody in between. -/
theorem pop_alone (capacity : Nat) (s : RingRun α) (th : Nat) (idle : s.threads th = .idle) :
    ∃ accesses t,
      exec (ringStep capacity) s ((th, .pop) :: List.replicate accesses (th, .next)) = some t ∧
        t.q = (utilsQueuePop capacity s.q).1 ∧ t.threads th = .idle := by
  by_cases empty : s.q.bottom = s.q.top
  · refine ⟨1, ?_⟩
    simp [exec, ringStep, idle, popStep, RingRun.goto, utilsQueuePop, empty]
  · refine ⟨3, ?_⟩
    simp [exec, ringStep, idle, popStep, RingRun.goto, utilsQueuePop, empty]

/-- The accesses of `utils_queue_push` by one thread, with nobody in between. -/
theorem push_alone (capacity : Nat) (s : RingRun α) (th : Nat) (data : α)
    (idle : s.threads th = .idle) (free : s.q.lock = false) :
    ∃ accesses t,
      exec (ringStep capacity) s ((th, .push data) :: List.replicate accesses (th, .next)) =
          some t ∧
        t.q = (utilsQueuePush capacity s.q data).1 ∧ t.threads th = .idle := by
  have unlocked : { s.q with lock := false } = s.q := by rw [← free]
  by_cases full : usedSlots s.q.bottom s.q.top = capacity
  · refine ⟨3, ?_⟩
    simp [exec, ringStep, idle, free, popStep, pushStep, RingRun.goto, utilsQueuePush, full,
      unlocked]
  · refine ⟨5, ?_⟩
    simp [exec, ringStep, idle, free, popStep, pushStep, RingRun.goto, utilsQueuePush, full]

/-! ### The bounded queue -/

/-- A push on a queue of at most `capacity` elements. -/
def fifoPush (capacity : Nat) (queued : List α) (data : α) : List α :=
  if queued.length < capacity then queued ++ [data] else queued

/-- The queue, and the elements a bounded queue would hold after the same calls. -/
structure FifoRun (α : Type*) where
  q : UtilsQueue α
  queued : List α

/-- The calls of a run. -/
inductive QueueCall (α : Type*) where
  | push (data : α)
  | pop
  | peek

/-- One call, on the queue and on the bounded queue. -/
def fifoStep (capacity : Nat) (s : FifoRun α) : QueueCall α → Option (FifoRun α)
  | .push data => some ⟨(utilsQueuePush capacity s.q data).1, fifoPush capacity s.queued data⟩
  | .pop => some ⟨(utilsQueuePop capacity s.q).1, s.queued.tail⟩
  | .peek => some s

/-- The queue after `utils_queue_init`. -/
def fifoInit (α : Type*) : FifoRun α := ⟨utilsQueueInit α, []⟩

/-- **The queue behaves like the bounded queue.** What every call returns in this state. -/
structure QueueMatches (capacity : Nat) (s : FifoRun α) : Prop where
  bounded : s.queued.length ≤ capacity
  used : utilsQueueUsedSlots s.q = (s.queued.length : Int)
  pop : (utilsQueuePop capacity s.q).2 = s.queued.head?
  peek : utilsQueuePeek capacity s.q = s.queued.head?
  push : ∀ data, s.queued.length < capacity → (utilsQueuePush capacity s.q data).2 = some data
  full : ∀ data, s.queued.length = capacity → utilsQueuePush capacity s.q data = (s.q, none)

/-- The call does not fill a queue whose capacity is the range of the indices. -/
def NotFilled (capacity : Nat) (s : FifoRun α) : QueueCall α → Prop
  | .push _ => capacity < indexRange ∨ s.queued.length + 1 < indexRange
  | .pop | .peek => True

instance (capacity : Nat) (s : FifoRun α) : ∀ call, Decidable (NotFilled capacity s call)
  | .push _ => inferInstanceAs (Decidable (_ ∨ _))
  | .pop | .peek => isTrue trivial

/-! ### The invariant -/

/-- The slots between the indices hold the queued elements; `pops` counts the pops. -/
structure FifoInv (capacity pops : Nat) (s : FifoRun α) : Prop where
  top : s.q.top = pops % indexRange
  bottom : s.q.bottom = (pops + s.queued.length) % indexRange
  bounded : s.queued.length ≤ capacity
  slots : ∀ i, i < s.queued.length → s.q.entries ((pops + i) % capacity) = s.queued[i]?

theorem fifoInit_inv (capacity : Nat) : FifoInv capacity 0 (fifoInit α) where
  top := rfl
  bottom := rfl
  bounded := Nat.zero_le _
  slots := fun i high => absurd high (Nat.not_lt_zero i)

/-- The number of used slots that the indices can express. -/
theorem usedSlots_lt {bottom top : Nat} (bound : bottom < indexRange) :
    usedSlots bottom top < (indexRange : Int) := by
  unfold usedSlots
  split_ifs <;> omega

section Calls

variable {k pops : Nat} {s : FifoRun α}

/-- The indices are equal exactly if nothing is queued, up to `2 ^ 16` elements. -/
theorem FifoInv.empty_iff {capacity : Nat} (inv : FifoInv capacity pops s)
    (near : s.queued.length < indexRange) : s.q.bottom = s.q.top ↔ s.queued = [] := by
  rw [inv.bottom, inv.top, ← List.length_eq_zero_iff]
  unfold indexRange at near ⊢
  omega

/-- The number of used slots is the number of queued elements, up to `2 ^ 16` elements. -/
theorem FifoInv.used {capacity : Nat} (inv : FifoInv capacity pops s)
    (near : s.queued.length < indexRange) :
    usedSlots s.q.bottom s.q.top = (s.queued.length : Int) := by
  have distance : pops + s.queued.length - pops = s.queued.length := Nat.add_sub_cancel_left ..
  rw [inv.bottom, inv.top, usedSlots_eq (Nat.le_add_right ..) (distance.symm ▸ near), distance]

theorem FifoInv.entry (inv : FifoInv (2 ^ k) pops s) (small : k ≤ 16)
    (some : s.queued ≠ []) : s.q.entries (s.q.top &&& (2 ^ k - 1)) = s.queued.head? := by
  rw [inv.top, index_and_mask small, List.head?_eq_getElem?]
  exact inv.slots 0 (List.length_pos_iff.mpr some)

theorem FifoInv.full_iff {capacity : Nat} (inv : FifoInv capacity pops s)
    (near : s.queued.length < indexRange) :
    usedSlots s.q.bottom s.q.top = capacity ↔ ¬(s.queued.length < capacity) := by
  have bounded := inv.bounded
  rw [inv.used near]
  omega

/-- A pop takes the first of the queued elements. -/
theorem FifoInv.pop {capacity : Nat} (inv : FifoInv capacity pops s)
    (near : s.queued.length < indexRange) :
    ∃ pops', FifoInv capacity pops' ⟨(utilsQueuePop capacity s.q).1, s.queued.tail⟩ := by
  by_cases none : s.queued = []
  · refine ⟨pops, ?_⟩
    rw [utilsQueuePop, if_pos ((inv.empty_iff near).mpr none),
      show s.queued.tail = s.queued by rw [none]; rfl]
    exact ⟨inv.top, inv.bottom, inv.bounded, inv.slots⟩
  · have positive := List.length_pos_iff.mpr none
    have shorter : s.queued.tail.length = s.queued.length - 1 := List.length_tail
    refine ⟨pops + 1, ?_⟩
    rw [utilsQueuePop, if_neg fun same => none ((inv.empty_iff near).mp same)]
    refine ⟨?_, ?_, ?_, fun i high => ?_⟩
    · show (s.q.top + 1) % indexRange = (pops + 1) % indexRange
      rw [inv.top, Nat.mod_add_mod]
    · show s.q.bottom = (pops + 1 + s.queued.tail.length) % indexRange
      rw [inv.bottom, shorter, show pops + 1 + (s.queued.length - 1) = pops + s.queued.length by
        omega]
    · exact shorter.le.trans ((Nat.sub_le _ _).trans inv.bounded)
    · have high : i < s.queued.length - 1 := shorter ▸ high
      have next := inv.slots (i + 1) (by omega)
      rw [show pops + (i + 1) = pops + 1 + i by omega] at next
      rw [List.getElem?_tail]
      exact next

/-- A push appends if there is space, and changes nothing if there is none. -/
theorem FifoInv.push (inv : FifoInv (2 ^ k) pops s) (small : k ≤ 16)
    (near : s.queued.length < indexRange) (data : α) :
    FifoInv (2 ^ k) pops
      ⟨(utilsQueuePush (2 ^ k) s.q data).1, fifoPush (2 ^ k) s.queued data⟩ := by
  by_cases space : s.queued.length < 2 ^ k
  · rw [utilsQueuePush, if_neg fun same => (inv.full_iff near).mp same space, fifoPush,
      if_pos space]
    have longer : (s.queued ++ [data]).length = s.queued.length + 1 := List.length_append
    refine ⟨inv.top, ?_, longer.le.trans space, fun i high => ?_⟩
    · show (s.q.bottom + 1) % indexRange = (pops + (s.queued ++ [data]).length) % indexRange
      rw [longer, inv.bottom, Nat.mod_add_mod, Nat.add_assoc]
    · show Function.update s.q.entries _ _ _ = (s.queued ++ [data])[i]?
      have high : i < s.queued.length + 1 := longer ▸ high
      rw [inv.bottom, index_and_mask small]
      rcases Nat.lt_succ_iff_lt_or_eq.mp high with inside | rfl
      · have apart : (pops + i) % 2 ^ k ≠ (pops + s.queued.length) % 2 ^ k :=
          slot_ne (by omega) (by omega)
        rw [Function.update_of_ne apart, List.getElem?_append_left inside]
        exact inv.slots i inside
      · rw [Function.update_self, List.getElem?_append_right le_rfl, Nat.sub_self]
        rfl
  · rw [utilsQueuePush, if_pos ((inv.full_iff near).mpr space), fifoPush, if_neg space]
    exact inv

/-- **Where the queue and the bounded queue agree.** -/
theorem matches_iff (inv : FifoInv (2 ^ k) pops s) (small : k ≤ 16) :
    QueueMatches (2 ^ k) s ↔ s.queued.length < indexRange := by
  constructor
  · intro agree
    have range : usedSlots s.q.bottom s.q.top < (indexRange : Int) :=
      usedSlots_lt (inv.bottom ▸ Nat.mod_lt _ (by decide))
    have used := agree.used
    unfold utilsQueueUsedSlots at used
    omega
  · intro near
    have head : (if s.q.bottom = s.q.top then none
        else s.q.entries (s.q.top &&& (2 ^ k - 1))) = s.queued.head? := by
      split_ifs with same
      · rw [(inv.empty_iff near).mp same]
        rfl
      · exact inv.entry small fun none => same ((inv.empty_iff near).mpr none)
    refine ⟨inv.bounded, inv.used near, ?_, head, fun data space => ?_, fun data filled => ?_⟩
    · rw [← head, utilsQueuePop]
      split_ifs
      · rfl
      · rfl
    · rw [utilsQueuePush, if_neg fun same => (inv.full_iff near).mp same space]
    · rw [utilsQueuePush, if_pos ((inv.full_iff near).mpr filled.not_lt)]

/-- One call keeps the invariant where the two agree. -/
theorem fifoStep_inv {t : FifoRun α} {call : QueueCall α} (inv : FifoInv (2 ^ k) pops s)
    (small : k ≤ 16) (near : s.queued.length < indexRange)
    (step : fifoStep (2 ^ k) s call = some t) : ∃ pops', FifoInv (2 ^ k) pops' t := by
  cases call with
  | push data =>
    cases step
    exact ⟨pops, inv.push small near data⟩
  | pop =>
    cases step
    exact inv.pop near
  | peek =>
    cases step
    exact ⟨pops, inv⟩

/-- Only a push that fills a queue of `2 ^ 16` elements reaches `2 ^ 16` elements. -/
theorem near_iff {t : FifoRun α} {call : QueueCall α} (bounded : t.queued.length ≤ 2 ^ k)
    (small : k ≤ 16) (near : s.queued.length < indexRange)
    (step : fifoStep (2 ^ k) s call = some t) :
    t.queued.length < indexRange ↔ NotFilled (2 ^ k) s call := by
  have range : 2 ^ k ≤ indexRange := Nat.pow_le_pow_right (by decide) small
  cases call with
  | push data =>
    cases step
    show (fifoPush (2 ^ k) s.queued data).length < indexRange ↔
      2 ^ k < indexRange ∨ s.queued.length + 1 < indexRange
    have bounded : (fifoPush (2 ^ k) s.queued data).length ≤ 2 ^ k := bounded
    unfold fifoPush at bounded ⊢
    split_ifs at bounded ⊢ with space
    · rw [List.length_append, List.length_singleton] at bounded ⊢
      omega
    · omega
  | pop =>
    cases step
    have shorter : s.queued.tail.length ≤ s.queued.length := by
      rw [List.length_tail]
      exact Nat.sub_le _ _
    exact iff_of_true (shorter.trans_lt near) trivial
  | peek =>
    cases step
    exact iff_of_true near trivial

end Calls

/-- **The capacities of the queue.** For every power of two up to `65536` as capacity, and every
sequence of calls by one thread: the queue is a bounded queue of this capacity in every state, if
and only if the capacity is less than `65536` or no push is made on `65535` elements. -/
theorem queue_capacity_iff (k : Nat) (small : k ≤ 16) (calls : List (QueueCall α)) (s : FifoRun α)
    (run : exec (fifoStep (2 ^ k)) (fifoInit α) calls = some s) :
    Along (fifoStep (2 ^ k)) (QueueMatches (2 ^ k)) (fifoInit α) calls ↔
      Guarded (fifoStep (2 ^ k)) (NotFilled (2 ^ k)) (fifoInit α) calls := by
  have start := fifoInit_inv (α := α) (2 ^ k)
  refine along_iff_guarded (fun s => ∃ pops, FifoInv (2 ^ k) pops s)
    (fun s call t known good step => ?_) ⟨0, start⟩
    ((matches_iff start small).mpr (Nat.zero_lt_succ _)) run
  obtain ⟨pops, inv⟩ := known
  have near := (matches_iff inv small).mp good
  obtain ⟨pops', inv'⟩ := fifoStep_inv inv small near step
  exact ⟨⟨pops', inv'⟩, (matches_iff inv' small).trans (near_iff inv'.bounded small near step)⟩

/-- A queue of two slots that is filled, refuses a push, and serves its first element. -/
theorem queue_capacity_at_2 :
    Along (fifoStep (2 ^ 1)) (QueueMatches (2 ^ 1)) (fifoInit Nat)
      [.push 7, .push 8, .push 9, .pop, .peek] := by
  have filled : (exec (fifoStep (2 ^ 1)) (fifoInit Nat)
      [.push 7, .push 8, .push 9, .pop, .peek]).map FifoRun.queued = some [8] := by decide +kernel
  obtain ⟨s, run, -⟩ := Option.map_eq_some_iff.mp filled
  exact (queue_capacity_iff 1 (by decide) _ s run).mpr (by decide +kernel)

/-- The index of the pushes stays in its range. -/
theorem fifo_bottom_lt {capacity : Nat} {calls : List (QueueCall α)} {s : FifoRun α}
    (run : exec (fifoStep capacity) (fifoInit α) calls = some s) : s.q.bottom < indexRange := by
  let below : FifoRun α → Prop := fun s => s.q.bottom < indexRange
  have kept : ∀ s call t, below s → fifoStep capacity s call = some t → below t := by
    intro s call t below step
    cases call with
    | push data =>
      cases step
      show (utilsQueuePush capacity s.q data).1.bottom < indexRange
      unfold utilsQueuePush
      split_ifs
      · exact below
      · exact Nat.mod_lt _ (by decide)
    | pop =>
      cases step
      show (utilsQueuePop capacity s.q).1.bottom < indexRange
      unfold utilsQueuePop
      split_ifs
      · exact below
      · exact below
    | peek =>
      cases step
      exact below
  exact exec_invariant kept (Nat.zero_lt_succ _) run

/-- Pushes up to the capacity. -/
theorem exec_pushes {capacity : Nat} (data : α) (n : Nat) (s : FifoRun α)
    (space : s.queued.length + n ≤ capacity) :
    ∃ t, exec (fifoStep capacity) s (List.replicate n (.push data)) = some t ∧
      t.queued.length = s.queued.length + n := by
  induction n generalizing s with
  | zero => exact ⟨s, rfl, rfl⟩
  | succ n ih =>
    have longer : (fifoPush capacity s.queued data).length = s.queued.length + 1 := by
      rw [fifoPush, if_pos (by omega), List.length_append, List.length_singleton]
    obtain ⟨t, run, count⟩ := ih
      ⟨(utilsQueuePush capacity s.q data).1, fifoPush capacity s.queued data⟩
      (by show (fifoPush capacity s.queued data).length + n ≤ capacity; omega)
    refine ⟨t, run, count.trans ?_⟩
    show (fifoPush capacity s.queued data).length + n = s.queued.length + (n + 1)
    omega

/-- At the largest documented capacity, a queue with `65536` elements looks empty. -/
theorem queue_capacity_fails_at_65536 :
    ¬∀ k, k ≤ 16 → ∀ (calls : List (QueueCall Nat)) (s : FifoRun Nat),
      exec (fifoStep (2 ^ k)) (fifoInit Nat) calls = some s → QueueMatches (2 ^ k) s := by
  intro all
  obtain ⟨s, run, count⟩ := @exec_pushes _ (2 ^ 16) 1 (2 ^ 16) (fifoInit Nat) le_rfl
  have agree := all 16 le_rfl _ s run
  have range := @usedSlots_lt _ s.q.top (fifo_bottom_lt run)
  have used := agree.used
  unfold utilsQueueUsedSlots at used
  rw [used, count] at range
  exact absurd range (by decide)

end Arax.Utils
