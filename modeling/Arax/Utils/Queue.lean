/-
**The ring queue under concurrency (`src/utils/queue.c`).**

`UtilsQueue` is `struct queue`: the slots, the 16-bit indices `bottom` (push here) and `top` (pop
here), and the lock of the producers. The functions are cut at their accesses to shared memory, so
that a state holds, for every thread, how far its call of `utils_queue_pop` or `utils_queue_push`
has come:

* pop — load `top`, load `bottom`, load the entry, compare-and-swap `top`;
* push — take the lock, load `bottom`, load `top`, store the entry, store `bottom`, drop the lock.

`RingRun` records beside the queue what was pushed (in the order of the stores to `bottom`), what
was popped (in the order of the swaps), and how many pops there were when a consumer loaded `top`.

* `ring_inv` — the invariant over all interleavings: the indices are the numbers of pushes and pops
  modulo `2 ^ 16`, and the slots between them hold what was pushed.
* `queue_fifo` — what was popped is a prefix of what was pushed, at most a capacity behind.
-/

import Mathlib.Data.List.Basic
import Mathlib.Algebra.Order.Group.Nat
import Mathlib.Logic.Function.Basic
import Mathlib.Tactic.SplitIfs
import Arax.Lib.Run

namespace Arax.Utils

open Arax.Lib

/-- `UINT16_MAX + 1`. -/
def indexRange : Nat := 2 ^ 16

/-- `struct queue`; a `NULL` entry is `none`. -/
structure UtilsQueue (α : Type*) where
  entries : Nat → Option α
  lock : Bool
  bottom : Nat
  top : Nat

/-- `utils_queue_init`. -/
def utilsQueueInit (α : Type*) : UtilsQueue α where
  entries := fun _ => none
  lock := false
  bottom := 0
  top := 0

/-- The number of used slots between two indices, as `utils_queue_used_slots` and
`utils_queue_push` compute it: a difference of type `int`, corrected if it is negative. -/
def usedSlots (bottom top : Nat) : Int :=
  if (bottom : Int) - top < 0 then (bottom : Int) - top + indexRange else (bottom : Int) - top

/-- `utils_queue_used_slots`. -/
def utilsQueueUsedSlots {α : Type*} (q : UtilsQueue α) : Int := usedSlots q.bottom q.top

/-- How far a thread has come in its call. -/
inductive QueueThread (α : Type*) where
  | idle
  /-- `utils_queue_pop` has loaded `top`. -/
  | popTop (t : Nat)
  /-- `utils_queue_pop` has loaded `bottom`, and it is not `t`. -/
  | popBottom (t : Nat)
  /-- `utils_queue_pop` has loaded the entry. -/
  | popEntry (t : Nat) (ret : Option α)
  /-- `utils_queue_push` holds the lock. -/
  | pushLocked (data : α)
  /-- `utils_queue_push` has loaded `bottom`. -/
  | pushBottom (data : α) (b : Nat)
  /-- `utils_queue_push` has loaded `top` and found space. -/
  | pushSlot (data : α) (b : Nat)
  /-- `utils_queue_push` has stored the entry. -/
  | pushStored (data : α) (b : Nat)
  /-- `utils_queue_push` is at `RETURN`. -/
  | pushUnlock

/-- What a thread does next: enter a function, or make the next access of the one it is in. -/
inductive QueueMove (α : Type*) where
  | pop
  | push (data : α)
  | next

/-- The queue, its threads, and the record of the run. -/
structure RingRun (α : Type*) where
  q : UtilsQueue α
  threads : Nat → QueueThread α
  pushed : List α
  popped : List (Option α)
  /-- The number of pops at the time the thread loaded `top`. -/
  since : Nat → Nat

variable {α : Type*}

/-- The queue after `utils_queue_init`, no thread inside a call. -/
def ringInit (α : Type*) : RingRun α where
  q := utilsQueueInit α
  threads := fun _ => .idle
  pushed := []
  popped := []
  since := fun _ => 0

/-- The thread `th` is now at `place`. -/
def RingRun.goto (s : RingRun α) (th : Nat) (place : QueueThread α) : RingRun α :=
  { s with threads := Function.update s.threads th place }

/-- A shared access of `utils_queue_pop`. -/
def popStep (capacity : Nat) (s : RingRun α) (th : Nat) : QueueThread α → Option (RingRun α)
  | .popTop t => some (if s.q.bottom = t then s.goto th .idle else s.goto th (.popBottom t))
  | .popBottom t => some (s.goto th (.popEntry t (s.q.entries (t &&& (capacity - 1)))))
  | .popEntry t ret =>
    some (if s.q.top = t then
        { s.goto th .idle with
          q := { s.q with top := (t + 1) % indexRange }, popped := s.popped ++ [ret] }
      else s.goto th .idle)
  | _ => none

/-- A shared access of `utils_queue_push`. -/
def pushStep (capacity : Nat) (s : RingRun α) (th : Nat) : QueueThread α → Option (RingRun α)
  | .pushLocked data => some (s.goto th (.pushBottom data s.q.bottom))
  | .pushBottom data b =>
    some (if usedSlots b s.q.top = capacity then s.goto th .pushUnlock
      else s.goto th (.pushSlot data b))
  | .pushSlot data b =>
    some { s.goto th (.pushStored data b) with
      q := { s.q with entries := Function.update s.q.entries (b &&& (capacity - 1)) (some data) } }
  | .pushStored data b =>
    some { s.goto th .pushUnlock with
      q := { s.q with bottom := (b + 1) % indexRange }, pushed := s.pushed ++ [data] }
  | .pushUnlock => some { s.goto th .idle with q := { s.q with lock := false } }
  | _ => none

/-- One move of one thread; the spinlock lets a producer in only if no other one is. -/
def ringStep (capacity : Nat) (s : RingRun α) : Nat × QueueMove α → Option (RingRun α)
  | (th, .pop) =>
    match s.threads th with
    | .idle => some { s.goto th (.popTop s.q.top) with
        since := Function.update s.since th s.popped.length }
    | _ => none
  | (th, .push data) =>
    match s.threads th with
    | .idle => if s.q.lock then none
        else some { s.goto th (.pushLocked data) with q := { s.q with lock := true } }
    | _ => none
  | (th, .next) => (popStep capacity s th (s.threads th)).or (pushStep capacity s th (s.threads th))

/-- At its swap, a consumer has not been overtaken by a full turn of the 16-bit index. -/
def NotLapped (s : RingRun α) : Nat × QueueMove α → Prop
  | (th, .next) =>
    match s.threads th with
    | .popEntry _ _ => s.popped.length - s.since th < indexRange
    | _ => True
  | _ => True

instance (s : RingRun α) : ∀ act, Decidable (NotLapped s act)
  | (_, .pop) => isTrue trivial
  | (_, .push _) => isTrue trivial
  | (th, .next) =>
    match place : s.threads th with
    | .popEntry _ _ => decidable_of_iff (s.popped.length - s.since th < indexRange)
        (by simp only [NotLapped, place])
    | .idle | .popTop _ | .popBottom _ | .pushLocked _ | .pushBottom _ _ | .pushSlot _ _
    | .pushStored _ _ | .pushUnlock => isTrue (by simp only [NotLapped, place])

/-! ### Positions and indices -/

/-- Two positions less than a capacity apart use different slots. -/
theorem slot_ne {capacity p r : Nat} (low : p < r) (near : r < p + capacity) :
    p % capacity ≠ r % capacity := by
  intro same
  have parts := Nat.sub_mod_eq_zero_of_mod_eq same.symm
  rw [Nat.mod_eq_of_lt (by omega)] at parts
  omega

/-- The 16-bit indices give the distance of two positions at most a capacity apart. -/
theorem usedSlots_eq {bottom top : Nat} (order : top ≤ bottom) (near : bottom - top < indexRange) :
    usedSlots (bottom % indexRange) (top % indexRange) = ((bottom - top : Nat) : Int) := by
  unfold usedSlots
  unfold indexRange at near ⊢
  split_ifs <;> omega

/-- Masking an index with `capacity - 1` gives the slot of its position. -/
theorem index_and_mask {k : Nat} (small : k ≤ 16) (p : Nat) :
    p % indexRange &&& (2 ^ k - 1) = p % 2 ^ k := by
  rw [Nat.and_two_pow_sub_one_eq_mod]
  exact Nat.mod_mod_of_dvd p (Nat.pow_dvd_pow 2 (by omega))

/-! ### The invariant -/

/-- A thread between lock and unlock of `utils_queue_push`. -/
def QueueThread.holdsLock : QueueThread α → Bool
  | .pushLocked _ | .pushBottom _ _ | .pushSlot _ _ | .pushStored _ _ | .pushUnlock => true
  | _ => false

/-- What a thread knows. A consumer knows something about the queue only as long as no pop came
after its load of `top`; a producer knows `bottom`, since it holds the lock. -/
def ThreadInv (capacity : Nat) (s : RingRun α) (since : Nat) : QueueThread α → Prop
  | .idle | .pushLocked _ | .pushUnlock => True
  | .popTop t => since ≤ s.popped.length ∧ t = since % indexRange
  | .popBottom t => since ≤ s.popped.length ∧ t = since % indexRange ∧
      (s.popped.length = since → since < s.pushed.length)
  | .popEntry t ret => since ≤ s.popped.length ∧ t = since % indexRange ∧
      (s.popped.length = since → since < s.pushed.length ∧ ret = s.pushed[since]?)
  | .pushBottom _ b => b = s.q.bottom
  | .pushSlot _ b => b = s.q.bottom ∧ s.pushed.length < s.popped.length + capacity
  | .pushStored data b => b = s.q.bottom ∧ s.pushed.length < s.popped.length + capacity ∧
      s.q.entries (s.pushed.length % capacity) = some data

/-- The queue between its two positions, the number of pops and the number of pushes. -/
structure SlotsInv (capacity : Nat) (s : RingRun α) : Prop where
  top : s.q.top = s.popped.length % indexRange
  bottom : s.q.bottom = s.pushed.length % indexRange
  order : s.popped.length ≤ s.pushed.length
  room : s.pushed.length ≤ s.popped.length + capacity
  slots : ∀ p, s.popped.length ≤ p → p < s.pushed.length →
    s.q.entries (p % capacity) = s.pushed[p]?
  fifo : s.popped <+: s.pushed.map some

/-- The invariant of the ring queue. -/
structure RingInv (capacity : Nat) (s : RingRun α) : Prop extends SlotsInv capacity s where
  threads : ∀ th, ThreadInv capacity s (s.since th) (s.threads th)
  locked : ∀ th, (s.threads th).holdsLock = true → s.q.lock = true
  alone : ∀ th other, (s.threads th).holdsLock = true → (s.threads other).holdsLock = true →
    th = other

/-- A prefix of the pushes grows by the next of them. -/
theorem prefix_next {pushed : List α} {popped : List (Option α)} (fifo : popped <+: pushed.map some)
    (filled : popped.length < pushed.length) :
    popped ++ [pushed[popped.length]?] <+: pushed.map some := by
  obtain ⟨rest, whole⟩ := fifo
  have next : (pushed.map some)[popped.length]? = rest[0]? := by
    rw [← whole, List.getElem?_append_right le_rfl, Nat.sub_self]
  rw [List.getElem?_map, List.getElem?_eq_getElem filled] at next
  cases rest with
  | nil => cases next
  | cons head tail =>
    cases next
    refine ⟨tail, ?_⟩
    rw [List.getElem?_eq_getElem filled, List.append_assoc]
    exact whole

theorem ringInit_inv (capacity : Nat) : RingInv capacity (ringInit α) where
  top := rfl
  bottom := rfl
  order := Nat.le_refl 0
  room := Nat.zero_le _
  slots := fun p _ high => absurd high (Nat.not_lt_zero p)
  fifo := List.nil_prefix
  threads := fun _ => trivial
  locked := fun _ holds => by cases holds
  alone := fun _ _ holds => by cases holds

theorem SlotsInv.near {k : Nat} {s : RingRun α} (inv : SlotsInv (2 ^ k) s) (small : k ≤ 15) :
    s.pushed.length - s.popped.length < indexRange := by
  have bound : 2 ^ k ≤ 2 ^ 15 := Nat.pow_le_pow_right (by decide) small
  calc s.pushed.length - s.popped.length ≤ 2 ^ k := Nat.sub_le_iff_le_add'.mpr inv.room
    _ < indexRange := bound.trans_lt (by decide)

/-- What a thread knows survives the moves of the others: pops and pushes are only added, and while
it holds the lock no one else pushes. -/
theorem ThreadInv.frame {capacity since : Nat} {s t : RingRun α} {place : QueueThread α}
    (known : ThreadInv capacity s since place) (pops : s.popped.length ≤ t.popped.length)
    (pushes : s.pushed <+: t.pushed)
    (kept : place.holdsLock = true →
      t.q.bottom = s.q.bottom ∧ t.q.entries = s.q.entries ∧ t.pushed = s.pushed) :
    ThreadInv capacity t since place := by
  have length := pushes.length_le
  cases place with
  | idle => trivial
  | pushLocked data => trivial
  | pushUnlock => trivial
  | popTop t => exact ⟨known.1.trans pops, known.2⟩
  | popBottom t =>
    refine ⟨known.1.trans pops, known.2.1, fun same => ?_⟩
    exact (known.2.2 (le_antisymm (same ▸ pops) known.1)).trans_le length
  | popEntry t ret =>
    refine ⟨known.1.trans pops, known.2.1, fun same => ?_⟩
    obtain ⟨inside, value⟩ := known.2.2 (le_antisymm (same ▸ pops) known.1)
    refine ⟨inside.trans_le length, ?_⟩
    obtain ⟨more, whole⟩ := pushes
    rw [value, ← whole, List.getElem?_append_left inside]
  | pushBottom data b => exact known.trans (kept rfl).1.symm
  | pushSlot data b =>
    obtain ⟨bottom, entries, pushed⟩ := kept rfl
    rw [ThreadInv, bottom, pushed]
    exact ⟨known.1, known.2.trans_le (Nat.add_le_add_right pops _)⟩
  | pushStored data b =>
    obtain ⟨bottom, entries, pushed⟩ := kept rfl
    rw [ThreadInv, bottom, pushed, entries]
    exact ⟨known.1, known.2.1.trans_le (Nat.add_le_add_right pops _), known.2.2⟩

/-- **One move of one thread.** The invariant after a move that takes the thread `th` to `place`:
what `place` knows, the slots, and the lock. -/
theorem RingInv.move {capacity th : Nat} {s t : RingRun α} {place : QueueThread α}
    (inv : RingInv capacity s) (slots : SlotsInv capacity t)
    (threads : t.threads = Function.update s.threads th place)
    (since : ∀ other, other ≠ th → t.since other = s.since other)
    (own : ThreadInv capacity t (t.since th) place)
    (pops : s.popped.length ≤ t.popped.length) (pushes : s.pushed <+: t.pushed)
    (kept : ∀ other, other ≠ th → (s.threads other).holdsLock = true → t.q.lock = true ∧
      t.q.bottom = s.q.bottom ∧ t.q.entries = s.q.entries ∧ t.pushed = s.pushed)
    (mine : place.holdsLock = true → t.q.lock = true ∧
      ∀ other, other ≠ th → (s.threads other).holdsLock = false) :
    RingInv capacity t := by
  have here : t.threads th = place := by rw [threads, Function.update_self]
  have there : ∀ other, other ≠ th → t.threads other = s.threads other := fun other ne => by
    rw [threads, Function.update_of_ne ne]
  have exclusive : ∀ other, other ≠ th → (t.threads th).holdsLock = true →
      ¬(t.threads other).holdsLock = true := by
    intro other ne holds
    rw [here] at holds
    rw [there other ne, (mine holds).2 other ne]
    exact Bool.false_ne_true
  refine ⟨slots, fun other => ?_, fun other holds => ?_, fun one two first second => ?_⟩
  · by_cases same : other = th
    · rw [same, here]
      exact own
    · rw [there other same, since other same]
      exact (inv.threads other).frame pops pushes fun holds => (kept other same holds).2
  · by_cases same : other = th
    · rw [same, here] at holds
      exact (mine holds).1
    · rw [there other same] at holds
      exact (kept other same holds).1
  · by_cases left : one = th
    · by_cases right : two = th
      · rw [left, right]
      · exact absurd second (exclusive two right (left ▸ first))
    · by_cases right : two = th
      · exact absurd first (exclusive one left (right ▸ second))
      · rw [there one left] at first
        rw [there two right] at second
        exact inv.alone one two first second

/-- A move that changes neither the queue nor the record. -/
theorem RingInv.goto {capacity th : Nat} {s : RingRun α} {place : QueueThread α}
    (inv : RingInv capacity s) (own : ThreadInv capacity (s.goto th place) (s.since th) place)
    (held : place.holdsLock = true → (s.threads th).holdsLock = true) :
    RingInv capacity (s.goto th place) := by
  refine inv.move ⟨inv.top, inv.bottom, inv.order, inv.room, inv.slots, inv.fifo⟩ rfl
    (fun _ _ => rfl) own le_rfl List.prefix_rfl
    (fun other _ holds => ⟨inv.locked other holds, rfl, rfl, rfl⟩) fun holds => ?_
  refine ⟨inv.locked th (held holds), fun other ne => ?_⟩
  by_contra both
  exact ne (inv.alone other th (Bool.not_eq_false _ ▸ both) (held holds))

/-! ### The consumer -/

section Steps

variable {k th : Nat} {s t : RingRun α}

/-- Entering `utils_queue_pop`: `top` is the number of pops. -/
theorem RingInv.loadTop (inv : RingInv (2 ^ k) s) :
    RingInv (2 ^ k) { s.goto th (.popTop s.q.top) with
      since := Function.update s.since th s.popped.length } := by
  refine inv.move ⟨inv.top, inv.bottom, inv.order, inv.room, inv.slots, inv.fifo⟩ rfl
    (fun other ne => Function.update_of_ne ne _ _) ?_ le_rfl List.prefix_rfl
    (fun other _ holds => ⟨inv.locked other holds, rfl, rfl, rfl⟩) fun holds => by cases holds
  show ThreadInv _ _ (Function.update s.since th s.popped.length th) _
  rw [Function.update_self]
  exact ⟨le_rfl, inv.top⟩

/-- As long as no pop came between, an index `bottom` other than the `top` loaded before means that
the position is filled. -/
theorem RingInv.loadBottom {i : Nat} (inv : RingInv (2 ^ k) s)
    (place : s.threads th = .popTop i) (differs : s.q.bottom ≠ i) :
    RingInv (2 ^ k) (s.goto th (.popBottom i)) := by
  have known := inv.threads th
  rw [place] at known
  refine inv.goto ⟨known.1, known.2, fun same => ?_⟩ fun holds => by cases holds
  have order := inv.order
  refine lt_of_le_of_ne (same ▸ order) fun equal => differs ?_
  rw [inv.bottom, known.2]
  exact congrArg (· % indexRange) equal.symm

theorem RingInv.loadEntry {i : Nat} (inv : RingInv (2 ^ k) s) (small : k ≤ 15)
    (place : s.threads th = .popBottom i) :
    RingInv (2 ^ k) (s.goto th (.popEntry i (s.q.entries (i &&& (2 ^ k - 1))))) := by
  have known := inv.threads th
  rw [place] at known
  refine inv.goto ⟨known.1, known.2.1, fun same => ?_⟩ fun holds => by cases holds
  have filled := known.2.2 same
  refine ⟨filled, ?_⟩
  rw [known.2.1, index_and_mask (by omega)]
  exact inv.slots _ same.le filled

/-- The swap: if `top` is still the loaded index, and no full turn came between, then no pop came
between, and the loaded entry is the next one of the pushes. -/
theorem RingInv.casTop {i : Nat} {ret : Option α} (inv : RingInv (2 ^ k) s)
    (place : s.threads th = .popEntry i ret) (lap : s.popped.length - s.since th < indexRange)
    (unchanged : s.q.top = i) :
    RingInv (2 ^ k) { s.goto th .idle with
      q := { s.q with top := (i + 1) % indexRange }, popped := s.popped ++ [ret] } := by
  have known := inv.threads th
  rw [place] at known
  obtain ⟨order, index, value⟩ := known
  have same : s.popped.length = s.since th := by
    have agree : s.popped.length % indexRange = s.since th % indexRange := by
      rw [← inv.top, unchanged, index]
    have none := Nat.sub_mod_eq_zero_of_mod_eq agree
    rw [Nat.mod_eq_of_lt lap] at none
    omega
  obtain ⟨filled, entry⟩ := value same
  have more : (s.popped ++ [ret]).length = s.popped.length + 1 := List.length_append
  refine inv.move ⟨?_, inv.bottom, ?_, ?_, ?_, ?_⟩ rfl (fun _ _ => rfl) trivial
    (Nat.le.intro more.symm) List.prefix_rfl
    (fun other _ holds => ⟨inv.locked other holds, rfl, rfl, rfl⟩) fun holds => by cases holds
  · show (i + 1) % indexRange = (s.popped ++ [ret]).length % indexRange
    rw [more, ← unchanged, inv.top, Nat.mod_add_mod]
  · show (s.popped ++ [ret]).length ≤ s.pushed.length
    rw [more, same]
    exact filled
  · show s.pushed.length ≤ (s.popped ++ [ret]).length + 2 ^ k
    rw [more]
    exact inv.room.trans (by omega)
  · intro p low high
    refine inv.slots p (le_trans ?_ low) high
    show s.popped.length ≤ (s.popped ++ [ret]).length
    rw [more]
    exact Nat.le_succ _
  · show s.popped ++ [ret] <+: s.pushed.map some
    rw [entry, ← same]
    exact prefix_next inv.fifo (same ▸ filled)

/-! ### The producer -/

theorem RingInv.enterPush {data : α} (inv : RingInv (2 ^ k) s) (free : s.q.lock = false) :
    RingInv (2 ^ k) { s.goto th (.pushLocked data) with q := { s.q with lock := true } } := by
  have none : ∀ other, (s.threads other).holdsLock = false := by
    intro other
    by_contra holds
    rw [inv.locked other (Bool.not_eq_false _ ▸ holds)] at free
    cases free
  refine inv.move ⟨inv.top, inv.bottom, inv.order, inv.room, inv.slots, inv.fifo⟩ rfl
    (fun _ _ => rfl) trivial le_rfl List.prefix_rfl (fun other _ holds => ?_)
    fun _ => ⟨rfl, fun other _ => none other⟩
  rw [none other] at holds
  cases holds

/-- The test for space: a producer that finds less than the capacity between its two indices has
space, whatever was popped since. -/
theorem RingInv.loadTopPush {data : α} {b : Nat} (inv : RingInv (2 ^ k) s) (small : k ≤ 15)
    (place : s.threads th = .pushBottom data b) (space : usedSlots b s.q.top ≠ (2 ^ k : Nat)) :
    RingInv (2 ^ k) (s.goto th (.pushSlot data b)) := by
  have known : b = s.q.bottom := by
    have facts := inv.threads th
    rw [place] at facts
    exact facts
  refine inv.goto ⟨known, ?_⟩ fun _ => by rw [place]; rfl
  refine lt_of_le_of_ne inv.room fun full => space ?_
  rw [known, inv.bottom, inv.top, usedSlots_eq inv.order (inv.near small)]
  exact congrArg Nat.cast (Nat.sub_eq_of_eq_add' full)

/-- The thread that holds the lock is the only one that does. -/
theorem RingInv.others_free (inv : RingInv (2 ^ k) s) (holds : (s.threads th).holdsLock = true)
    (other : Nat) (ne : other ≠ th) : (s.threads other).holdsLock = false := by
  by_contra both
  exact ne (inv.alone other th (Bool.not_eq_false _ ▸ both) holds)

theorem RingInv.storeEntry {data : α} {b : Nat} (inv : RingInv (2 ^ k) s) (small : k ≤ 15)
    (place : s.threads th = .pushSlot data b) :
    RingInv (2 ^ k) { s.goto th (.pushStored data b) with
      q := { s.q with entries :=
        Function.update s.q.entries (b &&& (2 ^ k - 1)) (some data) } } := by
  have holds : (s.threads th).holdsLock = true := by rw [place]; rfl
  have known := inv.threads th
  rw [place] at known
  have slot : b &&& (2 ^ k - 1) = s.pushed.length % 2 ^ k := by
    rw [known.1, inv.bottom, index_and_mask (by omega)]
  rw [slot]
  refine inv.move ⟨inv.top, inv.bottom, inv.order, inv.room, ?_, inv.fifo⟩ rfl
    (fun _ _ => rfl) ⟨known.1, known.2, Function.update_self ..⟩ le_rfl List.prefix_rfl
    (fun other ne both => ?_) fun _ => ⟨inv.locked th holds, inv.others_free holds⟩
  · intro p low high
    have apart : p % 2 ^ k ≠ s.pushed.length % 2 ^ k :=
      slot_ne high (known.2.trans_le (Nat.add_le_add_right low _))
    show Function.update s.q.entries _ _ _ = _
    rw [Function.update_of_ne apart]
    exact inv.slots p low high
  · rw [inv.others_free holds other ne] at both
    cases both

/-- The store to `bottom` makes the stored entry the next one of the pushes. -/
theorem RingInv.storeBottom {data : α} {b : Nat} (inv : RingInv (2 ^ k) s)
    (place : s.threads th = .pushStored data b) :
    RingInv (2 ^ k) { s.goto th .pushUnlock with
      q := { s.q with bottom := (b + 1) % indexRange }, pushed := s.pushed ++ [data] } := by
  have holds : (s.threads th).holdsLock = true := by rw [place]; rfl
  have known := inv.threads th
  rw [place] at known
  obtain ⟨index, space, stored⟩ := known
  have more : (s.pushed ++ [data]).length = s.pushed.length + 1 := List.length_append
  refine inv.move ⟨inv.top, ?_, ?_, ?_, ?_, ?_⟩ rfl (fun _ _ => rfl) trivial le_rfl
    (List.prefix_append _ _) (fun other ne both => ?_)
    fun _ => ⟨inv.locked th holds, inv.others_free holds⟩
  · show (b + 1) % indexRange = (s.pushed ++ [data]).length % indexRange
    rw [more, index, inv.bottom, Nat.mod_add_mod]
  · show s.popped.length ≤ (s.pushed ++ [data]).length
    rw [more]
    exact inv.order.trans (Nat.le_succ _)
  · show (s.pushed ++ [data]).length ≤ s.popped.length + 2 ^ k
    rw [more]
    exact space
  · intro p low high
    have high : p < s.pushed.length + 1 := more ▸ high
    show s.q.entries (p % 2 ^ k) = (s.pushed ++ [data])[p]?
    rcases Nat.lt_succ_iff_lt_or_eq.mp high with inside | last
    · rw [List.getElem?_append_left inside]
      exact inv.slots p low inside
    · rw [last, stored, List.getElem?_append_right le_rfl, Nat.sub_self]
      rfl
  · show s.popped <+: (s.pushed ++ [data]).map some
    rw [List.map_append]
    exact inv.fifo.trans (List.prefix_append _ _)
  · rw [inv.others_free holds other ne] at both
    cases both

theorem RingInv.unlock (inv : RingInv (2 ^ k) s) (place : s.threads th = .pushUnlock) :
    RingInv (2 ^ k) { s.goto th .idle with q := { s.q with lock := false } } := by
  have holds : (s.threads th).holdsLock = true := by rw [place]; rfl
  refine inv.move ⟨inv.top, inv.bottom, inv.order, inv.room, inv.slots, inv.fifo⟩ rfl
    (fun _ _ => rfl) trivial le_rfl List.prefix_rfl (fun other ne both => ?_)
    fun none => by cases none
  rw [inv.others_free holds other ne] at both
  cases both

/-! ### Whole runs -/

/-- **One step of the ring queue keeps the invariant.** -/
theorem ringStep_inv (small : k ≤ 15) {act : Nat × QueueMove α} (inv : RingInv (2 ^ k) s)
    (lap : NotLapped s act) (step : ringStep (2 ^ k) s act = some t) : RingInv (2 ^ k) t := by
  obtain ⟨th, move⟩ := act
  cases move with
  | pop =>
    simp only [ringStep] at step
    split at step
    · cases step
      exact inv.loadTop
    · cases step
  | push data =>
    simp only [ringStep] at step
    split at step
    · split_ifs at step with held
      cases step
      exact inv.enterPush (Bool.not_eq_true _ ▸ held)
    · cases step
  | next =>
    simp only [ringStep] at step
    simp only [NotLapped] at lap
    cases place : s.threads th with
    | idle =>
      rw [place] at step
      cases step
    | popTop i =>
      rw [place] at step
      cases step
      split_ifs with same
      · exact inv.goto trivial fun none => by cases none
      · exact inv.loadBottom place same
    | popBottom i =>
      rw [place] at step
      cases step
      exact inv.loadEntry small place
    | popEntry i ret =>
      rw [place] at step lap
      cases step
      split_ifs with same
      · exact inv.casTop place lap same
      · exact inv.goto trivial fun none => by cases none
    | pushLocked data =>
      rw [place] at step
      cases step
      exact inv.goto rfl fun _ => by rw [place]; rfl
    | pushBottom data b =>
      rw [place] at step
      cases step
      split_ifs with full
      · exact inv.goto trivial fun _ => by rw [place]; rfl
      · exact inv.loadTopPush small place full
    | pushSlot data b =>
      rw [place] at step
      cases step
      exact inv.storeEntry small place
    | pushStored data b =>
      rw [place] at step
      cases step
      exact inv.storeBottom place
    | pushUnlock =>
      rw [place] at step
      cases step
      exact inv.unlock place

end Steps

/-- **Every state of every interleaving satisfies the invariant.** -/
theorem ring_inv {k : Nat} (small : k ≤ 15) {acts : List (Nat × QueueMove α)} {s : RingRun α}
    (lap : Guarded (ringStep (2 ^ k)) NotLapped (ringInit α) acts)
    (run : exec (ringStep (2 ^ k)) (ringInit α) acts = some s) : RingInv (2 ^ k) s :=
  exec_guarded (fun _ _ _ inv lap step => ringStep_inv small inv lap step) (ringInit_inv _) lap run

/-- **The ring queue is a bounded FIFO queue.** For every power of two up to `32768` as capacity and
every interleaving of producers and consumers in which no consumer is overtaken by a full turn of
the index before its swap: what was popped is a prefix of what was pushed, the two differ by at most
the capacity, and `utils_queue_used_slots` is that difference. -/
theorem queue_fifo (k : Nat) (small : k ≤ 15) (acts : List (Nat × QueueMove α)) (s : RingRun α)
    (lap : Guarded (ringStep (2 ^ k)) NotLapped (ringInit α) acts)
    (run : exec (ringStep (2 ^ k)) (ringInit α) acts = some s) :
    s.popped <+: s.pushed.map some ∧ s.popped.length ≤ s.pushed.length ∧
      s.pushed.length - s.popped.length ≤ 2 ^ k ∧
      utilsQueueUsedSlots s.q = ((s.pushed.length - s.popped.length : Nat) : Int) := by
  have inv := ring_inv small lap run
  refine ⟨inv.fifo, inv.order, Nat.sub_le_iff_le_add'.mpr inv.room, ?_⟩
  unfold utilsQueueUsedSlots
  rw [inv.bottom, inv.top]
  exact usedSlots_eq inv.order (inv.near small)

/-- Two consumers race for one entry of a queue of two slots: both load it, one swap succeeds. -/
theorem queue_fifo_at_race : ∃ s : RingRun Nat,
    exec (ringStep (2 ^ 1)) (ringInit Nat) ((0, .push 7) :: List.replicate 5 (0, .next) ++
      [(1, .pop), (2, .pop), (1, .next), (2, .next), (1, .next), (2, .next), (2, .next),
        (1, .next)]) = some s ∧ s.popped = [some 7] ∧ s.popped <+: s.pushed.map some := by
  have race : (exec (ringStep (2 ^ 1)) (ringInit Nat)
      ((0, .push 7) :: List.replicate 5 (0, .next) ++
      [(1, .pop), (2, .pop), (1, .next), (2, .next), (1, .next), (2, .next), (2, .next),
        (1, .next)])).map RingRun.popped = some [some 7] := by decide +kernel
  obtain ⟨s, run, popped⟩ := Option.map_eq_some_iff.mp race
  exact ⟨s, run, popped, (queue_fifo 1 (by decide) _ s (by decide +kernel) run).1⟩

end Arax.Utils
