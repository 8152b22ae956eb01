/-
**The bitmap over whole runs.**

A run starts at `utils_bitmap_init` and makes allocations of at least one bit and releases of ranges
whose bits are set. `Tracked` keeps, beside the bitmap, what is left of every allocation as a set of
bit numbers; a release takes its range out of all of them.

* `bitmap_run_exact` — in every state of every run the counter is the number of set bits, every
  allocation takes clear bits and sets exactly these, a failed one changes nothing, every release
  clears exactly its range, and what is left of the allocations is pairwise disjoint.
-/

import Arax.Lib.Run
import Arax.Utils.BitmapPaths

namespace Arax.Utils

open Arax.Lib

/-- The calls of a run. -/
inductive BitmapOp where
  | alloc (n : Nat)
  | free (start n : Nat)

/-- All bits of `[start, start + n)` are bits of the chunk array, and set. -/
def RangeSet (bmp : UtilsBitmap) (start n : Nat) : Prop :=
  ∀ i, i < n → start + i < 64 * bmp.endP ∧ bitAt bmp.bits (start + i) = true

instance (bmp : UtilsBitmap) (start n : Nat) : Decidable (RangeSet bmp start n) :=
  inferInstanceAs (Decidable (∀ i, i < n → _))

/-- The bitmap and what is left of every allocation. -/
structure Tracked where
  bmp : UtilsBitmap
  live : List (Finset Nat)

/-- An allocation of at least one bit. -/
def trackedAlloc (t : Tracked) (n : Nat) : Option Tracked :=
  if 1 ≤ n ∧ n < 2 ^ 64 then
    match utilsBitmapAllocBits t.bmp n with
    | (next, found) => some ⟨next, if found ≠ bitmapNotFound then
        Finset.Ico found (found + n) :: t.live else t.live⟩
  else none

/-- A release of a range of set bits, be it a whole allocation, a part of one, or parts of
several. -/
def trackedFree (t : Tracked) (start n : Nat) : Option Tracked :=
  if 1 ≤ n ∧ RangeSet t.bmp start n then
    (utilsBitmapFreeBits t.bmp start n).map fun next =>
      ⟨next, t.live.map (· \ Finset.Ico start (start + n))⟩
  else none

/-- One call of a run. -/
def trackedStep (t : Tracked) : BitmapOp → Option Tracked
  | .alloc n => trackedAlloc t n
  | .free start n => trackedFree t start n

/-- A fresh bitmap, without allocations. -/
def trackedInit (sizeBits : Nat) : Tracked := ⟨utilsBitmapInit sizeBits, []⟩

/-! ### The invariant -/

/-- The counter is the number of set bits, and the allocations are disjoint sets of set bits. -/
structure TrackedInv (sizeBits : Nat) (t : Tracked) : Prop where
  size : t.bmp.sizeBits = sizeBits
  endP : t.bmp.endP = (sizeBits + 63) % 2 ^ 64 / 64
  cursor : t.bmp.freeP ≤ t.bmp.endP
  used : t.bmp.usedBits = (setBits t.bmp.bits t.bmp.endP).card
  covered : ∀ a ∈ t.live, a ⊆ setBits t.bmp.bits t.bmp.endP
  apart : t.live.Pairwise Disjoint

theorem card_setBits_le (words : Nat → Word) (count : Nat) :
    (setBits words count).card ≤ 64 * count :=
  (Finset.card_filter_le _ _).trans (Finset.card_range _).le

theorem TrackedInv.room {sizeBits : Nat} {t : Tracked} (inv : TrackedInv sizeBits t) :
    64 * t.bmp.endP < 2 ^ 64 := by
  have ends := inv.endP
  omega

theorem trackedInit_inv (sizeBits : Nat) : TrackedInv sizeBits (trackedInit sizeBits) where
  size := rfl
  endP := rfl
  cursor := Nat.zero_le _
  used := by
    refine (Finset.card_eq_zero.mpr (Finset.filter_eq_empty_iff.mpr fun i _ => ?_)).symm
    show ¬(0#64 : Word).getLsbD (i % 64) = true
    rw [BitVec.getLsbD_zero]
    exact Bool.false_ne_true
  covered := fun a member => by cases member
  apart := List.Pairwise.nil

/-- The counter after an allocation. -/
theorem used_after_alloc {sizeBits n s : Nat} {t : Tracked} {next : UtilsBitmap}
    (inv : TrackedInv sizeBits t) (placed : Placed t.bmp next n s) :
    next.usedBits = t.bmp.usedBits + n ∧ next.usedBits = (setBits next.bits next.endP).card := by
  have room := inv.room
  have count := placed.on.card_eq placed.inside
  have bound := card_setBits_le next.bits t.bmp.endP
  have used := inv.used
  have fits : t.bmp.usedBits + n < 2 ^ 64 := by omega
  rw [placed.usedBits, Nat.mod_eq_of_lt fits, placed.endP, count, used]
  exact ⟨rfl, rfl⟩

theorem trackedAlloc_inv {sizeBits n : Nat} {t u : Tracked} (inv : TrackedInv sizeBits t)
    (step : trackedAlloc t n = some u) : TrackedInv sizeBits u := by
  unfold trackedAlloc at step
  split_ifs at step with positive
  cases call : utilsBitmapAllocBits t.bmp n with
  | mk next found =>
    rw [call] at step
    cases step
    rcases utilsBitmapAllocBits_spec positive.1 inv.room inv.cursor call with
      ⟨same, rfl⟩ | ⟨placed, hit, cursor⟩
    · rw [if_neg (not_not.mpr rfl)]
      have bits : setBits next.bits next.endP = setBits t.bmp.bits t.bmp.endP := by
        rw [same.bits, same.endP]
      refine ⟨same.sizeBits.trans inv.size, same.endP.trans inv.endP, same.freeP, ?_, ?_,
        inv.apart⟩
      · exact same.usedBits.trans (inv.used.trans (congrArg Finset.card bits.symm))
      · exact fun a member => (inv.covered a member).trans bits.symm.subset
    · rw [if_pos hit]
      have bits := placed.on.setBits_eq placed.inside
      refine ⟨placed.sizeBits.trans inv.size, placed.endP.trans inv.endP, cursor,
        (used_after_alloc inv placed).2, ?_, ?_⟩
      · intro a member
        show a ⊆ setBits next.bits next.endP
        rw [placed.endP, bits]
        rcases List.mem_cons.mp member with rfl | old
        · exact Finset.subset_union_right
        · exact (inv.covered a old).trans Finset.subset_union_left
      · refine List.Pairwise.cons (fun a old => ?_) inv.apart
        exact ((placed.on.disjoint t.bmp.endP).mono_left (inv.covered a old)).symm

/-- A release in a state of a run: it succeeds and clears exactly its range. -/
theorem release_spec {sizeBits start n : Nat} {t : Tracked} (inv : TrackedInv sizeBits t)
    (positive : 1 ≤ n) (set : RangeSet t.bmp start n) :
    ∃ next, utilsBitmapFreeBits t.bmp start n = some next ∧ Released t.bmp next start n ∧
      start + n ≤ 64 * t.bmp.endP := by
  have last := (set (n - 1) (by omega)).1
  have room := inv.room
  have all : ∀ i, start ≤ i → i < start + n → bitAt t.bmp.bits i = true := by
    intro i low high
    have bit := (set (i - start) (by omega)).2
    rw [show start + (i - start) = i by omega] at bit
    exact bit
  obtain ⟨next, call, released⟩ := utilsBitmapFreeBits_spec positive (by omega) all
  exact ⟨next, call, released, by omega⟩

theorem trackedFree_inv {sizeBits start n : Nat} {t u : Tracked} (inv : TrackedInv sizeBits t)
    (step : trackedFree t start n = some u) : TrackedInv sizeBits u := by
  unfold trackedFree at step
  split_ifs at step with legal
  obtain ⟨next, call, released, inside⟩ := release_spec inv legal.1 legal.2
  rw [call] at step
  cases step
  have count := released.off.card_add inside
  have bits := released.off.setBits_eq t.bmp.endP
  have bound := card_setBits_le t.bmp.bits t.bmp.endP
  have room := inv.room
  have used := inv.used
  refine ⟨released.sizeBits.trans inv.size, released.endP.trans inv.endP, ?_, ?_, ?_, ?_⟩
  · show next.freeP ≤ next.endP
    rw [released.freeP, released.endP]
    exact inv.cursor
  · show next.usedBits = (setBits next.bits next.endP).card
    rw [released.usedBits, released.endP, sizeSub]
    omega
  · intro a member
    show a ⊆ setBits next.bits next.endP
    rw [released.endP, bits]
    obtain ⟨old, before, rfl⟩ := List.mem_map.mp member
    exact Finset.sdiff_subset_sdiff (inv.covered old before) le_rfl
  · refine List.Pairwise.map _ (fun a b disjoint => ?_) inv.apart
    exact disjoint.mono Finset.sdiff_subset Finset.sdiff_subset

/-- **Every state of a run satisfies the invariant.** -/
theorem tracked_inv {sizeBits : Nat} {ops : List BitmapOp} {t : Tracked}
    (run : exec trackedStep (trackedInit sizeBits) ops = some t) : TrackedInv sizeBits t := by
  refine exec_invariant (fun s op u inv step => ?_) (trackedInit_inv sizeBits) run
  cases op with
  | alloc n => exact trackedAlloc_inv inv step
  | free start n => exact trackedFree_inv inv step

/-! ### Exactness -/

theorem countAllocatedFrom_eq (bits : Nat → Word) (steps b allocated : Nat) :
    countAllocatedFrom bits steps b allocated =
      allocated + ∑ chunk ∈ Finset.range steps, popcount (bits (b + chunk)) := by
  induction steps generalizing b allocated with
  | zero => rfl
  | succ steps ih =>
    have skip : (if bits b ≠ 0#64 then allocated + popcount (bits b) else allocated) =
        allocated + popcount (bits b) := by
      split_ifs with zero
      · rfl
      · rw [not_not.mp zero]
        rfl
    have shift : ∀ chunk, bits (b + 1 + chunk) = bits (b + (chunk + 1)) := fun chunk => by
      rw [Nat.add_right_comm, Nat.add_assoc]
    rw [countAllocatedFrom, ih, skip, Finset.sum_range_succ',
      Finset.sum_congr rfl fun chunk _ => congrArg popcount (shift chunk), Nat.add_assoc,
      Nat.add_comm (popcount (bits b))]
    rfl

/-- What the functions of the bitmap do in one state. -/
structure BitmapExact (bmp : UtilsBitmap) : Prop where
  /-- The counter is what `utils_bitmap_count_allocated` counts. -/
  counter : bmp.usedBits = utilsBitmapCountAllocated bmp
  /-- A successful allocation finds its bits clear and sets exactly these. -/
  found : ∀ n next s, 1 ≤ n → utilsBitmapAllocBits bmp n = (next, s) → s ≠ bitmapNotFound →
    SwitchedOn bmp.bits next.bits s n ∧ next.usedBits = bmp.usedBits + n
  /-- A failed allocation changes no bit and not the counter. -/
  notFound : ∀ n next, 1 ≤ n → utilsBitmapAllocBits bmp n = (next, bitmapNotFound) →
    next.bits = bmp.bits ∧ next.usedBits = bmp.usedBits
  /-- A release of set bits succeeds and clears exactly these. -/
  release : ∀ start n, 1 ≤ n → RangeSet bmp start n →
    ∃ next, utilsBitmapFreeBits bmp start n = some next ∧
      SwitchedOff bmp.bits next.bits start n ∧ next.usedBits + n = bmp.usedBits
  /-- Releasing what was just allocated gives the bits back. -/
  inverse : ∀ n next s, 1 ≤ n → utilsBitmapAllocBits bmp n = (next, s) → s ≠ bitmapNotFound →
    ∃ back, utilsBitmapFreeBits next s n = some back ∧ back.bits = bmp.bits

theorem exact_of_inv {sizeBits : Nat} {t : Tracked} (inv : TrackedInv sizeBits t) :
    BitmapExact t.bmp where
  counter := by
    rw [utilsBitmapCountAllocated, countAllocatedFrom_eq, inv.size, ← inv.endP, inv.used,
      ← sum_popcount_eq_card]
    simp only [Nat.zero_add]
  found n next s positive call hit := by
    rcases utilsBitmapAllocBits_spec positive inv.room inv.cursor call with
      ⟨_, none⟩ | ⟨placed, _, _⟩
    · exact absurd none hit
    · exact ⟨placed.on, (used_after_alloc inv placed).1⟩
  notFound n next positive call := by
    rcases utilsBitmapAllocBits_spec positive inv.room inv.cursor call with
      ⟨same, _⟩ | ⟨_, hit, _⟩
    · exact ⟨same.bits, same.usedBits⟩
    · exact absurd rfl hit
  release start n positive set := by
    obtain ⟨next, call, released, inside⟩ := release_spec inv positive set
    have count := released.off.card_add inside
    have bound := card_setBits_le t.bmp.bits t.bmp.endP
    have room := inv.room
    have used := inv.used
    refine ⟨next, call, released.off, ?_⟩
    rw [released.usedBits, sizeSub]
    omega
  inverse n next s positive call hit := by
    rcases utilsBitmapAllocBits_spec positive inv.room inv.cursor call with
      ⟨_, none⟩ | ⟨placed, _, _⟩
    · exact absurd none hit
    · have room := inv.room
      have inside := placed.inside
      have all : ∀ i, s ≤ i → i < s + n → bitAt next.bits i = true := by
        intro i low high
        rw [placed.on.bits, decide_eq_true ⟨low, high⟩, Bool.or_true]
      obtain ⟨back, release, released⟩ := utilsBitmapFreeBits_spec positive (by omega) all
      exact ⟨back, release, placed.on.off_eq released.off⟩

/-- **Bitmap exactness.** In every state reached by allocations and releases of set bits, the
counter and every function of the bitmap are exact, and what is left of the allocations is pairwise
disjoint. -/
theorem bitmap_run_exact (sizeBits : Nat) (ops : List BitmapOp) (t : Tracked)
    (run : exec trackedStep (trackedInit sizeBits) ops = some t) :
    BitmapExact t.bmp ∧ t.live.Pairwise Disjoint :=
  ⟨exact_of_inv (tracked_inv run), (tracked_inv run).apart⟩

/-- A run over a partial last chunk: a straddling allocation and a release of its inner part. -/
theorem bitmap_run_exact_at_100 : ∃ t,
    exec trackedStep (trackedInit 100) [.alloc 60, .alloc 20, .free 62 10] = some t ∧
      t.bmp.usedBits = 70 ∧ BitmapExact t.bmp ∧ t.live.Pairwise Disjoint := by
  have used : (exec trackedStep (trackedInit 100) [.alloc 60, .alloc 20, .free 62 10]).map
      (fun t => t.bmp.usedBits) = some 70 := by decide +kernel
  obtain ⟨t, run, count⟩ := Option.map_eq_some_iff.mp used
  exact ⟨t, run, count, bitmap_run_exact 100 _ t run⟩

end Arax.Utils
