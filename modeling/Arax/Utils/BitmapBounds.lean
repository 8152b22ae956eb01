/-
**Where the allocations of the bitmap end.**

`find_start_small` masks the unusable tail of a partial last chunk, but only if the allocation
starts in that chunk. `find_end_small` and the span of `find_start_big` take bits of the last chunk
without the mask, and the only other guard is the number of free bits of the whole bitmap.

* `bitmap_bounds_iff` — no run allocates past `size_bits` exactly if the last chunk is full, or is
  the only one, or the rounding of `utils_bitmap_init` wrapped and there is none.
* `tail_run` — the run behind the other direction, for every other size: fill all full chunks but
  the last bit, release the first bit to raise the number of free bits, and ask for two more bits
  than the last chunk has.
-/

import Arax.Utils.BitmapRuns

namespace Arax.Utils

open Arax.Lib

/-- No allocation of any run from `utils_bitmap_init` ends past `size_bits`. -/
def BoundsHold (sizeBits : Nat) : Prop :=
  ∀ ops t n next s, exec trackedStep (trackedInit sizeBits) ops = some t → 1 ≤ n →
    utilsBitmapAllocBits t.bmp n = (next, s) → s ≠ bitmapNotFound → s + n ≤ sizeBits

/-! ### Allocations that start in the last chunk -/

theorem usableBits_last {bmp : UtilsBitmap} {chunk i : Nat} (last : chunk + 1 = bmp.endP)
    (partly : bmp.sizeBits % 64 ≠ 0) (inside : i < 64) (high : bmp.sizeBits % 64 ≤ i) :
    (usableBits bmp chunk).getLsbD i = true := by
  unfold usableBits
  rw [if_pos ⟨last, partly⟩, BitVec.getLsbD_or, getLsbD_shiftLeft_ones, decide_eq_true high,
    decide_eq_true inside, Bool.and_self, Bool.or_true]

/-- A small allocation that starts in a partial last chunk ends inside it. -/
theorem findStartSmall_last {bmp next : UtilsBitmap} {n chunk found : Nat} (positive : 1 ≤ n)
    (small : n ≤ 64) (last : chunk + 1 = bmp.endP) (partly : bmp.sizeBits % 64 ≠ 0)
    (call : findStartSmall bmp n chunk = (next, found)) (hit : found ≠ bitmapNotFound) :
    found + n ≤ chunk * 64 + bmp.sizeBits % 64 := by
  have top := usableBits_last last partly (by omega : 63 < 64) (by omega)
  unfold findStartSmall at call
  simp only [last, if_true] at call
  split_ifs at call with empty full room atEnd
  · rw [empty, BitVec.getLsbD_zero] at top
    cases top
  · cases call
    exact absurd rfl hit
  · have taken := popcount_pos empty
    cases gap : findGap (usableBits bmp chunk) (64 - n + 1) (lowMask n) 0 with
    | none =>
      rw [gap] at call
      cases call
      exact absurd rfl hit
    | some pair =>
      rw [gap] at call
      cases call
      obtain ⟨fits, free, shape⟩ := findGap_some (64 - n + 1) 0 (lowMask n) pair.2 (by omega) small
        (fun i _ => by rw [getLsbD_lowMask (by omega)]; exact decide_eq_decide.mpr (by omega)) gap
      by_contra outside
      have inMask : pair.1.getLsbD (pair.2 + n - 1) = true := by
        rw [shape _ (by omega)]
        exact decide_eq_true ⟨by omega, by omega⟩
      have clear := (and_eq_zero_iff _ _).mp free (pair.2 + n - 1) (by omega) inMask
      rw [usableBits_last last partly (by omega) (by omega)] at clear
      cases clear
  · cases call
    exact absurd rfl hit
  · cases call
    exact absurd rfl hit

/-- No big allocation starts in the last chunk. -/
theorem findStartBig_last {bmp : UtilsBitmap} {n chunk : Nat} (last : chunk + 1 = bmp.endP) :
    (findStartBig bmp n chunk).2 = bitmapNotFound := by
  unfold findStartBig
  simp only [last, if_true]
  split_ifs <;> rfl

/-- An allocation from the only chunk of a bitmap ends inside it. -/
theorem findStart_last {bmp next : UtilsBitmap} {n chunk found : Nat} (positive : 1 ≤ n)
    (last : chunk + 1 = bmp.endP) (partly : bmp.sizeBits % 64 ≠ 0)
    (call : findStart bmp n chunk = (next, found)) (hit : found ≠ bitmapNotFound) :
    found + n ≤ chunk * 64 + bmp.sizeBits % 64 := by
  unfold findStart at call
  split_ifs at call with small
  · exact findStartSmall_last positive (by omega) last partly call hit
  · have none := findStartBig_last (n := n) last
    rw [call] at none
    exact absurd none hit

/-- The sizes for which every allocation stays inside. -/
theorem bounds_of_shape {sizeBits : Nat} (fits : sizeBits < 2 ^ 64)
    (shape : sizeBits % 64 = 0 ∨ sizeBits < 64 ∨ 2 ^ 64 - 64 < sizeBits) : BoundsHold sizeBits := by
  intro ops t n next s run positive call hit
  have inv := tracked_inv run
  have ends := inv.endP
  rcases utilsBitmapAllocBits_cases positive inv.room inv.cursor call with
    ⟨_, none, _⟩ | ⟨_, c, other, low, start, _⟩
  · exact absurd none hit
  have same := wrapFreeP_untouched inv.cursor
  rcases findStart_spec positive (by rw [same.endP]; exact low) start with ⟨_, none⟩ | placed
  · exact absurd none hit
  have inside := placed.inside
  rw [same.endP] at inside
  by_cases full : sizeBits % 64 = 0
  · omega
  · have size : (wrapFreeP t.bmp).sizeBits = sizeBits := same.sizeBits.trans inv.size
    have only := findStart_last positive (by rw [same.endP]; omega) (by rw [size]; exact full)
      start hit
    rw [size] at only
    omega

/-! ### The run for all other sizes -/

/-- The first chunk of the search is enough. -/
theorem alloc_at_cursor {bmp other : UtilsBitmap} {n found : Nat} (enough : n ≤ utilsBitmapFree bmp)
    (cursor : bmp.freeP < bmp.endP) (start : findStart bmp n bmp.freeP = (other, found))
    (hit : found ≠ bitmapNotFound) :
    utilsBitmapAllocBits bmp n = ({ other with freeP := found / 64 }, found) := by
  have wrap : wrapFreeP bmp = bmp := if_neg (by omega)
  obtain ⟨steps, total⟩ := Nat.exists_eq_add_of_lt cursor
  have count : bmp.endP - bmp.freeP = steps + 1 := by omega
  unfold utilsBitmapAllocBits
  simp only [wrap, if_neg (Nat.not_lt.mpr enough), count, findFrom, start, if_pos hit]

theorem findEndSmall_clear (n : Nat) {bmp : UtilsBitmap} {chunk : Nat}
    (clear : bmp.bits chunk = 0#64) : (findEndSmall n bmp chunk).2 = true := by
  unfold findEndSmall
  rw [clear, BitVec.and_zero, if_pos rfl]

/-- In an empty bitmap all bits but the last of the full chunks are found at the first bit. -/
theorem findStart_empty {bmp : UtilsBitmap} {q : Nat} (positive : 1 ≤ q) (ends : bmp.endP = q + 1)
    (clear : ∀ c, bmp.bits c = 0#64) : (findStart bmp (64 * q - 1) 0).2 = 0 := by
  unfold findStart
  split_ifs with small
  · have empty : usableBits bmp 0 = 0#64 := by rw [usableBits_not_last (by omega), clear]
    unfold findStartSmall
    simp only [empty, if_true]
  · have inner : ¬(0 + 1 = bmp.endP) := by omega
    have mask : ¬(BitVec.allOnes 64 = 0#64) := by decide
    have full : ¬(0#64 = BitVec.allOnes 64) := by decide
    have rest : (if 64 * q - 1 - 64 < 65 then findEndSmall (64 * q - 1 - 64) bmp (0 + 1)
        else takeSpan (64 * q - 1 - 64) bmp 0).2 = true := by
      split_ifs
      · exact findEndSmall_clear _ (clear _)
      · refine takeSpan_complete (by omega) fun i _ _ => ?_
        rw [bitAt, clear, BitVec.getLsbD_zero]
    unfold findStartBig
    simp only [clear, if_neg full, if_neg mask, if_neg inner, if_true]
    generalize (if 64 * q - 1 - 64 < 65 then findEndSmall (64 * q - 1 - 64) bmp (0 + 1)
      else takeSpan (64 * q - 1 - 64) bmp 0) = taken at rest ⊢
    obtain ⟨next, flag⟩ := taken
    cases rest
    rfl

/-- A chunk with a free last bit before an empty chunk: a range too long for the chunk straddles. -/
theorem findStart_straddle {bmp : UtilsBitmap} {n chunk : Nat} (several : 3 ≤ n) (bound : n ≤ 65)
    (inner : chunk + 1 < bmp.endP) (room : 64 * bmp.endP < 2 ^ 64)
    (last : (bmp.bits chunk).getLsbD 63 = false)
    (busy : ∀ i, 1 ≤ i → i < 63 → (bmp.bits chunk).getLsbD i = true)
    (clear : bmp.bits (chunk + 1) = 0#64) : (findStart bmp n chunk).2 ≠ bitmapNotFound := by
  have taken : bmp.bits chunk ≠ 0#64 := by
    intro zero
    have bit := busy 1 (by omega) (by omega)
    rw [zero, BitVec.getLsbD_zero] at bit
    cases bit
  have notFull : bmp.bits chunk ≠ BitVec.allOnes 64 := by
    intro full
    rw [full, BitVec.getLsbD_allOnes] at last
    cases last
  have ends : (bmp.bits chunk).clz.toNat ≠ 0 := by
    rw [Ne, BitVec.clz_eq_zero_iff (by omega), Nat.not_le]
    exact BitVec.toNat_lt_of_msb_false (by rw [BitVec.msb_eq_getLsbD_last]; exact last)
  have crowded : 62 ≤ popcount (bmp.bits chunk) := by
    rw [popcount_eq_card, show 62 = (Finset.Ico 1 63).card from rfl]
    refine Finset.card_le_card fun i range => ?_
    rw [Finset.mem_Ico] at range
    exact Finset.mem_filter.mpr ⟨Finset.mem_range.mpr (by omega), busy i range.1 range.2⟩
  have straddles := findEndSmall_clear (n - (bmp.bits chunk).clz.toNat) clear
  have split := clz_add_popcount_le (bmp.bits chunk)
  unfold findStart
  split_ifs with small
  · have usable : usableBits bmp chunk = bmp.bits chunk := usableBits_not_last (by omega)
    have short : ¬(n ≤ 64 - popcount (bmp.bits chunk)) := by omega
    unfold findStartSmall
    simp only [usable, if_neg taken, if_neg notFull, if_neg short, freeEnd_eq,
      if_neg ends, if_neg (Nat.ne_of_lt inner)]
    generalize findEndSmall (n - (bmp.bits chunk).clz.toNat) bmp (chunk + 1) = found at straddles ⊢
    obtain ⟨next, flag⟩ := found
    cases straddles
    show chunk * 64 + (64 - (bmp.bits chunk).clz.toNat) ≠ 2 ^ 64 - 1
    omega
  · have rest : n - (bmp.bits chunk).clz.toNat < 65 := by omega
    have mask : ¬(BitVec.allOnes 64 <<< (64 - (bmp.bits chunk).clz.toNat) = 0#64) := by
      intro zero
      have bit := getLsbD_shiftLeft_ones (64 - (bmp.bits chunk).clz.toNat) 63
      rw [zero, BitVec.getLsbD_zero, decide_eq_true (by omega), decide_eq_true (by omega)] at bit
      cases bit
    unfold findStartBig
    simp only [if_neg taken, if_neg notFull, if_pos ends, if_neg mask,
      if_neg (Nat.ne_of_lt inner), if_pos rest]
    generalize findEndSmall (n - (bmp.bits chunk).clz.toNat) bmp (chunk + 1) = found at straddles ⊢
    obtain ⟨next, flag⟩ := found
    cases straddles
    show chunk * 64 + (64 - (bmp.bits chunk).clz.toNat) ≠ 2 ^ 64 - 1
    omega

/-- The calls that bring the bitmap into the state where the next one goes wrong: all bits of the
full chunks but the last, and the first one back. -/
def tailRun (sizeBits : Nat) : List BitmapOp :=
  [.alloc (64 * (sizeBits / 64) - 1), .free 0 1]

/-- The state after `tailRun`: exactly the bits from the second to the last but one are set. -/
structure TailState (sizeBits : Nat) (bmp : UtilsBitmap) : Prop where
  usedBits : bmp.usedBits = 64 * (sizeBits / 64) - 2
  bits : ∀ i, bitAt bmp.bits i = decide (1 ≤ i ∧ i < 64 * (sizeBits / 64) - 1)

theorem bitAt_zero (i : Nat) : bitAt (fun _ => 0#64) i = false := BitVec.getLsbD_zero

/-- The first call of `tailRun` takes the bits from the first on. -/
theorem tail_alloc {sizeBits : Nat} (fits : sizeBits ≤ 2 ^ 64 - 64) (chunks : 64 ≤ sizeBits)
    (partly : sizeBits % 64 ≠ 0) :
    ∃ next, trackedAlloc (trackedInit sizeBits) (64 * (sizeBits / 64) - 1) =
        some ⟨next, [Finset.Ico 0 (0 + (64 * (sizeBits / 64) - 1))]⟩ ∧
      Placed (utilsBitmapInit sizeBits) next (64 * (sizeBits / 64) - 1) 0 := by
  have inv := trackedInit_inv sizeBits
  have ends : (utilsBitmapInit sizeBits).endP = sizeBits / 64 + 1 := by
    show (sizeBits + 63) % 2 ^ 64 / 64 = _
    omega
  have enough : 64 * (sizeBits / 64) - 1 ≤ utilsBitmapFree (utilsBitmapInit sizeBits) := by
    show _ ≤ (2 ^ 64 - 0 + sizeBits) % 2 ^ 64
    omega
  have place := findStart_empty (by omega) ends fun _ => rfl
  cases start : findStart (utilsBitmapInit sizeBits) (64 * (sizeBits / 64) - 1) 0 with
  | mk other found =>
    rw [start] at place
    cases place
    have zero : (0 : Nat) ≠ bitmapNotFound := by decide
    have call := alloc_at_cursor enough (by rw [ends]; exact Nat.succ_pos _) start zero
    refine ⟨{ other with freeP := 0 }, ?_, ?_⟩
    · unfold trackedAlloc
      rw [if_pos ⟨by omega, by omega⟩]
      simp only [trackedInit, call, if_pos zero]
    · rcases utilsBitmapAllocBits_spec (by omega) inv.room inv.cursor call with
        ⟨_, none⟩ | ⟨placed, _, _⟩
      · exact absurd none zero
      · exact placed

theorem tail_run {sizeBits : Nat} (fits : sizeBits ≤ 2 ^ 64 - 64) (chunks : 64 ≤ sizeBits)
    (partly : sizeBits % 64 ≠ 0) :
    ∃ t, exec trackedStep (trackedInit sizeBits) (tailRun sizeBits) = some t ∧
      TailState sizeBits t.bmp := by
  obtain ⟨next, first, placed⟩ := tail_alloc fits chunks partly
  have inv := trackedAlloc_inv (trackedInit_inv sizeBits) first
  have bits : ∀ i, bitAt next.bits i = decide (i < 64 * (sizeBits / 64) - 1) := by
    intro i
    rw [placed.on.bits, show (utilsBitmapInit sizeBits).bits = fun _ => 0#64 from rfl, bitAt_zero,
      Bool.false_or]
    exact decide_eq_decide.mpr (by omega)
  have lowest : RangeSet next 0 1 := by
    intro i only
    have positive : 0 < next.endP := by
      have bound := placed.inside
      rw [← placed.endP] at bound
      omega
    rw [bits]
    exact ⟨by omega, decide_eq_true (by omega)⟩
  obtain ⟨last, call, released, _⟩ := release_spec inv le_rfl lowest
  refine ⟨⟨last, [Finset.Ico 0 (0 + (64 * (sizeBits / 64) - 1))].map (· \ Finset.Ico 0 (0 + 1))⟩,
    ?_, ?_, ?_⟩
  · have second : trackedFree ⟨next, [Finset.Ico 0 (0 + (64 * (sizeBits / 64) - 1))]⟩ 0 1 = _ :=
      if_pos ⟨le_rfl, lowest⟩
    rw [call] at second
    unfold tailRun exec trackedStep
    simp only [first, Option.bind_some, exec, second, Option.map_some]
  · show last.usedBits = _
    rw [released.usedBits, placed.usedBits, sizeSub]
    show (2 ^ 64 - 1 + (0 + (64 * (sizeBits / 64) - 1)) % 2 ^ 64) % 2 ^ 64 = _
    omega
  · intro i
    show bitAt last.bits i = _
    rw [released.off.bits, bits, ← decide_not, ← Bool.decide_and]
    exact decide_eq_decide.mpr (by omega)

/-- Behind `tailRun` the allocation of two more bits than the last chunk has ends past the
bitmap. -/
theorem tail_overrun {sizeBits : Nat} {t : Tracked} (inv : TrackedInv sizeBits t)
    (tail : TailState sizeBits t.bmp) (fits : sizeBits ≤ 2 ^ 64 - 64) (chunks : 64 ≤ sizeBits)
    (partly : sizeBits % 64 ≠ 0) :
    ∃ next s, utilsBitmapAllocBits t.bmp (sizeBits % 64 + 2) = (next, s) ∧ s ≠ bitmapNotFound ∧
      sizeBits < s + (sizeBits % 64 + 2) := by
  have same := wrapFreeP_untouched inv.cursor
  have ends : t.bmp.endP = sizeBits / 64 + 1 := by
    have shape := inv.endP
    omega
  cases call : utilsBitmapAllocBits t.bmp (sizeBits % 64 + 2) with
  | mk next s =>
    refine ⟨next, s, rfl, ?_⟩
    have straddle : (findStart (wrapFreeP t.bmp) (sizeBits % 64 + 2) (sizeBits / 64 - 1)).2 ≠
        bitmapNotFound := by
      have bit : ∀ chunk i, i < 64 → ((wrapFreeP t.bmp).bits chunk).getLsbD i =
          decide (1 ≤ 64 * chunk + i ∧ 64 * chunk + i < 64 * (sizeBits / 64) - 1) := by
        intro chunk i inside
        rw [same.bits, ← tail.bits, bitAt, show (64 * chunk + i) / 64 = chunk by omega,
          show (64 * chunk + i) % 64 = i by omega]
      refine findStart_straddle (by omega) (by omega) (by rw [same.endP]; omega)
        (by rw [same.endP]; exact inv.room) ?_ ?_ ?_
      · rw [bit _ _ (by omega)]
        exact decide_eq_false (by omega)
      · intro i low high
        rw [bit _ _ (by omega)]
        exact decide_eq_true (by omega)
      · apply BitVec.eq_of_getLsbD_eq
        intro i inside
        rw [bit _ _ inside, BitVec.getLsbD_zero]
        exact decide_eq_false (by omega)
    rcases utilsBitmapAllocBits_cases (by omega) inv.room inv.cursor call with
      ⟨_, _, few | nowhere⟩ | ⟨hit, _⟩
    · have used := tail.usedBits
      rw [utilsBitmapFree, sizeSub, inv.size, used] at few
      omega
    · exact absurd (nowhere _ (by omega)) straddle
    · rcases utilsBitmapAllocBits_spec (by omega) inv.room inv.cursor call with
        ⟨_, none⟩ | ⟨placed, _, _⟩
      · exact absurd none hit
      · have first := placed.on.clear s le_rfl (by omega)
        have second := placed.on.clear (s + 1) (by omega) (by omega)
        rw [tail.bits, decide_eq_false_iff_not] at first second
        exact ⟨hit, by omega⟩

/-! ### The condition -/

/-- **Bitmap bounds.** Every allocation of every run stays below `size_bits` if and only if the last
chunk is full, or is the only chunk, or the rounding up of `size_bits` wrapped. -/
theorem bitmap_bounds_iff (sizeBits : Nat) (fits : sizeBits < 2 ^ 64) :
    BoundsHold sizeBits ↔ sizeBits % 64 = 0 ∨ sizeBits < 64 ∨ 2 ^ 64 - 64 < sizeBits := by
  refine ⟨fun bounds => ?_, bounds_of_shape fits⟩
  by_contra shape
  obtain ⟨t, run, tail⟩ := @tail_run sizeBits (by omega) (by omega) (by omega)
  obtain ⟨next, s, call, hit, outside⟩ :=
    tail_overrun (tracked_inv run) tail (by omega) (by omega) (by omega)
  have inside := bounds _ t _ next s run (by omega) call hit
  omega

theorem bitmap_bounds_at_128 : BoundsHold 128 :=
  (bitmap_bounds_iff 128 (by decide)).mpr (by decide)

/-- A bitmap of 65 bits hands out the bits 63, 64 and 65. -/
theorem bitmap_bounds_fail_at_65 : ¬∀ sizeBits, sizeBits < 2 ^ 64 → BoundsHold sizeBits := by
  intro all
  have run : (exec trackedStep (trackedInit 65) [.alloc 63, .free 0 1]).map
      (fun t => (utilsBitmapAllocBits t.bmp 3).2) = some 63 := by decide +kernel
  obtain ⟨t, reached, found⟩ := Option.map_eq_some_iff.mp run
  have inside := all 65 (by decide) _ t 3 _ 63 reached (by decide) (Prod.ext rfl found) (by decide)
  omega

end Arax.Utils
