/-
**Bits of 64-bit words and of arrays of words.**

Masks built from shifts are described by their bits (`getLsbD_lowMask`, `getLsbD_shiftLeft_ones`,
`getLsbD_shiftRight_ones`), `popcount` by the number of set bits (`popcount_eq_card`), the number
of leading zeros by the highest set bit (`getLsbD_of_clz_le`, `getLsbD_clz`).

An array of words is a function `Nat → Word`; bit `i` of the array is bit `i % 64` of word
`i / 64` (`bitAt`). `popcounts_eq_card` counts the set bits of the first words of an array, and
`setBits_union`, `setBits_sdiff` say how the set of set bits moves when bits are switched on or off.
-/

import Mathlib.Data.Finset.Card
import Mathlib.Data.Nat.Bitwise
import Mathlib.Algebra.BigOperators.Group.Finset.Basic
import Mathlib.Algebra.Order.Ring.Nat
import Mathlib.Order.Interval.Finset.Nat

namespace Arax.Lib

/-- A `uint64_t`. -/
abbrev Word := BitVec 64

/-- `(((uint64_t) 1) << n) - 1`. -/
def lowMask (n : Nat) : Word := (1#64 <<< n) - 1#64

/-- `__builtin_popcountl`. -/
def popcount (x : Word) : Nat := x.cpop.toNat

/-! ### Masks -/

/-- The low mask has exactly the bits below `n`. -/
theorem getLsbD_lowMask {n : Nat} (fits : n < 64) (i : Nat) :
    (lowMask n).getLsbD i = decide (i < n) := by
  have power : (2 : Nat) ^ n < 2 ^ 64 := Nat.pow_lt_pow_right (by decide) fits
  have positive : 0 < 2 ^ n := Nat.two_pow_pos n
  have shifted : (1#64 <<< n).toNat = 2 ^ n := by
    rw [BitVec.toNat_shiftLeft, Nat.shiftLeft_eq, show (1#64).toNat = 1 from rfl, Nat.one_mul,
      Nat.mod_eq_of_lt power]
  have value : (lowMask n).toNat = 2 ^ n - 1 := by
    rw [lowMask, BitVec.toNat_sub_of_le, shifted]
    · rfl
    · rw [BitVec.le_def, shifted]
      exact positive
  rw [BitVec.getLsbD, value, Nat.testBit_two_pow_sub_one]

/-- All ones shifted left by `k`: the bits from `k` on. -/
theorem getLsbD_shiftLeft_ones (k i : Nat) :
    (BitVec.allOnes 64 <<< k).getLsbD i = (decide (k ≤ i) && decide (i < 64)) := by
  rw [BitVec.getLsbD_shiftLeft, BitVec.getLsbD_allOnes]
  by_cases low : i < k
  · simp [low, Nat.not_le.mpr low]
  · have high : k ≤ i := Nat.le_of_not_lt low
    by_cases inside : i < 64
    · simp [low, high, inside, show i - k < 64 by omega]
    · simp [inside]

/-- All ones shifted right by `k`: the bits below `64 - k`. -/
theorem getLsbD_shiftRight_ones (k i : Nat) :
    (BitVec.allOnes 64 >>> k).getLsbD i = decide (i + k < 64) := by
  rw [BitVec.getLsbD_ushiftRight, BitVec.getLsbD_allOnes, Nat.add_comm]

/-- A low mask moved up by `k`: the bits of `[k, k + n)`. -/
theorem getLsbD_lowMask_shiftLeft {n : Nat} (fits : n < 64) (k i : Nat) (inside : i < 64) :
    (lowMask n <<< k).getLsbD i = (decide (k ≤ i) && decide (i < k + n)) := by
  rw [BitVec.getLsbD_shiftLeft, getLsbD_lowMask fits]
  by_cases low : i < k
  · simp [low, Nat.not_le.mpr low]
  · have high : k ≤ i := Nat.le_of_not_lt low
    simp only [inside, decide_true, low, decide_false, Bool.not_false, Bool.true_and, high]
    exact decide_eq_decide.mpr (by omega)

/-- A word without its bits below `n` is a multiple of `2 ^ n`. -/
theorem toNat_and_not_lowMask {n : Nat} (fits : n < 64) (x : Word) :
    (x &&& ~~~lowMask n).toNat = x.toNat / 2 ^ n * 2 ^ n := by
  have shifted : x &&& ~~~lowMask n = x >>> n <<< n := by
    apply BitVec.eq_of_getLsbD_eq
    intro i inside
    rw [BitVec.getLsbD_and, BitVec.getLsbD_not, getLsbD_lowMask fits, BitVec.getLsbD_shiftLeft,
      BitVec.getLsbD_ushiftRight]
    by_cases low : i < n
    · simp [low]
    · simp [inside, low, Nat.add_sub_of_le (Nat.le_of_not_lt low)]
  rw [shifted, BitVec.toNat_shiftLeft, BitVec.toNat_ushiftRight, Nat.shiftRight_eq_div_pow,
    Nat.shiftLeft_eq]
  exact Nat.mod_eq_of_lt (Nat.lt_of_le_of_lt (Nat.div_mul_le_self _ _) x.isLt)

/-- Two words share no bit. -/
theorem and_eq_zero_iff (x y : Word) :
    x &&& y = 0#64 ↔ ∀ i, i < 64 → x.getLsbD i = true → y.getLsbD i = false := by
  constructor
  · intro zero i inside set
    have bit : (x &&& y).getLsbD i = false := by rw [zero, BitVec.getLsbD_zero]
    rw [BitVec.getLsbD_and, set, Bool.true_and] at bit
    exact bit
  · intro apart
    apply BitVec.eq_of_getLsbD_eq
    intro i inside
    rw [BitVec.getLsbD_and, BitVec.getLsbD_zero]
    cases set : x.getLsbD i with
    | false => rfl
    | true => rw [apart i inside set]; rfl

/-- A word covers a mask. -/
theorem and_eq_right_iff (x mask : Word) :
    x &&& mask = mask ↔ ∀ i, i < 64 → mask.getLsbD i = true → x.getLsbD i = true := by
  constructor
  · intro same i inside set
    have bit : (x &&& mask).getLsbD i = true := by rw [same, set]
    rw [BitVec.getLsbD_and, Bool.and_eq_true] at bit
    exact bit.1
  · intro covers
    apply BitVec.eq_of_getLsbD_eq
    intro i inside
    rw [BitVec.getLsbD_and]
    cases set : mask.getLsbD i with
    | false => rw [Bool.and_false]
    | true => rw [covers i inside set]; rfl

/-! ### Counting the bits of a word -/

theorem cpopNatRec_eq_card (x : Word) (n : Nat) :
    x.cpopNatRec n 0 = ((Finset.range n).filter fun i => x.getLsbD i = true).card := by
  induction n with
  | zero => rfl
  | succ n ih =>
    rw [BitVec.cpopNatRec_succ, BitVec.cpopNatRec_eq, ih, Finset.range_add_one,
      Finset.filter_insert]
    cases bit : x.getLsbD n with
    | false => simp
    | true => simp

/-- `popcount` counts the set bits. -/
theorem popcount_eq_card (x : Word) :
    popcount x = ((Finset.range 64).filter fun i => x.getLsbD i = true).card := by
  rw [popcount, BitVec.toNat_cpop, cpopNatRec_eq_card]

/-- A word that is not zero has a set bit. -/
theorem popcount_pos {x : Word} (some : x ≠ 0#64) : 1 ≤ popcount x := by
  rw [popcount_eq_card, Nat.one_le_iff_ne_zero, Finset.card_ne_zero]
  by_contra none
  rw [Finset.not_nonempty_iff_eq_empty, Finset.filter_eq_empty_iff] at none
  refine some (BitVec.eq_of_getLsbD_eq fun i low => ?_)
  rw [BitVec.getLsbD_zero]
  exact Bool.not_eq_true _ ▸ none (Finset.mem_range.mpr low)

/-- No bit at or above the leading zeros is set. -/
theorem getLsbD_of_clz_le (x : Word) {i : Nat} (high : 64 - x.clz.toNat ≤ i) :
    x.getLsbD i = false := by
  have small : x.toNat < 2 ^ i :=
    lt_of_lt_of_le BitVec.toNat_lt_two_pow_sub_clz (Nat.pow_le_pow_right (by decide) high)
  rw [BitVec.getLsbD, Nat.testBit_lt_two_pow small]

/-- Clear bits from `64 - k` on are leading zeros. -/
theorem le_clz {x : Word} {k : Nat} (fits : k ≤ 64)
    (clear : ∀ i, 64 - k ≤ i → i < 64 → x.getLsbD i = false) : k ≤ x.clz.toNat := by
  by_contra fewer
  by_cases zero : x = 0#64
  · rw [BitVec.clz_eq_iff_eq_zero.mpr zero] at fewer
    exact fewer fits
  · have bit := BitVec.getLsbD_true_clz_of_ne_zero (by decide) zero
    rw [clear _ (by omega) (by omega)] at bit
    exact Bool.false_ne_true bit

/-- A set bit bounds the leading zeros. -/
theorem clz_le_of_getLsbD {x : Word} {i : Nat} (bit : x.getLsbD i = true) :
    x.clz.toNat ≤ 63 - i := by
  by_contra more
  have clear := getLsbD_of_clz_le x (i := i) (by omega)
  rw [bit] at clear
  exact Bool.false_ne_true clear.symm

/-- The leading zeros and the set bits fit in the word together. -/
theorem clz_add_popcount_le (x : Word) : x.clz.toNat + popcount x ≤ 64 := by
  have bound : x.clz.toNat ≤ 64 := by
    have := BitVec.clz_le (x := x)
    rw [BitVec.le_def] at this
    exact this
  have few : popcount x ≤ 64 - x.clz.toNat := by
    rw [popcount_eq_card]
    refine (Finset.card_le_card fun i member => ?_).trans
      (Finset.card_range (64 - x.clz.toNat)).le
    rw [Finset.mem_filter] at member
    rw [Finset.mem_range]
    by_contra high
    rw [getLsbD_of_clz_le x (Nat.le_of_not_lt high)] at member
    exact Bool.false_ne_true member.2
  omega

/-! ### Arrays of words -/

/-- Bit `i` of an array of words. -/
def bitAt (words : Nat → Word) (i : Nat) : Bool := (words (i / 64)).getLsbD (i % 64)

/-- The set bits of the first `count` words. -/
def setBits (words : Nat → Word) (count : Nat) : Finset Nat :=
  (Finset.range (64 * count)).filter fun i => bitAt words i = true

/-- `after` is `before` with the bits of `[start, start + n)` switched on, all of them clear in
`before`. -/
structure SwitchedOn (before after : Nat → Word) (start n : Nat) : Prop where
  clear : ∀ i, start ≤ i → i < start + n → bitAt before i = false
  bits : ∀ i, bitAt after i = (bitAt before i || decide (start ≤ i ∧ i < start + n))

/-- `after` is `before` with the bits of `[start, start + n)` switched off, all of them set in
`before`. -/
structure SwitchedOff (before after : Nat → Word) (start n : Nat) : Prop where
  set : ∀ i, start ≤ i → i < start + n → bitAt before i = true
  bits : ∀ i, bitAt after i = (bitAt before i && !decide (start ≤ i ∧ i < start + n))

theorem mem_setBits {words : Nat → Word} {count i : Nat} :
    i ∈ setBits words count ↔ i < 64 * count ∧ bitAt words i = true := by
  rw [setBits, Finset.mem_filter, Finset.mem_range]

/-- The bits of an array after one word is stored. -/
theorem bitAt_update (words : Nat → Word) (chunk : Nat) (x : Word) (i : Nat) :
    bitAt (Function.update words chunk x) i =
      if i / 64 = chunk then x.getLsbD (i % 64) else bitAt words i := by
  rw [bitAt, Function.update_apply]
  split_ifs
  · rfl
  · rfl

/-- Two arrays with the same bits are the same array. -/
theorem words_ext {first second : Nat → Word} (same : ∀ i, bitAt first i = bitAt second i) :
    first = second := by
  funext chunk
  apply BitVec.eq_of_getLsbD_eq
  intro i inside
  have bit := same (64 * chunk + i)
  rw [bitAt, bitAt, show (64 * chunk + i) / 64 = chunk by omega,
    show (64 * chunk + i) % 64 = i by omega] at bit
  exact bit

/-- The set bits of one more word. -/
theorem setBits_succ (words : Nat → Word) (count : Nat) :
    setBits words (count + 1) = setBits words count ∪
      ((Finset.range 64).filter fun i => (words count).getLsbD i = true).map
        (addLeftEmbedding (64 * count)) := by
  ext i
  simp only [mem_setBits, Finset.mem_union, Finset.mem_map, Finset.mem_filter, Finset.mem_range,
    addLeftEmbedding_apply]
  constructor
  · rintro ⟨inside, bit⟩
    by_cases low : i < 64 * count
    · exact Or.inl ⟨low, bit⟩
    · refine Or.inr ⟨i % 64, ⟨by omega, ?_⟩, by omega⟩
      rw [bitAt, show i / 64 = count by omega] at bit
      exact bit
  · rintro (⟨low, bit⟩ | ⟨j, ⟨inside, bit⟩, rfl⟩)
    · exact ⟨by omega, bit⟩
    · refine ⟨by omega, ?_⟩
      rw [bitAt, show (64 * count + j) / 64 = count by omega,
        show (64 * count + j) % 64 = j by omega]
      exact bit

/-- **Counting by words is counting bits.** -/
theorem sum_popcount_eq_card (words : Nat → Word) (count : Nat) :
    ∑ chunk ∈ Finset.range count, popcount (words chunk) = (setBits words count).card := by
  induction count with
  | zero => rfl
  | succ count ih =>
    rw [Finset.sum_range_succ, ih, setBits_succ, Finset.card_union_of_disjoint, Finset.card_map,
      popcount_eq_card]
    rw [Finset.disjoint_left]
    intro i low high
    obtain ⟨j, -, rfl⟩ := Finset.mem_map.mp high
    have := (mem_setBits.mp low).1
    rw [addLeftEmbedding_apply] at this
    omega

/-- Switching a clear range on adds it to the set bits. -/
theorem SwitchedOn.setBits_eq {before after : Nat → Word} {start n count : Nat}
    (on : SwitchedOn before after start n) (inside : start + n ≤ 64 * count) :
    setBits after count = setBits before count ∪ Finset.Ico start (start + n) := by
  ext i
  rw [mem_setBits, Finset.mem_union, mem_setBits, Finset.mem_Ico, on.bits i, Bool.or_eq_true,
    decide_eq_true_eq]
  constructor
  · rintro ⟨bound, bit | range⟩
    · exact Or.inl ⟨bound, bit⟩
    · exact Or.inr range
  · rintro (⟨bound, bit⟩ | range)
    · exact ⟨bound, Or.inl bit⟩
    · exact ⟨by omega, Or.inr range⟩

/-- The switched range was disjoint from the set bits. -/
theorem SwitchedOn.disjoint {before after : Nat → Word} {start n : Nat}
    (on : SwitchedOn before after start n) (count : Nat) :
    Disjoint (setBits before count) (Finset.Ico start (start + n)) := by
  rw [Finset.disjoint_left]
  intro i member range
  rw [Finset.mem_Ico] at range
  have bit := (mem_setBits.mp member).2
  rw [on.clear i range.1 range.2] at bit
  exact Bool.false_ne_true bit

/-- Switching a clear range on raises the number of set bits by its length. -/
theorem SwitchedOn.card_eq {before after : Nat → Word} {start n count : Nat}
    (on : SwitchedOn before after start n) (inside : start + n ≤ 64 * count) :
    (setBits after count).card = (setBits before count).card + n := by
  rw [on.setBits_eq inside, Finset.card_union_of_disjoint (on.disjoint count), Nat.card_Ico,
    Nat.add_sub_cancel_left]

/-- Switching a set range off removes it from the set bits. -/
theorem SwitchedOff.setBits_eq {before after : Nat → Word} {start n : Nat}
    (off : SwitchedOff before after start n) (count : Nat) :
    setBits after count = setBits before count \ Finset.Ico start (start + n) := by
  ext i
  rw [mem_setBits, Finset.mem_sdiff, mem_setBits, Finset.mem_Ico, off.bits i, Bool.and_eq_true,
    Bool.not_eq_true', decide_eq_false_iff_not, and_assoc]

/-- Switching a set range off lowers the number of set bits by its length. -/
theorem SwitchedOff.card_add {before after : Nat → Word} {start n count : Nat}
    (off : SwitchedOff before after start n) (inside : start + n ≤ 64 * count) :
    (setBits after count).card + n = (setBits before count).card := by
  have sub : Finset.Ico start (start + n) ⊆ setBits before count := by
    intro i range
    rw [Finset.mem_Ico] at range
    exact mem_setBits.mpr ⟨by omega, off.set i range.1 range.2⟩
  have size := Finset.card_le_card sub
  rw [off.setBits_eq, Finset.card_sdiff_of_subset sub, Nat.card_Ico, Nat.add_sub_cancel_left]
  rw [Nat.card_Ico] at size
  omega

/-- Switching a range on and off again gives the array back. -/
theorem SwitchedOn.off_eq {before between after : Nat → Word} {start n : Nat}
    (on : SwitchedOn before between start n) (off : SwitchedOff between after start n) :
    after = before := by
  apply words_ext
  intro i
  rw [off.bits, on.bits]
  by_cases range : start ≤ i ∧ i < start + n
  · rw [on.clear i range.1 range.2]
    simp [range]
  · simp [range]

/-- Storing a word with the bits of a mask added switches the range of the mask on. -/
theorem switchedOn_store (words : Nat → Word) (chunk : Nat) {offset n : Nat} {mask : Word}
    (shape : ∀ i, i < 64 → mask.getLsbD i = decide (offset ≤ i ∧ i < offset + n))
    (fits : offset + n ≤ 64) (free : mask &&& words chunk = 0#64) :
    SwitchedOn words (Function.update words chunk (words chunk ||| mask))
      (chunk * 64 + offset) n where
  clear i low high := by
    have here : i / 64 = chunk := by omega
    have inMask : mask.getLsbD (i % 64) = true := by
      rw [shape (i % 64) (by omega), decide_eq_true_eq]
      omega
    rw [bitAt, here]
    exact (and_eq_zero_iff _ _).mp free (i % 64) (by omega) inMask
  bits i := by
    rw [bitAt_update]
    split_ifs with here
    · rw [BitVec.getLsbD_or, shape (i % 64) (by omega), bitAt, here]
      congr 1
      exact decide_eq_decide.mpr (by omega)
    · rw [decide_eq_false (by omega), Bool.or_false]

/-- Filling empty words with ones switches their bits on. -/
theorem switchedOn_fill {words : Nat → Word} {first count : Nat}
    (empty : ∀ chunk, first ≤ chunk → chunk < first + count → words chunk = 0#64) :
    SwitchedOn words
      (fun chunk => if first ≤ chunk ∧ chunk < first + count then BitVec.allOnes 64
        else words chunk) (first * 64) (count * 64) where
  clear i low high := by
    rw [bitAt, empty (i / 64) (by omega) (by omega), BitVec.getLsbD_zero]
  bits i := by
    rw [bitAt, bitAt]
    split_ifs with here
    · rw [BitVec.getLsbD_allOnes, decide_eq_true (by omega), decide_eq_true (by omega),
        Bool.or_true]
    · rw [decide_eq_false (by omega), Bool.or_false]

theorem switchedOn_none (words : Nat → Word) (start : Nat) : SwitchedOn words words start 0 where
  clear i low high := by omega
  bits i := by rw [decide_eq_false (by omega), Bool.or_false]

/-- Two adjacent ranges, the upper one switched on first. -/
theorem SwitchedOn.append {before between after : Nat → Word} {start middle n m : Nat}
    (upper : SwitchedOn before between middle m) (lower : SwitchedOn between after start n)
    (adjacent : middle = start + n) : SwitchedOn before after start (n + m) where
  clear i low high := by
    by_cases inLower : i < start + n
    · have bit := lower.clear i low inLower
      rw [upper.bits, Bool.or_eq_false_iff] at bit
      exact bit.1
    · exact upper.clear i (by omega) (by omega)
  bits i := by
    rw [lower.bits, upper.bits, Bool.or_assoc]
    congr 1
    rw [Bool.eq_iff_iff, Bool.or_eq_true, decide_eq_true_eq, decide_eq_true_eq, decide_eq_true_eq]
    omega

/-- Storing a word with the bits of a mask removed switches the range of the mask off. -/
theorem switchedOff_store (words : Nat → Word) (chunk : Nat) {offset n : Nat} {mask : Word}
    (shape : ∀ i, i < 64 → mask.getLsbD i = decide (offset ≤ i ∧ i < offset + n))
    (fits : offset + n ≤ 64)
    (set : ∀ i, chunk * 64 + offset ≤ i → i < chunk * 64 + offset + n → bitAt words i = true) :
    SwitchedOff words (Function.update words chunk (words chunk &&& ~~~mask))
      (chunk * 64 + offset) n where
  set := set
  bits i := by
    rw [bitAt_update]
    split_ifs with here
    · rw [BitVec.getLsbD_and, BitVec.getLsbD_not, shape (i % 64) (by omega),
        decide_eq_true (show i % 64 < 64 by omega), Bool.true_and, bitAt, here]
      congr 2
      exact decide_eq_decide.mpr (by omega)
    · rw [decide_eq_false (by omega), Bool.not_false, Bool.and_true]

/-- A set range covers its mask. -/
theorem and_mask_eq {words : Nat → Word} {chunk offset n : Nat} {mask : Word}
    (shape : ∀ i, i < 64 → mask.getLsbD i = decide (offset ≤ i ∧ i < offset + n))
    (set : ∀ i, chunk * 64 + offset ≤ i → i < chunk * 64 + offset + n → bitAt words i = true) :
    words chunk &&& mask = mask := by
  rw [and_eq_right_iff]
  intro i inside bit
  rw [shape i inside, decide_eq_true_eq] at bit
  have here := set (chunk * 64 + i) (by omega) (by omega)
  rw [bitAt, show (chunk * 64 + i) / 64 = chunk by omega,
    show (chunk * 64 + i) % 64 = i by omega] at here
  exact here

/-- Zeroing words whose bits are all set switches these off. -/
theorem switchedOff_fill (words : Nat → Word) (first count : Nat)
    (set : ∀ i, first * 64 ≤ i → i < first * 64 + count * 64 → bitAt words i = true) :
    SwitchedOff words
      (fun chunk => if first ≤ chunk ∧ chunk < first + count then 0#64 else words chunk)
      (first * 64) (count * 64) where
  set := set
  bits i := by
    rw [bitAt, bitAt]
    split_ifs with here
    · rw [BitVec.getLsbD_zero, decide_eq_true (by omega), Bool.not_true, Bool.and_false]
    · rw [decide_eq_false (by omega), Bool.not_false, Bool.and_true]

/-- A bit outside the range keeps its value. -/
theorem SwitchedOff.bit_of_outside {before after : Nat → Word} {start n i : Nat}
    (off : SwitchedOff before after start n) (outside : i < start ∨ start + n ≤ i) :
    bitAt after i = bitAt before i := by
  rw [off.bits, decide_eq_false (by omega), Bool.not_false, Bool.and_true]

/-- Three adjacent ranges, the outer ones first. -/
theorem SwitchedOff.inner {before first second after : Nat → Word} {start n mid m top k : Nat}
    (lower : SwitchedOff before first start n) (upper : SwitchedOff first second top k)
    (inner : SwitchedOff second after mid m) (below : mid = start + n) (above : top = mid + m) :
    SwitchedOff before after start (n + m + k) where
  set i low high := by
    by_cases inLower : i < start + n
    · exact lower.set i low inLower
    by_cases inInner : i < mid + m
    · have bit := inner.set i (by omega) inInner
      rw [upper.bits, lower.bits, Bool.and_eq_true, Bool.and_eq_true] at bit
      exact bit.1.1
    · have bit := upper.set i (by omega) (by omega)
      rw [lower.bits, Bool.and_eq_true] at bit
      exact bit.1
  bits i := by
    rw [inner.bits, upper.bits, lower.bits, Bool.and_assoc, Bool.and_assoc]
    congr 1
    rw [Bool.eq_iff_iff, Bool.and_eq_true, Bool.and_eq_true, Bool.not_eq_true', Bool.not_eq_true',
      Bool.not_eq_true', Bool.not_eq_true', decide_eq_false_iff_not, decide_eq_false_iff_not,
      decide_eq_false_iff_not, decide_eq_false_iff_not]
    omega

end Arax.Lib
