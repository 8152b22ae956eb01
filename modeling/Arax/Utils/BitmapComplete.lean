/-
**Which requests the bitmap can serve.**

A request for `n` bits should succeed whenever the bitmap has a clear range of `n` bits
(`CompleteAt`). The two halves of `find_start` differ:

* `big_complete` — `find_start_big` finds a range of more than 64 bits whenever there is one: the
  clear range, extended downwards as far as it goes, begins with the whole free end of its chunk,
  and this is where the function starts (`freeEnd_of_start`).
* `small_complete_iff` — `find_start_small` decides by the number of free bits of a chunk whether
  it looks for a gap inside the chunk or for a range that continues in the next one. A range that
  crosses is missed if its first chunk has `n` free bits in other places (`Reached`).
-/

import Arax.Utils.BitmapRuns

namespace Arax.Utils

open Arax.Lib

/-- **A state of a bitmap of `sizeBits` bits.** The chunk array of `utils_bitmap_init`, `free_p` at
a chunk or at the end, the counter equal to the number of set bits, none of them past the end. -/
structure BitmapState (sizeBits : Nat) (bmp : UtilsBitmap) : Prop where
  fits : sizeBits < 2 ^ 64
  size : bmp.sizeBits = sizeBits
  endP : bmp.endP = (sizeBits + 63) % 2 ^ 64 / 64
  cursor : bmp.freeP ≤ bmp.endP
  used : bmp.usedBits = (setBits bmp.bits bmp.endP).card
  tail : ∀ i, sizeBits ≤ i → i < 64 * bmp.endP → bitAt bmp.bits i = false

/-- All bits of `[start, start + n)` are bits of the chunk array, and clear. -/
def RangeClear (bmp : UtilsBitmap) (start n : Nat) : Prop :=
  ∀ i, i < n → start + i < 64 * bmp.endP ∧ bitAt bmp.bits (start + i) = false

instance (bmp : UtilsBitmap) (start n : Nat) : Decidable (RangeClear bmp start n) :=
  inferInstanceAs (Decidable (∀ i, i < n → _))

/-- If some range of `n` clear bits lies inside the bitmap, then a request for `n` bits succeeds. -/
def CompleteAt (bmp : UtilsBitmap) (n : Nat) : Prop :=
  (∃ start, RangeClear bmp start n ∧ start + n ≤ bmp.sizeBits) →
    (utilsBitmapAllocBits bmp n).2 ≠ bitmapNotFound

/-! ### Clear ranges -/

theorem RangeClear.bit {bmp : UtilsBitmap} {start n i : Nat} (clear : RangeClear bmp start n)
    (low : start ≤ i) (high : i < start + n) : bitAt bmp.bits i = false := by
  have here := (clear (i - start) (by omega)).2
  rw [show start + (i - start) = i by omega] at here
  exact here

theorem RangeClear.inside {bmp : UtilsBitmap} {start n : Nat} (clear : RangeClear bmp start n)
    (positive : 1 ≤ n) : start + n ≤ 64 * bmp.endP := by
  have last := (clear (n - 1) (by omega)).1
  omega

theorem rangeClear_of_bits {bmp : UtilsBitmap} {start n : Nat} (inside : start + n ≤ 64 * bmp.endP)
    (bits : ∀ i, start ≤ i → i < start + n → bitAt bmp.bits i = false) :
    RangeClear bmp start n :=
  fun i bound => ⟨by omega, bits (start + i) (by omega) (by omega)⟩

theorem BitmapState.room {sizeBits : Nat} {bmp : UtilsBitmap} (state : BitmapState sizeBits bmp) :
    64 * bmp.endP < 2 ^ 64 := by
  have ends := state.endP
  omega

/-- A clear range inside the bitmap passes the test of the number of free bits. -/
theorem BitmapState.enough {sizeBits start n : Nat} {bmp : UtilsBitmap}
    (state : BitmapState sizeBits bmp) (clear : RangeClear bmp start n)
    (within : start + n ≤ sizeBits) : n ≤ utilsBitmapFree bmp := by
  have apart : Disjoint (setBits bmp.bits bmp.endP) (Finset.Ico start (start + n)) := by
    rw [Finset.disjoint_left]
    intro i member range
    rw [Finset.mem_Ico] at range
    have bit := (mem_setBits.mp member).2
    rw [clear.bit range.1 range.2] at bit
    exact Bool.false_ne_true bit
  have below : setBits bmp.bits bmp.endP ∪ Finset.Ico start (start + n) ⊆
      Finset.range sizeBits := by
    intro i member
    rw [Finset.mem_range]
    rcases Finset.mem_union.mp member with set | range
    · by_contra high
      have inside := mem_setBits.mp set
      rw [state.tail i (Nat.le_of_not_lt high) inside.1] at inside
      exact Bool.false_ne_true inside.2
    · exact (Finset.mem_Ico.mp range).2.trans_le within
  have total := Finset.card_le_card below
  rw [Finset.card_union_of_disjoint apart, Nat.card_Ico, Finset.card_range,
    Nat.add_sub_cancel_left, ← state.used] at total
  have fits := state.fits
  rw [utilsBitmapFree, sizeSub, state.size]
  omega

/-- The search fails only if `find_start` fails at every chunk. -/
theorem BitmapState.search {sizeBits n start : Nat} {bmp : UtilsBitmap}
    (state : BitmapState sizeBits bmp) (positive : 1 ≤ n) (clear : RangeClear bmp start n)
    (within : start + n ≤ sizeBits) :
    (utilsBitmapAllocBits bmp n).2 ≠ bitmapNotFound ↔
      ∃ c, c < bmp.endP ∧ (findStart (wrapFreeP bmp) n c).2 ≠ bitmapNotFound := by
  have enough := state.enough clear within
  cases call : utilsBitmapAllocBits bmp n with
  | mk next found =>
    rcases utilsBitmapAllocBits_cases positive state.room state.cursor call with
      ⟨_, rfl, few | nowhere⟩ | ⟨hit, c, other, inside, place, _⟩
    · exact absurd enough (Nat.not_le.mpr few)
    · refine ⟨fun hit => absurd rfl hit, fun ⟨c, inside, hit⟩ => ?_⟩
      exact absurd (nowhere c inside) hit
    · exact ⟨fun _ => ⟨c, inside, by rw [place]; exact hit⟩, fun _ => hit⟩

/-! ### Where a clear range begins -/

/-- The free end of a chunk contains every clear range that reaches its end. -/
theorem le_freeEnd {words : Nat → Word} {start n : Nat}
    (clear : ∀ i, start ≤ i → i < start + n → bitAt words i = false)
    (crosses : 64 ≤ start % 64 + n) : 64 - start % 64 ≤ freeEnd (words (start / 64)) := by
  rw [freeEnd_eq]
  refine le_clz (by omega) fun i low high => ?_
  rw [getLsbD_eq_bitAt words high]
  exact clear _ (by omega) (by omega)

/-- If the range cannot be extended downwards, it begins with the free end. -/
theorem freeEnd_of_start {words : Nat → Word} {start n : Nat}
    (clear : ∀ i, start ≤ i → i < start + n → bitAt words i = false)
    (crosses : 64 ≤ start % 64 + n) (first : start = 0 ∨ bitAt words (start - 1) = true) :
    freeEnd (words (start / 64)) = 64 - start % 64 := by
  refine le_antisymm ?_ (le_freeEnd clear crosses)
  have bound : freeEnd (words (start / 64)) ≤ 64 := by
    have fits := clz_add_popcount_le (words (start / 64))
    rw [freeEnd_eq]
    omega
  by_cases aligned : start % 64 = 0
  · omega
  · rcases first with zero | set
    · omega
    · have bit : (words (start / 64)).getLsbD (start % 64 - 1) = true := by
        rw [getLsbD_eq_bitAt words (by omega),
          show start / 64 * 64 + (start % 64 - 1) = start - 1 by omega]
        exact set
      have zeros := clz_le_of_getLsbD bit
      rw [freeEnd_eq]
      omega

/-- A range of clear bits, extended downwards as far as it goes. -/
theorem exists_start {words : Nat → Word} {stop : Nat} :
    ∀ start, (∀ i, start ≤ i → i < stop → bitAt words i = false) →
      ∃ first, first ≤ start ∧ (∀ i, first ≤ i → i < stop → bitAt words i = false) ∧
        (first = 0 ∨ bitAt words (first - 1) = true) := by
  intro start
  induction start with
  | zero => exact fun clear => ⟨0, le_rfl, clear, Or.inl rfl⟩
  | succ start ih =>
    intro clear
    by_cases set : bitAt words start = true
    · exact ⟨start + 1, le_rfl, clear, Or.inr set⟩
    · obtain ⟨first, low, bits, maximal⟩ := ih fun i lower upper => by
        rcases Nat.eq_or_lt_of_le lower with rfl | above
        · exact Bool.not_eq_true _ ▸ set
        · exact clear i above upper
      exact ⟨first, low.trans (Nat.le_succ start), bits, maximal⟩

/-! ### Requests of more than 64 bits -/

/-- `find_start_big` takes a range that begins with the free end of its chunk. -/
theorem findStartBig_complete {bmp : UtilsBitmap} {n start : Nat} (big : 65 ≤ n)
    (room : 64 * bmp.endP < 2 ^ 64) (clear : RangeClear bmp start n)
    (first : start = 0 ∨ bitAt bmp.bits (start - 1) = true) :
    (findStartBig bmp n (start / 64)).2 ≠ bitmapNotFound := by
  have inside := clear.inside (by omega)
  have free := freeEnd_of_start (fun i => clear.bit) (by omega) first
  have some : freeEnd (bmp.bits (start / 64)) ≠ 0 := by omega
  have notFull : bmp.bits (start / 64) ≠ BitVec.allOnes 64 := by
    intro full
    have bit := clear.bit le_rfl (by omega)
    rw [bitAt, full, BitVec.getLsbD_allOnes, decide_eq_false_iff_not] at bit
    omega
  have mask : BitVec.allOnes 64 <<< (64 - freeEnd (bmp.bits (start / 64))) ≠ 0#64 := by
    intro zero
    have bit := getLsbD_shiftLeft_ones (64 - freeEnd (bmp.bits (start / 64))) 63
    rw [zero, BitVec.getLsbD_zero, decide_eq_true (by omega), decide_eq_true (by omega)] at bit
    cases bit
  have rest : (if n - freeEnd (bmp.bits (start / 64)) < 65 then
        findEndSmall (n - freeEnd (bmp.bits (start / 64))) bmp (start / 64 + 1)
      else takeSpan (n - freeEnd (bmp.bits (start / 64))) bmp (start / 64)).2 = true := by
    rw [free]
    split_ifs with short
    · exact findEndSmall_complete (by omega) fun i low high => clear.bit (by omega) (by omega)
    · exact takeSpan_complete (by omega) fun i low high => clear.bit (by omega) (by omega)
  unfold findStartBig
  simp only [if_neg notFull, findStartBig_first _ n some, if_neg mask,
    if_neg (show ¬(start / 64 + 1 = bmp.endP) by omega)]
  generalize (if n - freeEnd (bmp.bits (start / 64)) < 65 then
      findEndSmall (n - freeEnd (bmp.bits (start / 64))) bmp (start / 64 + 1)
    else takeSpan (n - freeEnd (bmp.bits (start / 64))) bmp (start / 64)) = taken at rest ⊢
  obtain ⟨next, flag⟩ := taken
  cases rest
  show start / 64 * 64 + (64 - freeEnd (bmp.bits (start / 64))) ≠ 2 ^ 64 - 1
  omega

/-- **Completeness for large requests.** Whenever a clear range of `n` bits lies inside the bitmap,
a request for these more than 64 bits succeeds. -/
theorem big_complete (sizeBits : Nat) (bmp : UtilsBitmap) (state : BitmapState sizeBits bmp)
    (n : Nat) (big : 65 ≤ n) : CompleteAt bmp n := by
  rintro ⟨start, clear, within⟩
  rw [state.size] at within
  rw [state.search (by omega) clear within]
  have same := wrapFreeP_untouched state.cursor
  have inside := clear.inside (by omega)
  obtain ⟨first, low, bits, maximal⟩ := exists_start start fun i => clear.bit
  refine ⟨first / 64, by omega, ?_⟩
  have moved : RangeClear (wrapFreeP bmp) first n := by
    refine rangeClear_of_bits (by rw [same.endP]; omega) fun i lower upper => ?_
    rw [same.bits]
    exact bits i lower (by omega)
  unfold findStart
  rw [if_neg (by omega)]
  refine findStartBig_complete big (by rw [same.endP]; exact state.room) moved ?_
  rw [same.bits]
  exact maximal

/-- Two set bits in 200: the 130 clear bits between them are found from a cursor behind them. -/
theorem big_complete_at_200 :
    (utilsBitmapAllocBits ⟨3, 4, 2, 200,
      fun c => if c = 0 then 1#64 else if c = 2 then 8#64 else 0#64⟩ 130).2 ≠ bitmapNotFound :=
  big_complete 200 _
    ⟨by decide, rfl, by decide, by decide, by decide +kernel, by decide +kernel⟩ 130 (by decide)
    ⟨1, by decide +kernel, by decide⟩

/-! ### Requests of at most 64 bits -/

/-- A range that `find_start_small` takes or passes on the way to one: clear, and either inside one
chunk and the bitmap, or across two chunks the first of which has fewer than `n` clear bits. -/
def Reached (bmp : UtilsBitmap) (n start : Nat) : Prop :=
  RangeClear bmp start n ∧
    (start % 64 + n ≤ 64 ∧ start + n ≤ bmp.sizeBits ∨
      64 < start % 64 + n ∧ 64 - popcount (bmp.bits (start / 64)) < n)

/-- The gap loop misses no window of clear bits. -/
theorem findGap_complete {usable : Word} {n shift : Nat} (fits : shift + n ≤ 64)
    (clear : ∀ i, shift ≤ i → i < shift + n → usable.getLsbD i = false) :
    ∀ (steps start : Nat) (mask : Word), start + steps = 64 - n + 1 → start ≤ shift →
      (∀ i, i < 64 → mask.getLsbD i = decide (start ≤ i ∧ i < start + n)) →
      findGap usable steps mask start ≠ none := by
  intro steps
  induction steps with
  | zero =>
    intro start mask total low
    omega
  | succ steps ih =>
    intro start mask total low shape
    unfold findGap
    split_ifs with free
    · exact Option.some_ne_none _
    · have later : start ≠ shift := by
        rintro rfl
        refine free ((and_eq_zero_iff _ _).mpr fun i inside bit => ?_)
        rw [shape i inside, decide_eq_true_eq] at bit
        exact clear i bit.1 bit.2
      refine ih (start + 1) (mask <<< 1) (by omega) (by omega) fun i inside => ?_
      exact getLsbD_shiftLeft_one shape i inside

/-- Clear bits are not counted. -/
theorem popcount_add_le {x : Word} {shift n : Nat} (fits : shift + n ≤ 64)
    (clear : ∀ i, shift ≤ i → i < shift + n → x.getLsbD i = false) : popcount x + n ≤ 64 := by
  have apart : Disjoint ((Finset.range 64).filter fun i => x.getLsbD i = true)
      (Finset.Ico shift (shift + n)) := by
    rw [Finset.disjoint_left]
    intro i member range
    rw [Finset.mem_Ico] at range
    have bit := (Finset.mem_filter.mp member).2
    rw [clear i range.1 range.2] at bit
    exact Bool.false_ne_true bit
  have below : ((Finset.range 64).filter fun i => x.getLsbD i = true) ∪
      Finset.Ico shift (shift + n) ⊆ Finset.range 64 := by
    refine Finset.union_subset (Finset.filter_subset _ _) fun i range => ?_
    rw [Finset.mem_Ico] at range
    exact Finset.mem_range.mpr (by omega)
  have total := Finset.card_le_card below
  rw [Finset.card_union_of_disjoint apart, Nat.card_Ico, Finset.card_range,
    ← popcount_eq_card] at total
  omega

/-- The shape of the last chunk. -/
theorem chunk_within {sizeBits chunk i : Nat} (fits : sizeBits < 2 ^ 64) (inside : i < 64)
    (low : chunk < (sizeBits + 63) % 2 ^ 64 / 64) :
    chunk * 64 + i < sizeBits ↔
      ¬(chunk + 1 = (sizeBits + 63) % 2 ^ 64 / 64 ∧ sizeBits % 64 ≠ 0 ∧ sizeBits % 64 ≤ i) := by
  constructor
  · rintro within ⟨last, partly, high⟩
    omega
  · intro free
    by_cases last : chunk + 1 = (sizeBits + 63) % 2 ^ 64 / 64
    · by_cases partly : sizeBits % 64 = 0
      · omega
      · have : i < sizeBits % 64 := by
          by_contra high
          exact free ⟨last, partly, by omega⟩
        omega
    · omega

/-- Clear bits inside the bitmap are usable. -/
theorem usableBits_clear {bmp : UtilsBitmap} {chunk i : Nat} (fits : bmp.sizeBits < 2 ^ 64)
    (ends : bmp.endP = (bmp.sizeBits + 63) % 2 ^ 64 / 64) (low : chunk < bmp.endP)
    (inside : i < 64) :
    (usableBits bmp chunk).getLsbD i = false ↔
      bitAt bmp.bits (chunk * 64 + i) = false ∧ chunk * 64 + i < bmp.sizeBits := by
  rw [chunk_within fits inside (ends ▸ low), ← ends, ← getLsbD_eq_bitAt bmp.bits inside]
  unfold usableBits
  split_ifs with last
  · rw [BitVec.getLsbD_or, getLsbD_shiftLeft_ones, decide_eq_true inside, Bool.and_true,
      Bool.or_eq_false_iff, decide_eq_false_iff_not]
    refine and_congr_right fun _ => ⟨fun low all => low all.2.2, fun free high => ?_⟩
    exact free ⟨last.1, last.2, high⟩
  · refine ⟨fun bit => ⟨bit, fun all => last ⟨all.1, all.2.1⟩⟩, And.left⟩

/-- `find_start_small` takes a range inside the chunk. -/
theorem findStartSmall_gap_complete {bmp : UtilsBitmap} {n start : Nat}
    (fits : bmp.sizeBits < 2 ^ 64) (ends : bmp.endP = (bmp.sizeBits + 63) % 2 ^ 64 / 64)
    (positive : 1 ≤ n) (clear : RangeClear bmp start n) (one : start % 64 + n ≤ 64)
    (within : start + n ≤ bmp.sizeBits) :
    (findStartSmall bmp n (start / 64)).2 ≠ bitmapNotFound := by
  have inside := clear.inside positive
  have usable : ∀ i, start % 64 ≤ i → i < start % 64 + n →
      (usableBits bmp (start / 64)).getLsbD i = false := by
    intro i low high
    rw [usableBits_clear fits ends (by omega) (by omega)]
    exact ⟨clear.bit (by omega) (by omega), by omega⟩
  have few := popcount_add_le one usable
  unfold findStartSmall
  simp only
  split_ifs with empty full enough
  · show start / 64 * 64 ≠ 2 ^ 64 - 1
    omega
  · have bit := clear.bit le_rfl (by omega)
    rw [bitAt, full, BitVec.getLsbD_allOnes, decide_eq_false_iff_not] at bit
    omega
  · have fewer := popcount_pos empty
    have shape : ∀ i, i < 64 → (lowMask n).getLsbD i = decide (0 ≤ i ∧ i < 0 + n) := by
      intro i _
      rw [getLsbD_lowMask (by omega)]
      exact decide_eq_decide.mpr (by omega)
    obtain ⟨⟨mask, shift⟩, found⟩ := Option.ne_none_iff_exists'.mp
      (findGap_complete one usable (64 - n + 1) 0 (lowMask n) (by omega) (by omega) shape)
    obtain ⟨last, _, _⟩ := findGap_some _ 0 (lowMask n) shift (by omega) (by omega) shape found
    rw [found]
    show start / 64 * 64 + shift ≠ 2 ^ 64 - 1
    omega
  · omega
  · omega
  · omega

/-- `find_start_small` takes a range across two chunks if the first one has fewer than `n` clear
bits. -/
theorem findStartSmall_cross_complete {bmp : UtilsBitmap} {n start : Nat}
    (room : 64 * bmp.endP < 2 ^ 64) (small : n ≤ 64) (clear : RangeClear bmp start n)
    (crosses : 64 < start % 64 + n) (few : 64 - popcount (bmp.bits (start / 64)) < n) :
    (findStartSmall bmp n (start / 64)).2 ≠ bitmapNotFound := by
  have inside := clear.inside (by omega)
  have usable : usableBits bmp (start / 64) = bmp.bits (start / 64) :=
    usableBits_not_last (by omega)
  have free := le_freeEnd (fun i => clear.bit) (by omega : 64 ≤ start % 64 + n)
  have split := clz_add_popcount_le (bmp.bits (start / 64))
  have tail := freeEnd_eq (bmp.bits (start / 64))
  unfold findStartSmall
  simp only [usable]
  split_ifs with empty full enough none last
  · show start / 64 * 64 ≠ 2 ^ 64 - 1
    omega
  · have bit := clear.bit le_rfl (by omega)
    rw [bitAt, full, BitVec.getLsbD_allOnes, decide_eq_false_iff_not] at bit
    omega
  · omega
  · omega
  · omega
  · have next :
        (findEndSmall (n - freeEnd (bmp.bits (start / 64))) bmp (start / 64 + 1)).2 = true :=
      findEndSmall_complete (by omega) fun i low high => clear.bit (by omega) (by omega)
    generalize findEndSmall (n - freeEnd (bmp.bits (start / 64))) bmp (start / 64 + 1) = taken
      at next ⊢
    obtain ⟨other, flag⟩ := taken
    cases next
    show start / 64 * 64 + (64 - freeEnd (bmp.bits (start / 64))) ≠ 2 ^ 64 - 1
    omega

/-- What `find_start_small` takes is such a range. -/
theorem findStartSmall_reached {bmp next : UtilsBitmap} {n chunk found : Nat}
    (fits : bmp.sizeBits < 2 ^ 64) (ends : bmp.endP = (bmp.sizeBits + 63) % 2 ^ 64 / 64)
    (positive : 1 ≤ n) (small : n ≤ 64) (inside : chunk < bmp.endP)
    (call : findStartSmall bmp n chunk = (next, found))
    (hit : found ≠ bitmapNotFound) : Reached bmp n found := by
  have clear : RangeClear bmp found n := by
    rcases findStartSmall_spec positive small inside call with ⟨_, none⟩ | placed
    · exact absurd none hit
    · exact rangeClear_of_bits placed.inside placed.on.clear
  refine ⟨clear, ?_⟩
  unfold findStartSmall at call
  simp only at call
  split_ifs at call with empty full enough none last
  · cases call
    have top : (usableBits bmp chunk).getLsbD (n - 1) = false := by
      rw [empty, BitVec.getLsbD_zero]
    have within := ((usableBits_clear fits ends inside (by omega)).mp top).2
    exact Or.inl ⟨by omega, by omega⟩
  · cases call
    exact absurd rfl hit
  · have fewer := popcount_pos empty
    cases gap : findGap (usableBits bmp chunk) (64 - n + 1) (lowMask n) 0 with
    | none =>
      rw [gap] at call
      cases call
      exact absurd rfl hit
    | some pair =>
      rw [gap] at call
      cases call
      obtain ⟨last, free, shape⟩ := findGap_some _ 0 (lowMask n) pair.2 (by omega) small
        (fun i _ => by rw [getLsbD_lowMask (by omega)]; exact decide_eq_decide.mpr (by omega)) gap
      have inMask : pair.1.getLsbD (pair.2 + n - 1) = true := by
        rw [shape _ (by omega)]
        exact decide_eq_true ⟨by omega, by omega⟩
      have top := (and_eq_zero_iff _ _).mp free (pair.2 + n - 1) (by omega) inMask
      have within := ((usableBits_clear fits ends inside (by omega)).mp top).2
      exact Or.inl ⟨by omega, by omega⟩
  · cases call
    exact absurd rfl hit
  · cases call
    exact absurd rfl hit
  · rw [usableBits_not_last last] at enough
    have split := clz_add_popcount_le (bmp.bits chunk)
    have tail := freeEnd_eq (bmp.bits chunk)
    cases taken : findEndSmall (n - freeEnd (bmp.bits chunk)) bmp (chunk + 1) with
    | mk other flag =>
      rw [taken] at call
      cases flag with
      | false =>
        cases call
        exact absurd rfl hit
      | true =>
        cases call
        refine Or.inr ⟨by omega, ?_⟩
        rw [show (chunk * 64 + (64 - freeEnd (bmp.bits chunk))) / 64 = chunk by omega]
        omega

/-- **Completeness for small requests.** A request for at most 64 bits succeeds whenever a clear
range of its length lies inside the bitmap, if and only if then some clear range lies inside one
chunk, or crosses from a chunk with fewer clear bits than the request. -/
theorem small_complete_iff (sizeBits : Nat) (bmp : UtilsBitmap)
    (state : BitmapState sizeBits bmp) (n : Nat) (positive : 1 ≤ n) (small : n ≤ 64) :
    CompleteAt bmp n ↔
      ((∃ start, RangeClear bmp start n ∧ start + n ≤ bmp.sizeBits) →
        ∃ start, Reached bmp n start) := by
  refine imp_congr_right fun ⟨start, clear, within⟩ => ?_
  rw [state.size] at within
  rw [state.search positive clear within]
  have same := wrapFreeP_untouched state.cursor
  have ends : (wrapFreeP bmp).endP = ((wrapFreeP bmp).sizeBits + 63) % 2 ^ 64 / 64 := by
    rw [same.endP, same.sizeBits, state.endP, state.size]
  have room : 64 * (wrapFreeP bmp).endP < 2 ^ 64 := by
    rw [same.endP]
    exact state.room
  have fits : (wrapFreeP bmp).sizeBits < 2 ^ 64 := by
    rw [same.sizeBits, state.size]
    exact state.fits
  have reached : ∀ s, Reached (wrapFreeP bmp) n s ↔ Reached bmp n s := by
    intro s
    unfold Reached RangeClear
    rw [same.endP, same.bits, same.sizeBits]
  unfold findStart
  simp only [if_pos (show n < 65 by omega)]
  constructor
  · rintro ⟨c, inside, hit⟩
    cases call : findStartSmall (wrapFreeP bmp) n c with
    | mk next found =>
      rw [call] at hit
      refine ⟨found, (reached found).mp ?_⟩
      have bound : c < (wrapFreeP bmp).endP := by
        rw [same.endP]
        exact inside
      exact findStartSmall_reached fits ends positive small bound call hit
  · rintro ⟨s, here⟩
    have bound := here.1.inside positive
    refine ⟨s / 64, by omega, ?_⟩
    obtain ⟨free, ⟨one, below⟩ | ⟨crosses, few⟩⟩ := (reached s).mpr here
    · exact findStartSmall_gap_complete fits ends positive free one below
    · exact findStartSmall_cross_complete room small free crosses few

/-- One clear bit at the end of a chunk and one at the start of the next. -/
theorem small_complete_at_128 :
    CompleteAt ⟨0, 2, 126, 128,
      fun c => if c = 0 then 0x7FFFFFFFFFFFFFFF#64 else 0xFFFFFFFFFFFFFFFE#64⟩ 2 :=
  (small_complete_iff 128 _
    ⟨by decide, rfl, by decide, by decide, by decide +kernel, by decide +kernel⟩ 2 (by decide)
    (by decide)).mpr
    fun _ => ⟨63, by decide +kernel, Or.inr ⟨by decide, by decide +kernel⟩⟩

/-- With one more clear bit at the start of the first chunk, the same two bits are not found. -/
theorem small_complete_fails_at_128 :
    ¬∀ sizeBits bmp, BitmapState sizeBits bmp → ∀ n, 1 ≤ n → n ≤ 64 → CompleteAt bmp n := by
  intro all
  have served := all 128 ⟨0, 2, 125, 128,
      fun c => if c = 0 then 0x7FFFFFFFFFFFFFFE#64 else 0xFFFFFFFFFFFFFFFE#64⟩
    ⟨by decide, rfl, by decide, by decide, by decide +kernel, by decide +kernel⟩ 2 (by decide)
    (by decide)
  exact served ⟨63, by decide +kernel, by decide⟩ (by decide +kernel)

end Arax.Utils
