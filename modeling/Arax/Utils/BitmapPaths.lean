/-
**What one call of the bitmap does to the bits.**

Every path of the allocator switches exactly the requested range on, and every path of the release
exactly the given range off:

* `findStart_spec` — `find_start` at a chunk either leaves the bitmap as it is and says
  `BITMAP_NOT_FOUND`, or places the range (`Placed`): all bits of `[s, s + n)` were clear, exactly
  these are set afterwards, the range ends inside the chunk array, `used_bits` grows by `n`.
  The paths over several chunks are put together from adjacent ranges (`SwitchedOn.append`), in
  the order in which the source writes them: last chunk, span, first chunk.
* `utilsBitmapAllocBits_spec` — the same of the whole search.
* `utilsBitmapFreeBits_spec` — a release of set bits passes both assertions and switches the range
  off.
-/

import Arax.Utils.Bitmap

namespace Arax.Utils

open Arax.Lib

/-- **A placed range.** `next` is `bmp` with the clear range `[s, s + n)` switched on and
counted. -/
structure Placed (bmp next : UtilsBitmap) (n s : Nat) : Prop where
  endP : next.endP = bmp.endP
  sizeBits : next.sizeBits = bmp.sizeBits
  usedBits : next.usedBits = (bmp.usedBits + n) % 2 ^ 64
  on : SwitchedOn bmp.bits next.bits s n
  inside : s + n ≤ 64 * bmp.endP

/-! ### The pieces -/

theorem getLsbD_firstBits {n : Nat} (fits : n ≤ 64) (i : Nat) (inside : i < 64) :
    (firstBits n).getLsbD i = decide (0 ≤ i ∧ i < 0 + n) := by
  unfold firstBits
  split_ifs with partly
  · rw [getLsbD_lowMask (by omega)]
    exact decide_eq_decide.mpr (by omega)
  · rw [BitVec.getLsbD_allOnes]
    exact decide_eq_decide.mpr (by omega)

/-- The bits of one chunk, in positions of the array. -/
theorem getLsbD_eq_bitAt (words : Nat → Word) {chunk i : Nat} (inside : i < 64) :
    (words chunk).getLsbD i = bitAt words (chunk * 64 + i) := by
  rw [bitAt, show (chunk * 64 + i) / 64 = chunk by omega,
    show (chunk * 64 + i) % 64 = i by omega]

theorem findEndSmall_complete {n chunk : Nat} {bmp : UtilsBitmap} (fits : n ≤ 64)
    (clear : ∀ i, chunk * 64 ≤ i → i < chunk * 64 + n → bitAt bmp.bits i = false) :
    (findEndSmall n bmp chunk).2 = true := by
  have free : firstBits n &&& bmp.bits chunk = 0#64 := by
    rw [and_eq_zero_iff]
    intro i inside bit
    rw [getLsbD_firstBits fits i inside, decide_eq_true_eq] at bit
    rw [getLsbD_eq_bitAt bmp.bits inside]
    exact clear _ (by omega) (by omega)
  unfold findEndSmall
  rw [if_pos free]

theorem findEndSmall_true {n : Nat} {bmp next : UtilsBitmap} {chunk : Nat} (fits : n ≤ 64)
    (hit : findEndSmall n bmp chunk = (next, true)) :
    next = { bmp with bits := next.bits } ∧ SwitchedOn bmp.bits next.bits (chunk * 64) n := by
  unfold findEndSmall at hit
  split_ifs at hit with free
  · cases hit
    exact ⟨rfl,
      switchedOn_store _ _ (fun i inside => getLsbD_firstBits fits i inside) (by omega) free⟩
  · cases hit

/-- The mask of the gap loop after one shift. -/
theorem getLsbD_shiftLeft_one {mask : Word} {start n : Nat}
    (shape : ∀ i, i < 64 → mask.getLsbD i = decide (start ≤ i ∧ i < start + n)) (i : Nat)
    (inside : i < 64) :
    (mask <<< 1).getLsbD i = decide (start + 1 ≤ i ∧ i < start + 1 + n) := by
  rw [BitVec.getLsbD_shiftLeft]
  by_cases zero : i < 1
  · simp only [zero, decide_true, Bool.not_true, Bool.and_false, Bool.false_and]
    exact (decide_eq_false (by omega)).symm
  · rw [shape (i - 1) (by omega), decide_eq_true inside, decide_eq_false zero]
    simp only [Bool.not_false, Bool.true_and]
    exact decide_eq_decide.mpr (by omega)

/-- The gap loop finds a window of `n` usable bits inside the chunk. -/
theorem findGap_some {usable found : Word} {n : Nat} :
    ∀ (steps start : Nat) (mask : Word) (shift : Nat), start + steps = 64 - n + 1 → n ≤ 64 →
      (∀ i, i < 64 → mask.getLsbD i = decide (start ≤ i ∧ i < start + n)) →
      findGap usable steps mask start = some (found, shift) →
      shift + n ≤ 64 ∧ found &&& usable = 0#64 ∧
        ∀ i, i < 64 → found.getLsbD i = decide (shift ≤ i ∧ i < shift + n) := by
  intro steps
  induction steps with
  | zero =>
    intro start mask shift _ _ _ hit
    cases hit
  | succ steps ih =>
    intro start mask shift total small shape hit
    unfold findGap at hit
    split_ifs at hit with free
    · cases hit
      exact ⟨by omega, free, shape⟩
    · refine ih (start + 1) (mask <<< 1) shift (by omega) small (fun i inside => ?_) hit
      exact getLsbD_shiftLeft_one shape i inside

theorem spanClear_iff (bits : Nat → Word) (count first : Nat) :
    spanClear bits count first = true ↔
      ∀ chunk, first ≤ chunk → chunk < first + count → bits chunk = 0#64 := by
  induction count generalizing first with
  | zero =>
    refine ⟨fun _ chunk low high => ?_, fun _ => rfl⟩
    omega
  | succ count ih =>
    unfold spanClear
    by_cases zero : bits first = 0#64
    · rw [if_neg (not_not.mpr zero), ih]
      refine ⟨fun rest chunk low high => ?_,
        fun all chunk low high => all chunk (by omega) (by omega)⟩
      rcases Nat.eq_or_lt_of_le low with rfl | later
      · exact zero
      · exact rest chunk later (by omega)
    · rw [if_pos zero]
      refine ⟨fun impossible => ?_, fun all => absurd (all first le_rfl (by omega)) zero⟩
      cases impossible

theorem takeSpan_complete {remainder chunk : Nat} {bmp : UtilsBitmap}
    (inside : (chunk + 1) * 64 + remainder ≤ 64 * bmp.endP)
    (clear : ∀ i, (chunk + 1) * 64 ≤ i → i < (chunk + 1) * 64 + remainder →
      bitAt bmp.bits i = false) : (takeSpan remainder bmp chunk).2 = true := by
  have room : ¬(bmp.endP ≤ chunk + remainder / 64 + (if remainder % 64 ≠ 0 then 1 else 0)) := by
    split_ifs <;> omega
  have span : spanClear bmp.bits (remainder / 64) (chunk + 1) = true := by
    rw [spanClear_iff]
    intro c low high
    apply BitVec.eq_of_getLsbD_eq
    intro i bound
    rw [BitVec.getLsbD_zero, getLsbD_eq_bitAt bmp.bits bound]
    exact clear _ (by omega) (by omega)
  have last : ¬(remainder % 64 ≠ 0 ∧
      bmp.bits (chunk + 1 + remainder / 64) &&& lowMask (remainder % 64) ≠ 0#64) := by
    rintro ⟨_, taken⟩
    refine taken ?_
    rw [BitVec.and_comm, and_eq_zero_iff]
    intro i bound bit
    rw [getLsbD_lowMask (by omega), decide_eq_true_eq] at bit
    rw [getLsbD_eq_bitAt bmp.bits bound]
    exact clear _ (by omega) (by omega)
  unfold takeSpan
  simp only [if_neg room, span, Bool.true_eq_false, if_false, if_neg last]

/-- The high bits of a chunk from `64 - k` on, when `k` is at most its leading zeros. -/
theorem highMask_and_eq_zero {x : Word} {k : Nat} (zeros : k ≤ x.clz.toNat) :
    (BitVec.allOnes 64 <<< (64 - k)) &&& x = 0#64 := by
  rw [and_eq_zero_iff]
  intro i inside high
  rw [getLsbD_shiftLeft_ones, Bool.and_eq_true, decide_eq_true_eq] at high
  exact getLsbD_of_clz_le x (by omega)

theorem getLsbD_highMask {k : Nat} (fits : k ≤ 64) (i : Nat) (inside : i < 64) :
    (BitVec.allOnes 64 <<< (64 - k)).getLsbD i = decide (64 - k ≤ i ∧ i < 64 - k + k) := by
  rw [getLsbD_shiftLeft_ones, decide_eq_true inside, Bool.and_true]
  exact decide_eq_decide.mpr (by omega)

/-- The usable bits contain the bits of the chunk. -/
theorem usableBits_of_getLsbD {bmp : UtilsBitmap} {chunk i : Nat}
    (bit : (bmp.bits chunk).getLsbD i = true) : (usableBits bmp chunk).getLsbD i = true := by
  unfold usableBits
  split_ifs
  · rw [BitVec.getLsbD_or, bit, Bool.true_or]
  · exact bit

/-- What is free in the usable bits is free in the chunk. -/
theorem and_bits_eq_zero {bmp : UtilsBitmap} {chunk : Nat} {mask : Word}
    (free : mask &&& usableBits bmp chunk = 0#64) : mask &&& bmp.bits chunk = 0#64 := by
  rw [and_eq_zero_iff] at free ⊢
  intro i inside set
  by_contra bit
  have taken := usableBits_of_getLsbD (Bool.not_eq_false _ ▸ bit)
  rw [free i inside set] at taken
  exact Bool.false_ne_true taken

theorem usableBits_not_last {bmp : UtilsBitmap} {chunk : Nat} (inner : chunk + 1 ≠ bmp.endP) :
    usableBits bmp chunk = bmp.bits chunk := by
  unfold usableBits
  rw [if_neg (fun both => inner both.1)]

/-! ### `find_start_small` -/

theorem findStartSmall_empty {bmp : UtilsBitmap} {n chunk : Nat} (small : n ≤ 64)
    (inside : chunk < bmp.endP) (empty : usableBits bmp chunk = 0#64) :
    Placed bmp ((bmp.store chunk (firstBits n)).addUsed n) n (chunk * 64) := by
  have clear : bmp.bits chunk = 0#64 := by
    apply BitVec.eq_of_getLsbD_eq
    intro i _
    rw [BitVec.getLsbD_zero]
    by_contra bit
    have taken := usableBits_of_getLsbD (Bool.not_eq_false _ ▸ bit)
    rw [empty, BitVec.getLsbD_zero] at taken
    exact Bool.false_ne_true taken
  refine ⟨rfl, rfl, rfl, ?_, by omega⟩
  have stored := switchedOn_store bmp.bits chunk
    (fun i low => getLsbD_firstBits small i low) (by omega) (by rw [clear, BitVec.and_zero])
  rw [clear, BitVec.zero_or] at stored
  exact stored

theorem findStartSmall_gap {bmp : UtilsBitmap} {n chunk shift : Nat} {mask : Word}
    (small : n ≤ 64) (inside : chunk < bmp.endP)
    (hit : findGap (usableBits bmp chunk) (64 - n + 1) (lowMask n) 0 = some (mask, shift))
    (fewer : n < 64) :
    Placed bmp ((bmp.store chunk (bmp.bits chunk ||| mask)).addUsed n) n (chunk * 64 + shift) := by
  obtain ⟨fits, free, shape⟩ := findGap_some (64 - n + 1) 0 (lowMask n) shift (by omega) small
    (fun i _ => by rw [getLsbD_lowMask fewer]; exact decide_eq_decide.mpr (by omega)) hit
  exact ⟨rfl, rfl, rfl, switchedOn_store _ _ shape fits (and_bits_eq_zero free), by omega⟩

/-- The tail of a chunk added to a range that starts with the next chunk. -/
theorem placed_straddle {bmp next : UtilsBitmap} {n chunk k : Nat}
    (zeros : k ≤ (bmp.bits chunk).clz.toNat) (some : k ≤ n) (fits : k ≤ 64)
    (frame : next = { bmp with bits := next.bits })
    (upper : SwitchedOn bmp.bits next.bits ((chunk + 1) * 64) (n - k))
    (inside : (chunk + 1) * 64 + (n - k) ≤ 64 * bmp.endP) :
    Placed bmp
      ((next.store chunk (next.bits chunk ||| (BitVec.allOnes 64 <<< (64 - k)))).addUsed n) n
      (chunk * 64 + (64 - k)) := by
  have same : next.bits chunk = bmp.bits chunk := by
    apply BitVec.eq_of_getLsbD_eq
    intro i low
    have bit := upper.bits (chunk * 64 + i)
    rw [bitAt, bitAt, show (chunk * 64 + i) / 64 = chunk by omega,
      show (chunk * 64 + i) % 64 = i by omega, decide_eq_false (by omega), Bool.or_false] at bit
    exact bit
  have lower : SwitchedOn next.bits
      (Function.update next.bits chunk (next.bits chunk ||| (BitVec.allOnes 64 <<< (64 - k))))
      (chunk * 64 + (64 - k)) k :=
    switchedOn_store _ _ (fun i low => getLsbD_highMask fits i low) (by omega)
      (by rw [same]; exact highMask_and_eq_zero zeros)
  refine ⟨?_, ?_, ?_, ?_, by omega⟩
  · exact (congrArg UtilsBitmap.endP frame :)
  · exact (congrArg UtilsBitmap.sizeBits frame :)
  · show (next.usedBits + n) % 2 ^ 64 = (bmp.usedBits + n) % 2 ^ 64
    rw [congrArg UtilsBitmap.usedBits frame]
  · have both := upper.append lower (by omega)
    rw [show k + (n - k) = n by omega] at both
    exact both

theorem freeEnd_eq (x : Word) : freeEnd x = x.clz.toNat := by
  unfold freeEnd
  split_ifs with zero
  · rfl
  · rw [not_not] at zero
    rw [zero]
    rfl

theorem findStartSmall_spec {bmp next : UtilsBitmap} {n chunk found : Nat} (positive : 1 ≤ n)
    (small : n ≤ 64) (inside : chunk < bmp.endP)
    (call : findStartSmall bmp n chunk = (next, found)) :
    (next = bmp ∧ found = bitmapNotFound) ∨ Placed bmp next n found := by
  unfold findStartSmall at call
  simp only at call
  split_ifs at call with empty full room atEnd last
  · cases call
    exact Or.inr (findStartSmall_empty small inside empty)
  · cases call
    exact Or.inl ⟨rfl, rfl⟩
  · have fewer : n < 64 := by
      have taken := popcount_pos empty
      omega
    cases hit : findGap (usableBits bmp chunk) (64 - n + 1) (lowMask n) 0 with
    | none =>
      rw [hit] at call
      cases call
      exact Or.inl ⟨rfl, rfl⟩
    | some pair =>
      rw [hit] at call
      cases call
      exact Or.inr (findStartSmall_gap small inside hit fewer)
  · cases call
    exact Or.inl ⟨rfl, rfl⟩
  · cases call
    exact Or.inl ⟨rfl, rfl⟩
  · rw [freeEnd_eq] at call atEnd
    rw [usableBits_not_last last] at room
    have split := clz_add_popcount_le (bmp.bits chunk)
    cases hit : findEndSmall (n - (bmp.bits chunk).clz.toNat) bmp (chunk + 1) with
    | mk other taken =>
      rw [hit] at call
      cases taken with
      | false =>
        cases call
        exact Or.inl ⟨rfl, rfl⟩
      | true =>
        cases call
        obtain ⟨frame, upper⟩ := findEndSmall_true (by omega) hit
        exact Or.inr (placed_straddle le_rfl (by omega) (by omega) frame upper (by omega))

/-! ### `find_start_big` -/

/-- The remainder in the last chunk is written first, then the span. -/
theorem switchedOn_span {bmp : UtilsBitmap} {chunk span rest : Nat} (fits : rest < 64)
    (clear : spanClear bmp.bits span chunk = true)
    (free : rest ≠ 0 → bmp.bits (chunk + span) &&& lowMask rest = 0#64) :
    let last := if rest ≠ 0 then
        bmp.store (chunk + span) (bmp.bits (chunk + span) ||| lowMask rest)
      else bmp
    SwitchedOn bmp.bits (last.fill chunk span (BitVec.allOnes 64)).bits (chunk * 64)
      (span * 64 + rest) := by
  intro last
  rw [spanClear_iff] at clear
  have upper : SwitchedOn bmp.bits last.bits ((chunk + span) * 64) rest := by
    by_cases zero : rest = 0
    · rw [show last = bmp from if_neg (not_not.mpr zero), zero]
      exact switchedOn_none _ _
    · have shape : ∀ i, i < 64 → (lowMask rest).getLsbD i = decide (0 ≤ i ∧ i < 0 + rest) := by
        intro i _
        rw [getLsbD_lowMask fits]
        exact decide_eq_decide.mpr (by omega)
      rw [show last = _ from if_pos zero]
      exact switchedOn_store _ _ shape (by omega) (by rw [BitVec.and_comm]; exact free zero)
  have outside : ∀ i, chunk ≤ i → i < chunk + span → last.bits i = 0#64 := by
    intro i low high
    by_cases zero : rest = 0
    · rw [show last = bmp from if_neg (not_not.mpr zero)]
      exact clear i low high
    · rw [show last = _ from if_pos zero]
      show Function.update bmp.bits (chunk + span) _ i = 0#64
      rw [Function.update_of_ne (by omega)]
      exact clear i low high
  exact upper.append (switchedOn_fill outside) (by omega)

theorem takeSpan_true {bmp next : UtilsBitmap} {remainder chunk : Nat}
    (hit : takeSpan remainder bmp chunk = (next, true)) :
    next = { bmp with bits := next.bits } ∧
      SwitchedOn bmp.bits next.bits ((chunk + 1) * 64) remainder ∧
      (chunk + 1) * 64 + remainder ≤ 64 * bmp.endP := by
  unfold takeSpan at hit
  simp only at hit
  by_cases short : bmp.endP ≤ chunk + remainder / 64 + (if remainder % 64 ≠ 0 then 1 else 0)
  · rw [if_pos short] at hit
    cases hit
  rw [if_neg short] at hit
  by_cases clear : spanClear bmp.bits (remainder / 64) (chunk + 1) = false
  · rw [if_pos clear] at hit
    cases hit
  rw [if_neg clear] at hit
  by_cases taken : remainder % 64 ≠ 0 ∧
      bmp.bits (chunk + 1 + remainder / 64) &&& lowMask (remainder % 64) ≠ 0#64
  · rw [if_pos taken] at hit
    cases hit
  rw [if_neg taken] at hit
  have free : remainder % 64 ≠ 0 →
      bmp.bits (chunk + 1 + remainder / 64) &&& lowMask (remainder % 64) = 0#64 :=
    fun some => not_not.mp fun more => taken ⟨some, more⟩
  have on := switchedOn_span (Nat.mod_lt _ (by decide)) (Bool.not_eq_false _ ▸ clear) free
  cases hit
  refine ⟨?_, ?_, ?_⟩
  · split_ifs
    · rfl
    · rfl
  · rw [show remainder / 64 * 64 + remainder % 64 = remainder by omega] at on
    exact on
  · split_ifs at short
    · omega
    · omega

/-- The two cases of `find_start_big` for the first chunk are one: its free end. -/
theorem findStartBig_first (x : Word) (n : Nat) (some : freeEnd x ≠ 0) :
    (if x = 0#64 then (BitVec.allOnes 64, n - 64, 0)
      else (if x.clz.toNat ≠ 0 then BitVec.allOnes 64 <<< (64 - x.clz.toNat) else 0#64,
        n - x.clz.toNat, 64 - x.clz.toNat)) =
      (BitVec.allOnes 64 <<< (64 - freeEnd x), n - freeEnd x, 64 - freeEnd x) := by
  by_cases zero : x = 0#64
  · rw [if_pos zero, freeEnd, if_neg (not_not.mpr zero)]
    rfl
  · rw [if_neg zero, ← freeEnd_eq, if_pos some]

theorem findStartBig_spec {bmp next : UtilsBitmap} {n chunk found : Nat} (big : 65 ≤ n)
    (inside : chunk < bmp.endP) (call : findStartBig bmp n chunk = (next, found)) :
    (next = bmp ∧ found = bitmapNotFound) ∨ Placed bmp next n found := by
  unfold findStartBig at call
  by_cases full : bmp.bits chunk = BitVec.allOnes 64
  · rw [if_pos full] at call
    cases call
    exact Or.inl ⟨rfl, rfl⟩
  rw [if_neg full] at call
  by_cases none : freeEnd (bmp.bits chunk) = 0
  · have zeros : (bmp.bits chunk).clz.toNat = 0 := by rw [← freeEnd_eq, none]
    have taken : bmp.bits chunk ≠ 0#64 := by
      intro zero
      rw [zero] at none
      cases none
    simp only [if_neg taken, zeros, ne_eq, not_true_eq_false, if_false] at call
    cases call
    exact Or.inl ⟨rfl, rfl⟩
  simp only [findStartBig_first _ n none] at call
  have bound : freeEnd (bmp.bits chunk) ≤ 64 := by
    have := clz_add_popcount_le (bmp.bits chunk)
    rw [freeEnd_eq]
    omega
  have zeros : freeEnd (bmp.bits chunk) ≤ (bmp.bits chunk).clz.toNat := (freeEnd_eq _).le
  generalize freeEnd (bmp.bits chunk) = k at call none bound zeros
  split_ifs at call with mask last short
  · cases call
    exact Or.inl ⟨rfl, rfl⟩
  · cases call
    exact Or.inl ⟨rfl, rfl⟩
  · cases hit : findEndSmall (n - k) bmp (chunk + 1) with
    | mk other taken =>
      rw [hit] at call
      cases taken with
      | false =>
        cases call
        exact Or.inl ⟨rfl, rfl⟩
      | true =>
        cases call
        obtain ⟨frame, upper⟩ := findEndSmall_true (by omega) hit
        exact Or.inr (placed_straddle zeros (by omega) bound frame upper (by omega))
  · cases hit : takeSpan (n - k) bmp chunk with
    | mk other taken =>
      rw [hit] at call
      cases taken with
      | false =>
        cases call
        exact Or.inl ⟨rfl, rfl⟩
      | true =>
        cases call
        obtain ⟨frame, upper, room⟩ := takeSpan_true hit
        exact Or.inr (placed_straddle zeros (by omega) bound frame upper room)

/-! ### The search -/

/-- **`find_start` at one chunk.** Nothing changes, or the range is placed. -/
theorem findStart_spec {bmp next : UtilsBitmap} {n chunk found : Nat} (positive : 1 ≤ n)
    (inside : chunk < bmp.endP) (call : findStart bmp n chunk = (next, found)) :
    (next = bmp ∧ found = bitmapNotFound) ∨ Placed bmp next n found := by
  unfold findStart at call
  split_ifs at call with small
  · exact findStartSmall_spec positive (by omega) inside call
  · exact findStartBig_spec (by omega) inside call

/-- A placed range never starts at `BITMAP_NOT_FOUND`. -/
theorem Placed.ne_notFound {bmp next : UtilsBitmap} {n s : Nat} (placed : Placed bmp next n s)
    (positive : 1 ≤ n) (room : 64 * bmp.endP < 2 ^ 64) : s ≠ bitmapNotFound := by
  have inside := placed.inside
  unfold bitmapNotFound
  omega

/-- A search loop finds nothing and changes nothing, or stops at the first chunk where
`find_start` finds the range. -/
theorem findFrom_cases {bmp next : UtilsBitmap} {n found : Nat} (positive : 1 ≤ n)
    (room : 64 * bmp.endP < 2 ^ 64) :
    ∀ (steps chunk : Nat), chunk + steps ≤ bmp.endP → findFrom n steps bmp chunk = (next, found) →
      (next = bmp ∧ found = bitmapNotFound ∧
          ∀ c, chunk ≤ c → c < chunk + steps → (findStart bmp n c).2 = bitmapNotFound) ∨
        (found ≠ bitmapNotFound ∧
          ∃ c, chunk ≤ c ∧ c < chunk + steps ∧ findStart bmp n c = (next, found) ∧
            ∀ d, chunk ≤ d → d < c → (findStart bmp n d).2 = bitmapNotFound) := by
  intro steps
  induction steps with
  | zero =>
    intro chunk _ call
    cases call
    exact Or.inl ⟨rfl, rfl, fun c low high => absurd high (by omega)⟩
  | succ steps ih =>
    intro chunk inside call
    unfold findFrom at call
    cases start : findStart bmp n chunk with
    | mk other place =>
      rw [start] at call
      simp only at call
      rcases findStart_spec positive (by omega) start with ⟨rfl, rfl⟩ | placed
      · have here : (findStart other n chunk).2 = bitmapNotFound := by rw [start]
        rw [if_neg (not_not.mpr rfl)] at call
        rcases ih (chunk + 1) (by omega) call with
          ⟨same, none, all⟩ | ⟨hit, c, low, high, place, all⟩
        · refine Or.inl ⟨same, none, fun c low high => ?_⟩
          rcases Nat.eq_or_lt_of_le low with rfl | later
          · exact here
          · exact all c later (by omega)
        · refine Or.inr ⟨hit, c, by omega, by omega, place, fun d low high => ?_⟩
          rcases Nat.eq_or_lt_of_le low with rfl | later
          · exact here
          · exact all d later high
      · have hit := placed.ne_notFound positive room
        rw [if_pos hit] at call
        cases call
        exact Or.inr ⟨hit, chunk, le_rfl, by omega, start, fun d low high => absurd high (by omega)⟩

/-- What the search leaves alone when it finds nothing. -/
structure Untouched (bmp next : UtilsBitmap) : Prop where
  endP : next.endP = bmp.endP
  sizeBits : next.sizeBits = bmp.sizeBits
  usedBits : next.usedBits = bmp.usedBits
  bits : next.bits = bmp.bits
  freeP : next.freeP ≤ next.endP

theorem wrapFreeP_untouched {bmp : UtilsBitmap} (cursor : bmp.freeP ≤ bmp.endP) :
    Untouched bmp (wrapFreeP bmp) := by
  unfold wrapFreeP
  split_ifs
  · exact ⟨rfl, rfl, rfl, rfl, Nat.zero_le _⟩
  · exact ⟨rfl, rfl, rfl, rfl, cursor⟩

/-- **The search of `utils_bitmap_alloc_bits`.** It gives up because too few bits are free or
because `find_start` fails at every chunk, or it takes what `find_start` finds at some chunk. -/
theorem utilsBitmapAllocBits_cases {bmp next : UtilsBitmap} {n found : Nat} (positive : 1 ≤ n)
    (room : 64 * bmp.endP < 2 ^ 64) (cursor : bmp.freeP ≤ bmp.endP)
    (call : utilsBitmapAllocBits bmp n = (next, found)) :
    (next = wrapFreeP bmp ∧ found = bitmapNotFound ∧
        (utilsBitmapFree bmp < n ∨
          ∀ c, c < bmp.endP → (findStart (wrapFreeP bmp) n c).2 = bitmapNotFound)) ∨
      (found ≠ bitmapNotFound ∧ ∃ c other, c < bmp.endP ∧
        findStart (wrapFreeP bmp) n c = (other, found) ∧
        next = { other with freeP := found / 64 }) := by
  have same := wrapFreeP_untouched cursor
  have free : utilsBitmapFree (wrapFreeP bmp) = utilsBitmapFree bmp := by
    rw [utilsBitmapFree, same.sizeBits, same.usedBits, utilsBitmapFree]
  have ends := same.endP
  have bound := same.freeP
  have roomWrap : 64 * (wrapFreeP bmp).endP < 2 ^ 64 := by omega
  unfold utilsBitmapAllocBits at call
  simp only at call
  by_cases full : utilsBitmapFree (wrapFreeP bmp) < n
  · rw [if_pos full] at call
    cases call
    exact Or.inl ⟨rfl, rfl, Or.inl (free ▸ full)⟩
  rw [if_neg full] at call
  cases upper : findFrom n ((wrapFreeP bmp).endP - (wrapFreeP bmp).freeP) (wrapFreeP bmp)
      (wrapFreeP bmp).freeP with
  | mk first place =>
    rw [upper] at call
    simp only at call
    rcases findFrom_cases positive roomWrap _ _ (by omega) upper with
      ⟨rfl, rfl, above⟩ | ⟨hit, c, _, high, start, _⟩
    · rw [if_neg (not_not.mpr rfl)] at call
      cases lower : findFrom n (wrapFreeP bmp).freeP (wrapFreeP bmp) 0 with
      | mk second place =>
        rw [lower] at call
        simp only at call
        rcases findFrom_cases positive roomWrap _ _ (by omega) lower with
          ⟨rfl, rfl, below⟩ | ⟨hit, c, _, high, start, _⟩
        · rw [if_neg (not_not.mpr rfl)] at call
          cases call
          refine Or.inl ⟨rfl, rfl, Or.inr fun c inside => ?_⟩
          by_cases low : c < (wrapFreeP bmp).freeP
          · exact below c (Nat.zero_le _) (by omega)
          · exact above c (by omega) (by omega)
        · rw [if_pos hit] at call
          cases call
          exact Or.inr ⟨hit, c, second, by omega, start, rfl⟩
    · rw [if_pos hit] at call
      cases call
      exact Or.inr ⟨hit, c, first, by omega, start, rfl⟩

/-- **`utils_bitmap_alloc_bits`.** Either nothing is found and nothing changes but `free_p`, or a
clear range inside the chunk array is placed. -/
theorem utilsBitmapAllocBits_spec {bmp next : UtilsBitmap} {n found : Nat} (positive : 1 ≤ n)
    (room : 64 * bmp.endP < 2 ^ 64) (cursor : bmp.freeP ≤ bmp.endP)
    (call : utilsBitmapAllocBits bmp n = (next, found)) :
    (Untouched bmp next ∧ found = bitmapNotFound) ∨
      (Placed bmp next n found ∧ found ≠ bitmapNotFound ∧ next.freeP ≤ next.endP) := by
  have same := wrapFreeP_untouched cursor
  rcases utilsBitmapAllocBits_cases positive room cursor call with
    ⟨rfl, none, _⟩ | ⟨hit, c, other, inside, start, rfl⟩
  · exact Or.inl ⟨same, none⟩
  · rcases findStart_spec positive (by rw [same.endP]; exact inside) start with ⟨_, none⟩ | placed
    · exact absurd none hit
    · obtain ⟨ends, size, used, on, fits⟩ := placed
      rw [same.bits] at on
      rw [same.endP] at ends fits
      rw [same.sizeBits] at size
      rw [same.usedBits] at used
      refine Or.inr ⟨⟨ends, size, used, on, fits⟩, hit, ?_⟩
      show found / 64 ≤ other.endP
      omega

/-! ### The release -/

/-- **A released range.** `next` is `bmp` with the set range `[start, start + n)` switched off. -/
structure Released (bmp next : UtilsBitmap) (start n : Nat) : Prop where
  endP : next.endP = bmp.endP
  sizeBits : next.sizeBits = bmp.sizeBits
  freeP : next.freeP = bmp.freeP
  usedBits : next.usedBits = sizeSub bmp.usedBits n
  off : SwitchedOff bmp.bits next.bits start n

theorem getLsbD_one_shiftLeft (k i : Nat) (inside : i < 64) :
    (1#64 <<< k).getLsbD i = decide (k ≤ i ∧ i < k + 1) := by
  rw [BitVec.getLsbD_shiftLeft, BitVec.getLsbD_one, decide_eq_true inside, Bool.true_and,
    Bool.eq_iff_iff]
  simp only [Bool.and_eq_true, Bool.not_eq_true', decide_eq_false_iff_not, decide_eq_true_eq]
  omega

theorem released_subUsed {bmp other : UtilsBitmap} {start n : Nat}
    (frame : other = { bmp with bits := other.bits })
    (off : SwitchedOff bmp.bits other.bits start n) : Released bmp (other.subUsed n) start n where
  endP := (congrArg UtilsBitmap.endP frame :)
  sizeBits := (congrArg UtilsBitmap.sizeBits frame :)
  freeP := (congrArg UtilsBitmap.freeP frame :)
  usedBits := by
    show sizeSub other.usedBits n = sizeSub bmp.usedBits n
    rw [congrArg UtilsBitmap.usedBits frame]
  off := off

theorem freeBits_one {bmp : UtilsBitmap} {start : Nat} (bit : bitAt bmp.bits start = true) :
    ∃ next, utilsBitmapFreeBits bmp start 1 = some next ∧ Released bmp next start 1 := by
  have stored := switchedOff_store bmp.bits (start / 64)
    (fun i inside => getLsbD_one_shiftLeft (start % 64) i inside) (by omega)
    (fun i low high => by rw [show i = start by omega]; exact bit)
  rw [show start / 64 * 64 + start % 64 = start by omega] at stored
  unfold utilsBitmapFreeBits
  rw [if_pos rfl]
  exact ⟨_, rfl, released_subUsed rfl stored⟩

theorem getLsbD_chunkMask {offset n : Nat} (fits : offset + n ≤ 64) (i : Nat) (inside : i < 64) :
    (if n ≠ 64 then lowMask n <<< offset else BitVec.allOnes 64).getLsbD i =
      decide (offset ≤ i ∧ i < offset + n) := by
  split_ifs with partly
  · rw [getLsbD_lowMask_shiftLeft (by omega) offset i inside, Bool.decide_and]
  · rw [BitVec.getLsbD_allOnes]
    exact decide_eq_decide.mpr (by omega)

theorem freeBits_chunk {bmp : UtilsBitmap} {start n : Nat} (several : 2 ≤ n)
    (room : start + n < 2 ^ 64) (one : start / 64 = (start + n - 1) / 64)
    (set : ∀ i, start ≤ i → i < start + n → bitAt bmp.bits i = true) :
    ∃ next, utilsBitmapFreeBits bmp start n = some next ∧ Released bmp next start n := by
  have last : sizeSub ((start + n) % 2 ^ 64) 1 / 64 = start / 64 := by
    unfold sizeSub
    omega
  have place : start / 64 * 64 + start % 64 = start := by omega
  have fits : start % 64 + n ≤ 64 := by omega
  have setHere : ∀ i, start / 64 * 64 + start % 64 ≤ i →
      i < start / 64 * 64 + start % 64 + n → bitAt bmp.bits i = true := by
    rw [place]
    exact set
  have covers := and_mask_eq (getLsbD_chunkMask fits) setHere
  have off := switchedOff_store bmp.bits (start / 64) (getLsbD_chunkMask fits) fits setHere
  rw [place] at off
  unfold utilsBitmapFreeBits
  simp only [if_neg (show n ≠ 1 by omega), last, if_true, covers]
  exact ⟨_, rfl, released_subUsed rfl off⟩

theorem getLsbD_endMask {stop : Nat} (positive : 1 ≤ stop) (i : Nat) (inside : i < 64) :
    (endMask (stop % 64)).getLsbD i = decide (0 ≤ i ∧ i < 0 + ((stop - 1) % 64 + 1)) := by
  unfold endMask
  split_ifs with partly
  · rw [getLsbD_shiftRight_ones]
    exact decide_eq_decide.mpr (by omega)
  · rw [BitVec.getLsbD_allOnes]
    exact decide_eq_decide.mpr (by omega)

/-- Filling no chunk at all changes nothing, so the test of `span` does not matter. -/
theorem fill_of_span (bmp : UtilsBitmap) (first span : Nat) (x : Word) :
    (if span ≠ 0 then bmp.fill first span x else bmp) = bmp.fill first span x := by
  split_ifs with none
  · rfl
  · rw [not_not] at none
    have same : (fun chunk => if first ≤ chunk ∧ chunk < first + 0 then x else bmp.bits chunk) =
        bmp.bits := funext fun chunk => if_neg (by omega)
    rw [none, UtilsBitmap.fill, same]

theorem freeBits_chunks {bmp : UtilsBitmap} {start n : Nat} (several : 2 ≤ n)
    (room : start + n < 2 ^ 64) (more : start / 64 ≠ (start + n - 1) / 64)
    (set : ∀ i, start ≤ i → i < start + n → bitAt bmp.bits i = true) :
    ∃ next, utilsBitmapFreeBits bmp start n = some next ∧ Released bmp next start n := by
  have last : sizeSub ((start + n) % 2 ^ 64) 1 / 64 = (start + n - 1) / 64 := by
    unfold sizeSub
    omega
  have stop : (start + n) % 2 ^ 64 % 64 = (start + n) % 64 := by omega
  generalize firstChunk : start / 64 = a at *
  generalize lastChunk : (start + n - 1) / 64 = b at *
  have span : sizeSub (sizeSub b a) 1 = b - a - 1 := by
    unfold sizeSub
    omega
  have startShape : ∀ i, i < 64 → (BitVec.allOnes 64 <<< (start % 64)).getLsbD i =
      decide (start % 64 ≤ i ∧ i < start % 64 + (64 - start % 64)) := by
    intro i inside
    rw [getLsbD_shiftLeft_ones, decide_eq_true inside, Bool.and_true]
    exact decide_eq_decide.mpr (by omega)
  have endShape := getLsbD_endMask (show 1 ≤ start + n by omega)
  have setStart : ∀ i, a * 64 + start % 64 ≤ i →
      i < a * 64 + start % 64 + (64 - start % 64) → bitAt bmp.bits i = true :=
    fun i low high => set i (by omega) (by omega)
  have setEnd : ∀ i, b * 64 + 0 ≤ i → i < b * 64 + 0 + ((start + n - 1) % 64 + 1) →
      bitAt bmp.bits i = true :=
    fun i low high => set i (by omega) (by omega)
  have lower := switchedOff_store bmp.bits a startShape (by omega) setStart
  have coversStart := and_mask_eq startShape setStart
  have coversEnd := and_mask_eq endShape setEnd
  have upper := switchedOff_store
    (Function.update bmp.bits a (bmp.bits a &&& ~~~(BitVec.allOnes 64 <<< (start % 64)))) b endShape
    (by omega) (fun i low high => by
      rw [lower.bit_of_outside (by omega)]
      exact setEnd i low high)
  have inner := switchedOff_fill _ (a + 1) (b - a - 1) (fun i low high => by
      rw [upper.bit_of_outside (by omega), lower.bit_of_outside (by omega)]
      exact set i (by omega) (by omega))
  have all := lower.inner upper inner (by omega) (by omega)
  rw [show a * 64 + start % 64 = start by omega,
    show 64 - start % 64 + (b - a - 1) * 64 + ((start + n - 1) % 64 + 1) = n by omega] at all
  unfold utilsBitmapFreeBits
  simp only [if_neg (show n ≠ 1 by omega), last, stop, firstChunk, if_neg more, span, coversStart,
    coversEnd, and_self, if_true]
  rw [fill_of_span]
  exact ⟨_, rfl, released_subUsed rfl all⟩

/-- **`utils_bitmap_free_bits` of set bits.** The assertions hold and exactly the range is switched
off. -/
theorem utilsBitmapFreeBits_spec {bmp : UtilsBitmap} {start n : Nat} (positive : 1 ≤ n)
    (room : start + n < 2 ^ 64) (set : ∀ i, start ≤ i → i < start + n → bitAt bmp.bits i = true) :
    ∃ next, utilsBitmapFreeBits bmp start n = some next ∧ Released bmp next start n := by
  rcases Nat.eq_or_lt_of_le positive with rfl | several
  · exact freeBits_one (set start le_rfl (by omega))
  · by_cases one : start / 64 = (start + n - 1) / 64
    · exact freeBits_chunk several room one set
    · exact freeBits_chunks several room one set

end Arax.Utils
