/-
**The page bitmap of the shared segment (`src/utils/bitmap.c`).**

`UtilsBitmap` is `utils_bitmap_s`: the chunk array `bits` follows the header in memory, `freeP` and
`endP` are pointers into it (here: chunk indices), `usedBits` and `sizeBits` are `size_t`. The
functions are those of the source, each with its own mask arithmetic:

* `findEndSmall` — the first `bits` bits of a chunk;
* `findStartSmall` — up to 64 bits: an empty chunk, a gap inside the chunk, or a straddle into the
  next chunk;
* `findStartBig` — more than 64 bits: the tail of a chunk, a span of empty chunks, and a remainder
  in the chunk after them;
* `utilsBitmapAllocBits` — the search, from `free_p` to the end and then from the start to `free_p`;
* `utilsBitmapFreeBits` — one bit, a range inside one chunk, or a range over several chunks; `none`
  is the abort of one of its assertions.

`size_t` arithmetic is `Nat` arithmetic modulo `2 ^ 64`, and `BITMAP_NOT_FOUND` is `(size_t) -1`.
-/

import Arax.Lib.Words

namespace Arax.Utils

open Arax.Lib

/-- `utils_bitmap_s`. The lock is left out: every call holds it from its first to its last
access. -/
structure UtilsBitmap where
  /-- Chunk the next search starts at. -/
  freeP : Nat
  /-- One past the last chunk. -/
  endP : Nat
  usedBits : Nat
  sizeBits : Nat
  bits : Nat → Word

/-- `BITMAP_NOT_FOUND`, that is `(size_t) -1`. -/
def bitmapNotFound : Nat := 2 ^ 64 - 1

/-- `a - b` on `size_t`. -/
def sizeSub (a b : Nat) : Nat := (2 ^ 64 - b + a) % 2 ^ 64

/-- A difference that does not wrap. -/
theorem sizeSub_of_le {a b : Nat} (small : a < 2 ^ 64) (le : b ≤ a) : sizeSub a b = a - b := by
  unfold sizeSub
  omega

namespace UtilsBitmap

/-- `*chunk = x`. -/
def store (bmp : UtilsBitmap) (chunk : Nat) (x : Word) : UtilsBitmap :=
  { bmp with bits := Function.update bmp.bits chunk x }

/-- `bmp->used_bits += n`. -/
def addUsed (bmp : UtilsBitmap) (n : Nat) : UtilsBitmap :=
  { bmp with usedBits := (bmp.usedBits + n) % 2 ^ 64 }

/-- `bmp->used_bits -= n`. -/
def subUsed (bmp : UtilsBitmap) (n : Nat) : UtilsBitmap :=
  { bmp with usedBits := sizeSub bmp.usedBits n }

/-- `memset(first, x, sizeof(uint64_t) * count)`, with `x` the word of the repeated byte. -/
def fill (bmp : UtilsBitmap) (first count : Nat) (x : Word) : UtilsBitmap :=
  { bmp with bits := fun chunk => if first ≤ chunk ∧ chunk < first + count then x
      else bmp.bits chunk }

end UtilsBitmap

/-- `utils_bitmap_init`: the rounding `size_bits += 63` is on `size_t`. -/
def utilsBitmapInit (sizeBits : Nat) : UtilsBitmap where
  freeP := 0
  endP := (sizeBits + 63) % 2 ^ 64 / 64
  usedBits := 0
  sizeBits := sizeBits
  bits := fun _ => 0#64

/-- `utils_bitmap_free`. -/
def utilsBitmapFree (bmp : UtilsBitmap) : Nat := sizeSub bmp.sizeBits bmp.usedBits

/-- The mask of the first `bits` bits of a chunk, `bits = 64` apart because a shift by 64 is
undefined. -/
def firstBits (bits : Nat) : Word := if bits ≠ 64 then lowMask bits else BitVec.allOnes 64

/-- `find_end_small`: take the first `bits` bits of a chunk if they are free. -/
def findEndSmall (bits : Nat) (bmp : UtilsBitmap) (chunk : Nat) : UtilsBitmap × Bool :=
  if firstBits bits &&& bmp.bits chunk = 0#64 then
    (bmp.store chunk (bmp.bits chunk ||| firstBits bits), true)
  else (bmp, false)

/-- The gap loop of `find_start_small`, for the remaining number of shifts. -/
def findGap (usable : Word) : Nat → Word → Nat → Option (Word × Nat)
  | 0, _, _ => none
  | steps + 1, mask, shift =>
    if mask &&& usable = 0#64 then some (mask, shift)
    else findGap usable steps (mask <<< 1) (shift + 1)

/-- The bits `find_start_small` may not use: those of the chunk, and in the last chunk those past
the end of the bitmap. -/
def usableBits (bmp : UtilsBitmap) (chunk : Nat) : Word :=
  if chunk + 1 = bmp.endP ∧ bmp.sizeBits % 64 ≠ 0 then
    bmp.bits chunk ||| (BitVec.allOnes 64 <<< (bmp.sizeBits % 64))
  else bmp.bits chunk

/-- `(*chunk) ? __builtin_clzl(*chunk) : 64`: the free bits at the end of a chunk. -/
def freeEnd (x : Word) : Nat := if x ≠ 0#64 then x.clz.toNat else 64

/-- `find_start_small`: at most 64 bits, starting in `chunk`. -/
def findStartSmall (bmp : UtilsBitmap) (bits chunk : Nat) : UtilsBitmap × Nat :=
  let usable := usableBits bmp chunk
  if usable = 0#64 then ((bmp.store chunk (firstBits bits)).addUsed bits, chunk * 64)
  else if bmp.bits chunk = BitVec.allOnes 64 then (bmp, bitmapNotFound)
  else if bits ≤ 64 - popcount usable then
    match findGap usable (64 - bits + 1) (lowMask bits) 0 with
    | some (mask, shift) =>
      ((bmp.store chunk (bmp.bits chunk ||| mask)).addUsed bits, chunk * 64 + shift)
    | none => (bmp, bitmapNotFound)
  else
    let free := freeEnd (bmp.bits chunk)
    if free = 0 then (bmp, bitmapNotFound)
    else if chunk + 1 = bmp.endP then (bmp, bitmapNotFound)
    else
      match findEndSmall (bits - free) bmp (chunk + 1) with
      | (next, true) =>
        ((next.store chunk (next.bits chunk ||| (BitVec.allOnes 64 <<< (64 - free)))).addUsed bits,
          chunk * 64 + (64 - free))
      | (_, false) => (bmp, bitmapNotFound)

/-- The span loop of `find_start_big`: all of the next `count` chunks are zero. Its counter is an
`int`, which spans of `2 ^ 31` chunks, that is requests of `2 ^ 37` bits, would overflow. -/
def spanClear (bits : Nat → Word) : Nat → Nat → Bool
  | 0, _ => true
  | count + 1, citr => if bits citr ≠ 0#64 then false else spanClear bits count (citr + 1)

/-- The part of `find_start_big` for a remainder of more than one chunk: a span of empty chunks
after `chunk`, and the first bits of the chunk after the span. -/
def takeSpan (remainder : Nat) (bmp : UtilsBitmap) (chunk : Nat) : UtilsBitmap × Bool :=
  let span := remainder / 64
  let lastRemainder := remainder % 64
  let lastMask := lowMask lastRemainder
  let citr := chunk + 1 + span
  if bmp.endP ≤ chunk + span + (if lastRemainder ≠ 0 then 1 else 0) then (bmp, false)
  else if spanClear bmp.bits span (chunk + 1) = false then (bmp, false)
  else if lastRemainder ≠ 0 ∧ bmp.bits citr &&& lastMask ≠ 0#64 then (bmp, false)
  else
    let last := if lastRemainder ≠ 0 then bmp.store citr (bmp.bits citr ||| lastMask) else bmp
    (last.fill (chunk + 1) span (BitVec.allOnes 64), true)

/-- `find_start_big`: more than 64 bits, starting in `chunk`. -/
def findStartBig (bmp : UtilsBitmap) (bits chunk : Nat) : UtilsBitmap × Nat :=
  if bmp.bits chunk = BitVec.allOnes 64 then (bmp, bitmapNotFound)
  else
    let (firstMask, remainder, offset) :=
      if bmp.bits chunk = 0#64 then (BitVec.allOnes 64, bits - 64, 0)
      else
        let free := (bmp.bits chunk).clz.toNat
        (if free ≠ 0 then BitVec.allOnes 64 <<< (64 - free) else 0#64, bits - free, 64 - free)
    if firstMask = 0#64 then (bmp, bitmapNotFound)
    else if chunk + 1 = bmp.endP then (bmp, bitmapNotFound)
    else
      match if remainder < 65 then findEndSmall remainder bmp (chunk + 1)
        else takeSpan remainder bmp chunk with
      | (next, true) =>
        ((next.store chunk (next.bits chunk ||| firstMask)).addUsed bits, chunk * 64 + offset)
      | (_, false) => (bmp, bitmapNotFound)

/-- `find_start`. -/
def findStart (bmp : UtilsBitmap) (bits chunk : Nat) : UtilsBitmap × Nat :=
  if bits < 65 then findStartSmall bmp bits chunk else findStartBig bmp bits chunk

/-- A search loop of `utils_bitmap_alloc_bits` over the remaining number of chunks. -/
def findFrom (bits : Nat) : Nat → UtilsBitmap → Nat → UtilsBitmap × Nat
  | 0, bmp, _ => (bmp, bitmapNotFound)
  | steps + 1, bmp, chunk =>
    match findStart bmp bits chunk with
    | (next, found) =>
      if found ≠ bitmapNotFound then (next, found) else findFrom bits steps next (chunk + 1)

/-- `if (bmp->free_p == bmp->end) bmp->free_p = bmp->bits`. -/
def wrapFreeP (bmp : UtilsBitmap) : UtilsBitmap :=
  if bmp.freeP = bmp.endP then { bmp with freeP := 0 } else bmp

/-- `utils_bitmap_alloc_bits`. -/
def utilsBitmapAllocBits (bmp : UtilsBitmap) (bits : Nat) : UtilsBitmap × Nat :=
  let bmp := wrapFreeP bmp
  if utilsBitmapFree bmp < bits then (bmp, bitmapNotFound)
  else
    match findFrom bits (bmp.endP - bmp.freeP) bmp bmp.freeP with
    | (upper, found) =>
      if found ≠ bitmapNotFound then ({ upper with freeP := found / 64 }, found)
      else
        match findFrom bits upper.freeP upper 0 with
        | (lower, found) =>
          if found ≠ bitmapNotFound then ({ lower with freeP := found / 64 }, found)
          else (lower, bitmapNotFound)

/-- The mask of the bits of the last chunk of a released range that ends at offset `stop`. -/
def endMask (stop : Nat) : Word :=
  if stop ≠ 0 then BitVec.allOnes 64 >>> (64 - stop) else BitVec.allOnes 64

/-- `utils_bitmap_free_bits`. -/
def utilsBitmapFreeBits (bmp : UtilsBitmap) (start bits : Nat) : Option UtilsBitmap :=
  if bits = 1 then
    some ((bmp.store (start / 64) (bmp.bits (start / 64) &&& ~~~(1#64 <<< (start % 64)))).subUsed 1)
  else
    let stop := (start + bits) % 2 ^ 64
    let startChunk := start / 64
    let endChunk := sizeSub stop 1 / 64
    let start := start % 64
    let stop := stop % 64
    if startChunk = endChunk then
      let mask := if bits ≠ 64 then lowMask bits <<< start else BitVec.allOnes 64
      if bmp.bits startChunk &&& mask = mask then
        some ((bmp.store startChunk (bmp.bits startChunk &&& ~~~mask)).subUsed bits)
      else none
    else
      let span := sizeSub (sizeSub endChunk startChunk) 1
      let startMask := BitVec.allOnes 64 <<< start
      if bmp.bits startChunk &&& startMask = startMask ∧
          bmp.bits endChunk &&& endMask stop = endMask stop then
        let first := bmp.store startChunk (bmp.bits startChunk &&& ~~~startMask)
        let second := first.store endChunk (first.bits endChunk &&& ~~~endMask stop)
        let middle := if span ≠ 0 then second.fill (startChunk + 1) span 0#64 else second
        some (middle.subUsed bits)
      else none

/-- `utils_bitmap_count_allocated`: the loop over the chunks from `b` on. -/
def countAllocatedFrom (bits : Nat → Word) : Nat → Nat → Nat → Nat
  | 0, _, allocated => allocated
  | steps + 1, b, allocated =>
    countAllocatedFrom bits steps (b + 1)
      (if bits b ≠ 0#64 then allocated + popcount (bits b) else allocated)

/-- `utils_bitmap_count_allocated`. -/
def utilsBitmapCountAllocated (bmp : UtilsBitmap) : Nat :=
  countAllocatedFrom bmp.bits ((bmp.sizeBits + 63) % 2 ^ 64 / 64) 0 0

end Arax.Utils
