/-
**Where the allocator puts its pages (`src/alloc/dlmalloc/alloc.c`).**

The allocator is the last member of `arax_pipe_s`. `arch_alloc_init_once` rounds the end of its
struct up to a page, counts the pages that are left, gives the first of them to the words of the
bitmap that follow the struct, and starts the data pages behind. The bitmap is reserved for the
number of pages before that, and holds the number after.

* `archAllocInitOnce` — the computation on `size_t`, with its four roundings.
* `Fits` — no subtraction wraps, and there is a data page.
* `alloc_layout` — then the bitmap ends before the data pages, and these are in the segment.
* `fits_of_le` — four pages are enough.
-/

import Arax.Utils.Bitmap

namespace Arax.Alloc

open Arax.Lib Arax.Utils

/-- `BIT_ALLOCATOR_BLOCK`. -/
def bitAllocatorBlock : Nat := 4096

/-- `BITS_PER_PAGE`. -/
def bitsPerPage : Nat := bitAllocatorBlock * 8

/-- `sizeof(struct arch_alloc_inner_s)`, which is also the offset of `bmp.bits`. With `ALLOC_STATS`
`arch_alloc_s` has six counters, and else a `char`. -/
def sizeofInner (stats : Bool) : Nat := if stats then 104 else 64

/-- `x & ~BIT_ALLOCATOR_BLOCK_MASK`. -/
def blockDown (x : Nat) : Nat := (BitVec.ofNat 64 x &&& ~~~lowMask 12).toNat

/-- What `arch_alloc_init_once` stores. -/
structure ArchAlloc where
  bmp : UtilsBitmap
  start : Nat

/-- `alligned_start`, before it is moved behind the bitmap. -/
def allignedStart (stats : Bool) (alloc : Nat) : Nat :=
  blockDown ((alloc + sizeofInner stats) % 2 ^ 64 + (bitAllocatorBlock - 1))

/-- `alligned_pages`, before the pages of the bitmap are subtracted. -/
def allignedPages (stats : Bool) (alloc size : Nat) : Nat :=
  sizeSub size (sizeSub (allignedStart stats alloc) alloc) / bitAllocatorBlock

/-- `bitmap_pages`. -/
def bitmapPages (stats : Bool) (alloc size : Nat) : Nat :=
  (allignedPages stats alloc size + (bitsPerPage - 1)) % 2 ^ 64 / bitsPerPage

/-- `arch_alloc_init_once`, before the first allocation by `create_mspace`. -/
def archAllocInitOnce (stats : Bool) (alloc size : Nat) : ArchAlloc where
  bmp := utilsBitmapInit (sizeSub (allignedPages stats alloc size) (bitmapPages stats alloc size))
  start := (allignedStart stats alloc + bitAllocatorBlock * bitmapPages stats alloc size) % 2 ^ 64

/-- No subtraction wraps, and at least one data page remains. -/
structure Fits (stats : Bool) (alloc size : Nat) : Prop where
  above : alloc ≤ allignedStart stats alloc
  room : allignedStart stats alloc - alloc ≤ size
  enough : bitmapPages stats alloc size ≤ allignedPages stats alloc size
  data : 0 < (archAllocInitOnce stats alloc size).bmp.sizeBits

/-- The words of the bitmap, then the data pages, all of it in `[alloc, alloc + size)`. -/
structure AllocLayout (stats : Bool) (alloc size : Nat) (a : ArchAlloc) : Prop where
  aligned : a.start % bitAllocatorBlock = 0
  /-- The words of the bitmap follow the struct. -/
  words : alloc + sizeofInner stats + 8 * a.bmp.endP ≤ a.start
  /-- There is a bit for each page, and no other. -/
  bits : a.bmp.sizeBits ≤ 64 * a.bmp.endP
  pages : ∀ i < a.bmp.sizeBits, alloc ≤ a.start + bitAllocatorBlock * i ∧
    a.start + bitAllocatorBlock * (i + 1) ≤ alloc + size

section Layout

variable {stats : Bool} {alloc size : Nat}

theorem sizeofInner_le (stats : Bool) : sizeofInner stats ≤ 104 := by
  cases stats <;> decide

theorem blockDown_eq (x : Nat) : blockDown x = x % 2 ^ 64 / 4096 * 4096 := by
  unfold blockDown
  rw [toNat_and_not_lowMask (by decide), BitVec.toNat_ofNat, show 2 ^ 12 = 4096 from rfl]

/-- A rounded start that is not below the struct is the first page behind it: neither addition
wrapped. -/
theorem allignedStart_eq (small : alloc < 2 ^ 64) (above : alloc ≤ allignedStart stats alloc) :
    allignedStart stats alloc = (alloc + sizeofInner stats + 4095) / 4096 * 4096 := by
  have inner := sizeofInner_le stats
  unfold allignedStart at above ⊢
  rw [blockDown_eq] at above ⊢
  unfold bitAllocatorBlock at above ⊢
  omega

theorem allignedStart_lt (stats : Bool) (alloc : Nat) : allignedStart stats alloc < 2 ^ 64 := by
  unfold allignedStart
  rw [blockDown_eq]
  omega

/-- The pages of the allocator behind the rounded start. -/
theorem allignedPages_eq (small : size < 2 ^ 64) (above : alloc ≤ allignedStart stats alloc)
    (room : allignedStart stats alloc - alloc ≤ size) :
    allignedPages stats alloc size = (size - (allignedStart stats alloc - alloc)) / 4096 := by
  unfold allignedPages
  rw [sizeSub_of_le (allignedStart_lt stats alloc) above, sizeSub_of_le small room]
  rfl

/-- A page of the bitmap for every `BITS_PER_PAGE` pages, rounded up. -/
theorem bitmapPages_eq (small : allignedPages stats alloc size < 2 ^ 52) :
    bitmapPages stats alloc size = (allignedPages stats alloc size + 32767) / 32768 := by
  unfold bitmapPages bitsPerPage bitAllocatorBlock
  rw [Nat.mod_eq_of_lt (by omega)]

/-- The words for the pages that remain fit into the pages taken from them. -/
theorem words_le {pages taken : Nat} (rounded : taken = (pages + 32767) / 32768)
    (left : 0 < pages - taken) : 8 * ((pages - taken + 63) / 64) ≤ 4096 * taken := by
  omega

/-- **The bitmap ends before the data pages, and these end with the allocator.** -/
theorem allocLayout_of_fits (small : size < 2 ^ 64) (inside : alloc + size ≤ 2 ^ 64)
    (fits : Fits stats alloc size) :
    AllocLayout stats alloc size (archAllocInitOnce stats alloc size) := by
  have inner := sizeofInner_le stats
  have below := allignedStart_lt stats alloc
  have begin := allignedStart_eq (by have := fits.above; omega) fits.above
  have count := allignedPages_eq small fits.above fits.room
  have taken := bitmapPages_eq (by rw [count]; omega)
  have pages : (archAllocInitOnce stats alloc size).bmp.sizeBits =
      allignedPages stats alloc size - bitmapPages stats alloc size :=
    sizeSub_of_le (by rw [count]; omega) fits.enough
  have data := fits.data
  rw [pages] at data
  have words : (archAllocInitOnce stats alloc size).bmp.endP =
      (allignedPages stats alloc size - bitmapPages stats alloc size + 63) / 64 := by
    change (sizeSub _ _ + 63) % 2 ^ 64 / 64 = _
    rw [sizeSub_of_le (by rw [count]; omega) fits.enough, Nat.mod_eq_of_lt (by rw [count]; omega)]
  have behind := words_le taken data
  have room := fits.room
  have start : (archAllocInitOnce stats alloc size).start =
      allignedStart stats alloc + 4096 * bitmapPages stats alloc size :=
    Nat.mod_eq_of_lt (by unfold bitAllocatorBlock; omega)
  refine ⟨?_, ?_, ?_, fun i low => ?_⟩
  · rw [start, begin]
    unfold bitAllocatorBlock
    omega
  · rw [start, words]
    omega
  · rw [pages, words]
    omega
  · rw [pages] at low
    rw [start]
    unfold bitAllocatorBlock
    constructor <;> omega

/-- Four pages are enough: one is lost to the rounding of the start, one holds the bitmap. -/
theorem fits_of_le (small : size < 2 ^ 64) (inside : alloc + size ≤ 2 ^ 64)
    (enough : 4 * bitAllocatorBlock ≤ size) : Fits stats alloc size := by
  have inner := sizeofInner_le stats
  unfold bitAllocatorBlock at enough
  have begin : allignedStart stats alloc = (alloc + sizeofInner stats + 4095) / 4096 * 4096 := by
    unfold allignedStart bitAllocatorBlock
    rw [blockDown_eq]
    omega
  have above : alloc ≤ allignedStart stats alloc := by omega
  have room : allignedStart stats alloc - alloc ≤ size := by omega
  have count := allignedPages_eq small above room
  have taken := bitmapPages_eq (by rw [count]; omega)
  have fewer : bitmapPages stats alloc size < allignedPages stats alloc size := by omega
  refine ⟨above, room, fewer.le, ?_⟩
  change 0 < sizeSub (allignedPages stats alloc size) (bitmapPages stats alloc size)
  rw [sizeSub_of_le (by rw [count]; omega) fewer.le]
  exact Nat.sub_pos_of_lt fewer

/-- **The layout of the allocator and of the segment.** Whatever the address and the size, the
bitmap and the data pages are apart and in the allocator; and they are in the segment if the
allocator is a member of the header of the segment (`arax_pipe_s`), and is given what the segment
has behind its header (`arax_pipe_init`). -/
theorem alloc_layout (stats : Bool) (alloc size : Nat) (small : size < 2 ^ 64)
    (inside : alloc + size ≤ 2 ^ 64) (fits : Fits stats alloc size) :
    AllocLayout stats alloc size (archAllocInitOnce stats alloc size) ∧
      ∀ pipe offset sizeofPipe shmSize, alloc = pipe + offset → offset ≤ sizeofPipe →
        sizeofPipe ≤ shmSize → shmSize < 2 ^ 64 → size = sizeSub shmSize sizeofPipe →
        ∀ i < (archAllocInitOnce stats alloc size).bmp.sizeBits,
          pipe ≤ (archAllocInitOnce stats alloc size).start + bitAllocatorBlock * i ∧
            (archAllocInitOnce stats alloc size).start + bitAllocatorBlock * (i + 1) ≤
              pipe + shmSize := by
  have layout := allocLayout_of_fits small inside fits
  refine ⟨layout, ?_⟩
  intro pipe offset sizeofPipe shmSize member header wide long given i low
  obtain ⟨above, below⟩ := layout.pages i low
  rw [sizeSub_of_le long wide] at given
  omega

/-- A segment of 16 MiB with a header of 8 KiB. -/
theorem alloc_layout_16MiB :
    AllocLayout true 0x7f0000001f98 0xffe000
        (archAllocInitOnce true 0x7f0000001f98 0xffe000) ∧
      ∀ i < (archAllocInitOnce true 0x7f0000001f98 0xffe000).bmp.sizeBits,
        0x7f0000000000 ≤ (archAllocInitOnce true 0x7f0000001f98 0xffe000).start +
            bitAllocatorBlock * i ∧
          (archAllocInitOnce true 0x7f0000001f98 0xffe000).start + bitAllocatorBlock * (i + 1) ≤
            0x7f0000000000 + 0x1000000 := by
  have both := alloc_layout true 0x7f0000001f98 0xffe000 (by decide) (by decide)
    (fits_of_le (by decide) (by decide) (by decide))
  exact ⟨both.1, both.2 0x7f0000000000 0x1f98 0x2000 0x1000000 rfl (by decide) (by decide)
    (by decide) (by decide)⟩

end Layout

end Arax.Alloc
