/-
**The size of the segment (`src/arch/shm/impl.c`, `src/core/arax_pipe.c`,
`src/alloc/dlmalloc/alloc.c`).**

`_arax_init` takes `shm_size` from the configuration and refuses it if it is 0 or exceeds the memory
of the system. From there three subtractions on `size_t` lead to the allocator: `arax_pipe_init`
subtracts its header, `arch_alloc_init_once` the bytes up to the first page behind its struct, and
from the pages that are left those of the bitmap.

The header is laid out member by member, so that its size is known for every build.

* `_araxInitAdmits` — the test of `_arax_init`.
* `allocatorOffset`, `sizeofPipe` — where the allocator is in the header, and where this ends.
* `SizesOk` — no subtraction wraps, and capacity and bitmap stay within the segment.
* `smallestSegment`, `segment_sizes_iff` — an admitted segment is ok exactly from this size on.
-/

import Arax.Alloc.Layout
import Arax.Core.ThrottleMutex

namespace Arax.Arch

open Arax.Utils Arax.Alloc

/-! ### The header -/

/-- `async_architecture`. -/
inductive AsyncArch where
  | mutex
  | spin
  | ivshmem
  deriving DecidableEq

/-- What the size of the header depends on. -/
structure Build where
  async : AsyncArch
  /-- `ALLOC_STATS`. -/
  allocStats : Bool
  /-- `ARAX_THROTTLE_DEBUG`. -/
  throttleDebug : Bool
  /-- `ARAX_PROC_MAP_SIZE`. -/
  procMapSize : Nat
  /-- `ARAX_KV_CAP`. -/
  kvCap : Nat

/-- The defaults of `CMakeLists.txt`. -/
def defaultBuild : Build where
  async := .mutex
  allocStats := false
  throttleDebug := false
  procMapSize := 1024
  kvCap := 32

/-- A member of a struct: its size and its alignment. -/
structure Member where
  size : Nat
  align : Nat

/-- Members of a word each. -/
def words (count : Nat) : Member := ⟨8 * count, 8⟩

/-- The first multiple of `align` from `offset` on. -/
def alignUp (align offset : Nat) : Nat := (offset + align - 1) / align * align

/-- The end of a struct with one member more. -/
def placeMember (offset : Nat) (member : Member) : Nat :=
  alignUp member.align offset + member.size

/-- `async_meta_s`; a lone `char`, or a lock, a list, two pointers, a thread and an `int`. -/
def asyncMeta : AsyncArch → Member
  | .mutex | .spin => ⟨1, 1⟩
  | .ivshmem => words 9

/-- `async_condition_s`. With mutexes it has a `pthread_mutex_t` of 40 bytes and a `pthread_cond_t`
of 48, each with its attributes; with spinlocks two counters; for ivshmem a pointer, a completion of
96 bytes and a semaphore of 56. -/
def asyncCondition : AsyncArch → Member
  | .mutex => words 13
  | .spin => words 2
  | .ivshmem => words 20

/-- `utils_kv_s`: the pairs, their number and the lock. -/
def utilsKv (b : Build) : Member := words (2 * b.kvCap + 2)

/-- `arch_alloc_s`. -/
def archAllocBase (b : Build) : Member := if b.allocStats then words 6 else ⟨1, 1⟩

/-- The members of `arax_pipe_s` before `allocator`. -/
def pipeMembers (b : Build) : List Member :=
  [⟨49, 1⟩,                                          -- sha
   words 1, words 1, words 1, words 1,               -- self, shm_size, processes, proc_lock
   words b.procMapSize,                              -- proc_map
   words 1,                                          -- last_uid
   words (1 + 5 * 5),                                -- objs: pipe, and five lists with their locks
   asyncMeta b.async,                                -- async
   words 2, asyncCondition b.async,                  -- throttle
   words (if b.throttleDebug then 2 else 0),
   ⟨4, 4⟩,                                           -- cntrl_ready
   asyncCondition b.async, asyncCondition b.async,   -- cntrl_ready_cond, orphan_cond
   words 4,                                          -- orphan_vacs
   utilsKv b, utilsKv b]                             -- ass_kv, metrics_kv

/-- `offsetof(arax_pipe_s, allocator)`. -/
def allocatorOffset (b : Build) : Nat :=
  alignUp (archAllocBase b).align ((pipeMembers b).foldl placeMember 0)

/-- `sizeof(arax_pipe_s)`. -/
def sizeofPipe (b : Build) : Nat :=
  alignUp 8 (allocatorOffset b + (archAllocBase b).size)

/-- Where `mmap` put the segment: at a page, with addresses left for the header and for the page
behind it. -/
structure Mapping (b : Build) where
  pipe : Nat
  aligned : pipe % 4096 = 0
  inside : pipe + sizeofPipe b + 2 * 4096 ≤ 2 ^ 64

/-! ### The initialisation -/

/-- `_arax_init` goes on with this size: `!(!shm_size || shm_size > system_total_memory())`. -/
def _araxInitAdmits (totalMemory shmSize : Nat) : Bool :=
  !(shmSize == 0 || decide (totalMemory < shmSize))

/-- What the first process stores that depends on the size. -/
structure PipeInit where
  shmSize : Nat
  allocator : ArchAlloc
  /-- `none` if an assertion of `arax_throttle_init` aborts. -/
  throttle : Option Core.ThrottleState

/-- The `size` of `arax_pipe_init` behind `size -= sizeof(*pipe)`. -/
def pipeSize (b : Build) (shmSize : Nat) : Nat := sizeSub shmSize (sizeofPipe b)

/-- `arax_pipe_init`, for the first process. `arch_alloc_init_once` always returns 0, and
`utils_list_init` its argument. -/
def araxPipeInit (b : Build) (pipe shmSize : Nat) : PipeInit where
  shmSize := shmSize
  allocator := archAllocInitOnce b.allocStats (pipe + allocatorOffset b) (pipeSize b shmSize)
  throttle := Core.araxThrottleInit (pipeSize b shmSize) (pipeSize b shmSize)

/-- None of the subtractions wraps below zero. -/
structure NoUnderflow (b : Build) (pipe shmSize : Nat) : Prop where
  /-- `size -= sizeof(*pipe)`. -/
  header : sizeofPipe b ≤ shmSize
  /-- `alligned_size`. -/
  start : sizeSub (allignedStart b.allocStats (pipe + allocatorOffset b))
    (pipe + allocatorOffset b) ≤ pipeSize b shmSize
  /-- `alligned_pages -= bitmap_pages`. -/
  bitmap : bitmapPages b.allocStats (pipe + allocatorOffset b) (pipeSize b shmSize) ≤
    allignedPages b.allocStats (pipe + allocatorOffset b) (pipeSize b shmSize)

/-- **The sizes of a segment are right.** -/
structure SizesOk (b : Build) (pipe shmSize : Nat) : Prop where
  noUnderflow : NoUnderflow b pipe shmSize
  capacity : ∀ thr, (araxPipeInit b pipe shmSize).throttle = some thr → thr.capacity ≤ shmSize
  pages : bitAllocatorBlock * (araxPipeInit b pipe shmSize).allocator.bmp.sizeBits ≤ shmSize

/-- The header, and the bytes from the allocator in it to the first page behind its struct. -/
def smallestSegment (b : Build) : Nat :=
  sizeofPipe b +
    ((allocatorOffset b + sizeofInner b.allocStats + 4095) / 4096 * 4096 - allocatorOffset b)

section Sizes

variable {b : Build} {shmSize : Nat}

/-- The allocator starts before the header ends. -/
theorem allocatorOffset_lt (b : Build) : allocatorOffset b < sizeofPipe b := by
  have member : 0 < (archAllocBase b).size := by
    unfold archAllocBase words
    split <;> decide
  unfold sizeofPipe alignUp
  omega

/-- The bytes that `alligned_size` subtracts, for a header at a page. -/
theorem startBytes_eq (m : Mapping b) :
    sizeSub (allignedStart b.allocStats (m.pipe + allocatorOffset b))
        (m.pipe + allocatorOffset b) =
      (allocatorOffset b + sizeofInner b.allocStats + 4095) / 4096 * 4096 - allocatorOffset b := by
  have inner := sizeofInner_le b.allocStats
  have offset := allocatorOffset_lt b
  have aligned := m.aligned
  have inside := m.inside
  have start : allignedStart b.allocStats (m.pipe + allocatorOffset b) =
      m.pipe + (allocatorOffset b + sizeofInner b.allocStats + 4095) / 4096 * 4096 := by
    unfold allignedStart bitAllocatorBlock
    rw [blockDown_eq]
    omega
  rw [sizeSub_of_le (allignedStart_lt _ _) (by omega), start]
  omega

/-- A page of the bitmap is paid for by the first of the pages that need it. -/
theorem bitmapPages_le (b : Build) (alloc size : Nat) :
    bitmapPages b.allocStats alloc size ≤ allignedPages b.allocStats alloc size := by
  have few : allignedPages b.allocStats alloc size < 2 ^ 52 := by
    unfold allignedPages sizeSub bitAllocatorBlock
    omega
  rw [bitmapPages_eq few]
  omega

/-- A subtraction that wraps gives more than there was. -/
theorem noUnderflow_iff (m : Mapping b) (small : shmSize < 2 ^ 64) :
    NoUnderflow b m.pipe shmSize ↔ smallestSegment b ≤ shmSize := by
  have start := startBytes_eq m
  unfold smallestSegment
  constructor
  · rintro ⟨header, rounded, -⟩
    rw [start, pipeSize, sizeSub_of_le small header] at rounded
    omega
  · intro enough
    have header : sizeofPipe b ≤ shmSize := by omega
    refine ⟨header, ?_, bitmapPages_le b _ _⟩
    rw [start, pipeSize, sizeSub_of_le small header]
    omega

/-- What is stored is then a part of the segment. -/
theorem NoUnderflow.sizesOk (small : shmSize < 2 ^ 64) {pipe : Nat}
    (noUnderflow : NoUnderflow b pipe shmSize) : SizesOk b pipe shmSize := by
  have left : pipeSize b shmSize = shmSize - sizeofPipe b :=
    sizeSub_of_le small noUnderflow.header
  refine ⟨noUnderflow, ?_, ?_⟩
  · intro thr stored
    have init : Core.araxThrottleInit (pipeSize b shmSize) (pipeSize b shmSize) = some thr := stored
    unfold Core.araxThrottleInit at init
    split at init
    · cases init
      show pipeSize b shmSize ≤ shmSize
      omega
    · cases init
  · have count : allignedPages b.allocStats (pipe + allocatorOffset b) (pipeSize b shmSize) * 4096 ≤
        pipeSize b shmSize := by
      unfold allignedPages bitAllocatorBlock
      rw [sizeSub_of_le (by omega) noUnderflow.start]
      omega
    show 4096 * sizeSub (allignedPages _ _ _) (bitmapPages _ _ _) ≤ shmSize
    rw [sizeSub_of_le (by omega) noUnderflow.bitmap]
    omega

/-- **The sizes of an admitted segment.** They are right exactly for the segments that have room for
the header and for the bytes up to the first page behind the allocator. -/
theorem segment_sizes_iff (b : Build) (m : Mapping b) (totalMemory shmSize : Nat)
    (memory : totalMemory < 2 ^ 64) (admitted : _araxInitAdmits totalMemory shmSize = true) :
    SizesOk b m.pipe shmSize ↔ smallestSegment b ≤ shmSize := by
  have small : shmSize < 2 ^ 64 := by
    simp only [_araxInitAdmits, Bool.not_eq_true', Bool.or_eq_false_iff, decide_eq_false_iff_not]
      at admitted
    omega
  rw [← noUnderflow_iff m small]
  exact ⟨SizesOk.noUnderflow, NoUnderflow.sizesOk small⟩

/-- The default build, with a segment at the address that `mmap` likes. -/
def defaultMapping : Mapping defaultBuild where
  pipe := 0x7f0000000000
  aligned := by decide
  inside := by decide

/-- The header of the default build is less than three pages long, and the first page of the
allocator starts behind them. -/
theorem smallestSegment_default :
    allocatorOffset defaultBuild = 9928 ∧ sizeofPipe defaultBuild = 9936 ∧
      smallestSegment defaultBuild = 12296 := by
  decide

/-- A segment of 16 MiB, on a system with 8 GiB. -/
theorem segment_sizes_16MiB : SizesOk defaultBuild defaultMapping.pipe 0x1000000 :=
  (segment_sizes_iff defaultBuild defaultMapping 0x200000000 0x1000000 (by decide)
    (by decide)).mpr (by decide)

/-- **Three pages are not enough.** A segment of 12000 bytes is admitted, and all of the header is
mapped. There are 2064 bytes behind the header, and 2360 up to the first page. The bitmap is then
initialised for all pages of the address space. -/
theorem segment_sizes_wrap :
    _araxInitAdmits 0x200000000 12000 = true ∧
      ¬ SizesOk defaultBuild defaultMapping.pipe 12000 ∧
      (araxPipeInit defaultBuild defaultMapping.pipe 12000).allocator.bmp.sizeBits =
        2 ^ 52 - 1 - 2 ^ 37 := by
  refine ⟨by decide, fun ok => ?_, by decide⟩
  have enough := (noUnderflow_iff defaultMapping (by decide)).mp ok.noUnderflow
  rw [smallestSegment_default.2.2] at enough
  omega

end Sizes

end Arax.Arch
