/-
**The page calls of the allocator (`src/alloc/dlmalloc/alloc.c`).**

`arax_mmap` and `arax_ummap` stand in for `mmap` and `munmap` under the `mspace` functions. They
turn a size and an address into bits of the page bitmap, which all threads of all processes share,
and `utils_bitmap_alloc_bits` and `utils_bitmap_free_bits` hold its spin lock from their first to
their last access. A thread may unmap what was mapped and not unmapped since, in whole or in part,
as long as nobody else is unmapping the same pages.

* `pageBody` — the two calls between lock and unlock.
* `heldPages` — the pages that are mapped after the calls of a log.
* `pages_explained` — the bitmap after the calls of a log, by a run of `Arax.Utils.BitmapRuns`.
* `pages_sound` — in every interleaving what `arax_mmap` returns is free until then, is page aligned
  behind the bitmap, and is in the segment if the bitmap has no partial last chunk; and no call of
  `arax_ummap` fails.
-/

import Arax.Alloc.Layout
import Arax.Utils.BitmapBounds
import Arax.Utils.Spinlock

namespace Arax.Alloc

open Arax.Lib Arax.Utils

/-- The two calls. -/
inductive PageOp where
  | mmap (s : Nat)
  | ummap (a s : Nat)
  deriving DecidableEq

/-- How a call ends: with an address, with the assertion `off != BITMAP_NOT_FOUND`, or released, or
with an assertion of `utils_bitmap_free_bits`. -/
inductive PageResult where
  | mapped (p : Nat)
  | exhausted
  | unmapped
  | corrupted
  deriving DecidableEq

/-- `(a - global_alloc->start) / BIT_ALLOCATOR_BLOCK`. -/
def pageOf (start a : Nat) : Nat := sizeSub a start / bitAllocatorBlock

/-- `global_alloc->start + off`, for a page number. -/
def pageAddress (start off : Nat) : Nat :=
  (start + off * bitAllocatorBlock % 2 ^ 64) % 2 ^ 64

/-- `arax_mmap` and `arax_ummap`, with the calls of the bitmap as one access each: they hold its
lock. -/
def pageAccess (start : Nat) : PageOp → UtilsBitmap → Access UtilsBitmap PageOp PageResult
  | .mmap s, bmp =>
    match utilsBitmapAllocBits bmp (s / bitAllocatorBlock) with
    | (next, off) =>
      .done (if off ≠ bitmapNotFound then .mapped (pageAddress start off) else .exhausted) next
  | .ummap a s, bmp =>
    match utilsBitmapFreeBits bmp (pageOf start a) (s / bitAllocatorBlock) with
    | some next => .done .unmapped next
    | none => .done .corrupted bmp

/-- The calls between lock and unlock. -/
def pageBody (start : Nat) : Body UtilsBitmap PageOp PageOp PageResult where
  start := id
  access := pageAccess start

/-- The pages of `[a, a + s)`. -/
def pageRange (start a s : Nat) : Finset Nat :=
  Finset.Ico (pageOf start a) (pageOf start a + s / bitAllocatorBlock)

section Held

variable {τ : Type*}

/-- The pages that are mapped after one more call. -/
def heldAfter (start : Nat) (held : Finset Nat) (call : Finished τ PageOp PageResult) :
    Finset Nat :=
  match call.op, call.result with
  | .mmap s, .mapped p => held ∪ pageRange start p s
  | .ummap a s, .unmapped => held \ pageRange start a s
  | _, _ => held

/-- The pages that are mapped after the calls of a log. -/
def heldPages (start : Nat) (log : List (Finished τ PageOp PageResult)) : Finset Nat :=
  log.foldl (heldAfter start) ∅

theorem heldPages_snoc (start : Nat) (log : List (Finished τ PageOp PageResult))
    (call : Finished τ PageOp PageResult) :
    heldPages start (log ++ [call]) = heldAfter start (heldPages start log) call := by
  unfold heldPages
  rw [List.foldl_append]
  rfl

/-- What a caller has to see to: sizes are page sizes (`arax_mmap` asserts it), and only mapped
pages are unmapped. -/
def PageReady (start : Nat) (log : List (Finished τ PageOp PageResult)) : PageOp → Prop
  | .mmap s => s % bitAllocatorBlock = 0 ∧ 0 < s ∧ s < 2 ^ 64
  | .ummap a s => s % bitAllocatorBlock = 0 ∧ 0 < s ∧ pageRange start a s ⊆ heldPages start log

/-- Nobody unmaps what somebody else is unmapping. -/
def PageApart (start : Nat) : PageOp → PageOp → Prop
  | .ummap a s, .ummap b u => Disjoint (pageRange start a s) (pageRange start b u)
  | _, _ => True

instance (start : Nat) (log : List (Finished τ PageOp PageResult)) :
    ∀ op, Decidable (PageReady start log op)
  | .mmap _ => inferInstanceAs (Decidable (_ ∧ _ ∧ _))
  | .ummap _ _ => inferInstanceAs (Decidable (_ ∧ _ ∧ _))

instance (start : Nat) : ∀ op now, Decidable (PageApart start op now)
  | .ummap _ _, .ummap _ _ => inferInstanceAs (Decidable (Disjoint (_ : Finset Nat) _))
  | .mmap _, _ => isTrue trivial
  | .ummap _ _, .mmap _ => isTrue trivial

theorem pageApart_symm (start : Nat) (op now : PageOp) (apart : PageApart start op now) :
    PageApart start now op := by
  cases op <;> cases now
  case ummap.ummap => exact Disjoint.symm apart
  all_goals trivial

/-- Mapped pages stay mapped while others are mapped and unmapped. -/
theorem pageReady_stable (start : Nat) (log : List (Finished τ PageOp PageResult)) (op : PageOp)
    (call : Finished τ PageOp PageResult) (ready : PageReady start log op)
    (apart : PageApart start op call.op) : PageReady start (log ++ [call]) op := by
  cases op with
  | mmap s => exact ready
  | ummap a s =>
    obtain ⟨aligned, positive, held⟩ := ready
    refine ⟨aligned, positive, ?_⟩
    rw [heldPages_snoc]
    obtain ⟨th, made, result⟩ := call
    cases made with
    | mmap u =>
      cases result with
      | mapped p => exact held.trans Finset.subset_union_left
      | _ => exact held
    | ummap b u =>
      cases result with
      | unmapped => exact Finset.subset_sdiff.mpr ⟨held, apart⟩
      | _ => exact held

end Held

/-! ### The bitmap after the calls of a log -/

/-- What `arax_mmap` returns: pages that nobody had, in the data pages of the allocator unless a
partial last chunk of the bitmap lets them end behind. -/
structure Handed (start sizeBits : Nat) (held : Finset Nat) (p size : Nat) : Prop where
  aligned : p % bitAllocatorBlock = start % bitAllocatorBlock
  fresh : Disjoint (pageRange start p size) held
  inside : sizeBits % 64 = 0 ∨ sizeBits < 64 →
    start ≤ p ∧ p + size ≤ start + bitAllocatorBlock * sizeBits

/-- What a log says about the bitmap that it leads to. -/
structure PagesExplained {τ : Type*} (start sizeBits : Nat)
    (log : List (Finished τ PageOp PageResult)) (bmp : UtilsBitmap) : Prop where
  /-- A run of the bitmap leads there. -/
  tracked : ∃ ops t, exec trackedStep (trackedInit sizeBits) ops = some t ∧ t.bmp = bmp
  held : setBits bmp.bits bmp.endP = heldPages start log
  handed : ∀ before th size p after, log = before ++ ⟨th, .mmap size, .mapped p⟩ :: after →
    Handed start sizeBits (heldPages start before) p size
  intact : ∀ call ∈ log, call.result ≠ .corrupted

section Explained

variable {τ : Type*} {start sizeBits : Nat} {log : List (Finished τ PageOp PageResult)}
  {bmp next : UtilsBitmap} {th : τ}

/-- The address of a page leads back to the page. -/
theorem pageOf_pageAddress {off : Nat} (low : start < 2 ^ 64) (bound : off < 2 ^ 52) :
    pageOf start (pageAddress start off) = off := by
  have product : off * bitAllocatorBlock < 2 ^ 64 := by unfold bitAllocatorBlock; omega
  have back : sizeSub (pageAddress start off) start = off * bitAllocatorBlock := by
    unfold pageAddress sizeSub
    rw [Nat.mod_eq_of_lt product]
    omega
  unfold pageOf
  rw [back]
  exact Nat.mul_div_cancel _ (by decide)

/-- The calls of a log, one more. -/
theorem PagesExplained.snoc {call : Finished τ PageOp PageResult} {ops : List BitmapOp}
    {t : Tracked}
    (explained : PagesExplained start sizeBits log bmp)
    (tracked : exec trackedStep (trackedInit sizeBits) ops = some t) (same : t.bmp = next)
    (held : setBits next.bits next.endP = heldAfter start (heldPages start log) call)
    (handed : ∀ size p, call.op = .mmap size → call.result = .mapped p →
      Handed start sizeBits (heldPages start log) p size)
    (intact : call.result ≠ .corrupted) :
    PagesExplained start sizeBits (log ++ [call]) next where
  tracked := ⟨ops, t, tracked, same⟩
  held := by rw [heldPages_snoc]; exact held
  handed before th size p after split := by
    rcases List.eq_nil_or_concat after with rfl | ⟨rest, last, rfl⟩
    · obtain ⟨logs, calls⟩ := List.append_inj' split rfl
      cases calls
      exact logs ▸ handed size p rfl rfl
    · rw [List.concat_eq_append, ← List.cons_append, ← List.append_assoc] at split
      exact explained.handed before th size p rest (List.append_inj' split rfl).1
  intact made member := by
    rcases List.mem_append.mp member with old | new
    · exact explained.intact made old
    · rw [List.mem_singleton.mp new]
      exact intact

/-- `arax_mmap`. -/
theorem PagesExplained.mmap {size off : Nat} (low : start < 2 ^ 64) (few : sizeBits ≤ 2 ^ 52)
    (room : start + bitAllocatorBlock * sizeBits ≤ 2 ^ 64)
    (explained : PagesExplained start sizeBits log bmp)
    (ready : PageReady start log (.mmap size))
    (call : utilsBitmapAllocBits bmp (size / bitAllocatorBlock) = (next, off)) :
    PagesExplained start sizeBits
      (log ++ [⟨th, .mmap size,
        if off ≠ bitmapNotFound then .mapped (pageAddress start off) else .exhausted⟩]) next := by
  obtain ⟨ops, t, run, rfl⟩ := explained.tracked
  obtain ⟨aligned, positive, bounded⟩ := ready
  have pages : 1 ≤ size / bitAllocatorBlock ∧ size / bitAllocatorBlock < 2 ^ 64 := by
    unfold bitAllocatorBlock at aligned ⊢
    omega
  have whole : size / bitAllocatorBlock * bitAllocatorBlock = size := by
    unfold bitAllocatorBlock at aligned ⊢
    omega
  have inv := tracked_inv run
  have step : ∃ live, trackedStep t (.alloc (size / bitAllocatorBlock)) = some ⟨next, live⟩ := by
    simp only [trackedStep, trackedAlloc, if_pos pages, call]
    exact ⟨_, rfl⟩
  obtain ⟨live, step⟩ := step
  have later : exec trackedStep (trackedInit sizeBits)
      (ops ++ [.alloc (size / bitAllocatorBlock)]) = some ⟨next, live⟩ := by
    rw [exec_append, run, Option.bind_some, exec, step]
    rfl
  rcases utilsBitmapAllocBits_spec pages.1 inv.room inv.cursor call with
    ⟨same, rfl⟩ | ⟨placed, hit, -⟩
  · rw [if_neg (not_not.mpr rfl)]
    refine explained.snoc later rfl ?_ (fun _ _ _ none => by cases none)
      (fun same => by cases same)
    rw [same.bits, same.endP]
    exact explained.held
  · rw [if_pos hit]
    have inside := placed.inside
    have chunks := inv.endP
    have bound : off < 2 ^ 52 := by omega
    have page := pageOf_pageAddress low bound
    have range : pageRange start (pageAddress start off) size =
        Finset.Ico off (off + size / bitAllocatorBlock) := by
      unfold pageRange
      rw [page]
    refine explained.snoc later rfl ?_ ?_ (fun same => by cases same)
    · show setBits next.bits next.endP =
        heldPages start log ∪ pageRange start (pageAddress start off) size
      rw [placed.endP, placed.on.setBits_eq placed.inside, explained.held, range]
    · rintro _ _ ⟨⟩ ⟨⟩
      refine ⟨?_, ?_, fun shape => ?_⟩
      · unfold pageAddress bitAllocatorBlock
        omega
      · rw [range, ← explained.held]
        exact (placed.on.disjoint t.bmp.endP).symm
      · have fits : off + size / bitAllocatorBlock ≤ sizeBits :=
          bounds_of_shape (by omega) (shape.imp_right .inl) ops t _ next off run pages.1 call hit
        unfold pageAddress bitAllocatorBlock at *
        omega

/-- `arax_ummap`. -/
theorem PagesExplained.ummap {a size : Nat} (th : τ)
    (explained : PagesExplained start sizeBits log bmp)
    (ready : PageReady start log (.ummap a size)) :
    ∃ next, utilsBitmapFreeBits bmp (pageOf start a) (size / bitAllocatorBlock) = some next ∧
      PagesExplained start sizeBits (log ++ [⟨th, .ummap a size, .unmapped⟩]) next := by
  obtain ⟨ops, t, run, rfl⟩ := explained.tracked
  obtain ⟨aligned, positive, held⟩ := ready
  have pages : 1 ≤ size / bitAllocatorBlock := by
    unfold bitAllocatorBlock at aligned ⊢
    omega
  have inv := tracked_inv run
  have set : RangeSet t.bmp (pageOf start a) (size / bitAllocatorBlock) := by
    intro i bound
    have member : pageOf start a + i ∈ setBits t.bmp.bits t.bmp.endP := by
      rw [explained.held]
      exact held (Finset.mem_Ico.mpr ⟨Nat.le_add_right _ _, by omega⟩)
    exact mem_setBits.mp member
  obtain ⟨next, call, released, -⟩ := release_spec inv pages set
  have later : exec trackedStep (trackedInit sizeBits)
      (ops ++ [.free (pageOf start a) (size / bitAllocatorBlock)]) =
        some ⟨next, t.live.map (· \ Finset.Ico (pageOf start a)
          (pageOf start a + size / bitAllocatorBlock))⟩ := by
    rw [exec_append, run, Option.bind_some, exec, trackedStep, trackedFree, if_pos ⟨pages, set⟩,
      call]
    rfl
  refine ⟨next, call, explained.snoc later rfl ?_ (fun _ _ none => by cases none)
      (fun same => by cases same)⟩
  show setBits next.bits next.endP = heldPages start log \ pageRange start a size
  rw [released.endP, released.off.setBits_eq, explained.held]
  rfl

/-- The bitmap functions are one access. -/
theorem pageBody_completes {op : PageOp} {result : PageResult}
    (completes : (pageBody start).Completes op bmp result next) :
    pageAccess start op bmp = .done result next := by
  obtain ⟨now, before, reaches, done⟩ := completes
  have single : ∀ op (base : UtilsBitmap), ∃ result next,
      pageAccess start op base = .done result next := by
    intro op base
    cases op with
    | mmap s => exact ⟨_, _, rfl⟩
    | ummap a s =>
      simp only [pageAccess]
      split
      · exact ⟨_, _, rfl⟩
      · exact ⟨_, _, rfl⟩
  rcases Relation.ReflTransGen.cases_head reaches with same | ⟨later, step, -⟩
  · cases same
    exact done
  · obtain ⟨result, next, ends⟩ := single op bmp
    have move : pageAccess start op bmp = .more later.1 later.2 := step
    exact absurd (move.symm.trans ends) nofun

/-- **The bitmap after the calls of a log.** -/
theorem pages_explained (low : start < 2 ^ 64) (few : sizeBits ≤ 2 ^ 52)
    (room : start + bitAllocatorBlock * sizeBits ≤ 2 ^ 64)
    (replays : Replays (pageBody start) (utilsBitmapInit sizeBits) log bmp)
    (past : ∀ before call after, log = before ++ call :: after → PageReady start before call.op) :
    PagesExplained start sizeBits log bmp := by
  induction replays with
  | nil =>
    refine ⟨⟨[], trackedInit sizeBits, rfl, rfl⟩, ?_, fun before _ _ _ _ split => ?_, nofun⟩
    · exact Finset.card_eq_zero.mp (trackedInit_inv sizeBits).used.symm
    · cases before <;> cases split
  | @snoc log base object call _ completes ih =>
    have explained := ih fun before call after split =>
      past before call (after ++ [_]) (by rw [split, List.append_assoc]; rfl)
    have ready := past log call [] rfl
    have access := pageBody_completes completes
    obtain ⟨th, op, result⟩ := call
    cases op with
    | mmap s =>
      simp only [pageAccess] at access
      cases access
      exact explained.mmap low few room ready rfl
    | ummap a s =>
      obtain ⟨next, call, explained'⟩ := explained.ummap th ready
      simp only [pageAccess, call] at access
      cases access
      exact explained'

end Explained

/-! ### Runs -/

/-- What the page calls guarantee to all threads. -/
structure PagesSound {τ : Type*} (stats : Bool) (alloc size : Nat)
    (s : SpinlockState τ UtilsBitmap PageOp PageOp PageResult) : Prop where
  /-- The bitmap shows the pages that are mapped, and counts them. -/
  held : s.lock = 0 → s.object.usedBits =
      (heldPages (archAllocInitOnce stats alloc size).start s.log).card ∧
    setBits s.object.bits s.object.endP =
      heldPages (archAllocInitOnce stats alloc size).start s.log
  /-- What `arax_mmap` returned was page aligned, and mapped by nobody at that time. -/
  handed : ∀ before th n p after, s.log = before ++ ⟨th, .mmap n, .mapped p⟩ :: after →
    p % bitAllocatorBlock = 0 ∧
      Disjoint (pageRange (archAllocInitOnce stats alloc size).start p n)
        (heldPages (archAllocInitOnce stats alloc size).start before)
  /-- It was behind the words of the bitmap and in the memory of the allocator, if the last chunk of
  the bitmap is full or the only one. -/
  inside : (archAllocInitOnce stats alloc size).bmp.sizeBits % 64 = 0 ∨
      (archAllocInitOnce stats alloc size).bmp.sizeBits < 64 →
    ∀ th n p, ⟨th, .mmap n, .mapped p⟩ ∈ s.log →
      alloc + sizeofInner stats + 8 * (archAllocInitOnce stats alloc size).bmp.endP ≤ p ∧
        p + n ≤ alloc + size
  /-- No assertion of the bitmap or of the lock has failed under `arax_ummap`. -/
  intact : (∀ call ∈ s.log, call.result ≠ .corrupted) ∧ ∀ th, s.places th ≠ .aborted

section Runs

variable {τ : Type*} [DecidableEq τ] {stats : Bool} {alloc size : Nat}

/-- The data pages end with the allocator, and there are fewer than `2 ^ 52`. -/
theorem pages_room (inside : alloc + size ≤ 2 ^ 64) (fits : Fits stats alloc size)
    (layout : AllocLayout stats alloc size (archAllocInitOnce stats alloc size)) :
    (archAllocInitOnce stats alloc size).start < 2 ^ 64 ∧
      (archAllocInitOnce stats alloc size).start +
        bitAllocatorBlock * (archAllocInitOnce stats alloc size).bmp.sizeBits ≤ alloc + size ∧
      (archAllocInitOnce stats alloc size).bmp.sizeBits ≤ 2 ^ 52 := by
  have data := fits.data
  obtain ⟨-, last⟩ := layout.pages _ (Nat.sub_lt data Nat.one_pos)
  rw [Nat.sub_add_cancel data] at last
  unfold bitAllocatorBlock at last ⊢
  omega

/-- **The page calls.** In every interleaving of calls that unmap only what is mapped, each page
once, the pages that `arax_mmap` returns are free until then, and stay apart from the others that
are mapped. -/
theorem pages_sound (stats : Bool) (alloc size : Nat) (small : size < 2 ^ 64)
    (inside : alloc + size ≤ 2 ^ 64) (fits : Fits stats alloc size)
    (moves : List (τ × SpinlockMove PageOp))
    (s : SpinlockState τ UtilsBitmap PageOp PageOp PageResult)
    (guarded : Guarded (spinlockStep (pageBody (archAllocInitOnce stats alloc size).start))
      (SpinlockGuard (CallReady (PageReady (archAllocInitOnce stats alloc size).start)
        (PageApart (archAllocInitOnce stats alloc size).start)))
      (utilsSpinlockInit (archAllocInitOnce stats alloc size).bmp) moves)
    (run : exec (spinlockStep (pageBody (archAllocInitOnce stats alloc size).start))
      (utilsSpinlockInit (archAllocInitOnce stats alloc size).bmp) moves = some s) :
    PagesSound stats alloc size s := by
  have layout := allocLayout_of_fits small inside fits
  obtain ⟨low, room, few⟩ := pages_room inside fits layout
  have readied := spinlock_readied (pageApart_symm _) (pageReady_stable _) guarded run
  obtain ⟨base, replays, same⟩ := (spinlock_inv run).replays
  have explained := pages_explained low few (room.trans inside) replays readied.past
  obtain ⟨ops, t, tracked, rfl⟩ := explained.tracked
  refine ⟨fun zero => ?_, fun before th n p after split => ?_, fun shape th n p member => ?_,
    explained.intact, (spinlock_inv run).calm⟩
  · rw [same zero]
    exact ⟨explained.held ▸ (tracked_inv tracked).used, explained.held⟩
  · have handed := explained.handed before th n p after split
    exact ⟨handed.aligned.trans layout.aligned, handed.fresh⟩
  · obtain ⟨before, after, split⟩ := List.append_of_mem member
    obtain ⟨above, below⟩ := (explained.handed before th n p after split).inside shape
    exact ⟨layout.words.trans above, below.trans room⟩

/-- Two threads of an allocator with 63 full chunks of pages. The second one waits with its call
while the first one maps two pages; then the first one unmaps the first of its pages. -/
def pageMoves : List (Bool × SpinlockMove PageOp) :=
  [(true, .call (.mmap 8192)), (true, .next), (true, .next), (false, .call (.mmap 4096)),
      (false, .next)] ++
    List.replicate 3 (true, .next) ++ List.replicate 5 (false, .next) ++
    [(true, .call (.ummap 0x7f0000003000 4096))] ++ List.replicate 5 (true, .next)

theorem pages_sound_at_63_chunks : ∃ s,
    exec (spinlockStep (pageBody (archAllocInitOnce true 0x7f0000001f98 0xfc2000).start))
        (utilsSpinlockInit (archAllocInitOnce true 0x7f0000001f98 0xfc2000).bmp) pageMoves =
          some s ∧
      s.log = [⟨true, .mmap 8192, .mapped 0x7f0000003000⟩,
        ⟨false, .mmap 4096, .mapped 0x7f0000005000⟩,
        ⟨true, .ummap 0x7f0000003000 4096, .unmapped⟩] ∧
      PagesSound true 0x7f0000001f98 0xfc2000 s := by
  have log : (exec (spinlockStep (pageBody (archAllocInitOnce true 0x7f0000001f98 0xfc2000).start))
      (utilsSpinlockInit (archAllocInitOnce true 0x7f0000001f98 0xfc2000).bmp) pageMoves).map
        SpinlockState.log = some [⟨true, .mmap 8192, .mapped 0x7f0000003000⟩,
          ⟨false, .mmap 4096, .mapped 0x7f0000005000⟩,
          ⟨true, .ummap 0x7f0000003000 4096, .unmapped⟩] := by
    decide +kernel
  obtain ⟨s, run, calls⟩ := Option.map_eq_some_iff.mp log
  exact ⟨s, run, calls, pages_sound true 0x7f0000001f98 0xfc2000 (by decide) (by decide)
    (fits_of_le (by decide) (by decide) (by decide)) pageMoves s (by decide +kernel) run⟩

end Runs

end Arax.Alloc
