/-
**The owner of an interior pointer (`arax_data_ref_offset` in `src/core/arax_data.c`).**

The pointer may be the start of a buffer, so its eight bytes before it are tried as a back pointer
first. They are accepted if they are the address of something in the segment whose type field is
that of data; only otherwise is the list of the data objects searched.

* `Live` — what the lookup relies on: the fields of the live objects, and buffers that are disjoint.
* `Harmless s p` — the eight bytes before `p` do not mislead the lookup.
* `lookup_exact_iff` — the lookup gives the owner exactly then.
* `exec_live` — every run of initialisations, frees and stores anywhere but to the structs and the
  back pointers of live objects stays among the live states.
-/

import Arax.Core.DataBuffer
import Arax.Lib.Run

namespace Arax.Core

open Arax.Lib Arax.Utils

namespace Segment

/-- The loop of `arax_data_ref_offset` over the list of the data objects. -/
def findData (s : Segment) (data : Nat) : List Nat → Option Nat
  | [] => none
  | vd :: rest =>
    if s.araxDataDeref vd < data ∧ data < (s.araxDataDeref vd + s.dataSize vd) % 2 ^ 64 then some vd
    else findData s data rest

/-- `arax_data_ref_offset`, with `none` and `some none` as in `araxDataRef`. -/
def araxDataRefOffset (s : Segment) (data : Nat) : Option (Option Nat) :=
  if data = 0 then none
  else if s.araxPtrValid data = false then none
  else
    match s.araxDataRef data with
    | none => none
    | some (some vdata) => some (some vdata)
    | some none => some (s.findData data s.datas)

/-- `p` points into the buffer of `data`. -/
def InBuffer (s : Segment) (data p : Nat) : Prop :=
  s.buffer data ≤ p ∧ p < s.buffer data + s.dataSize data

/-- What the lookup of `p` is to return: the owner of `p`, or `NULL` if it has none. -/
def IsOwner (s : Segment) (p : Nat) : Option Nat → Prop
  | some data => data ∈ s.datas ∧ s.InBuffer data p
  | none => ∀ data ∈ s.datas, ¬s.InBuffer data p

/-- **The eight bytes before `p` do not mislead the lookup.** -/
inductive Harmless (s : Segment) (p : Nat) : Prop where
  /-- They are the back pointer of a buffer that is not empty. -/
  | start (data : Nat) (member : data ∈ s.datas) (start : s.buffer data = p)
      (nonempty : 0 < s.dataSize data)
  /-- They are no address in the segment. -/
  | outside (v : Nat) (bytes : s.vdBuffOwner p = some v) (outside : s.araxPtrValid v = false)
  /-- They are the address of something else; its type field has to be in the segment as well. -/
  | typed (v type : Nat) (bytes : s.vdBuffOwner p = some v) (typed : s.objType v = some type)
      (other : type ≠ araxTypeData)
  /-- They are contents of a buffer, and the address of the object that the buffer belongs to. -/
  | self (v : Nat) (bytes : s.vdBuffOwner p = some v) (member : v ∈ s.datas)
      (behind : s.buffer v < p) (inside : p < s.buffer v + s.dataSize v)

end Segment

/-- The segment and the objects in it, each with its type, its back pointer and its buffer behind
the struct. -/
structure Objects (s : Segment) : Prop where
  pipe : 0 < s.pipe
  fits : s.pipe + s.shmSize < 2 ^ 64
  above : ∀ data ∈ s.datas, s.pipe ≤ data
  behind : ∀ data ∈ s.datas, data + sizeofData + 8 ≤ s.buffer data
  below : ∀ data ∈ s.datas, s.buffer data + s.dataSize data ≤ s.pipe + s.shmSize
  objType : ∀ data ∈ s.datas, s.objType data = some araxTypeData
  owner : ∀ data ∈ s.datas, s.vdBuffOwner (s.buffer data) = some data

/-- Live objects with pairwise disjoint buffers. What the buffers hold is left open. -/
structure Live (s : Segment) : Prop extends Objects s where
  disjoint : s.datas.Pairwise fun first second =>
    ∀ p, s.InBuffer first p → ¬s.InBuffer second p

section Lookup

variable {s : Segment} {p data : Nat}

theorem Segment.araxPtrValid_iff (fits : s.pipe + s.shmSize < 2 ^ 64) :
    s.araxPtrValid p = true ↔ s.pipe ≤ p ∧ p < s.pipe + s.shmSize := by
  unfold Segment.araxPtrValid
  rw [Nat.mod_eq_of_lt fits]
  split_ifs with low
  · simp [Nat.not_le.mpr low]
  · simp [Nat.le_of_not_lt low]

/-- What is not in the segment is refused. -/
theorem araxDataRef_outside {v : Nat} (here : p ≠ 0) (bytes : s.vdBuffOwner p = some v)
    (outside : s.araxPtrValid v = false) : s.araxDataRef p = some none := by
  unfold Segment.araxDataRef
  rw [bytes, if_neg here, Option.bind_some, outside, if_pos rfl]
  split_ifs <;> rfl

/-- What is in the segment is refused or accepted by its type. -/
theorem araxDataRef_inside {v : Nat} (here : p ≠ 0) (bytes : s.vdBuffOwner p = some v)
    (address : v ≠ 0) (valid : s.araxPtrValid v = true) : s.araxDataRef p =
      (s.objType v).map fun type => if type = araxTypeData then some v else none := by
  unfold Segment.araxDataRef
  rw [bytes, if_neg here, Option.bind_some, if_neg address, valid, if_neg (by decide)]

/-- The test of the search, on objects of the segment. -/
theorem Objects.end_eq (objects : Objects s) (member : data ∈ s.datas) :
    (s.araxDataDeref data + s.dataSize data) % 2 ^ 64 = s.buffer data + s.dataSize data :=
  Nat.mod_eq_of_lt (Nat.lt_of_le_of_lt (objects.below data member) objects.fits)

/-- What the search finds is an owner. -/
theorem findData_some (objects : Objects s) {datas : List Nat} (among : datas ⊆ s.datas)
    (found : s.findData p datas = some data) : data ∈ s.datas ∧ s.InBuffer data p := by
  induction datas with
  | nil => cases found
  | cons vd rest ih =>
    rw [List.cons_subset] at among
    unfold Segment.findData at found
    split_ifs at found with inside
    · cases found
      rw [objects.end_eq among.1] at inside
      exact ⟨among.1, inside.1.le, inside.2⟩
    · exact ih among.2 found

/-- What it does not find has no owner, but for a pointer to the start of a buffer. -/
theorem findData_none (objects : Objects s) {datas : List Nat} (among : datas ⊆ s.datas)
    (missed : s.findData p datas = none) (member : data ∈ datas) (inside : s.InBuffer data p) :
    p = s.buffer data := by
  induction datas with
  | nil => cases member
  | cons vd rest ih =>
    rw [List.cons_subset] at among
    unfold Segment.findData at missed
    split_ifs at missed with here
    rcases List.mem_cons.mp member with rfl | later
    · rw [objects.end_eq among.1] at here
      by_contra past
      exact here ⟨Nat.lt_of_le_of_ne inside.1 (Ne.symm past), inside.2⟩
    · exact ih among.2 missed later

/-- A live object is in the segment. -/
theorem Objects.valid (objects : Objects s) (member : data ∈ s.datas) :
    data ≠ 0 ∧ s.araxPtrValid data = true := by
  have above := objects.above data member
  have behind := objects.behind data member
  have below := objects.below data member
  have pipe := objects.pipe
  rw [Segment.araxPtrValid_iff objects.fits]
  omega

/-- The start of a buffer is the start of its own object. -/
theorem Objects.araxDataRef_start (objects : Objects s) (member : data ∈ s.datas) :
    s.araxDataRef (s.buffer data) = some (some data) := by
  have behind := objects.behind data member
  obtain ⟨address, valid⟩ := objects.valid member
  exact araxDataRef_owner (by omega) (objects.owner data member) address valid
    (objects.objType data member)

/-- Without a back pointer, the search gives the owner. -/
theorem isOwner_findData (objects : Objects s) (refused : s.araxDataRef p = some none) :
    s.IsOwner p (s.findData p s.datas) := by
  cases search : s.findData p s.datas with
  | some data => exact findData_some objects (List.Subset.refl _) search
  | none =>
    intro data member inside
    have start := findData_none objects (List.Subset.refl _) search member inside
    rw [start, objects.araxDataRef_start member] at refused
    cases refused

/-- Disjoint buffers leave no two answers. -/
theorem Live.isOwner_unique (live : Live s) {first second : Option Nat}
    (one : s.IsOwner p first) (other : s.IsOwner p second) : first = second := by
  cases first with
  | none =>
    cases second with
    | none => rfl
    | some data => exact absurd other.2 (one data other.1)
  | some data =>
    cases second with
    | none => exact absurd one.2 (other data one.1)
    | some data' =>
      by_contra different
      have swap : Std.Symm fun first second => ∀ p, s.InBuffer first p → ¬s.InBuffer second p :=
        ⟨fun _ _ apart p inside outside => apart p outside inside⟩
      have apart := live.disjoint.forall one.1 other.1 fun same => different (congrArg some same)
      exact apart p one.2 other.2

/-- What the lookup makes of the result of `arax_data_ref`. -/
theorem araxDataRefOffset_eq (live : Live s) (low : s.pipe + 8 ≤ p)
    (high : p < s.pipe + s.shmSize) : s.araxDataRefOffset p =
      (s.araxDataRef p).map fun found => found.or (s.findData p s.datas) := by
  have here : p ≠ 0 := by omega
  have valid : s.araxPtrValid p = true :=
    (Segment.araxPtrValid_iff live.fits).mpr ⟨by omega, high⟩
  unfold Segment.araxDataRefOffset
  rw [if_neg here, valid, if_neg (by decide)]
  cases s.araxDataRef p with
  | none => rfl
  | some found => cases found <;> rfl

/-- The lookup gives the owner where the bytes do not mislead it. -/
theorem Segment.Harmless.exact (live : Live s) (low : s.pipe + 8 ≤ p)
    (high : p < s.pipe + s.shmSize) (harmless : s.Harmless p) :
    ∃ owner, s.araxDataRefOffset p = some owner ∧ s.IsOwner p owner := by
  have here : p ≠ 0 := by omega
  rw [araxDataRefOffset_eq live low high]
  have searched : s.araxDataRef p = some none → ∃ owner,
      ((s.araxDataRef p).map fun found => found.or (s.findData p s.datas)) = some owner ∧
        s.IsOwner p owner := by
    intro refused
    rw [refused]
    exact ⟨_, rfl, isOwner_findData live.toObjects refused⟩
  cases harmless with
  | start data member start nonempty =>
    rw [← start, live.araxDataRef_start member]
    exact ⟨_, rfl, member, Nat.le_refl _, by omega⟩
  | outside v bytes outside => exact searched (araxDataRef_outside here bytes outside)
  | typed v type bytes typed other =>
    cases valid : s.araxPtrValid v with
    | false => exact searched (araxDataRef_outside here bytes valid)
    | true =>
      have inside := (Segment.araxPtrValid_iff live.fits).mp valid
      have pipe := live.pipe
      refine searched ?_
      rw [araxDataRef_inside here bytes (by omega) valid, typed, Option.map_some, if_neg other]
  | self v bytes member behind inside =>
    obtain ⟨address, valid⟩ := live.valid member
    rw [araxDataRef_owner here bytes address valid (live.objType v member)]
    exact ⟨_, rfl, member, behind.le, inside⟩

/-- **The lookup, exactly.** For all live objects, all contents of their buffers and all pointers
into the segment behind its first eight bytes. -/
theorem lookup_exact_iff (s : Segment) (live : Live s) (p : Nat) (low : s.pipe + 8 ≤ p)
    (high : p < s.pipe + s.shmSize) :
    (∃ owner, s.araxDataRefOffset p = some owner ∧ s.IsOwner p owner) ↔ s.Harmless p := by
  refine ⟨?_, fun harmless => harmless.exact live low high⟩
  rintro ⟨owner, returned, right⟩
  have here : p ≠ 0 := by omega
  obtain ⟨v, bytes⟩ : ∃ v, s.vdBuffOwner p = some v := by
    have fits := live.fits
    have slot : sizeSub p 8 = p - 8 := by
      unfold sizeSub
      omega
    exact ⟨_, by unfold Segment.vdBuffOwner; rw [Segment.read_eq (by omega) (by omega)]⟩
  cases valid : s.araxPtrValid v with
  | false => exact .outside v bytes valid
  | true =>
    have inside := (Segment.araxPtrValid_iff live.fits).mp valid
    have pipe := live.pipe
    have ref := araxDataRef_inside here bytes (by omega) valid
    rw [araxDataRefOffset_eq live low high, ref] at returned
    cases typed : s.objType v with
    | none =>
      rw [typed] at returned
      cases returned
    | some type =>
      by_cases data : type = araxTypeData
      · rw [typed, Option.map_some, if_pos data] at returned
        cases returned
        obtain ⟨member, behind, before⟩ := right
        rcases Nat.eq_or_lt_of_le behind with start | behind
        · exact .start v member start (by omega)
        · exact .self v bytes member behind before
      · exact .typed v type bytes typed data

end Lookup

/-! ### The live states -/

/-- What happens to the segment. -/
inductive SegmentOp where
  /-- `arax_data_init_aligned` with a block that the allocator returned. -/
  | init (data size align : Nat)
  /-- Anybody stores anything, the client in particular. -/
  | store (a n v : Nat)
  /-- The last reference is dropped. -/
  | free (data : Nat)

/-- No byte of `[a, a + n)` belongs to the struct or the back pointer of a live object. -/
def OutsideObjects (s : Segment) (a n : Nat) : Prop :=
  ∀ vd ∈ s.datas, (a + n ≤ vd ∨ vd + sizeofData ≤ a) ∧
    (a + n ≤ s.buffer vd - 8 ∨ s.buffer vd ≤ a)

/-- The block of a new object is in the segment and apart from those of the live ones. -/
def FreshBlock (s : Segment) (data size align : Nat) : Prop :=
  s.pipe ≤ data ∧ data + sizeofData + size + align + 8 ≤ s.pipe + s.shmSize ∧
    ∀ vd ∈ s.datas, data + sizeofData + size + align + 8 ≤ vd ∨
      s.buffer vd + s.dataSize vd ≤ data

instance (s : Segment) (a n : Nat) : Decidable (OutsideObjects s a n) := by
  unfold OutsideObjects
  infer_instance

instance (s : Segment) (data size align : Nat) : Decidable (FreshBlock s data size align) := by
  unfold FreshBlock
  infer_instance

/-- One step. The destructor sets the type to `ARAX_TYPE_COUNT`. -/
def segmentStep (s : Segment) : SegmentOp → Option Segment
  | .init data size align =>
    if FreshBlock s data size align then s.araxDataInitAligned data size align else none
  | .store a n v =>
    if OutsideObjects s a n then some { s with mem := storeBytes s.mem a n v } else none
  | .free data =>
    if data ∈ s.datas then
      some { s with mem := storeBytes s.mem (data + 40) 4 5, datas := s.datas.erase data }
    else none

/-- Objects in disjoint blocks. -/
structure Placed (s : Segment) : Prop extends Objects s where
  blocks : s.datas.Pairwise fun first second =>
    s.buffer first + s.dataSize first ≤ second ∨ s.buffer second + s.dataSize second ≤ first

section Runs

variable {s t : Segment} {data size align : Nat}

/-- Disjoint blocks have disjoint buffers. -/
theorem Placed.live (placed : Placed s) : Live s where
  toObjects := placed.toObjects
  disjoint := by
    refine placed.blocks.imp_of_mem fun {first second} here there apart p inFirst inSecond => ?_
    have one := placed.behind first here
    have other := placed.behind second there
    unfold Segment.InBuffer at inFirst inSecond
    omega

/-- What is read of an object is the same in both states. -/
structure Unmoved (s t : Segment) (vd : Nat) : Prop where
  objType : t.objType vd = s.objType vd
  dataSize : t.dataSize vd = s.dataSize vd
  buffer : t.buffer vd = s.buffer vd
  owner : t.vdBuffOwner (s.buffer vd) = s.vdBuffOwner (s.buffer vd)

/-- An object is made of the bytes of its struct and of its back pointer. -/
theorem Objects.unmoved (objects : Objects s) {vd : Nat} (member : vd ∈ s.datas)
    (pipe : t.pipe = s.pipe) (shmSize : t.shmSize = s.shmSize)
    (header : ∀ i, vd ≤ i → i < vd + sizeofData → t.mem i = s.mem i)
    (slot : ∀ i, s.buffer vd - 8 ≤ i → i < s.buffer vd → t.mem i = s.mem i) :
    Unmoved s t vd := by
  have behind := objects.behind vd member
  have below := objects.below vd member
  have fits := objects.fits
  have before : sizeSub (s.buffer vd) 8 = s.buffer vd - 8 := by
    unfold sizeSub
    omega
  unfold sizeofData at header behind
  constructor
  case objType =>
    unfold Segment.objType Segment.read
    rw [pipe, shmSize, loadBytes_congr fun i low high => header i (by omega) (by omega)]
  case dataSize => exact loadBytes_congr fun i low high => header i (by omega) (by omega)
  case buffer => exact loadBytes_congr fun i low high => header i (by omega) (by omega)
  case owner =>
    unfold Segment.vdBuffOwner Segment.read
    rw [before, pipe, shmSize, loadBytes_congr fun i low high => slot i low (by omega)]

/-- Objects that are still there, and whose bytes are not touched, stay as they are. -/
theorem Placed.keep (placed : Placed s) (pipe : t.pipe = s.pipe) (shmSize : t.shmSize = s.shmSize)
    (fewer : t.datas.Sublist s.datas) (unmoved : ∀ vd ∈ t.datas, Unmoved s t vd) : Placed t where
  pipe := by rw [pipe]; exact placed.pipe
  fits := by rw [pipe, shmSize]; exact placed.fits
  above vd member := by rw [pipe]; exact placed.above vd (fewer.subset member)
  behind vd member := by
    rw [(unmoved vd member).buffer]
    exact placed.behind vd (fewer.subset member)
  below vd member := by
    rw [(unmoved vd member).buffer, (unmoved vd member).dataSize, pipe, shmSize]
    exact placed.below vd (fewer.subset member)
  objType vd member := by
    rw [(unmoved vd member).objType]
    exact placed.objType vd (fewer.subset member)
  owner vd member := by
    rw [(unmoved vd member).buffer, (unmoved vd member).owner]
    exact placed.owner vd (fewer.subset member)
  blocks := by
    refine (placed.blocks.sublist fewer).imp_of_mem fun {first second} here there apart => ?_
    rw [(unmoved first here).buffer, (unmoved first here).dataSize, (unmoved second there).buffer,
      (unmoved second there).dataSize]
    exact apart

/-- The list has no object twice. -/
theorem Placed.nodup (placed : Placed s) : s.datas.Nodup := by
  refine placed.blocks.imp_of_mem fun {first second} here _ apart same => ?_
  have behind := placed.behind first here
  rw [← same] at apart
  omega

/-- Two objects of the list are in disjoint blocks. -/
theorem Placed.apart (placed : Placed s) {first second : Nat} (here : first ∈ s.datas)
    (there : second ∈ s.datas) (different : first ≠ second) :
    s.buffer first + s.dataSize first ≤ second ∨
      s.buffer second + s.dataSize second ≤ first := by
  have swap : Std.Symm fun first second => s.buffer first + s.dataSize first ≤ second ∨
      s.buffer second + s.dataSize second ≤ first := ⟨fun _ _ => Or.symm⟩
  exact placed.blocks.forall here there different

/-- A new object in a block of its own. -/
theorem placed_init (placed : Placed s) (fresh : FreshBlock s data size align)
    (init : s.araxDataInitAligned data size align = some t) : Placed t := by
  obtain ⟨low, high, away⟩ := fresh
  have pipe := placed.pipe
  have fits := placed.fits
  have positive : 0 < align := by
    unfold Segment.araxDataInitAligned at init
    split_ifs at init with zero
    exact Nat.pos_of_ne_zero zero
  have room : data + sizeofData + size + align + 8 < 2 ^ 64 := by omega
  have bounds := alignedBuffer_bounds positive room
  have slot : sizeSub (alignedBuffer data align) 8 = alignedBuffer data align - 8 := by
    unfold sizeSub
    omega
  have after := initialised init (by omega) (by omega) (by omega)
  have unmoved : ∀ vd ∈ s.datas, Unmoved s t vd := by
    intro vd member
    have apart := away vd member
    have behind := placed.behind vd member
    refine placed.unmoved member after.pipe after.shmSize (fun i first last => ?_)
      fun i first last => ?_
    · exact after.frame i (by omega) (by omega)
    · exact after.frame i (by omega) (by omega)
  have rest : Placed { t with datas := s.datas } := by
    refine placed.keep after.pipe after.shmSize (List.Sublist.refl _) fun vd member => ?_
    obtain ⟨objType, dataSize, buffer, owner⟩ := unmoved vd member
    exact ⟨objType, dataSize, buffer, owner⟩
  have buffer := after.buffer
  have sized := after.dataSize
  constructor
  · refine ⟨rest.pipe, rest.fits, ?_, ?_, ?_, ?_, ?_⟩
    all_goals rw [after.datas, List.forall_mem_cons]
    · exact ⟨by rw [after.pipe]; exact low, rest.above⟩
    · exact ⟨by omega, rest.behind⟩
    · exact ⟨by rw [after.pipe, after.shmSize]; omega, rest.below⟩
    · exact ⟨after.tag low (by omega), rest.objType⟩
    · exact ⟨by rw [buffer]; exact after.backPointer (by omega) (by omega), rest.owner⟩
  · rw [after.datas, List.pairwise_cons]
    refine ⟨fun vd member => ?_, rest.blocks⟩
    have apart := away vd member
    rw [(unmoved vd member).buffer, (unmoved vd member).dataSize]
    omega

theorem placed_store (placed : Placed s) {a n v : Nat} (outside : OutsideObjects s a n) :
    Placed { s with mem := storeBytes s.mem a n v } := by
  refine placed.keep rfl rfl (List.Sublist.refl _) fun vd member => ?_
  obtain ⟨header, slot⟩ := outside vd member
  refine placed.unmoved member rfl rfl (fun i first last => ?_) fun i first last => ?_
  · exact storeBytes_outside (by omega)
  · exact storeBytes_outside (by omega)

theorem placed_free (placed : Placed s) (member : data ∈ s.datas) :
    Placed { s with mem := storeBytes s.mem (data + 40) 4 5, datas := s.datas.erase data } := by
  refine placed.keep rfl rfl List.erase_sublist fun vd left => ?_
  obtain ⟨different, stays⟩ := (placed.nodup.mem_erase_iff).mp left
  have apart := placed.apart stays member different
  have behind := placed.behind vd stays
  have size := placed.behind data member
  unfold sizeofData at behind size
  refine placed.unmoved stays rfl rfl (fun i first last => ?_) fun i first last => ?_
  · unfold sizeofData at last
    exact storeBytes_outside (by omega)
  · exact storeBytes_outside (by omega)

/-- **Every run stays among the live states.** -/
theorem exec_live {ops : List SegmentOp} (placed : Placed s)
    (run : exec segmentStep s ops = some t) : Live t := by
  have keeps : ∀ s op t, Placed s → segmentStep s op = some t → Placed t := by
    intro s op t placed move
    cases op with
    | init data size align =>
      simp only [segmentStep] at move
      split_ifs at move with fresh
      exact placed_init placed fresh move
    | store a n v =>
      simp only [segmentStep] at move
      split_ifs at move with outside
      cases move
      exact placed_store placed outside
    | free data =>
      simp only [segmentStep] at move
      split_ifs at move with member
      cases move
      exact placed_free placed member
  exact (exec_invariant keeps placed run).live

/-- An empty segment. -/
theorem placed_nil (pipe : 0 < s.pipe) (fits : s.pipe + s.shmSize < 2 ^ 64)
    (empty : s.datas = []) : Placed s := by
  refine ⟨⟨pipe, fits, ?_, ?_, ?_, ?_, ?_⟩, ?_⟩
  all_goals rw [empty]
  all_goals simp

end Runs

/-! ### A back pointer in a buffer -/

/-- A segment without objects. -/
def emptySegment : Segment := ⟨0x10000, 0x10000, fun _ => 0#8, []⟩

/-- Two buffers of 16 bytes, and the first eight bytes of the first one are then the address of the
second object. -/
def disguisedOps : List SegmentOp :=
  [.init 0x12000 16 1, .init 0x13000 16 1, .store 0x12099 8 0x13000]

theorem exec_disguisedOps : ∃ s, exec segmentStep emptySegment disguisedOps = some s ∧ Live s ∧
    s.pipe = 0x10000 ∧ s.shmSize = 0x10000 ∧
    s.araxDataRefOffset 0x120a1 = some (some 0x13000) ∧ s.buffer 0x13000 = 0x13099 := by
  have value : (exec segmentStep emptySegment disguisedOps).map (fun s =>
      (s.pipe, s.shmSize, s.araxDataRefOffset 0x120a1, s.buffer 0x13000)) =
      some (0x10000, 0x10000, some (some 0x13000), 0x13099) := by
    decide +kernel
  obtain ⟨s, run, same⟩ := Option.map_eq_some_iff.mp value
  simp only [Prod.mk.injEq] at same
  obtain ⟨pipe, shmSize, returned, buffer⟩ := same
  exact ⟨s, run, exec_live (placed_nil (by decide) (by decide) rfl) run, pipe, shmSize, returned,
    buffer⟩

theorem lookup_exact_disguised : ∃ s, exec segmentStep emptySegment disguisedOps = some s ∧
    ((∃ owner, s.araxDataRefOffset 0x120a1 = some owner ∧ s.IsOwner 0x120a1 owner) ↔
      s.Harmless 0x120a1) := by
  obtain ⟨s, run, live, pipe, shmSize, -⟩ := exec_disguisedOps
  refine ⟨s, run, lookup_exact_iff s live 0x120a1 ?_ ?_⟩
  · rw [pipe]
    decide
  · rw [pipe, shmSize]
    decide

/-- The owner of the ninth byte of the first buffer is said to be the second object. -/
theorem lookup_not_exact : ¬∀ (s : Segment) (p : Nat), Live s → s.pipe + 8 ≤ p →
    p < s.pipe + s.shmSize → ∃ owner, s.araxDataRefOffset p = some owner ∧ s.IsOwner p owner := by
  intro all
  obtain ⟨s, -, live, pipe, shmSize, returned, buffer⟩ := exec_disguisedOps
  obtain ⟨owner, same, right⟩ := all s 0x120a1 live (by rw [pipe]; decide)
    (by rw [pipe, shmSize]; decide)
  rw [returned] at same
  cases same
  have start := right.2.1
  rw [buffer] at start
  exact absurd start (by decide)

end Arax.Core
