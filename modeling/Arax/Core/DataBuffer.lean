/-
**The buffer of a data object (`src/core/arax_data.c`).**

`arax_data_init_aligned` allocates an object and its buffer as one block: the struct, room for a
pointer, and the buffer, moved forward to the alignment. The eight bytes before the buffer hold the
address of the object, which `arax_data_ref` reads back.

* `Segment` — the bytes of the shared segment, and the data objects in the repository.
* `araxDataInitAligned`, `araxDataDeref`, `araxDataRef` — on 64-bit addresses that wrap.
* `data_layout` — the buffer is aligned, inside its block and leads back to its object.
-/

import Arax.Lib.Bytes
import Arax.Utils.Bitmap

namespace Arax.Core

open Arax.Lib Arax.Utils

/-- The shared segment: its address, its size, its bytes, and the objects in the list of
`ARAX_TYPE_DATA`. -/
structure Segment where
  pipe : Nat
  shmSize : Nat
  mem : Nat → BitVec 8
  datas : List Nat

/-- `sizeof(arax_data_s)`. -/
def sizeofData : Nat := 144

/-- `ARAX_TYPE_DATA`. -/
def araxTypeData : Nat := 3

/-- `ARAX_BUFF_ALLOC_SIZE`. -/
def araxBuffAllocSize (size align : Nat) : Nat := (size + align + 8) % 2 ^ 64

/-- The aligned `buff_ptr` of `arax_data_init_aligned`: a struct and a pointer behind `data`, and
then 1 to `align` bytes on. -/
def alignedBuffer (data align : Nat) : Nat :=
  let buffPtr := (data + sizeofData + 8) % 2 ^ 64
  (buffPtr + align - buffPtr % align) % 2 ^ 64

namespace Segment

/-- The `n` bytes at `a`. There are none outside the segment, where nothing is mapped. -/
def read (s : Segment) (a n : Nat) : Option Nat :=
  if s.pipe ≤ a ∧ a + n ≤ s.pipe + s.shmSize then some (loadBytes s.mem a n) else none

/-- `obj.type` of what is at `data`, an `int`. -/
def objType (s : Segment) (data : Nat) : Option Nat := s.read (data + 40) 4

/-- `data->size`. -/
def dataSize (s : Segment) (data : Nat) : Nat := loadBytes s.mem (data + 104) 8

/-- `data->buffer`. -/
def buffer (s : Segment) (data : Nat) : Nat := loadBytes s.mem (data + 128) 8

/-- `arax_ptr_valid`. -/
def araxPtrValid (s : Segment) (ptr : Nat) : Bool :=
  if ptr < s.pipe then false else decide (ptr < (s.pipe + s.shmSize) % 2 ^ 64)

/-- `arax_data_init_aligned` with the block that the allocator returned: `arax_object_register` sets
the type and puts the object into the list, and then come the back pointer and the fields. -/
def araxDataInitAligned (s : Segment) (data size align : Nat) : Option Segment :=
  if align = 0 then none
  else
    let buffPtr := alignedBuffer data align
    let registered := storeBytes s.mem (data + 40) 4 araxTypeData
    let backPointer := storeBytes registered (sizeSub buffPtr 8) 8 data
    let sized := storeBytes backPointer (data + 104) 8 size
    let buffered := storeBytes sized (data + 128) 8 buffPtr
    let aligned := storeBytes buffered (data + 112) 8 align
    let flagged := storeBytes aligned (data + 120) 8 0
    some { s with mem := storeBytes flagged (data + 136) 8 0, datas := data :: s.datas }

/-- `arax_data_deref`. The macro `arax_assert_obj` declares its function and does not call it. -/
def araxDataDeref (s : Segment) (data : Nat) : Nat := s.buffer data

/-- `VD_BUFF_OWNER`. -/
def vdBuffOwner (s : Segment) (buff : Nat) : Option Nat := s.read (sizeSub buff 8) 8

/-- `arax_data_ref`: the outer `none` is the abort of its assertion or a read outside the segment,
the inner one is `NULL`. Only the address itself is known to be in the segment when the type is
read. -/
def araxDataRef (s : Segment) (data : Nat) : Option (Option Nat) :=
  if data = 0 then none
  else (s.vdBuffOwner data).bind fun vdata =>
    if vdata = 0 then some none
    else if s.araxPtrValid vdata = false then some none
    else (s.objType vdata).map fun type => if type = araxTypeData then some vdata else none

end Segment

/-! ### The layout of one block -/

/-- The block of `data` after its initialisation. -/
structure BufferLayout (s : Segment) (data size align : Nat) : Prop where
  aligned : s.buffer data % align = 0
  /-- The back pointer is behind the struct, in the eight bytes before the buffer. -/
  slot : data + sizeofData + 8 ≤ s.buffer data
  block : s.buffer data + size ≤ data + (sizeofData + araxBuffAllocSize size align) % 2 ^ 64
  back : s.araxDataRef (s.araxDataDeref data) = some (some data)

/-! ### What the initialisation stores -/

/-- The object after `arax_data_init_aligned`: its fields, its back pointer, and that no byte
outside these is changed. -/
structure Initialised (s t : Segment) (data size align : Nat) : Prop where
  pipe : t.pipe = s.pipe
  shmSize : t.shmSize = s.shmSize
  datas : t.datas = data :: s.datas
  objType : loadBytes t.mem (data + 40) 4 = araxTypeData
  dataSize : t.dataSize data = size
  buffer : t.buffer data = alignedBuffer data align
  owner : loadBytes t.mem (sizeSub (alignedBuffer data align) 8) 8 = data
  frame : ∀ i, (i < data ∨ data + sizeofData ≤ i) → (i < sizeSub (alignedBuffer data align) 8 ∨
    sizeSub (alignedBuffer data align) 8 + 8 ≤ i) → t.mem i = s.mem i

section Layout

variable {s t : Segment} {data size align : Nat}

theorem alignedBuffer_lt (data align : Nat) : alignedBuffer data align < 2 ^ 64 :=
  Nat.mod_lt _ (by decide)

theorem initialised (init : s.araxDataInitAligned data size align = some t)
    (address : data < 2 ^ 64) (sized : size < 2 ^ 64)
    (behind : data + sizeofData ≤ sizeSub (alignedBuffer data align) 8) :
    Initialised s t data size align := by
  unfold Segment.araxDataInitAligned at init
  split_ifs at init with zero
  cases init
  have buffered := alignedBuffer_lt data align
  unfold sizeofData at behind
  constructor
  case pipe => rfl
  case shmSize => rfl
  case datas => rfl
  case objType =>
    simp (disch := omega) only [loadBytes_store_apart]
    exact loadBytes_store (by decide)
  case dataSize =>
    unfold Segment.dataSize
    simp (disch := omega) only [loadBytes_store_apart]
    exact loadBytes_store sized
  case buffer =>
    unfold Segment.buffer
    simp (disch := omega) only [loadBytes_store_apart]
    exact loadBytes_store buffered
  case owner =>
    simp (disch := omega) only [loadBytes_store_apart]
    exact loadBytes_store address
  case frame =>
    intro i header slot
    unfold sizeofData at header
    simp (disch := omega) only [storeBytes_outside]

/-- The aligned pointer, in a block that ends before the address space does. -/
theorem alignedBuffer_eq (positive : 0 < align)
    (room : data + sizeofData + size + align + 8 < 2 ^ 64) : alignedBuffer data align =
      data + sizeofData + 8 + (align - (data + sizeofData + 8) % align) := by
  have less := Nat.mod_lt (data + sizeofData + 8) positive
  unfold alignedBuffer
  simp only [Nat.mod_eq_of_lt (show data + sizeofData + 8 < 2 ^ 64 by omega)]
  generalize (data + sizeofData + 8) % align = past at less ⊢
  rw [Nat.mod_eq_of_lt (by omega)]
  omega

/-- The step forward ends on a multiple. -/
theorem add_sub_mod_mod (base align : Nat) (positive : 0 < align) :
    (base + (align - base % align)) % align = 0 := by
  have less := Nat.mod_lt base positive
  have parts := Nat.div_add_mod base align
  have whole : base + (align - base % align) = align * (base / align + 1) := by
    rw [Nat.mul_add, Nat.mul_one]
    omega
  rw [whole, Nat.mul_mod_right]

/-- The alignment moves the pointer by 1 to `align` bytes. -/
theorem alignedBuffer_bounds (positive : 0 < align)
    (room : data + sizeofData + size + align + 8 < 2 ^ 64) :
    data + sizeofData + 8 < alignedBuffer data align ∧
      alignedBuffer data align ≤ data + sizeofData + 8 + align := by
  have less := Nat.mod_lt (data + sizeofData + 8) positive
  rw [alignedBuffer_eq positive room]
  omega

theorem Segment.read_eq {a n : Nat} (low : s.pipe ≤ a) (high : a + n ≤ s.pipe + s.shmSize) :
    s.read a n = some (loadBytes s.mem a n) :=
  if_pos ⟨low, high⟩

/-- The type of a new object, where its struct is in the segment. -/
theorem Initialised.tag (after : Initialised s t data size align) (low : s.pipe ≤ data)
    (high : data + sizeofData ≤ s.pipe + s.shmSize) : t.objType data = some araxTypeData := by
  have pipe := after.pipe
  have shmSize := after.shmSize
  unfold sizeofData at high
  unfold Segment.objType
  rw [Segment.read_eq (by omega) (by omega), after.objType]

/-- Its back pointer, where this is in the segment. -/
theorem Initialised.backPointer (after : Initialised s t data size align)
    (low : s.pipe ≤ sizeSub (alignedBuffer data align) 8)
    (high : sizeSub (alignedBuffer data align) 8 + 8 ≤ s.pipe + s.shmSize) :
    t.vdBuffOwner (alignedBuffer data align) = some data := by
  have pipe := after.pipe
  have shmSize := after.shmSize
  unfold Segment.vdBuffOwner
  rw [Segment.read_eq (by omega) (by omega), after.owner]

/-- The address of an object leads to the object. -/
theorem araxDataRef_owner {p : Nat} (here : p ≠ 0) (owner : s.vdBuffOwner p = some data)
    (address : data ≠ 0) (valid : s.araxPtrValid data = true)
    (tag : s.objType data = some araxTypeData) : s.araxDataRef p = some (some data) := by
  unfold Segment.araxDataRef
  rw [owner, if_neg here, Option.bind_some, if_neg address, valid, if_neg (by decide), tag,
    Option.map_some, if_pos rfl]

/-- The block is long enough for the struct, the pointer, the buffer and its alignment. -/
theorem araxBuffAllocSize_eq (room : data + sizeofData + size + align + 8 < 2 ^ 64) :
    (sizeofData + araxBuffAllocSize size align) % 2 ^ 64 = sizeofData + (size + align + 8) := by
  unfold araxBuffAllocSize
  rw [Nat.mod_eq_of_lt (a := size + align + 8) (by omega), Nat.mod_eq_of_lt (by omega)]

/-- The end of the segment is not the end of the address space. -/
theorem end_lt_of_valid (space : s.pipe + s.shmSize ≤ 2 ^ 64)
    (address : s.araxPtrValid data = true) :
    s.pipe ≤ data ∧ s.pipe + s.shmSize < 2 ^ 64 := by
  unfold Segment.araxPtrValid at address
  split_ifs at address with low
  refine ⟨Nat.le_of_not_lt low, Nat.lt_of_le_of_ne space fun whole => ?_⟩
  rw [whole, Nat.mod_self] at address
  simp at address

/-- An object in a block of the segment has the layout. -/
theorem bufferLayout_of_init (segment : 0 < s.pipe) (space : s.pipe + s.shmSize ≤ 2 ^ 64)
    (address : s.araxPtrValid data = true) (positive : 0 < align)
    (block : data + sizeofData + size + align + 8 ≤ s.pipe + s.shmSize)
    (init : s.araxDataInitAligned data size align = some t) : BufferLayout t data size align := by
  obtain ⟨low, fits⟩ := end_lt_of_valid space address
  have room : data + sizeofData + size + align + 8 < 2 ^ 64 := by omega
  have bounds := alignedBuffer_bounds positive room
  have slot : sizeSub (alignedBuffer data align) 8 = alignedBuffer data align - 8 := by
    have small := alignedBuffer_lt data align
    unfold sizeSub
    omega
  have after := initialised init (by omega) (by omega) (by omega)
  refine ⟨?_, ?_, ?_, ?_⟩
  · rw [after.buffer, alignedBuffer_eq positive room]
    exact add_sub_mod_mod _ _ positive
  · rw [after.buffer]
    exact bounds.1.le
  · rw [after.buffer, araxBuffAllocSize_eq room]
    omega
  · show t.araxDataRef (t.buffer data) = _
    rw [after.buffer]
    have valid : t.araxPtrValid data = true := by
      unfold Segment.araxPtrValid at address ⊢
      rw [after.pipe, after.shmSize]
      exact address
    exact araxDataRef_owner (by omega) (after.backPointer (by omega) (by omega)) (by omega) valid
      (after.tag low (by omega))

/-- An alignment of at least 1 passes the assertion. -/
theorem araxDataInitAligned_some (s : Segment) (data size : Nat) (positive : 0 < align) :
    ∃ t, s.araxDataInitAligned data size align = some t := by
  unfold Segment.araxDataInitAligned
  exact ⟨_, if_neg (Nat.ne_of_gt positive)⟩

/-- **The layout of a buffer.** For every block that the allocator returns: its address is in the
segment, and so are all its bytes. -/
theorem data_layout (s : Segment) (data size align : Nat) (segment : 0 < s.pipe)
    (space : s.pipe + s.shmSize ≤ 2 ^ 64) (address : s.araxPtrValid data = true)
    (positive : 1 ≤ align)
    (block : data + sizeofData + size + align + 8 ≤ s.pipe + s.shmSize) :
    ∃ t, s.araxDataInitAligned data size align = some t ∧ BufferLayout t data size align := by
  obtain ⟨t, init⟩ := araxDataInitAligned_some s data size positive
  exact ⟨t, init, bufferLayout_of_init segment space address positive block init⟩

/-- An alignment that is not a power of two. -/
theorem data_layout_at_24 : ∃ t, (Segment.mk 0x10000 0x10000 (fun _ => 0#8) []).araxDataInitAligned
    0x12000 16 24 = some t ∧ BufferLayout t 0x12000 16 24 :=
  data_layout (Segment.mk 0x10000 0x10000 (fun _ => 0#8) []) 0x12000 16 24 (by decide) (by decide)
    (by decide) (by decide) (by decide)

end Layout

end Arax.Core
