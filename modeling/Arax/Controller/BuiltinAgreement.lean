/-
**When the builtin handlers of a device agree with the ones of the CPU
(`controller/src/Cuda/CUDABuiltins.cu`, `controller/src/ROCm/HIPBuiltins.cpp`,
`controller/src/OpenCL/OpenclBuiltins.cpp`).**

A handler of a device checks the task and allocates, copies or fills, and then marks the task done
or frees it. The three parts are compared with the CPU one by one. What is read from where shows
when all bytes in shared memory are zeros and all bytes on the device are ones.

* `builtin_ok_iff` — a handler in its three parts.
* `sameAsCpu_iff` — the handler beside the one of the CPU.
* `builtins_agree_iff` — a task is executed as on the CPU, whatever the bytes are, exactly if it is
  supported.
-/

import Arax.Controller.Builtins

namespace Arax.Controller

open Arax.Lib
open Arax.Utils (sizeSub sizeSub_of_le)

namespace BuiltinState

variable {b : RemoteBackend} {s t u : BuiltinState} {op : Builtin} {d : Nat}

/-! ### What a device does -/

/-- What the handlers of a device do before the copy or the fill. -/
def prepare (b : RemoteBackend) (s : BuiltinState) : Builtin → Except BuiltinFault BuiltinState
  | .memcpy src dst args => s.memcpyChecks b src dst args
  | .memset data _ => s.allocNoThrottle b data

/-- The copy or the fill, in range. -/
def deviceWrite (b : RemoteBackend) (s : BuiltinState) (op : Builtin) : BuiltinState :=
  match b, op with
  | .openCl, .memcpy src dst args =>
    s.clMemcpyD2D src dst (s.size src) args.srcOffset args.dstOffset
  | .openCl, .memset data args => s.clMemset data args.value args.dataOffset (s.size data)
  | _, op => s.writeMemory op.target op.start op.length (op.news s.memory)

/-- What the handlers of a device do to the task. -/
def finish (b : RemoteBackend) (s : BuiltinState) : Builtin → BuiltinState
  | .memcpy _ _ args =>
    if b = .cuda ∧ args.sync = false then s else s.finished (if args.sync then 0 else 1)
  | .memset _ _ => s.finished (if b = .openCl then 1 else 0)

/-- The handler treats the task as the CPU does. -/
def Finishes (b : RemoteBackend) : Builtin → Prop
  | .memcpy _ _ args => b = .cuda → args.sync = true
  | .memset _ _ => b ≠ .openCl

theorem finish_contents : (s.finish b op).contents = s.contents := by
  cases op with
  | memcpy src dst args =>
    show (if b = .cuda ∧ args.sync = false then s
      else s.finished (if args.sync then 0 else 1)).contents = s.contents
    split_ifs <;> rfl
  | memset data args => rfl

/-- `Prepared s t op` — the data of the task are on the device, and nothing else changed. -/
structure Prepared (s t : BuiltinState) (op : Builtin) : Prop where
  size : t.size = s.size
  buffer : t.buffer = s.buffer
  memory : t.memory = s.memory
  refs : t.refs = s.refs
  remote : t.remote = Function.update (Function.update s.remote op.target true) op.source true
  room : s.remote op.target = true ∨ s.size op.target ≤ s.available

/-- `alloc_no_throttle` leaves the data on the device. -/
theorem allocNoThrottle_eq (run : s.allocNoThrottle b d = .ok t) :
    (s.remote d = true ∨ s.size d ≤ s.available) ∧
      t = { s with available := t.available, remote := Function.update s.remote d true } := by
  unfold allocNoThrottle at run
  split_ifs at run with on short fits
  · cases run
    refine ⟨Or.inl on, ?_⟩
    rw [← on, Function.update_eq_self]
  · cases run
    exact ⟨Or.inr (Nat.le_of_not_lt short), rfl⟩

/-- Data that is on the device, or for which there is memory. -/
theorem allocNoThrottle_ok
    (room : s.remote d = true ∨ (s.size d ≤ s.available ∧ b.allocates (s.size d))) :
    ∃ t, s.allocNoThrottle b d = .ok t := by
  unfold allocNoThrottle
  by_cases on : s.remote d = true
  · exact ⟨s, if_pos on⟩
  · obtain ⟨available, fits⟩ := room.resolve_left on
    rw [if_neg on, if_neg (Nat.not_lt.mpr available), if_pos fits]
    exact ⟨_, rfl⟩

/-- The checks, if they pass. -/
theorem prepare_spec (run : s.prepare b op = .ok t) : s.Prepared t op := by
  cases op with
  | memset data args =>
    obtain ⟨room, equal⟩ := allocNoThrottle_eq run
    rw [equal]
    exact ⟨rfl, rfl, rfl, rfl, (Function.update_idem _ _ _).symm, room⟩
  | memcpy src dst args =>
    simp only [prepare, memcpyChecks] at run
    split_ifs at run
    obtain ⟨mid, first, run⟩ := bind_eq_ok.mp run
    obtain ⟨last, second, run⟩ := bind_eq_ok.mp run
    split_ifs at run
    cases run
    obtain ⟨room, equal⟩ := allocNoThrottle_eq first
    obtain ⟨-, later⟩ := allocNoThrottle_eq second
    rw [later, equal]
    exact ⟨rfl, rfl, rfl, rfl, rfl, room⟩

/-- In range, the checks pass if there is memory for what is written, and the source is there. -/
theorem prepare_ok (inRange : s.InRange op)
    (room : s.remote op.target = true ∨
      (s.size op.target ≤ s.available ∧ b.allocates (s.size op.target)))
    (source : op.source ≠ op.target → s.remote op.source = true) :
    ∃ t, s.prepare b op = .ok t := by
  obtain ⟨mid, first⟩ := allocNoThrottle_ok room
  cases op with
  | memset data args => exact ⟨mid, first⟩
  | memcpy src dst args =>
    obtain ⟨apart, sized, inSrc, -, inDst, -⟩ := inRange
    have source : s.remote src = true := source apart
    obtain ⟨-, equal⟩ := allocNoThrottle_eq first
    have size : mid.size = s.size := by rw [equal]
    have on : mid.remote src = true := by
      rw [equal]
      exact (Function.update_of_ne apart _ _).trans source
    have dstFits : ¬sizeSub (mid.size dst) args.dstOffset < args.size := by
      rw [sizeSub_of_le (mid.sizeT dst) (by rw [size]; omega), size]
      omega
    have srcFits : ¬sizeSub (mid.size src) args.srcOffset < args.size := by
      rw [sizeSub_of_le (mid.sizeT src) (by rw [size]; omega), size]
      omega
    refine ⟨mid, ?_⟩
    simp only [prepare, memcpyChecks]
    rw [if_neg (Nat.ne_of_gt sized)]
    refine bind_eq_ok.mpr ⟨mid, first, bind_eq_ok.mpr ⟨mid, if_pos on, ?_⟩⟩
    rw [if_neg dstFits, if_neg srcFits]
    rfl

theorem memcpyAsync_eq {src dst srcOffset dstOffset n : Nat} (inSrc : srcOffset + n ≤ s.size src)
    (inDst : dstOffset + n ≤ s.size dst) : s.memcpyAsync src dst srcOffset dstOffset n =
      .ok (s.writeMemory dst dstOffset n fun k => s.memory src (srcOffset + k)) :=
  if_neg (not_or.mpr ⟨Nat.not_lt.mpr inSrc, Nat.not_lt.mpr inDst⟩)

theorem memsetAsync_eq {start n : Nat} {value : BitVec 32} (inData : start + n ≤ s.size d) :
    s.memsetAsync d start value n = .ok (s.writeMemory d start n fun _ => value.setWidth 8) :=
  if_neg (Nat.not_lt.mpr inData)

theorem clMemcpyD2D_refs {src dst size srcOffset dstOffset : Nat} :
    (s.clMemcpyD2D src dst size srcOffset dstOffset).refs = s.refs := by
  unfold clMemcpyD2D
  split_ifs <;> rfl

theorem clMemset_refs {start size : Nat} {pattern : BitVec 32} :
    (s.clMemset d pattern start size).refs = s.refs := by
  unfold clMemset
  split_ifs <;> rfl

/-- A handler of a device in three parts: the checks, the copy or fill, and the task. -/
theorem builtin_ok_iff (held : 2 ≤ s.refs) (inRange : s.InRange op) :
    s.builtin b op = .ok u ↔
      ∃ t, s.prepare b op = .ok t ∧ (t.deviceWrite b op).finish b op = u := by
  have parts (rest : BuiltinState → Except BuiltinFault BuiltinState)
      (whole : s.builtin b op = s.prepare b op >>= rest)
      (each : ∀ t, s.Prepared t op → rest t = .ok ((t.deviceWrite b op).finish b op)) :
      s.builtin b op = .ok u ↔
        ∃ t, s.prepare b op = .ok t ∧ (t.deviceWrite b op).finish b op = u := by
    rw [whole, bind_eq_ok]
    refine exists_congr fun t => and_congr_right fun run => ?_
    rw [each t (prepare_spec run)]
    exact ⟨Except.ok.inj, congrArg Except.ok⟩
  cases op with
  | memcpy src dst args =>
    obtain ⟨-, -, inSrc, -, inDst, -⟩ := inRange
    cases b with
    | cuda =>
      refine parts _ rfl fun t prepared => ?_
      have held : 2 ≤ t.refs := prepared.refs.symm ▸ held
      rw [memcpyAsync_eq (prepared.size.symm ▸ inSrc) (prepared.size.symm ▸ inDst)]
      show (if args.sync = false then pure _ else markDone _) = Except.ok (if _ then _ else _)
      by_cases sync : args.sync = false
      · rw [if_pos sync, if_pos ⟨rfl, sync⟩]
        rfl
      · rw [if_neg sync, if_neg fun both => sync both.2, if_pos (Bool.not_eq_false _ ▸ sync)]
        exact markDone_eq (s := t.writeMemory dst _ _ _) held
    | hip =>
      refine parts _ rfl fun t prepared => ?_
      have held : 2 ≤ t.refs := prepared.refs.symm ▸ held
      rw [memcpyAsync_eq (prepared.size.symm ▸ inSrc) (prepared.size.symm ▸ inDst)]
      exact taskFree_markDone (s := t.writeMemory dst _ _ _) held args.sync
    | openCl =>
      refine parts _ rfl fun t prepared => ?_
      have held : 2 ≤ t.refs := prepared.refs.symm ▸ held
      exact markDone_taskFree (clMemcpyD2D_refs.symm ▸ held) args.sync
  | memset data args =>
    obtain ⟨-, inData, -⟩ := inRange
    cases b with
    | cuda =>
      refine parts _ rfl fun t prepared => ?_
      have held : 2 ≤ t.refs := prepared.refs.symm ▸ held
      rw [memsetAsync_eq (prepared.size.symm ▸ inData)]
      exact markDone_eq (s := t.writeMemory data _ _ _) held
    | hip =>
      refine parts _ rfl fun t prepared => ?_
      have held : 2 ≤ t.refs := prepared.refs.symm ▸ held
      rw [memsetAsync_eq (prepared.size.symm ▸ inData)]
      exact markDone_eq (s := t.writeMemory data _ _ _) held
    | openCl =>
      refine parts _ rfl fun t prepared => ?_
      have held : 2 ≤ t.refs := prepared.refs.symm ▸ held
      exact markDone_taskFree (clMemset_refs.symm ▸ held) false

theorem deviceWrite_refs : (s.deviceWrite b op).refs = s.refs := by
  unfold deviceWrite
  split
  · exact clMemcpyD2D_refs
  · exact clMemset_refs
  · rfl

/-- When the task is left as the CPU leaves it. -/
theorem finish_iff (held : 2 ≤ s.refs) (same : t.refs = s.refs) :
    ((t.finish b op).done = true ∧ (t.finish b op).refs = s.refs - cpuDrops op) ↔
      Finishes b op := by
  cases op with
  | memcpy src dst args =>
    unfold finish Finishes cpuDrops
    by_cases lost : b = .cuda ∧ args.sync = false
    · simp only [if_pos lost]
      rw [same, lost.2]
      refine iff_of_false (fun both => ?_) fun waits => Bool.false_ne_true (waits lost.1)
      have kept : s.refs = s.refs - 1 := both.2
      omega
    · simp only [if_neg lost]
      refine iff_of_true ⟨rfl, congrArg (· - _) same⟩ fun cuda => ?_
      exact Bool.eq_true_of_not_eq_false fun sync => lost ⟨cuda, sync⟩
  | memset data args =>
    unfold finish Finishes cpuDrops
    by_cases openCl : b = .openCl
    · simp only [if_pos openCl]
      refine iff_of_false (fun both => ?_) fun other => other openCl
      have kept : t.refs - 1 = s.refs - 0 := both.2
      omega
    · simp only [if_neg openCl]
      exact iff_of_true ⟨rfl, congrArg (· - _) same⟩ openCl

/-- **The two handlers side by side.** -/
theorem sameAsCpu_iff (held : 2 ≤ s.refs) (inRange : s.InRange op) :
    s.SameAsCpu b op ↔ Finishes b op ∧ ∃ t, s.prepare b op = .ok t ∧
      ∀ d i, i < s.size d → (t.deviceWrite b op).contents d i = meant s.contents op d i := by
  obtain ⟨host, hostRun, bytes, done, drops⟩ := cpu_meant held inRange
  have task {t : BuiltinState} (run : s.prepare b op = .ok t) :
      (((t.deviceWrite b op).finish b op).done = true ∧
        ((t.deviceWrite b op).finish b op).refs = s.refs - cpuDrops op) ↔ Finishes b op :=
    finish_iff held (deviceWrite_refs.trans (prepare_spec run).refs)
  constructor
  · rintro ⟨t, u, tRun, uRun, same, sameDone, sameRefs⟩
    cases hostRun.symm.trans tRun
    obtain ⟨t, run, rfl⟩ := (builtin_ok_iff held inRange).mp uRun
    refine ⟨(task run).mp ⟨sameDone.trans done, sameRefs.trans drops⟩, t, run, fun d i small => ?_⟩
    rw [← bytes, ← same d i small, finish_contents]
  · rintro ⟨finishes, t, run, same⟩
    obtain ⟨marked, refs⟩ := (task run).mpr finishes
    refine ⟨host, _, hostRun, (builtin_ok_iff held inRange).mpr ⟨t, run, rfl⟩, fun d i small => ?_,
      marked.trans done.symm, refs.trans drops.symm⟩
    rw [finish_contents, same d i small, bytes]

/-! ### The bytes -/

theorem clInt_eq {n : Nat} (small : n < 2 ^ 31) : clInt n = n := by
  unfold clInt
  rw [BitVec.signExtend_eq_setWidth_of_msb_false]
  · rw [BitVec.toNat_setWidth, BitVec.toNat_ofNat, Nat.mod_eq_of_lt (by omega),
      Nat.mod_eq_of_lt (by omega)]
  · rw [BitVec.msb_eq_false_iff_two_mul_lt, BitVec.toNat_ofNat, Nat.mod_eq_of_lt (by omega)]
    omega

/-- The data that is written is on the device by now. -/
theorem Prepared.target_on (prepared : s.Prepared t op) : t.remote op.target = true := by
  rw [prepared.remote]
  by_cases same : op.target = op.source
  · rw [same, Function.update_self]
  · rw [Function.update_of_ne same, Function.update_self]

theorem Prepared.target_contents (prepared : s.Prepared t op) :
    t.contents op.target = s.memory op.target := by
  unfold contents
  rw [if_pos prepared.target_on, prepared.memory]

/-- The data that is not written keeps its contents if the source was on the device. -/
theorem Prepared.other_contents (prepared : s.Prepared t op)
    (source : op.source ≠ op.target → s.remote op.source = true) (other : d ≠ op.target) :
    t.contents d = s.contents d := by
  have on : t.remote d = s.remote d := by
    rw [prepared.remote]
    by_cases same : d = op.source
    · rw [same, Function.update_self, source (same ▸ other)]
    · rw [Function.update_of_ne same, Function.update_of_ne other]
  unfold contents
  rw [on, prepared.memory, prepared.buffer]

/-- What a supported task writes on the device. -/
theorem deviceWrite_eq (inRange : s.InRange op) (supported : s.Supported b op)
    (size : t.size = s.size) :
    t.deviceWrite b op = t.writeMemory op.target op.start op.length (op.news t.memory) := by
  obtain ⟨-, supported⟩ := supported
  cases op with
  | memset data args =>
    cases b with
    | openCl => exact absurd rfl supported
    | cuda => rfl
    | hip => rfl
  | memcpy src dst args =>
    cases b with
    | cuda => rfl
    | hip => rfl
    | openCl =>
      obtain ⟨-, -, -, -, -, dstSmall⟩ := inRange
      obtain ⟨-, first, whole, inDst⟩ := supported
      show t.clMemcpyD2D src dst (t.size src) args.srcOffset args.dstOffset =
        t.writeMemory dst args.dstOffset args.size fun k => t.memory src (args.srcOffset + k)
      unfold clMemcpyD2D
      rw [size, whole, clInt_eq (show args.dstOffset < 2 ^ 31 by omega), first,
        clInt_eq (show 0 < 2 ^ 31 by decide), if_neg (by omega)]

theorem Supported.finishes (supported : s.Supported b op) : Finishes b op := by
  obtain ⟨-, supported⟩ := supported
  cases op with
  | memset data args => exact supported
  | memcpy src dst args =>
    intro cuda
    subst cuda
    exact supported.2

theorem Supported.source (supported : s.Supported b op) (other : op.source ≠ op.target) :
    s.remote op.source = true := by
  obtain ⟨-, supported⟩ := supported
  cases op with
  | memset data args => exact absurd rfl other
  | memcpy src dst args => exact supported.1

/-- What a supported task reads is on the device. -/
theorem Supported.news (supported : s.Supported b op) (inRange : s.InRange op) :
    op.news s.memory = op.news s.contents := by
  cases op with
  | memset data args => rfl
  | memcpy src dst args =>
    have on : s.contents src = s.memory src := if_pos (supported.source inRange.1)
    funext k
    show s.memory src (args.srcOffset + k) = s.contents src (args.srcOffset + k)
    rw [on]

/-- There is memory for data that a task writes as a whole. -/
theorem InRange.allocates (inRange : s.InRange op) (whole : op.length = s.size op.target) :
    b.allocates (s.size op.target) := by
  have bounds : 0 < op.length ∧ op.length < 2 ^ 31 := by
    cases op with
    | memset data args =>
      obtain ⟨sized, -, small⟩ := inRange
      exact ⟨sized, by simp only [Builtin.length]; omega⟩
    | memcpy src dst args =>
      obtain ⟨-, sized, -, -, -, small⟩ := inRange
      exact ⟨sized, by simp only [Builtin.length]; omega⟩
  rw [whole] at bounds
  cases b with
  | cuda => exact bounds.1
  | hip => exact bounds.1
  | openCl =>
    show 0 < clInt _ ∧ clInt _ < 2 ^ 31
    rw [clInt_eq bounds.2]
    exact bounds

/-- A supported task is executed as on the CPU. -/
theorem same_of_supported (held : 2 ≤ s.refs) (inRange : s.InRange op)
    (supported : s.Supported b op) : s.SameAsCpu b op := by
  have room : s.remote op.target = true ∨
      (s.size op.target ≤ s.available ∧ b.allocates (s.size op.target)) :=
    supported.1.imp_right fun ⟨_, whole, room⟩ => ⟨room, inRange.allocates whole⟩
  obtain ⟨t, run⟩ := prepare_ok inRange room supported.source
  have prepared := prepare_spec run
  refine (sameAsCpu_iff held inRange).mpr ⟨supported.finishes, t, run, fun d i small => ?_⟩
  rw [deviceWrite_eq inRange supported prepared.size, writeMemory_contents prepared.target_on,
    prepared.target_contents, prepared.memory, supported.news inRange]
  unfold meant
  by_cases same : d = op.target
  · subst same
    rw [Function.update_self, Function.update_self]
    rcases supported.1 with on | ⟨start, whole, -⟩
    · rw [show s.contents op.target = s.memory op.target from if_pos on]
    · rw [start]
      exact overwrite_whole _ (whole ▸ small)
  · rw [Function.update_of_ne same, Function.update_of_ne same,
      prepared.other_contents supported.source same]

/-- A device on which all bytes are the same writes that byte, whatever it copies. -/
theorem deviceWrite_const {x : BitVec 8} {src dst : Nat} {args : MemcpyArgs}
    (on : s.remote dst = true) (same : s.memory = fun _ _ => x) :
    (s.deviceWrite b (.memcpy src dst args)).contents dst = fun _ => x := by
  have here : s.contents dst = fun _ => x := by
    unfold contents
    rw [if_pos on, same]
  have written (start n : Nat) : (s.writeMemory dst start n fun _ => x).contents dst =
      fun _ => x := by
    rw [writeMemory_contents on, Function.update_self, here, overwrite_const]
  cases b with
  | cuda =>
    show (s.writeMemory dst args.dstOffset args.size fun k => s.memory src _).contents dst = _
    rw [same, written]
  | hip =>
    show (s.writeMemory dst args.dstOffset args.size fun k => s.memory src _).contents dst = _
    rw [same, written]
  | openCl =>
    show (s.clMemcpyD2D src dst (s.size src) args.srcOffset args.dstOffset).contents dst = _
    unfold clMemcpyD2D
    split_ifs with outside
    · exact here
    · rw [same, written]

/-- The two handlers, on other bytes. -/
theorem filled_same {buffer memory : Nat → Nat → BitVec 8} (held : 2 ≤ s.refs)
    (inRange : s.InRange op) (same : (s.filled buffer memory).SameAsCpu b op) :
    Finishes b op ∧ ∃ t, (s.filled buffer memory).prepare b op = .ok t ∧
      ∀ d i, i < s.size d →
        (t.deviceWrite b op).contents d i = meant (s.filled buffer memory).contents op d i := by
  have held : 2 ≤ (s.filled buffer memory).refs := held
  have inRange : (s.filled buffer memory).InRange op := inRange
  exact (sameAsCpu_iff held inRange).mp same

/-- OpenCL copies the whole source, so it has to be what the task copies. -/
theorem openCl_whole {src dst : Nat} {args : MemcpyArgs} (held : 2 ≤ s.refs)
    (inRange : s.InRange (.memcpy src dst args)) (on : s.remote src = true)
    (same : ∀ buffer memory, (s.filled buffer memory).SameAsCpu .openCl (.memcpy src dst args)) :
    args.srcOffset = 0 ∧ clInt (s.size src) = args.size ∧
      args.dstOffset + args.size ≤ clInt (s.size dst) := by
  -- Ones in the source and zeros in the destination show how much is copied.
  let memory : Nat → Nat → BitVec 8 := fun d _ => if d = src then 1 else 0
  obtain ⟨-, t, run, bytes⟩ := filled_same held inRange (same (fun _ _ => 0) memory)
  have prepared := prepare_spec run
  obtain ⟨apart, sized, inSrc, srcSmall, inDst, dstSmall⟩ := inRange
  have srcOnes : memory src = fun _ => 1 := funext fun _ => if_pos rfl
  have dstZeros : memory dst = fun _ => 0 := funext fun _ => if_neg apart.symm
  have before : (s.filled (fun _ _ => 0) memory).contents dst = fun _ => 0 := by
    unfold contents
    split_ifs
    · exact dstZeros
    · rfl
  have copied : (s.filled (fun _ _ => 0) memory).contents src = fun _ => 1 :=
    (if_pos on).trans srcOnes
  have size : t.size = s.size := prepared.size
  have held : t.memory = memory := prepared.memory
  have device : t.contents dst = fun _ => 0 := prepared.target_contents.trans dstZeros
  have target (i : Nat) (small : i < s.size dst) :
      (t.clMemcpyD2D src dst (t.size src) args.srcOffset args.dstOffset).contents dst i =
        overwrite (fun _ => 0) args.dstOffset args.size (fun _ => 1) i := by
    refine (bytes dst i small).trans ?_
    unfold meant
    simp only [Builtin.target, Builtin.start, Builtin.length, Builtin.news, Function.update_self,
      before, copied]
  unfold clMemcpyD2D at target
  rw [size, clInt_eq (show args.srcOffset < 2 ^ 31 by omega),
    clInt_eq (show args.dstOffset < 2 ^ 31 by omega)] at target
  split_ifs at target with outside
  · have here := target args.dstOffset (by omega)
    rw [device] at here
    have inside : overwrite (fun _ => (0 : BitVec 8)) args.dstOffset args.size (fun _ => 1)
        (args.dstOffset + 0) = 1 := overwrite_inside 0 sized
    have same : (0 : BitVec 8) = 1 := here.trans inside
    exact absurd same (by decide)
  · have written : (t.writeMemory dst args.dstOffset (clInt (s.size src)) fun k =>
        t.memory src (args.srcOffset + k)).contents dst =
        overwrite (fun _ => 0) args.dstOffset (clInt (s.size src)) fun _ => 1 := by
      have there : t.remote dst = true := prepared.target_on
      rw [writeMemory_contents there, Function.update_self, device, held, srcOnes]
    rw [written] at target
    have whole : clInt (s.size src) = args.size := by
      refine overwrite_length (by decide) inDst (fun more => ?_) target
      -- A destination that ends with the range is small enough for its size to be an `int`.
      by_contra ends
      have small : clInt (s.size dst) = s.size dst := clInt_eq (by omega)
      omega
    exact ⟨by omega, whole, by omega⟩

/-- Only a supported task is executed as on the CPU whatever the bytes are. -/
theorem supported_of_same (held : 2 ≤ s.refs) (inRange : s.InRange op)
    (same : ∀ buffer memory, (s.filled buffer memory).SameAsCpu b op) : s.Supported b op := by
  -- Zeros in shared memory and ones on the device show what is read from where.
  obtain ⟨finishes, t, run, bytes⟩ :=
    filled_same held inRange (same (fun _ _ => 0) fun _ _ => 1)
  have prepared := prepare_spec run
  have target := bytes op.target
  have differ : (1 : BitVec 8) ≠ 0 := by decide
  cases op with
  | memset data args =>
    obtain ⟨sized, inData, -⟩ := inRange
    refine ⟨?_, finishes⟩
    by_cases on : s.remote data = true
    · exact Or.inl on
    · have written : t.deviceWrite b (.memset data args) =
          t.writeMemory data args.dataOffset args.size fun _ => args.value.setWidth 8 := by
        cases b with
        | openCl => exact absurd rfl finishes
        | cuda => rfl
        | hip => rfl
      have there : t.remote data = true := prepared.target_on
      have device : t.contents data = fun _ => 1 := prepared.target_contents
      have before : (s.filled (fun _ _ => 0) fun _ _ => 1).contents data = fun _ => 0 := if_neg on
      rw [written] at target
      simp only [Builtin.target, writeMemory_contents there, meant,
        Builtin.start, Builtin.length, Builtin.news, Function.update_self, device, before] at target
      obtain ⟨start, whole⟩ := overwrite_covers differ inData sized target
      exact Or.inr ⟨start, whole, prepared.room.resolve_left on⟩
  | memcpy src dst args =>
    obtain ⟨apart, sized, inSrc, srcSmall, inDst, dstSmall⟩ := id inRange
    have device : (t.deviceWrite b (.memcpy src dst args)).contents dst = fun _ => 1 :=
      deviceWrite_const prepared.target_on prepared.memory
    simp only [Builtin.target, device, meant, Builtin.start, Builtin.length, Builtin.news,
      Function.update_self] at target
    have on : s.remote src = true := by
      by_contra off
      have before : (s.filled (fun _ _ => 0) fun _ _ => 1).contents src = fun _ => 0 := if_neg off
      have here := target (args.dstOffset + 0) (by omega)
      rw [overwrite_inside 0 sized, before] at here
      exact differ here
    refine ⟨?_, on, ?_⟩
    · by_cases there : s.remote dst = true
      · exact Or.inl there
      · have before : (s.filled (fun _ _ => 0) fun _ _ => 1).contents dst = fun _ => 0 :=
          if_neg there
        have copied : (s.filled (fun _ _ => 0) fun _ _ => 1).contents src = fun _ => 1 := if_pos on
        simp only [before, copied] at target
        obtain ⟨start, whole⟩ := overwrite_covers differ inDst sized fun i small => by
          rw [overwrite_const]
          exact target i small
        exact Or.inr ⟨start, whole, prepared.room.resolve_left there⟩
    · cases b with
      | cuda => exact finishes rfl
      | hip => trivial
      | openCl => exact openCl_whole held inRange on same

/-- **The builtin `memcpy` and `memset`.** The handlers of the CPU do what the task says, whatever
the bytes are, and the ones of the device do the same if and only if the task is supported. -/
theorem builtins_agree_iff (b : RemoteBackend) (s : BuiltinState) (op : Builtin)
    (held : 2 ≤ s.refs) (inRange : s.InRange op) :
    (∀ buffer memory, ∃ t, (s.filled buffer memory).onHost.cpuBuiltin op = .ok t ∧
      t.contents = meant (s.filled buffer memory).contents op ∧ t.done = true ∧
      t.refs = s.refs - cpuDrops op) ∧
    ((∀ buffer memory, (s.filled buffer memory).SameAsCpu b op) ↔ s.Supported b op) := by
  have again (buffer memory : Nat → Nat → BitVec 8) : (s.filled buffer memory).InRange op := inRange
  refine ⟨fun buffer memory => cpu_meant (s := s.filled buffer memory) held (again buffer memory),
    supported_of_same held inRange, fun supported buffer memory => ?_⟩
  have supported : (s.filled buffer memory).Supported b op := supported
  exact same_of_supported (s := s.filled buffer memory) held (again buffer memory) supported

/-- Two data of eight bytes on a device, the first with ones and the second with zeros. -/
def twoBuffers : BuiltinState where
  size := fun _ => 8
  sizeT := fun _ => by decide
  remote := fun _ => true
  buffer := fun _ _ => 0
  memory := fun d _ => if d = 0 then 1 else 0
  available := 0
  refs := 2
  done := false

/-- HIP copies four bytes for a client that does not wait. -/
theorem builtins_agree_at_four :
    twoBuffers.SameAsCpu .hip (.memcpy 0 1 ⟨2, 4, false, 4⟩) :=
  (builtins_agree_iff .hip twoBuffers (.memcpy 0 1 ⟨2, 4, false, 4⟩) (by decide)
    (by simp only [InRange]; decide)).2.mpr ⟨Or.inl rfl, rfl, trivial⟩
    twoBuffers.buffer twoBuffers.memory

/-- **Four of eight bytes with OpenCL.** All eight bytes of the source are copied. -/
theorem openCl_memcpy_differs :
    ¬∀ (b : RemoteBackend) (s : BuiltinState) (op : Builtin),
      2 ≤ s.refs → s.InRange op → s.SameAsCpu b op := by
  intro claimed
  obtain ⟨t, u, tRun, uRun, same, -⟩ := claimed .openCl twoBuffers
    (.memcpy 0 1 ⟨0, 0, true, 4⟩) (by decide) (by simp only [InRange]; decide)
  have host : (twoBuffers.onHost.cpuBuiltin (.memcpy 0 1 ⟨0, 0, true, 4⟩)).toOption.map
      (fun t => t.contents 1 4) = some 0 := by decide +kernel
  have device : (twoBuffers.builtin .openCl (.memcpy 0 1 ⟨0, 0, true, 4⟩)).toOption.map
      (fun u => u.contents 1 4) = some 1 := by decide +kernel
  rw [tRun] at host
  rw [uRun] at device
  have zero : t.contents 1 4 = 0 := Option.some.inj host
  have one : u.contents 1 4 = 1 := Option.some.inj device
  have here : u.contents 1 4 = t.contents 1 4 := same 1 4 (by decide)
  rw [zero, one] at here
  exact absurd here (by decide)

end BuiltinState

end Arax.Controller
