/-
**Which bytes the builtin `memcpy` touches (`controller/src/Cpu/CpuBuiltins.cpp`,
`controller/src/Cuda/CUDABuiltins.cu`, `controller/src/ROCm/HIPBuiltins.cpp`,
`controller/src/OpenCL/OpenclBuiltins.cpp`).**

The offsets and the size of a task come from the client. The handlers of the devices compare the
size with `arax_data_size - offset` on `size_t`, which wraps for an offset behind the end of the
data; the handler of the CPU compares nothing; and the one of OpenCL passes the size of the source
on, in 32 bits.

* `copySpan` — the bytes that a handler copies, `none` if it stops before, or is refused.
* `run_of_none`, `run_of_span` — the handlers of `Builtins` write these bytes and no others.
* `RangeChecked` — only bytes of the two ranges of the task, and only if these are in the data.
* `range_checked_iff` — exactly when this is so.
-/

import Arax.Controller.BuiltinAgreement

namespace Arax.Controller

open Arax.Lib
open Arax.Utils (sizeSub)

/-- Where a `memcpy` task is executed. -/
inductive MemcpyPlace where
  | cpu
  | remote (b : RemoteBackend)

/-- `n` bytes, in the source from `srcStart` on and in the destination from `dstStart` on. -/
structure CopySpan where
  srcStart : Nat
  dstStart : Nat
  n : Nat

/-- The two ranges of the task are in the data, as mathematical integers. -/
def MemcpyArgs.Within (args : MemcpyArgs) (sizeSrc sizeDst : Nat) : Prop :=
  args.srcOffset + args.size ≤ sizeSrc ∧ args.dstOffset + args.size ≤ sizeDst

/-- The arguments of a task that copies something. -/
structure MemcpyArgs.Wide (args : MemcpyArgs) : Prop where
  sized : 0 < args.size
  size : args.size < 2 ^ 64
  srcOffset : args.srcOffset < 2 ^ 64
  dstOffset : args.dstOffset < 2 ^ 64

/-- The copy touches only bytes of the ranges of the task, and only if these are in the data. -/
def RangeChecked (args : MemcpyArgs) (sizeSrc sizeDst : Nat) (span : Option CopySpan) : Prop :=
  ∀ c ∈ span, args.Within sizeSrc sizeDst ∧ ∀ k < c.n,
    (args.srcOffset ≤ c.srcStart + k ∧ c.srcStart + k < args.srcOffset + args.size) ∧
      (args.dstOffset ≤ c.dstStart + k ∧ c.dstStart + k < args.dstOffset + args.size)

/-! ### The condition -/

/-- An offset behind the end of the data, with a difference that wraps to `n` at least. -/
def WrapsPast (size offset n : Nat) : Prop := size < offset ∧ offset + n ≤ size + 2 ^ 64

/-- The guard of a range does not stop the task. -/
def LetsThrough (size offset n : Nat) : Prop := offset + n ≤ size ∨ WrapsPast size offset n

/-- The guard `size - offset < n` on `size_t`. -/
theorem letsThrough_iff {size offset n : Nat} (sized : 0 < n) (small : size < 2 ^ 64)
    (wide : offset < 2 ^ 64) : ¬sizeSub size offset < n ↔ LetsThrough size offset n := by
  unfold sizeSub LetsThrough WrapsPast
  omega

namespace BuiltinState

variable {b : RemoteBackend} {s t u : BuiltinState} {src dst : Nat} {args : MemcpyArgs}
  {place : MemcpyPlace}

/-- The handler of the task. -/
def memcpyAt (place : MemcpyPlace) (s : BuiltinState) (src dst : Nat) (args : MemcpyArgs) :
    Except BuiltinFault BuiltinState :=
  match place with
  | .cpu => s.cpuMemcpy src dst args
  | .remote b => s.builtin b (.memcpy src dst args)

/-- `clEnqueueCopyBuffer` refuses the arguments of `opencl_memcpy`. -/
def ClRefused (s : BuiltinState) (src dst : Nat) (args : MemcpyArgs) : Prop :=
  clInt (s.size src) = 0 ∨ clInt (s.size src) < clInt args.srcOffset + clInt (s.size src) ∨
    clInt (s.size dst) < clInt args.dstOffset + clInt (s.size src)

instance (s : BuiltinState) (src dst : Nat) (args : MemcpyArgs) :
    Decidable (s.ClRefused src dst args) := by
  unfold ClRefused
  infer_instance

/-- What the handler copies. -/
def copySpan (place : MemcpyPlace) (s : BuiltinState) (src dst : Nat) (args : MemcpyArgs) :
    Option CopySpan :=
  match place with
  | .cpu => if args.size = 0 then none else some ⟨args.srcOffset, args.dstOffset, args.size⟩
  | .remote b =>
    match s.memcpyChecks b src dst args with
    | .error _ => none
    | .ok _ =>
      match b with
      | .openCl =>
        if s.ClRefused src dst args then none
        else some ⟨clInt args.srcOffset, clInt args.dstOffset, clInt (s.size src)⟩
      | _ => some ⟨args.srcOffset, args.dstOffset, args.size⟩

/-- Both data are on the device, or there is memory for them. -/
def Allocates (b : RemoteBackend) (s : BuiltinState) (src dst : Nat) : Prop :=
  ∃ t u, s.allocNoThrottle b dst = .ok t ∧ t.allocNoThrottle b src = .ok u

/-- Neither the allocations nor the guards stop the task. -/
def Passes (b : RemoteBackend) (s : BuiltinState) (src dst : Nat) (args : MemcpyArgs) : Prop :=
  s.Allocates b src dst ∧ LetsThrough (s.size dst) args.dstOffset args.size ∧
    LetsThrough (s.size src) args.srcOffset args.size

/-- **The condition.** -/
def MemcpyExact (place : MemcpyPlace) (s : BuiltinState) (src dst : Nat) (args : MemcpyArgs) :
    Prop :=
  match place with
  | .cpu => args.Within (s.size src) (s.size dst)
  | .remote .openCl => s.Passes .openCl src dst args → ¬s.ClRefused src dst args →
      args.Within (s.size src) (s.size dst) ∧ args.srcOffset = 0 ∧
        clInt (s.size src) ≤ args.size ∧ args.dstOffset ≤ clInt args.dstOffset ∧
          clInt args.dstOffset + clInt (s.size src) ≤ args.dstOffset + args.size
  | .remote b => s.Passes b src dst args →
      ¬WrapsPast (s.size dst) args.dstOffset args.size ∧
        ¬WrapsPast (s.size src) args.srcOffset args.size

/-! ### The checks -/

/-- What the three devices check before they copy. -/
theorem memcpyChecks_ok_iff (wide : args.Wide) :
    (∃ t, s.memcpyChecks b src dst args = .ok t) ↔ s.Passes b src dst args := by
  have guards : ∀ u : BuiltinState, u.size = s.size →
      ((∃ t, (if sizeSub (u.size dst) args.dstOffset < args.size then
          (.error .abort : Except BuiltinFault BuiltinState)
        else if sizeSub (u.size src) args.srcOffset < args.size then .error .abort
        else pure u) = .ok t) ↔ LetsThrough (s.size dst) args.dstOffset args.size ∧
          LetsThrough (s.size src) args.srcOffset args.size) := by
    intro u size
    rw [size, ← letsThrough_iff wide.sized (s.sizeT dst) wide.dstOffset,
      ← letsThrough_iff wide.sized (s.sizeT src) wide.srcOffset]
    constructor
    · rintro ⟨t, run⟩
      split_ifs at run with first second
      exact ⟨first, second⟩
    · rintro ⟨first, second⟩
      exact ⟨u, by rw [if_neg first, if_neg second]; rfl⟩
  unfold memcpyChecks
  rw [if_neg (Nat.ne_of_gt wide.sized)]
  constructor
  · rintro ⟨t, run⟩
    obtain ⟨mid, first, run⟩ := bind_eq_ok.mp run
    obtain ⟨last, second, run⟩ := bind_eq_ok.mp run
    have size : last.size = s.size := by
      rw [(allocNoThrottle_eq second).2, (allocNoThrottle_eq first).2]
    exact ⟨⟨mid, last, first, second⟩, (guards last size).mp ⟨t, run⟩⟩
  · rintro ⟨⟨mid, last, first, second⟩, through⟩
    have size : last.size = s.size := by
      rw [(allocNoThrottle_eq second).2, (allocNoThrottle_eq first).2]
    obtain ⟨t, run⟩ := (guards last size).mpr through
    exact ⟨t, bind_eq_ok.mpr ⟨mid, first, bind_eq_ok.mpr ⟨last, second, run⟩⟩⟩

/-- The copy that CUDA, HIP and OpenCL make, by the checks. -/
theorem mem_remoteSpan {c : CopySpan} (wide : args.Wide) :
    c ∈ s.copySpan (.remote b) src dst args ↔ s.Passes b src dst args ∧
      match b with
      | .openCl => ¬s.ClRefused src dst args ∧
          c = ⟨clInt args.srcOffset, clInt args.dstOffset, clInt (s.size src)⟩
      | _ => c = ⟨args.srcOffset, args.dstOffset, args.size⟩ := by
  rw [← memcpyChecks_ok_iff wide]
  cases checks : s.memcpyChecks b src dst args with
  | error fault => simp [copySpan, checks]
  | ok t =>
    cases b with
    | openCl =>
      by_cases refused : s.ClRefused src dst args
      · simp [copySpan, checks, refused]
      · simp [copySpan, checks, refused, eq_comm]
    | cuda => simp [copySpan, checks, eq_comm]
    | hip => simp [copySpan, checks, eq_comm]

/-! ### The handlers make this copy -/

/-- The bytes of one state after a copy. -/
def Copied (place : MemcpyPlace) (s u : BuiltinState) (src dst : Nat) (c : CopySpan) : Prop :=
  match place with
  | .cpu => u.memory = s.memory ∧ u.buffer = Function.update s.buffer dst
      (overwrite (s.buffer dst) c.dstStart c.n fun k => s.buffer src (c.srcStart + k))
  | .remote _ => u.buffer = s.buffer ∧ u.memory = Function.update s.memory dst
      (overwrite (s.memory dst) c.dstStart c.n fun k => s.memory src (c.srcStart + k))

/-- The two states have the same bytes. -/
def SameBytes (s u : BuiltinState) : Prop := u.memory = s.memory ∧ u.buffer = s.buffer

theorem markDone_bytes (run : s.markDone = .ok u) : s.SameBytes u := by
  unfold markDone at run
  split_ifs at run
  cases run
  exact ⟨rfl, rfl⟩

theorem taskFree_bytes (run : s.taskFree = .ok u) : s.SameBytes u := by
  unfold taskFree at run
  split_ifs at run
  cases run
  exact ⟨rfl, rfl⟩

theorem SameBytes.trans (first : s.SameBytes t) (second : t.SameBytes u) : s.SameBytes u :=
  ⟨second.1.trans first.1, second.2.trans first.2⟩

/-- What the handlers do to the task leaves the bytes alone. -/
theorem finish_bytes {sync : Bool} (run : (s.markDone >>= fun t =>
    if sync = false then t.taskFree else pure t) = .ok u) : s.SameBytes u := by
  obtain ⟨marked, done, run⟩ := bind_eq_ok.mp run
  split_ifs at run
  · exact (markDone_bytes done).trans (taskFree_bytes run)
  · cases run
    exact markDone_bytes done

theorem hip_finish_bytes {sync : Bool} (run : (if sync = false then s.taskFree >>= markDone
    else s.markDone) = .ok u) : s.SameBytes u := by
  split_ifs at run
  · obtain ⟨freed, free, run⟩ := bind_eq_ok.mp run
    exact (taskFree_bytes free).trans (markDone_bytes run)
  · exact markDone_bytes run

/-- The copy of CUDA and HIP, between data of these sizes. -/
theorem memcpyAsync_copied {srcOffset dstOffset n : Nat}
    (run : s.memcpyAsync src dst srcOffset dstOffset n = .ok t) :
    t = s.writeMemory dst dstOffset n fun k => s.memory src (srcOffset + k) := by
  unfold memcpyAsync at run
  split_ifs at run
  exact (Except.ok.inj run).symm

theorem Prepared.copied {v : BuiltinState} {c : CopySpan}
    (prepared : s.Prepared t (.memcpy src dst args))
    (copy : v = t.writeMemory dst c.dstStart c.n fun k => t.memory src (c.srcStart + k))
    (bytes : v.SameBytes u) : Copied (.remote b) s u src dst c := by
  rw [copy] at bytes
  refine ⟨bytes.2.trans prepared.buffer, bytes.1.trans ?_⟩
  show Function.update t.memory dst _ = _
  rw [prepared.memory]

/-- **The handlers write what they copy,** and no other byte. -/
theorem run_of_span {c : CopySpan} (wide : args.Wide) (member : c ∈ s.copySpan place src dst args)
    (run : s.memcpyAt place src dst args = .ok u) : Copied place s u src dst c := by
  cases place with
  | cpu =>
    have span : s.copySpan .cpu src dst args =
        some ⟨args.srcOffset, args.dstOffset, args.size⟩ := if_neg (Nat.ne_of_gt wide.sized)
    rw [span] at member
    cases member
    simp only [memcpyAt, cpuMemcpy] at run
    rw [if_neg (Nat.ne_of_gt wide.sized)] at run
    split at run
    · cases run
    · exact finish_bytes run
  | remote b =>
    obtain ⟨-, same⟩ := (mem_remoteSpan wide).mp member
    cases b with
    | cuda =>
      cases same
      obtain ⟨t, checks, run⟩ := bind_eq_ok.mp run
      obtain ⟨v, copy, run⟩ := bind_eq_ok.mp run
      have prepared : s.Prepared t (.memcpy src dst args) := prepare_spec checks
      have bytes : v.SameBytes u := by
        split_ifs at run
        · cases run
          exact ⟨rfl, rfl⟩
        · exact markDone_bytes run
      exact prepared.copied (memcpyAsync_copied copy) bytes
    | hip =>
      cases same
      obtain ⟨t, checks, run⟩ := bind_eq_ok.mp run
      obtain ⟨v, copy, run⟩ := bind_eq_ok.mp run
      have prepared : s.Prepared t (.memcpy src dst args) := prepare_spec checks
      exact prepared.copied (memcpyAsync_copied copy) (hip_finish_bytes run)
    | openCl =>
      obtain ⟨taken, rfl⟩ := same
      obtain ⟨t, checks, run⟩ := bind_eq_ok.mp run
      have prepared : s.Prepared t (.memcpy src dst args) := prepare_spec checks
      refine prepared.copied ?_ (finish_bytes run)
      unfold ClRefused at taken
      unfold clMemcpyD2D
      rw [prepared.size, if_neg (by omega)]

theorem allocNoThrottle_error {f : BuiltinFault} {d : Nat}
    (run : s.allocNoThrottle b d = .error f) : f ≠ .bounds := by
  unfold allocNoThrottle at run
  split_ifs at run
  · cases run
    decide
  · cases run
    decide

/-- The checks stop a task without an access out of bounds. -/
theorem memcpyChecks_error {f : BuiltinFault} (run : s.memcpyChecks b src dst args = .error f) :
    f ≠ .bounds := by
  unfold memcpyChecks at run
  split at run
  · cases run
    decide
  · cases first : s.allocNoThrottle b dst with
    | error g =>
      rw [first] at run
      cases run
      exact allocNoThrottle_error first
    | ok mid =>
      rw [first] at run
      cases second : mid.allocNoThrottle b src with
      | error g =>
        change (mid.allocNoThrottle b src >>= _) = _ at run
        rw [second] at run
        cases run
        exact allocNoThrottle_error second
      | ok last =>
        change (mid.allocNoThrottle b src >>= _) = _ at run
        rw [second] at run
        change (if _ then _ else _) = _ at run
        split_ifs at run
        · cases run
          decide
        · cases run
          decide
        · cases run

theorem finish_error {sync : Bool} : (s.markDone >>= fun t =>
    if sync = false then t.taskFree else pure t) ≠ .error .bounds := by
  intro error
  by_cases freed : s.refs = 0
  · rw [show s.markDone = .error .freed from if_pos freed] at error
    cases error
  · rw [show s.markDone = .ok { s with done := true } from if_neg freed] at error
    cases sync with
    | true => cases error
    | false =>
      change taskFree { s with done := true } = _ at error
      rw [show taskFree { s with done := true } =
        .ok { s with done := true, refs := s.refs - 1 } from if_neg freed] at error
      cases error

/-- A copy that OpenCL refuses changes no byte. -/
theorem clMemcpyD2D_refused (same : t.size = s.size) (refused : s.ClRefused src dst args) :
    t.SameBytes (t.clMemcpyD2D src dst (t.size src) args.srcOffset args.dstOffset) := by
  unfold clMemcpyD2D
  rw [same]
  split_ifs with out
  · exact ⟨rfl, rfl⟩
  · have empty : clInt (s.size src) = 0 := refused.resolve_right out
    refine ⟨?_, rfl⟩
    rw [empty]
    show Function.update t.memory dst (overwrite (t.memory dst) _ 0 _) = t.memory
    have nothing (news : Nat → BitVec 8) (start : Nat) :
        overwrite (t.memory dst) start 0 news = t.memory dst :=
      funext fun i => overwrite_outside (by omega)
    rw [nothing, Function.update_eq_self]

/-- A handler that is stopped leaves all bytes, and does not go out of bounds. -/
theorem run_of_none (wide : args.Wide) (stopped : s.copySpan place src dst args = none) :
    s.memcpyAt place src dst args ≠ .error .bounds ∧
      ∀ u, s.memcpyAt place src dst args = .ok u → s.SameBytes u := by
  cases place with
  | cpu =>
    have span : s.copySpan .cpu src dst args =
        some ⟨args.srcOffset, args.dstOffset, args.size⟩ := if_neg (Nat.ne_of_gt wide.sized)
    rw [span] at stopped
    cases stopped
  | remote b =>
    cases checks : s.memcpyChecks b src dst args with
    | error f =>
      have same : s.memcpyAt (.remote b) src dst args = .error f := by
        cases b
        all_goals exact congrArg (· >>= _) checks
      rw [same]
      refine ⟨fun bounds => ?_, fun u run => nomatch run⟩
      exact memcpyChecks_error checks (Except.error.inj bounds)
    | ok t =>
      have prepared : s.Prepared t (.memcpy src dst args) := prepare_spec checks
      cases b with
      | cuda => simp [copySpan, checks] at stopped
      | hip => simp [copySpan, checks] at stopped
      | openCl =>
        have refused : s.ClRefused src dst args := by
          by_contra taken
          simp [copySpan, checks, taken] at stopped
        have same : s.memcpyAt (.remote .openCl) src dst args =
            ((t.clMemcpyD2D src dst (t.size src) args.srcOffset args.dstOffset).markDone >>=
              fun v => if args.sync = false then v.taskFree else pure v) :=
          congrArg (· >>= _) checks
        rw [same]
        refine ⟨finish_error, fun u run => ?_⟩
        have kept : s.SameBytes t := ⟨prepared.memory, prepared.buffer⟩
        exact (kept.trans (clMemcpyD2D_refused prepared.size refused)).trans (finish_bytes run)

/-! ### The condition is exact -/

/-- A copy of the ranges of the task touches only these. -/
theorem rangeChecked_args {sizeSrc sizeDst : Nat} :
    RangeChecked args sizeSrc sizeDst (some ⟨args.srcOffset, args.dstOffset, args.size⟩) ↔
      args.Within sizeSrc sizeDst := by
  constructor
  · intro checked
    exact (checked _ rfl).1
  · intro within c member
    cases member
    refine ⟨within, fun k small => ?_⟩
    dsimp only at small ⊢
    omega

/-- An offset that is let through is in range, unless the difference wraps. -/
theorem within_iff_not_wrapsPast (wide : args.Wide) (passes : s.Passes b src dst args) :
    args.Within (s.size src) (s.size dst) ↔ ¬WrapsPast (s.size dst) args.dstOffset args.size ∧
      ¬WrapsPast (s.size src) args.srcOffset args.size := by
  obtain ⟨-, first, second⟩ := passes
  unfold LetsThrough WrapsPast at first second
  unfold MemcpyArgs.Within WrapsPast
  have sized := wide.sized
  omega

/-- CUDA and HIP copy the ranges of the task, if they copy. -/
theorem remote_checked_iff (wide : args.Wide) (spans : ∀ c : CopySpan,
      c ∈ s.copySpan (.remote b) src dst args ↔ s.Passes b src dst args ∧
        c = ⟨args.srcOffset, args.dstOffset, args.size⟩) :
    RangeChecked args (s.size src) (s.size dst) (s.copySpan (.remote b) src dst args) ↔
      (s.Passes b src dst args → ¬WrapsPast (s.size dst) args.dstOffset args.size ∧
        ¬WrapsPast (s.size src) args.srcOffset args.size) := by
  constructor
  · intro checked passes
    exact (within_iff_not_wrapsPast wide passes).mp
      (checked _ ((spans _).mpr ⟨passes, rfl⟩)).1
  · intro exact c member
    obtain ⟨passes, rfl⟩ := (spans c).mp member
    have within := (within_iff_not_wrapsPast wide passes).mpr (exact passes)
    exact rangeChecked_args.mpr within _ rfl

/-- OpenCL copies as many bytes as the source has. -/
theorem openCl_checked_iff (wide : args.Wide) :
    RangeChecked args (s.size src) (s.size dst) (s.copySpan (.remote .openCl) src dst args) ↔
      s.MemcpyExact (.remote .openCl) src dst args := by
  constructor
  · intro checked passes taken
    obtain ⟨within, bytes⟩ := checked _ ((mem_remoteSpan wide).mpr ⟨passes, taken, rfl⟩)
    dsimp only at bytes
    unfold ClRefused at taken
    have first := bytes 0 (by omega)
    have last := bytes (clInt (s.size src) - 1) (by omega)
    refine ⟨within, ?_, ?_, ?_, ?_⟩
    all_goals omega
  · intro exact c member
    obtain ⟨passes, taken, rfl⟩ := (mem_remoteSpan wide).mp member
    obtain ⟨within, first, covered, low, high⟩ := exact passes taken
    refine ⟨within, fun k small => ?_⟩
    unfold ClRefused at taken
    dsimp only at small ⊢
    omega

/-- **The range check, exactly.** -/
theorem range_checked_iff (place : MemcpyPlace) (s : BuiltinState) (src dst : Nat)
    (args : MemcpyArgs) (wide : args.Wide) :
    RangeChecked args (s.size src) (s.size dst) (s.copySpan place src dst args) ↔
      s.MemcpyExact place src dst args := by
  cases place with
  | cpu =>
    have span : s.copySpan .cpu src dst args =
        some ⟨args.srcOffset, args.dstOffset, args.size⟩ := if_neg (Nat.ne_of_gt wide.sized)
    rw [span]
    exact rangeChecked_args
  | remote b =>
    cases b with
    | cuda => exact remote_checked_iff wide fun c => mem_remoteSpan wide
    | hip => exact remote_checked_iff wide fun c => mem_remoteSpan wide
    | openCl => exact openCl_checked_iff wide

/-- Two data of 16 bytes on the device. -/
def twoOf16 : BuiltinState where
  size := fun _ => 16
  sizeT := fun _ => by decide
  remote := fun _ => true
  buffer := fun _ _ => 0#8
  memory := fun _ _ => 0#8
  available := 0
  refs := 2
  done := false

/-- 8 bytes to the offset 32. -/
def pastTheEnd : MemcpyArgs := ⟨0, 32, true, 8⟩

theorem range_checked_past_the_end :
    RangeChecked pastTheEnd 16 16 (twoOf16.copySpan (.remote .cuda) 0 1 pastTheEnd) ↔
      twoOf16.MemcpyExact (.remote .cuda) 0 1 pastTheEnd :=
  range_checked_iff (.remote .cuda) twoOf16 0 1 pastTheEnd
    ⟨by decide, by decide, by decide, by decide⟩

/-- The guard of CUDA lets a copy to the offset 32 of 16 bytes through. -/
theorem range_not_checked : ¬∀ (place : MemcpyPlace) (s : BuiltinState) (src dst : Nat)
    (args : MemcpyArgs), args.Wide →
    RangeChecked args (s.size src) (s.size dst) (s.copySpan place src dst args) := by
  intro all
  have checked := all (.remote .cuda) twoOf16 0 1 pastTheEnd
    ⟨by decide, by decide, by decide, by decide⟩
  have within := (checked ⟨0, 32, 8⟩ rfl).1.2
  exact absurd within (by decide)

end BuiltinState

end Arax.Controller
