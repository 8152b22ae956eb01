/-
**The table of kernels (`controller/src/Core/araxLibMgr.cpp`, `src/core/arax_proc.c`).**

The controller loads the libraries of its folders at its start, and a file that appears in one of
them later. A library lists kernels: the name of a procedure, the type of accelerator that it runs
on, and a functor. Each of them is registered in the shared segment, where the clients look for the
procedure by its name, and an accelerator thread for the functor of its type.

A folder is the tree that `opendir` and `readdir` show at the time of the call, and a file the
kernels that `dlopen` and `dlsym` find in it. What is only printed (warnings, the kernel map) is
left out.

* `araxProcGetFunctor`, `araxProcSetFunctor`, `AraxProc.canRunAt` — the functors of a procedure.
* `loadFolder`, `loadLibrary` — the loader.
* `KernelsSound` — names and types lead to the functor of the library that was loaded last.
* `kernels_sound` — this holds in every state of a run with names that fit into an object.
* `folder_loaded` — a folder that is new is searched completely, and the search ends if there is
  memory for its kernels.
-/

import Arax.Core.AccelTypes
import Arax.Core.ProcRegistry

namespace Arax.Core

open Arax.Lib

/-! ### Procedures -/

/-- `arax_proc_s`, without its object. A functor is a pointer, `none` for `NULL`. -/
structure AraxProc where
  canrun : BitVec 64
  functors : AccelType → Option Nat

/-- The memory of a procedure that was just registered. -/
def AraxProc.zero : AraxProc where
  canrun := 0
  functors := fun _ => none

/-- `1llu << type`. -/
def AccelType.bit (type : AccelType) : BitVec 64 := 1#64 <<< type.toNat

/-- `arax_proc_get_functor`. -/
def araxProcGetFunctor (proc : AraxProc) (type : AccelType) : Option Nat := proc.functors type

/-- `arax_proc_set_functor`: what it returns, and the procedure. -/
def araxProcSetFunctor (proc : AraxProc) (type : AccelType) (vfn : Option Nat) :
    Option Nat × AraxProc :=
  (araxProcGetFunctor proc type,
    { canrun := proc.canrun ||| type.bit, functors := Function.update proc.functors type vfn })

/-- `arax_proc_can_run_at`, where `none` is its assertion that fails. -/
def AraxProc.canRunAt (proc : AraxProc) (type : AccelType) : Option Bool :=
  if type = .any then none else some (decide (proc.canrun &&& type.bit ≠ 0))

/-! ### The loader -/

/-- `AraxProcedureDefinition`; the type is one that the library was compiled with. -/
structure ProcedureDefinition where
  name : String
  type : Nat
  functor : Option Nat

/-- `arax_proc_defs` of a library, `none` for a file that is no library with such an array. -/
abbrev Image := Option (List ProcedureDefinition)

mutual

/-- What there is under a path. -/
inductive FileEntry where
  /-- `opendir` fails. -/
  | file (image : Image)
  /-- `wd` is what `inotify_add_watch` returns. -/
  | folder (wd : Int) (entries : FolderEntries)

/-- The entries of a folder, in the order of `readdir`. -/
inductive FolderEntries where
  | nil
  | cons (name : String) (entry : FileEntry) (rest : FolderEntries)

end

/-- The procedures in the shared segment, and `AraxLibMgr`. -/
structure KernelTable where
  repo : ObjectRepo
  procs : Nat → AraxProc
  /-- The libraries in the order in which they were loaded, with what was loaded. -/
  libs : List (String × List ProcedureDefinition)
  libPaths : List String
  /-- `lib_fd_paths`, with the empty string for what is not there. -/
  libFdPaths : Int → String
  /-- How many times `arax_proc_get` returned the procedure without an `arax_proc_put` since. -/
  gets : Nat → Nat

/-- Before anything is loaded. -/
def kernelInit (size : Nat) : KernelTable where
  repo := araxObjectRepoInit size
  procs := fun _ => .zero
  libs := []
  libPaths := []
  libFdPaths := fun _ => ""
  gets := fun _ => 0

/-- The body of the loop over the definitions of a library; it skips unknown accelerators. -/
def loadDefinition (sizes : Sizeofs) (s : KernelTable) (defs : ProcedureDefinition) :
    Option KernelTable :=
  match AccelType.ofNat? defs.type with
  | none => some s
  | some type => (araxProcRegister sizes s.repo defs.name).map fun (repo, proc) =>
      { s with
        repo := repo
        procs := Function.update s.procs proc
          (araxProcSetFunctor (s.procs proc) type defs.functor).2 }

/-- `lib_file.rfind(".so") != string::npos`. -/
def NamesLibrary (libFile : String) : Prop := ".so".toList <:+: libFile.toList

instance (libFile : String) : Decidable (NamesLibrary libFile) :=
  inferInstanceAs (Decidable (_ <:+: _))

/-- `AraxLibMgr::loadLibrary`. -/
def loadLibrary (sizes : Sizeofs) (s : KernelTable) (libFile : String) (image : Image) :
    Option (Bool × KernelTable) :=
  if ¬NamesLibrary libFile then some (false, s)
  else if libFile ∈ s.libs.map Prod.fst then some (true, s)
  else
    match image with
    | none => some (false, s)
    | some defs =>
      (defs.foldlM (loadDefinition sizes) { s with libs := s.libs ++ [(libFile, defs)] }).map
        fun s => (true, s)

/-- `d_name[0] == '.'`. -/
def Hidden (name : String) : Prop := name.toList.head? = some '.'

instance (name : String) : Decidable (Hidden name) := inferInstanceAs (Decidable (_ = _))

/-- What `loadLibrary` finds under the path. -/
def FileEntry.image : FileEntry → Image
  | .file image => image
  | .folder _ _ => none

mutual

/-- `AraxLibMgr::loadFolder`. -/
def loadFolder (sizes : Sizeofs) (s : KernelTable) (libPath : String) :
    FileEntry → Option (Bool × KernelTable)
  | .file _ => if libPath ∈ s.libPaths then some (true, s) else some (false, s)
  | .folder wd entries =>
    if libPath ∈ s.libPaths then some (true, s)
    else
      (loadEntries sizes
        { s with
          libFdPaths := Function.update s.libFdPaths wd libPath
          libPaths := libPath :: s.libPaths } libPath entries).map fun s => (true, s)

/-- The loop of `AraxLibMgr::loadFolder`. -/
def loadEntries (sizes : Sizeofs) (s : KernelTable) (libPath : String) :
    FolderEntries → Option KernelTable
  | .nil => some s
  | .cons name entry rest =>
    if Hidden name then loadEntries sizes s libPath rest
    else
      (loadFolder sizes s (libPath ++ "/" ++ name) entry).bind fun (found, s) =>
        (if found then some s
          else (loadLibrary sizes s (libPath ++ "/" ++ name) entry.image).map Prod.snd).bind
            fun s => loadEntries sizes s libPath rest

end

/-! ### Runs -/

/-- What happens next. -/
inductive KernelMove where
  /-- The controller loads a folder. -/
  | folder (libPath : String) (entry : FileEntry)
  /-- `rtld_handler` reads an event: a file was written in a folder that is watched. -/
  | event (wd : Int) (name : String) (image : Image)
  | register (name : String)
  | get (name : String)
  | put (proc : Nat)

/-- One move. A put that matches no get is no move of a run. -/
def kernelStep (sizes : Sizeofs) (s : KernelTable) : KernelMove → Option KernelTable
  | .folder libPath entry => (loadFolder sizes s libPath entry).map Prod.snd
  | .event wd name image =>
    (loadLibrary sizes s (s.libFdPaths wd ++ "/" ++ name) image).map Prod.snd
  | .register name => (araxProcRegister sizes s.repo name).map fun (repo, _) =>
      { s with repo := repo }
  | .get name => (araxProcGetOrNull s.repo name).map fun (repo, found) =>
      match found with
      | some proc =>
        { s with repo := repo, gets := Function.update s.gets proc (s.gets proc + 1) }
      | none => { s with repo := repo }
  | .put proc =>
    if s.gets proc = 0 then none
    else (araxProcPut sizes s.repo proc).map fun repo =>
      { s with repo := repo, gets := Function.update s.gets proc (s.gets proc - 1) }

/-! ### What was loaded -/

/-- A definition for an accelerator type that there is. -/
structure Kernel where
  name : String
  type : AccelType
  functor : Option Nat
  deriving DecidableEq

/-- What `loadDefinition` registers. -/
def ProcedureDefinition.kernel? (defs : ProcedureDefinition) : Option Kernel :=
  (AccelType.ofNat? defs.type).map fun type => ⟨defs.name, type, defs.functor⟩

/-- The kernels of the libraries, in the order in which they were loaded. -/
def KernelTable.kernels (s : KernelTable) : List Kernel :=
  s.libs.flatMap fun lib => lib.2.filterMap ProcedureDefinition.kernel?

/-- The functor of the last kernel with this name and type. -/
def lastFunctor (kernels : List Kernel) (name : String) (type : AccelType) :
    Option (Option Nat) :=
  (kernels.reverse.find? fun k => k.name = name ∧ k.type = type).map Kernel.functor

/-- The procedure has the functors of the last kernels with the name, and can run where there are
kernels. -/
def Dispatches (kernels : List Kernel) (name : String) (proc : AraxProc) : Prop :=
  ∀ type, araxProcGetFunctor proc type = (lastFunctor kernels name type).join ∧
    (type ≠ .any → proc.canRunAt type = some (lastFunctor kernels name type).isSome)

/-- The clients find every kernel, and what they find dispatches. -/
structure KernelsFound (kernels : List Kernel) (s : KernelTable) : Prop where
  there : ∀ k ∈ kernels, (araxPipeFindProc s.repo k.name).isSome = true
  dispatches : ∀ name proc, araxPipeFindProc s.repo name = some proc →
    Dispatches kernels name (s.procs proc)

/-- **What the table of kernels is for.** -/
structure KernelsSound (s : KernelTable) : Prop where
  found : KernelsFound s.kernels s
  /-- No file is loaded twice. -/
  once : (s.libs.map Prod.fst).Nodup
  named : ∀ lib ∈ s.libs, NamesLibrary lib.1

/-! ### Functors -/

theorem AccelType.toNat_inj {type other : AccelType} : type.toNat = other.toNat ↔ type = other := by
  refine ⟨fun same => ?_, fun same => same ▸ rfl⟩
  have back : ∀ t : AccelType, AccelType.ofNat? t.toNat = some t := fun t => by cases t <;> rfl
  exact Option.some.inj ((back type).symm.trans ((congrArg _ same).trans (back other)))

theorem AccelType.toNat_lt (type : AccelType) : type.toNat < 64 := by
  cases type <;> decide

/-- A test of a bit. -/
theorem and_bit_ne_zero (canrun : BitVec 64) (type : AccelType) :
    canrun &&& type.bit ≠ 0 ↔ canrun.getLsbD type.toNat = true := by
  have power : type.bit = BitVec.twoPow 64 type.toNat := rfl
  rw [power, BitVec.and_twoPow]
  split_ifs with set
  · refine iff_of_true (fun zero => ?_) set
    have bit := congrArg (BitVec.getLsbD · type.toNat) zero
    simp [type.toNat_lt] at bit
  · exact iff_of_false (fun ne => ne rfl) set

/-- The bits after one more functor. -/
theorem or_bit (canrun : BitVec 64) (type other : AccelType) :
    (canrun ||| type.bit) &&& other.bit ≠ 0 ↔ other = type ∨ canrun &&& other.bit ≠ 0 := by
  have power : type.bit = BitVec.twoPow 64 type.toNat := rfl
  rw [and_bit_ne_zero, and_bit_ne_zero, power, BitVec.getLsbD_or, BitVec.getLsbD_twoPow,
    Bool.or_eq_true, Bool.and_eq_true, decide_eq_true_iff, decide_eq_true_iff,
    and_iff_right type.toNat_lt, AccelType.toNat_inj, or_comm, eq_comm]

section Dispatch

variable {kernels : List Kernel} {name : String} {proc : AraxProc} {k : Kernel}

theorem lastFunctor_snoc (kernels : List Kernel) (k : Kernel) (name : String) (type : AccelType) :
    lastFunctor (kernels ++ [k]) name type =
      if k.name = name ∧ k.type = type then some k.functor else lastFunctor kernels name type := by
  unfold lastFunctor
  rw [List.reverse_append, List.reverse_singleton, List.singleton_append, List.find?_cons]
  by_cases here : k.name = name ∧ k.type = type
  · rw [decide_eq_true here, if_pos here]
    rfl
  · rw [decide_eq_false here, if_neg here]

/-- A procedure without functors, for a name that no kernel has. -/
theorem dispatches_zero (absent : ∀ k ∈ kernels, k.name ≠ name) :
    Dispatches kernels name .zero := by
  have none : ∀ type, lastFunctor kernels name type = none := fun type => by
    refine Option.map_eq_none_iff.mpr (List.find?_eq_none.mpr fun k member => ?_)
    rw [decide_eq_true_iff]
    exact fun here => absent k (List.mem_reverse.mp member) here.1
  intro type
  rw [none]
  refine ⟨rfl, fun other => (if_neg other).trans (congrArg some (decide_eq_false ?_))⟩
  exact not_not.mpr BitVec.zero_and

/-- A kernel with another name. -/
theorem Dispatches.other (dispatches : Dispatches kernels name proc) (apart : k.name ≠ name) :
    Dispatches (kernels ++ [k]) name proc := by
  intro type
  rw [lastFunctor_snoc, if_neg fun here => apart here.1]
  exact dispatches type

/-- One more kernel with this name. -/
theorem Dispatches.set (dispatches : Dispatches kernels name proc) (same : k.name = name) :
    Dispatches (kernels ++ [k]) name (araxProcSetFunctor proc k.type k.functor).2 := by
  intro type
  obtain ⟨functor, canRun⟩ := dispatches type
  rw [lastFunctor_snoc]
  by_cases here : k.type = type
  · subst here
    rw [if_pos ⟨same, rfl⟩]
    refine ⟨Function.update_self _ _ _, fun other => ?_⟩
    refine (if_neg other).trans (congrArg some (decide_eq_true ?_))
    exact (or_bit _ _ _).mpr (.inl rfl)
  · rw [if_neg fun both => here both.2]
    refine ⟨(Function.update_of_ne (Ne.symm here) _ _).trans functor, fun other => ?_⟩
    rw [← canRun other]
    refine (if_neg other).trans ((congrArg some ?_).trans (if_neg other).symm)
    refine decide_eq_decide.mpr ((or_bit _ _ _).trans (or_iff_right (Ne.symm here)))

end Dispatch

/-! ### What is known of the procedures -/

/-- The state of the registry and of the loader. -/
structure KernelInv (s : KernelTable) : Prop where
  /-- The loader never gives its reference back. -/
  listed : ∀ id ∈ s.repo.list .proc, ∃ o, s.repo.live id = some o ∧ o.type = .proc ∧
    o.refCount = s.gets id + 1
  inside : ∀ id ∈ s.repo.list .proc, id < s.repo.next
  held : ∀ id, s.gets id ≠ 0 → id ∈ s.repo.list .proc
  fresh : ∀ id, s.repo.next ≤ id → s.procs id = .zero
  once : (s.libs.map Prod.fst).Nodup
  named : ∀ lib ∈ s.libs, NamesLibrary lib.1

theorem kernelInit_inv (size : Nat) : KernelInv (kernelInit size) where
  listed _ none := by cases none
  inside _ none := by cases none
  held _ some := absurd rfl some
  fresh _ _ := rfl
  once := List.nodup_nil
  named _ none := by cases none

section Calls

variable {sizes : Sizeofs} {kernels : List Kernel} {s t : KernelTable} {next : ObjectRepo}
  {name : String} {proc : Nat}

/-- A registration finds the procedure or adds one without functors. -/
theorem KernelInv.register (inv : KernelInv s) (found : KernelsFound kernels s)
    (fits : name.length < araxObjectNameSize)
    (done : araxProcRegister sizes s.repo name = some (next, proc)) :
    KernelInv { s with repo := next } ∧ KernelsFound kernels { s with repo := next } ∧
      araxPipeFindProc next name = some proc := by
  rcases araxProcRegister_cases done with ⟨here, rfl⟩ | ⟨missing, done⟩
  · exact ⟨inv, found, here⟩
  obtain ⟨number, after, list⟩ := list_register done
  have finds : ∀ other, araxPipeFindProc next other =
      if name = other then some proc else araxPipeFindProc s.repo other := fun other => by
    rw [find_register inv.inside done, objectName_eq_iff.mpr fits]
  have outside : s.gets proc = 0 := by
    by_contra some
    have low := inv.inside proc (inv.held proc some)
    omega
  refine ⟨⟨fun id member => ?_, fun id member => ?_, fun id some => ?_, fun id high => ?_,
    inv.once, inv.named⟩, ⟨fun k member => ?_, fun other found' here => ?_⟩, ?_⟩
  · show ∃ o, next.live id = some o ∧ _
    rw [live_register done]
    rcases List.mem_cons.mp (list ▸ member) with rfl | old
    · rw [if_pos number]
      exact ⟨_, rfl, rfl, congrArg (· + 1) outside.symm⟩
    · rw [if_neg (Nat.ne_of_lt (inv.inside id old))]
      exact inv.listed id old
  · show id < next.next
    rcases List.mem_cons.mp (list ▸ member) with rfl | old
    · omega
    · exact after ▸ Nat.lt_succ_of_lt (inv.inside id old)
  · exact list ▸ List.mem_cons_of_mem _ (inv.held id some)
  · have high : next.next ≤ id := high
    exact inv.fresh id (by omega)
  · show (araxPipeFindProc next k.name).isSome = true
    rw [finds]
    split_ifs
    · rfl
    · exact found.there k member
  · change araxPipeFindProc next other = some found' at here
    rw [finds] at here
    split_ifs at here with same
    · cases here
      show Dispatches kernels other (s.procs proc)
      rw [inv.fresh proc number.ge]
      refine dispatches_zero fun k member named => ?_
      have there := found.there k member
      rw [named, ← same, missing] at there
      cases there
    · exact found.dispatches other found' here
  · rw [finds, if_pos rfl]

/-- Another number of references. -/
theorem KernelInv.recount (inv : KernelInv s) (found : KernelsFound kernels s) {o : AraxObject}
    (member : proc ∈ s.repo.list .proc) (live : s.repo.live proc = some o) (count : Nat) :
    KernelInv { s with
      repo := s.repo.set proc { o with refCount := count + 1 }
      gets := Function.update s.gets proc count } ∧
    KernelsFound kernels { s with
      repo := s.repo.set proc { o with refCount := count + 1 }
      gets := Function.update s.gets proc count } := by
  obtain ⟨here, alive⟩ := ObjectRepo.live_some live
  have lives : ∀ id, (s.repo.set proc { o with refCount := count + 1 }).live id =
      if id = proc then some { o with refCount := count + 1 } else s.repo.live id := fun id => by
    unfold ObjectRepo.live
    rw [ObjectRepo.objs_set]
    split_ifs
    · simp [Option.filter, alive]
    · rfl
  have finds : ∀ other, araxPipeFindProc (s.repo.set proc { o with refCount := count + 1 }) other =
      araxPipeFindProc s.repo other := fun other => find_congr rfl fun id _ => by
    rw [lives]
    split_ifs with same
    · rw [same, live]
      rfl
    · rfl
  refine ⟨⟨fun id listed => ?_, inv.inside, fun id some => ?_, inv.fresh, inv.once, inv.named⟩,
    ⟨fun k member => ?_, fun other found' here => ?_⟩⟩
  · show ∃ p, (s.repo.set proc _).live id = some p ∧ p.type = .proc ∧
      p.refCount = Function.update s.gets proc count id + 1
    rw [lives, Function.update_apply]
    split_ifs with same
    · obtain ⟨p, live', type, -⟩ := inv.listed proc member
      rw [live] at live'
      cases live'
      exact ⟨_, rfl, type, rfl⟩
    · exact inv.listed id listed
  · change Function.update s.gets proc count id ≠ 0 at some
    rw [Function.update_apply] at some
    split_ifs at some with same
    · exact same ▸ member
    · exact inv.held id some
  · exact (congrArg Option.isSome (finds k.name)).trans (found.there k member)
  · exact found.dispatches other found' ((finds other).symm.trans here)

/-- A put that leaves a reference. -/
theorem put_eq {o : AraxObject} {count : Nat} (live : s.repo.live proc = some o)
    (type : o.type = .proc) (refs : o.refCount = count + 2) :
    araxProcPut sizes s.repo proc = some (s.repo.set proc { o with refCount := count + 1 }) := by
  unfold araxProcPut araxObjectRefDec
  rw [live, Option.bind_some, type]
  show refDecWith .proc dtorProc s.repo proc = _
  unfold refDecWith
  rw [live]
  simp only [type, ne_eq, not_true_eq_false, if_false, refs]
  rfl

/-! ### What the loader keeps -/

/-- The name of a kernel fits into an object. -/
def ProcedureDefinition.Fits (defs : ProcedureDefinition) : Prop :=
  defs.name.length < araxObjectNameSize

theorem loadDefinition_keeps {defs : ProcedureDefinition} (inv : KernelInv s)
    (found : KernelsFound kernels s) (fits : defs.Fits)
    (done : loadDefinition sizes s defs = some t) :
    KernelInv t ∧ KernelsFound (kernels ++ defs.kernel?.toList) t ∧ t.libs = s.libs := by
  unfold loadDefinition at done
  unfold ProcedureDefinition.kernel?
  cases known : AccelType.ofNat? defs.type with
  | none =>
    rw [known] at done
    cases done
    rw [Option.map_none, Option.toList_none, List.append_nil]
    exact ⟨inv, found, rfl⟩
  | some type =>
    rw [known] at done
    obtain ⟨⟨next, proc⟩, registered, rfl⟩ := Option.map_eq_some_iff.mp done
    obtain ⟨inv', found', here⟩ := inv.register found fits registered
    obtain ⟨member, name⟩ := find_some here
    refine ⟨⟨inv'.listed, inv'.inside, inv'.held, fun id high => ?_, inv.once, inv.named⟩,
      ⟨fun k member => ?_, fun other proc' there => ?_⟩, rfl⟩
    · have low := inv'.inside proc member
      refine (Function.update_of_ne ?_ _ _).trans (inv'.fresh id high)
      exact Nat.ne_of_gt (low.trans_le high)
    · rcases List.mem_append.mp member with old | new
      · exact found'.there k old
      · rw [Option.map_some, Option.toList_some, List.mem_singleton] at new
        subst new
        exact congrArg Option.isSome here
    · rw [Option.map_some, Option.toList_some]
      have dispatches := found'.dispatches other proc' there
      by_cases same : defs.name = other
      · subst same
        have one : proc' = proc := Option.some.inj (there.symm.trans here)
        subst one
        show Dispatches _ _ (Function.update s.procs proc' _ proc')
        rw [Function.update_self]
        exact dispatches.set rfl
      · have apart : proc' ≠ proc := by
          rintro rfl
          exact same (Option.some.inj (name.symm.trans (find_some there).2))
        show Dispatches _ _ (Function.update s.procs proc _ proc')
        rw [Function.update_of_ne apart]
        exact dispatches.other same

/-- The loop over the definitions of a library. -/
theorem loadDefinitions_keeps {defs : List ProcedureDefinition} (inv : KernelInv s)
    (found : KernelsFound kernels s) (fits : ∀ d ∈ defs, d.Fits)
    (done : defs.foldlM (loadDefinition sizes) s = some t) :
    KernelInv t ∧ KernelsFound (kernels ++ defs.filterMap ProcedureDefinition.kernel?) t ∧
      t.libs = s.libs := by
  induction defs generalizing s kernels with
  | nil =>
    cases done
    rw [List.filterMap_nil, List.append_nil]
    exact ⟨inv, found, rfl⟩
  | cons d defs ih =>
    rw [List.foldlM_cons] at done
    obtain ⟨mid, first, rest⟩ := Option.bind_eq_some_iff.mp done
    obtain ⟨inv', found', libs⟩ := loadDefinition_keeps inv found (fits d List.mem_cons_self) first
    obtain ⟨inv'', found'', libs'⟩ :=
      ih inv' found' (fun d later => fits d (List.mem_cons_of_mem _ later)) rest
    refine ⟨inv'', ?_, libs'.trans libs⟩
    have all : (d :: defs).filterMap ProcedureDefinition.kernel? =
        d.kernel?.toList ++ defs.filterMap ProcedureDefinition.kernel? := by
      rw [List.filterMap_cons]
      cases d.kernel? <;> rfl
    rw [all, ← List.append_assoc]
    exact found''

end Calls

/-! ### Libraries -/

/-- The names of the kernels fit into objects. -/
def Image.Fits (image : Image) : Prop := ∀ defs ∈ image, ∀ d ∈ defs, d.Fits

/-- What is known, with the kernels of the libraries that were loaded. -/
structure KernelsOk (s : KernelTable) : Prop where
  inv : KernelInv s
  found : KernelsFound s.kernels s

/-- The library that a call of `loadLibrary` adds. -/
def added (libs : List (String × List ProcedureDefinition)) (libFile : String) (image : Image) :
    List (String × List ProcedureDefinition) :=
  if NamesLibrary libFile ∧ libFile ∉ libs.map Prod.fst then image.toList.map (libFile, ·) else []

section Libraries

variable {sizes : Sizeofs} {s t : KernelTable} {libFile libPath : String} {image : Image}
  {found : Bool}

theorem loadDefinitions_paths {defs : List ProcedureDefinition}
    (done : defs.foldlM (loadDefinition sizes) s = some t) :
    t.libs = s.libs ∧ t.libPaths = s.libPaths := by
  induction defs generalizing s with
  | nil =>
    cases done
    exact ⟨rfl, rfl⟩
  | cons d defs ih =>
    rw [List.foldlM_cons] at done
    obtain ⟨mid, first, rest⟩ := Option.bind_eq_some_iff.mp done
    have same : mid.libs = s.libs ∧ mid.libPaths = s.libPaths := by
      unfold loadDefinition at first
      split at first
      · cases first
        exact ⟨rfl, rfl⟩
      · obtain ⟨-, -, rfl⟩ := Option.map_eq_some_iff.mp first
        exact ⟨rfl, rfl⟩
    exact ⟨(ih rest).1.trans same.1, (ih rest).2.trans same.2⟩

/-- What `loadLibrary` does: nothing, or it loads a new file. -/
theorem loadLibrary_cases (done : loadLibrary sizes s libFile image = some (found, t)) :
    (t = s ∧ added s.libs libFile image = []) ∨ ∃ defs, image = some defs ∧
      NamesLibrary libFile ∧ libFile ∉ s.libs.map Prod.fst ∧
      defs.foldlM (loadDefinition sizes) { s with libs := s.libs ++ [(libFile, defs)] } =
        some t := by
  unfold loadLibrary at done
  split_ifs at done with named known
  · cases done
    exact .inl ⟨rfl, if_neg fun both => both.2 known⟩
  · cases image with
    | none =>
      cases done
      exact .inl ⟨rfl, ite_self _⟩
    | some defs =>
      obtain ⟨last, loads, pair⟩ := Option.map_eq_some_iff.mp done
      cases pair
      exact .inr ⟨defs, rfl, named, known, loads⟩
  · cases done
    exact .inl ⟨rfl, if_neg fun both => named both.1⟩

theorem loadLibrary_libs (done : loadLibrary sizes s libFile image = some (found, t)) :
    t.libs = s.libs ++ added s.libs libFile image ∧ t.libPaths = s.libPaths := by
  rcases loadLibrary_cases done with ⟨rfl, nothing⟩ | ⟨defs, rfl, named, fresh, loads⟩
  · rw [nothing, List.append_nil]
    exact ⟨rfl, rfl⟩
  · obtain ⟨libs, paths⟩ := loadDefinitions_paths loads
    refine ⟨libs.trans ?_, paths⟩
    rw [added, if_pos ⟨named, fresh⟩]
    rfl

theorem loadLibrary_keeps (ok : KernelsOk s) (fits : image.Fits)
    (done : loadLibrary sizes s libFile image = some (found, t)) : KernelsOk t := by
  rcases loadLibrary_cases done with ⟨rfl, -⟩ | ⟨defs, rfl, named, fresh, loads⟩
  · exact ok
  · have once : ((s.libs ++ [(libFile, defs)]).map Prod.fst).Nodup := by
      rw [List.map_append]
      exact ok.inv.once.append (List.nodup_singleton _) (by simpa using fresh)
    have names : ∀ lib ∈ s.libs ++ [(libFile, defs)], NamesLibrary lib.1 := by
      intro lib member
      rcases List.mem_append.mp member with old | new
      · exact ok.inv.named lib old
      · exact List.mem_singleton.mp new ▸ named
    have start : KernelInv { s with libs := s.libs ++ [(libFile, defs)] } :=
      ⟨ok.inv.listed, ok.inv.inside, ok.inv.held, ok.inv.fresh, once, names⟩
    obtain ⟨inv, found, libs⟩ :=
      loadDefinitions_keeps start ⟨ok.found.there, ok.found.dispatches⟩ (fits defs rfl) loads
    refine ⟨inv, ?_⟩
    have kernels : t.kernels =
        s.kernels ++ defs.filterMap ProcedureDefinition.kernel? := by
      unfold KernelTable.kernels
      rw [libs, List.flatMap_append, List.flatMap_singleton]
    exact kernels ▸ found

end Libraries

/-! ### Folders -/

mutual

/-- The files of a tree that are not hidden, in the order of the search. -/
def FileEntry.files (path : String) : FileEntry → List (String × Image)
  | .file image => [(path, image)]
  | .folder _ entries => entries.files path

/-- The files of the entries of a folder. -/
def FolderEntries.files (path : String) : FolderEntries → List (String × Image)
  | .nil => []
  | .cons name entry rest =>
    (if Hidden name then [] else entry.files (path ++ "/" ++ name)) ++ rest.files path

end

mutual

/-- The folders of a tree that are not hidden. -/
def FileEntry.folders (path : String) : FileEntry → List String
  | .file _ => []
  | .folder _ entries => path :: entries.folders path

/-- The folders among the entries of a folder. -/
def FolderEntries.folders (path : String) : FolderEntries → List String
  | .nil => []
  | .cons name entry rest =>
    (if Hidden name then [] else entry.folders (path ++ "/" ++ name)) ++ rest.folders path

end

mutual

/-- The paths of the files and folders. -/
def FileEntry.paths (path : String) : FileEntry → List String
  | .file _ => [path]
  | .folder _ entries => path :: entries.paths path

/-- The paths of the entries of a folder. -/
def FolderEntries.paths (path : String) : FolderEntries → List String
  | .nil => []
  | .cons name entry rest =>
    (if Hidden name then [] else entry.paths (path ++ "/" ++ name)) ++ rest.paths path

end

section Folders

variable {sizes : Sizeofs}

/-- The loop, with what it does to one entry. -/
theorem loadEntries_cons {s t : KernelTable} {path name : String} {entry : FileEntry}
    {rest : FolderEntries} (shown : ¬Hidden name)
    (done : loadEntries sizes s path (.cons name entry rest) = some t) :
    ∃ found mid next, loadFolder sizes s (path ++ "/" ++ name) entry = some (found, mid) ∧
      ((found = true ∧ next = mid) ∨ found = false ∧ ∃ loaded,
        loadLibrary sizes mid (path ++ "/" ++ name) entry.image = some (loaded, next)) ∧
      loadEntries sizes next path rest = some t := by
  rw [loadEntries, if_neg shown] at done
  obtain ⟨⟨found, mid⟩, folder, done⟩ := Option.bind_eq_some_iff.mp done
  obtain ⟨next, one, rest⟩ := Option.bind_eq_some_iff.mp done
  refine ⟨found, mid, next, folder, ?_, rest⟩
  cases found with
  | true =>
    cases one
    exact .inl ⟨rfl, rfl⟩
  | false =>
    obtain ⟨⟨loaded, next'⟩, library, rfl⟩ := Option.map_eq_some_iff.mp one
    exact .inr ⟨rfl, loaded, library⟩

mutual

theorem loadFolder_keeps {s t : KernelTable} {path : String} {found : Bool} (entry : FileEntry)
    (ok : KernelsOk s) (fits : ∀ file ∈ entry.files path, file.2.Fits)
    (done : loadFolder sizes s path entry = some (found, t)) : KernelsOk t := by
  match entry with
  | .file _ =>
    rw [loadFolder] at done
    split_ifs at done <;> cases done <;> exact ok
  | .folder wd entries =>
    rw [loadFolder] at done
    split_ifs at done with known
    · cases done
      exact ok
    · obtain ⟨last, loads, pair⟩ := Option.map_eq_some_iff.mp done
      cases pair
      have start : KernelsOk { s with
          libFdPaths := Function.update s.libFdPaths wd path, libPaths := path :: s.libPaths } :=
        ⟨⟨ok.inv.listed, ok.inv.inside, ok.inv.held, ok.inv.fresh, ok.inv.once, ok.inv.named⟩,
          ok.found.there, ok.found.dispatches⟩
      exact loadEntries_keeps entries start fits loads

theorem loadEntries_keeps {s t : KernelTable} {path : String} (entries : FolderEntries)
    (ok : KernelsOk s) (fits : ∀ file ∈ entries.files path, file.2.Fits)
    (done : loadEntries sizes s path entries = some t) : KernelsOk t := by
  match entries with
  | .nil =>
    cases done
    exact ok
  | .cons name entry rest =>
    by_cases hidden : Hidden name
    · rw [loadEntries, if_pos hidden] at done
      rw [FolderEntries.files, if_pos hidden, List.nil_append] at fits
      exact loadEntries_keeps rest ok fits done
    · rw [FolderEntries.files, if_neg hidden] at fits
      obtain ⟨found, mid, next, folder, one, later⟩ := loadEntries_cons hidden done
      have first := loadFolder_keeps entry ok
        (fun file here => fits file (List.mem_append_left _ here)) folder
      refine loadEntries_keeps rest ?_
        (fun file here => fits file (List.mem_append_right _ here)) later
      rcases one with ⟨-, rfl⟩ | ⟨-, loaded, library⟩
      · exact first
      · refine loadLibrary_keeps first ?_ library
        cases entry with
        | file image => exact fits (_, image) (List.mem_append_left _ List.mem_cons_self)
        | folder wd entries => exact fun _ none => by cases none

end

/-! ### A complete search -/

/-- All of the files were looked at, and nothing else. -/
structure Searched (s t : KernelTable) (files : List (String × Image)) (folders : List String) :
    Prop where
  paths : ∀ p, p ∈ t.libPaths ↔ p ∈ s.libPaths ∨ p ∈ folders
  grows : s.libs <+: t.libs
  complete : ∀ file ∈ files, NamesLibrary file.1 → file.2 ≠ none → file.1 ∈ t.libs.map Prod.fst
  only : ∀ lib ∈ t.libs, lib ∈ s.libs ∨ (lib.1, some lib.2) ∈ files

theorem searched_nothing (s : KernelTable) : Searched s s [] [] :=
  ⟨fun _ => (or_iff_left List.not_mem_nil).symm, List.prefix_refl _,
    fun _ none => absurd none List.not_mem_nil, fun _ member => .inl member⟩

theorem Searched.trans {s mid t : KernelTable} {files later : List (String × Image)}
    {folders folders' : List String} (first : Searched s mid files folders)
    (second : Searched mid t later folders') :
    Searched s t (files ++ later) (folders ++ folders') where
  paths p := by rw [second.paths, first.paths, List.mem_append, or_assoc]
  grows := first.grows.trans second.grows
  complete file member named image := by
    rcases List.mem_append.mp member with before | after
    · obtain ⟨lib, here, same⟩ := List.mem_map.mp (first.complete file before named image)
      exact List.mem_map.mpr ⟨lib, second.grows.subset here, same⟩
    · exact second.complete file after named image
  only lib member := by
    rcases second.only lib member with old | new
    · exact (first.only lib old).imp_right (List.mem_append_left _)
    · exact .inr (List.mem_append_right _ new)

theorem loadLibrary_searched {s t : KernelTable} {libFile : String} {image : Image} {found : Bool}
    (done : loadLibrary sizes s libFile image = some (found, t)) :
    Searched s t [(libFile, image)] [] := by
  obtain ⟨libs, paths⟩ := loadLibrary_libs done
  refine ⟨fun p => ?_, ⟨_, libs.symm⟩, fun file member named some => ?_, fun lib member => ?_⟩
  · rw [paths]
    exact (or_iff_left List.not_mem_nil).symm
  · cases List.mem_singleton.mp member
    obtain ⟨defs, rfl⟩ := Option.ne_none_iff_exists'.mp some
    rw [libs, List.map_append, List.mem_append]
    by_cases known : libFile ∈ s.libs.map Prod.fst
    · exact .inl known
    · refine .inr ?_
      rw [added, if_pos ⟨named, known⟩]
      exact List.mem_singleton_self _
  · rw [libs] at member
    refine (List.mem_append.mp member).imp_right fun new => ?_
    unfold added at new
    split_ifs at new
    · obtain ⟨defs, here, rfl⟩ := List.mem_map.mp new
      rw [Option.mem_toList.mp here]
      exact List.mem_singleton_self _
    · cases new

mutual

theorem FileEntry.folders_subset {path p : String} (entry : FileEntry)
    (member : p ∈ entry.folders path) : p ∈ entry.paths path := by
  match entry with
  | .file _ => cases member
  | .folder _ entries =>
    rcases List.mem_cons.mp member with rfl | inside
    · exact List.mem_cons_self
    · exact List.mem_cons_of_mem _ (FolderEntries.folders_subset entries inside)

theorem FolderEntries.folders_subset {path p : String} (entries : FolderEntries)
    (member : p ∈ entries.folders path) : p ∈ entries.paths path := by
  match entries with
  | .nil => cases member
  | .cons name entry rest =>
    rcases List.mem_append.mp member with first | later
    · refine List.mem_append_left _ ?_
      split_ifs at first ⊢
      · exact first
      · exact FileEntry.folders_subset entry first
    · exact List.mem_append_right _ (FolderEntries.folders_subset rest later)

end

mutual

theorem loadFolder_searched {s t : KernelTable} {path : String} {found : Bool} (entry : FileEntry)
    (fresh : ∀ p ∈ entry.paths path, p ∉ s.libPaths) (distinct : (entry.paths path).Nodup)
    (done : loadFolder sizes s path entry = some (found, t)) :
    (found = false ∧ t = s ∧ entry = .file entry.image) ∨
      found = true ∧ Searched s t (entry.files path) (entry.folders path) := by
  match entry with
  | .file image =>
    rw [loadFolder, if_neg (fresh path List.mem_cons_self)] at done
    cases done
    exact .inl ⟨rfl, rfl, rfl⟩
  | .folder wd entries =>
    rw [loadFolder, if_neg (fresh path List.mem_cons_self)] at done
    obtain ⟨last, loads, pair⟩ := Option.map_eq_some_iff.mp done
    cases pair
    obtain ⟨apart, distinct⟩ := List.nodup_cons.mp distinct
    have rest := loadEntries_searched entries (fun p member => ?_) distinct loads
    · refine .inr ⟨rfl, fun p => ?_, rest.grows, rest.complete, rest.only⟩
      rw [rest.paths, FileEntry.folders, List.mem_cons, List.mem_cons]
      exact or_right_comm.trans (by rw [or_assoc, or_comm (a := p ∈ s.libPaths), or_assoc])
    · rintro known
      rcases List.mem_cons.mp known with rfl | old
      · exact apart member
      · exact fresh p (List.mem_cons_of_mem _ member) old

theorem loadEntries_searched {s t : KernelTable} {path : String} (entries : FolderEntries)
    (fresh : ∀ p ∈ entries.paths path, p ∉ s.libPaths) (distinct : (entries.paths path).Nodup)
    (done : loadEntries sizes s path entries = some t) :
    Searched s t (entries.files path) (entries.folders path) := by
  match entries with
  | .nil =>
    cases done
    exact searched_nothing s
  | .cons name entry rest =>
    by_cases hidden : Hidden name
    · rw [loadEntries, if_pos hidden] at done
      rw [FolderEntries.paths, if_pos hidden, List.nil_append] at fresh distinct
      rw [FolderEntries.files, FolderEntries.folders, if_pos hidden, if_pos hidden]
      exact loadEntries_searched rest fresh distinct done
    · rw [FolderEntries.paths, if_neg hidden] at fresh distinct
      rw [FolderEntries.files, FolderEntries.folders, if_neg hidden, if_neg hidden]
      obtain ⟨found, mid, next, folder, one, later⟩ := loadEntries_cons hidden done
      obtain ⟨here, there, apart⟩ := List.nodup_append.mp distinct
      have first : Searched s next (entry.files (path ++ "/" ++ name))
          (entry.folders (path ++ "/" ++ name)) := by
        have looked := loadFolder_searched entry
          (fun p member => fresh p (List.mem_append_left _ member)) here folder
        rcases one with ⟨rfl, rfl⟩ | ⟨rfl, loaded, library⟩
        · rcases looked with ⟨impossible, -⟩ | ⟨-, searched⟩
          · cases impossible
          · exact searched
        · rcases looked with ⟨-, rfl, file⟩ | ⟨impossible, -⟩
          · rw [file]
            exact loadLibrary_searched library
          · cases impossible
      refine first.trans (loadEntries_searched rest (fun p member known => ?_) there later)
      rcases (first.paths p).mp known with old | inside
      · exact fresh p (List.mem_append_right _ member) old
      · exact apart p (FileEntry.folders_subset entry inside) p member rfl

end

end Folders

/-! ### Runs keep the table -/

/-- Names that are registered fit into an object. -/
def KernelGuard (_ : KernelTable) : KernelMove → Prop
  | .folder libPath entry => ∀ file ∈ entry.files libPath, file.2.Fits
  | .event _ _ image => image.Fits
  | .register name => name.length < araxObjectNameSize
  | .get _ | .put _ => True

instance (defs : ProcedureDefinition) : Decidable defs.Fits :=
  inferInstanceAs (Decidable (_ < _))

instance (image : Image) : Decidable image.Fits :=
  inferInstanceAs (Decidable (∀ defs ∈ image, ∀ d ∈ defs, d.Fits))

instance (s : KernelTable) : (move : KernelMove) → Decidable (KernelGuard s move)
  | .folder libPath entry => inferInstanceAs (Decidable (∀ file ∈ entry.files libPath, _))
  | .event _ _ image => inferInstanceAs (Decidable image.Fits)
  | .register _ => inferInstanceAs (Decidable (_ < _))
  | .get _ | .put _ => isTrue trivial

theorem kernelStep_keeps {sizes : Sizeofs} {s t : KernelTable} {move : KernelMove}
    (ok : KernelsOk s) (guard : KernelGuard s move) (step : kernelStep sizes s move = some t) :
    KernelsOk t := by
  cases move with
  | folder libPath entry =>
    obtain ⟨⟨found, last⟩, loads, rfl⟩ := Option.map_eq_some_iff.mp step
    exact loadFolder_keeps entry ok guard loads
  | event wd name image =>
    obtain ⟨⟨found, last⟩, loads, rfl⟩ := Option.map_eq_some_iff.mp step
    exact loadLibrary_keeps ok guard loads
  | register name =>
    obtain ⟨⟨next, proc⟩, done, rfl⟩ := Option.map_eq_some_iff.mp step
    obtain ⟨inv, found, -⟩ := ok.inv.register ok.found guard done
    exact ⟨inv, found⟩
  | get name =>
    obtain ⟨⟨next, found⟩, done, rfl⟩ := Option.map_eq_some_iff.mp step
    rcases araxProcGetOrNull_cases done with ⟨rfl, rfl⟩ | ⟨proc, rfl, here, counts⟩
    · exact ⟨⟨ok.inv.listed, ok.inv.inside, ok.inv.held, ok.inv.fresh, ok.inv.once, ok.inv.named⟩,
        ok.found.there, ok.found.dispatches⟩
    · obtain ⟨member, -⟩ := find_some here
      obtain ⟨o, live, -, refs⟩ := ok.inv.listed proc member
      have counted : next = s.repo.set proc { o with refCount := s.gets proc + 1 + 1 } := by
        rw [← refs]
        unfold araxObjectRefInc at counts
        rw [live] at counts
        exact (Option.some.inj counts).symm
      subst counted
      obtain ⟨inv, found⟩ := ok.inv.recount ok.found member live (s.gets proc + 1)
      exact ⟨inv, found⟩
  | put proc =>
    rw [kernelStep] at step
    split_ifs at step with none
    obtain ⟨next, done, rfl⟩ := Option.map_eq_some_iff.mp step
    have member := ok.inv.held proc none
    obtain ⟨o, live, type, refs⟩ := ok.inv.listed proc member
    obtain ⟨count, owed⟩ := Nat.exists_eq_succ_of_ne_zero none
    have put : araxProcPut sizes s.repo proc = some _ :=
      put_eq live type (refs.trans (congrArg (· + 1) owed))
    rw [done] at put
    cases put
    rw [owed, Nat.succ_sub_one]
    obtain ⟨inv, found⟩ := ok.inv.recount ok.found member live count
    exact ⟨inv, found⟩

/-- **The table of kernels.** Whatever is loaded, registered, got and put, and in which order: every
kernel is found under its name, and has for its type the functor of the library that was loaded
last; and no file is loaded twice, so a file that is written again changes nothing. -/
theorem kernels_sound (sizes : Sizeofs) (size : Nat) (moves : List KernelMove) (s : KernelTable)
    (guarded : Guarded (kernelStep sizes) KernelGuard (kernelInit size) moves)
    (run : exec (kernelStep sizes) (kernelInit size) moves = some s) : KernelsSound s := by
  have start : KernelsOk (kernelInit size) := by
    refine ⟨kernelInit_inv size, fun _ none => (by cases none), fun _ _ none => by cases none⟩
  have ok : KernelsOk s :=
    exec_guarded (fun _ _ _ ok guard step => kernelStep_keeps ok guard step) start guarded run
  exact ⟨ok.found, ok.inv.once, ok.inv.named⟩

/-- A library with a kernel for two types, a later one with another functor for one of them, and
the first one written again. -/
def kernelMoves : List KernelMove :=
  [.folder "lib" (.folder 1 (.cons "liba.so"
    (.file (some [⟨"add", 3, some 10⟩, ⟨"add", 1, some 11⟩]))
      (.cons ".hidden.so" (.file (some [⟨"add", 3, some 12⟩])) .nil))),
    .get "add", .event 1 "libb.so" (some [⟨"add", 3, some 20⟩, ⟨"mul", 9, some 21⟩]), .put 0,
    .event 1 "liba.so" (some [⟨"add", 3, some 30⟩])]

theorem kernels_sound_at_two : ∃ s,
    exec (kernelStep someSizes) (kernelInit 4096) kernelMoves = some s ∧
      s.kernels = [⟨"add", .cpu, some 10⟩, ⟨"add", .gpu, some 11⟩, ⟨"add", .cpu, some 20⟩] ∧
      KernelsSound s := by
  have loaded : (exec (kernelStep someSizes) (kernelInit 4096) kernelMoves).map
      KernelTable.kernels =
        some [⟨"add", .cpu, some 10⟩, ⟨"add", .gpu, some 11⟩, ⟨"add", .cpu, some 20⟩] := by
    decide +kernel
  obtain ⟨s, run, kernels⟩ := Option.map_eq_some_iff.mp loaded
  exact ⟨s, run, kernels, kernels_sound someSizes 4096 kernelMoves s (by decide +kernel) run⟩

/-! ### Memory -/

/-- How many kernels there are in the files. -/
def kernelCount (files : List (String × Image)) : Nat :=
  (files.map fun file => (file.2.getD []).length).sum

/-- The segment has memory for `n` more procedures. -/
structure Room (sizes : Sizeofs) (n : Nat) (s : KernelTable) : Prop where
  free : n * sizes.proc ≤ s.repo.available
  total : s.repo.available ≤ s.repo.capacity

section Memory

variable {sizes : Sizeofs} {s : KernelTable} {n : Nat}

theorem kernelCount_append (files later : List (String × Image)) :
    kernelCount (files ++ later) = kernelCount files + kernelCount later := by
  unfold kernelCount
  rw [List.map_append, List.sum_append]

theorem Room.mono {more : Nat} (room : Room sizes more s) (less : n ≤ more) : Room sizes n s :=
  ⟨(Nat.mul_le_mul_right _ less).trans room.free, room.total⟩

/-- A registration takes memory for one procedure at most, and returns if there is some. -/
theorem araxProcRegister_returns (room : Room sizes (n + 1) s) (name : String) :
    ∃ repo proc, araxProcRegister sizes s.repo name = some (repo, proc) ∧
      n * sizes.proc ≤ repo.available ∧ repo.available ≤ repo.capacity := by
  have free := room.free
  have total := room.total
  rw [Nat.add_one_mul] at free
  unfold araxProcRegister
  cases araxPipeFindProc s.repo name with
  | some proc => exact ⟨s.repo, proc, rfl, by omega, total⟩
  | none =>
    have taken : ∃ repo, s.repo.sizeDec sizes.proc = some repo ∧
        n * sizes.proc ≤ repo.available ∧ repo.available ≤ repo.capacity := by
      unfold ObjectRepo.sizeDec
      by_cases none : sizes.proc = 0
      · exact ⟨s.repo, if_pos none, by omega, total⟩
      · rw [if_neg none, if_neg (by omega), if_neg (by omega)]
        exact ⟨_, rfl, Nat.le_sub_of_add_le free, (Nat.sub_le _ _).trans total⟩
    obtain ⟨repo, dec, left, most⟩ := taken
    have registered : araxProcInit sizes s.repo name = some
        ((({ repo with next := repo.next + 1 }.set repo.next
          (freshObject .proc name sizes.proc 1)).link .proc repo.next), repo.next) := by
      unfold araxProcInit araxObjectRegister
      rw [dec]
      rfl
    exact ⟨_, _, registered, left, most⟩

theorem loadDefinition_returns (room : Room sizes (n + 1) s) (defs : ProcedureDefinition) :
    ∃ t, loadDefinition sizes s defs = some t ∧ Room sizes n t := by
  unfold loadDefinition
  cases AccelType.ofNat? defs.type with
  | none => exact ⟨s, rfl, room.mono (Nat.le_succ n)⟩
  | some type =>
    obtain ⟨repo, proc, registered, free, total⟩ := araxProcRegister_returns room defs.name
    simp only [registered, Option.map_some]
    exact ⟨_, rfl, free, total⟩

theorem loadDefinitions_returns {defs : List ProcedureDefinition}
    (room : Room sizes (defs.length + n) s) :
    ∃ t, defs.foldlM (loadDefinition sizes) s = some t ∧ Room sizes n t := by
  induction defs generalizing s with
  | nil => exact ⟨s, rfl, room.mono (Nat.le_add_left _ _)⟩
  | cons d defs ih =>
    have more : Room sizes (defs.length + n + 1) s :=
      room.mono (by rw [List.length_cons]; omega)
    obtain ⟨mid, first, room'⟩ := loadDefinition_returns more d
    obtain ⟨t, rest, left⟩ := ih room'
    refine ⟨t, ?_, left⟩
    rw [List.foldlM_cons, first]
    exact rest

theorem loadLibrary_returns {libFile : String} {image : Image}
    (room : Room sizes (kernelCount [(libFile, image)] + n) s) :
    ∃ found t, loadLibrary sizes s libFile image = some (found, t) ∧ Room sizes n t := by
  have same : Room sizes n s := room.mono (Nat.le_add_left _ _)
  unfold loadLibrary
  split_ifs with named known
  · exact ⟨true, s, rfl, same⟩
  · cases image with
    | none => exact ⟨false, s, rfl, same⟩
    | some defs =>
      have enough : Room sizes (defs.length + n) { s with libs := s.libs ++ [(libFile, defs)] } :=
        ⟨room.free, room.total⟩
      obtain ⟨t, loads, left⟩ := loadDefinitions_returns enough
      simp only [loads, Option.map_some]
      exact ⟨true, t, rfl, left⟩
  · exact ⟨false, s, rfl, same⟩

mutual

/-- A file is left to `loadLibrary`. -/
theorem loadFolder_returns {s : KernelTable} {n : Nat} {path : String} (entry : FileEntry)
    (room : Room sizes (kernelCount (entry.files path) + n) s) :
    ∃ found t, loadFolder sizes s path entry = some (found, t) ∧
      (if found then Room sizes n t
        else Room sizes (kernelCount [(path, entry.image)] + n) t) := by
  match entry with
  | .file image =>
    rw [loadFolder]
    split_ifs with known
    · exact ⟨true, s, rfl, room.mono (Nat.le_add_left _ _)⟩
    · exact ⟨false, s, rfl, room⟩
  | .folder wd entries =>
    rw [loadFolder]
    split_ifs with known
    · exact ⟨true, s, rfl, room.mono (Nat.le_add_left _ _)⟩
    · obtain ⟨t, loads, left⟩ := loadEntries_returns (s := { s with
        libFdPaths := Function.update s.libFdPaths wd path, libPaths := path :: s.libPaths })
        entries ⟨room.free, room.total⟩
      rw [loads]
      exact ⟨true, t, rfl, left⟩

theorem loadEntries_returns {s : KernelTable} {n : Nat} {path : String} (entries : FolderEntries)
    (room : Room sizes (kernelCount (entries.files path) + n) s) :
    ∃ t, loadEntries sizes s path entries = some t ∧ Room sizes n t := by
  match entries with
  | .nil => exact ⟨s, rfl, room.mono (Nat.le_add_left _ _)⟩
  | .cons name entry rest =>
    by_cases hidden : Hidden name
    · rw [FolderEntries.files, if_pos hidden, List.nil_append] at room
      rw [loadEntries, if_pos hidden]
      exact loadEntries_returns rest room
    · rw [FolderEntries.files, if_neg hidden, kernelCount_append, Nat.add_assoc] at room
      rw [loadEntries, if_neg hidden]
      obtain ⟨found, mid, folder, left⟩ :=
        loadFolder_returns (n := kernelCount (rest.files path) + n) entry room
      rw [folder, Option.bind_some]
      cases found with
      | true => exact loadEntries_returns rest left
      | false =>
        obtain ⟨loaded, next, library, left'⟩ := loadLibrary_returns left
        simp only [Bool.false_eq_true, if_false, library, Option.map_some, Option.bind_some]
        exact loadEntries_returns rest left'

end

end Memory

/-! ### Folders that are new -/

/-- **Loading a folder.** If nothing under a folder was searched before, `loadFolder` searches all
of it when it returns: every library in it is loaded, or was loaded already, nothing else is, and
another call changes nothing. It returns if there is memory for a procedure for every kernel. -/
theorem folder_loaded (sizes : Sizeofs) (s : KernelTable) (libPath : String) (wd : Int)
    (entries : FolderEntries)
    (fresh : ∀ p ∈ (FileEntry.folder wd entries).paths libPath, p ∉ s.libPaths)
    (distinct : ((FileEntry.folder wd entries).paths libPath).Nodup) :
    (∀ found t, loadFolder sizes s libPath (.folder wd entries) = some (found, t) →
      found = true ∧ Searched s t (entries.files libPath) (libPath :: entries.folders libPath) ∧
        loadFolder sizes t libPath (.folder wd entries) = some (true, t)) ∧
    (Room sizes (kernelCount (entries.files libPath)) s →
      (loadFolder sizes s libPath (.folder wd entries)).isSome) := by
  refine ⟨fun found t done => ?_, fun room => ?_⟩
  · rcases loadFolder_searched _ fresh distinct done with ⟨-, -, file⟩ | ⟨yes, searched⟩
    · cases file
    · refine ⟨yes, searched, ?_⟩
      rw [loadFolder, if_pos]
      exact (searched.paths libPath).mpr (.inr List.mem_cons_self)
  · have enough : Room sizes
        (kernelCount ((FileEntry.folder wd entries).files libPath) + 0) s := room
    obtain ⟨found, t, returned, -⟩ := loadFolder_returns (.folder wd entries) enough
    rw [returned]
    rfl

/-- A folder with a library, a file that is none, a hidden folder, and a folder with a library of
another name. -/
def kernelTree : FolderEntries :=
  .cons "liba.so" (.file (some [⟨"add", 3, some 10⟩])) (.cons "notes.txt" (.file none)
    (.cons ".git" (.folder 2 (.cons "libc.so" (.file (some [⟨"div", 3, some 12⟩])) .nil))
      (.cons "gpu" (.folder 3 (.cons "libb.so.1" (.file (some [⟨"mul", 1, some 11⟩])) .nil)) .nil)))

theorem folder_loaded_at_tree : ∃ t,
    loadFolder someSizes (kernelInit 4096) "lib" (.folder 1 kernelTree) = some (true, t) ∧
      Searched (kernelInit 4096) t (kernelTree.files "lib")
        ("lib" :: kernelTree.folders "lib") := by
  obtain ⟨searches, returns⟩ := folder_loaded someSizes (kernelInit 4096) "lib" 1 kernelTree
    (fun _ _ none => by cases none) (by decide +kernel)
  have room : Room someSizes (kernelCount (kernelTree.files "lib")) (kernelInit 4096) :=
    ⟨by decide +kernel, Nat.le_refl _⟩
  obtain ⟨⟨found, t⟩, done⟩ := Option.isSome_iff_exists.mp (returns room)
  obtain ⟨yes, searched, -⟩ := searches found t done
  exact ⟨t, yes ▸ done, searched⟩

end Arax.Core
