/-
**Procedures and their names (`src/arch/shm/impl.c`, `src/core/arax_pipe.c`,
`src/core/arax_object.c`).**

`arax_proc_register` and `arax_proc_get` look a procedure up by its name, and a name that is not
found is registered. An object keeps at most `ARAX_OBJECT_NAME_SIZE - 1` characters of its name, and
`arax_pipe_find_proc` compares what it kept with all characters of the name that is asked for.

`first` records which procedure the first registration of a name returned. A run is any sequence of
the two calls.

* `RegistryOk` — names lead to the procedures of their first registration, different names to
  different ones.
* `registry_ok_iff` — this holds in all states of a run exactly if every name that is registered
  fits into an object.
-/

import Mathlib.Data.List.Find
import Arax.Core.Api
import Arax.Core.Issue
import Arax.Core.Conservation
import Arax.Lib.Run

namespace Arax.Core

open Arax.Lib

/-- `arax_proc_get`, where `none` in place of a procedure is `NULL`. -/
def araxProcGetOrNull (r : ObjectRepo) (name : String) : Option (ObjectRepo × Option Nat) :=
  match araxPipeFindProc r name with
  | some proc => (araxObjectRefInc r proc).map fun r => (r, some proc)
  | none => some (r, none)

/-- Its callers in the library abort on `NULL`. -/
theorem araxProcGet_eq (r : ObjectRepo) (name : String) :
    araxProcGet r name =
      (araxProcGetOrNull r name).bind fun (r, proc) => proc.map fun proc => (r, proc) := by
  unfold araxProcGet araxProcGetOrNull
  cases araxPipeFindProc r name with
  | none => rfl
  | some proc =>
    cases h : araxObjectRefInc r proc <;> simp [h]

/-- A call. -/
inductive RegistryCall where
  | register (name : String)
  | get (name : String)

/-- The repository, and the procedure that the first registration of each name returned. -/
structure Registry where
  repo : ObjectRepo
  first : String → Option Nat

/-- Before any call. -/
def registryInit (size : Nat) : Registry where
  repo := araxObjectRepoInit size
  first := fun _ => none

/-- The call. -/
def registryStep (sizes : Sizeofs) (s : Registry) : RegistryCall → Option Registry
  | .register name => (araxProcRegister sizes s.repo name).map fun (repo, proc) =>
      { repo := repo
        first := if s.first name = none then Function.update s.first name (some proc)
          else s.first }
  | .get name => (araxProcGetOrNull s.repo name).map fun (repo, _) => { s with repo := repo }

/-- **The registry is a function of the name.** -/
structure RegistryOk (sizes : Sizeofs) (s : Registry) : Prop where
  /-- `arax_proc_get` returns the procedure of the first registration, or `NULL` if there was
  none. -/
  get : ∀ name, (araxProcGetOrNull s.repo name).map Prod.snd = some (s.first name)
  /-- Another registration returns it as well. -/
  again : ∀ name proc next proc', s.first name = some proc →
    araxProcRegister sizes s.repo name = some (next, proc') → proc' = proc
  distinct : ∀ name name' proc, s.first name = some proc → s.first name' = some proc → name = name'

/-- **The condition on a call.** A name that is registered fits into an object. -/
def NameGuard (_ : Registry) : RegistryCall → Prop
  | .register name => name.length < araxObjectNameSize
  | .get _ => True

instance (s : Registry) : (call : RegistryCall) → Decidable (NameGuard s call)
  | .register name => inferInstanceAs (Decidable (name.length < araxObjectNameSize))
  | .get _ => isTrue trivial

/-! ### Names -/

theorem objectName_length (name : String) : (objectName name).length < araxObjectNameSize := by
  unfold objectName araxObjectNameSize
  simp

/-- Exactly the names that fit are kept. -/
theorem objectName_eq_iff {name : String} :
    objectName name = name ↔ name.length < araxObjectNameSize := by
  constructor
  · intro kept
    rw [← kept]
    exact objectName_length name
  · intro fits
    unfold objectName
    have short : name.toList.length ≤ araxObjectNameSize - 1 := by
      rw [String.length_toList]
      exact Nat.le_pred_of_lt fits
    rw [List.take_of_length_le short, String.ofList_toList]

/-! ### Lookups -/

/-- What is known of the procedures in the list. -/
structure RegistryInv (s : Registry) : Prop where
  listed : ∀ id ∈ s.repo.list .proc, ∃ o, s.repo.live id = some o ∧
    o.name.length < araxObjectNameSize
  inside : ∀ id ∈ s.repo.list .proc, id < s.repo.next
  given : ∀ name proc, s.first name = some proc → proc < s.repo.next

section Lookups

variable {sizes : Sizeofs} {s t : Registry} {r next : ObjectRepo} {name : String} {proc : Nat}

/-- A lookup only depends on the list and the names in it. -/
theorem find_congr (list : next.list .proc = r.list .proc)
    (names : ∀ id ∈ r.list .proc,
      (next.live id).map AraxObject.name = (r.live id).map AraxObject.name) :
    araxPipeFindProc next name = araxPipeFindProc r name := by
  unfold araxPipeFindProc
  rw [list]
  exact List.find?_congr fun id member => by rw [names id member]

/-- What is found has the name that was asked for. -/
theorem find_some (found : araxPipeFindProc r name = some proc) :
    proc ∈ r.list .proc ∧ (r.live proc).map AraxObject.name = some name := by
  refine ⟨List.mem_of_find?_eq_some found, ?_⟩
  simpa using List.find?_some found

/-- Only names that fit into an object are found. -/
theorem RegistryInv.short (inv : RegistryInv s) (found : araxPipeFindProc s.repo name = some proc) :
    name.length < araxObjectNameSize := by
  obtain ⟨member, named⟩ := find_some found
  obtain ⟨o, live, short⟩ := inv.listed proc member
  rw [live] at named
  exact Option.some.inj named ▸ short

/-- `arax_proc_get` returns what is found. -/
theorem RegistryInv.get_eq (inv : RegistryInv s) (name : String) :
    (araxProcGetOrNull s.repo name).map Prod.snd = some (araxPipeFindProc s.repo name) := by
  unfold araxProcGetOrNull
  cases found : araxPipeFindProc s.repo name with
  | none => rfl
  | some proc =>
    obtain ⟨o, live, -⟩ := inv.listed proc (find_some found).1
    simp [araxObjectRefInc, live]

/-- In terms of lookups, the registry is right if they find the first registrations. -/
theorem RegistryInv.ok_iff (inv : RegistryInv s) :
    RegistryOk sizes s ↔ (∀ name, araxPipeFindProc s.repo name = s.first name) ∧
      ∀ name name' proc, s.first name = some proc → s.first name' = some proc → name = name' := by
  constructor
  · intro ok
    exact ⟨fun name => Option.some.inj ((inv.get_eq name).symm.trans (ok.get name)), ok.distinct⟩
  · rintro ⟨finds, distinct⟩
    refine ⟨fun name => (inv.get_eq name).trans (congrArg some (finds name)), ?_, distinct⟩
    intro name proc next proc' first again
    obtain ⟨found, -⟩ | ⟨absent, -⟩ := araxProcRegister_cases again
    · exact Option.some.inj (found.symm.trans ((finds name).trans first))
    · cases absent.symm.trans ((finds name).trans first)

/-! ### The calls -/

/-- A reference to a procedure changes no name. -/
theorem name_refInc (done : araxObjectRefInc r proc = some next) (id : Nat) :
    (next.live id).map AraxObject.name = (r.live id).map AraxObject.name := by
  obtain ⟨o, live, rfl⟩ := Option.map_eq_some_iff.mp done
  obtain ⟨here, alive⟩ := ObjectRepo.live_some live
  unfold ObjectRepo.live
  rw [ObjectRepo.objs_set]
  split_ifs with same
  · rw [same, here]
    simp [Option.filter, alive]
  · rfl

/-- The procedures after a registration. -/
theorem list_register {size : Nat}
    (done : araxObjectRegister r .proc name size 1 = some (next, proc)) :
    proc = r.next ∧ next.next = r.next + 1 ∧ next.list .proc = proc :: r.list .proc := by
  obtain ⟨number, -, shape⟩ := register_some done
  rw [shape, number]
  refine ⟨rfl, rfl, ?_⟩
  show Function.update r.list .proc (r.next :: r.list .proc) .proc = _
  exact Function.update_self ..

theorem live_register {size : Nat}
    (done : araxObjectRegister r .proc name size 1 = some (next, proc)) (id : Nat) :
    next.live id = if id = r.next then some (freshObject .proc name size 1) else r.live id := by
  rw [ObjectRepo.live, objs_register done]
  split_ifs <;> rfl

/-- A registration adds one name. -/
theorem find_register {size : Nat} (inside : ∀ id ∈ r.list .proc, id < r.next)
    (done : araxObjectRegister r .proc name size 1 = some (next, proc)) (other : String) :
    araxPipeFindProc next other =
      if objectName name = other then some proc else araxPipeFindProc r other := by
  obtain ⟨number, -, list⟩ := list_register done
  have new : (next.live proc).map AraxObject.name = some (objectName name) := by
    rw [live_register done, if_pos number]
    rfl
  have rest : (r.list .proc).find? (fun id => (next.live id).map AraxObject.name == some other) =
      araxPipeFindProc r other :=
    List.find?_congr fun id member => by
      rw [live_register done, if_neg (Nat.ne_of_lt (inside id member))]
  rw [araxPipeFindProc, list, List.find?_cons, new, rest]
  by_cases same : objectName name = other
  · simp [same]
  · have apart : (some (objectName name) == some other) = false := by simpa using same
    rw [apart, if_neg same]

/-- What `arax_proc_get` does. -/
theorem araxProcGetOrNull_cases {found : Option Nat}
    (done : araxProcGetOrNull r name = some (next, found)) :
    (found = none ∧ next = r) ∨ ∃ proc, found = some proc ∧ araxPipeFindProc r name = some proc ∧
      araxObjectRefInc r proc = some next := by
  unfold araxProcGetOrNull at done
  cases lookup : araxPipeFindProc r name with
  | none =>
    rw [lookup] at done
    cases done
    exact .inl ⟨rfl, rfl⟩
  | some proc =>
    rw [lookup] at done
    obtain ⟨counted, ref, pair⟩ := Option.map_eq_some_iff.mp done
    cases pair
    exact .inr ⟨proc, rfl, rfl, ref⟩

/-- `arax_proc_get` keeps what is known, and every lookup. -/
theorem RegistryInv.get (inv : RegistryInv s) {found : Option Nat}
    (done : araxProcGetOrNull s.repo name = some (next, found)) :
    RegistryInv { s with repo := next } ∧
      ∀ other, araxPipeFindProc next other = araxPipeFindProc s.repo other := by
  rcases araxProcGetOrNull_cases done with ⟨-, rfl⟩ | ⟨proc, -, -, ref⟩
  · exact ⟨inv, fun _ => rfl⟩
  · have names := name_refInc ref
    obtain ⟨list, number⟩ : next.list = s.repo.list ∧ next.next = s.repo.next := by
      obtain ⟨o, live, shape⟩ := Option.map_eq_some_iff.mp ref
      rw [← shape]
      exact ⟨rfl, rfl⟩
    refine ⟨⟨fun id member => ?_, fun id member => ?_, fun other given first => ?_⟩,
      fun other => ?_⟩
    · obtain ⟨o, there, short⟩ := inv.listed id (list ▸ member)
      have named := names id
      rw [there] at named
      obtain ⟨o', there', same⟩ := Option.map_eq_some_iff.mp named
      exact ⟨o', there', same ▸ short⟩
    · exact number ▸ inv.inside id (list ▸ member)
    · exact number ▸ inv.given other given first
    · exact find_congr (congrFun list .proc) fun id _ => names id

/-- A new procedure keeps what is known. -/
theorem RegistryInv.register (inv : RegistryInv s) {size : Nat}
    (done : araxObjectRegister s.repo .proc name size 1 = some (next, proc)) :
    RegistryInv { repo := next, first := Function.update s.first name (some proc) } := by
  obtain ⟨number, after, list⟩ := list_register done
  refine ⟨fun id (member : id ∈ next.list .proc) => ?_,
    fun id (member : id ∈ next.list .proc) => ?_,
    fun other given (first : Function.update s.first name (some proc) other = some given) => ?_⟩
  · show ∃ o, next.live id = some o ∧ o.name.length < araxObjectNameSize
    rw [live_register done]
    rcases List.mem_cons.mp (list ▸ member) with rfl | old
    · rw [if_pos number]
      exact ⟨_, rfl, objectName_length name⟩
    · rw [if_neg (Nat.ne_of_lt (inv.inside id old))]
      exact inv.listed id old
  · show id < next.next
    rcases List.mem_cons.mp (list ▸ member) with rfl | old
    · omega
    · have inside := inv.inside id old
      omega
  · show given < next.next
    by_cases same : other = name
    · rw [same, Function.update_self] at first
      cases first
      omega
    · rw [Function.update_of_ne same] at first
      have inside := inv.given other given first
      omega

/-- Different names keep different procedures if the new one is fresh. -/
theorem distinct_update {first : String → Option Nat}
    (distinct : ∀ name name' proc, first name = some proc → first name' = some proc → name = name')
    (fresh : ∀ other, first other ≠ some proc) (one two : String) (given : Nat)
    (ofOne : Function.update first name (some proc) one = some given)
    (ofTwo : Function.update first name (some proc) two = some given) : one = two := by
  rw [Function.update_apply] at ofOne ofTwo
  split_ifs at ofOne ofTwo with isOne isTwo isTwo
  · rw [isOne, isTwo]
  · exact absurd (ofTwo.trans ofOne.symm) (fresh two)
  · exact absurd (ofOne.trans ofTwo.symm) (fresh one)
  · exact distinct one two given ofOne ofTwo

/-- **The condition is exact.** From a state in which names lead to first registrations, exactly the
calls that meet it lead to such a state. -/
theorem registryStep_exact {call : RegistryCall} (inv : RegistryInv s) (ok : RegistryOk sizes s)
    (step : registryStep sizes s call = some t) :
    RegistryInv t ∧ (RegistryOk sizes t ↔ NameGuard s call) := by
  obtain ⟨finds, distinct⟩ := inv.ok_iff.mp ok
  cases call with
  | get name =>
    obtain ⟨⟨next, found⟩, done, pair⟩ := Option.map_eq_some_iff.mp step
    cases pair
    obtain ⟨inv', same⟩ := inv.get done
    refine ⟨inv', fun _ => trivial, fun _ => inv'.ok_iff.mpr ⟨fun other => ?_, distinct⟩⟩
    exact (same other).trans (finds other)
  | register name =>
    obtain ⟨⟨next, proc⟩, done, pair⟩ := Option.map_eq_some_iff.mp step
    rcases araxProcRegister_cases done with ⟨lookup, rfl⟩ | ⟨lookup, done⟩
    · have known : s.first name ≠ none := by
        rw [← finds, lookup]
        exact Option.some_ne_none _
      simp only [if_neg known] at pair
      cases pair
      exact ⟨inv, fun _ => inv.short lookup, fun _ => ok⟩
    · have unknown : s.first name = none := (finds name).symm.trans lookup
      simp only [if_pos unknown] at pair
      cases pair
      have inv' := inv.register done
      have number := (list_register done).1
      have finds' := find_register inv.inside done
      refine ⟨inv', fun ok' => ?_, fun fits => inv'.ok_iff.mpr ⟨fun other => ?_, ?_⟩⟩
      · -- the name is found again, so it is the one that was kept
        have again : araxPipeFindProc next name = Function.update s.first name (some proc) name :=
          (inv'.ok_iff.mp ok').1 name
        rw [finds', lookup, Function.update_self] at again
        split_ifs at again with kept
        exact objectName_eq_iff.mp kept
      · show araxPipeFindProc next other = Function.update s.first name (some proc) other
        rw [finds', objectName_eq_iff.mpr fits, finds]
        by_cases same : name = other
        · rw [if_pos same, same, Function.update_self]
        · rw [if_neg same, Function.update_of_ne (Ne.symm same)]
      · -- the new procedure has a number that no name was given
        have fresh : ∀ other, s.first other ≠ some proc := by
          intro other given
          have inside := inv.given other proc given
          omega
        exact distinct_update distinct fresh

end Lookups

theorem registryInit_inv (size : Nat) : RegistryInv (registryInit size) :=
  ⟨fun _ => nofun, fun _ => nofun, fun _ _ => nofun⟩

/-- **The registry.** In every state of a run, names lead to the procedures of their first
registration, and different names to different procedures, if and only if every name that the run
registers fits into an object. -/
theorem registry_ok_iff (sizes : Sizeofs) (size : Nat) (calls : List RegistryCall) (last : Registry)
    (run : exec (registryStep sizes) (registryInit size) calls = some last) :
    Along (registryStep sizes) (RegistryOk sizes) (registryInit size) calls ↔
      Guarded (registryStep sizes) NameGuard (registryInit size) calls := by
  refine along_iff_guarded RegistryInv (fun _ _ _ => registryStep_exact) (registryInit_inv size)
    ?_ run
  exact (registryInit_inv size).ok_iff.mpr ⟨fun _ => rfl, fun _ _ _ => nofun⟩

/-- Two names with a common prefix; one of them is registered twice. -/
theorem registry_ok_iff_at_two :
    ∃ last, exec (registryStep someSizes) (registryInit 4096) [.register "kernel", .get "kernel",
        .register "kernel2", .register "kernel"] = some last ∧
      Along (registryStep someSizes) (RegistryOk someSizes) (registryInit 4096)
        [.register "kernel", .get "kernel", .register "kernel2", .register "kernel"] := by
  have view : (exec (registryStep someSizes) (registryInit 4096) [.register "kernel",
      .get "kernel", .register "kernel2", .register "kernel"]).isSome = true := by decide +kernel
  obtain ⟨last, run⟩ := Option.isSome_iff_exists.mp view
  exact ⟨last, run, (registry_ok_iff someSizes 4096 _ last run).mpr (by decide +kernel)⟩

/-- **A name of 32 characters.** `arax_proc_get` does not find it after it was registered. -/
theorem registry_loses_name :
    ¬∀ (sizes : Sizeofs) (size : Nat) (calls : List RegistryCall) (last : Registry),
      exec (registryStep sizes) (registryInit size) calls = some last → RegistryOk sizes last := by
  intro claimed
  have view : (exec (registryStep someSizes) (registryInit 4096)
      [.register "abcdefghijklmnopqrstuvwxyz012345"]).map (fun s =>
        (s.first "abcdefghijklmnopqrstuvwxyz012345",
          (araxProcGetOrNull s.repo "abcdefghijklmnopqrstuvwxyz012345").map Prod.snd)) =
      some (some 0, some none) := by decide +kernel
  obtain ⟨last, run, ends⟩ := Option.map_eq_some_iff.mp view
  obtain ⟨first, lost⟩ := Prod.mk.inj ends
  have found := (claimed someSizes 4096 _ last run).get "abcdefghijklmnopqrstuvwxyz012345"
  rw [first, lost] at found
  cases found

end Arax.Core
