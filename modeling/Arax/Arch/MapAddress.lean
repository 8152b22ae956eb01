/-
**Where the processes map the segment (`src/arch/shm/impl.c`, `src/core/arax_pipe.c`).**

The segment holds pointers to itself, so every process has to map it at the same address. In
`_arax_init` a process maps it anywhere; `arax_pipe_mmap_address` swaps that address into `self` if
nobody has done so before, and reads `self` otherwise; and a process whose map is misplaced unmaps
it and maps the segment at `self`. A process that `arax_pipe_have_to_mmap` finds in the process map
counts as mapped already, and takes `self` for the address of its map.

The operating system chooses what `mmap` returns and whether `munmap` finds a map (its length is
read from the segment, and is 0 until the first process has initialised the pipe). A process may die
at any point, and its pid may be used again.

* `mapStep` — the accesses to the segment and the calls of the system.
* `map_addresses_agree` — all processes that get through `_arax_init`, at any time, have the same
  address, and `self` never changes.
* `mapped_iff` — `arax_state.vpipe` is always an address at which the process has the segment,
  exactly if no misplaced process is found in the process map.
-/

import Arax.Core.ProcMap

namespace Arax.Arch

open Arax.Lib Arax.Core

/-- Where a process is in `_arax_init`, with the values of `arax_state.vpipe` and `shm_addr`. `none`
is `MAP_FAILED`. -/
inductive MapPlace where
  | out
  /-- At the swap of `arax_pipe_mmap_address`. -/
  | address (vpipe : Nat)
  /-- At `return pipe->self`, after the swap has failed. -/
  | reread (vpipe : Nat)
  /-- At `arax_pipe_have_to_mmap`. -/
  | register (vpipe shmAddr : Nat)
  /-- At `munmap` and the second `mmap`. -/
  | remap (vpipe shmAddr : Nat)
  /-- At the test of `arax_state.vpipe` against `shm_addr`. -/
  | check (vpipe : Option Nat) (shmAddr : Nat)
  /-- Behind the test. -/
  | attached (vpipe : Nat)
  deriving DecidableEq

/-- The value of `arax_state.vpipe` from the first `mmap` on. -/
def MapPlace.vpipe : MapPlace → Option Nat
  | .out => none
  | .address vpipe | .reread vpipe | .register vpipe _ | .remap vpipe _ | .attached vpipe =>
    some vpipe
  | .check vpipe _ => vpipe

/-- `self` and `proc_map` of the segment, and where each process is and has the segment mapped. The
processes are numbered by their pids. -/
structure MapState where
  self : Nat
  procMap : Nat → Nat
  places : Nat → MapPlace
  maps : Nat → Finset Nat

/-- A zeroed segment, and no process yet. -/
def mapInit : MapState where
  self := 0
  procMap := fun _ => 0
  places := fun _ => .out
  maps := fun _ => ∅

/-- What a process does next. -/
inductive MapMove where
  /-- The first `mmap` returns an address, or `MAP_FAILED`. -/
  | mmap (ret : Option Nat)
  | swap
  | reread
  | haveToMmap
  /-- The misplaced map is found by `munmap` or not, and the second `mmap` returns. -/
  | remap (unmapped : Bool) (ret : Option Nat)
  | check
  /-- The last `arax_exit` of the process. -/
  | exit
  /-- The process is killed, or aborts. -/
  | die
  deriving DecidableEq

namespace MapState

/-- The process `pid` is now at `place`, with the segment mapped at `maps`. -/
def goto (s : MapState) (pid : Nat) (place : MapPlace) (maps : Finset Nat) : MapState :=
  { s with
    places := Function.update s.places pid place
    maps := Function.update s.maps pid maps }

/-- `FAIL` and `exit(1)`, or any other end of the process. -/
def dead (s : MapState) (pid : Nat) : MapState := s.goto pid .out ∅

end MapState

/-- What follows on `arax_pipe_have_to_mmap`. -/
def afterLookup (haveToMmap : Bool) (vpipe shmAddr : Nat) : MapPlace :=
  if haveToMmap then
    if shmAddr ≠ vpipe then .remap vpipe shmAddr else .check (some vpipe) shmAddr
  else .check (some shmAddr) shmAddr

/-- One move of one process. -/
def mapStep (s : MapState) : Nat × MapMove → Option MapState
  | (pid, .die) => some (s.dead pid)
  | (pid, .mmap ret) =>
    match s.places pid with
    | .out =>
      match ret with
      | none | some 0 => some (s.dead pid)
      | some vpipe => some (s.goto pid (.address vpipe) (insert vpipe (s.maps pid)))
    | _ => none
  | (pid, .swap) =>
    match s.places pid with
    | .address vpipe =>
      some (if s.self = 0 then
        { s.goto pid (.register vpipe vpipe) (s.maps pid) with self := vpipe }
      else s.goto pid (.reread vpipe) (s.maps pid))
    | _ => none
  | (pid, .reread) =>
    match s.places pid with
    | .reread vpipe => some (s.goto pid (.register vpipe s.self) (s.maps pid))
    | _ => none
  | (pid, .haveToMmap) =>
    match s.places pid with
    | .register vpipe shmAddr =>
      (araxPipeHaveToMmap s.procMap pid).map fun (procMap, haveToMmap) =>
        { s.goto pid (afterLookup haveToMmap vpipe shmAddr) (s.maps pid) with procMap := procMap }
    | _ => none
  | (pid, .remap unmapped ret) =>
    match s.places pid with
    | .remap vpipe shmAddr =>
      let left := if unmapped then (s.maps pid).erase vpipe else s.maps pid
      some (s.goto pid (.check ret shmAddr) (ret.elim left fun map => insert map left))
    | _ => none
  | (pid, .check) =>
    match s.places pid with
    | .check vpipe shmAddr =>
      some (if vpipe = some shmAddr ∧ shmAddr ≠ 0 then
          s.goto pid (.attached shmAddr) (s.maps pid)
        else s.dead pid)
    | _ => none
  | (pid, .exit) =>
    match s.places pid with
    | .attached vpipe =>
      match araxPipeMarkUnmap s.procMap pid with
      | some procMap => some { s.goto pid .out ((s.maps pid).erase vpipe) with procMap := procMap }
      | none => some (s.dead pid)
    | _ => none

/-- `arax_state.vpipe` of every process is an address at which it has the segment. -/
def AllMapped (s : MapState) : Prop :=
  ∀ pid vpipe, (s.places pid).vpipe = some vpipe → vpipe ∈ s.maps pid

/-- A process that is not told to map has the segment at `self` already. -/
def MapPlace.InPlace (haveToMmap : Option Bool) : MapPlace → Prop
  | .register vpipe shmAddr => haveToMmap = some false → shmAddr = vpipe
  | .out | .address _ | .reread _ | .remap _ _ | .check _ _ | .attached _ => True

/-- The condition on a move: no misplaced process is found in the process map. -/
def FoundInPlace (s : MapState) : Nat × MapMove → Prop
  | (pid, .haveToMmap) =>
    (s.places pid).InPlace ((araxPipeHaveToMmap s.procMap pid).map Prod.snd)
  | _ => True

instance (haveToMmap : Option Bool) : ∀ place : MapPlace, Decidable (place.InPlace haveToMmap)
  | .register vpipe shmAddr =>
    inferInstanceAs (Decidable (haveToMmap = some false → shmAddr = vpipe))
  | .out | .address _ | .reread _ | .remap _ _ | .check _ _ | .attached _ => isTrue trivial

instance (s : MapState) : ∀ move, Decidable (FoundInPlace s move)
  | (pid, .haveToMmap) => inferInstanceAs (Decidable ((s.places pid).InPlace _))
  | (_, .mmap _) | (_, .swap) | (_, .reread) | (_, .remap _ _) | (_, .check) | (_, .exit)
  | (_, .die) => isTrue trivial

/-! ### The invariant -/

/-- What holds at a place. Maps that are left over from earlier calls are not at `self`. -/
def MapPlaceInv (self : Nat) (maps : Finset Nat) : MapPlace → Prop
  | .out => self ∉ maps ∧ (self = 0 → maps = ∅)
  | .address vpipe => vpipe ≠ 0 ∧ (self ∈ maps → vpipe = self) ∧ (self = 0 → maps = {vpipe})
  | .reread vpipe => self ≠ 0 ∧ (self ∈ maps → vpipe = self)
  | .register vpipe shmAddr => self ≠ 0 ∧ shmAddr = self ∧ (self ∈ maps → vpipe = self)
  | .remap vpipe shmAddr => self ≠ 0 ∧ shmAddr = self ∧ vpipe ≠ self ∧ self ∉ maps
  | .check _ shmAddr => self ≠ 0 ∧ shmAddr = self
  | .attached vpipe => self ≠ 0 ∧ vpipe = self

/-- The invariant of all runs. -/
def MapInv (s : MapState) : Prop := ∀ pid, MapPlaceInv s.self (s.maps pid) (s.places pid)

section Steps

variable {s t : MapState} {pid : Nat}

/-- A process that moves without changing `self`. -/
theorem MapInv.goto {place : MapPlace} {maps : Finset Nat} (inv : MapInv s)
    (here : MapPlaceInv s.self maps place) : MapInv (s.goto pid place maps) := by
  intro other
  show MapPlaceInv s.self (Function.update s.maps pid maps other)
    (Function.update s.places pid place other)
  by_cases same : other = pid
  · subst same
    rw [Function.update_self, Function.update_self]
    exact here
  · rw [Function.update_of_ne same, Function.update_of_ne same]
    exact inv other

theorem MapInv.dead (inv : MapInv s) : MapInv (s.dead pid) :=
  inv.goto ⟨Finset.notMem_empty _, fun _ => rfl⟩

/-- The first address in `self`. The other processes that have a map have it where they are, and
there only. -/
theorem MapInv.swapped {vpipe : Nat} (inv : MapInv s) (here : s.places pid = .address vpipe)
    (zero : s.self = 0) :
    MapInv { s.goto pid (.register vpipe vpipe) (s.maps pid) with self := vpipe } := by
  have mine := inv pid
  rw [here] at mine
  intro other
  show MapPlaceInv vpipe (Function.update s.maps pid (s.maps pid) other)
    (Function.update s.places pid (.register vpipe vpipe) other)
  rw [Function.update_eq_self]
  by_cases same : other = pid
  · subst same
    rw [Function.update_self]
    exact ⟨mine.1, rfl, fun _ => rfl⟩
  · rw [Function.update_of_ne same]
    have theirs := inv other
    cases place : s.places other with
    | out =>
      rw [place] at theirs
      rw [theirs.2 zero]
      exact ⟨Finset.notMem_empty _, fun _ => rfl⟩
    | address there =>
      rw [place] at theirs
      rw [theirs.2.2 zero]
      exact ⟨theirs.1, fun member => (Finset.mem_singleton.mp member).symm,
        fun _ => rfl⟩
    | check ret shmAddr =>
      rw [place] at theirs
      exact absurd zero theirs.1
    | _ =>
      rw [place] at theirs
      exact absurd zero theirs.1

/-- A process that moves keeps the maps of the others. -/
theorem AllMapped.goto_iff {place : MapPlace} {maps : Finset Nat} (all : AllMapped s) :
    AllMapped (s.goto pid place maps) ↔ ∀ vpipe, place.vpipe = some vpipe → vpipe ∈ maps := by
  have entry : ∀ other, ((s.goto pid place maps).places other = if other = pid then place
      else s.places other) ∧ (s.goto pid place maps).maps other =
        if other = pid then maps else s.maps other := fun other =>
    ⟨Function.update_apply _ _ _ _, Function.update_apply _ _ _ _⟩
  constructor
  · intro kept vpipe here
    have mine := kept pid vpipe
    rw [(entry pid).1, (entry pid).2, if_pos rfl, if_pos rfl] at mine
    exact mine here
  · intro here other vpipe
    rw [(entry other).1, (entry other).2]
    by_cases same : other = pid
    · rw [if_pos same, if_pos same]
      exact here vpipe
    · rw [if_neg same, if_neg same]
      exact all other vpipe

theorem AllMapped.dead (all : AllMapped s) : AllMapped (s.dead pid) :=
  all.goto_iff.mpr fun _ none => by cases none

/-! ### The process map -/

theorem afterLookup_inv {self vpipe : Nat} {maps : Finset Nat} (answer : Bool) (set : self ≠ 0)
    (only : self ∈ maps → vpipe = self) :
    MapPlaceInv self maps (afterLookup answer vpipe self) := by
  cases answer with
  | true =>
    by_cases apart : self ≠ vpipe
    · rw [afterLookup, if_pos rfl, if_pos apart]
      exact ⟨set, rfl, apart.symm, fun member => apart (only member).symm⟩
    · rw [afterLookup, if_pos rfl, if_neg apart]
      exact ⟨set, rfl⟩
  | false => exact ⟨set, rfl⟩

/-- The lookup goes wrong exactly if it finds a misplaced process. -/
theorem afterLookup_mapped {self vpipe : Nat} {maps : Finset Nat} (answer : Bool)
    (mapped : vpipe ∈ maps) (only : self ∈ maps → vpipe = self) :
    (∀ address, (afterLookup answer vpipe self).vpipe = some address → address ∈ maps) ↔
      (answer = false → self = vpipe) := by
  cases answer with
  | true =>
    refine iff_of_true (fun address here => ?_) nofun
    have same : (afterLookup true vpipe self).vpipe = some vpipe := by
      rw [afterLookup, if_pos rfl]
      split_ifs <;> rfl
    cases same.symm.trans here
    exact mapped
  | false =>
    constructor
    · exact fun all _ => (only (all self rfl)).symm
    · rintro found _ ⟨⟩
      rw [found rfl]
      exact mapped

theorem foundInPlace_iff {vpipe shmAddr : Nat} {procMap : Nat → Nat} {answer : Bool}
    (place : s.places pid = .register vpipe shmAddr)
    (lookup : araxPipeHaveToMmap s.procMap pid = some (procMap, answer)) :
    FoundInPlace s (pid, .haveToMmap) ↔ (answer = false → shmAddr = vpipe) := by
  simp only [FoundInPlace, MapPlace.InPlace, place, lookup]
  exact ⟨fun all no => all (congrArg some no), fun all no => all (Option.some.inj no)⟩

/-- **One move.** It keeps the invariant, and `self` once that is set; and it keeps the maps exactly
if it meets its condition. -/
theorem mapStep_spec (move : Nat × MapMove) (inv : MapInv s) (step : mapStep s move = some t) :
    MapInv t ∧ (s.self ≠ 0 → t.self = s.self) ∧
      (AllMapped s → (AllMapped t ↔ FoundInPlace s move)) := by
  obtain ⟨pid, kind⟩ := move
  have mine := inv pid
  have here : ∀ all : AllMapped s,
      ∀ vpipe, (s.places pid).vpipe = some vpipe → vpipe ∈ s.maps pid :=
    fun all => all pid
  cases kind with
  | die =>
    cases step
    exact ⟨inv.dead, fun _ => rfl, fun all => iff_of_true all.dead trivial⟩
  | mmap ret =>
    simp only [mapStep] at step
    split at step
    · rename_i place
      rw [place] at mine
      split at step
      · cases step
        exact ⟨inv.dead, fun _ => rfl, fun all => iff_of_true all.dead trivial⟩
      · cases step
        exact ⟨inv.dead, fun _ => rfl, fun all => iff_of_true all.dead trivial⟩
      · rename_i vpipe nonzero
        cases step
        refine ⟨inv.goto ⟨fun zero => nonzero (by rw [zero]), fun member => ?_, fun zero => ?_⟩,
          fun _ => rfl, fun all => iff_of_true (all.goto_iff.mpr ?_) trivial⟩
        · exact ((Finset.mem_insert.mp member).resolve_right mine.1).symm
        · rw [mine.2 zero]
          rfl
        · rintro _ ⟨⟩
          exact Finset.mem_insert_self _ _
    · cases step
  | swap =>
    simp only [mapStep] at step
    split at step
    · rename_i vpipe place
      have there := here
      rw [place] at mine there
      cases step
      split_ifs with zero
      · refine ⟨inv.swapped place zero, fun set => absurd zero set, fun all => ?_⟩
        have kept : AllMapped (s.goto pid (.register vpipe vpipe) (s.maps pid)) :=
          all.goto_iff.mpr (there all)
        exact iff_of_true kept trivial
      · exact ⟨inv.goto ⟨zero, mine.2.1⟩, fun _ => rfl,
          fun all => iff_of_true (all.goto_iff.mpr (there all)) trivial⟩
    · cases step
  | reread =>
    simp only [mapStep] at step
    split at step
    · rename_i vpipe place
      have there := here
      rw [place] at mine there
      cases step
      exact ⟨inv.goto ⟨mine.1, rfl, mine.2⟩, fun _ => rfl,
        fun all => iff_of_true (all.goto_iff.mpr (there all)) trivial⟩
    · cases step
  | haveToMmap =>
    simp only [mapStep] at step
    split at step
    · rename_i vpipe shmAddr place
      have there := here
      rw [place] at mine there
      obtain ⟨set, rfl, only⟩ := mine
      obtain ⟨⟨procMap, answer⟩, lookup, rfl⟩ := Option.map_eq_some_iff.mp step
      have moved : MapInv (s.goto pid (afterLookup answer vpipe s.self) (s.maps pid)) :=
        inv.goto (afterLookup_inv answer set only)
      refine ⟨moved, fun _ => rfl, fun all => ?_⟩
      rw [foundInPlace_iff place lookup]
      exact all.goto_iff.trans (afterLookup_mapped answer (there all vpipe rfl) only)
    · cases step
  | remap unmapped ret =>
    simp only [mapStep] at step
    split at step
    · rename_i vpipe shmAddr place
      rw [place] at mine
      cases step
      refine ⟨inv.goto ⟨mine.1, mine.2.1⟩, fun _ => rfl, fun all => ?_⟩
      refine iff_of_true (all.goto_iff.mpr ?_) trivial
      rintro address here
      change ret = some address at here
      rw [here]
      exact Finset.mem_insert_self _ _
    · cases step
  | check =>
    simp only [mapStep] at step
    split at step
    · rename_i vpipe shmAddr place
      have there := here
      rw [place] at mine there
      cases step
      split_ifs with proper
      · refine ⟨inv.goto mine, fun _ => rfl, fun all => ?_⟩
        refine iff_of_true (all.goto_iff.mpr ?_) trivial
        rintro _ ⟨⟩
        exact there all shmAddr proper.1
      · exact ⟨inv.dead, fun _ => rfl, fun all => iff_of_true all.dead trivial⟩
    · cases step
  | exit =>
    simp only [mapStep] at step
    split at step
    · rename_i vpipe place
      rw [place] at mine
      split at step
      · rename_i procMap _
        cases step
        have gone : MapPlaceInv s.self ((s.maps pid).erase vpipe) .out :=
          ⟨fun member => (Finset.mem_erase.mp member).1 mine.2.symm, fun zero => absurd zero mine.1⟩
        have moved : MapInv (s.goto pid .out ((s.maps pid).erase vpipe)) := inv.goto gone
        refine ⟨moved, fun _ => rfl, fun all => ?_⟩
        have kept : AllMapped (s.goto pid .out ((s.maps pid).erase vpipe)) :=
          all.goto_iff.mpr fun _ none => by cases none
        exact iff_of_true kept trivial
      · cases step
        exact ⟨inv.dead, fun _ => rfl, fun all => iff_of_true all.dead trivial⟩
    · cases step

/-! ### Runs -/

theorem mapInit_inv : MapInv mapInit := fun _ => ⟨Finset.notMem_empty _, fun _ => rfl⟩

theorem map_inv {moves : List (Nat × MapMove)} (run : exec mapStep mapInit moves = some s) :
    MapInv s :=
  exec_invariant (fun _ move _ inv step => (mapStep_spec move inv step).1) mapInit_inv run

/-- Once it is set, `self` stays. -/
theorem self_fixed {moves : List (Nat × MapMove)} (inv : MapInv s) (set : s.self ≠ 0)
    (run : exec mapStep s moves = some t) : t.self = s.self := by
  have keeps : ∀ u move v, MapInv u ∧ u.self = s.self → mapStep u move = some v →
      MapInv v ∧ v.self = s.self := by
    rintro u move v ⟨before, same⟩ step
    obtain ⟨after, fixed, -⟩ := mapStep_spec move before step
    exact ⟨after, (fixed (same ▸ set)).trans same⟩
  exact (exec_invariant keeps ⟨inv, rfl⟩ run).2

/-- **One address for all.** A process that is in the segment at some time of a run, and a process
that is in it at a later time, have the same address, whatever `mmap` returned to them first, and
whoever has left or died in between. -/
theorem map_addresses_agree (moves later : List (Nat × MapMove)) (s t : MapState)
    (run : exec mapStep mapInit moves = some s) (after : exec mapStep s later = some t)
    (pid other vpipe address : Nat) (first : s.places pid = .attached vpipe)
    (second : t.places other = .attached address) : address = vpipe := by
  have inv := map_inv run
  have inv' : MapInv t :=
    exec_invariant (fun _ move _ inv step => (mapStep_spec move inv step).1) inv after
  have mine := inv pid
  have theirs := inv' other
  rw [first] at mine
  rw [second] at theirs
  rw [theirs.2, mine.2, self_fixed inv mine.1 after]

/-- Process 7 maps the segment first, and leaves; process 8 was misplaced and stays. -/
def agreeMoves : List (Nat × MapMove) :=
  [(7, .mmap (some 4096)), (8, .mmap (some 8192)), (7, .swap), (8, .swap), (8, .reread),
    (7, .haveToMmap), (7, .check)]

def leaveMoves : List (Nat × MapMove) :=
  [(7, .exit), (8, .haveToMmap), (8, .remap true (some 4096)), (8, .check)]

theorem map_addresses_agree_at_two : ∃ s t vpipe address,
    exec mapStep mapInit agreeMoves = some s ∧ exec mapStep s leaveMoves = some t ∧
      s.places 7 = .attached vpipe ∧ t.places 8 = .attached address ∧ address = vpipe := by
  have first : (exec mapStep mapInit agreeMoves).map (fun s => s.places 7) =
      some (.attached 4096) := by decide +kernel
  have second : (exec mapStep mapInit (agreeMoves ++ leaveMoves)).map (fun t => t.places 8) =
      some (.attached 4096) := by decide +kernel
  obtain ⟨s, run, inside⟩ := Option.map_eq_some_iff.mp first
  rw [exec_append, run] at second
  obtain ⟨t, after, inside'⟩ := Option.map_eq_some_iff.mp second
  exact ⟨s, t, 4096, 4096, run, after, inside, inside',
    map_addresses_agree agreeMoves leaveMoves s t run after 7 8 4096 4096 inside inside'⟩

/-- **The map is where it is taken to be.** `arax_state.vpipe` of every process is an address at
which the process has the segment, in all states of a run, exactly if no process of the run is
misplaced and found in the process map: left there by a process with the same pid that failed or
died. -/
theorem mapped_iff (moves : List (Nat × MapMove)) (s : MapState)
    (run : exec mapStep mapInit moves = some s) :
    Along mapStep AllMapped mapInit moves ↔ Guarded mapStep FoundInPlace mapInit moves := by
  refine along_iff_guarded MapInv (fun u move v inv good step => ?_) mapInit_inv
    (fun _ _ none => by cases none) run
  obtain ⟨after, -, exact⟩ := mapStep_spec move inv step
  exact ⟨after, exact good⟩

/-- Process 7 dies in the segment; the next process with this pid is misplaced, and found. -/
def foundMoves : List (Nat × MapMove) :=
  [(7, .mmap (some 4096)), (7, .swap), (7, .haveToMmap), (7, .check), (7, .die),
    (7, .mmap (some 8192)), (7, .swap), (7, .reread), (7, .haveToMmap)]

theorem mapped_iff_fails_when_found : (∃ s, exec mapStep mapInit foundMoves = some s) ∧
    ¬Along mapStep AllMapped mapInit foundMoves := by
  have run : (exec mapStep mapInit foundMoves).isSome = true := by decide +kernel
  obtain ⟨s, run⟩ := Option.isSome_iff_exists.mp run
  refine ⟨⟨s, run⟩, fun along => ?_⟩
  have guarded := (mapped_iff foundMoves s run).mp along
  revert guarded
  decide +kernel

end Steps

end Arax.Arch
