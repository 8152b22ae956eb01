/-
**The last reference of an object, concurrently (`src/core/arax_object.c`).**

Any number of threads hold references to one object of the repository. `arax_object_ref_dec` is cut
at its shared accesses: the assertions, the lock, the atomic decrement, the second read of
`ref_count`, the unlinking, the unlock, the destructor and the free. `arax_object_ref_inc` is its
assertions and the atomic increment. `arax_proc_get` looks the object up in the list under the lock,
and increments after it has released the lock.

The second read decides only whether the object is unlinked: the destructor and the free follow in
either case. So an increment that comes after the decrement to zero takes a reference to an object
that is destroyed, and that may still be in the list.

* `last_reference_safe` — if every increment finds a positive count, the destructor and the free run
  only without references and on an unlinked object, in every interleaving.
* `last_reference_lost` — the interleaving in which they do not.
-/

import Mathlib.Data.List.Basic
import Mathlib.Logic.Function.Basic
import Mathlib.Tactic.SplitIfs
import Arax.Lib.Run

namespace Arax.Core

open Arax.Lib

/-- Where a thread is in its call. -/
inductive RefThread where
  | idle
  /-- `arax_object_ref_dec` passed its assertions. -/
  | decAsserted
  /-- `arax_object_ref_dec` holds the lock of the list. -/
  | decLocked
  /-- The decrement gave `refs`. -/
  | decCounted (refs : Int)
  /-- The second read of `ref_count` gave `refs` again. -/
  | decUnlink
  /-- At the unlock of the branch for `refs == 0`. -/
  | decUnlock
  /-- At `dtor_table[obj->type](repo->pipe, obj)`. -/
  | decDtor
  /-- At `arch_alloc_free`. -/
  | decFree
  /-- `arax_pipe_find_proc` holds the lock of the list. -/
  | findLocked
  /-- `arax_pipe_find_proc` is at its unlock, with what it found. -/
  | findUnlock (found : Bool)
  /-- Before the assertions of `arax_object_ref_inc`. -/
  | incEntered
  /-- `arax_object_ref_inc` passed its assertions. -/
  | incAsserted
  deriving DecidableEq

/-- The object, the lock of its list, the threads, and who holds a reference. -/
structure RefState where
  refCount : Int
  /-- The object is in the list of its type. -/
  linked : Bool
  lock : Bool
  /-- The destructor ran. -/
  destroyed : Bool
  /-- The memory was given back. -/
  freed : Bool
  threads : Nat → RefThread
  /-- One entry for every outstanding reference: the thread that holds it. -/
  holders : List Nat

/-- What a thread does next. -/
inductive RefMove where
  /-- Call `arax_object_ref_dec` on a reference it holds. -/
  | dec
  /-- Call `arax_object_ref_inc` on an object it holds a reference to. -/
  | inc
  /-- Call `arax_proc_get`. -/
  | get
  /-- Make the next access of the call it is in. -/
  | next
  deriving DecidableEq

/-- A registered object, with the references `arax_object_register` gave out. -/
def refInit (holders : List Nat) : RefState where
  refCount := holders.length
  linked := true
  lock := false
  destroyed := false
  freed := false
  threads := fun _ => .idle
  holders := holders

/-- The thread `th` is now at `place`. -/
def RefState.goto (s : RefState) (th : Nat) (place : RefThread) : RefState :=
  { s with threads := Function.update s.threads th place }

/-- A shared access of `arax_object_ref_dec`. -/
def refDecStep (s : RefState) (th : Nat) : RefThread → Option RefState
  | .decAsserted =>
    if s.lock then none else some { s.goto th .decLocked with lock := true }
  | .decLocked =>
    some { s.goto th (.decCounted (s.refCount - 1)) with
      refCount := s.refCount - 1, holders := s.holders.erase th }
  | .decCounted refs =>
    some (if refs = 0 then
        -- the second read decides about the unlinking only
        if refs = s.refCount then s.goto th .decUnlink else s.goto th .decUnlock
      else { s.goto th .idle with lock := false })
  | .decUnlink => some { s.goto th .decUnlock with linked := false }
  | .decUnlock => some { s.goto th .decDtor with lock := false }
  | .decDtor => some { s.goto th .decFree with destroyed := true }
  | .decFree => some { s.goto th .idle with freed := true }
  | _ => none

/-- A shared access of `arax_proc_get` and `arax_object_ref_inc`. -/
def refIncStep (s : RefState) (th : Nat) : RefThread → Option RefState
  | .findLocked => some (s.goto th (.findUnlock s.linked))
  | .findUnlock found =>
    some { s.goto th (if found then .incEntered else .idle) with lock := false }
  | .incEntered => if 0 ≤ s.refCount then some (s.goto th .incAsserted) else none
  | .incAsserted =>
    some { s.goto th .idle with refCount := s.refCount + 1, holders := th :: s.holders }
  | _ => none

/-- One move of one thread; `none` if it has to wait for the lock, or if an assertion aborts. -/
def refStep (s : RefState) : Nat × RefMove → Option RefState
  | (th, .dec) =>
    if s.threads th = .idle ∧ th ∈ s.holders ∧ 0 < s.refCount then some (s.goto th .decAsserted)
    else none
  | (th, .inc) =>
    if s.threads th = .idle ∧ th ∈ s.holders then some (s.goto th .incEntered) else none
  | (th, .get) =>
    if s.threads th = .idle ∧ s.lock = false then some { s.goto th .findLocked with lock := true }
    else none
  | (th, .next) => (refDecStep s th (s.threads th)).or (refIncStep s th (s.threads th))

/-- The atomic increment finds a positive count. -/
def IncrementsLive (s : RefState) : Nat × RefMove → Prop
  | (th, .next) => s.threads th = .incAsserted → 0 < s.refCount
  | _ => True

instance (s : RefState) : ∀ act, Decidable (IncrementsLive s act)
  | (th, .next) => inferInstanceAs (Decidable (s.threads th = .incAsserted → 0 < s.refCount))
  | (_, .dec) => isTrue trivial
  | (_, .inc) => isTrue trivial
  | (_, .get) => isTrue trivial

/-- A thread about to run the destructor or the free. -/
def Destroying (place : RefThread) : Prop := place = .decDtor ∨ place = .decFree

/-- Destructor and free find no outstanding reference and an unlinked object. -/
def DestroysUnreferenced (s : RefState) : Prop :=
  ∀ th, Destroying (s.threads th) → s.holders = [] ∧ s.linked = false

/-! ### The invariant -/

/-- What is known at a place: a thread that drops a reference still holds it until the decrement;
after a decrement to zero there is no reference left, and after the unlinking the object is not in
the list. -/
def PlaceInv (s : RefState) (th : Nat) : RefThread → Prop
  | .decAsserted | .decLocked => th ∈ s.holders
  | .decCounted refs => refs = 0 → s.holders = []
  | .decUnlink => s.holders = []
  | .decUnlock | .decDtor | .decFree => s.holders = [] ∧ s.linked = false
  | _ => True

/-- The invariant of the object. -/
structure RefInv (s : RefState) : Prop where
  count : s.refCount = s.holders.length
  places : ∀ th, PlaceInv s th (s.threads th)

/-- What another thread knows survives a move that keeps its references, hands out none if there is
none left, and links nothing. -/
theorem PlaceInv.frame {s t : RefState} {other : Nat} {place : RefThread}
    (known : PlaceInv s other place) (kept : other ∈ s.holders → other ∈ t.holders)
    (none : s.holders = [] → t.holders = []) (unlinked : s.linked = false → t.linked = false) :
    PlaceInv t other place := by
  cases place with
  | idle => trivial
  | decAsserted => exact kept known
  | decLocked => exact kept known
  | decCounted refs => exact fun zero => none (known zero)
  | decUnlink => exact none known
  | decUnlock => exact ⟨none known.1, unlinked known.2⟩
  | decDtor => exact ⟨none known.1, unlinked known.2⟩
  | decFree => exact ⟨none known.1, unlinked known.2⟩
  | findLocked => trivial
  | findUnlock found => trivial
  | incEntered => trivial
  | incAsserted => trivial

/-- **One move of one thread.** -/
theorem RefInv.move {s t : RefState} {th : Nat} {place : RefThread} (inv : RefInv s)
    (count : t.refCount = t.holders.length)
    (threads : t.threads = Function.update s.threads th place) (own : PlaceInv t th place)
    (kept : ∀ other, other ≠ th → other ∈ s.holders → other ∈ t.holders)
    (none : s.holders = [] → t.holders = []) (unlinked : s.linked = false → t.linked = false) :
    RefInv t := by
  refine ⟨count, fun other => ?_⟩
  rw [threads]
  by_cases same : other = th
  · rw [same, Function.update_self]
    exact own
  · rw [Function.update_of_ne same]
    exact (inv.places other).frame (kept other same) none unlinked

/-- A move that changes at most the lock and the memory of the object. -/
theorem RefInv.local_move {s t : RefState} {th : Nat} {place : RefThread} (inv : RefInv s)
    (threads : t.threads = Function.update s.threads th place) (own : PlaceInv t th place)
    (count : t.refCount = s.refCount) (holders : t.holders = s.holders)
    (linked : t.linked = s.linked) : RefInv t :=
  inv.move (by rw [count, holders, inv.count]) threads own
    (fun _ _ member => holders.symm ▸ member) (fun empty => holders.trans empty)
    (fun unlinked => linked.trans unlinked)

theorem refInit_inv (holders : List Nat) : RefInv (refInit holders) := ⟨rfl, fun _ => trivial⟩

/-! ### The steps -/

/-- The decrement gives zero only if it drops the last reference. -/
theorem RefInv.decrement {s : RefState} {th : Nat} (inv : RefInv s)
    (place : s.threads th = .decLocked) :
    RefInv { s.goto th (.decCounted (s.refCount - 1)) with
      refCount := s.refCount - 1, holders := s.holders.erase th } := by
  have member : th ∈ s.holders := by
    have known := inv.places th
    rw [place] at known
    exact known
  have length := List.length_erase_of_mem member
  have positive := List.length_pos_of_mem member
  have count : s.refCount - 1 = ((s.holders.erase th).length : Int) := by
    rw [inv.count, length]
    omega
  refine inv.move count rfl ?_ (fun other ne holds => ?_) (fun empty => ?_) id
  · intro zero
    refine List.length_eq_zero_iff.mp ?_
    show (s.holders.erase th).length = 0
    omega
  · exact (List.mem_erase_of_ne ne).mpr holds
  · rw [empty] at member
    exact absurd member List.not_mem_nil

/-- The second read: no reference was handed out since the decrement to zero, so the object is
unlinked. -/
theorem RefInv.recheck {s : RefState} {th : Nat} {refs : Int} (inv : RefInv s)
    (place : s.threads th = .decCounted refs) :
    RefInv (if refs = 0 then
        if refs = s.refCount then s.goto th .decUnlink else s.goto th .decUnlock
      else { s.goto th .idle with lock := false }) := by
  have known := inv.places th
  rw [place] at known
  split_ifs with zero same
  · exact inv.local_move rfl (known zero) rfl rfl rfl
  · refine absurd ?_ same
    rw [zero, inv.count, known zero]
    rfl
  · exact inv.local_move rfl trivial rfl rfl rfl

theorem refDecStep_inv {s t : RefState} {th : Nat} (inv : RefInv s)
    (step : refDecStep s th (s.threads th) = some t) : RefInv t := by
  have known := inv.places th
  cases place : s.threads th with
  | decAsserted =>
    rw [place] at step known
    simp only [refDecStep] at step
    split_ifs at step
    cases step
    exact inv.local_move rfl known rfl rfl rfl
  | decLocked =>
    rw [place] at step
    cases step
    exact inv.decrement place
  | decCounted refs =>
    rw [place] at step
    cases step
    exact inv.recheck place
  | decUnlink =>
    rw [place] at step known
    cases step
    exact inv.move inv.count rfl ⟨known, rfl⟩ (fun _ _ => id) id fun _ => rfl
  | decUnlock =>
    rw [place] at step known
    cases step
    exact inv.local_move rfl known rfl rfl rfl
  | decDtor =>
    rw [place] at step known
    cases step
    exact inv.local_move rfl known rfl rfl rfl
  | decFree =>
    rw [place] at step
    cases step
    exact inv.local_move rfl trivial rfl rfl rfl
  | idle | findLocked | findUnlock _ | incEntered | incAsserted =>
    rw [place] at step
    cases step

theorem refIncStep_inv {s t : RefState} {th : Nat} (inv : RefInv s)
    (live : IncrementsLive s (th, .next)) (step : refIncStep s th (s.threads th) = some t) :
    RefInv t := by
  cases place : s.threads th with
  | findLocked =>
    rw [place] at step
    cases step
    exact inv.local_move rfl trivial rfl rfl rfl
  | findUnlock found =>
    rw [place] at step
    cases step
    cases found with
    | false => exact inv.local_move rfl trivial rfl rfl rfl
    | true => exact inv.local_move rfl trivial rfl rfl rfl
  | incEntered =>
    rw [place] at step
    simp only [refIncStep] at step
    split_ifs at step
    cases step
    exact inv.local_move rfl trivial rfl rfl rfl
  | incAsserted =>
    rw [place] at step
    cases step
    have positive := live place
    refine inv.move ?_ rfl trivial (fun _ _ => List.mem_cons_of_mem th) (fun empty => ?_) id
    · show s.refCount + 1 = ((th :: s.holders).length : Int)
      rw [inv.count, List.length_cons]
      rfl
    · rw [inv.count, empty] at positive
      exact absurd positive (Int.lt_irrefl 0)
  | idle | decAsserted | decLocked | decCounted _ | decUnlink | decUnlock | decDtor | decFree =>
    rw [place] at step
    cases step

theorem refStep_inv {s t : RefState} {act : Nat × RefMove} (inv : RefInv s)
    (live : IncrementsLive s act) (step : refStep s act = some t) : RefInv t := by
  obtain ⟨th, move⟩ := act
  cases move with
  | dec =>
    simp only [refStep] at step
    split_ifs at step with legal
    cases step
    exact inv.local_move rfl legal.2.1 rfl rfl rfl
  | inc =>
    simp only [refStep] at step
    split_ifs at step
    cases step
    exact inv.local_move rfl trivial rfl rfl rfl
  | get =>
    simp only [refStep] at step
    split_ifs at step
    cases step
    exact inv.local_move rfl trivial rfl rfl rfl
  | next =>
    rcases Option.or_eq_some_iff.mp step with dec | ⟨_, inc⟩
    · exact refDecStep_inv inv dec
    · exact refIncStep_inv inv live inc

/-- **The last reference.** In every interleaving in which every increment finds a positive count,
the destructor and the free run only if no reference is outstanding, and on an object that has been
unlinked. -/
theorem last_reference_safe (holders : List Nat) (acts : List (Nat × RefMove)) (s : RefState)
    (live : Guarded refStep IncrementsLive (refInit holders) acts)
    (run : exec refStep (refInit holders) acts = some s) : DestroysUnreferenced s := by
  have inv : RefInv s := exec_guarded (fun _ _ _ inv live step => refStep_inv inv live step)
    (refInit_inv holders) live run
  intro th destroying
  have known := inv.places th
  rcases destroying with place | place
  · rw [place] at known
    exact known
  · rw [place] at known
    exact known

/-- A lookup and an increment before the last decrement: the second thread destroys the object. -/
theorem last_reference_safe_at_handover : ∃ s,
    exec refStep (refInit [0]) ((1, .get) :: List.replicate 4 (1, .next) ++ (0, .dec) ::
      List.replicate 3 (0, .next) ++ (1, .dec) :: List.replicate 5 (1, .next)) = some s ∧
      s.threads 1 = .decDtor ∧ DestroysUnreferenced s := by
  have run : (exec refStep (refInit [0]) ((1, .get) :: List.replicate 4 (1, .next) ++ (0, .dec) ::
      List.replicate 3 (0, .next) ++ (1, .dec) :: List.replicate 5 (1, .next))).map
        (fun s => s.threads 1) = some .decDtor := by decide
  obtain ⟨s, reached, place⟩ := Option.map_eq_some_iff.mp run
  exact ⟨s, reached, place, last_reference_safe [0] _ s (by decide) reached⟩

/-- Thread 1 has looked the object up, thread 0 drops the last reference, thread 1 increments, and
thread 0, whose second read sees the increment, destroys the object with the reference outstanding
and the object in the list. -/
theorem last_reference_lost : ¬∀ holders acts s,
    exec refStep (refInit holders) acts = some s → DestroysUnreferenced s := by
  intro all
  have run : (exec refStep (refInit [0]) ((1, .get) :: List.replicate 3 (1, .next) ++ (0, .dec) ::
      List.replicate 2 (0, .next) ++ (1, .next) :: List.replicate 2 (0, .next))).map
        (fun s => (s.threads 0, s.holders)) = some (.decDtor, [1]) := by decide
  obtain ⟨s, reached, last⟩ := Option.map_eq_some_iff.mp run
  have none := (all [0] _ s reached 0 (Or.inl (congrArg Prod.fst last))).1
  rw [show s.holders = [1] from congrArg Prod.snd last] at none
  cases none

end Arax.Core
