/-
**The key-value store (`src/utils/Kv.c`).**

`utils_kv_s` is an array of pairs, the number of pairs in use, and a spin lock. `utils_kv_set` looks
for the key, overwrites its value or adds a pair, and aborts if there is no room;
`utils_kv_get` returns a pointer to the value, which its caller reads after the lock is given back.
Both are modelled access by access, under the lock of `Arax.Utils.Spinlock`.

* `kvBody` — the accesses of the two functions between lock and unlock.
* `KvStore` — what the store is for: distinct keys in the order of their first `set`, and a value
  for each key.
* `kvBody_refines` — a whole call does to the array what it does to the store, with the same
  result.
* `kv_linearised` — in every state of every run the results are those of the store, in the order in
  which the calls returned; what a pointer returned by `utils_kv_get` points to is the value that
  its key has in the store, or the value of a `set` of this key that is in progress; and no call
  waits in vain.
-/

import Mathlib.Data.List.Nodup
import Mathlib.Order.Basic
import Mathlib.Order.Lattice
import Arax.Utils.Spinlock

namespace Arax.Utils

open Arax.Lib

/-- `utils_kv_s`, without its lock: the fields of the pairs by their index. -/
structure UtilsKv where
  key : Nat → Nat
  value : Nat → Nat
  pairs : Nat

/-- `utils_kv_init`. -/
def utilsKvInit : UtilsKv where
  key := fun _ => 0
  value := fun _ => 0
  pairs := 0

/-- `kv->kv[itr].key = key`. -/
def UtilsKv.setKey (kv : UtilsKv) (itr key : Nat) : UtilsKv :=
  { kv with key := Function.update kv.key itr key }

/-- `kv->kv[itr].value = value`. -/
def UtilsKv.setValue (kv : UtilsKv) (itr value : Nat) : UtilsKv :=
  { kv with value := Function.update kv.value itr value }

/-- The two calls. -/
inductive KvOp where
  | set (key value : Nat)
  | get (key : Nat)
  deriving DecidableEq

/-- The key of a call. -/
def KvOp.key : KvOp → Nat
  | .set key _ | .get key => key

/-- What a call returns: `utils_kv_set` nothing, or it aborts because of `ARAX_KV_CAP`;
`utils_kv_get` the pointer to the value of a pair, or `NULL`. -/
inductive KvResult where
  | stored
  | exceeded
  | found (itr : Nat)
  | missing
  deriving DecidableEq

/-- Where a call is. -/
inductive KvPlace where
  /-- At `itr < kv->pairs`. -/
  | loop (op : KvOp) (itr : Nat)
  /-- At `kv->kv[itr].key == key`. -/
  | compare (op : KvOp) (itr : Nat)
  /-- At `kv->kv[itr].value = value`. -/
  | overwrite (value itr : Nat)
  /-- At `kv->pairs < ARAX_KV_CAP`. -/
  | room (key value : Nat)
  /-- At `kv->kv[kv->pairs].key = key`. -/
  | newKey (key value : Nat)
  /-- At `kv->kv[kv->pairs].value = value`. -/
  | newValue (value : Nat)
  /-- At `kv->pairs++`. -/
  | newPairs

/-- The accesses of `utils_kv_set` and `utils_kv_get`, for a capacity of `cap` pairs. -/
def kvAccess (cap : Nat) : KvPlace → UtilsKv → Access UtilsKv KvPlace KvResult
  | .loop op itr, kv =>
    if itr < kv.pairs then .more (.compare op itr) kv
    else
      match op with
      | .set key value => .more (.room key value) kv
      | .get _ => .done .missing kv
  | .compare op itr, kv =>
    if kv.key itr = op.key then
      match op with
      | .set _ value => .more (.overwrite value itr) kv
      | .get _ => .done (.found itr) kv
    else .more (.loop op (itr + 1)) kv
  | .overwrite value itr, kv => .done .stored (kv.setValue itr value)
  | .room key value, kv =>
    if kv.pairs < cap then .more (.newKey key value) kv else .done .exceeded kv
  | .newKey key value, kv => .more (.newValue value) (kv.setKey kv.pairs key)
  | .newValue value, kv => .more .newPairs (kv.setValue kv.pairs value)
  | .newPairs, kv => .done .stored { kv with pairs := kv.pairs + 1 }

/-- The calls between lock and unlock. -/
def kvBody (cap : Nat) : Body UtilsKv KvOp KvPlace KvResult where
  start op := .loop op 0
  access := kvAccess cap

/-! ### The store -/

/-- Distinct keys, in the order in which they were first set, and the value of each. -/
structure KvStore where
  keys : List Nat
  value : Nat → Nat
  distinct : keys.Nodup

namespace KvStore

/-- Nothing is stored. -/
def empty : KvStore := ⟨[], fun _ => 0, List.nodup_nil⟩

/-- Another value for a key. -/
def put (store : KvStore) (key value : Nat) : KvStore :=
  { store with value := Function.update store.value key value }

/-- A new key. -/
def add (store : KvStore) (key value : Nat) (fresh : key ∉ store.keys) : KvStore where
  keys := store.keys ++ [key]
  value := Function.update store.value key value
  distinct := by
    rw [← List.concat_eq_append]
    exact store.distinct.concat fresh

/-- What a call does to the store, and what it returns. The pointer to a value is the position of
its key. -/
def call (cap : Nat) : KvOp → KvStore → KvResult × KvStore
  | .set key value, store =>
    if member : key ∈ store.keys then (.stored, store.put key value)
    else if store.keys.length < cap then (.stored, store.add key value member)
    else (.exceeded, store)
  | .get key, store =>
    (if key ∈ store.keys then .found (store.keys.idxOf key) else .missing, store)

end KvStore

/-- The pairs in use are the keys of the store with their values. -/
structure KvRepresents (kv : UtilsKv) (store : KvStore) : Prop where
  keys : store.keys = (List.range kv.pairs).map kv.key
  values : ∀ i < kv.pairs, kv.value i = store.value (kv.key i)

section Refinement

variable {cap : Nat} {op : KvOp} {base kv next : UtilsKv} {store : KvStore} {result : KvResult}

theorem represents_init : KvRepresents utilsKvInit KvStore.empty where
  keys := rfl
  values i low := absurd low (Nat.not_lt_zero i)

theorem KvRepresents.length (rep : KvRepresents kv store) : store.keys.length = kv.pairs := by
  rw [rep.keys, List.length_map, List.length_range]

theorem KvRepresents.mem_iff (rep : KvRepresents kv store) (key : Nat) :
    key ∈ store.keys ↔ ∃ i < kv.pairs, kv.key i = key := by
  rw [rep.keys]
  simp only [List.mem_map, List.mem_range]

/-- The keys in use are distinct. -/
theorem KvRepresents.inj (rep : KvRepresents kv store) {i j : Nat} (left : i < kv.pairs)
    (right : j < kv.pairs) (same : kv.key i = kv.key j) : i = j := by
  have distinct := store.distinct
  rw [rep.keys] at distinct
  exact List.inj_on_of_nodup_map distinct (List.mem_range.mpr left) (List.mem_range.mpr right) same

/-- The position of a key in the store is that of its pair. -/
theorem KvRepresents.idxOf (rep : KvRepresents kv store) {i : Nat} (low : i < kv.pairs) :
    store.keys.idxOf (kv.key i) = i := by
  have long : i < store.keys.length := by rw [rep.length]; exact low
  have there : store.keys[i] = kv.key i := by
    simp only [rep.keys, List.getElem_map, List.getElem_range]
  rw [← there]
  exact store.distinct.idxOf_getElem i long

/-- Another value for the pair of a key. -/
theorem KvRepresents.setValue (rep : KvRepresents kv store) {i : Nat} (low : i < kv.pairs)
    (value : Nat) : KvRepresents (kv.setValue i value) (store.put (kv.key i) value) where
  keys := rep.keys
  values j bound := by
    show Function.update kv.value i value j =
      Function.update store.value (kv.key i) value (kv.key j)
    by_cases same : j = i
    · subst same
      rw [Function.update_self, Function.update_self]
    · have apart : kv.key j ≠ kv.key i := fun equal => same (rep.inj bound low equal)
      rw [Function.update_of_ne same, Function.update_of_ne apart]
      exact rep.values j bound

/-- A pair behind those in use. -/
theorem KvRepresents.add (rep : KvRepresents kv store) {key : Nat} (fresh : key ∉ store.keys)
    (value : Nat) :
    KvRepresents { (kv.setKey kv.pairs key).setValue kv.pairs value with pairs := kv.pairs + 1 }
      (store.add key value fresh) where
  keys := by
    show store.keys ++ [key] = (List.range (kv.pairs + 1)).map (Function.update kv.key kv.pairs key)
    have below : ∀ i ∈ List.range kv.pairs, Function.update kv.key kv.pairs key i = kv.key i :=
      fun i member => Function.update_of_ne (List.mem_range.mp member).ne _ _
    rw [List.range_succ, List.map_append, List.map_congr_left below, ← rep.keys, List.map_singleton,
      Function.update_self]
  values i bound := by
    show Function.update kv.value kv.pairs value i =
      Function.update store.value key value (Function.update kv.key kv.pairs key i)
    by_cases last : i = kv.pairs
    · subst last
      rw [Function.update_self, Function.update_self, Function.update_self]
    · have low : i < kv.pairs := lt_of_le_of_ne (Nat.lt_succ_iff.mp bound) last
      have apart : kv.key i ≠ key := fun same => fresh ((rep.mem_iff key).mpr ⟨i, low, same⟩)
      rw [Function.update_of_ne last, Function.update_of_ne last, Function.update_of_ne apart]
      exact rep.values i low

/-! ### A call in progress -/

/-- No pair before `itr` has the key. -/
def Passed (kv : UtilsKv) (key itr : Nat) : Prop := ∀ j < itr, kv.key j ≠ key

/-- What a call of `op` that started on `base` has made of it. -/
def KvPlace.At (cap : Nat) (op : KvOp) (base kv : UtilsKv) : KvPlace → Prop
  | .loop now itr => now = op ∧ kv = base ∧ itr ≤ base.pairs ∧ Passed base op.key itr
  | .compare now itr => now = op ∧ kv = base ∧ itr < base.pairs ∧ Passed base op.key itr
  | .overwrite value itr =>
    ∃ key, op = .set key value ∧ kv = base ∧ itr < base.pairs ∧ base.key itr = key
  | .room key value => op = .set key value ∧ kv = base ∧ Passed base key base.pairs
  | .newKey key value =>
    op = .set key value ∧ kv = base ∧ Passed base key base.pairs ∧ base.pairs < cap
  | .newValue value =>
    ∃ key, op = .set key value ∧ kv = base.setKey base.pairs key ∧ Passed base key base.pairs ∧
      base.pairs < cap
  | .newPairs =>
    ∃ key value, op = .set key value ∧
      kv = (base.setKey base.pairs key).setValue base.pairs value ∧ Passed base key base.pairs ∧
      base.pairs < cap

/-- What a finished call of `op` has made of `base`. -/
inductive KvEnd (cap : Nat) (base : UtilsKv) : KvOp → KvResult → UtilsKv → Prop
  | overwritten (key value itr : Nat) (low : itr < base.pairs) (here : base.key itr = key) :
    KvEnd cap base (.set key value) .stored (base.setValue itr value)
  | added (key value : Nat) (new : Passed base key base.pairs) (room : base.pairs < cap) :
    KvEnd cap base (.set key value) .stored
      { (base.setKey base.pairs key).setValue base.pairs value with pairs := base.pairs + 1 }
  | exceeded (key value : Nat) (new : Passed base key base.pairs) (full : cap ≤ base.pairs) :
    KvEnd cap base (.set key value) .exceeded base
  | found (key itr : Nat) (low : itr < base.pairs) (here : base.key itr = key) :
    KvEnd cap base (.get key) (.found itr) base
  | missing (key : Nat) (new : Passed base key base.pairs) :
    KvEnd cap base (.get key) .missing base

/-- One access takes a call on, or ends it. -/
theorem KvPlace.At.access {now : KvPlace} (here : now.At cap op base kv) :
    (∃ later next, kvAccess cap now kv = .more later next ∧ later.At cap op base next) ∨
      ∃ result next, kvAccess cap now kv = .done result next ∧ KvEnd cap base op result next := by
  cases now with
  | loop now itr =>
    obtain ⟨rfl, rfl, low, passed⟩ := here
    by_cases more : itr < kv.pairs
    · exact .inl ⟨_, _, if_pos more, rfl, rfl, more, passed⟩
    · have all : Passed kv now.key kv.pairs := by
        rw [show kv.pairs = itr from Nat.le_antisymm (not_lt.mp more) low]
        exact passed
      cases now with
      | set key value => exact .inl ⟨_, _, if_neg more, rfl, rfl, all⟩
      | get key => exact .inr ⟨_, _, if_neg more, .missing key all⟩
  | compare now itr =>
    obtain ⟨rfl, rfl, low, passed⟩ := here
    by_cases same : kv.key itr = now.key
    · cases now with
      | set key value => exact .inl ⟨_, _, if_pos same, key, rfl, rfl, low, same⟩
      | get key => exact .inr ⟨_, _, if_pos same, .found key itr low same⟩
    · refine .inl ⟨_, _, if_neg same, rfl, rfl, low, fun j bound => ?_⟩
      rcases Nat.lt_succ_iff_lt_or_eq.mp bound with before | rfl
      · exact passed j before
      · exact same
  | overwrite value itr =>
    obtain ⟨key, rfl, rfl, low, same⟩ := here
    exact .inr ⟨_, _, rfl, .overwritten key value itr low same⟩
  | room key value =>
    obtain ⟨rfl, rfl, new⟩ := here
    by_cases room : kv.pairs < cap
    · exact .inl ⟨_, _, if_pos room, rfl, rfl, new, room⟩
    · exact .inr ⟨_, _, if_neg room, .exceeded key value new (not_lt.mp room)⟩
  | newKey key value =>
    obtain ⟨rfl, rfl, new, room⟩ := here
    exact .inl ⟨_, _, rfl, key, rfl, rfl, new, room⟩
  | newValue value =>
    obtain ⟨key, rfl, rfl, new, room⟩ := here
    exact .inl ⟨_, _, rfl, key, value, rfl, rfl, new, room⟩
  | newPairs =>
    obtain ⟨key, value, rfl, rfl, new, room⟩ := here
    exact .inr ⟨_, _, rfl, .added key value new room⟩

/-- What a call in progress has made of the array. -/
theorem kvBody_reaches {now : KvPlace} (reaches : (kvBody cap).Reaches op base now kv) :
    now.At cap op base kv := by
  unfold Body.Reaches at reaches
  generalize last : (now, kv) = entry at reaches
  induction reaches generalizing now kv with
  | refl =>
    cases last
    exact ⟨rfl, rfl, Nat.zero_le _, fun j bound => absurd bound (Nat.not_lt_zero j)⟩
  | @tail before after _ step ih =>
    subst last
    have move : kvAccess cap before.1 before.2 = .more now kv := step
    rcases (ih rfl).access with ⟨later, next, same, there⟩ | ⟨result, next, done, _⟩
    · cases move.symm.trans same
      exact there
    · exact absurd (move.symm.trans done) nofun

/-- What a finished call has made of the array. -/
theorem kvBody_completes (completes : (kvBody cap).Completes op base result next) :
    KvEnd cap base op result next := by
  obtain ⟨now, before, reaches, done⟩ := completes
  have move : kvAccess cap now before = .done result next := done
  rcases (kvBody_reaches reaches).access with ⟨later, after, same, _⟩ | ⟨_, _, same, ended⟩
  · exact absurd (move.symm.trans same) nofun
  · cases move.symm.trans same
    exact ended

/-- **Refinement.** A whole call does to the array what it does to the store, and returns the
same. -/
theorem kvBody_refines (rep : KvRepresents base store)
    (completes : (kvBody cap).Completes op base result next) :
    ∃ after, KvStore.call cap op store = (result, after) ∧ KvRepresents next after := by
  have fresh : ∀ key, Passed base key base.pairs → key ∉ store.keys := by
    intro key new member
    obtain ⟨i, low, same⟩ := (rep.mem_iff key).mp member
    exact new i low same
  cases kvBody_completes completes with
  | overwritten key value itr low here =>
    have member : key ∈ store.keys := (rep.mem_iff key).mpr ⟨itr, low, here⟩
    refine ⟨store.put key value, dif_pos member, ?_⟩
    subst here
    exact rep.setValue low value
  | added key value new room =>
    refine ⟨store.add key value (fresh key new), ?_, rep.add _ value⟩
    simp only [KvStore.call]
    rw [dif_neg (fresh key new), if_pos (rep.length.symm ▸ room)]
  | exceeded key value new full =>
    refine ⟨store, ?_, rep⟩
    simp only [KvStore.call]
    rw [dif_neg (fresh key new), if_neg (not_lt.mpr (rep.length.symm ▸ full))]
  | found key itr low here =>
    have member : key ∈ store.keys := (rep.mem_iff key).mpr ⟨itr, low, here⟩
    have position : store.keys.idxOf key = itr := by
      subst here
      exact rep.idxOf low
    refine ⟨store, ?_, rep⟩
    simp only [KvStore.call]
    rw [if_pos member, position]
  | missing key new =>
    refine ⟨store, ?_, rep⟩
    simp only [KvStore.call]
    rw [if_neg (fresh key new)]

/-- How many accesses a call has still to make, at most. -/
def KvPlace.left : KvPlace → UtilsKv → Nat
  | .loop _ itr, kv => 2 * (kv.pairs - itr) + 5
  | .compare _ itr, kv => 2 * (kv.pairs - itr) + 4
  | .overwrite _ _, _ | .newPairs, _ => 1
  | .room _ _, _ => 4
  | .newKey _ _, _ => 3
  | .newValue _, _ => 2

theorem kvBody_ends (cap : Nat) : (kvBody cap).Ends := by
  refine Body.ends_of_measure KvPlace.left fun op base now kv later next reaches access => ?_
  have here := kvBody_reaches reaches
  change kvAccess cap now kv = .more later next at access
  cases now with
  | loop now itr =>
    by_cases more : itr < kv.pairs
    · simp only [kvAccess, if_pos more] at access
      cases access
      exact Nat.lt_succ_self _
    · cases now with
      | set key value =>
        simp only [kvAccess, if_neg more] at access
        cases access
        exact Nat.lt_of_lt_of_le (Nat.lt_succ_self 4) (Nat.le_add_left _ _)
      | get key =>
        simp only [kvAccess, if_neg more] at access
        cases access
  | compare now itr =>
    obtain ⟨rfl, rfl, low, -⟩ := here
    by_cases same : kv.key itr = now.key
    · cases now with
      | set key value =>
        simp only [kvAccess, if_pos same] at access
        cases access
        simp only [KvPlace.left]
        omega
      | get key =>
        simp only [kvAccess, if_pos same] at access
        cases access
    · simp only [kvAccess, if_neg same] at access
      cases access
      simp only [KvPlace.left]
      omega
  | overwrite value itr => cases access
  | room key value =>
    by_cases room : kv.pairs < cap
    · simp only [kvAccess, if_pos room] at access
      cases access
      exact Nat.lt_succ_self 3
    · simp only [kvAccess, if_neg room] at access
      cases access
  | newKey key value =>
    cases access
    exact Nat.lt_succ_self 2
  | newValue value =>
    cases access
    exact Nat.lt_succ_self 1
  | newPairs => cases access

/-! ### The calls of a run -/

/-- The calls of a log on a store, `none` if one of them returns something else. -/
def KvStore.replay {τ : Type*} (cap : Nat) (log : List (Finished τ KvOp KvResult)) :
    Option KvStore :=
  log.foldlM (fun store call =>
    if (KvStore.call cap call.op store).1 = call.result then
      some (KvStore.call cap call.op store).2
    else none) KvStore.empty

/-- What the log says about the store that it leads to. -/
structure KvExplained {τ : Type*} (cap : Nat) (log : List (Finished τ KvOp KvResult))
    (store : KvStore) : Prop where
  results : KvStore.replay cap log = some store
  bounded : store.keys.length ≤ cap
  /-- A pointer that was returned for a key is the position of this key. -/
  pointers : ∀ th key itr, ⟨th, .get key, .found itr⟩ ∈ log →
    key ∈ store.keys ∧ store.keys.idxOf key = itr

/-- A call removes no key and keeps the order of the keys. -/
theorem KvStore.call_prefix {store after : KvStore}
    (call : KvStore.call cap op store = (result, after)) :
    store.keys <+: after.keys ∧ (store.keys.length ≤ cap → after.keys.length ≤ cap) := by
  cases op with
  | set key value =>
    simp only [KvStore.call] at call
    split_ifs at call with member room
    · cases call
      exact ⟨List.prefix_refl _, id⟩
    · cases call
      refine ⟨List.prefix_append _ _, fun _ => ?_⟩
      show (store.keys ++ [key]).length ≤ cap
      rw [List.length_append]
      exact room
    · cases call
      exact ⟨List.prefix_refl _, id⟩
  | get key =>
    cases call
    exact ⟨List.prefix_refl _, id⟩

/-- One more call. -/
theorem KvExplained.snoc {τ : Type*} {log : List (Finished τ KvOp KvResult)} {store after : KvStore}
    {call : Finished τ KvOp KvResult} (explained : KvExplained cap log store)
    (made : KvStore.call cap call.op store = (call.result, after)) :
    KvExplained cap (log ++ [call]) after where
  results := by
    have last : (if (KvStore.call cap call.op store).1 = call.result then
        some (KvStore.call cap call.op store).2 else none) = some after := by
      rw [made, if_pos rfl]
    unfold KvStore.replay
    rw [List.foldlM_append]
    change (KvStore.replay cap log).bind _ = _
    rw [explained.results, Option.bind_some, List.foldlM_cons, last]
    rfl
  bounded := (KvStore.call_prefix made).2 explained.bounded
  pointers th key itr member := by
    rcases List.mem_append.mp member with old | new
    · obtain ⟨known, position⟩ := explained.pointers th key itr old
      have order := (KvStore.call_prefix made).1
      exact ⟨order.subset known, (order.idxOf_eq_of_mem known) ▸ position⟩
    · rw [List.mem_singleton] at new
      subst new
      simp only [KvStore.call] at made
      split_ifs at made with known
      · cases made
        exact ⟨known, rfl⟩
      · cases made

/-- **The calls of a run explain the array by a store.** -/
theorem replays_explained {τ : Type*} {log : List (Finished τ KvOp KvResult)}
    (replays : Replays (kvBody cap) utilsKvInit log kv) :
    ∃ store, KvExplained cap log store ∧ KvRepresents kv store := by
  induction replays with
  | nil =>
    exact ⟨KvStore.empty, ⟨rfl, Nat.zero_le cap, fun _ _ _ none => by cases none⟩, represents_init⟩
  | snoc _ completes ih =>
    obtain ⟨store, explained, rep⟩ := ih
    obtain ⟨after, made, rep'⟩ := kvBody_refines rep completes
    exact ⟨after, explained.snoc made, rep'⟩

end Refinement

/-! ### Runs -/

section Runs

variable {τ : Type*} {cap : Nat} {op : KvOp} {base kv : UtilsKv} {store : KvStore}

/-- The thread is in the accesses of `op`, or has made them all and still has the lock. -/
def SpinlockPlace.Runs (place : SpinlockPlace KvOp KvPlace KvResult) (op : KvOp) : Prop :=
  (∃ now, place = .inside op now) ∨ ∃ result, place = .asserting op result ∨
    place = .clearing op result

/-- The array during a call: the pairs that were in use are there, with their values, except the
one that the call overwrites. -/
structure Meanwhile (op : KvOp) (base kv : UtilsKv) : Prop where
  pairs : base.pairs ≤ kv.pairs
  keys : ∀ i < base.pairs, kv.key i = base.key i
  values : ∀ i < base.pairs, kv.value i = base.value i ∨ op = .set (base.key i) (kv.value i)

theorem meanwhile_refl (op : KvOp) (base : UtilsKv) : Meanwhile op base base :=
  ⟨le_rfl, fun _ _ => rfl, fun _ _ => .inl rfl⟩

/-- A pair behind those in use, whether it counts yet or not. -/
theorem meanwhile_behind {key value : Nat → Nat} {pairs : Nat} (longer : base.pairs ≤ pairs)
    (keys : ∀ i < base.pairs, key i = base.key i)
    (values : ∀ i < base.pairs, value i = base.value i) : Meanwhile op base ⟨key, value, pairs⟩ :=
  ⟨longer, keys, fun i low => .inl (values i low)⟩

theorem KvPlace.At.meanwhile {now : KvPlace} (here : now.At cap op base kv) :
    Meanwhile op base kv := by
  have keys : ∀ key, ∀ i < base.pairs, Function.update base.key base.pairs key i = base.key i :=
    fun key i low => Function.update_of_ne low.ne _ _
  cases now with
  | loop now itr => exact here.2.1 ▸ meanwhile_refl op base
  | compare now itr => exact here.2.1 ▸ meanwhile_refl op base
  | overwrite value itr =>
    obtain ⟨key, -, rfl, -, -⟩ := here
    exact meanwhile_refl op kv
  | room key value => exact here.2.1 ▸ meanwhile_refl op base
  | newKey key value => exact here.2.1 ▸ meanwhile_refl op base
  | newValue value =>
    obtain ⟨key, -, rfl, -, -⟩ := here
    exact meanwhile_behind le_rfl (keys key) fun _ _ => rfl
  | newPairs =>
    obtain ⟨key, value, -, rfl, -, -⟩ := here
    exact meanwhile_behind le_rfl (keys key) fun i low => Function.update_of_ne low.ne _ _

theorem KvEnd.meanwhile {result : KvResult} (ended : KvEnd cap base op result kv) :
    Meanwhile op base kv := by
  cases ended with
  | overwritten key value itr low here =>
    refine ⟨le_rfl, fun _ _ => rfl, fun i bound => ?_⟩
    by_cases same : i = itr
    · subst same
      refine .inr ?_
      rw [here]
      exact congrArg (KvOp.set key) (Function.update_self i value base.value).symm
    · exact .inl (Function.update_of_ne same _ _)
  | added key value new room =>
    exact meanwhile_behind (Nat.le_succ _) (fun i low => Function.update_of_ne low.ne _ _)
      fun i low => Function.update_of_ne low.ne _ _
  | exceeded key value new full => exact meanwhile_refl _ base
  | found key itr low here => exact meanwhile_refl _ base
  | missing key new => exact meanwhile_refl _ base

/-- What holds of the store that the finished calls lead to. -/
structure KvLinearised [DecidableEq τ] (cap : Nat)
    (s : SpinlockState τ UtilsKv KvOp KvPlace KvResult)
    (store : KvStore) : Prop where
  /-- Every call has returned what the store returns. -/
  results : KvStore.replay cap s.log = some store
  bounded : store.keys.length ≤ cap
  represents : s.lock = 0 → KvRepresents s.object store
  /-- A pointer that was returned for a key points to the pair of this key, also while other calls
  are in progress. Its value is the one in the store, or one that is being set for this key. -/
  pointers : ∀ th key itr, ⟨th, .get key, .found itr⟩ ∈ s.log →
    itr < s.object.pairs ∧ s.object.key itr = key ∧
      (s.object.value itr = store.value key ∨
        ∃ other, (s.places other).Runs (.set key (s.object.value itr)))
  /-- A call that waits for the lock can get it. -/
  acquires : ∀ th op, (s.places th).Wants op →
    ∃ t, s.Leads (kvBody cap) t ∧ t.places th = .inside op ((kvBody cap).start op)

/-- The pair that a returned pointer points to. -/
theorem KvExplained.pointer {log : List (Finished τ KvOp KvResult)} {th : τ} {key itr : Nat}
    (explained : KvExplained cap log store) (rep : KvRepresents base store)
    (member : ⟨th, .get key, .found itr⟩ ∈ log) :
    itr < base.pairs ∧ base.key itr = key ∧ base.value itr = store.value key := by
  obtain ⟨known, position⟩ := explained.pointers th key itr member
  obtain ⟨i, low, same⟩ := (rep.mem_iff key).mp known
  have here : itr = i := by
    rw [← position, ← same]
    exact rep.idxOf low
  subst here
  exact ⟨low, same, same ▸ rep.values itr low⟩

/-- **Linearisation of the key-value store.** In every state of every run, with any number of
threads, there is a store that the finished calls lead to one after the other. A call that had
returned before another one was made comes before it. -/
theorem kv_linearised [DecidableEq τ] (cap : Nat) (moves : List (τ × SpinlockMove KvOp))
    (s : SpinlockState τ UtilsKv KvOp KvPlace KvResult)
    (run : exec (spinlockStep (kvBody cap)) (utilsSpinlockInit utilsKvInit) moves = some s) :
    (∃ store, KvLinearised cap s store) ∧
      ∀ before after, moves = before ++ after →
        ∃ mid, exec (spinlockStep (kvBody cap)) (utilsSpinlockInit utilsKvInit) before = some mid ∧
          mid.log <+: s.log := by
  have acquires : ∀ th op, (s.places th).Wants op →
      ∃ t, s.Leads (kvBody cap) t ∧ t.places th = .inside op ((kvBody cap).start op) :=
    fun th op wants => (spinlock_inv run).acquires (kvBody_ends cap) wants
  constructor
  · cases (spinlock_inv run).locked with
    | idle free nobody replays =>
      obtain ⟨store, explained, rep⟩ := replays_explained replays
      refine ⟨store, explained.results, explained.bounded, fun _ => rep, ?_, acquires⟩
      intro th key itr member
      obtain ⟨low, here, value⟩ := explained.pointer rep member
      exact ⟨low, here, .inl value⟩
    | busy taken holder others base replays explains =>
      obtain ⟨store, explained, rep⟩ := replays_explained replays
      have locked : ∀ zero : s.lock = 0, KvRepresents s.object store := fun zero =>
        absurd zero (of_decide_eq_false taken)
      refine ⟨store, explained.results, explained.bounded, locked, ?_, acquires⟩
      intro th key itr member
      obtain ⟨low, here, value⟩ := explained.pointer rep member
      obtain ⟨op, runs, during⟩ : ∃ op, (s.places holder).Runs op ∧ Meanwhile op base s.object := by
        change (s.places holder).abs.Explains (kvBody cap) base s.object at explains
        cases place : s.places holder with
        | inside op now =>
          rw [place] at explains
          exact ⟨op, .inl ⟨now, rfl⟩, (kvBody_reaches explains).meanwhile⟩
        | asserting op result =>
          rw [place] at explains
          exact ⟨op, .inr ⟨result, .inl rfl⟩, (kvBody_completes explains).meanwhile⟩
        | clearing op result =>
          rw [place] at explains
          exact ⟨op, .inr ⟨result, .inr rfl⟩, (kvBody_completes explains).meanwhile⟩
        | _ =>
          rw [place] at explains
          exact explains.elim
      refine ⟨low.trans_le during.pairs, (during.keys itr low).trans here, ?_⟩
      rcases during.values itr low with same | sets
      · exact .inl (same.trans value)
      · refine .inr ⟨holder, ?_⟩
        rw [← here, ← sets]
        exact runs
  · rintro before after rfl
    rw [exec_append] at run
    obtain ⟨mid, reached, later⟩ := Option.bind_eq_some_iff.mp run
    exact ⟨mid, reached, spinlock_log_prefix (spinlock_inv reached) later⟩

/-- Room for one pair. The second thread waits while the first one adds its key, finds another key
then, and exceeds the capacity; after that the first one gets the pointer to its value. -/
def kvMoves : List (Bool × SpinlockMove KvOp) :=
  [(true, .call (.set 7 1)), (false, .call (.set 8 2))] ++
    List.replicate 3 (true, .next) ++ [(false, .next)] ++ List.replicate 6 (true, .next) ++
    List.replicate 8 (false, .next) ++ [(true, .call (.get 7))] ++ List.replicate 6 (true, .next)

theorem kv_linearised_at_capacity : ∃ s,
    exec (spinlockStep (kvBody 1)) (utilsSpinlockInit utilsKvInit) kvMoves = some s ∧
      s.log = [⟨true, .set 7 1, .stored⟩, ⟨false, .set 8 2, .exceeded⟩, ⟨true, .get 7, .found 0⟩] ∧
      ∃ store, KvLinearised 1 s store := by
  have log : (exec (spinlockStep (kvBody 1)) (utilsSpinlockInit utilsKvInit) kvMoves).map
      SpinlockState.log = some [⟨true, .set 7 1, .stored⟩, ⟨false, .set 8 2, .exceeded⟩,
        ⟨true, .get 7, .found 0⟩] := rfl
  obtain ⟨s, run, calls⟩ := Option.map_eq_some_iff.mp log
  exact ⟨s, run, calls, (kv_linearised 1 kvMoves s run).1⟩

end Runs

end Arax.Utils
