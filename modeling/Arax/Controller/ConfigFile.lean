/-
**The configuration of the controller (`controller/src/Core/Config.cpp`,
`controller/include/Utilities.h`).**

The controller reads a JSON file: the folders of the libraries, and groups of accelerators, each
group with its scheduler. Whatever is wrong in it ends with an exception whose text says where.

A text is the list of its characters, and `std::map` is `TreeMap`. The file is modelled from the
value that `picojson::parse` returns; `Build` says which threads and schedulers are registered in
the factories, and how many cores the machine has. What a scheduler makes of its own object is left
out, and so are the pointers between the objects.

* `jsonCast`, `jsonGetSafe`, `jsonGetSafeOptional` — the fields of an object, with their errors.
* `AccelConfig.new`, `GroupConfig.new`, `Config.new` — the constructors.
* `ConfigSound` — what the controller relies on after it has read a file.
* `config_sound` — this holds for every file that is accepted.
* `unnamed_accelerators_kept` — a file that gives no names loses no accelerator.
* `ConfigValid`, `config_accepted_iff` — which files are accepted.
-/

import Mathlib
import Arax.Core.AccelTypes
import Arax.Controller.CpuSet
import Arax.Lib.Loop

namespace Arax.Controller.ConfigFile

open Arax.Core Arax.Lib Std

/-- `std::string`. -/
abbrev Text := List Char

/-! ### Values -/

/-- `picojson::value`. -/
inductive Json where
  | null
  | boolean (b : Bool)
  | int64 (i : Int)
  /-- A `double`, by the text that `to_str` prints. -/
  | number (text : Text)
  | string (s : Text)
  | array (values : List Json)
  /-- The members in the order of the file. -/
  | object (members : List (Text × Json))

/-- `picojson::object`. -/
abbrev Object := TreeMap Text Json compare

/-- A printed number. -/
def decimal : Int → Text
  | .ofNat n => Nat.toDigits 10 n
  | .negSucc n => '-' :: Nat.toDigits 10 (n + 1)

/-- `value::to_str`. -/
def Json.toStr : Json → Text
  | .null => "null".toList
  | .boolean b => if b then "true".toList else "false".toList
  | .int64 i => decimal i
  | .number text => text
  | .string s => s
  | .array _ => "array".toList
  | .object _ => "object".toList

/-- A type that a value can be cast to: its `jsonTypeToString`, and `value::get` where
`value::is` says yes. -/
structure JsonType (α : Type) where
  name : Text
  get : Json → Option α

/-- `std::string`. -/
def jsonString : JsonType Text where
  name := "string".toList
  get
    | .string s => some s
    | _ => none

/-- `picojson::object`; of two members with one key the later one stays. -/
def jsonObject : JsonType Object where
  name := "JSON object (\x7b\x7d)".toList
  get
    | .object members => some (TreeMap.ofList members)
    | _ => none

/-- `picojson::array`. -/
def jsonArray : JsonType (List Json) where
  name := "JSON array ([])".toList
  get
    | .array values => some values
    | _ => none

/-- `bool`. -/
def jsonBool : JsonType Bool where
  name := "boolean".toList
  get
    | .boolean b => some b
    | _ => none

/-- What is caught is thrown again with the place in front of it. -/
def within {α : Type} (place : Text) : Except Text α → Except Text α
  | .ok a => .ok a
  | .error what => .error (place ++ what)

/-- `jsonCast`. -/
def jsonCast {α : Type} (type : JsonType α) (val : Json) : Except Text α :=
  match type.get val with
  | some casted => .ok casted
  | none => .error ("Wanted '".toList ++ type.name ++ "' instead got ".toList ++ val.toStr)

/-- The place of `jsonGetSafe` and `jsonGetSafeOptional`. -/
def accessing (key : Text) : Text := "While accessing key '".toList ++ key ++ "' -> ".toList

/-- `jsonGetSafe`; a key that is not there reads as `null`. -/
def jsonGetSafe {α : Type} (type : JsonType α) (obj : Object) (key : Text) : Except Text α :=
  within (accessing key) (jsonCast type (obj.getD key .null))

/-- `jsonGetSafeOptional`. -/
def jsonGetSafeOptional {α : Type} (type : JsonType α) (obj : Object) (key : Text) (fallback : α) :
    Except Text α :=
  match obj[key]? with
  | none => .ok fallback
  | some val => within (accessing key) (jsonCast type val)

/-- `join`. -/
def join (strs : List Text) : Text := List.intercalate ", ".toList strs

/-! ### Accelerators -/

/-- The types that are registered, as `Factory::getTypes` returns them, and
`std::thread::hardware_concurrency()`. -/
structure Build where
  threads : List Text
  schedulers : List Text
  cores : Nat
  /-- The names of classes are identifiers. -/
  identifiers : ∀ name ∈ threads, ∀ c ∈ name, c.isAlphanum = true ∨ c = '_'

/-- `AccelConfig::JobPreference`. -/
inductive JobPreference where
  | noJob
  | userJob
  | batchJob
  | anyJob
  deriving DecidableEq

/-- `fromString`. -/
def fromString (pref loc : Text) : Except Text JobPreference :=
  let pref := pref.map Char.toLower
  if pref = "nojob".toList then .ok .noJob
  else if pref = "userjob".toList then .ok .userJob
  else if pref = "batchjob".toList then .ok .batchJob
  else if pref = "anyjob".toList then .ok .anyJob
  else .error ("Parse error at ".toList ++ loc ++
    " expected a JobPreference(NoJob,UserJob,BatchJob,AnyJob)".toList)

/-- `AccelConfig`. -/
structure AccelConfig where
  name : Text
  conf : Object
  typeStr : Text
  type : Nat
  affinity : CpuSet
  /-- The name of `group`. -/
  group : Text
  jobPreference : JobPreference
  initialPreference : JobPreference

/-- `std::string::c_str`, read up to its NUL. -/
def cStr (s : Text) : Text := s.takeWhile fun c => c != '\x00'

/-- The name of an accelerator that is given none. -/
def defaultName (group typeStr : Text) (count : Nat) : Text :=
  group ++ ":".toList ++ typeStr ++ ":".toList ++ Nat.toDigits 10 count

/-- The thread class of a type. -/
def threadOf (typeStr : Text) : Text := typeStr ++ "accelThread".toList

/-- What is thrown for an accelerator without a thread class. -/
def unknownType (build : Build) (typeStr name : Text) : Text :=
  "Unknown accelerator type '".toList ++ typeStr ++ "' at accelerator '".toList ++ name ++
    "' should be:[".toList ++
    join (build.threads.map fun astr => astr.take (astr.length - 11)) ++ "]".toList

/-- `AccelConfig::AccelConfig`, for a group with `count` accelerators. -/
def AccelConfig.new (build : Build) (group : Text) (count : Nat) (conf : Object) :
    Except Text AccelConfig := do
  let typeStr ← jsonGetSafe jsonString conf "arch".toList
  let type := araxAccelTypeFromStr (some (cStr typeStr))
  let name ← jsonGetSafeOptional jsonString conf "name".toList (defaultName group typeStr count)
  if type = araxAccelTypes ∨ threadOf typeStr ∉ build.threads then
    .error (unknownType build typeStr name)
  else
    let affinity ← jsonGetSafeOptional jsonString conf "cpu_core".toList "-1".toList
    let affinity ← CpuSet.extract build.cores affinity .zero
    let jobPref ← jsonGetSafeOptional jsonString conf "job_pref".toList "AnyJob".toList
    let preference ← fromString jobPref name
    return {
      name := name
      conf := conf
      typeStr := typeStr
      type := type
      affinity := affinity
      group := group
      jobPreference := preference
      initialPreference := preference }

/-! ### Groups -/

/-- `map<string, AccelConfig *>`. -/
abbrev Accelerators := TreeMap Text AccelConfig compare

/-- `GroupConfig`, with the class of its scheduler. -/
structure GroupConfig where
  name : Text
  groupId : Nat
  scheduler : Text
  accelerators : Accelerators

/-- The place of an element of the array. -/
def adding (accelNr : Nat) : Text :=
  "While adding accelerator #".toList ++ Nat.toDigits 10 accelNr ++ " -> ".toList

/-- The body of the loop over the array. -/
def newAccelerator (build : Build) (group : Text) (accelerators : Accelerators) (accel : Json) :
    Except Text AccelConfig :=
  jsonCast jsonObject accel >>= AccelConfig.new build group accelerators.size

/-- The loop over the array; `addAccelerator` overwrites an accelerator of the same name. -/
def addAccelerators (build : Build) (group : Text) :
    Nat → List Json → Accelerators → Except Text Accelerators
  | _, [], accelerators => .ok accelerators
  | accelNr, accel :: rest, accelerators => do
    let accel ← within (adding accelNr) (newAccelerator build group accelerators accel)
    addAccelerators build group (accelNr + 1) rest (accelerators.insert accel.name accel)

/-- What is thrown for a scheduler that is not registered. -/
def unknownScheduler (build : Build) (schedClass : Text) : Text :=
  "Could not create scheduler of type '".toList ++ schedClass ++ "' can be:[".toList ++
    join build.schedulers ++ "]".toList

/-- The scheduler class of a name. -/
def schedulerOf (schedClass : Text) : Text := schedClass ++ "Scheduler".toList

/-- `GroupConfig::GroupConfig`, after `groupCount` others. -/
def GroupConfig.new (build : Build) (groupCount : Nat) (name : Text) (conf : Object) :
    Except Text GroupConfig :=
  within ("While parsing group '".toList ++ name ++ "' -> ".toList) do
    let sched ← jsonGetSafeOptional jsonObject conf "sched".toList ∅
    let schedClass ← jsonGetSafeOptional jsonString sched "class".toList "RoundRobin".toList
    if schedulerOf schedClass ∉ build.schedulers then .error (unknownScheduler build schedClass)
    else
      let accels ← jsonGetSafe jsonArray conf "accels".toList
      if accels.length = 0 then .error "Groups accels array should not be empty".toList
      else
        let accelerators ← addAccelerators build name 0 accels ∅
        return { name, groupId := groupCount, scheduler := schedClass, accelerators }

/-! ### The file -/

/-- `Config`. -/
structure Config where
  cleanShm : Bool
  paths : List Text
  accelerators : Accelerators
  /-- The classes of the schedulers. -/
  schedulers : TreeMap Text Text compare
  groups : TreeMap Text GroupConfig compare

/-- The body of the loop over the paths. -/
def relativePath (path : Json) : Except Text Text := do
  let spath ← jsonCast jsonString path
  if spath.head? = some '/' then
    .error ("Only relative paths (not: '".toList ++ path.toStr ++ "')".toList)
  else return spath

/-- What is thrown about a group that is there already. -/
def redeclared (configFile group : Text) : Text :=
  "File \"".toList ++ configFile ++ "\" group '".toList ++ group ++ "' redeclared".toList

/-- The body of the loop over the groups; `emplace` keeps an accelerator that is there. -/
def addGroup (build : Build) (configFile : Text) (jgroups : Object) (c : Config)
    (group : Text × Json) : Except Text Config :=
  if c.groups.contains group.1 then .error (redeclared configFile group.1)
  else do
    let grp ← jsonGetSafe jsonObject jgroups group.1
    let ngc ← GroupConfig.new build c.groups.size group.1 grp
    return { c with
      schedulers := c.schedulers.insert ngc.name ngc.scheduler
      groups := c.groups.insert group.1 ngc
      accelerators := ngc.accelerators.toList.foldl
        (fun accelerators accel => accelerators.insertIfNew accel.1 accel.2) c.accelerators }

/-- What is thrown about a file without groups. -/
def noGroups (configFile : Text) : Text :=
  "File \"".toList ++ configFile ++ "\" groups object should not be empty".toList

/-- `Config::Config`, for the value of the file. -/
def Config.new (build : Build) (configFile : Text) (v : Json) : Except Text Config := do
  let conf ← jsonCast jsonObject v
  let cleanShm ← jsonGetSafeOptional jsonBool conf "clean_shm".toList true
  let jpaths ← jsonGetSafeOptional jsonArray conf "paths".toList []
  let paths ← within "While parsing paths array->\n".toList (jpaths.mapM relativePath)
  within "While parsing groups -> ".toList do
    let jgroups ← jsonCast jsonObject (conf.getD "groups".toList .null)
    if jgroups.size = 0 then .error (noGroups configFile)
    else
      jgroups.toList.foldlM (addGroup build configFile jgroups)
        { cleanShm, paths, accelerators := ∅, schedulers := ∅, groups := ∅ }

/-! ### Fields -/

theorem within_ok {α : Type} {place : Text} {x : Except Text α} {a : α}
    (done : within place x = .ok a) : x = .ok a := by
  cases x with
  | error what => cases done
  | ok b => exact done

theorem jsonCast_ok {α : Type} {type : JsonType α} {val : Json} {a : α}
    (done : jsonCast type val = .ok a) : type.get val = some a := by
  unfold jsonCast at done
  split at done
  · next got =>
    cases done
    exact got
  · cases done

/-- A field that has to be there. -/
theorem jsonGetSafe_ok {α : Type} {type : JsonType α} {obj : Object} {key : Text} {a : α}
    (missing : type.get .null = none) (done : jsonGetSafe type obj key = .ok a) :
    ∃ val, obj[key]? = some val ∧ type.get val = some a := by
  have got := jsonCast_ok (within_ok done)
  rw [TreeMap.getD_eq_getD_getElem?] at got
  cases here : obj[key]? with
  | none =>
    rw [here, Option.getD_none, missing] at got
    cases got
  | some val =>
    rw [here, Option.getD_some] at got
    exact ⟨val, rfl, got⟩

/-! ### Accelerators -/

/-- What is known of an accelerator that was accepted. -/
structure AccelConfig.Ok (build : Build) (a : AccelConfig) : Prop where
  /-- `spawnThreads` finds the class of its thread. -/
  thread : threadOf a.typeStr ∈ build.threads
  type : a.type = araxAccelTypeFromStr (some (cStr a.typeStr))
  valid : araxAccelValidType a.type = true
  existing : ∀ core ∈ a.affinity.bits, core < build.cores
  initial : a.initialPreference = a.jobPreference

section Accelerators

variable {build : Build} {group : Text} {count : Nat} {conf : Object} {a : AccelConfig}

theorem AccelConfig.new_ok (done : AccelConfig.new build group count conf = .ok a) :
    a.Ok build ∧ a.group = group ∧
      (conf["name".toList]? = none → a.name = defaultName group a.typeStr count) := by
  unfold AccelConfig.new at done
  obtain ⟨typeStr, -, done⟩ := bind_eq_ok.mp done
  obtain ⟨name, named, done⟩ := bind_eq_ok.mp done
  split_ifs at done with unknown
  obtain ⟨text, -, done⟩ := bind_eq_ok.mp done
  obtain ⟨affinity, read, done⟩ := bind_eq_ok.mp done
  obtain ⟨jobPref, -, done⟩ := bind_eq_ok.mp done
  obtain ⟨preference, -, done⟩ := bind_eq_ok.mp done
  obtain rfl := Except.ok.inj done
  obtain ⟨known, thread⟩ := not_or.mp unknown
  refine ⟨⟨not_not.mp thread, rfl, ?_, ?_, rfl⟩, rfl, fun unnamed => ?_⟩
  · have bound : araxAccelTypeFromStr (some (cStr typeStr)) ≤ araxAccelTypes :=
      List.findIdx_le_length
    exact decide_eq_true (Nat.lt_of_le_of_ne bound known)
  · rcases cpuSet_extract build.cores text .zero with ⟨t, ok, grows⟩ | ⟨c, -, error⟩
    · rw [read] at ok
      cases ok
      exact fun core member => (grows.existing core member).resolve_left (Finset.notMem_empty core)
    · rw [read] at error
      cases error
  · unfold jsonGetSafeOptional at named
    rw [unnamed] at named
    exact (Except.ok.inj named).symm

theorem newAccelerator_ok {accelerators : Accelerators} {accel : Json}
    (done : newAccelerator build group accelerators accel = .ok a) :
    a.Ok build ∧ a.group = group ∧ ∀ conf, jsonObject.get accel = some conf →
      conf["name".toList]? = none → a.name = defaultName group a.typeStr accelerators.size := by
  obtain ⟨conf, cast, new⟩ := bind_eq_ok.mp done
  obtain ⟨ok, group, name⟩ := AccelConfig.new_ok new
  refine ⟨ok, group, fun conf' same unnamed => name ?_⟩
  rw [jsonCast_ok cast] at same
  cases same
  exact unnamed

/-- A type with a thread class is an identifier. -/
theorem AccelConfig.Ok.noColon (ok : a.Ok build) : ':' ∉ a.typeStr := by
  intro colon
  have letter := build.identifiers _ ok.thread ':' (List.mem_append_left _ colon)
  exact absurd letter (by decide)

end Accelerators

/-! ### Default names -/

/-- A text is split in one way at the last one of its separators. -/
theorem split_last {c : Char} {a b a' b' : Text} (none : c ∉ b) (none' : c ∉ b')
    (same : a ++ c :: b = a' ++ c :: b') : a = a' ∧ b = b' := by
  have reversed : b.reverse ++ c :: a.reverse = b'.reverse ++ c :: a'.reverse := by
    have flipped := congrArg List.reverse same
    rw [List.reverse_append, List.reverse_append, List.reverse_cons, List.reverse_cons,
      List.append_assoc, List.append_assoc] at flipped
    exact flipped
  have first : ∀ x y : Text, c ∉ x → (x ++ c :: y).takeWhile (· != c) = x := by
    intro x y absent
    rw [List.takeWhile_append_of_pos fun d member => ?_]
    · rw [List.takeWhile_cons_of_neg (by simp), List.append_nil]
    · exact bne_iff_ne.mpr fun same => absent (same ▸ member)
  have after : b.reverse = b'.reverse := by
    rw [← first b.reverse a.reverse fun member => none (List.mem_reverse.mp member), reversed]
    exact first _ _ fun member => none' (List.mem_reverse.mp member)
  rw [after] at reversed
  have before := (List.cons.inj (List.append_cancel_left reversed)).2
  exact ⟨List.reverse_injective before, List.reverse_injective after⟩

/-- The group, the type and the number can be read off a default name. -/
theorem defaultName_inj {group group' typeStr typeStr' : Text} {count count' : Nat}
    (noColon : ':' ∉ typeStr) (noColon' : ':' ∉ typeStr')
    (same : defaultName group typeStr count = defaultName group' typeStr' count') :
    group = group' ∧ typeStr = typeStr' ∧ count = count' := by
  have digits : ∀ n, ':' ∉ Nat.toDigits 10 n := fun n member =>
    absurd (toDigits_isDigit member) (by decide)
  have shape : ∀ (group typeStr : Text) (count : Nat), defaultName group typeStr count =
      (group ++ ':' :: typeStr) ++ ':' :: Nat.toDigits 10 count := fun group typeStr count => by
    unfold defaultName
    simp
  rw [shape, shape] at same
  obtain ⟨front, number⟩ := split_last (digits _) (digits _) same
  obtain ⟨first, second⟩ := split_last noColon noColon' front
  refine ⟨first, second, ?_⟩
  rw [← Nat.ofDigitChars_toDigits (b := 10) (n := count) (by decide) le_rfl, number]
  exact Nat.ofDigitChars_toDigits (by decide) le_rfl

/-! ### Groups -/

/-- The accelerators of a group are listed under their names. -/
def Members (build : Build) (group : Text) (accelerators : Accelerators) : Prop :=
  ∀ (n : Text) (a : AccelConfig), accelerators[n]? = some a →
    a.name = n ∧ a.group = group ∧ a.Ok build

/-- The names of the accelerators are default names with different numbers. -/
def Numbered (group : Text) (accelerators : Accelerators) : Prop :=
  ∀ n ∈ accelerators, ∃ typeStr j, ':' ∉ typeStr ∧ j < accelerators.size ∧
    n = defaultName group typeStr j

/-- The member `"name"` of an accelerator. -/
def givenName (accel : Json) : Option Json :=
  (jsonObject.get accel).bind fun conf => conf["name".toList]?

/-- No accelerator of the array is given a name. -/
def Unnamed (accels : List Json) : Prop := ∀ accel ∈ accels, (givenName accel).isNone = true

instance (accels : List Json) : Decidable (Unnamed accels) :=
  inferInstanceAs (Decidable (∀ accel ∈ accels, (givenName accel).isNone = true))

section Groups

variable {build : Build} {group : Text} {accels : List Json} {m m' : Accelerators}

theorem Members.insert {a : AccelConfig} (members : Members build group m) (ok : a.Ok build)
    (here : a.group = group) : Members build group (m.insert a.name a) := by
  intro n b found
  rw [TreeMap.getElem?_insert] at found
  split_ifs at found with same
  · cases found
    exact ⟨LawfulEqCmp.compare_eq_iff_eq.mp same, here, ok⟩
  · exact members n b found

theorem addAccelerators_ok {accelNr : Nat} (members : Members build group m)
    (done : addAccelerators build group accelNr accels m = .ok m') :
    Members build group m' ∧ (accels ≠ [] → 0 < m'.size) ∧ m.size ≤ m'.size := by
  induction accels generalizing accelNr m with
  | nil =>
    cases done
    exact ⟨members, fun some => absurd rfl some, le_rfl⟩
  | cons accel accels ih =>
    obtain ⟨a, new, rest⟩ := bind_eq_ok.mp done
    obtain ⟨ok, here, -⟩ := newAccelerator_ok (within_ok new)
    obtain ⟨members', -, larger⟩ := ih (members.insert ok here) rest
    have added : 0 < (m.insert a.name a).size ∧ m.size ≤ (m.insert a.name a).size := by
      rw [TreeMap.size_insert]
      split_ifs with known
      · refine ⟨?_, le_rfl⟩
        rw [← TreeMap.length_keys, List.length_pos_iff_exists_mem]
        exact ⟨_, TreeMap.mem_keys.mpr (TreeMap.contains_iff_mem.mp known)⟩
      · exact ⟨Nat.succ_pos _, Nat.le_succ _⟩
    exact ⟨members', fun _ => added.1.trans_le larger, added.2.trans larger⟩

/-- Accelerators without names get different ones. -/
theorem addAccelerators_unnamed {accelNr : Nat} (numbered : Numbered group m)
    (unnamed : Unnamed accels) (done : addAccelerators build group accelNr accels m = .ok m') :
    Numbered group m' ∧ m'.size = m.size + accels.length := by
  induction accels generalizing accelNr m with
  | nil =>
    cases done
    exact ⟨numbered, rfl⟩
  | cons accel accels ih =>
    obtain ⟨a, new, rest⟩ := bind_eq_ok.mp done
    obtain ⟨conf, cast, -⟩ := bind_eq_ok.mp (within_ok new)
    obtain ⟨ok, -, name⟩ := newAccelerator_ok (within_ok new)
    have none := Option.isNone_iff_eq_none.mp (unnamed accel List.mem_cons_self)
    unfold givenName at none
    rw [jsonCast_ok cast, Option.bind_some] at none
    have called := name conf (jsonCast_ok cast) none
    have fresh : a.name ∉ m := by
      intro known
      obtain ⟨typeStr, j, noColon, low, same⟩ := numbered a.name known
      rw [called] at same
      exact absurd (defaultName_inj ok.noColon noColon same).2.2 (Nat.ne_of_gt low)
    have grown : (m.insert a.name a).size = m.size + 1 := by
      rw [TreeMap.size_insert, if_neg fun known => fresh (TreeMap.contains_iff_mem.mp known)]
    have numbered' : Numbered group (m.insert a.name a) := by
      intro n member
      rw [grown]
      rcases TreeMap.mem_insert.mp member with same | old
      · refine ⟨a.typeStr, m.size, ok.noColon, Nat.lt_succ_self _, ?_⟩
        rw [← LawfulEqCmp.compare_eq_iff_eq.mp same]
        exact called
      · obtain ⟨typeStr, j, noColon, low, same⟩ := numbered n old
        exact ⟨typeStr, j, noColon, Nat.lt_succ_of_lt low, same⟩
    obtain ⟨numbered'', size⟩ :=
      ih numbered' (fun accel later => unnamed accel (List.mem_cons_of_mem _ later)) rest
    refine ⟨numbered'', size.trans ?_⟩
    rw [grown, List.length_cons]
    omega

/-- What is known of a group that was accepted. -/
structure GroupConfig.Ok (build : Build) (group : Text) (g : GroupConfig) : Prop where
  name : g.name = group
  scheduler : schedulerOf g.scheduler ∈ build.schedulers
  members : Members build group g.accelerators
  some : 0 < g.accelerators.size

theorem GroupConfig.new_ok {groupCount : Nat} {conf : Object} {g : GroupConfig}
    (done : GroupConfig.new build groupCount group conf = .ok g) :
    g.Ok build group ∧ g.groupId = groupCount ∧ ∃ accels,
      conf["accels".toList]? = some (.array accels) ∧ (Unnamed accels →
        Numbered group g.accelerators ∧ g.accelerators.size = accels.length) := by
  unfold GroupConfig.new at done
  obtain ⟨sched, -, done⟩ := bind_eq_ok.mp (within_ok done)
  obtain ⟨schedClass, -, done⟩ := bind_eq_ok.mp done
  split_ifs at done with registered
  obtain ⟨accels, field, done⟩ := bind_eq_ok.mp done
  split_ifs at done with empty
  obtain ⟨m, loop, done⟩ := bind_eq_ok.mp done
  obtain rfl := Except.ok.inj done
  have nobody : Members build group (∅ : Accelerators) := fun n a found => by
    rw [TreeMap.getElem?_emptyc] at found
    cases found
  obtain ⟨members, some, -⟩ := addAccelerators_ok nobody loop
  refine ⟨⟨rfl, registered, members, some fun none => empty (none ▸ rfl)⟩, rfl,
    accels, ?_, fun unnamed => ?_⟩
  · obtain ⟨val, here, got⟩ := jsonGetSafe_ok rfl field
    cases val <;> cases got
    exact here
  · have numbered : Numbered group (∅ : Accelerators) := fun n member =>
      absurd member TreeMap.not_mem_emptyc
    obtain ⟨numbered, size⟩ := addAccelerators_unnamed numbered unnamed loop
    exact ⟨numbered, size.trans (Nat.zero_add _)⟩

end Groups

/-! ### The loop over the groups -/

/-- `emplace`, for every accelerator of a group. -/
def emplaceAll (l : List (Text × AccelConfig)) (m : Accelerators) : Accelerators :=
  l.foldl (fun accelerators accel => accelerators.insertIfNew accel.1 accel.2) m

section Emplace

variable {l : List (Text × AccelConfig)} {m : Accelerators}

theorem mem_emplaceAll {n : Text} : n ∈ emplaceAll l m ↔ n ∈ m ∨ n ∈ l.map Prod.fst := by
  induction l generalizing m with
  | nil => exact (or_iff_left List.not_mem_nil).symm
  | cons accel l ih =>
    refine ih.trans ?_
    rw [TreeMap.mem_insertIfNew, LawfulEqCmp.compare_eq_iff_eq, List.map_cons, List.mem_cons,
      or_comm (a := accel.1 = n), or_assoc, eq_comm (a := n)]

theorem emplaceAll_get {n : Text} {a : AccelConfig} (found : (emplaceAll l m)[n]? = some a) :
    m[n]? = some a ∨ (n, a) ∈ l := by
  induction l generalizing m with
  | nil => exact .inl found
  | cons accel l ih =>
    rcases ih found with before | later
    · rw [TreeMap.getElem?_insertIfNew] at before
      split_ifs at before with new
      · cases before
        cases LawfulEqCmp.compare_eq_iff_eq.mp new.1
        exact .inr List.mem_cons_self
      · exact .inl before
    · exact .inr (List.mem_cons_of_mem _ later)

theorem size_emplaceAll (distinct : (l.map Prod.fst).Nodup) (fresh : ∀ n ∈ l.map Prod.fst, n ∉ m) :
    (emplaceAll l m).size = m.size + l.length := by
  induction l generalizing m with
  | nil => rfl
  | cons accel l ih =>
    obtain ⟨apart, distinct⟩ := List.nodup_cons.mp distinct
    have first : accel.1 ∉ m := fresh accel.1 List.mem_cons_self
    refine (ih distinct fun n member known => ?_).trans ?_
    · rcases TreeMap.mem_insertIfNew.mp known with same | old
      · exact apart (LawfulEqCmp.compare_eq_iff_eq.mp same ▸ member)
      · exact fresh n (List.mem_cons_of_mem _ member) old
    · rw [TreeMap.size_insertIfNew, if_neg first, List.length_cons]
      omega

theorem keys_nodup {α : Type} (m : TreeMap Text α compare) : m.keys.Nodup :=
  m.distinct_keys.imp fun apart same => apart (LawfulEqCmp.compare_eq_iff_eq.mpr same)

end Emplace

/-- The member `"groups"` of the file. -/
def groupsOf (v : Json) : Object :=
  ((jsonObject.get v).bind fun conf => conf["groups".toList]?.bind jsonObject.get).getD ∅

/-- The member `"accels"` of a group. -/
def accelsOf (jgroups : Object) (group : Text) : List Json :=
  ((jgroups[group]?.bind jsonObject.get).bind fun conf =>
    conf["accels".toList]?.bind jsonArray.get).getD []

/-- How many accelerators the groups have. -/
def Config.total (c : Config) : Nat :=
  (c.groups.toList.map fun group => group.2.accelerators.size).sum

/-- What the loop over the groups keeps. -/
structure ConfigInv (build : Build) (jgroups : Object) (c : Config) : Prop where
  group : ∀ (name : Text) (g : GroupConfig), c.groups[name]? = some g →
    g.Ok build name ∧ name ∈ jgroups ∧ (Unnamed (accelsOf jgroups name) →
      Numbered name g.accelerators ∧ g.accelerators.size = (accelsOf jgroups name).length)
  scheduler : ∀ (name : Text) (g : GroupConfig), c.groups[name]? = some g →
    c.schedulers[name]? = some g.scheduler
  served : ∀ n, n ∈ c.accelerators ↔
    ∃ (name : Text) (g : GroupConfig), c.groups[name]? = some g ∧ n ∈ g.accelerators
  listed : ∀ (n : Text) (a : AccelConfig), c.accelerators[n]? = some a →
    ∃ g, c.groups[a.group]? = some g ∧ g.accelerators[n]? = some a
  /-- Accelerators with default names do not hide each other. -/
  kept : (∀ (name : Text) (g : GroupConfig), c.groups[name]? = some g →
    Numbered name g.accelerators) → c.accelerators.size = c.total

section Loop

variable {build : Build} {configFile : Text} {jgroups : Object} {c c' : Config}

/-- What `addGroup` does. -/
theorem addGroup_ok {group : Text × Json}
    (done : addGroup build configFile jgroups c group = .ok c') :
    group.1 ∉ c.groups ∧ ∃ g, g.Ok build group.1 ∧ group.1 ∈ jgroups ∧
      (Unnamed (accelsOf jgroups group.1) → Numbered group.1 g.accelerators ∧
        g.accelerators.size = (accelsOf jgroups group.1).length) ∧
      c' = { c with
        schedulers := c.schedulers.insert group.1 g.scheduler
        groups := c.groups.insert group.1 g
        accelerators := emplaceAll g.accelerators.toList c.accelerators } := by
  unfold addGroup at done
  split_ifs at done with declared
  obtain ⟨grp, field, done⟩ := bind_eq_ok.mp done
  obtain ⟨g, new, done⟩ := bind_eq_ok.mp done
  obtain rfl := Except.ok.inj done
  obtain ⟨val, here, got⟩ := jsonGetSafe_ok rfl field
  obtain ⟨ok, -, accels, array, unnamed⟩ := GroupConfig.new_ok new
  have array' : accelsOf jgroups group.1 = accels := by
    unfold accelsOf
    rw [here, Option.bind_some, got, Option.bind_some, array]
    rfl
  refine ⟨fun known => declared (TreeMap.contains_iff_mem.mpr known), g, ok, ?_, ?_, ?_⟩
  · rw [TreeMap.mem_iff_isSome_getElem?, here]
    rfl
  · rw [array']
    exact unnamed
  · rw [ok.name]
    rfl

theorem total_insert {group : Text} {g : GroupConfig} (fresh : group ∉ c.groups) :
    Config.total { c with groups := c.groups.insert group g } =
      g.accelerators.size + c.total := by
  have others : c.groups.toList.filter (fun other => decide ¬(group == other.1) = true) =
      c.groups.toList := by
    refine List.filter_eq_self.mpr fun other member => decide_eq_true fun same => fresh ?_
    rw [beq_iff_eq.mp same, ← TreeMap.mem_keys, ← TreeMap.map_fst_toList_eq_keys]
    exact List.mem_map.mpr ⟨other, member, rfl⟩
  have perm := TreeMap.toList_insert_perm (t := c.groups) (k := group) (v := g)
  rw [others] at perm
  exact (perm.map fun group : Text × GroupConfig => group.2.accelerators.size).sum_nat.trans
    List.sum_cons

theorem addGroup_keeps {group : Text × Json} (inv : ConfigInv build jgroups c)
    (done : addGroup build configFile jgroups c group = .ok c') : ConfigInv build jgroups c' := by
  obtain ⟨fresh, g, ok, here, unnamed, rfl⟩ := addGroup_ok done
  have lookup : ∀ (name : Text) (h : GroupConfig), (c.groups.insert group.1 g)[name]? = some h →
      (group.1 = name ∧ h = g) ∨ group.1 ≠ name ∧ c.groups[name]? = some h := by
    intro name h found
    rw [TreeMap.getElem?_insert] at found
    split_ifs at found with same
    · cases found
      exact .inl ⟨LawfulEqCmp.compare_eq_iff_eq.mp same, rfl⟩
    · exact .inr ⟨fun same' => same (LawfulEqCmp.compare_eq_iff_eq.mpr same'), found⟩
  have new : (c.groups.insert group.1 g)[group.1]? = some g := by
    rw [TreeMap.getElem?_insert, if_pos (LawfulEqCmp.compare_eq_iff_eq.mpr rfl)]
  have old : ∀ (name : Text) (h : GroupConfig), c.groups[name]? = some h →
      (c.groups.insert group.1 g)[name]? = some h := by
    intro name h found
    rw [TreeMap.getElem?_insert, if_neg, found]
    intro same
    refine fresh ?_
    rw [LawfulEqCmp.compare_eq_iff_eq.mp same, TreeMap.mem_iff_isSome_getElem?, found]
    rfl
  refine ⟨fun name h found => ?_, fun name h found => ?_, fun n => ?_, fun n a found => ?_,
    fun numbered => ?_⟩
  · rcases lookup name h found with ⟨rfl, rfl⟩ | ⟨-, before⟩
    · exact ⟨ok, here, unnamed⟩
    · exact inv.group name h before
  · show (c.schedulers.insert group.1 g.scheduler)[name]? = some h.scheduler
    rw [TreeMap.getElem?_insert]
    rcases lookup name h found with ⟨rfl, rfl⟩ | ⟨apart, before⟩
    · rw [if_pos (LawfulEqCmp.compare_eq_iff_eq.mpr rfl)]
    · rw [if_neg fun same => apart (LawfulEqCmp.compare_eq_iff_eq.mp same)]
      exact inv.scheduler name h before
  · show n ∈ emplaceAll _ _ ↔ _
    rw [mem_emplaceAll, inv.served, TreeMap.map_fst_toList_eq_keys, TreeMap.mem_keys]
    constructor
    · rintro (⟨name, h, found, member⟩ | member)
      · exact ⟨name, h, old name h found, member⟩
      · exact ⟨group.1, g, new, member⟩
    · rintro ⟨name, h, found, member⟩
      rcases lookup name h found with ⟨rfl, rfl⟩ | ⟨-, before⟩
      · exact .inr member
      · exact .inl ⟨name, h, before, member⟩
  · rcases emplaceAll_get found with before | member
    · obtain ⟨h, there, found⟩ := inv.listed n a before
      exact ⟨h, old _ h there, found⟩
    · have got := TreeMap.mem_toList_iff_getElem?_eq_some.mp member
      obtain ⟨-, group, -⟩ := ok.members n a got
      exact ⟨g, group ▸ new, got⟩
  · have before := inv.kept fun name h found => numbered name h (old name h found)
    have mine := numbered group.1 g new
    have apart : ∀ n ∈ g.accelerators.toList.map Prod.fst, n ∉ c.accelerators := by
      rintro n member known
      rw [TreeMap.map_fst_toList_eq_keys, TreeMap.mem_keys] at member
      obtain ⟨name, h, found, there⟩ := (inv.served n).mp known
      obtain ⟨typeStr, j, noColon, -, called⟩ := mine n member
      obtain ⟨typeStr', j', noColon', -, called'⟩ := numbered name h (old name h found) n there
      rw [called] at called'
      have same := (defaultName_inj noColon noColon' called').1
      refine fresh ?_
      rw [same, TreeMap.mem_iff_isSome_getElem?, found]
      rfl
    have distinct : (g.accelerators.toList.map Prod.fst).Nodup := by
      rw [TreeMap.map_fst_toList_eq_keys]
      exact keys_nodup _
    refine (size_emplaceAll distinct apart).trans ?_
    rw [before, TreeMap.length_toList]
    exact (Nat.add_comm _ _).trans (total_insert fresh).symm

/-- The paths that are accepted. -/
theorem relativePaths_ok {jpaths : List Json} {paths : List Text}
    (done : jpaths.mapM relativePath = .ok paths) : ∀ path ∈ paths, path.head? ≠ some '/' := by
  induction jpaths generalizing paths with
  | nil =>
    rw [List.mapM_nil] at done
    obtain rfl := Except.ok.inj done
    exact fun _ none => absurd none List.not_mem_nil
  | cons jpath jpaths ih =>
    rw [List.mapM_cons] at done
    obtain ⟨first, one, done⟩ := bind_eq_ok.mp done
    obtain ⟨rest, others, done⟩ := bind_eq_ok.mp done
    obtain rfl := Except.ok.inj done
    intro path member
    rcases List.mem_cons.mp member with rfl | later
    · obtain ⟨spath, -, relative⟩ := bind_eq_ok.mp one
      split_ifs at relative with absolute
      cases Except.ok.inj relative
      exact absolute
    · exact ih others path later

/-- What the whole constructor establishes. -/
theorem config_inv {v : Json} (accepted : Config.new build configFile v = .ok c) :
    ConfigInv build (groupsOf v) c ∧ (∀ name, name ∈ c.groups ↔ name ∈ groupsOf v) ∧
      (groupsOf v).size ≠ 0 ∧ ∀ path ∈ c.paths, path.head? ≠ some '/' := by
  unfold Config.new at accepted
  obtain ⟨conf, file, accepted⟩ := bind_eq_ok.mp accepted
  obtain ⟨cleanShm, -, accepted⟩ := bind_eq_ok.mp accepted
  obtain ⟨jpaths, -, accepted⟩ := bind_eq_ok.mp accepted
  obtain ⟨paths, relative, accepted⟩ := bind_eq_ok.mp accepted
  obtain ⟨jgroups, field, accepted⟩ := bind_eq_ok.mp (within_ok accepted)
  split_ifs at accepted with empty
  have groups : groupsOf v = jgroups := by
    have got := jsonCast_ok field
    rw [TreeMap.getD_eq_getD_getElem?] at got
    unfold groupsOf
    rw [jsonCast_ok file, Option.bind_some]
    cases here : conf["groups".toList]? with
    | none =>
      rw [here] at got
      cases got
    | some val =>
      rw [here] at got
      exact congrArg (Option.getD · ∅) got
  rw [groups]
  have start : ConfigInv build jgroups
      { cleanShm, paths, accelerators := ∅, schedulers := ∅, groups := ∅ } := by
    have nothing : ∀ {α : Type} (name : Text) (a : α),
        (∅ : TreeMap Text α compare)[name]? ≠ some a := fun name a => by
      rw [TreeMap.getElem?_emptyc]
      exact nofun
    refine ⟨fun name g found => absurd found (nothing name g), fun name g found =>
      absurd found (nothing name g), fun n => ⟨fun member => absurd member TreeMap.not_mem_emptyc,
        fun ⟨name, g, found, _⟩ => absurd found (nothing name g)⟩,
      fun n a found => absurd found (nothing n a), fun _ => rfl⟩
  have each : ∀ s group t, group ∈ jgroups.toList →
      ConfigInv build jgroups s ∧ s.paths = paths →
      addGroup build configFile jgroups s group = .ok t →
      (ConfigInv build jgroups t ∧ t.paths = paths) ∧ group.1 ∈ t.groups ∧
        ∀ other : Text × Json, other.1 ∈ s.groups → other.1 ∈ t.groups := by
    intro s group t _ inv done
    have inv' := addGroup_keeps inv.1 done
    obtain ⟨-, g, -, -, -, rfl⟩ := addGroup_ok done
    refine ⟨⟨inv', inv.2⟩, ?_, fun other known => TreeMap.mem_insert.mpr (.inr known)⟩
    exact TreeMap.mem_insert.mpr (.inl (LawfulEqCmp.compare_eq_iff_eq.mpr rfl))
  obtain ⟨⟨inv, same⟩, settled⟩ := foldlM_ok jgroups.toList each ⟨start, rfl⟩ accepted
  refine ⟨inv, fun name => ⟨fun member => ?_, fun member => ?_⟩, empty, ?_⟩
  · obtain ⟨g, found⟩ := Option.isSome_iff_exists.mp (TreeMap.mem_iff_isSome_getElem?.mp member)
    exact (inv.group name g found).2.1
  · rw [← TreeMap.mem_keys, ← TreeMap.map_fst_toList_eq_keys] at member
    obtain ⟨group, here, rfl⟩ := List.mem_map.mp member
    exact settled group here
  · rw [same]
    exact relativePaths_ok (within_ok relative)

end Loop

/-! ### Files that are accepted -/

/-- What the controller relies on. -/
structure ConfigSound (build : Build) (v : Json) (c : Config) : Prop where
  groups : ∀ name, name ∈ c.groups ↔ name ∈ groupsOf v
  group : ∀ (name : Text) (g : GroupConfig), c.groups[name]? = some g →
    g.Ok build name ∧ c.schedulers[name]? = some g.scheduler
  /-- Every accelerator that gets a thread is one of its group, and has a thread class. -/
  listed : ∀ (n : Text) (a : AccelConfig), c.accelerators[n]? = some a →
    a.name = n ∧ a.Ok build ∧ ∃ g, c.groups[a.group]? = some g ∧ g.accelerators[n]? = some a
  /-- Every name of an accelerator of a group is one that gets a thread. -/
  served : ∀ (name : Text) (g : GroupConfig), c.groups[name]? = some g →
    ∀ n ∈ g.accelerators, n ∈ c.accelerators
  nonempty : 0 < c.accelerators.size
  relative : ∀ path ∈ c.paths, path.head? ≠ some '/'

/-- **Files that are accepted.** Whatever is in the file, a configuration that is constructed has
what the controller relies on. -/
theorem config_sound (build : Build) (configFile : Text) (v : Json) (c : Config)
    (accepted : Config.new build configFile v = .ok c) : ConfigSound build v c := by
  obtain ⟨inv, groups, nonempty, relative⟩ := config_inv accepted
  have served : ∀ (name : Text) (g : GroupConfig), c.groups[name]? = some g →
      ∀ n ∈ g.accelerators, n ∈ c.accelerators := fun name g found n member =>
    (inv.served n).mpr ⟨name, g, found, member⟩
  have positive : ∀ {α : Type} (m : TreeMap Text α compare), 0 < m.size ↔ ∃ n, n ∈ m := by
    intro α m
    rw [← TreeMap.length_keys, List.length_pos_iff_exists_mem]
    exact exists_congr fun n => TreeMap.mem_keys
  refine ⟨groups, fun name g found => ⟨(inv.group name g found).1, inv.scheduler name g found⟩,
    fun n a found => ?_, served, ?_, relative⟩
  · obtain ⟨g, here, found⟩ := inv.listed n a found
    obtain ⟨named, -, ok⟩ := (inv.group a.group g here).1.members n a found
    exact ⟨named, ok, g, here, found⟩
  · obtain ⟨name, member⟩ := (positive (groupsOf v)).mp (Nat.pos_of_ne_zero nonempty)
    obtain ⟨g, found⟩ := Option.isSome_iff_exists.mp
      (TreeMap.mem_iff_isSome_getElem?.mp ((groups name).mpr member))
    obtain ⟨n, inside⟩ := (positive g.accelerators).mp (inv.group name g found).1.some
    exact (positive c.accelerators).mpr ⟨n, served name g found n inside⟩

/-- A controller with threads for two types, on a machine with four cores. -/
def twoThreads : Build where
  threads := ["CPUaccelThread".toList, "GPUaccelThread".toList]
  schedulers := ["ElasticScheduler".toList, "RoundRobinScheduler".toList]
  cores := 4
  identifiers name member c inside := by
    have all : ["CPUaccelThread".toList, "GPUaccelThread".toList].all
        (List.all · fun c => c.isAlphanum || c == '_') = true := by decide
    simpa using List.all_eq_true.mp (List.all_eq_true.mp all name member) c inside

/-- An accelerator object. -/
def jsonAccel (fields : List (String × String)) : Json :=
  .object (fields.map fun field => (field.1.toList, .string field.2.toList))

/-- A group object. -/
def jsonGroup (accels : List Json) : Json := .object [("accels".toList, .array accels)]

/-- A file with groups, and a path. -/
def jsonFile (groups : List (String × Json)) : Json :=
  .object [("paths".toList, .array [.string "lib".toList]),
    ("groups".toList, .object (groups.map fun group => (group.1.toList, group.2)))]

/-- Two groups; an accelerator of the second one has the name of one of the first. -/
def sharedName : Json :=
  jsonFile [("a", jsonGroup [jsonAccel [("arch", "CPU"), ("cpu_core", "0,3"), ("name", "x")]]),
    ("b", jsonGroup [jsonAccel [("arch", "GPU"), ("job_pref", "UserJob"), ("name", "x")],
      jsonAccel [("arch", "GPU")]])]

theorem config_sound_at_shared : ∃ c, Config.new twoThreads "f".toList sharedName = .ok c ∧
    c.accelerators.keys = ["b:GPU:1".toList, "x".toList] ∧ ConfigSound twoThreads sharedName c := by
  have keys : (Config.new twoThreads "f".toList sharedName).toOption.map
      (fun c => c.accelerators.keys) = some ["b:GPU:1".toList, "x".toList] := by decide +kernel
  obtain ⟨c, accepted, names⟩ := Option.map_eq_some_iff.mp keys
  have accepted := toOption_eq_some.mp accepted
  exact ⟨c, accepted, names, config_sound twoThreads "f".toList sharedName c accepted⟩

/-- **Accelerators without names.** If the file gives no accelerator a name, none is lost: every
group has as many as its array has elements, and all of them get threads. -/
theorem unnamed_accelerators_kept (build : Build) (configFile : Text) (v : Json) (c : Config)
    (accepted : Config.new build configFile v = .ok c)
    (unnamed : ∀ group ∈ (groupsOf v).keys, Unnamed (accelsOf (groupsOf v) group)) :
    (∀ (name : Text) (g : GroupConfig), c.groups[name]? = some g →
      g.accelerators.size = (accelsOf (groupsOf v) name).length) ∧
    c.accelerators.size =
      ((groupsOf v).keys.map fun group => (accelsOf (groupsOf v) group).length).sum := by
  obtain ⟨inv, groups, -, -⟩ := config_inv accepted
  have each : ∀ (name : Text) (g : GroupConfig), c.groups[name]? = some g →
      Numbered name g.accelerators ∧
        g.accelerators.size = (accelsOf (groupsOf v) name).length := fun name g found => by
    obtain ⟨-, member, numbered⟩ := inv.group name g found
    exact numbered (unnamed name (TreeMap.mem_keys.mpr member))
  refine ⟨fun name g found => (each name g found).2, ?_⟩
  have same : c.groups.keys.Perm (groupsOf v).keys := by
    refine (List.perm_ext_iff_of_nodup (keys_nodup _) (keys_nodup _)).mpr fun name => ?_
    rw [TreeMap.mem_keys, TreeMap.mem_keys, groups]
  calc c.accelerators.size = c.total := inv.kept fun name g found => (each name g found).1
    _ = (c.groups.keys.map fun group => (accelsOf (groupsOf v) group).length).sum := by
      unfold Config.total
      rw [← TreeMap.map_fst_toList_eq_keys, List.map_map]
      refine congrArg List.sum (List.map_congr_left fun group member => ?_)
      exact (each group.1 group.2 (TreeMap.mem_toList_iff_getElem?_eq_some.mp member)).2
    _ = _ := (same.map _).sum_nat

/-- Two groups with three accelerators. -/
def threeUnnamed : Json :=
  jsonFile [("b", jsonGroup [jsonAccel [("arch", "GPU")], jsonAccel [("arch", "GPU")]]),
    ("a", jsonGroup [jsonAccel [("arch", "CPU"), ("job_pref", "NoJob")]])]

theorem unnamed_accelerators_kept_at_three : ∃ c,
    Config.new twoThreads "f".toList threeUnnamed = .ok c ∧
      c.accelerators.keys = ["a:CPU:0".toList, "b:GPU:0".toList, "b:GPU:1".toList] ∧
      c.accelerators.size = ((groupsOf threeUnnamed).keys.map fun group =>
        (accelsOf (groupsOf threeUnnamed) group).length).sum := by
  have keys : (Config.new twoThreads "f".toList threeUnnamed).toOption.map
      (fun c => c.accelerators.keys) =
        some ["a:CPU:0".toList, "b:GPU:0".toList, "b:GPU:1".toList] := by decide +kernel
  obtain ⟨c, accepted, names⟩ := Option.map_eq_some_iff.mp keys
  have accepted := toOption_eq_some.mp accepted
  exact ⟨c, accepted, names, (unnamed_accelerators_kept twoThreads "f".toList threeUnnamed c
    accepted (by decide +kernel)).2⟩

/-! ### What is accepted -/

/-- The field is there and has a value that is right. -/
def Required {α : Type} (type : JsonType α) (obj : Object) (key : Text) (valid : α → Prop) : Prop :=
  ∃ val a, obj[key]? = some val ∧ type.get val = some a ∧ valid a

/-- The field has a value that is right if it is there. -/
def Optional {α : Type} (type : JsonType α) (obj : Object) (key : Text) (valid : α → Prop) : Prop :=
  ∀ val, obj[key]? = some val → ∃ a, type.get val = some a ∧ valid a

/-- An accelerator that can be constructed. -/
structure AccelValid (build : Build) (conf : Object) : Prop where
  arch : Required jsonString conf "arch".toList fun typeStr =>
    araxAccelTypeFromStr (some (cStr typeStr)) ≠ araxAccelTypes ∧ threadOf typeStr ∈ build.threads
  name : Optional jsonString conf "name".toList fun _ => True
  cpuCore : Optional jsonString conf "cpu_core".toList fun text =>
    ∃ set, CpuSet.extract build.cores text .zero = .ok set
  jobPref : Optional jsonString conf "job_pref".toList fun pref =>
    pref.map Char.toLower ∈ ["nojob".toList, "userjob".toList, "batchjob".toList, "anyjob".toList]

/-- A scheduler object, with the scheduler of a group that names none. -/
def SchedValid (build : Build) (sched : Object) : Prop :=
  Optional jsonString sched "class".toList (fun schedClass =>
    schedulerOf schedClass ∈ build.schedulers) ∧
  (sched["class".toList]? = none → schedulerOf "RoundRobin".toList ∈ build.schedulers)

/-- A group that can be constructed. -/
structure GroupValid (build : Build) (conf : Object) : Prop where
  sched : Optional jsonObject conf "sched".toList (SchedValid build)
  fallback : conf["sched".toList]? = none → SchedValid build ∅
  accels : Required jsonArray conf "accels".toList fun accels => accels ≠ [] ∧
    ∀ accel ∈ accels, ∃ conf, jsonObject.get accel = some conf ∧ AccelValid build conf

/-- A path of the file. -/
def PathValid (path : Json) : Prop :=
  ∃ spath, jsonString.get path = some spath ∧ spath.head? ≠ some '/'

/-- A group of the file. -/
def GroupEntryValid (build : Build) (grp : Json) : Prop :=
  ∃ conf, jsonObject.get grp = some conf ∧ GroupValid build conf

/-- A file that can be read. -/
def ConfigValid (build : Build) (v : Json) : Prop :=
  ∃ conf, jsonObject.get v = some conf ∧
    Optional jsonBool conf "clean_shm".toList (fun _ => True) ∧
    Optional jsonArray conf "paths".toList (fun jpaths => ∀ path ∈ jpaths, PathValid path) ∧
    Required jsonObject conf "groups".toList fun jgroups => jgroups.size ≠ 0 ∧
      ∀ group ∈ jgroups.toList, GroupEntryValid build group.2

section Accepted

variable {build : Build}

theorem within_ok_iff {α : Type} {place : Text} {x : Except Text α} {a : α} :
    within place x = .ok a ↔ x = .ok a := by
  refine ⟨within_ok, fun done => ?_⟩
  rw [done]
  rfl

theorem jsonCast_ok_iff {α : Type} {type : JsonType α} {val : Json} {a : α} :
    jsonCast type val = .ok a ↔ type.get val = some a := by
  refine ⟨jsonCast_ok, fun got => ?_⟩
  unfold jsonCast
  rw [got]

theorem required_iff {α : Type} {type : JsonType α} {obj : Object} {key : Text} {valid : α → Prop}
    (missing : type.get .null = none) :
    (∃ a, jsonGetSafe type obj key = .ok a ∧ valid a) ↔ Required type obj key valid := by
  constructor
  · rintro ⟨a, done, right⟩
    obtain ⟨val, here, got⟩ := jsonGetSafe_ok missing done
    exact ⟨val, a, here, got, right⟩
  · rintro ⟨val, a, here, got, right⟩
    refine ⟨a, within_ok_iff.mpr (jsonCast_ok_iff.mpr ?_), right⟩
    rw [TreeMap.getD_eq_getD_getElem?, here]
    exact got

theorem optional_iff {α : Type} {type : JsonType α} {obj : Object} {key : Text} {valid : α → Prop}
    {fallback : α} : (∃ a, jsonGetSafeOptional type obj key fallback = .ok a ∧ valid a) ↔
      Optional type obj key valid ∧ (obj[key]? = none → valid fallback) := by
  unfold jsonGetSafeOptional Optional
  cases obj[key]? with
  | none =>
    refine ⟨fun ⟨a, done, right⟩ => ⟨nofun, fun _ => ?_⟩, fun both => ⟨fallback, rfl, both.2 rfl⟩⟩
    cases done
    exact right
  | some val =>
    simp only [within_ok_iff, jsonCast_ok_iff, Option.some.injEq, reduceCtorEq, false_implies,
      and_true]
    exact ⟨fun found val same => same ▸ found, fun all => all val rfl⟩

theorem fromString_iff {pref loc : Text} : (∃ preference, fromString pref loc = .ok preference) ↔
    pref.map Char.toLower ∈
      ["nojob".toList, "userjob".toList, "batchjob".toList, "anyjob".toList] := by
  unfold fromString
  simp only [List.mem_cons, List.not_mem_nil, or_false]
  split_ifs with no user batch any
  · exact iff_of_true ⟨_, rfl⟩ (.inl no)
  · exact iff_of_true ⟨_, rfl⟩ (.inr (.inl user))
  · exact iff_of_true ⟨_, rfl⟩ (.inr (.inr (.inl batch)))
  · exact iff_of_true ⟨_, rfl⟩ (.inr (.inr (.inr any)))
  · refine iff_of_false (fun ⟨_, impossible⟩ => nomatch impossible) ?_
    rintro (h | h | h | h)
    · exact no h
    · exact user h
    · exact batch h
    · exact any h

/-- The default of `cpu_core` is all cores. -/
theorem extract_all (cores : Nat) : ∃ set, CpuSet.extract cores "-1".toList .zero = .ok set := by
  refine ⟨CpuSet.zero.setAll cores, ?_⟩
  have word : extractWord "-1".toList = "-1".toList := by decide
  have number : extractInt (replaceCommas "-1".toList) = some (-1, []) := by decide
  have ended : extractInt [] = none := by decide
  have negative : CpuSet.zero.set cores (-1) = .ok (CpuSet.zero.setAll cores) := if_neg (by decide)
  unfold CpuSet.extract
  rw [word]
  show CpuSet.extractLoop cores (1 + 1 + 1) _ _ = _
  rw [CpuSet.extractLoop, number]
  simp only [negative]
  rw [CpuSet.extractLoop, ended]

/-- Whether an accelerator is accepted depends on nothing else. -/
theorem AccelConfig.new_iff {group : Text} {count : Nat} {conf : Object} :
    (∃ a, AccelConfig.new build group count conf = .ok a) ↔ AccelValid build conf := by
  constructor
  · rintro ⟨a, done⟩
    unfold AccelConfig.new at done
    obtain ⟨typeStr, arch, done⟩ := bind_eq_ok.mp done
    obtain ⟨name, named, done⟩ := bind_eq_ok.mp done
    split_ifs at done with unknown
    obtain ⟨known, thread⟩ := not_or.mp unknown
    obtain ⟨text, core, done⟩ := bind_eq_ok.mp done
    obtain ⟨affinity, read, done⟩ := bind_eq_ok.mp done
    obtain ⟨jobPref, pref, done⟩ := bind_eq_ok.mp done
    obtain ⟨preference, parsed, -⟩ := bind_eq_ok.mp done
    exact ⟨(required_iff rfl).mp ⟨typeStr, arch, known, not_not.mp thread⟩,
      (optional_iff.mp ⟨name, named, trivial⟩).1, (optional_iff.mp ⟨text, core, affinity, read⟩).1,
      (optional_iff.mp ⟨jobPref, pref, fromString_iff.mp ⟨preference, parsed⟩⟩).1⟩
  · intro valid
    obtain ⟨typeStr, arch, known, thread⟩ := (required_iff rfl).mpr valid.arch
    obtain ⟨name, named, -⟩ : ∃ name, jsonGetSafeOptional jsonString conf "name".toList
        (defaultName group typeStr count) = .ok name ∧ True :=
      optional_iff.mpr ⟨valid.name, fun _ => trivial⟩
    obtain ⟨text, core, affinity, read⟩ :=
      optional_iff.mpr ⟨valid.cpuCore, fun _ => extract_all build.cores⟩
    obtain ⟨jobPref, pref, right⟩ : ∃ jobPref, jsonGetSafeOptional jsonString conf
        "job_pref".toList "AnyJob".toList = .ok jobPref ∧ _ :=
      optional_iff.mpr ⟨valid.jobPref, fun _ => by decide⟩
    obtain ⟨preference, parsed⟩ : ∃ preference, fromString jobPref name = .ok preference :=
      fromString_iff.mpr right
    refine ⟨⟨name, conf, typeStr, araxAccelTypeFromStr (some (cStr typeStr)), affinity, group,
      preference, preference⟩, ?_⟩
    unfold AccelConfig.new
    refine bind_eq_ok.mpr ⟨typeStr, arch, bind_eq_ok.mpr ⟨name, named, ?_⟩⟩
    rw [if_neg (not_or.mpr ⟨known, not_not.mpr thread⟩)]
    exact bind_eq_ok.mpr ⟨text, core, bind_eq_ok.mpr ⟨affinity, read, bind_eq_ok.mpr
      ⟨jobPref, pref, bind_eq_ok.mpr ⟨preference, parsed, rfl⟩⟩⟩⟩

theorem newAccelerator_iff {group : Text} {m : Accelerators} {accel : Json} :
    (∃ a, newAccelerator build group m accel = .ok a) ↔
      ∃ conf, jsonObject.get accel = some conf ∧ AccelValid build conf := by
  constructor
  · rintro ⟨a, done⟩
    obtain ⟨conf, cast, new⟩ := bind_eq_ok.mp done
    exact ⟨conf, jsonCast_ok_iff.mp cast, AccelConfig.new_iff.mp ⟨a, new⟩⟩
  · rintro ⟨conf, cast, valid⟩
    obtain ⟨a, new⟩ := AccelConfig.new_iff.mpr valid
    exact ⟨a, bind_eq_ok.mpr ⟨conf, jsonCast_ok_iff.mpr cast, new⟩⟩

/-- Whether an element of the array is accepted does not depend on the ones before it. -/
theorem addAccelerators_iff {group : Text} {accelNr : Nat} {accels : List Json}
    {m : Accelerators} : (∃ m', addAccelerators build group accelNr accels m = .ok m') ↔
      ∀ accel ∈ accels, ∃ conf, jsonObject.get accel = some conf ∧ AccelValid build conf := by
  induction accels generalizing accelNr m with
  | nil => exact iff_of_true ⟨m, rfl⟩ nofun
  | cons accel accels ih =>
    have first : (∃ a, newAccelerator build group m accel = .ok a) ↔ _ := newAccelerator_iff
    rw [List.forall_mem_cons, ← first]
    constructor
    · rintro ⟨m', done⟩
      obtain ⟨a, new, rest⟩ := bind_eq_ok.mp done
      exact ⟨⟨a, within_ok new⟩, ih.mp ⟨m', rest⟩⟩
    · rintro ⟨⟨a, new⟩, valid⟩
      obtain ⟨m', rest⟩ := ih.mpr valid
      exact ⟨m', bind_eq_ok.mpr ⟨a, within_ok_iff.mpr new, rest⟩⟩

theorem GroupConfig.new_iff {groupCount : Nat} {name : Text} {conf : Object} :
    (∃ g, GroupConfig.new build groupCount name conf = .ok g) ↔ GroupValid build conf := by
  constructor
  · rintro ⟨g, done⟩
    unfold GroupConfig.new at done
    obtain ⟨sched, given, done⟩ := bind_eq_ok.mp (within_ok done)
    obtain ⟨schedClass, named, done⟩ := bind_eq_ok.mp done
    split_ifs at done with registered
    obtain ⟨accels, field, done⟩ := bind_eq_ok.mp done
    split_ifs at done with empty
    obtain ⟨m, loop, -⟩ := bind_eq_ok.mp done
    have valid : SchedValid build sched := optional_iff.mp ⟨schedClass, named, registered⟩
    obtain ⟨sched, fallback⟩ := optional_iff.mp ⟨sched, given, valid⟩
    refine ⟨sched, fallback, (required_iff rfl).mp ⟨accels, field, ?_, ?_⟩⟩
    · exact fun none => empty (none ▸ rfl)
    · exact addAccelerators_iff.mp ⟨m, loop⟩
  · intro valid
    obtain ⟨sched, given, right⟩ := optional_iff.mpr ⟨valid.sched, valid.fallback⟩
    obtain ⟨schedClass, named, registered⟩ := optional_iff.mpr right
    obtain ⟨accels, field, some, all⟩ := (required_iff rfl).mpr valid.accels
    have filled : accels.length ≠ 0 := fun none => some (List.length_eq_zero_iff.mp none)
    obtain ⟨m, loop⟩ : ∃ m, addAccelerators build name 0 accels ∅ = .ok m :=
      addAccelerators_iff.mpr all
    refine ⟨⟨name, groupCount, schedClass, m⟩, within_ok_iff.mpr ?_⟩
    refine bind_eq_ok.mpr ⟨sched, given, bind_eq_ok.mpr ⟨schedClass, named, ?_⟩⟩
    rw [if_neg (not_not.mpr registered)]
    refine bind_eq_ok.mpr ⟨accels, field, ?_⟩
    rw [if_neg filled]
    exact bind_eq_ok.mpr ⟨m, loop, rfl⟩

theorem relativePath_iff {path : Json} :
    (∃ spath, relativePath path = .ok spath) ↔ PathValid path := by
  constructor
  · rintro ⟨spath, done⟩
    obtain ⟨text, cast, done⟩ := bind_eq_ok.mp done
    split_ifs at done with absolute
    exact ⟨text, jsonCast_ok_iff.mp cast, absolute⟩
  · rintro ⟨text, cast, relative⟩
    refine ⟨text, bind_eq_ok.mpr ⟨text, jsonCast_ok_iff.mpr cast, ?_⟩⟩
    rw [if_neg relative]
    rfl

theorem relativePaths_iff {jpaths : List Json} :
    (∃ paths, jpaths.mapM relativePath = .ok paths) ↔ ∀ path ∈ jpaths, PathValid path := by
  induction jpaths with
  | nil => exact iff_of_true ⟨[], rfl⟩ nofun
  | cons path jpaths ih =>
    rw [List.forall_mem_cons, ← relativePath_iff, ← ih, List.mapM_cons]
    constructor
    · rintro ⟨paths, done⟩
      obtain ⟨spath, first, done⟩ := bind_eq_ok.mp done
      obtain ⟨rest, later, -⟩ := bind_eq_ok.mp done
      exact ⟨⟨spath, first⟩, rest, later⟩
    · rintro ⟨⟨spath, first⟩, rest, later⟩
      exact ⟨spath :: rest, bind_eq_ok.mpr ⟨spath, first, bind_eq_ok.mpr ⟨rest, later, rfl⟩⟩⟩

theorem addGroup_iff {configFile : Text} {jgroups : Object} {c : Config} {group : Text × Json}
    (here : jgroups[group.1]? = some group.2) :
    (∃ c', addGroup build configFile jgroups c group = .ok c') ↔
      group.1 ∉ c.groups ∧ GroupEntryValid build group.2 := by
  have field : jsonGetSafe jsonObject jgroups group.1 =
      within (accessing group.1) (jsonCast jsonObject group.2) := by
    unfold jsonGetSafe
    rw [TreeMap.getD_eq_getD_getElem?, here, Option.getD_some]
  unfold addGroup
  rw [field]
  split_ifs with declared
  · refine iff_of_false (fun ⟨_, impossible⟩ => nomatch impossible) fun both => both.1 ?_
    exact TreeMap.contains_iff_mem.mp declared
  · constructor
    · rintro ⟨c', done⟩
      obtain ⟨grp, cast, done⟩ := bind_eq_ok.mp done
      obtain ⟨g, new, -⟩ := bind_eq_ok.mp done
      exact ⟨fun known => declared (TreeMap.contains_iff_mem.mpr known), grp,
        jsonCast_ok_iff.mp (within_ok cast), GroupConfig.new_iff.mp ⟨g, new⟩⟩
    · rintro ⟨-, grp, cast, valid⟩
      obtain ⟨g, new⟩ := GroupConfig.new_iff.mpr valid
      exact ⟨_, bind_eq_ok.mpr ⟨grp, within_ok_iff.mpr (jsonCast_ok_iff.mpr cast),
        bind_eq_ok.mpr ⟨g, new, rfl⟩⟩⟩

/-- The keys of an object are different, so no group is declared again. -/
theorem addGroups_iff {configFile : Text} {jgroups : Object} {c : Config}
    {l : List (Text × Json)} (here : ∀ group ∈ l, jgroups[group.1]? = some group.2)
    (distinct : (l.map Prod.fst).Nodup) (fresh : ∀ group ∈ l, group.1 ∉ c.groups) :
    (∃ c', l.foldlM (addGroup build configFile jgroups) c = .ok c') ↔
      ∀ group ∈ l, GroupEntryValid build group.2 := by
  induction l generalizing c with
  | nil => exact iff_of_true ⟨c, rfl⟩ nofun
  | cons group l ih =>
    obtain ⟨apart, distinct⟩ := List.nodup_cons.mp distinct
    have first : (∃ c', addGroup build configFile jgroups c group = .ok c') ↔ _ :=
      addGroup_iff (here group List.mem_cons_self)
    have rest : ∀ c', addGroup build configFile jgroups c group = .ok c' →
        ((∃ c'', l.foldlM (addGroup build configFile jgroups) c' = .ok c'') ↔
          ∀ group ∈ l, GroupEntryValid build group.2) := by
      intro c' done
      refine ih (fun group later => here group (List.mem_cons_of_mem _ later)) distinct ?_
      intro other later known
      obtain ⟨-, g, -, -, -, rfl⟩ := addGroup_ok done
      rcases TreeMap.mem_insert.mp known with same | old
      · rw [LawfulEqCmp.compare_eq_iff_eq.mp same] at apart
        exact apart (List.mem_map_of_mem later)
      · exact fresh other (List.mem_cons_of_mem _ later) old
    rw [List.forall_mem_cons, List.foldlM_cons]
    constructor
    · rintro ⟨c'', done⟩
      obtain ⟨c', one, later⟩ := bind_eq_ok.mp done
      exact ⟨(first.mp ⟨c', one⟩).2, (rest c' one).mp ⟨c'', later⟩⟩
    · rintro ⟨valid, all⟩
      obtain ⟨c', one⟩ := first.mpr ⟨fresh group List.mem_cons_self, valid⟩
      obtain ⟨c'', later⟩ := (rest c' one).mpr all
      exact ⟨c'', bind_eq_ok.mpr ⟨c', one, later⟩⟩

/-- **Which files are read.** A file is refused exactly if one of its fields is not right: what is
accepted does not depend on the order of the groups, the accelerators and the paths. -/
theorem config_accepted_iff (build : Build) (configFile : Text) (v : Json) :
    (∃ c, Config.new build configFile v = .ok c) ↔ ConfigValid build v := by
  have groups : ∀ (jgroups : Object) (cleanShm : Bool) (paths : List Text),
      (∃ c, jgroups.toList.foldlM (addGroup build configFile jgroups)
        { cleanShm, paths, accelerators := ∅, schedulers := ∅, groups := ∅ } = .ok c) ↔
      ∀ group ∈ jgroups.toList, GroupEntryValid build group.2 := by
    intro jgroups cleanShm paths
    refine addGroups_iff (fun group member => TreeMap.mem_toList_iff_getElem?_eq_some.mp member)
      ?_ fun group _ => TreeMap.not_mem_emptyc
    rw [TreeMap.map_fst_toList_eq_keys]
    exact keys_nodup jgroups
  unfold Config.new ConfigValid
  constructor
  · rintro ⟨c, done⟩
    obtain ⟨conf, cast, done⟩ := bind_eq_ok.mp done
    obtain ⟨cleanShm, clean, done⟩ := bind_eq_ok.mp done
    obtain ⟨jpaths, array, done⟩ := bind_eq_ok.mp done
    obtain ⟨paths, relative, done⟩ := bind_eq_ok.mp done
    obtain ⟨jgroups, object, done⟩ := bind_eq_ok.mp (within_ok done)
    split_ifs at done with empty
    refine ⟨conf, jsonCast_ok_iff.mp cast, (optional_iff.mp ⟨cleanShm, clean, trivial⟩).1, ?_, ?_⟩
    · exact (optional_iff.mp ⟨jpaths, array, relativePaths_iff.mp ⟨paths, within_ok relative⟩⟩).1
    · refine (required_iff rfl).mp ⟨jgroups, within_ok_iff.mpr object, empty, ?_⟩
      exact (groups jgroups cleanShm paths).mp ⟨c, done⟩
  · rintro ⟨conf, cast, clean, array, object⟩
    obtain ⟨cleanShm, clean, -⟩ : ∃ cleanShm, jsonGetSafeOptional jsonBool conf
        "clean_shm".toList true = .ok cleanShm ∧ True := optional_iff.mpr ⟨clean, fun _ => trivial⟩
    obtain ⟨jpaths, array, all⟩ : ∃ jpaths, jsonGetSafeOptional jsonArray conf
        "paths".toList [] = .ok jpaths ∧ _ := optional_iff.mpr ⟨array, fun _ => nofun⟩
    obtain ⟨paths, relative⟩ := relativePaths_iff.mpr all
    obtain ⟨jgroups, field, some, valid⟩ := (required_iff rfl).mpr object
    obtain ⟨c, loop⟩ := (groups jgroups cleanShm paths).mpr valid
    refine ⟨c, bind_eq_ok.mpr ⟨conf, jsonCast_ok_iff.mpr cast,
      bind_eq_ok.mpr ⟨cleanShm, clean, ?_⟩⟩⟩
    refine bind_eq_ok.mpr ⟨jpaths, array, bind_eq_ok.mpr ⟨paths, within_ok_iff.mpr relative, ?_⟩⟩
    refine within_ok_iff.mpr (bind_eq_ok.mpr ⟨jgroups, within_ok_iff.mp field, ?_⟩)
    rw [if_neg some]
    exact loop

end Accepted

end Arax.Controller.ConfigFile
