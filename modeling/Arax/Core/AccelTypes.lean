/-
**Names of accelerator types (`src/core/arax_accel_types.c`).**

`types_map` gives every type a name, at the position of the type; `arax_accel_type_from_str` looks a
name up without regard to capitals, and returns `ARAX_ACCEL_TYPES` if it is not there.

* `araxAccelTypeToStr`, `araxAccelTypeFromStr` — the functions.
* `type_from_str_iff` — which strings lead to which type, and which to none.
-/

import Mathlib.Data.List.Nodup
import Arax.Core.Object

namespace Arax.Core

/-- The value of a type. -/
def AccelType.toNat : AccelType → Nat
  | .any => 0
  | .gpu => 1
  | .gpuSoft => 2
  | .cpu => 3
  | .sda => 4
  | .nanoArm => 5
  | .nanoCore => 6
  | .openCl => 7
  | .hip => 8

/-- The type of a value, none from `ARAX_ACCEL_TYPES` on. -/
def AccelType.ofNat? : Nat → Option AccelType
  | 0 => some .any
  | 1 => some .gpu
  | 2 => some .gpuSoft
  | 3 => some .cpu
  | 4 => some .sda
  | 5 => some .nanoArm
  | 6 => some .nanoCore
  | 7 => some .openCl
  | 8 => some .hip
  | _ => none

/-- `ARAX_ACCEL_TYPES`. -/
def araxAccelTypes : Nat := 9

/-- `types_map`. -/
def typesMap : List (List Char × AccelType) :=
  [("any".toList, .any), ("gpu".toList, .gpu), ("gpu_soft".toList, .gpuSoft),
    ("cpu".toList, .cpu), ("sda".toList, .sda), ("nano_arm".toList, .nanoArm),
    ("nano_core".toList, .nanoCore), ("OpenCL".toList, .openCl), ("HIP".toList, .hip)]

/-- `arax_accel_valid_type`. -/
def araxAccelValidType (type : Nat) : Bool := decide (type < araxAccelTypes)

/-- `arax_accel_type_to_str`, where `none` is `NULL`. -/
def araxAccelTypeToStr (type : Nat) : Option (List Char) :=
  if araxAccelValidType type then typesMap[type]?.map Prod.fst else none

/-- `!strcasecmp(a, b)`, in the locale of a program that sets none. -/
def strcasecmpEqual (a b : List Char) : Bool := a.map Char.toLower == b.map Char.toLower

/-- `arax_accel_type_from_str`, where `none` is `NULL`. The loop ends at the first name that is
equal, or at `ARAX_ACCEL_TYPES`. -/
def araxAccelTypeFromStr : Option (List Char) → Nat
  | none => araxAccelTypes
  | some type => typesMap.findIdx fun entry => strcasecmpEqual type entry.1

/-- The names without capitals. -/
def lowerNames : List (List Char) := typesMap.map fun entry => entry.1.map Char.toLower

theorem lowerNames_nodup : lowerNames.Nodup := by decide

theorem fromStr_eq_idxOf (type : List Char) :
    araxAccelTypeFromStr (some type) = lowerNames.idxOf (type.map Char.toLower) := by
  show typesMap.findIdx _ = (typesMap.map _).findIdx _
  rw [List.findIdx_map]
  refine congrArg (typesMap.findIdx ·) (funext fun entry => ?_)
  exact Bool.beq_comm

theorem lowerNames_get (i : Nat) :
    lowerNames[i]? = (araxAccelTypeToStr i).map (List.map Char.toLower) := by
  unfold lowerNames araxAccelTypeToStr araxAccelValidType
  rw [List.getElem?_map]
  by_cases low : i < araxAccelTypes
  · rw [if_pos (decide_eq_true low), Option.map_map]
    rfl
  · have out : typesMap[i]? = none := List.getElem?_eq_none (Nat.le_of_not_lt low)
    rw [if_neg (by simpa using low), out]
    rfl

/-- **Names of types.** A string leads to the type whose name it is, whatever its capitals, and to
`ARAX_ACCEL_TYPES` if it is the name of no type; and the name of a type leads back to it. -/
theorem type_from_str_iff (str : List Char) :
    (∀ type, araxAccelValidType type = true → (araxAccelTypeFromStr (some str) = type ↔
      (araxAccelTypeToStr type).map (List.map Char.toLower) = some (str.map Char.toLower))) ∧
    (araxAccelTypeFromStr (some str) = araxAccelTypes ↔ ∀ type name,
      araxAccelTypeToStr type = some name → strcasecmpEqual str name = false) ∧
    ∀ type : AccelType,
      araxAccelTypeFromStr (araxAccelTypeToStr type.toNat) = type.toNat := by
  have index : ∀ type, araxAccelValidType type = true →
      (araxAccelTypeFromStr (some str) = type ↔
        (araxAccelTypeToStr type).map (List.map Char.toLower) = some (str.map Char.toLower)) := by
    intro type valid
    have low : type < lowerNames.length := of_decide_eq_true valid
    rw [fromStr_eq_idxOf, ← lowerNames_get, List.getElem?_eq_some_iff]
    constructor
    · intro found
      have member : lowerNames.idxOf (str.map Char.toLower) < lowerNames.length := found ▸ low
      subst found
      exact ⟨member, List.getElem_idxOf member⟩
    · rintro ⟨_, here⟩
      rw [← here]
      exact lowerNames_nodup.idxOf_getElem type low
  refine ⟨index, ?_, fun type => by cases type <;> rfl⟩
  have none : araxAccelTypeFromStr (some str) = araxAccelTypes ↔
      str.map Char.toLower ∉ lowerNames := by
    rw [fromStr_eq_idxOf]
    exact List.idxOf_eq_length_iff
  rw [none, List.mem_iff_getElem?]
  constructor
  · rintro absent type name here
    refine beq_eq_false_iff_ne.mpr fun same => absent ⟨type, ?_⟩
    rw [lowerNames_get, here, same]
    rfl
  · rintro apart ⟨type, here⟩
    rw [lowerNames_get, Option.map_eq_some_iff] at here
    obtain ⟨name, here, same⟩ := here
    exact beq_eq_false_iff_ne.mp (apart type name here) same.symm

end Arax.Core
