/-
**Configuration files (`src/utils/config.c`).**

A file is a text, and a text or a C string is the list of its characters without the NUL that ends
it. `_utils_config_get_str` reads two words at a time with `fscanf`, into buffers that keep what the
call before left in them, until it finds the key; `utils_config_get_str` falls back to a default,
which it appends to the file.

What a buffer on the stack holds before anything is written to it is a parameter (`stack`), and so
is the file, `none` if it cannot be opened. The counter `line` of the loop is left out: it only
keeps the loop going.

* `_utilsConfigGetStr`, `utilsConfigGetStr`, `utilsConfigWriteStr`, `utilsConfigWriteLong`.
* `held` — what the two buffers hold after each `fscanf`.
* `getStr_eq` — the value that is found is the first one that is held together with the key.
-/

import Arax.Lib.Scan

namespace Arax.Utils

open Arax.Lib

/-! ### Characters, strings and buffers -/

/-- A character of a string: a byte that is not NUL. -/
structure CChar where
  code : Nat
  nonzero : 0 < code
  byte : code < 256
  deriving DecidableEq

/-- A character constant. -/
def CChar.ofChar (c : Char) : CChar :=
  if fits : 0 < c.toNat ∧ c.toNat < 256 then ⟨c.toNat, fits.1, fits.2⟩
  else ⟨63, by decide, by decide⟩

/-- `isspace`. -/
def CChar.isspace (c : CChar) : Bool := c.code == 32 || decide (9 ≤ c.code ∧ c.code ≤ 13)

/-- A string constant. -/
def cstr (s : String) : List CChar := s.toList.map CChar.ofChar

/-- An array of `char`, where `none` is NUL. -/
abbrev Buffer := List (Option CChar)

/-- `strncpy` into the first `n` elements of an array. -/
def strncpy (src : List CChar) : Nat → Buffer
  | 0 => []
  | n + 1 => src.head? :: strncpy src.tail n

/-- The string that starts at an array, with the string that follows the array in memory. -/
def stringAt : Buffer → List CChar → List CChar
  | [], behind => behind
  | none :: _, _ => []
  | some c :: buffer, behind => c :: stringAt buffer behind

/-- `!strncmp(a, b, n)`. -/
def strncmpEqual (a b : List CChar) (n : Nat) : Bool := a.take n == b.take n

/-! ### The functions -/

/-- The format `"%127s %895s"`. -/
def configFormat : PairFormat CChar where
  blank := CChar.isspace
  keyWidth := 127
  valueWidth := 895
  keyWidth_pos := by decide
  valueWidth_pos := by decide

/-- The loop of `_utils_config_get_str`, for at most `fuel` lines: the `cval` that came with the
key, or `none` at the end of the file. -/
def getStrLoop (key : List CChar) : Nat → List CChar → List CChar → Option (Option (List CChar))
  | 0, _, _ => none
  | fuel + 1, conf, cval =>
    match configFormat.scan conf with
    | none => some none
    | some s =>
      let cval := s.value.getD cval
      if strncmpEqual s.key key 128 then some (some cval) else getStrLoop key fuel s.rest cval

/-- What `_utils_config_get_str` returns, and the array `value` if it was written. -/
structure GetStr where
  len : Nat
  value : Option Buffer
  deriving DecidableEq

/-- The value is copied if the key was found. -/
def getStrResult (valueSize : Nat) : Option (List CChar) → GetStr
  | some cval => ⟨cval.length, some (strncpy cval valueSize)⟩
  | none => ⟨0, none⟩

/-- `_utils_config_get_str`. -/
def _utilsConfigGetStr (path : Option (List CChar)) (key : List CChar) (valueSize : Nat)
    (stack : List CChar) : GetStr :=
  match path with
  | none => ⟨0, none⟩
  | some conf => getStrResult valueSize ((getStrLoop key (conf.length + 1) conf stack).getD none)

/-- `utils_config_write_str`: mode `"a+"` creates the file, and writes go to its end. -/
def utilsConfigWriteStr (path : Option (List CChar)) (key value : List CChar) :
    Option (List CChar) :=
  some (path.getD [] ++ (key ++ cstr " " ++ value ++ cstr "\n"))

/-- `utils_config_write_long`: mode `"rw"` opens the file for reading only, and nothing is
written. -/
def utilsConfigWriteLong (path : Option (List CChar)) (_key : List CChar) (_value : Int) :
    Option (List CChar) :=
  path

/-- What `utils_config_get_str` returns, the array `value` if it was written, and the file. -/
structure GotStr where
  ret : Nat
  value : Option Buffer
  path : Option (List CChar)
  deriving DecidableEq

/-- `utils_config_get_str`. -/
def utilsConfigGetStr (path : Option (List CChar)) (key : List CChar) (valueSize : Nat)
    (defVal : Option (List CChar)) (stack : List CChar) : GotStr :=
  let found := _utilsConfigGetStr path key valueSize stack
  if found.len = 0 then
    match defVal with
    | some defVal => ⟨0, some (strncpy defVal valueSize), utilsConfigWriteStr path key defVal⟩
    | none => ⟨0, found.value, path⟩
  else ⟨1, found.value, path⟩

/-! ### What is read -/

/-- What `ckey` and `cval` hold after each `fscanf`, if `cval` holds `cval` before the first. -/
def held (cval : List CChar) : List (List CChar × Option (List CChar)) →
    List (List CChar × List CChar)
  | [] => []
  | (ckey, value) :: pairs => (ckey, value.getD cval) :: held (value.getD cval) pairs

/-- The value that comes with the first occurrence of a key. -/
def valueOf (key : List CChar) (words : List (List CChar × List CChar)) : Option (List CChar) :=
  (words.find? fun p => p.1 = key).map Prod.snd

section Reading

variable {key cval conf src : List CChar}

/-- No string that fits into the array is cut. -/
theorem stringAt_strncpy {n : Nat} (room : src.length < n) (behind : List CChar) :
    stringAt (strncpy src n) behind = src := by
  induction n generalizing src with
  | zero => exact absurd room (Nat.not_lt_zero _)
  | succ n ih =>
    cases src with
    | nil => rfl
    | cons c src => exact congrArg (c :: ·) (ih (Nat.lt_of_succ_lt_succ room))

/-- A longer one is cut, and goes on with what follows the array. -/
theorem stringAt_strncpy_of_le {n : Nat} (long : n ≤ src.length) (behind : List CChar) :
    stringAt (strncpy src n) behind = src.take n ++ behind := by
  induction n generalizing src with
  | zero => rfl
  | succ n ih =>
    cases src with
    | nil => cases long
    | cons c src => exact congrArg (c :: ·) (ih (Nat.le_of_succ_le_succ long))

/-- `sizeof(ckey)` characters are enough to compare keys. -/
theorem strncmpEqual_iff (short : cval.length < 128) (key : List CChar) :
    strncmpEqual cval key 128 = true ↔ cval = key := by
  unfold strncmpEqual
  rw [beq_iff_eq, List.take_of_length_le short.le]
  constructor
  · intro same
    have length := congrArg List.length same
    rw [List.length_take] at length
    rw [same, List.take_of_length_le (by omega)]
  · rintro rfl
    rw [List.take_of_length_le short.le]

/-- A key has at most as many characters as its format says. -/
theorem scan_key_length {s : Scanned CChar} (scanned : configFormat.scan conf = some s) :
    s.key.length < 128 := by
  obtain ⟨behind, first, -⟩ := scan_some scanned
  exact Nat.lt_succ_of_le first.field.fits

/-- **The loop.** It ends within the fuel it is given, at the first occurrence of the key. -/
theorem getStrLoop_eq {fuel : Nat} (enough : conf.length < fuel) :
    getStrLoop key fuel conf cval = some (valueOf key (held cval (configFormat.pairs conf))) := by
  induction fuel generalizing conf cval with
  | zero => exact absurd enough (Nat.not_lt_zero _)
  | succ fuel ih =>
    unfold getStrLoop
    cases scanned : configFormat.scan conf with
    | none => rw [pairs_none scanned]; rfl
    | some s =>
      have shorter := scan_shorter scanned
      have same := strncmpEqual_iff (scan_key_length scanned) key
      rw [pairs_some scanned]
      simp only [valueOf, held, List.find?_cons]
      by_cases here : s.key = key
      · rw [if_pos (same.mpr here)]
        simp [here]
      · rw [if_neg (fun equal => here (same.mp equal)), ih (by omega)]
        simp [here, valueOf]

/-- `_utils_config_get_str` of a file that can be opened. -/
theorem getStr_eq (conf key : List CChar) (valueSize : Nat) (stack : List CChar) :
    _utilsConfigGetStr (some conf) key valueSize stack =
      getStrResult valueSize (valueOf key (held stack (configFormat.pairs conf))) := by
  unfold _utilsConfigGetStr
  simp only [getStrLoop_eq (Nat.lt_succ_self conf.length), Option.getD_some]

theorem valueOf_cons (p : List CChar × List CChar) (words : List (List CChar × List CChar)) :
    valueOf key (p :: words) = if p.1 = key then some p.2 else valueOf key words := by
  unfold valueOf
  rw [List.find?_cons]
  by_cases here : p.1 = key <;> simp [here]

end Reading

end Arax.Utils
