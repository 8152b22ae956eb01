/-
**Numbers in configuration files (`src/utils/config.c`).**

`utils_config_get_long` reads a value into an array of 22 characters and gives the array to `strtol`
with base 0; the getters of an `int`, of 0 or 1 and of a `size_t` test the range of the number it
returns. `strncpy` ends only shorter values with a NUL. What follows the array in memory, up to the
next NUL, is a parameter (`behind`).

* `strtol` — with base 0, as in the C standard: white space, a sign, and an octal, decimal or
  hexadecimal number.
* `TypedRight` — the four getters return the number that `strtol` reads of the whole value.
* `typed_getters_iff` — they do, whatever follows the array, exactly if it is not the case that the
  first 22 characters of the value are all part of its number, and this number is in range.
-/

import Arax.Lib.Numeral
import Arax.Utils.ConfigDefault

namespace Arax.Utils

open Arax.Lib

/-! ### `strtol` -/

/-- The digit that a character stands for. -/
def CChar.digit (c : CChar) : Option Nat :=
  if 48 ≤ c.code ∧ c.code ≤ 57 then some (c.code - 48)
  else if 65 ≤ c.code ∧ c.code ≤ 90 then some (c.code - 55)
  else if 97 ≤ c.code ∧ c.code ≤ 122 then some (c.code - 87)
  else none

/-- Whether there is a minus sign, and the length of the sign. -/
def strtolSign : List CChar → Bool × Nat
  | c :: _ => (c = CChar.ofChar '-', if c = CChar.ofChar '-' ∨ c = CChar.ofChar '+' then 1 else 0)
  | [] => (false, 0)

/-- The base that a text starts with, and the length of the prefix that says so and is no digit. The
prefix `0x` needs a digit behind it. -/
def strtolBase : List CChar → Nat × Nat
  | z :: x :: d :: _ =>
    if z = CChar.ofChar '0' then
      if (x = CChar.ofChar 'x' ∨ x = CChar.ofChar 'X') ∧ d.digit.any (· < 16) then (16, 2)
      else (8, 0)
    else (10, 0)
  | z :: _ => if z = CChar.ofChar '0' then (8, 0) else (10, 0)
  | [] => (10, 0)

/-- A number as it is spelled: the characters before its digits are its sign and its prefix. -/
structure Literal where
  negative : Bool
  base : Nat
  lead : Nat
  digits : List Nat
  deriving DecidableEq

/-- The number at the start of a text. -/
def literal (cs : List CChar) : Literal :=
  let sign := strtolSign cs
  let base := strtolBase (cs.drop sign.2)
  ⟨sign.1, base.1, sign.2 + base.2, digitsOf CChar.digit base.1 (cs.drop (sign.2 + base.2))⟩

def Literal.magnitude (l : Literal) : Nat := numeral l.base l.digits

def Literal.value (l : Literal) : Int := if l.negative then -l.magnitude else l.magnitude

/-- The number is between `LONG_MIN` and `LONG_MAX`. -/
def Literal.InRange (l : Literal) : Prop :=
  l.magnitude ≤ if l.negative then 2 ^ 63 else 2 ^ 63 - 1

instance (l : Literal) : Decidable l.InRange := inferInstanceAs (Decidable (_ ≤ _))

/-- What `strtol` returns, the distance of `*endptr`, and whether it sets `errno`. -/
structure Strtol where
  value : Int
  endptr : Nat
  errno : Bool
  deriving DecidableEq

/-- `strtol` with base 0. -/
def strtol (nptr : List CChar) : Strtol :=
  let blanks := (nptr.takeWhile CChar.isspace).length
  let l := literal (nptr.drop blanks)
  let endptr := blanks + l.lead + l.digits.length
  if l.digits = [] then ⟨0, 0, false⟩
  else if l.InRange then ⟨l.value, endptr, false⟩
  else ⟨if l.negative then -2 ^ 63 else 2 ^ 63 - 1, endptr, true⟩

/-! ### The functions -/

/-- What a getter returns, what it stores in `*value`, and the file. -/
structure GotNumber where
  ret : Nat
  value : Int
  path : Option (List CChar)
  deriving DecidableEq

/-- `utils_config_get_long`. -/
def utilsConfigGetLong (path : Option (List CChar)) (key : List CChar) (defVal : Int)
    (stack behind : List CChar) : GotNumber :=
  let found := _utilsConfigGetStr path key 22 stack
  if found.len ≠ 0 then
    let number := strtol (stringAt (found.value.getD []) behind)
    if number.errno ∨ number.endptr = 0 then
      ⟨0, defVal, utilsConfigWriteLong path key defVal⟩
    else ⟨1, number.value, path⟩
  else ⟨0, defVal, path⟩

/-- A getter of a smaller type: what the getter it calls has stored is tested and assigned. -/
def narrow (cval : GotNumber) (accepts : Int → Bool) (assign : Int → Int) (defVal : Int) :
    GotNumber :=
  if cval.ret ≠ 0 ∧ accepts cval.value then ⟨1, assign cval.value, cval.path⟩
  else ⟨0, defVal, cval.path⟩

/-- `utils_config_get_int`. -/
def utilsConfigGetInt (path : Option (List CChar)) (key : List CChar) (defVal : Int)
    (stack behind : List CChar) : GotNumber :=
  narrow (utilsConfigGetLong path key defVal stack behind)
    (fun cval => 2 ^ 31 - 1 ≥ cval ∧ -2 ^ 31 ≤ cval) (fun cval => Int.bmod cval (2 ^ 32)) defVal

/-- `utils_config_get_bool`. -/
def utilsConfigGetBool (path : Option (List CChar)) (key : List CChar) (defVal : Int)
    (stack behind : List CChar) : GotNumber :=
  narrow (utilsConfigGetInt path key defVal stack behind)
    (fun value => value = 0 ∨ value = 1) (fun value => value) defVal

/-- `utils_config_get_size`: the default becomes a `long`, and the comparison with `SIZE_MAX` is one
of `size_t`. -/
def utilsConfigGetSize (path : Option (List CChar)) (key : List CChar) (defVal : Nat)
    (stack behind : List CChar) : GotNumber :=
  narrow (utilsConfigGetLong path key (Int.bmod defVal (2 ^ 64)) stack behind)
    (fun cval => 2 ^ 64 - 1 ≥ cval % 2 ^ 64 ∧ 0 ≤ cval) (fun cval => cval % 2 ^ 64) defVal

/-! ### The number in the file -/

/-- The number that `strtol` reads of a value, if it takes a character and is in range. -/
def longOf (token : List CChar) : Option Int :=
  let number := strtol token
  if number.errno ∨ number.endptr = 0 then none else some number.value

/-- The result of a getter that accepts some of the numbers. -/
def expected (token : List CChar) (accepts : Int → Bool) (defVal : Int)
    (path : Option (List CChar)) : GotNumber :=
  match longOf token with
  | some value => if accepts value then ⟨1, value, path⟩ else ⟨0, defVal, path⟩
  | none => ⟨0, defVal, path⟩

/-- The first pair of words with the key has this value. -/
def Stored (conf key token : List CChar) : Prop :=
  (configFormat.pairs conf).find? (fun p => p.1 = key) = some (key, some token)

instance (conf key token : List CChar) : Decidable (Stored conf key token) :=
  inferInstanceAs (Decidable (_ = _))

/-- **The typed getters return the number in the file**, or the default. -/
structure TypedRight (conf key token : List CChar) : Prop where
  long : ∀ defVal stack behind, utilsConfigGetLong (some conf) key defVal stack behind =
    expected token (fun _ => true) defVal (some conf)
  int : ∀ defVal stack behind, utilsConfigGetInt (some conf) key defVal stack behind =
    expected token (fun n => -2 ^ 31 ≤ n ∧ n ≤ 2 ^ 31 - 1) defVal (some conf)
  bool : ∀ defVal stack behind, utilsConfigGetBool (some conf) key defVal stack behind =
    expected token (fun n => n = 0 ∨ n = 1) defVal (some conf)
  size : ∀ defVal : Nat, ∀ stack behind, utilsConfigGetSize (some conf) key defVal stack behind =
    expected token (fun n => 0 ≤ n) defVal (some conf)

/-- **The condition fails** if the number goes on to the end of the array, or beyond, and what the
array holds of it is in range. -/
structure Outgrown (token : List CChar) : Prop where
  long : 22 ≤ token.length
  whole : (literal (token.take 22)).lead + (literal (token.take 22)).digits.length = 22
  inRange : (literal (token.take 22)).InRange

instance (token : List CChar) : Decidable (Outgrown token) :=
  decidable_of_iff (22 ≤ token.length ∧
    (literal (token.take 22)).lead + (literal (token.take 22)).digits.length = 22 ∧
      (literal (token.take 22)).InRange)
    ⟨fun ⟨long, whole, inRange⟩ => ⟨long, whole, inRange⟩,
      fun outgrown => ⟨outgrown.long, outgrown.whole, outgrown.inRange⟩⟩

/-! ### Numbers and longer texts -/

section Literals

variable {p more cs : List CChar}

theorem literal_base (cs : List CChar) : 1 < (literal cs).base := by
  show 1 < (strtolBase _).1
  unfold strtolBase
  split
  · split_ifs <;> decide
  · split_ifs <;> decide
  · decide

theorem strtolSign_length (cs : List CChar) : (strtolSign cs).2 ≤ 1 := by
  unfold strtolSign
  split
  · show (if _ then 1 else 0) ≤ 1
    split_ifs <;> decide
  · decide

theorem literal_lead (cs : List CChar) : (literal cs).lead ≤ 3 := by
  have base : (strtolBase (cs.drop (strtolSign cs).2)).2 ≤ 2 := by
    unfold strtolBase
    split
    · split_ifs <;> decide
    · split_ifs <;> decide
    · decide
  exact Nat.add_le_add (strtolSign_length cs) base

/-- Four characters show the sign and the base. -/
theorem literal_append (long : 4 ≤ p.length) (more : List CChar) :
    literal (p ++ more) = { literal p with
      digits := digitsOf CChar.digit (literal p).base (p.drop (literal p).lead ++ more) } := by
  have lead := literal_lead p
  have sign : strtolSign (p ++ more) = strtolSign p := by
    cases p with
    | nil => cases long
    | cons c p => rfl
  have short := strtolSign_length p
  have base : strtolBase ((p ++ more).drop (strtolSign p).2) =
      strtolBase (p.drop (strtolSign p).2) := by
    rw [List.drop_append_of_le_length (by omega)]
    have three : 3 ≤ (p.drop (strtolSign p).2).length := by
      rw [List.length_drop]
      omega
    match p.drop (strtolSign p).2, three with
    | _ :: _ :: _ :: _, _ => rfl
  unfold literal at lead ⊢
  simp only [sign, base]
  rw [List.drop_append_of_le_length (by simp only at lead; omega)]

/-- A number that ends in a text is the number of every longer one. -/
theorem literal_append_of_lt (long : 4 ≤ p.length)
    (ended : (literal p).lead + (literal p).digits.length < p.length) (more : List CChar) :
    literal (p ++ more) = literal p := by
  have inner : (digitsOf CChar.digit (literal p).base (p.drop (literal p).lead)).length <
      (p.drop (literal p).lead).length := by
    show (literal p).digits.length < _
    rw [List.length_drop]
    omega
  rw [literal_append long, digitsOf_append_of_lt inner]
  rfl

/-- A number that goes on to the end of a text goes on in a longer one. -/
theorem literal_append_of_eq (long : 4 ≤ p.length)
    (whole : (literal p).lead + (literal p).digits.length = p.length) (more : List CChar) :
    literal (p ++ more) = { literal p with
      digits := (literal p).digits ++ digitsOf CChar.digit (literal p).base more } := by
  have inner : (digitsOf CChar.digit (literal p).base (p.drop (literal p).lead)).length =
      (p.drop (literal p).lead).length := by
    show (literal p).digits.length = _
    rw [List.length_drop]
    omega
  rw [literal_append long, digitsOf_append_of_eq inner]
  rfl

/-- There is no number in a text that does not start with a blank, or it is this one. -/
theorem longOf_eq (first : ∀ c ∈ cs.head?, c.isspace = false) :
    longOf cs = if (literal cs).digits ≠ [] ∧ (literal cs).InRange then some (literal cs).value
      else none := by
  have none' : cs.takeWhile CChar.isspace = [] := by
    cases cs with
    | nil => rfl
    | cons c cs => exact List.takeWhile_cons_of_neg (by simp [first c rfl])
  unfold longOf strtol
  simp only [none', List.length_nil, List.drop_zero]
  by_cases empty : (literal cs).digits = []
  · simp [empty]
  · have positive := List.length_pos_iff.mpr empty
    by_cases inRange : (literal cs).InRange
    · simp [empty, inRange]
    · simp [empty, inRange]

theorem Literal.InRange.value_lt {l : Literal} (inRange : l.InRange) : l.value < 2 ^ 63 := by
  unfold Literal.InRange at inRange
  unfold Literal.value
  split_ifs at inRange ⊢ <;> omega

theorem strtol_value_lt (cs : List CChar) : (strtol cs).value < 2 ^ 63 := by
  unfold strtol
  simp only
  split_ifs with empty inRange
  · decide
  · exact inRange.value_lt
  · exact (by decide : (-2 ^ 63 : Int) < 2 ^ 63)
  · exact (by decide : (2 ^ 63 - 1 : Int) < 2 ^ 63)

theorem longOf_lt {value : Int} (found : longOf cs = some value) : value < 2 ^ 63 := by
  unfold longOf at found
  obtain ⟨-, same⟩ := Option.ite_none_left_eq_some.mp found
  rw [← Option.some.inj same]
  exact strtol_value_lt cs

end Literals

/-! ### What the array holds -/

section Arrays

variable {p token : List CChar}

/-- **A number that outgrows the array.** One more digit behind the array is one more digit of
it. -/
theorem longOf_outgrown (long : 4 ≤ p.length) (first : ∀ c ∈ p.head?, c.isspace = false)
    (whole : (literal p).lead + (literal p).digits.length = p.length)
    (inRange : (literal p).InRange) : longOf (p ++ [CChar.ofChar '1']) ≠ longOf p := by
  have base := literal_base p
  have lead := literal_lead p
  have nonempty : (literal p).digits ≠ [] := by
    intro empty
    rw [empty, List.length_nil] at whole
    omega
  have first' : ∀ c ∈ (p ++ [CChar.ofChar '1']).head?, c.isspace = false := by
    cases p with
    | nil => cases long
    | cons c p => exact first
  have one : digitsOf CChar.digit (literal p).base [CChar.ofChar '1'] = [1] :=
    digitsOf_cons_of_lt rfl base []
  have greater := numeral_lt_one (Nat.zero_lt_of_lt base) (literal p).digits
  have here : longOf p = some (literal p).value := by
    rw [longOf_eq first, if_pos ⟨nonempty, inRange⟩]
  rw [here, longOf_eq first', literal_append_of_eq long whole, one]
  intro same
  obtain ⟨-, equal⟩ := Option.ite_none_right_eq_some.mp same
  have values := Option.some.inj equal
  unfold Literal.value Literal.magnitude at values
  simp only at values
  split_ifs at values <;> omega

/-- What cannot outgrow the array is read of it, whatever follows the array. -/
theorem longOf_append (long : 4 ≤ p.length) (first : ∀ c ∈ p.head?, c.isspace = false)
    (held : ¬ ((literal p).lead + (literal p).digits.length = p.length ∧ (literal p).InRange))
    (more : List CChar) : longOf (p ++ more) = longOf p := by
  have first' : ∀ c ∈ (p ++ more).head?, c.isspace = false := by
    cases p with
    | nil => cases long
    | cons c p => exact first
  have within : (literal p).lead + (literal p).digits.length ≤ p.length := by
    have lead := literal_lead p
    have inner : (literal p).digits.length ≤ (p.drop (literal p).lead).length :=
      digitsOf_length_le CChar.digit _ _
    rw [List.length_drop] at inner
    omega
  rw [longOf_eq first, longOf_eq first']
  rcases within.lt_or_eq with ended | whole
  · rw [literal_append_of_lt long ended]
  · -- the number is too large already, and more digits make it no smaller
    have large : ¬ (literal p).InRange := fun inRange => held ⟨whole, inRange⟩
    have larger : ¬ (literal (p ++ more)).InRange := by
      have grown := numeral_le_append (Nat.zero_lt_of_lt (literal_base p)) (literal p).digits
        (digitsOf CChar.digit (literal p).base more)
      rw [literal_append_of_eq long whole]
      unfold Literal.InRange Literal.magnitude at large ⊢
      simp only
      omega
    rw [if_neg fun both => larger both.2, if_neg fun both => large both.2]

/-- **The array in place of the value.** `strtol` reads the same number of both, whatever follows
the array, exactly if the value does not outgrow it. -/
theorem longOf_stringAt_iff (solid : ∀ c ∈ token, c.isspace = false) :
    (∀ behind, longOf (stringAt (strncpy token 22) behind) = longOf token) ↔ ¬ Outgrown token := by
  rcases Nat.lt_or_ge token.length 22 with short | long
  · refine iff_of_true (fun behind => ?_) fun outgrown => absurd outgrown.long (by omega)
    rw [stringAt_strncpy short]
  · have length : (token.take 22).length = 22 := List.length_take_of_le long
    have first : ∀ c ∈ (token.take 22).head?, c.isspace = false := by
      intro c next
      exact solid c (List.mem_of_mem_take (List.mem_of_mem_head? next))
    simp only [stringAt_strncpy_of_le long]
    constructor
    · intro same outgrown
      refine longOf_outgrown (by omega) first (outgrown.whole.trans length.symm)
        outgrown.inRange ?_
      rw [same, ← same [], List.append_nil]
    · intro held behind
      have inner : ¬ ((literal (token.take 22)).lead + (literal (token.take 22)).digits.length =
          (token.take 22).length ∧ (literal (token.take 22)).InRange) := by
        rw [length]
        exact fun both => held ⟨long, both.1, both.2⟩
      have whole := longOf_append (by omega) first inner (token.drop 22)
      rw [List.take_append_drop] at whole
      rw [longOf_append (by omega) first inner, whole]

end Arrays

/-! ### The getters -/

section Getters

variable {conf key token : List CChar}

/-- A value that is stored is found, whatever was in the buffer. -/
theorem Stored.valueOf (stored : Stored conf key token) (cval : List CChar) :
    valueOf key (held cval (configFormat.pairs conf)) = some token := by
  unfold Stored at stored
  generalize configFormat.pairs conf = pairs at stored ⊢
  induction pairs generalizing cval with
  | nil => cases stored
  | cons p pairs ih =>
    obtain ⟨ckey, value⟩ := p
    rw [List.find?_cons] at stored
    rw [held, valueOf_cons]
    by_cases here : ckey = key
    · simp only [here, decide_true, Option.some.injEq, Prod.mk.injEq, true_and] at stored
      rw [if_pos here, stored]
      rfl
    · simp only [here, decide_false] at stored
      rw [if_neg here]
      exact ih _ stored

/-- Every word can be stored under every key. -/
theorem stored_line (key : ConfigWord 127) (token : ConfigWord 895) :
    Stored (key.chars ++ lineEnd token.chars) key.chars token.chars := by
  have read : configFormat.pairs ([] ++ (key.chars ++ lineEnd token.chars)) =
      [(key.chars, some token.chars)] :=
    pairs_word (by simp) key.nonempty key.fits key.solid token
  rw [List.nil_append] at read
  unfold Stored
  rw [read]
  simp

/-- **The first getter** converts what the array holds. -/
theorem utilsConfigGetLong_eq (stored : Stored conf key token) (defVal : Int)
    (stack behind : List CChar) : utilsConfigGetLong (some conf) key defVal stack behind =
      expected (stringAt (strncpy token 22) behind) (fun _ => true) defVal (some conf) := by
  have nonempty : token ≠ [] := (value_bounds (List.mem_of_find?_eq_some stored) rfl).1
  have found : _utilsConfigGetStr (some conf) key 22 stack =
      ⟨token.length, some (strncpy token 22)⟩ := by
    rw [getStr_eq, stored.valueOf]
    rfl
  have nonzero : token.length ≠ 0 := fun empty => nonempty (List.length_eq_zero_iff.mp empty)
  unfold utilsConfigGetLong expected longOf
  simp only [found, Option.getD_some, if_pos nonzero]
  split_ifs <;> rfl

/-- **The other getters** test the number again. -/
theorem narrow_expected {inner accepts outer : Int → Bool} {assign : Int → Int}
    (tested : ∀ n < 2 ^ 63, (inner n && accepts n) = outer n)
    (exact : ∀ n < 2 ^ 63, outer n = true → assign n = n) (token : List CChar)
    (defVal defVal' : Int) (path : Option (List CChar)) :
    narrow (expected token inner defVal path) accepts assign defVal' =
      expected token outer defVal' path := by
  unfold narrow expected
  cases found : longOf token with
  | none => rfl
  | some n =>
    have small := longOf_lt found
    have both := tested n small
    cases here : inner n with
    | false =>
      rw [here, Bool.false_and] at both
      simp [here, ← both]
    | true =>
      rw [here, Bool.true_and] at both
      cases there : outer n with
      | false => simp [here, both, there]
      | true => simp [here, both, there, exact n small there]

/-- The number that the first getter returns decides the results of the others. -/
theorem typedRight_iff : TypedRight conf key token ↔
    ∀ defVal stack behind, utilsConfigGetLong (some conf) key defVal stack behind =
      expected token (fun _ => true) defVal (some conf) := by
  refine ⟨TypedRight.long, fun long => ?_⟩
  have int : ∀ defVal stack behind, utilsConfigGetInt (some conf) key defVal stack behind =
      expected token (fun n => -2 ^ 31 ≤ n ∧ n ≤ 2 ^ 31 - 1) defVal (some conf) := by
    intro defVal stack behind
    unfold utilsConfigGetInt
    rw [long]
    refine narrow_expected (fun n _ => ?_) (fun n _ accepted => ?_) _ _ _ _
    · simp only [Bool.true_and, decide_eq_decide]
      omega
    · have range := of_decide_eq_true accepted
      exact Int.bmod_eq_of_le (by omega) (by omega)
  refine ⟨long, int, fun defVal stack behind => ?_, fun defVal stack behind => ?_⟩
  · unfold utilsConfigGetBool
    rw [int]
    refine narrow_expected (fun n _ => ?_) (fun n _ _ => rfl) _ _ _ _
    rw [← Bool.decide_and, decide_eq_decide]
    omega
  · unfold utilsConfigGetSize
    rw [long]
    refine narrow_expected (fun n _ => ?_) (fun n small accepted => ?_) _ _ _ _
    · simp only [Bool.true_and, decide_eq_decide]
      omega
    · have sign := of_decide_eq_true accepted
      exact Int.emod_eq_of_lt sign (by omega)

/-- The first getter shows the number. -/
theorem longOf_of_expected {cs cs' : List CChar} {defVal : Int} {path : Option (List CChar)}
    (same : expected cs (fun _ => true) defVal path = expected cs' (fun _ => true) defVal path) :
    longOf cs = longOf cs' := by
  unfold expected at same
  cases left : longOf cs with
  | none =>
    cases right : longOf cs' with
    | none => rfl
    | some n => simp [left, right] at same
  | some m =>
    cases right : longOf cs' with
    | none => simp [left, right] at same
    | some n =>
      have values : m = n := by simpa [left, right] using same
      rw [values]

/-- **Numbers of every length.** For a value that is stored under a key. -/
theorem typed_getters_iff (conf key token : List CChar) (stored : Stored conf key token) :
    TypedRight conf key token ↔ ¬ Outgrown token := by
  have solid : ∀ c ∈ token, c.isspace = false :=
    value_solid (List.mem_of_find?_eq_some stored) rfl
  rw [typedRight_iff, ← longOf_stringAt_iff solid]
  constructor
  · intro right behind
    have same := right 0 [] behind
    rw [utilsConfigGetLong_eq stored] at same
    exact longOf_of_expected same
  · intro same defVal stack behind
    rw [utilsConfigGetLong_eq stored]
    unfold expected
    rw [same]

/-- The greatest `long` has 19 characters. -/
theorem typed_getters_long_max :
    TypedRight (cstr "k 9223372036854775807\n") (cstr "k") (cstr "9223372036854775807") :=
  (typed_getters_iff _ _ _ (by decide)).mpr (by decide)

/-- **A number of 24 characters.** The value is 255, and the getters return 0 if a NUL follows the
array. -/
theorem typed_getters_cut :
    Stored (cstr "k 0x00000000000000000000FF\n") (cstr "k") (cstr "0x00000000000000000000FF") ∧
      longOf (cstr "0x00000000000000000000FF") = some 255 ∧
      utilsConfigGetLong (some (cstr "k 0x00000000000000000000FF\n")) (cstr "k") 7 [] [] =
        ⟨1, 0, some (cstr "k 0x00000000000000000000FF\n")⟩ ∧
      ¬ TypedRight (cstr "k 0x00000000000000000000FF\n") (cstr "k")
        (cstr "0x00000000000000000000FF") := by
  refine ⟨by decide, by decide, by decide, fun right => ?_⟩
  have cut := congrArg GotNumber.value (right.long 7 [] [])
  revert cut
  decide

end Getters

end Arax.Utils
