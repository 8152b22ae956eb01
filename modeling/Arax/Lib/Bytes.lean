/-
**Bytes of an array of words.**

An array of 64-bit words is a function, and its bytes are those of its words, the lowest byte of
each word first. `memmove` moves bytes; words that it moves only in part are put together from the
bytes of two words.

* `byteAt`, `wordAt` — from words to bytes and back.
* `wordAt_memmove` — the words after the array was moved down by one word.
* `overwrite` — a span of an array replaced, and when two such arrays are the same.
* `loadBytes`, `storeBytes` — numbers of some bytes in a memory: `loadBytes_store` and the frame
  `loadBytes_store_apart`.
-/

import Mathlib.Algebra.Order.Ring.Nat
import Mathlib.Tactic.Ring

namespace Arax.Lib

/-- Byte `j` of an array of 64-bit words. -/
def byteAt (words : Nat → Nat) (j : Nat) : Nat := words (j / 8) / 256 ^ (j % 8) % 256

/-- The number with these low `n` bytes. -/
def ofBytes (bytes : Nat → Nat) : Nat → Nat
  | 0 => 0
  | n + 1 => ofBytes bytes n + bytes n * 256 ^ n

/-- Word `i` of these bytes. -/
def wordAt (bytes : Nat → Nat) (i : Nat) : Nat := ofBytes (fun b => bytes (8 * i + b)) 8

/-- `memmove`: `len` bytes from `src` to `dst`. -/
def memmove (dst src len : Nat) (bytes : Nat → Nat) (j : Nat) : Nat :=
  if dst ≤ j ∧ j < dst + len then bytes (src + (j - dst)) else bytes j

/-- The bytes of a number give its low part back. -/
theorem ofBytes_eq_mod {bytes : Nat → Nat} {x n : Nat}
    (digits : ∀ b, b < n → bytes b = x / 256 ^ b % 256) : ofBytes bytes n = x % 256 ^ n := by
  induction n with
  | zero => rw [Nat.pow_zero, Nat.mod_one, ofBytes]
  | succ n ih =>
    rw [ofBytes, ih fun b small => digits b (Nat.lt_succ_of_lt small),
      digits n (Nat.lt_succ_self n), Nat.mod_pow_succ, Nat.mul_comm]

/-- The low bytes of `y` and the high bytes of `x`. -/
theorem ofBytes_splice {bytes : Nat → Nat} {x y t n : Nat} (inside : t ≤ n)
    (low : ∀ b, b < t → bytes b = y / 256 ^ b % 256)
    (high : ∀ b, t ≤ b → b < n → bytes b = x / 256 ^ b % 256) :
    ofBytes bytes n + x % 256 ^ t = y % 256 ^ t + x % 256 ^ n := by
  induction n with
  | zero =>
    have none : t = 0 := Nat.le_zero.mp inside
    rw [none, Nat.pow_zero, Nat.mod_one, Nat.mod_one, ofBytes]
  | succ n ih =>
    rcases Nat.lt_or_eq_of_le inside with before | all
    · have rest := ih (Nat.le_of_lt_succ before) fun b first last =>
        high b first (Nat.lt_succ_of_lt last)
      rw [ofBytes, high n (Nat.le_of_lt_succ before) (Nat.lt_succ_self n), Nat.mod_pow_succ,
        Nat.mul_comm (x / 256 ^ n % 256), add_right_comm, rest, add_assoc]
    · rw [all, ofBytes_eq_mod fun b small => low b (all ▸ small)]

/-- A byte that is not moved. -/
theorem memmove_stays (words : Nat → Nat) {start source len i b : Nat} (small : b < 8)
    (outside : ¬(start ≤ 8 * i + b ∧ 8 * i + b < start + len)) :
    memmove start source len (byteAt words) (8 * i + b) = words i / 256 ^ b % 256 := by
  have word : (8 * i + b) / 8 = i := by omega
  have byte : (8 * i + b) % 8 = b := by omega
  rw [memmove, if_neg outside, byteAt, word, byte]

/-- **A move down by one word.** From word `c` on, word `i` gets its `t` low bytes from the next
word, where `t` of them are moved. -/
theorem wordAt_memmove (words : Nat → Nat) (len : Nat) {c i : Nat} (after : c ≤ i) :
    wordAt (memmove (8 * c) (8 * (c + 1)) len (byteAt words)) i +
        words i % 256 ^ min 8 (8 * c + len - 8 * i) =
      words (i + 1) % 256 ^ min 8 (8 * c + len - 8 * i) + words i % 256 ^ 8 := by
  refine ofBytes_splice (Nat.min_le_left _ _) (fun b low => ?_) fun b high small => ?_
  · have moved : 8 * c ≤ 8 * i + b ∧ 8 * i + b < 8 * c + len := by omega
    have source : 8 * (c + 1) + (8 * i + b - 8 * c) = 8 * (i + 1) + b := by omega
    have word : (8 * (i + 1) + b) / 8 = i + 1 := by omega
    have byte : (8 * (i + 1) + b) % 8 = b := by omega
    show memmove _ _ _ _ _ = _
    rw [memmove, if_pos moved, source, byteAt, word, byte]
  · exact memmove_stays words small (by omega)

/-- Words before the destination stay. -/
theorem wordAt_memmove_before (words : Nat → Nat) {c len i : Nat} (before : i < c) :
    wordAt (memmove (8 * c) (8 * (c + 1)) len (byteAt words)) i = words i % 256 ^ 8 := by
  refine ofBytes_eq_mod fun b small => ?_
  exact memmove_stays words small (by omega)

/-! ### A span of an array -/

section Overwrite

variable {α : Type}

/-- The array with the `n` places from `start` on replaced. -/
def overwrite (cells : Nat → α) (start n : Nat) (news : Nat → α) (i : Nat) : α :=
  if start ≤ i ∧ i < start + n then news (i - start) else cells i

variable {cells news : Nat → α} {start n i : Nat}

theorem overwrite_inside (k : Nat) (inside : k < n) :
    overwrite cells start n news (start + k) = news k := by
  unfold overwrite
  rw [if_pos ⟨Nat.le_add_right _ _, Nat.add_lt_add_left inside _⟩, Nat.add_sub_cancel_left]

theorem overwrite_outside (outside : i < start ∨ start + n ≤ i) :
    overwrite cells start n news i = cells i := by
  unfold overwrite
  rw [if_neg (by omega)]

/-- Nothing shows when the new values are the old ones. -/
theorem overwrite_const (x : α) :
    overwrite (fun _ => x) start n (fun _ => x) = fun _ => x := by
  funext i
  exact ite_self _

/-- If the array is replaced as a whole, its old values do not matter. -/
theorem overwrite_whole (others : Nat → α) (inside : i < n) :
    overwrite cells 0 n news i = overwrite others 0 n news i := by
  have whole : 0 ≤ i ∧ i < 0 + n := ⟨Nat.zero_le _, by omega⟩
  unfold overwrite
  rw [if_pos whole, if_pos whole]

/-- Two spans of one array that look the same, where new and old values differ, are as long as each
other. -/
theorem overwrite_length {x y : α} {m size : Nat} (differ : x ≠ y) (inside : start + m ≤ size)
    (room : m < n → start + m < size)
    (same : ∀ i, i < size → overwrite (fun _ => x) start n (fun _ => y) i =
      overwrite (fun _ => x) start m (fun _ => y) i) : n = m := by
  rcases Nat.lt_trichotomy n m with less | equal | more
  · have here := same (start + n) (by omega)
    rw [overwrite_outside (Or.inr le_rfl), overwrite_inside n less] at here
    exact absurd here differ
  · exact equal
  · have here := same (start + m) (room more)
    rw [overwrite_inside m more, overwrite_outside (Or.inr le_rfl)] at here
    exact absurd here.symm differ

/-- If two arrays that differ look the same once the span is replaced, the span is the whole. -/
theorem overwrite_covers {x y : α} {size : Nat} (differ : x ≠ y) (inside : start + n ≤ size)
    (sized : 0 < n) (same : ∀ i, i < size → overwrite (fun _ => x) start n news i =
      overwrite (fun _ => y) start n news i) : start = 0 ∧ n = size := by
  have covered (i : Nat) (small : i < size) : ¬(i < start ∨ start + n ≤ i) := by
    intro outside
    have here := same i small
    rw [overwrite_outside outside, overwrite_outside outside] at here
    exact differ here
  have first := covered 0 (by omega)
  have last := covered (size - 1) (by omega)
  omega

end Overwrite

/-! ### Numbers in a memory of bytes -/

section Memory

/-- The number in the `n` bytes from address `a` on, the lowest byte first. -/
def loadBytes (m : Nat → BitVec 8) (a n : Nat) : Nat := ofBytes (fun b => (m (a + b)).toNat) n

/-- The low `n` bytes of a number are stored from address `a` on. -/
def storeBytes (m : Nat → BitVec 8) (a n v : Nat) : Nat → BitVec 8 :=
  overwrite m a n fun b => BitVec.ofNat 8 (v / 256 ^ b)

variable {m m' : Nat → BitVec 8} {a b n k v : Nat}

theorem ofBytes_congr {bytes bytes' : Nat → Nat} (same : ∀ b, b < n → bytes b = bytes' b) :
    ofBytes bytes n = ofBytes bytes' n := by
  induction n with
  | zero => rfl
  | succ n ih =>
    rw [ofBytes, ofBytes, ih fun b small => same b (Nat.lt_succ_of_lt small),
      same n (Nat.lt_succ_self n)]

/-- A number depends on its own bytes alone. -/
theorem loadBytes_congr (same : ∀ i, a ≤ i → i < a + n → m i = m' i) :
    loadBytes m a n = loadBytes m' a n := by
  refine ofBytes_congr fun b small => ?_
  show (m (a + b)).toNat = (m' (a + b)).toNat
  rw [same (a + b) (Nat.le_add_right a b) (Nat.add_lt_add_left small a)]

/-- What was stored is loaded. -/
theorem loadBytes_store (small : v < 256 ^ n) : loadBytes (storeBytes m a n v) a n = v := by
  have digits : ∀ b, b < n → ((storeBytes m a n v) (a + b)).toNat = v / 256 ^ b % 256 := by
    intro b inside
    unfold storeBytes
    rw [overwrite_inside b inside, BitVec.toNat_ofNat]
  calc loadBytes (storeBytes m a n v) a n = v % 256 ^ n := ofBytes_eq_mod digits
    _ = v := Nat.mod_eq_of_lt small

theorem storeBytes_outside {i : Nat} (outside : i < a ∨ a + n ≤ i) : storeBytes m a n v i = m i :=
  overwrite_outside outside

/-- A store elsewhere does not show. -/
theorem loadBytes_store_apart (apart : a + n ≤ b ∨ b + k ≤ a) :
    loadBytes (storeBytes m a n v) b k = loadBytes m b k := by
  refine loadBytes_congr fun i low high => storeBytes_outside ?_
  omega

end Memory

end Arax.Lib
