import Mathlib.Tactic.Ring
import Mathlib.Data.Nat.Basic

/-!
# Little-endian byte strings

`bytes n v` are the `n` bytes of the number `v`, least significant first, and `value` reads them back.
-/

namespace LittleEndian

/-- The `n` low bytes of `v`, least significant first. -/
def bytes : Nat → Nat → List (BitVec 8)
  | 0, _ => []
  | n + 1, v => BitVec.ofNat 8 v :: bytes n (v / 256)

/-- The number with the given bytes, least significant first. -/
def value : List (BitVec 8) → Nat
  | [] => 0
  | b :: bs => b.toNat + 256 * value bs

@[simp] theorem length_bytes (n v : Nat) : (bytes n v).length = n := by
  induction n generalizing v with
  | zero => rfl
  | succ n ih => simp [bytes, ih]

theorem value_bytes (n v : Nat) : value (bytes n v) = v % 256 ^ n := by
  induction n generalizing v with
  | zero => simp [bytes, value, Nat.mod_one]
  | succ n ih =>
    have hb : (BitVec.ofNat 8 v).toNat = v % 256 := BitVec.toNat_ofNat v 8
    rw [bytes, value, ih, hb, pow_succ', Nat.mod_mul]

theorem value_bytes_of_lt {n v : Nat} (h : v < 256 ^ n) : value (bytes n v) = v := by
  rw [value_bytes, Nat.mod_eq_of_lt h]

theorem value_lt (bs : List (BitVec 8)) : value bs < 256 ^ bs.length := by
  induction bs with
  | nil => simp [value]
  | cons b bs ih =>
    have hb : b.toNat < 256 := b.isLt
    rw [value, List.length_cons, pow_succ]
    omega

theorem bytes_value (bs : List (BitVec 8)) : bytes bs.length (value bs) = bs := by
  induction bs with
  | nil => rfl
  | cons b bs ih =>
    have hb : b.toNat < 256 := b.isLt
    have hlow : BitVec.ofNat 8 (b.toNat + 256 * value bs) = b := by
      apply BitVec.eq_of_toNat_eq
      rw [BitVec.toNat_ofNat]
      omega
    have hhigh : (b.toNat + 256 * value bs) / 256 = value bs := by omega
    rw [List.length_cons, value, bytes, hlow, hhigh, ih]

/-- The bits of a byte string, the first byte in the low ones. -/
theorem testBit_value_cons (b : BitVec 8) (bs : List (BitVec 8)) (i : Nat) :
    (value (b :: bs)).testBit i = if i < 8 then b.getLsbD i else (value bs).testBit (i - 8) := by
  rw [value, Nat.add_comm]
  exact Nat.testBit_two_pow_mul_add (value bs) b.isLt i

end LittleEndian
