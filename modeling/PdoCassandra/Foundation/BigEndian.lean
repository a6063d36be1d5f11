import Mathlib.Algebra.Group.Nat.Defs
import Mathlib.Data.List.Induction
import PdoCassandra.Foundation.CString

/-!
# Big-endian byte strings

A number in a fixed width of bytes, the most significant one first.
-/

namespace PdoCassandra.Foundation.BigEndian

open PdoCassandra.Foundation.CString

/-- The number that a byte string denotes. -/
def value (text : Bytes) : Nat :=
  text.foldl (fun high byte => high * 256 + byte.toNat) 0

/-- The last `width` bytes of a number. -/
def bytes : Nat → Nat → Bytes
  | 0, _ => []
  | width + 1, n => bytes width (n / 256) ++ [UInt8.ofNat n]

theorem value_snoc (text : Bytes) (byte : UInt8) :
    value (text ++ [byte]) = value text * 256 + byte.toNat := by
  rw [value, List.foldl_append]
  rfl

theorem length_bytes (width n : Nat) : (bytes width n).length = width := by
  induction width generalizing n with
  | zero => rfl
  | succ width ih => rw [bytes, List.length_append, ih, List.length_singleton]

theorem value_lt (text : Bytes) : value text < 256 ^ text.length := by
  induction text using List.reverseRecOn with
  | nil => exact Nat.one_pos
  | append_singleton text byte ih =>
      have hbyte := byte.toNat_lt
      rw [value_snoc, List.length_append, List.length_singleton, Nat.pow_succ]
      omega

theorem value_bytes (width n : Nat) : value (bytes width n) = n % 256 ^ width := by
  induction width generalizing n with
  | zero => rw [bytes, Nat.pow_zero, Nat.mod_one]; rfl
  | succ width ih =>
      have hpow : 256 ^ (width + 1) = 256 * 256 ^ width := by
        rw [Nat.pow_succ, Nat.mul_comm]
      rw [bytes, value_snoc, ih, hpow, Nat.mod_mul, UInt8.toNat_ofNat', Nat.add_comm,
        Nat.mul_comm]

theorem bytes_value (text : Bytes) : bytes text.length (value text) = text := by
  induction text using List.reverseRecOn with
  | nil => rfl
  | append_singleton text byte ih =>
      have hbyte := byte.toNat_lt
      have hhigh : (value text * 256 + byte.toNat) / 256 = value text := by omega
      have hlow : UInt8.ofNat (value text * 256 + byte.toNat) = byte := by
        apply UInt8.toNat_inj.mp
        rw [UInt8.toNat_ofNat']
        omega
      rw [List.length_append, List.length_singleton, bytes, value_snoc, hhigh, hlow, ih]

end PdoCassandra.Foundation.BigEndian
