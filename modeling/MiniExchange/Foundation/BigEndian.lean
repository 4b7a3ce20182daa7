import Mathlib.Algebra.Ring.Nat
import Mathlib.Data.List.Basic

/-!
# Big-endian bytes

Numbers as byte strings of a given width, the most significant byte first.
-/

namespace MiniExchange
namespace Foundation
namespace BigEndian

def value : List UInt8 -> Nat
  | [] => 0
  | b :: rest => b.toNat * 256 ^ rest.length + value rest

def bytes : Nat -> Nat -> List UInt8
  | 0, _ => []
  | width + 1, n => UInt8.ofNat (n / 256 ^ width) :: bytes width n

@[simp] theorem length_bytes (width n : Nat) : (bytes width n).length = width := by
  induction width with
  | zero => rfl
  | succ width ih => exact congrArg Nat.succ ih

theorem value_lt (text : List UInt8) : value text < 256 ^ text.length := by
  induction text with
  | nil => exact Nat.one_pos
  | cons b rest ih =>
      have hb : b.toNat + 1 <= 256 := b.toNat_lt
      calc
        b.toNat * 256 ^ rest.length + value rest
            < b.toNat * 256 ^ rest.length + 256 ^ rest.length := Nat.add_lt_add_left ih _
        _ = (b.toNat + 1) * 256 ^ rest.length := (Nat.succ_mul _ _).symm
        _ <= 256 * 256 ^ rest.length := Nat.mul_le_mul_right _ hb
        _ = 256 ^ (rest.length + 1) := by rw [Nat.pow_succ, Nat.mul_comm]

theorem value_bytes (width n : Nat) : value (bytes width n) = n % 256 ^ width := by
  induction width with
  | zero => exact (Nat.mod_one n).symm
  | succ width ih =>
      have hdigit : (UInt8.ofNat (n / 256 ^ width)).toNat = n / 256 ^ width % 256 :=
        UInt8.toNat_ofNat'
      show (UInt8.ofNat (n / 256 ^ width)).toNat * 256 ^ (bytes width n).length +
        value (bytes width n) = _
      rw [hdigit, length_bytes, ih, Nat.mod_pow_succ, Nat.mul_comm, Nat.add_comm]

theorem bytes_mul_add (width k n : Nat) : bytes width (k * 256 ^ width + n) = bytes width n := by
  induction width generalizing k with
  | zero => rfl
  | succ width ih =>
      have hsplit : k * 256 ^ (width + 1) + n = k * 256 * 256 ^ width + n := by
        rw [Nat.pow_succ, Nat.mul_comm (256 ^ width) 256, Nat.mul_assoc]
      have hdiv : (k * 256 * 256 ^ width + n) / 256 ^ width = n / 256 ^ width + k * 256 := by
        rw [Nat.add_comm]
        exact Nat.add_mul_div_right n (k * 256) (Nat.pow_pos (by decide))
      have hdigit : UInt8.ofNat (n / 256 ^ width + k * 256) = UInt8.ofNat (n / 256 ^ width) := by
        apply UInt8.toNat_inj.mp
        rw [UInt8.toNat_ofNat', UInt8.toNat_ofNat']
        exact Nat.add_mul_mod_self_right _ _ _
      show UInt8.ofNat _ :: bytes width _ = UInt8.ofNat _ :: bytes width n
      rw [hsplit, ih, hdiv, hdigit]

theorem bytes_value (text : List UInt8) : bytes text.length (value text) = text := by
  induction text with
  | nil => rfl
  | cons b rest ih =>
      have hdiv : (b.toNat * 256 ^ rest.length + value rest) / 256 ^ rest.length = b.toNat := by
        rw [Nat.add_comm, Nat.add_mul_div_right _ _ (Nat.pow_pos (by decide)),
          Nat.div_eq_of_lt (value_lt rest), Nat.zero_add]
      show UInt8.ofNat ((b.toNat * 256 ^ rest.length + value rest) / 256 ^ rest.length) ::
        bytes rest.length (b.toNat * 256 ^ rest.length + value rest) = b :: rest
      rw [hdiv, bytes_mul_add, ih, UInt8.ofNat_toNat]

end BigEndian
end Foundation
end MiniExchange
