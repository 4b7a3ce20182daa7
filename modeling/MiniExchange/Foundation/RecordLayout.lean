import Mathlib.Algebra.BigOperators.Group.List.Basic
import MiniExchange.Foundation.BigEndian

/-!
# Record layouts

A record in memory is a row of fields of given widths, each number with its
least significant byte first.  Copying the record out and copying it in again
are inverse to each other, whatever bytes follow the record.
-/

namespace MiniExchange
namespace Foundation
namespace RecordLayout

/-- The bytes of a number of a given width, the least significant first. -/
def fieldBytes (width n : Nat) : List UInt8 :=
  (BigEndian.bytes width n).reverse

def field (data : List UInt8) (offset width : Nat) : Nat :=
  BigEndian.value ((data.drop offset).take width).reverse

@[simp] theorem length_fieldBytes (width n : Nat) : (fieldBytes width n).length = width := by
  rw [fieldBytes, List.length_reverse, BigEndian.length_bytes]

def write : List Nat -> List Nat -> List UInt8
  | width :: widths, n :: values => fieldBytes width n ++ write widths values
  | _, _ => []

def read (data : List UInt8) : List Nat -> Nat -> List Nat
  | [], _ => []
  | width :: widths, offset => field data offset width :: read data widths (offset + width)

def Fits (widths values : List Nat) : Prop :=
  List.Forall₂ (fun width n => n < 256 ^ width) widths values

theorem length_write {widths values : List Nat} (h : Fits widths values) :
    (write widths values).length = widths.sum := by
  induction h with
  | nil => rfl
  | cons _ _ ih => rw [write, List.length_append, length_fieldBytes, ih, List.sum_cons]

theorem field_append {width n : Nat} (h : n < 256 ^ width) (front rest : List UInt8) :
    field (front ++ (fieldBytes width n ++ rest)) front.length width = n := by
  have htake : (fieldBytes width n ++ rest).take width = fieldBytes width n :=
    List.take_left' (length_fieldBytes width n)
  rw [field, List.drop_left, htake, fieldBytes, List.reverse_reverse, BigEndian.value_bytes,
    Nat.mod_eq_of_lt h]

theorem read_write {widths values : List Nat} (h : Fits widths values)
    (front rest : List UInt8) :
    read (front ++ (write widths values ++ rest)) widths front.length = values := by
  induction h generalizing front with
  | nil => rfl
  | @cons width n widths values hn _ ih =>
      have hnext := ih (front ++ fieldBytes width n)
      rw [List.length_append, length_fieldBytes, List.append_assoc] at hnext
      rw [write, List.append_assoc, read, field_append hn, hnext]

theorem field_lt (data : List UInt8) (offset width : Nat) :
    field data offset width < 256 ^ width := by
  have hvalue := BigEndian.value_lt ((data.drop offset).take width).reverse
  rw [List.length_reverse] at hvalue
  exact Nat.lt_of_lt_of_le hvalue
    (Nat.pow_le_pow_right (by decide) (List.length_take_le _ _))

theorem fieldBytes_field {data : List UInt8} {offset width : Nat}
    (h : offset + width <= data.length) :
    fieldBytes width (field data offset width) = (data.drop offset).take width := by
  have hlength : ((data.drop offset).take width).reverse.length = width := by
    rw [List.length_reverse, List.length_take, List.length_drop]
    omega
  have hbytes := BigEndian.bytes_value ((data.drop offset).take width).reverse
  rw [hlength] at hbytes
  rw [fieldBytes, field, hbytes, List.reverse_reverse]

theorem write_read {data : List UInt8} {widths : List Nat} {offset : Nat}
    (h : offset + widths.sum <= data.length) :
    write widths (read data widths offset) = (data.drop offset).take widths.sum := by
  induction widths generalizing offset with
  | nil => rfl
  | cons width widths ih =>
      rw [List.sum_cons] at h
      rw [read, write, fieldBytes_field (by omega), ih (by omega), List.sum_cons,
        List.take_add, List.drop_drop]

end RecordLayout
end Foundation
end MiniExchange
