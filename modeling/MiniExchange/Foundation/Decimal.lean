import Mathlib.Algebra.Ring.Int.Defs
import Mathlib.Algebra.Ring.Nat
import Mathlib.Data.List.Basic
import Mathlib.Data.List.TakeWhile

/-!
# Decimal numbers in byte strings

Digit strings and the number they stand for, printing, and reading in the
manner of `std::from_chars`: an optional minus sign if the type has one, the
longest run of digits, and a bound check.
-/

namespace MiniExchange
namespace Foundation
namespace Decimal

def isDigit (c : UInt8) : Bool :=
  decide (48 <= c.toNat) && decide (c.toNat <= 57)

def digitValue (c : UInt8) : Nat :=
  c.toNat - 48

def value (digits : List UInt8) : Nat :=
  digits.foldl (fun n c => 10 * n + digitValue c) 0

def digits (n : Nat) : List UInt8 :=
  (Nat.toDigits 10 n).map Char.toUInt8

def minus : UInt8 := 45

def signedDigits (n : Int) : List UInt8 :=
  if n < 0 then minus :: digits n.natAbs else digits n.natAbs

def threeDigits (n : Nat) : List UInt8 :=
  List.replicate (3 - (digits n).length) 48 ++ digits n

structure IntType where
  signed : Bool
  low : Int
  high : Int

def IntType.Holds (type : IntType) (n : Int) : Prop :=
  type.low <= n ∧ n <= type.high

instance (type : IntType) (n : Int) : Decidable (type.Holds n) :=
  inferInstanceAs (Decidable (_ ∧ _))

def int32 : IntType where
  signed := true
  low := -2 ^ 31
  high := 2 ^ 31 - 1

def int64 : IntType where
  signed := true
  low := -2 ^ 63
  high := 2 ^ 63 - 1

def uint64 : IntType where
  signed := false
  low := 0
  high := 2 ^ 64 - 1

/-- The number at the front of a text and what follows it, unless an error is reported. -/
def fromChars (type : IntType) (text : List UInt8) : Option (Int × List UInt8) :=
  let negative := type.signed && decide (text.head? = some minus)
  let body := if negative then text.tail else text
  let ds := body.takeWhile isDigit
  let number : Int := if negative then -(value ds : Int) else (value ds : Int)
  if ds = [] then none
  else if type.Holds number then some (number, body.dropWhile isDigit)
  else none

def Numeral (text : List UInt8) : Prop :=
  text ≠ [] ∧ forall c, c ∈ text -> isDigit c = true

/-- A text that stands for a number: digits, with a minus sign in front if the type has one. -/
def Written (type : IntType) (text : List UInt8) (n : Int) : Prop :=
  Numeral text ∧ n = value text ∨
    type.signed = true ∧ exists ds, text = minus :: ds ∧ Numeral ds ∧ n = -(value ds : Int)

/-!
## Values
-/

theorem foldl_value (n : Nat) (ds : List UInt8) :
    ds.foldl (fun n c => 10 * n + digitValue c) n = n * 10 ^ ds.length + value ds := by
  induction ds generalizing n with
  | nil => simp [value]
  | cons c ds ih =>
      have hhead : value (c :: ds) = digitValue c * 10 ^ ds.length + value ds := by
        show ds.foldl _ (10 * 0 + digitValue c) = _
        rw [ih, Nat.mul_zero, Nat.zero_add]
      rw [List.foldl_cons, ih, hhead, List.length_cons, Nat.pow_succ, Nat.add_mul,
        Nat.add_assoc, Nat.mul_comm (10 ^ ds.length) 10, ← Nat.mul_assoc, Nat.mul_comm n 10]

theorem value_append (front back : List UInt8) :
    value (front ++ back) = value front * 10 ^ back.length + value back := by
  show List.foldl _ 0 (front ++ back) = _
  rw [List.foldl_append, foldl_value]
  rfl

theorem value_cons (c : UInt8) (ds : List UInt8) :
    value (c :: ds) = digitValue c * 10 ^ ds.length + value ds := by
  have happend := value_append [c] ds
  rw [List.singleton_append] at happend
  rw [happend]
  simp [value]

theorem toNat_digitChar {d : Nat} (hd : d < 10) : (Nat.digitChar d).toUInt8.toNat = 48 + d := by
  have hchar : (Nat.digitChar d).toNat = 48 + d := Nat.toNat_digitChar_of_lt_ten hd
  show (UInt32.toUInt8 (Nat.digitChar d).val).toNat = 48 + d
  rw [UInt32.toNat_toUInt8]
  show (Nat.digitChar d).toNat % 256 = 48 + d
  omega

theorem value_digits (n : Nat) : value (digits n) = n := by
  induction n using Nat.strongRecOn with
  | ind n ih =>
      have hlast : forall d, d < 10 -> value [(Nat.digitChar d).toUInt8] = d := by
        intro d hd
        simp [value, digitValue, toNat_digitChar hd]
      unfold digits
      rw [Nat.toDigits_eq_if (by decide)]
      split
      · next hsmall => exact hlast n hsmall
      · next hlarge =>
          have hfront := ih (n / 10) (by omega)
          unfold digits at hfront
          rw [List.map_append, value_append, hfront, List.map_singleton, hlast _ (by omega)]
          show n / 10 * 10 ^ 1 + n % 10 = n
          omega

theorem isDigit_of_mem_digits {n : Nat} {c : UInt8} (h : c ∈ digits n) : isDigit c = true := by
  rcases List.mem_map.mp h with ⟨char, hchar, rfl⟩
  have hdigit := Nat.isDigit_of_mem_toDigits (by decide) (by decide) hchar
  rw [Char.isDigit_iff_toNat] at hdigit
  have hbyte : (Char.toUInt8 char).toNat = char.toNat := by
    show (UInt32.toUInt8 char.val).toNat = char.val.toNat
    rw [UInt32.toNat_toUInt8]
    have : char.val.toNat = char.toNat := rfl
    have : '9'.toNat = 57 := rfl
    omega
  unfold isDigit
  rw [hbyte]
  simpa using hdigit

theorem digits_ne_nil (n : Nat) : digits n ≠ [] := by
  unfold digits
  rw [ne_eq, List.map_eq_nil_iff]
  exact Nat.toDigits_ne_nil

theorem mem_signedDigits {n : Int} {c : UInt8} (h : c ∈ signedDigits n) :
    c = minus ∨ isDigit c = true := by
  unfold signedDigits at h
  split at h
  · rcases List.mem_cons.mp h with hminus | hdigit
    · exact Or.inl hminus
    · exact Or.inr (isDigit_of_mem_digits hdigit)
  · exact Or.inr (isDigit_of_mem_digits h)

theorem isDigit_of_mem_padded {zeros n : Nat} {c : UInt8}
    (h : c ∈ List.replicate zeros 48 ++ digits n) : isDigit c = true := by
  rcases List.mem_append.mp h with hzero | hdigit
  · rw [(List.mem_replicate.mp hzero).right]
    rfl
  · exact isDigit_of_mem_digits hdigit

theorem value_replicate_zero (zeros : Nat) : value (List.replicate zeros 48) = 0 := by
  induction zeros with
  | zero => rfl
  | succ zeros ih =>
      rw [List.replicate_succ, value_cons, ih]
      simp [digitValue]

theorem value_threeDigits (n : Nat) : value (threeDigits n) = n := by
  unfold threeDigits
  rw [value_append, value_replicate_zero, Nat.zero_mul, Nat.zero_add, value_digits]

theorem threeDigits_ne_nil (n : Nat) : threeDigits n ≠ [] := by
  intro hnil
  exact digits_ne_nil n (List.append_eq_nil_iff.mp hnil).right

/-!
## Reading
-/

section Reading

variable (type : IntType) {ds rest : List UInt8}

theorem takeWhile_isDigit (hds : forall c, c ∈ ds -> isDigit c = true)
    (hrest : forall c, rest.head? = some c -> isDigit c = false) :
    (ds ++ rest).takeWhile isDigit = ds ∧ (ds ++ rest).dropWhile isDigit = rest := by
  rw [List.takeWhile_append_of_pos hds, List.dropWhile_append_of_pos hds]
  cases rest with
  | nil => simp
  | cons c rest => simp [hrest c rfl]

theorem isDigit_head_nil (c : UInt8) (h : ([] : List UInt8).head? = some c) :
    isDigit c = false := by
  cases h

theorem ne_minus_of_isDigit {c : UInt8} (hc : isDigit c = true) : c ≠ minus := by
  rintro rfl
  cases hc

theorem fromChars_digits (hne : ds ≠ []) (hds : forall c, c ∈ ds -> isDigit c = true)
    (hrest : forall c, rest.head? = some c -> isDigit c = false) :
    fromChars type (ds ++ rest) =
      if type.Holds (value ds) then some ((value ds : Int), rest) else none := by
  rcases takeWhile_isDigit hds hrest with ⟨htake, hdrop⟩
  have hhead : (ds ++ rest).head? ≠ some minus := by
    cases ds with
    | nil => exact absurd rfl hne
    | cons c ds =>
        intro hminus
        exact ne_minus_of_isDigit (hds c List.mem_cons_self) (Option.some.inj hminus)
  have hnegative : (type.signed && decide ((ds ++ rest).head? = some minus)) = false := by
    rw [decide_eq_false hhead, Bool.and_false]
  unfold fromChars
  simp only [hnegative, Bool.false_eq_true, if_false, htake, hdrop, if_neg hne]

theorem fromChars_minus {type : IntType} (hsigned : type.signed = true) (hne : ds ≠ [])
    (hds : forall c, c ∈ ds -> isDigit c = true)
    (hrest : forall c, rest.head? = some c -> isDigit c = false) :
    fromChars type (minus :: (ds ++ rest)) =
      if type.Holds (-(value ds : Int)) then some (-(value ds : Int), rest) else none := by
  rcases takeWhile_isDigit hds hrest with ⟨htake, hdrop⟩
  unfold fromChars
  simp [hsigned, htake, hdrop, hne]

theorem fromChars_all {type : IntType} (hne : ds ≠ []) (hds : forall c, c ∈ ds -> isDigit c = true)
    (hholds : type.Holds (value ds)) : fromChars type ds = some ((value ds : Int), []) := by
  have hread := fromChars_digits type hne hds isDigit_head_nil
  rw [List.append_nil, if_pos hholds] at hread
  exact hread

theorem fromChars_printed {type : IntType} {n : Nat} (hholds : type.Holds n) :
    fromChars type (digits n) = some ((n : Int), []) := by
  rw [← value_digits n] at hholds
  have hread := fromChars_all (digits_ne_nil n) (fun c hc => isDigit_of_mem_digits hc) hholds
  rw [value_digits] at hread
  exact hread

theorem fromChars_signedDigits {type : IntType} {n : Int} (hsigned : type.signed = true)
    (hholds : type.Holds n) : fromChars type (signedDigits n) = some (n, []) := by
  unfold signedDigits
  split
  · next hneg =>
      have hvalue : (-(value (digits n.natAbs) : Int)) = n := by
        rw [value_digits]
        omega
      have hread := fromChars_minus hsigned (digits_ne_nil n.natAbs)
        (fun c hc => isDigit_of_mem_digits hc) isDigit_head_nil
      rw [List.append_nil, hvalue, if_pos hholds] at hread
      exact hread
  · next hpos =>
      have hvalue : ((n.natAbs : Nat) : Int) = n := by omega
      rw [← hvalue] at hholds
      rw [fromChars_printed hholds, hvalue]

theorem numeral_digits (n : Nat) : Numeral (digits n) :=
  ⟨digits_ne_nil n, fun _ hc => isDigit_of_mem_digits hc⟩

theorem written_digits (n : Nat) : Written type (digits n) n :=
  Or.inl ⟨numeral_digits n, by rw [value_digits]⟩

theorem written_signedDigits {type : IntType} (hsigned : type.signed = true) (n : Int) :
    Written type (signedDigits n) n := by
  unfold signedDigits
  split
  · refine Or.inr ⟨hsigned, digits n.natAbs, rfl, numeral_digits _, ?_⟩
    rw [value_digits]
    omega
  · refine Or.inl ⟨numeral_digits _, ?_⟩
    rw [value_digits]
    omega

theorem numeral_of_read {type : IntType} {body : List UInt8} {number n : Int}
    (h : (if body.takeWhile isDigit = [] then none
      else if type.Holds number then some (number, body.dropWhile isDigit) else none) =
        some (n, [])) :
    type.Holds n ∧ number = n ∧ Numeral body ∧ body.takeWhile isDigit = body := by
  split at h
  · cases h
  · next hne =>
      split at h
      · next hholds =>
          rcases Prod.mk.inj (Option.some.inj h) with ⟨hnumber, hend⟩
          have hall := List.dropWhile_eq_nil_iff.mp hend
          have hsame := List.takeWhile_eq_self_iff.mpr hall
          rw [hsame] at hne
          exact ⟨hnumber ▸ hholds, hnumber, ⟨hne, hall⟩, hsame⟩
      · cases h

theorem fromChars_whole_iff {type : IntType} {text : List UInt8} {n : Int} :
    fromChars type text = some (n, []) <-> type.Holds n ∧ Written type text n := by
  constructor
  · intro h
    unfold fromChars at h
    cases hneg : type.signed && decide (text.head? = some minus) with
    | false =>
        simp only [hneg, Bool.false_eq_true, if_false] at h
        rcases numeral_of_read h with ⟨hholds, hnumber, hnumeral, hsame⟩
        rw [hsame] at hnumber
        exact ⟨hholds, Or.inl ⟨hnumeral, hnumber.symm⟩⟩
    | true =>
        simp only [hneg, if_true] at h
        rcases numeral_of_read h with ⟨hholds, hnumber, hnumeral, hsame⟩
        rw [hsame] at hnumber
        rw [Bool.and_eq_true, decide_eq_true_eq] at hneg
        have htext : text = minus :: text.tail := (List.cons_head?_tail hneg.right).symm
        exact ⟨hholds, Or.inr ⟨hneg.left, text.tail, htext, hnumeral, hnumber.symm⟩⟩
  · rintro ⟨hholds, ⟨hnumeral, rfl⟩ | ⟨hsigned, ds, rfl, hnumeral, rfl⟩⟩
    · exact fromChars_all hnumeral.left hnumeral.right hholds
    · have hread := fromChars_minus hsigned hnumeral.left hnumeral.right isDigit_head_nil
      rw [List.append_nil, if_pos hholds] at hread
      exact hread

end Reading

/-!
## Replacing a digit
-/

section Replacing

variable {front back : List UInt8} {c d : UInt8}

theorem value_replaced (front back : List UInt8) (c : UInt8) :
    value (front ++ c :: back) =
      value front * 10 ^ (back.length + 1) + (digitValue c * 10 ^ back.length + value back) := by
  rw [value_append, value_cons, List.length_cons]

variable {type : IntType}

end Replacing

end Decimal
end Foundation
end MiniExchange
