import MiniExchange.Fix.Coverage

/-!
# Fields with a replaced byte

What a field becomes when one of its bytes is replaced.  Within a tag the new
byte can turn another tag into 10, but never 9 or 35: one digit cannot do it.
A new equals sign cuts the tag short, a lost one moves its end, and a new
terminator cuts the field in two.
-/

namespace MiniExchange
namespace Fix

open Foundation
open Foundation.Decimal (fromChars int32 int64 Numeral Written)
open Foundation.Delimited
open TextProtocol (ascii)

/-!
## Tags that become 10
-/

section Tags

variable {a b more text : List UInt8} {old c : UInt8} {n : Int}

theorem numeral_ten (h : Written int32 text 10) : Numeral text ∧ Decimal.value text = 10 := by
  rcases h with ⟨hnumeral, hvalue⟩ | ⟨-, ds, -, -, hvalue⟩
  · exact ⟨hnumeral, by omega⟩
  · omega

theorem numeral_of_front (h : Written int32 text n) {ds rest : List UInt8}
    (htext : text = ds ++ rest) (hds : Numeral ds) : Numeral text ∧ n = Decimal.value text := by
  rcases h with hnumeral | ⟨-, negated, hminus, -, -⟩
  · exact hnumeral
  · cases ds with
    | nil => exact absurd rfl hds.left
    | cons d ds =>
        rw [hminus, List.cons_append, List.cons.injEq] at htext
        have hdigit := hds.right d List.mem_cons_self
        rw [← htext.left] at hdigit
        cases hdigit

theorem numeral_nonneg (h : Written int32 text n) (hn : 0 < n) :
    Numeral text ∧ n = Decimal.value text := by
  rcases h with hnumeral | ⟨-, ds, -, -, hvalue⟩
  · exact hnumeral
  · omega

theorem digitValue_lt {d : UInt8} (h : Decimal.isDigit d = true) : Decimal.digitValue d < 10 := by
  simp only [Decimal.isDigit, Bool.and_eq_true, decide_eq_true_eq] at h
  unfold Decimal.digitValue
  omega

/-- One digit of a number becomes another: from 10 only 11 to 19 and round numbers are reached. -/
theorem value_of_replaced_ten (h : Numeral (a ++ old :: more)) (h' : Numeral (a ++ c :: more))
    (hten : Decimal.value (a ++ c :: more) = 10) :
    Decimal.value (a ++ old :: more) ≠ 9 ∧ Decimal.value (a ++ old :: more) ≠ 35 := by
  rcases List.eq_nil_or_concat more with hnil | ⟨inner, last, hlast⟩
  · subst hnil
    have hold := digitValue_lt (h.right old (by simp))
    have hc := digitValue_lt (h'.right c (by simp))
    have hsplit := Decimal.value_replaced a [] old
    rw [Decimal.value_replaced] at hten
    simp only [List.length_nil, Nat.pow_zero, Nat.mul_one, Nat.zero_add, Nat.pow_one,
      show Decimal.value [] = 0 from rfl, Nat.add_zero] at hten hsplit
    omega
  · rw [List.concat_eq_append] at hlast
    have hdigit := digitValue_lt (h.right last (by rw [hlast]; simp))
    have hends (d : UInt8) : Decimal.value (a ++ d :: more) =
        Decimal.value (a ++ d :: inner) * 10 + Decimal.digitValue last := by
      rw [hlast, ← List.cons_append, ← List.append_assoc, Decimal.value_append]
      simp [Decimal.value]
    rw [hends] at hten
    rw [hends]
    omega

variable {tag : Int} {before value tagText' : List UInt8}

/-- The replaced byte is in the tag. -/
theorem tag_of_relabelled_inside (hwritten : Written int32 (a ++ old :: more) tag)
    (hfree : equals ∉ a ++ old :: more) (hfree' : equals ∉ tagText')
    (htext' : a ++ c :: (more ++ equals :: before) = tagText' ++ equals :: value)
    (hnumeral' : Numeral tagText') (hten : Decimal.value tagText' = 10) :
    tag ≠ 9 ∧ tag ≠ 35 := by
  have hfronts := not_mem_parts hfree
  by_cases hc : c = equals
  · -- The tag is cut short, so the old one was larger.
    rw [hc] at htext'
    rcases first_unique hfronts.left hfree' htext' with ⟨rfl, -⟩
    rcases numeral_of_front hwritten rfl hnumeral' with ⟨-, hvalue⟩
    rw [Decimal.value_replaced, hten, Nat.pow_succ] at hvalue
    have hpos : 0 < 10 ^ more.length := Nat.pow_pos (by decide)
    omega
  · have hcut : a ++ c :: more ++ equals :: before = tagText' ++ equals :: value := by
      rw [← htext']
      simp
    rcases first_unique (not_mem_join hfronts.left hc hfronts.right) hfree' hcut with ⟨rfl, -⟩
    by_cases hpositive : 0 < tag
    · rcases numeral_nonneg hwritten hpositive with ⟨hnumeral, hvalue⟩
      have hother := value_of_replaced_ten hnumeral hnumeral' hten
      omega
    · omega

/-- The equals sign itself is replaced: the tag gets longer, so the old one was at most 1. -/
theorem tag_of_relabelled_equals (hread : fromChars int32 a = some (tag, []))
    (hfree : equals ∉ a) (hc : c ≠ equals)
    (htext' : a ++ c :: b = tagText' ++ equals :: value)
    (hnumeral' : Numeral tagText') (hten : Decimal.value tagText' = 10) : tag <= 1 := by
  rcases append_place htext'.symm with ⟨more, htagText', -⟩ | ⟨inner, hshort, hrest⟩
  · have hdigits : Numeral a := by
      refine ⟨?_, fun d hd => hnumeral'.right d ?_⟩
      · rintro rfl
        cases hread
      · rw [htagText']
        exact List.mem_append_left _ hd
    have hwritten := (Decimal.fromChars_whole_iff.mp hread).right
    rcases numeral_of_front hwritten (List.append_nil a).symm hdigits with ⟨-, hnumber⟩
    rw [htagText', Decimal.value_replaced, Nat.pow_succ] at hten
    have hpos : 0 < 10 ^ more.length := Nat.pow_pos (by decide)
    have hscaled := Nat.le_mul_of_pos_right (Decimal.value a * 10) hpos
    have hsame : Decimal.value a * (10 ^ more.length * 10) =
        Decimal.value a * 10 * 10 ^ more.length := by
      rw [Nat.mul_comm (10 ^ more.length) 10, Nat.mul_assoc]
    omega
  · cases inner with
    | nil => exact absurd (List.cons.inj hrest).left.symm hc
    | cons x inner =>
        rw [List.cons_append, List.cons.injEq] at hrest
        rw [← hrest.left] at hshort
        refine absurd ?_ hfree
        rw [hshort]
        exact List.mem_append_right _ List.mem_cons_self

/-- A tag that becomes 10 by one replaced byte was neither 9 nor 35. -/
theorem tag_of_relabelled (hold : parseField (a ++ old :: b) = .ok (tag, before))
    (hnew : parseField (a ++ c :: b) = .ok (10, value)) (htag : tag ≠ 10) :
    tag ≠ 9 ∧ tag ≠ 35 := by
  rcases of_parseField hold with ⟨tagText, htext, hfree, hread⟩
  rcases of_parseField hnew with ⟨tagText', htext', hfree', hread'⟩
  dsimp only at htext hread htext' hread'
  rcases numeral_ten (Decimal.fromChars_whole_iff.mp hread').right with ⟨hnumeral', hten⟩
  rcases append_place htext.symm with ⟨more, rfl, hb⟩ | ⟨inner, ha, hvalue⟩
  · rw [hb] at htext'
    exact tag_of_relabelled_inside (Decimal.fromChars_whole_iff.mp hread).right hfree hfree'
      htext' hnumeral' hten
  · cases inner with
    | nil =>
        rw [List.append_nil] at ha
        subst ha
        have hc : c ≠ equals := by
          rintro rfl
          rcases first_unique hfree hfree' htext' with ⟨rfl, -⟩
          rw [hread] at hread'
          cases hread'
          exact htag rfl
        have hsmall := tag_of_relabelled_equals hread hfree hc htext' hnumeral' hten
        omega
    | cons x inner =>
        -- The byte is in the value, and the tag stays.
        rw [List.cons_append, List.cons.injEq] at hvalue
        rw [ha, ← hvalue.left, List.append_assoc, List.cons_append] at hnew
        rw [parseField_of hfree hread] at hnew
        cases hnew
        exact absurd rfl htag

end Tags

/-!
## Fields cut and joined behind their equals sign
-/

section Cut

variable {field rest key : List UInt8} {entry : Field}

theorem equals_mem (h : parseField field = .ok entry) : equals ∈ field := by
  rcases of_parseField h with ⟨tagText, rfl, -, -⟩
  exact List.mem_append_right _ List.mem_cons_self

theorem parseField_cut (h : parseField (field ++ rest) = .ok entry)
    (hequals : equals ∈ field) :
    exists value, parseField field = .ok (entry.1, value) ∧ entry.2 = value ++ rest := by
  rcases of_parseField h with ⟨tagText, htext, hfree, hread⟩
  rcases List.eq_append_cons_of_mem hequals with ⟨front, value, rfl, hfront⟩
  rw [List.append_assoc, List.cons_append] at htext
  rcases first_unique hfront hfree htext with ⟨rfl, hvalue⟩
  exact ⟨value, parseField_of hfree hread value, hvalue.symm⟩

theorem starts_append_iff (hkey : equals ∉ key) (hequals : equals ∈ field) :
    key ++ [equals] <+: field ++ rest <-> key ++ [equals] <+: field := by
  constructor
  · intro h
    rcases List.prefix_or_prefix_of_prefix h (List.prefix_append field rest) with hin | hshort
    · exact hin
    · rcases List.prefix_concat_iff.mp hshort with heq | hshort
      · exact heq ▸ List.prefix_refl _
      · exact absurd (hshort.subset hequals) hkey
  · exact fun h => h.trans (List.prefix_append _ _)

end Cut

/-!
## Lookups
-/

theorem get_append (front back : TagMap) (tag : Int) :
    TagMap.get (front ++ back) tag = (front.get tag).or (back.get tag) := by
  induction front with
  | nil => rfl
  | cons field front ih =>
      rw [List.cons_append, get_cons, get_cons, ih]
      split
      · rfl
      · rfl

theorem parseFields_append {front back : List (List UInt8)} {map : TagMap} :
    parseFields (front ++ back) = .ok map <->
      exists entries rest, map = entries ++ rest ∧ parseFields front = .ok entries ∧
        parseFields back = .ok rest := by
  simp only [parseFields_iff]
  constructor
  · exact forall₂_append_left
  · rintro ⟨entries, rest, rfl, hfront, hback⟩
    exact List.rel_append hfront hback

theorem parseFields_cons {field : List UInt8} {fields : List (List UInt8)} {map : TagMap} :
    parseFields (field :: fields) = .ok map <->
      exists entry rest, map = entry :: rest ∧ parseField field = .ok entry ∧
        parseFields fields = .ok rest := by
  simp only [parseFields_iff]
  constructor
  · intro h
    cases h with
    | cons hentry hrest => exact ⟨_, _, rfl, hentry, hrest⟩
  · rintro ⟨entry, rest, rfl, hentry, hrest⟩
    exact List.Forall₂.cons hentry hrest

def declaredLength (fields : List (List UInt8)) : Option Int :=
  match parseFields fields with
  | .error _ => none
  | .ok map => (map.get 9).map (declared int64)

end Fix
end MiniExchange
