import MiniExchange.Fix.Coverage

/-!
# Messages with one CheckSum

What `parse_validated` compares, as two checks on the fields, and the regular
messages: their only CheckSum is the last field and consists of digits.
-/

namespace MiniExchange
namespace Fix

open Foundation
open Foundation.Decimal (fromChars int32 int64)
open Foundation.Delimited
open TextProtocol (ascii)

/-- The first CheckSum field announces the sum of the bytes in front of the last `10=`. -/
def Announced (raw : List UInt8) (map : TagMap) : Prop :=
  exists stop cksumField, checksumEnd raw = some stop ∧ map.get 10 = some cksumField ∧
    declared int32 cksumField = (computeChecksum (raw.take stop)).toNat

def Counted (raw : List UInt8) (map : TagMap) : Prop :=
  exists blField, map.get 9 = some blField ∧ declared int64 blField = computeBodyLength raw

theorem accepted_iff {raw : List UInt8} {map : TagMap} :
    parseValidated raw = .ok map <->
      tokenize raw = .ok map ∧ Announced raw map ∧ Counted raw map := by
  rw [parseValidated_iff]
  constructor
  · rintro ⟨htokens, stop, cksumField, blField, hstop, hvalue, hsum, hnine, hlength⟩
    exact ⟨htokens, ⟨stop, cksumField, hstop, hvalue, hsum⟩, blField, hnine, hlength⟩
  · rintro ⟨htokens, ⟨stop, cksumField, hstop, hvalue, hsum⟩, blField, hnine, hlength⟩
    exact ⟨htokens, stop, cksumField, blField, hstop, hvalue, hsum, hnine, hlength⟩

/-!
## Reasons to reject
-/

section Reasons

variable {raw : List UInt8}

end Reasons

/-!
## Regular messages
-/

/-- The only CheckSum is the last field, and its value consists of digits. -/
structure Regular (raw : List UInt8) (entries : TagMap) (lead : List (List UInt8))
    (digits : List UInt8) : Prop where
  accepted : Accepted raw (entries ++ [(10, digits)]) lead (ascii "10=" ++ digits) []
  lead_fields : List.Forall₂ (fun field entry => parseField field = .ok entry) lead entries
  no_ten : forall field, field ∈ entries -> field.1 ≠ 10
  all_digits : forall d, d ∈ digits -> Decimal.isDigit d = true

section Regular

variable {raw digits : List UInt8} {map entries : TagMap} {lead : List (List UInt8)}

theorem entries_of_last_ten {value : List UInt8}
    (h : List.Forall₂ (fun field entry => parseField field = .ok entry)
      (lead ++ [ascii "10=" ++ value]) map) :
    exists entries, map = entries ++ [(10, value)] ∧
      List.Forall₂ (fun field entry => parseField field = .ok entry) lead entries := by
  rcases forall₂_append_left h with ⟨entries, rest, rfl, hlead, hrest⟩
  cases hrest with
  | @cons _ entry _ none hentry hnone =>
      cases hnone
      rw [parseField_ten] at hentry
      cases hentry
      exact ⟨entries, rfl, hlead⟩

theorem Regular.text (h : Regular raw entries lead digits) :
    raw = terminated soh lead ++ (ascii "10=" ++ (digits ++ [soh])) := by
  rw [h.accepted.text, terminated_append, terminated_cons, terminated_nil, List.append_assoc]

theorem Regular.lead_free (h : Regular raw entries lead digits) :
    forall text, text ∈ lead -> soh ∉ text :=
  fun text htext => h.accepted.free text (List.mem_append_left _ htext)

theorem soh_not_mem_mark {value : List UInt8} (hvalue : soh ∉ value) :
    soh ∉ ascii "10=" ++ value :=
  List.not_mem_append soh_free_ten hvalue

theorem Regular.digits_free (h : Regular raw entries lead digits) : soh ∉ digits :=
  soh_not_mem_digits h.all_digits

def withChecksum (lead : List (List UInt8)) (value : List UInt8) : List UInt8 :=
  terminated soh (lead ++ [ascii "10=" ++ value])

theorem withChecksum_append (front after : List (List UInt8)) (value : List UInt8) :
    withChecksum (front ++ after) value =
      terminated soh front ++ terminated soh (after ++ [ascii "10=" ++ value]) := by
  unfold withChecksum
  rw [List.append_assoc, terminated_append]

theorem free_withChecksum {value : List UInt8} (hlead : forall text, text ∈ lead -> soh ∉ text)
    (hvalue : soh ∉ value) :
    forall text, text ∈ lead ++ [ascii "10=" ++ value] -> soh ∉ text :=
  List.forall_mem_append.mpr ⟨hlead, List.forall_mem_singleton.mpr (soh_not_mem_mark hvalue)⟩

theorem checksumEnd_withChecksum {value : List UInt8} (hne : lead ≠ [])
    (hlead : forall text, text ∈ lead -> soh ∉ text) (hvalue : soh ∉ value) :
    checksumEnd (withChecksum lead value) = some (terminated soh lead).length :=
  checksumEnd_of (free_withChecksum hlead hvalue) hne (List.prefix_append _ _)
    (fun _ htext => absurd htext List.not_mem_nil)

theorem computeBodyLength_congr {raw raw' : List UInt8}
    (hfind : find bodyNeedle raw = find bodyNeedle raw')
    (hstop : checksumEnd raw = checksumEnd raw') :
    computeBodyLength raw = computeBodyLength raw' := by
  have hrfind : rfind checksumNeedle raw = rfind checksumNeedle raw' :=
    Option.map_injective (add_left_injective 1) hstop
  unfold computeBodyLength bodyRange
  rw [hfind, hrfind]

theorem Regular.get_ten (h : Regular raw entries lead digits) (value : List UInt8) :
    TagMap.get (entries ++ [(10, value)]) 10 = some value := by
  rw [get_append_of_ne h.no_ten, get_cons, if_pos rfl]

theorem get_nine_last {entries : TagMap} (value : List UInt8) :
    TagMap.get (entries ++ [(10, value)]) 9 = entries.get 9 := by
  induction entries with
  | nil => rfl
  | cons field entries ih => rw [List.cons_append, get_cons, get_cons, ih]

theorem fields_of_tokenize {fields : List (List UInt8)}
    (hfree : forall field, field ∈ fields -> soh ∉ field)
    (h : tokenize (terminated soh fields) = .ok map) :
    List.Forall₂ (fun field entry => parseField field = .ok entry) fields map := by
  rcases tokenize_iff.mp h with ⟨fields', htext, -, hfree', hfields⟩
  have hsplit := split_terminated hfree
  rw [htext, split_terminated hfree'] at hsplit
  cases hsplit
  exact hfields

theorem accepted_withChecksum_iff {value : List UInt8} (hne : lead ≠ [])
    (hlead : forall text, text ∈ lead -> soh ∉ text) (hvalue : soh ∉ value) :
    (exists map, parseValidated (withChecksum lead value) = .ok map) <->
      exists entries text, parseFields lead = .ok entries ∧
        TagMap.get (entries ++ [(10, value)]) 10 = some text ∧
        declared int32 text = (computeChecksum (terminated soh lead)).toNat ∧
        Counted (withChecksum lead value) (entries ++ [(10, value)]) := by
  have hfree := free_withChecksum hlead hvalue
  have hstop := checksumEnd_withChecksum hne hlead hvalue
  have hbefore : (withChecksum lead value).take (terminated soh lead).length =
      terminated soh lead := by
    unfold withChecksum
    rw [terminated_append, List.take_left]
  constructor
  · rintro ⟨map, hmap⟩
    rcases accepted_iff.mp hmap with ⟨htokens, ⟨stop, text, hstop', htext, hsum⟩, hcounted⟩
    rcases entries_of_last_ten (fields_of_tokenize hfree htokens) with ⟨entries, rfl, hfields⟩
    rw [hstop] at hstop'
    cases hstop'
    rw [hbefore] at hsum
    exact ⟨entries, text, parseFields_iff.mpr hfields, htext, hsum, hcounted⟩
  · rintro ⟨entries, text, hfields, htext, hsum, hcounted⟩
    refine ⟨_, accepted_iff.mpr ⟨?_, ⟨_, text, hstop, htext, ?_⟩, hcounted⟩⟩
    · refine tokenize_iff.mpr ⟨_, rfl, by simp, hfree, ?_⟩
      exact List.rel_append (parseFields_iff.mp hfields)
        (List.Forall₂.cons (parseField_ten value) List.Forall₂.nil)
    · rw [hbefore]
      exact hsum

theorem Regular.counted (h : Regular raw entries lead digits) :
    Counted raw (entries ++ [(10, digits)]) :=
  h.accepted.bodyLength

theorem Regular.declared_eq (h : Regular raw entries lead digits) :
    declared int32 digits = (computeChecksum (terminated soh lead)).toNat := by
  rcases h.accepted.checksum with ⟨text, htext, hsum⟩
  rw [h.get_ten] at htext
  cases htext
  exact hsum

theorem declared_eq_iff {type : Decimal.IntType} {text : List UInt8} {n : Nat} :
    declared type text = n <-> (fromChars type text).map Prod.fst = some (n : Int) := by
  unfold declared
  cases fromChars type text with
  | none =>
      constructor
      · intro h
        replace h : (-1 : Int) = n := h
        omega
      · intro h
        cases h
  | some read => exact ⟨fun h => congrArg some h, fun h => Option.some.inj h⟩

theorem Regular.declared_digits (h : Regular raw entries lead digits) :
    declared int32 digits = Decimal.value digits := by
  have hread := declared_eq_iff.mp h.declared_eq
  have hne : digits ≠ [] := by
    rintro rfl
    cases hread
  have hdigits := Decimal.fromChars_digits int32 hne h.all_digits Decimal.isDigit_head_nil
  rw [List.append_nil] at hdigits
  rw [declared_eq_iff]
  rw [hdigits] at hread ⊢
  split at hread
  · next hholds => rw [if_pos hholds]; rfl
  · cases hread

theorem Regular.value_eq (h : Regular raw entries lead digits) :
    Decimal.value digits = (computeChecksum (terminated soh lead)).toNat :=
  Int.ofNat.inj (h.declared_digits.symm.trans h.declared_eq)

theorem Regular.checksumEnd_eq (h : Regular raw entries lead digits) :
    checksumEnd raw = some (terminated soh lead).length := by
  have hraw : raw = withChecksum lead digits := h.accepted.text
  rw [hraw]
  exact checksumEnd_withChecksum h.accepted.lead_ne h.lead_free h.digits_free

end Regular

end Fix
end MiniExchange
