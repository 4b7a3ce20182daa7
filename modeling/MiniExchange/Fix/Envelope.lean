import Mathlib.Data.List.Forall2
import MiniExchange.Fix.Message

/-!
# What an accepted message looks like

The searches of the validator in terms of fields: the checksum covers the
fields in front of the last one spelled `10=`, and BodyLength counts from the
first one spelled `35=`, where a field counts for a search only if another
stands in front of it.
-/

namespace MiniExchange
namespace Fix

open Foundation
open Foundation.Decimal (fromChars int32 int64)
open Foundation.Delimited
open TextProtocol (ascii)

/-!
## Fields
-/

section Fields

variable {tag : Int} {field tagText : List UInt8} {entry : Field}

theorem parseField_of (hfree : equals ∉ tagText)
    (hread : fromChars int32 tagText = some (tag, [])) (value : List UInt8) :
    parseField (tagText ++ equals :: value) = .ok (tag, value) := by
  have hfind : find [equals] (tagText ++ equals :: value) = some tagText.length := by
    rw [find_chunk hfree, if_pos List.nil_prefix]
  have hlength : tagText.length ≠ 0 := by
    intro hnil
    rw [List.length_eq_zero_iff.mp hnil] at hread
    cases hread
  unfold parseField
  rw [if_neg (by simp), hfind]
  dsimp only
  rw [if_neg hlength, List.take_left, hread]
  simp

theorem of_parseField (h : parseField field = .ok entry) :
    exists tagText, field = tagText ++ equals :: entry.2 ∧ equals ∉ tagText ∧
      fromChars int32 tagText = some (entry.1, []) := by
  by_cases hmem : equals ∈ field
  · rcases List.eq_append_cons_of_mem hmem with ⟨tagText, value, rfl, hfree⟩
    have hfind : find [equals] (tagText ++ equals :: value) = some tagText.length := by
      rw [find_chunk hfree, if_pos List.nil_prefix]
    unfold parseField at h
    rw [if_neg (by simp), hfind] at h
    dsimp only at h
    split at h
    · cases h
    · rw [List.take_left] at h
      split at h
      · next tag hread =>
          cases h
          exact ⟨tagText, by simp, hfree, hread⟩
      · cases h
  · -- Without an equals sign the search fails.
    unfold parseField at h
    rw [find_free hmem] at h
    split at h <;> cases h

theorem parseFields_iff {fields : List (List UInt8)} {map : TagMap} :
    parseFields fields = .ok map <->
      List.Forall₂ (fun field entry => parseField field = .ok entry) fields map := by
  induction fields generalizing map with
  | nil =>
      constructor
      · intro h
        cases h
        exact List.Forall₂.nil
      · intro h
        cases h
        rfl
  | cons field fields ih =>
      unfold parseFields
      constructor
      · intro h
        split at h
        · cases h
        · next entry hentry =>
            split at h
            · cases h
            · next rest hrest =>
                cases h
                exact List.Forall₂.cons hentry (ih.mp hrest)
      · intro h
        cases h with
        | cons hentry hrest =>
            rw [hentry, ih.mpr hrest]

end Fields

theorem tokenize_iff {raw : List UInt8} {map : TagMap} :
    tokenize raw = .ok map <->
      exists fields, raw = terminated soh fields ∧ fields ≠ [] ∧
        (forall field, field ∈ fields -> soh ∉ field) ∧
        List.Forall₂ (fun field entry => parseField field = .ok entry) fields map := by
  rcases split_spec soh raw with ⟨hraw, hfree, -⟩
  unfold tokenize
  constructor
  · intro h
    split at h
    · cases h
    · next hne =>
        split at h
        · cases h
        · next map hmap =>
            split at h
            · next hrest =>
                cases h
                rw [hrest, List.append_nil] at hraw
                refine ⟨(split soh raw).1, hraw, ?_, hfree, parseFields_iff.mp hmap⟩
                intro hnil
                rw [hnil] at hraw
                exact hne hraw
            · cases h
  · rintro ⟨fields, rfl, hne, hfree', hfields⟩
    have hsplit := split_terminated hfree'
    have hraw' : terminated soh fields ≠ [] := by
      cases fields with
      | nil => exact absurd rfl hne
      | cons field fields => simp [terminated_cons]
    rw [if_neg hraw', hsplit]
    dsimp only
    rw [parseFields_iff.mpr hfields]
    exact if_pos rfl

theorem forall₂_append_left {front back : List (List UInt8)} {map : TagMap}
    (h : List.Forall₂ (fun field entry => parseField field = .ok entry)
      (front ++ back) map) :
    exists entries rest, map = entries ++ rest ∧
      List.Forall₂ (fun field entry => parseField field = .ok entry) front entries ∧
      List.Forall₂ (fun field entry => parseField field = .ok entry) back rest := by
  induction front generalizing map with
  | nil => exact ⟨[], map, rfl, List.Forall₂.nil, h⟩
  | cons field front ih =>
      cases h with
      | @cons _ entry _ more hentry hmore =>
          rcases ih hmore with ⟨entries, rest, rfl, hfront, hback⟩
          exact ⟨entry :: entries, rest, rfl, List.Forall₂.cons hentry hfront, hback⟩

/-!
## Lookups
-/

theorem get_cons (field : Field) (map : TagMap) (tag : Int) :
    TagMap.get (field :: map) tag = if field.1 = tag then some field.2 else map.get tag := by
  unfold TagMap.get
  rw [List.find?_cons]
  by_cases htag : field.1 = tag
  · simp [htag]
  · simp [htag]

theorem get_append_of_ne {front : TagMap} {tag : Int}
    (h : forall field, field ∈ front -> field.1 ≠ tag) (back : TagMap) :
    TagMap.get (front ++ back) tag = back.get tag := by
  induction front with
  | nil => rfl
  | cons field front ih =>
      rw [List.cons_append, get_cons, if_neg (h field List.mem_cons_self)]
      exact ih fun other hother => h other (List.mem_cons_of_mem _ hother)

theorem get_of_mem {map : TagMap} (hnodup : (map.map Prod.fst).Nodup) {field : Field}
    (h : field ∈ map) : map.get field.1 = some field.2 := by
  induction map with
  | nil => cases h
  | cons first map ih =>
      rw [List.map_cons, List.nodup_cons] at hnodup
      rw [get_cons]
      rcases List.mem_cons.mp h with rfl | hin
      · exact if_pos rfl
      · have hne : first.1 ≠ field.1 := by
          intro hsame
          refine hnodup.left ?_
          rw [hsame]
          exact List.mem_map_of_mem hin
        rw [if_neg hne]
        exact ih hnodup.right hin

theorem get_append_of_some {front : TagMap} {tag : Int} {value : List UInt8}
    (h : front.get tag = some value) (back : TagMap) :
    TagMap.get (front ++ back) tag = some value := by
  induction front with
  | nil => cases h
  | cons field front ih =>
      rw [List.cons_append, get_cons]
      rw [get_cons] at h
      split
      · next htag =>
          rw [if_pos htag] at h
          exact h
      · next htag =>
          rw [if_neg htag] at h
          exact ih h

/-!
## Checksum
-/

def byteSum (bytes : List UInt8) : Nat :=
  (bytes.map UInt8.toNat).sum

theorem toNat_foldl_add (bytes : List UInt8) (sum : UInt32) :
    (bytes.foldl (fun sum c => sum + c.toUInt32) sum).toNat =
      (sum.toNat + byteSum bytes) % 2 ^ 32 := by
  induction bytes generalizing sum with
  | nil =>
      have hbound := sum.toNat_lt
      show sum.toNat = (sum.toNat + 0) % 2 ^ 32
      omega
  | cons c bytes ih =>
      have hcons : byteSum (c :: bytes) = c.toNat + byteSum bytes := by
        simp [byteSum]
      rw [List.foldl_cons, ih, UInt32.toNat_add, hcons]
      show ((sum.toNat + c.toUInt32.toNat) % 2 ^ 32 + byteSum bytes) % 2 ^ 32 = _
      rw [UInt8.toNat_toUInt32]
      omega

/-- The wrap of the 32-bit sum does not show modulo 256. -/
theorem toNat_computeChecksum (bytes : List UInt8) :
    (computeChecksum bytes).toNat = byteSum bytes % 256 := by
  unfold computeChecksum
  rw [UInt32.toNat_toUInt8, UInt32.toNat_mod, toNat_foldl_add]
  show (0 + byteSum bytes) % 2 ^ 32 % 256 % 2 ^ 8 = byteSum bytes % 256
  omega

/-!
## Accepted messages
-/

/-- The bytes over which `parse_validated` computes the checksum end here. -/
def checksumEnd (raw : List UInt8) : Option Nat :=
  (rfind checksumNeedle raw).map (· + 1)

theorem declared_matches {declaredBl : Int} {computedBl : Nat} :
    ¬ (declaredBl < 0 ∨ declaredBl.toNat ≠ computedBl) <-> declaredBl = computedBl := by
  omega

theorem parseValidated_iff {raw : List UInt8} {map : TagMap} :
    parseValidated raw = .ok map <->
      tokenize raw = .ok map ∧ exists stop cksumField blField,
        checksumEnd raw = some stop ∧ map.get 10 = some cksumField ∧
        declared int32 cksumField = (computeChecksum (raw.take stop)).toNat ∧
        map.get 9 = some blField ∧ declared int64 blField = computeBodyLength raw := by
  unfold parseValidated checksumEnd
  constructor
  · intro h
    split at h
    · cases h
    · next tokens htokens =>
        split at h
        · next cksumPos cksumField hfound hten =>
            dsimp only at h
            split at h
            · cases h
            · next hsum =>
                split at h
                · cases h
                · next blField hnine =>
                    split at h
                    · cases h
                    · next hlength =>
                        cases h
                        refine ⟨htokens, cksumPos + 1, cksumField, blField, ?_, hten,
                          Classical.not_not.mp hsum, hnine, declared_matches.mp hlength⟩
                        rw [hfound]
                        rfl
        · cases h
  · rintro ⟨htokens, stop, cksumField, blField, hstop, hten, hsum, hnine, hlength⟩
    rcases Option.map_eq_some_iff.mp hstop with ⟨cksumPos, hfound, rfl⟩
    rw [htokens, hfound]
    dsimp only
    rw [hten]
    dsimp only
    rw [if_neg (by rw [hsum]; simp), hnine]
    dsimp only
    rw [if_neg (declared_matches.mpr hlength)]

/-- The fields of an accepted message around the last one spelled `10=`. -/
structure Accepted (raw : List UInt8) (map : TagMap) (lead : List (List UInt8))
    (mark : List UInt8) (tail : List (List UInt8)) : Prop where
  text : raw = terminated soh (lead ++ mark :: tail)
  free : forall field, field ∈ lead ++ mark :: tail -> soh ∉ field
  fields : List.Forall₂ (fun field entry => parseField field = .ok entry)
    (lead ++ mark :: tail) map
  lead_ne : lead ≠ []
  mark_spelled : ascii "10=" <+: mark
  mark_last : forall field, field ∈ tail -> ¬ ascii "10=" <+: field
  checksum : exists text, map.get 10 = some text ∧
    declared int32 text = (computeChecksum (terminated soh lead)).toNat
  bodyLength : exists text, map.get 9 = some text ∧
    declared int64 text = computeBodyLength raw

theorem soh_free_ten : soh ∉ ascii "10=" := by
  decide

theorem soh_free_thirtyFive : soh ∉ ascii "35=" := by
  decide

theorem soh_not_mem_digits {text : List UInt8}
    (h : forall d, d ∈ text -> Decimal.isDigit d = true) : soh ∉ text := by
  intro hmem
  have hdigit := h soh hmem
  cases hdigit

section Validation

variable {raw mark : List UInt8} {map : TagMap} {lead tail : List (List UInt8)}

/-- The checksum covers the fields in front of the last one spelled `10=`. -/
theorem checksumEnd_of (hfree : forall field, field ∈ lead ++ mark :: tail -> soh ∉ field)
    (hlead : lead ≠ []) (hmark : ascii "10=" <+: mark)
    (hlast : forall field, field ∈ tail -> ¬ ascii "10=" <+: field) :
    checksumEnd (terminated soh (lead ++ mark :: tail)) = some (terminated soh lead).length :=
  rfind_marked soh_free_ten (by decide) hfree hlead hmark hlast

theorem Accepted.parseValidated (h : Accepted raw map lead mark tail) :
    parseValidated raw = .ok map := by
  rcases h.checksum with ⟨cksumField, hten, hsum⟩
  rcases h.bodyLength with ⟨blField, hnine, hlength⟩
  have hstop := checksumEnd_of h.free h.lead_ne h.mark_spelled h.mark_last
  have hbefore : raw.take (terminated soh lead).length = terminated soh lead := by
    rw [h.text, terminated_append, List.take_left]
  rw [← h.text] at hstop
  refine parseValidated_iff.mpr ⟨?_, _, cksumField, blField, hstop, hten, ?_, hnine, hlength⟩
  · exact tokenize_iff.mpr ⟨_, h.text, by simp, h.free, h.fields⟩
  · rw [hbefore]
    exact hsum

theorem accepted_of_parseValidated (h : parseValidated raw = .ok map) :
    exists lead mark tail, Accepted raw map lead mark tail := by
  rcases parseValidated_iff.mp h with
    ⟨htokens, stop, cksumField, blField, hstop, hten, hsum, hnine, hlength⟩
  rcases tokenize_iff.mp htokens with ⟨fields, htext, -, hfree, hfields⟩
  rcases Option.map_eq_some_iff.mp hstop with ⟨cksumPos, hfound, rfl⟩
  rw [htext] at hfound
  rcases rfind_split soh_free_ten (by decide) hfree hfound with
    ⟨lead, mark, tail, rfl, hlead, hmark, hlast, hend⟩
  have hbefore : raw.take (cksumPos + 1) = terminated soh lead := by
    rw [htext, hend, terminated_append, List.take_left]
  refine ⟨lead, mark, tail, htext, hfree, hfields, hlead, hmark, hlast,
    ⟨cksumField, hten, ?_⟩, ⟨blField, hnine, hlength⟩⟩
  rw [← hbefore]
  exact hsum

/-- BodyLength counts the fields from the first one spelled `35=` up to the checksum. -/
theorem bodyRange_of {front more : List (List UInt8)} {first : List UInt8}
    (hfree : forall field, field ∈ front ++ first :: more ++ mark :: tail -> soh ∉ field)
    (hfront : front ≠ []) (hfirst : ascii "35=" <+: first)
    (hnone : forall field, field ∈ front.tail -> ¬ ascii "35=" <+: field)
    (hmark : ascii "10=" <+: mark)
    (hlast : forall field, field ∈ tail -> ¬ ascii "10=" <+: field) :
    bodyRange (terminated soh (front ++ first :: more ++ mark :: tail)) =
      some ((terminated soh front).length, (terminated soh (front ++ first :: more)).length) := by
  have hfound : (find bodyNeedle
      (terminated soh (front ++ first :: more ++ mark :: tail))).map (· + 1) =
        some (terminated soh front).length := by
    rw [List.append_assoc, List.cons_append]
    exact find_marked _ soh_free_thirtyFive (fun field hfield => hfree field (by simp [hfield]))
      hfront hfirst hnone
  rcases Option.map_eq_some_iff.mp hfound with ⟨bodyStart, hstart, hbodyStart⟩
  rcases Option.map_eq_some_iff.mp (checksumEnd_of hfree (by simp) hmark hlast) with
    ⟨cksumPos, hpos, hend⟩
  have hlonger : (terminated soh front).length <
      (terminated soh (front ++ first :: more)).length := by
    rw [terminated_append, terminated_cons, List.length_append, List.length_append,
      List.length_cons]
    omega
  unfold bodyRange
  rw [hstart, hpos]
  dsimp only at hbodyStart ⊢
  rw [if_neg (by omega), hbodyStart, hend]

end Validation

end Fix
end MiniExchange
