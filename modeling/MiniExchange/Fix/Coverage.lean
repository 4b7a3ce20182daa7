import Mathlib.Data.List.TakeWhile
import MiniExchange.Fix.Envelope
import MiniExchange.Fix.Parser

/-!
# Fields covered by the integrity checks

The validator returns every field of a message, but its checksum covers only
the bytes in front of the last `10=`, and BodyLength counts only the bytes from
the first `35=` up to there.  An accepted message may have fields outside of
both.
-/

namespace MiniExchange
namespace Fix

open Foundation
open Foundation.Decimal (fromChars int32)
open Foundation.Delimited
open TextProtocol (ascii)

def fieldTexts (raw : List UInt8) : List (List UInt8) :=
  (split soh raw).1

def fieldStart (raw : List UInt8) (i : Nat) : Nat :=
  offset soh (fieldTexts raw) i

def checksumIndex (map : TagMap) : Nat :=
  map.findIdx fun field => decide (field.1 = 10)

def leading (map : TagMap) : Nat :=
  (map.takeWhile fun field => decide (field.1 = 8 ∨ field.1 = 9)).length

structure IntegrityCovered (raw : List UInt8) (map : TagMap) : Prop where
  checksum_last : checksumIndex map + 1 = map.length
  summed : forall i, i < map.length -> i ≠ checksumIndex map ->
    exists stop, checksumEnd raw = some stop ∧ fieldStart raw (i + 1) <= stop
  counted : forall i, i < map.length -> i ≠ checksumIndex map -> leading map <= i ->
    exists start stop, bodyRange raw = some (start, stop) ∧ start <= fieldStart raw i ∧
      fieldStart raw (i + 1) <= stop

/-!
## Tags by their spelling
-/

section Spelling

variable {text : List UInt8} {entry : Field}

theorem parseField_ten (value : List UInt8) :
    parseField (ascii "10=" ++ value) = .ok (10, value) :=
  parseField_of (show equals ∉ ascii "10" by decide) (by decide) value

theorem tag_of_starts_ten (h : ascii "10=" <+: text) (hentry : parseField text = .ok entry) :
    entry.1 = 10 := by
  rcases h with ⟨value, rfl⟩
  rw [parseField_ten] at hentry
  cases hentry
  rfl

theorem tag_of_starts_thirtyFive (h : ascii "35=" <+: text)
    (hentry : parseField text = .ok entry) : entry.1 = 35 := by
  rcases h with ⟨value, rfl⟩
  have hparse : parseField (ascii "35=" ++ value) = .ok (35, value) :=
    parseField_of (show equals ∉ ascii "35" by decide) (by decide) value
  rw [hparse] at hentry
  cases hentry
  rfl

end Spelling

/-!
## Places in an accepted message
-/

section Places

variable {raw mark : List UInt8} {map : TagMap} {lead tail : List (List UInt8)}

theorem Accepted.fieldTexts_eq (h : Accepted raw map lead mark tail) :
    fieldTexts raw = lead ++ mark :: tail := by
  have hsplit := split_terminated h.free
  rw [← h.text] at hsplit
  unfold fieldTexts
  rw [hsplit]

theorem Accepted.length_eq (h : Accepted raw map lead mark tail) :
    (fieldTexts raw).length = map.length := by
  rw [h.fieldTexts_eq]
  exact h.fields.length_eq

theorem Accepted.field_at (h : Accepted raw map lead mark tail) {i : Nat} {text : List UInt8}
    (htext : (fieldTexts raw)[i]? = some text) :
    exists field, map[i]? = some field ∧ parseField text = .ok field := by
  rw [h.fieldTexts_eq] at htext
  have hlength := h.fields.length_eq
  rcases List.getElem?_eq_some_iff.mp htext with ⟨hi, rfl⟩
  have hi' : i < map.length := by omega
  exact ⟨map[i], List.getElem?_eq_getElem hi', h.fields.get hi hi'⟩

theorem Accepted.mark_at (h : Accepted raw map lead mark tail) :
    exists field, map[lead.length]? = some field ∧ field.1 = 10 := by
  have hmark : (fieldTexts raw)[lead.length]? = some mark := by
    rw [h.fieldTexts_eq]
    simp
  rcases h.field_at hmark with ⟨field, hfield, hparse⟩
  exact ⟨field, hfield, tag_of_starts_ten h.mark_spelled hparse⟩

theorem Accepted.checksumEnd_eq (h : Accepted raw map lead mark tail) :
    checksumEnd raw = some (fieldStart raw lead.length) := by
  unfold fieldStart
  rw [h.fieldTexts_eq, offset_front, h.text]
  exact checksumEnd_of h.free h.lead_ne h.mark_spelled h.mark_last

/-- BodyLength counts from a field spelled `35=` up to the end of the checksum's range. -/
theorem Accepted.bodyRange_places (h : Accepted raw map lead mark tail) {start stop : Nat}
    (hrange : bodyRange raw = some (start, stop)) :
    exists k text, 0 < k ∧ (fieldTexts raw)[k]? = some text ∧ ascii "35=" <+: text ∧
      start = fieldStart raw k := by
  have htexts := h.fieldTexts_eq
  unfold bodyRange at hrange
  split at hrange
  · cases hrange
  · next bodyStart hfound =>
      split at hrange
      · cases hrange
      · split at hrange
        · cases hrange
        · cases hrange
          rw [h.text, ← htexts] at hfound
          rcases find_split soh_free_thirtyFive (by decide) (htexts ▸ h.free) hfound with
            ⟨front, first, back, hsplit, hfront, hfirst, -, hstart⟩
          refine ⟨front.length, first, List.length_pos_iff.mpr hfront, ?_, hfirst, ?_⟩
          · rw [hsplit]
            simp
          · unfold fieldStart
            rw [hsplit, offset_front]
            exact hstart

end Places

section Indices

variable {map : TagMap} {i : Nat} {field : Field}

theorem leading_tags (hi : i < leading map) (hfield : map[i]? = some field) :
    field.1 = 8 ∨ field.1 = 9 := by
  have hfront := List.takeWhile_append_dropWhile
    (p := fun field : Field => decide (field.1 = 8 ∨ field.1 = 9)) (l := map)
  rw [← hfront, List.getElem?_append_left hi] at hfield
  have hleading := List.mem_takeWhile_imp (List.mem_of_getElem? hfield)
  exact of_decide_eq_true hleading

theorem leading_le (hfield : map[i]? = some field) (hother : field.1 ≠ 8 ∧ field.1 ≠ 9) :
    leading map <= i := by
  refine Nat.le_of_not_lt fun hi => ?_
  rcases leading_tags hi hfield with h | h
  · exact hother.left h
  · exact hother.right h

theorem checksumIndex_le (hfield : map[i]? = some field) (hten : field.1 = 10) :
    checksumIndex map <= i := by
  rcases List.getElem?_eq_some_iff.mp hfield with ⟨hi, rfl⟩
  refine Nat.le_of_not_lt fun hlt => ?_
  have hnot := List.not_of_lt_findIdx hlt
  rw [decide_eq_true hten] at hnot
  cases hnot

theorem checksumIndex_tag (h : checksumIndex map < map.length) :
    exists field, map[checksumIndex map]? = some field ∧ field.1 = 10 :=
  ⟨_, List.getElem?_eq_getElem h, of_decide_eq_true (List.findIdx_getElem (w := h))⟩

end Indices

/-!
## Which messages are covered
-/

/-- The only CheckSum is the last field, and the body starts where the leading fields end. -/
structure WellPlaced (raw : List UInt8) (map : TagMap) : Prop where
  only_checksum : forall i field, map[i]? = some field -> field.1 = 10 -> i + 1 = map.length
  body : leading map + 1 = map.length ∨
    0 < leading map ∧
      exists text, (fieldTexts raw)[leading map]? = some text ∧ ascii "35=" <+: text

section Covered

variable {raw mark : List UInt8} {map : TagMap} {lead tail : List (List UInt8)}

theorem Accepted.wellPlaced (h : Accepted raw map lead mark tail)
    (hcovered : IntegrityCovered raw map) : WellPlaced raw map := by
  have hlength := h.length_eq
  have honly : forall i field, map[i]? = some field -> field.1 = 10 -> i + 1 = map.length := by
    intro i field hfield hten
    have hle := checksumIndex_le hfield hten
    have hlast := hcovered.checksum_last
    have hbound := (List.getElem?_eq_some_iff.mp hfield).choose
    omega
  refine ⟨honly, ?_⟩
  rcases h.mark_at with ⟨last, hlast, hten⟩
  have hend := honly _ last hlast hten
  have hleading : leading map <= lead.length := leading_le hlast (by rw [hten]; decide)
  by_cases hall : leading map + 1 = map.length
  · exact Or.inl hall
  · right
    have hchecksum := hcovered.checksum_last
    -- The first field behind the leading ones is counted from its start or from before it.
    rcases hcovered.counted (leading map) (by omega) (by omega) (Nat.le_refl _) with
      ⟨start, stop, hrange, hstart, -⟩
    rcases h.bodyRange_places hrange with ⟨k, text, hpos, htext, hspelled, rfl⟩
    rcases h.field_at htext with ⟨field, hfield, hparse⟩
    have htag := tag_of_starts_thirtyFive hspelled hparse
    have hge : leading map <= k := leading_le hfield (by rw [htag]; decide)
    have hbound := (List.getElem?_eq_some_iff.mp htext).choose
    have hle : k <= leading map := (offset_le_iff (by omega) (by omega)).mp hstart
    have hk : k = leading map := Nat.le_antisymm hle hge
    rw [hk] at hpos htext
    exact ⟨hpos, text, htext, hspelled⟩

/-- Leading fields are not spelled `35=`. -/
theorem Accepted.not_thirtyFive (h : Accepted raw map lead mark tail) {i : Nat}
    {text : List UInt8} (hi : i < leading map) (htext : (fieldTexts raw)[i]? = some text) :
    ¬ ascii "35=" <+: text := by
  intro hstarts
  rcases h.field_at htext with ⟨field, hfield, hparse⟩
  have htag := tag_of_starts_thirtyFive hstarts hparse
  rcases leading_tags hi hfield with h8 | h9
  · rw [htag] at h8
    cases h8
  · rw [htag] at h9
    cases h9

theorem Accepted.bodyRange_wellPlaced (h : Accepted raw map lead mark tail)
    (hplaced : WellPlaced raw map) (hbody : leading map < lead.length) :
    bodyRange raw = some (fieldStart raw (leading map), fieldStart raw lead.length) := by
  have htexts := h.fieldTexts_eq
  rcases h.mark_at with ⟨last, hlast, hten⟩
  have hend := hplaced.only_checksum _ last hlast hten
  rcases hplaced.body with hall | ⟨hpos, first, hfirst, hspelled⟩
  · omega
  · rw [htexts, List.getElem?_append_left hbody] at hfirst
    rcases split_at hfirst with ⟨front, more, rfl, hfront⟩
    have hnone : forall text, text ∈ front.tail -> ¬ ascii "35=" <+: text := by
      intro text htext
      rcases List.getElem?_of_mem (List.mem_of_mem_tail htext) with ⟨i, hi⟩
      have hlt := (List.getElem?_eq_some_iff.mp hi).choose
      refine h.not_thirtyFive (hfront ▸ hlt) ?_
      rw [htexts, List.append_assoc, List.getElem?_append_left hlt, hi]
    have hfront_ne : front ≠ [] := List.length_pos_iff.mp (hfront ▸ hpos)
    have hrange := bodyRange_of h.free hfront_ne hspelled hnone h.mark_spelled h.mark_last
    rw [← h.text] at hrange
    rw [hrange]
    unfold fieldStart
    rw [htexts, offset_front, ← hfront, List.append_assoc, offset_front]

theorem WellPlaced.covered (hplaced : WellPlaced raw map)
    (h : Accepted raw map lead mark tail) : IntegrityCovered raw map := by
  have hlength := h.length_eq
  rcases h.mark_at with ⟨last, hlast, hten⟩
  have hend := hplaced.only_checksum _ last hlast hten
  have hindex : checksumIndex map = lead.length := by
    have hle := checksumIndex_le hlast hten
    rcases checksumIndex_tag (show checksumIndex map < map.length by omega) with
      ⟨field, hfield, htag⟩
    have honly := hplaced.only_checksum _ field hfield htag
    omega
  refine ⟨by omega, ?_, ?_⟩
  · intro i hi hne
    refine ⟨_, h.checksumEnd_eq, (offset_le_iff (by omega) (by omega)).mpr (by omega)⟩
  · intro i hi hne hbody
    refine ⟨_, _, h.bodyRange_wellPlaced hplaced (by omega), ?_, ?_⟩
    · exact (offset_le_iff (by omega) (by omega)).mpr hbody
    · exact (offset_le_iff (by omega) (by omega)).mpr (by omega)

end Covered

/--
The fields of an accepted message are covered by the two checks exactly if its
only CheckSum is its last field and the body starts, with a field spelled
`35=`, right behind leading 8 and 9 fields.
-/
theorem fields_covered_iff (raw : List UInt8) (map : TagMap)
    (h : parseValidated raw = .ok map) :
    IntegrityCovered raw map <-> WellPlaced raw map := by
  rcases accepted_of_parseValidated h with ⟨lead, mark, tail, haccepted⟩
  constructor
  · exact haccepted.wellPlaced
  · intro hplaced
    exact hplaced.covered haccepted

theorem only_last_of {map : TagMap}
    (h : forall i, i < map.length -> (map.map Prod.fst)[i]? = some 10 -> i + 1 = map.length) :
    forall i field, map[i]? = some field -> field.1 = 10 -> i + 1 = map.length := by
  intro i field hfield hten
  refine h i (List.getElem?_eq_some_iff.mp hfield).choose ?_
  rw [List.getElem?_map, hfield]
  exact congrArg some hten

/-!
## A quantity behind the checksum
-/

namespace LateQuantity

def fields : List (List UInt8) :=
  [ascii "8=FIX.4.2", ascii "9=28", ascii "35=D", ascii "11=1", ascii "55=MINI", ascii "54=1",
    ascii "40=1", ascii "10=059"]

def order : List UInt8 :=
  terminated soh fields

def orderMap : TagMap :=
  [(8, ascii "FIX.4.2"), (9, ascii "28"), (35, ascii "D"), (11, ascii "1"), (55, ascii "MINI"),
    (54, ascii "1"), (40, ascii "1"), (10, ascii "059")]

theorem order_covered : IntegrityCovered order orderMap := by
  refine (fields_covered_iff order orderMap (by decide)).mpr
    ⟨only_last_of (by decide), Or.inr ⟨by decide, ?_⟩⟩
  exact ⟨ascii "35=D", by decide, by decide⟩

def late (quantity : String) : List UInt8 :=
  terminated soh (fields ++ [ascii "38=" ++ ascii quantity])

def lateMap (quantity : String) : TagMap :=
  orderMap ++ [(38, ascii quantity)]

/-- Both orders are accepted, and the parser takes the quantity from the bytes behind. -/
theorem late_quantity_uncovered :
    parseValidated (late "100") = .ok (lateMap "100") ∧
      parseValidated (late "900") = .ok (lateMap "900") ∧
      ¬ IntegrityCovered (late "100") (lateMap "100") ∧
      parse (lateMap "100") ⟨1⟩ = .ok (.newOrder (.market
        { id := ⟨1⟩, side := .buy, quantity := ⟨100⟩, owner := ⟨1⟩ })) ∧
      parse (lateMap "900") ⟨1⟩ = .ok (.newOrder (.market
        { id := ⟨1⟩, side := .buy, quantity := ⟨900⟩, owner := ⟨1⟩ })) := by
  refine ⟨by decide, by decide, ?_, by decide, by decide⟩
  intro hcovered
  exact absurd hcovered.checksum_last (by decide)

end LateQuantity

end Fix
end MiniExchange
