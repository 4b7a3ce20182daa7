import MiniExchange.Fix.Regular
import MiniExchange.Fix.Relabel

/-!
# Corrupted bytes

One byte of an accepted message is replaced, whose only CheckSum is its last
field and consists of digits.  A byte in front of it changes the sum, so the
change is noticed unless it also makes a field there the CheckSum that is read.
The CheckSum itself is read up to its first byte that is no digit.
-/

namespace MiniExchange
namespace Fix

open Foundation
open Foundation.Decimal (fromChars int32 int64)
open Foundation.Delimited
open TextProtocol (ascii)

/-!
## Sums
-/

theorem byteSum_append (front back : List UInt8) :
    byteSum (front ++ back) = byteSum front + byteSum back := by
  simp [byteSum]

theorem byteSum_cons (c : UInt8) (bytes : List UInt8) :
    byteSum (c :: bytes) = c.toNat + byteSum bytes := by
  simp [byteSum]

theorem set_split {front back : List UInt8} {old c : UInt8} :
    (front ++ old :: back).set front.length c = front ++ c :: back := by
  simp

theorem toNat_computeChecksum_replaced (front back : List UInt8) (old c : UInt8) :
    (computeChecksum (front ++ c :: back)).toNat =
      ((computeChecksum (front ++ old :: back)).toNat + 256 - old.toNat + c.toNat) % 256 := by
  have hold := old.toNat_lt
  rw [toNat_computeChecksum, toNat_computeChecksum, byteSum_append, byteSum_append, byteSum_cons,
    byteSum_cons]
  omega

/-!
## Regular messages
-/

section Regular

variable {raw digits : List UInt8} {map entries : TagMap} {lead : List (List UInt8)}

/-!
### One byte replaced
-/

def replacedSum (digits : List UInt8) (old c : UInt8) : Nat :=
  (Decimal.value digits + 256 - old.toNat + c.toNat) % 256

/--
The byte stands in a field in front of the last one, and its replacement makes
a CheckSum there that announces the new sum: the tag of the field becomes 10,
or the field is cut in two and the second part is a CheckSum, while the first
part leaves the BodyLength as it was.
-/
def Forged (raw digits : List UInt8) (i : Nat) (old c : UInt8) : Prop :=
  exists before a b after value, fieldTexts raw = before ++ (a ++ old :: b) :: after ∧
    after ≠ [] ∧ i = (terminated soh before).length + a.length ∧
    declared int32 value = replacedSum digits old c ∧
    (c ≠ soh ∧ parseField (a ++ c :: b) = .ok (10, value) ∨
      c = soh ∧ equals ∈ a ∧ parseField b = .ok (10, value) ∧
        declaredLength (before ++ [a]) = declaredLength (before ++ [a ++ old :: b]))

variable {front back more : List UInt8} {old c : UInt8}

/-- With other bytes in front, the last field is wrong, and another CheckSum must be read. -/
theorem Regular.accepted_forged_iff (h : Regular raw entries lead digits)
    {lead' : List (List UInt8)} (hlead' : lead' ≠ [])
    (hfree' : forall text, text ∈ lead' -> soh ∉ text) (hne : old ≠ c)
    (hbytes : terminated soh lead = front ++ old :: back)
    (hbytes' : terminated soh lead' = front ++ c :: back) :
    (exists map, parseValidated (withChecksum lead' digits) = .ok map) <->
      exists entries' value, parseFields lead' = .ok entries' ∧
        TagMap.get entries' 10 = some value ∧
        declared int32 value = replacedSum digits old c ∧
        Counted (withChecksum lead' digits) (entries' ++ [(10, digits)]) := by
  have hvalue := h.value_eq
  have hsum : (computeChecksum (terminated soh lead')).toNat = replacedSum digits old c := by
    rw [hbytes', toNat_computeChecksum_replaced front back old c, ← hbytes, ← hvalue]
    rfl
  have hother : Decimal.value digits ≠ replacedSum digits old c := by
    have hbound := (computeChecksum (terminated soh lead)).toNat_lt
    have hold := old.toNat_lt
    have hc := c.toNat_lt
    intro heq
    unfold replacedSum at heq
    exact hne (UInt8.toNat_inj.mp (by omega))
  rw [accepted_withChecksum_iff hlead' hfree' h.digits_free, hsum]
  constructor
  · rintro ⟨entries', text, hfields, htext, hread, hcounted⟩
    refine ⟨entries', text, hfields, ?_, hread, hcounted⟩
    rw [get_append] at htext
    cases hfront : TagMap.get entries' 10 with
    | none =>
        rw [hfront, Option.none_or, get_cons, if_pos rfl] at htext
        cases htext
        rw [h.declared_digits] at hread
        exact absurd (Int.ofNat.inj hread) hother
    | some value =>
        rw [hfront] at htext
        exact htext
  · rintro ⟨entries', value, hfields, htext, hread, hcounted⟩
    exact ⟨entries', value, hfields, get_append_of_some htext _, hread, hcounted⟩

section Place

variable {a b : List UInt8} {before after : List (List UInt8)}

theorem terminated_inside (before after : List (List UInt8)) (a b : List UInt8) (x : UInt8) :
    terminated soh (before ++ (a ++ x :: b) :: after) =
      terminated soh before ++ a ++ x :: (b ++ soh :: terminated soh after) := by
  simp [terminated_append, terminated_cons]

theorem Regular.around {field : List UInt8}
    (h : Regular raw entries (before ++ field :: after) digits) :
    exists front entry back, entries = front ++ entry :: back ∧
      parseFields before = .ok front ∧ parseField field = .ok entry ∧
      parseFields after = .ok back ∧ TagMap.get front 10 = none ∧ entry.1 ≠ 10 ∧
      TagMap.get back 10 = none := by
  rcases parseFields_append.mp (parseFields_iff.mpr h.lead_fields) with
    ⟨front, rest, rfl, hfront, hrest⟩
  rcases parseFields_cons.mp hrest with ⟨entry, back, rfl, hentry, hback⟩
  have hnone : forall part : TagMap, (forall field, field ∈ part -> field.1 ≠ 10) ->
      part.get 10 = none := by
    intro part hpart
    have hempty := get_append_of_ne hpart []
    rw [List.append_nil] at hempty
    exact hempty
  refine ⟨front, entry, back, rfl, hfront, hentry, hback, hnone front ?_, ?_, hnone back ?_⟩
  · exact fun field hfield => h.no_ten field (List.mem_append_left _ hfield)
  · exact h.no_ten entry (List.mem_append_right _ List.mem_cons_self)
  · exact fun field hfield =>
      h.no_ten field (List.mem_append_right _ (List.mem_cons_of_mem _ hfield))

theorem Regular.computeBodyLength_replaced {field first : List UInt8} {rest : List (List UInt8)}
    (h : Regular raw entries (before ++ field :: after) digits)
    (hfree : forall text, text ∈ first :: rest -> soh ∉ text)
    (hfirst : ascii "35=" <+: field <-> ascii "35=" <+: first)
    (hrest : forall text, text ∈ rest -> ¬ ascii "35=" <+: text)
    (hlength : (terminated soh [field]).length = (terminated soh (first :: rest)).length) :
    computeBodyLength (withChecksum (before ++ first :: rest ++ after) digits) =
      computeBodyLength raw := by
  have hraw : raw = withChecksum (before ++ field :: after) digits := h.accepted.text
  have hbefore : forall text, text ∈ before -> soh ∉ text :=
    fun text htext => h.lead_free text (List.mem_append_left _ htext)
  have hfield : forall text, text ∈ [field] -> soh ∉ text :=
    List.forall_mem_singleton.mpr (h.lead_free field (by simp))
  have hafter : forall text, text ∈ after -> soh ∉ text :=
    fun text htext => h.lead_free text (by simp [htext])
  have hblock := find_replace_block soh_free_thirtyFive hbefore hfield hfree hfirst
    (fun text htext => absurd htext List.not_mem_nil) hrest hlength
    (terminated soh (after ++ [ascii "10=" ++ digits]))
  have hsplit : before ++ field :: after = before ++ [field] ++ after :=
    List.append_cons before field after
  rw [hraw]
  refine computeBodyLength_congr ?_ ?_
  · rw [hsplit, withChecksum_append, withChecksum_append]
    exact hblock.symm
  · have hfree' : forall text, text ∈ before ++ first :: rest ++ after -> soh ∉ text :=
      List.forall_mem_append.mpr ⟨List.forall_mem_append.mpr ⟨hbefore, hfree⟩, hafter⟩
    rw [checksumEnd_withChecksum (by simp) hfree' h.digits_free,
      checksumEnd_withChecksum (by simp) h.lead_free h.digits_free, hsplit]
    simp only [terminated_append, List.length_append, hlength]

theorem Regular.inside_iff (h : Regular raw entries (before ++ (a ++ old :: b) :: after) digits)
    (hne : old ≠ c) (hc : c ≠ soh) :
    (exists map, parseValidated (withChecksum (before ++ (a ++ c :: b) :: after) digits) =
        .ok map) <->
      exists value, parseField (a ++ c :: b) = .ok (10, value) ∧
        declared int32 value = replacedSum digits old c := by
  rcases h.around with ⟨front, entry, back, rfl, hfront, hentry, hback, hnone, hten, hnone'⟩
  have hfield := not_mem_parts (h.lead_free (a ++ old :: b) (by simp))
  have hnew : soh ∉ a ++ c :: b := not_mem_join hfield.left hc hfield.right
  have hfree' : forall text, text ∈ before ++ (a ++ c :: b) :: after -> soh ∉ text := by
    intro text htext
    rcases List.mem_append.mp htext with hin | hin
    · exact h.lead_free text (List.mem_append_left _ hin)
    · rcases List.mem_cons.mp hin with rfl | hin
      · exact hnew
      · exact h.lead_free text (by simp [hin])
  rw [h.accepted_forged_iff (by simp) hfree' hne (terminated_inside before after a b old)
    (terminated_inside before after a b c)]
  constructor
  · rintro ⟨entries', value, hfields, htext, hread, -⟩
    rcases parseFields_append.mp hfields with ⟨front', rest, rfl, hfront', hrest⟩
    rcases parseFields_cons.mp hrest with ⟨entry', back', rfl, hentry', hback'⟩
    rw [hfront] at hfront'
    cases hfront'
    rw [hback] at hback'
    cases hback'
    rw [get_append, hnone, Option.none_or, get_cons, hnone'] at htext
    split at htext
    · next htag =>
        cases htext
        refine ⟨entry'.2, ?_, hread⟩
        rw [hentry', ← htag]
    · cases htext
  · rintro ⟨value, hparse, hread⟩
    have htags := tag_of_relabelled hentry hparse hten
    refine ⟨front ++ (10, value) :: back, value, ?_, ?_, hread, ?_⟩
    · exact parseFields_append.mpr ⟨front, (10, value) :: back, rfl, hfront,
        parseFields_cons.mpr ⟨_, back, rfl, hparse, hback⟩⟩
    · rw [get_append, hnone, Option.none_or, get_cons, if_pos rfl]
    · rcases h.counted with ⟨length, hnine, hlength⟩
      refine ⟨length, ?_, ?_⟩
      · rw [get_nine_last, get_append, get_cons, if_neg htags.left] at hnine
        rw [get_nine_last, get_append, get_cons, if_neg (by simp)]
        exact hnine
      · have hone : forall text, text ∈ [a ++ c :: b] -> soh ∉ text :=
          List.forall_mem_singleton.mpr hnew
        have hbody := h.computeBodyLength_replaced hone ?_ (List.forall_mem_nil _)
          (by simp [terminated_cons])
        · rw [List.append_assoc] at hbody
          rw [hlength, ← hbody]
          rfl
        · constructor
          · exact fun hstarts => absurd (tag_of_starts_thirtyFive hstarts hentry) htags.right
          · intro hstarts
            have htag := tag_of_starts_thirtyFive hstarts hparse
            cases htag

theorem terminated_cut (before after : List (List UInt8)) (a b : List UInt8) :
    terminated soh (before ++ a :: b :: after) =
      terminated soh before ++ a ++ soh :: (b ++ soh :: terminated soh after) := by
  simp [terminated_append, terminated_cons]

theorem declaredLength_eq {front : TagMap} {field : List UInt8} {entry : Field}
    (hfront : parseFields before = .ok front) (hentry : parseField field = .ok entry) :
    declaredLength (before ++ [field]) =
      (TagMap.get (front ++ [entry]) 9).map (declared int64) := by
  have hfields : parseFields (before ++ [field]) = .ok (front ++ [entry]) :=
    parseFields_append.mpr ⟨front, [entry], rfl, hfront,
      parseFields_cons.mpr ⟨entry, [], rfl, hentry, rfl⟩⟩
  unfold declaredLength
  rw [hfields]

/-- Another value in one field keeps the BodyLength exactly if the fields up to it declare it. -/
theorem counted_value_iff {front back back' : TagMap} {tag n : Int} {value value' : List UInt8}
    (hback : TagMap.get back' 9 = TagMap.get back 9)
    (h : exists length, TagMap.get (front ++ (tag, value) :: back) 9 = some length ∧
      declared int64 length = n) :
    (exists length, TagMap.get (front ++ (tag, value') :: back') 9 = some length ∧
        declared int64 length = n) <->
      (TagMap.get (front ++ [(tag, value')]) 9).map (declared int64) =
        (TagMap.get (front ++ [(tag, value)]) 9).map (declared int64) := by
  simp only [get_append, get_cons, hback] at h ⊢
  cases hfront : TagMap.get front 9 with
  | some length =>
      rw [hfront] at h
      exact ⟨fun _ => rfl, fun _ => h⟩
  | none =>
      rw [hfront] at h
      by_cases htag : tag = 9
      · simp only [htag, if_true, Option.none_or, Option.some.injEq, exists_eq_left',
          Option.map_some] at h ⊢
        rw [h]
      · simp only [htag, if_false, Option.none_or] at h ⊢
        exact ⟨fun _ => trivial, fun _ => h⟩

/-- Behind a cut the body is as long as before, so only what the fields declare can differ. -/
theorem Regular.counted_cut_iff {front back : TagMap} {tag : Int} {whole part value : List UInt8}
    (h : Regular raw (front ++ (tag, whole) :: back) (before ++ (a ++ old :: b) :: after) digits)
    (hfront : parseFields before = .ok front)
    (hentry : parseField (a ++ old :: b) = .ok (tag, whole))
    (hpart : parseField a = .ok (tag, part)) (hsecond : parseField b = .ok (10, value)) :
    Counted (withChecksum (before ++ a :: b :: after) digits)
        (front ++ (tag, part) :: (10, value) :: back ++ [(10, digits)]) <->
      declaredLength (before ++ [a]) = declaredLength (before ++ [a ++ old :: b]) := by
  have hfield := not_mem_parts (h.lead_free (a ++ old :: b) (by simp))
  have hbody : computeBodyLength (withChecksum (before ++ a :: b :: after) digits) =
      computeBodyLength raw := by
    have hblock := h.computeBodyLength_replaced
      (List.forall_mem_cons.mpr ⟨hfield.left, List.forall_mem_singleton.mpr hfield.right⟩)
      (starts_append_iff (show equals ∉ ascii "35" by decide) (equals_mem hpart)) ?_
      (by simp [terminated_cons])
    · rw [List.append_assoc] at hblock
      exact hblock
    · refine List.forall_mem_singleton.mpr fun hstarts => ?_
      have htag := tag_of_starts_thirtyFive hstarts hsecond
      cases htag
  rw [declaredLength_eq hfront hpart, declaredLength_eq hfront hentry]
  have hold := h.counted
  unfold Counted at hold ⊢
  rw [hbody]
  rw [List.append_assoc] at hold ⊢
  refine counted_value_iff ?_ hold
  exact (get_cons _ _ _).trans (if_neg (by simp))

theorem Regular.cut_iff (h : Regular raw entries (before ++ (a ++ old :: b) :: after) digits)
    (hne : old ≠ soh) :
    (exists map, parseValidated (withChecksum (before ++ a :: b :: after) digits) = .ok map) <->
      equals ∈ a ∧ exists value, parseField b = .ok (10, value) ∧
        declared int32 value = replacedSum digits old soh ∧
        declaredLength (before ++ [a]) = declaredLength (before ++ [a ++ old :: b]) := by
  rcases h.around with
    ⟨front, ⟨tag, whole⟩, back, rfl, hfront, hentry, hback, hnone, hten, hnone'⟩
  have hfield := not_mem_parts (h.lead_free (a ++ old :: b) (by simp))
  have hfree' : forall text, text ∈ before ++ a :: b :: after -> soh ∉ text := by
    intro text htext
    rcases List.mem_append.mp htext with hin | hin
    · exact h.lead_free text (List.mem_append_left _ hin)
    · rcases List.mem_cons.mp hin with rfl | hin
      · exact hfield.left
      · rcases List.mem_cons.mp hin with rfl | hin
        · exact hfield.right
        · exact h.lead_free text (by simp [hin])
  rw [h.accepted_forged_iff (by simp) hfree' hne (terminated_inside before after a b old)
    (terminated_cut before after a b)]
  constructor
  · rintro ⟨entries', value, hfields, htext, hread, hright⟩
    rcases parseFields_append.mp hfields with ⟨front', rest, rfl, hfront', hrest⟩
    rcases parseFields_cons.mp hrest with ⟨first, rest', rfl, hfirst, hrest'⟩
    rcases parseFields_cons.mp hrest' with ⟨⟨tag', value'⟩, back', rfl, hsecond, hback'⟩
    rw [hfront] at hfront'
    cases hfront'
    rw [hback] at hback'
    cases hback'
    have hequals := equals_mem hfirst
    rcases parseField_cut hentry hequals with ⟨part, hpart, -⟩
    rw [hpart] at hfirst
    cases hfirst
    rw [get_append, hnone, Option.none_or, get_cons, if_neg hten, get_cons, hnone'] at htext
    split at htext
    · next htag =>
        cases htext
        replace htag : tag' = 10 := htag
        subst htag
        exact ⟨hequals, value', hsecond, hread,
          (h.counted_cut_iff hfront hentry hpart hsecond).mp hright⟩
    · cases htext
  · rintro ⟨hequals, value, hsecond, hread, hlength⟩
    rcases parseField_cut hentry hequals with ⟨part, hpart, -⟩
    refine ⟨front ++ (tag, part) :: (10, value) :: back, value, ?_, ?_, hread,
      (h.counted_cut_iff hfront hentry hpart hsecond).mpr hlength⟩
    · exact parseFields_append.mpr ⟨front, _, rfl, hfront, parseFields_cons.mpr
        ⟨_, _, rfl, hpart, parseFields_cons.mpr ⟨_, back, rfl, hsecond, hback⟩⟩⟩
    · rw [get_append, hnone, Option.none_or, get_cons, if_neg hten, get_cons, if_pos rfl]

theorem Regular.set_inside
    (h : Regular raw entries (before ++ (a ++ old :: b) :: after) digits) (c : UInt8) :
    raw.set ((terminated soh before).length + a.length) c =
      terminated soh before ++ a ++
        c :: (b ++ soh :: terminated soh (after ++ [ascii "10=" ++ digits])) := by
  have hraw := h.accepted.text
  rw [List.append_assoc, List.cons_append, terminated_inside] at hraw
  rw [hraw, ← List.length_append, set_split]

theorem Forged.accepted (h : Regular raw entries lead digits) {i : Nat} (hne : old ≠ c)
    (hforged : Forged raw digits i old c) :
    exists map, parseValidated (raw.set i c) = .ok map := by
  rcases hforged with ⟨before, a, b, after, value, htexts, hafter, rfl, hread, hhow⟩
  rw [h.accepted.fieldTexts_eq] at htexts
  -- The field is not the last one.
  rcases List.eq_nil_or_concat after with hnil | ⟨after, last, rfl⟩
  · exact absurd hnil hafter
  rw [List.concat_eq_append, ← List.cons_append, ← List.append_assoc] at htexts
  rcases List.append_inj' htexts rfl with ⟨rfl, -⟩
  rw [h.set_inside]
  rcases hhow with ⟨hc, hparse⟩ | ⟨rfl, hequals, hparse, hlength⟩
  · have haccepted := (h.inside_iff hne hc).mpr ⟨value, hparse, hread⟩
    rw [withChecksum, List.append_assoc, List.cons_append, terminated_inside] at haccepted
    exact haccepted
  · have haccepted := (h.cut_iff hne).mpr ⟨hequals, value, hparse, hread, hlength⟩
    rw [withChecksum, List.append_assoc, List.cons_append, List.cons_append, terminated_cut]
      at haccepted
    exact haccepted

end Place

end Regular

/-!
## One byte of an accepted message
-/

namespace ZeroChecksum

def fields : List (List UInt8) :=
  [ascii "8=FIX.4.2", ascii "9=37", ascii "35=D", ascii "11=49999", ascii "55=MINI", ascii "54=1",
    ascii "38=5", ascii "40=1"]

def order : List UInt8 :=
  withChecksum fields (ascii "000")

def orderMap (checksum : String) : TagMap :=
  [(8, ascii "FIX.4.2"), (9, ascii "37"), (35, ascii "D"), (11, ascii "49999"), (55, ascii "MINI"),
    (54, ascii "1"), (38, ascii "5"), (40, ascii "1"), (10, ascii checksum)]

end ZeroChecksum

end Fix
end MiniExchange
