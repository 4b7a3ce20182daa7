import MiniExchange.Fix.Encoder
import MiniExchange.Fix.Envelope
import MiniExchange.Fix.Parser

/-!
# FIX round trips

What the encoder frames is accepted by the validator and read back field by
field.  A `std::string` has fewer than 2^63 bytes, so the length of a body is
printed and read back as a `long`.
-/

namespace MiniExchange
namespace Fix

open Foundation
open Foundation.Decimal (fromChars int32 int64 uint64)
open Foundation.Delimited
open TextProtocol (ascii decimal signedDecimal)

/-!
## Printed fields
-/

def fieldText (field : Field) : List UInt8 :=
  signedDecimal field.1 ++ equals :: field.2

theorem signedDecimal_eq (n : Int) : signedDecimal n = Decimal.signedDigits n := rfl

theorem appendFields_eq (fields : List Field) :
    appendFields fields = terminated soh (fields.map fieldText) := by
  have hfold : forall out : List UInt8,
      fields.foldl appendField out = out ++ terminated soh (fields.map fieldText) := by
    induction fields with
    | nil => simp
    | cons field fields ih =>
        intro out
        rw [List.foldl_cons, ih, List.map_cons, terminated_cons]
        simp [appendField, fieldText]
  exact hfold []

theorem not_mem_signedDecimal {c : UInt8} (hminus : c ≠ Decimal.minus)
    (hdigit : Decimal.isDigit c = false) (n : Int) : c ∉ signedDecimal n := by
  intro hmem
  rcases Decimal.mem_signedDigits (signedDecimal_eq n ▸ hmem) with h | h
  · exact hminus h
  · rw [hdigit] at h
    cases h

theorem soh_not_mem_decimal (n : Nat) : soh ∉ decimal n :=
  soh_not_mem_digits fun _ hd => Decimal.isDigit_of_mem_digits hd

theorem soh_not_mem_fieldText {field : Field} (h : soh ∉ field.2) : soh ∉ fieldText field :=
  not_mem_join (not_mem_signedDecimal (by decide) (by decide) _) (by decide) h

theorem parseField_fieldText {field : Field} (h : int32.Holds field.1) :
    parseField (fieldText field) = .ok field := by
  refine parseField_of (not_mem_signedDecimal (by decide) (by decide) _) ?_ field.2
  rw [signedDecimal_eq]
  exact Decimal.fromChars_signedDigits rfl h

theorem parseFields_fieldText {fields : List Field}
    (h : forall field, field ∈ fields -> int32.Holds field.1) :
    List.Forall₂ (fun text entry => parseField text = .ok entry)
      (fields.map fieldText) fields := by
  induction fields with
  | nil => exact List.Forall₂.nil
  | cons field fields ih =>
      exact List.Forall₂.cons (parseField_fieldText (h field List.mem_cons_self))
        (ih fun other hother => h other (List.mem_cons_of_mem _ hother))

/-!
## The envelope
-/

theorem declared_decimal {n : Nat} (h : n < 2 ^ 63) : declared int64 (decimal n) = n := by
  have hholds : int64.Holds (n : Int) := by
    refine ⟨?_, ?_⟩
    · show (-2 ^ 63 : Int) <= n
      omega
    · show (n : Int) <= 2 ^ 63 - 1
      omega
  unfold declared
  rw [show fromChars int64 (decimal n) = some ((n : Int), []) from
    Decimal.fromChars_printed hholds]

theorem declared_threeDigits (c : UInt8) :
    declared int32 (Decimal.threeDigits c.toNat) = c.toNat := by
  have hread : fromChars int32 (Decimal.threeDigits c.toNat) =
      some ((Decimal.value (Decimal.threeDigits c.toNat) : Int), []) := by
    refine Decimal.fromChars_all (Decimal.threeDigits_ne_nil _)
      (fun d hd => Decimal.isDigit_of_mem_padded hd) ?_
    rw [Decimal.value_threeDigits]
    have hbound := c.toNat_lt
    refine ⟨?_, ?_⟩
    · show (-2 ^ 31 : Int) <= c.toNat
      omega
    · show (c.toNat : Int) <= 2 ^ 31 - 1
      omega
  unfold declared
  rw [hread, Decimal.value_threeDigits]

/-- What `frame` puts in front of a body. -/
def header (bodyLength : Nat) : List Field :=
  [(8, beginString), (9, decimal bodyLength)]

def covered (fields : List Field) : List Field :=
  header (appendFields fields).length ++ fields

def trailer (fields : List Field) : Field :=
  (10, Decimal.threeDigits (computeChecksum (appendFields (covered fields))).toNat)

def framed (fields : List Field) : List Field :=
  covered fields ++ [trailer fields]

theorem appendFields_append (front back : List Field) :
    appendFields (front ++ back) = appendFields front ++ appendFields back := by
  rw [appendFields_eq, appendFields_eq, appendFields_eq, List.map_append, terminated_append]

theorem frame_eq (fields : List Field) :
    frame (appendFields fields) = terminated soh ((framed fields).map fieldText) := by
  have hlast : forall (out : List UInt8) (field : Field),
      appendField out field = out ++ appendFields [field] := by
    intro out field
    simp [appendFields, appendField]
  rw [← appendFields_eq]
  unfold frame framed trailer covered header
  dsimp only
  rw [hlast, appendFields_append, appendFields_append]

theorem fieldText_eq {tag : Int} {text : List UInt8} (h : signedDecimal tag ++ [equals] = text)
    (value : List UInt8) : fieldText (tag, value) = text ++ value := by
  rw [← h, List.append_assoc]
  rfl

theorem starts_ten (value : List UInt8) : ascii "10=" <+: fieldText (10, value) := by
  rw [fieldText_eq (show _ = ascii "10=" by decide)]
  exact List.prefix_append _ _

theorem starts_thirtyFive (value : List UInt8) : ascii "35=" <+: fieldText (35, value) := by
  rw [fieldText_eq (show _ = ascii "35=" by decide)]
  exact List.prefix_append _ _

theorem not_starts_thirtyFive (value : List UInt8) : ¬ ascii "35=" <+: fieldText (9, value) := by
  rw [fieldText_eq (show _ = [57, 61] by decide)]
  rintro ⟨more, hmore⟩
  have hhead : some (51 : UInt8) = some 57 := congrArg List.head? hmore
  exact absurd hhead (by decide)

section Envelope

variable {fields : List Field}

theorem texts_framed (fields : List Field) :
    (framed fields).map fieldText =
      (covered fields).map fieldText ++ fieldText (trailer fields) :: [] := by
  rw [framed, List.map_append]
  rfl

theorem mem_framed {field : Field} (h : field ∈ framed fields) :
    field ∈ fields ∨ field = (8, beginString) ∨
      (exists n, field = (9, decimal n)) ∨ exists n, field = (10, Decimal.threeDigits n) := by
  simp only [framed, covered, header, trailer, List.mem_append, List.mem_cons,
    List.not_mem_nil, or_false] at h
  rcases h with ((h | h) | h) | h
  · exact Or.inr (Or.inl h)
  · exact Or.inr (Or.inr (Or.inl ⟨_, h⟩))
  · exact Or.inl h
  · exact Or.inr (Or.inr (Or.inr ⟨_, h⟩))

theorem framed_holds (h : forall field, field ∈ fields -> int32.Holds field.1) :
    forall field, field ∈ framed fields -> int32.Holds field.1 := by
  intro field hfield
  rcases mem_framed hfield with hin | rfl | ⟨n, rfl⟩ | ⟨n, rfl⟩
  · exact h field hin
  · decide
  · show int32.Holds 9
    decide
  · show int32.Holds 10
    decide

theorem framed_free (h : forall field, field ∈ fields -> soh ∉ field.2) :
    forall text, text ∈ (framed fields).map fieldText -> soh ∉ text := by
  intro text htext
  rcases List.mem_map.mp htext with ⟨field, hfield, rfl⟩
  refine soh_not_mem_fieldText ?_
  rcases mem_framed hfield with hin | rfl | ⟨n, rfl⟩ | ⟨n, rfl⟩
  · exact h field hin
  · decide
  · exact soh_not_mem_decimal n
  · exact soh_not_mem_digits fun _ hd => Decimal.isDigit_of_mem_padded hd

theorem get_ten_framed (h : forall field, field ∈ fields -> field.1 ≠ 10) :
    TagMap.get (framed fields) 10 = some (trailer fields).2 := by
  have hcovered : forall field, field ∈ covered fields -> field.1 ≠ 10 := by
    intro field hfield
    simp only [covered, header, List.mem_append, List.mem_cons, List.not_mem_nil,
      or_false] at hfield
    rcases hfield with (rfl | rfl) | hin
    · decide
    · show (9 : Int) ≠ 10
      decide
    · exact h field hin
  unfold framed
  rw [get_append_of_ne hcovered, get_cons]
  exact if_pos rfl

theorem get_nine_framed (fields : List Field) :
    TagMap.get (framed fields) 9 = some (decimal (appendFields fields).length) := by
  unfold framed covered header
  rw [List.cons_append, List.cons_append, List.cons_append, List.cons_append, get_cons, get_cons]
  rfl

theorem computeBodyLength_frame (hfree : forall field, field ∈ fields -> soh ∉ field.2)
    (hfirst : fields.head?.map Prod.fst = some 35) :
    computeBodyLength (frame (appendFields fields)) = (appendFields fields).length := by
  have htexts := texts_framed fields
  have hclean := framed_free hfree
  rw [frame_eq, appendFields_eq fields]
  cases fields with
  | nil => cases hfirst
  | cons field rest =>
      rcases field with ⟨tag, msgType⟩
      have htag : tag = 35 := Option.some.inj hfirst
      subst htag
      rw [htexts] at hclean ⊢
      unfold covered header at hclean ⊢
      rw [List.map_append, List.map_cons (l := rest)] at hclean ⊢
      have hrange := bodyRange_of hclean (by simp) (starts_thirtyFive msgType)
        (by simpa using not_starts_thirtyFive _) (starts_ten _) (by simp)
      unfold computeBodyLength
      rw [hrange]
      dsimp only
      rw [terminated_append, List.length_append]
      omega

theorem parseValidated_frame (htags : forall field, field ∈ fields -> int32.Holds field.1)
    (hfirst : fields.head?.map Prod.fst = some 35)
    (hten : forall field, field ∈ fields -> field.1 ≠ 10)
    (hfree : forall field, field ∈ fields -> soh ∉ field.2)
    (hsize : (appendFields fields).length < 2 ^ 63) :
    parseValidated (frame (appendFields fields)) = .ok (framed fields) := by
  have haccepted : Accepted (frame (appendFields fields)) (framed fields)
      ((covered fields).map fieldText) (fieldText (trailer fields)) [] := by
    refine ⟨?_, ?_, ?_, ?_, starts_ten _, ?_, ⟨_, get_ten_framed hten, ?_⟩,
      ⟨_, get_nine_framed fields, ?_⟩⟩
    · rw [frame_eq, texts_framed]
    · rw [← texts_framed]
      exact framed_free hfree
    · rw [← texts_framed]
      exact parseFields_fieldText (framed_holds htags)
    · simp [covered, header]
    · simp
    · rw [← appendFields_eq]
      exact declared_threeDigits _
    · rw [computeBodyLength_frame hfree hfirst]
      exact declared_decimal hsize
  exact haccepted.parseValidated

end Envelope

/-!
## Execution reports
-/

structure Clean (field : Field) : Prop where
  holds : int32.Holds field.1
  not_envelope : field.1 ≠ 8 ∧ field.1 ≠ 9 ∧ field.1 ≠ 10
  free : soh ∉ field.2

theorem clean_of {tag : Int} {value : List UInt8}
    (htag : int32.Holds tag ∧ tag ≠ 8 ∧ tag ≠ 9 ∧ tag ≠ 10) (hvalue : soh ∉ value) :
    Clean (tag, value) :=
  ⟨htag.left, htag.right, hvalue⟩

theorem soh_not_mem_twoDigits (n : Nat) : soh ∉ twoDigits n :=
  soh_not_mem_digits fun _ hd => Decimal.isDigit_of_mem_padded hd

theorem soh_not_mem_sendingTime (now : UtcTime) : soh ∉ sendingTime now := by
  have hyear : soh ∉ signedDecimal now.year :=
    not_mem_signedDecimal (by decide) (by decide) now.year
  have hminus : soh ∉ ascii "-" := by decide
  have hcolon : soh ∉ ascii ":" := by decide
  simp [sendingTime, hyear, hminus, hcolon, soh_not_mem_twoDigits]

theorem soh_not_mem_status (status : OrdStatus) : soh ∉ status.text := by
  cases status <;> decide

theorem soh_not_mem_side (side : Side) : soh ∉ FixEncoder.sideText side := by
  cases side <;> decide

theorem clean_reportFields {encoder : FixEncoder} (hsender : soh ∉ encoder.senderCompId)
    (htarget : soh ∉ encoder.targetCompId) (now : UtcTime) (ctx : ExecReportContext)
    (response : EngineResponse) :
    forall field, field ∈ encoder.reportFields now ctx response -> Clean field := by
  simp only [FixEncoder.reportFields, List.forall_mem_cons]
  exact ⟨clean_of (by decide) (by decide), clean_of (by decide) hsender,
    clean_of (by decide) htarget, clean_of (by decide) (soh_not_mem_decimal _),
    clean_of (by decide) (soh_not_mem_sendingTime now),
    clean_of (by decide) (soh_not_mem_decimal _), clean_of (by decide) (soh_not_mem_decimal _),
    clean_of (by decide) (soh_not_mem_decimal _), clean_of (by decide) (soh_not_mem_status _),
    clean_of (by decide) (soh_not_mem_status _), clean_of (by decide) (soh_not_mem_side _),
    clean_of (by decide) (by decide), clean_of (by decide) (soh_not_mem_decimal _),
    clean_of (by decide) (soh_not_mem_decimal _), fun _ h => absurd h List.not_mem_nil⟩

theorem parseValidated_report {encoder : FixEncoder} (hsender : soh ∉ encoder.senderCompId)
    (htarget : soh ∉ encoder.targetCompId) (now : UtcTime) (ctx : ExecReportContext)
    (response : EngineResponse)
    (hsize : (appendFields (encoder.reportFields now ctx response)).length < 2 ^ 63) :
    parseValidated (encoder.encodeExecutionReport now ctx response).1 =
      .ok (framed (encoder.reportFields now ctx response)) := by
  have hclean := clean_reportFields hsender htarget now ctx response
  exact parseValidated_frame (fun field hfield => (hclean field hfield).holds) rfl
    (fun field hfield => (hclean field hfield).not_envelope.right.right)
    (fun field hfield => (hclean field hfield).free) hsize

/-!
## New orders
-/

/-- The fields of a `35=D` message behind its MsgType. -/
def orderFields : NewOrder -> List Field
  | .limit order =>
      [(11, decimal order.id.value.toNat), (55, supportedSymbol),
        (54, FixEncoder.sideText order.side), (40, ascii "2"),
        (44, signedDecimal order.price.value.toInt), (38, decimal order.quantity.units)]
  | .market order =>
      [(11, decimal order.id.value.toNat), (55, supportedSymbol),
        (54, FixEncoder.sideText order.side), (40, ascii "1"),
        (38, decimal order.quantity.units)]

def ownedBy (owner : ClientId) : NewOrder -> NewOrder
  | .limit order => .limit { order with owner := owner }
  | .market order => .market { order with owner := owner }

theorem clean_orderFields (order : NewOrder) :
    forall field, field ∈ orderFields order -> Clean field := by
  cases order with
  | limit order =>
      simp only [orderFields, List.forall_mem_cons]
      exact ⟨clean_of (by decide) (soh_not_mem_decimal _), clean_of (by decide) (by decide),
        clean_of (by decide) (soh_not_mem_side _), clean_of (by decide) (by decide),
        clean_of (by decide) (not_mem_signedDecimal (by decide) (by decide) _),
        clean_of (by decide) (soh_not_mem_decimal _), fun _ h => absurd h List.not_mem_nil⟩
  | market order =>
      simp only [orderFields, List.forall_mem_cons]
      exact ⟨clean_of (by decide) (soh_not_mem_decimal _), clean_of (by decide) (by decide),
        clean_of (by decide) (soh_not_mem_side _), clean_of (by decide) (by decide),
        clean_of (by decide) (soh_not_mem_decimal _), fun _ h => absurd h List.not_mem_nil⟩

theorem tags_orderFields (order : NewOrder) :
    ((35 : Int) :: (orderFields order).map Prod.fst).Nodup := by
  cases order with
  | limit order =>
      show [(35 : Int), 11, 55, 54, 40, 44, 38].Nodup
      decide
  | market order =>
      show [(35 : Int), 11, 55, 54, 40, 38].Nodup
      decide

theorem get_framed {fields : List Field} (hnodup : (fields.map Prod.fst).Nodup) {field : Field}
    (h : field ∈ fields) (height : field.1 ≠ 8) (hnine : field.1 ≠ 9) :
    TagMap.get (framed fields) field.1 = some field.2 := by
  have hheader : forall other, other ∈ header (appendFields fields).length ->
      other.1 ≠ field.1 := by
    simp only [header, List.forall_mem_cons]
    exact ⟨Ne.symm height, Ne.symm hnine, fun _ hother => absurd hother List.not_mem_nil⟩
  unfold framed covered
  rw [List.append_assoc, get_append_of_ne hheader]
  exact get_append_of_some (get_of_mem hnodup h) _

theorem parseUint64Field_decimal {map : TagMap} {tag : Int} {n : UInt64}
    (h : map.get tag = some (decimal n.toNat)) : parseUint64Field map tag = some n := by
  have hholds : uint64.Holds (n.toNat : Int) := by
    have hbound := n.toNat_lt
    refine ⟨?_, ?_⟩
    · show (0 : Int) <= n.toNat
      omega
    · show (n.toNat : Int) <= 2 ^ 64 - 1
      omega
  have hread : fromChars uint64 (decimal n.toNat) = some ((n.toNat : Int), []) :=
    Decimal.fromChars_printed hholds
  have hne : decimal n.toNat ≠ [] := Decimal.digits_ne_nil _
  unfold parseUint64Field parseNumberField
  rw [h]
  dsimp only
  rw [if_neg hne, hread]
  simp

theorem parseInt64Field_signedDecimal {map : TagMap} {tag : Int} {n : Int64}
    (h : map.get tag = some (signedDecimal n.toInt)) : parseInt64Field map tag = some n := by
  have hholds : int64.Holds n.toInt := by
    have hlow := n.le_toInt
    have hhigh := n.toInt_lt
    refine ⟨?_, ?_⟩
    · show (-2 ^ 63 : Int) <= n.toInt
      omega
    · show n.toInt <= 2 ^ 63 - 1
      omega
  have hread : fromChars int64 (signedDecimal n.toInt) = some (n.toInt, []) :=
    Decimal.fromChars_signedDigits rfl hholds
  have hne : signedDecimal n.toInt ≠ [] := by
    intro hnil
    rw [hnil] at hread
    cases hread
  unfold parseInt64Field parseNumberField
  rw [h]
  dsimp only
  rw [if_neg hne, hread]
  simp

theorem parseSide_sideText (side : Side) :
    parseSide (FixEncoder.sideText side) = .ok side := by
  cases side <;> decide

theorem parseNewOrderSingle_eq {map : TagMap} (owner : ClientId) {id quantity : UInt64}
    {side : Side} {ordType : List UInt8} (hid : map.get 11 = some (decimal id.toNat))
    (hsymbol : map.get 55 = some supportedSymbol)
    (hside : map.get 54 = some (FixEncoder.sideText side))
    (hquantity : map.get 38 = some (decimal quantity.toNat)) (hpos : quantity ≠ 0)
    (hordType : map.get 40 = some ordType) :
    parseNewOrderSingle map owner = parseByOrdType map owner ⟨id⟩ side ⟨quantity⟩ ordType := by
  have hfilter : (some quantity).filter (· ≠ 0) = some quantity := by
    simp [Option.filter, hpos]
  unfold parseNewOrderSingle
  rw [parseUint64Field_decimal hid, hsymbol, hside, parseUint64Field_decimal hquantity, hordType,
    hfilter]
  simp only [orFail, check, ok_bind, decide_true, if_true, parseSide_sideText]

theorem parse_orderFields {map : TagMap} {order : NewOrder} (owner : ClientId)
    (hmsgType : map.get 35 = some (ascii "D"))
    (hfields : forall field, field ∈ orderFields order -> map.get field.1 = some field.2)
    (hpos : order.quantity.value ≠ 0) :
    parse map owner = .ok (.newOrder (ownedBy owner order)) := by
  have hparse : parse map owner = parseNewOrderSingle map owner := by
    unfold parse
    rw [hmsgType]
    rfl
  rw [hparse]
  cases order with
  | limit order =>
      simp only [orderFields, List.forall_mem_cons] at hfields
      rcases hfields with ⟨hid, hsymbol, hside, htype, hprice, hquantity, -⟩
      rw [parseNewOrderSingle_eq owner hid hsymbol hside hquantity hpos htype]
      unfold parseByOrdType
      rw [parseInt64Field_signedDecimal hprice]
      rfl
  | market order =>
      simp only [orderFields, List.forall_mem_cons] at hfields
      rcases hfields with ⟨hid, hsymbol, hside, htype, hquantity, -⟩
      rw [parseNewOrderSingle_eq owner hid hsymbol hside hquantity hpos htype]
      rfl

/-!
## The size of an order message
-/

theorem length_terminated_le {texts : List (List UInt8)} {bound : Nat}
    (h : forall text, text ∈ texts -> text.length <= bound) :
    (terminated soh texts).length <= texts.length * (bound + 1) := by
  induction texts with
  | nil => simp
  | cons text texts ih =>
      have hfirst := h text List.mem_cons_self
      have hrest := ih fun other hother => h other (List.mem_cons_of_mem _ hother)
      rw [terminated_cons, List.length_append, List.length_cons, List.length_cons, Nat.succ_mul]
      omega

theorem length_decimal (n : UInt64) : (decimal n.toNat).length <= 20 :=
  TextProtocol.length_decimal_le n.toNat_lt

theorem length_signedDecimal (n : Int64) : (signedDecimal n.toInt).length <= 21 := by
  have hlow := n.le_toInt
  have hhigh := n.toInt_lt
  have hdigits : (decimal n.toInt.natAbs).length <= 20 :=
    TextProtocol.length_decimal_le (by omega)
  unfold signedDecimal
  split
  · rw [List.length_append]
    have hsign : (ascii "-").length = 1 := by decide
    omega
  · omega

theorem length_fieldText {tag : Int} {value : List UInt8}
    (htag : (signedDecimal tag).length = 2) (hvalue : value.length <= 21) :
    (fieldText (tag, value)).length <= 24 := by
  unfold fieldText
  rw [List.length_append, List.length_cons, htag]
  show 2 + (value.length + 1) <= 24
  omega

theorem length_side (side : Side) : (FixEncoder.sideText side).length <= 21 := by
  cases side <;> decide

theorem length_orderFields (order : NewOrder) :
    (orderFields order).length <= 6 ∧
      forall field, field ∈ orderFields order -> (fieldText field).length <= 24 := by
  cases order with
  | limit order =>
      refine ⟨Nat.le_refl 6, ?_⟩
      simp only [orderFields, List.forall_mem_cons]
      exact ⟨length_fieldText (by decide) (Nat.le_succ_of_le (length_decimal _)),
        length_fieldText (by decide) (by decide), length_fieldText (by decide) (length_side _),
        length_fieldText (by decide) (by decide),
        length_fieldText (by decide) (length_signedDecimal _),
        length_fieldText (by decide) (Nat.le_succ_of_le (length_decimal _)),
        fun _ h => absurd h List.not_mem_nil⟩
  | market order =>
      refine ⟨Nat.le_succ 5, ?_⟩
      simp only [orderFields, List.forall_mem_cons]
      exact ⟨length_fieldText (by decide) (Nat.le_succ_of_le (length_decimal _)),
        length_fieldText (by decide) (by decide), length_fieldText (by decide) (length_side _),
        length_fieldText (by decide) (by decide),
        length_fieldText (by decide) (Nat.le_succ_of_le (length_decimal _)),
        fun _ h => absurd h List.not_mem_nil⟩

theorem length_appendFields_order {order : NewOrder} {rest : List Field}
    (hperm : rest.Perm (orderFields order)) :
    (appendFields ((35, ascii "D") :: rest)).length < 2 ^ 63 := by
  rcases length_orderFields order with ⟨hcount, hshort⟩
  have hbound : forall text, text ∈ (((35, ascii "D") :: rest : List Field)).map fieldText ->
      text.length <= 24 := by
    rw [List.map_cons, List.forall_mem_cons]
    refine ⟨by decide, ?_⟩
    intro text htext
    rcases List.mem_map.mp htext with ⟨field, hfield, rfl⟩
    exact hshort field (hperm.mem_iff.mp hfield)
  have hlength := length_terminated_le hbound
  rw [List.length_map, List.length_cons, hperm.length_eq] at hlength
  rw [appendFields_eq]
  omega

/-- The fields of an order, in any order behind its MsgType, come back as the order. -/
theorem order_round_trip {order : NewOrder} (owner : ClientId)
    (hpos : order.quantity.value ≠ 0) {rest : List Field}
    (hperm : rest.Perm (orderFields order)) :
    exists map, parseValidated (frame (appendFields ((35, ascii "D") :: rest))) = .ok map ∧
      parse map owner = .ok (.newOrder (ownedBy owner order)) := by
  have hclean : forall field, field ∈ ((35, ascii "D") :: rest : List Field) -> Clean field := by
    rw [List.forall_mem_cons]
    exact ⟨clean_of (by decide) (by decide),
      fun field hfield => clean_orderFields order field (hperm.mem_iff.mp hfield)⟩
  have hnodup : (((35, ascii "D") :: rest : List Field).map Prod.fst).Nodup := by
    have htags := (hperm.map Prod.fst).cons 35
    exact htags.nodup_iff.mpr (tags_orderFields order)
  refine ⟨_, parseValidated_frame (fun field hfield => (hclean field hfield).holds) rfl
    (fun field hfield => (hclean field hfield).not_envelope.right.right)
    (fun field hfield => (hclean field hfield).free) (length_appendFields_order hperm), ?_⟩
  refine parse_orderFields owner ?_ ?_ hpos
  · exact get_framed hnodup List.mem_cons_self (by decide) (by decide)
  · intro field hfield
    have hother := (clean_orderFields order field hfield).not_envelope
    exact get_framed hnodup (List.mem_cons_of_mem _ (hperm.mem_iff.mpr hfield)) hother.left
      hother.right.left

/--
Framed fields are validated and come back between those of the envelope.  So
every execution report for comp ids without SOH is accepted, and the fields of
an order, in any order behind `35=D`, come back as that order with the given
owner.
-/
theorem fix_round_trips :
    (forall fields : List Field, (forall field, field ∈ fields -> int32.Holds field.1) ->
      fields.head?.map Prod.fst = some 35 ->
      (forall field, field ∈ fields -> field.1 ≠ 10) ->
      (forall field, field ∈ fields -> soh ∉ field.2) ->
      (appendFields fields).length < 2 ^ 63 ->
      parseValidated (frame (appendFields fields)) = .ok
        ([(8, ascii "FIX.4.2"), (9, decimal (appendFields fields).length)] ++ fields ++
          [(10, Decimal.threeDigits (computeChecksum
            (appendFields ([(8, ascii "FIX.4.2"), (9, decimal (appendFields fields).length)] ++
              fields))).toNat)])) ∧
    (forall (encoder : FixEncoder) (now : UtcTime) (ctx : ExecReportContext)
      (response : EngineResponse), soh ∉ encoder.senderCompId -> soh ∉ encoder.targetCompId ->
      (appendFields (encoder.reportFields now ctx response)).length < 2 ^ 63 ->
      exists map, parseValidated (encoder.encodeExecutionReport now ctx response).1 = .ok map) ∧
    (forall (order : NewOrder) (owner : ClientId) (rest : List Field),
      order.quantity.value ≠ 0 -> rest.Perm (orderFields order) ->
      exists map,
        parseValidated (frame (appendFields ((35, ascii "D") :: rest))) = .ok map ∧
        parse map owner = .ok (.newOrder (ownedBy owner order))) := by
  refine ⟨?_, ?_, ?_⟩
  · intro fields htags hfirst hten hfree hsize
    exact parseValidated_frame htags hfirst hten hfree hsize
  · intro encoder now ctx response hsender htarget hsize
    exact ⟨_, parseValidated_report hsender htarget now ctx response hsize⟩
  · intro order owner rest hpos hperm
    exact order_round_trip owner hpos hperm

def negativeSell : NewOrder :=
  .limit { id := ⟨1001⟩, side := .sell, price := ⟨-5⟩, quantity := ⟨77⟩ }

theorem fix_round_trips_negativeSell :
    exists map,
      parseValidated (frame (appendFields ((35, ascii "D") :: orderFields negativeSell))) =
        .ok map ∧
      parse map ⟨3⟩ = .ok (.newOrder (ownedBy ⟨3⟩ negativeSell)) :=
  fix_round_trips.right.right negativeSell ⟨3⟩ (orderFields negativeSell) (by decide)
    (List.Perm.refl _)

end Fix
end MiniExchange
