import MiniExchange.Foundation.Decimal
import MiniExchange.Foundation.Delimited
import MiniExchange.Protocol.TextProtocol

/-!
# FIX envelope

The mechanical layer of `adapters/fix/FixMessage.cpp`: a message is cut into
`tag=value` fields, each terminated by SOH, and its CheckSum and BodyLength are
compared with the bytes.  The bytes they cover are located by searches for the
texts `35=` and `10=` behind a SOH; the declared values come from the first
field with the tag.
-/

namespace MiniExchange
namespace Fix

open Foundation
open Foundation.Decimal (fromChars int32 int64)
open Foundation.Delimited
open TextProtocol (ascii)

def soh : UInt8 := 1

def equals : UInt8 := 61

inductive FixErrorReason where
  | checksumMismatch
  | bodyLengthMismatch
  | malformedField
  | emptyMessage
  | invalidClOrdIdFormat
  | unsupportedSymbol
  | invalidSide
  | unsupportedOrdType
  | missingPrice
  | invalidQuantity
  | unsupportedMessageType
  | missingRequiredTag
deriving DecidableEq, Repr

structure FixError where
  reason : FixErrorReason
  /-- The tag at fault, or -1. -/
  offendingTag : Int := -1
  detail : String
deriving DecidableEq, Repr

abbrev Field := Int × List UInt8

abbrev TagMap := List Field

def TagMap.get (map : TagMap) (tag : Int) : Option (List UInt8) :=
  (map.find? fun field => decide (field.1 = tag)).map Prod.snd

/-!
## Tokenizing
-/

def malformed (detail : String) : FixError where
  reason := .malformedField
  detail := detail

def parseField (field : List UInt8) : Except FixError Field :=
  if field = [] then .error (malformed "empty field (consecutive SOH)")
  else
    match find [equals] field with
    | none => .error (malformed "field missing '=' or empty tag")
    | some eq =>
        if eq = 0 then .error (malformed "field missing '=' or empty tag")
        else
          match fromChars int32 (field.take eq) with
          | some (tag, []) => .ok (tag, field.drop (eq + 1))
          | _ => .error (malformed "non-numeric tag")

def parseFields : List (List UInt8) -> Except FixError TagMap
  | [] => .ok []
  | field :: fields =>
      match parseField field with
      | .error e => .error e
      | .ok entry =>
          match parseFields fields with
          | .error e => .error e
          | .ok map => .ok (entry :: map)

def tokenize (raw : List UInt8) : Except FixError TagMap :=
  if raw = [] then
    .error { reason := .emptyMessage, detail := "empty FIX message" }
  else
    match parseFields (split soh raw).1 with
    | .error e => .error e
    | .ok map =>
        if (split soh raw).2 = [] then .ok map
        else .error (malformed "final field not SOH-terminated")

/-!
## Validation
-/

/-- The sum is a 32-bit `unsigned`. -/
def computeChecksum (bytes : List UInt8) : UInt8 :=
  (bytes.foldl (fun sum c => sum + c.toUInt32) (0 : UInt32) % 256).toUInt8

def bodyNeedle : List UInt8 := soh :: ascii "35="

def checksumNeedle : List UInt8 := soh :: ascii "10="

/-- The first and the last byte position, exclusive, that BodyLength counts. -/
def bodyRange (message : List UInt8) : Option (Nat × Nat) :=
  match find bodyNeedle message with
  | none => none
  | some bodyStart =>
      match rfind checksumNeedle message with
      | none => none
      | some cksumPos =>
          if cksumPos + 1 <= bodyStart + 1 then none
          else some (bodyStart + 1, cksumPos + 1)

def computeBodyLength (message : List UInt8) : Nat :=
  match bodyRange message with
  | none => 0
  | some (bodyStart, bodyEnd) => bodyEnd - bodyStart

/-- A declared number; the text behind it is not looked at. -/
def declared (type : Decimal.IntType) (text : List UInt8) : Int :=
  match fromChars type text with
  | some (number, _) => number
  | none => -1

def mismatch (reason : FixErrorReason) (tag declared : Int) (computed : Nat) : FixError where
  reason := reason
  offendingTag := tag
  detail := "declared=" ++ toString declared ++ " computed=" ++ toString computed

def missing (tag : Int) (detail : String) : FixError where
  reason := .missingRequiredTag
  offendingTag := tag
  detail := detail

def parseValidated (raw : List UInt8) : Except FixError TagMap :=
  match tokenize raw with
  | .error e => .error e
  | .ok map =>
      match rfind checksumNeedle raw, map.get 10 with
      | some cksumPos, some cksumField =>
          let computed := (computeChecksum (raw.take (cksumPos + 1))).toNat
          let declaredCksum := declared int32 cksumField
          if declaredCksum ≠ computed then
            .error (mismatch .checksumMismatch 10 declaredCksum computed)
          else
            match map.get 9 with
            | none => .error (missing 9 "missing BodyLength (tag 9)")
            | some blField =>
                let declaredBl := declared int64 blField
                let computedBl := computeBodyLength raw
                if declaredBl < 0 ∨ declaredBl.toNat ≠ computedBl then
                  .error
                    (mismatch .bodyLengthMismatch 9 declaredBl computedBl)
                else .ok map
      | _, _ => .error (missing 10 "missing CheckSum (tag 10)")

end Fix
end MiniExchange
