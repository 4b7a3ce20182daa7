import MiniExchange.Fix.Encoder

/-!
# FIX parser

The business layer of `adapters/fix/FixParser.cpp`: a validated tag map becomes
a new order or a cancel request.
-/

namespace MiniExchange
namespace Fix

open Foundation
open Foundation.Decimal (fromChars int64 uint64)
open TextProtocol (ascii)

def parseNumberField (type : Decimal.IntType) (map : TagMap) (tag : Int) : Option Int :=
  match map.get tag with
  | none => none
  | some text =>
      if text = [] then none
      else
        match fromChars type text with
        | some (number, []) => some number
        | _ => none

def parseUint64Field (map : TagMap) (tag : Int) : Option UInt64 :=
  (parseNumberField uint64 map tag).map fun number => UInt64.ofNat number.toNat

def parseInt64Field (map : TagMap) (tag : Int) : Option Int64 :=
  (parseNumberField int64 map tag).map Int64.ofInt

inductive ParsedMessage where
  | newOrder (order : NewOrder)
  | cancelRequest (id : OrderId)
deriving DecidableEq, Repr

def failure (reason : FixErrorReason) (tag : Int) (detail : String) : FixError where
  reason := reason
  offendingTag := tag
  detail := detail

def orFail {α : Type} (value : Option α) (e : FixError) : Except FixError α :=
  match value with
  | some a => .ok a
  | none => .error e

def check (condition : Bool) (e : FixError) : Except FixError Unit :=
  if condition then .ok () else .error e

theorem ok_bind {α β : Type} (a : α) (f : α -> Except FixError β) :
    (.ok a >>= f) = f a :=
  rfl

def parseSide (text : List UInt8) : Except FixError Side :=
  if text = ascii "1" then .ok .buy
  else if text = ascii "2" then .ok .sell
  else .error
    (failure .invalidSide 54 "Side (tag 54) must be 1 (Buy) or 2 (Sell)")

/-- The end of `parse_new_order_single`, from OrdType on. -/
def parseByOrdType (map : TagMap) (owner : ClientId) (id : OrderId) (side : Side)
    (quantity : Quantity) (ordType : List UInt8) : Except FixError ParsedMessage :=
  if ordType = ascii "2" then do
    let price ← orFail (parseInt64Field map 44)
      (failure .missingPrice 44
        "Limit order (OrdType=2) requires Price (tag 44)")
    .ok (.newOrder (.limit
      { id := id, side := side, price := ⟨price⟩, quantity := quantity, owner := owner }))
  else if ordType = ascii "1" then
    .ok (.newOrder (.market { id := id, side := side, quantity := quantity, owner := owner }))
  else
    .error (failure .unsupportedOrdType 40
      "OrdType (tag 40) must be 1 (Market) or 2 (Limit)")

def parseNewOrderSingle (map : TagMap) (owner : ClientId) : Except FixError ParsedMessage := do
  let id ← orFail (parseUint64Field map 11)
    (failure .invalidClOrdIdFormat 11 "ClOrdID (tag 11) must be a numeric uint64")
  let symbol ← orFail (map.get 55) (missing 55 "missing Symbol (tag 55)")
  check (symbol = supportedSymbol)
    (failure .unsupportedSymbol 55 "symbol not supported (single-symbol exchange)")
  let sideText ← orFail (map.get 54) (missing 54 "missing Side (tag 54)")
  let side ← parseSide sideText
  -- An absent or malformed quantity and zero are one error.
  let quantity ← orFail ((parseUint64Field map 38).filter (· ≠ 0))
    (failure .invalidQuantity 38 "OrderQty (tag 38) must be a positive integer")
  let ordType ← orFail (map.get 40) (missing 40 "missing OrdType (tag 40)")
  parseByOrdType map owner ⟨id⟩ side ⟨quantity⟩ ordType

/-- OrigClOrdID is preferred to ClOrdID. -/
def parseCancelRequest (map : TagMap) : Except FixError ParsedMessage :=
  match (parseUint64Field map 41).or (parseUint64Field map 11) with
  | some id => .ok (.cancelRequest ⟨id⟩)
  | none =>
      if (map.get 41).isSome ∨ (map.get 11).isSome then
        .error (failure .invalidClOrdIdFormat 41
          "OrigClOrdID/ClOrdID must be a numeric uint64")
      else
        .error (missing 41 "cancel requires OrigClOrdID (tag 41) or ClOrdID (tag 11)")

def parse (map : TagMap) (owner : ClientId) : Except FixError ParsedMessage := do
  let msgType ← orFail (map.get 35) (missing 35 "missing MsgType (tag 35)")
  if msgType = ascii "D" then parseNewOrderSingle map owner
  else if msgType = ascii "F" then parseCancelRequest map
  else
    .error (failure .unsupportedMessageType 35
      "only 35=D and 35=F are supported")

end Fix
end MiniExchange
