import Mathlib.Algebra.Ring.Nat
import MiniExchange.Core.Messages

/-!
# Text protocol

The rendering of engine responses by `adapters/text_protocol/text_protocol_renderer.cpp`:
one line that names the order, each fill, and what remains.  Strings are the
bytes of their characters, which are all in the ASCII range.
-/

namespace MiniExchange
namespace TextProtocol

def ascii (text : String) : List UInt8 :=
  text.toList.map Char.toUInt8

/-- The result of `std::to_string` on an unsigned integer. -/
def decimal (n : Nat) : List UInt8 :=
  (Nat.toDigits 10 n).map Char.toUInt8

/-- The result of `std::to_string` on a signed integer. -/
def signedDecimal (n : Int) : List UInt8 :=
  if n < 0 then ascii "-" ++ decimal n.natAbs else decimal n.natAbs

theorem length_decimal_le {n : Nat} (h : n < 2 ^ 64) : (decimal n).length <= 20 := by
  unfold decimal
  rw [List.length_map, Nat.length_toDigits_le_iff (by decide) (by decide)]
  exact Nat.lt_trans h (by decide)

def idTag (response : EngineResponse) : List UInt8 :=
  ascii " id=" ++ decimal response.orderId.value.toNat

def resultToString : EngineResult -> String
  | .accepted => "Accepted"
  | .duplicateOrderId => "DuplicateOrderId"
  | .unknownOrderId => "UnknownOrderId"
  | .invalidQuantity => "InvalidQuantity"
  | .invalidPrice => "InvalidPrice"
  | .poolExhausted => "PoolExhausted"
  | .selfTradePrevented => "SelfTradePrevented"
  | .priceOutOfBand => "PriceOutOfBand"
  | .quantityTooLarge => "QuantityTooLarge"
  | .tickSizeMisaligned => "TickSizeMisaligned"
  | .internalError => "InternalError"

def fillText (trade : Trade) : List UInt8 :=
  ascii " FILL " ++ decimal trade.quantity.units ++ ascii "@" ++
    signedDecimal trade.price.value.toInt

def render (response : EngineResponse) : List UInt8 :=
  if response.status ≠ .accepted then
    ascii "REJECTED" ++ idTag response ++ ascii ": " ++
      ascii (resultToString response.status) ++ ascii "\n"
  else
    ascii "ACCEPTED" ++ idTag response ++ ascii ":" ++
      (if response.trades.isEmpty then
        ascii " no fills, remaining_qty=" ++ decimal response.remainingQty.units
      else
        response.trades.flatMap fillText ++
          (if Quantity.zero < response.remainingQty then
            ascii " | remaining_qty=" ++ decimal response.remainingQty.units
          else ascii " | FULLY FILLED")) ++
      ascii "\n"

def renderError (message : List UInt8) : List UInt8 :=
  ascii "ERROR: " ++ message ++ ascii "\n"

/-!
## The length of a line
-/

def fillSize (fill : Nat × Price) : Nat :=
  7 + (decimal fill.1).length + (signedDecimal fill.2.value.toInt).length

def acceptedSize (id : OrderId) (fills : List (Nat × Price)) (remaining : Nat) : Nat :=
  14 + (decimal id.value.toNat).length +
    if fills = [] then 25 + (decimal remaining).length
    else (fills.map fillSize).sum +
      if 0 < remaining then 17 + (decimal remaining).length else 15

def shown (trade : Trade) : Nat × Price :=
  (trade.quantity.units, trade.price)

theorem length_fillText (trade : Trade) : (fillText trade).length = fillSize (shown trade) := by
  simp only [fillText, fillSize, shown, List.length_append]
  show 6 + _ + 1 + _ = _
  omega

theorem length_fills (trades : List Trade) :
    (trades.flatMap fillText).length = ((trades.map shown).map fillSize).sum := by
  rw [List.length_flatMap, List.map_map]
  exact congrArg List.sum (List.map_congr_left (fun trade _ => length_fillText trade))

theorem length_render_accepted {response : EngineResponse}
    (h : response.status = .accepted) :
    (render response).length =
      acceptedSize response.orderId (response.trades.map shown) response.remainingQty.units := by
  unfold render acceptedSize idTag
  rw [if_neg (not_not.mpr h)]
  by_cases htrades : response.trades = []
  · rw [htrades, if_pos List.isEmpty_nil, if_pos List.map_nil]
    simp only [List.length_append]
    show 8 + (4 + _) + 1 + (25 + _) + 1 = _
    omega
  · have hfills : response.trades.map shown ≠ [] := fun h => htrades (List.map_eq_nil_iff.mp h)
    rw [if_neg (fun h => htrades (List.isEmpty_iff.mp h)), if_neg hfills, ← length_fills]
    by_cases hleft : Quantity.zero < response.remainingQty
    · rw [if_pos hleft, if_pos (Quantity.zero_lt_iff.mp hleft)]
      simp only [List.length_append]
      show 8 + (4 + _) + 1 + (_ + (17 + _)) + 1 = _
      omega
    · rw [if_neg hleft, if_neg (fun hpos => hleft (Quantity.zero_lt_iff.mpr hpos))]
      simp only [List.length_append]
      show 8 + (4 + _) + 1 + (_ + 15) + 1 = _
      omega

theorem length_resultToString_le (result : EngineResult) :
    (ascii (resultToString result)).length <= 18 := by
  cases result <;> decide

theorem length_render_le {response : EngineResponse} (h : response.trades = []) :
    (render response).length <= 80 := by
  have hid := length_decimal_le response.orderId.value.toNat_lt
  have hleft := length_decimal_le response.remainingQty.units_lt
  by_cases hstatus : response.status = .accepted
  · rw [length_render_accepted hstatus, h]
    unfold acceptedSize
    rw [if_pos List.map_nil]
    omega
  · have hreason := length_resultToString_le response.status
    unfold render idTag
    rw [if_pos hstatus]
    simp only [List.length_append]
    show 8 + (4 + _) + 2 + _ + 1 <= 80
    omega

end TextProtocol
end MiniExchange
