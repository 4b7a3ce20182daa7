import MiniExchange.Fix.Message

/-!
# FIX encoder

The execution reports of `adapters/fix/FixEncoder.cpp`.  One encoder belongs to
one session and numbers its reports.
-/

namespace MiniExchange
namespace Fix

open Foundation
open TextProtocol (ascii decimal signedDecimal)

def beginString : List UInt8 := ascii "FIX.4.2"

def supportedSymbol : List UInt8 := ascii "MINI"

def appendField (out : List UInt8) (field : Field) : List UInt8 :=
  out ++ signedDecimal field.1 ++ [equals] ++ field.2 ++ [soh]

def appendFields (fields : List Field) : List UInt8 :=
  fields.foldl appendField []

/-- A message around a body that starts at its `35=` field. -/
def frame (body : List UInt8) : List UInt8 :=
  let header := appendFields [(8, beginString), (9, decimal body.length)]
  let withoutChecksum := header ++ body
  let cksum := computeChecksum withoutChecksum
  appendField withoutChecksum (10, Decimal.threeDigits cksum.toNat)

/-!
## Execution reports
-/

structure ExecReportContext where
  orderId : OrderId
  side : Side
  originalQty : Quantity
  isCancel : Bool := false
deriving DecidableEq, Repr

inductive OrdStatus where
  | new
  | partiallyFilled
  | filled
  | cancelled
  | rejected
deriving DecidableEq, Repr

def OrdStatus.text : OrdStatus -> List UInt8
  | new => ascii "0"
  | partiallyFilled => ascii "1"
  | filled => ascii "2"
  | cancelled => ascii "4"
  | rejected => ascii "8"

def totalFilled (response : EngineResponse) : UInt64 :=
  response.trades.foldl (fun filled trade => filled + trade.quantity.value) 0

def ordStatusFor (response : EngineResponse) (originalQty : Quantity) (isCancel : Bool) :
    OrdStatus :=
  if response.status ≠ .accepted then .rejected
  else if isCancel then .cancelled
  else if totalFilled response = 0 then .new
  else if originalQty.value <= totalFilled response then .filled
  else .partiallyFilled

/-- The UTC time of a report, as `gmtime_r` gives it. -/
structure UtcTime where
  year : Int
  month : Nat
  day : Nat
  hour : Nat
  minute : Nat
  second : Nat
deriving DecidableEq, Repr

def twoDigits (n : Nat) : List UInt8 :=
  List.replicate (2 - (decimal n).length) 48 ++ decimal n

/-- `%Y%m%d-%H:%M:%S`. -/
def sendingTime (now : UtcTime) : List UInt8 :=
  signedDecimal now.year ++ twoDigits now.month ++ twoDigits now.day ++ ascii "-" ++
    twoDigits now.hour ++ ascii ":" ++ twoDigits now.minute ++ ascii ":" ++ twoDigits now.second

structure FixEncoder where
  senderCompId : List UInt8
  targetCompId : List UInt8
  nextSeqNum : UInt64 := 1
  nextExecId : UInt64 := 1
deriving DecidableEq, Repr

namespace FixEncoder

def sideText : Side -> List UInt8
  | .buy => ascii "1"
  | .sell => ascii "2"

def reportFields (encoder : FixEncoder) (now : UtcTime) (ctx : ExecReportContext)
    (response : EngineResponse) : List Field :=
  let ordStatus := ordStatusFor response ctx.originalQty ctx.isCancel
  [(35, ascii "8"),
    (49, encoder.senderCompId),
    (56, encoder.targetCompId),
    (34, decimal encoder.nextSeqNum.toNat),
    (52, sendingTime now),
    (37, decimal ctx.orderId.value.toNat),
    (11, decimal ctx.orderId.value.toNat),
    (17, decimal encoder.nextExecId.toNat),
    (39, ordStatus.text),
    (150, ordStatus.text),
    (54, sideText ctx.side),
    (55, supportedSymbol),
    (14, decimal (totalFilled response).toNat),
    (151, decimal response.remainingQty.units)]

def encodeExecutionReport (encoder : FixEncoder) (now : UtcTime) (ctx : ExecReportContext)
    (response : EngineResponse) : List UInt8 × FixEncoder :=
  (frame (appendFields (encoder.reportFields now ctx response)),
    { encoder with
      nextSeqNum := encoder.nextSeqNum + 1
      nextExecId := encoder.nextExecId + 1 })

end FixEncoder
end Fix
end MiniExchange
