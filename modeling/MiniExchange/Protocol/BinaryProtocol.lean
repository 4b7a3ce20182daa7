import MiniExchange.Core.Messages

/-!
# Binary protocol

The messages of `adapters/binary_protocol/Message.hpp`, their encoding by
`BinaryCodec.cpp`, and `render_binary` of `GatewayCodec.cpp`, which turns an
engine response into an acknowledgement and one notification for each trade, or
into a rejection.
-/

namespace MiniExchange
namespace BinaryProtocol

inductive MessageType where
  | limitOrderAdd
  | marketOrderAdd
  | cancel
  | ack
  | reject
  | tradeNotification
deriving DecidableEq, Repr

def MessageType.value : MessageType -> UInt8
  | limitOrderAdd => 1
  | marketOrderAdd => 2
  | cancel => 3
  | ack => 4
  | reject => 5
  | tradeNotification => 6

structure LimitOrderAddMsg where
  type : MessageType := .limitOrderAdd
  side : UInt8
  clientId : ClientId
  orderId : OrderId
  price : Price
  quantity : Quantity
deriving DecidableEq, Repr

structure MarketOrderAddMsg where
  type : MessageType := .marketOrderAdd
  side : UInt8
  clientId : ClientId
  orderId : OrderId
  quantity : Quantity
deriving DecidableEq, Repr

structure CancelMsg where
  type : MessageType := .cancel
  padding : UInt8 := 0
  clientId : ClientId
  orderId : OrderId
deriving DecidableEq, Repr

structure AckMsg where
  type : MessageType := .ack
  padding : UInt8 := 0
  orderId : OrderId
  remainingQty : Quantity
deriving DecidableEq, Repr

structure RejectMsg where
  type : MessageType := .reject
  reasonCode : UInt8
  orderId : OrderId
deriving DecidableEq, Repr

structure TradeNotificationMsg where
  type : MessageType := .tradeNotification
  padding : UInt8 := 0
  buyOrderId : OrderId
  sellOrderId : OrderId
  price : Price
  quantity : Quantity
  tradeSequence : TradeSequence
deriving DecidableEq, Repr

/-!
## Encoding
-/

def limitOrderAddWireSize : Nat := 34

def marketOrderAddWireSize : Nat := 26

def cancelWireSize : Nat := 18

def ackWireSize : Nat := 18

def rejectWireSize : Nat := 10

def tradeNotificationWireSize : Nat := 42

/-- The bytes that `to_network` leaves in memory, on a host of either byte order. -/
def toNetwork (value : UInt64) : List UInt8 :=
  [56, 48, 40, 32, 24, 16, 8, 0].map (fun shift : UInt64 => (value >>> shift).toUInt8)

/-- A price is written by its bit pattern. -/
def LimitOrderAddMsg.encode (msg : LimitOrderAddMsg) : List UInt8 :=
  msg.type.value :: msg.side ::
    (toNetwork msg.clientId.value ++ toNetwork msg.orderId.value ++
      toNetwork msg.price.value.toUInt64 ++ toNetwork msg.quantity.value)

def MarketOrderAddMsg.encode (msg : MarketOrderAddMsg) : List UInt8 :=
  msg.type.value :: msg.side ::
    (toNetwork msg.clientId.value ++ toNetwork msg.orderId.value ++
      toNetwork msg.quantity.value)

def CancelMsg.encode (msg : CancelMsg) : List UInt8 :=
  msg.type.value :: msg.padding ::
    (toNetwork msg.clientId.value ++ toNetwork msg.orderId.value)

def AckMsg.encode (msg : AckMsg) : List UInt8 :=
  msg.type.value :: msg.padding ::
    (toNetwork msg.orderId.value ++ toNetwork msg.remainingQty.value)

def RejectMsg.encode (msg : RejectMsg) : List UInt8 :=
  msg.type.value :: msg.reasonCode :: toNetwork msg.orderId.value

def TradeNotificationMsg.encode (msg : TradeNotificationMsg) : List UInt8 :=
  msg.type.value :: msg.padding ::
    (toNetwork msg.buyOrderId.value ++ toNetwork msg.sellOrderId.value ++
      toNetwork msg.price.value.toUInt64 ++ toNetwork msg.quantity.value ++
      toNetwork msg.tradeSequence.value)

@[simp] theorem AckMsg.length_encode (msg : AckMsg) : msg.encode.length = ackWireSize :=
  rfl

@[simp] theorem RejectMsg.length_encode (msg : RejectMsg) :
    msg.encode.length = rejectWireSize :=
  rfl

@[simp] theorem TradeNotificationMsg.length_encode (msg : TradeNotificationMsg) :
    msg.encode.length = tradeNotificationWireSize :=
  rfl

/-!
## Responses
-/

def engineResultToReasonCode : EngineResult -> UInt8
  | .duplicateOrderId => 1
  | .unknownOrderId => 2
  | .invalidQuantity => 3
  | .invalidPrice => 4
  | .poolExhausted => 5
  | .selfTradePrevented => 6
  | .priceOutOfBand => 7
  | .quantityTooLarge => 8
  | .tickSizeMisaligned => 9
  | .internalError => 10
  | .accepted => 0

def notification (trade : Trade) : TradeNotificationMsg where
  buyOrderId := trade.buyOrderId
  sellOrderId := trade.sellOrderId
  price := trade.price
  quantity := trade.quantity
  tradeSequence := trade.tradeSequence

def renderBinary (response : EngineResponse) : List UInt8 :=
  if response.status ≠ .accepted then
    RejectMsg.encode
      { reasonCode := engineResultToReasonCode response.status
        orderId := response.orderId }
  else
    AckMsg.encode
        { orderId := response.orderId
          remainingQty := response.remainingQty } ++
      response.trades.flatMap (fun trade => (notification trade).encode)

/-- The reply to a frame that does not parse; its message is not sent. -/
def renderBinaryError (_message : String) : List UInt8 :=
  RejectMsg.encode { reasonCode := 6, orderId := ⟨0⟩ }

theorem length_notifications (trades : List Trade) :
    (trades.flatMap (fun trade => (notification trade).encode)).length =
      tradeNotificationWireSize * trades.length := by
  induction trades with
  | nil => rfl
  | cons trade rest ih =>
      rw [List.flatMap_cons, List.length_append, TradeNotificationMsg.length_encode, ih,
        List.length_cons, Nat.mul_succ]
      exact Nat.add_comm _ _

theorem length_renderBinary (response : EngineResponse) :
    (renderBinary response).length =
      if response.status ≠ .accepted then rejectWireSize
      else ackWireSize + tradeNotificationWireSize * response.trades.length := by
  unfold renderBinary
  split
  · exact RejectMsg.length_encode _
  · rw [List.length_append, AckMsg.length_encode, length_notifications]

end BinaryProtocol
end MiniExchange
