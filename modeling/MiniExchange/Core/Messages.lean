import MiniExchange.Core.Types

/-!
# Orders, commands, and events

The data records of `core/`: what rests in the book, what a client submits,
what the engine answers, and what it broadcasts to its event sink.
-/

namespace MiniExchange

/-- An `Order*`: the index of a slot in the pool's storage. -/
abbrev Slot := Nat

/-- A `PriceLevel*`: the node of one side's price tree with the given key. -/
structure LevelPtr where
  side : Side
  price : Price
deriving DecidableEq, Repr

/-- The business fields of a resting order. -/
structure RestingOrder where
  id : OrderId
  side : Side
  price : Price
  quantity : Quantity
  sequence : Sequence
  owner : ClientId
deriving DecidableEq, Repr

/-- A pool slot's contents: the order and its intrusive links. -/
structure Order extends RestingOrder where
  prev : Option Slot := none
  next : Option Slot := none
  level : Option LevelPtr := none
deriving DecidableEq, Repr

/-!
## Submissions
-/

structure LimitOrder where
  id : OrderId
  side : Side
  price : Price
  quantity : Quantity
  owner : ClientId := ⟨0⟩
deriving DecidableEq, Repr

structure MarketOrder where
  id : OrderId
  side : Side
  quantity : Quantity
  owner : ClientId := ⟨0⟩
deriving DecidableEq, Repr

/-- What can be passed to `submit`. -/
inductive NewOrder where
  | limit (order : LimitOrder)
  | market (order : MarketOrder)
deriving DecidableEq, Repr

namespace NewOrder

def id : NewOrder -> OrderId
  | limit o => o.id
  | market o => o.id

def side : NewOrder -> Side
  | limit o => o.side
  | market o => o.side

def quantity : NewOrder -> Quantity
  | limit o => o.quantity
  | market o => o.quantity

def owner : NewOrder -> ClientId
  | limit o => o.owner
  | market o => o.owner

/-- The price bound handed to the matching loop; market orders have none. -/
def limitPrice : NewOrder -> Option Price
  | limit o => some o.price
  | market _ => none

end NewOrder

inductive EngineCommand where
  | limit (order : LimitOrder)
  | market (order : MarketOrder)
  | cancel (id : OrderId)
deriving DecidableEq, Repr

namespace EngineCommand

def newOrder? : EngineCommand -> Option NewOrder
  | limit o => some (.limit o)
  | market o => some (.market o)
  | cancel _ => none

/-- A command as the parsers return it, with the owner left at its default. -/
def unowned : EngineCommand -> EngineCommand
  | limit o => limit { o with owner := ⟨0⟩ }
  | market o => market { o with owner := ⟨0⟩ }
  | cancel id => cancel id

end EngineCommand

/-!
## Responses and events
-/

structure Trade where
  tradeSequence : TradeSequence
  buyOrderId : OrderId
  sellOrderId : OrderId
  price : Price
  quantity : Quantity
  restingOrderRemoved : Bool
deriving DecidableEq, Repr

inductive EngineResult where
  | accepted
  | duplicateOrderId
  | unknownOrderId
  | invalidQuantity
  | invalidPrice
  | poolExhausted
  | selfTradePrevented
  | priceOutOfBand
  | quantityTooLarge
  | tickSizeMisaligned
  | internalError
deriving DecidableEq, Repr

structure EngineResponse where
  status : EngineResult
  trades : List Trade
  remainingQty : Quantity
  orderId : OrderId
deriving DecidableEq, Repr

def EngineResponse.rejected (status : EngineResult) (id : OrderId) :
    EngineResponse where
  status := status
  trades := []
  remainingQty := Quantity.zero
  orderId := id

/-- Payload of `on_order_accepted`; the price is zero for market orders. -/
structure OrderAccepted where
  id : OrderId
  side : Side
  quantity : Quantity
  price : Price
deriving DecidableEq, Repr

structure OrderCancelled where
  id : OrderId
  remainingQty : Quantity
  side : Side
  price : Price
deriving DecidableEq, Repr

inductive SinkEvent where
  | onOrderAccepted (event : OrderAccepted)
  | onTrade (trade : Trade)
  | onOrderCancelled (event : OrderCancelled)
deriving DecidableEq, Repr

namespace SinkEvent

def accepted? : SinkEvent -> Option OrderAccepted
  | onOrderAccepted event => some event
  | _ => none

def trade? : SinkEvent -> Option Trade
  | onTrade trade => some trade
  | _ => none

def cancelled? : SinkEvent -> Option OrderCancelled
  | onOrderCancelled event => some event
  | _ => none

end SinkEvent

/-!
## The engine interface

`EngineAPI` of `interfaces/engine_api.hpp`, which both the matching engine and
the risk layer around it implement, and the client-tagged messages that travel
between the server's two threads.
-/

/-- An engine with states in `σ`, as the rest of the system calls it. -/
structure EngineApi (σ : Type) where
  submit : σ -> NewOrder -> EngineResponse × σ
  cancel : σ -> OrderId -> EngineResponse × σ

def EngineApi.exec {σ : Type} (api : EngineApi σ) (engine : σ) :
    EngineCommand -> EngineResponse × σ
  | .limit order => api.submit engine (.limit order)
  | .market order => api.submit engine (.market order)
  | .cancel id => api.cancel engine id

structure TaggedCommand where
  client : ClientId
  command : EngineCommand
deriving DecidableEq, Repr

structure TaggedResponse where
  client : ClientId
  response : EngineResponse
deriving DecidableEq, Repr

end MiniExchange
