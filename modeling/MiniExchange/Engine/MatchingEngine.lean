import MiniExchange.Foundation.Machine
import MiniExchange.OrderBook.OrderBook
import Mathlib.Order.RelClasses

/-!
# Matching engine

The engine of `engine/matching_engine.cpp`.  The injected event sink is the
list of calls it has received.  Each call also returns a record of the
operations its matching loop performed, so that statements about individual
accesses and fills can be made; the engine itself never reads that record.
-/

namespace MiniExchange

open Foundation

structure ClientRestingPrices where
  bids : SortedMap Price UInt32 (· < ·)
  asks : SortedMap Price UInt32 (· < ·)

namespace ClientRestingPrices

def empty : ClientRestingPrices where
  bids := SortedMap.empty
  asks := SortedMap.empty

def prices (crp : ClientRestingPrices) : Side -> SortedMap Price UInt32 (· < ·)
  | .buy => crp.bids
  | .sell => crp.asks

def setPrices (crp : ClientRestingPrices) :
    Side -> SortedMap Price UInt32 (· < ·) -> ClientRestingPrices
  | .buy, m => { crp with bids := m }
  | .sell, m => { crp with asks := m }

end ClientRestingPrices

/-- The clients that have resting orders, with the prices of those orders. -/
abbrev ClientIndex : Type := ClientId -> Option ClientRestingPrices

namespace ClientIndex

def rest (index : ClientIndex) (resting : RestingOrder) : ClientIndex :=
  let crp := (index resting.owner).getD ClientRestingPrices.empty
  let sideMap := (crp.prices resting.side).upsert resting.price
    (fun count => count.getD 0 + 1)
  Function.update index resting.owner (some (crp.setPrices resting.side sideMap))

/--
Count one order less.  A count of zero is erased, and so is a client without
any count left.
-/
def unrest (index : ClientIndex) (resting : RestingOrder) : ClientIndex :=
  match index resting.owner with
  | none => index
  | some crp =>
      let sideMap := crp.prices resting.side
      match sideMap.find? resting.price with
      | none => index
      | some count =>
          let sideMap :=
            if count - 1 = 0 then sideMap.erase resting.price
            else sideMap.modify resting.price (fun _ => count - 1)
          let crp := crp.setPrices resting.side sideMap
          Function.update index resting.owner
            (if crp.bids.isEmpty && crp.asks.isEmpty then none else some crp)

end ClientIndex

structure MatchingEngine where
  book : OrderBook
  lastAcceptedId : ClientId -> Option OrderId
  clientResting : ClientIndex
  nextSequence : Sequence
  nextTradeSequence : TradeSequence
  sink : List SinkEvent
  stp : StpConfig

namespace MatchingEngine

def new (raw : Memory) (poolCapacity : UInt64) (stp : StpConfig) :
    MatchingEngine where
  book := OrderBook.new raw poolCapacity
  lastAcceptedId := fun _ => none
  clientResting := fun _ => none
  nextSequence := ⟨0⟩
  nextTradeSequence := ⟨0⟩
  sink := []
  stp := stp

def emit (e : MatchingEngine) (event : SinkEvent) : MatchingEngine :=
  { e with sink := e.sink ++ [event] }

/-!
## Per-client resting-price index
-/

def indexRest (e : MatchingEngine) (resting : RestingOrder) : MatchingEngine :=
  { e with
    clientResting :=
      if e.stp.enabled then e.clientResting.rest resting else e.clientResting }

def indexUnrest (e : MatchingEngine) (resting : RestingOrder) : MatchingEngine :=
  { e with
    clientResting :=
      if e.stp.enabled then e.clientResting.unrest resting else e.clientResting }

def wouldSelfCross (e : MatchingEngine) (incomingSide : Side)
    (incomingOwner : ClientId) (limitPrice : Option Price) : Bool :=
  match e.clientResting incomingOwner with
  | none => false
  | some crp =>
      match incomingSide with
      | .buy =>
          match crp.asks.first? with
          | none => false
          | some (lowestOwnAsk, _) =>
              match limitPrice with
              | none => true
              | some limit => decide (lowestOwnAsk <= limit)
      | .sell =>
          match crp.bids.last? with
          | none => false
          | some (highestOwnBid, _) =>
              match limitPrice with
              | none => true
              | some limit => decide (limit <= highestOwnBid)

/-- `index_unrest` followed by `remove_order`, as at every removal site. -/
def removeResting (e : MatchingEngine) (order : Slot) : MatchingEngine :=
  let e := e.indexUnrest (e.book.data order)
  { e with book := e.book.removeOrder order }

end MatchingEngine

/-!
## The matching loop
-/

inductive LevelMember where
  | empty
  | front
  | price
  | reduceQuantity
deriving DecidableEq, Repr

inductive MatchOp where
  /-- The body of the outer loop is entered. -/
  | outerIteration
  /-- The body of the inner loop is entered. -/
  | innerIteration
  /-- A member of the fetched level is evaluated; `live` tells whether the
  level is then still a node of its price tree. -/
  | levelAccess (fn : LevelMember) (live : Bool)
  /-- `qty` is taken off the incoming order's `remaining` and off `resting`. -/
  | fill (resting : RestingOrder) (remaining qty : Quantity)
  /-- The submitter's own `resting` order is pulled from the book. -/
  | cancelOwn (resting : RestingOrder)
deriving DecidableEq, Repr

/-- The parameters of `match_against_book`. -/
structure Incoming where
  side : Side
  id : OrderId
  owner : ClientId
  limitPrice : Option Price
deriving DecidableEq, Repr

/-- The loop's mutable state: the engine, `remaining`, and `trades`. -/
structure MatchState where
  engine : MatchingEngine
  remaining : Quantity
  trades : List Trade

structure MatchRun extends MatchState where
  ops : List MatchOp

namespace MatchRun

def start (e : MatchingEngine) (quantity : Quantity) : MatchRun where
  engine := e
  remaining := quantity
  trades := []
  ops := []

def note (r : MatchRun) (ops : List MatchOp) : MatchRun :=
  { r with ops := r.ops ++ ops }

def access (r : MatchRun) (level : LevelPtr) (fn : LevelMember) : MatchRun :=
  r.note [.levelAccess fn (r.engine.book.level? level).isSome]

end MatchRun

namespace Incoming

def bestOpposite (c : Incoming) (b : OrderBook) : Option LevelPtr :=
  match c.side with
  | .buy => b.bestAsk
  | .sell => b.bestBid

def beyondLimit (c : Incoming) (levelPrice : Price) : Bool :=
  match c.limitPrice with
  | none => false
  | some limit =>
      match c.side with
      | .buy => decide (limit < levelPrice)
      | .sell => decide (levelPrice < limit)

def fillQty (remaining resting : Quantity) : Quantity :=
  if remaining < resting then remaining else resting

def tradeWith (c : Incoming) (resting : RestingOrder) (remaining : Quantity)
    (sequence : TradeSequence) : Trade where
  tradeSequence := sequence
  buyOrderId :=
    match c.side with
    | .buy => c.id
    | .sell => resting.id
  sellOrderId :=
    match c.side with
    | .sell => c.id
    | .buy => resting.id
  price := resting.price
  quantity := fillQty remaining resting.quantity
  restingOrderRemoved :=
    decide (fillQty remaining resting.quantity = resting.quantity)

end Incoming

namespace MatchState

/-- Self-trade prevention under `CancelResting` applies to this order. -/
def pullsOwn (s : MatchState) (c : Incoming) (resting : RestingOrder) : Bool :=
  s.engine.stp.enabled &&
    decide (s.engine.stp.policy = .cancelResting) &&
      decide (resting.owner = c.owner)

def cancelOwn (s : MatchState) (order : Slot) : MatchState :=
  let resting := s.engine.book.data order
  { s with
    engine := (s.engine.removeResting order).emit
      (.onOrderCancelled
        { id := resting.id
          remainingQty := resting.quantity
          side := resting.side
          price := resting.price }) }

def fullyConsumed (s : MatchState) (order : Slot) : Bool :=
  decide (Incoming.fillQty s.remaining (s.engine.book.data order).quantity =
    (s.engine.book.data order).quantity)

def bookFill (s : MatchState) (c : Incoming) (level : LevelPtr)
    (order : Slot) : MatchState :=
  let trade := c.tradeWith (s.engine.book.data order) s.remaining
    s.engine.nextTradeSequence
  let e :=
    ({ s.engine with
        nextTradeSequence := s.engine.nextTradeSequence.next }).emit
      (.onTrade trade)
  { engine := { e with book := e.book.reduceResting level order trade.quantity }
    remaining := s.remaining - trade.quantity
    trades := s.trades ++ [trade] }

def fillResting (s : MatchState) (c : Incoming) (level : LevelPtr)
    (order : Slot) : MatchState :=
  let filled := s.bookFill c level order
  if s.fullyConsumed order then
    { filled with engine := filled.engine.removeResting order }
  else filled

end MatchState

/--
The inner loop over one level.  After an own order is pulled the loop is left;
after a fill its guard is evaluated again on the same level pointer, also when
the fill has just erased that level.  Such a read is taken to see an empty
level.  Without fuel there is no result.
-/
def innerLoop (c : Incoming) (level : LevelPtr) :
    Nat -> MatchRun -> Option MatchRun
  | 0, _ => none
  | fuel + 1, r =>
      if Quantity.zero < r.remaining then
        let r := r.access level .empty
        match (r.engine.book.level? level).bind PriceLevel.front with
        | none => some r
        | some order =>
            let r := (r.note [.innerIteration]).access level .front
            let resting := r.engine.book.data order
            if r.pullsOwn c resting then
              let r := r.note [.cancelOwn resting]
              some { r with toMatchState := r.cancelOwn order }
            else
              let r := (r.note [.fill resting r.remaining
                (Incoming.fillQty r.remaining resting.quantity)]).access level
                  .reduceQuantity
              innerLoop c level fuel
                { r with toMatchState := r.fillResting c level order }
      else some r

def outerLoop (c : Incoming) : Nat -> MatchRun -> Option MatchRun
  | 0, _ => none
  | fuel + 1, r =>
      if Quantity.zero < r.remaining then
        let r := r.note [.outerIteration]
        match c.bestOpposite r.engine.book with
        | none => some r
        | some level =>
            let r := if c.limitPrice.isSome then r.access level .price else r
            let levelPrice := ((r.engine.book.level? level).map PriceLevel.price).getD
              level.price
            if c.beyondLimit levelPrice then some r
            else
              (innerLoop c level (r.engine.book.orderCount + 1) r).bind
                (outerLoop c fuel)
      else some r

/--
Consume opposite-side liquidity from the best price on, up to the limit price.
The fuel exceeds the number of iterations that the loops can make.
-/
def matchAgainstBook (e : MatchingEngine) (c : Incoming) (quantity : Quantity) :
    MatchRun :=
  (outerLoop c (e.book.orderCount + 2) (MatchRun.start e quantity)).getD
    (MatchRun.start e quantity)

/-!
## Commands
-/

/-- Outcome of one call: the engine afterwards, the response, and the record. -/
structure EngineCall where
  engine : MatchingEngine
  response : EngineResponse
  ops : List MatchOp

namespace MatchingEngine

def reject (e : MatchingEngine) (status : EngineResult) (id : OrderId) :
    EngineCall where
  engine := e
  response := EngineResponse.rejected status id
  ops := []

def atOrBelowWatermark (e : MatchingEngine) (owner : ClientId) (id : OrderId) :
    Bool :=
  match e.lastAcceptedId owner with
  | none => false
  | some watermark => decide (id.value <= watermark.value)

def advanceWatermark (e : MatchingEngine) (owner : ClientId) (id : OrderId) :
    MatchingEngine :=
  { e with lastAcceptedId := Function.update e.lastAcceptedId owner (some id) }

def rejectsSelfCross (e : MatchingEngine) (side : Side) (owner : ClientId)
    (limitPrice : Option Price) : Bool :=
  e.stp.enabled && decide (e.stp.policy = .rejectIncoming) &&
    e.wouldSelfCross side owner limitPrice

def restRemainder (e : MatchingEngine) (order : LimitOrder)
    (remaining : Quantity) : MatchingEngine :=
  let data : Order :=
    { id := order.id
      side := order.side
      price := order.price
      quantity := remaining
      sequence := e.nextSequence
      owner := order.owner }
  let e := { e with
    nextSequence := e.nextSequence.next
    book := (e.book.addOrder data).2 }
  e.indexRest data.toRestingOrder

def submitLimit (e : MatchingEngine) (order : LimitOrder) : EngineCall :=
  if order.quantity = Quantity.zero then
    e.reject .invalidQuantity order.id
  else if order.price <= Price.zero then
    e.reject .invalidPrice order.id
  else if e.atOrBelowWatermark order.owner order.id then
    e.reject .duplicateOrderId order.id
  else if e.rejectsSelfCross order.side order.owner (some order.price) then
    e.reject .selfTradePrevented order.id
  else if e.book.poolAvailable = 0 then
    e.reject .poolExhausted order.id
  else
    let e := (e.advanceWatermark order.owner order.id).emit
      (.onOrderAccepted
        { id := order.id
          side := order.side
          quantity := order.quantity
          price := order.price })
    let r := matchAgainstBook e
      { side := order.side
        id := order.id
        owner := order.owner
        limitPrice := some order.price } order.quantity
    { engine :=
        if Quantity.zero < r.remaining then r.engine.restRemainder order r.remaining
        else r.engine
      response :=
        { status := .accepted
          trades := r.trades
          remainingQty := r.remaining
          orderId := order.id }
      ops := r.ops }

def submitMarket (e : MatchingEngine) (order : MarketOrder) : EngineCall :=
  if order.quantity = Quantity.zero then
    e.reject .invalidQuantity order.id
  else if e.atOrBelowWatermark order.owner order.id then
    e.reject .duplicateOrderId order.id
  else if e.rejectsSelfCross order.side order.owner none then
    e.reject .selfTradePrevented order.id
  else
    let e := (e.advanceWatermark order.owner order.id).emit
      (.onOrderAccepted
        { id := order.id
          side := order.side
          quantity := order.quantity
          price := Price.zero })
    let r := matchAgainstBook e
      { side := order.side
        id := order.id
        owner := order.owner
        limitPrice := none } order.quantity
    { engine := r.engine
      response :=
        { status := .accepted
          trades := r.trades
          remainingQty := r.remaining
          orderId := order.id }
      ops := r.ops }

def submit (e : MatchingEngine) : NewOrder -> EngineCall
  | .limit order => e.submitLimit order
  | .market order => e.submitMarket order

def cancel (e : MatchingEngine) (id : OrderId) : EngineCall :=
  match e.book.findOrder id with
  | none => e.reject .unknownOrderId id
  | some order =>
      let resting := e.book.data order
      { engine := (e.removeResting order).emit
          (.onOrderCancelled
            { id := id
              remainingQty := resting.quantity
              side := resting.side
              price := resting.price })
        response :=
          { status := .accepted
            trades := []
            remainingQty := resting.quantity
            orderId := id }
        ops := [] }

def exec (e : MatchingEngine) : EngineCommand -> EngineCall
  | .limit order => e.submit (.limit order)
  | .market order => e.submit (.market order)
  | .cancel id => e.cancel id

def api : EngineApi MatchingEngine where
  submit e order := ((e.submit order).response, (e.submit order).engine)
  cancel e id := ((e.cancel id).response, (e.cancel id).engine)

theorem api_exec (e : MatchingEngine) (command : EngineCommand) :
    api.exec e command = ((e.exec command).response, (e.exec command).engine) := by
  cases command <;> rfl

def run (e : MatchingEngine) (commands : List EngineCommand) : MatchingEngine :=
  Machine.run (fun e command => (e.exec command).engine) e commands

def visits (e : MatchingEngine) (commands : List EngineCommand) :
    List (MatchingEngine × EngineCommand) :=
  Machine.visits (fun e command => (e.exec command).engine) e commands

def calls (e : MatchingEngine) (commands : List EngineCommand) : List EngineCall :=
  (e.visits commands).map (fun v => v.1.exec v.2)

end MatchingEngine
end MiniExchange
