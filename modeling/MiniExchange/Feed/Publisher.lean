import MiniExchange.Core.Messages
import MiniExchange.Foundation.Machine

/-!
# Feed publisher

The market data publisher of `adapters/udp/udp_feed_publisher.cpp`.  It derives
the best price of each side from the engine's events alone, and numbers every
message it sends: trades, top-of-book updates, and periodic snapshots.

A message counts as sent when it is handed to `send_to_all`; timestamps and
subscribers are left out.
-/

namespace MiniExchange
namespace Feed

open Foundation

structure TopOfBook where
  bidPrice : Price
  bidQty : Quantity
  askPrice : Price
  askQty : Quantity
deriving DecidableEq, Repr

inductive FeedBody where
  | topOfBook (top : TopOfBook)
  | trade (price : Price) (quantity : Quantity) (tradeSequence : TradeSequence)
  | snapshot (top : TopOfBook) (asOfSequence : UInt64)
deriving DecidableEq, Repr

structure FeedMessage where
  symbol : SymbolId
  sequence : UInt64
  body : FeedBody
deriving DecidableEq, Repr

/-- A sent message, and the publisher's top of book at that moment. -/
structure SentMessage where
  message : FeedMessage
  top : TopOfBook
deriving DecidableEq, Repr

/-!
## One side at the tracked best price
-/

/-- Aggregate quantity and order count at the tracked price; price zero is unknown. -/
structure SideState where
  price : Price := Price.zero
  qty : Quantity := Quantity.zero
  count : UInt64 := 0
deriving DecidableEq, Repr

theorem count_pos_iff {n : UInt64} : 0 < n <-> n ≠ 0 := by
  rw [UInt64.lt_iff_toNat_lt, ne_eq, ← UInt64.toNat_inj]
  exact Nat.pos_iff_ne_zero

theorem toNat_count_succ {n : UInt64} (h : n.toNat + 1 < 2 ^ 64) :
    (n + 1).toNat = n.toNat + 1 := by
  rw [UInt64.toNat_add]
  exact Nat.mod_eq_of_lt h

theorem toNat_count_pred {n : UInt64} (h : n ≠ 0) : (n - 1).toNat = n.toNat - 1 := by
  have hpos : 0 < n.toNat := UInt64.lt_iff_toNat_lt.mp (count_pos_iff.mpr h)
  exact UInt64.toNat_sub_of_le _ _ (UInt64.le_iff_toNat_le.mpr hpos)

namespace SideState

def reduce (s : SideState) (quantity : Quantity) (orderRemoved : Bool) : SideState :=
  let qty := if quantity <= s.qty then s.qty - quantity else Quantity.zero
  let count := if orderRemoved then s.count - 1 else s.count
  if count = 0 then { price := Price.zero, qty := Quantity.zero, count := count }
  else { price := s.price, qty := qty, count := count }

/-- An order arrives; nothing changes if its price is worse than the tracked one. -/
def join (s : SideState) (improves : Bool) (price : Price) (quantity : Quantity) :
    Option SideState :=
  if s.count = 0 ∨ improves = true then
    some { price := price, qty := quantity, count := 1 }
  else if price = s.price then
    some { price := s.price, qty := s.qty + quantity, count := s.count + 1 }
  else
    none

end SideState

/-!
## The publisher
-/

structure UdpFeedPublisher where
  symbol : SymbolId
  snapshotInterval : UInt64
  nextSequence : UInt64 := 1
  messagesSinceSnapshot : UInt64 := 0
  bid : SideState := {}
  ask : SideState := {}
  sent : List SentMessage := []

namespace UdpFeedPublisher

def new (symbol : SymbolId) (snapshotInterval : UInt64) : UdpFeedPublisher where
  symbol := symbol
  snapshotInterval := snapshotInterval

def currentTopOfBook (p : UdpFeedPublisher) : TopOfBook where
  bidPrice := p.bid.price
  bidQty := p.bid.qty
  askPrice := p.ask.price
  askQty := p.ask.qty

def sendToAll (p : UdpFeedPublisher) (body : FeedBody) : UdpFeedPublisher :=
  { p with
    nextSequence := p.nextSequence + 1
    sent := p.sent ++
      [{ message := { symbol := p.symbol, sequence := p.nextSequence, body := body }
         top := p.currentTopOfBook }] }

def publishTopOfBook (p : UdpFeedPublisher) : UdpFeedPublisher :=
  p.sendToAll (.topOfBook p.currentTopOfBook)

def publishSnapshot (p : UdpFeedPublisher) : UdpFeedPublisher :=
  p.sendToAll (.snapshot p.currentTopOfBook p.nextSequence)

def checkSnapshotTrigger (p : UdpFeedPublisher) : UdpFeedPublisher :=
  let p := { p with messagesSinceSnapshot := p.messagesSinceSnapshot + 1 }
  if p.snapshotInterval <= p.messagesSinceSnapshot then
    { p.publishSnapshot with messagesSinceSnapshot := 0 }
  else
    p

def publishUpdate (p : UdpFeedPublisher) : UdpFeedPublisher :=
  p.publishTopOfBook.checkSnapshotTrigger

def onTrade (p : UdpFeedPublisher) (trade : Trade) : UdpFeedPublisher :=
  let p := (p.sendToAll
    (.trade trade.price trade.quantity trade.tradeSequence)).checkSnapshotTrigger
  if p.bid.price = trade.price ∧ 0 < p.bid.count then
    publishUpdate { p with bid := p.bid.reduce trade.quantity trade.restingOrderRemoved }
  else if p.ask.price = trade.price ∧ 0 < p.ask.count then
    publishUpdate { p with ask := p.ask.reduce trade.quantity trade.restingOrderRemoved }
  else
    p

def onOrderAccepted (p : UdpFeedPublisher) (event : OrderAccepted) : UdpFeedPublisher :=
  if event.price = Price.zero then p
  else
    match event.side with
    | .buy =>
        -- A price that crosses the tracked ask is taken not to rest.
        if 0 < p.ask.count ∧ p.ask.price <= event.price then p
        else
          match p.bid.join (decide (p.bid.price < event.price)) event.price event.quantity with
          | some bid => publishUpdate { p with bid := bid }
          | none => p
    | .sell =>
        if 0 < p.bid.count ∧ event.price <= p.bid.price then p
        else
          match p.ask.join (decide (event.price < p.ask.price)) event.price event.quantity with
          | some ask => publishUpdate { p with ask := ask }
          | none => p

def onOrderCancelled (p : UdpFeedPublisher) (event : OrderCancelled) : UdpFeedPublisher :=
  if event.side = .buy ∧ event.price = p.bid.price ∧ 0 < p.bid.count then
    publishUpdate { p with bid := p.bid.reduce event.remainingQty true }
  else if event.side = .sell ∧ event.price = p.ask.price ∧ 0 < p.ask.count then
    publishUpdate { p with ask := p.ask.reduce event.remainingQty true }
  else
    p

def onEvent (p : UdpFeedPublisher) : SinkEvent -> UdpFeedPublisher
  | .onOrderAccepted event => p.onOrderAccepted event
  | .onTrade trade => p.onTrade trade
  | .onOrderCancelled event => p.onOrderCancelled event

def run (p : UdpFeedPublisher) (events : List SinkEvent) : UdpFeedPublisher :=
  Machine.run onEvent p events

end UdpFeedPublisher

/-!
## What a subscriber can rely on

Messages are numbered by their position.  A quote is the top of book at the
moment it is sent, and a trade is sent before the update it causes, so a
message without a quote finds the top of book as the message before it did.
-/

def FeedBody.quote? : FeedBody -> Option TopOfBook
  | .topOfBook top => some top
  | .trade _ _ _ => none
  | .snapshot top _ => some top

structure ConsistentFeed (symbol : SymbolId) (feed : List SentMessage) : Prop where
  symbol_eq : forall x, x ∈ feed -> x.message.symbol = symbol
  numbered : forall i x, feed[i]? = some x -> x.message.sequence = UInt64.ofNat (i + 1)
  carried : forall x, x ∈ feed -> forall top, x.message.body.quote? = some top -> top = x.top
  quiet : forall i x y, feed[i]? = some x -> feed[i + 1]? = some y ->
    y.message.body.quote? = none -> y.top = x.top

theorem consistentFeed_nil (symbol : SymbolId) : ConsistentFeed symbol [] where
  symbol_eq := fun _ h => by cases h
  numbered := fun _ _ h => by cases h
  carried := fun _ h => by cases h
  quiet := fun _ _ _ h => by cases h

theorem ConsistentFeed.concat {symbol : SymbolId} {feed : List SentMessage} {x : SentMessage}
    (h : ConsistentFeed symbol feed) (hsymbol : x.message.symbol = symbol)
    (hsequence : x.message.sequence = UInt64.ofNat (feed.length + 1))
    (hcarried : forall top, x.message.body.quote? = some top -> top = x.top)
    (hquiet : forall y, feed.getLast? = some y -> x.message.body.quote? = none ->
      x.top = y.top) : ConsistentFeed symbol (feed ++ [x]) := by
  -- A position of the longer feed is one of the old feed or its end.
  have hposition : forall i y, (feed ++ [x])[i]? = some y ->
      feed[i]? = some y ∨ i = feed.length ∧ y = x := by
    intro i y hy
    rcases Nat.lt_or_ge i feed.length with hlt | hge
    · rw [List.getElem?_append_left hlt] at hy
      exact Or.inl hy
    · rw [List.getElem?_append_right hge] at hy
      rcases List.getElem?_eq_some_iff.mp hy with ⟨hend, heq⟩
      have hzero : i - feed.length = 0 := by simpa using hend
      simp only [hzero, List.getElem_cons_zero] at heq
      exact Or.inr ⟨by omega, heq.symm⟩
  constructor
  · intro y hy
    rcases List.mem_append.mp hy with hfeed | hx
    · exact h.symbol_eq y hfeed
    · rw [List.mem_singleton.mp hx]
      exact hsymbol
  · intro i y hy
    rcases hposition i y hy with hfeed | ⟨rfl, rfl⟩
    · exact h.numbered i y hfeed
    · exact hsequence
  · intro y hy
    rcases List.mem_append.mp hy with hfeed | hx
    · exact h.carried y hfeed
    · rw [List.mem_singleton.mp hx]
      exact hcarried
  · intro i y z hy hz hnone
    rcases hposition (i + 1) z hz with hfeed | ⟨hend, rfl⟩
    · rcases hposition i y hy with hbefore | ⟨hlength, -⟩
      · exact h.quiet i y z hbefore hfeed hnone
      · have hbound := (List.getElem?_eq_some_iff.mp hfeed).choose
        omega
    · have hlast : feed.getLast? = some y := by
        rcases hposition i y hy with hbefore | ⟨hlength, -⟩
        · rw [List.getLast?_eq_getElem?, ← hend]
          exact hbefore
        · omega
      exact hquiet y hlast hnone

namespace UdpFeedPublisher

variable {symbol : SymbolId} {p : UdpFeedPublisher}

structure Numbered (symbol : SymbolId) (p : UdpFeedPublisher) : Prop where
  symbol_eq : p.symbol = symbol
  consistent : ConsistentFeed symbol p.sent
  next : p.nextSequence = UInt64.ofNat (p.sent.length + 1)

structure Settled (symbol : SymbolId) (p : UdpFeedPublisher) : Prop extends
    Numbered symbol p where
  current : forall y, p.sent.getLast? = some y -> p.currentTopOfBook = y.top

theorem settled_new (symbol : SymbolId) (snapshotInterval : UInt64) :
    Settled symbol (new symbol snapshotInterval) where
  symbol_eq := rfl
  consistent := consistentFeed_nil symbol
  next := rfl
  current := fun _ h => by cases h

theorem Numbered.sendToAll (h : Numbered symbol p) {body : FeedBody}
    (hcarried : forall top, body.quote? = some top -> top = p.currentTopOfBook)
    (hquiet : forall y, p.sent.getLast? = some y -> body.quote? = none ->
      p.currentTopOfBook = y.top) : Settled symbol (p.sendToAll body) where
  symbol_eq := h.symbol_eq
  consistent := h.consistent.concat h.symbol_eq h.next hcarried hquiet
  next := by
    show p.nextSequence + 1 = UInt64.ofNat ((p.sent ++ [_]).length + 1)
    rw [h.next, List.length_append, List.length_singleton,
      UInt64.ofNat_add (p.sent.length + 1) 1]
    rfl
  current := by
    intro y hy
    have hlast : (p.sendToAll body).sent.getLast? =
        some { message := { symbol := p.symbol, sequence := p.nextSequence, body := body }
               top := p.currentTopOfBook } := List.getLast?_concat
    rw [hlast] at hy
    cases hy
    rfl

theorem Numbered.publishTopOfBook (h : Numbered symbol p) : Settled symbol p.publishTopOfBook :=
  h.sendToAll (fun _ htop => (Option.some.inj htop).symm) (fun _ _ hnone => by cases hnone)

theorem Settled.checkSnapshotTrigger (h : Settled symbol p) :
    Settled symbol p.checkSnapshotTrigger := by
  unfold UdpFeedPublisher.checkSnapshotTrigger
  dsimp only
  split
  · have hnumbered : Numbered symbol
        { p with messagesSinceSnapshot := p.messagesSinceSnapshot + 1 } := { h with }
    have hsnapshot : Settled symbol
        { p with messagesSinceSnapshot := p.messagesSinceSnapshot + 1 }.publishSnapshot :=
      hnumbered.sendToAll (fun _ htop => (Option.some.inj htop).symm)
        (fun _ _ hnone => by cases hnone)
    exact { hsnapshot with }
  · exact { h with }

theorem Numbered.publishUpdate (h : Numbered symbol p) : Settled symbol p.publishUpdate :=
  h.publishTopOfBook.checkSnapshotTrigger

theorem Settled.onTrade (h : Settled symbol p) (trade : Trade) :
    Settled symbol (p.onTrade trade) := by
  have hsent : Settled symbol (p.sendToAll
      (.trade trade.price trade.quantity trade.tradeSequence)).checkSnapshotTrigger := by
    apply Settled.checkSnapshotTrigger
    exact h.toNumbered.sendToAll (fun _ htop => by cases htop) (fun y hy _ => h.current y hy)
  unfold UdpFeedPublisher.onTrade
  dsimp only
  split
  · exact Numbered.publishUpdate { hsent with }
  · split
    · exact Numbered.publishUpdate { hsent with }
    · exact hsent

theorem Settled.onOrderAccepted (h : Settled symbol p) (event : OrderAccepted) :
    Settled symbol (p.onOrderAccepted event) := by
  unfold UdpFeedPublisher.onOrderAccepted
  split
  · exact h
  · split
    all_goals
      split
      · exact h
      · split
        · exact Numbered.publishUpdate { h with }
        · exact h

theorem Settled.onOrderCancelled (h : Settled symbol p) (event : OrderCancelled) :
    Settled symbol (p.onOrderCancelled event) := by
  unfold UdpFeedPublisher.onOrderCancelled
  split
  · exact Numbered.publishUpdate { h with }
  · split
    · exact Numbered.publishUpdate { h with }
    · exact h

theorem Settled.onEvent (h : Settled symbol p) (event : SinkEvent) :
    Settled symbol (p.onEvent event) := by
  cases event with
  | onOrderAccepted event => exact h.onOrderAccepted event
  | onTrade trade => exact h.onTrade trade
  | onOrderCancelled event => exact h.onOrderCancelled event

theorem settled_run (symbol : SymbolId) (snapshotInterval : UInt64)
    (events : List SinkEvent) : Settled symbol ((new symbol snapshotInterval).run events) :=
  Machine.run_invariant (fun _ event h => h.onEvent event)
    (settled_new symbol snapshotInterval) events

/-!
## Trades away from the top of book

With a snapshot behind every message, such a trade sends two messages and
changes nothing but the numbering.
-/

def farTrade : Trade where
  tradeSequence := ⟨0⟩
  buyOrderId := ⟨2⟩
  sellOrderId := ⟨3⟩
  price := ⟨7⟩
  quantity := ⟨1⟩
  restingOrderRemoved := false

def tradeMessage (sequence : UInt64) : FeedMessage where
  symbol := ⟨1⟩
  sequence := sequence
  body := .trade ⟨7⟩ ⟨1⟩ ⟨0⟩

section FarTrades

variable {bid ask : SideState}

theorem onTrade_farTrade (hbid : bid.price ≠ ⟨7⟩) (hask : ask.price ≠ ⟨7⟩) (sequence : UInt64)
    (sent : List SentMessage) :
    exists x y, onTrade ⟨⟨1⟩, 1, sequence, 0, bid, ask, sent⟩ farTrade =
        ⟨⟨1⟩, 1, sequence + 1 + 1, 0, bid, ask, sent ++ [x, y]⟩ ∧
      x.message = tradeMessage sequence ∧
      x.top = ⟨bid.price, bid.qty, ask.price, ask.qty⟩ ∧
      y.top = ⟨bid.price, bid.qty, ask.price, ask.qty⟩ := by
  have hsent : exists x y, (sendToAll ⟨⟨1⟩, 1, sequence, 0, bid, ask, sent⟩
        (.trade ⟨7⟩ ⟨1⟩ ⟨0⟩)).checkSnapshotTrigger =
        ⟨⟨1⟩, 1, sequence + 1 + 1, 0, bid, ask, sent ++ [x] ++ [y]⟩ ∧
      x.message = tradeMessage sequence ∧
      x.top = ⟨bid.price, bid.qty, ask.price, ask.qty⟩ ∧
      y.top = ⟨bid.price, bid.qty, ask.price, ask.qty⟩ := ⟨_, _, rfl, rfl, rfl, rfl⟩
  rcases hsent with ⟨x, y, hsent, hrest⟩
  refine ⟨x, y, ?_, hrest⟩
  show (let p := (sendToAll _ (.trade ⟨7⟩ ⟨1⟩ ⟨0⟩)).checkSnapshotTrigger
    if p.bid.price = ⟨7⟩ ∧ 0 < p.bid.count then _
    else if p.ask.price = ⟨7⟩ ∧ 0 < p.ask.count then _ else p) = _
  rw [hsent]
  dsimp only
  rw [if_neg (fun h => hbid h.left), if_neg (fun h => hask h.left), List.append_assoc]
  rfl

theorem run_farTrades (hbid : bid.price ≠ ⟨7⟩) (hask : ask.price ≠ ⟨7⟩) (sequence : UInt64)
    (sent : List SentMessage) (n : Nat) :
    exists more, run ⟨⟨1⟩, 1, sequence, 0, bid, ask, sent⟩
        (List.replicate n (.onTrade farTrade)) =
        ⟨⟨1⟩, 1, sequence + UInt64.ofNat (2 * n), 0, bid, ask, sent ++ more⟩ ∧
      more.length = 2 * n ∧
      (forall x, x ∈ more -> x.top = ⟨bid.price, bid.qty, ask.price, ask.qty⟩) ∧
      forall k, k < n ->
        exists x, x ∈ more ∧ x.message = tradeMessage (sequence + UInt64.ofNat (2 * k)) := by
  induction n generalizing sequence sent with
  | zero =>
      refine ⟨[], ?_, rfl, List.forall_mem_nil _, fun k hk => absurd hk (Nat.not_lt_zero k)⟩
      simp [run, Machine.run]
  | succ n ih =>
      rcases onTrade_farTrade hbid hask sequence sent with ⟨x, y, hstep, hmessage, hx, hy⟩
      rcases ih (sequence + 1 + 1) (sent ++ [x, y]) with ⟨more, hrun, hlength, htops, hmessages⟩
      have hnext : forall k, sequence + 1 + 1 + UInt64.ofNat (2 * k) =
          sequence + UInt64.ofNat (2 * (k + 1)) := by
        intro k
        rw [Nat.mul_succ, UInt64.ofNat_add, UInt64.add_comm (UInt64.ofNat (2 * k)),
          ← UInt64.add_assoc, UInt64.add_assoc sequence 1 1]
        rfl
      refine ⟨x :: y :: more, ?_, ?_, ?_, ?_⟩
      · show run (onTrade _ farTrade) _ = _
        rw [hstep, hrun, hnext, List.append_assoc]
        rfl
      · rw [List.length_cons, List.length_cons, hlength]
        rfl
      · exact List.forall_mem_cons.mpr ⟨hx, List.forall_mem_cons.mpr ⟨hy, htops⟩⟩
      · intro k hk
        cases k with
        | zero => exact ⟨x, List.mem_cons_self, hmessage.trans (by simp)⟩
        | succ k =>
            rcases hmessages k (Nat.lt_of_succ_lt_succ hk) with ⟨z, hz, hmessage⟩
            rw [hnext] at hmessage
            exact ⟨z, List.mem_cons_of_mem _ (List.mem_cons_of_mem _ hz), hmessage⟩

end FarTrades
end UdpFeedPublisher
end Feed
end MiniExchange
