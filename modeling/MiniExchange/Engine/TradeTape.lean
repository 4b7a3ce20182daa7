import MiniExchange.Engine.CancelResting
import MiniExchange.Engine.SelfTrade

/-!
# The trade tape

Trades reach the outside in the responses and through the event sink.  Both
channels carry the same tape, numbered by the trade counter, and the events of a
call account for every order that enters or leaves the book.
-/

namespace MiniExchange

open Foundation

/-!
## The events of a sweep
-/

namespace Action

theorem accepted_events (c : Incoming) (sequence : TradeSequence) (actions : List Action) :
    (events c sequence actions).filterMap SinkEvent.accepted? = [] := by
  induction actions generalizing sequence with
  | nil => rfl
  | cons action rest ih =>
      cases action with
      | fill o remaining qty => exact ih sequence.next
      | cancelOwn o => exact ih sequence

theorem trade_events (c : Incoming) (sequence : TradeSequence) (actions : List Action) :
    (events c sequence actions).filterMap SinkEvent.trade? = trades c sequence actions := by
  induction actions generalizing sequence with
  | nil => rfl
  | cons action rest ih =>
      cases action with
      | fill o remaining qty => exact congrArg (List.cons _) (ih sequence.next)
      | cancelOwn o => exact ih sequence

theorem sequences_trades (c : Incoming) (sequence : TradeSequence) (actions : List Action) :
    (trades c sequence actions).map Trade.tradeSequence =
      (List.range (fills actions)).map sequence.advance := by
  induction actions generalizing sequence with
  | nil => rfl
  | cons action rest ih =>
      cases action with
      | fill o remaining qty =>
          have hshift : (List.range (fills rest)).map sequence.next.advance =
              (List.range (fills rest)).map (fun i => sequence.advance (i + 1)) :=
            List.map_congr_left (fun i _ => TradeSequence.next_advance sequence i)
          show sequence :: (trades c sequence.next rest).map Trade.tradeSequence =
            (List.range (fills rest + 1)).map sequence.advance
          rw [ih, hshift, List.range_succ_eq_map, List.map_cons, List.map_map,
            TradeSequence.advance_zero]
          rfl
      | cancelOwn o => exact ih sequence

theorem length_trades (c : Incoming) (sequence : TradeSequence) (actions : List Action) :
    (trades c sequence actions).length = fills actions := by
  have h := congrArg List.length (sequences_trades c sequence actions)
  simpa using h

def consumed? : Action -> Option RestingOrder
  | fill resting _ qty => if qty = resting.quantity then some resting else none
  | cancelOwn _ => none

def consumedOrders (actions : List Action) : List RestingOrder :=
  actions.filterMap consumed?

theorem removed_perm (actions : List Action) :
    (removed actions).Perm (consumedOrders actions ++ pulledOrders actions) := by
  induction actions with
  | nil => exact List.Perm.refl _
  | cons action rest ih =>
      cases action with
      | fill o remaining qty =>
          by_cases hfull : qty = o.quantity
          · simp only [removed, consumedOrders, pulledOrders, List.filterMap_cons, removed?,
              consumed?, pulled?, if_pos hfull, List.cons_append]
            exact List.Perm.cons o ih
          · simp only [removed, consumedOrders, pulledOrders, List.filterMap_cons, removed?,
              consumed?, pulled?, if_neg hfull]
            exact ih
      | cancelOwn o => exact (List.Perm.cons o ih).trans List.perm_middle.symm

theorem flagged_trades {c : Incoming} {pulls : RestingOrder -> Bool}
    {orders : List RestingOrder} {actions : List Action}
    (h : forall a, a ∈ actions -> c.ActsOn pulls orders a) (sequence : TradeSequence) :
    ((trades c sequence actions).filter Trade.restingOrderRemoved).map
        (Trade.counterparty c.side) =
      (consumedOrders actions).map (fun o => (o.id, o.price)) := by
  induction actions generalizing sequence with
  | nil => rfl
  | cons action rest ih =>
      have hrest := ih (fun a ha => h a (List.mem_cons_of_mem _ ha))
      cases action with
      | fill o remaining qty =>
          have hqty : qty = Incoming.fillQty remaining o.quantity :=
            (h _ List.mem_cons_self).right.right.right
          by_cases hfull : qty = o.quantity
          · have hflag : (c.tradeWith o remaining sequence).restingOrderRemoved = true :=
              decide_eq_true (hqty ▸ hfull)
            simp only [trades, consumedOrders, List.filterMap_cons, consumed?, if_pos hfull,
              List.filter_cons_of_pos hflag, List.map_cons, Trade.counterparty_tradeWith]
            exact congrArg (List.cons (o.id, o.price)) (hrest sequence.next)
          · have hflag : ¬ (c.tradeWith o remaining sequence).restingOrderRemoved = true :=
              fun hflag => hfull (hqty.trans (of_decide_eq_true hflag))
            simp only [trades, consumedOrders, List.filterMap_cons, consumed?, if_neg hfull,
              List.filter_cons_of_neg hflag]
            exact hrest sequence.next
      | cancelOwn o => exact hrest sequence

end Action

/-!
## What a call adds to the tape
-/

namespace MatchingEngine

def lot (o : RestingOrder) : RestingOrder :=
  { o with quantity := Quantity.zero }

def restingOrders (e : MatchingEngine) : List RestingOrder :=
  e.book.resting .buy ++ e.book.resting .sell

/-- The resting orders that the flagged trades of a call say are gone. -/
def flagged (command : EngineCommand) (trades : List Trade) : List (OrderId × Price) :=
  match command.newOrder? with
  | none => []
  | some order =>
      (trades.filter Trade.restingOrderRemoved).map (Trade.counterparty order.side)

/--
The events of a call.  Its trades are those of the response; an accepted
submission is announced once and first; and whatever leaves the book has been
filled, by a trade that says so, or is announced as cancelled, once.
-/
structure CallTape (e : MatchingEngine) (command : EngineCommand) (call : EngineCall)
    (events : List SinkEvent) (rested filled cancelled : List RestingOrder) : Prop where
  sink_eq : call.engine.sink = e.sink ++ events
  trades_eq : events.filterMap SinkEvent.trade? = call.response.trades
  announced : forall order, command.newOrder? = some order ->
    call.response.status = .accepted ->
    exists later, events = order.acceptance :: later ∧
      later.filterMap SinkEvent.accepted? = []
  unannounced : command.newOrder? = none ∨ call.response.status ≠ .accepted ->
    events.filterMap SinkEvent.accepted? = []
  rested_eq : rested.length <= 1 ∧ forall o, o ∈ rested ->
    exists order, command.newOrder? = some order ∧ o.id = order.id ∧
      o.owner = order.owner ∧ o.quantity = call.response.remainingQty
  filled_eq : flagged command call.response.trades = filled.map (fun o => (o.id, o.price))
  cancelled_eq : events.filterMap SinkEvent.cancelled? = cancelled.map Action.announcement
  balance : ((e.restingOrders ++ rested).map lot).Perm
    ((call.engine.restingOrders ++ (filled ++ cancelled)).map lot)

theorem restingOrders_perm (e : MatchingEngine) (s : Side) :
    e.restingOrders.Perm (e.book.resting s ++ e.book.resting s.opposite) := by
  cases s with
  | buy => exact List.Perm.refl _
  | sell => exact List.perm_append_comm

section Calls

variable {e : MatchingEngine}

theorem reject_tape (e : MatchingEngine) {command : EngineCommand} {status : EngineResult}
    (id : OrderId) (hstatus : status ≠ .accepted) :
    CallTape e command (e.reject status id) [] [] [] [] where
  sink_eq := (List.append_nil _).symm
  trades_eq := rfl
  announced _ _ haccepted := absurd haccepted hstatus
  unannounced _ := rfl
  rested_eq := ⟨Nat.zero_le _, fun _ ho => nomatch ho⟩
  filled_eq := by
    unfold flagged
    cases command.newOrder? <;> rfl
  cancelled_eq := rfl
  balance := by
    simp only [List.append_nil]
    exact List.Perm.refl _

theorem cancel_tape (hw : e.book.WellFormed) {id : OrderId} {s : Side} {x : Slot}
    (hc : Cancellation e id s x (e.cancel id)) :
    CallTape e (.cancel id) (e.cancel id)
      [Action.cancellation (e.book.data x)] [] [] [e.book.data x] where
  sink_eq := hc.sink
  trades_eq := by
    rw [hc.response]
    rfl
  announced _ horder := nomatch horder
  unannounced _ := rfl
  rested_eq := ⟨Nat.zero_le _, fun _ ho => nomatch ho⟩
  filled_eq := rfl
  cancelled_eq := rfl
  balance := by
    rcases hc.without.resting_perm hw hc.resting with ⟨hside, hother⟩
    apply List.Perm.map
    rw [List.append_nil, List.nil_append]
    have hmoved : (e.book.resting s ++ e.book.resting s.opposite).Perm
        (e.book.data x :: ((e.cancel id).engine.book.resting s ++
          (e.cancel id).engine.book.resting s.opposite)) := by
      rw [hother]
      exact hside.append_right _
    have hregrouped := ((e.cancel id).engine.restingOrders_perm s).symm.cons (e.book.data x)
    exact ((e.restingOrders_perm s).trans (hmoved.trans hregrouped)).trans
      (List.perm_append_singleton _ _).symm

theorem submit_tape {order : NewOrder} (ha : Admission e order (e.submit order)) :
    CallTape e order.toCommand (e.submit order)
      (order.acceptance :: Action.events order.incoming e.nextTradeSequence
        (e.sweepOf order).actions)
      (e.restedBy order).toList (Action.consumedOrders (e.sweepOf order).actions)
      (Action.pulledOrders (e.sweepOf order).actions) where
  sink_eq := ha.sink
  trades_eq := by
    rw [ha.trades]
    exact Action.trade_events _ _ _
  announced order' horder _ := by
    rw [NewOrder.newOrder?_toCommand, Option.some.injEq] at horder
    rw [← horder]
    exact ⟨_, rfl, Action.accepted_events _ _ _⟩
  unannounced h := by
    rw [NewOrder.newOrder?_toCommand] at h
    rcases h with hnone | hstatus
    · cases hnone
    · exact absurd ha.status hstatus
  rested_eq := by
    cases hrest : e.restedBy order with
    | none => exact ⟨Nat.zero_le _, fun _ ho => nomatch ho⟩
    | some o =>
        rcases restedBy_some hrest with ⟨lo, rfl, -, rfl⟩
        refine ⟨Nat.le_refl _, fun o ho => ⟨_, rfl, ?_⟩⟩
        rw [List.mem_singleton.mp ho, ha.remainingQty]
        exact ⟨rfl, rfl, rfl⟩
  filled_eq := by
    unfold flagged
    rw [NewOrder.newOrder?_toCommand, ha.trades]
    exact Action.flagged_trades (fun a h => sweepOf_actions h) _
  cancelled_eq := Action.cancelled_events _ _ _
  balance := by
    have hopposing : (Action.removed (e.sweepOf order).actions).map lot ++
        (e.sweepOf order).left.map lot = (e.book.resting order.side.opposite).map lot :=
      Incoming.map_removed_append_left lot (fun _ _ => rfl) _ _
    have hremoved := (Action.removed_perm (e.sweepOf order).actions).map lot
    have hown := (queue_perm order.side (e.restedBy order) (e.book.resting order.side)).map lot
    have hbefore := (e.restingOrders_perm order.side).map lot
    have hafter := ((e.submit order).engine.restingOrders_perm order.side).map lot
    rw [← ha.own] at hown
    rw [List.map_append] at hbefore hafter hown
    rw [ha.opposing] at hafter
    rw [← hopposing] at hbefore
    rw [List.map_append, List.map_append]
    -- both sides of the book are counted, the new order on the left and what left it on the right
    rw [List.perm_iff_count] at hremoved hown hbefore hafter ⊢
    intro o
    have hremoved := hremoved o
    have hown := hown o
    have hbefore := hbefore o
    have hafter := hafter o
    simp only [List.count_append] at hown hbefore hafter ⊢
    omega

theorem exec_tape (hw : e.book.WellFormed) (command : EngineCommand) :
    exists events rested filled cancelled,
      CallTape e command (e.exec command) events rested filled cancelled := by
  rcases exec_cases hw command with ⟨status, id, hstatus, hcall⟩ |
    ⟨order, rfl, hcall, -, ha⟩ | ⟨id, s, x, rfl, hc⟩
  · rw [hcall]
    exact ⟨_, _, _, _, reject_tape e id hstatus⟩
  · rw [hcall]
    exact ⟨_, _, _, _, submit_tape ha⟩
  · exact ⟨_, _, _, _, cancel_tape hw hc⟩

theorem exec_sequences (hw : e.book.WellFormed) (command : EngineCommand) :
    (e.exec command).response.trades.map Trade.tradeSequence =
        (List.range (e.exec command).response.trades.length).map e.nextTradeSequence.advance ∧
      (e.exec command).engine.nextTradeSequence =
        e.nextTradeSequence.advance (e.exec command).response.trades.length := by
  rcases exec_cases hw command with ⟨status, id, hstatus, hcall⟩ |
    ⟨order, rfl, hcall, -, ha⟩ | ⟨id, s, x, rfl, hc⟩
  · rw [hcall]
    exact ⟨rfl, (TradeSequence.advance_zero _).symm⟩
  · rw [hcall, ha.nextTradeSequence, ha.trades, Action.length_trades]
    exact ⟨Action.sequences_trades _ _ _, rfl⟩
  · have hexec : e.exec (.cancel id) = e.cancel id := rfl
    rw [hexec, hc.response, hc.nextTradeSequence]
    exact ⟨rfl, (TradeSequence.advance_zero _).symm⟩

end Calls

/-!
## Runs
-/

def tape (e : MatchingEngine) (commands : List EngineCommand) : List Trade :=
  (e.calls commands).flatMap (fun call => call.response.trades)

theorem tape_cons (e : MatchingEngine) (command : EngineCommand) (rest : List EngineCommand) :
    e.tape (command :: rest) =
      (e.exec command).response.trades ++ (e.exec command).engine.tape rest := rfl

theorem map_advance_append (sequence : TradeSequence) (m n : Nat) :
    (List.range m).map sequence.advance ++
        (List.range n).map (sequence.advance m).advance =
      (List.range (m + n)).map sequence.advance := by
  rw [List.range_add, List.map_append, List.map_map]
  congr 1
  apply List.map_congr_left
  intro i _
  exact TradeSequence.advance_advance sequence m i

theorem run_tape {e : MatchingEngine} (hw : e.book.WellFormed)
    (commands : List EngineCommand) :
    (e.run commands).sink.filterMap SinkEvent.trade? =
        e.sink.filterMap SinkEvent.trade? ++ e.tape commands ∧
      (e.tape commands).map Trade.tradeSequence =
        (List.range (e.tape commands).length).map e.nextTradeSequence.advance := by
  induction commands generalizing e with
  | nil => exact ⟨(List.append_nil _).symm, rfl⟩
  | cons command rest ih =>
      rcases exec_tape hw command with ⟨events, rested, filled, cancelled, htape⟩
      rcases exec_sequences hw command with ⟨hsequences, hnext⟩
      rcases ih (exec_wellFormed hw command) with ⟨hsink, hrest⟩
      rw [tape_cons]
      constructor
      · show ((e.exec command).engine.run rest).sink.filterMap SinkEvent.trade? = _
        rw [hsink, htape.sink_eq, List.filterMap_append, htape.trades_eq, List.append_assoc]
      · rw [List.map_append, hsequences, hrest, hnext, map_advance_append, List.length_append]

end MatchingEngine

/-!
## The flag of a trade
-/

namespace MatchState

variable {m : MatchState} {c : Incoming} {level : LevelPtr} {x : Slot} {rest : List Slot}

/-- The flag, set before the quantities are updated, is right about the book afterwards. -/
theorem flag_iff (hw : m.WellFormed) (hx : m.facing c = x :: rest)
    (hlevel : level = ⟨c.side.opposite, (m.engine.book.data x).price⟩) :
    (c.tradeWith (m.engine.book.data x) m.remaining
        m.engine.nextTradeSequence).restingOrderRemoved = true <->
      forall s, x ∉ (m.fillResting c level x).engine.book.restingSlots s := by
  rcases bookFill_wellFormed hw hx hlevel with ⟨hfilled, hslots⟩
  have hfacing : (m.bookFill c level x).facing c = x :: rest := by
    unfold facing at hx ⊢
    rw [hslots, hx]
  show m.fullyConsumed x = true <-> _
  cases hfull : m.fullyConsumed x with
  | true =>
      have hwithout := cancelOwn_without hfilled hfacing
      rw [fillResting_of_consumed hfull]
      refine ⟨fun _ s hmem => ?_, fun _ => rfl⟩
      have hslots := hwithout.restingSlots_eq s
      exact (OrderBook.WellFormed.nodup hfilled s).not_mem_erase (hslots ▸ hmem)
  | false =>
      rw [fillResting_of_not_consumed hfull]
      refine ⟨fun h => absurd h (by decide), fun hgone => ?_⟩
      exact absurd (mem_facing hfacing) (hgone _)

end MatchState

namespace MatchingEngine

/--
Every step that the matching of an order makes trades with at most one resting
order, and flags the trade exactly if that order is then no longer in the book.
-/
def FlagsExact (e : MatchingEngine) (order : NewOrder) : Prop :=
  forall p r p' r',
    LoopRun order.incoming
      (.outer, MatchRun.start (e.accept order) order.quantity) (p, r) ->
    LoopStep order.incoming (p, r) (p', r') ->
    r'.trades = r.trades ∨
      exists x trade, x ∈ r.engine.book.restingSlots order.side.opposite ∧
        r'.trades = r.trades ++ [trade] ∧
        Trade.counterparty order.side trade =
          ((r.engine.book.data x).id, (r.engine.book.data x).price) ∧
        (trade.restingOrderRemoved = true <->
          forall s, x ∉ r'.engine.book.restingSlots s)

theorem flagsExact {e : MatchingEngine} (hw : e.book.WellFormed) (order : NewOrder) :
    e.FlagsExact order := by
  intro p r p' r' hrun hstep
  have hwr : r.WellFormed :=
    (loopRun_invariant (P := fun _ => True)
      (a := (.outer, MatchRun.start (e.accept order) order.quantity)) hw
      (fun _ _ _ => trivial) trivial hrun).left
  cases hstep with
  | @fill _ x rest hrem hfacing hcross hother =>
      refine Or.inr ⟨x, _, MatchState.mem_facing hfacing, MatchState.tape_fillResting.left, ?_,
        MatchState.flag_iff hwr hfacing rfl⟩
      exact Trade.counterparty_tradeWith order.incoming _ _ _
  | cancelOwn hrem hfacing hcross hown => exact Or.inl rfl
  | exhausted hrem => exact Or.inl rfl
  | noLiquidity hrem hfacing => exact Or.inl rfl
  | noCross hrem hfacing hbeyond => exact Or.inl rfl
  | enter hrem hfacing hcross => exact Or.inl rfl
  | filled hrem => exact Or.inl rfl
  | erased hrem hlevel => exact Or.inl rfl

theorem submit_loopRun {e : MatchingEngine} (hw : e.book.WellFormed) {order : NewOrder}
    (h : e.Admits order) :
    exists r, LoopRun order.incoming
        (.outer, MatchRun.start (e.accept order) order.quantity)
        (.done, r) ∧
      (e.submit order).response.trades = r.trades := by
  refine ⟨e.matched order,
    matchAgainstBook_run (e := e.accept order) hw order.incoming order.quantity, ?_⟩
  rw [submit_of_admits h]
  rfl

/--
Over every run the responses and the sink carry one tape, which the 64-bit
counter numbers from zero; every call accounts for its events; and every fill
flags its trade truly.
-/
theorem run_one_trade_tape (raw : Memory) (capacity : UInt64) (stp : StpConfig)
    (commands : List EngineCommand) :
    let e := new raw capacity stp
    (e.run commands).sink.filterMap SinkEvent.trade? = e.tape commands ∧
    (e.tape commands).map (fun trade => trade.tradeSequence.value.toNat) =
      (List.range (e.tape commands).length).map (fun i => i % 2 ^ 64) ∧
    (forall v, v ∈ e.visits commands -> exists events rested filled cancelled,
      CallTape v.1 v.2 (v.1.exec v.2) events rested filled cancelled) ∧
    (forall v, v ∈ e.visits commands -> forall order, v.2 = order.toCommand ->
      (v.1.exec v.2).response.status = .accepted ->
      v.1.FlagsExact order ∧
      exists r, LoopRun order.incoming
          (.outer, MatchRun.start (v.1.accept order) order.quantity)
          (.done, r) ∧
        (v.1.exec v.2).response.trades = r.trades) := by
  intro e
  rcases run_tape (e := e) (OrderBook.WellFormed.new raw capacity) commands with
    ⟨hsink, hsequences⟩
  refine ⟨hsink, ?_, fun v hv => exec_tape (visits_wellFormed hv) v.2, ?_⟩
  · have hvalues := congrArg (List.map (fun s : TradeSequence => s.value.toNat)) hsequences
    rw [List.map_map, List.map_map] at hvalues
    refine hvalues.trans (List.map_congr_left ?_)
    intro i _
    show (UInt64.toNat (0 + UInt64.ofNat i)) = i % 2 ^ 64
    rw [UInt64.zero_add, UInt64.toNat_ofNat']
  · intro v hv order horder haccepted
    have hw := visits_wellFormed hv
    have hexec : v.1.exec v.2 = v.1.submit order := by
      rw [horder]
      cases order <;> rfl
    rw [hexec] at haccepted ⊢
    exact ⟨flagsExact hw order, submit_loopRun hw (admits_of_accepted haccepted)⟩

end MatchingEngine

/-!
## A counter that wraps around

Two clients trade one unit with each other 2^64 times, which uses up all their
ids, and two others trade once more.  The last trade is numbered zero again.
-/

namespace RoundTrips

open MatchingEngine

def roundTrip (seller buyer : ClientId) (id : OrderId) : List EngineCommand :=
  [.limit { id := id, side := .sell, price := ⟨100⟩, quantity := ⟨1⟩, owner := seller },
    .market { id := id, side := .buy, quantity := ⟨1⟩, owner := buyer }]

def roundTrips (n : Nat) : List EngineCommand :=
  (List.range n).flatMap (fun i => roundTrip ⟨1⟩ ⟨2⟩ ⟨UInt64.ofNat i⟩)

structure Flat (e : MatchingEngine) : Prop where
  wellFormed : e.book.WellFormed
  stp : e.stp = {}
  capacity : e.book.pool.capacity = 1
  bids : e.book.resting .buy = []
  asks : e.book.resting .sell = []

theorem Flat.new : Flat (MatchingEngine.new Memory.zeroed 1 {}) where
  wellFormed := OrderBook.WellFormed.new _ _
  stp := rfl
  capacity := (OrderPool.new_spec Memory.zeroed 1).left
  bids := OrderBook.WellFormed.resting_new _ _ _
  asks := OrderBook.WellFormed.resting_new _ _ _

section Step

variable {e : MatchingEngine} {owner : ClientId} {id : OrderId}

theorem unit_pos : Quantity.zero < (⟨1⟩ : Quantity) := by decide

def offer (owner : ClientId) (id : OrderId) : NewOrder :=
  .limit { id := id, side := .sell, price := ⟨100⟩, quantity := ⟨1⟩, owner := owner }

def take (owner : ClientId) (id : OrderId) : NewOrder :=
  .market { id := id, side := .buy, quantity := ⟨1⟩, owner := owner }

def resting (e : MatchingEngine) (owner : ClientId) (id : OrderId) : RestingOrder where
  id := id
  side := .sell
  price := ⟨100⟩
  quantity := ⟨1⟩
  sequence := e.nextSequence
  owner := owner

theorem Flat.admits_offer (h : Flat e) (hfresh : e.atOrBelowWatermark owner id = false) :
    e.Admits (offer owner id) where
  quantity_pos := unit_pos
  price_pos p hp := by
    cases hp
    show Price.zero < (⟨100⟩ : Price)
    decide
  fresh := hfresh
  noSelfCross := by
    unfold rejectsSelfCross
    rw [h.stp]
    rfl
  slot _ := by
    have hcount := h.wellFormed.count.left
    rw [h.bids, h.asks, h.capacity] at hcount
    simp only [List.length_nil] at hcount
    omega

theorem Flat.offered (h : Flat e) (hfresh : e.atOrBelowWatermark owner id = false) :
    Admission e (offer owner id) (e.submit (offer owner id)) ∧
      e.sweepOf (offer owner id) = Sweep.stop ⟨1⟩ [] ∧
      (e.submit (offer owner id)).engine.book.resting .sell = [resting e owner id] := by
  have ha := admission h.wellFormed (h.admits_offer hfresh)
  have hrest : e.restedBy (offer owner id) = some (resting e owner id) :=
    restedBy_alone unit_pos h.bids
  refine ⟨ha, sweepOf_alone h.bids, ?_⟩
  have hown : (e.submit (offer owner id)).engine.book.resting .sell =
      queue .sell (e.restedBy (offer owner id)) (e.book.resting .sell) := ha.own
  rw [hown, hrest, h.asks]
  rfl

end Step

theorem Flat.roundTrip {e : MatchingEngine} (h : Flat e) {seller buyer : ClientId}
    {id : OrderId} (hne : seller ≠ buyer) (hseller : e.atOrBelowWatermark seller id = false)
    (hbuyer : e.atOrBelowWatermark buyer id = false) :
    Flat (e.run (roundTrip seller buyer id)) ∧
      (e.tape (roundTrip seller buyer id)).length = 1 ∧
      (e.run (roundTrip seller buyer id)).lastAcceptedId =
        Function.update (Function.update e.lastAcceptedId seller (some id)) buyer (some id) := by
  rcases h.offered hseller with ⟨ha, hsweep, hasks⟩
  have hstp := ha.stp.trans h.stp
  have hbids : (e.submit (offer seller id)).engine.book.resting .buy = [] :=
    ha.opposing.trans (by rw [hsweep]; rfl)
  have hadmits : (e.submit (offer seller id)).engine.Admits (take buyer id) :=
    { quantity_pos := unit_pos
      price_pos := fun p hp => nomatch hp
      fresh := by
        show (e.submit (offer seller id)).engine.atOrBelowWatermark buyer id = false
        unfold atOrBelowWatermark at hbuyer ⊢
        rw [ha.lastAcceptedId]
        exact (Function.update_of_ne hne.symm (some id) e.lastAcceptedId) ▸ hbuyer
      noSelfCross := by
        unfold rejectsSelfCross
        rw [hstp]
        rfl
      slot := fun hlimit => nomatch hlimit }
  have ha' := admission ha.wellFormed hadmits
  have hsweep' : (e.submit (offer seller id)).engine.sweepOf (take buyer id) =
      { actions := [.fill (resting e seller id) ⟨1⟩ ⟨1⟩]
        remaining := Quantity.zero
        left := [] } := by
    show Incoming.sweep _ _ ⟨1⟩ ((e.submit (offer seller id)).engine.book.resting .sell) = _
    rw [hasks, Incoming.sweep_full rfl (by rw [hstp]; rfl) unit_pos (le_refl (⟨1⟩ : Quantity))]
    show Sweep.cons _ (Incoming.sweep _ _ ((⟨1⟩ : Quantity) - ⟨1⟩) []) = _
    rw [Quantity.sub_self]
    rfl
  refine ⟨?_, ?_, ?_⟩
  · exact
      { wellFormed := ha'.wellFormed
        stp := ha'.stp.trans hstp
        capacity := ha'.capacity.trans (ha.capacity.trans h.capacity)
        bids := ha'.own.trans hbids
        asks := ha'.opposing.trans (by rw [hsweep']) }
  · show ((e.submit (offer seller id)).response.trades ++
      (((e.submit (offer seller id)).engine.submit
        (take buyer id)).response.trades ++ [])).length = 1
    rw [ha.trades, ha'.trades, hsweep, hsweep']
    rfl
  · show ((e.submit (offer seller id)).engine.submit (take buyer id)).engine.lastAcceptedId = _
    rw [ha'.lastAcceptedId, ha.lastAcceptedId]
    rfl

theorem tape_append (e : MatchingEngine) (before after : List EngineCommand) :
    e.tape (before ++ after) = e.tape before ++ (e.run before).tape after := by
  unfold tape calls visits
  rw [Machine.visits_append, List.map_append, List.flatMap_append]
  rfl

/-- After `n` round trips of the first two clients. -/
structure Tripped (n : Nat) (e : MatchingEngine) : Prop extends Flat e where
  last : forall owner, owner = ⟨1⟩ ∨ owner = ⟨2⟩ ->
    e.lastAcceptedId owner = if n = 0 then none else some ⟨UInt64.ofNat (n - 1)⟩
  others : forall owner, owner ≠ ⟨1⟩ -> owner ≠ ⟨2⟩ -> e.lastAcceptedId owner = none

theorem Tripped.fresh {n : Nat} {e : MatchingEngine} (h : Tripped n e) (hn : n < 2 ^ 64)
    {owner : ClientId} (howner : owner = ⟨1⟩ ∨ owner = ⟨2⟩) :
    e.atOrBelowWatermark owner ⟨UInt64.ofNat n⟩ = false := by
  have hlast := h.last owner howner
  by_cases hzero : n = 0
  · rw [if_pos hzero] at hlast
    unfold atOrBelowWatermark
    rw [hlast]
  · rw [if_neg hzero] at hlast
    exact fresh_of_last hlast (by omega) hn

theorem roundTrips_tripped {n : Nat} (hn : n <= 2 ^ 64) :
    Tripped n ((new Memory.zeroed 1 {}).run (roundTrips n)) ∧
      ((new Memory.zeroed 1 {}).tape (roundTrips n)).length = n := by
  induction n with
  | zero =>
      exact ⟨{ Flat.new with last := fun _ _ => rfl, others := fun _ _ _ => rfl }, rfl⟩
  | succ n ih =>
      rcases ih (Nat.le_of_succ_le hn) with ⟨h, hlength⟩
      rcases h.toFlat.roundTrip (by decide) (h.fresh hn (Or.inl rfl)) (h.fresh hn (Or.inr rfl))
        with ⟨hflat, hone, hlast⟩
      have hsplit : roundTrips (n + 1) = roundTrips n ++ roundTrip ⟨1⟩ ⟨2⟩ ⟨UInt64.ofNat n⟩ := by
        unfold roundTrips
        rw [List.range_succ, List.flatMap_append]
        simp
      rw [hsplit, tape_append, List.length_append, hlength, hone]
      have hrun : (new Memory.zeroed 1 {}).run
          (roundTrips n ++ roundTrip ⟨1⟩ ⟨2⟩ ⟨UInt64.ofNat n⟩) =
          ((new Memory.zeroed 1 {}).run (roundTrips n)).run
            (roundTrip ⟨1⟩ ⟨2⟩ ⟨UInt64.ofNat n⟩) := Machine.run_append _ _ _ _
      rw [hrun]
      refine ⟨{ hflat with last := ?_, others := ?_ }, rfl⟩
      · intro owner howner
        rw [hlast, if_neg (Nat.succ_ne_zero n), Nat.add_sub_cancel]
        by_cases htwo : owner = ⟨2⟩
        · rw [htwo, Function.update_self]
        · rw [Function.update_of_ne htwo, howner.resolve_right htwo, Function.update_self]
      · intro owner hone htwo
        rw [hlast, Function.update_of_ne htwo, Function.update_of_ne hone]
        exact h.others owner hone htwo

def wrappingTape (n : Nat) : List EngineCommand :=
  roundTrips n ++ roundTrip ⟨3⟩ ⟨4⟩ ⟨0⟩

theorem not_nodup_of_wrap {n : Nat} (hn : n = 2 ^ 64) :
    ¬ (((new Memory.zeroed 1 {}).tape (wrappingTape n)).map Trade.tradeSequence).Nodup := by
  rcases roundTrips_tripped (Nat.le_of_eq hn) with ⟨h, hlength⟩
  have hfresh : forall owner, owner ≠ ⟨1⟩ -> owner ≠ ⟨2⟩ ->
      ((new Memory.zeroed 1 {}).run (roundTrips n)).atOrBelowWatermark owner ⟨0⟩ = false := by
    intro owner hone htwo
    unfold atOrBelowWatermark
    rw [h.others owner hone htwo]
  have hone : (((new Memory.zeroed 1 {}).run (roundTrips n)).tape
      (roundTrip ⟨3⟩ ⟨4⟩ ⟨0⟩)).length = 1 :=
    (h.toFlat.roundTrip (by decide) (hfresh _ (by decide) (by decide))
      (hfresh _ (by decide) (by decide))).right.left
  have htotal : ((new Memory.zeroed 1 {}).tape (wrappingTape n)).length = n + 1 := by
    unfold wrappingTape
    rw [tape_append, List.length_append, hlength, hone]
  have hsequences := (run_tape (e := new Memory.zeroed 1 {}) (OrderBook.WellFormed.new _ _)
    (wrappingTape n)).right
  rw [hsequences, htotal]
  intro hnodup
  have hsame : TradeSequence.advance ⟨0⟩ n = TradeSequence.advance ⟨0⟩ 0 := by
    unfold TradeSequence.advance
    rw [hn]
    rfl
  have hzero := List.inj_on_of_nodup_map hnodup (List.mem_range.mpr (Nat.lt_succ_self n))
    (List.mem_range.mpr (Nat.succ_pos n)) hsame
  omega

/-- After 2^64 trades the numbers start again. -/
theorem trade_sequences_repeat :
    ¬ (((new Memory.zeroed 1 {}).tape (wrappingTape (2 ^ 64))).map Trade.tradeSequence).Nodup :=
  not_nodup_of_wrap rfl

end RoundTrips
end MiniExchange
