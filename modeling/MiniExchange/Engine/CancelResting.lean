import MiniExchange.Engine.Calls

/-!
# Matching around one's own orders

Under `CancelResting` the submitter's own orders are pulled from inside the
sweep.  The sweep trades exactly as it would on a book without these orders and
without self-trade prevention, and the orders it pulls are those it walks past.
-/

namespace MiniExchange

open Foundation

namespace Action

def traded? : Action -> Option RestingOrder
  | fill resting _ _ => some resting
  | cancelOwn _ => none

def pulled? : Action -> Option RestingOrder
  | fill _ _ _ => none
  | cancelOwn resting => some resting

def tradedWith (actions : List Action) : List RestingOrder :=
  actions.filterMap traded?

def pulledOrders (actions : List Action) : List RestingOrder :=
  actions.filterMap pulled?

def isFill : Action -> Bool
  | fill _ _ _ => true
  | cancelOwn _ => false

def announcement (resting : RestingOrder) : OrderCancelled where
  id := resting.id
  remainingQty := resting.quantity
  side := resting.side
  price := resting.price

theorem cancelled_events (c : Incoming) (sequence : TradeSequence) (actions : List Action) :
    (events c sequence actions).filterMap SinkEvent.cancelled? =
      (pulledOrders actions).map announcement := by
  induction actions generalizing sequence with
  | nil => rfl
  | cons action rest ih =>
      cases action with
      | fill o remaining qty => exact ih sequence.next
      | cancelOwn o => exact congrArg (List.cons (announcement o)) (ih sequence)

theorem trades_filter_isFill (c : Incoming) (sequence : TradeSequence)
    (actions : List Action) :
    trades c sequence (actions.filter isFill) = trades c sequence actions := by
  induction actions generalizing sequence with
  | nil => rfl
  | cons action rest ih =>
      cases action with
      | fill o remaining qty => exact congrArg (List.cons _) (ih sequence.next)
      | cancelOwn o => exact ih sequence

end Action

/-- The id and the price of the resting order that a trade was made with. -/
def Trade.counterparty (incoming : Side) (t : Trade) : OrderId × Price :=
  match incoming with
  | .buy => (t.sellOrderId, t.price)
  | .sell => (t.buyOrderId, t.price)

theorem Trade.counterparty_tradeWith (c : Incoming) (o : RestingOrder) (remaining : Quantity)
    (sequence : TradeSequence) :
    counterparty c.side (c.tradeWith o remaining sequence) = (o.id, o.price) := by
  unfold counterparty Incoming.tradeWith
  cases c.side <;> rfl

theorem Action.counterparties (c : Incoming) (sequence : TradeSequence)
    (actions : List Action) :
    (trades c sequence actions).map (Trade.counterparty c.side) =
      (tradedWith actions).map (fun o => (o.id, o.price)) := by
  induction actions generalizing sequence with
  | nil => rfl
  | cons action rest ih =>
      cases action with
      | fill o remaining qty =>
          show Trade.counterparty c.side _ :: _ = (o.id, o.price) :: _
          rw [Trade.counterparty_tradeWith, ih sequence.next]
          rfl
      | cancelOwn o => exact ih sequence

namespace Incoming

variable {c : Incoming} {pulls : RestingOrder -> Bool}

theorem sweep_filter (hquantity : forall o q, pulls { o with quantity := q } = pulls o)
    (remaining : Quantity) {orders : List RestingOrder}
    (hsorted : PriorityList.Sorted c.side.opposite.better (fun o => o.price) orders) :
    c.sweep (fun _ => false) remaining (orders.filter (fun o => !pulls o)) =
      { actions := (c.sweep pulls remaining orders).actions.filter Action.isFill
        remaining := (c.sweep pulls remaining orders).remaining
        left := (c.sweep pulls remaining orders).left.filter (fun o => !pulls o) } := by
  revert hsorted
  apply sweep_induction (P := fun remaining orders s =>
    PriorityList.Sorted c.side.opposite.better (fun o => o.price) orders ->
      c.sweep (fun _ => false) remaining (orders.filter (fun o => !pulls o)) =
        { actions := s.actions.filter Action.isFill
          remaining := s.remaining
          left := s.left.filter (fun o => !pulls o) })
  case stop =>
    intro remaining orders hstop hsorted
    apply sweep_stop
    intro hpos o ho
    -- the first order that is not pulled stands behind the first order
    have hmem : o ∈ orders := (List.mem_filter.mp (List.mem_of_mem_head? ho)).left
    cases orders with
    | nil => cases hmem
    | cons a rest =>
        have hbeyond := hstop hpos a rfl
        rcases List.mem_cons.mp hmem with heq | hrest
        · exact heq ▸ hbeyond
        · exact beyondLimit_mono ((List.pairwise_cons.mp hsorted).left o hrest) hbeyond
  case own =>
    intro remaining o rest s _ hpulls _ ih hsorted
    rw [List.filter_cons_of_neg (by simp [hpulls])]
    exact ih (List.pairwise_cons.mp hsorted).right
  case full =>
    intro remaining o rest s hcross hpulls hpos hle ih hsorted
    rw [List.filter_cons_of_pos (by simp [hpulls]), sweep_full hcross rfl hpos hle,
      ih (List.pairwise_cons.mp hsorted).right]
    rfl
  case absorbed =>
    intro remaining o rest hcross hpulls hpos hlt hsorted
    have hleft : pulls { o with quantity := o.quantity - remaining } = false :=
      (hquantity o _).trans hpulls
    rw [List.filter_cons_of_pos (by simp [hpulls]), sweep_absorbed hcross rfl hpos hlt]
    simp [hleft]
    rfl

theorem pulledOrders_append_left (hquantity : forall o q, pulls { o with quantity := q } = pulls o)
    (remaining : Quantity) (orders : List RestingOrder) :
    Action.pulledOrders (c.sweep pulls remaining orders).actions ++
      (c.sweep pulls remaining orders).left.filter pulls = orders.filter pulls := by
  apply sweep_induction (P := fun _ orders s =>
    Action.pulledOrders s.actions ++ s.left.filter pulls = orders.filter pulls)
  case stop =>
    intro remaining orders _
    rfl
  case own =>
    intro remaining o rest s _ hpulls _ ih
    rw [List.filter_cons_of_pos hpulls]
    exact congrArg (List.cons o) ih
  case full =>
    intro remaining o rest s _ hpulls _ _ ih
    rw [List.filter_cons_of_neg (by simp [hpulls])]
    exact ih
  case absorbed =>
    intro remaining o rest _ hpulls _ _
    have hleft : pulls { o with quantity := o.quantity - remaining } = false :=
      (hquantity o _).trans hpulls
    simp [Action.pulledOrders, Action.pulled?, hleft, hpulls]

theorem pulledOrders_of_remaining (remaining : Quantity) {orders : List RestingOrder}
    (hsorted : PriorityList.Sorted c.side.opposite.better (fun o => o.price) orders)
    (hleft : Quantity.zero < (c.sweep pulls remaining orders).remaining) :
    Action.pulledOrders (c.sweep pulls remaining orders).actions =
      orders.filter (fun o => pulls o && !c.beyondLimit o.price) := by
  revert hsorted hleft
  apply sweep_induction (P := fun _ orders s =>
    PriorityList.Sorted c.side.opposite.better (fun o => o.price) orders ->
      Quantity.zero < s.remaining ->
      Action.pulledOrders s.actions =
        orders.filter (fun o => pulls o && !c.beyondLimit o.price))
  case stop =>
    intro remaining orders hstop hsorted hleft
    symm
    apply List.filter_eq_nil_iff.mpr
    intro o ho
    have hbeyond : c.beyondLimit o.price = true := by
      cases orders with
      | nil => cases ho
      | cons a rest =>
          have hhead := hstop hleft a rfl
          rcases List.mem_cons.mp ho with heq | hrest
          · exact heq ▸ hhead
          · exact beyondLimit_mono ((List.pairwise_cons.mp hsorted).left o hrest) hhead
    simp [hbeyond]
  case own =>
    intro remaining o rest s hcross hpulls _ ih hsorted hleft
    rw [List.filter_cons_of_pos (by simp [hpulls, hcross])]
    exact congrArg (List.cons o) (ih (List.pairwise_cons.mp hsorted).right hleft)
  case full =>
    intro remaining o rest s _ hpulls _ _ ih hsorted hleft
    rw [List.filter_cons_of_neg (by simp [hpulls])]
    exact ih (List.pairwise_cons.mp hsorted).right hleft
  case absorbed =>
    intro remaining o rest _ _ _ _ _ hleft
    exact absurd hleft (lt_irrefl _)

/-- Where an exhausted sweep stopped: at the last order it traded with. -/
def StopsAt (pulls : RestingOrder -> Bool) (orders traded pulled : List RestingOrder) :
    Prop :=
  exists front o back, orders = front ++ o :: back ∧ pulls o = false ∧
    traded = (front ++ [o]).filter (fun o => !pulls o) ∧ pulled = front.filter pulls

theorem stopsAt_of_exhausted {remaining : Quantity} (hpos : Quantity.zero < remaining)
    (orders : List RestingOrder)
    (hzero : (c.sweep pulls remaining orders).remaining = Quantity.zero) :
    StopsAt pulls orders (Action.tradedWith (c.sweep pulls remaining orders).actions)
      (Action.pulledOrders (c.sweep pulls remaining orders).actions) := by
  -- a sweep without anything to match does nothing, which ends the walk at a consumed order
  have h : (¬ Quantity.zero < remaining -> (c.sweep pulls remaining orders).actions = []) ∧
      (Quantity.zero < remaining ->
        (c.sweep pulls remaining orders).remaining = Quantity.zero ->
        StopsAt pulls orders (Action.tradedWith (c.sweep pulls remaining orders).actions)
          (Action.pulledOrders (c.sweep pulls remaining orders).actions)) := by
    apply sweep_induction (P := fun remaining orders s =>
      (¬ Quantity.zero < remaining -> s.actions = []) ∧
        (Quantity.zero < remaining -> s.remaining = Quantity.zero ->
          StopsAt pulls orders (Action.tradedWith s.actions) (Action.pulledOrders s.actions)))
    case stop =>
      intro remaining orders _
      refine ⟨fun _ => rfl, fun hpos hzero => ?_⟩
      exact absurd hpos (Quantity.not_pos_iff.mpr hzero)
    case own =>
      intro remaining o rest s _ hpulls hpos ih
      refine ⟨fun hnot => absurd hpos hnot, fun _ hzero => ?_⟩
      rcases ih.right hpos hzero with ⟨front, last, back, horders, hlast, htraded, hpulled⟩
      refine ⟨o :: front, last, back, by rw [horders]; rfl, hlast, ?_, ?_⟩
      · rw [List.cons_append, List.filter_cons_of_neg (by simp [hpulls])]
        exact htraded
      · rw [List.filter_cons_of_pos hpulls, ← hpulled]
        rfl
    case full =>
      intro remaining o rest s _ hpulls hpos _ ih
      refine ⟨fun hnot => absurd hpos hnot, fun _ hzero => ?_⟩
      by_cases hmore : Quantity.zero < remaining - o.quantity
      · rcases ih.right hmore hzero with ⟨front, last, back, horders, hlast, htraded, hpulled⟩
        refine ⟨o :: front, last, back, by rw [horders]; rfl, hlast, ?_, ?_⟩
        · rw [List.cons_append, List.filter_cons_of_pos (by simp [hpulls]), ← htraded]
          rfl
        · rw [List.filter_cons_of_neg (by simp [hpulls])]
          exact hpulled
      · refine ⟨[], o, rest, rfl, hpulls, ?_, ?_⟩
        · simp [Sweep.cons, ih.left hmore, Action.tradedWith, Action.traded?, hpulls]
        · simp [Sweep.cons, ih.left hmore, Action.pulledOrders, Action.pulled?]
    case absorbed =>
      intro remaining o rest _ hpulls hpos _
      refine ⟨fun hnot => absurd hpos hnot, fun _ _ => ⟨[], o, rest, rfl, hpulls, ?_, rfl⟩⟩
      simp [Action.tradedWith, Action.traded?, hpulls]
  exact h.right hpos hzero

end Incoming

/-!
## The book without an owner's orders
-/

def RestingOrder.ownedBy (owner : ClientId) (o : RestingOrder) : Bool :=
  decide (o.owner = owner)

namespace OrderBook

def deleteAll (b : OrderBook) (xs : List Slot) : OrderBook :=
  xs.foldl removeOrder b

def ownSlots (b : OrderBook) (s : Side) (owner : ClientId) : List Slot :=
  (b.restingSlots s).filter (fun x => (b.data x).ownedBy owner)

structure WithoutAll (b : OrderBook) (xs : List Slot) (b' : OrderBook) : Prop where
  wellFormed : b'.WellFormed
  restingSlots_eq : forall t, b'.restingSlots t =
    (b.restingSlots t).filter (fun y => decide (y ∉ xs))
  data_eq : forall y, y ∉ xs -> b'.data y = b.data y
  available_eq : b'.poolAvailable = b.poolAvailable + xs.length

theorem deleteAll_spec {b : OrderBook} (hw : b.WellFormed) {s : Side} {xs : List Slot}
    (hnodup : xs.Nodup) (hxs : forall x, x ∈ xs -> x ∈ b.restingSlots s) :
    WithoutAll b xs (b.deleteAll xs) := by
  induction xs generalizing b with
  | nil =>
      exact
        { wellFormed := hw
          restingSlots_eq := fun t => by
            symm
            exact List.filter_eq_self.mpr (fun y _ => by simp)
          data_eq := fun y _ => rfl
          available_eq := rfl }
  | cons x xs ih =>
      rcases List.nodup_cons.mp hnodup with ⟨hx, hnodup⟩
      have hr := hw.removeOrder (hxs x List.mem_cons_self)
      have hkept : forall y, y ∈ xs -> y ∈ (b.removeOrder x).restingSlots s := by
        intro y hy
        rw [hr.restingSlots_eq]
        have hne : y ≠ x := fun heq => hx (heq ▸ hy)
        exact (List.mem_erase_of_ne hne).mpr (hxs y (List.mem_cons_of_mem _ hy))
      have hrest := ih hr.wellFormed hnodup hkept
      constructor
      case wellFormed => exact hrest.wellFormed
      case restingSlots_eq =>
        intro t
        show ((b.removeOrder x).deleteAll xs).restingSlots t = _
        rw [hrest.restingSlots_eq, hr.restingSlots_eq, (hw.nodup t).erase_eq_filter,
          List.filter_filter]
        apply List.filter_congr
        intro y _
        by_cases hyx : y = x <;> by_cases hy : y ∈ xs <;> simp [hyx, hy]
      case data_eq =>
        intro y hy
        rw [List.mem_cons, not_or] at hy
        exact (hrest.data_eq y hy.right).trans (hr.data_eq y hy.left)
      case available_eq =>
        show ((b.removeOrder x).deleteAll xs).poolAvailable = _
        rw [hrest.available_eq, hr.available_eq, List.length_cons]
        omega

theorem resting_deleteAll {b b' : OrderBook} (hw : b.WellFormed) {s : Side} {owner : ClientId}
    (h : WithoutAll b (b.ownSlots s owner) b') :
    b'.resting s = (b.resting s).filter (fun o => !o.ownedBy owner) ∧
      b'.resting s.opposite = b.resting s.opposite := by
  have hmap : forall t, b'.resting t =
      ((b.restingSlots t).filter (fun y => decide (y ∉ b.ownSlots s owner))).map b.data := by
    intro t
    rw [OrderBook.resting_eq, h.restingSlots_eq]
    apply List.map_congr_left
    intro y hy
    exact h.data_eq y (of_decide_eq_true (List.mem_filter.mp hy).right)
  constructor
  · rw [hmap, OrderBook.resting_eq, List.filter_map]
    congr 1
    apply List.filter_congr
    intro y hy
    simp [ownSlots, hy]
  · rw [hmap, OrderBook.resting_eq, List.filter_eq_self.mpr]
    intro y hy
    apply decide_eq_true
    intro hown
    exact Side.opposite_ne s (hw.side_unique hy (List.mem_filter.mp hown).left)

end OrderBook

/-!
## Submissions
-/

namespace MatchingEngine

/-- The engine without self-trade prevention, on the book from which an owner's
orders of one side are deleted. -/
def withoutOwn (e : MatchingEngine) (s : Side) (owner : ClientId) : MatchingEngine :=
  { e with
    book := e.book.deleteAll (e.book.ownSlots s owner)
    stp := { e.stp with enabled := false } }

section WithoutOwn

variable {e : MatchingEngine}

theorem withoutOwn_book (hw : e.book.WellFormed) (s : Side) (owner : ClientId) :
    OrderBook.WithoutAll e.book (e.book.ownSlots s owner) (e.withoutOwn s owner).book :=
  OrderBook.deleteAll_spec hw ((hw.nodup s).filter _)
    (fun _ hx => (List.mem_filter.mp hx).left)

theorem withoutOwn_admits (hw : e.book.WellFormed) {order : NewOrder} (h : e.Admits order) :
    (e.withoutOwn order.side.opposite order.owner).Admits order :=
  { quantity_pos := h.quantity_pos
    price_pos := h.price_pos
    fresh := h.fresh
    noSelfCross := rfl
    slot := fun hlimit => by
      have hslot := h.slot hlimit
      rw [(withoutOwn_book hw _ _).available_eq]
      omega }

end WithoutOwn

/-- A call is the match around the submitter's own orders, which `alone` performs. -/
structure MatchesAround (e : MatchingEngine) (order : NewOrder) (call alone : EngineCall) :
    Prop where
  accepted : alone.response.status = .accepted
  trades : call.response.trades = alone.response.trades
  remainingQty : call.response.remainingQty = alone.response.remainingQty
  foreign : (call.engine.book.resting order.side.opposite).filter
      (fun o => !o.ownedBy order.owner) =
    alone.engine.book.resting order.side.opposite
  own : call.engine.book.resting order.side = alone.engine.book.resting order.side
  cancelled : exists cancelled events,
    (e.book.resting order.side.opposite).filter (RestingOrder.ownedBy order.owner) =
      cancelled ++ (call.engine.book.resting order.side.opposite).filter
        (RestingOrder.ownedBy order.owner) ∧
    call.engine.sink = e.sink ++ events ∧
    events.filterMap SinkEvent.cancelled? = cancelled.map Action.announcement ∧
    (Quantity.zero < call.response.remainingQty ->
      cancelled = (e.book.resting order.side.opposite).filter (fun o =>
        o.ownedBy order.owner && !order.incoming.beyondLimit o.price)) ∧
    (call.response.remainingQty = Quantity.zero ->
      exists traded,
        call.response.trades.map (Trade.counterparty order.side) =
          traded.map (fun o => (o.id, o.price)) ∧
        Incoming.StopsAt (RestingOrder.ownedBy order.owner)
          (e.book.resting order.side.opposite) traded cancelled)

def cancelsResting : StpConfig where
  enabled := true
  policy := .cancelResting

section Around

variable {e : MatchingEngine} {order : NewOrder}

theorem pulls_cancelsResting (hstp : e.stp = cancelsResting) :
    order.pulls e.stp = RestingOrder.ownedBy order.owner := by
  funext o
  rw [hstp]
  rfl

theorem sweepOf_withoutOwn (hw : e.book.WellFormed) (hstp : e.stp = cancelsResting) :
    (e.withoutOwn order.side.opposite order.owner).sweepOf order =
      { actions := (e.sweepOf order).actions.filter Action.isFill
        remaining := (e.sweepOf order).remaining
        left := (e.sweepOf order).left.filter (fun o => !o.ownedBy order.owner) } := by
  have hpulls : order.pulls (e.withoutOwn order.side.opposite order.owner).stp =
      fun _ => false := rfl
  unfold sweepOf
  rw [hpulls, pulls_cancelsResting hstp,
    (OrderBook.resting_deleteAll hw (withoutOwn_book hw _ _)).left]
  exact Incoming.sweep_filter (fun _ _ => rfl) _ (hw.ordered order.side.opposite)

theorem restedBy_withoutOwn (hw : e.book.WellFormed) (hstp : e.stp = cancelsResting) :
    (e.withoutOwn order.side.opposite order.owner).restedBy order = e.restedBy order := by
  cases order with
  | limit o =>
      have hremaining :
          ((e.withoutOwn o.side.opposite o.owner).sweepOf (.limit o)).remaining =
            (e.sweepOf (.limit o)).remaining :=
        (congrArg Sweep.remaining (sweepOf_withoutOwn hw hstp)).trans rfl
      show (e.withoutOwn o.side.opposite o.owner).restedBy (.limit o) = _
      simp only [restedBy, hremaining]
      rfl
  | market o => rfl

theorem submit_matchesAround (hw : e.book.WellFormed) (hstp : e.stp = cancelsResting)
    (h : e.Admits order) :
    MatchesAround e order (e.submit order)
      ((e.withoutOwn order.side.opposite order.owner).submit order) := by
  have hbook := withoutOwn_book hw order.side.opposite order.owner
  have hsweep : (e.withoutOwn order.side.opposite order.owner).sweepOf order = _ :=
    sweepOf_withoutOwn hw hstp
  have ha := admission hw h
  have halone := admission hbook.wellFormed (withoutOwn_admits hw h)
  have hpulls : order.pulls e.stp = _ := pulls_cancelsResting hstp
  have hsorted := hw.ordered order.side.opposite
  have hown : (e.withoutOwn order.side.opposite order.owner).book.resting order.side =
      e.book.resting order.side := by
    have hother := (OrderBook.resting_deleteAll hw hbook).right
    rwa [Side.opposite_opposite] at hother
  constructor
  case accepted => exact halone.status
  case trades =>
    rw [ha.trades, halone.trades, hsweep]
    exact (Action.trades_filter_isFill _ _ _).symm
  case remainingQty => rw [ha.remainingQty, halone.remainingQty, hsweep]
  case foreign => rw [ha.opposing, halone.opposing, hsweep]
  case own => rw [ha.own, halone.own, restedBy_withoutOwn hw hstp, hown]
  case cancelled =>
    refine ⟨Action.pulledOrders (e.sweepOf order).actions, _, ?_, ha.sink, ?_, ?_, ?_⟩
    · rw [ha.opposing, ← hpulls]
      exact (Incoming.pulledOrders_append_left (fun _ _ => rfl) _ _).symm
    · exact Action.cancelled_events _ _ _
    · rw [ha.remainingQty, ← hpulls]
      exact Incoming.pulledOrders_of_remaining _ hsorted
    · rw [ha.remainingQty, ← hpulls]
      intro hzero
      refine ⟨Action.tradedWith (e.sweepOf order).actions, ?_, ?_⟩
      · rw [ha.trades]
        exact Action.counterparties order.incoming _ _
      · exact Incoming.stopsAt_of_exhausted h.quantity_pos _ hzero

end Around

/-- Under `CancelResting`, every accepted order is matched around its owner's orders. -/
theorem cancelResting_matches_around_own (raw : Memory) (capacity : UInt64)
    (commands : List EngineCommand) (order : NewOrder)
    (haccepted : (((new raw capacity cancelsResting).run commands).submit
      order).response.status = .accepted) :
    MatchesAround ((new raw capacity cancelsResting).run commands) order
      (((new raw capacity cancelsResting).run commands).submit order)
      ((((new raw capacity cancelsResting).run commands).withoutOwn order.side.opposite
        order.owner).submit order) :=
  submit_matchesAround (run_wellFormed raw capacity cancelsResting commands)
    (run_stp raw capacity cancelsResting commands) (admits_of_accepted haccepted)

def alternatingAsks : List EngineCommand :=
  [.limit { id := ⟨1⟩, side := .sell, price := ⟨100⟩, quantity := ⟨5⟩, owner := ⟨1⟩ },
    .limit { id := ⟨2⟩, side := .sell, price := ⟨100⟩, quantity := ⟨5⟩, owner := ⟨2⟩ },
    .limit { id := ⟨3⟩, side := .sell, price := ⟨101⟩, quantity := ⟨5⟩, owner := ⟨1⟩ },
    .limit { id := ⟨4⟩, side := .sell, price := ⟨101⟩, quantity := ⟨5⟩, owner := ⟨2⟩ },
    .limit { id := ⟨5⟩, side := .sell, price := ⟨101⟩, quantity := ⟨5⟩, owner := ⟨1⟩ }]

def buyThroughOwn : NewOrder :=
  .limit { id := ⟨6⟩, side := .buy, price := ⟨101⟩, quantity := ⟨8⟩, owner := ⟨1⟩ }

theorem cancelResting_buyThroughOwn :
    let e := (new Memory.zeroed 8 cancelsResting).run alternatingAsks
    (e.submit buyThroughOwn).response.status = .accepted ∧
      MatchesAround e buyThroughOwn (e.submit buyThroughOwn)
        ((e.withoutOwn .sell ⟨1⟩).submit buyThroughOwn) := by
  have haccepted : (((new Memory.zeroed 8 cancelsResting).run alternatingAsks).submit
      buyThroughOwn).response.status = .accepted := by decide +kernel
  exact ⟨haccepted, cancelResting_matches_around_own Memory.zeroed 8 alternatingAsks
    buyThroughOwn haccepted⟩

end MatchingEngine
end MiniExchange
