import MiniExchange.Engine.IdIndex

/-!
# The book from events, order by order

A listener that follows the event sink can keep a copy of the whole book: every
resting order with its id, price and open quantity, in the order in which the
orders will be matched.  It enters an accepted limit order at once, and takes
every trade off both of the orders that made it.
-/

namespace MiniExchange

open Foundation

def RestingOrder.listed (o : RestingOrder) : OrderAccepted where
  id := o.id
  side := o.side
  quantity := o.quantity
  price := o.price

/-- What a listener keeps: the order accepted last, and its copy of the book. -/
structure Listing where
  last : Option OrderAccepted
  orders : Side -> List OrderAccepted

namespace Listing

def empty : Listing where
  last := none
  orders _ := []

/-- Take `qty` off the order with the given id, and drop it when nothing is left. -/
def takeOff (id : OrderId) (qty : Quantity) (o : OrderAccepted) : Option OrderAccepted :=
  if o.id = id then
    if o.quantity = qty then none else some { o with quantity := o.quantity - qty }
  else some o

def strike (id : OrderId) (o : OrderAccepted) : Option OrderAccepted :=
  if o.id = id then none else some o

/-- Queue an order behind those of its price; market orders never rest. -/
def enter (order : OrderAccepted) (orders : List OrderAccepted) : List OrderAccepted :=
  if order.price = Price.zero then orders
  else PriorityList.insert order.side.better (fun o => o.price) order orders

/-- The id of the order that was resting when the trade was made. -/
def restingId (order : OrderAccepted) (trade : Trade) : OrderId :=
  match order.side with
  | .buy => trade.sellOrderId
  | .sell => trade.buyOrderId

def follow (l : Listing) : SinkEvent -> Listing
  | .onOrderAccepted event =>
      { last := some event
        orders := Function.update l.orders event.side (enter event (l.orders event.side)) }
  | .onTrade trade =>
      match l.last with
      | none => l
      | some order =>
          { last := l.last
            orders := fun s =>
              if s = order.side.opposite then
                (l.orders s).filterMap (takeOff (restingId order trade) trade.quantity)
              else if order.price = Price.zero then l.orders s
              else (l.orders s).filterMap (takeOff order.id trade.quantity) }
  | .onOrderCancelled event =>
      { last := l.last
        orders := Function.update l.orders event.side
          ((l.orders event.side).filterMap (strike event.id)) }

def replay (l : Listing) (events : List SinkEvent) : Listing :=
  events.foldl follow l

/-!
## Following one submission

While an order is being matched the listener has entered it with what is left of
it, and has the opposing orders that are still to be swept.
-/

def remainder (order : OrderAccepted) (remaining : Quantity) (own : List OrderAccepted) :
    List OrderAccepted :=
  if remaining = Quantity.zero then own
  else enter { order with quantity := remaining } own

structure Tracks (order : OrderAccepted) (own : List OrderAccepted) (remaining : Quantity)
    (orders : List RestingOrder) (l : Listing) : Prop where
  last : l.last = some order
  opposing : l.orders order.side.opposite = orders.map RestingOrder.listed
  own : l.orders order.side = remainder order remaining own

theorem takeOff_of_ne {id : OrderId} {qty : Quantity} {o : OrderAccepted} (h : o.id ≠ id) :
    takeOff id qty o = some o :=
  if_neg h

theorem strike_of_ne {id : OrderId} {o : OrderAccepted} (h : o.id ≠ id) :
    strike id o = some o :=
  if_neg h

theorem remainder_market {order : OrderAccepted} (hprice : order.price = Price.zero)
    (remaining : Quantity) (own : List OrderAccepted) :
    remainder order remaining own = own := by
  unfold remainder enter
  simp [hprice]

theorem filterMap_remainder {order : OrderAccepted} {own : List OrderAccepted}
    (hprice : order.price ≠ Price.zero) (hfresh : forall o, o ∈ own -> o.id ≠ order.id)
    {remaining qty : Quantity} (hpos : Quantity.zero < remaining) (hqty : qty <= remaining) :
    (remainder order remaining own).filterMap (takeOff order.id qty) =
      remainder order (remaining - qty) own := by
  have hown : forall o, o ∈ own -> takeOff order.id qty o = some o :=
    fun o ho => takeOff_of_ne (hfresh o ho)
  have hne : remaining ≠ Quantity.zero := ne_of_gt hpos
  unfold remainder enter
  rw [if_neg hne, if_neg hprice, PriorityList.filterMap_insert hown]
  · by_cases hall : remaining = qty
    · simp [takeOff, hall, Quantity.sub_self]
    · have hrest : remaining - qty ≠ Quantity.zero := by
        intro hzero
        have hunits := Quantity.units_sub_of_le hqty
        rw [hzero] at hunits
        have hle := Quantity.le_iff.mp hqty
        apply hall
        apply le_antisymm _ hqty
        rw [Quantity.le_iff]
        have hzero : Quantity.zero.units = 0 := rfl
        omega
      simp [takeOff, hall, hrest, hprice]
  · intro o ho
    by_cases hall : remaining = qty
    · simp [takeOff, hall] at ho
    · simp only [takeOff, if_true, if_neg hall, Option.some.injEq] at ho
      rw [← ho]

section Sweep

variable {order : OrderAccepted} {own : List OrderAccepted} {remaining : Quantity}
  {o : RestingOrder} {rest : List RestingOrder} {l : Listing}

theorem Tracks.fill (h : Tracks order own remaining (o :: rest) l)
    (hids : ((o :: rest).map (fun o => o.id)).Nodup)
    (hfresh : order.price ≠ Price.zero -> forall o, o ∈ own -> o.id ≠ order.id)
    (hpos : Quantity.zero < remaining) {c : Incoming} (hside : c.side = order.side)
    (sequence : TradeSequence) :
    Tracks order own (remaining - Incoming.fillQty remaining o.quantity)
      (if Incoming.fillQty remaining o.quantity = o.quantity then rest
        else { o with quantity := o.quantity - Incoming.fillQty remaining o.quantity } :: rest)
      (l.follow (.onTrade (c.tradeWith o remaining sequence))) := by
  have hresting : restingId order (c.tradeWith o remaining sequence) = o.id := by
    unfold restingId Incoming.tradeWith
    rw [hside]
    cases order.side <;> rfl
  have hquantity : (c.tradeWith o remaining sequence).quantity =
      Incoming.fillQty remaining o.quantity := rfl
  generalize Incoming.fillQty remaining o.quantity = qty at hquantity ⊢
  have hqty : qty <= remaining := by
    rw [← hquantity]
    exact Incoming.fillQty_le_remaining _ _
  have hrest : forall r, r ∈ rest.map RestingOrder.listed ->
      takeOff o.id qty r = some r := by
    intro r hr
    rcases List.mem_map.mp hr with ⟨a, ha, rfl⟩
    apply takeOff_of_ne
    intro heq
    apply (List.nodup_cons.mp hids).left
    exact List.mem_map.mpr ⟨a, ha, heq⟩
  have hkept := PriorityList.filterMap_fixed hrest
  constructor
  case last =>
    simp only [follow, h.last]
  case opposing =>
    simp only [follow, h.last, if_true, h.opposing, hresting, hquantity]
    by_cases hfull : qty = o.quantity
    · have hgone : takeOff o.id qty o.listed = none := by
        simp [takeOff, RestingOrder.listed, hfull]
      rw [if_pos hfull, List.map_cons, List.filterMap_cons_none hgone, hkept]
    · have hleft : takeOff o.id qty o.listed =
          some { o with quantity := o.quantity - qty }.listed := by
        simp [takeOff, RestingOrder.listed, Ne.symm hfull]
      rw [if_neg hfull, List.map_cons, List.filterMap_cons_some hleft, hkept, List.map_cons]
  case own =>
    simp only [follow, h.last, h.own, hquantity, Side.ne_opposite, if_false]
    by_cases hprice : order.price = Price.zero
    · rw [if_pos hprice, remainder_market hprice, remainder_market hprice]
    · rw [if_neg hprice, filterMap_remainder hprice (hfresh hprice) hpos hqty]

theorem Tracks.pull (h : Tracks order own remaining (o :: rest) l)
    (hids : ((o :: rest).map (fun o => o.id)).Nodup) (hside : o.side = order.side.opposite) :
    Tracks order own remaining rest (l.follow (Action.cancellation o)) := by
  have hother : order.side ≠ o.side := by
    rw [hside]
    exact Side.ne_opposite _
  have hrest : forall r, r ∈ rest.map RestingOrder.listed -> strike o.id r = some r := by
    intro r hr
    rcases List.mem_map.mp hr with ⟨a, ha, rfl⟩
    apply strike_of_ne
    intro heq
    apply (List.nodup_cons.mp hids).left
    exact List.mem_map.mpr ⟨a, ha, heq⟩
  constructor
  case last => exact h.last
  case opposing =>
    have hgone : strike o.id o.listed = none := if_pos rfl
    show Function.update l.orders o.side ((l.orders o.side).filterMap (strike o.id)) _ = _
    rw [← hside, Function.update_self, hside, h.opposing, List.map_cons,
      List.filterMap_cons_none hgone, PriorityList.filterMap_fixed hrest]
  case own =>
    show Function.update l.orders o.side _ order.side = _
    rw [Function.update_of_ne hother]
    exact h.own

end Sweep

/-- Following the events of a sweep gives what the sweep leaves. -/
theorem Tracks.sweep {order : OrderAccepted} {own : List OrderAccepted}
    (hfresh : order.price ≠ Price.zero -> forall o, o ∈ own -> o.id ≠ order.id)
    {c : Incoming} (hside : c.side = order.side) (pulls : RestingOrder -> Bool)
    (remaining : Quantity)
    (orders : List RestingOrder) (hids : (orders.map (fun o => o.id)).Nodup)
    (hopposing : forall o, o ∈ orders -> o.side = order.side.opposite) {l : Listing}
    (h : Tracks order own remaining orders l) (sequence : TradeSequence) :
    Tracks order own (c.sweep pulls remaining orders).remaining
      (c.sweep pulls remaining orders).left
      (l.replay (Action.events c sequence (c.sweep pulls remaining orders).actions)) := by
  revert hids hopposing l sequence
  apply Incoming.sweep_induction (P := fun remaining orders s =>
    (orders.map (fun o => o.id)).Nodup ->
    (forall o, o ∈ orders -> o.side = order.side.opposite) ->
    forall {l : Listing}, Tracks order own remaining orders l -> forall sequence,
      Tracks order own s.remaining s.left (l.replay (Action.events c sequence s.actions)))
  case stop =>
    intro remaining orders _ _ _ l h sequence
    exact h
  case own =>
    intro remaining o rest s _ _ _ ih hids hopposing l h sequence
    apply ih (List.nodup_cons.mp hids).right
      (fun a ha => hopposing a (List.mem_cons_of_mem _ ha))
    exact h.pull hids (hopposing o List.mem_cons_self)
  case full =>
    intro remaining o rest s _ _ hpos hle ih hids hopposing l h sequence
    have hfull : Incoming.fillQty remaining o.quantity = o.quantity := by
      rw [Incoming.fillQty_eq_min, min_eq_right hle]
    have hnext := h.fill hids hfresh hpos hside sequence
    rw [hfull, if_pos rfl] at hnext
    exact ih (List.nodup_cons.mp hids).right
      (fun a ha => hopposing a (List.mem_cons_of_mem _ ha)) hnext sequence.next
  case absorbed =>
    intro remaining o rest _ _ hpos hlt hids hopposing l h sequence
    have hall : Incoming.fillQty remaining o.quantity = remaining := by
      rw [Incoming.fillQty_eq_min, min_eq_left (le_of_lt hlt)]
    have hnext := h.fill hids hfresh hpos hside sequence
    rw [hall, if_neg (ne_of_lt hlt), Quantity.sub_self] at hnext
    exact hnext

theorem replay_append (l : Listing) (before after : List SinkEvent) :
    l.replay (before ++ after) = (l.replay before).replay after :=
  List.foldl_append

end Listing

/-!
## Following whole runs
-/

namespace MatchingEngine

def ListingAgrees (e : MatchingEngine) : Prop :=
  forall s, (Listing.empty.replay e.sink).orders s =
    (e.book.resting s).map RestingOrder.listed

theorem remainder_rested {e : MatchingEngine} {order : NewOrder} (hadmits : e.Admits order)
    (orders : List RestingOrder) :
    Listing.remainder order.announced (e.sweepOf order).remaining
        (orders.map RestingOrder.listed) =
      (queue order.side (e.restedBy order) orders).map RestingOrder.listed := by
  cases order with
  | market o => exact Listing.remainder_market rfl _ _
  | limit o =>
      have hprice : o.price ≠ Price.zero := ne_of_gt (hadmits.price_pos o.price rfl)
      cases hrest : e.restedBy (.limit o) with
      | none => exact if_pos (Quantity.not_pos_iff.mp (restedBy_none hrest))
      | some rested =>
          rcases restedBy_some hrest with ⟨lo, hlo, hpos, rfl⟩
          cases hlo
          refine (if_neg (ne_of_gt hpos)).trans ((if_neg hprice).trans ?_)
          apply Eq.symm
          exact PriorityList.map_insert rfl (fun _ _ => rfl)

variable {e : MatchingEngine}

theorem nodup_ids (h : IndexInvariant e) (s : Side) :
    ((e.book.resting s).map (fun o => o.id)).Nodup := by
  have hdistinct := h.agrees.distinct
  rw [List.map_append, List.nodup_append] at hdistinct
  cases s with
  | buy => exact hdistinct.left
  | sell => exact hdistinct.right.left

theorem submit_listing {order : NewOrder} (hi : IndexInvariant e) (h : e.ListingAgrees)
    (hadmits : e.Admits order) (hfree : IdFreeElsewhere e order.toCommand)
    (ha : Admission e order (e.submit order)) : (e.submit order).engine.ListingAgrees := by
  have hstart : Listing.Tracks order.announced
      ((e.book.resting order.side).map RestingOrder.listed) order.quantity
      (e.book.resting order.side.opposite)
      ((Listing.empty.replay e.sink).follow order.acceptance) := by
    constructor
    case last => rfl
    case opposing =>
      show Function.update _ order.side _ order.side.opposite = _
      rw [Function.update_of_ne (Side.opposite_ne _)]
      exact h order.side.opposite
    case own =>
      show Function.update _ order.side _ order.side = _
      rw [Function.update_self]
      exact (congrArg _ (h order.side)).trans (if_neg (ne_of_gt hadmits.quantity_pos)).symm
  have hfresh : order.announced.price ≠ Price.zero ->
      forall o, o ∈ (e.book.resting order.side).map RestingOrder.listed ->
        o.id ≠ order.announced.id := by
    intro hprice o ho
    cases order with
    | market mo => exact absurd rfl hprice
    | limit lo =>
        rw [OrderBook.resting_eq, List.map_map] at ho
        rcases List.mem_map.mp ho with ⟨x, hx, rfl⟩
        exact hi.fresh_remainder hadmits hfree hx
  have hend := Listing.Tracks.sweep (c := order.incoming) hfresh rfl (order.pulls e.stp)
    order.quantity _
    (nodup_ids hi order.side.opposite) (fun o ho => hi.wellFormed.resting_side ho) hstart
    e.nextTradeSequence
  intro s
  rw [ha.sink, Listing.replay_append]
  rcases Side.eq_or_eq_opposite order.side s with rfl | rfl
  · rw [ha.own, ← remainder_rested hadmits]
    exact hend.own
  · rw [ha.opposing]
    exact hend.opposing

theorem cancel_listing {id : OrderId} {s : Side} {x : Slot} (hi : IndexInvariant e)
    (h : e.ListingAgrees) (hc : Cancellation e id s x (e.cancel id)) :
    (e.cancel id).engine.ListingAgrees := by
  have hside := hi.wellFormed.side_eq hc.resting
  intro t
  rw [hc.sink, Listing.replay_append, hc.without.resting_eq hi.wellFormed]
  show Function.update (Listing.empty.replay e.sink).orders (e.book.data x).side
    (((Listing.empty.replay e.sink).orders (e.book.data x).side).filterMap
      (Listing.strike (e.book.data x).id)) t = _
  rw [hside]
  rcases Side.eq_or_eq_opposite s t with rfl | rfl
  · rw [Function.update_self, h t, OrderBook.resting_eq, List.filterMap_map,
      List.filterMap_map, (hi.wellFormed.nodup t).erase_eq_filter, List.map_map,
      ← List.filterMap_eq_map, List.filterMap_filter]
    apply List.filterMap_congr
    intro y hy
    by_cases hxy : y = x
    · simp [hxy, Listing.strike, RestingOrder.listed]
    · have hid : (e.book.data y).id ≠ (e.book.data x).id :=
        fun heq => hxy (hi.indexed.slot_unique hy hc.resting heq)
      simp [hxy, Listing.strike, RestingOrder.listed, hid]
  · have hnot : x ∉ e.book.restingSlots s.opposite :=
      fun hx => Side.ne_opposite s (hi.wellFormed.side_unique hc.resting hx)
    rw [Function.update_of_ne (Side.opposite_ne _), h, List.erase_of_not_mem hnot]
    rfl

theorem listingAgrees_new (raw : Memory) (capacity : UInt64) (stp : StpConfig) :
    (new raw capacity stp).ListingAgrees := by
  intro s
  have hempty : (new raw capacity stp).book.resting s = [] :=
    OrderBook.WellFormed.resting_new raw capacity s
  rw [hempty]
  rfl

end MatchingEngine

/--
As long as no limit order is submitted under an id that is carried by another
client's resting order, the events determine the book order by order: ids,
prices, open quantities and the order in which the orders will be matched.
-/
theorem run_book_from_events (raw : Memory) (capacity : UInt64) (stp : StpConfig)
    (commands : List EngineCommand)
    (hfree : forall v, v ∈ (MatchingEngine.new raw capacity stp).visits commands ->
      IdFreeElsewhere v.1 v.2) :
    ((MatchingEngine.new raw capacity stp).run commands).ListingAgrees := by
  have hstep : forall (e : MatchingEngine) command,
      IndexInvariant e ∧ e.ListingAgrees -> IdFreeElsewhere e command ->
        IndexInvariant (e.exec command).engine ∧ (e.exec command).engine.ListingAgrees := by
    intro e command h hcommand
    refine ⟨h.left.exec hcommand, ?_⟩
    apply MatchingEngine.exec_induction h.left.wellFormed h.right command
    · intro order heq hadmits ha
      exact MatchingEngine.submit_listing h.left h.right hadmits (heq ▸ hcommand) ha
    · intro id s x _ hc
      exact MatchingEngine.cancel_listing h.left h.right hc
  exact (Machine.run_invariant_of hstep
    ⟨IndexInvariant.new raw capacity stp,
      MatchingEngine.listingAgrees_new raw capacity stp⟩ hfree).right

def sweptAsks : List EngineCommand :=
  [.limit { id := ⟨7⟩, side := .sell, price := ⟨100⟩, quantity := ⟨5⟩, owner := ⟨1⟩ },
    .limit { id := ⟨8⟩, side := .sell, price := ⟨101⟩, quantity := ⟨5⟩, owner := ⟨2⟩ },
    .limit { id := ⟨9⟩, side := .buy, price := ⟨101⟩, quantity := ⟨7⟩, owner := ⟨3⟩ }]

theorem run_book_from_events_sweptAsks :
    let e := (MatchingEngine.new Memory.zeroed 4 {}).run sweptAsks
    e.ListingAgrees ∧
      (Listing.empty.replay e.sink).orders .sell =
        [{ id := ⟨8⟩, side := .sell, quantity := ⟨3⟩, price := ⟨101⟩ }] := by
  refine ⟨?_, by decide +kernel⟩
  apply run_book_from_events
  intro v hv
  simp only [MatchingEngine.visits, sweptAsks, Machine.visits, List.mem_cons,
    List.not_mem_nil, or_false] at hv
  rcases hv with rfl | rfl | rfl
  all_goals
    intro o ho s
    cases ho
    cases s <;> decide +kernel

end MiniExchange
