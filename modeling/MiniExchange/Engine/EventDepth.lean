import MiniExchange.Engine.Conservation

/-!
# Depth from events

A listener that follows the event sink knows the total quantity that rests at
every price.  A trade is taken off the price it was executed at, and off the
order that was accepted last, which is the one being matched.
-/

namespace MiniExchange

open Foundation

/-- What a listener keeps: the order accepted last, and the depth it has computed. -/
structure Depth where
  last : Option OrderAccepted
  units : Side -> Price -> Int

namespace Depth

def empty : Depth where
  last := none
  units _ _ := 0

def adjust (d : Depth) (side : Side) (price : Price) (delta : Int) : Depth :=
  { d with units := fun s p =>
      if s = side ∧ p = price then d.units s p + delta else d.units s p }

/-- Follow one event.  Orders without a price are market orders, which never rest. -/
def follow (d : Depth) : SinkEvent -> Depth
  | .onOrderAccepted event =>
      { (if event.price = Price.zero then d
          else d.adjust event.side event.price event.quantity.units) with
        last := some event }
  | .onTrade trade =>
      match d.last with
      | none => d
      | some order =>
          let d' := d.adjust order.side.opposite trade.price (-trade.quantity.units)
          if order.price = Price.zero then d'
          else d'.adjust order.side order.price (-trade.quantity.units)
  | .onOrderCancelled event =>
      d.adjust event.side event.price (-event.remainingQty.units)

def replay (d : Depth) (events : List SinkEvent) : Depth :=
  events.foldl follow d

theorem units_adjust_self (d : Depth) (side : Side) (price p : Price) (delta : Int) :
    (d.adjust side price delta).units side p =
      d.units side p + if p = price then delta else 0 := by
  unfold adjust
  by_cases hp : p = price
  · simp [hp]
  · simp [hp]

theorem units_adjust_other (d : Depth) {side s : Side} (hs : s ≠ side) (price p : Price)
    (delta : Int) : (d.adjust side price delta).units s p = d.units s p :=
  if_neg (fun h => hs h.left)

def offOwn (order : OrderAccepted) (p : Price) (units : Nat) : Int :=
  if order.price ≠ Price.zero ∧ p = order.price then units else 0

theorem offOwn_add (order : OrderAccepted) (p : Price) (m n : Nat) :
    offOwn order p (m + n) = offOwn order p m + offOwn order p n := by
  unfold offOwn
  split <;> simp

theorem follow_trade {d : Depth} {order : OrderAccepted} (hlast : d.last = some order)
    (trade : Trade) :
    (d.follow (.onTrade trade)).last = some order ∧
      forall p,
        (d.follow (.onTrade trade)).units order.side.opposite p =
          d.units order.side.opposite p +
            (if p = trade.price then -(trade.quantity.units : Int) else 0) ∧
        (d.follow (.onTrade trade)).units order.side p =
          d.units order.side p - offOwn order p trade.quantity.units := by
  have hside : order.side.opposite ≠ order.side := Side.opposite_ne _
  simp only [follow, hlast]
  by_cases hzero : order.price = Price.zero
  · rw [if_pos hzero]
    refine ⟨hlast, fun p => ⟨units_adjust_self _ _ _ _ _, ?_⟩⟩
    rw [units_adjust_other _ hside.symm]
    simp [offOwn, hzero]
  · rw [if_neg hzero]
    refine ⟨hlast, fun p => ⟨?_, ?_⟩⟩
    · rw [units_adjust_other _ hside, units_adjust_self]
    · rw [units_adjust_self, units_adjust_other _ hside.symm]
      by_cases hp : p = order.price
      · simp [offOwn, hzero, hp, Int.sub_eq_add_neg]
      · simp [offOwn, hp]

theorem replay_events {c : Incoming} {pulls : RestingOrder -> Bool}
    {orders : List RestingOrder} {order : OrderAccepted}
    (hside : forall o, o ∈ orders -> o.side = order.side.opposite) {actions : List Action}
    (hactions : forall a, a ∈ actions -> c.ActsOn pulls orders a) {d : Depth}
    (hlast : d.last = some order) (sequence : TradeSequence) (p : Price) :
    (d.replay (Action.events c sequence actions)).units order.side.opposite p =
        d.units order.side.opposite p -
          (Action.filled (fun q => decide (p = q)) actions +
            Action.pulled (fun q => decide (p = q)) actions : Nat) ∧
      (d.replay (Action.events c sequence actions)).units order.side p =
        d.units order.side p - offOwn order p (Action.filled (fun _ => true) actions) := by
  induction actions generalizing d sequence with
  | nil => simp [Action.events, replay, Action.filled, Action.pulled, offOwn]
  | cons action rest ih =>
      have htail : forall a, a ∈ rest -> c.ActsOn pulls orders a :=
        fun a ha => hactions a (List.mem_cons_of_mem _ ha)
      have haction := hactions action List.mem_cons_self
      cases action with
      | fill o before qty =>
          have hqty : qty = (c.tradeWith o before sequence).quantity := haction.right.right.right
          have hprice : (c.tradeWith o before sequence).price = o.price := rfl
          rcases follow_trade hlast (c.tradeWith o before sequence) with ⟨hlast', hunits⟩
          rcases ih htail hlast' sequence.next with ⟨hopp, hown⟩
          refine ⟨hopp.trans ?_, hown.trans ?_⟩
          · rw [(hunits p).left, hprice, ← hqty]
            simp only [Action.filled, Action.pulled, decide_eq_true_eq]
            split <;> omega
          · rw [(hunits p).right, ← hqty]
            simp only [Action.filled, if_true, offOwn_add]
            omega
      | cancelOwn o =>
          have ho := hside o haction.left
          have hlast' : (d.follow (Action.cancellation o)).last = some order := hlast
          rcases ih htail hlast' sequence with ⟨hopp, hown⟩
          have hfollow : d.follow (Action.cancellation o) =
              d.adjust order.side.opposite o.price (-o.quantity.units) := ho ▸ rfl
          refine ⟨hopp.trans ?_, hown.trans ?_⟩
          · rw [hfollow, units_adjust_self]
            simp only [Action.filled, Action.pulled, decide_eq_true_eq]
            split <;> omega
          · rw [hfollow, units_adjust_other _ (Side.ne_opposite _)]
            rfl

theorem follow_accepted (d : Depth) (order : OrderAccepted) (p : Price) :
    (d.follow (.onOrderAccepted order)).units order.side.opposite p =
        d.units order.side.opposite p ∧
      (d.follow (.onOrderAccepted order)).units order.side p =
        d.units order.side p + offOwn order p order.quantity.units := by
  simp only [follow]
  by_cases hzero : order.price = Price.zero
  · rw [if_pos hzero]
    exact ⟨rfl, by simp [offOwn, hzero]⟩
  · rw [if_neg hzero]
    refine ⟨units_adjust_other _ (Side.opposite_ne _) _ _ _, ?_⟩
    refine (units_adjust_self _ _ _ _ _).trans ?_
    simp [offOwn, hzero]

end Depth

def OrderBook.depth (b : OrderBook) (s : Side) (p : Price) : Nat :=
  volume (fun q => decide (p = q)) (b.resting s)

namespace MatchingEngine

def DepthAgrees (e : MatchingEngine) : Prop :=
  forall s p, (Depth.empty.replay e.sink).units s p = e.book.depth s p

theorem depth_rested {e : MatchingEngine} {order : NewOrder} (hadmits : e.Admits order)
    (p : Price) :
    (volume (fun q => decide (p = q)) (e.restedBy order).toList : Int) =
      Depth.offOwn order.announced p (e.sweepOf order).remaining.units := by
  cases order with
  | market o => rfl
  | limit o =>
      have hprice : o.price ≠ Price.zero := ne_of_gt (hadmits.price_pos o.price rfl)
      have hannounced : (NewOrder.limit o).announced.price = o.price := rfl
      cases hrest : e.restedBy (.limit o) with
      | none =>
          rw [Quantity.not_pos_iff.mp (restedBy_none hrest)]
          simp [Depth.offOwn]
      | some rested =>
          rcases restedBy_some hrest with ⟨lo, hlo, -, rfl⟩
          cases hlo
          unfold Depth.offOwn
          rw [hannounced]
          by_cases hp : p = o.price <;> simp [hp, hprice]

theorem submit_depth {e : MatchingEngine} {order : NewOrder} (hw : e.book.WellFormed)
    (h : e.DepthAgrees) (hadmits : e.Admits order)
    (ha : Admission e order (e.submit order)) : (e.submit order).engine.DepthAgrees := by
  have hsides : forall o, o ∈ e.book.resting order.side.opposite ->
      o.side = order.announced.side.opposite := fun o ho => hw.resting_side ho
  have hreplay : Depth.empty.replay (e.submit order).engine.sink =
      ((Depth.empty.replay e.sink).follow
        (.onOrderAccepted order.announced)).replay
        (Action.events order.incoming e.nextTradeSequence (e.sweepOf order).actions) := by
    rw [ha.sink]
    exact List.foldl_append
  intro s p
  rcases Depth.replay_events hsides (fun a => sweepOf_actions) rfl e.nextTradeSequence p
    (d := (Depth.empty.replay e.sink).follow (.onOrderAccepted order.announced))
    with ⟨hopp, hown⟩
  rcases Depth.follow_accepted (Depth.empty.replay e.sink) order.announced p
    with ⟨hoppStart, hownStart⟩
  rw [hreplay]
  rcases Side.eq_or_eq_opposite order.side s with rfl | rfl
  · -- The own side gains what was submitted and loses what was traded.
    have hbefore : (Depth.empty.replay e.sink).units order.announced.side p =
        e.book.depth order.side p := h order.side p
    have hfilled : Depth.offOwn order.announced p
          (Action.filled (fun _ => true) (e.sweepOf order).actions) +
          Depth.offOwn order.announced p (e.sweepOf order).remaining.units =
        Depth.offOwn order.announced p order.announced.quantity.units := by
      rw [← Depth.offOwn_add, sweepOf_filled]
      rfl
    have hrested := depth_rested hadmits p
    refine hown.trans ?_
    unfold OrderBook.depth at hbefore ⊢
    rw [hownStart, ha.own, volume_perm (queue_perm _ _ _), volume_append]
    omega
  · -- The opposing side loses what was traded and what was pulled.
    have hbefore : (Depth.empty.replay e.sink).units order.announced.side.opposite p =
        e.book.depth order.side.opposite p := h order.side.opposite p
    have hvolume := sweepOf_volume e order (fun q => decide (p = q))
    refine hopp.trans ?_
    unfold OrderBook.depth at hbefore ⊢
    rw [hoppStart, ha.opposing]
    omega

theorem cancel_depth {e : MatchingEngine} {id : OrderId} {s : Side} {x : Slot}
    (hw : e.book.WellFormed) (h : e.DepthAgrees)
    (hc : Cancellation e id s x (e.cancel id)) : (e.cancel id).engine.DepthAgrees := by
  have hside := hw.side_eq hc.resting
  have hreplay : Depth.empty.replay (e.cancel id).engine.sink =
      (Depth.empty.replay e.sink).adjust s (e.book.data x).price
        (-(e.book.data x).quantity.units) := by
    rw [hc.sink, ← hside]
    exact List.foldl_append
  intro t p
  have hbefore := h t p
  rcases hc.without.volume_eq hw hc.resting (fun q => decide (p = q)) with ⟨hown, hother⟩
  rw [hreplay]
  unfold OrderBook.depth at hbefore ⊢
  rcases Side.eq_or_eq_opposite s t with rfl | rfl
  · rw [Depth.units_adjust_self, hbefore, hown]
    simp only [decide_eq_true_eq]
    split <;> omega
  · rw [Depth.units_adjust_other _ (Side.opposite_ne _), hother]
    exact hbefore

def RejectionsSilent (e : MatchingEngine) (commands : List EngineCommand) : Prop :=
  forall v, v ∈ e.visits commands ->
    (v.1.exec v.2).response.status ≠ .accepted ->
    (v.1.exec v.2).engine.sink = v.1.sink

theorem rejectionsSilent_new (raw : Memory) (capacity : UInt64) (stp : StpConfig)
    (commands : List EngineCommand) : (new raw capacity stp).RejectionsSilent commands := by
  rintro ⟨e, command⟩ hv hrejected
  rcases exec_cases (visits_wellFormed hv) command with ⟨status, id, -, hcall⟩ |
    ⟨order, rfl, hcall, -, ha⟩ | ⟨id, s, x, rfl, hc⟩
  · simp only [hcall]
    rfl
  · simp only [hcall] at hrejected
    exact absurd ha.status hrejected
  · have hstatus : (e.cancel id).response.status = .accepted := by
      rw [hc.response]
    exact absurd hstatus hrejected

end MatchingEngine

/-- After every call the events add up to the depth of the book, and rejections emit none. -/
theorem run_depth_from_events (raw : Memory) (capacity : UInt64) (stp : StpConfig)
    (commands : List EngineCommand) :
    ((MatchingEngine.new raw capacity stp).run commands).DepthAgrees ∧
      (MatchingEngine.new raw capacity stp).RejectionsSilent commands := by
  refine ⟨?_, MatchingEngine.rejectionsSilent_new raw capacity stp commands⟩
  apply MatchingEngine.run_induction (Q := fun e => e.DepthAgrees)
    (OrderBook.WellFormed.new raw capacity)
  · intro s p
    have hempty : (MatchingEngine.new raw capacity stp).book.resting s = [] :=
      OrderBook.WellFormed.resting_new raw capacity s
    unfold OrderBook.depth
    rw [hempty]
    rfl
  · intro e order hw h hadmits ha
    exact MatchingEngine.submit_depth hw h hadmits ha
  · intro e id s x hw h hc
    exact MatchingEngine.cancel_depth hw h hc

end MiniExchange
