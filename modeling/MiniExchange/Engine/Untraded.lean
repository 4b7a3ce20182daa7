import MiniExchange.Engine.Reference
import MiniExchange.Risk.Filter

/-!
# Orders that never trade

Whatever an order does to the book while it rests, it makes no difference to
anyone else unless it trades: the commands about any set of orders that never
trade may be left out of a run, and the others are answered as before.
-/

namespace MiniExchange

open Foundation

def EngineCommand.id : EngineCommand -> OrderId
  | limit order => order.id
  | market order => order.id
  | cancel id => id

def Trade.mentions (silent : OrderId -> Bool) (trade : Trade) : Bool :=
  silent trade.buyOrderId || silent trade.sellOrderId

def SinkEvent.mentions (silent : OrderId -> Bool) : SinkEvent -> Bool
  | onOrderAccepted event => silent event.id
  | onTrade trade => trade.mentions silent
  | onOrderCancelled event => silent event.id

def RestingOrder.unnumbered (o : RestingOrder) : RestingOrder :=
  { o with sequence := ⟨0⟩ }

/-!
## Sweeps past untraded orders
-/

namespace Action

def unnumbered : Action -> Action
  | fill resting remaining qty => fill resting.unnumbered remaining qty
  | cancelOwn resting => cancelOwn resting.unnumbered

theorem trades_unnumbered (c : Incoming) (sequence : TradeSequence) (actions : List Action) :
    trades c sequence (actions.map unnumbered) = trades c sequence actions := by
  induction actions generalizing sequence with
  | nil => rfl
  | cons a rest ih =>
      cases a with
      | fill o remaining qty => exact congrArg (List.cons _) (ih sequence.next)
      | cancelOwn o => exact ih sequence

theorem events_unnumbered (c : Incoming) (sequence : TradeSequence) (actions : List Action) :
    events c sequence (actions.map unnumbered) = events c sequence actions := by
  induction actions generalizing sequence with
  | nil => rfl
  | cons a rest ih =>
      cases a with
      | fill o remaining qty => exact congrArg (List.cons _) (ih sequence.next)
      | cancelOwn o => exact congrArg (List.cons _) (ih sequence)

theorem fills_unnumbered (actions : List Action) :
    fills (actions.map unnumbered) = fills actions := by
  induction actions with
  | nil => rfl
  | cons a rest ih =>
      cases a with
      | fill o remaining qty => exact congrArg Nat.succ ih
      | cancelOwn o => exact ih

theorem mentions_of_fill {c : Incoming} {silent : OrderId -> Bool} {o : RestingOrder}
    {before qty : Quantity} {actions : List Action} (h : fill o before qty ∈ actions)
    (sequence : TradeSequence)
    (htrades : forall trade, trade ∈ trades c sequence actions ->
      trade.mentions silent = false) :
    silent c.id = false ∧ silent o.id = false := by
  induction actions generalizing sequence with
  | nil => cases h
  | cons a rest ih =>
      cases a with
      | cancelOwn o' =>
          rcases List.mem_cons.mp h with heq | hrest
          · cases heq
          · exact ih hrest sequence htrades
      | fill o' remaining qty' =>
          rcases List.mem_cons.mp h with heq | hrest
          · cases heq
            have hfirst := htrades _ List.mem_cons_self
            unfold Trade.mentions Incoming.tradeWith at hfirst
            rw [Bool.or_eq_false_iff] at hfirst
            cases hside : c.side with
            | buy =>
                rw [hside] at hfirst
                exact hfirst
            | sell =>
                rw [hside] at hfirst
                exact hfirst.symm
          · exact ih hrest sequence.next fun trade ht =>
              htrades trade (List.mem_cons_of_mem _ ht)

end Action

namespace Sweep

def unnumbered (s : Sweep) : Sweep where
  actions := s.actions.map Action.unnumbered
  remaining := s.remaining
  left := s.left.map RestingOrder.unnumbered

def keeping (keep : RestingOrder -> Bool) (s : Sweep) : Sweep where
  actions := s.actions
  remaining := s.remaining
  left := s.left.filter keep

end Sweep

namespace Incoming

variable {c : Incoming} {pulls : RestingOrder -> Bool}

theorem sweep_unnumbered (hpulls : forall o, pulls o = false) (remaining : Quantity)
    (orders : List RestingOrder) :
    c.sweep pulls remaining (orders.map RestingOrder.unnumbered) =
      (c.sweep pulls remaining orders).unnumbered := by
  induction orders generalizing remaining with
  | nil => rfl
  | cons o rest ih =>
      have hprice : o.unnumbered.price = o.price := rfl
      have hquantity : o.unnumbered.quantity = o.quantity := rfl
      simp only [List.map_cons, Incoming.sweep, hprice, hquantity, hpulls, ih]
      split
      · split
        · next hpulled => cases hpulled
        · split <;> rfl
      · rfl

/-- If only selected orders are filled, the others need not be there. -/
theorem sweep_untraded (keep : RestingOrder -> Bool)
    (hquantity : forall o q, keep { o with quantity := q } = keep o)
    (hpulls : forall o, pulls o = false) (remaining : Quantity) {orders : List RestingOrder}
    (hsorted : PriorityList.Sorted c.side.opposite.better (fun o => o.price) orders)
    (hfilled : forall o before qty,
      .fill o before qty ∈ (c.sweep pulls remaining orders).actions -> keep o = true) :
    c.sweep pulls remaining (orders.filter keep) =
      (c.sweep pulls remaining orders).keeping keep := by
  revert hsorted hfilled
  apply sweep_induction (P := fun remaining orders s =>
    PriorityList.Sorted c.side.opposite.better (fun o => o.price) orders ->
    (forall o before qty, .fill o before qty ∈ s.actions -> keep o = true) ->
    c.sweep pulls remaining (orders.filter keep) = s.keeping keep)
  case stop =>
    intro remaining orders hhead hsorted _
    apply sweep_stop
    intro hrem o ho
    have hmem : o ∈ orders := List.mem_of_mem_filter (List.mem_of_head? ho)
    cases orders with
    | nil => cases hmem
    | cons a rest =>
        -- behind an order beyond the limit all are beyond it
        have hbeyond := hhead hrem a rfl
        rcases List.mem_cons.mp hmem with heq | hrest
        · exact heq ▸ hbeyond
        · exact beyondLimit_mono ((List.pairwise_cons.mp hsorted).left o hrest) hbeyond
  case own =>
    intro remaining o rest s _ hpulled
    rw [hpulls] at hpulled
    cases hpulled
  case full =>
    intro remaining o rest s hcross hother hpos hle ih hsorted hfilled
    have hkept := hfilled o remaining o.quantity List.mem_cons_self
    have ih := ih (List.pairwise_cons.mp hsorted).right fun o' before qty hmem =>
      hfilled o' before qty (List.mem_cons_of_mem _ hmem)
    rw [List.filter_cons_of_pos hkept, sweep_full hcross hother hpos hle, ih]
    rfl
  case absorbed =>
    intro remaining o rest hcross hother hpos hlt _ hfilled
    have hkept := hfilled o remaining remaining List.mem_cons_self
    have hleft := (hquantity o (o.quantity - remaining)).trans hkept
    unfold Sweep.keeping
    rw [List.filter_cons_of_pos hkept, sweep_absorbed hcross hother hpos hlt,
      List.filter_cons_of_pos hleft]

theorem sweep_eq_stop (hpulls : forall o, pulls o = false) (remaining : Quantity)
    (orders : List RestingOrder)
    (hnone : forall o before qty,
      .fill o before qty ∉ (c.sweep pulls remaining orders).actions) :
    c.sweep pulls remaining orders = Sweep.stop remaining orders := by
  revert hnone
  apply sweep_induction (P := fun remaining orders s =>
    (forall o before qty, .fill o before qty ∉ s.actions) ->
      s = Sweep.stop remaining orders)
  case stop => exact fun _ _ _ _ => rfl
  case own =>
    intro remaining o rest s _ hpulled
    rw [hpulls] at hpulled
    cases hpulled
  case full =>
    intro remaining o rest s _ _ _ _ _ hnone
    exact absurd List.mem_cons_self (hnone o remaining o.quantity)
  case absorbed =>
    intro remaining o rest _ _ _ _ hnone
    exact absurd List.mem_cons_self (hnone o remaining remaining)

end Incoming

theorem Action.events_eq_trades {actions : List Action}
    (h : forall o, .cancelOwn o ∉ actions) (c : Incoming) (sequence : TradeSequence) :
    Action.events c sequence actions =
      (Action.trades c sequence actions).map .onTrade := by
  induction actions generalizing sequence with
  | nil => rfl
  | cons a rest ih =>
      have ih := ih fun o ho => h o (List.mem_cons_of_mem _ ho)
      cases a with
      | fill o remaining qty => exact congrArg (List.cons _) (ih sequence.next)
      | cancelOwn o => exact absurd List.mem_cons_self (h o)

namespace MatchingEngine

theorem queue_unnumbered (s : Side) (o? : Option RestingOrder) (orders : List RestingOrder) :
    (queue s o? orders).map RestingOrder.unnumbered =
      queue s (o?.map RestingOrder.unnumbered) (orders.map RestingOrder.unnumbered) := by
  cases o? with
  | none => rfl
  | some o => exact PriorityList.map_insert rfl (fun _ _ => rfl)

theorem filter_queue_of_pos {s : Side} {o? : Option RestingOrder} {orders : List RestingOrder}
    {keep : RestingOrder -> Bool} (ho : forall o, o? = some o -> keep o = true)
    (hsorted : PriorityList.Sorted s.better (fun o => o.price) orders) :
    (queue s o? orders).filter keep = queue s o? (orders.filter keep) := by
  cases o? with
  | none => rfl
  | some o => exact PriorityList.filter_insert_of_pos (ho o rfl) hsorted

theorem filter_queue_of_neg {s : Side} {o? : Option RestingOrder} {orders : List RestingOrder}
    {keep : RestingOrder -> Bool} (ho : forall o, o? = some o -> keep o = false) :
    (queue s o? orders).filter keep = orders.filter keep := by
  cases o? with
  | none => rfl
  | some o => exact PriorityList.filter_insert_of_neg (by simp [ho o rfl]) orders

end MatchingEngine

/-!
## Exchanges that do not know the untraded orders
-/

namespace Reference

theorem refusal?_ne_accepted (r : Reference) (order : NewOrder) :
    r.refusal? order ≠ some .accepted := by
  unfold refusal?
  split_ifs <;> simp

theorem refusal?_of_accepted {r : Reference} {order : NewOrder}
    (h : (r.submit order).1.status = .accepted) : r.refusal? order = none := by
  unfold submit at h
  cases hrefusal : r.refusal? order with
  | none => rfl
  | some status =>
      rw [hrefusal] at h
      have hstatus : status = .accepted := h
      exact absurd (hstatus ▸ hrefusal) (refusal?_ne_accepted r order)

theorem submit_of_none {r : Reference} {order : NewOrder} (h : r.refusal? order = none) :
    r.submit order = r.accept order := by
  unfold submit
  rw [h]

/-- The second exchange has everything of the first but the orders selected by `silent`. -/
structure Omits (silent : OrderId -> Bool) (r t : Reference) : Prop where
  resting : forall s, (t.resting s).map RestingOrder.unnumbered =
    ((r.resting s).filter (fun o => !silent o.id)).map RestingOrder.unnumbered
  watermark : forall owner id, t.atOrBelowWatermark owner id = true ->
    r.atOrBelowWatermark owner id = true
  nextTradeSequence : t.nextTradeSequence = r.nextTradeSequence
  capacity : r.capacity <= t.capacity
  events : t.events = r.events.filter (fun event => !event.mentions silent)
  pullsNothing : r.stp.PullsNothing
  plain : t.stp = {}

theorem atOrBelowWatermark_accept (r : Reference) (order : NewOrder) (owner : ClientId)
    (id : OrderId) :
    (r.accept order).2.atOrBelowWatermark owner id =
      if owner = order.owner then decide (id.value <= order.id.value)
      else r.atOrBelowWatermark owner id := by
  unfold atOrBelowWatermark accept
  dsimp only
  by_cases howner : owner = order.owner
  · rw [howner, Function.update_self, if_pos rfl]
  · rw [Function.update_of_ne howner, if_neg howner]

theorem atOrBelowWatermark_mono {r : Reference} {order : NewOrder}
    (hfresh : r.atOrBelowWatermark order.owner order.id = false) {owner : ClientId}
    {id : OrderId} (h : r.atOrBelowWatermark owner id = true) :
    (r.accept order).2.atOrBelowWatermark owner id = true := by
  rw [atOrBelowWatermark_accept]
  split
  · next howner =>
      rw [howner] at h
      unfold atOrBelowWatermark at h hfresh
      cases hlast : r.lastAcceptedId order.owner with
      | none =>
          rw [hlast] at h
          cases h
      | some watermark =>
          rw [hlast] at h hfresh
          have hle := of_decide_eq_true h
          have hlt := UInt64.not_le.mp (of_decide_eq_false hfresh)
          exact decide_eq_true (UInt64.le_of_lt (UInt64.lt_of_le_of_lt hle hlt))
  · exact h

namespace Omits

variable {silent : OrderId -> Bool} {r t : Reference} {order : NewOrder}

theorem length_orders_le (h : Omits silent r t) : t.orders.length <= r.orders.length := by
  have hside : forall s, (t.resting s).length <= (r.resting s).length := by
    intro s
    have hlength := congrArg List.length (h.resting s)
    rw [List.length_map, List.length_map] at hlength
    rw [hlength]
    exact List.length_filter_le _ _
  unfold orders
  rw [List.length_append, List.length_append]
  exact Nat.add_le_add (hside .buy) (hside .sell)

theorem refusal?_eq (h : Omits silent r t) (hnone : r.refusal? order = none) :
    t.refusal? order = none := by
  have hpasses := passes_of_refusal? hnone
  have hfresh : ¬ t.atOrBelowWatermark order.owner order.id = true := by
    intro hlow
    have hlow := h.watermark _ _ hlow
    rw [hpasses.fresh] at hlow
    cases hlow
  have hroom : ¬ (order.limitPrice.isSome && decide (t.capacity <= t.orders.length)) = true := by
    intro hfull
    simp only [Bool.and_eq_true, decide_eq_true_eq] at hfull
    have hlt := hpasses.room hfull.left
    have hle := h.length_orders_le
    have hcapacity := h.capacity
    omega
  unfold refusal?
  rw [if_neg hpasses.quantity, if_neg (Bool.eq_false_iff.mp hpasses.price), if_neg hfresh,
    h.plain]
  exact if_neg hroom

theorem sweepOf_eq (h : Omits silent r t)
    (hsorted : forall s, PriorityList.Sorted s.better (fun o => o.price) (r.resting s))
    (htrades : forall trade, trade ∈ (r.accept order).1.trades ->
      trade.mentions silent = false) :
    (t.sweepOf order).unnumbered =
      ((r.sweepOf order).keeping (fun o => !silent o.id)).unnumbered := by
  have hpulls := h.pullsNothing.pulls_eq order
  have hplain : order.pulls t.stp = order.pulls r.stp := by
    funext o
    rw [h.plain, hpulls]
    rfl
  have hfilter := Incoming.sweep_untraded (c := order.incoming) (fun o => !silent o.id)
    (fun _ _ => rfl) hpulls order.quantity (hsorted order.side.opposite)
    (fun o before qty hfill => by
      rw [(Action.mentions_of_fill hfill _ htrades).right]
      rfl)
  unfold sweepOf
  rw [hplain, ← Incoming.sweep_unnumbered hpulls, h.resting, Incoming.sweep_unnumbered hpulls,
    hfilter]

theorem restedBy_id {o : RestingOrder} (h : r.restedBy order = some o) : o.id = order.id := by
  cases order with
  | market mo => cases h
  | limit lo =>
      simp only [restedBy] at h
      split at h
      · cases h
        rfl
      · cases h

theorem restedBy_unnumbered (hremaining : (t.sweepOf order).remaining =
      (r.sweepOf order).remaining) :
    (t.restedBy order).map RestingOrder.unnumbered =
      (r.restedBy order).map RestingOrder.unnumbered := by
  cases order with
  | market mo => rfl
  | limit lo =>
      simp only [restedBy, hremaining]
      split <;> rfl

theorem filter_events (h : r.stp.PullsNothing)
    (htrades : forall trade, trade ∈ (r.accept order).1.trades ->
      trade.mentions silent = false) :
    (Action.events order.incoming r.nextTradeSequence (r.sweepOf order).actions).filter
        (fun event => !event.mentions silent) =
      Action.events order.incoming r.nextTradeSequence (r.sweepOf order).actions := by
  have hfills : forall o, .cancelOwn o ∉ (r.sweepOf order).actions := by
    intro o ho
    have hpulled := (Incoming.mem_actions _ _ ho).right.right
    rw [h.pulls_eq] at hpulled
    cases hpulled
  rw [Action.events_eq_trades hfills, List.filter_eq_self]
  intro event hevent
  rcases List.mem_map.mp hevent with ⟨trade, htrade, rfl⟩
  show (!trade.mentions silent) = true
  rw [htrades trade htrade]
  rfl

theorem accept (h : Omits silent r t)
    (hsorted : forall s, PriorityList.Sorted s.better (fun o => o.price) (r.resting s))
    (hheard : silent order.id = false)
    (htrades : forall trade, trade ∈ (r.accept order).1.trades ->
      trade.mentions silent = false) :
    Omits silent (r.accept order).2 (t.accept order).2 ∧
      (t.accept order).1 = (r.accept order).1 := by
  have hsweep := h.sweepOf_eq hsorted htrades
  have hactions : (t.sweepOf order).actions.map Action.unnumbered =
      (r.sweepOf order).actions.map Action.unnumbered := congrArg Sweep.actions hsweep
  have hremaining : (t.sweepOf order).remaining = (r.sweepOf order).remaining := by
    have hswept := congrArg Sweep.remaining hsweep
    exact hswept
  have hleft : (t.sweepOf order).left.map RestingOrder.unnumbered =
      ((r.sweepOf order).left.filter (fun o => !silent o.id)).map RestingOrder.unnumbered :=
    congrArg Sweep.left hsweep
  have hsame : Action.trades order.incoming t.nextTradeSequence (t.sweepOf order).actions =
      Action.trades order.incoming r.nextTradeSequence (r.sweepOf order).actions := by
    rw [h.nextTradeSequence, ← Action.trades_unnumbered, hactions, Action.trades_unnumbered]
  have hannounced : Action.events order.incoming t.nextTradeSequence (t.sweepOf order).actions =
      Action.events order.incoming r.nextTradeSequence (r.sweepOf order).actions := by
    rw [h.nextTradeSequence, ← Action.events_unnumbered, hactions, Action.events_unnumbered]
  constructor
  · constructor
    case resting =>
      intro s
      show (if s = order.side then MatchingEngine.queue s (t.restedBy order) (t.resting s)
          else (t.sweepOf order).left).map _ =
        ((if s = order.side then MatchingEngine.queue s (r.restedBy order) (r.resting s)
          else (r.sweepOf order).left).filter _).map _
      split
      · have hkept : forall o, r.restedBy order = some o -> (!silent o.id) = true := by
          intro o ho
          rw [restedBy_id ho, hheard]
          rfl
        rw [MatchingEngine.filter_queue_of_pos hkept (hsorted s),
          MatchingEngine.queue_unnumbered, MatchingEngine.queue_unnumbered, h.resting s,
          restedBy_unnumbered hremaining]
      · exact hleft
    case watermark =>
      intro owner id hlow
      rw [atOrBelowWatermark_accept] at hlow ⊢
      split at hlow
      · next howner =>
          rw [if_pos howner]
          exact hlow
      · next howner =>
          rw [if_neg howner]
          exact h.watermark owner id hlow
    case nextTradeSequence =>
      show t.nextTradeSequence.advance (Action.fills (t.sweepOf order).actions) =
        r.nextTradeSequence.advance (Action.fills (r.sweepOf order).actions)
      rw [h.nextTradeSequence, ← Action.fills_unnumbered, hactions, Action.fills_unnumbered]
    case capacity => exact h.capacity
    case events =>
      have hacceptance : (!order.acceptance.mentions silent) = true := by
        show (!silent order.id) = true
        rw [hheard]
        rfl
      show t.events ++ order.acceptance :: _ = (r.events ++ order.acceptance :: _).filter _
      rw [List.filter_append, ← h.events, List.filter_cons, if_pos hacceptance,
        filter_events h.pullsNothing htrades, hannounced]
    case pullsNothing => exact h.pullsNothing
    case plain => exact h.plain
  · show EngineResponse.mk _ _ _ _ = EngineResponse.mk _ _ _ _
    rw [hsame, hremaining]

theorem accept_silent (h : Omits silent r t) (hnone : r.refusal? order = none)
    (hsilent : silent order.id = true)
    (htrades : forall trade, trade ∈ (r.accept order).1.trades ->
      trade.mentions silent = false) :
    Omits silent (r.accept order).2 t := by
  have hpulls := h.pullsNothing.pulls_eq order
  -- a fill would have been a trade of the silent order
  have hstop : r.sweepOf order = Sweep.stop order.quantity (r.resting order.side.opposite) := by
    apply Incoming.sweep_eq_stop hpulls
    intro o before qty hfill
    have hheard := (Action.mentions_of_fill hfill _ htrades).left
    rw [show silent order.incoming.id = true from hsilent] at hheard
    cases hheard
  constructor
  case resting =>
    intro s
    rw [h.resting s]
    apply congrArg
    show _ = (if s = order.side then MatchingEngine.queue s (r.restedBy order) (r.resting s)
      else (r.sweepOf order).left).filter _
    rcases Side.eq_or_eq_opposite order.side s with rfl | rfl
    · rw [if_pos rfl]
      apply Eq.symm
      apply MatchingEngine.filter_queue_of_neg
      intro o ho
      rw [restedBy_id ho, hsilent]
      rfl
    · rw [if_neg (Side.opposite_ne _), hstop]
      rfl
  case watermark =>
    intro owner id hlow
    exact atOrBelowWatermark_mono (passes_of_refusal? hnone).fresh (h.watermark owner id hlow)
  case nextTradeSequence =>
    show t.nextTradeSequence = r.nextTradeSequence.advance (Action.fills (r.sweepOf order).actions)
    rw [hstop, h.nextTradeSequence]
    exact (TradeSequence.advance_zero _).symm
  case capacity => exact h.capacity
  case events =>
    have hacceptance : ¬ (!order.acceptance.mentions silent) = true := by
      show ¬ (!silent order.id) = true
      rw [hsilent]
      decide
    show t.events = (r.events ++ order.acceptance :: _).filter _
    rw [List.filter_append, ← h.events, List.filter_cons, if_neg hacceptance, hstop]
    exact (List.append_nil _).symm
  case pullsNothing => exact h.pullsNothing
  case plain => exact h.plain

theorem find?_eq (h : Omits silent r t) {id : OrderId} (hheard : silent id = false) :
    (t.orders.find? (fun o => decide (o.id = id))).map RestingOrder.unnumbered =
      (r.orders.find? (fun o => decide (o.id = id))).map RestingOrder.unnumbered := by
  have horders : t.orders.map RestingOrder.unnumbered =
      (r.orders.filter (fun o => !silent o.id)).map RestingOrder.unnumbered := by
    unfold orders
    rw [List.map_append, List.filter_append, List.map_append, h.resting, h.resting]
  have hkept : (fun o : RestingOrder => decide (!silent o.id ∧ decide (o.id = id))) =
      fun o => decide (o.id = id) := by
    funext o
    by_cases hid : o.id = id
    · simp [hid, hheard]
    · simp [hid]
  have hmapped : forall orders : List RestingOrder,
      (orders.find? (fun o => decide (o.id = id))).map RestingOrder.unnumbered =
        (orders.map RestingOrder.unnumbered).find? (fun o => decide (o.id = id)) := by
    intro orders
    rw [List.find?_map]
    rfl
  rw [hmapped, horders, ← hmapped, List.find?_filter]
  exact congrArg (fun f => (r.orders.find? f).map RestingOrder.unnumbered) hkept

theorem cancel (h : Omits silent r t) {id : OrderId} (hheard : silent id = false) :
    Omits silent (r.cancel id).2 (t.cancel id).2 ∧ (t.cancel id).1 = (r.cancel id).1 := by
  have hfind := h.find?_eq hheard
  unfold Reference.cancel
  cases hr : r.orders.find? (fun o => decide (o.id = id)) with
  | none =>
      rw [hr, Option.map_none, Option.map_eq_none_iff] at hfind
      rw [hfind]
      exact ⟨h, rfl⟩
  | some o =>
      rw [hr, Option.map_some, Option.map_eq_some_iff] at hfind
      rcases hfind with ⟨o', ht, hsame⟩
      have hquantity : o'.quantity = o.quantity := by
        have heq := congrArg RestingOrder.quantity hsame
        exact heq
      have hcancellation : Action.cancellation o' = Action.cancellation o := by
        have heq := congrArg Action.cancellation hsame
        exact heq
      have hid : o.id = id := by simpa using List.find?_some hr
      rw [ht]
      refine ⟨?_, congrArg (EngineResponse.mk .accepted [] · id) hquantity⟩
      constructor
      case resting =>
        intro s
        show ((t.resting s).filter _).map _ = (((r.resting s).filter _).filter _).map _
        have hothers : forall orders : List RestingOrder,
            (orders.filter (fun o => decide (o.id ≠ id))).map RestingOrder.unnumbered =
              (orders.map RestingOrder.unnumbered).filter (fun o => decide (o.id ≠ id)) := by
          intro orders
          rw [List.filter_map]
          rfl
        rw [hothers, h.resting s, ← hothers, List.filter_filter, List.filter_filter]
        simp only [Bool.and_comm]
      case watermark => exact h.watermark
      case nextTradeSequence => exact h.nextTradeSequence
      case capacity => exact h.capacity
      case events =>
        have hmentioned : (!(Action.cancellation o).mentions silent) = true := by
          show (!silent o.id) = true
          rw [hid, hheard]
          rfl
        show t.events ++ [Action.cancellation o'] =
          (r.events ++ [Action.cancellation o]).filter _
        rw [List.filter_append, ← h.events, List.filter_cons, if_pos hmentioned, hcancellation]
        rfl
      case pullsNothing => exact h.pullsNothing
      case plain => exact h.plain

theorem cancel_silent (h : Omits silent r t) {id : OrderId} (hsilent : silent id = true) :
    Omits silent (r.cancel id).2 t := by
  unfold Reference.cancel
  cases hr : r.orders.find? (fun o => decide (o.id = id)) with
  | none => exact h
  | some o =>
      have hid : o.id = id := by simpa using List.find?_some hr
      constructor
      case resting =>
        intro s
        rw [h.resting s]
        apply congrArg
        show _ = ((r.resting s).filter _).filter _
        rw [List.filter_filter]
        apply List.filter_congr
        intro o' _
        by_cases hid' : o'.id = id
        · simp [hid', hsilent]
        · simp [hid']
      case watermark => exact h.watermark
      case nextTradeSequence => exact h.nextTradeSequence
      case capacity => exact h.capacity
      case events =>
        have hmentioned : ¬ (!(Action.cancellation o).mentions silent) = true := by
          show ¬ (!silent o.id) = true
          rw [hid, hsilent]
          decide
        show t.events = (r.events ++ [Action.cancellation o]).filter _
        rw [List.filter_append, ← h.events, List.filter_cons, if_neg hmentioned]
        exact (List.append_nil _).symm
      case pullsNothing => exact h.pullsNothing
      case plain => exact h.plain

theorem exec (h : Omits silent r t)
    (hsorted : forall s, PriorityList.Sorted s.better (fun o => o.price) (r.resting s))
    {command : EngineCommand} (hheard : silent command.id = false)
    (haccepted : (r.exec command).1.status = .accepted)
    (htrades : forall trade, trade ∈ (r.exec command).1.trades ->
      trade.mentions silent = false) :
    Omits silent (r.exec command).2 (t.exec command).2 ∧
      (t.exec command).1 = (r.exec command).1 := by
  have hsubmit : forall order : NewOrder, silent order.id = false ->
      (r.submit order).1.status = .accepted ->
      (forall trade, trade ∈ (r.submit order).1.trades -> trade.mentions silent = false) ->
      Omits silent (r.submit order).2 (t.submit order).2 ∧
        (t.submit order).1 = (r.submit order).1 := by
    intro order hheard haccepted htrades
    have hnone := refusal?_of_accepted haccepted
    rw [submit_of_none hnone] at htrades ⊢
    rw [submit_of_none (h.refusal?_eq hnone)]
    exact h.accept hsorted hheard htrades
  cases command with
  | limit order => exact hsubmit (.limit order) hheard haccepted htrades
  | market order => exact hsubmit (.market order) hheard haccepted htrades
  | cancel id => exact h.cancel hheard

theorem exec_silent (h : Omits silent r t) {command : EngineCommand}
    (hsilent : silent command.id = true)
    (haccepted : (r.exec command).1.status = .accepted)
    (htrades : forall trade, trade ∈ (r.exec command).1.trades ->
      trade.mentions silent = false) :
    Omits silent (r.exec command).2 t := by
  have hsubmit : forall order : NewOrder, silent order.id = true ->
      (r.submit order).1.status = .accepted ->
      (forall trade, trade ∈ (r.submit order).1.trades -> trade.mentions silent = false) ->
      Omits silent (r.submit order).2 t := by
    intro order hsilent haccepted htrades
    have hnone := refusal?_of_accepted haccepted
    rw [submit_of_none hnone] at htrades ⊢
    exact h.accept_silent hnone hsilent htrades
  cases command with
  | limit order => exact hsubmit (.limit order) hsilent haccepted htrades
  | market order => exact hsubmit (.market order) hsilent haccepted htrades
  | cancel id => exact h.cancel_silent hsilent

end Omits
end Reference

/-!
## Runs
-/

namespace MatchingEngine

/-- The command is answered with `Accepted`. -/
def accepts (v : MatchingEngine × EngineCommand) : Bool :=
  decide ((v.1.exec v.2).response.status = .accepted)

theorem exec_of_refuses {e : MatchingEngine} {command : EngineCommand}
    (h : accepts (e, command) = false) : (e.exec command).engine = e := by
  have hquiet := api_quietRejections.unchanged e command
  rw [api_exec] at hquiet
  exact hquiet (of_decide_eq_false h)

def heard (silent : OrderId -> Bool) (v : MatchingEngine × EngineCommand) : Bool :=
  accepts v && !silent v.2.id

/-- Two engines of which the second never hears of the silent orders. -/
structure Unaware (space : OrderId -> ClientId) (silent : OrderId -> Bool)
    (e plain : MatchingEngine) : Prop where
  separated : Separated space e
  separated_plain : Separated space plain
  omits : Reference.Omits silent e.reference plain.reference

namespace Unaware

variable {space : OrderId -> ClientId} {silent : OrderId -> Bool} {e plain : MatchingEngine}
  {command : EngineCommand}

theorem exec (h : Unaware space silent e plain) (hown : OwnId space command)
    (htrades : forall trade, trade ∈ (e.exec command).response.trades ->
      trade.mentions silent = false)
    (hheard : heard silent (e, command) = true) :
    Unaware space silent (e.exec command).engine (plain.exec command).engine ∧
      (plain.exec command).response = (e.exec command).response := by
  unfold heard accepts at hheard
  simp only [Bool.and_eq_true, decide_eq_true_eq, Bool.not_eq_true'] at hheard
  have hrefines := h.separated.exec_refines command
  have hplain := h.separated_plain.exec_refines command
  have hresponse : (e.reference.exec command).1 = (e.exec command).response := by
    rw [← hrefines]
  have hexec := h.omits.exec h.separated.wellFormed.ordered hheard.right
    (hresponse ▸ hheard.left) (hresponse ▸ htrades)
  rw [← hrefines, ← hplain] at hexec
  exact ⟨⟨h.separated.exec hown, h.separated_plain.exec hown, hexec.left⟩, hexec.right⟩

theorem skip (h : Unaware space silent e plain) (hown : OwnId space command)
    (htrades : forall trade, trade ∈ (e.exec command).response.trades ->
      trade.mentions silent = false)
    (hunheard : heard silent (e, command) = false) :
    Unaware space silent (e.exec command).engine plain := by
  cases haccepts : accepts (e, command) with
  | false =>
      rw [exec_of_refuses haccepts]
      exact h
  | true =>
      unfold heard at hunheard
      rw [haccepts, Bool.true_and, Bool.not_eq_false'] at hunheard
      have hrefines := h.separated.exec_refines command
      have hresponse : (e.reference.exec command).1 = (e.exec command).response := by
        rw [← hrefines]
      have hexec := h.omits.exec_silent hunheard (hresponse ▸ of_decide_eq_true haccepts)
        (hresponse ▸ htrades)
      rw [← hrefines] at hexec
      exact ⟨h.separated.exec hown, h.separated_plain, hexec⟩

end Unaware
end MatchingEngine

/--
Orders that never trade are invisible to everyone else.  Take any run and any
set of orders that are in no trade of it, and leave out all commands about them
and all refused commands: the other responses, the other events, and the other
orders at rest stay what they were.
-/
theorem run_without_untraded (space : OrderId -> ClientId) (raw raw' : Memory)
    (capacity capacity' : UInt64) (stp : StpConfig) (silent : OrderId -> Bool)
    (commands : List EngineCommand) (hstp : stp.PullsNothing) (hle : capacity <= capacity')
    (hcapacity : capacity'.toNat < 2 ^ 32)
    (hown : forall command, command ∈ commands -> OwnId space command)
    (huntraded : forall response,
      response ∈ (MatchingEngine.new raw capacity stp).responses commands ->
      forall trade, trade ∈ response.trades -> trade.mentions silent = false) :
    let e := MatchingEngine.new raw capacity stp
    let plain := MatchingEngine.new raw' capacity' {}
    let others := (e.visits commands).filter (MatchingEngine.heard silent)
    plain.responses (others.map Prod.snd) = others.map (fun v => (v.1.exec v.2).response) ∧
      (plain.run (others.map Prod.snd)).sink =
        (e.run commands).sink.filter (fun event => !event.mentions silent) ∧
      forall s, ((plain.run (others.map Prod.snd)).book.resting s).map RestingOrder.unnumbered =
        (((e.run commands).book.resting s).filter (fun o => !silent o.id)).map
          RestingOrder.unnumbered := by
  intro e plain others
  have hnat : capacity.toNat <= capacity'.toNat := UInt64.le_iff_toNat_le.mp hle
  have hstart : MatchingEngine.Unaware space silent e plain := by
    constructor
    case separated =>
      exact MatchingEngine.Separated.new space raw stp (Nat.lt_of_le_of_lt hnat hcapacity)
    case separated_plain => exact MatchingEngine.Separated.new space raw' {} hcapacity
    case omits =>
      rw [MatchingEngine.reference_new, MatchingEngine.reference_new]
      constructor
      case resting => exact fun _ => rfl
      case watermark => exact fun _ _ h => h
      case nextTradeSequence => rfl
      case capacity => exact hnat
      case events => rfl
      case pullsNothing => exact hstp
      case plain => rfl
  have hrun := Machine.run_selected (S := fun e command => (e.exec command).engine)
    (R := MatchingEngine.Unaware space silent)
    (K := fun e command => OwnId space command ∧
      forall trade, trade ∈ (e.exec command).response.trades -> trade.mentions silent = false)
    (b := MatchingEngine.heard silent)
    (p := fun v => (v.1.exec v.2).response) (q := fun v => (v.1.exec v.2).response)
    (fun _ _ _ h hcommand hheard => h.exec hcommand.left hcommand.right hheard)
    (fun _ _ _ h hcommand hunheard => h.skip hcommand.left hcommand.right hunheard) hstart
    (fun v hv => ⟨hown v.2 (Machine.mem_of_mem_visits _ hv),
      huntraded _ (List.mem_map_of_mem hv)⟩)
  exact ⟨hrun.right, hrun.left.omits.events, hrun.left.omits.resting⟩

def idleOffer : List EngineCommand :=
  [.limit { id := ⟨11⟩, side := .sell, price := ⟨105⟩, quantity := ⟨5⟩, owner := ⟨1⟩ },
    .limit { id := ⟨21⟩, side := .sell, price := ⟨100⟩, quantity := ⟨5⟩, owner := ⟨2⟩ },
    .market { id := ⟨12⟩, side := .buy, quantity := ⟨3⟩, owner := ⟨1⟩ },
    .cancel ⟨11⟩, .cancel ⟨21⟩]

theorem run_without_untraded_idleOffer :
    let silent := fun id : OrderId => decide (id = ⟨11⟩)
    let e := MatchingEngine.new Memory.zeroed 4 {}
    let plain := MatchingEngine.new Memory.zeroed 4 {}
    let others := (e.visits idleOffer).filter (MatchingEngine.heard silent)
    (plain.responses (others.map Prod.snd) = others.map (fun v => (v.1.exec v.2).response) ∧
      (plain.run (others.map Prod.snd)).sink =
        (e.run idleOffer).sink.filter (fun event => !event.mentions silent) ∧
      forall s, ((plain.run (others.map Prod.snd)).book.resting s).map RestingOrder.unnumbered =
        (((e.run idleOffer).book.resting s).filter (fun o => !silent o.id)).map
          RestingOrder.unnumbered) ∧
      others.map (fun v => v.2.id) = [⟨21⟩, ⟨12⟩, ⟨21⟩] := by
  refine ⟨?_, by decide +kernel⟩
  apply run_without_untraded offeredSpace
  · exact fun _ => rfl
  · decide
  · decide
  · intro command hcommand order horder
    simp only [idleOffer, List.mem_cons, List.not_mem_nil, or_false] at hcommand
    rcases hcommand with rfl | rfl | rfl | rfl | rfl
    all_goals cases horder <;> decide
  · decide +kernel

end MiniExchange
