import MiniExchange.Engine.Reference
import MiniExchange.Foundation.SignedWord

/-!
# Buyers and sellers are treated alike

Exchange the two sides and turn the prices over at a price that no order
reaches.  Everything the engine does is then mirrored: the same orders are
refused for the same reasons, the same fills are made in the same order, and
the same orders rest.
-/

namespace MiniExchange

open Foundation

/-!
## Mirrored prices
-/

namespace Price

/-- The mirrored price; prices that are not positive are left as they are. -/
def reflect (m p : Price) : Price :=
  if zero < p then ⟨m.value - p.value⟩ else p

structure Within (m p : Price) : Prop where
  pos : zero < p
  below : p < m

variable {m p q : Price}

theorem lt_iff : p < q <-> p.ticks < q.ticks := Iff.rfl

theorem Within.ticks_reflect (h : Within m p) : (m.reflect p).ticks = m.ticks - p.ticks := by
  have hpos : 0 < p.ticks := h.pos
  have hbelow := lt_iff.mp h.below
  unfold reflect
  rw [if_pos h.pos]
  apply SignedWord.toInt_sub_of_fits
  have hhigh : m.ticks < 2 ^ 63 := m.value.toInt_lt
  show -2 ^ 63 <= m.ticks - p.ticks ∧ m.ticks - p.ticks < 2 ^ 63
  omega

theorem Within.reflect (h : Within m p) : Within m (m.reflect p) := by
  have hticks := h.ticks_reflect
  have hpos : 0 < p.ticks := h.pos
  have hbelow := lt_iff.mp h.below
  constructor
  · show 0 < (m.reflect p).ticks
    omega
  · rw [lt_iff]
    omega

theorem Within.reflect_lt_iff (hp : Within m p) (hq : Within m q) :
    m.reflect p < m.reflect q <-> q < p := by
  rw [lt_iff, lt_iff, hp.ticks_reflect, hq.ticks_reflect]
  omega

theorem reflect_of_nonpos (h : p <= zero) : m.reflect p = p :=
  if_neg (not_lt.mpr h)

theorem reflect_nonpos_iff (h : p < m) : m.reflect p <= zero <-> p <= zero := by
  by_cases hp : p <= zero
  · rw [reflect_of_nonpos hp]
  · have hwithin : Within m p := ⟨not_le.mp hp, h⟩
    constructor
    · intro hle
      exact absurd hle (not_le.mpr hwithin.reflect.pos)
    · intro hle
      exact absurd hle hp

end Price

theorem Side.better_reflect {m p q : Price} (hp : Price.Within m p) (hq : Price.Within m q)
    (s : Side) : s.opposite.better (m.reflect p) (m.reflect q) <-> s.better p q := by
  cases s with
  | buy => exact hp.reflect_lt_iff hq
  | sell => exact hq.reflect_lt_iff hp

/-!
## Mirrored orders, commands and answers
-/

def RestingOrder.reflect (m : Price) (o : RestingOrder) : RestingOrder :=
  { o with
    side := o.side.opposite
    price := m.reflect o.price }

def NewOrder.reflect (m : Price) : NewOrder -> NewOrder
  | .limit o =>
      .limit { o with
        side := o.side.opposite
        price := m.reflect o.price }
  | .market o => .market { o with side := o.side.opposite }

def EngineCommand.reflect (m : Price) : EngineCommand -> EngineCommand
  | .limit o =>
      .limit { o with
        side := o.side.opposite
        price := m.reflect o.price }
  | .market o => .market { o with side := o.side.opposite }
  | .cancel id => .cancel id

def Trade.reflect (m : Price) (t : Trade) : Trade :=
  { t with
    buyOrderId := t.sellOrderId
    sellOrderId := t.buyOrderId
    price := m.reflect t.price }

def EngineResponse.reflect (m : Price) (r : EngineResponse) : EngineResponse :=
  { r with trades := r.trades.map (Trade.reflect m) }

def SinkEvent.reflect (m : Price) : SinkEvent -> SinkEvent
  | .onOrderAccepted event =>
      .onOrderAccepted { event with
        side := event.side.opposite
        price := m.reflect event.price }
  | .onTrade trade => .onTrade (trade.reflect m)
  | .onOrderCancelled event =>
      .onOrderCancelled { event with
        side := event.side.opposite
        price := m.reflect event.price }

def Incoming.reflect (m : Price) (c : Incoming) : Incoming :=
  { c with
    side := c.side.opposite
    limitPrice := c.limitPrice.map m.reflect }

def Action.reflect (m : Price) : Action -> Action
  | .fill o remaining qty => .fill (o.reflect m) remaining qty
  | .cancelOwn o => .cancelOwn (o.reflect m)

def Sweep.reflect (m : Price) (s : Sweep) : Sweep where
  actions := s.actions.map (Action.reflect m)
  remaining := s.remaining
  left := s.left.map (RestingOrder.reflect m)

def EngineCommand.Below (m : Price) (command : EngineCommand) : Prop :=
  forall order, command = .limit order -> order.price < m

section Orders

variable (m : Price) (order : NewOrder)

theorem NewOrder.side_reflect : (order.reflect m).side = order.side.opposite := by
  cases order <;> rfl

theorem NewOrder.quantity_reflect : (order.reflect m).quantity = order.quantity := by
  cases order <;> rfl

theorem NewOrder.id_reflect : (order.reflect m).id = order.id := by
  cases order <;> rfl

theorem NewOrder.owner_reflect : (order.reflect m).owner = order.owner := by
  cases order <;> rfl

theorem NewOrder.limitPrice_reflect :
    (order.reflect m).limitPrice = order.limitPrice.map m.reflect := by
  cases order <;> rfl

theorem NewOrder.incoming_reflect : (order.reflect m).incoming = order.incoming.reflect m := by
  cases order <;> rfl

theorem NewOrder.pulls_reflect (stp : StpConfig) (o : RestingOrder) :
    (order.reflect m).pulls stp (o.reflect m) = order.pulls stp o := by
  cases order <;> rfl

theorem NewOrder.acceptance_reflect :
    (order.reflect m).acceptance = order.acceptance.reflect m := by
  cases order with
  | limit o => rfl
  | market o =>
      have hzero : m.reflect Price.zero = Price.zero := Price.reflect_of_nonpos le_rfl
      unfold NewOrder.acceptance SinkEvent.reflect NewOrder.announced NewOrder.reflect
      simp only [NewOrder.limitPrice, Option.getD_none, hzero]
      rfl

end Orders

/-!
## Mirrored sweeps
-/

section Sweeps

variable {m : Price} {c : Incoming}

def Incoming.LimitWithin (m : Price) (c : Incoming) : Prop :=
  forall limit, c.limitPrice = some limit -> Price.Within m limit

theorem Incoming.beyondLimit_reflect (hc : c.LimitWithin m) {p : Price}
    (hp : Price.Within m p) :
    (c.reflect m).beyondLimit (m.reflect p) = c.beyondLimit p := by
  unfold Incoming.LimitWithin at hc
  unfold Incoming.beyondLimit Incoming.reflect
  cases hlimit : c.limitPrice with
  | none => rfl
  | some limit =>
      have hwithin := hc limit hlimit
      cases c.side with
      | buy => exact decide_eq_decide.mpr (hp.reflect_lt_iff hwithin)
      | sell => exact decide_eq_decide.mpr (hwithin.reflect_lt_iff hp)

theorem Incoming.tradeWith_reflect (o : RestingOrder) (remaining : Quantity)
    (sequence : TradeSequence) :
    (c.reflect m).tradeWith (o.reflect m) remaining sequence =
      (c.tradeWith o remaining sequence).reflect m := by
  unfold Incoming.tradeWith Incoming.reflect Trade.reflect
  cases c.side <;> rfl

theorem Incoming.sweep_reflect (hc : c.LimitWithin m) {pulls pulls' : RestingOrder -> Bool}
    (hpulls : forall o, pulls' (o.reflect m) = pulls o) (remaining : Quantity)
    {orders : List RestingOrder} (horders : forall o, o ∈ orders -> Price.Within m o.price) :
    (c.reflect m).sweep pulls' remaining (orders.map (RestingOrder.reflect m)) =
      (c.sweep pulls remaining orders).reflect m := by
  induction orders generalizing remaining with
  | nil => rfl
  | cons o rest ih =>
      have ih := fun remaining => ih remaining fun a ha => horders a (List.mem_cons_of_mem _ ha)
      have hreaches : (c.reflect m).reaches remaining (o.reflect m).price =
          c.reaches remaining o.price := by
        unfold Incoming.reaches
        exact congrArg (fun b => decide (Quantity.zero < remaining) && !b)
          (Incoming.beyondLimit_reflect hc (horders o List.mem_cons_self))
      have hquantity : (o.reflect m).quantity = o.quantity := rfl
      simp only [List.map_cons, Incoming.sweep, hreaches, hpulls, hquantity, ih]
      split
      · split
        · rfl
        · split <;> rfl
      · rfl

theorem Action.trades_reflect (sequence : TradeSequence) (actions : List Action) :
    Action.trades (c.reflect m) sequence (actions.map (Action.reflect m)) =
      (Action.trades c sequence actions).map (Trade.reflect m) := by
  induction actions generalizing sequence with
  | nil => rfl
  | cons a rest ih =>
      cases a with
      | fill o remaining qty =>
          simp only [List.map_cons, Action.reflect, Action.trades, Incoming.tradeWith_reflect, ih]
      | cancelOwn o => exact ih sequence

theorem Action.events_reflect (sequence : TradeSequence) (actions : List Action) :
    Action.events (c.reflect m) sequence (actions.map (Action.reflect m)) =
      (Action.events c sequence actions).map (SinkEvent.reflect m) := by
  induction actions generalizing sequence with
  | nil => rfl
  | cons a rest ih =>
      cases a with
      | fill o remaining qty =>
          simp only [List.map_cons, Action.reflect, Action.events, Incoming.tradeWith_reflect, ih,
            SinkEvent.reflect]
      | cancelOwn o => exact congrArg (List.cons _) (ih sequence)

theorem Action.fills_reflect (actions : List Action) :
    Action.fills (actions.map (Action.reflect m)) = Action.fills actions := by
  induction actions with
  | nil => rfl
  | cons a rest ih =>
      cases a with
      | fill o remaining qty => exact congrArg (· + 1) ih
      | cancelOwn o => exact ih

theorem queue_reflect (s : Side) {o? : Option RestingOrder} {orders : List RestingOrder}
    (ho : forall o, o? = some o -> Price.Within m o.price)
    (horders : forall o, o ∈ orders -> Price.Within m o.price) :
    MatchingEngine.queue s.opposite (o?.map (RestingOrder.reflect m))
        (orders.map (RestingOrder.reflect m)) =
      (MatchingEngine.queue s o? orders).map (RestingOrder.reflect m) := by
  cases o? with
  | none => rfl
  | some o =>
      have hwithin := ho o rfl
      apply Eq.symm
      apply PriorityList.map_insert_of_iff
      · intro a ha
        exact (Side.better_reflect (horders a ha) hwithin s).symm
      · intro a ha
        exact (Side.better_reflect hwithin (horders a ha) s).symm

end Sweeps

/-!
## The mirrored exchange
-/

namespace Reference

def reflect (m : Price) (r : Reference) : Reference :=
  { r with
    resting := fun s => (r.resting s.opposite).map (RestingOrder.reflect m)
    events := r.events.map (SinkEvent.reflect m) }

def Within (m : Price) (r : Reference) : Prop :=
  forall s o, o ∈ r.resting s -> Price.Within m o.price

section Submissions

variable {m : Price} {r : Reference} {order : NewOrder}

theorem selfCrosses_reflect (hr : r.Within m) (hc : order.incoming.LimitWithin m) :
    (r.reflect m).selfCrosses (order.reflect m) = r.selfCrosses order := by
  unfold selfCrosses reflect
  rw [order.side_reflect, order.owner_reflect, order.incoming_reflect, Side.opposite_opposite,
    List.any_map, Bool.eq_iff_iff, List.any_eq_true, List.any_eq_true]
  apply exists_congr
  intro o
  apply and_congr_right
  intro ho
  have hbeyond := Incoming.beyondLimit_reflect hc (hr _ o ho)
  have howner : (o.reflect m).owner = o.owner := rfl
  have hprice : (o.reflect m).price = m.reflect o.price := rfl
  simp only [Function.comp_apply, howner, hprice, hbeyond]

theorem length_orders_reflect (m : Price) (r : Reference) :
    (r.reflect m).orders.length = r.orders.length := by
  unfold orders reflect
  simp only [List.length_append, List.length_map]
  exact Nat.add_comm _ _

theorem any_nonpos_reflect (hbelow : order.toCommand.Below m) :
    (order.reflect m).limitPrice.any (fun p => decide (p <= Price.zero)) =
        order.limitPrice.any (fun p => decide (p <= Price.zero)) ∧
      (order.limitPrice.any (fun p => decide (p <= Price.zero)) = false ->
        order.incoming.LimitWithin m) := by
  cases order with
  | limit o =>
      have hprice : o.price < m := hbelow o rfl
      constructor
      · exact decide_eq_decide.mpr (Price.reflect_nonpos_iff hprice)
      · intro hvalid limit hlimit
        cases hlimit
        exact ⟨not_le.mp (of_decide_eq_false hvalid), hprice⟩
  | market o => exact ⟨rfl, fun _ _ hlimit => nomatch hlimit⟩

theorem refusal?_reflect (hr : r.Within m) (hbelow : order.toCommand.Below m) :
    (r.reflect m).refusal? (order.reflect m) = r.refusal? order := by
  rcases any_nonpos_reflect hbelow with ⟨hsame, hvalid⟩
  have hsome : (order.reflect m).limitPrice.isSome = order.limitPrice.isSome := by
    rw [order.limitPrice_reflect, Option.isSome_map]
  unfold refusal?
  rw [order.quantity_reflect, order.owner_reflect, order.id_reflect, hsame, hsome,
    length_orders_reflect]
  cases hinvalid : order.limitPrice.any (fun p => decide (p <= Price.zero)) with
  | true => rfl
  | false =>
      rw [selfCrosses_reflect hr (hvalid hinvalid)]
      rfl

theorem sweepOf_reflect (hr : r.Within m) (hc : order.incoming.LimitWithin m) :
    (r.reflect m).sweepOf (order.reflect m) = (r.sweepOf order).reflect m := by
  unfold sweepOf
  rw [order.quantity_reflect, order.incoming_reflect, order.side_reflect]
  show (order.incoming.reflect m).sweep _ order.quantity
    ((r.resting order.side.opposite.opposite.opposite).map _) = _
  rw [Side.opposite_opposite]
  exact Incoming.sweep_reflect hc (order.pulls_reflect m r.stp) order.quantity (hr _)

theorem restedBy_reflect (hr : r.Within m) (hc : order.incoming.LimitWithin m) :
    (r.reflect m).restedBy (order.reflect m) =
      (r.restedBy order).map (RestingOrder.reflect m) := by
  cases order with
  | market o => rfl
  | limit o =>
      have hsweep : (r.reflect m).sweepOf (.limit { o with
          side := o.side.opposite
          price := m.reflect o.price }) = (r.sweepOf (.limit o)).reflect m :=
        sweepOf_reflect hr hc
      have hremaining : ((r.sweepOf (.limit o)).reflect m).remaining =
          (r.sweepOf (.limit o)).remaining := rfl
      simp only [NewOrder.reflect, restedBy, hsweep, hremaining]
      split <;> rfl

theorem restedBy_within (hc : order.incoming.LimitWithin m) {o : RestingOrder}
    (h : r.restedBy order = some o) : Price.Within m o.price := by
  cases order with
  | market mo => cases h
  | limit lo =>
      simp only [restedBy] at h
      split at h
      · cases h
        exact hc lo.price rfl
      · cases h

theorem accept_reflect (hr : r.Within m) (hc : order.incoming.LimitWithin m) :
    (r.reflect m).accept (order.reflect m) =
      ((r.accept order).1.reflect m, (r.accept order).2.reflect m) := by
  have hsweep := sweepOf_reflect hr hc
  have hrested := restedBy_reflect hr hc
  have hacceptance := order.acceptance_reflect m
  apply Prod.ext
  · show EngineResponse.mk _ _ _ _ = _
    rw [hsweep, order.incoming_reflect, order.id_reflect]
    exact congrArg (fun trades => EngineResponse.mk .accepted trades
      (r.sweepOf order).remaining order.id) (Action.trades_reflect _ _)
  apply Reference.ext
  · funext s
    show (if s = (order.reflect m).side then MatchingEngine.queue s
        ((r.reflect m).restedBy (order.reflect m)) ((r.reflect m).resting s)
      else ((r.reflect m).sweepOf (order.reflect m)).left) =
        (if s.opposite = order.side then
          MatchingEngine.queue s.opposite (r.restedBy order) (r.resting s.opposite)
        else (r.sweepOf order).left).map (RestingOrder.reflect m)
    rw [hsweep, hrested, order.side_reflect]
    rcases Side.eq_or_eq_opposite order.side s with rfl | rfl
    · rw [if_neg (Side.ne_opposite _), if_neg (Side.opposite_ne _)]
      rfl
    · have hown : (r.reflect m).resting order.side.opposite =
          (r.resting order.side).map (RestingOrder.reflect m) := by
        show (r.resting order.side.opposite.opposite).map _ = _
        rw [Side.opposite_opposite]
      rw [if_pos rfl, if_pos (Side.opposite_opposite _), Side.opposite_opposite, hown]
      exact queue_reflect order.side (fun o ho => restedBy_within hc ho) (hr order.side)
  · show Function.update r.lastAcceptedId (order.reflect m).owner (some (order.reflect m).id) = _
    rw [order.owner_reflect, order.id_reflect]
    rfl
  · show (if ((r.reflect m).restedBy (order.reflect m)).isSome then _ else _) = _
    rw [hrested, Option.isSome_map]
    rfl
  · show r.nextTradeSequence.advance (Action.fills ((r.reflect m).sweepOf _).actions) = _
    rw [hsweep]
    exact congrArg _ (Action.fills_reflect _)
  · rfl
  · show r.events.map _ ++ (order.reflect m).acceptance :: Action.events _ _ _ =
      (r.events ++ order.acceptance :: Action.events _ _ _).map _
    rw [hsweep, order.incoming_reflect, hacceptance, List.map_append, List.map_cons]
    exact congrArg (fun events => _ ++ _ :: events) (Action.events_reflect _ _)
  · rfl

theorem limitWithin_of_accepted (hbelow : order.toCommand.Below m)
    (h : r.refusal? order = none) : order.incoming.LimitWithin m := by
  exact (any_nonpos_reflect hbelow).right (passes_of_refusal? h).price

theorem submit_reflect (hr : r.Within m) (hbelow : order.toCommand.Below m) :
    (r.reflect m).submit (order.reflect m) =
      ((r.submit order).1.reflect m, (r.submit order).2.reflect m) := by
  unfold submit
  rw [refusal?_reflect hr hbelow]
  cases hrefusal : r.refusal? order with
  | some status =>
      rw [order.id_reflect]
      rfl
  | none => exact accept_reflect hr (limitWithin_of_accepted hbelow hrefusal)

theorem submit_within (hr : r.Within m) (hbelow : order.toCommand.Below m) :
    (r.submit order).2.Within m := by
  unfold submit
  cases hrefusal : r.refusal? order with
  | some status => exact hr
  | none =>
      have hc := limitWithin_of_accepted hbelow hrefusal
      intro s o ho
      have ho : o ∈ if s = order.side then
          MatchingEngine.queue s (r.restedBy order) (r.resting s)
        else (r.sweepOf order).left := ho
      split at ho
      · rcases List.mem_append.mp ((MatchingEngine.queue_perm _ _ _).mem_iff.mp ho) with
          hnew | hold
        · exact restedBy_within hc (Option.mem_toList.mp hnew)
        · exact hr s o hold
      · rcases Incoming.mem_left order.quantity _ ho with ⟨former, hformer, heq, -⟩
        rw [heq]
        exact hr _ former hformer

end Submissions

section Cancellations

variable {m : Price} {r : Reference}

theorem find?_orders_reflect (hids : (r.orders.map (fun o => o.id)).Nodup) (id : OrderId) :
    (r.reflect m).orders.find? (fun o => decide (o.id = id)) =
      (r.orders.find? (fun o => decide (o.id = id))).map (RestingOrder.reflect m) := by
  have hdisjoint : (r.resting .buy).find? (fun o => decide (o.id = id)) = none ∨
      (r.resting .sell).find? (fun o => decide (o.id = id)) = none := by
    unfold orders at hids
    rw [List.map_append, List.nodup_append] at hids
    by_contra hboth
    rw [not_or] at hboth
    rcases Option.ne_none_iff_exists'.mp hboth.left with ⟨a, ha⟩
    rcases Option.ne_none_iff_exists'.mp hboth.right with ⟨b, hb⟩
    have haid : a.id = id := by simpa using List.find?_some ha
    have hbid : b.id = id := by simpa using List.find?_some hb
    exact hids.right.right _ (List.mem_map_of_mem (List.mem_of_find?_eq_some ha)) _
      (List.mem_map_of_mem (List.mem_of_find?_eq_some hb)) (haid.trans hbid.symm)
  have hmap : forall l : List RestingOrder,
      (l.map (RestingOrder.reflect m)).find? (fun o => decide (o.id = id)) =
        (l.find? (fun o => decide (o.id = id))).map (RestingOrder.reflect m) :=
    fun l => List.find?_map
  show ((r.resting .sell).map _ ++ (r.resting .buy).map _).find? _ =
    Option.map _ ((r.resting .buy ++ r.resting .sell).find? _)
  rw [List.find?_append, List.find?_append, hmap, hmap]
  rcases hdisjoint with hnone | hnone
  · rw [hnone]
    simp
  · rw [hnone]
    simp

theorem cancel_reflect (hids : (r.orders.map (fun o => o.id)).Nodup) (id : OrderId) :
    (r.reflect m).cancel id = ((r.cancel id).1.reflect m, (r.cancel id).2.reflect m) := by
  unfold cancel
  rw [find?_orders_reflect hids]
  cases r.orders.find? (fun o => decide (o.id = id)) with
  | none => rfl
  | some o =>
      apply Prod.ext
      · rfl
      apply Reference.ext
      · funext s
        show ((r.resting s.opposite).map (RestingOrder.reflect m)).filter
            (fun o => decide (o.id ≠ id)) =
          ((r.resting s.opposite).filter (fun o => decide (o.id ≠ id))).map _
        rw [List.filter_map]
        rfl
      · rfl
      · rfl
      · rfl
      · rfl
      · show r.events.map _ ++ [_] = (r.events ++ [_]).map _
        rw [List.map_append]
        rfl
      · rfl

theorem cancel_within (hr : r.Within m) (id : OrderId) : (r.cancel id).2.Within m := by
  unfold cancel
  cases r.orders.find? (fun o => decide (o.id = id)) with
  | none => exact hr
  | some o =>
      intro s a ha
      exact hr s a (List.mem_of_mem_filter ha)

end Cancellations

theorem exec_reflect {m : Price} {r : Reference} (hr : r.Within m)
    (hids : (r.orders.map (fun o => o.id)).Nodup) {command : EngineCommand}
    (hbelow : command.Below m) :
    (r.reflect m).exec (command.reflect m) =
        ((r.exec command).1.reflect m, (r.exec command).2.reflect m) ∧
      (r.exec command).2.Within m := by
  have hsubmit : forall order : NewOrder, order.toCommand.Below m ->
      (r.reflect m).submit (order.reflect m) =
          ((r.submit order).1.reflect m, (r.submit order).2.reflect m) ∧
        (r.submit order).2.Within m :=
    fun order horder => ⟨submit_reflect hr horder, submit_within hr horder⟩
  cases command with
  | limit order => exact hsubmit (.limit order) hbelow
  | market order => exact hsubmit (.market order) hbelow
  | cancel id => exact ⟨cancel_reflect hids id, cancel_within hr id⟩

theorem reflect_new (m : Price) (capacity : Nat) (stp : StpConfig) :
    (new capacity stp).reflect m = new capacity stp := rfl

end Reference

/-!
## Mirrored runs
-/

theorem OwnId.reflect {space : OrderId -> ClientId} {command : EngineCommand}
    (h : OwnId space command) (m : Price) : OwnId space (command.reflect m) := by
  intro order horder
  cases command with
  | limit o =>
      cases horder
      exact h (.limit o) rfl
  | market o =>
      cases horder
      exact h (.market o) rfl
  | cancel id => cases horder

namespace MatchingEngine

variable {space : OrderId -> ClientId} {m : Price}

/-- The reference exchange that is given the mirrored commands mirrors the engine. -/
theorem run_reflected {e : MatchingEngine} (h : Separated space e)
    (hwithin : e.reference.Within m) {commands : List EngineCommand}
    (hown : forall command, command ∈ commands -> OwnId space command)
    (hbelow : forall command, command ∈ commands -> command.Below m) :
    (e.reference.reflect m).run (commands.map (EngineCommand.reflect m)) =
        (e.run commands).reference.reflect m ∧
      (e.reference.reflect m).responses (commands.map (EngineCommand.reflect m)) =
        (e.responses commands).map (EngineResponse.reflect m) := by
  have hstep : forall (e : MatchingEngine) (r : Reference) command,
      (Separated space e ∧ e.reference.Within m ∧ r = e.reference.reflect m) ->
      (OwnId space command ∧ command.Below m) ->
        (Separated space (e.exec command).engine ∧
          (e.exec command).engine.reference.Within m ∧
          (r.exec (command.reflect m)).2 = (e.exec command).engine.reference.reflect m) ∧
        (r.exec (command.reflect m)).1 = (e.exec command).response.reflect m := by
    rintro e r command ⟨hs, hw, rfl⟩ ⟨hcommand, hprice⟩
    have hrefines := hs.exec_refines command
    have hids : (e.reference.orders.map (fun o => o.id)).Nodup := hs.agrees.distinct
    rcases Reference.exec_reflect hw hids hprice with ⟨hmirror, hkept⟩
    rw [← hrefines] at hmirror hkept
    exact ⟨⟨hs.exec hcommand, hkept, congrArg Prod.snd hmirror⟩, congrArg Prod.fst hmirror⟩
  have hrun := Machine.run_simulated (S := fun r command => (r.exec command).2)
    (R := fun e r => Separated space e ∧ e.reference.Within m ∧ r = e.reference.reflect m)
    (K := fun _ command => OwnId space command ∧ command.Below m)
    (f := EngineCommand.reflect m) (g := EngineResponse.reflect m)
    (p := fun v : MatchingEngine × EngineCommand => (v.1.exec v.2).response)
    (q := fun v : Reference × EngineCommand => (v.1.exec v.2).1)
    hstep ⟨h, hwithin, rfl⟩
    (fun v hv => ⟨hown v.2 (Machine.mem_of_mem_visits _ hv),
      hbelow v.2 (Machine.mem_of_mem_visits _ hv)⟩)
  exact ⟨hrun.left.right.right, hrun.right⟩

end MatchingEngine

/--
Exchange buys and sells and turn the prices over at a price that every limit
price is below: the responses, the events and the orders at rest are then those
of the original run, with buys and sells exchanged and prices turned over.
-/
theorem run_mirrored (space : OrderId -> ClientId) (m : Price) (raw : Memory)
    (capacity : UInt64) (stp : StpConfig) (commands : List EngineCommand)
    (hcapacity : capacity.toNat < 2 ^ 32)
    (hown : forall command, command ∈ commands -> OwnId space command)
    (hbelow : forall command, command ∈ commands -> command.Below m) :
    let e := MatchingEngine.new raw capacity stp
    let mirrored := commands.map (EngineCommand.reflect m)
    e.responses mirrored = (e.responses commands).map (EngineResponse.reflect m) ∧
      (e.run mirrored).sink = (e.run commands).sink.map (SinkEvent.reflect m) ∧
      forall s, (e.run mirrored).book.resting s =
        ((e.run commands).book.resting s.opposite).map (RestingOrder.reflect m) := by
  intro e mirrored
  have hstart := MatchingEngine.Separated.new space raw stp hcapacity
  have hmirrored : forall command, command ∈ mirrored -> OwnId space command := by
    intro command hcommand
    rcases List.mem_map.mp hcommand with ⟨original, horiginal, rfl⟩
    exact (hown original horiginal).reflect m
  have hwithin : e.reference.Within m := by
    rw [MatchingEngine.reference_new]
    exact fun s o ho => nomatch ho
  rcases MatchingEngine.run_simulates hstart hmirrored with ⟨-, hstate, hresponses⟩
  rcases MatchingEngine.run_reflected hstart hwithin hown hbelow with ⟨hrun, hanswers⟩
  have hsame : e.reference.reflect m = e.reference := by
    rw [MatchingEngine.reference_new]
    exact Reference.reflect_new m _ stp
  rw [hsame] at hrun hanswers
  have hmirror := hstate.trans hrun
  refine ⟨hresponses.trans hanswers, congrArg Reference.events hmirror, ?_⟩
  intro s
  exact congrFun (congrArg Reference.resting hmirror) s

theorem run_mirrored_offeredBids :
    let e := MatchingEngine.new Memory.zeroed 4 { enabled := true }
    let mirrored := offeredBids.map (EngineCommand.reflect ⟨1000⟩)
    e.responses mirrored = (e.responses offeredBids).map (EngineResponse.reflect ⟨1000⟩) ∧
      (e.run mirrored).sink = (e.run offeredBids).sink.map (SinkEvent.reflect ⟨1000⟩) ∧
      forall s, (e.run mirrored).book.resting s =
        ((e.run offeredBids).book.resting s.opposite).map (RestingOrder.reflect ⟨1000⟩) := by
  apply run_mirrored offeredSpace
  · decide
  · exact offeredBids_own
  · intro command hcommand order horder
    simp only [offeredBids, List.mem_cons, List.not_mem_nil, or_false] at hcommand
    rcases hcommand with rfl | rfl | rfl | rfl | rfl
    all_goals cases horder <;> decide

end MiniExchange
