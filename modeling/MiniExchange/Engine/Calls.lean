import MiniExchange.Engine.SweepLaws

/-!
# What one engine call does

Every call is a rejection without any effect, an admitted submission, or the
cancellation of a resting order.  An admitted submission is described by the
sweep of the opposing orders and by the order that it leaves in the book.
-/

namespace MiniExchange

open Foundation

namespace NewOrder

def incoming (order : NewOrder) : Incoming where
  side := order.side
  id := order.id
  owner := order.owner
  limitPrice := order.limitPrice

def announced (order : NewOrder) : OrderAccepted where
  id := order.id
  side := order.side
  quantity := order.quantity
  price := order.limitPrice.getD Price.zero

def acceptance (order : NewOrder) : SinkEvent :=
  .onOrderAccepted order.announced

/-- The resting orders that the submission pulls instead of trading with them. -/
def pulls (order : NewOrder) (stp : StpConfig) (resting : RestingOrder) : Bool :=
  stp.enabled && decide (stp.policy = .cancelResting) &&
    decide (resting.owner = order.owner)

def toCommand : NewOrder -> EngineCommand
  | limit order => .limit order
  | market order => .market order

@[simp] theorem newOrder?_toCommand (order : NewOrder) :
    order.toCommand.newOrder? = some order := by
  cases order <;> rfl

end NewOrder

namespace MatchingEngine

def accept (e : MatchingEngine) (order : NewOrder) : MatchingEngine :=
  (e.advanceWatermark order.owner order.id).emit order.acceptance

structure Admits (e : MatchingEngine) (order : NewOrder) : Prop where
  quantity_pos : Quantity.zero < order.quantity
  price_pos : forall p, order.limitPrice = some p -> Price.zero < p
  fresh : e.atOrBelowWatermark order.owner order.id = false
  noSelfCross : e.rejectsSelfCross order.side order.owner order.limitPrice = false
  slot : order.limitPrice.isSome = true -> e.book.poolAvailable ≠ 0

def matched (e : MatchingEngine) (order : NewOrder) : MatchRun :=
  matchAgainstBook (e.accept order) order.incoming order.quantity

def settle (e : MatchingEngine) (order : NewOrder) (remaining : Quantity) :
    MatchingEngine :=
  match order with
  | .limit o =>
      if Quantity.zero < remaining then e.restRemainder o remaining else e
  | .market _ => e

def admitted (e : MatchingEngine) (order : NewOrder) : EngineCall where
  engine := (e.matched order).engine.settle order (e.matched order).remaining
  response :=
    { status := .accepted
      trades := (e.matched order).trades
      remainingQty := (e.matched order).remaining
      orderId := order.id }
  ops := (e.matched order).ops

variable {e : MatchingEngine} {order : NewOrder}

theorem submit_of_admits (h : e.Admits order) :
    e.submit order = e.admitted order := by
  have hpos := h.quantity_pos
  have hfresh := h.fresh
  have hself := h.noSelfCross
  cases order with
  | limit o =>
      have hquantity : ¬ o.quantity = Quantity.zero :=
        fun heq => Quantity.not_pos_iff.mpr heq hpos
      have hprice : ¬ o.price <= Price.zero := not_le.mpr (h.price_pos o.price rfl)
      have hfresh : ¬ e.atOrBelowWatermark o.owner o.id = true := by
        rw [show e.atOrBelowWatermark o.owner o.id = false from hfresh]
        decide
      have hself : ¬ e.rejectsSelfCross o.side o.owner (some o.price) = true := by
        rw [show e.rejectsSelfCross o.side o.owner (some o.price) = false from hself]
        decide
      show e.submitLimit o = _
      unfold submitLimit
      rw [if_neg hquantity, if_neg hprice, if_neg hfresh, if_neg hself, if_neg (h.slot rfl)]
      rfl
  | market o =>
      have hquantity : ¬ o.quantity = Quantity.zero :=
        fun heq => Quantity.not_pos_iff.mpr heq hpos
      have hfresh : ¬ e.atOrBelowWatermark o.owner o.id = true := by
        rw [show e.atOrBelowWatermark o.owner o.id = false from hfresh]
        decide
      have hself : ¬ e.rejectsSelfCross o.side o.owner none = true := by
        rw [show e.rejectsSelfCross o.side o.owner none = false from hself]
        decide
      show e.submitMarket o = _
      unfold submitMarket
      rw [if_neg hquantity, if_neg hfresh, if_neg hself]
      rfl

theorem submit_of_not_admits
    (h : ¬ e.Admits order) :
    exists status, status ≠ .accepted ∧
      e.submit order = e.reject status order.id := by
  cases order with
  | limit o =>
      show exists status, _ ∧ e.submitLimit o = e.reject status o.id
      unfold submitLimit
      split
      · exact ⟨.invalidQuantity, by decide, rfl⟩
      · next hquantity =>
          split
          · exact ⟨.invalidPrice, by decide, rfl⟩
          · next hprice =>
              split
              · exact ⟨.duplicateOrderId, by decide, rfl⟩
              · next hfresh =>
                  split
                  · exact ⟨.selfTradePrevented, by decide, rfl⟩
                  · next hself =>
                      split
                      · exact ⟨.poolExhausted, by decide, rfl⟩
                      · next hslot =>
                          exact absurd
                            { quantity_pos := Quantity.pos_of_ne_zero hquantity
                              price_pos := fun p hp => by
                                cases hp
                                exact not_le.mp hprice
                              fresh := Bool.eq_false_iff.mpr hfresh
                              noSelfCross := Bool.eq_false_iff.mpr hself
                              slot := fun _ => hslot } h
  | market o =>
      show exists status, _ ∧ e.submitMarket o = e.reject status o.id
      unfold submitMarket
      split
      · exact ⟨.invalidQuantity, by decide, rfl⟩
      · next hquantity =>
          split
          · exact ⟨.duplicateOrderId, by decide, rfl⟩
          · next hfresh =>
              split
              · exact ⟨.selfTradePrevented, by decide, rfl⟩
              · next hself =>
                  exact absurd
                    { quantity_pos := Quantity.pos_of_ne_zero hquantity
                      price_pos := fun p hp => nomatch hp
                      fresh := Bool.eq_false_iff.mpr hfresh
                      noSelfCross := Bool.eq_false_iff.mpr hself
                      slot := fun hsome => nomatch hsome } h

/-!
## Admitted submissions
-/

def sweepOf (e : MatchingEngine) (order : NewOrder) : Sweep :=
  order.incoming.sweep (order.pulls e.stp) order.quantity
    (e.book.resting order.side.opposite)

theorem sweepOf_actions {a : Action}
    (h : a ∈ (e.sweepOf order).actions) :
    order.incoming.ActsOn (order.pulls e.stp) (e.book.resting order.side.opposite) a :=
  Incoming.mem_actions _ _ h

theorem sweepOf_filled (e : MatchingEngine) (order : NewOrder) :
    Action.filled (fun _ => true) (e.sweepOf order).actions +
      (e.sweepOf order).remaining.units = order.quantity.units :=
  Incoming.filled_add_remaining _ _

theorem sweepOf_volume (e : MatchingEngine) (order : NewOrder) (sel : Price -> Bool) :
    Action.filled sel (e.sweepOf order).actions + Action.pulled sel (e.sweepOf order).actions +
      volume sel (e.sweepOf order).left = volume sel (e.book.resting order.side.opposite) :=
  Incoming.volume_sweep _ _ _

def restedBy (e : MatchingEngine) : NewOrder -> Option RestingOrder
  | .limit o =>
      if Quantity.zero < (e.sweepOf (.limit o)).remaining then
        some
          { id := o.id
            side := o.side
            price := o.price
            quantity := (e.sweepOf (.limit o)).remaining
            sequence := e.nextSequence
            owner := o.owner }
      else none
  | .market _ => none

theorem restedBy_some {o : RestingOrder}
    (h : e.restedBy order = some o) :
    exists lo, order = .limit lo ∧
      Quantity.zero < (e.sweepOf order).remaining ∧
      o = { id := lo.id
            side := lo.side
            price := lo.price
            quantity := (e.sweepOf order).remaining
            sequence := e.nextSequence
            owner := lo.owner } := by
  cases order with
  | limit lo =>
      simp only [restedBy] at h
      split at h
      · next hpos =>
          cases h
          exact ⟨lo, rfl, hpos, rfl⟩
      · cases h
  | market mo => cases h

theorem restedBy_none {lo : LimitOrder}
    (h : e.restedBy (.limit lo) = none) :
    ¬ Quantity.zero < (e.sweepOf (.limit lo)).remaining := by
  simp only [restedBy] at h
  split at h
  · cases h
  · next hzero => exact hzero

def queue (s : Side) (o? : Option RestingOrder) (orders : List RestingOrder) :
    List RestingOrder :=
  match o? with
  | none => orders
  | some o => PriorityList.insert s.better (fun o => o.price) o orders

theorem queue_perm (s : Side) (o? : Option RestingOrder) (orders : List RestingOrder) :
    (queue s o? orders).Perm (o?.toList ++ orders) := by
  cases o? with
  | none => exact List.Perm.refl _
  | some o => exact PriorityList.perm_insert _ o orders

def countRest (stp : StpConfig) (o? : Option RestingOrder) (index : ClientIndex) :
    ClientIndex :=
  match o? with
  | none => index
  | some o => if stp.enabled then index.rest o else index

structure Admission (e : MatchingEngine) (order : NewOrder) (call : EngineCall) :
    Prop where
  wellFormed : call.engine.book.WellFormed
  status : call.response.status = .accepted
  orderId : call.response.orderId = order.id
  trades : call.response.trades =
    Action.trades order.incoming e.nextTradeSequence (e.sweepOf order).actions
  remainingQty : call.response.remainingQty = (e.sweepOf order).remaining
  actions : call.ops.filterMap MatchOp.action? = (e.sweepOf order).actions
  opposing : call.engine.book.resting order.side.opposite = (e.sweepOf order).left
  own : call.engine.book.resting order.side =
    queue order.side (e.restedBy order) (e.book.resting order.side)
  sink : call.engine.sink = e.sink ++ order.acceptance ::
    Action.events order.incoming e.nextTradeSequence (e.sweepOf order).actions
  nextTradeSequence : call.engine.nextTradeSequence =
    e.nextTradeSequence.advance (Action.fills (e.sweepOf order).actions)
  clientResting : call.engine.clientResting =
    countRest e.stp (e.restedBy order)
      (e.clientResting.unrestAll e.stp (Action.removed (e.sweepOf order).actions))
  nextSequence : call.engine.nextSequence =
    if (e.restedBy order).isSome then e.nextSequence.next else e.nextSequence
  lastAcceptedId : call.engine.lastAcceptedId =
    Function.update e.lastAcceptedId order.owner (some order.id)
  capacity : call.engine.book.pool.capacity = e.book.pool.capacity
  stp : call.engine.stp = e.stp

section Admission

theorem matched_outcome (hw : e.book.WellFormed) (order : NewOrder) :
    (e.matched order).WellFormed ∧
      (e.matched order).outcome order.incoming =
        (MatchRun.start (e.accept order) order.quantity).after order.incoming
          (e.sweepOf order) :=
  matchAgainstBook_outcome (e := e.accept order) hw order.incoming order.quantity

theorem matched_invariant {P : MatchRun -> Prop} (hw : e.book.WellFormed)
    (hstep : forall {p p' : LoopPoint} {r r' : MatchRun}, r.WellFormed -> P r ->
      LoopStep order.incoming (p, r) (p', r') -> P r')
    (h : P (MatchRun.start (e.accept order) order.quantity)) : P (e.matched order) :=
  (loopRun_invariant (P := fun a => P a.2)
    (a := (.outer, MatchRun.start (e.accept order) order.quantity)) hw hstep h
    (matchAgainstBook_run (e := e.accept order) hw order.incoming order.quantity)).right

theorem matched_book {P : OrderBook -> Prop} (hw : e.book.WellFormed)
    (hbook : forall {b b' : OrderBook}, b.WellFormed -> P b -> BookStep b b' -> P b')
    (h : P e.book) : P (e.matched order).engine.book :=
  matched_invariant (P := fun r => P r.engine.book) hw
    (fun hwr hr hstep => step_book hwr hbook hr hstep) h

structure Matched (e : MatchingEngine) (order : NewOrder) (r : MatchRun) : Prop where
  wellFormed : r.engine.book.WellFormed
  trades : r.trades =
    Action.trades order.incoming e.nextTradeSequence (e.sweepOf order).actions
  remaining : r.remaining = (e.sweepOf order).remaining
  actions : r.ops.filterMap MatchOp.action? = (e.sweepOf order).actions
  opposing : r.engine.book.resting order.side.opposite = (e.sweepOf order).left
  own : r.engine.book.resting order.side = e.book.resting order.side
  sink : r.engine.sink = e.sink ++ order.acceptance ::
    Action.events order.incoming e.nextTradeSequence (e.sweepOf order).actions
  nextTradeSequence : r.engine.nextTradeSequence =
    e.nextTradeSequence.advance (Action.fills (e.sweepOf order).actions)
  clientResting : r.engine.clientResting =
    e.clientResting.unrestAll e.stp (Action.removed (e.sweepOf order).actions)
  orders : r.engine.book.orders =
    unindexAll e.book.orders (Action.removed (e.sweepOf order).actions)
  available : r.engine.book.poolAvailable =
    e.book.poolAvailable + (Action.removed (e.sweepOf order).actions).length
  nextSequence : r.engine.nextSequence = e.nextSequence
  lastAcceptedId : r.engine.lastAcceptedId =
    Function.update e.lastAcceptedId order.owner (some order.id)
  capacity : r.engine.book.pool.capacity = e.book.pool.capacity
  stp : r.engine.stp = e.stp

theorem matched_spec (hw : e.book.WellFormed) (order : NewOrder) :
    Matched e order (e.matched order) := by
  rcases matched_outcome hw order with ⟨hwm, hout⟩
  constructor
  case wellFormed => exact hwm
  case trades =>
    have h : (e.matched order).trades ++ [] = [] ++ Action.trades order.incoming
        e.nextTradeSequence (e.sweepOf order).actions := congrArg Outcome.trades hout
    rwa [List.append_nil, List.nil_append] at h
  case remaining => exact congrArg Outcome.remaining hout
  case actions =>
    have h : (e.matched order).ops.filterMap MatchOp.action? ++ [] =
        [] ++ (e.sweepOf order).actions := congrArg Outcome.actions hout
    rwa [List.append_nil, List.nil_append] at h
  case opposing => exact congrArg Outcome.opposing hout
  case own => exact congrArg Outcome.own hout
  case sink =>
    have h : (e.matched order).engine.sink ++ [] = (e.sink ++ [order.acceptance]) ++
        Action.events order.incoming e.nextTradeSequence (e.sweepOf order).actions :=
      congrArg Outcome.sink hout
    rwa [List.append_nil, List.append_assoc] at h
  case nextTradeSequence =>
    have h : (e.matched order).engine.nextTradeSequence.advance 0 =
        e.nextTradeSequence.advance (Action.fills (e.sweepOf order).actions) :=
      congrArg Outcome.nextTradeSequence hout
    rwa [TradeSequence.advance_zero] at h
  case clientResting =>
    have h : (e.matched order).engine.clientResting.unrestAll
          (e.matched order).engine.stp [] =
        e.clientResting.unrestAll e.stp (Action.removed (e.sweepOf order).actions) :=
      congrArg Outcome.clientResting hout
    rwa [ClientIndex.unrestAll_nil] at h
  case orders => exact congrArg Outcome.orders hout
  case available => exact congrArg Outcome.available hout
  case nextSequence => exact congrArg Outcome.nextSequence hout
  case lastAcceptedId => exact congrArg Outcome.lastAcceptedId hout
  case capacity => exact congrArg Outcome.capacity hout
  case stp => exact congrArg Outcome.stp hout

theorem settle_none (hw : e.book.WellFormed) (h : e.restedBy order = none) :
    (e.matched order).engine.settle order (e.matched order).remaining =
      (e.matched order).engine := by
  cases order with
  | limit o =>
      have hrem := (matched_spec hw (.limit o)).remaining
      unfold settle
      dsimp only
      rw [hrem]
      exact if_neg (restedBy_none h)
  | market o => rfl

theorem settle_some (hw : e.book.WellFormed) {o : RestingOrder}
    (h : e.restedBy order = some o) :
    order.limitPrice = some o.price ∧ o.side = order.side ∧
      (e.matched order).engine.settle order (e.matched order).remaining =
        ({ (e.matched order).engine with
          nextSequence := (e.matched order).engine.nextSequence.next
          book := ((e.matched order).engine.book.addOrder
            { toRestingOrder := o }).2 } : MatchingEngine).indexRest o := by
  rcases restedBy_some h with ⟨lo, rfl, hpos, rfl⟩
  have hm := matched_spec hw (.limit lo)
  refine ⟨rfl, rfl, ?_⟩
  unfold settle
  dsimp only
  rw [hm.remaining, if_pos hpos]
  unfold restRemainder
  rw [hm.nextSequence]

theorem settled_with (hw : e.book.WellFormed) (h : e.Admits order) {o : RestingOrder}
    (hrest : e.restedBy order = some o) :
    exists x, OrderBook.WellFormed.With (e.matched order).engine.book
      { toRestingOrder := o } x (e.submit order).engine.book := by
  have hm := matched_spec hw order
  rcases settle_some hw hrest with ⟨hlimit, -, hsettle⟩
  have hslot := h.slot (by rw [hlimit]; rfl)
  have hfree : (e.matched order).engine.book.poolAvailable ≠ 0 := by
    rw [hm.available]
    omega
  rcases hm.wellFormed.addOrder hfree { toRestingOrder := o } with ⟨x, -, hwith⟩
  refine ⟨x, ?_⟩
  rw [submit_of_admits h]
  show OrderBook.WellFormed.With _ _ x
    ((e.matched order).engine.settle order (e.matched order).remaining).book
  rw [hsettle]
  exact hwith

theorem submit_engine (h : e.Admits order) :
    (e.submit order).engine =
      (e.matched order).engine.settle order (e.matched order).remaining := by
  rw [submit_of_admits h]
  rfl

theorem settled_book (hw : e.book.WellFormed) (h : e.Admits order) :
    (e.submit order).engine.book.WellFormed ∧
      (e.submit order).engine.book.resting order.side.opposite =
        (e.matched order).engine.book.resting order.side.opposite ∧
      (e.submit order).engine.book.resting order.side =
        queue order.side (e.restedBy order)
          ((e.matched order).engine.book.resting order.side) ∧
      (e.submit order).engine.book.pool.capacity =
        (e.matched order).engine.book.pool.capacity := by
  cases hrest : e.restedBy order with
  | none =>
      rw [submit_engine h, settle_none hw hrest]
      exact ⟨(matched_spec hw order).wellFormed, rfl, rfl, rfl⟩
  | some o =>
      rcases settled_with hw h hrest with ⟨x, hwith⟩
      have hside : o.side = order.side := (settle_some hw hrest).right.left
      refine ⟨hwith.wellFormed, ?_, ?_, hwith.capacity_eq⟩
      · rw [hwith.resting_eq, if_neg]
        rw [hside]
        exact Side.opposite_ne _
      · rw [hwith.resting_eq, if_pos hside.symm]
        rfl

theorem settled_counters (hw : e.book.WellFormed) (h : e.Admits order) :
    (e.submit order).engine.clientResting =
        countRest (e.matched order).engine.stp (e.restedBy order)
          (e.matched order).engine.clientResting ∧
      (e.submit order).engine.nextSequence =
        if (e.restedBy order).isSome then (e.matched order).engine.nextSequence.next
        else (e.matched order).engine.nextSequence := by
  cases hrest : e.restedBy order with
  | none =>
      rw [submit_engine h, settle_none hw hrest]
      exact ⟨rfl, rfl⟩
  | some o =>
      rw [submit_engine h, (settle_some hw hrest).right.right]
      exact ⟨rfl, rfl⟩

theorem settle_kept (e : MatchingEngine) (order : NewOrder) (remaining : Quantity) :
    (e.settle order remaining).sink = e.sink ∧
      (e.settle order remaining).nextTradeSequence = e.nextTradeSequence ∧
      (e.settle order remaining).lastAcceptedId = e.lastAcceptedId ∧
      (e.settle order remaining).stp = e.stp := by
  cases order with
  | limit o =>
      unfold settle
      dsimp only
      split <;> exact ⟨rfl, rfl, rfl, rfl⟩
  | market o => exact ⟨rfl, rfl, rfl, rfl⟩

theorem admission (hw : e.book.WellFormed) (h : e.Admits order) :
    Admission e order (e.submit order) := by
  have hm := matched_spec hw order
  rcases settled_book hw h with ⟨hwf, hopposing, hown, hcapacity⟩
  rcases settled_counters hw h with ⟨hclient, hsequence⟩
  have hcall : (e.submit order).response = (e.admitted order).response ∧
      (e.submit order).ops = (e.admitted order).ops := by
    rw [submit_of_admits h]
    exact ⟨rfl, rfl⟩
  have hkept := settle_kept (e.matched order).engine order (e.matched order).remaining
  rw [← submit_engine h] at hkept
  exact
    { wellFormed := hwf
      status := by rw [hcall.left]; rfl
      orderId := by rw [hcall.left]; rfl
      trades := by rw [hcall.left]; exact hm.trades
      remainingQty := by rw [hcall.left]; exact hm.remaining
      actions := by rw [hcall.right]; exact hm.actions
      opposing := hopposing.trans hm.opposing
      own := by rw [hown, hm.own]
      sink := hkept.left.trans hm.sink
      nextTradeSequence := hkept.right.left.trans hm.nextTradeSequence
      clientResting := by rw [hclient, hm.clientResting, hm.stp]
      nextSequence := by rw [hsequence, hm.nextSequence]
      lastAcceptedId := hkept.right.right.left.trans hm.lastAcceptedId
      capacity := hcapacity.trans hm.capacity
      stp := hkept.right.right.right.trans hm.stp }

end Admission

/-!
## Cancellations
-/

structure Cancellation (e : MatchingEngine) (id : OrderId) (s : Side) (x : Slot)
    (call : EngineCall) : Prop where
  found : e.book.findOrder id = some x
  resting : x ∈ e.book.restingSlots s
  id_eq : (e.book.data x).id = id
  without : OrderBook.WellFormed.Without e.book x call.engine.book
  response : call.response =
    { status := .accepted
      trades := []
      remainingQty := (e.book.data x).quantity
      orderId := id }
  ops : call.ops = []
  sink : call.engine.sink = e.sink ++ [Action.cancellation (e.book.data x)]
  clientResting : call.engine.clientResting =
    e.clientResting.unrestAll e.stp [e.book.data x]
  nextTradeSequence : call.engine.nextTradeSequence = e.nextTradeSequence
  nextSequence : call.engine.nextSequence = e.nextSequence
  lastAcceptedId : call.engine.lastAcceptedId = e.lastAcceptedId
  stp : call.engine.stp = e.stp

theorem cancel_none {id : OrderId}
    (h : e.book.findOrder id = none) :
    e.cancel id = e.reject .unknownOrderId id := by
  unfold cancel
  rw [h]

theorem cancel_some (hw : e.book.WellFormed) {id : OrderId}
    {x : Slot} (h : e.book.findOrder id = some x) :
    exists s, Cancellation e id s x (e.cancel id) := by
  rcases hw.findOrder_some h with ⟨⟨s, hx⟩, hid⟩
  refine ⟨s, ?_⟩
  have hwithout := hw.removeOrder hx
  unfold cancel
  rw [h]
  dsimp only
  exact
    { found := h
      resting := hx
      id_eq := hid
      without := hwithout
      response := rfl
      ops := rfl
      sink := by
        rw [← hid]
        rfl
      clientResting := rfl
      nextTradeSequence := rfl
      nextSequence := rfl
      lastAcceptedId := rfl
      stp := rfl }

/-!
## All calls
-/

/-- Every call is rejected without effect, or admitted, or a cancellation. -/
theorem exec_cases (hw : e.book.WellFormed) (command : EngineCommand) :
    (exists status id, status ≠ .accepted ∧
      e.exec command = e.reject status id) ∨
    (exists order : NewOrder, command = order.toCommand ∧ e.exec command = e.submit order ∧
      e.Admits order ∧ Admission e order (e.submit order)) ∨
    (exists id s x, command = .cancel id ∧
      Cancellation e id s x (e.cancel id)) := by
  have horder : forall order : NewOrder,
      (exists status id, status ≠ .accepted ∧
        e.submit order = e.reject status id) ∨
      e.Admits order ∧ Admission e order (e.submit order) := by
    intro order
    by_cases hadmits : e.Admits order
    · exact Or.inr ⟨hadmits, admission hw hadmits⟩
    · rcases submit_of_not_admits hadmits with ⟨status, hstatus, hcall⟩
      exact Or.inl ⟨status, order.id, hstatus, hcall⟩
  cases command with
  | limit order =>
      rcases horder (.limit order) with hreject | hadmitted
      · exact Or.inl hreject
      · exact Or.inr (Or.inl ⟨.limit order, rfl, rfl, hadmitted⟩)
  | market order =>
      rcases horder (.market order) with hreject | hadmitted
      · exact Or.inl hreject
      · exact Or.inr (Or.inl ⟨.market order, rfl, rfl, hadmitted⟩)
  | cancel id =>
      cases hfind : e.book.findOrder id with
      | none => exact Or.inl ⟨_, id, by decide, cancel_none hfind⟩
      | some x =>
          rcases cancel_some hw hfind with ⟨s, hc⟩
          exact Or.inr (Or.inr ⟨id, s, x, rfl, hc⟩)

/--
A property is kept by a call if it is kept by admitted submissions and by
cancellations; a rejected call has no effect.
-/
theorem exec_induction {Q : MatchingEngine -> Prop}
    (hw : e.book.WellFormed) (h : Q e) (command : EngineCommand)
    (hsubmit : forall order, command = order.toCommand -> e.Admits order ->
      Admission e order (e.submit order) -> Q (e.submit order).engine)
    (hcancel : forall id s x, command = .cancel id ->
      Cancellation e id s x (e.cancel id) -> Q (e.cancel id).engine) :
    Q (e.exec command).engine := by
  rcases exec_cases hw command with ⟨status, id, -, hcall⟩ |
    ⟨order, hcommand, hcall, hadmits, ha⟩ | ⟨id, s, x, rfl, hc⟩
  · rw [hcall]
    exact h
  · rw [hcall]
    exact hsubmit order hcommand hadmits ha
  · exact hcancel id s x rfl hc

theorem exec_wellFormed (hw : e.book.WellFormed)
    (command : EngineCommand) : (e.exec command).engine.book.WellFormed :=
  exec_induction (Q := fun e => e.book.WellFormed) hw hw command
    (fun _ _ _ h => h.wellFormed) (fun _ _ _ _ h => h.without.wellFormed)

theorem run_wellFormed (raw : Memory) (capacity : UInt64) (stp : StpConfig)
    (commands : List EngineCommand) :
    ((new raw capacity stp).run commands).book.WellFormed :=
  Machine.run_invariant (P := fun e : MatchingEngine => e.book.WellFormed)
    (fun _ command hw => exec_wellFormed hw command)
    (OrderBook.WellFormed.new raw capacity) commands

theorem run_induction_of {Q : MatchingEngine -> Prop} {ok : EngineCommand -> Prop}
    (hw : e.book.WellFormed) (h : Q e)
    (hsubmit : forall e order, e.book.WellFormed -> Q e -> ok order.toCommand ->
      e.Admits order -> Admission e order (e.submit order) -> Q (e.submit order).engine)
    (hcancel : forall e id s x, e.book.WellFormed -> Q e ->
      Cancellation e id s x (e.cancel id) -> Q (e.cancel id).engine)
    {commands : List EngineCommand} (hok : forall command, command ∈ commands -> ok command) :
    Q (e.run commands) := by
  have hstep : forall (e : MatchingEngine) command, (e.book.WellFormed ∧ Q e) -> ok command ->
      (e.exec command).engine.book.WellFormed ∧ Q (e.exec command).engine := by
    rintro e command ⟨hw, h⟩ hcommand
    refine ⟨exec_wellFormed hw command, exec_induction hw h command ?_ ?_⟩
    · intro order heq
      exact hsubmit e order hw h (heq ▸ hcommand)
    · intro id s x _
      exact hcancel e id s x hw h
  have hvisits : forall v, v ∈ e.visits commands -> ok v.2 :=
    fun v hv => hok v.2 (Machine.mem_of_mem_visits _ hv)
  exact (Machine.run_invariant_of hstep ⟨hw, h⟩ hvisits).right

theorem run_induction {Q : MatchingEngine -> Prop}
    (hw : e.book.WellFormed) (h : Q e)
    (hsubmit : forall e order, e.book.WellFormed -> Q e -> e.Admits order ->
      Admission e order (e.submit order) -> Q (e.submit order).engine)
    (hcancel : forall e id s x, e.book.WellFormed -> Q e ->
      Cancellation e id s x (e.cancel id) -> Q (e.cancel id).engine)
    (commands : List EngineCommand) : Q (e.run commands) := by
  have hany : forall command, command ∈ commands -> True := fun _ _ => trivial
  exact run_induction_of hw h (fun e order hw h _ => hsubmit e order hw h) hcancel hany

theorem run_stp (raw : Memory) (capacity : UInt64) (stp : StpConfig)
    (commands : List EngineCommand) : ((new raw capacity stp).run commands).stp = stp :=
  run_induction (Q := fun e => e.stp = stp) (OrderBook.WellFormed.new raw capacity) rfl
    (fun _ _ _ hstp _ h => h.stp.trans hstp) (fun _ _ _ _ _ hstp h => h.stp.trans hstp)
    commands

theorem run_capacity (raw : Memory) (capacity : UInt64) (stp : StpConfig)
    (commands : List EngineCommand) :
    ((new raw capacity stp).run commands).book.pool.capacity = capacity.toNat :=
  run_induction (Q := fun e => e.book.pool.capacity = capacity.toNat)
    (OrderBook.WellFormed.new raw capacity) (OrderPool.new_spec raw capacity).left
    (fun _ _ _ h _ ha => ha.capacity.trans h)
    (fun _ _ _ _ _ h hc => hc.without.capacity_eq.trans h) commands

theorem admits_of_accepted
    (h : (e.submit order).response.status = .accepted) : e.Admits order := by
  by_contra hnot
  rcases submit_of_not_admits hnot with ⟨status, hstatus, hcall⟩
  rw [hcall] at h
  exact hstatus h

theorem visits_run {commands : List EngineCommand}
    {v : MatchingEngine × EngineCommand} (hv : v ∈ e.visits commands) :
    exists before, v.1 = e.run before := by
  rcases (Machine.mem_visits_iff _).mp hv with ⟨before, -, -, hstate⟩
  exact ⟨before, hstate⟩

theorem visits_wellFormed {raw : Memory} {capacity : UInt64} {stp : StpConfig}
    {commands : List EngineCommand} {v : MatchingEngine × EngineCommand}
    (hv : v ∈ (new raw capacity stp).visits commands) : v.1.book.WellFormed := by
  rcases visits_run hv with ⟨before, hstate⟩
  rw [hstate]
  exact run_wellFormed raw capacity stp before

theorem exec_fill (hw : e.book.WellFormed) {command : EngineCommand}
    {resting : RestingOrder} {remaining qty : Quantity}
    (hop : .fill resting remaining qty ∈ (e.exec command).ops) :
    exists order : NewOrder, command = order.toCommand ∧ e.exec command = e.submit order ∧
      e.Admits order ∧ .fill resting remaining qty ∈ (e.sweepOf order).actions := by
  rcases exec_cases hw command with ⟨status, id, -, hcall⟩ |
    ⟨order, rfl, hcall, hadmits, ha⟩ | ⟨id, s, x, rfl, hc⟩
  · rw [hcall] at hop
    cases hop
  · refine ⟨order, rfl, hcall, hadmits, ?_⟩
    rw [hcall] at hop
    rw [← ha.actions]
    exact List.mem_filterMap.mpr ⟨_, hop, rfl⟩
  · have hnone : .fill resting remaining qty ∈ (e.cancel id).ops := hop
    rw [hc.ops] at hnone
    cases hnone

/-!
## Runs of simple orders

The conditions of admission for one limit order, and what becomes of it when
nothing rests on the other side.
-/

theorem fresh_of_last {owner : ClientId} {last id : Nat}
    (hlast : e.lastAcceptedId owner = some ⟨UInt64.ofNat last⟩) (hlt : last < id)
    (hid : id < 2 ^ 64) : e.atOrBelowWatermark owner ⟨UInt64.ofNat id⟩ = false := by
  unfold atOrBelowWatermark
  rw [hlast]
  apply decide_eq_false
  rw [UInt64.le_iff_toNat_le, UInt64.toNat_ofNat_of_lt' hid,
    UInt64.toNat_ofNat_of_lt' (Nat.lt_trans hlt hid)]
  exact Nat.not_le.mpr hlt

theorem fresh_next {owner : ClientId} {n : Nat}
    (hlast : e.lastAcceptedId owner = if n = 0 then none else some ⟨UInt64.ofNat n⟩)
    (hn : n + 1 < 2 ^ 64) : e.atOrBelowWatermark owner ⟨UInt64.ofNat (n + 1)⟩ = false := by
  by_cases hzero : n = 0
  · rw [if_pos hzero] at hlast
    unfold atOrBelowWatermark
    rw [hlast]
  · rw [if_neg hzero] at hlast
    exact fresh_of_last hlast (Nat.lt_succ_self n) hn

theorem admits_limit {o : LimitOrder}
    (hquantity : Quantity.zero < o.quantity) (hprice : Price.zero < o.price)
    (hfresh : e.atOrBelowWatermark o.owner o.id = false)
    (hcross : e.wouldSelfCross o.side o.owner (some o.price) = false)
    (hslot : e.book.poolAvailable ≠ 0) : e.Admits (.limit o) where
  quantity_pos := hquantity
  price_pos p hp := by
    cases hp
    exact hprice
  fresh := hfresh
  noSelfCross := by
    show e.rejectsSelfCross o.side o.owner (some o.price) = false
    unfold rejectsSelfCross
    rw [hcross, Bool.and_false]
  slot _ := hslot

theorem sweepOf_alone
    (h : e.book.resting order.side.opposite = []) :
    e.sweepOf order = Sweep.stop order.quantity [] := by
  unfold sweepOf
  rw [h]
  rfl

theorem restedBy_alone {o : LimitOrder}
    (hquantity : Quantity.zero < o.quantity) (h : e.book.resting o.side.opposite = []) :
    e.restedBy (.limit o) = some
      { id := o.id
        side := o.side
        price := o.price
        quantity := o.quantity
        sequence := e.nextSequence
        owner := o.owner } := by
  have hsweep : e.sweepOf (.limit o) = Sweep.stop o.quantity [] := sweepOf_alone h
  simp only [restedBy, hsweep]
  exact if_pos hquantity

theorem own_alone {o : LimitOrder}
    (ha : Admission e (.limit o) (e.submit (.limit o)))
    (hquantity : Quantity.zero < o.quantity) (h : e.book.resting o.side.opposite = []) :
    ((e.submit (.limit o)).engine.book.resting o.side).Perm
      ({ id := o.id
         side := o.side
         price := o.price
         quantity := o.quantity
         sequence := e.nextSequence
         owner := o.owner } :: e.book.resting o.side) := by
  have hperm := queue_perm o.side (e.restedBy (.limit o)) (e.book.resting o.side)
  rw [restedBy_alone hquantity h] at hperm
  exact (List.Perm.of_eq (restedBy_alone hquantity h ▸ ha.own)).trans hperm

end MatchingEngine
end MiniExchange
