import MiniExchange.Engine.Conservation
import MiniExchange.Engine.RetiredIds

/-!
# The fate of every order

When every id is used by one client only, the events and the book account for
each accepted order by itself.  What was submitted has been filled, has been
cancelled, is still open, or was discarded with the rest of a market order; and
no fill was made on the wrong side or at a price beyond the order's limit.
-/

namespace MiniExchange

open Foundation

/-!
## What the events say about one id
-/

namespace SinkEvent

def filled (id : OrderId) : SinkEvent -> Nat
  | onTrade trade =>
      (if trade.buyOrderId = id then trade.quantity.units else 0) +
        (if trade.sellOrderId = id then trade.quantity.units else 0)
  | _ => 0

def withdrawn (id : OrderId) : SinkEvent -> Nat
  | onOrderCancelled event => if event.id = id then event.remainingQty.units else 0
  | _ => 0

def Names (id : OrderId) : SinkEvent -> Prop
  | onOrderAccepted event => event.id = id
  | onTrade trade => trade.buyOrderId = id ∨ trade.sellOrderId = id
  | onOrderCancelled event => event.id = id

end SinkEvent

def filledUnits (id : OrderId) (events : List SinkEvent) : Nat :=
  (events.map (SinkEvent.filled id)).sum

def withdrawnUnits (id : OrderId) (events : List SinkEvent) : Nat :=
  (events.map (SinkEvent.withdrawn id)).sum

def openUnits (id : OrderId) (orders : List RestingOrder) : Nat :=
  (orders.map (fun o => if o.id = id then o.quantity.units else 0)).sum

section Sums

variable (id : OrderId)

theorem filledUnits_append (events events' : List SinkEvent) :
    filledUnits id (events ++ events') = filledUnits id events + filledUnits id events' := by
  simp [filledUnits]

theorem withdrawnUnits_append (events events' : List SinkEvent) :
    withdrawnUnits id (events ++ events') =
      withdrawnUnits id events + withdrawnUnits id events' := by
  simp [withdrawnUnits]

theorem openUnits_perm {orders orders' : List RestingOrder} (h : orders.Perm orders') :
    openUnits id orders = openUnits id orders' :=
  (h.map _).sum_nat

theorem openUnits_append (orders orders' : List RestingOrder) :
    openUnits id (orders ++ orders') = openUnits id orders + openUnits id orders' := by
  simp [openUnits]

theorem openUnits_cons (o : RestingOrder) (orders : List RestingOrder) :
    openUnits id (o :: orders) =
      (if o.id = id then o.quantity.units else 0) + openUnits id orders := by
  simp [openUnits]

theorem filled_tradeWith (c : Incoming) (o : RestingOrder) (remaining : Quantity)
    (sequence : TradeSequence) :
    SinkEvent.filled id (.onTrade (c.tradeWith o remaining sequence)) =
      (if c.id = id then (Incoming.fillQty remaining o.quantity).units else 0) +
        (if o.id = id then (Incoming.fillQty remaining o.quantity).units else 0) := by
  unfold SinkEvent.filled Incoming.tradeWith
  cases c.side with
  | buy => rfl
  | sell => exact Nat.add_comm _ _

/--
A sweep takes from the incoming order and from the resting orders what its events
say.
-/
theorem sweep_accounts (c : Incoming) (pulls : RestingOrder -> Bool) (remaining : Quantity)
    (orders : List RestingOrder) (sequence : TradeSequence) :
    let s := c.sweep pulls remaining orders
    filledUnits id (Action.events c sequence s.actions) +
        withdrawnUnits id (Action.events c sequence s.actions) + openUnits id s.left +
        (if c.id = id then s.remaining.units else 0) =
      openUnits id orders + (if c.id = id then remaining.units else 0) := by
  revert sequence
  apply Incoming.sweep_induction (P := fun remaining orders s => forall sequence,
    filledUnits id (Action.events c sequence s.actions) +
        withdrawnUnits id (Action.events c sequence s.actions) + openUnits id s.left +
        (if c.id = id then s.remaining.units else 0) =
      openUnits id orders + (if c.id = id then remaining.units else 0))
  case stop =>
    intro remaining orders _ sequence
    show 0 + 0 + openUnits id orders + (if c.id = id then remaining.units else 0) = _
    omega
  case own =>
    intro remaining o rest s _ _ _ ih sequence
    have hrest := ih sequence
    simp only [Sweep.cons, Action.events, filledUnits, withdrawnUnits, List.map_cons,
      List.sum_cons, openUnits_cons] at hrest ⊢
    simp only [Action.cancellation, SinkEvent.filled, SinkEvent.withdrawn]
    omega
  case full =>
    intro remaining o rest s _ _ _ hle ih sequence
    have hfull : Incoming.fillQty remaining o.quantity = o.quantity := by
      rw [Incoming.fillQty_eq_min, min_eq_right hle]
    have hrest := ih sequence.next
    rw [Quantity.units_sub_of_le hle] at hrest
    rw [Quantity.le_iff] at hle
    simp only [Sweep.cons, Action.events, filledUnits, withdrawnUnits, List.map_cons,
      List.sum_cons, openUnits_cons, filled_tradeWith, hfull, SinkEvent.withdrawn] at hrest ⊢
    by_cases hid : c.id = id
    · simp only [hid, if_true] at hrest ⊢
      omega
    · simp only [hid, if_false] at hrest ⊢
      omega
  case absorbed =>
    intro remaining o rest _ _ _ hlt sequence
    have hall : Incoming.fillQty remaining o.quantity = remaining := by
      rw [Incoming.fillQty_eq_min, min_eq_left (le_of_lt hlt)]
    have hunits := Quantity.units_sub_of_le (le_of_lt hlt)
    rw [Quantity.lt_iff] at hlt
    simp only [Action.events, filledUnits, withdrawnUnits, List.map_cons, List.map_nil,
      List.sum_cons, List.sum_nil, openUnits_cons, filled_tradeWith, hall, hunits,
      SinkEvent.withdrawn, Quantity.units_zero, ite_self]
    by_cases hid : o.id = id
    · simp only [hid, if_true]
      omega
    · simp only [hid, if_false]
      omega

end Sums

/-!
## The account of an id

What is open under an id, and what has been filled or cancelled.
-/

namespace MatchingEngine

def account (e : MatchingEngine) (id : OrderId) : Nat :=
  openUnits id e.restingOrders + filledUnits id e.sink + withdrawnUnits id e.sink

section Accounts

variable {e : MatchingEngine} (id : OrderId)

theorem openUnits_restingOrders (e : MatchingEngine) (s : Side) :
    openUnits id e.restingOrders =
      openUnits id (e.book.resting s) + openUnits id (e.book.resting s.opposite) := by
  rw [openUnits_perm id (e.restingOrders_perm s), openUnits_append]

theorem remainder_accounts (e : MatchingEngine) (order : NewOrder) :
    openUnits id (e.restedBy order).toList +
        (if order.id = id then discarded order (e.sweepOf order).remaining else 0) =
      if order.id = id then (e.sweepOf order).remaining.units else 0 := by
  cases order with
  | market o => exact Nat.zero_add _
  | limit o =>
      cases hrest : e.restedBy (.limit o) with
      | some rested =>
          rcases restedBy_some hrest with ⟨lo, hlo, -, rfl⟩
          cases hlo
          have hdiscarded : discarded (.limit o)
              (e.sweepOf (.limit o)).remaining = 0 := rfl
          rw [hdiscarded, ite_self, Option.toList_some, openUnits_cons]
          rfl
      | none =>
          rw [Quantity.not_pos_iff.mp (restedBy_none hrest)]
          simp [openUnits, discarded]

theorem submit_account {order : NewOrder} (ha : Admission e order (e.submit order)) :
    e.account id + (if order.id = id then order.quantity.units else 0) =
      (e.submit order).engine.account id +
        (if order.id = id then discarded order (e.sweepOf order).remaining else 0) := by
  have hswept := sweep_accounts id order.incoming (order.pulls e.stp) order.quantity
    (e.book.resting order.side.opposite) e.nextTradeSequence
  have hremainder := remainder_accounts id e order
  have hfilled : filledUnits id (order.acceptance :: Action.events order.incoming
        e.nextTradeSequence (e.sweepOf order).actions) =
      filledUnits id (Action.events order.incoming e.nextTradeSequence
        (e.sweepOf order).actions) := Nat.zero_add _
  have hwithdrawn : withdrawnUnits id (order.acceptance :: Action.events order.incoming
        e.nextTradeSequence (e.sweepOf order).actions) =
      withdrawnUnits id (Action.events order.incoming e.nextTradeSequence
        (e.sweepOf order).actions) := Nat.zero_add _
  unfold account
  rw [openUnits_restingOrders id _ order.side, openUnits_restingOrders id _ order.side, ha.sink,
    filledUnits_append, withdrawnUnits_append, hfilled, hwithdrawn, ha.own, ha.opposing,
    openUnits_perm id (queue_perm _ _ _), openUnits_append]
  have hswept : filledUnits id (Action.events order.incoming e.nextTradeSequence
          (e.sweepOf order).actions) +
        withdrawnUnits id (Action.events order.incoming e.nextTradeSequence
          (e.sweepOf order).actions) + openUnits id (e.sweepOf order).left +
        (if order.id = id then (e.sweepOf order).remaining.units else 0) =
      openUnits id (e.book.resting order.side.opposite) +
        (if order.id = id then order.quantity.units else 0) := hswept
  omega

theorem cancel_account {cancelled : OrderId} {s : Side} {x : Slot} (hw : e.book.WellFormed)
    (hc : Cancellation e cancelled s x (e.cancel cancelled)) :
    (e.cancel cancelled).engine.account id = e.account id := by
  rcases hc.without.resting_perm hw hc.resting with ⟨hown, hother⟩
  have hevent : withdrawnUnits id [Action.cancellation (e.book.data x)] =
      if (e.book.data x).id = id then (e.book.data x).quantity.units else 0 := Nat.add_zero _
  have hfilled : filledUnits id [Action.cancellation (e.book.data x)] = 0 := rfl
  unfold account
  rw [openUnits_restingOrders id _ s, openUnits_restingOrders id _ s, hc.sink,
    filledUnits_append, withdrawnUnits_append, hevent, hfilled, hother,
    openUnits_perm id hown, openUnits_cons]
  omega

end Accounts

def BringsOther (id : OrderId) (e : MatchingEngine) (command : EngineCommand) : Prop :=
  forall order, command.newOrder? = some order -> e.Admits order -> order.id ≠ id

theorem exec_account {e : MatchingEngine} (hw : e.book.WellFormed) {id : OrderId}
    {command : EngineCommand} (h : BringsOther id e command) :
    (e.exec command).engine.account id = e.account id := by
  apply exec_induction (Q := fun e' => e'.account id = e.account id) hw rfl command
  · intro order hcommand hadmits ha
    have hne : order.id ≠ id := h order (by rw [hcommand, NewOrder.newOrder?_toCommand]) hadmits
    have hbalance := submit_account id ha
    rw [if_neg hne, if_neg hne] at hbalance
    exact hbalance.symm
  · intro cancelled s x _ hc
    exact cancel_account id hw hc

/-!
## Ids that have not been used
-/

def Passed (space : OrderId -> ClientId) (e : MatchingEngine) (id : OrderId) : Prop :=
  exists w, e.lastAcceptedId (space id) = some w ∧ id.value <= w.value

structure Unused (e : MatchingEngine) (id : OrderId) : Prop where
  events : forall event, event ∈ e.sink -> ¬ event.Names id
  resting : forall s r, r ∈ e.book.resting s -> r.id ≠ id

theorem Unused.account_eq {e : MatchingEngine} {id : OrderId} (h : Unused e id) :
    e.account id = 0 := by
  have hfilled : filledUnits id e.sink = 0 := by
    apply List.sum_eq_zero
    intro n hn
    rcases List.mem_map.mp hn with ⟨event, hevent, rfl⟩
    have hnames := h.events event hevent
    cases event with
    | onTrade trade =>
        have hnot := not_or.mp hnames
        simp only [SinkEvent.filled, if_neg hnot.left, if_neg hnot.right, Nat.add_zero]
    | onOrderAccepted accepted => rfl
    | onOrderCancelled cancelled => rfl
  have hwithdrawn : withdrawnUnits id e.sink = 0 := by
    apply List.sum_eq_zero
    intro n hn
    rcases List.mem_map.mp hn with ⟨event, hevent, rfl⟩
    have hnames := h.events event hevent
    cases event with
    | onTrade trade => rfl
    | onOrderAccepted accepted => rfl
    | onOrderCancelled cancelled => exact if_neg hnames
  have hopen : openUnits id e.restingOrders = 0 := by
    apply List.sum_eq_zero
    intro n hn
    rcases List.mem_map.mp hn with ⟨o, ho, rfl⟩
    have hresting : o.id ≠ id := by
      rcases List.mem_append.mp ho with hbuy | hsell
      · exact h.resting _ o hbuy
      · exact h.resting _ o hsell
    exact if_neg hresting
  unfold account
  rw [hopen, hfilled, hwithdrawn]

theorem mem_events {c : Incoming} {sequence : TradeSequence} {actions : List Action}
    {event : SinkEvent} (h : event ∈ Action.events c sequence actions) :
    (exists o remaining qty sequence', .fill o remaining qty ∈ actions ∧
      event = .onTrade (c.tradeWith o remaining sequence')) ∨
    exists o, .cancelOwn o ∈ actions ∧ event = Action.cancellation o := by
  induction actions generalizing sequence with
  | nil => cases h
  | cons a rest ih =>
      cases a with
      | fill o remaining qty =>
          rcases List.mem_cons.mp h with rfl | hrest
          · exact Or.inl ⟨o, remaining, qty, sequence, List.mem_cons_self, rfl⟩
          · rcases ih hrest with ⟨o', r, q, n, ho, heq⟩ | ⟨o', ho, heq⟩
            · exact Or.inl ⟨o', r, q, n, List.mem_cons_of_mem _ ho, heq⟩
            · exact Or.inr ⟨o', List.mem_cons_of_mem _ ho, heq⟩
      | cancelOwn o =>
          rcases List.mem_cons.mp h with rfl | hrest
          · exact Or.inr ⟨o, List.mem_cons_self, rfl⟩
          · rcases ih hrest with ⟨o', r, q, n, ho, heq⟩ | ⟨o', ho, heq⟩
            · exact Or.inl ⟨o', r, q, n, List.mem_cons_of_mem _ ho, heq⟩
            · exact Or.inr ⟨o', List.mem_cons_of_mem _ ho, heq⟩

theorem submit_events {e : MatchingEngine} {order : NewOrder}
    (ha : Admission e order (e.submit order)) {event : SinkEvent}
    (h : event ∈ (e.submit order).engine.sink) :
    event ∈ e.sink ∨ event = order.acceptance ∨
      (exists o remaining sequence, o ∈ e.book.resting order.side.opposite ∧
        order.incoming.beyondLimit o.price = false ∧
        event = .onTrade (order.incoming.tradeWith o remaining sequence)) ∨
      exists o, o ∈ e.book.resting order.side.opposite ∧ event = Action.cancellation o := by
  rw [ha.sink] at h
  rcases List.mem_append.mp h with hold | hnew
  · exact Or.inl hold
  · right
    rcases List.mem_cons.mp hnew with heq | hswept
    · exact Or.inl heq
    · right
      rcases mem_events hswept with ⟨o, remaining, qty, sequence, ho, heq⟩ | ⟨o, ho, heq⟩
      · have hacts := sweepOf_actions ho
        exact Or.inl ⟨o, remaining, sequence, hacts.left, hacts.right.left, heq⟩
      · exact Or.inr ⟨o, (sweepOf_actions ho).left, heq⟩

section Usage

variable {space : OrderId -> ClientId} {e : MatchingEngine} {command : EngineCommand}
  {id : OrderId}

theorem names_tradeWith {c : Incoming} {o : RestingOrder} {remaining : Quantity}
    {sequence : TradeSequence}
    (h : (SinkEvent.onTrade (c.tradeWith o remaining sequence)).Names id) :
    c.id = id ∨ o.id = id := by
  unfold SinkEvent.Names Incoming.tradeWith at h
  cases hside : c.side with
  | buy =>
      rw [hside] at h
      exact h
  | sell =>
      rw [hside] at h
      exact h.symm

theorem Unused.exec (h : Unused e id) (hw : e.book.WellFormed)
    (hother : BringsOther id e command) : Unused (e.exec command).engine id where
  events := by
    apply exec_induction (Q := fun e' => forall event, event ∈ e'.sink -> ¬ event.Names id)
      hw h.events command
    · intro order hcommand hadmits ha event hevent
      have hne : order.id ≠ id :=
        hother order (by rw [hcommand, NewOrder.newOrder?_toCommand]) hadmits
      rcases submit_events ha hevent with hold | rfl | ⟨o, remaining, sequence, ho, -, rfl⟩ |
        ⟨o, ho, rfl⟩
      · exact h.events event hold
      · exact hne
      · intro hnames
        rcases names_tradeWith hnames with hincoming | hresting
        · exact hne hincoming
        · exact h.resting _ o ho hresting
      · exact h.resting _ o ho
    · intro cancelled s x _ hc event hevent
      rw [hc.sink] at hevent
      rcases List.mem_append.mp hevent with hold | hnew
      · exact h.events event hold
      · rw [List.mem_singleton.mp hnew]
        exact h.resting s _ (List.mem_map_of_mem hc.resting)
  resting s r hr := by
    rcases exec_origin hw command hr with ⟨former, hformer, hid, -⟩ |
      ⟨lo, rfl, hadmits, -, hid, -⟩
    · rw [← hid]
      exact h.resting s former hformer
    · rw [← hid]
      exact hother (NewOrder.limit lo) rfl hadmits

theorem bringsOther_of_passed (h : Passed space e id) (hown : OwnId space command) :
    BringsOther id e command := by
  rintro order horder hadmits rfl
  rcases h with ⟨w, hw, hle⟩
  rw [hown order horder] at hw
  exact UInt64.not_le.mpr (Watermarked.lt_of_admits hadmits hw) hle

theorem passed_submit {order : NewOrder} (ha : Admission e order (e.submit order))
    (hown : OwnId space order.toCommand) :
    Passed space (e.submit order).engine order.id := by
  have hspace := hown order (NewOrder.newOrder?_toCommand order)
  refine ⟨order.id, ?_, UInt64.le_refl _⟩
  rw [ha.lastAcceptedId, hspace, Function.update_self]

theorem bringsOther_of_not_passed (hw : e.book.WellFormed) (hown : OwnId space command)
    (h : ¬ Passed space (e.exec command).engine id) : BringsOther id e command := by
  rintro order horder hadmits rfl
  apply h
  have ha := admission hw hadmits
  cases command with
  | limit lo =>
      cases horder
      exact passed_submit ha hown
  | market mo =>
      cases horder
      exact passed_submit ha hown
  | cancel cancelled => cases horder

theorem run_unused (space : OrderId -> ClientId) (raw : Memory) (capacity : UInt64)
    (stp : StpConfig) {commands : List EngineCommand}
    (hown : forall command, command ∈ commands -> OwnId space command) {id : OrderId}
    (h : ¬ Passed space ((new raw capacity stp).run commands) id) :
    Unused ((new raw capacity stp).run commands) id := by
  have hstep : forall (e : MatchingEngine) command,
      (e.book.WellFormed ∧ forall id, ¬ Passed space e id -> Unused e id) ->
      OwnId space command ->
        (e.exec command).engine.book.WellFormed ∧
          forall id, ¬ Passed space (e.exec command).engine id ->
            Unused (e.exec command).engine id := by
    rintro e command ⟨hw, hunused⟩ hcommand
    refine ⟨exec_wellFormed hw command, ?_⟩
    intro id hnot
    have hbefore : ¬ Passed space e id := fun hpassed => hnot (exec_passed hw command hpassed)
    exact (hunused id hbefore).exec hw (bringsOther_of_not_passed hw hcommand hnot)
  have hstart : forall id, ¬ Passed space (new raw capacity stp) id ->
      Unused (new raw capacity stp) id := by
    intro id _
    constructor
    · intro event hevent
      cases hevent
    · intro s r hr
      have hempty : (new raw capacity stp).book.resting s = [] :=
        OrderBook.WellFormed.resting_new raw capacity s
      rw [hempty] at hr
      cases hr
  exact (Machine.run_invariant_of hstep ⟨OrderBook.WellFormed.new raw capacity, hstart⟩
    (fun v hv => hown v.2 (Machine.mem_of_mem_visits _ hv))).right id h

end Usage

/-!
## Fair fills
-/

/-- If the trade names the order, then on its own side and within its limit. -/
structure Allows (order : NewOrder) (trade : Trade) : Prop where
  bought : trade.buyOrderId = order.id -> order.side = .buy ∧
    forall limit, order.limitPrice = some limit -> trade.price <= limit
  sold : trade.sellOrderId = order.id -> order.side = .sell ∧
    forall limit, order.limitPrice = some limit -> limit <= trade.price

structure Fair (e : MatchingEngine) (order : NewOrder) : Prop where
  trades : forall trade, .onTrade trade ∈ e.sink -> Allows order trade
  resting : forall s r, r ∈ e.book.resting s -> r.id = order.id ->
    s = order.side ∧ order.limitPrice = some r.price

section Fairness

variable {e : MatchingEngine} {order : NewOrder}

theorem submit_rests (ha : Admission e order (e.submit order)) {s : Side} {r : RestingOrder}
    (hr : r ∈ (e.submit order).engine.book.resting s) :
    (exists former, former ∈ e.book.resting s ∧ former.id = r.id ∧ former.price = r.price) ∨
      e.restedBy order = some r ∧ s = order.side := by
  rcases Side.eq_or_eq_opposite order.side s with rfl | rfl
  · rw [ha.own] at hr
    rcases List.mem_append.mp ((queue_perm _ _ _).mem_iff.mp hr) with hnew | hold
    · exact Or.inr ⟨Option.mem_toList.mp hnew, rfl⟩
    · exact Or.inl ⟨r, hold, rfl, rfl⟩
  · rw [ha.opposing] at hr
    rcases Incoming.mem_left order.quantity _ hr with ⟨former, hformer, heq, -⟩
    rw [heq]
    exact Or.inl ⟨former, hformer, rfl, rfl⟩

theorem allows_tradeWith {o : RestingOrder} (hne : o.id ≠ order.id)
    (hcross : order.incoming.beyondLimit o.price = false) (remaining : Quantity)
    (sequence : TradeSequence) :
    Allows order (order.incoming.tradeWith o remaining sequence) := by
  have hside : order.incoming.side = order.side := rfl
  have hlimitPrice : order.incoming.limitPrice = order.limitPrice := rfl
  unfold Incoming.beyondLimit at hcross
  rw [hside, hlimitPrice] at hcross
  unfold Incoming.tradeWith
  rw [hside]
  cases hs : order.side with
  | buy =>
      refine ⟨fun _ => ⟨hs, ?_⟩, fun hsold => absurd hsold hne⟩
      intro limit hlimit
      rw [hs, hlimit] at hcross
      exact not_lt.mp (of_decide_eq_false hcross)
  | sell =>
      refine ⟨fun hbought => absurd hbought hne, fun _ => ⟨hs, ?_⟩⟩
      intro limit hlimit
      rw [hs, hlimit] at hcross
      exact not_lt.mp (of_decide_eq_false hcross)

theorem Fair.of_submit (h : Unused e order.id) (ha : Admission e order (e.submit order)) :
    Fair (e.submit order).engine order where
  trades trade htrade := by
    rcases submit_events ha htrade with hold | hnew | ⟨o, remaining, sequence, ho, hcross, heq⟩ |
      ⟨o, ho, heq⟩
    · have hnot := not_or.mp (h.events _ hold)
      exact ⟨fun hbought => absurd hbought hnot.left, fun hsold => absurd hsold hnot.right⟩
    · cases hnew
    · cases heq
      exact allows_tradeWith (h.resting _ o ho) hcross remaining sequence
    · cases heq
  resting s r hr hid := by
    rcases submit_rests ha hr with ⟨former, hformer, hsame, -⟩ | ⟨hrested, hside⟩
    · exact absurd (hsame.trans hid) (h.resting s former hformer)
    · rcases restedBy_some hrested with ⟨lo, rfl, -, rfl⟩
      exact ⟨hside, rfl⟩

theorem Fair.allows_other (h : Fair e order) {other : NewOrder} (hne : other.id ≠ order.id)
    {o : RestingOrder} (ho : o ∈ e.book.resting other.side.opposite) (remaining : Quantity)
    (sequence : TradeSequence) :
    Allows order (other.incoming.tradeWith o remaining sequence) := by
  have hside : other.incoming.side = other.side := rfl
  unfold Incoming.tradeWith
  rw [hside]
  cases hs : other.side with
  | buy =>
      rw [hs] at ho
      refine ⟨fun hbought => absurd hbought hne, ?_⟩
      intro hsold
      rcases h.resting _ o ho hsold with ⟨hown, hprice⟩
      refine ⟨hown.symm, ?_⟩
      intro limit hlimit
      rw [hprice] at hlimit
      cases hlimit
      exact le_rfl
  | sell =>
      rw [hs] at ho
      refine ⟨?_, fun hsold => absurd hsold hne⟩
      intro hbought
      rcases h.resting _ o ho hbought with ⟨hown, hprice⟩
      refine ⟨hown.symm, ?_⟩
      intro limit hlimit
      rw [hprice] at hlimit
      cases hlimit
      exact le_rfl

theorem Fair.exec (h : Fair e order) (hw : e.book.WellFormed) {command : EngineCommand}
    (hother : BringsOther order.id e command) : Fair (e.exec command).engine order := by
  apply exec_induction (Q := fun e' => Fair e' order) hw h command
  · intro other hcommand hadmits ha
    have hne : other.id ≠ order.id :=
      hother other (by rw [hcommand, NewOrder.newOrder?_toCommand]) hadmits
    constructor
    · intro trade htrade
      rcases submit_events ha htrade with hold | hnew |
        ⟨o, remaining, sequence, ho, -, heq⟩ | ⟨o, ho, heq⟩
      · exact h.trades trade hold
      · cases hnew
      · cases heq
        exact h.allows_other hne ho remaining sequence
      · cases heq
    · intro s r hr hid
      rcases submit_rests ha hr with ⟨former, hformer, hsame, hprice⟩ | ⟨hrested, -⟩
      · rw [← hprice]
        exact h.resting s former hformer (hsame.trans hid)
      · rcases restedBy_some hrested with ⟨lo, rfl, -, rfl⟩
        exact absurd hid hne
  · intro cancelled s x _ hc
    constructor
    · intro trade htrade
      rw [hc.sink] at htrade
      rcases List.mem_append.mp htrade with hold | hnew
      · exact h.trades trade hold
      · cases List.mem_singleton.mp hnew
    · intro t r hr
      rw [hc.without.resting_eq hw] at hr
      exact h.resting t r ((List.erase_sublist.map _).subset hr)

end Fairness

/-!
## Whole runs
-/

/-- The fate of an accepted order of which the given part was discarded at once. -/
structure Accounted (e : MatchingEngine) (order : NewOrder) (lost : Nat) : Prop where
  quantity : order.quantity.units =
    filledUnits order.id e.sink + withdrawnUnits order.id e.sink +
      openUnits order.id e.restingOrders + lost
  fair : Fair e order

theorem Accounted.of_submit {e : MatchingEngine} {order : NewOrder} (h : Unused e order.id)
    (ha : Admission e order (e.submit order)) :
    Accounted (e.submit order).engine order
      (discarded order (e.submit order).response.remainingQty) where
  quantity := by
    have hbalance := submit_account order.id ha
    rw [h.account_eq, if_pos rfl, if_pos rfl] at hbalance
    unfold account at hbalance
    rw [ha.remainingQty]
    omega
  fair := Fair.of_submit h ha

theorem Accounted.exec {e : MatchingEngine} {order : NewOrder} {lost : Nat}
    (h : Accounted e order lost) (hw : e.book.WellFormed) {command : EngineCommand}
    (hother : BringsOther order.id e command) :
    Accounted (e.exec command).engine order lost where
  quantity := by
    have hkept := exec_account hw hother
    have hquantity := h.quantity
    unfold account at hkept
    omega
  fair := h.fair.exec hw hother

theorem Accounted.run {space : OrderId -> ClientId} {e : MatchingEngine} {order : NewOrder}
    {lost : Nat} (h : Accounted e order lost) (hw : e.book.WellFormed)
    (hpassed : Passed space e order.id) {commands : List EngineCommand}
    (hown : forall command, command ∈ commands -> OwnId space command) :
    Accounted (e.run commands) order lost := by
  have hstep : forall (e : MatchingEngine) command,
      (e.book.WellFormed ∧ Passed space e order.id ∧ Accounted e order lost) ->
      OwnId space command ->
        (e.exec command).engine.book.WellFormed ∧
          Passed space (e.exec command).engine order.id ∧
          Accounted (e.exec command).engine order lost := by
    rintro e command ⟨hw, hpassed, h⟩ hcommand
    exact ⟨exec_wellFormed hw command, exec_passed hw command hpassed,
      h.exec hw (bringsOther_of_passed hpassed hcommand)⟩
  exact (Machine.run_invariant_of hstep ⟨hw, hpassed, h⟩
    (fun v hv => hown v.2 (Machine.mem_of_mem_visits _ hv))).right.right

end MatchingEngine

/--
As long as every id is used by one client only, at the end of every run each
accepted order is accounted for: its quantity is what the events say was filled
and cancelled of it, what is open of it, and what was discarded of it as a market
order.  Every trade that names it is on its side and within its limit.
-/
theorem run_accounts_for_orders (space : OrderId -> ClientId) (raw : Memory)
    (capacity : UInt64) (stp : StpConfig) (commands : List EngineCommand)
    (hown : forall command, command ∈ commands -> OwnId space command) :
    let e := MatchingEngine.new raw capacity stp
    forall v, v ∈ e.visits commands -> forall order : NewOrder, v.2.newOrder? = some order ->
      (v.1.exec v.2).response.status = .accepted ->
      MatchingEngine.Accounted (e.run commands) order
        (MatchingEngine.discarded order (v.1.exec v.2).response.remainingQty) := by
  rintro e ⟨e', command⟩ hv order horder haccepted
  have hw : e'.book.WellFormed := MatchingEngine.visits_wellFormed hv
  rcases (Machine.mem_visits_iff _).mp hv with ⟨before, after, hsplit, hstate⟩
  have hbefore : forall c, c ∈ before -> OwnId space c :=
    fun c hc => hown c (hsplit ▸ List.mem_append_left _ hc)
  have hafter : forall c, c ∈ after -> OwnId space c :=
    fun c hc => hown c (hsplit ▸ List.mem_append_right _ (List.mem_cons_of_mem _ hc))
  have hcommand : OwnId space command :=
    hown command (hsplit ▸ List.mem_append_right _ List.mem_cons_self)
  have hexec : e'.exec command = e'.submit order ∧ OwnId space order.toCommand := by
    cases command with
    | limit lo =>
        cases horder
        exact ⟨rfl, hcommand⟩
    | market mo =>
        cases horder
        exact ⟨rfl, hcommand⟩
    | cancel id => cases horder
  dsimp only at haccepted ⊢
  rw [hexec.left] at haccepted ⊢
  have hadmits := MatchingEngine.admits_of_accepted haccepted
  have ha := MatchingEngine.admission hw hadmits
  have hfresh : ¬ MatchingEngine.Passed space e' order.id := fun hpassed =>
    MatchingEngine.bringsOther_of_passed hpassed hcommand order horder hadmits rfl
  have hunused : MatchingEngine.Unused e' order.id := by
    have hstate : e' = e.run before := hstate
    rw [hstate] at hfresh ⊢
    exact MatchingEngine.run_unused space raw capacity stp hbefore hfresh
  have hend := (MatchingEngine.Accounted.of_submit hunused ha).run ha.wellFormed
    (MatchingEngine.passed_submit ha hexec.right) hafter
  have hrun : e.run commands = (e'.submit order).engine.run after := by
    have hstate : e.run before = e' := hstate.symm
    rw [hsplit]
    show Machine.run _ e (before ++ command :: after) = _
    rw [Machine.run_append]
    show Machine.run _ (e.run before) (command :: after) = _
    rw [hstate, ← hexec.left]
    rfl
  rw [hrun]
  exact hend

def partedOffer : LimitOrder where
  id := ⟨11⟩
  side := .sell
  price := ⟨100⟩
  quantity := ⟨5⟩
  owner := ⟨1⟩

def partedCommands : List EngineCommand :=
  [.limit partedOffer,
    .market { id := ⟨21⟩, side := .buy, quantity := ⟨2⟩, owner := ⟨2⟩ },
    .cancel ⟨11⟩]

theorem run_accounts_for_orders_partedOffer :
    let e := (MatchingEngine.new Memory.zeroed 4 {}).run partedCommands
    e.Accounted (.limit partedOffer) 0 ∧
      filledUnits ⟨11⟩ e.sink = 2 ∧ withdrawnUnits ⟨11⟩ e.sink = 3 := by
  refine ⟨?_, by decide +kernel, by decide +kernel⟩
  apply run_accounts_for_orders (fun id => if id.value = 11 then ⟨1⟩ else ⟨2⟩)
    Memory.zeroed 4 {} partedCommands _
    (MatchingEngine.new Memory.zeroed 4 {}, .limit partedOffer)
    List.mem_cons_self _ rfl
  · decide +kernel
  · intro command hcommand order horder
    simp only [partedCommands, List.mem_cons, List.not_mem_nil, or_false] at hcommand
    rcases hcommand with rfl | rfl | rfl
    all_goals cases horder <;> decide

end MiniExchange
