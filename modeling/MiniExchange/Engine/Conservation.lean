import MiniExchange.Engine.Calls
import Mathlib.Algebra.BigOperators.Ring.List
import Mathlib.Algebra.Ring.Nat

/-!
# Conservation of quantity

Every unit of an accepted order is traded, rests, is cancelled, or is discarded
with the remainder of a market order.  The balance is struck call by call and
added up over a run.
-/

namespace MiniExchange

open Foundation

/-!
## Volumes
-/

theorem OrderBook.WellFormed.Without.volume_eq {b b' : OrderBook} {x : Slot} {s : Side}
    (hw : b.WellFormed) (h : OrderBook.WellFormed.Without b x b')
    (hx : x ∈ b.restingSlots s) (sel : Price -> Bool) :
    volume sel (b.resting s) =
        (if sel (b.data x).price then (b.data x).quantity.units else 0) +
          volume sel (b'.resting s) ∧
      b'.resting s.opposite = b.resting s.opposite := by
  rcases h.resting_perm hw hx with ⟨hperm, hother⟩
  rw [volume_perm hperm, volume_cons]
  exact ⟨rfl, hother⟩

def OrderBook.restingUnits (b : OrderBook) : Nat :=
  volume (fun _ => true) (b.resting .buy) + volume (fun _ => true) (b.resting .sell)

theorem OrderBook.restingUnits_eq (b : OrderBook) (s : Side) :
    b.restingUnits =
      volume (fun _ => true) (b.resting s) + volume (fun _ => true) (b.resting s.opposite) := by
  cases s with
  | buy => rfl
  | sell => exact Nat.add_comm _ _

/-!
## The accounts of a call
-/

def cancelledUnits : List SinkEvent -> Nat
  | [] => 0
  | .onOrderCancelled event :: rest => event.remainingQty.units + cancelledUnits rest
  | _ :: rest => cancelledUnits rest

theorem cancelledUnits_append (events events' : List SinkEvent) :
    cancelledUnits (events ++ events') = cancelledUnits events + cancelledUnits events' := by
  induction events with
  | nil => exact (Nat.zero_add _).symm
  | cons event rest ih =>
      cases event with
      | onOrderCancelled event =>
          simp only [List.cons_append, cancelledUnits, ih]
          omega
      | onOrderAccepted event => exact ih
      | onTrade trade => exact ih

theorem cancelledUnits_events (c : Incoming) (sequence : TradeSequence)
    (actions : List Action) :
    cancelledUnits (Action.events c sequence actions) =
      Action.pulled (fun _ => true) actions := by
  induction actions generalizing sequence with
  | nil => rfl
  | cons action rest ih =>
      cases action with
      | fill o before qty => exact ih _
      | cancelOwn o =>
          simp only [Action.events, Action.cancellation, cancelledUnits, Action.pulled, ih,
            if_true]

namespace MatchingEngine

def acceptedUnits (v : MatchingEngine × EngineCommand) : Nat :=
  match v.2.newOrder? with
  | none => 0
  | some order =>
      if (v.1.exec v.2).response.status = .accepted then order.quantity.units
      else 0

def tradedUnits (response : EngineResponse) : Nat :=
  (response.trades.map (fun t => t.quantity.units)).sum

def discarded : NewOrder -> Quantity -> Nat
  | .limit _, _ => 0
  | .market _, remaining => remaining.units

def discardedUnits (v : MatchingEngine × EngineCommand) : Nat :=
  match v.2.newOrder? with
  | none => 0
  | some order =>
      if (v.1.exec v.2).response.status = .accepted then
        discarded order (v.1.exec v.2).response.remainingQty
      else 0

def heldUnits (e : MatchingEngine) : Nat :=
  e.book.restingUnits + cancelledUnits e.sink

def spentUnits (v : MatchingEngine × EngineCommand) : Nat :=
  2 * tradedUnits (v.1.exec v.2).response + discardedUnits v

section Submission

variable {e : MatchingEngine} {order : NewOrder}

theorem traded_add_remaining (ha : Admission e order (e.submit order)) :
    tradedUnits (e.submit order).response +
      (e.submit order).response.remainingQty.units = order.quantity.units := by
  unfold tradedUnits
  rw [ha.trades, ha.remainingQty, Action.sum_trades (fun a => sweepOf_actions)]
  exact sweepOf_filled e order

theorem remainder_cases (e : MatchingEngine) (order : NewOrder) :
    volume (fun _ => true) (e.restedBy order).toList +
        discarded order (e.sweepOf order).remaining =
      (e.sweepOf order).remaining.units := by
  cases order with
  | market o => exact Nat.zero_add _
  | limit o =>
      cases hrest : e.restedBy (.limit o) with
      | some rested =>
          rcases restedBy_some hrest with ⟨lo, -, -, rfl⟩
          simp [discarded]
      | none =>
          rw [Quantity.not_pos_iff.mp (restedBy_none hrest)]
          rfl

theorem submit_balance (ha : Admission e order (e.submit order)) :
    e.heldUnits + order.quantity.units =
      (e.submit order).engine.heldUnits + (2 * tradedUnits (e.submit order).response +
        discarded order (e.sweepOf order).remaining) := by
  have htraded := traded_add_remaining ha
  have hfilled := sweepOf_filled e order
  have hswept := sweepOf_volume e order (fun _ => true)
  have hremainder := remainder_cases e order
  have hevents : cancelledUnits (e.submit order).engine.sink = cancelledUnits e.sink +
      Action.pulled (fun _ => true) (e.sweepOf order).actions := by
    rw [ha.sink, cancelledUnits_append]
    exact congrArg _ (cancelledUnits_events _ _ _)
  unfold heldUnits
  rw [OrderBook.restingUnits_eq _ order.side, OrderBook.restingUnits_eq _ order.side, hevents,
    ha.opposing, ha.own, volume_perm (queue_perm _ _ _), volume_append]
  rw [ha.remainingQty] at htraded
  omega

end Submission

theorem cancel_balance {e : MatchingEngine} {id : OrderId} {s : Side} {x : Slot}
    (hw : e.book.WellFormed) (hc : Cancellation e id s x (e.cancel id)) :
    e.heldUnits = (e.cancel id).engine.heldUnits := by
  rcases hc.without.volume_eq hw hc.resting (fun _ => true) with ⟨hown, hother⟩
  have hevent : cancelledUnits [Action.cancellation (e.book.data x)] =
      (e.book.data x).quantity.units := rfl
  unfold heldUnits
  rw [OrderBook.restingUnits_eq _ s, OrderBook.restingUnits_eq _ s, hc.sink,
    cancelledUnits_append, hevent, hother, hown]
  simp only [if_true]
  omega

theorem exec_balance {e : MatchingEngine} (hw : e.book.WellFormed) (command : EngineCommand) :
    e.heldUnits + acceptedUnits (e, command) =
      (e.exec command).engine.heldUnits + spentUnits (e, command) := by
  show _ = _ + (2 * tradedUnits (e.exec command).response + discardedUnits (e, command))
  rcases exec_cases hw command with ⟨status, id, hstatus, hcall⟩ |
    ⟨order, rfl, hcall, -, ha⟩ | ⟨id, s, x, rfl, hc⟩
  · have haccepted : acceptedUnits (e, command) = 0 := by
      unfold acceptedUnits
      split
      · rfl
      · rw [hcall]
        exact if_neg hstatus
    have hdiscarded : discardedUnits (e, command) = 0 := by
      unfold discardedUnits
      split
      · rfl
      · rw [hcall]
        exact if_neg hstatus
    rw [haccepted, hdiscarded, hcall]
    rfl
  · have haccepted : acceptedUnits (e, order.toCommand) = order.quantity.units := by
      simp only [acceptedUnits, NewOrder.newOrder?_toCommand, hcall, ha.status, if_true]
    have hdiscarded : discardedUnits (e, order.toCommand) =
        discarded order (e.sweepOf order).remaining := by
      simp only [discardedUnits, NewOrder.newOrder?_toCommand, hcall, ha.status, if_true,
        ha.remainingQty]
    rw [haccepted, hdiscarded, hcall]
    exact submit_balance ha
  · have htraded : tradedUnits (e.cancel id).response = 0 := by
      rw [hc.response]
      rfl
    have hbalance := cancel_balance hw hc
    show _ + 0 = (e.cancel id).engine.heldUnits + (2 * tradedUnits (e.cancel id).response + 0)
    omega

/-!
## The accounts of a run
-/

/-- What was accepted has been traded twice over, rests, was cancelled, or was discarded. -/
def Balanced (e : MatchingEngine) (commands : List EngineCommand) : Prop :=
  ((e.visits commands).map acceptedUnits).sum =
    2 * ((e.calls commands).map (fun call => tradedUnits call.response)).sum +
      (e.run commands).book.restingUnits + cancelledUnits (e.run commands).sink +
      ((e.visits commands).map discardedUnits).sum

def SubmitsBalanced (e : MatchingEngine) (commands : List EngineCommand) : Prop :=
  forall v, v ∈ e.visits commands -> forall order : NewOrder, v.2.newOrder? = some order ->
    (v.1.exec v.2).response.status = .accepted ->
    tradedUnits (v.1.exec v.2).response + (v.1.exec v.2).response.remainingQty.units =
      order.quantity.units

/-- No fill takes more than the resting order has, or than the incoming order has left. -/
def NoUnderflow (e : MatchingEngine) (commands : List EngineCommand) : Prop :=
  forall call, call ∈ e.calls commands -> forall resting remaining qty,
    .fill resting remaining qty ∈ call.ops ->
      qty <= resting.quantity ∧ qty <= remaining

theorem heldUnits_new (raw : Memory) (capacity : UInt64) (stp : StpConfig) :
    (new raw capacity stp).heldUnits = 0 := by
  have hempty := OrderBook.WellFormed.resting_new raw capacity
  show volume _ ((OrderBook.new raw capacity).resting .buy) +
    volume _ ((OrderBook.new raw capacity).resting .sell) + 0 = 0
  rw [hempty, hempty]
  rfl

theorem balanced_new (raw : Memory) (capacity : UInt64) (stp : StpConfig)
    (commands : List EngineCommand) : (new raw capacity stp).Balanced commands := by
  have hkeep : forall (e : MatchingEngine) command, e.book.WellFormed ->
      (e.exec command).engine.book.WellFormed := fun e command hw => exec_wellFormed hw command
  have hbalance : heldUnits (new raw capacity stp) +
        (((new raw capacity stp).visits commands).map acceptedUnits).sum =
      heldUnits ((new raw capacity stp).run commands) +
        (((new raw capacity stp).visits commands).map spentUnits).sum :=
    Machine.run_balance hkeep (fun e command hw => exec_balance hw command)
      (OrderBook.WellFormed.new raw capacity) commands
  have hspent : (((new raw capacity stp).visits commands).map spentUnits).sum =
      2 * (((new raw capacity stp).calls commands).map
        (fun call => tradedUnits call.response)).sum +
        (((new raw capacity stp).visits commands).map discardedUnits).sum := by
    unfold calls
    rw [List.map_map, ← List.sum_map_mul_left, ← List.sum_map_add]
    rfl
  rw [heldUnits_new, hspent] at hbalance
  unfold heldUnits at hbalance
  unfold Balanced
  omega

theorem submitsBalanced_new (raw : Memory) (capacity : UInt64) (stp : StpConfig)
    (commands : List EngineCommand) : (new raw capacity stp).SubmitsBalanced commands := by
  rintro ⟨e, command⟩ hv order horder haccepted
  rcases exec_cases (visits_wellFormed hv) command with ⟨status, id, hstatus, hcall⟩ |
    ⟨order', rfl, hcall, -, ha⟩ | ⟨id, s, x, rfl, hc⟩
  · simp only [hcall] at haccepted
    exact absurd haccepted hstatus
  · simp only [NewOrder.newOrder?_toCommand, Option.some.injEq] at horder
    simp only [hcall, ← horder]
    exact traded_add_remaining ha
  · cases horder

theorem noUnderflow_new (raw : Memory) (capacity : UInt64) (stp : StpConfig)
    (commands : List EngineCommand) : (new raw capacity stp).NoUnderflow commands := by
  intro call hcall resting remaining qty hop
  rcases List.mem_map.mp hcall with ⟨⟨e, command⟩, hv, rfl⟩
  rcases exec_fill (visits_wellFormed hv) hop with ⟨order, -, -, -, hfill⟩
  rw [(sweepOf_actions hfill).right.right.right]
  exact ⟨Incoming.fillQty_le_resting _ _, Incoming.fillQty_le_remaining _ _⟩

end MatchingEngine

/--
Over every run quantity is conserved, every accepted order accounts for its own
quantity, and no quantity underflows.
-/
theorem run_conserves_quantity (raw : Memory) (capacity : UInt64) (stp : StpConfig)
    (commands : List EngineCommand) :
    (MatchingEngine.new raw capacity stp).Balanced commands ∧
      (MatchingEngine.new raw capacity stp).SubmitsBalanced commands ∧
      (MatchingEngine.new raw capacity stp).NoUnderflow commands :=
  ⟨MatchingEngine.balanced_new raw capacity stp commands,
    MatchingEngine.submitsBalanced_new raw capacity stp commands,
    MatchingEngine.noUnderflow_new raw capacity stp commands⟩

end MiniExchange
