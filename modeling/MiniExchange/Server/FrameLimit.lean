import Mathlib.Data.List.TakeWhile
import MiniExchange.Engine.BookInvariant
import MiniExchange.Engine.EqualAsks
import MiniExchange.Protocol.BinaryProtocol
import MiniExchange.Protocol.TextProtocol
import MiniExchange.Risk.Filter
import MiniExchange.Server.Routing
import MiniExchange.Tcp.Framing

/-!
# Responses and the frame limit

The drain handler renders every response and frames it.  A frame holds at most
4096 bytes, and nothing checks that a response fits: its length grows with the
number of orders that one order trades with.
-/

namespace MiniExchange
namespace Server

open Foundation
open RelaxedServer

inductive ProtocolMode where
  | binary
  | plaintext
deriving DecidableEq, Repr

/-- The renderer that `main` binds for a protocol. -/
def renderFn : ProtocolMode -> EngineResponse -> List UInt8
  | .binary => BinaryProtocol.renderBinary
  | .plaintext => TextProtocol.render

/-- The risk configuration of `main`, with the rounded allowance of its ten percent band. -/
def serverRisk (allowance : Int64 -> Int64) : RiskConfig where
  priceBand := some allowance
  initialReferencePrice := ⟨10000⟩
  maxOrderQty := ⟨1000000⟩
  tickSize := ⟨1⟩
  stpEnabled := true
  stpPolicy := .rejectIncoming

/-- The engine of `main` behind its risk layer. -/
def checkedEngine (raw : Memory) (allowance : Int64 -> Int64) : RiskEngine MatchingEngine :=
  RiskEngine.new (MatchingEngine.new raw 1000000 (serverRisk allowance).stp)
    (serverRisk allowance)

def checkedApi : EngineApi (RiskEngine MatchingEngine) :=
  RiskEngine.api MatchingEngine.api

def crossed (e : MatchingEngine) (order : NewOrder) : List RestingOrder :=
  (e.book.resting order.side.opposite).takeWhile
    (fun o => !order.incoming.beyondLimit o.price)

/--
An order of the binary protocol meets at most 97 orders before its quantity is
used up; in the text protocol, the line for what it takes is short enough.
-/
def MeetsFew (mode : ProtocolMode) (e : MatchingEngine) (order : NewOrder) : Prop :=
  match mode with
  | .binary =>
      (crossed e order).length <= 97 ∨
        order.quantity.units <= volume (fun _ => true) ((crossed e order).take 97)
  | .plaintext =>
      TextProtocol.acceptedSize order.id (portions order.quantity.units (crossed e order))
        (order.quantity.units - volume (fun _ => true) (crossed e order)) <= maxFrameSize

/-- A command is no order that would be accepted, or one that meets few orders. -/
def FitsFrame (mode : ProtocolMode) (r : RiskEngine MatchingEngine) (cmd : TaggedCommand) :
    Prop :=
  forall order, (stamped cmd).newOrder? = some order -> r.passes (stamped cmd) = true ->
    r.inner.Admits order -> MeetsFew mode r.inner order

/-!
## Payload sizes
-/

theorem length_renderFn_le (mode : ProtocolMode) {response : EngineResponse}
    (h : response.trades = []) : (renderFn mode response).length <= maxFrameSize := by
  cases mode with
  | binary =>
      show (BinaryProtocol.renderBinary response).length <= _
      rw [BinaryProtocol.length_renderBinary, h]
      split <;> decide
  | plaintext => exact Nat.le_trans (TextProtocol.length_render_le h) (by decide)

/-- An accepted order's response fits if and only if it meets few orders. -/
theorem admission_fits_iff (mode : ProtocolMode) {e : MatchingEngine} {order : NewOrder}
    (hpolicy : e.stp.policy = .rejectIncoming)
    (ha : MatchingEngine.Admission e order (e.submit order)) :
    (renderFn mode (e.submit order).response).length <= maxFrameSize <->
      MeetsFew mode e order := by
  have hpulls : forall o, order.pulls e.stp o = false := by
    intro o
    unfold NewOrder.pulls
    rw [hpolicy]
    simp
  have htrades : (e.submit order).response.trades.map TextProtocol.shown =
      portions order.quantity.units (crossed e order) := by
    rw [ha.trades]
    exact Incoming.trades_sweep hpulls _ _ _
  have hremaining : (e.submit order).response.remainingQty.units =
      order.quantity.units - volume (fun _ => true) (crossed e order) := by
    rw [ha.remainingQty]
    exact Incoming.remaining_sweep hpulls _ _
  cases mode with
  | binary =>
      show (BinaryProtocol.renderBinary _).length <= _ <-> _
      rw [BinaryProtocol.length_renderBinary, if_neg (not_not.mpr ha.status)]
      show 18 + 42 * _ <= 4096 <-> _
      rw [← List.length_map TextProtocol.shown, htrades]
      refine Iff.trans ?_ length_portions_le_iff
      omega
  | plaintext =>
      show (TextProtocol.render _).length <= _ <-> _
      rw [TextProtocol.length_render_accepted ha.status, htrades, hremaining, ha.orderId]
      exact Iff.rfl

theorem submit_response (r : RiskEngine MatchingEngine) (order : NewOrder) :
    (checkedApi.submit r order).1 =
      if r.runChecks order.quantity order.limitPrice = .accepted then
        (r.inner.submit order).response
      else EngineResponse.rejected (r.runChecks order.quantity order.limitPrice) order.id := by
  show (RiskEngine.submit MatchingEngine.api r order).1 = _
  unfold RiskEngine.submit
  dsimp only
  by_cases hcheck : r.runChecks order.quantity order.limitPrice = .accepted
  · rw [if_neg (not_not.mpr hcheck), if_pos hcheck]
    rfl
  · rw [if_pos hcheck, if_neg hcheck]

theorem submit_passed {r : RiskEngine MatchingEngine} {order : NewOrder}
    (hcheck : r.runChecks order.quantity order.limitPrice = .accepted)
    (htrades : (r.inner.submit order).response.trades = []) :
    (checkedApi.submit r order).2 = { r with inner := (r.inner.submit order).engine } := by
  show (RiskEngine.submit MatchingEngine.api r order).2 = _
  unfold RiskEngine.submit
  dsimp only
  rw [if_neg (not_not.mpr hcheck), RiskEngine.updateReferenceFrom_eq]
  have hreference : RiskEngine.referenceAfter r.referencePrice
      (MatchingEngine.api.submit r.inner order).1 = r.referencePrice := by
    unfold RiskEngine.referenceAfter
    rw [show (MatchingEngine.api.submit r.inner order).1.trades = [] from htrades]
    rfl
  rw [hreference]
  rfl

theorem submit_fits_iff (mode : ProtocolMode) {r : RiskEngine MatchingEngine}
    (hw : r.inner.book.WellFormed) (hpolicy : r.inner.stp.policy = .rejectIncoming)
    (order : NewOrder) :
    (renderFn mode (checkedApi.submit r order).1).length <= maxFrameSize <->
      (r.runChecks order.quantity order.limitPrice = .accepted ->
        r.inner.Admits order -> MeetsFew mode r.inner order) := by
  rw [submit_response]
  by_cases hcheck : r.runChecks order.quantity order.limitPrice = .accepted
  · rw [if_pos hcheck]
    by_cases hadmits : r.inner.Admits order
    · rw [admission_fits_iff mode hpolicy (MatchingEngine.admission hw hadmits)]
      exact ⟨fun h _ _ => h, fun h => h hcheck hadmits⟩
    · rcases MatchingEngine.submit_of_not_admits hadmits with ⟨status, -, hcall⟩
      rw [hcall]
      exact iff_of_true (length_renderFn_le mode rfl) (fun _ h => absurd h hadmits)
  · rw [if_neg hcheck]
    exact iff_of_true (length_renderFn_le mode rfl) (fun h => absurd h hcheck)

theorem dispatch_fits_iff (mode : ProtocolMode) {r : RiskEngine MatchingEngine}
    (hw : r.inner.book.WellFormed) (hpolicy : r.inner.stp.policy = .rejectIncoming)
    (cmd : TaggedCommand) :
    (renderFn mode (dispatchCommand checkedApi r cmd).1).length <= maxFrameSize <->
      FitsFrame mode r cmd := by
  rw [dispatchCommand_eq]
  unfold FitsFrame RiskEngine.passes
  have horder : forall order : NewOrder,
      (renderFn mode (checkedApi.submit r order).1).length <= maxFrameSize <->
        forall order', some order = some order' ->
          decide (r.runChecks order.quantity order.limitPrice = .accepted) = true ->
          r.inner.Admits order' -> MeetsFew mode r.inner order' := by
    intro order
    rw [submit_fits_iff mode hw hpolicy, decide_eq_true_iff]
    constructor
    · rintro h order' heq
      cases heq
      exact h
    · intro h
      exact h order rfl
  cases hcommand : stamped cmd with
  | limit order => exact horder (.limit order)
  | market order => exact horder (.market order)
  | cancel id =>
      refine iff_of_true (length_renderFn_le mode ?_) (fun _ h => nomatch h)
      exact (MatchingEngine.cancel_quiet r.inner id).left

/-!
## The server's engine
-/

theorem dispatchAll_inner (raw : Memory) (allowance : Int64 -> Int64)
    (dispatched : List TaggedCommand) :
    exists commands, (dispatchAll checkedApi (checkedEngine raw allowance) dispatched).inner =
      (MatchingEngine.new raw 1000000 (serverRisk allowance).stp).run commands := by
  have hrun : dispatchAll checkedApi (checkedEngine raw allowance) dispatched =
      RiskEngine.run MatchingEngine.api (checkedEngine raw allowance)
        (dispatched.map stamped) := by
    unfold dispatchAll RiskEngine.run
    rw [Machine.run_translated]
    rfl
  rcases RiskEngine.inner_run_engine (MatchingEngine.new raw 1000000 (serverRisk allowance).stp)
    (serverRisk allowance) (dispatched.map stamped) with ⟨commands, hinner, -⟩
  exact ⟨commands, (congrArg RiskEngine.inner hrun).trans hinner⟩

structure Served (e : MatchingEngine) : Prop where
  wellFormed : e.book.WellFormed
  stp : e.stp = { enabled := true, policy := .rejectIncoming }
  capacity : e.book.pool.capacity = 1000000
  counts : ClientIndex.Counts e.clientResting e.book.keys

theorem dispatchAll_served (raw : Memory) (allowance : Int64 -> Int64)
    (dispatched : List TaggedCommand) :
    Served (dispatchAll checkedApi (checkedEngine raw allowance) dispatched).inner := by
  rcases dispatchAll_inner raw allowance dispatched with ⟨commands, hinner⟩
  rw [hinner]
  exact
    { wellFormed := MatchingEngine.run_wellFormed raw 1000000 _ commands
      stp := MatchingEngine.run_stp raw 1000000 _ commands
      capacity := MatchingEngine.run_capacity raw 1000000 _ commands
      counts := (MatchingEngine.run_indexSound rfl
        (fun _ => visits_roomToCount raw _ (by decide))).counts }

/--
In every state of the server's engine, the response to a command fits into a
frame if and only if the command is not an order that trades with too many.
-/
theorem response_fits_iff (mode : ProtocolMode) (raw : Memory) (allowance : Int64 -> Int64)
    (dispatched : List TaggedCommand) (cmd : TaggedCommand) :
    (renderFn mode (dispatchCommand checkedApi
        (dispatchAll checkedApi (checkedEngine raw allowance) dispatched) cmd).1).length <=
        maxFrameSize <->
      FitsFrame mode (dispatchAll checkedApi (checkedEngine raw allowance) dispatched) cmd := by
  have h := dispatchAll_served raw allowance dispatched
  exact dispatch_fits_iff mode h.wellFormed (congrArg StpConfig.policy h.stp) cmd

/-- If every command of a run of the server fits, so does every delivered response. -/
theorem delivered_fit (capacity : Capacities) (mode : ProtocolMode) (raw : Memory)
    (allowance : Int64 -> Int64) (moves : List RelaxedMove)
    (hfit : forall before cmd,
      before ++ [cmd] <+:
        ((new (checkedEngine raw allowance)).run capacity checkedApi moves).inbound.items ->
      FitsFrame mode (dispatchAll checkedApi (checkedEngine raw allowance) before) cmd)
    {tagged : TaggedResponse}
    (h : tagged ∈ ((new (checkedEngine raw allowance)).run capacity checkedApi moves).delivered) :
    (renderFn mode tagged.response).length <= maxFrameSize := by
  rcases delivered_dispatched capacity checkedApi (checkedEngine raw allowance) moves h with
    ⟨before, cmd, hbefore, hresponse⟩
  have hserved := dispatchAll_served raw allowance before
  rw [hresponse, dispatch_fits_iff mode hserved.wellFormed
    (congrArg StpConfig.policy hserved.stp) cmd]
  exact hfit before cmd hbefore

/-!
## A deep level

Asks of one unit at the reference price, and a bid for 98 of them.  The
acknowledgement and its 98 notifications take 4134 bytes.
-/

def tenPercent (reference : Int64) : Int64 :=
  reference / 10

/-- The `i`-th ask at the reference price. -/
def unitAsk (i : Nat) : LimitOrder where
  id := ⟨UInt64.ofNat (i + 1)⟩
  side := .sell
  price := ⟨10000⟩
  quantity := ⟨1⟩
  owner := ⟨1⟩

def unitAsks (n : Nat) : List TaggedCommand :=
  (List.range n).map (fun i =>
    { client := ⟨1⟩, command := .limit (unitAsk i) })

def deepBid : LimitOrder where
  id := ⟨1⟩
  side := .buy
  price := ⟨10000⟩
  quantity := ⟨98⟩
  owner := ⟨2⟩

/-- The server's engine with `n` asks of one unit at the reference price. -/
structure Deep (n : Nat) (r : RiskEngine MatchingEngine) : Prop
    extends EqualAsks ⟨10000⟩ n r.inner where
  config : r.config = serverRisk tenPercent
  reference : r.referencePrice = ⟨10000⟩

namespace Deep

variable {n : Nat} {r : RiskEngine MatchingEngine}

theorem runChecks (h : Deep n r) {quantity : Quantity} (hquantity : quantity <= ⟨1000000⟩) :
    r.runChecks quantity (some ⟨10000⟩) = .accepted := by
  have hfat : r.checkFatFinger quantity = .accepted := by
    unfold RiskEngine.checkFatFinger
    rw [h.config]
    exact if_neg (not_lt.mpr hquantity)
  have htick : r.checkTickSize ⟨10000⟩ = .accepted := by
    unfold RiskEngine.checkTickSize
    rw [h.config]
    decide
  have hband : r.checkPriceBand ⟨10000⟩ = .accepted := by
    unfold RiskEngine.checkPriceBand
    rw [h.config, h.reference]
    decide
  simp [RiskEngine.runChecks, hfat, htick, hband]

theorem admits_ask (h : Deep n r) (hserved : Served r.inner) (hn : n < 1000000) :
    r.inner.Admits (.limit (unitAsk n)) := by
  have hroom : n < r.inner.book.pool.capacity := by
    rw [hserved.capacity]
    exact hn
  apply h.toEqualAsks.admits_ask hserved.wellFormed hserved.counts hroom (by omega) rfl rfl rfl
  · exact (by decide : Quantity.zero < (⟨1⟩ : Quantity))
  · exact (by decide : Price.zero < (⟨10000⟩ : Price))

theorem admits_bid (h : Deep n r) (hserved : Served r.inner) (hn : n < 1000000) :
    r.inner.Admits (.limit deepBid) := by
  have hroom : n < r.inner.book.pool.capacity := by
    rw [hserved.capacity]
    exact hn
  exact h.toEqualAsks.admits_bid hserved.wellFormed hserved.counts hroom rfl rfl (by decide)
    (by decide)

theorem new : Deep 0 (checkedEngine Memory.zeroed tenPercent) where
  toEqualAsks := EqualAsks.new Memory.zeroed 1000000 _ ⟨10000⟩
  config := rfl
  reference := rfl

theorem ask (h : Deep n r) (hserved : Served r.inner) (hn : n < 1000000) :
    Deep (n + 1) (checkedApi.submit r (.limit (unitAsk n))).2 := by
  have ha := MatchingEngine.admission hserved.wellFormed (h.admits_ask hserved hn)
  have hsweep : r.inner.sweepOf (.limit (unitAsk n)) = Sweep.stop ⟨1⟩ [] :=
    MatchingEngine.sweepOf_alone h.bids
  have hnext : (checkedApi.submit r (.limit (unitAsk n))).2 =
      { r with inner := (r.inner.submit (.limit (unitAsk n))).engine } := by
    refine submit_passed ?_ ?_
    · exact h.runChecks (by decide : (⟨1⟩ : Quantity) <= ⟨1000000⟩)
    · rw [ha.trades, hsweep]
      rfl
  rw [hnext]
  exact
    { toEqualAsks := h.toEqualAsks.ask rfl rfl rfl rfl rfl ha
      config := h.config
      reference := h.reference }

theorem asks_dispatched (hn : n <= 1000000) :
    Deep n (dispatchAll checkedApi (checkedEngine Memory.zeroed tenPercent) (unitAsks n)) := by
  induction n with
  | zero => exact new
  | succ n ih =>
      have hone := (ih (Nat.le_of_succ_le hn)).ask
        (dispatchAll_served Memory.zeroed tenPercent (unitAsks n)) (Nat.lt_of_succ_le hn)
      have hlast : unitAsks (n + 1) = unitAsks n ++
          [{ client := ⟨1⟩, command := .limit (unitAsk n) }] := by
        unfold unitAsks
        rw [List.range_succ, List.map_append]
        rfl
      rw [hlast, dispatchAll_concat]
      exact hone

theorem crossed_eq (h : Deep n r) :
    crossed r.inner (.limit deepBid) = r.inner.book.resting .sell := by
  apply List.takeWhile_eq_self_iff.mpr
  intro o ho
  rw [(h.asks o ho).right.left]
  rfl

theorem not_meetsFew (h : Deep 98 r) :
    ¬ MeetsFew .binary r.inner (.limit deepBid) := by
  have hunits : volume (fun _ => true) ((r.inner.book.resting .sell).take 97) = 97 := by
    rw [volume_units (fun o ho => (h.asks o (List.mem_of_mem_take ho)).right.right),
      List.length_take, h.length]
    rfl
  show ¬ (_ <= 97 ∨ 98 <= _)
  rw [h.crossed_eq, h.length, hunits]
  decide

theorem bid_exceeds_frame (h : Deep 98 r) (hserved : Served r.inner) :
    ¬ (renderFn .binary (dispatchCommand checkedApi r
        { client := ⟨2⟩, command := .limit deepBid }).1).length <=
      maxFrameSize := by
  show ¬ (renderFn _ (checkedApi.submit r (.limit deepBid)).1).length <= _
  rw [submit_fits_iff _ hserved.wellFormed (congrArg StpConfig.policy hserved.stp)]
  intro hfits
  exact h.not_meetsFew (hfits (h.runChecks (by decide)) (h.admits_bid hserved (by omega)))

end Deep

/-- The response to a bid that trades with 98 orders does not fit into a frame. -/
theorem deepBid_exceeds_frame :
    ¬ (renderFn .binary (dispatchCommand checkedApi
        (dispatchAll checkedApi (checkedEngine Memory.zeroed tenPercent) (unitAsks 98))
        { client := ⟨2⟩, command := .limit deepBid }).1).length <=
      maxFrameSize :=
  (Deep.asks_dispatched (by omega)).bid_exceeds_frame
    (dispatchAll_served Memory.zeroed tenPercent (unitAsks 98))

end Server
end MiniExchange
