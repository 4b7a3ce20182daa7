import MiniExchange.Engine.ClientIndex
import MiniExchange.Engine.RetiredIds

/-!
# The reference exchange

What the engine is for, without its pool, price trees, intrusive queues and
indexes: two lists of orders in the order in which they will be matched, and
the last id of every client.  The engine answers every run of commands as the
reference exchange does, announces the same events, and keeps the same orders.
-/

namespace MiniExchange

open Foundation

def StpConfig.PullsNothing (stp : StpConfig) : Prop :=
  stp.enabled = true -> stp.policy = .rejectIncoming

theorem StpConfig.PullsNothing.pulls_eq {stp : StpConfig} (h : stp.PullsNothing)
    (order : NewOrder) (o : RestingOrder) : order.pulls stp o = false := by
  unfold NewOrder.pulls
  cases henabled : stp.enabled with
  | false => rfl
  | true => simp [h henabled]

@[ext] structure Reference where
  resting : Side -> List RestingOrder
  lastAcceptedId : ClientId -> Option OrderId
  nextSequence : Sequence
  nextTradeSequence : TradeSequence
  capacity : Nat
  events : List SinkEvent
  stp : StpConfig

namespace Reference

def new (capacity : Nat) (stp : StpConfig) : Reference where
  resting _ := []
  lastAcceptedId _ := none
  nextSequence := ⟨0⟩
  nextTradeSequence := ⟨0⟩
  capacity := capacity
  events := []
  stp := stp

def orders (r : Reference) : List RestingOrder :=
  r.resting .buy ++ r.resting .sell

def atOrBelowWatermark (r : Reference) (owner : ClientId) (id : OrderId) : Bool :=
  match r.lastAcceptedId owner with
  | none => false
  | some watermark => decide (id.value <= watermark.value)

def selfCrosses (r : Reference) (order : NewOrder) : Bool :=
  (r.resting order.side.opposite).any (fun o =>
    decide (o.owner = order.owner) && !order.incoming.beyondLimit o.price)

def refusal? (r : Reference) (order : NewOrder) : Option EngineResult :=
  if order.quantity = Quantity.zero then some .invalidQuantity
  else if order.limitPrice.any (fun p => decide (p <= Price.zero)) then
    some .invalidPrice
  else if r.atOrBelowWatermark order.owner order.id then some .duplicateOrderId
  else if r.stp.enabled && decide (r.stp.policy = .rejectIncoming) &&
      r.selfCrosses order then
    some .selfTradePrevented
  else if order.limitPrice.isSome && decide (r.capacity <= r.orders.length) then
    some .poolExhausted
  else none

structure Passes (r : Reference) (order : NewOrder) : Prop where
  quantity : order.quantity ≠ Quantity.zero
  price : order.limitPrice.any (fun p => decide (p <= Price.zero)) = false
  fresh : r.atOrBelowWatermark order.owner order.id = false
  room : order.limitPrice.isSome = true -> r.orders.length < r.capacity

theorem passes_of_refusal? {r : Reference} {order : NewOrder} (h : r.refusal? order = none) :
    r.Passes order := by
  unfold refusal? at h
  split at h
  · cases h
  · next hquantity =>
      split at h
      · cases h
      · next hprice =>
          split at h
          · cases h
          · next hfresh =>
              split at h
              · cases h
              · split at h
                · cases h
                · next hroom =>
                    refine ⟨hquantity, Bool.eq_false_iff.mpr hprice,
                      Bool.eq_false_iff.mpr hfresh, ?_⟩
                    intro hlimit
                    apply Nat.lt_of_not_le
                    intro hfull
                    exact hroom (by simp [hlimit, hfull])

def sweepOf (r : Reference) (order : NewOrder) : Sweep :=
  order.incoming.sweep (order.pulls r.stp) order.quantity (r.resting order.side.opposite)

def restedBy (r : Reference) : NewOrder -> Option RestingOrder
  | .limit o =>
      if Quantity.zero < (r.sweepOf (.limit o)).remaining then
        some
          { id := o.id
            side := o.side
            price := o.price
            quantity := (r.sweepOf (.limit o)).remaining
            sequence := r.nextSequence
            owner := o.owner }
      else none
  | .market _ => none

def accept (r : Reference) (order : NewOrder) : EngineResponse × Reference :=
  let swept := r.sweepOf order
  let rested := r.restedBy order
  ({ status := .accepted
     trades := Action.trades order.incoming r.nextTradeSequence swept.actions
     remainingQty := swept.remaining
     orderId := order.id },
    { r with
      resting := fun s =>
        if s = order.side then MatchingEngine.queue s rested (r.resting s) else swept.left
      lastAcceptedId := Function.update r.lastAcceptedId order.owner (some order.id)
      nextSequence := if rested.isSome then r.nextSequence.next else r.nextSequence
      nextTradeSequence := r.nextTradeSequence.advance (Action.fills swept.actions)
      events := r.events ++ order.acceptance ::
        Action.events order.incoming r.nextTradeSequence swept.actions })

def submit (r : Reference) (order : NewOrder) : EngineResponse × Reference :=
  match r.refusal? order with
  | some status => (EngineResponse.rejected status order.id, r)
  | none => r.accept order

def cancel (r : Reference) (id : OrderId) : EngineResponse × Reference :=
  match r.orders.find? (fun o => decide (o.id = id)) with
  | none => (EngineResponse.rejected .unknownOrderId id, r)
  | some o =>
      ({ status := .accepted
         trades := []
         remainingQty := o.quantity
         orderId := id },
        { r with
          resting := fun s => (r.resting s).filter (fun o => decide (o.id ≠ id))
          events := r.events ++ [Action.cancellation o] })

def exec (r : Reference) : EngineCommand -> EngineResponse × Reference
  | .limit order => r.submit (.limit order)
  | .market order => r.submit (.market order)
  | .cancel id => r.cancel id

def run (r : Reference) (commands : List EngineCommand) : Reference :=
  Machine.run (fun r command => (r.exec command).2) r commands

def responses (r : Reference) (commands : List EngineCommand) : List EngineResponse :=
  (Machine.visits (fun r command => (r.exec command).2) r commands).map
    (fun v => (v.1.exec v.2).1)

end Reference

/-!
## The engine as a reference exchange
-/

namespace MatchingEngine

/-- What of the engine can be seen through its commands. -/
def reference (e : MatchingEngine) : Reference where
  resting := e.book.resting
  lastAcceptedId := e.lastAcceptedId
  nextSequence := e.nextSequence
  nextTradeSequence := e.nextTradeSequence
  capacity := e.book.pool.capacity
  events := e.sink
  stp := e.stp

def responses (e : MatchingEngine) (commands : List EngineCommand) : List EngineResponse :=
  (e.visits commands).map (fun v => (v.1.exec v.2).response)

structure Coherent (e : MatchingEngine) : Prop extends IndexInvariant e where
  narrow : e.book.pool.capacity < 2 ^ 32
  counted : e.stp.enabled = true -> e.IndexSound

namespace Coherent

variable {e : MatchingEngine}

theorem new (raw : Memory) {capacity : UInt64} (stp : StpConfig)
    (hcapacity : capacity.toNat < 2 ^ 32) : Coherent (MatchingEngine.new raw capacity stp) where
  toIndexInvariant := IndexInvariant.new raw capacity stp
  narrow := by
    rw [show (MatchingEngine.new raw capacity stp).book.pool.capacity = capacity.toNat from
      (OrderPool.new_spec raw capacity).left]
    exact hcapacity
  counted _ := indexSound_new raw capacity stp

theorem roomToCount (h : Coherent e) (command : EngineCommand) : e.RoomToCount command :=
  fun _ _ => Nat.lt_of_le_of_lt (h.wellFormed.count_keys_le _) h.narrow

theorem exec (h : Coherent e) {command : EngineCommand} (hfree : IdFreeElsewhere e command) :
    Coherent (e.exec command).engine where
  toIndexInvariant := h.toIndexInvariant.exec hfree
  narrow := exec_induction (Q := fun e => e.book.pool.capacity < 2 ^ 32) h.wellFormed h.narrow
    command (fun _ _ _ ha => ha.capacity ▸ h.narrow)
    (fun _ _ _ _ hc => hc.without.capacity_eq ▸ h.narrow)
  counted := by
    have hstp : (e.exec command).engine.stp = e.stp :=
      exec_induction (Q := fun e' => e'.stp = e.stp) h.wellFormed rfl command
        (fun _ _ _ ha => ha.stp) (fun _ _ _ _ hc => hc.stp)
    intro henabled
    rw [hstp] at henabled
    exact exec_indexSound h.wellFormed (h.counted henabled) henabled (h.roomToCount command)

/-!
### Submissions
-/

theorem crosses_iff_not_beyond (c : Incoming) (p : Price) :
    crosses c.side c.limitPrice p <-> c.beyondLimit p = false := by
  unfold crosses Incoming.beyondLimit
  cases c.limitPrice with
  | none => simp
  | some limit => cases c.side <;> simp

/-- The check on the index of prices is the walk over the opposing orders. -/
theorem rejectsSelfCross_eq (h : Coherent e) (order : NewOrder) :
    e.rejectsSelfCross order.side order.owner order.limitPrice =
      (e.stp.enabled && decide (e.stp.policy = .rejectIncoming) &&
        e.reference.selfCrosses order) := by
  unfold rejectsSelfCross
  cases henabled : e.stp.enabled with
  | false => rfl
  | true =>
      have hcheck : e.wouldSelfCross order.side order.owner order.limitPrice =
          e.reference.selfCrosses order := by
        rw [Bool.eq_iff_iff, wouldSelfCross_iff_rests,
          ← selfCrosses_iff h.wellFormed (h.counted henabled).counts]
        unfold SelfCrosses Reference.selfCrosses
        rw [List.any_eq_true]
        constructor
        · rintro ⟨o, ho, howner, hcross⟩
          have hbeyond := (crosses_iff_not_beyond order.incoming o.price).mp hcross
          exact ⟨o, ho, by simp [howner, hbeyond]⟩
        · rintro ⟨o, ho, hboth⟩
          simp only [Bool.and_eq_true, decide_eq_true_eq, Bool.not_eq_true'] at hboth
          exact ⟨o, ho, hboth.left,
            (crosses_iff_not_beyond order.incoming o.price).mpr hboth.right⟩
      rw [hcheck]

theorem poolAvailable_eq_zero_iff (h : Coherent e) :
    e.book.poolAvailable = 0 <-> e.reference.capacity <= e.reference.orders.length := by
  have hcount := h.wellFormed.count.left
  show _ <-> e.book.pool.capacity <= (e.book.resting .buy ++ e.book.resting .sell).length
  rw [List.length_append]
  omega

def answered (e : MatchingEngine) (order : NewOrder) : Option EngineResult -> EngineCall
  | some status => e.reject status order.id
  | none => e.admitted order

/-- The engine refuses the orders that the reference refuses, and for the same reason. -/
theorem submit_eq_answered (h : Coherent e) (order : NewOrder) :
    e.submit order = answered e order (e.reference.refusal? order) := by
  have hself := h.rejectsSelfCross_eq order
  have hpool := h.poolAvailable_eq_zero_iff
  have hwatermark : e.reference.atOrBelowWatermark order.owner order.id =
      e.atOrBelowWatermark order.owner order.id := rfl
  have hstp : e.reference.stp = e.stp := rfl
  unfold Reference.refusal?
  rw [hwatermark, hstp, ← hself]
  simp only [apply_ite (answered e order)]
  cases order with
  | limit o =>
      simp only [NewOrder.limitPrice, Option.any_some, decide_eq_true_eq, Option.isSome_some,
        Bool.true_and, ← hpool]
      rfl
  | market o =>
      simp only [NewOrder.limitPrice, Option.any_none, Option.isSome_none, Bool.false_and,
        Bool.false_eq_true, if_false]
      rfl

theorem submit_refines (h : Coherent e) (order : NewOrder) :
    ((e.submit order).response, (e.submit order).engine.reference) =
      e.reference.submit order := by
  have hanswer := h.submit_eq_answered order
  unfold Reference.submit
  cases hrefusal : e.reference.refusal? order with
  | some status =>
      rw [hanswer, hrefusal]
      rfl
  | none =>
      have haccepted : (e.submit order).response.status = .accepted := by
        rw [hanswer, hrefusal]
        rfl
      have ha := admission h.wellFormed (admits_of_accepted haccepted)
      have hsweep : e.reference.sweepOf order = e.sweepOf order := rfl
      have hrested : e.reference.restedBy order = e.restedBy order := by
        cases order <;> rfl
      have hresponse : (e.submit order).response = (e.reference.accept order).1 := by
        cases hr : (e.submit order).response with
        | mk status trades remainingQty orderId =>
            have hstatus := ha.status
            have htrades := ha.trades
            have hremaining := ha.remainingQty
            have hid := ha.orderId
            simp only [hr] at hstatus htrades hremaining hid
            rw [hstatus, htrades, hremaining, hid]
            rfl
      apply Prod.ext hresponse
      apply Reference.ext
      · funext s
        show (e.submit order).engine.book.resting s = if s = order.side then _ else _
        rw [hsweep, hrested]
        rcases Side.eq_or_eq_opposite order.side s with rfl | rfl
        · rw [if_pos rfl]
          exact ha.own
        · rw [if_neg (Side.opposite_ne _)]
          exact ha.opposing
      · exact ha.lastAcceptedId
      · show (e.submit order).engine.nextSequence =
          if (e.reference.restedBy order).isSome then _ else _
        rw [hrested]
        exact ha.nextSequence
      · exact ha.nextTradeSequence
      · exact ha.capacity
      · exact ha.sink
      · exact ha.stp

/-!
### Cancellations
-/

theorem mem_orders_iff {o : RestingOrder} :
    o ∈ e.reference.orders <-> exists s, o ∈ e.book.resting s := by
  show o ∈ e.book.resting .buy ++ e.book.resting .sell <-> _
  rw [List.mem_append]
  constructor
  · rintro (ho | ho)
    · exact ⟨_, ho⟩
    · exact ⟨_, ho⟩
  · rintro ⟨s, ho⟩
    cases s with
    | buy => exact Or.inl ho
    | sell => exact Or.inr ho

theorem find?_orders (h : Coherent e) (id : OrderId) :
    e.reference.orders.find? (fun o => decide (o.id = id)) =
      (e.book.findOrder id).map e.book.data := by
  cases hfind : e.reference.orders.find? (fun o => decide (o.id = id)) with
  | none =>
      have hnone := List.find?_eq_none.mp hfind
      cases hslot : e.book.findOrder id with
      | none => rfl
      | some x =>
          rcases h.wellFormed.findOrder_some hslot with ⟨⟨s, hx⟩, hid⟩
          have hmem : e.book.data x ∈ e.reference.orders :=
            mem_orders_iff.mpr ⟨s, List.mem_map_of_mem hx⟩
          exact absurd (decide_eq_true hid) (hnone _ hmem)
  | some o =>
      have hid : o.id = id := by simpa using List.find?_some hfind
      rcases mem_orders_iff.mp (List.mem_of_find?_eq_some hfind) with ⟨s, ho⟩
      rcases List.mem_map.mp ho with ⟨x, hx, rfl⟩
      rw [← hid, h.indexed s x hx]
      rfl

theorem resting_cancelled (h : Coherent e) {id : OrderId} {t : Side} {x : Slot}
    (hc : Cancellation e id t x (e.cancel id)) (s : Side) :
    (e.cancel id).engine.book.resting s =
      (e.book.resting s).filter (fun o => decide (o.id ≠ id)) := by
  rw [hc.without.resting_eq h.wellFormed, (h.wellFormed.nodup s).erase_eq_filter,
    OrderBook.resting_eq, List.filter_map]
  apply congrArg
  apply List.filter_congr
  intro y hy
  rw [Bool.eq_iff_iff]
  simp only [bne_iff_ne, ne_eq, Function.comp_apply, decide_eq_true_eq]
  apply not_congr
  constructor
  · intro heq
    rw [heq]
    exact hc.id_eq
  · intro hid
    exact h.indexed.slot_unique hy hc.resting (hid.trans hc.id_eq.symm)

theorem cancel_refines (h : Coherent e) (id : OrderId) :
    ((e.cancel id).response, (e.cancel id).engine.reference) = e.reference.cancel id := by
  unfold Reference.cancel
  rw [h.find?_orders id]
  cases hfind : e.book.findOrder id with
  | none =>
      rw [cancel_none hfind]
      rfl
  | some x =>
      rcases cancel_some h.wellFormed hfind with ⟨t, hc⟩
      apply Prod.ext hc.response
      apply Reference.ext
      · funext s
        exact h.resting_cancelled hc s
      · exact hc.lastAcceptedId
      · exact hc.nextSequence
      · exact hc.nextTradeSequence
      · exact hc.without.capacity_eq
      · exact hc.sink
      · exact hc.stp

theorem exec_refines (h : Coherent e) (command : EngineCommand) :
    ((e.exec command).response, (e.exec command).engine.reference) =
      e.reference.exec command := by
  cases command with
  | limit order => exact h.submit_refines (.limit order)
  | market order => exact h.submit_refines (.market order)
  | cancel id => exact h.cancel_refines id

end Coherent

/-!
## Runs
-/

theorem reference_new (raw : Memory) (capacity : UInt64) (stp : StpConfig) :
    (new raw capacity stp).reference = Reference.new capacity.toNat stp := by
  apply Reference.ext
  · funext s
    exact OrderBook.WellFormed.resting_new raw capacity s
  · rfl
  · rfl
  · rfl
  · exact (OrderPool.new_spec raw capacity).left
  · rfl
  · rfl

structure Separated (space : OrderId -> ClientId) (e : MatchingEngine) : Prop
    extends Coherent e where
  own : forall s r, r ∈ e.book.resting s -> space r.id = r.owner

theorem Separated.new (space : OrderId -> ClientId) (raw : Memory) {capacity : UInt64}
    (stp : StpConfig) (hcapacity : capacity.toNat < 2 ^ 32) :
    Separated space (MatchingEngine.new raw capacity stp) where
  toCoherent := Coherent.new raw stp hcapacity
  own := (Spaced.new space raw capacity stp).own

theorem Separated.exec {space : OrderId -> ClientId} {e : MatchingEngine}
    (h : Separated space e) {command : EngineCommand} (hown : OwnId space command) :
    Separated space (e.exec command).engine := by
  have hspaced : Spaced space e := ⟨h.toIndexInvariant, h.own⟩
  exact ⟨h.toCoherent.exec (hspaced.idFreeElsewhere hown), (hspaced.exec hown).own⟩

theorem run_simulates {space : OrderId -> ClientId} {e : MatchingEngine}
    (h : Separated space e) {commands : List EngineCommand}
    (hown : forall command, command ∈ commands -> OwnId space command) :
    Separated space (e.run commands) ∧
      (e.run commands).reference = e.reference.run commands ∧
      e.responses commands = e.reference.responses commands := by
  have hstep : forall (e : MatchingEngine) (r : Reference) command,
      Separated space e ∧ e.reference = r -> OwnId space command ->
        (Separated space (e.exec command).engine ∧
          (e.exec command).engine.reference = (r.exec command).2) ∧
        (r.exec command).1 = (e.exec command).response := by
    rintro e r command ⟨hs, rfl⟩ hcommand
    have hrefines := hs.exec_refines command
    exact ⟨⟨hs.exec hcommand, congrArg Prod.snd hrefines⟩, (congrArg Prod.fst hrefines).symm⟩
  have hrun := Machine.run_simulated (R := fun e r => Separated space e ∧ e.reference = r)
    (K := fun _ command => OwnId space command) (f := fun command => command)
    (g := fun response => response)
    (p := fun v : MatchingEngine × EngineCommand => (v.1.exec v.2).response)
    (q := fun v : Reference × EngineCommand => (v.1.exec v.2).1)
    hstep ⟨h, rfl⟩ (fun v hv => hown v.2 (Machine.mem_of_mem_visits _ hv))
  rw [List.map_id', List.map_id'] at hrun
  exact ⟨hrun.left.left, hrun.left.right, hrun.right.symm⟩

end MatchingEngine

/--
As long as every id is used by one client only, the engine is the reference
exchange: it gives the same responses to the same commands, announces the same
events, and has the same orders at rest in the same order.
-/
theorem run_refines_reference (space : OrderId -> ClientId) (raw : Memory) (capacity : UInt64)
    (stp : StpConfig) (commands : List EngineCommand) (hcapacity : capacity.toNat < 2 ^ 32)
    (hown : forall command, command ∈ commands -> OwnId space command) :
    let e := MatchingEngine.new raw capacity stp
    let r := Reference.new capacity.toNat stp
    e.responses commands = r.responses commands ∧
      (e.run commands).sink = (r.run commands).events ∧
      forall s, (e.run commands).book.resting s = (r.run commands).resting s := by
  intro e r
  have hsim := MatchingEngine.run_simulates
    (MatchingEngine.Separated.new space raw stp hcapacity) hown
  rw [MatchingEngine.reference_new] at hsim
  rcases hsim with ⟨-, hstate, hresponses⟩
  refine ⟨hresponses, congrArg Reference.events hstate, ?_⟩
  intro s
  exact congrFun (congrArg Reference.resting hstate) s

def offeredBids : List EngineCommand :=
  [.limit { id := ⟨11⟩, side := .buy, price := ⟨100⟩, quantity := ⟨5⟩, owner := ⟨1⟩ },
    .limit { id := ⟨12⟩, side := .buy, price := ⟨101⟩, quantity := ⟨5⟩, owner := ⟨1⟩ },
    .limit { id := ⟨21⟩, side := .sell, price := ⟨100⟩, quantity := ⟨5⟩, owner := ⟨2⟩ },
    .cancel ⟨11⟩, .cancel ⟨12⟩]

/-- The ids of `offeredBids` below twenty are the first client's. -/
def offeredSpace (id : OrderId) : ClientId :=
  if id.value < 20 then ⟨1⟩ else ⟨2⟩

theorem offeredBids_own :
    forall command, command ∈ offeredBids -> OwnId offeredSpace command := by
  intro command hcommand order horder
  simp only [offeredBids, List.mem_cons, List.not_mem_nil, or_false] at hcommand
  rcases hcommand with rfl | rfl | rfl | rfl | rfl
  all_goals cases horder <;> decide

theorem run_refines_reference_offeredBids :
    let e := MatchingEngine.new Memory.zeroed 4 { enabled := true }
    let r := Reference.new 4 { enabled := true }
    (e.responses offeredBids = r.responses offeredBids ∧
      (e.run offeredBids).sink = (r.run offeredBids).events ∧
      forall s, (e.run offeredBids).book.resting s = (r.run offeredBids).resting s) ∧
      (r.responses offeredBids).map (fun response => response.status) =
        [.accepted, .accepted, .accepted, .accepted, .unknownOrderId] := by
  exact ⟨run_refines_reference offeredSpace Memory.zeroed 4 { enabled := true } offeredBids
    (by decide) offeredBids_own, by decide +kernel⟩

end MiniExchange
