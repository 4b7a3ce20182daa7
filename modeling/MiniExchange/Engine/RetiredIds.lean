import MiniExchange.Engine.IdIndex
import MiniExchange.Engine.TradeTape

/-!
# Ids that have left the book

When every id belongs to one client, an id whose order has left the book never
rests again: the watermark of its client has passed it.  In particular this
holds for the resting order of every trade that says it was removed.
-/

namespace MiniExchange

open Foundation

namespace MatchingEngine

section Origin

variable {e : MatchingEngine}

theorem exec_origin (hw : e.book.WellFormed) (command : EngineCommand) {s : Side}
    {r : RestingOrder} (hr : r ∈ (e.exec command).engine.book.resting s) :
    (exists former, former ∈ e.book.resting s ∧ former.id = r.id ∧ former.owner = r.owner) ∨
      exists lo, command = .limit lo ∧ e.Admits (.limit lo) ∧
        lo.side = s ∧ lo.id = r.id ∧ lo.owner = r.owner ∧
        (e.exec command).response.status = .accepted ∧
        Quantity.zero < (e.exec command).response.remainingQty := by
  rcases exec_cases hw command with ⟨status, id, -, hcall⟩ |
    ⟨order, rfl, hcall, hadmits, ha⟩ | ⟨id, t, x, rfl, hc⟩
  · rw [hcall] at hr
    exact Or.inl ⟨r, hr, rfl, rfl⟩
  · rw [hcall] at hr ⊢
    rcases Side.eq_or_eq_opposite order.side s with rfl | rfl
    · rw [ha.own] at hr
      cases hrest : e.restedBy order with
      | none =>
          rw [hrest] at hr
          exact Or.inl ⟨r, hr, rfl, rfl⟩
      | some new =>
          rw [hrest] at hr
          rcases PriorityList.mem_insert.mp hr with rfl | hold
          · rcases restedBy_some hrest with ⟨lo, rfl, hpos, rfl⟩
            exact Or.inr ⟨lo, rfl, hadmits, rfl, rfl, rfl, ha.status, ha.remainingQty ▸ hpos⟩
          · exact Or.inl ⟨r, hold, rfl, rfl⟩
    · rw [ha.opposing] at hr
      rcases Incoming.mem_left order.quantity _ hr with ⟨former, hformer, heq, -⟩
      rw [heq]
      exact Or.inl ⟨former, hformer, rfl, rfl⟩
  · have hsub : r ∈ e.book.resting s := by
      have hr : r ∈ (e.cancel id).engine.book.resting s := hr
      rw [hc.without.resting_eq hw] at hr
      exact (List.erase_sublist.map _).subset hr
    exact Or.inl ⟨r, hsub, rfl, rfl⟩

end Origin
end MatchingEngine

/-!
## One client for each id
-/

/-- Orders are submitted under ids of their own client. -/
def OwnId (space : OrderId -> ClientId) (command : EngineCommand) : Prop :=
  forall order, command.newOrder? = some order -> space order.id = order.owner

/-- The index and the queues agree, and every order rests under an id of its client. -/
structure Spaced (space : OrderId -> ClientId) (e : MatchingEngine) : Prop
    extends IndexInvariant e where
  own : forall s r, r ∈ e.book.resting s -> space r.id = r.owner

structure Retired (space : OrderId -> ClientId) (e : MatchingEngine) (id : OrderId) :
    Prop where
  passed : exists w, e.lastAcceptedId (space id) = some w ∧ id.value <= w.value
  gone : forall s r, r ∈ e.book.resting s -> r.id ≠ id

section Spaced

variable {space : OrderId -> ClientId} {e : MatchingEngine} {command : EngineCommand}

theorem Spaced.new (space : OrderId -> ClientId) (raw : Memory) (capacity : UInt64)
    (stp : StpConfig) : Spaced space (MatchingEngine.new raw capacity stp) where
  toIndexInvariant := IndexInvariant.new raw capacity stp
  own s r hr := by
    have hempty : (MatchingEngine.new raw capacity stp).book.resting s = [] :=
      OrderBook.WellFormed.resting_new raw capacity s
    rw [hempty] at hr
    cases hr

theorem Spaced.idFreeElsewhere (h : Spaced space e) (hown : OwnId space command) :
    IdFreeElsewhere e command := by
  intro lo hcommand s r hr howner hid
  have hspace : space lo.id = lo.owner := hown (.limit lo) (by rw [hcommand]; rfl)
  apply howner
  rw [← h.own s r hr, hid, hspace]

theorem Spaced.exec (h : Spaced space e) (hown : OwnId space command) :
    Spaced space (e.exec command).engine where
  toIndexInvariant := h.toIndexInvariant.exec (h.idFreeElsewhere hown)
  own s r hr := by
    rcases MatchingEngine.exec_origin h.wellFormed command hr with
      ⟨former, hformer, hid, howner⟩ | ⟨lo, rfl, -, -, hid, howner, -⟩
    · rw [← hid, ← howner]
      exact h.own s former hformer
    · rw [← hid, ← howner]
      exact hown (.limit lo) rfl

theorem exec_passed (hw : e.book.WellFormed) (command : EngineCommand) {owner : ClientId}
    {id : OrderId}
    (h : exists w, e.lastAcceptedId owner = some w ∧ id.value <= w.value) :
    exists w, (e.exec command).engine.lastAcceptedId owner = some w ∧ id.value <= w.value := by
  apply MatchingEngine.exec_induction hw h command
    (Q := fun e => exists w, e.lastAcceptedId owner = some w ∧ id.value <= w.value)
  · intro order _ hadmits ha
    rw [ha.lastAcceptedId]
    exact Watermarked.advance hadmits h
  · intro id s x _ hc
    rw [hc.lastAcceptedId]
    exact h

theorem Retired.exec {id : OrderId} (h : Retired space e id) (hw : e.book.WellFormed)
    (hown : OwnId space command) : Retired space (e.exec command).engine id where
  passed := exec_passed hw command h.passed
  gone s r hr := by
    rcases MatchingEngine.exec_origin hw command hr with
      ⟨former, hformer, hid, -⟩ | ⟨lo, rfl, hadmits, -, hid, -⟩
    · rw [← hid]
      exact h.gone s former hformer
    · intro heq
      rcases h.passed with ⟨w, hw, hle⟩
      rw [← heq, ← hid] at hw hle
      have hspace : space lo.id = lo.owner := hown (.limit lo) rfl
      rw [hspace] at hw
      exact UInt64.not_le.mpr (Watermarked.lt_of_admits hadmits hw) hle

theorem Spaced.distinct_rested (h : Spaced space e) {order : NewOrder}
    (hadmits : e.Admits order) (hown : OwnId space order.toCommand) :
    ((e.restingOrders ++ (e.restedBy order).toList).map (fun o => o.id)).Nodup := by
  have hdistinct : (e.restingOrders.map (fun o => o.id)).Nodup := h.agrees.distinct
  cases hrest : e.restedBy order with
  | none => simpa using hdistinct
  | some o =>
      rcases MatchingEngine.restedBy_some hrest with ⟨lo, rfl, -, rfl⟩
      rw [List.map_append]
      apply List.nodup_append.mpr
      refine ⟨hdistinct, List.nodup_singleton _, ?_⟩
      intro i hi j hj
      rw [List.mem_singleton.mp hj]
      rcases List.mem_map.mp hi with ⟨r, hr, rfl⟩
      have hside : exists s, r ∈ e.book.resting s := by
        rcases List.mem_append.mp hr with hbuy | hsell
        · exact ⟨_, hbuy⟩
        · exact ⟨_, hsell⟩
      rcases hside with ⟨s, hs⟩
      rcases List.mem_map.mp hs with ⟨x, hx, rfl⟩
      exact h.fresh_remainder hadmits (h.idFreeElsewhere hown) hx

theorem Spaced.consumed_gone (h : Spaced space e) {order : NewOrder}
    (hadmits : e.Admits order) (ha : MatchingEngine.Admission e order (e.submit order))
    (hown : OwnId space order.toCommand) {o : RestingOrder}
    (ho : o ∈ Action.consumedOrders (e.sweepOf order).actions) :
    o ∈ e.book.resting order.side.opposite ∧
      forall r, r ∈ (e.submit order).engine.restingOrders -> r.id ≠ o.id := by
  constructor
  · rcases List.mem_filterMap.mp ho with ⟨a, hmem, hconsumed⟩
    have hacts := MatchingEngine.sweepOf_actions hmem
    cases a with
    | fill resting remaining qty =>
        simp only [Action.consumed?, Option.ite_none_right_eq_some, Option.some.injEq] at hconsumed
        exact hconsumed.right ▸ hacts.left
    | cancelOwn resting => cases hconsumed
  · have hids := (MatchingEngine.submit_tape ha).balance.map (fun o => o.id)
    rw [List.map_map, List.map_map] at hids
    have hnodup := hids.nodup (h.distinct_rested hadmits hown)
    rw [List.map_append] at hnodup
    intro r hr
    apply (List.nodup_append.mp hnodup).right.right _ (List.mem_map_of_mem hr) _
    exact List.mem_map_of_mem (List.mem_append_left _ ho)

theorem Spaced.flagged_retired (h : Spaced space e) (hown : OwnId space command)
    {c : OrderId × Price}
    (hc : c ∈ MatchingEngine.flagged command (e.exec command).response.trades) :
    Retired space (e.exec command).engine c.1 := by
  rcases MatchingEngine.exec_cases h.wellFormed command with ⟨status, id, hstatus, hcall⟩ |
    ⟨order, rfl, hcall, hadmits, ha⟩ | ⟨id, s, x, rfl, -⟩
  · have htape : MatchingEngine.CallTape e command (e.reject status id) [] [] [] [] :=
      MatchingEngine.reject_tape e id hstatus
    rw [hcall, htape.filled_eq] at hc
    cases hc
  · rw [hcall, (MatchingEngine.submit_tape ha).filled_eq] at hc
    rcases List.mem_map.mp hc with ⟨o, ho, rfl⟩
    rcases h.consumed_gone hadmits ha hown ho with ⟨hrested, hgone⟩
    constructor
    · apply exec_passed h.wellFormed
      show exists w, e.lastAcceptedId (space o.id) = some w ∧ o.id.value <= w.value
      rw [h.own _ o hrested]
      rcases List.mem_map.mp hrested with ⟨x, hx, rfl⟩
      exact h.watermarked _ x hx
    · rw [hcall]
      intro s r hr
      exact hgone r (((e.submit order).engine.restingOrders_perm s).mem_iff.mpr
        (List.mem_append_left _ hr))
  · cases hc

theorem Spaced.cancel_gone (h : Spaced space e) (id : OrderId) {s : Side} {r : RestingOrder}
    (hr : r ∈ (e.cancel id).engine.book.resting s) : r.id ≠ id := by
  intro hid
  cases hfind : e.book.findOrder id with
  | none =>
      rw [MatchingEngine.cancel_none hfind] at hr
      have hr : r ∈ e.book.resting s := hr
      rcases List.mem_map.mp hr with ⟨x, hx, rfl⟩
      rw [← hid, h.indexed s x hx] at hfind
      cases hfind
  | some x =>
      rcases MatchingEngine.cancel_some h.wellFormed hfind with ⟨t, hc⟩
      rw [hc.without.resting_eq h.wellFormed] at hr
      rcases List.mem_map.mp hr with ⟨y, hy, rfl⟩
      rcases (h.wellFormed.nodup s).mem_erase_iff.mp hy with ⟨hne, hys⟩
      exact hne (h.indexed.slot_unique hys hc.resting (hid.trans hc.id_eq.symm))

end Spaced

/-!
## Trades and the orders that made them
-/

/-- A trade on the tape, with the order that was announced last before it. -/
structure Fill where
  incoming : Option OrderAccepted
  trade : Trade
deriving DecidableEq, Repr

namespace Fill

def fillsFrom (incoming : Option OrderAccepted) : List SinkEvent -> List Fill
  | [] => []
  | .onOrderAccepted event :: rest => fillsFrom (some event) rest
  | .onTrade trade :: rest => ⟨incoming, trade⟩ :: fillsFrom incoming rest
  | .onOrderCancelled _ :: rest => fillsFrom incoming rest

def fills (events : List SinkEvent) : List Fill :=
  fillsFrom none events

theorem map_trade_fillsFrom (incoming : Option OrderAccepted) (events : List SinkEvent) :
    (fillsFrom incoming events).map Fill.trade = events.filterMap SinkEvent.trade? := by
  induction events generalizing incoming with
  | nil => rfl
  | cons event rest ih =>
      cases event with
      | onOrderAccepted accepted => exact ih (some accepted)
      | onTrade trade => exact congrArg (List.cons trade) (ih incoming)
      | onOrderCancelled cancelled => exact ih incoming

theorem fillsFrom_append (incoming : Option OrderAccepted) (before : List SinkEvent) :
    exists last, forall after,
      fillsFrom incoming (before ++ after) = fillsFrom incoming before ++ fillsFrom last after := by
  induction before generalizing incoming with
  | nil => exact ⟨incoming, fun _ => rfl⟩
  | cons event rest ih =>
      cases event with
      | onOrderAccepted accepted => exact ih (some accepted)
      | onTrade trade =>
          rcases ih incoming with ⟨last, hlast⟩
          exact ⟨last, fun after => congrArg (List.cons _) (hlast after)⟩
      | onOrderCancelled cancelled => exact ih incoming

theorem fillsFrom_events (incoming : Option OrderAccepted) (c : Incoming)
    (sequence : TradeSequence) (actions : List Action) :
    fillsFrom incoming (Action.events c sequence actions) =
      (Action.trades c sequence actions).map (Fill.mk incoming) := by
  induction actions generalizing sequence with
  | nil => rfl
  | cons action rest ih =>
      cases action with
      | fill o remaining qty => exact congrArg (List.cons _) (ih sequence.next)
      | cancelOwn o => exact ih sequence

theorem fills_exec {e : MatchingEngine} (hw : e.book.WellFormed) (command : EngineCommand) :
    exists new, fills (e.exec command).engine.sink = fills e.sink ++ new ∧
      forall f, f ∈ new -> exists order, command.newOrder? = some order ∧
        f.incoming = some order.announced ∧ f.trade ∈ (e.exec command).response.trades := by
  rcases fillsFrom_append none e.sink with ⟨last, hlast⟩
  rcases MatchingEngine.exec_cases hw command with ⟨status, id, -, hcall⟩ |
    ⟨order, rfl, hcall, -, ha⟩ | ⟨id, s, x, rfl, hc⟩
  · rw [hcall]
    exact ⟨[], (List.append_nil _).symm, fun _ hf => absurd hf List.not_mem_nil⟩
  · rw [hcall, ha.sink, ha.trades]
    refine ⟨_, hlast _, ?_⟩
    intro f hf
    have hf : f ∈ fillsFrom (some order.announced) (Action.events order.incoming
        e.nextTradeSequence (e.sweepOf order).actions) := hf
    rw [fillsFrom_events] at hf
    rcases List.mem_map.mp hf with ⟨trade, htrade, rfl⟩
    exact ⟨order, NewOrder.newOrder?_toCommand order, rfl, htrade⟩
  · have hsink : (e.exec (.cancel id)).engine.sink = _ := hc.sink
    rw [hsink]
    exact ⟨_, hlast _, fun _ hf => absurd hf List.not_mem_nil⟩

end Fill
end MiniExchange
