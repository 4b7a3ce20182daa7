import MiniExchange.Engine.Calls

/-!
# Order ids of one client

The engine keeps one watermark per owner.  It is the last id accepted from that
owner, the accepted ids increase, and so comparing an id with the watermark is
comparing it with the whole history of the owner, and with nothing else.
-/

namespace MiniExchange

open Foundation

structure NewOrder.Valid (order : NewOrder) : Prop where
  quantity_ne_zero : order.quantity ≠ Quantity.zero
  price_pos : forall p, order.limitPrice = some p -> ¬ p <= Price.zero

namespace MatchingEngine

def ownCall? (owner : ClientId) (v : MatchingEngine × EngineCommand) :
    Option (NewOrder × Bool) :=
  match v.2.newOrder? with
  | none => none
  | some order =>
      if order.owner = owner then
        some (order, decide ((v.1.exec v.2).response.status = .accepted))
      else none

def ownHistory (e : MatchingEngine) (commands : List EngineCommand) (owner : ClientId) :
    List (NewOrder × Bool) :=
  (e.visits commands).filterMap (ownCall? owner)

def acceptedIds (history : List (NewOrder × Bool)) : List OrderId :=
  (history.filter Prod.snd).map (fun call => call.1.id)

section Step

variable {e : MatchingEngine} {owner : ClientId}

def acceptedId? (owner : ClientId) (v : MatchingEngine × EngineCommand) : Option OrderId :=
  match ownCall? owner v with
  | some (order, true) => some order.id
  | _ => none

theorem acceptedIds_ownHistory (e : MatchingEngine) (commands : List EngineCommand)
    (owner : ClientId) :
    acceptedIds (e.ownHistory commands owner) =
      (e.visits commands).filterMap (acceptedId? owner) := by
  unfold acceptedIds ownHistory
  induction e.visits commands with
  | nil => rfl
  | cons v rest ih =>
      rw [List.filterMap_cons, List.filterMap_cons]
      unfold acceptedId?
      cases hcall : ownCall? owner v with
      | none => exact ih
      | some call =>
          rcases call with ⟨order, accepted⟩
          cases accepted with
          | false => exact ih
          | true => exact congrArg (List.cons order.id) ih

theorem acceptedId?_submit {order : NewOrder} (ha : Admission e order (e.submit order)) :
    acceptedId? owner (e, order.toCommand) =
      if order.owner = owner then some order.id else none := by
  have hexec : e.exec order.toCommand = e.submit order := by
    cases order <;> rfl
  unfold acceptedId? ownCall?
  rw [NewOrder.newOrder?_toCommand]
  dsimp only
  by_cases howner : order.owner = owner
  · rw [if_pos howner, if_pos howner, hexec, ha.status]
    rfl
  · rw [if_neg howner, if_neg howner]

theorem exec_watermark (hw : e.book.WellFormed) (command : EngineCommand) (owner : ClientId) :
    (e.exec command).engine.lastAcceptedId owner =
        (acceptedId? owner (e, command)).or (e.lastAcceptedId owner) ∧
      forall id, acceptedId? owner (e, command) = some id ->
        forall watermark, e.lastAcceptedId owner = some watermark ->
          watermark.value < id.value := by
  rcases exec_cases hw command with ⟨status, id, hstatus, hcall⟩ |
    ⟨order, rfl, hcall, hadmits, ha⟩ | ⟨id, s, x, rfl, hc⟩
  · have hnone : acceptedId? owner (e, command) = none := by
      have hrejected : decide ((e.reject status id).response.status =
          .accepted) = false := decide_eq_false hstatus
      unfold acceptedId? ownCall?
      dsimp only
      rw [hcall, hrejected]
      cases command.newOrder? with
      | none => rfl
      | some order =>
          dsimp only
          by_cases howner : order.owner = owner
          · rw [if_pos howner]
          · rw [if_neg howner]
    rw [hnone, hcall]
    exact ⟨rfl, fun id h => nomatch h⟩
  · rw [acceptedId?_submit ha, hcall, ha.lastAcceptedId]
    by_cases howner : order.owner = owner
    · subst howner
      rw [if_pos rfl, Function.update_self]
      refine ⟨rfl, ?_⟩
      intro id hid watermark hmark
      cases hid
      have hfresh := hadmits.fresh
      unfold atOrBelowWatermark at hfresh
      rw [hmark] at hfresh
      exact UInt64.not_le.mp (of_decide_eq_false hfresh)
    · rw [if_neg howner, Function.update_of_ne (fun heq => howner heq.symm)]
      exact ⟨rfl, fun id h => nomatch h⟩
  · refine ⟨?_, fun id h => nomatch h⟩
    show (e.cancel id).engine.lastAcceptedId owner = _
    rw [hc.lastAcceptedId]
    rfl

end Step

theorem run_watermark {e : MatchingEngine} (hw : e.book.WellFormed)
    (commands : List EngineCommand) (owner : ClientId) :
    (e.run commands).lastAcceptedId owner =
        (acceptedIds (e.ownHistory commands owner)).getLast?.or (e.lastAcceptedId owner) ∧
      (acceptedIds (e.ownHistory commands owner)).Pairwise (fun a b => a.value < b.value) ∧
      forall id, id ∈ acceptedIds (e.ownHistory commands owner) ->
        forall watermark, e.lastAcceptedId owner = some watermark ->
          watermark.value < id.value := by
  rw [acceptedIds_ownHistory]
  induction commands generalizing e with
  | nil => exact ⟨rfl, List.Pairwise.nil, fun id h => nomatch h⟩
  | cons command rest ih =>
      rcases exec_watermark hw command owner with ⟨hmark, habove⟩
      rcases ih (exec_wellFormed hw command) with ⟨hlast, hincreasing, hrest⟩
      rw [hmark] at hlast hrest
      show ((e.exec command).engine.run rest).lastAcceptedId owner =
          (((e, command) :: (e.exec command).engine.visits rest).filterMap
            (acceptedId? owner)).getLast?.or _ ∧
        (((e, command) :: (e.exec command).engine.visits rest).filterMap
            (acceptedId? owner)).Pairwise _ ∧
        forall id, id ∈ ((e, command) :: (e.exec command).engine.visits rest).filterMap
            (acceptedId? owner) -> _
      rw [List.filterMap_cons]
      cases hid : acceptedId? owner (e, command) with
      | none =>
          rw [hid] at hlast hrest
          exact ⟨hlast, hincreasing, hrest⟩
      | some id =>
          rw [hid] at hlast hrest
          have hbeyond := fun id' h' => hrest id' h' id rfl
          refine ⟨?_, List.pairwise_cons.mpr ⟨hbeyond, hincreasing⟩, ?_⟩
          · dsimp only
            rw [hlast, List.getLast?_cons]
            cases (List.filterMap (acceptedId? owner)
              ((e.exec command).engine.visits rest)).getLast? <;> rfl
          · intro id' hid' watermark hwatermark
            rcases List.mem_cons.mp hid' with heq | htail
            · rw [heq]
              exact habove id hid watermark hwatermark
            · exact UInt64.lt_trans (habove id hid watermark hwatermark) (hbeyond id' htail)

/-!
## The duplicate decision
-/

section Decision

variable {e : MatchingEngine} {order : NewOrder}

theorem submit_duplicate_iff (e : MatchingEngine) (order : NewOrder) :
    (e.submit order).response.status = .duplicateOrderId <->
      order.Valid ∧ e.atOrBelowWatermark order.owner order.id = true := by
  cases order with
  | limit o =>
      show (e.submitLimit o).response.status = _ <-> _
      unfold submitLimit
      by_cases hquantity : o.quantity = Quantity.zero
      · rw [if_pos hquantity]
        exact iff_of_false (fun h => nomatch h) (fun h => h.left.quantity_ne_zero hquantity)
      by_cases hprice : o.price <= Price.zero
      · rw [if_neg hquantity, if_pos hprice]
        exact iff_of_false (fun h => nomatch h) (fun h => h.left.price_pos o.price rfl hprice)
      rw [if_neg hquantity, if_neg hprice]
      by_cases hmark : e.atOrBelowWatermark o.owner o.id = true
      · rw [if_pos hmark]
        exact iff_of_true rfl
          ⟨⟨hquantity, fun p hp => Option.some.inj hp ▸ hprice⟩, hmark⟩
      rw [if_neg hmark]
      refine iff_of_false ?_ (fun h => hmark h.right)
      split
      · exact fun h => nomatch h
      · split <;> exact fun h => nomatch h
  | market o =>
      show (e.submitMarket o).response.status = _ <-> _
      unfold submitMarket
      by_cases hquantity : o.quantity = Quantity.zero
      · rw [if_pos hquantity]
        exact iff_of_false (fun h => nomatch h) (fun h => h.left.quantity_ne_zero hquantity)
      rw [if_neg hquantity]
      by_cases hmark : e.atOrBelowWatermark o.owner o.id = true
      · rw [if_pos hmark]
        exact iff_of_true rfl ⟨⟨hquantity, fun p hp => nomatch hp⟩, hmark⟩
      rw [if_neg hmark]
      refine iff_of_false ?_ (fun h => hmark h.right)
      split <;> exact fun h => nomatch h

theorem le_getLast_of_increasing {ids : List OrderId}
    (h : ids.Pairwise (fun a b => a.value < b.value)) {last : OrderId}
    (hlast : ids.getLast? = some last) {id : OrderId} (hid : id ∈ ids) :
    id.value <= last.value := by
  rcases List.getLast?_eq_some_iff.mp hlast with ⟨front, rfl⟩
  rcases List.mem_append.mp hid with hfront | hend
  · exact UInt64.le_of_lt
      ((List.pairwise_append.mp h).right.right id hfront last List.mem_cons_self)
  · rw [List.mem_singleton.mp hend]
    exact UInt64.le_refl _

theorem atOrBelowWatermark_iff {raw : Memory} {capacity : UInt64} {stp : StpConfig}
    {commands : List EngineCommand} {owner : ClientId} {id : OrderId} :
    ((new raw capacity stp).run commands).atOrBelowWatermark owner id = true <->
      exists earlier,
        earlier ∈ acceptedIds ((new raw capacity stp).ownHistory commands owner) ∧
        id.value <= earlier.value := by
  rcases run_watermark (OrderBook.WellFormed.new raw capacity) (e := new raw capacity stp)
    commands owner with ⟨hmark, hincreasing, -⟩
  have hlast : ((new raw capacity stp).run commands).lastAcceptedId owner =
      (acceptedIds ((new raw capacity stp).ownHistory commands owner)).getLast? := by
    rw [hmark]
    exact Option.or_none
  unfold atOrBelowWatermark
  rw [hlast]
  cases hids : (acceptedIds ((new raw capacity stp).ownHistory commands owner)).getLast? with
  | none =>
      rw [List.getLast?_eq_none_iff] at hids
      simp [hids]
  | some last =>
      constructor
      · intro hle
        exact ⟨last, List.mem_of_getLast? hids, of_decide_eq_true hle⟩
      · rintro ⟨earlier, hearlier, hle⟩
        exact decide_eq_true
          (UInt64.le_trans hle (le_getLast_of_increasing hincreasing hids hearlier))

end Decision

/--
Accepted ids of an owner increase; a valid submission is a duplicate exactly when
its id is at most one accepted from its owner before; and so the decision is the
same in any two runs that agree on what the owner submitted and with what outcome.
-/
theorem per_client_id_discipline (raw : Memory) (capacity : UInt64) (stp : StpConfig)
    (commands : List EngineCommand) :
    (forall owner, (acceptedIds ((new raw capacity stp).ownHistory commands owner)).Pairwise
      (fun a b => a.value < b.value)) ∧
    (forall order : NewOrder, order.Valid ->
      ((((new raw capacity stp).run commands).submit order).response.status = .duplicateOrderId <->
        exists id, id ∈ acceptedIds ((new raw capacity stp).ownHistory commands order.owner) ∧
          order.id.value <= id.value)) ∧
    (forall (raw' : Memory) (capacity' : UInt64) (stp' : StpConfig)
      (commands' : List EngineCommand) (order : NewOrder),
      (new raw capacity stp).ownHistory commands order.owner =
        (new raw' capacity' stp').ownHistory commands' order.owner ->
      ((((new raw capacity stp).run commands).submit order).response.status = .duplicateOrderId <->
        (((new raw' capacity' stp').run commands').submit order).response.status =
          .duplicateOrderId)) := by
  refine ⟨fun owner => ?_, fun order hvalid => ?_, ?_⟩
  · exact (run_watermark (OrderBook.WellFormed.new raw capacity) commands owner).right.left
  · rw [submit_duplicate_iff, atOrBelowWatermark_iff]
    exact ⟨fun h => h.right, fun h => ⟨hvalid, h⟩⟩
  · intro raw' capacity' stp' commands' order hhistory
    rw [submit_duplicate_iff, submit_duplicate_iff, atOrBelowWatermark_iff,
      atOrBelowWatermark_iff, hhistory]

def sharedIdSpace : List EngineCommand :=
  [.limit { id := ⟨5⟩, side := .sell, price := ⟨100⟩, quantity := ⟨5⟩, owner := ⟨1⟩ },
    .limit { id := ⟨9⟩, side := .sell, price := ⟨101⟩, quantity := ⟨5⟩, owner := ⟨2⟩ },
    .limit { id := ⟨5⟩, side := .sell, price := ⟨102⟩, quantity := ⟨5⟩, owner := ⟨1⟩ },
    .limit { id := ⟨7⟩, side := .sell, price := ⟨103⟩, quantity := ⟨5⟩, owner := ⟨1⟩ }]

/-- The owner's submissions of `sharedIdSpace` alone. -/
def ownIdSpace : List EngineCommand :=
  [.limit { id := ⟨5⟩, side := .sell, price := ⟨100⟩, quantity := ⟨5⟩, owner := ⟨1⟩ },
    .limit { id := ⟨5⟩, side := .sell, price := ⟨102⟩, quantity := ⟨5⟩, owner := ⟨1⟩ },
    .limit { id := ⟨7⟩, side := .sell, price := ⟨103⟩, quantity := ⟨5⟩, owner := ⟨1⟩ }]

def repeatedId : NewOrder :=
  .limit { id := ⟨6⟩, side := .buy, price := ⟨90⟩, quantity := ⟨5⟩, owner := ⟨1⟩ }

theorem per_client_id_discipline_sharedIdSpace :
    ((((new Memory.zeroed 4 {}).run sharedIdSpace).submit repeatedId).response.status =
        .duplicateOrderId <->
      exists id, id ∈ acceptedIds ((new Memory.zeroed 4 {}).ownHistory sharedIdSpace ⟨1⟩) ∧
        (6 : UInt64) <= id.value) ∧
    ((((new Memory.zeroed 4 {}).run sharedIdSpace).submit repeatedId).response.status =
        .duplicateOrderId <->
      (((new Memory.zeroed 8 {}).run ownIdSpace).submit repeatedId).response.status =
        .duplicateOrderId) := by
  have hvalid : repeatedId.Valid :=
    ⟨by decide, fun p hp => Option.some.inj hp ▸ by decide⟩
  have hhistory : (new Memory.zeroed 4 {}).ownHistory sharedIdSpace ⟨1⟩ =
      (new Memory.zeroed 8 {}).ownHistory ownIdSpace ⟨1⟩ := by decide +kernel
  have h := per_client_id_discipline Memory.zeroed 4 {} sharedIdSpace
  exact ⟨h.right.left repeatedId hvalid,
    h.right.right Memory.zeroed 8 {} ownIdSpace repeatedId hhistory⟩

end MatchingEngine
end MiniExchange
