import MiniExchange.Engine.Arrival

/-!
# The order id index

Ids are checked for freshness per client, but the index is keyed by the bare id
and keeps an entry that is already there.  The index and the queues agree as
long as no client submits an id under which another client's order rests.
-/

namespace MiniExchange

open Foundation

namespace OrderBook

/-- Looking up the id of a resting order finds that very order. -/
def Indexed (b : OrderBook) : Prop :=
  forall s x, x ∈ b.restingSlots s -> b.findOrder (b.data x).id = some x

namespace Indexed

variable {b b' : OrderBook} {x : Slot}

theorem slot_unique (h : b.Indexed) {s t : Side} {y : Slot} (hx : x ∈ b.restingSlots s)
    (hy : y ∈ b.restingSlots t) (hid : (b.data x).id = (b.data y).id) : x = y := by
  have hfind := h s x hx
  rw [hid, h t y hy] at hfind
  exact (Option.some.inj hfind).symm

theorem without (h : b.Indexed) (hw : b.WellFormed) {s : Side}
    (hx : x ∈ b.restingSlots s) (hr : WellFormed.Without b x b') : b'.Indexed := by
  intro t y hy
  rw [hr.restingSlots_eq] at hy
  rcases (hw.nodup t).mem_erase_iff.mp hy with ⟨hne, hyt⟩
  have hid : (b.data y).id ≠ (b.data x).id :=
    fun heq => hne (h.slot_unique hyt hx heq)
  show b'.orders (b'.data y).id = some y
  rw [hr.data_eq y hne, hr.orders_eq, Function.update_of_ne hid]
  exact h t y hyt

theorem reduceResting (h : b.Indexed) (hw : b.WellFormed) {s : Side}
    (hx : x ∈ b.restingSlots s) {qty : Quantity} (hqty : qty <= (b.data x).quantity) :
    (b.reduceResting ⟨s, (b.data x).price⟩ x qty).Indexed := by
  intro t y hy
  have hdata := (hw.reduceResting_shrinks hx hqty).data_eq t y hy
  have hid := congrArg (fun o => o.id) hdata
  rw [(hw.reduceResting hx hqty).right] at hy
  show (b.reduceResting ⟨s, (b.data x).price⟩ x qty).orders _ = some y
  rw [(WellFormed.pool_reduceResting b _ x qty).left]
  exact (congrArg b.orders hid).trans (h t y hy)

theorem addOrder (h : b.Indexed) (hw : b.WellFormed) {data : Order}
    (ha : WellFormed.With b data x b')
    (hfresh : forall s y, y ∈ b.restingSlots s -> (b.data y).id ≠ data.id) :
    b'.Indexed := by
  have hnone : ¬ (b.orders data.id).isSome = true := by
    intro hsome
    rcases Option.isSome_iff_exists.mp hsome with ⟨z, hz⟩
    rcases hw.findOrder_some hz with ⟨⟨s, hzs⟩, hid⟩
    exact hfresh s z hzs hid
  intro t y hy
  show b'.orders (b'.data y).id = some y
  rw [ha.orders_eq, if_neg hnone]
  rcases ha.mem_cases hy with heq | ⟨hne, hyt⟩
  · rw [heq, ha.data_self, Function.update_self]
  · rw [ha.data_of_ne hne, Function.update_of_ne (hfresh t y hyt)]
    exact h t y hyt

end Indexed
end OrderBook

theorem BookStep.indexed {b b' : OrderBook} (hw : b.WellFormed) (h : b.Indexed)
    (hstep : BookStep b b') : b'.Indexed := by
  cases hstep with
  | reduce hx hqty => exact h.reduceResting hw hx hqty
  | remove hx hr => exact h.without hw hx hr

/-- The ids under which a client's orders rest are at or below its watermark. -/
def Watermarked (e : MatchingEngine) : Prop :=
  forall s x, x ∈ e.book.restingSlots s ->
    exists w, e.lastAcceptedId (e.book.data x).owner = some w ∧
      (e.book.data x).id.value <= w.value

/-- No order of another client rests under the id of a submitted limit order. -/
def IdFreeElsewhere (e : MatchingEngine) (command : EngineCommand) : Prop :=
  forall o, command = .limit o ->
    forall s r, r ∈ e.book.resting s -> r.owner ≠ o.owner -> r.id ≠ o.id

namespace Watermarked

variable {e : MatchingEngine} {order : NewOrder}

theorem lt_of_admits (hadmits : e.Admits order) {w : OrderId}
    (hw : e.lastAcceptedId order.owner = some w) : w.value < order.id.value := by
  have hfresh := hadmits.fresh
  unfold MatchingEngine.atOrBelowWatermark at hfresh
  rw [hw] at hfresh
  have hnot : ¬ order.id.value <= w.value := of_decide_eq_false hfresh
  exact UInt64.not_le.mp hnot

theorem advance (hadmits : e.Admits order) {owner : ClientId} {id : OrderId}
    (h : exists w, e.lastAcceptedId owner = some w ∧ id.value <= w.value) :
    exists w, Function.update e.lastAcceptedId order.owner (some order.id) owner = some w ∧
      id.value <= w.value := by
  rcases h with ⟨w, hw, hle⟩
  by_cases howner : owner = order.owner
  · subst howner
    refine ⟨order.id, Function.update_self _ _ _, ?_⟩
    exact UInt64.le_of_lt (UInt64.lt_of_le_of_lt hle (lt_of_admits hadmits hw))
  · exact ⟨w, by rw [Function.update_of_ne howner, hw], hle⟩

theorem shrink {b' : OrderBook} (h : Watermarked e) (hs : OrderBook.Shrinks e.book b')
    {s : Side} {x : Slot} (hx : x ∈ b'.restingSlots s) :
    exists w, e.lastAcceptedId (b'.data x).owner = some w ∧ (b'.data x).id.value <= w.value := by
  have hdata := hs.data_eq s x hx
  have howner : (b'.data x).owner = (e.book.data x).owner :=
    congrArg (fun o => o.owner) hdata
  have hid : (b'.data x).id = (e.book.data x).id := congrArg (fun o => o.id) hdata
  rw [howner, hid]
  exact h s x (hs.mem hx)

theorem submit (h : Watermarked e) (hw : e.book.WellFormed) (hadmits : e.Admits order) :
    Watermarked (e.submit order).engine := by
  have hs := matched_shrinks hw order
  have hlast := (MatchingEngine.admission hw hadmits).lastAcceptedId
  intro s x hx
  rw [hlast]
  cases hrest : e.restedBy order with
  | none =>
      rw [MatchingEngine.submit_engine hadmits, MatchingEngine.settle_none hw hrest] at hx ⊢
      exact advance hadmits (h.shrink hs hx)
  | some o =>
      rcases MatchingEngine.settled_with hw hadmits hrest with ⟨z, hwith⟩
      rcases hwith.mem_cases hx with heq | ⟨hne, hxm⟩
      · rcases MatchingEngine.restedBy_some hrest with ⟨lo, rfl, -, rfl⟩
        rw [heq, hwith.data_self]
        exact ⟨lo.id, Function.update_self _ _ _, UInt64.le_refl _⟩
      · rw [hwith.data_of_ne hne]
        exact advance hadmits (h.shrink hs hxm)

theorem cancel (h : Watermarked e) (hw : e.book.WellFormed) {id : OrderId} {s : Side}
    {x : Slot} (hc : MatchingEngine.Cancellation e id s x (e.cancel id)) :
    Watermarked (e.cancel id).engine := by
  intro t y hy
  rw [hc.lastAcceptedId]
  exact h.shrink (hc.without.shrinks hw) hy

end Watermarked

/-!
## Index and queues over runs
-/

structure IndexInvariant (e : MatchingEngine) : Prop where
  wellFormed : e.book.WellFormed
  indexed : e.book.Indexed
  watermarked : Watermarked e

namespace IndexInvariant

variable {e : MatchingEngine}

theorem new (raw : Memory) (capacity : UInt64) (stp : StpConfig) :
    IndexInvariant (MatchingEngine.new raw capacity stp) := by
  have hempty : forall s x,
      x ∉ (MatchingEngine.new raw capacity stp).book.restingSlots s := by
    intro s x hx
    have hslots := congrFun (Represents.new raw capacity).reads.right s
    exact List.not_mem_nil (hslots ▸ hx)
  exact ⟨OrderBook.WellFormed.new raw capacity, fun s x hx => absurd hx (hempty s x),
    fun s x hx => absurd hx (hempty s x)⟩

theorem fresh_remainder (h : IndexInvariant e) {lo : LimitOrder}
    (hadmits : e.Admits (.limit lo))
    (hfree : IdFreeElsewhere e (.limit lo)) {s : Side} {x : Slot}
    (hx : x ∈ e.book.restingSlots s) : (e.book.data x).id ≠ lo.id := by
  by_cases howner : (e.book.data x).owner = lo.owner
  · rcases h.watermarked s x hx with ⟨w, hw, hle⟩
    rw [howner] at hw
    have hlt : w.value < lo.id.value := Watermarked.lt_of_admits hadmits hw
    intro heq
    rw [heq] at hle
    exact UInt64.not_le.mpr hlt hle
  · exact hfree lo rfl s _ (List.mem_map_of_mem hx) howner

theorem submit_indexed (h : IndexInvariant e) {order : NewOrder}
    (hadmits : e.Admits order) (hfree : IdFreeElsewhere e order.toCommand) :
    (e.submit order).engine.book.Indexed := by
  have hmatched : (e.matched order).engine.book.Indexed :=
    MatchingEngine.matched_book h.wellFormed
      (fun hwb hb hstep => hstep.indexed hwb hb) h.indexed
  cases hrest : e.restedBy order with
  | none =>
      rw [MatchingEngine.submit_engine hadmits,
        MatchingEngine.settle_none h.wellFormed hrest]
      exact hmatched
  | some o =>
      rcases MatchingEngine.settled_with h.wellFormed hadmits hrest with ⟨z, hwith⟩
      rcases MatchingEngine.restedBy_some hrest with ⟨lo, rfl, -, rfl⟩
      apply hmatched.addOrder (MatchingEngine.matched_spec h.wellFormed _).wellFormed hwith
      intro s y hy
      have hs := matched_shrinks h.wellFormed (.limit lo)
      have hid := congrArg (fun o => o.id) (hs.data_eq s y hy)
      exact fun heq => h.fresh_remainder hadmits hfree (hs.mem hy) (hid.symm.trans heq)

theorem exec (h : IndexInvariant e) {command : EngineCommand}
    (hfree : IdFreeElsewhere e command) : IndexInvariant (e.exec command).engine := by
  apply MatchingEngine.exec_induction h.wellFormed h command
  · intro order hcommand hadmits hadmission
    exact ⟨hadmission.wellFormed, h.submit_indexed hadmits (hcommand ▸ hfree),
      h.watermarked.submit h.wellFormed hadmits⟩
  · intro id s x _ hc
    exact ⟨hc.without.wellFormed, h.indexed.without h.wellFormed hc.resting hc.without,
      h.watermarked.cancel h.wellFormed hc⟩

end IndexInvariant

/-- Resting ids are distinct, lookups find the order, and a cancel removes it. -/
structure IndexAgrees (e : MatchingEngine) : Prop where
  distinct :
    ((e.book.resting .buy ++ e.book.resting .sell).map (fun o => o.id)).Nodup
  found : forall s x, x ∈ e.book.restingSlots s ->
    e.book.findOrder (e.book.data x).id = some x
  removed : forall s x, x ∈ e.book.restingSlots s ->
    (e.cancel (e.book.data x).id).response.status = .accepted ∧
      forall t, (e.cancel (e.book.data x).id).engine.book.restingSlots t =
        (e.book.restingSlots t).erase x

theorem IndexInvariant.agrees {e : MatchingEngine} (h : IndexInvariant e) :
    IndexAgrees e where
  distinct := by
    have hids : forall s, ((e.book.resting s).map (fun o => o.id)).Nodup := by
      intro s
      rw [OrderBook.resting_eq, List.map_map]
      apply List.Nodup.map_on _ (h.wellFormed.nodup s)
      intro x hx y hy hid
      exact h.indexed.slot_unique hx hy hid
    rw [List.map_append]
    apply List.nodup_append.mpr
    refine ⟨hids .buy, hids .sell, ?_⟩
    intro i hi j hj heq
    rw [OrderBook.resting_eq, List.map_map] at hi hj
    rcases List.mem_map.mp hi with ⟨x, hx, rfl⟩
    rcases List.mem_map.mp hj with ⟨y, hy, rfl⟩
    have hxy := h.indexed.slot_unique hx hy heq
    cases h.wellFormed.side_unique hx (hxy ▸ hy)
  found := h.indexed
  removed s x hx := by
    rcases MatchingEngine.cancel_some h.wellFormed (h.indexed s x hx) with ⟨t, hc⟩
    refine ⟨?_, hc.without.restingSlots_eq⟩
    rw [hc.response]

def sharedId : List EngineCommand :=
  [.limit { id := ⟨7⟩, side := .sell, price := ⟨100⟩, quantity := ⟨5⟩, owner := ⟨1⟩ },
    .limit { id := ⟨7⟩, side := .sell, price := ⟨101⟩, quantity := ⟨5⟩, owner := ⟨2⟩ }]

/-- Both orders rest, but the second is never found and cannot be cancelled. -/
theorem index_disagrees_on_sharedId :
    let e := (MatchingEngine.new Memory.zeroed 4
      { enabled := false, policy := .rejectIncoming }).run sharedId
    ¬ IndexAgrees e ∧
      e.book.restingSlots .sell = [0, 1] ∧
      (e.book.data 0).id = ⟨7⟩ ∧ (e.book.data 1).id = ⟨7⟩ ∧
      e.book.findOrder ⟨7⟩ = some 0 ∧
      (e.cancel ⟨7⟩).engine.book.restingSlots .sell = [1] ∧
      ((e.cancel ⟨7⟩).engine.cancel ⟨7⟩).response.status = .unknownOrderId := by
  refine ⟨fun h => ?_, by decide +kernel, by decide +kernel, by decide +kernel,
    by decide +kernel, by decide +kernel, by decide +kernel⟩
  exact absurd h.distinct (by decide +kernel)

/--
In every run in which no limit order is submitted under an id that is carried by
another client's resting order, the index and the queues agree.
-/
theorem index_agrees_of_idFreeElsewhere (raw : Memory) (capacity : UInt64)
    (stp : StpConfig) (commands : List EngineCommand)
    (hfree : forall v, v ∈ (MatchingEngine.new raw capacity stp).visits commands ->
      IdFreeElsewhere v.1 v.2) :
    IndexAgrees ((MatchingEngine.new raw capacity stp).run commands) := by
  have hinv : IndexInvariant ((MatchingEngine.new raw capacity stp).run commands) :=
    Machine.run_invariant_of (fun _ _ h hok => h.exec hok)
      (IndexInvariant.new raw capacity stp) hfree
  exact hinv.agrees

def separateIds : List EngineCommand :=
  [.limit { id := ⟨7⟩, side := .sell, price := ⟨100⟩, quantity := ⟨5⟩, owner := ⟨1⟩ },
    .limit { id := ⟨8⟩, side := .sell, price := ⟨101⟩, quantity := ⟨5⟩, owner := ⟨2⟩ }]

theorem index_agrees_on_separateIds :
    IndexAgrees ((MatchingEngine.new Memory.zeroed 4
      { enabled := false, policy := .rejectIncoming }).run separateIds) := by
  apply index_agrees_of_idFreeElsewhere
  intro v hv
  simp only [MatchingEngine.visits, separateIds, Machine.visits, List.mem_cons,
    List.not_mem_nil, or_false] at hv
  rcases hv with rfl | rfl
  · intro o ho s
    cases ho
    cases s <;> decide +kernel
  · intro o ho s
    cases ho
    cases s <;> decide +kernel

end MiniExchange
