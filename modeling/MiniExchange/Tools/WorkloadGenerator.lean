import Mathlib.Order.Interval.Finset.Nat
import MiniExchange.Engine.BookInvariant
import MiniExchange.Engine.OrderLedger
import MiniExchange.Engine.Untraded

/-!
# Workload generator

The generator of `tools/workload_generator/workload_generator.cpp`, from which
the benchmarks take their commands.  The values that its distributions draw are
inputs here.  It keeps a vector of the limit orders it believes to be resting
and cancels one of them now and then; it never looks at an engine.
-/

namespace MiniExchange

open Foundation

inductive EventKind where
  | addLimit
  | addMarket
  | cancel
deriving DecidableEq, Repr

/-- The values drawn in one iteration, of which only some are used. -/
structure Draw where
  kind : EventKind
  side : Side
  /-- The rounded offset. -/
  offset : Int64
  /-- The offset is added to the middle price. -/
  above : Bool
  quantity : Quantity
  /-- Selects a position of the vector. -/
  index : Nat
deriving DecidableEq, Repr

structure WorkloadConfig where
  midPrice : Price
  quantityMin : Quantity
  quantityMax : Quantity
deriving DecidableEq, Repr

def Draw.Within (config : WorkloadConfig) (d : Draw) : Prop :=
  config.quantityMin <= d.quantity ∧ d.quantity <= config.quantityMax

structure WorkloadGenerator where
  config : WorkloadConfig
  assumedResting : List OrderId := []
  nextId : UInt64 := 1
deriving DecidableEq, Repr

def swapAndPop {α : Type} (v : List α) (i : Nat) : List α :=
  match v.getLast? with
  | none => v
  | some back => (v.set i back).dropLast

def EngineCommand.cancelled? : EngineCommand -> Option OrderId
  | cancel id => some id
  | _ => none

namespace WorkloadGenerator

def price (g : WorkloadGenerator) (d : Draw) : Price :=
  let offset := if d.offset < 1 then 1 else d.offset
  let value :=
    if d.above then g.config.midPrice.value + offset else g.config.midPrice.value - offset
  if value <= 0 then ⟨1⟩ else ⟨value⟩

def addLimit (g : WorkloadGenerator) (d : Draw) : EngineCommand × WorkloadGenerator :=
  (.limit { id := ⟨g.nextId⟩, side := d.side, price := g.price d, quantity := d.quantity },
    { g with
      nextId := g.nextId + 1
      assumedResting := g.assumedResting ++ [⟨g.nextId⟩] })

def addMarket (g : WorkloadGenerator) (d : Draw) : EngineCommand × WorkloadGenerator :=
  (.market { id := ⟨g.nextId⟩, side := d.side, quantity := d.quantity },
    { g with nextId := g.nextId + 1 })

/-- Without a candidate for a cancel, a limit order is generated instead. -/
def cancelRequest (g : WorkloadGenerator) (d : Draw) : EngineCommand × WorkloadGenerator :=
  let i := d.index % g.assumedResting.length
  match g.assumedResting[i]? with
  | none => g.addLimit d
  | some id =>
      (.cancel id, { g with assumedResting := swapAndPop g.assumedResting i })

def next (g : WorkloadGenerator) (d : Draw) : EngineCommand × WorkloadGenerator :=
  match d.kind with
  | .addLimit => g.addLimit d
  | .addMarket => g.addMarket d
  | .cancel => g.cancelRequest d

/-- One event for each iteration, and the generator as the next call finds it. -/
def generate (g : WorkloadGenerator) : List Draw -> List EngineCommand × WorkloadGenerator
  | [] => ([], g)
  | d :: draws =>
      let event := g.next d
      let rest := event.2.generate draws
      (event.1 :: rest.1, rest.2)

/-!
## The vector of candidates
-/

theorem swapAndPop_perm {α : Type} {v : List α} {i : Nat} {x : α} (h : v[i]? = some x) :
    (x :: swapAndPop v i).Perm v := by
  rcases List.eq_nil_or_concat' v with rfl | ⟨front, back, rfl⟩
  · cases h
  · have hpop : swapAndPop (front ++ [back]) i = ((front ++ [back]).set i back).dropLast := by
      unfold swapAndPop
      rw [List.getLast?_concat]
    rw [hpop]
    rcases Nat.lt_or_ge i front.length with hlt | hge
    · rw [List.set_append_left _ _ hlt, List.dropLast_concat]
      rw [List.getElem?_append_left hlt, List.getElem?_eq_some_iff] at h
      rcases h with ⟨hi, rfl⟩
      have hset := (List.set_perm_cons_eraseIdx hi back).cons front[i]
      have hfront := List.getElem_cons_eraseIdx_perm hi
      have hswap := (List.Perm.swap back front[i] (front.eraseIdx i)).trans (hfront.cons back)
      exact (hset.trans hswap).trans (List.perm_append_singleton back front).symm
    · -- the element is the last one itself
      rw [List.getElem?_append_right hge, List.getElem?_singleton] at h
      split at h
      · next hlast =>
          cases h
          rw [List.set_append_right _ _ hge, hlast, List.set_cons_zero, List.dropLast_concat]
          exact (List.perm_append_singleton _ front).symm
      · cases h

theorem price_pos (g : WorkloadGenerator) (d : Draw) : Price.zero < g.price d := by
  have hclamped : forall value : Int64,
      Price.zero < if value <= 0 then (⟨1⟩ : Price) else ⟨value⟩ := by
    intro value
    split
    · exact (by decide : Price.zero < ⟨1⟩)
    · next hpos => exact Int64.lt_iff_toInt_lt.mp (Int64.not_le.mp hpos)
  exact hclamped _

theorem next_cases (g : WorkloadGenerator) (d : Draw) :
    g.next d = g.addLimit d ∨ g.next d = g.addMarket d ∨
      exists id candidates, (id :: candidates).Perm g.assumedResting ∧
        g.next d = (.cancel id, { g with assumedResting := candidates }) := by
  unfold next
  cases d.kind with
  | addLimit => exact Or.inl rfl
  | addMarket => exact Or.inr (Or.inl rfl)
  | cancel =>
      show g.cancelRequest d = _ ∨ g.cancelRequest d = _ ∨ _
      unfold cancelRequest
      dsimp only
      cases hcandidate : g.assumedResting[d.index % g.assumedResting.length]? with
      | none => exact Or.inl rfl
      | some id => exact Or.inr (Or.inr ⟨id, _, swapAndPop_perm hcandidate, rfl⟩)

structure Candidates (g : WorkloadGenerator) : Prop where
  nodup : g.assumedResting.Nodup
  below : forall id, id ∈ g.assumedResting -> id.value.toNat < g.nextId.toNat

theorem toNat_succ {g : WorkloadGenerator} (h : g.nextId.toNat + 1 < 2 ^ 64) :
    (g.nextId + 1).toNat = g.nextId.toNat + 1 := by
  rw [UInt64.toNat_add]
  exact Nat.mod_eq_of_lt h

namespace Candidates

variable {g : WorkloadGenerator}

theorem addMarket (h : g.Candidates) (d : Draw) (hnext : g.nextId.toNat + 1 < 2 ^ 64) :
    (g.addMarket d).2.Candidates where
  nodup := h.nodup
  below id hid := by
    show id.value.toNat < (g.nextId + 1).toNat
    rw [toNat_succ hnext]
    exact Nat.lt_succ_of_lt (h.below id hid)

theorem addLimit (h : g.Candidates) (d : Draw) (hnext : g.nextId.toNat + 1 < 2 ^ 64) :
    (g.addLimit d).2.Candidates where
  nodup := by
    have hnew : (⟨g.nextId⟩ : OrderId) ∉ g.assumedResting :=
      fun hold => Nat.lt_irrefl _ (h.below _ hold)
    have hcons := List.nodup_cons.mpr ⟨hnew, h.nodup⟩
    exact (List.perm_append_singleton _ _).nodup_iff.mpr hcons
  below id hid := by
    show id.value.toNat < (g.nextId + 1).toNat
    rw [toNat_succ hnext]
    rcases List.mem_append.mp hid with hold | hnew
    · exact Nat.lt_succ_of_lt (h.below id hold)
    · rw [List.mem_singleton.mp hnew]
      exact Nat.lt_succ_self _

theorem cancel (h : g.Candidates) {id : OrderId} {candidates : List OrderId}
    (hperm : (id :: candidates).Perm g.assumedResting) :
    Candidates { g with assumedResting := candidates } where
  nodup := (List.nodup_cons.mp (hperm.nodup_iff.mpr h.nodup)).right
  below other hother := h.below other (hperm.mem_iff.mp (List.mem_cons_of_mem _ hother))

theorem cancelled (h : g.Candidates) {draws : List Draw}
    (hnext : g.nextId.toNat + draws.length < 2 ^ 64) :
    ((g.generate draws).1.filterMap EngineCommand.cancelled?).Nodup ∧
      forall id, id ∈ (g.generate draws).1.filterMap EngineCommand.cancelled? ->
        id ∈ g.assumedResting ∨ g.nextId.toNat <= id.value.toNat := by
  induction draws generalizing g with
  | nil => exact ⟨List.nodup_nil, fun id hid => nomatch hid⟩
  | cons d draws ih =>
      rw [List.length_cons] at hnext
      have hsucc := toNat_succ (g := g) (by omega)
      show ((_ :: ((g.next d).2.generate draws).1).filterMap _).Nodup ∧
        forall id, id ∈ (_ :: ((g.next d).2.generate draws).1).filterMap _ -> _
      rcases next_cases g d with heq | heq | ⟨id, candidates, hperm, heq⟩
      · rw [heq, List.filterMap_cons_none rfl]
        have hlater : (g.addLimit d).2.nextId.toNat = g.nextId.toNat + 1 := hsucc
        rcases ih (h.addLimit d (by omega)) (by omega) with ⟨hnodup, hids⟩
        refine ⟨hnodup, ?_⟩
        intro id hid
        rcases hids id hid with hcandidate | hle
        · rcases List.mem_append.mp hcandidate with hold | hnew
          · exact Or.inl hold
          · rw [List.mem_singleton.mp hnew]
            exact Or.inr (Nat.le_refl _)
        · right
          omega
      · rw [heq, List.filterMap_cons_none rfl]
        have hlater : (g.addMarket d).2.nextId.toNat = g.nextId.toNat + 1 := hsucc
        rcases ih (h.addMarket d (by omega)) (by omega) with ⟨hnodup, hids⟩
        refine ⟨hnodup, ?_⟩
        intro id hid
        rcases hids id hid with hcandidate | hle
        · exact Or.inl hcandidate
        · right
          omega
      · have hsome : EngineCommand.cancelled? (.cancel id) = some id := rfl
        rw [heq, List.filterMap_cons_some hsome]
        have hmem : forall other, other ∈ id :: candidates -> other ∈ g.assumedResting :=
          fun other hother => hperm.mem_iff.mp hother
        have hdistinct := List.nodup_cons.mp (hperm.nodup_iff.mpr h.nodup)
        rcases ih (h.cancel hperm) (Nat.lt_of_succ_lt hnext) with ⟨hnodup, hids⟩
        constructor
        · apply List.nodup_cons.mpr
          refine ⟨?_, hnodup⟩
          -- the cancelled id is no candidate any more, and was given out before
          intro hagain
          have hbelow := h.below id (hmem id List.mem_cons_self)
          rcases hids id hagain with hcandidate | hle
          · exact hdistinct.left hcandidate
          · exact Nat.not_le.mpr hbelow hle
        · intro other hother
          rcases List.mem_cons.mp hother with rfl | hrest
          · exact Or.inl (hmem _ List.mem_cons_self)
          · exact (hids other hrest).imp_left fun hold => hmem _ (List.mem_cons_of_mem _ hold)

end Candidates

end WorkloadGenerator

/-!
## An engine fed by the generator

All orders are the default client's.
-/

namespace MatchingEngine

def defaultClient (_ : OrderId) : ClientId :=
  ⟨0⟩

variable {e : MatchingEngine} {command : EngineCommand} {id : OrderId}

theorem mem_sink_exec (hw : e.book.WellFormed) (command : EngineCommand) {event : SinkEvent}
    (h : event ∈ e.sink) : event ∈ (e.exec command).engine.sink := by
  apply exec_induction (Q := fun e' => event ∈ e'.sink) hw h command
  · intro order _ _ ha
    rw [ha.sink]
    exact List.mem_append_left _ h
  · intro _ _ _ _ hc
    rw [hc.sink]
    exact List.mem_append_left _ h

theorem withdrawnUnits_exec (hw : e.book.WellFormed) (hstp : e.stp.enabled = false)
    (hcommand : command ≠ .cancel id) :
    withdrawnUnits id (e.exec command).engine.sink = withdrawnUnits id e.sink := by
  apply exec_induction (Q := fun e' => withdrawnUnits id e'.sink = withdrawnUnits id e.sink)
    hw rfl command
  · intro order _ _ ha
    have hfills : forall o, .cancelOwn o ∉ (e.sweepOf order).actions := by
      intro o ho
      have hpulled := (sweepOf_actions ho).right.right
      unfold NewOrder.pulls at hpulled
      rw [hstp] at hpulled
      cases hpulled
    have hnone : withdrawnUnits id (order.acceptance ::
        Action.events order.incoming e.nextTradeSequence (e.sweepOf order).actions) = 0 := by
      rw [Action.events_eq_trades hfills]
      apply List.sum_eq_zero
      intro n hn
      rcases List.mem_map.mp hn with ⟨event, hevent, rfl⟩
      rcases List.mem_cons.mp hevent with rfl | htrade
      · rfl
      · rcases List.mem_map.mp htrade with ⟨trade, -, rfl⟩
        rfl
    rw [ha.sink, withdrawnUnits_append, hnone, Nat.add_zero]
  · intro cancelled s x hcancel hc
    have hne : (e.book.data x).id ≠ id := by
      rw [hc.id_eq]
      intro heq
      rw [heq] at hcancel
      exact hcommand hcancel
    rw [hc.sink, withdrawnUnits_append]
    show _ + ((if (e.book.data x).id = id then (e.book.data x).quantity.units else 0) + 0) = _
    rw [if_neg hne, Nat.add_zero]

/-- The id is that of an accepted limit order which has not been cancelled. -/
structure Tracked (e : MatchingEngine) (order : LimitOrder) : Prop where
  passed : Passed defaultClient e order.id
  accepted : (NewOrder.limit order).acceptance ∈ e.sink
  accounted : Accounted e (.limit order) 0
  untouched : withdrawnUnits order.id e.sink = 0

namespace Tracked

variable {order : LimitOrder}

theorem exec (h : Tracked e order) (hw : e.book.WellFormed) (hstp : e.stp.enabled = false)
    (hown : OwnId defaultClient command) (hcommand : command ≠ .cancel order.id) :
    Tracked (e.exec command).engine order where
  passed := exec_passed hw command h.passed
  accepted := mem_sink_exec hw command h.accepted
  accounted := h.accounted.exec hw (bringsOther_of_passed h.passed hown)
  untouched := (withdrawnUnits_exec hw hstp hcommand).trans h.untouched

theorem filled_of_unknown (h : Tracked e order) (hindexed : e.book.Indexed)
    (hfind : e.book.findOrder order.id = none) :
    filledUnits order.id e.sink = order.quantity.units := by
  have hopen : openUnits order.id e.restingOrders = 0 := by
    apply List.sum_eq_zero
    intro n hn
    rcases List.mem_map.mp hn with ⟨o, ho, rfl⟩
    have hother : o.id ≠ order.id := by
      intro hid
      have hfound : forall s, o ∉ e.book.resting s := by
        intro s hs
        rcases List.mem_map.mp hs with ⟨x, hx, rfl⟩
        have hsome := hindexed s x hx
        rw [hid, hfind] at hsome
        cases hsome
      rcases List.mem_append.mp ho with hbuy | hsell
      · exact hfound _ hbuy
      · exact hfound _ hsell
    exact if_neg hother
  have hquantity := h.accounted.quantity
  have huntouched := h.untouched
  show filledUnits order.id e.sink = (NewOrder.limit order).quantity.units
  have hid : (NewOrder.limit order).id = order.id := rfl
  rw [hid] at hquantity
  omega

theorem not_filled_of_resting (h : Tracked e order) {s : Side} {o : RestingOrder}
    (ho : o ∈ e.book.resting s) (hid : o.id = order.id) (hpos : Quantity.zero < o.quantity) :
    filledUnits order.id e.sink ≠ order.quantity.units := by
  have hmem : o ∈ e.restingOrders := by
    cases s with
    | buy => exact List.mem_append_left _ ho
    | sell => exact List.mem_append_right _ ho
  have hopen : o.quantity.units <= openUnits order.id e.restingOrders := by
    refine List.single_le_sum (fun _ _ => Nat.zero_le _) _ ?_
    exact List.mem_map.mpr ⟨o, hmem, if_pos hid⟩
  have hquantity := h.accounted.quantity
  have hsame : (NewOrder.limit order).quantity = order.quantity := rfl
  have hname : (NewOrder.limit order).id = order.id := rfl
  have hunits : 0 < o.quantity.units := hpos
  rw [hsame, hname] at hquantity
  omega

end Tracked

/-!
### The generator and the engine in step
-/

structure InStep (g : WorkloadGenerator) (e : MatchingEngine) : Prop where
  spaced : Spaced defaultClient e
  plain : e.stp.enabled = false
  positive : forall s o, o ∈ e.book.resting s -> Quantity.zero < o.quantity
  watermark : forall w, e.lastAcceptedId ⟨0⟩ = some w -> w.value < g.nextId
  unused : forall id : OrderId, id.value = 0 ∨ g.nextId <= id.value -> Unused e id
  candidates : g.Candidates
  tracked : forall id, id ∈ g.assumedResting ->
    exists order : LimitOrder, order.id = id ∧ Tracked e order

namespace InStep

variable {g : WorkloadGenerator}

theorem not_mem_resting_new (raw : Memory) (capacity : UInt64) (s : Side) (o : RestingOrder) :
    o ∉ (OrderBook.new raw capacity).resting s := by
  rw [OrderBook.WellFormed.resting_new]
  exact List.not_mem_nil

theorem new (config : WorkloadConfig) (raw : Memory) (capacity : UInt64) {stp : StpConfig}
    (hstp : stp.enabled = false) :
    InStep { config := config } (MatchingEngine.new raw capacity stp) where
  spaced := Spaced.new defaultClient raw capacity stp
  plain := hstp
  positive s o ho := absurd ho (not_mem_resting_new raw capacity s o)
  watermark w hw := by cases hw
  unused id _ := by
    constructor
    · intro event hevent
      cases hevent
    · intro s r hr
      exact absurd hr (not_mem_resting_new raw capacity s r)
  candidates := ⟨List.nodup_nil, fun id hid => by cases hid⟩
  tracked id hid := by cases hid

theorem length_restingOrders (h : InStep g e) : e.restingOrders.length < g.nextId.toNat ∨
    g.nextId.toNat = 0 := by
  have hinjective : Function.Injective (fun id : OrderId => id.value.toNat) := by
    rintro ⟨value⟩ ⟨value'⟩ hsame
    exact congrArg OrderId.mk (UInt64.toNat_inj.mp hsame)
  have hnumbers : (e.restingOrders.map (fun o => o.id.value.toNat)).Nodup := by
    have hdistinct := List.Nodup.map hinjective h.spaced.agrees.distinct
    rwa [List.map_map] at hdistinct
  have hrange : (e.restingOrders.map (fun o => o.id.value.toNat)).toFinset ⊆
      Finset.Ico 1 g.nextId.toNat := by
    intro n hn
    rcases List.mem_map.mp (List.mem_toFinset.mp hn) with ⟨o, ho, rfl⟩
    have hused : ¬ (o.id.value = 0 ∨ g.nextId <= o.id.value) := by
      intro hunused
      have hnot := (h.unused o.id hunused).resting
      rcases List.mem_append.mp ho with hbuy | hsell
      · exact hnot _ o hbuy rfl
      · exact hnot _ o hsell rfl
    rw [not_or, ← UInt64.toNat_inj, UInt64.toNat_zero, UInt64.le_iff_toNat_le] at hused
    rw [Finset.mem_Ico]
    omega
  have hcard := Finset.card_le_card hrange
  rw [List.toFinset_card_of_nodup hnumbers, Nat.card_Ico, List.length_map] at hcard
  omega

theorem admits (h : InStep g e) (order : NewOrder) (hid : order.id = ⟨g.nextId⟩)
    (howner : order.owner = ⟨0⟩) (hquantity : Quantity.zero < order.quantity)
    (hprice : forall p, order.limitPrice = some p -> Price.zero < p)
    (hstart : 0 < g.nextId.toNat) (hroom : g.nextId.toNat <= e.book.pool.capacity) :
    e.Admits order where
  quantity_pos := hquantity
  price_pos := hprice
  fresh := by
    unfold atOrBelowWatermark
    rw [howner, hid]
    cases hlast : e.lastAcceptedId ⟨0⟩ with
    | none => rfl
    | some w => exact decide_eq_false (UInt64.not_le.mpr (h.watermark w hlast))
  noSelfCross := by
    unfold rejectsSelfCross
    rw [h.plain]
    rfl
  slot _ := by
    have hlength := h.length_restingOrders
    have hcount := h.spaced.wellFormed.count.left
    unfold restingOrders at hlength
    rw [List.length_append] at hlength
    omega

theorem submit (h : InStep g e) (order : NewOrder) (hid : order.id = ⟨g.nextId⟩)
    (howner : order.owner = ⟨0⟩) (hadmits : e.Admits order) (hstart : 0 < g.nextId.toNat)
    (hnext : g.nextId.toNat + 1 < 2 ^ 64) {g' : WorkloadGenerator}
    (hg' : g'.nextId = g.nextId + 1) (hcandidates : g'.Candidates)
    (htracked : forall id, id ∈ g'.assumedResting -> id ∈ g.assumedResting ∨
      exists lo : LimitOrder, lo.id = id ∧ Tracked (e.exec order.toCommand).engine lo) :
    InStep g' (e.exec order.toCommand).engine := by
  have hw := h.spaced.wellFormed
  have hexec : e.exec order.toCommand = e.submit order := by cases order <;> rfl
  have ha := admission hw hadmits
  have hown : OwnId defaultClient order.toCommand := by
    intro other hother
    rw [NewOrder.newOrder?_toCommand] at hother
    cases hother
    exact howner.symm
  have hsucc : g'.nextId.toNat = g.nextId.toNat + 1 := by
    rw [hg']
    exact WorkloadGenerator.toNat_succ hnext
  constructor
  case spaced => exact h.spaced.exec hown
  case plain =>
    rw [hexec, ha.stp]
    exact h.plain
  case positive =>
    rw [hexec]
    refine submit_resting (P := fun o => Quantity.zero < o.quantity) ?_ h.positive ha ?_
    · exact fun o q hquantity _ hpos => hpos hquantity
    · intro o ho
      rcases restedBy_some ho with ⟨lo, rfl, hpos, rfl⟩
      exact hpos
  case watermark =>
    intro w hlast
    rw [hexec, ha.lastAcceptedId, howner, Function.update_self] at hlast
    cases hlast
    rw [hid, UInt64.lt_iff_toNat_lt]
    show g.nextId.toNat < g'.nextId.toNat
    omega
  case unused =>
    intro id hunused
    -- neither zero nor an id behind the new one is the new one
    have hunused : id.value.toNat = 0 ∨ g.nextId.toNat + 1 <= id.value.toNat := by
      rw [← hsucc, ← UInt64.le_iff_toNat_le]
      exact hunused.imp_left fun hzero => congrArg UInt64.toNat hzero
    have hbefore : Unused e id := by
      apply h.unused
      rw [UInt64.le_iff_toNat_le, ← UInt64.toNat_inj, UInt64.toNat_zero]
      omega
    apply hbefore.exec hw
    intro other hother _ hsame
    rw [NewOrder.newOrder?_toCommand] at hother
    cases hother
    have hvalue : g.nextId.toNat = id.value.toNat := by rw [← hsame, hid]
    omega
  case candidates => exact hcandidates
  case tracked =>
    intro id hmem
    rcases htracked id hmem with hold | hnew
    · rcases h.tracked id hold with ⟨other, hother, ht⟩
      refine ⟨other, hother, ht.exec hw h.plain hown ?_⟩
      intro hcancel
      cases order <;> cases hcancel
    · exact hnew

theorem tracked_limit (h : InStep g e) {order : LimitOrder} (hid : order.id = ⟨g.nextId⟩)
    (howner : order.owner = ⟨0⟩) (hadmits : e.Admits (.limit order)) :
    Tracked (e.exec (.limit order)).engine order := by
  have hw := h.spaced.wellFormed
  have ha := admission hw hadmits
  have hunused : Unused e order.id := by
    apply h.unused
    rw [hid]
    exact Or.inr (UInt64.le_refl _)
  have hown : OwnId defaultClient (NewOrder.limit order).toCommand := by
    intro other hother
    cases hother
    exact howner.symm
  constructor
  case passed => exact passed_submit ha hown
  case accepted =>
    show _ ∈ (e.submit (.limit order)).engine.sink
    rw [ha.sink]
    exact List.mem_append_right _ List.mem_cons_self
  case accounted => exact Accounted.of_submit hunused ha
  case untouched =>
    have hbefore := hunused.account_eq
    unfold account at hbefore
    have hcommand : EngineCommand.limit order ≠ EngineCommand.cancel order.id := by
      intro hsame
      cases hsame
    rw [withdrawnUnits_exec hw h.plain hcommand]
    omega

theorem cancel (h : InStep g e) {candidates : List OrderId} {id : OrderId}
    (hperm : (id :: candidates).Perm g.assumedResting) :
    InStep { g with assumedResting := candidates } (e.exec (.cancel id)).engine := by
  have hw := h.spaced.wellFormed
  have hown : OwnId defaultClient (.cancel id) := by
    intro order horder
    cases horder
  have hdistinct := List.nodup_cons.mp (hperm.nodup_iff.mpr h.candidates.nodup)
  have hkept : (e.exec (.cancel id)).engine.stp = e.stp ∧
      (e.exec (.cancel id)).engine.lastAcceptedId = e.lastAcceptedId := by
    apply exec_induction (Q := fun e' => e'.stp = e.stp ∧ e'.lastAcceptedId = e.lastAcceptedId)
      hw ⟨rfl, rfl⟩
    · intro order hcommand
      cases order <;> cases hcommand
    · intro _ _ _ _ hc
      exact ⟨hc.stp, hc.lastAcceptedId⟩
  constructor
  case spaced => exact h.spaced.exec hown
  case plain =>
    rw [hkept.left]
    exact h.plain
  case positive =>
    apply exec_induction (Q := fun e' => forall s o, o ∈ e'.book.resting s ->
      Quantity.zero < o.quantity) hw h.positive
    · intro order hcommand
      cases order <;> cases hcommand
    · intro _ _ x _ hc s o ho
      rw [hc.without.resting_eq hw] at ho
      exact h.positive s o ((List.erase_sublist.map _).subset ho)
  case watermark =>
    rw [hkept.right]
    exact h.watermark
  case unused =>
    intro other hunused
    apply (h.unused other hunused).exec hw
    intro order horder
    cases horder
  case candidates => exact h.candidates.cancel hperm
  case tracked =>
    intro other hother
    rcases h.tracked other (hperm.mem_iff.mp (List.mem_cons_of_mem _ hother)) with
      ⟨order, rfl, ht⟩
    refine ⟨order, rfl, ht.exec hw h.plain hown ?_⟩
    intro hsame
    cases hsame
    exact hdistinct.left hother

end InStep

/--
A submission is accepted.  A cancel names an accepted limit order; it is
accepted unless the trades have taken all of the order, and then the order is
unknown.
-/
structure Answered (e : MatchingEngine) (command : EngineCommand) : Prop where
  submitted : forall order, command.newOrder? = some order ->
    (e.exec command).response.status = .accepted
  cancelled : forall id, command = .cancel id ->
    exists order : LimitOrder, order.id = id ∧ (NewOrder.limit order).acceptance ∈ e.sink ∧
      (e.exec command).response.status =
        if filledUnits id e.sink = order.quantity.units then .unknownOrderId
        else .accepted

theorem answered_submit {order : NewOrder} (hw : e.book.WellFormed) (hadmits : e.Admits order) :
    Answered e order.toCommand where
  submitted _ _ := by
    have hexec : e.exec order.toCommand = e.submit order := by cases order <;> rfl
    rw [hexec]
    exact (admission hw hadmits).status
  cancelled id hcommand := by
    cases order <;> cases hcommand

theorem InStep.answered_cancel {g : WorkloadGenerator} (h : InStep g e)
    (hid : id ∈ g.assumedResting) : Answered e (.cancel id) where
  submitted order horder := by cases horder
  cancelled cancelled hcommand := by
    cases hcommand
    rcases h.tracked id hid with ⟨order, rfl, ht⟩
    refine ⟨order, rfl, ht.accepted, ?_⟩
    show (e.cancel order.id).response.status = _
    cases hfind : e.book.findOrder order.id with
    | some x =>
        rcases cancel_some h.spaced.wellFormed hfind with ⟨s, hc⟩
        have hrest : e.book.data x ∈ e.book.resting s :=
          List.mem_map.mpr ⟨x, hc.resting, rfl⟩
        have hopen := ht.not_filled_of_resting hrest hc.id_eq (h.positive s _ hrest)
        rw [hc.response, if_neg hopen]
    | none =>
        rw [cancel_none hfind, if_pos (ht.filled_of_unknown h.spaced.indexed hfind)]
        rfl

namespace InStep

variable {g : WorkloadGenerator} {d : Draw}

theorem addLimit (h : InStep g e) (hquantity : Quantity.zero < d.quantity)
    (hstart : 0 < g.nextId.toNat) (hroom : g.nextId.toNat <= e.book.pool.capacity)
    (hnext : g.nextId.toNat + 1 < 2 ^ 64) :
    Answered e (g.addLimit d).1 ∧ InStep (g.addLimit d).2 (e.exec (g.addLimit d).1).engine := by
  let order : LimitOrder :=
    { id := ⟨g.nextId⟩, side := d.side, price := g.price d, quantity := d.quantity }
  have hadmits : e.Admits (.limit order) := by
    apply h.admits (.limit order) rfl rfl hquantity _ hstart hroom
    intro p hp
    cases hp
    exact g.price_pos d
  have hlimit : Tracked (e.exec (.limit order)).engine order :=
    h.tracked_limit rfl rfl hadmits
  refine ⟨answered_submit h.spaced.wellFormed hadmits, ?_⟩
  apply h.submit (.limit order) rfl rfl hadmits hstart hnext rfl
    (h.candidates.addLimit d hnext)
  intro id hid
  rcases List.mem_append.mp hid with hold | hnew
  · exact Or.inl hold
  · exact Or.inr ⟨order, (List.mem_singleton.mp hnew).symm, hlimit⟩

theorem addMarket (h : InStep g e) (hquantity : Quantity.zero < d.quantity)
    (hstart : 0 < g.nextId.toNat) (hroom : g.nextId.toNat <= e.book.pool.capacity)
    (hnext : g.nextId.toNat + 1 < 2 ^ 64) :
    Answered e (g.addMarket d).1 ∧
      InStep (g.addMarket d).2 (e.exec (g.addMarket d).1).engine := by
  let order : NewOrder :=
    .market { id := ⟨g.nextId⟩, side := d.side, quantity := d.quantity }
  have hadmits : e.Admits order := by
    apply h.admits order rfl rfl hquantity _ hstart hroom
    intro p hp
    cases hp
  refine ⟨answered_submit h.spaced.wellFormed hadmits, ?_⟩
  exact h.submit order rfl rfl hadmits hstart hnext rfl (h.candidates.addMarket d hnext)
    (fun id hid => Or.inl hid)

theorem next (h : InStep g e) (hquantity : Quantity.zero < d.quantity)
    (hstart : 0 < g.nextId.toNat) (hroom : g.nextId.toNat <= e.book.pool.capacity)
    (hnext : g.nextId.toNat + 1 < 2 ^ 64) :
    Answered e (g.next d).1 ∧ InStep (g.next d).2 (e.exec (g.next d).1).engine ∧
      g.nextId.toNat <= (g.next d).2.nextId.toNat ∧
      (g.next d).2.nextId.toNat <= g.nextId.toNat + 1 := by
  have hsucc := WorkloadGenerator.toNat_succ hnext
  rcases g.next_cases d with heq | heq | ⟨id, candidates, hperm, heq⟩
  · have hlater : (g.addLimit d).2.nextId.toNat = g.nextId.toNat + 1 := hsucc
    rcases h.addLimit hquantity hstart hroom hnext with ⟨hanswered, hstep⟩
    rw [heq]
    exact ⟨hanswered, hstep, by omega, by omega⟩
  · have hlater : (g.addMarket d).2.nextId.toNat = g.nextId.toNat + 1 := hsucc
    rcases h.addMarket hquantity hstart hroom hnext with ⟨hanswered, hstep⟩
    rw [heq]
    exact ⟨hanswered, hstep, by omega, by omega⟩
  · have hmem : id ∈ g.assumedResting := hperm.mem_iff.mp List.mem_cons_self
    rw [heq]
    exact ⟨h.answered_cancel hmem, h.cancel hperm, Nat.le_refl _, Nat.le_succ _⟩

theorem run (h : InStep g e) {draws : List Draw}
    (hquantity : forall d, d ∈ draws -> Quantity.zero < d.quantity)
    (hstart : 0 < g.nextId.toNat)
    (hroom : g.nextId.toNat + draws.length <= e.book.pool.capacity + 1)
    (hnext : g.nextId.toNat + draws.length < 2 ^ 64) :
    forall v, v ∈ e.visits (g.generate draws).1 -> Answered v.1 v.2 := by
  induction draws generalizing g e with
  | nil =>
      intro v hv
      cases hv
  | cons d draws ih =>
      rw [List.length_cons] at hroom hnext
      have hcapacity : (e.exec (g.next d).1).engine.book.pool.capacity =
          e.book.pool.capacity :=
        exec_induction (Q := fun e' => e'.book.pool.capacity = e.book.pool.capacity)
          h.spaced.wellFormed rfl _ (fun _ _ _ ha => ha.capacity)
          (fun _ _ _ _ hc => hc.without.capacity_eq)
      rcases h.next (hquantity d List.mem_cons_self) hstart (by omega) (by omega) with
        ⟨hanswered, hstep, hlow, hhigh⟩
      have hrest := ih hstep (fun d' hd' => hquantity d' (List.mem_cons_of_mem _ hd'))
        (by omega) (by omega) (by omega)
      intro v hv
      rcases List.mem_cons.mp hv with rfl | hlater
      · exact hanswered
      · exact hrest v hlater

end InStep
end MatchingEngine

/--
A generated workload runs as it is meant to.  On an engine without self-trade
prevention and with a slot for each event, whatever the distributions draw,
every generated order is accepted, every cancel is accepted unless its order has
been filled completely and is unknown, and no order is cancelled twice.
-/
theorem generated_workload_runs (config : WorkloadConfig) (draws : List Draw) (raw : Memory)
    (capacity : UInt64) (stp : StpConfig) (hstp : stp.enabled = false)
    (hmin : Quantity.zero < config.quantityMin)
    (hdraws : forall d, d ∈ draws -> d.Within config)
    (hroom : draws.length <= capacity.toNat) (hcount : draws.length + 1 < 2 ^ 64) :
    let events := (WorkloadGenerator.generate { config := config } draws).1
    (forall v, v ∈ (MatchingEngine.new raw capacity stp).visits events ->
      MatchingEngine.Answered v.1 v.2) ∧
      (events.filterMap EngineCommand.cancelled?).Nodup := by
  intro events
  have hstart : MatchingEngine.InStep { config := config }
      (MatchingEngine.new raw capacity stp) := MatchingEngine.InStep.new config raw capacity hstp
  have hcapacity : (MatchingEngine.new raw capacity stp).book.pool.capacity = capacity.toNat :=
    (OrderPool.new_spec raw capacity).left
  have hone : (1 : UInt64).toNat = 1 := rfl
  constructor
  · apply hstart.run
    · intro d hd
      exact lt_of_lt_of_le hmin (hdraws d hd).left
    · exact Nat.one_pos
    · rw [hcapacity, hone]
      omega
    · rw [hone]
      omega
  · apply (hstart.candidates.cancelled _).left
    rw [hone]
    omega

def soldOutDraws : List Draw :=
  [{ kind := .addLimit, side := .sell, offset := 2, above := true
     quantity := ⟨3⟩, index := 0 },
    { kind := .addLimit, side := .sell, offset := 5, above := true
      quantity := ⟨3⟩, index := 0 },
    { kind := .addMarket, side := .buy, offset := 0, above := true
      quantity := ⟨3⟩, index := 0 },
    { kind := .cancel, side := .buy, offset := 0, above := true
      quantity := ⟨1⟩, index := 4 },
    { kind := .cancel, side := .buy, offset := 0, above := true
      quantity := ⟨1⟩, index := 9 },
    { kind := .cancel, side := .buy, offset := 0, above := false
      quantity := ⟨1⟩, index := 0 }]

def soldOutConfig : WorkloadConfig where
  midPrice := ⟨100⟩
  quantityMin := ⟨1⟩
  quantityMax := ⟨10⟩

theorem generated_workload_runs_soldOut :
    let events := (WorkloadGenerator.generate { config := soldOutConfig } soldOutDraws).1
    let e := MatchingEngine.new Memory.zeroed 8 {}
    ((forall v, v ∈ e.visits events -> MatchingEngine.Answered v.1 v.2) ∧
      (events.filterMap EngineCommand.cancelled?).Nodup) ∧
      (e.visits events).map (fun v => (v.1.exec v.2).response.status) =
        [.accepted, .accepted, .accepted, .unknownOrderId, .accepted, .accepted] := by
  refine ⟨?_, by decide +kernel⟩
  apply generated_workload_runs
  · rfl
  · decide
  · unfold Draw.Within
    decide
  · decide
  · decide

end MiniExchange
