import Mathlib.Data.List.TakeWhile
import MiniExchange.Engine.Conservation
import MiniExchange.Engine.IdIndex
import MiniExchange.Fix.Session
import MiniExchange.Risk.RiskEngine

/-!
# Order status

OrdStatus is derived from the fills alone.  For a limit order it tells whether
the order rests in the book.  The remainder of a market order is discarded, and
is reported as if it were working.
-/

namespace MiniExchange
namespace Fix

open Foundation
open TextProtocol (ascii decimal)

def ReportsWorking (fields : TagMap) : Prop :=
  fields.get 39 = some (ascii "0") ∨ fields.get 39 = some (ascii "1")

/-- The order rests in the book, with the reported LeavesQty as its quantity. -/
def Rests (b : OrderBook) (order : NewOrder) (fields : TagMap) : Prop :=
  exists o, o ∈ b.resting order.side ∧ o.id = order.id ∧ o.owner = order.owner ∧
    fields.get 151 = some (decimal o.quantity.units)

def identity (o : RestingOrder) : RestingOrder :=
  { o with quantity := Quantity.zero }

def NoneAdded (b b' : OrderBook) : Prop :=
  forall s, List.Sublist ((b'.resting s).map identity) ((b.resting s).map identity)

def Told (b b' : OrderBook) (order : NewOrder) (fields : TagMap) : Prop :=
  (ReportsWorking fields -> Rests b' order fields) ∧
    (¬ ReportsWorking fields -> NoneAdded b b')

/-- Every report to a `35=D` message tells whether the order works in the book. -/
def StatusTells {σ : Type} (api : EngineApi σ) (core : σ -> MatchingEngine)
    (session : FixSession σ) (now : UtcTime) (raw : List UInt8) : Prop :=
  forall order, session.receive raw = .ok (.newOrder order) ->
    (session.handleMessage api now raw).1 = .ok
        (frame (appendFields (session.report api now (.newOrder order)))) ∧
      Told (core session.engine).book (core (session.handleMessage api now raw).2.engine).book
        order (session.report api now (.newOrder order))

/-!
## Status and fills
-/

theorem reportsWorking_iff (encoder : FixEncoder) (now : UtcTime) (ctx : ExecReportContext)
    (response : EngineResponse) :
    ReportsWorking (encoder.reportFields now ctx response) <->
      ordStatusFor response ctx.originalQty ctx.isCancel = .new ∨
        ordStatusFor response ctx.originalQty ctx.isCancel = .partiallyFilled := by
  have hstatus : TagMap.get (encoder.reportFields now ctx response) 39 =
      some (ordStatusFor response ctx.originalQty ctx.isCancel).text := rfl
  unfold ReportsWorking
  rw [hstatus]
  cases ordStatusFor response ctx.originalQty ctx.isCancel <;> decide

theorem get_leavesQty (encoder : FixEncoder) (now : UtcTime) (ctx : ExecReportContext)
    (response : EngineResponse) :
    TagMap.get (encoder.reportFields now ctx response) 151 =
      some (decimal response.remainingQty.units) :=
  rfl

theorem not_reportsWorking {response : EngineResponse}
    (h : response.status ≠ .accepted) (encoder : FixEncoder) (now : UtcTime)
    (ctx : ExecReportContext) : ¬ ReportsWorking (encoder.reportFields now ctx response) := by
  have hrejected : ordStatusFor response ctx.originalQty ctx.isCancel = .rejected :=
    if_pos h
  rw [reportsWorking_iff, hrejected]
  decide

theorem toNat_totalFilled (response : EngineResponse) :
    (totalFilled response).toNat = MatchingEngine.tradedUnits response % 2 ^ 64 := by
  have hfold : forall (trades : List Trade) (filled : UInt64),
      (trades.foldl (fun filled trade => filled + trade.quantity.value) filled).toNat =
        (filled.toNat + (trades.map (fun t => t.quantity.units)).sum) % 2 ^ 64 := by
    intro trades
    induction trades with
    | nil =>
        intro filled
        exact (Nat.mod_eq_of_lt filled.toNat_lt).symm
    | cons trade trades ih =>
        intro filled
        rw [List.foldl_cons, ih, UInt64.toNat_add, Nat.mod_add_mod, List.map_cons,
          List.sum_cons, Nat.add_assoc]
        rfl
  have hsum := hfold response.trades 0
  rw [UInt64.toNat_zero, Nat.zero_add] at hsum
  exact hsum

section Engine

variable {e : MatchingEngine} {order : NewOrder}

theorem reportsWorking_admitted (hadmits : e.Admits order)
    (ha : MatchingEngine.Admission e order (e.submit order)) (encoder : FixEncoder)
    (now : UtcTime) :
    ReportsWorking (encoder.reportFields now (contextFromNewOrder order)
      (e.submit order).response) <-> Quantity.zero < (e.sweepOf order).remaining := by
  have hfilled := toNat_totalFilled (e.submit order).response
  have htotal := MatchingEngine.traded_add_remaining ha
  have hbound := order.quantity.units_lt
  rw [Nat.mod_eq_of_lt (by omega)] at hfilled
  rw [ha.remainingQty] at htotal
  have hpos := Quantity.zero_lt_iff.mp hadmits.quantity_pos
  rw [reportsWorking_iff, Quantity.zero_lt_iff]
  unfold ordStatusFor contextFromNewOrder
  rw [if_neg (not_not_intro ha.status), if_neg Bool.false_ne_true]
  by_cases hnone : totalFilled (e.submit order).response = 0
  · rw [if_pos hnone]
    rw [hnone, UInt64.toNat_zero] at hfilled
    exact ⟨fun _ => by omega, fun _ => Or.inl rfl⟩
  · rw [if_neg hnone]
    by_cases hall : order.quantity.value <= totalFilled (e.submit order).response
    · rw [if_pos hall]
      rw [UInt64.le_iff_toNat_le, hfilled] at hall
      replace hall : order.quantity.units <= _ := hall
      refine ⟨?_, fun hremains => by omega⟩
      rintro (h | h) <;> cases h
    · rw [if_neg hall]
      rw [UInt64.le_iff_toNat_le, hfilled] at hall
      replace hall : ¬ order.quantity.units <= _ := hall
      exact ⟨fun _ => by omega, fun _ => Or.inr rfl⟩

/-!
## Orders in the book
-/

theorem noneAdded_refl (b : OrderBook) : NoneAdded b b :=
  fun _ => List.Sublist.refl _

theorem noneAdded_of_restedBy (ha : MatchingEngine.Admission e order (e.submit order))
    (h : e.restedBy order = none) : NoneAdded e.book (e.submit order).engine.book := by
  intro s
  rcases Side.eq_or_eq_opposite order.side s with rfl | rfl
  · rw [ha.own, h]
    exact List.Sublist.refl _
  · have hswept : (Action.removed (e.sweepOf order).actions).map identity ++
        (e.sweepOf order).left.map identity =
          (e.book.resting order.side.opposite).map identity :=
      Incoming.map_removed_append_left identity (fun _ _ => rfl) order.quantity _
    rw [ha.opposing, ← hswept]
    exact List.sublist_append_right _ _

theorem rests_limit {lo : LimitOrder}
    (ha : MatchingEngine.Admission e (.limit lo) (e.submit (.limit lo)))
    (hremains : Quantity.zero < (e.sweepOf (.limit lo)).remaining)
    (encoder : FixEncoder) (now : UtcTime) (ctx : ExecReportContext) :
    Rests (e.submit (.limit lo)).engine.book (.limit lo)
      (encoder.reportFields now ctx (e.submit (.limit lo)).response) := by
  cases hrest : e.restedBy (.limit lo) with
  | none => exact absurd hremains (MatchingEngine.restedBy_none hrest)
  | some o =>
      rcases MatchingEngine.restedBy_some hrest with ⟨lo', heq, -, ho⟩
      cases heq
      refine ⟨o, ?_, by rw [ho]; rfl, by rw [ho]; rfl, ?_⟩
      · have hown := ha.own
        rw [hrest] at hown
        rw [hown]
        exact (MatchingEngine.queue_perm _ _ _).mem_iff.mpr List.mem_cons_self
      · rw [get_leavesQty, ha.remainingQty, ho]

theorem not_rests_market {mo : MarketOrder} (hwater : Watermarked e)
    (hadmits : e.Admits (.market mo))
    (ha : MatchingEngine.Admission e (.market mo) (e.submit (.market mo)))
    (fields : TagMap) :
    ¬ Rests (e.submit (.market mo)).engine.book (.market mo) fields := by
  rintro ⟨o, ho, hid, howner, -⟩
  have hown : (e.submit (.market mo)).engine.book.resting mo.side =
      e.book.resting mo.side := ha.own
  replace ho : o ∈ (e.submit (.market mo)).engine.book.resting mo.side := ho
  rw [hown] at ho
  rcases List.mem_map.mp ho with ⟨x, hx, rfl⟩
  rcases hwater mo.side x hx with ⟨w, hw, hle⟩
  rw [howner] at hw
  have hlt := Watermarked.lt_of_admits hadmits hw
  rw [hid] at hle
  exact UInt64.not_le.mpr hlt hle

/-- The quantity that other clients, or all where no own order is pulled, offer to an order. -/
def offered (e : MatchingEngine) (order : NewOrder) : Nat :=
  volume (fun _ => true)
    ((e.book.resting order.side.opposite).filter (fun o => !order.pulls e.stp o))

theorem remaining_market (e : MatchingEngine) (mo : MarketOrder) :
    (e.sweepOf (.market mo)).remaining.units =
      mo.quantity.units - offered e (.market mo) := by
  have hall : forall orders : List RestingOrder,
      orders.takeWhile (fun o => !(NewOrder.market mo).incoming.beyondLimit o.price) = orders :=
    fun _ => List.takeWhile_eq_self_iff.mpr fun _ _ => rfl
  have hremaining : (e.sweepOf (.market mo)).remaining.units = _ :=
    Incoming.remaining_sweep_others _ _
  rw [hall] at hremaining
  exact hremaining

/-- When the report to an order tells whether the order works. -/
theorem told_submit_iff (hw : e.book.WellFormed) (hwater : Watermarked e) (order : NewOrder)
    (encoder : FixEncoder) (now : UtcTime) :
    Told e.book (e.submit order).engine.book order
        (encoder.reportFields now (contextFromNewOrder order) (e.submit order).response) <->
      order.limitPrice.isSome = true ∨ ¬ e.Admits order ∨
        order.quantity.units <= offered e order := by
  by_cases hadmits : e.Admits order
  · have ha := MatchingEngine.admission hw hadmits
    have hworking := reportsWorking_admitted hadmits ha encoder now
    cases order with
    | limit lo =>
        refine ⟨fun _ => Or.inl rfl, fun _ => ⟨?_, ?_⟩⟩
        · intro hreports
          exact rests_limit ha (hworking.mp hreports) encoder now _
        · intro hreports
          refine noneAdded_of_restedBy ha ?_
          exact if_neg (mt hworking.mpr hreports)
    | market mo =>
        have hremaining := remaining_market e mo
        rw [Quantity.zero_lt_iff] at hworking
        constructor
        · rintro ⟨hrests, -⟩
          have hreports := mt hrests (not_rests_market hwater hadmits ha _)
          rw [hworking] at hreports
          right
          right
          show mo.quantity.units <= _
          omega
        · rintro (hlimit | hnot | hle)
          · cases hlimit
          · exact absurd hadmits hnot
          · replace hle : mo.quantity.units <= _ := hle
            refine ⟨fun hreports => ?_, fun _ => noneAdded_of_restedBy ha rfl⟩
            have hremains := hworking.mp hreports
            omega
  · refine ⟨fun _ => Or.inr (Or.inl hadmits), fun _ => ?_⟩
    rcases MatchingEngine.submit_of_not_admits hadmits with ⟨status, hstatus, hcall⟩
    rw [hcall]
    exact ⟨fun hreports => absurd hreports (not_reportsWorking hstatus encoder now _),
      fun _ => noneAdded_refl _⟩

end Engine

/-!
## Engines behind a session
-/

structure Wraps {σ : Type} (api : EngineApi σ) (core : σ -> MatchingEngine)
    (refuses : σ -> NewOrder -> Prop) : Prop where
  refused : forall s order, refuses s order ->
    (api.submit s order).1.status ≠ .accepted ∧
      core (api.submit s order).2 = core s
  submitted : forall s order, ¬ refuses s order ->
    (api.submit s order).1 = ((core s).submit order).response ∧
      core (api.submit s order).2 = ((core s).submit order).engine
  cancelled : forall s id, core (api.cancel s id).2 = ((core s).cancel id).engine

theorem wraps_matchingEngine : Wraps MatchingEngine.api (fun e => e) (fun _ _ => False) where
  refused _ _ h := h.elim
  submitted _ _ _ := ⟨rfl, rfl⟩
  cancelled _ _ := rfl

def FailsCheck (r : RiskEngine MatchingEngine) (order : NewOrder) : Prop :=
  r.runChecks order.quantity order.limitPrice ≠ .accepted

theorem wraps_riskEngine :
    Wraps (RiskEngine.api MatchingEngine.api) (fun r => r.inner) FailsCheck where
  refused r order h := by
    have hsubmit : RiskEngine.submit MatchingEngine.api r order =
        (EngineResponse.rejected (r.runChecks order.quantity order.limitPrice) order.id, r) :=
      if_pos h
    show (RiskEngine.submit MatchingEngine.api r order).1.status ≠ _ ∧
      (RiskEngine.submit MatchingEngine.api r order).2.inner = _
    rw [hsubmit]
    exact ⟨h, rfl⟩
  submitted r order h := by
    have hsubmit : RiskEngine.submit MatchingEngine.api r order =
        ((r.inner.submit order).response,
          ({ r with inner := (r.inner.submit order).engine }).updateReferenceFrom
            (r.inner.submit order).response) :=
      if_neg h
    show (RiskEngine.submit MatchingEngine.api r order).1 = _ ∧
      (RiskEngine.submit MatchingEngine.api r order).2.inner = _
    rw [hsubmit]
    exact ⟨rfl, (RiskEngine.updateReferenceFrom_kept _ _).left⟩
  cancelled _ _ := rfl

structure Sound (e : MatchingEngine) : Prop where
  wellFormed : e.book.WellFormed
  watermarked : Watermarked e

theorem sound_new (memory : Memory) (capacity : UInt64) (stp : StpConfig) :
    Sound (MatchingEngine.new memory capacity stp) :=
  ⟨(IndexInvariant.new memory capacity stp).wellFormed,
    (IndexInvariant.new memory capacity stp).watermarked⟩

theorem Sound.exec {e : MatchingEngine} (h : Sound e) (command : EngineCommand) :
    Sound (e.exec command).engine where
  wellFormed := MatchingEngine.exec_wellFormed h.wellFormed command
  watermarked :=
    MatchingEngine.exec_induction (Q := Watermarked) h.wellFormed h.watermarked command
      (fun _ _ hadmits _ => h.watermarked.submit h.wellFormed hadmits)
      (fun _ _ _ _ hc => h.watermarked.cancel h.wellFormed hc)

section Wraps

variable {σ : Type} {api : EngineApi σ} {core : σ -> MatchingEngine}
  {refuses : σ -> NewOrder -> Prop}

theorem Wraps.submit_sound (h : Wraps api core refuses) {s : σ} (hs : Sound (core s))
    (order : NewOrder) : Sound (core (api.submit s order).2) := by
  by_cases hrefuses : refuses s order
  · rw [(h.refused s order hrefuses).right]
    exact hs
  · rw [(h.submitted s order hrefuses).right]
    cases order with
    | limit lo => exact hs.exec (.limit lo)
    | market mo => exact hs.exec (.market mo)

theorem Wraps.exec_sound (h : Wraps api core refuses) (s : σ) (command : EngineCommand)
    (hs : Sound (core s)) : Sound (core (api.exec s command).2) := by
  cases command with
  | limit lo => exact h.submit_sound hs (.limit lo)
  | market mo => exact h.submit_sound hs (.market mo)
  | cancel id =>
      show Sound (core (api.cancel s id).2)
      rw [h.cancelled s id]
      exact hs.exec (.cancel id)

/-- The order is a limit order, or it is refused or rejected, or the book can fill it. -/
def Tellable (core : σ -> MatchingEngine) (refuses : σ -> NewOrder -> Prop) (s : σ)
    (order : NewOrder) : Prop :=
  order.limitPrice.isSome = true ∨ refuses s order ∨ ¬ (core s).Admits order ∨
    order.quantity.units <= offered (core s) order

/-- When the reports to the `35=D` messages of a session tell whether the orders work. -/
theorem Wraps.statusTells_iff (h : Wraps api core refuses) {session : FixSession σ}
    (hsound : Sound (core session.engine)) (now : UtcTime) (raw : List UInt8) :
    StatusTells api core session now raw <->
      forall order, session.receive raw = .ok (.newOrder order) ->
        Tellable core refuses session.engine order := by
  refine forall_congr' fun order => forall_congr' fun hreceive => ?_
  rcases FixSession.handleMessage_ok api now hreceive with ⟨hreport, hengine⟩
  rw [and_iff_right hreport, hengine]
  unfold Tellable
  by_cases hrefuses : refuses session.engine order
  · refine ⟨fun _ => Or.inr (Or.inl hrefuses), fun _ => ?_⟩
    rcases h.refused session.engine order hrefuses with ⟨hstatus, hcore⟩
    refine ⟨fun hreports => absurd hreports (not_reportsWorking hstatus _ _ _), fun _ => ?_⟩
    show NoneAdded _ (core (api.submit session.engine order).2).book
    rw [hcore]
    exact noneAdded_refl _
  · rcases h.submitted session.engine order hrefuses with ⟨hresponse, hcore⟩
    have htold := told_submit_iff hsound.wellFormed hsound.watermarked order session.encoder now
    rw [← hresponse, ← hcore] at htold
    rw [or_iff_right hrefuses]
    exact htold

end Wraps

/--
In every state of a session over a matching engine, or over a risk layer around
one, the report to an order tells whether the order works in the book exactly
if the order is a limit order, or is not accepted, or is a market order that
the book can fill.
-/
theorem status_tells_working_iff (memory : Memory) (capacity : UInt64) (stp : StpConfig)
    (config : RiskConfig) (clientId : ClientId) (ourCompId peerCompId : List UInt8)
    (inputs : List FixSession.Input) (now : UtcTime) (raw : List UInt8) :
    let bare := MatchingEngine.new memory capacity stp
    let session := (FixSession.new bare clientId ourCompId peerCompId).run
      MatchingEngine.api inputs
    let checked := (FixSession.new (RiskEngine.new bare config) clientId ourCompId
      peerCompId).run (RiskEngine.api MatchingEngine.api) inputs
    (StatusTells MatchingEngine.api (fun e => e) session now raw <->
      forall order, session.receive raw = .ok (.newOrder order) ->
        Tellable (fun e => e) (fun _ _ => False) session.engine order) ∧
    (StatusTells (RiskEngine.api MatchingEngine.api) (fun r => r.inner) checked now raw <->
      forall order, checked.receive raw = .ok (.newOrder order) ->
        Tellable (fun r => r.inner) FailsCheck checked.engine order) := by
  intro bare session checked
  have hnew := sound_new memory capacity stp
  constructor
  · refine wraps_matchingEngine.statusTells_iff ?_ now raw
    exact FixSession.run_engine_invariant (P := fun e => Sound e)
      wraps_matchingEngine.exec_sound hnew inputs
  · refine wraps_riskEngine.statusTells_iff ?_ now raw
    exact FixSession.run_engine_invariant (P := fun r => Sound (RiskEngine.inner r))
      wraps_riskEngine.exec_sound hnew inputs

namespace DiscardedRemainder

def engine : MatchingEngine :=
  MatchingEngine.new Memory.zeroed 4 { enabled := false, policy := .rejectIncoming }

def offer : FixSession.Input :=
  FixSession.Input.call (.limit
    { id := ⟨1⟩, side := .sell, price := ⟨100⟩, quantity := ⟨3⟩, owner := ⟨2⟩ })

def session : FixSession MatchingEngine :=
  (FixSession.new engine ⟨1⟩ (ascii "MINI") (ascii "PEER")).run MatchingEngine.api [offer]

def now : UtcTime where
  year := 2026
  month := 1
  day := 2
  hour := 3
  minute := 4
  second := 5

def limitBuy : List UInt8 :=
  Delimited.terminated soh
    [ascii "8=FIX.4.2", ascii "9=40", ascii "35=D", ascii "11=1", ascii "55=MINI", ascii "54=1",
      ascii "38=5", ascii "40=2", ascii "44=100", ascii "10=075"]

theorem limit_buy_told : StatusTells MatchingEngine.api (fun e => e) session now limitBuy := by
  refine (status_tells_working_iff Memory.zeroed 4
    { enabled := false, policy := .rejectIncoming } { priceBand := none } ⟨1⟩
    (ascii "MINI") (ascii "PEER") [offer] now limitBuy).left.mpr ?_
  intro order hreceive
  have hlimit : session.receive limitBuy = .ok (.newOrder (.limit
      { id := ⟨1⟩, side := .buy, price := ⟨100⟩, quantity := ⟨5⟩, owner := ⟨1⟩ })) := by
    decide +kernel
  cases hlimit.symm.trans hreceive
  exact Or.inl rfl

def marketBuy : List UInt8 :=
  Delimited.terminated soh
    [ascii "8=FIX.4.2", ascii "9=33", ascii "35=D", ascii "11=1", ascii "55=MINI", ascii "54=1",
      ascii "38=5", ascii "40=1", ascii "10=021"]

def marketOrder : NewOrder :=
  .market { id := ⟨1⟩, side := .buy, quantity := ⟨5⟩, owner := ⟨1⟩ }

/-- Two units are reported as open in a book without any order. -/
theorem remainder_reported_working :
    session.receive marketBuy = .ok (.newOrder marketOrder) ∧
      TagMap.get (session.report MatchingEngine.api now (.newOrder marketOrder)) 39 =
        some (ascii "1") ∧
      TagMap.get (session.report MatchingEngine.api now (.newOrder marketOrder)) 151 =
        some (ascii "2") ∧
      (session.handleMessage MatchingEngine.api now marketBuy).2.engine.book.resting .buy =
        [] ∧
      (session.handleMessage MatchingEngine.api now marketBuy).2.engine.book.resting .sell =
        [] ∧
      ¬ StatusTells MatchingEngine.api (fun e => e) session now marketBuy := by
  have hreceive : session.receive marketBuy = .ok (.newOrder marketOrder) := by
    decide +kernel
  have hstatus : TagMap.get (session.report MatchingEngine.api now
      (.newOrder marketOrder)) 39 = some (ascii "1") := by
    decide +kernel
  have hbook : (session.handleMessage MatchingEngine.api now marketBuy).2.engine.book.resting
      .buy = [] := by
    decide +kernel
  refine ⟨hreceive, hstatus, by decide +kernel, hbook, by decide +kernel, ?_⟩
  intro htells
  rcases (htells marketOrder hreceive).right.left (Or.inr hstatus) with ⟨o, ho, -⟩
  replace ho : o ∈ (session.handleMessage MatchingEngine.api now marketBuy).2.engine.book.resting
    .buy := ho
  rw [hbook] at ho
  cases ho

end DiscardedRemainder

end Fix
end MiniExchange
