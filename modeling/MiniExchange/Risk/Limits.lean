import MiniExchange.Engine.BookInvariant
import MiniExchange.Engine.OrderLedger
import MiniExchange.Risk.Filter

/-!
# Risk limits over whole runs

The checks look at one incoming order at a time.  What they establish holds of
everything behind them at any later time: of every order at rest, of every trade
that was ever made, and of the price that the band is drawn around.
-/

namespace MiniExchange

open Foundation

structure RiskConfig.AllowsPrice (config : RiskConfig) (price : Price) : Prop where
  pos : Price.zero < price
  aligned : 0 < config.tickSize.value -> price.value % config.tickSize.value = 0

structure RiskConfig.Allows (config : RiskConfig) (command : EngineCommand) : Prop where
  quantity_le : forall order, command.newOrder? = some order ->
    order.quantity <= config.maxOrderQty
  aligned : forall order, command = .limit order -> 0 < config.tickSize.value ->
    order.price.value % config.tickSize.value = 0

namespace RiskEngine

variable {σ : Type}

theorem aligned_of_passes {r : RiskEngine σ} {order : LimitOrder}
    (h : r.passes (.limit order) = true) (htick : 0 < r.config.tickSize.value) :
    order.price.value % r.config.tickSize.value = 0 := by
  have hchecks : r.runChecks order.quantity (some order.price) = .accepted :=
    of_decide_eq_true h
  by_contra hmisaligned
  have hcheck : r.checkTickSize order.price = .tickSizeMisaligned := by
    unfold checkTickSize
    rw [if_neg (Int64.not_le.mpr htick), if_pos hmisaligned]
  unfold runChecks at hchecks
  split at hchecks
  · next hfat => exact hfat hchecks
  · simp [hcheck] at hchecks

theorem allows_of_passes {r : RiskEngine σ} {command : EngineCommand}
    (h : r.passes command = true) : r.config.Allows command where
  quantity_le order horder := quantity_le_of_passes h horder
  aligned order horder htick := by
    rw [horder] at h
    exact aligned_of_passes h htick

end RiskEngine

/-!
## Behind the checks
-/

namespace MatchingEngine

structure WithinLimits (config : RiskConfig) (e : MatchingEngine) : Prop where
  resting : forall s o, o ∈ e.book.resting s ->
    config.AllowsPrice o.price ∧ o.quantity <= config.maxOrderQty
  trades : forall trade, .onTrade trade ∈ e.sink ->
    config.AllowsPrice trade.price ∧ trade.quantity <= config.maxOrderQty

variable {config : RiskConfig} {e : MatchingEngine}

theorem WithinLimits.submit {order : NewOrder} (h : WithinLimits config e)
    (hallows : config.Allows order.toCommand) (hadmits : e.Admits order)
    (ha : Admission e order (e.submit order)) : WithinLimits config (e.submit order).engine where
  resting := by
    apply submit_resting
      (P := fun o => config.AllowsPrice o.price ∧ o.quantity <= config.maxOrderQty)
      _ h.resting ha
    · intro o hrest
      rcases restedBy_some hrest with ⟨lo, rfl, hpos, rfl⟩
      have hle : lo.quantity <= config.maxOrderQty :=
        hallows.quantity_le (.limit lo) rfl
      have hsum := sweepOf_filled e (.limit lo)
      refine ⟨⟨hadmits.price_pos lo.price rfl, hallows.aligned lo rfl⟩, le_trans ?_ hle⟩
      rw [Quantity.le_iff]
      exact Nat.le.intro ((Nat.add_comm _ _).trans hsum)
    · rintro o q ⟨hprice, hquantity⟩ hle _
      exact ⟨hprice, le_trans hle hquantity⟩
  trades trade htrade := by
    rcases submit_events ha htrade with hold | hnew | ⟨o, remaining, sequence, ho, -, heq⟩ |
      ⟨o, -, heq⟩
    · exact h.trades trade hold
    · cases hnew
    · cases heq
      rcases h.resting _ o ho with ⟨hprice, hquantity⟩
      exact ⟨hprice, le_trans (Incoming.fillQty_le_resting remaining o.quantity) hquantity⟩
    · cases heq

theorem WithinLimits.cancel {id : OrderId} {s : Side} {x : Slot} (h : WithinLimits config e)
    (hw : e.book.WellFormed) (hc : Cancellation e id s x (e.cancel id)) :
    WithinLimits config (e.cancel id).engine where
  resting t o ho := by
    rw [hc.without.resting_eq hw] at ho
    exact h.resting t o ((List.erase_sublist.map _).subset ho)
  trades trade htrade := by
    rw [hc.sink] at htrade
    rcases List.mem_append.mp htrade with hold | hnew
    · exact h.trades trade hold
    · cases List.mem_singleton.mp hnew

theorem WithinLimits.exec {command : EngineCommand} (h : WithinLimits config e)
    (hw : e.book.WellFormed) (hallows : config.Allows command) :
    WithinLimits config (e.exec command).engine := by
  apply exec_induction (Q := WithinLimits config) hw h command
  · intro order hcommand hadmits ha
    exact h.submit (hcommand ▸ hallows) hadmits ha
  · intro id s x _ hc
    exact h.cancel hw hc

theorem announced_of_mem_trades (hw : e.book.WellFormed) {command : EngineCommand}
    {trade : Trade} (h : trade ∈ (e.exec command).response.trades) :
    .onTrade trade ∈ (e.exec command).engine.sink := by
  rcases exec_cases hw command with ⟨status, id, -, hcall⟩ | ⟨order, rfl, hcall, -, ha⟩ |
    ⟨id, s, x, rfl, hc⟩
  · rw [hcall] at h
    cases h
  · rw [hcall, ha.trades] at h
    rw [hcall, ha.sink]
    apply List.mem_append_right
    apply List.mem_cons_of_mem
    rw [← Action.trade_events, List.mem_filterMap] at h
    rcases h with ⟨event, hevent, htrade⟩
    cases event with
    | onTrade other =>
        cases htrade
        exact hevent
    | onOrderAccepted accepted => cases htrade
    | onOrderCancelled cancelled => cases htrade
  · have htrades : (e.exec (.cancel id)).response.trades = [] := by
      show (e.cancel id).response.trades = []
      rw [hc.response]
    rw [htrades] at h
    cases h

end MatchingEngine

/-!
## Runs of the risk layer
-/

namespace RiskEngine

structure Guarded (config : RiskConfig) (r : RiskEngine MatchingEngine) : Prop where
  config_eq : r.config = config
  wellFormed : r.inner.book.WellFormed
  withinLimits : MatchingEngine.WithinLimits config r.inner
  reference : r.referencePrice = config.initialReferencePrice ∨
    config.AllowsPrice r.referencePrice

variable {config : RiskConfig} {r : RiskEngine MatchingEngine}

theorem Guarded.forward (h : Guarded config r) {command : EngineCommand}
    (hallows : config.Allows command) :
    Guarded config { r with
      inner := (r.inner.exec command).engine
      referencePrice := referenceAfter r.referencePrice (r.inner.exec command).response } where
  config_eq := h.config_eq
  wellFormed := MatchingEngine.exec_wellFormed h.wellFormed command
  withinLimits := h.withinLimits.exec h.wellFormed hallows
  reference := by
    have hlimits := h.withinLimits.exec h.wellFormed hallows
    show referenceAfter r.referencePrice _ = _ ∨ config.AllowsPrice (referenceAfter _ _)
    unfold referenceAfter
    cases hlast : (r.inner.exec command).response.trades.getLast? with
    | none => exact h.reference
    | some trade =>
        have hmem := List.mem_of_getLast? hlast
        have hannounced := MatchingEngine.announced_of_mem_trades h.wellFormed hmem
        exact Or.inr (hlimits.trades trade hannounced).left

theorem Guarded.exec (h : Guarded config r) (command : EngineCommand) :
    Guarded config ((api MatchingEngine.api).exec r command).2 := by
  by_cases hpasses : r.passes command = true
  · have hallows : config.Allows command := h.config_eq ▸ allows_of_passes hpasses
    have hforward := h.forward hallows
    rcases exec_cases MatchingEngine.api_quietRejections r command with
      ⟨-, -, hsame⟩ | ⟨-, hstate⟩
    · rw [hsame]
      exact h
    · rw [hstate, MatchingEngine.api_exec]
      exact hforward
  · have hsame : ((api MatchingEngine.api).exec r command).2 = r := by
      unfold passes at hpasses
      cases command with
      | cancel id => exact absurd rfl hpasses
      | limit order =>
          have hcheck : r.runChecks order.quantity (some order.price) ≠ .accepted :=
            fun heq => hpasses (decide_eq_true heq)
          exact congrArg Prod.snd (if_pos hcheck)
      | market order =>
          have hcheck : r.runChecks order.quantity none ≠ .accepted :=
            fun heq => hpasses (decide_eq_true heq)
          exact congrArg Prod.snd (if_pos hcheck)
    rw [hsame]
    exact h

theorem guarded_new (raw : Memory) (capacity : UInt64) (stp : StpConfig)
    (config : RiskConfig) :
    Guarded config (RiskEngine.new (MatchingEngine.new raw capacity stp) config) where
  config_eq := rfl
  wellFormed := OrderBook.WellFormed.new raw capacity
  withinLimits := by
    constructor
    · intro s o ho
      have hempty : (MatchingEngine.new raw capacity stp).book.resting s = [] :=
        OrderBook.WellFormed.resting_new raw capacity s
      have ho : o ∈ (MatchingEngine.new raw capacity stp).book.resting s := ho
      rw [hempty] at ho
      cases ho
    · intro trade htrade
      cases htrade
  reference := Or.inl rfl

end RiskEngine

/--
Behind a risk layer every order that rests and every trade that was made, at any
time of any run, has a positive price that is a multiple of the tick size and a
quantity of at most the configured maximum; and the price around which the band
is drawn is the configured one or such a price.
-/
theorem risk_limits_hold (raw : Memory) (capacity : UInt64) (stp : StpConfig)
    (config : RiskConfig) (commands : List EngineCommand) :
    let r := RiskEngine.run MatchingEngine.api
      (RiskEngine.new (MatchingEngine.new raw capacity stp) config) commands
    (forall s o, o ∈ r.inner.book.resting s ->
      config.AllowsPrice o.price ∧ o.quantity <= config.maxOrderQty) ∧
    (forall trade, .onTrade trade ∈ r.inner.sink ->
      config.AllowsPrice trade.price ∧ trade.quantity <= config.maxOrderQty) ∧
    (r.referencePrice = config.initialReferencePrice ∨
      config.AllowsPrice r.referencePrice) := by
  intro r
  have h : RiskEngine.Guarded config r :=
    Machine.run_invariant (fun _ command h => h.exec command)
      (RiskEngine.guarded_new raw capacity stp config) commands
  exact ⟨h.withinLimits.resting, h.withinLimits.trades, h.reference⟩

end MiniExchange
