import MiniExchange.Core.Messages
import MiniExchange.Foundation.Machine

/-!
# Risk layer

The pre-trade checks of `risk/risk_engine.cpp`, wrapped around any engine: an
order that fails a check is answered by the layer itself, everything else is
forwarded.

The price band is a percentage held in floating point.  The layer only uses the
rounded allowance it gives for a reference price, so the configuration carries
that allowance as a function, or nothing if the band is not positive.
-/

namespace MiniExchange

open Foundation

/-- The pre-trade rules of `risk/risk_config.hpp`. -/
structure RiskConfig where
  /-- The rounded allowance around a reference price. -/
  priceBand : Option (Int64 -> Int64)
  initialReferencePrice : Price := ⟨0⟩
  maxOrderQty : Quantity := ⟨1000000⟩
  tickSize : Price := ⟨1⟩
  stpEnabled : Bool := false
  stpPolicy : StpPolicy := .rejectIncoming

def RiskConfig.stp (config : RiskConfig) : StpConfig where
  enabled := config.stpEnabled
  policy := config.stpPolicy

/-- The risk layer around an engine with states in `σ`. -/
structure RiskEngine (σ : Type) where
  inner : σ
  config : RiskConfig
  referencePrice : Price

namespace RiskEngine

variable {σ : Type}

def new (inner : σ) (config : RiskConfig) : RiskEngine σ where
  inner := inner
  config := config
  referencePrice := config.initialReferencePrice

def checkFatFinger (r : RiskEngine σ) (qty : Quantity) : EngineResult :=
  if r.config.maxOrderQty < qty then .quantityTooLarge
  else .accepted

def checkTickSize (r : RiskEngine σ) (price : Price) : EngineResult :=
  if r.config.tickSize.value <= 0 then .accepted
  else if price.value % r.config.tickSize.value ≠ 0 then .tickSizeMisaligned
  else .accepted

def checkPriceBand (r : RiskEngine σ) (price : Price) : EngineResult :=
  match r.config.priceBand with
  | none => .accepted
  | some allowance =>
      if r.referencePrice.value <= 0 then .accepted
      else if allowance r.referencePrice.value <
          (price.value - r.referencePrice.value).abs then
        .priceOutOfBand
      else .accepted

def runChecks (r : RiskEngine σ) (qty : Quantity) (price? : Option Price) :
    EngineResult :=
  if r.checkFatFinger qty ≠ .accepted then r.checkFatFinger qty
  else
    match price? with
    | none => .accepted
    | some price =>
        if r.checkTickSize price ≠ .accepted then r.checkTickSize price
        else if r.checkPriceBand price ≠ .accepted then r.checkPriceBand price
        else .accepted

def updateReferenceFrom (r : RiskEngine σ) (response : EngineResponse) : RiskEngine σ :=
  match response.trades.getLast? with
  | none => r
  | some trade => { r with referencePrice := trade.price }

def submit (api : EngineApi σ) (r : RiskEngine σ) (order : NewOrder) :
    EngineResponse × RiskEngine σ :=
  let check := r.runChecks order.quantity order.limitPrice
  if check ≠ .accepted then (EngineResponse.rejected check order.id, r)
  else
    let call := api.submit r.inner order
    (call.1, ({ r with inner := call.2 }).updateReferenceFrom call.1)

def cancel (api : EngineApi σ) (r : RiskEngine σ) (id : OrderId) :
    EngineResponse × RiskEngine σ :=
  ((api.cancel r.inner id).1, { r with inner := (api.cancel r.inner id).2 })

def api (inner : EngineApi σ) : EngineApi (RiskEngine σ) where
  submit := submit inner
  cancel := cancel inner

def run (inner : EngineApi σ) (r : RiskEngine σ) (commands : List EngineCommand) :
    RiskEngine σ :=
  Machine.run (fun r command => ((api inner).exec r command).2) r commands

/-!
## What reaches the engine

The wrapped engine executes the commands that pass the checks, and no others.
-/

def passes (r : RiskEngine σ) (command : EngineCommand) : Bool :=
  match command.newOrder? with
  | none => true
  | some order =>
      decide (r.runChecks order.quantity order.limitPrice = .accepted)

def forwarded (inner : EngineApi σ) (r : RiskEngine σ) (commands : List EngineCommand) :
    List EngineCommand :=
  ((Machine.visits (fun r command => ((api inner).exec r command).2) r commands).filter
    (fun v => v.1.passes v.2)).map Prod.snd

theorem updateReferenceFrom_kept (r : RiskEngine σ) (response : EngineResponse) :
    (r.updateReferenceFrom response).inner = r.inner ∧
      (r.updateReferenceFrom response).config = r.config := by
  unfold updateReferenceFrom
  split <;> exact ⟨rfl, rfl⟩

theorem submit_kept (inner : EngineApi σ) (r : RiskEngine σ) (order : NewOrder) :
    (submit inner r order).2.inner =
        (if r.runChecks order.quantity order.limitPrice = .accepted then
          (inner.submit r.inner order).2 else r.inner) ∧
      (submit inner r order).2.config = r.config := by
  unfold submit
  by_cases hcheck : r.runChecks order.quantity order.limitPrice = .accepted
  · simp only [hcheck, ne_eq, not_true_eq_false, if_false, if_true]
    exact updateReferenceFrom_kept { r with inner := (inner.submit r.inner order).2 } _
  · simp [hcheck]

theorem exec_kept (inner : EngineApi σ) (r : RiskEngine σ) (command : EngineCommand) :
    ((api inner).exec r command).2.inner =
        (if r.passes command then (inner.exec r.inner command).2 else r.inner) ∧
      ((api inner).exec r command).2.config = r.config := by
  have horder : forall order : NewOrder,
      (submit inner r order).2.inner =
          (if decide (r.runChecks order.quantity order.limitPrice = .accepted) then
            (inner.submit r.inner order).2 else r.inner) ∧
        (submit inner r order).2.config = r.config := by
    intro order
    simpa only [decide_eq_true_eq] using submit_kept inner r order
  cases command with
  | limit order => exact horder (.limit order)
  | market order => exact horder (.market order)
  | cancel id => exact ⟨rfl, rfl⟩

theorem inner_run (inner : EngineApi σ) (r : RiskEngine σ)
    (commands : List EngineCommand) :
    (run inner r commands).inner =
      Machine.run (fun s command => (inner.exec s command).2) r.inner
        (forwarded inner r commands) := by
  induction commands generalizing r with
  | nil => rfl
  | cons command rest ih =>
      have hrest := ih ((api inner).exec r command).2
      rw [(exec_kept inner r command).left] at hrest
      show (run inner ((api inner).exec r command).2 rest).inner = _
      rw [hrest]
      by_cases hpasses : r.passes command
      · simp [forwarded, Machine.visits, Machine.run, hpasses]
      · simp [forwarded, Machine.visits, hpasses]

theorem quantity_le_of_passes {r : RiskEngine σ} {command : EngineCommand}
    (h : r.passes command = true) {order : NewOrder} (horder : command.newOrder? = some order) :
    order.quantity <= r.config.maxOrderQty := by
  simp only [passes, horder, decide_eq_true_eq] at h
  by_contra hlarge
  have hfat : r.checkFatFinger order.quantity = .quantityTooLarge :=
    if_pos (not_le.mp hlarge)
  simp [runChecks, hfat] at h

theorem quantity_le_of_forwarded (inner : EngineApi σ) (r : RiskEngine σ)
    {commands : List EngineCommand} {command : EngineCommand}
    (h : command ∈ forwarded inner r commands) {order : NewOrder}
    (horder : command.newOrder? = some order) :
    order.quantity <= r.config.maxOrderQty := by
  rcases List.mem_map.mp h with ⟨v, hv, rfl⟩
  rcases List.mem_filter.mp hv with ⟨hvisit, hpasses⟩
  have hconfig : v.1.config = r.config :=
    Machine.visits_invariant (P := fun r' : RiskEngine σ => r'.config = r.config)
      (fun r' command hr' => (exec_kept inner r' command).right.trans hr') rfl hvisit
  rw [← hconfig]
  exact quantity_le_of_passes hpasses horder

end RiskEngine
end MiniExchange
