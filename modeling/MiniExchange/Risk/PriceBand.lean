import MiniExchange.Risk.RiskEngine
import MiniExchange.Foundation.SignedWord

/-!
# Arithmetic of the price band

`check_price_band` of `risk/risk_engine.cpp` subtracts the reference from the
price and takes the absolute value, both on signed 64-bit words.  The price is
checked for being positive only by the engine behind the risk layer, so any word
may reach the subtraction.
-/

namespace MiniExchange
namespace RiskEngine

open Foundation.SignedWord

variable {σ : Type}

/-- The check, without a result if one of its signed operations overflows. -/
def checkPriceBandChecked (r : RiskEngine σ) (price : Price) : Option EngineResult :=
  match r.config.priceBand with
  | none => some .accepted
  | some allowance =>
      if r.referencePrice.value <= 0 then some .accepted
      else
        ((checkedSub price.value r.referencePrice.value).bind checkedAbs).map
          (fun deviation =>
            if allowance r.referencePrice.value < deviation then .priceOutOfBand
            else .accepted)

theorem checkPriceBand_of_checked {r : RiskEngine σ} {price : Price} {result : EngineResult}
    (h : r.checkPriceBandChecked price = some result) : r.checkPriceBand price = result := by
  unfold checkPriceBandChecked at h
  unfold checkPriceBand
  cases hband : r.config.priceBand with
  | none =>
      rw [hband] at h
      exact Option.some.inj h
  | some allowance =>
      rw [hband] at h
      dsimp only at h ⊢
      split at h
      · next href =>
          rw [if_pos href]
          exact Option.some.inj h
      · next href =>
          rcases Option.map_eq_some_iff.mp h with ⟨deviation, hdeviation, hresult⟩
          rw [if_neg href, ← (checkedDistance_eq_some hdeviation).left]
          exact hresult

section ActiveBand

variable {r : RiskEngine σ} {allowance : Int64 -> Int64}

theorem checkPriceBandChecked_eq (hband : r.config.priceBand = some allowance)
    (href : 0 < r.referencePrice.ticks) (price : Price) :
    r.checkPriceBandChecked price =
      ((checkedSub price.value r.referencePrice.value).bind checkedAbs).map
        (fun deviation =>
          if allowance r.referencePrice.value < deviation then .priceOutOfBand
          else .accepted) := by
  have hpositive : ¬ r.referencePrice.value <= 0 := by
    rw [Int64.le_iff_toInt_le]
    exact Int.not_le.mpr href
  unfold checkPriceBandChecked
  rw [hband]
  exact if_neg hpositive

theorem accepted_iff_distance_le (hband : r.config.priceBand = some allowance)
    (href : 0 < r.referencePrice.ticks) {price : Price} {result : EngineResult}
    (h : r.checkPriceBandChecked price = some result) :
    result = .accepted <->
      |price.ticks - r.referencePrice.ticks| <=
        (allowance r.referencePrice.value).toInt := by
  rw [checkPriceBandChecked_eq hband href] at h
  rcases Option.map_eq_some_iff.mp h with ⟨deviation, hdeviation, hresult⟩
  have hdistance : deviation.toInt = |price.ticks - r.referencePrice.ticks| :=
    (checkedDistance_eq_some hdeviation).right
  rw [← hdistance, ← hresult, ← Int.not_lt, ← Int64.lt_iff_toInt_lt]
  split
  · next hout => simp [hout]
  · next hin => simp [hin]

/--
The check decides by the exact distance and without a signed overflow exactly
if the price is less than 2^63 below the reference.
-/
theorem priceBand_exact_iff (hband : r.config.priceBand = some allowance)
    (href : 0 < r.referencePrice.ticks) (price : Price) :
    (exists result, r.checkPriceBandChecked price = some result ∧
        r.checkPriceBand price = result ∧
        (result = .accepted <->
          |price.ticks - r.referencePrice.ticks| <=
            (allowance r.referencePrice.value).toInt)) <->
      r.referencePrice.ticks - 2 ^ 63 < price.ticks := by
  have hsome : (r.checkPriceBandChecked price).isSome = true <->
      |price.ticks - r.referencePrice.ticks| < 2 ^ 63 := by
    rw [checkPriceBandChecked_eq hband href, Option.isSome_map]
    exact checkedDistance_isSome_iff _ _
  -- A positive reference leaves no room for an overflow above it.
  have habove : price.ticks < 2 ^ 63 := price.value.toInt_lt
  have hrange : |price.ticks - r.referencePrice.ticks| < 2 ^ 63 <->
      r.referencePrice.ticks - 2 ^ 63 < price.ticks := by
    rw [abs_lt]
    omega
  rw [← hrange, ← hsome, Option.isSome_iff_exists]
  constructor
  · intro h
    rcases h with ⟨result, hresult, -⟩
    exact ⟨result, hresult⟩
  · intro h
    rcases h with ⟨result, hresult⟩
    exact ⟨result, hresult, checkPriceBand_of_checked hresult,
      accepted_iff_distance_le hband href hresult⟩

end ActiveBand

def bandAround10000 : RiskEngine Unit :=
  new () { priceBand := some (fun _ => 1000), initialReferencePrice := ⟨10000⟩ }

def farPrice : Price :=
  ⟨-9223372036854765808⟩

theorem priceBand_exact_at_edge :
    exists result, bandAround10000.checkPriceBandChecked ⟨11000⟩ = some result ∧
      bandAround10000.checkPriceBand ⟨11000⟩ = result ∧
      (result = .accepted <-> |(11000 : Int) - 10000| <= 1000) :=
  (priceBand_exact_iff (r := bandAround10000) rfl (by decide) ⟨11000⟩).mpr (by decide)

/-- The absolute value overflows; on wrapping words it is negative and within any band. -/
theorem farPrice_overflows :
    0 < bandAround10000.referencePrice.ticks ∧
      bandAround10000.config.priceBand.map (fun allowance => allowance 10000) = some 1000 ∧
      bandAround10000.checkPriceBandChecked farPrice = none ∧
      bandAround10000.checkPriceBand farPrice = .accepted ∧
      ¬ |farPrice.ticks - bandAround10000.referencePrice.ticks| <= 1000 := by
  refine ⟨by decide, rfl, by decide, by decide, by decide⟩

end RiskEngine
end MiniExchange
