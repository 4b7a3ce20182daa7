import MiniExchange.Core.Messages
import MiniExchange.Foundation.SignedWord
import MiniExchange.Foundation.Window

/-!
# The momentum strategy

`MomentumStrategy` watches the tape.  It keeps the latest trade prices, and when
they have moved far enough it sends a market order in the direction of the
move.  On a timer it sends small market orders of alternating sides, so that
there is a tape to watch.
-/

namespace MiniExchange

open Foundation

structure MomentumConfig where
  /-- How many trade prices feed the signal. -/
  lookbackN : Nat
  orderSize : Quantity
  signalThreshold : Price
  /-- Zero for no probes. -/
  probeEveryTicks : UInt64 := 0
  probeSize : Quantity := ⟨1⟩
deriving DecidableEq, Repr

structure MomentumStrategy where
  id : ClientId
  config : MomentumConfig
  /-- The latest prices, oldest first. -/
  prices : List Price := []
  nextOrderId : OrderId
  tickCount : UInt64 := 0
  probeBuy : Bool := true
deriving DecidableEq, Repr

def MomentumConfig.signal (config : MomentumConfig) (prices : List Price) : Option Side :=
  if prices.length < config.lookbackN ∨ config.lookbackN = 0 then none
  else
    match prices.getLast?, prices.head? with
    | some newest, some oldest =>
        let delta := newest.value - oldest.value
        if config.signalThreshold.value < delta then some .buy
        else if config.signalThreshold.value < -delta then some .sell
        else none
    | _, _ => none

namespace MomentumStrategy

def new (id : ClientId) (config : MomentumConfig) : MomentumStrategy where
  id := id
  config := config
  nextOrderId := ⟨id.value * 1000000000 + 1⟩

/-- A market order under the id that `fresh_id` takes. -/
def marketOrder (m : MomentumStrategy) (side : Side) (quantity : Quantity) : MarketOrder where
  id := m.nextOrderId
  side := side
  quantity := quantity
  owner := m.id

def takeId (m : MomentumStrategy) : MomentumStrategy :=
  { m with nextOrderId := ⟨m.nextOrderId.value + 1⟩ }

def observe (m : MomentumStrategy) (price : Price) : MomentumStrategy :=
  { m with prices := Window.push m.config.lookbackN m.prices price }

section Engine

variable {σ : Type} (api : EngineApi σ)

def send (engine : σ) (m : MomentumStrategy) (side : Side) (quantity : Quantity) :
    σ × MomentumStrategy :=
  ((api.submit engine (.market (m.marketOrder side quantity))).2, m.takeId)

def onTrade (engine : σ) (m : MomentumStrategy) (trade : Trade) : σ × MomentumStrategy :=
  let observed := m.observe trade.price
  match m.config.signal observed.prices with
  | none => (engine, observed)
  | some side => observed.send api engine side m.config.orderSize

def onTick (engine : σ) (m : MomentumStrategy) : σ × MomentumStrategy :=
  if m.config.probeEveryTicks = 0 then (engine, m)
  else
    let counted := { m with tickCount := m.tickCount + 1 }
    if counted.tickCount % m.config.probeEveryTicks ≠ 0 then (engine, counted)
    else
      send api engine { counted with probeBuy := !m.probeBuy }
        (if m.probeBuy then .buy else .sell) m.config.probeSize

end Engine
end MomentumStrategy

/-!
## Signals between two prices

Between quotes that stay where they are, every trade is at one of two prices.  A
window of such prices signals only towards the latest of them.
-/

section Signal

variable {config : MomentumConfig} {prices : List Price} {side : Side}

theorem MomentumConfig.signal_cases (h : config.signal prices = some side) :
    config.lookbackN ≠ 0 ∧ config.lookbackN <= prices.length ∧
      exists newest oldest, prices.getLast? = some newest ∧ prices.head? = some oldest ∧
        (side = .buy ∧ config.signalThreshold.value < newest.value - oldest.value ∨
          side = .sell ∧ config.signalThreshold.value < -(newest.value - oldest.value)) := by
  unfold signal at h
  split at h
  · cases h
  · next hfull =>
      split at h
      · next newest oldest hnewest holdest =>
          dsimp only at h
          refine ⟨by omega, by omega, newest, oldest, hnewest, holdest, ?_⟩
          split at h
          · next hbuy =>
              cases h
              exact Or.inl ⟨rfl, hbuy⟩
          · split at h
            · next hsell =>
                cases h
                exact Or.inr ⟨rfl, hsell⟩
            · cases h
      · cases h

theorem MomentumConfig.signal_moved (h : config.signal prices = some side)
    (hfits : forall p q, p ∈ prices -> q ∈ prices -> |p.ticks - q.ticks| < 2 ^ 63) :
    exists newest oldest, prices.getLast? = some newest ∧ prices.head? = some oldest ∧
      (side = .buy ∧ config.signalThreshold.ticks < newest.ticks - oldest.ticks ∨
        side = .sell ∧ config.signalThreshold.ticks < oldest.ticks - newest.ticks) := by
  rcases signal_cases h with ⟨-, -, newest, oldest, hnewest, holdest, hmove⟩
  refine ⟨newest, oldest, hnewest, holdest, ?_⟩
  have habs := abs_lt.mp
    (hfits newest oldest (List.mem_of_getLast? hnewest) (List.mem_of_head? holdest))
  have hdelta : (newest.value - oldest.value).toInt = newest.ticks - oldest.ticks :=
    SignedWord.toInt_sub_of_fits ⟨Int.le_of_lt habs.left, habs.right⟩
  have hneg : (-(newest.value - oldest.value)).toInt = oldest.ticks - newest.ticks := by
    rw [Int64.toInt_neg, hdelta, Int.bmod_eq_of_le (by omega) (by omega)]
    omega
  rcases hmove with ⟨rfl, hbuy⟩ | ⟨rfl, hsell⟩
  · rw [Int64.lt_iff_toInt_lt, hdelta] at hbuy
    exact Or.inl ⟨rfl, hbuy⟩
  · rw [Int64.lt_iff_toInt_lt, hneg] at hsell
    exact Or.inr ⟨rfl, hsell⟩

/-- `price` gives the price at which a market order of each side is traded. -/
theorem MomentumConfig.signal_echoes {price : Side -> Price}
    (hthreshold : 0 <= config.signalThreshold.ticks)
    (hapart : (price .sell).ticks <= (price .buy).ticks)
    (hfits : (price .buy).ticks - (price .sell).ticks < 2 ^ 63)
    (hprices : forall p, p ∈ prices -> p = price .buy ∨ p = price .sell)
    (h : config.signal prices = some side) :
    prices.getLast? = some (price side) ∧ prices.head? ≠ prices.getLast? := by
  have hdistance : forall p q, p ∈ prices -> q ∈ prices -> |p.ticks - q.ticks| < 2 ^ 63 := by
    intro p q hp hq
    rw [abs_lt]
    rcases hprices p hp with rfl | rfl
    · rcases hprices q hq with rfl | rfl
      · omega
      · omega
    · rcases hprices q hq with rfl | rfl
      · omega
      · omega
  rcases signal_moved h hdistance with ⟨newest, oldest, hnewest, holdest, hmove⟩
  rw [hnewest, holdest]
  have hnew := hprices newest (List.mem_of_getLast? hnewest)
  have hold := hprices oldest (List.mem_of_head? holdest)
  have hne : oldest ≠ newest := by
    intro heq
    rw [heq] at hmove
    omega
  refine ⟨?_, fun heq => hne (Option.some.inj heq)⟩
  rcases hmove with ⟨rfl, hup⟩ | ⟨rfl, hdown⟩
  · rcases hnew with rfl | rfl
    · rfl
    · rcases hold with rfl | rfl
      · omega
      · exact absurd rfl hne
  · rcases hnew with rfl | rfl
    · rcases hold with rfl | rfl
      · exact absurd rfl hne
      · omega
    · rfl

/--
An episode of trades at the two prices, each but the first sent by the signal of
the trades before it, is shorter than two windows.
-/
theorem MomentumConfig.signal_episode {price : Side -> Price} {old recent : List Price}
    (hthreshold : 0 <= config.signalThreshold.ticks)
    (hapart : (price .sell).ticks <= (price .buy).ticks)
    (hfits : (price .buy).ticks - (price .sell).ticks < 2 ^ 63)
    (hrecent : forall p, p ∈ recent -> p = price .buy ∨ p = price .sell)
    (hechoes : Window.Echoes config.lookbackN recent)
    (h : config.signal ((old ++ recent).rtake config.lookbackN) = some side) :
    recent.length + 1 < 2 * config.lookbackN ∧
      Window.Echoes config.lookbackN (recent ++ [price side]) := by
  have hpos := (signal_cases h).left
  -- once the window lies within the episode, it repeats its latest price
  have hwithin : config.lookbackN <= recent.length ->
      recent.getLast? = some (price side) ∧
        (recent.rtake config.lookbackN).head? ≠ recent.getLast? := by
    intro hlong
    rw [Window.rtake_append_of_le old hlong] at h
    have hlast : (recent.rtake config.lookbackN).getLast? = recent.getLast? := by
      unfold List.rtake
      rw [List.getLast?_drop, if_neg (by omega)]
    rw [← hlast]
    exact signal_echoes hthreshold hapart hfits
      (fun p hp => hrecent p (Window.mem_of_mem_rtake hp)) h
  refine ⟨?_, hechoes.snoc (fun hlong => (hwithin hlong).left)⟩
  by_contra hlong
  rcases hwithin (by omega) with ⟨hlast, hmoved⟩
  cases hhead : (recent.rtake config.lookbackN).head? with
  | none =>
      have hlength := Window.length_rtake config.lookbackN recent
      rw [List.head?_eq_none_iff.mp hhead, List.length_nil] at hlength
      omega
  | some oldest =>
      rw [hhead, hechoes.uniform (by omega) (List.mem_of_head? hhead)] at hmoved
      exact hmoved rfl

end Signal
end MiniExchange
