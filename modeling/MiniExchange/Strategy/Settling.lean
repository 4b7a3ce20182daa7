import MiniExchange.Strategy.Runner

/-!
# Settling

After every tick the runner hands out trades, and the orders that they provoke
make further trades.  The maker's quotes stay where they are for the rest of the
tick, so that all these trades are at two prices, and the momentum strategy has
soon seen enough of them to have no more reason to act.
-/

namespace MiniExchange

open Foundation

namespace Runner

/-- Ids below `first` are the maker's. -/
def idSpace (first : Nat) (maker momentum : ClientId) (id : OrderId) : ClientId :=
  if id.value.toNat < first then maker else momentum

def space (first : Nat) (r : Runner) : OrderId -> ClientId :=
  idSpace first r.maker.id r.momentum.id

/-- The runner with ids left for `j` further pairs of quotes and `k` further market orders. -/
structure Base (first j k : Nat) (r : Runner) : Prop where
  quoted : Quoted (r.space first) r.risk.inner r.maker
  steady : r.maker.Steady
  clients : r.momentum.id ≠ r.maker.id
  makerIds : 0 < r.maker.nextOrderId.value.toNat ∧
    r.maker.nextOrderId.value.toNat + 2 * j <= first
  momentumIds : first <= r.momentum.nextOrderId.value.toNat ∧
    r.momentum.nextOrderId.value.toNat + k < 2 ^ 64

section Hooks

variable {first j k : Nat} {r : Runner}

theorem Base.nextIds (h : Base first (j + 1) k r) : r.maker.NextIds (r.space first) := by
  rcases h.makerIds with ⟨hpos, hroom⟩
  rcases h.momentumIds with ⟨hfirst, hlast⟩
  have hnext : (r.maker.nextOrderId.value + 1).toNat = r.maker.nextOrderId.value.toNat + 1 := by
    rw [UInt64.toNat_add]
    exact Nat.mod_eq_of_lt (by simp only [UInt64.toNat_one]; omega)
  constructor
  · refine ⟨if_pos (by omega), ?_⟩
    intro hzero
    rw [hzero] at hpos
    exact absurd hpos (by decide)
  · refine ⟨if_pos (by dsimp only; omega), ?_⟩
    intro hzero
    rw [hzero] at hnext
    have hzero : (0 : UInt64).toNat = 0 := rfl
    omega

theorem Base.handled (h : Base first (j + 1) k r) {risk : RiskEngine MatchingEngine}
    {maker : MarketMakerStrategy}
    (hm : Handled (r.space first) r.risk.inner risk.inner r.maker maker) :
    Base first j k { r with risk := risk, maker := maker } := by
  have hspace : space first { r with risk := risk, maker := maker } = r.space first := by
    unfold space
    rw [hm.id_eq]
  rcases h.makerIds with ⟨hpos, hroom⟩
  have hlast := h.momentumIds
  constructor
  case quoted =>
    rw [hspace]
    exact hm.quoted
  case steady => exact hm.steady
  case clients =>
    show r.momentum.id ≠ maker.id
    rw [hm.id_eq]
    exact h.clients
  case makerIds =>
    show 0 < maker.nextOrderId.value.toNat ∧ maker.nextOrderId.value.toNat + 2 * j <= first
    rcases hm.nextOrderId with hsame | hnext
    · rw [hsame]
      omega
    · rw [hnext, UInt64.toNat_add]
      have htwo : (2 : UInt64).toNat = 2 := rfl
      rw [htwo, Nat.mod_eq_of_lt (by omega)]
      omega
  case momentumIds => exact h.momentumIds

theorem Base.weaken {j' k' : Nat} (h : Base first j k r) (hj : j' <= j) (hk : k' <= k) :
    Base first j' k' r := by
  rcases h.makerIds with ⟨hpos, hroom⟩
  rcases h.momentumIds with ⟨hfirst, hlast⟩
  exact ⟨h.quoted, h.steady, h.clients, ⟨hpos, by omega⟩, ⟨hfirst, by omega⟩⟩

theorem Base.makerTick (config : RunnerConfig) (h : Base first (j + 1) k r) :
    Base first j k (withMaker config (MarketMakerStrategy.onTick api) r) ∧
      (withMaker config (MarketMakerStrategy.onTick api) r).tape = r.tape ∧
      (withMaker config (MarketMakerStrategy.onTick api) r).momentum = r.momentum ∧
      (withMaker config (MarketMakerStrategy.onTick api) r).totalTrades = r.totalTrades := by
  unfold withMaker
  split
  · have hm := h.quoted.handled_tick h.nextIds h.steady
    exact ⟨h.handled hm, hm.sinkTrades, rfl, rfl⟩
  · exact ⟨h.weaken (Nat.le_succ j) (Nat.le_refl k), rfl, rfl, rfl⟩

theorem Base.makerTrade (config : RunnerConfig) (h : Base first (j + 1) k r) {side : Side}
    {t : Trade} (hstruck : Struck (r.space first) r.risk.inner r.maker r.momentum.id side t) :
    let r' := withMaker config (fun engine m => m.onTrade api engine t) r
    Base first j k r' ∧ r'.tape = r.tape ∧ r'.maker.quotePrice = r.maker.quotePrice ∧
      r'.momentum = r.momentum ∧ r'.totalTrades = r.totalTrades := by
  intro r'
  have hr' : r' = withMaker config (fun engine m => m.onTrade api engine t) r := rfl
  unfold withMaker at hr'
  split at hr'
  · rcases h.quoted.handled_trade h.nextIds h.steady h.clients hstruck with ⟨hm, hprice⟩
    rw [hr']
    exact ⟨h.handled hm, hm.sinkTrades, hprice, rfl, rfl⟩
  · rw [hr']
    exact ⟨h.weaken (Nat.le_succ j) (Nat.le_refl k), rfl, rfl, rfl, rfl⟩

/-!
## The momentum strategy's orders
-/

inductive Sends (risk : RiskEngine MatchingEngine) (m : MomentumStrategy) :
    Option Side -> RiskEngine MatchingEngine -> MomentumStrategy -> Prop where
  | nothing {m' : MomentumStrategy} : m'.id = m.id -> m'.nextOrderId = m.nextOrderId ->
      Sends risk m none risk m'
  | order {m' : MomentumStrategy} (order : MarketOrder) : order.id = m.nextOrderId ->
      order.owner = m.id -> m'.id = m.id ->
      m'.nextOrderId.value = m.nextOrderId.value + 1 ->
      Sends risk m (some order.side) (api.submit risk (.market order)).2 m'

theorem Base.sends (h : Base first j (k + 1) r) {side? : Option Side}
    {risk : RiskEngine MatchingEngine} {m : MomentumStrategy}
    (hs : Sends r.risk r.momentum side? risk m) :
    let r' : Runner := { r with risk := risk, momentum := m }
    Base first j k r' ∧ (r'.tape = r.tape ∨
      exists t side, r'.tape = r.tape ++ [t] ∧ side? = some side ∧
        Struck (r'.space first) r'.risk.inner r'.maker r'.momentum.id side t) := by
  intro r'
  rcases h.momentumIds with ⟨hfirst, hlast⟩
  cases hs with
  | nothing hid hnext =>
      have hspace : r'.space first = r.space first := by
        show idSpace first r.maker.id m.id = _
        rw [hid]
        rfl
      refine ⟨⟨hspace ▸ h.quoted, h.steady, ?_, h.makerIds, ?_⟩, Or.inl rfl⟩
      · show m.id ≠ r.maker.id
        rw [hid]
        exact h.clients
      · show first <= m.nextOrderId.value.toNat ∧ m.nextOrderId.value.toNat + k < 2 ^ 64
        rw [hnext]
        omega
  | order order horder howner hid hnext =>
      have hspace : r'.space first = r.space first := by
        show idSpace first r.maker.id m.id = _
        rw [hid]
        rfl
      have hown : r.space first order.id = order.owner := by
        rw [horder, howner]
        exact if_neg (by omega)
      rcases h.quoted.market hown with ⟨hquoted, htape⟩
      constructor
      · refine ⟨hspace ▸ hquoted, h.steady, ?_, h.makerIds, ?_⟩
        · show m.id ≠ r.maker.id
          rw [hid]
          exact h.clients
        · show first <= m.nextOrderId.value.toNat ∧ m.nextOrderId.value.toNat + k < 2 ^ 64
          rw [hnext, UInt64.toNat_add]
          have hone : (1 : UInt64).toNat = 1 := rfl
          rw [hone, Nat.mod_eq_of_lt (by omega)]
          omega
      · rcases htape with hsame | ⟨t, hgrown, hstruck⟩
        · exact Or.inl hsame
        · refine Or.inr ⟨t, order.side, hgrown, rfl, ?_⟩
          rw [hspace]
          have hm : r'.momentum.id = order.owner := hid.trans howner.symm
          rw [hm]
          exact hstruck

theorem sends_onTrade (risk : RiskEngine MatchingEngine) (m : MomentumStrategy) (t : Trade) :
    Sends risk m (m.config.signal (Window.push m.config.lookbackN m.prices t.price))
        (m.onTrade api risk t).1 (m.onTrade api risk t).2 ∧
      (m.onTrade api risk t).2.prices = Window.push m.config.lookbackN m.prices t.price ∧
      (m.onTrade api risk t).2.config = m.config := by
  unfold MomentumStrategy.onTrade
  dsimp only
  have hprices : (m.observe t.price).prices =
      Window.push m.config.lookbackN m.prices t.price := rfl
  rw [hprices]
  split
  · next hnone =>
      rw [hnone]
      exact ⟨.nothing rfl rfl, rfl, rfl⟩
  · next side hside =>
      rw [hside]
      exact ⟨.order ((m.observe t.price).marketOrder side m.config.orderSize) rfl rfl rfl
        rfl, rfl, rfl⟩

theorem sends_onTick (risk : RiskEngine MatchingEngine) (m : MomentumStrategy) :
    (exists side?, Sends risk m side? (m.onTick api risk).1 (m.onTick api risk).2) ∧
      (m.onTick api risk).2.prices = m.prices ∧ (m.onTick api risk).2.config = m.config := by
  unfold MomentumStrategy.onTick
  split
  · exact ⟨⟨none, .nothing rfl rfl⟩, rfl, rfl⟩
  · dsimp only
    split
    · exact ⟨⟨none, .nothing rfl rfl⟩, rfl, rfl⟩
    · refine ⟨⟨some (if m.probeBuy then .buy else .sell), ?_⟩, rfl, rfl⟩
      exact .order (MomentumStrategy.marketOrder m
        (if m.probeBuy then .buy else .sell) m.config.probeSize) rfl rfl rfl rfl

end Hooks

/-!
## Rounds
-/

structure Reading (config : RunnerConfig) (lookbackN : Nat) (seen waiting : List Trade)
    (r : Runner) : Prop where
  tape : r.tape = seen ++ waiting
  totalTrades : r.totalTrades = seen.length
  lookback : r.momentum.config.lookbackN = lookbackN
  window : config.runMomentum = true ->
    r.momentum.prices = (seen.map Trade.price).rtake lookbackN

section Rounds

variable {config : RunnerConfig} {first j k n : Nat} {r : Runner} {seen waiting : List Trade}

theorem Reading.pending (h : Reading config n seen waiting r) : r.pending = waiting := by
  unfold Runner.pending
  rw [h.tape, h.totalTrades, List.drop_left]

theorem Base.round (h : Base first (j + 1) (k + 1) r) {t : Trade}
    (hread : Reading config n seen [t] r) {side : Side}
    (hstruck : Struck (r.space first) r.risk.inner r.maker r.momentum.id side t) :
    let r' := r.round config
    Base first j k r' ∧ r'.maker.quotePrice = r.maker.quotePrice ∧
      r'.momentum.config = r.momentum.config ∧
      exists waiting, Reading config n (seen ++ [t]) waiting r' ∧
        (waiting = [] ∨ exists t' side', waiting = [t'] ∧
          Struck (r'.space first) r'.risk.inner r'.maker r'.momentum.id side' t' ∧
          r.momentum.config.signal (((seen ++ [t]).map Trade.price).rtake n) = some side') := by
  intro r'
  have hround : r' = onTrade config { r with totalTrades := r.totalTrades + 1 } t := by
    show r.round config = _
    unfold Runner.round
    rw [hread.pending]
    rfl
  have hdrained : Base first (j + 1) (k + 1) { r with totalTrades := r.totalTrades + 1 } :=
    ⟨h.quoted, h.steady, h.clients, h.makerIds, h.momentumIds⟩
  rcases hdrained.makerTrade config hstruck with ⟨hbase, htape, hprice, hmomentum, htotal⟩
  unfold onTrade at hround
  generalize withMaker config (fun engine m => m.onTrade api engine t)
    { r with totalTrades := r.totalTrades + 1 } = r₁ at hround hbase htape hprice hmomentum htotal
  have htape : r₁.tape = seen ++ [t] := htape.trans hread.tape
  have htotal : r₁.totalTrades = (seen ++ [t]).length := by
    rw [htotal, List.length_append, List.length_singleton]
    exact congrArg (fun n => n + 1) hread.totalTrades
  have hmomentum : r₁.momentum = r.momentum := hmomentum
  unfold withMomentum at hround
  split at hround
  · next hruns =>
      rcases sends_onTrade r₁.risk r₁.momentum t with ⟨hsends, hprices, hconfig⟩
      rcases hbase.sends hsends with ⟨hbase', hgrown⟩
      rw [← hround] at hbase' hgrown
      have hwindow : Window.push r₁.momentum.config.lookbackN r₁.momentum.prices t.price =
          ((seen ++ [t]).map Trade.price).rtake n := by
        rw [hmomentum, hread.lookback, hread.window hruns, Window.push_rtake, List.map_append]
        rfl
      rw [hwindow] at hprices hgrown
      have hreading : forall waiting, r'.tape = r₁.tape ++ waiting ->
          Reading config n (seen ++ [t]) waiting r' := by
        intro waiting hw
        constructor
        case tape => rw [hw, htape]
        case totalTrades =>
          rw [hround]
          exact htotal
        case lookback =>
          rw [hround]
          show (MomentumStrategy.onTrade api r₁.risk r₁.momentum t).2.config.lookbackN = n
          rw [hconfig, hmomentum, hread.lookback]
        case window =>
          intro _
          rw [hround]
          exact hprices
      refine ⟨hbase', ?_, ?_, ?_⟩
      · rw [hround]
        exact hprice
      · rw [hround]
        exact hconfig.trans (congrArg MomentumStrategy.config hmomentum)
      · rcases hgrown with hsame | ⟨t', side', hone, hsignal, hstruck'⟩
        · exact ⟨[], hreading [] (by rw [hsame, List.append_nil]), Or.inl rfl⟩
        · refine ⟨[t'], hreading [t'] hone, Or.inr ⟨t', side', rfl, hstruck', ?_⟩⟩
          rw [← hmomentum]
          exact hsignal
  · next hruns =>
      rw [hround]
      refine ⟨hbase.weaken (Nat.le_refl j) (Nat.le_succ k), hprice, ?_, [], ?_, Or.inl rfl⟩
      · rw [hmomentum]
      · constructor
        case tape => rw [htape, List.append_nil]
        case totalTrades => exact htotal
        case lookback => rw [hmomentum, hread.lookback]
        case window =>
          intro hrun
          exact absurd hrun hruns

def takerPrice (r : Runner) (side : Side) : Price :=
  r.maker.quotePrice side.opposite

/--
In the middle of a tick: since its quotes were last moved, `recent` and then `t`
have been traded with them, each in answer to the trades before it.
-/
structure Cascade (config : RunnerConfig) (first j k : Nat) (old recent : List Trade)
    (t : Trade) (r : Runner) : Prop where
  base : Base first j k r
  reading : Reading config r.momentum.config.lookbackN (old ++ recent) [t] r
  struck : exists side, Struck (r.space first) r.risk.inner r.maker r.momentum.id side t
  between : forall p, p ∈ (recent ++ [t]).map Trade.price ->
    p = r.takerPrice .buy ∨ p = r.takerPrice .sell
  echoes : Window.Echoes r.momentum.config.lookbackN ((recent ++ [t]).map Trade.price)

theorem Base.takerPrice_apart (h : Base first j k r) :
    (r.takerPrice .sell).ticks <= (r.takerPrice .buy).ticks ∧
      (r.takerPrice .buy).ticks - (r.takerPrice .sell).ticks < 2 ^ 63 := by
  have hpos := h.steady.sound.spread_pos
  have hspread := h.steady.sound.spread_le
  rcases h.steady.quotePrice with ⟨hbuy, hsell⟩
  have hbuy : (r.takerPrice .sell).ticks = _ := hbuy
  have hsell : (r.takerPrice .buy).ticks = _ := hsell
  omega

/-- A round ends the cascade, or takes it further while it is shorter than two windows. -/
theorem Cascade.round {old recent : List Trade} {t : Trade}
    (h : Cascade config first (j + 1) (k + 1) old recent t r)
    (hthreshold : 0 <= r.momentum.config.signalThreshold.ticks) :
    let r' := r.round config
    r'.momentum.config = r.momentum.config ∧
      (Base first j k r' ∧
          Reading config r'.momentum.config.lookbackN (old ++ (recent ++ [t])) [] r' ∨
        (recent ++ [t]).length + 1 < 2 * r.momentum.config.lookbackN ∧
          exists t', Cascade config first j k old (recent ++ [t]) t' r') := by
  intro r'
  rcases h.struck with ⟨side, hstruck⟩
  rcases h.base.round h.reading hstruck with
    ⟨hbase, hprice, hconfig, waiting, hreading, hwaiting⟩
  refine ⟨hconfig, ?_⟩
  rw [List.append_assoc] at hreading hwaiting
  have hreading : Reading config r'.momentum.config.lookbackN (old ++ (recent ++ [t])) waiting
      r' := by
    rw [hconfig]
    exact hreading
  rcases hwaiting with rfl | ⟨t', side', rfl, hstruck', hsignal⟩
  · exact Or.inl ⟨hbase, hreading⟩
  · have htaker : r'.takerPrice = r.takerPrice := by
      funext side
      exact congrFun hprice side.opposite
    have hlast : t'.price = r.takerPrice side' := hstruck'.price.trans (congrFun hprice _)
    rcases h.base.takerPrice_apart with ⟨hapart, hfits⟩
    rw [List.map_append] at hsignal
    rcases MomentumConfig.signal_episode hthreshold hapart hfits h.between h.echoes hsignal with
      ⟨hlength, hechoes⟩
    rw [List.length_map] at hlength
    refine Or.inr ⟨hlength, t', ?_⟩
    constructor
    case base => exact hbase
    case reading => exact hreading
    case struck => exact ⟨side', hstruck'⟩
    case between =>
      intro p hp
      rw [htaker]
      rw [List.map_append] at hp
      rcases List.mem_append.mp hp with hold | hnew
      · exact h.between p hold
      · rw [List.mem_singleton.mp hnew]
        rw [hlast]
        cases side' with
        | buy => exact Or.inl rfl
        | sell => exact Or.inr rfl
    case echoes =>
      rw [hconfig, List.map_append]
      show Window.Echoes _ (_ ++ [t'.price])
      rw [hlast]
      exact hechoes

/-- Within as many rounds as two windows are long, a cascade is over. -/
theorem Cascade.settle {old recent : List Trade} {t : Trade} {guard : Nat}
    (h : Cascade config first (j + guard) (k + guard) old recent t r)
    (hthreshold : 0 <= r.momentum.config.signalThreshold.ticks) (hpos : 0 < guard)
    (hguard : 2 * r.momentum.config.lookbackN <= guard + recent.length) :
    let r' := r.settle config guard
    r'.momentum.config = r.momentum.config ∧ Base first j k r' ∧
      exists seen, Reading config r'.momentum.config.lookbackN seen [] r' := by
  induction guard generalizing r recent t with
  | zero => exact absurd hpos (Nat.lt_irrefl 0)
  | succ guard ih =>
      intro r'
      have hr' : r' = (r.round config).settle config guard := by
        show (if r.pending = [] then r else _) = _
        rw [h.reading.pending]
        rfl
      rw [hr']
      rcases h.round hthreshold with ⟨hconfig, ⟨hbase, hreading⟩ | ⟨hlength, t', hcascade⟩⟩
      · have hdone : (r.round config).settle config guard = r.round config := by
          cases guard with
          | zero => rfl
          | succ guard => exact if_pos hreading.pending
        rw [hdone]
        exact ⟨hconfig, hbase.weaken (Nat.le_add_right _ _) (Nat.le_add_right _ _), _, hreading⟩
      · rw [List.length_append, List.length_singleton] at hlength
        rw [← hconfig] at hthreshold hguard hlength
        rcases ih hcascade hthreshold (by omega)
          (by rw [List.length_append, List.length_singleton]; omega) with
          ⟨hconfig', hbase, hreading⟩
        exact ⟨hconfig'.trans hconfig, hbase, hreading⟩

end Rounds

/-!
## Ticks and sessions
-/

section Ticks

variable {config : RunnerConfig} {first j k : Nat} {r : Runner} {seen : List Trade}

structure Settled (config : RunnerConfig) (first j k : Nat) (r : Runner) : Prop where
  base : Base first j k r
  reading : exists seen, Reading config r.momentum.config.lookbackN seen [] r
  threshold : 0 <= r.momentum.config.signalThreshold.ticks
  lookback : 2 * r.momentum.config.lookbackN <= 1000

theorem Base.onTick (h : Base first (j + 1) (k + 1) r)
    (hread : Reading config r.momentum.config.lookbackN seen [] r) :
    let r' := r.onTick config
    r'.momentum.config = r.momentum.config ∧ Base first j k r' ∧
      (Reading config r'.momentum.config.lookbackN seen [] r' ∨
        exists t, Cascade config first j k seen [] t r') := by
  intro r'
  rcases h.makerTick config with ⟨hbase, htape, hmomentum, htotal⟩
  have hr' : r' = withMomentum config (MomentumStrategy.onTick api)
    (withMaker config (MarketMakerStrategy.onTick api) r) := rfl
  generalize withMaker config (MarketMakerStrategy.onTick api) r = r₁
    at hr' hbase htape hmomentum htotal
  unfold withMomentum at hr'
  split at hr'
  · rcases sends_onTick r₁.risk r₁.momentum with ⟨⟨side?, hsends⟩, hprices, hconfig⟩
    rcases hbase.sends hsends with ⟨hbase', hgrown⟩
    rw [← hr'] at hbase' hgrown
    have hconfig' : r'.momentum.config = r.momentum.config := by
      rw [hr']
      exact hconfig.trans (congrArg MomentumStrategy.config hmomentum)
    have hreading : forall waiting, r'.tape = r₁.tape ++ waiting ->
        Reading config r'.momentum.config.lookbackN seen waiting r' := by
      intro waiting hw
      constructor
      case tape => rw [hw, htape, hread.tape, List.append_nil]
      case totalTrades =>
        rw [hr']
        exact htotal.trans hread.totalTrades
      case lookback => rfl
      case window =>
        intro hrun
        rw [hconfig', ← hread.window hrun, hr', ← hmomentum]
        exact hprices
    refine ⟨hconfig', hbase', ?_⟩
    rcases hgrown with hsame | ⟨t, side, hone, -, hstruck⟩
    · exact Or.inl (hreading [] (by rw [hsame, List.append_nil]))
    · refine Or.inr ⟨t, hbase', ?_, ⟨side, hstruck⟩, ?_, Window.echoes_singleton _ _⟩
      · rw [List.append_nil]
        exact hreading [t] hone
      · intro p hp
        rw [List.mem_singleton.mp hp, hstruck.price]
        cases side with
        | buy => exact Or.inl rfl
        | sell => exact Or.inr rfl
  · rw [hr']
    refine ⟨by rw [hmomentum], hbase.weaken (Nat.le_refl j) (Nat.le_succ k), Or.inl ?_⟩
    constructor
    case tape => rw [htape, hread.tape]
    case totalTrades => rw [htotal, hread.totalTrades]
    case lookback => rfl
    case window =>
      intro hrun
      rw [hmomentum]
      exact hread.window hrun

theorem Settled.tick (h : Settled config first (j + 1001) (k + 1001) r) :
    Settled config first j k (r.tick config) := by
  rcases h.reading with ⟨seen, hread⟩
  have hstart : Base first (j + 1000 + 1) (k + 1000 + 1) r := h.base
  rcases hstart.onTick hread with ⟨hconfig, hbase, hquiet | ⟨t, hcascade⟩⟩
  · have hdone : r.tick config = r.onTick config := if_pos hquiet.pending
    rw [hdone]
    exact ⟨hbase.weaken (Nat.le_add_right _ _) (Nat.le_add_right _ _), ⟨seen, hquiet⟩,
      hconfig ▸ h.threshold, hconfig ▸ h.lookback⟩
  · have hthreshold := h.threshold
    have hlookback := h.lookback
    rw [← hconfig] at hthreshold hlookback
    rcases hcascade.settle hthreshold (by decide) (Nat.le_trans hlookback (Nat.le_add_right _ _))
      with ⟨hconfig', hbase', hreading⟩
    refine ⟨hbase', hreading, ?_, ?_⟩
    · show 0 <= (Runner.settle config 1000 (r.onTick config)).momentum.config.signalThreshold.ticks
      rw [hconfig']
      exact hthreshold
    · show 2 * (Runner.settle config 1000 (r.onTick config)).momentum.config.lookbackN <= 1000
      rw [hconfig']
      exact hlookback

theorem Settled.session {ticks : Nat}
    (h : Settled config first (j + 1001 * ticks) (k + 1001 * ticks) r) :
    Settled config first j k (r.session config ticks) := by
  induction ticks generalizing r with
  | zero => exact h
  | succ ticks ih =>
      apply ih
      apply Settled.tick
      rw [Nat.add_assoc, Nat.add_assoc]
      exact h

end Ticks
/-!
## The sessions of the runner
-/

section Sessions

variable {makerId momentumId : ClientId} {ticks : Nat}

def firstId (id : ClientId) : Nat :=
  id.value.toNat * 1000000000 + 1

theorem toNat_firstId {id : ClientId} (h : firstId id < 2 ^ 64) :
    (id.value * 1000000000 + 1).toNat = firstId id := by
  have hbase : (1000000000 : UInt64).toNat = 1000000000 := rfl
  have hone : (1 : UInt64).toNat = 1 := rfl
  have hlt : id.value.toNat * 1000000000 < 2 ^ 64 := Nat.lt_of_succ_lt h
  rw [UInt64.toNat_add, UInt64.toNat_mul, hbase, hone, Nat.mod_eq_of_lt hlt]
  exact Nat.mod_eq_of_lt h

theorem settled_new (raw : Memory) (capacity : UInt64) (risk : RiskConfig)
    {makerConfig : MarketMakerConfig} {momentumConfig : MomentumConfig}
    (config : RunnerConfig) (hmaker : makerConfig.Sound)
    (hthreshold : 0 <= momentumConfig.signalThreshold.ticks)
    (hlookback : 2 * momentumConfig.lookbackN <= 1000)
    (hids : firstId makerId + 2002 * ticks < firstId momentumId)
    (hroom : firstId momentumId + 1001 * ticks < 2 ^ 64) :
    Settled config (firstId momentumId) (0 + 1001 * ticks) (0 + 1001 * ticks)
      (new raw capacity risk makerId makerConfig momentumId momentumConfig) := by
  have hmakerFirst : (makerId.value * 1000000000 + 1).toNat = firstId makerId :=
    toNat_firstId (by omega)
  have hmomentumFirst : (momentumId.value * 1000000000 + 1).toNat = firstId momentumId :=
    toNat_firstId (by omega)
  have hempty : forall s, (MatchingEngine.new raw capacity risk.stp).book.resting s = [] :=
    OrderBook.WellFormed.resting_new raw capacity
  constructor
  case base =>
    constructor
    case quoted =>
      refine ⟨⟨Spaced.new _ raw capacity risk.stp, ?_, ?_⟩, ?_⟩
      · intro s hs
        cases s <;> exact absurd rfl hs
      · intro s o ho
        have ho : o ∈ (MatchingEngine.new raw capacity risk.stp).book.resting s := ho
        rw [hempty] at ho
        cases ho
      · intro s o ho
        have ho : o ∈ (MatchingEngine.new raw capacity risk.stp).book.resting s := ho
        rw [hempty] at ho
        cases ho
    case steady => exact MarketMakerStrategy.Steady.new hmaker makerId
    case clients =>
      intro heq
      have heq : momentumId = makerId := heq
      rw [heq] at hids
      omega
    case makerIds =>
      show 0 < (makerId.value * 1000000000 + 1).toNat ∧
        (makerId.value * 1000000000 + 1).toNat + 2 * (0 + 1001 * ticks) <= _
      rw [hmakerFirst]
      exact ⟨Nat.succ_pos _, by omega⟩
    case momentumIds =>
      show _ <= (momentumId.value * 1000000000 + 1).toNat ∧
        (momentumId.value * 1000000000 + 1).toNat + (0 + 1001 * ticks) < _
      rw [hmomentumFirst]
      omega
  case reading =>
    exact ⟨[], rfl, rfl, rfl, fun _ => (List.rtake_nil _).symm⟩
  case threshold => exact hthreshold
  case lookback => exact hlookback

/--
Every tick settles before the guard of 1000 rounds is used up: no trade is left
in the sink, and the momentum strategy has the latest prices of the whole tape.
-/
theorem session_settles (raw : Memory) (capacity : UInt64) (risk : RiskConfig)
    (makerId momentumId : ClientId) (makerConfig : MarketMakerConfig)
    (momentumConfig : MomentumConfig) (config : RunnerConfig) (ticks : Nat)
    (hmaker : makerConfig.Sound) (hthreshold : 0 <= momentumConfig.signalThreshold.ticks)
    (hlookback : 2 * momentumConfig.lookbackN <= 1000)
    (hids : firstId makerId + 2002 * ticks < firstId momentumId)
    (hroom : firstId momentumId + 1001 * ticks < 2 ^ 64) :
    let r := (new raw capacity risk makerId makerConfig momentumId momentumConfig).session
      config ticks
    r.pending = [] ∧ r.totalTrades = r.tape.length ∧
      (config.runMomentum = true ->
        r.momentum.prices = (r.tape.map Trade.price).rtake r.momentum.config.lookbackN) := by
  intro r
  have h : Settled config _ 0 0 r :=
    (settled_new raw capacity risk config hmaker hthreshold hlookback hids hroom).session
  rcases h.reading with ⟨seen, hread⟩
  have htape : r.tape = seen := by rw [hread.tape, List.append_nil]
  refine ⟨hread.pending, ?_, ?_⟩
  · rw [htape, hread.totalTrades]
  · rw [htape]
    exact hread.window

/-!
The configuration of the program, on a small pool.
-/

def programRisk : RiskConfig where
  priceBand := some (fun reference => reference / 2)
  initialReferencePrice := ⟨10000⟩
  stpEnabled := true

def programMaker : MarketMakerConfig where
  referencePrice := ⟨10000⟩
  spread := ⟨5⟩
  quoteSize := ⟨10⟩
  driftPerTick := 2

def programMomentum : MomentumConfig where
  lookbackN := 4
  orderSize := ⟨5⟩
  signalThreshold := ⟨2⟩
  probeEveryTicks := 3
  probeSize := ⟨2⟩

theorem programMaker_sound : programMaker.Sound := by
  constructor <;> decide

/-- The fourth probe is followed by four orders of the momentum strategy. -/
theorem session_settles_program :
    let r := (new Memory.zeroed 4 programRisk ⟨1001⟩ programMaker ⟨1002⟩
      programMomentum).session {} 12
    r.pending = [] ∧
      r.tape.map Trade.price =
        [⟨10009⟩, ⟨10005⟩, ⟨10021⟩, ⟨10015⟩, ⟨10025⟩, ⟨10025⟩, ⟨10025⟩, ⟨10025⟩] ∧
      r.momentum.prices = (r.tape.map Trade.price).rtake r.momentum.config.lookbackN := by
  have hsettled := session_settles Memory.zeroed 4 programRisk ⟨1001⟩ ⟨1002⟩ programMaker
    programMomentum {} 12 programMaker_sound (by decide) (by decide) (by decide) (by decide)
  exact ⟨hsettled.left, by decide +kernel, hsettled.right.right rfl⟩

/-- After every tick nothing rests but the maker's recorded quotes, where it quotes now. -/
theorem session_book (raw : Memory) (capacity : UInt64) (risk : RiskConfig)
    (makerId momentumId : ClientId) (makerConfig : MarketMakerConfig)
    (momentumConfig : MomentumConfig) (config : RunnerConfig) (ticks : Nat)
    (hmaker : makerConfig.Sound) (hthreshold : 0 <= momentumConfig.signalThreshold.ticks)
    (hlookback : 2 * momentumConfig.lookbackN <= 1000)
    (hids : firstId makerId + 2002 * ticks < firstId momentumId)
    (hroom : firstId momentumId + 1001 * ticks < 2 ^ 64) (side : Side) :
    let r := (new raw capacity risk makerId makerConfig momentumId momentumConfig).session
      config ticks
    (r.risk.inner.book.resting side).length <= 1 ∧
      forall o, o ∈ r.risk.inner.book.resting side ->
        o.id = r.maker.recorded side ∧ o.owner = r.maker.id ∧
          o.price = r.maker.quotePrice side := by
  intro r
  have h : Settled config _ 0 0 r :=
    (settled_new raw capacity risk config hmaker hthreshold hlookback hids hroom).session
  have hquoted := h.base.quoted
  refine ⟨hquoted.length_resting side, ?_⟩
  intro o ho
  rcases hquoted.quote side o ho with ⟨hid, hnonzero⟩
  refine ⟨hid, ?_, hquoted.price side o ho⟩
  rw [← hquoted.spaced.own side o ho, hid]
  rw [hid] at hnonzero
  exact hquoted.own side hnonzero

theorem session_book_program :
    let r := (new Memory.zeroed 4 programRisk ⟨1001⟩ programMaker ⟨1002⟩
      programMomentum).session {} 3
    (r.risk.inner.book.resting .sell).length <= 1 ∧
      (r.risk.inner.book.resting .sell).map (fun o => o.price) = [⟨10009⟩] := by
  have hbook := session_book Memory.zeroed 4 programRisk ⟨1001⟩ ⟨1002⟩ programMaker
    programMomentum {} 3 programMaker_sound (by decide) (by decide) (by decide) (by decide)
    .sell
  exact ⟨hbook.left, by decide +kernel⟩

end Sessions
end Runner
end MiniExchange
