import MiniExchange.Risk.Filter
import MiniExchange.Strategy.MarketMaker
import MiniExchange.Strategy.Momentum

/-!
# The strategy runner

`apps/strategy_runner` drives a market maker and a momentum strategy through the
risk layer of one engine.  Trades are only recorded while an engine call is
going on; the runner hands them to the strategies afterwards, which may send
further orders, until a tick has settled.
-/

namespace MiniExchange

open Foundation

/-!
## The session
-/

structure RunnerConfig where
  runMarketMaker : Bool := true
  runMomentum : Bool := true
deriving DecidableEq, Repr

structure Runner where
  risk : RiskEngine MatchingEngine
  maker : MarketMakerStrategy
  momentum : MomentumStrategy
  /-- The trades drained from the sink so far. -/
  totalTrades : Nat

namespace Runner

def api : EngineApi (RiskEngine MatchingEngine) :=
  RiskEngine.api MatchingEngine.api

def new (raw : Memory) (capacity : UInt64) (risk : RiskConfig) (makerId : ClientId)
    (makerConfig : MarketMakerConfig) (momentumId : ClientId)
    (momentumConfig : MomentumConfig) : Runner where
  risk := RiskEngine.new (MatchingEngine.new raw capacity risk.stp) risk
  maker := MarketMakerStrategy.new makerId makerConfig
  momentum := MomentumStrategy.new momentumId momentumConfig
  totalTrades := 0

def tape (r : Runner) : List Trade :=
  r.risk.inner.sink.filterMap SinkEvent.trade?

def pending (r : Runner) : List Trade :=
  r.tape.drop r.totalTrades

def withMaker (config : RunnerConfig)
    (act : RiskEngine MatchingEngine -> MarketMakerStrategy ->
      RiskEngine MatchingEngine × MarketMakerStrategy) (r : Runner) : Runner :=
  if config.runMarketMaker then
    { r with risk := (act r.risk r.maker).1, maker := (act r.risk r.maker).2 }
  else r

def withMomentum (config : RunnerConfig)
    (act : RiskEngine MatchingEngine -> MomentumStrategy ->
      RiskEngine MatchingEngine × MomentumStrategy) (r : Runner) : Runner :=
  if config.runMomentum then
    { r with risk := (act r.risk r.momentum).1, momentum := (act r.risk r.momentum).2 }
  else r

/-- `on_tick` of the strategies that are run. -/
def onTick (config : RunnerConfig) (r : Runner) : Runner :=
  withMomentum config (MomentumStrategy.onTick api)
    (withMaker config (MarketMakerStrategy.onTick api) r)

def onTrade (config : RunnerConfig) (r : Runner) (trade : Trade) : Runner :=
  withMomentum config (fun engine m => m.onTrade api engine trade)
    (withMaker config (fun engine m => m.onTrade api engine trade) r)

def round (config : RunnerConfig) (r : Runner) : Runner :=
  r.pending.foldl (onTrade config)
    { r with totalTrades := r.totalTrades + r.pending.length }

/-- Rounds until the sink is empty, or until the guard is used up. -/
def settle (config : RunnerConfig) : Nat -> Runner -> Runner
  | 0, r => r
  | guard + 1, r => if r.pending = [] then r else settle config guard (r.round config)

def tick (config : RunnerConfig) (r : Runner) : Runner :=
  settle config 1000 (r.onTick config)

def session (config : RunnerConfig) : Nat -> Runner -> Runner
  | 0, r => r
  | ticks + 1, r => session config ticks (r.tick config)

end Runner

/-!
## What one call does

To the book, to the tape, and through the risk layer.
-/

theorem Incoming.fills_le {c : Incoming} {pulls : RestingOrder -> Bool} (remaining : Quantity)
    (orders : List RestingOrder) :
    Action.fills (c.sweep pulls remaining orders).actions <= orders.length := by
  apply sweep_induction (P := fun _ orders s => Action.fills s.actions <= orders.length)
  case stop =>
    intro remaining orders _
    exact Nat.zero_le _
  case own =>
    intro remaining o rest s _ _ _ ih
    exact Nat.le_succ_of_le ih
  case full =>
    intro remaining o rest s _ _ _ _ ih
    exact Nat.succ_le_succ ih
  case absorbed =>
    intro remaining o rest _ _ _ _
    exact Nat.succ_le_succ (Nat.zero_le _)

namespace Action

theorem mem_trades {c : Incoming} {pulls : RestingOrder -> Bool} {orders : List RestingOrder}
    {actions : List Action} (hactions : forall a, a ∈ actions -> c.ActsOn pulls orders a)
    {sequence : TradeSequence} {t : Trade} (ht : t ∈ trades c sequence actions) :
    exists o, o ∈ orders ∧ c.beyondLimit o.price = false ∧ t.price = o.price ∧
      t.orderId c.side = c.id ∧ t.orderId c.side.opposite = o.id := by
  induction actions generalizing sequence with
  | nil => cases ht
  | cons action rest ih =>
      have hrest := fun a ha => hactions a (List.mem_cons_of_mem _ ha)
      cases action with
      | cancelOwn o => exact ih hrest ht
      | fill o before qty =>
          rcases List.mem_cons.mp ht with rfl | htail
          · have hacts := hactions _ List.mem_cons_self
            refine ⟨o, hacts.left, hacts.right.left, rfl, ?_⟩
            unfold Trade.orderId Incoming.tradeWith
            cases c.side <;> exact ⟨rfl, rfl⟩
          · exact ih hrest htail

end Action

structure Posted (command : EngineCommand) (response : EngineResponse) (s : Side)
    (o : RestingOrder) (order : LimitOrder) : Prop where
  command_eq : command = .limit order
  side_eq : order.side = s
  id_eq : o.id = order.id
  price_eq : o.price = order.price
  accepted : response.status = .accepted
  remaining : Quantity.zero < response.remainingQty

/-- What a call does when every id belongs to one client. -/
structure Effect (space : OrderId -> ClientId) (e : MatchingEngine) (command : EngineCommand)
    (response : EngineResponse) (e' : MatchingEngine) : Prop where
  spaced : Spaced space e'
  tape : e'.sink.filterMap SinkEvent.trade? =
    e.sink.filterMap SinkEvent.trade? ++ response.trades
  resting : forall s o, o ∈ e'.book.resting s ->
    (exists former, former ∈ e.book.resting s ∧
      o = { former with quantity := o.quantity }) ∨
    exists order, Posted command response s o order
  traded : forall t, t ∈ response.trades -> exists order o,
    command.newOrder? = some order ∧ o ∈ e.book.resting order.side.opposite ∧
      order.incoming.beyondLimit o.price = false ∧ t.price = o.price ∧
      t.orderId order.side = order.id ∧ t.orderId order.side.opposite = o.id
  flagged : forall order, command.newOrder? = some order ->
    forall t, t ∈ response.trades -> t.restingOrderRemoved = true ->
      forall s o, o ∈ e'.book.resting s -> o.id ≠ t.orderId order.side.opposite
  few : forall order, command.newOrder? = some order ->
    response.trades.length <= (e.book.resting order.side.opposite).length

section Effects

variable {space : OrderId -> ClientId} {e : MatchingEngine} {command : EngineCommand}

theorem Effect.none (h : Spaced space e) (command : EngineCommand)
    {response : EngineResponse} (htrades : response.trades = []) :
    Effect space e command response e where
  spaced := h
  tape := by rw [htrades, List.append_nil]
  resting s o ho := Or.inl ⟨o, ho, rfl⟩
  traded t ht := by
    rw [htrades] at ht
    cases ht
  flagged order _ t ht := by
    rw [htrades] at ht
    cases ht
  few order _ := by
    rw [htrades]
    exact Nat.zero_le _

section Limit

variable {order : LimitOrder} {response : EngineResponse} {e' : MatchingEngine} {o : RestingOrder}

theorem Effect.resting_opposite (h : Effect space e (.limit order) response e')
    (ho : o ∈ e'.book.resting order.side.opposite) :
    exists former, former ∈ e.book.resting order.side.opposite ∧
      o = { former with quantity := o.quantity } := by
  rcases h.resting _ o ho with hformer | ⟨posted, hposted⟩
  · exact hformer
  · cases hposted.command_eq
    exact absurd hposted.side_eq.symm (Side.opposite_ne order.side)

theorem Effect.posted (h : Effect space e (.limit order) response e')
    (hcleared : e.book.resting order.side = []) (ho : o ∈ e'.book.resting order.side) :
    Posted (.limit order) response order.side o order := by
  rcases h.resting _ o ho with ⟨former, hformer, -⟩ | ⟨posted, hposted⟩
  · rw [hcleared] at hformer
    cases hformer
  · cases hposted.command_eq
    exact hposted

end Limit

theorem Spaced.flagged_gone (h : Spaced space e) (hown : OwnId space command)
    {order : NewOrder} (horder : command.newOrder? = some order) {t : Trade}
    (ht : t ∈ (e.exec command).response.trades) (hflag : t.restingOrderRemoved = true)
    {s : Side} {o : RestingOrder} (ho : o ∈ (e.exec command).engine.book.resting s) :
    o.id ≠ t.orderId order.side.opposite := by
  have hflagged : Trade.counterparty order.side t ∈
      MatchingEngine.flagged command (e.exec command).response.trades := by
    unfold MatchingEngine.flagged
    rw [horder]
    exact List.mem_map_of_mem (List.mem_filter.mpr ⟨ht, hflag⟩)
  rw [← Trade.counterparty_fst]
  exact (h.flagged_retired hown hflagged).gone s o ho

theorem Spaced.exec_effect (h : Spaced space e) (hown : OwnId space command) :
    Effect space e command (e.exec command).response (e.exec command).engine := by
  have hspaced := h.exec hown
  have hflagged : forall order, command.newOrder? = some order ->
      forall t, t ∈ (e.exec command).response.trades -> t.restingOrderRemoved = true ->
        forall s o, o ∈ (e.exec command).engine.book.resting s ->
          o.id ≠ t.orderId order.side.opposite :=
    fun order horder t ht hflag s o ho => h.flagged_gone hown horder ht hflag ho
  rcases MatchingEngine.exec_cases h.wellFormed command with ⟨status, id, -, hcall⟩ |
    ⟨order, rfl, hcall, hadmits, ha⟩ | ⟨id, s, x, rfl, hc⟩
  · rw [hcall]
    exact Effect.none h command rfl
  · have hnew : order.toCommand.newOrder? = some order := NewOrder.newOrder?_toCommand order
    rw [hcall] at hspaced hflagged ⊢
    constructor
    case spaced => exact hspaced
    case flagged => exact hflagged
    case tape =>
      rw [ha.sink, List.filterMap_append, ha.trades]
      exact congrArg _ (Action.trade_events _ _ _)
    case resting =>
      intro s o ho
      rcases Side.eq_or_eq_opposite order.side s with rfl | rfl
      · rw [ha.own] at ho
        rcases List.mem_append.mp ((MatchingEngine.queue_perm _ _ _).subset ho) with hrest | hold
        · rcases MatchingEngine.restedBy_some (Option.mem_toList.mp hrest) with
            ⟨lo, rfl, hpos, rfl⟩
          exact Or.inr ⟨lo, rfl, rfl, rfl, rfl, ha.status, ha.remainingQty ▸ hpos⟩
        · exact Or.inl ⟨o, hold, rfl⟩
      · rw [ha.opposing] at ho
        rcases Incoming.mem_left _ _ ho with ⟨former, hformer, heq, -⟩
        exact Or.inl ⟨former, hformer, heq⟩
    case traded =>
      intro t ht
      rw [ha.trades] at ht
      rcases Action.mem_trades (fun a => MatchingEngine.sweepOf_actions) ht with ⟨o, hrest⟩
      exact ⟨order, o, hnew, hrest⟩
    case few =>
      intro order' horder
      rw [hnew, Option.some.injEq] at horder
      rw [← horder, ha.trades, Action.length_trades]
      exact Incoming.fills_le _ _
  · have hexec : e.exec (.cancel id) = e.cancel id := rfl
    rw [hexec] at hspaced ⊢
    constructor
    case spaced => exact hspaced
    case tape =>
      rw [hc.sink, List.filterMap_append, hc.response]
      rfl
    case resting =>
      intro t o ho
      rw [hc.without.resting_eq h.wellFormed] at ho
      exact Or.inl ⟨o, (List.erase_sublist.map _).subset ho, rfl⟩
    case traded =>
      intro t ht
      rw [hc.response] at ht
      cases ht
    all_goals
      intro order horder
      cases horder

theorem RiskEngine.exec_effect {r : RiskEngine MatchingEngine} (h : Spaced space r.inner)
    (hown : OwnId space command) :
    Effect space r.inner command (Runner.api.exec r command).1
      (Runner.api.exec r command).2.inner := by
  rcases RiskEngine.exec_cases MatchingEngine.api_quietRejections r command with
    ⟨-, htrades, hstate⟩ | ⟨hresponse, hstate⟩
  · have hsame : (Runner.api.exec r command).2.inner = r.inner :=
      congrArg RiskEngine.inner hstate
    rw [hsame]
    exact Effect.none h command htrades
  · have hinner : (Runner.api.exec r command).2.inner =
        (MatchingEngine.api.exec r.inner command).2 := congrArg RiskEngine.inner hstate
    have hsame : (Runner.api.exec r command).1 =
        (MatchingEngine.api.exec r.inner command).1 := hresponse
    rw [hinner, hsame, MatchingEngine.api_exec]
    exact h.exec_effect hown

end Effects

/-!
## The maker's calls
-/

def MatchingEngine.sinkTrades (e : MatchingEngine) : List Trade :=
  e.sink.filterMap SinkEvent.trade?

/-- Only what the maker records about its quotes may differ. -/
def MarketMakerStrategy.Reposted (m m' : MarketMakerStrategy) : Prop :=
  m' = { m with bidId := m'.bidId, askId := m'.askId, nextOrderId := m'.nextOrderId }

namespace MarketMakerStrategy.Reposted

variable {m m' m'' : MarketMakerStrategy}

theorem refl (m : MarketMakerStrategy) : Reposted m m := rfl

theorem trans (h : Reposted m m') (h' : Reposted m' m'') : Reposted m m'' := by
  unfold Reposted at h h' ⊢
  rw [h', h]

theorem id_eq (h : Reposted m m') : m'.id = m.id := by
  rw [h]

theorem quotePrice_eq (h : Reposted m m') : m'.quotePrice = m.quotePrice := by
  rw [h]
  rfl

theorem record (m : MarketMakerStrategy) (side : Side) (id : OrderId) :
    Reposted m (m.record side id) := by
  cases side <;> rfl

theorem quoted (m : MarketMakerStrategy) (side : Side) (response : EngineResponse) :
    Reposted m (m.quoted side response) := by
  unfold MarketMakerStrategy.quoted
  split
  · have hcounted : Reposted m { m with nextOrderId := ⟨m.nextOrderId.value + 1⟩ } := rfl
    exact hcounted.trans (record _ side _)
  · rfl

end MarketMakerStrategy.Reposted

/-- Every order in the book is the recorded quote of its side, under an id of the maker. -/
structure Owned (space : OrderId -> ClientId) (e : MatchingEngine) (m : MarketMakerStrategy) :
    Prop where
  spaced : Spaced space e
  own : forall s, (m.recorded s).value ≠ 0 -> space (m.recorded s) = m.id
  quote : forall s o, o ∈ e.book.resting s -> o.id = m.recorded s ∧ o.id.value ≠ 0

structure Pulled (space : OrderId -> ClientId) (side : Side) (e e' : MatchingEngine)
    (m m' : MarketMakerStrategy) : Prop where
  owned : Owned space e' m'
  cleared : e'.book.resting side = []
  other : e.book.resting side.opposite = [] -> e'.book.resting side.opposite = []
  sinkTrades : e'.sinkTrades = e.sinkTrades
  reposted : m.Reposted m'
  nextOrderId : m'.nextOrderId = m.nextOrderId

structure Quoted (space : OrderId -> ClientId) (e : MatchingEngine) (m : MarketMakerStrategy) :
    Prop extends Owned space e m where
  price : forall s o, o ∈ e.book.resting s -> o.price = m.quotePrice s

structure Offered (space : OrderId -> ClientId) (side : Side) (e e' : MatchingEngine)
    (m m' : MarketMakerStrategy) : Prop where
  quoted : Quoted space e' m'
  other : e.book.resting side.opposite = [] -> e'.book.resting side.opposite = []
  sinkTrades : e'.sinkTrades = e.sinkTrades
  reposted : m.Reposted m'
  nextOrderId : m'.nextOrderId = ⟨m.nextOrderId.value + 1⟩

section Maker

variable {space : OrderId -> ClientId} {r : RiskEngine MatchingEngine}
  {m : MarketMakerStrategy}

theorem ownId_cancel (space : OrderId -> ClientId) (id : OrderId) :
    OwnId space (.cancel id) := by
  intro order horder
  cases horder

theorem Effect.former {e e' : MatchingEngine} {id : OrderId} {response : EngineResponse}
    (h : Effect space e (.cancel id) response e') {s : Side} {o : RestingOrder}
    (ho : o ∈ e'.book.resting s) :
    exists former, former ∈ e.book.resting s ∧ former.id = o.id := by
  rcases h.resting s o ho with ⟨former, hformer, heq⟩ | ⟨order, hposted⟩
  · refine ⟨former, hformer, ?_⟩
    rw [heq]
  · cases hposted.command_eq

theorem Owned.forget (h : Owned space r.inner m) {side : Side}
    (hcleared : r.inner.book.resting side = []) :
    Owned space r.inner (m.record side ⟨0⟩) where
  spaced := h.spaced
  own s hs := by
    rcases Side.eq_or_eq_opposite side s with rfl | rfl
    · rw [MarketMakerStrategy.recorded_record] at hs
      exact absurd rfl hs
    · rw [MarketMakerStrategy.recorded_record_of_ne _ _ _ (Side.opposite_ne side)] at hs ⊢
      rw [MarketMakerStrategy.id_record]
      exact h.own _ hs
  quote s o ho := by
    rcases Side.eq_or_eq_opposite side s with rfl | rfl
    · rw [hcleared] at ho
      cases ho
    · rw [MarketMakerStrategy.recorded_record_of_ne _ _ _ (Side.opposite_ne side)]
      exact h.quote _ o ho

theorem Owned.pull {p : RiskEngine MatchingEngine × MarketMakerStrategy}
    (h : Owned space p.1.inner p.2) (side : Side) :
    Pulled space side p.1.inner (MarketMakerStrategy.cancelQuote Runner.api side p).1.inner p.2
      (MarketMakerStrategy.cancelQuote Runner.api side p).2 := by
  rcases p with ⟨r, m⟩
  unfold MarketMakerStrategy.cancelQuote
  dsimp only at h ⊢
  split
  · have heffect := RiskEngine.exec_effect h.spaced (ownId_cancel space (m.recorded side))
    have hcleared : (Runner.api.exec r
        (.cancel (m.recorded side))).2.inner.book.resting side = [] := by
      apply List.eq_nil_iff_forall_not_mem.mpr
      intro o ho
      rcases heffect.former ho with ⟨former, hformer, hid⟩
      apply h.spaced.cancel_gone (m.recorded side) ho
      rw [← hid]
      exact (h.quote side former hformer).left
    have howned : Owned space
        (Runner.api.exec r (.cancel (m.recorded side))).2.inner m := by
      refine ⟨heffect.spaced, h.own, ?_⟩
      intro s o ho
      rcases heffect.former ho with ⟨former, hformer, hid⟩
      rw [← hid]
      exact h.quote s former hformer
    constructor
    case owned => exact howned.forget hcleared
    case cleared => exact hcleared
    case other =>
      intro hempty
      apply List.eq_nil_iff_forall_not_mem.mpr
      intro o ho
      rcases heffect.former ho with ⟨former, hformer, -⟩
      rw [hempty] at hformer
      cases hformer
    case sinkTrades =>
      have htrades : (Runner.api.exec r (.cancel (m.recorded side))).1.trades = [] :=
        MatchingEngine.api_quietRejections.trades_cancel r.inner _
      exact heffect.tape.trans (by rw [htrades, List.append_nil]; rfl)
    case reposted => exact MarketMakerStrategy.Reposted.record m side ⟨0⟩
    case nextOrderId => exact MarketMakerStrategy.nextOrderId_record m side ⟨0⟩
  · next hnone =>
      refine ⟨h, ?_, fun hempty => hempty, rfl, rfl, rfl⟩
      apply List.eq_nil_iff_forall_not_mem.mpr
      intro o ho
      rcases h.quote side o ho with ⟨hid, hnonzero⟩
      rw [hid] at hnonzero
      exact hnone hnonzero

theorem MarketMakerStrategy.own_quoted
    (h : forall s, (m.recorded s).value ≠ 0 -> space (m.recorded s) = m.id)
    (hown : space m.nextOrderId = m.id) (side : Side) (response : EngineResponse) (s : Side)
    (hs : ((m.quoted side response).recorded s).value ≠ 0) :
    space ((m.quoted side response).recorded s) = (m.quoted side response).id := by
  rw [id_quoted]
  rcases Side.eq_or_eq_opposite side s with rfl | rfl
  · by_cases hrests : response.status = .accepted ∧
        Quantity.zero < response.remainingQty
    · rw [recorded_quoted _ _ _ hrests.left hrests.right]
      exact hown
    · unfold quoted at hs ⊢
      rw [if_neg hrests] at hs ⊢
      cases s with
      | buy => exact h .buy hs
      | sell => exact h .sell hs
  · rw [recorded_quoted_of_ne _ _ _ (Side.opposite_ne side)] at hs ⊢
    exact h _ hs

theorem quote_beyond (hapart : m.quotePrice .buy < m.quotePrice .sell) (side : Side) :
    (NewOrder.limit (m.quote side)).incoming.beyondLimit (m.quotePrice side.opposite) = true := by
  cases side with
  | buy => exact decide_eq_true hapart
  | sell => exact decide_eq_true hapart

theorem Quoted.post {p : RiskEngine MatchingEngine × MarketMakerStrategy}
    (h : Quoted space p.1.inner p.2) (side : Side)
    (hcleared : p.1.inner.book.resting side = []) (hown : space p.2.nextOrderId = p.2.id)
    (hnonzero : p.2.nextOrderId.value ≠ 0)
    (hapart : p.2.quotePrice .buy < p.2.quotePrice .sell) :
    Offered space side p.1.inner (MarketMakerStrategy.postQuote Runner.api side p).1.inner p.2
      (MarketMakerStrategy.postQuote Runner.api side p).2 := by
  rcases p with ⟨r, m⟩
  dsimp only at h hcleared hown hnonzero hapart
  have hcommand : OwnId space (.limit (m.quote side)) := by
    intro order horder
    cases horder
    exact hown
  have heffect := RiskEngine.exec_effect h.spaced hcommand
  have hreposted := MarketMakerStrategy.Reposted.quoted m side
    (Runner.api.exec r (.limit (m.quote side))).1
  have htrades : (Runner.api.exec r (EngineCommand.limit (m.quote side))).1.trades = [] := by
    apply List.eq_nil_iff_forall_not_mem.mpr
    intro t ht
    rcases heffect.traded t ht with ⟨order, o, horder, ho, hreach, -⟩
    cases horder
    rw [h.price _ o ho] at hreach
    have hbeyond := quote_beyond hapart side
    exact absurd (hbeyond.symm.trans hreach) (by decide)
  constructor
  case quoted =>
    refine ⟨⟨heffect.spaced, ?_, ?_⟩, ?_⟩
    · exact MarketMakerStrategy.own_quoted h.own hown side _
    · intro s o ho
      rcases Side.eq_or_eq_opposite side s with rfl | rfl
      · have hposted := heffect.posted hcleared ho
        rw [hposted.id_eq]
        refine ⟨?_, hnonzero⟩
        exact (MarketMakerStrategy.recorded_quoted _ _ _ hposted.accepted
          hposted.remaining).symm
      · rcases heffect.resting_opposite ho with ⟨former, hformer, heq⟩
        have hid : o.id = former.id := by rw [heq]
        rw [hid]
        refine ⟨?_, (h.quote _ former hformer).right⟩
        exact (h.quote _ former hformer).left.trans
          (MarketMakerStrategy.recorded_quoted_of_ne _ _ _ (Side.opposite_ne side)).symm
    · intro s o ho
      have hprice : (MarketMakerStrategy.postQuote Runner.api side (r, m)).2.quotePrice =
          m.quotePrice := hreposted.quotePrice_eq
      rw [hprice]
      rcases Side.eq_or_eq_opposite side s with rfl | rfl
      · exact (heffect.posted hcleared ho).price_eq
      · rcases heffect.resting_opposite ho with ⟨former, hformer, heq⟩
        rw [heq]
        exact h.price _ former hformer
  case other =>
    intro hempty
    apply List.eq_nil_iff_forall_not_mem.mpr
    intro o ho
    rcases heffect.resting_opposite ho with ⟨former, hformer, -⟩
    exact List.ne_nil_of_mem hformer hempty
  case sinkTrades => exact heffect.tape.trans (by rw [htrades, List.append_nil]; rfl)
  case reposted => exact hreposted
  case nextOrderId => exact MarketMakerStrategy.nextOrderId_quoted _ _ _

structure MarketMakerStrategy.NextIds (space : OrderId -> ClientId) (m : MarketMakerStrategy) :
    Prop where
  bid : space m.nextOrderId = m.id ∧ m.nextOrderId.value ≠ 0
  ask : space ⟨m.nextOrderId.value + 1⟩ = m.id ∧ m.nextOrderId.value + 1 ≠ 0

structure Renewed (space : OrderId -> ClientId) (e e' : MatchingEngine)
    (m m' : MarketMakerStrategy) : Prop where
  quoted : Quoted space e' m'
  sinkTrades : e'.sinkTrades = e.sinkTrades
  reposted : m.Reposted m'
  nextOrderId : m'.nextOrderId.value = m.nextOrderId.value + 2

theorem Owned.requote {p : RiskEngine MatchingEngine × MarketMakerStrategy}
    (h : Owned space p.1.inner p.2) (hids : p.2.NextIds space)
    (hapart : p.2.quotePrice .buy < p.2.quotePrice .sell) :
    Renewed space p.1.inner (MarketMakerStrategy.requote Runner.api p).1.inner p.2
      (MarketMakerStrategy.requote Runner.api p).2 := by
  -- the four calls, one after the other
  have hbid := h.pull .buy
  have hask := hbid.owned.pull .sell
  have hempty := hask.other hbid.cleared
  have hpulled := hbid.reposted.trans hask.reposted
  have hnext := hask.nextOrderId.trans hbid.nextOrderId
  have htape := hask.sinkTrades.trans hbid.sinkTrades
  unfold MarketMakerStrategy.requote
  dsimp only
  generalize MarketMakerStrategy.cancelQuote Runner.api .sell
    (MarketMakerStrategy.cancelQuote Runner.api .buy p) = q
    at hask hempty hpulled hnext htape ⊢
  have hnone : Quoted space q.1.inner q.2 := by
    refine ⟨hask.owned, ?_⟩
    intro s o ho
    cases s with
    | buy =>
        have ho : o ∈ q.1.inner.book.resting Side.sell.opposite := ho
        rw [hempty] at ho
        cases ho
    | sell =>
        rw [hask.cleared] at ho
        cases ho
  have hid := hpulled.id_eq
  have hbuy := hnone.post .buy hempty (by rw [hnext, hid]; exact hids.bid.left)
    (by rw [hnext]; exact hids.bid.right) (by rw [hpulled.quotePrice_eq]; exact hapart)
  have hnext := hbuy.nextOrderId.trans
    (congrArg (fun id : OrderId => (⟨id.value + 1⟩ : OrderId)) hnext)
  have hreposted := hpulled.trans hbuy.reposted
  have hid := hreposted.id_eq
  have hsell := hbuy.quoted.post .sell (hbuy.other hask.cleared)
    (by rw [hnext, hid]; exact hids.ask.left) (by rw [hnext]; exact hids.ask.right)
    (by rw [hreposted.quotePrice_eq]; exact hapart)
  constructor
  case quoted => exact hsell.quoted
  case sinkTrades => exact (hsell.sinkTrades.trans hbuy.sinkTrades).trans htape
  case reposted => exact hreposted.trans hsell.reposted
  case nextOrderId =>
    rw [hsell.nextOrderId, hnext]
    show p.2.nextOrderId.value + 1 + 1 = p.2.nextOrderId.value + 2
    rw [UInt64.add_assoc]
    rfl

end Maker

/-!
## Where the maker quotes

With a positive spread and numbers that are far from the ends of the range, the
bid is below the ask wherever the reference has drifted.
-/

theorem Price.ticks_add {p q : Price} (h : SignedWord.Fits (p.ticks + q.ticks)) :
    (⟨p.value + q.value⟩ : Price).ticks = p.ticks + q.ticks :=
  SignedWord.toInt_add_of_fits h

theorem Price.ticks_sub {p q : Price} (h : SignedWord.Fits (p.ticks - q.ticks)) :
    (⟨p.value - q.value⟩ : Price).ticks = p.ticks - q.ticks :=
  SignedWord.toInt_sub_of_fits h

structure MarketMakerConfig.Sound (config : MarketMakerConfig) : Prop where
  spread_pos : 0 < config.spread.ticks
  spread_le : config.spread.ticks <= 2 ^ 58
  reference_le : |config.referencePrice.ticks| <= 2 ^ 60
  drift_le : |config.driftPerTick.toInt| <= 2 ^ 60

theorem MarketMakerConfig.Sound.ref_le {config : MarketMakerConfig} (h : config.Sound)
    {p : Price} (hp : |p.ticks| <= 4 * config.spread.ticks) :
    |(⟨config.referencePrice.value + p.value⟩ : Price).ticks| <= 2 ^ 62 := by
  have hspread := h.spread_le
  have href := abs_le.mp h.reference_le
  have hp := abs_le.mp hp
  rw [Price.ticks_add ⟨by omega, by omega⟩, abs_le]
  omega

namespace MarketMakerStrategy

structure Steady (m : MarketMakerStrategy) : Prop where
  sound : m.config.Sound
  dir : m.driftDir = 1 ∨ m.driftDir = -1
  accum : |m.driftAccum.toInt| <= 4 * m.config.spread.ticks
  ref : |m.currentRef.ticks| <= 2 ^ 62

theorem Steady.new {config : MarketMakerConfig} (h : config.Sound) (id : ClientId) :
    (MarketMakerStrategy.new id config).Steady where
  sound := h
  dir := Or.inl rfl
  accum := by
    have hpos := h.spread_pos
    show |(0 : Int64).toInt| <= 4 * config.spread.ticks
    simp
    omega
  ref := le_trans h.reference_le (by decide)

theorem Steady.reposted {m m' : MarketMakerStrategy} (h : m.Steady) (hm : m.Reposted m') :
    m'.Steady := by
  rw [hm]
  exact ⟨h.sound, h.dir, h.accum, h.ref⟩

theorem Steady.quotePrice {m : MarketMakerStrategy} (h : m.Steady) :
    (m.quotePrice .buy).ticks = m.currentRef.ticks - m.config.spread.ticks ∧
      (m.quotePrice .sell).ticks = m.currentRef.ticks + m.config.spread.ticks := by
  have hpos := h.sound.spread_pos
  have hspread := h.sound.spread_le
  have href := abs_le.mp h.ref
  constructor
  · exact Price.ticks_sub ⟨by omega, by omega⟩
  · exact Price.ticks_add ⟨by omega, by omega⟩

theorem Steady.apart {m : MarketMakerStrategy} (h : m.Steady) :
    m.quotePrice .buy < m.quotePrice .sell := by
  have hpos := h.sound.spread_pos
  rcases h.quotePrice with ⟨hbuy, hsell⟩
  show (m.quotePrice .buy).ticks < (m.quotePrice .sell).ticks
  omega

theorem Steady.drift {m : MarketMakerStrategy} (h : m.Steady) : m.drift.Steady := by
  have hpos := h.sound.spread_pos
  have hspread := h.sound.spread_le
  have hdrift := abs_le.mp h.sound.drift_le
  have haccum := abs_le.mp h.accum
  have hbound : (m.config.spread.value * 4).toInt = 4 * m.config.spread.ticks := by
    have hfour : (4 : Int64).toInt = 4 := rfl
    have hvalue : m.config.spread.value.toInt = m.config.spread.ticks := rfl
    rw [SignedWord.toInt_mul_of_fits, hfour, hvalue, Int.mul_comm]
    rw [hfour, hvalue]
    exact ⟨by omega, by omega⟩
  have hneg : (-(m.config.spread.value * 4)).toInt = -(4 * m.config.spread.ticks) := by
    rw [SignedWord.toInt_neg_of_fits, hbound]
    rw [hbound]
    exact ⟨by omega, by omega⟩
  have hmove : |(m.driftDir * m.config.driftPerTick).toInt| <= 2 ^ 60 := by
    rcases h.dir with hdir | hdir
    · rw [hdir, Int64.one_mul]
      exact h.sound.drift_le
    · have hflip : (-1 : Int64) * m.config.driftPerTick = -m.config.driftPerTick := by
        rw [Int64.neg_mul, Int64.one_mul]
      rw [hdir, hflip, SignedWord.toInt_neg_of_fits ⟨by omega, by omega⟩, abs_neg]
      exact h.sound.drift_le
  unfold MarketMakerStrategy.drift
  dsimp only
  split
  · next hover =>
      have hle : |(m.config.spread.value * 4).toInt| <= 4 * m.config.spread.ticks := by
        rw [hbound, abs_of_nonneg (by omega)]
      exact ⟨h.sound, Or.inr rfl, hle, h.sound.ref_le (p := ⟨_⟩) hle⟩
  · next hover =>
      split
      · next hunder =>
          have hle : |(-(m.config.spread.value * 4)).toInt| <= 4 * m.config.spread.ticks := by
            rw [hneg, abs_neg, abs_of_nonneg (by omega)]
          exact ⟨h.sound, Or.inl rfl, hle, h.sound.ref_le (p := ⟨_⟩) hle⟩
      · next hunder =>
          rw [Int64.lt_iff_toInt_lt, hbound] at hover
          rw [Int64.lt_iff_toInt_lt, hneg] at hunder
          have hle : |(m.driftAccum + m.driftDir * m.config.driftPerTick).toInt| <=
              4 * m.config.spread.ticks := abs_le.mpr ⟨by omega, by omega⟩
          exact ⟨h.sound, h.dir, hle, h.sound.ref_le (p := ⟨_⟩) hle⟩

end MarketMakerStrategy

/-!
## Orders against the quotes
-/

structure Struck (space : OrderId -> ClientId) (e : MatchingEngine) (m : MarketMakerStrategy)
    (taker : ClientId) (side : Side) (t : Trade) : Prop where
  price : t.price = m.quotePrice side.opposite
  taker : space (t.orderId side) = taker
  removed : t.restingOrderRemoved = true -> forall s o, o ∈ e.book.resting s ->
    o.id ≠ t.orderId side.opposite

section Taker

variable {space : OrderId -> ClientId} {e : MatchingEngine} {r : RiskEngine MatchingEngine}
  {m : MarketMakerStrategy}

theorem Owned.length_resting (h : Owned space e m) (side : Side) :
    (e.book.resting side).length <= 1 :=
  h.spaced.length_of_same_id (List.Sublist.refl _) (fun o ho => (h.quote side o ho).left)

theorem Quoted.market (h : Quoted space r.inner m) {order : MarketOrder}
    (hown : space order.id = order.owner) :
    Quoted space (Runner.api.submit r (.market order)).2.inner m ∧
      ((Runner.api.submit r (.market order)).2.inner.sinkTrades = r.inner.sinkTrades ∨
        exists t, (Runner.api.submit r (.market order)).2.inner.sinkTrades =
            r.inner.sinkTrades ++ [t] ∧
          Struck space (Runner.api.submit r (.market order)).2.inner m order.owner
            order.side t) := by
  have hcommand : OwnId space (.market order) := by
    intro order' horder
    cases horder
    exact hown
  have heffect := RiskEngine.exec_effect h.spaced hcommand
  have hformer : forall s o,
      o ∈ (Runner.api.submit r (.market order)).2.inner.book.resting s ->
      exists former, former ∈ r.inner.book.resting s ∧
        o = { former with quantity := o.quantity } := by
    intro s o ho
    rcases heffect.resting s o ho with hold | ⟨lo, hposted⟩
    · exact hold
    · cases hposted.command_eq
  refine ⟨⟨⟨heffect.spaced, h.own, ?_⟩, ?_⟩, ?_⟩
  · intro s o ho
    rcases hformer s o ho with ⟨former, hold, heq⟩
    rw [heq]
    exact h.quote s former hold
  · intro s o ho
    rcases hformer s o ho with ⟨former, hold, heq⟩
    rw [heq]
    exact h.price s former hold
  · have hfew := Nat.le_trans (heffect.few (.market order) rfl)
      (h.length_resting order.side.opposite)
    have htape := heffect.tape
    cases htrades : (Runner.api.exec r (.market order)).1.trades with
    | nil =>
        rw [htrades, List.append_nil] at htape
        exact Or.inl htape
    | cons t rest =>
        have ht : t ∈ (Runner.api.exec r (.market order)).1.trades := by
          rw [htrades]
          exact List.mem_cons_self
        rw [htrades] at hfew htape
        have hrest : rest = [] :=
          List.length_eq_zero_iff.mp (Nat.le_zero.mp (Nat.le_of_succ_le_succ hfew))
        rw [hrest] at htape
        refine Or.inr ⟨t, htape, ?_⟩
        rcases heffect.traded t ht with ⟨order', o, horder, ho, -, hprice, htaker, -⟩
        cases horder
        constructor
        case price => exact hprice.trans (h.price _ o ho)
        case taker =>
          have htaker : t.orderId order.side = order.id := htaker
          rw [htaker]
          exact hown
        case removed => exact heffect.flagged (.market order) rfl t ht

end Taker

/-!
## The maker's two hooks
-/

section Hooks

variable {space : OrderId -> ClientId} {e : MatchingEngine} {r : RiskEngine MatchingEngine}
  {m : MarketMakerStrategy}

theorem MarketMakerStrategy.Reposted.release (m : MarketMakerStrategy) (trade : Trade)
    (side : Side) : Reposted m (m.release trade side) := by
  unfold MarketMakerStrategy.release
  split
  · exact record m side ⟨0⟩
  · exact refl m

theorem Owned.release (h : Owned space r.inner m) {trade : Trade} {side : Side}
    (hgone : m.hit trade side = true -> trade.restingOrderRemoved = true ->
      r.inner.book.resting side = []) :
    Owned space r.inner (m.release trade side) := by
  unfold MarketMakerStrategy.release
  split
  · next hhit =>
      rw [Bool.and_eq_true] at hhit
      exact h.forget (hgone hhit.left hhit.right)
  · exact h

/-- A quote is hit only on the side of the resting order, and is gone if the trade says so. -/
theorem Struck.gone {taker : ClientId} {side : Side} {t : Trade}
    (h : Struck space e m taker side t) (howned : Owned space e m) (htaker : taker ≠ m.id)
    {s : Side} (hhit : m.hit t s = true) (hflag : t.restingOrderRemoved = true) :
    e.book.resting s = [] := by
  simp only [MarketMakerStrategy.hit, Bool.and_eq_true, decide_eq_true_eq] at hhit
  rcases hhit with ⟨hnonzero, hid⟩
  rcases Side.eq_or_eq_opposite side s with rfl | rfl
  · have hspace := howned.own s hnonzero
    rw [← hid, h.taker] at hspace
    exact absurd hspace htaker
  · apply List.eq_nil_iff_forall_not_mem.mpr
    intro o ho
    apply h.removed hflag _ o ho
    rw [hid]
    exact (howned.quote _ o ho).left

structure Handled (space : OrderId -> ClientId) (e e' : MatchingEngine)
    (m m' : MarketMakerStrategy) : Prop where
  quoted : Quoted space e' m'
  sinkTrades : e'.sinkTrades = e.sinkTrades
  id_eq : m'.id = m.id
  steady : m'.Steady
  nextOrderId : m'.nextOrderId.value = m.nextOrderId.value ∨
    m'.nextOrderId.value = m.nextOrderId.value + 2

theorem Owned.handled {p : RiskEngine MatchingEngine × MarketMakerStrategy}
    (h : Owned space p.1.inner p.2) (hids : p.2.NextIds space) (hsteady : p.2.Steady)
    (hid : p.2.id = m.id) (hnext : p.2.nextOrderId = m.nextOrderId) :
    Handled space p.1.inner (MarketMakerStrategy.requote Runner.api p).1.inner m
      (MarketMakerStrategy.requote Runner.api p).2 := by
  have hrenewed := h.requote hids hsteady.apart
  constructor
  case quoted => exact hrenewed.quoted
  case sinkTrades => exact hrenewed.sinkTrades
  case id_eq => exact hrenewed.reposted.id_eq.trans hid
  case steady => exact hsteady.reposted hrenewed.reposted
  case nextOrderId =>
    rw [← hnext]
    exact Or.inr hrenewed.nextOrderId

theorem MarketMakerStrategy.NextIds.congr {m' : MarketMakerStrategy} (h : m.NextIds space)
    (hid : m'.id = m.id) (hnext : m'.nextOrderId = m.nextOrderId) : m'.NextIds space := by
  constructor
  · rw [hid, hnext]
    exact h.bid
  · rw [hid, hnext]
    exact h.ask

theorem Quoted.handled_trade (h : Quoted space r.inner m) (hids : m.NextIds space)
    (hsteady : m.Steady) {taker : ClientId} (htaker : taker ≠ m.id) {side : Side} {t : Trade}
    (hstruck : Struck space r.inner m taker side t) :
    Handled space r.inner (m.onTrade Runner.api r t).1.inner m (m.onTrade Runner.api r t).2 ∧
      (m.onTrade Runner.api r t).2.quotePrice = m.quotePrice := by
  unfold MarketMakerStrategy.onTrade
  split
  · have hbuy : Owned space r.inner (m.release t .buy) :=
      h.toOwned.release (hstruck.gone h.toOwned htaker)
    have hboth : Owned space r.inner ((m.release t .buy).release t .sell) := by
      apply hbuy.release
      intro hhit hflag
      apply hstruck.gone h.toOwned htaker _ hflag
      unfold MarketMakerStrategy.hit at hhit ⊢
      rw [← m.recorded_release_of_ne t .buy (by decide)]
      exact hhit
    have hreposted := (MarketMakerStrategy.Reposted.release m t .buy).trans
      (MarketMakerStrategy.Reposted.release _ t .sell)
    have hid := hreposted.id_eq
    have hnext : ((m.release t .buy).release t .sell).nextOrderId = m.nextOrderId := by
      rw [MarketMakerStrategy.nextOrderId_release, MarketMakerStrategy.nextOrderId_release]
    have hids := hids.congr hid hnext
    have hsteady := hsteady.reposted hreposted
    refine ⟨Owned.handled (p := (r, _)) hboth hids hsteady hid hnext, ?_⟩
    exact (Owned.requote (p := (r, _)) hboth hids hsteady.apart).reposted.quotePrice_eq.trans
      hreposted.quotePrice_eq
  · exact ⟨⟨h, rfl, rfl, hsteady, Or.inl rfl⟩, rfl⟩

theorem Owned.congr (h : Owned space e m) {m' : MarketMakerStrategy} (hid : m'.id = m.id)
    (hrecorded : forall s, m'.recorded s = m.recorded s) : Owned space e m' where
  spaced := h.spaced
  own s hs := by
    rw [hrecorded] at hs ⊢
    rw [hid]
    exact h.own s hs
  quote s o ho := by
    rw [hrecorded]
    exact h.quote s o ho

theorem Quoted.handled_tick (h : Quoted space r.inner m) (hids : m.NextIds space)
    (hsteady : m.Steady) :
    Handled space r.inner (m.onTick Runner.api r).1.inner m (m.onTick Runner.api r).2 := by
  unfold MarketMakerStrategy.onTick
  split
  · split
    · rcases m.drift_kept with ⟨hid, hnext, hrecorded⟩
      exact Owned.handled (p := (r, m.drift)) (h.toOwned.congr hid hrecorded)
        (hids.congr hid hnext) hsteady.drift hid hnext
    · exact ⟨h, rfl, rfl, hsteady, Or.inl rfl⟩
  · have hrecorded : forall s, ({ m with quoting := true } : MarketMakerStrategy).recorded s =
        m.recorded s := by
      intro s
      cases s <;> rfl
    exact Owned.handled (p := (r, { m with quoting := true }))
      (h.toOwned.congr rfl hrecorded) (hids.congr rfl rfl)
      ⟨hsteady.sound, hsteady.dir, hsteady.accum, hsteady.ref⟩ rfl rfl

end Hooks

end MiniExchange
