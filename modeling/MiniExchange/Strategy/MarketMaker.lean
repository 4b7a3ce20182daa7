import MiniExchange.Engine.RetiredIds

/-!
# The market maker

`MarketMakerStrategy` keeps a bid and an ask in the book and learns their fate
from the trades that the runner hands to it after the engine call that made
them.  The session below interleaves its calls with those of other clients.
-/

namespace MiniExchange

open Foundation

structure MarketMakerConfig where
  referencePrice : Price
  /-- Half of the distance between the two quotes. -/
  spread : Price
  quoteSize : Quantity
  driftPerTick : Int64 := 0
deriving DecidableEq, Repr

def Trade.orderId (trade : Trade) : Side -> OrderId
  | .buy => trade.buyOrderId
  | .sell => trade.sellOrderId

theorem Trade.counterparty_fst (s : Side) (trade : Trade) :
    (Trade.counterparty s trade).1 = trade.orderId s.opposite := by
  cases s <;> rfl

/-- Signed arithmetic is taken to wrap. -/
structure MarketMakerStrategy where
  id : ClientId
  config : MarketMakerConfig
  nextOrderId : OrderId
  /-- The bid that is taken to rest, zero for none. -/
  bidId : OrderId := ⟨0⟩
  askId : OrderId := ⟨0⟩
  quoting : Bool := false
  currentRef : Price
  driftDir : Int64 := 1
  driftAccum : Int64 := 0
deriving DecidableEq, Repr

namespace MarketMakerStrategy

def new (id : ClientId) (config : MarketMakerConfig) : MarketMakerStrategy where
  id := id
  config := config
  nextOrderId := ⟨id.value * 1000000000 + 1⟩
  currentRef := config.referencePrice

/-- `bid_id_` or `ask_id_`. -/
def recorded (m : MarketMakerStrategy) : Side -> OrderId
  | .buy => m.bidId
  | .sell => m.askId

def record (m : MarketMakerStrategy) (side : Side) (id : OrderId) : MarketMakerStrategy :=
  match side with
  | .buy => { m with bidId := id }
  | .sell => { m with askId := id }

/-- The reference after one more tick, which turns at four spreads from its base. -/
def drift (m : MarketMakerStrategy) : MarketMakerStrategy :=
  let bound := m.config.spread.value * 4
  let accum := m.driftAccum + m.driftDir * m.config.driftPerTick
  let turned :=
    if bound < accum then { m with driftAccum := bound, driftDir := -1 }
    else if accum < -bound then { m with driftAccum := -bound, driftDir := 1 }
    else { m with driftAccum := accum }
  { turned with currentRef := ⟨m.config.referencePrice.value + turned.driftAccum⟩ }

def quotePrice (m : MarketMakerStrategy) : Side -> Price
  | .buy => ⟨m.currentRef.value - m.config.spread.value⟩
  | .sell => ⟨m.currentRef.value + m.config.spread.value⟩

/-- The next quote of a side, under the id that `fresh_id` takes. -/
def quote (m : MarketMakerStrategy) (side : Side) : LimitOrder where
  id := m.nextOrderId
  side := side
  price := m.quotePrice side
  quantity := m.config.quoteSize
  owner := m.id

/-- A quote is recorded if it was accepted with something left of it. -/
def quoted (m : MarketMakerStrategy) (side : Side) (response : EngineResponse) :
    MarketMakerStrategy :=
  let taken := { m with nextOrderId := ⟨m.nextOrderId.value + 1⟩ }
  if response.status = .accepted ∧ Quantity.zero < response.remainingQty then
    taken.record side m.nextOrderId
  else taken

def hit (m : MarketMakerStrategy) (trade : Trade) (side : Side) : Bool :=
  decide ((m.recorded side).value ≠ 0) && decide (trade.orderId side = m.recorded side)

/-- A quote that was hit by a trade with the flag is taken to be gone. -/
def release (m : MarketMakerStrategy) (trade : Trade) (side : Side) : MarketMakerStrategy :=
  if m.hit trade side && trade.restingOrderRemoved then m.record side ⟨0⟩ else m

section Bookkeeping

variable (m : MarketMakerStrategy) (trade : Trade) (response : EngineResponse)
  (side : Side) (id : OrderId)

@[simp] theorem id_record : (m.record side id).id = m.id := by
  cases side <;> rfl

@[simp] theorem nextOrderId_record : (m.record side id).nextOrderId = m.nextOrderId := by
  cases side <;> rfl

@[simp] theorem recorded_record : (m.record side id).recorded side = id := by
  cases side <;> rfl

theorem recorded_record_of_ne {t : Side} (h : t ≠ side) :
    (m.record side id).recorded t = m.recorded t := by
  cases side <;> cases t <;> first | rfl | exact absurd rfl h

theorem id_quoted : (m.quoted side response).id = m.id := by
  unfold quoted
  split
  · exact id_record _ side _
  · rfl

theorem nextOrderId_quoted :
    (m.quoted side response).nextOrderId = ⟨m.nextOrderId.value + 1⟩ := by
  unfold quoted
  split
  · exact nextOrderId_record _ side _
  · rfl

theorem recorded_quoted_of_ne {t : Side} (h : t ≠ side) :
    (m.quoted side response).recorded t = m.recorded t := by
  unfold quoted
  split
  · exact recorded_record_of_ne _ side _ h
  · cases t <;> rfl

theorem recorded_quoted (haccepted : response.status = .accepted)
    (hleft : Quantity.zero < response.remainingQty) :
    (m.quoted side response).recorded side = m.nextOrderId := by
  unfold quoted
  rw [if_pos ⟨haccepted, hleft⟩]
  exact recorded_record _ side _

theorem drift_kept :
    m.drift.id = m.id ∧ m.drift.nextOrderId = m.nextOrderId ∧
      forall side, m.drift.recorded side = m.recorded side := by
  unfold drift
  dsimp only
  split
  · exact ⟨rfl, rfl, fun side => by cases side <;> rfl⟩
  · split
    · exact ⟨rfl, rfl, fun side => by cases side <;> rfl⟩
    · exact ⟨rfl, rfl, fun side => by cases side <;> rfl⟩

theorem id_release : (m.release trade side).id = m.id := by
  unfold release
  split
  · exact id_record m side _
  · rfl

theorem nextOrderId_release : (m.release trade side).nextOrderId = m.nextOrderId := by
  unfold release
  split
  · exact nextOrderId_record m side _
  · rfl

theorem recorded_release_of_ne {t : Side} (h : t ≠ side) :
    (m.release trade side).recorded t = m.recorded t := by
  unfold release
  split
  · exact recorded_record_of_ne m side _ h
  · rfl

end Bookkeeping

/-!
## The strategy on any engine
-/

section Engine

variable {σ : Type} (api : EngineApi σ)

def cancelQuote (side : Side) (p : σ × MarketMakerStrategy) : σ × MarketMakerStrategy :=
  if (p.2.recorded side).value ≠ 0 then
    ((api.exec p.1 (.cancel (p.2.recorded side))).2, p.2.record side ⟨0⟩)
  else p

def postQuote (side : Side) (p : σ × MarketMakerStrategy) : σ × MarketMakerStrategy :=
  let call := api.exec p.1 (.limit (p.2.quote side))
  (call.2, p.2.quoted side call.1)

/-- Both quotes are pulled before either is posted again. -/
def requote (p : σ × MarketMakerStrategy) : σ × MarketMakerStrategy :=
  let pulled := cancelQuote api .sell (cancelQuote api .buy p)
  postQuote api .sell (postQuote api .buy pulled)

def onTick (engine : σ) (m : MarketMakerStrategy) : σ × MarketMakerStrategy :=
  if m.quoting then
    if m.config.driftPerTick ≠ 0 then requote api (engine, m.drift) else (engine, m)
  else requote api (engine, { m with quoting := true })

def onTrade (engine : σ) (m : MarketMakerStrategy) (trade : Trade) :
    σ × MarketMakerStrategy :=
  if m.hit trade .buy || m.hit trade .sell then
    requote api (engine, (m.release trade .buy).release trade .sell)
  else (engine, m)

end Engine
end MarketMakerStrategy

theorem Spaced.length_of_same_id {space : OrderId -> ClientId} {e : MatchingEngine}
    (h : Spaced space e) {side : Side} {orders : List RestingOrder}
    (hsub : orders.Sublist (e.book.resting side)) {id : OrderId}
    (hsame : forall o, o ∈ orders -> o.id = id) : orders.length <= 1 := by
  have hreplicate : orders.map (fun o => o.id) = List.replicate orders.length id := by
    rw [← List.map_const']
    exact List.map_congr_left hsame
  have hdistinct : ((e.book.resting side).map (fun o => o.id)).Nodup := by
    have hboth := h.agrees.distinct
    rw [List.map_append] at hboth
    cases side with
    | buy => exact (List.nodup_append.mp hboth).left
    | sell => exact (List.nodup_append.mp hboth).right.left
  have hnodup := hdistinct.sublist (hsub.map (fun o => o.id))
  rw [hreplicate] at hnodup
  exact List.nodup_replicate.mp hnodup

/-- The engine and its sink, the maker, and how many trades it has been handed. -/
structure MakerSession where
  engine : MatchingEngine
  maker : MarketMakerStrategy
  delivered : Nat

/-- The maker's timer, the next trade for the maker, or a call of another client. -/
inductive SessionMove where
  | tick
  | trade
  | client (command : EngineCommand)
deriving DecidableEq, Repr

namespace MakerSession

def new (raw : Memory) (capacity : UInt64) (stp : StpConfig) (id : ClientId)
    (config : MarketMakerConfig) : MakerSession where
  engine := MatchingEngine.new raw capacity stp
  maker := MarketMakerStrategy.new id config
  delivered := 0

def call (s : MakerSession) (command : EngineCommand) : MakerSession :=
  { s with engine := (s.engine.exec command).engine }

def act (s : MakerSession)
    (method : MatchingEngine × MarketMakerStrategy -> MatchingEngine × MarketMakerStrategy) :
    MakerSession :=
  { s with engine := (method (s.engine, s.maker)).1, maker := (method (s.engine, s.maker)).2 }

def cancelQuote (s : MakerSession) (side : Side) : MakerSession :=
  s.act (MarketMakerStrategy.cancelQuote MatchingEngine.api side)

def postQuote (s : MakerSession) (side : Side) : MakerSession :=
  s.act (MarketMakerStrategy.postQuote MatchingEngine.api side)

def requote (s : MakerSession) : MakerSession :=
  s.act (MarketMakerStrategy.requote MatchingEngine.api)

def onTick (s : MakerSession) : MakerSession :=
  s.act (fun p => p.2.onTick MatchingEngine.api p.1)

def onTrade (s : MakerSession) (trade : Trade) : MakerSession :=
  s.act (fun p => p.2.onTrade MatchingEngine.api p.1 trade)

def pending (s : MakerSession) : List Trade :=
  (s.engine.sink.filterMap SinkEvent.trade?).drop s.delivered

def step (s : MakerSession) : SessionMove -> MakerSession
  | .tick => s.onTick
  | .trade =>
      match s.pending with
      | [] => s
      | trade :: _ => onTrade { s with delivered := s.delivered + 1 } trade
  | .client command => s.call command

def run (s : MakerSession) (moves : List SessionMove) : MakerSession :=
  Machine.run step s moves

def visits (s : MakerSession) (moves : List SessionMove) : List (MakerSession × SessionMove) :=
  Machine.visits step s moves

/-!
## The maker's methods on the session
-/

section Methods

variable (s : MakerSession) (side : Side)

theorem cancelQuote_eq :
    s.cancelQuote side =
      if (s.maker.recorded side).value ≠ 0 then
        { s.call (.cancel (s.maker.recorded side)) with
          maker := s.maker.record side ⟨0⟩ }
      else s := by
  unfold cancelQuote act MarketMakerStrategy.cancelQuote
  split
  · rfl
  · rfl

theorem postQuote_eq :
    s.postQuote side =
      { s.call (.limit (s.maker.quote side)) with
        maker := s.maker.quoted side
          (s.engine.exec (.limit (s.maker.quote side))).response } :=
  rfl

theorem act_act
    (f g : MatchingEngine × MarketMakerStrategy -> MatchingEngine × MarketMakerStrategy) :
    (s.act f).act g = s.act (fun p => g (f p)) :=
  rfl

theorem requote_eq :
    s.requote =
      (((s.cancelQuote .buy).cancelQuote .sell).postQuote .buy).postQuote
        .sell := by
  unfold requote postQuote cancelQuote
  rw [act_act, act_act, act_act]
  unfold MarketMakerStrategy.requote
  rfl

theorem onTick_eq :
    s.onTick =
      if s.maker.quoting then
        if s.maker.config.driftPerTick ≠ 0 then requote { s with maker := s.maker.drift }
        else s
      else requote { s with maker := { s.maker with quoting := true } } := by
  unfold onTick requote act MarketMakerStrategy.onTick
  dsimp only
  split
  · split
    · rfl
    · rfl
  · rfl

theorem onTrade_eq (trade : Trade) :
    s.onTrade trade =
      if s.maker.hit trade .buy || s.maker.hit trade .sell then
        requote { s with maker := (s.maker.release trade .buy).release trade .sell }
      else s := by
  unfold onTrade requote act MarketMakerStrategy.onTrade
  dsimp only
  split
  · rfl
  · rfl

end Methods

/-!
## What the maker knows about its quotes
-/

def live (s : MakerSession) (side : Side) : List RestingOrder :=
  (s.engine.book.resting side).filter (fun r => decide (r.owner = s.maker.id))

/-- Every live quote of a side is the recorded one. -/
def Tracked (s : MakerSession) (side : Side) : Prop :=
  forall r, r ∈ s.live side -> r.id = s.maker.recorded side ∧ r.id.value ≠ 0

def Thins (s s' : MakerSession) (side : Side) : Prop :=
  forall r, r ∈ s'.live side -> exists former, former ∈ s.live side ∧ former.id = r.id

def pendingFills (s : MakerSession) : List Fill :=
  (Fill.fills s.engine.sink).drop s.delivered

/--
A trade that the maker misreads: it says that a resting order was removed and
names a recorded quote, but that quote was the order that came in, and what was
left of it still rests.
-/
def Misread (s : MakerSession) (f : Fill) : Prop :=
  f.trade.restingOrderRemoved = true ∧
    exists accepted, accepted ∈ f.incoming ∧
      f.trade.orderId accepted.side = s.maker.recorded accepted.side ∧
      exists r, r ∈ s.engine.book.resting accepted.side ∧
        r.id = s.maker.recorded accepted.side

/-- Until an order of the maker has been accepted, its next two ids are not zero. -/
def NonzeroIds (s : MakerSession) : Prop :=
  s.engine.lastAcceptedId s.maker.id = none ->
    s.maker.nextOrderId.value ≠ 0 ∧ s.maker.nextOrderId.value + 1 ≠ 0

def Readable (s : MakerSession) : SessionMove -> Prop
  | .tick => s.NonzeroIds
  | .trade =>
      s.NonzeroIds ∧ forall f, f ∈ s.pendingFills.head? -> ¬ s.Misread f
  | .client _ => True

/--
Ids belong to one client each.  The maker and the other clients submit orders
under ids of their own, and the others cancel no order of the maker.
-/
def Disjoint (space : OrderId -> ClientId) (s : MakerSession) : SessionMove -> Prop
  | .client (.limit order) =>
      order.owner ≠ s.maker.id ∧ space order.id = order.owner
  | .client (.market order) =>
      order.owner ≠ s.maker.id ∧ space order.id = order.owner
  | .client (.cancel id) => space id ≠ s.maker.id
  | _ =>
      space s.maker.nextOrderId = s.maker.id ∧
        space ⟨s.maker.nextOrderId.value + 1⟩ = s.maker.id

/-!
## Calls of the session
-/

/-- Ids have one client, and what the trades to come say about the book is settled. -/
structure Ledger (space : OrderId -> ClientId) (s : MakerSession) : Prop where
  spaced : Spaced space s.engine
  retired : forall f, f ∈ s.pendingFills -> exists accepted, accepted ∈ f.incoming ∧
    (f.trade.restingOrderRemoved = true ->
      Retired space s.engine (f.trade.orderId accepted.side.opposite))

structure FreshId (space : OrderId -> ClientId) (s : MakerSession) (id : OrderId) : Prop where
  own : space id = s.maker.id
  nonzero : s.engine.lastAcceptedId s.maker.id = none -> id.value ≠ 0

section Calls

variable {space : OrderId -> ClientId} {s : MakerSession} {command : EngineCommand}
  {m : MarketMakerStrategy}

theorem Ledger.call (h : Ledger space s) (hown : OwnId space command) :
    Ledger space (s.call command) where
  spaced := h.spaced.exec hown
  retired := by
    intro f hf
    rcases Fill.fills_exec h.spaced.wellFormed command with ⟨new, hfills, hnew⟩
    have hf : f ∈ (Fill.fills (s.engine.exec command).engine.sink).drop s.delivered := hf
    rw [hfills, List.drop_append] at hf
    rcases List.mem_append.mp hf with hold | hadded
    · rcases h.retired f hold with ⟨accepted, haccepted, hretired⟩
      exact ⟨accepted, haccepted,
        fun hflag => (hretired hflag).exec h.spaced.wellFormed hown⟩
    · rcases hnew f (List.mem_of_mem_drop hadded) with ⟨order, horder, hincoming, htrade⟩
      refine ⟨order.announced, hincoming, fun hflag => ?_⟩
      have hflagged : Trade.counterparty order.side f.trade ∈
          MatchingEngine.flagged command (s.engine.exec command).response.trades := by
        unfold MatchingEngine.flagged
        rw [horder]
        exact List.mem_map_of_mem (List.mem_filter.mpr ⟨htrade, hflag⟩)
      have hretired := h.spaced.flagged_retired hown hflagged
      rw [Trade.counterparty_fst] at hretired
      exact hretired

theorem live_call (h : Ledger space s) (hm : m.id = s.maker.id) {side : Side}
    {r : RestingOrder} (hr : r ∈ live { s.call command with maker := m } side) :
    (exists former, former ∈ s.live side ∧ former.id = r.id) ∨
      exists lo, command = .limit lo ∧ s.engine.Admits (.limit lo) ∧
        lo.side = side ∧ lo.id = r.id ∧ lo.owner = s.maker.id ∧
        (s.engine.exec command).response.status = .accepted ∧
        Quantity.zero < (s.engine.exec command).response.remainingQty := by
  rcases List.mem_filter.mp hr with ⟨hresting, howner⟩
  have howner : r.owner = s.maker.id := (of_decide_eq_true howner).trans hm
  rcases MatchingEngine.exec_origin h.spaced.wellFormed command hresting with
    ⟨former, hformer, hid, hsame⟩ | ⟨lo, hlo, hadmits, hside, hid, hsame, hresponse⟩
  · have hlive : former ∈ s.live side :=
      List.mem_filter.mpr ⟨hformer, decide_eq_true (hsame.trans howner)⟩
    exact Or.inl ⟨former, hlive, hid⟩
  · exact Or.inr ⟨lo, hlo, hadmits, hside, hid, hsame.trans howner, hresponse⟩

theorem FreshId.call {id : OrderId} (h : FreshId space s id) (hl : Ledger space s)
    (hm : m.id = s.maker.id) : FreshId space { s.call command with maker := m } id where
  own := h.own.trans hm.symm
  nonzero := by
    intro hnone
    apply h.nonzero
    have hnone : (s.engine.exec command).engine.lastAcceptedId m.id = none := hnone
    rw [hm] at hnone
    cases hlast : s.engine.lastAcceptedId s.maker.id with
    | none => rfl
    | some w =>
        rcases exec_passed hl.spaced.wellFormed command ⟨w, hlast, UInt64.le_refl _⟩ with
          ⟨w', hw', -⟩
        rw [hnone] at hw'
        cases hw'

theorem FreshId.ne_zero {order : LimitOrder} (h : FreshId space s order.id)
    (howner : order.owner = s.maker.id) (hadmits : s.engine.Admits (.limit order)) :
    order.id.value ≠ 0 := by
  cases hlast : s.engine.lastAcceptedId s.maker.id with
  | none => exact h.nonzero hlast
  | some w =>
      have hlast : s.engine.lastAcceptedId order.owner = some w := howner ▸ hlast
      have hlt := Watermarked.lt_of_admits hadmits hlast
      intro hzero
      have hlt : w.value < order.id.value := hlt
      rw [hzero] at hlt
      exact UInt64.not_lt_zero hlt

end Calls

/-!
## Quotes
-/

section Quotes

variable {space : OrderId -> ClientId} {s s' : MakerSession} {side t : Side}

theorem Thins.live_nil (h : Thins s s' t) (hlive : s.live t = []) : s'.live t = [] := by
  apply List.eq_nil_iff_forall_not_mem.mpr
  intro r hr
  rcases h r hr with ⟨former, hformer, -⟩
  rw [hlive] at hformer
  cases hformer

theorem Thins.tracked (h : Thins s s' t) (ht : s.Tracked t)
    (hrecorded : s'.maker.recorded t = s.maker.recorded t) : s'.Tracked t := by
  intro r hr
  rcases h r hr with ⟨former, hformer, hid⟩
  rw [hrecorded, ← hid]
  exact ht former hformer

theorem Tracked.of_live_nil (h : s.live side = []) : s.Tracked side := by
  intro r hr
  rw [h] at hr
  cases hr

theorem Ledger.cancelQuote (h : Ledger space s) (side : Side) :
    Ledger space (s.cancelQuote side) := by
  rw [cancelQuote_eq]
  split
  · have hcall : Ledger space (s.call (.cancel (s.maker.recorded side))) :=
      h.call (fun order horder => by cases horder)
    exact ⟨hcall.spaced, hcall.retired⟩
  · exact h

theorem FreshId.cancelQuote {id : OrderId} (h : FreshId space s id) (hl : Ledger space s)
    (side : Side) : FreshId space (s.cancelQuote side) id := by
  rw [cancelQuote_eq]
  split
  · exact h.call hl (MarketMakerStrategy.id_record _ side _)
  · exact h

theorem nextOrderId_cancelQuote (s : MakerSession) (side : Side) :
    (s.cancelQuote side).maker.nextOrderId = s.maker.nextOrderId := by
  rw [cancelQuote_eq]
  split
  · exact MarketMakerStrategy.nextOrderId_record _ side _
  · rfl

theorem thins_cancelQuote (h : Ledger space s) (side t : Side) :
    Thins s (s.cancelQuote side) t := by
  intro r hr
  rw [cancelQuote_eq] at hr
  split at hr
  · rcases live_call h (MarketMakerStrategy.id_record _ side _) hr with hold | ⟨lo, hlo, -⟩
    · exact hold
    · cases hlo
  · exact ⟨r, hr, rfl⟩

theorem recorded_cancelQuote_of_ne (s : MakerSession) (hne : t ≠ side) :
    (s.cancelQuote side).maker.recorded t = s.maker.recorded t := by
  rw [cancelQuote_eq]
  split
  · exact MarketMakerStrategy.recorded_record_of_ne _ side _ hne
  · rfl

theorem Tracked.live_cancelQuote (ht : s.Tracked side) (h : Ledger space s) :
    (s.cancelQuote side).live side = [] := by
  apply List.eq_nil_iff_forall_not_mem.mpr
  intro r hr
  rcases thins_cancelQuote h side side r hr with ⟨former, hformer, hid⟩
  rcases ht former hformer with ⟨hrecorded, hnonzero⟩
  rw [hrecorded] at hnonzero
  rw [cancelQuote_eq, if_pos hnonzero] at hr
  apply h.spaced.cancel_gone (s.maker.recorded side) (List.mem_filter.mp hr).left
  rw [← hid, hrecorded]

theorem Ledger.postQuote (h : Ledger space s) (hfresh : FreshId space s s.maker.nextOrderId)
    (side : Side) : Ledger space (s.postQuote side) := by
  have hcall : Ledger space (s.call (.limit (s.maker.quote side))) := by
    apply h.call
    intro order horder
    cases horder
    exact hfresh.own
  rw [postQuote_eq]
  exact ⟨hcall.spaced, hcall.retired⟩

theorem FreshId.postQuote {id : OrderId} (h : FreshId space s id) (hl : Ledger space s)
    (side : Side) : FreshId space (s.postQuote side) id := by
  rw [postQuote_eq]
  exact h.call hl (MarketMakerStrategy.id_quoted _ _ side)

theorem thins_postQuote (h : Ledger space s) (hne : t ≠ side) :
    Thins s (s.postQuote side) t := by
  intro r hr
  rw [postQuote_eq] at hr
  rcases live_call h (MarketMakerStrategy.id_quoted _ _ side) hr with
    hold | ⟨lo, hlo, -, hside, -⟩
  · exact hold
  · cases hlo
    exact absurd hside.symm hne

theorem recorded_postQuote_of_ne (s : MakerSession) (hne : t ≠ side) :
    (s.postQuote side).maker.recorded t = s.maker.recorded t :=
  MarketMakerStrategy.recorded_quoted_of_ne _ _ side hne

theorem tracked_postQuote (h : Ledger space s)
    (hfresh : FreshId space s s.maker.nextOrderId) (hlive : s.live side = []) :
    (s.postQuote side).Tracked side := by
  rw [postQuote_eq]
  intro r hr
  rcases live_call h (MarketMakerStrategy.id_quoted _ _ side) hr with
    ⟨former, hformer, -⟩ | ⟨lo, hlo, hadmits, -, hid, howner, hstatus, hleft⟩
  · rw [hlive] at hformer
    cases hformer
  · cases hlo
    rw [← hid]
    constructor
    · exact (MarketMakerStrategy.recorded_quoted _ _ side hstatus hleft).symm
    · exact hfresh.ne_zero howner hadmits

structure Inv (space : OrderId -> ClientId) (s : MakerSession) : Prop
    extends Ledger space s where
  tracked : forall side, s.Tracked side

theorem Inv.live_pulled (h : Inv space s) (side : Side) :
    ((s.cancelQuote .buy).cancelQuote .sell).live side = [] := by
  have hpulled := h.toLedger.cancelQuote .buy
  cases side with
  | buy =>
      have hbuy := (h.tracked .buy).live_cancelQuote h.toLedger
      exact (thins_cancelQuote hpulled .sell .buy).live_nil hbuy
  | sell =>
      have hsell : (s.cancelQuote .buy).Tracked .sell :=
        (thins_cancelQuote h.toLedger .buy .sell).tracked (h.tracked .sell)
          (recorded_cancelQuote_of_ne s (by decide))
      exact hsell.live_cancelQuote hpulled

theorem Ledger.post (h : Ledger space s) (hlive : forall side, s.live side = [])
    (hbid : FreshId space s s.maker.nextOrderId)
    (hask : FreshId space s ⟨s.maker.nextOrderId.value + 1⟩) :
    Inv space ((s.postQuote .buy).postQuote .sell) := by
  have hposted := h.postQuote hbid .buy
  have htracked := tracked_postQuote h hbid (hlive .buy)
  have hsell : (s.postQuote .buy).live .sell = [] :=
    (thins_postQuote h (by decide)).live_nil (hlive .sell)
  have hnext : (s.postQuote .buy).maker.nextOrderId = ⟨s.maker.nextOrderId.value + 1⟩ :=
    MarketMakerStrategy.nextOrderId_quoted _ _ _
  have hask := hask.postQuote h .buy
  rw [← hnext] at hask
  refine ⟨hposted.postQuote hask .sell, ?_⟩
  intro side
  cases side with
  | buy =>
      exact (thins_postQuote hposted (by decide)).tracked htracked
        (recorded_postQuote_of_ne _ (by decide))
  | sell => exact tracked_postQuote hposted hask hsell

theorem Inv.requote (h : Inv space s) (hbid : FreshId space s s.maker.nextOrderId)
    (hask : FreshId space s ⟨s.maker.nextOrderId.value + 1⟩) : Inv space s.requote := by
  have hpulled := h.toLedger.cancelQuote .buy
  have hnext : ((s.cancelQuote .buy).cancelQuote .sell).maker.nextOrderId =
      s.maker.nextOrderId := by
    rw [nextOrderId_cancelQuote, nextOrderId_cancelQuote]
  rw [requote_eq]
  apply (hpulled.cancelQuote .sell).post h.live_pulled
  · rw [hnext]
    exact (hbid.cancelQuote h.toLedger .buy).cancelQuote hpulled .sell
  · rw [hnext]
    exact (hask.cancelQuote h.toLedger .buy).cancelQuote hpulled .sell

end Quotes

/-!
## Moves of the session
-/

section Moves

variable {space : OrderId -> ClientId} {s : MakerSession}

theorem Tracked.of_maker {side : Side} {m : MarketMakerStrategy} (ht : s.Tracked side)
    (hid : m.id = s.maker.id) (hrecorded : m.recorded side = s.maker.recorded side) :
    Tracked { s with maker := m } side := by
  intro r hr
  have hr : r ∈ s.live side := by
    unfold live at hr ⊢
    rw [← hid]
    exact hr
  show r.id = m.recorded side ∧ _
  rw [hrecorded]
  exact ht r hr

theorem Tracked.release {side : Side} {trade : Trade} (ht : s.Tracked side)
    (hgone : trade.restingOrderRemoved = true ->
      trade.orderId side = s.maker.recorded side ->
      forall r, r ∈ s.engine.book.resting side -> r.id ≠ s.maker.recorded side) :
    Tracked { s with maker := s.maker.release trade side } side := by
  have hid := MarketMakerStrategy.id_release s.maker trade side
  unfold MarketMakerStrategy.release at hid ⊢
  split
  · next hhit =>
      simp only [MarketMakerStrategy.hit, Bool.and_eq_true, decide_eq_true_eq] at hhit
      rcases hhit with ⟨⟨-, hside⟩, hflag⟩
      apply Tracked.of_live_nil
      apply List.eq_nil_iff_forall_not_mem.mpr
      intro r hr
      rcases List.mem_filter.mp hr with ⟨hresting, howner⟩
      have hlive : r ∈ s.live side := by
        rw [MarketMakerStrategy.id_record] at howner
        exact List.mem_filter.mpr ⟨hresting, howner⟩
      exact hgone hflag hside r hresting (ht r hlive).left
  · exact ht

/-- A trade that is not misread tells the truth about the quotes that it names. -/
theorem Ledger.gone (h : Ledger space s) {f : Fill} (hf : f ∈ s.pendingFills)
    (hread : ¬ s.Misread f) (hflag : f.trade.restingOrderRemoved = true) {side : Side}
    (hside : f.trade.orderId side = s.maker.recorded side) {r : RestingOrder}
    (hr : r ∈ s.engine.book.resting side) : r.id ≠ s.maker.recorded side := by
  rcases h.retired f hf with ⟨accepted, haccepted, hretired⟩
  rcases Side.eq_or_eq_opposite accepted.side side with rfl | rfl
  · intro hid
    exact hread ⟨hflag, accepted, haccepted, hside, r, hr, hid⟩
  · rw [← hside]
    exact (hretired hflag).gone _ r hr

theorem pendingFills_cons {trade : Trade} {rest : List Trade} (h : s.pending = trade :: rest) :
    exists f, f ∈ s.pendingFills.head? ∧ f ∈ s.pendingFills ∧ f.trade = trade := by
  have htrades : s.pendingFills.map Fill.trade = s.pending := by
    unfold pendingFills pending Fill.fills
    rw [List.map_drop, Fill.map_trade_fillsFrom]
  rw [h] at htrades
  cases hfills : s.pendingFills with
  | nil =>
      rw [hfills] at htrades
      cases htrades
  | cons f fills =>
      rw [hfills] at htrades
      exact ⟨f, rfl, List.mem_cons_self, (List.cons.inj htrades).left⟩

theorem FreshId.of_maker {id : OrderId} {m : MarketMakerStrategy} (h : FreshId space s id)
    (hid : m.id = s.maker.id) : FreshId space { s with maker := m } id where
  own := h.own.trans hid.symm
  nonzero hnone := h.nonzero (hid ▸ hnone)

theorem freshIds (hids : s.NonzeroIds) (hdisjoint : s.Disjoint space .tick) :
    FreshId space s s.maker.nextOrderId ∧
      FreshId space s ⟨s.maker.nextOrderId.value + 1⟩ :=
  ⟨⟨hdisjoint.left, fun hnone => (hids hnone).left⟩,
    ⟨hdisjoint.right, fun hnone => (hids hnone).right⟩⟩

theorem Inv.requote_of_maker {m : MarketMakerStrategy} (h : Inv space s)
    (hids : s.NonzeroIds) (hdisjoint : s.Disjoint space .tick)
    (hid : m.id = s.maker.id) (hnext : m.nextOrderId = s.maker.nextOrderId)
    (htracked : forall side, Tracked { s with maker := m } side) :
    Inv space (MakerSession.requote { s with maker := m }) := by
  rcases freshIds hids hdisjoint with ⟨hbid, hask⟩
  have hinv : Inv space { s with maker := m } := ⟨⟨h.spaced, h.retired⟩, htracked⟩
  apply hinv.requote
  · show FreshId space { s with maker := m } m.nextOrderId
    rw [hnext]
    exact hbid.of_maker hid
  · show FreshId space { s with maker := m } ⟨m.nextOrderId.value + 1⟩
    rw [hnext]
    exact hask.of_maker hid

theorem Inv.onTick (h : Inv space s) (hids : s.NonzeroIds)
    (hdisjoint : s.Disjoint space .tick) : Inv space s.onTick := by
  rw [onTick_eq]
  split
  · split
    · rcases s.maker.drift_kept with ⟨hid, hnext, hrecorded⟩
      exact h.requote_of_maker hids hdisjoint hid hnext
        (fun side => (h.tracked side).of_maker hid (hrecorded side))
    · exact h
  · have htracked : forall side,
        Tracked { s with maker := { s.maker with quoting := true } } side := by
      intro side
      apply (h.tracked side).of_maker
      · rfl
      · cases side <;> rfl
    apply h.requote_of_maker hids hdisjoint _ _ htracked
    · rfl
    · rfl

theorem Inv.onTrade {trade : Trade} (h : Inv space s) (hids : s.NonzeroIds)
    (hdisjoint : s.Disjoint space .tick)
    (hgone : trade.restingOrderRemoved = true -> forall side,
      trade.orderId side = s.maker.recorded side ->
      forall r, r ∈ s.engine.book.resting side -> r.id ≠ s.maker.recorded side) :
    Inv space (s.onTrade trade) := by
  rw [onTrade_eq]
  split
  · have hbuy : Tracked { s with maker := s.maker.release trade .buy } .buy :=
      (h.tracked .buy).release (fun hflag => hgone hflag .buy)
    have hkept : (s.maker.release trade .buy).recorded .sell =
        s.maker.recorded .sell :=
      s.maker.recorded_release_of_ne trade .buy (by decide)
    have hsell : Tracked { s with maker := s.maker.release trade .buy } .sell :=
      (h.tracked .sell).of_maker (s.maker.id_release trade _) hkept
    apply h.requote_of_maker hids hdisjoint
    · rw [MarketMakerStrategy.id_release, MarketMakerStrategy.id_release]
    · rw [MarketMakerStrategy.nextOrderId_release, MarketMakerStrategy.nextOrderId_release]
    · intro side
      cases side with
      | buy =>
          exact hbuy.of_maker (MarketMakerStrategy.id_release _ trade _)
            (MarketMakerStrategy.recorded_release_of_ne _ trade .sell (by decide))
      | sell =>
          apply hsell.release
          intro hflag hside
          show forall r, r ∈ s.engine.book.resting .sell ->
            r.id ≠ (s.maker.release trade .buy).recorded .sell
          rw [hkept]
          exact hgone hflag .sell (hside.trans hkept)
  · exact h

theorem Inv.client {command : EngineCommand} (h : Inv space s)
    (hdisjoint : s.Disjoint space (.client command)) :
    Inv space (s.call command) := by
  have hown : OwnId space command := by
    intro order horder
    cases command with
    | limit lo =>
        cases horder
        exact hdisjoint.right
    | market mo =>
        cases horder
        exact hdisjoint.right
    | cancel id => cases horder
  have hthins : forall side, Thins s (s.call command) side := by
    intro side r hr
    rcases live_call (m := s.maker) h.toLedger rfl hr with
      hold | ⟨lo, rfl, -, -, -, howner, -⟩
    · exact hold
    · exact absurd howner hdisjoint.left
  exact ⟨h.toLedger.call hown, fun side => (hthins side).tracked (h.tracked side) rfl⟩

theorem Inv.step {move : SessionMove} (h : Inv space s) (hdisjoint : s.Disjoint space move)
    (hread : s.Readable move) : Inv space (s.step move) := by
  cases move with
  | tick => exact h.onTick hread hdisjoint
  | trade =>
      show Inv space (match s.pending with
        | [] => s
        | trade :: _ => MakerSession.onTrade { s with delivered := s.delivered + 1 } trade)
      split
      · exact h
      · next trade rest hpending =>
          rcases pendingFills_cons hpending with ⟨f, hhead, hf, rfl⟩
          have hlater : Inv space { s with delivered := s.delivered + 1 } :=
            ⟨⟨h.spaced, fun f hf => h.retired f (List.drop_subset_drop_left _ (Nat.le_succ _) hf)⟩,
              h.tracked⟩
          apply hlater.onTrade hread.left hdisjoint
          intro hflag side hside r hr
          exact h.toLedger.gone hf (hread.right f hhead) hflag hside hr
  | client command => exact h.client hdisjoint

theorem Inv.new (space : OrderId -> ClientId) (raw : Memory) (capacity : UInt64)
    (stp : StpConfig) (id : ClientId) (config : MarketMakerConfig) :
    Inv space (MakerSession.new raw capacity stp id config) where
  spaced := Spaced.new space raw capacity stp
  retired f hf := by cases hf
  tracked side r hr := by
    have hresting : r ∈ (MatchingEngine.new raw capacity stp).book.resting side :=
      (List.mem_filter.mp hr).left
    have hempty : (MatchingEngine.new raw capacity stp).book.resting side = [] :=
      OrderBook.WellFormed.resting_new raw capacity side
    rw [hempty] at hresting
    cases hresting

theorem Inv.length_live (h : Inv space s) (side : Side) : (s.live side).length <= 1 :=
  h.spaced.length_of_same_id List.filter_sublist (fun r hr => (h.tracked side r hr).left)

end Moves

/--
In every session in which ids belong to one client each, and in which the maker
is not handed a trade that it misreads and quotes under no id zero, the maker's
resting orders are those it has recorded, at most one on each side.
-/
theorem quotes_tracked (raw : Memory) (capacity : UInt64) (stp : StpConfig) (id : ClientId)
    (config : MarketMakerConfig) (space : OrderId -> ClientId) (moves : List SessionMove)
    (hdisjoint : forall v, v ∈ (new raw capacity stp id config).visits moves ->
      v.1.Disjoint space v.2)
    (hread : forall v, v ∈ (new raw capacity stp id config).visits moves ->
      v.1.Readable v.2) (side : Side) :
    ((new raw capacity stp id config).run moves).Tracked side ∧
      (((new raw capacity stp id config).run moves).live side).length <= 1 := by
  have hstep : forall s move, Inv space s ->
      (s.Disjoint space move ∧ s.Readable move) -> Inv space (s.step move) :=
    fun s move h hok => h.step hok.left hok.right
  have hinv : Inv space ((new raw capacity stp id config).run moves) :=
    Machine.run_invariant_of hstep (Inv.new space raw capacity stp id config)
      (fun v hv => ⟨hdisjoint v hv, hread v hv⟩)
  exact ⟨hinv.tracked side, hinv.length_live side⟩

/-!
## Two quotes of one side
-/

instance (space : OrderId -> ClientId) (s : MakerSession) (move : SessionMove) :
    Decidable (s.Disjoint space move) :=
  match move with
  | .client (.limit _) => inferInstanceAs (Decidable (_ ∧ _))
  | .client (.market _) => inferInstanceAs (Decidable (_ ∧ _))
  | .client (.cancel _) => inferInstanceAs (Decidable (_ ≠ _))
  | .tick => inferInstanceAs (Decidable (_ ∧ _))
  | .trade => inferInstanceAs (Decidable (_ ∧ _))

instance (s : MakerSession) (f : Fill) : Decidable (s.Misread f) :=
  inferInstanceAs (Decidable (_ ∧ exists accepted, accepted ∈ f.incoming ∧ _))

instance (s : MakerSession) (move : SessionMove) : Decidable (s.Readable move) :=
  match move with
  | .tick => inferInstanceAs (Decidable (_ -> _ ∧ _))
  | .trade =>
      inferInstanceAs (Decidable ((_ -> _ ∧ _) ∧ forall f, f ∈ s.pendingFills.head? -> _))
  | .client _ => inferInstanceAs (Decidable True)

namespace OneMaker

def config : MarketMakerConfig where
  referencePrice := ⟨100⟩
  spread := ⟨5⟩
  quoteSize := ⟨10⟩

def start : MakerSession :=
  new Memory.zeroed 8 {} ⟨1⟩ config

def space (id : OrderId) : ClientId :=
  if id.value < 1000000000 then ⟨2⟩ else ⟨1⟩

def sell (id : OrderId) (quantity : Quantity) : SessionMove :=
  .client (.limit { id := id, side := .sell, price := ⟨95⟩, quantity := quantity, owner := ⟨2⟩ })

def hitTwice : List SessionMove :=
  [.tick, sell ⟨1⟩ ⟨10⟩, .trade, sell ⟨2⟩ ⟨4⟩, .trade]

theorem quotes_tracked_hitTwice :
    (start.run hitTwice).Tracked .buy ∧
      ((start.run hitTwice).live .buy).map (fun r => r.id) = [⟨1000000005⟩] ∧
      ((start.run hitTwice).live .buy).length <= 1 := by
  have htracked := quotes_tracked Memory.zeroed 8 {} ⟨1⟩ config space hitTwice
    (by decide +kernel) (by decide +kernel) .buy
  exact ⟨htracked.left, by decide +kernel, htracked.right⟩

def takeOffer : List SessionMove :=
  [sell ⟨1⟩ ⟨3⟩, .tick, .trade]

/--
The trade removed the offer, but the maker takes it to have removed its own bid,
seven of which still rest; it posts a second bid and keeps no record of the first.
-/
theorem bid_forgotten :
    (forall v, v ∈ start.visits takeOffer -> v.1.Disjoint space v.2) ∧
      Price.zero < config.spread ∧ Quantity.zero < config.quoteSize ∧
      (start.run takeOffer).maker.bidId = ⟨1000000003⟩ ∧
      (start.run takeOffer).maker.askId = ⟨1000000004⟩ ∧
      ((start.run takeOffer).live .buy).map (fun r => (r.id, r.quantity)) =
        [(⟨1000000001⟩, ⟨7⟩), (⟨1000000003⟩, ⟨10⟩)] ∧
      ¬ (start.run takeOffer).Tracked .buy := by
  have hlive : ((start.run takeOffer).live .buy).map (fun r => (r.id, r.quantity)) =
      [(⟨1000000001⟩, ⟨7⟩), (⟨1000000003⟩, ⟨10⟩)] := by decide +kernel
  have hbid : (start.run takeOffer).maker.recorded .buy = ⟨1000000003⟩ := by
    decide +kernel
  refine ⟨by decide +kernel, by decide, by decide, hbid, by decide +kernel, hlive, ?_⟩
  intro htracked
  have hfirst : ((⟨1000000001⟩, ⟨7⟩) : OrderId × Quantity) ∈
      ((start.run takeOffer).live .buy).map (fun r => (r.id, r.quantity)) := by
    rw [hlive]
    exact List.mem_cons_self
  rcases List.mem_map.mp hfirst with ⟨r, hr, heq⟩
  have hid : r.id = ⟨1000000001⟩ := congrArg Prod.fst heq
  rw [(htracked r hr).left, hbid] at hid
  exact absurd hid (by decide)

end OneMaker
end MakerSession
end MiniExchange
