import MiniExchange.Engine.EqualAsks

/-!
# Self-trade prevention

Under `CancelResting` the matching loop itself passes over the submitter's own
orders.  Under `RejectIncoming` it does not look at owners at all, and the check
made beforehand relies on the index of resting prices, whose counters are 32
bits wide.  One counter wrapped around is enough for a client to trade with
itself.
-/

namespace MiniExchange

open Foundation

namespace MatchingEngine

/--
The trades of each submission are those of its fills, and none of the fills is
against an order of the submitter.
-/
def NoSelfTrade (e : MatchingEngine) (commands : List EngineCommand) : Prop :=
  forall v, v ∈ e.visits commands -> forall order : NewOrder, v.2.newOrder? = some order ->
    (v.1.exec v.2).response.trades =
        Action.trades order.incoming v.1.nextTradeSequence
          ((v.1.exec v.2).ops.filterMap MatchOp.action?) ∧
      forall resting remaining qty,
        .fill resting remaining qty ∈ (v.1.exec v.2).ops.filterMap MatchOp.action? ->
          resting.owner ≠ order.owner

theorem crosses_of_not_beyond {c : Incoming} {p : Price} (h : c.beyondLimit p = false) :
    crosses c.side c.limitPrice p := by
  intro limit hlimit
  unfold Incoming.beyondLimit at h
  rw [hlimit] at h
  cases hside : c.side with
  | buy =>
      rw [hside] at h
      exact not_lt.mp (of_decide_eq_false h)
  | sell =>
      rw [hside] at h
      exact not_lt.mp (of_decide_eq_false h)

theorem fill_owner_ne {e : MatchingEngine} {order : NewOrder} (hw : e.book.WellFormed)
    (hstp : e.stp.enabled = true)
    (hindex : e.stp.policy = .cancelResting ∨
      ClientIndex.Counts e.clientResting e.book.keys)
    (hadmits : e.Admits order) {resting : RestingOrder} {remaining qty : Quantity}
    (hfill : .fill resting remaining qty ∈ (e.sweepOf order).actions) :
    resting.owner ≠ order.owner := by
  rcases sweepOf_actions hfill with ⟨hresting, hcross, hpulls, -⟩
  intro howner
  by_cases hpolicy : e.stp.policy = .cancelResting
  · simp [NewOrder.pulls, hstp, hpolicy, howner] at hpulls
  · have hreject : e.stp.policy = .rejectIncoming := by
      cases hp : e.stp.policy with
      | rejectIncoming => rfl
      | cancelResting => exact absurd hp hpolicy
    rcases hindex with hcancel | hcounts
    · exact hpolicy hcancel
    · have hself : e.wouldSelfCross order.side order.owner order.limitPrice = true := by
        rw [wouldSelfCross_iff_rests, ← selfCrosses_iff hw hcounts]
        exact ⟨resting, hresting, howner, crosses_of_not_beyond hcross⟩
      have hno := hadmits.noSelfCross
      simp [rejectsSelfCross, hstp, hreject, hself] at hno

end MatchingEngine

/--
No client trades with itself while the engine is enabled to prevent it, if
orders are pulled, or if every limit order arrives with fewer than 2^32 orders
of its owner resting at its side and price.
-/
theorem no_self_trade_of_roomToCount (raw : Memory) (capacity : UInt64) (stp : StpConfig)
    (commands : List EngineCommand) (hstp : stp.enabled = true)
    (hroom : stp.policy = .cancelResting ∨
      forall v, v ∈ (MatchingEngine.new raw capacity stp).visits commands ->
        v.1.RoomToCount v.2) :
    (MatchingEngine.new raw capacity stp).NoSelfTrade commands := by
  rintro ⟨e, command⟩ hv order horder
  have hw := MatchingEngine.visits_wellFormed hv
  rcases (Machine.mem_visits_iff _).mp hv with ⟨before, after, hsplit, hstate⟩
  have hstate : e = (MatchingEngine.new raw capacity stp).run before := hstate
  have hstp' : e.stp = stp := hstate ▸ MatchingEngine.run_stp raw capacity stp before
  have hindex : e.stp.policy = .cancelResting ∨
      ClientIndex.Counts e.clientResting e.book.keys := by
    rw [hstp']
    refine hroom.imp_right (fun hall => ?_)
    rw [hstate]
    apply (MatchingEngine.run_indexSound hstp _).counts
    intro v hbefore
    apply hall v
    rw [hsplit]
    unfold MatchingEngine.visits
    rw [Machine.visits_append]
    exact List.mem_append_left _ hbefore
  rcases MatchingEngine.exec_cases hw command with ⟨status, id, -, hcall⟩ |
    ⟨order', rfl, hcall, hadmits, ha⟩ | ⟨id, s, x, rfl, hc⟩
  · rw [hcall]
    exact ⟨rfl, fun _ _ _ hfill => nomatch hfill⟩
  · rw [NewOrder.newOrder?_toCommand, Option.some.injEq] at horder
    subst horder
    rw [hcall, ha.actions]
    refine ⟨ha.trades, ?_⟩
    intro resting remaining qty hfill
    exact MatchingEngine.fill_owner_ne hw (hstp'.symm ▸ hstp) hindex hadmits hfill
  · cases horder

def ownAskThenBid : List EngineCommand :=
  [.limit { id := ⟨1⟩, side := .sell, price := ⟨100⟩, quantity := ⟨5⟩, owner := ⟨1⟩ },
    .limit { id := ⟨2⟩, side := .buy, price := ⟨101⟩, quantity := ⟨5⟩, owner := ⟨1⟩ },
    .limit { id := ⟨1⟩, side := .buy, price := ⟨101⟩, quantity := ⟨5⟩, owner := ⟨2⟩ }]

theorem no_self_trade_ownAskThenBid :
    (forall v, v ∈ (MatchingEngine.new Memory.zeroed 4 { enabled := true }).visits
        ownAskThenBid -> v.1.RoomToCount v.2) ∧
      (MatchingEngine.new Memory.zeroed 4 { enabled := true }).NoSelfTrade ownAskThenBid := by
  have hroom : forall v, v ∈ (MatchingEngine.new Memory.zeroed 4 { enabled := true }).visits
      ownAskThenBid -> v.1.RoomToCount v.2 :=
    fun v hv => visits_roomToCount Memory.zeroed { enabled := true } (by decide) hv
  exact ⟨hroom, no_self_trade_of_roomToCount Memory.zeroed 4 { enabled := true } ownAskThenBid
    rfl (Or.inr hroom)⟩

/-!
## A counter that wraps around

One client stacks 2^32 + 1 asks at one price, so that its counter reads one.
When another client takes the first of them, the counter is erased although
2^32 asks still rest, and the first client's bid is let through to its own asks.
-/

def wideEngine : MatchingEngine :=
  MatchingEngine.new Memory.zeroed 8589934592
    { enabled := true, policy := .rejectIncoming }

/-- The `i`-th ask of the stacking client. -/
def stackedAsk (i : Nat) : LimitOrder where
  id := ⟨UInt64.ofNat (i + 1)⟩
  side := .sell
  price := ⟨100⟩
  quantity := ⟨1⟩
  owner := ⟨1⟩

def takingBid (owner : ClientId) (id : Nat) : LimitOrder where
  id := ⟨UInt64.ofNat id⟩
  side := .buy
  price := ⟨100⟩
  quantity := ⟨1⟩
  owner := owner

def stackedAsks (n : Nat) : List EngineCommand :=
  (List.range n).map (fun i => .limit (stackedAsk i))

structure Stacked (n : Nat) (e : MatchingEngine) : Prop extends EqualAsks ⟨100⟩ n e where
  wellFormed : e.book.WellFormed
  stp : e.stp = { enabled := true, policy := .rejectIncoming }
  capacity : e.book.pool.capacity = 2 ^ 33
  counts : ClientIndex.Counts e.clientResting e.book.keys

namespace Stacked

variable {n : Nat} {e : MatchingEngine}

theorem new : Stacked 0 wideEngine where
  toEqualAsks := EqualAsks.new Memory.zeroed 8589934592 _ ⟨100⟩
  wellFormed := OrderBook.WellFormed.new _ _
  stp := rfl
  capacity := (OrderPool.new_spec _ _).left
  counts := (MatchingEngine.indexSound_new _ _ _).counts

theorem admits_ask (h : Stacked n e) (hn : n < 2 ^ 33) :
    e.Admits (.limit (stackedAsk n)) := by
  have hroom : n < e.book.pool.capacity := by
    rw [h.capacity]
    exact hn
  apply h.toEqualAsks.admits_ask h.wellFormed h.counts hroom (by omega) rfl rfl rfl
  · exact (by decide : Quantity.zero < (⟨1⟩ : Quantity))
  · exact (by decide : Price.zero < (⟨100⟩ : Price))

theorem ask (h : Stacked n e) (hn : n < 2 ^ 33) :
    Stacked (n + 1) (e.exec (.limit (stackedAsk n))).engine := by
  have ha := MatchingEngine.admission h.wellFormed (h.admits_ask hn)
  have hsweep : e.sweepOf (.limit (stackedAsk n)) = Sweep.stop ⟨1⟩ [] :=
    MatchingEngine.sweepOf_alone h.bids
  show Stacked (n + 1) (e.submit (.limit (stackedAsk n))).engine
  exact
    { toEqualAsks := h.toEqualAsks.ask rfl rfl rfl rfl rfl ha
      wellFormed := ha.wellFormed
      stp := ha.stp.trans h.stp
      capacity := ha.capacity.trans h.capacity
      counts := by
        apply MatchingEngine.submit_counts (by rw [h.stp]) h.counts _ ha
        rw [hsweep]
        intro o ho
        cases ho }

theorem stackedAsks (hn : n <= 2 ^ 33) :
    Stacked n (wideEngine.run (stackedAsks n)) := by
  induction n with
  | zero => exact new
  | succ n ih =>
      have hone := (ih (Nat.le_of_succ_le hn)).ask (Nat.lt_of_succ_le hn)
      unfold MiniExchange.stackedAsks MatchingEngine.run at hone ⊢
      rw [List.range_succ, List.map_append, Machine.run_append]
      exact hone

theorem keys_eq (h : Stacked n e) :
    e.book.keys = List.replicate n ⟨⟨1⟩, .sell, ⟨100⟩⟩ := by
  unfold OrderBook.keys
  rw [h.bids, List.nil_append, List.eq_replicate_iff, List.length_map]
  refine ⟨h.length, ?_⟩
  intro k hk
  rcases List.mem_map.mp hk with ⟨o, ho, rfl⟩
  rcases h.asks o ho with ⟨howner, hprice, -⟩
  unfold RestingOrder.key
  rw [howner, hprice, h.wellFormed.resting_side ho]

theorem admits_taker (h : Stacked n e) (hn : n < 2 ^ 33) :
    e.Admits (.limit (takingBid ⟨2⟩ 1)) := by
  have hroom : n < e.book.pool.capacity := by
    rw [h.capacity]
    exact hn
  exact h.toEqualAsks.admits_bid h.wellFormed h.counts hroom rfl rfl (by decide) (by decide)

end Stacked

theorem sweep_unit {e : MatchingEngine} {owner : ClientId} {id : Nat} {o : RestingOrder}
    {rest : List RestingOrder}
    (hstp : e.stp = { enabled := true, policy := .rejectIncoming })
    (hresting : e.book.resting .sell = o :: rest) (hprice : o.price = ⟨100⟩)
    (hquantity : o.quantity = ⟨1⟩) :
    e.sweepOf (.limit (takingBid owner id)) =
      { actions := [.fill o ⟨1⟩ ⟨1⟩], remaining := Quantity.zero, left := rest } := by
  show Incoming.sweep _ _ ⟨1⟩ (e.book.resting .sell) = _
  rw [hresting, Incoming.sweep_fill]
  · have hfill : Incoming.fillQty ⟨1⟩ ⟨1⟩ = ⟨1⟩ := by decide
    rw [hquantity, hfill, if_pos rfl, Quantity.sub_self,
      Incoming.sweep_exhausted (lt_irrefl _)]
    rfl
  · apply Incoming.reaches_of (by decide)
    rw [hprice]
    rfl
  · simp [NewOrder.pulls, hstp]

theorem Stacked.taken {e : MatchingEngine} (h : Stacked (2 ^ 32 + 1) e) {o : RestingOrder}
    {rest : List RestingOrder} (hresting : e.book.resting .sell = o :: rest)
    (ha : MatchingEngine.Admission e (.limit (takingBid ⟨2⟩ 1))
      (e.submit (.limit (takingBid ⟨2⟩ 1)))) (k : RestKey) :
    (e.submit (.limit (takingBid ⟨2⟩ 1))).engine.clientResting.count? k = none := by
  rcases h.asks o (hresting ▸ List.mem_cons_self) with ⟨howner, hprice, hquantity⟩
  have hsweep : e.sweepOf (.limit (takingBid ⟨2⟩ 1)) = _ :=
    sweep_unit h.stp hresting hprice hquantity
  have hindex : (e.submit (.limit (takingBid ⟨2⟩ 1))).engine.clientResting =
      e.clientResting.unrest o := by
    have hremoved : Action.removed [.fill o ⟨1⟩ ⟨1⟩] = [o] := by
      simp [Action.removed, Action.removed?, hquantity]
    rw [ha.clientResting, hsweep, hremoved, h.stp]
    simp only [MatchingEngine.restedBy, hsweep]
    rfl
  have hkey : o.key = ⟨⟨1⟩, .sell, ⟨100⟩⟩ := by
    have hmem : o ∈ e.book.resting .sell := hresting ▸ List.mem_cons_self
    unfold RestingOrder.key
    rw [howner, hprice, h.wellFormed.resting_side hmem]
  have hcounter : e.clientResting.count? o.key = some 1 := by
    rw [h.counts.count_eq, h.keys_eq, hkey, List.count_replicate_self]
    rfl
  rw [hindex, ClientIndex.count?_unrest hcounter]
  by_cases hk : k = o.key
  · rw [if_pos hk]
    rfl
  · have hzero : e.book.keys.count k = 0 := by
      rw [h.keys_eq, ← hkey]
      exact List.count_eq_zero.mpr (fun hmem => hk (List.eq_of_mem_replicate hmem))
    rw [if_neg hk, h.counts.count_eq, hzero]
    rfl

structure Unlocked (e : MatchingEngine) (own : RestingOrder) (rest : List RestingOrder) :
    Prop where
  wellFormed : e.book.WellFormed
  stp : e.stp = { enabled := true, policy := .rejectIncoming }
  asks : e.book.resting .sell = own :: rest
  owner : own.owner = ⟨1⟩
  price : own.price = ⟨100⟩
  quantity : own.quantity = ⟨1⟩
  last : e.lastAcceptedId ⟨1⟩ = some ⟨UInt64.ofNat (2 ^ 32 + 1)⟩
  counters : forall k, e.clientResting.count? k = none
  available : e.book.poolAvailable ≠ 0

theorem Stacked.unlocked {n : Nat} {e : MatchingEngine} (h : Stacked n e)
    (hn : n = 2 ^ 32 + 1) :
    exists own rest,
      Unlocked (e.exec (.limit (takingBid ⟨2⟩ 1))).engine own rest := by
  subst hn
  have ha := MatchingEngine.admission h.wellFormed (h.admits_taker (by decide))
  have hlength := h.length
  match hresting : e.book.resting .sell with
  | [] =>
      rw [hresting] at hlength
      cases hlength
  | [o] =>
      rw [hresting] at hlength
      cases hlength
  | o :: own :: rest =>
      rcases h.asks o (by simp [hresting]) with ⟨-, hprice, hquantity⟩
      rcases h.asks own (by simp [hresting]) with ⟨howner, hprice', hquantity'⟩
      have hsweep : e.sweepOf (.limit (takingBid ⟨2⟩ 1)) = _ :=
        sweep_unit h.stp hresting hprice hquantity
      have hasks : (e.submit (.limit (takingBid ⟨2⟩ 1))).engine.book.resting .sell =
          own :: rest := ha.opposing.trans (by rw [hsweep])
      have hbids : (e.submit (.limit (takingBid ⟨2⟩ 1))).engine.book.resting .buy =
          [] := by
        refine ha.own.trans ?_
        simp only [MatchingEngine.restedBy, hsweep]
        exact h.bids
      have hne : (⟨1⟩ : ClientId) ≠ ⟨2⟩ := by decide
      refine ⟨own, rest, ?_⟩
      show Unlocked (e.submit (.limit (takingBid ⟨2⟩ 1))).engine own rest
      exact
        { wellFormed := ha.wellFormed
          stp := ha.stp.trans h.stp
          asks := hasks
          owner := howner
          price := hprice'
          quantity := hquantity'
          last := by
            rw [ha.lastAcceptedId]
            exact (Function.update_of_ne hne _ _).trans h.lastOfSeller
          counters := h.taken hresting ha
          available := by
            have hcount := ha.wellFormed.count.left
            rw [hresting] at hlength
            rw [hasks, hbids, ha.capacity, h.capacity] at hcount
            simp only [List.length_cons, List.length_nil] at hcount hlength
            omega }

theorem Unlocked.self_fill {e : MatchingEngine} {own : RestingOrder}
    {rest : List RestingOrder} (h : Unlocked e own rest) :
    .fill own ⟨1⟩ ⟨1⟩ ∈ (e.exec (.limit
      (takingBid ⟨1⟩ (2 ^ 32 + 2)))).ops.filterMap MatchOp.action? := by
  have hadmits : e.Admits (.limit (takingBid ⟨1⟩ (2 ^ 32 + 2))) := by
    apply MatchingEngine.admits_limit (by decide) (by decide)
    · exact MatchingEngine.fresh_of_last h.last (by decide) (by decide)
    · exact MatchingEngine.wouldSelfCross_eq_false (fun p hrests => hrests (h.counters _))
    · exact h.available
  have ha := MatchingEngine.admission h.wellFormed hadmits
  have hsweep : e.sweepOf (.limit (takingBid ⟨1⟩ (2 ^ 32 + 2))) = _ :=
    sweep_unit h.stp h.asks h.price h.quantity
  have hactions := ha.actions
  rw [hsweep] at hactions
  show _ ∈ (e.submit (.limit (takingBid ⟨1⟩ (2 ^ 32 + 2)))).ops.filterMap _
  rw [hactions]
  exact List.mem_singleton.mpr rfl

theorem mem_visits_last_two (e : MatchingEngine) (commands : List EngineCommand)
    (c c' : EngineCommand) :
    (((e.run commands).exec c).engine, c') ∈ e.visits (commands ++ [c, c']) := by
  unfold MatchingEngine.visits
  rw [Machine.visits_append]
  exact List.mem_append_right _ (List.mem_cons_of_mem _ List.mem_cons_self)

def takenThenOwnBid (n : Nat) : List EngineCommand :=
  stackedAsks n ++ [.limit (takingBid ⟨2⟩ 1), .limit (takingBid ⟨1⟩ (2 ^ 32 + 2))]

theorem not_noSelfTrade_of_stacked {n : Nat} (hn : n = 2 ^ 32 + 1) :
    ¬ wideEngine.NoSelfTrade (takenThenOwnBid n) := by
  intro hnone
  have hstacked : Stacked n (wideEngine.run (stackedAsks n)) :=
    Stacked.stackedAsks (by omega)
  rcases hstacked.unlocked hn with ⟨own, rest, hunlocked⟩
  have hself := hnone _ (mem_visits_last_two wideEngine (stackedAsks n) _ _) _ rfl
  exact hself.right own ⟨1⟩ ⟨1⟩ hunlocked.self_fill hunlocked.owner

/-- The stacking client trades with itself. -/
theorem self_trade_at_wrapped_counter :
    ¬ wideEngine.NoSelfTrade (takenThenOwnBid (2 ^ 32 + 1)) :=
  not_noSelfTrade_of_stacked rfl

end MiniExchange
