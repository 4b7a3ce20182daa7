import MiniExchange.Engine.BookInvariant
import MiniExchange.Feed.Quotes

/-!
# Published quotes and the book

A matching engine without self-trade prevention whose event sink is a feed
publisher.  What is published about a side is the book's best level or nothing,
as long as no limit order rests in a way the publisher cannot see: behind a
level it no longer tracks, or as what is left of an order that has matched.
-/

namespace MiniExchange

open Foundation

def OrderBook.bestQuote (b : OrderBook) (s : Side) : Option (Price × Quantity) :=
  (b.bestLevel s).bind fun ptr => (b.level? ptr).map fun level => (ptr.price, level.totalQty)

namespace Feed

def TopOfBook.quote (top : TopOfBook) : Side -> Price × Quantity
  | .buy => (top.bidPrice, top.bidQty)
  | .sell => (top.askPrice, top.askQty)

def published (symbol : SymbolId) (snapshotInterval : UInt64) (e : MatchingEngine) :
    UdpFeedPublisher :=
  (UdpFeedPublisher.new symbol snapshotInterval).run e.sink

/-- Each side is the zero sentinel or the best level of the book. -/
def TrueQuotes (b : OrderBook) (top : TopOfBook) : Prop :=
  forall s, top.quote s = (Price.zero, Quantity.zero) ∨ b.bestQuote s = some (top.quote s)

instance (b : OrderBook) (top : TopOfBook) : Decidable (TrueQuotes b top) :=
  decidable_of_iff
    ((top.quote .buy = (Price.zero, Quantity.zero) ∨
        b.bestQuote .buy = some (top.quote .buy)) ∧
      (top.quote .sell = (Price.zero, Quantity.zero) ∨
        b.bestQuote .sell = some (top.quote .sell)))
    ⟨fun h s => by cases s with | buy => exact h.left | sell => exact h.right,
      fun h => ⟨h .buy, h .sell⟩⟩

/-!
## Known sides are true quotes
-/

theorem slotUnits_eq_levelUnits (b : OrderBook) (s : Side) (price : Price) :
    slotUnits b.mem (slotsAt b.mem (b.restingSlots s) price) = levelUnits price (b.resting s) := by
  unfold slotUnits slotsAt levelUnits volume OrderBook.resting
  rw [List.filter_map, List.map_map]
  rfl

theorem Known.bestQuote {b : OrderBook} {s : Side} {q : SideState} (hw : b.WellFormed)
    (h : Known s q (b.resting s)) : b.bestQuote s = some (q.price, q.qty) := by
  have hordered := hw.ordered s
  cases hslots : b.restingSlots s with
  | nil =>
      rcases h.exists_order with ⟨x, hx, -⟩
      rw [OrderBook.resting_eq, hslots] at hx
      cases hx
  | cons x rest =>
      have hresting : b.resting s = b.data x :: rest.map b.data := by
        rw [OrderBook.resting_eq, hslots]
        rfl
      have hprice : (b.data x).price = q.price := by
        rw [hresting] at h hordered
        exact h.head_price hordered
      have hbest : b.bestLevel s = some ⟨s, q.price⟩ := by
        rw [hw.bestLevel_eq, hslots, ← hprice]
        rfl
      rcases hw with ⟨free, hrep⟩
      rcases hrep.level_of_mem (hslots ▸ List.mem_cons_self : x ∈ b.restingSlots s) with
        ⟨level, hlevel, hqueue⟩
      have hat : (b.mem x).price = q.price := hprice
      rw [hat] at hlevel hqueue
      have htotal : level.totalQty = q.qty := by
        apply Quantity.units_injective
        rw [hqueue.total, slotUnits_eq_levelUnits, ← h.qty]
        exact Nat.mod_eq_of_lt (Quantity.units_lt q.qty)
      have hfound : b.level? ⟨s, q.price⟩ = some level := hlevel
      unfold OrderBook.bestQuote
      rw [hbest]
      show (b.level? ⟨s, q.price⟩).map _ = _
      rw [hfound, ← htotal]
      rfl

/-!
## Orders the publisher can follow
-/

def crossesBest (e : MatchingEngine) (order : LimitOrder) : Prop :=
  exists o, (e.book.resting order.side.opposite).head? = some o ∧
    (NewOrder.limit order).incoming.beyondLimit o.price = false

/-- An order that does not match joins what is known, or is the best of its side. -/
def JoinsKnown (q : SideState) (order : LimitOrder) (own : List RestingOrder) : Prop :=
  (q.count = 0 -> forall o, o ∈ own -> order.side.better order.price o.price) ∧
    (order.price = q.price -> q.qty.units + order.quantity.units < 2 ^ 64)

/--
An order that matches leaves no remainder next to a known side; with the
opposing side unknown, it consumes an order at exactly its limit price.
-/
def MatchesKnown (own opposing : SideState) (order : LimitOrder)
    (orders : List RestingOrder) : Prop :=
  if opposing.count = 0 then
    exists depth, depthThrough order.price orders = some depth ∧ depth <= order.quantity.units
  else
    own.count = 0 ∨ order.quantity.units <=
      volume (fun price => !(NewOrder.limit order).incoming.beyondLimit price) orders

instance (e : MatchingEngine) (order : LimitOrder) : Decidable (crossesBest e order) :=
  decidable_of_iff ((e.book.resting order.side.opposite).head?.any
      (fun o => !(NewOrder.limit order).incoming.beyondLimit o.price) = true) <| by
    rw [Option.any_eq_true]
    simp only [Bool.not_eq_true', crossesBest]

instance (q : SideState) (order : LimitOrder) (own : List RestingOrder) :
    Decidable (JoinsKnown q order own) :=
  inferInstanceAs (Decidable (_ ∧ _))

instance (own opposing : SideState) (order : LimitOrder) (orders : List RestingOrder) :
    Decidable (MatchesKnown own opposing order orders) :=
  decidable_of_iff
    (if opposing.count = 0 then
      (depthThrough order.price orders).any (fun depth => decide (depth <= order.quantity.units))
        = true
    else
      own.count = 0 ∨ order.quantity.units <=
        volume (fun price => !(NewOrder.limit order).incoming.beyondLimit price) orders) <| by
    unfold MatchesKnown
    rw [Option.any_eq_true]
    simp only [decide_eq_true_eq]

def Followed (p : UdpFeedPublisher) (e : MatchingEngine) : EngineCommand -> Prop
  | .limit order =>
      e.Admits (.limit order) ->
        (¬ crossesBest e order ->
          JoinsKnown (p.quotes order.side) order (e.book.resting order.side)) ∧
        (crossesBest e order ->
          MatchesKnown (p.quotes order.side) (p.quotes order.side.opposite) order
            (e.book.resting order.side.opposite))
  | .market _ => True
  | .cancel _ => True

structure Quoted (p : UdpFeedPublisher) (e : MatchingEngine) : Prop where
  uncrossed : e.book.Uncrossed
  positive : forall s o, o ∈ e.book.resting s -> Quantity.zero < o.quantity
  tracked : forall s, Tracks s (p.quotes s) (e.book.resting s)

theorem quoted_new (symbol : SymbolId) (snapshotInterval : UInt64) (raw : Memory)
    (capacity : UInt64) (stp : StpConfig) :
    Quoted (published symbol snapshotInterval (MatchingEngine.new raw capacity stp))
      (MatchingEngine.new raw capacity stp) := by
  have hempty : forall s, (MatchingEngine.new raw capacity stp).book.resting s = [] :=
    OrderBook.WellFormed.resting_new raw capacity
  constructor
  · intro bid ask hbid
    rw [hempty] at hbid
    cases hbid
  · intro s o ho
    rw [hempty] at ho
    cases ho
  · intro s
    cases s <;> exact tracks_unknown _ _

def UdpFeedPublisher.following (p : UdpFeedPublisher) (e : MatchingEngine) (order : NewOrder) :
    UdpFeedPublisher :=
  (p.onOrderAccepted order.announced).run
    (Action.events order.incoming e.nextTradeSequence (e.sweepOf order).actions)

section Submit

variable {p : UdpFeedPublisher} {e : MatchingEngine} {order : NewOrder}

theorem Quoted.apart (h : Quoted p e) {s : Side} {o : RestingOrder}
    (ho : o ∈ e.book.resting s.opposite) : ¬ (p.quotes s).At o.price := by
  intro hat
  rcases SideState.at_iff.mp hat with ⟨hprice, hcount⟩
  rcases ((h.tracked s).known hcount).exists_order with ⟨x, hx, hknown⟩
  have hbetter := (OrderBook.uncrossed_iff e.book s).mp h.uncrossed x o hx ho
  rw [hknown, hprice] at hbetter
  exact irrefl_of s.opposite.better o.price hbetter

theorem not_pulls (hstp : e.stp.enabled = false) (order : NewOrder) (o : RestingOrder) :
    order.pulls e.stp o = false := by
  unfold NewOrder.pulls
  rw [hstp]
  rfl

theorem Quoted.trades (h : Quoted p e) (hw : e.book.WellFormed)
    (hstp : e.stp.enabled = false) (order : NewOrder)
    (hquotes : (p.onOrderAccepted order.announced).quotes = p.quotes) :
    (p.following e order).quotes order.side = p.quotes order.side ∧
      Tracks order.side.opposite ((p.following e order).quotes order.side.opposite)
        (e.sweepOf order).left := by
  have hsweep := UdpFeedPublisher.quotes_sweep (c := order.incoming) (s := order.side.opposite)
    (not_pulls hstp order) order.quantity (e.book.resting order.side.opposite)
    (p.onOrderAccepted order.announced) e.nextTradeSequence (hw.ordered order.side.opposite)
    (by rw [hquotes]; exact h.tracked order.side.opposite)
    (by
      rw [hquotes, Side.opposite_opposite]
      intro o ho
      exact h.apart ho)
  rw [Side.opposite_opposite, hquotes] at hsweep
  exact hsweep

theorem Quoted.submit (h : Quoted p e) (hw : e.book.WellFormed)
    (ha : MatchingEngine.Admission e order (e.submit order)) {q : UdpFeedPublisher}
    (hown : Tracks order.side (q.quotes order.side)
      (MatchingEngine.queue order.side (e.restedBy order) (e.book.resting order.side)))
    (hopposing : Tracks order.side.opposite (q.quotes order.side.opposite)
      (e.sweepOf order).left) : Quoted q (e.submit order).engine where
  uncrossed := MatchingEngine.submit_uncrossed hw h.uncrossed ha
  positive := by
    refine MatchingEngine.submit_resting (P := fun o => Quantity.zero < o.quantity)
      (fun o q hpos _ hkeep => hkeep hpos) h.positive ha ?_
    intro o hrest
    rcases MatchingEngine.restedBy_some hrest with ⟨lo, -, hpos, rfl⟩
    exact hpos
  tracked := by
    intro s
    rcases Side.eq_or_eq_opposite order.side s with rfl | rfl
    · rw [ha.own]
      exact hown
    · rw [ha.opposing]
      exact hopposing

theorem Quoted.market {order : MarketOrder} (h : Quoted p e) (hw : e.book.WellFormed)
    (hstp : e.stp.enabled = false)
    (ha : MatchingEngine.Admission e (.market order) (e.submit (.market order))) :
    Quoted (p.following e (.market order)) (e.submit (.market order)).engine := by
  have hquotes : (p.onOrderAccepted (NewOrder.market order).announced).quotes = p.quotes :=
    UdpFeedPublisher.quotes_onOrderAccepted_ignored (Or.inl rfl)
  rcases h.trades hw hstp (.market order) hquotes with ⟨hown, hopposing⟩
  refine h.submit hw ha ?_ hopposing
  rw [hown]
  exact h.tracked order.side

section Limit

variable {order : LimitOrder}

theorem Quoted.known_opposing (h : Quoted p e) (hw : e.book.WellFormed) {s : Side}
    (hcount : (p.quotes s).count ≠ 0) :
    exists o, (e.book.resting s).head? = some o ∧ o.price = (p.quotes s).price := by
  have hknown := (h.tracked s).known hcount
  have hsorted := hw.ordered s
  cases hresting : e.book.resting s with
  | nil =>
      rcases hknown.exists_order with ⟨x, hx, -⟩
      rw [hresting] at hx
      cases hx
  | cons o rest =>
      rw [hresting] at hknown hsorted
      exact ⟨o, rfl, hknown.head_price hsorted⟩

theorem Quoted.takenToMatch_iff (h : Quoted p e) (hw : e.book.WellFormed) :
    p.takenToMatch order.side order.price <->
      crossesBest e order ∧ (p.quotes order.side.opposite).count ≠ 0 := by
  have hbeyond := fun price =>
    Incoming.beyondLimit_iff (c := (NewOrder.limit order).incoming) (p := price) rfl
  unfold UdpFeedPublisher.takenToMatch
  rw [count_pos_iff]
  constructor
  · rintro ⟨hcount, hnot⟩
    refine ⟨?_, hcount⟩
    rcases h.known_opposing hw hcount with ⟨o, ho, hprice⟩
    refine ⟨o, ho, Bool.eq_false_iff.mpr ?_⟩
    rw [hprice]
    exact fun hfar => hnot ((hbeyond _).mp hfar)
  · rintro ⟨⟨o, ho, hcross⟩, hcount⟩
    refine ⟨hcount, ?_⟩
    rcases h.known_opposing hw hcount with ⟨o', ho', hprice⟩
    rw [ho] at ho'
    cases ho'
    rw [← hprice]
    exact fun hbetter => Bool.eq_false_iff.mp hcross ((hbeyond _).mpr hbetter)

theorem Quoted.better_of_crosses (h : Quoted p e) (hcross : crossesBest e order)
    (hcount : (p.quotes order.side).count ≠ 0) :
    order.side.better order.price (p.quotes order.side).price := by
  rcases hcross with ⟨o, ho, hnear⟩
  rcases ((h.tracked order.side).known hcount).exists_order with ⟨x, hx, hprice⟩
  have hapart := (OrderBook.uncrossed_iff e.book order.side).mp h.uncrossed x o hx
    (List.mem_of_mem_head? ho)
  have hreach : ¬ order.side.opposite.better order.price o.price := fun hbetter =>
    Bool.eq_false_iff.mp hnear ((Incoming.beyondLimit_iff rfl).mpr hbetter)
  rw [hprice] at hapart
  cases hside : order.side with
  | buy =>
      rw [hside] at hapart hreach
      exact lt_of_lt_of_le hapart (not_lt.mp hreach)
  | sell =>
      rw [hside] at hapart hreach
      exact lt_of_le_of_lt (not_lt.mp hreach) hapart

theorem quotes_accepted (hprice : order.price ≠ Price.zero)
    (h : ¬ p.takenToMatch order.side order.price) :
    (p.onOrderAccepted (NewOrder.limit order).announced).quotes order.side =
        ((p.quotes order.side).join
          (decide (order.side.better order.price (p.quotes order.side).price))
          order.price order.quantity).getD (p.quotes order.side) ∧
      (p.onOrderAccepted (NewOrder.limit order).announced).quotes order.side.opposite =
        p.quotes order.side.opposite := by
  have hquotes : (p.onOrderAccepted (NewOrder.limit order).announced).quotes =
      Function.update p.quotes order.side (((p.quotes order.side).join
        (decide (order.side.better order.price (p.quotes order.side).price))
        order.price order.quantity).getD (p.quotes order.side)) :=
    UdpFeedPublisher.quotes_onOrderAccepted hprice h
  rw [hquotes]
  exact ⟨Function.update_self _ _ _, Function.update_of_ne (Side.opposite_ne order.side) _ _⟩

theorem Quoted.rest (h : Quoted p e) (hw : e.book.WellFormed)
    (hadmits : e.Admits (.limit order))
    (ha : MatchingEngine.Admission e (.limit order) (e.submit (.limit order)))
    (hcross : ¬ crossesBest e order)
    (hjoins : JoinsKnown (p.quotes order.side) order (e.book.resting order.side)) :
    Quoted (p.following e (.limit order)) (e.submit (.limit order)).engine := by
  have hsweep : e.sweepOf (.limit order) =
      Sweep.stop order.quantity (e.book.resting order.side.opposite) := by
    apply Incoming.sweep_stop
    intro _ o ho
    by_contra hnear
    exact hcross ⟨o, ho, Bool.eq_false_iff.mpr hnear⟩
  have hpos : Quantity.zero < order.quantity := hadmits.quantity_pos
  have hprice : order.price ≠ Price.zero := ne_of_gt (hadmits.price_pos order.price rfl)
  rcases hrested : e.restedBy (.limit order) with _ | o
  · exact absurd (hsweep ▸ hpos) (MatchingEngine.restedBy_none hrested)
  · have hnew : o.price = order.price ∧ o.quantity = order.quantity := by
      rcases MatchingEngine.restedBy_some hrested with ⟨lo, heq, -, rfl⟩
      cases heq
      rw [hsweep]
      exact ⟨rfl, rfl⟩
    have hquotes := quotes_accepted hprice
      (fun htaken => hcross ((h.takenToMatch_iff hw).mp htaken).left)
    unfold UdpFeedPublisher.following
    rw [hsweep]
    refine h.submit hw ha ?_ ?_
    · show Tracks order.side ((p.onOrderAccepted _).quotes order.side) _
      rw [hrested, hquotes.left, ← hnew.left, ← hnew.right]
      refine Tracks.perm ?_ (PriorityList.perm_insert _ o _).symm
      apply (h.tracked order.side).join
      · intro x hx
        rcases List.mem_cons.mp hx with rfl | hold
        · rw [hnew.right]
          exact hpos
        · exact h.positive order.side x hold
      · rw [hnew.left]
        exact hjoins.left
      · rw [hnew.left, hnew.right]
        exact hjoins.right
    · show Tracks order.side.opposite ((p.onOrderAccepted _).quotes order.side.opposite) _
      rw [hquotes.right, hsweep]
      exact h.tracked order.side.opposite

theorem Quoted.match_known (h : Quoted p e) (hw : e.book.WellFormed)
    (hstp : e.stp.enabled = false)
    (ha : MatchingEngine.Admission e (.limit order) (e.submit (.limit order)))
    (hcross : crossesBest e order) (hcount : (p.quotes order.side.opposite).count ≠ 0)
    (hfilled : (p.quotes order.side).count = 0 ∨ order.quantity.units <=
      volume (fun price => !(NewOrder.limit order).incoming.beyondLimit price)
        (e.book.resting order.side.opposite)) :
    Quoted (p.following e (.limit order)) (e.submit (.limit order)).engine := by
  have hquotes : (p.onOrderAccepted (NewOrder.limit order).announced).quotes = p.quotes :=
    UdpFeedPublisher.quotes_onOrderAccepted_ignored
      (Or.inr ((h.takenToMatch_iff hw).mpr ⟨hcross, hcount⟩))
  rcases h.trades hw hstp (.limit order) hquotes with ⟨hown, hopposing⟩
  refine h.submit hw ha ?_ hopposing
  rw [hown]
  rcases hfilled with hunknown | hle
  · rw [show p.quotes (NewOrder.limit order).side = {} from
      (h.tracked order.side).unknown hunknown]
    exact tracks_unknown _ _
  · have hzero : (e.sweepOf (.limit order)).remaining = Quantity.zero :=
      Incoming.remaining_of_le_volume (not_pulls hstp _) (hw.ordered order.side.opposite) hle
    have hrested : e.restedBy (.limit order) = none := by
      cases hrested : e.restedBy (.limit order) with
      | none => rfl
      | some o =>
          rcases MatchingEngine.restedBy_some hrested with ⟨_, _, hpos, _⟩
          rw [hzero] at hpos
          exact absurd hpos (lt_irrefl _)
    rw [hrested]
    exact h.tracked order.side

/-- An order over an unknown opposing side is taken to rest, until a trade at its price. -/
theorem Quoted.match_unknown (h : Quoted p e) (hw : e.book.WellFormed)
    (hstp : e.stp.enabled = false) (hadmits : e.Admits (.limit order))
    (ha : MatchingEngine.Admission e (.limit order) (e.submit (.limit order)))
    (hcross : crossesBest e order) (hcount : (p.quotes order.side.opposite).count = 0)
    {depth : Nat}
    (hdepth : depthThrough order.price (e.book.resting order.side.opposite) = some depth)
    (hle : depth <= order.quantity.units) :
    Quoted (p.following e (.limit order)) (e.submit (.limit order)).engine := by
  have hprice : order.price ≠ Price.zero := ne_of_gt (hadmits.price_pos order.price rfl)
  have hquotes := quotes_accepted hprice
    (fun htaken => ((h.takenToMatch_iff hw).mp htaken).right hcount)
  have hopposing : (p.onOrderAccepted (NewOrder.limit order).announced).quotes
      order.side.opposite = {} := by
    rw [hquotes.right]
    exact (h.tracked order.side.opposite).unknown hcount
  have hown : (p.onOrderAccepted (NewOrder.limit order).announced).quotes order.side =
      { price := order.price, qty := order.quantity, count := 1 } := by
    rw [hquotes.left]
    unfold SideState.join
    by_cases hknown : (p.quotes order.side).count = 0
    · rw [if_pos (Or.inl hknown)]
      rfl
    · rw [if_pos (Or.inr (decide_eq_true (h.better_of_crosses hcross hknown)))]
      rfl
  have hsweep := UdpFeedPublisher.quotes_sweep_through (c := (NewOrder.limit order).incoming)
    rfl (not_pulls hstp (.limit order)) order.quantity
    (e.book.resting order.side.opposite) _ e.nextTradeSequence
    (hw.ordered order.side.opposite) (h.positive order.side.opposite) hdepth hle hopposing hown
  exact h.submit hw ha (Or.inl hsweep.left) hsweep.right

/-- A limit order that can be followed keeps both sides known or unknown. -/
theorem Quoted.limit (h : Quoted p e) (hw : e.book.WellFormed)
    (hstp : e.stp.enabled = false) (hadmits : e.Admits (.limit order))
    (ha : MatchingEngine.Admission e (.limit order) (e.submit (.limit order)))
    (hfollowed : Followed p e (.limit order)) :
    Quoted (p.following e (.limit order)) (e.submit (.limit order)).engine := by
  rcases hfollowed hadmits with ⟨hjoins, hmatches⟩
  by_cases hcross : crossesBest e order
  · have hmatched := hmatches hcross
    unfold MatchesKnown at hmatched
    split at hmatched
    next hcount =>
      rcases hmatched with ⟨depth, hdepth, hle⟩
      exact h.match_unknown hw hstp hadmits ha hcross hcount hdepth hle
    next hcount => exact h.match_known hw hstp ha hcross hcount hmatched
  · exact h.rest hw hadmits ha hcross (hjoins hcross)

end Limit

theorem Quoted.cancel (h : Quoted p e) (hw : e.book.WellFormed) {id : OrderId} {s : Side}
    {x : Slot} (hc : MatchingEngine.Cancellation e id s x (e.cancel id)) :
    Quoted (p.onEvent (Action.cancellation (e.book.data x))) (e.cancel id).engine := by
  have hside : (e.book.data x).side = s := by
    rcases hw with ⟨free, hrep⟩
    exact hrep.side_eq s x hc.resting
  subst hside
  rcases hc.without.resting_perm hw hc.resting with ⟨hperm, hother⟩
  have htracked := UdpFeedPublisher.tracks_cancellation
    (h.tracked (e.book.data x).side) hperm
  constructor
  · exact MatchingEngine.cancel_uncrossed hw h.uncrossed hc
  · intro t o ho
    rcases Side.eq_or_eq_opposite (e.book.data x).side t with rfl | rfl
    · exact h.positive _ o (hperm.symm.subset (List.mem_cons_of_mem _ ho))
    · rw [hother] at ho
      exact h.positive _ o ho
  · intro t
    rcases Side.eq_or_eq_opposite (e.book.data x).side t with rfl | rfl
    · exact htracked.left
    · rw [htracked.right, hother]
      exact h.tracked _

end Submit

/-!
## Runs
-/

theorem published_append {e e' : MatchingEngine} {events : List SinkEvent} (symbol : SymbolId)
    (snapshotInterval : UInt64) (h : e'.sink = e.sink ++ events) :
    published symbol snapshotInterval e' = (published symbol snapshotInterval e).run events := by
  unfold published
  rw [h]
  exact Machine.run_append _ _ _ _

theorem Quoted.exec {symbol : SymbolId} {snapshotInterval : UInt64} {e : MatchingEngine}
    (h : Quoted (published symbol snapshotInterval e) e) (hw : e.book.WellFormed)
    (hstp : e.stp.enabled = false) {command : EngineCommand}
    (hfollowed : Followed (published symbol snapshotInterval e) e command) :
    Quoted (published symbol snapshotInterval (e.exec command).engine)
      (e.exec command).engine := by
  refine MatchingEngine.exec_induction
    (Q := fun e => Quoted (published symbol snapshotInterval e) e) hw h command ?_ ?_
  · intro order heq hadmits ha
    subst heq
    rw [published_append symbol snapshotInterval ha.sink]
    cases order with
    | limit order => exact h.limit hw hstp hadmits ha hfollowed
    | market order => exact h.market hw hstp ha
  · intro id s x _ hc
    rw [published_append symbol snapshotInterval hc.sink]
    exact h.cancel hw hc

theorem Quoted.trueQuotes {symbol : SymbolId} {snapshotInterval : UInt64} {e : MatchingEngine}
    (h : Quoted (published symbol snapshotInterval e) e) (hw : e.book.WellFormed) :
    TrueQuotes e.book (published symbol snapshotInterval e).currentTopOfBook := by
  intro s
  have hquote : (published symbol snapshotInterval e).currentTopOfBook.quote s =
      (((published symbol snapshotInterval e).quotes s).price,
        ((published symbol snapshotInterval e).quotes s).qty) := by
    cases s <;> rfl
  rw [hquote]
  rcases h.tracked s with hunknown | hknown
  · left
    rw [hunknown]
  · right
    exact hknown.bestQuote hw

/-- Quotes are true in every state of a run whose commands can all be followed. -/
theorem quotes_true_of_followed (symbol : SymbolId) (snapshotInterval : UInt64) (raw : Memory)
    (capacity : UInt64) (stp : StpConfig) (hstp : stp.enabled = false)
    (reached rest : List EngineCommand)
    (hfollowed : forall v, v ∈ (MatchingEngine.new raw capacity stp).visits (reached ++ rest) ->
      Followed (published symbol snapshotInterval v.1) v.1 v.2) :
    TrueQuotes ((MatchingEngine.new raw capacity stp).run reached).book
      (published symbol snapshotInterval
        ((MatchingEngine.new raw capacity stp).run reached)).currentTopOfBook := by
  have hstep : forall (e : MatchingEngine) command,
      (e.book.WellFormed ∧ e.stp = stp ∧ Quoted (published symbol snapshotInterval e) e) ->
      Followed (published symbol snapshotInterval e) e command ->
      (e.exec command).engine.book.WellFormed ∧ (e.exec command).engine.stp = stp ∧
        Quoted (published symbol snapshotInterval (e.exec command).engine)
          (e.exec command).engine := by
    rintro e command ⟨hw, hconfig, h⟩ hcommand
    refine ⟨MatchingEngine.exec_wellFormed hw command, ?_,
      h.exec hw (hconfig ▸ hstp) hcommand⟩
    exact MatchingEngine.exec_induction (Q := fun e => e.stp = stp) hw hconfig command
      (fun _ _ _ ha => ha.stp.trans hconfig) (fun _ _ _ _ hc => hc.stp.trans hconfig)
  have hreached : forall v, v ∈ (MatchingEngine.new raw capacity stp).visits reached ->
      Followed (published symbol snapshotInterval v.1) v.1 v.2 := by
    intro v hv
    apply hfollowed v
    unfold MatchingEngine.visits at hv ⊢
    rw [Machine.visits_append]
    exact List.mem_append_left _ hv
  rcases Machine.run_invariant_of hstep
    ⟨OrderBook.WellFormed.new raw capacity, rfl,
      quoted_new symbol snapshotInterval raw capacity stp⟩ hreached with ⟨hw, -, h⟩
  exact h.trueQuotes hw

def takenAsks : List EngineCommand :=
  [.limit { id := ⟨1⟩, side := .sell, price := ⟨100⟩, quantity := ⟨5⟩, owner := ⟨1⟩ },
    .limit { id := ⟨2⟩, side := .sell, price := ⟨100⟩, quantity := ⟨3⟩, owner := ⟨1⟩ },
    .limit { id := ⟨1⟩, side := .buy, price := ⟨101⟩, quantity := ⟨6⟩, owner := ⟨2⟩ }]

theorem quotes_true_takenAsks :
    TrueQuotes ((MatchingEngine.new Memory.zeroed 4 {}).run takenAsks).book
        (published ⟨1⟩ 100
          ((MatchingEngine.new Memory.zeroed 4 {}).run takenAsks)).currentTopOfBook ∧
      (published ⟨1⟩ 100
        ((MatchingEngine.new Memory.zeroed 4 {}).run takenAsks)).currentTopOfBook.quote
          Side.sell = (⟨100⟩, ⟨2⟩) := by
  have hfollowed : forall v,
      v ∈ (MatchingEngine.new Memory.zeroed 4 {}).visits (takenAsks ++ []) ->
      Followed (published ⟨1⟩ 100 v.1) v.1 v.2 := by
    intro v hv
    rcases List.mem_cons.mp hv with rfl | hv
    · intro _
      decide +kernel
    rcases List.mem_cons.mp hv with rfl | hv
    · intro _
      decide +kernel
    rcases List.mem_cons.mp hv with rfl | hv
    · intro _
      decide +kernel
    cases hv
  exact ⟨quotes_true_of_followed ⟨1⟩ 100 Memory.zeroed 4 {} rfl takenAsks [] hfollowed,
    by decide +kernel⟩

def remainderOverBid : List EngineCommand :=
  [.limit { id := ⟨1⟩, side := .buy, price := ⟨99⟩, quantity := ⟨3⟩, owner := ⟨1⟩ },
    .limit { id := ⟨1⟩, side := .sell, price := ⟨100⟩, quantity := ⟨5⟩, owner := ⟨2⟩ },
    .limit { id := ⟨1⟩, side := .buy, price := ⟨100⟩, quantity := ⟨8⟩, owner := ⟨3⟩ }]

/-- The best bid is the remainder at 100; the published bid is still the one at 99. -/
theorem quotes_false_remainderOverBid :
    ¬ TrueQuotes ((MatchingEngine.new Memory.zeroed 4 {}).run remainderOverBid).book
      (published ⟨1⟩ 100
        ((MatchingEngine.new Memory.zeroed 4 {}).run remainderOverBid)).currentTopOfBook := by
  decide +kernel

end Feed
end MiniExchange
