import MiniExchange.Engine.Calls

/-!
# The book never rests crossed

A limit order leaves a remainder in the book only when matching has stopped for
want of opposing orders within its limit, so the remainder crosses none of
those that are left.
-/

namespace MiniExchange

open Foundation

theorem Incoming.beyondLimit_iff {c : Incoming} {limit p : Price}
    (hlimit : c.limitPrice = some limit) :
    c.beyondLimit p = true <-> c.side.opposite.better limit p := by
  unfold beyondLimit
  rw [hlimit]
  cases c.side <;> exact decide_eq_true_iff

namespace OrderBook

/-- Every bid is strictly below every ask. -/
def Uncrossed (b : OrderBook) : Prop :=
  forall bid ask, bid ∈ b.resting .buy -> ask ∈ b.resting .sell ->
    bid.price < ask.price

theorem uncrossed_iff (b : OrderBook) (s : Side) :
    b.Uncrossed <-> forall o o', o ∈ b.resting s -> o' ∈ b.resting s.opposite ->
      s.opposite.better o.price o'.price := by
  cases s with
  | buy => exact Iff.rfl
  | sell =>
      constructor
      · intro h ask bid hask hbid
        exact h bid ask hbid hask
      · intro h bid ask hbid hask
        exact h ask bid hask hbid

theorem Uncrossed.best_lt {b : OrderBook} (hw : b.WellFormed) (h : b.Uncrossed)
    {bid ask : LevelPtr} (hbid : b.bestBid = some bid) (hask : b.bestAsk = some ask) :
    bid.price < ask.price := by
  have hresting : forall s (level : LevelPtr), b.bestLevel s = some level ->
      exists o, o ∈ b.resting s ∧ o.price = level.price := by
    intro s level hbest
    rw [hw.bestLevel_eq, Option.map_eq_some_iff] at hbest
    rcases hbest with ⟨x, hx, rfl⟩
    exact ⟨b.data x, List.mem_map.mpr ⟨x, List.mem_of_mem_head? hx, rfl⟩, rfl⟩
  rcases hresting .buy bid hbid with ⟨o, ho, hop⟩
  rcases hresting .sell ask hask with ⟨o', ho', hop'⟩
  rw [← hop, ← hop']
  exact h o o' ho ho'

end OrderBook

namespace MatchingEngine

theorem rested_apart {e : MatchingEngine} {order : NewOrder} (hw : e.book.WellFormed)
    {o o' : RestingOrder} (hrest : e.restedBy order = some o)
    (ho' : o' ∈ (e.sweepOf order).left) : order.side.opposite.better o.price o'.price := by
  rcases restedBy_some hrest with ⟨lo, rfl, hpos, rfl⟩
  rcases Incoming.sweep_exit (c := (NewOrder.limit lo).incoming) lo.quantity
    (hw.ordered lo.side.opposite) with hzero | hbeyond
  · exact absurd (hzero ▸ hpos) (lt_irrefl _)
  · exact (Incoming.beyondLimit_iff rfl).mp (hbeyond o' ho')

theorem submit_uncrossed {e : MatchingEngine} {order : NewOrder} (hw : e.book.WellFormed)
    (h : e.book.Uncrossed) (ha : Admission e order (e.submit order)) :
    (e.submit order).engine.book.Uncrossed := by
  rw [OrderBook.uncrossed_iff _ order.side] at h ⊢
  intro o o' ho ho'
  rw [ha.opposing] at ho'
  rw [ha.own] at ho
  -- An order that already rested is apart from all opposing orders, before and after.
  have hold : o ∈ e.book.resting order.side -> order.side.opposite.better o.price o'.price := by
    intro hold
    rcases Incoming.mem_left order.quantity _ ho' with ⟨former, hformer, heq, -⟩
    rw [heq]
    exact h o former hold hformer
  cases hrest : e.restedBy order with
  | none =>
      rw [hrest] at ho
      exact hold ho
  | some new =>
      rw [hrest] at ho
      rcases PriorityList.mem_insert.mp ho with heq | hin
      · exact heq ▸ rested_apart hw hrest ho'
      · exact hold hin

theorem cancel_uncrossed {e : MatchingEngine} {id : OrderId} {s : Side} {x : Slot}
    (hw : e.book.WellFormed) (h : e.book.Uncrossed)
    (hc : Cancellation e id s x (e.cancel id)) : (e.cancel id).engine.book.Uncrossed := by
  have hsub : forall t o, o ∈ (e.cancel id).engine.book.resting t -> o ∈ e.book.resting t := by
    intro t o ho
    rw [hc.without.resting_eq hw] at ho
    exact (List.erase_sublist.map _).subset ho
  intro bid ask hbid hask
  exact h bid ask (hsub _ bid hbid) (hsub _ ask hask)

end MatchingEngine

/-- No run leaves the book crossed: the best bid is strictly below the best ask. -/
theorem run_uncrossed (raw : Memory) (capacity : UInt64) (stp : StpConfig)
    (commands : List EngineCommand) :
    ((MatchingEngine.new raw capacity stp).run commands).book.Uncrossed ∧
      forall bid ask : LevelPtr,
        ((MatchingEngine.new raw capacity stp).run commands).book.bestBid = some bid ->
        ((MatchingEngine.new raw capacity stp).run commands).book.bestAsk = some ask ->
        bid.price < ask.price := by
  have huncrossed : ((MatchingEngine.new raw capacity stp).run commands).book.Uncrossed := by
    apply MatchingEngine.run_induction (Q := fun e => e.book.Uncrossed)
      (OrderBook.WellFormed.new raw capacity)
    · intro bid ask hbid _
      rw [show (MatchingEngine.new raw capacity stp).book.resting .buy = [] from
        OrderBook.WellFormed.resting_new raw capacity .buy] at hbid
      cases hbid
    · intro e order hw h _ ha
      exact MatchingEngine.submit_uncrossed hw h ha
    · intro e id s x hw h hc
      exact MatchingEngine.cancel_uncrossed hw h hc
  refine ⟨huncrossed, ?_⟩
  intro bid ask hbid hask
  exact huncrossed.best_lt (MatchingEngine.run_wellFormed raw capacity stp commands) hbid hask

def restingBetweenAsks : List EngineCommand :=
  [.limit { id := ⟨1⟩, side := .sell, price := ⟨101⟩, quantity := ⟨5⟩, owner := ⟨1⟩ },
    .limit { id := ⟨2⟩, side := .sell, price := ⟨103⟩, quantity := ⟨5⟩, owner := ⟨1⟩ },
    .limit { id := ⟨1⟩, side := .buy, price := ⟨102⟩, quantity := ⟨8⟩, owner := ⟨2⟩ }]

theorem run_uncrossed_restingBetweenAsks :
    ((MatchingEngine.new Memory.zeroed 4 {}).run restingBetweenAsks).book.bestBid =
        some ⟨.buy, ⟨102⟩⟩ ∧
      ((MatchingEngine.new Memory.zeroed 4 {}).run restingBetweenAsks).book.bestAsk =
        some ⟨.sell, ⟨103⟩⟩ ∧
      (⟨102⟩ : Price) < ⟨103⟩ := by
  have hbid : ((MatchingEngine.new Memory.zeroed 4 {}).run restingBetweenAsks).book.bestBid =
      some ⟨.buy, ⟨102⟩⟩ := by decide +kernel
  have hask : ((MatchingEngine.new Memory.zeroed 4 {}).run restingBetweenAsks).book.bestAsk =
      some ⟨.sell, ⟨103⟩⟩ := by decide +kernel
  have hapart := (run_uncrossed Memory.zeroed 4 {} restingBetweenAsks).right
    ⟨.buy, ⟨102⟩⟩ ⟨.sell, ⟨103⟩⟩ hbid hask
  exact ⟨hbid, hask, hapart⟩

end MiniExchange
