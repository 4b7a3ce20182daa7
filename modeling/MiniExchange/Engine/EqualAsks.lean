import MiniExchange.Engine.ClientIndex

/-!
# A book of equal asks

One client fills an empty book with asks of one unit at one price, numbered from
one, and a second client has sent nothing yet.  Every further ask rests behind
the others, and a bid of the second client is admitted.
-/

namespace MiniExchange

open Foundation

/-- The asks of client 1 are all that rests, and client 2 is new. -/
structure EqualAsks (price : Price) (n : Nat) (e : MatchingEngine) : Prop where
  bids : e.book.resting .buy = []
  length : (e.book.resting .sell).length = n
  asks : forall o, o ∈ e.book.resting .sell ->
    o.owner = ⟨1⟩ ∧ o.price = price ∧ o.quantity = ⟨1⟩
  lastOfSeller : e.lastAcceptedId ⟨1⟩ = if n = 0 then none else some ⟨UInt64.ofNat n⟩
  lastOfBuyer : e.lastAcceptedId ⟨2⟩ = none

namespace EqualAsks

variable {price : Price} {n : Nat} {e : MatchingEngine}

theorem new (raw : Memory) (capacity : UInt64) (stp : StpConfig) (price : Price) :
    EqualAsks price 0 (MatchingEngine.new raw capacity stp) := by
  have hempty : forall s, (MatchingEngine.new raw capacity stp).book.resting s = [] :=
    OrderBook.WellFormed.resting_new raw capacity
  constructor
  case bids => exact hempty .buy
  case length => exact congrArg List.length (hempty .sell)
  case asks =>
    intro o ho
    rw [hempty] at ho
    cases ho
  case lastOfSeller => rfl
  case lastOfBuyer => rfl

theorem available (h : EqualAsks price n e) (hw : e.book.WellFormed) :
    e.book.poolAvailable + n = e.book.pool.capacity := by
  have hcount := hw.count.left
  rw [h.bids, h.length] at hcount
  simpa using hcount

theorem admits_ask (h : EqualAsks price n e) (hw : e.book.WellFormed)
    (hcounts : ClientIndex.Counts e.clientResting e.book.keys)
    (hroom : n < e.book.pool.capacity) (hn : n + 1 < 2 ^ 64) {o : LimitOrder}
    (hside : o.side = .sell) (howner : o.owner = ⟨1⟩) (hid : o.id = ⟨UInt64.ofNat (n + 1)⟩)
    (hquantity : Quantity.zero < o.quantity) (hprice : Price.zero < o.price) :
    e.Admits (.limit o) := by
  apply MatchingEngine.admits_limit hquantity hprice
  · rw [howner, hid]
    exact MatchingEngine.fresh_next h.lastOfSeller hn
  · apply MatchingEngine.wouldSelfCross_of_foreign hw hcounts
    intro x hx
    rw [hside, show Side.sell.opposite = .buy from rfl, h.bids] at hx
    cases hx
  · have := h.available hw
    omega

theorem admits_bid (h : EqualAsks price n e) (hw : e.book.WellFormed)
    (hcounts : ClientIndex.Counts e.clientResting e.book.keys)
    (hroom : n < e.book.pool.capacity) {o : LimitOrder}
    (hside : o.side = .buy) (howner : o.owner = ⟨2⟩)
    (hquantity : Quantity.zero < o.quantity) (hprice : Price.zero < o.price) :
    e.Admits (.limit o) := by
  apply MatchingEngine.admits_limit hquantity hprice
  · unfold MatchingEngine.atOrBelowWatermark
    rw [howner, h.lastOfBuyer]
  · apply MatchingEngine.wouldSelfCross_of_foreign hw hcounts
    intro x hx hsame
    rw [hside] at hx
    rw [(h.asks x hx).left, howner] at hsame
    cases hsame
  · have := h.available hw
    omega

theorem ask (h : EqualAsks price n e) {o : LimitOrder} (hside : o.side = .sell)
    (howner : o.owner = ⟨1⟩) (hid : o.id = ⟨UInt64.ofNat (n + 1)⟩) (hquantity : o.quantity = ⟨1⟩)
    (hprice : o.price = price)
    (ha : MatchingEngine.Admission e (.limit o) (e.submit (.limit o))) :
    EqualAsks price (n + 1) (e.submit (.limit o)).engine := by
  cases o with
  | mk id side price' quantity owner =>
      cases hside
      cases howner
      cases hid
      cases hquantity
      cases hprice
      have hown := MatchingEngine.own_alone ha
        (by decide : Quantity.zero < (⟨1⟩ : Quantity)) h.bids
      constructor
      case bids =>
        refine ha.opposing.trans ?_
        rw [MatchingEngine.sweepOf_alone h.bids]
        rfl
      case length => exact hown.length_eq.trans (congrArg Nat.succ h.length)
      case asks =>
        intro x hx
        rcases List.mem_cons.mp (hown.mem_iff.mp hx) with heq | hold
        · rw [heq]
          exact ⟨rfl, rfl, rfl⟩
        · exact h.asks x hold
      case lastOfSeller =>
        rw [ha.lastAcceptedId, if_neg (Nat.succ_ne_zero n)]
        exact Function.update_self _ _ _
      case lastOfBuyer =>
        have hne : (⟨2⟩ : ClientId) ≠ ⟨1⟩ := by decide
        rw [ha.lastAcceptedId]
        exact (Function.update_of_ne hne _ _).trans h.lastOfBuyer

end EqualAsks
end MiniExchange
