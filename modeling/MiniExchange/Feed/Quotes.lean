import MiniExchange.Engine.Uncrossed
import MiniExchange.Feed.Publisher

/-!
# Tracking the best level

The publisher keeps one price of each side.  Seen next to the orders that rest
on that side, it either knows the best level exactly or knows nothing.  Each
event handler is described by what it does to these two cases.
-/

namespace MiniExchange
namespace Feed

open Foundation

/-!
## Levels of a list of orders
-/

def levelUnits (p : Price) (orders : List RestingOrder) : Nat :=
  volume (fun q => decide (q = p)) orders

def levelCount (p : Price) (orders : List RestingOrder) : Nat :=
  (orders.filter (fun o => decide (o.price = p))).length

section Level

variable {p : Price} {o : RestingOrder} {orders orders' : List RestingOrder}

theorem levelUnits_at (h : o.price = p) :
    levelUnits p (o :: orders) = o.quantity.units + levelUnits p orders := by
  simp [levelUnits, h]

theorem levelUnits_away (h : o.price ≠ p) : levelUnits p (o :: orders) = levelUnits p orders := by
  simp [levelUnits, h]

theorem levelCount_at (h : o.price = p) :
    levelCount p (o :: orders) = levelCount p orders + 1 := by
  simp [levelCount, h]

theorem levelCount_away (h : o.price ≠ p) : levelCount p (o :: orders) = levelCount p orders := by
  simp [levelCount, h]

theorem levelUnits_perm (h : orders.Perm orders') : levelUnits p orders = levelUnits p orders' :=
  volume_perm h

theorem levelCount_perm (h : orders.Perm orders') : levelCount p orders = levelCount p orders' :=
  (h.filter _).length_eq

theorem level_of_forall_ne (h : forall x, x ∈ orders -> x.price ≠ p) :
    levelUnits p orders = 0 ∧ levelCount p orders = 0 := by
  induction orders with
  | nil => exact ⟨rfl, rfl⟩
  | cons x rest ih =>
      have hx := h x List.mem_cons_self
      rw [levelUnits_away hx, levelCount_away hx]
      exact ih (fun y hy => h y (List.mem_cons_of_mem _ hy))

theorem exists_of_levelCount_pos (h : 0 < levelCount p orders) :
    exists x, x ∈ orders ∧ x.price = p := by
  rcases List.exists_mem_of_length_pos h with ⟨x, hx⟩
  rcases List.mem_filter.mp hx with ⟨hmem, hprice⟩
  exact ⟨x, hmem, of_decide_eq_true hprice⟩

theorem levelCount_le_levelUnits (hpos : forall x, x ∈ orders -> Quantity.zero < x.quantity) :
    levelCount p orders <= levelUnits p orders := by
  induction orders with
  | nil => exact Nat.le_refl 0
  | cons x rest ih =>
      have hrest := ih (fun y hy => hpos y (List.mem_cons_of_mem _ hy))
      by_cases hprice : x.price = p
      · have hx := Quantity.zero_lt_iff.mp (hpos x List.mem_cons_self)
        rw [levelUnits_at hprice, levelCount_at hprice]
        omega
      · rw [levelUnits_away hprice, levelCount_away hprice]
        exact hrest

end Level

/-!
## A side that is known or unknown
-/

/-- The tracked price is the best one, with the level's quantity and number of orders. -/
structure Known (s : Side) (q : SideState) (orders : List RestingOrder) : Prop where
  top : forall o, o ∈ orders -> ¬ s.better o.price q.price
  qty : q.qty.units = levelUnits q.price orders
  count : q.count.toNat = levelCount q.price orders
  counted : q.count ≠ 0

def Tracks (s : Side) (q : SideState) (orders : List RestingOrder) : Prop :=
  q = {} ∨ Known s q orders

section Known

variable {s : Side} {q : SideState} {o : RestingOrder} {orders rest : List RestingOrder}

theorem tracks_unknown (s : Side) (orders : List RestingOrder) : Tracks s {} orders :=
  Or.inl rfl

theorem Tracks.known (h : Tracks s q orders) (hcount : q.count ≠ 0) : Known s q orders := by
  rcases h with rfl | hknown
  · exact absurd rfl hcount
  · exact hknown

theorem Tracks.unknown (h : Tracks s q orders) (hcount : q.count = 0) : q = {} := by
  rcases h with heq | hknown
  · exact heq
  · exact absurd hcount hknown.counted

theorem Known.perm (h : Known s q orders) (hperm : orders.Perm rest) : Known s q rest where
  top o ho := h.top o (hperm.mem_iff.mpr ho)
  qty := h.qty.trans (levelUnits_perm hperm)
  count := h.count.trans (levelCount_perm hperm)
  counted := h.counted

theorem Tracks.perm (h : Tracks s q orders) (hperm : orders.Perm rest) : Tracks s q rest := by
  rcases h with rfl | hknown
  · exact tracks_unknown s rest
  · exact Or.inr (hknown.perm hperm)

theorem toNat_pos {n : UInt64} (h : n ≠ 0) : 0 < n.toNat := by
  rcases Nat.eq_zero_or_pos n.toNat with hzero | hpos
  · exact absurd (UInt64.toNat_inj.mp hzero) h
  · exact hpos

theorem Known.exists_order (h : Known s q orders) :
    exists x, x ∈ orders ∧ x.price = q.price := by
  have hpos := toNat_pos h.counted
  rw [h.count] at hpos
  exact exists_of_levelCount_pos hpos

theorem Known.head_price (h : Known s q (o :: rest))
    (hsorted : PriorityList.Sorted s.better (fun o => o.price) (o :: rest)) :
    o.price = q.price := by
  rcases h.exists_order with ⟨x, hx, hprice⟩
  rcases List.mem_cons.mp hx with rfl | hrest
  · exact hprice
  · have hlater : ¬ s.better x.price o.price := (List.pairwise_cons.mp hsorted).left x hrest
    rw [hprice] at hlater
    have htop := h.top o List.mem_cons_self
    rcases Side.not_better_iff.mp hlater with heq | hbetter
    · exact heq.symm
    · exact absurd hbetter htop

/-!
## Orders that leave
-/

theorem Known.remove (h : Known s q orders) (hperm : orders.Perm (o :: rest))
    (hprice : o.price = q.price) : Tracks s (q.reduce o.quantity true) rest := by
  have h' := h.perm hperm
  have hunits := h'.qty
  have hcount := h'.count
  rw [levelUnits_at hprice] at hunits
  rw [levelCount_at hprice] at hcount
  have hle : o.quantity <= q.qty := by
    rw [Quantity.le_iff]
    omega
  have hless : (q.count - 1).toNat = levelCount q.price rest := by
    rw [toNat_count_pred h.counted, hcount]
    exact Nat.add_sub_cancel _ _
  unfold SideState.reduce
  simp only [if_pos hle, if_true]
  by_cases hempty : q.count - 1 = 0
  · rw [if_pos hempty, hempty]
    exact tracks_unknown s rest
  · rw [if_neg hempty]
    refine Or.inr ⟨?_, ?_, hless, hempty⟩
    · exact fun x hx => h'.top x (List.mem_cons_of_mem _ hx)
    · show (q.qty - o.quantity).units = levelUnits q.price rest
      rw [Quantity.units_sub_of_le hle]
      omega

theorem Known.remove_away (h : Known s q orders) (hperm : orders.Perm (o :: rest))
    (hprice : o.price ≠ q.price) : Known s q rest where
  top x hx := (h.perm hperm).top x (List.mem_cons_of_mem _ hx)
  qty := (h.perm hperm).qty.trans (levelUnits_away hprice)
  count := (h.perm hperm).count.trans (levelCount_away hprice)
  counted := h.counted

theorem Known.fill (h : Known s q (o :: rest)) (hprice : o.price = q.price)
    {qty : Quantity} (hlt : qty < o.quantity) :
    Known s (q.reduce qty false) ({ o with quantity := o.quantity - qty } :: rest) := by
  have hunits := h.qty
  have hcount := h.count
  rw [levelUnits_at hprice] at hunits
  rw [levelCount_at hprice] at hcount
  have hless := Quantity.units_sub_of_le (le_of_lt hlt)
  rw [Quantity.lt_iff] at hlt
  have hle : qty <= q.qty := by
    rw [Quantity.le_iff]
    omega
  have hprice' : ({ o with quantity := o.quantity - qty } : RestingOrder).price = q.price := hprice
  have hreduce : q.reduce qty false =
      { price := q.price, qty := q.qty - qty, count := q.count } := by
    unfold SideState.reduce
    simp only [if_pos hle, Bool.false_eq_true, if_false, if_neg h.counted]
  rw [hreduce]
  constructor
  · intro x hx
    rcases List.mem_cons.mp hx with rfl | hrest
    · exact h.top o List.mem_cons_self
    · exact h.top x (List.mem_cons_of_mem _ hrest)
  · rw [levelUnits_at hprice', Quantity.units_sub_of_le hle]
    show _ = (o.quantity - qty).units + _
    rw [hless]
    omega
  · rw [levelCount_at hprice']
    exact hcount
  · exact h.counted

theorem SideState.reduce_last (price : Price) (qty quantity : Quantity) :
    ({ price := price, qty := qty, count := 1 } : SideState).reduce quantity true = {} := by
  have hzero : (1 : UInt64) - 1 = 0 := by decide
  unfold SideState.reduce
  simp only [if_true, hzero]

/-!
## Orders that arrive
-/

theorem known_first (hbest : forall x, x ∈ orders -> s.better o.price x.price) :
    Known s { price := o.price, qty := o.quantity, count := 1 } (o :: orders) := by
  have haway : forall x, x ∈ orders -> x.price ≠ o.price := by
    intro x hx heq
    have hbetter := hbest x hx
    rw [heq] at hbetter
    exact irrefl_of s.better o.price hbetter
  rcases level_of_forall_ne haway with ⟨hunits, hcount⟩
  constructor
  · intro x hx
    rcases List.mem_cons.mp hx with rfl | hrest
    · exact irrefl_of s.better x.price
    · exact fun hbetter => asymm_of s.better (hbest x hrest) hbetter
  · rw [levelUnits_at rfl, hunits]
    rfl
  · rw [levelCount_at rfl, hcount]
    rfl
  · show (1 : UInt64) ≠ 0
    decide

/-- What `join` does is right if the side is known, or the new order is the best. -/
theorem Tracks.join (h : Tracks s q orders)
    (hpos : forall x, x ∈ o :: orders -> Quantity.zero < x.quantity)
    (hunknown : q.count = 0 -> forall x, x ∈ orders -> s.better o.price x.price)
    (hroom : o.price = q.price -> q.qty.units + o.quantity.units < 2 ^ 64) :
    Tracks s ((q.join (decide (s.better o.price q.price)) o.price o.quantity).getD q)
      (o :: orders) := by
  unfold SideState.join
  by_cases hcount : q.count = 0
  · rw [if_pos (Or.inl hcount)]
    exact Or.inr (known_first (hunknown hcount))
  · have hknown := h.known hcount
    by_cases hbetter : s.better o.price q.price
    · rw [if_pos (Or.inr (decide_eq_true hbetter))]
      refine Or.inr (known_first ?_)
      intro x hx
      rcases Side.not_better_iff.mp (hknown.top x hx) with heq | hworse
      · rwa [heq]
      · exact trans_of s.better hbetter hworse
    · rw [if_neg (not_or.mpr ⟨hcount, fun hdec => hbetter (of_decide_eq_true hdec)⟩)]
      by_cases hprice : o.price = q.price
      · rw [if_pos hprice]
        have hunits : (q.qty + o.quantity).units = levelUnits q.price (o :: orders) := by
          rw [Quantity.units_add, Nat.mod_eq_of_lt (hroom hprice), levelUnits_at hprice,
            ← hknown.qty, Nat.add_comm]
        have hfew := levelCount_le_levelUnits (p := q.price) hpos
        have hbound := Quantity.units_lt (q.qty + o.quantity)
        have hnext : (q.count + 1).toNat = levelCount q.price (o :: orders) := by
          rw [levelCount_at hprice] at hfew ⊢
          rw [← hknown.count] at hfew ⊢
          exact toNat_count_succ (by omega)
        refine Or.inr ⟨?_, hunits, hnext, ?_⟩
        · intro x hx
          rcases List.mem_cons.mp hx with rfl | hrest
          · exact hbetter
          · exact hknown.top x hrest
        · intro hzero
          have hwrapped : q.count + 1 = 0 := hzero
          rw [hwrapped, levelCount_at hprice] at hnext
          exact absurd hnext (Nat.succ_ne_zero _).symm
      · rw [if_neg hprice]
        refine Or.inr ⟨?_, ?_, ?_, hcount⟩
        · intro x hx
          rcases List.mem_cons.mp hx with rfl | hrest
          · exact hbetter
          · exact hknown.top x hrest
        · exact hknown.qty.trans (levelUnits_away hprice).symm
        · exact hknown.count.trans (levelCount_away hprice).symm

end Known

/-!
## What the handlers do to the two sides

Sending messages changes neither side.  A trade is attributed to a side by its
price, which is not ambiguous as long as only one side is at that price.
-/

def SideState.At (q : SideState) (price : Price) : Prop :=
  q.price = price ∧ 0 < q.count

theorem SideState.not_at_unknown (price : Price) : ¬ ({} : SideState).At price :=
  fun h => absurd h.right (by decide)

theorem SideState.at_iff {q : SideState} {price : Price} :
    q.At price <-> q.price = price ∧ q.count ≠ 0 :=
  and_congr_right (fun _ => count_pos_iff)

namespace UdpFeedPublisher

variable {p : UdpFeedPublisher}

def quotes (p : UdpFeedPublisher) : Side -> SideState
  | .buy => p.bid
  | .sell => p.ask

@[simp] theorem quotes_sendToAll (p : UdpFeedPublisher) (body : FeedBody) :
    (p.sendToAll body).quotes = p.quotes := by
  funext s
  cases s <;> rfl

@[simp] theorem quotes_checkSnapshotTrigger (p : UdpFeedPublisher) :
    p.checkSnapshotTrigger.quotes = p.quotes := by
  funext s
  unfold checkSnapshotTrigger
  dsimp only
  split <;> cases s <;> rfl

@[simp] theorem quotes_publishUpdate (p : UdpFeedPublisher) :
    p.publishUpdate.quotes = p.quotes := by
  simp [publishUpdate, publishTopOfBook]

@[simp] theorem quotes_bid (p : UdpFeedPublisher) (bid : SideState) :
    ({ p with bid := bid } : UdpFeedPublisher).quotes = Function.update p.quotes .buy bid := by
  funext s
  cases s <;> rfl

@[simp] theorem quotes_ask (p : UdpFeedPublisher) (ask : SideState) :
    ({ p with ask := ask } : UdpFeedPublisher).quotes = Function.update p.quotes .sell ask := by
  funext s
  cases s <;> rfl

theorem quotes_onTrade_miss {trade : Trade} (h : forall s, ¬ (p.quotes s).At trade.price) :
    (p.onTrade trade).quotes = p.quotes := by
  have hquotes : (p.sendToAll (.trade trade.price trade.quantity
      trade.tradeSequence)).checkSnapshotTrigger.quotes = p.quotes := by simp
  unfold onTrade
  dsimp only
  generalize UdpFeedPublisher.checkSnapshotTrigger _ = sent at hquotes ⊢
  rw [← hquotes] at h ⊢
  have hbid : ¬ (sent.bid.price = trade.price ∧ 0 < sent.bid.count) := h .buy
  have hask : ¬ (sent.ask.price = trade.price ∧ 0 < sent.ask.count) := h .sell
  rw [if_neg hbid, if_neg hask]

theorem quotes_onTrade_hit {trade : Trade} {s : Side} (hhit : (p.quotes s).At trade.price)
    (hmiss : ¬ (p.quotes s.opposite).At trade.price) :
    (p.onTrade trade).quotes =
      Function.update p.quotes s
        ((p.quotes s).reduce trade.quantity trade.restingOrderRemoved) := by
  have hquotes : (p.sendToAll (.trade trade.price trade.quantity
      trade.tradeSequence)).checkSnapshotTrigger.quotes = p.quotes := by simp
  unfold onTrade
  dsimp only
  generalize UdpFeedPublisher.checkSnapshotTrigger _ = sent at hquotes ⊢
  rw [← hquotes] at hhit hmiss ⊢
  cases s with
  | buy =>
      have hbid : sent.bid.price = trade.price ∧ 0 < sent.bid.count := hhit
      rw [if_pos hbid, quotes_publishUpdate, quotes_bid]
      rfl
  | sell =>
      have hbid : ¬ (sent.bid.price = trade.price ∧ 0 < sent.bid.count) := hmiss
      have hask : sent.ask.price = trade.price ∧ 0 < sent.ask.count := hhit
      rw [if_neg hbid, if_pos hask, quotes_publishUpdate, quotes_ask]
      rfl

theorem quotes_onOrderCancelled_miss {event : OrderCancelled}
    (h : ¬ (p.quotes event.side).At event.price) :
    (p.onOrderCancelled event).quotes = p.quotes := by
  unfold onOrderCancelled
  have hbid : ¬ (event.side = .buy ∧ event.price = p.bid.price ∧ 0 < p.bid.count) := by
    rintro ⟨hside, hprice, hcount⟩
    rw [hside] at h
    exact h ⟨hprice.symm, hcount⟩
  have hask : ¬ (event.side = .sell ∧ event.price = p.ask.price ∧ 0 < p.ask.count) := by
    rintro ⟨hside, hprice, hcount⟩
    rw [hside] at h
    exact h ⟨hprice.symm, hcount⟩
  rw [if_neg hbid, if_neg hask]

theorem quotes_onOrderCancelled_hit {event : OrderCancelled}
    (h : (p.quotes event.side).At event.price) :
    (p.onOrderCancelled event).quotes =
      Function.update p.quotes event.side
        ((p.quotes event.side).reduce event.remainingQty true) := by
  unfold onOrderCancelled
  cases hside : event.side with
  | buy =>
      rw [hside] at h
      rw [if_pos ⟨rfl, h.left.symm, h.right⟩, quotes_publishUpdate, quotes_bid]
      rfl
  | sell =>
      rw [hside] at h
      rw [if_neg (fun hbuy => Side.noConfusion hbuy.left),
        if_pos ⟨rfl, h.left.symm, h.right⟩, quotes_publishUpdate, quotes_ask]
      rfl

theorem tracks_cancellation {o : RestingOrder} {orders rest : List RestingOrder}
    (htracks : Tracks o.side (p.quotes o.side) orders) (hperm : orders.Perm (o :: rest)) :
    Tracks o.side ((p.onEvent (Action.cancellation o)).quotes o.side) rest ∧
      (p.onEvent (Action.cancellation o)).quotes o.side.opposite =
        p.quotes o.side.opposite := by
  by_cases hat : (p.quotes o.side).At o.price
  · rcases SideState.at_iff.mp hat with ⟨hprice, hcount⟩
    have hquotes : (p.onEvent (Action.cancellation o)).quotes =
        Function.update p.quotes o.side ((p.quotes o.side).reduce o.quantity true) :=
      quotes_onOrderCancelled_hit hat
    rw [hquotes, Function.update_self, Function.update_of_ne (Side.opposite_ne o.side)]
    exact ⟨(htracks.known hcount).remove hperm hprice.symm, rfl⟩
  · have hquotes : (p.onEvent (Action.cancellation o)).quotes = p.quotes :=
      quotes_onOrderCancelled_miss hat
    rw [hquotes]
    refine ⟨?_, rfl⟩
    by_cases hcount : (p.quotes o.side).count = 0
    · exact Or.inl (htracks.unknown hcount)
    · refine Or.inr ((htracks.known hcount).remove_away hperm ?_)
      intro heq
      exact hat (SideState.at_iff.mpr ⟨heq.symm, hcount⟩)

def takenToMatch (p : UdpFeedPublisher) (s : Side) (price : Price) : Prop :=
  0 < (p.quotes s.opposite).count ∧ ¬ s.opposite.better price (p.quotes s.opposite).price

theorem quotes_onOrderAccepted_ignored {event : OrderAccepted}
    (h : event.price = Price.zero ∨ p.takenToMatch event.side event.price) :
    (p.onOrderAccepted event).quotes = p.quotes := by
  unfold onOrderAccepted
  by_cases hmarket : event.price = Price.zero
  · rw [if_pos hmarket]
  · have htaken := h.resolve_left hmarket
    rw [if_neg hmarket]
    unfold takenToMatch at htaken
    cases hside : event.side with
    | buy =>
        rw [hside] at htaken
        dsimp only
        rw [if_pos ⟨htaken.left, not_lt.mp htaken.right⟩]
    | sell =>
        rw [hside] at htaken
        dsimp only
        rw [if_pos ⟨htaken.left, not_lt.mp htaken.right⟩]

theorem quotes_onOrderAccepted {event : OrderAccepted} (hprice : event.price ≠ Price.zero)
    (h : ¬ p.takenToMatch event.side event.price) :
    (p.onOrderAccepted event).quotes =
      Function.update p.quotes event.side
        (((p.quotes event.side).join
          (decide (event.side.better event.price (p.quotes event.side).price))
          event.price event.quantity).getD (p.quotes event.side)) := by
  unfold onOrderAccepted
  rw [if_neg hprice]
  unfold takenToMatch at h
  cases hside : event.side with
  | buy =>
      rw [hside] at h
      dsimp only
      rw [if_neg (fun htaken => h ⟨htaken.left, not_lt.mpr htaken.right⟩)]
      have hjoin : (p.quotes .buy).join (decide (Side.buy.better event.price
          (p.quotes .buy).price)) event.price event.quantity =
          p.bid.join (decide (p.bid.price < event.price)) event.price event.quantity := rfl
      rw [hjoin]
      cases p.bid.join (decide (p.bid.price < event.price)) event.price event.quantity with
      | some bid => exact (quotes_publishUpdate _).trans (quotes_bid p bid)
      | none => exact (Function.update_eq_self .buy p.quotes).symm
  | sell =>
      rw [hside] at h
      dsimp only
      rw [if_neg (fun htaken => h ⟨htaken.left, not_lt.mpr htaken.right⟩)]
      have hjoin : (p.quotes .sell).join (decide (Side.sell.better event.price
          (p.quotes .sell).price)) event.price event.quantity =
          p.ask.join (decide (event.price < p.ask.price)) event.price event.quantity := rfl
      rw [hjoin]
      cases p.ask.join (decide (event.price < p.ask.price)) event.price event.quantity with
      | some ask => exact (quotes_publishUpdate _).trans (quotes_ask p ask)
      | none => exact (Function.update_eq_self .sell p.quotes).symm

/-!
## The trades of a sweep

If no opposing order is at the price tracked on the incoming order's own side,
the trades are all attributed to the opposing side.
-/

section Sweep

variable {c : Incoming} {pulls : RestingOrder -> Bool} {remaining : Quantity}
  {o : RestingOrder} {rest : List RestingOrder}

theorem tradeWith_full (hle : o.quantity <= remaining) (sequence : TradeSequence) :
    (c.tradeWith o remaining sequence).quantity = o.quantity ∧
      (c.tradeWith o remaining sequence).restingOrderRemoved = true := by
  have hfill : Incoming.fillQty remaining o.quantity = o.quantity := by
    rw [Incoming.fillQty_eq_min, min_eq_right hle]
  exact ⟨hfill, decide_eq_true hfill⟩

theorem tradeWith_absorbed (hlt : remaining < o.quantity) (sequence : TradeSequence) :
    (c.tradeWith o remaining sequence).quantity = remaining ∧
      (c.tradeWith o remaining sequence).restingOrderRemoved = false := by
  have hfill : Incoming.fillQty remaining o.quantity = remaining := by
    rw [Incoming.fillQty_eq_min, min_eq_left (le_of_lt hlt)]
  refine ⟨hfill, decide_eq_false ?_⟩
  rw [hfill]
  exact ne_of_lt hlt

theorem quotes_trade {s : Side} (c : Incoming) (remaining : Quantity)
    (hsorted : PriorityList.Sorted s.better (fun o => o.price) (o :: rest))
    (htracks : Tracks s (p.quotes s) (o :: rest))
    (hapart : ¬ (p.quotes s.opposite).At o.price) (sequence : TradeSequence) :
    (p.onTrade (c.tradeWith o remaining sequence)).quotes s.opposite = p.quotes s.opposite ∧
      (o.quantity <= remaining ->
        Tracks s ((p.onTrade (c.tradeWith o remaining sequence)).quotes s) rest) ∧
      (remaining < o.quantity ->
        Tracks s ((p.onTrade (c.tradeWith o remaining sequence)).quotes s)
          ({ o with quantity := o.quantity - remaining } :: rest)) := by
  have hprice : (c.tradeWith o remaining sequence).price = o.price := rfl
  by_cases hcount : (p.quotes s).count = 0
  · have hunknown := htracks.unknown hcount
    have hmiss : forall t, ¬ (p.quotes t).At (c.tradeWith o remaining sequence).price := by
      intro t
      rcases Side.eq_or_eq_opposite s t with rfl | rfl
      · rw [hunknown]
        exact SideState.not_at_unknown _
      · exact hapart
    rw [quotes_onTrade_miss hmiss, hunknown]
    exact ⟨rfl, fun _ => tracks_unknown s _, fun _ => tracks_unknown s _⟩
  · have hknown := htracks.known hcount
    have hbest : o.price = (p.quotes s).price := hknown.head_price hsorted
    have hhit : (p.quotes s).At (c.tradeWith o remaining sequence).price :=
      SideState.at_iff.mpr ⟨hbest.symm, hcount⟩
    rw [quotes_onTrade_hit hhit hapart, Function.update_self,
      Function.update_of_ne (Side.opposite_ne s)]
    refine ⟨rfl, ?_, ?_⟩
    · intro hle
      rw [(tradeWith_full hle sequence).left, (tradeWith_full hle sequence).right]
      exact hknown.remove (List.Perm.refl _) hbest
    · intro hlt
      rw [(tradeWith_absorbed hlt sequence).left, (tradeWith_absorbed hlt sequence).right]
      exact Or.inr (hknown.fill hbest hlt)

theorem quotes_sweep {s : Side} (hpulls : forall o, pulls o = false) (remaining : Quantity)
    (orders : List RestingOrder) (p : UdpFeedPublisher) (sequence : TradeSequence)
    (hsorted : PriorityList.Sorted s.better (fun o => o.price) orders)
    (htracks : Tracks s (p.quotes s) orders)
    (hapart : forall o, o ∈ orders -> ¬ (p.quotes s.opposite).At o.price) :
    (p.run (Action.events c sequence (c.sweep pulls remaining orders).actions)).quotes
        s.opposite = p.quotes s.opposite ∧
      Tracks s
        ((p.run (Action.events c sequence (c.sweep pulls remaining orders).actions)).quotes s)
        (c.sweep pulls remaining orders).left := by
  revert p sequence hsorted htracks hapart
  apply Incoming.sweep_induction (P := fun _ orders sweep =>
    forall (p : UdpFeedPublisher) (sequence : TradeSequence),
      PriorityList.Sorted s.better (fun o => o.price) orders ->
      Tracks s (p.quotes s) orders ->
      (forall o, o ∈ orders -> ¬ (p.quotes s.opposite).At o.price) ->
      (p.run (Action.events c sequence sweep.actions)).quotes s.opposite =
          p.quotes s.opposite ∧
        Tracks s ((p.run (Action.events c sequence sweep.actions)).quotes s) sweep.left)
  case stop =>
    intro remaining orders _ p sequence _ htracks _
    exact ⟨rfl, htracks⟩
  case own =>
    intro remaining o rest sweep _ hown
    rw [hpulls o] at hown
    cases hown
  case full =>
    intro remaining o rest sweep _ _ _ hle ih p sequence hsorted htracks hapart
    have htrade := quotes_trade c remaining hsorted htracks
      (hapart o List.mem_cons_self) sequence
    have hrest := ih (p.onTrade (c.tradeWith o remaining sequence)) sequence.next
      (List.pairwise_cons.mp hsorted).right (htrade.right.left hle)
      (fun x hx => htrade.left ▸ hapart x (List.mem_cons_of_mem _ hx))
    rw [htrade.left] at hrest
    exact hrest
  case absorbed =>
    intro remaining o rest _ _ _ hlt p sequence hsorted htracks hapart
    have htrade := quotes_trade c remaining hsorted htracks
      (hapart o List.mem_cons_self) sequence
    exact ⟨htrade.left, htrade.right.right hlt⟩

end Sweep

end UdpFeedPublisher

/-!
## A limit order over an unknown opposing side

The publisher takes the order to rest at its limit price.  It finds out only
if the trades consume an order at exactly that price.
-/

def depthThrough (price : Price) : List RestingOrder -> Option Nat
  | [] => none
  | o :: rest =>
      if o.price = price then some o.quantity.units
      else (depthThrough price rest).map (o.quantity.units + ·)

theorem depthThrough_some {price : Price} {orders : List RestingOrder} {depth : Nat}
    (hpos : forall o, o ∈ orders -> Quantity.zero < o.quantity)
    (h : depthThrough price orders = some depth) :
    0 < depth ∧ exists o, o ∈ orders ∧ o.price = price := by
  induction orders generalizing depth with
  | nil => cases h
  | cons o rest ih =>
      have ho := Quantity.zero_lt_iff.mp (hpos o List.mem_cons_self)
      unfold depthThrough at h
      split at h
      · next hprice =>
          cases h
          exact ⟨ho, o, List.mem_cons_self, hprice⟩
      · rcases Option.map_eq_some_iff.mp h with ⟨behind, hbehind, rfl⟩
        rcases ih (fun x hx => hpos x (List.mem_cons_of_mem _ hx)) hbehind with
          ⟨-, x, hx, hprice⟩
        exact ⟨Nat.add_pos_left ho behind, x, List.mem_cons_of_mem _ hx, hprice⟩

theorem le_depthThrough {limit : Price} {o : RestingOrder} {rest : List RestingOrder}
    {depth : Nat} (h : depthThrough limit (o :: rest) = some depth) :
    o.quantity.units <= depth := by
  unfold depthThrough at h
  split at h
  · cases h
    exact Nat.le_refl _
  · rcases Option.map_eq_some_iff.mp h with ⟨behind, -, rfl⟩
    exact Nat.le_add_right _ _

theorem crosses_first {c : Incoming} {limit : Price} (hlimit : c.limitPrice = some limit)
    {o x : RestingOrder} {rest : List RestingOrder}
    (hsorted : PriorityList.Sorted c.side.opposite.better (fun o => o.price) (o :: rest))
    (hx : x ∈ o :: rest) (hprice : x.price = limit) : c.beyondLimit o.price = false := by
  rw [Bool.eq_false_iff]
  intro hfar
  have hbeyond := (Incoming.beyondLimit_iff hlimit).mp hfar
  rcases List.mem_cons.mp hx with rfl | hrest
  · rw [hprice] at hbeyond
    exact irrefl_of c.side.opposite.better limit hbeyond
  · have hlater : ¬ c.side.opposite.better x.price o.price :=
      (List.pairwise_cons.mp hsorted).left x hrest
    rw [hprice] at hlater
    exact hlater hbeyond

namespace UdpFeedPublisher

/-- An order was taken to rest at its limit; consuming one there drains the level. -/
theorem quotes_drained {p : UdpFeedPublisher} {c : Incoming} {o : RestingOrder}
    {remaining qty : Quantity} (hfull : o.quantity <= remaining)
    (hopposing : p.quotes c.side.opposite = {})
    (hown : p.quotes c.side = { price := o.price, qty := qty, count := 1 })
    (sequence : TradeSequence) :
    (p.onTrade (c.tradeWith o remaining sequence)).quotes c.side = {} ∧
      (p.onTrade (c.tradeWith o remaining sequence)).quotes c.side.opposite = {} := by
  have hhit : (p.quotes c.side).At (c.tradeWith o remaining sequence).price := by
    rw [hown]
    exact ⟨rfl, (by decide : (0 : UInt64) < 1)⟩
  have hmiss : ¬ (p.quotes c.side.opposite).At (c.tradeWith o remaining sequence).price := by
    rw [hopposing]
    exact SideState.not_at_unknown _
  have htrade := quotes_onTrade_hit hhit hmiss
  rw [(tradeWith_full hfull sequence).right, hown] at htrade
  rw [htrade, Function.update_self, Function.update_of_ne (Side.opposite_ne c.side)]
  exact ⟨SideState.reduce_last o.price qty _, hopposing⟩

theorem quotes_sweep_through {c : Incoming} {pulls : RestingOrder -> Bool} {limit : Price}
    (hlimit : c.limitPrice = some limit) (hpulls : forall o, pulls o = false)
    (remaining : Quantity) (orders : List RestingOrder) (p : UdpFeedPublisher)
    (sequence : TradeSequence) {depth : Nat} {qty : Quantity}
    (hsorted : PriorityList.Sorted c.side.opposite.better (fun o => o.price) orders)
    (hpos : forall o, o ∈ orders -> Quantity.zero < o.quantity)
    (hdepth : depthThrough limit orders = some depth) (hle : depth <= remaining.units)
    (hopposing : p.quotes c.side.opposite = {})
    (hown : p.quotes c.side = { price := limit, qty := qty, count := 1 }) :
    (p.run (Action.events c sequence (c.sweep pulls remaining orders).actions)).quotes
        c.side = {} ∧
      Tracks c.side.opposite
        ((p.run (Action.events c sequence (c.sweep pulls remaining orders).actions)).quotes
          c.side.opposite)
        (c.sweep pulls remaining orders).left := by
  induction orders generalizing remaining p sequence depth with
  | nil => cases hdepth
  | cons o rest ih =>
      rcases depthThrough_some hpos hdepth with ⟨hpositive, x, hx, hprice⟩
      have hrem : Quantity.zero < remaining :=
        Quantity.zero_lt_iff.mpr (Nat.lt_of_lt_of_le hpositive hle)
      have hfull : o.quantity <= remaining :=
        Quantity.le_iff.mpr (Nat.le_trans (le_depthThrough hdepth) hle)
      rw [Incoming.sweep_full (crosses_first hlimit hsorted hx hprice) (hpulls o) hrem hfull]
      show ((p.onTrade (c.tradeWith o remaining sequence)).run (Action.events c sequence.next
          (c.sweep pulls (remaining - o.quantity) rest).actions)).quotes c.side = {} ∧
        Tracks c.side.opposite (((p.onTrade (c.tradeWith o remaining sequence)).run
          (Action.events c sequence.next
            (c.sweep pulls (remaining - o.quantity) rest).actions)).quotes c.side.opposite)
          (c.sweep pulls (remaining - o.quantity) rest).left
      by_cases hat : o.price = limit
      · subst hat
        rcases quotes_drained hfull hopposing hown sequence with ⟨hdrained, hstill⟩
        have hrest := quotes_sweep (c := c) hpulls (remaining - o.quantity) rest
          (p.onTrade (c.tradeWith o remaining sequence)) sequence.next
          (List.pairwise_cons.mp hsorted).right
          (by rw [hstill]; exact tracks_unknown _ _)
          (by rw [Side.opposite_opposite, hdrained]; exact fun _ _ => SideState.not_at_unknown _)
        rw [Side.opposite_opposite, hdrained] at hrest
        exact hrest
      · have hmiss : forall t, ¬ (p.quotes t).At (c.tradeWith o remaining sequence).price := by
          intro t
          rcases Side.eq_or_eq_opposite c.side t with rfl | rfl
          · rw [hown]
            exact fun hhit => hat hhit.left.symm
          · rw [hopposing]
            exact SideState.not_at_unknown _
        have hquotes := quotes_onTrade_miss hmiss
        unfold depthThrough at hdepth
        rw [if_neg hat] at hdepth
        rcases Option.map_eq_some_iff.mp hdepth with ⟨behind, hbehind, rfl⟩
        refine ih (remaining - o.quantity) (p.onTrade (c.tradeWith o remaining sequence))
          sequence.next (List.pairwise_cons.mp hsorted).right
          (fun x hx => hpos x (List.mem_cons_of_mem _ hx)) hbehind ?_ ?_ ?_
        · rw [Quantity.units_sub_of_le hfull]
          omega
        · rw [hquotes]
          exact hopposing
        · rw [hquotes]
          exact hown

end UdpFeedPublisher
end Feed
end MiniExchange
