import MiniExchange.Engine.Arrival
import Mathlib.Data.List.Sort

/-!
# Price-time priority

A matcher that knows nothing of price levels, queues, or slots: it lists the
opposing orders by priority and walks the list.  Submissions to the engine are
shown to produce its trades and its book.
-/

namespace MiniExchange

open Foundation

namespace Reference

/-- `a` comes no later than `b`: better price, or same price and no later sequence. -/
def Precedes (s : Side) (a b : RestingOrder) : Prop :=
  s.better a.price b.price ∨ (a.price = b.price ∧ a.sequence <= b.sequence)

instance (s : Side) : DecidableRel (Precedes s) := fun _ _ =>
  inferInstanceAs (Decidable (_ ∨ (_ ∧ _)))

/-- The orders of a side by best price and, within a price, by sequence. -/
def listing (s : Side) (orders : List RestingOrder) : List RestingOrder :=
  orders.insertionSort (Precedes s)

def within (side : Side) (limit : Option Price) (price : Price) : Bool :=
  match limit, side with
  | none, _ => true
  | some limit, .buy => decide (price <= limit)
  | some limit, .sell => decide (limit <= price)

/-- A fill against a resting order, taken as it was before the fill. -/
structure Execution where
  resting : RestingOrder
  quantity : Quantity
deriving DecidableEq, Repr

structure Walk where
  executions : List Execution
  remaining : Quantity
  left : List RestingOrder
deriving DecidableEq, Repr

/-- Fill `min(remaining, resting)` against each order in turn. -/
def walk (side : Side) (limit : Option Price) : Quantity -> List RestingOrder -> Walk
  | remaining, [] => { executions := [], remaining := remaining, left := [] }
  | remaining, o :: rest =>
      if decide (Quantity.zero < remaining) && within side limit o.price then
        let fill := min remaining o.quantity
        let next := walk side limit (remaining - fill) rest
        { executions := { resting := o, quantity := fill } :: next.executions
          remaining := next.remaining
          left :=
            if o.quantity - fill = Quantity.zero then next.left
            else { o with quantity := o.quantity - fill } :: next.left }
      else { executions := [], remaining := remaining, left := o :: rest }

def trade (order : NewOrder) (sequence : TradeSequence) (x : Execution) : Trade where
  tradeSequence := sequence
  buyOrderId := if order.side = .buy then order.id else x.resting.id
  sellOrderId := if order.side = .buy then x.resting.id else order.id
  price := x.resting.price
  quantity := x.quantity
  restingOrderRemoved := decide (x.resting.quantity = x.quantity)

def trades (order : NewOrder) : TradeSequence -> List Execution -> List Trade
  | _, [] => []
  | sequence, x :: rest => trade order sequence x :: trades order sequence.next rest

/-- The submitter's side: a limit order's positive remainder queues behind its equals. -/
def rest (order : NewOrder) (remaining : Quantity) (sequence : Sequence)
    (orders : List RestingOrder) : List RestingOrder :=
  match order with
  | .market _ => orders
  | .limit o =>
      if Quantity.zero < remaining then
        PriorityList.insert o.side.better (fun o => o.price)
          { id := o.id
            side := o.side
            price := o.price
            quantity := remaining
            sequence := sequence
            owner := o.owner } orders
      else orders

/-- A call has the trades and the book of the reference matcher. -/
structure Agrees (e : MatchingEngine) (order : NewOrder) (call : EngineCall)
    (w : Walk) : Prop where
  trades : call.response.trades = trades order e.nextTradeSequence w.executions
  remaining : call.response.remainingQty = w.remaining
  opposing : call.engine.book.resting order.side.opposite = w.left
  own : call.engine.book.resting order.side =
    rest order w.remaining e.nextSequence (e.book.resting order.side)

/-!
## The sweep without own orders is the walk
-/

theorem within_eq (order : NewOrder) (price : Price) :
    within order.side order.limitPrice price = !order.incoming.beyondLimit price := by
  unfold within Incoming.beyondLimit NewOrder.incoming
  dsimp only
  cases order.limitPrice with
  | none => rfl
  | some limit =>
      cases order.side with
      | buy => simp [← not_lt]
      | sell => simp [← not_lt]

section Walk

variable {side : Side} {limit : Option Price} {remaining : Quantity} {o : RestingOrder}
variable {rest : List RestingOrder}

theorem walk_stop {orders : List RestingOrder}
    (h : Quantity.zero < remaining -> forall o, orders.head? = some o ->
      within side limit o.price = false) :
    walk side limit remaining orders =
      { executions := [], remaining := remaining, left := orders } := by
  cases orders with
  | nil => rfl
  | cons o rest =>
      by_cases hpos : Quantity.zero < remaining
      · simp [walk, h hpos o rfl]
      · simp [walk, hpos]

theorem walk_full (hwithin : within side limit o.price = true)
    (hpos : Quantity.zero < remaining) (hle : o.quantity <= remaining) :
    walk side limit remaining (o :: rest) =
      { executions := { resting := o, quantity := o.quantity } ::
          (walk side limit (remaining - o.quantity) rest).executions
        remaining := (walk side limit (remaining - o.quantity) rest).remaining
        left := (walk side limit (remaining - o.quantity) rest).left } := by
  simp [walk, hpos, hwithin, min_eq_right hle, Quantity.sub_self]

theorem walk_absorbed (hwithin : within side limit o.price = true)
    (hpos : Quantity.zero < remaining) (hlt : remaining < o.quantity) :
    walk side limit remaining (o :: rest) =
      { executions := [{ resting := o, quantity := remaining }]
        remaining := Quantity.zero
        left := { o with quantity := o.quantity - remaining } :: rest } := by
  have hdone : walk side limit Quantity.zero rest =
      { executions := [], remaining := Quantity.zero, left := rest } :=
    walk_stop (fun hzero => absurd hzero (lt_irrefl _))
  simp [walk, hpos, hwithin, min_eq_left (le_of_lt hlt), Quantity.sub_self, hdone,
    Quantity.sub_ne_zero hlt]

end Walk

theorem tradeWith_eq (order : NewOrder) (o : RestingOrder) (remaining : Quantity)
    (sequence : TradeSequence) :
    order.incoming.tradeWith o remaining sequence =
      trade order sequence { resting := o, quantity := min remaining o.quantity } := by
  have hside : order.incoming.side = order.side := rfl
  have hid : order.incoming.id = order.id := rfl
  unfold trade Incoming.tradeWith
  rw [Incoming.fillQty_eq_min, hside, hid]
  cases order.side <;> simp [eq_comm]

theorem sweep_eq_walk (order : NewOrder) {pulls : RestingOrder -> Bool}
    (hpulls : forall o, pulls o = false) (remaining : Quantity)
    (orders : List RestingOrder) :
    (order.incoming.sweep pulls remaining orders).remaining =
        (walk order.side order.limitPrice remaining orders).remaining ∧
      (order.incoming.sweep pulls remaining orders).left =
        (walk order.side order.limitPrice remaining orders).left ∧
      forall sequence,
        Action.trades order.incoming sequence
            (order.incoming.sweep pulls remaining orders).actions =
          trades order sequence
            (walk order.side order.limitPrice remaining orders).executions := by
  apply Incoming.sweep_induction (P := fun remaining orders s =>
    s.remaining = (walk order.side order.limitPrice remaining orders).remaining ∧
      s.left = (walk order.side order.limitPrice remaining orders).left ∧
      forall sequence, Action.trades order.incoming sequence s.actions =
        trades order sequence (walk order.side order.limitPrice remaining orders).executions)
  case stop =>
    intro remaining orders hstop
    rw [walk_stop]
    · exact ⟨rfl, rfl, fun _ => rfl⟩
    · intro hpos o ho
      rw [within_eq, hstop hpos o ho]
      rfl
  case own =>
    intro remaining o rest s _ hown
    rw [hpulls o] at hown
    cases hown
  case full =>
    intro remaining o rest s hcross _ hpos hle ih
    rw [walk_full (by rw [within_eq, hcross]; rfl) hpos hle]
    refine ⟨ih.left, ih.right.left, ?_⟩
    intro sequence
    simp only [Sweep.cons, Action.trades, trades]
    rw [ih.right.right, tradeWith_eq, min_eq_right hle]
  case absorbed =>
    intro remaining o rest hcross _ hpos hlt
    rw [walk_absorbed (by rw [within_eq, hcross]; rfl) hpos hlt]
    refine ⟨rfl, rfl, ?_⟩
    intro sequence
    simp only [Action.trades, trades]
    rw [tradeWith_eq, min_eq_left (le_of_lt hlt)]

/-!
## Submissions
-/

variable {e : MatchingEngine} {order : NewOrder}

theorem agrees_of_admits (hw : e.book.WellFormed) (hadmits : e.Admits order)
    (hpulls : forall o, order.pulls e.stp o = false) :
    Agrees e order (e.submit order)
      (walk order.side order.limitPrice order.quantity
        (e.book.resting order.side.opposite)) := by
  have h := MatchingEngine.admission hw hadmits
  rcases sweep_eq_walk order hpulls order.quantity
    (e.book.resting order.side.opposite) with ⟨hrem, hleft, htrades⟩
  have hsweep : (e.sweepOf order).remaining = _ := hrem
  refine ⟨h.trades.trans (htrades _), h.remainingQty.trans hrem,
    h.opposing.trans hleft, ?_⟩
  rw [h.own, ← hsweep]
  cases order with
  | market o => rfl
  | limit o =>
      simp only [MatchingEngine.restedBy, rest]
      split <;> rfl

/--
The slots of a side are listed by price and, within a price, in the order in
which their orders came to rest.
-/
def InArrivalOrder (came : List RestingOrder) (b : OrderBook) (s : Side) : Prop :=
  exists rank : Slot -> Nat,
    (forall x, x ∈ b.restingSlots s ->
      (exists o, came[rank x]? = some o ∧ { b.data x with quantity := o.quantity } = o) ∧
        (b.data x).sequence = Sequence.ofRank (rank x)) ∧
    (b.restingSlots s).Pairwise (fun x y =>
      s.better (b.data x).price (b.data y).price ∨
        ((b.data x).price = (b.data y).price ∧ rank x < rank y))

theorem pairwise_arrival {n : Nat} {rank : Slot -> Nat} {b : OrderBook}
    (hw : b.WellFormed) (h : Ranked n rank b) (s : Side) :
    (b.restingSlots s).Pairwise (fun x y =>
      s.better (b.data x).price (b.data y).price ∨
        ((b.data x).price = (b.data y).price ∧ rank x < rank y)) := by
  apply List.Pairwise.imp₂ _ (hw.ordered_slots s) (h.fifo s)
  intro x y hsorted hfifo
  rcases Side.not_better_iff.mp hsorted with heq | hbetter
  · exact Or.inr ⟨heq.symm, hfifo heq.symm⟩
  · exact Or.inl hbetter

theorem listing_eq {n : Nat} {rank : Slot -> Nat} {b : OrderBook} (hw : b.WellFormed)
    (h : Ranked n rank b) (hn : n <= 2 ^ 64) (s : Side) :
    listing s (b.resting s) = b.resting s := by
  apply List.Pairwise.insertionSort_eq
  rw [OrderBook.resting_eq, List.pairwise_map]
  apply (pairwise_arrival hw h s).imp_of_mem
  intro x y hx hy hxy
  rcases hxy with hbetter | ⟨hprice, hrank⟩
  · exact Or.inl hbetter
  · have hylt := h.rank_lt s y hy
    refine Or.inr ⟨hprice, le_of_lt ?_⟩
    rw [h.sequence_eq s x hx, h.sequence_eq s y hy, Sequence.lt_iff,
      Sequence.index_ofRank (by omega), Sequence.index_ofRank (by omega)]
    exact hrank

/--
Every accepted submission has the trades and the book of the reference matcher
run on the opposing orders, which the book lists by price and by the order in
which they came to rest; as long as sequence numbers have not wrapped, that is
the listing by price and sequence.
-/
theorem submit_price_time_priority (raw : Memory) (capacity : UInt64) (stp : StpConfig)
    (hstp : stp.enabled = false ∨ stp.policy = .rejectIncoming)
    (commands : List EngineCommand) (order : NewOrder) :
    let e := (MatchingEngine.new raw capacity stp).run commands
    (e.submit order).response.status = .accepted ->
      Agrees e order (e.submit order)
          (walk order.side order.limitPrice order.quantity
            (e.book.resting order.side.opposite)) ∧
        InArrivalOrder ((MatchingEngine.new raw capacity stp).arrivals commands) e.book
          order.side.opposite ∧
        (commands.length < 2 ^ 64 ->
          listing order.side.opposite (e.book.resting order.side.opposite) =
            e.book.resting order.side.opposite) := by
  intro e haccepted
  have hw : e.book.WellFormed := MatchingEngine.run_wellFormed raw capacity stp commands
  have hconfig : e.stp = stp := MatchingEngine.run_stp raw capacity stp commands
  rcases run_arrived raw capacity stp commands with ⟨rank, harrived⟩
  refine ⟨agrees_of_admits hw (MatchingEngine.admits_of_accepted haccepted) ?_, ?_, ?_⟩
  · intro o
    unfold NewOrder.pulls
    rw [hconfig]
    rcases hstp with hdisabled | hpolicy
    · simp [hdisabled]
    · simp [hpolicy]
  · refine ⟨rank, ?_, pairwise_arrival hw harrived.ranked order.side.opposite⟩
    exact fun x hx => ⟨harrived.arrival _ x hx, harrived.ranked.sequence_eq _ x hx⟩
  · intro hlength
    have hcount := (MatchingEngine.new raw capacity stp).length_arrivals_le commands
    exact listing_eq hw harrived.ranked (by omega) _

def twoAsks : List EngineCommand :=
  [.limit { id := ⟨1⟩, side := .sell, price := ⟨101⟩, quantity := ⟨10⟩, owner := ⟨1⟩ },
    .limit { id := ⟨1⟩, side := .sell, price := ⟨100⟩, quantity := ⟨5⟩, owner := ⟨2⟩ }]

def crossingBuy : NewOrder :=
  .limit { id := ⟨1⟩, side := .buy, price := ⟨101⟩, quantity := ⟨12⟩, owner := ⟨3⟩ }

theorem submit_price_time_priority_crossingBuy :
    let start := MatchingEngine.new Memory.zeroed 4
      { enabled := true, policy := .rejectIncoming }
    let e := start.run twoAsks
    (e.submit crossingBuy).response.status = .accepted ∧
      Agrees e crossingBuy (e.submit crossingBuy)
        (walk .buy (some ⟨101⟩) ⟨12⟩ (e.book.resting .sell)) ∧
      InArrivalOrder (start.arrivals twoAsks) e.book .sell ∧
      listing .sell (e.book.resting .sell) = e.book.resting .sell := by
  have haccepted : (((MatchingEngine.new Memory.zeroed 4
      { enabled := true, policy := .rejectIncoming }).run twoAsks).submit
        crossingBuy).response.status = .accepted := by decide +kernel
  rcases submit_price_time_priority Memory.zeroed 4
    { enabled := true, policy := .rejectIncoming } (Or.inr rfl) twoAsks
    crossingBuy haccepted with ⟨hagrees, harrival, hlisting⟩
  exact ⟨haccepted, hagrees, harrival, hlisting (by decide)⟩

end Reference
end MiniExchange
