import MiniExchange.Engine.MatchingEngine
import MiniExchange.OrderBook.WellFormed
import Mathlib.Logic.Relation

/-!
# The matching loop, step by step

`LoopStep` says once what every branch of the two nested loops does, in terms of
the orders that rest on the opposite side.  The loops are then shown to finish
within their fuel and to be runs of such steps, so that a property of the whole
loop follows from what one step preserves.
-/

namespace MiniExchange

open Foundation

namespace Incoming

theorem fillQty_eq_min (remaining resting : Quantity) :
    fillQty remaining resting = min remaining resting := by
  unfold fillQty
  split
  · next h => exact (min_eq_left (le_of_lt h)).symm
  · next h => exact (min_eq_right (not_lt.mp h)).symm

theorem fillQty_le_resting (remaining resting : Quantity) :
    fillQty remaining resting <= resting := by
  rw [fillQty_eq_min]
  exact min_le_right _ _

theorem fillQty_le_remaining (remaining resting : Quantity) :
    fillQty remaining resting <= remaining := by
  rw [fillQty_eq_min]
  exact min_le_left _ _

theorem fillQty_of_ne {remaining resting : Quantity}
    (h : fillQty remaining resting ≠ resting) :
    fillQty remaining resting = remaining ∧ remaining < resting := by
  unfold fillQty at h ⊢
  split at h
  · next hlt =>
      rw [if_pos hlt]
      exact ⟨rfl, hlt⟩
  · exact absurd rfl h

end Incoming

namespace MatchState

def facing (m : MatchState) (c : Incoming) : List Slot :=
  m.engine.book.restingSlots c.side.opposite

def opposing (m : MatchState) (c : Incoming) : List RestingOrder :=
  m.engine.book.resting c.side.opposite

theorem opposing_eq (m : MatchState) (c : Incoming) :
    m.opposing c = (m.facing c).map m.engine.book.data := rfl

def WellFormed (m : MatchState) : Prop :=
  m.engine.book.WellFormed

section Actions

variable {m : MatchState} {c : Incoming} {level : LevelPtr} {x : Slot}
  {rest : List Slot}

theorem mem_facing (hx : m.facing c = x :: rest) :
    x ∈ m.engine.book.restingSlots c.side.opposite := by
  unfold facing at hx
  rw [hx]
  exact List.mem_cons_self

theorem cancelOwn_without (hw : m.WellFormed) (hx : m.facing c = x :: rest) :
    OrderBook.WellFormed.Without m.engine.book x (m.cancelOwn x).engine.book :=
  OrderBook.WellFormed.removeOrder hw (mem_facing hx)

theorem bookFill_wellFormed (hw : m.WellFormed) (hx : m.facing c = x :: rest)
    (hlevel : level = ⟨c.side.opposite, (m.engine.book.data x).price⟩) :
    (m.bookFill c level x).WellFormed ∧
      (m.bookFill c level x).engine.book.restingSlots = m.engine.book.restingSlots := by
  subst hlevel
  exact OrderBook.WellFormed.reduceResting hw (mem_facing hx)
    (Incoming.fillQty_le_resting _ _)

theorem fillResting_of_consumed (h : m.fullyConsumed x = true) :
    m.fillResting c level x =
      { m.bookFill c level x with
        engine := (m.bookFill c level x).engine.removeResting x } := by
  unfold fillResting
  rw [if_pos h]

theorem fillResting_of_not_consumed (h : m.fullyConsumed x = false) :
    m.fillResting c level x = m.bookFill c level x := by
  unfold fillResting
  rw [if_neg (by simp [h])]

theorem facing_cancelOwn (hw : m.WellFormed) (hx : m.facing c = x :: rest) :
    (m.cancelOwn x).WellFormed ∧ (m.cancelOwn x).facing c = rest := by
  have hr := cancelOwn_without hw hx
  refine ⟨hr.wellFormed, ?_⟩
  have herase := hr.restingSlots_eq c.side.opposite
  unfold facing at hx ⊢
  rw [herase, hx, List.erase_cons_head]

theorem facing_fillResting (hw : m.WellFormed) (hx : m.facing c = x :: rest)
    (hlevel : level = ⟨c.side.opposite, (m.engine.book.data x).price⟩) :
    (m.fillResting c level x).WellFormed ∧
      (m.fillResting c level x).facing c =
        if m.fullyConsumed x then rest else x :: rest := by
  rcases bookFill_wellFormed hw hx hlevel with ⟨hfilled, hslots⟩
  have hfacing : (m.bookFill c level x).facing c = x :: rest := by
    unfold facing at hx ⊢
    rw [hslots, hx]
  cases hfull : m.fullyConsumed x with
  | true =>
      rw [fillResting_of_consumed hfull, if_pos rfl]
      exact facing_cancelOwn hfilled hfacing
  | false =>
      rw [fillResting_of_not_consumed hfull, if_neg (by simp)]
      exact ⟨hfilled, hfacing⟩

theorem resting_without {b' : OrderBook} (hw : m.WellFormed)
    (hx : m.facing c = x :: rest)
    (hr : OrderBook.WellFormed.Without m.engine.book x b') :
    b'.resting c.side.opposite = rest.map m.engine.book.data ∧
      b'.resting c.side = m.engine.book.resting c.side := by
  rw [hr.resting_eq hw, hr.resting_eq hw, List.erase_of_not_mem (a := x) (l :=
    m.engine.book.restingSlots c.side)]
  · unfold facing at hx
    rw [hx, List.erase_cons_head]
    exact ⟨rfl, rfl⟩
  · intro hmem
    exact Side.opposite_ne c.side (hw.side_unique (mem_facing hx) hmem)

theorem resting_bookFill (hw : m.WellFormed) (hx : m.facing c = x :: rest)
    (hlevel : level = ⟨c.side.opposite, (m.engine.book.data x).price⟩) :
    (m.bookFill c level x).engine.book.data x =
        { m.engine.book.data x with
          quantity := (m.engine.book.data x).quantity -
            Incoming.fillQty m.remaining (m.engine.book.data x).quantity } ∧
      rest.map (m.bookFill c level x).engine.book.data = rest.map m.engine.book.data ∧
      (m.bookFill c level x).engine.book.resting c.side =
        m.engine.book.resting c.side := by
  have hdata : forall y, (m.bookFill c level x).engine.book.data y =
      if y = x then
        { m.engine.book.data x with
          quantity := (m.engine.book.data x).quantity -
            Incoming.fillQty m.remaining (m.engine.book.data x).quantity }
      else m.engine.book.data y :=
    fun y => OrderBook.WellFormed.data_reduceResting m.engine.book level x y _
  have hslots := (bookFill_wellFormed hw hx hlevel).right
  refine ⟨by rw [hdata, if_pos rfl], ?_, ?_⟩
  · apply List.map_congr_left
    intro y hy
    have hnodup := hw.nodup c.side.opposite
    unfold facing at hx
    rw [hx] at hnodup
    have hne : y ≠ x := fun heq => (List.nodup_cons.mp hnodup).left (heq ▸ hy)
    rw [hdata, if_neg hne]
  · rw [OrderBook.resting_eq, OrderBook.resting_eq, hslots]
    apply List.map_congr_left
    intro y hy
    have hne : y ≠ x := by
      intro heq
      exact Side.opposite_ne c.side (hw.side_unique (mem_facing hx) (heq ▸ hy))
    rw [hdata, if_neg hne]

theorem opposing_cancelOwn (hw : m.WellFormed) (hx : m.facing c = x :: rest) :
    (m.cancelOwn x).opposing c = rest.map m.engine.book.data ∧
      (m.cancelOwn x).engine.book.resting c.side = m.engine.book.resting c.side :=
  resting_without hw hx (cancelOwn_without hw hx)

theorem opposing_fillResting (hw : m.WellFormed) (hx : m.facing c = x :: rest)
    (hlevel : level = ⟨c.side.opposite, (m.engine.book.data x).price⟩) :
    (m.fillResting c level x).opposing c =
        (if m.fullyConsumed x then rest.map m.engine.book.data
        else
          { m.engine.book.data x with
            quantity := (m.engine.book.data x).quantity -
              Incoming.fillQty m.remaining (m.engine.book.data x).quantity } ::
            rest.map m.engine.book.data) ∧
      (m.fillResting c level x).engine.book.resting c.side =
        m.engine.book.resting c.side := by
  rcases bookFill_wellFormed hw hx hlevel with ⟨hfilled, hslots⟩
  rcases resting_bookFill hw hx hlevel with ⟨hself, hrest, hown⟩
  have hfacing : (m.bookFill c level x).facing c = x :: rest := by
    unfold facing at hx ⊢
    rw [hslots, hx]
  cases hfull : m.fullyConsumed x with
  | true =>
      have hwithout := resting_without hfilled hfacing (cancelOwn_without hfilled hfacing)
      rw [fillResting_of_consumed hfull, if_pos rfl]
      exact ⟨hwithout.left.trans hrest, hwithout.right.trans hown⟩
  | false =>
      rw [fillResting_of_not_consumed hfull, if_neg (by simp)]
      refine ⟨?_, hown⟩
      rw [opposing_eq, hfacing, List.map_cons, hself, hrest]

theorem tape_fillResting :
    (m.fillResting c level x).trades =
        m.trades ++ [c.tradeWith (m.engine.book.data x) m.remaining
          m.engine.nextTradeSequence] ∧
      (m.fillResting c level x).engine.sink =
        m.engine.sink ++ [.onTrade
          (c.tradeWith (m.engine.book.data x) m.remaining m.engine.nextTradeSequence)] ∧
      (m.fillResting c level x).engine.nextTradeSequence =
        m.engine.nextTradeSequence.next := by
  unfold fillResting
  split <;> exact ⟨rfl, rfl, rfl⟩

theorem kept_fillResting :
    (m.fillResting c level x).engine.stp = m.engine.stp ∧
      (m.fillResting c level x).engine.lastAcceptedId = m.engine.lastAcceptedId ∧
      (m.fillResting c level x).engine.nextSequence = m.engine.nextSequence := by
  unfold fillResting
  split <;> exact ⟨rfl, rfl, rfl⟩

theorem indexes_fillResting (hw : m.WellFormed) (hx : m.facing c = x :: rest)
    (hlevel : level = ⟨c.side.opposite, (m.engine.book.data x).price⟩) :
    (m.fillResting c level x).engine.clientResting =
        (if m.fullyConsumed x && m.engine.stp.enabled then
          m.engine.clientResting.unrest (m.engine.book.data x)
        else m.engine.clientResting) ∧
      (m.fillResting c level x).engine.book.orders =
        (if m.fullyConsumed x then
          Function.update m.engine.book.orders (m.engine.book.data x).id none
        else m.engine.book.orders) ∧
      (m.fillResting c level x).engine.book.poolAvailable =
        m.engine.book.poolAvailable + (if m.fullyConsumed x then 1 else 0) ∧
      (m.fillResting c level x).engine.book.pool.capacity =
        m.engine.book.pool.capacity := by
  have hself := (resting_bookFill hw hx hlevel).left
  rcases bookFill_wellFormed hw hx hlevel with ⟨hfilled, hslots⟩
  have hpool : (m.bookFill c level x).engine.book.orders = m.engine.book.orders ∧
      (m.bookFill c level x).engine.book.poolAvailable = m.engine.book.poolAvailable ∧
      (m.bookFill c level x).engine.book.pool.capacity = m.engine.book.pool.capacity :=
    OrderBook.WellFormed.pool_reduceResting m.engine.book level x
      (Incoming.fillQty m.remaining (m.engine.book.data x).quantity)
  cases hfull : m.fullyConsumed x with
  | true =>
      have hfacing : (m.bookFill c level x).facing c = x :: rest := by
        unfold facing at hx ⊢
        rw [hslots, hx]
      have hr := cancelOwn_without hfilled hfacing
      rw [fillResting_of_consumed hfull]
      refine ⟨?_, ?_, ?_, ?_⟩
      · show (if m.engine.stp.enabled then
            m.engine.clientResting.unrest ((m.bookFill c level x).engine.book.data x)
          else m.engine.clientResting) = _
        rw [hself]
        simp only [Bool.true_and]
        rfl
      · rw [if_pos rfl]
        refine hr.orders_eq.trans ?_
        rw [hself, hpool.left]
      · refine hr.available_eq.trans ?_
        rw [if_pos rfl, hpool.right.left]
      · exact hr.capacity_eq.trans hpool.right.right
  | false =>
      rw [fillResting_of_not_consumed hfull]
      simp only [Bool.false_and]
      exact ⟨rfl, hpool.left, hpool.right.left, hpool.right.right⟩

theorem remaining_fillResting :
    (m.fillResting c level x).remaining =
      m.remaining - Incoming.fillQty m.remaining (m.engine.book.data x).quantity := by
  unfold fillResting
  split <;> rfl

theorem remaining_of_not_consumed (h : m.fullyConsumed x = false) :
    (m.fillResting c level x).remaining = Quantity.zero := by
  have hne := of_decide_eq_false h
  rw [remaining_fillResting, (Incoming.fillQty_of_ne hne).left, Quantity.sub_self]

end Actions

end MatchState

/-!
## Steps
-/

/-- Where control is: at the outer guard, at the inner guard, or past the loops. -/
inductive LoopPoint where
  | outer
  | inner (level : LevelPtr)
  | done
deriving DecidableEq, Repr

def Incoming.fetchOps (c : Incoming) : List MatchOp :=
  .outerIteration ::
    if c.limitPrice.isSome then [.levelAccess .price true] else []

def frontOps : List MatchOp :=
  [.levelAccess .empty true, .innerIteration, .levelAccess .front true]

def MatchRun.pullFront (r : MatchRun) (x : Slot) : MatchRun where
  toMatchState := r.cancelOwn x
  ops := r.ops ++ (frontOps ++ [.cancelOwn (r.engine.book.data x)])

def MatchRun.fillFront (r : MatchRun) (c : Incoming) (level : LevelPtr) (x : Slot) :
    MatchRun where
  toMatchState := r.fillResting c level x
  ops := r.ops ++ (frontOps ++
    [.fill (r.engine.book.data x) r.remaining
        (Incoming.fillQty r.remaining (r.engine.book.data x).quantity),
      .levelAccess .reduceQuantity true])

inductive LoopStep (c : Incoming) : LoopPoint × MatchRun -> LoopPoint × MatchRun -> Prop
  | exhausted {r : MatchRun} (hrem : ¬ Quantity.zero < r.remaining) :
      LoopStep c (.outer, r) (.done, r)
  | noLiquidity {r : MatchRun} (hrem : Quantity.zero < r.remaining)
      (hfacing : r.facing c = []) :
      LoopStep c (.outer, r)
        (.done, r.note [.outerIteration])
  | noCross {r : MatchRun} {x : Slot} {rest : List Slot}
      (hrem : Quantity.zero < r.remaining) (hfacing : r.facing c = x :: rest)
      (hbeyond : c.beyondLimit (r.engine.book.data x).price = true) :
      LoopStep c (.outer, r) (.done, r.note c.fetchOps)
  | enter {r : MatchRun} {x : Slot} {rest : List Slot}
      (hrem : Quantity.zero < r.remaining) (hfacing : r.facing c = x :: rest)
      (hcross : c.beyondLimit (r.engine.book.data x).price = false) :
      LoopStep c (.outer, r)
        (.inner ⟨c.side.opposite, (r.engine.book.data x).price⟩,
          r.note c.fetchOps)
  | filled {r : MatchRun} {level : LevelPtr} (hrem : ¬ Quantity.zero < r.remaining) :
      LoopStep c (.inner level, r) (.outer, r)
  | erased {r : MatchRun} {level : LevelPtr} (hrem : Quantity.zero < r.remaining)
      (hlevel : r.engine.book.level? level = none) :
      LoopStep c (.inner level, r)
        (.outer, r.note [.levelAccess .empty false])
  | cancelOwn {r : MatchRun} {x : Slot} {rest : List Slot}
      (hrem : Quantity.zero < r.remaining) (hfacing : r.facing c = x :: rest)
      (hcross : c.beyondLimit (r.engine.book.data x).price = false)
      (hown : r.pullsOwn c (r.engine.book.data x) = true) :
      LoopStep c
        (.inner ⟨c.side.opposite, (r.engine.book.data x).price⟩, r)
        (.outer, r.pullFront x)
  | fill {r : MatchRun} {x : Slot} {rest : List Slot}
      (hrem : Quantity.zero < r.remaining) (hfacing : r.facing c = x :: rest)
      (hcross : c.beyondLimit (r.engine.book.data x).price = false)
      (hother : r.pullsOwn c (r.engine.book.data x) = false) :
      LoopStep c
        (.inner ⟨c.side.opposite, (r.engine.book.data x).price⟩, r)
        (.inner ⟨c.side.opposite, (r.engine.book.data x).price⟩,
          r.fillFront c ⟨c.side.opposite, (r.engine.book.data x).price⟩ x)

abbrev LoopRun (c : Incoming) : LoopPoint × MatchRun -> LoopPoint × MatchRun -> Prop :=
  Relation.ReflTransGen (LoopStep c)

/-- What holds at the inner guard: no opposing order is better than the level. -/
structure AtLevel (c : Incoming) (level : LevelPtr) (m : MatchState) : Prop where
  wellFormed : m.WellFormed
  side_eq : level.side = c.side.opposite
  crosses : c.beyondLimit level.price = false
  best : forall o, o ∈ m.opposing c -> ¬ c.side.opposite.better o.price level.price

namespace AtLevel

variable {c : Incoming} {level : LevelPtr} {m : MatchState} {x : Slot} {rest : List Slot}

theorem best_or_gone (h : AtLevel c level m) :
    (exists x rest, m.facing c = x :: rest ∧
        level = ⟨c.side.opposite, (m.engine.book.data x).price⟩ ∧
        (m.engine.book.level? level).bind PriceLevel.front = some x ∧
        (m.engine.book.level? level).isSome = true) ∨
      m.engine.book.level? level = none := by
  rcases level with ⟨side, p⟩
  rcases h.side_eq with rfl
  have hfront := OrderBook.WellFormed.front_eq h.wellFormed c.side.opposite p
  by_cases hnone : slotsAt m.engine.book.mem (m.facing c) p = []
  · right
    have hsome := hfront.right
    unfold MatchState.facing at hnone
    rw [hnone] at hsome
    simpa using hsome
  · left
    rcases List.exists_mem_of_ne_nil _ hnone with ⟨y, hy⟩
    rcases Represents.mem_slotsAt.mp hy with ⟨hyf, hyp⟩
    cases hfacing : m.facing c with
    | nil =>
        rw [hfacing] at hyf
        cases hyf
    | cons x rest =>
        have hsorted := OrderBook.WellFormed.ordered h.wellFormed c.side.opposite
        have hbest := h.best
        rw [MatchState.opposing_eq, hfacing] at hbest
        have hopp : m.engine.book.resting c.side.opposite =
            (x :: rest).map m.engine.book.data := hfacing ▸ m.opposing_eq c
        rw [hopp] at hsorted
        have hxp : (m.engine.book.data x).price = p := by
          have hx := hbest (m.engine.book.data x) List.mem_cons_self
          rcases Side.not_better_iff.mp hx with heq | hbetter
          · exact heq
          · rw [hfacing] at hyf
            rcases List.mem_cons.mp hyf with heq | hrest
            · exact heq ▸ hyp
            · have hnot : ¬ c.side.opposite.better (m.engine.book.data y).price
                  (m.engine.book.data x).price :=
                (List.pairwise_cons.mp hsorted).left _ (List.mem_map_of_mem hrest)
              have hyp' : (m.engine.book.data y).price = p := hyp
              exact absurd (hyp' ▸ hbetter) hnot
        refine ⟨x, rest, rfl, by rw [hxp], ?_, ?_⟩
        · rw [hfront.left, ← hxp]
          exact OrderBook.WellFormed.slotsAt_head hfacing
        · rw [hfront.right]
          exact decide_eq_true hnone

theorem fillResting (h : AtLevel c level m) (hfacing : m.facing c = x :: rest)
    (hlevel : level = ⟨c.side.opposite, (m.engine.book.data x).price⟩) :
    AtLevel c level (m.fillResting c level x) where
  wellFormed := (MatchState.facing_fillResting h.wellFormed hfacing hlevel).left
  side_eq := h.side_eq
  crosses := h.crosses
  best := by
    have hbest := h.best
    rw [MatchState.opposing_eq, hfacing] at hbest
    rw [(MatchState.opposing_fillResting h.wellFormed hfacing hlevel).left]
    intro o ho
    split at ho
    · exact hbest o (List.mem_cons_of_mem _ ho)
    · rcases List.mem_cons.mp ho with heq | hrest
      · rw [heq]
        exact hbest (m.engine.book.data x) List.mem_cons_self
      · exact hbest o (List.mem_cons_of_mem _ hrest)

end AtLevel

/-!
## The loops are runs of steps
-/

section Runs

variable {c : Incoming} {level : LevelPtr} {r : MatchRun} {x : Slot} {rest : List Slot}

theorem innerLoop_own {fuel : Nat} (hrem : Quantity.zero < r.remaining)
    (hfront : (r.engine.book.level? level).bind PriceLevel.front = some x)
    (hlive : (r.engine.book.level? level).isSome = true)
    (hown : r.pullsOwn c (r.engine.book.data x) = true) :
    innerLoop c level (fuel + 1) r =
      some (r.pullFront x) := by
  unfold innerLoop
  simp only [hrem, if_true, MatchRun.access, MatchRun.note, hfront, hlive]
  rw [if_pos hown]
  simp [MatchRun.pullFront, frontOps]

theorem innerLoop_fill {fuel : Nat} (hrem : Quantity.zero < r.remaining)
    (hfront : (r.engine.book.level? level).bind PriceLevel.front = some x)
    (hlive : (r.engine.book.level? level).isSome = true)
    (hother : r.pullsOwn c (r.engine.book.data x) = false) :
    innerLoop c level (fuel + 1) r =
      innerLoop c level fuel (r.fillFront c level x) := by
  conv => lhs; unfold innerLoop
  simp only [hrem, if_true, MatchRun.access, MatchRun.note, hfront, hlive]
  rw [if_neg (by simp [hother])]
  simp [MatchRun.fillFront, frontOps]

theorem innerLoop_exhausted {fuel : Nat} (hrem : ¬ Quantity.zero < r.remaining) :
    innerLoop c level (fuel + 1) r = some r := by
  unfold innerLoop
  rw [if_neg hrem]

theorem innerLoop_erased {fuel : Nat} (hrem : Quantity.zero < r.remaining)
    (hgone : r.engine.book.level? level = none) :
    innerLoop c level (fuel + 1) r =
      some (r.note [.levelAccess .empty false]) := by
  unfold innerLoop
  simp [hrem, MatchRun.access, MatchRun.note, hgone]

/--
What the inner loop achieves.  If it starts on a live level with quantity to
match, then it consumes an opposing order or the incoming one.
-/
structure InnerResult (c : Incoming) (level : LevelPtr) (r r' : MatchRun) : Prop where
  run : LoopRun c (.inner level, r) (.outer, r')
  wellFormed : r'.WellFormed
  length_le : (r'.facing c).length <= (r.facing c).length
  progress : Quantity.zero < r.remaining ->
    (r.engine.book.level? level).isSome = true ->
    (r'.facing c).length < (r.facing c).length ∨ ¬ Quantity.zero < r'.remaining

theorem InnerResult.fill {r' : MatchRun}
    (h : AtLevel c ⟨c.side.opposite, (r.engine.book.data x).price⟩ r.toMatchState)
    (hrem : Quantity.zero < r.remaining) (hfacing : r.facing c = x :: rest)
    (hother : r.pullsOwn c (r.engine.book.data x) = false)
    (hrest : InnerResult c ⟨c.side.opposite, (r.engine.book.data x).price⟩
      (r.fillFront c ⟨c.side.opposite, (r.engine.book.data x).price⟩ x) r')
    (hend : r.fullyConsumed x = true ∨ ¬ Quantity.zero < r'.remaining) :
    InnerResult c ⟨c.side.opposite, (r.engine.book.data x).price⟩ r r' := by
  have hlen := (MatchState.facing_fillResting h.wellFormed hfacing rfl).right
  have hle : (r'.facing c).length <=
      (if r.fullyConsumed x then rest else x :: rest).length := hlen ▸ hrest.length_le
  refine ⟨hrest.run.head (.fill hrem hfacing h.crosses hother),
    hrest.wellFormed, ?_, ?_⟩
  · rw [hfacing]
    split at hle
    · exact Nat.le_succ_of_le hle
    · exact hle
  · intro _ _
    rcases hend with hfull | hzero
    · rw [if_pos hfull] at hle
      rw [hfacing]
      exact Or.inl (Nat.lt_succ_of_le hle)
    · exact Or.inr hzero

theorem innerLoop_run {fuel : Nat} (h : AtLevel c level r.toMatchState)
    (hfuel : (r.facing c).length < fuel) :
    exists r', innerLoop c level fuel r = some r' ∧ InnerResult c level r r' := by
  induction fuel generalizing r with
  | zero => exact absurd hfuel (Nat.not_lt_zero _)
  | succ fuel ih =>
      by_cases hrem : Quantity.zero < r.remaining
      · rcases h.best_or_gone with ⟨x, rest, hfacing, hlevel, hfront, hlive⟩ | hgone
        · subst hlevel
          cases hown : r.pullsOwn c (r.engine.book.data x) with
          | true =>
              rcases MatchState.facing_cancelOwn h.wellFormed hfacing with ⟨hw, hrest⟩
              have hlen : ((r.cancelOwn x).facing c).length < (r.facing c).length := by
                rw [hrest, hfacing]
                exact Nat.lt_succ_self _
              exact ⟨_, innerLoop_own hrem hfront hlive hown,
                Relation.ReflTransGen.single
                  (.cancelOwn hrem hfacing h.crosses hown),
                hw, Nat.le_of_lt hlen, fun _ _ => Or.inl hlen⟩
          | false =>
              rw [innerLoop_fill hrem hfront hlive hown]
              have hnext := h.fillResting hfacing rfl
              have hlen := (MatchState.facing_fillResting h.wellFormed hfacing rfl).right
              rw [hfacing, List.length_cons] at hfuel
              cases hfull : r.fullyConsumed x with
              | true =>
                  rw [hfull, if_pos rfl] at hlen
                  have hless : ((r.fillResting c
                      ⟨c.side.opposite, (r.engine.book.data x).price⟩ x).facing c).length <
                      fuel := by
                    rw [hlen]
                    omega
                  rcases ih (r := r.fillFront c _ x) hnext hless with ⟨r', hr', hresult⟩
                  exact ⟨r', hr',
                    InnerResult.fill h hrem hfacing hown hresult (Or.inl hfull)⟩
              | false =>
                  have hzero : ¬ Quantity.zero <
                      (r.fillResting c ⟨c.side.opposite, (r.engine.book.data x).price⟩
                        x).remaining := by
                    rw [MatchState.remaining_of_not_consumed hfull]
                    exact lt_irrefl _
                  rcases Nat.exists_eq_succ_of_ne_zero (n := fuel) (by omega) with ⟨n, rfl⟩
                  refine ⟨_, innerLoop_exhausted hzero,
                    InnerResult.fill h hrem hfacing hown ?_ (Or.inr hzero)⟩
                  exact ⟨Relation.ReflTransGen.single (.filled hzero),
                    hnext.wellFormed, Nat.le_refl _, fun hpos => absurd hpos hzero⟩
        · exact ⟨_, innerLoop_erased hrem hgone,
            Relation.ReflTransGen.single (.erased hrem hgone),
            h.wellFormed, Nat.le_refl _, by simp [hgone]⟩
      · exact ⟨r, innerLoop_exhausted hrem,
          Relation.ReflTransGen.single (.filled hrem),
          h.wellFormed, Nat.le_refl _, fun hpos => absurd hpos hrem⟩

theorem AtLevel.fetched (hw : r.WellFormed) (hfacing : r.facing c = x :: rest)
    (hcross : c.beyondLimit (r.engine.book.data x).price = false) :
    AtLevel c ⟨c.side.opposite, (r.engine.book.data x).price⟩ r.toMatchState where
  wellFormed := hw
  side_eq := rfl
  crosses := hcross
  best := by
    have hsorted : PriorityList.Sorted c.side.opposite.better (fun o => o.price)
        (r.opposing c) := OrderBook.WellFormed.ordered hw c.side.opposite
    rw [MatchState.opposing_eq, hfacing] at hsorted ⊢
    intro o ho
    rcases List.mem_cons.mp ho with heq | hrest
    · rw [heq]
      exact irrefl_of _ _
    · exact (List.pairwise_cons.mp hsorted).left o hrest

theorem fetched_live (hw : r.WellFormed) (hfacing : r.facing c = x :: rest) :
    (r.engine.book.level? ⟨c.side.opposite, (r.engine.book.data x).price⟩).isSome =
      true := by
  have hhead := OrderBook.WellFormed.slotsAt_head hfacing
  rw [(OrderBook.WellFormed.front_eq hw c.side.opposite _).right]
  apply decide_eq_true
  intro hnil
  rw [hnil] at hhead
  cases hhead

theorem bestOpposite_eq (hw : r.WellFormed) :
    c.bestOpposite r.engine.book =
      (r.facing c).head?.map
        (fun x => ⟨c.side.opposite, (r.engine.book.data x).price⟩) := by
  have hbest := OrderBook.WellFormed.bestLevel_eq hw c.side.opposite
  unfold MatchState.facing
  rw [← hbest]
  unfold Incoming.bestOpposite
  cases c.side <;> rfl

theorem outerLoop_cons {fuel : Nat} (hw : r.WellFormed)
    (hrem : Quantity.zero < r.remaining) (hfacing : r.facing c = x :: rest) :
    outerLoop c (fuel + 1) r =
      if c.beyondLimit (r.engine.book.data x).price then some (r.note c.fetchOps)
      else
        (innerLoop c ⟨c.side.opposite, (r.engine.book.data x).price⟩
          (r.engine.book.orderCount + 1) (r.note c.fetchOps)).bind (outerLoop c fuel) := by
  have hlevel : c.bestOpposite r.engine.book =
      some ⟨c.side.opposite, (r.engine.book.data x).price⟩ := by
    rw [bestOpposite_eq hw, hfacing]
    rfl
  have hlive := fetched_live hw hfacing
  have hprice := OrderBook.WellFormed.level_price hw c.side.opposite
    (r.engine.book.data x).price
  conv => lhs; unfold outerLoop
  simp only [hrem, if_true, MatchRun.note, MatchRun.access, hlevel]
  by_cases hlimit : c.limitPrice.isSome = true
  · simp [hlimit, hlive, hprice, Incoming.fetchOps]
  · simp [hlimit, hprice, Incoming.fetchOps]

theorem outerLoop_run {fuel : Nat} (hw : r.WellFormed)
    (hfuel : (r.facing c).length + (if Quantity.zero < r.remaining then 2 else 1) <= fuel) :
    exists r', outerLoop c fuel r = some r' ∧
      LoopRun c (.outer, r) (.done, r') := by
  induction fuel generalizing r with
  | zero =>
      split at hfuel <;> omega
  | succ fuel ih =>
      by_cases hrem : Quantity.zero < r.remaining
      · rw [if_pos hrem] at hfuel
        cases hfacing : r.facing c with
        | nil =>
            have hlevel : c.bestOpposite r.engine.book = none := by
              rw [bestOpposite_eq hw, hfacing]
              rfl
            refine ⟨r.note [.outerIteration], ?_,
              Relation.ReflTransGen.single (.noLiquidity hrem hfacing)⟩
            unfold outerLoop
            simp only [hrem, if_true, MatchRun.note, hlevel]
        | cons x rest =>
            rw [outerLoop_cons hw hrem hfacing]
            cases hcross : c.beyondLimit (r.engine.book.data x).price with
            | true =>
                exact ⟨_, if_pos rfl,
                  Relation.ReflTransGen.single (.noCross hrem hfacing hcross)⟩
            | false =>
                rw [if_neg (by simp)]
                have hat : AtLevel c ⟨c.side.opposite, (r.engine.book.data x).price⟩
                    (r.note c.fetchOps).toMatchState := AtLevel.fetched hw hfacing hcross
                have hcount := (OrderBook.WellFormed.count hw).right
                have hlength : (r.facing c).length < r.engine.book.orderCount + 1 := by
                  have hopp : (r.facing c).length =
                      (r.engine.book.resting c.side.opposite).length := by
                    rw [OrderBook.resting_eq, List.length_map]
                    rfl
                  cases hside : c.side <;> simp only [hside, Side.opposite] at hopp <;> omega
                rcases innerLoop_run (r := r.note c.fetchOps) hat hlength with
                  ⟨r', hinner, hresult⟩
                have hless := hresult.progress hrem (fetched_live hw hfacing)
                have hle : (r'.facing c).length <= (r.facing c).length := hresult.length_le
                have hnext : (r'.facing c).length +
                    (if Quantity.zero < r'.remaining then 2 else 1) <= fuel := by
                  rcases hless with hshorter | hzero
                  · have hshorter : (r'.facing c).length < (r.facing c).length := hshorter
                    split <;> omega
                  · rw [if_neg hzero]
                    omega
                rcases ih hresult.wellFormed hnext with ⟨r'', houter, hrun⟩
                refine ⟨r'', ?_, ?_⟩
                · rw [hinner]
                  exact houter
                · exact ((Relation.ReflTransGen.single
                    (.enter hrem hfacing hcross)).trans hresult.run).trans hrun
      · refine ⟨r, ?_, Relation.ReflTransGen.single (.exhausted hrem)⟩
        unfold outerLoop
        rw [if_neg hrem]

/-- `match_against_book` is a finished run of the loops. -/
theorem matchAgainstBook_run {e : MatchingEngine} (hw : e.book.WellFormed)
    (c : Incoming) (quantity : Quantity) :
    LoopRun c (.outer, MatchRun.start e quantity)
      (.done, matchAgainstBook e c quantity) := by
  have hfuel : ((MatchRun.start e quantity).facing c).length +
      (if Quantity.zero < (MatchRun.start e quantity).remaining then 2 else 1) <=
        e.book.orderCount + 2 := by
    have hcount := (OrderBook.WellFormed.count hw).right
    have hopp : ((MatchRun.start e quantity).facing c).length =
        (e.book.resting c.side.opposite).length := by
      rw [OrderBook.resting_eq, List.length_map]
      rfl
    have hle : (e.book.resting c.side.opposite).length <= e.book.orderCount := by
      cases c.side <;> simp only [Side.opposite] <;> omega
    split <;> omega
  rcases outerLoop_run (r := MatchRun.start e quantity) hw hfuel with ⟨r', houter, hrun⟩
  have hresult : matchAgainstBook e c quantity = r' := by
    unfold matchAgainstBook
    rw [houter]
    rfl
  rw [hresult]
  exact hrun

/-!
## Invariants of runs
-/

theorem step_wellFormed {p p' : LoopPoint} {r' : MatchRun} (hw : r.WellFormed)
    (hstep : LoopStep c (p, r) (p', r')) : r'.WellFormed := by
  cases hstep with
  | cancelOwn hrem hfacing hcross hown =>
      exact (MatchState.facing_cancelOwn hw hfacing).left
  | fill hrem hfacing hcross hother =>
      exact (MatchState.facing_fillResting hw hfacing rfl).left
  | exhausted hrem => exact hw
  | noLiquidity hrem hfacing => exact hw
  | noCross hrem hfacing hbeyond => exact hw
  | enter hrem hfacing hcross => exact hw
  | filled hrem => exact hw
  | erased hrem hlevel => exact hw

theorem loopRun_invariant {P : LoopPoint × MatchRun -> Prop} {a b : LoopPoint × MatchRun}
    (hw : a.2.WellFormed)
    (hstep : forall {p p' : LoopPoint} {r r' : MatchRun}, r.WellFormed -> P (p, r) ->
      LoopStep c (p, r) (p', r') -> P (p', r'))
    (h : P a) (hrun : LoopRun c a b) : b.2.WellFormed ∧ P b := by
  induction hrun with
  | refl => exact ⟨hw, h⟩
  | tail _ hlast ih => exact ⟨step_wellFormed ih.left hlast, hstep ih.left ih.right hlast⟩

end Runs

/-!
## What matching does to a book

Both actions are made of two operations of the book, so a property of books that
those two preserve is preserved by matching.
-/

inductive BookStep (b : OrderBook) : OrderBook -> Prop
  | reduce {s : Side} {x : Slot} {qty : Quantity} (hx : x ∈ b.restingSlots s)
      (hqty : qty <= (b.data x).quantity) :
      BookStep b (b.reduceResting ⟨s, (b.data x).price⟩ x qty)
  | remove {s : Side} {x : Slot} {b' : OrderBook} (hx : x ∈ b.restingSlots s)
      (h : OrderBook.WellFormed.Without b x b') : BookStep b b'

section Books

variable {c : Incoming} {p p' : LoopPoint} {r r' : MatchRun} {P : OrderBook -> Prop}

theorem step_book (hw : r.WellFormed)
    (hbook : forall {b b' : OrderBook}, b.WellFormed -> P b -> BookStep b b' -> P b')
    (h : P r.engine.book) (hstep : LoopStep c (p, r) (p', r')) : P r'.engine.book := by
  cases hstep with
  | cancelOwn hrem hfacing hcross hown =>
      exact hbook hw h (.remove (MatchState.mem_facing hfacing)
        (MatchState.cancelOwn_without hw hfacing))
  | @fill _ x rest hrem hfacing hcross hother =>
      rcases MatchState.bookFill_wellFormed hw hfacing rfl with ⟨hfilled, hslots⟩
      have hreduced := hbook hw h (.reduce (MatchState.mem_facing hfacing)
        (Incoming.fillQty_le_resting r.remaining (r.engine.book.data x).quantity))
      cases hfull : r.fullyConsumed x with
      | true =>
          have hx : x ∈ (r.bookFill c ⟨c.side.opposite, (r.engine.book.data x).price⟩
              x).engine.book.restingSlots c.side.opposite := by
            rw [hslots]
            exact MatchState.mem_facing hfacing
          show P (r.fillResting c _ x).engine.book
          rw [MatchState.fillResting_of_consumed hfull]
          exact hbook hfilled hreduced (.remove hx
            (OrderBook.WellFormed.removeOrder hfilled hx))
      | false =>
          show P (r.fillResting c _ x).engine.book
          rw [MatchState.fillResting_of_not_consumed hfull]
          exact hreduced
  | exhausted hrem => exact h
  | noLiquidity hrem hfacing => exact h
  | noCross hrem hfacing hbeyond => exact h
  | enter hrem hfacing hcross => exact h
  | filled hrem => exact h
  | erased hrem hlevel => exact h

end Books

end MiniExchange
