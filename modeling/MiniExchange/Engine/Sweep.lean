import MiniExchange.Engine.MatchLoop

/-!
# Matching as a sweep of a list

The purpose of the matching loop, on its own terms: walk the opposing orders in
priority order and act on each of them until the incoming order is exhausted or
the price is beyond its limit.  The loops on the heap are shown to perform
exactly the sweep of the orders they find.
-/

namespace MiniExchange

open Foundation

inductive Action where
  | fill (resting : RestingOrder) (remaining qty : Quantity)
  | cancelOwn (resting : RestingOrder)
deriving DecidableEq, Repr

namespace Action

def removed? : Action -> Option RestingOrder
  | fill resting _ qty => if qty = resting.quantity then some resting else none
  | cancelOwn resting => some resting

def removed (actions : List Action) : List RestingOrder :=
  actions.filterMap removed?

def fills : List Action -> Nat
  | [] => 0
  | fill _ _ _ :: rest => fills rest + 1
  | cancelOwn _ :: rest => fills rest

def trades (c : Incoming) : TradeSequence -> List Action -> List Trade
  | _, [] => []
  | sequence, fill resting remaining _ :: rest =>
      c.tradeWith resting remaining sequence :: trades c sequence.next rest
  | sequence, cancelOwn _ :: rest => trades c sequence rest

def cancellation (resting : RestingOrder) : SinkEvent :=
  .onOrderCancelled
    { id := resting.id
      remainingQty := resting.quantity
      side := resting.side
      price := resting.price }

def events (c : Incoming) : TradeSequence -> List Action -> List SinkEvent
  | _, [] => []
  | sequence, fill resting remaining _ :: rest =>
      .onTrade (c.tradeWith resting remaining sequence) ::
        events c sequence.next rest
  | sequence, cancelOwn resting :: rest => cancellation resting :: events c sequence rest

end Action

def MatchOp.action? : MatchOp -> Option Action
  | .fill resting remaining qty => some (.fill resting remaining qty)
  | .cancelOwn resting => some (.cancelOwn resting)
  | _ => none

structure Sweep where
  actions : List Action
  remaining : Quantity
  left : List RestingOrder
deriving DecidableEq, Repr

namespace Sweep

def stop (remaining : Quantity) (orders : List RestingOrder) : Sweep where
  actions := []
  remaining := remaining
  left := orders

def cons (action : Action) (s : Sweep) : Sweep :=
  { s with actions := action :: s.actions }

end Sweep

namespace Incoming

def reaches (c : Incoming) (remaining : Quantity) (price : Price) : Bool :=
  decide (Quantity.zero < remaining) && !c.beyondLimit price

/-- Sweep resting orders; those selected by `pulls` are pulled instead of filled. -/
def sweep (c : Incoming) (pulls : RestingOrder -> Bool) :
    Quantity -> List RestingOrder -> Sweep
  | remaining, [] => Sweep.stop remaining []
  | remaining, o :: rest =>
      if c.reaches remaining o.price then
        if pulls o then
          Sweep.cons (.cancelOwn o) (sweep c pulls remaining rest)
        else if fillQty remaining o.quantity = o.quantity then
          Sweep.cons (.fill o remaining (fillQty remaining o.quantity))
            (sweep c pulls (remaining - fillQty remaining o.quantity) rest)
        else
          { actions := [.fill o remaining (fillQty remaining o.quantity)]
            remaining := remaining - fillQty remaining o.quantity
            left :=
              { o with quantity := o.quantity - fillQty remaining o.quantity } :: rest }
      else Sweep.stop remaining (o :: rest)

section Sweep

variable {c : Incoming} {pulls : RestingOrder -> Bool} {remaining : Quantity}
  {o : RestingOrder} {rest : List RestingOrder}

theorem reaches_of (hrem : Quantity.zero < remaining) {price : Price}
    (hcross : c.beyondLimit price = false) : c.reaches remaining price = true := by
  simp [reaches, hrem, hcross]

theorem sweep_exhausted (h : ¬ Quantity.zero < remaining) (orders : List RestingOrder) :
    c.sweep pulls remaining orders = Sweep.stop remaining orders := by
  cases orders with
  | nil => rfl
  | cons o rest => simp [sweep, reaches, h]

theorem sweep_beyond (h : c.beyondLimit o.price = true) :
    c.sweep pulls remaining (o :: rest) = Sweep.stop remaining (o :: rest) := by
  simp [sweep, reaches, h]

theorem sweep_own (hreach : c.reaches remaining o.price = true) (hown : pulls o = true) :
    c.sweep pulls remaining (o :: rest) =
      Sweep.cons (.cancelOwn o) (c.sweep pulls remaining rest) := by
  simp [sweep, hreach, hown]

theorem sweep_fill (hreach : c.reaches remaining o.price = true) (hother : pulls o = false) :
    c.sweep pulls remaining (o :: rest) =
      Sweep.cons (.fill o remaining (fillQty remaining o.quantity))
        (c.sweep pulls (remaining - fillQty remaining o.quantity)
          (if fillQty remaining o.quantity = o.quantity then rest
          else { o with quantity := o.quantity - fillQty remaining o.quantity } :: rest)) := by
  by_cases hfull : fillQty remaining o.quantity = o.quantity
  · simp [sweep, hreach, hother, hfull]
  · have hzero : ¬ Quantity.zero < remaining - fillQty remaining o.quantity := by
      rw [(fillQty_of_ne hfull).left, Quantity.sub_self]
      exact lt_irrefl _
    rw [if_neg hfull, sweep_exhausted hzero]
    simp [sweep, hreach, hother, hfull, Sweep.cons, Sweep.stop]

end Sweep

end Incoming

/-!
## Loops and sweeps

`MatchRun.after` is what a run comes to if the given sweep is performed from its
present state on.  Each step of the loops performs the first action of the
remaining sweep, or none, so what a run comes to never changes.
-/

def ClientIndex.unrestAll (index : ClientIndex) (stp : StpConfig)
    (orders : List RestingOrder) : ClientIndex :=
  if stp.enabled then orders.foldl ClientIndex.unrest index else index

@[simp] theorem ClientIndex.unrestAll_nil (index : ClientIndex) (stp : StpConfig) :
    index.unrestAll stp [] = index := by
  unfold unrestAll
  split <;> rfl

theorem ClientIndex.unrestAll_cons (index : ClientIndex) (stp : StpConfig)
    (o : RestingOrder) (orders : List RestingOrder) :
    index.unrestAll stp (o :: orders) =
      ClientIndex.unrestAll (if stp.enabled then index.unrest o else index) stp orders := by
  unfold unrestAll
  split <;> rfl

def unindexAll (index : OrderId -> Option Slot) (orders : List RestingOrder) :
    OrderId -> Option Slot :=
  orders.foldl (fun index o => Function.update index o.id none) index

/-- Everything matching changes, and everything it leaves alone. -/
@[ext] structure Outcome where
  actions : List Action
  trades : List Trade
  remaining : Quantity
  opposing : List RestingOrder
  own : List RestingOrder
  sink : List SinkEvent
  nextTradeSequence : TradeSequence
  clientResting : ClientIndex
  orders : OrderId -> Option Slot
  available : Nat
  capacity : Nat
  lastAcceptedId : ClientId -> Option OrderId
  nextSequence : Sequence
  stp : StpConfig

namespace MatchRun

/-- What a run comes to if the sweep `s` is performed next. -/
def after (r : MatchRun) (c : Incoming) (s : Sweep) : Outcome where
  actions := r.ops.filterMap MatchOp.action? ++ s.actions
  trades := r.trades ++ Action.trades c r.engine.nextTradeSequence s.actions
  remaining := s.remaining
  opposing := s.left
  own := r.engine.book.resting c.side
  sink := r.engine.sink ++ Action.events c r.engine.nextTradeSequence s.actions
  nextTradeSequence := r.engine.nextTradeSequence.advance (Action.fills s.actions)
  clientResting := r.engine.clientResting.unrestAll r.engine.stp (Action.removed s.actions)
  orders := unindexAll r.engine.book.orders (Action.removed s.actions)
  available := r.engine.book.poolAvailable + (Action.removed s.actions).length
  capacity := r.engine.book.pool.capacity
  lastAcceptedId := r.engine.lastAcceptedId
  nextSequence := r.engine.nextSequence
  stp := r.engine.stp

def toSweep (r : MatchRun) (c : Incoming) : Sweep :=
  c.sweep (r.pullsOwn c) r.remaining (r.opposing c)

section Steps

variable {c : Incoming} {r : MatchRun} {x : Slot} {rest : List Slot} {s : Sweep}

theorem after_note {ops : List MatchOp} (hops : ops.filterMap MatchOp.action? = []) :
    (r.note ops).after c s = r.after c s := by
  unfold after note
  simp only [List.filterMap_append, hops, List.append_nil]

theorem after_pullFront (hw : r.WellFormed) (hfacing : r.facing c = x :: rest) :
    (r.pullFront x).after c s =
      r.after c (Sweep.cons (.cancelOwn (r.engine.book.data x)) s) := by
  have hr := MatchState.cancelOwn_without hw hfacing
  apply Outcome.ext
  case actions =>
    show (r.ops ++ _).filterMap MatchOp.action? ++ s.actions = _
    rw [List.filterMap_append, List.append_assoc]
    rfl
  case sink =>
    show (r.engine.sink ++ [Action.cancellation (r.engine.book.data x)]) ++ _ = _
    rw [List.append_assoc]
    rfl
  case clientResting =>
    exact (ClientIndex.unrestAll_cons _ _ _ _).symm
  case orders =>
    show unindexAll (r.cancelOwn x).engine.book.orders _ = _
    rw [hr.orders_eq]
    rfl
  case available =>
    show (r.cancelOwn x).engine.book.poolAvailable + (Action.removed s.actions).length =
      r.engine.book.poolAvailable + ((Action.removed s.actions).length + 1)
    rw [hr.available_eq]
    omega
  case capacity => exact hr.capacity_eq
  case own => exact (MatchState.opposing_cancelOwn hw hfacing).right
  all_goals rfl

theorem removed_fill_cons (m : MatchState) (x : Slot) (actions : List Action) :
    Action.removed (.fill (m.engine.book.data x) m.remaining
        (Incoming.fillQty m.remaining (m.engine.book.data x).quantity) :: actions) =
      if m.fullyConsumed x then m.engine.book.data x :: Action.removed actions
      else Action.removed actions := by
  unfold Action.removed Action.removed? MatchState.fullyConsumed
  by_cases hfull : Incoming.fillQty m.remaining (m.engine.book.data x).quantity =
      (m.engine.book.data x).quantity
  · simp [hfull]
  · simp [hfull]

theorem after_fillFront (hw : r.WellFormed) (hfacing : r.facing c = x :: rest) :
    (r.fillFront c ⟨c.side.opposite, (r.engine.book.data x).price⟩ x).after c s =
      r.after c (Sweep.cons (.fill (r.engine.book.data x) r.remaining
        (Incoming.fillQty r.remaining (r.engine.book.data x).quantity)) s) := by
  rcases MatchState.indexes_fillResting hw hfacing rfl with
    ⟨hclient, horders, havailable, hcapacity⟩
  have hremoved := removed_fill_cons r.toMatchState x s.actions
  apply Outcome.ext
  case actions =>
    show (r.ops ++ _).filterMap MatchOp.action? ++ s.actions = _
    rw [List.filterMap_append, List.append_assoc]
    rfl
  case trades =>
    show (r.fillResting c _ x).trades ++ Action.trades c
      (r.fillResting c _ x).engine.nextTradeSequence s.actions = _
    rw [MatchState.tape_fillResting.left, MatchState.tape_fillResting.right.right,
      List.append_assoc]
    rfl
  case own => exact (MatchState.opposing_fillResting hw hfacing rfl).right
  case sink =>
    show (r.fillResting c _ x).engine.sink ++ Action.events c
      (r.fillResting c _ x).engine.nextTradeSequence s.actions = _
    rw [MatchState.tape_fillResting.right.left, MatchState.tape_fillResting.right.right,
      List.append_assoc]
    rfl
  case nextTradeSequence =>
    show (r.fillResting c _ x).engine.nextTradeSequence.advance _ = _
    rw [MatchState.tape_fillResting.right.right, TradeSequence.next_advance]
    rfl
  case clientResting =>
    show (r.fillResting c _ x).engine.clientResting.unrestAll
      (r.fillResting c _ x).engine.stp _ = _
    rw [hclient, MatchState.kept_fillResting.left]
    show _ = r.engine.clientResting.unrestAll r.engine.stp (Action.removed (_ :: _))
    rw [hremoved]
    cases r.fullyConsumed x with
    | true => exact (ClientIndex.unrestAll_cons _ _ _ _).symm
    | false => rfl
  case orders =>
    show unindexAll (r.fillResting c _ x).engine.book.orders _ =
      unindexAll _ (Action.removed (_ :: _))
    rw [horders, hremoved]
    cases r.fullyConsumed x with
    | true => rfl
    | false => rfl
  case available =>
    show (r.fillResting c _ x).engine.book.poolAvailable +
      (Action.removed s.actions).length = _ + (Action.removed (_ :: _)).length
    rw [havailable, hremoved]
    cases r.fullyConsumed x with
    | true =>
        simp only [if_true, List.length_cons]
        omega
    | false => rfl
  case lastAcceptedId => exact MatchState.kept_fillResting.right.left
  case nextSequence => exact MatchState.kept_fillResting.right.right
  case stp => exact MatchState.kept_fillResting.left
  case capacity => exact hcapacity
  all_goals rfl

end Steps

def predict (r : MatchRun) (c : Incoming) : Outcome :=
  r.after c (r.toSweep c)

section Predict

variable {c : Incoming} {p p' : LoopPoint} {r r' : MatchRun}

theorem predict_note {ops : List MatchOp} (hops : ops.filterMap MatchOp.action? = []) :
    (r.note ops).predict c = r.predict c :=
  after_note hops

theorem fetchOps_actions (c : Incoming) :
    c.fetchOps.filterMap MatchOp.action? = [] := by
  unfold Incoming.fetchOps
  split <;> rfl

theorem pullsOwn_fillResting {level : LevelPtr} {x : Slot} :
    (r.fillResting c level x).pullsOwn c = r.pullsOwn c := by
  funext o
  unfold MatchState.pullsOwn
  rw [MatchState.kept_fillResting.left]

theorem toSweep_own {x : Slot} {rest : List Slot} (hw : r.WellFormed)
    (hrem : Quantity.zero < r.remaining) (hfacing : r.facing c = x :: rest)
    (hcross : c.beyondLimit (r.engine.book.data x).price = false)
    (hown : r.pullsOwn c (r.engine.book.data x) = true) :
    r.toSweep c = Sweep.cons (.cancelOwn (r.engine.book.data x))
      ((r.pullFront x).toSweep c) := by
  unfold toSweep
  rw [MatchState.opposing_eq, hfacing, List.map_cons,
    Incoming.sweep_own (Incoming.reaches_of hrem hcross) hown]
  exact congrArg (fun orders => Sweep.cons _ (c.sweep _ _ orders))
    (MatchState.opposing_cancelOwn hw hfacing).left.symm

theorem toSweep_fill {x : Slot} {rest : List Slot} (hw : r.WellFormed)
    (hrem : Quantity.zero < r.remaining) (hfacing : r.facing c = x :: rest)
    (hcross : c.beyondLimit (r.engine.book.data x).price = false)
    (hother : r.pullsOwn c (r.engine.book.data x) = false) :
    r.toSweep c = Sweep.cons
      (.fill (r.engine.book.data x) r.remaining
        (Incoming.fillQty r.remaining (r.engine.book.data x).quantity))
      ((r.fillFront c ⟨c.side.opposite, (r.engine.book.data x).price⟩ x).toSweep c) := by
  have hopp := (MatchState.opposing_fillResting hw hfacing rfl).left
  unfold toSweep
  rw [MatchState.opposing_eq, hfacing, List.map_cons,
    Incoming.sweep_fill (Incoming.reaches_of hrem hcross) hother]
  show _ = Sweep.cons _ (c.sweep ((r.fillResting c _ x).pullsOwn c)
    (r.fillResting c _ x).remaining ((r.fillResting c _ x).opposing c))
  rw [pullsOwn_fillResting, MatchState.remaining_fillResting, hopp]
  simp only [MatchState.fullyConsumed, decide_eq_true_eq]

/-- A step changes nothing about what the run comes to. -/
theorem step_predict (hw : r.WellFormed) (hstep : LoopStep c (p, r) (p', r')) :
    r'.predict c = r.predict c ∧
      (p' = .done -> r'.toSweep c = Sweep.stop r'.remaining (r'.opposing c)) := by
  cases hstep with
  | exhausted hrem =>
      exact ⟨rfl, fun _ => Incoming.sweep_exhausted hrem _⟩
  | noLiquidity hrem hfacing =>
      refine ⟨predict_note rfl, fun _ => ?_⟩
      have hnil : (r.note [.outerIteration]).opposing c = [] := by
        rw [MatchState.opposing_eq]
        exact List.map_eq_nil_iff.mpr hfacing
      unfold toSweep
      rw [hnil]
      rfl
  | @noCross _ x rest hrem hfacing hbeyond =>
      refine ⟨predict_note (fetchOps_actions c), fun _ => ?_⟩
      have hcons : (r.note c.fetchOps).opposing c = (x :: rest).map r.engine.book.data := by
        rw [MatchState.opposing_eq]
        exact congrArg _ hfacing
      unfold toSweep
      rw [hcons]
      exact Incoming.sweep_beyond hbeyond
  | enter hrem hfacing hcross =>
      exact ⟨predict_note (fetchOps_actions c), fun h => nomatch h⟩
  | filled hrem => exact ⟨rfl, fun h => nomatch h⟩
  | erased hrem hlevel => exact ⟨predict_note rfl, fun h => nomatch h⟩
  | cancelOwn hrem hfacing hcross hown =>
      refine ⟨?_, fun h => nomatch h⟩
      unfold predict
      rw [toSweep_own hw hrem hfacing hcross hown, after_pullFront hw hfacing]
  | fill hrem hfacing hcross hother =>
      refine ⟨?_, fun h => nomatch h⟩
      unfold predict
      rw [toSweep_fill hw hrem hfacing hcross hother, after_fillFront hw hfacing]

end Predict

def outcome (r : MatchRun) (c : Incoming) : Outcome :=
  r.after c (Sweep.stop r.remaining (r.opposing c))

end MatchRun

theorem loopRun_outcome {c : Incoming} {p : LoopPoint} {r r' : MatchRun}
    (hw : r.WellFormed) (hrun : LoopRun c (p, r) (.done, r'))
    (hp : p ≠ .done) :
    r'.WellFormed ∧ r'.outcome c = r.predict c := by
  rcases loopRun_invariant
    (P := fun a => a.2.predict c = r.predict c ∧ (a.1 = .done ->
      a.2.toSweep c = Sweep.stop a.2.remaining (a.2.opposing c))) hw
    (fun hwr h hstep =>
      ⟨(MatchRun.step_predict hwr hstep).left.trans h.left,
        (MatchRun.step_predict hwr hstep).right⟩)
    ⟨rfl, fun h => absurd h hp⟩ hrun with ⟨hw', hpredict, hstop⟩
  refine ⟨hw', ?_⟩
  rw [← hpredict]
  unfold MatchRun.outcome MatchRun.predict
  rw [hstop rfl]

/-- `match_against_book` performs the sweep of the opposing orders. -/
theorem matchAgainstBook_outcome {e : MatchingEngine} (hw : e.book.WellFormed)
    (c : Incoming) (quantity : Quantity) :
    (matchAgainstBook e c quantity).WellFormed ∧
      (matchAgainstBook e c quantity).outcome c =
        (MatchRun.start e quantity).predict c :=
  loopRun_outcome hw (matchAgainstBook_run hw c quantity) (by decide)

end MiniExchange
