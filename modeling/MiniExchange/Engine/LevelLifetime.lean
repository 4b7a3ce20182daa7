import MiniExchange.Engine.Calls

/-!
# Lifetime of price levels

The loop keeps a pointer to the level it has fetched, and removing the last
order of a level erases the level.  The inner guard then reads the erased level
if quantity is left.  This module says exactly which submissions do that.
-/

namespace MiniExchange

open Foundation

def ReadsErased (ops : List MatchOp) : Prop :=
  exists fn, .levelAccess fn false ∈ ops

theorem readsErased_append (ops ops' : List MatchOp) :
    ReadsErased (ops ++ ops') <-> ReadsErased ops ∨ ReadsErased ops' := by
  unfold ReadsErased
  simp only [List.mem_append]
  exact exists_or

namespace Incoming

/--
The sweep empties a level by a fill and has quantity left.  Pulling an own order
leaves the inner loop, so it never causes such a read.
-/
def Overruns (c : Incoming) (pulls : RestingOrder -> Bool) :
    Quantity -> List RestingOrder -> Prop
  | _, [] => False
  | remaining, o :: rest =>
      c.reaches remaining o.price = true ∧
        if pulls o then Overruns c pulls remaining rest
        else
          fillQty remaining o.quantity = o.quantity ∧
            ((Quantity.zero < remaining - o.quantity ∧
                forall o', o' ∈ rest -> o'.price ≠ o.price) ∨
              Overruns c pulls (remaining - o.quantity) rest)

section Overruns

variable {c : Incoming} {pulls : RestingOrder -> Bool} {remaining : Quantity}

theorem not_overruns_of_stop {orders : List RestingOrder}
    (h : forall o, orders.head? = some o -> c.reaches remaining o.price = false) :
    ¬ c.Overruns pulls remaining orders := by
  cases orders with
  | nil => exact fun hover => hover
  | cons o rest =>
      intro hover
      have hreach := h o rfl
      rw [hover.left] at hreach
      cases hreach

theorem not_overruns_exhausted (h : ¬ Quantity.zero < remaining)
    (orders : List RestingOrder) : ¬ c.Overruns pulls remaining orders :=
  not_overruns_of_stop (fun _ _ => by simp [reaches, h])

end Overruns

end Incoming

def WillReadErased (c : Incoming) : LoopPoint × MatchRun -> Prop
  | (.outer, r) =>
      ReadsErased r.ops ∨ c.Overruns (r.pullsOwn c) r.remaining (r.opposing c)
  | (.inner level, r) =>
      ReadsErased r.ops ∨
        (Quantity.zero < r.remaining ∧ r.engine.book.level? level = none) ∨
        c.Overruns (r.pullsOwn c) r.remaining (r.opposing c)
  | (.done, r) => ReadsErased r.ops

theorem level_none_iff {m : MatchState} (hw : m.WellFormed) (c : Incoming) (p : Price) :
    m.engine.book.level? ⟨c.side.opposite, p⟩ = none <->
      forall o, o ∈ m.opposing c -> o.price ≠ p := by
  have hfront := (OrderBook.WellFormed.front_eq hw c.side.opposite p).right
  rw [← Option.not_isSome_iff_eq_none, hfront, decide_eq_true_eq, not_not]
  unfold slotsAt
  rw [List.filter_eq_nil_iff, MatchState.opposing_eq]
  simp only [decide_eq_true_eq, List.mem_map, forall_exists_index, and_imp,
    forall_apply_eq_imp_iff₂]
  rfl

theorem not_readsErased_frontOps : ¬ ReadsErased frontOps := by
  rintro ⟨fn, hmem⟩
  simp [frontOps] at hmem

theorem not_readsErased_fetchOps (c : Incoming) : ¬ ReadsErased c.fetchOps := by
  rintro ⟨fn, hmem⟩
  unfold Incoming.fetchOps at hmem
  split at hmem <;> simp at hmem

section Steps

variable {c : Incoming} {r : MatchRun} {x : Slot} {rest : List Slot}

theorem readsErased_note {ops : List MatchOp} (h : ¬ ReadsErased ops) :
    ReadsErased (r.note ops).ops <-> ReadsErased r.ops := by
  show ReadsErased (r.ops ++ ops) <-> _
  rw [readsErased_append]
  exact or_iff_left h

theorem readsErased_afterFront {ops ops' : List MatchOp} (h : ¬ ReadsErased ops') :
    ReadsErased (ops ++ (frontOps ++ ops')) <-> ReadsErased ops := by
  rw [readsErased_append, readsErased_append]
  apply or_iff_left
  rintro (hfront | hlater)
  · exact not_readsErased_frontOps hfront
  · exact h hlater

theorem readsErased_pullFront :
    ReadsErased (r.pullFront x).ops <-> ReadsErased r.ops := by
  apply readsErased_afterFront
  rintro ⟨fn, hmem⟩
  simp at hmem

theorem readsErased_fillFront {level : LevelPtr} :
    ReadsErased (r.fillFront c level x).ops <-> ReadsErased r.ops := by
  apply readsErased_afterFront
  rintro ⟨fn, hmem⟩
  simp at hmem

theorem level_ne_none (hw : r.WellFormed) (hfacing : r.facing c = x :: rest) :
    ¬ r.engine.book.level? ⟨c.side.opposite, (r.engine.book.data x).price⟩ = none := by
  intro hnone
  have hlive := fetched_live hw hfacing
  rw [hnone] at hlive
  cases hlive

theorem overruns_own (hw : r.WellFormed) (hrem : Quantity.zero < r.remaining)
    (hfacing : r.facing c = x :: rest)
    (hcross : c.beyondLimit (r.engine.book.data x).price = false)
    (hown : r.pullsOwn c (r.engine.book.data x) = true) :
    c.Overruns (r.pullsOwn c) r.remaining (r.opposing c) <->
      c.Overruns ((r.cancelOwn x).pullsOwn c) (r.cancelOwn x).remaining
        ((r.cancelOwn x).opposing c) := by
  rw [(MatchState.opposing_cancelOwn hw hfacing).left, MatchState.opposing_eq, hfacing]
  simp only [List.map_cons, Incoming.Overruns, hown, if_true]
  exact and_iff_right (Incoming.reaches_of hrem hcross)

theorem overruns_fill (hw : r.WellFormed) (hrem : Quantity.zero < r.remaining)
    (hfacing : r.facing c = x :: rest)
    (hcross : c.beyondLimit (r.engine.book.data x).price = false)
    (hother : r.pullsOwn c (r.engine.book.data x) = false) {m : MatchState}
    (hm : m = r.fillResting c ⟨c.side.opposite, (r.engine.book.data x).price⟩ x) :
    c.Overruns (r.pullsOwn c) r.remaining (r.opposing c) <->
      (Quantity.zero < m.remaining ∧
          m.engine.book.level? ⟨c.side.opposite, (r.engine.book.data x).price⟩ = none) ∨
        c.Overruns (m.pullsOwn c) m.remaining (m.opposing c) := by
  have hwm : m.WellFormed := hm ▸ (MatchState.facing_fillResting hw hfacing rfl).left
  have hopp := (MatchState.opposing_fillResting hw hfacing rfl).left
  rw [← hm] at hopp
  have hpulls : m.pullsOwn c = r.pullsOwn c := hm ▸ MatchRun.pullsOwn_fillResting
  have hremaining : m.remaining = r.remaining -
      Incoming.fillQty r.remaining (r.engine.book.data x).quantity :=
    hm ▸ MatchState.remaining_fillResting
  rw [level_none_iff hwm, hpulls, MatchState.opposing_eq (m := r.toMatchState), hfacing]
  simp only [List.map_cons, Incoming.Overruns, hother, Bool.false_eq_true, if_false,
    Incoming.reaches_of hrem hcross, true_and]
  cases hfull : r.fullyConsumed x with
  | true =>
      have hqty : Incoming.fillQty r.remaining (r.engine.book.data x).quantity =
          (r.engine.book.data x).quantity := of_decide_eq_true hfull
      rw [hfull, if_pos rfl] at hopp
      rw [hopp, hremaining, hqty]
      exact and_iff_right rfl
  | false =>
      have hqty : ¬ Incoming.fillQty r.remaining (r.engine.book.data x).quantity =
          (r.engine.book.data x).quantity := of_decide_eq_false hfull
      have hzero : ¬ Quantity.zero < m.remaining := by
        rw [hm, MatchState.remaining_of_not_consumed hfull]
        exact lt_irrefl _
      constructor
      · intro hleft
        exact absurd hleft.left hqty
      · rintro (⟨hpos, -⟩ | hover)
        · exact absurd hpos hzero
        · exact absurd hover (Incoming.not_overruns_exhausted hzero _)

/-- A step does not change whether the run will have read an erased level. -/
theorem step_willReadErased {p p' : LoopPoint} {r' : MatchRun}
    (hw : r.WellFormed) (hstep : LoopStep c (p, r) (p', r')) :
    WillReadErased c (p', r') <-> WillReadErased c (p, r) := by
  cases hstep with
  | exhausted hrem =>
      exact (or_iff_left (Incoming.not_overruns_exhausted hrem _)).symm
  | noLiquidity hrem hfacing =>
      have hstop : ¬ c.Overruns (r.pullsOwn c) r.remaining (r.opposing c) := by
        rw [MatchState.opposing_eq, hfacing]
        exact fun hover => hover
      exact (readsErased_note (by rintro ⟨fn, hmem⟩; simp at hmem)).trans
        (or_iff_left hstop).symm
  | @noCross _ x rest hrem hfacing hbeyond =>
      have hstop : ¬ c.Overruns (r.pullsOwn c) r.remaining (r.opposing c) := by
        rw [MatchState.opposing_eq, hfacing]
        apply Incoming.not_overruns_of_stop
        intro o ho
        cases ho
        simp [Incoming.reaches, hbeyond]
      exact (readsErased_note (not_readsErased_fetchOps c)).trans (or_iff_left hstop).symm
  | enter hrem hfacing hcross =>
      refine or_congr (readsErased_note (not_readsErased_fetchOps c)) ?_
      exact or_iff_right (fun hgone => level_ne_none hw hfacing hgone.right)
  | filled hrem => exact or_congr Iff.rfl (or_iff_right (fun hpos => hrem hpos.left)).symm
  | erased hrem hlevel =>
      constructor
      · intro _
        exact Or.inr (Or.inl ⟨hrem, hlevel⟩)
      · intro _
        exact Or.inl ⟨.empty,
          List.mem_append_right _ (List.mem_singleton.mpr rfl)⟩
  | cancelOwn hrem hfacing hcross hown =>
      refine or_congr readsErased_pullFront ?_
      refine (overruns_own hw hrem hfacing hcross hown).symm.trans ?_
      exact (or_iff_right (fun hgone => level_ne_none hw hfacing hgone.right)).symm
  | fill hrem hfacing hcross hother =>
      refine or_congr readsErased_fillFront ?_
      refine (overruns_fill hw hrem hfacing hcross hother rfl).symm.trans ?_
      exact (or_iff_right (fun hgone => level_ne_none hw hfacing hgone.right)).symm

end Steps

/-!
## Overruns on the list of opposing orders
-/

def tradeableUnits (pulls : RestingOrder -> Bool) (orders : List RestingOrder) : Nat :=
  ((orders.filter (fun o => !pulls o)).map (fun o => o.quantity.units)).sum

theorem tradeableUnits_cons (pulls : RestingOrder -> Bool) (o : RestingOrder)
    (orders : List RestingOrder) :
    tradeableUnits pulls (o :: orders) =
      (if pulls o then 0 else o.quantity.units) + tradeableUnits pulls orders := by
  unfold tradeableUnits
  cases h : pulls o <;> simp [h]

namespace Incoming

/-- `o` is a crossing order, the last of its level, that may be traded with. -/
structure EndsLevel (c : Incoming) (pulls : RestingOrder -> Bool)
    (o : RestingOrder) (back : List RestingOrder) : Prop where
  crosses : c.beyondLimit o.price = false
  tradeable : pulls o = false
  last : forall o', o' ∈ back -> o'.price ≠ o.price

/-- More than `n` units go to the orders up to the end of some level. -/
def Exceeds (c : Incoming) (pulls : RestingOrder -> Bool) (n : Nat)
    (orders : List RestingOrder) : Prop :=
  exists front o back, orders = front ++ o :: back ∧ c.EndsLevel pulls o back ∧
    tradeableUnits pulls (front ++ [o]) < n

section Exceeds

variable {c : Incoming} {pulls : RestingOrder -> Bool} {remaining : Quantity}

theorem not_exceeds_nil {n : Nat} : ¬ c.Exceeds pulls n [] := by
  rintro ⟨front, o, back, hsplit, -⟩
  simp at hsplit

theorem exceeds_cons {n : Nat} {a : RestingOrder} {rest : List RestingOrder} :
    c.Exceeds pulls n (a :: rest) <->
      (c.EndsLevel pulls a rest ∧ a.quantity.units < n) ∨
        c.Exceeds pulls (n - if pulls a then 0 else a.quantity.units) rest := by
  constructor
  · rintro ⟨front, o, back, hsplit, hends, hlt⟩
    cases front with
    | nil =>
        cases hsplit
        left
        refine ⟨hends, ?_⟩
        simpa [tradeableUnits, hends.tradeable] using hlt
    | cons b front =>
        cases hsplit
        right
        refine ⟨front, o, back, rfl, hends, ?_⟩
        rw [List.cons_append, tradeableUnits_cons] at hlt
        omega
  · rintro (⟨hends, hlt⟩ | ⟨front, o, back, rfl, hends, hlt⟩)
    · refine ⟨[], a, rest, rfl, hends, ?_⟩
      simpa [tradeableUnits, hends.tradeable] using hlt
    · refine ⟨a :: front, o, back, rfl, hends, ?_⟩
      rw [List.cons_append, tradeableUnits_cons]
      omega

theorem not_exceeds_zero (orders : List RestingOrder) : ¬ c.Exceeds pulls 0 orders := by
  rintro ⟨front, o, back, -, -, hlt⟩
  exact absurd hlt (Nat.not_lt_zero _)

theorem not_exceeds_beyond {n : Nat} {a : RestingOrder} {rest : List RestingOrder}
    (hsorted : PriorityList.Sorted c.side.opposite.better (fun o => o.price) (a :: rest))
    (hbeyond : c.beyondLimit a.price = true) : ¬ c.Exceeds pulls n (a :: rest) := by
  rintro ⟨front, o, back, hsplit, hends, -⟩
  have ho : o ∈ a :: rest := by
    rw [hsplit]
    exact List.mem_append_right _ List.mem_cons_self
  have hcrosses := hends.crosses
  rcases List.mem_cons.mp ho with heq | hrest
  · rw [heq, hbeyond] at hcrosses
    cases hcrosses
  · rw [beyondLimit_mono ((List.pairwise_cons.mp hsorted).left o hrest) hbeyond] at hcrosses
    cases hcrosses

theorem overruns_iff_exceeds {orders : List RestingOrder}
    (hsorted : PriorityList.Sorted c.side.opposite.better (fun o => o.price) orders) :
    c.Overruns pulls remaining orders <-> c.Exceeds pulls remaining.units orders := by
  induction orders generalizing remaining with
  | nil => exact iff_of_false (fun hover => hover) not_exceeds_nil
  | cons a rest ih =>
      have htail := (List.pairwise_cons.mp hsorted).right
      by_cases hrem : Quantity.zero < remaining
      · cases hbeyond : c.beyondLimit a.price with
        | true =>
            refine iff_of_false (not_overruns_of_stop ?_) (not_exceeds_beyond hsorted hbeyond)
            intro o ho
            cases ho
            simp [reaches, hbeyond]
        | false =>
            rw [exceeds_cons]
            simp only [Overruns, reaches_of hrem hbeyond, true_and]
            cases hpulls : pulls a with
            | true =>
                have hnot : ¬ c.EndsLevel pulls a rest := by
                  intro hends
                  have htradeable := hends.tradeable
                  rw [hpulls] at htradeable
                  cases htradeable
                simp only [if_true, Nat.sub_zero, hnot, false_and, false_or]
                exact ih htail
            | false =>
                simp only [Bool.false_eq_true, if_false]
                by_cases hfull : fillQty remaining a.quantity = a.quantity
                · have hle : a.quantity <= remaining := by
                    rw [← hfull]
                    exact fillQty_le_remaining _ _
                  have hunits := Quantity.units_sub_of_le hle
                  rw [ih htail, hunits, Quantity.zero_lt_iff, hunits]
                  have hends : c.EndsLevel pulls a rest <->
                      forall o', o' ∈ rest -> o'.price ≠ a.price :=
                    ⟨fun h => h.last, fun h => ⟨hbeyond, hpulls, h⟩⟩
                  rw [hends, and_iff_right hfull, Nat.sub_pos_iff_lt,
                    and_comm (a := a.quantity.units < remaining.units)]
                · have hlt : remaining.units < a.quantity.units := (fillQty_of_ne hfull).right
                  rw [Nat.sub_eq_zero_of_le (Nat.le_of_lt hlt)]
                  refine iff_of_false (fun h => hfull h.left) ?_
                  rintro (⟨-, hgt⟩ | hexceeds)
                  · omega
                  · exact not_exceeds_zero rest hexceeds
      · have hzero : remaining.units = 0 := by
          rw [Quantity.zero_lt_iff] at hrem
          omega
        rw [hzero]
        exact iff_of_false (not_overruns_exhausted hrem _) (not_exceeds_zero _)

end Exceeds

end Incoming

/-!
## Submissions
-/

/-- The submission reads a level only while it is a node of its price tree. -/
def ReadsLive (call : EngineCall) : Prop :=
  forall fn live, .levelAccess fn live ∈ call.ops -> live = true

theorem readsLive_iff (call : EngineCall) : ReadsLive call <-> ¬ ReadsErased call.ops := by
  constructor
  · rintro h ⟨fn, hmem⟩
    exact absurd (h fn false hmem) (by decide)
  · intro h fn live hmem
    cases live with
    | true => rfl
    | false => exact absurd ⟨fn, hmem⟩ h

/--
Up to the end of every crossing level whose last order the submission may trade
with, the tradeable quantity is at least the submitted one.
-/
def EndsWithinLevel (e : MatchingEngine) (order : NewOrder) : Prop :=
  forall front o back,
    e.book.resting order.side.opposite = front ++ o :: back ->
    order.incoming.EndsLevel (order.pulls e.stp) o back ->
    order.quantity.units <= tradeableUnits (order.pulls e.stp) (front ++ [o])

theorem endsWithinLevel_iff (e : MatchingEngine) (order : NewOrder) :
    EndsWithinLevel e order <->
      ¬ order.incoming.Exceeds (order.pulls e.stp) order.quantity.units
        (e.book.resting order.side.opposite) := by
  constructor
  · rintro h ⟨front, o, back, hsplit, hends, hlt⟩
    exact absurd (h front o back hsplit hends) (Nat.not_le.mpr hlt)
  · intro h front o back hsplit hends
    by_contra hlt
    exact h ⟨front, o, back, hsplit, hends, Nat.not_le.mp hlt⟩

theorem matched_readsErased {e : MatchingEngine} (hw : e.book.WellFormed)
    (order : NewOrder) :
    ReadsErased (e.matched order).ops <->
      order.incoming.Overruns (order.pulls e.stp) order.quantity
        (e.book.resting order.side.opposite) := by
  have hstart : WillReadErased order.incoming
        (.outer, MatchRun.start (e.accept order) order.quantity) <->
      order.incoming.Overruns (order.pulls e.stp) order.quantity
        (e.book.resting order.side.opposite) :=
    or_iff_right (fun ⟨_, hmem⟩ => List.not_mem_nil hmem)
  have hrun := loopRun_invariant
    (P := fun a => WillReadErased order.incoming a <-> WillReadErased order.incoming
      (.outer, MatchRun.start (e.accept order) order.quantity))
    (a := (.outer, MatchRun.start (e.accept order) order.quantity)) hw
    (fun hwr h hstep => (step_willReadErased hwr hstep).trans h) Iff.rfl
    (matchAgainstBook_run (e := e.accept order) hw order.incoming order.quantity)
  exact hrun.right.trans hstart

def oneAsk : List EngineCommand :=
  [.limit { id := ⟨1⟩, side := .sell, price := ⟨100⟩, quantity := ⟨5⟩, owner := ⟨1⟩ }]

def largerBuy : NewOrder :=
  .limit { id := ⟨1⟩, side := .buy, price := ⟨100⟩, quantity := ⟨8⟩, owner := ⟨2⟩ }

/-- The buy empties the level, which is erased, and the guard then reads it. -/
theorem largerBuy_reads_erased :
    let e := (MatchingEngine.new Memory.zeroed 4
      { enabled := false, policy := .rejectIncoming }).run oneAsk
    (e.submit largerBuy).response.status = .accepted ∧
      .levelAccess .empty false ∈ (e.submit largerBuy).ops ∧
      ¬ ReadsLive (e.submit largerBuy) := by
  refine ⟨by decide +kernel, by decide +kernel, fun h => ?_⟩
  exact absurd (h .empty false (by decide +kernel)) (by decide)

/--
A submission reads only live levels iff it is not admitted or ends within the
levels it meets: it never leaves quantity over when it has emptied a level by a
fill.
-/
theorem readsLive_iff_endsWithinLevel (raw : Memory) (capacity : UInt64)
    (stp : StpConfig) (commands : List EngineCommand) (order : NewOrder) :
    let e := (MatchingEngine.new raw capacity stp).run commands
    ReadsLive (e.submit order) <-> (e.Admits order -> EndsWithinLevel e order) := by
  intro e
  have hw : e.book.WellFormed := MatchingEngine.run_wellFormed raw capacity stp commands
  by_cases hadmits : e.Admits order
  · have hops : (e.submit order).ops = (e.matched order).ops := by
      rw [MatchingEngine.submit_of_admits hadmits]
      rfl
    rw [readsLive_iff, hops, matched_readsErased hw,
      Incoming.overruns_iff_exceeds (hw.ordered order.side.opposite),
      ← endsWithinLevel_iff]
    exact ⟨fun h _ => h, fun h => h hadmits⟩
  · rcases MatchingEngine.submit_of_not_admits hadmits with ⟨status, -, hcall⟩
    rw [hcall]
    refine iff_of_true ?_ (fun h => absurd h hadmits)
    intro fn live hmem
    cases hmem

end MiniExchange
