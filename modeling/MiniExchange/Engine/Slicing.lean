import MiniExchange.Engine.Reference

/-!
# Orders in slices

An order may be cut into any number of smaller ones, one submitted after the
other: together they take from the other side what the whole order takes, at
the same prices, and leave the same quantities behind on both sides.
-/

namespace MiniExchange

open Foundation

/-!
## Sweeps in two steps
-/

namespace Incoming

variable {c : Incoming} {pulls : RestingOrder -> Bool}

def EndsIn (s : Sweep) (left : List RestingOrder) (units : Nat) : Prop :=
  s.left = left ∧ s.remaining.units = units

theorem sweep_add (hpulls : forall o, pulls o = false) (first : Quantity)
    (orders : List RestingOrder) {second total : Quantity}
    (htotal : total.units = first.units + second.units) :
    EndsIn (c.sweep pulls total orders)
      (c.sweep pulls second (c.sweep pulls first orders).left).left
      ((c.sweep pulls first orders).remaining.units +
        (c.sweep pulls second (c.sweep pulls first orders).left).remaining.units) := by
  revert total
  apply sweep_induction (P := fun first orders s => forall {total : Quantity},
    total.units = first.units + second.units ->
    EndsIn (c.sweep pulls total orders) (c.sweep pulls second s.left).left
      (s.remaining.units + (c.sweep pulls second s.left).remaining.units))
  case stop =>
    intro first orders hhead total htotal
    show EndsIn _ (c.sweep pulls second orders).left
      (first.units + (c.sweep pulls second orders).remaining.units)
    by_cases hpos : Quantity.zero < first
    · -- whatever is left is beyond the limit
      have hstop : forall remaining, c.sweep pulls remaining orders =
          Sweep.stop remaining orders := fun _ => sweep_stop fun _ => hhead hpos
      rw [hstop, hstop]
      exact ⟨rfl, htotal⟩
    · have hzero := Quantity.not_pos_iff.mp hpos
      rw [hzero, Quantity.units_zero, Nat.zero_add] at htotal ⊢
      rw [Quantity.units_injective htotal]
      exact ⟨rfl, rfl⟩
  case own =>
    intro first o rest s _ hpulled
    rw [hpulls] at hpulled
    cases hpulled
  case full =>
    intro first o rest s hcross hother hpos hle ih total htotal
    have hunits := Quantity.units_sub_of_le hle
    rw [Quantity.lt_iff, Quantity.units_zero] at hpos
    rw [Quantity.le_iff] at hle
    have hle' : o.quantity <= total := by
      rw [Quantity.le_iff]
      omega
    have hunits' := Quantity.units_sub_of_le hle'
    rw [sweep_full hcross hother (by rw [Quantity.lt_iff, Quantity.units_zero]; omega) hle']
    exact ih (by omega)
  case absorbed =>
    intro first o rest hcross hother hpos hlt total htotal
    have hunits := Quantity.units_sub_of_le (le_of_lt hlt)
    rw [Quantity.lt_iff] at hpos hlt
    rw [Quantity.units_zero] at hpos
    have htotalpos : Quantity.zero < total := by
      rw [Quantity.lt_iff, Quantity.units_zero]
      omega
    show EndsIn _ (c.sweep pulls second
        ({ o with quantity := o.quantity - first } :: rest)).left
      (0 + (c.sweep pulls second
        ({ o with quantity := o.quantity - first } :: rest)).remaining.units)
    rw [Nat.zero_add]
    by_cases hsecond : Quantity.zero < second
    · rcases le_or_gt (o.quantity - first) second with hle | hgt
      · -- the second step takes the rest of the order
        have hle' : o.quantity <= total := by
          rw [Quantity.le_iff] at hle ⊢
          omega
        have hrest : total - o.quantity = second - (o.quantity - first) := by
          apply Quantity.units_injective
          rw [Quantity.units_sub_of_le hle', Quantity.units_sub_of_le hle, hunits]
          omega
        rw [sweep_full hcross hother htotalpos hle',
          sweep_full (o := { o with quantity := o.quantity - first }) hcross (hpulls _) hsecond
            hle, hrest]
        exact ⟨rfl, rfl⟩
      · have hlt' : total < o.quantity := by
          have hgt := Quantity.lt_iff.mp hgt
          rw [Quantity.lt_iff]
          omega
        have hrest : o.quantity - total = o.quantity - first - second := by
          apply Quantity.units_injective
          rw [Quantity.units_sub_of_le (le_of_lt hlt'), Quantity.units_sub_of_le (le_of_lt hgt),
            hunits]
          omega
        rw [sweep_absorbed hcross hother htotalpos hlt',
          sweep_absorbed (o := { o with quantity := o.quantity - first }) hcross (hpulls _)
            hsecond hgt, hrest]
        exact ⟨rfl, rfl⟩
    · have hzero := Quantity.not_pos_iff.mp hsecond
      rw [hzero, Quantity.units_zero, Nat.add_zero] at htotal
      rw [hzero, Quantity.units_injective htotal, sweep_absorbed hcross hother
        (Quantity.zero_lt_iff.mpr hpos) hlt, sweep_exhausted (lt_irrefl _)]
      exact ⟨rfl, rfl⟩

theorem sweep_congr {c' : Incoming} {pulls' : RestingOrder -> Bool} (hside : c.side = c'.side)
    (hlimit : c.limitPrice = c'.limitPrice) (hpulls : forall o, pulls o = pulls' o)
    (remaining : Quantity) (orders : List RestingOrder) :
    c.sweep pulls remaining orders = c'.sweep pulls' remaining orders := by
  have hreaches : forall remaining price,
      c.reaches remaining price = c'.reaches remaining price := by
    intro remaining price
    unfold reaches beyondLimit
    rw [hside, hlimit]
  induction orders generalizing remaining with
  | nil => rfl
  | cons o rest ih => simp only [sweep, hreaches, hpulls, ih]

end Incoming

/-!
## Submissions of one side and limit
-/

namespace EngineResponse

def traded (sel : Price -> Bool) (response : EngineResponse) : Nat :=
  ((response.trades.filter (fun t => sel t.price)).map (fun t => t.quantity.units)).sum

end EngineResponse

theorem Action.sum_trades_at {c : Incoming} {pulls : RestingOrder -> Bool}
    {orders : List RestingOrder} {actions : List Action}
    (h : forall a, a ∈ actions -> c.ActsOn pulls orders a) (sel : Price -> Bool)
    (sequence : TradeSequence) :
    (((Action.trades c sequence actions).filter (fun t => sel t.price)).map
      (fun t => t.quantity.units)).sum = Action.filled sel actions := by
  induction actions generalizing sequence with
  | nil => rfl
  | cons a rest ih =>
      have hrest := fun b hb => h b (List.mem_cons_of_mem _ hb)
      cases a with
      | cancelOwn o => exact ih hrest sequence
      | fill o before qty =>
          have hqty := (h _ List.mem_cons_self).right.right.right
          have hprice : (c.tradeWith o before sequence).price = o.price := rfl
          have hquantity : (c.tradeWith o before sequence).quantity = qty := hqty.symm
          have ih := ih hrest sequence.next
          simp only [Action.trades, List.filter_cons, hprice, Action.filled]
          split
          · rw [List.map_cons, List.sum_cons, hquantity, ih]
          · rw [ih, Nat.zero_add]

/-- What orders with the given limit leave at the selected prices of their own side. -/
def restingShare (limit : Option Price) (sel : Price -> Bool) (units : Nat) : Nat :=
  if limit.any sel then units else 0

theorem restingShare_add (limit : Option Price) (sel : Price -> Bool) (m n : Nat) :
    restingShare limit sel (m + n) = restingShare limit sel m + restingShare limit sel n := by
  unfold restingShare
  split <;> rfl

def remainingUnits (responses : List EngineResponse) : Nat :=
  (responses.map (fun response => response.remainingQty.units)).sum

def tradedAt (sel : Price -> Bool) (responses : List EngineResponse) : Nat :=
  (responses.map (EngineResponse.traded sel)).sum

namespace MatchingEngine

/--
Between two states, submissions with the side and the limit of `c` took from the
other side what one sweep takes, and what remained of them rests.
-/
structure Takes (c : Incoming) (quantity : Quantity) (e : MatchingEngine)
    (responses : List EngineResponse) (e' : MatchingEngine) : Prop where
  opposing : e'.book.resting c.side.opposite =
    (c.sweep (fun _ => false) quantity (e.book.resting c.side.opposite)).left
  remaining : remainingUnits responses =
    (c.sweep (fun _ => false) quantity (e.book.resting c.side.opposite)).remaining.units
  traded : forall sel, tradedAt sel responses +
    volume sel (e'.book.resting c.side.opposite) = volume sel (e.book.resting c.side.opposite)
  own : forall sel, volume sel (e'.book.resting c.side) =
    volume sel (e.book.resting c.side) +
      restingShare c.limitPrice sel (remainingUnits responses)

theorem volume_rested (e : MatchingEngine) (order : NewOrder) (sel : Price -> Bool) :
    volume sel (e.restedBy order).toList =
      restingShare order.limitPrice sel (e.sweepOf order).remaining.units := by
  cases order with
  | market mo => rfl
  | limit lo =>
      show _ = if sel lo.price then (e.sweepOf (.limit lo)).remaining.units else 0
      simp only [restedBy]
      split
      · rw [Option.toList_some, volume_cons, volume_nil, Nat.add_zero]
      · next hzero =>
          rw [Quantity.not_pos_iff.mp hzero]
          split <;> rfl

namespace Takes

variable {c : Incoming} {e e' e'' : MatchingEngine} {first second total : Quantity}
  {responses responses' : List EngineResponse}

theorem refl (c : Incoming) (e : MatchingEngine) : Takes c Quantity.zero e [] e := by
  have hstop : c.sweep (fun _ => false) Quantity.zero (e.book.resting c.side.opposite) =
      Sweep.stop Quantity.zero (e.book.resting c.side.opposite) :=
    Incoming.sweep_exhausted (lt_irrefl _) _
  constructor
  case opposing =>
    rw [hstop]
    rfl
  case remaining =>
    rw [hstop]
    rfl
  case traded => exact fun sel => Nat.zero_add _
  case own =>
    intro sel
    show _ = _ + restingShare c.limitPrice sel 0
    unfold restingShare
    split <;> rfl

theorem trans (h : Takes c first e responses e') (h' : Takes c second e' responses' e'')
    (htotal : total.units = first.units + second.units) :
    Takes c total e (responses ++ responses') e'' := by
  rcases Incoming.sweep_add (c := c) (fun _ => rfl) first (e.book.resting c.side.opposite)
    htotal with ⟨hleft, hremaining⟩
  have hremainingUnits : remainingUnits (responses ++ responses') =
      remainingUnits responses + remainingUnits responses' := by
    unfold remainingUnits
    rw [List.map_append, List.sum_append]
  have htradedAt : forall sel, tradedAt sel (responses ++ responses') =
      tradedAt sel responses + tradedAt sel responses' := by
    intro sel
    unfold tradedAt
    rw [List.map_append, List.sum_append]
  constructor
  case opposing => rw [hleft, ← h.opposing, h'.opposing]
  case remaining => rw [hremaining, hremainingUnits, ← h.opposing, h.remaining, h'.remaining]
  case traded =>
    intro sel
    have hfirst := h.traded sel
    have hsecond := h'.traded sel
    rw [htradedAt]
    omega
  case own =>
    intro sel
    rw [h'.own, h.own, hremainingUnits, restingShare_add, Nat.add_assoc]

theorem submit {order : NewOrder} (ha : Admission e order (e.submit order))
    (hstp : e.stp.PullsNothing) (hside : order.side = c.side)
    (hlimit : order.limitPrice = c.limitPrice) :
    Takes c order.quantity e [(e.submit order).response] (e.submit order).engine := by
  have hpulls := hstp.pulls_eq order
  have hsweep : e.sweepOf order =
      c.sweep (fun _ => false) order.quantity (e.book.resting c.side.opposite) := by
    rw [← hside]
    exact Incoming.sweep_congr hside hlimit hpulls _ _
  have hremaining : remainingUnits [(e.submit order).response] =
      (e.sweepOf order).remaining.units := by
    rw [← ha.remainingQty]
    exact Nat.add_zero _
  have hopposing : (e.submit order).engine.book.resting c.side.opposite =
      (e.sweepOf order).left := by
    rw [← hside]
    exact ha.opposing
  constructor
  case opposing => rw [hopposing, hsweep]
  case remaining => rw [hremaining, hsweep]
  case traded =>
    intro sel
    have hpulled : Action.pulled sel (e.sweepOf order).actions = 0 := by
      apply Action.pulled_eq_zero
      intro o ho
      have howned := (sweepOf_actions ho).right.right
      rw [hpulls] at howned
      cases howned
    have hfilled : tradedAt sel [(e.submit order).response] =
        Action.filled sel (e.sweepOf order).actions := by
      show (e.submit order).response.traded sel + 0 = _
      unfold EngineResponse.traded
      rw [ha.trades, Action.sum_trades_at (fun _ => sweepOf_actions), Nat.add_zero]
    have hvolume := sweepOf_volume e order sel
    rw [hpulled, hside] at hvolume
    rw [hfilled, hopposing]
    omega
  case own =>
    intro sel
    rw [← hside, ha.own, volume_perm (queue_perm _ _ _), volume_append, hremaining,
      volume_rested, hlimit, Nat.add_comm]

theorem run {parts : List NewOrder} (hw : e.book.WellFormed) (hstp : e.stp.PullsNothing)
    (hparts : forall part, part ∈ parts -> part.side = c.side ∧ part.limitPrice = c.limitPrice)
    (haccepted : forall response, response ∈ e.responses (parts.map NewOrder.toCommand) ->
      response.status = .accepted)
    (hsum : (parts.map (fun part => part.quantity.units)).sum = total.units) :
    Takes c total e (e.responses (parts.map NewOrder.toCommand))
      (e.run (parts.map NewOrder.toCommand)) := by
  induction parts generalizing e total with
  | nil =>
      have hzero : total = Quantity.zero := Quantity.units_injective hsum.symm
      rw [hzero]
      exact refl c e
  | cons part rest ih =>
      have hexec : e.exec part.toCommand = e.submit part := by cases part <;> rfl
      have hresponses : e.responses ((part :: rest).map NewOrder.toCommand) =
          (e.submit part).response ::
            (e.submit part).engine.responses (rest.map NewOrder.toCommand) := by
        rw [← hexec]
        rfl
      have hrun : e.run ((part :: rest).map NewOrder.toCommand) =
          (e.submit part).engine.run (rest.map NewOrder.toCommand) := by
        rw [← hexec]
        rfl
      rw [hresponses, List.forall_mem_cons] at haccepted
      rw [List.forall_mem_cons] at hparts
      rw [List.map_cons, List.sum_cons] at hsum
      have ha := admission hw (admits_of_accepted haccepted.left)
      -- the quantity of the other parts fits in a word as the total does
      have hbound := total.units_lt
      let others : Quantity := ⟨UInt64.ofNat (rest.map (fun part => part.quantity.units)).sum⟩
      have hothers : others.units = (rest.map (fun part => part.quantity.units)).sum := by
        show (UInt64.ofNat _).toNat = _
        rw [UInt64.toNat_ofNat', Nat.mod_eq_of_lt (by omega)]
      have hfirst := submit ha hstp hparts.left.left hparts.left.right
      have hrest := ih ha.wellFormed (ha.stp ▸ hstp) hparts.right haccepted.right hothers.symm
      rw [hresponses, hrun]
      exact hfirst.trans hrest (by rw [hothers, hsum])

end Takes

end MatchingEngine

/--
It makes no difference whether an order is submitted as a whole or in slices of
the same side and limit: the other side of the book ends up the same, order by
order, the same quantity is traded at each price, and the same quantity remains
and rests at each price of the own side.
-/
theorem order_sliced (raw : Memory) (capacity : UInt64) (stp : StpConfig)
    (commands : List EngineCommand) (whole : NewOrder) (parts : List NewOrder)
    (hstp : stp.PullsNothing)
    (hparts : forall part, part ∈ parts ->
      part.side = whole.side ∧ part.limitPrice = whole.limitPrice)
    (hsum : (parts.map (fun part => part.quantity.units)).sum = whole.quantity.units)
    (hwhole : (((MatchingEngine.new raw capacity stp).run commands).submit whole).response.status =
      .accepted)
    (haccepted : forall response,
      response ∈ ((MatchingEngine.new raw capacity stp).run commands).responses
        (parts.map NewOrder.toCommand) -> response.status = .accepted) :
    let e := (MatchingEngine.new raw capacity stp).run commands
    let once := e.submit whole
    let sliced := e.run (parts.map NewOrder.toCommand)
    let responses := e.responses (parts.map NewOrder.toCommand)
    sliced.book.resting whole.side.opposite = once.engine.book.resting whole.side.opposite ∧
      (forall sel, tradedAt sel responses = once.response.traded sel) ∧
      remainingUnits responses = once.response.remainingQty.units ∧
      forall sel, volume sel (sliced.book.resting whole.side) =
        volume sel (once.engine.book.resting whole.side) := by
  intro e once sliced responses
  have hw := MatchingEngine.run_wellFormed raw capacity stp commands
  have hconfig : e.stp.PullsNothing := by
    rw [show e.stp = stp from MatchingEngine.run_stp raw capacity stp commands]
    exact hstp
  have hslices : MatchingEngine.Takes whole.incoming whole.quantity e responses sliced :=
    MatchingEngine.Takes.run hw hconfig hparts haccepted hsum
  have honce : MatchingEngine.Takes whole.incoming whole.quantity e [once.response]
      once.engine :=
    MatchingEngine.Takes.submit
      (MatchingEngine.admission hw (MatchingEngine.admits_of_accepted hwhole)) hconfig rfl rfl
  have hopposing : sliced.book.resting whole.side.opposite =
      once.engine.book.resting whole.side.opposite :=
    hslices.opposing.trans honce.opposing.symm
  have hremaining : remainingUnits responses = remainingUnits [once.response] :=
    hslices.remaining.trans honce.remaining.symm
  refine ⟨hopposing, ?_, hremaining, ?_⟩
  · intro sel
    have hboth := (hslices.traded sel).trans (honce.traded sel).symm
    have hside : whole.incoming.side = whole.side := rfl
    rw [hside, hopposing] at hboth
    exact Nat.add_right_cancel hboth
  · intro sel
    have hown := hslices.own sel
    rw [hremaining] at hown
    exact hown.trans (honce.own sel).symm

def steppedOffers : List EngineCommand :=
  [.limit { id := ⟨1⟩, side := .sell, price := ⟨100⟩, quantity := ⟨5⟩, owner := ⟨1⟩ },
    .limit { id := ⟨2⟩, side := .sell, price := ⟨101⟩, quantity := ⟨5⟩, owner := ⟨1⟩ }]

def largeBid (id : OrderId) (quantity : Quantity) : NewOrder :=
  .limit { id := id, side := .buy, price := ⟨101⟩, quantity := quantity, owner := ⟨2⟩ }

theorem order_sliced_steppedOffers :
    let e := (MatchingEngine.new Memory.zeroed 8 {}).run steppedOffers
    let once := e.submit (largeBid ⟨11⟩ ⟨12⟩)
    let parts := [largeBid ⟨11⟩ ⟨3⟩, largeBid ⟨12⟩ ⟨8⟩, largeBid ⟨13⟩ ⟨1⟩]
    let sliced := e.run (parts.map NewOrder.toCommand)
    let responses := e.responses (parts.map NewOrder.toCommand)
    (sliced.book.resting .sell = once.engine.book.resting .sell ∧
      (forall sel, tradedAt sel responses = once.response.traded sel) ∧
      remainingUnits responses = once.response.remainingQty.units ∧
      forall sel, volume sel (sliced.book.resting .buy) =
        volume sel (once.engine.book.resting .buy)) ∧
      once.response.trades.map (fun t => t.quantity.units) = [5, 5] ∧
      responses.map (fun r => r.trades.map (fun t => t.quantity.units)) = [[3], [2, 5], []] := by
  refine ⟨?_, by decide +kernel⟩
  apply order_sliced Memory.zeroed 8 {} steppedOffers (largeBid ⟨11⟩ ⟨12⟩)
  · exact fun _ => rfl
  · decide
  · decide
  · decide +kernel
  · decide +kernel

end MiniExchange
