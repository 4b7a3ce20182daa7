import MiniExchange.Engine.Sweep

/-!
# Laws of the sweep

A sweep takes orders off the front of a list: it stops, pulls an own order,
consumes an order, or is absorbed by one.  Everything that is known about the
result of a sweep is proved by induction over these four cases.
-/

namespace MiniExchange

open Foundation

namespace Incoming

variable {c : Incoming} {pulls : RestingOrder -> Bool}

section Cases

variable {remaining : Quantity} {o : RestingOrder} {rest : List RestingOrder}

theorem sweep_stop {orders : List RestingOrder}
    (h : Quantity.zero < remaining -> forall o, orders.head? = some o ->
      c.beyondLimit o.price = true) :
    c.sweep pulls remaining orders = Sweep.stop remaining orders := by
  by_cases hrem : Quantity.zero < remaining
  · cases orders with
    | nil => rfl
    | cons o rest => exact sweep_beyond (h hrem o rfl)
  · exact sweep_exhausted hrem orders

theorem sweep_full (hcross : c.beyondLimit o.price = false) (hother : pulls o = false)
    (hpos : Quantity.zero < remaining) (hle : o.quantity <= remaining) :
    c.sweep pulls remaining (o :: rest) =
      Sweep.cons (.fill o remaining o.quantity)
        (c.sweep pulls (remaining - o.quantity) rest) := by
  have hfull : fillQty remaining o.quantity = o.quantity := by
    rw [fillQty_eq_min, min_eq_right hle]
  rw [sweep_fill (reaches_of hpos hcross) hother, if_pos hfull, hfull]

theorem sweep_absorbed (hcross : c.beyondLimit o.price = false) (hother : pulls o = false)
    (hpos : Quantity.zero < remaining) (hlt : remaining < o.quantity) :
    c.sweep pulls remaining (o :: rest) =
      { actions := [.fill o remaining remaining]
        remaining := Quantity.zero
        left := { o with quantity := o.quantity - remaining } :: rest } := by
  have hqty : fillQty remaining o.quantity = remaining := by
    rw [fillQty_eq_min, min_eq_left (le_of_lt hlt)]
  rw [sweep_fill (reaches_of hpos hcross) hother, hqty, if_neg (ne_of_lt hlt),
    Quantity.sub_self, sweep_exhausted (lt_irrefl _)]
  rfl

end Cases

theorem sweep_induction {P : Quantity -> List RestingOrder -> Sweep -> Prop}
    (stop : forall remaining orders,
      (Quantity.zero < remaining -> forall o, orders.head? = some o ->
        c.beyondLimit o.price = true) ->
      P remaining orders (Sweep.stop remaining orders))
    (own : forall remaining o rest s, c.beyondLimit o.price = false -> pulls o = true ->
      Quantity.zero < remaining ->
      P remaining rest s -> P remaining (o :: rest) (Sweep.cons (.cancelOwn o) s))
    (full : forall remaining o rest s, c.beyondLimit o.price = false -> pulls o = false ->
      Quantity.zero < remaining -> o.quantity <= remaining ->
      P (remaining - o.quantity) rest s ->
      P remaining (o :: rest) (Sweep.cons (.fill o remaining o.quantity) s))
    (absorbed : forall remaining o rest, c.beyondLimit o.price = false -> pulls o = false ->
      Quantity.zero < remaining -> remaining < o.quantity ->
      P remaining (o :: rest)
        { actions := [.fill o remaining remaining]
          remaining := Quantity.zero
          left := { o with quantity := o.quantity - remaining } :: rest })
    (remaining : Quantity) (orders : List RestingOrder) :
    P remaining orders (c.sweep pulls remaining orders) := by
  induction orders generalizing remaining with
  | nil => exact stop remaining [] (fun _ o ho => nomatch ho)
  | cons o rest ih =>
      by_cases hrem : Quantity.zero < remaining
      · cases hcross : c.beyondLimit o.price with
        | true =>
            rw [sweep_beyond hcross]
            apply stop
            intro _ o' ho'
            cases ho'
            exact hcross
        | false =>
            cases hpulls : pulls o with
            | true =>
                rw [sweep_own (reaches_of hrem hcross) hpulls]
                exact own remaining o rest _ hcross hpulls hrem (ih remaining)
            | false =>
                rcases le_or_gt o.quantity remaining with hle | hlt
                · rw [sweep_full hcross hpulls hrem hle]
                  exact full remaining o rest _ hcross hpulls hrem hle (ih _)
                · rw [sweep_absorbed hcross hpulls hrem hlt]
                  exact absorbed remaining o rest hcross hpulls hrem hlt
      · rw [sweep_exhausted hrem]
        exact stop remaining (o :: rest) (fun hpos => absurd hpos hrem)

/-!
## What is left

A sweep removes a front part of the list.  Of what is left, only the quantity
of the first order may have changed.
-/

theorem map_removed_append_left {β : Type} (f : RestingOrder -> β)
    (hf : forall o q, f { o with quantity := q } = f o) (remaining : Quantity)
    (orders : List RestingOrder) :
    (Action.removed (c.sweep pulls remaining orders).actions).map f ++
      (c.sweep pulls remaining orders).left.map f = orders.map f := by
  apply sweep_induction (P := fun _ orders s =>
    (Action.removed s.actions).map f ++ s.left.map f = orders.map f)
  case stop =>
    intro remaining orders _
    rfl
  case own =>
    intro remaining o rest s _ _ _ ih
    show f o :: ((Action.removed s.actions).map f ++ s.left.map f) = _
    rw [ih]
    rfl
  case full =>
    intro remaining o rest s _ _ _ _ ih
    have hremoved : Action.removed (.fill o remaining o.quantity :: s.actions) =
        o :: Action.removed s.actions := by
      simp [Action.removed, Action.removed?]
    show (Action.removed (.fill o remaining o.quantity :: s.actions)).map f ++ _ = _
    rw [hremoved, List.map_cons, List.cons_append]
    exact congrArg (List.cons (f o)) ih
  case absorbed =>
    intro remaining o rest _ _ _ hlt
    have hremoved : Action.removed [.fill o remaining remaining] = [] := by
      simp [Action.removed, Action.removed?, ne_of_lt hlt]
    show (Action.removed [.fill o remaining remaining]).map f ++ _ = _
    rw [hremoved, List.map_cons, hf]
    rfl

theorem mem_left (remaining : Quantity) (orders : List RestingOrder) {o : RestingOrder}
    (h : o ∈ (c.sweep pulls remaining orders).left) :
    exists o', o' ∈ orders ∧ o = { o' with quantity := o.quantity } ∧
      o.quantity <= o'.quantity ∧ (Quantity.zero < o'.quantity -> Quantity.zero < o.quantity) := by
  revert h
  apply sweep_induction (P := fun _ orders s => o ∈ s.left ->
    exists o', o' ∈ orders ∧ o = { o' with quantity := o.quantity } ∧
      o.quantity <= o'.quantity ∧ (Quantity.zero < o'.quantity -> Quantity.zero < o.quantity))
  case stop =>
    intro remaining orders _ ho
    exact ⟨o, ho, rfl, le_refl _, fun hpos => hpos⟩
  case own =>
    intro remaining a rest s _ _ _ ih ho
    rcases ih ho with ⟨o', ho', hrest⟩
    exact ⟨o', List.mem_cons_of_mem _ ho', hrest⟩
  case full =>
    intro remaining a rest s _ _ _ _ ih ho
    rcases ih ho with ⟨o', ho', hrest⟩
    exact ⟨o', List.mem_cons_of_mem _ ho', hrest⟩
  case absorbed =>
    intro remaining a rest _ _ hpos hlt ho
    rcases List.mem_cons.mp ho with heq | hrest
    · have hunits := Quantity.units_sub_of_le (le_of_lt hlt)
      rw [Quantity.lt_iff] at hlt
      rw [Quantity.zero_lt_iff] at hpos
      refine ⟨a, List.mem_cons_self, by rw [heq], ?_, ?_⟩
      · rw [heq, Quantity.le_iff]
        show (a.quantity - remaining).units <= _
        omega
      · intro _
        rw [heq, Quantity.zero_lt_iff]
        show 0 < (a.quantity - remaining).units
        omega
    · exact ⟨o, List.mem_cons_of_mem _ hrest, rfl, le_refl _, fun hpos => hpos⟩

theorem beyondLimit_mono {c : Incoming} {p q : Price}
    (h : ¬ c.side.opposite.better q p) (hp : c.beyondLimit p = true) :
    c.beyondLimit q = true := by
  unfold beyondLimit at hp ⊢
  cases hlimit : c.limitPrice with
  | none =>
      rw [hlimit] at hp
      exact absurd hp (by simp)
  | some limit =>
      rw [hlimit] at hp
      cases hside : c.side with
      | buy =>
          rw [hside] at h hp
          have hle : p <= q := not_lt.mp h
          exact decide_eq_true (lt_of_lt_of_le (of_decide_eq_true hp) hle)
      | sell =>
          rw [hside] at h hp
          have hle : q <= p := not_lt.mp h
          exact decide_eq_true (lt_of_le_of_lt hle (of_decide_eq_true hp))

theorem sweep_exit (remaining : Quantity) {orders : List RestingOrder}
    (hsorted : PriorityList.Sorted c.side.opposite.better (fun o => o.price) orders) :
    (c.sweep pulls remaining orders).remaining = Quantity.zero ∨
      forall o, o ∈ (c.sweep pulls remaining orders).left ->
        c.beyondLimit o.price = true := by
  revert hsorted
  apply sweep_induction (P := fun _ orders s =>
    PriorityList.Sorted c.side.opposite.better (fun o => o.price) orders ->
      s.remaining = Quantity.zero ∨ forall o, o ∈ s.left -> c.beyondLimit o.price = true)
  case stop =>
    intro remaining orders hhead hsorted
    by_cases hrem : Quantity.zero < remaining
    · right
      cases orders with
      | nil => exact fun o ho => nomatch ho
      | cons a rest =>
          have hbeyond := hhead hrem a rfl
          intro o ho
          rcases List.mem_cons.mp ho with heq | hrest
          · exact heq ▸ hbeyond
          · exact beyondLimit_mono ((List.pairwise_cons.mp hsorted).left o hrest) hbeyond
    · exact Or.inl (Quantity.not_pos_iff.mp hrem)
  case own =>
    intro remaining a rest s _ _ _ ih hsorted
    exact ih (List.pairwise_cons.mp hsorted).right
  case full =>
    intro remaining a rest s _ _ _ _ ih hsorted
    exact ih (List.pairwise_cons.mp hsorted).right
  case absorbed =>
    intro remaining a rest _ _ _ _ _
    exact Or.inl rfl

def ActsOn (c : Incoming) (pulls : RestingOrder -> Bool) (orders : List RestingOrder) :
    Action -> Prop
  | .fill o before qty =>
      o ∈ orders ∧ c.beyondLimit o.price = false ∧ pulls o = false ∧
        qty = fillQty before o.quantity
  | .cancelOwn o => o ∈ orders ∧ c.beyondLimit o.price = false ∧ pulls o = true

theorem ActsOn.cons {a : Action} {o : RestingOrder} {orders : List RestingOrder}
    (h : c.ActsOn pulls orders a) : c.ActsOn pulls (o :: orders) a := by
  cases a with
  | fill o' before qty => exact ⟨List.mem_cons_of_mem _ h.left, h.right⟩
  | cancelOwn o' => exact ⟨List.mem_cons_of_mem _ h.left, h.right⟩

theorem mem_actions (remaining : Quantity) (orders : List RestingOrder) {a : Action}
    (h : a ∈ (c.sweep pulls remaining orders).actions) : c.ActsOn pulls orders a := by
  revert h
  apply sweep_induction (P := fun _ orders s => a ∈ s.actions -> c.ActsOn pulls orders a)
  case stop =>
    intro remaining orders _ ha
    exact nomatch ha
  case own =>
    intro remaining o rest s hcross hpulls _ ih ha
    rcases List.mem_cons.mp ha with rfl | hrest
    · exact ⟨List.mem_cons_self, hcross, hpulls⟩
    · exact (ih hrest).cons
  case full =>
    intro remaining o rest s hcross hpulls _ hle ih ha
    rcases List.mem_cons.mp ha with rfl | hrest
    · refine ⟨List.mem_cons_self, hcross, hpulls, ?_⟩
      rw [fillQty_eq_min, min_eq_right hle]
    · exact (ih hrest).cons
  case absorbed =>
    intro remaining o rest hcross hpulls _ hlt ha
    rw [List.mem_singleton.mp ha]
    refine ⟨List.mem_cons_self, hcross, hpulls, ?_⟩
    rw [fillQty_eq_min, min_eq_left (le_of_lt hlt)]

end Incoming

/-!
## Quantities

What is swept is traded, pulled, or left; what the incoming order loses is
traded.
-/

def volume (sel : Price -> Bool) (orders : List RestingOrder) : Nat :=
  ((orders.filter (fun o => sel o.price)).map (fun o => o.quantity.units)).sum

@[simp] theorem volume_nil (sel : Price -> Bool) : volume sel [] = 0 := rfl

@[simp] theorem volume_cons (sel : Price -> Bool) (o : RestingOrder)
    (orders : List RestingOrder) :
    volume sel (o :: orders) =
      (if sel o.price then o.quantity.units else 0) + volume sel orders := by
  unfold volume
  cases h : sel o.price <;> simp [h]

theorem volume_append (sel : Price -> Bool) (orders orders' : List RestingOrder) :
    volume sel (orders ++ orders') = volume sel orders + volume sel orders' := by
  simp [volume]

theorem volume_perm {sel : Price -> Bool} {orders orders' : List RestingOrder}
    (h : orders.Perm orders') : volume sel orders = volume sel orders' :=
  ((h.filter _).map _).sum_nat

theorem volume_eq_zero {sel : Price -> Bool} {orders : List RestingOrder}
    (h : forall o, o ∈ orders -> sel o.price = false) : volume sel orders = 0 := by
  induction orders with
  | nil => rfl
  | cons o rest ih =>
      rw [volume_cons, h o List.mem_cons_self, ih (fun x hx => h x (List.mem_cons_of_mem _ hx))]
      rfl

namespace Action

def filled (sel : Price -> Bool) : List Action -> Nat
  | [] => 0
  | fill o _ qty :: rest => (if sel o.price then qty.units else 0) + filled sel rest
  | cancelOwn _ :: rest => filled sel rest

def pulled (sel : Price -> Bool) : List Action -> Nat
  | [] => 0
  | fill _ _ _ :: rest => pulled sel rest
  | cancelOwn o :: rest => (if sel o.price then o.quantity.units else 0) + pulled sel rest

theorem filled_le (sel : Price -> Bool) (actions : List Action) :
    filled sel actions <= filled (fun _ => true) actions := by
  induction actions with
  | nil => exact Nat.le_refl 0
  | cons action rest ih =>
      cases action with
      | fill o before qty =>
          simp only [filled, if_true]
          split <;> omega
      | cancelOwn o => exact ih

theorem pulled_eq_zero (sel : Price -> Bool) {actions : List Action}
    (h : forall o, .cancelOwn o ∉ actions) : pulled sel actions = 0 := by
  induction actions with
  | nil => rfl
  | cons action rest ih =>
      cases action with
      | fill o before qty => exact ih (fun x hx => h x (List.mem_cons_of_mem _ hx))
      | cancelOwn o => exact absurd List.mem_cons_self (h o)

theorem sum_trades {c : Incoming} {pulls : RestingOrder -> Bool}
    {orders : List RestingOrder} {actions : List Action}
    (h : forall a, a ∈ actions -> c.ActsOn pulls orders a) (sequence : TradeSequence) :
    ((trades c sequence actions).map (fun t => t.quantity.units)).sum =
      filled (fun _ => true) actions := by
  induction actions generalizing sequence with
  | nil => rfl
  | cons action rest ih =>
      have hrest := ih (fun a ha => h a (List.mem_cons_of_mem _ ha))
      cases action with
      | fill o before qty =>
          have hqty := (h _ List.mem_cons_self).right.right.right
          simp only [trades, filled, List.map_cons, List.sum_cons, hrest, hqty]
          rfl
      | cancelOwn o => exact hrest sequence

end Action

namespace Incoming

variable {c : Incoming} {pulls : RestingOrder -> Bool}

theorem volume_sweep (sel : Price -> Bool) (remaining : Quantity)
    (orders : List RestingOrder) :
    Action.filled sel (c.sweep pulls remaining orders).actions +
        Action.pulled sel (c.sweep pulls remaining orders).actions +
        volume sel (c.sweep pulls remaining orders).left = volume sel orders := by
  apply sweep_induction (P := fun _ orders s =>
    Action.filled sel s.actions + Action.pulled sel s.actions + volume sel s.left =
      volume sel orders)
  case stop =>
    intro remaining orders _
    simp [Sweep.stop, Action.filled, Action.pulled]
  case own =>
    intro remaining o rest s _ _ _ ih
    simp only [Sweep.cons, Action.filled, Action.pulled, volume_cons]
    omega
  case full =>
    intro remaining o rest s _ _ _ _ ih
    simp only [Sweep.cons, Action.filled, Action.pulled, volume_cons]
    omega
  case absorbed =>
    intro remaining o rest _ _ _ hlt
    have hunits := Quantity.units_sub_of_le (le_of_lt hlt)
    rw [Quantity.lt_iff] at hlt
    simp only [Action.filled, Action.pulled, volume_cons, hunits]
    split <;> omega

theorem filled_add_remaining (remaining : Quantity) (orders : List RestingOrder) :
    Action.filled (fun _ => true) (c.sweep pulls remaining orders).actions +
      (c.sweep pulls remaining orders).remaining.units = remaining.units := by
  apply sweep_induction (P := fun remaining _ s =>
    Action.filled (fun _ => true) s.actions + s.remaining.units = remaining.units)
  case stop =>
    intro remaining orders _
    simp [Sweep.stop, Action.filled]
  case own =>
    intro remaining o rest s _ _ _ ih
    exact ih
  case full =>
    intro remaining o rest s _ _ _ hle ih
    rw [Quantity.units_sub_of_le hle] at ih
    rw [Quantity.le_iff] at hle
    simp only [Sweep.cons, Action.filled, if_true]
    omega
  case absorbed =>
    intro remaining o rest _ _ _ _
    simp [Action.filled]

/-- What is left of an order once the others' orders within its limit are taken. -/
theorem remaining_sweep_others (remaining : Quantity) (orders : List RestingOrder) :
    (c.sweep pulls remaining orders).remaining.units =
      remaining.units - volume (fun _ => true)
        ((orders.takeWhile (fun o => !c.beyondLimit o.price)).filter (fun o => !pulls o)) := by
  apply sweep_induction (P := fun remaining orders s => s.remaining.units =
    remaining.units - volume (fun _ => true)
      ((orders.takeWhile (fun o => !c.beyondLimit o.price)).filter (fun o => !pulls o)))
  case stop =>
    intro remaining orders hstop
    show remaining.units = _
    by_cases hrem : Quantity.zero < remaining
    · have hnone : orders.takeWhile (fun o => !c.beyondLimit o.price) = [] := by
        cases orders with
        | nil => rfl
        | cons o rest => simp [hstop hrem o rfl]
      rw [hnone]
      rfl
    · rw [Quantity.zero_lt_iff] at hrem
      omega
  case own =>
    intro remaining o rest s hcross hown _ ih
    simp only [List.takeWhile_cons, List.filter_cons, hcross, hown, Bool.not_false, Bool.not_true,
      if_true, Bool.false_eq_true, if_false]
    exact ih
  case full =>
    intro remaining o rest s hcross hother _ hle ih
    rw [Quantity.units_sub_of_le hle] at ih
    simp only [List.takeWhile_cons, List.filter_cons, hcross, hother, Bool.not_false, if_true,
      volume_cons]
    show s.remaining.units = _
    omega
  case absorbed =>
    intro remaining o rest hcross hother _ hlt
    rw [Quantity.lt_iff] at hlt
    simp only [List.takeWhile_cons, List.filter_cons, hcross, hother, Bool.not_false, if_true,
      volume_cons, Quantity.units_zero]
    omega

theorem remaining_of_le_volume (hpulls : forall o, pulls o = false) {remaining : Quantity}
    {orders : List RestingOrder}
    (hsorted : PriorityList.Sorted c.side.opposite.better (fun o => o.price) orders)
    (hle : remaining.units <= volume (fun price => !c.beyondLimit price) orders) :
    (c.sweep pulls remaining orders).remaining = Quantity.zero := by
  rcases sweep_exit remaining hsorted with hzero | hbeyond
  · exact hzero
  · have hleft : volume (fun price => !c.beyondLimit price)
        (c.sweep pulls remaining orders).left = 0 :=
      volume_eq_zero (fun o ho => by rw [hbeyond o ho]; rfl)
    have hpulled : Action.pulled (fun price => !c.beyondLimit price)
        (c.sweep pulls remaining orders).actions = 0 := by
      apply Action.pulled_eq_zero
      intro o ho
      have hown := (mem_actions remaining orders ho).right.right
      rw [hpulls o] at hown
      cases hown
    have hvolume : Action.filled (fun price => !c.beyondLimit price)
          (c.sweep pulls remaining orders).actions + Action.pulled _ _ + volume _ _ =
        volume (fun price => !c.beyondLimit price) orders := volume_sweep _ remaining orders
    have hfilled : Action.filled (fun _ => true) (c.sweep pulls remaining orders).actions +
        (c.sweep pulls remaining orders).remaining.units = remaining.units :=
      filled_add_remaining remaining orders
    have hbound := Action.filled_le (fun price => !c.beyondLimit price)
      (c.sweep pulls remaining orders).actions
    apply Quantity.units_injective
    show _ = 0
    omega

end Incoming

/-!
## Portions

The trades of a sweep in which nothing is pulled, read off the orders that stand
within the limit.
-/

def portions : Nat -> List RestingOrder -> List (Nat × Price)
  | _, [] => []
  | quantity, o :: rest =>
      if quantity = 0 then []
      else (min quantity o.quantity.units, o.price) ::
        portions (quantity - o.quantity.units) rest

theorem portions_zero (orders : List RestingOrder) : portions 0 orders = [] := by
  cases orders <;> rfl

/-- At most `n` orders are taken from if the first `n` are enough. -/
theorem length_portions_le_iff {quantity n : Nat} {orders : List RestingOrder} :
    (portions quantity orders).length <= n <->
      orders.length <= n ∨ quantity <= volume (fun _ => true) (orders.take n) := by
  induction orders generalizing quantity n with
  | nil => exact iff_of_true (Nat.zero_le n) (Or.inl (Nat.zero_le n))
  | cons o rest ih =>
      unfold portions
      by_cases hzero : quantity = 0
      · rw [if_pos hzero]
        exact iff_of_true (Nat.zero_le n) (Or.inr (hzero ▸ Nat.zero_le _))
      · rw [if_neg hzero]
        cases n with
        | zero =>
            rw [List.take_zero, volume_nil, List.length_cons, List.length_cons]
            omega
        | succ n =>
            rw [List.take_succ_cons, volume_cons, if_pos rfl, List.length_cons,
              List.length_cons, Nat.add_le_add_iff_right, Nat.add_le_add_iff_right, ih,
              Nat.sub_le_iff_le_add, Nat.add_comm]

theorem volume_units {orders : List RestingOrder}
    (h : forall o, o ∈ orders -> o.quantity = ⟨1⟩) :
    volume (fun _ => true) orders = orders.length := by
  induction orders with
  | nil => rfl
  | cons o rest ih =>
      rw [volume_cons, if_pos rfl, h o List.mem_cons_self,
        ih (fun x hx => h x (List.mem_cons_of_mem _ hx)), List.length_cons]
      exact Nat.add_comm 1 _

namespace Incoming

variable {c : Incoming} {pulls : RestingOrder -> Bool}

theorem trades_sweep (hpulls : forall o, pulls o = false) (remaining : Quantity)
    (orders : List RestingOrder) (sequence : TradeSequence) :
    (Action.trades c sequence (c.sweep pulls remaining orders).actions).map
        (fun t => (t.quantity.units, t.price)) =
      portions remaining.units (orders.takeWhile (fun o => !c.beyondLimit o.price)) := by
  revert sequence
  apply sweep_induction (P := fun remaining orders s => forall sequence,
    (Action.trades c sequence s.actions).map (fun t => (t.quantity.units, t.price)) =
      portions remaining.units (orders.takeWhile (fun o => !c.beyondLimit o.price)))
  case stop =>
    intro remaining orders hhead sequence
    by_cases hrem : Quantity.zero < remaining
    · cases orders with
      | nil => rfl
      | cons o rest =>
          rw [List.takeWhile_cons_of_neg (by rw [hhead hrem o rfl]; decide)]
          rfl
    · rw [Quantity.not_pos_iff.mp hrem]
      exact (portions_zero _).symm
  case own =>
    intro remaining o rest s _ hown
    rw [hpulls o] at hown
    cases hown
  case full =>
    intro remaining o rest s hcross _ hpos hle ih sequence
    have hrest := ih sequence.next
    rw [Quantity.units_sub_of_le hle] at hrest
    rw [List.takeWhile_cons_of_pos (by rw [hcross]; rfl)]
    unfold portions
    rw [if_neg (Nat.ne_of_gt (Quantity.zero_lt_iff.mp hpos)), ← hrest]
    show ((fillQty remaining o.quantity).units, o.price) :: _ = _
    rw [fillQty_eq_min, min_eq_right hle, Nat.min_eq_right (Quantity.le_iff.mp hle)]
  case absorbed =>
    intro remaining o rest hcross _ hpos hlt sequence
    have hunits := Quantity.lt_iff.mp hlt
    rw [List.takeWhile_cons_of_pos (by rw [hcross]; rfl)]
    unfold portions
    rw [if_neg (Nat.ne_of_gt (Quantity.zero_lt_iff.mp hpos)),
      Nat.sub_eq_zero_of_le (Nat.le_of_lt hunits), portions_zero]
    show [((fillQty remaining o.quantity).units, o.price)] = _
    rw [fillQty_eq_min, min_eq_left (le_of_lt hlt), Nat.min_eq_left (Nat.le_of_lt hunits)]

theorem remaining_sweep (hpulls : forall o, pulls o = false) (remaining : Quantity)
    (orders : List RestingOrder) :
    (c.sweep pulls remaining orders).remaining.units =
      remaining.units -
        volume (fun _ => true) (orders.takeWhile (fun o => !c.beyondLimit o.price)) := by
  have hothers : forall taken : List RestingOrder, taken.filter (fun o => !pulls o) = taken :=
    fun taken => List.filter_eq_self.mpr fun o _ => by rw [hpulls o]; rfl
  rw [remaining_sweep_others, hothers]

end Incoming
end MiniExchange
