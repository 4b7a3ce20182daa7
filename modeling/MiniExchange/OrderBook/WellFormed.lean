import MiniExchange.OrderBook.Operations

/-!
# Well-formed books

A book is well formed if it stands for the lists that reading it gives.  The
operations are restated on those readings, so that nothing above this module
looks into the heap.
-/

namespace MiniExchange

open Foundation

namespace OrderBook

/-- The heap of the book stands for what reading the book gives. -/
def WellFormed (b : OrderBook) : Prop :=
  exists free, Represents b b.restingSlots free

theorem resting_eq (b : OrderBook) (s : Side) :
    b.resting s = (b.restingSlots s).map b.data := rfl

end OrderBook

theorem Represents.reads {b : OrderBook} {q : Side -> List Slot} {free : List Slot}
    (h : Represents b q free) : b.WellFormed ∧ b.restingSlots = q := by
  have hslots : b.restingSlots = q := funext h.restingSlots_eq
  exact ⟨⟨free, hslots.symm ▸ h⟩, hslots⟩

namespace OrderBook
namespace WellFormed

variable {b : OrderBook} {s : Side} {x : Slot}

theorem new (raw : Memory) (capacity : UInt64) :
    (OrderBook.new raw capacity).WellFormed :=
  (Represents.new raw capacity).reads.left

theorem resting_new (raw : Memory) (capacity : UInt64) (s : Side) :
    (OrderBook.new raw capacity).resting s = [] := by
  rw [resting_eq, (Represents.new raw capacity).reads.right]
  rfl

/-!
## Reading
-/

theorem nodup (hw : b.WellFormed) (s : Side) : (b.restingSlots s).Nodup := by
  rcases hw with ⟨free, h⟩
  exact h.nodup_side s

theorem side_eq (hw : b.WellFormed) (hx : x ∈ b.restingSlots s) :
    (b.data x).side = s := by
  rcases hw with ⟨free, h⟩
  exact h.side_eq s x hx

theorem side_unique (hw : b.WellFormed) {t : Side} (hs : x ∈ b.restingSlots s)
    (ht : x ∈ b.restingSlots t) : s = t :=
  (hw.side_eq hs).symm.trans (hw.side_eq ht)

theorem ordered_slots (hw : b.WellFormed) (s : Side) :
    PriorityList.Sorted s.better (fun x => (b.data x).price) (b.restingSlots s) := by
  rcases hw with ⟨free, h⟩
  exact h.ordered s

theorem ordered (hw : b.WellFormed) (s : Side) :
    PriorityList.Sorted s.better (fun o => o.price) (b.resting s) :=
  List.pairwise_map.mpr (hw.ordered_slots s)

theorem resting_side (hw : b.WellFormed) {o : RestingOrder} (ho : o ∈ b.resting s) :
    o.side = s := by
  rcases List.mem_map.mp ho with ⟨x, hx, rfl⟩
  exact hw.side_eq hx

theorem count (hw : b.WellFormed) :
    b.poolAvailable + ((b.resting .buy).length + (b.resting .sell).length) =
      b.pool.capacity ∧
    b.orderCount = (b.resting .buy).length + (b.resting .sell).length := by
  rcases hw with ⟨free, h⟩
  have hcount := h.count_slots
  have hfree : b.poolAvailable = free.length := h.freeCount
  have horders := h.orderCount
  simp only [resting_eq, List.length_map]
  omega

theorem findOrder_some (hw : b.WellFormed) {id : OrderId}
    (hfind : b.findOrder id = some x) :
    (exists s, x ∈ b.restingSlots s) ∧ (b.data x).id = id := by
  rcases hw with ⟨free, h⟩
  exact h.index id x hfind

theorem front_eq (hw : b.WellFormed) (s : Side) (p : Price) :
    (b.level? ⟨s, p⟩).bind PriceLevel.front =
        (slotsAt b.mem (b.restingSlots s) p).head? ∧
      (b.level? ⟨s, p⟩).isSome =
        decide (slotsAt b.mem (b.restingSlots s) p ≠ []) := by
  rcases hw with ⟨free, h⟩
  have hat := h.levels s p
  show ((b.levels s).find? p).bind PriceLevel.front = _ ∧
    ((b.levels s).find? p).isSome = _
  cases hfind : (b.levels s).find? p with
  | none => simp [hat.none_nil hfind]
  | some l =>
      have hrep := hat.some_rep l hfind
      refine ⟨hrep.linked.head_eq, ?_⟩
      simp [hrep.nonempty]

theorem level_price (hw : b.WellFormed) (s : Side) (p : Price) :
    ((b.level? ⟨s, p⟩).map PriceLevel.price).getD p = p := by
  rcases hw with ⟨free, h⟩
  show (((b.levels s).find? p).map PriceLevel.price).getD p = p
  cases hfind : (b.levels s).find? p with
  | none => rfl
  | some l => exact ((h.levels s p).some_rep l hfind).price_eq

theorem bestLevel_eq (hw : b.WellFormed) (s : Side) :
    b.bestLevel s = (b.restingSlots s).head?.map (fun x => ⟨s, (b.data x).price⟩) := by
  rcases hw with ⟨free, h⟩
  unfold bestLevel
  cases hfirst : (b.levels s).first? with
  | none =>
      have hnone := ((b.levels s).first?_eq_none_iff).mp hfirst
      cases hslots : b.restingSlots s with
      | nil => rfl
      | cons x rest =>
          rcases h.level_of_mem (hslots ▸ List.mem_cons_self) with ⟨l, hfind, -⟩
          rw [hnone] at hfind
          cases hfind
  | some e =>
      rcases e with ⟨k, l⟩
      rcases SortedMap.first?_spec hfirst with ⟨hfind, hleast⟩
      have hrep := (h.levels s k).some_rep l hfind
      rcases List.exists_mem_of_ne_nil _ hrep.nonempty with ⟨y, hy⟩
      rcases Represents.mem_slotsAt.mp hy with ⟨hys, hyk⟩
      cases hslots : b.restingSlots s with
      | nil =>
          rw [hslots] at hys
          cases hys
      | cons x rest =>
          rcases h.level_of_mem (hslots ▸ List.mem_cons_self) with ⟨l', hfind', -⟩
          have hx : (b.mem x).price = k := by
            rcases hleast _ l' hfind' with heq | hbetter
            · exact heq
            · have hsorted := h.ordered s
              rw [hslots] at hsorted hys
              rcases List.mem_cons.mp hys with heq | hrest
              · exact heq ▸ hyk
              · have hnot : ¬ s.better (b.mem y).price (b.mem x).price :=
                  (List.pairwise_cons.mp hsorted).left y hrest
                rw [hyk] at hnot
                exact absurd hbetter hnot
          simp [data, hx]

theorem slotsAt_head {rest : List Slot} (hslots : b.restingSlots s = x :: rest) :
    (slotsAt b.mem (b.restingSlots s) (b.data x).price).head? = some x := by
  rw [hslots]
  unfold slotsAt
  rw [List.filter_cons_of_pos (by simp [data])]
  rfl

/-!
## Operations
-/

section Reduce

variable {qty : Quantity}

theorem reduceResting (hw : b.WellFormed) (hx : x ∈ b.restingSlots s)
    (hqty : qty <= (b.data x).quantity) :
    (b.reduceResting ⟨s, (b.data x).price⟩ x qty).WellFormed ∧
      (b.reduceResting ⟨s, (b.data x).price⟩ x qty).restingSlots = b.restingSlots := by
  rcases hw with ⟨free, h⟩
  exact (h.reduceResting hx hqty).reads

theorem data_reduceResting (b : OrderBook) (level : LevelPtr) (x y : Slot)
    (qty : Quantity) :
    (b.reduceResting level x qty).data y =
      if y = x then { b.data x with quantity := (b.data x).quantity - qty }
      else b.data y := by
  unfold data
  rw [Represents.reduceResting_mem]
  split <;> rfl

@[simp] theorem pool_reduceResting (b : OrderBook) (level : LevelPtr) (x : Slot)
    (qty : Quantity) :
    (b.reduceResting level x qty).orders = b.orders ∧
      (b.reduceResting level x qty).poolAvailable = b.poolAvailable ∧
      (b.reduceResting level x qty).pool.capacity = b.pool.capacity := by
  simp [OrderBook.reduceResting, setMem, poolAvailable, OrderPool.available]

end Reduce

section Remove

structure Without (b : OrderBook) (x : Slot) (b' : OrderBook) : Prop where
  wellFormed : b'.WellFormed
  restingSlots_eq : forall t, b'.restingSlots t = (b.restingSlots t).erase x
  data_eq : forall y, y ≠ x -> b'.data y = b.data y
  orders_eq : b'.orders = Function.update b.orders (b.data x).id none
  available_eq : b'.poolAvailable = b.poolAvailable + 1
  capacity_eq : b'.pool.capacity = b.pool.capacity

theorem removeOrder (hw : b.WellFormed) (hx : x ∈ b.restingSlots s) :
    Without b x (b.removeOrder x) := by
  rcases hw with ⟨free, h⟩
  rcases h.level_of_mem hx with ⟨l, hl, -⟩
  have hr := h.removeOrder_removed hx hl
  have hreads := (h.removeOrder hx).reads
  exact
    { wellFormed := hreads.left
      restingSlots_eq := fun t => congrFun hreads.right t
      data_eq := fun y hy => hr.data_eq hy
      orders_eq := hr.orders_eq
      available_eq := hr.freeCount_eq
      capacity_eq := hr.capacity_eq }

theorem Without.resting_eq {b' : OrderBook} (hw : b.WellFormed)
    (h : Without b x b') (t : Side) :
    b'.resting t = ((b.restingSlots t).erase x).map b.data := by
  rw [OrderBook.resting_eq, h.restingSlots_eq]
  apply List.map_congr_left
  intro y hy
  exact h.data_eq y ((hw.nodup t).mem_erase_iff.mp hy).left

theorem Without.resting_perm {b' : OrderBook} (hw : b.WellFormed) (h : Without b x b')
    (hx : x ∈ b.restingSlots s) :
    (b.resting s).Perm (b.data x :: b'.resting s) ∧
      b'.resting s.opposite = b.resting s.opposite := by
  have hother : x ∉ b.restingSlots s.opposite :=
    fun hopp => Side.opposite_ne s (hw.side_unique hopp hx)
  rw [h.resting_eq hw, h.resting_eq hw, List.erase_of_not_mem hother]
  exact ⟨(List.perm_cons_erase hx).map b.data, rfl⟩

end Remove

section Add

variable {data : Order}

/-- Everything that adding an order in slot `x` does to the readings. -/
structure With (b : OrderBook) (data : Order) (x : Slot) (b' : OrderBook) : Prop where
  fresh : forall t, x ∉ b.restingSlots t
  wellFormed : b'.WellFormed
  restingSlots_eq : b'.restingSlots =
    Represents.queued b'.mem data.side x b.restingSlots
  data_eq : forall y, b'.data y = if y = x then data.toRestingOrder else b.data y
  orders_eq : b'.orders =
    if (b.orders data.id).isSome then b.orders
    else Function.update b.orders data.id (some x)
  available_eq : b'.poolAvailable + 1 = b.poolAvailable
  capacity_eq : b'.pool.capacity = b.pool.capacity

theorem addOrder (hw : b.WellFormed) (havailable : b.poolAvailable ≠ 0)
    (data : Order) :
    exists x, (b.addOrder data).1 = some x ∧ With b data x (b.addOrder data).2 := by
  rcases hw with ⟨free, h⟩
  have hfree : b.poolAvailable = free.length := h.freeCount
  cases free with
  | nil => exact absurd hfree havailable
  | cons x rest =>
      rcases h.addOrder_added data with ⟨hslot, ha⟩
      have hreads := (h.addOrder data).reads
      refine ⟨x, hslot, ?_⟩
      exact
        { fresh := h.not_mem_of_free
          wellFormed := hreads.left
          restingSlots_eq := hreads.right
          data_eq := ha.data_eq
          orders_eq := ha.orders_eq
          available_eq := by
            show (b.addOrder data).2.pool.freeCount + 1 = _
            rw [ha.freeCount_eq]
            change b.poolAvailable - 1 + 1 = _
            omega
          capacity_eq := ha.capacity_eq }

theorem With.mem_iff {b' : OrderBook} (h : With b data x b') {t : Side} {y : Slot} :
    y ∈ b'.restingSlots t <-> (t = data.side ∧ y = x) ∨ y ∈ b.restingSlots t := by
  rw [h.restingSlots_eq]
  exact Represents.mem_queued

theorem With.mem_cases {b' : OrderBook} (h : With b data x b') {t : Side} {y : Slot}
    (hy : y ∈ b'.restingSlots t) : y = x ∨ (y ≠ x ∧ y ∈ b.restingSlots t) := by
  rcases h.mem_iff.mp hy with ⟨-, heq⟩ | hold
  · exact Or.inl heq
  · exact Or.inr ⟨fun heq => h.fresh t (heq ▸ hold), hold⟩

theorem With.data_self {b' : OrderBook} (h : With b data x b') :
    b'.data x = data.toRestingOrder := by
  rw [h.data_eq, if_pos rfl]

theorem With.data_of_ne {b' : OrderBook} (h : With b data x b') {y : Slot} (hy : y ≠ x) :
    b'.data y = b.data y := by
  rw [h.data_eq, if_neg hy]

/-- The new order stands behind every order of its side that is not worse. -/
theorem With.resting_eq {b' : OrderBook} (h : With b data x b') (t : Side) :
    b'.resting t =
      if t = data.side then
        PriorityList.insert t.better (fun o => o.price) data.toRestingOrder (b.resting t)
      else b.resting t := by
  have hkeep : (b.restingSlots t).map b'.data = b.resting t := by
    apply List.map_congr_left
    intro y hy
    exact h.data_of_ne (fun heq => h.fresh t (heq ▸ hy))
  rw [OrderBook.resting_eq, h.restingSlots_eq]
  unfold Represents.queued
  split
  · rw [← hkeep, ← h.data_self]
    exact PriorityList.map_insert rfl (fun _ _ => rfl)
  · exact hkeep

end Add

end WellFormed
end OrderBook
end MiniExchange
