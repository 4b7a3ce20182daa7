import MiniExchange.OrderBook.Representation

/-!
# The book's operations on the lists it stands for

A fill keeps both lists, removing an order deletes its slot from its side, and
adding an order inserts a slot behind every order of the same or a better price.
-/

namespace MiniExchange

open Foundation
open Foundation.IntrusiveList
open Foundation.FreeList

/-!
## One queue
-/

theorem slotsAt_congr {mem mem' : Memory} {q : List Slot} {p : Price}
    (h : forall x, x ∈ q -> (mem' x).price = (mem x).price) :
    slotsAt mem' q p = slotsAt mem q p := by
  apply List.filter_congr
  intro x hx
  rw [h x hx]

theorem slotUnits_congr {mem mem' : Memory} {xs : List Slot}
    (h : forall x, x ∈ xs -> (mem' x).quantity = (mem x).quantity) :
    slotUnits mem' xs = slotUnits mem xs := by
  unfold slotUnits
  congr 1
  apply List.map_congr_left
  intro x hx
  rw [h x hx]

theorem slotUnits_erase {mem : Memory} {xs : List Slot} {x : Slot} (hx : x ∈ xs) :
    slotUnits mem xs = (mem x).quantity.units + slotUnits mem (xs.erase x) := by
  have hperm := ((List.perm_cons_erase hx).map
    (fun y => (mem y).quantity.units)).sum_nat
  simpa [slotUnits] using hperm

namespace QueueRep

variable {mem : Memory} {p : Price} {l : PriceLevel} {xs : List Slot} {x : Slot}

theorem congr {mem' : Memory} (h : QueueRep mem p l xs)
    (hprev : forall x, x ∈ xs -> (mem' x).prev = (mem x).prev)
    (hnext : forall x, x ∈ xs -> (mem' x).next = (mem x).next)
    (hqty : forall x, x ∈ xs -> (mem' x).quantity = (mem x).quantity) :
    QueueRep mem' p l xs where
  price_eq := h.price_eq
  linked := h.linked.congr hprev hnext
  total := by rw [slotUnits_congr hqty, h.total]

theorem congr_mem {mem' : Memory} (h : QueueRep mem p l xs)
    (hmem : forall x, x ∈ xs -> mem' x = mem x) : QueueRep mem' p l xs := by
  apply h.congr
  · intro x hx
    rw [hmem x hx]
  · intro x hx
    rw [hmem x hx]
  · intro x hx
    rw [hmem x hx]

theorem new : QueueRep mem p (PriceLevel.new p) [] where
  price_eq := rfl
  linked := ⟨rfl, rfl, trivial⟩
  total := rfl

theorem reduce {qty : Quantity} (h : QueueRep mem p l xs) (hnodup : xs.Nodup)
    (hx : x ∈ xs) (hqty : qty <= (mem x).quantity) :
    QueueRep (mem.modify x (fun o => { o with quantity := o.quantity - qty }))
      p (l.reduceQuantity qty) xs where
  price_eq := h.price_eq
  linked := by
    apply h.linked.congr
    · intro y _
      rw [Memory.modify_apply]
      split
      · next heq => rw [heq]
      · rfl
    · intro y _
      rw [Memory.modify_apply]
      split
      · next heq => rw [heq]
      · rfl
  total := by
    have htotal := h.total
    rw [slotUnits_erase hx] at htotal
    rw [slotUnits_erase hx]
    have hrest : slotUnits
          (mem.modify x (fun o => { o with quantity := o.quantity - qty })) (xs.erase x) =
        slotUnits mem (xs.erase x) := by
      apply slotUnits_congr
      intro y hy
      rw [Memory.modify_apply, if_neg]
      intro heq
      exact hnodup.not_mem_erase (heq ▸ hy)
    have hle : qty.units <= (mem x).quantity.units := hqty
    rw [hrest, Memory.modify_apply, if_pos rfl, Quantity.units_sub_of_le hqty]
    show (l.totalQty - qty).units = _
    rw [Quantity.units_sub_mod htotal (by omega)]
    congr 1
    omega

theorem pushBack {self : LevelPtr} (h : QueueRep mem p l xs) (hnodup : xs.Nodup)
    (hx : x ∉ xs) :
    QueueRep (l.pushBack self x mem).2 p (l.pushBack self x mem).1 (xs ++ [x]) where
  price_eq := by rw [PriceLevel.pushBack_price, h.price_eq]
  linked := by
    have hends := PriceLevel.pushBack_ends l self x mem
    have hhead : (if l.tail = none then some x else l.head) = l.head.or (some x) := by
      rw [h.linked.head_eq, h.linked.tail_eq]
      cases xs with
      | nil => rfl
      | cons y ys => simp [List.getLast?_cons]
    rw [hends.left, hends.right, hhead]
    have htailMem : forall y, l.tail = some y -> y ∈ xs := by
      intro y hy
      rw [h.linked.tail_eq] at hy
      exact List.mem_of_getLast? hy
    apply h.linked.pushBack hnodup
    · simp [PriceLevel.pushBack_prev]
    · have hself : l.tail ≠ some x := fun heq => hx (htailMem x heq)
      simp [PriceLevel.pushBack_next, hself]
    · intro y hy
      simp [PriceLevel.pushBack_next, hy]
    · intro y hy
      have hne : y ≠ x := fun heq => hx (heq ▸ hy)
      simp [PriceLevel.pushBack_prev, hne]
    · intro y hy hlast
      have hne : y ≠ x := fun heq => hx (heq ▸ hy)
      simp [PriceLevel.pushBack_next, hne, hlast]
  total := by
    have hunits : slotUnits (l.pushBack self x mem).2 (xs ++ [x]) =
        slotUnits mem xs + (mem x).quantity.units := by
      have hkeep : slotUnits (l.pushBack self x mem).2 (xs ++ [x]) =
          slotUnits mem (xs ++ [x]) :=
        slotUnits_congr (fun y _ => by rw [PriceLevel.pushBack_data])
      rw [hkeep]
      simp [slotUnits]
    rw [hunits, PriceLevel.pushBack_totalQty]
    exact Quantity.units_add_mod h.total

theorem remove (h : QueueRep mem p l xs) (hnodup : xs.Nodup) (hx : x ∈ xs) :
    QueueRep (l.remove x mem).2 p (l.remove x mem).1 (xs.erase x) where
  price_eq := by rw [PriceLevel.remove_price, h.price_eq]
  linked := by
    rcases List.append_of_mem hx with ⟨front, back, rfl⟩
    have hxfront : x ∉ front := by
      intro hmem
      exact (List.nodup_append.mp hnodup).right.right x hmem x List.mem_cons_self rfl
    have herase : (front ++ x :: back).erase x = front ++ back := by
      rw [List.erase_append_right _ hxfront, List.erase_cons_head]
    have hne : forall y, y ∈ front ++ back -> y ≠ x := by
      intro y hy heq
      rw [← herase, heq] at hy
      exact hnodup.not_mem_erase hy
    have hneighbours := h.linked.neighbours
    have hends := PriceLevel.remove_ends l x mem
    rw [herase, hends.left, hends.right]
    apply h.linked.unlink hnodup
    · intro y hy
      have hmem : y ∈ front := List.mem_of_getLast? (hneighbours.left.symm.trans hy)
      rw [PriceLevel.remove_next l x mem (hne y (List.mem_append_left _ hmem)), if_pos hy]
    · intro y hy
      have hmem : y ∈ back := List.mem_of_head? (hneighbours.right.symm.trans hy)
      rw [PriceLevel.remove_prev l x mem (hne y (List.mem_append_right _ hmem)), if_pos hy]
    · intro y hy hother
      rw [PriceLevel.remove_prev l x mem (hne y hy), if_neg hother]
    · intro y hy hother
      rw [PriceLevel.remove_next l x mem (hne y hy), if_neg hother]
  total := by
    have htotal := h.total
    rw [slotUnits_erase hx] at htotal
    have hkeep : slotUnits (l.remove x mem).2 (xs.erase x) = slotUnits mem (xs.erase x) :=
      slotUnits_congr (fun y _ => by rw [PriceLevel.remove_data])
    rw [hkeep, PriceLevel.remove_totalQty, Quantity.units_sub_mod htotal (by omega)]
    congr 1
    omega

theorem remove_frame (h : QueueRep mem p l xs) (hx : x ∈ xs) {y : Slot}
    (hy : y ∉ xs) :
    ((l.remove x mem).2 y).prev = (mem y).prev ∧
      ((l.remove x mem).2 y).next = (mem y).next := by
  rcases List.append_of_mem hx with ⟨front, back, rfl⟩
  have hne : y ≠ x := fun heq => hy (heq ▸ hx)
  have hneighbours := h.linked.neighbours
  rw [PriceLevel.remove_prev l x mem hne, PriceLevel.remove_next l x mem hne,
    if_neg, if_neg]
  · exact ⟨rfl, rfl⟩
  · intro heq
    exact hy (List.mem_append_left _
      (List.mem_of_getLast? (hneighbours.left.symm.trans heq)))
  · intro heq
    exact hy (List.mem_append_right _ (List.mem_cons_of_mem _
      (List.mem_of_head? (hneighbours.right.symm.trans heq))))

theorem isEmpty_iff (h : QueueRep mem p l xs) : l.isEmpty = true <-> xs = [] := by
  unfold PriceLevel.isEmpty
  rw [h.linked.head_eq]
  cases xs <;> simp

end QueueRep

namespace Represents

variable {b : OrderBook} {q : Side -> List Slot} {free : List Slot}

theorem levelAt_frame (h : Represents b q free) {b' : OrderBook}
    {q' : Side -> List Slot} {s t : Side} {p r : Price} (hother : ¬ (t = s ∧ r = p))
    (hfind : (b'.levels t).find? r = (b.levels t).find? r)
    (hslots : slotsAt b'.mem (q' t) r = slotsAt b.mem (q t) r)
    (hkeep : forall y, y ∈ q t -> y ∉ slotsAt b.mem (q s) p ->
      (b'.mem y).prev = (b.mem y).prev ∧ (b'.mem y).next = (b.mem y).next ∧
        (b'.mem y).quantity = (b.mem y).quantity) :
    LevelAt b' t (q' t) r := by
  have houtside : forall y, y ∈ slotsAt b.mem (q t) r -> y ∈ q t ∧
      y ∉ slotsAt b.mem (q s) p := by
    intro y hy
    rcases mem_slotsAt.mp hy with ⟨hyt, hyr⟩
    refine ⟨hyt, ?_⟩
    intro hyp
    rcases mem_slotsAt.mp hyp with ⟨hys, hyp⟩
    exact hother ⟨h.side_unique hyt hys, hyr.symm.trans hyp⟩
  have hat := h.levels t r
  constructor
  · intro hnone
    rw [hslots]
    exact hat.none_nil (hfind.symm.trans hnone)
  · intro l hsome
    have hrep := hat.some_rep l (hfind.symm.trans hsome)
    rw [hslots]
    refine ⟨hrep.toQueueRep.congr ?_ ?_ ?_, hrep.nonempty⟩
    · intro y hy
      exact (hkeep y (houtside y hy).left (houtside y hy).right).left
    · intro y hy
      exact (hkeep y (houtside y hy).left (houtside y hy).right).right.left
    · intro y hy
      exact (hkeep y (houtside y hy).left (houtside y hy).right).right.right

/-!
## Fills
-/

section Reduce

variable {s : Side} {x : Slot} {qty : Quantity}

theorem reduceResting_mem (level : LevelPtr) (y : Slot) :
    (b.reduceResting level x qty).mem y =
      if y = x then { b.mem x with quantity := (b.mem x).quantity - qty }
      else b.mem y := by
  simp [OrderBook.reduceResting, Memory.modify_apply]

theorem reduceResting_frame (level : LevelPtr) (y : Slot) :
    { (b.reduceResting level x qty).mem y with quantity := (b.mem y).quantity } =
      b.mem y := by
  rw [reduceResting_mem]
  split
  · next heq => rw [heq]
  · rfl

theorem reduceResting_price (level : LevelPtr) (y : Slot) :
    ((b.reduceResting level x qty).mem y).price = (b.mem y).price :=
  congrArg (fun o => o.price) (reduceResting_frame level y)

theorem levels_reduceResting (h : Represents b q free) (hx : x ∈ q s)
    (hqty : qty <= (b.mem x).quantity) (t : Side) (r : Price) :
    LevelAt (b.reduceResting ⟨s, (b.mem x).price⟩ x qty) t (q t) r := by
  have hxat : x ∈ slotsAt b.mem (q s) (b.mem x).price := mem_slotsAt.mpr ⟨hx, rfl⟩
  have hat : slotsAt (b.reduceResting ⟨s, (b.mem x).price⟩ x qty).mem (q t) r =
      slotsAt b.mem (q t) r :=
    slotsAt_congr (fun y _ => reduceResting_price _ y)
  have hfind : ((b.reduceResting ⟨s, (b.mem x).price⟩ x qty).levels t).find? r =
      if t = s ∧ r = (b.mem x).price then
        ((b.levels t).find? r).map (fun l => l.reduceQuantity qty)
      else (b.levels t).find? r := by
    unfold OrderBook.reduceResting
    rw [OrderBook.find?_modifyLevel]
    simp
  by_cases hother : t = s ∧ r = (b.mem x).price
  · rcases hother with ⟨rfl, rfl⟩
    rcases h.level_of_mem hx with ⟨l, hl, hrep⟩
    rw [if_pos ⟨rfl, rfl⟩, hl] at hfind
    constructor
    · intro hnone
      rw [hfind] at hnone
      cases hnone
    · intro l' hsome
      rw [hfind] at hsome
      cases hsome
      rw [hat]
      refine ⟨?_, hrep.nonempty⟩
      simpa [OrderBook.reduceResting] using
        hrep.toQueueRep.reduce (h.slotsAt_nodup t _) hxat hqty
  · apply h.levelAt_frame hother
    · rw [hfind, if_neg hother]
    · exact hat
    · intro y _ hy
      have hne : y ≠ x := fun heq => hy (heq ▸ hxat)
      rw [reduceResting_mem, if_neg hne]
      exact ⟨rfl, rfl, rfl⟩

theorem reduceResting (h : Represents b q free) (hx : x ∈ q s)
    (hqty : qty <= (b.mem x).quantity) :
    Represents (b.reduceResting ⟨s, (b.mem x).price⟩ x qty) q free := by
  have hframe : forall y,
      { (b.reduceResting ⟨s, (b.mem x).price⟩ x qty).mem y with
        quantity := (b.mem y).quantity } = b.mem y :=
    reduceResting_frame ⟨s, (b.mem x).price⟩
  have hid : forall y,
      ((b.reduceResting ⟨s, (b.mem x).price⟩ x qty).mem y).id = (b.mem y).id :=
    fun y => congrArg (fun o => o.id) (hframe y)
  have hpool : (b.reduceResting ⟨s, (b.mem x).price⟩ x qty).pool.Divided free
      (q .buy ++ q .sell) := by
    apply h.divided.congr
    · simp [OrderBook.reduceResting, OrderBook.setMem]
    · simp [OrderBook.reduceResting, OrderBook.setMem]
    · simp [OrderBook.reduceResting, OrderBook.setMem]
    · intro y _
      exact congrArg (fun id => id.value.toNat) (hid y)
  constructor
  case levels => exact h.levels_reduceResting hx hqty
  case side_eq =>
    intro t y hy
    have hside := congrArg (fun o => o.side) (hframe y)
    exact hside.trans (h.side_eq t y hy)
  case level_eq =>
    intro t y hy
    have hlevel := congrArg (fun o => o.level) (hframe y)
    rw [reduceResting_price]
    exact hlevel.trans (h.level_eq t y hy)
  case ordered =>
    intro t
    exact (h.ordered t).congr (fun y _ => reduceResting_price _ y)
  case slots => exact hpool.slots
  case chain => exact hpool.chain
  case freeCount => exact hpool.freeCount
  case capacity_lt => exact hpool.capacity_lt
  case orderCount =>
    simpa [OrderBook.reduceResting, OrderBook.setMem] using h.orderCount
  case index =>
    intro id y hy
    have horders : b.orders id = some y := by
      simpa [OrderBook.reduceResting, OrderBook.setMem] using hy
    rcases h.index id y horders with ⟨hresting, hyid⟩
    exact ⟨hresting, (hid y).trans hyid⟩

end Reduce

/-!
## Removals
-/

section Remove

variable {s : Side} {x : Slot} {l : PriceLevel}

structure Removed (b : OrderBook) (s : Side) (x : Slot) (l : PriceLevel)
    (b' : OrderBook) : Prop where
  mem_eq : forall y, y ≠ x -> b'.mem y = (l.remove x b.mem).2 y
  nextFree_eq : b'.pool.nextFree x = b.pool.freeListHead
  capacity_eq : b'.pool.capacity = b.pool.capacity
  head_eq : b'.pool.freeListHead = x
  freeCount_eq : b'.pool.freeCount = b.pool.freeCount + 1
  orders_eq : b'.orders = Function.update b.orders (b.mem x).id none
  orderCount_eq : b'.orderCount = b.orderCount - 1
  find?_eq : forall t r, (b'.levels t).find? r =
    if t = s ∧ r = (b.mem x).price then
      if (l.remove x b.mem).1.isEmpty then none else some (l.remove x b.mem).1
    else (b.levels t).find? r

theorem removeOrder_removed (h : Represents b q free) (hx : x ∈ q s)
    (hl : (b.levels s).find? (b.mem x).price = some l) :
    Removed b s x l (b.removeOrder x) := by
  have hhead : b.pool.freeListHead < 2 ^ 64 :=
    Nat.lt_of_le_of_lt h.divided.head_le h.capacity_lt
  unfold OrderBook.removeOrder
  rw [h.level_eq s x hx, h.side_eq s x hx]
  simp only [OrderBook.level?, hl]
  constructor
  case find?_eq =>
    intro t r
    have hfind := OrderBook.find?_putLevel (b.setMem (l.remove x b.mem).2) s
      (b.mem x).price (l.remove x b.mem).1 (by simpa using hl) t r
    rw [OrderBook.levels_setMem] at hfind
    rw [← hfind]
    cases t <;> rfl
  case mem_eq =>
    intro y hy
    simp [OrderBook.mem, OrderPool.release, OrderPool.setNextFree, OrderBook.setMem,
      Memory.modify_apply, hy]
  case nextFree_eq =>
    simp [OrderBook.mem, OrderPool.release, OrderPool.setNextFree, OrderBook.setMem,
      Memory.modify_apply, OrderPool.nextFree, UInt64.toNat_ofNat_of_lt' hhead]
  case orders_eq =>
    simp [OrderBook.mem, OrderBook.setMem, PriceLevel.remove_data]
  all_goals simp [OrderPool.release, OrderPool.setNextFree, OrderBook.setMem]

namespace Removed

variable {b' : OrderBook}

theorem data_eq (hr : Removed b s x l b') {y : Slot} (hy : y ≠ x) :
    (b'.mem y).toRestingOrder = (b.mem y).toRestingOrder := by
  rw [hr.mem_eq y hy, PriceLevel.remove_data]

theorem nextFree_of_ne (hr : Removed b s x l b') {y : Slot} (hy : y ≠ x) :
    b'.pool.nextFree y = b.pool.nextFree y :=
  congrArg (fun o : RestingOrder => o.id.value.toNat) (hr.data_eq hy)

end Removed

theorem mem_erase_iff (h : Represents b q free) {t : Side} {y : Slot} :
    y ∈ (q t).erase x <-> y ≠ x ∧ y ∈ q t :=
  (h.nodup_side t).mem_erase_iff

theorem sides_erase (h : Represents b q free) (hx : x ∈ q s) :
    (q .buy).erase x ++ (q .sell).erase x = (q .buy ++ q .sell).erase x := by
  cases s with
  | buy =>
      have hnot : x ∉ q .sell := fun hmem => nomatch h.side_unique hx hmem
      rw [List.erase_append_left _ hx, List.erase_of_not_mem hnot]
  | sell =>
      have hnot : x ∉ q .buy := fun hmem => nomatch h.side_unique hx hmem
      rw [List.erase_append_right _ hnot, List.erase_of_not_mem hnot]

theorem length_erase (h : Represents b q free) (hx : x ∈ q s) :
    ((q .buy).erase x).length + ((q .sell).erase x).length + 1 =
      (q .buy).length + (q .sell).length := by
  rw [← List.length_append, h.sides_erase hx, List.length_erase_add_one (mem_sides hx),
    List.length_append]

section Erase

variable {b' : OrderBook}

theorem slotsAt_erase (h : Represents b q free) (hr : Removed b s x l b') (t : Side)
    (r : Price) : slotsAt b'.mem ((q t).erase x) r = (slotsAt b.mem (q t) r).erase x := by
  unfold slotsAt
  rw [List.erase_filter]
  exact slotsAt_congr
    (fun y hy => congrArg (fun o => o.price) (hr.data_eq (h.mem_erase_iff.mp hy).left))

/-- The level of the removed order is erased exactly if its queue is now empty. -/
theorem level_erase (h : Represents b q free) (hx : x ∈ q s) (hr : Removed b s x l b')
    (hrep : LevelRep b.mem (b.mem x).price l (slotsAt b.mem (q s) (b.mem x).price)) :
    LevelAt b' s ((q s).erase x) (b.mem x).price := by
  have hqueue := hrep.toQueueRep.remove (h.slotsAt_nodup s _) (mem_slotsAt.mpr ⟨hx, rfl⟩)
  have hfind := hr.find?_eq s (b.mem x).price
  rw [if_pos ⟨rfl, rfl⟩] at hfind
  constructor
  · intro hnone
    rw [hfind] at hnone
    rw [h.slotsAt_erase hr]
    split at hnone
    · next hempty => exact hqueue.isEmpty_iff.mp hempty
    · cases hnone
  · intro l' hsome
    rw [hfind] at hsome
    rw [h.slotsAt_erase hr]
    split at hsome
    · cases hsome
    · next hfull =>
        cases hsome
        refine ⟨hqueue.congr_mem ?_, fun hnil => hfull (hqueue.isEmpty_iff.mpr hnil)⟩
        intro y hy
        exact hr.mem_eq y (fun heq => (h.slotsAt_nodup s _).not_mem_erase (heq ▸ hy))

theorem levels_erase (h : Represents b q free) (hx : x ∈ q s) (hr : Removed b s x l b')
    (hrep : LevelRep b.mem (b.mem x).price l (slotsAt b.mem (q s) (b.mem x).price))
    (t : Side) (r : Price) : LevelAt b' t ((q t).erase x) r := by
  have hxat : x ∈ slotsAt b.mem (q s) (b.mem x).price := mem_slotsAt.mpr ⟨hx, rfl⟩
  by_cases hother : t = s ∧ r = (b.mem x).price
  · rcases hother with ⟨rfl, rfl⟩
    exact h.level_erase hx hr hrep
  · apply h.levelAt_frame hother
    · rw [hr.find?_eq, if_neg hother]
    · rw [h.slotsAt_erase hr]
      apply List.erase_of_not_mem
      intro hmem
      rcases mem_slotsAt.mp hmem with ⟨hxt, hxr⟩
      exact hother ⟨h.side_unique hxt hx, hxr.symm⟩
    · intro y _ hy
      have hyx : y ≠ x := fun heq => hy (heq ▸ hxat)
      have hframe := hrep.toQueueRep.remove_frame hxat hy
      rw [hr.mem_eq y hyx, PriceLevel.remove_data]
      exact ⟨hframe.left, hframe.right, rfl⟩

theorem index_erase (h : Represents b q free) (hr : Removed b s x l b') {id : OrderId}
    {y : Slot} (hy : b'.orders id = some y) :
    (exists t, y ∈ (q t).erase x) ∧ (b'.mem y).id = id := by
  rw [hr.orders_eq] at hy
  by_cases hid : id = (b.mem x).id
  · rw [hid, Function.update_self] at hy
    cases hy
  · rw [Function.update_of_ne hid] at hy
    rcases h.index id y hy with ⟨⟨t, hyt⟩, hyid⟩
    have hyx : y ≠ x := fun heq => hid (heq ▸ hyid.symm)
    refine ⟨⟨t, h.mem_erase_iff.mpr ⟨hyx, hyt⟩⟩, ?_⟩
    rw [hr.data_eq hyx, hyid]

end Erase

theorem removeOrder (h : Represents b q free) (hx : x ∈ q s) :
    Represents (b.removeOrder x) (fun t => (q t).erase x) (x :: free) := by
  rcases h.level_of_mem hx with ⟨l, hl, hrep⟩
  have hr := h.removeOrder_removed hx hl
  have hne : forall t y, y ∈ (q t).erase x -> y ≠ x ∧ y ∈ q t :=
    fun t y hy => h.mem_erase_iff.mp hy
  have hpool : (b.removeOrder x).pool.Divided (x :: free)
      ((q .buy).erase x ++ (q .sell).erase x) := by
    rw [h.sides_erase hx]
    exact h.divided.push (mem_sides hx) hr.capacity_eq hr.head_eq hr.freeCount_eq hr.nextFree_eq
      fun _ hy => hr.nextFree_of_ne hy
  constructor
  case levels => exact h.levels_erase hx hr hrep
  case side_eq =>
    intro t y hy
    rw [hr.data_eq (hne t y hy).left, h.side_eq t y (hne t y hy).right]
  case level_eq =>
    intro t y hy
    rw [hr.data_eq (hne t y hy).left, hr.mem_eq y (hne t y hy).left,
      PriceLevel.remove_level l x b.mem (hne t y hy).left, h.level_eq t y (hne t y hy).right]
  case ordered =>
    intro t
    apply ((h.ordered t).sublist List.erase_sublist).congr
    intro y hy
    exact congrArg (fun o => o.price) (hr.data_eq (hne t y hy).left)
  case slots => exact hpool.slots
  case chain => exact hpool.chain
  case freeCount => exact hpool.freeCount
  case capacity_lt => exact hpool.capacity_lt
  case orderCount =>
    have hlen := h.length_erase hx
    rw [hr.orderCount_eq, h.orderCount]
    omega
  case index =>
    intro id y hy
    exact h.index_erase hr hy

end Remove

/-!
## Additions
-/

section Add

variable {data : Order} {x : Slot} {rest : List Slot}

def joined (b : OrderBook) (data : Order) : PriceLevel :=
  ((b.levels data.side).find? data.price).getD (PriceLevel.new data.price)

def pushed (b : OrderBook) (data : Order) (x : Slot) : PriceLevel × Memory :=
  (joined b data).pushBack ⟨data.side, data.price⟩ x (b.mem.write x data)

/-- What adding an order in the slot `x` leaves in the book. -/
structure Added (b : OrderBook) (data : Order) (x : Slot) (b' : OrderBook) : Prop where
  mem_eq : b'.mem = (pushed b data x).2
  capacity_eq : b'.pool.capacity = b.pool.capacity
  head_eq : b'.pool.freeListHead = b.pool.nextFree x
  freeCount_eq : b'.pool.freeCount = b.pool.freeCount - 1
  orders_eq : b'.orders =
    if (b.orders data.id).isSome then b.orders
    else Function.update b.orders data.id (some x)
  orderCount_eq : b'.orderCount = b.orderCount + 1
  find?_eq : forall t r, (b'.levels t).find? r =
    if t = data.side ∧ r = data.price then some (pushed b data x).1
    else (b.levels t).find? r

theorem acquire_eq (h : Represents b q (x :: rest)) :
    b.pool.freeListHead = x ∧ b.pool.freeListHead ≠ b.pool.capacity := by
  rcases h.chain with ⟨hhead, hne, -⟩
  exact ⟨hhead, hhead ▸ hne⟩

theorem addOrder_added (h : Represents b q (x :: rest)) (data : Order) :
    (b.addOrder data).1 = some x ∧ Added b data x (b.addOrder data).2 := by
  rcases h.acquire_eq with ⟨hhead, hne⟩
  have hself : b.pool.storage.write x data x = data := by
    rw [Memory.write_apply, if_pos rfl]
  unfold OrderBook.addOrder OrderPool.acquire
  rw [if_neg hne]
  dsimp only
  rw [hhead, hself]
  refine ⟨rfl, ?_⟩
  constructor
  case find?_eq =>
    intro t r
    rw [OrderBook.find?_insertLevel, OrderBook.levels_setMem]
    cases t <;> rfl
  all_goals simp [OrderBook.insertLevel, OrderBook.setMem, OrderBook.mem, pushed, joined]

namespace Added

variable {b' : OrderBook}

theorem data_eq (ha : Added b data x b') (y : Slot) :
    (b'.mem y).toRestingOrder =
      if y = x then data.toRestingOrder else (b.mem y).toRestingOrder := by
  rw [ha.mem_eq, pushed, PriceLevel.pushBack_data, Memory.write_apply]
  split <;> rfl

theorem data_of_ne (ha : Added b data x b') {y : Slot} (hy : y ≠ x) :
    (b'.mem y).toRestingOrder = (b.mem y).toRestingOrder := by
  rw [ha.data_eq, if_neg hy]

theorem price_self (ha : Added b data x b') : (b'.mem x).price = data.price := by
  rw [ha.data_eq, if_pos rfl]

theorem level_eq (ha : Added b data x b') (y : Slot) :
    (b'.mem y).level =
      if y = x then some ⟨data.side, data.price⟩ else (b.mem y).level := by
  rw [ha.mem_eq, pushed, PriceLevel.pushBack_level, Memory.write_apply]
  split <;> rfl

end Added

def queued (mem : Memory) (s : Side) (x : Slot) (q : Side -> List Slot) :
    Side -> List Slot :=
  fun t =>
    if t = s then PriorityList.insert t.better (fun y => (mem y).price) x (q t)
    else q t

theorem mem_queued {mem : Memory} {s t : Side} {y : Slot} :
    y ∈ queued mem s x q t <-> (t = s ∧ y = x) ∨ y ∈ q t := by
  unfold queued
  split
  · next heq => simp [PriorityList.mem_insert, heq]
  · next hne => simp [hne]

theorem not_mem_of_free (h : Represents b q (x :: rest)) (s : Side) : x ∉ q s :=
  fun hmem => h.not_free hmem List.mem_cons_self

theorem ne_of_mem (h : Represents b q (x :: rest)) {s : Side} {y : Slot}
    (hy : y ∈ q s) : y ≠ x :=
  fun heq => h.not_mem_of_free s (heq ▸ hy)

section Queued

variable {b' : OrderBook}

theorem ordered_added (h : Represents b q (x :: rest)) (ha : Added b data x b')
    (s : Side) :
    PriorityList.Sorted s.better (fun y => (b'.mem y).price) (q s) :=
  (h.ordered s).congr
    (fun _ hy => congrArg (fun o => o.price) (ha.data_of_ne (h.ne_of_mem hy)))

theorem slotsAt_added (h : Represents b q (x :: rest)) (ha : Added b data x b')
    (s : Side) (r : Price) :
    slotsAt b'.mem (q s) r = slotsAt b.mem (q s) r :=
  slotsAt_congr
    (fun _ hy => congrArg (fun o => o.price) (ha.data_of_ne (h.ne_of_mem hy)))

theorem slotsAt_queued_self (h : Represents b q (x :: rest)) (ha : Added b data x b') :
    slotsAt b'.mem (queued b'.mem data.side x q data.side) data.price =
      slotsAt b.mem (q data.side) data.price ++ [x] := by
  have hinsert := PriorityList.filter_insert_self (x := x) (h.ordered_added ha data.side)
  rw [ha.price_self] at hinsert
  rw [queued, if_pos rfl, ← h.slotsAt_added ha]
  exact hinsert

theorem slotsAt_queued_of_ne (h : Represents b q (x :: rest)) (ha : Added b data x b')
    {t : Side} {r : Price} (hother : ¬ (t = data.side ∧ r = data.price)) :
    slotsAt b'.mem (queued b'.mem data.side x q t) r = slotsAt b.mem (q t) r := by
  rw [← h.slotsAt_added ha]
  unfold queued
  split
  · next heq =>
      apply PriorityList.filter_insert_ne
      rw [ha.price_self]
      exact fun hr => hother ⟨heq, hr.symm⟩
  · rfl

theorem perm_queued (mem : Memory) (s : Side) :
    (queued mem s x q .buy ++ queued mem s x q .sell).Perm
      (x :: (q .buy ++ q .sell)) := by
  cases s with
  | buy => exact (PriorityList.perm_insert _ x (q .buy)).append_right _
  | sell =>
      exact ((PriorityList.perm_insert _ x (q .sell)).append_left _).trans
        List.perm_middle

theorem joined_rep (h : Represents b q (x :: rest)) (data : Order) :
    QueueRep (b.mem.write x data) data.price (joined b data)
      (slotsAt b.mem (q data.side) data.price) := by
  have hat := h.levels data.side data.price
  unfold joined
  cases hfind : (b.levels data.side).find? data.price with
  | none =>
      rw [hat.none_nil hfind]
      exact QueueRep.new
  | some l =>
      apply (hat.some_rep l hfind).toQueueRep.congr_mem
      intro y hy
      rw [Memory.write_apply, if_neg (h.ne_of_mem (mem_slotsAt.mp hy).left)]

theorem levels_queued (h : Represents b q (x :: rest)) (ha : Added b data x b')
    (t : Side) (r : Price) : LevelAt b' t (queued b'.mem data.side x q t) r := by
  have hqueue := h.joined_rep data
  by_cases hother : t = data.side ∧ r = data.price
  · rcases hother with ⟨rfl, rfl⟩
    have hxat : x ∉ slotsAt b.mem (q data.side) data.price :=
      fun hmem => h.not_mem_of_free data.side (mem_slotsAt.mp hmem).left
    have hfind := ha.find?_eq data.side data.price
    rw [if_pos ⟨rfl, rfl⟩] at hfind
    constructor
    · intro hnone
      rw [hfind] at hnone
      cases hnone
    · intro l hsome
      rw [hfind] at hsome
      cases hsome
      rw [h.slotsAt_queued_self ha, ha.mem_eq]
      exact ⟨hqueue.pushBack (h.slotsAt_nodup _ _) hxat, by simp⟩
  · apply h.levelAt_frame hother
    · rw [ha.find?_eq, if_neg hother]
    · exact h.slotsAt_queued_of_ne ha hother
    · intro y hyt hy
      have hyx := h.ne_of_mem hyt
      have htail : (joined b data).tail ≠ some y := by
        intro heq
        rw [hqueue.linked.tail_eq] at heq
        exact hy (List.mem_of_getLast? heq)
      rw [ha.data_of_ne hyx, ha.mem_eq, pushed, PriceLevel.pushBack_prev,
        PriceLevel.pushBack_next, Memory.write_apply]
      simp [hyx, htail]

theorem index_queued (h : Represents b q (x :: rest)) (ha : Added b data x b')
    {id : OrderId} {y : Slot} (hy : b'.orders id = some y) :
    (exists t, y ∈ queued b'.mem data.side x q t) ∧ (b'.mem y).id = id := by
  rw [ha.orders_eq] at hy
  by_cases hnew : ¬ (b.orders data.id).isSome ∧ id = data.id
  · rw [if_neg hnew.left, hnew.right, Function.update_self] at hy
    cases hy
    refine ⟨⟨data.side, mem_queued.mpr (Or.inl ⟨rfl, rfl⟩)⟩, ?_⟩
    rw [ha.data_eq, if_pos rfl, hnew.right]
  · have hkept : b.orders id = some y := by
      split at hy
      · exact hy
      · next hnone =>
          have hid : id ≠ data.id := fun heq => hnew ⟨hnone, heq⟩
          rwa [Function.update_of_ne hid] at hy
    rcases h.index id y hkept with ⟨⟨t, hyt⟩, hid⟩
    refine ⟨⟨t, mem_queued.mpr (Or.inr hyt)⟩, ?_⟩
    rw [ha.data_of_ne (h.ne_of_mem hyt), hid]

end Queued

theorem addOrder (h : Represents b q (x :: rest)) (data : Order) :
    Represents (b.addOrder data).2
      (queued (b.addOrder data).2.mem data.side x q) rest := by
  have ha := (h.addOrder_added data).right
  have hpool : (b.addOrder data).2.pool.Divided rest
      (queued (b.addOrder data).2.mem data.side x q .buy ++
        queued (b.addOrder data).2.mem data.side x q .sell) := by
    refine (h.divided.pop ha.capacity_eq ha.head_eq ha.freeCount_eq ?_).perm (perm_queued _ _)
    intro y hy
    exact congrArg (fun o : RestingOrder => o.id.value.toNat) (ha.data_of_ne hy)
  constructor
  case levels => exact h.levels_queued ha
  case side_eq =>
    intro t y hy
    rw [ha.data_eq]
    rcases mem_queued.mp hy with ⟨ht, hyx⟩ | hyt
    · rw [if_pos hyx, ht]
    · rw [if_neg (h.ne_of_mem hyt), h.side_eq t y hyt]
  case level_eq =>
    intro t y hy
    rw [ha.level_eq, ha.data_eq]
    rcases mem_queued.mp hy with ⟨ht, hyx⟩ | hyt
    · rw [if_pos hyx, if_pos hyx, ht]
    · rw [if_neg (h.ne_of_mem hyt), if_neg (h.ne_of_mem hyt), h.level_eq t y hyt]
  case ordered =>
    intro t
    unfold queued
    split
    · exact PriorityList.sorted_insert (h.ordered_added ha t)
    · exact h.ordered_added ha t
  case slots => exact hpool.slots
  case chain => exact hpool.chain
  case freeCount => exact hpool.freeCount
  case capacity_lt => exact hpool.capacity_lt
  case orderCount =>
    have hlen := (perm_queued (q := q) (x := x) (b.addOrder data).2.mem data.side).length_eq
    simp only [List.length_append, List.length_cons] at hlen
    rw [ha.orderCount_eq, h.orderCount]
    omega
  case index =>
    intro id y hy
    exact h.index_queued ha hy

end Add

/-!
## The empty book
-/

theorem new (raw : Memory) (capacity : UInt64) :
    Represents (OrderBook.new raw capacity) (fun _ => [])
      (List.range capacity.toNat) := by
  have hpool := OrderPool.divided_new raw capacity
  constructor
  case levels =>
    intro s p
    constructor
    · intro _
      rfl
    · intro l hsome
      cases s <;> cases hsome
  case slots => exact hpool.slots
  case chain => exact hpool.chain
  case freeCount => exact hpool.freeCount
  case capacity_lt => exact hpool.capacity_lt
  case orderCount => rfl
  case ordered => exact fun _ => List.Pairwise.nil
  case side_eq => exact fun _ _ hx => nomatch hx
  case level_eq => exact fun _ _ hx => nomatch hx
  case index => exact fun _ _ hx => nomatch hx

end Represents
end MiniExchange
