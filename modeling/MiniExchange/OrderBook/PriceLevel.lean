import MiniExchange.Foundation.IntrusiveList
import MiniExchange.OrderBook.OrderPool

/-!
# Price levels

The FIFO queue of one price of `orderbook/price_level.cpp`: an intrusive doubly
linked list over the pool's slots, with a cached aggregate quantity.
-/

namespace MiniExchange

structure PriceLevel where
  price : Price
  head : Option Slot := none
  tail : Option Slot := none
  totalQty : Quantity := Quantity.zero

namespace PriceLevel

def new (price : Price) : PriceLevel where
  price := price

/-- Append an order at the back of the queue of the level at address `self`. -/
def pushBack (l : PriceLevel) (self : LevelPtr) (order : Slot)
    (mem : Memory) : PriceLevel × Memory :=
  let mem := mem.modify order (fun o => { o with level := some self })
  let mem := mem.modify order (fun o => { o with prev := l.tail, next := none })
  match l.tail with
  | some tail =>
      let mem := mem.modify tail (fun o => { o with next := some order })
      ({ l with
          tail := some order
          totalQty := l.totalQty + (mem order).quantity }, mem)
  | none =>
      ({ l with
          head := some order
          tail := some order
          totalQty := l.totalQty + (mem order).quantity }, mem)

/-- Redirect the predecessor of `order`, or the head, past it. -/
def unlinkBefore (l : PriceLevel) (order : Slot) (mem : Memory) :
    PriceLevel × Memory :=
  match (mem order).prev with
  | some p => (l, mem.modify p (fun o => { o with next := (mem order).next }))
  | none => ({ l with head := (mem order).next }, mem)

/-- Redirect the successor of `order`, or the tail, past it. -/
def unlinkAfter (l : PriceLevel) (order : Slot) (mem : Memory) :
    PriceLevel × Memory :=
  match (mem order).next with
  | some n => (l, mem.modify n (fun o => { o with prev := (mem order).prev }))
  | none => ({ l with tail := (mem order).prev }, mem)

def remove (l : PriceLevel) (order : Slot) (mem : Memory) :
    PriceLevel × Memory :=
  let before := l.unlinkBefore order mem
  let after := before.1.unlinkAfter order before.2
  ({ after.1 with totalQty := after.1.totalQty - (after.2 order).quantity },
    after.2.modify order
      (fun o => { o with prev := none, next := none, level := none }))

def front (l : PriceLevel) : Option Slot :=
  l.head

def reduceQuantity (l : PriceLevel) (qty : Quantity) : PriceLevel :=
  { l with totalQty := l.totalQty - qty }

def isEmpty (l : PriceLevel) : Bool :=
  l.head.isNone

/-- The queue from front to back, following at most `fuel` links. -/
def slots (l : PriceLevel) (mem : Memory) (fuel : Nat) : List Slot :=
  Foundation.IntrusiveList.walk (fun x => (mem x).next) fuel l.head

/-!
## What appending and unlinking write

Both operations touch only the links and level pointers, never the business
fields, and only those of the order and of its neighbours.
-/

section PushBack

variable (l : PriceLevel) (self : LevelPtr) (x : Slot) (mem : Memory)

theorem pushBack_data (y : Slot) :
    ((l.pushBack self x mem).2 y).toRestingOrder = (mem y).toRestingOrder := by
  unfold pushBack
  cases l.tail with
  | none => grind [Memory.modify_apply]
  | some t => grind [Memory.modify_apply]

theorem pushBack_level (y : Slot) :
    ((l.pushBack self x mem).2 y).level =
      if y = x then some self else (mem y).level := by
  unfold pushBack
  cases l.tail with
  | none => grind [Memory.modify_apply]
  | some t => grind [Memory.modify_apply]

theorem pushBack_prev (y : Slot) :
    ((l.pushBack self x mem).2 y).prev = if y = x then l.tail else (mem y).prev := by
  unfold pushBack
  cases l.tail with
  | none => grind [Memory.modify_apply]
  | some t => grind [Memory.modify_apply]

theorem pushBack_next (y : Slot) :
    ((l.pushBack self x mem).2 y).next =
      if l.tail = some y then some x
      else if y = x then none
      else (mem y).next := by
  unfold pushBack
  cases l.tail with
  | none => grind [Memory.modify_apply]
  | some t => grind [Memory.modify_apply]

theorem pushBack_ends :
    (l.pushBack self x mem).1.head = (if l.tail = none then some x else l.head) ∧
      (l.pushBack self x mem).1.tail = some x := by
  unfold pushBack
  cases l.tail <;> simp

theorem pushBack_price : (l.pushBack self x mem).1.price = l.price := by
  unfold pushBack
  cases l.tail <;> rfl

theorem pushBack_totalQty :
    (l.pushBack self x mem).1.totalQty = l.totalQty + (mem x).quantity := by
  have hdata := congrArg RestingOrder.quantity (pushBack_data l self x mem x)
  rw [← hdata]
  unfold pushBack
  cases l.tail <;> rfl

end PushBack

section Remove

variable (l : PriceLevel) (x : Slot) (mem : Memory)

theorem unlinkBefore_data (y : Slot) :
    ((l.unlinkBefore x mem).2 y).toRestingOrder = (mem y).toRestingOrder := by
  unfold unlinkBefore
  cases (mem x).prev with
  | none => rfl
  | some p => by_cases hy : y = p <;> simp [Memory.modify_apply, hy]

theorem unlinkAfter_data (y : Slot) :
    ((l.unlinkAfter x mem).2 y).toRestingOrder = (mem y).toRestingOrder := by
  unfold unlinkAfter
  cases (mem x).next with
  | none => rfl
  | some n => by_cases hy : y = n <;> simp [Memory.modify_apply, hy]

theorem unlinkBefore_links (y : Slot) :
    ((l.unlinkBefore x mem).2 y).prev = (mem y).prev ∧
      ((l.unlinkBefore x mem).2 y).level = (mem y).level ∧
      ((l.unlinkBefore x mem).2 y).next =
        (if (mem x).prev = some y then (mem x).next else (mem y).next) := by
  unfold unlinkBefore
  cases (mem x).prev with
  | none => simp
  | some p =>
      by_cases hy : p = y
      · simp [Memory.modify_apply, hy]
      · have hy' : ¬ y = p := fun h => hy h.symm
        simp [Memory.modify_apply, hy, hy']

theorem unlinkAfter_links (y : Slot) :
    ((l.unlinkAfter x mem).2 y).next = (mem y).next ∧
      ((l.unlinkAfter x mem).2 y).level = (mem y).level ∧
      ((l.unlinkAfter x mem).2 y).prev =
        (if (mem x).next = some y then (mem x).prev else (mem y).prev) := by
  unfold unlinkAfter
  cases (mem x).next with
  | none => simp
  | some n =>
      by_cases hy : n = y
      · simp [Memory.modify_apply, hy]
      · have hy' : ¬ y = n := fun h => hy h.symm
        simp [Memory.modify_apply, hy, hy']

theorem unlinkBefore_next_self : ((l.unlinkBefore x mem).2 x).next = (mem x).next := by
  rw [(unlinkBefore_links l x mem x).right.right]
  split <;> rfl

theorem remove_data (y : Slot) :
    ((l.remove x mem).2 y).toRestingOrder = (mem y).toRestingOrder := by
  have hafter := unlinkAfter_data (l.unlinkBefore x mem).1 x (l.unlinkBefore x mem).2 y
  rw [unlinkBefore_data] at hafter
  rw [← hafter]
  unfold remove
  by_cases hy : y = x <;> simp [Memory.modify_apply, hy]

theorem remove_level {y : Slot} (hy : y ≠ x) :
    ((l.remove x mem).2 y).level = (mem y).level := by
  have hafter := unlinkAfter_links (l.unlinkBefore x mem).1 x (l.unlinkBefore x mem).2 y
  rw [← (unlinkBefore_links l x mem y).right.left, ← hafter.right.left]
  unfold remove
  simp [Memory.modify_apply, hy]

theorem remove_next {y : Slot} (hy : y ≠ x) :
    ((l.remove x mem).2 y).next =
      if (mem x).prev = some y then (mem x).next else (mem y).next := by
  have hafter := unlinkAfter_links (l.unlinkBefore x mem).1 x (l.unlinkBefore x mem).2 y
  rw [← (unlinkBefore_links l x mem y).right.right, ← hafter.left]
  unfold remove
  simp [Memory.modify_apply, hy]

theorem remove_prev {y : Slot} (hy : y ≠ x) :
    ((l.remove x mem).2 y).prev =
      if (mem x).next = some y then (mem x).prev else (mem y).prev := by
  have hafter := unlinkAfter_links (l.unlinkBefore x mem).1 x (l.unlinkBefore x mem).2 y
  rw [unlinkBefore_next_self, (unlinkBefore_links l x mem x).left,
    (unlinkBefore_links l x mem y).left] at hafter
  rw [← hafter.right.right]
  unfold remove
  simp [Memory.modify_apply, hy]

theorem unlinkBefore_level :
    (l.unlinkBefore x mem).1 =
      if (mem x).prev = none then { l with head := (mem x).next } else l := by
  unfold unlinkBefore
  cases (mem x).prev <;> rfl

theorem unlinkAfter_level :
    (l.unlinkAfter x mem).1 =
      if (mem x).next = none then { l with tail := (mem x).prev } else l := by
  unfold unlinkAfter
  cases (mem x).next <;> rfl

theorem remove_ends :
    (l.remove x mem).1.head = (if (mem x).prev = none then (mem x).next else l.head) ∧
      (l.remove x mem).1.tail =
        (if (mem x).next = none then (mem x).prev else l.tail) := by
  have hlevel := unlinkAfter_level (l.unlinkBefore x mem).1 x (l.unlinkBefore x mem).2
  rw [unlinkBefore_next_self, (unlinkBefore_links l x mem x).left,
    unlinkBefore_level] at hlevel
  have hends : (l.remove x mem).1.head =
        ((l.unlinkBefore x mem).1.unlinkAfter x (l.unlinkBefore x mem).2).1.head ∧
      (l.remove x mem).1.tail =
        ((l.unlinkBefore x mem).1.unlinkAfter x (l.unlinkBefore x mem).2).1.tail :=
    ⟨rfl, rfl⟩
  rw [hends.left, hends.right, unlinkBefore_level, hlevel]
  constructor <;> split <;> split <;> rfl

theorem remove_price : (l.remove x mem).1.price = l.price := by
  show ((l.unlinkBefore x mem).1.unlinkAfter x (l.unlinkBefore x mem).2).1.price = _
  rw [unlinkAfter_level, unlinkBefore_level]
  split <;> split <;> rfl

theorem remove_totalQty :
    (l.remove x mem).1.totalQty = l.totalQty - (mem x).quantity := by
  show ((l.unlinkBefore x mem).1.unlinkAfter x (l.unlinkBefore x mem).2).1.totalQty -
    (((l.unlinkBefore x mem).1.unlinkAfter x (l.unlinkBefore x mem).2).2 x).quantity = _
  rw [unlinkAfter_data, unlinkBefore_data, unlinkAfter_level, unlinkBefore_level]
  split <;> split <;> rfl

end Remove

end PriceLevel
end MiniExchange
