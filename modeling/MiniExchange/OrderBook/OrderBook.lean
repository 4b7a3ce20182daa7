import MiniExchange.Foundation.SortedMap
import MiniExchange.OrderBook.PriceLevel

/-!
# Order book

The book of `orderbook/order_book.cpp`: two price trees whose nodes hold the
levels, a non-owning index from order id to slot, and the pool that owns the
orders.  A level pointer stays valid until the node with its key is erased.
-/

namespace MiniExchange

open Foundation

abbrev PriceTree (s : Side) : Type :=
  SortedMap Price PriceLevel s.better

structure OrderBook where
  pool : OrderPool
  bids : PriceTree .buy
  asks : PriceTree .sell
  orders : OrderId -> Option Slot
  orderCount : Nat

namespace OrderBook

def new (raw : Memory) (capacity : UInt64) : OrderBook where
  pool := OrderPool.new raw capacity
  bids := SortedMap.empty
  asks := SortedMap.empty
  orders := fun _ => none
  orderCount := 0

def mem (b : OrderBook) : Memory :=
  b.pool.storage

def data (b : OrderBook) (x : Slot) : RestingOrder :=
  (b.mem x).toRestingOrder

def setMem (b : OrderBook) (mem : Memory) : OrderBook :=
  { b with pool := { b.pool with storage := mem } }

def levels (b : OrderBook) : (s : Side) -> PriceTree s
  | .buy => b.bids
  | .sell => b.asks

def setLevels (b : OrderBook) : (s : Side) -> PriceTree s -> OrderBook
  | .buy, tree => { b with bids := tree }
  | .sell, tree => { b with asks := tree }

/-- The level a pointer designates, while its node is in the tree. -/
def level? (b : OrderBook) (ptr : LevelPtr) : Option PriceLevel :=
  (b.levels ptr.side).find? ptr.price

def modifyLevel (b : OrderBook) (ptr : LevelPtr)
    (f : PriceLevel -> PriceLevel) : OrderBook :=
  b.setLevels ptr.side ((b.levels ptr.side).modify ptr.price f)

def insertLevel (b : OrderBook) (side : Side) (price : Price)
    (level : PriceLevel) : OrderBook :=
  b.setLevels side ((b.levels side).upsert price (fun _ => level))

/--
Insert an order: acquire a slot, copy the data, index it unless the id is
already indexed, and append it to its level, creating the level if needed.
-/
def addOrder (b : OrderBook) (data : Order) : Option Slot × OrderBook :=
  match b.pool.acquire with
  | (none, _) => (none, b)
  | (some slot, pool) =>
      let mem := pool.storage.write slot data
      let price := (mem slot).price
      let side := (mem slot).side
      let id := (mem slot).id
      let orders :=
        if (b.orders id).isSome then b.orders
        else Function.update b.orders id (some slot)
      let level := ((b.levels side).find? price).getD (PriceLevel.new price)
      let pushed := level.pushBack ⟨side, price⟩ slot mem
      let b' := ({ b with
        pool := pool
        orders := orders
        orderCount := b.orderCount + 1 }).setMem pushed.2
      (some slot, b'.insertLevel side price pushed.1)

/-- Write a level back, or erase its node if it has no orders left. -/
def putLevel (b : OrderBook) (ptr : LevelPtr) (side : Side) (price : Price)
    (level : PriceLevel) : OrderBook :=
  let b' := b.modifyLevel ptr (fun _ => level)
  if level.isEmpty then b'.setLevels side ((b'.levels side).erase price) else b'

/--
Remove an order: unlink it from its level, erase the level if that leaves it
empty, erase the id from the index, and release the slot.  Without a live level
behind the order the source's behaviour is undefined; the book is then kept.
-/
def removeOrder (b : OrderBook) (order : Slot) : OrderBook :=
  let price := (b.mem order).price
  let side := (b.mem order).side
  match (b.mem order).level with
  | none => b
  | some ptr =>
      match b.level? ptr with
      | none => b
      | some level =>
          let unlinked := level.remove order b.mem
          let b' := (b.setMem unlinked.2).putLevel ptr side price unlinked.1
          { b' with
            orders := Function.update b'.orders (b'.mem order).id none
            pool := b'.pool.release order
            orderCount := b'.orderCount - 1 }

def reduceResting (b : OrderBook) (level : LevelPtr) (order : Slot)
    (qty : Quantity) : OrderBook :=
  (b.setMem (b.mem.modify order
    (fun o => { o with quantity := o.quantity - qty }))).modifyLevel level
      (fun l => l.reduceQuantity qty)

def findOrder (b : OrderBook) (id : OrderId) : Option Slot :=
  b.orders id

def bestLevel (b : OrderBook) (s : Side) : Option LevelPtr :=
  (b.levels s).first?.map (fun e => ⟨s, e.1⟩)

def bestBid (b : OrderBook) : Option LevelPtr :=
  b.bestLevel .buy

def bestAsk (b : OrderBook) : Option LevelPtr :=
  b.bestLevel .sell

def poolAvailable (b : OrderBook) : Nat :=
  b.pool.available

/-!
## Reading the book

A side is listed by walking its tree and, within a level, its queue.
-/

/-- The slots resting on a side, by price priority and then queue position. -/
def restingSlots (b : OrderBook) (s : Side) : List Slot :=
  (b.levels s).entries.flatMap (fun e => e.2.slots b.mem b.pool.capacity)

def resting (b : OrderBook) (s : Side) : List RestingOrder :=
  (b.restingSlots s).map b.data

/-!
## Field lemmas
-/

@[simp] theorem mem_setMem (b : OrderBook) (mem : Memory) :
    (b.setMem mem).mem = mem := rfl

@[simp] theorem levels_setMem (b : OrderBook) (mem : Memory) (s : Side) :
    (b.setMem mem).levels s = b.levels s := by
  cases s <;> rfl

@[simp] theorem levels_setLevels (b : OrderBook) (s : Side) (tree : PriceTree s) :
    (b.setLevels s tree).levels s = tree := by
  cases s <;> rfl

theorem levels_setLevels_of_ne (b : OrderBook) {s t : Side} (h : t ≠ s)
    (tree : PriceTree s) : (b.setLevels s tree).levels t = b.levels t := by
  cases s <;> cases t <;> first | rfl | exact absurd rfl h

@[simp] theorem pool_setLevels (b : OrderBook) (s : Side) (tree : PriceTree s) :
    (b.setLevels s tree).pool = b.pool := by
  cases s <;> rfl

@[simp] theorem mem_setLevels (b : OrderBook) (s : Side) (tree : PriceTree s) :
    (b.setLevels s tree).mem = b.mem := by
  cases s <;> rfl

@[simp] theorem orders_setLevels (b : OrderBook) (s : Side) (tree : PriceTree s) :
    (b.setLevels s tree).orders = b.orders := by
  cases s <;> rfl

@[simp] theorem orderCount_setLevels (b : OrderBook) (s : Side) (tree : PriceTree s) :
    (b.setLevels s tree).orderCount = b.orderCount := by
  cases s <;> rfl

theorem find?_modifyLevel (b : OrderBook) (ptr : LevelPtr)
    (f : PriceLevel -> PriceLevel) (s : Side) (p : Price) :
    ((b.modifyLevel ptr f).levels s).find? p =
      if s = ptr.side ∧ p = ptr.price then ((b.levels s).find? p).map f
      else (b.levels s).find? p := by
  unfold modifyLevel
  by_cases hs : s = ptr.side
  · subst hs
    rw [levels_setLevels, SortedMap.find?_modify]
    simp
  · rw [levels_setLevels_of_ne b hs]
    simp [hs]

@[simp] theorem pool_modifyLevel (b : OrderBook) (ptr : LevelPtr)
    (f : PriceLevel -> PriceLevel) : (b.modifyLevel ptr f).pool = b.pool :=
  pool_setLevels b _ _

@[simp] theorem mem_modifyLevel (b : OrderBook) (ptr : LevelPtr)
    (f : PriceLevel -> PriceLevel) : (b.modifyLevel ptr f).mem = b.mem :=
  mem_setLevels b _ _

@[simp] theorem orders_modifyLevel (b : OrderBook) (ptr : LevelPtr)
    (f : PriceLevel -> PriceLevel) : (b.modifyLevel ptr f).orders = b.orders :=
  orders_setLevels b _ _

@[simp] theorem orderCount_modifyLevel (b : OrderBook) (ptr : LevelPtr)
    (f : PriceLevel -> PriceLevel) :
    (b.modifyLevel ptr f).orderCount = b.orderCount :=
  orderCount_setLevels b _ _

theorem find?_insertLevel (b : OrderBook) (side : Side) (price : Price)
    (level : PriceLevel) (s : Side) (p : Price) :
    ((b.insertLevel side price level).levels s).find? p =
      if s = side ∧ p = price then some level else (b.levels s).find? p := by
  unfold insertLevel
  by_cases hs : s = side
  · subst hs
    rw [levels_setLevels, SortedMap.find?_upsert]
    simp
  · rw [levels_setLevels_of_ne b hs]
    simp [hs]

section PutLevel

variable (b : OrderBook) (ptr : LevelPtr) (side : Side) (price : Price)
  (level : PriceLevel)

@[simp] theorem pool_putLevel : (b.putLevel ptr side price level).pool = b.pool := by
  unfold putLevel
  split <;> simp

@[simp] theorem orders_putLevel :
    (b.putLevel ptr side price level).orders = b.orders := by
  unfold putLevel
  split <;> simp

@[simp] theorem orderCount_putLevel :
    (b.putLevel ptr side price level).orderCount = b.orderCount := by
  unfold putLevel
  split <;> simp

theorem find?_putLevel {l : PriceLevel} (hl : (b.levels side).find? price = some l)
    (s : Side) (p : Price) :
    ((b.putLevel ⟨side, price⟩ side price level).levels s).find? p =
      if s = side ∧ p = price then if level.isEmpty then none else some level
      else (b.levels s).find? p := by
  by_cases hsp : s = side ∧ p = price
  · rcases hsp with ⟨rfl, rfl⟩
    rw [if_pos ⟨rfl, rfl⟩]
    by_cases hempty : level.isEmpty = true
    · simp [putLevel, hempty, SortedMap.find?_erase]
    · simp [putLevel, hempty, find?_modifyLevel, hl]
  · rw [if_neg hsp]
    unfold putLevel
    split
    · by_cases hs : s = side
      · subst hs
        have hp : p ≠ price := fun heq => hsp ⟨rfl, heq⟩
        simp [SortedMap.find?_erase, find?_modifyLevel, hp]
      · rw [levels_setLevels_of_ne _ hs, find?_modifyLevel, if_neg hsp]
    · rw [find?_modifyLevel, if_neg hsp]

end PutLevel

end OrderBook
end MiniExchange
