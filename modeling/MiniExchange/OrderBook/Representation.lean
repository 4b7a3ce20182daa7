import MiniExchange.Foundation.FreeList
import MiniExchange.Foundation.PriorityList
import MiniExchange.OrderBook.OrderBook
import Mathlib.Data.List.Perm.Basic

/-!
# What a book stands for

`Represents` relates the heap of a book to the two flat lists of slots that it
stands for, in price-time priority, and to the list of free slots.  Each
operation of the book is then described by its effect on those lists.
-/

namespace MiniExchange

open Foundation
open Foundation.IntrusiveList
open Foundation.FreeList

def slotsAt (mem : Memory) (q : List Slot) (p : Price) : List Slot :=
  q.filter (fun x => decide ((mem x).price = p))

def slotUnits (mem : Memory) (xs : List Slot) : Nat :=
  (xs.map (fun x => (mem x).quantity.units)).sum

/-- A level of the given price holds exactly the queue `xs`. -/
structure QueueRep (mem : Memory) (p : Price) (l : PriceLevel)
    (xs : List Slot) : Prop where
  price_eq : l.price = p
  linked : Linked (fun x => (mem x).prev) (fun x => (mem x).next) l.head l.tail xs
  total : l.totalQty.units = slotUnits mem xs % 2 ^ 64

/-- A level as it is kept in a price tree: its queue is never empty. -/
structure LevelRep (mem : Memory) (p : Price) (l : PriceLevel)
    (xs : List Slot) : Prop extends QueueRep mem p l xs where
  nonempty : xs ≠ []

/-- The tree has a level of price `p` exactly if some slot of `q` carries it. -/
structure LevelAt (b : OrderBook) (s : Side) (q : List Slot) (p : Price) : Prop where
  none_nil : (b.levels s).find? p = none -> slotsAt b.mem q p = []
  some_rep : forall l, (b.levels s).find? p = some l ->
    LevelRep b.mem p l (slotsAt b.mem q p)

/--
The book stands for the slot lists `q` of its two sides and has the slots of
`free` unused.
-/
structure Represents (b : OrderBook) (q : Side -> List Slot)
    (free : List Slot) : Prop where
  levels : forall s p, LevelAt b s (q s) p
  side_eq : forall s x, x ∈ q s -> (b.mem x).side = s
  level_eq : forall s x, x ∈ q s -> (b.mem x).level = some ⟨s, (b.mem x).price⟩
  ordered : forall s, PriorityList.Sorted s.better (fun x => (b.mem x).price) (q s)
  slots : (free ++ (q .buy ++ q .sell)).Perm (List.range b.pool.capacity)
  chain : Threaded b.pool.nextFree b.pool.capacity b.pool.freeListHead free
  freeCount : b.pool.freeCount = free.length
  orderCount : b.orderCount = (q .buy).length + (q .sell).length
  capacity_lt : b.pool.capacity < 2 ^ 64
  index : forall id x, b.orders id = some x ->
    (exists s, x ∈ q s) ∧ (b.mem x).id = id

namespace Represents

variable {b : OrderBook} {q : Side -> List Slot} {free : List Slot}

/-!
## Slots

All slots of the pool are listed exactly once, either free or resting.
-/

theorem divided (h : Represents b q free) :
    b.pool.Divided free (q .buy ++ q .sell) where
  chain := h.chain
  slots := h.slots
  freeCount := h.freeCount
  capacity_lt := h.capacity_lt

theorem nodup (h : Represents b q free) :
    (free ++ (q .buy ++ q .sell)).Nodup :=
  h.divided.nodup

theorem nodup_side (h : Represents b q free) (s : Side) : (q s).Nodup := by
  have hsides := (List.nodup_append.mp h.nodup).right.left
  cases s with
  | buy => exact (List.nodup_append.mp hsides).left
  | sell => exact (List.nodup_append.mp hsides).right.left

theorem mem_sides {s : Side} {x : Slot} (hx : x ∈ q s) :
    x ∈ q .buy ++ q .sell := by
  cases s with
  | buy => exact List.mem_append_left _ hx
  | sell => exact List.mem_append_right _ hx

theorem not_free (h : Represents b q free) {s : Side} {x : Slot}
    (hx : x ∈ q s) : x ∉ free :=
  h.divided.not_free (mem_sides hx)

theorem count_slots (h : Represents b q free) :
    free.length + ((q .buy).length + (q .sell).length) = b.pool.capacity := by
  have hlen := h.divided.length_add
  rw [List.length_append] at hlen
  exact hlen

theorem side_unique (h : Represents b q free) {s t : Side} {x : Slot}
    (hs : x ∈ q s) (ht : x ∈ q t) : s = t :=
  (h.side_eq s x hs).symm.trans (h.side_eq t x ht)

/-!
## Levels

The level pointer of a resting order is live, and walking the tree lists the
side.
-/

theorem mem_slotsAt {mem : Memory} {q : List Slot} {p : Price} {x : Slot} :
    x ∈ slotsAt mem q p <-> x ∈ q ∧ (mem x).price = p := by
  simp [slotsAt]

theorem slotsAt_nodup (h : Represents b q free) (s : Side) (p : Price) :
    (slotsAt b.mem (q s) p).Nodup :=
  (h.nodup_side s).filter _

theorem level_of_mem (h : Represents b q free) {s : Side} {x : Slot}
    (hx : x ∈ q s) :
    exists l, (b.levels s).find? (b.mem x).price = some l ∧
      LevelRep b.mem (b.mem x).price l (slotsAt b.mem (q s) (b.mem x).price) := by
  cases hfind : (b.levels s).find? (b.mem x).price with
  | none =>
      have hmem : x ∈ slotsAt b.mem (q s) (b.mem x).price :=
        mem_slotsAt.mpr ⟨hx, rfl⟩
      rw [(h.levels s _).none_nil hfind] at hmem
      cases hmem
  | some l => exact ⟨l, rfl, (h.levels s _).some_rep l hfind⟩

theorem slotsAt_length_le (h : Represents b q free) (s : Side) (p : Price) :
    (slotsAt b.mem (q s) p).length <= b.pool.capacity := by
  have hfilter : (slotsAt b.mem (q s) p).length <= (q s).length :=
    List.length_filter_le _ _
  have hcount := h.count_slots
  cases s <;> omega

theorem level_slots (h : Represents b q free) {s : Side} {p : Price}
    {l : PriceLevel} (hfind : (b.levels s).find? p = some l) :
    l.slots b.mem b.pool.capacity = slotsAt b.mem (q s) p :=
  ((h.levels s p).some_rep l hfind).linked.walk_eq (h.slotsAt_length_le s p)

theorem restingSlots_eq (h : Represents b q free) (s : Side) :
    b.restingSlots s = q s := by
  have hlevels : b.restingSlots s =
      (b.levels s).entries.flatMap (fun e => slotsAt b.mem (q s) e.1) := by
    apply List.flatMap_congr
    intro e he
    exact h.level_slots (((b.levels s).mem_entries_iff (k := e.1) (v := e.2)).mp he)
  have hkeys : (b.levels s).entries.flatMap (fun e => slotsAt b.mem (q s) e.1) =
      ((b.levels s).entries.map Prod.fst).flatMap
        (fun p => slotsAt b.mem (q s) p) := by
    rw [List.flatMap_map]
  rw [hlevels, hkeys]
  refine PriorityList.flatMap_filter_key (fun x => (b.mem x).price) ?_ (h.ordered s) ?_
  · rw [List.pairwise_map]
    exact (b.levels s).sorted
  · intro x hx
    rcases h.level_of_mem hx with ⟨l, hfind, -⟩
    exact List.mem_map.mpr
      ⟨((b.mem x).price, l), (b.levels s).mem_entries_iff.mpr hfind, rfl⟩

end Represents
end MiniExchange
