import MiniExchange.Core.Messages
import MiniExchange.Foundation.FreeList
import Mathlib.Data.List.Perm.Basic
import Mathlib.Logic.Function.Basic

/-!
# Order pool

The fixed-capacity pool of order slots of `orderbook/order_pool.cpp`.  A free
slot is not a valid order: its first eight bytes, which are the `id` field of
an order, hold the index of the next free slot.
-/

namespace MiniExchange

open Foundation.FreeList

abbrev Memory : Type := Slot -> Order

namespace Memory

def zeroed : Memory := fun _ =>
  { id := ⟨0⟩
    side := .buy
    price := ⟨0⟩
    quantity := ⟨0⟩
    sequence := ⟨0⟩
    owner := ⟨0⟩ }

def write (mem : Memory) (x : Slot) (o : Order) : Memory :=
  Function.update mem x o

def modify (mem : Memory) (x : Slot) (f : Order -> Order) : Memory :=
  mem.write x (f (mem x))

theorem write_apply (mem : Memory) (x y : Slot) (o : Order) :
    mem.write x o y = if y = x then o else mem y := by
  by_cases h : y = x
  · rw [if_pos h, h]
    exact Function.update_self x o mem
  · rw [if_neg h]
    exact Function.update_of_ne h o mem

theorem modify_apply (mem : Memory) (x y : Slot) (f : Order -> Order) :
    mem.modify x f y = if y = x then f (mem x) else mem y :=
  write_apply mem x y (f (mem x))

end Memory

structure OrderPool where
  storage : Memory
  capacity : Nat
  freeListHead : Nat
  freeCount : Nat

namespace OrderPool

/-- The free-list link stored in an unused slot. -/
def nextFree (pool : OrderPool) (index : Slot) : Nat :=
  (pool.storage index).id.value.toNat

def setNextFree (pool : OrderPool) (index : Slot) (link : Nat) : OrderPool :=
  { pool with
    storage := pool.storage.modify index
      (fun o => { o with id := ⟨UInt64.ofNat link⟩ }) }

/--
Construction over freshly allocated storage of arbitrary contents: the free
list is chained `0 -> 1 -> ... -> capacity`, the last being the empty sentinel.
-/
def new (raw : Memory) (capacity : UInt64) : OrderPool :=
  (List.range capacity.toNat).foldl
    (fun pool i => pool.setNextFree i (i + 1))
    { storage := raw
      capacity := capacity.toNat
      freeListHead := 0
      freeCount := capacity.toNat }

def acquire (pool : OrderPool) : Option Slot × OrderPool :=
  if pool.freeListHead = pool.capacity then
    (none, pool)
  else
    (some pool.freeListHead,
      { pool with
        freeListHead := pool.nextFree pool.freeListHead
        freeCount := pool.freeCount - 1 })

def release (pool : OrderPool) (order : Slot) : OrderPool :=
  let linked := pool.setNextFree order pool.freeListHead
  { linked with
    freeListHead := order
    freeCount := linked.freeCount + 1 }

def available (pool : OrderPool) : Nat :=
  pool.freeCount

/-!
## Links of the free list

A link survives the round trip through the eight bytes of a slot because slot
indices fit in them.
-/

theorem nextFree_setNextFree (pool : OrderPool) (i j : Slot) {link : Nat}
    (hlink : link < 2 ^ 64) :
    (pool.setNextFree i link).nextFree j = if j = i then link else pool.nextFree j := by
  simp only [nextFree, setNextFree, Memory.modify_apply]
  split
  · exact UInt64.toNat_ofNat_of_lt' hlink
  · rfl

/-- The chaining loop of the constructor, run over the first `n` slots. -/
theorem chain_fold (pool : OrderPool) {n : Nat} (hn : n < 2 ^ 64) :
    let chained := (List.range n).foldl (fun p i => p.setNextFree i (i + 1)) pool
    chained.capacity = pool.capacity ∧ chained.freeListHead = pool.freeListHead ∧
      chained.freeCount = pool.freeCount ∧
      forall i, i < n -> chained.nextFree i = i + 1 := by
  induction n with
  | zero => exact ⟨rfl, rfl, rfl, fun i hi => absurd hi (Nat.not_lt_zero i)⟩
  | succ n ih =>
      rcases ih (by omega) with ⟨hcap, hhead, hcount, hlinks⟩
      dsimp only
      rw [List.range_succ, List.foldl_append]
      refine ⟨hcap, hhead, hcount, ?_⟩
      intro i hi
      rw [List.foldl_cons, List.foldl_nil, nextFree_setNextFree _ _ _ (by omega)]
      split
      · next heq => rw [heq]
      · next hne => exact hlinks i (Nat.lt_of_le_of_ne (Nat.lt_succ_iff.mp hi) hne)

theorem new_spec (raw : Memory) (capacity : UInt64) :
    (new raw capacity).capacity = capacity.toNat ∧
      (new raw capacity).freeListHead = 0 ∧
      (new raw capacity).freeCount = capacity.toNat ∧
      forall i, i < capacity.toNat -> (new raw capacity).nextFree i = i + 1 :=
  chain_fold _ capacity.toNat_lt

/-!
## Free and held slots

Links are kept in free slots only, so whatever leaves these alone leaves the
division of the pool as it is.
-/

/--
The slots of the pool are the free ones, which the free list runs through, and
the held ones.
-/
structure Divided (pool : OrderPool) (free held : List Slot) : Prop where
  chain : Threaded pool.nextFree pool.capacity pool.freeListHead free
  slots : (free ++ held).Perm (List.range pool.capacity)
  freeCount : pool.freeCount = free.length
  capacity_lt : pool.capacity < 2 ^ 64

theorem divided_new (raw : Memory) (capacity : UInt64) :
    (new raw capacity).Divided (List.range capacity.toNat) [] := by
  rcases new_spec raw capacity with ⟨hcapacity, hhead, hcount, hlinks⟩
  constructor
  case chain =>
    rw [hcapacity, hhead]
    exact threaded_range hlinks
  case slots =>
    rw [hcapacity, List.append_nil]
  case freeCount => rw [hcount, List.length_range]
  case capacity_lt =>
    rw [hcapacity]
    exact capacity.toNat_lt

namespace Divided

variable {pool pool' : OrderPool} {free held held' : List Slot} {x : Slot}

theorem nodup (h : pool.Divided free held) : (free ++ held).Nodup :=
  h.slots.nodup_iff.mpr List.nodup_range

theorem not_free (h : pool.Divided free held) (hx : x ∈ held) : x ∉ free := by
  intro hfree
  exact (List.nodup_append.mp h.nodup).right.right x hfree x hx rfl

theorem mem_iff (h : pool.Divided free held) : x ∈ free ∨ x ∈ held <-> x < pool.capacity := by
  rw [← List.mem_append, h.slots.mem_iff, List.mem_range]

theorem length_add (h : pool.Divided free held) :
    free.length + held.length = pool.capacity := by
  have hlength := h.slots.length_eq
  rw [List.length_append, List.length_range] at hlength
  exact hlength

theorem head_le (h : pool.Divided free held) : pool.freeListHead <= pool.capacity := by
  cases free with
  | nil => exact Nat.le_of_eq h.chain
  | cons x rest =>
      rw [h.chain.left]
      exact Nat.le_of_lt (h.mem_iff.mp (Or.inl List.mem_cons_self))

theorem congr (h : pool.Divided free held) (hcapacity : pool'.capacity = pool.capacity)
    (hhead : pool'.freeListHead = pool.freeListHead)
    (hcount : pool'.freeCount = pool.freeCount)
    (hlinks : forall y, y ∉ held -> pool'.nextFree y = pool.nextFree y) :
    pool'.Divided free held := by
  constructor
  case chain =>
    rw [hcapacity, hhead]
    apply h.chain.congr
    intro y hy
    exact hlinks y fun hheld => h.not_free hheld hy
  case slots =>
    rw [hcapacity]
    exact h.slots
  case freeCount => rw [hcount, h.freeCount]
  case capacity_lt =>
    rw [hcapacity]
    exact h.capacity_lt

theorem perm (h : pool.Divided free held) (hperm : held'.Perm held) :
    pool.Divided free held' :=
  { h with slots := (hperm.append_left free).trans h.slots }

theorem pop (h : pool.Divided (x :: free) held) (hcapacity : pool'.capacity = pool.capacity)
    (hhead : pool'.freeListHead = pool.nextFree x)
    (hcount : pool'.freeCount = pool.freeCount - 1)
    (hlinks : forall y, y ≠ x -> pool'.nextFree y = pool.nextFree y) :
    pool'.Divided free (x :: held) := by
  constructor
  case chain =>
    rw [hcapacity, hhead]
    apply h.chain.right.right.congr
    intro y hy
    have hnodup := List.nodup_cons.mp (List.nodup_append.mp h.nodup).left
    exact hlinks y fun heq => hnodup.left (heq ▸ hy)
  case slots =>
    rw [hcapacity]
    exact List.perm_middle.trans h.slots
  case freeCount =>
    rw [hcount, h.freeCount]
    rfl
  case capacity_lt =>
    rw [hcapacity]
    exact h.capacity_lt

theorem push (h : pool.Divided free held) (hx : x ∈ held)
    (hcapacity : pool'.capacity = pool.capacity) (hhead : pool'.freeListHead = x)
    (hcount : pool'.freeCount = pool.freeCount + 1)
    (hlink : pool'.nextFree x = pool.freeListHead)
    (hlinks : forall y, y ≠ x -> pool'.nextFree y = pool.nextFree y) :
    pool'.Divided (x :: free) (held.erase x) := by
  constructor
  case chain =>
    rw [hcapacity, hhead]
    apply h.chain.push (Nat.ne_of_lt (h.mem_iff.mp (Or.inr hx))) hlink
    intro y hy
    exact hlinks y fun heq => h.not_free hx (heq ▸ hy)
  case slots =>
    have hheld : (free ++ held).Perm (x :: free ++ held.erase x) :=
      ((List.perm_cons_erase hx).append_left free).trans List.perm_middle
    rw [hcapacity]
    exact hheld.symm.trans h.slots
  case freeCount =>
    rw [hcount, h.freeCount]
    rfl
  case capacity_lt =>
    rw [hcapacity]
    exact h.capacity_lt

end Divided
end OrderPool
end MiniExchange
