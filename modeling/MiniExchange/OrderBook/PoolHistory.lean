import MiniExchange.Foundation.Machine
import MiniExchange.OrderBook.Representation

/-!
# Histories of the order pool

The pool of `orderbook/order_pool.cpp` under any sequence of calls.  Holders
write whatever they like into the slots they hold, over the place where the link
of the free list is kept while the slot is unused.
-/

namespace MiniExchange

open Foundation
open Foundation.FreeList

structure PoolHistory where
  pool : OrderPool
  held : List Slot := []

inductive PoolMove where
  | acquire
  | release (x : Slot)
  /-- A holder writes all bytes of a slot. -/
  | overwrite (x : Slot) (contents : Order)

namespace OrderPool

def overwrite (pool : OrderPool) (x : Slot) (contents : Order) : OrderPool :=
  { pool with storage := pool.storage.write x contents }

namespace Divided

variable {pool : OrderPool} {free held : List Slot} {x : Slot}

theorem mem_free_iff (h : pool.Divided free held) :
    x ∈ free <-> x < pool.capacity ∧ x ∉ held := by
  constructor
  · intro hfree
    exact ⟨h.mem_iff.mp (Or.inl hfree), fun hheld => h.not_free hheld hfree⟩
  · rintro ⟨hlt, hheld⟩
    rcases h.mem_iff.mpr hlt with hfree | hx
    · exact hfree
    · exact absurd hx hheld

theorem available_add_length (h : pool.Divided free held) :
    pool.available + held.length = pool.capacity := by
  rw [available, h.freeCount, h.length_add]

/-!
### Calls
-/

theorem head_eq_iff (h : pool.Divided free held) :
    pool.freeListHead = pool.capacity <-> free = [] := by
  constructor
  · intro hhead
    cases hfree : free with
    | nil => rfl
    | cons x rest =>
        have hchain := h.chain
        rw [hfree] at hchain
        exact absurd (hchain.left.symm.trans hhead) hchain.right.left
  · rintro rfl
    exact h.chain

theorem acquire_nil (h : pool.Divided [] held) : pool.acquire = (none, pool) :=
  if_pos (h.head_eq_iff.mpr rfl)

theorem acquire_cons (h : pool.Divided (x :: free) held) :
    pool.acquire.1 = some x ∧ pool.acquire.2.Divided free (x :: held) := by
  rcases h.chain with ⟨hhead, hne, -⟩
  have hacquire : pool.acquire = (some pool.freeListHead,
      { pool with
        freeListHead := pool.nextFree pool.freeListHead
        freeCount := pool.freeCount - 1 }) := if_neg (by rw [hhead]; exact hne)
  rw [hacquire, hhead]
  exact ⟨rfl, h.pop rfl rfl rfl fun _ _ => rfl⟩

theorem release (h : pool.Divided free held) (hx : x ∈ held) :
    (pool.release x).Divided (x :: free) (held.erase x) := by
  have hlink : forall y, (pool.release x).nextFree y =
      if y = x then pool.freeListHead else pool.nextFree y := fun y =>
    nextFree_setNextFree pool x y (Nat.lt_of_le_of_lt h.head_le h.capacity_lt)
  refine h.push hx rfl rfl rfl ?_ ?_
  · rw [hlink, if_pos rfl]
  · intro y hne
    rw [hlink, if_neg hne]

theorem overwrite (h : pool.Divided free held) (hx : x ∈ held) (contents : Order) :
    (pool.overwrite x contents).Divided free held := by
  refine h.congr rfl rfl rfl ?_
  intro y hy
  have hne : y ≠ x := fun heq => hy (heq ▸ hx)
  show (pool.storage.write x contents y).id.value.toNat = _
  rw [Memory.write_apply, if_neg hne]
  rfl

end Divided
end OrderPool

/-!
## Runs
-/

namespace PoolHistory

def new (raw : Memory) (capacity : UInt64) : PoolHistory where
  pool := OrderPool.new raw capacity

def step (s : PoolHistory) : PoolMove -> PoolHistory
  | .acquire =>
      { pool := s.pool.acquire.2, held := s.pool.acquire.1.toList ++ s.held }
  | .release x => { pool := s.pool.release x, held := s.held.erase x }
  | .overwrite x contents => { s with pool := s.pool.overwrite x contents }

def run (s : PoolHistory) (moves : List PoolMove) : PoolHistory :=
  Machine.run step s moves

def visits (s : PoolHistory) (moves : List PoolMove) : List (PoolHistory × PoolMove) :=
  Machine.visits step s moves

def Allowed (s : PoolHistory) : PoolMove -> Prop
  | .acquire => True
  | .release x => x ∈ s.held
  | .overwrite x _ => x ∈ s.held

instance (s : PoolHistory) : (m : PoolMove) -> Decidable (s.Allowed m)
  | .acquire => inferInstanceAs (Decidable True)
  | .release x => inferInstanceAs (Decidable (x ∈ s.held))
  | .overwrite x _ => inferInstanceAs (Decidable (x ∈ s.held))

def Sound (capacity : Nat) (s : PoolHistory) : Prop :=
  s.pool.capacity = capacity ∧ exists free, s.pool.Divided free s.held

theorem sound_new (raw : Memory) (capacity : UInt64) :
    Sound capacity.toNat (new raw capacity) :=
  ⟨(OrderPool.new_spec raw capacity).left, _, OrderPool.divided_new raw capacity⟩

theorem capacity_acquire (pool : OrderPool) : pool.acquire.2.capacity = pool.capacity := by
  unfold OrderPool.acquire
  split <;> rfl

theorem Sound.step {capacity : Nat} {s : PoolHistory} {m : PoolMove} (h : Sound capacity s)
    (hallowed : s.Allowed m) : Sound capacity (s.step m) := by
  rcases h with ⟨hcapacity, free, hdivided⟩
  cases m with
  | acquire =>
      refine ⟨(capacity_acquire s.pool).trans hcapacity, ?_⟩
      cases free with
      | nil =>
          show exists free, s.pool.acquire.2.Divided free (s.pool.acquire.1.toList ++ s.held)
          rw [hdivided.acquire_nil]
          exact ⟨[], hdivided⟩
      | cons x rest =>
          rcases hdivided.acquire_cons with ⟨hx, hrest⟩
          show exists free, s.pool.acquire.2.Divided free (s.pool.acquire.1.toList ++ s.held)
          rw [hx]
          exact ⟨rest, hrest⟩
  | release x => exact ⟨hcapacity, x :: free, hdivided.release hallowed⟩
  | overwrite x contents => exact ⟨hcapacity, free, hdivided.overwrite hallowed contents⟩

theorem sound_run (raw : Memory) (capacity : UInt64) {moves : List PoolMove}
    (hallowed : forall v, v ∈ (new raw capacity).visits moves -> v.1.Allowed v.2) :
    Sound capacity.toNat ((new raw capacity).run moves) :=
  Machine.run_invariant_of (fun _ _ h hok => h.step hok) (sound_new raw capacity) hallowed

/--
Whatever the holders do with their slots, the free list runs once through the
slots that are not held, a call of `acquire` returns one of them unless there is
none, and `available` counts them.
-/
theorem pool_hands_out_disjoint_slots (raw : Memory) (capacity : UInt64)
    (moves : List PoolMove)
    (hallowed : forall v, v ∈ (new raw capacity).visits moves -> v.1.Allowed v.2) :
    let s := (new raw capacity).run moves
    (exists free, Threaded s.pool.nextFree capacity.toNat s.pool.freeListHead free ∧
        free.Nodup ∧ forall x, x ∈ free <-> x < capacity.toNat ∧ x ∉ s.held) ∧
      (s.held.Nodup ∧ forall x, x ∈ s.held -> x < capacity.toNat) ∧
      (forall x, s.pool.acquire.1 = some x -> x < capacity.toNat ∧ x ∉ s.held) ∧
      (s.pool.acquire.1 = none <-> forall x, x < capacity.toNat -> x ∈ s.held) ∧
      s.pool.available = capacity.toNat - s.held.length := by
  intro s
  rcases sound_run raw capacity hallowed with ⟨hcapacity, free, hdivided⟩
  replace hcapacity : s.pool.capacity = capacity.toNat := hcapacity
  replace hdivided : s.pool.Divided free s.held := hdivided
  have hparts := List.nodup_append.mp hdivided.nodup
  have hfree : forall x, x ∈ free <-> x < capacity.toNat ∧ x ∉ s.held := by
    intro x
    rw [← hcapacity]
    exact hdivided.mem_free_iff
  refine ⟨⟨free, hcapacity ▸ hdivided.chain, hparts.left, hfree⟩, ⟨hparts.right.left, ?_⟩,
    ?_, ?_, ?_⟩
  · intro x hx
    rw [← hcapacity]
    exact hdivided.mem_iff.mp (Or.inr hx)
  · intro x hx
    cases free with
    | nil =>
        rw [hdivided.acquire_nil] at hx
        cases hx
    | cons y rest =>
        rw [hdivided.acquire_cons.left] at hx
        rw [← Option.some.inj hx]
        exact (hfree y).mp List.mem_cons_self
  · cases free with
    | nil =>
        rw [hdivided.acquire_nil]
        refine ⟨fun _ x hx => ?_, fun _ => rfl⟩
        by_cases hheld : x ∈ s.held
        · exact hheld
        · exact absurd ((hfree x).mpr ⟨hx, hheld⟩) List.not_mem_nil
    | cons y rest =>
        rw [hdivided.acquire_cons.left]
        have hy := (hfree y).mp List.mem_cons_self
        exact iff_of_false (by simp) fun hall => hy.right (hall y hy.left)
  · have hcount := hdivided.available_add_length
    omega

def twoSlots : List PoolMove :=
  [.acquire, .overwrite 0 (Memory.zeroed 5), .acquire, .overwrite 1 (Memory.zeroed 5), .release 0]

theorem pool_hands_out_twoSlots :
    ((new Memory.zeroed 2).run twoSlots).held = [1] ∧
      ((new Memory.zeroed 2).run twoSlots).pool.available =
        (2 : UInt64).toNat - ((new Memory.zeroed 2).run twoSlots).held.length :=
  ⟨by decide,
    (pool_hands_out_disjoint_slots Memory.zeroed 2 twoSlots (by decide)).right.right.right.right⟩

end PoolHistory
end MiniExchange
