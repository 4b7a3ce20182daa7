import MiniExchange.LockFree.SpscRingBuffer

/-!
# Wraparound of the ring indices

The two calls of `lockfree_queue/spsc_ring_buffer.hpp` as a whole, on a ring
whose indices have any values.  The indices are counters modulo 2^64, and the
ring holds the items from `head_` up to `tail_` in that order.
-/

namespace MiniExchange
namespace LockFree

open Foundation

namespace SpscRingBuffer

variable {α : Type}

def tryPush (r : SpscRingBuffer α) (item : α) : Bool × SpscRingBuffer α :=
  if r.tail - r.head >= r.capacity then (false, r)
  else
    (true,
      { r with
        storage := Function.update r.storage (r.slot r.tail) item
        tail := r.tail + 1 })

/-- Moving the item out of its slot leaves some value there. -/
def tryPop (r : SpscRingBuffer α) (left : α) : Option α × SpscRingBuffer α :=
  if r.head >= r.tail then (none, r)
  else
    (some (r.storage (r.slot r.head)),
      { r with
        storage := Function.update r.storage (r.slot r.head) left
        head := r.head + 1 })

def size (r : SpscRingBuffer α) : UInt64 :=
  r.tail - r.head

def itemAt (r : SpscRingBuffer α) (i : Nat) : α :=
  r.storage (r.slot (r.head + UInt64.ofNat i))

def contents (r : SpscRingBuffer α) : List α :=
  (List.range r.size.toNat).map r.itemAt

/-- The calls go by the difference of the indices, and keep the items in order. -/
structure Fifo (r : SpscRingBuffer α) : Prop where
  pop_result : forall left, (r.tryPop left).1 =
    if r.tail - r.head = 0 then none else some (r.storage (r.slot r.head))
  pop_contents : forall left, (r.tryPop left).2.contents = r.contents.tail
  push_result : forall item, (r.tryPush item).1 = true <-> r.tail - r.head < r.capacity
  push_contents : forall item, (r.tryPush item).2.contents =
    if r.tail - r.head < r.capacity then r.contents ++ [item] else r.contents

/-!
## Calls as accesses

A call that no access of the other thread interrupts, and that loads the present
value of the other index, has the effect of the whole call.
-/

theorem run_push_call {s : RingState α} (hidle : s.producer = .idle)
    {observed : Nat} (hhead : s.headValues.getD (s.loadHead observed) 0 = s.ring.head) (item : α) :
    exists n t, s.run (List.replicate n (.producer item observed)) = t ∧
      t.producer = .idle ∧ t.ring = (s.ring.tryPush item).2 ∧
      t.returns = s.returns ++
        [if (s.ring.tryPush item).1 then .pushed item else .pushFailed] := by
  have hload : s.producerStep item observed =
      { s with producer := .tailLoaded item s.ring.tail } := by
    unfold RingState.producerStep
    rw [hidle]
  have htest : (s.producerStep item observed).producerStep item observed =
      if s.ring.tail - s.ring.head >= s.ring.capacity then
        { s with
          seenHead := s.loadHead observed
          producer := .idle
          returns := s.returns ++ [.pushFailed] }
      else
        { s with
          seenHead := s.loadHead observed
          producer := .writing item s.ring.tail } := by
    rw [hload, ← hhead]
    rfl
  unfold tryPush
  split
  · next hfull =>
      rw [if_pos hfull] at htest
      exact ⟨2, _, htest, rfl, rfl, rfl⟩
  · next hroom =>
      rw [if_neg hroom] at htest
      have hrun : s.run (List.replicate 4 (.producer item observed)) =
          (((s.producerStep item observed).producerStep item observed).producerStep item
            observed).producerStep item observed := rfl
      rw [htest] at hrun
      exact ⟨4, _, hrun, rfl, rfl, rfl⟩

theorem run_pop_call {s : RingState α} (hidle : s.consumer = .idle)
    {observed : Nat} (htail : s.tailValues.getD (s.loadTail observed) 0 = s.ring.tail) (left : α) :
    exists n t, s.run (List.replicate n (.consumer left observed)) = t ∧
      t.consumer = .idle ∧ t.ring = (s.ring.tryPop left).2 ∧
      t.returns = s.returns ++
        [((s.ring.tryPop left).1.map .popped).getD .popFailed] := by
  have hload : s.consumerStep left observed =
      { s with consumer := .headLoaded s.ring.head } := by
    unfold RingState.consumerStep
    rw [hidle]
  have htest : (s.consumerStep left observed).consumerStep left observed =
      if s.ring.head >= s.ring.tail then
        { s with
          seenTail := s.loadTail observed
          consumer := .idle
          returns := s.returns ++ [.popFailed] }
      else
        { s with
          seenTail := s.loadTail observed
          consumer := .reading s.ring.head } := by
    rw [hload, ← htail]
    rfl
  unfold tryPop
  split
  · next hempty =>
      rw [if_pos hempty] at htest
      exact ⟨2, _, htest, rfl, rfl, rfl⟩
  · next hmore =>
      rw [if_neg hmore] at htest
      have hrun : s.run (List.replicate 4 (.consumer left observed)) =
          (((s.consumerStep left observed).consumerStep left observed).consumerStep left
            observed).consumerStep left observed := rfl
      rw [htest] at hrun
      exact ⟨4, _, hrun, rfl, rfl, rfl⟩

/-!
## Slots of wrapped indices
-/

section Slots

variable {r : SpscRingBuffer α} {k : Nat}

theorem toNat_slot_eq (hcapacity : r.capacity.toNat = 2 ^ k) (index : UInt64) :
    (r.slot index).toNat = index.toNat % 2 ^ k := by
  have hslot := RingState.toNat_slot hcapacity index.toNat_lt
  rw [UInt64.ofNat_toNat] at hslot
  exact hslot

theorem exponent_lt (hcapacity : r.capacity.toNat = 2 ^ k) : k < 64 := by
  have hlt := r.capacity.toNat_lt
  rw [hcapacity] at hlt
  exact (Nat.pow_lt_pow_iff_right (by decide)).mp hlt

/-- The capacity divides 2^64, so that slots follow each other across the wrap. -/
theorem toNat_slot_add (hcapacity : r.capacity.toNat = 2 ^ k) (index : UInt64) (i : Nat) :
    (r.slot (index + UInt64.ofNat i)).toNat = (index.toNat + i) % 2 ^ k := by
  have hdvd : 2 ^ k ∣ 2 ^ 64 := Nat.pow_dvd_pow 2 (Nat.le_of_lt (exponent_lt hcapacity))
  rw [toNat_slot_eq hcapacity, UInt64.toNat_add, UInt64.toNat_ofNat', Nat.mod_mod_of_dvd _ hdvd,
    Nat.add_mod, Nat.mod_mod_of_dvd _ hdvd, ← Nat.add_mod]

theorem slot_add_ne (hcapacity : r.capacity.toNat = 2 ^ k) (index : UInt64) {i j : Nat}
    (hij : i < j) (hclose : j < i + 2 ^ k) :
    r.slot (index + UInt64.ofNat i) ≠ r.slot (index + UInt64.ofNat j) := by
  intro heq
  have hmod := congrArg UInt64.toNat heq
  rw [toNat_slot_add hcapacity, toNat_slot_add hcapacity] at hmod
  have hzero := Nat.sub_mod_eq_zero_of_mod_eq hmod.symm
  rw [Nat.mod_eq_of_lt (by omega)] at hzero
  omega

theorem tail_eq (r : SpscRingBuffer α) : r.tail = r.head + UInt64.ofNat r.size.toNat := by
  rw [UInt64.ofNat_toNat, size, UInt64.add_comm, UInt64.sub_add_cancel]

end Slots

/-!
## Contents
-/

section Contents

variable {r : SpscRingBuffer α} {k : Nat}

theorem contents_pushed (hcapacity : r.capacity.toNat = 2 ^ k)
    (hroom : r.size < r.capacity) (item : α) :
    contents { r with
      storage := Function.update r.storage (r.slot r.tail) item
      tail := r.tail + 1 } = r.contents ++ [item] := by
  have hlt : r.size.toNat < 2 ^ k := by
    rw [← hcapacity]
    exact UInt64.lt_iff_toNat_lt.mp hroom
  have hgrow : (r.tail + 1 - r.head).toNat = r.size.toNat + 1 := by
    have hsize : r.tail + 1 - r.head = r.size + 1 := by
      unfold size
      grind
    have hmax := r.capacity.toNat_lt
    rw [hsize, UInt64.toNat_add]
    exact Nat.mod_eq_of_lt (by show r.size.toNat + 1 < 2 ^ 64; omega)
  unfold contents
  show (List.range (r.tail + 1 - r.head).toNat).map _ = _
  rw [hgrow, List.range_succ, List.map_append, List.map_singleton]
  congr 1
  · apply List.map_congr_left
    intro i hi
    have hi : i < r.size.toNat := List.mem_range.mp hi
    have hne := slot_add_ne hcapacity r.head hi (by omega)
    rw [← tail_eq] at hne
    exact Function.update_of_ne hne _ _
  · show [Function.update r.storage (r.slot r.tail) item
      (r.slot (r.head + UInt64.ofNat r.size.toNat))] = [item]
    rw [← tail_eq, Function.update_self]

theorem contents_popped (hcapacity : r.capacity.toNat = 2 ^ k)
    (hsize : r.size <= r.capacity) (hmore : r.size ≠ 0) (left : α) :
    contents { r with
      storage := Function.update r.storage (r.slot r.head) left
      head := r.head + 1 } = r.contents.tail := by
  have hle : r.size.toNat <= 2 ^ k := by
    rw [← hcapacity]
    exact UInt64.le_iff_toNat_le.mp hsize
  have hpos : r.size.toNat ≠ 0 := fun h => hmore (UInt64.toNat_inj.mp h)
  rcases Nat.exists_eq_succ_of_ne_zero hpos with ⟨n, hn⟩
  have hshrink : (r.tail - (r.head + 1)).toNat = n := by
    have hone : (1 : UInt64) <= r.size := by
      rw [UInt64.le_iff_toNat_le, hn]
      exact Nat.succ_pos n
    have hless : r.tail - (r.head + 1) = r.size - 1 := by
      unfold size
      grind
    rw [hless, UInt64.toNat_sub_of_le _ _ hone, hn]
    rfl
  unfold contents
  show (List.range (r.tail - (r.head + 1)).toNat).map _ = _
  rw [hshrink, hn, List.range_succ_eq_map, List.map_cons, List.tail_cons, List.map_map]
  apply List.map_congr_left
  intro i hi
  have hi : i < n := List.mem_range.mp hi
  have hindex : r.head + 1 + UInt64.ofNat i = r.head + UInt64.ofNat (i + 1) := by
    rw [UInt64.ofNat_add, UInt64.add_assoc, UInt64.add_comm 1]
    rfl
  have hne := slot_add_ne hcapacity r.head (Nat.succ_pos i) (by omega)
  rw [show r.head + UInt64.ofNat 0 = r.head from UInt64.add_zero _] at hne
  show Function.update r.storage (r.slot r.head) left (r.slot (r.head + 1 + UInt64.ofNat i)) = _
  rw [hindex]
  exact Function.update_of_ne hne.symm _ _

end Contents

/-!
## The two tests
-/

section Tests

variable {r : SpscRingBuffer α} {k : Nat}

theorem tryPush_full {item : α} (h : ¬r.size < r.capacity) : r.tryPush item = (false, r) :=
  if_pos (UInt64.not_lt.mp h)

theorem tryPush_room {item : α} (h : r.size < r.capacity) :
    r.tryPush item = (true,
      { r with
        storage := Function.update r.storage (r.slot r.tail) item
        tail := r.tail + 1 }) :=
  if_neg (UInt64.not_le.mpr h)

theorem size_eq_zero_iff : r.size = 0 <-> r.head = r.tail := by
  unfold size
  grind

/-- The subtraction of the full test is right for all indices. -/
theorem push_fifo (hcapacity : r.capacity.toNat = 2 ^ k) (item : α) :
    ((r.tryPush item).1 = true <-> r.tail - r.head < r.capacity) ∧
      (r.tryPush item).2.contents =
        if r.tail - r.head < r.capacity then r.contents ++ [item] else r.contents := by
  by_cases hroom : r.tail - r.head < r.capacity
  · rw [tryPush_room hroom, if_pos hroom]
    exact ⟨⟨fun _ => hroom, fun _ => rfl⟩, contents_pushed hcapacity hroom item⟩
  · rw [tryPush_full hroom, if_neg hroom]
    exact ⟨iff_of_false Bool.false_ne_true hroom, rfl⟩

/-- The comparison of the empty test is right while the tail has not wrapped ahead. -/
theorem pop_fifo (hcapacity : r.capacity.toNat = 2 ^ k) (hsize : r.size <= r.capacity)
    (horder : r.head <= r.tail) (left : α) :
    ((r.tryPop left).1 =
        if r.tail - r.head = 0 then none else some (r.storage (r.slot r.head))) ∧
      (r.tryPop left).2.contents = r.contents.tail := by
  by_cases hempty : r.head = r.tail
  · have hzero : r.tail - r.head = 0 := size_eq_zero_iff.mpr hempty
    have hnothing : r.contents = [] := by
      unfold contents size
      rw [hzero]
      rfl
    have hpop : r.tryPop left = (none, r) := if_pos (hempty ▸ UInt64.le_refl _)
    rw [hpop, if_pos hzero]
    refine ⟨rfl, ?_⟩
    show r.contents = r.contents.tail
    rw [hnothing]
    rfl
  · have hmore : r.tail - r.head ≠ 0 := fun h => hempty (size_eq_zero_iff.mp h)
    have hpop : r.tryPop left = (some (r.storage (r.slot r.head)),
        { r with
          storage := Function.update r.storage (r.slot r.head) left
          head := r.head + 1 }) :=
      if_neg fun h => hempty (UInt64.le_antisymm horder h)
    rw [hpop, if_neg hmore]
    exact ⟨rfl, contents_popped hcapacity hsize hmore left⟩

/-- With the tail wrapped ahead of the head, the items are not seen. -/
theorem not_fifo_of_wrapped (hwrapped : ¬r.head <= r.tail) : ¬r.Fifo := by
  intro hfifo
  have hresult := hfifo.pop_result (r.storage 0)
  have hpop : r.tryPop (r.storage 0) = (none, r) :=
    if_pos (UInt64.le_of_lt (UInt64.not_le.mp hwrapped))
  have hmore : r.tail - r.head ≠ 0 := by
    intro hzero
    rw [size_eq_zero_iff.mp hzero] at hwrapped
    exact hwrapped (UInt64.le_refl _)
  rw [hpop, if_neg hmore] at hresult
  cases hresult

/-- The ring is a queue exactly while the indices are in order as numbers. -/
theorem ring_fifo_iff_in_order (hcapacity : r.capacity.toNat = 2 ^ k)
    (hsize : r.tail - r.head <= r.capacity) : r.Fifo <-> r.head <= r.tail := by
  constructor
  · intro hfifo
    by_cases horder : r.head <= r.tail
    · exact horder
    · exact absurd hfifo (not_fifo_of_wrapped horder)
  · intro horder
    exact
      { pop_result := fun left => (pop_fifo hcapacity hsize horder left).left
        pop_contents := fun left => (pop_fifo hcapacity hsize horder left).right
        push_result := fun item => (push_fifo hcapacity item).left
        push_contents := fun item => (push_fifo hcapacity item).right }

end Tests

def lastIndex : SpscRingBuffer Nat where
  capacity := 1
  head := 18446744073709551615
  tail := 18446744073709551615
  storage := fun _ => 0

theorem ring_fifo_lastIndex : lastIndex.Fifo :=
  (ring_fifo_iff_in_order (k := 0) rfl (by decide)).mpr (by decide)

/-- After the next push the ring holds its item, is full, and cannot be popped. -/
theorem wrapped_ring_not_popped :
    (lastIndex.tryPush 7).2.size = 1 ∧ (lastIndex.tryPush 7).2.contents = [7] ∧
      ((lastIndex.tryPush 7).2.tryPush 8).1 = false ∧
      ((lastIndex.tryPush 7).2.tryPop 0).1 = none := by
  decide

end SpscRingBuffer
end LockFree
end MiniExchange
