import Mathlib.Algebra.Ring.Nat
import Mathlib.Data.List.Basic

/-!
# Queues with stale views

A queue between one producer and one consumer.  Each side knows its own
progress exactly and the other side's progress only as of its last observation;
an observation yields some value between the last one and the present one.
-/

namespace MiniExchange
namespace Foundation

/-- A queue with everything that was ever pushed, and both sides' views. -/
structure StaleQueue (α : Type) where
  items : List α := []
  popped : Nat := 0
  /-- The number of popped items that the producer has observed. -/
  seenPopped : Nat := 0
  /-- The number of pushed items that the consumer has observed. -/
  seenPushed : Nat := 0

namespace StaleQueue

variable {α : Type} {capacity observed : Nat} {q : StaleQueue α} {item : α}

/-- An observation of a counter that has only grown since it was last seen. -/
def observe (seen current observed : Nat) : Nat :=
  max seen (min observed current)

theorem le_observe (seen current observed : Nat) : seen <= observe seen current observed :=
  Nat.le_max_left _ _

theorem observe_le {seen current : Nat} (h : seen <= current) (observed : Nat) :
    observe seen current observed <= current :=
  Nat.max_le.mpr ⟨h, Nat.min_le_right _ _⟩

theorem observe_eq {seen current observed : Nat} (hseen : seen <= observed)
    (hcurrent : observed <= current) : observe seen current observed = observed := by
  unfold observe
  rw [Nat.min_eq_left hcurrent, Nat.max_eq_right hseen]

def loadPopped (q : StaleQueue α) (observed : Nat) : StaleQueue α :=
  { q with seenPopped := observe q.seenPopped q.popped observed }

def loadPushed (q : StaleQueue α) (observed : Nat) : StaleQueue α :=
  { q with seenPushed := observe q.seenPushed q.items.length observed }

def seenSize (q : StaleQueue α) : Nat :=
  q.items.length - q.seenPopped

def pending (q : StaleQueue α) : List α :=
  q.items.drop q.popped

def tryPush (capacity observed : Nat) (q : StaleQueue α) (item : α) : Bool × StaleQueue α :=
  let q := q.loadPopped observed
  if capacity <= q.seenSize then (false, q) else (true, { q with items := q.items ++ [item] })

def tryPop (observed : Nat) (q : StaleQueue α) : Option α × StaleQueue α :=
  let q := q.loadPushed observed
  if q.seenPushed <= q.popped then (none, q)
  else (q.items[q.popped]?, { q with popped := q.popped + 1 })

structure Valid (capacity : Nat) (q : StaleQueue α) : Prop where
  seenPopped_le : q.seenPopped <= q.popped
  popped_le : q.popped <= q.items.length
  seenPushed_le : q.seenPushed <= q.items.length
  bounded : q.items.length <= q.popped + capacity

theorem valid_new (capacity : Nat) : Valid capacity ({} : StaleQueue α) where
  seenPopped_le := Nat.le_refl _
  popped_le := Nat.le_refl _
  seenPushed_le := Nat.le_refl _
  bounded := Nat.zero_le _

namespace Valid

theorem loadPopped (h : Valid capacity q) (observed : Nat) :
    Valid capacity (q.loadPopped observed) :=
  { h with seenPopped_le := observe_le h.seenPopped_le observed }

theorem loadPushed (h : Valid capacity q) (observed : Nat) :
    Valid capacity (q.loadPushed observed) :=
  { h with seenPushed_le := observe_le h.seenPushed_le observed }

theorem push (h : Valid capacity q) (hroom : q.seenSize < capacity) (item : α) :
    Valid capacity { q with items := q.items ++ [item] } := by
  have hseen := h.seenPopped_le
  have hle := h.popped_le
  have hpushed := h.seenPushed_le
  unfold seenSize at hroom
  constructor <;> simp only [List.length_append, List.length_singleton] <;> omega

theorem pop (h : Valid capacity q) (hmore : q.popped < q.seenPushed) :
    Valid capacity { q with popped := q.popped + 1 } := by
  have hseen := h.seenPopped_le
  have hpushed := h.seenPushed_le
  have hbounded := h.bounded
  constructor <;> dsimp only <;> omega

theorem tryPush (h : Valid capacity q) (observed : Nat) (item : α) :
    Valid capacity (q.tryPush capacity observed item).2 := by
  unfold StaleQueue.tryPush
  dsimp only
  split
  · exact h.loadPopped observed
  · next hroom => exact (h.loadPopped observed).push (Nat.not_le.mp hroom) item

theorem tryPop (h : Valid capacity q) (observed : Nat) :
    Valid capacity (q.tryPop observed).2 := by
  unfold StaleQueue.tryPop
  dsimp only
  split
  · exact h.loadPushed observed
  · next hmore => exact (h.loadPushed observed).pop (Nat.not_le.mp hmore)

end Valid

theorem tryPush_cases (capacity observed : Nat) (q : StaleQueue α) (item : α) :
    ((q.tryPush capacity observed item).1 = true ∧
      (q.tryPush capacity observed item).2.items = q.items ++ [item]) ∨
    ((q.tryPush capacity observed item).1 = false ∧
      (q.tryPush capacity observed item).2.items = q.items) := by
  unfold tryPush
  dsimp only
  split
  · exact Or.inr ⟨rfl, rfl⟩
  · exact Or.inl ⟨rfl, rfl⟩

@[simp] theorem popped_tryPush (capacity observed : Nat) (q : StaleQueue α) (item : α) :
    (q.tryPush capacity observed item).2.popped = q.popped := by
  unfold tryPush
  dsimp only
  split <;> rfl

@[simp] theorem items_tryPop (observed : Nat) (q : StaleQueue α) :
    (q.tryPop observed).2.items = q.items := by
  unfold tryPop
  dsimp only
  split <;> rfl

theorem tryPop_cases (h : Valid capacity q) (observed : Nat) :
    ((q.tryPop observed).1 = none ∧ (q.tryPop observed).2.popped = q.popped) ∨
    exists item, (q.tryPop observed).1 = some item ∧
      (q.tryPop observed).2.popped = q.popped + 1 ∧
      q.items.take (q.popped + 1) = q.items.take q.popped ++ [item] := by
  unfold tryPop
  dsimp only
  split
  · exact Or.inl ⟨rfl, rfl⟩
  · next hmore =>
      have hlt : q.popped < q.items.length :=
        Nat.lt_of_lt_of_le (Nat.not_le.mp hmore) (observe_le h.seenPushed_le observed)
      exact Or.inr ⟨q.items[q.popped], List.getElem?_eq_getElem hlt, rfl,
        List.take_succ_eq_append_getElem hlt⟩

theorem Valid.loadPopped_self (h : Valid capacity q) : q.loadPopped q.seenPopped = q := by
  unfold StaleQueue.loadPopped
  rw [observe_eq (Nat.le_refl _) h.seenPopped_le]

theorem Valid.loadPushed_self (h : Valid capacity q) : q.loadPushed q.seenPushed = q := by
  unfold StaleQueue.loadPushed
  rw [observe_eq (Nat.le_refl _) h.seenPushed_le]

theorem Valid.tryPush_self (h : Valid capacity q) (hroom : q.seenSize < capacity) (item : α) :
    q.tryPush capacity q.seenPopped item = (true, { q with items := q.items ++ [item] }) := by
  unfold StaleQueue.tryPush
  dsimp only
  rw [h.loadPopped_self, if_neg (Nat.not_le.mpr hroom)]

theorem Valid.tryPop_self (h : Valid capacity q) (hmore : q.popped < q.seenPushed) :
    q.tryPop q.seenPushed = (q.items[q.popped]?, { q with popped := q.popped + 1 }) := by
  unfold StaleQueue.tryPop
  dsimp only
  rw [h.loadPushed_self, if_neg (Nat.not_le.mpr hmore)]

theorem tryPush_of_seenSize (hroom : q.seenSize < capacity) (observed : Nat) (item : α) :
    (q.tryPush capacity observed item).1 = true := by
  have hseen := le_observe q.seenPopped q.popped observed
  have hsize : (q.loadPopped observed).seenSize < capacity := by
    unfold seenSize at hroom
    show q.items.length - observe q.seenPopped q.popped observed < capacity
    omega
  unfold tryPush
  dsimp only
  rw [if_neg (Nat.not_le.mpr hsize)]

/-- What the consumer does cannot make the producer see less room. -/
@[simp] theorem seenSize_tryPop (observed : Nat) (q : StaleQueue α) :
    (q.tryPop observed).2.seenSize = q.seenSize := by
  unfold tryPop
  dsimp only
  split <;> rfl

/-!
## Fresh observations

A side that observes the present sees an ordinary bounded queue.
-/

theorem Valid.seenSize_fresh (h : Valid capacity q) (hobserved : q.popped <= observed) :
    (q.loadPopped observed).seenSize = q.pending.length := by
  have hfresh : observe q.seenPopped q.popped observed = q.popped := by
    unfold observe
    rw [Nat.min_eq_right hobserved, Nat.max_eq_right h.seenPopped_le]
  unfold seenSize pending
  rw [List.length_drop]
  exact congrArg (q.items.length - ·) hfresh

theorem Valid.tryPush_fresh (h : Valid capacity q) (hobserved : q.popped <= observed)
    (item : α) :
    (q.tryPush capacity observed item).1 = decide (q.pending.length < capacity) ∧
      (q.tryPush capacity observed item).2.pending =
        if capacity <= q.pending.length then q.pending else q.pending ++ [item] := by
  unfold StaleQueue.tryPush
  dsimp only
  rw [h.seenSize_fresh hobserved]
  by_cases hfull : capacity <= q.pending.length
  · rw [if_pos hfull, if_pos hfull]
    exact ⟨(decide_eq_false (Nat.not_lt.mpr hfull)).symm, rfl⟩
  · rw [if_neg hfull, if_neg hfull]
    exact ⟨(decide_eq_true (Nat.not_le.mp hfull)).symm,
      List.drop_append_of_le_length h.popped_le⟩

theorem Valid.seenPushed_fresh (h : Valid capacity q) (hobserved : q.items.length <= observed) :
    (q.loadPushed observed).seenPushed = q.items.length := by
  unfold StaleQueue.loadPushed observe
  rw [Nat.min_eq_right hobserved, Nat.max_eq_right h.seenPushed_le]

theorem Valid.tryPop_fresh (h : Valid capacity q) (hobserved : q.items.length <= observed) :
    (q.tryPop observed).1 = q.pending.head? ∧
      (q.tryPop observed).2.pending = q.pending.tail := by
  have hfresh := h.seenPushed_fresh hobserved
  unfold StaleQueue.tryPop
  dsimp only
  rw [hfresh]
  by_cases hempty : q.items.length <= (q.loadPushed observed).popped
  · have hpending : q.pending = [] := List.drop_eq_nil_of_le hempty
    rw [if_pos hempty, hpending]
    exact ⟨rfl, hpending⟩
  · rw [if_neg hempty]
    exact ⟨List.head?_drop.symm, List.tail_drop.symm⟩

end StaleQueue
end Foundation
end MiniExchange
