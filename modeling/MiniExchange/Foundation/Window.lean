import Mathlib.Data.List.Basic
import Mathlib.Data.List.DropRight

/-!
# Windows on a stream

A window keeps the latest values of a stream, oldest first.  A new value is put
behind the others, and the oldest is dropped when there are too many.
-/

namespace MiniExchange
namespace Foundation
namespace Window

variable {α : Type}

def push (n : Nat) (w : List α) (a : α) : List α :=
  if n < (w ++ [a]).length then (w ++ [a]).tail else w ++ [a]

theorem length_rtake (n : Nat) (stream : List α) :
    (stream.rtake n).length = min n stream.length := by
  unfold List.rtake
  rw [List.length_drop]
  omega

theorem push_rtake (n : Nat) (stream : List α) (a : α) :
    push n (stream.rtake n) a = (stream ++ [a]).rtake n := by
  have hlength : (stream.rtake n ++ [a]).length = min n stream.length + 1 := by
    rw [List.length_append, length_rtake, List.length_singleton]
  have hwindow : stream.rtake n ++ [a] = (stream ++ [a]).drop (stream.length - n) :=
    (List.drop_append_of_le_length (Nat.sub_le _ _)).symm
  unfold push
  rw [hlength, hwindow]
  unfold List.rtake
  rw [List.length_append, List.length_singleton]
  by_cases hfull : n <= stream.length
  · rw [if_pos (by omega), ← List.drop_one, List.drop_drop, Nat.sub_add_comm hfull]
  · rw [if_neg (by omega), Nat.sub_eq_zero_of_le (by omega), Nat.sub_eq_zero_of_le (by omega)]

theorem mem_of_mem_rtake {n : Nat} {stream : List α} {a : α} (h : a ∈ stream.rtake n) :
    a ∈ stream :=
  List.mem_of_mem_drop h

theorem rtake_append_of_le {n : Nat} (old : List α) {recent : List α}
    (h : n <= recent.length) : (old ++ recent).rtake n = recent.rtake n := by
  unfold List.rtake
  have hold : (old ++ recent).length - n = old.length + (recent.length - n) := by
    rw [List.length_append]
    omega
  rw [hold, List.drop_length_add_append]

/-!
## Echoes

A stream is continued by a rule that looks at the window.  If the rule can only
repeat the latest value once the window holds nothing else than the values of
the present episode, then after two windows all values in it are the same.
-/

/-- From the window's length on, the values repeat. -/
def Echoes (n : Nat) (values : List α) : Prop :=
  forall a, a ∈ values.drop (n - 1) -> values.getLast? = some a

theorem echoes_singleton (n : Nat) (a : α) : Echoes n [a] := by
  intro b hb
  rw [List.mem_singleton.mp (List.mem_of_mem_drop hb)]
  rfl

theorem Echoes.snoc {n : Nat} {values : List α} {a : α} (h : Echoes n values)
    (hnext : n <= values.length -> values.getLast? = some a) : Echoes n (values ++ [a]) := by
  intro b hb
  rw [List.getLast?_concat]
  rw [List.drop_append] at hb
  rcases List.mem_append.mp hb with hold | hnew
  · have hlong : n - 1 < values.length := by
      by_contra hshort
      rw [List.drop_eq_nil_of_le (Nat.le_of_not_lt hshort)] at hold
      cases hold
    rw [← hnext (by omega)]
    exact h b hold
  · rw [List.mem_singleton.mp (List.mem_of_mem_drop hnew)]

theorem Echoes.uniform {n : Nat} {values : List α} (h : Echoes n values)
    (hlong : 2 * n <= values.length + 1) {a : α} (ha : a ∈ values.rtake n) :
    values.getLast? = some a := by
  apply h
  have hsplit : values.length - n = (n - 1) + (values.length - n - (n - 1)) := by
    omega
  unfold List.rtake at ha
  rw [hsplit, ← List.drop_drop] at ha
  exact List.mem_of_mem_drop ha

end Window
end Foundation
end MiniExchange
