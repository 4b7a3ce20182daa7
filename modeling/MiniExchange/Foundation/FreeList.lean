import Mathlib.Data.List.Basic
import Mathlib.Data.List.Range

/-!
# Threaded free lists

The free cells of a pool, chained through one link stored in each of them and
closed by a sentinel.  The chain is a stack: cells are taken from and returned
to its front.
-/

namespace MiniExchange
namespace Foundation
namespace FreeList

variable {α : Type}

/-- Following `next` from `head` visits exactly `cells`, then the sentinel. -/
def Threaded (next : α -> α) (sentinel : α) : α -> List α -> Prop
  | head, [] => head = sentinel
  | head, x :: rest => head = x ∧ x ≠ sentinel ∧ Threaded next sentinel (next x) rest

theorem Threaded.congr {next next' : α -> α} {sentinel head : α}
    {cells : List α} (h : Threaded next sentinel head cells)
    (hnext : forall x, x ∈ cells -> next' x = next x) :
    Threaded next' sentinel head cells := by
  induction cells generalizing head with
  | nil => exact h
  | cons x rest ih =>
      rcases h with ⟨hx, hne, hrest⟩
      refine ⟨hx, hne, ?_⟩
      rw [hnext x List.mem_cons_self]
      exact ih hrest (fun y hy => hnext y (List.mem_cons_of_mem _ hy))

theorem Threaded.push {next next' : α -> α} {sentinel head x : α}
    {cells : List α} (h : Threaded next sentinel head cells)
    (hx : x ≠ sentinel) (hlink : next' x = head)
    (hnext : forall y, y ∈ cells -> next' y = next y) :
    Threaded next' sentinel x (x :: cells) := by
  refine ⟨rfl, hx, ?_⟩
  rw [hlink]
  exact h.congr hnext

/-- The initial chain `0 -> 1 -> ... -> n`. -/
theorem threaded_range {next : Nat -> Nat} {n : Nat}
    (hnext : forall i, i < n -> next i = i + 1) :
    Threaded next n 0 (List.range n) := by
  have hfrom : forall k m, k + m = n ->
      Threaded next n k (List.range' k m) := by
    intro k m
    induction m generalizing k with
    | zero =>
        intro hk
        exact hk
    | succ m ih =>
        intro hk
        refine ⟨rfl, by omega, ?_⟩
        rw [hnext k (by omega)]
        exact ih (k + 1) (by omega)
  rw [List.range_eq_range']
  exact hfrom 0 n (by omega)

end FreeList
end Foundation
end MiniExchange
