import Mathlib.Data.List.Basic

/-!
# Intrusive doubly linked lists

Nodes carry their own `prev` and `next` pointers; the container keeps a head
and a tail.  `Linked` says that such a heap shape stands for a list of nodes.
The rules below are stated for an arbitrary later pair of pointer maps, so that
a client proves only which pointers its own code wrote and which it kept.
-/

namespace MiniExchange
namespace Foundation
namespace IntrusiveList

variable {α : Type}

/--
The nodes of `xs` are chained both ways, with `before` in front of the first
node and `after` behind the last one.
-/
def Segment (prev next : α -> Option α) :
    Option α -> List α -> Option α -> Prop
  | _, [], _ => True
  | before, x :: xs, after =>
      prev x = before ∧ next x = xs.head?.or after ∧
        Segment prev next (some x) xs after

/-- The container with this head and tail holds exactly the list `xs`. -/
structure Linked (prev next : α -> Option α) (head tail : Option α)
    (xs : List α) : Prop where
  head_eq : head = xs.head?
  tail_eq : tail = xs.getLast?
  chain : Segment prev next none xs none

/-- Nodes met on the way along `next` from a pointer, at most `fuel` of them. -/
def walk (next : α -> Option α) : Nat -> Option α -> List α
  | 0, _ => []
  | _ + 1, none => []
  | fuel + 1, some x => x :: walk next fuel (next x)

/-!
## Segments

A segment splits at any point, and depends only on the pointers of its nodes.
-/

theorem segment_append (prev next : α -> Option α) (before after : Option α)
    (xs ys : List α) :
    Segment prev next before (xs ++ ys) after <->
      Segment prev next before xs (ys.head?.or after) ∧
        Segment prev next (xs.getLast?.or before) ys after := by
  induction xs generalizing before with
  | nil => simp [Segment]
  | cons x xs ih =>
      have hlast : (x :: xs).getLast?.or before = xs.getLast?.or (some x) := by
        cases xs with
        | nil => rfl
        | cons y ys => simp [List.getLast?_cons]
      rw [hlast]
      simp only [List.cons_append, Segment, List.head?_append, Option.or_assoc, ih,
        and_assoc]

variable {prev next prev' next' : α -> Option α} {head tail : Option α} {xs : List α}

theorem segment_congr
    {before after : Option α}
    (hprev : forall y, y ∈ xs -> prev' y = prev y)
    (hnext : forall y, y ∈ xs -> next' y = next y)
    (h : Segment prev next before xs after) :
    Segment prev' next' before xs after := by
  induction xs generalizing before with
  | nil => trivial
  | cons x xs ih =>
      rcases h with ⟨hp, hn, hrest⟩
      refine ⟨?_, ?_, ?_⟩
      · rw [hprev x List.mem_cons_self, hp]
      · rw [hnext x List.mem_cons_self, hn]
      · exact ih (fun y hy => hprev y (List.mem_cons_of_mem _ hy))
          (fun y hy => hnext y (List.mem_cons_of_mem _ hy)) hrest

theorem segment_set_after
    {before after after' : Option α} (hnodup : xs.Nodup)
    (hprev : forall y, y ∈ xs -> prev' y = prev y)
    (hlast : forall y, xs.getLast? = some y -> next' y = after')
    (hnext : forall y, y ∈ xs -> xs.getLast? ≠ some y -> next' y = next y)
    (h : Segment prev next before xs after) :
    Segment prev' next' before xs after' := by
  rcases List.eq_nil_or_concat xs with hnil | ⟨front, last, hconcat⟩
  · rw [hnil]
    trivial
  · rw [List.concat_eq_append] at hconcat
    subst hconcat
    rw [segment_append] at h ⊢
    rcases h with ⟨hfront, hp, -, -⟩
    have hne : forall y, y ∈ front -> (front ++ [last]).getLast? ≠ some y := by
      intro y hy heq
      simp only [List.getLast?_concat, Option.some.injEq] at heq
      subst heq
      exact (List.nodup_append.mp hnodup).right.right _ hy _ List.mem_cons_self rfl
    refine ⟨?_, ?_, ?_, trivial⟩
    · exact segment_congr
        (fun y hy => hprev y (List.mem_append_left _ hy))
        (fun y hy => hnext y (List.mem_append_left _ hy) (hne y hy)) hfront
    · rw [hprev last (List.mem_append_right _ List.mem_cons_self), hp]
    · simpa using hlast last (by simp)

theorem segment_set_before
    {before before' after : Option α} (hnodup : xs.Nodup)
    (hfirst : forall y, xs.head? = some y -> prev' y = before')
    (hprev : forall y, y ∈ xs -> xs.head? ≠ some y -> prev' y = prev y)
    (hnext : forall y, y ∈ xs -> next' y = next y)
    (h : Segment prev next before xs after) :
    Segment prev' next' before' xs after := by
  cases xs with
  | nil => trivial
  | cons x xs =>
      rcases h with ⟨-, hn, hrest⟩
      have hx : x ∉ xs := (List.nodup_cons.mp hnodup).left
      refine ⟨hfirst x rfl, ?_, ?_⟩
      · rw [hnext x List.mem_cons_self, hn]
      · apply segment_congr _ (fun y hy => hnext y (List.mem_cons_of_mem _ hy)) hrest
        intro y hy
        apply hprev y (List.mem_cons_of_mem _ hy)
        intro heq
        cases heq
        exact hx hy

theorem segment_reverse {before after : Option α}
    (h : Segment prev next before xs after) : Segment next prev after xs.reverse before := by
  induction xs generalizing before with
  | nil => trivial
  | cons x xs ih =>
      rcases h with ⟨hp, hn, hrest⟩
      rw [List.reverse_cons, segment_append]
      refine ⟨ih hrest, ?_, ?_, trivial⟩
      · rw [hn, List.getLast?_reverse]
      · exact hp

/-!
## Linking and unlinking
-/

theorem Linked.pushBack
    {x : α}
    (h : Linked prev next head tail xs) (hnodup : xs.Nodup)
    (hprevNew : prev' x = tail) (hnextNew : next' x = none)
    (hlink : forall y, tail = some y -> next' y = some x)
    (hprev : forall y, y ∈ xs -> prev' y = prev y)
    (hnext : forall y, y ∈ xs -> tail ≠ some y -> next' y = next y) :
    Linked prev' next' (head.or (some x)) (some x) (xs ++ [x]) where
  head_eq := by
    rw [h.head_eq, List.head?_append]
    rfl
  tail_eq := by simp
  chain := by
    rw [segment_append]
    have htail := h.tail_eq
    refine ⟨?_, ?_, ?_, trivial⟩
    · apply segment_set_after hnodup hprev _ _ h.chain
      · intro y hy
        simpa using hlink y (htail.trans hy)
      · intro y hy hne
        exact hnext y hy (fun heq => hne (htail.symm.trans heq))
    · rw [hprevNew, htail]
      simp
    · simpa using hnextNew

theorem Linked.neighbours
    {front back : List α} {x : α}
    (h : Linked prev next head tail (front ++ x :: back)) :
    prev x = front.getLast? ∧ next x = back.head? := by
  rcases (segment_append prev next none none front (x :: back)).mp h.chain with
    ⟨-, hpx, hnx, -⟩
  exact ⟨by simpa using hpx, by simpa using hnx⟩

theorem Linked.unlink
    {front back : List α} {x : α}
    (h : Linked prev next head tail (front ++ x :: back))
    (hnodup : (front ++ x :: back).Nodup)
    (hbefore : forall y, prev x = some y -> next' y = next x)
    (hafter : forall y, next x = some y -> prev' y = prev x)
    (hprev : forall y, y ∈ front ++ back -> next x ≠ some y -> prev' y = prev y)
    (hnext : forall y, y ∈ front ++ back -> prev x ≠ some y -> next' y = next y) :
    Linked prev' next'
      (if prev x = none then next x else head)
      (if next x = none then prev x else tail) (front ++ back) := by
  have hchain := h.chain
  rw [segment_append] at hchain
  rcases hchain with ⟨hfront, -, -, hback⟩
  rcases h.neighbours with ⟨hpx, hnx⟩
  have hparts := List.nodup_append.mp hnodup
  have hbackNodup := (List.nodup_cons.mp hparts.right.left).right
  have hdisjoint : forall y, y ∈ front -> y ∉ back := by
    intro y hy hmem
    exact hparts.right.right y hy y (List.mem_cons_of_mem _ hmem) rfl
  refine ⟨?_, ?_, ?_⟩
  · rw [hpx, hnx, h.head_eq]
    cases front with
    | nil => simp
    | cons y ys => simp [List.getLast?_cons]
  · rw [hpx, hnx, h.tail_eq]
    cases back with
    | nil => simp
    | cons y ys => simp [List.getLast?_append, List.getLast?_cons_cons]
  · rw [segment_append]
    constructor
    · apply segment_set_after hparts.left _ _ _ hfront
      · intro y hy
        apply hprev y (List.mem_append_left _ hy)
        intro heq
        rw [hnx] at heq
        exact hdisjoint y hy (List.mem_of_head? heq)
      · intro y hy
        rw [hbefore y (hpx.trans hy), hnx]
        simp
      · intro y hy hne
        exact hnext y (List.mem_append_left _ hy)
          (fun heq => hne (hpx.symm.trans heq))
    · apply segment_set_before hbackNodup _ _ _ hback
      · intro y hy
        rw [hafter y (hnx.trans hy), hpx]
        simp
      · intro y hy hne
        exact hprev y (List.mem_append_right _ hy)
          (fun heq => hne (hnx.symm.trans heq))
      · intro y hy
        apply hnext y (List.mem_append_right _ hy)
        intro heq
        rw [hpx] at heq
        exact hdisjoint y (List.mem_of_getLast? heq) hy

theorem Linked.congr
    (h : Linked prev next head tail xs)
    (hprev : forall y, y ∈ xs -> prev' y = prev y)
    (hnext : forall y, y ∈ xs -> next' y = next y) :
    Linked prev' next' head tail xs where
  head_eq := h.head_eq
  tail_eq := h.tail_eq
  chain := segment_congr hprev hnext h.chain

/-!
## Traversal
-/

theorem walk_segment {before : Option α}
    {fuel : Nat} (h : Segment prev next before xs none)
    (hfuel : xs.length <= fuel) : walk next fuel xs.head? = xs := by
  induction xs generalizing before fuel with
  | nil => cases fuel <;> rfl
  | cons x xs ih =>
      cases fuel with
      | zero => simp at hfuel
      | succ fuel =>
          rcases h with ⟨-, hn, hrest⟩
          have hn' : next x = xs.head? := by simpa using hn
          show x :: walk next fuel (next x) = x :: xs
          rw [hn', ih hrest (by simpa using hfuel)]

theorem Linked.walk_eq
    {fuel : Nat} (h : Linked prev next head tail xs)
    (hfuel : xs.length <= fuel) : walk next fuel head = xs := by
  rw [h.head_eq]
  exact walk_segment h.chain hfuel

theorem Linked.reverse
    (h : Linked prev next head tail xs) : Linked next prev tail head xs.reverse where
  head_eq := by rw [h.tail_eq, List.head?_reverse]
  tail_eq := by rw [h.head_eq, List.getLast?_reverse]
  chain := segment_reverse h.chain

/-- From the tail along `prev` the nodes are met in reverse. -/
theorem Linked.walk_back
    {fuel : Nat} (h : Linked prev next head tail xs)
    (hfuel : xs.length <= fuel) : (walk prev fuel tail).reverse = xs := by
  rw [h.reverse.walk_eq (by rw [List.length_reverse]; exact hfuel), List.reverse_reverse]

end IntrusiveList
end Foundation
end MiniExchange
