import Mathlib.Algebra.Ring.Nat
import Mathlib.Data.List.Basic
import Mathlib.Data.List.Sort
import Mathlib.Order.Defs.Unbundled

/-!
# Priority lists

Lists kept in the order of a key, with ties in order of arrival.  A new element
goes behind every element whose key is not after its own.
-/

namespace MiniExchange
namespace Foundation
namespace PriorityList

variable {α β K : Type} {lt : K -> K -> Prop}

def Sorted (lt : K -> K -> Prop) (key : α -> K) (q : List α) : Prop :=
  q.Pairwise (fun x y => ¬ lt (key y) (key x))

theorem Sorted.congr {key key' : α -> K} {q : List α} (h : Sorted lt key q)
    (hkey : forall x, x ∈ q -> key' x = key x) : Sorted lt key' q := by
  apply List.Pairwise.imp_of_mem _ h
  intro x y hx hy hxy
  rw [hkey x hx, hkey y hy]
  exact hxy

theorem Sorted.sublist {key : α -> K} {q q' : List α} (h : Sorted lt key q)
    (hsub : q'.Sublist q) : Sorted lt key q' :=
  List.Pairwise.sublist hsub h

/-!
## Grouping by key

Iterating over the keys in order and listing, for each key, the elements that
carry it gives back a list that was already sorted by key.
-/

section Grouping

variable [DecidableEq K]

theorem filter_least_append [IsStrictOrder K lt] (key : α -> K) (k : K)
    {q : List α} (hsorted : Sorted lt key q)
    (hleast : forall x, x ∈ q -> key x = k ∨ lt k (key x)) :
    q.filter (fun x => decide (key x = k)) ++
      q.filter (fun x => decide (key x ≠ k)) = q := by
  induction q with
  | nil => rfl
  | cons x q ih =>
      have hsorted := List.pairwise_cons.mp hsorted
      have hrest := fun y hy => hleast y (List.mem_cons_of_mem x hy)
      by_cases hx : key x = k
      · rw [List.filter_cons_of_pos (by simp [hx]),
          List.filter_cons_of_neg (by simp [hx]), List.cons_append,
          ih hsorted.right hrest]
      · have hlt : lt k (key x) := (hleast x List.mem_cons_self).resolve_left hx
        have hnone : forall y, y ∈ x :: q -> ¬ key y = k := by
          intro y hy heq
          rcases List.mem_cons.mp hy with hhead | htail
          · exact hx (hhead ▸ heq)
          · exact hsorted.left y htail (heq ▸ hlt)
        rw [List.filter_eq_nil_iff.mpr (by simpa using hnone), List.nil_append,
          List.filter_eq_self]
        intro y hy
        simpa using hnone y hy

theorem flatMap_filter_key [IsStrictOrder K lt] (key : α -> K) {ks : List K}
    (hkeys : ks.Pairwise lt) {q : List α}
    (hsorted : Sorted lt key q)
    (hcover : forall x, x ∈ q -> key x ∈ ks) :
    ks.flatMap (fun k => q.filter (fun x => decide (key x = k))) = q := by
  induction ks generalizing q with
  | nil =>
      cases q with
      | nil => rfl
      | cons x q => cases hcover x List.mem_cons_self
  | cons k ks ih =>
      rw [List.pairwise_cons] at hkeys
      have hne : forall k', k' ∈ ks -> k' ≠ k := by
        intro k' hk' heq
        exact irrefl_of lt k (heq ▸ hkeys.left k' hk')
      have hsplit : ks.flatMap (fun k' => q.filter (fun x => decide (key x = k'))) =
          q.filter (fun x => decide (key x ≠ k)) := by
        rw [← ih hkeys.right (hsorted.sublist List.filter_sublist)]
        · apply List.flatMap_congr
          intro k' hk'
          rw [List.filter_filter]
          apply List.filter_congr
          intro x _
          by_cases hx : key x = k'
          · have hxk : key x ≠ k := hx ▸ hne k' hk'
            simp [hx, hne k' hk']
          · simp [hx]
        · intro x hx
          rcases List.mem_filter.mp hx with ⟨hmem, hkey⟩
          rcases List.mem_cons.mp (hcover x hmem) with heq | hrest
          · simp [heq] at hkey
          · exact hrest
      rw [List.flatMap_cons, hsplit]
      apply filter_least_append key k hsorted
      intro x hx
      rcases List.mem_cons.mp (hcover x hx) with heq | hrest
      · exact Or.inl heq
      · exact Or.inr (hkeys.left _ hrest)

end Grouping

/-!
## Arrival
-/

section Insert

variable [DecidableRel lt]

/-- Put `x` behind the elements whose keys are not after its own. -/
def insert (lt : K -> K -> Prop) [DecidableRel lt] (key : α -> K) (x : α)
    (q : List α) : List α :=
  q.orderedInsert (fun a b => lt (key a) (key b)) x

theorem perm_insert (key : α -> K) (x : α) (q : List α) :
    (insert lt key x q).Perm (x :: q) :=
  List.perm_orderedInsert _ x q

variable {key : α -> K} {q : List α}

theorem mem_insert {x y : α} :
    y ∈ insert lt key x q <-> y = x ∨ y ∈ q :=
  List.mem_orderedInsert _

theorem map_insert {key' : β -> K} {f : α -> β} {x : α}
    (hx : key' (f x) = key x)
    (hq : forall y, y ∈ q -> key' (f y) = key y) :
    (insert lt key x q).map f = insert lt key' (f x) (q.map f) := by
  apply List.map_orderedInsert
  · intro y hy
    rw [hx, hq y hy]
  · intro y hy
    rw [hx, hq y hy]

theorem map_insert_of_iff {L : Type} {lt' : L -> L -> Prop} [DecidableRel lt']
    {key' : β -> L} {f : α -> β} {x : α}
    (hbefore : forall y, y ∈ q -> (lt (key y) (key x) <-> lt' (key' (f y)) (key' (f x))))
    (hafter : forall y, y ∈ q -> (lt (key x) (key y) <-> lt' (key' (f x)) (key' (f y)))) :
    (insert lt key x q).map f = insert lt' key' (f x) (q.map f) := by
  apply List.map_orderedInsert
  · exact hbefore
  · exact hafter

/--
A relation along the list is kept if it holds from the elements that are not
after `x` to `x` and from `x` to the elements after it.
-/
theorem pairwise_insert [IsStrictTotalOrder K lt] {R : α -> α -> Prop}
    {x : α} (hsorted : Sorted lt key q)
    (hq : q.Pairwise R) (hbefore : forall y, y ∈ q -> ¬ lt (key x) (key y) -> R y x)
    (hafter : forall y, y ∈ q -> lt (key x) (key y) -> R x y) :
    (insert lt key x q).Pairwise R := by
  induction q with
  | nil => exact List.pairwise_singleton _ _
  | cons y q ih =>
      have hcons := List.pairwise_cons.mp hsorted
      have hpair := List.pairwise_cons.mp hq
      unfold insert List.orderedInsert
      split
      · next hlt =>
          apply List.pairwise_cons.mpr
          refine ⟨?_, hq⟩
          intro z hz
          rcases List.mem_cons.mp hz with heq | hrest
          · exact heq ▸ hafter y List.mem_cons_self hlt
          · apply hafter z hz
            rcases trichotomous_of lt (key y) (key z) with hyz | hyz | hzy
            · exact IsTrans.trans _ _ _ hlt hyz
            · exact hyz ▸ hlt
            · exact absurd hzy (hcons.left z hrest)
      · next hnlt =>
          apply List.pairwise_cons.mpr
          refine ⟨?_, ih hcons.right hpair.right
            (fun z hz => hbefore z (List.mem_cons_of_mem _ hz))
            (fun z hz => hafter z (List.mem_cons_of_mem _ hz))⟩
          intro z hz
          rcases mem_insert.mp hz with heq | hrest
          · exact heq ▸ hbefore y List.mem_cons_self hnlt
          · exact hpair.left z hrest

theorem sorted_insert [IsStrictTotalOrder K lt] {x : α}
    (hsorted : Sorted lt key q) :
    Sorted lt key (insert lt key x q) := by
  apply pairwise_insert hsorted hsorted
  · intro y _ hnlt
    exact hnlt
  · intro y _ hlt hgt
    exact irrefl_of lt _ (IsTrans.trans _ _ _ hlt hgt)

theorem filterMap_fixed {f : α -> Option α}
    (hq : forall y, y ∈ q -> f y = some y) : q.filterMap f = q := by
  have hsome := List.filterMap_congr hq
  rwa [List.filterMap_some] at hsome

/--
An edit that leaves the list alone, and the new element's key, can be made
before the element arrives.
-/
theorem filterMap_insert {x : α} {f : α -> Option α}
    (hq : forall y, y ∈ q -> f y = some y) (hkey : forall x', f x = some x' -> key x' = key x) :
    (insert lt key x q).filterMap f =
      (f x).elim q (fun x' => insert lt key x' q) := by
  induction q with
  | nil => cases hx : f x <;> simp [insert, hx]
  | cons y q ih =>
      have hy : f y = some y := hq y List.mem_cons_self
      have hrest := fun z hz => hq z (List.mem_cons_of_mem _ hz)
      have ih := ih hrest
      unfold insert at ih
      unfold insert List.orderedInsert
      cases hx : f x with
      | none =>
          rw [hx] at ih
          split
          · rw [List.filterMap_cons_none hx, List.filterMap_cons_some hy, filterMap_fixed hrest]
            rfl
          · rw [List.filterMap_cons_some hy, ih]
            rfl
      | some x' =>
          rw [hx] at ih
          show _ = if lt (key x') (key y) then x' :: y :: q else y :: _
          rw [hkey x' hx]
          split
          · rw [List.filterMap_cons_some hx, List.filterMap_cons_some hy, filterMap_fixed hrest]
          · rw [List.filterMap_cons_some hy, ih]
            rfl

theorem filter_insert_of_neg {x : α} {p : α -> Bool} (hx : ¬ p x = true)
    (q : List α) : (insert lt key x q).filter p = q.filter p := by
  induction q with
  | nil => exact List.filter_cons_of_neg hx
  | cons y q ih =>
      unfold insert at ih
      unfold insert List.orderedInsert
      split
      · exact List.filter_cons_of_neg hx
      · rw [List.filter_cons, List.filter_cons, ih]

theorem filter_insert_of_pos [IsStrictTotalOrder K lt] {x : α} {p : α -> Bool}
    (hx : p x = true) (hsorted : Sorted lt key q) :
    (insert lt key x q).filter p = insert lt key x (q.filter p) := by
  induction q with
  | nil => exact List.filter_cons_of_pos hx
  | cons y q ih =>
      have hcons := List.pairwise_cons.mp hsorted
      have ih := ih hcons.right
      by_cases hlt : lt (key x) (key y)
      · -- all that is left of the list is after `x`, so `x` stands first
        have hfirst : forall q', (forall z, z ∈ q' -> z ∈ y :: q) ->
            insert lt key x q' = x :: q' := by
          intro q' hq'
          cases q' with
          | nil => rfl
          | cons z rest =>
              have hz : lt (key x) (key z) := by
                rcases List.mem_cons.mp (hq' z List.mem_cons_self) with heq | hrest
                · exact heq ▸ hlt
                · rcases trichotomous_of lt (key y) (key z) with hyz | hyz | hzy
                  · exact IsTrans.trans _ _ _ hlt hyz
                  · exact hyz ▸ hlt
                  · exact absurd hzy (hcons.left z hrest)
              exact if_pos hz
        rw [hfirst (y :: q) (fun z hz => hz), List.filter_cons_of_pos hx,
          hfirst _ (fun z hz => List.mem_of_mem_filter hz)]
      · have hbehind : insert lt key x (y :: q) = y :: insert lt key x q := if_neg hlt
        rw [hbehind, List.filter_cons, List.filter_cons, ih]
        split
        · exact (if_neg hlt).symm
        · rfl

variable [DecidableEq K]

theorem filter_insert_ne {x : α} {k : K} (hk : key x ≠ k)
    (q : List α) :
    (insert lt key x q).filter (fun y => decide (key y = k)) =
      q.filter (fun y => decide (key y = k)) := by
  induction q with
  | nil => simp [insert, hk]
  | cons y q ih =>
      unfold insert List.orderedInsert
      split
      · rw [List.filter_cons_of_neg (by simp [hk])]
      · rw [List.filter_cons, List.filter_cons]
        unfold insert at ih
        rw [ih]

theorem filter_insert_self [IsStrictTotalOrder K lt] {x : α}
    (hsorted : Sorted lt key q) :
    (insert lt key x q).filter (fun y => decide (key y = key x)) =
      q.filter (fun y => decide (key y = key x)) ++ [x] := by
  induction q with
  | nil => simp [insert]
  | cons y q ih =>
      have hcons := List.pairwise_cons.mp hsorted
      unfold insert List.orderedInsert
      split
      · next hlt =>
          -- everything from `y` on is after `x`, so no equal of `x` is there
          have hnone : forall z, z ∈ y :: q -> ¬ key z = key x := by
            intro z hz heq
            rcases List.mem_cons.mp hz with hhead | hrest
            · rw [← hhead, heq] at hlt
              exact irrefl_of lt _ hlt
            · exact hcons.left z hrest (heq ▸ hlt)
          rw [List.filter_cons_of_pos (by simp),
            List.filter_eq_nil_iff.mpr (by simpa using hnone), List.nil_append]
      · have ih := ih hcons.right
        unfold insert at ih
        rw [List.filter_cons, List.filter_cons, ih]
        split <;> rfl

end Insert

/-!
## Totals by key

Elements with one key stand together, so one pass gives the total of each key.
-/

section Totals

variable [DecidableEq K] (key : α -> K) (weight : α -> Nat)

def totals : List α -> List (K × Nat)
  | [] => []
  | x :: rest =>
      match totals rest with
      | [] => [(key x, weight x)]
      | (k, n) :: more =>
          if k = key x then (k, weight x + n) :: more
          else (key x, weight x) :: (k, n) :: more

theorem totals_group_append {k : K} {group : List α} (hgroup : group ≠ [])
    (hkey : forall x, x ∈ group -> key x = k) {rest : List α}
    (hrest : forall k' n more, totals key weight rest = (k', n) :: more -> k' ≠ k) :
    totals key weight (group ++ rest) =
      (k, (group.map weight).sum) :: totals key weight rest := by
  induction group with
  | nil => exact absurd rfl hgroup
  | cons x group ih =>
      have hx : key x = k := hkey x List.mem_cons_self
      cases group with
      | nil =>
          simp only [List.cons_append, List.nil_append, totals, hx]
          cases htotals : totals key weight rest with
          | nil => simp
          | cons first more =>
              have hne : first.1 ≠ k := hrest first.1 first.2 more htotals
              simp [hne]
      | cons y group =>
          have ih := ih (List.cons_ne_nil _ _) (fun z hz => hkey z (List.mem_cons_of_mem _ hz))
          rw [List.cons_append, totals, ih]
          simp [hx]

theorem totals_flatMap {ks : List K} (hks : ks.Nodup) {group : K -> List α}
    (hne : forall k, k ∈ ks -> group k ≠ [])
    (hkey : forall k, k ∈ ks -> forall x, x ∈ group k -> key x = k) :
    totals key weight (ks.flatMap group) =
      ks.map (fun k => (k, ((group k).map weight).sum)) := by
  induction ks with
  | nil => rfl
  | cons k ks ih =>
      have hnodup := List.nodup_cons.mp hks
      have hrest := ih hnodup.right (fun j hj => hne j (List.mem_cons_of_mem _ hj))
        (fun j hj => hkey j (List.mem_cons_of_mem _ hj))
      rw [List.flatMap_cons, totals_group_append key weight (hne k List.mem_cons_self)
        (hkey k List.mem_cons_self), hrest, List.map_cons]
      intro k' n more hfirst heq
      rw [hrest] at hfirst
      have hmem : (k', n) ∈ ks.map (fun k => (k, ((group k).map weight).sum)) := by
        rw [hfirst]
        exact List.mem_cons_self
      rcases List.mem_map.mp hmem with ⟨j, hj, hpair⟩
      have hjk : j = k' := congrArg Prod.fst hpair
      exact hnodup.left (heq ▸ hjk ▸ hj)

end Totals

end PriorityList
end Foundation
end MiniExchange
