import Mathlib.Order.Defs.Unbundled
import Mathlib.Data.List.Basic
import Mathlib.Data.List.Pairwise

/-!
# Ordered maps

An ordered associative container with unique keys, kept as a list of entries
that is strictly increasing in the comparator.  Iteration order is the order of
the list, so the first entry has the least key and the last one the greatest.
The operations are those of an ordered tree map: lookup, insert-or-update,
in-place update, erase, and access to both ends.
-/

namespace MiniExchange
namespace Foundation

/-- A map from `K` to `V` whose entries are strictly increasing in `lt`. -/
structure SortedMap (K V : Type) (lt : K -> K -> Prop) where
  entries : List (K × V)
  sorted : entries.Pairwise (fun a b => lt a.1 b.1)

namespace SortedMap

variable {K V : Type} {lt : K -> K -> Prop}

def empty : SortedMap K V lt where
  entries := []
  sorted := List.Pairwise.nil

def isEmpty (m : SortedMap K V lt) : Bool :=
  m.entries.isEmpty

def first? (m : SortedMap K V lt) : Option (K × V) :=
  m.entries.head?

def last? (m : SortedMap K V lt) : Option (K × V) :=
  m.entries.getLast?

section Operations

variable [DecidableEq K]

def lookup (k : K) : List (K × V) -> Option V
  | [] => none
  | e :: rest => if e.1 = k then some e.2 else lookup k rest

def find? (m : SortedMap K V lt) (k : K) : Option V :=
  lookup k m.entries

/-- Apply `f` to the value stored under `k`, if there is one. -/
def modify (m : SortedMap K V lt) (k : K) (f : V -> V) : SortedMap K V lt where
  entries := m.entries.map (fun e => if e.1 = k then (e.1, f e.2) else e)
  sorted := by
    rw [List.pairwise_map]
    apply m.sorted.imp
    intro a b hab
    split <;> split <;> exact hab

/-- Remove the entry with key `k`, if there is one. -/
def erase (m : SortedMap K V lt) (k : K) : SortedMap K V lt where
  entries := m.entries.filter (fun e => decide (e.1 ≠ k))
  sorted := m.sorted.filter _

/-!
## Lookup after an update
-/

@[simp] theorem find?_empty (k : K) :
    (empty : SortedMap K V lt).find? k = none := rfl

theorem lookup_eq_none {k : K} {l : List (K × V)}
    (h : forall e, e ∈ l -> e.1 ≠ k) : lookup k l = none := by
  induction l with
  | nil => rfl
  | cons head rest ih =>
      unfold lookup
      rw [if_neg (h head List.mem_cons_self)]
      exact ih (fun e he => h e (List.mem_cons_of_mem _ he))

theorem lookup_map_value {k : K} {k' : K} {f : V -> V} (l : List (K × V)) :
    lookup k (l.map (fun e => if e.1 = k' then (e.1, f e.2) else e)) =
      if k = k' then (lookup k l).map f else lookup k l := by
  induction l with
  | nil => simp [lookup]
  | cons head rest ih =>
      by_cases hhead : head.1 = k
      · by_cases hk : k = k'
        · simp [lookup, hhead, hk]
        · simp [lookup, hhead, hk]
      · by_cases hk' : head.1 = k'
        · have hne : ¬ k' = k := by
            intro h
            exact hhead (hk'.trans h)
          simp [lookup, hk', hne, ih]
        · simp [lookup, hhead, hk', ih]

theorem find?_modify (m : SortedMap K V lt) (k k' : K) (f : V -> V) :
    (m.modify k' f).find? k =
      if k = k' then (m.find? k).map f else m.find? k :=
  lookup_map_value m.entries

theorem lookup_filter_ne (k k' : K) (l : List (K × V)) :
    lookup k (l.filter (fun e => decide (e.1 ≠ k'))) =
      if k = k' then none else lookup k l := by
  induction l with
  | nil => simp [lookup]
  | cons head rest ih =>
      by_cases hk' : head.1 = k'
      · rw [List.filter_cons_of_neg (by simp [hk']), ih]
        by_cases hk : k = k'
        · simp [hk]
        · have hne : ¬ k' = k := fun h => hk h.symm
          simp [lookup, hk, hk', hne]
      · rw [List.filter_cons_of_pos (by simp [hk'])]
        by_cases hhead : head.1 = k
        · have hk : ¬ k = k' := fun h => hk' (hhead.trans h)
          simp [lookup, hhead, hk]
        · unfold lookup
          rw [if_neg hhead, if_neg hhead]
          exact ih

theorem find?_erase (m : SortedMap K V lt) (k k' : K) :
    (m.erase k').find? k = if k = k' then none else m.find? k :=
  lookup_filter_ne k k' m.entries

/-!
## Entries and both ends

Keys are unique, so an entry is in the map exactly when lookup returns it, and
the two ends bound every key that is present.
-/

theorem lookup_of_mem [IsStrictOrder K lt] {l : List (K × V)}
    (h : l.Pairwise (fun a b => lt a.1 b.1)) {e : K × V} (he : e ∈ l) :
    lookup e.1 l = some e.2 := by
  induction l with
  | nil => cases he
  | cons head rest ih =>
      rw [List.pairwise_cons] at h
      rcases List.mem_cons.mp he with heq | hrest
      · simp [lookup, heq]
      · have hne : ¬ head.1 = e.1 := by
          intro hkey
          have hlt := h.left e hrest
          rw [hkey] at hlt
          exact irrefl_of lt e.1 hlt
        simp [lookup, hne, ih h.right hrest]

theorem mem_of_lookup {k : K} {v : V} {l : List (K × V)}
    (h : lookup k l = some v) : (k, v) ∈ l := by
  induction l with
  | nil => cases h
  | cons head rest ih =>
      unfold lookup at h
      split at h
      · next hkey =>
          cases h
          rw [← hkey]
          exact List.mem_cons_self
      · exact List.mem_cons_of_mem _ (ih h)

theorem mem_entries_iff [IsStrictOrder K lt] (m : SortedMap K V lt)
    {k : K} {v : V} :
    (k, v) ∈ m.entries <-> m.find? k = some v := by
  constructor
  · intro h
    exact lookup_of_mem m.sorted h
  · intro h
    exact mem_of_lookup h

theorem first?_eq_none_iff [IsStrictOrder K lt] (m : SortedMap K V lt) :
    m.first? = none <-> forall k, m.find? k = none := by
  constructor
  · intro h k
    have hnil : m.entries = [] := by simpa [first?] using h
    unfold find?
    rw [hnil]
    rfl
  · intro h
    cases hentries : m.entries with
    | nil => simp [first?, hentries]
    | cons head rest =>
        have hmem : (head.1, head.2) ∈ m.entries := by
          rw [hentries]
          exact List.mem_cons_self
        rw [mem_entries_iff, h] at hmem
        cases hmem

theorem first?_spec [IsStrictOrder K lt] {m : SortedMap K V lt}
    {k : K} {v : V} (h : m.first? = some (k, v)) :
    m.find? k = some v ∧
      forall k' v', m.find? k' = some v' -> k' = k ∨ lt k k' := by
  rcases List.head?_eq_some_iff.mp h with ⟨rest, hentries⟩
  constructor
  · rw [← mem_entries_iff, hentries]
    exact List.mem_cons_self
  · intro k' v' hfind
    have hsorted := m.sorted
    rw [← mem_entries_iff, hentries] at hfind
    rw [hentries, List.pairwise_cons] at hsorted
    rcases List.mem_cons.mp hfind with heq | hrest
    · exact Or.inl (congrArg Prod.fst heq)
    · exact Or.inr (hsorted.left _ hrest)

theorem last?_spec [IsStrictOrder K lt] {m : SortedMap K V lt}
    {k : K} {v : V} (h : m.last? = some (k, v)) :
    m.find? k = some v ∧
      forall k' v', m.find? k' = some v' -> k' = k ∨ lt k' k := by
  rcases List.getLast?_eq_some_iff.mp h with ⟨front, hentries⟩
  constructor
  · rw [← mem_entries_iff, hentries]
    exact List.mem_append_right _ List.mem_cons_self
  · intro k' v' hfind
    have hsorted := m.sorted
    rw [← mem_entries_iff, hentries] at hfind
    rw [hentries, List.pairwise_append] at hsorted
    rcases List.mem_append.mp hfind with hfront | hlast
    · exact Or.inr (hsorted.right.right _ hfront _ List.mem_cons_self)
    · exact Or.inl (congrArg Prod.fst (List.mem_singleton.mp hlast))

theorem last?_eq_none_iff [IsStrictOrder K lt] (m : SortedMap K V lt) :
    m.last? = none <-> forall k, m.find? k = none := by
  rw [← first?_eq_none_iff]
  unfold first? last?
  rw [List.getLast?_eq_none_iff, List.head?_eq_none_iff]

theorem isEmpty_iff_find? [IsStrictOrder K lt] (m : SortedMap K V lt) :
    m.isEmpty = true <-> forall k, m.find? k = none := by
  rw [← first?_eq_none_iff]
  unfold isEmpty first?
  simp [List.head?_eq_none_iff]

/-!
## Insert or update
-/

section Upsert

variable [DecidableRel lt]

/-- List form of `upsert`. -/
def upsertEntries (lt : K -> K -> Prop) [DecidableRel lt]
    (k : K) (f : Option V -> V) : List (K × V) -> List (K × V)
  | [] => [(k, f none)]
  | e :: rest =>
      if e.1 = k then (k, f (some e.2)) :: rest
      else if lt k e.1 then (k, f none) :: e :: rest
      else e :: upsertEntries lt k f rest

theorem mem_upsertEntries_key {k : K} {f : Option V -> V}
    {l : List (K × V)} {e : K × V}
    (h : e ∈ upsertEntries lt k f l) :
    e.1 = k ∨ e ∈ l := by
  induction l with
  | nil =>
      simp [upsertEntries] at h
      exact Or.inl (by rw [h])
  | cons head rest ih =>
      unfold upsertEntries at h
      split at h
      · rcases List.mem_cons.mp h with heq | hrest
        · exact Or.inl (by rw [heq])
        · exact Or.inr (List.mem_cons_of_mem _ hrest)
      · split at h
        · rcases List.mem_cons.mp h with heq | hrest
          · exact Or.inl (by rw [heq])
          · exact Or.inr hrest
        · rcases List.mem_cons.mp h with heq | hrest
          · exact Or.inr (by rw [heq]; exact List.mem_cons_self)
          · rcases ih hrest with hkey | hmem
            · exact Or.inl hkey
            · exact Or.inr (List.mem_cons_of_mem _ hmem)

theorem pairwise_upsertEntries [IsStrictTotalOrder K lt]
    (k : K) (f : Option V -> V) {l : List (K × V)}
    (h : l.Pairwise (fun a b => lt a.1 b.1)) :
    (upsertEntries lt k f l).Pairwise (fun a b => lt a.1 b.1) := by
  induction l with
  | nil =>
      simp [upsertEntries]
  | cons head rest ih =>
      rw [List.pairwise_cons] at h
      unfold upsertEntries
      split
      · next heq =>
          rw [List.pairwise_cons]
          refine ⟨?_, h.right⟩
          intro e he
          have hlt := h.left e he
          rw [heq] at hlt
          exact hlt
      · next hne =>
          split
          · next hlt =>
              rw [List.pairwise_cons]
              refine ⟨?_, List.pairwise_cons.mpr h⟩
              intro e he
              rcases List.mem_cons.mp he with heq | hrest
              · rw [heq]
                exact hlt
              · exact IsTrans.trans _ _ _ hlt (h.left e hrest)
          · next hnlt =>
              rw [List.pairwise_cons]
              refine ⟨?_, ih h.right⟩
              intro e he
              rcases mem_upsertEntries_key he with hkey | hmem
              · rw [hkey]
                rcases trichotomous_of lt head.1 k with hlt | heq | hgt
                · exact hlt
                · exact absurd heq hne
                · exact absurd hgt hnlt
              · exact h.left e hmem

/--
Store `f` of the previous value under `k`, inserting a new entry at its place
when the key is absent.
-/
def upsert [IsStrictTotalOrder K lt] (m : SortedMap K V lt)
    (k : K) (f : Option V -> V) : SortedMap K V lt where
  entries := upsertEntries lt k f m.entries
  sorted := pairwise_upsertEntries k f m.sorted

theorem lookup_upsertEntries [IsStrictTotalOrder K lt]
    (k k' : K) (f : Option V -> V) {l : List (K × V)}
    (h : l.Pairwise (fun a b => lt a.1 b.1)) :
    lookup k (upsertEntries lt k' f l) =
      if k = k' then some (f (lookup k l)) else lookup k l := by
  induction l with
  | nil =>
      by_cases hk : k = k'
      · simp [upsertEntries, lookup, hk]
      · have hne : ¬ k' = k := fun h => hk h.symm
        simp [upsertEntries, lookup, hk, hne]
  | cons head rest ih =>
      rw [List.pairwise_cons] at h
      unfold upsertEntries
      by_cases hhead : head.1 = k'
      · rw [if_pos hhead]
        by_cases hk : k = k'
        · simp [lookup, hk, hhead]
        · have hne : ¬ k' = k := fun h => hk h.symm
          simp [lookup, hk, hne, hhead]
      · rw [if_neg hhead]
        by_cases hlt : lt k' head.1
        · rw [if_pos hlt]
          by_cases hk : k = k'
          · have hnone : lookup k (head :: rest) = none := by
              apply lookup_eq_none
              intro e he heq
              rcases List.mem_cons.mp he with hhd | hrest
              · exact hhead (by rw [← hhd, heq, hk])
              · have hbefore := IsTrans.trans _ _ _ hlt (h.left e hrest)
                rw [heq, hk] at hbefore
                exact irrefl_of lt k' hbefore
            rw [if_pos hk, hnone, hk]
            simp [lookup]
          · have hne : ¬ k' = k := fun h => hk h.symm
            rw [if_neg hk]
            simp [lookup, hne]
        · rw [if_neg hlt]
          by_cases hk : k = k'
          · have hne : ¬ head.1 = k := fun h => hhead (h.trans hk)
            unfold lookup
            rw [if_neg hne, if_neg hne, ih h.right]
          · simp [lookup, ih h.right, hk]

theorem find?_upsert [IsStrictTotalOrder K lt]
    (m : SortedMap K V lt) (k k' : K) (f : Option V -> V) :
    (m.upsert k' f).find? k =
      if k = k' then some (f (m.find? k)) else m.find? k :=
  lookup_upsertEntries k k' f m.sorted

end Upsert

end Operations

end SortedMap
end Foundation
end MiniExchange
