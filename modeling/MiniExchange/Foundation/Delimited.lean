import Mathlib.Data.List.Basic

/-!
# Terminated chunks

Texts that are sequences of chunks, each followed by a separator: cutting a
text into its chunks, and where a search can match in it.  A needle that
consists of the separator and a key can only match in front of a chunk that
starts with the key.
-/

namespace MiniExchange
namespace Foundation
namespace Delimited

variable {α : Type}

def terminated (sep : α) (chunks : List (List α)) : List α :=
  chunks.flatMap fun chunk => chunk ++ [sep]

@[simp] theorem terminated_nil (sep : α) : terminated sep [] = [] := rfl

theorem terminated_cons (sep : α) (chunk : List α) (chunks : List (List α)) :
    terminated sep (chunk :: chunks) = chunk ++ sep :: terminated sep chunks := by
  simp [terminated]

theorem terminated_append (sep : α) (front back : List (List α)) :
    terminated sep (front ++ back) = terminated sep front ++ terminated sep back := by
  simp [terminated]

def offset (sep : α) (chunks : List (List α)) (i : Nat) : Nat :=
  (terminated sep (chunks.take i)).length

theorem offset_front (sep : α) (front back : List (List α)) :
    offset sep (front ++ back) front.length = (terminated sep front).length := by
  rw [offset, List.take_left]

theorem offset_lt_succ (sep : α) {chunks : List (List α)} {i : Nat} (h : i < chunks.length) :
    offset sep chunks i < offset sep chunks (i + 1) := by
  unfold offset
  rw [List.take_succ_eq_append_getElem h, terminated_append, terminated_cons]
  simp only [List.length_append, List.length_cons]
  omega

theorem offset_lt {sep : α} {chunks : List (List α)} {i j : Nat} (hij : i < j)
    (hj : j <= chunks.length) : offset sep chunks i < offset sep chunks j := by
  induction j with
  | zero => exact absurd hij (Nat.not_lt_zero i)
  | succ j ih =>
      have hstep := offset_lt_succ sep (show j < chunks.length from hj)
      rcases Nat.lt_or_eq_of_le (Nat.le_of_lt_succ hij) with hlt | rfl
      · exact Nat.lt_trans (ih hlt (Nat.le_of_lt hj)) hstep
      · exact hstep

theorem offset_le_iff {sep : α} {chunks : List (List α)} {i j : Nat} (hi : i <= chunks.length)
    (hj : j <= chunks.length) : offset sep chunks i <= offset sep chunks j <-> i <= j := by
  rcases Nat.lt_trichotomy i j with hlt | rfl | hgt
  · exact ⟨fun _ => Nat.le_of_lt hlt, fun _ => Nat.le_of_lt (offset_lt hlt hj)⟩
  · exact ⟨fun _ => Nat.le_refl _, fun _ => Nat.le_refl _⟩
  · have hback : offset sep chunks j < offset sep chunks i := offset_lt hgt hi
    omega

section Keys

variable {sep : α} {key chunk : List α}

theorem key_prefix_iff (hkey : sep ∉ key) (text : List α) :
    key <+: chunk ++ sep :: text <-> key <+: chunk := by
  constructor
  · intro h
    rcases List.prefix_or_prefix_of_prefix h (List.prefix_append chunk _) with hin | ⟨more, rfl⟩
    · exact hin
    · cases more with
      | nil => simp
      | cons a more =>
          -- The key would reach over the separator.
          have hrest := (List.prefix_append_right_inj chunk).mp h
          have ha : a = sep := (List.cons_prefix_cons.mp hrest).left
          refine absurd ?_ hkey
          rw [ha]
          exact List.mem_append_right _ List.mem_cons_self
  · intro h
    exact h.trans (List.prefix_append _ _)

theorem key_prefix_terminated (hkey : sep ∉ key) (hne : key ≠ []) {chunks : List (List α)} :
    key <+: terminated sep chunks <-> exists chunk, chunks.head? = some chunk ∧ key <+: chunk := by
  cases chunks with
  | nil =>
      constructor
      · intro h
        exact absurd (List.prefix_nil.mp h) hne
      · rintro ⟨chunk, hchunk, -⟩
        cases hchunk
  | cons first chunks =>
      rw [terminated_cons, key_prefix_iff hkey]
      constructor
      · intro h
        exact ⟨first, rfl, h⟩
      · rintro ⟨chunk, hchunk, h⟩
        rw [Option.some.inj hchunk]
        exact h

theorem not_key_prefix_terminated (hkey : sep ∉ key) (hne : key ≠ [])
    (hnone : forall c, c ∈ chunks -> ¬ key <+: c) : ¬ key <+: terminated sep chunks := by
  rw [key_prefix_terminated hkey hne]
  rintro ⟨d, hd, hstarts⟩
  exact hnone d (List.mem_of_mem_head? hd) hstarts

end Keys

variable [DecidableEq α]

/-- The chunks of a text, and what follows the last separator. -/
def split (sep : α) : List α -> List (List α) × List α
  | [] => ([], [])
  | a :: text =>
      if a = sep then ([] :: (split sep text).1, (split sep text).2)
      else
        match (split sep text).1 with
        | [] => ([], a :: (split sep text).2)
        | chunk :: chunks => ((a :: chunk) :: chunks, (split sep text).2)

def find (needle : List α) : List α -> Option Nat
  | [] => if needle = [] then some 0 else none
  | a :: text =>
      if needle <+: a :: text then some 0 else (find needle text).map (· + 1)

def rfind (needle : List α) : List α -> Option Nat
  | [] => if needle = [] then some 0 else none
  | a :: text =>
      ((rfind needle text).map (· + 1)).or (if needle <+: a :: text then some 0 else none)

theorem find_cons (needle : List α) (a : α) (text : List α) :
    find needle (a :: text) =
      if needle <+: a :: text then some 0 else (find needle text).map (· + 1) :=
  rfl

theorem rfind_cons (needle : List α) (a : α) (text : List α) :
    rfind needle (a :: text) =
      ((rfind needle text).map (· + 1)).or (if needle <+: a :: text then some 0 else none) :=
  rfl

/-!
## Cutting
-/

section Cutting

variable {sep : α} {chunk text rest : List α} {chunks : List (List α)}

theorem split_free (h : sep ∉ rest) : split sep rest = ([], rest) := by
  induction rest with
  | nil => rfl
  | cons a rest ih =>
      have ha : a ≠ sep := fun heq => h (heq ▸ List.mem_cons_self)
      have hrest := ih fun hmem => h (List.mem_cons_of_mem _ hmem)
      simp [split, ha, hrest]

theorem split_chunk (h : sep ∉ chunk) (text : List α) :
    split sep (chunk ++ sep :: text) = (chunk :: (split sep text).1, (split sep text).2) := by
  induction chunk with
  | nil => simp [split]
  | cons a chunk ih =>
      have ha : a ≠ sep := fun heq => h (heq ▸ List.mem_cons_self)
      have hrest := ih fun hmem => h (List.mem_cons_of_mem _ hmem)
      simp [split, ha, hrest]

theorem split_append (h : forall chunk, chunk ∈ chunks -> sep ∉ chunk) (text : List α) :
    split sep (terminated sep chunks ++ text) =
      (chunks ++ (split sep text).1, (split sep text).2) := by
  induction chunks with
  | nil => rfl
  | cons chunk chunks ih =>
      have htail := ih fun other hother => h other (List.mem_cons_of_mem _ hother)
      rw [terminated_cons, List.append_assoc, List.cons_append,
        split_chunk (h chunk List.mem_cons_self), htail]
      rfl

theorem split_terminated (h : forall chunk, chunk ∈ chunks -> sep ∉ chunk) :
    split sep (terminated sep chunks) = (chunks, []) := by
  have hsplit := split_append h []
  rw [List.append_nil, split_free List.not_mem_nil, List.append_nil] at hsplit
  exact hsplit

theorem split_spec (sep : α) (text : List α) :
    text = terminated sep (split sep text).1 ++ (split sep text).2 ∧
      (forall chunk, chunk ∈ (split sep text).1 -> sep ∉ chunk) ∧ sep ∉ (split sep text).2 := by
  induction text with
  | nil => simp [split]
  | cons a text ih =>
      rcases ih with ⟨htext, hchunks, hrest⟩
      unfold split
      split
      · next ha =>
          refine ⟨?_, ?_, hrest⟩
          · rw [terminated_cons, List.nil_append, List.cons_append, ← htext, ha]
          · intro chunk hchunk
            rcases List.mem_cons.mp hchunk with rfl | hold
            · exact List.not_mem_nil
            · exact hchunks chunk hold
      · next ha =>
          cases hfirst : (split sep text).1 with
          | nil =>
              rw [hfirst, terminated_nil, List.nil_append] at htext
              refine ⟨?_, ?_, ?_⟩
              · rw [terminated_nil, List.nil_append, ← htext]
              · intro chunk hchunk
                cases hchunk
              · intro hmem
                rcases List.mem_cons.mp hmem with heq | hold
                · exact ha heq.symm
                · exact hrest hold
          | cons first more =>
              rw [hfirst] at htext hchunks
              refine ⟨?_, ?_, hrest⟩
              · show a :: text = terminated sep ((a :: first) :: more) ++ (split sep text).2
                rw [terminated_cons, List.cons_append, List.cons_append, ← terminated_cons,
                  ← htext]
              · intro chunk hchunk hmem
                rcases List.mem_cons.mp hchunk with rfl | hold
                · rcases List.mem_cons.mp hmem with heq | hinside
                  · exact ha heq.symm
                  · exact hchunks first List.mem_cons_self hinside
                · exact hchunks chunk (List.mem_cons_of_mem _ hold) hmem

end Cutting

/-!
## Splitting at a place
-/

section Occurrence

variable {β : Type}

theorem split_at {xs : List β} {i : Nat} {x : β} (h : xs[i]? = some x) :
    exists front back, xs = front ++ x :: back ∧ front.length = i := by
  rcases List.getElem?_eq_some_iff.mp h with ⟨hi, rfl⟩
  refine ⟨xs.take i, xs.drop (i + 1), ?_, ?_⟩
  · rw [← List.drop_eq_getElem_cons hi, List.take_append_drop]
  · rw [List.length_take]
    exact Nat.min_eq_left (Nat.le_of_lt hi)

theorem append_place {a b front back : List β} {x : β} (h : a ++ b = front ++ x :: back) :
    (exists more, a = front ++ x :: more ∧ back = more ++ b) ∨
      exists before, front = a ++ before ∧ b = before ++ x :: back := by
  rcases List.append_eq_append_iff.mp h with ⟨before, hfront, hb⟩ | ⟨more, ha, hback⟩
  · exact Or.inr ⟨before, hfront, hb⟩
  · cases more with
    | nil =>
        rw [List.append_nil] at ha
        exact Or.inr ⟨[], by rw [List.append_nil, ha], hback.symm⟩
    | cons y more =>
        rw [List.cons_append, List.cons.injEq] at hback
        rw [← hback.left] at ha
        exact Or.inl ⟨more, ha, hback.right⟩

theorem not_mem_join {a c : β} {front back : List β} (hfront : a ∉ front) (hc : c ≠ a)
    (hback : a ∉ back) : a ∉ front ++ c :: back :=
  List.not_mem_append hfront (List.not_mem_cons_of_ne_of_not_mem (Ne.symm hc) hback)

theorem not_mem_parts {a x : β} {front back : List β} (h : a ∉ front ++ x :: back) :
    a ∉ front ∧ a ∉ back :=
  ⟨fun hmem => h (List.mem_append_left _ hmem),
    fun hmem => h (List.mem_append_right _ (List.mem_cons_of_mem _ hmem))⟩

theorem first_unique {x : β} {a b front back : List β} (ha : x ∉ a) (hfront : x ∉ front)
    (h : a ++ x :: b = front ++ x :: back) : a = front ∧ b = back := by
  rcases append_place h with ⟨more, rfl, -⟩ | ⟨before, rfl, hb⟩
  · exact absurd (List.mem_append_right _ List.mem_cons_self) ha
  · cases before with
    | nil => exact ⟨(List.append_nil a).symm, (List.cons.inj hb).right⟩
    | cons y before =>
        rw [List.cons_append, List.cons.injEq] at hb
        rw [← hb.left] at hfront
        exact absurd (List.mem_append_right _ List.mem_cons_self) hfront

variable (P : β -> Prop)

theorem none_or_first (xs : List β) :
    (forall x, x ∈ xs -> ¬ P x) ∨
      exists front x back, xs = front ++ x :: back ∧ P x ∧ forall y, y ∈ front -> ¬ P y := by
  induction xs with
  | nil => exact Or.inl fun _ h => absurd h List.not_mem_nil
  | cons x xs ih =>
      by_cases hx : P x
      · exact Or.inr ⟨[], x, xs, rfl, hx, fun _ h => absurd h List.not_mem_nil⟩
      · rcases ih with hnone | ⟨front, y, back, rfl, hy, hfront⟩
        · left
          intro z hz
          rcases List.mem_cons.mp hz with rfl | hz
          · exact hx
          · exact hnone z hz
        · refine Or.inr ⟨x :: front, y, back, rfl, hy, ?_⟩
          intro z hz
          rcases List.mem_cons.mp hz with rfl | hz
          · exact hx
          · exact hfront z hz

theorem none_or_last (xs : List β) :
    (forall x, x ∈ xs -> ¬ P x) ∨
      exists front x back, xs = front ++ x :: back ∧ P x ∧ forall y, y ∈ back -> ¬ P y := by
  induction xs with
  | nil => exact Or.inl fun _ h => absurd h List.not_mem_nil
  | cons x xs ih =>
      rcases ih with hnone | ⟨front, y, back, rfl, hy, hback⟩
      · by_cases hx : P x
        · exact Or.inr ⟨[], x, xs, rfl, hx, hnone⟩
        · left
          intro z hz
          rcases List.mem_cons.mp hz with rfl | hz
          · exact hx
          · exact hnone z hz
      · exact Or.inr ⟨x :: front, y, back, rfl, hy, hback⟩

end Occurrence

/-!
## Searching
-/

section Searching

variable {sep : α} {key chunk : List α}

theorem find_chunk (hchunk : sep ∉ chunk) (key text : List α) :
    find (sep :: key) (chunk ++ sep :: text) =
      if key <+: text then some chunk.length
      else (find (sep :: key) text).map (· + (chunk.length + 1)) := by
  induction chunk with
  | nil => simp [find, List.cons_prefix_cons]
  | cons a chunk ih =>
      have ha : sep ≠ a := fun heq => hchunk (heq ▸ List.mem_cons_self)
      have hrest := ih fun hmem => hchunk (List.mem_cons_of_mem _ hmem)
      have hnot : ¬ sep :: key <+: a :: (chunk ++ sep :: text) :=
        fun h => ha (List.cons_prefix_cons.mp h).left
      rw [List.cons_append, find_cons, if_neg hnot, hrest]
      split
      · rfl
      · rw [Option.map_map]
        rfl

theorem find_free {text : List α} (h : sep ∉ text) (key : List α) :
    find (sep :: key) text = none := by
  induction text with
  | nil => simp [find]
  | cons a text ih =>
      have ha : sep ≠ a := fun heq => h (heq ▸ List.mem_cons_self)
      have hnot : ¬ sep :: key <+: a :: text :=
        fun hstarts => ha (List.cons_prefix_cons.mp hstarts).left
      rw [find_cons, if_neg hnot, ih fun hmem => h (List.mem_cons_of_mem _ hmem)]
      rfl

theorem rfind_chunk (hchunk : sep ∉ chunk) (key text : List α) :
    rfind (sep :: key) (chunk ++ sep :: text) =
      ((rfind (sep :: key) text).map (· + (chunk.length + 1))).or
        (if key <+: text then some chunk.length else none) := by
  induction chunk with
  | nil => simp [rfind, List.cons_prefix_cons]
  | cons a chunk ih =>
      have ha : sep ≠ a := fun heq => hchunk (heq ▸ List.mem_cons_self)
      have hrest := ih fun hmem => hchunk (List.mem_cons_of_mem _ hmem)
      have hnot : ¬ sep :: key <+: a :: (chunk ++ sep :: text) :=
        fun h => ha (List.cons_prefix_cons.mp h).left
      rw [List.cons_append, rfind_cons, if_neg hnot, hrest, Option.or_none, Option.map_or,
        Option.map_map]
      split
      · rfl
      · rfl

variable {mark : List α} {lead tail chunks : List (List α)}

/-- The search finds the first chunk behind another that starts with the key. -/
theorem find_marked (tail : List (List α)) (hkey : sep ∉ key)
    (hfree : forall c, c ∈ lead -> sep ∉ c) (hlead : lead ≠ []) (hmark : key <+: mark)
    (hfirst : forall c, c ∈ lead.tail -> ¬ key <+: c) :
    (find (sep :: key) (terminated sep (lead ++ mark :: tail))).map (· + 1) =
      some (terminated sep lead).length := by
  induction lead with
  | nil => exact absurd rfl hlead
  | cons c lead ih =>
      rw [List.cons_append, terminated_cons, find_chunk (hfree c List.mem_cons_self),
        terminated_cons]
      cases lead with
      | nil =>
          rw [List.nil_append, terminated_cons, if_pos ((key_prefix_iff hkey _).mpr hmark)]
          simp
      | cons d lead =>
          have hnot : ¬ key <+: terminated sep (d :: lead ++ mark :: tail) := by
            rw [List.cons_append, terminated_cons, key_prefix_iff hkey]
            exact hfirst d List.mem_cons_self
          have hrest := ih (fun other hother => hfree other (List.mem_cons_of_mem _ hother))
            (List.cons_ne_nil d lead)
            (fun other hother => hfirst other (List.mem_cons_of_mem _ hother))
          rcases Option.map_eq_some_iff.mp hrest with ⟨i, hi, hlength⟩
          rw [if_neg hnot, hi]
          simp only [Option.map_some, Option.some.injEq, List.length_append, List.length_cons]
          omega

theorem find_none (hkey : sep ∉ key) (hne : key ≠ []) (hfree : forall c, c ∈ chunks -> sep ∉ c)
    (hnone : forall c, c ∈ chunks.tail -> ¬ key <+: c) :
    find (sep :: key) (terminated sep chunks) = none := by
  induction chunks with
  | nil => simp [find]
  | cons c chunks ih =>
      have hnot : ¬ key <+: terminated sep chunks :=
        not_key_prefix_terminated hkey hne hnone
      have hrest := ih (fun other hother => hfree other (List.mem_cons_of_mem _ hother))
        (fun other hother => hnone other (List.mem_of_mem_tail hother))
      rw [terminated_cons, find_chunk (hfree c List.mem_cons_self), if_neg hnot, hrest]
      rfl

theorem rfind_none (hkey : sep ∉ key) (hne : key ≠ []) (hfree : forall c, c ∈ chunks -> sep ∉ c)
    (hnone : forall c, c ∈ chunks.tail -> ¬ key <+: c) :
    rfind (sep :: key) (terminated sep chunks) = none := by
  induction chunks with
  | nil => simp [rfind]
  | cons c chunks ih =>
      have hnot : ¬ key <+: terminated sep chunks :=
        not_key_prefix_terminated hkey hne hnone
      have hrest := ih (fun other hother => hfree other (List.mem_cons_of_mem _ hother))
        (fun other hother => hnone other (List.mem_of_mem_tail hother))
      rw [terminated_cons, rfind_chunk (hfree c List.mem_cons_self), if_neg hnot, hrest]
      rfl

/-- The search from the end finds the last chunk behind another that starts with the key. -/
theorem rfind_marked (hkey : sep ∉ key) (hne : key ≠ [])
    (hfree : forall c, c ∈ lead ++ mark :: tail -> sep ∉ c) (hlead : lead ≠ [])
    (hmark : key <+: mark) (hlast : forall c, c ∈ tail -> ¬ key <+: c) :
    (rfind (sep :: key) (terminated sep (lead ++ mark :: tail))).map (· + 1) =
      some (terminated sep lead).length := by
  induction lead with
  | nil => exact absurd rfl hlead
  | cons c lead ih =>
      have hrestfree : forall d, d ∈ lead ++ mark :: tail -> sep ∉ d :=
        fun d hd => hfree d (List.mem_cons_of_mem _ hd)
      rw [List.cons_append, terminated_cons, rfind_chunk (hfree c List.mem_cons_self),
        terminated_cons]
      cases lead with
      | nil =>
          have hbehind : rfind (sep :: key) (terminated sep (mark :: tail)) = none :=
            rfind_none hkey hne hrestfree hlast
          rw [List.nil_append, hbehind, terminated_cons,
            if_pos ((key_prefix_iff hkey _).mpr hmark)]
          simp
      | cons d lead =>
          rcases Option.map_eq_some_iff.mp (ih hrestfree (List.cons_ne_nil d lead)) with
            ⟨i, hi, hlength⟩
          rw [hi]
          simp only [Option.map_some, Option.some_or, Option.some.injEq, List.length_append,
            List.length_cons]
          omega

theorem find_block {first : List α} {rest : List (List α)} (hkey : sep ∉ key)
    (hfree : forall c, c ∈ first :: rest -> sep ∉ c)
    (hrest : forall c, c ∈ rest -> ¬ key <+: c) (text : List α) :
    find (sep :: key) (terminated sep (first :: rest) ++ text) =
      if key <+: text then some ((terminated sep (first :: rest)).length - 1)
      else (find (sep :: key) text).map (· + (terminated sep (first :: rest)).length) := by
  induction rest generalizing first with
  | nil =>
      have hlength : (terminated sep [first]).length = first.length + 1 := by
        simp [terminated_cons]
      rw [terminated_cons, terminated_nil, List.append_assoc, List.singleton_append,
        find_chunk (hfree first List.mem_cons_self), ← terminated_nil sep, ← terminated_cons,
        hlength]
      rfl
  | cons second rest ih =>
      have hnot : ¬ key <+: terminated sep (second :: rest) ++ text := by
        rw [terminated_cons, List.append_assoc, List.cons_append, key_prefix_iff hkey]
        exact hrest second List.mem_cons_self
      have hblock := ih (fun c hc => hfree c (List.mem_cons_of_mem _ hc))
        (fun c hc => hrest c (List.mem_cons_of_mem _ hc))
      have hpos : 0 < (terminated sep (second :: rest)).length := by
        rw [terminated_cons, List.length_append, List.length_cons]
        omega
      rw [terminated_cons, List.append_assoc, List.cons_append,
        find_chunk (hfree first List.mem_cons_self), if_neg hnot, hblock, List.length_append,
        List.length_cons]
      split
      · simp only [Option.map_some, Option.some.injEq]
        omega
      · rw [Option.map_map]
        congr 1
        funext n
        simp only [Function.comp_apply]
        omega

theorem find_replace_block {first first' : List α} {rest rest' before : List (List α)}
    (hkey : sep ∉ key) (hbefore : forall c, c ∈ before -> sep ∉ c)
    (hfree : forall c, c ∈ first :: rest -> sep ∉ c)
    (hfree' : forall c, c ∈ first' :: rest' -> sep ∉ c)
    (hfirst : key <+: first <-> key <+: first') (hrest : forall c, c ∈ rest -> ¬ key <+: c)
    (hrest' : forall c, c ∈ rest' -> ¬ key <+: c)
    (hlength : (terminated sep (first :: rest)).length =
      (terminated sep (first' :: rest')).length) (text : List α) :
    find (sep :: key) (terminated sep (before ++ first :: rest) ++ text) =
      find (sep :: key) (terminated sep (before ++ first' :: rest') ++ text) := by
  induction before with
  | nil =>
      rw [List.nil_append, List.nil_append, find_block hkey hfree hrest,
        find_block hkey hfree' hrest', hlength]
  | cons c before ih =>
      have hchunk := hbefore c List.mem_cons_self
      have hmore := ih fun other hother => hbefore other (List.mem_cons_of_mem _ hother)
      have hsame : key <+: terminated sep (before ++ first :: rest) ++ text <->
          key <+: terminated sep (before ++ first' :: rest') ++ text := by
        cases before with
        | nil =>
            rw [List.nil_append, List.nil_append, terminated_cons, terminated_cons,
              List.append_assoc, List.append_assoc, List.cons_append, List.cons_append,
              key_prefix_iff hkey, key_prefix_iff hkey]
            exact hfirst
        | cons d before =>
            rw [List.cons_append, List.cons_append, terminated_cons, terminated_cons,
              List.append_assoc, List.append_assoc, List.cons_append, List.cons_append,
              key_prefix_iff hkey, key_prefix_iff hkey]
      rw [List.cons_append, List.cons_append, terminated_cons, terminated_cons, List.append_assoc,
        List.append_assoc, List.cons_append, List.cons_append, find_chunk hchunk,
        find_chunk hchunk, hmore]
      simp only [hsame]

/-- Where the search stops, there is a first chunk that starts with the key. -/
theorem find_split {pos : Nat} (hkey : sep ∉ key) (hne : key ≠ [])
    (hfree : forall c, c ∈ chunks -> sep ∉ c)
    (h : find (sep :: key) (terminated sep chunks) = some pos) :
    exists lead mark tail, chunks = lead ++ mark :: tail ∧ lead ≠ [] ∧ key <+: mark ∧
      (forall c, c ∈ lead.tail -> ¬ key <+: c) ∧ pos + 1 = (terminated sep lead).length := by
  cases chunks with
  | nil => cases h
  | cons first rest =>
      rcases none_or_first (fun c => key <+: c) rest with
        hnone | ⟨front, mark, back, rfl, hmark, hfront⟩
      · have hmissing := find_none hkey hne hfree hnone
        cases hmissing.symm.trans h
      · have hlead : forall c, c ∈ first :: front -> sep ∉ c :=
          fun c hc => hfree c (List.mem_append_left (mark :: back) hc)
        have hfound := find_marked back hkey hlead (List.cons_ne_nil first front) hmark hfront
        rw [List.cons_append, h] at hfound
        exact ⟨first :: front, mark, back, rfl, List.cons_ne_nil first front, hmark, hfront,
          Option.some.inj hfound⟩

theorem rfind_split {pos : Nat} (hkey : sep ∉ key) (hne : key ≠ [])
    (hfree : forall c, c ∈ chunks -> sep ∉ c)
    (h : rfind (sep :: key) (terminated sep chunks) = some pos) :
    exists lead mark tail, chunks = lead ++ mark :: tail ∧ lead ≠ [] ∧ key <+: mark ∧
      (forall c, c ∈ tail -> ¬ key <+: c) ∧ pos + 1 = (terminated sep lead).length := by
  cases chunks with
  | nil => cases h
  | cons first rest =>
      rcases none_or_last (fun c => key <+: c) rest with
        hnone | ⟨front, mark, back, rfl, hmark, hback⟩
      · have hmissing := rfind_none hkey hne hfree hnone
        cases hmissing.symm.trans h
      · have hfound := rfind_marked hkey hne (show forall c, c ∈ first :: front ++ mark :: back ->
          sep ∉ c from hfree) (List.cons_ne_nil first front) hmark hback
        rw [List.cons_append, h] at hfound
        exact ⟨first :: front, mark, back, rfl, List.cons_ne_nil first front, hmark, hback,
          Option.some.inj hfound⟩

end Searching

end Delimited
end Foundation
end MiniExchange
