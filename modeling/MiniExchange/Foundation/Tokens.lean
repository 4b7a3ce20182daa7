import Mathlib.Data.List.TakeWhile

/-!
# Tokens of a text

A text is cut into the maximal runs of characters that are not blank.  The
relation `Runs` says what these are; `split` finds them in one pass.
-/

namespace MiniExchange
namespace Foundation
namespace Tokens

variable {α : Type}

/-- The tokens of a text: gaps of blanks, with a maximal run of other characters between them. -/
inductive Runs (blank : α -> Bool) : List α -> List (List α) -> Prop where
  | gap {gap : List α} (hgap : forall c, c ∈ gap -> blank c = true) : Runs blank gap []
  | token {gap token rest : List α} {tokens : List (List α)}
      (hgap : forall c, c ∈ gap -> blank c = true) (hne : token ≠ [])
      (htoken : forall c, c ∈ token -> blank c = false)
      (hrest : forall c, rest.head? = some c -> blank c = true) (h : Runs blank rest tokens) :
      Runs blank (gap ++ (token ++ rest)) (token :: tokens)

def word (blank : α -> Bool) (text : List α) : List α :=
  text.takeWhile fun c => !blank c

def afterWord (blank : α -> Bool) (text : List α) : List α :=
  text.dropWhile fun c => !blank c

def splitWithin (blank : α -> Bool) : Nat -> List α -> List (List α)
  | 0, _ => []
  | fuel + 1, text =>
      match text.dropWhile blank with
      | [] => []
      | c :: rest =>
          word blank (c :: rest) :: splitWithin blank fuel (afterWord blank (c :: rest))

/-- Every round takes a character at least, so the length of the text bounds the rounds. -/
def split (blank : α -> Bool) (text : List α) : List (List α) :=
  splitWithin blank text.length text

variable {blank : α -> Bool} {text : List α} {tokens : List (List α)}

/-!
## One round
-/

theorem blank_head_afterWord {c : α} (h : (afterWord blank text).head? = some c) :
    blank c = true := by
  have hstop := List.head?_dropWhile_not (fun c => !blank c) text
  rw [show List.dropWhile (fun c => !blank c) text = afterWord blank text from rfl, h] at hstop
  simpa using hstop

theorem blank_head_dropWhile {c : α} {rest : List α} (h : text.dropWhile blank = c :: rest) :
    blank c = false := by
  have hstop := List.head?_dropWhile_not blank text
  rw [h] at hstop
  simpa using hstop

theorem word_append_afterWord (text : List α) : word blank text ++ afterWord blank text = text :=
  List.takeWhile_append_dropWhile

theorem not_blank_of_mem_word {c : α} (h : c ∈ word blank text) : blank c = false := by
  have hkeep := List.mem_takeWhile_imp h
  simpa using hkeep

theorem word_of_run {token rest : List α} (htoken : forall c, c ∈ token -> blank c = false)
    (hrest : forall c, rest.head? = some c -> blank c = true) :
    word blank (token ++ rest) = token ∧ afterWord blank (token ++ rest) = rest := by
  have hkeep : forall c, c ∈ token -> (!blank c) = true := by
    intro c hc
    rw [htoken c hc, Bool.not_false]
  unfold word afterWord
  rw [List.takeWhile_append_of_pos hkeep, List.dropWhile_append_of_pos hkeep]
  cases rest with
  | nil => simp
  | cons c rest => simp [hrest c rfl]

theorem dropWhile_of_gap {gap token : List α} (rest : List α)
    (hgap : forall c, c ∈ gap -> blank c = true) (hne : token ≠ [])
    (htoken : forall c, c ∈ token -> blank c = false) :
    (gap ++ (token ++ rest)).dropWhile blank = token ++ rest := by
  rw [List.dropWhile_append_of_pos hgap]
  cases token with
  | nil => exact absurd rfl hne
  | cons c token => simp [htoken c List.mem_cons_self]

/-!
## The split and the runs
-/

theorem runs_splitWithin {fuel : Nat} (hfuel : text.length <= fuel) :
    Runs blank text (splitWithin blank fuel text) := by
  induction fuel generalizing text with
  | zero =>
      rw [List.length_eq_zero_iff.mp (Nat.le_zero.mp hfuel)]
      exact .gap fun c hc => absurd hc List.not_mem_nil
  | succ fuel ih =>
      unfold splitWithin
      split
      · next hskip => exact .gap (List.dropWhile_eq_nil_iff.mp hskip)
      · next c rest hskip =>
          have hc := blank_head_dropWhile hskip
          have hword : word blank (c :: rest) = c :: word blank rest := by
            simp [word, hc]
          have hparts : text = text.takeWhile blank ++
              (word blank (c :: rest) ++ afterWord blank (c :: rest)) := by
            rw [word_append_afterWord, ← hskip, List.takeWhile_append_dropWhile]
          have hlength : (afterWord blank (c :: rest)).length <= fuel := by
            have htotal := congrArg List.length hparts
            rw [hword, List.length_append, List.length_append, List.length_cons] at htotal
            omega
          have hruns : Runs blank (text.takeWhile blank ++
              (word blank (c :: rest) ++ afterWord blank (c :: rest)))
              (word blank (c :: rest) :: splitWithin blank fuel (afterWord blank (c :: rest))) := by
            apply Runs.token (fun d hd => List.mem_takeWhile_imp hd)
            · rw [hword]
              exact List.cons_ne_nil _ _
            · intro d hd
              exact not_blank_of_mem_word hd
            · intro d hd
              exact blank_head_afterWord hd
            · exact ih hlength
          rwa [← hparts] at hruns

theorem Runs.splitWithin_eq (h : Runs blank text tokens) :
    forall {fuel}, text.length <= fuel -> splitWithin blank fuel text = tokens := by
  induction h with
  | gap hgap =>
      intro fuel _
      cases fuel with
      | zero => rfl
      | succ fuel =>
          unfold splitWithin
          rw [List.dropWhile_eq_nil_iff.mpr hgap]
  | @token gap token rest tokens hgap hne htoken hrest _ ih =>
      intro fuel hfuel
      rcases List.exists_cons_of_ne_nil hne with ⟨c, token, rfl⟩
      rw [List.length_append, List.length_append, List.length_cons] at hfuel
      cases fuel with
      | zero => omega
      | succ fuel =>
          rcases word_of_run htoken hrest with ⟨hword, hafter⟩
          have hskip := dropWhile_of_gap rest hgap hne htoken
          unfold splitWithin
          rw [hskip]
          show word blank ((c :: token) ++ rest) ::
            splitWithin blank fuel (afterWord blank ((c :: token) ++ rest)) = _
          rw [hword, hafter, ih (by omega)]

/-- The split finds the runs, and a text has no others. -/
theorem split_eq_iff : split blank text = tokens <-> Runs blank text tokens := by
  constructor
  · rintro rfl
    exact runs_splitWithin (Nat.le_refl _)
  · intro h
    exact h.splitWithin_eq (Nat.le_refl _)

theorem runs_split (blank : α -> Bool) (text : List α) : Runs blank text (split blank text) :=
  split_eq_iff.mp rfl

theorem Runs.mem (h : Runs blank text tokens) {c : α} (hc : c ∈ text) :
    blank c = true ∨ exists token, token ∈ tokens ∧ c ∈ token := by
  induction h with
  | gap hgap => exact Or.inl (hgap c hc)
  | token hgap _ _ _ _ ih =>
      rcases List.mem_append.mp hc with hfront | hback
      · exact Or.inl (hgap c hfront)
      · rcases List.mem_append.mp hback with hword | hlater
        · exact Or.inr ⟨_, List.mem_cons_self, hword⟩
        · rcases ih hlater with hblank | ⟨token, htoken, hin⟩
          · exact Or.inl hblank
          · exact Or.inr ⟨token, List.mem_cons_of_mem _ htoken, hin⟩

theorem Runs.dropWhile_eq_nil_iff (h : Runs blank text tokens) :
    text.dropWhile blank = [] <-> tokens = [] := by
  cases h with
  | gap hgap => simp [List.dropWhile_eq_nil_iff.mpr hgap]
  | @token gap token rest tokens hgap hne htoken _ _ =>
      rw [dropWhile_of_gap rest hgap hne htoken]
      simp [hne]

theorem Runs.word_eq (h : Runs blank text tokens) :
    word blank (text.dropWhile blank) = tokens.headD [] := by
  cases h with
  | gap hgap =>
      rw [List.dropWhile_eq_nil_iff.mpr hgap]
      rfl
  | @token gap token rest tokens hgap hne htoken hrest _ =>
      rw [dropWhile_of_gap rest hgap hne htoken, (word_of_run htoken hrest).left]
      rfl

theorem Runs.single_iff (h : Runs blank text tokens) :
    (afterWord blank (text.dropWhile blank)).dropWhile blank = [] <-> tokens.tail = [] := by
  cases h with
  | gap hgap =>
      rw [List.dropWhile_eq_nil_iff.mpr hgap]
      simp [afterWord]
  | @token gap token rest tokens hgap hne htoken hrest hlater =>
      rw [dropWhile_of_gap rest hgap hne htoken, (word_of_run htoken hrest).right]
      exact hlater.dropWhile_eq_nil_iff

theorem runs_pieces (lead : List α) (pieces : List (List α × List α))
    (hlead : forall c, c ∈ lead -> blank c = true)
    (hword : forall piece, piece ∈ pieces -> piece.1 ≠ [] ∧
      forall c, c ∈ piece.1 -> blank c = false)
    (hgap : forall piece, piece ∈ pieces -> forall c, c ∈ piece.2 -> blank c = true)
    (hbetween : forall piece, piece ∈ pieces.dropLast -> piece.2 ≠ []) :
    Runs blank (lead ++ pieces.flatMap fun piece => piece.1 ++ piece.2)
      (pieces.map Prod.fst) := by
  induction pieces generalizing lead with
  | nil =>
      rw [List.flatMap_nil, List.append_nil]
      exact .gap hlead
  | cons piece pieces ih =>
      have hfirst := hword piece List.mem_cons_self
      have hbehind := hgap piece List.mem_cons_self
      have hlater := ih piece.2 hbehind
        (fun p hp => hword p (List.mem_cons_of_mem _ hp))
        (fun p hp => hgap p (List.mem_cons_of_mem _ hp))
        (fun p hp => hbetween p (by
          cases pieces with
          | nil => cases hp
          | cons q pieces => exact List.mem_cons_of_mem _ hp))
      rw [List.flatMap_cons, List.append_assoc]
      refine .token hlead hfirst.left hfirst.right ?_ hlater
      intro c hc
      cases hnext : piece.2 with
      | cons d gap =>
          rw [hnext] at hc hbehind
          exact hbehind c (Option.some.inj hc ▸ List.mem_cons_self)
      | nil =>
          -- Only the last word may stand without a gap behind it.
          cases pieces with
          | nil =>
              rw [hnext] at hc
              cases hc
          | cons q pieces => exact absurd hnext (hbetween piece List.mem_cons_self)

/-!
## Other blanks
-/

theorem Runs.map {f : α -> α} (hblank : forall c, blank (f c) = blank c)
    (hkeep : forall c, blank c = false -> f c = c) (h : Runs blank text tokens) :
    Runs blank (text.map f) tokens := by
  have hgaps : forall gap : List α, (forall c, c ∈ gap -> blank c = true) ->
      forall c, c ∈ gap.map f -> blank c = true := by
    intro gap hgap c hc
    rcases List.mem_map.mp hc with ⟨d, hd, rfl⟩
    rw [hblank, hgap d hd]
  induction h with
  | gap hgap => exact .gap (hgaps _ hgap)
  | @token gap token rest tokens hgap hne htoken hrest _ ih =>
      have hsame : token.map f = token := by
        rw [List.map_congr_left fun c hc => hkeep c (htoken c hc), List.map_id']
      rw [List.map_append, List.map_append, hsame]
      apply Runs.token (hgaps _ hgap) hne htoken _ ih
      intro c hc
      rw [List.head?_map] at hc
      rcases Option.map_eq_some_iff.mp hc with ⟨d, hd, rfl⟩
      rw [hblank, hrest d hd]

theorem Runs.congr {other : α -> Bool} (h : Runs blank text tokens)
    (hsame : forall c, c ∈ text -> blank c = other c) : Runs other text tokens := by
  induction h with
  | gap hgap => exact .gap fun c hc => (hsame c hc) ▸ hgap c hc
  | @token gap token rest tokens hgap hne htoken hrest _ ih =>
      have hlater : forall c, c ∈ rest -> blank c = other c := fun c hc =>
        hsame c (List.mem_append_right _ (List.mem_append_right _ hc))
      refine .token ?_ hne ?_ ?_ (ih hlater)
      · intro c hc
        rw [← hsame c (List.mem_append_left _ hc)]
        exact hgap c hc
      · intro c hc
        rw [← hsame c (List.mem_append_right _ (List.mem_append_left _ hc))]
        exact htoken c hc
      · intro c hc
        rw [← hlater c (List.mem_of_mem_head? hc)]
        exact hrest c hc

theorem Runs.widen {other : α -> Bool} {token : List α} (h : Runs blank text (token :: tokens))
    (hmore : forall c, blank c = true -> other c = true)
    (htoken : forall c, c ∈ token -> other c = false) :
    exists later, Runs other text (token :: later) ∧ (tokens = [] -> later = []) := by
  cases h with
  | @token gap _ rest _ hgap hne _ hrest hlater =>
      refine ⟨split other rest, ?_, ?_⟩
      · exact .token (fun c hc => hmore c (hgap c hc)) hne htoken
          (fun c hc => hmore c (hrest c hc)) (runs_split other rest)
      · rintro rfl
        cases hlater with
        | gap hend => exact split_eq_iff.mpr (.gap fun c hc => hmore c (hend c hc))

end Tokens
end Foundation
end MiniExchange
