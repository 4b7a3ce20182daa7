import Mathlib.Algebra.Ring.Nat
import Mathlib.Data.List.Basic

/-!
# Command-driven machines

Runs of a machine that executes a list of commands.  `visits` pairs every
command with the state in which it is executed, so that a property of a whole
run can be stated over its steps.
-/

namespace MiniExchange
namespace Foundation
namespace Machine

variable {σ α : Type} (step : σ -> α -> σ)

def run (s : σ) : List α -> σ
  | [] => s
  | a :: rest => run (step s a) rest

def visits (s : σ) : List α -> List (σ × α)
  | [] => []
  | a :: rest => (s, a) :: visits (step s a) rest

theorem run_append (s : σ) (before after : List α) :
    run step s (before ++ after) = run step (run step s before) after := by
  induction before generalizing s with
  | nil => rfl
  | cons a before ih => exact ih (step s a)

theorem visits_append (s : σ) (before after : List α) :
    visits step s (before ++ after) =
      visits step s before ++ visits step (run step s before) after := by
  induction before generalizing s with
  | nil => rfl
  | cons a before ih => exact congrArg (List.cons (s, a)) (ih (step s a))

theorem length_visits (s : σ) (commands : List α) :
    (visits step s commands).length = commands.length := by
  induction commands generalizing s with
  | nil => rfl
  | cons a commands ih => exact congrArg Nat.succ (ih (step s a))

variable {s : σ} {commands : List α}

theorem mem_visits_iff {v : σ × α} :
    v ∈ visits step s commands <->
      exists before after, commands = before ++ v.2 :: after ∧ v.1 = run step s before := by
  constructor
  · intro hv
    induction commands generalizing s with
    | nil => cases hv
    | cons a rest ih =>
        rcases List.mem_cons.mp hv with heq | hrest
        · exact ⟨[], rest, by rw [heq]; rfl, by rw [heq]; rfl⟩
        · rcases ih hrest with ⟨before, after, hsplit, hstate⟩
          exact ⟨a :: before, after, by rw [hsplit]; rfl, hstate⟩
  · rintro ⟨before, after, hsplit, hstate⟩
    rw [hsplit, visits_append, ← hstate]
    exact List.mem_append_right _ List.mem_cons_self

theorem mem_of_mem_visits {v : σ × α}
    (h : v ∈ visits step s commands) : v.2 ∈ commands := by
  rcases (mem_visits_iff step).mp h with ⟨before, after, hsplit, -⟩
  rw [hsplit]
  exact List.mem_append_right _ List.mem_cons_self

variable {step}

theorem run_invariant {P : σ -> Prop} (hstep : forall s a, P s -> P (step s a))
    (h : P s) (commands : List α) : P (run step s commands) := by
  induction commands generalizing s with
  | nil => exact h
  | cons a rest ih => exact ih (hstep s a h)

theorem run_invariant_of {P : σ -> Prop} {ok : σ -> α -> Prop}
    (hstep : forall s a, P s -> ok s a -> P (step s a)) (h : P s)
    (hok : forall v, v ∈ visits step s commands -> ok v.1 v.2) :
    P (run step s commands) := by
  induction commands generalizing s with
  | nil => exact h
  | cons a rest ih =>
      apply ih (hstep s a h (hok _ List.mem_cons_self))
      intro v hv
      exact hok v (List.mem_cons_of_mem _ hv)

/-- Two machines that are driven by the same commands stay related. -/
theorem run_related {τ : Type} {step' : τ -> α -> τ} {R : σ -> τ -> Prop} {ok : τ -> α -> Prop}
    (hstep : forall s t a, R s t -> ok t a -> R (step s a) (step' t a)) {t : τ}
    (h : R s t)
    (hok : forall v, v ∈ visits step' t commands -> ok v.1 v.2) :
    R (run step s commands) (run step' t commands) := by
  induction commands generalizing s t with
  | nil => exact h
  | cons a rest ih =>
      have hfirst := hok (t, a) List.mem_cons_self
      exact ih (hstep s t a h hfirst) fun v hv => hok v (List.mem_cons_of_mem _ hv)

theorem run_counted {P : Nat -> σ -> Prop}
    (hstep : forall n s a, P n s -> P (n + 1) (step s a)) {n : Nat}
    (h : P n s) (commands : List α) :
    P (n + commands.length) (run step s commands) := by
  induction commands generalizing s n with
  | nil => exact h
  | cons a rest ih =>
      have hrest := ih (hstep n s a h)
      rwa [Nat.add_assoc, Nat.add_comm 1] at hrest

/-- A quantity that every step balances is balanced over every run. -/
theorem run_balance {P : σ -> Prop} (hkeep : forall s a, P s -> P (step s a))
    {level : σ -> Nat} {gain loss : σ × α -> Nat}
    (hstep : forall s a, P s -> level s + gain (s, a) = level (step s a) + loss (s, a))
    (h : P s) (commands : List α) :
    level s + ((visits step s commands).map gain).sum =
      level (run step s commands) + ((visits step s commands).map loss).sum := by
  induction commands generalizing s with
  | nil => rfl
  | cons a rest ih =>
      have hone := hstep s a h
      have hrest := ih (hkeep s a h)
      simp only [visits, run, List.map_cons, List.sum_cons]
      omega

/-- Commands that are translated all at once can be translated one by one. -/
theorem run_translated {β : Type} (translate : β -> α) (s : σ) (commands : List β) :
    run step s (commands.map translate) =
      run (fun s b => step s (translate b)) s commands := by
  induction commands generalizing s with
  | nil => rfl
  | cons b rest ih => exact ih (step s (translate b))

theorem run_map {τ : Type} {step' : τ -> α -> τ} {f : τ -> σ}
    (hstep : forall t a, f (step' t a) = step (f t) a) (t : τ) (commands : List α) :
    f (run step' t commands) = run step (f t) commands := by
  induction commands generalizing t with
  | nil => rfl
  | cons a rest ih =>
      show f (run step' (step' t a) rest) = run step (step (f t) a) rest
      rw [ih, hstep]

/--
A machine that is driven by translated commands stays related to the original
one, and what it puts out is the translation of what that puts out.
-/
theorem run_simulated {τ β γ δ : Type} {S : τ -> β -> τ} {R : σ -> τ -> Prop}
    {K : σ -> α -> Prop} {f : α -> β} {g : γ -> δ} {p : σ × α -> γ} {q : τ × β -> δ}
    (hstep : forall s t a, R s t -> K s a ->
      R (step s a) (S t (f a)) ∧ q (t, f a) = g (p (s, a)))
    {t : τ} (h : R s t)
    (hok : forall v, v ∈ visits step s commands -> K v.1 v.2) :
    R (run step s commands) (run S t (commands.map f)) ∧
      (visits S t (commands.map f)).map q = ((visits step s commands).map p).map g := by
  induction commands generalizing s t with
  | nil => exact ⟨h, rfl⟩
  | cons a rest ih =>
      rcases hstep s t a h (hok _ List.mem_cons_self) with ⟨hrelated, hout⟩
      rcases ih hrelated (fun v hv => hok v (List.mem_cons_of_mem _ hv)) with ⟨hrun, houts⟩
      refine ⟨hrun, ?_⟩
      simp only [List.map_cons, visits, hout, houts]

/--
A machine that is given only the selected commands stays related to one that is
given all of them, if the others make no difference to the relation.
-/
theorem run_selected {τ γ : Type} {S : τ -> α -> τ} {R : σ -> τ -> Prop} {K : σ -> α -> Prop}
    {b : σ × α -> Bool} {p : σ × α -> γ} {q : τ × α -> γ}
    (hkept : forall s t a, R s t -> K s a -> b (s, a) = true ->
      R (step s a) (S t a) ∧ q (t, a) = p (s, a))
    (hdropped : forall s t a, R s t -> K s a -> b (s, a) = false -> R (step s a) t)
    {t : τ} (h : R s t)
    (hok : forall v, v ∈ visits step s commands -> K v.1 v.2) :
    R (run step s commands) (run S t (((visits step s commands).filter b).map Prod.snd)) ∧
      (visits S t (((visits step s commands).filter b).map Prod.snd)).map q =
        ((visits step s commands).filter b).map p := by
  induction commands generalizing s t with
  | nil => exact ⟨h, rfl⟩
  | cons a rest ih =>
      have hfirst := hok _ List.mem_cons_self
      have hrest := fun v hv => hok v (List.mem_cons_of_mem _ hv)
      cases hselected : b (s, a) with
      | true =>
          rcases hkept s t a h hfirst hselected with ⟨hrelated, hout⟩
          rcases ih hrelated hrest with ⟨hrun, houts⟩
          simp only [visits, List.filter_cons_of_pos hselected, List.map_cons, run, hout, houts]
          exact ⟨hrun, trivial⟩
      | false =>
          have hnot : ¬ b (s, a) = true := by simp [hselected]
          simp only [visits, List.filter_cons_of_neg hnot]
          exact ih (hdropped s t a h hfirst hselected) hrest

theorem visits_invariant {P : σ -> Prop} (hstep : forall s a, P s -> P (step s a))
    (h : P s) {v : σ × α}
    (hv : v ∈ visits step s commands) : P v.1 := by
  rcases (mem_visits_iff step).mp hv with ⟨before, after, -, hstate⟩
  rw [hstate]
  exact run_invariant hstep h before

end Machine
end Foundation
end MiniExchange
