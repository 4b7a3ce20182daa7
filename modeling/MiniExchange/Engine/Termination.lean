import MiniExchange.Engine.Calls

/-!
# Termination of matching

Every iteration of the inner loop removes an opposing order or uses up the
incoming one, and an iteration of the outer loop that fetches a level enters the
inner loop on it.  Both rest on the book being well formed in the middle of a
sweep: a level that is fetched holds an order, and an order holds a quantity.
-/

namespace MiniExchange

open Foundation

/-!
## Fuel

A result of the loops is the result for every larger amount of fuel.
-/

theorem outerLoop_succ {c : Incoming} {fuel : Nat} {r r' : MatchRun}
    (h : outerLoop c fuel r = some r') : outerLoop c (fuel + 1) r = some r' := by
  induction fuel generalizing r with
  | zero => cases h
  | succ fuel ih =>
      have hbody : forall (level : LevelPtr) (beyond : Bool) (inner : Nat) (r₁ : MatchRun),
          (if beyond then some r₁
            else (innerLoop c level inner r₁).bind (outerLoop c fuel)) = some r' ->
          (if beyond then some r₁
            else (innerLoop c level inner r₁).bind (outerLoop c (fuel + 1))) = some r' := by
        intro level beyond inner r₁ hbefore
        cases beyond with
        | true => exact hbefore
        | false =>
            rcases Option.bind_eq_some_iff.mp hbefore with ⟨r₂, hinner, houter⟩
            exact Option.bind_eq_some_iff.mpr ⟨r₂, hinner, ih houter⟩
      unfold outerLoop at h ⊢
      by_cases hrem : Quantity.zero < r.remaining
      · rw [if_pos hrem] at h ⊢
        dsimp only at h ⊢
        cases hbest : c.bestOpposite (r.note [.outerIteration]).engine.book with
        | none =>
            rw [hbest] at h
            exact h
        | some level =>
            rw [hbest] at h
            exact hbody level _ _ _ h
      · rw [if_neg hrem] at h ⊢
        exact h

theorem outerLoop_add {c : Incoming} {fuel : Nat} {r r' : MatchRun}
    (h : outerLoop c fuel r = some r') (extra : Nat) :
    outerLoop c (fuel + extra) r = some r' := by
  induction extra with
  | zero => exact h
  | succ extra ih => exact outerLoop_succ ih

/-!
## Progress
-/

def MatchOp.acts : MatchOp -> Bool
  | .fill _ _ _ => true
  | .cancelOwn _ => true
  | _ => false

def Settled (ops : List MatchOp) : Prop :=
  forall before since, ops = before ++ .outerIteration :: since ->
    exists op, op ∈ since ∧ op.acts = true

/-- Between any two outer iterations some order is filled or cancelled. -/
def Progresses (ops : List MatchOp) : Prop :=
  forall before between after,
    ops = before ++ .outerIteration :: (between ++ .outerIteration :: after) ->
    exists op, op ∈ between ∧ op.acts = true

theorem settled_nil : Settled [] := by
  intro before since hsplit
  simp at hsplit

theorem progresses_nil : Progresses [] := by
  intro before between after hsplit
  simp at hsplit

theorem settled_append_acts (ops : List MatchOp) {op : MatchOp} (hop : op.acts = true) :
    Settled (ops ++ [op]) := by
  intro before since hsplit
  rcases List.eq_nil_or_concat since with rfl | ⟨since, last, rfl⟩
  · have hlast := (List.append_inj' hsplit rfl).right
    cases hlast
    cases hop
  · have hsplit' : ops ++ [op] =
        (before ++ .outerIteration :: since) ++ [last] := by simpa using hsplit
    have hlast := (List.append_inj' hsplit' rfl).right
    cases hlast
    exact ⟨op, by simp, hop⟩

section Append

variable {ops : List MatchOp} {op : MatchOp}

theorem settled_append (h : Settled ops) (hop : op ≠ .outerIteration) :
    Settled (ops ++ [op]) := by
  intro before since hsplit
  rcases List.eq_nil_or_concat since with rfl | ⟨since, last, rfl⟩
  · have hlast := (List.append_inj' hsplit rfl).right
    exact absurd (List.cons.inj hlast).left hop
  · have hsplit' : ops ++ [op] =
        (before ++ .outerIteration :: since) ++ [last] := by simpa using hsplit
    rcases h before since (List.append_inj' hsplit' rfl).left with ⟨acted, hmem, hacts⟩
    exact ⟨acted, by simp [hmem], hacts⟩

theorem progresses_append (h : Progresses ops) (hop : op ≠ .outerIteration) :
    Progresses (ops ++ [op]) := by
  intro before between after hsplit
  rcases List.eq_nil_or_concat after with rfl | ⟨after, last, rfl⟩
  · have hsplit' : ops ++ [op] =
        (before ++ .outerIteration :: between) ++ [.outerIteration] := by
      simpa using hsplit
    have hlast := (List.append_inj' hsplit' rfl).right
    exact absurd (List.cons.inj hlast).left hop
  · have hsplit' : ops ++ [op] =
        (before ++ .outerIteration :: (between ++ .outerIteration :: after)) ++
          [last] := by simpa using hsplit
    exact h before between after (List.append_inj' hsplit' rfl).left

theorem progresses_append_outer (h : Progresses ops) (hsettled : Settled ops) :
    Progresses (ops ++ [.outerIteration]) := by
  intro before between after hsplit
  rcases List.eq_nil_or_concat after with rfl | ⟨after, last, rfl⟩
  · have hsplit' : ops ++ [.outerIteration] =
        (before ++ .outerIteration :: between) ++ [.outerIteration] := by
      simpa using hsplit
    exact hsettled before between (List.append_inj' hsplit' rfl).left
  · have hsplit' : ops ++ [.outerIteration] =
        (before ++ .outerIteration :: (between ++ .outerIteration :: after)) ++
          [last] := by simpa using hsplit
    exact h before between after (List.append_inj' hsplit' rfl).left

end Append

theorem append_of_single {P : List MatchOp -> Prop} {ops tail : List MatchOp}
    (hsingle : forall ops op, P ops -> op ≠ .outerIteration -> P (ops ++ [op]))
    (h : P ops) (hquiet : .outerIteration ∉ tail) : P (ops ++ tail) := by
  induction tail generalizing ops with
  | nil =>
      rw [List.append_nil]
      exact h
  | cons op tail ih =>
      have hne : op ≠ .outerIteration := by
        intro heq
        exact hquiet (heq ▸ List.mem_cons_self)
      have hnext := ih (hsingle ops op h hne)
        (fun hmem => hquiet (List.mem_cons_of_mem _ hmem))
      rw [List.append_assoc] at hnext
      exact hnext

theorem Settled.append_quiet {ops tail : List MatchOp} (h : Settled ops)
    (hquiet : .outerIteration ∉ tail) : Settled (ops ++ tail) :=
  append_of_single (fun _ _ => settled_append) h hquiet

theorem Progresses.append_quiet {ops tail : List MatchOp} (h : Progresses ops)
    (hquiet : .outerIteration ∉ tail) : Progresses (ops ++ tail) :=
  append_of_single (fun _ _ => progresses_append) h hquiet

theorem outerIteration_not_mem_frontOps : .outerIteration ∉ frontOps := by
  decide

theorem settled_acted {ops front back : List MatchOp} {op : MatchOp} (hop : op.acts = true)
    (hback : .outerIteration ∉ back) : Settled (ops ++ (front ++ op :: back)) := by
  have hacted := (settled_append_acts (ops ++ front) hop).append_quiet hback
  simpa using hacted

/-!
## Steps
-/

/--
No outer iteration is entered before the previous one has acted.  At the inner
guard the present one has acted, or it is about to, on a level that holds an order.
-/
def Advancing : LoopPoint × MatchRun -> Prop
  | (.outer, r) => Progresses r.ops ∧ Settled r.ops
  | (.inner level, r) =>
      Progresses r.ops ∧
        (Settled r.ops ∨
          Quantity.zero < r.remaining ∧ (r.engine.book.level? level).isSome = true)
  | (.done, r) => Progresses r.ops

section Steps

variable {c : Incoming} {p p' : LoopPoint} {r r' : MatchRun}

theorem progresses_fetch (h : Progresses r.ops) (hsettled : Settled r.ops) :
    Progresses (r.note c.fetchOps).ops := by
  have houter := progresses_append_outer h hsettled
  have hquiet : .outerIteration ∉
      (if c.limitPrice.isSome then [MatchOp.levelAccess LevelMember.price true] else []) := by
    split <;> simp
  have hops : (r.note c.fetchOps).ops = (r.ops ++ [.outerIteration]) ++
      (if c.limitPrice.isSome then [.levelAccess .price true] else []) := by
    simp [MatchRun.note, Incoming.fetchOps]
  rw [hops]
  exact houter.append_quiet hquiet

theorem step_advancing (hw : r.WellFormed) (h : Advancing (p, r))
    (hstep : LoopStep c (p, r) (p', r')) : Advancing (p', r') := by
  cases hstep with
  | exhausted hrem => exact h.left
  | noLiquidity hrem hfacing => exact progresses_append_outer h.left h.right
  | noCross hrem hfacing hbeyond => exact progresses_fetch h.left h.right
  | enter hrem hfacing hcross =>
      exact ⟨progresses_fetch h.left h.right, Or.inr ⟨hrem, fetched_live hw hfacing⟩⟩
  | filled hrem =>
      rcases h with ⟨hprogress, hsettled | ⟨hpos, -⟩⟩
      · exact ⟨hprogress, hsettled⟩
      · exact absurd hpos hrem
  | erased hrem hlevel =>
      rcases h with ⟨hprogress, hsettled | ⟨-, hlive⟩⟩
      · exact ⟨hprogress.append_quiet (by simp), hsettled.append_quiet (by simp)⟩
      · rw [hlevel] at hlive
        cases hlive
  | cancelOwn hrem hfacing hcross hown =>
      refine ⟨h.left.append_quiet ?_, settled_acted rfl (by simp)⟩
      simp [outerIteration_not_mem_frontOps]
  | fill hrem hfacing hcross hother =>
      refine ⟨h.left.append_quiet ?_, Or.inl (settled_acted rfl (by simp))⟩
      simp [outerIteration_not_mem_frontOps]

/-- The inner iterations so far and the orders still opposing, against a bound. -/
def WithinBound (c : Incoming) (n : Nat) (r : MatchRun) : Prop :=
  r.ops.count .innerIteration + (r.facing c).length <=
    n + if Quantity.zero < r.remaining then 0 else 1

theorem withinBound_note {n : Nat} {ops : List MatchOp} (h : WithinBound c n r)
    (hquiet : .innerIteration ∉ ops) : WithinBound c n (r.note ops) := by
  show (r.ops ++ ops).count _ + (r.facing c).length <= _
  rw [List.count_append, List.count_eq_zero_of_not_mem hquiet]
  exact h

theorem step_withinBound {n : Nat} (hw : r.WellFormed) (h : WithinBound c n r)
    (hstep : LoopStep c (p, r) (p', r')) : WithinBound c n r' := by
  have hfetch : .innerIteration ∉ c.fetchOps := by
    unfold Incoming.fetchOps
    split <;> simp
  cases hstep with
  | exhausted hrem => exact h
  | noLiquidity hrem hfacing => exact withinBound_note h (by simp)
  | noCross hrem hfacing hbeyond => exact withinBound_note h hfetch
  | enter hrem hfacing hcross => exact withinBound_note h hfetch
  | filled hrem => exact h
  | erased hrem hlevel => exact withinBound_note h (by simp)
  | @cancelOwn _ x rest hrem hfacing hcross hown =>
      have hrest := (MatchState.facing_cancelOwn hw hfacing).right
      have hcount : (r.pullFront x).ops.count .innerIteration =
          r.ops.count .innerIteration + 1 := by
        simp [MatchRun.pullFront, frontOps, List.count_append]
      have hafter : (r.pullFront x).facing c = rest := hrest
      unfold WithinBound at h ⊢
      rw [hcount, hafter]
      rw [hfacing, List.length_cons] at h
      show _ <= n + if Quantity.zero < r.remaining then 0 else 1
      omega
  | @fill _ x rest hrem hfacing hcross hother =>
      have hrest := (MatchState.facing_fillResting hw hfacing rfl).right
      have hcount : (r.fillFront c ⟨c.side.opposite, (r.engine.book.data x).price⟩ x).ops.count
          .innerIteration = r.ops.count .innerIteration + 1 := by
        simp [MatchRun.fillFront, frontOps, List.count_append]
      unfold WithinBound at h ⊢
      rw [if_pos hrem, hfacing, List.length_cons] at h
      rw [hcount]
      -- An order that is not consumed stays, and then the incoming one is used up.
      cases hfull : r.fullyConsumed x with
      | true =>
          rw [hfull, if_pos rfl] at hrest
          have hafter : ((r.fillFront c ⟨c.side.opposite, (r.engine.book.data x).price⟩
              x).facing c).length = rest.length := congrArg List.length hrest
          rw [hafter]
          omega
      | false =>
          rw [hfull] at hrest
          have hafter : ((r.fillFront c ⟨c.side.opposite, (r.engine.book.data x).price⟩
              x).facing c).length = rest.length + 1 := congrArg List.length hrest
          have hzero : ¬ Quantity.zero < (r.fillFront c
              ⟨c.side.opposite, (r.engine.book.data x).price⟩ x).remaining := by
            have hused : (r.fillResting c ⟨c.side.opposite, (r.engine.book.data x).price⟩
                x).remaining = Quantity.zero := MatchState.remaining_of_not_consumed hfull
            exact hused ▸ lt_irrefl _
          rw [hafter, if_neg hzero]
          omega

end Steps

/-!
## Submissions
-/

section Submissions

variable {e : MatchingEngine} (hw : e.book.WellFormed) (order : NewOrder)

theorem length_facing_start :
    ((MatchRun.start (e.accept order) order.quantity).facing order.incoming).length =
      (e.book.resting order.side.opposite).length := by
  rw [OrderBook.resting_eq, List.length_map]
  rfl

include hw

/-- Fuel for one iteration more than there are opposing orders is enough, and so is any more. -/
theorem outerLoop_matched (extra : Nat) :
    outerLoop order.incoming ((e.book.resting order.side.opposite).length + 2 + extra)
      (MatchRun.start (e.accept order) order.quantity) = some (e.matched order) := by
  have hfuel : ((MatchRun.start (e.accept order) order.quantity).facing
        order.incoming).length +
      (if Quantity.zero < (MatchRun.start (e.accept order) order.quantity).remaining then 2
        else 1) <= (e.book.resting order.side.opposite).length + 2 := by
    rw [length_facing_start]
    split <;> omega
  rcases outerLoop_run (r := MatchRun.start (e.accept order) order.quantity) hw hfuel with
    ⟨r', houter, -⟩
  have hcount := (OrderBook.WellFormed.count hw).right
  have hle : (e.book.resting order.side.opposite).length <= e.book.orderCount := by
    cases order.side <;> simp only [Side.opposite] <;> omega
  rcases Nat.exists_eq_add_of_le hle with ⟨more, hmore⟩
  -- The model runs the loop with the fuel of the whole book.
  have hmatched : e.matched order = r' := by
    have hlarger := outerLoop_add houter more
    rw [Nat.add_right_comm, ← hmore] at hlarger
    show (outerLoop order.incoming (e.book.orderCount + 2) _).getD _ = r'
    rw [hlarger]
    rfl
  rw [hmatched]
  exact outerLoop_add houter extra

theorem innerIterations_matched :
    (e.matched order).ops.count .innerIteration <=
      (e.book.resting order.side.opposite).length + 1 := by
  have hbound : WithinBound order.incoming (e.book.resting order.side.opposite).length
      (e.matched order) := by
    refine MatchingEngine.matched_invariant hw
      (fun hwr h hstep => step_withinBound hwr h hstep) ?_
    unfold WithinBound
    rw [length_facing_start]
    exact Nat.le_trans (Nat.le_of_eq (Nat.zero_add _)) (Nat.le_add_right _ _)
  unfold WithinBound at hbound
  split at hbound <;> omega

theorem progresses_matched : Progresses (e.matched order).ops :=
  (loopRun_invariant (P := Advancing)
    (a := (.outer, MatchRun.start (e.accept order) order.quantity)) hw
    (fun hwr h hstep => step_advancing hwr h hstep) ⟨progresses_nil, settled_nil⟩
    (matchAgainstBook_run (e := e.accept order) hw order.incoming order.quantity)).right

end Submissions

/--
The loops finish, within one inner iteration more than there are opposing
orders, and between two outer iterations they fill or cancel an order.
-/
theorem matching_terminates (raw : Memory) (capacity : UInt64) (stp : StpConfig)
    (commands : List EngineCommand) (order : NewOrder) :
    let e := (MatchingEngine.new raw capacity stp).run commands
    let opposing := e.book.resting order.side.opposite
    (forall extra : Nat,
      outerLoop order.incoming (opposing.length + 2 + extra)
        (MatchRun.start (e.accept order) order.quantity) = some (e.matched order)) ∧
      (e.matched order).ops.count .innerIteration <= opposing.length + 1 ∧
      Progresses (e.matched order).ops := by
  intro e opposing
  have hw : e.book.WellFormed := MatchingEngine.run_wellFormed raw capacity stp commands
  exact ⟨outerLoop_matched hw order, innerIterations_matched hw order,
    progresses_matched hw order⟩

end MiniExchange
