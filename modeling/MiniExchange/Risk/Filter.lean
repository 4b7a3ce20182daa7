import MiniExchange.Risk.RiskEngine
import MiniExchange.Engine.Calls

/-!
# The risk layer as a filter

A command that is not answered with `Accepted` leaves no trace, neither in the
matching engine nor in the risk layer around it.  The layer therefore only
selects commands: what it lets the engine do is what the engine does when it is
given the accepted commands alone.
-/

namespace MiniExchange

open Foundation

/-!
## Engines whose rejections leave no trace
-/

namespace EngineApi

variable {σ : Type}

def calls (api : EngineApi σ) (engine : σ) (commands : List EngineCommand) :
    List (EngineCommand × EngineResponse) :=
  (Machine.visits (fun s command => (api.exec s command).2) engine commands).map
    (fun v => (v.2, (api.exec v.1 v.2).1))

def accepted (calls : List (EngineCommand × EngineResponse)) :
    List (EngineCommand × EngineResponse) :=
  calls.filter (fun call => decide (call.2.status = .accepted))

theorem calls_cons (api : EngineApi σ) (engine : σ) (command : EngineCommand)
    (rest : List EngineCommand) :
    api.calls engine (command :: rest) =
      (command, (api.exec engine command).1) :: api.calls (api.exec engine command).2 rest :=
  rfl

/-- Rejected commands change nothing, and only submissions trade. -/
structure QuietRejections (api : EngineApi σ) : Prop where
  unchanged : forall s command, (api.exec s command).1.status ≠ .accepted ->
    (api.exec s command).2 = s
  trades_rejected : forall s command,
    (api.exec s command).1.status ≠ .accepted -> (api.exec s command).1.trades = []
  trades_cancel : forall s id, (api.cancel s id).1.trades = []

end EngineApi

namespace MatchingEngine

theorem submit_quiet (e : MatchingEngine) (order : NewOrder)
    (h : (e.submit order).response.status ≠ .accepted) :
    (e.submit order).engine = e ∧ (e.submit order).response.trades = [] := by
  by_cases hadmits : e.Admits order
  · rw [submit_of_admits hadmits] at h
    exact absurd rfl h
  · rcases submit_of_not_admits hadmits with ⟨status, -, hcall⟩
    rw [hcall]
    exact ⟨rfl, rfl⟩

theorem cancel_quiet (e : MatchingEngine) (id : OrderId) :
    (e.cancel id).response.trades = [] ∧
      ((e.cancel id).response.status ≠ .accepted -> (e.cancel id).engine = e) := by
  unfold cancel
  cases e.book.findOrder id with
  | none => exact ⟨rfl, fun _ => rfl⟩
  | some x => exact ⟨rfl, fun h => absurd rfl h⟩

theorem api_quietRejections : api.QuietRejections where
  unchanged e command h := by
    cases command with
    | limit order => exact (submit_quiet e (.limit order) h).left
    | market order => exact (submit_quiet e (.market order) h).left
    | cancel id => exact (cancel_quiet e id).right h
  trades_rejected e command h := by
    cases command with
    | limit order => exact (submit_quiet e (.limit order) h).right
    | market order => exact (submit_quiet e (.market order) h).right
    | cancel id => exact (cancel_quiet e id).left
  trades_cancel e id := (cancel_quiet e id).left

end MatchingEngine

/-!
## The layer around such an engine
-/

namespace RiskEngine

variable {σ : Type} {inner : EngineApi σ}

def referenceAfter (reference : Price) (response : EngineResponse) : Price :=
  (response.trades.getLast?.map Trade.price).getD reference

theorem updateReferenceFrom_eq (r : RiskEngine σ) (response : EngineResponse) :
    r.updateReferenceFrom response =
      { r with referencePrice := referenceAfter r.referencePrice response } := by
  unfold updateReferenceFrom referenceAfter
  cases response.trades.getLast? <;> rfl

/--
A command is answered by the layer, which then stays as it is, or by the wrapped
engine, and then the reference price follows the trades.
-/
theorem exec_cases (hquiet : inner.QuietRejections) (r : RiskEngine σ)
    (command : EngineCommand) :
    (((api inner).exec r command).1.status ≠ .accepted ∧
      ((api inner).exec r command).1.trades = [] ∧ ((api inner).exec r command).2 = r) ∨
    ((api inner).exec r command).1 = (inner.exec r.inner command).1 ∧
      ((api inner).exec r command).2 =
        { r with
          inner := (inner.exec r.inner command).2
          referencePrice := referenceAfter r.referencePrice (inner.exec r.inner command).1 } := by
  have horder : forall order : NewOrder,
      ((submit inner r order).1.status ≠ .accepted ∧
        (submit inner r order).1.trades = [] ∧ (submit inner r order).2 = r) ∨
      (submit inner r order).1 = (inner.submit r.inner order).1 ∧
        (submit inner r order).2 =
          { r with
            inner := (inner.submit r.inner order).2
            referencePrice :=
              referenceAfter r.referencePrice (inner.submit r.inner order).1 } := by
    intro order
    unfold submit
    dsimp only
    by_cases hcheck : r.runChecks order.quantity order.limitPrice = .accepted
    · rw [if_neg (not_not.mpr hcheck), updateReferenceFrom_eq]
      exact Or.inr ⟨rfl, rfl⟩
    · rw [if_pos hcheck]
      exact Or.inl ⟨hcheck, rfl, rfl⟩
  cases command with
  | limit order => exact horder (.limit order)
  | market order => exact horder (.market order)
  | cancel id =>
      refine Or.inr ⟨rfl, ?_⟩
      have hkeep : referenceAfter r.referencePrice (inner.cancel r.inner id).1 =
          r.referencePrice := by
        unfold referenceAfter
        rw [hquiet.trades_cancel]
        rfl
      show ({ r with inner := (inner.cancel r.inner id).2 } : RiskEngine σ) = _
      rw [show inner.exec r.inner (.cancel id) = inner.cancel r.inner id from rfl,
        hkeep]

theorem exec_rejected (hquiet : inner.QuietRejections) {r : RiskEngine σ}
    {command : EngineCommand}
    (h : ((api inner).exec r command).1.status ≠ .accepted) :
    ((api inner).exec r command).2 = r := by
  rcases exec_cases hquiet r command with ⟨-, -, hsame⟩ | ⟨hresponse, hstate⟩
  · exact hsame
  · rw [hresponse] at h
    rw [hstate, hquiet.unchanged _ _ h]
    unfold referenceAfter
    rw [hquiet.trades_rejected _ _ h]
    rfl

theorem run_filter (hquiet : inner.QuietRejections) (r : RiskEngine σ)
    (commands : List EngineCommand) :
    inner.calls r.inner
        ((EngineApi.accepted ((api inner).calls r commands)).map Prod.fst) =
      EngineApi.accepted ((api inner).calls r commands) ∧
    Machine.run (fun s command => (inner.exec s command).2) r.inner
        ((EngineApi.accepted ((api inner).calls r commands)).map Prod.fst) =
      (run inner r commands).inner := by
  induction commands generalizing r with
  | nil => exact ⟨rfl, rfl⟩
  | cons command rest ih =>
      rw [EngineApi.calls_cons]
      show _ ∧ _ = (run inner ((api inner).exec r command).2 rest).inner
      by_cases haccepted : ((api inner).exec r command).1.status = .accepted
      · have hpass := (exec_cases hquiet r command).resolve_left
          (fun h => h.left haccepted)
        have hinner : ((api inner).exec r command).2.inner = (inner.exec r.inner command).2 := by
          rw [hpass.right]
        have hrest := ih ((api inner).exec r command).2
        rw [hinner] at hrest
        have hhead : EngineApi.accepted ((command, ((api inner).exec r command).1) ::
              (api inner).calls ((api inner).exec r command).2 rest) =
            (command, (inner.exec r.inner command).1) ::
              EngineApi.accepted ((api inner).calls ((api inner).exec r command).2 rest) := by
          rw [← hpass.left]
          exact List.filter_cons_of_pos (by simp [haccepted])
        rw [hhead, List.map_cons, EngineApi.calls_cons, hrest.left]
        exact ⟨rfl, hrest.right⟩
      · have hhead : EngineApi.accepted ((command, ((api inner).exec r command).1) ::
              (api inner).calls ((api inner).exec r command).2 rest) =
            EngineApi.accepted ((api inner).calls r rest) := by
          rw [exec_rejected hquiet haccepted]
          exact List.filter_cons_of_neg (by simp [haccepted])
        rw [hhead, exec_rejected hquiet haccepted]
        exact ih r

/-- The reference price is that of the last trade, or the one at the start. -/
theorem run_referencePrice (hquiet : inner.QuietRejections) (r : RiskEngine σ)
    (commands : List EngineCommand) :
    (run inner r commands).referencePrice =
      ((((api inner).calls r commands).flatMap (fun call => call.2.trades)).getLast?.map
        Trade.price).getD r.referencePrice := by
  induction commands generalizing r with
  | nil => rfl
  | cons command rest ih =>
      have hstep : ((api inner).exec r command).2.referencePrice =
          referenceAfter r.referencePrice ((api inner).exec r command).1 := by
        rcases exec_cases hquiet r command with ⟨-, htrades, hsame⟩ | ⟨hresponse, hstate⟩
        · rw [hsame]
          unfold referenceAfter
          rw [htrades]
          rfl
        · rw [hstate, hresponse]
      show (run inner ((api inner).exec r command).2 rest).referencePrice = _
      rw [ih, EngineApi.calls_cons, List.flatMap_cons, List.getLast?_append, hstep]
      cases (((api inner).calls ((api inner).exec r command).2 rest).flatMap
        (fun call => call.2.trades)).getLast? <;> rfl

end RiskEngine

theorem MatchingEngine.calls_api (e : MatchingEngine) (commands : List EngineCommand) :
    (api.calls e commands).map Prod.snd = (e.calls commands).map EngineCall.response ∧
      Machine.run (fun s command => (api.exec s command).2) e commands = e.run commands := by
  induction commands generalizing e with
  | nil => exact ⟨rfl, rfl⟩
  | cons command rest ih =>
      have hrest := ih (e.exec command).engine
      rw [EngineApi.calls_cons, api_exec]
      refine ⟨?_, ?_⟩
      · show (e.exec command).response :: _ = (e.exec command).response :: _
        rw [hrest.left]
        rfl
      · show Machine.run _ (api.exec e command).2 rest = _
        rw [api_exec]
        exact hrest.right

/--
The risk layer over a matching engine is a filter: the engine alone, given the
accepted commands, makes the same responses and comes to the same state.
-/
theorem risk_layer_is_filter (raw : Memory) (capacity : UInt64) (stp : StpConfig)
    (config : RiskConfig) (commands : List EngineCommand) :
    let bare := MatchingEngine.new raw capacity stp
    let calls := (RiskEngine.api MatchingEngine.api).calls (RiskEngine.new bare config) commands
    let final := RiskEngine.run MatchingEngine.api (RiskEngine.new bare config) commands
    let accepted := EngineApi.accepted calls
    (bare.calls (accepted.map Prod.fst)).map EngineCall.response = accepted.map Prod.snd ∧
      bare.run (accepted.map Prod.fst) = final.inner ∧
      final.referencePrice =
        ((calls.flatMap (fun call => call.2.trades)).getLast?.map Trade.price).getD
          config.initialReferencePrice := by
  intro bare calls final accepted
  have hquiet := MatchingEngine.api_quietRejections
  have hfilter := RiskEngine.run_filter hquiet (RiskEngine.new bare config) commands
  have hbare := MatchingEngine.calls_api bare (accepted.map Prod.fst)
  refine ⟨?_, ?_, RiskEngine.run_referencePrice hquiet _ commands⟩
  · rw [← hbare.left]
    exact congrArg (List.map Prod.snd) hfilter.left
  · rw [← hbare.right]
    exact hfilter.right

end MiniExchange
