import MiniExchange.Engine.ClientIndex
import MiniExchange.Protocol.BinaryCodec
import MiniExchange.Risk.Filter

/-!
# Error replies

A frame that does not parse is answered by a rejection with reason code 6 and
order id 0.  Reason code 6 is also that of a prevented self-trade, and 0 is an
order id like any other.  The two replies are told apart by the engine: the
watermark is checked first, and a client that could trade with itself has one.
-/

namespace MiniExchange

open Foundation

namespace ClientIndex

theorem unrest_none {index : ClientIndex} {client : ClientId} (h : index client = none)
    (o : RestingOrder) : index.unrest o client = none := by
  by_cases howner : client = o.owner
  · unfold unrest
    rw [← howner, h]
    exact h
  · rw [unrest_of_ne index howner]
    exact h

theorem unrestAll_none {index : ClientIndex} {client : ClientId} (stp : StpConfig)
    {orders : List RestingOrder} (h : index client = none) :
    index.unrestAll stp orders client = none := by
  induction orders generalizing index with
  | nil =>
      rw [unrestAll_nil]
      exact h
  | cons o orders ih =>
      rw [unrestAll_cons]
      apply ih
      split
      · exact unrest_none h o
      · exact h

end ClientIndex

namespace MatchingEngine

def IndexedClientsSeen (e : MatchingEngine) : Prop :=
  forall client, e.lastAcceptedId client = none -> e.clientResting client = none

theorem countRest_none {index : ClientIndex} {client : ClientId} {o? : Option RestingOrder}
    (h : index client = none) (hother : forall o, o? = some o -> o.owner ≠ client)
    (stp : StpConfig) : countRest stp o? index client = none := by
  cases o? with
  | none => exact h
  | some o =>
      show (if stp.enabled then index.rest o else index) client = none
      split
      · unfold ClientIndex.rest
        rw [Function.update_of_ne (hother o rfl).symm]
        exact h
      · exact h

theorem run_indexedClientsSeen (raw : Memory) (capacity : UInt64) (stp : StpConfig)
    (commands : List EngineCommand) :
    IndexedClientsSeen ((new raw capacity stp).run commands) := by
  apply run_induction (Q := IndexedClientsSeen) (OrderBook.WellFormed.new raw capacity)
  · intro client _
    rfl
  · intro e order _ h _ ha client hclient
    rw [ha.lastAcceptedId] at hclient
    have hother : client ≠ order.owner := by
      rintro rfl
      rw [Function.update_self] at hclient
      cases hclient
    rw [Function.update_of_ne hother] at hclient
    rw [ha.clientResting]
    refine countRest_none (ClientIndex.unrestAll_none e.stp (h client hclient)) ?_ e.stp
    intro o ho
    rcases restedBy_some ho with ⟨lo, rfl, -, rfl⟩
    exact fun howner => hother howner.symm
  · intro e id s x _ h hc client hclient
    rw [hc.lastAcceptedId] at hclient
    rw [hc.clientResting]
    exact ClientIndex.unrestAll_none e.stp (h client hclient)

theorem submit_selfTradePrevented {e : MatchingEngine} {order : NewOrder}
    (h : (e.submit order).response.status = .selfTradePrevented) :
    e.atOrBelowWatermark order.owner order.id = false ∧
      e.wouldSelfCross order.side order.owner order.limitPrice = true := by
  have hcross : forall {price : Option Price},
      e.rejectsSelfCross order.side order.owner price = true ->
        e.wouldSelfCross order.side order.owner price = true := by
    intro price hreject
    exact (Bool.and_eq_true_iff.mp hreject).right
  cases order with
  | limit o =>
      change (e.submitLimit o).response.status = _ at h
      unfold submitLimit at h
      split at h
      · cases h
      split at h
      · cases h
      split at h
      · cases h
      · next hfresh =>
          split at h
          · next hself => exact ⟨Bool.eq_false_iff.mpr hfresh, hcross hself⟩
          split at h <;> cases h
  | market o =>
      change (e.submitMarket o).response.status = _ at h
      unfold submitMarket at h
      split at h
      · cases h
      split at h
      · cases h
      · next hfresh =>
          split at h
          · next hself => exact ⟨Bool.eq_false_iff.mpr hfresh, hcross hself⟩
          · cases h

/-- A prevented self-trade never carries the id 0. -/
theorem selfTradePrevented_id_ne_zero {e : MatchingEngine} (hseen : IndexedClientsSeen e)
    {order : NewOrder}
    (h : (e.submit order).response.status = .selfTradePrevented) :
    order.id ≠ ⟨0⟩ := by
  rcases submit_selfTradePrevented h with ⟨hfresh, hcross⟩
  intro hzero
  cases hlast : e.lastAcceptedId order.owner with
  | none =>
      unfold wouldSelfCross at hcross
      rw [hseen order.owner hlast] at hcross
      cases hcross
  | some w =>
      unfold atOrBelowWatermark at hfresh
      rw [hlast, hzero] at hfresh
      have hnot : ¬ (0 : UInt64) <= w.value := of_decide_eq_false hfresh
      exact hnot (UInt64.zero_le)

theorem orderId_submit {e : MatchingEngine} (order : NewOrder) :
    (e.submit order).response.orderId = order.id := by
  by_cases hadmits : e.Admits order
  · rw [submit_of_admits hadmits]
    rfl
  · rcases submit_of_not_admits hadmits with ⟨status, -, hcall⟩
    rw [hcall]
    rfl

end MatchingEngine

namespace BinaryProtocol

theorem reasonCode_six {status : EngineResult} (h : engineResultToReasonCode status = 6) :
    status = .selfTradePrevented := by
  cases status <;> first | rfl | exact absurd h (by decide)

/-- The only response that looks like a parse error. -/
theorem renderBinary_eq_error {response : EngineResponse} {message : String}
    (h : renderBinary response = renderBinaryError message) :
    response.status = .selfTradePrevented ∧ response.orderId = ⟨0⟩ := by
  unfold renderBinary renderBinaryError at h
  split at h
  · unfold RejectMsg.encode at h
    injection h with _ htail
    injection htail with hreason hid
    have hword : fromNetwork (toNetwork response.orderId.value) = fromNetwork (toNetwork 0) :=
      congrArg fromNetwork hid
    rw [fromNetwork_toNetwork, fromNetwork_toNetwork] at hword
    refine ⟨reasonCode_six hreason, ?_⟩
    cases hresponse : response.orderId with
    | mk value =>
        rw [hresponse] at hword
        exact congrArg OrderId.mk hword
  · injection h with htype _
    have hbyte : (4 : UInt8) = 5 := htype
    exact absurd hbyte (by decide)

end BinaryProtocol

namespace RiskEngine

theorem runChecks_ne_selfTradePrevented {σ : Type} (r : RiskEngine σ) (qty : Quantity)
    (price? : Option Price) : r.runChecks qty price? ≠ .selfTradePrevented := by
  have hfat : r.checkFatFinger qty ≠ .selfTradePrevented := by
    unfold checkFatFinger
    split <;> decide
  have htick : forall price, r.checkTickSize price ≠ .selfTradePrevented := by
    intro price
    unfold checkTickSize
    split
    · decide
    · split <;> decide
  have hband : forall price, r.checkPriceBand price ≠ .selfTradePrevented := by
    intro price
    unfold checkPriceBand
    split
    · decide
    · split
      · decide
      · split <;> decide
  unfold runChecks
  split
  · exact hfat
  · split
    · decide
    · split
      · exact htick _
      · split
        · exact hband _
        · decide

theorem inner_indexedClientsSeen (raw : Memory) (capacity : UInt64) (stp : StpConfig)
    (config : RiskConfig) (commands : List EngineCommand) :
    (run MatchingEngine.api (new (MatchingEngine.new raw capacity stp) config)
      commands).inner.IndexedClientsSeen := by
  have hrun := MatchingEngine.run_indexedClientsSeen raw capacity stp
    (forwarded MatchingEngine.api (new (MatchingEngine.new raw capacity stp) config) commands)
  have hsame : (fun (s : MatchingEngine) command => (MatchingEngine.api.exec s command).2) =
      (fun s command => (s.exec command).engine) := by
    funext s command
    rw [MatchingEngine.api_exec]
  rw [inner_run, hsame]
  exact hrun

/-- Self-trade prevention comes from the engine, whose clients have had an id accepted. -/
theorem submit_selfTradePrevented_id {r : RiskEngine MatchingEngine}
    (hseen : r.inner.IndexedClientsSeen) {order : NewOrder}
    (hsubmit : (submit MatchingEngine.api r order).1.status = .selfTradePrevented) :
    (submit MatchingEngine.api r order).1.orderId ≠ ⟨0⟩ := by
  unfold submit at hsubmit ⊢
  dsimp only at hsubmit ⊢
  split at hsubmit
  · exact absurd hsubmit (runChecks_ne_selfTradePrevented r _ _)
  · next hpass =>
      rw [if_neg hpass]
      show (r.inner.submit order).response.orderId ≠ ⟨0⟩
      rw [MatchingEngine.orderId_submit]
      exact MatchingEngine.selfTradePrevented_id_ne_zero hseen hsubmit

/--
No response of the engine behind the gateway is rendered like a parse error,
whatever the configuration of the risk layer and of the engine.
-/
theorem reply_ne_parse_error (raw : Memory) (capacity : UInt64) (stp : StpConfig)
    (config : RiskConfig) (commands : List EngineCommand) (command : EngineCommand)
    (message : String) :
    BinaryProtocol.renderBinary
        ((api MatchingEngine.api).exec
          (run MatchingEngine.api (new (MatchingEngine.new raw capacity stp) config) commands)
          command).1 ≠
      BinaryProtocol.renderBinaryError message := by
  intro hrender
  rcases BinaryProtocol.renderBinary_eq_error hrender with ⟨hstatus, hid⟩
  have hseen := inner_indexedClientsSeen raw capacity stp config commands
  generalize run MatchingEngine.api (new (MatchingEngine.new raw capacity stp) config)
    commands = r at hseen hstatus hid
  cases command with
  | limit order => exact submit_selfTradePrevented_id hseen hstatus hid
  | market order => exact submit_selfTradePrevented_id hseen hstatus hid
  | cancel id =>
      have hcancel : (r.inner.cancel id).response.status = .selfTradePrevented :=
        hstatus
      unfold MatchingEngine.cancel at hcancel
      split at hcancel <;> cases hcancel

end RiskEngine
end MiniExchange
