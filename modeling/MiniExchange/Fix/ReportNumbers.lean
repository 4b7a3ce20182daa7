import MiniExchange.Fix.OrderStatus

/-!
# Numbers in execution reports

A session counts its reports in MsgSeqNum and ExecID, and sums the fills of an
order on its own.  The sums agree with the order because matching conserves
quantity; the counters are 64-bit words.
-/

namespace MiniExchange
namespace Fix

open Foundation
open TextProtocol (ascii decimal)

/-!
## Numbering
-/

/-- The report carries a number, modulo 2^64, as its MsgSeqNum and its ExecID. -/
def NumberedReport (n : Nat) (report : List UInt8) : Prop :=
  exists fields : TagMap, report = frame (appendFields fields) ∧
    fields.get 34 = some (decimal (n % 2 ^ 64)) ∧ fields.get 17 = some (decimal (n % 2 ^ 64))

structure FixEncoder.At (encoder : FixEncoder) (n : Nat) : Prop where
  seqNum : encoder.nextSeqNum = UInt64.ofNat n
  execId : encoder.nextExecId = UInt64.ofNat n

namespace FixEncoder.At

variable {encoder : FixEncoder} {n : Nat}

theorem numberedReport (h : encoder.At n) (now : UtcTime) (ctx : ExecReportContext)
    (response : EngineResponse) :
    NumberedReport n (encoder.encodeExecutionReport now ctx response).1 := by
  refine ⟨encoder.reportFields now ctx response, rfl, ?_, ?_⟩
  · show some (decimal encoder.nextSeqNum.toNat) = _
    rw [h.seqNum]
    exact congrArg (fun m => some (decimal m)) UInt64.toNat_ofNat'
  · show some (decimal encoder.nextExecId.toNat) = _
    rw [h.execId]
    exact congrArg (fun m => some (decimal m)) UInt64.toNat_ofNat'

theorem next (h : encoder.At n) (now : UtcTime) (ctx : ExecReportContext)
    (response : EngineResponse) :
    (encoder.encodeExecutionReport now ctx response).2.At (n + 1) where
  seqNum := by
    show encoder.nextSeqNum + 1 = _
    rw [h.seqNum, UInt64.ofNat_add]
    rfl
  execId := by
    show encoder.nextExecId + 1 = _
    rw [h.execId, UInt64.ofNat_add]
    rfl

end FixEncoder.At

namespace FixSession

variable {σ : Type} {api : EngineApi σ}

def emitted (api : EngineApi σ) (session : FixSession σ) : Input -> Option (List UInt8)
  | .message raw now => (session.handleMessage api now raw).1.toOption
  | .call _ => none

def reports (api : EngineApi σ) (session : FixSession σ) (inputs : List Input) :
    List (List UInt8) :=
  (Machine.visits (step api) session inputs).filterMap (fun v => v.1.emitted api v.2)

theorem reports_cons (session : FixSession σ) (input : Input) (inputs : List Input) :
    session.reports api (input :: inputs) =
      (session.emitted api input).toList ++ (session.step api input).reports api inputs := by
  show List.filterMap _ ((session, input) :: Machine.visits (step api) _ inputs) = _
  rw [List.filterMap_cons]
  cases session.emitted api input <;> rfl

theorem handleMessage_error {session : FixSession σ} {now : UtcTime} {raw : List UInt8}
    {err : FixError} (h : (session.handleMessage api now raw).1 = .error err) :
    (session.handleMessage api now raw).2 = session := by
  unfold handleMessage at h ⊢
  cases hreceive : session.receive raw with
  | error e => rfl
  | ok message =>
      rw [hreceive] at h
      cases h

theorem step_numbering (api : EngineApi σ) {session : FixSession σ} {n : Nat}
    (h : session.encoder.At n) (input : Input) :
    (session.emitted api input = none ∧ (session.step api input).encoder.At n) ∨
      exists report, session.emitted api input = some report ∧ NumberedReport n report ∧
        (session.step api input).encoder.At (n + 1) := by
  cases input with
  | call command => exact Or.inl ⟨rfl, h⟩
  | message raw now =>
      show ((session.handleMessage api now raw).1.toOption = none ∧
          (session.handleMessage api now raw).2.encoder.At n) ∨
        exists report, (session.handleMessage api now raw).1.toOption = some report ∧
          NumberedReport n report ∧ (session.handleMessage api now raw).2.encoder.At (n + 1)
      unfold handleMessage
      cases session.receive raw with
      | error e => exact Or.inl ⟨rfl, h⟩
      | ok message =>
          let response := (message.execute api session.engine).1
          exact Or.inr ⟨_, rfl, h.numberedReport now message.context response,
            h.next now message.context response⟩

theorem reports_numbered {session : FixSession σ} {n : Nat} (h : session.encoder.At n)
    (inputs : List Input) {i : Nat} {report : List UInt8}
    (hreport : (session.reports api inputs)[i]? = some report) :
    NumberedReport (n + i) report := by
  induction inputs generalizing session n i with
  | nil => simp [reports, Machine.visits] at hreport
  | cons input inputs ih =>
      rw [reports_cons] at hreport
      rcases step_numbering api h input with ⟨hnone, hnext⟩ |
        ⟨first, hfirst, hnumber, hnext⟩
      · rw [hnone] at hreport
        exact ih hnext hreport
      · rw [hfirst] at hreport
        cases i with
        | zero =>
            cases hreport
            exact hnumber
        | succ i =>
            have hrest := ih hnext hreport
            rwa [Nat.add_right_comm] at hrest

end FixSession

/-!
## Quantities
-/

/-- CumQty is the exact sum of the fills, and agrees with LeavesQty and OrdStatus. -/
def FillsAddUp (order : NewOrder) (response : EngineResponse) (fields : TagMap) : Prop :=
  exists cumQty leavesQty : Nat,
    fields.get 14 = some (decimal cumQty) ∧ fields.get 151 = some (decimal leavesQty) ∧
      cumQty = MatchingEngine.tradedUnits response ∧
      cumQty + leavesQty = order.quantity.units ∧
      (fields.get 39 = some (ascii "2") <-> leavesQty = 0) ∧
      (fields.get 39 = some (ascii "0") <-> cumQty = 0)

theorem fillsAddUp_admitted {e : MatchingEngine} {order : NewOrder} (hadmits : e.Admits order)
    (ha : MatchingEngine.Admission e order (e.submit order)) (encoder : FixEncoder)
    (now : UtcTime) :
    FillsAddUp order (e.submit order).response
      (encoder.reportFields now (contextFromNewOrder order) (e.submit order).response) := by
  have hfilled := toNat_totalFilled (e.submit order).response
  have htotal := MatchingEngine.traded_add_remaining ha
  have hbound := order.quantity.units_lt
  have hpos := Quantity.zero_lt_iff.mp hadmits.quantity_pos
  rw [Nat.mod_eq_of_lt (by omega)] at hfilled
  have hstatus : TagMap.get (encoder.reportFields now (contextFromNewOrder order)
      (e.submit order).response) 39 =
        some (ordStatusFor (e.submit order).response order.quantity false).text := rfl
  have hord : ordStatusFor (e.submit order).response order.quantity false =
      if totalFilled (e.submit order).response = 0 then .new
      else if order.quantity.value <= totalFilled (e.submit order).response then
        .filled
      else .partiallyFilled := by
    unfold ordStatusFor
    rw [if_neg (not_not_intro ha.status), if_neg Bool.false_ne_true]
  have hzero : totalFilled (e.submit order).response = 0 <->
      MatchingEngine.tradedUnits (e.submit order).response = 0 := by
    rw [← UInt64.toNat_inj, hfilled, UInt64.toNat_zero]
  have hall : order.quantity.value <= totalFilled (e.submit order).response <->
      order.quantity.units <= MatchingEngine.tradedUnits (e.submit order).response := by
    rw [UInt64.le_iff_toNat_le, hfilled]
    rfl
  refine ⟨(totalFilled (e.submit order).response).toNat,
    (e.submit order).response.remainingQty.units, rfl, rfl, hfilled, hfilled ▸ htotal, ?_, ?_⟩
  · rw [hstatus, hord]
    split
    · next hnone =>
        rw [hzero] at hnone
        exact iff_of_false (by decide) (by omega)
    · split
      · next hle =>
          rw [hall] at hle
          exact iff_of_true rfl (by omega)
      · next hnot =>
          rw [hall] at hnot
          exact iff_of_false (by decide) (by omega)
  · rw [hstatus, hord, hfilled, ← hzero]
    split
    · next hnone => exact iff_of_true rfl hnone
    · next hsome =>
        split
        · exact iff_of_false (by decide) hsome
        · exact iff_of_false (by decide) hsome

/-!
## Sessions
-/

structure ReportArithmetic {σ : Type} (api : EngineApi σ) (start : FixSession σ)
    (inputs : List FixSession.Input) : Prop where
  numbered : forall i report, (start.reports api inputs)[i]? = some report ->
    NumberedReport (i + 1) report
  error_quiet : forall now raw err,
    ((start.run api inputs).handleMessage api now raw).1 = .error err ->
      ((start.run api inputs).handleMessage api now raw).2 = start.run api inputs
  fills : forall now raw order,
    (start.run api inputs).receive raw = .ok (.newOrder order) ->
    (api.submit (start.run api inputs).engine order).1.status = .accepted ->
      ((start.run api inputs).handleMessage api now raw).1 = .ok (frame (appendFields
          ((start.run api inputs).report api now (.newOrder order)))) ∧
        FillsAddUp order (api.submit (start.run api inputs).engine order).1
          ((start.run api inputs).report api now (.newOrder order))

theorem Wraps.reportArithmetic {σ : Type} {api : EngineApi σ} {core : σ -> MatchingEngine}
    {refuses : σ -> NewOrder -> Prop} (h : Wraps api core refuses) {engine : σ}
    (hsound : Sound (core engine)) (clientId : ClientId) (ourCompId peerCompId : List UInt8)
    (inputs : List FixSession.Input) :
    ReportArithmetic api (FixSession.new engine clientId ourCompId peerCompId) inputs where
  numbered i report hreport := by
    have hnumber := FixSession.reports_numbered (n := 1) ⟨rfl, rfl⟩ inputs hreport
    rwa [Nat.add_comm] at hnumber
  error_quiet now raw err herr := FixSession.handleMessage_error herr
  fills now raw order hreceive haccepted := by
    have hreached : Sound (core ((FixSession.new engine clientId ourCompId peerCompId).run api
        inputs).engine) :=
      FixSession.run_engine_invariant (P := fun s => Sound (core s)) h.exec_sound hsound inputs
    refine ⟨(FixSession.handleMessage_ok api now hreceive).left, ?_⟩
    generalize (FixSession.new engine clientId ourCompId peerCompId).run api inputs = session
      at hreached haccepted
    have hforwarded : ¬ refuses session.engine order :=
      fun hrefuses => (h.refused _ _ hrefuses).left haccepted
    have hresponse := (h.submitted _ _ hforwarded).left
    rw [hresponse] at haccepted
    have hadmits := MatchingEngine.admits_of_accepted haccepted
    have hfills := fillsAddUp_admitted hadmits
      (MatchingEngine.admission hreached.wellFormed hadmits) session.encoder now
    rw [← hresponse] at hfills
    exact hfills

/--
The reports of a session are numbered from one on, in 64 bits; a message that is
answered with an error changes nothing; and the quantities reported for an
accepted order add up.
-/
theorem report_arithmetic (memory : Memory) (capacity : UInt64) (stp : StpConfig)
    (config : RiskConfig) (clientId : ClientId) (ourCompId peerCompId : List UInt8)
    (inputs : List FixSession.Input) :
    let bare := MatchingEngine.new memory capacity stp
    ReportArithmetic MatchingEngine.api
        (FixSession.new bare clientId ourCompId peerCompId) inputs ∧
      ReportArithmetic (RiskEngine.api MatchingEngine.api)
        (FixSession.new (RiskEngine.new bare config) clientId ourCompId peerCompId) inputs := by
  intro bare
  have hnew := sound_new memory capacity stp
  exact ⟨wraps_matchingEngine.reportArithmetic hnew clientId ourCompId peerCompId inputs,
    wraps_riskEngine.reportArithmetic hnew clientId ourCompId peerCompId inputs⟩

namespace WrappedNumbers

def engine : MatchingEngine :=
  MatchingEngine.new Memory.zeroed 4 { enabled := false, policy := .rejectIncoming }

def session (n : Nat) : FixSession MatchingEngine where
  engine := engine
  clientId := ⟨1⟩
  encoder :=
    { senderCompId := ascii "MINI"
      targetCompId := ascii "PEER"
      nextSeqNum := UInt64.ofNat n
      nextExecId := UInt64.ofNat n }

def cancelUnknown : List UInt8 :=
  Delimited.terminated soh
    [ascii "8=FIX.4.2", ascii "9=10", ascii "35=F", ascii "41=7", ascii "10=189"]

def message : FixSession.Input :=
  FixSession.Input.message cancelUnknown DiscardedRemainder.now

def report (n : Nat) : List UInt8 :=
  frame (appendFields ((session n).report MatchingEngine.api DiscardedRemainder.now
    (.cancelRequest ⟨7⟩)))

theorem receive_cancelUnknown (n : Nat) :
    (session n).receive cancelUnknown = .ok (.cancelRequest ⟨7⟩) := by
  show (parseValidated cancelUnknown >>= fun map => parse map ⟨1⟩) = _
  decide +kernel

theorem step_message (n : Nat) :
    (session n).emitted MatchingEngine.api message = some (report n) ∧
      (session n).step MatchingEngine.api message = session (n + 1) := by
  have hreceive := receive_cancelUnknown n
  have hcancel : engine.cancel ⟨7⟩ = engine.reject .unknownOrderId ⟨7⟩ :=
    MatchingEngine.cancel_none rfl
  constructor
  · show ((session n).handleMessage MatchingEngine.api DiscardedRemainder.now
      cancelUnknown).1.toOption = _
    rw [(FixSession.handleMessage_ok _ _ hreceive).left]
    rfl
  · show ((session n).handleMessage MatchingEngine.api DiscardedRemainder.now
      cancelUnknown).2 = _
    unfold FixSession.handleMessage
    rw [hreceive]
    show ({ session n with
        engine := (engine.cancel ⟨7⟩).engine
        encoder := { (session n).encoder with
          nextSeqNum := UInt64.ofNat n + 1
          nextExecId := UInt64.ofNat n + 1 } } : FixSession MatchingEngine) = _
    rw [hcancel]
    unfold session
    rw [UInt64.ofNat_add]
    rfl

theorem reports_replicate (n count : Nat) {i : Nat} (hi : i < count) :
    ((session n).reports MatchingEngine.api (List.replicate count message))[i]? =
      some (report (n + i)) := by
  induction count generalizing n i with
  | zero => exact absurd hi (Nat.not_lt_zero i)
  | succ count ih =>
      rcases step_message n with ⟨hemitted, hstep⟩
      rw [List.replicate_succ, FixSession.reports_cons, hemitted, hstep]
      cases i with
      | zero => rfl
      | succ i =>
          have hrest := ih (n + 1) (Nat.lt_of_succ_lt_succ hi)
          rw [Nat.add_right_comm] at hrest
          exact hrest

/-- Report 2^64 of a session that is sent unknown cancels is numbered 0. -/
theorem report_numbers_wrap :
    exists inputs i report,
      i + 1 = 2 ^ 64 ∧
        ((FixSession.new engine ⟨1⟩ (ascii "MINI") (ascii "PEER")).reports MatchingEngine.api
          inputs)[i]? = some report ∧
        (parseValidated report).toOption.bind (fun map => TagMap.get map 34) =
          some (ascii "0") ∧
        (parseValidated report).toOption.bind (fun map => TagMap.get map 17) =
          some (ascii "0") ∧
        decimal (2 ^ 64) ≠ ascii "0" := by
  have hwrap : forall {i : Nat}, i + 1 = 2 ^ 64 -> report (1 + i) = report 0 := by
    intro i hi
    have hnumber : UInt64.ofNat (1 + i) = UInt64.ofNat 0 := by
      rw [Nat.add_comm, hi]
      rfl
    unfold report session
    rw [hnumber]
  have hall : forall {i count : Nat}, i + 1 = 2 ^ 64 -> count = i + 1 -> exists inputs report,
      ((FixSession.new engine ⟨1⟩ (ascii "MINI") (ascii "PEER")).reports MatchingEngine.api
        inputs)[i]? = some report ∧
      (parseValidated report).toOption.bind (fun map => TagMap.get map 34) = some (ascii "0") ∧
      (parseValidated report).toOption.bind (fun map => TagMap.get map 17) =
        some (ascii "0") := by
    intro i count hi hcount
    have hlast := reports_replicate 1 count (i := i) (by omega)
    rw [hwrap hi] at hlast
    exact ⟨_, report 0, hlast, by decide +kernel, by decide +kernel⟩
  rcases hall (i := 2 ^ 64 - 1) (by decide) rfl with ⟨inputs, report, hreport, hseq, hexec⟩
  exact ⟨inputs, 2 ^ 64 - 1, report, by decide, hreport, hseq, hexec, by decide +kernel⟩

end WrappedNumbers

end Fix
end MiniExchange
