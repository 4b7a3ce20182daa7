import MiniExchange.Engine.Calls
import MiniExchange.Fix.Parser

/-!
# FIX session

The session of `adapters/fix/FixSession.cpp`, which joins the parser and the
encoder to an engine.  It is written against the engine interface, and the
engine may serve other clients between two messages of the session.
-/

namespace MiniExchange
namespace Fix

open Foundation

/-- A session over an engine with states in `σ`. -/
structure FixSession (σ : Type) where
  engine : σ
  clientId : ClientId
  encoder : FixEncoder

def contextFromNewOrder (order : NewOrder) : ExecReportContext where
  orderId := order.id
  side := order.side
  originalQty := order.quantity
  isCancel := false

namespace ParsedMessage

/-- The order a report is about; a cancel does not know its side and quantity. -/
def context : ParsedMessage -> ExecReportContext
  | newOrder order => contextFromNewOrder order
  | cancelRequest id =>
      { orderId := id
        side := .buy
        originalQty := Quantity.zero
        isCancel := true }

def execute {σ : Type} (api : EngineApi σ) (engine : σ) : ParsedMessage -> EngineResponse × σ
  | newOrder order => api.submit engine order
  | cancelRequest id => api.cancel engine id

def command : ParsedMessage -> EngineCommand
  | newOrder order => order.toCommand
  | cancelRequest id => .cancel id

theorem execute_eq {σ : Type} (api : EngineApi σ) (engine : σ) (message : ParsedMessage) :
    message.execute api engine = api.exec engine message.command := by
  cases message with
  | newOrder order => cases order <;> rfl
  | cancelRequest id => rfl

end ParsedMessage

namespace FixSession

variable {σ : Type}

def new (engine : σ) (clientId : ClientId) (ourCompId peerCompId : List UInt8) :
    FixSession σ where
  engine := engine
  clientId := clientId
  encoder := { senderCompId := ourCompId, targetCompId := peerCompId }

def receive (session : FixSession σ) (raw : List UInt8) : Except FixError ParsedMessage := do
  let map ← parseValidated raw
  parse map session.clientId

def report (api : EngineApi σ) (session : FixSession σ) (now : UtcTime)
    (message : ParsedMessage) : List Field :=
  session.encoder.reportFields now message.context (message.execute api session.engine).1

/-- Validate, parse, execute and report; an error leaves the session as it is. -/
def handleMessage (api : EngineApi σ) (session : FixSession σ) (now : UtcTime)
    (raw : List UInt8) : Except FixError (List UInt8) × FixSession σ :=
  match session.receive raw with
  | .error e => (.error e, session)
  | .ok message =>
      let call := message.execute api session.engine
      let encoded := session.encoder.encodeExecutionReport now message.context call.1
      (.ok encoded.1, { session with engine := call.2, encoder := encoded.2 })

theorem handleMessage_ok (api : EngineApi σ) {session : FixSession σ} {raw : List UInt8}
    {message : ParsedMessage} (now : UtcTime) (h : session.receive raw = .ok message) :
    (session.handleMessage api now raw).1 =
        .ok (frame (appendFields (session.report api now message))) ∧
      (session.handleMessage api now raw).2.engine =
        (message.execute api session.engine).2 := by
  unfold handleMessage
  rw [h]
  exact ⟨rfl, rfl⟩

/-!
## Runs
-/

/-- What happens to a session: a message arrives, or another client calls the engine. -/
inductive Input where
  | message (raw : List UInt8) (now : UtcTime)
  | call (command : EngineCommand)
deriving DecidableEq, Repr

def step (api : EngineApi σ) (session : FixSession σ) : Input -> FixSession σ
  | .message raw now => (session.handleMessage api now raw).2
  | .call command => { session with engine := (api.exec session.engine command).2 }

def run (api : EngineApi σ) (session : FixSession σ) (inputs : List Input) : FixSession σ :=
  Machine.run (step api) session inputs

/-- A step leaves the engine alone or has it execute one command. -/
theorem step_engine (api : EngineApi σ) (session : FixSession σ) (input : Input) :
    (session.step api input).engine = session.engine ∨
      exists command, (session.step api input).engine = (api.exec session.engine command).2 := by
  cases input with
  | message raw now =>
      show (session.handleMessage api now raw).2.engine = _ ∨ exists command,
        (session.handleMessage api now raw).2.engine = _
      cases hreceive : session.receive raw with
      | error e =>
          left
          unfold handleMessage
          rw [hreceive]
      | ok message =>
          right
          rw [(handleMessage_ok api now hreceive).right, message.execute_eq]
          exact ⟨message.command, rfl⟩
  | call command => exact Or.inr ⟨command, rfl⟩

theorem run_engine_invariant {api : EngineApi σ} {P : σ -> Prop}
    (hexec : forall engine command, P engine -> P (api.exec engine command).2)
    {session : FixSession σ} (h : P session.engine) (inputs : List Input) :
    P (session.run api inputs).engine := by
  refine Machine.run_invariant (P := fun session : FixSession σ => P session.engine) ?_ h inputs
  intro session input hsession
  rcases step_engine api session input with hkept | ⟨command, hcommand⟩
  · rw [hkept]
    exact hsession
  · rw [hcommand]
    exact hexec _ command hsession

end FixSession
end Fix
end MiniExchange
