import MiniExchange.Protocol.BinaryCodec

/-!
# Binary gateway

`parse_binary` of `adapters/binary_protocol/GatewayCodec.cpp`, which decodes a
payload and maps the message to an engine command.  The client id on the wire
is read over, and the two sides of the engine come from a whole byte.
-/

namespace MiniExchange
namespace BinaryProtocol

def sideOf (side : UInt8) : Side :=
  if side = 0 then .buy else .sell

def requestCommand : AnyMessage -> Except String EngineCommand
  | .limitOrderAdd msg =>
      .ok (.limit
        { id := msg.orderId
          side := sideOf msg.side
          price := msg.price
          quantity := msg.quantity })
  | .marketOrderAdd msg =>
      .ok (.market
        { id := msg.orderId
          side := sideOf msg.side
          quantity := msg.quantity })
  | .cancel msg => .ok (.cancel msg.orderId)
  | _ =>
      .error "binary decode failed: received server-to-client message type in request"

def parseBinary (payload : List UInt8) : Except String EngineCommand :=
  match decode payload with
  | none => .error "binary decode failed: invalid or truncated message"
  | some msg => requestCommand msg

/-!
## Commands on the wire
-/

def wireSide : Side -> UInt8
  | .buy => 0
  | .sell => 1

def commandMessage (client : ClientId) : EngineCommand -> AnyMessage
  | .limit order =>
      .limitOrderAdd
        { side := wireSide order.side
          clientId := client
          orderId := order.id
          price := order.price
          quantity := order.quantity }
  | .market order =>
      .marketOrderAdd
        { side := wireSide order.side
          clientId := client
          orderId := order.id
          quantity := order.quantity }
  | .cancel id => .cancel { clientId := client, orderId := id }

def payloadClient (payload : List UInt8) : ClientId :=
  ⟨fromNetwork ((payload.drop 2).take 8)⟩

/-- An order read from a payload has the side and the encoding that stand there. -/
def Faithful (payload : List UInt8) : Prop :=
  forall command order, parseBinary payload = .ok command ->
    command.newOrder? = some order ->
    payload[1]? = some (wireSide order.side) ∧
      (commandMessage (payloadClient payload) command).encode <+: payload

def HoldsOrder (payload : List UInt8) : Prop :=
  exists type rest, payload = MessageType.value type :: rest ∧
    (type = .limitOrderAdd ∨ type = .marketOrderAdd) ∧
    type.wireSize <= payload.length

theorem sideOf_wireSide (side : Side) : sideOf (wireSide side) = side := by
  cases side <;> rfl

theorem wireSide_sideOf_iff (side : UInt8) :
    wireSide (sideOf side) = side <-> side = 0 ∨ side = 1 := by
  unfold sideOf
  split
  · next hbuy =>
      rw [hbuy]
      exact ⟨fun _ => Or.inl rfl, fun _ => rfl⟩
  · next hother =>
      constructor
      · intro h
        exact Or.inr h.symm
      · rintro (hbuy | rfl)
        · exact absurd hbuy hother
        · rfl

theorem parseBinary_encode (client : ClientId) (command : EngineCommand) :
    parseBinary (commandMessage client command).encode = .ok command.unowned := by
  have htag : (commandMessage client command).type = (commandMessage client command).kind := by
    cases command <;> rfl
  have hdecode := decode_encode htag []
  rw [List.append_nil] at hdecode
  unfold parseBinary
  rw [hdecode]
  cases command with
  | cancel id => rfl
  | limit order =>
      show Except.ok (EngineCommand.limit
        { order with side := sideOf (wireSide order.side), owner := ⟨0⟩ }) = _
      rw [sideOf_wireSide]
      rfl
  | market order =>
      show Except.ok (EngineCommand.market
        { order with side := sideOf (wireSide order.side), owner := ⟨0⟩ }) = _
      rw [sideOf_wireSide]
      rfl

/-!
## Orders on the wire
-/

namespace AnyMessage

def orderFields? : AnyMessage -> Option (UInt8 × ClientId)
  | limitOrderAdd msg => some (msg.side, msg.clientId)
  | marketOrderAdd msg => some (msg.side, msg.clientId)
  | _ => none

end AnyMessage

variable {payload : List UInt8} {m : AnyMessage}

theorem client_of_decode {side : UInt8}
    {client : ClientId} (hdecode : decode payload = some m)
    (hfields : m.orderFields? = some (side, client)) : client = payloadClient payload := by
  rcases decode_eq_some.mp hdecode with ⟨type, rest, -, -, rfl⟩
  cases type <;> cases hfields <;> rfl

theorem side_of_decode {side : UInt8}
    {client : ClientId} (hdecode : decode payload = some m)
    (hfields : m.orderFields? = some (side, client)) : payload[1]? = some side := by
  rcases encode_of_decode hdecode with ⟨-, hencode⟩
  have hsecond : m.encode[1]? = some side := by
    cases m <;> cases hfields <;> rfl
  have hlong : 1 < m.kind.wireSize := by
    rw [wireSize_eq]
    omega
  rw [hencode, List.getElem?_take_of_lt hlong] at hsecond
  exact hsecond

theorem holdsOrder_iff :
    HoldsOrder payload <->
      exists m fields, decode payload = some m ∧ m.orderFields? = some fields := by
  constructor
  · rintro ⟨type, rest, hpayload, htype, hlong⟩
    have hdecode := decode_eq_some.mpr ⟨type, rest, hpayload, hlong, rfl⟩
    rcases htype with rfl | rfl
    · exact ⟨_, _, hdecode, rfl⟩
    · exact ⟨_, _, hdecode, rfl⟩
  · rintro ⟨m, fields, hdecode, hfields⟩
    rcases decode_eq_some.mp hdecode with ⟨type, rest, hpayload, hlong, rfl⟩
    refine ⟨type, rest, hpayload, ?_, hlong⟩
    cases type with
    | limitOrderAdd => exact Or.inl rfl
    | marketOrderAdd => exact Or.inr rfl
    | cancel => cases hfields
    | ack => cases hfields
    | reject => cases hfields
    | tradeNotification => cases hfields

theorem fields_of_requestCommand {command : EngineCommand} {order : NewOrder} :
    requestCommand m = .ok command ∧ command.newOrder? = some order ->
      exists side client, m.orderFields? = some (side, client) ∧ order.side = sideOf side ∧
        (m.type = m.kind -> wireSide (sideOf side) = side ->
          commandMessage client command = m) := by
  rintro ⟨hcommand, horder⟩
  cases m with
  | limitOrderAdd msg =>
      cases hcommand
      cases horder
      refine ⟨msg.side, msg.clientId, rfl, rfl, ?_⟩
      intro htag hside
      cases msg
      cases htag
      simp only [commandMessage, hside]
  | marketOrderAdd msg =>
      cases hcommand
      cases horder
      refine ⟨msg.side, msg.clientId, rfl, rfl, ?_⟩
      intro htag hside
      cases msg
      cases htag
      simp only [commandMessage, hside]
  | cancel msg =>
      cases hcommand
      cases horder
  | ack msg => cases hcommand
  | reject msg => cases hcommand
  | tradeNotification msg => cases hcommand

theorem exists_order_of_fields {side : UInt8} {client : ClientId}
    (h : m.orderFields? = some (side, client)) :
    exists command order, requestCommand m = .ok command ∧
      command.newOrder? = some order ∧ order.side = sideOf side := by
  cases m with
  | limitOrderAdd msg =>
      cases h
      exact ⟨_, _, rfl, rfl, rfl⟩
  | marketOrderAdd msg =>
      cases h
      exact ⟨_, _, rfl, rfl, rfl⟩
  | cancel msg => cases h
  | ack msg => cases h
  | reject msg => cases h
  | tradeNotification msg => cases h

theorem parseBinary_of_decode
    (h : decode payload = some m) : parseBinary payload = requestCommand m := by
  unfold parseBinary
  rw [h]

theorem exists_decode_of_parseBinary {command : EngineCommand}
    (h : parseBinary payload = .ok command) :
    exists m, decode payload = some m ∧ requestCommand m = .ok command := by
  unfold parseBinary at h
  split at h
  · cases h
  · next m hdecode => exact ⟨m, hdecode, h⟩

theorem faithful_iff (payload : List UInt8) :
    Faithful payload <->
      (HoldsOrder payload -> payload[1]? = some 0 ∨ payload[1]? = some 1) := by
  constructor
  · intro hfaithful horder
    rcases holdsOrder_iff.mp horder with ⟨m, ⟨side, client⟩, hdecode, hfields⟩
    rcases exists_order_of_fields hfields with ⟨command, order, hcommand, hnew, -⟩
    rw [← parseBinary_of_decode hdecode] at hcommand
    rcases hfaithful command order hcommand hnew with ⟨hside, -⟩
    cases hbyte : order.side with
    | buy =>
        rw [hbyte] at hside
        exact Or.inl hside
    | sell =>
        rw [hbyte] at hside
        exact Or.inr hside
  · intro hdefined command order hparse hnew
    rcases exists_decode_of_parseBinary hparse with ⟨m, hdecode, hcommand⟩
    rcases fields_of_requestCommand ⟨hcommand, hnew⟩ with
      ⟨side, client, hfields, hside, hmessage⟩
    have hbyte := side_of_decode hdecode hfields
    have hvalue : side = 0 ∨ side = 1 := by
      rcases hdefined (holdsOrder_iff.mpr ⟨m, _, hdecode, hfields⟩) with hbuy | hsell
      · rw [hbyte] at hbuy
        exact Or.inl (Option.some.inj hbuy)
      · rw [hbyte] at hsell
        exact Or.inr (Option.some.inj hsell)
    have hwire := (wireSide_sideOf_iff side).mpr hvalue
    rcases encode_of_decode hdecode with ⟨htag, hencode⟩
    constructor
    · rw [hside, hwire]
      exact hbyte
    · rw [← client_of_decode hdecode hfields, hmessage htag hwire, hencode]
      exact List.take_prefix _ _

/--
The gateway returns a command on its encoding.  A payload with an order is
represented by the result exactly if its side byte is one of the two values.
-/
theorem gateway_accepts_defined_sides (payload : List UInt8) (client : ClientId)
    (command : EngineCommand) :
    (Faithful payload <->
      (HoldsOrder payload -> payload[1]? = some 0 ∨ payload[1]? = some 1)) ∧
    parseBinary (commandMessage client command).encode = .ok command.unowned :=
  ⟨faithful_iff payload, parseBinary_encode client command⟩

def unknownSide : List UInt8 :=
  MarketOrderAddMsg.encode { side := 2, clientId := ⟨7⟩, orderId := ⟨1⟩, quantity := ⟨5⟩ }

/-- The order is taken for a sell order, which is encoded otherwise. -/
theorem unknown_side_taken_for_sell :
    parseBinary unknownSide = .ok (.market { id := ⟨1⟩, side := .sell, quantity := ⟨5⟩ }) ∧
      unknownSide[1]? = some 2 ∧ ¬Faithful unknownSide := by
  refine ⟨by decide, by decide, ?_⟩
  intro hfaithful
  have hside := (hfaithful _ _ (show parseBinary unknownSide = .ok
    (.market { id := ⟨1⟩, side := .sell, quantity := ⟨5⟩ }) by decide) rfl).left
  revert hside
  decide

end BinaryProtocol
end MiniExchange
