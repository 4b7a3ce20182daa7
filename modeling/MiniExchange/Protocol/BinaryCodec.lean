import MiniExchange.Protocol.BinaryProtocol
import MiniExchange.Foundation.BigEndian

/-!
# Binary codec

`decode` of `adapters/binary_protocol/BinaryCodec.cpp`, against the encoders.
Every message is a type byte, one more byte, and words of eight bytes; the
encoders write the words one after the other and the decoder reads them back
with an offset that advances in the same way.
-/

namespace MiniExchange
namespace BinaryProtocol

open Foundation

/-!
## Messages of any type
-/

inductive AnyMessage where
  | limitOrderAdd (msg : LimitOrderAddMsg)
  | marketOrderAdd (msg : MarketOrderAddMsg)
  | cancel (msg : CancelMsg)
  | ack (msg : AckMsg)
  | reject (msg : RejectMsg)
  | tradeNotification (msg : TradeNotificationMsg)
deriving DecidableEq, Repr

namespace AnyMessage

def kind : AnyMessage -> MessageType
  | limitOrderAdd _ => .limitOrderAdd
  | marketOrderAdd _ => .marketOrderAdd
  | cancel _ => .cancel
  | ack _ => .ack
  | reject _ => .reject
  | tradeNotification _ => .tradeNotification

def type : AnyMessage -> MessageType
  | limitOrderAdd msg => msg.type
  | marketOrderAdd msg => msg.type
  | cancel msg => msg.type
  | ack msg => msg.type
  | reject msg => msg.type
  | tradeNotification msg => msg.type

def encode : AnyMessage -> List UInt8
  | limitOrderAdd msg => msg.encode
  | marketOrderAdd msg => msg.encode
  | cancel msg => msg.encode
  | ack msg => msg.encode
  | reject msg => msg.encode
  | tradeNotification msg => msg.encode

end AnyMessage

def MessageType.wireSize : MessageType -> Nat
  | limitOrderAdd => limitOrderAddWireSize
  | marketOrderAdd => marketOrderAddWireSize
  | cancel => cancelWireSize
  | ack => ackWireSize
  | reject => rejectWireSize
  | tradeNotification => tradeNotificationWireSize

def MessageType.ofValue? (value : UInt8) : Option MessageType :=
  [limitOrderAdd, marketOrderAdd, cancel, ack, reject, tradeNotification].find?
    (fun type => type.value = value)

/-!
## Decoding
-/

/-- The word that `from_network` makes of eight bytes in memory. -/
def fromNetwork (bytes : List UInt8) : UInt64 :=
  UInt64.ofNat (BigEndian.value bytes)

def readByte (bytes : List UInt8) : StateM Nat UInt8 :=
  fun offset => (bytes.getD offset 0, offset + 1)

def readWord (bytes : List UInt8) : StateM Nat UInt64 :=
  fun offset => (fromNetwork ((bytes.drop offset).take 8), offset + 8)

def decodeLimitOrderAdd (bytes : List UInt8) : StateM Nat LimitOrderAddMsg := do
  let _ <- readByte bytes
  let side <- readByte bytes
  let clientId <- readWord bytes
  let orderId <- readWord bytes
  let price <- readWord bytes
  let quantity <- readWord bytes
  return {
    side := side
    clientId := ⟨clientId⟩
    orderId := ⟨orderId⟩
    price := ⟨price.toInt64⟩
    quantity := ⟨quantity⟩ }

def decodeMarketOrderAdd (bytes : List UInt8) : StateM Nat MarketOrderAddMsg := do
  let _ <- readByte bytes
  let side <- readByte bytes
  let clientId <- readWord bytes
  let orderId <- readWord bytes
  let quantity <- readWord bytes
  return {
    side := side
    clientId := ⟨clientId⟩
    orderId := ⟨orderId⟩
    quantity := ⟨quantity⟩ }

def decodeCancel (bytes : List UInt8) : StateM Nat CancelMsg := do
  let _ <- readByte bytes
  let padding <- readByte bytes
  let clientId <- readWord bytes
  let orderId <- readWord bytes
  return {
    padding := padding
    clientId := ⟨clientId⟩
    orderId := ⟨orderId⟩ }

def decodeAck (bytes : List UInt8) : StateM Nat AckMsg := do
  let _ <- readByte bytes
  let padding <- readByte bytes
  let orderId <- readWord bytes
  let remainingQty <- readWord bytes
  return {
    padding := padding
    orderId := ⟨orderId⟩
    remainingQty := ⟨remainingQty⟩ }

def decodeReject (bytes : List UInt8) : StateM Nat RejectMsg := do
  let _ <- readByte bytes
  let reasonCode <- readByte bytes
  let orderId <- readWord bytes
  return {
    reasonCode := reasonCode
    orderId := ⟨orderId⟩ }

def decodeTradeNotification (bytes : List UInt8) : StateM Nat TradeNotificationMsg := do
  let _ <- readByte bytes
  let padding <- readByte bytes
  let buyOrderId <- readWord bytes
  let sellOrderId <- readWord bytes
  let price <- readWord bytes
  let quantity <- readWord bytes
  let tradeSequence <- readWord bytes
  return {
    padding := padding
    buyOrderId := ⟨buyOrderId⟩
    sellOrderId := ⟨sellOrderId⟩
    price := ⟨price.toInt64⟩
    quantity := ⟨quantity⟩
    tradeSequence := ⟨tradeSequence⟩ }

def decodeAs (bytes : List UInt8) : MessageType -> AnyMessage
  | .limitOrderAdd =>
      .limitOrderAdd ((decodeLimitOrderAdd bytes).run 0).1
  | .marketOrderAdd =>
      .marketOrderAdd ((decodeMarketOrderAdd bytes).run 0).1
  | .cancel => .cancel ((decodeCancel bytes).run 0).1
  | .ack => .ack ((decodeAck bytes).run 0).1
  | .reject => .reject ((decodeReject bytes).run 0).1
  | .tradeNotification =>
      .tradeNotification ((decodeTradeNotification bytes).run 0).1

def decode (bytes : List UInt8) : Option AnyMessage :=
  match bytes with
  | [] => none
  | typeByte :: _ =>
      match MessageType.ofValue? typeByte with
      | none => none
      | some type => if bytes.length < type.wireSize then none else some (decodeAs bytes type)

theorem ofValue?_eq_some {value : UInt8} {type : MessageType} :
    MessageType.ofValue? value = some type <-> type.value = value := by
  constructor
  · intro h
    simpa using List.find?_some h
  · rintro rfl
    cases type <;> rfl

theorem decode_eq_some {bytes : List UInt8} {m : AnyMessage} :
    decode bytes = some m <->
      exists type rest, bytes = type.value :: rest ∧ type.wireSize <= bytes.length ∧
        decodeAs bytes type = m := by
  cases bytes with
  | nil =>
      refine iff_of_false (by simp [decode]) ?_
      rintro ⟨type, rest, hbytes, -⟩
      cases hbytes
  | cons typeByte tail =>
      have hcons : decode (typeByte :: tail) =
          match MessageType.ofValue? typeByte with
          | none => none
          | some type =>
              if (typeByte :: tail).length < type.wireSize then none
              else some (decodeAs (typeByte :: tail) type) := rfl
      rw [hcons]
      constructor
      · intro h
        cases htype : MessageType.ofValue? typeByte with
        | none =>
            rw [htype] at h
            cases h
        | some type =>
            rw [htype] at h
            dsimp only at h
            split at h
            · cases h
            · next hlong =>
                have hvalue := ofValue?_eq_some.mp htype
                exact ⟨type, tail, by rw [hvalue], Nat.not_lt.mp hlong, Option.some.inj h⟩
      · rintro ⟨type, rest, hbytes, hlong, hm⟩
        have hvalue : type.value = typeByte := (List.cons.inj hbytes).left.symm
        rw [ofValue?_eq_some.mpr hvalue]
        dsimp only
        rw [if_neg (Nat.not_lt.mpr hlong), hm]

/-!
## Words
-/

theorem toNetwork_eq (value : UInt64) : toNetwork value = BigEndian.bytes 8 value.toNat := by
  have hbyte : forall k, k < 8 ->
      (value >>> (UInt64.ofNat (8 * k))).toUInt8 = UInt8.ofNat (value.toNat / 256 ^ k) := by
    intro k hk
    have hshift : (UInt64.ofNat (8 * k)).toNat % 64 = 8 * k := by
      rw [UInt64.toNat_ofNat_of_lt' (show 8 * k < 2 ^ 64 by omega)]
      exact Nat.mod_eq_of_lt (by omega)
    apply UInt8.toNat_inj.mp
    rw [UInt64.toNat_toUInt8, UInt64.toNat_shiftRight, UInt8.toNat_ofNat', hshift,
      Nat.shiftRight_eq_div_pow, Nat.pow_mul]
  have h7 := hbyte 7 (by decide)
  have h6 := hbyte 6 (by decide)
  have h5 := hbyte 5 (by decide)
  have h4 := hbyte 4 (by decide)
  have h3 := hbyte 3 (by decide)
  have h2 := hbyte 2 (by decide)
  have h1 := hbyte 1 (by decide)
  have h0 := hbyte 0 (by decide)
  show [_, _, _, _, _, _, _, _] = [_, _, _, _, _, _, _, _]
  rw [← h7, ← h6, ← h5, ← h4, ← h3, ← h2, ← h1, ← h0]
  rfl

@[simp] theorem fromNetwork_toNetwork (value : UInt64) :
    fromNetwork (toNetwork value) = value := by
  have hlt : value.toNat < 256 ^ 8 := value.toNat_lt
  unfold fromNetwork
  rw [toNetwork_eq, BigEndian.value_bytes, Nat.mod_eq_of_lt hlt, UInt64.ofNat_toNat]

theorem toNetwork_fromNetwork {bytes : List UInt8} (h : bytes.length = 8) :
    toNetwork (fromNetwork bytes) = bytes := by
  have hlt : BigEndian.value bytes < 2 ^ 64 := by
    have hvalue := BigEndian.value_lt bytes
    rwa [h] at hvalue
  unfold fromNetwork
  rw [toNetwork_eq, UInt64.toNat_ofNat_of_lt' hlt, ← h]
  exact BigEndian.bytes_value bytes

def wordsFrom (bytes : List UInt8) : Nat -> Nat -> List UInt64
  | 0, _ => []
  | count + 1, offset => (readWord bytes offset).1 :: wordsFrom bytes count (offset + 8)

theorem flatMap_wordsFrom (bytes : List UInt8) (count : Nat) {offset : Nat}
    (h : offset + 8 * count <= bytes.length) :
    (wordsFrom bytes count offset).flatMap toNetwork = (bytes.drop offset).take (8 * count) := by
  induction count generalizing offset with
  | zero => rfl
  | succ count ih =>
      have hword : ((bytes.drop offset).take 8).length = 8 := by
        rw [List.length_take, List.length_drop]
        omega
      have hsplit : (bytes.drop offset).take (8 * (count + 1)) =
          (bytes.drop offset).take 8 ++ (bytes.drop (offset + 8)).take (8 * count) := by
        rw [Nat.mul_succ, Nat.add_comm, List.take_add, List.drop_drop]
      rw [hsplit, ← ih (by omega), wordsFrom, List.flatMap_cons]
      show toNetwork (fromNetwork ((bytes.drop offset).take 8)) ++ _ = _
      rw [toNetwork_fromNetwork hword]

/-!
## Field walks
-/

def MessageType.wordCount : MessageType -> Nat
  | limitOrderAdd => 4
  | marketOrderAdd => 3
  | cancel => 2
  | ack => 2
  | reject => 1
  | tradeNotification => 5

theorem wireSize_eq (type : MessageType) : type.wireSize = 2 + 8 * type.wordCount := by
  cases type <;> rfl

theorem encode_decodeAs (bytes : List UInt8) (type : MessageType) :
    (decodeAs bytes type).encode =
      type.value :: bytes.getD 1 0 :: (wordsFrom bytes type.wordCount 2).flatMap toNetwork := by
  cases type <;>
    simp only [MessageType.wordCount, wordsFrom, List.flatMap_cons, List.flatMap_nil,
      List.append_nil, ← List.append_assoc] <;>
    rfl

theorem length_encode (m : AnyMessage) : m.encode.length = m.kind.wireSize := by
  cases m <;> rfl

theorem decodeAs_encode {m : AnyMessage} (htag : m.type = m.kind) (suffix : List UInt8) :
    decodeAs (m.encode ++ suffix) m.kind = m := by
  cases m with
  | limitOrderAdd msg =>
      cases msg with
      | mk type side clientId orderId price quantity =>
          cases htag
          show AnyMessage.limitOrderAdd
            { side := side
              clientId := ⟨fromNetwork (toNetwork clientId.value)⟩
              orderId := ⟨fromNetwork (toNetwork orderId.value)⟩
              price := ⟨(fromNetwork (toNetwork price.value.toUInt64)).toInt64⟩
              quantity := ⟨fromNetwork (toNetwork quantity.value)⟩ } = _
          simp
  | marketOrderAdd msg =>
      cases msg with
      | mk type side clientId orderId quantity =>
          cases htag
          show AnyMessage.marketOrderAdd
            { side := side
              clientId := ⟨fromNetwork (toNetwork clientId.value)⟩
              orderId := ⟨fromNetwork (toNetwork orderId.value)⟩
              quantity := ⟨fromNetwork (toNetwork quantity.value)⟩ } = _
          simp
  | cancel msg =>
      cases msg with
      | mk type padding clientId orderId =>
          cases htag
          show AnyMessage.cancel
            { padding := padding
              clientId := ⟨fromNetwork (toNetwork clientId.value)⟩
              orderId := ⟨fromNetwork (toNetwork orderId.value)⟩ } = _
          simp
  | ack msg =>
      cases msg with
      | mk type padding orderId remainingQty =>
          cases htag
          show AnyMessage.ack
            { padding := padding
              orderId := ⟨fromNetwork (toNetwork orderId.value)⟩
              remainingQty := ⟨fromNetwork (toNetwork remainingQty.value)⟩ } = _
          simp
  | reject msg =>
      cases msg with
      | mk type reasonCode orderId =>
          cases htag
          show AnyMessage.reject
            { reasonCode := reasonCode
              orderId := ⟨fromNetwork (toNetwork orderId.value)⟩ } = _
          simp
  | tradeNotification msg =>
      cases msg with
      | mk type padding buyOrderId sellOrderId price quantity tradeSequence =>
          cases htag
          show AnyMessage.tradeNotification
            { padding := padding
              buyOrderId := ⟨fromNetwork (toNetwork buyOrderId.value)⟩
              sellOrderId := ⟨fromNetwork (toNetwork sellOrderId.value)⟩
              price := ⟨(fromNetwork (toNetwork price.value.toUInt64)).toInt64⟩
              quantity := ⟨fromNetwork (toNetwork quantity.value)⟩
              tradeSequence := ⟨fromNetwork (toNetwork tradeSequence.value)⟩ } = _
          simp

theorem encode_head (m : AnyMessage) : exists rest, m.encode = m.type.value :: rest := by
  cases m <;> exact ⟨_, rfl⟩

theorem kind_decodeAs (bytes : List UInt8) (type : MessageType) :
    (decodeAs bytes type).kind = type ∧ (decodeAs bytes type).type = type := by
  cases type <;> exact ⟨rfl, rfl⟩

/-!
## The codec as a bijection
-/

theorem decode_encode {m : AnyMessage} (htag : m.type = m.kind) (suffix : List UInt8) :
    decode (m.encode ++ suffix) = some m := by
  rcases encode_head m with ⟨rest, hrest⟩
  refine decode_eq_some.mpr ⟨m.kind, rest ++ suffix, ?_, ?_, decodeAs_encode htag suffix⟩
  · rw [hrest, htag]
    rfl
  · rw [List.length_append, length_encode]
    exact Nat.le_add_right _ _

theorem encode_of_decode {bytes : List UInt8} {m : AnyMessage} (h : decode bytes = some m) :
    m.type = m.kind ∧ m.encode = bytes.take m.kind.wireSize := by
  rcases decode_eq_some.mp h with ⟨type, rest, hbytes, hlong, rfl⟩
  rcases kind_decodeAs bytes type with ⟨hkind, htype⟩
  refine ⟨htype.trans hkind.symm, ?_⟩
  rw [wireSize_eq] at hlong
  rw [hkind, encode_decodeAs, flatMap_wordsFrom bytes _ hlong, wireSize_eq]
  cases rest with
  | nil =>
      rw [hbytes, List.length_singleton] at hlong
      omega
  | cons second rest =>
      rw [hbytes, Nat.add_comm 2]
      rfl

/--
Decoding an encoded message gives the message, whatever follows it.  A byte
string decodes exactly if it starts with a known type and is long enough for it,
and then encoding the result gives the front of the byte string.
-/
theorem codec_bijection :
    (forall (m : AnyMessage) (suffix : List UInt8), m.type = m.kind ->
      decode (m.encode ++ suffix) = some m ∧ m.encode.length = m.kind.wireSize) ∧
    (forall bytes : List UInt8, (exists m, decode bytes = some m) <->
      exists type rest, bytes = MessageType.value type :: rest ∧
        type.wireSize <= bytes.length) ∧
    (forall (bytes : List UInt8) (m : AnyMessage), decode bytes = some m ->
      m.type = m.kind ∧ m.encode = bytes.take m.kind.wireSize) := by
  refine ⟨?_, ?_, ?_⟩
  · intro m suffix htag
    exact ⟨decode_encode htag suffix, length_encode m⟩
  · intro bytes
    constructor
    · rintro ⟨m, hm⟩
      rcases decode_eq_some.mp hm with ⟨type, rest, hbytes, hlong, -⟩
      exact ⟨type, rest, hbytes, hlong⟩
    · rintro ⟨type, rest, hbytes, hlong⟩
      exact ⟨decodeAs bytes type, decode_eq_some.mpr ⟨type, rest, hbytes, hlong, rfl⟩⟩
  · intro bytes m hm
    exact encode_of_decode hm

/-!
## Reading a reply

A reply is a concatenation of messages without delimiters.  A client decodes the
first one and continues behind its wire size until nothing is left.
-/

def decodeAll : Nat -> List UInt8 -> Option (List AnyMessage)
  | _, [] => some []
  | 0, _ :: _ => none
  | fuel + 1, byte :: rest =>
      (decode (byte :: rest)).bind (fun m =>
        (decodeAll fuel ((byte :: rest).drop m.kind.wireSize)).map (fun ms => m :: ms))

theorem decodeAll_flatMap_encode {ms : List AnyMessage} {fuel : Nat}
    (htags : forall m, m ∈ ms -> m.type = m.kind) (hfuel : ms.length <= fuel) :
    decodeAll fuel (ms.flatMap AnyMessage.encode) = some ms := by
  induction ms generalizing fuel with
  | nil => cases fuel <;> rfl
  | cons m ms ih =>
      rcases Nat.exists_eq_succ_of_ne_zero (n := fuel) (by simp at hfuel; omega) with ⟨fuel, rfl⟩
      have htag := htags m List.mem_cons_self
      have htail := ih (fun m' hm' => htags m' (List.mem_cons_of_mem _ hm'))
        (Nat.le_of_succ_le_succ hfuel)
      have hdecode := decode_encode htag (ms.flatMap AnyMessage.encode)
      have hdrop : (m.encode ++ ms.flatMap AnyMessage.encode).drop m.kind.wireSize =
          ms.flatMap AnyMessage.encode := by
        rw [← length_encode]
        exact List.drop_left
      rcases encode_head m with ⟨rest, hrest⟩
      rw [List.flatMap_cons]
      rw [hrest, List.cons_append] at hdecode hdrop ⊢
      rw [decodeAll, hdecode, Option.bind_some, hdrop, htail]
      rfl

def replyMessages (response : EngineResponse) : List AnyMessage :=
  .ack { orderId := response.orderId, remainingQty := response.remainingQty } ::
    response.trades.map (fun trade => .tradeNotification (notification trade))

theorem renderBinary_of_accepted {response : EngineResponse}
    (h : response.status = .accepted) :
    renderBinary response = (replyMessages response).flatMap AnyMessage.encode := by
  unfold renderBinary replyMessages
  rw [if_neg (not_not.mpr h), List.flatMap_cons, List.flatMap_map]
  rfl

theorem decodeAll_renderBinary {response : EngineResponse}
    (h : response.status = .accepted) :
    decodeAll (renderBinary response).length (renderBinary response) =
      some (replyMessages response) := by
  have hfuel : (replyMessages response).length <= (renderBinary response).length := by
    rw [length_renderBinary, if_neg (not_not.mpr h)]
    simp only [replyMessages, List.length_cons, List.length_map, ackWireSize,
      tradeNotificationWireSize]
    omega
  have htags : forall m, m ∈ replyMessages response -> m.type = m.kind := by
    intro m hm
    rcases List.mem_cons.mp hm with rfl | htrade
    · rfl
    · rcases List.mem_map.mp htrade with ⟨trade, -, rfl⟩
      rfl
  conv => lhs; rw [renderBinary_of_accepted h]
  rw [renderBinary_of_accepted h] at hfuel
  exact decodeAll_flatMap_encode htags hfuel

/-- The response without the flags that a reply does not carry. -/
def withoutRemovalFlags (response : EngineResponse) : EngineResponse :=
  { response with
    trades := response.trades.map (fun trade => { trade with restingOrderRemoved := false }) }

def notifiedTrade? : AnyMessage -> Option Trade
  | .tradeNotification msg =>
      some
        { tradeSequence := msg.tradeSequence
          buyOrderId := msg.buyOrderId
          sellOrderId := msg.sellOrderId
          price := msg.price
          quantity := msg.quantity
          restingOrderRemoved := false }
  | _ => none

theorem filterMap_notifiedTrade (response : EngineResponse) :
    (replyMessages response).filterMap notifiedTrade? =
      (withoutRemovalFlags response).trades := by
  show (response.trades.map _).filterMap notifiedTrade? = response.trades.map _
  rw [List.filterMap_map]
  exact congrFun List.filterMap_eq_map response.trades

theorem replyMessages_injective {response other : EngineResponse}
    (hstatus : response.status = other.status)
    (h : replyMessages response = replyMessages other) :
    withoutRemovalFlags response = withoutRemovalFlags other := by
  have htrades := congrArg (List.filterMap notifiedTrade?) h
  rw [filterMap_notifiedTrade, filterMap_notifiedTrade] at htrades
  have hack := AnyMessage.ack.inj (List.cons.inj h).left
  have hid : response.orderId = other.orderId := congrArg AckMsg.orderId hack
  have hremaining : response.remainingQty = other.remainingQty :=
    congrArg AckMsg.remainingQty hack
  show ({ response with trades := (withoutRemovalFlags response).trades } : EngineResponse) =
    { other with trades := (withoutRemovalFlags other).trades }
  rw [htrades, hstatus, hid, hremaining]

/--
Repeated decoding of an accepted reply gives the acknowledgement and one
notification for each trade, and leaves nothing over.  Accepted responses with
the same reply are therefore the same but for the removal flags.
-/
theorem accepted_reply_decodes (response : EngineResponse)
    (h : response.status = .accepted) :
    decodeAll (renderBinary response).length (renderBinary response) =
        some (.ack
            { orderId := response.orderId, remainingQty := response.remainingQty } ::
          response.trades.map (fun trade => .tradeNotification
            { buyOrderId := trade.buyOrderId
              sellOrderId := trade.sellOrderId
              price := trade.price
              quantity := trade.quantity
              tradeSequence := trade.tradeSequence })) ∧
      forall other : EngineResponse, other.status = .accepted ->
        renderBinary response = renderBinary other ->
        withoutRemovalFlags response = withoutRemovalFlags other := by
  refine ⟨decodeAll_renderBinary h, ?_⟩
  intro other hother hbytes
  have hread := decodeAll_renderBinary h
  rw [hbytes, decodeAll_renderBinary hother] at hread
  exact replyMessages_injective (h.trans hother.symm) (Option.some.inj hread).symm

def partlyFilled : EngineResponse where
  status := .accepted
  trades :=
    [{ tradeSequence := ⟨0⟩, buyOrderId := ⟨7⟩, sellOrderId := ⟨1⟩, price := ⟨100⟩,
       quantity := ⟨5⟩, restingOrderRemoved := true },
     { tradeSequence := ⟨1⟩, buyOrderId := ⟨7⟩, sellOrderId := ⟨2⟩, price := ⟨101⟩,
       quantity := ⟨3⟩, restingOrderRemoved := false }]
  remainingQty := ⟨4⟩
  orderId := ⟨7⟩

theorem accepted_reply_decodes_partlyFilled :
    partlyFilled.status = .accepted ∧
      (decodeAll (renderBinary partlyFilled).length (renderBinary partlyFilled)).map
        List.length = some 3 := by
  refine ⟨rfl, ?_⟩
  rw [(accepted_reply_decodes partlyFilled rfl).left]
  rfl

end BinaryProtocol
end MiniExchange
