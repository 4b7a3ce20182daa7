import Mathlib.Data.BitVec
import MiniExchange.Feed.BookBuilder
import MiniExchange.Foundation.RecordLayout

/-!
# Feed datagrams

The bytes of the feed: `adapters/udp/FeedMessage.hpp`, whose structs are copied
to and from the wire as they stand in memory, and `on_message` of
`adapters/udp/book_builder.cpp`, which gets those bytes.  The layout is that of
a 64-bit little-endian host; the four bytes between the symbol and the next
field belong to no member.
-/

namespace MiniExchange
namespace Feed

open Foundation

inductive MessageType where
  | topOfBook
  | trade
  | snapshot
deriving DecidableEq, Repr

namespace MessageType

def value : MessageType -> UInt8
  | topOfBook => 1
  | trade => 2
  | snapshot => 3

/-- The cases of the switch in `on_message`. -/
def ofValue? (byte : UInt8) : Option MessageType :=
  if byte = 3 then some snapshot
  else if byte = 1 then some topOfBook
  else if byte = 2 then some trade
  else none

theorem ofValue?_value (type : MessageType) : ofValue? type.value = some type := by
  cases type <;> rfl

theorem value_of_ofValue? {byte : UInt8} {type : MessageType}
    (h : ofValue? byte = some type) : byte = type.value := by
  unfold ofValue? at h
  split at h
  · next hbyte =>
      cases h
      exact hbyte
  · split at h
    · next hbyte =>
        cases h
        exact hbyte
    · split at h
      · next hbyte =>
          cases h
          exact hbyte
      · cases h

end MessageType

def FeedHeader.widths : List Nat :=
  [1, 7, 8, 8]

/-- The members of each struct, with the gap behind the symbol. -/
def MessageType.widths : MessageType -> List Nat
  | topOfBook => FeedHeader.widths ++ [4, 4] ++ [8, 8, 8, 8]
  | trade => FeedHeader.widths ++ [4, 4] ++ [8, 8, 8]
  | snapshot => FeedHeader.widths ++ [4, 4] ++ [8, 8, 8, 8, 8]

/-- `sizeof` of the struct. -/
def MessageType.size (type : MessageType) : Nat :=
  type.widths.sum

structure Envelope where
  /-- `_pad`, which the publisher sets to zero and no subscriber reads. -/
  pad : BitVec 56 := 0
  timestampNs : UInt64
  gap : BitVec 32
deriving DecidableEq, Repr

/-!
## From messages to bytes
-/

def FeedBody.type : FeedBody -> MessageType
  | topOfBook _ => .topOfBook
  | trade _ _ _ => .trade
  | snapshot _ _ => .snapshot

def TopOfBook.fields (top : TopOfBook) : List Nat :=
  [top.bidPrice.value.toUInt64.toNat, top.bidQty.value.toNat,
    top.askPrice.value.toUInt64.toNat, top.askQty.value.toNat]

def FeedBody.fields : FeedBody -> List Nat
  | topOfBook top => top.fields
  | trade price quantity tradeSequence =>
      [price.value.toUInt64.toNat, quantity.value.toNat, tradeSequence.value.toNat]
  | snapshot top asOfSequence => top.fields ++ [asOfSequence.toNat]

namespace FeedMessage

def fields (msg : FeedMessage) (envelope : Envelope) : List Nat :=
  [msg.body.type.value.toNat, envelope.pad.toNat, msg.sequence.toNat,
    envelope.timestampNs.toNat, msg.symbol.value.toNat, envelope.gap.toNat] ++ msg.body.fields

/-- The bytes that `send_to_all` hands to the socket. -/
def datagram (msg : FeedMessage) (envelope : Envelope) : List UInt8 :=
  RecordLayout.write msg.body.type.widths (msg.fields envelope)

end FeedMessage

/-!
## From bytes to messages
-/

def word (data : List UInt8) (offset : Nat) : UInt64 :=
  UInt64.ofNat (RecordLayout.field data offset 8)

def readTop (data : List UInt8) : TopOfBook where
  bidPrice := ⟨(word data 32).toInt64⟩
  bidQty := ⟨word data 40⟩
  askPrice := ⟨(word data 48).toInt64⟩
  askQty := ⟨word data 56⟩

def readBody (data : List UInt8) : MessageType -> FeedBody
  | .snapshot => .snapshot (readTop data) (word data 64)
  | .topOfBook => .topOfBook (readTop data)
  | .trade =>
      .trade ⟨(word data 32).toInt64⟩ ⟨word data 40⟩ ⟨word data 48⟩

def readAs (data : List UInt8) (type : MessageType) : FeedMessage where
  symbol := ⟨UInt32.ofNat (RecordLayout.field data 24 4)⟩
  sequence := word data 8
  body := readBody data type

/-- The message that `on_message` applies, if it applies one. -/
def readMessage? (data : List UInt8) : Option FeedMessage :=
  if data.length < FeedHeader.widths.sum then none
  else
    match MessageType.ofValue? (UInt8.ofNat (RecordLayout.field data 0 1)) with
    | none => none
    | some type => if data.length < type.size then none else some (readAs data type)

namespace UdpFeedBookBuilder

/-- `on_message` on raw bytes. -/
def onDatagram (b : UdpFeedBookBuilder) (data : List UInt8) : UdpFeedBookBuilder :=
  match readMessage? data with
  | none => b
  | some msg => b.onMessage msg

def receive (b : UdpFeedBookBuilder) (datagrams : List (List UInt8)) : UdpFeedBookBuilder :=
  Machine.run onDatagram b datagrams

end UdpFeedBookBuilder

/-!
## What a datagram says
-/

theorem toNat_lt_word (n : UInt64) : n.toNat < 256 ^ 8 :=
  n.toNat_lt

theorem TopOfBook.fits_fields (top : TopOfBook) :
    RecordLayout.Fits [8, 8, 8, 8] top.fields :=
  List.Forall₂.cons (toNat_lt_word _) <| List.Forall₂.cons (toNat_lt_word _) <|
    List.Forall₂.cons (toNat_lt_word _) <| List.Forall₂.cons (toNat_lt_word _) List.Forall₂.nil

namespace FeedMessage

variable (msg : FeedMessage) (envelope : Envelope)

theorem fits_fields : RecordLayout.Fits msg.body.type.widths (msg.fields envelope) := by
  have hsymbol : msg.symbol.value.toNat < 256 ^ 4 := msg.symbol.value.toNat_lt
  have hpad : envelope.pad.toNat < 256 ^ 7 := envelope.pad.isLt
  have hgap : envelope.gap.toNat < 256 ^ 4 := envelope.gap.isLt
  have hfront (widths values : List Nat) (h : RecordLayout.Fits widths values) :
      RecordLayout.Fits (FeedHeader.widths ++ [4, 4] ++ widths)
        ([msg.body.type.value.toNat, envelope.pad.toNat, msg.sequence.toNat,
          envelope.timestampNs.toNat, msg.symbol.value.toNat, envelope.gap.toNat] ++ values) :=
    List.Forall₂.cons msg.body.type.value.toNat_lt <| List.Forall₂.cons hpad <|
      List.Forall₂.cons (toNat_lt_word _) <| List.Forall₂.cons (toNat_lt_word _) <|
        List.Forall₂.cons hsymbol <| List.Forall₂.cons hgap h
  cases hbody : msg.body with
  | topOfBook top =>
      rw [hbody] at hfront
      rw [fields, hbody]
      exact hfront _ _ top.fits_fields
  | trade price quantity tradeSequence =>
      rw [hbody] at hfront
      rw [fields, hbody]
      exact hfront _ _ <| List.Forall₂.cons (toNat_lt_word _) <|
        List.Forall₂.cons (toNat_lt_word _) <| List.Forall₂.cons (toNat_lt_word _)
          List.Forall₂.nil
  | snapshot top asOfSequence =>
      rw [hbody] at hfront
      rw [fields, hbody]
      exact hfront _ _ <| List.rel_append top.fits_fields <|
        List.Forall₂.cons (toNat_lt_word _) List.Forall₂.nil

theorem length_datagram : (msg.datagram envelope).length = msg.body.type.size :=
  RecordLayout.length_write (msg.fits_fields envelope)

theorem header_le_size (type : MessageType) : FeedHeader.widths.sum <= type.size := by
  cases type <;> decide

theorem read_datagram (rest : List UInt8) :
    RecordLayout.read (msg.datagram envelope ++ rest) msg.body.type.widths 0 =
      msg.fields envelope :=
  RecordLayout.read_write (msg.fits_fields envelope) [] rest

theorem readAs_datagram (rest : List UInt8) :
    readAs (msg.datagram envelope ++ rest) msg.body.type = msg := by
  have hread := msg.read_datagram envelope rest
  generalize msg.datagram envelope ++ rest = data at hread ⊢
  cases msg with
  | mk symbol sequence body =>
      cases body <;>
        simp only [fields, FeedBody.type, FeedBody.fields, TopOfBook.fields,
          MessageType.widths, FeedHeader.widths, RecordLayout.read, List.cons_append,
          List.nil_append, List.cons.injEq] at hread <;>
        simp [readAs, readBody, readTop, word, FeedBody.type, hread]

end FeedMessage

open FeedMessage

/-- What `on_message` accepts: a known type byte, and at least the bytes of its struct. -/
theorem readMessage?_eq_some_iff {data : List UInt8} {msg : FeedMessage} :
    readMessage? data = some msg <->
      exists type, RecordLayout.field data 0 1 = type.value.toNat ∧
        type.size <= data.length ∧ readAs data type = msg := by
  have hbyte : RecordLayout.field data 0 1 < 2 ^ 8 := RecordLayout.field_lt data 0 1
  unfold readMessage?
  constructor
  · intro h
    split at h
    · cases h
    · split at h
      · cases h
      · next type htype =>
          split at h
          · cases h
          · next hlong =>
              have hvalue := congrArg UInt8.toNat (MessageType.value_of_ofValue? htype)
              rw [UInt8.toNat_ofNat_of_lt' hbyte] at hvalue
              exact ⟨type, hvalue, Nat.not_lt.mp hlong, Option.some.inj h⟩
  · intro ⟨type, hvalue, hlong, hmsg⟩
    have hheader := Nat.le_trans (header_le_size type) hlong
    rw [if_neg (Nat.not_lt.mpr hheader), hvalue, UInt8.ofNat_toNat,
      MessageType.ofValue?_value]
    dsimp only
    rw [if_neg (Nat.not_lt.mpr hlong), hmsg]

theorem field_datagram (msg : FeedMessage) (envelope : Envelope) (rest : List UInt8) :
    RecordLayout.field (msg.datagram envelope ++ rest) 0 1 = msg.body.type.value.toNat := by
  have hread := msg.read_datagram envelope rest
  cases htype : msg.body.type <;>
    simp only [htype, fields, MessageType.widths, FeedHeader.widths, RecordLayout.read,
      List.cons_append, List.cons.injEq] at hread <;>
    exact hread.left

theorem readMessage?_datagram (msg : FeedMessage) (envelope : Envelope) (rest : List UInt8) :
    readMessage? (msg.datagram envelope ++ rest) = some msg := by
  refine readMessage?_eq_some_iff.mpr ⟨msg.body.type, field_datagram msg envelope rest, ?_, ?_⟩
  · rw [List.length_append, length_datagram]
    exact Nat.le_add_right _ _
  · exact msg.readAs_datagram envelope rest

theorem type_readBody (data : List UInt8) (type : MessageType) :
    (readBody data type).type = type := by
  cases type <;> rfl

def readEnvelope (data : List UInt8) : Envelope where
  pad := BitVec.ofNat 56 (RecordLayout.field data 1 7)
  timestampNs := word data 16
  gap := BitVec.ofNat 32 (RecordLayout.field data 28 4)

theorem toNat_word (data : List UInt8) (offset : Nat) :
    (word data offset).toNat = RecordLayout.field data offset 8 :=
  UInt64.toNat_ofNat_of_lt' (RecordLayout.field_lt data offset 8)

theorem fields_readAs {data : List UInt8} {type : MessageType}
    (h : RecordLayout.field data 0 1 = type.value.toNat) :
    (readAs data type).fields (readEnvelope data) = RecordLayout.read data type.widths 0 := by
  have hpad : (BitVec.ofNat 56 (RecordLayout.field data 1 7)).toNat =
      RecordLayout.field data 1 7 :=
    Nat.mod_eq_of_lt (RecordLayout.field_lt data 1 7)
  have hgap : (BitVec.ofNat 32 (RecordLayout.field data 28 4)).toNat =
      RecordLayout.field data 28 4 :=
    Nat.mod_eq_of_lt (RecordLayout.field_lt data 28 4)
  have hsymbol : (UInt32.ofNat (RecordLayout.field data 24 4)).toNat =
      RecordLayout.field data 24 4 :=
    UInt32.toNat_ofNat_of_lt' (RecordLayout.field_lt data 24 4)
  have hfront : (readAs data type).fields (readEnvelope data) =
      [RecordLayout.field data 0 1, RecordLayout.field data 1 7, RecordLayout.field data 8 8,
        RecordLayout.field data 16 8, RecordLayout.field data 24 4,
        RecordLayout.field data 28 4] ++ (readBody data type).fields := by
    rw [h]
    simp only [fields, readAs, readEnvelope, type_readBody, hpad, hgap, hsymbol, toNat_word]
  rw [hfront]
  cases type <;>
    simp [readBody, readTop, FeedBody.fields, TopOfBook.fields, toNat_word,
      MessageType.widths, FeedHeader.widths, RecordLayout.read]

theorem datagram_of_readMessage? {data : List UInt8} {msg : FeedMessage}
    (h : readMessage? data = some msg) :
    exists envelope rest, data = msg.datagram envelope ++ rest := by
  rcases readMessage?_eq_some_iff.mp h with ⟨type, hvalue, hlong, hmsg⟩
  refine ⟨readEnvelope data, data.drop type.size, ?_⟩
  have hsize : 0 + type.widths.sum <= data.length := by
    rw [Nat.zero_add]
    exact hlong
  have hstruct : msg.datagram (readEnvelope data) = data.take type.size := by
    rw [← hmsg, datagram, fields_readAs hvalue]
    show RecordLayout.write (readBody data type).type.widths _ = _
    rw [type_readBody, RecordLayout.write_read hsize, List.drop_zero]
    rfl
  rw [hstruct, List.take_append_drop]

/-- A datagram that lost its end is ignored as a whole. -/
theorem readMessage?_take (msg : FeedMessage) (envelope : Envelope) {n : Nat}
    (h : n < (msg.datagram envelope).length) :
    readMessage? ((msg.datagram envelope).take n) = none := by
  rw [Option.eq_none_iff_forall_ne_some]
  intro other hother
  rcases datagram_of_readMessage? hother with ⟨envelope', rest, hdata⟩
  have hwhole : msg.datagram envelope =
      other.datagram envelope' ++ (rest ++ (msg.datagram envelope).drop n) := by
    rw [← List.append_assoc, ← hdata, List.take_append_drop]
  have hsame : some msg = some other := by
    rw [← readMessage?_datagram other envelope' (rest ++ (msg.datagram envelope).drop n),
      ← hwhole, ← readMessage?_datagram msg envelope [], List.append_nil]
  cases hsame
  have hlength := congrArg List.length hdata
  rw [List.length_take, List.length_append, length_datagram, length_datagram] at hlength
  rw [length_datagram] at h
  omega

/--
The bytes that are applied are exactly the layouts of messages, whatever stands
in the padding and behind the struct, and each stands for one message.  Of a
datagram that is cut off nothing is applied.
-/
theorem datagram_exact :
    (forall data msg, readMessage? data = some msg <->
      exists envelope rest, data = FeedMessage.datagram msg envelope ++ rest) ∧
    forall (b : UdpFeedBookBuilder) (msg : FeedMessage) envelope n,
      b.onDatagram ((msg.datagram envelope).take n) =
        if n < msg.body.type.size then b else b.onMessage msg := by
  constructor
  · intro data msg
    constructor
    · exact datagram_of_readMessage?
    · intro ⟨envelope, rest, hdata⟩
      rw [hdata]
      exact readMessage?_datagram msg envelope rest
  · intro b msg envelope n
    have hlength := msg.length_datagram envelope
    unfold UdpFeedBookBuilder.onDatagram
    split_ifs with hcut
    · rw [readMessage?_take msg envelope (by rw [hlength]; exact hcut)]
    · have hwhole := readMessage?_datagram msg envelope []
      rw [List.append_nil] at hwhole
      rw [List.take_of_length_le (by rw [hlength]; exact Nat.not_lt.mp hcut), hwhole]

/-!
## An unreliable channel
-/

/-- What can come out of the socket of a subscriber. -/
inductive Arrives (feed : List SentMessage) : List UInt8 -> Prop
  /-- A sent datagram, with bytes behind it that no member reads. -/
  | whole {x : SentMessage} (envelope : Envelope) (rest : List UInt8) (h : x ∈ feed) :
      Arrives feed (x.message.datagram envelope ++ rest)
  /-- A datagram that lost its end. -/
  | cut {x : SentMessage} (envelope : Envelope) {n : Nat}
      (h : n < (x.message.datagram envelope).length) :
      Arrives feed ((x.message.datagram envelope).take n)
  /-- Bytes of some other sender, with a type that the feed does not have. -/
  | foreign {data : List UInt8}
      (h : MessageType.ofValue? (UInt8.ofNat (RecordLayout.field data 0 1)) = none) :
      Arrives feed data

theorem Arrives.readMessage? {feed : List SentMessage} {data : List UInt8}
    (h : Arrives feed data) {msg : FeedMessage} (hmsg : readMessage? data = some msg) :
    exists x, x ∈ feed ∧ x.message = msg := by
  cases h with
  | @whole x envelope rest hx =>
      rw [readMessage?_datagram] at hmsg
      exact ⟨x, hx, Option.some.inj hmsg⟩
  | cut envelope hcut =>
      rw [readMessage?_take _ _ hcut] at hmsg
      cases hmsg
  | foreign hforeign =>
      unfold Feed.readMessage? at hmsg
      rw [hforeign] at hmsg
      split at hmsg <;> cases hmsg

namespace UdpFeedBookBuilder

theorem receive_eq (b : UdpFeedBookBuilder) (datagrams : List (List UInt8)) :
    b.receive datagrams = b.deliver (datagrams.filterMap readMessage?) := by
  induction datagrams generalizing b with
  | nil => rfl
  | cons data datagrams ih =>
      show (b.onDatagram data).receive datagrams = _
      rw [ih, List.filterMap_cons, onDatagram]
      cases readMessage? data <;> rfl

end UdpFeedBookBuilder

/--
A view that is anchored and not stale is exact whatever arrives: datagrams of
the feed may be lost, repeated, reordered, cut off or lengthened, and bytes of
other types may be mixed in.
-/
theorem fresh_view_from_datagrams (symbol : SymbolId) (snapshotInterval : UInt64)
    (events : List SinkEvent) (datagrams : List (List UInt8))
    (hlength : ((UdpFeedPublisher.new symbol snapshotInterval).run events).sent.length < 2 ^ 64)
    (harrive : forall data, data ∈ datagrams ->
      Arrives ((UdpFeedPublisher.new symbol snapshotInterval).run events).sent data)
    (hanchored : (UdpFeedBookBuilder.receive {} datagrams).isAnchored symbol = true)
    (hfresh : (UdpFeedBookBuilder.receive {} datagrams).isStale symbol = false) :
    ShowsLastMessage ((UdpFeedPublisher.new symbol snapshotInterval).run events).sent
      symbol (UdpFeedBookBuilder.receive {} datagrams) := by
  have hfeed := (UdpFeedPublisher.settled_run symbol snapshotInterval events).consistent
  rw [UdpFeedBookBuilder.receive_eq] at hanchored hfresh ⊢
  have hmsgs : DeliveredFrom ((UdpFeedPublisher.new symbol snapshotInterval).run events).sent
      (datagrams.filterMap readMessage?) := by
    intro msg hmsg
    rcases List.mem_filterMap.mp hmsg with ⟨data, hdata, hread⟩
    exact (harrive data hdata).readMessage? hread
  exact (UdpFeedBookBuilder.exact_deliver hfeed hlength hmsgs).showsLastMessage hfeed hlength
    hanchored hfresh

namespace CutFeed

def events : List SinkEvent :=
  [.onOrderAccepted { id := ⟨1⟩, side := .buy, quantity := ⟨5⟩, price := ⟨100⟩ },
    .onOrderAccepted { id := ⟨2⟩, side := .buy, quantity := ⟨7⟩, price := ⟨101⟩ }]

def publisher : UdpFeedPublisher :=
  (UdpFeedPublisher.new ⟨1⟩ 1).run events

def envelope : Envelope where
  timestampNs := 17
  gap := 0xAB

def datagrams : List (List UInt8) :=
  match publisher.sent with
  | _ :: snapshot :: quote :: _ =>
      [snapshot.message.datagram envelope, (quote.message.datagram envelope).take 60, [9, 9]]
  | _ => []

end CutFeed

theorem fresh_view_from_datagrams_cutFeed :
    ShowsLastMessage CutFeed.publisher.sent ⟨1⟩
      (UdpFeedBookBuilder.receive {} CutFeed.datagrams) := by
  refine fresh_view_from_datagrams ⟨1⟩ 1 CutFeed.events CutFeed.datagrams (by decide) ?_
    (by decide) (by decide)
  intro data hdata
  rcases List.mem_cons.mp hdata with rfl | hdata
  · have hwhole : Arrives CutFeed.publisher.sent (_ ++ []) :=
      .whole CutFeed.envelope [] (List.mem_cons_of_mem _ List.mem_cons_self)
    rw [List.append_nil] at hwhole
    exact hwhole
  · rcases List.mem_cons.mp hdata with rfl | hdata
    · exact .cut CutFeed.envelope (by decide)
    · rw [List.mem_singleton.mp hdata]
      exact .foreign (by decide)

end Feed
end MiniExchange
