import Mathlib.Algebra.Ring.Nat
import MiniExchange.Foundation.Scanner

/-!
# Length-prefix framing

The wire format of `adapters/tcp/framing.hpp`: four bytes of big-endian length
and the payload.  `frontFrame` is what the frame loop of the server finds at
the front of a read buffer.
-/

namespace MiniExchange

def Server.maxFrameSize : Nat := 4096

namespace Tcp

open Foundation
open Server (maxFrameSize)

abbrev Bytes := List UInt8

def lengthPrefix (len : UInt32) : Bytes :=
  [(len >>> 24).toUInt8, (len >>> 16).toUInt8, (len >>> 8).toUInt8, len.toUInt8]

/-- The payload behind its length; the length is cut to 32 bits as in the source. -/
def frameMessage (payload : Bytes) : Bytes :=
  let len := UInt32.ofNat payload.length
  lengthPrefix len ++ payload.take len.toNat

def payloadLen (p0 p1 p2 p3 : UInt8) : UInt32 :=
  (p0.toUInt32 <<< 24) ||| (p1.toUInt32 <<< 16) ||| (p2.toUInt32 <<< 8) ||| p3.toUInt32

def frontFrame (buffer : Bytes) : Front Bytes :=
  match buffer with
  | p0 :: p1 :: p2 :: p3 :: _ =>
      let len := (payloadLen p0 p1 p2 p3).toNat
      if maxFrameSize < len then .invalid
      else if buffer.length < 4 + len then .incomplete
      else .item ((buffer.drop 4).take len) (4 + len)
  | _ => .incomplete

/-!
## Announced lengths
-/

theorem toNat_shifted_or (p : UInt8) {k : Nat} (hk : k <= 24) {low : UInt32}
    (hlow : low.toNat < 2 ^ k) :
    (p.toUInt32 <<< UInt32.ofNat k ||| low).toNat = p.toNat * 2 ^ k + low.toNat := by
  have hp := p.toNat_lt
  have hshift : (UInt32.ofNat k).toNat % 32 = k := by
    rw [UInt32.toNat_ofNat_of_lt' (Nat.lt_of_le_of_lt hk (by decide))]
    exact Nat.mod_eq_of_lt (Nat.lt_of_le_of_lt hk (by decide))
  have hpow : 2 ^ k <= 2 ^ 24 := Nat.pow_le_pow_right (by decide) hk
  have hbound : p.toNat * 2 ^ k < 2 ^ 32 :=
    calc p.toNat * 2 ^ k <= p.toNat * 2 ^ 24 := Nat.mul_le_mul_left _ hpow
      _ < 2 ^ 32 := by omega
  rw [UInt32.toNat_or, UInt32.toNat_shiftLeft, UInt8.toNat_toUInt32, hshift,
    Nat.shiftLeft_eq, Nat.mod_eq_of_lt hbound, ← Nat.shiftLeft_eq,
    ← Nat.shiftLeft_add_eq_or_of_lt hlow]

theorem toNat_payloadLen (p0 p1 p2 p3 : UInt8) :
    (payloadLen p0 p1 p2 p3).toNat =
      p0.toNat * 2 ^ 24 + (p1.toNat * 2 ^ 16 + (p2.toNat * 2 ^ 8 + p3.toNat)) := by
  have h1 := p1.toNat_lt
  have h2 := p2.toNat_lt
  have h3 : p3.toUInt32.toNat < 2 ^ 8 := p3.toNat_lt
  have hlow := toNat_shifted_or p2 (by decide : 8 <= 24) h3
  have hlow_lt : (p2.toUInt32 <<< UInt32.ofNat 8 ||| p3.toUInt32).toNat < 2 ^ 16 := by
    rw [hlow]
    omega
  have hmiddle := toNat_shifted_or p1 (by decide : 16 <= 24) hlow_lt
  have hmiddle_lt : (p1.toUInt32 <<< UInt32.ofNat 16 |||
      (p2.toUInt32 <<< UInt32.ofNat 8 ||| p3.toUInt32)).toNat < 2 ^ 24 := by
    rw [hmiddle, hlow]
    omega
  have hhigh := toNat_shifted_or p0 (by decide : 24 <= 24) hmiddle_lt
  unfold payloadLen
  rw [UInt32.or_assoc, UInt32.or_assoc]
  exact hhigh.trans (by rw [hmiddle, hlow, UInt8.toNat_toUInt32])

theorem payloadLen_lengthPrefix (len : UInt32) :
    payloadLen (len >>> 24).toUInt8 (len >>> 16).toUInt8 (len >>> 8).toUInt8 len.toUInt8 =
      len := by
  have hlen := len.toNat_lt
  apply UInt32.toNat_inj.mp
  rw [toNat_payloadLen]
  simp only [UInt32.toNat_toUInt8, UInt32.toNat_shiftRight, Nat.shiftRight_eq_div_pow,
    UInt32.reduceToNat, Nat.reduceMod, Nat.reducePow]
  omega

/-!
## Frames at the front
-/

theorem frontFrame_cons (p0 p1 p2 p3 : UInt8) (body : Bytes) :
    frontFrame (p0 :: p1 :: p2 :: p3 :: body) =
      if maxFrameSize < (payloadLen p0 p1 p2 p3).toNat then .invalid
      else if body.length < (payloadLen p0 p1 p2 p3).toNat then .incomplete
      else .item (body.take (payloadLen p0 p1 p2 p3).toNat)
        (4 + (payloadLen p0 p1 p2 p3).toNat) := by
  have hsize : (p0 :: p1 :: p2 :: p3 :: body).length < 4 + (payloadLen p0 p1 p2 p3).toNat <->
      body.length < (payloadLen p0 p1 p2 p3).toNat := by
    simp only [List.length_cons]
    omega
  simp only [frontFrame, hsize]
  rfl

theorem prefix_cases (buffer : Bytes) :
    frontFrame buffer = .incomplete ∨
      exists p0 p1 p2 p3 body, buffer = p0 :: p1 :: p2 :: p3 :: body := by
  rcases buffer with _ | ⟨p0, _ | ⟨p1, _ | ⟨p2, _ | ⟨p3, body⟩⟩⟩⟩
  · exact Or.inl rfl
  · exact Or.inl rfl
  · exact Or.inl rfl
  · exact Or.inl rfl
  · exact Or.inr ⟨p0, p1, p2, p3, body, rfl⟩

variable {buffer payload : Bytes}

theorem frontFrame_item {size : Nat}
    (h : frontFrame buffer = .item payload size) :
    exists p0 p1 p2 p3 body, buffer = p0 :: p1 :: p2 :: p3 :: body ∧
      (payloadLen p0 p1 p2 p3).toNat <= maxFrameSize ∧
      (payloadLen p0 p1 p2 p3).toNat <= body.length ∧
      payload = body.take (payloadLen p0 p1 p2 p3).toNat ∧
      size = 4 + (payloadLen p0 p1 p2 p3).toNat := by
  rcases prefix_cases buffer with hshort | ⟨p0, p1, p2, p3, body, rfl⟩
  · rw [hshort] at h
    cases h
  · rw [frontFrame_cons] at h
    split at h
    · cases h
    · next hlen =>
        split at h
        · cases h
        · next hbody =>
            cases h
            exact ⟨p0, p1, p2, p3, body, rfl, Nat.not_lt.mp hlen, Nat.not_lt.mp hbody, rfl, rfl⟩

theorem frontFrame_invalid {buffer : Bytes} (h : frontFrame buffer = .invalid) :
    exists p0 p1 p2 p3 body, buffer = p0 :: p1 :: p2 :: p3 :: body ∧
      maxFrameSize < (payloadLen p0 p1 p2 p3).toNat := by
  rcases prefix_cases buffer with hshort | ⟨p0, p1, p2, p3, body, rfl⟩
  · rw [hshort] at h
    cases h
  · rw [frontFrame_cons] at h
    split at h
    · next hlen => exact ⟨p0, p1, p2, p3, body, rfl, hlen⟩
    · split at h <;> cases h

def frameScanner : Scanner UInt8 Bytes where
  front := frontFrame
  size_pos := by
    intro buffer payload size h
    rcases frontFrame_item h with ⟨p0, p1, p2, p3, body, -, -, -, -, rfl⟩
    omega
  size_le := by
    intro buffer payload size h
    rcases frontFrame_item h with ⟨p0, p1, p2, p3, body, rfl, -, hbody, -, rfl⟩
    simp only [List.length_cons]
    omega
  item_append := by
    intro buffer payload size more h
    rcases frontFrame_item h with ⟨p0, p1, p2, p3, body, rfl, hlen, hbody, rfl, rfl⟩
    have hwhole : ¬ (body ++ more).length < (payloadLen p0 p1 p2 p3).toNat := by
      rw [List.length_append]
      omega
    rw [List.cons_append, List.cons_append, List.cons_append, List.cons_append,
      frontFrame_cons, if_neg (Nat.not_lt.mpr hlen), if_neg hwhole,
      List.take_append_of_le_length hbody]
  invalid_append := by
    intro buffer more h
    rcases frontFrame_invalid h with ⟨p0, p1, p2, p3, body, rfl, hlen⟩
    rw [List.cons_append, List.cons_append, List.cons_append, List.cons_append,
      frontFrame_cons, if_pos hlen]

/-- The payloads of the complete frames in a byte stream, up to an oversized one. -/
def frames (stream : Bytes) : List Bytes :=
  frameScanner.items stream

def unfinished (stream : Bytes) : Bytes :=
  frameScanner.rest stream

/-- The stream runs into a length prefix above the limit. -/
def Oversized (stream : Bytes) : Prop :=
  frontFrame (unfinished stream) = .invalid

theorem frames_of_item {size : Nat}
    (h : frontFrame buffer = .item payload size) :
    frames buffer = payload :: frames (buffer.drop size) :=
  Scanner.items_of_item (show frameScanner.front buffer = .item payload size from h)

theorem unfinished_of_item {size : Nat}
    (h : frontFrame buffer = .item payload size) :
    unfinished buffer = unfinished (buffer.drop size) :=
  Scanner.rest_of_item (show frameScanner.front buffer = .item payload size from h)

theorem frames_of_incomplete {buffer : Bytes} (h : frontFrame buffer = .incomplete) :
    frames buffer = [] ∧ unfinished buffer = buffer := by
  have hstuck := Scanner.stuck_of_incomplete
    (show frameScanner.front buffer = .incomplete from h)
  exact ⟨Scanner.items_of_stuck hstuck, Scanner.rest_of_stuck hstuck⟩

theorem frames_of_invalid {buffer : Bytes} (h : frontFrame buffer = .invalid) :
    frames buffer = [] ∧ unfinished buffer = buffer := by
  have hstuck := Scanner.stuck_of_invalid (show frameScanner.front buffer = .invalid from h)
  exact ⟨Scanner.items_of_stuck hstuck, Scanner.rest_of_stuck hstuck⟩

theorem length_drop_frame {size : Nat}
    (h : frontFrame buffer = .item payload size) :
    (buffer.drop size).length < buffer.length :=
  Scanner.length_drop_lt (show frameScanner.front buffer = .item payload size from h)

theorem frames_append (stream more : Bytes) :
    frames (stream ++ more) = frames stream ++ frames (unfinished stream ++ more) :=
  Scanner.items_append stream more

theorem unfinished_append (stream more : Bytes) :
    unfinished (stream ++ more) = unfinished (unfinished stream ++ more) :=
  Scanner.rest_append stream more

theorem frames_append_of_oversized {stream : Bytes} (h : Oversized stream) (more : Bytes) :
    frames (stream ++ more) = frames stream :=
  Scanner.items_append_of_invalid
    (show frameScanner.front (frameScanner.rest stream) = .invalid from h) more

theorem Oversized.append {stream : Bytes} (h : Oversized stream) (more : Bytes) :
    Oversized (stream ++ more) :=
  Scanner.invalid_rest_append
    (show frameScanner.front (frameScanner.rest stream) = .invalid from h) more

theorem toNat_length {payload : Bytes} (h : payload.length <= maxFrameSize) :
    (UInt32.ofNat payload.length).toNat = payload.length :=
  UInt32.toNat_ofNat_of_lt' (Nat.lt_of_le_of_lt h (by decide))

theorem frameMessage_eq {payload : Bytes} (h : payload.length <= maxFrameSize) :
    frameMessage payload = lengthPrefix (UInt32.ofNat payload.length) ++ payload := by
  show lengthPrefix _ ++ payload.take (UInt32.ofNat payload.length).toNat = _
  rw [toNat_length h, List.take_length]

theorem length_frameMessage {payload : Bytes} (h : payload.length <= maxFrameSize) :
    (frameMessage payload).length = 4 + payload.length := by
  rw [frameMessage_eq h, List.length_append]
  rfl

theorem frontFrame_frameMessage {payload : Bytes} (h : payload.length <= maxFrameSize)
    (more : Bytes) :
    frontFrame (frameMessage payload ++ more) = .item payload (frameMessage payload).length := by
  have hbody : ¬ (payload ++ more).length < payload.length := by
    rw [List.length_append]
    omega
  rw [length_frameMessage h, frameMessage_eq h]
  unfold lengthPrefix
  rw [List.append_assoc, List.cons_append, List.cons_append, List.cons_append,
    List.cons_append, List.nil_append, frontFrame_cons,
    payloadLen_lengthPrefix, toNat_length h, if_neg (Nat.not_lt.mpr h), if_neg hbody,
    List.take_left]

theorem frontFrame_oversized {len : UInt32} (h : maxFrameSize < len.toNat) (more : Bytes) :
    frontFrame (lengthPrefix len ++ more) = .invalid := by
  unfold lengthPrefix
  rw [List.cons_append, List.cons_append, List.cons_append, List.cons_append, List.nil_append,
    frontFrame_cons, payloadLen_lengthPrefix, if_pos h]

/-!
## Parts of a framed stream
-/

theorem frontFrame_short {buffer : Bytes} (h : buffer.length < 4) :
    frontFrame buffer = .incomplete := by
  rcases prefix_cases buffer with hincomplete | ⟨p0, p1, p2, p3, body, rfl⟩
  · exact hincomplete
  · simp only [List.length_cons] at h
    omega

theorem frames_nil : frames [] = [] :=
  (frames_of_incomplete rfl).left

section Payloads

variable {payloads : List Bytes}
  (hsize : forall payload, payload ∈ payloads -> payload.length <= maxFrameSize)

include hsize

theorem front_frameMessage (payload : Bytes) (hpayload : payload ∈ payloads) (more : Bytes) :
    frameScanner.front (frameMessage payload ++ more) =
      .item payload (frameMessage payload).length :=
  frontFrame_frameMessage (hsize payload hpayload) more

theorem frames_encoded (more : Bytes) :
    frames (payloads.flatMap frameMessage ++ more) = payloads ++ frames more :=
  Scanner.items_encoded (front_frameMessage hsize) more

theorem unfinished_encoded (more : Bytes) :
    unfinished (payloads.flatMap frameMessage ++ more) = unfinished more :=
  Scanner.rest_encoded (front_frameMessage hsize) more

theorem frames_payloads : frames (payloads.flatMap frameMessage) = payloads := by
  have hall := frames_encoded hsize []
  rwa [frames_nil, List.append_nil, List.append_nil] at hall

/-- A part of a framed stream holds the first frames and a part of the next. -/
theorem frames_of_part {part more tail : Bytes} (htail : tail.length < 4)
    (h : part ++ more = payloads.flatMap frameMessage ++ tail) :
    exists n, n <= payloads.length ∧ frames part = payloads.take n ∧
      part = (payloads.take n).flatMap frameMessage ++ unfinished part ∧ ¬ Oversized part ∧
      forall next, payloads[n]? = some next ->
        (unfinished part).length < (frameMessage next).length := by
  rcases List.append_eq_append_iff.mp h with ⟨rest, hencoded, -⟩ | ⟨start, hpart, htail'⟩
  · rcases Scanner.scan_encoded_prefix (front_frameMessage hsize) hencoded.symm with
      ⟨n, hn, hitems, hdecoded, hnext⟩
    refine ⟨n, hn, hitems, hdecoded, ?_, fun next hsome => (hnext next hsome).left⟩
    cases hsome : payloads[n]? with
    | some next => exact (hnext next hsome).right
    | none =>
        -- All payloads are there, so nothing is left over.
        have hall : payloads.take n = payloads :=
          List.take_of_length_le (List.getElem?_eq_none_iff.mp hsome)
        have hempty : frameScanner.rest part = [] := by
          rw [hall] at hdecoded
          rw [hdecoded, List.append_assoc] at hencoded
          have hnil := List.self_eq_append_right.mp hencoded
          exact (List.append_eq_nil_iff.mp hnil).left
        show frontFrame (frameScanner.rest part) ≠ .invalid
        rw [hempty]
        intro hinvalid
        cases hinvalid
  · have hshort : start.length < 4 := by
      rw [htail', List.length_append] at htail
      omega
    have hincomplete := frontFrame_short hshort
    rcases frames_of_incomplete hincomplete with ⟨hframes, hrest⟩
    refine ⟨payloads.length, Nat.le_refl _, ?_, ?_, ?_, ?_⟩
    · rw [hpart, frames_encoded hsize, hframes, List.take_length, List.append_nil]
    · rw [hpart, unfinished_encoded hsize, hrest, List.take_length]
    · unfold Oversized
      rw [hpart, unfinished_encoded hsize, hrest, hincomplete]
      intro hinvalid
      cases hinvalid
    · intro next hsome
      rw [List.getElem?_eq_none (Nat.le_refl _)] at hsome
      cases hsome

/-- Behind the payloads stands a length prefix above the limit. -/
theorem frames_of_oversized {len : UInt32} (hlen : maxFrameSize < len.toNat) (more : Bytes) :
    frames (payloads.flatMap frameMessage ++ (lengthPrefix len ++ more)) = payloads ∧
      Oversized (payloads.flatMap frameMessage ++ (lengthPrefix len ++ more)) := by
  have hinvalid := frontFrame_oversized hlen more
  rcases frames_of_invalid hinvalid with ⟨hframes, hrest⟩
  unfold Oversized
  rw [frames_encoded hsize, unfinished_encoded hsize, hframes, hrest, List.append_nil]
  exact ⟨rfl, hinvalid⟩

end Payloads

end Tcp
end MiniExchange
