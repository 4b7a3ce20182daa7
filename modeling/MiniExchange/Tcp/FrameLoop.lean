import MiniExchange.Tcp.Steps

/-!
# Frame reassembly

Successive calls of `handle_read` on one connection deliver the frames of the
byte stream it receives, and the read buffer holds what follows the last
complete one, however the stream was cut.
-/

namespace MiniExchange
namespace Tcp

open Foundation
open Server (maxFrameSize)

namespace TcpServer

variable {κ : Type} {h : Handlers κ} {s t : TcpServer κ} {fd : Fd} {id : ClientId}
  {conn : Connection}

/-!
## Sends leave the read side alone
-/

structure SameReads (s t : TcpServer κ) : Prop where
  app : t.app = s.app
  processed : t.processed = s.processed
  dangling : t.dangling = s.dangling
  connections : forall fd conn, t.connections fd = some conn ->
    exists old, s.connections fd = some old ∧ conn.id = old.id ∧
      conn.readBuffer = old.readBuffer

theorem sameReads_refl (s : TcpServer κ) : SameReads s s where
  app := rfl
  processed := rfl
  dangling := rfl
  connections := fun _ conn hconn => ⟨conn, hconn, rfl, rfl⟩

theorem SameReads.trans {u : TcpServer κ} (hst : SameReads s t) (htu : SameReads t u) :
    SameReads s u where
  app := htu.app.trans hst.app
  processed := htu.processed.trans hst.processed
  dangling := htu.dangling.trans hst.dangling
  connections := by
    intro fd conn hconn
    rcases htu.connections fd conn hconn with ⟨middle, hmiddle, hid, hbuffer⟩
    rcases hst.connections fd middle hmiddle with ⟨old, hold, hid', hbuffer'⟩
    exact ⟨old, hold, hid.trans hid', hbuffer.trans hbuffer'⟩

theorem Outbound.sameReads (hstep : Outbound s t) : SameReads s t := by
  cases hstep with
  | @write changed old hold buffer =>
      refine ⟨rfl, rfl, rfl, ?_⟩
      intro fd conn hconn
      rcases connections_setConnection hconn with ⟨rfl, rfl⟩ | ⟨-, hkept⟩
      · exact ⟨old, hold, rfl, rfl⟩
      · exact ⟨conn, hkept, rfl, rfl⟩
  | close closed =>
      refine ⟨app_closeConnection s closed, processed_closeConnection s closed,
        dangling_closeConnection s closed, ?_⟩
      intro fd conn hconn
      exact ⟨conn, (connections_of_closeConnection hconn).right, rfl, rfl⟩
  | kernel interest sends taken =>
      exact ⟨rfl, rfl, rfl, fun _ conn hconn => ⟨conn, hconn, rfl, rfl⟩⟩

theorem Outbounds.sameReads (hsteps : Outbounds s t) : SameReads s t := by
  induction hsteps with
  | refl => exact sameReads_refl s
  | tail _ hstep ih => exact ih.trans hstep.sameReads

theorem processFrame_sameReads (h : Handlers κ) (s : TcpServer κ) (client : ClientId)
    (payload : Bytes) :
    SameReads { s with
      app := (h.frame s.app client payload).1
      processed := s.processed ++ [(client, payload)] } (s.processFrame h client payload) :=
  (outbounds_sendAll _ _).sameReads

/-!
## The frame loop scans the read buffer
-/

/--
The frame loop of a stored connection, frame by frame.  Handling a frame may
close the connection; otherwise it leaves the client and the read buffer alone.
-/
theorem frameLoop_induction {P : TcpServer κ -> Connection -> TcpServer κ -> Prop}
    (hincomplete : forall s conn, s.connections fd = some conn ->
      frontFrame conn.readBuffer = .incomplete -> P s conn s)
    (hinvalid : forall s conn, frontFrame conn.readBuffer = .invalid ->
      P s conn (s.closeConnection fd))
    (hlost : forall s conn payload size, s.connections fd = some conn ->
      frontFrame conn.readBuffer = .item payload size ->
      (s.processFrame h conn.id payload).connections fd = none ->
      P s conn { s.processFrame h conn.id payload with dangling := true })
    (hnext : forall s conn payload size kept t, s.connections fd = some conn ->
      frontFrame conn.readBuffer = .item payload size ->
      (s.processFrame h conn.id payload).connections fd = some kept -> kept.id = conn.id ->
      P ((s.processFrame h conn.id payload).setConnection fd
          { kept with readBuffer := conn.readBuffer.drop size })
        { kept with readBuffer := conn.readBuffer.drop size } t -> P s conn t)
    {fuel : Nat} (hconn : s.connections fd = some conn) (hid : conn.id = id)
    (hfuel : conn.readBuffer.length < fuel) : P s conn (s.frameLoop h fd id fuel) := by
  induction fuel generalizing s conn with
  | zero => exact absurd hfuel (Nat.not_lt_zero _)
  | succ fuel ih =>
      subst hid
      unfold frameLoop
      rw [live_of_connections hconn]
      dsimp only
      cases hfront : frontFrame conn.readBuffer with
      | incomplete => exact hincomplete s conn hconn hfront
      | invalid => exact hinvalid s conn hfront
      | item payload size =>
          dsimp only
          cases hkept : (s.processFrame h conn.id payload).connections fd with
          | none =>
              rw [live_of_none hkept]
              exact hlost s conn payload size hconn hfront hkept
          | some kept =>
              rcases (processFrame_sameReads h s conn.id payload).connections fd kept hkept with
                ⟨old, hold, hid, hbuffer⟩
              rw [Option.some.inj (hold.symm.trans hconn)] at hid hbuffer
              have hlive := live_of_connections hkept
              rw [hid] at hlive
              rw [hlive]
              dsimp only
              rw [hbuffer]
              refine hnext s conn payload size kept _ hconn hfront hkept hid ?_
              refine ih (connections_setConnection_self _ fd _) hid ?_
              exact Nat.lt_of_lt_of_le (length_drop_frame hfront) (Nat.le_of_lt_succ hfuel)

structure Reassembled (s : TcpServer κ) (fd : Fd) (id : ClientId) (stream : Bytes)
    (t : TcpServer κ) : Prop where
  processed : t.processed = s.processed ++ (frames stream).map fun payload => (id, payload)
  kept : ¬ Oversized stream -> exists conn, t.connections fd = some conn ∧ conn.id = id ∧
    conn.readBuffer = unfinished stream
  closed : Oversized stream -> t.connections fd = none ∧ t.opened fd = false

theorem reassembled_stuck (hconn : s.connections fd = some conn)
    (hfront : frontFrame conn.readBuffer = .incomplete) :
    Reassembled s fd conn.id conn.readBuffer s := by
  rcases frames_of_incomplete hfront with ⟨hframes, hrest⟩
  refine ⟨?_, ?_, ?_⟩
  · rw [hframes, List.map_nil, List.append_nil]
  · intro _
    exact ⟨conn, hconn, rfl, hrest.symm⟩
  · intro hover
    unfold Oversized at hover
    rw [hrest, hfront] at hover
    cases hover

theorem reassembled_invalid (hfront : frontFrame conn.readBuffer = .invalid) :
    Reassembled s fd conn.id conn.readBuffer (s.closeConnection fd) := by
  rcases frames_of_invalid hfront with ⟨hframes, hrest⟩
  refine ⟨?_, ?_, ?_⟩
  · rw [hframes, List.map_nil, List.append_nil, processed_closeConnection]
  · intro hover
    refine absurd ?_ hover
    unfold Oversized
    rw [hrest]
    exact hfront
  · intro _
    rw [connections_closeConnection, Function.update_self]
    exact ⟨rfl, opened_closeConnection s fd⟩

theorem Reassembled.cons {buffer payload : Bytes} {size : Nat}
    (hfront : frontFrame buffer = .item payload size)
    (hprocessed : t.processed = s.processed ++ [(id, payload)]) {u : TcpServer κ}
    (hrest : Reassembled t fd id (buffer.drop size) u) : Reassembled s fd id buffer u where
  processed := by
    rw [hrest.processed, hprocessed, frames_of_item hfront, List.append_assoc]
    rfl
  kept := by
    unfold Oversized
    rw [unfinished_of_item hfront]
    exact hrest.kept
  closed := by
    unfold Oversized
    rw [unfinished_of_item hfront]
    exact hrest.closed

theorem frameLoop_reassembled {fuel : Nat} (hconn : s.connections fd = some conn)
    (hfuel : conn.readBuffer.length < fuel)
    (hsafe : (s.frameLoop h fd conn.id fuel).dangling = false) :
    Reassembled s fd conn.id conn.readBuffer (s.frameLoop h fd conn.id fuel) := by
  revert hsafe
  refine frameLoop_induction (P := fun s conn t => t.dangling = false ->
    Reassembled s fd conn.id conn.readBuffer t) ?_ ?_ ?_ ?_ hconn rfl hfuel
  · exact fun s conn hconn hfront _ => reassembled_stuck hconn hfront
  · exact fun s conn hfront _ => reassembled_invalid hfront
  · intro s conn payload size _ _ _ hsafe
    cases hsafe
  · intro s conn payload size kept t _ hfront _ hid hrest hsafe
    rw [← hid]
    refine Reassembled.cons hfront ?_ (hrest hsafe)
    rw [hid]
    exact (processFrame_sameReads h s conn.id payload).processed

/-!
## Calls of handle_read
-/

theorem dangling_handleRead {reads : List ReadAnswer}
    (hsafe : (s.handleRead h fd reads).dangling = false) : s.dangling = false := by
  cases hs : s.dangling with
  | false => rfl
  | true =>
      have hlost : (s.handleRead h fd reads).dangling = true := by
        apply handleRead_invariant (P := fun t : TcpServer κ => t.dangling = true) hs
        · exact fun t _ => rfl
        · exact fun t ht => (dangling_closeConnection t fd).trans ht
        · exact fun t conn buffer ht _ => ht
        · exact fun conn _ t payload ht =>
            (processFrame_sameReads h t conn.id payload).dangling.trans ht
      exact hlost.symm.trans hsafe

/-- Only data and interruptions, up to EAGAIN. -/
def PlainReads (reads : List ReadAnswer) : Prop :=
  forall answer, answer ∈ reads ->
    (exists bytes, answer = .data bytes) ∨ answer = .interrupted

/-- The bytes that a call of `handle_read` receives. -/
def received (reads : List ReadAnswer) : Bytes :=
  (readLoop reads).1

theorem readLoop_plain {reads : List ReadAnswer} (hplain : PlainReads reads) :
    (readLoop reads).2 = false := by
  induction reads with
  | nil => rfl
  | cons answer reads ih =>
      have hrest := ih fun other hother => hplain other (List.mem_cons_of_mem _ hother)
      rcases hplain answer List.mem_cons_self with ⟨bytes, rfl⟩ | rfl
      · exact hrest
      · exact hrest

theorem Reassembled.handleRead {stream : Bytes} {reads : List ReadAnswer}
    (ht : Reassembled s fd id stream t) (hplain : PlainReads reads)
    (hsafe : (t.handleRead h fd reads).dangling = false) :
    Reassembled s fd id (stream ++ received reads) (t.handleRead h fd reads) := by
  by_cases hover : Oversized stream
  · -- The connection is closed; nothing behind the bad prefix counts.
    have hclosed := ht.closed hover
    have hunchanged : t.handleRead h fd reads = t := by
      unfold TcpServer.handleRead
      rw [hclosed.left]
    rw [hunchanged]
    refine ⟨?_, fun hnot => absurd (hover.append _) hnot, fun _ => hclosed⟩
    rw [frames_append_of_oversized hover]
    exact ht.processed
  · rcases ht.kept hover with ⟨conn, hconn, rfl, hbuffer⟩
    unfold TcpServer.handleRead at hsafe ⊢
    rw [hconn] at hsafe ⊢
    simp only [readLoop_plain hplain, Bool.false_eq_true, if_false] at hsafe ⊢
    have hloop := frameLoop_reassembled
      (connections_setConnection_self t fd
        { conn with readBuffer := conn.readBuffer ++ (readLoop reads).1 })
      (Nat.lt_succ_self _) hsafe
    dsimp only at hloop
    rw [hbuffer] at hloop ⊢
    refine ⟨?_, ?_, ?_⟩
    · rw [hloop.processed, frames_append stream, List.map_append, ← List.append_assoc,
        ← ht.processed]
      rfl
    · unfold Oversized
      rw [unfinished_append stream]
      exact hloop.kept
    · unfold Oversized
      rw [unfinished_append stream]
      exact hloop.closed

/-- Successive calls of `handle_read` on one descriptor. -/
def readCalls (h : Handlers κ) (s : TcpServer κ) (fd : Fd) (calls : List (List ReadAnswer)) :
    TcpServer κ :=
  Machine.run (fun s reads => s.handleRead h fd reads) s calls

theorem dangling_readCalls {calls : List (List ReadAnswer)}
    (hsafe : (s.readCalls h fd calls).dangling = false) : s.dangling = false := by
  induction calls generalizing s with
  | nil => exact hsafe
  | cons reads calls ih => exact dangling_handleRead (ih hsafe)

theorem Reassembled.readCalls {stream : Bytes} {calls : List (List ReadAnswer)}
    (ht : Reassembled s fd id stream t) (hplain : forall reads, reads ∈ calls -> PlainReads reads)
    (hsafe : (t.readCalls h fd calls).dangling = false) :
    Reassembled s fd id (stream ++ calls.flatMap received) (t.readCalls h fd calls) := by
  induction calls generalizing stream t with
  | nil =>
      rw [List.flatMap_nil, List.append_nil]
      exact ht
  | cons reads calls ih =>
      have hone := ht.handleRead (hplain reads List.mem_cons_self) (dangling_readCalls hsafe)
      have hall := ih hone (fun other hother => hplain other (List.mem_cons_of_mem _ hother)) hsafe
      rw [List.append_assoc, ← List.flatMap_cons] at hall
      exact hall

theorem reassembled_empty (hconn : s.connections fd = some conn) (hempty : conn.readBuffer = []) :
    Reassembled s fd conn.id [] s := by
  rw [← hempty]
  refine reassembled_stuck hconn ?_
  rw [hempty]
  rfl

end TcpServer

open TcpServer

variable {κ : Type}

/--
However framed payloads are cut into reads and calls of `handle_read`, each is
delivered once, in order, by the call that receives its last byte, and the
read buffer holds what is unfinished.  A length prefix above the limit closes
the connection behind the frames before it.
-/
theorem framing_independent_of_segmentation (h : Handlers κ) (s : TcpServer κ) (fd : Fd)
    (conn : Connection) (hconn : s.connections fd = some conn) (hempty : conn.readBuffer = [])
    (payloads : List Bytes)
    (hsize : forall payload, payload ∈ payloads -> payload.length <= maxFrameSize)
    (calls : List (List ReadAnswer)) (hplain : forall reads, reads ∈ calls -> PlainReads reads)
    (hsafe : (s.readCalls h fd calls).dangling = false) :
    (forall more tail : Bytes, tail.length < 4 ->
      calls.flatMap received ++ more = payloads.flatMap frameMessage ++ tail ->
      exists n now, n <= payloads.length ∧
        (s.readCalls h fd calls).processed =
          s.processed ++ (payloads.take n).map (fun payload => (conn.id, payload)) ∧
        (s.readCalls h fd calls).connections fd = some now ∧ now.id = conn.id ∧
        calls.flatMap received = (payloads.take n).flatMap frameMessage ++ now.readBuffer ∧
        forall next, payloads[n]? = some next ->
          now.readBuffer.length < (frameMessage next).length) ∧
    (forall (len : UInt32) (more : Bytes), maxFrameSize < len.toNat ->
      calls.flatMap received = payloads.flatMap frameMessage ++ (lengthPrefix len ++ more) ->
      (s.readCalls h fd calls).processed =
          s.processed ++ payloads.map (fun payload => (conn.id, payload)) ∧
        (s.readCalls h fd calls).connections fd = none ∧
        (s.readCalls h fd calls).opened fd = false) := by
  have hdone := (reassembled_empty hconn hempty).readCalls hplain hsafe
  rw [List.nil_append] at hdone
  constructor
  · intro more tail htail hcut
    rcases frames_of_part hsize htail hcut with ⟨n, hn, hframes, hdecoded, hvalid, hnext⟩
    rcases hdone.kept hvalid with ⟨now, hnow, hid, hbuffer⟩
    refine ⟨n, now, hn, ?_, hnow, hid, ?_, ?_⟩
    · rw [hdone.processed, hframes]
    · rw [hbuffer]
      exact hdecoded
    · rw [hbuffer]
      exact hnext
  · intro len more hlen hcut
    rcases frames_of_oversized hsize hlen more with ⟨hframes, hover⟩
    rw [← hcut] at hframes hover
    refine ⟨?_, hdone.closed hover⟩
    rw [hdone.processed, hframes]

/-!
## One client
-/

namespace OneClient

def cutFrame : List (List ReadAnswer) :=
  [[.data [0, 0, 0]], [.data [2, 7], .interrupted, .data [8]]]

theorem plain_cutFrame : forall reads, reads ∈ cutFrame -> PlainReads reads := by
  intro reads hreads answer hanswer
  simp only [cutFrame, List.mem_cons, List.not_mem_nil, or_false] at hreads
  rcases hreads with rfl | rfl
  · exact Or.inl ⟨_, List.mem_singleton.mp hanswer⟩
  · simp only [List.mem_cons, List.not_mem_nil, or_false] at hanswer
    rcases hanswer with rfl | rfl | rfl
    · exact Or.inl ⟨_, rfl⟩
    · exact Or.inr rfl
    · exact Or.inl ⟨_, rfl⟩

theorem segmentation_cutFrame :
    exists now, (server.readCalls silent 5 cutFrame).processed = [(⟨1⟩, [7, 8])] ∧
      (server.readCalls silent 5 cutFrame).connections 5 = some now ∧ now.readBuffer = [] := by
  have hsize : forall payload, payload ∈ [([7, 8] : Bytes)] -> payload.length <= maxFrameSize := by
    intro payload hpayload
    rw [List.mem_singleton.mp hpayload]
    decide
  have hcut := (framing_independent_of_segmentation silent server 5 client rfl rfl [[7, 8]] hsize
    cutFrame plain_cutFrame rfl).left [] [] (by decide) rfl
  rcases hcut with ⟨n, now, hn, hprocessed, hnow, -, hbytes, hnext⟩
  have hreceived : cutFrame.flatMap received = frameMessage [7, 8] := rfl
  rw [hreceived] at hbytes
  cases n with
  | zero =>
      -- The whole frame would be waiting in the buffer.
      have hshort := hnext [7, 8] rfl
      have hlength := congrArg List.length hbytes
      rw [List.length_append] at hlength
      exact absurd hshort (by rw [hlength]; simp)
  | succ n =>
      have hlast : n = 0 := Nat.le_zero.mp (Nat.le_of_succ_le_succ hn)
      rw [hlast] at hbytes hprocessed
      exact ⟨now, hprocessed, hnow, List.self_eq_append_right.mp hbytes⟩

end OneClient

end Tcp
end MiniExchange
