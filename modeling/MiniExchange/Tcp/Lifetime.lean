import MiniExchange.Tcp.Streams

/-!
# What keeps a connection open

One connection of the server among the others.  The server closes it itself when
the kernel refuses a send or when the write buffer grows above its bound, while
it answers a frame, drains the outbound queue or flushes the write buffer, and
when the stream has an oversized length.  Nothing that happens to another
connection touches it.
-/

namespace MiniExchange
namespace Tcp

open Foundation

namespace TcpServer

variable {κ : Type} {h : Handlers κ} {s t : TcpServer κ} {fd : Fd} {id : ClientId}
  {conn : Connection}

/-- No reply closes the connection while a complete frame waits behind the one it answers. -/
def Timely (h : Handlers κ) (s : TcpServer κ) (fd : Fd) (id : ClientId) : Input κ -> Prop
  | .event event =>
      event.fd = fd -> event.readable = true -> forall conn, s.live fd id = some conn ->
        Outlives s fd conn
          (repliesTo h id s.app (frames (conn.readBuffer ++ received event.reads)).dropLast)
  | _ => True

/-- None of some calls of `send_to_client` closes the connection. -/
def Endures (fd : Fd) : TcpServer κ -> List Outgoing -> Prop
  | _, [] => True
  | s, send :: out =>
      (forall conn, s.connections fd = some conn -> conn.id = send.1 ->
        Outlives s fd conn [send.2]) ∧ Endures fd (s.sendToClient send.1 send.2) out

def afterRead (h : Handlers κ) (s : TcpServer κ) (event : EpollEvent) : TcpServer κ :=
  if event.readable then s.handleRead h event.fd event.reads else s

/-- The replies to the frames that an event completes leave the connection open. -/
def Withstands (h : Handlers κ) (s : TcpServer κ) (fd : Fd) (id : ClientId)
    (event : EpollEvent) : Prop :=
  event.readable = true -> forall conn, s.live fd id = some conn ->
    Outlives s fd conn
      (repliesTo h id s.app (frames (conn.readBuffer ++ received event.reads)))

def Flushes (s : TcpServer κ) (fd : Fd) : Prop :=
  forall conn, s.connections fd = some conn ->
    (flushLoop conn.writeBuffer s.sends).outcome ≠ .broken

/-- The server does not close the connection itself while it handles an input. -/
def Spares (h : Handlers κ) (s : TcpServer κ) (fd : Fd) (id : ClientId) : Input κ -> Prop
  | .event event =>
      if event.fd = s.listenerFd then True
      else if event.fd = s.eventfd then
        Endures fd { s with app := (h.drain s.app).1 } (h.drain s.app).2
      else
        event.fd = fd -> s.Withstands h fd id event ∧
          (event.writable = true -> (s.afterRead h event).Flushes fd)
  | .send client data => Endures fd s [(client, data)]
  | .shared _ => True
  | .shutdown => False

/-!
## The frame loop of the connection
-/

/-- How the frame loop leaves the connection whose read buffer it scans. -/
structure Looped (h : Handlers κ) (s : TcpServer κ) (fd : Fd) (conn : Connection)
    (t : TcpServer κ) : Prop where
  processed : exists n, n <= (frames conn.readBuffer).length ∧
    t.processed =
      s.processed ++ ((frames conn.readBuffer).take n).map (fun payload => (conn.id, payload)) ∧
    (n = (frames conn.readBuffer).length <->
      Outlives s fd conn (repliesTo h conn.id s.app (frames conn.readBuffer).dropLast))
  kept : Outlives s fd conn (repliesTo h conn.id s.app (frames conn.readBuffer)) ->
    ¬ Oversized conn.readBuffer -> exists now, t.connections fd = some now ∧ now.id = conn.id ∧
      now.readBuffer = unfinished conn.readBuffer ∧
      t.processed =
        s.processed ++ (frames conn.readBuffer).map (fun payload => (conn.id, payload))
  closed : ¬ (Outlives s fd conn (repliesTo h conn.id s.app (frames conn.readBuffer)) ∧
    ¬ Oversized conn.readBuffer) -> t.connections fd = none

theorem outlives_nil (s : TcpServer κ) (fd : Fd) (conn : Connection) : Outlives s fd conn [] :=
  fun _ => trivial

theorem looped_stuck (hframes : frames conn.readBuffer = [])
    (hprocessed : t.processed = s.processed)
    (hkept : ¬ Oversized conn.readBuffer -> exists now, t.connections fd = some now ∧
      now.id = conn.id ∧ now.readBuffer = unfinished conn.readBuffer)
    (hclosed : Oversized conn.readBuffer -> t.connections fd = none) :
    Looped h s fd conn t := by
  constructor
  case processed =>
    rw [hframes]
    refine ⟨0, Nat.le_refl _, ?_, fun _ => outlives_nil s fd conn, fun _ => rfl⟩
    rw [hprocessed, List.take_nil, List.map_nil, List.append_nil]
  case kept =>
    intro _ hover
    rcases hkept hover with ⟨now, hnow, hid, hbuffer⟩
    refine ⟨now, hnow, hid, hbuffer, ?_⟩
    rw [hprocessed, hframes, List.map_nil, List.append_nil]
  case closed =>
    intro hnot
    rw [hframes] at hnot
    by_contra hopen
    exact hnot ⟨outlives_nil s fd conn, fun hover => hopen (hclosed hover)⟩

section Item

variable {payload : Bytes} {size : Nat}

theorem Looped.cons {u : TcpServer κ} {now : Connection}
    (hfront : frontFrame conn.readBuffer = .item payload size) (hid : now.id = conn.id)
    (hbuffer : now.readBuffer = conn.readBuffer.drop size)
    (happ : t.app = (h.frame s.app conn.id payload).1)
    (hprocessed : t.processed = s.processed ++ [(conn.id, payload)])
    (hreplies : forall more, Outlives t fd now more <->
      Outlives s fd conn ((h.frame s.app conn.id payload).2.map Prod.snd ++ more))
    (hrest : Looped h t fd now u) : Looped h s fd conn u := by
  have hframes := frames_of_item hfront
  have hunfinished := unfinished_of_item hfront
  have hover : Oversized now.readBuffer <-> Oversized conn.readBuffer := by
    unfold Oversized
    rw [hunfinished, hbuffer]
  have hall : Outlives t fd now (repliesTo h now.id t.app (frames now.readBuffer)) <->
      Outlives s fd conn (repliesTo h conn.id s.app (frames conn.readBuffer)) := by
    rw [hreplies, hframes, hid, happ, hbuffer]
    rfl
  constructor
  case processed =>
    rcases hrest.processed with ⟨n, hn, hlog, hiff⟩
    rw [hid, hbuffer] at hlog
    rw [hreplies, hid, happ, hbuffer] at hiff
    rw [hbuffer] at hn
    rw [hframes]
    refine ⟨n + 1, Nat.succ_le_succ hn, ?_, ?_⟩
    · rw [hlog, hprocessed, List.take_succ_cons, List.map_cons, List.append_assoc]
      rfl
    · rw [List.length_cons, Nat.add_right_cancel_iff, hiff]
      cases hmore : frames (conn.readBuffer.drop size) with
      | nil =>
          rw [hmore] at hiff
          exact ⟨fun _ => outlives_nil s fd conn,
            fun _ => hiff.mp (Nat.le_zero.mp (by rw [hmore] at hn; exact hn))⟩
      | cons next more => exact Iff.rfl
  case kept =>
    intro hsurvives hfits
    rcases hrest.kept (hall.mpr hsurvives) (fun h => hfits (hover.mp h)) with
      ⟨last, hlast, hlastId, hlastBuffer, hlog⟩
    refine ⟨last, hlast, hlastId.trans hid, ?_, ?_⟩
    · rw [hlastBuffer, hunfinished, hbuffer]
    · rw [hlog, hprocessed, hframes, List.map_cons, hid, hbuffer, List.append_assoc]
      rfl
  case closed =>
    intro hnot
    rw [← hall, ← hover] at hnot
    exact hrest.closed hnot

theorem looped_lost (hfront : frontFrame conn.readBuffer = .item payload size)
    (hprocessed : t.processed = s.processed ++ [(conn.id, payload)])
    (hgone : t.connections fd = none)
    (hnever : forall more,
      ¬ Outlives s fd conn ((h.frame s.app conn.id payload).2.map Prod.snd ++ more)) :
    Looped h s fd conn t := by
  have hframes := frames_of_item hfront
  constructor
  case processed =>
    rw [hframes]
    refine ⟨1, Nat.succ_le_succ (Nat.zero_le _), ?_, ?_⟩
    · rw [hprocessed, List.take_succ_cons, List.take_zero]
      rfl
    · cases frames (conn.readBuffer.drop size) with
      | nil => exact ⟨fun _ => outlives_nil s fd conn, fun _ => rfl⟩
      | cons next more =>
          constructor
          · intro hone
            cases hone
          · intro hsurvives
            exact absurd hsurvives (hnever _)
  case kept =>
    intro hsurvives
    rw [hframes] at hsurvives
    exact absurd hsurvives (hnever _)
  case closed => exact fun _ => hgone

end Item

theorem frameLoop_looped (hanswers : AnswersSender h) {fuel : Nat}
    (hconn : s.connections fd = some conn) (hfuel : conn.readBuffer.length < fuel) :
    Looped h s fd conn (s.frameLoop h fd conn.id fuel) := by
  refine frameLoop_induction (P := fun s conn t => Looped h s fd conn t) ?hincomplete ?hinvalid
    ?hlost ?hnext hconn rfl hfuel
  case hincomplete =>
    intro s conn hconn hfront
    rcases frames_of_incomplete hfront with ⟨hframes, hrest⟩
    refine looped_stuck hframes rfl (fun _ => ⟨conn, hconn, rfl, hrest.symm⟩) ?_
    intro hover
    rw [Oversized, hrest, hfront] at hover
    cases hover
  case hinvalid =>
    intro s conn hfront
    rcases frames_of_invalid hfront with ⟨hframes, hrest⟩
    refine looped_stuck hframes (processed_closeConnection s fd) ?_ ?_
    · exact fun hfits => absurd (by rw [Oversized, hrest, hfront]) hfits
    · intro _
      rw [connections_closeConnection, Function.update_self]
  case hlost =>
    intro s conn payload size hconn hfront hgone
    rcases answered_processFrame hanswers hconn payload with ⟨buffer, hstored, -⟩ | ⟨-, hnever⟩
    · cases hgone.symm.trans hstored
    · exact looped_lost hfront (processFrame_sameReads h s conn.id payload).processed hgone hnever
  case hnext =>
    intro s conn payload size kept t hconn hfront hkept _ hrest
    have hsame := processFrame_sameReads h s conn.id payload
    rcases answered_processFrame hanswers hconn payload with ⟨buffer, hstored, hiff⟩ | ⟨hgone, -⟩
    · rw [← Option.some.inj (hstored.symm.trans hkept)] at hrest
      refine Looped.cons hfront ?_ ?_ ?_ ?_ ?_ hrest
      · rfl
      · rfl
      · exact hsame.app
      · exact hsame.processed
      · exact hiff
    · cases hgone.symm.trans hkept

/-- A call of `handle_read` that finds no end of file. -/
theorem handleRead_looped (hanswers : AnswersSender h) (hconn : s.connections fd = some conn)
    {reads : List ReadAnswer} (hplain : PlainReads reads) :
    Looped h (s.setConnection fd { conn with readBuffer := conn.readBuffer ++ received reads }) fd
      { conn with readBuffer := conn.readBuffer ++ received reads }
      (s.handleRead h fd reads) := by
  unfold handleRead
  rw [hconn]
  dsimp only
  rw [if_neg (by rw [readLoop_plain hplain]; exact Bool.false_ne_true)]
  exact frameLoop_looped hanswers (connections_setConnection_self s fd _) (Nat.lt_succ_self _)

/-!
## Other connections
-/

section Others

variable {other : Fd} {client : ClientId}

theorem sendAll_of_ne {out : List Outgoing} (hroute : s.clientToFd client ≠ some fd)
    (hout : forall send, send ∈ out -> send.1 = client) :
    (s.sendAll out).connections fd = s.connections fd := by
  induction out generalizing s with
  | nil => rfl
  | cons send out ih =>
      have hclient := hout send List.mem_cons_self
      have hroute' : (s.sendToClient send.1 send.2).clientToFd client ≠ some fd :=
        fun hsame => hroute ((outbounds_sendToClient s send.1 send.2).clientToFd hsame)
      have hrest := ih hroute' fun later hlater => hout later (List.mem_cons_of_mem _ hlater)
      rw [← hclient] at hroute
      exact hrest.trans (sendToClient_of_ne hroute send.2)

theorem handleRead_of_ne (hanswers : AnswersSender h) (htables : Tables s)
    (hconn : s.connections fd = some conn) (hfd : fd ≠ other) (reads : List ReadAnswer) :
    (s.handleRead h other reads).connections fd = some conn := by
  have hkept : (s.handleRead h other reads).connections fd = some conn ∧
      forall found, s.connections other = some found ->
        (s.handleRead h other reads).clientToFd found.id ≠ some fd := by
    refine handleRead_invariant (P := fun t => t.connections fd = some conn ∧
      forall found, s.connections other = some found -> t.clientToFd found.id ≠ some fd)
      ⟨hconn, ?_⟩ (fun t ht => ht) ?_ ?_ ?_ reads
    · intro found hfound hroute
      have hown : s.clientToFd found.id = some other := htables.forward other found hfound
      exact hfd (Option.some.inj (hroute.symm.trans hown))
    · rintro t ⟨ht, hroutes⟩
      refine ⟨?_, fun found hfound hroute => hroutes found hfound ?_⟩
      · rw [connections_closeConnection, Function.update_of_ne hfd]
        exact ht
      · exact Outbounds.clientToFd (.single (.close t other)) hroute
    · exact fun t found buffer ht _ => ⟨(Function.update_of_ne hfd _ _).trans ht.left, ht.right⟩
    · rintro found hfound t payload ⟨ht, hroutes⟩
      have hsteps : Outbounds { t with
          app := (h.frame t.app found.id payload).1
          processed := t.processed ++ [(found.id, payload)] }
          (t.processFrame h found.id payload) := outbounds_sendAll _ _
      refine ⟨?_, fun other hother hroute => hroutes other hother (hsteps.clientToFd hroute)⟩
      exact (sendAll_of_ne (s := { t with
          app := (h.frame t.app found.id payload).1
          processed := t.processed ++ [(found.id, payload)] })
        (hroutes found hfound) (hanswers t.app found.id payload)).trans ht
  exact hkept.left

theorem payloadsOf_handleRead (reads : List ReadAnswer)
    (hother : forall found, s.connections other = some found -> found.id ≠ id) :
    payloadsOf id (s.handleRead h other reads).processed = payloadsOf id s.processed := by
  refine handleRead_invariant
    (P := fun t => payloadsOf id t.processed = payloadsOf id s.processed) rfl (fun t ht => ht)
    ?_ (fun t found buffer ht _ => ht) ?_ reads
  · intro t ht
    rw [processed_closeConnection]
    exact ht
  · intro found hfound t payload ht
    rw [(processFrame_sameReads h t found.id payload).processed, payloadsOf_append,
      payloadsOf_of_ne (hother found hfound), List.append_nil]
    exact ht

theorem processed_handleAccept (s : TcpServer κ) (answers : List AcceptAnswer) :
    (s.handleAccept answers).processed = s.processed :=
  handleAccept_invariant (P := fun t => t.processed = s.processed) rfl
    fun t given nodelay registered _ ht =>
      (processed_acceptOne t given nodelay registered).trans ht

/-- A stored descriptor is open, so `accept4` never returns it. -/
theorem handleAccept_kept (hconn : s.connections fd = some conn) (hopened : s.opened fd = true)
    (answers : List AcceptAnswer) : (s.handleAccept answers).connections fd = some conn := by
  have hkept : (s.handleAccept answers).connections fd = some conn ∧
      (s.handleAccept answers).opened fd = true := by
    refine handleAccept_invariant
      (P := fun t => t.connections fd = some conn ∧ t.opened fd = true) ⟨hconn, hopened⟩ ?_
    rintro t given nodelay registered - ⟨hstored, hopen⟩
    unfold acceptOne
    by_cases hgiven : t.opened given = true
    · rw [if_pos hgiven]
      exact ⟨hstored, hopen⟩
    · have hne : fd ≠ given := by
        rintro rfl
        exact hgiven hopen
      rw [if_neg hgiven]
      have hkept := (emplace_of_ne hne t.connections
        { fd := given, id := ⟨t.nextClientId⟩ }).trans hstored
      cases nodelay <;> cases registered
      · exact ⟨hstored, hopen⟩
      · exact ⟨hstored, hopen⟩
      · exact ⟨(Function.update_of_ne hne _ _).trans hkept, hopen⟩
      · exact ⟨hkept, (Function.update_of_ne hne _ _).trans hopen⟩
  exact hkept.left

theorem handleEvent_of_ne (hanswers : AnswersSender h) (htables : Tables s)
    (hconn : s.connections fd = some conn) {event : EpollEvent} (hfd : event.fd ≠ fd)
    (hclient : event.fd = s.listenerFd ∨ event.fd ≠ s.eventfd) :
    (s.handleEvent h event).connections fd = some conn := by
  unfold handleEvent
  by_cases hlistener : event.fd = s.listenerFd
  · rw [if_pos hlistener]
    exact handleAccept_kept hconn (htables.opened fd conn hconn) event.accepts
  rw [if_neg hlistener, if_neg (hclient.resolve_left hlistener)]
  split
  · rw [connections_closeConnection, Function.update_of_ne hfd.symm]
    exact hconn
  · have hread : (if event.readable = true then s.handleRead h event.fd event.reads
        else s).connections fd = some conn := by
      split
      · exact handleRead_of_ne hanswers htables hconn hfd.symm event.reads
      · exact hconn
    dsimp only
    split
    · exact (flushWriteBuffer_of_ne hfd.symm).trans hread
    · exact hread

theorem payloadsOf_handleEvent {event : EpollEvent}
    (hother : forall found, s.connections event.fd = some found -> found.id ≠ id) :
    payloadsOf id (s.handleEvent h event).processed = payloadsOf id s.processed := by
  unfold handleEvent
  split
  · rw [processed_handleAccept]
  · split
    · have hsteps : Outbounds { s with app := (h.drain s.app).1 } (s.handleEventfd h) :=
        outbounds_sendAll _ _
      rw [hsteps.sameReads.processed]
    · split
      · rw [processed_closeConnection]
      · have hread : payloadsOf id (if event.readable = true then
            s.handleRead h event.fd event.reads else s).processed =
              payloadsOf id s.processed := by
          split
          · exact payloadsOf_handleRead event.reads hother
          · rfl
        dsimp only
        split
        · unfold handleWrite
          rw [(outbounds_flushWriteBuffer _ event.fd).sameReads.processed]
          exact hread
        · exact hread

theorem readBy_of_ne {event : EpollEvent}
    (hother : forall found, s.connections event.fd = some found -> found.id ≠ id) :
    s.readBy event id = [] := by
  unfold readBy
  split
  · rfl
  · cases hfound : s.connections event.fd with
    | none => rfl
    | some found => exact if_neg fun hsame => hother found hfound hsame.symm

/-- Calls of `send_to_client` for any clients, as the drain handler makes them. -/
theorem sendAll_endures (out : List Outgoing) (htables : Tables s)
    (hconn : s.connections fd = some conn) :
    (Endures fd s out ∧ exists buffer,
      (s.sendAll out).connections fd = some { conn with writeBuffer := buffer }) ∨
    (¬ Endures fd s out ∧ (s.sendAll out).connections fd = none) := by
  induction out generalizing s conn with
  | nil => exact Or.inl ⟨trivial, conn.writeBuffer, hconn⟩
  | cons send out ih =>
      have hsteps := outbounds_sendToClient s send.1 send.2
      have htables' := hsteps.tables htables
      by_cases hid : conn.id = send.1
      · have hanswered := answered_sendToClient hconn send.2
        rw [hid] at hanswered
        rcases hanswered with ⟨buffer, hstored, hiff⟩ | ⟨hgone, hnever⟩
        · have hfirst : Outlives s fd conn [send.2] := (hiff []).mp fun _ => trivial
          rcases ih htables' hstored with ⟨hrest, buffer', hkept⟩ | ⟨hrest, hclosed⟩
          · refine Or.inl ⟨⟨?_, hrest⟩, buffer', hkept⟩
            intro found hfound _
            rw [← Option.some.inj (hconn.symm.trans hfound)]
            exact hfirst
          · exact Or.inr ⟨fun hall => hrest hall.right, hclosed⟩
        · refine Or.inr ⟨fun hall => hnever [] (hall.left conn hconn hid), ?_⟩
          exact (outbounds_sendAll _ out).connections_none hgone
      · have hstored := (htables.sendToClient_others send.1 send.2).left fd conn hconn hid
        rcases ih htables' hstored with ⟨hrest, buffer, hkept⟩ | ⟨hrest, hclosed⟩
        · refine Or.inl ⟨⟨?_, hrest⟩, buffer, hkept⟩
          intro found hfound hsame
          rw [← Option.some.inj (hconn.symm.trans hfound)] at hsame
          exact absurd hsame hid
        · exact Or.inr ⟨fun hall => hrest hall.right, hclosed⟩

end Others

end TcpServer
end Tcp
end MiniExchange
