import MiniExchange.Tcp.Batch
import MiniExchange.Tcp.Lifetime

/-!
# Requests before a disconnect

The stream of one client over a run of the server in which anything may happen
to the other clients.  When a peer has closed, `handle_read` leaves at the end of
file without running the frame loop, and a hangup event closes the descriptor
without reading it: frames completed by the bytes of that last event are lost.
If the server closes the connection itself, the bytes it has not read are lost,
and the frames that wait in the read buffer if this happens in the frame loop.
-/

namespace MiniExchange
namespace Tcp

open Foundation

variable {κ : Type}

/-- How a connection ends, with the bytes of its stream that no frame loop sees. -/
inductive Closing where
  /-- The last call reads these bytes and then the end of file. -/
  | eof (reads : List ReadAnswer)
  /-- A hangup is reported while these bytes have not been read. -/
  | hangup (unread : Bytes)
  /-- The server has closed the connection itself, and the peer sends these bytes in vain. -/
  | abandoned (unread : Bytes)

namespace Closing

def bytes : Closing -> Bytes
  | eof reads => TcpServer.received reads
  | hangup unread => unread
  | abandoned unread => unread

def inputs (fd : Fd) : Closing -> List (TcpServer.Input κ)
  | eof reads =>
      [TcpServer.Input.event
        { fd := fd, readable := true, reads := reads ++ [.eof] }]
  | hangup _ => [TcpServer.Input.event { fd := fd, hangup := true, readable := true }]
  | abandoned _ => []

end Closing

namespace TcpServer

variable {h : Handlers κ} {s t : TcpServer κ} {fd : Fd} {id : ClientId} {conn : Connection}

def readIn (s : TcpServer κ) (client : ClientId) : Input κ -> Bytes
  | .event event => s.readBy event client
  | _ => []

def readOver (h : Handlers κ) (s : TcpServer κ) (inputs : List (Input κ))
    (client : ClientId) : Bytes :=
  (Machine.visits (step h) s inputs).flatMap fun v => v.1.readIn client v.2

/-- The close of the peer has not reached the server. -/
def Unclosed (s : TcpServer κ) (fd : Fd) (id : ClientId) : Input κ -> Prop
  | .event event =>
      event.fd = fd -> s.live fd id ≠ none ->
        event.hangup = false ∧ PlainReads event.reads
  | _ => True

/-!
The same over the inputs of a run, each in the state in which it is handled.
-/

def UnclosedOver (h : Handlers κ) (s : TcpServer κ) (fd : Fd) (id : ClientId)
    (inputs : List (Input κ)) : Prop :=
  forall v, v ∈ Machine.visits (step h) s inputs -> v.1.Unclosed fd id v.2

def TimelyOver (h : Handlers κ) (s : TcpServer κ) (fd : Fd) (id : ClientId)
    (inputs : List (Input κ)) : Prop :=
  forall v, v ∈ Machine.visits (step h) s inputs -> v.1.Timely h fd id v.2

def SparedOver (h : Handlers κ) (s : TcpServer κ) (fd : Fd) (id : ClientId)
    (inputs : List (Input κ)) : Prop :=
  forall v, v ∈ Machine.visits (step h) s inputs -> v.1.Spares h fd id v.2

/-!
## The stream of the connection
-/

/-- A connection that is open after the bytes of `stream`. -/
structure Underway (base : List Bytes) (fd : Fd) (id : ClientId) (stream : Bytes)
    (s : TcpServer κ) : Prop where
  tables : Tables s
  listener : fd ≠ s.listenerFd
  eventfd : fd ≠ s.eventfd
  stored : exists conn, s.connections fd = some conn ∧ conn.id = id ∧
    conn.readBuffer = unfinished stream
  fits : ¬ Oversized stream
  processed : payloadsOf id s.processed = base ++ frames stream

structure Ended (base : List Bytes) (id : ClientId) (stream : Bytes) (missing : List Bytes)
    (s : TcpServer κ) : Prop where
  tables : Tables s
  gone : forall fd conn, s.connections fd = some conn -> conn.id ≠ id
  assigned : s.Assigned id
  processed : payloadsOf id s.processed ++ missing = base ++ frames stream

section Stream

variable {base missing : List Bytes} {stream : Bytes}

theorem payloadsOf_map (id : ClientId) (payloads : List Bytes) :
    payloadsOf id (payloads.map fun payload => (id, payload)) = payloads := by
  induction payloads with
  | nil => rfl
  | cons payload payloads ih =>
      rw [List.map_cons, ← List.singleton_append, payloadsOf_append, payloadsOf_self, ih]
      rfl

theorem setup_step (h : Handlers κ) (s : TcpServer κ) (input : Input κ) :
    (s.step h input).listenerFd = s.listenerFd ∧ (s.step h input).eventfd = s.eventfd := by
  cases input with
  | event event =>
      have hsteps : ServerSteps (fun _ => True) s (s.handleEvent h event) :=
        steps_handleEvent h s fun _ _ _ => trivial
      exact ⟨hsteps.setup.left, hsteps.setup.right.left⟩
  | send client data =>
      have hsteps : ServerSteps (fun _ => True) s (s.sendToClient client data) :=
        (outbounds_sendToClient s client data).serverSteps
      exact ⟨hsteps.setup.left, hsteps.setup.right.left⟩
  | shared app => exact ⟨rfl, rfl⟩
  | shutdown => exact ⟨rfl, rfl⟩

theorem gone_of_steps (hsteps : ServerSteps (fun _ => False) s t)
    (hgone : forall fd conn, s.connections fd = some conn -> conn.id ≠ id) :
    forall fd conn, t.connections fd = some conn -> conn.id ≠ id := by
  intro other found hfound hid
  rcases hsteps.sameClient (fun hmay => hmay) found hfound with ⟨old, hold, hsame⟩
  exact hgone other old hold (hsame.trans hid)

theorem gone_of_closed (htables : Tables s) (hconn : s.connections fd = some conn)
    (hsteps : ServerSteps (fun _ => False) s t) (hclosed : t.connections fd = none) :
    forall other found, t.connections other = some found -> found.id ≠ conn.id := by
  intro other found hfound hid
  rcases hsteps.sameClient (fun hmay => hmay) found hfound with ⟨old, hold, hsame⟩
  have hfd := htables.fd_unique hold hconn (hsame.trans hid)
  rw [hfd, hclosed] at hfound
  cases hfound

theorem ServerSteps.assigned {may : Fd -> Prop} {x : ClientId × Fd} (hsteps : ServerSteps may s t)
    (hx : x ∈ s.assigned) : x ∈ t.assigned := by
  induction hsteps with
  | refl => exact hx
  | tail _ hstep ih =>
      cases hstep with
      | outbound hout =>
          rw [Outbounds.assigned (Relation.ReflTransGen.single hout)]
          exact ih
      | receive => exact ih
      | note => exact ih
      | accept => exact assigned_acceptOne ih _ _ _

/-- The connection is closed with everything processed that `stream` holds. -/
theorem Underway.ended (hs : Underway base fd id stream s) (htables : Tables t)
    (hsteps : ServerSteps (fun _ => False) s t) (hclosed : t.connections fd = none)
    (hprocessed : payloadsOf id t.processed = payloadsOf id s.processed) :
    Ended base id stream [] t := by
  rcases hs.stored with ⟨conn, hconn, hid, -⟩
  constructor
  case tables => exact htables
  case gone =>
    rw [← hid]
    exact gone_of_closed hs.tables hconn hsteps hclosed
  case assigned =>
    rw [← hid]
    exact ⟨fd, hsteps.assigned (hs.tables.assigned fd conn hconn)⟩
  case processed => rw [List.append_nil, hprocessed, hs.processed]

namespace Ended

theorem acceptOne (hs : Ended base id stream missing s) (hcount : s.assigned.length < 2 ^ 64)
    (fd : Fd) (nodelay registered : Bool) :
    Ended base id stream missing (s.acceptOne fd nodelay registered) := by
  rcases hs.assigned with ⟨given, hgiven⟩
  constructor
  case tables => exact hs.tables.acceptOne hcount fd nodelay registered
  case gone =>
    intro other conn hconn
    rcases hs.tables.connections_acceptOne hcount hconn with hkept | rfl
    · exact hs.gone other conn hkept
    · rintro rfl
      exact hs.tables.next_unassigned hcount ⟨given, hgiven⟩
  case assigned => exact ⟨given, assigned_acceptOne hgiven fd nodelay registered⟩
  case processed =>
    rw [processed_acceptOne]
    exact hs.processed

theorem step (hs : Ended base id stream missing s) (input : Input κ)
    (hcount : (s.step h input).assigned.length <= 2 ^ 64) :
    Ended base id stream missing (s.step h input) ∧ s.readIn id input = [] := by
  have htables := (step_tables h s input).right hs.tables hcount
  rcases hs.assigned with ⟨given, hgiven⟩
  cases input with
  | event event =>
      refine ⟨?_, readBy_of_ne (hs.gone event.fd)⟩
      by_cases hlistener : event.fd = s.listenerFd
      · have hevent : s.handleEvent h event = s.handleAccept event.accepts := if_pos hlistener
        show Ended base id stream missing (s.handleEvent h event)
        rw [hevent]
        refine handleAccept_counted hs
          (fun t fd nodelay registered ht hbound => ht.acceptOne hbound fd nodelay registered) ?_
        rw [← hevent]
        exact hcount
      · have hsteps : ServerSteps (fun _ => False) s (s.handleEvent h event) :=
          steps_handleEvent h s fun heq => absurd heq hlistener
        refine ⟨htables, gone_of_steps hsteps hs.gone, ⟨given, hsteps.assigned hgiven⟩, ?_⟩
        show payloadsOf id (s.handleEvent h event).processed ++ missing = _
        rw [payloadsOf_handleEvent (hs.gone event.fd)]
        exact hs.processed
  | send client data =>
      have hsteps := outbounds_sendToClient s client data
      have hall : ServerSteps (fun _ => False) s (s.sendToClient client data) :=
        hsteps.serverSteps
      refine ⟨⟨htables, gone_of_steps hall hs.gone, ⟨given, hall.assigned hgiven⟩, ?_⟩, rfl⟩
      show payloadsOf id (s.sendToClient client data).processed ++ missing = _
      rw [hsteps.sameReads.processed]
      exact hs.processed
  | shared app => exact ⟨⟨htables, hs.gone, hs.assigned, hs.processed⟩, rfl⟩
  | shutdown =>
      refine ⟨⟨htables, ?_, hs.assigned, hs.processed⟩, rfl⟩
      intro fd conn hconn
      cases hconn

theorem flushWriteBuffer (hs : Ended base id stream missing s) (fd : Fd) :
    Ended base id stream missing (s.flushWriteBuffer fd) := by
  have hsteps := outbounds_flushWriteBuffer s fd
  rcases hs.assigned with ⟨given, hgiven⟩
  refine ⟨hsteps.tables hs.tables, gone_of_steps hsteps.serverSteps hs.gone, ⟨given, ?_⟩, ?_⟩
  · rw [hsteps.assigned]
    exact hgiven
  · rw [hsteps.sameReads.processed]
    exact hs.processed

end Ended

namespace Underway

theorem kept (hs : Underway base fd id stream s) (htables : Tables t)
    (hsetup : t.listenerFd = s.listenerFd ∧ t.eventfd = s.eventfd)
    (hstored : exists now, t.connections fd = some now ∧ now.id = id ∧
      now.readBuffer = unfinished stream)
    (hprocessed : payloadsOf id t.processed = payloadsOf id s.processed) :
    Underway base fd id stream t where
  tables := htables
  listener := by
    rw [hsetup.left]
    exact hs.listener
  eventfd := by
    rw [hsetup.right]
    exact hs.eventfd
  stored := hstored
  fits := hs.fits
  processed := hprocessed.trans hs.processed

theorem sendAll (hs : Underway base fd id stream s) (out : List Outgoing) :
    (Endures fd s out ∧ Underway base fd id stream (s.sendAll out)) ∨
    (¬ Endures fd s out ∧ Ended base id stream [] (s.sendAll out)) := by
  have hsteps := outbounds_sendAll s out
  have hall : ServerSteps (fun _ => False) s (s.sendAll out) := hsteps.serverSteps
  have htables := hsteps.tables hs.tables
  have hlog : payloadsOf id (s.sendAll out).processed = payloadsOf id s.processed := by
    rw [hsteps.sameReads.processed]
  rcases hs.stored with ⟨conn, hconn, hid, hbuffer⟩
  rcases sendAll_endures out hs.tables hconn with
    ⟨hendures, buffer, hkept⟩ | ⟨hbreaks, hclosed⟩
  · refine Or.inl ⟨hendures, hs.kept htables ⟨hall.setup.left, hall.setup.right.left⟩ ?_ hlog⟩
    exact ⟨_, hkept, hid, hbuffer⟩
  · exact Or.inr ⟨hbreaks, hs.ended htables hall hclosed hlog⟩

theorem flushWriteBuffer (hs : Underway base fd id stream s) :
    (s.Flushes fd ∧ Underway base fd id stream (s.flushWriteBuffer fd)) ∨
    (¬ s.Flushes fd ∧ Ended base id stream [] (s.flushWriteBuffer fd)) := by
  have hsteps := outbounds_flushWriteBuffer s fd
  have hall : ServerSteps (fun _ => False) s (s.flushWriteBuffer fd) := hsteps.serverSteps
  have htables := hsteps.tables hs.tables
  have hlog : payloadsOf id (s.flushWriteBuffer fd).processed = payloadsOf id s.processed := by
    rw [hsteps.sameReads.processed]
  rcases hs.stored with ⟨conn, hconn, hid, hbuffer⟩
  by_cases hbroken : (flushLoop conn.writeBuffer s.sends).outcome = .broken
  · right
    refine ⟨fun hflushes => hflushes conn hconn hbroken, ?_⟩
    exact hs.ended htables hall (flushWriteBuffer_broken hconn hbroken) hlog
  · left
    constructor
    · intro found hfound
      rw [← Option.some.inj (hconn.symm.trans hfound)]
      exact hbroken
    · refine hs.kept htables ⟨hall.setup.left, hall.setup.right.left⟩ ?_ hlog
      exact ⟨_, (flushWriteBuffer_kept hconn hbroken).left, hid, hbuffer⟩

theorem handleRead (hs : Underway base fd id stream s) (hanswers : AnswersSender h)
    (hconn : s.connections fd = some conn) (hid : conn.id = id)
    (hbuffer : conn.readBuffer = unfinished stream) {reads : List ReadAnswer}
    (hplain : PlainReads reads) (htables : Tables (s.handleRead h fd reads))
    {payloads : List Bytes}
    (hpayloads : payloads = frames (conn.readBuffer ++ received reads)) :
    (Outlives s fd conn (repliesTo h id s.app payloads) ∧
      Outlives s fd conn (repliesTo h id s.app payloads.dropLast) ∧
      Underway base fd id (stream ++ received reads) (s.handleRead h fd reads)) ∨
    (¬ (Outlives s fd conn (repliesTo h id s.app payloads) ∧
        ¬ Oversized (stream ++ received reads)) ∧
      exists missing,
        Ended base id (stream ++ received reads) missing (s.handleRead h fd reads) ∧
        (missing = [] <->
          Outlives s fd conn (repliesTo h id s.app payloads.dropLast))) := by
  have hloop := handleRead_looped hanswers hconn hplain
  have hsteps : ServerSteps (fun _ => False) s (s.handleRead h fd reads) :=
    steps_handleRead _ h s fd reads
  have hassigned := hs.tables.assigned fd conn hconn
  subst hid
  have hframes : frames (stream ++ received reads) = frames stream ++ payloads := by
    rw [frames_append, hpayloads, hbuffer]
  have hover : Oversized (stream ++ received reads) <->
      Oversized (conn.readBuffer ++ received reads) := by
    unfold Oversized
    rw [unfinished_append, hbuffer]
  rcases hloop.processed with ⟨n, hn, hlog, hiff⟩
  have htaken : payloadsOf conn.id (s.handleRead h fd reads).processed =
      base ++ frames stream ++ payloads.take n := by
    rw [hlog, payloadsOf_append, payloadsOf_map, hpayloads]
    exact congrArg (· ++ _) hs.processed
  rw [← hpayloads] at hn hiff
  by_cases hkept : Outlives s fd conn (repliesTo h conn.id s.app payloads) ∧
      ¬ Oversized (stream ++ received reads)
  · left
    rcases hkept with ⟨houtlives, hfits⟩
    have houtlives' := houtlives
    rw [hpayloads] at houtlives'
    rcases hloop.kept houtlives' (fun h => hfits (hover.mpr h)) with
      ⟨now, hnow, hnowId, hnowBuffer, hall⟩
    have hcomplete : n = payloads.length := by
      have hlength := congrArg List.length (List.append_cancel_left (hlog.symm.trans hall))
      rw [List.length_map, List.length_map, List.length_take, ← hpayloads] at hlength
      omega
    refine ⟨houtlives, hiff.mp hcomplete, ?_⟩
    constructor
    case tables => exact htables
    case listener =>
      rw [hsteps.setup.left]
      exact hs.listener
    case eventfd =>
      rw [hsteps.setup.right.left]
      exact hs.eventfd
    case stored =>
      refine ⟨now, hnow, hnowId, hnowBuffer.trans ?_⟩
      rw [unfinished_append stream, hbuffer]
    case fits => exact hfits
    case processed =>
      rw [htaken, hcomplete, List.take_length, hframes, List.append_assoc]
  · right
    refine ⟨hkept, payloads.drop n, ⟨htables, ?_, ⟨fd, hsteps.assigned hassigned⟩, ?_⟩, ?_⟩
    · refine gone_of_closed hs.tables hconn hsteps (hloop.closed ?_)
      rw [hover, hpayloads] at hkept
      exact hkept
    · rw [htaken, hframes, List.append_assoc, List.take_append_drop, List.append_assoc]
    · rw [List.drop_eq_nil_iff]
      exact ⟨fun hle => hiff.mp (Nat.le_antisymm hn hle), fun hsurvives =>
        Nat.le_of_eq (hiff.mpr hsurvives).symm⟩

theorem afterRead (hs : Underway base fd id stream s) (hanswers : AnswersSender h)
    {event : EpollEvent} (hfd : event.fd = fd) (hhangup : event.hangup = false)
    (hplain : PlainReads event.reads) (htables : Tables (s.afterRead h event)) :
    (s.Withstands h fd id event ∧ s.Timely h fd id (.event event) ∧
      Underway base fd id (stream ++ s.readBy event id) (s.afterRead h event)) ∨
    (¬ (s.Withstands h fd id event ∧ ¬ Oversized (stream ++ s.readBy event id)) ∧
      exists missing, Ended base id (stream ++ s.readBy event id) missing
          (s.afterRead h event) ∧
        (missing = [] <-> s.Timely h fd id (.event event))) := by
  rcases hs.stored with ⟨conn, hconn, hid, hbuffer⟩
  by_cases hreadable : event.readable = true
  · have hunless : ¬ (event.fd = s.listenerFd ∨ event.fd = s.eventfd ∨
        event.hangup = true ∨ event.readable = false) := by
      simp [hfd, hs.listener, hs.eventfd, hhangup, hreadable]
    have hbytes : s.readBy event id = received event.reads := by
      rw [readBy, if_neg hunless, hfd, hconn]
      exact if_pos hid.symm
    have hread : s.afterRead h event = s.handleRead h fd event.reads := by
      rw [TcpServer.afterRead, if_pos hreadable, hfd]
    have hlive : s.live fd id = some conn := by
      rw [← hid]
      exact live_of_connections hconn
    have hwithstands : s.Withstands h fd id event <-> Outlives s fd conn
        (repliesTo h id s.app (frames (conn.readBuffer ++ received event.reads))) := by
      constructor
      · exact fun hall => hall hreadable conn hlive
      · intro houtlives _ found hfound
        rw [← Option.some.inj (hlive.symm.trans hfound)]
        exact houtlives
    have htimely : s.Timely h fd id (.event event) <-> Outlives s fd conn
        (repliesTo h id s.app (frames (conn.readBuffer ++ received event.reads)).dropLast) := by
      constructor
      · exact fun hall => hall hfd hreadable conn hlive
      · intro houtlives _ _ found hfound
        rw [← Option.some.inj (hlive.symm.trans hfound)]
        exact houtlives
    rw [hread] at htables
    rw [hwithstands, htimely, hbytes, hread]
    exact hs.handleRead hanswers hconn hid hbuffer hplain htables rfl
  · left
    have hnothing : s.readBy event id = [] :=
      if_pos (Or.inr (Or.inr (Or.inr (Bool.eq_false_of_not_eq_true hreadable))))
    have hunchanged : s.afterRead h event = s := if_neg hreadable
    rw [hnothing, hunchanged, List.append_nil]
    exact ⟨fun heq => absurd heq hreadable, fun _ heq => absurd heq hreadable, hs⟩

theorem own (hs : Underway base fd id stream s) (hanswers : AnswersSender h)
    {event : EpollEvent} (hfd : event.fd = fd) (hhangup : event.hangup = false)
    (hplain : PlainReads event.reads)
    (hcount : (s.handleEvent h event).assigned.length <= 2 ^ 64) :
    (s.Spares h fd id (.event event) ∧ s.Timely h fd id (.event event) ∧
      Underway base fd id (stream ++ s.readBy event id) (s.handleEvent h event)) ∨
    (¬ (s.Spares h fd id (.event event) ∧ ¬ Oversized (stream ++ s.readBy event id)) ∧
      exists missing, Ended base id (stream ++ s.readBy event id) missing
          (s.handleEvent h event) ∧
        (missing = [] <-> s.Timely h fd id (.event event))) := by
  have hevent : s.handleEvent h event =
      if event.writable = true then (s.afterRead h event).flushWriteBuffer fd
      else s.afterRead h event := by
    simp [handleEvent, TcpServer.afterRead, handleWrite, hfd, hs.listener, hs.eventfd, hhangup]
  have hspares : s.Spares h fd id (.event event) <-> s.Withstands h fd id event ∧
      (event.writable = true -> (s.afterRead h event).Flushes fd) := by
    simp [Spares, hfd, hs.listener, hs.eventfd]
  have hsteps : ServerSteps (fun _ => False) s (s.afterRead h event) := by
    unfold TcpServer.afterRead
    split
    · exact steps_handleRead _ h s event.fd event.reads
    · exact Relation.ReflTransGen.refl
  have htables : Tables (s.afterRead h event) := by
    refine hsteps.tables.right hs.tables ?_
    rw [hevent] at hcount
    split at hcount
    · rw [(outbounds_flushWriteBuffer _ fd).assigned] at hcount
      exact hcount
    · exact hcount
  rw [hspares, hevent]
  rcases hs.afterRead hanswers hfd hhangup hplain htables with
    ⟨hwithstands, htimely, hafter⟩ | ⟨hnot, missing, hended, hiff⟩
  · by_cases hwritable : event.writable = true
    · rw [if_pos hwritable]
      rcases hafter.flushWriteBuffer with ⟨hflushes, hkept⟩ | ⟨hbreaks, hclosed⟩
      · exact Or.inl ⟨⟨hwithstands, fun _ => hflushes⟩, htimely, hkept⟩
      · refine Or.inr ⟨fun hall => hbreaks (hall.left.right hwritable), [], hclosed, ?_⟩
        exact ⟨fun _ => htimely, fun _ => rfl⟩
    · rw [if_neg hwritable]
      exact Or.inl ⟨⟨hwithstands, fun heq => absurd heq hwritable⟩, htimely, hafter⟩
  · refine Or.inr ⟨fun hall => hnot ⟨hall.left.left, hall.right⟩, missing, ?_, hiff⟩
    split
    · exact hended.flushWriteBuffer fd
    · exact hended

theorem quiet {spares timely : Prop} (htimely : timely)
    (hcases : (spares ∧ Underway base fd id stream t) ∨
      (¬ spares ∧ Ended base id stream [] t)) :
    (spares ∧ timely ∧ Underway base fd id (stream ++ []) t) ∨
    (¬ (spares ∧ ¬ Oversized (stream ++ [])) ∧
      exists missing, Ended base id (stream ++ []) missing t ∧ (missing = [] <-> timely)) := by
  rw [List.append_nil]
  rcases hcases with ⟨hspares, hkept⟩ | ⟨hnot, hended⟩
  · exact Or.inl ⟨hspares, htimely, hkept⟩
  · exact Or.inr ⟨fun hall => hnot hall.left, [], hended, fun _ => htimely, fun _ => rfl⟩

theorem step (hs : Underway base fd id stream s) (hanswers : AnswersSender h)
    {input : Input κ} (hopen : s.Unclosed fd id input)
    (hcount : (s.step h input).assigned.length <= 2 ^ 64) :
    (s.Spares h fd id input ∧ s.Timely h fd id input ∧
      Underway base fd id (stream ++ s.readIn id input) (s.step h input)) ∨
    (¬ (s.Spares h fd id input ∧ ¬ Oversized (stream ++ s.readIn id input)) ∧
      exists missing, Ended base id (stream ++ s.readIn id input) missing (s.step h input) ∧
        (missing = [] <-> s.Timely h fd id input)) := by
  have htables := (step_tables h s input).right hs.tables hcount
  have hsetup := setup_step h s input
  rcases hs.stored with ⟨conn, hconn, hid, hbuffer⟩
  cases input with
  | event event =>
      by_cases hfd : event.fd = fd
      · rcases hopen hfd (by
          rw [← hid, live_of_connections hconn]
          exact Option.some_ne_none _) with ⟨hhangup, hplain⟩
        exact hs.own hanswers hfd hhangup hplain hcount
      · have hother : forall found, s.connections event.fd = some found -> found.id ≠ id := by
          intro found hfound hsame
          exact hfd (hs.tables.fd_unique hfound hconn (hsame.trans hid.symm))
        have htimely : s.Timely h fd id (.event event) := fun heq => absurd heq hfd
        have hlog := payloadsOf_handleEvent (h := h) hother
        have hnothing : s.readIn id (.event event) = [] := readBy_of_ne hother
        rw [hnothing]
        refine quiet htimely ?_
        by_cases hclient : event.fd = s.listenerFd ∨ event.fd ≠ s.eventfd
        · left
          refine ⟨?_, hs.kept htables hsetup ?_ hlog⟩
          · rw [Spares]
            split
            · trivial
            · next hlistener =>
                rw [if_neg (hclient.resolve_left hlistener)]
                exact fun heq => absurd heq hfd
          · exact ⟨conn, handleEvent_of_ne hanswers hs.tables hconn hfd hclient, hid, hbuffer⟩
        · rw [not_or, not_not] at hclient
          have hready : Underway base fd id stream { s with app := (h.drain s.app).1 } :=
            hs.kept { hs.tables with } ⟨rfl, rfl⟩ hs.stored rfl
          rw [Spares, if_neg hclient.left, if_pos hclient.right, TcpServer.step, handleEvent,
            if_neg hclient.left, if_pos hclient.right]
          exact hready.sendAll (h.drain s.app).2
  | send client data => exact quiet trivial (hs.sendAll [(client, data)])
  | shared app =>
      refine quiet trivial (Or.inl ⟨trivial, hs.kept htables hsetup ?_ rfl⟩)
      exact ⟨conn, hconn, hid, hbuffer⟩
  | shutdown =>
      refine quiet trivial (Or.inr ⟨fun hfalse => hfalse, htables, ?_, ⟨fd, ?_⟩, ?_⟩)
      · intro other found hfound
        cases hfound
      · rw [← hid]
        exact hs.tables.assigned fd conn hconn
      · rw [List.append_nil]
        exact hs.processed

end Underway

/-!
## Runs
-/

theorem length_assigned_run (h : Handlers κ) (s : TcpServer κ) (inputs : List (Input κ)) :
    s.assigned.length <= (s.run h inputs).assigned.length := by
  refine Machine.run_invariant
    (P := fun t : TcpServer κ => s.assigned.length <= t.assigned.length) ?_ (Nat.le_refl _)
    inputs
  intro t input ht
  exact Nat.le_trans ht (step_tables h t input).left

theorem Ended.timely (hs : Ended base id stream missing s) (fd : Fd) (input : Input κ) :
    s.Timely h fd id input := by
  cases input with
  | event event =>
      intro _ _ conn hlive
      rcases connections_of_live hlive with ⟨hconn, hid⟩
      exact absurd hid (hs.gone fd conn hconn)
  | send client data => trivial
  | shared app => trivial
  | shutdown => trivial

theorem Ended.run (hs : Ended base id stream missing s) (fd : Fd) (inputs : List (Input κ))
    (hcount : (s.run h inputs).assigned.length <= 2 ^ 64) :
    Ended base id stream missing (s.run h inputs) ∧ readOver h s inputs id = [] ∧
      TimelyOver h s fd id inputs := by
  induction inputs generalizing s with
  | nil => exact ⟨hs, rfl, List.forall_mem_nil _⟩
  | cons input inputs ih =>
      have hfirst := hs.step (h := h) input
        (Nat.le_trans (length_assigned_run h (s.step h input) inputs) hcount)
      rcases ih hfirst.left hcount with ⟨hended, hread, htimely⟩
      refine ⟨hended, ?_, List.forall_mem_cons.mpr ⟨hs.timely fd input, htimely⟩⟩
      show s.readIn id input ++ readOver h (s.step h input) inputs id = []
      rw [hfirst.right, hread]
      rfl

theorem Underway.run (hs : Underway base fd id stream s) (hanswers : AnswersSender h)
    {inputs : List (Input κ)}
    (hopen : UnclosedOver h s fd id inputs)
    (hcount : (s.run h inputs).assigned.length <= 2 ^ 64) :
    (SparedOver h s fd id inputs ∧ TimelyOver h s fd id inputs ∧
      Underway base fd id (stream ++ readOver h s inputs id) (s.run h inputs)) ∨
    (¬ (SparedOver h s fd id inputs ∧ ¬ Oversized (stream ++ readOver h s inputs id)) ∧
      exists missing,
        Ended base id (stream ++ readOver h s inputs id) missing (s.run h inputs) ∧
        (missing = [] <-> TimelyOver h s fd id inputs)) := by
  induction inputs generalizing s stream with
  | nil =>
      left
      refine ⟨List.forall_mem_nil _, List.forall_mem_nil _, ?_⟩
      show Underway base fd id (stream ++ []) s
      rw [List.append_nil]
      exact hs
  | cons input inputs ih =>
      have hread : stream ++ readOver h s (input :: inputs) id =
          stream ++ s.readIn id input ++ readOver h (s.step h input) inputs id :=
        (List.append_assoc _ _ _).symm
      have hspared : SparedOver h s fd id (input :: inputs) <->
          s.Spares h fd id input ∧ SparedOver h (s.step h input) fd id inputs :=
        List.forall_mem_cons
      have htimelyOver : TimelyOver h s fd id (input :: inputs) <->
          s.Timely h fd id input ∧ TimelyOver h (s.step h input) fd id inputs :=
        List.forall_mem_cons
      have hopen' : s.Unclosed fd id input ∧ UnclosedOver h (s.step h input) fd id inputs :=
        List.forall_mem_cons.mp hopen
      rw [hread, hspared, htimelyOver]
      have hcount' := Nat.le_trans (length_assigned_run h (s.step h input) inputs) hcount
      rcases hs.step hanswers hopen'.left hcount' with
        ⟨hspares, htimely, hafter⟩ | ⟨hnot, missing, hended, hiff⟩
      · rcases ih hafter hopen'.right hcount with
          ⟨hspares', htimely', hlast⟩ | ⟨hnot, missing, hended, hiff⟩
        · exact Or.inl ⟨⟨hspares, hspares'⟩, ⟨htimely, htimely'⟩, hlast⟩
        · refine Or.inr ⟨fun hall => hnot ⟨hall.left.right, hall.right⟩, missing, hended, ?_⟩
          exact hiff.trans ⟨fun hrest => ⟨htimely, hrest⟩, And.right⟩
      · rcases hended.run fd inputs hcount with ⟨hlast, hnothing, hlater⟩
        rw [hnothing, List.append_nil]
        refine Or.inr ⟨fun hall => hnot ⟨hall.left.left, hall.right⟩, missing, hlast, ?_⟩
        exact hiff.trans ⟨fun hfirst => ⟨hfirst, hlater⟩, And.left⟩

theorem underway_first (htables : Tables s) (hconn : s.connections fd = some conn)
    (hempty : conn.readBuffer = []) (hlistener : fd ≠ s.listenerFd)
    (heventfd : fd ≠ s.eventfd) :
    Underway (payloadsOf conn.id s.processed) fd conn.id [] s := by
  have hfront : frontFrame [] = .incomplete := rfl
  have hnothing : unfinished [] = [] := (frames_of_incomplete hfront).right
  refine ⟨htables, hlistener, heventfd, ⟨conn, hconn, rfl, hempty.trans hnothing.symm⟩, ?_, ?_⟩
  · intro hover
    rw [Oversized, hnothing] at hover
    cases hover
  · rw [frames_nil, List.append_nil]

end Stream

/-!
## The last event
-/

theorem readLoop_eof (reads : List ReadAnswer) :
    (readLoop (reads ++ [.eof])).2 = true := by
  induction reads with
  | nil => rfl
  | cons answer reads ih =>
      cases answer with
      | data bytes => exact ih
      | interrupted => exact ih
      | eof => rfl
      | failed => rfl

theorem run_closing (hlistener : fd ≠ s.listenerFd) (heventfd : fd ≠ s.eventfd)
    (closing : Closing) :
    (s.run h (closing.inputs fd)).processed = s.processed ∧
      ((forall unread, closing ≠ .abandoned unread) ->
        (s.run h (closing.inputs fd)).connections fd = none) := by
  have hclosed : forall t : TcpServer κ, (t.closeConnection fd).processed = t.processed ∧
      (t.closeConnection fd).connections fd = none := by
    intro t
    rw [connections_closeConnection, Function.update_self]
    exact ⟨processed_closeConnection t fd, rfl⟩
  cases closing with
  | eof reads =>
      have hevent : s.run h ((Closing.eof reads).inputs fd) =
          s.handleRead h fd (reads ++ [.eof]) := by
        simp [run, Machine.run, Closing.inputs, step, handleEvent, hlistener, heventfd]
      rw [hevent]
      unfold handleRead
      cases hconn : s.connections fd with
      | none => exact ⟨rfl, fun _ => hconn⟩
      | some conn =>
          dsimp only
          rw [if_pos (readLoop_eof reads)]
          exact ⟨(hclosed _).left, fun _ => (hclosed _).right⟩
  | hangup unread =>
      have hevent : s.run h ((Closing.hangup unread).inputs fd) = s.closeConnection fd := by
        simp [run, Machine.run, Closing.inputs, step, handleEvent, hlistener, heventfd]
      rw [hevent]
      exact ⟨(hclosed s).left, fun _ => (hclosed s).right⟩
  | abandoned unread => exact ⟨rfl, fun hne => absurd rfl (hne unread)⟩

end TcpServer

open TcpServer

/--
The stream of a client, from a point between two frames on, in a run of the
server in which anything may happen to the other clients.  The server closes
the connection itself exactly if a reply, a drained response or a flush breaks
it or the stream has an oversized length.  All complete frames have been
delivered when the connection has ended exactly if no reply closed it while a
frame waited behind the one answered, and the bytes that no frame loop saw
complete no frame behind what was left unfinished.
-/
theorem complete_frames_delivered_iff (h : Handlers κ) (hanswers : AnswersSender h)
    (listenerFd eventfd : Fd) (maxWriteBufferBytes : Nat) (others : Fd -> Bool) (app : κ)
    (sends : List SendAnswer) (before : List (Input κ)) (s : TcpServer κ)
    (hs : s =
      (TcpServer.new listenerFd eventfd maxWriteBufferBytes others app sends).run h before)
    (fd : Fd) (conn : Connection) (hconn : s.connections fd = some conn)
    (hempty : conn.readBuffer = []) (hlistener : fd ≠ s.listenerFd) (heventfd : fd ≠ s.eventfd)
    (inputs : List (Input κ)) (hcount : (s.run h inputs).assigned.length <= 2 ^ 64)
    (hopen : UnclosedOver h s fd conn.id inputs) (closing : Closing) :
    ((s.run h inputs).live fd conn.id ≠ none <->
      SparedOver h s fd conn.id inputs ∧ ¬ Oversized (readOver h s inputs conn.id)) ∧
    (payloadsOf conn.id ((s.run h inputs).run h (closing.inputs fd)).processed =
        payloadsOf conn.id s.processed ++
          frames (readOver h s inputs conn.id ++ closing.bytes) <->
      TimelyOver h s fd conn.id inputs ∧
        frames (unfinished (readOver h s inputs conn.id) ++ closing.bytes) = []) ∧
    ((forall unread, closing ≠ .abandoned unread) ->
      ((s.run h inputs).run h (closing.inputs fd)).connections fd = none) := by
  have htables : Tables s := by
    have hbound := Nat.le_trans (length_assigned_run h s inputs) hcount
    rw [hs] at hbound ⊢
    exact tables_run (tables_new listenerFd eventfd maxWriteBufferBytes others app sends) before
      hbound
  have hsetup : (s.run h inputs).listenerFd = s.listenerFd ∧
      (s.run h inputs).eventfd = s.eventfd := by
    refine Machine.run_invariant (P := fun t : TcpServer κ =>
      t.listenerFd = s.listenerFd ∧ t.eventfd = s.eventfd) ?_ ⟨rfl, rfl⟩ inputs
    intro t input ht
    have hone := setup_step h t input
    exact ⟨hone.left.trans ht.left, hone.right.trans ht.right⟩
  have hclosing := run_closing (h := h) (s := s.run h inputs) (by rw [hsetup.left]; exact hlistener)
    (by rw [hsetup.right]; exact heventfd) closing
  have hrun := (underway_first htables hconn hempty hlistener heventfd).run hanswers hopen hcount
  rw [List.nil_append] at hrun
  rw [hclosing.left, frames_append]
  refine ⟨?_, ?_, hclosing.right⟩
  · rcases hrun with ⟨hspared, -, hopened⟩ | ⟨hnot, missing, hended, -⟩
    · rcases hopened.stored with ⟨now, hnow, hid, -⟩
      have hlive := live_of_connections hnow
      rw [hid] at hlive
      rw [hlive]
      exact ⟨fun _ => ⟨hspared, hopened.fits⟩, fun _ => Option.some_ne_none _⟩
    · refine ⟨fun hlive => absurd ?_ hlive, fun hall => absurd hall hnot⟩
      cases hfound : (s.run h inputs).live fd conn.id with
      | none => rfl
      | some found =>
          rcases connections_of_live hfound with ⟨hstored, hid⟩
          exact absurd hid (hended.gone fd found hstored)
  · rcases hrun with ⟨-, htimely, hopened⟩ | ⟨-, missing, hended, hiff⟩
    · rw [hopened.processed, ← List.append_assoc, List.self_eq_append_right]
      exact ⟨fun hnone => ⟨htimely, hnone⟩, And.right⟩
    · rw [← List.append_assoc, ← hended.processed, List.append_assoc, List.self_eq_append_right,
        List.append_eq_nil_iff, hiff]

namespace OneClient

def request : Bytes := [7]

def requestRead : List ReadAnswer :=
  [.data (frameMessage request)]

theorem frames_request : frames (frameMessage request) = [request] := by
  have hall := frames_payloads (fun payload hpayload => by
    rw [List.mem_singleton.mp hpayload]
    decide : forall payload, payload ∈ [request] -> payload.length <= Server.maxFrameSize)
  simpa using hall

def accepted : TcpServer Unit :=
  (TcpServer.new 3 4 0 (fun _ => false) () []).run silent [listenerEvent 5 true]

def requestInputs : List (Input Unit) :=
  [.event { fd := 5, readable := true, reads := requestRead }, listenerEvent 6 true,
    .event drainEvent]

theorem repliesTo_silent (client : ClientId) (payloads : List Bytes) :
    repliesTo silent client () payloads = [] := by
  induction payloads with
  | nil => rfl
  | cons payload payloads ih => exact ih

theorem unclosed_requestInputs : UnclosedOver silent accepted 5 ⟨1⟩ requestInputs := by
  have hplain : PlainReads requestRead :=
    fun answer hanswer => Or.inl ⟨_, List.mem_singleton.mp hanswer⟩
  refine List.forall_mem_cons.mpr ⟨fun _ _ => ⟨rfl, hplain⟩, ?_⟩
  refine List.forall_mem_cons.mpr ⟨fun hfd => absurd hfd (by decide), ?_⟩
  exact List.forall_mem_cons.mpr ⟨fun hfd => absurd hfd (by decide), List.forall_mem_nil _⟩

theorem timely_requestInputs : TimelyOver silent accepted 5 ⟨1⟩ requestInputs := by
  intro v _
  rcases v with ⟨s, input⟩
  cases input with
  | event event =>
      intro _ _ conn _
      rw [repliesTo_silent]
      exact outlives_nil s 5 conn
  | send client data => trivial
  | shared app => trivial
  | shutdown => trivial

/-- The request is delivered when the close comes in an event of its own. -/
theorem delivered_before_close :
    payloadsOf ⟨1⟩ ((accepted.run silent requestInputs).run silent
        ((Closing.eof []).inputs 5)).processed = [request] ∧
      ((accepted.run silent requestInputs).run silent
        ((Closing.eof []).inputs 5)).connections 5 = none := by
  rcases complete_frames_delivered_iff silent (fun _ _ _ _ hsend => by cases hsend) 3 4 0
    (fun _ => false) () [] [listenerEvent 5 true] accepted rfl 5 client rfl rfl (by decide)
    (by decide) requestInputs (by decide) unclosed_requestInputs (.eof []) with
    ⟨-, hiff, hclosed⟩
  have hread : readOver silent accepted requestInputs client.id = frameMessage request := rfl
  have hnothing : frames (unfinished (frameMessage request) ++ (Closing.eof []).bytes) = [] := by
    show frames (unfinished (frameMessage request) ++ []) = []
    rw [List.append_nil]
    exact Scanner.items_of_stuck (Scanner.stuck_rest _)
  rw [hread] at hiff
  refine ⟨(hiff.mpr ⟨timely_requestInputs, hnothing⟩).trans ?_, hclosed fun _ hne => by cases hne⟩
  show [] ++ frames (frameMessage request ++ []) = [request]
  rw [List.append_nil]
  exact frames_request

/-- The same stream loses its request when one event carries the bytes and the close. -/
theorem request_lost_at_close :
    (accepted.run silent ((Closing.eof requestRead).inputs 5)).processed = [] ∧
      (accepted.run silent ((Closing.eof requestRead).inputs 5)).connections 5 = none ∧
      frames (Closing.eof requestRead).bytes = [request] := by
  exact ⟨rfl, rfl, frames_request⟩

end OneClient
end Tcp
end MiniExchange
