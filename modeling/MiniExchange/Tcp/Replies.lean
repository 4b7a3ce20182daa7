import MiniExchange.Tcp.Connections
import MiniExchange.Tcp.FrameLoop

/-!
# Replies from inside the frame loop

A frame handler may answer its client through `send_to_client` while
`handle_read` still holds a reference to the connection.  The answer closes the
connection when the kernel refuses it or when it takes the write buffer above
its bound.  Whether a connection outlives its frame loop is decided by the
replies and by the answers of the kernel to them.
-/

namespace MiniExchange
namespace Tcp

open Foundation

namespace TcpServer

variable {κ : Type} {h : Handlers κ} {s t : TcpServer κ} {fd : Fd} {conn : Connection}

/-- Appended to a write buffer and flushed in turn, no reply closes the connection. -/
def Survives (bound : Nat) : Bytes -> List SendAnswer -> List Bytes -> Prop
  | _, _, [] => True
  | buffer, answers, reply :: replies =>
      ¬ (bound ≠ 0 ∧ bound < (buffer ++ reply).length) ∧
        (flushLoop (buffer ++ reply) answers).outcome ≠ .broken ∧
        Survives bound (flushLoop (buffer ++ reply) answers).left
          (flushLoop (buffer ++ reply) answers).answers replies

def Outlives (s : TcpServer κ) (fd : Fd) (conn : Connection) (replies : List Bytes) : Prop :=
  s.clientToFd conn.id = some fd ->
    Survives s.maxWriteBufferBytes conn.writeBuffer s.sends replies

/-- A frame handler that answers nobody but the client of the frame. -/
def AnswersSender (h : Handlers κ) : Prop :=
  forall app client payload send, send ∈ (h.frame app client payload).2 -> send.1 = client

def repliesTo (h : Handlers κ) (client : ClientId) : κ -> List Bytes -> List Bytes
  | _, [] => []
  | app, payload :: payloads =>
      (h.frame app client payload).2.map Prod.snd ++
        repliesTo h client (h.frame app client payload).1 payloads

/-!
## One reply
-/

theorem Outbounds.clientToFd {client : ClientId} (hsteps : Outbounds s t)
    (hroute : t.clientToFd client = some fd) : s.clientToFd client = some fd := by
  induction hsteps with
  | refl => exact hroute
  | @tail middle _ _ hstep ih =>
      refine ih ?_
      cases hstep with
      | write => exact hroute
      | close closed =>
          cases hconn : middle.connections closed with
          | none =>
              rw [closeConnection_of_none hconn] at hroute
              exact hroute
          | some gone =>
              rw [closeConnection_of_some hconn] at hroute
              by_cases hid : client = gone.id
              · rw [hid] at hroute
                simp only [Function.update_self] at hroute
                cases hroute
              · simp only [Function.update_of_ne hid] at hroute
                exact hroute
      | kernel => exact hroute

theorem sendToClient_of_ne {client : ClientId} (hroute : s.clientToFd client ≠ some fd)
    (data : Bytes) : (s.sendToClient client data).connections fd = s.connections fd := by
  cases hclient : s.clientToFd client with
  | none => rw [sendToClient_of_none hclient]
  | some other =>
      have hne : fd ≠ other := by
        rintro rfl
        exact hroute hclient
      cases hconn : s.connections other with
      | none =>
          unfold sendToClient
          rw [hclient]
          dsimp only
          rw [hconn]
      | some found =>
          rw [sendToClient_of_some hclient hconn]
          have hkept : (s.setConnection other { found with
              writeBuffer := found.writeBuffer ++ data }).connections fd = s.connections fd :=
            Function.update_of_ne hne _ _
          split
          · rw [connections_closeConnection, Function.update_of_ne hne]
            exact hkept
          · rw [flushWriteBuffer_of_ne hne]
            exact hkept

/--
What replies to the client of a stored connection have done to it: they left it
open and the coming replies decide, or they closed it.
-/
def Answered (s : TcpServer κ) (fd : Fd) (conn : Connection) (replies : List Bytes)
    (t : TcpServer κ) : Prop :=
  (exists buffer, t.connections fd = some { conn with writeBuffer := buffer } ∧
    forall more, Outlives t fd { conn with writeBuffer := buffer } more <->
      Outlives s fd conn (replies ++ more)) ∨
  t.connections fd = none ∧ forall more, ¬ Outlives s fd conn (replies ++ more)

theorem flushWriteBuffer_kept (hconn : s.connections fd = some conn)
    (hsent : (flushLoop conn.writeBuffer s.sends).outcome ≠ .broken) :
    (s.flushWriteBuffer fd).connections fd =
        some { conn with writeBuffer := (flushLoop conn.writeBuffer s.sends).left } ∧
      (s.flushWriteBuffer fd).clientToFd = s.clientToFd ∧
      (s.flushWriteBuffer fd).sends = (flushLoop conn.writeBuffer s.sends).answers ∧
      (s.flushWriteBuffer fd).maxWriteBufferBytes = s.maxWriteBufferBytes := by
  unfold flushWriteBuffer
  rw [hconn]
  dsimp only
  cases hout : (flushLoop conn.writeBuffer s.sends).outcome with
  | drained => exact ⟨connections_setConnection_self s fd _, rfl, rfl, rfl⟩
  | blocked => exact ⟨connections_setConnection_self s fd _, rfl, rfl, rfl⟩
  | broken => exact absurd hout hsent

theorem flushWriteBuffer_broken (hconn : s.connections fd = some conn)
    (hbroken : (flushLoop conn.writeBuffer s.sends).outcome = .broken) :
    (s.flushWriteBuffer fd).connections fd = none := by
  unfold flushWriteBuffer
  rw [hconn]
  dsimp only
  rw [hbroken]
  dsimp only
  rw [connections_closeConnection, Function.update_self]

theorem answered_sendToClient (hconn : s.connections fd = some conn) (data : Bytes) :
    Answered s fd conn [data] (s.sendToClient conn.id data) := by
  by_cases hroute : s.clientToFd conn.id = some fd
  · have hstored := connections_setConnection_self s fd
      { conn with writeBuffer := conn.writeBuffer ++ data }
    rw [sendToClient_of_some hroute hconn]
    split
    · next hfull =>
        refine Or.inr ⟨?_, ?_⟩
        · rw [connections_closeConnection, Function.update_self]
        · exact fun more houtlives => (houtlives hroute).left hfull
    · next hfits =>
        by_cases hbroken : (flushLoop (conn.writeBuffer ++ data) s.sends).outcome = .broken
        · exact Or.inr ⟨flushWriteBuffer_broken hstored hbroken,
            fun more houtlives => (houtlives hroute).right.left hbroken⟩
        · rcases flushWriteBuffer_kept hstored hbroken with ⟨hkept, hroutes, hanswers, hbound⟩
          refine Or.inl ⟨_, hkept, ?_⟩
          intro more
          unfold Outlives
          rw [hroutes, hanswers, hbound]
          constructor
          · exact fun hmore _ => ⟨hfits, hbroken, hmore hroute⟩
          · exact fun hall _ => (hall hroute).right.right
  · -- The reply is dropped or goes elsewhere.
    refine Or.inl ⟨conn.writeBuffer, ?_, ?_⟩
    · rw [sendToClient_of_ne hroute]
      exact hconn
    · intro more
      constructor
      · exact fun _ hsame => absurd hsame hroute
      · exact fun _ hsame =>
          absurd ((outbounds_sendToClient s conn.id data).clientToFd hsame) hroute

/-!
## The replies of a frame loop
-/

theorem SameReads.none (hsame : SameReads s t) (hgone : s.connections fd = none) :
    t.connections fd = none := by
  cases hconn : t.connections fd with
  | none => rfl
  | some found =>
      rcases hsame.connections fd found hconn with ⟨old, hold, -⟩
      cases hgone.symm.trans hold

theorem answered_sendAll {out : List Outgoing} (hconn : s.connections fd = some conn)
    (hout : forall send, send ∈ out -> send.1 = conn.id) :
    Answered s fd conn (out.map Prod.snd) (s.sendAll out) := by
  induction out generalizing s conn with
  | nil => exact Or.inl ⟨conn.writeBuffer, hconn, fun more => Iff.rfl⟩
  | cons send out ih =>
      have hclient := hout send List.mem_cons_self
      have hrest := fun other hother => hout other (List.mem_cons_of_mem _ hother)
      have hfirst := answered_sendToClient hconn send.2
      rw [← hclient] at hfirst
      rcases hfirst with ⟨buffer, hstored, hiff⟩ | ⟨hgone, hnever⟩
      · rcases ih hstored hrest with ⟨buffer', hstored', hiff'⟩ | ⟨hgone', hnever'⟩
        · exact Or.inl ⟨buffer', hstored', fun more => (hiff' more).trans (hiff _)⟩
        · exact Or.inr ⟨hgone', fun more hmore => hnever' more ((hiff _).mpr hmore)⟩
      · exact Or.inr ⟨(outbounds_sendAll _ out).sameReads.none hgone, fun more => hnever _⟩

theorem answered_processFrame (hanswers : AnswersSender h) (hconn : s.connections fd = some conn)
    (payload : Bytes) :
    Answered s fd conn ((h.frame s.app conn.id payload).2.map Prod.snd)
      (s.processFrame h conn.id payload) :=
  answered_sendAll (s := { s with
      app := (h.frame s.app conn.id payload).1
      processed := s.processed ++ [(conn.id, payload)] })
    hconn (hanswers s.app conn.id payload)

/-- The frame loop uses its connection safely exactly if its replies leave it open. -/
theorem dangling_frameLoop_iff (hanswers : AnswersSender h) {fuel : Nat}
    (hconn : s.connections fd = some conn) (hfuel : conn.readBuffer.length < fuel)
    (hs : s.dangling = false) :
    (s.frameLoop h fd conn.id fuel).dangling = false <->
      Outlives s fd conn (repliesTo h conn.id s.app (frames conn.readBuffer)) := by
  revert hs
  refine frameLoop_induction (P := fun s conn t => s.dangling = false -> (t.dangling = false <->
    Outlives s fd conn (repliesTo h conn.id s.app (frames conn.readBuffer)))) ?hincomplete
    ?hinvalid ?hlost ?hnext hconn rfl hfuel
  case hincomplete =>
    intro s conn _ hfront hs
    rw [(frames_of_incomplete hfront).left]
    exact ⟨fun _ _ => trivial, fun _ => hs⟩
  case hinvalid =>
    intro s conn hfront hs
    rw [(frames_of_invalid hfront).left, dangling_closeConnection]
    exact ⟨fun _ _ => trivial, fun _ => hs⟩
  case hlost =>
    intro s conn payload size hconn hfront hgone hs
    rw [frames_of_item hfront]
    rcases answered_processFrame hanswers hconn payload with ⟨buffer, hstored, -⟩ | ⟨-, hnever⟩
    · cases hgone.symm.trans hstored
    · constructor
      · intro hfalse
        cases hfalse
      · exact fun houtlives => absurd houtlives (hnever _)
  case hnext =>
    intro s conn payload size kept t hconn hfront hkept _ hrest hs
    have hsame := processFrame_sameReads h s conn.id payload
    rcases answered_processFrame hanswers hconn payload with ⟨buffer, hstored, hiff⟩ | ⟨hgone, -⟩
    · rw [← Option.some.inj (hstored.symm.trans hkept)] at hrest
      have happ : (s.processFrame h conn.id payload).app =
          (h.frame s.app conn.id payload).1 := hsame.app
      refine (hrest (hsame.dangling.trans hs)).trans ?_
      rw [frames_of_item hfront]
      refine Iff.trans ?_ (hiff _)
      rw [← happ]
      exact Iff.rfl
    · cases hgone.symm.trans hkept

/-- A call of `handle_read` keeps its connection, or leaves before the frame loop. -/
theorem dangling_handleRead_iff (hanswers : AnswersSender h) (hconn : s.connections fd = some conn)
    (hs : s.dangling = false) (reads : List ReadAnswer) :
    (s.handleRead h fd reads).dangling = false <->
      (readLoop reads).2 = true ∨
        Outlives s fd conn
          (repliesTo h conn.id s.app (frames (conn.readBuffer ++ received reads))) := by
  unfold handleRead
  rw [hconn]
  dsimp only
  split
  · next hended =>
      rw [dangling_closeConnection]
      exact ⟨fun _ => Or.inl hended, fun _ => hs⟩
  · next hended =>
      have hloop := dangling_frameLoop_iff hanswers
        (connections_setConnection_self s fd
          { conn with readBuffer := conn.readBuffer ++ (readLoop reads).1 })
        (Nat.lt_succ_self _) hs
      refine hloop.trans ?_
      exact ⟨Or.inr, fun hor => hor.resolve_left hended⟩

end TcpServer
end Tcp
end MiniExchange
