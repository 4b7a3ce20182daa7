import MiniExchange.Protocol.TextParser
import MiniExchange.Server.EngineLoop
import MiniExchange.Tcp.Replies

/-!
# Server handlers

The two handlers that `apps/exchange_server/main.cpp` gives to the TCP server.
The frame handler parses a frame and queues the command; a parse error or a
full queue is answered at once, from inside the frame loop of `handle_read`.
-/

namespace MiniExchange
namespace Server

open Tcp
open Tcp.TcpServer

/-- The function slots that `main` binds at startup. -/
structure Protocol where
  parse : Bytes -> Except String EngineCommand
  render : EngineResponse -> Bytes
  renderError : String -> Bytes

structure Queues where
  inbound : List TaggedCommand := []
  outbound : List TaggedResponse := []

def frameHandler (protocol : Protocol) (capacity : Capacities) (queues : Queues)
    (client : ClientId) (payload : Bytes) : Queues × List Outgoing :=
  match protocol.parse payload with
  | .error message =>
      (queues, [(client, frameMessage (protocol.renderError message))])
  | .ok command =>
      let cmd : TaggedCommand := { client := client, command := command }
      if (tryPush capacity.inbound queues.inbound cmd).1 then
        ({ queues with inbound := (tryPush capacity.inbound queues.inbound cmd).2 }, [])
      else
        (queues,
          [(client, frameMessage (protocol.renderError "system busy — order not accepted"))])

def responseDrainHandler (protocol : Protocol) (queues : Queues) : Queues × List Outgoing :=
  ({ queues with outbound := [] },
    queues.outbound.map fun resp => (resp.client, frameMessage (protocol.render resp.response)))

def serverHandlers (protocol : Protocol) (capacity : Capacities) : Handlers Queues where
  frame := frameHandler protocol capacity
  drain := responseDrainHandler protocol

theorem frameHandler_answersSender (protocol : Protocol) (capacity : Capacities) :
    AnswersSender (serverHandlers protocol capacity) := by
  intro queues client payload send hsend
  replace hsend : send ∈ (frameHandler protocol capacity queues client payload).2 := hsend
  unfold frameHandler at hsend
  split at hsend
  · rw [List.mem_singleton.mp hsend]
  · dsimp only at hsend
    split at hsend
    · cases hsend
    · rw [List.mem_singleton.mp hsend]

/--
The connection outlives the frame loop exactly if the call leaves before the
loop or none of the replies sent from inside it closes the connection: none is
refused by the kernel and none takes the write buffer above its bound.
-/
theorem connection_outlives_frameLoop_iff (protocol : Protocol) (capacity : Capacities)
    (s : TcpServer Queues) (fd : Fd) (conn : Connection) (hconn : s.connections fd = some conn)
    (hs : s.dangling = false) (reads : List ReadAnswer) :
    (s.handleRead (serverHandlers protocol capacity) fd reads).dangling = false <->
      (readLoop reads).2 = true ∨
        (s.clientToFd conn.id = some fd ->
          Survives s.maxWriteBufferBytes conn.writeBuffer s.sends
            (repliesTo (serverHandlers protocol capacity) conn.id s.app
              (frames (conn.readBuffer ++ received reads)))) :=
  dangling_handleRead_iff (frameHandler_answersSender protocol capacity) hconn hs reads

/-- The slots for the plaintext protocol; a message has one character for each byte. -/
def plaintext : Protocol where
  parse payload :=
    (TextProtocol.parse payload).mapError fun text => String.ofList (text.map Char.ofUInt8)
  render := TextProtocol.render
  renderError message := TextProtocol.renderError (TextProtocol.ascii message)

/-!
## An empty command

`text_protocol::parse` answers an empty payload with a parse error.
-/

namespace EmptyCommand

def server (sends : List SendAnswer) : TcpServer Queues :=
  (TcpServer.new 3 4 0 (fun _ => false) {} sends).handleAccept
    [.accepted 5 true true]

def reads : List ReadAnswer :=
  [.data (frameMessage [])]

theorem outlives_blocked_send :
    ((server []).handleRead (serverHandlers plaintext serverCapacities) 5 reads).dangling =
      false := by
  have hone : forall payload, payload ∈ [([] : Bytes)] -> payload.length <= maxFrameSize := by
    intro payload hpayload
    rw [List.mem_singleton.mp hpayload]
    decide
  have hframes : frames ([] ++ received reads) = [[]] := frames_payloads hone
  refine (connection_outlives_frameLoop_iff plaintext serverCapacities (server []) 5
    { fd := 5, id := ⟨1⟩ } rfl rfl reads).mpr (Or.inr fun _ => ?_)
  rw [hframes]
  refine ⟨fun hfull => hfull.left rfl, ?_, trivial⟩
  decide

/-- The peer has reset the connection; the reply fails and destroys it under the loop. -/
theorem reply_destroys_connection :
    (server [.failed]).connections 5 = some { fd := 5, id := ⟨1⟩ } ∧
      (server [.failed]).dangling = false ∧
      ((server [.failed]).handleRead (serverHandlers plaintext serverCapacities) 5
        reads).dangling = true :=
  ⟨rfl, rfl, rfl⟩

end EmptyCommand
end Server
end MiniExchange
