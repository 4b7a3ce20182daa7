import MiniExchange.Engine.MatchingEngine
import MiniExchange.Protocol.GatewayCodec
import MiniExchange.Server.Handlers
import MiniExchange.Server.Routing
import MiniExchange.Tcp.Streams

/-!
# The exchange server

All of `apps/exchange_server/main.cpp` while it runs: the epoll loop of the I/O
thread with the two handlers of `main`, the two queues, and the engine thread.
The threads share the queues and the eventfd only, so it is enough to say which
moves the engine thread makes before each access of the I/O thread to them.
-/

namespace MiniExchange
namespace Server

open Foundation
open Tcp

structure Access where
  /-- The moves of the engine thread since the access before, with what they observe. -/
  engine : List Nat := []
  /-- What the queue access of the I/O thread observes. -/
  observed : Nat := 0

/-- What the handlers act on, and the accesses to come; without one the engine thread rests. -/
structure Shared (σ : Type) where
  server : RelaxedServer σ
  schedule : List Access := []

def Protocol.framed (protocol : Protocol) : Reply -> Bytes
  | .response response => frameMessage (protocol.render response)
  | .error message => frameMessage (protocol.renderError message)

def Protocol.outgoing (protocol : Protocol) (call : ClientId × Reply) : Outgoing :=
  (call.1, protocol.framed call.2)

namespace Shared

variable {σ : Type} (protocol : Protocol) (capacity : Capacities) (api : EngineApi σ)

def engineMoves (s : RelaxedServer σ) (observations : List Nat) : RelaxedServer σ :=
  Machine.run (fun s observed => s.engineStep capacity api observed) s observations

/-- The I/O thread accesses the shared state, after the engine thread has moved. -/
def access (app : Shared σ) (act : Nat -> RelaxedServer σ -> RelaxedServer σ) : Shared σ :=
  match app.schedule with
  | [] => { server := act 0 app.server }
  | next :: later =>
      { server := act next.observed (engineMoves capacity api app.server next.engine)
        schedule := later }

/-- The calls of `send_to_client` between two states. -/
def repliesSince (app after : Shared σ) : List Outgoing :=
  (after.server.sent.drop app.server.sent.length).map protocol.outgoing

def frame (app : Shared σ) (client : ClientId) (payload : Bytes) : Shared σ × List Outgoing :=
  let after := app.access capacity api fun observed s =>
    s.frameHandler capacity client (protocol.parse payload) observed
  (after, repliesSince protocol app after)

def drainLoop : Nat -> Shared σ -> Shared σ
  | 0, app => app
  | fuel + 1, app =>
      let after := app.access capacity api fun observed s => s.ioStep observed
      match after.server.ioPhase with
      | .polling => after
      | .draining => drainLoop fuel after

/-- More pops than the queue can ever answer: one for each response it may still get. -/
def pops (app : Shared σ) : Nat :=
  app.schedule.length + (app.schedule.map fun access => access.engine.length).sum +
    app.server.outbound.pending.length + 1

/-- `handle_eventfd` clears the counter, whatever it is, and drains the outbound queue. -/
def drain (app : Shared σ) : Shared σ × List Outgoing :=
  let woken := app.access capacity api fun _ s =>
    { s with eventfd := 0, ioPhase := .draining }
  let after := drainLoop capacity api woken.pops woken
  (after, repliesSince protocol app after)

end Shared

def exchange {σ : Type} (listenerFd eventfd : Fd) (maxWriteBufferBytes : Nat)
    (others : Fd -> Bool) (sends : List SendAnswer) (engine : σ) (schedule : List Access) :
    TcpServer (Shared σ) :=
  TcpServer.new listenerFd eventfd maxWriteBufferBytes others
    { server := RelaxedServer.new engine, schedule := schedule } sends

/-!
## The log of replies
-/

namespace Shared

variable {σ : Type} {protocol : Protocol} {capacity : Capacities} {api : EngineApi σ}

/-- Every call of `send_to_client` so far. -/
def log (protocol : Protocol) (app : Shared σ) : List Outgoing :=
  app.server.sent.map protocol.outgoing

/--
The shared state after some frames: they were refused or enqueued one by one,
the commands dispatched so far are the first of the enqueued ones, and the I/O
thread is in neither handler.
-/
structure Served (protocol : Protocol) (capacity : Capacities) (api : EngineApi σ) (engine : σ)
    (processed : List (ClientId × Bytes)) (app : Shared σ) : Prop where
  routed : exists dispatched,
    RelaxedServer.Routed capacity api engine dispatched app.server
  outcomes : exists outcomes : List FrameOutcome,
    outcomes.map FrameOutcome.frame =
        processed.map (fun x => (x.1, protocol.parse x.2)) ∧
      app.server.inbound.items = outcomes.filterMap FrameOutcome.command? ∧
      app.server.errors = outcomes.filterMap FrameOutcome.error?
  polling : app.server.ioPhase = .polling

variable {engine : σ} {processed : List (ClientId × Bytes)}

structure Undisturbed (capacity : Capacities) (api : EngineApi σ) (engine : σ)
    (s t : RelaxedServer σ) : Prop where
  routed : exists dispatched, RelaxedServer.Routed capacity api engine dispatched t
  items : t.inbound.items = s.inbound.items
  errors : t.errors = s.errors

theorem Undisturbed.trans {s t u : RelaxedServer σ} (hst : Undisturbed capacity api engine s t)
    (htu : Undisturbed capacity api engine t u) : Undisturbed capacity api engine s u where
  routed := htu.routed
  items := htu.items.trans hst.items
  errors := htu.errors.trans hst.errors

theorem mem_answers {cmds : List TaggedCommand} {tagged : TaggedResponse}
    (h : tagged ∈ answers api engine cmds) :
    exists cmd, cmd ∈ cmds ∧ cmd.client = tagged.client := by
  rcases List.mem_map.mp h with ⟨v, hv, rfl⟩
  exact ⟨v.2, Machine.mem_of_mem_visits _ hv, rfl⟩

theorem Served.asked {app : Shared σ} (h : Served protocol capacity api engine processed app)
    {call : Outgoing} (hcall : call ∈ log protocol app) :
    call.1 ∈ processed.map Prod.fst := by
  rcases h.outcomes with ⟨outcomes, hframes, hitems, herrors⟩
  have hsender : forall outcome, outcome ∈ outcomes ->
      outcome.frame.1 ∈ processed.map Prod.fst := by
    intro outcome houtcome
    have hmem := List.mem_map_of_mem (f := FrameOutcome.frame) houtcome
    rw [hframes] at hmem
    rcases List.mem_map.mp hmem with ⟨x, hx, hsame⟩
    rw [← hsame]
    exact List.mem_map_of_mem hx
  rcases List.mem_map.mp hcall with ⟨⟨client, reply⟩, hsent, rfl⟩
  cases reply with
  | response response =>
      show client ∈ processed.map Prod.fst
      rcases h.routed with ⟨dispatched, hrouted⟩
      have hdelivered : { client := client, response := response } ∈ app.server.delivered :=
        List.mem_filterMap.mpr ⟨_, hsent, rfl⟩
      have hanswer : { client := client, response := response } ∈
          answers api engine dispatched := by
        rw [hrouted.answers_eq, List.append_assoc]
        exact List.mem_append_left _ hdelivered
      rcases mem_answers hanswer with ⟨cmd, hcmd, hclient⟩
      have hitem : cmd ∈ outcomes.filterMap FrameOutcome.command? := by
        rw [← hitems, hrouted.enqueued_eq, List.append_assoc]
        exact List.mem_append_left _ hcmd
      rcases List.mem_filterMap.mp hitem with ⟨outcome, houtcome, hcommand⟩
      cases outcome with
      | enqueued found =>
          cases hcommand
          have hsame : cmd.client = client := hclient
          rw [← hsame]
          exact hsender _ houtcome
      | refused other parsed message => cases hcommand
  | error message =>
      show client ∈ processed.map Prod.fst
      have herror : (client, message) ∈ outcomes.filterMap FrameOutcome.error? := by
        rw [← herrors]
        exact List.mem_filterMap.mpr ⟨_, hsent, rfl⟩
      rcases List.mem_filterMap.mp herror with ⟨outcome, houtcome, hrefused⟩
      cases outcome with
      | enqueued found => cases hrefused
      | refused other parsed text =>
          cases hrefused
          exact hsender _ houtcome

end Shared

/-!
## From the bytes of a client to the bytes for it
-/

def Reply.error? : Reply -> Option String
  | .response _ => none
  | .error message => some message

/-- The replies to one client among the calls of `send_to_client`. -/
def repliesTo (client : ClientId) (sent : List (ClientId × Reply)) : List Reply :=
  (sent.filter fun call => decide (call.1 = client)).map Prod.snd

namespace RelaxedServer

variable {σ : Type}

def Quiescent (s : RelaxedServer σ) : Prop :=
  s.inbound.pending = [] ∧ s.enginePhase.inHand = [] ∧ s.enginePhase.unpushed = [] ∧
    s.outbound.pending = []

end RelaxedServer

/-- The function slots of `main` for the binary protocol. -/
def binary : Protocol where
  parse := BinaryProtocol.parseBinary
  render := BinaryProtocol.renderBinary
  renderError := BinaryProtocol.renderBinaryError

namespace Conversation

def stream : Bytes :=
  frameMessage (BinaryProtocol.commandMessage ⟨0⟩ (.limit
    { id := ⟨7⟩, side := .buy, price := ⟨100⟩, quantity := ⟨3⟩ })).encode ++
  frameMessage [9]

def events : List EpollEvent :=
  [{ fd := 3, accepts := [.accepted 5 true true] },
    { fd := 5, readable := true, reads := [.data (stream.take 11)] },
    { fd := 5, readable := true, reads := [.data (stream.drop 11)] },
    { fd := 4 }]

def schedule : List Access :=
  [{}, {}, { engine := [1, 0, 0, 0, 0, 0, 0] }, { observed := 1 }, { observed := 1 }]

def engine : MatchingEngine :=
  MatchingEngine.new Memory.zeroed 4 { enabled := false, policy := .rejectIncoming }

def start : TcpServer (Shared MatchingEngine) :=
  exchange 3 4 0 (fun _ => false) [.sent 6, .again] engine schedule

end Conversation

end Server
end MiniExchange
