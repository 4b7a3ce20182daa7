import Mathlib.Logic.Function.Basic
import Mathlib.Logic.Relation
import MiniExchange.Core.Types
import MiniExchange.Foundation.Machine
import MiniExchange.Tcp.Framing

/-!
# TCP server

The I/O thread of `adapters/tcp/tcp_server.cpp`: an epoll loop over a listener,
an eventfd and the client connections.  System calls appear as the answers the
kernel gives to them; a list of answers that has run out stands for EAGAIN.
A call that names an open descriptor is the kernel's to avoid: `accept4`
returns only descriptors that are not open.

The handlers are functions on a state of their own that list the calls of
`send_to_client` they make, in order.
-/

namespace MiniExchange
namespace Tcp

open Foundation

abbrev Fd := Int

structure Connection where
  fd : Fd
  id : ClientId
  readBuffer : Bytes := []
  writeBuffer : Bytes := []
deriving DecidableEq, Repr

/-- What `read` answers, other than EAGAIN. -/
inductive ReadAnswer where
  | data (bytes : Bytes)
  | eof
  | interrupted
  | failed
deriving DecidableEq, Repr

/-- What `send` answers; a return value of zero takes nothing. -/
inductive SendAnswer where
  | sent (n : Nat)
  | again
  | interrupted
  | failed
deriving DecidableEq, Repr

/--
What `accept4` answers, other than EAGAIN, and whether TCP_NODELAY can be set
and the descriptor registered with epoll.
-/
inductive AcceptAnswer where
  | accepted (fd : Fd) (nodelay registered : Bool)
  | interrupted
  | failed
deriving DecidableEq, Repr

/-- An event of `epoll_wait`, with the answers to the calls made while it is handled. -/
structure EpollEvent where
  fd : Fd
  /-- EPOLLHUP or EPOLLERR. -/
  hangup : Bool := false
  readable : Bool := false
  writable : Bool := false
  reads : List ReadAnswer := []
  accepts : List AcceptAnswer := []
deriving DecidableEq, Repr

abbrev Outgoing := ClientId × Bytes

structure Handlers (κ : Type) where
  frame : κ -> ClientId -> Bytes -> κ × List Outgoing
  drain : κ -> κ × List Outgoing

structure TcpServer (κ : Type) where
  listenerFd : Fd
  eventfd : Fd
  /-- Zero stands for no bound. -/
  maxWriteBufferBytes : Nat
  nextClientId : UInt64 := 1
  connections : Fd -> Option Connection := fun _ => none
  clientToFd : ClientId -> Option Fd := fun _ => none
  /-- What the handlers act on. -/
  app : κ
  /-- The open descriptors of the process. -/
  opened : Fd -> Bool
  /-- The descriptors registered with epoll, and whether EPOLLOUT is armed. -/
  interest : Fd -> Option Bool
  /-- The answers to the coming calls of `send`. -/
  sends : List SendAnswer := []
  /-- The bytes the kernel has taken for each client. -/
  taken : ClientId -> Bytes := fun _ => []
  /-- The calls of `process_frame` so far. -/
  processed : List (ClientId × Bytes) := []
  /-- The ids given to accepted connections so far. -/
  assigned : List (ClientId × Fd) := []
  /-- The frame loop has used a connection that was destroyed under it. -/
  dangling : Bool := false

namespace TcpServer

variable {κ : Type}

def new (listenerFd eventfd : Fd) (maxWriteBufferBytes : Nat) (others : Fd -> Bool) (app : κ)
    (sends : List SendAnswer) : TcpServer κ where
  listenerFd := listenerFd
  eventfd := eventfd
  maxWriteBufferBytes := maxWriteBufferBytes
  app := app
  opened := fun fd => decide (fd = listenerFd) || decide (fd = eventfd) || others fd
  interest := fun fd => if fd = listenerFd ∨ fd = eventfd then some false else none
  sends := sends

/-!
## Closing and writing
-/

def setConnection (s : TcpServer κ) (fd : Fd) (conn : Connection) : TcpServer κ :=
  { s with connections := Function.update s.connections fd (some conn) }

def closeConnection (s : TcpServer κ) (fd : Fd) : TcpServer κ :=
  let s := { s with
    interest := Function.update s.interest fd none
    opened := Function.update s.opened fd false }
  match s.connections fd with
  | none => s
  | some conn =>
      { s with
        clientToFd := Function.update s.clientToFd conn.id none
        connections := Function.update s.connections fd none }

inductive FlushOutcome where
  | drained
  | blocked
  | broken
deriving DecidableEq, Repr

structure Flush where
  taken : Bytes
  left : Bytes
  answers : List SendAnswer
  outcome : FlushOutcome
deriving DecidableEq, Repr

/-- The loop of `flush_write_buffer`. -/
def flushLoop : Bytes -> List SendAnswer -> Flush
  | [], answers => ⟨[], [], answers, .drained⟩
  | buffer, [] => ⟨[], buffer, [], .blocked⟩
  | buffer, .sent n :: answers =>
      let rest := flushLoop (buffer.drop n) answers
      { rest with taken := buffer.take n ++ rest.taken }
  | buffer, .again :: answers => ⟨[], buffer, answers, .blocked⟩
  | buffer, .interrupted :: answers => flushLoop buffer answers
  | buffer, .failed :: answers => ⟨[], buffer, answers, .broken⟩

def setEpollout (s : TcpServer κ) (fd : Fd) (armed : Bool) : TcpServer κ :=
  { s with interest := Function.update s.interest fd ((s.interest fd).map fun _ => armed) }

def flushWriteBuffer (s : TcpServer κ) (fd : Fd) : TcpServer κ :=
  match s.connections fd with
  | none => s
  | some conn =>
      let flush := flushLoop conn.writeBuffer s.sends
      let s := { s.setConnection fd { conn with writeBuffer := flush.left } with
        sends := flush.answers
        taken := Function.update s.taken conn.id (s.taken conn.id ++ flush.taken) }
      match flush.outcome with
      | .drained => s.setEpollout fd false
      | .blocked => s.setEpollout fd true
      | .broken => s.closeConnection fd

def sendToClient (s : TcpServer κ) (client : ClientId) (data : Bytes) : TcpServer κ :=
  match s.clientToFd client with
  | none => s
  | some fd =>
      match s.connections fd with
      | none => s
      | some conn =>
          let buffer := conn.writeBuffer ++ data
          let s := s.setConnection fd { conn with writeBuffer := buffer }
          if s.maxWriteBufferBytes ≠ 0 ∧ s.maxWriteBufferBytes < buffer.length then
            s.closeConnection fd
          else
            s.flushWriteBuffer fd

/-- The calls of `send_to_client` that a handler makes. -/
def sendAll (s : TcpServer κ) (out : List Outgoing) : TcpServer κ :=
  Machine.run (fun s send => s.sendToClient send.1 send.2) s out

/-!
## Event handlers
-/

def processFrame (h : Handlers κ) (s : TcpServer κ) (client : ClientId) (payload : Bytes) :
    TcpServer κ :=
  let result := h.frame s.app client payload
  { s with
    app := result.1
    processed := s.processed ++ [(client, payload)] }.sendAll result.2

/-- What the reference of the frame loop still refers to. -/
def live (s : TcpServer κ) (fd : Fd) (id : ClientId) : Option Connection :=
  (s.connections fd).filter fun conn => decide (conn.id = id)

/--
The frame loop of `handle_read`.  It holds a reference to the connection found
on entry; using it when that connection is gone is recorded and ends the loop.
-/
def frameLoop (h : Handlers κ) (fd : Fd) (id : ClientId) : Nat -> TcpServer κ -> TcpServer κ
  | 0, s => s
  | fuel + 1, s =>
      match s.live fd id with
      | none => { s with dangling := true }
      | some conn =>
          match frontFrame conn.readBuffer with
          | .incomplete => s
          | .invalid => s.closeConnection fd
          | .item payload size =>
              let s := s.processFrame h conn.id payload
              match s.live fd id with
              | none => { s with dangling := true }
              | some conn =>
                  frameLoop h fd id fuel
                    (s.setConnection fd { conn with readBuffer := conn.readBuffer.drop size })

/-- The read loop of `handle_read`: what it appends, and whether EOF or an error ends it. -/
def readLoop : List ReadAnswer -> Bytes × Bool
  | [] => ([], false)
  | .data bytes :: answers => (bytes ++ (readLoop answers).1, (readLoop answers).2)
  | .interrupted :: answers => readLoop answers
  | .eof :: _ => ([], true)
  | .failed :: _ => ([], true)

def handleRead (h : Handlers κ) (s : TcpServer κ) (fd : Fd) (reads : List ReadAnswer) :
    TcpServer κ :=
  match s.connections fd with
  | none => s
  | some conn =>
      let buffer := conn.readBuffer ++ (readLoop reads).1
      let s := s.setConnection fd { conn with readBuffer := buffer }
      if (readLoop reads).2 then s.closeConnection fd
      else s.frameLoop h fd conn.id (buffer.length + 1)

def handleWrite (s : TcpServer κ) (fd : Fd) : TcpServer κ :=
  s.flushWriteBuffer fd

/-- Insert unless the key is present. -/
def emplace {α β : Type} [DecidableEq α] (map : α -> Option β) (key : α) (value : β) :
    α -> Option β :=
  match map key with
  | none => Function.update map key (some value)
  | some _ => map

/-- One descriptor from `accept4`. -/
def acceptOne (s : TcpServer κ) (fd : Fd) (nodelay registered : Bool) : TcpServer κ :=
  -- The kernel never hands out an open descriptor.
  if s.opened fd then s
  else if nodelay = false then s
  else
    let id : ClientId := ⟨s.nextClientId⟩
    let s := { s with
      nextClientId := s.nextClientId + 1
      assigned := s.assigned ++ [(id, fd)]
      connections := emplace s.connections fd { fd := fd, id := id }
      clientToFd := emplace s.clientToFd id fd }
    if registered then
      { s with
        opened := Function.update s.opened fd true
        interest := Function.update s.interest fd (some false) }
    else
      { s with
        clientToFd := Function.update s.clientToFd id none
        connections := Function.update s.connections fd none }

def handleAccept (s : TcpServer κ) : List AcceptAnswer -> TcpServer κ
  | [] => s
  | .accepted fd nodelay registered :: answers =>
      handleAccept (s.acceptOne fd nodelay registered) answers
  | .interrupted :: answers => handleAccept s answers
  | .failed :: _ => s

def handleEventfd (h : Handlers κ) (s : TcpServer κ) : TcpServer κ :=
  { s with app := (h.drain s.app).1 }.sendAll (h.drain s.app).2

/-- The body of the dispatch loop of `run`. -/
def handleEvent (h : Handlers κ) (s : TcpServer κ) (event : EpollEvent) : TcpServer κ :=
  if event.fd = s.listenerFd then s.handleAccept event.accepts
  else if event.fd = s.eventfd then s.handleEventfd h
  else if event.hangup then s.closeConnection event.fd
  else
    let s := if event.readable then s.handleRead h event.fd event.reads else s
    if event.writable then s.handleWrite event.fd else s

/-- The events that one call of `epoll_wait` returned. -/
def handleBatch (h : Handlers κ) (s : TcpServer κ) (events : List EpollEvent) : TcpServer κ :=
  Machine.run (handleEvent h) s events

/-- The end of `run`: every connection is closed. -/
def shutdown (s : TcpServer κ) : TcpServer κ :=
  { s with
    opened := fun fd => s.opened fd && (s.connections fd).isNone
    interest := fun fd => if (s.connections fd).isSome then none else s.interest fd
    connections := fun _ => none
    clientToFd := fun _ => none }

/-!
## Stored connections
-/

variable {s : TcpServer κ} {fd : Fd} {conn : Connection}

@[simp] theorem connections_setConnection_self (s : TcpServer κ) (fd : Fd) (conn : Connection) :
    (s.setConnection fd conn).connections fd = some conn := by
  simp [setConnection]

theorem connections_setConnection {other : Fd} {found : Connection}
    (h : (s.setConnection fd conn).connections other = some found) :
    other = fd ∧ found = conn ∨ other ≠ fd ∧ s.connections other = some found := by
  unfold setConnection at h
  by_cases hfd : other = fd
  · rw [hfd] at h
    simp only [Function.update_self] at h
    exact Or.inl ⟨hfd, (Option.some.inj h).symm⟩
  · simp only [Function.update_of_ne hfd] at h
    exact Or.inr ⟨hfd, h⟩

theorem closeConnection_of_none (hconn : s.connections fd = none) :
    s.closeConnection fd = { s with
      interest := Function.update s.interest fd none
      opened := Function.update s.opened fd false } := by
  unfold closeConnection
  dsimp only
  rw [hconn]

theorem closeConnection_of_some (hconn : s.connections fd = some conn) :
    s.closeConnection fd = { s with
      interest := Function.update s.interest fd none
      opened := Function.update s.opened fd false
      clientToFd := Function.update s.clientToFd conn.id none
      connections := Function.update s.connections fd none } := by
  unfold closeConnection
  dsimp only
  rw [hconn]

theorem closeConnection_eq (s : TcpServer κ) (fd : Fd) :
    exists clientToFd, s.closeConnection fd = { s with
      interest := Function.update s.interest fd none
      opened := Function.update s.opened fd false
      clientToFd := clientToFd
      connections := Function.update s.connections fd none } := by
  cases hconn : s.connections fd with
  | none =>
      refine ⟨s.clientToFd, ?_⟩
      rw [closeConnection_of_none hconn, ← hconn, Function.update_eq_self]
  | some conn => exact ⟨_, closeConnection_of_some hconn⟩

theorem connections_closeConnection (s : TcpServer κ) (fd : Fd) :
    (s.closeConnection fd).connections = Function.update s.connections fd none := by
  rcases closeConnection_eq s fd with ⟨clientToFd, hclose⟩
  rw [hclose]

theorem connections_of_closeConnection {other : Fd} {found : Connection}
    (h : (s.closeConnection fd).connections other = some found) :
    other ≠ fd ∧ s.connections other = some found := by
  rw [connections_closeConnection] at h
  by_cases hfd : other = fd
  · rw [hfd, Function.update_self] at h
    cases h
  · rw [Function.update_of_ne hfd] at h
    exact ⟨hfd, h⟩

theorem app_closeConnection (s : TcpServer κ) (fd : Fd) :
    (s.closeConnection fd).app = s.app := by
  rcases closeConnection_eq s fd with ⟨clientToFd, hclose⟩
  rw [hclose]

theorem processed_closeConnection (s : TcpServer κ) (fd : Fd) :
    (s.closeConnection fd).processed = s.processed := by
  rcases closeConnection_eq s fd with ⟨clientToFd, hclose⟩
  rw [hclose]

theorem dangling_closeConnection (s : TcpServer κ) (fd : Fd) :
    (s.closeConnection fd).dangling = s.dangling := by
  rcases closeConnection_eq s fd with ⟨clientToFd, hclose⟩
  rw [hclose]

theorem sendToClient_of_none {client : ClientId} (h : s.clientToFd client = none)
    (data : Bytes) : s.sendToClient client data = s := by
  unfold sendToClient
  rw [h]

theorem sendToClient_of_some {client : ClientId} (hclient : s.clientToFd client = some fd)
    (hconn : s.connections fd = some conn) (data : Bytes) :
    s.sendToClient client data =
      if s.maxWriteBufferBytes ≠ 0 ∧
          s.maxWriteBufferBytes < (conn.writeBuffer ++ data).length then
        (s.setConnection fd
          { conn with writeBuffer := conn.writeBuffer ++ data }).closeConnection fd
      else
        (s.setConnection fd
          { conn with writeBuffer := conn.writeBuffer ++ data }).flushWriteBuffer fd := by
  unfold sendToClient
  rw [hclient]
  dsimp only
  rw [hconn]
  rfl

theorem opened_closeConnection (s : TcpServer κ) (fd : Fd) :
    (s.closeConnection fd).opened fd = false := by
  rcases closeConnection_eq s fd with ⟨clientToFd, hclose⟩
  rw [hclose]
  exact Function.update_self fd false s.opened

end TcpServer

/-!
## A server with one client
-/

namespace OneClient

def silent : Handlers Unit where
  frame := fun app _ _ => (app, [])
  drain := fun app => (app, [])

def server : TcpServer Unit :=
  (TcpServer.new 3 4 0 (fun _ => false) () []).handleAccept [.accepted 5 true true]

def client : Connection where
  fd := 5
  id := ⟨1⟩

end OneClient
end Tcp
end MiniExchange
