import MiniExchange.Core.Messages
import MiniExchange.Foundation.Machine

/-!
# Engine loop and I/O loop

The two threads of `apps/exchange_server/main.cpp`.  The I/O thread parses
frames into an inbound queue and, when the eventfd fires, drains the outbound
queue to the clients.  The engine thread pops commands, dispatches them, waits
for outbound space, pushes the responses, and writes the eventfd only when the
inbound queue reads empty.

A schedule lists which thread moves next; one move is one access to the state
the threads share.  Both queues appear as lists with a capacity.
-/

namespace MiniExchange
namespace Server

open Foundation

/-- The wakeup coalescer of `apps/exchange_server/engine_loop.hpp`. -/
structure WakeupCoalescer where
  pending : Bool := false
deriving DecidableEq, Repr

namespace WakeupCoalescer

def noteResponse (_ : WakeupCoalescer) : WakeupCoalescer where
  pending := true

/-- Whether to notify now, and the coalescer with its flag cleared if so. -/
def shouldNotifyOnIdle (w : WakeupCoalescer) : Bool × WakeupCoalescer :=
  if w.pending then (true, { pending := false }) else (false, w)

end WakeupCoalescer

def tryPush {α : Type} (capacity : Nat) (queue : List α) (item : α) : Bool × List α :=
  if capacity <= queue.length then (false, queue) else (true, queue ++ [item])

theorem tryPush_of_lt {α : Type} {capacity : Nat} {queue : List α} (item : α)
    (h : queue.length < capacity) : tryPush capacity queue item = (true, queue ++ [item]) :=
  if_neg (Nat.not_le.mpr h)

theorem length_tryPush_le {α : Type} (capacity : Nat) (queue : List α) (item : α) :
    (tryPush capacity queue item).2.length <= queue.length + 1 := by
  unfold tryPush
  split
  · exact Nat.le_succ _
  · simp

/-- Add one to an eventfd counter; refused at its largest value. -/
def eventfdWrite (counter : Nat) : Nat :=
  if counter + 1 <= 2 ^ 64 - 2 then counter + 1 else counter

theorem eventfdWrite_pos (counter : Nat) : 0 < eventfdWrite counter := by
  unfold eventfdWrite
  split <;> omega

/--
Dispatch one tagged command, with the client stamped as owner of an order.
Engine calls are total here, so the handler for exceptions has no counterpart.
-/
def dispatchCommand {σ : Type} (api : EngineApi σ) (engine : σ) (cmd : TaggedCommand) :
    EngineResponse × σ :=
  match cmd.command with
  | .limit order =>
      api.submit engine (.limit { order with owner := cmd.client })
  | .market order =>
      api.submit engine (.market { order with owner := cmd.client })
  | .cancel id => api.cancel engine id

inductive EnginePhase where
  /-- About to pop the inbound queue. -/
  | polling
  /-- Flag cleared, eventfd not written yet. -/
  | notifying
  | dispatching (cmd : TaggedCommand)
  /-- Spinning until the outbound queue has space. -/
  | waiting (tagged : TaggedResponse)
  | pushing (tagged : TaggedResponse)
  /-- Response pushed, flag not set yet. -/
  | noting
deriving DecidableEq, Repr

inductive IoPhase where
  | polling
  | draining
deriving DecidableEq, Repr

/-- What is framed and handed to `send_to_client`. -/
inductive Reply where
  | response (response : EngineResponse)
  | error (message : String)
deriving DecidableEq, Repr

structure Capacities where
  inbound : Nat
  outbound : Nat
deriving DecidableEq, Repr

/-- The capacities of `main`. -/
def serverCapacities : Capacities where
  inbound := 4096
  outbound := 65536

structure ServerState (σ : Type) where
  engine : σ
  inbound : List TaggedCommand := []
  outbound : List TaggedResponse := []
  eventfd : Nat := 0
  wakeup : WakeupCoalescer := {}
  enginePhase : EnginePhase := .polling
  ioPhase : IoPhase := .polling
  /-- The calls of `send_to_client` so far. -/
  sent : List (ClientId × Reply) := []

namespace ServerState

variable {σ : Type}

def new (engine : σ) : ServerState σ where
  engine := engine

/-!
## The engine thread
-/

def poll (s : ServerState σ) : ServerState σ :=
  match s.inbound with
  | [] =>
      { s with
        wakeup := s.wakeup.shouldNotifyOnIdle.2
        enginePhase :=
          if s.wakeup.shouldNotifyOnIdle.1 then .notifying
          else .polling }
  | cmd :: rest =>
      { s with
        inbound := rest
        enginePhase := .dispatching cmd }

def engineStep (capacity : Capacities) (api : EngineApi σ) (s : ServerState σ) :
    ServerState σ :=
  match s.enginePhase with
  | .polling => s.poll
  | .notifying =>
      { s with
        eventfd := eventfdWrite s.eventfd
        enginePhase := .polling }
  | .dispatching cmd =>
      { s with
        engine := (dispatchCommand api s.engine cmd).2
        enginePhase := .waiting
          { client := cmd.client
            response := (dispatchCommand api s.engine cmd).1 } }
  | .waiting tagged =>
      if capacity.outbound <= s.outbound.length then s
      else { s with enginePhase := .pushing tagged }
  | .pushing tagged =>
      { s with
        outbound := (tryPush capacity.outbound s.outbound tagged).2
        enginePhase := .noting }
  | .noting =>
      { s with
        wakeup := s.wakeup.noteResponse
        enginePhase := .polling }

/-!
## The I/O thread
-/

/--
One move of the I/O thread over the eventfd: a positive counter wakes it, and
`handle_eventfd` clears the counter and then drains the outbound queue.
-/
def ioStep (s : ServerState σ) : ServerState σ :=
  match s.ioPhase with
  | .polling =>
      if s.eventfd = 0 then s
      else { s with eventfd := 0, ioPhase := .draining }
  | .draining =>
      match s.outbound with
      | [] => { s with ioPhase := .polling }
      | resp :: rest =>
          { s with
            outbound := rest
            sent := s.sent ++ [(resp.client, .response resp.response)] }

def frameHandler (capacity : Capacities) (client : ClientId)
    (parsed : Except String EngineCommand) (s : ServerState σ) : ServerState σ :=
  match parsed with
  | .error message =>
      { s with sent := s.sent ++ [(client, .error message)] }
  | .ok command =>
      let cmd : TaggedCommand := { client := client, command := command }
      if (tryPush capacity.inbound s.inbound cmd).1 then
        { s with inbound := (tryPush capacity.inbound s.inbound cmd).2 }
      else
        { s with
          sent := s.sent ++ [(client, .error "system busy — order not accepted")] }

end ServerState

inductive Move where
  | engine
  | io
  | receive (client : ClientId) (parsed : Except String EngineCommand)

namespace ServerState

variable {σ : Type}

/-- One move of the schedule.  Frames are not read while the drain handler runs. -/
def step (capacity : Capacities) (api : EngineApi σ) (s : ServerState σ) :
    Move -> ServerState σ
  | .engine => s.engineStep capacity api
  | .io => s.ioStep
  | .receive client parsed =>
      match s.ioPhase with
      | .polling => s.frameHandler capacity client parsed
      | .draining => s

def run (capacity : Capacities) (api : EngineApi σ) (s : ServerState σ)
    (schedule : List Move) : ServerState σ :=
  Machine.run (step capacity api) s schedule

end ServerState
end Server
end MiniExchange
