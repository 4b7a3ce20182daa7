import MiniExchange.Server.NoStranding

/-!
# Shutdown

How the server goes down.  A signal makes the engine thread leave its loop; it
writes the eventfd once more if a response is not announced yet, stores the
shutdown flag of `TcpServer` and writes the eventfd again.  The I/O thread tests
that flag at the head of its loop and after each run of the drain handler, and
closes all connections when it finds the flag set.

The queues, the engine loop and the drain handler are those of the two loops;
what is added here is where the I/O thread stands in `TcpServer::run`.
-/

namespace MiniExchange
namespace Server

open Foundation

inductive EngineStage where
  /-- About to load `g_shutdown`. -/
  | testing
  | looping
  /-- Past the loop, the wakeup flag not checked yet. -/
  | leaving
  /-- The last conditional eventfd write. -/
  | notifying
  /-- `request_shutdown`, before the store of the flag. -/
  | requesting
  /-- `request_shutdown`, before its eventfd write. -/
  | waking
  | joining
deriving DecidableEq, Repr

/-- An event of `epoll_wait`, with the frames that handling it reads. -/
inductive IoEvent where
  | eventfd
  | client (frames : List (ClientId × Except String EngineCommand))
deriving DecidableEq

def IoEvent.isEventfd : IoEvent -> Bool
  | eventfd => true
  | client _ => false

/-- Where the I/O thread stands in `TcpServer::run`, with the rest of its batch. -/
inductive IoPosition where
  /-- About to load the shutdown flag at the head of the loop. -/
  | testing
  /-- In `epoll_wait`. -/
  | waiting
  | handling (events : List IoEvent)
  /-- In `handle_eventfd`, past the read of the counter. -/
  | draining (events : List IoEvent)
  /-- About to load the shutdown flag after `handle_eventfd`. -/
  | checking (events : List IoEvent)
  /-- Past the loop; the connections are closed. -/
  | left
deriving DecidableEq

/-- What `epoll_wait` answers. -/
inductive EpollAnswer where
  | interrupted
  | ready (events : List IoEvent)

def maxEvents : Nat := 64

/--
A batch that `epoll_wait` can report: the eventfd is in it if it is readable,
unless other events fill the batch.
-/
def Reports (counter : Nat) (events : List IoEvent) : Prop :=
  events ≠ [] ∧ events.length <= maxEvents ∧ events.countP IoEvent.isEventfd <= 1 ∧
    (events.any IoEvent.isEventfd = true -> counter ≠ 0) ∧
    (counter ≠ 0 -> events.length < maxEvents -> events.any IoEvent.isEventfd = true)

instance (counter : Nat) (events : List IoEvent) : Decidable (Reports counter events) :=
  inferInstanceAs (Decidable (_ ∧ _))

structure ClosingServer (σ : Type) where
  server : ServerState σ
  /-- `g_shutdown`, which the signal handler sets. -/
  interrupted : Bool := false
  /-- `shutdown_requested_`. -/
  shutdownRequested : Bool := false
  stage : EngineStage := .testing
  io : IoPosition := .testing
  /-- The responses pushed to the outbound queue so far. -/
  pushed : List TaggedResponse := []

inductive ClosingMove where
  | engine
  /-- The answer is used when the I/O thread is in `epoll_wait`. -/
  | io (answer : EpollAnswer)
  /-- The two accesses of the signal handler. -/
  | signal
  | signalWrite

namespace ServerState

variable {σ : Type}

def pushes? (capacity : Capacities) (s : ServerState σ) : Option TaggedResponse :=
  match s.enginePhase with
  | .pushing tagged =>
      if (tryPush capacity.outbound s.outbound tagged).1 then some tagged else none
  | _ => none

/-- The responses handed to `send_to_client`. -/
def delivered (s : ServerState σ) : List TaggedResponse :=
  s.sent.filterMap fun call =>
    match call.2 with
    | .response response => some { client := call.1, response := response }
    | .error _ => none

def writeEventfd (s : ServerState σ) : ServerState σ :=
  { s with eventfd := eventfdWrite s.eventfd }

end ServerState

namespace ClosingServer

variable {σ : Type}

def new (engine : σ) : ClosingServer σ where
  server := ServerState.new engine

def engineStep (capacity : Capacities) (api : EngineApi σ) (s : ClosingServer σ) :
    ClosingServer σ :=
  match s.stage with
  | .testing =>
      { s with stage := if s.interrupted then .leaving else .looping }
  | .looping =>
      let server := s.server.engineStep capacity api
      { s with
        server := server
        stage :=
          if server.enginePhase = .polling then .testing
          else .looping
        pushed := s.pushed ++ (s.server.pushes? capacity).toList }
  | .leaving =>
      { s with
        server := { s.server with wakeup := s.server.wakeup.shouldNotifyOnIdle.2 }
        stage :=
          if s.server.wakeup.shouldNotifyOnIdle.1 then .notifying
          else .requesting }
  | .notifying =>
      { s with server := s.server.writeEventfd, stage := .requesting }
  | .requesting => { s with shutdownRequested := true, stage := .waking }
  | .waking => { s with server := s.server.writeEventfd, stage := .joining }
  | .joining => s

def ioStep (capacity : Capacities) (s : ClosingServer σ) (answer : EpollAnswer) :
    ClosingServer σ :=
  match s.io with
  | .testing =>
      { s with io := if s.shutdownRequested then .left else .waiting }
  | .waiting =>
      match answer with
      | .interrupted => { s with io := .testing }
      | .ready events =>
          if Reports s.server.eventfd events then { s with io := .handling events }
          else s
  | .handling [] => { s with io := .testing }
  | .handling (.eventfd :: events) =>
      { s with
        server := { s.server with eventfd := 0, ioPhase := .draining }
        io := .draining events }
  | .handling (.client [] :: events) =>
      { s with io := .handling events }
  | .handling (.client ((client, parsed) :: frames) :: events) =>
      { s with
        server := s.server.frameHandler capacity client parsed
        io := .handling (.client frames :: events) }
  | .draining events =>
      { s with
        server := s.server.ioStep
        io :=
          if s.server.outbound = [] then .checking events
          else .draining events }
  | .checking events =>
      { s with
        io := if s.shutdownRequested then .left else .handling events }
  | .left => s

def step (capacity : Capacities) (api : EngineApi σ) (s : ClosingServer σ) :
    ClosingMove -> ClosingServer σ
  | .engine => s.engineStep capacity api
  | .io answer => s.ioStep capacity answer
  | .signal => { s with interrupted := true }
  | .signalWrite =>
      if s.interrupted then { s with server := s.server.writeEventfd } else s

def run (capacity : Capacities) (api : EngineApi σ) (s : ClosingServer σ)
    (moves : List ClosingMove) : ClosingServer σ :=
  Machine.run (step capacity api) s moves

def visits (capacity : Capacities) (api : EngineApi σ) (s : ClosingServer σ)
    (moves : List ClosingMove) : List (ClosingServer σ × ClosingMove) :=
  Machine.visits (step capacity api) s moves

end ClosingServer

/-!
## The account of the responses
-/

namespace ServerState

variable {σ : Type} {capacity : Capacities} {api : EngineApi σ}

theorem engineStep_outbound (capacity : Capacities) (api : EngineApi σ) (s : ServerState σ) :
    (s.engineStep capacity api).outbound = s.outbound ++ (s.pushes? capacity).toList ∧
      (s.engineStep capacity api).sent = s.sent ∧
      (s.engineStep capacity api).ioPhase = s.ioPhase := by
  have hnone : s.outbound = s.outbound ++ (none : Option TaggedResponse).toList :=
    (List.append_nil _).symm
  unfold engineStep pushes?
  cases s.enginePhase with
  | polling =>
      dsimp only
      unfold poll
      split <;> exact ⟨hnone, rfl, rfl⟩
  | notifying => exact ⟨hnone, rfl, rfl⟩
  | dispatching cmd => exact ⟨hnone, rfl, rfl⟩
  | waiting tagged =>
      dsimp only
      split <;> exact ⟨hnone, rfl, rfl⟩
  | pushing tagged =>
      refine ⟨?_, rfl, rfl⟩
      dsimp only
      unfold tryPush
      split
      · exact hnone
      · rfl
  | noting => exact ⟨hnone, rfl, rfl⟩

theorem delivered_frameHandler (client : ClientId) (parsed : Except String EngineCommand)
    (s : ServerState σ) : (s.frameHandler capacity client parsed).delivered = s.delivered := by
  unfold frameHandler delivered
  cases parsed with
  | error message => simp
  | ok command =>
      dsimp only
      split
      · rfl
      · simp

theorem ioStep_account {s : ServerState σ} (hdraining : s.ioPhase = .draining) :
    s.ioStep.delivered ++ s.ioStep.outbound = s.delivered ++ s.outbound := by
  unfold ioStep
  rw [hdraining]
  cases houtbound : s.outbound with
  | nil => rfl
  | cons resp rest => simp [delivered]

end ServerState

/-!
## An orderly shutdown
-/

/-- From here the I/O thread runs the drain handler before it tests the flag. -/
def IoPosition.DrainsFirst : IoPosition -> Prop
  | waiting => True
  | handling events => events.any IoEvent.isEventfd = true
  | draining _ => True
  | _ => False

def EngineStage.Settled : EngineStage -> Prop
  | notifying => True
  | requesting => True
  | waking => True
  | joining => True
  | _ => False

/-- `epoll_wait` was not interrupted, and left room for the eventfd. -/
def EpollAnswer.Undisturbed (counter : Nat) : EpollAnswer -> Prop
  | interrupted => False
  | ready events => Reports counter events ->
      events.length < maxEvents ∨ events.any IoEvent.isEventfd = true

namespace ClosingServer

variable {σ : Type} {capacity : Capacities} {api : EngineApi σ} {s : ClosingServer σ}

/--
The flag is stored with nothing queued, or while the I/O thread is going to
drain before it tests the flag; once it is stored, and while responses are
queued, `epoll_wait` is not disturbed.
-/
def Orderly (s : ClosingServer σ) : ClosingMove -> Prop
  | .engine =>
      s.stage = .requesting -> s.server.outbound = [] ∨ s.io.DrainsFirst
  | .io answer =>
      s.io = .waiting -> s.shutdownRequested = true -> s.server.outbound ≠ [] ->
        answer.Undisturbed s.server.eventfd
  | _ => True

structure EngineInv (s : ClosingServer σ) : Prop where
  announced : s.server.Announced ∨ s.stage = .notifying
  idle : s.stage ≠ .looping -> s.server.enginePhase = .polling
  settled : s.stage.Settled -> s.server.wakeup.pending = false
  requested : s.shutdownRequested = true ->
    s.stage = .waking ∨ s.stage = .joining

structure IoInv (s : ClosingServer σ) : Prop where
  synced : s.server.ioPhase = .draining <->
    exists events, s.io = .draining events
  account : s.server.delivered ++ s.server.outbound = s.pushed
  flushes : s.shutdownRequested = true -> s.server.outbound = [] ∨ s.io.DrainsFirst
  left : s.io = .left -> s.shutdownRequested = true

theorem announced_writeEventfd (server : ServerState σ) : server.writeEventfd.Announced := by
  intro _
  exact Or.inr (Or.inl (Nat.ne_of_gt (eventfdWrite_pos server.eventfd)))

theorem EngineInv.not_requested (h : s.EngineInv) (hwaking : s.stage ≠ .waking)
    (hjoining : s.stage ≠ .joining) : s.shutdownRequested = false := by
  cases hflag : s.shutdownRequested with
  | false => rfl
  | true =>
      rcases h.requested hflag with hstage | hstage
      · exact absurd hstage hwaking
      · exact absurd hstage hjoining

theorem EngineInv.engineStep (h : s.EngineInv) : (s.engineStep capacity api).EngineInv := by
  unfold ClosingServer.engineStep
  cases hstage : s.stage with
  | testing =>
      have hflag := h.not_requested (by simp [hstage]) (by simp [hstage])
      have hannounced := h.announced.resolve_right (by simp [hstage])
      have hidle := h.idle (by simp [hstage])
      dsimp only
      refine ⟨Or.inl hannounced, fun _ => hidle, ?_, fun htrue => by simp [hflag] at htrue⟩
      split <;> exact fun hsettled => absurd hsettled id
  | looping =>
      have hflag := h.not_requested (by simp [hstage]) (by simp [hstage])
      have hannounced := h.announced.resolve_right (by simp [hstage])
      dsimp only
      refine ⟨Or.inl (ServerState.announced_engineStep capacity api hannounced), ?_, ?_,
        fun htrue => by simp [hflag] at htrue⟩
      · dsimp only
        split
        · next hpolling => exact fun _ => hpolling
        · exact fun hne => absurd rfl hne
      · dsimp only
        split <;> exact fun hsettled => absurd hsettled id
  | leaving =>
      have hflag := h.not_requested (by simp [hstage]) (by simp [hstage])
      have hannounced := h.announced.resolve_right (by simp [hstage])
      have hidle := h.idle (by simp [hstage])
      unfold WakeupCoalescer.shouldNotifyOnIdle
      cases hpending : s.server.wakeup.pending with
      | true =>
          exact ⟨Or.inr rfl, fun _ => hidle, fun _ => rfl,
            fun htrue => by simp [hflag] at htrue⟩
      | false =>
          exact ⟨Or.inl hannounced, fun _ => hidle, fun _ => hpending,
            fun htrue => by simp [hflag] at htrue⟩
  | notifying =>
      have hflag := h.not_requested (by simp [hstage]) (by simp [hstage])
      have hidle := h.idle (by simp [hstage])
      have hpending := h.settled (by rw [hstage]; trivial)
      exact ⟨Or.inl (announced_writeEventfd _), fun _ => hidle, fun _ => hpending,
        fun htrue => by simp [hflag] at htrue⟩
  | requesting =>
      have hannounced := h.announced.resolve_right (by simp [hstage])
      have hidle := h.idle (by simp [hstage])
      have hpending := h.settled (by rw [hstage]; trivial)
      exact ⟨Or.inl hannounced, fun _ => hidle, fun _ => hpending, fun _ => Or.inl rfl⟩
  | waking =>
      have hidle := h.idle (by simp [hstage])
      have hpending := h.settled (by rw [hstage]; trivial)
      exact ⟨Or.inl (announced_writeEventfd _), fun _ => hidle, fun _ => hpending,
        fun _ => Or.inr rfl⟩
  | joining => exact h

/-- The engine thread pushes no response once it has left its loop. -/
theorem IoInv.engineStep (h : s.IoInv) (hengine : s.EngineInv)
    (horderly : s.Orderly .engine) : (s.engineStep capacity api).IoInv := by
  have horderly' : s.stage = .requesting ->
      s.server.outbound = [] ∨ s.io.DrainsFirst := horderly
  unfold ClosingServer.engineStep
  cases hstage : s.stage with
  | looping =>
      have hflag := hengine.not_requested (by simp [hstage]) (by simp [hstage])
      rcases s.server.engineStep_outbound capacity api with ⟨houtbound, hsent, hio⟩
      refine ⟨?_, ?_, fun htrue => by simp [hflag] at htrue, h.left⟩
      · dsimp only
        rw [hio]
        exact h.synced
      · dsimp only
        unfold ServerState.delivered
        rw [houtbound, hsent, ← List.append_assoc, ← h.account]
        rfl
  | requesting => exact { h with flushes := fun _ => horderly' hstage, left := fun _ => rfl }
  | _ => exact { h with }

theorem EngineInv.frame (h : s.EngineInv) (client : ClientId)
    (parsed : Except String EngineCommand) (io : IoPosition) :
    EngineInv { s with server := s.server.frameHandler capacity client parsed, io := io } := by
  have hframe := s.server.frameHandler_frame capacity client parsed
  refine ⟨?_, ?_, ?_, h.requested⟩
  · exact h.announced.imp_left (ServerState.announced_frameHandler capacity client parsed)
  · rw [hframe.left]
    exact h.idle
  · rw [ServerState.frameHandler_wakeup]
    exact h.settled

theorem EngineInv.ioStep (h : s.EngineInv) (answer : EpollAnswer) :
    (s.ioStep capacity answer).EngineInv := by
  unfold ClosingServer.ioStep
  split
  · exact { h with }
  · split
    · exact { h with }
    · split
      · exact { h with }
      · exact h
  · exact { h with }
  · exact { h with announced := Or.inl fun _ => Or.inr (Or.inr rfl) }
  · exact { h with }
  · exact h.frame _ _ _
  · have hframe : s.server.ioStep.enginePhase = s.server.enginePhase ∧
        s.server.ioStep.wakeup = s.server.wakeup := by
      unfold ServerState.ioStep
      split
      · split <;> exact ⟨rfl, rfl⟩
      · split <;> exact ⟨rfl, rfl⟩
    refine ⟨?_, ?_, ?_, h.requested⟩
    · exact h.announced.imp_left ServerState.announced_ioStep
    · rw [hframe.left]
      exact h.idle
    · rw [hframe.right]
      exact h.settled
  · exact { h with }
  · exact h

/-- Once the flag is stored, a queued response has made the eventfd readable. -/
theorem EngineInv.readable (h : s.EngineInv) (hflag : s.shutdownRequested = true)
    (hqueued : s.server.outbound ≠ []) (hio : s.server.ioPhase ≠ .draining) :
    s.server.eventfd ≠ 0 := by
  have hstage : s.stage.Settled ∧ s.stage ≠ .looping ∧
      s.stage ≠ .notifying := by
    rcases h.requested hflag with hstage | hstage <;> rw [hstage] <;>
      exact ⟨trivial, by simp, by simp⟩
  rcases hstage with ⟨hsettled, hlooping, hnotifying⟩
  rcases h.announced.resolve_right hnotifying hqueued with (hpending | hnoting | hphase) | hwoken
  · rw [h.settled hsettled] at hpending
    cases hpending
  · rw [h.idle hlooping] at hnoting
    cases hnoting
  · rw [h.idle hlooping] at hphase
    cases hphase
  · exact hwoken.resolve_right hio

theorem IoInv.not_draining (h : s.IoInv) (hio : forall events, s.io ≠ .draining events) :
    s.server.ioPhase ≠ .draining := by
  intro hphase
  rcases h.synced.mp hphase with ⟨events, hdraining⟩
  exact hio events hdraining

theorem IoInv.move (h : s.IoInv) {io : IoPosition}
    (hfrom : forall events, s.io ≠ .draining events)
    (hto : forall events, io ≠ .draining events)
    (hflushes : s.shutdownRequested = true -> s.server.outbound = [] ∨ io.DrainsFirst)
    (hleft : io = .left -> s.shutdownRequested = true) :
    IoInv { s with io := io } where
  synced := by
    constructor
    · intro hphase
      exact absurd hphase (h.not_draining hfrom)
    · rintro ⟨events, hdraining⟩
      exact absurd hdraining (hto events)
  account := h.account
  flushes := hflushes
  left := hleft

theorem IoInv.test (h : s.IoInv) {next : IoPosition}
    (hfrom : forall events, s.io ≠ .draining events) (hio : ¬ s.io.DrainsFirst)
    (hto : forall events, next ≠ .draining events) (hnext : next ≠ .left) :
    IoInv { s with io := if s.shutdownRequested then .left else next } := by
  refine h.move hfrom ?_ ?_ ?_
  · split
    · simp
    · exact hto
  · exact fun hflag => Or.inl ((h.flushes hflag).resolve_right hio)
  · split
    · next hflag => exact fun _ => hflag
    · exact fun hleft => absurd hleft hnext

/-- The I/O thread returns from `epoll_wait`. -/
theorem IoInv.wake (h : s.IoInv) {io : IoPosition} (hio : s.io = .waiting)
    (hto : forall events, io ≠ .draining events) (hleft : io ≠ .left)
    (hdrains : s.shutdownRequested = true -> s.server.outbound ≠ [] -> io.DrainsFirst) :
    IoInv { s with io := io } := by
  refine h.move (by simp [hio]) hto ?_ (fun heq => absurd heq hleft)
  intro hflag
  by_cases hqueued : s.server.outbound = []
  · exact Or.inl hqueued
  · exact Or.inr (hdrains hflag hqueued)

theorem IoInv.drain (h : s.IoInv) {events : List IoEvent}
    (hio : s.io = .draining events) :
    IoInv { s with
      server := s.server.ioStep
      io := if s.server.outbound = [] then .checking events
        else .draining events } := by
  have hdraining := h.synced.mpr ⟨events, hio⟩
  have haccount := ServerState.ioStep_account hdraining
  have hphase : s.server.outbound = [] ∧ s.server.ioStep.ioPhase = .polling ∨
      s.server.outbound ≠ [] ∧ s.server.ioStep.ioPhase = .draining := by
    unfold ServerState.ioStep
    rw [hdraining]
    cases s.server.outbound with
    | nil => exact Or.inl ⟨rfl, rfl⟩
    | cons resp rest => exact Or.inr ⟨List.cons_ne_nil _ _, rfl⟩
  rcases hphase with ⟨hempty, hpolling⟩ | ⟨hqueued, hmore⟩
  · rw [if_pos hempty]
    refine ⟨by simp [hpolling], haccount.trans h.account, fun _ => Or.inl ?_, by simp⟩
    show s.server.ioStep.outbound = []
    unfold ServerState.ioStep
    rw [hdraining, hempty]
  · rw [if_neg hqueued]
    exact ⟨by simp [hmore], haccount.trans h.account, fun _ => Or.inr trivial, by simp⟩

theorem IoInv.ioStep (h : s.IoInv) (hengine : s.EngineInv) {answer : EpollAnswer}
    (horderly : s.Orderly (.io answer)) : (s.ioStep capacity answer).IoInv := by
  have hundisturbed : s.io = .waiting -> s.shutdownRequested = true ->
      s.server.outbound ≠ [] -> answer.Undisturbed s.server.eventfd := horderly
  have hflushes := h.flushes
  unfold ClosingServer.ioStep
  split
  · next hio =>
      exact h.test (by simp [hio]) (by simp [hio, IoPosition.DrainsFirst]) (by simp) (by simp)
  · next hio =>
      split
      · apply h.wake hio (by simp) (by simp)
        exact fun hflag hqueued => absurd (hundisturbed hio hflag hqueued) id
      · next events =>
          split
          · next hreports =>
              apply h.wake hio (by simp) (by simp)
              intro hflag hqueued
              -- The eventfd is readable, so it is in the batch.
              have hphase := h.not_draining (by simp [hio])
              have hreadable := hengine.readable hflag hqueued hphase
              rcases hundisturbed hio hflag hqueued hreports with hroom | hin
              · exact hreports.right.right.right.right hreadable hroom
              · exact hin
          · exact h
  · next hio =>
      rw [hio] at hflushes
      refine h.move (by simp [hio]) (by simp) ?_ (by simp)
      intro hflag
      exact Or.inl ((hflushes hflag).resolve_right (by simp [IoPosition.DrainsFirst]))
  · next events hio => exact ⟨by simp, h.account, fun _ => Or.inr trivial, by simp⟩
  · next events hio =>
      rw [hio] at hflushes
      exact h.move (by simp [hio]) (by simp) hflushes (by simp)
  · next client parsed frames events hio =>
      rw [hio] at hflushes
      have hframe := s.server.frameHandler_frame capacity client parsed
      have hphase := h.not_draining (by simp [hio])
      refine ⟨?_, ?_, ?_, by simp⟩
      · rw [hframe.right.right.right]
        simpa using hphase
      · rw [ServerState.delivered_frameHandler, hframe.right.left]
        exact h.account
      · rw [hframe.right.left]
        exact hflushes
  · next events hio => exact h.drain hio
  · next events hio =>
      exact h.test (by simp [hio]) (by simp [hio, IoPosition.DrainsFirst]) (by simp) (by simp)
  · exact h

theorem engineInv_new (engine : σ) : (new engine).EngineInv := by
  refine ⟨Or.inl (ServerState.announced_new engine), fun _ => rfl, fun _ => rfl, ?_⟩
  intro hflag
  cases hflag

theorem ioInv_new (engine : σ) : (new engine).IoInv := by
  refine ⟨?_, rfl, ?_, ?_⟩
  · simp [new, ServerState.new]
  · intro hflag
    cases hflag
  · intro hleft
    cases hleft

theorem EngineInv.step (h : s.EngineInv) (move : ClosingMove) :
    (s.step capacity api move).EngineInv := by
  cases move with
  | engine => exact h.engineStep
  | io answer => exact h.ioStep answer
  | signal => exact { h with }
  | signalWrite =>
      unfold ClosingServer.step
      dsimp only
      split
      · exact { h with announced := Or.inl (announced_writeEventfd _) }
      · exact h

theorem engineInv_run (engine : σ) (moves : List ClosingMove) :
    ((new engine).run capacity api moves).EngineInv :=
  Machine.run_invariant (fun _ move h => h.step move) (engineInv_new engine) moves

theorem IoInv.step (h : s.IoInv) (hengine : s.EngineInv) {move : ClosingMove}
    (horderly : s.Orderly move) : (s.step capacity api move).IoInv := by
  cases move with
  | engine => exact h.engineStep hengine horderly
  | io answer => exact h.ioStep hengine horderly
  | signal => exact { h with }
  | signalWrite =>
      unfold ClosingServer.step
      dsimp only
      split
      · exact { h with }
      · exact h

theorem ioInv_run (engine : σ) (moves : List ClosingMove)
    (horderly : forall v, v ∈ (new engine).visits capacity api moves -> v.1.Orderly v.2) :
    ((new engine).run capacity api moves).IoInv := by
  have hstep : forall (s : ClosingServer σ) (move : ClosingMove), s.EngineInv ∧ s.IoInv ->
      s.Orderly move ->
        (s.step capacity api move).EngineInv ∧ (s.step capacity api move).IoInv := by
    intro s move h hone
    exact ⟨h.left.step move, h.right.step h.left hone⟩
  exact (Machine.run_invariant_of hstep ⟨engineInv_new engine, ioInv_new engine⟩ horderly).right

/-!
## A disorderly shutdown
-/

structure Doomed (s : ClosingServer σ) : Prop where
  engine : s.EngineInv
  requested : s.shutdownRequested = true
  queued : s.server.outbound ≠ []
  undrained : ¬ s.io.DrainsFirst

theorem doomed_of_disorderly (h : s.EngineInv) {move : ClosingMove} (hmove : ¬ s.Orderly move) :
    (s.step capacity api move).Doomed := by
  have hengine : (s.step capacity api move).EngineInv := h.step move
  cases move with
  | signal => exact absurd trivial hmove
  | signalWrite => exact absurd trivial hmove
  | engine =>
      have hboth : ¬ (s.stage = .requesting ->
        s.server.outbound = [] ∨ s.io.DrainsFirst) := hmove
      rw [Classical.not_imp, not_or] at hboth
      rcases hboth with ⟨hstage, hqueued, hundrained⟩
      have hstep : s.step capacity api .engine =
          { s with shutdownRequested := true, stage := .waking } := by
        show s.engineStep capacity api = _
        unfold ClosingServer.engineStep
        rw [hstage]
      rw [hstep] at hengine ⊢
      exact ⟨hengine, rfl, hqueued, hundrained⟩
  | io answer =>
      have hall : ¬ (s.io = .waiting -> s.shutdownRequested = true ->
        s.server.outbound ≠ [] -> answer.Undisturbed s.server.eventfd) := hmove
      simp only [Classical.not_imp] at hall
      rcases hall with ⟨hio, hflag, hqueued, hdisturbed⟩
      cases answer with
      | interrupted =>
          have hstep : s.step capacity api (.io .interrupted) =
              { s with io := .testing } := by
            show s.ioStep capacity .interrupted = _
            unfold ClosingServer.ioStep
            rw [hio]
          rw [hstep] at hengine ⊢
          exact ⟨hengine, hflag, hqueued, id⟩
      | ready events =>
          have hbatch : ¬ (Reports s.server.eventfd events ->
            events.length < maxEvents ∨ events.any IoEvent.isEventfd = true) := hdisturbed
          rw [Classical.not_imp, not_or] at hbatch
          rcases hbatch with ⟨hreports, -, hmissing⟩
          have hstep : s.step capacity api (.io (.ready events)) =
              { s with io := .handling events } := by
            show s.ioStep capacity (.ready events) = _
            unfold ClosingServer.ioStep
            rw [hio]
            exact if_pos hreports
          rw [hstep] at hengine ⊢
          exact ⟨hengine, hflag, hqueued, hmissing⟩

theorem Doomed.engineStep (h : s.Doomed) : (s.engineStep capacity api).Doomed := by
  have hengine : (s.engineStep capacity api).EngineInv := h.engine.engineStep
  rcases h.engine.requested h.requested with hstage | hstage
  · have hstep : s.engineStep capacity api =
        { s with server := s.server.writeEventfd, stage := .joining } := by
      unfold ClosingServer.engineStep
      rw [hstage]
    rw [hstep] at hengine ⊢
    exact ⟨hengine, h.requested, h.queued, h.undrained⟩
  · have hstep : s.engineStep capacity api = s := by
      unfold ClosingServer.engineStep
      rw [hstage]
    rw [hstep]
    exact h

theorem Doomed.move (h : s.Doomed) {io : IoPosition} (hio : ¬ io.DrainsFirst) :
    Doomed { s with io := io } :=
  ⟨{ h.engine with }, h.requested, h.queued, hio⟩

theorem Doomed.ioStep (h : s.Doomed) (answer : EpollAnswer) :
    (s.ioStep capacity answer).Doomed := by
  have hundrained := h.undrained
  unfold ClosingServer.ioStep
  split
  · rw [if_pos h.requested]
    exact h.move id
  · next hio =>
      rw [hio] at hundrained
      exact absurd trivial hundrained
  · exact h.move id
  · next events hio =>
      rw [hio] at hundrained
      exact absurd rfl hundrained
  · next events hio =>
      rw [hio] at hundrained
      exact h.move hundrained
  · next client parsed frames events hio =>
      rw [hio] at hundrained
      refine ⟨h.engine.frame client parsed _, h.requested, ?_, hundrained⟩
      rw [(s.server.frameHandler_frame capacity client parsed).right.left]
      exact h.queued
  · next events hio =>
      rw [hio] at hundrained
      exact absurd trivial hundrained
  · rw [if_pos h.requested]
    exact h.move id
  · exact h

theorem Doomed.step (h : s.Doomed) (move : ClosingMove) : (s.step capacity api move).Doomed := by
  cases move with
  | engine => exact h.engineStep
  | io answer => exact h.ioStep answer
  | signal => exact { h with engine := { h.engine with } }
  | signalWrite =>
      refine ⟨h.engine.step .signalWrite, ?_, ?_, ?_⟩
      all_goals
        unfold ClosingServer.step
        dsimp only
        split
      · exact h.requested
      · exact h.requested
      · exact h.queued
      · exact h.queued
      · exact h.undrained
      · exact h.undrained

/--
In every run in which the I/O thread has left its loop: it has handed every
response that the engine thread pushed to `send_to_client`, if and only if all
moves were orderly.
-/
theorem shutdown_flushes_iff (capacity : Capacities) (api : EngineApi σ) (engine : σ)
    (moves : List ClosingMove) (s : ClosingServer σ)
    (hs : s = (new engine).run capacity api moves) (hleft : s.io = .left) :
    (s.server.outbound = [] ∧ s.server.delivered = s.pushed) <->
      forall v, v ∈ (new engine).visits capacity api moves -> v.1.Orderly v.2 := by
  subst hs
  constructor
  · rintro ⟨hempty, -⟩ v hv
    by_contra hdisorderly
    rcases (Machine.mem_visits_iff _).mp hv with ⟨before, after, hsplit, hstate⟩
    have hengine : v.1.EngineInv := by
      rw [hstate]
      exact engineInv_run engine before
    have hdoomed : ((new engine).run capacity api moves).Doomed := by
      have hrest : (Machine.run (step capacity api) (v.1.step capacity api v.2) after).Doomed :=
        Machine.run_invariant (fun _ move h => h.step move)
          (doomed_of_disorderly hengine hdisorderly) after
      rw [hstate] at hrest
      rw [hsplit]
      unfold run
      rw [Machine.run_append]
      exact hrest
    exact hdoomed.queued hempty
  · intro horderly
    have hinv := ioInv_run engine moves horderly
    have hempty : ((new engine).run capacity api moves).server.outbound = [] := by
      refine (hinv.flushes (hinv.left hleft)).resolve_right ?_
      rw [hleft]
      exact id
    refine ⟨hempty, ?_⟩
    rw [← hinv.account, hempty, List.append_nil]

/-!
## Two shutdowns

A client's request is answered and the server is told to stop.  In the first
run the I/O thread is in `epoll_wait` when the flag is stored; in the second it
is still handling the batch that the request came with.
-/

def requestBatch : EpollAnswer :=
  .ready
    [.client [(sampleCancel.client, .ok sampleCancel.command)]]

/-- Accesses of the I/O thread outside `epoll_wait`. -/
def ioMoves (n : Nat) : List ClosingMove :=
  List.replicate n (.io .interrupted)

def engineMoves (n : Nat) : List ClosingMove :=
  List.replicate n .engine

def answeredRequest : List ClosingMove :=
  engineMoves 6 ++ .signal :: engineMoves 4

def stoppedWhileWaiting : List ClosingMove :=
  ioMoves 1 ++ .io requestBatch :: ioMoves 4 ++ answeredRequest ++
    .io (.ready [.eventfd]) :: ioMoves 4

def stoppedInBatch : List ClosingMove :=
  ioMoves 1 ++ .io requestBatch :: ioMoves 1 ++ answeredRequest ++ ioMoves 3

def smallServer : ClosingServer MatchingEngine :=
  new (MatchingEngine.new Memory.zeroed 4 {})

theorem orderly_stoppedWhileWaiting :
    (smallServer.run serverCapacities MatchingEngine.api stoppedWhileWaiting).io = .left ∧
      (smallServer.run serverCapacities MatchingEngine.api stoppedWhileWaiting).pushed.length =
        1 ∧
      forall v, v ∈ smallServer.visits serverCapacities MatchingEngine.api stoppedWhileWaiting ->
        v.1.Orderly v.2 := by
  have hleft : (smallServer.run serverCapacities MatchingEngine.api stoppedWhileWaiting).io =
      .left := by decide +kernel
  have hflushed := shutdown_flushes_iff serverCapacities MatchingEngine.api
    (MatchingEngine.new Memory.zeroed 4 {}) stoppedWhileWaiting _ rfl hleft
  exact ⟨hleft, by decide +kernel, hflushed.mp ⟨by decide +kernel, by decide +kernel⟩⟩

/-- The connections are closed with the answer still in the outbound queue. -/
theorem answer_lost_at_shutdown :
    (smallServer.run serverCapacities MatchingEngine.api stoppedInBatch).io = .left ∧
      (smallServer.run serverCapacities MatchingEngine.api stoppedInBatch).pushed.length = 1 ∧
      (smallServer.run serverCapacities MatchingEngine.api stoppedInBatch).server.delivered =
        [] :=
  ⟨by decide +kernel, by decide +kernel, by decide +kernel⟩

end ClosingServer
end Server
end MiniExchange
