import MiniExchange.Foundation.StaleQueue
import MiniExchange.Server.EngineLoop

/-!
# Response routing

The two threads over queues whose sides have stale views of each other: every
queue access observes some value that the other side's counter has had since
it was last observed.  The coarse model of the two loops is the case in which
every observation is up to date.
-/

namespace MiniExchange
namespace Server

open Foundation

structure RelaxedServer (σ : Type) where
  engine : σ
  inbound : StaleQueue TaggedCommand := {}
  outbound : StaleQueue TaggedResponse := {}
  eventfd : Nat := 0
  wakeup : WakeupCoalescer := {}
  enginePhase : EnginePhase := .polling
  ioPhase : IoPhase := .polling
  /-- The calls of `send_to_client` so far. -/
  sent : List (ClientId × Reply) := []

/-- A move of one thread, with the value its queue access observes. -/
inductive RelaxedMove where
  | engine (observed : Nat)
  | io (observed : Nat)
  | receive (client : ClientId) (parsed : Except String EngineCommand) (observed : Nat)

namespace RelaxedServer

variable {σ : Type}

def new (engine : σ) : RelaxedServer σ where
  engine := engine

def poll (observed : Nat) (s : RelaxedServer σ) : RelaxedServer σ :=
  match (s.inbound.tryPop observed).1 with
  | none =>
      { s with
        inbound := (s.inbound.tryPop observed).2
        wakeup := s.wakeup.shouldNotifyOnIdle.2
        enginePhase :=
          if s.wakeup.shouldNotifyOnIdle.1 then .notifying
          else .polling }
  | some cmd =>
      { s with
        inbound := (s.inbound.tryPop observed).2
        enginePhase := .dispatching cmd }

def engineStep (capacity : Capacities) (api : EngineApi σ) (observed : Nat)
    (s : RelaxedServer σ) : RelaxedServer σ :=
  match s.enginePhase with
  | .polling => s.poll observed
  | .notifying =>
      { s with
        eventfd := eventfdWrite s.eventfd
        enginePhase := .polling }
  | .dispatching cmd =>
      { s with
        engine := (dispatchCommand api s.engine cmd).2
        enginePhase := .waiting
          { client := cmd.client
            response := (dispatchCommand api s.engine cmd).1 } }
  | .waiting tagged =>
      -- `size()` reads the consumer's index, which may have moved on since.
      if capacity.outbound <= (s.outbound.loadPopped observed).seenSize then
        { s with outbound := s.outbound.loadPopped observed }
      else
        { s with
          outbound := s.outbound.loadPopped observed
          enginePhase := .pushing tagged }
  | .pushing tagged =>
      { s with
        outbound := (s.outbound.tryPush capacity.outbound observed tagged).2
        enginePhase := .noting }
  | .noting =>
      { s with
        wakeup := s.wakeup.noteResponse
        enginePhase := .polling }

def ioStep (observed : Nat) (s : RelaxedServer σ) : RelaxedServer σ :=
  match s.ioPhase with
  | .polling =>
      if s.eventfd = 0 then s
      else { s with eventfd := 0, ioPhase := .draining }
  | .draining =>
      match (s.outbound.tryPop observed).1 with
      | none =>
          { s with
            outbound := (s.outbound.tryPop observed).2
            ioPhase := .polling }
      | some resp =>
          { s with
            outbound := (s.outbound.tryPop observed).2
            sent := s.sent ++ [(resp.client, .response resp.response)] }

def frameHandler (capacity : Capacities) (client : ClientId)
    (parsed : Except String EngineCommand) (observed : Nat) (s : RelaxedServer σ) :
    RelaxedServer σ :=
  match parsed with
  | .error message =>
      { s with sent := s.sent ++ [(client, .error message)] }
  | .ok command =>
      let cmd : TaggedCommand := { client := client, command := command }
      if (s.inbound.tryPush capacity.inbound observed cmd).1 then
        { s with inbound := (s.inbound.tryPush capacity.inbound observed cmd).2 }
      else
        { s with
          inbound := (s.inbound.tryPush capacity.inbound observed cmd).2
          sent := s.sent ++ [(client, .error "system busy — order not accepted")] }

def step (capacity : Capacities) (api : EngineApi σ) (s : RelaxedServer σ) :
    RelaxedMove -> RelaxedServer σ
  | .engine observed => s.engineStep capacity api observed
  | .io observed => s.ioStep observed
  | .receive client parsed observed =>
      match s.ioPhase with
      | .polling => s.frameHandler capacity client parsed observed
      | .draining => s

def run (capacity : Capacities) (api : EngineApi σ) (s : RelaxedServer σ)
    (moves : List RelaxedMove) : RelaxedServer σ :=
  Machine.run (step capacity api) s moves

def visits (capacity : Capacities) (api : EngineApi σ) (s : RelaxedServer σ)
    (moves : List RelaxedMove) : List (RelaxedServer σ × RelaxedMove) :=
  Machine.visits (step capacity api) s moves

/-!
## Every frame is answered at once or enqueued once
-/

/-- The responses handed to `send_to_client`, with the client they went to. -/
def delivered (s : RelaxedServer σ) : List TaggedResponse :=
  s.sent.filterMap fun call =>
    match call.2 with
    | .response response => some { client := call.1, response := response }
    | .error _ => none

/-- The error frames handed to `send_to_client`. -/
def errors (s : RelaxedServer σ) : List (ClientId × String) :=
  s.sent.filterMap fun call =>
    match call.2 with
    | .response _ => none
    | .error message => some (call.1, message)

def handedFrame? (v : RelaxedServer σ × RelaxedMove) :
    Option (ClientId × Except String EngineCommand) :=
  match v.2, v.1.ioPhase with
  | .receive client parsed _, .polling => some (client, parsed)
  | _, _ => none

end RelaxedServer

inductive FrameOutcome where
  | enqueued (cmd : TaggedCommand)
  | refused (client : ClientId) (parsed : Except String EngineCommand) (message : String)

namespace FrameOutcome

def frame : FrameOutcome -> ClientId × Except String EngineCommand
  | enqueued cmd => (cmd.client, .ok cmd.command)
  | refused client parsed _ => (client, parsed)

def command? : FrameOutcome -> Option TaggedCommand
  | enqueued cmd => some cmd
  | refused _ _ _ => none

def error? : FrameOutcome -> Option (ClientId × String)
  | enqueued _ => none
  | refused client _ message => some (client, message)

end FrameOutcome

namespace RelaxedServer

variable {σ : Type} {capacity : Capacities} {api : EngineApi σ}

theorem engineStep_frame (s : RelaxedServer σ) (observed : Nat) :
    (s.engineStep capacity api observed).inbound.items = s.inbound.items ∧
      (s.engineStep capacity api observed).sent = s.sent := by
  unfold engineStep
  split
  · unfold poll
    split <;> exact ⟨StaleQueue.items_tryPop _ _, rfl⟩
  all_goals first | exact ⟨rfl, rfl⟩ | (split <;> exact ⟨rfl, rfl⟩)

theorem ioStep_frame (s : RelaxedServer σ) (observed : Nat) :
    (s.ioStep observed).inbound = s.inbound ∧ (s.ioStep observed).errors = s.errors := by
  unfold ioStep
  split
  · split <;> exact ⟨rfl, rfl⟩
  · split
    · exact ⟨rfl, rfl⟩
    · exact ⟨rfl, by simp [errors]⟩

theorem frameHandler_outcome (capacity : Capacities) (s : RelaxedServer σ)
    (client : ClientId) (parsed : Except String EngineCommand) (observed : Nat) :
    exists outcome : FrameOutcome, outcome.frame = (client, parsed) ∧
      (s.frameHandler capacity client parsed observed).inbound.items =
        s.inbound.items ++ [outcome].filterMap FrameOutcome.command? ∧
      (s.frameHandler capacity client parsed observed).errors =
        s.errors ++ [outcome].filterMap FrameOutcome.error? := by
  cases parsed with
  | error message =>
      refine ⟨.refused client (.error message) message, rfl, ?_, ?_⟩
      · exact (List.append_nil _).symm
      · simp [frameHandler, errors, FrameOutcome.error?]
  | ok command =>
      have hpush := StaleQueue.tryPush_cases capacity.inbound observed s.inbound
        { client := client, command := command }
      rcases hpush with ⟨hok, hitems⟩ | ⟨hfull, hitems⟩
      · refine ⟨.enqueued { client := client, command := command }, rfl, ?_, ?_⟩
        · simpa [frameHandler, hok, FrameOutcome.command?] using hitems
        · simp [frameHandler, hok, errors, FrameOutcome.error?]
      · refine ⟨.refused client (.ok command)
          "system busy — order not accepted", rfl, ?_, ?_⟩
        · simp only [frameHandler, hfull]
          exact hitems.trans (List.append_nil _).symm
        · simp [frameHandler, hfull, errors, FrameOutcome.error?]

theorem step_outcome (capacity : Capacities) (api : EngineApi σ) (s : RelaxedServer σ)
    (a : RelaxedMove) :
    exists outcomes : List FrameOutcome,
      outcomes.map FrameOutcome.frame = (handedFrame? (s, a)).toList ∧
      (s.step capacity api a).inbound.items =
        s.inbound.items ++ outcomes.filterMap FrameOutcome.command? ∧
      (s.step capacity api a).errors =
        s.errors ++ outcomes.filterMap FrameOutcome.error? := by
  cases a with
  | engine observed =>
      rcases engineStep_frame s observed with ⟨hitems, hsent⟩
      refine ⟨[], rfl, ?_, ?_⟩
      · exact hitems.trans (List.append_nil _).symm
      · simp [errors, step, hsent]
  | io observed =>
      rcases ioStep_frame s observed with ⟨hinbound, herrors⟩
      refine ⟨[], rfl, ?_, ?_⟩
      · simp [step, hinbound]
      · simp [step, herrors]
  | receive client parsed observed =>
      cases hio : s.ioPhase with
      | draining =>
          exact ⟨[], by simp [handedFrame?, hio], by simp [step, hio], by simp [step, hio]⟩
      | polling =>
          rcases frameHandler_outcome capacity s client parsed observed with
            ⟨outcome, hframe, hitems, herrors⟩
          refine ⟨[outcome], ?_, ?_, ?_⟩
          · simp [handedFrame?, hio, hframe]
          · simp only [step, hio, hitems]
          · simp only [step, hio, herrors]

def frames (capacity : Capacities) (api : EngineApi σ) (s : RelaxedServer σ)
    (moves : List RelaxedMove) : List (ClientId × Except String EngineCommand) :=
  (s.visits capacity api moves).filterMap handedFrame?

theorem run_outcomes (capacity : Capacities) (api : EngineApi σ) (s : RelaxedServer σ)
    (moves : List RelaxedMove) :
    exists outcomes : List FrameOutcome,
      outcomes.map FrameOutcome.frame = s.frames capacity api moves ∧
      (s.run capacity api moves).inbound.items =
        s.inbound.items ++ outcomes.filterMap FrameOutcome.command? ∧
      (s.run capacity api moves).errors =
        s.errors ++ outcomes.filterMap FrameOutcome.error? := by
  induction moves generalizing s with
  | nil => exact ⟨[], rfl, (List.append_nil _).symm, (List.append_nil _).symm⟩
  | cons a rest ih =>
      rcases step_outcome capacity api s a with
        ⟨first, hframe, hitems, herrors⟩
      rcases ih (s.step capacity api a) with ⟨others, hframes, hitems', herrors'⟩
      refine ⟨first ++ others, ?_, ?_, ?_⟩
      · rw [List.map_append, hframe, hframes]
        have hvisits : s.visits capacity api (a :: rest) =
            (s, a) :: (s.step capacity api a).visits capacity api rest := rfl
        rw [frames, frames, hvisits, List.filterMap_cons]
        cases handedFrame? (s, a) <;> rfl
      · rw [List.filterMap_append, ← List.append_assoc, ← hitems]
        exact hitems'
      · rw [List.filterMap_append, ← List.append_assoc, ← herrors]
        exact herrors'

end RelaxedServer

/-!
## Every response goes to the client that asked

The commands the engine has dispatched are the first ones enqueued, and its
responses to them are in the clients' hands, in the outbound queue, or in the
engine thread's.
-/

def submitter? : EngineCommand -> Option ClientId
  | .limit order => some order.owner
  | .market order => some order.owner
  | .cancel _ => none

def stamped (cmd : TaggedCommand) : EngineCommand :=
  match cmd.command with
  | .limit order => .limit { order with owner := cmd.client }
  | .market order => .market { order with owner := cmd.client }
  | .cancel id => .cancel id

theorem submitter_stamped (cmd : TaggedCommand) {client : ClientId}
    (h : submitter? (stamped cmd) = some client) : client = cmd.client := by
  unfold stamped at h
  split at h
  · exact (Option.some.inj h).symm
  · exact (Option.some.inj h).symm
  · cases h

section Dispatching

variable {σ : Type} (api : EngineApi σ)

theorem dispatchCommand_eq (engine : σ) (cmd : TaggedCommand) :
    dispatchCommand api engine cmd = api.exec engine (stamped cmd) := by
  rcases cmd with ⟨client, command⟩
  cases command <;> rfl

def dispatchAll (engine : σ) (cmds : List TaggedCommand) : σ :=
  Machine.run (fun e cmd => (api.exec e (stamped cmd)).2) engine cmds

/-- The responses to some commands, under the ids of the clients that sent them. -/
def answers (engine : σ) (cmds : List TaggedCommand) : List TaggedResponse :=
  (Machine.visits (fun e cmd => (api.exec e (stamped cmd)).2) engine cmds).map fun v =>
    { client := v.2.client, response := (api.exec v.1 (stamped v.2)).1 }

theorem dispatchAll_concat (engine : σ) (cmds : List TaggedCommand) (cmd : TaggedCommand) :
    dispatchAll api engine (cmds ++ [cmd]) =
      (dispatchCommand api (dispatchAll api engine cmds) cmd).2 := by
  rw [dispatchCommand_eq]
  exact Machine.run_append _ engine cmds [cmd]

theorem answers_concat (engine : σ) (cmds : List TaggedCommand) (cmd : TaggedCommand) :
    answers api engine (cmds ++ [cmd]) = answers api engine cmds ++
      [{ client := cmd.client
         response := (dispatchCommand api (dispatchAll api engine cmds) cmd).1 }] := by
  rw [dispatchCommand_eq]
  unfold answers
  rw [Machine.visits_append, List.map_append]
  rfl

end Dispatching

def EnginePhase.inHand : EnginePhase -> List TaggedCommand
  | .dispatching cmd => [cmd]
  | _ => []

def EnginePhase.unpushed : EnginePhase -> List TaggedResponse
  | .waiting tagged => [tagged]
  | .pushing tagged => [tagged]
  | _ => []

namespace RelaxedServer

variable {σ : Type} {capacity : Capacities} {api : EngineApi σ} {engine : σ}

/-- Where the commands and the responses of a run are. -/
structure Routed (capacity : Capacities) (api : EngineApi σ) (engine : σ)
    (dispatched : List TaggedCommand) (s : RelaxedServer σ) : Prop where
  inbound_valid : s.inbound.Valid capacity.inbound
  outbound_valid : s.outbound.Valid capacity.outbound
  taken : s.inbound.items.take s.inbound.popped = dispatched ++ s.enginePhase.inHand
  executed : s.engine = dispatchAll api engine dispatched
  answered : s.outbound.items ++ s.enginePhase.unpushed = answers api engine dispatched
  drained : s.delivered = s.outbound.items.take s.outbound.popped
  room : forall tagged, s.enginePhase = .pushing tagged ->
    s.outbound.seenSize < capacity.outbound

theorem routed_new (capacity : Capacities) (api : EngineApi σ) (engine : σ) :
    Routed capacity api engine [] (new engine) where
  inbound_valid := StaleQueue.valid_new _
  outbound_valid := StaleQueue.valid_new _
  taken := rfl
  executed := rfl
  answered := rfl
  drained := rfl
  room := fun _ h => by cases h

variable {s : RelaxedServer σ} {dispatched : List TaggedCommand}

theorem Routed.at_rest {s t : RelaxedServer σ}
    (h : Routed capacity api engine dispatched s)
    (hbefore : s.enginePhase.inHand = [] ∧ s.enginePhase.unpushed = [])
    (hafter : t.enginePhase.inHand = [] ∧ t.enginePhase.unpushed = [])
    (hengine : t.engine = s.engine) (hinbound : t.inbound = s.inbound)
    (houtbound : t.outbound = s.outbound) (hsent : t.sent = s.sent) :
    Routed capacity api engine dispatched t where
  inbound_valid := hinbound ▸ h.inbound_valid
  outbound_valid := houtbound ▸ h.outbound_valid
  taken := by
    rw [hinbound, hafter.left, ← hbefore.left]
    exact h.taken
  executed := hengine.trans h.executed
  answered := by
    rw [houtbound, hafter.right, ← hbefore.right]
    exact h.answered
  drained := by
    rw [houtbound, ← h.drained]
    unfold delivered
    rw [hsent]
  room := by
    intro tagged hpushing
    rw [hpushing] at hafter
    cases hafter.right

theorem routed_poll
    (hphase : s.enginePhase = .polling)
    (h : Routed capacity api engine dispatched s) (observed : Nat) :
    Routed capacity api engine dispatched (s.poll observed) := by
  have hvalid := h.inbound_valid.tryPop observed
  have htaken := h.taken
  have hanswered := h.answered
  rw [hphase] at htaken hanswered
  unfold poll
  rcases StaleQueue.tryPop_cases h.inbound_valid observed with
    ⟨hnone, hpopped⟩ | ⟨cmd, hsome, hpopped, htake⟩
  · rw [hnone]
    have hkept : Routed capacity api engine dispatched
        { s with inbound := (s.inbound.tryPop observed).2 } :=
      { h with
        inbound_valid := hvalid
        taken := by
          show (s.inbound.tryPop observed).2.items.take (s.inbound.tryPop observed).2.popped = _
          rw [StaleQueue.items_tryPop, hpopped]
          exact h.taken }
    have hbefore : s.enginePhase.inHand = [] ∧ s.enginePhase.unpushed = [] := by
      rw [hphase]
      exact ⟨rfl, rfl⟩
    refine hkept.at_rest hbefore ?_ rfl rfl rfl rfl
    show (ite _ _ _ : EnginePhase).inHand = [] ∧ (ite _ _ _ : EnginePhase).unpushed = []
    split <;> exact ⟨rfl, rfl⟩
  · rw [hsome]
    exact { h with
      inbound_valid := hvalid
      taken := by
        show (s.inbound.tryPop observed).2.items.take (s.inbound.tryPop observed).2.popped = _
        rw [StaleQueue.items_tryPop, hpopped, htake, htaken]
        exact congrArg (· ++ [cmd]) (List.append_nil dispatched)
      answered := hanswered
      room := fun _ hpushing => by cases hpushing }

theorem routed_dispatch
    {cmd : TaggedCommand} (hphase : s.enginePhase = .dispatching cmd)
    (h : Routed capacity api engine dispatched s) (observed : Nat) :
    Routed capacity api engine (dispatched ++ [cmd]) (s.engineStep capacity api observed) := by
  have htaken := h.taken
  have hanswered := h.answered
  rw [hphase] at htaken hanswered
  simp only [engineStep, hphase]
  exact { h with
    taken := htaken.trans (List.append_nil _).symm
    executed := by
      rw [dispatchAll_concat, ← h.executed]
    answered := by
      rw [answers_concat, ← h.executed, ← hanswered]
      exact congrArg (· ++ _) (List.append_nil _).symm
    room := fun _ hpushing => by cases hpushing }

theorem routed_wait
    {tagged : TaggedResponse} (hphase : s.enginePhase = .waiting tagged)
    (h : Routed capacity api engine dispatched s) (observed : Nat) :
    Routed capacity api engine dispatched (s.engineStep capacity api observed) := by
  have htaken := h.taken
  have hanswered := h.answered
  have hvalid := h.outbound_valid.loadPopped observed
  rw [hphase] at htaken hanswered
  simp only [engineStep, hphase]
  split
  · exact { h with
      outbound_valid := hvalid
      taken := htaken
      answered := hanswered
      room := fun _ hpushing => by cases hpushing }
  · next hroom =>
      exact { h with
        outbound_valid := hvalid
        taken := htaken
        answered := hanswered
        room := fun _ _ => Nat.not_le.mp hroom }

theorem routed_push
    {tagged : TaggedResponse} (hphase : s.enginePhase = .pushing tagged)
    (h : Routed capacity api engine dispatched s) (observed : Nat) :
    Routed capacity api engine dispatched (s.engineStep capacity api observed) := by
  have htaken := h.taken
  have hanswered := h.answered
  have hpushed := StaleQueue.tryPush_of_seenSize (h.room tagged hphase) observed tagged
  have hitems : (s.outbound.tryPush capacity.outbound observed tagged).2.items =
      s.outbound.items ++ [tagged] := by
    rcases StaleQueue.tryPush_cases capacity.outbound observed s.outbound tagged with
      ⟨-, hitems⟩ | ⟨hfull, -⟩
    · exact hitems
    · rw [hpushed] at hfull
      cases hfull
  rw [hphase] at htaken hanswered
  simp only [engineStep, hphase]
  exact { h with
    outbound_valid := h.outbound_valid.tryPush observed tagged
    taken := htaken
    answered := by
      show (s.outbound.tryPush capacity.outbound observed tagged).2.items ++ [] = _
      rw [hitems, List.append_nil]
      exact hanswered
    drained := by
      show s.delivered = _
      rw [h.drained, StaleQueue.popped_tryPush, hitems,
        List.take_append_of_le_length h.outbound_valid.popped_le]
    room := fun _ hpushing => by cases hpushing }

theorem routed_engineStep
    (h : Routed capacity api engine dispatched s) (observed : Nat) :
    exists dispatched', Routed capacity api engine dispatched'
      (s.engineStep capacity api observed) := by
  cases hphase : s.enginePhase with
  | dispatching cmd => exact ⟨dispatched ++ [cmd], routed_dispatch hphase h observed⟩
  | waiting tagged => exact ⟨dispatched, routed_wait hphase h observed⟩
  | pushing tagged => exact ⟨dispatched, routed_push hphase h observed⟩
  | polling =>
      refine ⟨dispatched, ?_⟩
      simp only [engineStep, hphase]
      exact routed_poll hphase h observed
  | notifying =>
      refine ⟨dispatched, ?_⟩
      simp only [engineStep, hphase]
      exact h.at_rest (hphase ▸ ⟨rfl, rfl⟩) ⟨rfl, rfl⟩ rfl rfl rfl rfl
  | noting =>
      refine ⟨dispatched, ?_⟩
      simp only [engineStep, hphase]
      exact h.at_rest (hphase ▸ ⟨rfl, rfl⟩) ⟨rfl, rfl⟩ rfl rfl rfl rfl

theorem delivered_respond (s : RelaxedServer σ) (resp : TaggedResponse) :
    ({ s with sent := s.sent ++ [(resp.client, .response resp.response)] } :
      RelaxedServer σ).delivered = s.delivered ++ [resp] := by
  unfold delivered
  exact List.filterMap_append

theorem delivered_refuse (s : RelaxedServer σ) (client : ClientId) (message : String) :
    ({ s with sent := s.sent ++ [(client, .error message)] } :
      RelaxedServer σ).delivered = s.delivered := by
  unfold delivered
  rw [List.filterMap_append]
  exact List.append_nil _

theorem routed_ioStep
    (h : Routed capacity api engine dispatched s) (observed : Nat) :
    Routed capacity api engine dispatched (s.ioStep observed) := by
  unfold ioStep
  split
  · split
    · exact h
    · exact { h with }
  · have hvalid := h.outbound_valid.tryPop observed
    have hanswered : (s.outbound.tryPop observed).2.items ++ s.enginePhase.unpushed =
        answers api engine dispatched := by
      rw [StaleQueue.items_tryPop]
      exact h.answered
    have hroom : forall tagged, s.enginePhase = .pushing tagged ->
        (s.outbound.tryPop observed).2.seenSize < capacity.outbound := by
      intro tagged hpushing
      rw [StaleQueue.seenSize_tryPop]
      exact h.room tagged hpushing
    rcases StaleQueue.tryPop_cases h.outbound_valid observed with
      ⟨hnone, hpopped⟩ | ⟨resp, hsome, hpopped, htake⟩
    · rw [hnone]
      exact { h with
        outbound_valid := hvalid
        answered := hanswered
        drained := by
          show s.delivered = _
          rw [StaleQueue.items_tryPop, hpopped]
          exact h.drained
        room := hroom }
    · rw [hsome]
      exact { h with
        outbound_valid := hvalid
        answered := hanswered
        drained := by
          refine (delivered_respond s resp).trans ?_
          show s.delivered ++ [resp] =
            (s.outbound.tryPop observed).2.items.take (s.outbound.tryPop observed).2.popped
          rw [StaleQueue.items_tryPop, hpopped, htake, ← h.drained]
        room := hroom }

theorem routed_frameHandler
    (h : Routed capacity api engine dispatched s) (client : ClientId)
    (parsed : Except String EngineCommand) (observed : Nat) :
    Routed capacity api engine dispatched
      (s.frameHandler capacity client parsed observed) := by
  cases parsed with
  | error message => exact { h with drained := (delivered_refuse s client message).trans h.drained }
  | ok command =>
      have hvalid := h.inbound_valid.tryPush observed
        { client := client, command := command }
      have hpopped := StaleQueue.popped_tryPush capacity.inbound observed s.inbound
        { client := client, command := command }
      simp only [frameHandler]
      rcases StaleQueue.tryPush_cases capacity.inbound observed s.inbound
        { client := client, command := command } with ⟨hok, hitems⟩ | ⟨hfull, hitems⟩
      · rw [if_pos hok]
        exact { h with
          inbound_valid := hvalid
          taken := by
            dsimp only
            rw [hpopped, hitems, List.take_append_of_le_length h.inbound_valid.popped_le]
            exact h.taken }
      · rw [if_neg (by rw [hfull]; exact Bool.false_ne_true)]
        exact { h with
          inbound_valid := hvalid
          taken := by
            dsimp only
            rw [hpopped, hitems]
            exact h.taken
          drained := (delivered_refuse s client _).trans h.drained }

theorem routed_step
    (h : Routed capacity api engine dispatched s) (a : RelaxedMove) :
    exists dispatched', Routed capacity api engine dispatched' (s.step capacity api a) := by
  cases a with
  | engine observed => exact routed_engineStep h observed
  | io observed => exact ⟨dispatched, routed_ioStep h observed⟩
  | receive client parsed observed =>
      refine ⟨dispatched, ?_⟩
      simp only [step]
      split
      · exact routed_frameHandler h client parsed observed
      · exact h

theorem routed_run (capacity : Capacities) (api : EngineApi σ) (engine : σ)
    (moves : List RelaxedMove) :
    exists dispatched, Routed capacity api engine dispatched
      ((new engine).run capacity api moves) := by
  refine Machine.run_invariant (P := fun s => exists dispatched,
    Routed capacity api engine dispatched s) ?_ ⟨[], routed_new capacity api engine⟩ moves
  rintro s a ⟨dispatched, h⟩
  exact routed_step h a

def responsesFor (client : ClientId) (responses : List TaggedResponse) :
    List EngineResponse :=
  (responses.filter fun tagged => decide (tagged.client = client)).map TaggedResponse.response

theorem responsesFor_append (client : ClientId) (front back : List TaggedResponse) :
    responsesFor client (front ++ back) =
      responsesFor client front ++ responsesFor client back := by
  unfold responsesFor
  rw [List.filter_append, List.map_append]

theorem Routed.enqueued_eq
    (h : Routed capacity api engine dispatched s) :
    s.inbound.items = dispatched ++ s.enginePhase.inHand ++ s.inbound.pending := by
  rw [← h.taken]
  exact (List.take_append_drop _ _).symm

theorem Routed.answers_eq
    (h : Routed capacity api engine dispatched s) :
    answers api engine dispatched =
      s.delivered ++ s.outbound.pending ++ s.enginePhase.unpushed := by
  rw [← h.answered, h.drained]
  exact congrArg (· ++ _) (List.take_append_drop _ _).symm

theorem delivered_dispatched (capacity : Capacities) (api : EngineApi σ) (engine : σ)
    (moves : List RelaxedMove) {tagged : TaggedResponse}
    (h : tagged ∈ ((new engine).run capacity api moves).delivered) :
    exists before cmd,
      (before ++ [cmd] <+: ((new engine).run capacity api moves).inbound.items) ∧
      tagged.response = (dispatchCommand api (dispatchAll api engine before) cmd).1 := by
  rcases routed_run capacity api engine moves with ⟨dispatched, hrouted⟩
  have hanswer : tagged ∈ answers api engine dispatched := by
    rw [hrouted.answers_eq, List.append_assoc]
    exact List.mem_append_left _ h
  rcases List.mem_map.mp hanswer with ⟨v, hv, rfl⟩
  rcases (Machine.mem_visits_iff _).mp hv with ⟨before, after, hsplit, hstate⟩
  refine ⟨before, v.2, ?_, ?_⟩
  · have hcommand : before ++ [v.2] <+: dispatched :=
      ⟨after, (List.append_cons before v.2 after).symm.trans hsplit.symm⟩
    rw [hrouted.enqueued_eq, List.append_assoc]
    exact hcommand.trans (List.prefix_append _ _)
  · rw [dispatchCommand_eq, hstate]
    rfl

/--
Frames are refused once or enqueued once, every response is delivered in order
to the client whose command it answers, orders carry the id of their
connection, and the push after the wait for space succeeds.
-/
theorem responses_routed_exactly (capacity : Capacities) (api : EngineApi σ) (engine : σ)
    (moves : List RelaxedMove) :
    (exists outcomes : List FrameOutcome,
      outcomes.map FrameOutcome.frame = (new engine).frames capacity api moves ∧
      outcomes.filterMap FrameOutcome.command? =
        ((new engine).run capacity api moves).inbound.items ∧
      outcomes.filterMap FrameOutcome.error? =
        ((new engine).run capacity api moves).errors) ∧
    (exists dispatched : List TaggedCommand,
      ((new engine).run capacity api moves).inbound.items =
        dispatched ++ ((new engine).run capacity api moves).enginePhase.inHand ++
          ((new engine).run capacity api moves).inbound.pending ∧
      ((new engine).run capacity api moves).engine = dispatchAll api engine dispatched ∧
      (forall cmd client, cmd ∈ dispatched -> submitter? (stamped cmd) = some client ->
        client = cmd.client) ∧
      answers api engine dispatched =
        ((new engine).run capacity api moves).delivered ++
          ((new engine).run capacity api moves).outbound.pending ++
          ((new engine).run capacity api moves).enginePhase.unpushed ∧
      forall client,
        (responsesFor client ((new engine).run capacity api moves).delivered <+:
          responsesFor client (answers api engine dispatched))) ∧
    forall v, v ∈ (new engine).visits capacity api moves -> forall tagged observed,
      v.1.enginePhase = .pushing tagged -> v.2 = .engine observed ->
        (v.1.outbound.tryPush capacity.outbound observed tagged).1 = true := by
  refine ⟨?_, ?_, ?_⟩
  · rcases run_outcomes capacity api (new engine) moves with ⟨outcomes, hframes, hitems, herrors⟩
    exact ⟨outcomes, hframes, hitems.symm, herrors.symm⟩
  · rcases routed_run capacity api engine moves with ⟨dispatched, h⟩
    refine ⟨dispatched, h.enqueued_eq, h.executed, ?_, h.answers_eq, ?_⟩
    · intro cmd client _ hsubmitter
      exact submitter_stamped cmd hsubmitter
    · intro client
      rw [h.answers_eq, List.append_assoc, responsesFor_append]
      exact List.prefix_append _ _
  · intro v hv tagged observed hphase _
    rcases (Machine.mem_visits_iff _).mp hv with ⟨before, after, -, hstate⟩
    rcases routed_run capacity api engine before with ⟨dispatched, h⟩
    have hroom : v.1.outbound.seenSize < capacity.outbound := by
      rw [hstate] at hphase ⊢
      exact h.room tagged hphase
    exact StaleQueue.tryPush_of_seenSize hroom observed tagged

/-!
## Fresh observations

With every observation up to date, the threads make the runs of the coarse
model, so what is proved about those is about these.
-/

def coarse (s : RelaxedServer σ) : ServerState σ where
  engine := s.engine
  inbound := s.inbound.pending
  outbound := s.outbound.pending
  eventfd := s.eventfd
  wakeup := s.wakeup
  enginePhase := s.enginePhase
  ioPhase := s.ioPhase
  sent := s.sent

def fresh (s : RelaxedServer σ) : Move -> RelaxedMove
  | .engine => .engine (s.inbound.items.length + s.outbound.items.length)
  | .io => .io (s.inbound.items.length + s.outbound.items.length)
  | .receive client parsed =>
      .receive client parsed (s.inbound.items.length + s.outbound.items.length)

theorem coarse_poll (hin : s.inbound.Valid capacity.inbound)
    {observed : Nat} (hobserved : s.inbound.items.length <= observed) :
    (s.poll observed).coarse = s.coarse.poll := by
  rcases hin.tryPop_fresh hobserved with ⟨hpop, hrest⟩
  unfold poll ServerState.poll
  have hcoarse : s.coarse.inbound = s.inbound.pending := rfl
  rw [hpop, hcoarse]
  cases hpending : s.inbound.pending with
  | nil =>
      rw [hpending] at hrest
      simp [coarse, hrest, hpending]
  | cons cmd rest =>
      rw [hpending] at hrest
      simp [coarse, hrest]

theorem coarse_engineStep (api : EngineApi σ)
    (hin : s.inbound.Valid capacity.inbound) (hout : s.outbound.Valid capacity.outbound)
    {observed : Nat} (hobserved : s.inbound.items.length + s.outbound.items.length <= observed) :
    (s.engineStep capacity api observed).coarse = s.coarse.engineStep capacity api := by
  have hpopped : s.outbound.popped <= observed := by
    have hle := hout.popped_le
    omega
  have hcoarse : s.coarse.enginePhase = s.enginePhase := rfl
  unfold engineStep ServerState.engineStep
  rw [hcoarse]
  cases hphase : s.enginePhase with
  | polling => exact coarse_poll hin (by omega)
  | notifying => rfl
  | dispatching cmd => rfl
  | waiting tagged =>
      dsimp only
      rw [hout.seenSize_fresh hpopped]
      show coarse (ite _ _ _) = ite (capacity.outbound <= s.outbound.pending.length) _ _
      split
      · simp only [coarse, hphase]
        rfl
      · rfl
  | pushing tagged =>
      have hpush : (s.outbound.tryPush capacity.outbound observed tagged).2.pending =
          (tryPush capacity.outbound s.outbound.pending tagged).2 := by
        rw [(hout.tryPush_fresh hpopped tagged).right]
        unfold tryPush
        split <;> rfl
      exact congrArg (fun queue => { s.coarse with
        outbound := queue
        enginePhase := .noting }) hpush
  | noting => rfl

theorem coarse_ioStep (hout : s.outbound.Valid capacity.outbound)
    {observed : Nat} (hobserved : s.outbound.items.length <= observed) :
    (s.ioStep observed).coarse = s.coarse.ioStep := by
  rcases hout.tryPop_fresh hobserved with ⟨hpop, hrest⟩
  have hcoarse : s.coarse.ioPhase = s.ioPhase := rfl
  unfold ioStep ServerState.ioStep
  rw [hcoarse]
  cases s.ioPhase with
  | polling =>
      show coarse (ite (s.eventfd = 0) _ _) = ite (s.eventfd = 0) _ _
      split <;> rfl
  | draining =>
      have houtbound : s.coarse.outbound = s.outbound.pending := rfl
      dsimp only
      rw [hpop, houtbound]
      cases hpending : s.outbound.pending with
      | nil =>
          rw [hpending] at hrest
          simp [coarse, hrest, hpending]
      | cons resp rest =>
          rw [hpending] at hrest
          simp [coarse, hrest]

theorem coarse_frameHandler (hin : s.inbound.Valid capacity.inbound)
    {observed : Nat} (hobserved : s.inbound.items.length <= observed) (client : ClientId)
    (parsed : Except String EngineCommand) :
    (s.frameHandler capacity client parsed observed).coarse =
      s.coarse.frameHandler capacity client parsed := by
  cases parsed with
  | error message => rfl
  | ok command =>
      have hpopped : s.inbound.popped <= observed := Nat.le_trans hin.popped_le hobserved
      rcases hin.tryPush_fresh hpopped { client := client, command := command } with
        ⟨hok, hpending⟩
      have hcoarse : s.coarse.inbound = s.inbound.pending := rfl
      simp only [frameHandler, ServerState.frameHandler, tryPush, hcoarse, hok]
      by_cases hfull : capacity.inbound <= s.inbound.pending.length
      · rw [if_pos hfull] at hpending
        simp [coarse, hfull, Nat.not_lt.mpr hfull, hpending]
      · rw [if_neg hfull] at hpending
        simp [coarse, hfull, Nat.not_le.mp hfull, hpending]

theorem coarse_step (api : EngineApi σ)
    (hin : s.inbound.Valid capacity.inbound) (hout : s.outbound.Valid capacity.outbound)
    (a : Move) :
    (s.step capacity api (s.fresh a)).coarse = s.coarse.step capacity api a := by
  cases a with
  | engine => exact coarse_engineStep api hin hout (Nat.le_refl _)
  | io => exact coarse_ioStep hout (Nat.le_add_left _ _)
  | receive client parsed =>
      have hcoarse : s.coarse.ioPhase = s.ioPhase := rfl
      simp only [fresh, step, ServerState.step, hcoarse]
      cases s.ioPhase with
      | polling => exact coarse_frameHandler hin (Nat.le_add_right _ _) client parsed
      | draining => rfl

theorem run_coarse_from (api : EngineApi σ)
    (h : Routed capacity api engine dispatched s)
    (schedule : List Move) :
    exists moves, (s.run capacity api moves).coarse = s.coarse.run capacity api schedule := by
  induction schedule generalizing s dispatched with
  | nil => exact ⟨[], rfl⟩
  | cons a rest ih =>
      have hstep := coarse_step api h.inbound_valid h.outbound_valid a
      rcases routed_step h (s.fresh a) with ⟨dispatched', hrouted⟩
      rcases ih hrouted with ⟨moves, hmoves⟩
      refine ⟨s.fresh a :: moves, ?_⟩
      rw [hstep] at hmoves
      exact hmoves

/-- Every run of the coarse model is one of this model's. -/
theorem run_coarse (capacity : Capacities) (api : EngineApi σ) (engine : σ)
    (schedule : List Move) :
    exists moves, ((new engine).run capacity api moves).coarse =
      (ServerState.new engine).run capacity api schedule :=
  run_coarse_from api (routed_new capacity api engine) schedule

end RelaxedServer
end Server
end MiniExchange
