import MiniExchange.Engine.MatchingEngine
import MiniExchange.Server.EngineLoop

/-!
# Wakeup protocol

The engine thread defers its eventfd write to the moment the inbound queue
reads empty, and spins while the outbound queue is full.  If the inbound queue
never reads empty, the responses that fill the outbound queue are responses
nobody was told about, and the server wedges.  It does not when the engine
pops each command with fewer than a queue of responses behind the last write.
-/

namespace MiniExchange
namespace Server

open Foundation

namespace ServerState

variable {σ : Type}

/-- The engine waits for outbound space, and nothing will make the I/O thread drain. -/
def Wedged (capacity : Capacities) (s : ServerState σ) : Prop :=
  (exists tagged, s.enginePhase = .waiting tagged) ∧
    capacity.outbound <= s.outbound.length ∧ s.eventfd = 0 ∧
    s.ioPhase ≠ .draining

/-!
## A wedged server stays wedged

The engine spins, the eventfd never fires, and frames only reach the inbound
queue.
-/

theorem frameHandler_frame (capacity : Capacities) (client : ClientId)
    (parsed : Except String EngineCommand) (s : ServerState σ) :
    (s.frameHandler capacity client parsed).enginePhase = s.enginePhase ∧
      (s.frameHandler capacity client parsed).outbound = s.outbound ∧
      (s.frameHandler capacity client parsed).eventfd = s.eventfd ∧
      (s.frameHandler capacity client parsed).ioPhase = s.ioPhase := by
  unfold frameHandler
  cases parsed with
  | error message => exact ⟨rfl, rfl, rfl, rfl⟩
  | ok command =>
      dsimp only
      split <;> exact ⟨rfl, rfl, rfl, rfl⟩

theorem step_wedged (capacity : Capacities) (api : EngineApi σ) (s : ServerState σ)
    (a : Move) (hwedged : s.Wedged capacity) :
    (s.step capacity api a).Wedged capacity := by
  have hkept := hwedged
  rcases hwedged with ⟨⟨tagged, hphase⟩, hfull, hcounter, hio⟩
  cases a with
  | engine =>
      have hspin : s.engineStep capacity api = s := by
        simp only [engineStep, hphase]
        exact if_pos hfull
      show (s.engineStep capacity api).Wedged capacity
      rwa [hspin]
  | io =>
      have hidle : s.ioStep = s := by
        cases hpolling : s.ioPhase with
        | polling => simp [ioStep, hpolling, hcounter]
        | draining => exact absurd hpolling hio
      show s.ioStep.Wedged capacity
      rwa [hidle]
  | receive client parsed =>
      have hframe := frameHandler_frame capacity client parsed s
      cases hpolling : s.ioPhase with
      | draining => exact absurd hpolling hio
      | polling =>
          simp only [step, hpolling, Wedged]
          rw [hframe.left, hframe.right.left, hframe.right.right.left,
            hframe.right.right.right]
          exact hkept

theorem run_wedged (capacity : Capacities) (api : EngineApi σ) {s : ServerState σ}
    (hwedged : s.Wedged capacity) (schedule : List Move) :
    (s.run capacity api schedule).Wedged capacity :=
  Machine.run_invariant (step_wedged capacity api) hwedged schedule

end ServerState

/-!
## A schedule that wedges

One command is received while the previous one is being executed, so that the
engine finds the inbound queue non-empty every time it looks.
-/

section Wedging

variable {σ : Type} (capacity : Capacities) (api : EngineApi σ) (cmd : TaggedCommand)

structure Loaded (n : Nat) (s : ServerState σ) : Prop where
  enginePhase : s.enginePhase = .polling
  ioPhase : s.ioPhase = .polling
  inbound : s.inbound = [cmd]
  outbound : s.outbound.length = n
  eventfd : s.eventfd = 0

def arrival : Move :=
  .receive cmd.client (.ok cmd.command)

def busyTurn : List Move :=
  [.engine, arrival cmd, .engine, .engine, .engine, .engine]

/-- The first command, and `n` turns in which the next one is always there. -/
def busySchedule (n : Nat) : List Move :=
  arrival cmd :: (List.replicate n (busyTurn cmd)).flatten

variable {capacity cmd}

theorem loaded_start (engine : σ) (hin : 0 < capacity.inbound) :
    Loaded cmd 0 ((ServerState.new engine).step capacity api (arrival cmd)) := by
  have hpush : tryPush capacity.inbound [] cmd = (true, [cmd]) := tryPush_of_lt cmd hin
  simp only [arrival, ServerState.step, ServerState.new, ServerState.frameHandler, hpush]
  exact ⟨rfl, rfl, rfl, rfl, rfl⟩

theorem loaded_turn {n : Nat} {s : ServerState σ} (hin : 0 < capacity.inbound)
    (hout : n < capacity.outbound) (h : Loaded cmd n s) :
    Loaded cmd (n + 1) (s.run capacity api (busyTurn cmd)) := by
  rcases s with ⟨engine, inbound, outbound, eventfd, wakeup, enginePhase, ioPhase, sent⟩
  rcases h with ⟨rfl, rfl, rfl, rfl, rfl⟩
  have hpush : tryPush capacity.inbound [] cmd = (true, [cmd]) := tryPush_of_lt cmd hin
  have hroom : ¬ capacity.outbound <= outbound.length := Nat.not_le.mpr hout
  have hanswer := fun tagged => tryPush_of_lt tagged hout
  simp only [ServerState.run, busyTurn, arrival, Machine.run, ServerState.step,
    ServerState.engineStep, ServerState.poll, ServerState.frameHandler, hpush, hanswer,
    if_neg hroom, if_true]
  exact ⟨rfl, rfl, rfl, List.length_append, rfl⟩

theorem loaded_turns {n : Nat} {s : ServerState σ} (hin : 0 < capacity.inbound)
    (hout : n <= capacity.outbound) (h : Loaded cmd 0 s) :
    Loaded cmd n (s.run capacity api (List.replicate n (busyTurn cmd)).flatten) := by
  induction n with
  | zero => exact h
  | succ n ih =>
      have hloaded := loaded_turn api hin (Nat.lt_of_succ_le hout) (ih (Nat.le_of_succ_le hout))
      rw [List.replicate_succ', List.flatten_append, List.flatten_singleton]
      unfold ServerState.run at hloaded ⊢
      rwa [Machine.run_append]

theorem wedged_of_loaded {s : ServerState σ} (h : Loaded cmd capacity.outbound s) :
    (s.run capacity api [.engine, .engine]).Wedged capacity := by
  rcases s with ⟨engine, inbound, outbound, eventfd, wakeup, enginePhase, ioPhase, sent⟩
  rcases h with ⟨rfl, rfl, rfl, hfull, rfl⟩
  exact ⟨⟨_, rfl⟩, Nat.le_of_eq hfull.symm, rfl, IoPhase.noConfusion⟩

/-- Every server whose queues have any room at all can wedge, whatever its engine. -/
theorem busySchedule_wedges (engine : σ) (hin : 0 < capacity.inbound) :
    ((ServerState.new engine).run capacity api
      (busySchedule cmd capacity.outbound ++ [.engine, .engine])).Wedged
        capacity := by
  have hstart : Loaded cmd 0 ((ServerState.new engine).step capacity api (arrival cmd)) :=
    loaded_start api engine hin
  have hloaded := loaded_turns api hin (Nat.le_refl capacity.outbound) hstart
  have hwedged := wedged_of_loaded api hloaded
  unfold ServerState.run at hwedged ⊢
  rw [Machine.run_append]
  exact hwedged

end Wedging

def sampleCancel : TaggedCommand where
  client := ⟨1⟩
  command := .cancel ⟨7⟩

/-- The engine of `main`, without the risk layer. -/
def serverEngine : MatchingEngine :=
  MatchingEngine.new Memory.zeroed 1000000
    { enabled := true, policy := .rejectIncoming }

/-- The server wedges on a client that keeps one command ahead of the engine. -/
theorem server_wedges :
    ((ServerState.new serverEngine).run serverCapacities MatchingEngine.api
      (busySchedule sampleCancel 65536 ++ [.engine, .engine])).Wedged
        serverCapacities :=
  busySchedule_wedges MatchingEngine.api serverEngine (by decide)

/-!
## Bursts shorter than the outbound queue

Unless a wakeup is on its way, everything in the outbound queue was pushed
after the last eventfd write.
-/

/-- The server, and the number of responses pushed since the last eventfd write. -/
structure Watched (σ : Type) where
  server : ServerState σ
  burst : Nat := 0

namespace Watched

variable {σ : Type}

def burstAfter (w : Watched σ) : Move -> Nat
  | .engine =>
      match w.server.enginePhase with
      | .pushing _ => w.burst + 1
      | .notifying => 0
      | _ => w.burst
  | _ => w.burst

def step (capacity : Capacities) (api : EngineApi σ) (w : Watched σ) (a : Move) :
    Watched σ where
  server := w.server.step capacity api a
  burst := w.burstAfter a

def popsCommand (w : Watched σ) : Bool :=
  match w.server.enginePhase, w.server.inbound with
  | .polling, _ :: _ => true
  | _, _ => false

/-- A move that pops a command does so before the burst has filled a queue. -/
def InTime (capacity : Capacities) (w : Watched σ) : Move -> Prop
  | .engine => w.popsCommand = true -> w.burst < capacity.outbound
  | _ => True

instance (capacity : Capacities) (w : Watched σ) (a : Move) :
    Decidable (w.InTime capacity a) :=
  match a with
  | .engine =>
      inferInstanceAs (Decidable (w.popsCommand = true -> w.burst < capacity.outbound))
  | .io => isTrue trivial
  | .receive _ _ => isTrue trivial

def HoldsCommand : EnginePhase -> Prop
  | .dispatching _ => True
  | .waiting _ => True
  | .pushing _ => True
  | _ => False

structure Covered (capacity : Capacities) (w : Watched σ) : Prop where
  unannounced : w.server.ioPhase = .draining ∨ 0 < w.server.eventfd ∨
    w.server.outbound.length <= w.burst
  short : HoldsCommand w.server.enginePhase -> w.burst < capacity.outbound

theorem covered_new (capacity : Capacities) (engine : σ) :
    Covered capacity ({ server := ServerState.new engine } : Watched σ) where
  unannounced := Or.inr (Or.inr (Nat.le_refl 0))
  short := False.elim

theorem covered_engineStep {capacity : Capacities} (api : EngineApi σ) {w : Watched σ}
    (h : w.Covered capacity) (htime : w.InTime capacity .engine) :
    (w.step capacity api .engine).Covered capacity := by
  rcases w with ⟨⟨engine, inbound, outbound, eventfd, wakeup, phase, ioPhase, sent⟩, burst⟩
  rcases h with ⟨hunannounced, hshort⟩
  cases phase with
  | polling =>
      cases inbound with
      | nil =>
          refine ⟨hunannounced, ?_⟩
          intro hholds
          -- The engine is back at its loop head or about to notify.
          have hphase : HoldsCommand (if wakeup.shouldNotifyOnIdle.1 then .notifying
            else .polling) := hholds
          split at hphase <;> exact hphase.elim
      | cons cmd rest => exact ⟨hunannounced, fun _ => htime rfl⟩
  | notifying => exact ⟨Or.inr (Or.inl (eventfdWrite_pos eventfd)), False.elim⟩
  | dispatching cmd => exact ⟨hunannounced, fun _ => hshort trivial⟩
  | waiting tagged =>
      simp only [step, ServerState.step, ServerState.engineStep, burstAfter]
      split
      · exact ⟨hunannounced, hshort⟩
      · exact ⟨hunannounced, fun _ => hshort trivial⟩
  | pushing tagged =>
      refine ⟨?_, False.elim⟩
      rcases hunannounced with hdraining | hcounter | hlength
      · exact Or.inl hdraining
      · exact Or.inr (Or.inl hcounter)
      · have hpushed := length_tryPush_le capacity.outbound outbound tagged
        exact Or.inr (Or.inr (Nat.le_trans hpushed (Nat.succ_le_succ hlength)))
  | noting => exact ⟨hunannounced, False.elim⟩

theorem covered_ioStep {capacity : Capacities} (api : EngineApi σ) {w : Watched σ}
    (h : w.Covered capacity) : (w.step capacity api .io).Covered capacity := by
  rcases w with ⟨⟨engine, inbound, outbound, eventfd, wakeup, phase, ioPhase, sent⟩, burst⟩
  rcases h with ⟨hunannounced, hshort⟩
  cases ioPhase with
  | polling =>
      simp only [step, ServerState.step, ServerState.ioStep, burstAfter]
      split
      · exact ⟨hunannounced, hshort⟩
      · exact ⟨Or.inl rfl, hshort⟩
  | draining =>
      cases outbound with
      | nil => exact ⟨Or.inr (Or.inr (Nat.zero_le burst)), hshort⟩
      | cons resp rest => exact ⟨Or.inl rfl, hshort⟩

theorem covered_receive {capacity : Capacities} (api : EngineApi σ) {w : Watched σ}
    (client : ClientId) (parsed : Except String EngineCommand) (h : w.Covered capacity) :
    (w.step capacity api (.receive client parsed)).Covered capacity := by
  have hframe := ServerState.frameHandler_frame capacity client parsed w.server
  rcases h with ⟨hunannounced, hshort⟩
  cases hio : w.server.ioPhase with
  | polling =>
      constructor
      · simp only [step, ServerState.step, hio]
        rw [hframe.right.right.right, hframe.right.right.left, hframe.right.left]
        exact hunannounced
      · simp only [step, ServerState.step, hio]
        rw [hframe.left]
        exact hshort
  | draining =>
      constructor
      · simp only [step, ServerState.step, hio]
        exact Or.inl trivial
      · simp only [step, ServerState.step, hio]
        exact hshort

theorem covered_step {capacity : Capacities} (api : EngineApi σ) (w : Watched σ) (a : Move)
    (h : w.Covered capacity) (htime : w.InTime capacity a) :
    (w.step capacity api a).Covered capacity := by
  cases a with
  | engine => exact covered_engineStep api h htime
  | io => exact covered_ioStep api h
  | receive client parsed => exact covered_receive api client parsed h

theorem Covered.not_wedged {capacity : Capacities} {w : Watched σ}
    (h : w.Covered capacity) : ¬ w.server.Wedged capacity := by
  rintro ⟨⟨tagged, hphase⟩, hfull, hcounter, hio⟩
  have hburst : w.burst < capacity.outbound := h.short (by rw [hphase]; trivial)
  rcases h.unannounced with hdraining | hpositive | hlength
  · exact hio hdraining
  · omega
  · omega

end Watched

def ShortBursts {σ : Type} (capacity : Capacities) (api : EngineApi σ) (engine : σ)
    (schedule : List Move) : Prop :=
  forall v, v ∈ Machine.visits (Watched.step capacity api)
      { server := ServerState.new engine } schedule -> v.1.InTime capacity v.2

/--
No state of a run is wedged if every command of the run is popped with fewer
responses pushed since the last eventfd write than the outbound queue holds.
-/
theorem not_wedged_of_shortBursts {σ : Type} (capacity : Capacities) (api : EngineApi σ)
    (engine : σ) (reached rest : List Move)
    (hbursts : ShortBursts capacity api engine (reached ++ rest)) :
    ¬ ((ServerState.new engine).run capacity api reached).Wedged capacity := by
  let start : Watched σ := { server := ServerState.new engine }
  have hreached : forall v, v ∈ Machine.visits (Watched.step capacity api) start reached ->
      v.1.InTime capacity v.2 := by
    intro v hv
    apply hbursts v
    rw [Machine.visits_append]
    exact List.mem_append_left _ hv
  have hcovered := Machine.run_invariant_of (Watched.covered_step api)
    (Watched.covered_new capacity engine) hreached
  have hserver : (Machine.run (Watched.step capacity api) start reached).server =
      (ServerState.new engine).run capacity api reached :=
    Machine.run_map (fun w a => rfl) start reached
  rw [← hserver]
  exact hcovered.not_wedged

def notifiedSchedule : List Move :=
  [arrival sampleCancel] ++ List.replicate 7 .engine ++
    [arrival sampleCancel, .engine, .engine]

/-- The engine waits on a full queue with the wakeup already issued. -/
theorem not_wedged_notifiedSchedule :
    ShortBursts { inbound := 1, outbound := 1 } MatchingEngine.api serverEngine
        notifiedSchedule ∧
      ¬ ((ServerState.new serverEngine).run { inbound := 1, outbound := 1 }
        MatchingEngine.api notifiedSchedule).Wedged { inbound := 1, outbound := 1 } := by
  have hbursts : ShortBursts { inbound := 1, outbound := 1 } MatchingEngine.api serverEngine
      (notifiedSchedule ++ []) := by
    unfold ShortBursts
    decide +kernel
  exact ⟨hbursts, not_wedged_of_shortBursts { inbound := 1, outbound := 1 }
    MatchingEngine.api serverEngine notifiedSchedule [] hbursts⟩

end Server
end MiniExchange
