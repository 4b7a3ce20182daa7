import MiniExchange.Server.Wakeup

/-!
# No stranded response

The eventfd write is deferred, so a response may sit in the outbound queue
with nobody told about it.  Somebody always will be: the pending flag, a
thread between two accesses, or the eventfd counter still owes a drain.
-/

namespace MiniExchange
namespace Server

open Foundation

namespace ServerState

variable {σ : Type}

def OwesWakeup (s : ServerState σ) : Prop :=
  s.wakeup.pending = true ∨ s.enginePhase = .noting ∨
    s.enginePhase = .notifying

/-- The I/O thread is draining, or the eventfd will make it drain. -/
def Woken (s : ServerState σ) : Prop :=
  s.eventfd ≠ 0 ∨ s.ioPhase = .draining

def EngineIdle (s : ServerState σ) : Prop :=
  s.enginePhase = .polling ∧ s.inbound = [] ∧ s.wakeup.pending = false

def Announced (s : ServerState σ) : Prop :=
  s.outbound ≠ [] -> s.OwesWakeup ∨ s.Woken

theorem announced_new (engine : σ) : (new engine).Announced :=
  fun hqueued => absurd rfl hqueued

theorem EngineIdle.not_owesWakeup {s : ServerState σ} (h : s.EngineIdle) :
    ¬ s.OwesWakeup := by
  rcases h with ⟨hphase, -, hpending⟩
  rintro (hflag | hnoting | hnotifying)
  · rw [hpending] at hflag
    cases hflag
  · rw [hphase] at hnoting
    cases hnoting
  · rw [hphase] at hnotifying
    cases hnotifying

theorem Announced.woken {s : ServerState σ} (h : s.Announced) (hidle : s.EngineIdle)
    (hqueued : s.outbound ≠ []) : s.Woken := by
  rcases h hqueued with howes | hwoken
  · exact absurd howes hidle.not_owesWakeup
  · exact hwoken

/-!
## Every move keeps responses announced

The engine gives up a reason to notify only for a stronger one, and the I/O
thread leaves the drain handler only on an empty queue.
-/

theorem Announced.of_frame {s t : ServerState σ} (h : s.Announced)
    (hnoting : s.enginePhase ≠ .noting)
    (hnotifying : s.enginePhase ≠ .notifying)
    (houtbound : t.outbound = s.outbound) (hwakeup : t.wakeup = s.wakeup)
    (heventfd : t.eventfd = s.eventfd) (hio : t.ioPhase = s.ioPhase) : t.Announced := by
  intro hqueued
  rw [houtbound] at hqueued
  rcases h hqueued with (hflag | hphase | hphase) | hcounter | hdraining
  · exact Or.inl (Or.inl (hwakeup ▸ hflag))
  · exact absurd hphase hnoting
  · exact absurd hphase hnotifying
  · exact Or.inr (Or.inl (heventfd ▸ hcounter))
  · exact Or.inr (Or.inr (hio ▸ hdraining))

theorem announced_poll {s : ServerState σ} (hphase : s.enginePhase = .polling)
    (h : s.Announced) : s.poll.Announced := by
  rcases s with ⟨engine, inbound, outbound, eventfd, ⟨pending⟩, phase, ioPhase, sent⟩
  cases hphase
  cases inbound with
  | cons cmd rest =>
      exact h.of_frame EnginePhase.noConfusion EnginePhase.noConfusion rfl rfl rfl rfl
  | nil =>
      cases pending with
      | true => exact fun _ => Or.inl (Or.inr (Or.inr rfl))
      | false => exact h

theorem announced_engineStep (capacity : Capacities) (api : EngineApi σ)
    {s : ServerState σ} (h : s.Announced) : (s.engineStep capacity api).Announced := by
  rcases s with ⟨engine, inbound, outbound, eventfd, wakeup, phase, ioPhase, sent⟩
  cases phase with
  | polling => exact announced_poll rfl h
  | notifying =>
      have hwritten : eventfdWrite eventfd ≠ 0 := Nat.ne_of_gt (eventfdWrite_pos eventfd)
      exact fun _ => Or.inr (Or.inl hwritten)
  | dispatching cmd =>
      exact h.of_frame EnginePhase.noConfusion EnginePhase.noConfusion rfl rfl rfl rfl
  | waiting tagged =>
      simp only [engineStep]
      split
      · exact h
      · exact h.of_frame EnginePhase.noConfusion EnginePhase.noConfusion rfl rfl rfl rfl
  | pushing tagged => exact fun _ => Or.inl (Or.inr (Or.inl rfl))
  | noting => exact fun _ => Or.inl (Or.inl rfl)

theorem announced_ioStep {s : ServerState σ} (h : s.Announced) : s.ioStep.Announced := by
  rcases s with ⟨engine, inbound, outbound, eventfd, wakeup, phase, ioPhase, sent⟩
  cases ioPhase with
  | polling =>
      simp only [ioStep]
      split
      · exact h
      · exact fun _ => Or.inr (Or.inr rfl)
  | draining =>
      cases outbound with
      | nil => exact fun hqueued => absurd rfl hqueued
      | cons resp rest => exact fun _ => Or.inr (Or.inr rfl)

theorem frameHandler_wakeup (capacity : Capacities) (client : ClientId)
    (parsed : Except String EngineCommand) (s : ServerState σ) :
    (s.frameHandler capacity client parsed).wakeup = s.wakeup := by
  unfold frameHandler
  cases parsed with
  | error message => rfl
  | ok command =>
      dsimp only
      split <;> rfl

theorem announced_frameHandler (capacity : Capacities) {s : ServerState σ} (client : ClientId)
    (parsed : Except String EngineCommand) (h : s.Announced) :
    (s.frameHandler capacity client parsed).Announced := by
  rcases frameHandler_frame capacity client parsed s with ⟨hphase, hout, hcounter, hio⟩
  intro hqueued
  rw [hout] at hqueued
  simp only [OwesWakeup, Woken, frameHandler_wakeup, hphase, hcounter, hio]
  exact h hqueued

theorem announced_step (capacity : Capacities) (api : EngineApi σ) (s : ServerState σ)
    (a : Move) (h : s.Announced) : (s.step capacity api a).Announced := by
  cases a with
  | engine => exact announced_engineStep capacity api h
  | io => exact announced_ioStep h
  | receive client parsed =>
      simp only [step]
      split
      · exact announced_frameHandler capacity client parsed h
      · exact h

theorem announced_run (capacity : Capacities) (api : EngineApi σ) (engine : σ)
    (schedule : List Move) : ((new engine).run capacity api schedule).Announced :=
  Machine.run_invariant (announced_step capacity api) (announced_new engine) schedule

/-!
## A woken I/O thread drains everything

This is what being announced is worth: left alone, the I/O thread hands every
queued response to its client.
-/

theorem run_io_draining (capacity : Capacities) (api : EngineApi σ) {s : ServerState σ}
    (hdraining : s.ioPhase = .draining) :
    s.run capacity api (List.replicate (s.outbound.length + 1) .io) =
      { s with
        outbound := []
        ioPhase := .polling
        sent := s.sent ++
          s.outbound.map fun resp => (resp.client, .response resp.response) } := by
  rcases s with ⟨engine, inbound, outbound, eventfd, wakeup, phase, ioPhase, sent⟩
  cases hdraining
  induction outbound generalizing sent with
  | nil => simp [run, Machine.run, step, ioStep]
  | cons resp rest ih =>
      have hrest := ih (sent ++ [(resp.client, .response resp.response)])
      rw [List.append_assoc] at hrest
      exact hrest

theorem idle_drains (capacity : Capacities) (api : EngineApi σ) (engine : σ)
    (schedule : List Move)
    (hidle : ((new engine).run capacity api schedule).EngineIdle) :
    exists n, (((new engine).run capacity api schedule).run capacity api
        (List.replicate n .io)).outbound = [] ∧
      (((new engine).run capacity api schedule).run capacity api
        (List.replicate n .io)).sent =
          ((new engine).run capacity api schedule).sent ++
            ((new engine).run capacity api schedule).outbound.map fun resp =>
              (resp.client, .response resp.response) := by
  have hannounced := announced_run capacity api engine schedule
  generalize (new engine).run capacity api schedule = s at hidle hannounced ⊢
  by_cases hqueued : s.outbound = []
  · exact ⟨0, hqueued, by rw [hqueued]; exact (List.append_nil _).symm⟩
  · have hwoken := hannounced.woken hidle hqueued
    cases hio : s.ioPhase with
    | draining =>
        refine ⟨s.outbound.length + 1, ?_⟩
        rw [run_io_draining capacity api hio]
        exact ⟨rfl, rfl⟩
    | polling =>
        have hcounter : s.eventfd ≠ 0 := by
          rcases hwoken with hcounter | hdraining
          · exact hcounter
          · rw [hio] at hdraining
            cases hdraining
        refine ⟨s.outbound.length + 1 + 1, ?_⟩
        have hwake : s.step capacity api .io =
            { s with eventfd := 0, ioPhase := .draining } := by
          simp only [step, ioStep, hio]
          exact if_neg hcounter
        have hrun := run_io_draining capacity api
          (s := { s with eventfd := 0, ioPhase := .draining }) rfl
        simp only [run, List.replicate_succ, Machine.run, hwake] at hrun ⊢
        rw [hrun]
        exact ⟨rfl, rfl⟩

/--
A response in the outbound queue is covered in every reachable state, and once
the engine is idle it is covered by the eventfd or by the drain handler.
-/
theorem queued_response_is_covered (capacity : Capacities) (api : EngineApi σ)
    (engine : σ) (schedule : List Move) :
    (((new engine).run capacity api schedule).outbound ≠ [] ->
        ((new engine).run capacity api schedule).OwesWakeup ∨
          ((new engine).run capacity api schedule).Woken) ∧
      (((new engine).run capacity api schedule).EngineIdle ->
        ((new engine).run capacity api schedule).outbound ≠ [] ->
          ((new engine).run capacity api schedule).Woken) := by
  have hannounced := announced_run capacity api engine schedule
  exact ⟨hannounced, hannounced.woken⟩

end ServerState
end Server
end MiniExchange
