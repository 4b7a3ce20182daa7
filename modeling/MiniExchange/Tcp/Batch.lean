import MiniExchange.Tcp.Connections

/-!
# Batches of events

`epoll_wait` copies out up to 64 events before the first is handled.  An event
can close the descriptor of a later one, and `accept4` can hand that number
out again within the batch, so that the later event meets another client's
connection.
-/

namespace MiniExchange
namespace Tcp

open Foundation

namespace TcpServer

variable {κ : Type} {s t : TcpServer κ} {fd : Fd}

def SameClient (s t : TcpServer κ) (fd : Fd) : Prop :=
  forall conn, t.connections fd = some conn ->
    exists old, s.connections fd = some old ∧ old.id = conn.id

theorem sameClient_refl (s : TcpServer κ) (fd : Fd) : SameClient s s fd :=
  fun conn hconn => ⟨conn, hconn, rfl⟩

theorem SameClient.trans {u : TcpServer κ} (hst : SameClient s t fd) (htu : SameClient t u fd) :
    SameClient s u fd := by
  intro conn hconn
  rcases htu conn hconn with ⟨middle, hmiddle, hid⟩
  rcases hst middle hmiddle with ⟨old, hold, hid'⟩
  exact ⟨old, hold, hid'.trans hid⟩

theorem sameClient_setConnection {other : Fd} {old conn : Connection}
    (hold : s.connections other = some old) (hid : conn.id = old.id) :
    SameClient s (s.setConnection other conn) fd := by
  intro found hfound
  rcases connections_setConnection hfound with ⟨rfl, rfl⟩ | ⟨-, hkept⟩
  · exact ⟨old, hold, hid.symm⟩
  · exact ⟨found, hkept, rfl⟩

theorem sameClient_acceptOne {other : Fd} {nodelay registered : Bool}
    (hne : nodelay = true -> registered = true -> other ≠ fd) :
    SameClient s (s.acceptOne other nodelay registered) fd := by
  rcases acceptOne_cases s other nodelay registered with hskip | ⟨hopened, -⟩
  · rw [hskip]
    exact sameClient_refl s fd
  · cases nodelay with
    | false =>
        intro conn hconn
        simp only [acceptOne, hopened, if_true] at hconn
        exact ⟨conn, hconn, rfl⟩
    | true =>
        intro conn hconn
        unfold acceptOne at hconn
        rw [hopened] at hconn
        by_cases hfd : fd = other
        · cases registered with
          | true => exact absurd hfd.symm (hne rfl rfl)
          | false =>
              have hnone : Function.update
                  (emplace s.connections other { fd := other, id := ⟨s.nextClientId⟩ })
                  other none fd = some conn := hconn
              rw [hfd, Function.update_self] at hnone
              cases hnone
        · have hkept : s.connections fd = some conn := by
            rw [← emplace_of_ne hfd s.connections { fd := other, id := ⟨s.nextClientId⟩ }]
            cases registered with
            | true => exact hconn
            | false =>
                have hupdate : Function.update
                    (emplace s.connections other { fd := other, id := ⟨s.nextClientId⟩ })
                    other none fd = some conn := hconn
                rwa [Function.update_of_ne hfd] at hupdate
          exact ⟨conn, hkept, rfl⟩

theorem ServerStep.sameClient {may : Fd -> Prop} (hstep : ServerStep may s t) (hfd : ¬ may fd) :
    SameClient s t fd := by
  cases hstep with
  | outbound hout =>
      cases hout with
      | write hold buffer => exact sameClient_setConnection hold rfl
      | close closed =>
          intro conn hconn
          exact ⟨conn, (connections_of_closeConnection hconn).right, rfl⟩
      | kernel => exact fun conn hconn => ⟨conn, hconn, rfl⟩
  | receive hold buffer => exact sameClient_setConnection hold rfl
  | note => exact fun conn hconn => ⟨conn, hconn, rfl⟩
  | accept hmay =>
      refine sameClient_acceptOne ?_
      rintro hnodelay hregistered rfl
      exact hfd (hmay hnodelay hregistered)

theorem ServerSteps.sameClient {may : Fd -> Prop} (hsteps : ServerSteps may s t)
    (hfd : ¬ may fd) : SameClient s t fd := by
  induction hsteps with
  | refl => exact sameClient_refl s fd
  | tail _ hstep ih => exact ih.trans (hstep.sameClient hfd)

theorem sameClient_handleBatch (h : Handlers κ) {events : List EpollEvent}
    (hfresh : forall event, event ∈ events -> event.fd = s.listenerFd ->
      fd ∉ keptFds event.accepts) : SameClient s (s.handleBatch h events) fd := by
  induction events generalizing s with
  | nil => exact sameClient_refl s fd
  | cons event events ih =>
      have hsteps : ServerSteps (fun other => other ≠ fd) s (s.handleEvent h event) := by
        refine steps_handleEvent h s ?_
        rintro hlistener other hother rfl
        exact hfresh event List.mem_cons_self hlistener hother
      have hone : SameClient s (s.handleEvent h event) fd :=
        hsteps.sameClient (fun hne => hne rfl)
      refine hone.trans (ih ?_)
      intro later hlater hlistener
      rw [hsteps.setup.left] at hlistener
      exact hfresh later (List.mem_cons_of_mem _ hlater) hlistener

/-- Every client event of a batch meets the connection it was reported for, or none. -/
def HitsReported (h : Handlers κ) (s : TcpServer κ) (events : List EpollEvent) : Prop :=
  forall v, v ∈ Machine.visits (handleEvent h) s events ->
    v.2.fd ≠ s.listenerFd -> v.2.fd ≠ s.eventfd -> SameClient s v.1 v.2.fd

/-- No connection is kept under a descriptor for which the batch holds a later event. -/
def NoReuse (s : TcpServer κ) (events : List EpollEvent) : Prop :=
  forall before event after, events = before ++ event :: after ->
    forall earlier, earlier ∈ before -> earlier.fd = s.listenerFd ->
      event.fd ∉ keptFds earlier.accepts

end TcpServer

open TcpServer

/--
The events of a batch hit only the connections they were reported for, unless
`accept4` hands out the descriptor of a later event of the same batch.
-/
theorem events_hit_reported_connections {κ : Type} (h : Handlers κ) (s : TcpServer κ)
    (events : List EpollEvent) (hfresh : NoReuse s events) : HitsReported h s events := by
  intro v hv _ _
  rcases (Machine.mem_visits_iff (handleEvent h)).mp hv with ⟨before, after, hsplit, hstate⟩
  rw [hstate]
  exact sameClient_handleBatch h fun earlier hearlier hlistener =>
    hfresh before v.2 after hsplit earlier hearlier hlistener

namespace OneClient

def answering : Handlers Unit where
  frame := fun app _ _ => (app, [])
  drain := fun app => (app, [(⟨1⟩, [7])])

def resetServer : TcpServer Unit :=
  { server with sends := [.failed] }

def drainEvent : EpollEvent where
  fd := 4
  readable := true

/-- `accept4` hands out a descriptor. -/
def acceptEvent (fd : Fd) : EpollEvent where
  fd := 3
  readable := true
  accepts := [.accepted fd true true]

def hangupEvent : EpollEvent where
  fd := 5
  hangup := true

theorem hits_reported_six :
    HitsReported answering resetServer [drainEvent, acceptEvent 6, hangupEvent] := by
  refine events_hit_reported_connections answering resetServer _ ?_
  intro before event after hsplit earlier hearlier hlistener hkept
  have hevent : event ∈ [drainEvent, acceptEvent 6, hangupEvent] := by
    rw [hsplit]
    exact List.mem_append_right _ List.mem_cons_self
  have hmem : earlier ∈ [drainEvent, acceptEvent 6, hangupEvent] := by
    rw [hsplit]
    exact List.mem_append_left _ hearlier
  have hnone : forall e, e ∈ [drainEvent, acceptEvent 6, hangupEvent] ->
      forall e', e' ∈ [drainEvent, acceptEvent 6, hangupEvent] -> e.fd ∉ keptFds e'.accepts := by
    decide
  exact hnone event hevent earlier hmem hkept

/--
Draining closes descriptor 5, `accept4` hands it to client 2, and the hangup
that was reported for client 1 closes the connection of client 2.
-/
theorem hangup_hits_other_client :
    ¬ HitsReported answering resetServer [drainEvent, acceptEvent 5, hangupEvent] ∧
      (resetServer.handleBatch answering [drainEvent, acceptEvent 5]).connections 5 =
        some { fd := 5, id := ⟨2⟩ } ∧
      (resetServer.handleBatch answering
        [drainEvent, acceptEvent 5, hangupEvent]).connections 5 = none := by
  refine ⟨?_, rfl, rfl⟩
  intro hhits
  have hvisit : (resetServer.handleBatch answering [drainEvent, acceptEvent 5], hangupEvent) ∈
      Machine.visits (handleEvent answering) resetServer
        [drainEvent, acceptEvent 5, hangupEvent] :=
    (Machine.mem_visits_iff _).mpr ⟨[drainEvent, acceptEvent 5], [], rfl, rfl⟩
  rcases hhits _ hvisit (by decide) (by decide) { fd := 5, id := ⟨2⟩ } rfl with ⟨old, hold, hid⟩
  have hfirst : some client = some old := hold
  cases hfirst
  revert hid
  decide

end OneClient

end Tcp
end MiniExchange
