import MiniExchange.Tcp.TcpServer

/-!
# Steps of the TCP server

Every operation of the server is a sequence of small steps.  `Outbound` lists
what writing to clients can do, `ServerStep` what handling events can do; what
holds over whole runs is proved for these steps only.
-/

namespace MiniExchange
namespace Tcp

open Foundation

namespace TcpServer

variable {κ : Type}

inductive Outbound : TcpServer κ -> TcpServer κ -> Prop where
  | write {s : TcpServer κ} {fd : Fd} {old : Connection} (h : s.connections fd = some old)
      (buffer : Bytes) : Outbound s (s.setConnection fd { old with writeBuffer := buffer })
  | close (s : TcpServer κ) (fd : Fd) : Outbound s (s.closeConnection fd)
  | kernel (s : TcpServer κ) (interest : Fd -> Option Bool) (sends : List SendAnswer)
      (taken : ClientId -> Bytes) :
      Outbound s { s with interest := interest, sends := sends, taken := taken }

/-- What handling an event does; a new connection is kept only where `may` says so. -/
inductive ServerStep (may : Fd -> Prop) : TcpServer κ -> TcpServer κ -> Prop where
  | outbound {s t : TcpServer κ} (h : Outbound s t) : ServerStep may s t
  | receive {s : TcpServer κ} {fd : Fd} {old : Connection} (h : s.connections fd = some old)
      (buffer : Bytes) :
      ServerStep may s (s.setConnection fd { old with readBuffer := buffer })
  | note (s : TcpServer κ) (app : κ) (processed : List (ClientId × Bytes)) (dangling : Bool) :
      ServerStep may s { s with app := app, processed := processed, dangling := dangling }
  | accept (s : TcpServer κ) {fd : Fd} {nodelay registered : Bool}
      (h : nodelay = true -> registered = true -> may fd) :
      ServerStep may s (s.acceptOne fd nodelay registered)

def Outbounds : TcpServer κ -> TcpServer κ -> Prop :=
  Relation.ReflTransGen Outbound

def ServerSteps (may : Fd -> Prop) : TcpServer κ -> TcpServer κ -> Prop :=
  Relation.ReflTransGen (ServerStep may)

theorem Outbounds.serverSteps {may : Fd -> Prop} {s t : TcpServer κ} (h : Outbounds s t) :
    ServerSteps may s t := by
  induction h with
  | refl => exact Relation.ReflTransGen.refl
  | tail _ hstep ih => exact ih.tail (.outbound hstep)

theorem ServerSteps.setup {may : Fd -> Prop} {s t : TcpServer κ} (h : ServerSteps may s t) :
    t.listenerFd = s.listenerFd ∧ t.eventfd = s.eventfd ∧
      t.maxWriteBufferBytes = s.maxWriteBufferBytes := by
  induction h with
  | refl => exact ⟨rfl, rfl, rfl⟩
  | tail _ hstep ih =>
      rcases ih with ⟨hlistener, heventfd, hbound⟩
      rw [← hlistener, ← heventfd, ← hbound]
      cases hstep with
      | outbound hout =>
          cases hout with
          | write => exact ⟨rfl, rfl, rfl⟩
          | close fd =>
              unfold closeConnection
              dsimp only
              split <;> exact ⟨rfl, rfl, rfl⟩
          | kernel => exact ⟨rfl, rfl, rfl⟩
      | receive => exact ⟨rfl, rfl, rfl⟩
      | note => exact ⟨rfl, rfl, rfl⟩
      | accept =>
          unfold acceptOne
          dsimp only
          split
          · exact ⟨rfl, rfl, rfl⟩
          · split
            · exact ⟨rfl, rfl, rfl⟩
            · split <;> exact ⟨rfl, rfl, rfl⟩

/-!
## Writing
-/

theorem outbounds_setEpollout (s : TcpServer κ) (fd : Fd) (armed : Bool) :
    Outbounds s (s.setEpollout fd armed) :=
  Relation.ReflTransGen.single (.kernel s _ s.sends s.taken)

theorem outbounds_flushWriteBuffer (s : TcpServer κ) (fd : Fd) :
    Outbounds s (s.flushWriteBuffer fd) := by
  unfold flushWriteBuffer
  cases hconn : s.connections fd with
  | none => exact Relation.ReflTransGen.refl
  | some conn =>
      dsimp only
      have hflushed := (Relation.ReflTransGen.single
        (Outbound.write hconn (flushLoop conn.writeBuffer s.sends).left)).tail
        (.kernel _ s.interest (flushLoop conn.writeBuffer s.sends).answers
          (Function.update s.taken conn.id
            (s.taken conn.id ++ (flushLoop conn.writeBuffer s.sends).taken)))
      split
      · exact hflushed.trans (outbounds_setEpollout _ fd false)
      · exact hflushed.trans (outbounds_setEpollout _ fd true)
      · exact hflushed.tail (.close _ fd)

theorem outbounds_sendToClient (s : TcpServer κ) (client : ClientId) (data : Bytes) :
    Outbounds s (s.sendToClient client data) := by
  unfold sendToClient
  cases s.clientToFd client with
  | none => exact Relation.ReflTransGen.refl
  | some fd =>
      dsimp only
      cases hconn : s.connections fd with
      | none => exact Relation.ReflTransGen.refl
      | some conn =>
          dsimp only
          have hwritten := Relation.ReflTransGen.single
            (Outbound.write hconn (conn.writeBuffer ++ data))
          split
          · exact hwritten.tail (.close _ fd)
          · exact hwritten.trans (outbounds_flushWriteBuffer _ fd)

theorem outbounds_sendAll (s : TcpServer κ) (out : List Outgoing) :
    Outbounds s (s.sendAll out) :=
  Machine.run_invariant (fun t send h => h.trans (outbounds_sendToClient t send.1 send.2))
    Relation.ReflTransGen.refl out

/-!
## Handling events
-/

theorem steps_processFrame (may : Fd -> Prop) (h : Handlers κ) (s : TcpServer κ)
    (client : ClientId) (payload : Bytes) :
    ServerSteps may s (s.processFrame h client payload) :=
  (Relation.ReflTransGen.single (.note s _ _ s.dangling)).trans
    (outbounds_sendAll _ _).serverSteps

theorem connections_of_live {s : TcpServer κ} {fd : Fd} {id : ClientId} {conn : Connection}
    (h : s.live fd id = some conn) : s.connections fd = some conn ∧ conn.id = id := by
  unfold live at h
  rcases Option.filter_eq_some_iff.mp h with ⟨hconn, hid⟩
  exact ⟨hconn, of_decide_eq_true hid⟩

theorem live_of_connections {s : TcpServer κ} {fd : Fd} {conn : Connection}
    (h : s.connections fd = some conn) : s.live fd conn.id = some conn := by
  unfold live
  rw [h]
  exact Option.filter_eq_some_iff.mpr ⟨rfl, decide_eq_true rfl⟩

theorem live_of_none {s : TcpServer κ} {fd : Fd} (h : s.connections fd = none) (id : ClientId) :
    s.live fd id = none := by
  unfold live
  rw [h]
  rfl

/-- What the accesses of a call of `handle_read` keep holds behind the call. -/
theorem handleRead_invariant {P : TcpServer κ -> Prop} {h : Handlers κ} {s : TcpServer κ}
    {fd : Fd} (hs : P s) (hlost : forall t, P t -> P { t with dangling := true })
    (hclose : forall t, P t -> P (t.closeConnection fd))
    (hreceive : forall t conn buffer, P t -> t.connections fd = some conn ->
      P (t.setConnection fd { conn with readBuffer := buffer }))
    (hframe : forall conn, s.connections fd = some conn ->
      forall t payload, P t -> P (t.processFrame h conn.id payload))
    (reads : List ReadAnswer) : P (s.handleRead h fd reads) := by
  unfold handleRead
  cases hconn : s.connections fd with
  | none => exact hs
  | some conn =>
      have hloop : forall fuel t, P t -> P (t.frameLoop h fd conn.id fuel) := by
        intro fuel
        induction fuel with
        | zero => exact fun t ht => ht
        | succ fuel ih =>
            intro t ht
            unfold frameLoop
            cases hlive : t.live fd conn.id with
            | none => exact hlost t ht
            | some found =>
                dsimp only
                cases frontFrame found.readBuffer with
                | incomplete => exact ht
                | invalid => exact hclose t ht
                | item payload size =>
                    have hhandled := hframe conn hconn t payload ht
                    rw [(connections_of_live hlive).right]
                    dsimp only
                    cases hlive' : (t.processFrame h conn.id payload).live fd conn.id with
                    | none => exact hlost _ hhandled
                    | some kept =>
                        exact ih _ (hreceive _ kept _ hhandled (connections_of_live hlive').left)
      dsimp only
      have hreceived := hreceive s conn (conn.readBuffer ++ (readLoop reads).1) hs hconn
      split
      · exact hclose _ hreceived
      · exact hloop _ _ hreceived

theorem steps_handleRead (may : Fd -> Prop) (h : Handlers κ) (s : TcpServer κ) (fd : Fd)
    (reads : List ReadAnswer) : ServerSteps may s (s.handleRead h fd reads) := by
  apply handleRead_invariant (P := ServerSteps may s)
  · exact Relation.ReflTransGen.refl
  · exact fun t ht => ht.tail (.note t t.app t.processed true)
  · exact fun t ht => ht.tail (.outbound (.close t fd))
  · exact fun t conn buffer ht hconn => ht.tail (.receive hconn buffer)
  · exact fun conn _ t payload ht => ht.trans (steps_processFrame may h t conn.id payload)

/-- What every accepted descriptor keeps holds behind a call of `handle_accept`. -/
theorem handleAccept_invariant {P : TcpServer κ -> Prop} {s : TcpServer κ}
    {answers : List AcceptAnswer} (hs : P s)
    (haccept : forall t fd nodelay registered,
      .accepted fd nodelay registered ∈ answers -> P t ->
        P (t.acceptOne fd nodelay registered)) : P (s.handleAccept answers) := by
  induction answers generalizing s with
  | nil => exact hs
  | cons answer answers ih =>
      have hrest := fun t fd nodelay registered hmem =>
        haccept t fd nodelay registered (List.mem_cons_of_mem answer hmem)
      cases answer with
      | accepted fd nodelay registered =>
          exact ih (haccept s fd nodelay registered List.mem_cons_self hs) hrest
      | interrupted => exact ih hs hrest
      | failed => exact hs

def keptFds (answers : List AcceptAnswer) : List Fd :=
  answers.filterMap fun answer =>
    match answer with
    | .accepted fd true true => some fd
    | _ => none

theorem steps_handleAccept {may : Fd -> Prop} {answers : List AcceptAnswer}
    (hmay : forall fd, fd ∈ keptFds answers -> may fd) (s : TcpServer κ) :
    ServerSteps may s (s.handleAccept answers) := by
  apply handleAccept_invariant (P := ServerSteps may s)
  · exact Relation.ReflTransGen.refl
  · intro t fd nodelay registered hmem ht
    refine ht.tail (.accept t ?_)
    rintro rfl rfl
    exact hmay fd (List.mem_filterMap.mpr ⟨_, hmem, rfl⟩)

theorem steps_handleEvent {may : Fd -> Prop} (h : Handlers κ) (s : TcpServer κ)
    {event : EpollEvent}
    (hmay : event.fd = s.listenerFd -> forall fd, fd ∈ keptFds event.accepts -> may fd) :
    ServerSteps may s (s.handleEvent h event) := by
  unfold handleEvent
  split
  · next hlistener => exact steps_handleAccept (hmay hlistener) s
  · split
    · exact (Relation.ReflTransGen.single (.note s _ s.processed s.dangling)).trans
        (outbounds_sendAll _ _).serverSteps
    · split
      · exact Relation.ReflTransGen.single (.outbound (.close s event.fd))
      · dsimp only
        have hread : ServerSteps may s
            (if event.readable = true then s.handleRead h event.fd event.reads else s) := by
          split
          · exact steps_handleRead may h s event.fd event.reads
          · exact Relation.ReflTransGen.refl
        split
        · exact hread.trans (outbounds_flushWriteBuffer _ event.fd).serverSteps
        · exact hread

end TcpServer
end Tcp
end MiniExchange
