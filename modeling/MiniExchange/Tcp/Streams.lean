import MiniExchange.Tcp.OutboundStream

/-!
# Byte streams over whole runs

What every client has sent and what it has been sent, over any sequence of
epoll events: accepts, reads cut anywhere, writable events, hangups, and drains
in between.  For a connection that is still open, the frames processed so far
are those of the bytes it has sent, and the bytes the kernel has taken followed
by its write buffer are everything the handlers have sent to it.
-/

namespace MiniExchange
namespace Tcp

open Foundation

/-- What some calls of `send_to_client` pass on for a client. -/
def bytesTo (client : ClientId) (calls : List Outgoing) : Bytes :=
  calls.flatMap fun call => if call.1 = client then call.2 else []

def payloadsOf (client : ClientId) (processed : List (ClientId × Bytes)) : List Bytes :=
  (processed.filter fun x => decide (x.1 = client)).map Prod.snd

theorem bytesTo_append (client : ClientId) (front back : List Outgoing) :
    bytesTo client (front ++ back) = bytesTo client front ++ bytesTo client back :=
  List.flatMap_append

theorem bytesTo_eq_nil {client : ClientId} {calls : List Outgoing}
    (h : forall call, call ∈ calls -> call.1 ≠ client) : bytesTo client calls = [] := by
  refine List.flatMap_eq_nil_iff.mpr ?_
  intro call hcall
  exact if_neg (h call hcall)

theorem payloadsOf_append (client : ClientId) (front back : List (ClientId × Bytes)) :
    payloadsOf client (front ++ back) = payloadsOf client front ++ payloadsOf client back := by
  unfold payloadsOf
  rw [List.filter_append, List.map_append]

theorem payloadsOf_self (client : ClientId) (payload : Bytes) :
    payloadsOf client [(client, payload)] = [payload] := by
  simp [payloadsOf]

theorem payloadsOf_of_ne {client other : ClientId} (h : other ≠ client) (payload : Bytes) :
    payloadsOf client [(other, payload)] = [] := by
  simp [payloadsOf, h]

/-- What a write call adds to the calls of `send_to_client`. -/
def WriteCall.outgoing : WriteCall -> List Outgoing
  | send client data => [(client, data)]
  | writable _ => []

namespace TcpServer

variable {κ : Type} {s t : TcpServer κ} {fd : Fd} {conn : Connection}

theorem sentTo_eq (client : ClientId) (call : WriteCall) :
    sentTo client [call] = bytesTo client call.outgoing := by
  cases call <;> rfl

/-!
## What is sent
-/

def Assigned (s : TcpServer κ) (client : ClientId) : Prop :=
  exists fd, (client, fd) ∈ s.assigned

/-- The accounts of all connections against the calls of `send_to_client` so far. -/
structure Outward (calls : List Outgoing) (s : TcpServer κ) : Prop where
  tables : Tables s
  writing : forall fd conn, s.connections fd = some conn -> Writing s fd conn ∧
    s.taken conn.id ++ conn.writeBuffer = bytesTo conn.id calls
  taken : forall client, s.taken client <+: bytesTo client calls
  known : forall call, call ∈ calls -> s.Assigned call.1

theorem Outward.bytesTo_unassigned {calls : List Outgoing} (h : Outward calls s)
    {client : ClientId} (hclient : ¬ s.Assigned client) : bytesTo client calls = [] := by
  refine bytesTo_eq_nil ?_
  intro call hcall hsame
  exact hclient (hsame ▸ h.known call hcall)

theorem Outbounds.assigned (hsteps : Outbounds s t) : t.assigned = s.assigned := by
  induction hsteps with
  | refl => rfl
  | tail _ hstep ih =>
      rw [← ih]
      cases hstep with
      | write => rfl
      | close fd => exact assigned_closeConnection _ fd
      | kernel => rfl

theorem taken_flushWriteBuffer (hconn : s.connections fd = some conn) :
    (s.flushWriteBuffer fd).taken conn.id =
      s.taken conn.id ++ (flushLoop conn.writeBuffer s.sends).taken := by
  unfold flushWriteBuffer
  rw [hconn]
  dsimp only
  split <;> simp [setEpollout, taken_closeConnection]

theorem taken_flush_part (hconn : s.connections fd = some conn) :
    exists part, (s.flushWriteBuffer fd).taken conn.id = s.taken conn.id ++ part ∧
      (part <+: conn.writeBuffer) :=
  ⟨_, taken_flushWriteBuffer hconn, _, flushLoop_stream conn.writeBuffer s.sends⟩

/-- What the kernel takes during a call comes from the buffer of the client's connection. -/
theorem Tables.taken_write_part (h : Tables s) (call : WriteCall) (client : ClientId) :
    (s.write call).taken client = s.taken client ∨
      exists fd conn part, s.connections fd = some conn ∧ conn.id = client ∧
        (s.write call).taken client = s.taken client ++ part ∧
        (part <+: conn.writeBuffer ++ sentTo client [call]) := by
  cases call with
  | send target data =>
      show (s.sendToClient target data).taken client = _ ∨ _
      by_cases htarget : client = target
      · cases hroute : s.clientToFd target with
        | none =>
            rw [sendToClient_of_none hroute]
            exact Or.inl rfl
        | some fd =>
            rcases h.backward target fd hroute with ⟨conn, hconn, hid⟩
            have hsend := sendToClient_of_some hroute hconn data
            by_cases hfull : s.maxWriteBufferBytes ≠ 0 ∧
                s.maxWriteBufferBytes < (conn.writeBuffer ++ data).length
            · rw [if_pos hfull] at hsend
              left
              rw [hsend, taken_closeConnection]
              rfl
            · rw [if_neg hfull] at hsend
              have hstored := connections_setConnection_self s fd
                { conn with writeBuffer := conn.writeBuffer ++ data }
              rcases taken_flush_part hstored with ⟨part, htaken, hpart⟩
              right
              refine ⟨fd, conn, part, hconn, hid.trans htarget.symm, ?_, ?_⟩
              · show (s.sendToClient target data).taken client = _
                rw [hsend, htarget, ← hid]
                exact htaken
              · rw [sentTo_eq, WriteCall.outgoing, bytesTo, List.flatMap_singleton,
                  if_pos htarget.symm]
                exact hpart
      · exact Or.inl ((h.sendToClient_others target data).right client htarget)
  | writable fd =>
      show (s.flushWriteBuffer fd).taken client = _ ∨ _
      cases hconn : s.connections fd with
      | none =>
          left
          unfold flushWriteBuffer
          rw [hconn]
      | some conn =>
          by_cases hid : client = conn.id
          · rcases taken_flush_part hconn with ⟨part, htaken, hpart⟩
            right
            refine ⟨fd, conn, part, hconn, hid.symm, ?_, ?_⟩
            · show (s.flushWriteBuffer fd).taken client = _
              rw [hid]
              exact htaken
            · exact hpart.trans (List.prefix_append _ _)
          · exact Or.inl (taken_flushWriteBuffer_of_ne hconn hid)

theorem Tables.next_unassigned (h : Tables s) (hcount : s.assigned.length < 2 ^ 64) :
    ¬ s.Assigned ⟨s.nextClientId⟩ := by
  intro ⟨fd, hmem⟩
  rcases List.getElem?_of_mem hmem with ⟨i, hi⟩
  have hnumber := congrArg ClientId.value (h.numbered i _ hi)
  have hbound := (List.getElem?_eq_some_iff.mp hi).choose
  rw [h.next] at hnumber
  exact numbers_distinct hcount hbound hnumber.symm

namespace Outward

variable {calls : List Outgoing}

theorem write (h : Outward calls s) (call : WriteCall)
    (hknown : forall out, out ∈ call.outgoing -> s.Assigned out.1) :
    Outward (calls ++ call.outgoing) (s.write call) := by
  have hsteps := outbounds_write s call
  have hassigned := hsteps.assigned
  constructor
  case tables => exact hsteps.tables h.tables
  case writing =>
    intro fd conn hconn
    rcases hsteps.sameReads.connections fd conn hconn with ⟨old, hold, hid, -⟩
    rcases h.writing fd old hold with ⟨hwriting, hstream⟩
    rcases hwriting.step hconn with ⟨hafter, -, hmoved⟩
    have htaken := h.tables.taken_write hwriting hconn
    rw [h.tables.passed_eq hold, sentTo_eq] at hmoved
    refine ⟨hafter, ?_⟩
    rw [hid, htaken, List.append_assoc, hmoved, ← List.append_assoc, hstream, bytesTo_append]
  case taken =>
    intro client
    rw [bytesTo_append]
    rcases h.tables.taken_write_part call client with
      hsame | ⟨fd, conn, part, hconn, hid, htaken, hpart⟩
    · rw [hsame]
      exact (h.taken client).trans (List.prefix_append _ _)
    · have hstream := (h.writing fd conn hconn).right
      rw [hid] at hstream
      rw [htaken, ← hstream, ← sentTo_eq, List.append_assoc]
      exact (List.prefix_append_right_inj _).mpr hpart
  case known =>
    intro out hout
    unfold Assigned
    rw [hassigned]
    rcases List.mem_append.mp hout with hold | hnew
    · exact h.known out hold
    · exact hknown out hnew

theorem sendAll {out : List Outgoing} (h : Outward calls s)
    (hknown : forall call, call ∈ out -> s.Assigned call.1) :
    Outward (calls ++ out) (s.sendAll out) := by
  induction out generalizing s calls with
  | nil =>
      rw [List.append_nil]
      exact h
  | cons send out ih =>
      have hfirst : Outward (calls ++ [send]) (s.sendToClient send.1 send.2) := by
        refine h.write (.send send.1 send.2) ?_
        intro call hcall
        exact hknown call (List.mem_cons.mpr (Or.inl (List.mem_singleton.mp hcall)))
      rw [List.append_cons]
      refine ih hfirst ?_
      intro call hcall
      unfold Assigned
      rw [(outbounds_sendToClient s send.1 send.2).assigned]
      exact hknown call (List.mem_cons_of_mem _ hcall)

theorem closeConnection (h : Outward calls s) (fd : Fd) :
    Outward calls (s.closeConnection fd) := by
  have hsteps : ServerSteps (fun _ => True) s (s.closeConnection fd) :=
    Relation.ReflTransGen.single (.outbound (.close s fd))
  have hbound := hsteps.setup.right.right
  constructor
  case tables => exact h.tables.closeConnection fd
  case writing =>
    intro other conn hconn
    rcases connections_of_closeConnection hconn with ⟨hne, hstored⟩
    rcases h.writing other conn hstored with ⟨hwriting, hstream⟩
    have hinterest : (s.closeConnection fd).interest other = s.interest other :=
      interest_closeConnection_of_ne hne
    rw [taken_closeConnection]
    refine ⟨⟨hconn, ?_, ?_, ?_⟩, hstream⟩
    · rw [hinterest]
      exact hwriting.registered
    · rw [hbound]
      exact hwriting.capped
    · rw [hinterest]
      exact hwriting.armed
  case taken =>
    rw [taken_closeConnection]
    exact h.taken
  case known =>
    unfold Assigned
    rw [assigned_closeConnection]
    exact h.known

theorem setReadBuffer (h : Outward calls s) (hconn : s.connections fd = some conn)
    (buffer : Bytes) :
    Outward calls (s.setConnection fd { conn with readBuffer := buffer }) := by
  constructor
  case tables => exact h.tables.setConnection hconn rfl rfl
  case writing =>
    intro other found hfound
    have hstored := hfound
    rcases connections_setConnection hfound with ⟨rfl, rfl⟩ | ⟨hne, hkept⟩
    · rcases h.writing other conn hconn with ⟨hwriting, hstream⟩
      exact ⟨⟨hstored, hwriting.registered, hwriting.capped, hwriting.armed⟩, hstream⟩
    · rcases h.writing other found hkept with ⟨hwriting, hstream⟩
      exact ⟨⟨hstored, hwriting.registered, hwriting.capped, hwriting.armed⟩, hstream⟩
  case taken => exact h.taken
  case known => exact h.known

theorem note (h : Outward calls s) (app : κ) (processed : List (ClientId × Bytes))
    (dangling : Bool) :
    Outward calls { s with app := app, processed := processed, dangling := dangling } := by
  constructor
  case tables => exact { h.tables with }
  case writing =>
    intro fd conn hconn
    rcases h.writing fd conn hconn with ⟨hwriting, hstream⟩
    exact ⟨{ hwriting with }, hstream⟩
  case taken => exact h.taken
  case known => exact h.known

theorem acceptOne (h : Outward calls s) (hcount : s.assigned.length < 2 ^ 64) (fd : Fd)
    (nodelay registered : Bool) : Outward calls (s.acceptOne fd nodelay registered) := by
  have hunassigned := h.tables.next_unassigned hcount
  have htables := h.tables.acceptOne hcount fd
  have hsilent := h.bytesTo_unassigned hunassigned
  have huntouched : s.taken ⟨s.nextClientId⟩ = [] := by
    have hpart := h.taken ⟨s.nextClientId⟩
    rw [hsilent] at hpart
    exact List.prefix_nil.mp hpart
  have hmore (call : Outgoing) (hcall : call ∈ calls) :
      exists other, (call.1, other) ∈ s.assigned ++ [(⟨s.nextClientId⟩, fd)] := by
    rcases h.known call hcall with ⟨other, hmem⟩
    exact ⟨other, List.mem_append_left _ hmem⟩
  rcases acceptOne_cases s fd nodelay registered with hskip | ⟨hopened, hdone | hdone⟩
  · rw [hskip]
    exact h
  · have hfree := h.tables.fresh_fd hopened
    have hnew := writing_acceptOne hopened hfree
    have hafter := htables true true
    rw [hdone]
    rw [acceptOne_registered hopened hfree (h.tables.fresh_id hcount)] at hnew hafter ⊢
    constructor
    case tables => exact hafter
    case writing =>
      intro other conn hconn
      rcases connections_setConnection (s := s) hconn with ⟨rfl, rfl⟩ | ⟨hne, hkept⟩
      · refine ⟨hnew, ?_⟩
        show s.taken ⟨s.nextClientId⟩ ++ [] = _
        rw [huntouched, hsilent]
        rfl
      · rcases h.writing other conn hkept with ⟨hwriting, hstream⟩
        have hinterest : Function.update s.interest fd (some false) other = s.interest other :=
          Function.update_of_ne hne _ _
        refine ⟨⟨hconn, ?_, hwriting.capped, ?_⟩, hstream⟩
        · exact fun hnone => hwriting.registered (hinterest.symm.trans hnone)
        · exact fun hpending => hinterest.trans (hwriting.armed hpending)
    case taken => exact h.taken
    case known => exact hmore
  · have hafter := htables true false
    rw [hdone]
    rw [acceptOne_refused hopened (h.tables.fresh_fd hopened) (h.tables.fresh_id hcount)]
      at hafter ⊢
    constructor
    case tables => exact hafter
    case writing =>
      intro other conn hconn
      rcases h.writing other conn hconn with ⟨hwriting, hstream⟩
      exact ⟨{ hwriting with }, hstream⟩
    case taken => exact h.taken
    case known => exact hmore

end Outward

/-!
## What is received
-/

structure Inward (stream : ClientId -> Bytes) (s : TcpServer κ) : Prop where
  reading : forall fd conn, s.connections fd = some conn ->
    payloadsOf conn.id s.processed ++ frames conn.readBuffer = frames (stream conn.id) ∧
      unfinished conn.readBuffer = unfinished (stream conn.id)
  processed : forall client, payloadsOf client s.processed <+: frames (stream client)
  known : forall client, stream client ≠ [] -> s.Assigned client

def Idle (s : TcpServer κ) : Prop :=
  forall fd conn, s.connections fd = some conn ->
    frontFrame conn.readBuffer = .incomplete

theorem SameReads.idle (hsame : SameReads s t) (h : Idle s) : Idle t := by
  intro fd conn hconn
  rcases hsame.connections fd conn hconn with ⟨old, hold, -, hbuffer⟩
  rw [hbuffer]
  exact h fd old hold

/-- No complete frame waits on a connection other than this one. -/
def IdleBut (fd : Fd) (s : TcpServer κ) : Prop :=
  forall other found, other ≠ fd -> s.connections other = some found ->
    frontFrame found.readBuffer = .incomplete

theorem IdleBut.close (h : IdleBut fd s) : Idle (s.closeConnection fd) := by
  intro other found hfound
  rcases connections_of_closeConnection hfound with ⟨hne, hstored⟩
  exact h other found hne hstored

theorem IdleBut.setConnection (h : IdleBut fd s) (conn : Connection) :
    IdleBut fd (s.setConnection fd conn) := by
  intro other found hne hfound
  rcases connections_setConnection hfound with ⟨heq, -⟩ | ⟨-, hstored⟩
  · exact absurd heq hne
  · exact h other found hne hstored

theorem IdleBut.sameReads (hsame : SameReads s t) (h : IdleBut fd s) : IdleBut fd t := by
  intro other found hne hfound
  rcases hsame.connections other found hfound with ⟨old, hold, -, hbuffer⟩
  rw [hbuffer]
  exact h other old hne hold

theorem sameReads_closeConnection (s : TcpServer κ) (fd : Fd) :
    SameReads s (s.closeConnection fd) :=
  (Outbound.close s fd).sameReads

theorem app_acceptOne (s : TcpServer κ) (fd : Fd) (nodelay registered : Bool) :
    (s.acceptOne fd nodelay registered).app = s.app := by
  unfold acceptOne
  dsimp only
  split_ifs <;> rfl

theorem processed_acceptOne (s : TcpServer κ) (fd : Fd) (nodelay registered : Bool) :
    (s.acceptOne fd nodelay registered).processed = s.processed := by
  unfold acceptOne
  dsimp only
  split_ifs <;> rfl

namespace Inward

variable {stream : ClientId -> Bytes}

theorem unassigned (h : Inward stream s) {client : ClientId} (hclient : ¬ s.Assigned client) :
    stream client = [] := by
  by_contra hne
  exact hclient (h.known client hne)

theorem assigned_of_processed (h : Inward stream s) {x : ClientId × Bytes}
    (hx : x ∈ s.processed) : s.Assigned x.1 := by
  by_contra hclient
  have hpart := h.processed x.1
  have hmem : x.2 ∈ payloadsOf x.1 s.processed :=
    List.mem_map.mpr ⟨x, List.mem_filter.mpr ⟨hx, decide_eq_true rfl⟩, rfl⟩
  rw [h.unassigned hclient, frames_nil, List.prefix_nil] at hpart
  rw [hpart] at hmem
  cases hmem

theorem sameReads (h : Inward stream s) (hsame : SameReads s t)
    (hassigned : t.assigned = s.assigned) : Inward stream t := by
  constructor
  case reading =>
    intro fd conn hconn
    rcases hsame.connections fd conn hconn with ⟨old, hold, hid, hbuffer⟩
    rw [hsame.processed, hid, hbuffer]
    exact h.reading fd old hold
  case processed =>
    rw [hsame.processed]
    exact h.processed
  case known =>
    unfold Assigned
    rw [hassigned]
    exact h.known

theorem receive (h : Inward stream s) (htables : Tables s)
    (hconn : s.connections fd = some conn) (more : Bytes) :
    Inward (fun client => stream client ++ if client = conn.id then more else [])
      (s.setConnection fd { conn with readBuffer := conn.readBuffer ++ more }) := by
  constructor
  case reading =>
    intro other found hfound
    rcases connections_setConnection hfound with ⟨rfl, rfl⟩ | ⟨hne, hkept⟩
    · rcases h.reading other conn hconn with ⟨hframes, hrest⟩
      show payloadsOf conn.id s.processed ++ frames (conn.readBuffer ++ more) =
        frames (stream conn.id ++ ite (conn.id = conn.id) more []) ∧
          unfinished (conn.readBuffer ++ more) =
            unfinished (stream conn.id ++ ite (conn.id = conn.id) more [])
      rw [if_pos rfl]
      constructor
      · rw [frames_append, hrest, ← List.append_assoc, hframes, ← frames_append]
      · rw [unfinished_append, hrest, ← unfinished_append]
    · have hid : found.id ≠ conn.id := fun hsame => hne (htables.fd_unique hkept hconn hsame)
      rw [if_neg hid, List.append_nil]
      exact h.reading other found hkept
  case processed =>
    intro client
    refine (h.processed client).trans ?_
    rw [frames_append]
    exact List.prefix_append _ _
  case known =>
    intro client hclient
    by_cases hid : client = conn.id
    · rw [hid]
      exact ⟨fd, htables.assigned fd conn hconn⟩
    · rw [if_neg hid, List.append_nil] at hclient
      exact h.known client hclient

/-- The frame loop hands a frame on; the connection is still there when it returns. -/
theorem handled (h : Inward stream s) (htables : Tables s)
    (hconn : s.connections fd = some conn) {payload : Bytes} {size : Nat}
    (hfront : frontFrame conn.readBuffer = .item payload size) {app : κ}
    (hsame : SameReads { s with app := app, processed := s.processed ++ [(conn.id, payload)] } t)
    (hassigned : t.assigned = s.assigned) :
    (forall kept, t.connections fd = some kept ->
      Inward stream (t.setConnection fd
        { kept with readBuffer := conn.readBuffer.drop size })) ∧
    (t.connections fd = none -> Inward stream t) := by
  have hprocessed : t.processed = s.processed ++ [(conn.id, payload)] := hsame.processed
  have hown := h.reading fd conn hconn
  rw [frames_of_item hfront, unfinished_of_item hfront] at hown
  have hothers : forall other found, other ≠ fd -> t.connections other = some found ->
      payloadsOf found.id t.processed ++ frames found.readBuffer = frames (stream found.id) ∧
        unfinished found.readBuffer = unfinished (stream found.id) := by
    intro other found hne hfound
    rcases hsame.connections other found hfound with ⟨old, hold, hid, hbuffer⟩
    have hdifferent : conn.id ≠ old.id := fun heq => hne (htables.fd_unique hconn hold heq).symm
    rw [hprocessed, hid, hbuffer, payloadsOf_append, payloadsOf_of_ne hdifferent, List.append_nil]
    exact h.reading other old hold
  have hall : forall client, payloadsOf client t.processed <+: frames (stream client) := by
    intro client
    rw [hprocessed, payloadsOf_append]
    by_cases hid : conn.id = client
    · rw [← hid, payloadsOf_self, ← hown.left]
      refine (List.prefix_append_right_inj _).mpr ?_
      exact ⟨frames (conn.readBuffer.drop size), rfl⟩
    · rw [payloadsOf_of_ne hid, List.append_nil]
      exact h.processed client
  have hknown : forall client, stream client ≠ [] -> t.Assigned client := by
    unfold Assigned
    rw [hassigned]
    exact h.known
  constructor
  · intro kept hkept
    rcases hsame.connections fd kept hkept with ⟨old, hold, hid, -⟩
    have hsameConn : old = conn := Option.some.inj (hold.symm.trans hconn)
    refine ⟨?_, hall, hknown⟩
    intro other found hfound
    rcases connections_setConnection hfound with ⟨rfl, rfl⟩ | ⟨hne, hstored⟩
    · show payloadsOf kept.id t.processed ++ frames (conn.readBuffer.drop size) =
        frames (stream kept.id) ∧
          unfinished (conn.readBuffer.drop size) = unfinished (stream kept.id)
      rw [hprocessed, hid, hsameConn, payloadsOf_append, payloadsOf_self, List.append_assoc]
      exact hown
    · exact hothers other found hne hstored
  · intro hgone
    refine ⟨?_, hall, hknown⟩
    intro other found hfound
    have hne : other ≠ fd := by
      intro heq
      rw [heq, hgone] at hfound
      cases hfound
    exact hothers other found hne hfound

theorem acceptOne (h : Inward stream s) (htables : Tables s)
    (hcount : s.assigned.length < 2 ^ 64) (fd : Fd) (nodelay registered : Bool) :
    Inward stream (s.acceptOne fd nodelay registered) := by
  have hsilent := h.unassigned (htables.next_unassigned hcount)
  constructor
  case reading =>
    rw [processed_acceptOne]
    intro other conn hconn
    rcases htables.connections_acceptOne hcount hconn with hkept | rfl
    · exact h.reading other conn hkept
    · have hnone := h.processed ⟨s.nextClientId⟩
      rw [hsilent, frames_nil, List.prefix_nil] at hnone
      show payloadsOf ⟨s.nextClientId⟩ s.processed ++ frames [] =
        frames (stream ⟨s.nextClientId⟩) ∧
          unfinished [] = unfinished (stream ⟨s.nextClientId⟩)
      rw [hsilent, hnone]
      exact ⟨rfl, rfl⟩
  case processed =>
    rw [processed_acceptOne]
    exact h.processed
  case known =>
    intro client hclient
    rcases h.known client hclient with ⟨other, hmem⟩
    exact ⟨other, assigned_acceptOne hmem fd nodelay registered⟩

end Inward

theorem Idle.acceptOne (h : Idle s) (htables : Tables s) (hcount : s.assigned.length < 2 ^ 64)
    (fd : Fd) (nodelay registered : Bool) : Idle (s.acceptOne fd nodelay registered) := by
  intro other conn hconn
  rcases htables.connections_acceptOne hcount hconn with hkept | rfl
  · exact h other conn hkept
  · rfl

/-!
## Handlers that keep a log
-/

/--
The handlers keep an account of their calls of `send_to_client` and an invariant
that relates it to the frames they were given; they answer nobody unasked.
-/
structure KeepsLog (h : Handlers κ) (log : κ -> List Outgoing)
    (inv : List (ClientId × Bytes) -> κ -> Prop) : Prop where
  frame : forall processed app client payload, inv processed app ->
    inv (processed ++ [(client, payload)]) (h.frame app client payload).1
  frame_log : forall app client payload,
    log (h.frame app client payload).1 = log app ++ (h.frame app client payload).2
  drain : forall processed app, inv processed app -> inv processed (h.drain app).1
  drain_log : forall app, log (h.drain app).1 = log app ++ (h.drain app).2
  asked : forall processed app, inv processed app -> forall call, call ∈ log app ->
    call.1 ∈ processed.map Prod.fst

/-- The accounts of the server and of its handlers. -/
structure Account (log : κ -> List Outgoing) (inv : List (ClientId × Bytes) -> κ -> Prop)
    (stream : ClientId -> Bytes) (s : TcpServer κ) : Prop where
  outward : Outward (log s.app) s
  inward : Inward stream s
  app : inv s.processed s.app

namespace Account

variable {h : Handlers κ} {log : κ -> List Outgoing}
  {inv : List (ClientId × Bytes) -> κ -> Prop} {stream : ClientId -> Bytes}

theorem sameReads (hs : Account log inv stream s) (hsame : SameReads s t)
    (hassigned : t.assigned = s.assigned) (houtward : Outward (log s.app) t) :
    Account log inv stream t where
  outward := by
    rw [hsame.app]
    exact houtward
  inward := hs.inward.sameReads hsame hassigned
  app := by
    rw [hsame.app, hsame.processed]
    exact hs.app

theorem closeConnection (hs : Account log inv stream s) (fd : Fd) :
    Account log inv stream (s.closeConnection fd) :=
  hs.sameReads (sameReads_closeConnection s fd) (assigned_closeConnection s fd)
    (hs.outward.closeConnection fd)

theorem handleWrite (hs : Account log inv stream s) (fd : Fd) :
    Account log inv stream (s.handleWrite fd) := by
  have hsteps := outbounds_flushWriteBuffer s fd
  refine hs.sameReads hsteps.sameReads hsteps.assigned ?_
  have hwritten := hs.outward.write (.writable fd) (fun _ hout => by cases hout)
  rw [WriteCall.outgoing, List.append_nil] at hwritten
  exact hwritten

theorem sends (hkeeps : KeepsLog h log inv) {app : κ} {out : List Outgoing}
    {processed : List (ClientId × Bytes)} (houtward : Outward (log s.app) s)
    (happ : inv processed app) (hlog : log app = log s.app ++ out)
    (hasked : forall x, x ∈ processed -> s.Assigned x.1) :
    Outward (log app) ({ s with app := app, processed := processed }.sendAll out) := by
  rw [hlog]
  refine (houtward.note app processed s.dangling).sendAll ?_
  intro call hcall
  have hmem : call ∈ log app := by
    rw [hlog]
    exact List.mem_append_right _ hcall
  rcases List.mem_map.mp (hkeeps.asked processed app happ call hmem) with ⟨x, hx, hclient⟩
  rw [← hclient]
  exact hasked x hx

theorem processFrame (hkeeps : KeepsLog h log inv) (hs : Account log inv stream s)
    (hconn : s.connections fd = some conn) (payload : Bytes) :
    Outward (log (s.processFrame h conn.id payload).app) (s.processFrame h conn.id payload) ∧
      inv (s.processFrame h conn.id payload).processed (s.processFrame h conn.id payload).app ∧
      (s.processFrame h conn.id payload).assigned = s.assigned := by
  have happ := hkeeps.frame s.processed s.app conn.id payload hs.app
  have hsame := processFrame_sameReads h s conn.id payload
  have hassigned : (s.processFrame h conn.id payload).assigned = s.assigned :=
    (outbounds_sendAll _ _).assigned
  refine ⟨?_, ?_, hassigned⟩
  · rw [hsame.app]
    refine sends hkeeps hs.outward happ (hkeeps.frame_log s.app conn.id payload) ?_
    intro x hx
    rcases List.mem_append.mp hx with hold | hnew
    · exact hs.inward.assigned_of_processed hold
    · rw [List.mem_singleton.mp hnew]
      exact ⟨fd, hs.outward.tables.assigned fd conn hconn⟩
  · rw [hsame.app, hsame.processed]
    exact happ

theorem frameLoop (hkeeps : KeepsLog h log inv) {fuel : Nat} (hs : Account log inv stream s)
    {id : ClientId} (hconn : s.connections fd = some conn) (hid : conn.id = id)
    (hfuel : conn.readBuffer.length < fuel) (hothers : IdleBut fd s) :
    Account log inv stream (s.frameLoop h fd id fuel) ∧ Idle (s.frameLoop h fd id fuel) := by
  revert hs hothers
  refine frameLoop_induction (P := fun s _ t => Account log inv stream s -> IdleBut fd s ->
    Account log inv stream t ∧ Idle t) ?hincomplete ?hinvalid ?hlost ?hnext hconn hid hfuel
  case hincomplete =>
    intro s conn hconn hfront hs hothers
    refine ⟨hs, ?_⟩
    intro other found hfound
    by_cases hother : other = fd
    · rw [hother, hconn] at hfound
      rw [← Option.some.inj hfound]
      exact hfront
    · exact hothers other found hother hfound
  case hinvalid => exact fun s conn _ hs hothers => ⟨hs.closeConnection fd, hothers.close⟩
  case hlost =>
    intro s conn payload size hconn hfront hgone hs hothers
    have hsame := processFrame_sameReads h s conn.id payload
    rcases hs.processFrame hkeeps hconn payload with ⟨houtward, happ, hassigned⟩
    have hinward :=
      (hs.inward.handled hs.outward.tables hconn hfront hsame hassigned).right hgone
    refine ⟨⟨houtward.note _ _ true, ⟨hinward.reading, hinward.processed, hinward.known⟩,
      happ⟩, ?_⟩
    intro other found hfound
    refine IdleBut.sameReads hsame hothers other found ?_ hfound
    rintro rfl
    cases hgone.symm.trans hfound
  case hnext =>
    intro s conn payload size kept t hconn hfront hkept _ hrest hs hothers
    have hsame := processFrame_sameReads h s conn.id payload
    rcases hs.processFrame hkeeps hconn payload with ⟨houtward, happ, hassigned⟩
    have hinward :=
      (hs.inward.handled hs.outward.tables hconn hfront hsame hassigned).left kept hkept
    exact hrest ⟨houtward.setReadBuffer hkept _, hinward, happ⟩
      ((IdleBut.sameReads hsame hothers).setConnection _)

theorem handleRead (hkeeps : KeepsLog h log inv) (hs : Account log inv stream s)
    (hidle : Idle s) (hconn : s.connections fd = some conn) (reads : List ReadAnswer) :
    Account log inv
        (fun client => stream client ++ if client = conn.id then received reads else [])
        (s.handleRead h fd reads) ∧
      Idle (s.handleRead h fd reads) := by
  have hreceived : Account log inv
      (fun client => stream client ++ if client = conn.id then received reads else [])
      (s.setConnection fd { conn with readBuffer := conn.readBuffer ++ received reads }) :=
    ⟨hs.outward.setReadBuffer hconn _, hs.inward.receive hs.outward.tables hconn _, hs.app⟩
  have hothers : IdleBut fd
      (s.setConnection fd { conn with readBuffer := conn.readBuffer ++ received reads }) :=
    IdleBut.setConnection (fun other found _ hfound => hidle other found hfound) _
  unfold TcpServer.handleRead
  rw [hconn]
  dsimp only
  split
  · exact ⟨hreceived.closeConnection fd, hothers.close⟩
  · exact hreceived.frameLoop hkeeps (connections_setConnection_self s fd _) rfl
      (Nat.lt_succ_self _) hothers

theorem handleAccept (hs : Account log inv stream s) (hidle : Idle s)
    (answers : List AcceptAnswer)
    (hcount : (s.handleAccept answers).assigned.length <= 2 ^ 64) :
    Account log inv stream (s.handleAccept answers) ∧ Idle (s.handleAccept answers) := by
  refine handleAccept_counted (P := fun t => Account log inv stream t ∧ Idle t) ⟨hs, hidle⟩
    ?_ hcount
  rintro t fd nodelay registered ⟨ht, hidle⟩ hbound
  have htables := ht.outward.tables
  refine ⟨⟨?_, ht.inward.acceptOne htables hbound fd nodelay registered, ?_⟩,
    hidle.acceptOne htables hbound fd nodelay registered⟩
  · rw [app_acceptOne]
    exact ht.outward.acceptOne hbound fd nodelay registered
  · rw [app_acceptOne, processed_acceptOne]
    exact ht.app

theorem handleEventfd (hkeeps : KeepsLog h log inv) (hs : Account log inv stream s)
    (hidle : Idle s) :
    Account log inv stream (s.handleEventfd h) ∧ Idle (s.handleEventfd h) := by
  have happ := hkeeps.drain s.processed s.app hs.app
  have hsteps : Outbounds { s with app := (h.drain s.app).1 } (s.handleEventfd h) :=
    outbounds_sendAll _ _
  have hsame := hsteps.sameReads
  have hinward : Inward stream { s with app := (h.drain s.app).1 } :=
    ⟨hs.inward.reading, hs.inward.processed, hs.inward.known⟩
  refine ⟨⟨?_, hinward.sameReads hsame hsteps.assigned, ?_⟩, hsame.idle hidle⟩
  · rw [hsame.app]
    exact sends hkeeps hs.outward happ (hkeeps.drain_log s.app)
      (fun x hx => hs.inward.assigned_of_processed hx)
  · rw [hsame.app, hsame.processed]
    exact happ

end Account

/-!
## Runs
-/

def readBy (s : TcpServer κ) (event : EpollEvent) (client : ClientId) : Bytes :=
  if event.fd = s.listenerFd ∨ event.fd = s.eventfd ∨ event.hangup = true ∨
      event.readable = false then []
  else
    match s.connections event.fd with
    | none => []
    | some conn => if client = conn.id then received event.reads else []

def streamOf (h : Handlers κ) (s : TcpServer κ) (events : List EpollEvent)
    (client : ClientId) : Bytes :=
  (Machine.visits (handleEvent h) s events).flatMap fun v => v.1.readBy v.2 client

variable {h : Handlers κ} {log : κ -> List Outgoing}
  {inv : List (ClientId × Bytes) -> κ -> Prop} {stream : ClientId -> Bytes}

theorem readBy_unread {event : EpollEvent}
    (hevent : event.fd = s.listenerFd ∨ event.fd = s.eventfd ∨ event.hangup = true ∨
      event.readable = false) :
    (fun client => stream client ++ s.readBy event client) = stream := by
  funext client
  rw [readBy, if_pos hevent, List.append_nil]

theorem Account.handleEvent (hkeeps : KeepsLog h log inv) (hs : Account log inv stream s)
    (hidle : Idle s) (event : EpollEvent)
    (hcount : (s.handleEvent h event).assigned.length <= 2 ^ 64) :
    Account log inv (fun client => stream client ++ s.readBy event client)
        (s.handleEvent h event) ∧
      Idle (s.handleEvent h event) := by
  unfold TcpServer.handleEvent at hcount ⊢
  by_cases hlistener : event.fd = s.listenerFd
  · rw [if_pos hlistener] at hcount ⊢
    rw [readBy_unread (Or.inl hlistener)]
    exact hs.handleAccept hidle event.accepts hcount
  by_cases heventfd : event.fd = s.eventfd
  · rw [if_neg hlistener, if_pos heventfd, readBy_unread (Or.inr (Or.inl heventfd))]
    exact hs.handleEventfd hkeeps hidle
  by_cases hhangup : event.hangup = true
  · rw [if_neg hlistener, if_neg heventfd, if_pos hhangup,
      readBy_unread (Or.inr (Or.inr (Or.inl hhangup)))]
    exact ⟨hs.closeConnection event.fd, (sameReads_closeConnection s event.fd).idle hidle⟩
  rw [if_neg hlistener, if_neg heventfd, if_neg hhangup]
  dsimp only
  have hread : Account log inv (fun client => stream client ++ s.readBy event client)
        (if event.readable = true then s.handleRead h event.fd event.reads else s) ∧
      Idle (if event.readable = true then s.handleRead h event.fd event.reads else s) := by
    by_cases hreadable : event.readable = true
    · rw [if_pos hreadable]
      have hunless : ¬ (event.fd = s.listenerFd ∨ event.fd = s.eventfd ∨
          event.hangup = true ∨ event.readable = false) := by
        simp [hlistener, heventfd, hhangup, hreadable]
      cases hconn : s.connections event.fd with
      | none =>
          have hnothing : (fun client => stream client ++ s.readBy event client) = stream := by
            funext client
            rw [readBy, if_neg hunless, hconn, List.append_nil]
          have hunchanged : s.handleRead h event.fd event.reads = s := by
            unfold TcpServer.handleRead
            rw [hconn]
          rw [hnothing, hunchanged]
          exact ⟨hs, hidle⟩
      | some conn =>
          have hbytes : s.readBy event =
              fun client => if client = conn.id then received event.reads else [] := by
            funext client
            rw [readBy, if_neg hunless, hconn]
          rw [hbytes]
          exact hs.handleRead hkeeps hidle hconn event.reads
    · rw [if_neg hreadable, readBy_unread (Or.inr (Or.inr (Or.inr
        (Bool.eq_false_of_not_eq_true hreadable))))]
      exact ⟨hs, hidle⟩
  split
  · have hsteps := outbounds_flushWriteBuffer
      (if event.readable = true then s.handleRead h event.fd event.reads else s) event.fd
    exact ⟨hread.left.handleWrite event.fd, hsteps.sameReads.idle hread.right⟩
  · exact hread

theorem length_assigned_handleEvent (h : Handlers κ) (s : TcpServer κ) (event : EpollEvent) :
    s.assigned.length <= (s.handleEvent h event).assigned.length := by
  have hsteps : ServerSteps (fun _ => True) s (s.handleEvent h event) :=
    steps_handleEvent h s fun _ _ _ => trivial
  exact hsteps.tables.left

theorem length_assigned_handleBatch (h : Handlers κ) (s : TcpServer κ)
    (events : List EpollEvent) :
    s.assigned.length <= (s.handleBatch h events).assigned.length := by
  refine Machine.run_invariant
    (P := fun t : TcpServer κ => s.assigned.length <= t.assigned.length) ?_ (Nat.le_refl _)
    events
  intro t event ht
  exact Nat.le_trans ht (length_assigned_handleEvent h t event)

theorem Account.run (hkeeps : KeepsLog h log inv) (hs : Account log inv stream s)
    (hidle : Idle s) (events : List EpollEvent)
    (hcount : (s.handleBatch h events).assigned.length <= 2 ^ 64) :
    Account log inv (fun client => stream client ++ streamOf h s events client)
        (s.handleBatch h events) ∧
      Idle (s.handleBatch h events) := by
  induction events generalizing s stream with
  | nil =>
      have hnothing : (fun client => stream client ++ streamOf h s [] client) = stream := by
        funext client
        exact List.append_nil _
      rw [hnothing]
      exact ⟨hs, hidle⟩
  | cons event events ih =>
      have hgrows := length_assigned_handleBatch h (s.handleEvent h event) events
      rcases hs.handleEvent hkeeps hidle event (Nat.le_trans hgrows hcount) with
        ⟨hafter, hidle'⟩
      have hsplit : (fun client => stream client ++ streamOf h s (event :: events) client) =
          fun client => (stream client ++ s.readBy event client) ++
            streamOf h (s.handleEvent h event) events client := by
        funext client
        rw [List.append_assoc]
        rfl
      rw [hsplit]
      exact ih hafter hidle' hcount

end TcpServer
end Tcp
end MiniExchange
