import MiniExchange.Tcp.Replies

/-!
# Outbound byte streams

What is written to one connection between the calls of `send_to_client` and the
writable events of epoll.  The kernel takes any part of a write buffer, refuses
or is interrupted at each `send`; what it has not taken stays in the buffer.
-/

namespace MiniExchange
namespace Tcp

open Foundation

inductive WriteCall where
  | send (client : ClientId) (data : Bytes)
  /-- A writable event, which `handle_write` answers. -/
  | writable (fd : Fd)
deriving DecidableEq, Repr

namespace TcpServer

variable {κ : Type} {s : TcpServer κ} {fd : Fd} {conn kept : Connection}

def write (s : TcpServer κ) : WriteCall -> TcpServer κ
  | .send client data => s.sendToClient client data
  | .writable fd => s.handleWrite fd

def target (s : TcpServer κ) : WriteCall -> Option Fd
  | .send client _ => s.clientToFd client
  | .writable fd => some fd

/-- What a call passes to `send_to_client` for a descriptor. -/
def passed (s : TcpServer κ) (fd : Fd) (call : WriteCall) : Bytes :=
  match call with
  | .send _ data => if s.target call = some fd then data else []
  | .writable _ => []

/-- What the kernel accepts for a descriptor during a call; the account is kept by client. -/
def accepted (s : TcpServer κ) (fd : Fd) (id : ClientId) (call : WriteCall) : Bytes :=
  if s.target call = some fd then ((s.write call).taken id).drop (s.taken id).length else []

def writes (s : TcpServer κ) (calls : List WriteCall) : TcpServer κ :=
  Machine.run write s calls

def allPassed (s : TcpServer κ) (fd : Fd) (calls : List WriteCall) : Bytes :=
  (Machine.visits write s calls).flatMap fun v => v.1.passed fd v.2

def allAccepted (s : TcpServer κ) (fd : Fd) (id : ClientId) (calls : List WriteCall) : Bytes :=
  (Machine.visits write s calls).flatMap fun v => v.1.accepted fd id v.2

/-- What the calls pass to `send_to_client` under a client id, whatever becomes of it. -/
def sentTo (id : ClientId) (calls : List WriteCall) : Bytes :=
  calls.flatMap fun
    | .send client data => if client = id then data else []
    | .writable _ => []

structure Writing (s : TcpServer κ) (fd : Fd) (conn : Connection) : Prop where
  stored : s.connections fd = some conn
  registered : s.interest fd ≠ none
  capped : s.maxWriteBufferBytes ≠ 0 -> conn.writeBuffer.length <= s.maxWriteBufferBytes
  armed : conn.writeBuffer ≠ [] -> s.interest fd = some true

/-!
## A flush
-/

theorem interest_closeConnection_of_ne {other : Fd} (hne : other ≠ fd) :
    (s.closeConnection fd).interest other = s.interest other := by
  rcases closeConnection_eq s fd with ⟨clientToFd, hclose⟩
  rw [hclose]
  exact Function.update_of_ne hne _ _

theorem flushLoop_stream (buffer : Bytes) (answers : List SendAnswer) :
    (flushLoop buffer answers).taken ++ (flushLoop buffer answers).left = buffer := by
  fun_induction flushLoop buffer answers with
  | case1 answers => rfl
  | case2 buffer hbuffer => rfl
  | case3 buffer n answers hbuffer rest ih =>
      show (buffer.take n ++ rest.taken) ++ rest.left = buffer
      rw [List.append_assoc, ih, List.take_append_drop]
  | case4 buffer answers hbuffer => rfl
  | case5 buffer answers hbuffer ih => exact ih
  | case6 buffer answers hbuffer => rfl

theorem flushLoop_drained (buffer : Bytes) (answers : List SendAnswer)
    (h : (flushLoop buffer answers).outcome = .drained) :
    (flushLoop buffer answers).left = [] := by
  fun_induction flushLoop buffer answers with
  | case1 answers => rfl
  | case2 buffer hbuffer => cases h
  | case3 buffer n answers hbuffer rest ih => exact ih h
  | case4 buffer answers hbuffer => cases h
  | case5 buffer answers hbuffer ih => exact ih h
  | case6 buffer answers hbuffer => cases h

structure Carried (s : TcpServer κ) (fd : Fd) (conn : Connection) (buffer : Bytes)
    (t : TcpServer κ) (kept : Connection) : Prop where
  writing : Writing t fd kept
  id : kept.id = conn.id
  stream : exists sent, t.taken conn.id = s.taken conn.id ++ sent ∧
    sent ++ kept.writeBuffer = buffer

theorem carried_flushWriteBuffer (hconn : s.connections fd = some conn)
    (hregistered : s.interest fd ≠ none)
    (hcapped : s.maxWriteBufferBytes ≠ 0 -> conn.writeBuffer.length <= s.maxWriteBufferBytes)
    (hkept : (s.flushWriteBuffer fd).connections fd = some kept) :
    Carried s fd conn conn.writeBuffer (s.flushWriteBuffer fd) kept := by
  have hsent : (flushLoop conn.writeBuffer s.sends).outcome ≠ .broken := by
    intro hbroken
    rw [flushWriteBuffer_broken hconn hbroken] at hkept
    cases hkept
  rcases flushWriteBuffer_kept hconn hsent with ⟨hstored, -, -, hbound⟩
  rw [hstored] at hkept
  cases hkept
  have hstream := flushLoop_stream conn.writeBuffer s.sends
  have hleft : (flushLoop conn.writeBuffer s.sends).left.length <= conn.writeBuffer.length := by
    have hlength := congrArg List.length hstream
    rw [List.length_append] at hlength
    omega
  have htaken : (s.flushWriteBuffer fd).taken conn.id =
      s.taken conn.id ++ (flushLoop conn.writeBuffer s.sends).taken := by
    unfold flushWriteBuffer
    rw [hconn]
    dsimp only
    split <;> simp [setEpollout, taken_closeConnection]
  have hinterest : (s.flushWriteBuffer fd).interest fd = some
      (decide ((flushLoop conn.writeBuffer s.sends).outcome = .blocked)) := by
    rcases Option.ne_none_iff_exists.mp hregistered with ⟨watched, hwatched⟩
    unfold flushWriteBuffer
    rw [hconn]
    dsimp only
    cases hout : (flushLoop conn.writeBuffer s.sends).outcome with
    | drained => simp [setEpollout, setConnection, ← hwatched]
    | blocked => simp [setEpollout, setConnection, ← hwatched]
    | broken => exact absurd hout hsent
  refine ⟨⟨hstored, ?_, ?_, ?_⟩, rfl, _, htaken, hstream⟩
  · rw [hinterest]
    exact Option.some_ne_none _
  · rw [hbound]
    exact fun hcap => Nat.le_trans hleft (hcapped hcap)
  · intro hpending
    rw [hinterest]
    cases hout : (flushLoop conn.writeBuffer s.sends).outcome with
    | drained => exact absurd (flushLoop_drained _ _ hout) hpending
    | blocked => rfl
    | broken => exact absurd hout hsent

/-!
## A call
-/

theorem Writing.own (h : Writing s fd conn) {call : WriteCall} (htarget : s.target call = some fd)
    (hkept : (s.write call).connections fd = some kept) :
    Carried s fd conn (conn.writeBuffer ++ s.passed fd call) (s.write call) kept := by
  cases call with
  | send client data =>
      have hpassed : s.passed fd (.send client data) = data := if_pos htarget
      have hwrite : s.write (.send client data) = _ :=
        sendToClient_of_some htarget h.stored data
      rw [hwrite] at hkept
      rw [hpassed, hwrite]
      split at hkept
      · rw [connections_closeConnection, Function.update_self] at hkept
        cases hkept
      · next hbound =>
          rw [if_neg hbound]
          have hcarried := carried_flushWriteBuffer
            (connections_setConnection_self s fd
              { conn with writeBuffer := conn.writeBuffer ++ data })
            h.registered
            (fun hcap => Nat.le_of_not_lt fun hlt => hbound ⟨hcap, hlt⟩) hkept
          exact ⟨hcarried.writing, hcarried.id, hcarried.stream⟩
  | writable target =>
      cases htarget
      have hcarried := carried_flushWriteBuffer h.stored h.registered h.capped hkept
      have hpassed : s.passed fd (.writable fd) = [] := rfl
      rw [hpassed, List.append_nil]
      exact hcarried

theorem interest_flushWriteBuffer_of_ne {other : Fd} (hne : other ≠ fd) :
    (s.flushWriteBuffer fd).interest other = s.interest other := by
  unfold flushWriteBuffer
  cases s.connections fd with
  | none => rfl
  | some conn =>
      dsimp only
      split
      · exact Function.update_of_ne hne _ _
      · exact Function.update_of_ne hne _ _
      · exact interest_closeConnection_of_ne hne

theorem write_of_ne {call : WriteCall} (htarget : s.target call ≠ some fd) :
    (s.write call).connections fd = s.connections fd ∧
      (s.write call).interest fd = s.interest fd := by
  cases call with
  | send client data =>
      refine ⟨sendToClient_of_ne htarget data, ?_⟩
      show (s.sendToClient client data).interest fd = s.interest fd
      unfold sendToClient
      cases hclient : s.clientToFd client with
      | none => rfl
      | some other =>
          have hne : fd ≠ other := by
            rintro rfl
            exact htarget hclient
          dsimp only
          cases s.connections other with
          | none => rfl
          | some found =>
              dsimp only
              split
              · exact interest_closeConnection_of_ne hne
              · exact interest_flushWriteBuffer_of_ne hne
  | writable other =>
      have hne : fd ≠ other := by
        rintro rfl
        exact htarget rfl
      exact ⟨flushWriteBuffer_of_ne hne, interest_flushWriteBuffer_of_ne hne⟩

theorem outbounds_write (s : TcpServer κ) (call : WriteCall) : Outbounds s (s.write call) := by
  cases call with
  | send client data => exact outbounds_sendToClient s client data
  | writable fd => exact outbounds_flushWriteBuffer s fd

theorem Outbounds.connections_none {t : TcpServer κ} (hsteps : Outbounds s t)
    (hnone : s.connections fd = none) : t.connections fd = none := by
  induction hsteps with
  | refl => exact hnone
  | tail _ hstep ih =>
      cases hstep with
      | @write other old hold buffer =>
          have hne : fd ≠ other := by
            rintro rfl
            rw [ih] at hold
            cases hold
          exact (Function.update_of_ne hne _ _).trans ih
      | close other =>
          rw [connections_closeConnection]
          by_cases hfd : fd = other
          · rw [hfd, Function.update_self]
          · rw [Function.update_of_ne hfd, ih]
      | kernel => exact ih

theorem Outbounds.tables {t : TcpServer κ} (hsteps : Outbounds s t) (h : Tables s) :
    Tables t := by
  induction hsteps with
  | refl => exact h
  | tail _ hstep ih => exact hstep.tables ih

theorem Writing.step (h : Writing s fd conn) {call : WriteCall}
    (hkept : (s.write call).connections fd = some kept) :
    Writing (s.write call) fd kept ∧ kept.id = conn.id ∧
      s.accepted fd conn.id call ++ kept.writeBuffer =
        conn.writeBuffer ++ s.passed fd call := by
  by_cases htarget : s.target call = some fd
  · rcases h.own htarget hkept with ⟨hwriting, hid, sent, htaken, hstream⟩
    refine ⟨hwriting, hid, ?_⟩
    have haccepted : s.accepted fd conn.id call = sent := by
      unfold accepted
      rw [if_pos htarget, htaken, List.drop_left]
    rw [haccepted, hstream]
  · rcases write_of_ne htarget with ⟨hconnections, hinterest⟩
    have hsteps : ServerSteps (fun _ => True) s (s.write call) :=
      (outbounds_write s call).serverSteps
    have hbound := hsteps.setup.right.right
    have hpassed : s.passed fd call = [] := by
      cases call with
      | send client data => exact if_neg htarget
      | writable other => rfl
    have haccepted : s.accepted fd conn.id call = [] := if_neg htarget
    rw [hconnections, h.stored] at hkept
    cases hkept
    refine ⟨⟨?_, ?_, ?_, ?_⟩, rfl, ?_⟩
    · rw [hconnections, h.stored]
    · rw [hinterest]
      exact h.registered
    · rw [hbound]
      exact h.capped
    · rw [hinterest]
      exact h.armed
    · rw [haccepted, hpassed, List.nil_append, List.append_nil]

/-!
## Any number of calls
-/

theorem outbounds_writes (s : TcpServer κ) (calls : List WriteCall) :
    Outbounds s (s.writes calls) :=
  Machine.run_invariant (fun t call h => h.trans (outbounds_write t call))
    Relation.ReflTransGen.refl calls

theorem connections_write {call : WriteCall} {calls : List WriteCall}
    (hkept : (s.writes (call :: calls)).connections fd = some kept) :
    exists first, (s.write call).connections fd = some first := by
  cases hfirst : (s.write call).connections fd with
  | some first => exact ⟨first, rfl⟩
  | none =>
      have hnone := (outbounds_writes (s.write call) calls).connections_none hfirst
      have hrun : (s.writes (call :: calls)).connections fd = none := hnone
      rw [hkept] at hrun
      cases hrun

theorem Writing.run (h : Writing s fd conn) (calls : List WriteCall)
    (hkept : (s.writes calls).connections fd = some kept) :
    Writing (s.writes calls) fd kept ∧
      s.allAccepted fd conn.id calls ++ kept.writeBuffer =
        conn.writeBuffer ++ s.allPassed fd calls := by
  induction calls generalizing s conn with
  | nil =>
      have hsame : kept = conn := Option.some.inj (hkept.symm.trans h.stored)
      rw [hsame]
      exact ⟨h, (List.append_nil conn.writeBuffer).symm⟩
  | cons call calls ih =>
      rcases connections_write hkept with ⟨first, hfirst⟩
      rcases h.step hfirst with ⟨hwriting, hid, hstream⟩
      rcases ih hwriting hkept with ⟨hrest, hstreams⟩
      refine ⟨hrest, ?_⟩
      show (s.accepted fd conn.id call ++ (s.write call).allAccepted fd conn.id calls) ++
          kept.writeBuffer =
        conn.writeBuffer ++ (s.passed fd call ++ (s.write call).allPassed fd calls)
      rw [← hid] at hstream ⊢
      rw [List.append_assoc, hstreams, ← List.append_assoc, hstream, List.append_assoc]

/-!
## Client ids
-/

theorem Tables.passed_eq (htables : Tables s) (hconn : s.connections fd = some conn)
    (call : WriteCall) : s.passed fd call = sentTo conn.id [call] := by
  cases call with
  | send client data =>
      have htarget : s.clientToFd client = some fd <-> client = conn.id := by
        constructor
        · intro hroute
          rcases htables.backward client fd hroute with ⟨found, hfound, rfl⟩
          rw [hconn] at hfound
          cases hfound
          rfl
        · rintro rfl
          exact htables.forward fd conn hconn
      simp [passed, target, sentTo, htarget]
  | writable other => rfl

theorem Tables.taken_write (htables : Tables s) (h : Writing s fd conn) {call : WriteCall}
    (hkept : (s.write call).connections fd = some kept) :
    (s.write call).taken conn.id = s.taken conn.id ++ s.accepted fd conn.id call := by
  by_cases htarget : s.target call = some fd
  · rcases (h.own htarget hkept).stream with ⟨sent, htaken, -⟩
    unfold accepted
    rw [if_pos htarget, htaken, List.drop_left]
  · have haccepted : s.accepted fd conn.id call = [] := if_neg htarget
    rw [haccepted, List.append_nil]
    cases call with
    | send client data =>
        refine (htables.sendToClient_others client data).right conn.id ?_
        rintro rfl
        exact htarget (htables.forward fd conn h.stored)
    | writable other =>
        show (s.flushWriteBuffer other).taken conn.id = s.taken conn.id
        cases hother : s.connections other with
        | none =>
            unfold flushWriteBuffer
            rw [hother]
        | some found =>
            refine taken_flushWriteBuffer_of_ne hother fun hid => htarget ?_
            show some other = some fd
            rw [htables.fd_unique h.stored hother hid]

theorem Tables.writes_by_client (htables : Tables s) (h : Writing s fd conn)
    (calls : List WriteCall) (hkept : (s.writes calls).connections fd = some kept) :
    s.allPassed fd calls = sentTo conn.id calls ∧
      (s.writes calls).taken conn.id = s.taken conn.id ++ s.allAccepted fd conn.id calls := by
  induction calls generalizing s conn with
  | nil => exact ⟨rfl, (List.append_nil _).symm⟩
  | cons call calls ih =>
      rcases connections_write hkept with ⟨first, hfirst⟩
      rcases h.step hfirst with ⟨hwriting, hid, -⟩
      have hafter := (outbounds_write s call).tables htables
      rcases ih hafter hwriting hkept with ⟨hpassed, htaken⟩
      rw [hid] at hpassed htaken
      constructor
      · show s.passed fd call ++ (s.write call).allPassed fd calls =
          sentTo conn.id ([call] ++ calls)
        rw [htables.passed_eq h.stored, hpassed]
        exact (List.flatMap_append ..).symm
      · show ((s.write call).writes calls).taken conn.id = s.taken conn.id ++
          (s.accepted fd conn.id call ++ (s.write call).allAccepted fd conn.id calls)
        rw [htaken, htables.taken_write h hfirst, List.append_assoc]

/-!
## From the accept on
-/

theorem writing_acceptOne (hopened : s.opened fd = false) (hfree : s.connections fd = none) :
    Writing (s.acceptOne fd true true) fd { fd := fd, id := ⟨s.nextClientId⟩ } where
  stored := by simp [acceptOne, hopened, emplace_of_none hfree]
  registered := by simp [acceptOne, hopened]
  capped := fun _ => Nat.zero_le _
  armed := fun hpending => absurd rfl hpending

end TcpServer

open TcpServer

/--
A connection is accepted on a free descriptor in any state of the server.  After
every sequence of calls that leaves it open, what the kernel has accepted for it
followed by its write buffer is what was passed to `send_to_client` for it, the
buffer is within its bound, and EPOLLOUT is armed unless the buffer is empty.
While ids are distinct, what was passed for the connection is what was passed
under its client id, and the account of the client is that of the connection.
-/
theorem outbound_stream_exact {κ : Type} (s : TcpServer κ) (fd : Fd)
    (hopened : s.opened fd = false) (hfree : s.connections fd = none) (calls : List WriteCall)
    (start after : TcpServer κ) (hstart : start = s.acceptOne fd true true)
    (hafter : after = start.writes calls) (conn : Connection)
    (hconn : after.connections fd = some conn) :
    start.allAccepted fd ⟨s.nextClientId⟩ calls ++ conn.writeBuffer = start.allPassed fd calls ∧
    (after.maxWriteBufferBytes ≠ 0 ->
      conn.writeBuffer.length <= after.maxWriteBufferBytes) ∧
    (conn.writeBuffer ≠ [] -> after.interest fd = some true) ∧
    (Tables s -> s.assigned.length < 2 ^ 64 ->
      start.allPassed fd calls = sentTo ⟨s.nextClientId⟩ calls ∧
        after.taken ⟨s.nextClientId⟩ =
          s.taken ⟨s.nextClientId⟩ ++ start.allAccepted fd ⟨s.nextClientId⟩ calls) := by
  subst hstart hafter
  have hwriting := writing_acceptOne hopened hfree
  rcases hwriting.run calls hconn with ⟨hrun, hstream⟩
  refine ⟨hstream, hrun.capped, hrun.armed, ?_⟩
  intro htables hcount
  have hstart := htables.acceptOne hcount fd true true
  rcases hstart.writes_by_client hwriting calls hconn with ⟨hpassed, htaken⟩
  refine ⟨hpassed, ?_⟩
  have hbefore : (s.acceptOne fd true true).taken = s.taken := by
    simp [acceptOne, hopened]
  rw [htaken, hbefore]

namespace OneClient

def slowServer : TcpServer Unit :=
  TcpServer.new 3 4 2 (fun _ => false) () [.sent 1, .again]

def slowCalls : List WriteCall :=
  [.send ⟨1⟩ [7, 8], .send ⟨1⟩ [9], .writable 5]

theorem outbound_stream_slow :
    ((slowServer.acceptOne 5 true true).writes slowCalls).connections 5 =
        some { fd := 5, id := ⟨1⟩, writeBuffer := [8, 9] } ∧
      (slowServer.acceptOne 5 true true).allAccepted 5 ⟨1⟩ slowCalls ++ [8, 9] =
        (slowServer.acceptOne 5 true true).allPassed 5 slowCalls ∧
      ((slowServer.acceptOne 5 true true).writes slowCalls).interest 5 = some true := by
  have hconn : ((slowServer.acceptOne 5 true true).writes slowCalls).connections 5 =
      some { fd := 5, id := ⟨1⟩, writeBuffer := [8, 9] } := rfl
  rcases outbound_stream_exact slowServer 5 rfl rfl slowCalls _ _ rfl rfl _ hconn with
    ⟨hstream, -, harmed, -⟩
  exact ⟨hconn, hstream, harmed (List.cons_ne_nil 8 [9])⟩

end OneClient

end Tcp
end MiniExchange
