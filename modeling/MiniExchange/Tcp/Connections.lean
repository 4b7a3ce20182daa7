import Mathlib.Data.List.Nodup
import MiniExchange.Tcp.Steps

/-!
# Connection tables

`connections_` maps descriptors to connections and `client_to_fd_` maps client
ids back to descriptors.  The two are updated separately by accepts, failed
registrations and every close path.  Client ids are 64-bit counters, so they
are unique for the first 2^64 accepted connections.
-/

namespace MiniExchange
namespace Tcp

open Foundation

namespace TcpServer

variable {κ : Type} {s t : TcpServer κ} {fd : Fd} {id : ClientId} {conn : Connection}

/-- The two tables are inverse, and ids are handed out in order. -/
structure Tables (s : TcpServer κ) : Prop where
  stored_fd : forall fd conn, s.connections fd = some conn -> conn.fd = fd
  forward : forall fd conn, s.connections fd = some conn -> s.clientToFd conn.id = some fd
  backward : forall id fd, s.clientToFd id = some fd ->
    exists conn, s.connections fd = some conn ∧ conn.id = id
  opened : forall fd conn, s.connections fd = some conn -> s.opened fd = true
  assigned : forall fd conn, s.connections fd = some conn -> (conn.id, fd) ∈ s.assigned
  next : s.nextClientId = UInt64.ofNat (s.assigned.length + 1)
  numbered : forall (i : Nat) (x : ClientId × Fd), s.assigned[i]? = some x ->
    x.1 = ⟨UInt64.ofNat (i + 1)⟩

theorem tables_new (listenerFd eventfd : Fd) (maxWriteBufferBytes : Nat) (others : Fd -> Bool)
    (app : κ) (sends : List SendAnswer) :
    Tables (TcpServer.new listenerFd eventfd maxWriteBufferBytes others app sends) where
  stored_fd := fun _ _ h => by cases h
  forward := fun _ _ h => by cases h
  backward := fun _ _ h => by cases h
  opened := fun _ _ h => by cases h
  assigned := fun _ _ h => by cases h
  next := rfl
  numbered := fun _ _ h => by cases h

/-!
## Writes and closes
-/

theorem Tables.setConnection (h : Tables s) {old : Connection} (hold : s.connections fd = some old)
    (hfd : conn.fd = old.fd) (hid : conn.id = old.id) : Tables (s.setConnection fd conn) where
  stored_fd := by
    intro other found hfound
    rcases connections_setConnection hfound with ⟨rfl, rfl⟩ | ⟨-, hkept⟩
    · exact hfd.trans (h.stored_fd other old hold)
    · exact h.stored_fd other found hkept
  forward := by
    intro other found hfound
    rcases connections_setConnection hfound with ⟨rfl, rfl⟩ | ⟨-, hkept⟩
    · rw [hid]
      exact h.forward other old hold
    · exact h.forward other found hkept
  backward := by
    intro client other hother
    rcases h.backward client other hother with ⟨found, hfound, hclient⟩
    by_cases hsame : other = fd
    · rw [hsame] at hfound ⊢
      refine ⟨conn, connections_setConnection_self s fd conn, ?_⟩
      rw [hid, ← hclient, Option.some.inj (hold.symm.trans hfound)]
    · refine ⟨found, ?_, hclient⟩
      rw [← hfound]
      exact Function.update_of_ne hsame _ s.connections
  opened := by
    intro other found hfound
    rcases connections_setConnection hfound with ⟨rfl, rfl⟩ | ⟨-, hkept⟩
    · exact h.opened other old hold
    · exact h.opened other found hkept
  assigned := by
    intro other found hfound
    rcases connections_setConnection hfound with ⟨rfl, rfl⟩ | ⟨-, hkept⟩
    · rw [hid]
      exact h.assigned other old hold
    · exact h.assigned other found hkept
  next := h.next
  numbered := h.numbered

theorem Tables.fd_unique (h : Tables s) {other : Fd} {found : Connection}
    (hconn : s.connections fd = some conn) (hfound : s.connections other = some found)
    (hid : conn.id = found.id) : fd = other := by
  have hforward := h.forward fd conn hconn
  rw [hid, h.forward other found hfound] at hforward
  exact (Option.some.inj hforward).symm

theorem Tables.closeConnection (h : Tables s) (fd : Fd) : Tables (s.closeConnection fd) := by
  cases hconn : s.connections fd with
  | none =>
      rw [closeConnection_of_none hconn]
      refine { h with opened := ?_ }
      intro other found hfound
      have hne : other ≠ fd := by
        rintro rfl
        cases hconn.symm.trans hfound
      exact (Function.update_of_ne hne _ _).trans (h.opened other found hfound)
  | some conn =>
      have hkept : forall other found, (s.closeConnection fd).connections other = some found ->
          other ≠ fd ∧ s.connections other = some found :=
        fun other found hfound => connections_of_closeConnection hfound
      rw [closeConnection_of_some hconn] at hkept ⊢
      constructor
      · exact fun other found hfound => h.stored_fd other found (hkept other found hfound).right
      · intro other found hfound
        rcases hkept other found hfound with ⟨hne, hstored⟩
        have hid : found.id ≠ conn.id := fun hid => hne (h.fd_unique hstored hconn hid)
        exact (Function.update_of_ne hid _ _).trans (h.forward other found hstored)
      · intro client other hother
        by_cases hid : client = conn.id
        · rw [hid] at hother
          simp only [Function.update_self] at hother
          cases hother
        · simp only [Function.update_of_ne hid] at hother
          rcases h.backward client other hother with ⟨found, hfound, hclient⟩
          have hne : other ≠ fd := by
            rintro rfl
            rw [hconn] at hfound
            cases hfound
            exact hid hclient.symm
          exact ⟨found, (Function.update_of_ne hne _ _).trans hfound, hclient⟩
      · intro other found hfound
        rcases hkept other found hfound with ⟨hne, hstored⟩
        exact (Function.update_of_ne hne _ _).trans (h.opened other found hstored)
      · exact fun other found hfound => h.assigned other found (hkept other found hfound).right
      · exact h.next
      · exact h.numbered

/-!
## Accepts
-/

theorem numbers_distinct {n i : Nat} (hn : n < 2 ^ 64) (hi : i < n) :
    UInt64.ofNat (i + 1) ≠ UInt64.ofNat (n + 1) := by
  intro heq
  have hvalue := congrArg UInt64.toNat heq
  rw [UInt64.toNat_ofNat', UInt64.toNat_ofNat'] at hvalue
  omega

theorem Tables.fresh_id (h : Tables s) (hcount : s.assigned.length < 2 ^ 64) :
    s.clientToFd ⟨s.nextClientId⟩ = none := by
  cases hfound : s.clientToFd ⟨s.nextClientId⟩ with
  | none => rfl
  | some fd =>
      rcases h.backward _ fd hfound with ⟨conn, hconn, hid⟩
      rcases List.getElem?_of_mem (h.assigned fd conn hconn) with ⟨i, hi⟩
      have hnumber := h.numbered i _ hi
      have hbound := (List.getElem?_eq_some_iff.mp hi).choose
      have hsame : UInt64.ofNat (i + 1) = UInt64.ofNat (s.assigned.length + 1) := by
        rw [← h.next]
        exact (congrArg ClientId.value (hnumber.symm.trans hid))
      exact absurd hsame (numbers_distinct hcount hbound)

theorem Tables.fresh_fd (h : Tables s) (hopened : s.opened fd = false) :
    s.connections fd = none := by
  cases hconn : s.connections fd with
  | none => rfl
  | some conn =>
      rw [h.opened fd conn hconn] at hopened
      cases hopened

/-- One accepted descriptor: skipped, registered, or refused by epoll. -/
theorem acceptOne_cases (s : TcpServer κ) (fd : Fd) (nodelay registered : Bool) :
    s.acceptOne fd nodelay registered = s ∨
      s.opened fd = false ∧
        (s.acceptOne fd nodelay registered = s.acceptOne fd true true ∨
          s.acceptOne fd nodelay registered = s.acceptOne fd true false) := by
  cases hopened : s.opened fd with
  | true =>
      left
      simp [acceptOne, hopened]
  | false =>
      cases nodelay with
      | false =>
          left
          simp [acceptOne, hopened]
      | true =>
          cases registered with
          | true => exact Or.inr ⟨rfl, Or.inl rfl⟩
          | false => exact Or.inr ⟨rfl, Or.inr rfl⟩

theorem emplace_of_none {α β : Type} [DecidableEq α] {map : α -> Option β} {key : α}
    (h : map key = none) (value : β) :
    emplace map key value = Function.update map key (some value) := by
  unfold emplace
  rw [h]

theorem emplace_of_ne {α β : Type} [DecidableEq α] {key other : α} (h : other ≠ key)
    (map : α -> Option β) (value : β) : emplace map key value other = map other := by
  cases hkey : map key with
  | none => rw [emplace_of_none hkey, Function.update_of_ne h]
  | some old =>
      unfold emplace
      rw [hkey]

theorem acceptOne_registered (hopened : s.opened fd = false) (hfd : s.connections fd = none)
    (hid : s.clientToFd ⟨s.nextClientId⟩ = none) :
    s.acceptOne fd true true = { s with
      nextClientId := s.nextClientId + 1
      assigned := s.assigned ++ [(⟨s.nextClientId⟩, fd)]
      connections := Function.update s.connections fd
        (some { fd := fd, id := ⟨s.nextClientId⟩ })
      clientToFd := Function.update s.clientToFd ⟨s.nextClientId⟩ (some fd)
      opened := Function.update s.opened fd true
      interest := Function.update s.interest fd (some false) } := by
  simp [acceptOne, hopened, emplace_of_none hfd, emplace_of_none hid]

theorem acceptOne_refused (hopened : s.opened fd = false) (hfd : s.connections fd = none)
    (hid : s.clientToFd ⟨s.nextClientId⟩ = none) :
    s.acceptOne fd true false = { s with
      nextClientId := s.nextClientId + 1
      assigned := s.assigned ++ [(⟨s.nextClientId⟩, fd)] } := by
  simp [acceptOne, hopened, emplace_of_none hfd, emplace_of_none hid, hfd, hid]

theorem Tables.record (h : Tables s) (fd : Fd) :
    Tables { s with
      nextClientId := s.nextClientId + 1
      assigned := s.assigned ++ [(⟨s.nextClientId⟩, fd)] } := by
  refine { h with assigned := ?_, next := ?_, numbered := ?_ }
  · intro other found hfound
    exact List.mem_append_left _ (h.assigned other found hfound)
  · show s.nextClientId + 1 = UInt64.ofNat ((s.assigned ++ [_]).length + 1)
    rw [h.next, List.length_append, List.length_singleton,
      UInt64.ofNat_add (s.assigned.length + 1) 1]
    rfl
  · intro i x hx
    rcases Nat.lt_or_ge i s.assigned.length with hlt | hge
    · rw [List.getElem?_append_left hlt] at hx
      exact h.numbered i x hx
    · rw [List.getElem?_append_right hge] at hx
      have hlast := List.mem_singleton.mp (List.mem_of_getElem? hx)
      have hposition : i = s.assigned.length := by
        have hbound := (List.getElem?_eq_some_iff.mp hx).choose
        rw [List.length_singleton] at hbound
        omega
      rw [hlast, hposition, h.next]

theorem Tables.register (h : Tables s) (hcount : s.assigned.length < 2 ^ 64)
    (hopened : s.opened fd = false) :
    Tables { s with
      nextClientId := s.nextClientId + 1
      assigned := s.assigned ++ [(⟨s.nextClientId⟩, fd)]
      connections := Function.update s.connections fd
        (some { fd := fd, id := ⟨s.nextClientId⟩ })
      clientToFd := Function.update s.clientToFd ⟨s.nextClientId⟩ (some fd)
      opened := Function.update s.opened fd true
      interest := Function.update s.interest fd (some false) } := by
  have hfd := h.fresh_fd hopened
  have hid := h.fresh_id hcount
  have hrecord := h.record fd
  -- The new connection, or one that was there before.
  have hstored : forall other found,
      Function.update s.connections fd (some { fd := fd, id := ⟨s.nextClientId⟩ }) other =
        some found ->
      other = fd ∧ found = { fd := fd, id := ⟨s.nextClientId⟩ } ∨
        other ≠ fd ∧ s.connections other = some found :=
    fun other found hfound => connections_setConnection hfound
  refine { hrecord with
    stored_fd := ?_, forward := ?_, backward := ?_, opened := ?_, assigned := ?_ }
  · intro other found hfound
    rcases hstored other found hfound with ⟨rfl, rfl⟩ | ⟨-, hkept⟩
    · rfl
    · exact h.stored_fd other found hkept
  · intro other found hfound
    rcases hstored other found hfound with ⟨rfl, rfl⟩ | ⟨-, hkept⟩
    · exact Function.update_self _ _ _
    · have hold := h.forward other found hkept
      have hne : found.id ≠ ⟨s.nextClientId⟩ := by
        intro hsame
        rw [hsame, hid] at hold
        cases hold
      exact (Function.update_of_ne hne _ _).trans hold
  · intro client other hother
    by_cases hclient : client = ⟨s.nextClientId⟩
    · rw [hclient] at hother
      simp only [Function.update_self] at hother
      cases hother
      exact ⟨{ fd := fd, id := ⟨s.nextClientId⟩ }, Function.update_self _ _ _, hclient.symm⟩
    · simp only [Function.update_of_ne hclient] at hother
      rcases h.backward client other hother with ⟨found, hfound, hfoundid⟩
      have hne : other ≠ fd := by
        rintro rfl
        rw [hfd] at hfound
        cases hfound
      exact ⟨found, (Function.update_of_ne hne _ _).trans hfound, hfoundid⟩
  · intro other found hfound
    rcases hstored other found hfound with ⟨rfl, -⟩ | ⟨hne, hkept⟩
    · exact Function.update_self _ _ _
    · exact (Function.update_of_ne hne _ _).trans (h.opened other found hkept)
  · intro other found hfound
    rcases hstored other found hfound with ⟨rfl, rfl⟩ | ⟨-, hkept⟩
    · exact List.mem_append_right _ (List.mem_singleton.mpr rfl)
    · exact hrecord.assigned other found hkept

theorem Tables.acceptOne (h : Tables s) (hcount : s.assigned.length < 2 ^ 64) (fd : Fd)
    (nodelay registered : Bool) : Tables (s.acceptOne fd nodelay registered) := by
  rcases acceptOne_cases s fd nodelay registered with hskip | ⟨hopened, hdone | hdone⟩
  · rw [hskip]
    exact h
  · rw [hdone, acceptOne_registered hopened (h.fresh_fd hopened) (h.fresh_id hcount)]
    exact h.register hcount hopened
  · rw [hdone, acceptOne_refused hopened (h.fresh_fd hopened) (h.fresh_id hcount)]
    exact h.record fd

/-!
## Steps and runs
-/

theorem assigned_closeConnection (s : TcpServer κ) (fd : Fd) :
    (s.closeConnection fd).assigned = s.assigned := by
  rcases closeConnection_eq s fd with ⟨clientToFd, hclose⟩
  rw [hclose]

theorem Tables.connections_acceptOne (h : Tables s) (hcount : s.assigned.length < 2 ^ 64)
    {nodelay registered : Bool} {other : Fd} {conn : Connection}
    (hconn : (s.acceptOne fd nodelay registered).connections other = some conn) :
    s.connections other = some conn ∨ conn = { fd := other, id := ⟨s.nextClientId⟩ } := by
  rcases acceptOne_cases s fd nodelay registered with hskip | ⟨hopened, hdone | hdone⟩
  · rw [hskip] at hconn
    exact Or.inl hconn
  · rw [hdone, acceptOne_registered hopened (h.fresh_fd hopened) (h.fresh_id hcount)] at hconn
    rcases connections_setConnection (s := s) hconn with ⟨rfl, hnew⟩ | ⟨-, hkept⟩
    · exact Or.inr hnew
    · exact Or.inl hkept
  · rw [hdone, acceptOne_refused hopened (h.fresh_fd hopened) (h.fresh_id hcount)] at hconn
    exact Or.inl hconn

theorem assigned_acceptOne {x : ClientId × Fd} (hx : x ∈ s.assigned) (fd : Fd)
    (nodelay registered : Bool) : x ∈ (s.acceptOne fd nodelay registered).assigned := by
  unfold acceptOne
  dsimp only
  split_ifs
  · exact hx
  · exact hx
  · exact List.mem_append_left _ hx
  · exact List.mem_append_left _ hx

theorem length_assigned_acceptOne (s : TcpServer κ) (fd : Fd) (nodelay registered : Bool) :
    s.acceptOne fd nodelay registered = s ∨
      (s.acceptOne fd nodelay registered).assigned.length = s.assigned.length + 1 := by
  rcases acceptOne_cases s fd nodelay registered with hskip | ⟨hopened, hdone | hdone⟩
  · exact Or.inl hskip
  · rw [hdone]
    right
    simp [acceptOne, hopened]
  · rw [hdone]
    right
    simp [acceptOne, hopened]

theorem ServerStep.length_assigned {may : Fd -> Prop} (h : ServerStep may s t) :
    s.assigned.length <= t.assigned.length := by
  cases h with
  | outbound hout =>
      cases hout with
      | write => exact Nat.le_refl _
      | close fd =>
          rw [assigned_closeConnection]
      | kernel => exact Nat.le_refl _
  | receive => exact Nat.le_refl _
  | note => exact Nat.le_refl _
  | @accept fd nodelay registered _ =>
      rcases length_assigned_acceptOne s fd nodelay registered with hskip | hone
      · rw [hskip]
      · rw [hone]
        exact Nat.le_succ _

theorem Outbound.tables (hstep : Outbound s t) (h : Tables s) : Tables t := by
  cases hstep with
  | write hold buffer => exact h.setConnection hold rfl rfl
  | close fd => exact h.closeConnection fd
  | kernel => exact { h with }

theorem ServerStep.tables {may : Fd -> Prop} (hstep : ServerStep may s t) (h : Tables s)
    (hcount : t.assigned.length <= 2 ^ 64) : Tables t := by
  cases hstep with
  | outbound hout => exact hout.tables h
  | receive hold buffer => exact h.setConnection hold rfl rfl
  | note => exact { h with }
  | @accept fd nodelay registered _ =>
      rcases length_assigned_acceptOne s fd nodelay registered with hskip | hone
      · rw [hskip]
        exact h
      · refine h.acceptOne ?_ fd nodelay registered
        rw [hone] at hcount
        exact hcount

theorem ServerSteps.tables {may : Fd -> Prop} (hsteps : ServerSteps may s t) :
    s.assigned.length <= t.assigned.length ∧
      (Tables s -> t.assigned.length <= 2 ^ 64 -> Tables t) := by
  induction hsteps with
  | refl => exact ⟨Nat.le_refl _, fun h _ => h⟩
  | tail _ hstep ih =>
      have hone := hstep.length_assigned
      refine ⟨Nat.le_trans ih.left hone, ?_⟩
      intro h hcount
      exact hstep.tables (ih.right h (Nat.le_trans hone hcount)) hcount

/-- A property kept by every accept that still finds an unused id. -/
theorem handleAccept_counted {P : TcpServer κ -> Prop} {answers : List AcceptAnswer} (hs : P s)
    (haccept : forall t fd nodelay registered, P t -> t.assigned.length < 2 ^ 64 ->
      P (t.acceptOne fd nodelay registered))
    (hcount : (s.handleAccept answers).assigned.length <= 2 ^ 64) :
    P (s.handleAccept answers) := by
  induction answers generalizing s with
  | nil => exact hs
  | cons answer answers ih =>
      cases answer with
      | accepted fd nodelay registered =>
          refine ih ?_ hcount
          have hsteps : ServerSteps (fun _ => True) (s.acceptOne fd nodelay registered)
              ((s.acceptOne fd nodelay registered).handleAccept answers) :=
            steps_handleAccept (fun _ _ => trivial) _
          have hbound := Nat.le_trans hsteps.tables.left hcount
          rcases length_assigned_acceptOne s fd nodelay registered with hskip | hone
          · rw [hskip]
            exact hs
          · rw [hone] at hbound
            exact haccept s fd nodelay registered hs hbound
      | interrupted => exact ih hs hcount
      | failed => exact hs

inductive Input (κ : Type) where
  | event (event : EpollEvent)
  | send (client : ClientId) (data : Bytes)
  /-- Other threads change what the handlers act on. -/
  | shared (app : κ)
  | shutdown

def step (h : Handlers κ) (s : TcpServer κ) : Input κ -> TcpServer κ
  | .event event => s.handleEvent h event
  | .send client data => s.sendToClient client data
  | .shared app => { s with app := app }
  | .shutdown => s.shutdown

def run (h : Handlers κ) (s : TcpServer κ) (inputs : List (Input κ)) : TcpServer κ :=
  Machine.run (step h) s inputs

theorem Tables.shutdown (h : Tables s) : Tables s.shutdown where
  stored_fd := fun _ _ hconn => by cases hconn
  forward := fun _ _ hconn => by cases hconn
  backward := fun _ _ hfd => by cases hfd
  opened := fun _ _ hconn => by cases hconn
  assigned := fun _ _ hconn => by cases hconn
  next := h.next
  numbered := h.numbered

theorem step_tables (h : Handlers κ) (s : TcpServer κ) (input : Input κ) :
    s.assigned.length <= (s.step h input).assigned.length ∧
      (Tables s -> (s.step h input).assigned.length <= 2 ^ 64 -> Tables (s.step h input)) := by
  cases input with
  | event event =>
      have hsteps : ServerSteps (fun _ => True) s (s.handleEvent h event) :=
        steps_handleEvent h s fun _ _ _ => trivial
      exact hsteps.tables
  | send client data =>
      have hsteps : ServerSteps (fun _ => True) s (s.sendToClient client data) :=
        (outbounds_sendToClient s client data).serverSteps
      exact hsteps.tables
  | shared app => exact ⟨Nat.le_refl _, fun htables _ => { htables with }⟩
  | shutdown => exact ⟨Nat.le_refl _, fun htables _ => htables.shutdown⟩

theorem tables_run {h : Handlers κ} (hs : Tables s) (inputs : List (Input κ))
    (hcount : (s.run h inputs).assigned.length <= 2 ^ 64) : Tables (s.run h inputs) := by
  have hinvariant : (s.run h inputs).assigned.length <= 2 ^ 64 -> Tables (s.run h inputs) := by
    refine Machine.run_invariant
      (P := fun t : TcpServer κ => t.assigned.length <= 2 ^ 64 -> Tables t) ?_ (fun _ => hs) inputs
    intro t input ht hlength
    have hone := step_tables h t input
    exact hone.right (ht (Nat.le_trans hone.left hlength)) hlength
  exact hinvariant hcount

/-!
## Routing
-/

theorem flushWriteBuffer_of_ne {other : Fd} (hne : other ≠ fd) :
    (s.flushWriteBuffer fd).connections other = s.connections other := by
  unfold flushWriteBuffer
  cases hconn : s.connections fd with
  | none => rfl
  | some conn =>
      dsimp only
      split
      · exact Function.update_of_ne hne _ _
      · exact Function.update_of_ne hne _ _
      · rw [connections_closeConnection, Function.update_of_ne hne]
        exact Function.update_of_ne hne _ _

theorem taken_closeConnection (s : TcpServer κ) (fd : Fd) :
    (s.closeConnection fd).taken = s.taken := by
  rcases closeConnection_eq s fd with ⟨clientToFd, hclose⟩
  rw [hclose]

theorem taken_flushWriteBuffer_of_ne {client : ClientId} (hconn : s.connections fd = some conn)
    (hne : client ≠ conn.id) : (s.flushWriteBuffer fd).taken client = s.taken client := by
  unfold flushWriteBuffer
  rw [hconn]
  dsimp only
  split
  · exact Function.update_of_ne hne _ _
  · exact Function.update_of_ne hne _ _
  · rw [taken_closeConnection]
    exact Function.update_of_ne hne _ _

theorem Tables.sendToClient_others (h : Tables s) (client : ClientId) (data : Bytes) :
    (forall fd conn, s.connections fd = some conn -> conn.id ≠ client ->
      (s.sendToClient client data).connections fd = some conn) ∧
    (forall other, other ≠ client ->
      (s.sendToClient client data).taken other = s.taken other) := by
  cases hclient : s.clientToFd client with
  | none =>
      rw [sendToClient_of_none hclient]
      exact ⟨fun _ _ hconn _ => hconn, fun _ _ => rfl⟩
  | some own =>
      rcases h.backward client own hclient with ⟨conn, hconn, rfl⟩
      rw [sendToClient_of_some hclient hconn]
      have hother : forall fd found, s.connections fd = some found -> found.id ≠ conn.id ->
          fd ≠ own := by
        rintro fd found hfound hne rfl
        rw [hconn] at hfound
        cases hfound
        exact hne rfl
      have hkept : forall fd found, fd ≠ own -> s.connections fd = some found ->
          (s.setConnection own { conn with writeBuffer := conn.writeBuffer ++ data }).connections
            fd = some found :=
        fun fd found hne hfound => (Function.update_of_ne hne _ _).trans hfound
      split
      · refine ⟨?_, ?_⟩
        · intro fd found hfound hne
          have hfd := hother fd found hfound hne
          rw [connections_closeConnection, Function.update_of_ne hfd]
          exact hkept fd found hfd hfound
        · intro other _
          rw [taken_closeConnection]
          rfl
      · refine ⟨?_, ?_⟩
        · intro fd found hfound hne
          have hfd := hother fd found hfound hne
          rw [flushWriteBuffer_of_ne hfd]
          exact hkept fd found hfd hfound
        · intro other hne
          exact taken_flushWriteBuffer_of_ne (connections_setConnection_self s own _) hne

theorem Tables.sendToClient_gone (h : Tables s) {client : ClientId}
    (hgone : forall fd conn, s.connections fd = some conn -> conn.id ≠ client) (data : Bytes) :
    s.sendToClient client data = s := by
  cases hclient : s.clientToFd client with
  | none => exact sendToClient_of_none hclient data
  | some fd =>
      rcases h.backward client fd hclient with ⟨conn, hconn, hid⟩
      exact absurd hid (hgone fd conn hconn)

theorem Tables.nodup (h : Tables s) (hcount : s.assigned.length <= 2 ^ 64) :
    (s.assigned.map Prod.fst).Nodup := by
  rw [List.nodup_iff_getElem?_ne_getElem?]
  intro i j hij hj hsame
  rw [List.length_map] at hj
  have hi := Nat.lt_trans hij hj
  rw [List.getElem?_map, List.getElem?_map, List.getElem?_eq_getElem hi,
    List.getElem?_eq_getElem hj] at hsame
  have hids : (s.assigned[i]).1 = (s.assigned[j]).1 := Option.some.inj hsame
  rw [h.numbered i _ (List.getElem?_eq_getElem hi),
    h.numbered j _ (List.getElem?_eq_getElem hj)] at hids
  exact numbers_distinct (Nat.lt_of_lt_of_le hj hcount) hij (congrArg ClientId.value hids)

end TcpServer

open TcpServer

/--
In every state reached with at most 2^64 accepted connections the two tables
are inverse and no id has been given twice.  Data for a client changes no other
connection, goes to the descriptor the client was accepted on, and is dropped
when its connection is gone.
-/
theorem connection_tables_inverse {κ : Type} (h : Handlers κ) (listenerFd eventfd : Fd)
    (maxWriteBufferBytes : Nat) (others : Fd -> Bool) (app : κ) (sends : List SendAnswer)
    (inputs : List (Input κ)) (s : TcpServer κ)
    (hs : s = (TcpServer.new listenerFd eventfd maxWriteBufferBytes others app sends).run h inputs)
    (hcount : s.assigned.length <= 2 ^ 64) :
    (forall fd id, s.clientToFd id = some fd <->
      exists conn, s.connections fd = some conn ∧ conn.id = id) ∧
    (s.assigned.map Prod.fst).Nodup ∧
    forall client data,
      (forall fd conn, s.connections fd = some conn -> conn.id ≠ client ->
        (s.sendToClient client data).connections fd = some conn) ∧
      (forall other, other ≠ client ->
        (s.sendToClient client data).taken other = s.taken other) ∧
      (forall fd conn, s.connections fd = some conn -> conn.id = client ->
        (client, fd) ∈ s.assigned) ∧
      ((forall fd conn, s.connections fd = some conn -> conn.id ≠ client) ->
        s.sendToClient client data = s) := by
  have htables : Tables s := by
    rw [hs] at hcount ⊢
    exact tables_run (tables_new _ _ _ _ _ _) inputs hcount
  refine ⟨?_, htables.nodup hcount, ?_⟩
  · intro fd id
    constructor
    · exact htables.backward id fd
    · rintro ⟨conn, hconn, rfl⟩
      exact htables.forward fd conn hconn
  · intro client data
    rcases htables.sendToClient_others client data with ⟨hconnections, htaken⟩
    refine ⟨hconnections, htaken, ?_, fun hgone => htables.sendToClient_gone hgone data⟩
    rintro fd conn hconn rfl
    exact htables.assigned fd conn hconn

namespace OneClient

def listenerEvent (fd : Fd) (registered : Bool) : Input Unit :=
  .event { fd := 3, readable := true, accepts := [.accepted fd true registered] }

def reuse : List (Input Unit) :=
  [listenerEvent 5 true, .event { fd := 5, hangup := true }, listenerEvent 5 true]

def reused : TcpServer Unit :=
  (TcpServer.new 3 4 0 (fun _ => false) () []).run silent reuse

theorem tables_inverse_reused :
    reused.clientToFd ⟨2⟩ = some 5 ∧ reused.sendToClient ⟨1⟩ [7] = reused := by
  rcases connection_tables_inverse silent 3 4 0 (fun _ => false) () [] reuse reused rfl
    (by decide) with ⟨htables, -, hroute⟩
  refine ⟨(htables 5 ⟨2⟩).mpr ⟨{ fd := 5, id := ⟨2⟩ }, rfl, rfl⟩, ?_⟩
  refine (hroute ⟨1⟩ [7]).right.right.right ?_
  intro fd conn hconn
  have hid := (htables fd conn.id).mpr ⟨conn, hconn, rfl⟩
  rintro hone
  rw [hone] at hid
  cases hid

/-!
## Ids that wrap

The client on descriptor 5 stays while 2^64 - 1 registrations fail.  The next
client is given id 1 again.
-/

def wrappedInputs (n : Nat) : List (Input Unit) :=
  listenerEvent 5 true :: (List.replicate n (listenerEvent 6 false) ++ [listenerEvent 6 true])

/-- Client 1 is on descriptor 5, and `n` registrations on descriptor 6 have failed. -/
structure Waiting (n : Nat) (s : TcpServer Unit) : Prop where
  listenerFd : s.listenerFd = 3
  next : s.nextClientId = UInt64.ofNat (n + 2)
  first : s.connections 5 = some client
  free : s.connections 6 = none
  route : s.clientToFd ⟨1⟩ = some 5
  opened : s.opened 6 = false
  assigned : ((⟨1⟩, 5) : ClientId × Fd) ∈ s.assigned

theorem waiting_first : Waiting 0 (server.step silent (listenerEvent 5 true)) where
  listenerFd := rfl
  next := rfl
  first := rfl
  free := rfl
  route := rfl
  opened := rfl
  assigned := by decide

theorem step_listenerEvent {s : TcpServer Unit} (hlistener : s.listenerFd = 3) (fd : Fd)
    (registered : Bool) :
    s.step silent (listenerEvent fd registered) = s.acceptOne fd true registered := by
  simp [step, handleEvent, listenerEvent, hlistener, handleAccept]

theorem Waiting.fail {n : Nat} {s : TcpServer Unit} (h : Waiting n s) (hn : n + 1 < 2 ^ 64) :
    Waiting (n + 1) (s.step silent (listenerEvent 6 false)) := by
  have hid : (⟨1⟩ : ClientId) ≠ ⟨s.nextClientId⟩ := by
    rw [h.next]
    intro heq
    exact numbers_distinct hn (Nat.succ_pos n) (congrArg ClientId.value heq)
  have hfive : (5 : Fd) ≠ 6 := by decide
  rw [step_listenerEvent h.listenerFd]
  unfold acceptOne
  rw [h.opened]
  refine ⟨h.listenerFd, ?_, ?_, ?_, ?_, h.opened, ?_⟩
  · show s.nextClientId + 1 = UInt64.ofNat (n + 1 + 2)
    rw [h.next, UInt64.ofNat_add (n + 2) 1]
    rfl
  · show Function.update (emplace s.connections 6 { fd := 6, id := ⟨s.nextClientId⟩ }) 6 none 5 = _
    rw [Function.update_of_ne hfive, emplace_of_ne hfive, h.first]
  · show Function.update (emplace s.connections 6 { fd := 6, id := ⟨s.nextClientId⟩ }) 6 none 6 = _
    rw [Function.update_self]
  · show Function.update (emplace s.clientToFd ⟨s.nextClientId⟩ 6) ⟨s.nextClientId⟩ none ⟨1⟩ = _
    rw [Function.update_of_ne hid, emplace_of_ne hid, h.route]
  · exact List.mem_append_left _ h.assigned

theorem waiting_run {n : Nat} (hn : n < 2 ^ 64) :
    Waiting n ((TcpServer.new 3 4 0 (fun _ => false) () []).run silent
      (listenerEvent 5 true :: List.replicate n (listenerEvent 6 false))) := by
  induction n with
  | zero => exact waiting_first
  | succ n ih =>
      have hwaiting := (ih (Nat.lt_of_succ_lt hn)).fail hn
      rw [List.replicate_succ', ← List.cons_append, TcpServer.run, Machine.run_append]
      exact hwaiting

theorem repeated_of_wrap {n : Nat} (hn : n + 1 = 2 ^ 64) :
    exists first second,
      ((TcpServer.new 3 4 0 (fun _ => false) () []).run silent (wrappedInputs n)).connections 5 =
          some first ∧
        ((TcpServer.new 3 4 0 (fun _ => false) () []).run silent (wrappedInputs n)).connections 6 =
          some second ∧
        first.id = second.id ∧
        ¬ (((TcpServer.new 3 4 0 (fun _ => false) () []).run silent
          (wrappedInputs n)).assigned.map Prod.fst).Nodup := by
  have hwaiting := waiting_run (by omega : n < 2 ^ 64)
  have hrun : (TcpServer.new 3 4 0 (fun _ => false) () []).run silent (wrappedInputs n) =
      ((TcpServer.new 3 4 0 (fun _ => false) () []).run silent
        (listenerEvent 5 true :: List.replicate n (listenerEvent 6 false))).step silent
          (listenerEvent 6 true) := by
    unfold wrappedInputs
    rw [← List.cons_append, TcpServer.run, Machine.run_append]
    rfl
  rw [hrun]
  generalize (TcpServer.new 3 4 0 (fun _ => false) () []).run silent
    (listenerEvent 5 true :: List.replicate n (listenerEvent 6 false)) = s at hwaiting
  have hnext : s.nextClientId = 1 := by
    rw [hwaiting.next, show n + 2 = 2 ^ 64 + 1 by omega]
    rfl
  have hfive : (5 : Fd) ≠ 6 := by decide
  rw [step_listenerEvent hwaiting.listenerFd]
  unfold acceptOne
  rw [hwaiting.opened, hnext]
  refine ⟨client, { fd := 6, id := ⟨1⟩ }, ?_, ?_, rfl, ?_⟩
  · show emplace s.connections 6 { fd := 6, id := ⟨1⟩ } 5 = _
    rw [emplace_of_ne hfive, hwaiting.first]
  · show emplace s.connections 6 { fd := 6, id := ⟨1⟩ } 6 = _
    rw [emplace_of_none hwaiting.free, Function.update_self]
  · show ¬ ((s.assigned ++ [((⟨1⟩, 6) : ClientId × Fd)]).map Prod.fst).Nodup
    rw [List.map_append]
    intro hnodup
    exact List.disjoint_of_nodup_append hnodup
      (List.mem_map_of_mem hwaiting.assigned) (List.mem_singleton.mpr rfl)

/-- After 2^64 accepted connections id 1 is given again while its first holder is connected. -/
theorem client_ids_repeat :
    exists first second,
      ((TcpServer.new 3 4 0 (fun _ => false) () []).run silent
          (wrappedInputs (2 ^ 64 - 1))).connections 5 = some first ∧
        ((TcpServer.new 3 4 0 (fun _ => false) () []).run silent
          (wrappedInputs (2 ^ 64 - 1))).connections 6 = some second ∧
        first.id = second.id ∧
        ¬ (((TcpServer.new 3 4 0 (fun _ => false) () []).run silent
          (wrappedInputs (2 ^ 64 - 1))).assigned.map Prod.fst).Nodup :=
  repeated_of_wrap rfl

end OneClient

end Tcp
end MiniExchange
