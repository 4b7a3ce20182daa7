import MiniExchange.Feed.Wire

/-!
# The gap log of a subscriber

`send_to_all` sends every message to every subscriber and drops it for those
whose socket is full.  A subscriber that gets the rest in order can tell from
its builder what was dropped: the gap log names exactly the messages that were
lost between two that arrived, unless the later one is a snapshot, and the
symbol is stale exactly while such a loss is newer than the last snapshot.
-/

namespace MiniExchange
namespace Feed

open Foundation

/-- The datagrams of one subscriber: those for which `send_fn_` answered a positive number. -/
def inbox (envelope : Nat -> Envelope) (result : Nat -> Int) (sent : List SentMessage) :
    List (List UInt8) :=
  sent.zipIdx.filterMap fun p =>
    if 0 < result p.2 then some (p.1.message.datagram (envelope p.2)) else none

def SnapshotAt (feed : List SentMessage) (k : Nat) : Prop :=
  exists x, feed[k]? = some x ∧ x.message.body.type = .snapshot

/--
Of the first messages of a feed, the one at a place was lost after a snapshot
had arrived, and the next one that arrived is not a snapshot.
-/
def Missed (feed : List SentMessage) (heard : Nat -> Prop) (n k : Nat) : Prop :=
  ¬ heard k ∧ (exists i, i < k ∧ heard i ∧ SnapshotAt feed i) ∧
    exists j, k < j ∧ j < n ∧ heard j ∧ ¬ SnapshotAt feed j ∧
      forall i, k < i -> i < j -> ¬ heard i

def Reported (gaps : List (SymbolId × UInt64 × UInt64)) (symbol : SymbolId) (number : Nat) :
    Prop :=
  exists gap, gap ∈ gaps ∧ gap.1 = symbol ∧
    gap.2.1.toNat <= number ∧ number < gap.2.2.toNat

namespace Missed

variable {feed : List SentMessage} {heard : Nat -> Prop} {n k : Nat}

theorem lt (h : Missed feed heard n k) : k < n := by
  rcases h with ⟨_, _, j, hkj, hjn, _⟩
  exact Nat.lt_trans hkj hjn

theorem succ (h : Missed feed heard n k) : Missed feed heard (n + 1) k := by
  rcases h with ⟨hlost, hanchor, j, hkj, hjn, hrest⟩
  exact ⟨hlost, hanchor, j, hkj, Nat.lt_succ_of_lt hjn, hrest⟩

theorem succ_iff (h : ¬ heard n ∨ SnapshotAt feed n) :
    Missed feed heard (n + 1) k <-> Missed feed heard n k := by
  constructor
  · intro ⟨hlost, hanchor, j, hkj, hjn, hheard, hbody, hbetween⟩
    have hne : j ≠ n := by
      intro heq
      rw [heq] at hheard hbody
      rcases h with hmissing | hsnapshot
      · exact hmissing hheard
      · exact hbody hsnapshot
    exact ⟨hlost, hanchor, j, hkj, by omega, hheard, hbody, hbetween⟩
  · exact succ

theorem unanchored (h : ¬ exists i, i < n ∧ heard i ∧ SnapshotAt feed i) :
    ¬ Missed feed heard (n + 1) k := by
  intro ⟨_, ⟨i, hik, hheard, hsnapshot⟩, j, hkj, hjn, _⟩
  exact h ⟨i, by omega, hheard, hsnapshot⟩

theorem arrival_iff {last : Nat} (hheard : heard n) (hbody : ¬ SnapshotAt feed n)
    (hanchor : exists i, i < n ∧ heard i ∧ SnapshotAt feed i) (hln : last < n)
    (hlast : heard last) (hsilent : forall j, last < j -> j < n -> ¬ heard j) :
    Missed feed heard (n + 1) k <-> Missed feed heard n k ∨ last < k ∧ k < n := by
  constructor
  · intro ⟨hlost, hbefore, j, hkj, hjn, hheardj, hbodyj, hbetween⟩
    by_cases hj : j = n
    · refine Or.inr ⟨?_, by omega⟩
      rcases Nat.lt_trichotomy last k with hlt | heq | hgt
      · exact hlt
      · exact absurd (heq ▸ hlast) hlost
      · exact absurd hlast (hbetween last hgt (by omega))
    · exact Or.inl ⟨hlost, hbefore, j, hkj, by omega, hheardj, hbodyj, hbetween⟩
  · rintro (hold | ⟨hlk, hkn⟩)
    · exact hold.succ
    · rcases hanchor with ⟨i, hin, hheardi, hsnapshot⟩
      have hik : i < k := by
        by_contra hge
        exact hsilent i (by omega) hin hheardi
      refine ⟨hsilent k hlk hkn, ⟨i, hik, hheardi, hsnapshot⟩, n, hkn, Nat.lt_succ_self n,
        hheard, hbody, ?_⟩
      intro j hkj hjn
      exact hsilent j (Nat.lt_trans hlk hkj) hjn

end Missed

namespace UdpFeedBookBuilder

variable {b : UdpFeedBookBuilder} {symbol : SymbolId} {sequence : UInt64}

theorem gaps_applyIncremental (hanchored : (b.state symbol).anchored = true)
    (hnew : ¬ sequence <= (b.state symbol).lastSequence)
    (update : Option TopOfBook -> Option TopOfBook) :
    (b.applyIncremental symbol sequence update).gaps =
      if sequence = (b.state symbol).lastSequence + 1 then b.gaps
      else b.gaps ++ [(symbol, (b.state symbol).lastSequence + 1, sequence)] := by
  unfold applyIncremental
  cases hknown : b.symbols symbol with
  | none =>
      have hstate : b.state symbol = {} := by rw [state, hknown]; rfl
      rw [hstate] at hanchored
      cases hanchored
  | some known =>
      have hstate : b.state symbol = known := by rw [state, hknown]; rfl
      rw [hstate] at hanchored hnew
      dsimp only
      rw [if_neg (by rw [hanchored]; decide), if_neg hnew]
      show (b.checkSequence symbol sequence).gaps = _
      unfold checkSequence
      dsimp only
      split <;> rfl

theorem applyIncremental_unanchored (h : (b.state symbol).anchored = false)
    (update : Option TopOfBook -> Option TopOfBook) :
    b.applyIncremental symbol sequence update = b := by
  unfold applyIncremental
  cases hknown : b.symbols symbol with
  | none => rfl
  | some known =>
      have hstate : b.state symbol = known := by rw [state, hknown]; rfl
      rw [hstate] at h
      exact if_pos h

theorem onMessage_incremental {msg : FeedMessage}
    (h : msg.body.type ≠ .snapshot) (b : UdpFeedBookBuilder) :
    exists update, b.onMessage msg = b.applyIncremental msg.symbol msg.sequence update := by
  unfold onMessage
  cases hbody : msg.body with
  | topOfBook top => exact ⟨fun _ => some top, rfl⟩
  | trade price quantity tradeSequence => exact ⟨id, rfl⟩
  | snapshot top asOfSequence =>
      rw [hbody] at h
      exact absurd rfl h

theorem onMessage_snapshot {msg : FeedMessage}
    (h : msg.body.type = .snapshot) (b : UdpFeedBookBuilder) :
    exists top, b.onMessage msg = b.applySnapshot msg.symbol msg.sequence top := by
  unfold onMessage
  cases hbody : msg.body with
  | topOfBook top =>
      rw [hbody] at h
      cases h
  | trade price quantity tradeSequence =>
      rw [hbody] at h
      cases h
  | snapshot top asOfSequence => exact ⟨top, rfl⟩

/-!
## What is known after the first messages
-/

/-- What a builder knows that has heard some of the first messages of a feed. -/
structure Logged (feed : List SentMessage) (symbol : SymbolId) (heard : Nat -> Prop)
    (n : Nat) (b : UdpFeedBookBuilder) : Prop where
  anchored : (b.state symbol).anchored = true <->
    exists i, i < n ∧ heard i ∧ SnapshotAt feed i
  last : (b.state symbol).anchored = true ->
    exists i, i < n ∧ heard i ∧ (b.state symbol).lastSequence = UInt64.ofNat (i + 1) ∧
      forall j, i < j -> j < n -> ¬ heard j
  reported : forall k, Reported b.gaps symbol (k + 1) <-> Missed feed heard n k
  stale : (b.state symbol).stale = true <->
    exists k, Missed feed heard n k ∧ forall i, k < i -> i < n -> heard i -> ¬ SnapshotAt feed i

variable {feed : List SentMessage} {heard : Nat -> Prop} {n : Nat}

theorem logged_new (feed : List SentMessage) (symbol : SymbolId) (heard : Nat -> Prop) :
    Logged feed symbol heard 0 {} := by
  constructor
  case anchored =>
    constructor
    · intro h
      cases h
    · intro ⟨i, hi, _⟩
      exact absurd hi (Nat.not_lt_zero i)
  case last =>
    intro h
    cases h
  case reported =>
    intro k
    constructor
    · intro ⟨gap, hgap, _⟩
      cases hgap
    · intro hmissed
      exact absurd hmissed.lt (Nat.not_lt_zero k)
  case stale =>
    constructor
    · intro h
      cases h
    · intro ⟨k, hmissed, _⟩
      exact absurd hmissed.lt (Nat.not_lt_zero k)

namespace Logged

theorem dropped (h : Logged feed symbol heard n b) (hheard : ¬ heard n) :
    Logged feed symbol heard (n + 1) b := by
  have hbefore {i : Nat} (hi : i < n + 1) (hheardi : heard i) : i < n := by
    have hne : i ≠ n := fun heq => hheard (heq ▸ hheardi)
    omega
  constructor
  case anchored =>
    rw [h.anchored]
    constructor
    · intro ⟨i, hi, hrest⟩
      exact ⟨i, Nat.lt_succ_of_lt hi, hrest⟩
    · intro ⟨i, hi, hheardi, hsnapshot⟩
      exact ⟨i, hbefore hi hheardi, hheardi, hsnapshot⟩
  case last =>
    intro hanchored
    rcases h.last hanchored with ⟨i, hi, hheardi, hlast, hsilent⟩
    refine ⟨i, Nat.lt_succ_of_lt hi, hheardi, hlast, ?_⟩
    intro j hij hjn hheardj
    exact hsilent j hij (hbefore hjn hheardj) hheardj
  case reported =>
    intro k
    rw [h.reported, Missed.succ_iff (Or.inl hheard)]
  case stale =>
    rw [h.stale]
    constructor
    · intro ⟨k, hmissed, hsince⟩
      refine ⟨k, (Missed.succ_iff (Or.inl hheard)).mpr hmissed, ?_⟩
      intro i hki hin hheardi
      exact hsince i hki (hbefore hin hheardi) hheardi
    · intro ⟨k, hmissed, hsince⟩
      refine ⟨k, (Missed.succ_iff (Or.inl hheard)).mp hmissed, ?_⟩
      intro i hki hin
      exact hsince i hki (Nat.lt_succ_of_lt hin)

theorem snapshot (h : Logged feed symbol heard n b) (hheard : heard n)
    (hsnapshot : SnapshotAt feed n) (top : TopOfBook) :
    Logged feed symbol heard (n + 1)
      (b.applySnapshot symbol (UInt64.ofNat (n + 1)) top) := by
  have hstate : (b.applySnapshot symbol (UInt64.ofNat (n + 1)) top).state symbol =
      { book := some top, lastSequence := UInt64.ofNat (n + 1)
        anchored := true, stale := false } :=
    state_setState _ _ _
  constructor
  case anchored =>
    rw [hstate]
    exact ⟨fun _ => ⟨n, Nat.lt_succ_self n, hheard, hsnapshot⟩, fun _ => rfl⟩
  case last =>
    rw [hstate]
    intro _
    refine ⟨n, Nat.lt_succ_self n, hheard, rfl, ?_⟩
    intro j hnj hjn
    omega
  case reported =>
    intro k
    rw [Missed.succ_iff (Or.inr hsnapshot)]
    exact h.reported k
  case stale =>
    rw [hstate]
    constructor
    · intro hfalse
      cases hfalse
    · intro ⟨k, hmissed, hsince⟩
      have hkn := ((Missed.succ_iff (Or.inr hsnapshot)).mp hmissed).lt
      exact absurd hsnapshot (hsince n hkn (Nat.lt_succ_self n) hheard)

theorem unanchored (h : Logged feed symbol heard n b) (hbody : ¬ SnapshotAt feed n)
    (hanchored : (b.state symbol).anchored = false) :
    Logged feed symbol heard (n + 1) b := by
  have hnone : ¬ exists i, i < n ∧ heard i ∧ SnapshotAt feed i := by
    rw [← h.anchored, hanchored]
    exact Bool.false_ne_true
  have hafter (k : Nat) : ¬ Missed feed heard (n + 1) k := Missed.unanchored hnone
  have hbefore (k : Nat) : ¬ Missed feed heard n k := fun hk => hafter k hk.succ
  constructor
  case anchored =>
    rw [hanchored]
    constructor
    · intro hfalse
      cases hfalse
    · intro ⟨i, hi, hheard, hsnapshot⟩
      have hne : i ≠ n := fun heq => hbody (heq ▸ hsnapshot)
      exact absurd ⟨i, by omega, hheard, hsnapshot⟩ hnone
  case last =>
    intro htrue
    rw [hanchored] at htrue
    cases htrue
  case reported =>
    intro k
    rw [h.reported]
    exact iff_of_false (hbefore k) (hafter k)
  case stale =>
    rw [h.stale]
    exact iff_of_false (fun ⟨k, hk, _⟩ => hbefore k hk) (fun ⟨k, hk, _⟩ => hafter k hk)

theorem update (h : Logged feed symbol heard n b) (hheard : heard n)
    (hbody : ¬ SnapshotAt feed n) (hanchored : (b.state symbol).anchored = true)
    (hn : n + 1 < 2 ^ 64) (f : Option TopOfBook -> Option TopOfBook) :
    Logged feed symbol heard (n + 1)
      (b.applyIncremental symbol (UInt64.ofNat (n + 1)) f) := by
  have hanchor := h.anchored.mp hanchored
  rcases h.last hanchored with ⟨last, hln, hlast, hnumber, hsilent⟩
  have hmissed (k : Nat) := Missed.arrival_iff (k := k) hheard hbody hanchor hln hlast hsilent
  have hto : (UInt64.ofNat (n + 1)).toNat = n + 1 := UInt64.toNat_ofNat_of_lt' hn
  have hfrom : (UInt64.ofNat (last + 1)).toNat = last + 1 :=
    UInt64.toNat_ofNat_of_lt' (show last + 1 < 2 ^ 64 by omega)
  have hnext : (UInt64.ofNat (last + 1) + 1).toNat = last + 2 := by
    rw [toNat_count_succ (by rw [hfrom]; omega), hfrom]
  have hnew : ¬ UInt64.ofNat (n + 1) <= (b.state symbol).lastSequence := by
    rw [hnumber, UInt64.le_iff_toNat_le, hto, hfrom]
    omega
  have hjump : UInt64.ofNat (n + 1) = UInt64.ofNat (last + 1) + 1 <-> n = last + 1 := by
    rw [← UInt64.toNat_inj, hto, hnext]
    omega
  have hstate := state_applyIncremental b symbol (UInt64.ofNat (n + 1)) f
  rw [if_neg (not_or.mpr ⟨by rw [hanchored]; decide, hnew⟩), hnumber] at hstate
  have hgaps := gaps_applyIncremental hanchored hnew f
  rw [hnumber] at hgaps
  constructor
  case anchored =>
    rw [hstate]
    dsimp only
    rw [hanchored]
    rcases hanchor with ⟨i, hi, hrest⟩
    exact ⟨fun _ => ⟨i, Nat.lt_succ_of_lt hi, hrest⟩, fun _ => rfl⟩
  case last =>
    intro _
    rw [hstate]
    refine ⟨n, Nat.lt_succ_self n, hheard, rfl, ?_⟩
    intro j hnj hjn
    omega
  case reported =>
    intro k
    rw [hmissed, ← h.reported, hgaps]
    unfold Reported
    by_cases hnl : n = last + 1
    · rw [if_pos (hjump.mpr hnl)]
      have hempty : ¬ (last < k ∧ k < n) := by omega
      rw [or_iff_left hempty]
    · rw [if_neg (mt hjump.mp hnl)]
      simp only [List.mem_append, List.mem_singleton, or_and_right, exists_or, exists_eq_left,
        hto, hnext, true_and]
      have hrange : last + 2 <= k + 1 ∧ k + 1 < n + 1 <-> last < k ∧ k < n := by omega
      rw [hrange]
  case stale =>
    rw [hstate]
    dsimp only
    rw [Bool.or_eq_true, decide_eq_true_iff, h.stale, ne_eq, hjump]
    constructor
    · rintro (⟨k, hk, hsince⟩ | hnl)
      · refine ⟨k, (hmissed k).mpr (Or.inl hk), ?_⟩
        intro i hki hin
        by_cases hi : i = n
        · rw [hi]
          exact fun _ => hbody
        · exact hsince i hki (by omega)
      · refine ⟨last + 1, (hmissed (last + 1)).mpr (Or.inr ⟨by omega, by omega⟩), ?_⟩
        intro i hli hin hheardi
        by_cases hi : i = n
        · rw [hi]
          exact hbody
        · exact absurd hheardi (hsilent i (by omega) (by omega))
    · intro ⟨k, hk, hsince⟩
      rcases (hmissed k).mp hk with hold | ⟨hlk, hkn⟩
      · exact Or.inl ⟨k, hold, fun i hki hin => hsince i hki (Nat.lt_succ_of_lt hin)⟩
      · exact Or.inr (by omega)

theorem arrival (h : Logged feed symbol heard n b) (hheard : heard n)
    (hn : n + 1 < 2 ^ 64) {x : SentMessage} (hx : feed[n]? = some x)
    (hsymbol : x.message.symbol = symbol)
    (hsequence : x.message.sequence = UInt64.ofNat (n + 1)) :
    Logged feed symbol heard (n + 1) (b.onMessage x.message) := by
  by_cases htype : x.message.body.type = .snapshot
  · rcases onMessage_snapshot htype b with ⟨top, hstep⟩
    rw [hstep, hsymbol, hsequence]
    exact h.snapshot hheard ⟨x, hx, htype⟩ top
  · have hbody : ¬ SnapshotAt feed n := by
      intro ⟨y, hy, hsnapshot⟩
      rw [hx] at hy
      cases hy
      exact htype hsnapshot
    rcases onMessage_incremental htype b with ⟨f, hstep⟩
    rw [hstep, hsymbol, hsequence]
    cases hanchored : (b.state symbol).anchored with
    | false =>
        rw [applyIncremental_unanchored hanchored]
        exact h.unanchored hbody hanchored
    | true => exact h.update hheard hbody hanchored hn f

end Logged

def hear (result : Nat -> Int) (b : UdpFeedBookBuilder) (p : SentMessage × Nat) :
    UdpFeedBookBuilder :=
  if 0 < result p.2 then b.onMessage p.1.message else b

theorem receive_inbox (envelope : Nat -> Envelope) (result : Nat -> Int)
    (sent : List SentMessage) (b : UdpFeedBookBuilder) :
    b.receive (inbox envelope result sent) = Machine.run (hear result) b sent.zipIdx := by
  unfold inbox
  generalize sent.zipIdx = places
  induction places generalizing b with
  | nil => rfl
  | cons p places ih =>
      rw [List.filterMap_cons]
      by_cases hsent : 0 < result p.2
      · have hread := readMessage?_datagram p.1.message (envelope p.2) []
        rw [List.append_nil] at hread
        have hstep : b.onDatagram (p.1.message.datagram (envelope p.2)) = b.hear result p := by
          rw [onDatagram, hread, hear, if_pos hsent]
        rw [if_pos hsent]
        show (b.onDatagram (p.1.message.datagram (envelope p.2))).receive _ = _
        rw [hstep, ih]
        rfl
      · rw [if_neg hsent]
        show b.receive _ = Machine.run (hear result) (b.hear result p) places
        rw [hear, if_neg hsent, ih]

theorem logged_run {feed : List SentMessage} (hfeed : ConsistentFeed symbol feed)
    (hlength : feed.length < 2 ^ 64) (result : Nat -> Int) {n : Nat} (hn : n <= feed.length) :
    Logged feed symbol (fun k => 0 < result k) n
      (Machine.run (hear result) {} (feed.take n).zipIdx) := by
  induction n with
  | zero => exact logged_new feed symbol _
  | succ n ih =>
      have hx : feed[n]? = some feed[n] := List.getElem?_eq_getElem hn
      have hplaces : (feed.take (n + 1)).zipIdx = (feed.take n).zipIdx ++ [(feed[n], n)] := by
        rw [List.take_add_one, hx, List.zipIdx_append, List.length_take_of_le (Nat.le_of_lt hn)]
        simp
      have hbefore := ih (Nat.le_of_lt hn)
      rw [hplaces, Machine.run_append]
      show Logged _ _ _ _ (hear result _ (feed[n], n))
      unfold hear
      split
      · next hheard =>
          exact hbefore.arrival hheard (by omega) hx (hfeed.symbol_eq _ (List.getElem_mem hn))
            (hfeed.numbered n _ hx)
      · next hdropped => exact hbefore.dropped hdropped

end UdpFeedBookBuilder

/--
For every subscriber and every pattern of dropped sends, the gap log contains
the number of a message exactly if the subscriber missed it, and the symbol is
stale exactly while it missed something since the last snapshot it got.
-/
theorem gap_log_exact (symbol : SymbolId) (snapshotInterval : UInt64)
    (events : List SinkEvent) (envelope : Nat -> Envelope) (result : Nat -> Int)
    (sent : List SentMessage)
    (hsent : ((UdpFeedPublisher.new symbol snapshotInterval).run events).sent = sent)
    (hlength : sent.length < 2 ^ 64) :
    (forall k x, sent[k]? = some x ->
      (Reported (UdpFeedBookBuilder.receive {} (inbox envelope result sent)).gaps symbol
          x.message.sequence.toNat <->
        Missed sent (fun k => 0 < result k) sent.length k)) ∧
    ((UdpFeedBookBuilder.receive {} (inbox envelope result sent)).isStale symbol = true <->
      exists k, Missed sent (fun k => 0 < result k) sent.length k ∧
        forall i, k < i -> i < sent.length -> 0 < result i -> ¬ SnapshotAt sent i) := by
  have hfeed := (UdpFeedPublisher.settled_run symbol snapshotInterval events).consistent
  rw [hsent] at hfeed
  have hlogged := UdpFeedBookBuilder.logged_run hfeed hlength result (Nat.le_refl sent.length)
  rw [List.take_length, ← UdpFeedBookBuilder.receive_inbox envelope] at hlogged
  constructor
  · intro k x hx
    have hk : k < sent.length := (List.getElem?_eq_some_iff.mp hx).choose
    have hnumber : x.message.sequence.toNat = k + 1 := by
      rw [hfeed.numbered k x hx]
      exact UInt64.toNat_ofNat_of_lt' (show k + 1 < 2 ^ 64 by omega)
    rw [hnumber]
    exact hlogged.reported k
  · rw [UdpFeedBookBuilder.isStale_eq]
    exact hlogged.stale

namespace DroppedFeed

def events : List SinkEvent :=
  CutFeed.events ++
    [.onOrderAccepted { id := ⟨3⟩, side := .buy, quantity := ⟨2⟩, price := ⟨102⟩ }]

def sent : List SentMessage :=
  ((UdpFeedPublisher.new ⟨1⟩ 1).run events).sent

def result (k : Nat) : Int :=
  if k = 1 ∨ k = 4 then 72 else -1

end DroppedFeed

theorem gap_log_exact_dropped :
    Missed DroppedFeed.sent (fun k => 0 < DroppedFeed.result k) DroppedFeed.sent.length 2 ∧
      (UdpFeedBookBuilder.receive {}
        (inbox (fun _ => CutFeed.envelope) DroppedFeed.result DroppedFeed.sent)).isStale ⟨1⟩ =
          true := by
  have h := gap_log_exact ⟨1⟩ 1 DroppedFeed.events (fun _ => CutFeed.envelope)
    DroppedFeed.result DroppedFeed.sent rfl (by decide)
  exact ⟨(h.left 2 _ rfl).mp ⟨(⟨1⟩, 3, 5), by decide, rfl, by decide, by decide⟩, by decide⟩

end Feed
end MiniExchange
