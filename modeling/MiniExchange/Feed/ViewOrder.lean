import MiniExchange.Feed.BookBuilder

/-!
# Order of a subscriber's views

Incremental messages that are not newer than the last one are discarded, but
a snapshot is applied whatever its number.  A subscriber's view moves forward
exactly as long as no snapshot arrives behind the view it replaces.
-/

namespace MiniExchange
namespace Feed

open Foundation

namespace UdpFeedBookBuilder

def Applies (b : UdpFeedBookBuilder) (msg : FeedMessage) : Prop :=
  match msg.body with
  | .snapshot _ _ => True
  | _ => (b.state msg.symbol).anchored = true ∧ (b.state msg.symbol).lastSequence < msg.sequence

def SnapshotAhead (symbol : SymbolId) (b : UdpFeedBookBuilder) (msg : FeedMessage) : Prop :=
  msg.symbol = symbol -> forall top asOf, msg.body = .snapshot top asOf ->
    (b.state symbol).lastSequence <= msg.sequence

variable {b : UdpFeedBookBuilder} {symbol : SymbolId} {msg : FeedMessage}

/-!
## One message
-/

theorem state_setState_of_ne (b : UdpFeedBookBuilder) {symbol other : SymbolId}
    (state : PerSymbolState) (h : symbol ≠ other) :
    (b.setState other state).state symbol = b.state symbol := by
  simp [setState, UdpFeedBookBuilder.state, h]

theorem state_checkSequence_of_ne (b : UdpFeedBookBuilder) {symbol other : SymbolId}
    (incoming : UInt64) (h : symbol ≠ other) :
    (b.checkSequence other incoming).state symbol = b.state symbol := by
  unfold checkSequence
  dsimp only
  split
  · rfl
  · exact state_setState_of_ne b _ h

theorem state_applyIncremental_of_ne (b : UdpFeedBookBuilder) {symbol other : SymbolId}
    (sequence : UInt64) (update : Option TopOfBook -> Option TopOfBook) (h : symbol ≠ other) :
    (b.applyIncremental other sequence update).state symbol = b.state symbol := by
  unfold applyIncremental
  split
  · rfl
  · split
    · rfl
    · split
      · rfl
      · dsimp only
        rw [state_setState_of_ne _ _ h, state_checkSequence_of_ne _ _ h]

theorem state_onMessage_of_ne (b : UdpFeedBookBuilder) (h : symbol ≠ msg.symbol) :
    (b.onMessage msg).state symbol = b.state symbol := by
  unfold onMessage
  split
  · exact state_setState_of_ne b _ h
  · exact state_applyIncremental_of_ne b _ _ h
  · exact state_applyIncremental_of_ne b _ _ h

theorem lastSequence_applyIncremental (b : UdpFeedBookBuilder) (symbol : SymbolId)
    (sequence : UInt64) (update : Option TopOfBook -> Option TopOfBook) :
    (b.state symbol).lastSequence <=
      ((b.applyIncremental symbol sequence update).state symbol).lastSequence := by
  rw [state_applyIncremental]
  split
  · exact UInt64.le_refl _
  · next hcurrent => exact UInt64.le_of_lt (UInt64.not_le.mp (not_or.mp hcurrent).right)

/-- Only a snapshot can take the symbol back. -/
theorem lastSequence_onMessage_iff (b : UdpFeedBookBuilder) (symbol : SymbolId)
    (msg : FeedMessage) :
    (b.state symbol).lastSequence <= ((b.onMessage msg).state symbol).lastSequence <->
      b.SnapshotAhead symbol msg := by
  by_cases hsymbol : msg.symbol = symbol
  · unfold onMessage SnapshotAhead
    rw [hsymbol]
    cases hbody : msg.body with
    | snapshot top asOf =>
        dsimp only [applySnapshot]
        rw [state_setState]
        exact ⟨fun h _ _ _ _ => h, fun h => h rfl top asOf rfl⟩
    | topOfBook top =>
        have hforward := lastSequence_applyIncremental b symbol msg.sequence (fun _ => some top)
        exact ⟨fun _ _ _ _ h => (nomatch h), fun _ => hforward⟩
    | trade price quantity tradeSequence =>
        have hforward := lastSequence_applyIncremental b symbol msg.sequence id
        exact ⟨fun _ _ _ _ h => (nomatch h), fun _ => hforward⟩
  · rw [state_onMessage_of_ne b (fun h => hsymbol h.symm)]
    exact ⟨fun _ h => absurd h hsymbol, fun _ => UInt64.le_refl _⟩

theorem Applies.lastSequence (h : b.Applies msg) :
    ((b.onMessage msg).state msg.symbol).lastSequence = msg.sequence := by
  unfold Applies at h
  have hincremental : forall update,
      (b.state msg.symbol).anchored = true ∧ (b.state msg.symbol).lastSequence < msg.sequence ->
      ((b.applyIncremental msg.symbol msg.sequence update).state msg.symbol).lastSequence =
        msg.sequence := by
    intro update hnew
    rw [state_applyIncremental, if_neg]
    rw [hnew.left]
    exact not_or.mpr ⟨Bool.noConfusion, UInt64.not_le.mpr hnew.right⟩
  unfold onMessage
  cases hbody : msg.body with
  | snapshot top asOf =>
      dsimp only [applySnapshot]
      rw [state_setState]
  | topOfBook top =>
      rw [hbody] at h
      exact hincremental _ h
  | trade price quantity tradeSequence =>
      rw [hbody] at h
      exact hincremental _ h

/-!
## Deliveries
-/

/-- No delivered message lowers the number of the symbol's last message. -/
def NeverRewinds (symbol : SymbolId) (msgs : List FeedMessage) : Prop :=
  forall v, v ∈ Machine.visits onMessage {} msgs ->
    (v.1.state symbol).lastSequence <= ((v.1.onMessage v.2).state symbol).lastSequence

def SnapshotsAhead (symbol : SymbolId) (msgs : List FeedMessage) : Prop :=
  forall v, v ∈ Machine.visits onMessage {} msgs -> v.1.SnapshotAhead symbol v.2

theorem neverRewinds_iff (symbol : SymbolId) (msgs : List FeedMessage) :
    NeverRewinds symbol msgs <-> SnapshotsAhead symbol msgs :=
  forall_congr' fun v => imp_congr_right fun _ =>
    lastSequence_onMessage_iff v.1 symbol v.2

/--
Once a sent message has been applied, a view that is not stale is the
publisher's top of book at that message or at a later one.
-/
def NeverShowsOlder (feed : List SentMessage) (symbol : SymbolId) (msgs : List FeedMessage) :
    Prop :=
  forall (before : List FeedMessage) (i : Nat) (x : SentMessage) (later rest : List FeedMessage),
    feed[i]? = some x ->
    msgs = before ++ x.message :: later ++ rest -> (deliver {} before).Applies x.message ->
    (deliver {} (before ++ x.message :: later)).isAnchored symbol = true ->
    (deliver {} (before ++ x.message :: later)).isStale symbol = false ->
    exists (j : Nat) (y : SentMessage), i <= j ∧ feed[j]? = some y ∧
      ((deliver {} (before ++ x.message :: later)).state symbol).lastSequence =
        y.message.sequence ∧
      (deliver {} (before ++ x.message :: later)).topOfBook symbol = some y.top

theorem lastSequence_deliver {later : List FeedMessage}
    (hahead : forall v, v ∈ Machine.visits onMessage b later -> v.1.SnapshotAhead symbol v.2) :
    (b.state symbol).lastSequence <= ((b.deliver later).state symbol).lastSequence := by
  have hstep : forall (b' : UdpFeedBookBuilder) (msg : FeedMessage),
      (b.state symbol).lastSequence <= (b'.state symbol).lastSequence ->
      b'.SnapshotAhead symbol msg ->
      (b.state symbol).lastSequence <= ((b'.onMessage msg).state symbol).lastSequence :=
    fun b' msg hfrom hahead =>
      UInt64.le_trans hfrom ((lastSequence_onMessage_iff b' symbol msg).mpr hahead)
  exact Machine.run_invariant_of hstep (UInt64.le_refl _) hahead

theorem position_le {n i j : Nat} (hn : n < 2 ^ 64) (hi : i < n) (hj : j < n)
    (h : UInt64.ofNat (i + 1) <= UInt64.ofNat (j + 1)) : i <= j := by
  rw [UInt64.le_iff_toNat_le,
    UInt64.toNat_ofNat_of_lt' (Nat.lt_of_le_of_lt (Nat.succ_le_of_lt hi) hn),
    UInt64.toNat_ofNat_of_lt' (Nat.lt_of_le_of_lt (Nat.succ_le_of_lt hj) hn)] at h
  exact Nat.le_of_succ_le_succ h

theorem SnapshotsAhead.neverShowsOlder {feed : List SentMessage} {msgs : List FeedMessage}
    (hfeed : ConsistentFeed symbol feed) (hlength : feed.length < 2 ^ 64)
    (hmsgs : DeliveredFrom feed msgs) (h : SnapshotsAhead symbol msgs) :
    NeverShowsOlder feed symbol msgs := by
  intro before i x later rest hx hsplit happlies hanchored hfresh
  have hsymbol := hfeed.symbol_eq x (List.mem_of_getElem? hx)
  have hnumber := hfeed.numbered i x hx
  -- The view is exact, at the number the builder has advanced to.
  have hexact : (deliver {} (before ++ x.message :: later)).Exact feed symbol := by
    refine exact_deliver hfeed hlength ?_
    intro msg hmsg
    refine hmsgs msg ?_
    rw [hsplit]
    exact List.mem_append_left _ hmsg
  rw [isAnchored_eq] at hanchored
  rw [isStale_eq] at hfresh
  rcases hexact hanchored hfresh with ⟨j, y, hy, hlast, hbook⟩
  -- That number has not decreased since the message was applied.
  have hdeliver : deliver {} (before ++ x.message :: later) =
      ((deliver {} before).onMessage x.message).deliver later :=
    Machine.run_append onMessage _ _ _
  have hlater : (((deliver {} before).onMessage x.message).state symbol).lastSequence <=
      ((deliver {} (before ++ x.message :: later)).state symbol).lastSequence := by
    rw [hdeliver]
    refine lastSequence_deliver ?_
    intro v hv
    refine h v ?_
    rw [hsplit, Machine.visits_append, Machine.visits_append]
    exact List.mem_append_left _ (List.mem_append_right _ (List.mem_cons_of_mem _ hv))
  have happlied := happlies.lastSequence
  rw [hsymbol] at happlied
  rw [happlied, hnumber, hlast] at hlater
  refine ⟨j, y, ?_, hy, hlast.trans (hfeed.numbered j y hy).symm, ?_⟩
  · exact position_le hlength (List.getElem?_eq_some_iff.mp hx).choose
      (List.getElem?_eq_some_iff.mp hy).choose hlater
  · rw [topOfBook_of_anchored hanchored, hbook]

end UdpFeedBookBuilder

open UdpFeedBookBuilder

/--
A subscriber's last number never decreases exactly if every snapshot arrives
ahead of the view it replaces.  Then, while the numbering has not wrapped, a
view that is not stale is never older than a message already applied.
-/
theorem view_moves_forward_iff (symbol : SymbolId) (snapshotInterval : UInt64)
    (events : List SinkEvent) (msgs : List FeedMessage)
    (hmsgs : DeliveredFrom ((UdpFeedPublisher.new symbol snapshotInterval).run events).sent
      msgs) :
    (NeverRewinds symbol msgs <-> SnapshotsAhead symbol msgs) ∧
    (((UdpFeedPublisher.new symbol snapshotInterval).run events).sent.length < 2 ^ 64 ->
      SnapshotsAhead symbol msgs ->
      NeverShowsOlder ((UdpFeedPublisher.new symbol snapshotInterval).run events).sent
        symbol msgs) := by
  have hfeed := (UdpFeedPublisher.settled_run symbol snapshotInterval events).consistent
  exact ⟨neverRewinds_iff symbol msgs, fun hlength hahead =>
    hahead.neverShowsOlder hfeed hlength hmsgs⟩

/-!
## A snapshot that arrives late

Two bids send messages 1 to 4, with a snapshot after every message.
-/

namespace LateSnapshot

open WrappedFeed

theorem snapshotsAhead_inOrder : SnapshotsAhead ⟨1⟩ inOrder := by
  intro v hv _ top asOf hbody
  rcases List.mem_cons.mp hv with rfl | hv
  · show (0 : UInt64) <= 2
    decide
  · rw [List.mem_singleton.mp hv] at hbody
    cases hbody

theorem view_moves_forward_inOrder :
    NeverRewinds ⟨1⟩ inOrder ∧ NeverShowsOlder opening.sent ⟨1⟩ inOrder := by
  have hview := view_moves_forward_iff ⟨1⟩ 1 [bidAt ⟨100⟩, bidAt ⟨101⟩] inOrder
    delivered_inOrder
  have hlength : opening.sent.length < 2 ^ 64 := by decide
  exact ⟨hview.left.mpr snapshotsAhead_inOrder, hview.right hlength snapshotsAhead_inOrder⟩

def lateDelivery : List FeedMessage :=
  inOrder ++ [firstSnapshot]

/--
The repeated snapshot takes the number from 3 back to 2, and the builder shows
the first bid again without being stale.
-/
theorem late_snapshot_rewinds :
    DeliveredFrom opening.sent lateDelivery ∧ ¬ NeverRewinds ⟨1⟩ lateDelivery ∧
      ¬ NeverShowsOlder opening.sent ⟨1⟩ lateDelivery := by
  refine ⟨?_, ?_, ?_⟩
  · unfold DeliveredFrom
    decide
  · intro h
    have hlast := h (deliver {} inOrder, firstSnapshot)
      ((Machine.mem_visits_iff onMessage).mpr ⟨inOrder, [], rfl, rfl⟩)
    have hback : ¬ (3 : UInt64) <= 2 := by decide
    exact hback hlast
  · intro h
    rcases h [firstSnapshot] 2 ⟨secondUpdate, topAt ⟨101⟩⟩ [firstSnapshot] [] rfl rfl
      ⟨rfl, by decide⟩ rfl rfl with ⟨j, y, hj, hy, -, htop⟩
    have hnewer : forall z, z ∈ opening.sent.drop 2 -> z.top = topAt ⟨101⟩ := by decide
    have hmem : y ∈ opening.sent.drop 2 := by
      refine List.mem_of_getElem? (?_ : (opening.sent.drop 2)[j - 2]? = some y)
      rw [List.getElem?_drop, Nat.add_sub_cancel' hj, hy]
    have hshown : some (topAt ⟨100⟩) = some y.top := htop
    rw [hnewer y hmem] at hshown
    revert hshown
    decide

end LateSnapshot
end Feed
end MiniExchange
