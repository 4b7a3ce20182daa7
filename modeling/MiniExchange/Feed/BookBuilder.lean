import MiniExchange.Feed.Publisher

/-!
# Book builder

The subscriber of `adapters/udp/book_builder.cpp`.  A snapshot anchors a
symbol, later messages advance it, and a jump in the numbering marks it stale
until the next snapshot.  The channel may lose, repeat and reorder messages.
-/

namespace MiniExchange
namespace Feed

open Foundation

structure PerSymbolState where
  book : Option TopOfBook := none
  lastSequence : UInt64 := 0
  anchored : Bool := false
  stale : Bool := false
deriving DecidableEq, Repr

structure UdpFeedBookBuilder where
  symbols : SymbolId -> Option PerSymbolState := fun _ => none
  /-- The calls of the gap logger: symbol, expected and received sequence. -/
  gaps : List (SymbolId × UInt64 × UInt64) := []

namespace UdpFeedBookBuilder

/-- `symbols_[symbol]`. -/
def state (b : UdpFeedBookBuilder) (symbol : SymbolId) : PerSymbolState :=
  (b.symbols symbol).getD {}

def setState (b : UdpFeedBookBuilder) (symbol : SymbolId) (state : PerSymbolState) :
    UdpFeedBookBuilder :=
  { b with symbols := fun other => if other = symbol then some state else b.symbols other }

def applySnapshot (b : UdpFeedBookBuilder) (symbol : SymbolId) (sequence : UInt64)
    (top : TopOfBook) : UdpFeedBookBuilder :=
  b.setState symbol
    { book := some top, lastSequence := sequence, anchored := true, stale := false }

def checkSequence (b : UdpFeedBookBuilder) (symbol : SymbolId) (incoming : UInt64) :
    UdpFeedBookBuilder :=
  let expected := (b.state symbol).lastSequence + 1
  if incoming = expected then b
  else
    { b.setState symbol { b.state symbol with stale := true } with
      gaps := b.gaps ++ [(symbol, expected, incoming)] }

def applyIncremental (b : UdpFeedBookBuilder) (symbol : SymbolId) (sequence : UInt64)
    (update : Option TopOfBook -> Option TopOfBook) : UdpFeedBookBuilder :=
  match b.symbols symbol with
  | none => b
  | some known =>
      if known.anchored = false then b
      else if sequence <= known.lastSequence then b
      else
        let b := b.checkSequence symbol sequence
        b.setState symbol
          { b.state symbol with
            lastSequence := sequence
            book := update (b.state symbol).book }

def applyTopOfBook (b : UdpFeedBookBuilder) (symbol : SymbolId) (sequence : UInt64)
    (top : TopOfBook) : UdpFeedBookBuilder :=
  b.applyIncremental symbol sequence (fun _ => some top)

def applyTrade (b : UdpFeedBookBuilder) (symbol : SymbolId) (sequence : UInt64) :
    UdpFeedBookBuilder :=
  b.applyIncremental symbol sequence id

def onMessage (b : UdpFeedBookBuilder) (msg : FeedMessage) : UdpFeedBookBuilder :=
  match msg.body with
  | .snapshot top _ => b.applySnapshot msg.symbol msg.sequence top
  | .topOfBook top => b.applyTopOfBook msg.symbol msg.sequence top
  | .trade _ _ _ => b.applyTrade msg.symbol msg.sequence

def deliver (b : UdpFeedBookBuilder) (msgs : List FeedMessage) : UdpFeedBookBuilder :=
  Machine.run onMessage b msgs

def topOfBook (b : UdpFeedBookBuilder) (symbol : SymbolId) : Option TopOfBook :=
  match b.symbols symbol with
  | none => none
  | some known => if known.anchored = false then none else known.book

def isStale (b : UdpFeedBookBuilder) (symbol : SymbolId) : Bool :=
  match b.symbols symbol with
  | none => false
  | some known => known.stale

def isAnchored (b : UdpFeedBookBuilder) (symbol : SymbolId) : Bool :=
  match b.symbols symbol with
  | none => false
  | some known => known.anchored

/-!
## What a message does to its symbol
-/

variable {b : UdpFeedBookBuilder} {symbol : SymbolId} {sequence : UInt64}

@[simp] theorem state_setState (b : UdpFeedBookBuilder) (symbol : SymbolId)
    (state : PerSymbolState) : (b.setState symbol state).state symbol = state := by
  simp [setState, UdpFeedBookBuilder.state]

theorem isAnchored_eq (b : UdpFeedBookBuilder) (symbol : SymbolId) :
    b.isAnchored symbol = (b.state symbol).anchored := by
  unfold isAnchored state
  cases b.symbols symbol <;> rfl

theorem isStale_eq (b : UdpFeedBookBuilder) (symbol : SymbolId) :
    b.isStale symbol = (b.state symbol).stale := by
  unfold isStale state
  cases b.symbols symbol <;> rfl

theorem topOfBook_of_anchored (h : (b.state symbol).anchored = true) :
    b.topOfBook symbol = (b.state symbol).book := by
  unfold topOfBook
  unfold state at h ⊢
  cases hknown : b.symbols symbol with
  | none => rfl
  | some known =>
      rw [hknown] at h
      have hanchored : known.anchored = true := h
      simp [hanchored]

theorem state_checkSequence (b : UdpFeedBookBuilder) (symbol : SymbolId) (incoming : UInt64) :
    (b.checkSequence symbol incoming).state symbol =
      { b.state symbol with
        stale := (b.state symbol).stale ||
          decide (incoming ≠ (b.state symbol).lastSequence + 1) } := by
  unfold checkSequence
  dsimp only
  split
  · next heq => simp [heq]
  · next hne =>
      have hstale : ((b.state symbol).stale ||
          decide (incoming ≠ (b.state symbol).lastSequence + 1)) = true := by simp [hne]
      rw [hstale]
      exact state_setState b symbol { b.state symbol with stale := true }

/-- An incremental message is ignored, or advances its symbol and checks for a gap. -/
theorem state_applyIncremental (b : UdpFeedBookBuilder) (symbol : SymbolId)
    (sequence : UInt64) (update : Option TopOfBook -> Option TopOfBook) :
    (b.applyIncremental symbol sequence update).state symbol =
      if (b.state symbol).anchored = false ∨ sequence <= (b.state symbol).lastSequence then
        b.state symbol
      else
        { book := update (b.state symbol).book
          lastSequence := sequence
          anchored := (b.state symbol).anchored
          stale := (b.state symbol).stale ||
            decide (sequence ≠ (b.state symbol).lastSequence + 1) } := by
  unfold applyIncremental
  cases hknown : b.symbols symbol with
  | none => simp [state, hknown]
  | some known =>
      have hstate : b.state symbol = known := by simp [state, hknown]
      dsimp only
      rw [hstate]
      by_cases hanchored : known.anchored = false
      · rw [if_pos hanchored, if_pos (Or.inl hanchored), hstate]
      · by_cases hold : sequence <= known.lastSequence
        · rw [if_neg hanchored, if_pos hold, if_pos (Or.inr hold), hstate]
        · rw [if_neg hanchored, if_neg hold, if_neg (not_or.mpr ⟨hanchored, hold⟩),
            state_setState, state_checkSequence, hstate]

/-!
## A view that is not stale is exact

Whatever the channel does, an anchored symbol that is not stale shows the top
of book of the message it has advanced to: the next message in the numbering
either carries its quote or leaves the quote as it was.
-/

def Exact (feed : List SentMessage) (symbol : SymbolId) (b : UdpFeedBookBuilder) : Prop :=
  (b.state symbol).anchored = true -> (b.state symbol).stale = false ->
    exists i x, feed[i]? = some x ∧
      (b.state symbol).lastSequence = UInt64.ofNat (i + 1) ∧
      (b.state symbol).book = some x.top

/-- The number after a sent one is that of the next message, unless it wraps. -/
theorem next_number {n i j : Nat} (hn : n < 2 ^ 64) (hi : i < n) (hj : j < n)
    (hafter : ¬ UInt64.ofNat (j + 1) <= UInt64.ofNat (i + 1))
    (hnext : UInt64.ofNat (j + 1) = UInt64.ofNat (i + 1) + 1) : j = i + 1 := by
  have hi' : (UInt64.ofNat (i + 1)).toNat = i + 1 :=
    UInt64.toNat_ofNat_of_lt' (Nat.lt_of_le_of_lt (Nat.succ_le_of_lt hi) hn)
  have hj' : (UInt64.ofNat (j + 1)).toNat = j + 1 :=
    UInt64.toNat_ofNat_of_lt' (Nat.lt_of_le_of_lt (Nat.succ_le_of_lt hj) hn)
  rw [UInt64.le_iff_toNat_le, hi', hj'] at hafter
  have hvalue := congrArg UInt64.toNat hnext
  rw [UInt64.toNat_add, hi', hj'] at hvalue
  have hone : (1 : UInt64).toNat = 1 := rfl
  rw [hone] at hvalue
  omega

theorem exact_applyIncremental {feed : List SentMessage} (hlength : feed.length < 2 ^ 64)
    {update : Option TopOfBook -> Option TopOfBook} {j : Nat} {x : SentMessage}
    (hx : feed[j]? = some x)
    (hupdate : forall i y, feed[i]? = some y -> j = i + 1 ->
      update (some y.top) = some x.top) (h : b.Exact feed symbol) :
    (b.applyIncremental symbol (UInt64.ofNat (j + 1)) update).Exact feed symbol := by
  unfold Exact
  rw [state_applyIncremental]
  split
  · exact h
  · next hcurrent =>
      intro hanchored hfresh
      dsimp only at hanchored hfresh ⊢
      rw [Bool.or_eq_false_iff, decide_eq_false_iff_not, not_not] at hfresh
      rcases h hanchored hfresh.left with ⟨i, y, hy, hlast, hbook⟩
      rw [not_or, hlast] at hcurrent
      rw [hlast] at hfresh
      have hi := (List.getElem?_eq_some_iff.mp hy).choose
      have hj := (List.getElem?_eq_some_iff.mp hx).choose
      have hnext : j = i + 1 := next_number hlength hi hj hcurrent.right hfresh.right
      exact ⟨j, x, hx, rfl, by rw [hbook]; exact hupdate i y hy hnext⟩

theorem exact_onMessage {feed : List SentMessage} (hfeed : ConsistentFeed symbol feed)
    (hlength : feed.length < 2 ^ 64) {x : SentMessage} (hx : x ∈ feed)
    (h : b.Exact feed symbol) : (b.onMessage x.message).Exact feed symbol := by
  rcases List.getElem?_of_mem hx with ⟨j, hj⟩
  have hsymbol := hfeed.symbol_eq x hx
  have hsequence := hfeed.numbered j x hj
  have hcarried := hfeed.carried x hx
  unfold onMessage
  cases hbody : x.message.body with
  | snapshot top asOf =>
      have htop : top = x.top := hcarried top (by rw [hbody]; rfl)
      dsimp only
      rw [hsymbol, hsequence, htop]
      intro _ _
      unfold applySnapshot
      rw [state_setState]
      exact ⟨j, x, hj, rfl, rfl⟩
  | topOfBook top =>
      have htop : top = x.top := hcarried top (by rw [hbody]; rfl)
      dsimp only
      rw [hsymbol, hsequence, htop]
      exact exact_applyIncremental hlength hj (fun _ _ _ _ => rfl) h
  | trade price quantity tradeSequence =>
      dsimp only
      rw [hsymbol, hsequence]
      refine exact_applyIncremental hlength hj ?_ h
      intro i y hy hnext
      rw [hnext] at hj
      have hquiet := hfeed.quiet i y x hy hj (by rw [hbody]; rfl)
      exact congrArg some hquiet.symm

theorem exact_deliver {feed : List SentMessage} (hfeed : ConsistentFeed symbol feed)
    (hlength : feed.length < 2 ^ 64) {msgs : List FeedMessage}
    (hmsgs : forall msg, msg ∈ msgs -> exists x, x ∈ feed ∧ x.message = msg) :
    (deliver {} msgs).Exact feed symbol := by
  have hempty : Exact feed symbol {} := fun hanchored => by cases hanchored
  have hstep : forall (b : UdpFeedBookBuilder) (msg : FeedMessage), b.Exact feed symbol ->
      (exists x, x ∈ feed ∧ x.message = msg) -> (b.onMessage msg).Exact feed symbol := by
    rintro b msg h ⟨x, hx, rfl⟩
    exact exact_onMessage hfeed hlength hx h
  exact Machine.run_invariant_of hstep hempty
    (fun v hv => hmsgs v.2 (Machine.mem_of_mem_visits _ hv))

/-!
## Without losses nothing is stale

The numbering may even wrap: the builder then ignores what follows until the
next snapshot, which is not being stale.
-/

theorem maximal_of_succ_le {n : UInt64} (h : n + 1 <= n) (sequence : UInt64) :
    sequence <= n := by
  have hlt := n.toNat_lt
  have hother := sequence.toNat_lt
  have hone : (1 : UInt64).toNat = 1 := rfl
  rw [UInt64.le_iff_toNat_le, UInt64.toNat_add, hone] at h
  rw [UInt64.le_iff_toNat_le]
  omega

/-- All of the first `n` messages since the snapshot have been seen. -/
structure Following (symbol : SymbolId) (n : Nat) (b : UdpFeedBookBuilder) : Prop where
  anchored : (b.state symbol).anchored = true
  fresh : (b.state symbol).stale = false
  last : (b.state symbol).lastSequence = UInt64.ofNat n ∨
    forall sequence, sequence <= (b.state symbol).lastSequence

theorem Following.applyIncremental {n : Nat} (h : b.Following symbol n)
    (update : Option TopOfBook -> Option TopOfBook) :
    (b.applyIncremental symbol (UInt64.ofNat (n + 1)) update).Following symbol (n + 1) := by
  have hnumber : UInt64.ofNat (n + 1) = UInt64.ofNat n + 1 := UInt64.ofNat_add n 1
  have hstate := state_applyIncremental b symbol (UInt64.ofNat (n + 1)) update
  by_cases hold : UInt64.ofNat (n + 1) <= (b.state symbol).lastSequence
  · rw [if_pos (Or.inr hold)] at hstate
    constructor <;> rw [hstate]
    · exact h.anchored
    · exact h.fresh
    · rcases h.last with hlast | hmaximal
      · rw [hlast, hnumber] at hold
        rw [hlast]
        exact Or.inr (maximal_of_succ_le hold)
      · exact Or.inr hmaximal
  · have hlast : (b.state symbol).lastSequence = UInt64.ofNat n := by
      rcases h.last with hlast | hmaximal
      · exact hlast
      · exact absurd (hmaximal _) hold
    have hcurrent : ¬ ((b.state symbol).anchored = false ∨
        UInt64.ofNat (n + 1) <= (b.state symbol).lastSequence) := by
      rw [h.anchored]
      exact not_or.mpr ⟨Bool.noConfusion, hold⟩
    rw [if_neg hcurrent] at hstate
    constructor <;> rw [hstate]
    · exact h.anchored
    · simp [h.fresh, hlast, hnumber]
    · exact Or.inl rfl

theorem following_snapshot (b : UdpFeedBookBuilder) (symbol : SymbolId) (n : Nat)
    (top : TopOfBook) : (b.applySnapshot symbol (UInt64.ofNat n) top).Following symbol n := by
  unfold applySnapshot
  constructor <;> rw [state_setState]
  exact Or.inl rfl

theorem Following.onMessage {n : Nat} {msg : FeedMessage} (h : b.Following symbol n)
    (hsymbol : msg.symbol = symbol) (hsequence : msg.sequence = UInt64.ofNat (n + 1)) :
    (b.onMessage msg).Following symbol (n + 1) := by
  unfold UdpFeedBookBuilder.onMessage
  rw [hsymbol, hsequence]
  split
  · exact following_snapshot b symbol (n + 1) _
  · exact h.applyIncremental _
  · exact h.applyIncremental _

theorem Following.deliver {front tail : List SentMessage}
    (hfeed : ConsistentFeed symbol (front ++ tail)) (h : b.Following symbol front.length)
    (n : Nat) :
    (b.deliver ((tail.take n).map SentMessage.message)).isStale symbol = false := by
  induction tail generalizing front b n with
  | nil =>
      rw [List.take_nil, isStale_eq]
      exact h.fresh
  | cons x tail ih =>
      cases n with
      | zero =>
          rw [isStale_eq]
          exact h.fresh
      | succ n =>
          have hsymbol := hfeed.symbol_eq x (List.mem_append_right _ List.mem_cons_self)
          have hsequence := hfeed.numbered front.length x (by simp)
          have hstep := h.onMessage hsymbol hsequence
          have hlength : (front ++ [x]).length = front.length + 1 := List.length_append
          rw [List.append_cons] at hfeed
          rw [← hlength] at hstep
          exact ih hfeed hstep n

end UdpFeedBookBuilder

/-- The messages that can be delivered: any of the sent ones, in any order, any number of times. -/
def DeliveredFrom (feed : List SentMessage) (msgs : List FeedMessage) : Prop :=
  forall msg, msg ∈ msgs -> exists x, x ∈ feed ∧ x.message = msg

/-- The builder shows the top of book of every sent message it has the number of. -/
def ShowsLastMessage (feed : List SentMessage) (symbol : SymbolId)
    (b : UdpFeedBookBuilder) : Prop :=
  (exists x, x ∈ feed ∧ x.message.sequence = (b.state symbol).lastSequence) ∧
    forall x, x ∈ feed -> x.message.sequence = (b.state symbol).lastSequence ->
      b.topOfBook symbol = some x.top

theorem UdpFeedBookBuilder.Exact.showsLastMessage {feed : List SentMessage}
    {symbol : SymbolId} {b : UdpFeedBookBuilder} (hfeed : ConsistentFeed symbol feed)
    (hlength : feed.length < 2 ^ 64) (h : b.Exact feed symbol)
    (hanchored : b.isAnchored symbol = true) (hfresh : b.isStale symbol = false) :
    ShowsLastMessage feed symbol b := by
  rw [UdpFeedBookBuilder.isAnchored_eq] at hanchored
  rw [UdpFeedBookBuilder.isStale_eq] at hfresh
  rcases h hanchored hfresh with ⟨i, x, hx, hlast, hbook⟩
  refine ⟨⟨x, List.mem_of_getElem? hx, (hfeed.numbered i x hx).trans hlast.symm⟩, ?_⟩
  intro y hy hsequence
  rcases List.getElem?_of_mem hy with ⟨j, hj⟩
  have hi := (List.getElem?_eq_some_iff.mp hx).choose
  have hj' := (List.getElem?_eq_some_iff.mp hj).choose
  rw [hfeed.numbered j y hj, hlast] at hsequence
  have hvalues := congrArg UInt64.toNat hsequence
  rw [UInt64.toNat_ofNat_of_lt' (Nat.lt_of_le_of_lt (Nat.succ_le_of_lt hj') hlength),
    UInt64.toNat_ofNat_of_lt' (Nat.lt_of_le_of_lt (Nat.succ_le_of_lt hi) hlength)] at hvalues
  have hsame : j = i := Nat.succ_injective hvalues
  rw [hsame, hx] at hj
  cases hj
  rw [UdpFeedBookBuilder.topOfBook_of_anchored hanchored, hbook]

/--
A view that is not stale is exact while the numbering has not wrapped, and a
subscriber that loses nothing from a snapshot on is never stale after it.
-/
theorem fresh_view_is_exact (symbol : SymbolId) (snapshotInterval : UInt64)
    (events : List SinkEvent) :
    (((UdpFeedPublisher.new symbol snapshotInterval).run events).sent.length < 2 ^ 64 ->
      forall msgs,
        DeliveredFrom ((UdpFeedPublisher.new symbol snapshotInterval).run events).sent msgs ->
        (UdpFeedBookBuilder.deliver {} msgs).isAnchored symbol = true ->
        (UdpFeedBookBuilder.deliver {} msgs).isStale symbol = false ->
        ShowsLastMessage ((UdpFeedPublisher.new symbol snapshotInterval).run events).sent
          symbol (UdpFeedBookBuilder.deliver {} msgs)) ∧
    forall (b : UdpFeedBookBuilder) front snap tail top asOf,
      ((UdpFeedPublisher.new symbol snapshotInterval).run events).sent =
        front ++ snap :: tail ->
      snap.message.body = .snapshot top asOf ->
      forall n, (b.deliver ((snap :: tail.take n).map SentMessage.message)).isStale symbol =
        false := by
  have hfeed := (UdpFeedPublisher.settled_run symbol snapshotInterval events).consistent
  constructor
  · intro hlength msgs hmsgs hanchored hfresh
    have hexact := UdpFeedBookBuilder.exact_deliver hfeed hlength hmsgs
    exact hexact.showsLastMessage hfeed hlength hanchored hfresh
  · intro b front snap tail top asOf hsplit hbody n
    rw [hsplit] at hfeed
    have hsymbol := hfeed.symbol_eq snap (List.mem_append_right _ List.mem_cons_self)
    have hsequence := hfeed.numbered front.length snap (by simp)
    have hanchor : (b.onMessage snap.message).Following symbol (front ++ [snap]).length := by
      unfold UdpFeedBookBuilder.onMessage
      rw [hbody, hsymbol, hsequence, List.length_append]
      exact UdpFeedBookBuilder.following_snapshot b symbol (front.length + 1) top
    rw [List.append_cons] at hfeed
    exact hanchor.deliver hfeed n

/-!
## Two bids

With a snapshot after every message, they send messages 1 to 4.
-/

namespace WrappedFeed

open UdpFeedPublisher

def bidAt (price : Price) : SinkEvent :=
  .onOrderAccepted { id := ⟨1⟩, side := .buy, quantity := ⟨1⟩, price := price }

def opening : UdpFeedPublisher :=
  (new ⟨1⟩ 1).run [bidAt ⟨100⟩, bidAt ⟨101⟩]

def topAt (price : Price) : TopOfBook where
  bidPrice := price
  bidQty := ⟨1⟩
  askPrice := ⟨0⟩
  askQty := ⟨0⟩

def firstSnapshot : FeedMessage where
  symbol := ⟨1⟩
  sequence := 2
  body := .snapshot (topAt ⟨100⟩) 2

def secondUpdate : FeedMessage where
  symbol := ⟨1⟩
  sequence := 3
  body := .topOfBook (topAt ⟨101⟩)

def inOrder : List FeedMessage :=
  [firstSnapshot, secondUpdate]

theorem delivered_inOrder : DeliveredFrom opening.sent inOrder := by
  unfold DeliveredFrom
  decide

theorem fresh_view_is_exact_inOrder :
    (UdpFeedBookBuilder.deliver {} inOrder).isAnchored ⟨1⟩ = true ∧
      (UdpFeedBookBuilder.deliver {} inOrder).isStale ⟨1⟩ = false ∧
      ShowsLastMessage opening.sent ⟨1⟩ (UdpFeedBookBuilder.deliver {} inOrder) :=
  have hlength : opening.sent.length < 2 ^ 64 := by decide
  ⟨rfl, rfl, (fresh_view_is_exact ⟨1⟩ 1 [bidAt ⟨100⟩, bidAt ⟨101⟩]).left hlength inOrder
    delivered_inOrder rfl rfl⟩

/-!
## A numbering that wraps

Trades away from the top of book follow the two bids until one is numbered 3
again; delivered right after snapshot 2, it hides the second bid.
-/

def wrappedEvents (n : Nat) : List SinkEvent :=
  [bidAt ⟨100⟩, bidAt ⟨101⟩] ++ List.replicate n (.onTrade farTrade)

theorem sent_wrappedEvents (n : Nat) :
    exists more, ((new ⟨1⟩ 1).run (wrappedEvents n)).sent = opening.sent ++ more ∧
      (forall x, x ∈ more -> x.top = topAt ⟨101⟩) ∧
      forall k, k < n ->
        exists x, x ∈ more ∧ x.message = tradeMessage (5 + UInt64.ofNat (2 * k)) := by
  have hbid : (⟨⟨101⟩, ⟨1⟩, 1⟩ : SideState).price ≠ ⟨7⟩ := by decide
  have hask : ({} : SideState).price ≠ ⟨7⟩ := by decide
  rcases run_farTrades hbid hask 5 opening.sent n with ⟨more, hrun, -, htops, hmessages⟩
  have hsplit : (new ⟨1⟩ 1).run (wrappedEvents n) =
      opening.run (List.replicate n (.onTrade farTrade)) :=
    Machine.run_append onEvent _ _ _
  have hopening : opening = ⟨⟨1⟩, 1, 5, 0, ⟨⟨101⟩, ⟨1⟩, 1⟩, {}, opening.sent⟩ := rfl
  refine ⟨more, ?_, htops, hmessages⟩
  rw [hsplit, hopening, hrun]

def wrappedDelivery : List FeedMessage :=
  [firstSnapshot, tradeMessage 3]

theorem delivered_of_wrap {n : Nat} (hn : n + 1 = 2 ^ 63) :
    DeliveredFrom ((new ⟨1⟩ 1).run (wrappedEvents (n + 1))).sent wrappedDelivery := by
  rcases sent_wrappedEvents (n + 1) with ⟨more, hsent, -, hmessages⟩
  rw [hsent]
  intro msg hmsg
  rcases List.mem_cons.mp hmsg with rfl | hmsg
  · rcases delivered_inOrder firstSnapshot List.mem_cons_self with ⟨x, hx, hmessage⟩
    exact ⟨x, List.mem_append_left _ hx, hmessage⟩
  · rw [List.mem_singleton.mp hmsg]
    have hnumber : 5 + UInt64.ofNat (2 * n) = 3 := by
      have hvalue : 2 * n = 2 ^ 64 - 2 := by omega
      rw [hvalue]
      rfl
    rcases hmessages n (Nat.lt_succ_self n) with ⟨x, hx, hmessage⟩
    rw [hnumber] at hmessage
    exact ⟨x, List.mem_append_right _ hx, hmessage⟩

theorem top_of_three {n : Nat} {x : SentMessage}
    (hx : x ∈ ((new ⟨1⟩ 1).run (wrappedEvents n)).sent) (hthree : x.message.sequence = 3) :
    x.top = topAt ⟨101⟩ := by
  rcases sent_wrappedEvents n with ⟨more, hsent, htops, -⟩
  rw [hsent] at hx
  rcases List.mem_append.mp hx with hfirst | hlater
  · have hopening : forall y, y ∈ opening.sent -> y.message.sequence = 3 ->
        y.top = topAt ⟨101⟩ := by decide
    exact hopening x hfirst hthree
  · exact htops x hlater

theorem wrong_of_wrap {n : Nat} (hn : n + 1 = 2 ^ 63) :
    exists msgs, DeliveredFrom ((new ⟨1⟩ 1).run (wrappedEvents (n + 1))).sent msgs ∧
      (UdpFeedBookBuilder.deliver {} msgs).isAnchored ⟨1⟩ = true ∧
      (UdpFeedBookBuilder.deliver {} msgs).isStale ⟨1⟩ = false ∧
      forall x, x ∈ ((new ⟨1⟩ 1).run (wrappedEvents (n + 1))).sent ->
        x.message.sequence = ((UdpFeedBookBuilder.deliver {} msgs).state ⟨1⟩).lastSequence ->
        (UdpFeedBookBuilder.deliver {} msgs).topOfBook ⟨1⟩ ≠ some x.top := by
  refine ⟨wrappedDelivery, delivered_of_wrap hn, rfl, rfl, ?_⟩
  intro x hx hlast
  have htop : (UdpFeedBookBuilder.deliver {} wrappedDelivery).topOfBook ⟨1⟩ =
      some (topAt ⟨100⟩) := rfl
  rw [htop, top_of_three hx hlast]
  decide

/-- A builder that is not stale shows a top of book no message of that number had. -/
theorem wrapped_view_is_wrong :
    exists msgs, DeliveredFrom ((new ⟨1⟩ 1).run (wrappedEvents (2 ^ 63))).sent msgs ∧
      (UdpFeedBookBuilder.deliver {} msgs).isAnchored ⟨1⟩ = true ∧
      (UdpFeedBookBuilder.deliver {} msgs).isStale ⟨1⟩ = false ∧
      forall x, x ∈ ((new ⟨1⟩ 1).run (wrappedEvents (2 ^ 63))).sent ->
        x.message.sequence = ((UdpFeedBookBuilder.deliver {} msgs).state ⟨1⟩).lastSequence ->
        (UdpFeedBookBuilder.deliver {} msgs).topOfBook ⟨1⟩ ≠ some x.top := by
  have hn : 2 ^ 63 - 1 + 1 = 2 ^ 63 := rfl
  have hwrong := wrong_of_wrap hn
  rwa [hn] at hwrong

end WrappedFeed
end Feed
end MiniExchange
