import MiniExchange.Feed.Publisher

/-!
# Invariants of the publisher

What the publisher keeps under every sequence of events, whether or not the
events agree with any book: the two tracked sides are sound and uncrossed, a
snapshot follows every so many messages, and the top of book changes only where
a message says so.
-/

namespace MiniExchange
namespace Feed

open Foundation

/-!
## Sides
-/

namespace SideState

structure Sound (s : SideState) : Prop where
  empty_iff : s.count = 0 <-> s.price = Price.zero
  qty_eq : s.count = 0 -> s.qty = Quantity.zero

theorem sound_empty : ({} : SideState).Sound :=
  ⟨iff_of_true rfl rfl, fun _ => rfl⟩

variable {s joined : SideState} {improves removed : Bool} {price : Price} {quantity : Quantity}

theorem reduce_cases (s : SideState) (quantity : Quantity) (removed : Bool) :
    s.reduce quantity removed = {} ∨
      exists qty, (if removed then s.count - 1 else s.count) ≠ 0 ∧
        s.reduce quantity removed =
          { price := s.price, qty := qty, count := if removed then s.count - 1 else s.count } := by
  unfold reduce
  generalize (if removed = true then s.count - 1 else s.count) = count
  dsimp only
  by_cases hempty : count = 0
  · rw [if_pos hempty, hempty]
    exact Or.inl rfl
  · rw [if_neg hempty]
    exact Or.inr ⟨_, hempty, rfl⟩

theorem price_reduce (h : (s.reduce quantity removed).count ≠ 0) :
    (s.reduce quantity removed).price = s.price := by
  rcases reduce_cases s quantity removed with hempty | ⟨qty, -, hkept⟩
  · rw [hempty] at h
    exact absurd rfl h
  · rw [hkept]

theorem sound_reduce (h : s.Sound) (hcount : s.count ≠ 0) :
    (s.reduce quantity removed).Sound := by
  have hprice : s.price ≠ Price.zero := fun hzero => hcount (h.empty_iff.mpr hzero)
  rcases reduce_cases s quantity removed with hempty | ⟨qty, hmore, hkept⟩
  · rw [hempty]
    exact sound_empty
  · rw [hkept]
    exact ⟨iff_of_false hmore hprice, fun hzero => absurd hzero hmore⟩

theorem count_reduce_le (hcount : s.count ≠ 0) :
    (s.reduce quantity removed).count.toNat <= s.count.toNat := by
  rcases reduce_cases s quantity removed with hempty | ⟨qty, -, hkept⟩
  · rw [hempty]
    exact Nat.zero_le _
  · rw [hkept]
    show (if removed then s.count - 1 else s.count).toNat <= s.count.toNat
    split
    · rw [toNat_count_pred hcount]
      exact Nat.sub_le _ _
    · exact Nat.le_refl _

theorem join_cases (h : s.join improves price quantity = some joined) :
    joined.price = price ∧
      (joined.count = 1 ∨ s.count ≠ 0 ∧ joined.count = s.count + 1) := by
  unfold join at h
  split at h
  · cases h
    exact ⟨rfl, Or.inl rfl⟩
  · next hkept =>
      split at h
      · next hprice =>
          cases h
          exact ⟨hprice.symm, Or.inr ⟨fun hzero => hkept (Or.inl hzero), rfl⟩⟩
      · cases h

theorem count_join_le (h : s.join improves price quantity = some joined) {n : Nat}
    (hbound : s.count.toNat <= n) (hn : n + 1 < 2 ^ 64) :
    joined.count ≠ 0 ∧ joined.count.toNat <= n + 1 := by
  rcases (join_cases h).right with hone | ⟨-, hmore⟩
  · rw [hone]
    refine ⟨by decide, ?_⟩
    show 1 <= n + 1
    omega
  · have hvalue : (s.count + 1).toNat = s.count.toNat + 1 := toNat_count_succ (by omega)
    rw [hmore]
    refine ⟨?_, by omega⟩
    intro hzero
    rw [hzero] at hvalue
    cases hvalue

theorem sound_join (h : s.join improves price quantity = some joined)
    (hprice : price ≠ Price.zero) (hcount : joined.count ≠ 0) : joined.Sound := by
  rw [← (join_cases h).left] at hprice
  exact ⟨iff_of_false hcount hprice, fun hzero => absurd hzero hcount⟩

end SideState

structure SoundSides (bid ask : SideState) : Prop where
  bid_sound : bid.Sound
  ask_sound : ask.Sound
  uncrossed : bid.count ≠ 0 -> ask.count ≠ 0 -> bid.price < ask.price

inductive Updated (bid ask : SideState) : SideState -> SideState -> Prop where
  | reduceBid {quantity : Quantity} {removed : Bool} (hcount : bid.count ≠ 0) :
      Updated bid ask (bid.reduce quantity removed) ask
  | reduceAsk {quantity : Quantity} {removed : Bool} (hcount : ask.count ≠ 0) :
      Updated bid ask bid (ask.reduce quantity removed)
  | joinBid {improves : Bool} {price : Price} {quantity : Quantity} {joined : SideState}
      (hprice : price ≠ Price.zero) (hbelow : ask.count ≠ 0 -> price < ask.price)
      (hjoin : bid.join improves price quantity = some joined) : Updated bid ask joined ask
  | joinAsk {improves : Bool} {price : Price} {quantity : Quantity} {joined : SideState}
      (hprice : price ≠ Price.zero) (habove : bid.count ≠ 0 -> bid.price < price)
      (hjoin : ask.join improves price quantity = some joined) : Updated bid ask bid joined

theorem Updated.sound {bid ask bid' ask' : SideState} {n : Nat}
    (h : Updated bid ask bid' ask') (hsound : SoundSides bid ask) (hn : n + 1 < 2 ^ 64)
    (hbid : bid.count.toNat <= n) (hask : ask.count.toNat <= n) :
    SoundSides bid' ask' ∧ bid'.count.toNat <= n + 1 ∧ ask'.count.toNat <= n + 1 := by
  cases h with
  | reduceBid hcount =>
      refine ⟨⟨SideState.sound_reduce hsound.bid_sound hcount, hsound.ask_sound, ?_⟩,
        Nat.le_succ_of_le (Nat.le_trans (SideState.count_reduce_le hcount) hbid),
        Nat.le_succ_of_le hask⟩
      intro hleft hother
      rw [SideState.price_reduce hleft]
      exact hsound.uncrossed hcount hother
  | reduceAsk hcount =>
      refine ⟨⟨hsound.bid_sound, SideState.sound_reduce hsound.ask_sound hcount, ?_⟩,
        Nat.le_succ_of_le hbid,
        Nat.le_succ_of_le (Nat.le_trans (SideState.count_reduce_le hcount) hask)⟩
      intro hother hleft
      rw [SideState.price_reduce hleft]
      exact hsound.uncrossed hother hcount
  | joinBid hprice hbelow hjoin =>
      rcases SideState.count_join_le hjoin hbid hn with ⟨hcount, hle⟩
      refine ⟨⟨SideState.sound_join hjoin hprice hcount, hsound.ask_sound, ?_⟩, hle,
        Nat.le_succ_of_le hask⟩
      intro _ hother
      rw [(SideState.join_cases hjoin).left]
      exact hbelow hother
  | joinAsk hprice habove hjoin =>
      rcases SideState.count_join_le hjoin hask hn with ⟨hcount, hle⟩
      refine ⟨⟨hsound.bid_sound, SideState.sound_join hjoin hprice hcount, ?_⟩,
        Nat.le_succ_of_le hbid, hle⟩
      intro hother _
      rw [(SideState.join_cases hjoin).left]
      exact habove hother

/-!
## Messages
-/

structure TopOfBook.Consistent (top : TopOfBook) : Prop where
  bid_qty : top.bidPrice = Price.zero -> top.bidQty = Quantity.zero
  ask_qty : top.askPrice = Price.zero -> top.askQty = Quantity.zero
  uncrossed : top.bidPrice ≠ Price.zero -> top.askPrice ≠ Price.zero ->
    top.bidPrice < top.askPrice

theorem SoundSides.consistent {p : UdpFeedPublisher} (h : SoundSides p.bid p.ask) :
    p.currentTopOfBook.Consistent where
  bid_qty := fun hprice => h.bid_sound.qty_eq (h.bid_sound.empty_iff.mpr hprice)
  ask_qty := fun hprice => h.ask_sound.qty_eq (h.ask_sound.empty_iff.mpr hprice)
  uncrossed := fun hbid hask =>
    h.uncrossed (fun hzero => hbid (h.bid_sound.empty_iff.mp hzero))
      (fun hzero => hask (h.ask_sound.empty_iff.mp hzero))

def FeedBody.isSnapshot : FeedBody -> Bool
  | .snapshot _ _ => true
  | _ => false

def plainCount (bodies : List FeedBody) : Nat :=
  bodies.countP (fun body => !body.isSnapshot)

/-- The last message is not a snapshot, and a whole number of intervals is complete with it. -/
def SnapshotDue (interval : Nat) (bodies : List FeedBody) : Prop :=
  (exists body, bodies.getLast? = some body ∧ body.isSnapshot = false) ∧
    interval ∣ plainCount bodies

structure Cadence (interval : Nat) (bodies : List FeedBody) : Prop where
  snapshot_iff : forall i body, bodies[i]? = some body ->
    (body.isSnapshot = true <-> SnapshotDue interval (bodies.take i))
  not_due : ¬SnapshotDue interval bodies

/-- From one top of book to another, with a message for every change. -/
def Steady : TopOfBook -> List SentMessage -> TopOfBook -> Prop
  | top, [], last => last = top
  | top, x :: rest, last =>
      (x.top = top ∨ x.message.body = .topOfBook x.top) ∧ Steady x.top rest last

theorem Steady.concat {top last : TopOfBook} {feed : List SentMessage} {x : SentMessage}
    (h : Steady top feed last)
    (hx : x.top = last ∨ x.message.body = .topOfBook x.top) :
    Steady top (feed ++ [x]) x.top := by
  induction feed generalizing top with
  | nil =>
      rw [show last = top from h] at hx
      exact ⟨hx, rfl⟩
  | cons y feed ih => exact ⟨h.left, ih h.right⟩

section Cadence

variable {interval : Nat} {bodies : List FeedBody} {body : FeedBody}

theorem plainCount_concat (bodies : List FeedBody) (body : FeedBody) :
    plainCount (bodies ++ [body]) =
      plainCount bodies + if body.isSnapshot then 0 else 1 := by
  unfold plainCount
  rw [List.countP_append, List.countP_singleton]
  cases body.isSnapshot <;> rfl

theorem snapshotDue_concat :
    SnapshotDue interval (bodies ++ [body]) <->
      body.isSnapshot = false ∧ interval ∣ plainCount bodies + 1 := by
  unfold SnapshotDue
  rw [List.getLast?_concat, plainCount_concat]
  constructor
  · rintro ⟨⟨x, hx, hplain⟩, hdvd⟩
    rw [← Option.some.inj hx] at hplain
    rw [hplain] at hdvd
    exact ⟨hplain, hdvd⟩
  · rintro ⟨hplain, hdvd⟩
    refine ⟨⟨body, rfl, hplain⟩, ?_⟩
    rw [hplain]
    exact hdvd

theorem snapshot_iff_concat
    (h : forall i x, bodies[i]? = some x ->
      (x.isSnapshot = true <-> SnapshotDue interval (bodies.take i)))
    (hbody : body.isSnapshot = true <-> SnapshotDue interval bodies) :
    forall i x, (bodies ++ [body])[i]? = some x ->
      (x.isSnapshot = true <-> SnapshotDue interval ((bodies ++ [body]).take i)) := by
  intro i x hx
  rcases Nat.lt_trichotomy i bodies.length with hlt | heq | hgt
  · rw [List.getElem?_append_left hlt] at hx
    rw [List.take_append_of_le_length (Nat.le_of_lt hlt)]
    exact h i x hx
  · rw [heq, List.getElem?_concat_length] at hx
    rw [heq, List.take_left, ← Option.some.inj hx]
    exact hbody
  · rw [List.getElem?_eq_none (by simp; omega)] at hx
    cases hx

theorem Cadence.plain (h : Cadence interval bodies) (hplain : body.isSnapshot = false)
    (hmore : ¬interval ∣ plainCount bodies + 1) : Cadence interval (bodies ++ [body]) where
  snapshot_iff := snapshot_iff_concat h.snapshot_iff
    (iff_of_false (by rw [hplain]; exact Bool.false_ne_true) h.not_due)
  not_due := fun hdue => hmore (snapshotDue_concat.mp hdue).right

theorem Cadence.withSnapshot {snapshot : FeedBody} (h : Cadence interval bodies)
    (hplain : body.isSnapshot = false) (hsnapshot : snapshot.isSnapshot = true)
    (hcomplete : interval ∣ plainCount bodies + 1) :
    Cadence interval (bodies ++ [body] ++ [snapshot]) where
  snapshot_iff := by
    apply snapshot_iff_concat
    · exact snapshot_iff_concat h.snapshot_iff
        (iff_of_false (by rw [hplain]; exact Bool.false_ne_true) h.not_due)
    · exact iff_of_true hsnapshot (snapshotDue_concat.mpr ⟨hplain, hcomplete⟩)
  not_due := by
    intro hdue
    rw [(snapshotDue_concat.mp hdue).left] at hsnapshot
    cases hsnapshot

end Cadence

/-!
## Sending
-/

namespace UdpFeedPublisher

def bodies (p : UdpFeedPublisher) : List FeedBody :=
  p.sent.map fun x => x.message.body

def emit (p : UdpFeedPublisher) (body : FeedBody) : UdpFeedPublisher :=
  (p.sendToAll body).checkSnapshotTrigger

theorem publishUpdate_eq (p : UdpFeedPublisher) :
    p.publishUpdate = p.emit (.topOfBook p.currentTopOfBook) :=
  rfl

theorem emit_cases (p : UdpFeedPublisher) (body : FeedBody) :
    p.messagesSinceSnapshot + 1 < p.snapshotInterval ∧
        p.emit body =
          { p.sendToAll body with messagesSinceSnapshot := p.messagesSinceSnapshot + 1 } ∨
      p.snapshotInterval <= p.messagesSinceSnapshot + 1 ∧
        p.emit body = { (p.sendToAll body).publishSnapshot with messagesSinceSnapshot := 0 } := by
  by_cases hdue : p.snapshotInterval <= p.messagesSinceSnapshot + 1
  · exact Or.inr ⟨hdue, if_pos hdue⟩
  · exact Or.inl ⟨UInt64.not_le.mp hdue, if_neg hdue⟩

def emptyTop : TopOfBook where
  bidPrice := Price.zero
  bidQty := Quantity.zero
  askPrice := Price.zero
  askQty := Quantity.zero

/--
What holds after `n` events, with `last` the top of book at the last message.
While a handler has updated a side and not yet sent the quote, `last` is behind.
-/
structure Invariant (interval : UInt64) (n : Nat) (last : TopOfBook) (p : UdpFeedPublisher) :
    Prop where
  interval_eq : p.snapshotInterval = interval
  sides : SoundSides p.bid p.ask
  bid_le : p.bid.count.toNat <= n
  ask_le : p.ask.count.toNat <= n
  quotes : forall x, x ∈ p.sent -> x.top.Consistent
  cadence : Cadence interval.toNat p.bodies
  counter : p.messagesSinceSnapshot.toNat = plainCount p.bodies % interval.toNat
  steady : Steady emptyTop p.sent last

theorem invariant_new (symbol : SymbolId) (interval : UInt64) :
    Invariant interval 0 emptyTop (new symbol interval) where
  interval_eq := rfl
  sides := ⟨SideState.sound_empty, SideState.sound_empty, fun h => absurd rfl h⟩
  bid_le := Nat.le_refl _
  ask_le := Nat.le_refl _
  quotes := fun _ hx => absurd hx List.not_mem_nil
  cadence :=
    { snapshot_iff := fun i body h => by cases h
      not_due := fun ⟨⟨body, hbody, _⟩, _⟩ => by cases hbody }
  counter := (Nat.zero_mod _).symm
  steady := rfl

theorem bodies_sendToAll (p : UdpFeedPublisher) (body : FeedBody) :
    (p.sendToAll body).bodies = p.bodies ++ [body] :=
  List.map_append

theorem tops_sendToAll {p : UdpFeedPublisher} (h : forall x, x ∈ p.sent -> x.top.Consistent)
    (hsides : SoundSides p.bid p.ask) (body : FeedBody) :
    forall x, x ∈ (p.sendToAll body).sent -> x.top.Consistent := by
  intro x hx
  rcases List.mem_append.mp hx with hold | hnew
  · exact h x hold
  · rw [List.mem_singleton.mp hnew]
    exact hsides.consistent

theorem counter_succ {counter interval : UInt64} {count : Nat} (hpos : 0 < interval)
    (h : counter.toNat = count % interval.toNat) :
    (counter + 1).toNat = counter.toNat + 1 ∧ counter.toNat < interval.toNat ∧
      (count + 1) % interval.toNat = (counter.toNat + 1) % interval.toNat := by
  have hinterval : 0 < interval.toNat := UInt64.lt_iff_toNat_lt.mp hpos
  have hlt : counter.toNat < interval.toNat := by
    rw [h]
    exact Nat.mod_lt _ hinterval
  have hmax := interval.toNat_lt
  refine ⟨toNat_count_succ (by omega), hlt, ?_⟩
  rw [h, Nat.add_mod, Nat.add_mod (count % interval.toNat) 1, Nat.mod_mod]

variable {interval : UInt64} {n : Nat} {last : TopOfBook} {p : UdpFeedPublisher}

theorem Invariant.emit (h : Invariant interval n last p) (hpos : 0 < interval) (body : FeedBody)
    (hplain : body.isSnapshot = false)
    (hchange : p.currentTopOfBook = last ∨ body = .topOfBook p.currentTopOfBook) :
    Invariant interval n p.currentTopOfBook (p.emit body) := by
  rcases counter_succ hpos h.counter with ⟨hnext, hlt, hmod⟩
  have hquotes := tops_sendToAll h.quotes h.sides body
  have hsteady : Steady emptyTop (p.sendToAll body).sent p.currentTopOfBook :=
    h.steady.concat hchange
  rcases emit_cases p body with ⟨hearly, hemit⟩ | ⟨hdue, hemit⟩
  · rw [h.interval_eq, UInt64.lt_iff_toNat_lt, hnext] at hearly
    rw [Nat.mod_eq_of_lt hearly] at hmod
    have hcadence : Cadence interval.toNat (p.sendToAll body).bodies := by
      rw [bodies_sendToAll]
      apply h.cadence.plain hplain
      intro hdvd
      rw [Nat.mod_eq_zero_of_dvd hdvd] at hmod
      omega
    have hcounter : (p.messagesSinceSnapshot + 1).toNat =
        plainCount (p.sendToAll body).bodies % interval.toNat := by
      rw [bodies_sendToAll, plainCount_concat, hplain, hnext]
      exact hmod.symm
    rw [hemit]
    exact { h with
      quotes := hquotes
      cadence := hcadence
      counter := hcounter
      steady := hsteady }
  · rw [h.interval_eq, UInt64.le_iff_toNat_le, hnext] at hdue
    have hround : p.messagesSinceSnapshot.toNat + 1 = interval.toNat := by omega
    rw [hround, Nat.mod_self] at hmod
    have hbodies : (p.sendToAll body).publishSnapshot.bodies = p.bodies ++ [body] ++
        [.snapshot p.currentTopOfBook (p.sendToAll body).nextSequence] := by
      rw [← bodies_sendToAll p body]
      exact bodies_sendToAll _ _
    have hcadence : Cadence interval.toNat (p.sendToAll body).publishSnapshot.bodies := by
      rw [hbodies]
      exact h.cadence.withSnapshot hplain rfl (Nat.dvd_of_mod_eq_zero hmod)
    have hcounter : (0 : UInt64).toNat =
        plainCount (p.sendToAll body).publishSnapshot.bodies % interval.toNat := by
      rw [hbodies, plainCount_concat, plainCount_concat, hplain]
      exact hmod.symm
    rw [hemit]
    exact { h with
      quotes := tops_sendToAll hquotes h.sides _
      cadence := hcadence
      counter := hcounter
      steady := hsteady.concat (Or.inl rfl) }

/-!
## Events
-/

inductive EventStep (p : UdpFeedPublisher) : UdpFeedPublisher -> Prop where
  | ignored : EventStep p p
  | trade (price : Price) (quantity : Quantity) (sequence : TradeSequence) :
      EventStep p (p.emit (.trade price quantity sequence))
  | update {bid ask : SideState} (h : Updated p.bid p.ask bid ask) :
      EventStep p (publishUpdate { p with bid := bid, ask := ask })
  | tradeUpdate {price : Price} {quantity : Quantity} {sequence : TradeSequence}
      {q : UdpFeedPublisher} {bid ask : SideState}
      (hq : q = p.emit (.trade price quantity sequence))
      (h : Updated q.bid q.ask bid ask) :
      EventStep p (publishUpdate { q with bid := bid, ask := ask })

theorem eventStep_onTrade (p : UdpFeedPublisher) (trade : Trade) :
    EventStep p (p.onTrade trade) := by
  unfold onTrade
  generalize hq : (p.sendToAll
    (.trade trade.price trade.quantity trade.tradeSequence)).checkSnapshotTrigger = q
  dsimp only
  split
  · next hbid =>
      exact .tradeUpdate hq.symm (.reduceBid (count_pos_iff.mp hbid.right))
  · split
    · next hask =>
        exact .tradeUpdate hq.symm (.reduceAsk (count_pos_iff.mp hask.right))
    · rw [← hq]
      exact .trade _ _ _

theorem eventStep_onOrderAccepted (p : UdpFeedPublisher) (event : OrderAccepted) :
    EventStep p (p.onOrderAccepted event) := by
  unfold onOrderAccepted
  split
  · exact .ignored
  · next hprice =>
      split
      · split
        · exact .ignored
        · next hrests =>
            split
            · next bid hjoin =>
                apply EventStep.update (Updated.joinBid hprice _ hjoin)
                intro hcount
                exact not_le.mp fun hcross => hrests ⟨count_pos_iff.mpr hcount, hcross⟩
            · exact .ignored
      · split
        · exact .ignored
        · next hrests =>
            split
            · next ask hjoin =>
                apply EventStep.update (Updated.joinAsk hprice _ hjoin)
                intro hcount
                exact not_le.mp fun hcross => hrests ⟨count_pos_iff.mpr hcount, hcross⟩
            · exact .ignored

theorem eventStep_onOrderCancelled (p : UdpFeedPublisher) (event : OrderCancelled) :
    EventStep p (p.onOrderCancelled event) := by
  unfold onOrderCancelled
  split
  · next hbid => exact .update (.reduceBid (count_pos_iff.mp hbid.right.right))
  · split
    · next hask => exact .update (.reduceAsk (count_pos_iff.mp hask.right.right))
    · exact .ignored

theorem eventStep_onEvent (p : UdpFeedPublisher) (event : SinkEvent) :
    EventStep p (p.onEvent event) := by
  cases event with
  | onOrderAccepted event => exact eventStep_onOrderAccepted p event
  | onTrade trade => exact eventStep_onTrade p trade
  | onOrderCancelled event => exact eventStep_onOrderCancelled p event

def Orderly (interval : UInt64) (n : Nat) (p : UdpFeedPublisher) : Prop :=
  Invariant interval n p.currentTopOfBook p

theorem currentTopOfBook_emit (p : UdpFeedPublisher) (body : FeedBody) :
    (p.emit body).currentTopOfBook = p.currentTopOfBook := by
  rcases emit_cases p body with ⟨-, hemit⟩ | ⟨-, hemit⟩
  · rw [hemit]
    rfl
  · rw [hemit]
    rfl

theorem Orderly.mono {m : Nat} (h : Orderly interval n p) (hle : n <= m) :
    Orderly interval m p :=
  { h with
    bid_le := Nat.le_trans h.bid_le hle
    ask_le := Nat.le_trans h.ask_le hle }

theorem Orderly.trade (h : Orderly interval n p) (hpos : 0 < interval) (price : Price)
    (quantity : Quantity) (sequence : TradeSequence) :
    Orderly interval n (p.emit (.trade price quantity sequence)) := by
  unfold Orderly
  rw [currentTopOfBook_emit]
  exact Invariant.emit h hpos _ rfl (Or.inl rfl)

theorem Orderly.update (h : Orderly interval n p) (hpos : 0 < interval) (hn : n + 1 < 2 ^ 64)
    {bid ask : SideState} (hupdated : Updated p.bid p.ask bid ask) :
    Orderly interval (n + 1) (publishUpdate { p with bid := bid, ask := ask }) := by
  rcases hupdated.sound h.sides hn h.bid_le h.ask_le with ⟨hsides, hbid, hask⟩
  have hbehind : Invariant interval (n + 1) p.currentTopOfBook { p with bid := bid, ask := ask } :=
    { h with
      sides := hsides
      bid_le := hbid
      ask_le := hask }
  unfold Orderly
  rw [publishUpdate_eq, currentTopOfBook_emit]
  exact hbehind.emit hpos _ rfl (Or.inr rfl)

theorem Orderly.onEvent (h : Orderly interval n p) (hpos : 0 < interval) (hn : n + 1 < 2 ^ 64)
    (event : SinkEvent) : Orderly interval (n + 1) (p.onEvent event) := by
  have hstep := eventStep_onEvent p event
  generalize p.onEvent event = q at hstep
  cases hstep with
  | ignored => exact h.mono (Nat.le_succ n)
  | trade price quantity sequence =>
      exact (h.trade hpos price quantity sequence).mono (Nat.le_succ n)
  | update hupdated => exact h.update hpos hn hupdated
  | tradeUpdate hq hupdated =>
      subst hq
      exact (h.trade hpos _ _ _).update hpos hn hupdated

theorem orderly_run (symbol : SymbolId) (hpos : 0 < interval) {events : List SinkEvent}
    (hevents : events.length < 2 ^ 64) :
    Orderly interval events.length ((new symbol interval).run events) := by
  have hcounted := Machine.run_counted
    (P := fun n p => n < 2 ^ 64 -> Orderly interval n p)
    (fun n p event h hn => Orderly.onEvent (h (Nat.lt_of_succ_lt hn)) hpos hn event)
    (s := new symbol interval) (n := 0) (fun _ => invariant_new symbol interval) events
  rw [Nat.zero_add] at hcounted
  exact hcounted hevents

/--
Under any events the sides and the quotes are consistent, messages are numbered
by their position modulo 2^64, snapshots stand where they are due, and every
change of the top of book is sent at once.
-/
theorem publisher_quotes_consistent (symbol : SymbolId) (hpos : 0 < interval)
    {events : List SinkEvent} (hevents : events.length < 2 ^ 64) :
    let p := (new symbol interval).run events
    SoundSides p.bid p.ask ∧
      (forall x, x ∈ p.sent -> forall top, x.message.body.quote? = some top -> top.Consistent) ∧
      (forall i x, p.sent[i]? = some x -> x.message.sequence = UInt64.ofNat (i + 1)) ∧
      Cadence interval.toNat p.bodies ∧
      Steady emptyTop p.sent p.currentTopOfBook := by
  intro p
  have h : Orderly interval events.length p := orderly_run symbol hpos hevents
  have hfeed : ConsistentFeed symbol p.sent := (settled_run symbol interval events).consistent
  refine ⟨h.sides, ?_, hfeed.numbered, h.cadence, h.steady⟩
  intro x hx top htop
  rw [hfeed.carried x hx top htop]
  exact h.quotes x hx

def quotedTrade : List SinkEvent :=
  [.onOrderAccepted { id := ⟨1⟩, side := .buy, quantity := ⟨5⟩, price := ⟨99⟩ },
    .onOrderAccepted { id := ⟨2⟩, side := .sell, quantity := ⟨5⟩, price := ⟨101⟩ },
    .onTrade
      { tradeSequence := ⟨1⟩, buyOrderId := ⟨1⟩, sellOrderId := ⟨3⟩, price := ⟨99⟩
        quantity := ⟨5⟩, restingOrderRemoved := true }]

theorem publisher_quotes_quotedTrade :
    ((new ⟨1⟩ 2).run quotedTrade).sent.length = 6 ∧
      SoundSides ((new ⟨1⟩ 2).run quotedTrade).bid ((new ⟨1⟩ 2).run quotedTrade).ask ∧
      Cadence (2 : UInt64).toNat ((new ⟨1⟩ 2).run quotedTrade).bodies :=
  have h := publisher_quotes_consistent ⟨1⟩ (show (0 : UInt64) < 2 by decide)
    (show quotedTrade.length < 2 ^ 64 by decide)
  ⟨by decide, h.left, h.right.right.right.left⟩

/-!
## More messages than numbers

With a snapshot behind every message, a trade sends two messages.
-/

theorem wrapped_of_length {n : Nat} (hn : n = 2 ^ 63) :
    exists i x, ((new ⟨1⟩ 1).run (List.replicate n (.onTrade farTrade))).sent[i]? =
      some x ∧ x.message.sequence.toNat ≠ i + 1 := by
  have hzero : ({} : SideState).price ≠ ⟨7⟩ := by decide
  rcases run_farTrades hzero hzero 1 [] n with ⟨sent, hrun, hlength, -⟩
  have hlast : 2 ^ 64 - 1 < sent.length := by omega
  have hfeed := (settled_run ⟨1⟩ 1 (List.replicate n (.onTrade farTrade))).consistent
  have hsent : ((new ⟨1⟩ 1).run (List.replicate n (.onTrade farTrade))).sent = sent :=
    congrArg UdpFeedPublisher.sent hrun
  rw [hsent] at hfeed ⊢
  refine ⟨2 ^ 64 - 1, sent[2 ^ 64 - 1], List.getElem?_eq_getElem hlast, ?_⟩
  rw [hfeed.numbered _ _ (List.getElem?_eq_getElem hlast)]
  decide

/-- Half as many events as there are numbers can exhaust the numbers. -/
theorem sequence_numbers_wrap :
    exists events : List SinkEvent, events.length < 2 ^ 64 ∧
      exists i x, ((new ⟨1⟩ 1).run events).sent[i]? = some x ∧
        x.message.sequence.toNat ≠ i + 1 := by
  have hwrap : forall n, n = 2 ^ 63 -> exists events : List SinkEvent, events.length < 2 ^ 64 ∧
      exists i x, ((new ⟨1⟩ 1).run events).sent[i]? = some x ∧
        x.message.sequence.toNat ≠ i + 1 := by
    intro n hn
    refine ⟨List.replicate n (.onTrade farTrade), ?_, wrapped_of_length hn⟩
    rw [List.length_replicate]
    omega
  exact hwrap _ rfl

end UdpFeedPublisher
end Feed
end MiniExchange
