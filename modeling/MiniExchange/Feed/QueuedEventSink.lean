import MiniExchange.Feed.Publisher
import MiniExchange.LockFree.SpscRingBuffer

/-!
# Queued event sink

`adapters/udp/queued_event_sink.hpp`: the engine thread copies each event into a
ring and drops it when the ring is full; the feed thread pops the events and
replays them into the real sink until it is told to stop, and then drains the
ring once more.

A move is one access of one of the two threads to shared memory, or the store of
the stop flag, so a list of moves is an interleaving.  Loads return the present
value, as in a sequentially consistent execution.
-/

namespace MiniExchange
namespace Feed

open Foundation
open LockFree

/-!
## Events in the ring
-/

inductive FeedEventKind where
  | trade
  | orderAccepted
  | orderCancelled
deriving DecidableEq, Repr

/-- One of the three payloads; only the one that `kind` names has a meaning. -/
structure FeedEvent where
  kind : FeedEventKind := .trade
  trade : Trade := ⟨⟨0⟩, ⟨0⟩, ⟨0⟩, Price.zero, Quantity.zero, false⟩
  accepted : OrderAccepted := ⟨⟨0⟩, .buy, Quantity.zero, Price.zero⟩
  cancelled : OrderCancelled := ⟨⟨0⟩, Quantity.zero, .buy, Price.zero⟩
deriving DecidableEq, Repr

namespace FeedEvent

def fromTrade (trade : Trade) : FeedEvent where
  kind := .trade
  trade := trade

def fromAccepted (event : OrderAccepted) : FeedEvent where
  kind := .orderAccepted
  accepted := event

def fromCancelled (event : OrderCancelled) : FeedEvent where
  kind := .orderCancelled
  cancelled := event

def ofCall : SinkEvent -> FeedEvent
  | .onTrade trade => fromTrade trade
  | .onOrderAccepted event => fromAccepted event
  | .onOrderCancelled event => fromCancelled event

/-- The call that `apply` makes on its target. -/
def call (e : FeedEvent) : SinkEvent :=
  match e.kind with
  | .trade => .onTrade e.trade
  | .orderAccepted => .onOrderAccepted e.accepted
  | .orderCancelled => .onOrderCancelled e.cancelled

@[simp] theorem call_ofCall (event : SinkEvent) : (ofCall event).call = event := by
  cases event with
  | onOrderAccepted event => rfl
  | onTrade trade => rfl
  | onOrderCancelled event => rfl

end FeedEvent

/-!
## The two threads
-/

/-- Where the engine thread stands in `offer`. -/
inductive OfferPhase where
  /-- Between two events. -/
  | idle
  | pushing (event : SinkEvent)
  /-- The push has failed, the drop is not counted yet. -/
  | counting (event : SinkEvent)
deriving DecidableEq, Repr

/-- Where the feed thread stands in `run_feed_publisher`; `last` marks the final drain. -/
inductive FeedPhase where
  /-- Before a load of the stop flag. -/
  | testing
  | draining (last : Bool) (drained : Nat)
  | applying (last : Bool) (drained : Nat) (event : FeedEvent)
  | yielding
  | returned
deriving DecidableEq, Repr

/-- The sink, the sink behind it, both threads, and a record of what happened. -/
structure QueuedFeed (ρ : Type) where
  queue : RingState FeedEvent
  dropped : UInt64 := 0
  stop : Bool := false
  real : ρ
  /-- The events that the engine has still to emit. -/
  script : List SinkEvent
  engine : OfferPhase := .idle
  feed : FeedPhase := .testing
  /-- The offers so far, and whether they found room. -/
  offers : List (SinkEvent × Bool) := []
  /-- What has been replayed so far. -/
  replayed : List SinkEvent := []

inductive FeedMove where
  | engine
  /-- `left` is what moving an event out of its slot leaves there. -/
  | feed (left : FeedEvent)
  | stop
deriving DecidableEq, Repr

namespace QueuedFeed

variable {ρ : Type}

def new (capacity : UInt64) (storage : UInt64 -> FeedEvent) (events : List SinkEvent) (real : ρ) :
    QueuedFeed ρ where
  queue := RingState.new capacity storage
  real := real
  script := events

def engineStep (s : QueuedFeed ρ) : QueuedFeed ρ :=
  match s.engine with
  | .idle =>
      match s.script with
      | [] => s
      | event :: rest => { s with script := rest, engine := .pushing event }
  | .pushing event =>
      let queue := s.queue.producerStep (FeedEvent.ofCall event) s.queue.headValues.length
      match s.queue.returnedIn queue with
      | none => { s with queue := queue }
      | some (.pushed _) =>
          { s with
            queue := queue
            engine := .idle
            offers := s.offers ++ [(event, true)] }
      | some _ => { s with queue := queue, engine := .counting event }
  | .counting event =>
      { s with
        dropped := s.dropped + 1
        engine := .idle
        offers := s.offers ++ [(event, false)] }

def feedStep (handle : ρ -> SinkEvent -> ρ) (s : QueuedFeed ρ) (left : FeedEvent) :
    QueuedFeed ρ :=
  match s.feed with
  | .testing => { s with feed := .draining s.stop 0 }
  | .draining last drained =>
      let queue := s.queue.consumerStep left s.queue.tailValues.length
      match s.queue.returnedIn queue with
      | none => { s with queue := queue }
      | some (.popped event) =>
          { s with queue := queue, feed := .applying last drained event }
      | some _ =>
          { s with
            queue := queue
            feed :=
              if last then .returned
              else if drained = 0 then .yielding
              else .testing }
  | .applying last drained event =>
      { s with
        real := handle s.real event.call
        replayed := s.replayed ++ [event.call]
        feed := .draining last (drained + 1) }
  | .yielding => { s with feed := .testing }
  | .returned => s

def step (handle : ρ -> SinkEvent -> ρ) (s : QueuedFeed ρ) : FeedMove -> QueuedFeed ρ
  | .engine => s.engineStep
  | .feed left => s.feedStep handle left
  | .stop => { s with stop := true }

def run (handle : ρ -> SinkEvent -> ρ) (s : QueuedFeed ρ) (moves : List FeedMove) :
    QueuedFeed ρ :=
  Machine.run (step handle) s moves

def visits (handle : ρ -> SinkEvent -> ρ) (s : QueuedFeed ρ) (moves : List FeedMove) :
    List (QueuedFeed ρ × FeedMove) :=
  Machine.visits (step handle) s moves

def offered (s : QueuedFeed ρ) : List SinkEvent :=
  s.offers.map Prod.fst

def admitted (s : QueuedFeed ρ) : List SinkEvent :=
  (s.offers.filter fun offer => offer.2).map Prod.fst

def discarded (s : QueuedFeed ρ) : List SinkEvent :=
  (s.offers.filter fun offer => !offer.2).map Prod.fst

/-- `pending()`, the size of the ring. -/
def pending (s : QueuedFeed ρ) : UInt64 :=
  s.queue.ring.tail - s.queue.ring.head

def Finished (s : QueuedFeed ρ) : Prop :=
  s.script = [] ∧ s.engine = .idle

instance (s : QueuedFeed ρ) : Decidable s.Finished :=
  inferInstanceAs (Decidable (_ ∧ _))

/-- No event is on its way into the ring or from the ring to the real sink. -/
def Quiescent (s : QueuedFeed ρ) : Prop :=
  s.engine = .idle ∧
    forall last drained event, s.feed ≠ .applying last drained event

/-!
## What a step can do
-/

section Equations

variable {s : QueuedFeed ρ} {handle : ρ -> SinkEvent -> ρ} {queue : RingState FeedEvent}

variable {event : SinkEvent}

theorem engineStep_access (hengine : s.engine = .pushing event)
    (hqueue : s.queue.producerStep (FeedEvent.ofCall event) s.queue.headValues.length = queue)
    (hreturns : queue.returns = s.queue.returns) :
    s.engineStep = { s with queue := queue } := by
  unfold engineStep
  rw [hengine]
  dsimp only
  rw [hqueue, RingState.returnedIn_same hreturns, ← hengine]

theorem engineStep_full (hengine : s.engine = .pushing event)
    (hqueue : s.queue.producerStep (FeedEvent.ofCall event) s.queue.headValues.length = queue)
    (hreturns : queue.returns = s.queue.returns ++ [.pushFailed]) :
    s.engineStep = { s with queue := queue, engine := .counting event } := by
  unfold engineStep
  rw [hengine]
  dsimp only
  rw [hqueue, RingState.returnedIn_append hreturns]

theorem engineStep_push {item : FeedEvent} (hengine : s.engine = .pushing event)
    (hqueue : s.queue.producerStep (FeedEvent.ofCall event) s.queue.headValues.length = queue)
    (hreturns : queue.returns = s.queue.returns ++ [.pushed item]) :
    s.engineStep = { s with
      queue := queue
      engine := .idle
      offers := s.offers ++ [(event, true)] } := by
  unfold engineStep
  rw [hengine]
  dsimp only
  rw [hqueue, RingState.returnedIn_append hreturns]

variable {last : Bool} {drained : Nat} {left : FeedEvent}

theorem feedStep_access (hfeed : s.feed = .draining last drained)
    (hqueue : s.queue.consumerStep left s.queue.tailValues.length = queue)
    (hreturns : queue.returns = s.queue.returns) :
    s.feedStep handle left = { s with queue := queue } := by
  unfold feedStep
  rw [hfeed]
  dsimp only
  rw [hqueue, RingState.returnedIn_same hreturns, ← hfeed]

theorem feedStep_pop {event : FeedEvent} (hfeed : s.feed = .draining last drained)
    (hqueue : s.queue.consumerStep left s.queue.tailValues.length = queue)
    (hreturns : queue.returns = s.queue.returns ++ [.popped event]) :
    s.feedStep handle left =
      { s with queue := queue, feed := .applying last drained event } := by
  unfold feedStep
  rw [hfeed]
  dsimp only
  rw [hqueue, RingState.returnedIn_append hreturns]

theorem feedStep_empty (hfeed : s.feed = .draining last drained)
    (hqueue : s.queue.consumerStep left s.queue.tailValues.length = queue)
    (hreturns : queue.returns = s.queue.returns ++ [.popFailed]) :
    s.feedStep handle left = { s with
      queue := queue
      feed :=
        if last then .returned
        else if drained = 0 then .yielding
        else .testing } := by
  unfold feedStep
  rw [hfeed]
  dsimp only
  rw [hqueue, RingState.returnedIn_append hreturns]

end Equations

inductive EngineStep (s : QueuedFeed ρ) : QueuedFeed ρ -> Prop where
  | rest (hfinished : s.Finished) : EngineStep s s
  | emit {event : SinkEvent} {rest : List SinkEvent} (hengine : s.engine = .idle)
      (hscript : s.script = event :: rest) :
      EngineStep s { s with script := rest, engine := .pushing event }
  | access {event : SinkEvent} {queue : RingState FeedEvent}
      (hengine : s.engine = .pushing event)
      (hqueue : queue =
        s.queue.producerStep (FeedEvent.ofCall event) s.queue.headValues.length)
      (hreturns : queue.returns = s.queue.returns)
      (hitem : queue.producer.item? =
        some (s.queue.producer.item?.getD (FeedEvent.ofCall event))) :
      EngineStep s { s with queue := queue }
  | full {event : SinkEvent} {queue : RingState FeedEvent}
      (hengine : s.engine = .pushing event)
      (hqueue : queue =
        s.queue.producerStep (FeedEvent.ofCall event) s.queue.headValues.length)
      (hreturns : queue.returns = s.queue.returns ++ [.pushFailed])
      (hidle : queue.producer = .idle) :
      EngineStep s { s with queue := queue, engine := .counting event }
  | push {event : SinkEvent} {queue : RingState FeedEvent} {item : FeedEvent}
      (hengine : s.engine = .pushing event)
      (hqueue : queue =
        s.queue.producerStep (FeedEvent.ofCall event) s.queue.headValues.length)
      (hitem : s.queue.producer.item? = some item)
      (hreturns : queue.returns = s.queue.returns ++ [.pushed item])
      (hidle : queue.producer = .idle) :
      EngineStep s { s with
        queue := queue
        engine := .idle
        offers := s.offers ++ [(event, true)] }
  | count {event : SinkEvent} (hengine : s.engine = .counting event) :
      EngineStep s { s with
        dropped := s.dropped + 1
        engine := .idle
        offers := s.offers ++ [(event, false)] }

theorem engineStep_spec (s : QueuedFeed ρ) : EngineStep s s.engineStep := by
  cases hengine : s.engine with
  | idle =>
      unfold engineStep
      rw [hengine]
      cases hscript : s.script with
      | nil => exact .rest ⟨hscript, hengine⟩
      | cons event rest => exact .emit hengine hscript
  | pushing event =>
      rcases s.queue.producerStep_cases (FeedEvent.ofCall event) s.queue.headValues.length with
        ⟨hreturns, hitem⟩ | ⟨hreturns, hidle, -⟩ | ⟨item, hitem, hreturns, hidle⟩
      · rw [engineStep_access hengine rfl hreturns]
        exact .access hengine rfl hreturns hitem
      · rw [engineStep_full hengine rfl hreturns]
        exact .full hengine rfl hreturns hidle
      · rw [engineStep_push hengine rfl hreturns]
        exact .push hengine rfl hitem hreturns hidle
  | counting event =>
      unfold engineStep
      rw [hengine]
      exact .count hengine

inductive FeedStep (handle : ρ -> SinkEvent -> ρ) (s : QueuedFeed ρ) : QueuedFeed ρ -> Prop where
  | test (hfeed : s.feed = .testing) :
      FeedStep handle s { s with feed := .draining s.stop 0 }
  | access {last : Bool} {drained : Nat} {queue : RingState FeedEvent} {left : FeedEvent}
      (hfeed : s.feed = .draining last drained)
      (hqueue : queue = s.queue.consumerStep left s.queue.tailValues.length)
      (hreturns : queue.returns = s.queue.returns) :
      FeedStep handle s { s with queue := queue }
  | pop {last : Bool} {drained : Nat} {queue : RingState FeedEvent} {left event : FeedEvent}
      (hfeed : s.feed = .draining last drained)
      (hqueue : queue = s.queue.consumerStep left s.queue.tailValues.length)
      (hreturns : queue.returns = s.queue.returns ++ [.popped event]) :
      FeedStep handle s { s with queue := queue, feed := .applying last drained event }
  | empty {last : Bool} {drained : Nat} {queue : RingState FeedEvent} {left : FeedEvent}
      {head : UInt64} {next : FeedPhase} (hfeed : s.feed = .draining last drained)
      (hqueue : queue = s.queue.consumerStep left s.queue.tailValues.length)
      (hconsumer : s.queue.consumer = .headLoaded head)
      (hempty : s.queue.tailValues.getD (s.queue.loadTail s.queue.tailValues.length) 0 <= head)
      (hreturns : queue.returns = s.queue.returns ++ [.popFailed])
      (hnext : next = if last then .returned
        else if drained = 0 then .yielding
        else .testing) :
      FeedStep handle s { s with queue := queue, feed := next }
  | replay {last : Bool} {drained : Nat} {event : FeedEvent}
      (hfeed : s.feed = .applying last drained event) :
      FeedStep handle s { s with
        real := handle s.real event.call
        replayed := s.replayed ++ [event.call]
        feed := .draining last (drained + 1) }
  | yield (hfeed : s.feed = .yielding) :
      FeedStep handle s { s with feed := .testing }
  | rest (hfeed : s.feed = .returned) : FeedStep handle s s

theorem feedStep_spec (handle : ρ -> SinkEvent -> ρ) (s : QueuedFeed ρ) (left : FeedEvent) :
    FeedStep handle s (s.feedStep handle left) := by
  cases hfeed : s.feed with
  | draining last drained =>
      rcases s.queue.consumerStep_cases left s.queue.tailValues.length with
        hreturns | ⟨head, hconsumer, hempty, hreturns, -⟩ | ⟨event, hreturns⟩
      · rw [feedStep_access hfeed rfl hreturns]
        exact .access hfeed rfl hreturns
      · rw [feedStep_empty hfeed rfl hreturns]
        exact .empty hfeed rfl hconsumer hempty hreturns rfl
      · rw [feedStep_pop hfeed rfl hreturns]
        exact .pop hfeed rfl hreturns
  | testing =>
      unfold feedStep
      rw [hfeed]
      exact .test hfeed
  | applying last drained event =>
      unfold feedStep
      rw [hfeed]
      exact .replay hfeed
  | yielding =>
      unfold feedStep
      rw [hfeed]
      exact .yield hfeed
  | returned =>
      unfold feedStep
      rw [hfeed]
      exact .rest hfeed

end QueuedFeed

/-!
## The account of the events
-/

def OfferPhase.event? : OfferPhase -> Option SinkEvent
  | idle => none
  | pushing event => some event
  | counting event => some event

def FeedPhase.event? : FeedPhase -> Option SinkEvent
  | applying _ _ event => some event.call
  | _ => none

/-- Past the loop of `run_feed_publisher`. -/
def FeedPhase.Last : FeedPhase -> Prop
  | draining last _ => last = true
  | applying last _ _ => last = true
  | returned => True
  | _ => False

namespace QueuedFeed

variable {ρ : Type} {handle : ρ -> SinkEvent -> ρ} {events : List SinkEvent} {real : ρ}
  {s : QueuedFeed ρ} {k : Nat}

def Carries (s : QueuedFeed ρ) : OfferPhase -> Prop
  | .pushing event =>
      forall item, s.queue.producer.item? = some item -> item = FeedEvent.ofCall event
  | _ => s.queue.producer.item? = none

/-- Where every event is that the engine was to emit. -/
structure Inv (k : Nat) (handle : ρ -> SinkEvent -> ρ) (events : List SinkEvent) (real : ρ)
    (s : QueuedFeed ρ) : Prop where
  ring : s.queue.Inv k
  carried : s.Carries s.engine
  script : s.offered ++ (s.engine.event?.toList ++ s.script) = events
  pushed : s.queue.pushed = s.admitted.map FeedEvent.ofCall
  counted : s.dropped = UInt64.ofNat s.discarded.length
  popped : s.queue.popped.map FeedEvent.call = s.replayed ++ s.feed.event?.toList
  replay : s.real = Machine.run handle real s.replayed

theorem inv_new {capacity : UInt64} (hcapacity : capacity.toNat = 2 ^ k)
    (storage : UInt64 -> FeedEvent) (events : List SinkEvent) (real : ρ) :
    (new capacity storage events real).Inv k handle events real where
  ring := RingState.inv_new hcapacity storage
  carried := rfl
  script := rfl
  pushed := rfl
  counted := rfl
  popped := rfl
  replay := rfl

theorem Inv.pushed_lt (h : s.Inv k handle events real) (hbound : s.admitted.length < 2 ^ 64) :
    s.queue.pushed.length < 2 ^ 64 := by
  rw [h.pushed, List.length_map]
  exact hbound

theorem Inv.touch (h : s.Inv k handle events real) {queue : RingState FeedEvent}
    {rs : List (Return FeedEvent)} (hring : queue.Inv k)
    (hreturns : queue.returns = s.queue.returns ++ rs)
    (hpushed : rs.filterMap Return.pushed? = []) (hpopped : rs.filterMap Return.popped? = [])
    {engine : OfferPhase} {feed : FeedPhase} (hengine : engine.event? = s.engine.event?)
    (hfeed : feed.event? = s.feed.event?)
    (hcarried : Carries { s with queue := queue } engine) :
    Inv k handle events real { s with queue := queue, engine := engine, feed := feed } := by
  refine { h with ring := hring, carried := ?_, script := ?_, pushed := ?_, popped := ?_ }
  · cases engine <;> exact hcarried
  · show s.offered ++ (engine.event?.toList ++ s.script) = events
    rw [hengine, h.script]
  · refine (RingState.pushed_of_returns hreturns).trans ?_
    rw [hpushed, List.append_nil]
    exact h.pushed
  · show queue.popped.map FeedEvent.call = s.replayed ++ feed.event?.toList
    rw [RingState.popped_of_returns hreturns, hpopped, List.append_nil, hfeed, h.popped]

theorem Inv.engineStep (h : s.Inv k handle events real) (hbound : s.admitted.length < 2 ^ 64) :
    s.engineStep.Inv k handle events real := by
  have hscript := h.script
  have hcarried := h.carried
  have hring : forall item observed, (s.queue.producerStep item observed).Inv k :=
    fun item observed => (h.ring.step (h.pushed_lt hbound) (Access.producer item observed)).inv
  generalize hnext : s.engineStep = t
  have hspec := engineStep_spec s
  rw [hnext] at hspec
  cases hspec with
  | rest => exact h
  | @emit event rest hengine hevents =>
      rw [hengine] at hcarried
      rw [hengine, hevents] at hscript
      refine { h with carried := ?_, script := hscript }
      intro item hitem
      have hnone : s.queue.producer.item? = none := hcarried
      rw [hnone] at hitem
      cases hitem
  | @access event queue hengine hqueue hreturns hitem =>
      rw [hengine] at hcarried
      have hsame := hreturns.trans (List.append_nil _).symm
      refine h.touch (hqueue ▸ hring _ _) hsame rfl rfl rfl rfl ?_
      rw [hengine]
      intro item hnew
      have hitem' := hitem.symm.trans hnew
      cases hold : s.queue.producer.item? with
      | none =>
          rw [hold] at hitem'
          exact (Option.some.inj hitem').symm
      | some old =>
          rw [hold] at hitem'
          exact (Option.some.inj hitem').symm.trans (hcarried old hold)
  | @full event queue hengine hqueue hreturns hidle =>
      refine h.touch (hqueue ▸ hring _ _) hreturns rfl rfl ?_ rfl ?_
      · rw [hengine]
        rfl
      · exact congrArg ProducerPhase.item? hidle
  | @push event queue item hengine hqueue hitem hreturns hidle =>
      rw [hengine] at hcarried hscript
      refine { h with
        ring := hqueue ▸ hring _ _, carried := congrArg ProducerPhase.item? hidle,
        script := ?_, pushed := ?_, counted := ?_, popped := ?_ }
      · rw [← hscript]
        simp [offered, OfferPhase.event?]
      · refine (RingState.pushed_of_returns hreturns).trans ?_
        rw [h.pushed, hcarried item hitem]
        simp [admitted, Return.pushed?]
      · rw [h.counted]
        simp [discarded]
      · have hsame : queue.popped = s.queue.popped :=
          (RingState.popped_of_returns hreturns).trans (List.append_nil _)
        exact (congrArg (List.map FeedEvent.call) hsame).trans h.popped
  | @count event hengine =>
      rw [hengine] at hcarried hscript
      refine { h with carried := hcarried, script := ?_, pushed := ?_, counted := ?_ }
      · rw [← hscript]
        simp [offered, OfferPhase.event?]
      · rw [h.pushed]
        simp [admitted]
      · rw [h.counted]
        simp [discarded, UInt64.ofNat_add]

theorem Inv.feedStep (h : s.Inv k handle events real) (hbound : s.admitted.length < 2 ^ 64)
    (left : FeedEvent) : (s.feedStep handle left).Inv k handle events real := by
  have hpopped := h.popped
  have hring : forall left observed, (s.queue.consumerStep left observed).Inv k :=
    fun left observed => (h.ring.step (h.pushed_lt hbound) (Access.consumer left observed)).inv
  have hcarried : forall left observed,
      Carries { s with queue := s.queue.consumerStep left observed } s.engine := by
    intro left observed
    have hkept := h.carried
    unfold Carries at hkept ⊢
    rw [RingState.producer_consumerStep]
    exact hkept
  generalize hnext : s.feedStep handle left = t
  have hspec := feedStep_spec handle s left
  rw [hnext] at hspec
  cases hspec with
  | test hfeed =>
      rw [hfeed] at hpopped
      exact { h with popped := hpopped }
  | @access last drained queue left hfeed hqueue hreturns =>
      have hsame := hreturns.trans (List.append_nil _).symm
      exact h.touch (hqueue ▸ hring _ _) hsame rfl rfl rfl rfl (hqueue ▸ hcarried _ _)
  | @pop last drained queue left event hfeed hqueue hreturns =>
      rw [hfeed] at hpopped
      refine { h with
        ring := hqueue ▸ hring _ _, carried := hqueue ▸ hcarried _ _, pushed := ?_,
        popped := ?_ }
      · exact ((RingState.pushed_of_returns hreturns).trans (List.append_nil _)).trans h.pushed
      · show queue.popped.map FeedEvent.call = s.replayed ++ [event.call]
        have hone : queue.popped = s.queue.popped ++ [event] :=
          RingState.popped_of_returns hreturns
        rw [hone, List.map_append, hpopped]
        simp [FeedPhase.event?]
  | @empty last drained queue left head next hfeed hqueue hconsumer hempty hreturns hphase =>
      refine h.touch (hqueue ▸ hring _ _) hreturns rfl rfl rfl ?_ (hqueue ▸ hcarried _ _)
      rw [hfeed, hphase]
      split
      · rfl
      · split <;> rfl
  | @replay last drained event hfeed =>
      rw [hfeed] at hpopped
      refine { h with popped := ?_, replay := ?_ }
      · exact hpopped.trans (List.append_nil _).symm
      · rw [Machine.run_append, ← h.replay]
        rfl
  | yield hfeed =>
      rw [hfeed] at hpopped
      exact { h with popped := hpopped }
  | rest => exact h

theorem Inv.step (h : s.Inv k handle events real) (hbound : s.admitted.length < 2 ^ 64)
    (move : FeedMove) : (s.step handle move).Inv k handle events real := by
  cases move with
  | engine => exact h.engineStep hbound
  | feed left => exact h.feedStep hbound left
  | stop => exact { h with }

theorem EngineStep.offers {t : QueuedFeed ρ} (h : EngineStep s t) : s.offers <+: t.offers := by
  cases h with
  | rest => exact List.prefix_refl _
  | emit => exact List.prefix_refl _
  | access => exact List.prefix_refl _
  | full => exact List.prefix_refl _
  | push => exact List.prefix_append _ _
  | count => exact List.prefix_append _ _

theorem FeedStep.offers {t : QueuedFeed ρ} (h : FeedStep handle s t) : t.offers = s.offers := by
  cases h <;> rfl

theorem admitted_step_le (s : QueuedFeed ρ) (move : FeedMove) :
    s.admitted.length <= (s.step handle move).admitted.length := by
  have hoffers : s.offers <+: (s.step handle move).offers := by
    cases move with
    | engine => exact (engineStep_spec s).offers
    | feed left =>
        have hsame : (s.feedStep handle left).offers = s.offers :=
          (feedStep_spec handle s left).offers
        exact ⟨[], (List.append_nil _).trans hsame.symm⟩
    | stop => exact List.prefix_refl _
  unfold admitted
  rw [List.length_map, List.length_map]
  exact (hoffers.filter _).length_le

theorem inv_run (h : s.Inv k handle events real) (moves : List FeedMove)
    (hbound : (s.run handle moves).admitted.length < 2 ^ 64) :
    (s.run handle moves).Inv k handle events real := by
  refine Machine.run_invariant (P := fun t : QueuedFeed ρ =>
    t.admitted.length < 2 ^ 64 -> t.Inv k handle events real) ?_ (fun _ => h) moves hbound
  intro t move ht hnext
  have hbefore : t.admitted.length < 2 ^ 64 :=
    Nat.lt_of_le_of_lt (admitted_step_le t move) hnext
  exact (ht hbefore).step hbefore move

/-!
## The last drain
-/

theorem Inv.empty (h : s.Inv k handle events real) (hbound : s.admitted.length < 2 ^ 64)
    {head : UInt64} (hconsumer : s.queue.consumer = .headLoaded head)
    (hempty : s.queue.tailValues.getD (s.queue.loadTail s.queue.tailValues.length) 0 <= head) :
    s.queue.pushed.length <= s.queue.popped.length := by
  have hhead : head = s.queue.ring.head := by
    have hknows := h.ring.consumer
    rwa [hconsumer] at hknows
  rw [hhead] at hempty
  exact (h.ring.empty_fresh (h.pushed_lt hbound)).mp hempty

structure Closing (s : QueuedFeed ρ) : Prop where
  finished : s.stop = true -> s.Finished
  stopped : s.feed.Last -> s.stop = true
  drained : s.feed = .returned -> s.queue.pushed.length <= s.queue.popped.length

theorem Closing.engineStep (h : s.Closing) : s.engineStep.Closing := by
  cases hstop : s.stop with
  | true =>
      rcases h.finished hstop with ⟨hscript, hengine⟩
      have hsame : s.engineStep = s := by
        unfold QueuedFeed.engineStep
        rw [hengine, hscript]
      rw [hsame]
      exact h
  | false =>
      have hrunning : ¬ s.feed.Last := by
        intro hlast
        rw [h.stopped hlast] at hstop
        cases hstop
      have hkept : s.engineStep.stop = s.stop ∧ s.engineStep.feed = s.feed := by
        generalize hnext : s.engineStep = t
        have hspec := engineStep_spec s
        rw [hnext] at hspec
        cases hspec <;> exact ⟨rfl, rfl⟩
      refine ⟨?_, ?_, ?_⟩
      · intro htrue
        rw [hkept.left, hstop] at htrue
        cases htrue
      · rw [hkept.right]
        exact fun hlast => absurd hlast hrunning
      · rw [hkept.right]
        intro hreturned
        rw [hreturned] at hrunning
        exact absurd trivial hrunning

theorem Closing.feedStep (h : s.Closing) (hinv : s.Inv k handle events real)
    (hbound : s.admitted.length < 2 ^ 64) (left : FeedEvent) :
    (s.feedStep handle left).Closing := by
  have hstopped := h.stopped
  generalize hnext : s.feedStep handle left = t
  have hspec := feedStep_spec handle s left
  rw [hnext] at hspec
  cases hspec with
  | test hfeed => exact ⟨h.finished, fun hlast => hlast, fun hreturned => by cases hreturned⟩
  | @access last drained queue left hfeed hqueue hreturns =>
      refine ⟨h.finished, h.stopped, ?_⟩
      intro hreturned
      rw [hfeed] at hreturned
      cases hreturned
  | @pop last drained queue left event hfeed hqueue hreturns =>
      rw [hfeed] at hstopped
      exact ⟨h.finished, hstopped, fun hreturned => by cases hreturned⟩
  | @empty last drained queue left head next hfeed hqueue hconsumer hempty hreturns hphase =>
      rw [hfeed] at hstopped
      refine ⟨h.finished, ?_, ?_⟩
      · intro hlast
        refine hstopped ?_
        show last = true
        change next.Last at hlast
        rw [hphase] at hlast
        split at hlast
        · next htrue => exact htrue
        · split at hlast <;> exact absurd hlast (fun hfalse => hfalse)
      · intro _
        have hpushed : queue.pushed = s.queue.pushed :=
          (RingState.pushed_of_returns hreturns).trans (List.append_nil _)
        have hpopped : queue.popped = s.queue.popped :=
          (RingState.popped_of_returns hreturns).trans (List.append_nil _)
        show queue.pushed.length <= queue.popped.length
        rw [hpushed, hpopped]
        exact hinv.empty hbound hconsumer hempty
  | @replay last drained event hfeed =>
      rw [hfeed] at hstopped
      exact ⟨h.finished, hstopped, fun hreturned => by cases hreturned⟩
  | yield hfeed =>
      exact ⟨h.finished, fun hlast => absurd hlast id, fun hreturned => by cases hreturned⟩
  | rest => exact h

theorem closing_run {capacity : UInt64} (hcapacity : capacity.toNat = 2 ^ k)
    (storage : UInt64 -> FeedEvent) (moves : List FeedMove)
    (hfinished : forall v, v ∈ (new capacity storage events real).visits handle moves ->
      v.2 = .stop -> v.1.Finished)
    (hbound : ((new capacity storage events real).run handle moves).admitted.length < 2 ^ 64) :
    ((new capacity storage events real).run handle moves).Closing := by
  have hstart : (new capacity storage events real).Closing := by
    refine ⟨?_, fun hlast => absurd hlast id, ?_⟩
    · intro hstop
      cases hstop
    · intro hreturned
      cases hreturned
  have hstep : forall (t : QueuedFeed ρ) (move : FeedMove),
      (t.admitted.length < 2 ^ 64 -> t.Inv k handle events real ∧ t.Closing) ->
      (move = .stop -> t.Finished) -> (t.step handle move).admitted.length < 2 ^ 64 ->
        (t.step handle move).Inv k handle events real ∧ (t.step handle move).Closing := by
    intro t move ht hok hnext
    have hbefore : t.admitted.length < 2 ^ 64 :=
      Nat.lt_of_le_of_lt (admitted_step_le t move) hnext
    rcases ht hbefore with ⟨hinv, hclosing⟩
    refine ⟨hinv.step hbefore move, ?_⟩
    cases move with
    | engine => exact hclosing.engineStep
    | feed left => exact hclosing.feedStep hinv hbefore left
    | stop => exact ⟨fun _ => hok rfl, fun _ => rfl, hclosing.drained⟩
  exact (Machine.run_invariant_of hstep
    (fun _ => ⟨inv_new hcapacity storage events real, hstart⟩) hfinished hbound).right

/-!
## The queued feed and the direct feed
-/

theorem length_offered (s : QueuedFeed ρ) :
    s.offered.length = s.admitted.length + s.discarded.length := by
  unfold offered admitted discarded
  rw [List.length_map, List.length_map, List.length_map]
  exact List.length_eq_length_filter_add _

theorem admitted_eq_offered (h : s.discarded = []) : s.admitted = s.offered := by
  have hall : forall offer, offer ∈ s.offers -> offer.2 = true := by
    intro offer hoffer
    have hnone := List.filter_eq_nil_iff.mp (List.map_eq_nil_iff.mp h) offer hoffer
    simpa using hnone
  unfold admitted offered
  rw [List.filter_eq_self.mpr hall]

theorem Inv.toNat_pending (h : s.Inv k handle events real)
    (hbound : s.admitted.length < 2 ^ 64) :
    s.pending.toNat + s.queue.popped.length = s.admitted.length := by
  have hpushed := h.pushed_lt hbound
  have hle : s.queue.popped.length <= s.queue.pushed.length := h.ring.valid.popped_le
  have hlength : s.queue.pushed.length = s.admitted.length := by
    rw [h.pushed, List.length_map]
  unfold pending
  rw [h.ring.tail, h.ring.head, UInt64.toNat_sub_of_le, UInt64.toNat_ofNat_of_lt' hpushed,
    UInt64.toNat_ofNat_of_lt' (Nat.lt_of_le_of_lt hle hpushed)]
  · omega
  · rwa [UInt64.le_iff_toNat_le, UInt64.toNat_ofNat_of_lt' hpushed,
      UInt64.toNat_ofNat_of_lt' (Nat.lt_of_le_of_lt hle hpushed)]

theorem Inv.replayed_eq (h : s.Inv k handle events real) :
    s.replayed ++ s.feed.event?.toList = s.admitted.take s.queue.popped.length := by
  have hadmitted : s.queue.pushed.map FeedEvent.call = s.admitted := by
    rw [h.pushed, List.map_map]
    simp [Function.comp_def]
  rw [← h.popped, ← hadmitted, ← List.map_take, ← h.ring.fifo]

theorem Inv.quiescent (h : s.Inv k handle events real) (hadmitted : s.admitted.length < 2 ^ 64)
    (hdiscarded : s.discarded.length < 2 ^ 64) (hquiescent : s.Quiescent) :
    s.offered.length = s.replayed.length + s.pending.toNat + s.dropped.toNat := by
  have hnone : s.feed.event? = none := by
    cases hfeed : s.feed with
    | applying last drained event => exact absurd hfeed (hquiescent.right last drained event)
    | _ => rfl
  have hpopped := congrArg List.length h.popped
  rw [hnone, List.length_map, Option.toList_none, List.append_nil] at hpopped
  have hpending := h.toNat_pending hadmitted
  rw [length_offered, h.counted, UInt64.toNat_ofNat_of_lt' hdiscarded]
  omega

theorem Inv.returned (h : s.Inv k handle events real) (hclosing : s.Closing)
    (hadmitted : s.admitted.length < 2 ^ 64) (hdiscarded : s.discarded.length < 2 ^ 64)
    (hreturned : s.feed = .returned) :
    s.pending = 0 ∧ s.replayed = s.admitted ∧
      (s.dropped = 0 -> s.real = Machine.run handle real events) := by
  have hdrained := hclosing.drained hreturned
  have hlength : s.queue.pushed.length = s.admitted.length := by
    rw [h.pushed, List.length_map]
  have hreplayed : s.replayed = s.admitted := by
    have hall := h.replayed_eq
    rw [hreturned] at hall
    have htake : s.admitted.take s.queue.popped.length = s.admitted :=
      List.take_of_length_le (by omega)
    rw [htake] at hall
    exact (List.append_nil _).symm.trans hall
  refine ⟨?_, hreplayed, ?_⟩
  · have hpending := h.toNat_pending hadmitted
    refine UInt64.toNat_inj.mp ?_
    show s.pending.toNat = 0
    omega
  · intro hdropped
    have hnone : s.discarded = [] := by
      have hcount := congrArg UInt64.toNat h.counted
      rw [hdropped, UInt64.toNat_ofNat_of_lt' hdiscarded] at hcount
      exact List.length_eq_zero_iff.mp hcount.symm
    have hlast : s.feed.Last := by
      rw [hreturned]
      exact trivial
    rcases hclosing.finished (hclosing.stopped hlast) with ⟨hscript, hengine⟩
    have hoffered := h.script
    rw [hengine, hscript] at hoffered
    have hevents : s.offered = events := (List.append_nil _).symm.trans hoffered
    rw [h.replay, hreplayed, admitted_eq_offered hnone, hevents]

end QueuedFeed

open QueuedFeed

/--
In every interleaving in which fewer than 2^64 events find room and fewer than
2^64 are dropped: the events replayed are, in order, the first of those that
found room; when no event is on its way, every offered event has been replayed,
is queued, or is counted as dropped; and if the engine thread was done when the
stop flag was set, nothing is queued once `run_feed_publisher` has returned, and
without drops the publisher is as if it had been wired to the engine.
-/
theorem queued_feed_is_direct_feed {capacity : UInt64} {k : Nat}
    (hcapacity : capacity.toNat = 2 ^ k) (storage : UInt64 -> FeedEvent) (symbol : SymbolId)
    (snapshotInterval : UInt64) (events : List SinkEvent) (moves : List FeedMove)
    (start s : QueuedFeed UdpFeedPublisher)
    (hstart : start =
      QueuedFeed.new capacity storage events (UdpFeedPublisher.new symbol snapshotInterval))
    (hs : s = start.run UdpFeedPublisher.onEvent moves)
    (hadmitted : s.admitted.length < 2 ^ 64) (hdiscarded : s.discarded.length < 2 ^ 64) :
    s.replayed <+: s.admitted ∧
    (s.Quiescent ->
      s.offered.length = s.replayed.length + s.pending.toNat + s.dropped.toNat) ∧
    ((forall v, v ∈ start.visits UdpFeedPublisher.onEvent moves -> v.2 = .stop ->
        v.1.Finished) ->
      s.feed = .returned ->
        s.pending = 0 ∧ s.replayed = s.admitted ∧
          (s.dropped = 0 ->
            s.real = (UdpFeedPublisher.new symbol snapshotInterval).run events)) := by
  subst hstart hs
  have hinv := inv_run (inv_new hcapacity storage events
    (UdpFeedPublisher.new symbol snapshotInterval)) moves hadmitted
  refine ⟨?_, hinv.quiescent hadmitted hdiscarded, ?_⟩
  · exact (List.prefix_append _ _).trans (hinv.replayed_eq ▸ List.take_prefix _ _)
  · intro hfinished hreturned
    have hclosing := closing_run hcapacity storage moves hfinished hadmitted
    exact hinv.returned hclosing hadmitted hdiscarded hreturned

namespace OneBid

def bid : SinkEvent :=
  .onOrderAccepted { id := ⟨1⟩, side := .buy, quantity := ⟨5⟩, price := ⟨100⟩ }

def publisher : UdpFeedPublisher :=
  UdpFeedPublisher.new ⟨1⟩ 100

def lastDrain : List FeedMove :=
  List.replicate 5 .engine ++ .stop :: List.replicate 8 (.feed {})

def start : QueuedFeed UdpFeedPublisher :=
  QueuedFeed.new 2 (fun _ => {}) [bid] publisher

theorem queued_feed_lastDrain :
    (start.run UdpFeedPublisher.onEvent lastDrain).feed = .returned ∧
      (start.run UdpFeedPublisher.onEvent lastDrain).pending = 0 ∧
      (start.run UdpFeedPublisher.onEvent lastDrain).real = publisher.run [bid] := by
  have hcapacity : (2 : UInt64).toNat = 2 ^ 1 := rfl
  have hreturned : (start.run UdpFeedPublisher.onEvent lastDrain).feed = .returned := by
    decide +kernel
  have hfinished : forall v, v ∈ start.visits UdpFeedPublisher.onEvent lastDrain ->
      v.2 = .stop -> v.1.Finished := by
    decide +kernel
  rcases queued_feed_is_direct_feed hcapacity (fun _ => {}) ⟨1⟩ 100 [bid] lastDrain start _ rfl rfl
    (by decide +kernel) (by decide +kernel) with ⟨-, -, hlast⟩
  rcases hlast hfinished hreturned with ⟨hpending, -, hdirect⟩
  exact ⟨hreturned, hpending, hdirect (by decide +kernel)⟩

end OneBid

/-!
## Index wraparound

`try_push` compares `tail_ - head_` with the capacity, which survives a wrap of
`tail_`; `try_pop` compares the indices themselves.  Once `tail_` has wrapped and
`head_` has not, no pop finds an event, and the last drain leaves it in the ring.
-/

namespace QueuedFeed

variable {ρ : Type} {s : QueuedFeed ρ}

theorem offer_run (handle : ρ -> SinkEvent -> ρ) {event : SinkEvent} {rest : List SinkEvent}
    (hengine : s.engine = .idle) (hscript : s.script = event :: rest)
    (hproducer : s.queue.producer = .idle)
    (hroom : ¬ s.queue.ring.tail -
      s.queue.headValues.getD (s.queue.loadHead s.queue.headValues.length) 0 >=
        s.queue.ring.capacity) :
    exists queue, s.run handle (List.replicate 5 .engine) = { s with
        script := rest
        offers := s.offers ++ [(event, true)]
        queue := queue } ∧
      queue.consumer = s.queue.consumer ∧
      queue.returns = s.queue.returns ++ [.pushed (FeedEvent.ofCall event)] ∧
      queue.ring.head = s.queue.ring.head ∧ queue.ring.tail = s.queue.ring.tail + 1 ∧
      queue.tailValues = s.queue.tailValues ++ [s.queue.ring.tail + 1] ∧
      queue.seenTail = s.queue.seenTail := by
  let item := FeedEvent.ofCall event
  let tail := s.queue.ring.tail
  let loaded : RingState FeedEvent :=
    { s.queue with producer := .tailLoaded item tail }
  let writing : RingState FeedEvent :=
    { s.queue with
      seenHead := s.queue.loadHead s.queue.headValues.length
      producer := .writing item tail }
  let storing : RingState FeedEvent := writing.producerStep item s.queue.headValues.length
  let stored : RingState FeedEvent := storing.producerStep item s.queue.headValues.length
  have hloaded : s.queue.producerStep item s.queue.headValues.length = loaded := by
    unfold RingState.producerStep
    rw [hproducer]
  have hwriting : loaded.producerStep item s.queue.headValues.length = writing :=
    if_neg hroom
  let pushing (queue : RingState FeedEvent) : QueuedFeed ρ :=
    { s with script := rest, engine := .pushing event, queue := queue }
  have h1 : s.engineStep = pushing s.queue := by
    unfold engineStep
    rw [hengine, hscript]
  have h2 : (pushing s.queue).engineStep = pushing loaded :=
    engineStep_access rfl hloaded rfl
  have h3 : (pushing loaded).engineStep = pushing writing :=
    engineStep_access rfl hwriting rfl
  have h4 : (pushing writing).engineStep = pushing storing :=
    engineStep_access rfl rfl rfl
  have h5 : (pushing storing).engineStep = { s with
      script := rest
      engine := .idle
      offers := s.offers ++ [(event, true)]
      queue := stored } :=
    engineStep_push rfl rfl rfl
  refine ⟨stored, ?_, rfl, rfl, rfl, rfl, rfl, rfl⟩
  show s.engineStep.engineStep.engineStep.engineStep.engineStep = _
  rw [h1, h2, h3, h4, h5, ← hengine]

theorem replay_run (handle : ρ -> SinkEvent -> ρ) {last : Bool} {drained : Nat}
    (hfeed : s.feed = .draining last drained)
    (hconsumer : s.queue.consumer = .idle)
    (hmore : ¬ s.queue.ring.head >=
      s.queue.tailValues.getD (s.queue.loadTail s.queue.tailValues.length) 0) (left : FeedEvent) :
    exists queue event, s.run handle (List.replicate 5 (.feed left)) = { s with
        queue := queue
        real := handle s.real event.call
        replayed := s.replayed ++ [event.call]
        feed := .draining last (drained + 1) } ∧
      queue.consumer = .idle ∧
      queue.returns = s.queue.returns ++ [.popped event] := by
  let head := s.queue.ring.head
  let loaded : RingState FeedEvent :=
    { s.queue with consumer := .headLoaded head }
  let reading : RingState FeedEvent :=
    { s.queue with
      seenTail := s.queue.loadTail s.queue.tailValues.length
      consumer := .reading head }
  let storing : RingState FeedEvent := reading.consumerStep left s.queue.tailValues.length
  let stored : RingState FeedEvent := storing.consumerStep left s.queue.tailValues.length
  let event : FeedEvent := s.queue.ring.storage (s.queue.ring.slot head)
  have hloaded : s.queue.consumerStep left s.queue.tailValues.length = loaded := by
    unfold RingState.consumerStep
    rw [hconsumer]
  have hreading : loaded.consumerStep left s.queue.tailValues.length = reading :=
    if_neg hmore
  have h1 : s.feedStep handle left = { s with queue := loaded } :=
    feedStep_access hfeed hloaded rfl
  have h2 : ({ s with queue := loaded } : QueuedFeed ρ).feedStep handle left =
      { s with queue := reading } :=
    feedStep_access hfeed hreading rfl
  have h3 : ({ s with queue := reading } : QueuedFeed ρ).feedStep handle left =
      { s with queue := storing } :=
    feedStep_access hfeed rfl rfl
  have h4 : ({ s with queue := storing } : QueuedFeed ρ).feedStep handle left =
      { s with queue := stored, feed := .applying last drained event } :=
    feedStep_pop hfeed rfl rfl
  have h5 : ({ s with queue := stored, feed := .applying last drained event } :
      QueuedFeed ρ).feedStep handle left = { s with
        queue := stored
        real := handle s.real event.call
        replayed := s.replayed ++ [event.call]
        feed := .draining last (drained + 1) } := rfl
  refine ⟨stored, event, ?_, rfl, rfl⟩
  show ((((s.feedStep handle left).feedStep handle left).feedStep handle left).feedStep handle
    left).feedStep handle left = _
  rw [h1, h2, h3, h4, h5]

theorem empty_run (handle : ρ -> SinkEvent -> ρ) {last : Bool} {drained : Nat}
    (hfeed : s.feed = .draining last drained)
    (hconsumer : s.queue.consumer = .idle)
    (hempty : s.queue.ring.head >=
      s.queue.tailValues.getD (s.queue.loadTail s.queue.tailValues.length) 0) (left : FeedEvent) :
    exists queue, s.run handle (List.replicate 2 (.feed left)) = { s with
        queue := queue
        feed :=
          if last then .returned
          else if drained = 0 then .yielding
          else .testing } ∧
      queue.consumer = .idle ∧ queue.ring = s.queue.ring ∧
      queue.tailValues = s.queue.tailValues ∧
      queue.seenTail = s.queue.loadTail s.queue.tailValues.length := by
  let loaded : RingState FeedEvent :=
    { s.queue with consumer := .headLoaded s.queue.ring.head }
  let failed : RingState FeedEvent :=
    { s.queue with
      seenTail := s.queue.loadTail s.queue.tailValues.length
      consumer := .idle
      returns := s.queue.returns ++ [.popFailed] }
  have hloaded : s.queue.consumerStep left s.queue.tailValues.length = loaded := by
    unfold RingState.consumerStep
    rw [hconsumer]
  have hfailed : loaded.consumerStep left s.queue.tailValues.length = failed :=
    if_pos hempty
  have h1 : s.feedStep handle left = { s with queue := loaded } :=
    feedStep_access hfeed hloaded rfl
  have h2 : ({ s with queue := loaded } : QueuedFeed ρ).feedStep handle left = _ :=
    feedStep_empty hfeed hfailed rfl
  refine ⟨failed, ?_, rfl, rfl, rfl, rfl⟩
  show (s.feedStep handle left).feedStep handle left = _
  rw [h1, h2]

end QueuedFeed

namespace LappedRing

open OneBid
open UdpFeedPublisher (onEvent)

def start (n : Nat) : QueuedFeed UdpFeedPublisher :=
  QueuedFeed.new 1 (fun _ => {}) (List.replicate n bid) publisher

def lap : List FeedMove :=
  List.replicate 5 .engine ++ List.replicate 5 (.feed {})

/-- `p` events have been pushed and `n` replayed, and `m` are still to come. -/
structure Lapped (events : List SinkEvent) (p n m : Nat) (s : QueuedFeed UdpFeedPublisher) :
    Prop where
  inv : s.Inv 0 onEvent events publisher
  engine : s.engine = .idle
  feed : s.feed = .draining false n
  consumer : s.queue.consumer = .idle
  script : s.script = List.replicate m bid
  offers : s.offers = List.replicate p (bid, true)
  popped : s.queue.popped.length = n

variable {events : List SinkEvent} {p n m : Nat} {s : QueuedFeed UdpFeedPublisher}

theorem admitted_replicate (h : s.offers = List.replicate p (bid, true)) :
    s.admitted.length = p := by
  unfold admitted
  rw [h]
  simp

theorem Lapped.pushed (h : Lapped events p n m s) : s.queue.pushed.length = p := by
  rw [h.inv.pushed, List.length_map, admitted_replicate h.offers]

theorem Lapped.pushes (h : Lapped events n n (m + 1) s) (hn : n < 2 ^ 64) :
    exists queue, s.run onEvent (List.replicate 5 .engine) = { s with
        script := List.replicate m bid
        offers := s.offers ++ [(bid, true)]
        queue := queue } ∧
      queue.consumer = s.queue.consumer ∧
      queue.returns = s.queue.returns ++ [.pushed (FeedEvent.ofCall bid)] ∧
      queue.ring.head = s.queue.ring.head ∧ queue.ring.tail = s.queue.ring.tail + 1 ∧
      queue.tailValues = s.queue.tailValues ++ [s.queue.ring.tail + 1] ∧
      queue.seenTail = s.queue.seenTail := by
  have hproducer : s.queue.producer = .idle := by
    have hnone : s.queue.producer.item? = none := by
      have hcarried := h.inv.carried
      rw [h.engine] at hcarried
      exact hcarried
    cases hproducer : s.queue.producer with
    | idle => rfl
    | _ =>
        rw [hproducer] at hnone
        cases hnone
  refine offer_run onEvent h.engine h.script hproducer ?_
  rw [h.inv.ring.full_fresh (h.pushed ▸ hn), h.pushed, h.popped]
  omega

theorem Lapped.offer (h : Lapped events n n (m + 1) s) (hn : n + 1 < 2 ^ 64) :
    Lapped events (n + 1) n m
      (s.run onEvent (List.replicate 5 .engine)) := by
  rcases h.pushes (Nat.lt_of_succ_lt hn) with ⟨queue, hrun, hconsumer, hreturns, -⟩
  have hoffers : s.offers ++ [(bid, true)] = List.replicate (n + 1) (bid, true) := by
    rw [h.offers, List.replicate_succ']
  have hinv := inv_run h.inv (List.replicate 5 .engine) (by
    rw [hrun, admitted_replicate hoffers]
    exact hn)
  have hpopped : queue.popped = s.queue.popped :=
    (RingState.popped_of_returns hreturns).trans (List.append_nil _)
  rw [hrun] at hinv ⊢
  exact ⟨hinv, h.engine, h.feed, hconsumer.trans h.consumer, rfl, hoffers,
    (congrArg List.length hpopped).trans h.popped⟩

theorem Lapped.replay (h : Lapped events (n + 1) n m s) (hn : n + 1 < 2 ^ 64) :
    Lapped events (n + 1) (n + 1) m
      (s.run onEvent (List.replicate 5 (.feed {}))) := by
  have hmore : ¬ s.queue.ring.head >=
      s.queue.tailValues.getD (s.queue.loadTail s.queue.tailValues.length) 0 := by
    rw [h.inv.ring.empty_fresh (h.pushed ▸ hn), h.pushed, h.popped]
    omega
  rcases replay_run onEvent h.feed h.consumer hmore {} with
    ⟨queue, event, hrun, hconsumer, hreturns⟩
  have hinv := inv_run h.inv (List.replicate 5 (.feed {})) (by
    rw [hrun]
    exact (admitted_replicate h.offers).trans_lt hn)
  have hpopped : queue.popped = s.queue.popped ++ [event] := RingState.popped_of_returns hreturns
  rw [hrun] at hinv ⊢
  refine ⟨hinv, h.engine, rfl, hconsumer, h.script, h.offers, ?_⟩
  show queue.popped.length = n + 1
  rw [hpopped, List.length_append, h.popped]
  rfl

theorem Lapped.lap (h : Lapped events n n (m + 1) s) (hn : n + 1 < 2 ^ 64) :
    Lapped events (n + 1) (n + 1) m (s.run onEvent lap) := by
  have hrun : s.run onEvent LappedRing.lap =
      (s.run onEvent (List.replicate 5 .engine)).run
        onEvent (List.replicate 5 (.feed {})) :=
    Machine.run_append _ _ _ _
  rw [hrun]
  exact (h.offer hn).replay hn

/-- The feed thread enters its first drain, and `n` laps follow. -/
def laps (n : Nat) : List FeedMove :=
  .feed {} :: (List.replicate n lap).flatten

theorem Lapped.laps (h : Lapped events p p (m + n) s) (hn : p + n < 2 ^ 64) :
    Lapped events (p + n) (p + n) m
      (s.run onEvent (List.replicate n LappedRing.lap).flatten) := by
  induction n generalizing p s with
  | zero => exact h
  | succ n ih =>
      have hrun : s.run onEvent
            (List.replicate (n + 1) LappedRing.lap).flatten =
          (s.run onEvent LappedRing.lap).run onEvent
            (List.replicate n LappedRing.lap).flatten :=
        Machine.run_append _ _ _ _
      have hrest := ih (h.lap (by omega)) (by omega)
      rw [hrun]
      rwa [show p + 1 + n = p + (n + 1) by omega] at hrest

theorem lapped_laps (hn : n < 2 ^ 64) :
    Lapped (List.replicate (n + 1) bid) n n 1
      ((start (n + 1)).run onEvent (laps n)) := by
  have hcapacity : (1 : UInt64).toNat = 2 ^ 0 := rfl
  have hinv : (start (n + 1)).Inv 0 onEvent (List.replicate (n + 1) bid)
      publisher := inv_new hcapacity _ _ _
  have hfirst : Lapped (List.replicate (n + 1) bid) 0 0 (1 + n)
      ((start (n + 1)).feedStep onEvent {}) := by
    refine ⟨hinv.feedStep (Nat.two_pow_pos 64) {}, rfl, rfl, rfl, ?_, rfl, rfl⟩
    rw [Nat.add_comm]
    rfl
  have hlaps := hfirst.laps (by omega)
  rwa [Nat.zero_add] at hlaps

/-- The consumer is idle and `tail_` has wrapped. -/
structure Wrapped (queue : RingState FeedEvent) : Prop where
  consumer : queue.consumer = .idle
  values : exists values, queue.tailValues = values ++ [0] ∧ queue.seenTail <= values.length

theorem Wrapped.drain (h : Wrapped s.queue) {last : Bool} {drained : Nat}
    (hfeed : s.feed = .draining last drained) :
    exists queue, s.run onEvent (List.replicate 2 (.feed {})) = { s with
        queue := queue
        feed :=
          if last then .returned
          else if drained = 0 then .yielding
          else .testing } ∧
      Wrapped queue ∧ queue.ring = s.queue.ring := by
  rcases h.values with ⟨values, hvalues, hseen⟩
  have hload : s.queue.loadTail s.queue.tailValues.length = values.length := by
    unfold RingState.loadTail StaleQueue.observe
    rw [hvalues, List.length_append, List.length_singleton]
    omega
  have hzero : s.queue.tailValues.getD (s.queue.loadTail s.queue.tailValues.length) 0 = 0 := by
    rw [hload, hvalues]
    simp
  have hempty : s.queue.ring.head >=
      s.queue.tailValues.getD (s.queue.loadTail s.queue.tailValues.length) 0 := by
    rw [hzero]
    exact UInt64.zero_le
  rcases empty_run onEvent hfeed h.consumer hempty {} with
    ⟨queue, hrun, hconsumer, hring, htail, hseen'⟩
  refine ⟨queue, hrun, ⟨hconsumer, values, htail.trans hvalues, ?_⟩, hring⟩
  rw [hseen', hload]

def stopping : List FeedMove :=
  .stop :: (List.replicate 2 (.feed {}) ++
    .feed {} :: List.replicate 2 (.feed {}))

theorem Wrapped.stopping (h : Wrapped s.queue) {drained : Nat}
    (hfeed : s.feed = .draining false drained) (hdrained : drained ≠ 0) :
    exists queue, s.run onEvent LappedRing.stopping =
        { s with queue := queue, stop := true, feed := .returned } ∧
      queue.ring = s.queue.ring := by
  have hstart : Wrapped ({ s with stop := true } : QueuedFeed UdpFeedPublisher).queue := h
  rcases hstart.drain hfeed with ⟨first, hfirst, hwrapped, hring⟩
  rw [if_neg Bool.false_ne_true, if_neg hdrained] at hfirst
  have hnext : Wrapped ({ s with
      queue := first, stop := true, feed := .draining true 0 } :
        QueuedFeed UdpFeedPublisher).queue := hwrapped
  rcases hnext.drain rfl with ⟨second, hsecond, -, hring'⟩
  refine ⟨second, ?_, hring'.trans hring⟩
  have hrun : s.run onEvent LappedRing.stopping =
      ((({ s with stop := true } : QueuedFeed UdpFeedPublisher).run onEvent
        (List.replicate 2 (.feed {}))).feedStep onEvent {}).run
          onEvent (List.replicate 2 (.feed {})) :=
    Machine.run_append _ _ _ _
  rw [hrun, hfirst]
  exact hsecond

/-- The push that wraps `tail_` leaves an event that no pop finds. -/
theorem stranded_of_wrap (h : Lapped events n n 1 s) (hn : n + 1 = 2 ^ 64)
    {t : QueuedFeed UdpFeedPublisher}
    (ht : t = s.run onEvent (List.replicate 5 .engine)) :
    t.Finished ∧ (t.run onEvent stopping).feed = .returned ∧
      (t.run onEvent stopping).dropped = 0 ∧
      (t.run onEvent stopping).pending = 1 := by
  rcases h.pushes (by omega) with
    ⟨queue, hrun, hconsumer, hreturns, hhead, htail, hvalues, hseen⟩
  have hlast : s.queue.ring.tail = UInt64.ofNat n := by
    rw [h.inv.ring.tail, h.pushed]
  have hfirst : s.queue.ring.head = UInt64.ofNat n := by
    rw [h.inv.ring.head, h.popped]
  have hwrapped : s.queue.ring.tail + 1 = 0 := by
    rw [hlast, show n = 2 ^ 64 - 1 by omega]
    rfl
  rw [hwrapped] at htail hvalues
  have hstart : Wrapped queue := by
    refine ⟨hconsumer.trans h.consumer, s.queue.tailValues, hvalues, ?_⟩
    have hle : s.queue.seenTail <= s.queue.pushed.length := h.inv.ring.valid.seenPushed_le
    rw [hseen, h.inv.ring.tailValues, List.length_map, List.length_range]
    omega
  have hqueue : t.queue = queue := by rw [ht, hrun]
  have hfeed : t.feed = .draining false n := by
    rw [ht, hrun]
    exact h.feed
  have hdropped : t.dropped = 0 := by
    rw [ht, hrun]
    show s.dropped = 0
    rw [h.inv.counted]
    unfold discarded
    rw [h.offers]
    simp
  rcases (hqueue ▸ hstart : Wrapped t.queue).stopping hfeed (by omega) with
    ⟨left, hstopped, hring⟩
  rw [hstopped]
  refine ⟨?_, rfl, hdropped, ?_⟩
  · rw [ht, hrun]
    exact ⟨rfl, h.engine⟩
  · show left.ring.tail - left.ring.head = 1
    rw [hring, hqueue, htail, hhead, hfirst, show n = 2 ^ 64 - 1 by omega]
    rfl

theorem finished_of_split {start : QueuedFeed UdpFeedPublisher} {before after : List FeedMove}
    (hbefore : .stop ∉ before) (hafter : .stop ∉ after)
    (hfinished : (start.run onEvent before).Finished) :
    forall v, v ∈ start.visits onEvent (before ++ .stop :: after) ->
      v.2 = .stop -> v.1.Finished := by
  intro v hv hstop
  unfold visits at hv
  rw [Machine.visits_append] at hv
  rcases List.mem_append.mp hv with hfirst | hrest
  · exact absurd (hstop ▸ Machine.mem_of_mem_visits _ hfirst) hbefore
  · rcases List.mem_cons.mp hrest with rfl | hlast
    · exact hfinished
    · exact absurd (hstop ▸ Machine.mem_of_mem_visits _ hlast) hafter

theorem stranded (hn : n + 1 = 2 ^ 64) :
    exists moves : List FeedMove,
      (forall v, v ∈ (start (2 ^ 64)).visits onEvent moves ->
        v.2 = .stop -> v.1.Finished) ∧
      ((start (2 ^ 64)).run onEvent moves).feed = .returned ∧
      ((start (2 ^ 64)).run onEvent moves).dropped = 0 ∧
      ((start (2 ^ 64)).run onEvent moves).pending = 1 := by
  have hlapped := lapped_laps (n := n) (by omega)
  rcases stranded_of_wrap hlapped hn rfl with ⟨hfinished, hstranded⟩
  rw [← hn]
  have hbefore : (start (n + 1)).run onEvent
        (laps n ++ List.replicate 5 .engine) =
      ((start (n + 1)).run onEvent (laps n)).run onEvent
        (List.replicate 5 .engine) :=
    Machine.run_append _ _ _ _
  refine ⟨(laps n ++ List.replicate 5 .engine) ++ stopping, ?_, ?_⟩
  · refine finished_of_split ?_ ?_ (hbefore ▸ hfinished)
    · simp [laps, LappedRing.lap]
    · simp
  · have hrun : (start (n + 1)).run onEvent
          ((laps n ++ List.replicate 5 .engine) ++ stopping) =
        ((start (n + 1)).run onEvent
          (laps n ++ List.replicate 5 .engine)).run onEvent stopping :=
      Machine.run_append _ _ _ _
    rw [hrun, hbefore]
    exact hstranded

theorem event_left_in_wrapped_ring :
    exists moves : List FeedMove,
      (forall v, v ∈ (start (2 ^ 64)).visits UdpFeedPublisher.onEvent moves ->
        v.2 = .stop -> v.1.Finished) ∧
      ((start (2 ^ 64)).run UdpFeedPublisher.onEvent moves).feed = .returned ∧
      ((start (2 ^ 64)).run UdpFeedPublisher.onEvent moves).dropped = 0 ∧
      ((start (2 ^ 64)).run UdpFeedPublisher.onEvent moves).pending = 1 :=
  stranded (n := 2 ^ 64 - 1) rfl

end LappedRing

end Feed
end MiniExchange
