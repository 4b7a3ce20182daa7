import MiniExchange.Foundation.Machine
import MiniExchange.Foundation.StaleQueue

/-!
# Single-producer single-consumer ring buffer

`lockfree_queue/spsc_ring_buffer.hpp`, one memory access at a time.  A move is a
load, a slot access or an index store of one of the two threads, so a list of
moves is an interleaving.  A load of the other side's index returns some value
that this index has held since the value that was loaded before.
-/

namespace MiniExchange
namespace LockFree

open Foundation

structure SpscRingBuffer (α : Type) where
  capacity : UInt64
  head : UInt64
  tail : UInt64
  storage : UInt64 -> α

namespace SpscRingBuffer

variable {α : Type}

def new (capacity : UInt64) (storage : UInt64 -> α) : SpscRingBuffer α where
  capacity := capacity
  head := 0
  tail := 0
  storage := storage

/-- The slot of an index, `index & mask_`. -/
def slot (r : SpscRingBuffer α) (index : UInt64) : UInt64 :=
  index &&& (r.capacity - 1)

end SpscRingBuffer

/-- Where the producer stands in `try_push`. -/
inductive ProducerPhase (α : Type) where
  /-- Not in a call. -/
  | idle
  | tailLoaded (item : α) (tail : UInt64)
  /-- The buffer was found not full. -/
  | writing (item : α) (tail : UInt64)
  /-- The slot is written, the index is not stored yet. -/
  | storing (item : α) (tail : UInt64)

/-- The item that a call of `try_push` carries. -/
def ProducerPhase.item? {α : Type} : ProducerPhase α -> Option α
  | idle => none
  | tailLoaded item _ => some item
  | writing item _ => some item
  | storing item _ => some item

/-- Where the consumer stands in `try_pop`. -/
inductive ConsumerPhase (α : Type) where
  | idle
  | headLoaded (head : UInt64)
  /-- The buffer was found not empty. -/
  | reading (head : UInt64)
  /-- The slot is read, the index is not stored yet. -/
  | storing (item : α) (head : UInt64)

inductive Return (α : Type) where
  | pushed (item : α)
  | pushFailed
  | popped (item : α)
  | popFailed

namespace Return

variable {α : Type}

def pushed? : Return α -> Option α
  | pushed item => some item
  | _ => none

def popped? : Return α -> Option α
  | popped item => some item
  | _ => none

end Return

structure RingState (α : Type) where
  ring : SpscRingBuffer α
  producer : ProducerPhase α := .idle
  consumer : ConsumerPhase α := .idle
  /-- The values that the indices have held, the present one last. -/
  headValues : List UInt64 := [0]
  tailValues : List UInt64 := [0]
  /-- Which of them the other side has loaded last. -/
  seenHead : Nat := 0
  seenTail : Nat := 0
  /-- The returns of all calls so far. -/
  returns : List (Return α) := []

/--
One access of one thread.  `item` is what the next `try_push` is called with,
`left` what moving an item out of its slot leaves there, and `observed` selects
the value that a load of the other side's index returns.
-/
inductive Access (α : Type) where
  | producer (item : α) (observed : Nat)
  | consumer (left : α) (observed : Nat)

namespace RingState

variable {α : Type}

def new (capacity : UInt64) (storage : UInt64 -> α) : RingState α where
  ring := SpscRingBuffer.new capacity storage

def pushed (s : RingState α) : List α :=
  s.returns.filterMap Return.pushed?

def popped (s : RingState α) : List α :=
  s.returns.filterMap Return.popped?

def returnedIn (s t : RingState α) : Option (Return α) :=
  (t.returns.drop s.returns.length).head?

/-- Load `head_` as the producer; the position of the value loaded. -/
def loadHead (s : RingState α) (observed : Nat) : Nat :=
  StaleQueue.observe s.seenHead (s.headValues.length - 1) observed

/-- Load `tail_` as the consumer. -/
def loadTail (s : RingState α) (observed : Nat) : Nat :=
  StaleQueue.observe s.seenTail (s.tailValues.length - 1) observed

/-- The next access of `try_push`. -/
def producerStep (s : RingState α) (item : α) (observed : Nat) : RingState α :=
  match s.producer with
  | .idle =>
      { s with producer := .tailLoaded item s.ring.tail }
  | .tailLoaded item tail =>
      let head := s.headValues.getD (s.loadHead observed) 0
      if tail - head >= s.ring.capacity then
        { s with
          seenHead := s.loadHead observed
          producer := .idle
          returns := s.returns ++ [.pushFailed] }
      else
        { s with
          seenHead := s.loadHead observed
          producer := .writing item tail }
  | .writing item tail =>
      { s with
        ring := { s.ring with
          storage := Function.update s.ring.storage (s.ring.slot tail) item }
        producer := .storing item tail }
  | .storing item tail =>
      { s with
        ring := { s.ring with tail := tail + 1 }
        tailValues := s.tailValues ++ [tail + 1]
        producer := .idle
        returns := s.returns ++ [.pushed item] }

/-- The next access of `try_pop`. -/
def consumerStep (s : RingState α) (left : α) (observed : Nat) : RingState α :=
  match s.consumer with
  | .idle =>
      { s with consumer := .headLoaded s.ring.head }
  | .headLoaded head =>
      let tail := s.tailValues.getD (s.loadTail observed) 0
      if head >= tail then
        { s with
          seenTail := s.loadTail observed
          consumer := .idle
          returns := s.returns ++ [.popFailed] }
      else
        { s with
          seenTail := s.loadTail observed
          consumer := .reading head }
  | .reading head =>
      { s with
        ring := { s.ring with
          storage := Function.update s.ring.storage (s.ring.slot head) left }
        consumer := .storing (s.ring.storage (s.ring.slot head)) head }
  | .storing item head =>
      { s with
        ring := { s.ring with head := head + 1 }
        headValues := s.headValues ++ [head + 1]
        consumer := .idle
        returns := s.returns ++ [.popped item] }

def step (s : RingState α) : Access α -> RingState α
  | .producer item observed => s.producerStep item observed
  | .consumer left observed => s.consumerStep left observed

def run (s : RingState α) (accesses : List (Access α)) : RingState α :=
  Machine.run step s accesses

def visits (s : RingState α) (accesses : List (Access α)) :
    List (RingState α × Access α) :=
  Machine.visits step s accesses

/-!
## Slots
-/

section Slots

variable {r : SpscRingBuffer α} {k : Nat}

theorem toNat_slot (hcapacity : r.capacity.toNat = 2 ^ k) {i : Nat} (hi : i < 2 ^ 64) :
    (r.slot (UInt64.ofNat i)).toNat = i % 2 ^ k := by
  have hle : (1 : UInt64) <= r.capacity := by
    rw [UInt64.le_iff_toNat_le, hcapacity]
    exact Nat.two_pow_pos k
  unfold SpscRingBuffer.slot
  rw [UInt64.toNat_and, UInt64.toNat_sub_of_le _ _ hle, hcapacity, UInt64.toNat_ofNat_of_lt' hi]
  exact Nat.and_two_pow_sub_one_eq_mod i k

theorem slot_ne (hcapacity : r.capacity.toNat = 2 ^ k) {i j : Nat} (hij : i < j)
    (hclose : j < i + 2 ^ k) (hj : j < 2 ^ 64) :
    r.slot (UInt64.ofNat i) ≠ r.slot (UInt64.ofNat j) := by
  intro heq
  have hmod := congrArg UInt64.toNat heq
  rw [toNat_slot hcapacity (Nat.lt_trans hij hj), toNat_slot hcapacity hj] at hmod
  have hzero := Nat.sub_mod_eq_zero_of_mod_eq hmod.symm
  rw [Nat.mod_eq_of_lt (by omega)] at hzero
  omega

end Slots

/-!
## The invariant
-/

def queue (s : RingState α) : StaleQueue α where
  items := s.pushed
  popped := s.popped.length
  seenPopped := s.seenHead
  seenPushed := s.seenTail

def ProducerKnows (k : Nat) (s : RingState α) : ProducerPhase α -> Prop
  | .idle => True
  | .tailLoaded _ tail => tail = s.ring.tail
  | .writing _ tail => tail = s.ring.tail ∧ s.queue.seenSize < 2 ^ k
  | .storing item tail =>
      tail = s.ring.tail ∧ s.queue.seenSize < 2 ^ k ∧ s.ring.storage (s.ring.slot tail) = item

def ConsumerKnows (s : RingState α) : ConsumerPhase α -> Prop
  | .idle => True
  | .headLoaded head => head = s.ring.head
  | .reading head => head = s.ring.head ∧ s.popped.length < s.seenTail
  | .storing item head =>
      head = s.ring.head ∧ s.popped.length < s.seenTail ∧
        s.pushed[s.popped.length]? = some item

def firstStored (s : RingState α) : Nat :=
  match s.consumer with
  | .storing _ _ => s.popped.length + 1
  | _ => s.popped.length

/-- The indices count the items, and the slots between them hold the items. -/
structure Inv (k : Nat) (s : RingState α) : Prop where
  capacity : s.ring.capacity.toNat = 2 ^ k
  head : s.ring.head = UInt64.ofNat s.popped.length
  tail : s.ring.tail = UInt64.ofNat s.pushed.length
  headValues : s.headValues = (List.range (s.popped.length + 1)).map UInt64.ofNat
  tailValues : s.tailValues = (List.range (s.pushed.length + 1)).map UInt64.ofNat
  valid : s.queue.Valid (2 ^ k)
  fifo : s.popped = s.pushed.take s.popped.length
  producer : s.ProducerKnows k s.producer
  consumer : s.ConsumerKnows s.consumer
  stored : forall i item, s.firstStored <= i -> s.pushed[i]? = some item ->
    s.ring.storage (s.ring.slot (UInt64.ofNat i)) = item

theorem inv_new {capacity : UInt64} {k : Nat} (hcapacity : capacity.toNat = 2 ^ k)
    (storage : UInt64 -> α) : (new capacity storage).Inv k where
  capacity := hcapacity
  head := rfl
  tail := rfl
  headValues := rfl
  tailValues := rfl
  valid := StaleQueue.valid_new _
  fifo := rfl
  producer := trivial
  consumer := trivial
  stored _ _ _ h := nomatch h

section Loads

variable {s : RingState α} {k : Nat}

/-- The values that a counter has held once it stands at `n`. -/
theorem getD_counterValues {n i : Nat} (hi : i <= n) :
    ((List.range (n + 1)).map UInt64.ofNat).getD i 0 = UInt64.ofNat i := by
  rw [List.getD_eq_getElem?_getD, List.getElem?_map, List.getElem?_range (Nat.lt_succ_of_le hi)]
  rfl

theorem length_counterValues (n : Nat) :
    ((List.range (n + 1)).map UInt64.ofNat).length - 1 = n := by
  rw [List.length_map, List.length_range, Nat.add_sub_cancel]

theorem counterValues_succ (n : Nat) :
    (List.range (n + 1 + 1)).map UInt64.ofNat =
      (List.range (n + 1)).map UInt64.ofNat ++ [UInt64.ofNat (n + 1)] := by
  rw [List.range_succ, List.map_append]
  rfl

theorem counter_next {index : UInt64} {n : Nat} (h : index = UInt64.ofNat n) :
    index + 1 = UInt64.ofNat (n + 1) := by
  rw [h, UInt64.ofNat_add]
  rfl

/-- A load of `head_` is an observation of the number of popped items. -/
theorem Inv.loadHead (h : s.Inv k) (observed : Nat) :
    s.loadHead observed = (s.queue.loadPopped observed).seenPopped ∧
      s.headValues.getD (s.loadHead observed) 0 = UInt64.ofNat (s.loadHead observed) := by
  have hload : s.loadHead observed = (s.queue.loadPopped observed).seenPopped := by
    unfold RingState.loadHead
    rw [h.headValues, length_counterValues]
    rfl
  refine ⟨hload, ?_⟩
  rw [h.headValues, hload]
  exact getD_counterValues (h.valid.loadPopped observed).seenPopped_le

/-- A load of `tail_` is an observation of the number of pushed items. -/
theorem Inv.loadTail (h : s.Inv k) (observed : Nat) :
    s.loadTail observed = (s.queue.loadPushed observed).seenPushed ∧
      s.tailValues.getD (s.loadTail observed) 0 = UInt64.ofNat (s.loadTail observed) := by
  have hload : s.loadTail observed = (s.queue.loadPushed observed).seenPushed := by
    unfold RingState.loadTail
    rw [h.tailValues, length_counterValues]
    rfl
  refine ⟨hload, ?_⟩
  rw [h.tailValues, hload]
  exact getD_counterValues (h.valid.loadPushed observed).seenPushed_le

/-- The queue once `head_` has been loaded, wherever that takes the producer. -/
theorem Inv.queue_loadHead (h : s.Inv k) (observed : Nat) (phase : ProducerPhase α) :
    ({ s with seenHead := s.loadHead observed, producer := phase } : RingState α).queue =
      s.queue.loadPopped observed := by
  show ({ s.queue with seenPopped := s.loadHead observed } : StaleQueue α) = _
  rw [(h.loadHead observed).left]
  rfl

/-- The queue once `tail_` has been loaded, wherever that takes the consumer. -/
theorem Inv.queue_loadTail (h : s.Inv k) (observed : Nat) (phase : ConsumerPhase α) :
    ({ s with seenTail := s.loadTail observed, consumer := phase } : RingState α).queue =
      s.queue.loadPushed observed := by
  show ({ s.queue with seenPushed := s.loadTail observed } : StaleQueue α) = _
  rw [(h.loadTail observed).left]
  rfl

/-- The producer's test for a full buffer, in terms of the queue it sees. -/
theorem Inv.full_iff (h : s.Inv k) (hbound : s.pushed.length < 2 ^ 64) (observed : Nat) :
    s.ring.tail - s.headValues.getD (s.loadHead observed) 0 >= s.ring.capacity <->
      2 ^ k <= (s.queue.loadPopped observed).seenSize := by
  rcases h.loadHead observed with ⟨hload, hvalue⟩
  have hvalid := h.valid.loadPopped observed
  have hle : s.loadHead observed <= s.pushed.length := by
    rw [hload]
    exact Nat.le_trans hvalid.seenPopped_le hvalid.popped_le
  have hlt : s.loadHead observed < 2 ^ 64 := Nat.lt_of_le_of_lt hle hbound
  have hdiff : (s.ring.tail - s.headValues.getD (s.loadHead observed) 0).toNat =
      (s.queue.loadPopped observed).seenSize := by
    rw [hvalue, h.tail, UInt64.toNat_sub_of_le, UInt64.toNat_ofNat_of_lt' hbound,
      UInt64.toNat_ofNat_of_lt' hlt]
    · rw [hload]
      rfl
    · rwa [UInt64.le_iff_toNat_le, UInt64.toNat_ofNat_of_lt' hbound,
        UInt64.toNat_ofNat_of_lt' hlt]
  rw [ge_iff_le, UInt64.le_iff_toNat_le, hdiff, h.capacity]

/-- The consumer's test for an empty buffer, in terms of the queue it sees. -/
theorem Inv.empty_iff (h : s.Inv k) (hbound : s.pushed.length < 2 ^ 64) (observed : Nat) :
    s.ring.head >= s.tailValues.getD (s.loadTail observed) 0 <->
      (s.queue.loadPushed observed).seenPushed <= s.popped.length := by
  rcases h.loadTail observed with ⟨hload, hvalue⟩
  have hvalid := h.valid.loadPushed observed
  have hlt : s.loadTail observed < 2 ^ 64 := by
    rw [hload]
    exact Nat.lt_of_le_of_lt hvalid.seenPushed_le hbound
  have hpopped : s.popped.length < 2 ^ 64 := Nat.lt_of_le_of_lt h.valid.popped_le hbound
  rw [ge_iff_le, UInt64.le_iff_toNat_le, hvalue, h.head, UInt64.toNat_ofNat_of_lt' hlt,
    UInt64.toNat_ofNat_of_lt' hpopped, hload]

/-- A producer that loads the present `head_` finds the buffer full if it is. -/
theorem Inv.full_fresh (h : s.Inv k) (hbound : s.pushed.length < 2 ^ 64) :
    s.ring.tail - s.headValues.getD (s.loadHead s.headValues.length) 0 >= s.ring.capacity <->
      s.popped.length + 2 ^ k <= s.pushed.length := by
  have hvalues : s.popped.length <= s.headValues.length := by
    rw [h.headValues, List.length_map, List.length_range]
    exact Nat.le_succ _
  have hpositive := Nat.two_pow_pos k
  rw [h.full_iff hbound, h.valid.seenSize_fresh hvalues]
  unfold StaleQueue.pending
  rw [List.length_drop]
  show 2 ^ k <= s.pushed.length - s.popped.length <-> _
  omega

/-- A consumer that loads the present `tail_` finds the buffer empty if it is. -/
theorem Inv.empty_fresh (h : s.Inv k) (hbound : s.pushed.length < 2 ^ 64) :
    s.ring.head >= s.tailValues.getD (s.loadTail s.tailValues.length) 0 <->
      s.pushed.length <= s.popped.length := by
  have hvalues : s.pushed.length <= s.tailValues.length := by
    rw [h.tailValues, List.length_map, List.length_range]
    exact Nat.le_succ _
  rw [h.empty_iff hbound, h.valid.seenPushed_fresh hvalues]
  rfl

end Loads

/-!
## Steps

One lemma for each access: it keeps the invariant, and the queue sees it as one
of its own operations, or not at all.
-/

/-- A step of the buffer as the queue sees it, with what it returns. -/
inductive QueueStep (capacity : Nat) (q : StaleQueue α) :
    List (Return α) -> StaleQueue α -> Prop
  | unseen : QueueStep capacity q [] q
  | loadPopped (observed : Nat) : QueueStep capacity q [] (q.loadPopped observed)
  | loadPushed (observed : Nat) : QueueStep capacity q [] (q.loadPushed observed)
  | push (observed : Nat) (item : α) (h : (q.tryPush capacity observed item).1 = true) :
      QueueStep capacity q [.pushed item] (q.tryPush capacity observed item).2
  | pushFails (observed : Nat) (item : α)
      (h : (q.tryPush capacity observed item).1 = false) :
      QueueStep capacity q [.pushFailed] (q.tryPush capacity observed item).2
  | pop (observed : Nat) (item : α) (h : (q.tryPop observed).1 = some item) :
      QueueStep capacity q [.popped item] (q.tryPop observed).2
  | popFails (observed : Nat) (h : (q.tryPop observed).1 = none) :
      QueueStep capacity q [.popFailed] (q.tryPop observed).2

structure StepOk (k : Nat) (s s' : RingState α) : Prop where
  inv : s'.Inv k
  refines : exists returned, s'.returns = s.returns ++ returned ∧
    QueueStep (2 ^ k) s.queue returned s'.queue

section Steps

variable {s : RingState α} {k : Nat}

theorem ProducerKnows.transport {s' : RingState α} {phase : ProducerPhase α}
    (h : s.ProducerKnows k phase) (htail : s'.ring.tail = s.ring.tail)
    (hsize : s'.queue.seenSize = s.queue.seenSize)
    (hwritten : forall item tail, phase = .storing item tail ->
      s'.ring.storage (s'.ring.slot tail) = s.ring.storage (s.ring.slot tail)) :
    s'.ProducerKnows k phase := by
  unfold ProducerKnows at h ⊢
  rw [htail, hsize]
  cases phase with
  | idle => trivial
  | tailLoaded item tail => exact h
  | writing item tail => exact h
  | storing item tail => exact ⟨h.left, h.right.left, (hwritten item tail rfl).trans h.right.right⟩

theorem ConsumerKnows.transport {s' : RingState α} {phase : ConsumerPhase α}
    (h : s.ConsumerKnows phase) (hhead : s'.ring.head = s.ring.head)
    (hpopped : s'.popped.length = s.popped.length) (hseen : s'.seenTail = s.seenTail)
    (hpushed : forall item, s.pushed[s.popped.length]? = some item ->
      s'.pushed[s.popped.length]? = some item) : s'.ConsumerKnows phase := by
  unfold ConsumerKnows at h ⊢
  rw [hhead, hpopped, hseen]
  cases phase with
  | idle => trivial
  | headLoaded head => exact h
  | reading head => exact h
  | storing item head => exact ⟨h.left, h.right.left, hpushed item h.right.right⟩

theorem Inv.note (h : s.Inv k) {r : Return α} (hpush : r.pushed? = none)
    (hpop : r.popped? = none) :
    ({ s with returns := s.returns ++ [r] } : RingState α).Inv k ∧
      ({ s with returns := s.returns ++ [r] } : RingState α).queue = s.queue := by
  have hpushed : ({ s with returns := s.returns ++ [r] } : RingState α).pushed = s.pushed := by
    simp [pushed, hpush]
  have hpopped : ({ s with returns := s.returns ++ [r] } : RingState α).popped = s.popped := by
    simp [popped, hpop]
  have hqueue : ({ s with returns := s.returns ++ [r] } : RingState α).queue = s.queue := by
    unfold queue
    rw [hpushed, hpopped]
  refine ⟨?_, hqueue⟩
  constructor
  case capacity => exact h.capacity
  case head => rw [hpopped]; exact h.head
  case tail => rw [hpushed]; exact h.tail
  case headValues => rw [hpopped]; exact h.headValues
  case tailValues => rw [hpushed]; exact h.tailValues
  case valid => rw [hqueue]; exact h.valid
  case fifo => rw [hpushed, hpopped]; exact h.fifo
  case producer => exact h.producer.transport rfl (by rw [hqueue]) (fun _ _ _ => rfl)
  case consumer =>
    exact h.consumer.transport rfl (by rw [hpopped]) rfl
      (fun _ hitem => by rw [hpushed]; exact hitem)
  case stored =>
    have hstored := h.stored
    unfold firstStored at hstored ⊢
    rw [hpushed, hpopped]
    exact hstored

/-- `try_push` loads `head_` and returns if the buffer looks full. -/
theorem Inv.producer_load (h : s.Inv k) (hbound : s.pushed.length < 2 ^ 64) {item : α}
    {tail : UInt64} (hphase : s.producer = .tailLoaded item tail)
    (observed : Nat) (unused : α) : StepOk k s (s.producerStep unused observed) := by
  have htail : tail = s.ring.tail := by
    have hknows := h.producer
    rwa [hphase] at hknows
  have hvalid := h.valid.loadPopped observed
  have hfull := h.full_iff hbound observed
  rw [← htail] at hfull
  unfold producerStep
  rw [hphase]
  dsimp only
  by_cases hroom : 2 ^ k <= (s.queue.loadPopped observed).seenSize
  · rw [if_pos (hfull.mpr hroom)]
    have hseen := h.queue_loadHead observed .idle
    have hquiet : ({ s with
        seenHead := s.loadHead observed
        producer := .idle } : RingState α).Inv k :=
      { h with
        valid := by
          rw [hseen]
          exact hvalid
        producer := trivial }
    rcases hquiet.note (r := .pushFailed) rfl rfl with ⟨hinv, hqueue⟩
    refine ⟨hinv, [.pushFailed], rfl, ?_⟩
    have hfails : s.queue.tryPush (2 ^ k) observed item =
        (false, s.queue.loadPopped observed) := if_pos hroom
    rw [hqueue, hseen]
    have hstep := QueueStep.pushFails observed item (congrArg Prod.fst hfails)
    rwa [hfails] at hstep
  · rw [if_neg (fun hge => hroom (hfull.mp hge))]
    have hseen := h.queue_loadHead observed (.writing item tail)
    refine ⟨{ h with valid := ?_, producer := ?_ }, [], (List.append_nil _).symm, ?_⟩
    · rw [hseen]
      exact hvalid
    · refine ⟨htail, ?_⟩
      rw [hseen]
      exact Nat.not_le.mp hroom
    · rw [hseen]
      exact .loadPopped observed

theorem popped_le_firstStored (s : RingState α) : s.popped.length <= s.firstStored := by
  unfold firstStored
  split
  · exact Nat.le_succ _
  · exact Nat.le_refl _

/-- The slot that the producer writes is not one of those that hold items. -/
theorem Inv.slot_free (h : s.Inv k) (hbound : s.pushed.length < 2 ^ 64)
    (hroom : s.queue.seenSize < 2 ^ k) {i : Nat} (hfirst : s.popped.length <= i)
    (hi : i < s.pushed.length) :
    s.ring.slot (UInt64.ofNat i) ≠ s.ring.slot s.ring.tail := by
  have hseen := h.valid.seenPopped_le
  unfold StaleQueue.seenSize at hroom
  change s.pushed.length - s.seenHead < 2 ^ k at hroom
  change s.seenHead <= s.popped.length at hseen
  rw [h.tail]
  exact slot_ne h.capacity hi (by omega) hbound

/-- `try_push` writes the slot. -/
theorem Inv.producer_write (h : s.Inv k) (hbound : s.pushed.length < 2 ^ 64) {item : α}
    {tail : UInt64} (hphase : s.producer = .writing item tail)
    (observed : Nat) (unused : α) : StepOk k s (s.producerStep unused observed) := by
  have hknows := h.producer
  rw [hphase] at hknows
  rcases hknows with ⟨htail, hroom⟩
  unfold producerStep
  rw [hphase]
  refine ⟨{ h with producer := ?_, stored := ?_ }, [], (List.append_nil _).symm,
    .unseen⟩
  · exact ⟨htail, hroom, Function.update_self _ _ _⟩
  · intro i item' hfirst hitem
    have hi : i < s.pushed.length := (List.getElem?_eq_some_iff.mp hitem).choose
    have hne := h.slot_free hbound hroom
      (Nat.le_trans (popped_le_firstStored s) hfirst) hi
    rw [← htail] at hne
    show Function.update s.ring.storage (s.ring.slot tail) item (s.ring.slot (UInt64.ofNat i)) = _
    rw [Function.update_of_ne hne]
    exact h.stored i item' hfirst hitem

theorem Inv.stored_push (h : s.Inv k) {item item' : α} {i : Nat}
    (hwritten : s.ring.storage (s.ring.slot s.ring.tail) = item) (hi : s.firstStored <= i)
    (hitem : (s.pushed ++ [item])[i]? = some item') :
    s.ring.storage (s.ring.slot (UInt64.ofNat i)) = item' := by
  rcases Nat.lt_or_ge i s.pushed.length with hlt | hge
  · rw [List.getElem?_append_left hlt] at hitem
    exact h.stored i item' hi hitem
  · have hlast : i = s.pushed.length := by
      have hi' := (List.getElem?_eq_some_iff.mp hitem).choose
      rw [List.length_append, List.length_singleton] at hi'
      omega
    subst hlast
    rw [List.getElem?_concat_length] at hitem
    rw [← h.tail, hwritten]
    exact Option.some.inj hitem

/-- `try_push` stores `tail_` and returns. -/
theorem Inv.producer_store (h : s.Inv k) {item : α} {tail : UInt64}
    (hphase : s.producer = .storing item tail) (observed : Nat) (unused : α) :
    StepOk k s (s.producerStep unused observed) := by
  have hknows := h.producer
  rw [hphase] at hknows
  rcases hknows with ⟨htail, hroom, hwritten⟩
  unfold producerStep
  rw [hphase]
  dsimp only
  generalize hs' : ({ s with
      ring := { s.ring with tail := tail + 1 }
      tailValues := s.tailValues ++ [tail + 1]
      producer := .idle
      returns := s.returns ++ [.pushed item] } : RingState α) = s'
  have hpushed : s'.pushed = s.pushed ++ [item] := by
    rw [← hs']
    simp [pushed, Return.pushed?]
  have hpopped : s'.popped = s.popped := by
    rw [← hs']
    simp [popped, Return.popped?]
  have hnext : tail + 1 = UInt64.ofNat (s.pushed.length + 1) := counter_next (htail.trans h.tail)
  have hqueue : s'.queue = { s.queue with items := s.queue.items ++ [item] } := by
    unfold queue
    rw [hpushed, hpopped, ← hs']
  have hfirst : s'.firstStored = s.firstStored := by
    unfold firstStored
    rw [hpopped, ← hs']
  refine ⟨?_, [.pushed item], by rw [← hs'], ?_⟩
  · constructor
    case capacity => rw [← hs']; exact h.capacity
    case head => rw [hpopped, ← hs']; exact h.head
    case tail =>
      rw [hpushed, List.length_append, ← hs']
      exact hnext
    case headValues => rw [hpopped, ← hs']; exact h.headValues
    case tailValues =>
      rw [hpushed, List.length_append, List.length_singleton, counterValues_succ,
        ← h.tailValues, ← hs', hnext]
    case valid =>
      rw [hqueue]
      exact h.valid.push hroom item
    case fifo =>
      have hle : s.popped.length <= s.pushed.length := h.valid.popped_le
      rw [hpushed, hpopped, List.take_append_of_le_length hle]
      exact h.fifo
    case producer => rw [← hs']; exact trivial
    case consumer =>
      rw [show s'.consumer = s.consumer by rw [← hs']]
      apply h.consumer.transport (by rw [← hs']) (by rw [hpopped]) (by rw [← hs'])
      intro popping hitem
      rw [hpushed, List.getElem?_append_left (List.getElem?_eq_some_iff.mp hitem).choose]
      exact hitem
    case stored =>
      intro i item' hi hitem
      rw [hfirst] at hi
      rw [hpushed] at hitem
      have hstorage : s'.ring.storage (s'.ring.slot (UInt64.ofNat i)) =
          s.ring.storage (s.ring.slot (UInt64.ofNat i)) := by
        rw [← hs']
        rfl
      rw [hstorage]
      exact h.stored_push (htail ▸ hwritten) hi hitem
  · have hpush := h.valid.tryPush_self hroom item
    rw [← hqueue] at hpush
    have hstep := QueueStep.push s.seenHead item (congrArg Prod.fst hpush)
    rwa [show s.seenHead = s.queue.seenPopped from rfl, hpush] at hstep

/-- `try_pop` loads `tail_` and returns if the buffer looks empty. -/
theorem Inv.consumer_load (h : s.Inv k) (hbound : s.pushed.length < 2 ^ 64) {head : UInt64}
    (hphase : s.consumer = .headLoaded head) (observed : Nat) (unused : α) :
    StepOk k s (s.consumerStep unused observed) := by
  have hhead : head = s.ring.head := by
    have hknows := h.consumer
    rwa [hphase] at hknows
  have hvalid := h.valid.loadPushed observed
  have hempty := h.empty_iff hbound observed
  have hstored := h.stored
  rw [← hhead] at hempty
  unfold firstStored at hstored
  rw [hphase] at hstored
  unfold consumerStep
  rw [hphase]
  dsimp only
  by_cases hnone : (s.queue.loadPushed observed).seenPushed <= s.popped.length
  · rw [if_pos (hempty.mpr hnone)]
    have hseen := h.queue_loadTail observed .idle
    have hquiet : ({ s with
        seenTail := s.loadTail observed
        consumer := .idle } : RingState α).Inv k :=
      { h with
        valid := by
          rw [hseen]
          exact hvalid
        consumer := trivial
        stored := hstored }
    rcases hquiet.note (r := .popFailed) rfl rfl with ⟨hinv, hqueue⟩
    refine ⟨hinv, [.popFailed], rfl, ?_⟩
    have hfails : s.queue.tryPop observed = (none, s.queue.loadPushed observed) :=
      if_pos hnone
    rw [hqueue, hseen]
    have hstep : QueueStep (2 ^ k) s.queue [.popFailed] (s.queue.tryPop observed).2 :=
      .popFails observed (congrArg Prod.fst hfails)
    rwa [hfails] at hstep
  · rw [if_neg (fun hge => hnone (hempty.mp hge))]
    have hseen := h.queue_loadTail observed (.reading head)
    refine ⟨{ h with valid := ?_, consumer := ?_, stored := hstored }, [],
      (List.append_nil _).symm, ?_⟩
    · rw [hseen]
      exact hvalid
    · refine ⟨hhead, ?_⟩
      show s.popped.length < s.loadTail observed
      rw [(h.loadTail observed).left]
      exact Nat.not_le.mp hnone
    · rw [hseen]
      exact .loadPushed observed

theorem Inv.next_item (h : s.Inv k) {head : UInt64}
    (hphase : s.consumer = .reading head) :
    s.pushed[s.popped.length]? = some (s.ring.storage (s.ring.slot head)) := by
  have hknows := h.consumer
  rw [hphase] at hknows
  have hseen : s.seenTail <= s.pushed.length := h.valid.seenPushed_le
  have hlt : s.popped.length < s.pushed.length := Nat.lt_of_lt_of_le hknows.right hseen
  have hfirst : s.firstStored <= s.popped.length := by
    unfold firstStored
    rw [hphase]
  have hitem := List.getElem?_eq_getElem hlt
  rw [hitem, hknows.left, h.head, h.stored _ _ hfirst hitem]

/-- `try_pop` moves the item out of its slot. -/
theorem Inv.consumer_read (h : s.Inv k) (hbound : s.pushed.length < 2 ^ 64) {head : UInt64}
    (hphase : s.consumer = .reading head) (observed : Nat) (left : α) :
    StepOk k s (s.consumerStep left observed) := by
  have hitem := h.next_item hphase
  have hknows := h.consumer
  rw [hphase] at hknows
  rcases hknows with ⟨hhead, hmore⟩
  have hlt : s.popped.length < s.pushed.length := (List.getElem?_eq_some_iff.mp hitem).choose
  unfold consumerStep
  rw [hphase]
  refine ⟨{ h with producer := ?_, consumer := ⟨hhead, hmore, hitem⟩, stored := ?_ }, [],
    (List.append_nil _).symm, .unseen⟩
  · refine h.producer.transport rfl rfl ?_
    intro item tail hp
    have hproducer := h.producer
    rw [hp] at hproducer
    have hne := h.slot_free hbound hproducer.right.left (Nat.le_refl _) hlt
    rw [← h.head, ← hhead, ← hproducer.left] at hne
    exact Function.update_of_ne hne.symm _ _
  · intro i item hfirst hi
    change s.popped.length + 1 <= i at hfirst
    have hbounded : s.pushed.length <= s.popped.length + 2 ^ k := h.valid.bounded
    have hilt := (List.getElem?_eq_some_iff.mp hi).choose
    change i < s.pushed.length at hilt
    have hne : s.ring.slot (UInt64.ofNat i) ≠ s.ring.slot head := by
      rw [hhead, h.head]
      exact (slot_ne h.capacity hfirst (by omega) (by omega)).symm
    have hstored : s.firstStored <= i := by
      unfold firstStored
      rw [hphase]
      exact Nat.le_of_succ_le hfirst
    show Function.update s.ring.storage (s.ring.slot head) left
      (s.ring.slot (UInt64.ofNat i)) = item
    rw [Function.update_of_ne hne]
    exact h.stored i item hstored hi

/-- `try_pop` stores `head_` and returns. -/
theorem Inv.consumer_store (h : s.Inv k) {item : α} {head : UInt64}
    (hphase : s.consumer = .storing item head) (observed : Nat) (unused : α) :
    StepOk k s (s.consumerStep unused observed) := by
  have hknows := h.consumer
  rw [hphase] at hknows
  rcases hknows with ⟨hhead, hmore, hitem⟩
  have hstored := h.stored
  unfold firstStored at hstored
  rw [hphase] at hstored
  unfold consumerStep
  rw [hphase]
  dsimp only
  generalize hs' : ({ s with
      ring := { s.ring with head := head + 1 }
      headValues := s.headValues ++ [head + 1]
      consumer := .idle
      returns := s.returns ++ [.popped item] } : RingState α) = s'
  have hpushed : s'.pushed = s.pushed := by
    rw [← hs']
    simp [pushed, Return.pushed?]
  have hpopped : s'.popped = s.popped ++ [item] := by
    rw [← hs']
    simp [popped, Return.popped?]
  have hcount : s'.popped.length = s.popped.length + 1 := by
    rw [hpopped, List.length_append, List.length_singleton]
  have hnext : head + 1 = UInt64.ofNat (s.popped.length + 1) := counter_next (hhead.trans h.head)
  have hqueue : s'.queue = { s.queue with popped := s.queue.popped + 1 } := by
    unfold queue
    rw [hpushed, hcount, ← hs']
  refine ⟨?_, [.popped item], by rw [← hs'], ?_⟩
  · constructor
    case capacity => rw [← hs']; exact h.capacity
    case head =>
      rw [hcount, ← hs']
      exact hnext
    case tail => rw [hpushed, ← hs']; exact h.tail
    case headValues =>
      rw [hcount, counterValues_succ, ← h.headValues, ← hs', hnext]
    case tailValues => rw [hpushed, ← hs']; exact h.tailValues
    case valid =>
      rw [hqueue]
      exact h.valid.pop hmore
    case fifo =>
      have hlt := (List.getElem?_eq_some_iff.mp hitem)
      rw [hpushed, hcount, hpopped, List.take_succ_eq_append_getElem hlt.choose, ← h.fifo,
        hlt.choose_spec]
    case producer =>
      rw [show s'.producer = s.producer by rw [← hs']]
      exact h.producer.transport (by rw [← hs']) (by rw [hqueue]; rfl)
        (fun _ _ _ => by rw [← hs']; rfl)
    case consumer => rw [← hs']; exact trivial
    case stored =>
      intro i item' hi hget
      have hfirst : s'.firstStored = s.popped.length + 1 := by
        unfold firstStored
        rw [hcount, ← hs']
      rw [hfirst] at hi
      rw [hpushed] at hget
      rw [← hs']
      exact hstored i item' hi hget
  · have hpop := h.valid.tryPop_self hmore
    rw [← hqueue] at hpop
    have hstep : QueueStep (2 ^ k) s.queue [.popped item]
        (s.queue.tryPop s.queue.seenPushed).2 :=
      .pop s.queue.seenPushed item ((congrArg Prod.fst hpop).trans hitem)
    rwa [hpop] at hstep

theorem Inv.step (h : s.Inv k) (hbound : s.pushed.length < 2 ^ 64) (a : Access α) :
    StepOk k s (s.step a) := by
  cases a with
  | producer item observed =>
      show StepOk k s (s.producerStep item observed)
      cases hphase : s.producer with
      | idle =>
          unfold producerStep
          rw [hphase]
          exact ⟨{ h with producer := rfl }, [], (List.append_nil _).symm, .unseen⟩
      | tailLoaded item' tail => exact h.producer_load hbound hphase observed item
      | writing item' tail => exact h.producer_write hbound hphase observed item
      | storing item' tail => exact h.producer_store hphase observed item
  | consumer left observed =>
      show StepOk k s (s.consumerStep left observed)
      cases hphase : s.consumer with
      | idle =>
          have hstored := h.stored
          unfold firstStored at hstored
          rw [hphase] at hstored
          unfold consumerStep
          rw [hphase]
          exact ⟨{ h with consumer := rfl, stored := hstored }, [], (List.append_nil _).symm,
            .unseen⟩
      | headLoaded head => exact h.consumer_load hbound hphase observed left
      | reading head => exact h.consumer_read hbound hphase observed left
      | storing item head => exact h.consumer_store hphase observed left

end Steps

/-!
## Runs
-/

theorem producerStep_cases (s : RingState α) (item : α) (observed : Nat) :
    ((s.producerStep item observed).returns = s.returns ∧
      (s.producerStep item observed).producer.item? = some (s.producer.item?.getD item)) ∨
    ((s.producerStep item observed).returns = s.returns ++ [.pushFailed] ∧
      (s.producerStep item observed).producer = .idle ∧
      (s.producerStep item observed).ring = s.ring) ∨
    exists pushed, s.producer.item? = some pushed ∧
      (s.producerStep item observed).returns = s.returns ++ [.pushed pushed] ∧
      (s.producerStep item observed).producer = .idle := by
  unfold producerStep
  cases s.producer with
  | idle => exact Or.inl ⟨rfl, rfl⟩
  | tailLoaded item tail =>
      dsimp only
      split
      · exact Or.inr (Or.inl ⟨rfl, rfl, rfl⟩)
      · exact Or.inl ⟨rfl, rfl⟩
  | writing item tail => exact Or.inl ⟨rfl, rfl⟩
  | storing item tail => exact Or.inr (Or.inr ⟨item, rfl, rfl, rfl⟩)

theorem consumerStep_cases (s : RingState α) (left : α) (observed : Nat) :
    (s.consumerStep left observed).returns = s.returns ∨
    (exists head, s.consumer = .headLoaded head ∧
      s.tailValues.getD (s.loadTail observed) 0 <= head ∧
      (s.consumerStep left observed).returns = s.returns ++ [.popFailed] ∧
      (s.consumerStep left observed).ring = s.ring) ∨
    exists item, (s.consumerStep left observed).returns = s.returns ++ [.popped item] := by
  unfold consumerStep
  cases s.consumer with
  | idle => exact Or.inl rfl
  | headLoaded head =>
      dsimp only
      split
      · next hempty => exact Or.inr (Or.inl ⟨head, rfl, hempty, rfl, rfl⟩)
      · exact Or.inl rfl
  | reading head => exact Or.inl rfl
  | storing item head => exact Or.inr (Or.inr ⟨item, rfl⟩)

theorem producer_consumerStep (s : RingState α) (left : α) (observed : Nat) :
    (s.consumerStep left observed).producer = s.producer := by
  unfold consumerStep
  cases s.consumer with
  | idle => rfl
  | headLoaded head =>
      dsimp only
      split <;> rfl
  | reading head => rfl
  | storing item head => rfl

theorem returns_step (s : RingState α) (a : Access α) :
    (s.step a).returns = s.returns ∨
      exists r, (s.step a).returns = s.returns ++ [r] ∧
        (r.pushed? = none -> r.popped? = none -> (s.step a).ring = s.ring) := by
  cases a with
  | producer item observed =>
      rcases s.producerStep_cases item observed with
        ⟨hsame, -⟩ | ⟨hfailed, -, hring⟩ | ⟨pushed, -, hpushed, -⟩
      · exact Or.inl hsame
      · exact Or.inr ⟨_, hfailed, fun _ _ => hring⟩
      · exact Or.inr ⟨_, hpushed, fun hnone => by cases hnone⟩
  | consumer left observed =>
      rcases s.consumerStep_cases left observed with
        hsame | ⟨head, -, -, hfailed, hring⟩ | ⟨item, hpopped⟩
      · exact Or.inl hsame
      · exact Or.inr ⟨_, hfailed, fun _ _ => hring⟩
      · exact Or.inr ⟨_, hpopped, fun _ hnone => by cases hnone⟩

theorem pushed_of_returns {s t : RingState α} {rs : List (Return α)}
    (h : t.returns = s.returns ++ rs) : t.pushed = s.pushed ++ rs.filterMap Return.pushed? := by
  unfold pushed
  rw [h, List.filterMap_append]

theorem popped_of_returns {s t : RingState α} {rs : List (Return α)}
    (h : t.returns = s.returns ++ rs) : t.popped = s.popped ++ rs.filterMap Return.popped? := by
  unfold popped
  rw [h, List.filterMap_append]

theorem returnedIn_same {s t : RingState α} (h : t.returns = s.returns) :
    s.returnedIn t = none := by
  unfold returnedIn
  rw [h, List.drop_length]
  rfl

theorem returnedIn_append {s t : RingState α} {r : Return α} (h : t.returns = s.returns ++ [r]) :
    s.returnedIn t = some r := by
  unfold returnedIn
  rw [h, List.drop_left]
  rfl

theorem pushed_step_le (s : RingState α) (a : Access α) :
    s.pushed.length <= (s.step a).pushed.length := by
  rcases returns_step s a with hsame | ⟨r, hreturns, -⟩
  · unfold pushed
    rw [hsame]
  · rw [pushed_of_returns hreturns, List.length_append]
    exact Nat.le_add_right _ _

theorem pushed_run_le (s : RingState α) (accesses : List (Access α)) :
    s.pushed.length <= (s.run accesses).pushed.length :=
  Machine.run_invariant (P := fun s' : RingState α => s.pushed.length <= s'.pushed.length)
    (fun s' a h => Nat.le_trans h (pushed_step_le s' a)) (Nat.le_refl _) accesses

theorem Inv.run {s : RingState α} {k : Nat} (h : s.Inv k) {accesses : List (Access α)}
    (hbound : (s.run accesses).pushed.length < 2 ^ 64) : (s.run accesses).Inv k :=
  Machine.run_invariant (P := fun s : RingState α => s.pushed.length < 2 ^ 64 -> s.Inv k)
    (fun s a hs hnext => by
      have hbefore : s.pushed.length < 2 ^ 64 := Nat.lt_of_le_of_lt (pushed_step_le s a) hnext
      exact ((hs hbefore).step hbefore a).inv)
    (fun _ => h) accesses hbound

inductive QueueRun (capacity : Nat) (q : StaleQueue α) :
    List (Return α) -> StaleQueue α -> Prop
  | start : QueueRun capacity q [] q
  | step {returns returned : List (Return α)} {q' q'' : StaleQueue α}
      (before : QueueRun capacity q returns q') (next : QueueStep capacity q' returned q'') :
      QueueRun capacity q (returns ++ returned) q''

/-- The buffer returns what a queue returns that is operated in the same order. -/
theorem run_refines {capacity : UInt64} {k : Nat} (hcapacity : capacity.toNat = 2 ^ k)
    (storage : UInt64 -> α) (accesses : List (Access α))
    (hpushes : ((new capacity storage).run accesses).pushed.length < 2 ^ 64) :
    QueueRun (2 ^ k) {} ((new capacity storage).run accesses).returns
      ((new capacity storage).run accesses).queue := by
  have hstep : forall (s : RingState α) (a : Access α),
      (s.pushed.length < 2 ^ 64 -> s.Inv k ∧ QueueRun (2 ^ k) {} s.returns s.queue) ->
      (s.step a).pushed.length < 2 ^ 64 ->
        (s.step a).Inv k ∧ QueueRun (2 ^ k) {} (s.step a).returns (s.step a).queue := by
    intro s a hs hnext
    have hbound : s.pushed.length < 2 ^ 64 := Nat.lt_of_le_of_lt (pushed_step_le s a) hnext
    rcases hs hbound with ⟨hinv, hbefore⟩
    rcases hinv.step hbound a with ⟨hinv', returned, hreturns, hstep⟩
    rw [hreturns]
    exact ⟨hinv', hbefore.step hstep⟩
  exact (Machine.run_invariant hstep
    (fun _ => ⟨inv_new hcapacity storage, .start⟩) accesses hpushes).right

/-- No access touches a slot at the wrong time, and no failing call changes anything. -/
structure AccessSafe (s : RingState α) (a : Access α) : Prop where
  /-- All earlier items of the slot that is written have been popped. -/
  overwrites_popped : forall item unused observed tail, a = .producer unused observed ->
    s.producer = .writing item tail ->
    forall i, i < s.pushed.length -> s.ring.slot (UInt64.ofNat i) = s.ring.slot tail ->
      i < s.popped.length
  /-- The slot that is read holds the next pushed item. -/
  reads_written : forall left observed head, a = .consumer left observed ->
    s.consumer = .reading head ->
    s.pushed[s.popped.length]? = some (s.ring.storage (s.ring.slot head))
  failure_quiet : forall r, (s.step a).returns = s.returns ++ [r] -> r.pushed? = none ->
    r.popped? = none -> (s.step a).ring = s.ring ∧ (s.step a).pushed = s.pushed ∧
      (s.step a).popped = s.popped

theorem Inv.accessSafe {s : RingState α} {k : Nat} (h : s.Inv k)
    (hbound : s.pushed.length < 2 ^ 64) (a : Access α) : s.AccessSafe a where
  overwrites_popped item unused observed tail _ hphase i hi hslot := by
    have hknows := h.producer
    rw [hphase] at hknows
    by_contra hnot
    rw [hknows.left] at hslot
    exact h.slot_free hbound hknows.right (Nat.not_lt.mp hnot) hi hslot
  reads_written left observed head _ hphase := h.next_item hphase
  failure_quiet r hreturns hpush hpop := by
    refine ⟨?_, ?_, ?_⟩
    · rcases returns_step s a with hsame | ⟨r', hreturns', hring⟩
      · rw [hsame] at hreturns
        exact absurd (congrArg List.length hreturns) (by simp)
      · have heq : r' = r := by
          rw [hreturns'] at hreturns
          simpa using hreturns
        exact hring (heq ▸ hpush) (heq ▸ hpop)
    · rw [pushed_of_returns hreturns]
      simp [hpush]
    · rw [popped_of_returns hreturns]
      simp [hpop]

/-- What is popped is what was pushed, in order, over every interleaving. -/
theorem spsc_ring_fifo {capacity : UInt64} {k : Nat} (hcapacity : capacity.toNat = 2 ^ k)
    (storage : UInt64 -> α) (accesses : List (Access α))
    (hpushes : ((new capacity storage).run accesses).pushed.length < 2 ^ 64) :
    (((new capacity storage).run accesses).popped <+:
        ((new capacity storage).run accesses).pushed) ∧
      ((new capacity storage).run accesses).pushed.length <=
        ((new capacity storage).run accesses).popped.length + 2 ^ k ∧
      forall v, v ∈ (new capacity storage).visits accesses -> v.1.AccessSafe v.2 := by
  have hinv := (inv_new hcapacity storage).run hpushes
  refine ⟨?_, hinv.valid.bounded, ?_⟩
  · rw [hinv.fifo]
    exact List.take_prefix _ _
  · intro v hv
    rcases (Machine.mem_visits_iff _).mp hv with ⟨before, after, hsplit, hstate⟩
    have hbefore : v.1.pushed.length < 2 ^ 64 := by
      refine Nat.lt_of_le_of_lt ?_ hpushes
      have hrun : (new capacity storage).run accesses = v.1.run (v.2 :: after) := by
        rw [hstate, hsplit]
        exact Machine.run_append _ _ _ _
      rw [hrun]
      exact pushed_run_le v.1 (v.2 :: after)
    have hreach : v.1 = (new capacity storage).run before := hstate
    have hinv' : v.1.Inv k := by
      rw [hreach] at hbefore ⊢
      exact (inv_new hcapacity storage).run hbefore
    exact hinv'.accessSafe hbefore v.2

def overlappingCalls : List (Access Nat) :=
  [.producer 7 0, .consumer 0 0, .producer 7 0, .producer 7 0,
    .producer 7 0, .consumer 0 0, .consumer 0 0, .consumer 0 1, .consumer 0 0, .consumer 0 0]

theorem spsc_ring_fifo_overlappingCalls :
    ((new 2 (fun _ => 0)).run overlappingCalls).popped = [7] ∧
      (((new 2 (fun _ => 0)).run overlappingCalls).popped <+:
        ((new 2 (fun _ => 0)).run overlappingCalls).pushed) := by
  have hcapacity : (2 : UInt64).toNat = 2 ^ 1 := rfl
  exact ⟨by decide, (spsc_ring_fifo hcapacity (fun _ => 0) overlappingCalls (by decide)).left⟩

end RingState
end LockFree
end MiniExchange
