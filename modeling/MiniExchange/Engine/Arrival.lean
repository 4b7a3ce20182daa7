import MiniExchange.Engine.Calls

/-!
# Order of arrival

Each resting order has the rank at which it was added to the book, an unbounded
number of which its `sequence` is the value modulo 2^64.  Queues are in order of
rank.  Matching and cancelling only take orders out of the queues.
-/

namespace MiniExchange

open Foundation

namespace OrderBook

/-- Orders have only left the queues, or lost quantity. -/
structure Shrinks (b b' : OrderBook) : Prop where
  sublist : forall s, (b'.restingSlots s).Sublist (b.restingSlots s)
  data_eq : forall s x, x ∈ b'.restingSlots s ->
    { b'.data x with quantity := (b.data x).quantity } = b.data x

namespace Shrinks

variable {b b' b'' : OrderBook}

theorem refl (b : OrderBook) : Shrinks b b where
  sublist _ := List.Sublist.refl _
  data_eq _ _ _ := rfl

theorem trans (h : Shrinks b b') (h' : Shrinks b' b'') : Shrinks b b'' where
  sublist s := (h'.sublist s).trans (h.sublist s)
  data_eq s x hx := by
    have hold := h.data_eq s x ((h'.sublist s).subset hx)
    have hnew := h'.data_eq s x hx
    rw [← hold, ← hnew]

theorem mem (h : Shrinks b b') {s : Side} {x : Slot} (hx : x ∈ b'.restingSlots s) :
    x ∈ b.restingSlots s :=
  (h.sublist s).subset hx

theorem price_eq (h : Shrinks b b') {s : Side} {x : Slot}
    (hx : x ∈ b'.restingSlots s) : (b'.data x).price = (b.data x).price :=
  congrArg (fun o => o.price) (h.data_eq s x hx)

theorem sequence_eq (h : Shrinks b b') {s : Side} {x : Slot}
    (hx : x ∈ b'.restingSlots s) : (b'.data x).sequence = (b.data x).sequence :=
  congrArg (fun o => o.sequence) (h.data_eq s x hx)

end Shrinks

theorem WellFormed.Without.shrinks {b b' : OrderBook} {x : Slot} (hw : b.WellFormed)
    (h : WellFormed.Without b x b') : Shrinks b b' where
  sublist s := by
    rw [h.restingSlots_eq]
    exact List.erase_sublist
  data_eq s y hy := by
    rw [h.restingSlots_eq] at hy
    rw [h.data_eq y ((hw.nodup s).mem_erase_iff.mp hy).left]

theorem WellFormed.reduceResting_shrinks {b : OrderBook} (hw : b.WellFormed) {s : Side}
    {x : Slot} (hx : x ∈ b.restingSlots s) {qty : Quantity}
    (hqty : qty <= (b.data x).quantity) :
    Shrinks b (b.reduceResting ⟨s, (b.data x).price⟩ x qty) where
  sublist t := by
    rw [(hw.reduceResting hx hqty).right]
  data_eq t y hy := by
    rw [WellFormed.data_reduceResting]
    split
    · next heq => rw [heq]
    · rfl

end OrderBook

theorem BookStep.shrinks {b b' : OrderBook} (hw : b.WellFormed) (h : BookStep b b') :
    OrderBook.Shrinks b b' := by
  cases h with
  | reduce hx hqty => exact hw.reduceResting_shrinks hx hqty
  | remove hx h => exact h.shrinks hw

theorem matched_shrinks {e : MatchingEngine} (hw : e.book.WellFormed) (order : NewOrder) :
    OrderBook.Shrinks e.book (e.matched order).engine.book :=
  MatchingEngine.matched_book hw (fun hwb h hstep => h.trans (hstep.shrinks hwb))
    (OrderBook.Shrinks.refl _)

/-!
## Ranks
-/

/-- The sequence number of the `n`-th order added to the book. -/
def Sequence.ofRank (n : Nat) : Sequence :=
  ⟨UInt64.ofNat n⟩

theorem Sequence.next_ofRank (n : Nat) : (Sequence.ofRank n).next = Sequence.ofRank (n + 1) := by
  unfold next ofRank
  congr 1
  exact UInt64.ofNat_add n 1 ▸ rfl

theorem Sequence.index_ofRank {n : Nat} (h : n < 2 ^ 64) :
    (Sequence.ofRank n).index = n :=
  UInt64.toNat_ofNat_of_lt' h

/-- The slots of the book carry the ranks `rank`, all below `n`. -/
structure Ranked (n : Nat) (rank : Slot -> Nat) (b : OrderBook) : Prop where
  sequence_eq : forall s x, x ∈ b.restingSlots s ->
    (b.data x).sequence = Sequence.ofRank (rank x)
  rank_lt : forall s x, x ∈ b.restingSlots s -> rank x < n
  injective : forall s t x y, x ∈ b.restingSlots s -> y ∈ b.restingSlots t ->
    rank x = rank y -> x = y
  fifo : forall s, (b.restingSlots s).Pairwise
    (fun x y => (b.data x).price = (b.data y).price -> rank x < rank y)

namespace Ranked

variable {n : Nat} {rank : Slot -> Nat} {b b' : OrderBook}

theorem shrink (h : Ranked n rank b) (hs : OrderBook.Shrinks b b') :
    Ranked n rank b' where
  sequence_eq s x hx := (hs.sequence_eq hx).trans (h.sequence_eq s x (hs.mem hx))
  rank_lt s x hx := h.rank_lt s x (hs.mem hx)
  injective s t x y hx hy := h.injective s t x y (hs.mem hx) (hs.mem hy)
  fifo s := by
    apply ((h.fifo s).sublist (hs.sublist s)).imp_of_mem
    intro x y hx hy hxy
    rw [hs.price_eq hx, hs.price_eq hy]
    exact hxy

section Add

variable {data : Order} {x : Slot}

theorem injective_add (h : Ranked n rank b) (hwith : OrderBook.WellFormed.With b data x b')
    {s t : Side} {y z : Slot} (hy : y ∈ b'.restingSlots s) (hz : z ∈ b'.restingSlots t)
    (heq : Function.update rank x n y = Function.update rank x n z) : y = z := by
  rcases hwith.mem_cases hy with hyx | ⟨hyne, hyb⟩
  · rcases hwith.mem_cases hz with hzx | ⟨hzne, hzb⟩
    · exact hyx.trans hzx.symm
    · rw [hyx, Function.update_self, Function.update_of_ne hzne] at heq
      exact absurd (h.rank_lt t z hzb) (heq ▸ Nat.lt_irrefl _)
  · rcases hwith.mem_cases hz with hzx | ⟨hzne, hzb⟩
    · rw [hzx, Function.update_self, Function.update_of_ne hyne] at heq
      exact absurd (h.rank_lt s y hyb) (heq ▸ Nat.lt_irrefl _)
    · rw [Function.update_of_ne hyne, Function.update_of_ne hzne] at heq
      exact h.injective s t y z hyb hzb heq

theorem fifo_add (h : Ranked n rank b) (hw : b.WellFormed)
    (hwith : OrderBook.WellFormed.With b data x b') (s : Side) :
    (b'.restingSlots s).Pairwise (fun y z => (b'.data y).price = (b'.data z).price ->
      Function.update rank x n y < Function.update rank x n z) := by
  have hne : forall y, y ∈ b.restingSlots s -> y ≠ x :=
    fun y hy heq => hwith.fresh s (heq ▸ hy)
  have hkept : (b.restingSlots s).Pairwise (fun y z =>
      (b'.data y).price = (b'.data z).price ->
        Function.update rank x n y < Function.update rank x n z) := by
    apply (h.fifo s).imp_of_mem
    intro y z hy hz hyz
    rw [Function.update_of_ne (hne y hy), Function.update_of_ne (hne z hz),
      hwith.data_of_ne (hne y hy), hwith.data_of_ne (hne z hz)]
    exact hyz
  rw [hwith.restingSlots_eq]
  unfold Represents.queued
  split
  · have hsorted : PriorityList.Sorted s.better (fun y => (b'.data y).price)
        (b.restingSlots s) := by
      apply (hw.ordered_slots s).congr
      intro y hy
      rw [hwith.data_of_ne (hne y hy)]
    apply PriorityList.pairwise_insert hsorted hkept
    · intro y hy _ _
      rw [Function.update_self, Function.update_of_ne (hne y hy)]
      exact h.rank_lt s y hy
    · intro y _ hlt heq
      exact absurd (heq ▸ hlt) (irrefl_of s.better _)
  · exact hkept

theorem add (h : Ranked n rank b) (hw : b.WellFormed)
    (hwith : OrderBook.WellFormed.With b data x b')
    (hsequence : data.sequence = Sequence.ofRank n) :
    Ranked (n + 1) (Function.update rank x n) b' := by
  constructor
  case sequence_eq =>
    intro s y hy
    rcases hwith.mem_cases hy with heq | ⟨hne, hyb⟩
    · rw [heq, Function.update_self, hwith.data_self, hsequence]
    · rw [Function.update_of_ne hne, hwith.data_of_ne hne, h.sequence_eq s y hyb]
  case rank_lt =>
    intro s y hy
    rcases hwith.mem_cases hy with heq | ⟨hne, hyb⟩
    · rw [heq, Function.update_self]
      exact Nat.lt_succ_self n
    · rw [Function.update_of_ne hne]
      exact Nat.lt_succ_of_lt (h.rank_lt s y hyb)
  case injective =>
    intro s t y z hy hz heq
    exact h.injective_add hwith hy hz heq
  case fifo =>
    intro s
    exact h.fifo_add hw hwith s

end Add

end Ranked

namespace MatchingEngine

/-- The order that a command brings to rest, if it is accepted. -/
def broughtToRest (v : MatchingEngine × EngineCommand) : Option RestingOrder :=
  if (v.1.exec v.2).response.status = .accepted then v.2.newOrder?.bind v.1.restedBy
  else none

/-- The orders that come to rest over a run, one after the other. -/
def arrivals (e : MatchingEngine) (commands : List EngineCommand) : List RestingOrder :=
  (e.visits commands).filterMap broughtToRest

theorem length_arrivals_le (e : MatchingEngine) (commands : List EngineCommand) :
    (e.arrivals commands).length <= commands.length := by
  have hvisits : (e.visits commands).length = commands.length := Machine.length_visits _ e commands
  rw [← hvisits]
  exact List.length_filterMap_le _ _

theorem arrivals_cons (e : MatchingEngine) (command : EngineCommand)
    (commands : List EngineCommand) :
    e.arrivals (command :: commands) =
      (broughtToRest (e, command)).toList ++ (e.exec command).engine.arrivals commands := by
  have hvisits : e.visits (command :: commands) =
      (e, command) :: (e.exec command).engine.visits commands := rfl
  unfold arrivals
  rw [hvisits, List.filterMap_cons]
  cases broughtToRest (e, command) <;> rfl

end MatchingEngine

open MatchingEngine

/-- An engine in which the orders `came` have come to rest, one after the other. -/
structure Arrived (came : List RestingOrder) (rank : Slot -> Nat) (e : MatchingEngine) :
    Prop where
  ranked : Ranked came.length rank e.book
  nextSequence_eq : e.nextSequence = Sequence.ofRank came.length
  arrival : forall s x, x ∈ e.book.restingSlots s -> exists o, came[rank x]? = some o ∧
    { e.book.data x with quantity := o.quantity } = o

namespace Arrived

variable {came : List RestingOrder} {rank : Slot -> Nat} {e : MatchingEngine}

theorem shrink_arrival (h : Arrived came rank e) {b : OrderBook}
    (hs : OrderBook.Shrinks e.book b) {s : Side} {x : Slot} (hx : x ∈ b.restingSlots s) :
    exists o, came[rank x]? = some o ∧ { b.data x with quantity := o.quantity } = o := by
  rcases h.arrival s x (hs.mem hx) with ⟨o, ho, hdata⟩
  refine ⟨o, ho, ?_⟩
  rw [← hs.data_eq s x hx] at hdata
  exact hdata

theorem submit (h : Arrived came rank e) (hw : e.book.WellFormed) {order : NewOrder}
    (hadmits : e.Admits order) :
    exists rank', Arrived (came ++ (e.restedBy order).toList) rank' (e.submit order).engine := by
  have hshrinks := matched_shrinks hw order
  have hmatched := h.ranked.shrink hshrinks
  have hsequence := (MatchingEngine.admission hw hadmits).nextSequence
  rw [h.nextSequence_eq] at hsequence
  cases hrest : e.restedBy order with
  | none =>
      rw [hrest] at hsequence
      have hbook : (e.submit order).engine.book = (e.matched order).engine.book := by
        rw [MatchingEngine.submit_engine hadmits, MatchingEngine.settle_none hw hrest]
      refine ⟨rank, ?_⟩
      rw [Option.toList_none, List.append_nil]
      refine ⟨?_, hsequence, ?_⟩
      · rw [hbook]
        exact hmatched
      · rw [hbook]
        exact fun s x hx => h.shrink_arrival hshrinks hx
  | some o =>
      rcases MatchingEngine.settled_with hw hadmits hrest with ⟨x, hwith⟩
      rw [hrest] at hsequence
      refine ⟨Function.update rank x came.length, ?_⟩
      rw [Option.toList_some]
      constructor
      case ranked =>
        rw [List.length_append, List.length_singleton]
        apply hmatched.add (MatchingEngine.matched_spec hw order).wellFormed hwith
        rw [← h.nextSequence_eq]
        rcases MatchingEngine.restedBy_some hrest with ⟨lo, -, -, ho⟩
        rw [ho]
      case nextSequence_eq =>
        rw [hsequence, List.length_append, List.length_singleton]
        exact Sequence.next_ofRank came.length
      case arrival =>
        intro s y hy
        rcases hwith.mem_cases hy with heq | ⟨hne, hyb⟩
        · refine ⟨o, ?_, ?_⟩
          · rw [heq, Function.update_self, List.getElem?_concat_length]
          · rw [heq, hwith.data_self]
        · rcases h.shrink_arrival hshrinks hyb with ⟨old, hold, hdata⟩
          have hbound := (List.getElem?_eq_some_iff.mp hold).choose
          refine ⟨old, ?_, ?_⟩
          · rw [Function.update_of_ne hne, List.getElem?_append_left hbound, hold]
          · rw [hwith.data_of_ne hne]
            exact hdata

theorem cancel (h : Arrived came rank e) (hw : e.book.WellFormed) {id : OrderId} {s : Side}
    {x : Slot} (hc : MatchingEngine.Cancellation e id s x (e.cancel id)) :
    Arrived came rank (e.cancel id).engine where
  ranked := h.ranked.shrink (hc.without.shrinks hw)
  nextSequence_eq := hc.nextSequence.trans h.nextSequence_eq
  arrival := fun _ _ hy => h.shrink_arrival (hc.without.shrinks hw) hy

theorem exec (h : Arrived came rank e) (hw : e.book.WellFormed) (command : EngineCommand) :
    exists rank', Arrived (came ++ (broughtToRest (e, command)).toList) rank'
      (e.exec command).engine := by
  rcases MatchingEngine.exec_cases hw command with ⟨status, id, hstatus, hcall⟩ |
    ⟨order, rfl, hcall, hadmits, ha⟩ | ⟨id, s, x, rfl, hc⟩
  · have hnone : broughtToRest (e, command) = none := by
      unfold broughtToRest
      rw [hcall]
      exact if_neg hstatus
    rw [hnone, hcall, Option.toList_none, List.append_nil]
    exact ⟨rank, h⟩
  · have hrest : broughtToRest (e, order.toCommand) = e.restedBy order := by
      unfold broughtToRest
      rw [hcall, if_pos ha.status, NewOrder.newOrder?_toCommand, Option.bind_some]
    rw [hrest, hcall]
    exact h.submit hw hadmits
  · have hnone : broughtToRest (e, .cancel id) = none := by
      unfold broughtToRest
      split <;> rfl
    rw [hnone, Option.toList_none, List.append_nil]
    exact ⟨rank, h.cancel hw hc⟩

theorem run (h : Arrived came rank e) (hw : e.book.WellFormed)
    (commands : List EngineCommand) :
    exists rank', Arrived (came ++ e.arrivals commands) rank' (e.run commands) := by
  induction commands generalizing e came rank with
  | nil =>
      refine ⟨rank, ?_⟩
      rw [show e.arrivals [] = [] from rfl, List.append_nil]
      exact h
  | cons command commands ih =>
      rcases h.exec hw command with ⟨rank', hnext⟩
      rw [arrivals_cons, ← List.append_assoc]
      exact ih hnext (MatchingEngine.exec_wellFormed hw command)

end Arrived

theorem run_arrived (raw : Memory) (capacity : UInt64) (stp : StpConfig)
    (commands : List EngineCommand) :
    exists rank, Arrived ((MatchingEngine.new raw capacity stp).arrivals commands) rank
      ((MatchingEngine.new raw capacity stp).run commands) := by
  have hnew : Arrived [] (fun _ => 0) (MatchingEngine.new raw capacity stp) := by
    have hslots := (Represents.new raw capacity).reads.right
    have hempty : forall s, (MatchingEngine.new raw capacity stp).book.restingSlots s = [] :=
      fun s => congrFun hslots s
    constructor
    · constructor <;> intros <;> simp_all
    · rfl
    · intro s x hx
      rw [hempty s] at hx
      cases hx
  exact hnew.run (OrderBook.WellFormed.new raw capacity) commands

end MiniExchange
