import MiniExchange.Engine.Arrival
import MiniExchange.Risk.RiskEngine
import Mathlib.Algebra.Order.BigOperators.Group.List
import Mathlib.Algebra.Order.Ring.Nat

/-!
# Invariant of the book

What holds of the price trees, the queues, the id index, the pool, and the
cached aggregates after any sequence of submits and cancels.
-/

namespace MiniExchange

open Foundation

namespace OrderBook

def levelSlots (b : OrderBook) (l : PriceLevel) : List Slot :=
  l.slots b.mem b.pool.capacity

/-- The representation invariant of a book over a pool of the given capacity. -/
structure Invariant (b : OrderBook) (capacity : Nat) : Prop where
  /-- Following the links lists the whole queue of a level, which is never empty. -/
  queue : forall s p l, (b.levels s).find? p = some l ->
    IntrusiveList.Linked (fun x => (b.mem x).prev) (fun x => (b.mem x).next) l.head l.tail
        (b.levelSlots l) ∧
      b.levelSlots l ≠ [] ∧ l.isEmpty = false
  orders : forall s p l x, (b.levels s).find? p = some l -> x ∈ b.levelSlots l ->
    (b.data x).price = p ∧ (b.data x).side = s ∧ Price.zero < p ∧
      Quantity.zero < (b.data x).quantity
  fifo : forall s p l, (b.levels s).find? p = some l ->
    (b.levelSlots l).Pairwise (fun x y => (b.data x).sequence < (b.data y).sequence)
  sequences : ((b.restingSlots .buy ++ b.restingSlots .sell).map
    (fun x => (b.data x).sequence)).Nodup
  index : forall id x, b.findOrder id = some x ->
    (exists s p l, (b.levels s).find? p = some l ∧ x ∈ b.levelSlots l) ∧ (b.data x).id = id
  count : b.orderCount = (b.restingSlots .buy).length + (b.restingSlots .sell).length ∧
    b.orderCount + b.poolAvailable = capacity
  total : forall s p l, (b.levels s).find? p = some l ->
    l.totalQty.units = slotUnits b.mem (b.levelSlots l) % 2 ^ 64

def ExactTotals (b : OrderBook) : Prop :=
  forall s p l, (b.levels s).find? p = some l ->
    l.totalQty.units = slotUnits b.mem (b.levelSlots l)

end OrderBook

namespace MatchingEngine

/-!
## Properties of single resting orders

A resting order only ever loses part of its quantity.
-/

section Resting

variable {P : RestingOrder -> Prop}
  (hless : forall o q, P o -> q <= o.quantity ->
    (Quantity.zero < o.quantity -> Quantity.zero < q) -> P { o with quantity := q })

include hless

theorem submit_resting {e : MatchingEngine} {order : NewOrder}
    (h : forall s o, o ∈ e.book.resting s -> P o)
    (ha : Admission e order (e.submit order))
    (hrest : forall o, e.restedBy order = some o -> P o) (s : Side) (o : RestingOrder)
    (ho : o ∈ (e.submit order).engine.book.resting s) : P o := by
  rcases Side.eq_or_eq_opposite order.side s with hs | hs
  · rw [hs, ha.own] at ho
    cases hrested : e.restedBy order with
    | none =>
        rw [hrested] at ho
        exact h _ o ho
    | some new =>
        rw [hrested] at ho
        rcases PriorityList.mem_insert.mp ho with heq | hold
        · exact heq ▸ hrest new hrested
        · exact h _ o hold
  · rw [hs, ha.opposing] at ho
    rcases Incoming.mem_left order.quantity _ ho with ⟨o', ho', heq, hle, hpos⟩
    rw [heq]
    exact hless o' o.quantity (h _ o' ho') hle hpos

theorem run_resting {ok : EngineCommand -> Prop} {raw : Memory} {capacity : UInt64}
    {stp : StpConfig}
    (hrest : forall (e : MatchingEngine) order o, ok order.toCommand -> e.Admits order ->
      e.restedBy order = some o -> P o)
    {commands : List EngineCommand} (hok : forall command, command ∈ commands -> ok command) :
    forall s o, o ∈ ((new raw capacity stp).run commands).book.resting s -> P o := by
  apply run_induction_of (Q := fun e => forall s o, o ∈ e.book.resting s -> P o)
    (OrderBook.WellFormed.new raw capacity) ?_ ?_ ?_ hok
  · intro s o ho
    have hempty := OrderBook.WellFormed.resting_new raw capacity s
    exact absurd (hempty ▸ ho : o ∈ ([] : List RestingOrder)) List.not_mem_nil
  · intro e order _ h hcommand hadmits ha
    exact submit_resting hless h ha (fun o => hrest e order o hcommand hadmits)
  · intro e id t x hw h hc s o ho
    rw [hc.without.resting_eq hw] at ho
    exact h s o ((List.erase_sublist.map _).subset ho)

end Resting

theorem run_positive (raw : Memory) (capacity : UInt64) (stp : StpConfig)
    (commands : List EngineCommand) (s : Side) (o : RestingOrder)
    (ho : o ∈ ((new raw capacity stp).run commands).book.resting s) :
    Price.zero < o.price ∧ Quantity.zero < o.quantity := by
  have hany : forall command, command ∈ commands -> True := fun _ _ => trivial
  refine run_resting (P := fun o => Price.zero < o.price ∧ Quantity.zero < o.quantity)
    ?_ ?_ hany s o ho
  · rintro o q ⟨hprice, hquantity⟩ _ hpos
    exact ⟨hprice, hpos hquantity⟩
  · intro e order o _ hadmits hrest
    rcases restedBy_some hrest with ⟨lo, rfl, hpos, rfl⟩
    exact ⟨hadmits.price_pos lo.price rfl, hpos⟩

theorem run_quantity_le {raw : Memory} {capacity : UInt64} {stp : StpConfig}
    {largest : Quantity} {commands : List EngineCommand}
    (hok : forall command, command ∈ commands -> forall order : NewOrder,
      command.newOrder? = some order -> order.quantity <= largest)
    (s : Side) (o : RestingOrder)
    (ho : o ∈ ((new raw capacity stp).run commands).book.resting s) :
    o.quantity <= largest := by
  refine run_resting (P := fun o => o.quantity <= largest) ?_ ?_ hok s o ho
  · intro o q h hle _
    exact le_trans hle h
  · intro e order o hcommand _ hrest
    rcases restedBy_some hrest with ⟨lo, rfl, -, rfl⟩
    have hsum := sweepOf_filled e (.limit lo)
    have hle : lo.quantity <= largest := hcommand (.limit lo) rfl
    refine le_trans ?_ hle
    rw [Quantity.le_iff]
    exact Nat.le.intro ((Nat.add_comm _ _).trans hsum)

end MatchingEngine

/-!
## The invariant
-/

namespace OrderBook

variable {b : OrderBook} {free : List Slot}

theorem levelSlots_eq (h : Represents b b.restingSlots free) {s : Side} {p : Price}
    {l : PriceLevel} (hfind : (b.levels s).find? p = some l) :
    b.levelSlots l = slotsAt b.mem (b.restingSlots s) p :=
  h.level_slots hfind

theorem mem_levelSlots (h : Represents b b.restingSlots free) {s : Side} {p : Price}
    {l : PriceLevel} (hfind : (b.levels s).find? p = some l) {x : Slot} :
    x ∈ b.levelSlots l <-> x ∈ b.restingSlots s ∧ (b.data x).price = p := by
  rw [levelSlots_eq h hfind]
  exact Represents.mem_slotsAt

theorem sequence_index {n : Nat} {rank : Slot -> Nat} (hr : Ranked n rank b)
    (hn : n <= 2 ^ 64) {s : Side} {x : Slot} (hx : x ∈ b.restingSlots s) :
    (b.data x).sequence.index = rank x := by
  rw [hr.sequence_eq s x hx]
  exact Sequence.index_ofRank (Nat.lt_of_lt_of_le (hr.rank_lt s x hx) hn)

theorem nodup_sequences (h : Represents b b.restingSlots free) {n : Nat}
    {rank : Slot -> Nat} (hr : Ranked n rank b) (hn : n <= 2 ^ 64) :
    ((b.restingSlots .buy ++ b.restingSlots .sell).map
      (fun x => (b.data x).sequence)).Nodup := by
  have hnodup := (List.nodup_append.mp h.nodup).right.left
  apply List.Nodup.map_on _ hnodup
  have hside : forall x, x ∈ b.restingSlots .buy ++ b.restingSlots .sell ->
      exists s, x ∈ b.restingSlots s := by
    intro x hx
    rcases List.mem_append.mp hx with hbuy | hsell
    · exact ⟨.buy, hbuy⟩
    · exact ⟨.sell, hsell⟩
  intro x hx y hy heq
  rcases hside x hx with ⟨s, hs⟩
  rcases hside y hy with ⟨t, ht⟩
  apply hr.injective s t x y hs ht
  rw [← sequence_index hr hn hs, ← sequence_index hr hn ht, heq]

theorem invariant_of (h : Represents b b.restingSlots free) {n : Nat}
    {rank : Slot -> Nat} (hr : Ranked n rank b) (hn : n <= 2 ^ 64)
    (hpositive : forall s o, o ∈ b.resting s -> Price.zero < o.price ∧ Quantity.zero < o.quantity)
    {capacity : Nat} (hcapacity : b.pool.capacity = capacity) : b.Invariant capacity where
  queue s p l hfind := by
    have hrep := (h.levels s p).some_rep l hfind
    rw [levelSlots_eq h hfind]
    refine ⟨hrep.linked, hrep.nonempty, ?_⟩
    cases hhead : l.head with
    | none =>
        have hempty := hrep.linked.head_eq
        rw [hhead] at hempty
        exact absurd (List.head?_eq_none_iff.mp hempty.symm) hrep.nonempty
    | some x => simp [PriceLevel.isEmpty, hhead]
  orders s p l x hfind hx := by
    rcases (mem_levelSlots h hfind).mp hx with ⟨hrest, hprice⟩
    rcases hpositive s (b.data x) (List.mem_map.mpr ⟨x, hrest, rfl⟩) with ⟨hp, hq⟩
    exact ⟨hprice, h.side_eq s x hrest, hprice ▸ hp, hq⟩
  fifo s p l hfind := by
    have hsub : (slotsAt b.mem (b.restingSlots s) p).Sublist (b.restingSlots s) :=
      List.filter_sublist
    rw [levelSlots_eq h hfind]
    apply ((hr.fifo s).sublist hsub).imp_of_mem
    intro x y hx hy hxy
    rcases Represents.mem_slotsAt.mp hx with ⟨hxs, hxp⟩
    rcases Represents.mem_slotsAt.mp hy with ⟨hys, hyp⟩
    rw [Sequence.lt_iff, sequence_index hr hn hxs, sequence_index hr hn hys]
    exact hxy (hxp.trans hyp.symm)
  sequences := nodup_sequences h hr hn
  index id x hfind := by
    rcases h.index id x hfind with ⟨⟨s, hx⟩, hid⟩
    rcases h.level_of_mem hx with ⟨l, hl, -⟩
    exact ⟨⟨s, (b.data x).price, l, hl, (mem_levelSlots h hl).mpr ⟨hx, rfl⟩⟩, hid⟩
  count := by
    refine ⟨h.orderCount, ?_⟩
    have hfree : b.poolAvailable = free.length := h.freeCount
    have hslots := h.count_slots
    have horders := h.orderCount
    omega
  total s p l hfind := by
    rw [levelSlots_eq h hfind]
    exact ((h.levels s p).some_rep l hfind).total

theorem exactTotals_of (h : Represents b b.restingSlots free) {largest : Quantity}
    (hlargest : forall s o, o ∈ b.resting s -> o.quantity <= largest)
    (hroom : largest.units * b.pool.capacity < 2 ^ 64) : b.ExactTotals := by
  intro s p l hfind
  have hlength := h.slotsAt_length_le s p
  have hsum : slotUnits b.mem (slotsAt b.mem (b.restingSlots s) p) <=
      (slotsAt b.mem (b.restingSlots s) p).length * largest.units := by
    have hbound : forall n, n ∈ (slotsAt b.mem (b.restingSlots s) p).map
        (fun x => (b.mem x).quantity.units) -> n <= largest.units := by
      intro n hn
      rcases List.mem_map.mp hn with ⟨x, hx, rfl⟩
      exact hlargest s (b.data x)
        (List.mem_map.mpr ⟨x, (Represents.mem_slotsAt.mp hx).left, rfl⟩)
    have hcard := List.sum_le_card_nsmul _ _ hbound
    rwa [List.length_map, Nat.nsmul_eq_mul] at hcard
  rw [levelSlots_eq h hfind, ((h.levels s p).some_rep l hfind).total]
  apply Nat.mod_eq_of_lt
  calc slotUnits b.mem (slotsAt b.mem (b.restingSlots s) p)
      <= (slotsAt b.mem (b.restingSlots s) p).length * largest.units := hsum
    _ <= b.pool.capacity * largest.units := Nat.mul_le_mul_right _ hlength
    _ = largest.units * b.pool.capacity := Nat.mul_comm _ _
    _ < 2 ^ 64 := hroom

end OrderBook

theorem RiskEngine.inner_run_engine (e : MatchingEngine) (config : RiskConfig)
    (commands : List EngineCommand) :
    exists passed : List EngineCommand,
      (run MatchingEngine.api (new e config) commands).inner = e.run passed ∧
      forall command, command ∈ passed -> forall order : NewOrder,
        command.newOrder? = some order -> order.quantity <= config.maxOrderQty := by
  refine ⟨forwarded MatchingEngine.api (new e config) commands, ?_, ?_⟩
  · have hinner := inner_run MatchingEngine.api (new e config) commands
    simp only [MatchingEngine.api_exec] at hinner
    exact hinner
  · intro command hcommand order horder
    exact quantity_le_of_forwarded MatchingEngine.api (new e config) hcommand horder

/--
The invariant of the book holds after fewer than 2^64 commands, and behind a
risk layer that keeps a full pool of orders below 2^64 the aggregates are exact.
-/
theorem book_invariant (raw : Memory) (capacity : UInt64) (stp : StpConfig)
    (commands : List EngineCommand) (hshort : commands.length < 2 ^ 64) :
    ((MatchingEngine.new raw capacity stp).run commands).book.Invariant capacity.toNat ∧
      forall config : RiskConfig, config.maxOrderQty.units * capacity.toNat < 2 ^ 64 ->
        (RiskEngine.run MatchingEngine.api
          (RiskEngine.new (MatchingEngine.new raw capacity stp) config)
          commands).inner.book.ExactTotals := by
  constructor
  · rcases MatchingEngine.run_wellFormed raw capacity stp commands with ⟨free, h⟩
    rcases run_arrived raw capacity stp commands with ⟨rank, harrived⟩
    have hcount := (MatchingEngine.new raw capacity stp).length_arrivals_le commands
    exact OrderBook.invariant_of h harrived.ranked (by omega)
      (MatchingEngine.run_positive raw capacity stp commands)
      (MatchingEngine.run_capacity raw capacity stp commands)
  · intro config hroom
    rcases RiskEngine.inner_run_engine (MatchingEngine.new raw capacity stp) config commands
      with ⟨passed, hinner, hbound⟩
    rcases MatchingEngine.run_wellFormed raw capacity stp passed with ⟨free, h⟩
    rw [← MatchingEngine.run_capacity raw capacity stp passed] at hroom
    rw [hinner]
    exact OrderBook.exactTotals_of h (MatchingEngine.run_quantity_le hbound) hroom

def partlyFilledAsk : List EngineCommand :=
  [.limit { id := ⟨1⟩, side := .sell, price := ⟨101⟩, quantity := ⟨5⟩, owner := ⟨1⟩ },
    .limit { id := ⟨1⟩, side := .sell, price := ⟨101⟩, quantity := ⟨7⟩, owner := ⟨2⟩ },
    .limit { id := ⟨1⟩, side := .buy, price := ⟨101⟩, quantity := ⟨3⟩, owner := ⟨3⟩ }]

theorem book_invariant_partlyFilledAsk :
    partlyFilledAsk.length < 2 ^ 64 ∧
      ((MatchingEngine.new Memory.zeroed 4 {}).run partlyFilledAsk).book.Invariant 4 ∧
      (RiskEngine.run MatchingEngine.api
        (RiskEngine.new (MatchingEngine.new Memory.zeroed 4 {}) { priceBand := none })
        partlyFilledAsk).inner.book.ExactTotals := by
  have hinv := book_invariant Memory.zeroed 4 {} partlyFilledAsk (by decide)
  exact ⟨by decide, hinv.left, hinv.right { priceBand := none } (by decide)⟩

end MiniExchange
