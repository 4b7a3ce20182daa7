import MiniExchange.Engine.Calls

/-!
# The per-client index of resting prices

The index counts, for each client, the orders it has resting at each side and
price.  Counters are 32 bits wide, so the index stands for the resting orders as
long as no counter goes past 2^32.
-/

namespace MiniExchange

open Foundation

structure RestKey where
  owner : ClientId
  side : Side
  price : Price
deriving DecidableEq, Repr

def RestingOrder.key (o : RestingOrder) : RestKey where
  owner := o.owner
  side := o.side
  price := o.price

namespace ClientRestingPrices

theorem prices_setPrices (crp : ClientRestingPrices) (s t : Side)
    (m : SortedMap Price UInt32 (· < ·)) :
    (crp.setPrices s m).prices t = if t = s then m else crp.prices t := by
  cases s <;> cases t <;> rfl

theorem find?_empty (s : Side) (p : Price) : (empty.prices s).find? p = none := by
  cases s <;> exact SortedMap.find?_empty p

theorem isEmpty_iff (crp : ClientRestingPrices) :
    (crp.bids.isEmpty && crp.asks.isEmpty) = true <->
      forall s p, (crp.prices s).find? p = none := by
  rw [Bool.and_eq_true, SortedMap.isEmpty_iff_find?, SortedMap.isEmpty_iff_find?]
  constructor
  · rintro ⟨hbids, hasks⟩ s
    cases s with
    | buy => exact hbids
    | sell => exact hasks
  · intro h
    exact ⟨h .buy, h .sell⟩

theorem find?_unlessEmpty (crp : ClientRestingPrices) (s : Side) (p : Price) :
    (if crp.bids.isEmpty && crp.asks.isEmpty then none else some crp).bind
        (fun crp => (crp.prices s).find? p) = (crp.prices s).find? p := by
  by_cases hempty : (crp.bids.isEmpty && crp.asks.isEmpty) = true
  · rw [if_pos hempty, crp.isEmpty_iff.mp hempty s p]
    rfl
  · rw [if_neg hempty]
    rfl

end ClientRestingPrices

namespace ClientIndex

def count? (index : ClientIndex) (k : RestKey) : Option UInt32 :=
  (index k.owner).bind (fun crp => (crp.prices k.side).find? k.price)

/-!
## What counting does to the counters
-/

theorem count?_rest (index : ClientIndex) (o : RestingOrder) (k : RestKey) :
    (index.rest o).count? k =
      if k = o.key then some ((index.count? k).getD 0 + 1) else index.count? k := by
  rcases k with ⟨owner, side, price⟩
  unfold count? rest
  dsimp only
  by_cases howner : owner = o.owner
  · subst howner
    rw [Function.update_self, Option.bind_some, ClientRestingPrices.prices_setPrices]
    have hprices : forall p,
        (((index o.owner).getD ClientRestingPrices.empty).prices side).find? p =
        (index o.owner).bind (fun crp => (crp.prices side).find? p) := by
      intro p
      cases index o.owner with
      | none => exact ClientRestingPrices.find?_empty side p
      | some crp => rfl
    by_cases hside : side = o.side
    · subst hside
      rw [if_pos rfl, SortedMap.find?_upsert, hprices]
      by_cases hprice : price = o.price
      · simp [RestingOrder.key, hprice]
      · simp [RestingOrder.key, hprice]
    · rw [if_neg hside, hprices]
      simp [RestingOrder.key, hside]
  · rw [Function.update_of_ne howner]
    simp [RestingOrder.key, howner]

theorem count?_unrest {index : ClientIndex} {o : RestingOrder} {n : UInt32}
    (h : index.count? o.key = some n) (k : RestKey) :
    (index.unrest o).count? k =
      if k = o.key then (if n - 1 = 0 then none else some (n - 1)) else index.count? k := by
  rcases k with ⟨owner, side, price⟩
  rcases Option.bind_eq_some_iff.mp h with ⟨crp, hcrp, hfind⟩
  have hcrp : index o.owner = some crp := hcrp
  have hfind : (crp.prices o.side).find? o.price = some n := hfind
  unfold count? unrest
  rw [hcrp]
  dsimp only
  rw [hfind]
  dsimp only
  by_cases howner : owner = o.owner
  · subst howner
    rw [Function.update_self, hcrp, ClientRestingPrices.find?_unlessEmpty,
      ClientRestingPrices.prices_setPrices, Option.bind_some]
    by_cases hside : side = o.side
    · subst hside
      rw [if_pos rfl]
      by_cases hprice : price = o.price
      · subst hprice
        have hkey : (⟨o.owner, o.side, o.price⟩ : RestKey) = o.key := rfl
        rw [if_pos hkey]
        split
        · rw [SortedMap.find?_erase, if_pos rfl]
        · rw [SortedMap.find?_modify, if_pos rfl, hfind]
          rfl
      · have hkey : ¬ (⟨o.owner, o.side, price⟩ : RestKey) = o.key :=
          fun heq => hprice (congrArg RestKey.price heq)
        rw [if_neg hkey]
        split
        · rw [SortedMap.find?_erase, if_neg hprice]
        · rw [SortedMap.find?_modify, if_neg hprice]
    · rw [if_neg hside]
      simp [RestingOrder.key, hside]
  · rw [Function.update_of_ne howner]
    simp [RestingOrder.key, howner]

theorem unrest_of_ne (index : ClientIndex) {o : RestingOrder} {owner : ClientId}
    (h : owner ≠ o.owner) : index.unrest o owner = index owner := by
  unfold unrest
  cases index o.owner with
  | none => rfl
  | some crp =>
      dsimp only
      cases (crp.prices o.side).find? o.price with
      | none => rfl
      | some n => exact Function.update_of_ne h _ _

theorem unrest_owner {index : ClientIndex} {o : RestingOrder} {n : UInt32}
    (h : index.count? o.key = some n) :
    exists crp : ClientRestingPrices, index.unrest o o.owner =
      if crp.bids.isEmpty && crp.asks.isEmpty then none else some crp := by
  rcases Option.bind_eq_some_iff.mp h with ⟨crp, hcrp, hfind⟩
  have hcrp : index o.owner = some crp := hcrp
  have hfind : (crp.prices o.side).find? o.price = some n := hfind
  unfold unrest
  rw [hcrp]
  dsimp only
  rw [hfind]
  dsimp only
  rw [Function.update_self]
  exact ⟨_, rfl⟩

/-!
## What the index stands for
-/

/-- The index counts exactly the given keys, modulo 2^32, and keeps no idle client. -/
structure Counts (index : ClientIndex) (keys : List RestKey) : Prop where
  count_eq : forall k, index.count? k =
    if keys.count k = 0 then none else some (UInt32.ofNat (keys.count k))
  active : forall owner, index owner ≠ none ->
    exists k : RestKey, k.owner = owner ∧ index.count? k ≠ none

namespace Counts

variable {index : ClientIndex} {keys keys' : List RestKey}

theorem nil : Counts (fun _ => none) [] where
  count_eq _ := rfl
  active _ h := absurd rfl h

theorem perm (h : Counts index keys) (hperm : keys.Perm keys') : Counts index keys' where
  count_eq k := by
    rw [← hperm.count_eq]
    exact h.count_eq k
  active := h.active

theorem ne_none_iff (h : Counts index keys) (k : RestKey) :
    index.count? k ≠ none <-> k ∈ keys := by
  rw [h.count_eq, ← List.count_pos_iff, Nat.pos_iff_ne_zero]
  split <;> simp_all

theorem rest (h : Counts index keys) (o : RestingOrder) :
    Counts (index.rest o) (o.key :: keys) where
  count_eq k := by
    rw [count?_rest, h.count_eq, List.count_cons]
    by_cases hk : k = o.key
    · subst hk
      rw [if_pos rfl]
      by_cases hzero : keys.count o.key = 0
      · simp [hzero]
      · simp [hzero, UInt32.ofNat_add]
    · have hk' : ¬ o.key = k := fun heq => hk heq.symm
      simp [hk, hk']
  active owner howner := by
    by_cases heq : owner = o.owner
    · refine ⟨o.key, heq.symm, ?_⟩
      rw [count?_rest, if_pos rfl]
      exact Option.some_ne_none _
    · have hkept : index.rest o owner = index owner := Function.update_of_ne heq _ _
      rcases h.active owner (hkept ▸ howner) with ⟨k, hk, hcount⟩
      refine ⟨k, hk, ?_⟩
      rw [count?_rest, if_neg (fun hkey => heq (hk ▸ congrArg RestKey.owner hkey))]
      exact hcount

/-- Counting off is right for counters up to 2^32, which is stored as zero. -/
theorem unrest (o : RestingOrder) (h : Counts index (o.key :: keys))
    (hbound : (o.key :: keys).count o.key <= 2 ^ 32) :
    Counts (index.unrest o) keys := by
  have hown := h.count_eq o.key
  rw [List.count_cons_self] at hown hbound
  rw [if_neg (Nat.succ_ne_zero _)] at hown
  constructor
  case count_eq =>
    intro k
    rw [count?_unrest hown, h.count_eq]
    by_cases hk : k = o.key
    · subst hk
      have hpred : UInt32.ofNat (keys.count o.key + 1) - 1 = UInt32.ofNat (keys.count o.key) := by
        rw [UInt32.ofNat_add]
        exact UInt32.add_sub_cancel _ _
      have hzero : UInt32.ofNat (keys.count o.key) = 0 <-> keys.count o.key = 0 := by
        rw [← UInt32.toNat_inj, UInt32.toNat_ofNat_of_lt' (Nat.lt_of_succ_le hbound)]
        rfl
      rw [if_pos rfl, hpred]
      simp only [hzero]
    · have hk' : ¬ o.key = k := fun heq => hk heq.symm
      simp [hk, hk']
  case active =>
    intro owner howner
    by_cases heq : owner = o.owner
    · subst heq
      rcases unrest_owner hown with ⟨crp, hcrp⟩
      by_cases hempty : (crp.bids.isEmpty && crp.asks.isEmpty) = true
      · rw [if_pos hempty] at hcrp
        exact absurd hcrp howner
      · rw [if_neg hempty] at hcrp
        rw [crp.isEmpty_iff] at hempty
        simp only [not_forall] at hempty
        rcases hempty with ⟨s, p, hfind⟩
        refine ⟨⟨o.owner, s, p⟩, rfl, ?_⟩
        unfold count?
        rw [hcrp]
        exact hfind
    · rw [unrest_of_ne _ heq] at howner
      rcases h.active owner howner with ⟨k, hk, hcount⟩
      refine ⟨k, hk, ?_⟩
      rw [count?_unrest hown, if_neg (fun hkey => heq (hk ▸ congrArg RestKey.owner hkey))]
      exact hcount

theorem unrestAll {orders : List RestingOrder} {stp : StpConfig} (hstp : stp.enabled = true)
    (h : Counts index (orders.map RestingOrder.key ++ keys))
    (hbound : forall o, o ∈ orders ->
      (orders.map RestingOrder.key ++ keys).count o.key <= 2 ^ 32) :
    Counts (index.unrestAll stp orders) keys := by
  induction orders generalizing index with
  | nil =>
      rw [ClientIndex.unrestAll_nil]
      exact h
  | cons o rest ih =>
      rw [ClientIndex.unrestAll_cons, if_pos hstp]
      apply ih (h.unrest o (hbound o List.mem_cons_self))
      intro o' ho'
      exact Nat.le_trans List.count_le_count_cons (hbound o' (List.mem_cons_of_mem _ ho'))

end Counts
end ClientIndex

/-!
## The index beside the book
-/

def OrderBook.keys (b : OrderBook) : List RestKey :=
  (b.resting .buy ++ b.resting .sell).map RestingOrder.key

theorem OrderBook.keys_perm (b : OrderBook) (s : Side) :
    b.keys.Perm ((b.resting s).map RestingOrder.key ++
      (b.resting s.opposite).map RestingOrder.key) := by
  unfold keys
  rw [List.map_append]
  cases s with
  | buy => exact List.Perm.refl _
  | sell => exact List.perm_append_comm

theorem OrderBook.WellFormed.count_keys_le {b : OrderBook} (hw : b.WellFormed) (k : RestKey) :
    b.keys.count k <= b.pool.capacity := by
  have hcount := hw.count.left
  have hle : b.keys.count k <= b.keys.length := List.count_le_length
  have hlength : b.keys.length =
      (b.resting .buy).length + (b.resting .sell).length := by
    unfold keys
    rw [List.length_map, List.length_append]
  omega

namespace MatchingEngine

/-- The index stands for what rests, and no counter has gone past 2^32. -/
structure IndexSound (e : MatchingEngine) : Prop where
  counts : ClientIndex.Counts e.clientResting e.book.keys
  bound : forall k, e.book.keys.count k <= 2 ^ 32

section Steps

variable {e : MatchingEngine}

theorem submit_keys {order : NewOrder} (ha : Admission e order (e.submit order)) :
    exists kept : List RestKey,
      e.book.keys.Perm
        ((Action.removed (e.sweepOf order).actions).map RestingOrder.key ++ kept) ∧
      (e.submit order).engine.book.keys.Perm
        ((e.restedBy order).toList.map RestingOrder.key ++ kept) := by
  refine ⟨(e.book.resting order.side).map RestingOrder.key ++
    (e.sweepOf order).left.map RestingOrder.key, ?_, ?_⟩
  · have hswept : (Action.removed (e.sweepOf order).actions).map RestingOrder.key ++
        (e.sweepOf order).left.map RestingOrder.key =
          (e.book.resting order.side.opposite).map RestingOrder.key :=
      Incoming.map_removed_append_left RestingOrder.key (fun _ _ => rfl) _ _
    refine (e.book.keys_perm order.side).trans ?_
    rw [← hswept, ← List.append_assoc, ← List.append_assoc]
    exact List.perm_append_comm.append_right _
  · refine ((e.submit order).engine.book.keys_perm order.side).trans ?_
    have hqueue := (queue_perm order.side (e.restedBy order) (e.book.resting order.side)).map
      RestingOrder.key
    rw [List.map_append] at hqueue
    rw [ha.opposing, ha.own, ← List.append_assoc]
    exact hqueue.append_right _

theorem submit_counts {order : NewOrder} (hstp : e.stp.enabled = true)
    (h : ClientIndex.Counts e.clientResting e.book.keys)
    (hbound : forall o, o ∈ Action.removed (e.sweepOf order).actions ->
      e.book.keys.count o.key <= 2 ^ 32)
    (ha : Admission e order (e.submit order)) :
    ClientIndex.Counts (e.submit order).engine.clientResting
      (e.submit order).engine.book.keys := by
  rcases submit_keys ha with ⟨kept, hbefore, hafter⟩
  have hcounts := (h.perm hbefore).unrestAll hstp
    (fun o ho => (hbefore.count_eq o.key).symm.trans_le (hbound o ho))
  rw [ha.clientResting]
  cases hrest : e.restedBy order with
  | none =>
      rw [hrest] at hafter
      exact hcounts.perm hafter.symm
  | some o =>
      rw [hrest] at hafter
      unfold countRest
      dsimp only
      rw [if_pos hstp]
      exact (hcounts.rest o).perm hafter.symm

/-- An order that comes to rest does not take its counter past 2^32. -/
def RoomToCount (e : MatchingEngine) (command : EngineCommand) : Prop :=
  forall order : LimitOrder, command = .limit order ->
    e.book.keys.count ⟨order.owner, order.side, order.price⟩ < 2 ^ 32

theorem submit_indexSound {order : NewOrder} (h : e.IndexSound) (hstp : e.stp.enabled = true)
    (hroom : e.RoomToCount order.toCommand) (ha : Admission e order (e.submit order)) :
    (e.submit order).engine.IndexSound := by
  refine ⟨submit_counts hstp h.counts (fun o _ => h.bound o.key) ha, ?_⟩
  intro k
  rcases submit_keys ha with ⟨kept, hbefore, hafter⟩
  have hkept : kept.count k <= e.book.keys.count k := by
    rw [hbefore.count_eq, List.count_append]
    exact Nat.le_add_left _ _
  have hbefore := h.bound k
  rw [hafter.count_eq, List.count_append]
  cases hrest : e.restedBy order with
  | none =>
      simp only [Option.toList_none, List.map_nil, List.count_nil]
      omega
  | some o =>
      simp only [Option.toList_some, List.map_cons, List.map_nil, List.count_singleton]
      by_cases hk : o.key = k
      · have hlast : e.book.keys.count o.key < 2 ^ 32 := by
          rcases restedBy_some hrest with ⟨lo, rfl, -, rfl⟩
          exact hroom lo rfl
        rw [hk] at hlast
        simp only [hk, beq_self_eq_true, if_true]
        omega
      · simp only [beq_iff_eq, hk, if_false]
        omega

theorem cancel_indexSound {id : OrderId} {s : Side} {x : Slot} (hw : e.book.WellFormed)
    (h : e.IndexSound) (hstp : e.stp.enabled = true)
    (hc : Cancellation e id s x (e.cancel id)) : (e.cancel id).engine.IndexSound := by
  have hkeys : e.book.keys.Perm ((e.book.data x).key :: (e.cancel id).engine.book.keys) := by
    rcases hc.without.resting_perm hw hc.resting with ⟨hperm, hother⟩
    have hafter := ((e.cancel id).engine.book.keys_perm s).symm
    rw [hother] at hafter
    refine (e.book.keys_perm s).trans (((hperm.map RestingOrder.key).append_right _).trans ?_)
    exact hafter.cons _
  constructor
  · have hcounts : ClientIndex.Counts e.clientResting
        ([e.book.data x].map RestingOrder.key ++ (e.cancel id).engine.book.keys) :=
      h.counts.perm hkeys
    rw [hc.clientResting]
    exact hcounts.unrestAll hstp
      (fun o _ => (hkeys.count_eq o.key).symm.trans_le (h.bound o.key))
  · intro k
    refine Nat.le_trans ?_ (h.bound k)
    rw [hkeys.count_eq]
    exact List.count_le_count_cons

theorem exec_indexSound (hw : e.book.WellFormed) (h : e.IndexSound)
    (hstp : e.stp.enabled = true) {command : EngineCommand} (hroom : e.RoomToCount command) :
    (e.exec command).engine.IndexSound := by
  apply exec_induction (Q := IndexSound) hw h command
  · intro order hcommand _ ha
    exact submit_indexSound h hstp (hcommand ▸ hroom) ha
  · intro id s x _ hc
    exact cancel_indexSound hw h hstp hc

end Steps

theorem indexSound_new (raw : Memory) (capacity : UInt64) (stp : StpConfig) :
    (new raw capacity stp).IndexSound := by
  have hkeys : (new raw capacity stp).book.keys = [] := by
    have hempty := OrderBook.WellFormed.resting_new raw capacity
    show ((OrderBook.new raw capacity).resting .buy ++
      (OrderBook.new raw capacity).resting .sell).map RestingOrder.key = []
    rw [hempty, hempty]
    rfl
  constructor
  · rw [hkeys]
    exact ClientIndex.Counts.nil
  · intro k
    rw [hkeys]
    exact Nat.zero_le _

theorem run_indexSound {raw : Memory} {capacity : UInt64} {stp : StpConfig}
    {commands : List EngineCommand} (hstp : stp.enabled = true)
    (hroom : forall v, v ∈ (new raw capacity stp).visits commands -> v.1.RoomToCount v.2) :
    ((new raw capacity stp).run commands).IndexSound := by
  have hstep : forall (e : MatchingEngine) (command : EngineCommand),
      (e.book.WellFormed ∧ e.stp = stp ∧ e.IndexSound) -> e.RoomToCount command ->
      ((e.exec command).engine.book.WellFormed ∧ (e.exec command).engine.stp = stp ∧
        (e.exec command).engine.IndexSound) := by
    rintro e command ⟨hw, hkept, h⟩ hcommand
    refine ⟨exec_wellFormed hw command, ?_, exec_indexSound hw h (hkept ▸ hstp) hcommand⟩
    exact exec_induction (Q := fun e => e.stp = stp) hw hkept command
      (fun _ _ _ ha => ha.stp.trans hkept) (fun _ _ _ _ hc => hc.stp.trans hkept)
  have hstart : (new raw capacity stp).book.WellFormed ∧ (new raw capacity stp).stp = stp ∧
      (new raw capacity stp).IndexSound :=
    ⟨OrderBook.WellFormed.new raw capacity, rfl, indexSound_new raw capacity stp⟩
  exact (Machine.run_invariant_of hstep hstart hroom).right.right

/-!
## The self-cross check
-/

/-- An incoming order of a side crosses a resting price: within its limit, if it has one. -/
def crosses (side : Side) (limitPrice : Option Price) (price : Price) : Prop :=
  forall limit, limitPrice = some limit ->
    match side with
    | .buy => price <= limit
    | .sell => limit <= price

def SelfCrosses (e : MatchingEngine) (side : Side) (owner : ClientId)
    (limitPrice : Option Price) : Prop :=
  exists o, o ∈ e.book.resting side.opposite ∧ o.owner = owner ∧
    crosses side limitPrice o.price

def Rests (e : MatchingEngine) (owner : ClientId) (s : Side) (p : Price) : Prop :=
  e.clientResting.count? ⟨owner, s, p⟩ ≠ none

variable {e : MatchingEngine} {limitPrice : Option Price}

theorem rests_iff (hw : e.book.WellFormed)
    (h : ClientIndex.Counts e.clientResting e.book.keys) (owner : ClientId) (s : Side)
    (p : Price) :
    e.Rests owner s p <->
      exists o, o ∈ e.book.resting s ∧ o.owner = owner ∧ o.price = p := by
  unfold Rests
  rw [h.ne_none_iff, (e.book.keys_perm s).mem_iff, List.mem_append, List.mem_map, List.mem_map]
  constructor
  · rintro (⟨o, ho, hkey⟩ | ⟨o, ho, hkey⟩)
    · exact ⟨o, ho, congrArg RestKey.owner hkey, congrArg RestKey.price hkey⟩
    · have hside := hw.resting_side ho
      have hs : o.side = s := congrArg RestKey.side hkey
      exact absurd (hside.symm.trans hs) (Side.opposite_ne s)
  · rintro ⟨o, ho, rfl, rfl⟩
    left
    refine ⟨o, ho, ?_⟩
    rw [← hw.resting_side ho]
    rfl

theorem selfCrosses_iff (hw : e.book.WellFormed)
    (h : ClientIndex.Counts e.clientResting e.book.keys) (side : Side) (owner : ClientId)
    (limitPrice : Option Price) :
    e.SelfCrosses side owner limitPrice <->
      exists p, e.Rests owner side.opposite p ∧ crosses side limitPrice p := by
  constructor
  · rintro ⟨o, ho, howner, hcross⟩
    exact ⟨o.price, (rests_iff hw h _ _ _).mpr ⟨o, ho, howner, rfl⟩, hcross⟩
  · rintro ⟨p, hrests, hcross⟩
    rcases (rests_iff hw h _ _ _).mp hrests with ⟨o, ho, howner, rfl⟩
    exact ⟨o, ho, howner, hcross⟩

theorem crosses_buy_iff {price : Price} :
    (match limitPrice with
      | none => true
      | some limit => decide (price <= limit)) = true <-> crosses .buy limitPrice price := by
  cases limitPrice <;> simp [crosses]

theorem crosses_sell_iff {price : Price} :
    (match limitPrice with
      | none => true
      | some limit => decide (limit <= price)) = true <-> crosses .sell limitPrice price := by
  cases limitPrice <;> simp [crosses]

/-- The best own price decides for all own prices. -/
theorem wouldSelfCross_iff_rests (e : MatchingEngine) (side : Side) (owner : ClientId)
    (limitPrice : Option Price) :
    e.wouldSelfCross side owner limitPrice = true <->
      exists p, e.Rests owner side.opposite p ∧ crosses side limitPrice p := by
  unfold wouldSelfCross Rests ClientIndex.count?
  cases hcrp : e.clientResting owner with
  | none => simp [hcrp]
  | some crp =>
      simp only [hcrp, Option.bind_some]
      cases side with
      | buy =>
          show _ <-> exists p, crp.asks.find? p ≠ none ∧ _
          cases hfirst : crp.asks.first? with
          | none => simp [(SortedMap.first?_eq_none_iff _).mp hfirst]
          | some entry =>
              rcases SortedMap.first?_spec hfirst with ⟨hfind, hleast⟩
              refine crosses_buy_iff.trans ⟨fun h => ⟨entry.1, by simp [hfind], h⟩, ?_⟩
              rintro ⟨p, hp, hcross⟩ limit hlimit
              rcases Option.ne_none_iff_exists'.mp hp with ⟨n, hn⟩
              have hle : entry.1 <= p := by
                rcases hleast p n hn with heq | hlt
                · exact le_of_eq heq.symm
                · exact le_of_lt hlt
              exact le_trans hle (hcross limit hlimit)
      | sell =>
          show _ <-> exists p, crp.bids.find? p ≠ none ∧ _
          cases hlast : crp.bids.last? with
          | none => simp [(SortedMap.last?_eq_none_iff _).mp hlast]
          | some entry =>
              rcases SortedMap.last?_spec hlast with ⟨hfind, hgreatest⟩
              refine crosses_sell_iff.trans ⟨fun h => ⟨entry.1, by simp [hfind], h⟩, ?_⟩
              rintro ⟨p, hp, hcross⟩ limit hlimit
              rcases Option.ne_none_iff_exists'.mp hp with ⟨n, hn⟩
              have hle : p <= entry.1 := by
                rcases hgreatest p n hn with heq | hlt
                · exact le_of_eq heq
                · exact le_of_lt hlt
              exact le_trans (hcross limit hlimit) hle

theorem wouldSelfCross_eq_false {side : Side} {owner : ClientId}
    (h : forall p, ¬ e.Rests owner side.opposite p) :
    e.wouldSelfCross side owner limitPrice = false := by
  rw [← Bool.not_eq_true, wouldSelfCross_iff_rests]
  rintro ⟨p, hrests, -⟩
  exact h p hrests

theorem wouldSelfCross_of_foreign (hw : e.book.WellFormed)
    (h : ClientIndex.Counts e.clientResting e.book.keys) {side : Side} {owner : ClientId}
    (hforeign : forall o, o ∈ e.book.resting side.opposite -> o.owner ≠ owner) :
    e.wouldSelfCross side owner limitPrice = false := by
  apply wouldSelfCross_eq_false
  intro p hrests
  rcases (rests_iff hw h _ _ _).mp hrests with ⟨o, ho, howner, -⟩
  exact hforeign o ho howner

/-- The index is exact, and the check on it agrees with a walk over the book. -/
structure IndexExact (e : MatchingEngine) : Prop where
  /-- The recorded numbers are those of the resting orders; absent means none. -/
  counts : forall owner s p,
    ((e.clientResting owner).bind (fun crp => (crp.prices s).find? p)).map UInt32.toNat =
      let resting := (e.book.resting s).filter
        (fun o => decide (o.owner = owner ∧ o.price = p))
      if resting.length = 0 then none else some resting.length
  noZero : forall owner crp s p n, e.clientResting owner = some crp ->
    (crp.prices s).find? p = some n -> n ≠ 0
  noIdle : forall owner, e.clientResting owner ≠ none ->
    exists s o, o ∈ e.book.resting s ∧ o.owner = owner
  check : forall side owner limitPrice,
    e.wouldSelfCross side owner limitPrice = true <-> e.SelfCrosses side owner limitPrice

theorem count_keys {b : OrderBook} (hw : b.WellFormed) (owner : ClientId) (s : Side)
    (p : Price) :
    b.keys.count ⟨owner, s, p⟩ =
      ((b.resting s).filter (fun o => decide (o.owner = owner ∧ o.price = p))).length := by
  have hother : ((b.resting s.opposite).map RestingOrder.key).count ⟨owner, s, p⟩ = 0 := by
    apply List.count_eq_zero.mpr
    intro hmem
    rcases List.mem_map.mp hmem with ⟨o, ho, hkey⟩
    have hs : o.side = s := congrArg RestKey.side hkey
    exact Side.opposite_ne s ((hw.resting_side ho).symm.trans hs)
  rw [(b.keys_perm s).count_eq, List.count_append, hother, Nat.add_zero,
    List.count_eq_countP, List.countP_map, ← List.countP_eq_length_filter]
  apply List.countP_congr
  intro o ho
  have hs := hw.resting_side ho
  simp only [Function.comp_apply, beq_iff_eq, decide_eq_true_eq]
  constructor
  · intro hkey
    exact ⟨congrArg RestKey.owner hkey, congrArg RestKey.price hkey⟩
  · rintro ⟨rfl, rfl⟩
    rw [← hs]
    rfl

theorem IndexSound.exact (h : e.IndexSound) (hw : e.book.WellFormed)
    (hbound : forall k, e.book.keys.count k < 2 ^ 32) : e.IndexExact where
  counts owner s p := by
    have hcount := h.counts.count_eq ⟨owner, s, p⟩
    have htoNat := UInt32.toNat_ofNat_of_lt' (hbound ⟨owner, s, p⟩)
    unfold ClientIndex.count? at hcount
    dsimp only at hcount ⊢
    rw [hcount, ← count_keys hw]
    split
    · rfl
    · rw [Option.map_some, htoNat]
  noZero owner crp s p n hcrp hfind := by
    have hcount := h.counts.count_eq ⟨owner, s, p⟩
    have htoNat := UInt32.toNat_ofNat_of_lt' (hbound ⟨owner, s, p⟩)
    have hn : e.clientResting.count? ⟨owner, s, p⟩ = some n := by
      unfold ClientIndex.count?
      rw [hcrp]
      exact hfind
    rw [hn] at hcount
    intro hzero
    split at hcount
    · cases hcount
    · next hpos =>
        rw [Option.some.injEq] at hcount
        rw [← hcount, hzero] at htoNat
        exact hpos htoNat.symm
  noIdle owner howner := by
    rcases h.counts.active owner howner with ⟨k, hk, hcount⟩
    rcases (rests_iff hw h.counts k.owner k.side k.price).mp hcount with ⟨o, ho, hown, -⟩
    exact ⟨k.side, o, ho, hown.trans hk⟩
  check side owner limitPrice :=
    (wouldSelfCross_iff_rests e side owner limitPrice).trans
      (selfCrosses_iff hw h.counts side owner limitPrice).symm

end MatchingEngine

theorem run_count_keys_lt (raw : Memory) {capacity : UInt64} (stp : StpConfig)
    (hcapacity : capacity.toNat < 2 ^ 32) (commands : List EngineCommand) (k : RestKey) :
    ((MatchingEngine.new raw capacity stp).run commands).book.keys.count k < 2 ^ 32 := by
  have hle := (MatchingEngine.run_wellFormed raw capacity stp commands).count_keys_le k
  rw [MatchingEngine.run_capacity] at hle
  exact Nat.lt_of_le_of_lt hle hcapacity

theorem visits_roomToCount (raw : Memory) {capacity : UInt64} (stp : StpConfig)
    (hcapacity : capacity.toNat < 2 ^ 32) {commands : List EngineCommand}
    {v : MatchingEngine × EngineCommand}
    (hv : v ∈ (MatchingEngine.new raw capacity stp).visits commands) :
    v.1.RoomToCount v.2 := by
  intro order _
  rcases MatchingEngine.visits_run hv with ⟨before, hstate⟩
  rw [hstate]
  exact run_count_keys_lt raw stp hcapacity before _

/-- With fewer than 2^32 slots the index of every enabled run is exact. -/
theorem run_indexExact (raw : Memory) (capacity : UInt64) (stp : StpConfig)
    (commands : List EngineCommand) (hstp : stp.enabled = true)
    (hcapacity : capacity.toNat < 2 ^ 32) :
    ((MatchingEngine.new raw capacity stp).run commands).IndexExact :=
  (MatchingEngine.run_indexSound hstp (fun _ => visits_roomToCount raw stp hcapacity)).exact
    (MatchingEngine.run_wellFormed raw capacity stp commands)
    (run_count_keys_lt raw stp hcapacity commands)

def requotedAsk : List EngineCommand :=
  [.limit { id := ⟨1⟩, side := .sell, price := ⟨101⟩, quantity := ⟨5⟩, owner := ⟨1⟩ },
    .limit { id := ⟨2⟩, side := .sell, price := ⟨101⟩, quantity := ⟨7⟩, owner := ⟨1⟩ },
    .market { id := ⟨1⟩, side := .buy, quantity := ⟨5⟩, owner := ⟨2⟩ }]

theorem run_indexExact_requotedAsk :
    ((MatchingEngine.new Memory.zeroed 4 { enabled := true }).run requotedAsk).IndexExact :=
  run_indexExact Memory.zeroed 4 { enabled := true } requotedAsk rfl (by decide)

end MiniExchange
