import MiniExchange.Foundation.Machine
import MiniExchange.OrderBook.Operations

/-!
# Histories of a price level

A level of `orderbook/price_level.cpp` under any sequence of its operations,
against a list to which slots are appended and from which they are deleted.
-/

namespace MiniExchange

open Foundation
open Foundation.IntrusiveList

inductive LevelMove where
  | pushBack (x : Slot)
  | remove (x : Slot)
  /-- A fill: the order and the level lose the same quantity. -/
  | reduce (x : Slot) (qty : Quantity)

structure LevelHistory where
  level : PriceLevel
  mem : Memory

namespace LevelHistory

def new (price : Price) (raw : Memory) : LevelHistory where
  level := PriceLevel.new price
  mem := raw

def step (self : LevelPtr) (s : LevelHistory) : LevelMove -> LevelHistory
  | .pushBack x =>
      { level := (s.level.pushBack self x s.mem).1, mem := (s.level.pushBack self x s.mem).2 }
  | .remove x =>
      { level := (s.level.remove x s.mem).1, mem := (s.level.remove x s.mem).2 }
  | .reduce x qty =>
      { level := s.level.reduceQuantity qty
        mem := s.mem.modify x (fun o => { o with quantity := o.quantity - qty }) }

def run (self : LevelPtr) (s : LevelHistory) (moves : List LevelMove) : LevelHistory :=
  Machine.run (step self) s moves

end LevelHistory

/-- What a level is for: a list of slots, apart from what the orders hold. -/
structure LevelSpec where
  queue : List Slot
  /-- The slots that were removed and not appended again. -/
  removed : List Slot
  orders : Slot -> RestingOrder

namespace LevelSpec

def new (raw : Memory) : LevelSpec where
  queue := []
  removed := []
  orders := fun x => (raw x).toRestingOrder

def step (a : LevelSpec) : LevelMove -> LevelSpec
  | .pushBack x =>
      { a with queue := a.queue ++ [x], removed := a.removed.filter (fun y => y ≠ x) }
  | .remove x => { a with queue := a.queue.erase x, removed := x :: a.removed }
  | .reduce x qty =>
      { a with
        orders := Function.update a.orders x
          { a.orders x with quantity := (a.orders x).quantity - qty } }

def run (a : LevelSpec) (moves : List LevelMove) : LevelSpec :=
  Machine.run step a moves

def visits (a : LevelSpec) (moves : List LevelMove) : List (LevelSpec × LevelMove) :=
  Machine.visits step a moves

/-- Appended orders are not linked, the others are members; a fill leaves no debt. -/
def Allowed (a : LevelSpec) : LevelMove -> Prop
  | .pushBack x => x ∉ a.queue
  | .remove x => x ∈ a.queue
  | .reduce x qty => x ∈ a.queue ∧ qty <= (a.orders x).quantity

instance (a : LevelSpec) : (m : LevelMove) -> Decidable (a.Allowed m)
  | .pushBack x => inferInstanceAs (Decidable (x ∉ a.queue))
  | .remove x => inferInstanceAs (Decidable (x ∈ a.queue))
  | .reduce x qty =>
      inferInstanceAs (Decidable (x ∈ a.queue ∧ qty <= (a.orders x).quantity))

end LevelSpec

def Order.Unlinked (o : Order) : Prop :=
  o.prev = none ∧ o.next = none ∧ o.level = none

theorem Order.eq_of_parts {o o' : Order} (hdata : o.toRestingOrder = o'.toRestingOrder)
    (hprev : o.prev = o'.prev) (hnext : o.next = o'.next) (hlevel : o.level = o'.level) :
    o = o' := by
  cases o
  cases o'
  cases hdata
  cases hprev
  cases hnext
  cases hlevel
  rfl

/-!
## What the operations leave alone
-/

namespace QueueRep

variable {mem : Memory} {p : Price} {l : PriceLevel} {xs : List Slot} {x y : Slot}

theorem pushBack_frame {self : LevelPtr} (h : QueueRep mem p l xs) (hy : y ∉ xs) (hne : y ≠ x) :
    (l.pushBack self x mem).2 y = mem y := by
  have htail : l.tail ≠ some y := by
    intro heq
    rw [h.linked.tail_eq] at heq
    exact hy (List.mem_of_getLast? heq)
  apply Order.eq_of_parts
  · exact PriceLevel.pushBack_data l self x mem y
  · rw [PriceLevel.pushBack_prev, if_neg hne]
  · rw [PriceLevel.pushBack_next, if_neg htail, if_neg hne]
  · rw [PriceLevel.pushBack_level, if_neg hne]

theorem remove_frame_eq (h : QueueRep mem p l xs) (hx : x ∈ xs) (hy : y ∉ xs) :
    (l.remove x mem).2 y = mem y := by
  have hlinks := h.remove_frame hx hy
  apply Order.eq_of_parts
  · exact PriceLevel.remove_data l x mem y
  · exact hlinks.left
  · exact hlinks.right
  · exact PriceLevel.remove_level l x mem fun heq => hy (heq ▸ hx)

end QueueRep

theorem PriceLevel.remove_unlinked (l : PriceLevel) (x : Slot) (mem : Memory) :
    ((l.remove x mem).2 x).Unlinked := by
  unfold PriceLevel.remove Order.Unlinked
  simp [Memory.modify_apply]

/-!
## Refinement
-/

structure Refines (address : LevelPtr) (price : Price) (raw : Memory) (s : LevelHistory)
    (a : LevelSpec) : Prop where
  queue : QueueRep s.mem price s.level a.queue
  nodup : a.queue.Nodup
  level : forall x, x ∈ a.queue -> (s.mem x).level = some address
  unlinked : forall x, x ∈ a.removed -> x ∉ a.queue ∧ (s.mem x).Unlinked
  orders : forall x, (s.mem x).toRestingOrder = a.orders x
  untouched : forall x, x ∉ a.queue -> x ∉ a.removed -> s.mem x = raw x

theorem refines_new (address : LevelPtr) (price : Price) (raw : Memory) :
    Refines address price raw (LevelHistory.new price raw) (LevelSpec.new raw) where
  queue := QueueRep.new
  nodup := List.nodup_nil
  level := fun _ hx => absurd hx List.not_mem_nil
  unlinked := fun _ hx => absurd hx List.not_mem_nil
  orders := fun _ => rfl
  untouched := fun _ _ _ => rfl

namespace Refines

variable {address : LevelPtr} {price : Price} {raw : Memory} {s : LevelHistory} {a : LevelSpec}
  {x : Slot}

theorem pushBack (h : Refines address price raw s a) (hx : x ∉ a.queue) :
    Refines address price raw (s.step address (.pushBack x))
      (a.step (.pushBack x)) := by
  constructor
  case queue => exact h.queue.pushBack h.nodup hx
  case nodup =>
    show (a.queue ++ [x]).Nodup
    rw [List.nodup_append]
    refine ⟨h.nodup, List.nodup_singleton x, ?_⟩
    intro y hy z hz heq
    rw [List.mem_singleton.mp hz] at heq
    exact hx (heq ▸ hy)
  case level =>
    intro y hy
    show ((s.level.pushBack address x s.mem).2 y).level = some address
    rw [PriceLevel.pushBack_level]
    split
    · rfl
    · next hne =>
        rcases List.mem_append.mp hy with hold | hnew
        · exact h.level y hold
        · exact absurd (List.mem_singleton.mp hnew) hne
  case unlinked =>
    intro y hy
    rcases List.mem_filter.mp hy with ⟨hremoved, hne⟩
    replace hne : y ≠ x := by simpa using hne
    rcases h.unlinked y hremoved with ⟨hold, hfree⟩
    refine ⟨?_, ?_⟩
    · intro hmem
      rcases List.mem_append.mp hmem with hin | hnew
      · exact hold hin
      · exact hne (List.mem_singleton.mp hnew)
    · show ((s.level.pushBack address x s.mem).2 y).Unlinked
      rw [h.queue.pushBack_frame hold hne]
      exact hfree
  case orders =>
    intro y
    exact (PriceLevel.pushBack_data s.level address x s.mem y).trans (h.orders y)
  case untouched =>
    intro y hy hremoved
    have hne : y ≠ x := fun heq => hy (List.mem_append_right _ (heq ▸ List.mem_cons_self))
    have hold : y ∉ a.queue := fun hin => hy (List.mem_append_left _ hin)
    have hstill : y ∉ a.removed := fun hin =>
      hremoved (List.mem_filter.mpr ⟨hin, by simpa using hne⟩)
    exact (h.queue.pushBack_frame hold hne).trans (h.untouched y hold hstill)

theorem remove (h : Refines address price raw s a) (hx : x ∈ a.queue) :
    Refines address price raw (s.step address (.remove x))
      (a.step (.remove x)) := by
  constructor
  case queue => exact h.queue.remove h.nodup hx
  case nodup => exact h.nodup.erase x
  case level =>
    intro y hy
    have hne : y ≠ x := fun heq => h.nodup.not_mem_erase (heq ▸ hy)
    exact (PriceLevel.remove_level s.level x s.mem hne).trans
      (h.level y (List.mem_of_mem_erase hy))
  case unlinked =>
    intro y hy
    by_cases heq : y = x
    · rw [heq]
      exact ⟨h.nodup.not_mem_erase, PriceLevel.remove_unlinked s.level x s.mem⟩
    · have hremoved : y ∈ a.removed := List.mem_of_ne_of_mem heq hy
      rcases h.unlinked y hremoved with ⟨hold, hfree⟩
      refine ⟨fun hin => hold (List.mem_of_mem_erase hin), ?_⟩
      show ((s.level.remove x s.mem).2 y).Unlinked
      rw [h.queue.remove_frame_eq hx hold]
      exact hfree
  case orders =>
    intro y
    exact (PriceLevel.remove_data s.level x s.mem y).trans (h.orders y)
  case untouched =>
    intro y hy hremoved
    have hne : y ≠ x := fun heq => hremoved (heq ▸ List.mem_cons_self)
    have hold : y ∉ a.queue := fun hin => hy ((List.mem_erase_of_ne hne).mpr hin)
    have hstill : y ∉ a.removed := fun hin => hremoved (List.mem_cons_of_mem _ hin)
    exact (h.queue.remove_frame_eq hx hold).trans (h.untouched y hold hstill)

theorem reduce {qty : Quantity} (h : Refines address price raw s a) (hx : x ∈ a.queue)
    (hqty : qty <= (a.orders x).quantity) :
    Refines address price raw (s.step address (.reduce x qty))
      (a.step (.reduce x qty)) := by
  have hother : forall y, y ∉ a.queue ->
      (s.step address (.reduce x qty)).mem y = s.mem y := by
    intro y hy
    have hne : y ≠ x := fun heq => hy (heq ▸ hx)
    show s.mem.modify x (fun o => { o with quantity := o.quantity - qty }) y = s.mem y
    rw [Memory.modify_apply, if_neg hne]
  constructor
  case queue =>
    rw [← h.orders] at hqty
    exact h.queue.reduce h.nodup hx hqty
  case nodup => exact h.nodup
  case level =>
    intro y hy
    show (s.mem.modify x _ y).level = some address
    rw [Memory.modify_apply]
    split
    · exact h.level x hx
    · exact h.level y hy
  case unlinked =>
    intro y hy
    rcases h.unlinked y hy with ⟨hold, hfree⟩
    refine ⟨hold, ?_⟩
    rw [hother y hold]
    exact hfree
  case orders =>
    intro y
    show (s.mem.modify x _ y).toRestingOrder = Function.update a.orders x _ y
    rw [Memory.modify_apply, Function.update_apply, ← h.orders x, ← h.orders y]
    split <;> rfl
  case untouched =>
    intro y hy hremoved
    exact (hother y hy).trans (h.untouched y hy hremoved)

theorem step {m : LevelMove} (h : Refines address price raw s a) (hallowed : a.Allowed m) :
    Refines address price raw (s.step address m) (a.step m) := by
  cases m with
  | pushBack x => exact h.pushBack hallowed
  | remove x => exact h.remove hallowed
  | reduce x qty => exact h.reduce hallowed.left hallowed.right

end Refines

theorem refines_run (address : LevelPtr) (price : Price) (raw : Memory) {moves : List LevelMove}
    (hallowed : forall v, v ∈ (LevelSpec.new raw).visits moves -> v.1.Allowed v.2) :
    Refines address price raw ((LevelHistory.new price raw).run address moves)
      ((LevelSpec.new raw).run moves) :=
  Machine.run_related (fun _ _ _ h hok => h.step hok) (refines_new address price raw) hallowed

/--
After any operations a level is the list of the slots that were appended and
not removed, in both directions, and the rest of the memory is as it was.
-/
theorem level_implements_list (address : LevelPtr) (price : Price) (raw : Memory)
    (moves : List LevelMove)
    (hallowed : forall v, v ∈ (LevelSpec.new raw).visits moves -> v.1.Allowed v.2) :
    let s := (LevelHistory.new price raw).run address moves
    let a := (LevelSpec.new raw).run moves
    (forall fuel, a.queue.length <= fuel ->
        walk (fun x => (s.mem x).next) fuel s.level.head = a.queue ∧
          (walk (fun x => (s.mem x).prev) fuel s.level.tail).reverse = a.queue) ∧
      (forall x, x ∈ a.queue -> (s.mem x).level = some address) ∧
      (forall x, x ∈ a.removed -> (s.mem x).Unlinked) ∧
      s.level.totalQty.units = slotUnits s.mem a.queue % 2 ^ 64 ∧
      (forall x, (s.mem x).toRestingOrder = a.orders x) ∧
      forall x, x ∉ a.queue -> x ∉ a.removed -> s.mem x = raw x := by
  intro s a
  have h : Refines address price raw s a := refines_run address price raw hallowed
  refine ⟨?_, h.level, fun x hx => (h.unlinked x hx).right, h.queue.total, h.orders, h.untouched⟩
  intro fuel hfuel
  exact ⟨h.queue.linked.walk_eq hfuel, h.queue.linked.walk_back hfuel⟩

def fiveEach : Memory := fun x =>
  { Memory.zeroed x with quantity := ⟨5⟩ }

def threeOrders : List LevelMove :=
  [.pushBack 4, .pushBack 2, .pushBack 9, .reduce 2 ⟨3⟩, .remove 4]

theorem level_implements_threeOrders :
    let s := (LevelHistory.new ⟨100⟩ fiveEach).run ⟨.buy, ⟨100⟩⟩ threeOrders
    walk (fun x => (s.mem x).next) 2 s.level.head = [2, 9] ∧ s.level.totalQty.units = 7 :=
  have h := level_implements_list ⟨.buy, ⟨100⟩⟩ ⟨100⟩ fiveEach threeOrders (by decide)
  ⟨(h.left 2 (by decide)).left, h.right.right.right.left⟩

end MiniExchange
