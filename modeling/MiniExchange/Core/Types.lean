import Mathlib.Algebra.Ring.Nat
import Mathlib.Order.Lattice

/-!
# Domain primitives

The strong type wrappers of `core/Types.hpp`.  Every wrapper keeps the
fixed-width integer of the source, so quantities wrap modulo 2^64 and prices
are signed 64-bit ticks.
-/

namespace MiniExchange

structure OrderId where
  value : UInt64
deriving DecidableEq, Repr

structure ClientId where
  value : UInt64
deriving DecidableEq, Repr

/-- Price in integer ticks; resting orders have a positive one. -/
structure Price where
  value : Int64
deriving DecidableEq, Repr

structure Quantity where
  value : UInt64
deriving DecidableEq, Repr

/-- Insertion order of resting orders, for FIFO tie-breaking. -/
structure Sequence where
  value : UInt64
deriving DecidableEq, Repr

structure TradeSequence where
  value : UInt64
deriving DecidableEq, Repr

structure SymbolId where
  value : UInt32
deriving DecidableEq, Repr

inductive Side where
  | buy
  | sell
deriving DecidableEq, Repr

inductive StpPolicy where
  | rejectIncoming
  | cancelResting
deriving DecidableEq, Repr

/-- The slice of the risk configuration that the engine itself executes. -/
structure StpConfig where
  enabled : Bool := false
  policy : StpPolicy := .rejectIncoming
deriving DecidableEq, Repr

/-!
## Prices

The comparison operators compare the signed ticks.
-/

namespace Price

def ticks (p : Price) : Int :=
  p.value.toInt

theorem ticks_injective : Function.Injective ticks := by
  intro p q h
  cases p
  cases q
  simpa [ticks, Int64.toInt_inj] using h

instance : LinearOrder Price :=
  LinearOrder.lift' ticks ticks_injective

/-- The price zero, which the engine reports for market orders. -/
def zero : Price := ⟨0⟩

end Price

/-!
## Quantities

Comparison is that of the unsigned values; addition and subtraction wrap.
-/

namespace Quantity

def units (q : Quantity) : Nat :=
  q.value.toNat

theorem units_injective : Function.Injective units := by
  intro p q h
  cases p
  cases q
  simpa [units, UInt64.toNat_inj] using h

instance : LinearOrder Quantity :=
  LinearOrder.lift' units units_injective

theorem lt_iff {p q : Quantity} : p < q <-> p.units < q.units := Iff.rfl

theorem le_iff {p q : Quantity} : p <= q <-> p.units <= q.units := Iff.rfl

def zero : Quantity := ⟨0⟩

instance : Add Quantity := ⟨fun p q => ⟨p.value + q.value⟩⟩

instance : Sub Quantity := ⟨fun p q => ⟨p.value - q.value⟩⟩

@[simp] theorem units_zero : zero.units = 0 := rfl

theorem units_lt (q : Quantity) : q.units < 2 ^ 64 :=
  q.value.toNat_lt

theorem units_add (p q : Quantity) :
    (p + q).units = (p.units + q.units) % 2 ^ 64 :=
  UInt64.toNat_add p.value q.value

theorem units_sub_of_le {p q : Quantity} (h : q <= p) :
    (p - q).units = p.units - q.units :=
  UInt64.toNat_sub_of_le p.value q.value (UInt64.le_iff_toNat_le.mpr h)

theorem units_sub (p q : Quantity) :
    (p - q).units = (2 ^ 64 - q.units + p.units) % 2 ^ 64 :=
  UInt64.toNat_sub p.value q.value

theorem units_add_mod {total q : Quantity} {n : Nat}
    (h : total.units = n % 2 ^ 64) :
    (total + q).units = (n + q.units) % 2 ^ 64 := by
  rw [units_add, h, Nat.mod_add_mod]

theorem units_sub_mod {total q : Quantity} {n : Nat}
    (h : total.units = n % 2 ^ 64) (hq : q.units <= n) :
    (total - q).units = (n - q.units) % 2 ^ 64 := by
  have hlt := units_lt q
  rw [units_sub, h]
  omega

theorem zero_lt_iff {q : Quantity} : zero < q <-> 0 < q.units := Iff.rfl

theorem sub_self (q : Quantity) : q - q = zero := by
  apply units_injective
  rw [units_sub_of_le le_rfl, Nat.sub_self]
  rfl

theorem sub_ne_zero {p q : Quantity} (h : q < p) : p - q ≠ zero := by
  intro hzero
  have hunits := units_sub_of_le (le_of_lt h)
  rw [hzero, units_zero] at hunits
  rw [lt_iff] at h
  omega

theorem not_pos_iff {q : Quantity} :
    ¬ zero < q <-> q = zero := by
  constructor
  · intro h
    apply units_injective
    rw [zero_lt_iff] at h
    simpa using h
  · intro h
    rw [h]
    exact lt_irrefl _

theorem pos_of_ne_zero {q : Quantity} (h : ¬ q = zero) :
    zero < q := by
  by_contra hpos
  exact h (not_pos_iff.mp hpos)

end Quantity

/-!
## Sequence counters

Post-increment wraps at 2^64, as the source's `operator++` does.
-/

namespace Sequence

def index (s : Sequence) : Nat :=
  s.value.toNat

theorem index_injective : Function.Injective index := by
  intro p q h
  cases p
  cases q
  simpa [index, UInt64.toNat_inj] using h

instance : LinearOrder Sequence :=
  LinearOrder.lift' index index_injective

theorem lt_iff {p q : Sequence} : p < q <-> p.index < q.index := Iff.rfl

def next (s : Sequence) : Sequence := ⟨s.value + 1⟩

end Sequence

namespace TradeSequence

def next (s : TradeSequence) : TradeSequence := ⟨s.value + 1⟩

/-- Value of the counter after `n` increments. -/
def advance (s : TradeSequence) (n : Nat) : TradeSequence :=
  ⟨s.value + UInt64.ofNat n⟩

@[simp] theorem advance_zero (s : TradeSequence) : s.advance 0 = s := by
  cases s
  simp [advance]

theorem next_advance (s : TradeSequence) (n : Nat) :
    s.next.advance n = s.advance (n + 1) := by
  cases s
  simp [advance, next, UInt64.add_assoc, UInt64.add_comm]

theorem advance_advance (s : TradeSequence) (m n : Nat) :
    (s.advance m).advance n = s.advance (m + n) := by
  simp [advance, UInt64.add_assoc]

end TradeSequence

/-!
## Sides

A side's own price priority: bids are ranked by descending price, asks by
ascending price.
-/

namespace Side

def opposite : Side -> Side
  | buy => sell
  | sell => buy

@[simp] theorem opposite_opposite (s : Side) : s.opposite.opposite = s := by
  cases s <;> rfl

@[simp] theorem opposite_ne (s : Side) : s.opposite ≠ s := by
  cases s <;> decide

@[simp] theorem ne_opposite (s : Side) : s ≠ s.opposite := by
  cases s <;> decide

theorem eq_or_eq_opposite (s t : Side) : t = s ∨ t = s.opposite := by
  cases s <;> cases t <;> decide

/-- Price `p` has strictly higher priority than `q` on this side. -/
def better : Side -> Price -> Price -> Prop
  | buy, p, q => q < p
  | sell, p, q => p < q

instance (s : Side) : DecidableRel s.better := fun p q =>
  match s with
  | buy => inferInstanceAs (Decidable (q < p))
  | sell => inferInstanceAs (Decidable (p < q))

instance (s : Side) : IsStrictTotalOrder Price s.better where
  irrefl p := by
    cases s <;> exact lt_irrefl p
  trans p q r hpq hqr := by
    cases s
    · exact lt_trans hqr hpq
    · exact lt_trans hpq hqr
  trichotomous p q hpq hqp := by
    cases s
    · exact le_antisymm (not_lt.mp hpq) (not_lt.mp hqp)
    · exact le_antisymm (not_lt.mp hqp) (not_lt.mp hpq)

theorem not_better_iff {s : Side} {p q : Price} :
    ¬ s.better p q <-> p = q ∨ s.better q p := by
  cases s with
  | buy => exact not_lt.trans (le_iff_eq_or_lt.trans Iff.rfl)
  | sell =>
      exact not_lt.trans (le_iff_eq_or_lt.trans (by rw [eq_comm]; exact Iff.rfl))

end Side

end MiniExchange
