import Mathlib.Algebra.Order.Ring.Abs
import Mathlib.Algebra.Order.Ring.Int

/-!
# Signed words

Signed 64-bit arithmetic in a language that gives overflow no meaning: an
operation has a result only if the exact result fits into the word.
-/

namespace MiniExchange
namespace Foundation
namespace SignedWord

def Fits (n : Int) : Prop :=
  -2 ^ 63 <= n ∧ n < 2 ^ 63

instance (n : Int) : Decidable (Fits n) :=
  inferInstanceAs (Decidable (_ ∧ _))

def checkedSub (a b : Int64) : Option Int64 :=
  if Fits (a.toInt - b.toInt) then some (a - b) else none

def checkedAbs (a : Int64) : Option Int64 :=
  if Fits |a.toInt| then some a.abs else none

theorem toInt_sub_of_fits {a b : Int64} (h : Fits (a.toInt - b.toInt)) :
    (a - b).toInt = a.toInt - b.toInt := by
  rcases h with ⟨hlow, hhigh⟩
  rw [Int64.toInt_sub]
  exact Int.bmod_eq_of_le (by omega) (by omega)

theorem toInt_add_of_fits {a b : Int64} (h : Fits (a.toInt + b.toInt)) :
    (a + b).toInt = a.toInt + b.toInt := by
  rcases h with ⟨hlow, hhigh⟩
  rw [Int64.toInt_add]
  exact Int.bmod_eq_of_le (by omega) (by omega)

theorem toInt_mul_of_fits {a b : Int64} (h : Fits (a.toInt * b.toInt)) :
    (a * b).toInt = a.toInt * b.toInt := by
  rcases h with ⟨hlow, hhigh⟩
  rw [Int64.toInt_mul]
  exact Int.bmod_eq_of_le (by omega) (by omega)

theorem toInt_neg_of_fits {a : Int64} (h : Fits (-a.toInt)) : (-a).toInt = -a.toInt := by
  rcases h with ⟨hlow, hhigh⟩
  rw [Int64.toInt_neg]
  exact Int.bmod_eq_of_le (by omega) (by omega)

theorem toInt_abs_of_fits {a : Int64} (h : Fits |a.toInt|) : a.abs.toInt = |a.toInt| := by
  have hmin : a.toBitVec ≠ BitVec.intMin 64 := by
    intro hmin
    have hvalue : a.toInt = -2 ^ 63 := by
      show a.toBitVec.toInt = _
      rw [hmin]
      rfl
    rw [hvalue] at h
    exact absurd h.right (by decide)
  show a.toBitVec.abs.toInt = |a.toBitVec.toInt|
  rw [BitVec.toInt_abs_eq_natAbs_of_ne_intMin hmin, Int.natCast_natAbs]

theorem checkedDistance_eq_some {a b d : Int64}
    (h : (checkedSub a b).bind checkedAbs = some d) :
    d = (a - b).abs ∧ d.toInt = |a.toInt - b.toInt| := by
  unfold checkedSub at h
  split at h
  · next hfits =>
      rw [Option.bind_some] at h
      unfold checkedAbs at h
      split at h
      · next habs =>
          cases h
          rw [toInt_abs_of_fits habs, toInt_sub_of_fits hfits]
          exact ⟨rfl, rfl⟩
      · cases h
  · cases h

theorem checkedDistance_isSome_iff (a b : Int64) :
    ((checkedSub a b).bind checkedAbs).isSome = true <-> |a.toInt - b.toInt| < 2 ^ 63 := by
  unfold checkedSub
  by_cases hfits : Fits (a.toInt - b.toInt)
  · rw [if_pos hfits, Option.bind_some]
    unfold checkedAbs
    rw [toInt_sub_of_fits hfits]
    have hdistance : Fits |a.toInt - b.toInt| <-> |a.toInt - b.toInt| < 2 ^ 63 :=
      ⟨fun h => h.right, fun hlt => ⟨Int.le_trans (by decide) (abs_nonneg _), hlt⟩⟩
    rw [← hdistance]
    split
    · next h => simp [h]
    · next h => simp [h]
  · have hfar : ¬ |a.toInt - b.toInt| < 2 ^ 63 := by
      intro hlt
      rcases abs_lt.mp hlt with ⟨hlow, hhigh⟩
      exact hfits ⟨Int.le_of_lt hlow, hhigh⟩
    rw [if_neg hfits]
    simpa using hfar

end SignedWord
end Foundation
end MiniExchange
