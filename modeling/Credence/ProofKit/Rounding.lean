import Mathlib.Algebra.Order.Floor.Ring
import Mathlib.Algebra.Order.Floor.Semifield
import Mathlib.Tactic.Ring

/-! Rounding of a number of an ordered field to an integer, by a rule on its integer part and its
fractional part. -/

namespace Credence.ProofKit

variable {K : Type*} [Field K] [LinearOrder K] [FloorRing K]

section

variable (up : ℤ → K → Prop) [∀ n f, Decidable (up n f)]

def roundBy (x : K) : ℤ := ⌊x⌋ + if up ⌊x⌋ (Int.fract x) then 1 else 0

theorem floor_le_roundBy (x : K) : ⌊x⌋ ≤ roundBy up x := by
  unfold roundBy
  split <;> omega

theorem roundBy_le_floor_add_one (x : K) : roundBy up x ≤ ⌊x⌋ + 1 := by
  unfold roundBy
  split <;> omega

variable {up} [IsStrictOrderedRing K]

theorem roundBy_mono (hu : ∀ n f g, f ≤ g → up n f → up n g) {x y : K} (hl : x ≤ y) :
    roundBy up x ≤ roundBy up y := by
  rcases (Int.floor_mono hl).lt_or_eq with hLt | he
  · calc roundBy up x ≤ ⌊x⌋ + 1 := roundBy_le_floor_add_one up x
      _ ≤ ⌊y⌋ := hLt
      _ ≤ roundBy up y := floor_le_roundBy up y
  · have hf : Int.fract x ≤ Int.fract y := by
      rw [Int.fract, Int.fract, he]
      linarith
    unfold roundBy
    rw [he]
    by_cases hx : up ⌊y⌋ (Int.fract x)
    · rw [if_pos hx, if_pos (hu _ _ _ hf hx)]
    · rw [if_neg hx]
      split <;> omega

theorem roundBy_intCast (h : ∀ n, ¬ up n 0) (n : ℤ) : roundBy up (n : K) = n := by
  simp [roundBy, h]

theorem abs_roundBy_sub_le (h : ∀ n f, up n f ↔ 1 / 2 ≤ f) (x : K) :
    |(roundBy up x : K) - x| ≤ 1 / 2 := by
  have hs := Int.floor_add_fract x
  have hn := Int.fract_nonneg x
  have hl := Int.fract_lt_one x
  unfold roundBy
  rw [abs_le]
  by_cases hu : up ⌊x⌋ (Int.fract x)
  · have hh := (h _ _).mp hu
    rw [if_pos hu]
    push_cast
    constructor <;> linarith
  · have hh := not_le.mp (mt (h _ _).mpr hu)
    rw [if_neg hu]
    push_cast
    constructor <;> linarith

end

variable [IsStrictOrderedRing K]

theorem floor_div_natCast (num den : Nat) : ⌊(num : K) / den⌋ = ((num / den : Nat) : ℤ) := by
  rw [← Int.natCast_floor_eq_floor (by positivity), Nat.floor_div_eq_div]

theorem fract_div_natCast (num : Nat) {den : Nat} (hd : 0 < den) :
    Int.fract ((num : K) / den) = ((num % den : Nat) : K) / den := by
  have hp : (0 : K) < den := by exact_mod_cast hd
  have hs : (num : K) = den * (num / den : Nat) + (num % den : Nat) := by
    exact_mod_cast (Nat.div_add_mod num den).symm
  rw [Int.fract, floor_div_natCast, Int.cast_natCast, sub_eq_iff_eq_add]
  field_simp
  rw [hs]
  ring

end Credence.ProofKit
