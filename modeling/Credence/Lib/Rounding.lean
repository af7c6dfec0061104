import Credence.Lib.DecimalExact
import Credence.ProofKit.Rounding
import Mathlib.Data.Rat.Floor

/-! Rounding in `src/lib/decimalMath.ts`, from a truncated quotient and its remainder;
`RoundingMode.round` is the rounding of a non-negative rational number that this computes. -/

namespace Credence.Lib.DecimalMath

open ProofKit

inductive RoundingMode where
  | halfUp
  | halfDown
  | halfEven
  | down
  | up

def applyDivisionRounding (truncated remainder divisor : Nat) (mode : RoundingMode) : Nat :=
  let twice := remainder * 2
  match mode with
  | .down => truncated
  | .up => if remainder > 0 then truncated + 1 else truncated
  | .halfUp => if twice ≥ divisor then truncated + 1 else truncated
  | .halfDown => if twice > divisor then truncated + 1 else truncated
  | .halfEven =>
    if twice > divisor then truncated + 1
    else if twice < divisor then truncated
    else if truncated % 2 = 0 then truncated else truncated + 1

/-- `roundToScale` on a string and a non-negative integer `scale`. -/
def roundToScale (value : String) (scale : Nat) (mode : RoundingMode) : Except String String := do
  let p ← parseDecimalString value
  if p.fracStr.length ≤ scale then
    let scaled := toScaledMagnitude p scale
    let formatted := formatScaledInt scaled scale
    return String.ofList (if p.negative && scaled ≠ 0 then '-' :: formatted else formatted)
  else
    let inputScale := p.fracStr.length
    let intValue := Nat.ofDigitChars 10 p.intStr 0 * 10 ^ inputScale +
      Nat.ofDigitChars 10 p.fracStr 0
    let shiftFactor := 10 ^ (inputScale - scale)
    let rounded := applyDivisionRounding (intValue / shiftFactor) (intValue % shiftFactor)
      shiftFactor mode
    let formatted := formatScaledInt rounded scale
    return String.ofList (if p.negative && rounded ≠ 0 then '-' :: formatted else formatted)

/-- Whether a number of integer part `n` and fractional part `f` is rounded up. -/
def RoundingMode.GoesUp (mode : RoundingMode) (n : ℤ) (f : ℚ) : Prop :=
  match mode with
  | .down => False
  | .up => 0 < f
  | .halfUp => 1 / 2 ≤ f
  | .halfDown => 1 / 2 < f
  | .halfEven => 1 / 2 < f ∨ f = 1 / 2 ∧ n % 2 = 1

instance (mode : RoundingMode) (n : ℤ) (f : ℚ) : Decidable (mode.GoesUp n f) := by
  unfold RoundingMode.GoesUp
  cases mode <;> infer_instance

def RoundingMode.round (mode : RoundingMode) (x : ℚ) : ℤ := roundBy mode.GoesUp x

theorem RoundingMode.round_mono (mode : RoundingMode) {x y : ℚ} (hl : x ≤ y) :
    mode.round x ≤ mode.round y := by
  refine roundBy_mono (fun n f g hl hu => ?_) hl
  cases mode with
  | down => exact hu
  | up => exact lt_of_lt_of_le hu hl
  | halfUp => exact le_trans hu hl
  | halfDown => exact lt_of_lt_of_le hu hl
  | halfEven =>
    rcases hu with hu | ⟨hh, ho⟩
    · exact .inl (lt_of_lt_of_le hu hl)
    · rcases (hh ▸ hl).lt_or_eq with hLt | he
      · exact .inl hLt
      · exact .inr ⟨he.symm, ho⟩

theorem RoundingMode.abs_halfUp_sub_le (x : ℚ) : |(RoundingMode.halfUp.round x : ℚ) - x| ≤ 1 / 2 :=
  abs_roundBy_sub_le (fun _ _ => Iff.rfl) x

theorem applyDivisionRounding_eq (num : Nat) {den : Nat} (hd : 0 < den) (mode : RoundingMode) :
    (applyDivisionRounding (num / den) (num % den) den mode : ℤ) =
      mode.round ((num : ℚ) / den) := by
  have hp : (0 : ℚ) < den := by exact_mod_cast hd
  have hh : ∀ r : Nat, (1 / 2 : ℚ) < (r : ℚ) / den ↔ den < r * 2 := fun r => by
    rw [div_lt_div_iff₀ (by norm_num) hp, one_mul]
    exact_mod_cast Iff.rfl
  have hh' : ∀ r : Nat, (1 / 2 : ℚ) ≤ (r : ℚ) / den ↔ den ≤ r * 2 := fun r => by
    rw [div_le_div_iff₀ (by norm_num) hp, one_mul]
    exact_mod_cast Iff.rfl
  have hm : ∀ r : Nat, (r : ℚ) / den = 1 / 2 ↔ r * 2 = den := fun r => by
    rw [div_eq_div_iff hp.ne' (by norm_num), one_mul]
    exact_mod_cast Iff.rfl
  have hz : ∀ r : Nat, 0 < (r : ℚ) / den ↔ 0 < r := fun r => by
    rw [div_pos_iff_of_pos_right hp]
    exact_mod_cast Iff.rfl
  rw [RoundingMode.round, roundBy, floor_div_natCast, fract_div_natCast num hd]
  cases mode with
  | down => simp [applyDivisionRounding, RoundingMode.GoesUp]
  | up =>
    simp only [applyDivisionRounding, RoundingMode.GoesUp, hz]
    split <;> simp
  | halfUp =>
    simp only [applyDivisionRounding, RoundingMode.GoesUp, hh']
    split <;> simp
  | halfDown =>
    simp only [applyDivisionRounding, RoundingMode.GoesUp, hh]
    split <;> simp
  | halfEven =>
    simp only [applyDivisionRounding, RoundingMode.GoesUp, hh, hm]
    generalize num / den = q
    generalize num % den = r
    split_ifs <;> omega

theorem RoundingMode.round_natCast (mode : RoundingMode) (n : Nat) : mode.round (n : ℚ) = n := by
  have hz : ∀ n, ¬ mode.GoesUp n 0 := by
    intro n
    cases mode <;> simp [RoundingMode.GoesUp]
  exact roundBy_intCast hz (n : ℤ)

def ParsedDecimal.magnitude (p : ParsedDecimal) : ℚ :=
  (Nat.ofDigitChars 10 (p.intStr ++ p.fracStr) 0 : ℚ) / 10 ^ p.fracStr.length

theorem ParsedDecimal.val_eq_magnitude (p : ParsedDecimal) :
    p.val = signFactor p.negative * p.magnitude := by
  rw [val_eq_digits, mul_div_assoc]
  rfl

theorem ParsedDecimal.magnitude_scaled {p : ParsedDecimal} {scale : Nat}
    (hs : p.fracStr.length ≤ scale) :
    p.magnitude * 10 ^ scale = (toScaledMagnitude p scale : ℚ) := by
  have hp : (10 : ℚ) ^ scale = 10 ^ p.fracStr.length * 10 ^ (scale - p.fracStr.length) := by
    rw [← pow_add, Nat.add_sub_cancel' hs]
  rw [toScaledMagnitude_eq hs, ParsedDecimal.magnitude, hp]
  push_cast
  field_simp

/-- A rounded magnitude as the code prints it, without a sign on zero. -/
def signedText (negative : Bool) (value scale : Nat) : String :=
  String.ofList (if negative && value ≠ 0 then '-' :: formatScaledInt value scale
    else formatScaledInt value scale)

theorem prints_signed (negative : Bool) (value scale : Nat) :
    Prints (signedText negative value scale) (signFactor negative * value / 10 ^ scale) scale := by
  have hp := prints_withSign (negative && decide (value ≠ 0)) value scale
    (fun h => by simpa using (Bool.and_eq_true_iff.mp h).2)
  have hs : signFactor (negative && decide (value ≠ 0)) * (value : ℚ) =
      signFactor negative * value := by
    by_cases hz : value = 0
    · simp [hz]
    · simp [hz]
  rw [hs] at hp
  exact hp

theorem roundToScale_text {value : String} {p : ParsedDecimal}
    (hp : parseDecimalString value = .ok p) (scale : Nat) (mode : RoundingMode) :
    ∃ rounded : Nat, (rounded : ℤ) = mode.round (p.magnitude * 10 ^ scale) ∧
      roundToScale value scale mode = .ok (signedText p.negative rounded scale) := by
  by_cases hs : p.fracStr.length ≤ scale
  · refine ⟨toScaledMagnitude p scale, ?_, ?_⟩
    · rw [ParsedDecimal.magnitude_scaled hs, RoundingMode.round_natCast]
    · simp only [roundToScale, hp, bind, Except.bind, if_pos hs]
      rfl
  · have hm : p.magnitude * 10 ^ scale = ((Nat.ofDigitChars 10 p.intStr 0 * 10 ^ p.fracStr.length +
          Nat.ofDigitChars 10 p.fracStr 0 : Nat) : ℚ) /
            ((10 ^ (p.fracStr.length - scale) : Nat) : ℚ) := by
      have ha : (10 : ℚ) ^ p.fracStr.length = 10 ^ scale * 10 ^ (p.fracStr.length - scale) := by
        rw [← pow_add, Nat.add_sub_cancel' (by omega)]
      rw [← ofDigitChars_append_zero, ParsedDecimal.magnitude, ha]
      push_cast
      field_simp
    rw [hm]
    refine ⟨_, applyDivisionRounding_eq _ (by positivity) mode, ?_⟩
    simp only [roundToScale, hp, bind, Except.bind, if_neg hs]
    rfl

end Credence.Lib.DecimalMath
