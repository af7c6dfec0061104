import Credence.Lib.Rounding

/-! `divideDecimals`, and what the rounding modes prescribe: a mode allows one integer for each
rational number. -/

namespace Credence.Lib.DecimalMath

open ProofKit

inductive DivisionError where
  | error (message : String)
  | divisionByZero (dividend divisor : String)
  deriving DecidableEq

def DivisionError.message : DivisionError → String
  | .error message => message
  | .divisionByZero dividend divisor =>
    "Division by zero: cannot divide \"" ++ dividend ++ "\" by \"" ++ divisor ++ "\""

/-- `divideDecimals` on a non-negative integer `scale`; `shift` may be negative. -/
def divideDecimals (a b : String) (scale : Nat) (mode : RoundingMode) :
    Except DivisionError String := do
  let pa ← (parseDecimalString a).mapError .error
  let pb ← (parseDecimalString b).mapError .error
  let numerator := Nat.ofDigitChars 10 (pa.intStr ++ pa.fracStr) 0
  let denominator := Nat.ofDigitChars 10 (pb.intStr ++ pb.fracStr) 0
  if denominator = 0 then throw (.divisionByZero a b)
  let shift : Int := scale + pb.fracStr.length - pa.fracStr.length
  let scaledNumerator := if shift ≥ 0 then numerator * 10 ^ shift.toNat else numerator
  let divisor := if shift ≥ 0 then denominator else denominator * 10 ^ (-shift).toNat
  let rounded := applyDivisionRounding (scaledNumerator / divisor) (scaledNumerator % divisor)
    divisor mode
  let negative := pa.negative != pb.negative
  let formatted := formatScaledInt rounded scale
  return String.ofList (if negative && rounded ≠ 0 then '-' :: formatted else formatted)

/-- The integer to which a mode rounds a number: toward zero, away from zero, or the nearest one
with the choice of the mode between two. -/
def RoundingMode.Prescribes (mode : RoundingMode) (x : ℚ) (n : ℤ) : Prop :=
  match mode with
  | .down => 0 ≤ x * n ∧ |(n : ℚ)| ≤ |x| ∧ |x| < |(n : ℚ)| + 1
  | .up => 0 ≤ x * n ∧ |x| ≤ |(n : ℚ)| ∧ |(n : ℚ)| < |x| + 1
  | .halfUp => |x - n| ≤ 1 / 2 ∧ (|x - n| = 1 / 2 → |x| < |(n : ℚ)|)
  | .halfDown => |x - n| ≤ 1 / 2 ∧ (|x - n| = 1 / 2 → |(n : ℚ)| < |x|)
  | .halfEven => |x - n| ≤ 1 / 2 ∧ (|x - n| = 1 / 2 → n % 2 = 0)

variable {mode : RoundingMode} {x : ℚ} {n : ℤ}

theorem RoundingMode.Prescribes.neg (h : mode.Prescribes x n) : mode.Prescribes (-x) (-n) := by
  have hd : |-x - -(n : ℚ)| = |x - n| := by
    rw [← abs_neg]
    congr 1
    ring
  have he : (-n) % 2 = 0 ↔ n % 2 = 0 := by omega
  cases mode with
  | down | up => simpa [RoundingMode.Prescribes] using h
  | halfUp | halfDown =>
    simp only [RoundingMode.Prescribes, Int.cast_neg, hd, abs_neg] at h ⊢
    exact h
  | halfEven =>
    simp only [RoundingMode.Prescribes, Int.cast_neg, hd, he] at h ⊢
    exact h

theorem RoundingMode.prescribes_neg : mode.Prescribes (-x) n ↔ mode.Prescribes x (-n) := by
  constructor
  · intro h
    simpa using h.neg
  · intro h
    simpa using h.neg

theorem RoundingMode.Prescribes.dist_lt_one (h : mode.Prescribes x n) : |x - n| < 1 := by
  have hs : 0 ≤ x * n → |x - n| = |(|x| - |(n : ℚ)|)| := by
    intro hn
    rw [← sq_eq_sq_iff_abs_eq_abs, sub_sq, sub_sq, sq_abs, sq_abs, mul_assoc, mul_assoc, ← abs_mul,
      abs_of_nonneg hn]
  cases mode with
  | down | up =>
    rw [hs h.1, abs_lt]
    constructor <;> linarith [h.2.1, h.2.2]
  | halfUp | halfDown | halfEven => exact h.1.trans_lt (by norm_num)

theorem RoundingMode.Prescribes.floor_or_succ (h : mode.Prescribes x n) :
    n = ⌊x⌋ ∨ n = ⌊x⌋ + 1 := by
  have hn := abs_lt.mp h.dist_lt_one
  have hf := Int.floor_le x
  have hLt := Int.lt_floor_add_one x
  have hl : (⌊x⌋ : ℚ) - 1 < n := by linarith
  have hh : (n : ℚ) < ⌊x⌋ + 2 := by linarith
  have hl' : ⌊x⌋ - 1 < n := by exact_mod_cast hl
  have hh' : n < ⌊x⌋ + 2 := by exact_mod_cast hh
  omega

theorem round_of_goesUp (h : mode.GoesUp ⌊x⌋ (Int.fract x)) : mode.round x = ⌊x⌋ + 1 := by
  rw [RoundingMode.round, roundBy, if_pos h]

theorem round_of_not_goesUp (h : ¬ mode.GoesUp ⌊x⌋ (Int.fract x)) : mode.round x = ⌊x⌋ := by
  rw [RoundingMode.round, roundBy, if_neg h, add_zero]

section

variable (hx : 0 ≤ x)
include hx

theorem prescribes_floor_iff : mode.Prescribes x ⌊x⌋ ↔ ¬ mode.GoesUp ⌊x⌋ (Int.fract x) := by
  have hs := Int.floor_add_fract x
  have hl := Int.fract_nonneg x
  have hh := Int.fract_lt_one x
  have hf : (0 : ℚ) ≤ ⌊x⌋ := by exact_mod_cast Int.floor_nonneg.mpr hx
  have hi := mul_nonneg hx hf
  have hd : |x - ⌊x⌋| = Int.fract x := by
    rw [Int.self_sub_floor, abs_of_nonneg hl]
  cases mode <;> simp only [RoundingMode.Prescribes, RoundingMode.GoesUp, hd,
    abs_of_nonneg hx, abs_of_nonneg hf] <;> grind

theorem prescribes_floor_succ_iff :
    mode.Prescribes x (⌊x⌋ + 1) ↔ mode.GoesUp ⌊x⌋ (Int.fract x) := by
  have hp := Int.floor_add_fract x
  have hl := Int.fract_nonneg x
  have hh := Int.fract_lt_one x
  have hs : (0 : ℚ) ≤ ⌊x⌋ + 1 := by
    exact_mod_cast (Int.floor_nonneg.mpr hx).trans (by omega)
  have hi := mul_nonneg hx hs
  have hd : |x - (⌊x⌋ + 1)| = 1 - Int.fract x := by
    rw [abs_of_nonpos (by linarith)]
    linarith
  cases mode <;> simp only [RoundingMode.Prescribes, RoundingMode.GoesUp, Int.cast_add,
    Int.cast_one, hd, abs_of_nonneg hx, abs_of_nonneg hs] <;> grind

theorem RoundingMode.prescribes_iff : mode.Prescribes x n ↔ n = mode.round x := by
  by_cases hu : mode.GoesUp ⌊x⌋ (Int.fract x)
  · rw [round_of_goesUp hu]
    constructor
    · intro h
      rcases h.floor_or_succ with rfl | rfl
      · exact absurd hu ((prescribes_floor_iff hx).mp h)
      · rfl
    · rintro rfl
      exact (prescribes_floor_succ_iff hx).mpr hu
  · rw [round_of_not_goesUp hu]
    constructor
    · intro h
      rcases h.floor_or_succ with rfl | rfl
      · rfl
      · exact absurd ((prescribes_floor_succ_iff hx).mp h) hu
    · rintro rfl
      exact (prescribes_floor_iff hx).mpr hu

end

/-- The integer for a number of either sign, from its magnitude. -/
def signed (negative : Bool) (n : ℤ) : ℤ := if negative then -n else n

theorem RoundingMode.prescribes_signed_iff (negative : Bool) (hx : 0 ≤ x) :
    mode.Prescribes (signFactor negative * x) n ↔ n = signed negative (mode.round x) := by
  cases negative with
  | false => simp [signFactor, signed, mode.prescribes_iff hx]
  | true =>
    have hn : n = -mode.round x ↔ -n = mode.round x := by omega
    simp [signFactor, signed, prescribes_neg, mode.prescribes_iff hx, hn]

theorem signFactor_mul_intCast (negative : Bool) (n : ℤ) :
    signFactor negative * (n : ℚ) = (signed negative n : ℤ) := by
  cases negative with
  | false => simp [signFactor, signed]
  | true => simp [signFactor, signed]

/-- The integers that `divideDecimals` divides have the scaled quotient of the magnitudes as their
ratio, for either sign of `shift`. -/
theorem scaled_quotient (N D la lb scale : Nat) (hD : D ≠ 0) :
    (N : ℚ) / 10 ^ la / ((D : ℚ) / 10 ^ lb) * 10 ^ scale =
      ((if (scale + lb - la : ℤ) ≥ 0 then N * 10 ^ (scale + lb - la : ℤ).toNat else N : Nat) : ℚ) /
        ((if (scale + lb - la : ℤ) ≥ 0 then D
          else D * 10 ^ (-(scale + lb - la : ℤ)).toNat : Nat) : ℚ) := by
  have hd : (D : ℚ) ≠ 0 := by exact_mod_cast hD
  by_cases hs : (scale + lb - la : ℤ) ≥ 0
  · rw [if_pos hs, if_pos hs]
    have hp : (10 : ℚ) ^ lb * 10 ^ scale = 10 ^ la * 10 ^ (scale + lb - la : ℤ).toNat := by
      rw [← pow_add, ← pow_add]
      congr 1
      omega
    push_cast
    field_simp
    rw [mul_assoc, hp, mul_assoc]
  · rw [if_neg hs, if_neg hs]
    have hp : (10 : ℚ) ^ la = 10 ^ scale * 10 ^ lb * 10 ^ (-(scale + lb - la : ℤ)).toNat := by
      rw [← pow_add, ← pow_add]
      congr 1
      omega
    push_cast
    rw [hp]
    field_simp

theorem ParsedDecimal.val_eq_zero_iff (p : ParsedDecimal) :
    p.val = 0 ↔ Nat.ofDigitChars 10 (p.intStr ++ p.fracStr) 0 = 0 := by
  have hs : signFactor p.negative ≠ 0 := by
    cases p.negative with
    | false => simp [signFactor]
    | true => simp [signFactor]
  rw [p.val_eq_magnitude, ParsedDecimal.magnitude]
  simp [hs]

section

variable {a b : String} {pa pb : ParsedDecimal} (ha : parseDecimalString a = .ok pa)
  (hb : parseDecimalString b = .ok pb)
include ha hb

theorem divideDecimals_text (hz : pb.val ≠ 0) (scale : Nat) (mode : RoundingMode) :
    ∃ rounded : Nat, (rounded : ℤ) = mode.round (pa.magnitude / pb.magnitude * 10 ^ scale) ∧
      divideDecimals a b scale mode =
        .ok (signedText (pa.negative != pb.negative) rounded scale) := by
  have hD : Nat.ofDigitChars 10 (pb.intStr ++ pb.fracStr) 0 ≠ 0 :=
    fun h => hz (pb.val_eq_zero_iff.mpr h)
  rw [ParsedDecimal.magnitude, ParsedDecimal.magnitude, scaled_quotient _ _ _ _ _ hD]
  refine ⟨_, applyDivisionRounding_eq _ ?_ mode, ?_⟩
  · split
    · omega
    · positivity
  · simp only [divideDecimals, ha, hb, Except.mapError, bind, Except.bind, if_neg hD]
    rfl

theorem divideDecimals_zero (hz : pb.val = 0) (scale : Nat) (mode : RoundingMode) :
    divideDecimals a b scale mode = .error (.divisionByZero a b) := by
  have hD := pb.val_eq_zero_iff.mp hz
  simp only [divideDecimals, ha, hb, Except.mapError, bind, Except.bind, if_pos hD]
  rfl

end

theorem rounded_prescribed {negative : Bool} {rounded scale : Nat} (hx : 0 ≤ x)
    (hr : (rounded : ℤ) = mode.round x) :
    Prints (signedText negative rounded scale)
        (((signed negative (mode.round x) : ℤ) : ℚ) / 10 ^ scale) scale ∧
      ∀ m, mode.Prescribes (signFactor negative * x) m ↔ m = signed negative (mode.round x) := by
  refine ⟨?_, fun m => mode.prescribes_signed_iff negative hx⟩
  rw [← hr, ← signFactor_mul_intCast]
  exact prints_signed negative rounded scale

theorem ParsedDecimal.magnitude_nonneg (p : ParsedDecimal) : 0 ≤ p.magnitude := by
  unfold ParsedDecimal.magnitude
  positivity

variable {a b : String} {pa pb : ParsedDecimal}

theorem roundToScale_prescribed (ha : parseDecimalString a = .ok pa) (scale : Nat)
    (mode : RoundingMode) :
    ∃ s n, roundToScale a scale mode = .ok s ∧ Prints s ((n : ℤ) / 10 ^ scale) scale ∧
      ∀ m, mode.Prescribes (pa.val * 10 ^ scale) m ↔ m = n := by
  obtain ⟨rounded, hr, ht⟩ := roundToScale_text ha scale mode
  have hn : 0 ≤ pa.magnitude * 10 ^ scale := mul_nonneg pa.magnitude_nonneg (by positivity)
  obtain ⟨hp, ho⟩ := rounded_prescribed hn hr
  rw [← mul_assoc, ← pa.val_eq_magnitude] at ho
  exact ⟨_, _, ht, hp, ho⟩

theorem divideDecimals_prescribed (ha : parseDecimalString a = .ok pa)
    (hb : parseDecimalString b = .ok pb) (hz : pb.val ≠ 0) (scale : Nat) (mode : RoundingMode) :
    ∃ s n, divideDecimals a b scale mode = .ok s ∧ Prints s ((n : ℤ) / 10 ^ scale) scale ∧
      ∀ m, mode.Prescribes (pa.val / pb.val * 10 ^ scale) m ↔ m = n := by
  obtain ⟨rounded, hr, ht⟩ := divideDecimals_text ha hb hz scale mode
  have hn : 0 ≤ pa.magnitude / pb.magnitude * 10 ^ scale :=
    mul_nonneg (div_nonneg pa.magnitude_nonneg pb.magnitude_nonneg) (by positivity)
  obtain ⟨hp, ho⟩ := rounded_prescribed hn hr
  have hq : pa.val / pb.val =
      signFactor (pa.negative != pb.negative) * (pa.magnitude / pb.magnitude) := by
    rw [pa.val_eq_magnitude, pb.val_eq_magnitude]
    cases pa.negative with
    | false => cases pb.negative <;> simp [signFactor, div_neg]
    | true => cases pb.negative <;> simp [signFactor, neg_div, div_neg]
  rw [← mul_assoc, ← hq] at ho
  exact ⟨_, _, ht, hp, ho⟩

theorem roundToScale_neg (ha : parseDecimalString a = .ok pa) (hb : parseDecimalString b = .ok pb)
    (hn : pb.val = -pa.val) (scale : Nat) (mode : RoundingMode) :
    ∃ s t, roundToScale a scale mode = .ok s ∧ roundToScale b scale mode = .ok t ∧
      decimal t = -decimal s := by
  obtain ⟨s, n, hS, hp, hs⟩ := roundToScale_prescribed ha scale mode
  obtain ⟨t, k, hT, ht, hc⟩ := roundToScale_prescribed hb scale mode
  have hK : mode.Prescribes (-(pa.val * 10 ^ scale)) k := by
    rw [← neg_mul, ← hn]
    exact (hc k).mpr rfl
  have ho : -k = n := (hs (-k)).mp (RoundingMode.prescribes_neg.mp hK)
  refine ⟨s, t, hS, hT, ?_⟩
  rw [decimal_of_prints hp, decimal_of_prints ht, ← ho]
  push_cast
  ring

theorem parse_one : ∃ p, parseDecimalString "1" = .ok p ∧ p.negative = false ∧ p.val = 1 := by
  refine ⟨_, parse_unsigned (by decide), rfl, ?_⟩
  have hi : Nat.ofDigitChars 10 ((Js.trim "1".toList).takeWhile (· != '.')) 0 = 1 := by decide
  have hf : Nat.ofDigitChars 10 ((Js.trim "1".toList).dropWhile (· != '.')).tail 0 = 0 := by
    decide
  rw [ParsedDecimal.val, hi, hf]
  norm_num

theorem divideDecimals_one (a : String) (scale : Nat) (mode : RoundingMode) :
    divideDecimals a "1" scale mode = (roundToScale a scale mode).mapError .error := by
  cases ha : parseDecimalString a with
  | error =>
    simp only [divideDecimals, roundToScale, ha, bind, Except.bind, Except.mapError]
  | ok =>
    obtain ⟨one, ho, hs, hv⟩ := parse_one
    have hm : one.magnitude = 1 := by
      rw [one.val_eq_magnitude, hs] at hv
      simpa [signFactor] using hv
    have hn : one.val ≠ 0 := by
      rw [hv]
      exact one_ne_zero
    obtain ⟨rounded, hr, ht⟩ := roundToScale_text ha scale mode
    obtain ⟨divided, hd, hi⟩ := divideDecimals_text ha ho hn scale mode
    rw [hm, div_one, ← hr] at hd
    have hc : divided = rounded := by exact_mod_cast hd
    rw [ht, hi, hc, hs, Bool.bne_false]
    rfl

/-- Rounding and dividing to a scale return the one multiple of the scale's unit that the mode
prescribes, for every accepted string, scale and mode. -/
theorem rounding_correct {a b : String} {pa pb : ParsedDecimal}
    (ha : parseDecimalString a = .ok pa) (hb : parseDecimalString b = .ok pb) (scale : Nat)
    (mode : RoundingMode) :
    (∃ s n, roundToScale a scale mode = .ok s ∧ Prints s ((n : ℤ) / 10 ^ scale) scale ∧
      ∀ m, mode.Prescribes (pa.val * 10 ^ scale) m ↔ m = n) ∧
    (pb.val = -pa.val → ∃ s t, roundToScale a scale mode = .ok s ∧
      roundToScale b scale mode = .ok t ∧ decimal t = -decimal s) ∧
    (pb.val ≠ 0 → ∃ s n, divideDecimals a b scale mode = .ok s ∧
      Prints s ((n : ℤ) / 10 ^ scale) scale ∧
      ∀ m, mode.Prescribes (pa.val / pb.val * 10 ^ scale) m ↔ m = n) ∧
    (divideDecimals a b scale mode = .error (.divisionByZero a b) ↔ pb.val = 0) ∧
    divideDecimals a "1" scale mode = (roundToScale a scale mode).mapError .error := by
  refine ⟨roundToScale_prescribed ha scale mode, fun h => roundToScale_neg ha hb h scale mode,
    fun h => divideDecimals_prescribed ha hb h scale mode, ⟨?_, ?_⟩,
    divideDecimals_one a scale mode⟩
  · intro ht
    by_contra hz
    obtain ⟨rounded, -, he⟩ := divideDecimals_text ha hb hz scale mode
    rw [he] at ht
    exact absurd ht (by simp)
  · intro hz
    exact divideDecimals_zero ha hb hz scale mode

theorem rounding_correct_tie :
    ∃ pa pb, parseDecimalString "2.345" = .ok pa ∧ parseDecimalString "-2.345" = .ok pb ∧
      pb.val = -pa.val ∧ pb.val ≠ 0 ∧
      (∃ s t, roundToScale "2.345" 2 .halfEven = .ok s ∧
        roundToScale "-2.345" 2 .halfEven = .ok t ∧ decimal t = -decimal s) ∧
      ∃ s n, divideDecimals "2.345" "-2.345" 2 .halfEven = .ok s ∧ Prints s ((n : ℤ) / 10 ^ 2) 2 ∧
        ∀ m, RoundingMode.halfEven.Prescribes (pa.val / pb.val * 10 ^ 2) m ↔ m = n := by
  obtain ⟨pa, pb, ha, hb, hn, hz⟩ : ∃ pa pb, parseDecimalString "2.345" = .ok pa ∧
      parseDecimalString "-2.345" = .ok pb ∧ pb.val = -pa.val ∧ pb.val ≠ 0 :=
    ⟨_, _, rfl, rfl, by decide +kernel, by decide +kernel⟩
  have hc := rounding_correct ha hb 2 .halfEven
  exact ⟨pa, pb, ha, hb, hn, hz, hc.2.1 hn, hc.2.2.1 hz⟩

end Credence.Lib.DecimalMath
