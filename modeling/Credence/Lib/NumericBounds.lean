import Credence.Lib.DecimalExact

/-! The checks of `src/lib/decimalMath.ts` on amounts: that a string denotes a positive number, and
that a `NUMERIC(precision, scale)` column holds it without rounding. -/

namespace Credence.Lib.DecimalMath

open List

def isValidPositiveDecimal (value : String) : Bool :=
  match parseDecimalString value with
  | .ok p => !p.negative && 0 < Nat.ofDigitChars 10 (p.intStr ++ p.fracStr) 0
  | .error _ => false

inductive DecimalError where
  | other (text : String)
  | scale (value : String) (maxScale actualScale : Nat)
  | overflow (value : String) (precision scale : Nat)

def DecimalError.message : DecimalError → String
  | other text => text
  | scale value maxScale actualScale =>
    "Value \"" ++ value ++ "\" has " ++ toString actualScale ++
      " fractional digit(s), exceeding the maximum allowed scale of " ++ toString maxScale
  | overflow value precision places =>
    "Value \"" ++ value ++ "\" exceeds the maximum magnitude representable by NUMERIC(" ++
      toString precision ++ "," ++ toString places ++ ")"

def assertWithinNumericBounds (value : String) (precision scale : Nat) : Except DecimalError Unit :=
  if precision = 0 then
    .error (.other ("precision must be a positive integer, got: " ++ toString precision))
  else if scale > precision then
    .error (.other ("scale must be an integer in [0, precision], got: " ++ toString scale))
  else
    match parseDecimalString value with
    | .error text => .error (.other text)
    | .ok p =>
      if p.fracStr.length > scale then .error (.scale value scale p.fracStr.length)
      else
        let strippedIntStr := p.intStr.dropWhile (· == '0')
        if strippedIntStr.length > precision - scale then .error (.overflow value precision scale)
        else .ok ()

theorem digit_value_lt {c : Char} (h : c.isDigit = true) : c.toNat - '0'.toNat < 10 := by
  have hr := Js.digit_range h
  have hz : '0'.toNat = 48 := rfl
  omega

variable {cs : List Char} {value : String} {precision scale : Nat}

theorem ofDigitChars_lt (h : ∀ c ∈ cs, c.isDigit = true) :
    Nat.ofDigitChars 10 cs 0 < 10 ^ cs.length := by
  induction cs using reverseRecOn with
  | nil => simp [Nat.ofDigitChars_nil]
  | append_singleton cs c ih =>
    have hl := digit_value_lt (h c (by simp))
    have hi := ih fun d hd => h d (by simp [hd])
    rw [Nat.ofDigitChars_append, Nat.ofDigitChars_cons, Nat.ofDigitChars_nil, length_append,
      length_singleton, pow_succ]
    omega

theorem ofDigitChars_dropWhile_zero (cs : List Char) :
    Nat.ofDigitChars 10 (cs.dropWhile (· == '0')) 0 = Nat.ofDigitChars 10 cs 0 := by
  induction cs with
  | nil => rfl
  | cons c cs ih =>
    by_cases hz : c = '0'
    · subst hz
      rw [dropWhile_cons_of_pos (by rfl), ih, Nat.ofDigitChars_cons]
      rfl
    · rw [dropWhile_cons_of_neg (by simpa using hz)]

theorem length_dropWhile_zero_le_iff (h : ∀ c ∈ cs, c.isDigit = true) (k : Nat) :
    (cs.dropWhile (· == '0')).length ≤ k ↔ Nat.ofDigitChars 10 cs 0 < 10 ^ k := by
  rw [← ofDigitChars_dropWhile_zero cs]
  have hd : ∀ c ∈ cs.dropWhile (· == '0'), c.isDigit = true :=
    fun c hc => h c ((dropWhile_sublist _).mem hc)
  constructor
  · intro hle
    exact (ofDigitChars_lt hd).trans_le (Nat.pow_le_pow_right (by decide) hle)
  · intro hl
    cases ha : cs.dropWhile (· == '0') with
    | nil => simp
    | cons c rest =>
      have hh : (c == '0') = false := by
        have hf := head_dropWhile_not (· == '0') (l := cs) (by rw [ha]; simp)
        simpa [ha] using hf
      rw [ha] at hl hd
      have hb : 0 < c.toNat - '0'.toNat := by
        have hr := Js.digit_range (hd c (by simp))
        have hne : c.toNat ≠ 48 := by
          intro he
          rw [beq_eq_false_iff_ne] at hh
          exact hh (Char.toNat_inj.mp he)
        have hz : '0'.toNat = 48 := rfl
        omega
      rw [← singleton_append, ofDigitChars_append_zero, Nat.ofDigitChars_cons,
        Nat.ofDigitChars_nil] at hl
      have hp : 10 ^ rest.length < 10 ^ k := by
        calc 10 ^ rest.length ≤ (10 * 0 + (c.toNat - '0'.toNat)) * 10 ^ rest.length :=
              Nat.le_mul_of_pos_left _ (by omega)
          _ ≤ _ := Nat.le_add_right _ _
          _ < 10 ^ k := hl
      rw [length_cons]
      exact (Nat.pow_lt_pow_iff_right (by decide)).mp hp

theorem isValidPositiveDecimal_iff : isValidPositiveDecimal value = true ↔
    ∃ p, parseDecimalString value = .ok p ∧ p.negative = false ∧
      0 < Nat.ofDigitChars 10 (p.intStr ++ p.fracStr) 0 := by
  unfold isValidPositiveDecimal
  split
  · rename_i p hp
    simp [hp]
  · rename_i e hp
    simp [hp]

theorem toScaledMagnitude_lt_iff {p : ParsedDecimal} (hf : p.fracStr.length ≤ scale)
    (hs : scale ≤ precision) :
    toScaledMagnitude p scale < 10 ^ precision ↔
      Nat.ofDigitChars 10 p.intStr 0 < 10 ^ (precision - scale) := by
  have ha := ofDigitChars_lt p.fracStr_digits
  have hp : 10 ^ scale = 10 ^ p.fracStr.length * 10 ^ (scale - p.fracStr.length) := by
    rw [← pow_add, Nat.add_sub_cancel' hf]
  have hb : 10 ^ precision = 10 ^ (precision - scale) * 10 ^ scale := by
    rw [← pow_add, Nat.sub_add_cancel hs]
  have hr : Nat.ofDigitChars 10 p.fracStr 0 * 10 ^ (scale - p.fracStr.length) < 10 ^ scale := by
    rw [hp]
    exact Nat.mul_lt_mul_of_pos_right ha (by positivity)
  rw [toScaledMagnitude_eq hf, ofDigitChars_append_zero, Nat.add_mul, Nat.mul_assoc, ← hp, hb]
  constructor
  · intro hl
    exact Nat.lt_of_mul_lt_mul_right (lt_of_le_of_lt (Nat.le_add_right _ _) hl)
  · intro hl
    calc _ < Nat.ofDigitChars 10 p.intStr 0 * 10 ^ scale + 10 ^ scale := Nat.add_lt_add_left hr _
      _ = (Nat.ofDigitChars 10 p.intStr 0 + 1) * 10 ^ scale := by ring
      _ ≤ 10 ^ (precision - scale) * 10 ^ scale := Nat.mul_le_mul_right _ hl

/-- The bounds check accepts the numbers of at most `scale` fractional digits whose magnitude, in
units of the last digit, has at most `precision` digits. -/
theorem assertWithinNumericBounds_ok_iff (hp : 0 < precision) (hs : scale ≤ precision) :
    assertWithinNumericBounds value precision scale = .ok () ↔
      ∃ p, parseDecimalString value = .ok p ∧ p.fracStr.length ≤ scale ∧
        toScaledMagnitude p scale < 10 ^ precision := by
  rw [assertWithinNumericBounds, if_neg hp.ne', if_neg hs.not_gt]
  cases ha : parseDecimalString value with
  | error => simp
  | ok p =>
    simp only [Except.ok.injEq, exists_eq_left']
    by_cases hf : p.fracStr.length ≤ scale
    · rw [if_neg hf.not_gt, toScaledMagnitude_lt_iff hf hs,
        ← length_dropWhile_zero_le_iff p.intStr_digits]
      by_cases hl : (p.intStr.dropWhile (· == '0')).length ≤ precision - scale
      · simp [hf, hl]
      · simp [hl]
    · simp [hf, not_le.mp hf]

end Credence.Lib.DecimalMath
