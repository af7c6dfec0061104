import Credence.Lib.DecimalMath
import Mathlib.Tactic.Linarith

/-! Decimal arithmetic is exact, returns strings that `parseDecimalString` accepts again, and throws
only where an argument is not accepted. -/

namespace Credence.Lib.DecimalMath

open Js List

variable {cs int : List Char} {value : String} {scale : Nat} {p : ParsedDecimal}

theorem decimalText_chars (h : decimalText cs = true) : ∀ c ∈ cs, c.isDigit = true ∨ c = '.' := by
  obtain ⟨int, -, hi, rfl | ⟨frac, rfl, hf⟩⟩ := decimalText_cases h
  · exact fun c hc => .inl (hi c hc)
  · intro c hc
    rcases mem_append.mp hc with hc | hc
    · exact .inl (hi c hc)
    · rcases mem_cons.mp hc with rfl | hc
      · exact .inr rfl
      · exact .inl (hf c hc)

theorem decimalText_not_whiteSpace (h : decimalText cs = true) :
    ∀ c ∈ cs, isWhiteSpace c = false := by
  intro c hc
  rcases decimalText_chars h c hc with hd | rfl
  · exact digit_not_whiteSpace hd
  · decide

theorem decimalText_head (h : decimalText cs = true) :
    ∃ c rest, cs = c :: rest ∧ c.isDigit = true := by
  obtain ⟨int, hne, hi, ht⟩ := decimalText_cases h
  obtain ⟨c, rest, rfl⟩ := exists_cons_of_ne_nil hne
  have hc := hi c (by simp)
  rcases ht with rfl | ⟨frac, rfl, -⟩
  · exact ⟨c, rest, rfl, hc⟩
  · exact ⟨c, rest ++ '.' :: frac, rfl, hc⟩

theorem digit_ne_minus {c : Char} (h : c.isDigit = true) : c ≠ '-' := by
  rintro rfl
  exact absurd h (by decide)

def withSign (negative : Bool) (cs : List Char) : List Char := if negative then '-' :: cs else cs

theorem trim_withSign (negative : Bool) (h : decimalText cs = true) :
    trim (withSign negative cs) = withSign negative cs := by
  have hs : ∀ c ∈ withSign negative cs, isWhiteSpace c = false := by
    intro c hc
    cases negative with
    | false => exact decimalText_not_whiteSpace h c hc
    | true =>
      rcases mem_cons.mp hc with rfl | hc
      · decide
      · exact decimalText_not_whiteSpace h c hc
  exact trim_of_ends (fun c hc => hs c (mem_of_head? hc))
    fun c hc => hs c (mem_of_getLast? hc)

theorem parse_of_trim {negative : Bool} (hv : trim value.toList = withSign negative cs)
    (h : decimalText cs = true) : ∃ p, parseDecimalString value = .ok p ∧
      p.negative = negative ∧ p.intStr = cs.takeWhile (· != '.') ∧
      p.fracStr = (cs.dropWhile (· != '.')).tail := by
  obtain ⟨c, rest, rfl, hc⟩ := decimalText_head h
  have hm : (c == '-') = false := beq_eq_false_iff_ne.mpr (digit_ne_minus hc)
  simp only [parseDecimalString, hv]
  cases negative with
  | true =>
    simp only [withSign, if_true, head?_cons, beq_self_eq_true, tail_cons, h, dite_true]
    exact ⟨_, rfl, rfl, rfl, rfl⟩
  | false =>
    simp only [withSign, Bool.false_eq_true, if_false, head?_cons, Option.some_beq_some,
      hm, h, dite_true]
    exact ⟨_, rfl, rfl, rfl, rfl⟩

theorem parse_unsigned (h : decimalText (trim value.toList) = true) :
    parseDecimalString value = .ok {
      negative := false
      intStr := (trim value.toList).takeWhile (· != '.')
      fracStr := ((trim value.toList).dropWhile (· != '.')).tail
      intStr_ne := (decimalText_parts h).1
      intStr_digits := (decimalText_parts h).2.1
      fracStr_digits := (decimalText_parts h).2.2 } := by
  obtain ⟨c, rest, ht, hd⟩ := decimalText_head h
  have hm : (c == '-') = false := beq_eq_false_iff_ne.mpr (digit_ne_minus hd)
  have hn : ((trim value.toList).head? == some '-') = false := by
    rw [ht, head?_cons, Option.some_beq_some, hm]
  simp only [parseDecimalString, hn, Bool.false_eq_true, if_false]
  exact dif_pos h

theorem toDigits_digits (n : Nat) : ∀ c ∈ Nat.toDigits 10 n, c.isDigit = true :=
  fun _ hc => Nat.isDigit_of_mem_toDigits (by decide) (by decide) hc

theorem leftpad_digits (n scale : Nat) :
    ∀ c ∈ (Nat.toDigits 10 n).leftpad scale '0', c.isDigit = true := by
  intro c hc
  rcases mem_append.mp hc with hc | hc
  · rw [(mem_replicate.mp hc).2]
    decide
  · exact toDigits_digits n c hc

theorem leftpad_length {n : Nat} (hs : 0 < scale) (h : n < 10 ^ scale) :
    ((Nat.toDigits 10 n).leftpad scale '0').length = scale := by
  have hl : (Nat.toDigits 10 n).length ≤ scale := (Nat.length_toDigits_le_iff (by decide) hs).mpr h
  simp only [leftpad, length_append, length_replicate]
  omega

theorem ofDigitChars_leftpad (n scale : Nat) :
    Nat.ofDigitChars 10 ((Nat.toDigits 10 n).leftpad scale '0') 0 = n := by
  rw [leftpad, Nat.ofDigitChars_append, Nat.ofDigitChars_replicate_zero, Nat.mul_zero,
    Nat.ofDigitChars_ten_toDigits]

theorem decimalText_integer (hne : int ≠ []) (hi : ∀ c ∈ int, c.isDigit = true) :
    decimalText int = true := by
  rw [decimalText, takeWhile_eq_self_iff.mpr hi, dropWhile_eq_nil_iff.mpr hi]
  simpa using hne

theorem decimalText_point {frac : List Char} (hne : int ≠ []) (hi : ∀ c ∈ int, c.isDigit = true)
    (hf : ∀ c ∈ frac, c.isDigit = true) : decimalText (int ++ '.' :: frac) = true := by
  rw [decimalText, takeWhile_append_of_pos hi, dropWhile_append_of_pos hi]
  have hp : Char.isDigit '.' = false := by decide
  simp only [takeWhile_cons, dropWhile_cons, hp]
  simpa [hne] using hf

theorem formatScaledInt_text (value scale : Nat) :
    decimalText (formatScaledInt value scale) = true ∧
      Nat.ofDigitChars 10 ((formatScaledInt value scale).takeWhile (· != '.')) 0 =
        value / 10 ^ scale ∧
      Nat.ofDigitChars 10 ((formatScaledInt value scale).dropWhile (· != '.')).tail 0 =
        value % 10 ^ scale ∧
      ((formatScaledInt value scale).dropWhile (· != '.')).tail.length = scale := by
  unfold formatScaledInt
  split
  · rename_i hz
    subst hz
    have hd := toDigits_digits value
    rw [(takeWhile_integer hd).1, (takeWhile_integer hd).2]
    refine ⟨decimalText_integer Nat.toDigits_ne_nil hd, ?_, ?_, rfl⟩
    · simp [Nat.ofDigitChars_ten_toDigits]
    · simp [Nat.ofDigitChars_nil, Nat.mod_one]
  · rename_i hne
    have hs : 0 < scale := Nat.pos_of_ne_zero hne
    have hl : value % 10 ^ scale < 10 ^ scale := Nat.mod_lt _ (by positivity)
    have hi := toDigits_digits (value / 10 ^ scale)
    have hf := leftpad_digits (value % 10 ^ scale) scale
    rw [(takeWhile_point hi _).1, (takeWhile_point hi _).2, tail_cons]
    exact ⟨decimalText_point Nat.toDigits_ne_nil hi hf, Nat.ofDigitChars_ten_toDigits,
      ofDigitChars_leftpad _ _, leftpad_length hs hl⟩

def signFactor (negative : Bool) : ℚ := if negative then -1 else 1

theorem ofDigitChars_append_zero (int frac : List Char) : Nat.ofDigitChars 10 (int ++ frac) 0 =
      Nat.ofDigitChars 10 int 0 * 10 ^ frac.length + Nat.ofDigitChars 10 frac 0 := by
  rw [Nat.ofDigitChars_append, Nat.ofDigitChars_eq_ofDigitChars_zero]
  ring

theorem val_eq_digits (p : ParsedDecimal) :
    p.val = signFactor p.negative * (Nat.ofDigitChars 10 (p.intStr ++ p.fracStr) 0 : ℚ) /
      10 ^ p.fracStr.length := by
  rw [ofDigitChars_append_zero, ParsedDecimal.val, signFactor]
  push_cast
  field_simp

/-- The texts that are accepted have an optional minus, digits and an optional point with further
digits between white space, and denote the number with these digits. -/
theorem parseDecimalString_iff {q : ℚ} : (∃ p, parseDecimalString value = .ok p ∧ p.val = q) ↔
    ∃ negative int frac, int ≠ [] ∧ (∀ c ∈ int ++ frac, c.isDigit = true) ∧
      (trim value.toList = withSign negative (int ++ '.' :: frac) ∨
        trim value.toList = withSign negative int ∧ frac = []) ∧
      signFactor negative * (Nat.ofDigitChars 10 (int ++ frac) 0 : ℚ) / 10 ^ frac.length = q := by
  constructor
  · rintro ⟨p, hp, rfl⟩
    obtain ⟨negative, cs, ht, hd⟩ : ∃ negative cs, trim value.toList = withSign negative cs ∧
        decimalText cs = true := by
      refine ⟨(trim value.toList).head? == some '-', if (trim value.toList).head? == some '-'
        then (trim value.toList).tail else trim value.toList, ?_, ?_⟩
      · cases trim value.toList with
        | nil => rfl
        | cons c rest => by_cases hc : c = '-' <;> simp [withSign, hc]
      · by_contra hn
        cases hp.symm.trans (dif_neg hn)
    obtain ⟨other, ho, hn, hint, hfrac⟩ := parse_of_trim ht hd
    cases hp.symm.trans ho
    rw [val_eq_digits, hn]
    obtain ⟨int, hne, hi, rfl | ⟨frac, rfl, hf⟩⟩ := decimalText_cases hd
    · rw [(takeWhile_integer hi).1] at hint
      rw [(takeWhile_integer hi).2] at hfrac
      exact ⟨negative, cs, [], hne, by simpa using hi, .inr ⟨ht, rfl⟩, by rw [hint, hfrac]; rfl⟩
    · rw [(takeWhile_point hi frac).1] at hint
      rw [(takeWhile_point hi frac).2] at hfrac
      exact ⟨negative, int, frac, hne, forall_mem_append.mpr ⟨hi, hf⟩, .inl ht,
        by rw [hint, hfrac]; rfl⟩
  · rintro ⟨negative, int, frac, hne, hd, ht, rfl⟩
    obtain ⟨hi, hf⟩ := forall_mem_append.mp hd
    obtain ⟨p, hp, hn, hint, hfrac⟩ : ∃ p, parseDecimalString value = .ok p ∧
        p.negative = negative ∧ p.intStr = int ∧ p.fracStr = frac := by
      rcases ht with ht | ⟨ht, rfl⟩
      · simpa [takeWhile_point hi] using parse_of_trim ht (decimalText_point hne hi hf)
      · simpa [takeWhile_integer hi] using parse_of_trim ht (decimalText_integer hne hi)
    exact ⟨p, hp, by rw [val_eq_digits, hn, hint, hfrac]⟩

theorem toScaledMagnitude_eq (h : p.fracStr.length ≤ scale) : toScaledMagnitude p scale =
      Nat.ofDigitChars 10 (p.intStr ++ p.fracStr) 0 * 10 ^ (scale - p.fracStr.length) := by
  have hf : (if 0 < p.fracStr.length then Nat.ofDigitChars 10 p.fracStr 0 else 0) =
      Nat.ofDigitChars 10 p.fracStr 0 := by
    split
    · rfl
    · rename_i hn
      rw [length_eq_zero_iff.mp (by omega : p.fracStr.length = 0), Nat.ofDigitChars_nil]
  have hp : 10 ^ scale = 10 ^ p.fracStr.length * 10 ^ (scale - p.fracStr.length) := by
    rw [← pow_add]
    congr 1
    omega
  rw [toScaledMagnitude, hf, ofDigitChars_append_zero, hp]
  ring

theorem val_eq_scaled (h : p.fracStr.length ≤ scale) :
    p.val = (signedMagnitude p scale : ℚ) / 10 ^ scale := by
  have hp : (10 : ℚ) ^ scale = 10 ^ p.fracStr.length * 10 ^ (scale - p.fracStr.length) := by
    rw [← pow_add]
    congr 1
    omega
  rw [val_eq_digits, signedMagnitude, toScaledMagnitude_eq h, hp, signFactor]
  push_cast
  field_simp

/-- The string `s` is accepted, denotes `q`, has `scale` fractional digits, and is not a negative
zero. -/
def Prints (s : String) (q : ℚ) (scale : Nat) : Prop :=
  ∃ p, parseDecimalString s = .ok p ∧ p.val = q ∧ p.fracStr.length = scale ∧
    ¬(p.negative = true ∧ p.val = 0)

theorem prints_withSign (negative : Bool) (value scale : Nat) (h : negative = true → value ≠ 0) :
    Prints (String.ofList (withSign negative (formatScaledInt value scale)))
      (signFactor negative * value / 10 ^ scale) scale := by
  obtain ⟨he, hi, hf, hl⟩ := formatScaledInt_text value scale
  obtain ⟨p, hp, hn, his, hc⟩ :=
    parse_of_trim (by rw [String.toList_ofList, trim_withSign negative he]) he
  have hv : p.val = signFactor negative * value / 10 ^ scale := by
    have hs : (value : ℚ) =
        (value / 10 ^ scale : Nat) * 10 ^ scale + (value % 10 ^ scale : Nat) := by
      exact_mod_cast (Nat.div_add_mod' value (10 ^ scale)).symm
    rw [ParsedDecimal.val, hn, his, hc, hi, hf, hl, signFactor, mul_div_assoc]
    refine congrArg₂ (· * ·) rfl ?_
    rw [hs]
    field_simp
  refine ⟨p, hp, hv, by rw [hc, hl], ?_⟩
  rintro ⟨ht, hz⟩
  rw [hn] at ht
  rw [hv, ht, signFactor, if_pos rfl] at hz
  have hne : (value : ℚ) ≠ 0 := by exact_mod_cast h ht
  have hd : (10 : ℚ) ^ scale ≠ 0 := by positivity
  exact div_ne_zero (mul_ne_zero (by norm_num) hne) hd hz

theorem prints_formatSigned (value : Int) (scale : Nat) :
    Prints (formatSigned value scale) (value / 10 ^ scale) scale := by
  have hp := prints_withSign (decide (value < 0)) value.natAbs scale
    (fun h => by have := of_decide_eq_true h; omega)
  have hv : signFactor (decide (value < 0)) * (value.natAbs : ℚ) = value := by
    rw [Nat.cast_natAbs, signFactor]
    by_cases hn : value < 0
    · simp [hn, abs_of_neg hn]
    · simp [hn, abs_of_nonneg (not_lt.mp hn)]
  rw [hv] at hp
  have ht : formatSigned value scale = String.ofList
      (withSign (decide (value < 0)) (formatScaledInt value.natAbs scale)) := by
    simp [formatSigned, withSign]
  rw [ht]
  exact hp

def decimal (value : String) : ℚ :=
  match parseDecimalString value with
  | .ok parsed => parsed.val
  | .error _ => 0

theorem decimal_of_ok (hp : parseDecimalString value = .ok p) : decimal value = p.val := by
  unfold decimal
  rw [hp]

theorem decimal_eq_digits (hp : parseDecimalString value = .ok p) (hn : p.negative = false) :
    decimal value =
      (Nat.ofDigitChars 10 (p.intStr ++ p.fracStr) 0 : ℚ) / 10 ^ p.fracStr.length := by
  rw [decimal_of_ok hp, val_eq_digits, hn, signFactor, if_neg (by decide), one_mul]

theorem decimal_of_prints {q : ℚ} (h : Prints value q scale) : decimal value = q := by
  obtain ⟨p, hp, hv, -, -⟩ := h
  rw [decimal_of_ok hp, hv]

section

variable {a b : String} {pa pb : ParsedDecimal} (ha : parseDecimalString a = .ok pa)
  (hb : parseDecimalString b = .ok pb)
include ha hb

theorem addDecimals_exact : ∃ s, addDecimals a b = .ok s ∧
    Prints s (pa.val + pb.val) (max pa.fracStr.length pb.fracStr.length) := by
  refine ⟨_, by rw [addDecimals, ha, hb]; rfl, ?_⟩
  rw [val_eq_scaled (le_max_left pa.fracStr.length pb.fracStr.length),
    val_eq_scaled (le_max_right pa.fracStr.length pb.fracStr.length), ← add_div, ← Int.cast_add]
  exact prints_formatSigned _ _

theorem subtractDecimals_exact : ∃ s, subtractDecimals a b = .ok s ∧
    Prints s (pa.val - pb.val) (max pa.fracStr.length pb.fracStr.length) := by
  refine ⟨_, by rw [subtractDecimals, ha, hb]; rfl, ?_⟩
  rw [val_eq_scaled (le_max_left pa.fracStr.length pb.fracStr.length),
    val_eq_scaled (le_max_right pa.fracStr.length pb.fracStr.length), ← sub_div, ← Int.cast_sub]
  exact prints_formatSigned _ _

theorem multiplyDecimals_exact : ∃ s, multiplyDecimals a b = .ok s ∧
    Prints s (pa.val * pb.val) (pa.fracStr.length + pb.fracStr.length) := by
  let product := Nat.ofDigitChars 10 (pa.intStr ++ pa.fracStr) 0 *
    Nat.ofDigitChars 10 (pb.intStr ++ pb.fracStr) 0
  let negative := (pa.negative != pb.negative) && decide (product ≠ 0)
  have hp := prints_withSign negative product
    (pa.fracStr.length + pb.fracStr.length)
    (fun h => by simpa using (Bool.and_eq_true_iff.mp h).2)
  have hv : signFactor negative * (product : ℚ) / 10 ^ (pa.fracStr.length + pb.fracStr.length) =
      pa.val * pb.val := by
    have hs : signFactor negative * (product : ℚ) =
        signFactor pa.negative * signFactor pb.negative * product := by
      by_cases hz : product = 0
      · simp [hz]
      · cases hn : pa.negative <;> cases hc : pb.negative <;>
          simp [negative, signFactor, hn, hc, hz]
    rw [hs, val_eq_digits pa, val_eq_digits pb, pow_add]
    simp only [product]
    push_cast
    field_simp
  rw [hv] at hp
  refine ⟨_, by rw [multiplyDecimals, ha, hb]; rfl, ?_⟩
  exact hp

theorem compareDecimals_exact : ∃ r, compareDecimals a b = .ok r ∧
    ((r = -1 ∧ pa.val < pb.val) ∨ (r = 0 ∧ pa.val = pb.val) ∨ (r = 1 ∧ pb.val < pa.val)) := by
  refine ⟨_, by rw [compareDecimals, ha, hb]; rfl, ?_⟩
  have hp : (0 : ℚ) < 10 ^ max pa.fracStr.length pb.fracStr.length := by positivity
  rw [val_eq_scaled (le_max_left pa.fracStr.length pb.fracStr.length),
    val_eq_scaled (le_max_right pa.fracStr.length pb.fracStr.length),
    div_lt_div_iff_of_pos_right hp, div_left_inj' hp.ne', div_lt_div_iff_of_pos_right hp]
  norm_cast
  split
  · rename_i hl
    exact .inl ⟨rfl, hl⟩
  split
  · rename_i hg
    exact .inr (.inr ⟨rfl, hg⟩)
  · exact .inr (.inl ⟨rfl, by omega⟩)

end

/-- On accepted strings every operation returns, exactly; otherwise every operation throws. -/
theorem decimals_exact (a b : String) : match parseDecimalString a, parseDecimalString b with
    | .ok pa, .ok pb =>
      (∃ s, addDecimals a b = .ok s ∧
        Prints s (pa.val + pb.val) (max pa.fracStr.length pb.fracStr.length)) ∧
      (∃ s, subtractDecimals a b = .ok s ∧
        Prints s (pa.val - pb.val) (max pa.fracStr.length pb.fracStr.length)) ∧
      (∃ s, multiplyDecimals a b = .ok s ∧
        Prints s (pa.val * pb.val) (pa.fracStr.length + pb.fracStr.length)) ∧
      ∃ r, compareDecimals a b = .ok r ∧
        ((r = -1 ∧ pa.val < pb.val) ∨ (r = 0 ∧ pa.val = pb.val) ∨ (r = 1 ∧ pb.val < pa.val))
    | _, _ => ∃ e, addDecimals a b = .error e ∧ subtractDecimals a b = .error e ∧
        multiplyDecimals a b = .error e ∧ compareDecimals a b = .error e := by
  cases ha : parseDecimalString a with
  | error e =>
    refine ⟨e, ?_, ?_, ?_, ?_⟩
    · rw [addDecimals, ha]; rfl
    · rw [subtractDecimals, ha]; rfl
    · rw [multiplyDecimals, ha]; rfl
    · rw [compareDecimals, ha]; rfl
  | ok =>
    cases hb : parseDecimalString b with
    | error e =>
      refine ⟨e, ?_, ?_, ?_, ?_⟩
      · rw [addDecimals, ha, hb]; rfl
      · rw [subtractDecimals, ha, hb]; rfl
      · rw [multiplyDecimals, ha, hb]; rfl
      · rw [compareDecimals, ha, hb]; rfl
    | ok =>
      exact ⟨addDecimals_exact ha hb, subtractDecimals_exact ha hb, multiplyDecimals_exact ha hb,
        compareDecimals_exact ha hb⟩

end Credence.Lib.DecimalMath
