import Credence.Js.Text
import Mathlib.Algebra.Order.Field.Rat
import Mathlib.Tactic.FieldSimp
import Mathlib.Tactic.Ring

/-! `src/lib/decimalMath.ts`: exact arithmetic on decimal strings, by integers scaled by a power of
ten. `BigInt(text)` on digits is `Nat.ofDigitChars 10 text 0`, and `toString` is `Nat.toDigits 10`.
-/

namespace Credence.Lib.DecimalMath

open Js List

/-- What `parseDecimalString` returns: digits only, at least one of them before the point. -/
structure ParsedDecimal where
  negative : Bool
  intStr : List Char
  fracStr : List Char
  intStr_ne : intStr ≠ []
  intStr_digits : ∀ c ∈ intStr, c.isDigit = true
  fracStr_digits : ∀ c ∈ fracStr, c.isDigit = true

/-- The regular expression `/^\d+(\.\d*)?$/`. -/
def decimalText (cs : List Char) : Bool :=
  !(cs.takeWhile Char.isDigit).isEmpty &&
    match cs.dropWhile Char.isDigit with
    | [] => true
    | c :: frac => c == '.' && frac.all Char.isDigit

theorem digit_ne_point {c : Char} (h : c.isDigit = true) : (c != '.') = true := by
  rw [bne_iff_ne]
  rintro rfl
  exact absurd h (by decide)

variable {int cs : List Char}

theorem takeWhile_point (hi : ∀ c ∈ int, c.isDigit = true) (frac : List Char) :
    (int ++ '.' :: frac).takeWhile (· != '.') = int ∧
      (int ++ '.' :: frac).dropWhile (· != '.') = '.' :: frac := by
  have hp : ∀ c ∈ int, (c != '.') = true := fun c hc => digit_ne_point (hi c hc)
  rw [takeWhile_append_of_pos hp, dropWhile_append_of_pos hp]
  simp

theorem takeWhile_integer (hi : ∀ c ∈ int, c.isDigit = true) :
    int.takeWhile (· != '.') = int ∧ int.dropWhile (· != '.') = [] := by
  have hp : ∀ c ∈ int, (c != '.') = true := fun c hc => digit_ne_point (hi c hc)
  exact ⟨takeWhile_eq_self_iff.mpr hp, dropWhile_eq_nil_iff.mpr hp⟩

theorem decimalText_cases (h : decimalText cs = true) :
    ∃ int, int ≠ [] ∧ (∀ c ∈ int, c.isDigit = true) ∧
      (cs = int ∨ ∃ frac, cs = int ++ '.' :: frac ∧ ∀ c ∈ frac, c.isDigit = true) := by
  simp only [decimalText, Bool.and_eq_true, Bool.not_eq_true', isEmpty_eq_false_iff] at h
  obtain ⟨hne, hr⟩ := h
  refine ⟨cs.takeWhile Char.isDigit, hne, fun c hc => mem_takeWhile_imp hc, ?_⟩
  have hs := takeWhile_append_dropWhile (p := Char.isDigit) (l := cs)
  split at hr
  · rename_i hn
    left
    rw [hn, append_nil] at hs
    exact hs.symm
  · rename_i c frac ha
    right
    simp only [Bool.and_eq_true, beq_iff_eq, all_eq_true] at hr
    rw [ha, hr.1] at hs
    exact ⟨frac, hs.symm, hr.2⟩

theorem decimalText_parts (h : decimalText cs = true) :
    cs.takeWhile (· != '.') ≠ [] ∧ (∀ c ∈ cs.takeWhile (· != '.'), c.isDigit = true) ∧
      ∀ c ∈ (cs.dropWhile (· != '.')).tail, c.isDigit = true := by
  obtain ⟨int, hne, hi, rfl | ⟨frac, rfl, hf⟩⟩ := decimalText_cases h
  · rw [(takeWhile_integer hi).1, (takeWhile_integer hi).2]
    exact ⟨hne, hi, by simp⟩
  · rw [(takeWhile_point hi frac).1, (takeWhile_point hi frac).2]
    exact ⟨hne, hi, hf⟩

def parseDecimalString (value : String) : Except String ParsedDecimal :=
  let trimmed := trim value.toList
  let negative := trimmed.head? == some '-'
  let abs := if negative then trimmed.tail else trimmed
  if h : decimalText abs = true then
    .ok {
      negative
      intStr := abs.takeWhile (· != '.')
      fracStr := (abs.dropWhile (· != '.')).tail
      intStr_ne := (decimalText_parts h).1
      intStr_digits := (decimalText_parts h).2.1
      fracStr_digits := (decimalText_parts h).2.2 }
  else .error ("Invalid decimal string: \"" ++ value ++ "\"")

def formatScaledInt (value scale : Nat) : List Char :=
  if scale = 0 then Nat.toDigits 10 value
  else Nat.toDigits 10 (value / 10 ^ scale) ++
    '.' :: (Nat.toDigits 10 (value % 10 ^ scale)).leftpad scale '0'

def toScaledMagnitude (p : ParsedDecimal) (scale : Nat) : Nat :=
  let pad := scale - p.fracStr.length
  let int := Nat.ofDigitChars 10 p.intStr 0
  let frac := if 0 < p.fracStr.length then Nat.ofDigitChars 10 p.fracStr 0 else 0
  int * 10 ^ scale + frac * 10 ^ pad

def multiplyDecimals (a b : String) : Except String String := do
  let pa ← parseDecimalString a
  let pb ← parseDecimalString b
  let aInt := Nat.ofDigitChars 10 (pa.intStr ++ pa.fracStr) 0
  let bInt := Nat.ofDigitChars 10 (pb.intStr ++ pb.fracStr) 0
  let product := aInt * bInt
  let scale := pa.fracStr.length + pb.fracStr.length
  let negative := pa.negative != pb.negative
  let formatted := formatScaledInt product scale
  return String.ofList (if negative && product ≠ 0 then '-' :: formatted else formatted)

/-- `(p.negative ? -1n : 1n) * toScaledMagnitude(p, scale)`. -/
def signedMagnitude (p : ParsedDecimal) (scale : Nat) : Int :=
  (if p.negative then -1 else 1) * toScaledMagnitude p scale

/-- A signed scaled integer as a decimal string, without a sign on zero. -/
def formatSigned (value : Int) (scale : Nat) : String :=
  let formatted := formatScaledInt value.natAbs scale
  String.ofList (if value < 0 then '-' :: formatted else formatted)

def addDecimals (a b : String) : Except String String := do
  let pa ← parseDecimalString a
  let pb ← parseDecimalString b
  let scale := max pa.fracStr.length pb.fracStr.length
  return formatSigned (signedMagnitude pa scale + signedMagnitude pb scale) scale

def subtractDecimals (a b : String) : Except String String := do
  let pa ← parseDecimalString a
  let pb ← parseDecimalString b
  let scale := max pa.fracStr.length pb.fracStr.length
  return formatSigned (signedMagnitude pa scale - signedMagnitude pb scale) scale

def compareDecimals (a b : String) : Except String Int := do
  let pa ← parseDecimalString a
  let pb ← parseDecimalString b
  let scale := max pa.fracStr.length pb.fracStr.length
  let aSigned := signedMagnitude pa scale
  let bSigned := signedMagnitude pb scale
  return if aSigned < bSigned then -1 else if aSigned > bSigned then 1 else 0

def ParsedDecimal.val (p : ParsedDecimal) : ℚ :=
  (if p.negative then -1 else 1) * (Nat.ofDigitChars 10 p.intStr 0 +
    Nat.ofDigitChars 10 p.fracStr 0 / 10 ^ p.fracStr.length)

end Credence.Lib.DecimalMath
