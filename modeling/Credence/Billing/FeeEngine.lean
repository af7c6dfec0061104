import Credence.Lib.Rounding

/-! `src/services/billing/feeEngine.ts` and `types.ts`: percentage fees on an amount of money,
rounded to the minor unit of the currency. -/

namespace Credence.Billing

open Js Lib.DecimalMath

structure Money where
  amount : String
  currency : String
  deriving DecidableEq

structure FeeInput where
  base : Money
  ratePercent : String

structure FeeResult where
  baseAmount : Money
  feeAmount : Money
  totalAmount : Money
  deriving DecidableEq

/-- What indexing `CURRENCY_SCALES` gives: a number of decimal places, or the text of what
`Object.prototype` has under the name. -/
inductive CurrencyScale where
  | places (scale : Nat)
  | inherited (text : String)

def currencyScales : List (String × Nat) :=
  [("JPY", 0), ("KRW", 0), ("USD", 2), ("EUR", 2), ("GBP", 2), ("CAD", 2), ("AUD", 2), ("CHF", 2),
    ("MXN", 2), ("BRL", 2), ("SGD", 2), ("HKD", 2), ("SEK", 2), ("NOK", 2), ("DKK", 2), ("ZAR", 2),
    ("INR", 2), ("KWD", 3), ("BHD", 3), ("OMR", 3), ("JOD", 3)]

def defaultCurrencyScale : Nat := 2

def nativeFunction (name : String) : String := "function " ++ name ++ "() \x7b [native code] \x7d"

def objectPrototype : List (String × String) :=
  [("__proto__", "[object Object]"), ("constructor", nativeFunction "Object")] ++
    ["__defineGetter__", "__defineSetter__", "hasOwnProperty", "__lookupGetter__",
      "__lookupSetter__", "isPrototypeOf", "propertyIsEnumerable", "toString", "valueOf",
      "toLocaleString"].map fun name => (name, nativeFunction name)

def getCurrencyScale (currency : String) : CurrencyScale :=
  match currencyScales.lookup currency with
  | some scale => .places scale
  | none =>
    match objectPrototype.lookup currency with
    | some text => .inherited text
    | none => .places defaultCurrencyScale

/-- The result has no sign; `label` is in the text of the error only. -/
def parseNonNegativeDecimal (value label : String) : Except String ParsedDecimal :=
  let trimmed := trim value.toList
  if h : decimalText trimmed = true then
    .ok {
      negative := false
      intStr := trimmed.takeWhile (· != '.')
      fracStr := (trimmed.dropWhile (· != '.')).tail
      intStr_ne := (decimalText_parts h).1
      intStr_digits := (decimalText_parts h).2.1
      fracStr_digits := (decimalText_parts h).2.2 }
  else .error (label ++ " must be a non-negative decimal string, got: \"" ++ value ++ "\"")

/-- The comparison of a length with a scale that is not a number is false, and `roundToScale` throws
on such a scale. -/
def normaliseAndValidateBaseAmount (amount currency : String) (scale : CurrencyScale) :
    Except String String := do
  let parsed ← parseNonNegativeDecimal amount "base.amount"
  match scale with
  | .places scale =>
    if parsed.fracStr.length > scale then
      throw ("base.amount \"" ++ amount ++ "\" has " ++ toString parsed.fracStr.length ++
        " fractional digit(s), which exceeds the currency scale of " ++ toString scale ++ " for " ++
        currency)
    roundToScale amount scale .down
  | .inherited text => throw ("scale must be a non-negative integer, got: " ++ text)

def computeRawFee (amountStr rateStr : String) (targetScale : Nat) (mode : RoundingMode) :
    Except String String := do
  let amount ← parseNonNegativeDecimal amountStr "amount"
  let rate ← parseNonNegativeDecimal rateStr "ratePercent"
  let amountBig := Nat.ofDigitChars 10 (amount.intStr ++ amount.fracStr) 0
  let rateBig := Nat.ofDigitChars 10 (rate.intStr ++ rate.fracStr) 0
  let denominator := 10 ^ (amount.fracStr.length + rate.fracStr.length) * 100
  let numerator := amountBig * rateBig * 10 ^ targetScale
  let rounded := applyDivisionRounding (numerator / denominator) (numerator % denominator)
    denominator mode
  return String.ofList (formatScaledInt rounded targetScale)

/-- `BigInt(intDigits + fracDigits.padEnd(scale, '0').slice(0, scale))`. -/
def minorUnits (parsed : ParsedDecimal) (scale : Nat) : Nat :=
  Nat.ofDigitChars 10 (parsed.intStr ++ (parsed.fracStr.rightpad scale '0').take scale) 0

def addMoneyStrings (a b : String) (scale : Nat) : Except String String := do
  let aParsed ← parseNonNegativeDecimal a "a"
  let bParsed ← parseNonNegativeDecimal b "b"
  let sum := minorUnits aParsed scale + minorUnits bParsed scale
  roundToScale (String.ofList (formatScaledInt sum scale)) scale .down

/-- It is only reached with a number: `normaliseAndValidateBaseAmount` throws on any other value. -/
def CurrencyScale.toNat : CurrencyScale → Nat
  | places scale => scale
  | inherited _ => 0

def calculateFee (input : FeeInput) (roundingMode : RoundingMode) : Except String FeeResult := do
  let base := input.base
  if parseFloatNegative input.ratePercent.toList then
    throw ("ratePercent must be non-negative, got: \"" ++ input.ratePercent ++ "\"")
  let scale := getCurrencyScale base.currency
  let normalisedBase ← normaliseAndValidateBaseAmount base.amount base.currency scale
  let feeAmountStr ← computeRawFee normalisedBase input.ratePercent scale.toNat roundingMode
  let totalAmountStr ← addMoneyStrings normalisedBase feeAmountStr scale.toNat
  return {
    baseAmount := ⟨normalisedBase, base.currency⟩
    feeAmount := ⟨feeAmountStr, base.currency⟩
    totalAmount := ⟨totalAmountStr, base.currency⟩ }

def sumFees (normBase : String) (scale : Nat) (roundingMode : RoundingMode) :
    List String → Nat → Except String Nat
  | [], totalFee => return totalFee
  | rate :: rates, totalFee => do
    let feeStr ← computeRawFee normBase rate scale roundingMode
    let feeParsed ← parseNonNegativeDecimal feeStr "fee"
    sumFees normBase scale roundingMode rates (totalFee + minorUnits feeParsed scale)

def applyFees (base : Money) (rates : List String) (roundingMode : RoundingMode) :
    Except String FeeResult := do
  let scale := getCurrencyScale base.currency
  let normBase ← normaliseAndValidateBaseAmount base.amount base.currency scale
  if rates = [] then
    let zeroStr := if scale.toNat = 0 then ['0'] else '0' :: '.' :: List.replicate scale.toNat '0'
    return {
      baseAmount := ⟨normBase, base.currency⟩
      feeAmount := ⟨String.ofList zeroStr, base.currency⟩
      totalAmount := ⟨normBase, base.currency⟩ }
  let totalFee ← sumFees normBase scale.toNat roundingMode rates 0
  let feeAmountStr := String.ofList (formatScaledInt totalFee scale.toNat)
  let totalAmountStr ← addMoneyStrings normBase feeAmountStr scale.toNat
  return {
    baseAmount := ⟨normBase, base.currency⟩
    feeAmount := ⟨feeAmountStr, base.currency⟩
    totalAmount := ⟨totalAmountStr, base.currency⟩ }

end Credence.Billing
