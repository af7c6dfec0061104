import Credence.Lib.NumericBounds
import Credence.Pg.Numeric

/-! The bodies of `credit` and `debit` in `src/db/repositories/walletsRepository.ts`. A balance is
a number of units of `10 ^ -18`. -/

namespace Credence.Wallets

open Js Pg Lib.DecimalMath List

def balancePrecision : Nat := 36

def balanceScale : Nat := 18

inductive TransactionType where
  | credit
  | debit
  deriving DecidableEq

def TransactionType.text : TransactionType → String
  | credit => "credit"
  | debit => "debit"

inductive WalletError where
  | invalidAmount (type : TransactionType) (amount : String)
  | amountScale (amount : String) (maxScale : Nat)
  | amountOverflow (amount : String) (precision scale : Nat)
  | other (text : String)
  | notFound (walletId : String)
  | insufficientBalance (walletId available requested : String)
  | lockTimeout
  | database (code : String)
  deriving DecidableEq

/-- The texts of the repository's own errors; the others are passed on. -/
def WalletError.message : WalletError → String
  | invalidAmount type amount => "Invalid " ++ type.text ++ " amount: \"" ++ amount ++ "\""
  | amountScale amount maxScale =>
    "Amount \"" ++ amount ++ "\" has more than " ++ toString maxScale ++ " fractional digits"
  | amountOverflow amount _ _ =>
    "Amount \"" ++ amount ++ "\" exceeds the maximum representable wallet balance"
  | other text => text
  | notFound walletId => "Wallet " ++ walletId ++ " not found"
  | insufficientBalance walletId available requested =>
    "Insufficient balance in wallet " ++ walletId ++ ": available " ++ available ++
      ", requested " ++ requested
  | lockTimeout => "Lock timeout"
  | database code => code

def assertValidWalletAmount (amount : String) : Except WalletError Unit :=
  match assertWithinNumericBounds amount balancePrecision balanceScale with
  | .ok () => .ok ()
  | .error (.scale ..) => .error (.amountScale amount balanceScale)
  | .error (.overflow ..) => .error (.amountOverflow amount balancePrecision balanceScale)
  | .error (.other text) => .error (.other text)

def checkAmount (type : TransactionType) (amount : String) : Except WalletError Unit :=
  if isValidPositiveDecimal amount = true then assertValidWalletAmount amount
  else .error (.invalidAmount type amount)

/-- The check between the `SELECT … FOR UPDATE` and the `UPDATE`. -/
def checkBalance (type : TransactionType) (id amount previousBalance : String) :
    Except WalletError Unit :=
  match type with
  | .credit =>
    match addDecimals previousBalance amount with
    | .ok projectedBalance => assertValidWalletAmount projectedBalance
    | .error text => .error (.other text)
  | .debit =>
    match compareDecimals amount previousBalance with
    | .ok order =>
      if order > 0 then .error (.insufficientBalance id previousBalance amount) else .ok ()
    | .error text => .error (.other text)

def balanceText (units : ℤ) : String := formatSigned units balanceScale

def TransactionType.sign : TransactionType → ℤ
  | credit => 1
  | debit => -1

/-- `SET balance = balance ± $2::NUMERIC` on a column with `CHECK (balance >= 0)`. -/
def updateBalance (type : TransactionType) (units : ℤ) (amount : String) : Except WalletError ℤ :=
  match numericIn amount.toList with
  | none => .error (.database "22P02")
  | some change =>
    match storeNumeric balancePrecision balanceScale
        ((units : ℚ) / 10 ^ balanceScale + type.sign * change) with
    | none => .error (.database "22003")
    | some updated => if updated < 0 then .error (.database "23514") else .ok updated

/-- The amount of an accepted call, in units of the column. -/
structure AmountUnits (amount : String) (units : Nat) : Prop where
  value : decimal amount = (units : ℚ) / 10 ^ balanceScale
  positive : 0 < units
  fits : units < 10 ^ balancePrecision

variable {amount id : String} {type : TransactionType} {body : List Char} {units : Nat}
  {balance : ℤ}

theorem assertValidWalletAmount_ok_iff : assertValidWalletAmount amount = .ok () ↔
      ∃ p, parseDecimalString amount = .ok p ∧ p.fracStr.length ≤ balanceScale ∧
        toScaledMagnitude p balanceScale < 10 ^ balancePrecision := by
  rw [← assertWithinNumericBounds_ok_iff (by decide) (by decide)]
  unfold assertValidWalletAmount
  split <;> simp_all

theorem checkAmount_ok (h : checkAmount type amount = .ok ()) :
    ∃ units, AmountUnits amount units := by
  rw [checkAmount] at h
  split at h
  · rename_i ha
    obtain ⟨p, hp, hn, hd⟩ := isValidPositiveDecimal_iff.mp ha
    obtain ⟨p', hp', hs, hf⟩ := assertValidWalletAmount_ok_iff.mp h
    obtain rfl : p = p' := Except.ok.inj (hp.symm.trans hp')
    refine ⟨toScaledMagnitude p balanceScale, ?_, ?_, hf⟩
    · rw [decimal_of_ok hp, val_eq_scaled hs, signedMagnitude, hn,
        if_neg (by decide), one_mul, Int.cast_natCast]
    · rw [toScaledMagnitude_eq hs]
      positivity
  · cases h

theorem isWhiteSpace_of_isSpace (c : Char) (h : isSpace c = true) : isWhiteSpace c = true := by
  simp only [isSpace, decide_eq_true_eq, mem_cons, not_mem_nil, or_false] at h
  simp only [isWhiteSpace, Bool.or_eq_true, decide_eq_true_eq, mem_cons]
  omega

theorem decimalText_of_numericIn (hi : body.takeWhile Char.isDigit ≠ [])
    (hr : body.dropWhile Char.isDigit = [] ∨ (body.dropWhile Char.isDigit).head? = some '.' ∧
      (body.dropWhile Char.isDigit).tail.all Char.isDigit = true) : decimalText body = true := by
  rw [decimalText]
  cases hd : body.dropWhile Char.isDigit with
  | nil => simpa using hi
  | cons =>
    rw [hd] at hr
    simp only [reduceCtorEq, head?_cons, Option.some.injEq, tail_cons, false_or] at hr
    simp [hi, hr.1, hr.2]

theorem decimalText_split (h : decimalText body = true) :
    body.takeWhile (· != '.') = body.takeWhile Char.isDigit ∧
      (body.dropWhile (· != '.')).tail = (body.dropWhile Char.isDigit).tail := by
  obtain ⟨int, -, hi, rfl | ⟨frac, rfl, -⟩⟩ := decimalText_cases h
  · rw [(takeWhile_integer hi).1, (takeWhile_integer hi).2,
      takeWhile_eq_self_iff.mpr hi, dropWhile_eq_nil_iff.mpr hi]
    exact ⟨rfl, rfl⟩
  · have hp : Char.isDigit '.' = false := by decide
    rw [(takeWhile_point hi frac).1, (takeWhile_point hi frac).2,
      takeWhile_append_of_pos hi, dropWhile_append_of_pos hi]
    simp [hp]

/-- What the database reads from an amount is what the application has read from it. -/
theorem decimal_of_numericIn {q : ℚ} (h : numericIn amount.toList = some q) :
    decimal amount = q := by
  simp only [numericIn] at h
  split at h
  · rename_i hf
    obtain ⟨hi, hr⟩ := hf
    have ht := decimalText_of_numericIn hi hr
    have he := decimalText_not_whiteSpace ht
    have ha := trim_eq_of_strip isWhiteSpace_of_isSpace rfl
      (fun hn => hi (by rw [hn]; rfl)) (fun c hc => he c (mem_of_head? hc))
      fun c hc => he c (mem_of_getLast? hc)
    have hp := parse_unsigned (ha ▸ ht)
    obtain ⟨hb, hd⟩ := decimalText_split ht
    rw [decimal_eq_digits hp rfl, ← Option.some.inj h]
    simp only [ha, hb, hd]
  · cases h

/-- The balance that an accepted call leaves. -/
structure Moves (type : TransactionType) (amount : String) (before after : ℤ) : Prop where
  accepted : ∃ units, AmountUnits amount units ∧ after = before + type.sign * units
  nonneg : 0 ≤ after
  fits : after < 10 ^ balancePrecision

theorem decimal_balanceText (units : ℤ) :
    decimal (balanceText units) = (units : ℚ) / 10 ^ balanceScale :=
  decimal_of_prints (prints_formatSigned units balanceScale)

theorem AmountUnits.parsed (h : AmountUnits amount units) :
    ∃ p, parseDecimalString amount = .ok p ∧ p.val = (units : ℚ) / 10 ^ balanceScale := by
  have hv := h.value
  cases hp : parseDecimalString amount with
  | ok p =>
    rw [decimal_of_ok hp] at hv
    exact ⟨p, rfl, hv⟩
  | error =>
    unfold decimal at hv
    rw [hp] at hv
    have ha : (0 : ℚ) < units / 10 ^ balanceScale := by
      have hu : (0 : ℚ) < units := by exact_mod_cast h.positive
      positivity
    exact absurd hv ha.ne

theorem checkBalance_credit (ha : AmountUnits amount units)
    (h : checkBalance .credit id amount (balanceText balance) = .ok ()) :
    balance + units < 10 ^ balancePrecision := by
  obtain ⟨pa, hc, hd, -⟩ := prints_formatSigned balance balanceScale
  obtain ⟨pb, he, hg⟩ := ha.parsed
  obtain ⟨projected, had, p, hp, hv, -⟩ := addDecimals_exact hc he
  unfold checkBalance balanceText at h
  simp only [had] at h
  obtain ⟨p', hp', hs, hf⟩ := assertValidWalletAmount_ok_iff.mp h
  obtain rfl : p = p' := Except.ok.inj (hp.symm.trans hp')
  have hu : signedMagnitude p balanceScale = balance + units := by
    rw [val_eq_scaled hs, hd, hg, ← add_div,
      div_left_inj' (by positivity : (10 : ℚ) ^ balanceScale ≠ 0)] at hv
    exact_mod_cast hv
  have hl : signedMagnitude p balanceScale ≤ toScaledMagnitude p balanceScale := by
    rw [signedMagnitude]
    split <;> omega
  have hb : (toScaledMagnitude p balanceScale : ℤ) < 10 ^ balancePrecision := by
    exact_mod_cast hf
  omega

theorem checkBalance_debit (ha : AmountUnits amount units)
    (h : checkBalance .debit id amount (balanceText balance) = .ok ()) : (units : ℤ) ≤ balance := by
  obtain ⟨pa, hp, hv, -⟩ := prints_formatSigned balance balanceScale
  obtain ⟨pb, hb, hd⟩ := ha.parsed
  obtain ⟨order, hc, ho⟩ := compareDecimals_exact hb hp
  unfold checkBalance balanceText at h
  simp only [hc] at h
  have hl : pb.val ≤ pa.val := by
    rcases ho with ⟨-, hLt⟩ | ⟨-, he⟩ | ⟨rfl, -⟩
    · exact hLt.le
    · exact he.le
    · simp at h
  rw [hv, hd, div_le_div_iff_of_pos_right (by positivity)] at hl
  exact_mod_cast hl

/-- The checks of the application leave nothing for the database's: the `UPDATE` either does not
read the amount, or stores the exact sum. -/
theorem updateBalance_cases (ha : checkAmount type amount = .ok ()) (hl : 0 ≤ balance)
    (hh : balance < 10 ^ balancePrecision)
    (hb : checkBalance type id amount (balanceText balance) = .ok ()) :
    updateBalance type balance amount = .error (.database "22P02") ∨
      ∃ after, updateBalance type balance amount = .ok after ∧ Moves type amount balance after := by
  obtain ⟨units, hu⟩ := checkAmount_ok ha
  have hr : 0 ≤ balance + type.sign * units ∧
      balance + type.sign * units < 10 ^ balancePrecision := by
    cases type with
    | credit =>
      have hLt := checkBalance_credit hu hb
      simp only [TransactionType.sign, one_mul]
      omega
    | debit =>
      have hLe := checkBalance_debit hu hb
      simp only [TransactionType.sign]
      omega
  cases hi : numericIn amount.toList with
  | none => simp [updateBalance, hi]
  | some change =>
    right
    have hc : change = (units : ℚ) / 10 ^ balanceScale := by
      rw [← decimal_of_numericIn hi, hu.value]
    have he : (balance : ℚ) / 10 ^ balanceScale + type.sign * change =
        ((balance + type.sign * units : ℤ) : ℚ) / 10 ^ balanceScale := by
      rw [hc]
      push_cast
      ring
    have hf : (balance + type.sign * units).natAbs < 10 ^ balancePrecision := by
      have hd : ((balance + type.sign * units).natAbs : ℤ) < (10 ^ balancePrecision : Nat) := by
        rw [Int.natAbs_of_nonneg hr.1]
        exact_mod_cast hr.2
      exact_mod_cast hd
    refine ⟨balance + type.sign * units, ?_, ⟨units, hu, rfl⟩, hr.1, hr.2⟩
    simp only [updateBalance, hi, storeNumeric_of_exact he hf]
    rw [if_neg hr.1.not_gt]

end Credence.Wallets
