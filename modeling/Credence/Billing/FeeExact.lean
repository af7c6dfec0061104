import Credence.Billing.FeeEngine

/-! The fee engine is exact up to one rounding per rate: every step parses the text that the step
before it printed to the number it was printed from. -/

namespace Credence.Billing

open Js Lib.DecimalMath List

def NonNegativeDecimal (value : String) : Prop := decimalText (trim value.toList) = true

def fracDigits (value : String) : List Char := ((trim value.toList).dropWhile (· != '.')).tail

variable {value amount : String} {rates rates' : List String} {mode : RoundingMode} {fee : Nat}

theorem parseNonNegativeDecimal_ok (h : NonNegativeDecimal value) :
    ∃ p, (∀ label, parseNonNegativeDecimal value label = .ok p) ∧
      parseDecimalString value = .ok p ∧ p.negative = false ∧
      p.intStr = (trim value.toList).takeWhile (· != '.') ∧ p.fracStr = fracDigits value := by
  exact ⟨_, fun label => dif_pos h, parse_unsigned h, rfl, rfl, rfl⟩

theorem parseNonNegativeDecimal_error (h : ¬ NonNegativeDecimal value) (label : String) :
    ∃ e, parseNonNegativeDecimal value label = .error e :=
  ⟨_, dif_neg h⟩

def amountText (units scale : Nat) : String := String.ofList (formatScaledInt units scale)

theorem prints_amountText (units scale : Nat) :
    Prints (amountText units scale) (units / 10 ^ scale) scale := by
  have hp := prints_withSign false units scale (by simp)
  rw [signFactor, if_neg (by decide), one_mul] at hp
  exact hp

theorem trim_amountText (units scale : Nat) :
    trim (amountText units scale).toList = formatScaledInt units scale := by
  rw [amountText, String.toList_ofList]
  exact trim_withSign false (formatScaledInt_text units scale).1

theorem parse_amountText (units scale : Nat) :
    ∃ p, (∀ label, parseNonNegativeDecimal (amountText units scale) label = .ok p) ∧
      parseDecimalString (amountText units scale) = .ok p ∧ p.negative = false ∧
      p.fracStr.length = scale ∧ Nat.ofDigitChars 10 (p.intStr ++ p.fracStr) 0 = units := by
  obtain ⟨ht, hi, hf, hl⟩ := formatScaledInt_text units scale
  have ha : NonNegativeDecimal (amountText units scale) := by
    rw [NonNegativeDecimal, trim_amountText]
    exact ht
  obtain ⟨p, hp, hb, hn, his, hs⟩ := parseNonNegativeDecimal_ok ha
  rw [trim_amountText] at his
  rw [fracDigits, trim_amountText] at hs
  refine ⟨p, hp, hb, hn, by rw [hs, hl], ?_⟩
  rw [ofDigitChars_append_zero, his, hs, hi, hf, hl, Nat.div_add_mod']

variable {scale : Nat}

theorem minorUnits_of_length {p : ParsedDecimal} (h : p.fracStr.length = scale) :
    minorUnits p scale = Nat.ofDigitChars 10 (p.intStr ++ p.fracStr) 0 := by
  have hp : (p.fracStr.rightpad scale '0').take scale = p.fracStr := by
    subst h
    simp [rightpad]
  rw [minorUnits, hp]

theorem roundToScale_amountText (units scale : Nat) (mode : RoundingMode) :
    roundToScale (amountText units scale) scale mode = .ok (amountText units scale) := by
  obtain ⟨p, -, hp, hn, hl, hu⟩ := parse_amountText units scale
  have hs : toScaledMagnitude p scale = units := by
    rw [toScaledMagnitude_eq hl.le, hu, hl, Nat.sub_self, pow_zero, mul_one]
  simp only [roundToScale, hp, bind, Except.bind, if_pos hl.le, hs, hn,
    Bool.false_and, Bool.false_eq_true, if_false]
  rfl

theorem addMoneyStrings_eq (a b scale : Nat) :
    addMoneyStrings (amountText a scale) (amountText b scale) scale =
      .ok (amountText (a + b) scale) := by
  obtain ⟨pa, hp, -, -, hl, hu⟩ := parse_amountText a scale
  obtain ⟨pb, hb, -, -, ha, hc⟩ := parse_amountText b scale
  simp only [addMoneyStrings, hp, hb, bind, Except.bind, minorUnits_of_length hl,
    minorUnits_of_length ha, hu, hc]
  exact roundToScale_amountText (a + b) scale .down

/-! ### The base amount -/

structure FitsScale (amount : String) (scale : Nat) : Prop where
  accepted : NonNegativeDecimal amount
  fits : (fracDigits amount).length ≤ scale

def baseUnits (amount : String) (scale : Nat) : Nat :=
  match parseDecimalString amount with
  | .ok parsed => toScaledMagnitude parsed scale
  | .error _ => 0

theorem decimal_eq_baseUnits (h : FitsScale amount scale) :
    decimal amount = (baseUnits amount scale : ℚ) / 10 ^ scale := by
  obtain ⟨p, -, hp, hn, -, hf⟩ := parseNonNegativeDecimal_ok h.accepted
  have hi : p.fracStr.length ≤ scale := hf ▸ h.fits
  simp only [decimal, baseUnits, hp]
  rw [val_eq_scaled hi, signedMagnitude, hn, if_neg (by decide), one_mul, Int.cast_natCast]

theorem normalise_eq (h : FitsScale amount scale) (currency : String) :
    normaliseAndValidateBaseAmount amount currency (.places scale) =
      .ok (amountText (baseUnits amount scale) scale) := by
  obtain ⟨p, hp, ha, hn, -, hr⟩ := parseNonNegativeDecimal_ok h.accepted
  have hf : p.fracStr.length ≤ scale := hr ▸ h.fits
  simp only [normaliseAndValidateBaseAmount, hp, bind, Except.bind, if_neg hf.not_gt,
    roundToScale, ha, if_pos hf, hn, Bool.false_and, Bool.false_eq_true, if_false, baseUnits]
  rfl

theorem normalise_ok {currency s : String} {scale : CurrencyScale}
    (h : normaliseAndValidateBaseAmount amount currency scale = .ok s) :
    ∃ n, scale = .places n ∧ FitsScale amount n := by
  by_cases ha : NonNegativeDecimal amount
  · obtain ⟨p, hp, -, -, -, hf⟩ := parseNonNegativeDecimal_ok ha
    cases scale with
    | inherited => simp [normaliseAndValidateBaseAmount, hp, bind, Except.bind, throw,
        throwThe, MonadExceptOf.throw] at h
    | places n =>
      refine ⟨n, rfl, ha, ?_⟩
      by_contra hl
      rw [← hf] at hl
      simp [normaliseAndValidateBaseAmount, hp, bind, Except.bind, throw, throwThe,
        MonadExceptOf.throw, not_le.mp hl] at h
  · obtain ⟨e, he⟩ := parseNonNegativeDecimal_error ha "base.amount"
    simp [normaliseAndValidateBaseAmount, he, bind, Except.bind] at h

/-! ### The fees -/

/-- `base * rate / 100` in minor units, rounded by `mode`. -/
def feeUnits (mode : RoundingMode) (scale : Nat) (base rate : ℚ) : ℤ :=
  mode.round (base * rate / 100 * 10 ^ scale)

variable {rate : String}

theorem computeRawFee_eq (units scale : Nat) (hr : NonNegativeDecimal rate) (mode : RoundingMode) :
    ∃ fee : Nat, computeRawFee (amountText units scale) rate scale mode =
        .ok (amountText fee scale) ∧
      (fee : ℤ) = feeUnits mode scale (units / 10 ^ scale) (decimal rate) := by
  obtain ⟨pa, ha, -, -, hl, hu⟩ := parse_amountText units scale
  obtain ⟨pr, hb, hp, hn, -, -⟩ := parseNonNegativeDecimal_ok hr
  refine ⟨_, by simp only [computeRawFee, ha, hb, bind, Except.bind]; rfl, ?_⟩
  rw [applyDivisionRounding_eq _ (by positivity), feeUnits, decimal_eq_digits hp hn,
    hu, hl, pow_add]
  congr 1
  push_cast
  field_simp

theorem computeRawFee_error (units scale : Nat) (hr : ¬ NonNegativeDecimal rate)
    (mode : RoundingMode) :
    ∃ e, computeRawFee (amountText units scale) rate scale mode = .error e := by
  obtain ⟨pa, hp, -⟩ := parse_amountText units scale
  obtain ⟨e, he⟩ := parseNonNegativeDecimal_error hr "ratePercent"
  exact ⟨e, by simp only [computeRawFee, hp, he, bind, Except.bind]⟩

def totalUnits (mode : RoundingMode) (scale : Nat) (base : ℚ) (rates : List String) : ℤ :=
  (rates.map fun rate => feeUnits mode scale base (decimal rate)).sum

theorem sumFees_eq (units scale : Nat) (mode : RoundingMode)
    (hr : ∀ rate ∈ rates, NonNegativeDecimal rate) (start : Nat) :
    ∃ total : Nat, sumFees (amountText units scale) scale mode rates start = .ok (start + total) ∧
      (total : ℤ) = totalUnits mode scale (units / 10 ^ scale) rates := by
  induction rates generalizing start with
  | nil => exact ⟨0, rfl, rfl⟩
  | cons rate rates ih =>
    rw [forall_mem_cons] at hr
    obtain ⟨fee, hf, ha⟩ := computeRawFee_eq units scale hr.1 mode
    obtain ⟨p, hp, -, -, hl, hu⟩ := parse_amountText fee scale
    obtain ⟨total, hs, ht⟩ := ih hr.2 (start + fee)
    refine ⟨fee + total, ?_, ?_⟩
    · simp only [sumFees, hf, hp, bind, Except.bind, minorUnits_of_length hl, hu]
      rw [hs, Nat.add_assoc]
    · rw [totalUnits, map_cons, sum_cons, ← totalUnits, ← ha, ← ht]
      push_cast
      rfl

theorem rates_of_sumFees {units : Nat} {start total : Nat}
    (h : sumFees (amountText units scale) scale mode rates start = .ok total) :
    ∀ rate ∈ rates, NonNegativeDecimal rate := by
  induction rates generalizing start with
  | nil => simp
  | cons rate rates ih =>
    by_cases hr : NonNegativeDecimal rate
    · obtain ⟨fee, hf, -⟩ := computeRawFee_eq units scale hr mode
      obtain ⟨p, hp, -⟩ := parse_amountText fee scale
      simp only [sumFees, hf, hp, bind, Except.bind] at h
      exact forall_mem_cons.mpr ⟨hr, ih h⟩
    · obtain ⟨e, he⟩ := computeRawFee_error units scale hr mode
      simp [sumFees, he, bind, Except.bind] at h

structure Accepts (base : Money) (rates : List String) (scale : Nat) : Prop where
  currency : getCurrencyScale base.currency = .places scale
  amount : FitsScale base.amount scale
  rates : ∀ rate ∈ rates, NonNegativeDecimal rate

def resultOf (currency : String) (scale base fee : Nat) : FeeResult where
  baseAmount := ⟨amountText base scale, currency⟩
  feeAmount := ⟨amountText fee scale, currency⟩
  totalAmount := ⟨amountText (base + fee) scale, currency⟩

theorem amountText_zero (scale : Nat) :
    String.ofList (if scale = 0 then ['0'] else '0' :: '.' :: replicate scale '0') =
      amountText 0 scale := by
  rw [amountText, formatScaledInt]
  split
  · rfl
  · rename_i hne
    have hp : (Nat.toDigits 10 0).leftpad scale '0' = replicate scale '0' := by
      rw [Nat.toDigits_zero, leftpad, length_singleton, ← replicate_one,
        replicate_append_replicate, Nat.sub_add_cancel (by omega)]
    rw [Nat.zero_div, Nat.zero_mod, hp]
    rfl

variable {base : Money}

theorem applyFees_eq (h : Accepts base rates scale) (mode : RoundingMode) :
    ∃ fee : Nat, applyFees base rates mode =
        .ok (resultOf base.currency scale (baseUnits base.amount scale) fee) ∧
      (fee : ℤ) = totalUnits mode scale (decimal base.amount) rates := by
  by_cases hn : rates = []
  · subst hn
    refine ⟨0, ?_, rfl⟩
    simp only [applyFees, h.currency, normalise_eq h.amount, bind, Except.bind, if_true,
      CurrencyScale.toNat, amountText_zero]
    rfl
  · obtain ⟨fee, hs, hf⟩ := sumFees_eq (baseUnits base.amount scale) scale mode h.rates 0
    rw [← decimal_eq_baseUnits h.amount] at hf
    refine ⟨fee, ?_, hf⟩
    simp only [applyFees, h.currency, normalise_eq h.amount, bind, Except.bind, if_neg hn,
      CurrencyScale.toNat, hs, Nat.zero_add]
    rw [← amountText, addMoneyStrings_eq]
    rfl

theorem accepts_of_ok {result : FeeResult} (h : applyFees base rates mode = .ok result) :
    ∃ scale, Accepts base rates scale := by
  cases hb : normaliseAndValidateBaseAmount base.amount base.currency
      (getCurrencyScale base.currency) with
  | error e => simp [applyFees, hb, bind, Except.bind] at h
  | ok s =>
    obtain ⟨scale, hs, hf⟩ := normalise_ok hb
    refine ⟨scale, hs, hf, ?_⟩
    by_cases hn : rates = []
    · simp [hn]
    · cases hu : sumFees (amountText (baseUnits base.amount scale) scale) scale mode rates 0 with
      | error =>
        simp [applyFees, hs, normalise_eq hf, bind, Except.bind, hn, CurrencyScale.toNat, hu] at h
      | ok => exact rates_of_sumFees hu

theorem calculateFee_eq (hc : getCurrencyScale base.currency = .places scale)
    (ha : FitsScale base.amount scale) (hr : NonNegativeDecimal rate)
    (mode : RoundingMode) :
    ∃ fee : Nat, calculateFee ⟨base, rate⟩ mode =
        .ok (resultOf base.currency scale (baseUnits base.amount scale) fee) ∧
      (fee : ℤ) = feeUnits mode scale (decimal base.amount) (decimal rate) := by
  obtain ⟨fee, hf, hu⟩ := computeRawFee_eq (baseUnits base.amount scale) scale hr mode
  rw [← decimal_eq_baseUnits ha] at hu
  obtain ⟨c, rest, ht, hd⟩ := decimalText_head hr
  refine ⟨fee, ?_, hu⟩
  simp only [calculateFee, parseFloatNegative_eq_false ht (digit_ne_minus hd),
    Bool.false_eq_true, if_false, hc, normalise_eq ha, bind, Except.bind,
    CurrencyScale.toNat, hf, addMoneyStrings_eq]
  rfl

/-! ### Error and order -/

theorem decimal_nonneg (h : NonNegativeDecimal value) : 0 ≤ decimal value := by
  obtain ⟨p, -, hp, hn, -⟩ := parseNonNegativeDecimal_ok h
  rw [decimal_eq_digits hp hn]
  positivity

theorem abs_totalUnits_sub_le (scale : Nat) (base : ℚ) (rates : List String) :
    |(totalUnits .halfUp scale base rates : ℚ) -
        base * (rates.map decimal).sum / 100 * 10 ^ scale| ≤ rates.length * (1 / 2) := by
  induction rates with
  | nil => simp [totalUnits]
  | cons rate rates ih =>
    have hf := RoundingMode.abs_halfUp_sub_le (base * decimal rate / 100 * 10 ^ scale)
    have hs : (totalUnits .halfUp scale base (rate :: rates) : ℚ) -
          base * ((rate :: rates).map decimal).sum / 100 * 10 ^ scale =
        ((RoundingMode.halfUp.round (base * decimal rate / 100 * 10 ^ scale) : ℚ) -
          base * decimal rate / 100 * 10 ^ scale) +
        ((totalUnits .halfUp scale base rates : ℚ) -
          base * (rates.map decimal).sum / 100 * 10 ^ scale) := by
      simp only [totalUnits, feeUnits, map_cons, sum_cons]
      push_cast
      ring
    have hl : ((rate :: rates).length : ℚ) * (1 / 2) = 1 / 2 + rates.length * (1 / 2) := by
      rw [length_cons]
      push_cast
      ring
    rw [hs, hl]
    exact (abs_add_le _ _).trans (add_le_add hf ih)

theorem feeUnits_mono (mode : RoundingMode) (scale : Nat) {base base' rate rate' : ℚ}
    (ha : 0 ≤ base) (hr : 0 ≤ rate) (hb : base ≤ base') (hc : rate ≤ rate') :
    feeUnits mode scale base rate ≤ feeUnits mode scale base' rate' := by
  apply mode.round_mono
  have hp : base * rate ≤ base' * rate' := mul_le_mul hb hc hr (ha.trans hb)
  gcongr

theorem totalUnits_mono (mode : RoundingMode) (scale : Nat) {base base' : ℚ} (hb : 0 ≤ base)
    (ha : base ≤ base') (hn : ∀ rate ∈ rates, NonNegativeDecimal rate)
    (hr : List.Forall₂ (fun rate rate' => decimal rate ≤ decimal rate') rates rates') :
    totalUnits mode scale base rates ≤ totalUnits mode scale base' rates' := by
  induction hr with
  | nil => exact le_rfl
  | cons hl _ ih =>
    rw [forall_mem_cons] at hn
    simp only [totalUnits, map_cons, sum_cons]
    exact add_le_add (feeUnits_mono mode scale hb (decimal_nonneg hn.1) ha hl)
      (ih hn.2)

theorem decimal_amountText (units scale : Nat) :
    decimal (amountText units scale) = (units : ℚ) / 10 ^ scale :=
  decimal_of_prints (prints_amountText units scale)

theorem calculateFee_forall (h : Accepts base rates scale) (mode : RoundingMode) :
    ∃ fees, List.Forall₂ (fun rate fee => calculateFee ⟨base, rate⟩ mode = .ok fee ∧
        Prints fee.feeAmount.amount
          (mode.round (decimal base.amount * decimal rate / 100 * 10 ^ scale) / 10 ^ scale) scale)
        rates fees ∧
      (fees.map fun fee => decimal fee.feeAmount.amount).sum =
        (totalUnits mode scale (decimal base.amount) rates : ℚ) / 10 ^ scale := by
  obtain ⟨hb, ha, hr⟩ := h
  induction rates with
  | nil => exact ⟨[], .nil, by simp [totalUnits]⟩
  | cons rate rates ih =>
    rw [forall_mem_cons] at hr
    obtain ⟨fees, hf, hs⟩ := ih hr.2
    obtain ⟨units, he, hu⟩ := calculateFee_eq hb ha hr.1 mode
    have hc : (units : ℚ) = (feeUnits mode scale (decimal base.amount) (decimal rate) : ℚ) := by
      exact_mod_cast hu
    refine ⟨_ :: fees, .cons ⟨he, ?_⟩ hf, ?_⟩
    · have hp := prints_amountText units scale
      rw [hc] at hp
      exact hp
    · rw [map_cons, sum_cons, hs]
      simp only [resultOf, decimal_amountText, totalUnits, map_cons, sum_cons]
      rw [hc, ← add_div]
      push_cast
      rfl

theorem applyFees_perm (h : Accepts base rates scale)
    (hp : rates.Perm rates') (mode : RoundingMode) :
    applyFees base rates' mode = applyFees base rates mode := by
  have ho : Accepts base rates' scale :=
    ⟨h.currency, h.amount, fun rate hm => h.rates rate (hp.mem_iff.mpr hm)⟩
  obtain ⟨fee, hr, hf⟩ := applyFees_eq h mode
  obtain ⟨fee', hr', hf'⟩ := applyFees_eq ho mode
  have hu : totalUnits mode scale (decimal base.amount) rates' =
      totalUnits mode scale (decimal base.amount) rates := ((hp.map _).sum_eq).symm
  have hs : fee' = fee := by omega
  rw [hr, hr', hs]

theorem calculateFee_eq_applyFees (h : Accepts base [rate] scale) (mode : RoundingMode) :
    calculateFee ⟨base, rate⟩ mode = applyFees base [rate] mode := by
  obtain ⟨fee, hr, hf⟩ := applyFees_eq h mode
  obtain ⟨units, hs, hu⟩ :=
    calculateFee_eq h.currency h.amount (h.rates rate (by simp)) mode
  simp only [totalUnits, map_cons, map_nil, sum_cons, sum_nil] at hf
  have ha : units = fee := by omega
  rw [hr, hs, ha]

theorem abs_halfUp_fee_sub_le {base : ℚ} (hf : (fee : ℤ) = totalUnits .halfUp scale base rates) :
    |decimal (amountText fee scale) - base * (rates.map decimal).sum / 100| ≤
      rates.length * (1 / 2 / 10 ^ scale) := by
  have hp : (0 : ℚ) < 10 ^ scale := by positivity
  have hc : (fee : ℚ) = (totalUnits .halfUp scale base rates : ℚ) := by exact_mod_cast hf
  have hb := abs_totalUnits_sub_le scale base rates
  have hs : decimal (amountText fee scale) - base * (rates.map decimal).sum / 100 =
      ((totalUnits .halfUp scale base rates : ℚ) -
        base * (rates.map decimal).sum / 100 * 10 ^ scale) / 10 ^ scale := by
    rw [decimal_amountText, hc, sub_div, mul_div_cancel_right₀ _ hp.ne']
  rw [hs, abs_div, abs_of_pos hp, ← mul_div_assoc]
  gcongr

theorem feeAmount_mono {base' : Money} {scale' : Nat} {fee' : Nat}
    (h : Accepts base rates scale) (h' : Accepts base' rates' scale')
    (hf : (fee : ℤ) = totalUnits mode scale (decimal base.amount) rates)
    (hf' : (fee' : ℤ) = totalUnits mode scale' (decimal base'.amount) rates')
    (hc : base'.currency = base.currency)
    (hb : decimal base.amount ≤ decimal base'.amount)
    (hr : List.Forall₂ (fun rate rate' => decimal rate ≤ decimal rate') rates rates') :
    decimal (amountText fee scale) ≤ decimal (amountText fee' scale') := by
  obtain rfl : scale' = scale := by
    have hs := h'.currency
    rw [hc, h.currency] at hs
    exact (CurrencyScale.places.inj hs).symm
  have hl := totalUnits_mono mode scale' (decimal_nonneg h.amount.accepted) hb h.rates hr
  rw [← hf, ← hf'] at hl
  have he : (fee : ℚ) ≤ fee' := by exact_mod_cast hl
  rw [decimal_amountText, decimal_amountText]
  gcongr

/-- What `applyFees` returns adds up; its fee is the sum of the rates' fees in any order, each
rounded once; it is monotone in the amount and in the rates. -/
theorem applyFees_exact {base : Money} {rates : List String} {mode : RoundingMode}
    {result : FeeResult} (h : applyFees base rates mode = .ok result) :
    ∃ scale, getCurrencyScale base.currency = .places scale ∧
      Prints result.baseAmount.amount (decimal base.amount) scale ∧
      Prints result.feeAmount.amount (decimal result.feeAmount.amount) scale ∧
      Prints result.totalAmount.amount
        (decimal result.baseAmount.amount + decimal result.feeAmount.amount) scale ∧
      (∃ fees, List.Forall₂ (fun rate fee => calculateFee ⟨base, rate⟩ mode = .ok fee ∧
          Prints fee.feeAmount.amount
            (mode.round (decimal base.amount * decimal rate / 100 * 10 ^ scale) / 10 ^ scale)
            scale) rates fees ∧
        decimal result.feeAmount.amount = (fees.map fun fee => decimal fee.feeAmount.amount).sum) ∧
      (∀ rates', rates.Perm rates' → applyFees base rates' mode = .ok result) ∧
      (∀ rate, rates = [rate] → calculateFee ⟨base, rate⟩ mode = .ok result) ∧
      (mode = .halfUp → |decimal result.feeAmount.amount -
          decimal base.amount * (rates.map decimal).sum / 100| ≤
        rates.length * (1 / 2 / 10 ^ scale)) ∧
      ∀ base' rates' result', base'.currency = base.currency →
        applyFees base' rates' mode = .ok result' → decimal base.amount ≤ decimal base'.amount →
        List.Forall₂ (fun rate rate' => decimal rate ≤ decimal rate') rates rates' →
        decimal result.feeAmount.amount ≤ decimal result'.feeAmount.amount := by
  obtain ⟨scale, ha⟩ := accepts_of_ok h
  obtain ⟨fee, hr, hf⟩ := applyFees_eq ha mode
  obtain rfl : resultOf base.currency scale (baseUnits base.amount scale) fee = result :=
    Except.ok.inj (hr.symm.trans h)
  have hc : (fee : ℚ) = (totalUnits mode scale (decimal base.amount) rates : ℚ) := by
    exact_mod_cast hf
  refine ⟨scale, ha.currency, ?_, ?_, ?_, ?_, ?_, ?_, ?_, ?_⟩
  · rw [decimal_eq_baseUnits ha.amount]
    exact prints_amountText _ scale
  · simp only [resultOf, decimal_amountText]
    exact prints_amountText fee scale
  · simp only [resultOf, decimal_amountText]
    rw [← add_div]
    exact_mod_cast prints_amountText (baseUnits base.amount scale + fee) scale
  · obtain ⟨fees, he, hs⟩ := calculateFee_forall ha mode
    refine ⟨fees, he, ?_⟩
    rw [hs, ← hc]
    exact decimal_amountText fee scale
  · intro rates' hp
    exact (applyFees_perm ha hp mode).trans hr
  · rintro rate rfl
    exact (calculateFee_eq_applyFees ha mode).trans hr
  · rintro rfl
    exact abs_halfUp_fee_sub_le hf
  · intro base' rates' result' hu ho hb hd
    obtain ⟨scale', ha'⟩ := accepts_of_ok ho
    obtain ⟨fee', hr', hf'⟩ := applyFees_eq ha' mode
    obtain rfl : resultOf base'.currency scale' (baseUnits base'.amount scale') fee' = result' :=
      Except.ok.inj (hr'.symm.trans ho)
    exact feeAmount_mono ha ha' hf hf' hu hb hd

theorem applyFees_exact_dollars : ∃ result,
    applyFees ⟨"100.00", "USD"⟩ ["2.5", "0.333"] .halfUp = .ok result ∧
      Prints result.totalAmount.amount
        (decimal result.baseAmount.amount + decimal result.feeAmount.amount) 2 := by
  have ho : applyFees ⟨"100.00", "USD"⟩ ["2.5", "0.333"] .halfUp =
      .ok ⟨⟨"100.00", "USD"⟩, ⟨"2.83", "USD"⟩, ⟨"102.83", "USD"⟩⟩ := by decide +kernel
  obtain ⟨scale, hs, -, -, ht, -⟩ := applyFees_exact ho
  obtain rfl : scale = 2 := (CurrencyScale.places.inj hs).symm
  exact ⟨_, ho, ht⟩

end Credence.Billing
