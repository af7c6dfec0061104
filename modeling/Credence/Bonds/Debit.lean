import Credence.Js.Map
import Credence.Wallets.Repository

/-! `BondsRepository.debit` of a repository with a pool. The `amount` of a bond is a number of
units of `10 ^ -7`; the column rounds what is written to it. -/

namespace Credence.Bonds

open Js Pg Lib.DecimalMath List

def amountPrecision : Nat := 20

def amountScale : Nat := 7

inductive DebitError where
  | invalidAmount (amount : String)
  | notFound (id : Nat)
  | insufficientFunds (id : Nat) (available requested : String)
  | other (text : String)
  | database (code : String)
  deriving DecidableEq

/-- The amounts by the id of the bond. -/
abbrev Table := List (Nat × ℤ)

def amountText (units : ℤ) : String := formatSigned units amountScale

/-- `SET amount = (amount - $2::NUMERIC)` on a column with `CHECK (amount >= 0)`. -/
def updateAmount (units : ℤ) (amount : String) : Except DebitError ℤ :=
  match numericIn amount.toList with
  | none => .error (.database "22P02")
  | some change =>
    match storeNumeric amountPrecision amountScale ((units : ℚ) / 10 ^ amountScale - change) with
    | none => .error (.database "22003")
    | some updated => if updated < 0 then .error (.database "23514") else .ok updated

def debit (id : Nat) (amount : String) (bonds : Table) : Except DebitError (ℤ × Table) :=
  if isValidPositiveDecimal amount = true then
    match Map.get id bonds with
    | none => .error (.notFound id)
    | some current =>
      match compareDecimals amount (amountText current) with
      | .error text => .error (.other text)
      | .ok order =>
        if order > 0 then .error (.insufficientFunds id (amountText current) amount)
        else
          match updateAmount current amount with
          | .error e => .error e
          | .ok updated => .ok (updated, Map.set id updated bonds)
  else .error (.invalidAmount amount)

def debits (id : Nat) : List String → Table → Except DebitError Table
  | [], bonds => .ok bonds
  | amount :: amounts, bonds =>
    match debit id amount bonds with
    | .error e => .error e
    | .ok answer => debits id amounts answer.2

def WholeUnits (amount : String) : Prop :=
  ∃ units : ℤ, decimal amount = (units : ℚ) / 10 ^ amountScale

variable {amount : String}

theorem decimal_pos (h : isValidPositiveDecimal amount = true) : 0 < decimal amount := by
  obtain ⟨p, hp, hn, hd⟩ := isValidPositiveDecimal_iff.mp h
  rw [decimal_eq_digits hp hn]
  have : (0 : ℚ) < Nat.ofDigitChars 10 (p.intStr ++ p.fracStr) 0 := by exact_mod_cast hd
  positivity

theorem decimal_le_of_compare {units order : ℤ} (hp : isValidPositiveDecimal amount = true)
    (h : compareDecimals amount (amountText units) = .ok order) (ho : ¬order > 0) :
    decimal amount ≤ (units : ℚ) / 10 ^ amountScale := by
  obtain ⟨pa, ha, -⟩ := isValidPositiveDecimal_iff.mp hp
  obtain ⟨pb, hb, hv, -⟩ := prints_formatSigned units amountScale
  obtain ⟨found, hf, hc⟩ := compareDecimals_exact ha hb
  obtain rfl : found = order := Except.ok.inj (hf.symm.trans h)
  rw [decimal_of_ok ha, ← hv]
  rcases hc with ⟨-, hl⟩ | ⟨-, he⟩ | ⟨rfl, -⟩
  · exact hl.le
  · exact he.le
  · exact absurd Int.one_pos ho

theorem debit_ok {id : Nat} {bonds after : Table} {updated : ℤ}
    (h : debit id amount bonds = .ok (updated, after)) : ∃ current,
    Map.get id bonds = some current ∧ 0 < decimal amount ∧
      decimal amount ≤ (current : ℚ) / 10 ^ amountScale ∧
      updateAmount current amount = .ok updated ∧ after = Map.set id updated bonds := by
  unfold debit at h
  split at h
  · next hp =>
    split at h
    · cases h
    · next current hc =>
      split at h
      · cases h
      · next order ha =>
        split at h
        · cases h
        · next ho =>
          split at h
          · cases h
          · next hu =>
            cases h
            exact ⟨current, hc, decimal_pos hp, decimal_le_of_compare hp ha ho, hu, rfl⟩
  · cases h

theorem updateAmount_exact {current updated : ℤ} (hu : WholeUnits amount)
    (hf : current < 10 ^ amountPrecision) (hp : 0 < decimal amount)
    (hl : decimal amount ≤ (current : ℚ) / 10 ^ amountScale)
    (h : updateAmount current amount = .ok updated) :
    (updated : ℚ) / 10 ^ amountScale = (current : ℚ) / 10 ^ amountScale - decimal amount ∧
      0 ≤ updated ∧ updated ≤ current := by
  obtain ⟨units, hv⟩ := hu
  have ha : (0 : ℚ) < 10 ^ amountScale := by positivity
  rw [hv] at hp hl
  have hb : 0 < units := by
    have := (div_pos_iff_of_pos_right ha).mp hp
    exact_mod_cast this
  have hh : units ≤ current := by
    have := (div_le_div_iff_of_pos_right ha).mp hl
    exact_mod_cast this
  have hs : ∀ change : ℚ, change = (units : ℚ) / 10 ^ amountScale →
      storeNumeric amountPrecision amountScale ((current : ℚ) / 10 ^ amountScale - change) =
        some (current - units) := by
    rintro _ rfl
    refine storeNumeric_of_exact (by push_cast; ring) ?_
    have : ((current - units).natAbs : ℤ) < (10 ^ amountPrecision : Nat) := by
      rw [Int.natAbs_of_nonneg (by omega)]
      push_cast
      omega
    exact_mod_cast this
  unfold updateAmount at h
  split at h
  · cases h
  · next change hi =>
    rw [hs change ((Wallets.decimal_of_numericIn hi).symm.trans hv)] at h
    simp only at h
    split at h
    · cases h
    · cases h
      refine ⟨?_, by omega, by omega⟩
      rw [hv]
      push_cast
      ring

section

variable {id : Nat} {bonds after : Table} {before : ℤ}

theorem debit_step {updated : ℤ} (hb : Map.get id bonds = some before)
    (hf : before < 10 ^ amountPrecision) (hu : WholeUnits amount)
    (h : debit id amount bonds = .ok (updated, after)) :
    Map.get id after = some updated ∧
      (updated : ℚ) / 10 ^ amountScale = (before : ℚ) / 10 ^ amountScale - decimal amount ∧
      0 ≤ updated ∧ updated < 10 ^ amountPrecision := by
  obtain ⟨current, hc, hp, hl, ha, rfl⟩ := debit_ok h
  obtain rfl : before = current := Option.some.inj (hb.symm.trans hc)
  obtain ⟨he, hd, hh⟩ := updateAmount_exact hu hf hp hl ha
  exact ⟨by simp [Map.get_set], he, hd, hh.trans_lt hf⟩

theorem debit_stored {updated : ℤ} (h : debit id amount bonds = .ok (updated, after)) :
    Map.get id after = some updated ∧ 0 ≤ updated := by
  obtain ⟨current, -, -, -, ha, rfl⟩ := debit_ok h
  refine ⟨by simp [Map.get_set], ?_⟩
  unfold updateAmount at ha
  split at ha
  · cases ha
  · split at ha
    · cases ha
    · split at ha
      · cases ha
      · next hn =>
        cases ha
        exact not_lt.mp hn

theorem debits_total {amounts : List String} (hb : Map.get id bonds = some before)
    (hl : 0 ≤ before) (hf : before < 10 ^ amountPrecision)
    (hu : ∀ amount ∈ amounts, WholeUnits amount) (h : debits id amounts bonds = .ok after) :
    ∃ units, Map.get id after = some units ∧ 0 ≤ units ∧
      (before : ℚ) / 10 ^ amountScale - (units : ℚ) / 10 ^ amountScale =
        (amounts.map decimal).sum := by
  induction amounts generalizing bonds before with
  | nil =>
    cases h
    exact ⟨before, hb, hl, by simp⟩
  | cons amount amounts ih =>
    unfold debits at h
    split at h
    · cases h
    · next answer hd =>
      obtain ⟨hp, he, hn, hr⟩ := debit_step hb hf (hu amount mem_cons_self) hd
      obtain ⟨units, hu', ha, ht⟩ := ih hp hn hr
        (fun other ho => hu other (mem_cons_of_mem _ ho)) h
      refine ⟨units, hu', ha, ?_⟩
      rw [map_cons, sum_cons, ← ht, he]
      ring

/-- A debit is exact precisely when its amount is a whole number of units, it never leaves a
negative amount, and a sequence of debits of whole units takes their sum from the bond. -/
theorem debit_exact (hBefore : Map.get id bonds = some before) (hLow : 0 ≤ before)
    (hFits : before < 10 ^ amountPrecision) :
    (∀ amount updated after, debit id amount bonds = .ok (updated, after) →
      Map.get id after = some updated ∧ 0 ≤ updated ∧
      ((updated : ℚ) / 10 ^ amountScale = (before : ℚ) / 10 ^ amountScale - decimal amount ↔
        WholeUnits amount)) ∧
    ∀ amounts after, (∀ amount ∈ amounts, WholeUnits amount) → debits id amounts bonds = .ok after →
      ∃ units, Map.get id after = some units ∧ 0 ≤ units ∧
        (before : ℚ) / 10 ^ amountScale - (units : ℚ) / 10 ^ amountScale =
          (amounts.map decimal).sum := by
  refine ⟨fun amount updated after h => ?_, fun amounts after hu h =>
    debits_total hBefore hLow hFits hu h⟩
  obtain ⟨hp, hn⟩ := debit_stored h
  refine ⟨hp, hn, fun he => ?_, fun hu => (debit_step hBefore hFits hu h).2.1⟩
  -- both amounts are whole numbers of units, and so is what was taken
  refine ⟨before - updated, ?_⟩
  push_cast
  linarith [sub_div (before : ℚ) updated (10 ^ amountScale)]

end

theorem debit_exact_quarter : debits 1 ["0.25", "0.5"] [(1, 10000000)] = .ok [(1, 2500000)] ∧
      (∃ units : ℤ, Map.get 1 [(1, 2500000)] = some units ∧ 0 ≤ units ∧
        ((10000000 : ℤ) : ℚ) / 10 ^ amountScale - (units : ℚ) / 10 ^ amountScale =
          (["0.25", "0.5"].map decimal).sum) ∧
      ¬WholeUnits "0.00000001" := by
  have hr : debits 1 ["0.25", "0.5"] [(1, 10000000)] = .ok [(1, 2500000)] := by decide +kernel
  have hu : ∀ amount ∈ ["0.25", "0.5"], WholeUnits amount := by
    simp only [mem_cons, not_mem_nil, or_false, forall_eq_or_imp, forall_eq]
    exact ⟨⟨2500000, by decide +kernel⟩, ⟨5000000, by decide +kernel⟩⟩
  have he := @debit_exact 1 [(1, 10000000)] 10000000 rfl (by decide) (by decide)
  have hd : debit 1 "0.00000001" [(1, 10000000)] = .ok (10000000, [(1, 10000000)]) := by
    decide +kernel
  exact ⟨hr, he.2 _ _ hu hr, fun hw => absurd ((he.1 _ _ _ hd).2.2.mpr hw) (by decide +kernel)⟩

/-- A debit of an eighth fractional digit returns and leaves the bond as it was. -/
theorem debit_rounds : debit 1 "0.00000001" [(1, 10000000)] = .ok (10000000, [(1, 10000000)]) ∧
      0 < decimal "0.00000001" := by
  decide +kernel

end Credence.Bonds
