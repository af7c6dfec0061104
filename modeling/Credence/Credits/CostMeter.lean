import Credence.Js.Double
import Credence.Pg.Client

/-! The cost meter of one organisation: its rows, its events, and the transactions of
`deductCredits` and `refundCredits`. Balances are `bigint`s read as numbers. -/

namespace Credence.Credits

open Js Pg Option

abbrev BigInt := { n : ℤ // -2 ^ 63 ≤ n ∧ n < 2 ^ 63 }

abbrev Integer := { n : ℤ // -2 ^ 31 ≤ n ∧ n < 2 ^ 31 }

structure OrgCreditRow where
  creditsRemaining : BigInt
  version : Integer
  lowCreditThreshold : Option BigInt
  lowCreditAlertArmed : Bool

def rowOf (credits : BigInt) : OrgCreditRow := ⟨credits, ⟨1, by decide⟩, none, true⟩

inductive TransactionType where
  | deduct
  | refund
  deriving DecidableEq

structure CreditTransaction where
  transactionType : TransactionType
  amount : BigInt
  creditsRemainingBefore : BigInt
  creditsRemainingAfter : BigInt
  endpoint : String
  costWeight : Integer
  requestId : String

structure CreditsLow where
  creditsRemaining : ℚ
  threshold : ℚ
  endpoint : String
  requestId : String

structure OrgCredits where
  row : Option OrgCreditRow
  transactions : List CreditTransaction
  outbox : List CreditsLow

structure Snapshot where
  credits : Option (ℤ × ℤ)
  rows : List (TransactionType × ℤ × ℤ × ℤ)
  deriving DecidableEq

def OrgCredits.snapshot (db : OrgCredits) : Snapshot where
  credits := db.row.map fun row => (row.creditsRemaining.val, row.version.val)
  rows := db.transactions.map fun t =>
    (t.transactionType, t.amount.val, t.creditsRemainingBefore.val, t.creditsRemainingAfter.val)

/-- What a `bigint` column stores of a number; none when the database refuses its text. -/
def bigint (q : ℚ) : Option BigInt :=
  (writtenInteger q).bind fun n => if h : -2 ^ 63 ≤ n ∧ n < 2 ^ 63 then some ⟨n, h⟩ else none

def integer (q : ℚ) : Option Integer :=
  (writtenInteger q).bind fun n => if h : -2 ^ 31 ≤ n ∧ n < 2 ^ 31 then some ⟨n, h⟩ else none

variable {n change : ℤ} {credits : ℚ} {db db' : OrgCredits}

theorem bigint_eq_some (hs : |n| ≤ 2 ^ 53) : ∃ h, bigint n = some ⟨n, h⟩ := by
  have hb := abs_le.mp hs
  have hr : -2 ^ 63 ≤ n ∧ n < 2 ^ 63 := by
    omega
  refine ⟨hr, ?_⟩
  rw [bigint, writtenInteger_intCast hs, bind_some, dif_pos hr]

theorem bigint_intCast {stored : BigInt} (hs : |n| ≤ 2 ^ 53) (h : bigint n = some stored) :
    stored.val = n := by
  obtain ⟨hr, ha⟩ := bigint_eq_some hs
  rw [← Option.some.inj (ha.symm.trans h)]

theorem double_balance (hn : 0 ≤ n) (hs : n ≤ 2 ^ 53) : double n = n :=
  double_intCast (abs_le.mpr ⟨by omega, hs⟩)

theorem bigint_sum (hn : 0 ≤ n + change) (ha : n + change ≤ 2 ^ 53) :
    ∃ h, bigint (double ((n : ℚ) + change)) = some ⟨n + change, h⟩ := by
  have hs : |n + change| ≤ 2 ^ 53 := abs_le.mpr ⟨by omega, ha⟩
  rw [← Int.cast_add, double_intCast hs]
  exact bigint_eq_some hs

theorem stored_exact {stored : BigInt} (hn : 0 ≤ n + change) (hs : n + change ≤ 2 ^ 53)
    (h : bigint (double ((n : ℚ) + change)) = some stored) : stored.val = n + change := by
  obtain ⟨hr, ha⟩ := bigint_sum hn hs
  rw [← Option.some.inj (ha.symm.trans h)]

theorem eq_of_integer {q : ℚ} {stored : Integer} (h : integer q = some stored) :
    q = stored.val := by
  rw [integer, bind_eq_some_iff] at h
  obtain ⟨n, hw, hr⟩ := h
  split at hr <;> cases hr
  next hb =>
  have hs : |n| ≤ 2 ^ 53 := abs_le.mpr ⟨by omega, by omega⟩
  exact eq_of_writtenInteger hw hs

inductive Statement where
  | selectForUpdate
  | insertOrgCredits (creditsRemaining version : ℚ)
  | updateCredits (creditsRemaining newVersion version : ℚ)
  | insertTransaction (transactionType : TransactionType) (amount before after : ℚ)
      (endpoint : String) (costWeight : ℚ) (requestId : String)
  | emitCreditsLow (event : CreditsLow)
  | setAlertArmed (armed : Bool)

structure Reply where
  row : Option OrgCreditRow
  rowCount : Nat

instance : Inhabited Reply := ⟨⟨none, 0⟩⟩

def exec : Statement → OrgCredits → Option (OrgCredits × Reply)
  | .selectForUpdate, db => some (db, ⟨db.row, db.row.toList.length⟩)
  | .insertOrgCredits creditsRemaining version, db => do
    let creditsRemaining ← bigint creditsRemaining
    let version ← integer version
    if db.row.isSome then none
    else some ({ db with row := some ⟨creditsRemaining, version, none, true⟩ }, ⟨none, 1⟩)
  | .updateCredits creditsRemaining newVersion version, db => do
    let creditsRemaining ← bigint creditsRemaining
    let newVersion ← integer newVersion
    let version ← integer version
    match db.row with
    | some row =>
      if row.version = version then
        some ({ db with row := some { row with creditsRemaining, version := newVersion } },
          ⟨none, 1⟩)
      else some (db, ⟨none, 0⟩)
    | none => some (db, ⟨none, 0⟩)
  | .insertTransaction transactionType amount before after endpoint costWeight requestId, db => do
    let amount ← bigint amount
    let before ← bigint before
    let after ← bigint after
    let costWeight ← integer costWeight
    let row : CreditTransaction :=
      ⟨transactionType, amount, before, after, endpoint, costWeight, requestId⟩
    some ({ db with transactions := db.transactions ++ [row] }, ⟨none, 1⟩)
  | .emitCreditsLow event, db => some ({ db with outbox := db.outbox ++ [event] }, ⟨none, 1⟩)
  | .setAlertArmed armed, db =>
    let row := db.row.map fun row => { row with lowCreditAlertArmed := armed }
    some ({ db with row }, ⟨none, db.row.toList.length⟩)

variable {reply : Reply}

theorem exec_updateCredits {version : Integer} {row : OrgCreditRow} (hr : db.row = some row)
    (h : exec (.updateCredits credits (version.val + 1) version.val) db = some (db', reply)) :
    (row.version ≠ version ∧ reply.rowCount = 0) ∨
      ∃ stored newVersion, row.version = version ∧ reply.rowCount = 1 ∧
        bigint credits = some stored ∧ newVersion.val = version.val + 1 ∧
        db' = { db with
          row := some { row with creditsRemaining := stored, version := newVersion } } := by
  simp only [exec, hr, bind_eq_bind, bind_eq_some_iff] at h
  obtain ⟨stored, hs, newVersion, hn, read, he, hu⟩ := h
  have ha : read = version := Subtype.ext (by exact_mod_cast (eq_of_integer he).symm)
  have hne : newVersion.val = version.val + 1 := by exact_mod_cast (eq_of_integer hn).symm
  subst ha
  split at hu
  · next hv =>
    cases hu
    exact .inr ⟨stored, newVersion, hv, rfl, hs, hne, rfl⟩
  · next hv =>
    cases hu
    exact .inl ⟨hv, rfl⟩

theorem exec_insertTransaction {transactionType : TransactionType} {weight before after : ℚ}
    {endpoint requestId : String}
    (h : exec (.insertTransaction transactionType weight before after endpoint weight requestId)
      db = some (db', reply)) :
    ∃ t : CreditTransaction, t.transactionType = transactionType ∧ weight = t.amount.val ∧
      weight < 2 ^ 31 ∧ bigint before = some t.creditsRemainingBefore ∧
      bigint after = some t.creditsRemainingAfter ∧
      db' = { db with transactions := db.transactions ++ [t] } := by
  simp only [exec, bind_eq_bind, bind_eq_some_iff] at h
  obtain ⟨amount, ha, storedBefore, hb, storedAfter, hf, costWeight, hw, hr⟩ := h
  cases hr
  have he := eq_of_integer hw
  have hc := costWeight.property
  have hs : |costWeight.val| ≤ 2 ^ 53 := abs_le.mpr ⟨by omega, by omega⟩
  rw [he] at ha
  refine ⟨_, rfl, ?_, ?_, hb, hf, rfl⟩
  · rw [he, bigint_intCast hs ha]
  · rw [he]
    exact_mod_cast hc.2

/-- A weight that is not positive is not metered. `webhookAccepted` tells whether the schema and
the emitter accept the alert's payload, or throw before they send a statement. -/
structure Metering where
  costWeight : ℚ
  positive : 0 < costWeight
  endpoint : String
  requestId : String
  defaultMonthlyCredits : ℚ
  defaultLowCreditThreshold : ℚ
  webhookAccepted : Bool

inductive DeductResult where
  | ok (creditsBefore creditsRemaining : ℚ)
  | insufficient (creditsRemaining creditsDeficit : ℚ)
  | threw
  deriving DecidableEq

/-- The programs of the meter; a refund that does not throw returns nothing. -/
abbrev Code := Program Statement Reply (Option DeductResult)

def shouldEmitLowCreditAlert (creditsBefore creditsAfter threshold : ℚ) (alertArmed : Bool) :
    Bool :=
  alertArmed && threshold < creditsBefore && creditsAfter ≤ threshold

def resolveThreshold (orgThreshold : Option BigInt) (defaultLowCreditThreshold : ℚ) : ℚ :=
  match orgThreshold with
  | some threshold => double threshold.val
  | none => defaultLowCreditThreshold

/-- The alert in its own `try` block: whatever it throws, the code goes on. -/
def maybeEmitLowCreditAlert (metering : Metering) (creditsBefore creditsAfter : ℚ)
    (orgThreshold : Option BigInt) (alertArmed : Bool) (next : Code) : Code :=
  let threshold := resolveThreshold orgThreshold metering.defaultLowCreditThreshold
  if shouldEmitLowCreditAlert creditsBefore creditsAfter threshold alertArmed &&
      metering.webhookAccepted then
    .attempt (.query (.emitCreditsLow
        ⟨creditsAfter, threshold, metering.endpoint, metering.requestId⟩)) next fun _ =>
      .attempt (.query (.setAlertArmed false)) next fun _ => next
  else next

def maybeRearmLowCreditAlert (creditsAfter : ℚ) (orgThreshold : Option BigInt)
    (defaultLowCreditThreshold : ℚ) (handler next : Code) : Code :=
  if resolveThreshold orgThreshold defaultLowCreditThreshold < creditsAfter then
    .attempt (.query (.setAlertArmed true)) handler fun _ => next
  else next

/-- The outer `catch`: `deductCredits` throws on, `refundCredits` logs the error. -/
def rollsBack : Code := .send .rollback fun _ => .done (some .threw)

/-- `deductCredits` from the balance that it has read; `retry` is the call of itself. -/
def charge (metering : Metering) (retry : Code) (creditsRemaining version : ℚ)
    (orgThreshold : Option BigInt) (alertArmed : Bool) : Code :=
  if creditsRemaining < metering.costWeight then
    .attempt .rollback rollsBack fun _ =>
      .done (some (.insufficient creditsRemaining
        (double (metering.costWeight - creditsRemaining))))
  else
    let newCreditsRemaining := double (creditsRemaining - metering.costWeight)
    .attempt (.query (.updateCredits newCreditsRemaining (version + 1) version)) rollsBack
      fun updated =>
        if updated.rowCount = 0 then .attempt .rollback rollsBack fun _ => retry
        else
          .attempt (.query (.insertTransaction .deduct metering.costWeight creditsRemaining
              newCreditsRemaining metering.endpoint metering.costWeight metering.requestId))
            rollsBack fun _ =>
              maybeEmitLowCreditAlert metering creditsRemaining newCreditsRemaining orgThreshold
                alertArmed (.attempt .commit rollsBack fun _ =>
                  .done (some (.ok creditsRemaining newCreditsRemaining)))

def deductCredits (metering : Metering) : Nat → Code
  | 0 => body (.done (some (.insufficient 0 metering.costWeight)))
  | retries + 1 => body (deductCredits metering retries)
where
  body (retry : Code) : Code :=
    .attempt .begin rollsBack fun _ =>
      .attempt (.query .selectForUpdate) rollsBack fun selected =>
        match selected.row with
        | none =>
          .attempt (.query (.insertOrgCredits metering.defaultMonthlyCredits 1)) rollsBack
            fun _ => charge metering retry metering.defaultMonthlyCredits 1 none true
        | some row =>
          charge metering retry (double row.creditsRemaining.val) row.version.val
            row.lowCreditThreshold row.lowCreditAlertArmed

def maxRetries : Nat := 3

def refundCredits (metering : Metering) : Code :=
  .attempt .begin rollsBack fun _ =>
    .attempt (.query .selectForUpdate) rollsBack fun selected =>
      match selected.row with
      | none => .attempt .rollback rollsBack fun _ => .done none
      | some row =>
        let currentCredits := double row.creditsRemaining.val
        let refundedCredits := double (currentCredits + metering.costWeight)
        .attempt (.query (.updateCredits refundedCredits (row.version.val + 1) row.version.val))
          rollsBack fun _ =>
            .attempt (.query (.insertTransaction .refund metering.costWeight currentCredits
                refundedCredits metering.endpoint metering.costWeight metering.requestId))
              rollsBack fun _ =>
                maybeRearmLowCreditAlert refundedCredits row.lowCreditThreshold
                  metering.defaultLowCreditThreshold rollsBack
                  (.attempt .commit rollsBack fun _ => .done none)

end Credence.Credits
