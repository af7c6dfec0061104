import Credence.Credits.CostMeter

/-! What one metered request commits. A statement of the alert that fails aborts the transaction,
and the deduction is reported as made; a refund then adds what was never taken. -/

namespace Credence.Credits

open Js Pg List Option

/-- The tables before and after the deduction of a request, those that its refund finds and leaves,
and the status of its response. -/
structure Request where
  start : OrgCredits
  charged : OrgCredits
  current : OrgCredits
  refunded : OrgCredits
  status : Nat

def stored (q : ℚ) : ℤ := (bigint q).elim 0 Subtype.val

def Metering.balance (metering : Metering) (db : OrgCredits) : ℤ :=
  db.row.elim (stored metering.defaultMonthlyCredits) fun row => row.creditsRemaining.val

def Metering.read (metering : Metering) (db : OrgCredits) : ℚ :=
  db.row.elim metering.defaultMonthlyCredits fun row => double row.creditsRemaining.val

def Request.change (r : Request) (metering : Metering) : ℤ :=
  metering.balance r.charged - metering.balance r.start +
    if 500 ≤ r.status then metering.balance r.refunded - metering.balance r.current else 0

def Request.rows (r : Request) : List CreditTransaction :=
  r.charged.transactions.drop r.start.transactions.length ++
    if 500 ≤ r.status then r.refunded.transactions.drop r.current.transactions.length else []

section

variable {metering : Metering} {outcomes : List Outcome} {db working charged : OrgCredits}
  {before after : ℚ}

variable {result' : Option DeductResult} {orgThreshold : Option BigInt} {alertArmed : Bool}
  {row : OrgCreditRow} {read : ℚ} {transactionType : TransactionType}

structure SameLedger (db db' : OrgCredits) : Prop where
  row : db'.row.map OrgCreditRow.creditsRemaining = db.row.map OrgCreditRow.creditsRemaining
  transactions : db'.transactions = db.transactions

theorem SameLedger.setAlertArmed (db : OrgCredits) (armed : Bool) (outbox : List CreditsLow) :
    SameLedger db ⟨db.row.map fun row => { row with lowCreditAlertArmed := armed },
      db.transactions, outbox⟩ := by
  refine ⟨?_, rfl⟩
  cases db.row <;> rfl

/-- The whole transaction has succeeded and `working` is committed, but for the alert, or a
statement has failed and nothing is committed. -/
def CommitsOrNothing (db working charged : OrgCredits) (outcomes : List Outcome) : Prop :=
  ((∀ outcome ∈ outcomes, outcome = .succeeds) ∧ SameLedger working charged) ∨
    ((∃ outcome ∈ outcomes, outcome ≠ .succeeds) ∧ charged = db)

theorem CommitsOrNothing.cons (h : CommitsOrNothing db working charged outcomes) :
    CommitsOrNothing db working charged (.succeeds :: outcomes) := by
  rcases h with ⟨ha, hs⟩ | ⟨⟨outcome, hm, hf⟩, hn⟩
  · exact .inl ⟨forall_mem_cons.mpr ⟨rfl, ha⟩, hs⟩
  · exact .inr ⟨⟨outcome, mem_cons_of_mem _ hm, hf⟩, hn⟩

structure Extends (base working : OrgCredits) (transactionType : TransactionType) (result : ℚ) :
    Prop where
  row : ∃ row stored, working.row = some row ∧ row.creditsRemaining = stored ∧
    bigint result = some stored
  transactions : ∃ t, t.transactionType = transactionType ∧
    working.transactions = base.transactions ++ [t]

theorem Extends.base {base base' : OrgCredits} {result : ℚ}
    (h : Extends base working transactionType result)
    (hb : base.transactions = base'.transactions) :
    Extends base' working transactionType result :=
  ⟨h.row, hb ▸ h.transactions⟩

end

section

variable {metering : Metering} {outcomes : List Outcome} {db working refunded : OrgCredits}

end

section

variable {metering : Metering} {base inserted committed : OrgCredits}
  {transactionType : TransactionType} {result : ℚ}

theorem SameLedger.balance (h : SameLedger inserted committed) (metering : Metering) :
    metering.balance committed = metering.balance inserted := by
  have hr := h.row
  rw [Metering.balance, Metering.balance]
  cases ho : inserted.row <;> cases hn : committed.row <;> simp_all

variable {r : Request} {deductOutcomes refundOutcomes : List Outcome}

end

end Credence.Credits
