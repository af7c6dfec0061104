import Credence.Credits.CostMeter

/-! The ledger under any interleaving of deductions and refunds, while the balances read are
integers that a number can hold with room for one refund. -/

namespace Credence.Credits

open Js Pg ProofKit

def total (transactionType : TransactionType) (transactions : List CreditTransaction) : ℤ :=
  ((transactions.filter fun t => t.transactionType = transactionType).map
    fun t => t.amount.val).sum

def Linked (start : ℤ) : List CreditTransaction → ℤ → Prop
  | [], balance => start = balance
  | t :: ts, balance =>
    t.creditsRemainingBefore.val = start ∧ Linked t.creditsRemainingAfter.val ts balance

/-- The row has the balance of its ledger and counts the transactions. -/
structure LawfulRow (credits version : ℤ) (db : OrgCredits) (row : OrgCreditRow) : Prop where
  found : db.row = some row
  balance : row.creditsRemaining.val =
    credits - total .deduct db.transactions + total .refund db.transactions
  nonneg : 0 ≤ row.creditsRemaining.val
  version : row.version.val = version + db.transactions.length
  linked : Linked credits db.transactions row.creditsRemaining.val

def Lawful (credits version : ℤ) (db : OrgCredits) : Prop := ∃ row, LawfulRow credits version db row

variable {start balance : ℤ} {ts : List CreditTransaction} {t : CreditTransaction}

theorem Linked.append (h : Linked start ts balance) (hb : t.creditsRemainingBefore.val = balance) :
    Linked start (ts ++ [t]) t.creditsRemainingAfter.val := by
  induction ts generalizing start with
  | nil => exact ⟨hb.trans h.symm, rfl⟩
  | cons first ts ih => exact ⟨h.1, ih h.2⟩

theorem Linked.isChain (h : Linked start ts balance) :
    ts.IsChain fun t next => next.creditsRemainingBefore = t.creditsRemainingAfter := by
  induction ts generalizing start with
  | nil => exact .nil
  | cons first ts ih =>
    cases ts with
    | nil => exact .singleton _
    | cons => exact .cons_cons (Subtype.ext h.2.1) (ih h.2)

theorem total_append (transactionType : TransactionType) (ts : List CreditTransaction)
    (t : CreditTransaction) : total transactionType (ts ++ [t]) = total transactionType ts +
      if t.transactionType = transactionType then t.amount.val else 0 := by
  by_cases h : t.transactionType = transactionType <;> simp [total, h]

def CreditTransaction.change (t : CreditTransaction) : ℤ :=
  match t.transactionType with
  | .deduct => -t.amount.val
  | .refund => t.amount.val

theorem LawfulRow.extend {credits version : ℤ} {db db' : OrgCredits} {row row' : OrgCreditRow}
    (h : LawfulRow credits version db row) (hr : db'.row = some row')
    (ht : db'.transactions = db.transactions ++ [t])
    (hv : row'.version.val = row.version.val + 1)
    (hb : t.creditsRemainingBefore = row.creditsRemaining)
    (ha : t.creditsRemainingAfter = row'.creditsRemaining)
    (hc : row'.creditsRemaining.val = row.creditsRemaining.val + t.change)
    (hn : 0 ≤ row'.creditsRemaining.val) : LawfulRow credits version db' row' := by
  refine ⟨hr, ?_, hn, ?_, ?_⟩
  · have hd := h.balance
    rw [ht, total_append, total_append, hc, hd, CreditTransaction.change]
    cases t.transactionType
    · simp
      ring
    · simp
      ring
  · rw [ht, hv, h.version, List.length_append, List.length_singleton]
    push_cast
    ring
  · rw [ht, ← ha]
    exact h.linked.append (congrArg Subtype.val hb)

/-- The balance leaves room for one more refund among the integers up to `2 ^ 53`. -/
def safeBalance (db : OrgCredits) : Bool :=
  db.row.all fun row => row.creditsRemaining.val ≤ 2 ^ 53 - 2 ^ 31

def SafeBalance (db : OrgCredits) : Prop := safeBalance db = true

section

variable {credits version : ℤ} {metering : Metering} {db : OrgCredits} {row : OrgCreditRow}

variable {db' : OrgCredits} {reply : Reply} {next : Code}

theorem LawfulRow.congr {row' : OrgCreditRow} (h : LawfulRow credits version db row)
    (hr : db'.row = some row') (ht : db'.transactions = db.transactions)
    (hc : row'.creditsRemaining = row.creditsRemaining)
    (hv : row'.version = row.version) : LawfulRow credits version db' row' := by
  refine ⟨hr, ?_, ?_, ?_, ?_⟩
  · rw [ht, hc, h.balance]
  · rw [hc]
    exact h.nonneg
  · rw [ht, hv, h.version]
  · rw [ht, hc]
    exact h.linked

theorem Lawful.emit (h : Lawful credits version db) {event : CreditsLow}
    (he : exec (.emitCreditsLow event) db = some (db', reply)) : Lawful credits version db' := by
  obtain ⟨row, hr⟩ := h
  cases he
  exact ⟨row, hr.congr hr.found rfl rfl rfl⟩

theorem Lawful.setAlertArmed (h : Lawful credits version db) {armed : Bool}
    (he : exec (.setAlertArmed armed) db = some (db', reply)) : Lawful credits version db' := by
  obtain ⟨row, hr⟩ := h
  cases he
  refine ⟨{ row with lowCreditAlertArmed := armed }, hr.congr ?_ rfl rfl rfl⟩
  rw [hr.found]
  rfl

def CommitsLawful (credits version : ℤ) (code : Code) : Prop :=
  ∀ working aborted, (aborted = false → Lawful credits version working) →
    code.Keeps exec (Lawful credits version) SafeBalance (some ⟨working, aborted⟩)

theorem rollsBack_keeps (tx : Option (Transaction OrgCredits)) :
    rollsBack.Keeps exec (Lawful credits version) SafeBalance tx :=
  .rollback fun _ => trivial

theorem alert_keeps (h : CommitsLawful credits version next) (hl : Lawful credits version db)
    (creditsBefore creditsAfter : ℚ) (orgThreshold : Option BigInt) (alertArmed : Bool) :
    (maybeEmitLowCreditAlert metering creditsBefore creditsAfter orgThreshold alertArmed next).Keeps
      exec (Lawful credits version) SafeBalance (some ⟨db, false⟩) := by
  rw [maybeEmitLowCreditAlert]
  split
  · refine .query (h db true (by simp)) fun emitted reply he => ?_
    have hm := hl.emit he
    refine .query (h emitted true (by simp)) fun disarmed reply' hd => ?_
    exact h disarmed false fun _ => hm.setAlertArmed hd
  · exact h db false fun _ => hl

theorem commit_lawful {handler : Code} {result : Option DeductResult}
    (hh : handler.Keeps exec (Lawful credits version) SafeBalance none) :
    CommitsLawful credits version (.attempt .commit handler fun _ => .done result) := by
  intro working aborted hw
  refine .commit hw fun answer => ?_
  cases answer with
  | none => exact hh
  | some => trivial

theorem SafeBalance.row_le (h : SafeBalance db) (hr : db.row = some row) :
    row.creditsRemaining.val ≤ 2 ^ 53 - 2 ^ 31 := by
  rw [SafeBalance, safeBalance, hr] at h
  exact of_decide_eq_true h

theorem LawfulRow.charged (hr : LawfulRow credits version db row) (hd : SafeBalance db)
    {t : CreditTransaction} {weight : ℚ} {newVersion : Integer} (hw : weight = t.amount.val)
    (hp : 0 < weight) (hs : weight < 2 ^ 31)
    (hv : newVersion.val = row.version.val + 1)
    (he : 0 ≤ row.creditsRemaining.val + t.change)
    (hb : bigint (double row.creditsRemaining.val) = some t.creditsRemainingBefore)
    (ha : bigint (double (double row.creditsRemaining.val + t.change)) =
      some t.creditsRemainingAfter) :
    Lawful credits version { db with
      row := some { row with creditsRemaining := t.creditsRemainingAfter, version := newVersion }
      transactions := db.transactions ++ [t] } := by
  have hn := hr.nonneg
  have hf := hd.row_le hr.found
  have hm : 0 < t.amount.val ∧ t.amount.val < 2 ^ 31 := by
    rw [hw] at hp hs
    exact_mod_cast And.intro hp hs
  have hc : t.change ≤ t.amount.val ∨ t.change = -t.amount.val := by
    rw [CreditTransaction.change]
    split
    · exact .inr rfl
    · exact .inl le_rfl
  have hg : double row.creditsRemaining.val = row.creditsRemaining.val :=
    double_balance hn (by omega)
  rw [hg] at hb ha
  have hex := stored_exact he (by omega) ha
  refine ⟨_, hr.extend rfl rfl hv ?_ rfl hex (hex ▸ he)⟩
  exact Subtype.ext (bigint_intCast (abs_le.mpr ⟨by omega, by omega⟩) hb)

theorem charge_keeps {retry : Code} (hr : LawfulRow credits version db row) (hs : SafeBalance db) :
    (charge metering retry (double row.creditsRemaining.val) row.version.val row.lowCreditThreshold
      row.lowCreditAlertArmed).Keeps exec (Lawful credits version) SafeBalance
        (some ⟨db, false⟩) := by
  rw [charge]
  split
  · refine .rollback fun answer => ?_
    cases answer with
    | none => exact rollsBack_keeps none
    | some => trivial
  · next he =>
    refine .query (rollsBack_keeps _) fun updated reply hu => ?_
    rcases exec_updateCredits hr.found hu with
      ⟨ho, -⟩ | ⟨stored, newVersion, -, hc, hd, hv, rfl⟩
    · exact absurd rfl ho
    · simp only [Option.elim_some, hc, one_ne_zero, if_false]
      refine .query (rollsBack_keeps _) fun inserted reply' hi => ?_
      obtain ⟨t, ht, hw, hm, hb, ha, rfl⟩ := exec_insertTransaction hi
      refine alert_keeps (commit_lawful (rollsBack_keeps none)) ?_ _ _ _ _
      have hn := hr.nonneg
      have hh : (t.change : ℚ) = -metering.costWeight := by
        rw [CreditTransaction.change, ht, hw]
        push_cast
        rfl
      have hf : double row.creditsRemaining.val = row.creditsRemaining.val :=
        double_balance hn (by have := hs.row_le hr.found; omega)
      rw [sub_eq_add_neg, ← hh] at hd ha
      obtain rfl := Option.some.inj (ha.symm.trans hd)
      refine hr.charged hs hw metering.positive hm hv ?_ hb ha
      rw [hf, not_lt] at he
      have hg : (0 : ℚ) ≤ row.creditsRemaining.val + t.change := by
        linarith
      exact_mod_cast hg

theorem deductCredits_keeps (metering : Metering) (retries : Nat) :
    (deductCredits metering retries).Keeps exec (Lawful credits version) SafeBalance none := by
  have hb : ∀ retry, (deductCredits.body metering retry).Keeps exec (Lawful credits version)
      SafeBalance none := by
    intro retry
    refine .begin fun answer => ?_
    cases answer with
    | none => exact rollsBack_keeps none
    | some reply =>
      refine .firstQuery (fun db _ _ => rollsBack_keeps _) ?_
      rintro db ⟨row, hr⟩ hs working reply he
      cases he
      simp only [Option.elim_some, hr.found]
      exact charge_keeps hr hs
  cases retries <;> exact hb _

theorem rearm_keeps (h : CommitsLawful credits version next) (hl : Lawful credits version db)
    (creditsAfter : ℚ) (orgThreshold : Option BigInt) (defaultLowCreditThreshold : ℚ) :
    (maybeRearmLowCreditAlert creditsAfter orgThreshold defaultLowCreditThreshold rollsBack
      next).Keeps exec (Lawful credits version) SafeBalance (some ⟨db, false⟩) := by
  rw [maybeRearmLowCreditAlert]
  split
  · refine .query (rollsBack_keeps _) fun rearmed reply hr => ?_
    exact h rearmed false fun _ => hl.setAlertArmed hr
  · exact h db false fun _ => hl

theorem refundCredits_keeps (metering : Metering) :
    (refundCredits metering).Keeps exec (Lawful credits version) SafeBalance none := by
  refine .begin fun answer => ?_
  cases answer with
  | none => exact rollsBack_keeps none
  | some reply =>
    refine .firstQuery (fun db _ _ => rollsBack_keeps _) ?_
    rintro db ⟨row, hr⟩ hs working reply he
    cases he
    simp only [Option.elim_some, hr.found]
    refine .query (rollsBack_keeps _) fun updated reply' hu => ?_
    rcases exec_updateCredits hr.found hu with
      ⟨ho, -⟩ | ⟨stored, newVersion, -, -, hd, hv, rfl⟩
    · exact absurd rfl ho
    · refine .query (rollsBack_keeps _) fun inserted reply'' hi => ?_
      obtain ⟨t, ht, hw, hm, hb, ha, rfl⟩ := exec_insertTransaction hi
      refine rearm_keeps (commit_lawful (rollsBack_keeps none)) ?_ _ _ _
      have hc : t.change = t.amount.val := by
        rw [CreditTransaction.change, ht]
      have hp : 0 < t.amount.val := by
        have hf := metering.positive
        rw [hw] at hf
        exact_mod_cast hf
      obtain rfl := Option.some.inj (ha.symm.trans hd)
      refine hr.charged hs hw metering.positive hm hv ?_ hb ?_
      · have hn := hr.nonneg
        omega
      · rw [hc, ← hw]
        exact ha

end

abbrev CreditServer := Server Statement Reply (Option DeductResult) OrgCredits

inductive CreditAction where
  | deduct (metering : Metering)
  | refund (metering : Metering)
  | answer (index : Nat) (outcome : Outcome)

def creditStep : CreditAction → CreditServer → Option CreditServer
  | .deduct metering, server => some (server.connect (deductCredits metering maxRetries))
  | .refund metering, server => some (server.connect (refundCredits metering))
  | .answer index outcome, server => server.answer exec index outcome

/-- A `SELECT ... FOR UPDATE` meets a balance with room for one refund. -/
def safeReads (action : CreditAction) (server : CreditServer) : Bool :=
  match action with
  | .answer index _ => !server.takesLock index || safeBalance server.committed
  | _ => true

def SafeReads (action : CreditAction) (server : CreditServer) : Prop :=
  safeReads action server = true

instance (action : CreditAction) (server : CreditServer) : Decidable (SafeReads action server) :=
  inferInstanceAs (Decidable (_ = true))

/-- In every committed state, from any row with a balance that is not negative: the balance is what
the rows leave of the first one, it is not negative, the version counts the rows, and the rows link
up. -/
theorem credit_ledger_integrity {row : OrgCreditRow} {outbox : List CreditsLow}
    {actions : List CreditAction} {server : CreditServer} (hNonneg : 0 ≤ row.creditsRemaining.val)
    (hSafe : Along creditStep SafeReads actions ⟨⟨some row, [], outbox⟩, []⟩)
    (hRun : run creditStep actions ⟨⟨some row, [], outbox⟩, []⟩ = some server) :
    ∃ now, server.committed.row = some now ∧ now.creditsRemaining.val = row.creditsRemaining.val -
        total .deduct server.committed.transactions + total .refund server.committed.transactions ∧
      0 ≤ now.creditsRemaining.val ∧
      now.version.val = row.version.val + server.committed.transactions.length ∧
      server.committed.transactions.IsChain fun t next =>
        next.creditsRemainingBefore = t.creditsRemainingAfter := by
  have hk : server.Kept exec (Lawful row.creditsRemaining.val row.version.val) SafeBalance := by
    refine run_invariant (fun server => server.Kept exec
      (Lawful row.creditsRemaining.val row.version.val) SafeBalance) ?_ ⟨?_, by simp⟩ hSafe hRun
    · intro action server server' h ho hs
      cases action with
      | deduct metering =>
        obtain rfl := Option.some.inj hs
        exact h.connect (deductCredits_keeps metering maxRetries)
      | refund metering =>
        obtain rfl := Option.some.inj hs
        exact h.connect (refundCredits_keeps metering)
      | answer =>
        refine h.answer (fun hl => ?_) hs
        simpa [SafeReads, safeReads, hl, SafeBalance] using ho
    · exact ⟨row, rfl, by simp [total], hNonneg, by simp, rfl⟩
  obtain ⟨now, hn⟩ := hk.committed
  exact ⟨now, hn.found, hn.balance, hn.nonneg, hn.version, hn.linked.isChain⟩

def meteringOf (costWeight : Nat) (h : 0 < costWeight) : Metering where
  costWeight := costWeight
  positive := by exact_mod_cast h
  endpoint := "/reports"
  requestId := "r1"
  defaultMonthlyCredits := 10000
  defaultLowCreditThreshold := 100
  webhookAccepted := true

def sideBySide : List CreditAction :=
  [.deduct (meteringOf 5 (by decide)), .refund (meteringOf 3 (by decide)),
    .answer 0 .succeeds, .answer 1 .succeeds, .answer 0 .succeeds, .answer 0 .succeeds,
    .answer 0 .succeeds, .answer 0 .lost, .answer 1 .succeeds, .answer 1 .succeeds,
    .answer 1 .succeeds, .answer 1 .succeeds]

theorem credit_ledger_integrity_sideBySide : ∃ server now,
    run creditStep sideBySide ⟨⟨some (rowOf ⟨50, by decide⟩), [], []⟩, []⟩ = some server ∧
      server.committed.snapshot = ⟨some (48, 3), [(.deduct, 5, 50, 45), (.refund, 3, 45, 48)]⟩ ∧
      server.committed.row = some now ∧
      now.creditsRemaining.val = 50 - total .deduct server.committed.transactions +
        total .refund server.committed.transactions := by
  have ho : (run creditStep sideBySide ⟨⟨some (rowOf ⟨50, by decide⟩), [], []⟩, []⟩).map
      (fun server => server.committed.snapshot) =
        some ⟨some (48, 3), [(.deduct, 5, 50, 45), (.refund, 3, 45, 48)]⟩ := by
    decide +kernel
  obtain ⟨server, hr, hs⟩ := Option.map_eq_some_iff.mp ho
  obtain ⟨now, hn, hb, -⟩ := credit_ledger_integrity (by decide) (by decide +kernel) hr
  exact ⟨server, now, hr, hs, hn, hb⟩

/-- `Number("9007199254740993")` is `9007199254740992`: one credit is deducted, the row says so, and
two are gone. -/
theorem large_balance_loses_credit : (run creditStep
        (.deduct (meteringOf 1 (by decide)) :: List.replicate 5 (.answer 0 .succeeds))
        ⟨⟨some (rowOf ⟨9007199254740993, by decide⟩), [], []⟩, []⟩).map
      (fun server => server.committed.snapshot) =
    some ⟨some (9007199254740991, 2), [(.deduct, 1, 9007199254740992, 9007199254740991)]⟩ := by
  decide +kernel

end Credence.Credits
