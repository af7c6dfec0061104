import Credence.ProofKit.Walk
import Credence.Wallets.Transactions

/-! The ledger of a wallet accounts for its balance, after any calls of `credit` and `debit` that
run at the same time. -/

namespace Credence.Wallets

open ProofKit Lib.DecimalMath

def rowsOf (id : String) (ledger : List WalletTransaction) : List WalletTransaction :=
  ledger.filter fun row => row.walletId = id

def recorded (type : TransactionType) (rows : List WalletTransaction) : ℚ :=
  ((rows.filter fun row => row.type = type).map fun row => decimal row.amount).sum

/-- The row starts from the balance `previous` and adds or subtracts its amount. -/
def ContinuesFrom (previous : String) (row : WalletTransaction) : Prop :=
  row.previousBalance = previous ∧
    decimal row.newBalance = decimal row.previousBalance + row.type.sign * decimal row.amount

def balanceAfter (_ : String) (row : WalletTransaction) : String := row.newBalance

/-- The rows lead from the balance `initial` to the balance `current`. -/
structure Books (initial current : ℤ) (rows : List WalletTransaction) : Prop where
  chain : Follows ContinuesFrom balanceAfter (balanceText initial) rows
  last : carry balanceAfter (balanceText initial) rows = balanceText current
  total : (current : ℚ) / 10 ^ balanceScale =
    (initial : ℚ) / 10 ^ balanceScale + recorded .credit rows - recorded .debit rows

theorem books_nil (initial : ℤ) : Books initial initial [] := ⟨trivial, rfl, by simp [recorded]⟩

theorem recorded_snoc (type : TransactionType) (rows : List WalletTransaction)
    (row : WalletTransaction) :
    recorded type (rows ++ [row]) =
      recorded type rows + if row.type = type then decimal row.amount else 0 := by
  by_cases ht : row.type = type <;> simp [recorded, ht]

variable {before after : ℤ} {s : Session} {w w' : World} {n : Nat} {balances : String → Option ℤ}

theorem Moves.decimal_eq {type : TransactionType} {amount : String}
    (h : Moves type amount before after) :
    (after : ℚ) / 10 ^ balanceScale =
      (before : ℚ) / 10 ^ balanceScale + type.sign * decimal amount := by
  obtain ⟨units, hu, rfl⟩ := h.accepted
  rw [hu.value]
  push_cast
  ring

theorem Books.snoc {initial : ℤ} {rows : List WalletTransaction} (h : Books initial before rows)
    (n : Nat) (hm : Moves s.type s.amount before after) :
    Books initial after (rows ++ [s.ledgerRow n before after]) := by
  refine ⟨follows_snoc.mpr ⟨h.chain, h.last.symm, ?_⟩, carry_snoc _ _ _, ?_⟩
  · simp only [Session.ledgerRow, decimal_balanceText]
    exact hm.decimal_eq
  · rw [recorded_snoc, recorded_snoc, hm.decimal_eq, h.total]
    cases ht : s.type with
    | credit | debit =>
      simp [Session.ledgerRow, ht, TransactionType.sign]
      ring

def World.Holds (w : World) (n : Nat) (id : String) (balance : ℤ) : Prop :=
  w.lockedBy id = some n ∧ ∃ row, w.wallets id = some row ∧ row.balance = balance

def Session.Ok (w : World) (n : Nat) (s : Session) : Prop :=
  match s.stage with
  | .idle | .begun | .viewing _ | .waiting _ => checkAmount s.type s.amount = .ok ()
  | .locked balance => checkAmount s.type s.amount = .ok () ∧ w.Holds n s.walletId balance
  | .updated before after | .recorded before after =>
    Moves s.type s.amount before after ∧ w.Holds n s.walletId before
  | .committed | .rejected _ => True

/-- The call has committed. -/
def World.committed (w : World) (n : Nat) : Bool := (w.sessions n).any (·.stage = .committed)

/-- Every balance is the one its ledger leads to, and each commit has one row. -/
structure World.Ok (balances : String → Option ℤ) (w : World) : Prop where
  sessions : ∀ n s, w.sessions n = some s → s.Ok w n
  range : ∀ id row, w.wallets id = some row → 0 ≤ row.balance ∧ row.balance < 10 ^ balancePrecision
  books : ∀ id initial, balances id = some initial →
    ∃ row, w.wallets id = some row ∧ Books initial row.balance (rowsOf id w.ledger)
  accepted : ∀ row ∈ w.ledger, ∃ units, AmountUnits row.amount units
  written : ∀ n, w.ledger.countP (·.id = n) = (w.committed n).toNat

theorem Session.Ok.mono (h : s.Ok w n) (he : ∀ id, w.lockedBy id = some n →
      w'.lockedBy id = some n ∧ w'.wallets id = w.wallets id) : s.Ok w' n := by
  have hh : ∀ {id balance}, w.Holds n id balance → w'.Holds n id balance := by
    rintro id balance ⟨hl, hr⟩
    rw [World.Holds, (he id hl).2]
    exact ⟨(he id hl).1, hr⟩
  unfold Session.Ok at h ⊢
  cases hs : s.stage <;> simp only [hs] at h ⊢
  case locked => exact ⟨h.1, hh h.2⟩
  case updated => exact ⟨h.1, hh h.2⟩
  case recorded => exact ⟨h.1, hh h.2⟩
  all_goals exact h

theorem World.Ok.checked (h : w.Ok balances) (hs : w.sessions n = some s)
    (ht : s.stage.isBeforeLock = true) : checkAmount s.type s.amount = .ok () := by
  have ho := h.sessions n s hs
  unfold Session.Ok at ho
  cases ha : s.stage <;> simp_all [Stage.isBeforeLock]

def World.Open (w : World) (n : Nat) : Prop := ∀ s, w.sessions n = some s → s.stage.isOver = false

theorem World.Open.not_committed (h : w.Open n) : w.committed n = false := by
  rw [World.committed, Option.any_eq_false]
  intro s hs
  have ho := h s hs
  cases ha : s.stage <;> simp_all [Stage.isOver]

theorem open_of_session (hs : w.sessions n = some s) (hp : s.stage.isOver = false) : w.Open n := by
  intro other ho
  rw [hs] at ho
  cases ho
  exact hp

theorem World.Ok.quiet (h : w.Ok balances) {s' : Session} (hw : w'.wallets = w.wallets)
    (hl : w'.ledger = w.ledger)
    (ha : w'.sessions = Function.update w.sessions n (some s')) (ho : w.Open n)
    (hb : ∀ id m, m ≠ n → w.lockedBy id = some m → w'.lockedBy id = some m) (hOk : s'.Ok w' n)
    (hn : s'.stage ≠ .committed) : w'.Ok balances where
  sessions m s hs := by
    rw [ha] at hs
    by_cases hm : m = n
    · subst hm
      rw [Function.update_self] at hs
      cases hs
      exact hOk
    · rw [Function.update_of_ne hm] at hs
      exact (h.sessions m s hs).mono fun id hc => ⟨hb id m hm hc, by rw [hw]⟩
  range id row := by
    rw [hw]
    exact h.range id row
  books id initial hi := by
    rw [hw, hl]
    exact h.books id initial hi
  accepted row := by
    rw [hl]
    exact h.accepted row
  written m := by
    rw [hl, h.written m]
    by_cases hm : m = n
    · subst hm
      have hc : w'.committed m = false := by simp [World.committed, ha, hn]
      rw [ho.not_committed, hc]
    · simp [World.committed, ha, hm]

section

variable {balances : String → Option ℤ} {w : World} {n : Nat} {s : Session}

theorem World.Ok.setSession (h : w.Ok balances) (ho : w.Open n) {s' : Session}
    (hOk : s'.Ok w n) (hn : s'.stage ≠ .committed) : (w.setSession n s').Ok balances :=
  h.quiet rfl rfl rfl ho (fun _ _ _ hl => hl) (hOk.mono fun _ hl => ⟨hl, rfl⟩) hn

theorem World.Ok.rollback (h : w.Ok balances) (ho : w.Open n) (error : WalletError) :
    (w.rollback n s error).Ok balances := by
  refine h.quiet rfl rfl rfl ho (fun id m hne hl => ?_) trivial (by simp)
  have hk : ¬(id = s.walletId ∧ w.lockedBy s.walletId = some n) := by
    rintro ⟨rfl, hm⟩
    rw [hl] at hm
    exact hne (Option.some.inj hm)
  simp only [World.rollback, World.setSession, World.releaseLock]
  rw [if_neg hk, hl]

theorem rowsOf_snoc (id : String) (ledger : List WalletTransaction) (row : WalletTransaction) :
    rowsOf id (ledger ++ [row]) = rowsOf id ledger ++ if row.walletId = id then [row] else [] := by
  by_cases hi : row.walletId = id <;> simp [rowsOf, hi]

theorem World.Ok.commitRow (h : w.Ok balances) (hs : w.sessions n = some s)
    {before after : ℤ} (ha : s.stage = .recorded before after) {row : Wallet}
    (hr : w.wallets s.walletId = some row) : (commitRow w n s before after row).Ok balances := by
  have hOk := h.sessions n s hs
  simp only [Session.Ok, ha] at hOk
  obtain ⟨hd, hl, row', hr', rfl⟩ := hOk
  obtain rfl : row = row' := Option.some.inj (hr.symm.trans hr')
  refine ⟨fun m t ho => ?_, fun id other ho => ?_, fun id initial hn => ?_,
    fun other ho => ?_, fun m => ?_⟩
  · rw [commitRow_sessions] at ho
    by_cases hm : m = n
    · subst hm
      rw [Function.update_self] at ho
      cases ho
      trivial
    · rw [Function.update_of_ne hm] at ho
      refine (h.sessions m t ho).mono fun id hh => ?_
      have hne : id ≠ s.walletId := by
        rintro rfl
        rw [hl] at hh
        exact hm (Option.some.inj hh).symm
      rw [commitRow_wallets, Function.update_of_ne hne]
      exact ⟨(if_neg fun hf => hne hf.1).trans hh, rfl⟩
  · rw [commitRow_wallets] at ho
    by_cases hi : id = s.walletId
    · subst hi
      rw [Function.update_self] at ho
      cases ho
      exact ⟨hd.nonneg, hd.fits⟩
    · rw [Function.update_of_ne hi] at ho
      exact h.range id other ho
  · obtain ⟨current, hg, hb⟩ := h.books id initial hn
    rw [commitRow_wallets, commitRow_ledger, rowsOf_snoc]
    by_cases hi : id = s.walletId
    · subst hi
      obtain rfl : row = current := Option.some.inj (hr.symm.trans hg)
      rw [Function.update_self, if_pos (by rfl)]
      exact ⟨_, rfl, hb.snoc n hd⟩
    · rw [Function.update_of_ne hi, if_neg (fun he => hi he.symm), List.append_nil]
      exact ⟨current, hg, hb⟩
  · rw [commitRow_ledger] at ho
    rcases List.mem_append.mp ho with ho | ho
    · exact h.accepted other ho
    · rw [List.mem_singleton.mp ho]
      obtain ⟨units, hu, -⟩ := hd.accepted
      exact ⟨units, hu⟩
  · have hp : w.Open n := open_of_session hs (by rw [ha]; rfl)
    rw [commitRow_ledger, List.countP_append, h.written m]
    by_cases hm : m = n
    · subst hm
      rw [hp.not_committed]
      simp [World.committed, commitRow_sessions, Session.ledgerRow]
    · simp [World.committed, commitRow_sessions, Session.ledgerRow, hm, Ne.symm hm]

end

theorem World.Ok.step {action : Action} (h : w.Ok balances) (hd : step action w = some w') :
    w'.Ok balances := by
  cases step_effect hd with
  | ticked =>
    exact ⟨fun n s hs => (h.sessions n s hs).mono fun _ hl => ⟨hl, rfl⟩, h.range,
      h.books, h.accepted, h.written⟩
  | @called n s hn hg =>
    have ho : w.Open n := fun _ hs => by rw [hn] at hs; cases hs
    rcases hg with ⟨error, hg⟩ | ⟨hg, hc⟩
    · exact h.setSession ho (by simp only [Session.Ok, hg]) (by simp [hg])
    · exact h.setSession ho (by simpa only [Session.Ok, hg] using hc) (by simp [hg])
  | @waited n s s' hs hb hi ht ha =>
    refine h.setSession (open_of_session hs (Stage.isOver_of_isBeforeLock hb)) ?_
      fun he => by simp [he, Stage.isBeforeLock] at hi
    have hc := h.checked hs hb
    rw [← ht, ← ha] at hc
    unfold Session.Ok
    cases hAt : s'.stage <;> simp_all [Stage.isBeforeLock]
  | rolledBack error hs hp => exact h.rollback (open_of_session hs hp) error
  | @locked n s row hs hb hf hr =>
    have hc := h.checked hs hb
    refine h.quiet rfl rfl rfl (open_of_session hs (Stage.isOver_of_isBeforeLock hb))
      (fun id m _ hl => ?_) ⟨hc, Function.update_self _ _ _, row, hr, rfl⟩ (by simp)
    have hne : id ≠ s.walletId := by
      rintro rfl
      rw [hf] at hl
      cases hl
    exact (Function.update_of_ne hne _ _).trans hl
  | @updated n s balance after hs hg hj hu =>
    have ho := h.sessions n s hs
    simp only [Session.Ok, hg] at ho
    obtain ⟨hc, hl, row, hr, rfl⟩ := ho
    obtain ⟨hk, hh⟩ := h.range s.walletId row hr
    refine h.setSession (open_of_session hs (by rw [hg]; rfl))
      ⟨?_, hl, row, hr, rfl⟩ (by simp)
    rcases updateBalance_cases hc hk hh hj with he | ⟨exact', hex, hm⟩
    · rw [he] at hu
      cases hu
    · obtain rfl : exact' = after := Except.ok.inj (hex.symm.trans hu)
      exact hm
  | @recorded n s before after hs hg =>
    have ho := h.sessions n s hs
    simp only [Session.Ok, hg] at ho
    exact h.setSession (open_of_session hs (by rw [hg]; rfl)) ho (by simp)
  | committed _ hs hg hr => exact h.commitRow hs hg hr

def Storable (balances : String → Option ℤ) : Prop :=
  ∀ id balance, balances id = some balance → 0 ≤ balance ∧ balance < 10 ^ balancePrecision

theorem ok_start (h : Storable balances) : (World.start balances).Ok balances := by
  refine ⟨by simp [World.start], fun id row hr => ?_, fun id initial hi => ?_,
    by simp [World.start], by simp [World.start, World.committed]⟩
  · obtain ⟨balance, hb, rfl⟩ := Option.map_eq_some_iff.mp hr
    exact h id balance hb
  · exact ⟨⟨initial, 0⟩, by simp [World.start, hi], books_nil initial⟩

theorem ok_run (h : Storable balances) {actions : List Action}
    (hr : run step actions (World.start balances) = some w) : w.Ok balances :=
  run_invariant (World.Ok balances) (fun _ _ _ ho _ hs => ho.step hs) (ok_start h)
    (along_anyAction actions _) hr

/-- In every state of every run a balance is in the range of its column, and the rows of its ledger
lead to it from the initial one, each by its exact amount; a call that has not committed has written
none of them, one that has committed exactly one, and only a commit changes a balance or the
ledger. -/
theorem ledger_accounts {balances : String → Option ℤ} (hStorable : Storable balances)
    {actions : List Action} {w : World}
    (hRun : run step actions (World.start balances) = some w) {id : String} {initial : ℤ}
    (hInitial : balances id = some initial) :
    (∃ row, w.wallets id = some row ∧ 0 ≤ row.balance ∧ row.balance < 10 ^ balancePrecision ∧
      Follows ContinuesFrom balanceAfter (balanceText initial) (rowsOf id w.ledger) ∧
      carry balanceAfter (balanceText initial) (rowsOf id w.ledger) = balanceText row.balance ∧
      (row.balance : ℚ) / 10 ^ balanceScale = (initial : ℚ) / 10 ^ balanceScale +
        recorded .credit (rowsOf id w.ledger) - recorded .debit (rowsOf id w.ledger)) ∧
    (∀ row ∈ w.ledger, ∃ units, AmountUnits row.amount units) ∧
    (∀ n s, w.sessions n = some s → s.stage ≠ .committed → ∀ row ∈ w.ledger, row.id ≠ n) ∧
    (∀ n s, w.sessions n = some s → s.stage = .committed →
      ∃ row, w.ledger.filter (·.id = n) = [row]) ∧
    ∀ action w', step action w = some w' → (∀ n, action ≠ .commit n) →
      w'.wallets = w.wallets ∧ w'.ledger = w.ledger := by
  have ho := ok_run hStorable hRun
  refine ⟨?_, ho.accepted, fun n s hs ht row hr he => ?_, fun n s hs ht => ?_,
    fun action w' ha hc => (step_effect ha).stored hc⟩
  · obtain ⟨row, hr, hb⟩ := ho.books id initial hInitial
    obtain ⟨hl, hh⟩ := ho.range id row hr
    exact ⟨row, hr, hl, hh, hb.chain, hb.last, hb.total⟩
  · have hn := ho.written n
    have hc : w.committed n = false := by simp [World.committed, hs, ht]
    rw [hc, Bool.toNat_false, List.countP_eq_zero] at hn
    exact hn row hr (by simp [he])
  · have hn := ho.written n
    have hc : w.committed n = true := by simp [World.committed, hs, ht]
    rw [hc, Bool.toNat_true, List.countP_eq_length_filter] at hn
    exact List.length_eq_one_iff.mp hn

def fiveUnits (id : String) : Option ℤ := if id = "w" then some (5 * 10 ^ balanceScale) else none

theorem storable_fiveUnits : Storable fiveUnits := by
  intro id balance hb
  simp only [fiveUnits, Option.ite_none_right_eq_some, Option.some.injEq] at hb
  obtain ⟨-, rfl⟩ := hb
  decide

def creditAndDebit : List Action :=
  [.call 0 .credit "w" " 007.5 ", .call 1 .debit "w" "6", .begin 0, .begin 1, .select 0, .select 1,
    .lock 0, .update 0, .record 0, .commit 0, .lock 1]

theorem ledger_accounts_creditAndDebit : ∃ w,
    run step creditAndDebit (World.start fiveUnits) = some w ∧
      ∃ row, w.wallets "w" = some row ∧ row.balance < 10 ^ balancePrecision ∧
        (row.balance : ℚ) / 10 ^ balanceScale = (5 * 10 ^ balanceScale : ℤ) / 10 ^ balanceScale +
          recorded .credit (rowsOf "w" w.ledger) - recorded .debit (rowsOf "w" w.ledger) := by
  have hs : (run step creditAndDebit (World.start fiveUnits)).isSome = true := by
    decide +kernel
  obtain ⟨w, hr⟩ := Option.isSome_iff_exists.mp hs
  obtain ⟨⟨row, ha, -, hh, -, -, ht⟩, -⟩ :=
    ledger_accounts storable_fiveUnits hr
      (rfl : fiveUnits "w" = some (5 * 10 ^ balanceScale))
  exact ⟨w, hr, row, ha, hh, ht⟩

end Credence.Wallets
