import Credence.Wallets.Ledger

/-! `getBalanceAtTime` takes the balance from the row with the latest time, which is that of the
start of its transaction. -/

namespace Credence.Wallets

open ProofKit List

/-- The results that the query may return: which of several rows of one time comes first is not
determined. -/
def getBalanceAtTime (ledger : List WalletTransaction) (walletId : String) (timestamp : Nat) :
    List (Option String) :=
  let rows := ledger.filter fun row => row.walletId = walletId ∧ row.createdAt ≤ timestamp
  let newest := rows.filter fun row => rows.all fun other => other.createdAt ≤ row.createdAt
  if rows = [] then [none] else newest.map fun row => some row.newBalance

/-- A commit comes in start order: the transaction began after those that wrote the rows of the
wallet. -/
def inStartOrder (action : Action) (w : World) : Bool :=
  match action with
  | .commit n =>
    match w.sessions n with
    | none => true
    | some s => (rowsOf s.walletId w.ledger).all fun row => row.createdAt < s.startedAt
  | _ => true

def InStartOrder (action : Action) (w : World) : Prop := inStartOrder action w = true

instance (action : Action) (w : World) : Decidable (InStartOrder action w) :=
  inferInstanceAs (Decidable (_ = true))

def Sorted (w : World) : Prop :=
  ∀ id, (rowsOf id w.ledger).Pairwise fun before after => before.createdAt < after.createdAt

theorem Sorted.step {action : Action} {w w' : World} (h : Sorted w)
    (ho : InStartOrder action w) (hs : step action w = some w') : Sorted w' := by
  cases step_effect hs with
  | @committed n s before after row ha he ht hr =>
    subst ha
    simp only [InStartOrder, inStartOrder, he, all_eq_true, decide_eq_true_eq] at ho
    intro id
    rw [commitRow_ledger, rowsOf_snoc]
    by_cases hi : (s.ledgerRow n before after).walletId = id
    · subst hi
      rw [if_pos rfl, pairwise_append]
      refine ⟨h _, pairwise_singleton _ _, fun row hr last hl => ?_⟩
      rw [mem_singleton.mp hl]
      exact ho row hr
    · rw [if_neg hi, append_nil]
      exact h id
  | _ => exact h

theorem newest_of_sorted {rows : List WalletTransaction} {last : WalletTransaction}
    (h : (rows ++ [last]).Pairwise fun before after => before.createdAt < after.createdAt) :
    (rows ++ [last]).filter (fun row =>
      (rows ++ [last]).all fun other => other.createdAt ≤ row.createdAt) = [last] := by
  obtain ⟨-, -, hl⟩ := pairwise_append.mp h
  have hn : rows.filter (fun row =>
      (rows ++ [last]).all fun other => other.createdAt ≤ row.createdAt) = [] := by
    rw [filter_eq_nil_iff]
    intro row hr
    have hLt := hl row hr last (by simp)
    simp only [all_append, all_cons, Bool.and_eq_true, decide_eq_true_eq, not_and]
    omega
  have hm :
      ((rows ++ [last]).all fun other => decide (other.createdAt ≤ last.createdAt)) = true := by
    simp only [all_append, all_cons, all_nil, Bool.and_true, Bool.and_eq_true,
      all_eq_true, decide_eq_true_eq, le_refl, and_true]
    exact fun row hr => (hl row hr last (by simp)).le
  rw [filter_append, hn, nil_append, filter_cons_of_pos (by exact hm),
    filter_nil]

/-- Where every commit comes in start order, the replay at a time after all rows is the balance. -/
theorem replay_is_balance {balances : String → Option ℤ} (hStorable : Storable balances)
    {actions : List Action} (hOrder : Along step InStartOrder actions (World.start balances))
    {w : World} (hRun : run step actions (World.start balances) = some w) {id : String}
    {initial : ℤ} (hInitial : balances id = some initial) (hRows : rowsOf id w.ledger ≠ [])
    {timestamp : Nat} (hAfter : ∀ row ∈ rowsOf id w.ledger, row.createdAt ≤ timestamp) :
    ∃ row, w.wallets id = some row ∧
      getBalanceAtTime w.ledger id timestamp = [some (balanceText row.balance)] := by
  obtain ⟨row, hr, ha⟩ := (ok_run hStorable hRun).books id initial hInitial
  have hf : (w.ledger.filter fun row => row.walletId = id ∧ row.createdAt ≤ timestamp) =
      rowsOf id w.ledger := by
    refine filter_congr fun other ho => ?_
    have ht : other.walletId = id → other.createdAt ≤ timestamp := fun hi =>
      hAfter other (mem_filter.mpr ⟨ho, by simpa using hi⟩)
    by_cases hi : other.walletId = id
    · simp [hi, ht hi]
    · simp [hi]
  obtain ⟨init, last, hl⟩ : ∃ init last, rowsOf id w.ledger = init ++ [last] :=
    ⟨_, _, (dropLast_concat_getLast hRows).symm⟩
  have hs := run_invariant Sorted (fun _ _ _ hs hOk hc => hs.step hOk hc)
    (fun _ => List.Pairwise.nil) hOrder hRun id
  have hb := ha.last
  rw [hl] at hs
  rw [hl, carry_snoc] at hb
  refine ⟨row, hr, ?_⟩
  simp only [getBalanceAtTime, hf]
  rw [if_neg hRows, hl, newest_of_sorted hs, ← hb]
  rfl

def creditsInOrder : List Action :=
  [.call 0 .credit "w" "1", .call 1 .credit "w" "2", .begin 0, .tick, .begin 1, .select 0, .lock 0,
    .update 0, .record 0, .commit 0, .select 1, .lock 1, .update 1, .record 1, .commit 1]

theorem replay_is_balance_creditsInOrder : ∃ w,
    run step creditsInOrder (World.start fiveUnits) = some w ∧ ∃ row, w.wallets "w" = some row ∧
        getBalanceAtTime w.ledger "w" 1 = [some (balanceText row.balance)] := by
  have ho : Along step InStartOrder creditsInOrder (World.start fiveUnits) := by
    decide +kernel
  have ht : (run step creditsInOrder (World.start fiveUnits)).map (fun w =>
      (rowsOf "w" w.ledger).map WalletTransaction.createdAt) = some [0, 1] := by
    decide +kernel
  obtain ⟨w, hu, hr⟩ := Option.map_eq_some_iff.mp ht
  refine ⟨w, hu, replay_is_balance storable_fiveUnits ho hu
    (rfl : fiveUnits "w" = some (5 * 10 ^ balanceScale)) ?_ fun row ha => ?_⟩
  · intro hn
    rw [hn] at hr
    cases hr
  · have hm := mem_map_of_mem (f := WalletTransaction.createdAt) ha
    rw [hr] at hm
    simp only [mem_cons, not_mem_nil, or_false] at hm
    omega

def creditsOutOfOrder : List Action :=
  [.call 0 .credit "w" "1", .call 1 .credit "w" "2", .begin 0, .tick, .begin 1, .select 1, .lock 1,
    .update 1, .record 1, .commit 1, .select 0, .lock 0, .update 0, .record 0, .commit 0]

theorem replay_misses_last_commit :
    (run step creditsOutOfOrder (World.start fiveUnits)).map (fun w =>
        (getBalanceAtTime w.ledger "w" 1, (w.wallets "w").map fun row => balanceText row.balance)) =
      some ([some "7.000000000000000000"], some "8.000000000000000000") := by
  decide +kernel

end Credence.Wallets
