import Credence.ProofKit.Runs
import Credence.Wallets.Repository

/-! Calls of `credit` and `debit` at the same time, in `REPEATABLE READ` transactions. `SELECT …
FOR UPDATE` locks the row to the end, and fails where the row has changed since the snapshot.
`NOW()` is the time at which the transaction began. -/

namespace Credence.Wallets

open Option

/-- A row of `wallets`. The version changes with every update that commits. -/
structure Wallet where
  balance : ℤ
  version : Nat

/-- A row of `wallet_transactions`; its `id` is the number of the call that wrote it. -/
structure WalletTransaction where
  id : Nat
  walletId : String
  type : TransactionType
  amount : String
  previousBalance : String
  newBalance : String
  createdAt : Nat

inductive Stage where
  | idle
  | begun
  | viewing (seen : Option Nat)
  | waiting (seen : Nat)
  | locked (balance : ℤ)
  | updated (before after : ℤ)
  | recorded (before after : ℤ)
  | committed
  | rejected (error : WalletError)
  deriving DecidableEq

def Stage.isOver : Stage → Bool
  | committed | rejected _ => true
  | _ => false

structure Session where
  type : TransactionType
  walletId : String
  amount : String
  attempts : Nat
  startedAt : Nat
  stage : Stage

structure World where
  now : Nat
  wallets : String → Option Wallet
  ledger : List WalletTransaction
  lockedBy : String → Option Nat
  sessions : Nat → Option Session

namespace World

def start (balances : String → Option ℤ) : World where
  now := 0
  wallets id := (balances id).map fun balance => ⟨balance, 0⟩
  ledger := []
  lockedBy _ := none
  sessions _ := none

def setSession (w : World) (n : Nat) (s : Session) : World :=
  { w with sessions := Function.update w.sessions n (some s) }

def releaseLock (w : World) (n : Nat) (id : String) : World := { w with
    lockedBy := fun other =>
      if other = id ∧ w.lockedBy id = some n then none else w.lockedBy other }

def rollback (w : World) (n : Nat) (s : Session) (error : WalletError) : World :=
  (w.releaseLock n s.walletId).setSession n { s with stage := .rejected error }

def version (w : World) (id : String) : Option Nat := (w.wallets id).map Wallet.version

end World

def maxRetries : Nat := 2

def Session.ledgerRow (s : Session) (n : Nat) (before after : ℤ) : WalletTransaction where
  id := n
  walletId := s.walletId
  type := s.type
  amount := s.amount
  previousBalance := balanceText before
  newBalance := balanceText after
  createdAt := s.startedAt

inductive Action where
  | tick
  | call (n : Nat) (type : TransactionType) (walletId amount : String)
  | begin (n : Nat)
  | setTenant (n : Nat)
  | select (n : Nat)
  | lock (n : Nat)
  | lockTimeout (n : Nat)
  | update (n : Nat)
  | record (n : Nat)
  | commit (n : Nat)
  | fail (n : Nat) (error : WalletError)

/-- `SELECT … FOR UPDATE` in a transaction whose snapshot has the version `seen` of the row. -/
def selectForUpdate (w : World) (n : Nat) (s : Session) : Option Nat → World
  | none => w.rollback n s (.notFound s.walletId)
  | some seen => w.setSession n { s with stage := .waiting seen }

/-- The end of a `SELECT … FOR UPDATE` whose row is not locked by another transaction. -/
def lockRow (w : World) (n : Nat) (s : Session) (seen : Nat) (row : Wallet) : World :=
  if row.version = seen then
    World.setSession { w with lockedBy := Function.update w.lockedBy s.walletId (some n) } n
      { s with stage := .locked row.balance }
  else w.rollback n s (.database "40001")

def updateRow (w : World) (n : Nat) (s : Session) (balance : ℤ) : World :=
  match checkBalance s.type s.walletId s.amount (balanceText balance) with
  | .error error => w.rollback n s error
  | .ok () =>
    match updateBalance s.type balance s.amount with
    | .error error => w.rollback n s error
    | .ok after => w.setSession n { s with stage := .updated balance after }

def commitRow (w : World) (n : Nat) (s : Session) (before after : ℤ) (row : Wallet) : World :=
  World.setSession
    (World.releaseLock
      { w with
        wallets := Function.update w.wallets s.walletId (some ⟨after, row.version + 1⟩)
        ledger := w.ledger ++ [s.ledgerRow n before after] } n s.walletId)
    n { s with stage := .committed }

section

variable (w : World) (n : Nat) (s : Session) (before after : ℤ) (row : Wallet)

theorem commitRow_sessions : (commitRow w n s before after row).sessions =
    Function.update w.sessions n (some { s with stage := .committed }) := rfl

theorem commitRow_wallets : (commitRow w n s before after row).wallets =
    Function.update w.wallets s.walletId (some ⟨after, row.version + 1⟩) := rfl

theorem commitRow_ledger : (commitRow w n s before after row).ledger =
    w.ledger ++ [s.ledgerRow n before after] := rfl

end

def step (action : Action) (w : World) : Option World :=
  match action with
  | .tick => some { w with now := w.now + 1 }
  | .call n type walletId amount =>
    if w.sessions n = none then
      let stage := match checkAmount type amount with
        | .ok () => .idle
        | .error error => .rejected error
      some (w.setSession n ⟨type, walletId, amount, 0, 0, stage⟩)
    else none
  | .begin n =>
    (w.sessions n).bind fun s =>
      if s.stage = .idle then some (w.setSession n { s with startedAt := w.now, stage := .begun })
      else none
  | .setTenant n =>
    (w.sessions n).bind fun s =>
      if s.stage = .begun then
        some (w.setSession n { s with stage := .viewing (w.version s.walletId) })
      else none
  | .select n =>
    (w.sessions n).bind fun s =>
      match s.stage with
      | .begun => some (selectForUpdate w n s (w.version s.walletId))
      | .viewing seen => some (selectForUpdate w n s seen)
      | _ => none
  | .lock n =>
    (w.sessions n).bind fun s =>
      match s.stage with
      | .waiting seen =>
        if w.lockedBy s.walletId = none then (w.wallets s.walletId).map (lockRow w n s seen)
        else none
      | _ => none
  | .lockTimeout n =>
    (w.sessions n).bind fun s =>
      match s.stage with
      | .waiting _ =>
        if s.attempts < maxRetries then
          some (w.setSession n { s with attempts := s.attempts + 1, stage := .idle })
        else some (w.rollback n s .lockTimeout)
      | _ => none
  | .update n =>
    (w.sessions n).bind fun s =>
      match s.stage with
      | .locked balance => some (updateRow w n s balance)
      | _ => none
  | .record n =>
    (w.sessions n).bind fun s =>
      match s.stage with
      | .updated before after => some (w.setSession n { s with stage := .recorded before after })
      | _ => none
  | .commit n =>
    (w.sessions n).bind fun s =>
      match s.stage with
      | .recorded before after => (w.wallets s.walletId).map (commitRow w n s before after)
      | _ => none
  | .fail n error =>
    (w.sessions n).bind fun s => if s.stage.isOver = true then none else some (w.rollback n s error)

def Stage.isBeforeLock : Stage → Bool
  | idle | begun | viewing _ | waiting _ => true
  | _ => false

inductive Effect (w : World) (action : Action) : World → Prop where
  | ticked : Effect w action { w with now := w.now + 1 }
  | called {n : Nat} {s : Session} (hNew : w.sessions n = none)
      (hStage : (∃ e, s.stage = .rejected e) ∨
        s.stage = .idle ∧ checkAmount s.type s.amount = .ok ()) :
      Effect w action (w.setSession n s)
  | waited {n : Nat} {s s' : Session} (hSession : w.sessions n = some s)
      (hBefore : s.stage.isBeforeLock = true) (hAfter : s'.stage.isBeforeLock = true)
      (hType : s'.type = s.type) (hAmount : s'.amount = s.amount) :
      Effect w action (w.setSession n s')
  | rolledBack {n : Nat} {s : Session} (error : WalletError) (hSession : w.sessions n = some s)
      (hOpen : s.stage.isOver = false) : Effect w action (w.rollback n s error)
  | locked {n : Nat} {s : Session} {row : Wallet} (hSession : w.sessions n = some s)
      (hBefore : s.stage.isBeforeLock = true) (hFree : w.lockedBy s.walletId = none)
      (hRow : w.wallets s.walletId = some row) :
      Effect w action
        (World.setSession { w with lockedBy := Function.update w.lockedBy s.walletId (some n) } n
          { s with stage := .locked row.balance })
  | updated {n : Nat} {s : Session} {balance after : ℤ} (hSession : w.sessions n = some s)
      (hStage : s.stage = .locked balance)
      (hChecked : checkBalance s.type s.walletId s.amount (balanceText balance) = .ok ())
      (hUpdated : updateBalance s.type balance s.amount = .ok after) :
      Effect w action (w.setSession n { s with stage := .updated balance after })
  | recorded {n : Nat} {s : Session} {before after : ℤ} (hSession : w.sessions n = some s)
      (hStage : s.stage = .updated before after) :
      Effect w action (w.setSession n { s with stage := .recorded before after })
  | committed {n : Nat} {s : Session} {before after : ℤ} {row : Wallet}
      (hAction : action = .commit n) (hSession : w.sessions n = some s)
      (hStage : s.stage = .recorded before after) (hRow : w.wallets s.walletId = some row) :
      Effect w action (commitRow w n s before after row)

theorem Stage.isOver_of_isBeforeLock {stage : Stage} (h : stage.isBeforeLock = true) :
    stage.isOver = false := by
  cases stage <;> simp_all [Stage.isBeforeLock, Stage.isOver]

section

variable {w : World} {action : Action} {n : Nat} {s : Session}

theorem selectForUpdate_effect (hs : w.sessions n = some s)
    (hb : s.stage.isBeforeLock = true) (seen : Option Nat) :
    Effect w action (selectForUpdate w n s seen) := by
  cases seen with
  | none => exact .rolledBack _ hs (Stage.isOver_of_isBeforeLock hb)
  | some => exact .waited hs hb rfl rfl rfl

theorem updateRow_effect (hs : w.sessions n = some s) {balance : ℤ}
    (ht : s.stage = .locked balance) : Effect w action (updateRow w n s balance) := by
  have ho : s.stage.isOver = false := by rw [ht]; rfl
  unfold updateRow
  split
  · exact .rolledBack _ hs ho
  · split
    · exact .rolledBack _ hs ho
    · exact .updated hs ht ‹_› ‹_›

end

theorem step_effect {action : Action} {w w' : World} (hs : step action w = some w') :
    Effect w action w' := by
  cases action with simp only [step, bind_eq_some_iff, ite_none_right_eq_some,
    ite_none_left_eq_some, Option.some.injEq] at hs
  | tick =>
    cases hs
    exact .ticked
  | call n type walletId amount =>
    obtain ⟨hn, rfl⟩ := hs
    refine .called hn ?_
    cases hc : checkAmount type amount with
    | ok => exact .inr ⟨rfl, rfl⟩
    | error error => exact .inl ⟨error, rfl⟩
  | begin n | setTenant n =>
    obtain ⟨s, he, ht, rfl⟩ := hs
    exact .waited he (by rw [ht]; rfl) rfl rfl rfl
  | select =>
    obtain ⟨s, he, hs⟩ := hs
    split at hs
    · rename_i ht
      cases hs
      exact selectForUpdate_effect he (by rw [ht]; rfl) _
    · rename_i seen ht
      cases hs
      exact selectForUpdate_effect he (by rw [ht]; rfl) _
    · cases hs
  | lock =>
    obtain ⟨s, he, hs⟩ := hs
    split at hs
    · rename_i seen ht
      simp only [ite_none_right_eq_some, map_eq_some_iff] at hs
      obtain ⟨hf, row, hr, rfl⟩ := hs
      unfold lockRow
      split
      · exact .locked he (by rw [ht]; rfl) hf hr
      · exact .rolledBack _ he (by rw [ht]; rfl)
    · cases hs
  | lockTimeout =>
    obtain ⟨s, he, hs⟩ := hs
    split at hs
    · rename_i seen ht
      split at hs
      · cases hs
        exact .waited he (by rw [ht]; rfl) rfl rfl rfl
      · cases hs
        exact .rolledBack _ he (by rw [ht]; rfl)
    · cases hs
  | update =>
    obtain ⟨s, he, hs⟩ := hs
    split at hs
    · rename_i balance ht
      cases hs
      exact updateRow_effect he ht
    · cases hs
  | record =>
    obtain ⟨s, he, hs⟩ := hs
    split at hs
    · rename_i before after ht
      cases hs
      exact .recorded he ht
    · cases hs
  | commit =>
    obtain ⟨s, he, hs⟩ := hs
    split at hs
    · rename_i before after ht
      simp only [map_eq_some_iff] at hs
      obtain ⟨row, hr, rfl⟩ := hs
      exact .committed rfl he ht hr
    · cases hs
  | fail =>
    obtain ⟨s, he, ho, rfl⟩ := hs
    exact .rolledBack _ he (by simpa using ho)

theorem Effect.stored {w w' : World} {action : Action} (h : Effect w action w')
    (hc : ∀ n, action ≠ .commit n) : w'.wallets = w.wallets ∧ w'.ledger = w.ledger := by
  cases h with
  | committed ha => exact absurd ha (hc _)
  | _ => exact ⟨rfl, rfl⟩

end Credence.Wallets
