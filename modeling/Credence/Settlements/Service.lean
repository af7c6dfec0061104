import Credence.Js.Number
import Credence.Js.Text
import Credence.Lib.StateTransition

/-! Settlements: the transition table, the rows with the upsert of the repository, and the checks
before a write. -/

namespace Credence.Settlements

open Js Lib

inductive SettlementStatus where
  | pending
  | settled
  | failed
  deriving DecidableEq

def SettlementStatus.text : SettlementStatus → String
  | pending => "pending"
  | settled => "settled"
  | failed => "failed"

def settlementTransitions : TransitionMatrix SettlementStatus where
  transitions :=
    [⟨.pending, .settled, some "settle"⟩, ⟨.pending, .failed, some "fail"⟩,
      ⟨.failed, .pending, some "retry"⟩]
  nodup := by decide

def validateSettlementTransition (source target : SettlementStatus) :
    TransitionResult SettlementStatus :=
  settlementTransitions.tryTransition SettlementStatus.text source target

/-- A row of `settlements`, with the amount in units of the column's last digit. -/
structure Settlement where
  id : Nat
  bondId : String
  amount : ℤ
  transactionHash : String
  settledAt : Int
  status : SettlementStatus

structure CreateSettlementInput where
  bondId : String
  amount : String
  transactionHash : String
  settledAt : Option Int
  status : Option SettlementStatus

def CreateSettlementInput.writes (input : CreateSettlementInput) : SettlementStatus :=
  input.status.getD .pending

/-- The rows by their `transaction_hash`, which is unique. -/
structure Table where
  findByTransactionHash : String → Option Settlement
  nextId : Nat

/-- `INSERT ... ON CONFLICT (transaction_hash) DO UPDATE`, with `isDuplicate`. `numeric text` are
the units of an amount, none where the database refuses it. -/
def Table.upsert (numeric : String → Option ℤ) (now : Int) (input : CreateSettlementInput)
    (table : Table) : Option (Table × Bool) :=
  (numeric input.amount).map fun amount =>
    let settledAt := input.settledAt.getD now
    let hash := input.transactionHash
    match table.findByTransactionHash hash with
    | none =>
      let row : Settlement := ⟨table.nextId, input.bondId, amount, hash, settledAt, input.writes⟩
      (⟨Function.update table.findByTransactionHash hash (some row), table.nextId + 1⟩, false)
    | some existing =>
      let row := { existing with amount, status := input.writes, settledAt }
      (⟨Function.update table.findByTransactionHash hash (some row), table.nextId⟩, true)

/-- The texts of the `ValidationError`s. An input without a status is not checked. -/
def checkTransition (existing : Option Settlement) (input : CreateSettlementInput) :
    Except String Unit :=
  match input.status, existing with
  | none, _ => .ok ()
  | some status, some row =>
    let transition := validateSettlementTransition row.status status
    if transition.success then .ok ()
    else
      .error ("Settlement transition rejected: " ++ transition.error.getD "undefined" ++
        " (current: \"" ++ row.status.text ++ "\", requested: \"" ++ status.text ++
        "\", settlement: \"" ++ toString row.id ++ "\", txHash: \"" ++ input.transactionHash ++
        "\")")
  | some status, none =>
    if status = .pending ∨ status = .failed then .ok ()
    else
      .error ("Settlement cannot be created with status \"" ++ status.text ++
        "\": initial status must be \"pending\" or \"failed\"")

def isAmount (text : List Char) : Bool :=
  let int := text.takeWhile Char.isDigit
  let rest := text.dropWhile Char.isDigit
  !int.isEmpty && (rest.isEmpty ||
    rest.head? == some '.' && rest.tail.all Char.isDigit && 1 ≤ rest.tail.length &&
      rest.tail.length ≤ 18)

/-- The test `parseFloat(amount) > 1e18` of such a text. The numbers next to `1e18` are `128` apart
and the middle goes to `1e18`. -/
def exceedsLimit (text : List Char) : Bool :=
  let int := text.takeWhile Char.isDigit
  let frac := (text.dropWhile Char.isDigit).tail
  (10 ^ 18 + 64) * 10 ^ frac.length < Nat.ofDigitChars 10 (int ++ frac) 0

/-- The checks of one item of a batch, with the words for its place. -/
def checkItem (place bondId amount transactionHash : String) : Except String Unit :=
  if trim bondId.toList = [] then .error (place ++ " has invalid bondId: must not be empty")
  else if !isAmount amount.toList then
    .error (place ++ " has invalid amount: must be a valid non-negative numeric string with " ++
      "at most 18 decimal places")
  else if exceedsLimit amount.toList then
    .error (place ++ " has invalid amount: must be between 0 and 1e18")
  else if trim transactionHash.toList = [] ∨ utf16Length transactionHash.toList > 128 then
    .error (place ++ " has invalid transactionHash: must be a string between 1 and 128 characters")
  else .ok ()

def validateBatchInputs (inputs : List CreateSettlementInput) : Except String Unit :=
  inputs.zipIdx.forM fun (input, i) =>
    checkItem s!"Settlement input at index {i}" input.bondId input.amount input.transactionHash

structure PayoutItem where
  bondId : String
  amount : String
  transactionHash : String
  settledAt : Option Int

def PayoutItem.input (item : PayoutItem) (status : SettlementStatus) : CreateSettlementInput :=
  ⟨item.bondId, item.amount, item.transactionHash, item.settledAt, some status⟩

def maxBatchSize : Option Number → Nat
  | some (.finite q) => if q.isInt ∧ 0 < q then q.num.toNat else 1000
  | _ => 1000

def validateItems (seen : List String) : List (PayoutItem × Nat) → Except String Unit
  | [] => .ok ()
  | (item, i) :: items => do
    checkItem s!"Item at index {i}" item.bondId item.amount item.transactionHash
    if item.transactionHash ∈ seen then
      .error (s!"Item at index {i} has duplicate transactionHash " ++ item.transactionHash)
    validateItems (item.transactionHash :: seen) items

def validatePayload (configured : Option Number) (items : List PayoutItem) : Except String Unit :=
  if items.length > maxBatchSize configured then
    .error s!"Batch payout payload exceeds the maximum of {maxBatchSize configured} items"
  else validateItems [] items.zipIdx

/-- The row of the input after an upsert, and the rows of other hashes as they were. -/
theorem Table.upsert_spec {numeric : String → Option ℤ} {now : Int} {input : CreateSettlementInput}
    {table table' : Table} {isDuplicate : Bool}
    (h : table.upsert numeric now input = some (table', isDuplicate)) :
    (∀ hash ≠ input.transactionHash,
      table'.findByTransactionHash hash = table.findByTransactionHash hash) ∧
    ∃ row, table'.findByTransactionHash input.transactionHash = some row ∧
      row.status = input.writes ∧ numeric input.amount = some row.amount ∧
      ∀ old, table.findByTransactionHash input.transactionHash = some old →
        row.bondId = old.bondId := by
  obtain ⟨amount, hn, hp⟩ := Option.map_eq_some_iff.mp h
  cases he : table.findByTransactionHash input.transactionHash with
  | none | some =>
    simp only [he, Prod.mk.injEq] at hp
    obtain ⟨rfl, -⟩ := hp
    exact ⟨fun hash hh => Function.update_of_ne hh .., _, Function.update_self .., rfl, hn,
      by simp⟩

end Credence.Settlements
