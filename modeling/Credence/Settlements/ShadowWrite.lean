import Credence.Settlements.Service

/-! Shadow writes of a settlement: the upsert of the old and of the new pipeline, both on the one
repository, in either order. -/

namespace Credence.Settlements

inductive ShadowWriteMismatch where
  | errorMismatch
  | statusMismatch
  | dataMismatch
  deriving DecidableEq

/-- What an upsert returns: the row and `isDuplicate`. -/
abbrev Written := Settlement × Bool

/-- The mismatches that are recorded for two outcomes, where `none` is an error. -/
def diffAndRecordShadowWrites : Option Written → Option Written → List ShadowWriteMismatch
  | none, none => []
  | none, some _ | some _, none => [.errorMismatch]
  | some (old, oldDuplicate), some (new, newDuplicate) =>
    (if old.status ≠ new.status then [.statusMismatch] else []) ++
      (if old.amount ≠ new.amount ∨ old.bondId ≠ new.bondId ∨
          old.transactionHash ≠ new.transactionHash then [.dataMismatch] else []) ++
      if oldDuplicate ≠ newDuplicate then [.dataMismatch] else []

variable (numeric : String → Option ℤ) (input : CreateSettlementInput)

/-- The upsert with what it returns; a refused amount changes nothing. -/
def upsertRow (now : Int) (table : Table) : Table × Option Written :=
  match table.upsert numeric now input with
  | none => (table, none)
  | some (after, isDuplicate) =>
    (after, (after.findByTransactionHash input.transactionHash).map (·, isDuplicate))

/-- The table afterwards, the result of the old pipeline and the mismatches. -/
def executeShadowWrite (oldFirst : Bool) (now later : Int) (table : Table) :
    Table × Option Written × List ShadowWriteMismatch :=
  let (middle, first) := upsertRow numeric input now table
  let (after, second) := upsertRow numeric input later middle
  let (old, new) := if oldFirst then (first, second) else (second, first)
  (after, old, diffAndRecordShadowWrites old new)

def Settlement.untimed (row : Settlement) : Settlement := { row with settledAt := 0 }

/-- What the upsert makes of the row that it conflicts with. -/
def CreateSettlementInput.overwrite (input : CreateSettlementInput) (amount : ℤ) (now : Int)
    (row : Settlement) : Settlement :=
  { row with amount, status := input.writes, settledAt := input.settledAt.getD now }

def CreateSettlementInput.row (input : CreateSettlementInput) (id : Nat) (amount : ℤ) (now : Int) :
    Settlement :=
  ⟨id, input.bondId, amount, input.transactionHash, input.settledAt.getD now, input.writes⟩

variable {numeric input} {table : Table} {amount : ℤ} {existing : Settlement}

theorem upsertRow_none (ha : numeric input.amount = some amount)
    (hf : table.findByTransactionHash input.transactionHash = none) (now : Int) :
    upsertRow numeric input now table =
      (⟨Function.update table.findByTransactionHash input.transactionHash
          (some (input.row table.nextId amount now)), table.nextId + 1⟩,
        some (input.row table.nextId amount now, false)) := by
  simp [upsertRow, Table.upsert, ha, hf, CreateSettlementInput.row]

theorem upsertRow_some (ha : numeric input.amount = some amount)
    (hf : table.findByTransactionHash input.transactionHash = some existing) (now : Int) :
    upsertRow numeric input now table =
      (⟨Function.update table.findByTransactionHash input.transactionHash
          (some (input.overwrite amount now existing)), table.nextId⟩,
        some (input.overwrite amount now existing, true)) := by
  simp [upsertRow, Table.upsert, ha, hf, CreateSettlementInput.overwrite]

/-- The rows apart from their times do not depend on the time of an upsert. -/
theorem map_untimed_update {a b : Settlement} (find : String → Option Settlement)
    (key hash : String) (he : a.untimed = b.untimed) :
    (Function.update find key (some a) hash).map Settlement.untimed =
      (Function.update find key (some b) hash).map Settlement.untimed := by
  by_cases hh : hash = key
  · simp [hh, he]
  · simp [Function.update_of_ne hh]

/-- Whichever upsert comes first, the rows and the settlement returned are those of one upsert apart
from their times. No mismatch is recorded precisely when the settlement was there before; a
duplicate is recorded as without shadow writes precisely then or if the old pipeline comes first. -/
theorem shadow_write_transparent (hAmount : (numeric input.amount).isSome = true) (oldFirst : Bool)
    (now first second : Int) (table : Table) : ∃ plain shadow rows rows' dup dup' mismatches,
    upsertRow numeric input now table = (rows, some (plain, dup)) ∧
      executeShadowWrite numeric input oldFirst first second table =
        (rows', some (shadow, dup'), mismatches) ∧ shadow.untimed = plain.untimed ∧
      (∀ hash, (rows'.findByTransactionHash hash).map Settlement.untimed =
        (rows.findByTransactionHash hash).map Settlement.untimed) ∧
      (mismatches = [] ↔ (table.findByTransactionHash input.transactionHash).isSome = true) ∧
      (dup' = dup ↔ (table.findByTransactionHash input.transactionHash).isSome = true ∨
        oldFirst = true) := by
  obtain ⟨amount, ha⟩ := Option.isSome_iff_exists.mp hAmount
  -- the second upsert finds the row of the first
  have hs : ∀ (row : Settlement) (nextId : Nat), upsertRow numeric input second
      ⟨Function.update table.findByTransactionHash input.transactionHash (some row), nextId⟩ = _ :=
    fun row nextId => upsertRow_some ha (Function.update_self ..) second
  cases hf : table.findByTransactionHash input.transactionHash with
  | none =>
    rw [upsertRow_none ha hf now, executeShadowWrite, upsertRow_none ha hf first]
    simp only [hs, Function.update_idem]
    cases oldFirst with
    | false | true =>
      refine ⟨_, _, _, _, _, _, _, rfl, rfl, rfl, fun hash => map_untimed_update _ _ hash rfl, ?_⟩
      simp [diffAndRecordShadowWrites]
  | some existing =>
    rw [upsertRow_some ha hf now, executeShadowWrite, upsertRow_some ha hf first]
    simp only [hs, Function.update_idem]
    cases oldFirst with
    | false | true =>
      refine ⟨_, _, _, _, _, _, _, rfl, rfl, rfl, fun hash => map_untimed_update _ _ hash rfl, ?_⟩
      simp [diffAndRecordShadowWrites, CreateSettlementInput.overwrite]

def shadowInput : CreateSettlementInput := ⟨"b", "5", "h", none, some .pending⟩

def failedBefore : Table := ⟨fun hash => some ⟨0, "b", 5, hash, 0, .failed⟩, 1⟩

theorem shadow_write_transparent_retry : ∃ rows written,
    executeShadowWrite (fun _ => some 5) shadowInput true 1 2 failedBefore =
      (rows, written, []) := by
  obtain ⟨_, _, _, rows, _, _, _, -, he, -, -, h⟩ :=
    @shadow_write_transparent (fun _ => some 5) shadowInput rfl true 0 1 2 failedBefore
  exact ⟨rows, _, h.1.mpr rfl ▸ he⟩

/-- A new settlement with the new pipeline first: a duplicate and a mismatch are recorded. -/
theorem shadow_write_new_settlement :
    ((upsertRow (fun _ => some 5) shadowInput 0 ⟨fun _ => none, 0⟩).2.map Prod.snd,
      (executeShadowWrite (fun _ => some 5) shadowInput false 0 0 ⟨fun _ => none, 0⟩).2.1.map
        Prod.snd,
      (executeShadowWrite (fun _ => some 5) shadowInput false 0 0 ⟨fun _ => none, 0⟩).2.2) =
    (some false, some true, [.dataMismatch]) := by
  decide

end Credence.Settlements
