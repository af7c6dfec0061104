import Credence.Pg.Numeric
import Credence.ProofKit.Runs
import Credence.Settlements.Service

/-! The writers of the settlements table side by side, `upsertSettlementStatus`,
`upsertSettlementBatch` and `BatchPayoutProcessor.process`; each read and each upsert is a step. -/

namespace Credence.Settlements

open Js ProofKit List Option

structure PayoutItemResult where
  bondId : String
  transactionHash : String
  status : SettlementStatus
  error : Option String
  retryEligible : Bool
  deriving DecidableEq

/-- `processItem` records the item as pending, executes the payout, or marks the item as failed,
with the executor's message, or as settled. -/
inductive ItemStage where
  | recording
  | executing
  | markingFailed (message : String)
  | markingSettled

def ItemStage.marking : Option String → ItemStage
  | none => markingSettled
  | some message => markingFailed message

/-- A call and what it does next. `copies` is the number of upserts that are left to
`upsertSettlementStatus`, two with shadow writes. -/
inductive Call where
  | checking (input : CreateSettlementInput) (copies : Nat)
  | writing (input : CreateSettlementInput) (copies : Nat)
  | batch (inputs : List CreateSettlementInput)
  | paying (stage : ItemStage) (item : PayoutItem) (rest : List PayoutItem)
      (results : List PayoutItemResult)
  | paid (results : List PayoutItemResult)
  | threw (message : String)

namespace Call

def nextWrite : Call → Option CreateSettlementInput
  | checking _ _ => none
  | writing input copies => if copies = 0 then none else some input
  | batch inputs => inputs.head?
  | paying .recording item _ _ => some (item.input .pending)
  | paying .executing _ _ _ => none
  | paying (.markingFailed _) item _ _ => some (item.input .failed)
  | paying .markingSettled item _ _ => some (item.input .settled)
  | paid _ => none
  | threw _ => none

def nextItem (results : List PayoutItemResult) : List PayoutItem → Call
  | [] => paid results
  | item :: rest => paying .recording item rest results

def result (item : PayoutItem) (status : SettlementStatus) (error : Option String)
    (retryEligible : Bool) : PayoutItemResult :=
  ⟨item.bondId, item.transactionHash, status, error, retryEligible⟩

def afterWrite (isDuplicate : Bool) : Call → Call
  | writing input copies => writing input (copies - 1)
  | batch inputs => batch inputs.tail
  | paying .recording item rest results =>
    if isDuplicate then nextItem (results ++ [result item .pending none false]) rest
    else paying .executing item rest results
  | paying (.markingFailed message) item rest results =>
    nextItem (results ++ [result item .failed (some message) true]) rest
  | paying .markingSettled item rest results =>
    nextItem (results ++ [result item .settled none false]) rest
  | call => call

/-- The query of the call has thrown. Shadow writes wait for both upserts; the processor goes on
with the next item. -/
def afterFailure (message : String) : Call → Call
  | checking _ _ => threw message
  | writing input copies => if copies ≤ 1 then threw message else writing input (copies - 1)
  | batch _ => threw message
  | paying .recording item rest results =>
    nextItem (results ++ [result item .failed (some message) true]) rest
  | paying (.markingFailed reason) item rest results =>
    nextItem (results ++ [result item .failed (some reason) true]) rest
  | paying .markingSettled item rest results =>
    nextItem (results ++ [result item .failed
      (some ("Payout executed but status update failed: " ++ message)) true]) rest
  | call => call

end Call

structure World where
  table : Table
  calls : List Call

inductive Action where
  | upsertSettlementStatus (input : CreateSettlementInput) (shadow : Bool)
  | upsertSettlementBatch (inputs : List CreateSettlementInput)
  | process (maxBatchSize : Option Number) (items : List PayoutItem)
  | find (index : Nat)
  | write (index : Nat) (now : Int)
  | fails (index : Nat) (message : String)
  | executed (index : Nat) (error : Option String)

def World.call (w : World) (call : Call) : World := { w with calls := w.calls ++ [call] }

def World.setCall (w : World) (index : Nat) (call : Call) : World :=
  { w with calls := w.calls.set index call }

def step (numeric : String → Option ℤ) : Action → World → Option World
  | .upsertSettlementStatus input shadow, w =>
    let copies := if shadow then 2 else 1
    some (w.call (if input.status.isSome then .checking input copies else .writing input copies))
  | .upsertSettlementBatch inputs, w =>
    match validateBatchInputs inputs with
    | .ok _ => some (w.call (.batch inputs))
    | .error _ => none
  | .process maxBatchSize items, w =>
    match validatePayload maxBatchSize items with
    | .ok _ => some (w.call (.nextItem [] items))
    | .error _ => none
  | .find index, w =>
    match w.calls[index]? with
    | some (.checking input copies) =>
      match checkTransition (w.table.findByTransactionHash input.transactionHash) input with
      | .ok _ => some (w.setCall index (.writing input copies))
      | .error message => some (w.setCall index (.threw message))
    | _ => none
  | .write index now, w =>
    w.calls[index]?.bind fun call =>
      call.nextWrite.bind fun input =>
        (w.table.upsert numeric now input).map fun (table, isDuplicate) =>
          World.setCall { w with table } index (call.afterWrite isDuplicate)
  | .fails index message, w =>
    w.calls[index]?.map fun call => w.setCall index (call.afterFailure message)
  | .executed index error, w =>
    match w.calls[index]? with
    | some (.paying .executing item rest results) =>
      some (w.setCall index (.paying (.marking error) item rest results))
    | _ => none

theorem step_table {numeric : String → Option ℤ} {action : Action} {w w' : World}
    (hStep : step numeric action w = some w') :
    w'.table = w.table ∨ ∃ index now call input isDuplicate, action = .write index now ∧
      w.calls[index]? = some call ∧ call.nextWrite = some input ∧
      w.table.upsert numeric now input = some (w'.table, isDuplicate) := by
  cases action with simp only [step, bind_eq_some_iff, map_eq_some_iff] at hStep
  | upsertSettlementStatus =>
    cases hStep
    exact .inl rfl
  | upsertSettlementBatch inputs | process maxBatchSize items =>
    split at hStep <;> cases hStep
    exact .inl rfl
  | find =>
    split at hStep
    · split at hStep <;> cases hStep <;> exact .inl rfl
    · cases hStep
  | write index now =>
    obtain ⟨call, hc, input, hi, ⟨table, isDuplicate⟩, hu, rfl⟩ := hStep
    exact .inr ⟨index, now, call, input, isDuplicate, rfl, hc, hi, hu⟩
  | fails =>
    obtain ⟨call, -, rfl⟩ := hStep
    exact .inl rfl
  | executed =>
    split at hStep
    · cases hStep
      exact .inl rfl
    · cases hStep

/-- The upserts that the call may still make because it has checked the row, or has recorded the
payout and not yet marked it. -/
def Call.plans : Call → List CreateSettlementInput
  | writing input copies => if input.status.isSome ∧ copies ≠ 0 then [input] else []
  | paying .executing item _ _ => [item.input .failed, item.input .settled]
  | paying (.markingFailed _) item _ _ => [item.input .failed]
  | paying .markingSettled item _ _ => [item.input .settled]
  | _ => []

/-- An upsert without a check (without a status, of a batch or the first of a payout) meets no
settled row and settles no failed one, and no upsert is of a hash that another call has plans
for. -/
def undisturbed (action : Action) (w : World) : Bool :=
  match action with
  | .write index _ => w.calls[index]?.all fun call => call.nextWrite.all fun input =>
    (!call.plans.isEmpty || (w.table.findByTransactionHash input.transactionHash).all fun row =>
      row.status = .pending || row.status = .failed && input.writes ≠ .settled) &&
    (range w.calls.length).all fun other => other = index || w.calls[other]?.all fun waiting =>
      waiting.plans.all (·.transactionHash ≠ input.transactionHash)
  | _ => true

def Undisturbed (action : Action) (w : World) : Prop := undisturbed action w = true

instance (action : Action) (w : World) : Decidable (Undisturbed action w) :=
  inferInstanceAs (Decidable (_ = true))

/-- A settled row of `earlier` is in `later`, settled, with its amount and its bond. -/
def KeepsSettled (earlier later : World) : Prop :=
  ∀ hash row, earlier.table.findByTransactionHash hash = some row → row.status = .settled →
    ∃ row', later.table.findByTransactionHash hash = some row' ∧ row'.status = .settled ∧
      row'.amount = row.amount ∧ row'.bondId = row.bondId

/-- A status changes only along the transition table. -/
def ChangesAllowed (earlier later : World) : Prop :=
  ∀ hash row row', earlier.table.findByTransactionHash hash = some row →
    later.table.findByTransactionHash hash = some row' → row'.status ≠ row.status →
    settlementTransitions.isValid row.status row'.status = true

section

variable {numeric : String → Option ℤ} {w w' : World} {action : Action} {call : Call}
  {input : CreateSettlementInput} {row : Settlement} {table : Table}

variable (numeric) in
/-- The upsert changes the status of the row as the table allows, or does not change it nor, where
it is settled, the amount. -/
def Permits (row : Settlement) (input : CreateSettlementInput) : Prop :=
  settlementTransitions.isValid row.status input.writes = true ∨
    input.writes = row.status ∧ (row.status = .settled → numeric input.amount = some row.amount)

theorem permits_unchecked
    (h : row.status = .pending ∨ row.status = .failed ∧ input.writes ≠ .settled) :
    Permits numeric row input := by
  have hp : settlementTransitions.isValid row.status input.writes = true ∨
      input.writes = row.status ∧ row.status ≠ .settled := by
    revert h
    cases row.status <;> cases input.writes <;> decide
  exact hp.imp_right fun h => ⟨h.1, fun hs => absurd hs h.2⟩

variable (numeric) in
/-- Every plan of the call is permitted on the row that it meets. -/
def Call.Ready (table : Table) (call : Call) : Prop := ∀ input ∈ call.plans, ∀ row,
    table.findByTransactionHash input.transactionHash = some row → Permits numeric row input

variable (numeric) in
/-- No plan of a call breaks the rules on the row that is there. -/
structure Ok (w : World) : Prop where
  ready : ∀ call ∈ w.calls, call.Ready numeric w.table

theorem plans_nextItem {results : List PayoutItemResult} {items : List PayoutItem} :
    (Call.nextItem results items).plans = [] := by
  cases items <;> rfl

theorem plans_of_nextWrite (h : call.nextWrite = some input) :
    call.plans = [] ∨ input ∈ call.plans := by
  cases call with
  | writing =>
    obtain ⟨hp, he⟩ := ite_none_left_eq_some.mp h
    cases he
    by_cases hs : input.status.isSome <;> simp [Call.plans, hs, hp]
  | paying stage => cases stage <;> simp_all [Call.nextWrite, Call.plans]
  | batch => exact .inl rfl
  | checking | paid | threw => cases h

theorem plans_afterFailure (message : String) : (call.afterFailure message).plans ⊆ call.plans := by
  cases call with
  | writing =>
    rw [Call.afterFailure]
    split
    · exact nil_subset _
    · grind [Call.plans]
  | paying stage => cases stage <;> simp [Call.afterFailure, plans_nextItem]
  | checking | batch | paid | threw => exact nil_subset _

/-- After its write a call plans the same write again, or to mark the payout that it recorded. -/
theorem plans_afterWrite {isDuplicate : Bool} {plan : CreateSettlementInput}
    (h : call.nextWrite = some input) (hp : plan ∈ (call.afterWrite isDuplicate).plans) :
    plan = input ∨ input.writes = .pending ∧ plan.transactionHash = input.transactionHash := by
  cases call with
  | writing => grind [Call.nextWrite, Call.afterWrite, Call.plans]
  | paying stage item =>
    cases stage with
    | recording =>
      cases h
      rw [Call.afterWrite] at hp
      split at hp
      · simp [plans_nextItem] at hp
      · right
        rcases mem_pair.mp hp with rfl | rfl <;> exact ⟨rfl, rfl⟩
    | executing => cases h
    | markingFailed | markingSettled => simp [Call.afterWrite, plans_nextItem] at hp
  | batch => cases hp
  | checking | paid | threw => cases h

theorem ready_of_check {copies : Nat}
    (h : checkTransition (table.findByTransactionHash input.transactionHash) input = .ok ()) :
    (Call.writing input copies).Ready numeric table := by
  intro plan hp row hr
  obtain ⟨⟨hs, -⟩, rfl⟩ : (input.status.isSome ∧ copies ≠ 0) ∧ plan = input := by
    grind [Call.plans]
  obtain ⟨status, hs⟩ := isSome_iff_exists.mp hs
  simp only [checkTransition, hs, hr] at h
  split at h
  · next ht =>
    left
    simpa [CreateSettlementInput.writes, hs, validateSettlementTransition] using ht
  · cases h

section

variable {index : Nat} {now : Int} (ho : Ok numeric w) (hu : Undisturbed (.write index now) w)
  (hc : w.calls[index]? = some call) (hi : call.nextWrite = some input)
include ho hu hc hi

theorem permits_write (hr : w.table.findByTransactionHash input.transactionHash = some row) :
    Permits numeric row input := by
  simp only [Undisturbed, undisturbed, hc, hi, hr, all_some, Bool.and_eq_true] at hu
  rcases plans_of_nextWrite hi with hp | hp
  · exact permits_unchecked (by simpa [hp] using hu.1)
  · exact ho.ready call (mem_of_getElem? hc) input hp row hr

theorem ready_others {isDuplicate : Bool}
    (ht : w.table.upsert numeric now input = some (table, isDuplicate)) {other : Nat}
    (hne : other ≠ index) {waiting : Call} (hw : w.calls[other]? = some waiting) :
    waiting.Ready numeric table := by
  intro plan hp row hr
  simp only [Undisturbed, undisturbed, hc, hi, all_some, Bool.and_eq_true] at hu
  have hm := all_eq_true.mp hu.2 other
    (mem_range.mpr (List.getElem?_eq_some_iff.mp hw).1)
  rw [(Table.upsert_spec ht).1 _ (by simp_all)] at hr
  exact ho.ready waiting (mem_of_getElem? hw) plan hp row hr

end

section

variable (ho : Ok numeric w) (hu : Undisturbed action w) (hStep : step numeric action w = some w')
include ho hu hStep

theorem step_row {hash : String} (hr : w.table.findByTransactionHash hash = some row) :
    ∃ row', w'.table.findByTransactionHash hash = some row' ∧ row'.bondId = row.bondId ∧
      (settlementTransitions.isValid row.status row'.status = true ∨
        row'.status = row.status ∧ (row.status = .settled → row'.amount = row.amount)) := by
  rcases step_table hStep with hs | ⟨index, now, call, input, isDuplicate, rfl, hc, hi, ht⟩
  · exact ⟨row, hs ▸ hr, rfl, .inr ⟨rfl, fun _ => rfl⟩⟩
  · obtain ⟨hk, row', hr', hs, ha, hb⟩ := Table.upsert_spec ht
    by_cases hh : hash = input.transactionHash
    · subst hh
      refine ⟨row', hr', hb row hr, ?_⟩
      rw [hs]
      exact (permits_write ho hu hc hi hr).imp_right fun h =>
        ⟨h.1, fun hp => Option.some.inj (ha.symm.trans (h.2 hp))⟩
    · exact ⟨row, hk hash hh ▸ hr, rfl, .inr ⟨rfl, fun _ => rfl⟩⟩

theorem step_keepsSettled : KeepsSettled w w' := by
  intro hash row hr hs
  obtain ⟨row', hr', hb, hv | ⟨he, ha⟩⟩ := step_row ho hu hStep hr
  · rw [hs] at hv
    exfalso
    revert hv
    cases row'.status <;> decide
  · exact ⟨row', hr', he.trans hs, ha hs, hb⟩

theorem step_changesAllowed : ChangesAllowed w w' := by
  intro hash row row' hr hr' hn
  obtain ⟨other, hg, -, hv | ⟨he, -⟩⟩ := step_row ho hu hStep hr <;> cases hg.symm.trans hr'
  · exact hv
  · exact absurd he hn

end

theorem Ok.add (ho : Ok numeric w) (hp : call.plans = []) : Ok numeric (w.call call) := by
  refine ⟨fun other hm => ?_⟩
  rcases mem_append.mp hm with hm | hm
  · exact ho.ready other hm
  · cases mem_singleton.mp hm
    simp [Call.Ready, hp]

theorem Ok.setCall {index : Nat} (ho : Ok numeric w) (hr : call.Ready numeric w.table) :
    Ok numeric (w.setCall index call) := by
  refine ⟨fun other hm => ?_⟩
  rcases mem_or_eq_of_mem_set hm with hm | rfl
  · exact ho.ready other hm
  · exact hr

theorem Ok.step (ho : Ok numeric w) (hu : Undisturbed action w)
    (hStep : Settlements.step numeric action w = some w') : Ok numeric w' := by
  cases action with
    simp only [Settlements.step, bind_eq_some_iff, map_eq_some_iff] at hStep
  | upsertSettlementStatus input =>
    cases hStep
    exact ho.add (by split <;> simp_all [Call.plans])
  | upsertSettlementBatch =>
    split at hStep <;> cases hStep
    exact ho.add rfl
  | process =>
    split at hStep <;> cases hStep
    exact ho.add plans_nextItem
  | find =>
    split at hStep
    · split at hStep <;> cases hStep
      · next hk => exact ho.setCall (ready_of_check hk)
      · exact ho.setCall nofun
    · cases hStep
  | write index now =>
    obtain ⟨call, hc, input, hi, ⟨table, isDuplicate⟩, ht, rfl⟩ := hStep
    obtain ⟨-, row, hr, hs, ha, -⟩ := Table.upsert_spec ht
    refine ⟨fun waiting hm => ?_⟩
    obtain ⟨other, hw⟩ := mem_iff_getElem?.mp hm
    by_cases hne : other = index
    · subst hne
      cases (getElem?_set_self (List.getElem?_eq_some_iff.mp hc).1).symm.trans hw
      intro plan hp row' hr'
      rcases plans_afterWrite hi hp with rfl | ⟨hw, he⟩
      · cases hr.symm.trans hr'
        exact .inr ⟨hs.symm, fun _ => ha⟩
      · cases hr.symm.trans (he ▸ hr')
        exact permits_unchecked (.inl (hs.trans hw))
    · exact ready_others ho hu hc hi ht hne (by simpa [World.setCall, Ne.symm hne] using hw)
  | fails =>
    obtain ⟨call, hc, rfl⟩ := hStep
    exact ho.setCall fun plan hp =>
      ho.ready call (mem_of_getElem? hc) plan (plans_afterFailure _ hp)
  | executed index error =>
    split at hStep
    · next item _ _ hc =>
      cases hStep
      refine ho.setCall fun plan hp => ho.ready _ (mem_of_getElem? hc) plan ?_
      cases error <;> cases mem_singleton.mp hp <;> simp [Call.plans]
    · cases hStep

theorem KeepsSettled.trans {first second third : World} (h : KeepsSettled first second)
    (h' : KeepsSettled second third) : KeepsSettled first third := by
  intro hash row hr hs
  obtain ⟨row', hr', hs', ha, hb⟩ := h hash row hr hs
  obtain ⟨row'', hr'', hs'', ha', hb'⟩ := h' hash row' hr' hs'
  exact ⟨row'', hr'', hs'', ha'.trans ha, hb'.trans hb⟩

/-- In an undisturbed run on any table, a settled row never changes its status, amount or bond, and
every change of a status is allowed. -/
theorem settled_final {table : Table} {before after : List Action} {mid : World}
    (hUndisturbed : Along (step numeric) Undisturbed (before ++ after) ⟨table, []⟩)
    (hBefore : run (step numeric) before ⟨table, []⟩ = some mid)
    (hAfter : run (step numeric) after mid = some w) :
    KeepsSettled mid w ∧ ∀ action next, Undisturbed action w → step numeric action w = some next →
        ChangesAllowed w next := by
  have hp : ∀ action (v v' : World), Ok numeric v → Undisturbed action v →
      step numeric action v = some v' → Ok numeric v' := fun _ _ _ ho hu hStep => ho.step hu hStep
  have hm : Ok numeric mid :=
    run_invariant (Ok numeric) hp (⟨by simp⟩) hUndisturbed.append_left hBefore
  have ha := hUndisturbed.append_right hBefore
  have hw : Ok numeric w := run_invariant (Ok numeric) hp hm ha hAfter
  refine ⟨?_, fun action next hn hStep => step_changesAllowed hw hn hStep⟩
  exact run_relates (Ok numeric) KeepsSettled hp (fun _ _ row hr hs => ⟨row, hr, hs, rfl, rfl⟩)
    (fun _ _ _ => .trans) (fun _ _ _ ho hu hStep => step_keepsSettled ho hu hStep) hm ha hAfter

end

def amountUnits (text : String) : Option ℤ :=
  (Pg.numericIn text.toList).bind (Pg.storeNumeric 36 18)

def emptyTable : Table := ⟨fun _ => none, 1⟩

def payout : PayoutItem := ⟨"1", "100", "0xabc", none⟩

def paysOut : List Action := [.process none [payout], .write 0 10, .executed 0 none, .write 0 11]

def World.observe (w : World) : Option (SettlementStatus × ℤ) :=
  (w.table.findByTransactionHash "0xabc").map fun row => (row.status, row.amount)

theorem settled_final_paysOut : ∃ mid w,
    run (step amountUnits) paysOut ⟨emptyTable, []⟩ = some mid ∧ run (step amountUnits)
        [.upsertSettlementStatus (payout.input .failed) false, .find 1] mid = some w ∧
      KeepsSettled mid w ∧
      ∀ action next, Undisturbed action w → step amountUnits action w = some next →
        ChangesAllowed w next := by
  have hs : (run (step amountUnits)
      (paysOut ++ [.upsertSettlementStatus (payout.input .failed) false, .find 1])
      ⟨emptyTable, []⟩).isSome = true := by
    decide +kernel
  obtain ⟨w, hr⟩ := isSome_iff_exists.mp hs
  obtain ⟨mid, hb, ha⟩ := run_append.mp hr
  exact ⟨mid, w, hb, ha, settled_final (by decide +kernel) hb ha⟩

/-- A settled row goes back to pending, with another amount, by an input without a status, and to
failed by a batch; the processor takes it back to pending before it finds the duplicate; and of two
checked calls, the second fails what the first has settled. -/
theorem settled_row_changes : (run (step amountUnits) paysOut ⟨emptyTable, []⟩).map World.observe =
        some (some (.settled, 100000000000000000000)) ∧
    (run (step amountUnits)
        (paysOut ++ [.upsertSettlementStatus ⟨"1", "5", "0xabc", none, none⟩ false, .write 1 12])
        ⟨emptyTable, []⟩).map World.observe = some (some (.pending, 5000000000000000000)) ∧
    (run (step amountUnits)
        (paysOut ++ [.upsertSettlementBatch [payout.input .failed], .write 1 12])
        ⟨emptyTable, []⟩).map World.observe = some (some (.failed, 100000000000000000000)) ∧
    (run (step amountUnits) (paysOut ++ [.process none [payout], .write 1 12])
        ⟨emptyTable, []⟩).map World.observe = some (some (.pending, 100000000000000000000)) ∧
    (run (step amountUnits)
        [.upsertSettlementStatus (payout.input .pending) false, .find 0, .write 0 10,
          .upsertSettlementStatus (payout.input .settled) false,
          .upsertSettlementStatus (payout.input .failed) false, .find 1, .find 2, .write 1 11,
          .write 2 12]
        ⟨emptyTable, []⟩).map World.observe = some (some (.failed, 100000000000000000000)) := by
  decide +kernel

end Credence.Settlements
