import Credence.Settlements.Finality
import Mathlib.Data.List.Nodup

/-! Payouts by any number of `BatchPayoutProcessor.process` calls, against a `PayoutSettlementStore`
of which only the duplicate flag of `upsert` is known. An upsert may throw before or after it has
taken effect. -/

namespace Credence.Settlements

open Js ProofKit List Option

/-- The status of the row of each transaction hash. -/
abbrev Store := String → Option SettlementStatus

def Store.upsert (input : CreateSettlementInput) (store : Store) : Store × Bool :=
  (Function.update store input.transactionHash (some input.writes),
    (store input.transactionHash).isSome)

/-- How an upsert throws. -/
structure Fault where
  message : String
  tookEffect : Bool

def Store.upsertThrows (fault : Fault) (input : CreateSettlementInput) (store : Store) : Store :=
  if fault.tookEffect then (store.upsert input).1 else store

theorem Store.upsert_row (store : Store) (input : CreateSettlementInput) :
    ((store.upsert input).1 input.transactionHash).isSome = true := by
  simp [Store.upsert]

variable {store : Store} {hash : String} {numeric : String → Option ℤ} {table : Table} {w : World}

theorem Store.upsert_keeps (h : (store hash).isSome = true) (input : CreateSettlementInput) :
    ((store.upsert input).1 hash).isSome = true := by
  by_cases hh : hash = input.transactionHash
  · exact hh ▸ store.upsert_row input
  · simpa only [Store.upsert, Function.update_of_ne hh] using h

theorem Store.upsertThrows_keeps (h : (store hash).isSome = true) (fault : Fault)
    (input : CreateSettlementInput) : ((store.upsertThrows fault input) hash).isSome = true := by
  rw [Store.upsertThrows]
  split
  · exact Store.upsert_keeps h input
  · exact h

def Table.statuses (table : Table) : Store :=
  fun hash => (table.findByTransactionHash hash).map Settlement.status

theorem Table.upsert_statuses {now : Int} {input : CreateSettlementInput} {table' : Table}
    {isDuplicate : Bool} (h : table.upsert numeric now input = some (table', isDuplicate)) :
    table.statuses.upsert input = (table'.statuses, isDuplicate) := by
  have hs : ∀ (row : Settlement) (nextId : Nat), row.status = input.writes →
      Table.statuses ⟨Function.update table.findByTransactionHash input.transactionHash (some row),
        nextId⟩ = (table.statuses.upsert input).1 := by
    intro row nextId hr
    funext hash
    by_cases hh : hash = input.transactionHash
    · subst hh
      simp [Table.statuses, Store.upsert, hr]
    · simp [Table.statuses, Store.upsert, Function.update_of_ne hh]
  obtain ⟨amount, -, hp⟩ := map_eq_some_iff.mp h
  cases he : table.findByTransactionHash input.transactionHash with
  | none | some existing =>
    simp only [he, Prod.mk.injEq] at hp
    obtain ⟨rfl, rfl⟩ := hp
    rw [hs _ _ rfl]
    simp [Table.statuses, Store.upsert, he]

def Call.executes : Call → List String
  | paying .executing item _ _ => [item.transactionHash]
  | _ => []

structure PayoutWorld where
  store : Store
  calls : List Call
  executions : List String
  returned : List String

inductive PayoutAction where
  | process (maxBatchSize : Option Number) (items : List PayoutItem)
  | upsert (index : Nat)
  | upsertThrows (index : Nat) (fault : Fault)
  | executed (index : Nat) (error : Option String)

/-- The call goes on, and invokes the executor if that is what it does next. -/
def PayoutWorld.setCall (w : PayoutWorld) (index : Nat) (call : Call) : PayoutWorld :=
  { w with calls := w.calls.set index call, executions := call.executes ++ w.executions }

def payoutStep : PayoutAction → PayoutWorld → Option PayoutWorld
  | .process maxBatchSize items, w =>
    match validatePayload maxBatchSize items with
    | .ok _ => some { w with calls := w.calls ++ [.nextItem [] items] }
    | .error _ => none
  | .upsert index, w =>
    w.calls[index]?.bind fun call =>
      call.nextWrite.map fun input =>
        let (store, isDuplicate) := w.store.upsert input
        PayoutWorld.setCall { w with store } index (call.afterWrite isDuplicate)
  | .upsertThrows index fault, w =>
    w.calls[index]?.bind fun call =>
      call.nextWrite.map fun input =>
        PayoutWorld.setCall { w with store := w.store.upsertThrows fault input } index
          (call.afterFailure fault.message)
  | .executed index error, w =>
    match w.calls[index]? with
    | some (.paying .executing item rest results) =>
      let returned := if error.isNone then item.transactionHash :: w.returned else w.returned
      some (PayoutWorld.setCall { w with returned } index
        (.paying (.marking error) item rest results))
    | _ => none

/-- A call of the processor that marks a payout as settled only when the executor has returned. -/
def Call.Backed (returned : List String) : Call → Prop
  | paying .markingSettled item _ _ => item.transactionHash ∈ returned
  | paying _ _ _ _ => True
  | paid _ => True
  | _ => False

namespace Call

section

variable {call : Call} {input : CreateSettlementInput} {returned : List String}

theorem nextItem_executes (results : List PayoutItemResult) (items : List PayoutItem) :
    (nextItem results items).executes = [] := by
  cases items <;> rfl

theorem nextItem_backed (results : List PayoutItemResult) (items : List PayoutItem) :
    (nextItem results items).Backed returned := by
  cases items <;> trivial

theorem afterWrite_executes (h : call.nextWrite = some input) (isDuplicate : Bool) :
    (call.afterWrite isDuplicate).executes = [] ∨ isDuplicate = false ∧
        (call.afterWrite isDuplicate).executes = [input.transactionHash] := by
  cases call with
  | paying stage =>
    cases stage with
    | recording =>
      cases h
      cases isDuplicate with
      | true => exact .inl (nextItem_executes _ _)
      | false => exact .inr ⟨rfl, rfl⟩
    | executing => cases h
    | markingFailed message | markingSettled => exact .inl (nextItem_executes _ _)
  | _ => exact .inl rfl

theorem afterFailure_executes (h : call.nextWrite = some input) (message : String) :
    (call.afterFailure message).executes = [] := by
  cases call with
  | paying stage =>
    cases stage with
    | executing => cases h
    | _ => exact nextItem_executes _ _
  | writing =>
    rw [afterFailure]
    split <;> rfl
  | _ => rfl

section

variable (h : call.Backed returned)
include h

theorem Backed.mono {returned' : List String} (hs : ∀ hash ∈ returned, hash ∈ returned') :
    call.Backed returned' := by
  cases call with
  | paying stage =>
    cases stage with
    | markingSettled => exact hs _ h
    | _ => trivial
  | _ => exact h

theorem Backed.afterWrite (isDuplicate : Bool) : (call.afterWrite isDuplicate).Backed returned := by
  cases call with
  | paying stage =>
    cases stage with
    | recording =>
      cases isDuplicate with
      | true => exact nextItem_backed _ _
      | false => trivial
    | executing => trivial
    | markingFailed => exact nextItem_backed _ _
    | markingSettled => exact nextItem_backed _ _
  | paid => trivial
  | _ => cases h

theorem Backed.afterFailure (message : String) : (call.afterFailure message).Backed returned := by
  cases call with
  | paying stage =>
    cases stage with
    | executing => trivial
    | _ => exact nextItem_backed _ _
  | paid => trivial
  | _ => cases h

theorem Backed.afterFailure_of_idle (hi : call.nextWrite = none) (message : String) :
    call.afterFailure message = call := by
  cases call with
  | paying stage =>
    cases stage with
    | executing => rfl
    | _ => cases hi
  | paid => rfl
  | _ => cases h

theorem Backed.of_settles (hw : call.nextWrite = some input)
    (hs : input.writes = .settled) : input.transactionHash ∈ returned := by
  cases call with
  | paying stage =>
    cases stage with
    | markingSettled =>
      cases hw
      exact h
    | executing => cases hw
    | recording | markingFailed message =>
      cases hw
      cases hs
  | paid => cases hw
  | _ => cases h

end

end

end Call

/-- No payout is executed twice or without a record. -/
structure PayoutWorld.Ok (w : PayoutWorld) : Prop where
  once : w.executions.Nodup
  recorded : ∀ hash ∈ w.executions, (w.store hash).isSome = true
  backed : ∀ call ∈ w.calls, call.Backed w.returned

namespace PayoutWorld.Ok

variable {w : PayoutWorld}

variable {store : Store} {call : Call}

theorem goesOn (h : w.Ok) {returned : List String}
    (hs : ∀ hash, (w.store hash).isSome = true → (store hash).isSome = true)
    (hr : ∀ hash ∈ w.returned, hash ∈ returned) (hc : call.Backed returned)
    (he : call.executes = []) (index : Nat) :
    (PayoutWorld.setCall { w with store, returned } index call).Ok := by
  refine ⟨?_, ?_, ?_⟩
  · simpa [PayoutWorld.setCall, he] using h.once
  · intro hash hm
    simp only [PayoutWorld.setCall, he, nil_append] at hm
    exact hs hash (h.recorded hash hm)
  · intro other hm
    rcases mem_or_eq_of_mem_set hm with ho | rfl
    · exact (h.backed other ho).mono hr
    · exact hc

theorem executes (h : w.Ok) {input : CreateSettlementInput}
    (hn : (w.store input.transactionHash).isSome = false) (hc : call.Backed w.returned)
    (he : call.executes = [input.transactionHash]) (index : Nat) :
    (PayoutWorld.setCall { w with store := (w.store.upsert input).1 } index call).Ok := by
  refine ⟨?_, ?_, ?_⟩
  · simp only [PayoutWorld.setCall, he, singleton_append, nodup_cons]
    refine ⟨fun hm => ?_, h.once⟩
    rw [h.recorded _ hm] at hn
    cases hn
  · intro hash hm
    simp only [PayoutWorld.setCall, he, singleton_append, mem_cons] at hm
    rcases hm with rfl | ho
    · exact Store.upsert_row w.store input
    · exact Store.upsert_keeps (h.recorded hash ho) input
  · intro other hm
    rcases mem_or_eq_of_mem_set hm with ho | rfl
    · exact h.backed other ho
    · exact hc

theorem step {action : PayoutAction} {w' : PayoutWorld} (h : w.Ok)
    (hs : payoutStep action w = some w') : w'.Ok := by
  cases action with simp only [payoutStep, bind_eq_some_iff, map_eq_some_iff] at hs
  | process =>
    split at hs <;> cases hs
    refine ⟨h.once, h.recorded, fun call hm => ?_⟩
    rcases mem_append.mp hm with ho | hn
    · exact h.backed call ho
    · rw [mem_singleton.mp hn]
      exact Call.nextItem_backed _ _
  | upsert index =>
    obtain ⟨call, hc, input, hi, rfl⟩ := hs
    have hb := (h.backed call (mem_of_getElem? hc)).afterWrite
      (w.store.upsert input).2
    rcases Call.afterWrite_executes hi (w.store.upsert input).2 with ha | ⟨hn, hd⟩
    · exact h.goesOn (fun _ hr => Store.upsert_keeps hr input) (fun _ => id) hb ha index
    · exact h.executes hn hb hd index
  | upsertThrows index fault =>
    obtain ⟨call, hc, input, hi, rfl⟩ := hs
    exact h.goesOn (fun _ hr => Store.upsertThrows_keeps hr fault input) (fun _ => id)
      ((h.backed call (mem_of_getElem? hc)).afterFailure fault.message)
      (Call.afterFailure_executes hi fault.message) index
  | executed index error =>
    split at hs
    · next item rest results hc =>
      obtain rfl := Option.some.inj hs
      cases error with
      | none =>
        exact h.goesOn (fun _ => id) (fun _ => mem_cons_of_mem _) mem_cons_self rfl index
      | some message =>
        have hb :
            Call.Backed w.returned (.paying (.markingFailed message) item rest results) := trivial
        exact h.goesOn (fun _ => id) (fun _ => id) hb rfl index
    · cases hs

theorem of_run {actions : List PayoutAction}
    (hr : run payoutStep actions ⟨store, [], [], []⟩ = some w) : w.Ok := by
  have hs : PayoutWorld.Ok ⟨store, [], [], []⟩ := by
    refine ⟨nodup_nil, ?_, ?_⟩ <;> intro _ hm <;> cases hm
  exact run_invariant PayoutWorld.Ok (fun _ _ _ h _ ht => h.step ht) hs
    (along_anyAction actions _) hr

end PayoutWorld.Ok

/-- Whatever the store, the calls, their order and their failures: no hash is executed twice, and an
upsert of `settled` is of a hash for which `execute` has returned. -/
theorem no_double_payout {store : Store} {actions : List PayoutAction} {w : PayoutWorld}
    (hRun : run payoutStep actions ⟨store, [], [], []⟩ = some w) :
    (∀ hash, w.executions.count hash ≤ 1) ∧
      ∀ call ∈ w.calls, ∀ input, call.nextWrite = some input → input.writes = .settled →
        input.transactionHash ∈ w.returned := by
  have ho := PayoutWorld.Ok.of_run hRun
  refine ⟨nodup_iff_count_le_one.mp ho.once, fun call hm input hw hs => ?_⟩
  exact (ho.backed call hm).of_settles hw hs

def overlappingPayouts : List PayoutAction :=
  [.process none [payout], .process none [payout], .upsert 1, .upsertThrows 0 ⟨"timeout", true⟩,
    .process none [payout], .upsert 2, .executed 1 none]

theorem no_double_payout_overlapping : ∃ w,
    run payoutStep overlappingPayouts ⟨fun _ => none, [], [], []⟩ = some w ∧
      w.executions = ["0xabc"] ∧
      (∀ hash, w.executions.count hash ≤ 1) ∧
      ∀ call ∈ w.calls, ∀ input, call.nextWrite = some input → input.writes = .settled →
        input.transactionHash ∈ w.returned := by
  have hr : run payoutStep overlappingPayouts ⟨fun _ => none, [], [], []⟩ = some _ := rfl
  exact ⟨_, hr, rfl, no_double_payout hr⟩

/-- The abstract store knows the status of each row. -/
structure Follows (p : PayoutWorld) (w : World) : Prop where
  calls : p.calls = w.calls
  store : p.store = w.table.statuses

def Action.isPayout : Action → Bool
  | .process _ _ => true
  | .write _ _ => true
  | .fails _ _ => true
  | .executed _ _ => true
  | _ => false

variable {p : PayoutWorld}

theorem Follows.setCall (h : Follows p w) (index : Nat) (call : Call) :
    Follows (p.setCall index call) (w.setCall index call) :=
  ⟨congrArg (set · index call) h.calls, h.store⟩

theorem Follows.step {w' : World} {action : Action} (h : Follows p w) (hOk : p.Ok)
    (hp : action.isPayout = true) (hs : step numeric action w = some w') :
    ∃ actions p', run payoutStep actions p = some p' ∧ Follows p' w' := by
  have ho : ∀ {a p'}, payoutStep a p = some p' → run payoutStep [a] p = some p' :=
    fun ht => run_cons.mpr ⟨_, ht, rfl⟩
  cases action with simp only [Settlements.step, bind_eq_some_iff,
    map_eq_some_iff] at hs
  | process maxBatchSize items =>
    split at hs <;> cases hs
    next hv =>
    refine ⟨[.process maxBatchSize items], { p with calls := p.calls ++ [.nextItem [] items] },
      ho ?_, congrArg (· ++ [Call.nextItem [] items]) h.calls, h.store⟩
    rw [payoutStep, hv]
  | write index =>
    obtain ⟨call, hc, input, hi, ⟨table, isDuplicate⟩, hu, rfl⟩ := hs
    have ha := Table.upsert_statuses hu
    rw [← h.store] at ha
    have ht : payoutStep (.upsert index) p = some (PayoutWorld.setCall
        { p with store := table.statuses } index (call.afterWrite isDuplicate)) := by
      simp only [payoutStep, h.calls, hc, bind_some, hi, map_some, ha]
    have hb : Follows { p with store := table.statuses } { w with table } := ⟨h.calls, rfl⟩
    exact ⟨[.upsert index], _, ho ht, hb.setCall index _⟩
  | fails index message =>
    obtain ⟨call, hc, rfl⟩ := hs
    rw [← h.calls] at hc
    cases hi : call.nextWrite with
    | some =>
      have ht : payoutStep (.upsertThrows index ⟨message, false⟩) p = some
          (PayoutWorld.setCall p index (call.afterFailure message)) := by
        simp only [payoutStep, hc, bind_some, hi, map_some]
        rfl
      exact ⟨[.upsertThrows index ⟨message, false⟩], _, ho ht, h.setCall index _⟩
    | none =>
      refine ⟨[], p, rfl, ?_, h.store⟩
      rw [(hOk.backed call (mem_of_getElem? hc)).afterFailure_of_idle hi message]
      obtain ⟨hn, rfl⟩ := List.getElem?_eq_some_iff.mp hc
      rw [World.setCall, ← h.calls, set_getElem_self]
  | executed index error =>
    split at hs
    · next item rest results hc =>
      obtain rfl := Option.some.inj hs
      have ht : ∃ returned, payoutStep (.executed index error) p = some (PayoutWorld.setCall
          { p with returned } index (.paying (.marking error) item rest results)) := by
        simp only [payoutStep, h.calls, hc]
        exact ⟨_, rfl⟩
      obtain ⟨returned, ht⟩ := ht
      have hd : Follows { p with returned } w := ⟨h.calls, h.store⟩
      exact ⟨[.executed index error], _, ho ht, hd.setCall index _⟩
    · cases hs
  | _ => cases hp

theorem follows_run {actions : List Action}
    (hp : Along (step numeric) (fun action _ => action.isPayout = true) actions ⟨table, []⟩)
    (hr : run (step numeric) actions ⟨table, []⟩ = some w) :
    ∃ actions p, run payoutStep actions ⟨table.statuses, [], [], []⟩ = some p ∧ Follows p w := by
  refine run_invariant (fun w => ∃ actions p, run payoutStep actions
    ⟨table.statuses, [], [], []⟩ = some p ∧ Follows p w) ?_ ⟨[], _, rfl, rfl, rfl⟩ hp hr
  -- One step of the table may be no step of the store, so the matching run is carried along.
  rintro action w w' ⟨actions, p, hb, hf⟩ hc hs
  obtain ⟨more, p', ha, hf'⟩ := hf.step (.of_run hb) hc hs
  exact ⟨actions ++ more, p', run_append.mpr ⟨p, hb, ha⟩, hf'⟩

theorem follows_run_paysOut : ∃ w actions p,
    run (step fun _ => some 5) paysOut ⟨emptyTable, []⟩ = some w ∧
      run payoutStep actions ⟨emptyTable.statuses, [], [], []⟩ = some p ∧ Follows p w := by
  have hr : run (step fun _ => some 5) paysOut ⟨emptyTable, []⟩ = some _ := rfl
  obtain ⟨actions, p, ha, hf⟩ := follows_run (by decide) hr
  exact ⟨_, actions, p, hr, ha, hf⟩

end Credence.Settlements
