import Credence.Settlements.Payouts

/-! Retries of a batch: `process(getRetryableItems(items, result))` again and again, with every
pattern of failures. An item whose execution failed has a row, and the retry takes it for a
duplicate. -/

namespace Credence.Settlements

open Js List

/-- What fails while one item is processed: its first upsert, the execution, its second upsert. -/
structure Faults where
  record : Option Fault
  execute : Option String
  mark : Option Fault

def Faults.lost (faults : Faults) : Bool := faults.record.any fun fault => !fault.tookEffect

/-- The result for an item; `executed` tells whether the executor returned, if it was invoked. -/
structure Outcome where
  result : PayoutItemResult
  executed : Option Bool
  deriving DecidableEq

def Store.attempt (input : CreateSettlementInput) (store : Store) :
    Option Fault → Store × Except String Bool
  | none => ((store.upsert input).1, .ok (store.upsert input).2)
  | some fault => (store.upsertThrows fault input, .error fault.message)

def processItem (faults : Faults) (item : PayoutItem) (store : Store) : Store × Outcome :=
  match store.attempt (item.input .pending) faults.record with
  | (store, .error message) => (store, ⟨Call.result item .failed (some message) true, none⟩)
  | (store, .ok true) => (store, ⟨Call.result item .pending none false, none⟩)
  | (store, .ok false) =>
    match faults.execute with
    | some message =>
      ((store.attempt (item.input .failed) faults.mark).1,
        ⟨Call.result item .failed (some message) true, some false⟩)
    | none =>
      match store.attempt (item.input .settled) faults.mark with
      | (store, .error message) =>
        (store, ⟨Call.result item .failed
          (some ("Payout executed but status update failed: " ++ message)) true, some true⟩)
      | (store, .ok _) => (store, ⟨Call.result item .settled none false, some true⟩)

def processItems (faults : String → Faults) : List PayoutItem → Store → Store × List Outcome
  | [], store => (store, [])
  | item :: items, store =>
    let (store, outcome) := processItem (faults item.transactionHash) item store
    let (store, outcomes) := processItems faults items store
    (store, outcome :: outcomes)

def process (configured : Option Number) (faults : String → Faults) (items : List PayoutItem)
    (store : Store) : Except String (Store × List Outcome) := do
  validatePayload configured items
  pure (processItems faults items store)

def getRetryableItems (original : List PayoutItem) (results : List PayoutItemResult) :
    List PayoutItem :=
  let retryHashes := (results.filter PayoutItemResult.retryEligible).map
    PayoutItemResult.transactionHash
  original.filter fun item => item.transactionHash ∈ retryHashes

structure Round where
  items : List PayoutItem
  faults : String → Faults
  before : Store
  outcomes : List Outcome

def executedIn (hash : String) (outcomes : List Outcome) : Option Bool :=
  (outcomes.find? fun outcome => outcome.result.transactionHash == hash).bind Outcome.executed

def Round.executed (round : Round) (hash : String) : Option Bool := executedIn hash round.outcomes

def Round.retryEligible (round : Round) (hash : String) : Prop :=
  ∃ outcome ∈ round.outcomes,
    outcome.result.transactionHash = hash ∧ outcome.result.retryEligible = true

/-- The first call and its retries, until one is refused or the patterns of failures end. -/
def retries (configured : Option Number) :
    List (String → Faults) → List PayoutItem → Store → List Round
  | [], _, _ => []
  | faults :: rest, items, store =>
    match process configured faults items store with
    | .error _ => []
    | .ok (after, outcomes) =>
      ⟨items, faults, store, outcomes⟩ ::
        retries configured rest (getRetryableItems items (outcomes.map Outcome.result)) after

variable {hash : String}

section

variable {faults : Faults} {item : PayoutItem} {store : Store}

theorem Store.attempt_of_ne (input : CreateSettlementInput)
    (hh : hash ≠ input.transactionHash) (fault : Option Fault) :
    (store.attempt input fault).1 hash = store hash := by
  have hu : (store.upsert input).1 hash = store hash := Function.update_of_ne hh ..
  cases fault with
  | none => exact hu
  | some =>
    rw [Store.attempt, Store.upsertThrows]
    split
    · exact hu
    · rfl

theorem Store.attempt_keeps (hr : (store hash).isSome = true)
    (input : CreateSettlementInput) (fault : Option Fault) :
    ((store.attempt input fault).1 hash).isSome = true := by
  cases fault with
  | none => exact Store.upsert_keeps hr input
  | some fault => exact Store.upsertThrows_keeps hr fault input

theorem processItem_hash : (processItem faults item store).2.result.transactionHash =
    item.transactionHash := by
  rw [processItem]
  split
  · rfl
  · rfl
  · split
    · rfl
    · split <;> rfl

inductive ItemEffect (faults : Faults) (item : PayoutItem) (store : Store) : Prop where
  | threw (fault : Fault) (hRecord : faults.record = some fault)
      (hStore : (processItem faults item store).1 = store.upsertThrows fault (item.input .pending))
      (hExecuted : (processItem faults item store).2.executed = none)
      (hEligible : (processItem faults item store).2.result.retryEligible = true)
  | skipped (hRecord : faults.record = none) (hRow : (store item.transactionHash).isSome = true)
      (hStore : (processItem faults item store).1 = (store.upsert (item.input .pending)).1)
      (hExecuted : (processItem faults item store).2.executed = none)
  | executed (status : SettlementStatus) (hRecord : faults.record = none)
      (hRow : (store item.transactionHash).isSome = false)
      (hStore : (processItem faults item store).1 =
        ((store.upsert (item.input .pending)).1.attempt (item.input status) faults.mark).1)
      (hExecuted : (processItem faults item store).2.executed = some faults.execute.isNone)

theorem processItem_effect (faults : Faults) (item : PayoutItem) (store : Store) :
    ItemEffect faults item store := by
  cases hr : faults.record with
  | some fault =>
    refine .threw fault hr ?_ ?_ ?_ <;>
      simp only [processItem, Store.attempt, hr, Call.result]
  | none =>
    have hf : (store.upsert (item.input .pending)).2 = (store item.transactionHash).isSome := rfl
    cases ha : (store item.transactionHash).isSome with
    | true =>
      rw [ha] at hf
      refine .skipped hr ha ?_ ?_ <;>
        simp only [processItem, Store.attempt, hr, hf]
    | false =>
      rw [ha] at hf
      cases he : faults.execute with
      | some =>
        refine .executed .failed hr ha ?_ ?_ <;>
          simp only [processItem, Store.attempt, hr, hf, he, Option.isNone_some]
      | none =>
        refine .executed .settled hr ha ?_ ?_ <;> cases hm : faults.mark <;>
          simp only [processItem, Store.attempt, hr, hf, he, hm, Option.isNone_none]

theorem processItem_of_ne (hh : hash ≠ item.transactionHash) :
    (processItem faults item store).1 hash = store hash := by
  have hu : (store.upsert (item.input .pending)).1 hash = store hash := Function.update_of_ne hh ..
  cases processItem_effect faults item store with
  | threw fault hr hs =>
    rw [hs]
    exact Store.attempt_of_ne (item.input .pending) hh (some fault)
  | skipped hr ha hs => rw [hs, hu]
  | executed status hr ha hs =>
    rw [hs, Store.attempt_of_ne _ hh, hu]

theorem processItem_row : (processItem faults item store).1 item.transactionHash = none ↔
    store item.transactionHash = none ∧ faults.lost = true := by
  have hu : ((store.upsert (item.input .pending)).1 item.transactionHash).isSome = true :=
    Store.upsert_row store (item.input .pending)
  cases processItem_effect faults item store with
  | threw fault hr hs =>
    rw [hs, Store.upsertThrows, Faults.lost, hr]
    cases ht : fault.tookEffect with
    | true =>
      have hn := Option.isSome_iff_ne_none.mp hu
      simpa [ht] using hn
    | false => simp [ht]
  | skipped hr ha hs =>
    have hn := Option.isSome_iff_ne_none.mp hu
    rw [hs]
    simpa [Faults.lost, hr] using hn
  | executed status hr ha hs =>
    have hn := Option.isSome_iff_ne_none.mp
      (Store.attempt_keeps hu (item.input status) faults.mark)
    rw [hs]
    simpa [Faults.lost, hr] using hn

theorem processItem_executed (hr : faults.record = none) :
    ((processItem faults item store).2.executed).isSome = true ↔
      store item.transactionHash = none := by
  cases processItem_effect faults item store with
  | threw fault hf => simp [hr] at hf
  | skipped _ ha _ he => simp [he, Option.isSome_iff_ne_none.mp ha]
  | executed => simp_all

end

theorem validateItems_nodup {seen : List String} {items : List (PayoutItem × Nat)}
    (h : validateItems seen items = .ok ()) :
    (items.map fun entry => entry.1.transactionHash).Nodup ∧
      ∀ entry ∈ items, entry.1.transactionHash ∉ seen := by
  induction items generalizing seen with
  | nil => exact ⟨nodup_nil, by simp⟩
  | cons entry items ih =>
    obtain ⟨item, i⟩ := entry
    simp only [validateItems, bind, Except.bind] at h
    split at h
    · cases h
    · split at h
      · cases h
      · next hs =>
        obtain ⟨ha, hn⟩ := ih h
        refine ⟨nodup_cons.mpr ⟨fun hm => ?_, ha⟩, ?_⟩
        · obtain ⟨other, ho, he⟩ := mem_map.mp hm
          exact hn other ho (he ▸ mem_cons_self)
        · intro other hm
          rcases mem_cons.mp hm with rfl | ho
          · exact hs
          · exact fun hi => hn other ho (mem_cons_of_mem _ hi)

theorem validatePayload_nodup {configured : Option Number} {items : List PayoutItem}
    (h : validatePayload configured items = .ok ()) :
    (items.map PayoutItem.transactionHash).Nodup := by
  rw [validatePayload] at h
  split at h
  · cases h
  · have hn := (validateItems_nodup h).1
    have hm : items.zipIdx.map (fun entry => entry.1.transactionHash) =
        (items.zipIdx.map Prod.fst).map PayoutItem.transactionHash := by
      rw [map_map]
      rfl
    rwa [hm, zipIdx_map_fst] at hn

section

variable {faults : String → Faults} {items : List PayoutItem} {store : Store} {item : PayoutItem}

theorem processItems_of_notMem (hh : ∀ item ∈ items, hash ≠ item.transactionHash) :
    (processItems faults items store).1 hash = store hash := by
  induction items generalizing store with
  | nil => rfl
  | cons first items ih =>
    rw [processItems]
    exact (ih fun item hm => hh item (mem_cons_of_mem _ hm)).trans
      (processItem_of_ne (hh first mem_cons_self))

theorem processItems_alone (hn : (items.map PayoutItem.transactionHash).Nodup)
    (hItem : item ∈ items) :
    ((processItems faults items store).1 item.transactionHash = none ↔
      store item.transactionHash = none ∧ (faults item.transactionHash).lost = true) ∧
    ((faults item.transactionHash).record = none →
      ((executedIn item.transactionHash (processItems faults items store).2).isSome = true ↔
        store item.transactionHash = none)) := by
  induction items generalizing store with
  | nil => cases hItem
  | cons first items ih =>
    rw [map_cons, nodup_cons] at hn
    rw [processItems]
    rcases mem_cons.mp hItem with rfl | ha
    · have ho : ∀ other ∈ items, item.transactionHash ≠ other.transactionHash :=
        fun other hm he => hn.1 (he ▸ mem_map_of_mem hm)
      refine ⟨?_, fun hr => ?_⟩
      · exact (processItems_of_notMem ho) ▸ processItem_row
      · rw [executedIn, find?_cons_of_pos (by simp [processItem_hash]), Option.bind_some]
        exact processItem_executed hr
    · have hNe : item.transactionHash ≠ first.transactionHash :=
        fun he => hn.1 (he ▸ mem_map_of_mem ha)
      have hs : (processItem (faults first.transactionHash) first store).1
          item.transactionHash = store item.transactionHash := processItem_of_ne hNe
      obtain ⟨hb, hex⟩ := @ih (processItem (faults first.transactionHash) first store).1 hn.2 ha
      rw [hs] at hb hex
      refine ⟨hb, fun hr => ?_⟩
      rw [executedIn, find?_cons_of_neg (by simp [processItem_hash, hNe.symm])]
      exact hex hr

theorem processItems_eligible (hItem : item ∈ items)
    (hr : (faults item.transactionHash).record ≠ none) :
    ∃ outcome ∈ (processItems faults items store).2,
      outcome.result.transactionHash = item.transactionHash ∧
        outcome.result.retryEligible = true := by
  induction items generalizing store with
  | nil => cases hItem
  | cons first items ih =>
    rw [processItems]
    rcases mem_cons.mp hItem with rfl | ha
    · refine ⟨_, mem_cons_self, processItem_hash, ?_⟩
      cases processItem_effect (faults item.transactionHash) item store with
      | threw fault _ _ _ he => exact he
      | skipped hn => exact absurd hn hr
      | executed status hn => exact absurd hn hr
    · obtain ⟨outcome, hm, ho⟩ :=
        @ih (processItem (faults first.transactionHash) first store).1 ha
      exact ⟨outcome, mem_cons_of_mem _ hm, ho⟩

theorem process_ok {configured : Option Number} {after : Store} {outcomes : List Outcome}
    (h : process configured faults items store = .ok (after, outcomes)) :
    (items.map PayoutItem.transactionHash).Nodup ∧
      (after, outcomes) = processItems faults items store := by
  simp only [process, bind, Except.bind] at h
  split at h
  · cases h
  · next hv => exact ⟨validatePayload_nodup hv, (Except.ok.inj h).symm⟩

end

/-! ### The retries of an item -/

section

variable {configured : Option Number} {faults : List (String → Faults)} {items : List PayoutItem}
  {store : Store} {item : PayoutItem} {earlier later : List Round} {round : Round}

theorem retries_cons {first : Round} {rest : List Round}
    (h : retries configured faults items store = first :: rest) :
    ∃ more, first.items = items ∧ first.before = store ∧
      (items.map PayoutItem.transactionHash).Nodup ∧
      first.outcomes = (processItems first.faults items store).2 ∧
      retries configured more (getRetryableItems items (first.outcomes.map Outcome.result))
        (processItems first.faults items store).1 = rest := by
  cases faults with
  | nil => cases h
  | cons pattern more =>
    rw [retries] at h
    split at h
    · cases h
    · next after outcomes hp =>
      obtain ⟨hn, ha⟩ := process_ok hp
      obtain ⟨rfl, rfl⟩ := cons_eq_cons.mp h
      obtain ⟨rfl, rfl⟩ := Prod.mk.inj ha
      exact ⟨more, rfl, rfl, hn, rfl, rfl⟩

theorem retries_from (h : retries configured faults items store = earlier ++ round :: later) :
    ∃ more, retries configured more round.items round.before = round :: later := by
  induction earlier generalizing faults items store with
  | nil =>
    obtain ⟨-, rfl, rfl, -⟩ := retries_cons h
    exact ⟨faults, h⟩
  | cons past earlier ih =>
    obtain ⟨more, -, -, -, -, hr⟩ := retries_cons h
    exact ih hr

section

variable (h : retries configured faults items store = earlier ++ round :: later)
  (hItem : item ∈ round.items)
include h hItem

theorem mem_of_retries : item ∈ items := by
  induction earlier generalizing faults items store with
  | nil =>
    obtain ⟨-, hi, -⟩ := retries_cons h
    exact hi ▸ hItem
  | cons past earlier ih =>
    obtain ⟨more, -, -, -, -, hr⟩ := retries_cons h
    exact mem_of_mem_filter (ih hr)

/-- A retried item has no row exactly when it had none at first and each of its upserts was lost. -/
theorem before_eq_none_iff : round.before item.transactionHash = none ↔
      store item.transactionHash = none ∧
        ∀ past ∈ earlier, (past.faults item.transactionHash).lost = true := by
  induction earlier generalizing faults items store with
  | nil =>
    obtain ⟨-, -, hb, -⟩ := retries_cons h
    simp [hb]
  | cons past earlier ih =>
    obtain ⟨more, -, -, hn, -, hr⟩ := retries_cons h
    have hm := mem_of_mem_filter (mem_of_retries hr hItem)
    rw [ih hr, (processItems_alone hn hm).1, forall_mem_cons, and_assoc]

theorem round_executed_iff (hr : (round.faults item.transactionHash).record = none) :
    (round.executed item.transactionHash).isSome = true ↔
      round.before item.transactionHash = none := by
  obtain ⟨_, hf⟩ := retries_from h
  obtain ⟨-, -, -, hn, ho, -⟩ := retries_cons hf
  rw [Round.executed, ho]
  exact (processItems_alone hn hItem).2 hr

end

theorem mem_getRetryableItems (hItem : item ∈ round.items)
    (he : round.retryEligible item.transactionHash) :
    item ∈ getRetryableItems round.items (round.outcomes.map Outcome.result) := by
  obtain ⟨outcome, hm, hh, hr⟩ := he
  rw [getRetryableItems, mem_filter, decide_eq_true_iff]
  refine ⟨hItem, hh ▸ mem_map_of_mem (mem_filter.mpr ⟨?_, hr⟩)⟩
  exact mem_map_of_mem hm

theorem mem_next {next : Round}
    (h : retries configured faults items store = earlier ++ round :: next :: later)
    (hItem : item ∈ round.items) (he : round.retryEligible item.transactionHash) :
    item ∈ next.items := by
  obtain ⟨_, hf⟩ := retries_from h
  obtain ⟨more, -, -, -, -, hr⟩ := retries_cons hf
  obtain ⟨-, hi, -⟩ := retries_cons hr
  exact hi ▸ mem_getRetryableItems hItem he

theorem eligible_of_throws (h : retries configured faults items store = earlier ++ round :: later)
    (hItem : item ∈ round.items) (hr : (round.faults item.transactionHash).record ≠ none) :
    round.retryEligible item.transactionHash := by
  obtain ⟨_, hf⟩ := retries_from h
  obtain ⟨-, -, -, -, ho, -⟩ := retries_cons hf
  rw [Round.retryEligible, ho]
  exact processItems_eligible hItem hr

theorem mem_later {between : List Round} {last : Round}
    (h : retries configured faults items store = earlier ++ last :: (between ++ round :: later))
    (hItem : item ∈ last.items) (he : last.retryEligible item.transactionHash)
    (ht : ∀ past ∈ between, (past.faults item.transactionHash).record ≠ none) :
    item ∈ round.items := by
  induction between generalizing earlier last with
  | nil => exact mem_next h hItem he
  | cons next between ih =>
    have hn := mem_next h hItem he
    have hs : retries configured faults items store =
        (earlier ++ [last]) ++ next :: (between ++ round :: later) := by
      simpa using h
    exact ih hs hn (eligible_of_throws hs hn (ht next mem_cons_self))
      fun past hm => ht past (mem_cons_of_mem _ hm)

end

/-! ### Whether a failed payout is executed again -/

/-- After `last` the item is eligible for a retry and not paid out; `round` is the next retry in
which its first upsert does not throw. -/
structure AwaitsRetry (rounds earlier : List Round) (last : Round) (between : List Round)
    (round : Round) (item : PayoutItem) : Prop where
  split : ∃ later, rounds = earlier ++ last :: (between ++ round :: later)
  processed : item ∈ last.items
  eligible : last.retryEligible item.transactionHash
  unpaid : ∀ past ∈ earlier ++ [last], past.executed item.transactionHash ≠ some true
  throws : ∀ past ∈ between, (past.faults item.transactionHash).record ≠ none
  records : (round.faults item.transactionHash).record = none

/-- The next retry executes every item that awaits it exactly when each such item had no row before
the first call and all its attempts ended in a first upsert that threw without taking effect. -/
theorem retries_execute_iff (configured : Option Number) (faults : List (String → Faults))
    (items : List PayoutItem) (store : Store) :
    (∀ earlier last between round item,
      AwaitsRetry (retries configured faults items store) earlier last between round item →
        (round.executed item.transactionHash).isSome = true) ↔
    (∀ earlier last between round item,
      AwaitsRetry (retries configured faults items store) earlier last between round item →
        store item.transactionHash = none ∧ ∀ past ∈ earlier ++ last :: between,
            (past.faults item.transactionHash).lost = true) := by
  refine forall₅_congr fun earlier last between round item => forall_congr' fun ha => ?_
  obtain ⟨later, hs⟩ := ha.split
  have hItem := mem_later hs ha.processed ha.eligible ha.throws
  have hr : retries configured faults items store =
      (earlier ++ last :: between) ++ round :: later := by
    simpa using hs
  rw [round_executed_iff hr hItem ha.records, before_eq_none_iff hr hItem]

/-- The executor fails once. The retry takes the payout for a duplicate, and the next one has
nothing left to retry. -/
theorem failed_payout_not_retried :
    (retries none [fun _ => ⟨none, some "insufficient funds", none⟩, fun _ => ⟨none, none, none⟩,
        fun _ => ⟨none, none, none⟩] [payout] (fun _ => none)).map Round.outcomes =
      [[⟨⟨"1", "0xabc", .failed, some "insufficient funds", true⟩, some false⟩],
        [⟨⟨"1", "0xabc", .pending, none, false⟩, none⟩], []] := by
  decide +kernel

end Credence.Settlements
