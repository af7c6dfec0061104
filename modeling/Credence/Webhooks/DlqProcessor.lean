import Credence.Js.Date
import Credence.Js.Number
import Credence.ProofKit.Runs
import Mathlib.Data.List.Perm.Basic

/-! `WebhookDlqProcessor`: a run hands each eligible entry of the dead-letter queue to the delivery.
One run is under way at a time; other callers push and mark entries. -/

namespace Credence.Webhooks.Dlq

open Js

/-- `none` stands for a value that is not of the type. -/
structure Payload where
  event : Option String
  timestamp : Option String
  hasData : Bool
  deriving DecidableEq

structure DlqEntry where
  id : String
  webhookId : Option String
  payload : Option Payload
  failedAt : Option String
  attempts : Option Number
  replayedAt : Option String
  deriving DecidableEq

structure Options where
  batchSize : Option Number
  minAgeMs : Option Number
  maxReplayAttempts : Option Number
  dryRun : Option Bool

structure Processor where
  batchSize : ℚ
  minAgeMs : ℚ
  maxReplayAttempts : ℚ
  dryRun : Bool

def nonNegativeOrDefault (value : Option Number) (fallback : ℚ) : ℚ :=
  match value with
  | some (.finite q) => if 0 ≤ q then q else fallback
  | _ => fallback

def positiveOrDefault (value : Option Number) (fallback : ℚ) : ℚ :=
  let resolved := nonNegativeOrDefault value fallback
  if 1 ≤ resolved then resolved else fallback

def Processor.ofOptions (options : Options) : Processor where
  batchSize := positiveOrDefault options.batchSize 100
  minAgeMs := nonNegativeOrDefault options.minAgeMs 60000
  maxReplayAttempts := nonNegativeOrDefault options.maxReplayAttempts 5
  dryRun := options.dryRun.getD false

inductive InvalidReason where
  | missingId
  | missingWebhookId
  | unparseableFailedAt
  | nonNumericAttempts
  | missingPayload
  | payloadMissingEvent
  | payloadUnparseableTimestamp
  | payloadMissingData

inductive DlqSkipReason where
  | alreadyReplayed
  | tooRecent
  | attemptsExhausted
  | inactiveWebhook
  | dryRun

inductive Classification where
  | eligible (payload : Payload)
  | skipped (reason : DlqSkipReason)
  | invalid (reason : InvalidReason)

/-- `Date.parse`; `none` is `NaN`. -/
abbrev ParseDate := String → Option Int

def isText (text : Option String) : Bool := text.any (· ≠ "")

def validateDlqEntry (parseDate : ParseDate) (entry : DlqEntry) : Except InvalidReason Payload :=
  if entry.id = "" then .error .missingId
  else if !isText entry.webhookId then .error .missingWebhookId
  else if (entry.failedAt.bind parseDate).isNone then .error .unparseableFailedAt
  else if !entry.attempts.any Number.isFinite then .error .nonNumericAttempts
  else
    match entry.payload with
    | none => .error .missingPayload
    | some payload =>
      if !isText payload.event then .error .payloadMissingEvent
      else if (payload.timestamp.bind parseDate).isNone then .error .payloadUnparseableTimestamp
      else if !payload.hasData then .error .payloadMissingData
      else .ok payload

/-- The test `if (entry.replayedAt)`. -/
def DlqEntry.isReplayed (entry : DlqEntry) : Bool := isText entry.replayedAt

def Processor.classify (processor : Processor) (parseDate : ParseDate) (now : Int)
    (entry : DlqEntry) : Classification :=
  if entry.isReplayed then .skipped .alreadyReplayed
  else
    match validateDlqEntry parseDate entry with
    | .error reason => .invalid reason
    | .ok payload =>
      if !entry.attempts.any (Number.isAtMost processor.maxReplayAttempts) then
        .skipped .attemptsExhausted
      else if ((now - ((entry.failedAt.bind parseDate).getD 0) : Int) : ℚ) < processor.minAgeMs then
        .skipped .tooRecent
      else .eligible payload

inductive DlqEntryOutcome where
  | replayed
  | failed (error : String)
  | skipped (reason : DlqSkipReason)
  | orphaned
  | invalid (reason : InvalidReason)

structure Counts where
  scanned : Nat
  eligible : Nat
  replayed : Nat
  failed : Nat
  skipped : Nat
  orphaned : Nat
  invalid : Nat

def Counts.record (counts : Counts) : DlqEntryOutcome → Counts
  | .replayed => { counts with replayed := counts.replayed + 1 }
  | .failed _ => { counts with failed := counts.failed + 1 }
  | .skipped _ => { counts with skipped := counts.skipped + 1 }
  | .orphaned => { counts with orphaned := counts.orphaned + 1 }
  | .invalid _ => { counts with invalid := counts.invalid + 1 }

/-- A run that is under way: the entries that it has still to look at, and the one whose delivery it
waits for. -/
structure Cycle where
  entries : List DlqEntry
  inFlight : Option DlqEntry
  counts : Counts

/-- `handed` are the ids of the entries that runs have handed to the delivery, `unmarked` those that
have not been marked after it. -/
structure World where
  store : List DlqEntry
  cycle : Option Cycle
  handed : List String
  unmarked : List String
  results : List Counts

def World.inFlight (s : World) : Option DlqEntry := s.cycle.bind Cycle.inFlight

inductive Lookup where
  | failed (error : String)
  | missing
  | found (active : Bool)

inductive Delivery where
  | threw (error : String)
  | single (success : Bool)
  | chunks (successes : List Bool)

/-- What becomes of a statement; a `lost` one takes effect and its reply does not arrive. -/
inductive Mark where
  | ok
  | lost (error : String)
  | failed (error : String)

def Delivery.succeeded : Delivery → Bool
  | .threw _ => false
  | .single success => success
  | .chunks successes => !successes.isEmpty && successes.all id

def marks (delivery : Delivery) : Mark → Bool
  | .ok | .lost _ => delivery.succeeded
  | .failed _ => false

def attemptOutcome (delivery : Delivery) (mark : Mark) : DlqEntryOutcome :=
  match delivery with
  | .threw error => .failed error
  | _ =>
    if delivery.succeeded then
      match mark with
      | .ok => .replayed
      | .lost error | .failed error => .failed ("mark_replayed_failed: " ++ error)
    else .failed "delivery_unsuccessful"

def markReplayed (id : String) (replayedAt : String) (store : List DlqEntry) : List DlqEntry :=
  store.map fun entry =>
    if entry.id = id then { entry with replayedAt := some replayedAt } else entry

inductive Action where
  | start (listed : Option (List DlqEntry))
  | entry (now : Int) (lookup : Lookup)
  | settle (now : Int) (delivery : Delivery) (mark : Mark)
  | finish
  | crash
  | push (entry : DlqEntry)
  | markOther (id : String) (now : Int)

variable (processor : Processor) (parseDate : ParseDate)

/-- The lookup of the webhook and what follows without a delivery; `none` is the delivery. -/
def Processor.beforeDelivery (lookup : Lookup) : Option DlqEntryOutcome :=
  match lookup with
  | .failed error => some (.failed error)
  | .missing => some .orphaned
  | .found false => some (.skipped .inactiveWebhook)
  | .found true => if processor.dryRun then some (.skipped .dryRun) else none

def World.passOver (s : World) (rest : List DlqEntry) (counts : Counts) : World :=
  { s with cycle := some ⟨rest, none, counts⟩ }

/-- The next entry of a run, up to the delivery. -/
def World.entry (s : World) (entry : DlqEntry) (rest : List DlqEntry) (counts : Counts) (now : Int)
    (lookup : Lookup) : World :=
  match processor.classify parseDate now entry with
  | .skipped reason => s.passOver rest (counts.record (.skipped reason))
  | .invalid reason => s.passOver rest (counts.record (.invalid reason))
  | .eligible _ =>
    if processor.batchSize ≤ counts.eligible then
      s.passOver rest { counts with skipped := counts.skipped + 1 }
    else
      let counts := { counts with eligible := counts.eligible + 1 }
      match processor.beforeDelivery lookup with
      | some outcome => s.passOver rest (counts.record outcome)
      | none =>
        { s with cycle := some ⟨rest, some entry, counts⟩, handed := s.handed ++ [entry.id] }

def World.settle (s : World) (entry : DlqEntry) (rest : List DlqEntry) (counts : Counts) (now : Int)
    (delivery : Delivery) (mark : Mark) : World :=
  let s := s.passOver rest (counts.record (attemptOutcome delivery mark))
  if marks delivery mark then
    { s with store := markReplayed entry.id (toISOString now) s.store }
  else { s with unmarked := s.unmarked ++ [entry.id] }

/-- `start` is a call of `run` whose `list` answers with the entries in some order; one that finds a
run under way changes nothing. After a `crash` a new processor goes on. -/
def step : Action → World → Option World
  | .start listed, s =>
    match s.cycle, listed with
    | some _, _ | none, none => some s
    | none, some entries =>
      if entries.Perm s.store then
        some { s with cycle := some ⟨entries, none, ⟨entries.length, 0, 0, 0, 0, 0, 0⟩⟩ }
      else none
  | .entry now lookup, s =>
    match s.cycle with
    | some ⟨entry :: rest, none, counts⟩ =>
      some (s.entry processor parseDate entry rest counts now lookup)
    | _ => none
  | .settle now delivery mark, s =>
    match s.cycle with
    | some ⟨rest, some entry, counts⟩ =>
      some (s.settle entry rest counts now delivery mark)
    | _ => none
  | .finish, s =>
    match s.cycle with
    | some ⟨[], none, counts⟩ => some { s with cycle := none, results := s.results ++ [counts] }
    | _ => none
  | .crash, s =>
    some { s with cycle := none, unmarked := s.unmarked ++ (s.inFlight.map DlqEntry.id).toList }
  | .push entry, s =>
    if entry.id ∈ s.store.map DlqEntry.id then none else some { s with store := s.store ++ [entry] }
  | .markOther id now, s => some { s with store := markReplayed id (toISOString now) s.store }

end Credence.Webhooks.Dlq
