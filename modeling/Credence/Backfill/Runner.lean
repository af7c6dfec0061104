import Credence.Js.Text
import Credence.ProofKit.Runs

/-! `ResumableBackfillRunner.run` over the marker of one job. Each statement and each call of the
processor is one step; a run can be cut off before any of them. -/

namespace Credence.Backfill

open Js

inductive BackfillProgressStatus where
  | pending
  | running
  | completed
  | failed
  deriving DecidableEq

structure BackfillProgress where
  cursorValue : String
  rowsProcessed : Nat
  totalRows : Option Int
  status : BackfillProgressStatus

def jobNamePattern (jobName : List Char) : Bool :=
  1 ≤ jobName.length && jobName.length ≤ 128 &&
    jobName.all fun c => c.isAlphanum || c ∈ ['_', '.', ':', '/', '-']

def assertValidJobName (jobName : String) : Except String Unit :=
  if jobNamePattern jobName.toList then .ok ()
  else .error (s!"Invalid backfill job_name: {jobName}. " ++
    "Expected 1-128 chars matching [a-zA-Z0-9_.:/-].")

def MAX_CURSOR_LENGTH : Nat := 1024

def isControl (c : Char) : Bool :=
  c.toNat ≤ 8 || c.toNat == 11 || c.toNat == 12 || (14 ≤ c.toNat && c.toNat ≤ 31)

def assertValidCursor (cursorValue : String) : Except String Unit :=
  if MAX_CURSOR_LENGTH < utf16Length cursorValue.toList then
    .error s!"cursor_value exceeds maximum length of {MAX_CURSOR_LENGTH}"
  else if cursorValue.toList.any isControl then
    .error "cursor_value contains invalid control characters"
  else .ok ()

def assertNonNegative (value : Option Int) (field : String) : Except String Unit :=
  if value.all (0 ≤ ·) then .ok () else .error s!"{field} must be a non-negative integer"

/-- The checks of `upsert` and `checkpoint`; the row is what is to be written. -/
def checked (row : BackfillProgress) : Except String BackfillProgress := do
  assertValidCursor row.cursorValue
  assertNonNegative row.totalRows "totalRows"
  return row

structure Options where
  jobName : String
  totalRows : Option Int
  initialCursor : String
  forceRestart : Bool

structure BackfillBatchResult where
  nextCursor : String
  processedCount : Int
  done : Bool
  totalRows : Option Int
  deriving DecidableEq

structure Loop where
  resumeCursor : String
  cursor : String
  rowsProcessed : Nat
  batchesProcessed : Nat
  totalRows : Option Int

inductive Phase where
  | resetting
  | marking (loop : Loop)
  | calling (loop : Loop)
  | checkpointing (loop : Loop) (batch : BackfillBatchResult)
  | completing (loop : Loop)
  | failing (loop : Loop) (message : String)

structure RunResult where
  status : BackfillProgressStatus
  rowsProcessed : Nat
  cursorValue : String
  batchesProcessed : Nat
  resumedFromCursor : String
  error : Option String

/-- Where a run started, whether it had found a marker, and the last batch that had been
checkpointed, if any had. -/
structure Start where
  cursor : String
  marked : Bool
  checkpoint : Option BackfillBatchResult

/-- `checkpoint` is the last batch whose checkpoint took effect since the marker was reset, and
`handled` has the cursors of the processor's calls that have returned. -/
structure World where
  marker : Option BackfillProgress
  phase : Option Phase
  checkpoint : Option BackfillBatchResult
  handled : List (String × String)
  starts : List Start
  results : List (Except String RunResult)

/-- What becomes of a statement; a `lost` one takes effect and its reply does not arrive. -/
inductive Reply where
  | ok
  | lost (error : String)
  | failed (error : String)

def Reply.takesEffect : Reply → Bool
  | .ok | .lost _ => true
  | .failed _ => false

def Reply.error : Reply → Option String
  | .ok => none
  | .lost error | .failed error => some error

inductive Action where
  | find (reply : Reply)
  | write (reply : Reply)
  | process (batch : Except String BackfillBatchResult)
  | cut

def World.reject (s : World) (error : String) : World :=
  { s with phase := none, results := s.results ++ [.error error] }

def World.return (s : World) (result : RunResult) : World :=
  { s with phase := none, results := s.results ++ [.ok result] }

variable (options : Options)

def World.begin (s : World) (existing : Option BackfillProgress) : World :=
  match existing with
  | some row =>
    if row.status = .completed ∧ options.forceRestart = false then
      s.return ⟨.completed, row.rowsProcessed, row.cursorValue, 0, row.cursorValue, none⟩
    else
      { s with
        phase := some (.marking ⟨row.cursorValue, row.cursorValue, row.rowsProcessed, 0,
          options.totalRows.or row.totalRows⟩)
        starts := s.starts ++ [⟨row.cursorValue, true, s.checkpoint⟩] }
  | none =>
    { s with
      phase := some (.marking
        ⟨options.initialCursor, options.initialCursor, 0, 0, options.totalRows⟩)
      starts := s.starts ++ [⟨options.initialCursor, false, s.checkpoint⟩] }

def World.find (s : World) (reply : Reply) : World :=
  match assertValidJobName options.jobName with
  | .error error => s.reject error
  | .ok () =>
    match reply.error with
    | some error => s.reject error
    | none =>
      if options.forceRestart ∧ s.marker.isSome then { s with phase := some .resetting }
      else s.begin options s.marker

def World.put (s : World) (reply : Reply) (row : BackfillProgress) : World :=
  if reply.takesEffect then { s with marker := some row } else s

def World.reset (s : World) (reply : Reply) : World :=
  match checked ⟨options.initialCursor, 0, options.totalRows, .pending⟩ with
  | .error error => s.reject error
  | .ok row =>
    let s := if reply.takesEffect then { s.put reply row with checkpoint := none } else s
    match reply.error with
    | some error => s.reject error
    | none => s.begin options (some row)

def World.markRunning (s : World) (loop : Loop) (reply : Reply) : World :=
  let row : BackfillProgress :=
    ⟨(s.marker.map BackfillProgress.cursorValue).getD "",
      (s.marker.map BackfillProgress.rowsProcessed).getD 0,
      loop.totalRows.or (s.marker.bind BackfillProgress.totalRows), .running⟩
  match checked row with
  | .error error => s.reject error
  | .ok row =>
    match reply.error with
    | some error => (s.put reply row).reject error
    | none =>
      { s.put reply row with phase := some (.calling { loop with totalRows := row.totalRows }) }

def maxBatches : Nat := 10000000

def World.process (s : World) (loop : Loop) : Except String BackfillBatchResult → World
  | .error error => { s with phase := some (.failing loop error) }
  | .ok batch =>
    let s := { s with handled := s.handled ++ [(loop.cursor, batch.nextCursor)] }
    if batch.processedCount < 0 then
      { s with phase := some (.failing loop "Backfill batch reported negative processedCount") }
    else
      let loop := { loop with
        cursor := batch.nextCursor
        rowsProcessed := loop.rowsProcessed + batch.processedCount.toNat
        batchesProcessed := loop.batchesProcessed + 1 }
      { s with phase := some (.checkpointing loop batch) }

def Loop.ends (loop : Loop) (batch : BackfillBatchResult) : Bool :=
  batch.done || batch.processedCount == 0 || loop.batchesProcessed == maxBatches

def Loop.next (loop : Loop) (batch : BackfillBatchResult) : Phase :=
  if loop.ends batch then .completing loop else .calling loop

def World.saveCheckpoint (s : World) (loop : Loop) (batch : BackfillBatchResult) (reply : Reply) :
    World :=
  let totalRows := (batch.totalRows.or options.totalRows).or loop.totalRows
  match checked ⟨loop.cursor, loop.rowsProcessed, totalRows, .running⟩ with
  | .error error => { s with phase := some (.failing loop error) }
  | .ok row =>
    let row := { row with
      totalRows := row.totalRows.or (s.marker.bind BackfillProgress.totalRows) }
    let s := if reply.takesEffect then { s.put reply row with checkpoint := some batch } else s
    match reply.error with
    | some error => { s with phase := some (.failing loop error) }
    | none =>
      { s with phase := some (Loop.next { loop with totalRows := row.totalRows } batch) }

def World.markCompleted (s : World) (loop : Loop) (reply : Reply) : World :=
  match s.marker with
  | none =>
    { s with
      phase := some (.failing loop s!"Cannot complete unknown backfill job: {options.jobName}") }
  | some old =>
    match checked ⟨loop.cursor, loop.rowsProcessed, old.totalRows, .completed⟩ with
    | .error error => { s with phase := some (.failing loop error) }
    | .ok row =>
      match reply.error with
      | some error => { s.put reply row with phase := some (.failing loop error) }
      | none =>
        (s.put reply row).return ⟨.completed, loop.rowsProcessed, loop.cursor,
          loop.batchesProcessed, loop.resumeCursor, none⟩

/-- `markFailed`, whose own failures are swallowed. -/
def World.markFailed (s : World) (loop : Loop) (message : String) (reply : Reply) : World :=
  let result : RunResult := ⟨.failed, loop.rowsProcessed, loop.cursor, loop.batchesProcessed,
    loop.resumeCursor, some message⟩
  match s.marker.map fun old => checked { old with status := .failed } with
  | some (.ok row) => (s.put reply row).return result
  | some (.error _) | none => s.return result

def step : Action → World → Option World
  | .find reply, s => if s.phase = none then some (s.find options reply) else none
  | .write reply, s =>
    match s.phase with
    | some .resetting => some (s.reset options reply)
    | some (.marking loop) => some (s.markRunning loop reply)
    | some (.checkpointing loop batch) => some (s.saveCheckpoint options loop batch reply)
    | some (.completing loop) => some (s.markCompleted options loop reply)
    | some (.failing loop message) => some (s.markFailed loop message reply)
    | some (.calling _) | none => none
  | .process batch, s =>
    match s.phase with
    | some (.calling loop) => some (s.process loop batch)
    | _ => none
  | .cut, s => some { s with phase := none }

end Credence.Backfill
