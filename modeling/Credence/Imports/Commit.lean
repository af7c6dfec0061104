import Credence.Crypto.Sha256
import Credence.Js.Json
import Credence.Js.Text
import Credence.ProofKit.PromiseLock

/-! `commitImportFile`: the rows of a validated file are written under the lock of the idempotency
key, and a checkpoint keeps the outcome of each. -/

namespace Credence.Imports

open Js Crypto ProofKit

/-- `csv-parse` with the options of the import, and `toLowerCase`. -/
structure CsvTools where
  parse : String → Option (List (List String))
  lower : String → String
  parse_empty : parse "" = some []

structure ImportFile where
  text : String
  columnMappings : List (String × String)
  deriving DecidableEq

structure ValidatedImportRow where
  row : Nat
  fields : List (String × String)
  deriving DecidableEq

def trimText (text : String) : String := String.ofList (trim text.toList)

def stripBom (text : String) : String :=
  match text.toList with
  | c :: cs => if c.toNat = 0xfeff then String.ofList cs else text
  | [] => text

def sanitizeCellValue (value : String) : String :=
  match value.toList with
  | c :: _ => if c ∈ ['=', '+', '-', '@', '\t', '\r'] then "\t" ++ value else value
  | [] => value

def columnIndexes (csv : CsvTools) (csvHeaders : List String)
    (columnMappings : List (String × String)) : List (String × Nat) :=
  let normalizedHeaders := csvHeaders.map fun header => csv.lower (stripBom header)
  columnMappings.foldl (fun indexes entry =>
    match normalizedHeaders.findIdx? fun header => header = csv.lower entry.1 with
    | some index => Map.set entry.2 index indexes
    | none => indexes) []

def buildColumnMapper (csv : CsvTools) (csvHeaders : List String)
    (columnMappings : List (String × String)) (row : List String) : List (String × String) :=
  (columnIndexes csv csvHeaders columnMappings).map fun entry =>
    (entry.1, sanitizeCellValue (trimText (row[entry.2]?.getD "")))

/-- `none` when the parser throws. -/
def collectValidatedImportRows (csv : CsvTools) (file : ImportFile) :
    Option (List ValidatedImportRow) :=
  (csv.parse file.text).map fun
    | [] => []
    | header :: rows => rows.mapIdx fun index row =>
      ⟨index + 2, buildColumnMapper csv (header.map trimText) file.columnMappings row⟩

def objectText (entries : List (String × String)) : String :=
  (Json.obj (entries.map fun entry => (entry.1, .str entry.2))).stringify

def importFingerprint (hash : TextHash) (file : ImportFile) : String :=
  hash.digest (file.text ++ objectText file.columnMappings)

def stableRowKey (hash : TextHash) (fingerprint : String) (row : ValidatedImportRow) : String :=
  hash.digest s!"{fingerprint}:{row.row}:{objectText row.fields}"

inductive ImportRowStatus where
  | accepted
  | rejected
  | retryable
  deriving DecidableEq

structure ImportRowOutcome where
  row : Nat
  rowKey : String
  status : ImportRowStatus
  code : String
  message : String

def importedOutcome (row : Nat) (rowKey : String) : ImportRowOutcome :=
  ⟨row, rowKey, .accepted, "IMPORTED", "Row imported successfully."⟩

def failedOutcome (row : Nat) (rowKey : String) : ImportRowOutcome :=
  ⟨row, rowKey, .retryable, "CommitFailed", "Row could not be imported; retry the operation."⟩

structure ImportCheckpoint where
  operationId : String
  fingerprint : String
  outcomes : List (String × ImportRowOutcome)
  completed : Bool

structure ImportDryRunRowError where
  row : Nat
  column : String
  code : String
  message : String

structure ImportErrorBody where
  status : Nat
  error : String
  code : String
  message : String
  row : Option Nat

inductive DryRun where
  | failed (body : ImportErrorBody)
  | invalid (totalRows : Nat) (errors : List ImportDryRunRowError) (errorsTruncated : Bool)
  | valid

def validationOutcomes (errors : List ImportDryRunRowError) : List ImportRowOutcome :=
  errors.map fun error =>
    ⟨error.row, s!"rejected:{error.row}", .rejected, error.code, error.message⟩

structure ImportCommitSuccessBody where
  committed : Bool
  totalRows : Nat
  imported : Nat
  operationId : String
  partly : Bool
  accepted : Nat
  rejected : Nat
  retried : Nat
  rowOutcomes : List ImportRowOutcome

inductive Response where
  | error (body : ImportErrorBody)
  | invalid (totalRows : Nat) (errors : List ImportDryRunRowError) (errorsTruncated : Bool)
    (rowOutcomes : List ImportRowOutcome)
  | conflict (body : ImportErrorBody)
  | committed (body : ImportCommitSuccessBody)

def conflictBody : ImportErrorBody :=
  ⟨409, "Conflict", "IdempotencyConflict",
    "Idempotency key was reused with a different import file or mapping.", none⟩

def failureBody : ImportErrorBody :=
  ⟨500, "InternalServerError", "CommitFailed", "Import commit failed during persistence.", none⟩

structure Tally where
  rowOutcomes : List ImportRowOutcome
  accepted : Nat
  retried : Nat

def Tally.empty : Tally := ⟨[], 0, 0⟩

def Tally.add (outcome : ImportRowOutcome) (tally : Tally) : Tally := { tally with
    rowOutcomes := tally.rowOutcomes ++ [outcome]
    accepted := if outcome.status = .accepted then tally.accepted + 1 else tally.accepted }

/-- The rows up to the next one that `upsertRow` is called for: that row, those after it, and the
tally. -/
def nextWrite (keyOf : ValidatedImportRow → String) (outcomes : List (String × ImportRowOutcome)) :
    List ValidatedImportRow → Tally → Option (ValidatedImportRow × List ValidatedImportRow) × Tally
  | [], tally => (none, tally)
  | row :: rest, tally =>
    match Map.get (keyOf row) outcomes with
    | none => (some (row, rest), tally)
    | some previous =>
      match previous.status with
      | .accepted => nextWrite keyOf outcomes rest (tally.add previous)
      | .retryable => (some (row, rest), { tally with retried := tally.retried + 1 })
      | .rejected => (some (row, rest), tally)

def retryableCount (outcomes : List ImportRowOutcome) : Nat :=
  outcomes.countP fun outcome => outcome.status = .retryable

def successBody (operationId : String) (totalRows : Nat) (tally : Tally) :
    ImportCommitSuccessBody where
  committed := retryableCount tally.rowOutcomes = 0
  totalRows := totalRows
  imported := tally.accepted
  operationId := operationId
  partly := 0 < retryableCount tally.rowOutcomes
  accepted := tally.accepted
  rejected := 0
  retried := tally.retried
  rowOutcomes := tally.rowOutcomes

structure Pair where
  tenantId : Option String
  idempotencyKey : Option String
  deriving DecidableEq

/-- The idempotency key after `trim`, unless it is then empty. -/
def Pair.key (pair : Pair) : Option String :=
  (pair.idempotencyKey.map trimText).filter fun key => key ≠ ""

def scopedKey (uuid : String) (pair : Pair) : String :=
  match pair.key with
  | some key => pair.tenantId.getD "anonymous" ++ ":" ++ key
  | none => "operation:" ++ uuid

structure CallId where
  pair : Pair
  number : Nat
  deriving DecidableEq

/-- What the calls take from elsewhere; `operationUuid` and `importUuid` are the two values of
`randomUUID` that a call can draw. -/
structure Env where
  hash : TextHash
  csv : CsvTools
  operationUuid : CallId → String
  importUuid : CallId → String

def Env.keyOf (env : Env) (call : CallId) : String := scopedKey (env.operationUuid call) call.pair

def Env.rowKey (env : Env) (file : ImportFile) (row : ValidatedImportRow) : String :=
  stableRowKey env.hash (importFingerprint env.hash file) row

/-- Where a call is: before the reply of the dry run, of the parser, of the lock, or of `upsertRow`
for a row. -/
inductive Stage where
  | validating
  | collecting
  | waiting (rows : List ValidatedImportRow)
  | writing (rows : List ValidatedImportRow) (row : ValidatedImportRow)
    (rest : List ValidatedImportRow) (tally : Tally)
  | ended

structure Call where
  file : ImportFile
  stage : Stage

inductive Event where
  | called (call : CallId) (rowKey : String) (row : ValidatedImportRow)
  | ended (call : CallId) (rowKey : String) (row : ValidatedImportRow) (succeeded : Bool)
  deriving DecidableEq

def Event.call : Event → CallId
  | called call _ _ => call
  | ended call _ _ _ => call

structure World where
  calls : List (CallId × Call)
  lock : PromiseLock String CallId
  checkpoints : List (String × ImportCheckpoint)
  log : List Event
  responses : List (CallId × Response)

def World.start : World := ⟨[], .empty, [], [], []⟩

inductive Action where
  | commitImportFile (call : CallId) (file : ImportFile)
  | validated (call : CallId) (result : DryRun)
  | collected (call : CallId)
  | acquired (call : CallId)
  | upserted (call : CallId) (succeeded : Bool)

def Action.call : Action → CallId
  | commitImportFile call _ => call
  | validated call _ => call
  | collected call => call
  | acquired call => call
  | upserted call _ => call

structure View where
  call : Option Call
  ready : Bool
  checkpoint : Option ImportCheckpoint

inductive LockUse where
  | keep
  | enter
  | leave

structure Turn where
  call : Call
  lock : LockUse
  checkpoint : Option ImportCheckpoint
  events : List Event
  response : Option Response

def Turn.quiet (call : Call) : Turn := ⟨call, .keep, none, [], none⟩

def Turn.answer (file : ImportFile) (lock : LockUse) (response : Response) : Turn :=
  ⟨⟨file, .ended⟩, lock, none, [], some response⟩

/-- The loop up to the next `upsertRow`, or to the end of the call. -/
def goOn (env : Env) (id : CallId) (file : ImportFile) (rows todo : List ValidatedImportRow)
    (tally : Tally) (checkpoint : ImportCheckpoint) (events : List Event) : Turn :=
  match nextWrite (env.rowKey file) checkpoint.outcomes todo tally with
  | (some (row, rest), tally) =>
    ⟨⟨file, .writing rows row rest tally⟩, .keep, some checkpoint,
      events ++ [.called id (env.rowKey file row) row], none⟩
  | (none, tally) =>
    ⟨⟨file, .ended⟩, .leave,
      some { checkpoint with completed := retryableCount tally.rowOutcomes = 0 }, events,
      some (.committed (successBody checkpoint.operationId rows.length tally))⟩

/-- `execute` up to its first `await`. -/
def execute (env : Env) (id : CallId) (file : ImportFile) (rows : List ValidatedImportRow) :
    Option ImportCheckpoint → Turn
  | some checkpoint =>
    if checkpoint.fingerprint ≠ importFingerprint env.hash file then
      .answer file .leave (.conflict conflictBody)
    else goOn env id file rows rows .empty checkpoint []
  | none =>
    goOn env id file rows rows .empty
      ⟨s!"import_{env.importUuid id}", importFingerprint env.hash file, [], false⟩ []

def record (env : Env) (id : CallId) (file : ImportFile) (rows : List ValidatedImportRow)
    (row : ValidatedImportRow) (rest : List ValidatedImportRow) (tally : Tally)
    (checkpoint : ImportCheckpoint) (succeeded : Bool) : Turn :=
  let key := env.rowKey file row
  let outcome := if succeeded then importedOutcome row.row key else failedOutcome row.row key
  goOn env id file rows rest (tally.add outcome)
    { checkpoint with outcomes := Map.set key outcome checkpoint.outcomes }
    [.ended id key row succeeded]

def turn (env : Env) (action : Action) (view : View) : Option Turn :=
  match action, view with
  | .commitImportFile _ file, ⟨none, _, _⟩ => some (.quiet ⟨file, .validating⟩)
  | .validated _ (.failed body), ⟨some ⟨file, .validating⟩, _, _⟩ =>
    some (.answer file .keep (.error body))
  | .validated _ (.invalid totalRows errors errorsTruncated), ⟨some ⟨file, .validating⟩, _, _⟩ =>
    some (.answer file .keep
      (.invalid totalRows errors errorsTruncated (validationOutcomes errors)))
  | .validated _ .valid, ⟨some ⟨file, .validating⟩, _, _⟩ => some (.quiet ⟨file, .collecting⟩)
  | .collected _, ⟨some ⟨file, .collecting⟩, _, _⟩ =>
    match collectValidatedImportRows env.csv file with
    | none => some (.answer file .keep (.error failureBody))
    | some rows => some ⟨⟨file, .waiting rows⟩, .enter, none, [], none⟩
  | .acquired id, ⟨some ⟨file, .waiting rows⟩, true, checkpoint⟩ =>
    some (execute env id file rows checkpoint)
  | .upserted id succeeded, ⟨some ⟨file, .writing rows row rest tally⟩, _, some checkpoint⟩ =>
    some (record env id file rows row rest tally checkpoint succeeded)
  | _, _ => none

def World.view (env : Env) (id : CallId) (w : World) : View :=
  ⟨Map.get id w.calls, w.lock.ready id, Map.get (env.keyOf id) w.checkpoints⟩

def LockUse.apply (key : String) (id : CallId) (lock : PromiseLock String CallId) :
    LockUse → PromiseLock String CallId
  | keep => lock
  | enter => lock.enter key id
  | leave => lock.leave id

def World.take (env : Env) (id : CallId) (w : World) (turn : Turn) : World where
  calls := Map.set id turn.call w.calls
  lock := turn.lock.apply (env.keyOf id) id w.lock
  checkpoints :=
    match turn.checkpoint with
    | some checkpoint => Map.set (env.keyOf id) checkpoint w.checkpoints
    | none => w.checkpoints
  log := w.log ++ turn.events
  responses := w.responses ++ (turn.response.map fun response => (id, response)).toList

def step (env : Env) (action : Action) (w : World) : Option World :=
  (turn env action (w.view env action.call)).map (w.take env action.call)

end Credence.Imports
