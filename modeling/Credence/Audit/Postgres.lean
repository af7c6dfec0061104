import Credence.Audit.Verify
import Credence.Js.Number
import Credence.Lib.Cursor
import Credence.Pg.Timestamp
import Mathlib.Data.List.MinMax

/-! `PostgresAuditLogsRepository`: the rows that the two insert statements write, with hashes that
the server computes, and the queries that read them back. -/

namespace Credence.Audit.Postgres

open Js Crypto ProofKit Pg

/-- A row of `audit_logs`; `occurredAt` counts microseconds since 1970. -/
structure AuditLogRow where
  id : String
  occurredAt : Int
  actorId : String
  actorEmail : String
  action : String
  resourceType : String
  resourceId : String
  detailsJson : Json
  status : AuditStatus
  ipAddress : Option String
  errorMessage : Option String
  tenantId : String
  requestId : Option String
  seq : Nat
  prevHash : Option String
  rowHash : Option String

/-- `toDate(row.occurred_at).toISOString()`: the driver drops the microseconds. -/
def AuditLogRow.timestamp (row : AuditLogRow) : String := toISOString (row.occurredAt / 1000)

def mapAuditLog (row : AuditLogRow) : AuditLogEntry :=
  { id := row.id
    timestamp := row.timestamp
    actorId := row.actorId
    actorEmail := row.actorEmail
    adminId := row.actorId
    adminEmail := row.actorEmail
    action := row.action
    resourceType := row.resourceType
    resourceId := row.resourceId
    targetUserId := row.resourceId
    targetUserEmail := targetUserEmail row.detailsJson
    details := row.detailsJson
    status := row.status
    ipAddress := row.ipAddress
    errorMessage := row.errorMessage
    tenantId := row.tenantId
    requestId := row.requestId
    seq := some row.seq
    prevHash := row.prevHash
    rowHash := row.rowHash }

def AuditLogRow.chainRow (row : AuditLogRow) : AuditChainRow :=
  { id := row.id
    seq := row.seq
    occurredAt := .date (row.occurredAt / 1000)
    actorId := row.actorId
    action := row.action
    resourceType := row.resourceType
    resourceId := row.resourceId
    detailsJson := some row.detailsJson
    status := row.status.text
    tenantId := row.tenantId
    prevHash := row.prevHash
    rowHash := row.rowHash }

/-- What the server makes of the parameter for the details, whose text it both converts to `jsonb`
and puts into the hashed text. -/
structure Server where
  jsonb : String → Json
  hashedDetails : String → String

def plainServer : Server := ⟨fun text => (Json.parse text).getD .null, fun text => text⟩

/-- The time of a transaction, with the offset of the session's zone. A JavaScript date can hold
it. -/
structure Now where
  micros : Int
  zone : Int
  inRange : micros.natAbs ≤ 8640000000000000000

/-- A statement that fails, after it has drawn so many numbers from the sequence. -/
structure Fault where
  message : String
  drawn : Nat

structure Execution where
  now : Now
  fault : Option Fault

def newYear : Now := ⟨1704067200000000, 0, by decide⟩

section

variable (hash : TextHash) (server : Server)

def insertedRow (now : Now) (prevHash : Option String) (seq : Nat) (id : String)
    (input : AuditLogInput) : AuditLogRow :=
  let detailsStr := input.detailsJson.stringify
  let status := input.status.getD .success
  { id := id
    occurredAt := now.micros
    actorId := resolveActorId input
    actorEmail := resolveActorEmail input
    action := input.action
    resourceType := input.resourceType
    resourceId := input.resourceId
    detailsJson := server.jsonb detailsStr
    status := status
    ipAddress := input.ipAddress
    errorMessage := input.errorMessage
    tenantId := input.tenantId
    requestId := input.requestId
    seq := seq
    prevHash := prevHash
    rowHash := some (computeRowHash hash prevHash id (timestampText now.zone now.micros)
      (resolveActorId input) input.action input.resourceType input.resourceId
      (server.hashedDetails detailsStr) status.text input.tenantId (input.requestId.getD "")) }

def newestHash (rows : List AuditLogRow) : Option String :=
  (rows.argmax AuditLogRow.seq).bind AuditLogRow.rowHash

/-- Each part of `appendBatch` reads the hash of the part before it, and the column holds
`'GENESIS'` where there is none. -/
def batchRows (now : Now) : Option String → List (Nat × String × AuditLogInput) → List AuditLogRow
  | _, [] => []
  | prevHash, (seq, id, input) :: parts =>
    let row := insertedRow hash server now (some (prevHash.getD "GENESIS")) seq id input
    row :: batchRows now row.rowHash parts

variable {hash server} in
theorem batchRows_seq (now : Now) (prevHash : Option String)
    (parts : List (Nat × String × AuditLogInput)) :
    (batchRows hash server now prevHash parts).map AuditLogRow.seq = parts.map Prod.fst := by
  induction parts generalizing prevHash with
  | nil => rfl
  | cons part parts ih =>
    rw [batchRows, List.map_cons, ih, List.map_cons]
    rfl

variable {hash server} in
theorem batchRows_id (now : Now) (prevHash : Option String)
    (parts : List (Nat × String × AuditLogInput)) :
    (batchRows hash server now prevHash parts).map AuditLogRow.id =
      (parts.map Prod.snd).map Prod.fst := by
  induction parts generalizing prevHash with
  | nil => rfl
  | cons part parts ih =>
    rw [batchRows, List.map_cons, ih, List.map_cons, List.map_cons]
    rfl

structure Table where
  rows : List AuditLogRow
  nextSeq : Nat

namespace Table

def start : Table := ⟨[], 1⟩

/-- A failed statement leaves nothing but the gap in the numbers. -/
def skip (t : Table) (fault : Fault) : Table := { t with nextSeq := t.nextSeq + fault.drawn }

def append (t : Table) (run : Execution) (id : String) (input : AuditLogInput) :
    Table × Except String AuditLogEntry :=
  if input.tenantId = "" then
    (t, .error "AuditLogRepository.append requires tenantId for tenant isolation")
  else
    match run.fault with
    | some fault => (t.skip fault, .error fault.message)
    | none =>
      let row := insertedRow hash server run.now (newestHash t.rows) t.nextSeq id input
      (⟨t.rows ++ [row], t.nextSeq + 1⟩, .ok (mapAuditLog row))

def appendBatch (t : Table) (run : Execution) :
    List (String × AuditLogInput) → Table × Except String (List AuditLogEntry)
  | [] => (t, .ok [])
  | [(id, input)] =>
    match t.append hash server run id input with
    | (t', .ok entry) => (t', .ok [entry])
    | (t', .error message) => (t', .error message)
  | items =>
    if items.any fun item => item.2.tenantId = "" then
      (t, .error "AuditLogRepository.appendBatch requires tenantId for tenant isolation")
    else
      match run.fault with
      | some fault => (t.skip fault, .error fault.message)
      | none =>
        let rows := batchRows hash server run.now (newestHash t.rows)
          ((List.range' t.nextSeq items.length).zip items)
        (⟨t.rows ++ rows, t.nextSeq + items.length⟩, .ok (rows.map mapAuditLog))

end Table

inductive Call where
  | append (run : Execution) (id : String) (input : AuditLogInput)
  | appendBatch (run : Execution) (items : List (String × AuditLogInput))

def Table.after (t : Table) : Call → Table
  | .append run id input => (t.append hash server run id input).1
  | .appendBatch run items => (t.appendBatch hash server run items).1

def Table.afterAll (calls : List Call) : Table := calls.foldl (Table.after hash server) .start

end

structure AuditLogFilters where
  action : Option String
  actorId : Option String
  adminId : Option String
  resourceId : Option String
  targetUserId : Option String
  resourceType : Option String
  status : Option AuditStatus
  fromTime : Option String
  toTime : Option String
  tenantId : Option String

/-- What `query` takes from outside: how the server reads a time, its order of texts, and the key
of the cursors. -/
structure Reading where
  instant : String → Int
  textLe : String → String → Bool
  cursorKey : Lib.CursorKey

def plainReading : Reading := ⟨fun _ => 0, fun a b => a ≤ b, ⟨"secret", openHmac, fun _ => ""⟩⟩

def given (value : Option String) : Option String := value.filter fun text => text ≠ ""

variable (r : Reading)

/-- The conditions of `applyFilters`; a filter that is not given has none. -/
def AuditLogFilters.admits (filters : AuditLogFilters) (row : AuditLogRow) : Bool :=
  (given filters.action).all (fun action => row.action = action) &&
    (given (filters.actorId <|> filters.adminId)).all (fun actor => row.actorId = actor) &&
    (given (filters.resourceId <|> filters.targetUserId)).all (fun id => row.resourceId = id) &&
    (given filters.resourceType).all (fun type => row.resourceType = type) &&
    filters.status.all (fun status => row.status = status) &&
    (given filters.fromTime).all (fun time => r.instant time ≤ row.occurredAt) &&
    (given filters.toTime).all (fun time => row.occurredAt ≤ r.instant time) &&
    (given filters.tenantId).all (fun tenant => row.tenantId = tenant)

/-- `(occurred_at, id) < (t, i)`. -/
def beforeCursor (cursor : String × String) (row : AuditLogRow) : Bool :=
  row.occurredAt < r.instant cursor.1 ||
    (row.occurredAt == r.instant cursor.1 && r.textLe row.id cursor.2 && row.id ≠ cursor.2)

/-- `ORDER BY occurred_at DESC, id DESC`. -/
def listedBefore (a b : AuditLogRow) : Prop :=
  b.occurredAt < a.occurredAt ∨ (a.occurredAt = b.occurredAt ∧ r.textLe b.id a.id = true)

instance : DecidableRel (listedBefore r) := fun _ _ => inferInstanceAs (Decidable (_ ∨ _))

structure Page where
  logs : List AuditLogEntry
  hasNextPage : Bool
  nextCursor : Option String

def query (rows : List AuditLogRow) (filters : Option AuditLogFilters) (limit : Number)
    (cursor : Option String) : Except String Page :=
  match filters with
  | none => .error "AuditLogRepository.query requires tenantId for tenant isolation"
  | some filters =>
    if given filters.tenantId = none then
      .error "AuditLogRepository.query requires tenantId for tenant isolation"
    else if !limit.isFinite || limit.floor < 1 then
      .error "AuditLogRepository.query requires a positive finite limit"
    else
      match (given cursor).elim (.ok none) r.cursorKey.decodeCursor with
      | .error _ => .error "Invalid pagination parameters"
      | .ok decoded =>
        let size := limit.floor.toNat
        let selected := rows.filter fun row =>
          filters.admits r row && decoded.all fun cursor => beforeCursor r cursor row
        let fetched := (selected.insertionSort (listedBefore r)).take (size + 1)
        let hasNextPage := size < fetched.length
        let logs := (fetched.take size).map mapAuditLog
        .ok
          { logs := logs
            hasNextPage := hasNextPage
            nextCursor := if hasNextPage then
                logs.getLast?.map fun last => r.cursorKey.encodeCursor last.timestamp last.id
              else none }

def getAll (rows : List AuditLogRow) : Except String (List AuditLogEntry) :=
  (query r rows none (.finite 1000000) none).map Page.logs

end Credence.Audit.Postgres
