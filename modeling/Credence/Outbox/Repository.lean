import Credence.Js.Json
import Credence.Js.Number
import Credence.Pg.Md5
import Credence.ProofKit.Table

/-! The statements of `OutboxRepository`, each an atomic step on the rows; times are microseconds,
and a method that throws leaves the tables as they are. The names that the source does not bind are
read as what the surrounding functions compute: `effectiveLimit`, `effectiveLeaseSeconds`,
`shardCountParam` and `shardIdParam` as the normalized values, `rawMessage` as `errorMessage`,
`sanitizedMessage` as its sanitized text. -/

namespace Credence.Outbox

open Js ProofKit

inductive OutboxEventStatus where
  | pending
  | processing
  | published
  | failed
  | deadLetter
  deriving DecidableEq

inductive OutboxQuarantineReason where
  | malformedJson
  | schemaInvalid
  | oversizedPayload
  | unknownEventType
  deriving DecidableEq

/-- A row of `event_outbox`; its `id` is the key in the table. -/
structure OutboxEventRow where
  aggregateType : String
  aggregateId : String
  eventType : String
  payload : Json
  status : OutboxEventStatus
  retryCount : Nat
  maxRetries : Nat
  createdAt : Nat
  processedAt : Option Nat
  errorMessage : Option String
  consumerId : Option String
  leaseExpiresAt : Option Nat
  nextAttemptAt : Option Nat
  shardCount : Option Nat
  shardId : Option Nat
  publishIdempotencyKey : Option String

structure OutboxQuarantineRow where
  originalEventId : Nat
  aggregateType : String
  aggregateId : String
  eventType : String
  payload : Json
  reason : OutboxQuarantineReason
  errorMessage : String
  retryCount : Nat
  maxRetries : Nat
  quarantinedAt : Nat
  reinjectedAt : Option Nat
  reinjectedBy : Option String

structure OutboxEvent where
  id : Nat
  aggregateType : String
  aggregateId : String
  eventType : String
  payload : Json
  rawPayload : Option String
  payloadParseError : Option String
  nextAttemptAt : Option Nat
  status : OutboxEventStatus
  retryCount : Nat
  maxRetries : Nat
  consumerId : Option String
  leaseExpiresAt : Option Nat
  createdAt : Nat
  processedAt : Option Nat
  errorMessage : Option String
  shardCount : Option Nat
  shardId : Option Nat
  publishIdempotencyKey : Option String

structure CreateOutboxEvent where
  aggregateType : String
  aggregateId : String
  eventType : String
  payload : Json
  maxRetries : Option Number

structure OutboxCleanupConfig where
  publishedRetentionDays : Int
  failedRetentionDays : Int

structure Db where
  now : Nat
  eventOutbox : Table OutboxEventRow
  outboxQuarantine : Table OutboxQuarantineRow

/-- What the host decides: the text of the `SyntaxError` of `JSON.parse`, the redacted text of an
error message, and the issues that the schema of an event type finds. -/
structure Host where
  syntaxError : String → String
  sanitizeErrorMessage : String → String
  safeParse : String → Json → List (String × String)

def Host.plain : Host := ⟨fun raw => raw, fun message => message, fun _ _ => []⟩

def microsPerSecond : Nat := 1000000

def microsPerDay : Nat := 86400 * microsPerSecond

def maxBackoffSeconds : Nat := 3600

def defaultLeaseSeconds : Nat := 300

def defaultClaimLimit : Nat := 100

def normalizeLeaseSeconds (leaseSeconds : Number) : Nat :=
  if !leaseSeconds.isFinite || leaseSeconds.isNonPositive then defaultLeaseSeconds
  else leaseSeconds.floor.toNat

def normalizeLimit (limit : Number) : Nat :=
  if !limit.isFinite || limit.isNonPositive then defaultClaimLimit else limit.floor.toNat

structure Shard where
  count : Nat
  id : Nat
  id_lt : id < count

/-- `none` stands for a pair of nulls: no sharding. -/
def normalizeShard : Option Number → Option Number → Option Shard
  | some (.finite count), some (.finite id) =>
    if count.isInt && id.isInt && !decide (count ≤ 0) && !decide (id < 0) then
      if h : id.num.toNat < count.num.toNat then some ⟨count.num.toNat, id.num.toNat, h⟩ else none
    else none
  | _, _ => none

/-- The value of a JavaScript argument that the types declare as a string. -/
inductive ConsumerArg where
  | text (value : String)
  | bool (value : Bool)

namespace ConsumerArg

def isTruthy : ConsumerArg → Bool
  | text value => value != ""
  | bool value => value

def sqlText : ConsumerArg → String
  | text value => value
  | bool value => if value then "true" else "false"

end ConsumerArg

def transitionError (eventId : Nat) (transition : String) : String :=
  "Outbox event " ++ toString eventId ++ " cannot transition via " ++ transition

namespace OutboxEventRow

variable (row : OutboxEventRow)

def isTerminal : Bool := row.status == .published || row.status == .deadLetter

def leaseExpired (now : Nat) : Bool := row.leaseExpiresAt.all (· < now)

def heldBy (consumerId : String) : Bool :=
  row.status == .processing && row.consumerId == some consumerId

def released : OutboxEventRow := { row with
    status := .pending
    consumerId := none
    leaseExpiresAt := none
    publishIdempotencyKey := none }

end OutboxEventRow

/-- The payload of an event, its raw text and the error found in it. A JSON text is parsed and has
to be an object; any other value is taken as it is. -/
def mapPayload (host : Host) : Json → Json × Option String × Option String
  | .str raw =>
    match Json.parse raw with
    | some (.obj props) => (.obj props, some raw, none)
    | some _ => (.obj [], some raw, some "Payload JSON must be an object")
    | none => (.obj [], some raw, some (host.syntaxError raw))
  | payload => (payload, some payload.stringify, none)

def mapOutboxEvent (host : Host) (id : Nat) (row : OutboxEventRow) : OutboxEvent where
  id := id
  aggregateType := row.aggregateType
  aggregateId := row.aggregateId
  eventType := row.eventType
  payload := (mapPayload host row.payload).1
  rawPayload := (mapPayload host row.payload).2.1
  payloadParseError := (mapPayload host row.payload).2.2
  nextAttemptAt := row.nextAttemptAt
  status := row.status
  retryCount := row.retryCount
  maxRetries := if 0 < row.maxRetries then row.maxRetries else 1
  consumerId := row.consumerId
  leaseExpiresAt := row.leaseExpiresAt
  createdAt := row.createdAt
  processedAt := row.processedAt
  errorMessage := row.errorMessage
  shardCount := row.shardCount
  shardId := row.shardId
  publishIdempotencyKey := row.publishIdempotencyKey

def integerMax : Nat := 2147483647

def createMaxRetries : Option Number → Except String Nat
  | none => .ok 5
  | some n =>
    if !n.isInteger || n.floor < 0 then .error "maxRetries must be a non-negative integer"
    else if integerMax < n.floor.toNat then .error "integer out of range"
    else .ok n.floor.toNat

def newRow (now : Nat) (aggregateType aggregateId eventType : String) (payload : Json)
    (maxRetries : Nat) : OutboxEventRow where
  aggregateType := aggregateType
  aggregateId := aggregateId
  eventType := eventType
  payload := payload
  status := .pending
  retryCount := 0
  maxRetries := maxRetries
  createdAt := now
  processedAt := none
  errorMessage := none
  consumerId := none
  leaseExpiresAt := none
  nextAttemptAt := none
  shardCount := none
  shardId := none
  publishIdempotencyKey := none

def create (db : Db) (event : CreateOutboxEvent) : Except String (Db × Nat) :=
  match createMaxRetries event.maxRetries with
  | .error message => .error message
  | .ok maxRetries =>
    let row := newRow db.now event.aggregateType event.aggregateId event.eventType event.payload
      maxRetries
    .ok ({ db with eventOutbox := db.eventOutbox.insert row }, db.eventOutbox.nextId)

/-- The bits `('x' || substr(md5(id::text), 1, 8))::bit(32)`. -/
def shardHash (id : Nat) : BitVec 32 := Pg.digestHead (Pg.md5 (toString id))

/-- The comparison `hash::int % count = shardId`; `%` takes the sign of the dividend. -/
def shardPredicate (hash : BitVec 32) (count shardId : Nat) : Bool :=
  hash.toInt.tmod count == shardId

def inShard (shard : Option Shard) (id : Nat) : Bool :=
  shard.all fun s => shardPredicate (shardHash id) s.count s.id

def claimable (now : Nat) (shard : Option Shard) (id : Nat) (row : OutboxEventRow) : Bool :=
  (row.status == .pending || (row.status == .processing && row.leaseExpired now)) &&
    row.nextAttemptAt.all (· ≤ now) && inShard shard id

def claimRow (now : Nat) (consumerId : String) (leaseSeconds : Nat) (shard : Option Shard)
    (row : OutboxEventRow) : OutboxEventRow :=
  { row with
    status := .processing
    consumerId := some consumerId
    leaseExpiresAt := some (now + leaseSeconds * microsPerSecond)
    shardCount := shard.map Shard.count
    shardId := shard.map Shard.id }

structure ClaimArgs where
  consumerId : String
  limit : Number
  leaseSeconds : Number
  shardCount : Option Number
  shardId : Option Number

namespace ClaimArgs

variable (args : ClaimArgs)

def shard : Option Shard := normalizeShard args.shardCount args.shardId

def claimed (now : Nat) : OutboxEventRow → OutboxEventRow :=
  claimRow now args.consumerId (normalizeLeaseSeconds args.leaseSeconds) args.shard

end ClaimArgs

/-- Given the rows that the statement picks, in the order in which it returns them; `none` when it
cannot pick these. The returned columns lack `next_attempt_at`. -/
def claimEvents (host : Host) (db : Db) (args : ClaimArgs) (picked : List Nat) :
    Option (Db × List OutboxEvent) :=
  if args.limit.isNonPositive then
    if picked = [] then some (db, []) else none
  else if db.eventOutbox.Selects (claimable db.now args.shard) OutboxEventRow.createdAt
      (normalizeLimit args.limit) picked then
    let claimed := db.eventOutbox.updateWhere (fun id _ => picked.contains id)
      (args.claimed db.now)
    some ({ db with eventOutbox := claimed }, picked.filterMap fun id =>
      (claimed.get id).map fun row => mapOutboxEvent host id { row with nextAttemptAt := none })
  else none

def renewLease (db : Db) (consumerId : String) (leaseSeconds : Number) : Db × Nat :=
  if leaseSeconds.isNonPositive then (db, 0)
  else
    let lease := db.now + normalizeLeaseSeconds leaseSeconds * microsPerSecond
    ({ db with
        eventOutbox := db.eventOutbox.updateWhere (fun _ row => row.heldBy consumerId)
          fun row => { row with leaseExpiresAt := some lease } },
      db.eventOutbox.rowCount fun _ row => row.heldBy consumerId)

def releaseClaims (db : Db) (consumerId : String) : Db × Nat :=
  if consumerId = "" then (db, 0)
  else
    ({ db with
        eventOutbox := db.eventOutbox.updateWhere (fun _ row => row.heldBy consumerId)
          OutboxEventRow.released },
      db.eventOutbox.rowCount fun _ row => row.heldBy consumerId)

def isStale (now : Nat) (row : OutboxEventRow) : Bool :=
  row.status == .processing && row.leaseExpired now

def recoverStaleLeases (db : Db) : Db × Nat := ({ db with
      eventOutbox := db.eventOutbox.updateWhere (fun _ row => isStale db.now row)
        OutboxEventRow.released },
    db.eventOutbox.rowCount fun _ row => isStale db.now row)

def publishedRow (now : Nat) (row : OutboxEventRow) : OutboxEventRow := { row with
    status := .published
    processedAt := some now
    consumerId := none
    leaseExpiresAt := none
    publishIdempotencyKey := none }

def markPublished (db : Db) (eventId : Nat) (consumerId : String) : Except String Db :=
  if consumerId = "" then .error (transitionError eventId "markPublished")
  else if (db.eventOutbox.get eventId).any (·.heldBy consumerId) then
    .ok { db with
      eventOutbox := db.eventOutbox.updateWhere (Table.only eventId (·.heldBy consumerId))
        (publishedRow db.now) }
  else .error (transitionError eventId "markPublished")

def keyFree (consumerId : String) (row : OutboxEventRow) : Bool :=
  row.heldBy consumerId && row.publishIdempotencyKey.isNone

def trySetPublishIdempotencyKey (db : Db) (eventId : Nat) (key consumerId : String) : Db × Bool :=
  if key = "" ∨ consumerId = "" then (db, false)
  else
    ({ db with
        eventOutbox := db.eventOutbox.updateWhere (Table.only eventId (keyFree consumerId))
          fun row => { row with publishIdempotencyKey := some key } },
      (db.eventOutbox.get eventId).any (keyFree consumerId))

def clearPublishIdempotencyKey (db : Db) (eventId : Nat) : Db := { db with
    eventOutbox := db.eventOutbox.updateWhere (Table.only eventId fun _ => true)
      fun row => { row with publishIdempotencyKey := none } }

/-- The delay `LEAST(POWER(2, n), 3600)` in seconds; `POWER` is a double and overflows. -/
def backoffSeconds (n : Nat) : Option Nat :=
  if n < 1024 then some (min (2 ^ n) maxBackoffSeconds) else none

/-- The row that `markFailed` writes; `none` when the backoff overflows. -/
def failedRow (now : Nat) (message : String) (row : OutboxEventRow) : Option OutboxEventRow :=
  let failed := { row with
    retryCount := row.retryCount + 1
    errorMessage := some message
    consumerId := none
    leaseExpiresAt := none
    publishIdempotencyKey := none }
  if row.maxRetries ≤ row.retryCount + 1 then
    some { failed with
      status := .deadLetter
      processedAt := some now
      nextAttemptAt := none }
  else
    (backoffSeconds (row.retryCount + 1)).map fun delay => { failed with
      status := .pending
      processedAt := none
      nextAttemptAt := some (now + delay * microsPerSecond) }

def markFailed (host : Host) (db : Db) (eventId : Nat) (errorMessage : String)
    (consumerId : ConsumerArg) : Except String (Db × OutboxEventStatus × Nat) :=
  if !consumerId.isTruthy then .error (transitionError eventId "markFailed")
  else
    match (db.eventOutbox.get eventId).filter (·.heldBy consumerId.sqlText) with
    | none => .error (transitionError eventId "markFailed")
    | some row =>
      match failedRow db.now (host.sanitizeErrorMessage errorMessage) row with
      | none => .error "value out of range: overflow"
      | some failed =>
        .ok ({ db with
            eventOutbox := db.eventOutbox.updateWhere (Table.only eventId fun _ => true)
              fun _ => failed },
          if failed.maxRetries ≤ failed.retryCount then .deadLetter else .pending,
          failed.retryCount)

def quarantineRow (now id : Nat) (reason : OutboxQuarantineReason) (errorMessage : String)
    (row : OutboxEventRow) : OutboxQuarantineRow where
  originalEventId := id
  aggregateType := row.aggregateType
  aggregateId := row.aggregateId
  eventType := row.eventType
  payload := row.payload
  reason := reason
  errorMessage := errorMessage
  retryCount := row.retryCount
  maxRetries := row.maxRetries
  quarantinedAt := now
  reinjectedAt := none
  reinjectedBy := none

def isQuarantined (db : Db) (eventId : Nat) : Bool :=
  (List.range db.outboxQuarantine.nextId).any fun key =>
    (db.outboxQuarantine.get key).any (·.originalEventId == eventId)

/-- `quarantine`: the row is deleted whatever its status, and `ON CONFLICT DO NOTHING` keeps an
earlier entry of the same event. -/
def quarantine (host : Host) (db : Db) (event : OutboxEvent) (reason : OutboxQuarantineReason)
    (errorMessage : String) : Db :=
  if event.status = .published then db
  else
    match db.eventOutbox.get event.id with
    | none => db
    | some row =>
      { db with
        eventOutbox := db.eventOutbox.deleteWhere (Table.only event.id fun _ => true)
        outboxQuarantine :=
          if isQuarantined db event.id then db.outboxQuarantine
          else db.outboxQuarantine.insert (quarantineRow db.now event.id reason
            (host.sanitizeErrorMessage errorMessage) row) }

def reinjectQuarantined (db : Db) (quarantineId : Nat) (fixedPayload : Json)
    (reinjectedBy : String) : Db × Option Nat :=
  if reinjectedBy = "" then (db, none)
  else
    match (db.outboxQuarantine.get quarantineId).filter (·.reinjectedAt.isNone) with
    | none => (db, none)
    | some source =>
      let row := newRow db.now source.aggregateType source.aggregateId source.eventType
        fixedPayload source.maxRetries
      ({ db with
          eventOutbox := db.eventOutbox.insert row
          outboxQuarantine := db.outboxQuarantine.updateWhere
            (Table.only quarantineId fun _ => true) fun entry =>
              { entry with reinjectedAt := some db.now, reinjectedBy := some reinjectedBy } },
        some db.eventOutbox.nextId)

def isExpendable (now : Nat) (config : OutboxCleanupConfig) (row : OutboxEventRow) : Bool :=
  row.processedAt.any fun processedAt =>
    (row.status == .published &&
      decide ((processedAt : Int) < now - config.publishedRetentionDays * microsPerDay)) ||
    (row.status == .failed &&
      decide ((processedAt : Int) < now - config.failedRetentionDays * microsPerDay))

def cleanup (db : Db) (config : OutboxCleanupConfig) : Db × Nat :=
  if config.publishedRetentionDays < 0 ∨ config.failedRetentionDays < 0 then (db, 0)
  else
    ({ db with
        eventOutbox := db.eventOutbox.deleteWhere fun _ row => isExpendable db.now config row },
      db.eventOutbox.rowCount fun _ row => isExpendable db.now config row)

end Credence.Outbox
