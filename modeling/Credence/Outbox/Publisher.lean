import Credence.Outbox.Effects
import Credence.ProofKit.Grouping

/-! `OutboxPublisher` as a system: any number of activations of `processBatch` over one database,
interleaved between any two statements. -/

namespace Credence.Outbox

open Js ProofKit

structure OutboxPublisherConfig where
  consumerId : String
  batchSize : Number
  leaseSeconds : Number
  maxPayloadBytes : Nat
  shardCount : Option Number
  shardId : Option Number

def checkShard : Option Number → Option Number → Except String Unit
  | none, none => .ok ()
  | some count, some id =>
    if !count.isInteger || count.isNonPositive then
      .error "shardCount must be a positive integer"
    else if !id.isInteger || id.floor < 0 || count.floor ≤ id.floor then
      .error "shardId must be a non-negative integer less than shardCount"
    else .ok ()
  | _, _ => .error "Both shardCount and shardId must be provided if either is set"

def OutboxPublisherConfig.claimArgs (config : OutboxPublisherConfig) : ClaimArgs :=
  ⟨config.consumerId, config.batchSize, config.leaseSeconds, config.shardCount, config.shardId⟩

/-- The event types of `QUEUE_EVENT_SCHEMAS`. -/
def queueEventTypes : List String :=
  ["attestation.event", "attestation.add", "attestation.revoke", "bond.creation", "bond.create",
    "withdrawal.event", "bond.withdrawal"]

def knownOutboxEventTypes : List String :=
  ["bond.created", "bond.slashed", "bond.withdrawn", "attestation.created",
    "attestation.revoked"] ++ queueEventTypes

structure PoisonPillDetection where
  reason : OutboxQuarantineReason
  message : String

/-- The text of one schema issue; the source's template prints `.join('.')` and a brace. -/
def issueText (issue : String × String) : String := issue.1 ++ ".join('.')\x7d: " ++ issue.2

def detectPoisonPill (host : Host) (config : OutboxPublisherConfig) (event : OutboxEvent) :
    Option PoisonPillDetection :=
  match event.payloadParseError.filter (· ≠ "") with
  | some message => some ⟨.malformedJson, message⟩
  | none =>
    if event.rawPayload.any fun raw => config.maxPayloadBytes < raw.utf8ByteSize then
      some ⟨.oversizedPayload, "payload exceeds " ++ toString config.maxPayloadBytes ++ " bytes"⟩
    else if !knownOutboxEventTypes.contains event.eventType then
      some ⟨.unknownEventType, "unknown event type " ++ event.eventType⟩
    else if queueEventTypes.contains event.eventType then
      match host.safeParse event.eventType event.payload with
      | [] => none
      | issues => some ⟨.schemaInvalid, String.intercalate "; " (issues.map issueText)⟩
    else none

/-- The statement that `processEvent` is about to send, the call of `publish` that it is about to
make, or the call that it waits for. In `fail`, `nested` says whether the outer `catch` handles the
failure. -/
inductive Stage where
  | done
  | quarantine (reason : OutboxQuarantineReason) (message : String)
  | markSkipped
  | setKey
  | publish
  | publishing
  | markPublished
  | fail (nested : Bool) (message : String)
  deriving DecidableEq

def hasKey (event : OutboxEvent) : Bool := event.publishIdempotencyKey.any (· ≠ "")

def startStage (host : Host) (config : OutboxPublisherConfig) : List OutboxEvent → Stage
  | [] => .done
  | event :: _ =>
    match detectPoisonPill host config event with
    | some poison => .quarantine poison.reason poison.message
    | none => if hasKey event then .markSkipped else .setKey

structure Activation where
  config : OutboxPublisherConfig
  todo : List OutboxEvent
  stage : Stage

def buildPublishIdempotencyKey (consumerId : String) (eventId : Nat) : String :=
  "outbox-pub:" ++ consumerId ++ ":" ++ toString eventId

def aggregateKey (event : OutboxEvent) : String := event.aggregateType ++ ":" ++ event.aggregateId

def groupByAggregate (events : List OutboxEvent) : List (String × List OutboxEvent) :=
  groupByKey aggregateKey events

namespace Activation

variable (host : Host)

def start (config : OutboxPublisherConfig) (events : List OutboxEvent) : Activation :=
  let todo := (groupByAggregate events).flatMap Prod.snd
  ⟨config, todo, startStage host config todo⟩

def next (a : Activation) : Activation :=
  { a with todo := a.todo.tail, stage := startStage host a.config a.todo.tail }

def abort (a : Activation) : Activation := { a with todo := [], stage := .done }

/-- The argument that `handlePublishFailure` passes as the consumer. -/
def failureArg (event : OutboxEvent) : ConsumerArg :=
  .bool (event.maxRetries ≤ event.retryCount + 1)

def trySetKey (db : Db) (a : Activation) (event : OutboxEvent) : Db × Bool :=
  trySetPublishIdempotencyKey db event.id
    (buildPublishIdempotencyKey a.config.consumerId event.id) a.config.consumerId

def advance (db : Db) (a : Activation) : Option (Db × Activation) :=
  match a.todo with
  | [] => none
  | event :: _ =>
    match a.stage with
    | .quarantine reason message => some (quarantine host db event reason message, a.next host)
    | .markSkipped =>
      match Outbox.markPublished db event.id a.config.consumerId with
      | .ok db' => some (db', a.next host)
      | .error _ => some (db, a.abort)
    | .setKey =>
      some ((a.trySetKey db event).1,
        { a with stage := if (a.trySetKey db event).2 then .publish else .markSkipped })
    | .markPublished =>
      match Outbox.markPublished db event.id a.config.consumerId with
      | .ok db' => some (db', a.next host)
      | .error message => some (db, { a with stage := .fail false message })
    | .fail nested message =>
      match markFailed host db event.id message (failureArg event) with
      | .ok (db', _) => some (db', a.next host)
      | .error error =>
        some (db, if nested then a.abort else { a with stage := .fail true error })
    | .done | .publish | .publishing => none

end Activation

/-- What has been observed: a call of `publish` for an event, a call that returned, and a row that
`cleanup` deleted. -/
inductive Entry where
  | called (eventId : Nat)
  | returned (eventId : Nat)
  | purged (eventId : Nat) (status : OutboxEventStatus)
  deriving DecidableEq

structure System where
  db : Db
  activations : List Activation
  log : List Entry

def System.start : System := ⟨⟨0, .empty, .empty⟩, [], []⟩

/-- A step of the system. `refuse` is an exception between the key and the call of `publish`, and
`crash` ends an activation at any point. -/
inductive Action where
  | tick (elapsed : Nat)
  | create (event : CreateOutboxEvent)
  | reinjectQuarantined (quarantineId : Nat) (fixedPayload : Json) (reinjectedBy : String)
  | renewLease (consumerId : String) (leaseSeconds : Number)
  | releaseClaims (consumerId : String)
  | recoverStaleLeases
  | cleanup (config : OutboxCleanupConfig)
  | processBatch (config : OutboxPublisherConfig) (picked : List Nat)
  | advance (worker : Nat)
  | publish (worker : Nat)
  | refuse (worker : Nat) (nested : Bool) (message : String)
  | publishReturns (worker : Nat)
  | publishThrows (worker : Nat) (message : String)
  | crash (worker : Nat)

namespace System

def settle (s : System) : Except String Db → System
  | .ok db => { s with db := db }
  | .error _ => s

def setActivation (s : System) (worker : Nat) (a : Activation) : System :=
  { s with activations := s.activations.set worker a }

def atStage (s : System) (worker : Nat) (stage : Stage) : Option (Activation × OutboxEvent) :=
  s.activations[worker]?.bind fun a =>
    if a.stage = stage then a.todo.head?.map fun event => (a, event) else none

def purgedRows (db : Db) (config : OutboxCleanupConfig) : List Entry :=
  if config.publishedRetentionDays < 0 ∨ config.failedRetentionDays < 0 then []
  else (List.range db.eventOutbox.nextId).filterMap fun id =>
    ((db.eventOutbox.get id).filter (isExpendable db.now config)).map fun row =>
      .purged id row.status

def step (host : Host) : Action → System → Option System
  | .tick elapsed, s => some { s with db := { s.db with now := s.db.now + elapsed } }
  | .create event, s => some (s.settle ((Outbox.create s.db event).map Prod.fst))
  | .reinjectQuarantined quarantineId fixedPayload reinjectedBy, s =>
    some { s with db := (Outbox.reinjectQuarantined s.db quarantineId fixedPayload reinjectedBy).1 }
  | .renewLease consumerId leaseSeconds, s =>
    some { s with db := (Outbox.renewLease s.db consumerId leaseSeconds).1 }
  | .releaseClaims consumerId, s => some { s with db := (Outbox.releaseClaims s.db consumerId).1 }
  | .recoverStaleLeases, s => some { s with db := (Outbox.recoverStaleLeases s.db).1 }
  | .cleanup config, s =>
    some { s with db := (Outbox.cleanup s.db config).1, log := s.log ++ purgedRows s.db config }
  | .processBatch config picked, s =>
    match checkShard config.shardCount config.shardId with
    | .error _ => none
    | .ok () =>
      (claimEvents host s.db config.claimArgs picked).map fun (db, events) =>
        { s with db := db, activations := s.activations ++ [.start host config events] }
  | .advance worker, s =>
    s.activations[worker]?.bind fun a =>
      (a.advance host s.db).map fun (db, a') => { s with db := db }.setActivation worker a'
  | .publish worker, s =>
    (s.atStage worker .publish).map fun (a, event) =>
      { s with log := s.log ++ [Entry.called event.id] }.setActivation worker
        { a with stage := .publishing }
  | .refuse worker nested message, s =>
    (s.atStage worker .publish).map fun (a, _) =>
      s.setActivation worker { a with stage := .fail nested message }
  | .publishReturns worker, s =>
    (s.atStage worker .publishing).map fun (a, event) =>
      { s with log := s.log ++ [Entry.returned event.id] }.setActivation worker
        { a with stage := .markPublished }
  | .publishThrows worker message, s =>
    (s.atStage worker .publishing).map fun (a, _) =>
      s.setActivation worker { a with stage := .fail false message }
  | .crash worker, s =>
    s.activations[worker]?.map fun a => s.setActivation worker a.abort

end System

def bondWorker (consumerId : String) (batchSize : Number) : OutboxPublisherConfig :=
  ⟨consumerId, batchSize, 300, 262144, none, none⟩

def bondCreated (aggregateId : String) : CreateOutboxEvent :=
  ⟨"bond", aggregateId, "bond.created", .obj [], none⟩

theorem atStage_eq {s : System} {worker : Nat} {stage : Stage} {a : Activation}
    {event : OutboxEvent} :
    s.atStage worker stage = some (a, event) ↔
      s.activations[worker]? = some a ∧ a.stage = stage ∧ a.todo.head? = some event := by
  simp only [System.atStage, Option.bind_eq_some_iff]
  constructor
  · rintro ⟨b, hb, h⟩
    split at h
    · obtain ⟨e, he, hp⟩ := Option.map_eq_some_iff.mp h
      cases hp
      exact ⟨hb, ‹_›, he⟩
    · cases h
  · rintro ⟨ha, hs, hv⟩
    exact ⟨a, ha, by rw [if_pos hs, hv]; rfl⟩

/-- The statements that an activation can send for its first event, with the tables and the
activation after each. -/
inductive Activation.Advances (host : Host) (db : Db) (a : Activation) (event : OutboxEvent) :
    Db → Activation → Prop
  | quarantined {reason : OutboxQuarantineReason} {message : String}
      (hStage : a.stage = .quarantine reason message) :
      Advances host db a event (quarantine host db event reason message) (a.next host)
  | marked {db' : Db} (hStage : a.stage = .markSkipped ∨ a.stage = .markPublished)
      (hMark : Outbox.markPublished db event.id a.config.consumerId = .ok db') :
      Advances host db a event db' (a.next host)
  | acquired (hStage : a.stage = .setKey)
      (hKey : (a.trySetKey db event).2 = true) :
      Advances host db a event (a.trySetKey db event).1 { a with stage := .publish }
  | taken (hStage : a.stage = .setKey)
      (hKey : (a.trySetKey db event).2 = false) :
      Advances host db a event (a.trySetKey db event).1 { a with stage := .markSkipped }
  | failed {nested : Bool} {message : String} {db' : Db} {result : OutboxEventStatus × Nat}
      (hStage : a.stage = .fail nested message)
      (hFail : markFailed host db event.id message (failureArg event) = .ok (db', result)) :
      Advances host db a event db' (a.next host)
  | threw {nested : Bool} {message : String} :
      Advances host db a event db { a with stage := .fail nested message }
  | aborted : Advances host db a event db a.abort

theorem Activation.advance_cases {host : Host} {db db' : Db} {a a' : Activation}
    (h : a.advance host db = some (db', a')) :
    ∃ event rest, a.todo = event :: rest ∧ a.Advances host db event db' a' := by
  unfold advance at h
  split at h
  · cases h
  · rename_i event rest ht
    refine ⟨event, rest, ht, ?_⟩
    split at h
    · rename_i reason message hs
      cases h
      exact .quarantined hs
    · rename_i hs
      split at h
      · rename_i hm
        cases h
        exact .marked (.inl hs) hm
      · cases h
        exact .aborted
    · rename_i hs
      cases h
      cases hk : (a.trySetKey db event).2 with
      | true => exact .acquired hs hk
      | false => exact .taken hs hk
    · rename_i hs
      split at h
      · rename_i hm
        cases h
        exact .marked (.inr hs) hm
      · cases h
        exact .threw
    · rename_i nested message hs
      split at h
      · rename_i hf
        cases h
        exact .failed hs hf
      · cases h
        cases nested with
        | true => exact .aborted
        | false => exact .threw
    all_goals cases h

end Credence.Outbox
