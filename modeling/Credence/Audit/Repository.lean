import Credence.Crypto.Sha256
import Credence.Js.JsonRoundTrip
import Credence.ProofKit.Walk
import Mathlib.Data.List.Induction

/-! `InMemoryAuditLogsRepository`: audit entries, the hash of a row and the calls that append rows.
The hash function is any `TextHash`. -/

namespace Credence.Audit

open Js Crypto ProofKit

inductive AuditStatus where
  | success
  | failure
  deriving DecidableEq

def AuditStatus.text : AuditStatus → String
  | success => "success"
  | failure => "failure"

/-- A value that JavaScript can hold: properties are in the order in which objects list them. -/
structure JsValue where
  json : Json
  ownOrder : json.OwnOrder

/-- The source also looks for older names of the actor fields; the empty text stands for a missing
tenant. -/
structure AuditLogInput where
  actorId : Option String
  actor_id : Option String
  adminId : Option String
  actorEmail : Option String
  actor_email : Option String
  adminEmail : Option String
  action : String
  resourceType : String
  resourceId : String
  details : Option JsValue
  status : Option AuditStatus
  ipAddress : Option String
  errorMessage : Option String
  tenantId : String
  requestId : Option String
  occurredAt : Option String

structure AuditLogEntry where
  id : String
  timestamp : String
  actorId : String
  actorEmail : String
  adminId : String
  adminEmail : String
  action : String
  resourceType : String
  resourceId : String
  targetUserId : String
  targetUserEmail : Option String
  details : Json
  status : AuditStatus
  ipAddress : Option String
  errorMessage : Option String
  tenantId : String
  requestId : Option String
  seq : Option Nat
  prevHash : Option String
  rowHash : Option String

def rowText (prevHash : Option String) (id occurredAt actorId action resourceType resourceId
    detailsJson status tenantId requestId : String) : String :=
  String.intercalate "|" [prevHash.getD "GENESIS", id, occurredAt, actorId, action, resourceType,
    resourceId, detailsJson, status, tenantId, requestId]

def computeRowHash (hash : TextHash) (prevHash : Option String) (id occurredAt actorId action
    resourceType resourceId detailsJson status tenantId requestId : String) : String :=
  hash.digest (rowText prevHash id occurredAt actorId action resourceType resourceId detailsJson
    status tenantId requestId)

def AuditLogEntry.hashAfter (hash : TextHash) (prevHash : Option String) (entry : AuditLogEntry) :
    String :=
  computeRowHash hash prevHash entry.id entry.timestamp entry.actorId entry.action
    entry.resourceType entry.resourceId entry.details.stringify entry.status.text entry.tenantId
    (entry.requestId.getD "")

def resolveActorId (input : AuditLogInput) : String :=
  (input.actorId <|> input.actor_id <|> input.adminId).getD "unknown"

def resolveActorEmail (input : AuditLogInput) : String :=
  (input.actorEmail <|> input.actor_email <|> input.adminEmail).getD "unknown@unknown"

def AuditLogInput.detailsJson (input : AuditLogInput) : Json :=
  (input.details.map JsValue.json).getD (.obj [])

/-- The text at `targetUserEmail` of the details, when there is one. -/
def targetUserEmail : Json → Option String
  | .obj props =>
    match props.lookup "targetUserEmail" with
    | some (.str email) => some email
    | _ => none
  | _ => none

/-- `JSON.parse(JSON.stringify(details))`. -/
def cloneDetails (details : Json) : Option Json := Json.parse details.stringify

def cloneEntry (entry : AuditLogEntry) : Option AuditLogEntry :=
  (cloneDetails entry.details).map fun details => { entry with details := details }

structure InMemory where
  logs : List AuditLogEntry
  seqCounter : Nat

structure Fresh where
  uuid : String
  now : String

def newEntry (hash : TextHash) (prevHash : Option String) (seq : Nat) (fresh : Fresh)
    (input : AuditLogInput) : AuditLogEntry :=
  let entry : AuditLogEntry :=
    { id := fresh.uuid
      timestamp := input.occurredAt.getD fresh.now
      actorId := resolveActorId input
      actorEmail := resolveActorEmail input
      adminId := resolveActorId input
      adminEmail := resolveActorEmail input
      action := input.action
      resourceType := input.resourceType
      resourceId := input.resourceId
      targetUserId := input.resourceId
      targetUserEmail := targetUserEmail input.detailsJson
      details := input.detailsJson
      status := input.status.getD .success
      ipAddress := input.ipAddress
      errorMessage := input.errorMessage
      tenantId := input.tenantId
      requestId := input.requestId
      seq := some seq
      prevHash := prevHash
      rowHash := none }
  { entry with rowHash := some (entry.hashAfter hash prevHash) }

namespace InMemory

def start : InMemory := ⟨[], 0⟩

def lastHash (s : InMemory) : Option String := s.logs.getLast?.bind AuditLogEntry.rowHash

/-- `append` clones the details into the entry, the entry into the log and that into the result; a
clone that fails leaves what was done before. -/
def append (hash : TextHash) (s : InMemory) (fresh : Fresh) (input : AuditLogInput) :
    InMemory × Except String AuditLogEntry :=
  if input.tenantId = "" then
    (s, .error "AuditLogRepository.append requires tenantId for tenant isolation")
  else
    let counted := { s with seqCounter := s.seqCounter + 1 }
    let entry := newEntry hash s.lastHash (s.seqCounter + 1) fresh input
    match (cloneEntry entry).bind cloneEntry with
    | none => (counted, .error "SyntaxError")
    | some frozen =>
      match cloneEntry frozen with
      | none => ({ counted with logs := s.logs ++ [frozen] }, .error "SyntaxError")
      | some returned => ({ counted with logs := s.logs ++ [frozen] }, .ok returned)

def appendBatch (hash : TextHash) :
    InMemory → List (Fresh × AuditLogInput) → InMemory × Except String (List AuditLogEntry)
  | s, [] => (s, .ok [])
  | s, (fresh, input) :: inputs =>
    match s.append hash fresh input with
    | (s', .error message) => (s', .error message)
    | (s', .ok entry) =>
      match appendBatch hash s' inputs with
      | (s'', .ok entries) => (s'', .ok (entry :: entries))
      | (s'', .error message) => (s'', .error message)

def getAll (s : InMemory) : Option (List AuditLogEntry) := s.logs.mapM cloneEntry

end InMemory

inductive Call where
  | append (fresh : Fresh) (input : AuditLogInput)
  | appendBatch (inputs : List (Fresh × AuditLogInput))

def InMemory.after (hash : TextHash) (s : InMemory) : Call → InMemory
  | .append fresh input => (s.append hash fresh input).1
  | .appendBatch inputs => (s.appendBatch hash inputs).1

def InMemory.afterAll (hash : TextHash) (calls : List Call) : InMemory :=
  calls.foldl (InMemory.after hash) .start

/-- The row continues the chain: it has the next number, points to the row before and has the hash
of its contents. -/
def Continues (hash : TextHash) (tip : Option String × Nat) (entry : AuditLogEntry) : Prop :=
  entry.seq = some tip.2 ∧ entry.prevHash = tip.1 ∧
    entry.rowHash = some (entry.hashAfter hash tip.1)

def advanceChain (tip : Option String × Nat) (entry : AuditLogEntry) : Option String × Nat :=
  (entry.rowHash, tip.2 + 1)

def IsChain (hash : TextHash) (rows : List AuditLogEntry) : Prop :=
  Follows (Continues hash) advanceChain (none, 1) rows

theorem carry_advanceChain (rows : List AuditLogEntry) : carry advanceChain (none, 1) rows =
      (rows.getLast?.bind AuditLogEntry.rowHash, rows.length + 1) := by
  induction rows using List.reverseRecOn with
  | nil => rfl
  | append_singleton rows row ih =>
    rw [carry_snoc, ih]
    simp [advanceChain]

/-- The logs are a chain that the counter counts. -/
structure InMemory.Sound (hash : TextHash) (s : InMemory) : Prop where
  chain : IsChain hash s.logs
  counter : s.seqCounter = s.logs.length
  ownOrder : ∀ entry ∈ s.logs, entry.details.OwnOrder

theorem cloneEntry_eq {entry : AuditLogEntry} (h : entry.details.OwnOrder) :
    cloneEntry entry = some entry := by
  rw [cloneEntry, cloneDetails, Json.parse_stringify h]
  rfl

theorem ownOrder_detailsJson (input : AuditLogInput) : input.detailsJson.OwnOrder := by
  cases hd : input.details with
  | none => simp [AuditLogInput.detailsJson, hd, Json.OwnOrder, Json.OwnOrderValues]
  | some value => simpa [AuditLogInput.detailsJson, hd] using value.ownOrder

namespace InMemory

variable {hash : TextHash} {s : InMemory}

variable {input : AuditLogInput}

theorem append_eq (s : InMemory) (fresh : Fresh) (ht : input.tenantId ≠ "") :
    s.append hash fresh input =
      (⟨s.logs ++ [newEntry hash s.lastHash (s.seqCounter + 1) fresh input], s.seqCounter + 1⟩,
        .ok (newEntry hash s.lastHash (s.seqCounter + 1) fresh input)) := by
  have hc : cloneEntry (newEntry hash s.lastHash (s.seqCounter + 1) fresh input) =
      some (newEntry hash s.lastHash (s.seqCounter + 1) fresh input) :=
    cloneEntry_eq (ownOrder_detailsJson input)
  simp only [append, if_neg ht, hc, Option.bind_some]

theorem Sound.append (hs : s.Sound hash) (fresh : Fresh) (input : AuditLogInput) :
    (s.append hash fresh input).1.Sound hash := by
  by_cases ht : input.tenantId = ""
  · rw [InMemory.append, if_pos ht]
    exact hs
  · rw [append_eq s fresh ht]
    refine ⟨?_, by simp [hs.counter], ?_⟩
    · refine follows_snoc.mpr ⟨hs.chain, ?_⟩
      rw [carry_advanceChain, hs.counter]
      exact ⟨rfl, rfl, rfl⟩
    · intro entry he
      rcases List.mem_append.mp he with ho | hn
      · exact hs.ownOrder entry ho
      · obtain rfl := List.mem_singleton.mp hn
        exact ownOrder_detailsJson input

theorem appendBatch_cons (s : InMemory) (fresh : Fresh) (ht : input.tenantId ≠ "")
    (inputs : List (Fresh × AuditLogInput)) :
    (s.appendBatch hash ((fresh, input) :: inputs)).1 =
      ((s.append hash fresh input).1.appendBatch hash inputs).1 := by
  rw [appendBatch, append_eq s fresh ht]
  simp only
  split
  · rename_i hr
    rw [hr]
  · rename_i hr
    rw [hr]

theorem Sound.appendBatch (hs : s.Sound hash) (inputs : List (Fresh × AuditLogInput)) :
    (s.appendBatch hash inputs).1.Sound hash := by
  induction inputs generalizing s with
  | nil => exact hs
  | cons first inputs ih =>
    obtain ⟨fresh, input⟩ := first
    by_cases ht : input.tenantId = ""
    · rw [InMemory.appendBatch, InMemory.append, if_pos ht]
      exact hs
    · rw [appendBatch_cons s fresh ht inputs]
      exact ih (hs.append fresh input)

theorem sound_start : start.Sound hash := ⟨trivial, rfl, by simp [start]⟩

theorem Sound.after (hs : s.Sound hash) (call : Call) : (s.after hash call).Sound hash := by
  cases call with
  | append fresh input => exact hs.append fresh input
  | appendBatch inputs => exact hs.appendBatch inputs

theorem Sound.afterCalls (hs : s.Sound hash) (calls : List Call) :
    (calls.foldl (InMemory.after hash) s).Sound hash := by
  induction calls generalizing s with
  | nil => exact hs
  | cons call calls ih => exact ih (hs.after call)

theorem sound_afterAll (calls : List Call) : (afterAll hash calls).Sound hash :=
  sound_start.afterCalls calls

theorem mapM_cloneEntry {logs : List AuditLogEntry}
    (h : ∀ entry ∈ logs, entry.details.OwnOrder) : logs.mapM cloneEntry = some logs := by
  induction logs with
  | nil => rfl
  | cons entry logs ih =>
    rw [List.mapM_cons, cloneEntry_eq (h entry (List.mem_cons_self ..)),
      ih fun e he => h e (List.mem_cons_of_mem _ he)]
    rfl

theorem Sound.getAll (hs : s.Sound hash) : s.getAll = some s.logs := mapM_cloneEntry hs.ownOrder

end InMemory

end Credence.Audit
