import Credence.Js.Map
import Credence.Js.Text
import Credence.Lib.StateTransition

/-! `HorizonListener.handleEvent` over the in-memory repository. A method returns its result
together with the repository after it, since an exception undoes nothing. -/

namespace Credence.Ingestion

open Js Lib

structure HorizonEvent where
  type : String
  nodeId : Option String
  amount : Option String
  penalty : Option String
  pagingToken : Option String

inductive HorizonIngestionState where
  | active
  | slashed
  | withdrawn
  deriving DecidableEq

def HorizonIngestionState.text : HorizonIngestionState → String
  | active => "active"
  | slashed => "slashed"
  | withdrawn => "withdrawn"

/-- A map from strings to sets of strings, asked about what a repository returns, whether or not it
is an ingestion state. -/
def horizonIngestionTransitions : TransitionMatrix String where
  transitions :=
    [⟨"active", "slashed", some "slash"⟩, ⟨"active", "withdrawn", some "withdraw"⟩,
      ⟨"slashed", "withdrawn", some "withdraw"⟩]
  nodup := by decide

inductive RejectionCode where
  | invalidStateTransition
  | nodeNotIngested
  deriving DecidableEq

inductive IngestionTransitionDecision where
  | applied
  | noop (current : String)
  | rejected (code : RejectionCode) (current : Option String) (requested : HorizonIngestionState)

def resolveIngestionTransition (current : Option String) (requested : HorizonIngestionState) :
    IngestionTransitionDecision :=
  match current with
  | none => .rejected .nodeNotIngested none requested
  | some status =>
    if status = requested.text then .noop status
    else if horizonIngestionTransitions.isValid status requested.text then .applied
    else .rejected .invalidStateTransition (some status) requested

structure HorizonIngestionTransitionError where
  code : RejectionCode
  nodeId : String
  eventType : String
  current : Option String
  requested : HorizonIngestionState
  deriving DecidableEq

def HorizonIngestionTransitionError.message (e : HorizonIngestionTransitionError) : String :=
  let current := e.current.getD "(none)"
  match e.code with
  | .nodeNotIngested =>
    "Horizon ingestion rejected: " ++ e.eventType ++ " for node " ++ e.nodeId ++
      " references a node that has never been ingested (current=" ++ current ++ ", requested=" ++
      e.requested.text ++ "). Reconcile the gap before re-ingesting."
  | .invalidStateTransition =>
    "Horizon ingestion rejected: illegal lifecycle transition for node " ++ e.nodeId ++
      " (current=" ++ current ++ ", requested=" ++ e.requested.text ++ ", event=" ++ e.eventType ++
      ")."

inductive NodeStatus where
  | pending
  | confirmed
  | completed
  | failed
  deriving DecidableEq

namespace NodeStatus

def text : NodeStatus → String
  | pending => "pending"
  | confirmed => "confirmed"
  | completed => "completed"
  | failed => "failed"

/-- The test `isValidStatus`, with the status that it finds. -/
def ofText (status : String) : Option NodeStatus :=
  [pending, confirmed, completed, failed].find? fun s => s.text = status

def allowed : NodeStatus → List NodeStatus
  | pending => [confirmed, failed]
  | confirmed => [completed, failed]
  | completed => []
  | failed => [pending]

end NodeStatus

structure Node where
  amount : String
  status : NodeStatus
  deriving DecidableEq

abbrev Repository := List (String × Node)

inductive IngestionError where
  | malformed
  | transition (e : HorizonIngestionTransitionError)
  | repository (message : String)
  deriving DecidableEq

def IngestionError.message : IngestionError → String
  | malformed => "Malformed event payload: missing required fields"
  | transition e => e.message
  | repository message => message

abbrev Result (α : Type) := Except IngestionError α × Repository

namespace Repository

def upsertNode (nodeId amount : String) (nodes : Repository) : Result Bool :=
  if nodeId = "" then (.error (.repository "upsertNode: nodeId must be a non-empty string"), nodes)
  else if trim amount.toList = [] then
    (.error (.repository "upsertNode: amount must be a non-empty string"), nodes)
  else
    match Map.get nodeId nodes with
    | some existing =>
      if existing.amount = amount then (.ok false, nodes)
      else (.ok true, Map.set nodeId { existing with amount } nodes)
    | none => (.ok true, Map.set nodeId ⟨amount, .pending⟩ nodes)

def updateNodeStatus (nodeId status : String) (amount : Option String) (nodes : Repository) :
    Result Bool :=
  if nodeId = "" then
    (.error (.repository "updateNodeStatus: nodeId must be a non-empty string"), nodes)
  else
    match NodeStatus.ofText status with
    | none =>
      (.error (.repository ("updateNodeStatus: unknown status \"" ++ status ++ "\"")), nodes)
    | some next =>
      match Map.get nodeId nodes with
      | none => (.ok false, nodes)
      | some existing =>
        if existing.status = next then (.ok false, nodes)
        else if next ∈ existing.status.allowed then
          (.ok true, Map.set nodeId ⟨amount.getD existing.amount, next⟩ nodes)
        else
          (.error (.repository ("updateNodeStatus: illegal transition " ++ existing.status.text ++
            " -> " ++ next.text ++ " for node " ++ nodeId)), nodes)

def getNodeStatus (nodeId : String) (nodes : Repository) : Except IngestionError (Option String) :=
  if nodeId = "" then .error (.repository "getNodeStatus: nodeId must be a non-empty string")
  else .ok ((Map.get nodeId nodes).map fun node => node.status.text)

end Repository

/-- A field that JavaScript takes for true: there and not empty. -/
def present (field : Option String) : Option String := field.filter (· ≠ "")

def isAppliedTransition (nodeId : String) (requested : HorizonIngestionState) (eventType : String)
    (nodes : Repository) : Except IngestionError Bool :=
  match Repository.getNodeStatus nodeId nodes with
  | .error e => .error e
  | .ok status =>
    match resolveIngestionTransition status requested with
    | .rejected code current requested =>
      .error (.transition ⟨code, nodeId, eventType, current, requested⟩)
    | .applied => .ok true
    | .noop _ => .ok false

/-- Read, validate, write: the cases `slash` and `withdrawal`. -/
def applyTransition (nodeId : String) (requested : HorizonIngestionState) (eventType : String)
    (amount : Option String) (nodes : Repository) : Result Unit :=
  match isAppliedTransition nodeId requested eventType nodes with
  | .error e => (.error e, nodes)
  | .ok false => (.ok (), nodes)
  | .ok true =>
    let (result, nodes') := Repository.updateNodeStatus nodeId requested.text amount nodes
    (result.map fun _ => (), nodes')

def handleEvent (event : HorizonEvent) (nodes : Repository) : Result Unit :=
  match present event.nodeId with
  | none => (.error .malformed, nodes)
  | some nodeId =>
    if event.type = "" then (.error .malformed, nodes)
    else if event.type = "bond" then
      match present event.amount with
      | none => (.error .malformed, nodes)
      | some amount =>
        let (result, nodes') := Repository.upsertNode nodeId amount nodes
        (result.map fun _ => (), nodes')
    else if event.type = "slash" then
      match present event.penalty with
      | none => (.error .malformed, nodes)
      | some penalty => applyTransition nodeId .slashed event.type (some penalty) nodes
    else if event.type = "withdrawal" then
      applyTransition nodeId .withdrawn event.type none nodes
    else (.ok (), nodes)

end Credence.Ingestion
