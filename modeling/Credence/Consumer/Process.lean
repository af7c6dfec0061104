import Credence.Js.Map
import Credence.ProofKit.Runs

/-! `IdempotentConsumer.process` over one idempotency table, for any calls on any number of
replicas. A step goes from one `await` to the next. -/

namespace Credence.Consumer

open Js

variable {R : Type}

/-- How a result comes back from the column `response_body`: the value that the driver reads,
whether that is a string, and `JSON.parse`. -/
structure JsonTools (R : Type) where
  column : R → R
  asText : R → Option String
  parse : String → Option R

structure IdempotencyRecord (R : Type) where
  responseCode : Nat
  responseBody : R
  deriving DecidableEq

/-- `responseBody` of `findByKey`; `none` when `JSON.parse` throws. -/
def JsonTools.readBody (json : JsonTools R) (body : R) : Option R :=
  match json.asText body with
  | some text => json.parse text
  | none => some body

inductive IdempotentResult (R : Type) where
  | success (result : R)
  | failure (error : String)
  deriving DecidableEq

/-- Of each request to the database it is known whether the statement has been executed (`looked`,
`saved`, `deleted`), and then its reply is on the way. -/
inductive Stage (R : Type) where
  | looking
  | looked (existing : Option (IdempotencyRecord R))
  | following (leader : Nat)
  | running
  | saving (result : R)
  | saved (result : R)
  | deleting (error : String)
  | deleted (error : String)
  | returned (result : IdempotentResult R)
  | rejected
  deriving DecidableEq

structure Call (R : Type) where
  replica : Nat
  messageId : String
  stage : Stage R

structure Completion (R : Type) where
  call : Nat
  messageId : String
  result : R
  deriving DecidableEq

/-- `inflight` is the map of each replica, by message. -/
structure World (R : Type) where
  calls : List (Call R)
  inflight : List ((Nat × String) × Nat)
  table : List (String × IdempotencyRecord R)
  completions : List (Completion R)

def World.start : World R := ⟨[], [], [], []⟩

inductive Action (R : Type) where
  | process (replica : Nat) (messageId : String)
  | execute (call : Nat)
  | reply (call : Nat)
  | fail (call : Nat) (error : String)
  | resolve (call : Nat) (result : R)
  | throw (call : Nat) (error : String)
  | follow (call : Nat)

/-- What a step does to the row of the message and to the entry of `inflight`. -/
inductive Change (α : Type) where
  | keep
  | set (value : α)
  | delete

def Change.apply {κ α : Type} [DecidableEq κ] (key : κ) (entries : List (κ × α)) :
    Change α → List (κ × α)
  | keep => entries
  | set value => Map.set key value entries
  | delete => Map.delete key entries

structure Move (R : Type) where
  stage : Stage R
  table : Change (IdempotencyRecord R)
  inflight : Change Nat
  completes : Option R

def Move.to (stage : Stage R) : Move R := ⟨stage, .keep, .keep, none⟩

def Move.finish (result : IdempotentResult R) : Move R := ⟨.returned result, .keep, .delete, none⟩

/-- `process` from the reply of `findByKey` on. -/
def resume (json : JsonTools R) (id : Nat) (active : Option Nat) :
    Option (IdempotencyRecord R) → Move R
  | some existing =>
    match json.readBody existing.responseBody with
    | none => .to .rejected
    | some body =>
      if existing.responseCode < 400 then .to (.returned (.success body))
      else enter active
  | none => enter active
where
  enter : Option Nat → Move R
  | some leader => .to (.following leader)
  | none => ⟨.running, .keep, .set id, none⟩

/-- What a call sees: the row of its message, the entry of `inflight`, and the stage of a call. -/
structure View (R : Type) where
  row : Option (IdempotencyRecord R)
  active : Option Nat
  stageOf : Nat → Option (Stage R)

def advance (json : JsonTools R) (view : View R) : Action R → Stage R → Option (Move R)
  | .execute _, .looking => some (.to (.looked view.row))
  | .execute _, .saving result =>
    some ⟨.saved result, .set ⟨200, json.column result⟩, .keep, none⟩
  | .execute _, .deleting error => some ⟨.deleted error, .delete, .keep, none⟩
  | .reply id, .looked existing => some (resume json id view.active existing)
  | .reply _, .saved result => some (.finish (.success result))
  | .reply _, .deleted error => some (.finish (.failure error))
  | .fail _ _, .looking => some (.to .rejected)
  | .fail _ _, .looked _ => some (.to .rejected)
  | .fail _ error, .saving _ => some (.to (.deleting error))
  | .fail _ error, .saved _ => some (.to (.deleting error))
  | .fail _ _, .deleting error => some (.finish (.failure error))
  | .fail _ _, .deleted error => some (.finish (.failure error))
  | .resolve _ result, .running => some ⟨.saving result, .keep, .keep, some result⟩
  | .throw _ error, .running => some (.to (.deleting error))
  | .follow _, .following leader =>
    match view.stageOf leader with
    | some (.returned result) => some (.to (.returned result))
    | _ => none
  | _, _ => none

def Action.call : Action R → Option Nat
  | process _ _ => none
  | execute id | reply id | fail id _ | resolve id _ | throw id _ | follow id => some id

def World.view (w : World R) (call : Call R) : View R where
  row := Map.get call.messageId w.table
  active := Map.get (call.replica, call.messageId) w.inflight
  stageOf id := w.calls[id]?.map Call.stage

def World.take (w : World R) (id : Nat) (call : Call R) (move : Move R) : World R where
  calls := w.calls.set id { call with stage := move.stage }
  inflight := move.inflight.apply (call.replica, call.messageId) w.inflight
  table := move.table.apply call.messageId w.table
  completions :=
    w.completions ++ (move.completes.map fun result => ⟨id, call.messageId, result⟩).toList

def step (json : JsonTools R) (action : Action R) (w : World R) : Option (World R) :=
  match action with
  | .process replica messageId =>
    some { w with calls := w.calls ++ [⟨replica, messageId, .looking⟩] }
  | action => do
    let id ← action.call
    let call ← w.calls[id]?
    let move ← advance json (w.view call) action call.stage
    return w.take id call move

end Credence.Consumer
