import Credence.Js.Map
import Credence.ProofKit.Runs

/-! `IdempotentNotificationJob.execute` on one job key. A statement and what follows it up to the
next statement or the end of `job.run` are one step, at the time of its `NOW()` in microseconds;
calls may crash. -/

namespace Credence.Notifications

open Js

inductive Status where
  | pending
  | completed
  | failed
  deriving DecidableEq

structure IdempotentJobAttempt where
  id : String
  jobType : String
  status : Status
  result : Option String
  attemptedAt : Int
  completedAt : Option Int
  expiresAt : Int
  deriving DecidableEq

structure Job where
  jobType : String
  expiresIn : Int
  claimTimeout : Int

/-- The values of the `INSERT`; an update of the row sets the same ones. -/
def Job.inserted (job : Job) (id : String) (now : Int) : IdempotentJobAttempt where
  id := id
  jobType := job.jobType
  status := .pending
  result := none
  attemptedAt := now
  completedAt := none
  expiresAt := now + job.expiresIn

def Job.isReclaimable (job : Job) (now : Int) (row : IdempotentJobAttempt) : Bool :=
  row.status = .failed || row.expiresAt ≤ now ||
    (row.status = .pending && row.attemptedAt ≤ now - job.claimTimeout)

def Job.claimAttempt (job : Job) (id : String) (now : Int) (row : Option IdempotentJobAttempt) :
    Option IdempotentJobAttempt :=
  if row.all (job.isReclaimable now) then some (job.inserted id now) else none

def findAttempt (now : Int) (row : Option IdempotentJobAttempt) : Option IdempotentJobAttempt :=
  row.filter fun attempt => now < attempt.expiresAt

/-- What `markCompleted` and `markFailed` share. -/
def markAttempt (status : Status) (id : String) (result : Option String) (now : Int)
    (row : Option IdempotentJobAttempt) : Option IdempotentJobAttempt :=
  row.map fun attempt =>
    if attempt.id = id then
      { attempt with status := status, result := result, completedAt := some now }
    else attempt

def markCompleted (id : String) (result : Option String) (now : Int)
    (row : Option IdempotentJobAttempt) : Option IdempotentJobAttempt :=
  markAttempt .completed id result now row

def markFailed (id : String) (error : String) (now : Int) (row : Option IdempotentJobAttempt) :
    Option IdempotentJobAttempt :=
  markAttempt .failed id (some error) now row

/-- `JSON.stringify`, which may throw or give `undefined`, and `JSON.parse`. -/
structure Codec (T : Type) where
  stringify : T → Except String (Option String)
  parse : String → Option T

def Codec.parseStoredResult {T : Type} (codec : Codec T) (raw : Option String) : Option T :=
  match raw with
  | none => none
  | some text => if text = "" then none else codec.parse text

inductive JobError where
  | error (message : String)
  | other
  deriving DecidableEq

def JobError.message : JobError → String
  | .error message => message
  | .other => "Unknown error"

inductive Outcome (T : Type) where
  | alreadyProcessed (result : Option T) (attempt : IdempotentJobAttempt)
  | processed (result : T) (attempt : IdempotentJobAttempt)
  | duplicate
  | threw (error : JobError)
  deriving DecidableEq

/-- The statement with which a call ends its run. -/
inductive Mark (T : Type) where
  | completed (result : T) (text : Option String)
  | failed (error : JobError)
  deriving DecidableEq

inductive Phase (T : Type) where
  | finding
  | reclaiming
  | findingAgain
  | running (attempt : IdempotentJobAttempt)
  | marking (attempt : IdempotentJobAttempt) (mark : Mark T)
  deriving DecidableEq

/-- The end of a call of `execute`; `claimed` is the attempt of a call that has run the job. -/
structure Completion (T : Type) where
  call : Nat
  time : Int
  claimed : Option IdempotentJobAttempt
  outcome : Outcome T
  deriving DecidableEq

/-- `starts` records the calls of `job.run` with the attempts that they were made under. -/
structure World (T : Type) where
  row : Option IdempotentJobAttempt
  now : Int
  calls : List (Nat × Phase T)
  starts : List (Nat × IdempotentJobAttempt)
  completions : List (Completion T)
  deriving DecidableEq

inductive Action (T : Type) where
  | claim (call : Nat) (now : Int) (id : String)
  | find (call : Nat) (now : Int)
  | settle (call : Nat) (result : Except JobError T)
  | mark (call : Nat) (now : Int) (crashes : Bool)
  | crash (call : Nat)

def Action.caller {T : Type} : Action T → Nat
  | .claim call _ _ | .find call _ | .settle call _ | .mark call _ _ | .crash call => call

namespace World

variable {T : Type} (s : World T) (call : Nat)

def go (phase : Phase T) : World T := { s with calls := Map.set call phase s.calls }

def finish (claimed : Option IdempotentJobAttempt) (outcome : Outcome T) : World T := { s with
    calls := Map.delete call s.calls
    completions := s.completions ++ [⟨call, s.now, claimed, outcome⟩] }

/-- A claim at the time of the world; a call that gets no row goes on with `otherwise`. -/
def claim (job : Job) (id : String) (otherwise : Phase T) : World T :=
  match job.claimAttempt id s.now s.row with
  | some attempt =>
    { s with row := some attempt, starts := s.starts ++ [(call, attempt)] }.go call
      (.running attempt)
  | none => s.go call otherwise

variable (codec : Codec T)

/-- What follows `findAttempt`, the first time and after the second claim. -/
def find (again : Bool) : World T :=
  match findAttempt s.now s.row with
  | some attempt =>
    match attempt.status with
    | .completed =>
      s.finish call none (.alreadyProcessed (codec.parseStoredResult attempt.result) attempt)
    | .pending => s.finish call none .duplicate
    | .failed => if again then s.finish call none .duplicate else s.go call .reclaiming
  | none => if again then s.finish call none .duplicate else s.go call .reclaiming

def markOf (result : Except JobError T) : Mark T :=
  match result with
  | .ok value =>
    match codec.stringify value with
    | .ok text => .completed value text
    | .error message => .failed (.error message)
  | .error error => .failed error

def mark (attempt : IdempotentJobAttempt) (crashes : Bool) : Mark T → World T
  | .completed value text =>
    let s := { s with row := markCompleted attempt.id text s.now s.row }
    if crashes then { s with calls := Map.delete call s.calls }
    else s.finish call (some attempt) (.processed value attempt)
  | .failed error =>
    let s := { s with row := markFailed attempt.id error.message s.now s.row }
    if crashes then { s with calls := Map.delete call s.calls }
    else s.finish call (some attempt) (.threw error)

end World

variable {T : Type} (job : Job) (codec : Codec T)

/-- A call starts with its first claim. The clock does not go back, and `randomUUID` gives no id
that an earlier claim has left in the row. -/
def step : Action T → World T → Option (World T)
  | .claim call now id, s =>
    if s.now ≤ now ∧ id ∉ s.starts.map (·.2.id) then
      match Map.get call s.calls with
      | none => some ({ s with now := now }.claim call job id .finding)
      | some .reclaiming => some ({ s with now := now }.claim call job id .findingAgain)
      | _ => none
    else none
  | .find call now, s =>
    if s.now ≤ now then
      match Map.get call s.calls with
      | some .finding => some ({ s with now := now }.find call codec false)
      | some .findingAgain => some ({ s with now := now }.find call codec true)
      | _ => none
    else none
  | .settle call result, s =>
    match Map.get call s.calls with
    | some (.running attempt) => some (s.go call (.marking attempt (World.markOf codec result)))
    | _ => none
  | .mark call now crashes, s =>
    if s.now ≤ now then
      match Map.get call s.calls with
      | some (.marking attempt mark) =>
        some ({ s with now := now }.mark call attempt crashes mark)
      | _ => none
    else none
  | .crash call, s => some { s with calls := Map.delete call s.calls }

end Credence.Notifications
