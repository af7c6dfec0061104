import Credence.Js.Map
import Credence.ProofKit.Runs

/-! `ReplayService.replayEvent` on one failed event; each access to the cache or the row and the
handler is a step, and calls interleave between them. -/

namespace Credence.Replay

open Js

inductive FailedEventStatus where
  | failed
  | replayed
  | skipped
  deriving DecidableEq

structure FailedInboundEvent where
  eventType : String
  eventData : String
  status : FailedEventStatus
  retryCount : Nat
  deriving DecidableEq

inductive Reply where
  | ok
  | lost (error : String)
  | failed (error : String)

def Reply.takesEffect : Reply → Bool
  | .ok | .lost _ => true
  | .failed _ => false

def Reply.error : Reply → Option String
  | .ok => none
  | .lost error | .failed error => some error

/-- Where a call stands; the copy of the event is the one that `getFailedEvent` returned. -/
inductive Phase where
  | fetching
  | storing (event : FailedInboundEvent)
  | checking (event : FailedInboundEvent)
  | handling (event : FailedInboundEvent)
  | updating
  | counting
  | refetching
  | invalidating
  | recording (message : String)
  deriving DecidableEq

structure ReplayResult where
  success : Bool
  message : String

/-- The cache has a copy until a time; `handled` has the calls whose handler returned. -/
structure World where
  row : Option FailedInboundEvent
  cached : Option (FailedInboundEvent × Nat)
  calls : List (Nat × Phase)
  handled : List Nat
  results : List (Nat × Except String ReplayResult)

inductive Action where
  | call (call now : Nat)
  | fetch (call : Nat) (error : Option String)
  | store (call now : Nat) (kept : Bool)
  | start (call : Nat)
  | handle (call : Nat) (error : Option String)
  | update (call : Nat) (reply : Reply)
  | increment (call : Nat) (reply : Reply)
  | refetch (call : Nat) (error : Option String)
  | invalidate (call : Nat) (deleted : Bool) (error : Option String)
  | crash (call : Nat)

def FAILED_EVENT_CACHE_TTL : Nat := 300

def World.go (s : World) (call : Nat) (phase : Phase) : World :=
  { s with calls := Map.set call phase s.calls }

def World.finish (s : World) (call : Nat) (result : Except String ReplayResult) : World :=
  { s with calls := Map.delete call s.calls, results := s.results ++ [(call, result)] }

/-- `cache.get`; a copy that is too old is not found. -/
def World.lookUp (s : World) (now : Nat) : Option FailedInboundEvent :=
  (s.cached.filter fun copy => now < copy.2).map Prod.fst

def setReplayed (row : Option FailedInboundEvent) : Option FailedInboundEvent :=
  row.map fun event => { event with status := .replayed }

def incrementRetryCount (row : Option FailedInboundEvent) : Option FailedInboundEvent :=
  row.map fun event =>
    if event.status = .failed then { event with retryCount := event.retryCount + 1 } else event

def World.write (s : World) (reply : Reply)
    (statement : Option FailedInboundEvent → Option FailedInboundEvent) : World :=
  if reply.takesEffect then { s with row := statement s.row } else s

variable (id : String) (handlers : List String)

def World.start (s : World) (call : Nat) (event : FailedInboundEvent) : World :=
  if event.status = .replayed then s.finish call (.ok ⟨false, "Event already replayed"⟩)
  else if event.eventType ∈ handlers then s.go call (.handling event)
  else s.finish call (.error s!"No handler registered for event type: {event.eventType}")

/-- The step of a call in its phase, if the action is the one that the phase waits for. -/
def World.advance (s : World) : Action → Phase → Option World
  | .fetch call (some error), .fetching => some (s.finish call (.error error))
  | .fetch call none, .fetching =>
    match s.row with
    | none => some (s.finish call (.error s!"Event {id} not found"))
    | some event => some (s.go call (.storing event))
  | .store call now kept, .storing event =>
    let s := if kept then { s with cached := some (event, now + FAILED_EVENT_CACHE_TTL) } else s
    some (s.go call (.checking event))
  | .start call, .checking event => some (s.start handlers call event)
  | .handle call (some error), .handling _ => some (s.go call (.recording error))
  | .handle call none, .handling _ =>
    some ({ s with handled := s.handled ++ [call] }.go call .updating)
  | .update call reply, .updating =>
    let phase := match reply.error with
      | some error => .recording error
      | none => .counting
    some ((s.write reply setReplayed).go call phase)
  | .increment call reply, .counting =>
    let phase := match reply.error with
      | some error => .recording error
      | none => .refetching
    some ((s.write reply incrementRetryCount).go call phase)
  | .refetch call (some error), .refetching => some (s.go call (.recording error))
  | .refetch call none, .refetching =>
    if s.row.isSome then some (s.go call .invalidating)
    else some (s.finish call (.ok ⟨true, "Event successfully replayed"⟩))
  | .invalidate call deleted error, .invalidating =>
    let s := if deleted then { s with cached := none } else s
    match error with
    | some error => some (s.go call (.recording error))
    | none => some (s.finish call (.ok ⟨true, "Event successfully replayed"⟩))
  | .increment call reply, .recording message =>
    let s := s.write reply incrementRetryCount
    match reply.error with
    | some error => some (s.finish call (.error error))
    | none => some (s.finish call (.error ("Replay failed: " ++ message)))
  | .crash call, _ => some { s with calls := Map.delete call s.calls }
  | _, _ => none

def Action.caller : Action → Nat
  | .call n _ | .fetch n _ | .store n _ _ | .start n | .handle n _ | .update n _ | .increment n _
  | .refetch n _ | .invalidate n _ _ | .crash n => n

def step (a : Action) (s : World) : Option World :=
  match a with
  | .call call now =>
    if Map.get call s.calls = none then
      match s.lookUp now with
      | some event => some (s.go call (.checking event))
      | none => some (s.go call .fetching)
    else none
  | a => (Map.get a.caller s.calls).bind (s.advance id handlers a)

end Credence.Replay
