import Credence.Crypto.Sha256
import Credence.ProofKit.Runs

/-! The idempotency middleware for the requests of one caller with one key and one body. A step
goes from one `await` to the next. -/

namespace Credence.Idempotency

open Crypto

structure Caller where
  actorId : String
  payloadHash : String

structure IdempotencyRecord (β : Type) where
  actorId : String
  requestHash : String
  responseCode : Nat
  responseBody : β
  deriving DecidableEq

def computeBoundKeyHash (hash : TextHash) (actorId payloadHash : String) : String :=
  hash.digest (actorId ++ ":" ++ payloadHash)

/-- A request waits for the promise of an earlier one, has set its own, waits for the lookup or has
its result, runs the handler, or is answered. -/
inductive Phase (β : Type) where
  | waiting (previous : Nat)
  | acquired
  | looking
  | found (existing : Option (IdempotencyRecord β))
  | running
  | executed (status : Nat) (body : β)
  | replayed (status : Nat) (body : β)
  | refused
  deriving DecidableEq

inductive SavePhase where
  | issued
  | committed
  | settled
  deriving DecidableEq

structure Save (β : Type) where
  request : Nat
  status : Nat
  body : β
  phase : SavePhase

/-- `inFlight` is the request whose promise `inFlightKeys` has; `released` and `closed` are those
that have called `release` and whose response has emitted `close`; `started` are those that have run
the handler, the last first. -/
structure World (β : Type) where
  inFlight : Option Nat
  released : List Nat
  closed : List Nat
  record : Option (IdempotencyRecord β)
  requests : List (Phase β)
  saves : List (Save β)
  started : List Nat

inductive Action (β : Type) where
  | arrive
  | wake (n : Nat)
  | enter (n : Nat)
  | read (n : Nat)
  | proceed (n : Nat)
  | json (n : Nat) (status : Nat) (body : β)
  | send (n : Nat) (status : Nat) (body : β)
  | commit (i : Nat)
  | settle (i : Nat)
  | close (n : Nat)

variable {β : Type}

namespace World

def start : World β := ⟨none, [], [], none, [], [], []⟩

def setPhase (n : Nat) (phase : Phase β) (w : World β) : World β :=
  { w with requests := w.requests.set n phase }

/-- The function that `waitForInFlight` returns to request `n`. -/
def release (n : Nat) (w : World β) : World β :=
  if n ∈ w.released then w
  else
    { w with
      released := n :: w.released
      inFlight := if w.inFlight = some n then none else w.inFlight }

/-- `waitForInFlight` up to its `await`, or up to its return when there is nothing to wait for. -/
def arrive (w : World β) : World β :=
  match w.inFlight with
  | some previous => { w with requests := w.requests ++ [.waiting previous] }
  | none => { w with
      requests := w.requests ++ [.acquired]
      inFlight := some w.requests.length }

/-- The middleware with the result of the lookup: it replays, refuses, or calls the handler. -/
def proceed (hash : TextHash) (caller : Caller) (n : Nat) (w : World β) :
    Option (IdempotencyRecord β) → World β
  | some existing =>
    if computeBoundKeyHash hash caller.actorId caller.payloadHash =
        computeBoundKeyHash hash existing.actorId existing.requestHash then
      (w.setPhase n (.replayed existing.responseCode existing.responseBody)).release n
    else (w.setPhase n .refused).release n
  | none => { w.setPhase n .running with started := n :: w.started }

/-- The response is an auth rejection or a transient failure. -/
def notCached (status : Nat) : Bool := status = 401 ∨ status = 403 ∨ 500 ≤ status

/-- The calls of `repo.save` that `res.json` makes. -/
def savesOf (n status : Nat) (body : β) : List (Save β) :=
  if status < 500 then
    if notCached status then [⟨n, status, body, .issued⟩]
    else [⟨n, status, body, .issued⟩, ⟨n, status, body, .issued⟩]
  else []

def json (n status : Nat) (body : β) (w : World β) : World β :=
  let w := { w.setPhase n (.executed status body) with saves := w.saves ++ savesOf n status body }
  if notCached status then w.release n else w

/-- `repo.save` writes the row, or deletes it for a failure. -/
def commit (caller : Caller) (i : Nat) (save : Save β) (w : World β) : World β := { w with
    saves := w.saves.set i { save with phase := .committed }
    record := if 400 ≤ save.status then none
      else some ⟨caller.actorId, caller.payloadHash, save.status, save.body⟩ }

def settle (i : Nat) (save : Save β) (w : World β) : World β :=
  { w with saves := w.saves.set i { save with phase := .settled } }.release save.request

end World

def Phase.listens : Phase β → Bool
  | waiting _ | acquired => false
  | _ => true

def step (hash : TextHash) (caller : Caller) : Action β → World β → Option (World β)
  | .arrive, w => some w.arrive
  | .wake n, w =>
    match w.requests[n]? with
    | some (.waiting previous) =>
      if previous ∈ w.released then some { w.setPhase n .acquired with inFlight := some n }
      else none
    | _ => none
  | .enter n, w =>
    match w.requests[n]? with
    | some .acquired => some (w.setPhase n .looking)
    | _ => none
  | .read n, w =>
    match w.requests[n]? with
    | some .looking => some (w.setPhase n (.found w.record))
    | _ => none
  | .proceed n, w =>
    match w.requests[n]? with
    | some (.found existing) => some (w.proceed hash caller n existing)
    | _ => none
  | .json n status body, w =>
    match w.requests[n]? with
    | some .running => some (w.json n status body)
    | _ => none
  | .send n status body, w =>
    match w.requests[n]? with
    | some .running => some (w.setPhase n (.executed status body))
    | _ => none
  | .commit i, w =>
    match w.saves[i]? with
    | some save => if save.phase = .issued then some (w.commit caller i save) else none
    | none => none
  | .settle i, w =>
    match w.saves[i]? with
    | some save => if save.phase = .committed then some (w.settle i save) else none
    | none => none
  | .close n, w =>
    match w.requests[n]? with
    | some phase =>
      if n ∈ w.closed then none
      else
        let w := { w with closed := n :: w.closed }
        some (if phase.listens then w.release n else w)
    | none => none

end Credence.Idempotency
