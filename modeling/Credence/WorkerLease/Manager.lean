import Credence.ProofKit.Runs

/-! `WorkerLeaseManager`: the leader is the one whose session holds the advisory lock. A step runs
to the next call of a lifecycle callback or to the end. The frames on the stack are what the
manager does when a callback returns; while one runs, only its own calls of `start` and `stop` come
before that. -/

namespace Credence.WorkerLease

inductive LeaseState where
  | standby
  | leader
  deriving DecidableEq

/-- The session's `pg_try_advisory_lock` was not sent, has no reply yet, has returned false or true,
or has failed or returned something else. -/
inductive Lock where
  | idle
  | asked
  | denied
  | granted
  | unclear
  deriving DecidableEq

/-- A client that was checked out of the pool for an acquisition. The last three fields record the
lock query, whether the unlock has returned true, and the `destroy` flag of each `release`. -/
structure LeaseSession where
  acquisition : Nat
  generation : Nat
  held : Bool
  querying : Bool
  disposed : Bool
  lock : Lock
  unlocked : Bool
  released : List Bool
  deriving DecidableEq

def LeaseSession.checkedOut (acquisition generation : Nat) : LeaseSession :=
  ⟨acquisition, generation, false, false, false, .idle, false, []⟩

def LeaseSession.dispose (destroy : Bool) (session : LeaseSession) : LeaseSession :=
  if session.disposed then session
  else { session with disposed := true, released := session.released ++ [destroy] }

inductive LockReply where
  | acquired (acquired : Bool)
  | invalid
  | failed
  deriving DecidableEq

def LockReply.lock : LockReply → Lock
  | .acquired true => .granted
  | .acquired false => .denied
  | .invalid | .failed => .unclear

/-- The session after the reply; `querying` is reset where the query does not throw. -/
def LockReply.record (reply : LockReply) (session : LeaseSession) : LeaseSession := { session with
    lock := reply.lock
    querying := if reply = .failed then session.querying else false }

/-- A call of `acquireSession`: it waits for the pool or for the reply to its lock query. -/
inductive Acquiring where
  | connecting (generation : Nat)
  | locking (session generation : Nat)
  | ended
  deriving DecidableEq

/-- A call of `stop` has taken the session over, waits for the reply to its unlock query, has
released the session, or has come to its end. -/
inductive Stopping where
  | releasing (session : Option Nat)
  | unlocking (session : Nat)
  | ended
  | finished
  deriving DecidableEq

/-- What follows a lifecycle callback. `beating` is the session whose heartbeat has failed. -/
inductive Frame where
  | acquired (session generation : Nat)
  | announced (session generation : Nat)
  | lost (session : Nat) (beating : Option Nat)
  | lostReleased (beating : Option Nat)
  | lostReported (beating : Option Nat)
  | connectFailed
  | stopped (stop : Nat)
  | unlockFailed (stop : Nat)
  | released
  deriving DecidableEq

/-- Sessions, acquisitions and stops are named by their places. `acquisition` has the place and the
generation; `waiting` has the stops that calls of `start` wait for, and `beating` the heartbeat
queries without a reply. -/
structure World where
  running : Bool
  generation : Nat
  lease : Option Nat
  acquisition : Option (Nat × Nat)
  stopping : Option Nat
  state : LeaseState
  retryTimer : Bool
  heartbeatTimer : Option (Nat × Nat)
  sessions : List LeaseSession
  acquisitions : List Acquiring
  stops : List Stopping
  waiting : List Nat
  beating : List (Nat × Nat)
  stack : List Frame
  deriving DecidableEq

def World.start : World :=
  ⟨false, 0, none, none, none, .standby, false, none, [], [], [], [], [], []⟩

namespace World

variable (s : World)

def isCurrent (session generation : Nat) : Bool :=
  s.running && s.generation = generation && s.lease = some session &&
    (s.sessions[session]?).any fun x => !x.disposed

def isHeld (session : Nat) : Bool := (s.sessions[session]?).any LeaseSession.held

def notify (frame : Frame) : World := { s with stack := frame :: s.stack }

def clearTimers : World := { s with retryTimer := false, heartbeatTimer := none }

def scheduleRetry : World := if s.running then { s.clearTimers with retryTimer := true } else s

def updateSession (session : Nat) (f : LeaseSession → LeaseSession) : World :=
  { s with sessions := s.sessions.modify session f }

def disposeSession (session : Nat) (destroy : Bool) : World :=
  { s.updateSession session (LeaseSession.dispose destroy) with
    lease := if s.lease = some session then none else s.lease }

def startHeartbeat (session generation : Nat) : World :=
  { s.clearTimers with heartbeatTimer := some (session, generation) }

def tryAcquire : World :=
  if !s.running then s
  else if s.acquisition.map Prod.snd = some s.generation then s
  else
    { s with
      acquisitions := s.acquisitions ++ [.connecting s.generation]
      acquisition := some (s.acquisitions.length, s.generation) }

def startNow : World :=
  if s.running then s
  else { s with running := true, generation := s.generation + 1 }.tryAcquire

def setStop (stop : Nat) (phase : Stopping) : World := { s with stops := s.stops.set stop phase }

/-- The `finally` block of `releaseLock`. -/
def closeLock (stop session : Nat) (destroy : Bool) : World :=
  let s := (s.disposeSession session destroy).setStop stop .ended
  if s.isHeld session then s.notify .released else s

def releaseLock (stop : Nat) : World :=
  match s.stops[stop]? with
  | some (.releasing (some session)) =>
    if (s.sessions[session]?).all LeaseSession.disposed then s.setStop stop .ended
    else if (s.sessions[session]?).any fun x => x.held && !x.querying then
      (s.updateSession session fun x => { x with querying := true }).setStop stop
        (.unlocking session)
    else s.closeLock stop session true
  | some (.releasing none) => s.setStop stop .ended
  | _ => s

def endBeat (beating : Option Nat) : World :=
  match beating with
  | some session => s.updateSession session fun x => { x with querying := false }
  | none => s

def resume : Frame → World
  | .acquired session generation =>
    if s.isCurrent session generation then s.notify (.announced session generation) else s
  | .announced session generation =>
    if s.isCurrent session generation then s.startHeartbeat session generation else s
  | .lost session beating =>
    if s.isHeld session then s.notify (.lostReleased beating) else s.notify (.lostReported beating)
  | .lostReleased beating => s.notify (.lostReported beating)
  | .lostReported beating => s.scheduleRetry.endBeat beating
  | .connectFailed => s.scheduleRetry
  | .stopped stop => s.releaseLock stop
  | .unlockFailed stop =>
    match s.stops[stop]? with
    | some (.unlocking session) => s.closeLock stop session true
    | _ => s
  | .released => s

/-- The callback `onStateChange` is called only for a change. -/
def setState (state : LeaseState) (frame : Frame) : World :=
  if s.state = state then s.resume frame else { s with state := state }.notify frame

def loseLease (session generation : Nat) (beating : Option Nat) : World :=
  if s.isCurrent session generation then
    ({ s with generation := s.generation + 1 }.clearTimers.disposeSession session true).setState
      .standby (.lost session beating)
  else s.endBeat beating

def stop : World :=
  if s.stopping.isSome || !s.running then s
  else
    { s.clearTimers with
      running := false
      generation := s.generation + 1
      lease := none
      stops := s.stops ++ [Stopping.releasing s.lease]
      stopping := some s.stops.length }.setState .standby (.stopped s.stops.length)

def startCall : World :=
  match s.stopping with
  | some stop => { s with waiting := s.waiting ++ [stop] }
  | none => s.startNow

def endAcquisition (acquisition : Nat) : World :=
  { s with acquisitions := s.acquisitions.set acquisition .ended }

def connected (acquisition generation : Nat) (succeeds : Bool) : World :=
  if succeeds then
    let session := LeaseSession.checkedOut acquisition generation
    if !s.running || s.generation ≠ generation then
      { s.endAcquisition acquisition with sessions := s.sessions ++ [session.dispose false] }
    else
      { s with
        acquisitions := s.acquisitions.set acquisition (.locking s.sessions.length generation)
        lease := some s.sessions.length
        sessions := s.sessions ++ [{ session with querying := true, lock := .asked }] }
  else
    let s := s.endAcquisition acquisition
    if s.running && s.generation = generation then s.notify .connectFailed else s

def locked (acquisition session generation : Nat) (reply : LockReply) : World :=
  let s := (s.updateSession session reply.record).endAcquisition acquisition
  if s.isCurrent session generation then
    match reply with
    | .acquired true =>
      (s.updateSession session fun x => { x with held := true }).setState .leader
        (.acquired session generation)
    | .acquired false => (s.disposeSession session false).scheduleRetry
    | .invalid | .failed => s.loseLease session generation none
  else
    match reply with
    | .acquired _ | .invalid => s.disposeSession session true
    | .failed => s

def heartbeat (session generation : Nat) : World :=
  if s.isCurrent session generation && s.state = .leader &&
      (s.sessions[session]?).any fun x => !x.querying then
    { s.updateSession session fun x => { x with querying := true } with
      beating := s.beating ++ [(session, generation)] }
  else s

def beaten (session generation : Nat) (succeeds : Bool) : World :=
  let s := { s with beating := s.beating.erase (session, generation) }
  if succeeds then s.endBeat (some session) else s.loseLease session generation (some session)

/-- The reply to an unlock query: it returns true, or it fails or returns something else. -/
def unlocked (stop session : Nat) (confirmed : Bool) : World :=
  if confirmed then
    (s.updateSession session fun x => { x with unlocked := true }).closeLock stop session false
  else s.notify (.unlockFailed stop)

/-- The `finally` block of `stop`. -/
def finishStop (stop : Nat) : World := { s.setStop stop .finished with
    stopping := if s.stopping = some stop then none else s.stopping }

/-- The `finally` block of `tryAcquire`. -/
def finishAcquire (acquisition : Nat) : World := { s with
    acquisition := if s.acquisition.map Prod.fst = some acquisition then none else s.acquisition }

end World

inductive Action where
  | start
  | stop
  | resume
  | retry
  | heartbeat
  | connected (acquisition : Nat) (succeeds : Bool)
  | locked (acquisition : Nat) (reply : LockReply)
  | settled (acquisition : Nat)
  | beaten (session generation : Nat) (succeeds : Bool)
  | connectionError (session : Nat)
  | unlocked (stop : Nat) (confirmed : Bool)
  | stopped (stop : Nat)
  | restart (stop : Nat)

def event : Action → World → Option World
  | .start, _ | .stop, _ | .resume, _ => none
  | .retry, s => if s.retryTimer then some { s with retryTimer := false }.tryAcquire else none
  | .heartbeat, s =>
    match s.heartbeatTimer with
    | some (session, generation) => some (s.heartbeat session generation)
    | none => none
  | .connected acquisition succeeds, s =>
    match s.acquisitions[acquisition]? with
    | some (.connecting generation) => some (s.connected acquisition generation succeeds)
    | _ => none
  | .locked acquisition reply, s =>
    match s.acquisitions[acquisition]? with
    | some (.locking session generation) => some (s.locked acquisition session generation reply)
    | _ => none
  | .settled acquisition, s =>
    match s.acquisitions[acquisition]? with
    | some .ended => some (s.finishAcquire acquisition)
    | _ => none
  | .beaten session generation succeeds, s =>
    if (session, generation) ∈ s.beating then some (s.beaten session generation succeeds) else none
  | .connectionError session, s =>
    match s.sessions[session]? with
    | some x => some (s.loseLease session x.generation none)
    | none => none
  | .unlocked stop confirmed, s =>
    match s.stops[stop]? with
    | some (.unlocking session) => some (s.unlocked stop session confirmed)
    | _ => none
  | .stopped stop, s =>
    match s.stops[stop]? with
    | some .ended => some (s.finishStop stop)
    | _ => none
  | .restart stop, s =>
    if stop ∈ s.waiting ∧ s.stops[stop]? = some .finished then
      some { s with waiting := s.waiting.erase stop }.startNow
    else none

def step : Action → World → Option World
  | .start, s => some s.startCall
  | .stop, s => some s.stop
  | .resume, s =>
    match s.stack with
    | frame :: stack => some ({ s with stack := stack }.resume frame)
    | [] => none
  | action, s =>
    match s.stack with
    | [] => event action s
    | _ :: _ => none

end Credence.WorkerLease
