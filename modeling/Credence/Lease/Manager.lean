import Mathlib.Data.Nat.Basic

/-! The lease of a Horizon stream: the row of `listener_leases` and the statements of a
`LeaseManager`. The table has no row before the first `acquire`. -/

namespace Credence.Lease

structure LeaseRow where
  ownerId : String
  pagingToken : String
  leaseExpiresAt : Int
  heartbeatAt : Int
  fencingToken : Nat
  updatedAt : Int

/-- The options of a manager that the constructor accepts. Times are in milliseconds. -/
structure LeaseManager where
  ownerId : String
  ttlMs : Int
  heartbeatMs : Int
  accepted : ¬ heartbeatMs * 2 > ttlMs

def halfText (n : Int) : String :=
  let sign := if n < 0 then "-" else ""
  let half := if n % 2 = 0 then "" else ".5"
  sign ++ toString (n.natAbs / 2) ++ half

def LeaseManager.create (ownerId : String) (ttlOption heartbeatOption : Option Int) :
    Except String LeaseManager :=
  let ttlMs := ttlOption.getD 15000
  let heartbeatMs := heartbeatOption.getD 5000
  if h : heartbeatMs * 2 > ttlMs then
    .error (s!"LeaseManager: heartbeatMs ({heartbeatMs}) must be < ttlMs/2 (" ++ halfText ttlMs ++
      ")")
  else .ok ⟨ownerId, ttlMs, heartbeatMs, h⟩

example : (LeaseManager.create "a" (some 1000) (some 800)).map (fun _ => ()) =
    .error "LeaseManager: heartbeatMs (800) must be < ttlMs/2 (500)" := by
  rfl

inductive Method where
  | acquire
  | heartbeat
  | release
  | updateCursor (pagingToken : String)

inductive Statement where
  | acquire (ownerId : String) (expires now : Int)
  | heartbeat (ownerId : String) (expires now : Int) (fencingToken : Nat)
  | release (ownerId : String) (now : Int)
  | updateCursor (ownerId pagingToken : String) (now : Int) (fencingToken : Nat)
  deriving DecidableEq

def isDigits (text : String) : Bool := !text.toList.isEmpty && text.toList.all Char.isDigit

/-- The statement that a method sends at the time `now`, when `currentFencingToken` is `token`. -/
def LeaseManager.request (manager : LeaseManager) (now : Int) (token : Nat) :
    Method → Except String Statement
  | .acquire => .ok (.acquire manager.ownerId (now + manager.ttlMs) now)
  | .heartbeat => .ok (.heartbeat manager.ownerId (now + manager.ttlMs) now token)
  | .release => .ok (.release manager.ownerId now)
  | .updateCursor pagingToken =>
    if !isDigits pagingToken && pagingToken != "now" then
      .error s!"Invalid paging_token: {pagingToken}"
    else .ok (.updateCursor manager.ownerId pagingToken now token)

/-- The answer to a statement: the row of `RETURNING`, the row count of an `UPDATE`, or an error. -/
inductive Reply where
  | rows (returned : Option LeaseRow)
  | rowCount (count : Nat)
  | error

def bigintMax : Nat := 9223372036854775807

/-- `INSERT ... ON CONFLICT (stream_name) DO UPDATE ... WHERE ... RETURNING`. -/
def upsertLease (ownerId : String) (expires now : Int) : Option LeaseRow → Option LeaseRow × Reply
  | none =>
    let row : LeaseRow := ⟨ownerId, "0", expires, now, 1, now⟩
    (some row, .rows (some row))
  | some row =>
    if row.ownerId = ownerId ∨ row.leaseExpiresAt ≤ now then
      if row.fencingToken + 1 ≤ bigintMax then
        let claimed := { row with
          ownerId
          leaseExpiresAt := expires
          heartbeatAt := now
          fencingToken := row.fencingToken + 1
          updatedAt := now }
        (some claimed, .rows (some claimed))
      else (some row, .error)
    else (some row, .rows none)

def updateWhere (condition : LeaseRow → Bool) (set : LeaseRow → LeaseRow) :
    Option LeaseRow → Option LeaseRow × Reply
  | none => (none, .rowCount 0)
  | some row => if condition row then (some (set row), .rowCount 1) else (some row, .rowCount 0)

def Statement.execute : Statement → Option LeaseRow → Option LeaseRow × Reply
  | .acquire ownerId expires now => upsertLease ownerId expires now
  | .heartbeat ownerId expires now token =>
    updateWhere (fun row => row.ownerId = ownerId ∧ row.fencingToken = token) fun row =>
      { row with leaseExpiresAt := expires, heartbeatAt := now, updatedAt := now }
  | .release ownerId now =>
    updateWhere (fun row => row.ownerId = ownerId) fun row =>
      { row with leaseExpiresAt := row.heartbeatAt, updatedAt := now }
  | .updateCursor ownerId pagingToken now token =>
    updateWhere (fun row => row.ownerId = ownerId ∧ row.fencingToken = token) fun row =>
      { row with pagingToken, updatedAt := now }

inductive AcquireFailure where
  | heldByOther
  | dbError

structure LeaseAcquireResult where
  acquired : Bool
  lease : Option LeaseRow
  reason : Option AcquireFailure

/-- The result of `acquire`, where `existing` is what `peek` reads after the answer. -/
def LeaseManager.acquireResult (manager : LeaseManager) (existing : Option LeaseRow) :
    Reply → LeaseAcquireResult
  | .rows (some row) =>
    if row.ownerId = manager.ownerId then ⟨true, some row, none⟩
    else ⟨false, existing, some .heldByOther⟩
  | .rows none => ⟨false, existing, some .heldByOther⟩
  | .rowCount _ | .error => ⟨false, none, some .dbError⟩

/-- The result of `heartbeat` and of `updateCursor`: `none` where the query throws. -/
def Reply.changed : Reply → Option Bool
  | .rowCount count => some (count > 0)
  | .rows returned => some returned.isSome
  | .error => none

namespace Statement

def ownerId : Statement → String
  | acquire ownerId _ _ => ownerId
  | heartbeat ownerId _ _ _ => ownerId
  | release ownerId _ => ownerId
  | updateCursor ownerId _ _ _ => ownerId

def now : Statement → Int
  | acquire _ _ now => now
  | heartbeat _ _ now _ => now
  | release _ now => now
  | updateCursor _ _ now _ => now

def fencingToken : Statement → Option Nat
  | acquire _ _ _ => none
  | heartbeat _ _ _ token => some token
  | release _ _ => none
  | updateCursor _ _ _ token => some token

def acquires (statement : Statement) (row : Option LeaseRow) : Bool :=
  match statement.execute row with
  | (_, .rows (some _)) => true
  | _ => false

/-- A successful `acquire` gives the row to its owner under the next fencing token; another
statement changes the row of its own owner only, under the row's token where it carries one, and
keeps owner and token. -/
inductive Effect (statement : Statement) (row : Option LeaseRow) : Option LeaseRow → Prop
  | claims (claimed : LeaseRow) (hAcquires : statement.acquires row = true)
      (hFree : statement.fencingToken = none)
      (hOwner : claimed.ownerId = statement.ownerId)
      (hToken : claimed.fencingToken = (row.map LeaseRow.fencingToken).getD 0 + 1)
      (hExpired : ∀ old, row = some old →
        old.ownerId = statement.ownerId ∨ old.leaseExpiresAt ≤ statement.now) :
      Effect statement row (some claimed)
  | changes (old new : LeaseRow) (hRow : row = some old)
      (hAcquires : statement.acquires row = false)
      (hOld : old.ownerId = statement.ownerId) (hNew : new.ownerId = old.ownerId)
      (hToken : new.fencingToken = old.fencingToken)
      (hFenced : ∀ token, statement.fencingToken = some token → old.fencingToken = token) :
      Effect statement row (some new)
  | keeps (hAcquires : statement.acquires row = false)
      (hFails : ∀ token, statement.fencingToken = some token →
        (statement.execute row).2.changed = some false) :
      Effect statement row row

theorem updateWhere_eq (condition : LeaseRow → Bool) (set : LeaseRow → LeaseRow)
    (row : Option LeaseRow) :
    (∃ old, row = some old ∧ condition old = true ∧
        updateWhere condition set row = (some (set old), .rowCount 1)) ∨
      updateWhere condition set row = (row, .rowCount 0) := by
  cases row with
  | none => exact .inr rfl
  | some old =>
    by_cases hc : condition old = true
    · exact .inl ⟨old, rfl, hc, by rw [updateWhere, if_pos hc]⟩
    · exact .inr (by rw [updateWhere, if_neg hc])

theorem effect_updateWhere {statement : Statement} {condition : LeaseRow → Bool}
    {set : LeaseRow → LeaseRow} (hex : statement.execute = updateWhere condition set)
    (hc : ∀ old, condition old = true → old.ownerId = statement.ownerId ∧
      ∀ token, statement.fencingToken = some token → old.fencingToken = token)
    (hs : ∀ old, (set old).ownerId = old.ownerId ∧ (set old).fencingToken = old.fencingToken)
    (row : Option LeaseRow) : Effect statement row (statement.execute row).1 := by
  rcases updateWhere_eq condition set row with ⟨old, hr, hh, he⟩ | he
  · have ha : statement.acquires row = false := by simp [acquires, hex, he]
    rw [hex, he]
    obtain ⟨ho, ht⟩ := hc old hh
    exact .changes old (set old) hr ha ho (hs old).1 (hs old).2 ht
  · have ha : statement.acquires row = false := by simp [acquires, hex, he]
    have hf : (statement.execute row).2.changed = some false := by
      rw [hex, he]
      rfl
    have hb : (statement.execute row).1 = row := by rw [hex, he]
    rw [hb]
    exact .keeps ha fun _ _ => hf

theorem effect_acquire (owner : String) (expires sentAt : Int) (row : Option LeaseRow) :
    Effect (.acquire owner expires sentAt) row ((acquire owner expires sentAt).execute row).1 := by
  cases row with
  | none => exact .claims _ rfl rfl rfl rfl fun old ho => by cases ho
  | some old =>
    by_cases hf : old.ownerId = owner ∨ old.leaseExpiresAt ≤ sentAt
    · by_cases hr : old.fencingToken + 1 ≤ bigintMax
      · have he : (acquire owner expires sentAt).execute (some old) =
            upsertLease owner expires sentAt (some old) := rfl
        rw [upsertLease, if_pos hf, if_pos hr] at he
        rw [he]
        refine .claims _ (by simp [acquires, he]) rfl rfl rfl fun row ha => ?_
        obtain rfl := Option.some.inj ha
        exact hf
      · have he : (acquire owner expires sentAt).execute (some old) = (some old, .error) := by
          rw [execute, upsertLease, if_pos hf, if_neg hr]
        rw [he]
        exact .keeps (by simp [acquires, he]) fun _ ht => by cases ht
    · have he : (acquire owner expires sentAt).execute (some old) = (some old, .rows none) := by
        rw [execute, upsertLease, if_neg hf]
      rw [he]
      exact .keeps (by simp [acquires, he]) fun _ ht => by cases ht

theorem effect (statement : Statement) (row : Option LeaseRow) :
    Effect statement row (statement.execute row).1 := by
  cases statement with
  | acquire owner expires sentAt => exact effect_acquire owner expires sentAt row
  | heartbeat owner expires sentAt token | updateCursor owner pagingToken sentAt token =>
    refine effect_updateWhere rfl ?_ ?_ row
    · intro old ho
      obtain ⟨how, ht⟩ := of_decide_eq_true ho
      exact ⟨how, fun _ hc => ht.trans (Option.some.inj hc)⟩
    · exact fun _ => ⟨rfl, rfl⟩
  | release =>
    refine effect_updateWhere rfl ?_ ?_ row
    · intro old ho
      exact ⟨of_decide_eq_true ho, fun _ hc => by cases hc⟩
    · exact fun _ => ⟨rfl, rfl⟩

end Statement

theorem LeaseManager.request_eq_ok {manager : LeaseManager} {now : Int} {token : Nat}
    {method : Method} {statement : Statement}
    (h : manager.request now token method = .ok statement) :
    statement.ownerId = manager.ownerId ∧ statement.now = now ∧
      ∀ carried, statement.fencingToken = some carried → carried = token := by
  cases method with
  | updateCursor =>
    rw [request] at h
    split at h
    · cases h
    · cases h
      exact ⟨rfl, rfl, fun _ hc => (Option.some.inj hc).symm⟩
  | heartbeat =>
    cases h
    exact ⟨rfl, rfl, fun _ hc => (Option.some.inj hc).symm⟩
  | acquire | release =>
    cases h
    exact ⟨rfl, rfl, fun _ hc => by cases hc⟩

end Credence.Lease
