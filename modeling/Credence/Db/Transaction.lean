import Mathlib.Data.List.Basic

/-! `TransactionManager.withTransaction` and its hooks. `COMMIT` of an aborted transaction rolls
back without an error, and the manager takes it for a commit. -/

namespace Credence.Db

open List

structure DbError where
  code : Option String
  message : String
  deriving DecidableEq

def pgLockTimeoutCode : String := "55P03"

inductive LockTimeoutPolicy where
  | readonly
  | default
  | critical
  deriving DecidableEq

/-- What is thrown; `nullish` is a thrown `null` or `undefined`, which has no `code`. -/
inductive Thrown where
  | error (error : DbError)
  | nullish
  | typeError
  | lockTimeout (policy : Option LockTimeoutPolicy) (timeoutMs : Nat)
  deriving DecidableEq

structure TransactionOptions where
  policy : Option LockTimeoutPolicy
  timeoutMs : Option Nat
  retryOnLockTimeout : Bool
  maxRetries : Nat

def fallbackTimeouts : LockTimeoutPolicy → Nat
  | .readonly => 2000
  | .default => 5000
  | .critical => 10000

def TransactionOptions.effectiveTimeoutMs (options : TransactionOptions)
    (timeouts : LockTimeoutPolicy → Nat) : Nat :=
  options.timeoutMs.getD (timeouts (options.policy.getD .default))

inductive Statement (W : Type) where
  | write (w : W)
  | savepoint
  | rollbackToSavepoint

/-- What becomes of a statement; one that is over the budget of the client is not sent. -/
inductive Answer where
  | succeeds
  | fails (error : DbError)
  | refused (error : DbError)

structure Transaction (W : Type) where
  writes : List W
  savepoints : List (List W)
  aborted : Bool

def inFailedTransaction : DbError := ⟨some "25P02", "current transaction is aborted"⟩

def noSavepoint : DbError := ⟨some "3B001", "savepoint does not exist"⟩

variable {V W H : Type}

def Transaction.execute (tx : Transaction W) : Statement W → Answer → Transaction W × Option DbError
  | _, .refused error => (tx, some error)
  | _, .fails error => ({ tx with aborted := true }, some error)
  | .rollbackToSavepoint, .succeeds =>
    match tx.savepoints with
    | [] => ({ tx with aborted := true }, some noSavepoint)
    | writes :: _ => ({ tx with writes, aborted := false }, none)
  | .write w, .succeeds =>
    if tx.aborted then (tx, some inFailedTransaction)
    else ({ tx with writes := tx.writes ++ [w] }, none)
  | .savepoint, .succeeds =>
    if tx.aborted then (tx, some inFailedTransaction)
    else ({ tx with savepoints := tx.writes :: tx.savepoints }, none)

/-- What `fn` does with its client; it sees whether its statements throw. -/
inductive Callback (V W H : Type) where
  | done (value : V)
  | throw (error : Thrown)
  | query (statement : Statement W) (next : Option DbError → Callback V W H)
  | runPostCommit (hook : H) (next : Callback V W H)
  | runRollback (hook : H) (next : Callback V W H)

/-- A `withTransaction` inside another: `inner` runs on the active client. -/
def Callback.nest (inner : Callback V W H) (next : Except Thrown V → Callback V W H) :
    Callback V W H :=
  match inner with
  | .done value => next (.ok value)
  | .throw error => next (.error error)
  | .query statement rest => .query statement fun error => (rest error).nest next
  | .runPostCommit hook rest => .runPostCommit hook (rest.nest next)
  | .runRollback hook rest => .runRollback hook (rest.nest next)

/-- The transaction and the hooks of an attempt, and the number of statements so far. -/
structure TransactionContext (W H : Type) where
  tx : Transaction W
  postCommitHooks : List H
  rollbackHooks : List H
  sent : Nat

def TransactionContext.new : TransactionContext W H := ⟨⟨[], [], false⟩, [], [], 0⟩

def Callback.run (answers : Nat → Answer) :
    Callback V W H → TransactionContext W H → Except Thrown V × TransactionContext W H
  | .done value, c => (.ok value, c)
  | .throw error, c => (.error error, c)
  | .query statement next, c =>
    let (tx, error) := c.tx.execute statement (answers c.sent)
    (next error).run answers { c with tx, sent := c.sent + 1 }
  | .runPostCommit hook next, c =>
    next.run answers { c with postCommitHooks := c.postCommitHooks ++ [hook] }
  | .runRollback hook next, c =>
    next.run answers { c with rollbackHooks := c.rollbackHooks ++ [hook] }

/-- What the pool and the database do in an attempt: `setup` is the error of `BEGIN` or of one of
the settings after it. -/
structure Conditions (H : Type) where
  connect : Option Thrown
  setup : Option DbError
  answers : Nat → Answer
  commit : Option DbError
  hook : H → Except Thrown Unit

inductive Event (W H : Type) where
  | committed (attempt : Nat) (writes : List W)
  | postCommit (attempt : Nat) (hook : H)
  | rollback (attempt : Nat) (hook : H)
  deriving DecidableEq

/-- Every hook is called, whether or not one before it has thrown. -/
def runHooks (call : H → Except Thrown Unit) : List H → List H
  | [] => []
  | hook :: hooks =>
    match call hook with
    | .ok _ | .error _ => hook :: runHooks call hooks

section

variable (options : TransactionOptions) (timeouts : LockTimeoutPolicy → Nat)
  (conditions : Nat → Conditions H) (fn : Nat → Callback V W H)

def called (k : Nat) : Except Thrown V × TransactionContext W H :=
  match (conditions k).connect, (conditions k).setup with
  | some error, _ => (.error error, .new)
  | none, some error => (.error (.error error), .new)
  | none, none => (fn k).run (conditions k).answers .new

/-- The `try` block of attempt `k` and the hooks of its `catch` block. -/
def attempt (k : Nat) : Except Thrown V × List (Event W H) :=
  let (result, context) := called conditions fn k
  let rolledBack := (runHooks (conditions k).hook context.rollbackHooks).map (.rollback k)
  match result, (conditions k).commit with
  | .error error, _ => (.error error, rolledBack)
  | .ok _, some error => (.error (.error error), rolledBack)
  | .ok value, none =>
    let committed := if context.tx.aborted then [] else [.committed k context.tx.writes]
    (.ok value,
      committed ++ (runHooks (conditions k).hook context.postCommitHooks).map (.postCommit k))

structure Outcome (V W H : Type) where
  result : Except Thrown V
  events : List (Event W H)
  attempts : Nat

/-- The loop from attempt `k` on, with `left` retries. -/
def retry (left k : Nat) : Outcome V W H :=
  match attempt conditions fn k with
  | (.ok value, events) => ⟨.ok value, events, k + 1⟩
  | (.error error, events) =>
    if (conditions k).connect.isSome then ⟨.error error, events, k + 1⟩
    else
      match error with
      | .nullish => ⟨.error .typeError, events, k + 1⟩
      | .error ⟨code, message⟩ =>
        if code = some pgLockTimeoutCode then
          match left with
          | 0 => ⟨.error (.lockTimeout options.policy (options.effectiveTimeoutMs timeouts)),
              events, k + 1⟩
          | left + 1 =>
            let rest := retry left (k + 1)
            { rest with events := events ++ rest.events }
        else ⟨.error (.error ⟨code, message⟩), events, k + 1⟩
      | other => ⟨.error other, events, k + 1⟩

def withTransaction : Outcome V W H :=
  retry options timeouts conditions fn
    (if options.retryOnLockTimeout then options.maxRetries else 0) 0

def Event.attempt : Event W H → Nat
  | .committed k _ | .postCommit k _ | .rollback k _ => k

def Event.isRollback : Event W H → Bool
  | .rollback _ _ => true
  | _ => false

def rollbacksOf (k : Nat) (events : List (Event W H)) : List H :=
  events.filterMap fun
    | .rollback j hook => if j = k then some hook else none
    | _ => none

/-- When `withTransaction` returns, its events are rollback hooks of other attempts, one commit, and
the post-commit hooks of the committed attempt; when it throws, they are rollback hooks. Every
attempt without a commit has run its rollback hooks. -/
structure AgreesFrom (first : Nat) (out : Outcome V W H) : Prop where
  attempts : first < out.attempts
  later : ∀ event ∈ out.events, first ≤ event.attempt
  returns : ∀ value, out.result = .ok value → ∃ k before, first ≤ k ∧ k < out.attempts ∧
    out.events = before ++ .committed k (called conditions fn k).2.tx.writes ::
      (called conditions fn k).2.postCommitHooks.map (.postCommit k) ∧
    ∀ event ∈ before, event.isRollback = true ∧ event.attempt ≠ k
  throws : ∀ error, out.result = .error error → ∀ event ∈ out.events, event.isRollback = true
  rollbacks : ∀ j, first ≤ j → j < out.attempts → (∀ writes, .committed j writes ∉ out.events) →
    rollbacksOf j out.events = (called conditions fn j).2.rollbackHooks

theorem runHooks_eq (call : H → Except Thrown Unit) (hooks : List H) :
    runHooks call hooks = hooks := by
  induction hooks with
  | nil => rfl
  | cons hook hooks ih =>
    unfold runHooks
    split
    all_goals rw [ih]

theorem rollbacksOf_map_self (k : Nat) (hooks : List H) :
    rollbacksOf k (hooks.map (.rollback k : H → Event W H)) = hooks := by
  simp [rollbacksOf, filterMap_map]

variable {k : Nat} {events : List (Event W H)}

theorem rollbacksOf_of_ne (h : ∀ event ∈ events, event.attempt ≠ k) : rollbacksOf k events =
    [] := by
  apply filterMap_eq_nil_iff.mpr
  intro event he
  have ha := h event he
  cases event with
  | committed | postCommit => rfl
  | rollback => exact if_neg ha

theorem mem_map_rollback {hooks : List H} {event : Event W H}
    (h : event ∈ hooks.map (.rollback k)) : event.isRollback = true ∧ event.attempt = k := by
  obtain ⟨hook, -, rfl⟩ := mem_map.mp h
  exact ⟨rfl, rfl⟩

variable {options timeouts conditions fn}

/-- The callback of attempt `k` does not return with an aborted transaction to a `COMMIT` that
reports no error. -/
def Unaborted (conditions : Nat → Conditions H) (fn : Nat → Callback V W H) (k : Nat) : Prop :=
  (called conditions fn k).1.isOk = true → (conditions k).commit = none →
    (called conditions fn k).2.tx.aborted = false

theorem attempt_error {error : Thrown} (h : attempt conditions fn k = (.error error, events)) :
    events = (called conditions fn k).2.rollbackHooks.map (.rollback k) := by
  simp only [attempt, runHooks_eq] at h
  split at h <;> cases h <;> rfl

theorem attempt_ok {value : V} (hu : Unaborted conditions fn k)
    (h : attempt conditions fn k = (.ok value, events)) :
    events = .committed k (called conditions fn k).2.tx.writes ::
      (called conditions fn k).2.postCommitHooks.map (.postCommit k) := by
  simp only [attempt, runHooks_eq] at h
  split at h <;> cases h
  next hc ho =>
  rw [hu (by rw [ho]; rfl) hc]
  rfl

/-- An attempt that returns and has a commit among its events was not aborted. -/
theorem unaborted_of_committed {value : V} (h : attempt conditions fn k = (.ok value, events))
    {j : Nat} {writes : List W} (hm : .committed j writes ∈ events) :
    Unaborted conditions fn k := by
  intro _ _
  simp only [attempt, runHooks_eq] at h
  split at h <;> cases h
  by_contra ha
  simp [ha] at hm

theorem unaborted_of_error {error : Thrown} (h : attempt conditions fn k = (.error error, events)) :
    Unaborted conditions fn k := by
  intro hr hc
  simp only [attempt] at h
  split at h
  · next he => cases he ▸ hr
  · next he => cases hc.symm.trans he
  · cases h

theorem agreesFrom_throw (k : Nat) (error : Thrown) : AgreesFrom conditions fn k
      ⟨.error error, (called conditions fn k).2.rollbackHooks.map (.rollback k), k + 1⟩ := by
  refine ⟨Nat.lt_succ_self k, ?_, fun _ h => (by cases h), ?_, ?_⟩
  · intro event he
    exact Nat.le_of_eq (mem_map_rollback he).2.symm
  · intro _ _ event he
    exact (mem_map_rollback he).1
  · intro j hf hl _
    obtain rfl : j = k := Nat.le_antisymm (Nat.le_of_lt_succ hl) hf
    exact rollbacksOf_map_self j _

theorem agreesFrom_return (k : Nat) (value : V) :
    AgreesFrom conditions fn k ⟨.ok value, .committed k (called conditions fn k).2.tx.writes ::
      (called conditions fn k).2.postCommitHooks.map (.postCommit k), k + 1⟩ := by
  refine ⟨Nat.lt_succ_self k, ?_, ?_, fun _ h => (by cases h), ?_⟩
  · intro event he
    rcases mem_cons.mp he with rfl | hh
    · exact Nat.le_refl k
    · obtain ⟨hook, -, rfl⟩ := mem_map.mp hh
      exact Nat.le_refl k
  · intro _ _
    exact ⟨k, [], Nat.le_refl k, Nat.lt_succ_self k, rfl, fun _ h => (by cases h)⟩
  · intro j hf hl hn
    obtain rfl : j = k := Nat.le_antisymm (Nat.le_of_lt_succ hl) hf
    exact absurd mem_cons_self (hn _)

/-- An attempt that is retried adds only its rollback hooks. -/
theorem AgreesFrom.cons {rest : Outcome V W H} (h : AgreesFrom conditions fn (k + 1) rest) :
    AgreesFrom conditions fn k { rest with
      events := (called conditions fn k).2.rollbackHooks.map (.rollback k) ++ rest.events } := by
  refine ⟨Nat.lt_of_succ_lt h.attempts, ?_, ?_, ?_, ?_⟩
  · intro event he
    rcases mem_append.mp he with hh | hr
    · exact Nat.le_of_eq (mem_map_rollback hh).2.symm
    · exact Nat.le_of_succ_le (h.later event hr)
  · intro value hv
    obtain ⟨i, before, hf, hl, hc, hb⟩ := h.returns value hv
    refine ⟨i, (called conditions fn k).2.rollbackHooks.map (.rollback k) ++ before,
      Nat.le_of_succ_le hf, hl, ?_, ?_⟩
    · exact (congrArg _ hc).trans (append_assoc _ _ _).symm
    · intro event he
      rcases mem_append.mp he with hh | ho
      · obtain ⟨hd, ha⟩ := mem_map_rollback hh
        exact ⟨hd, by omega⟩
      · exact hb event ho
  · intro error her event he
    rcases mem_append.mp he with hh | hr
    · exact (mem_map_rollback hh).1
    · exact h.throws error her event hr
  · intro j hf hl hn
    show rollbacksOf j (_ ++ rest.events) = _
    rw [rollbacksOf, filterMap_append]
    by_cases hg : j = k
    · subst hg
      have hr : rollbacksOf j rest.events = [] :=
        rollbacksOf_of_ne fun event he => Nat.ne_of_gt (h.later event he)
      exact (congrArg₂ (· ++ ·) (rollbacksOf_map_self j _) hr).trans (append_nil _)
    · have hi : rollbacksOf j
          ((called conditions fn k).2.rollbackHooks.map (.rollback k : H → Event W H)) = [] := by
        apply rollbacksOf_of_ne
        intro event he
        rw [(mem_map_rollback he).2]
        exact Ne.symm hg
      refine (congrArg₂ (· ++ ·) hi (h.rollbacks j (by omega) hl ?_)).trans
        (nil_append _)
      intro writes hm
      exact hn writes (mem_append_right _ hm)

variable (options timeouts conditions fn)

theorem retry_cases (left k : Nat) :
    (∃ value events, attempt conditions fn k = (.ok value, events) ∧
      retry options timeouts conditions fn left k = ⟨.ok value, events, k + 1⟩) ∨
    (∃ error events thrown, attempt conditions fn k = (.error error, events) ∧
      retry options timeouts conditions fn left k = ⟨.error thrown, events, k + 1⟩) ∨
    ∃ error events fewer rest, attempt conditions fn k = (.error error, events) ∧
      left = fewer + 1 ∧ rest = retry options timeouts conditions fn fewer (k + 1) ∧
      retry options timeouts conditions fn left k =
        { rest with events := events ++ rest.events } := by
  rw [retry]
  split
  · next value events ha => exact .inl ⟨value, events, ha, rfl⟩
  · next error events ha =>
    right
    split
    · exact .inl ⟨error, events, error, ha, rfl⟩
    · split
      · exact .inl ⟨_, events, _, ha, rfl⟩
      · split
        · cases left with
          | zero => exact .inl ⟨_, events, _, ha, rfl⟩
          | succ fewer => exact .inr ⟨_, events, fewer, _, ha, rfl, rfl, rfl⟩
        · exact .inl ⟨_, events, _, ha, rfl⟩
      · exact .inl ⟨_, events, _, ha, rfl⟩

theorem lt_attempts (left k : Nat) :
    k < (retry options timeouts conditions fn left k).attempts := by
  induction left using Nat.strongRecOn generalizing k with
  | ind left ih =>
    obtain ⟨_, _, -, hr⟩ | ⟨_, _, _, -, hr⟩ | ⟨_, _, fewer, rest, -, rfl, he, hr⟩ :=
      retry_cases options timeouts conditions fn left k
    · rw [hr]
      exact Nat.lt_succ_self k
    · rw [hr]
      exact Nat.lt_succ_self k
    · rw [hr, he]
      exact Nat.lt_of_succ_lt (ih fewer (Nat.lt_succ_self fewer) (k + 1))

theorem agreesFrom_retry (left k : Nat)
    (h : ∀ j < (retry options timeouts conditions fn left k).attempts, Unaborted conditions fn j) :
    AgreesFrom conditions fn k (retry options timeouts conditions fn left k) := by
  induction left using Nat.strongRecOn generalizing k with
  | ind left ih =>
    have hu := h k (lt_attempts options timeouts conditions fn left k)
    obtain ⟨value, events, ha, hr⟩ | ⟨error, events, thrown, ha, hr⟩ |
        ⟨error, events, fewer, rest, ha, rfl, he, hr⟩ :=
      retry_cases options timeouts conditions fn left k
    · rw [hr, attempt_ok hu ha]
      exact agreesFrom_return k value
    · rw [hr, attempt_error ha]
      exact agreesFrom_throw k thrown
    · rw [hr, he] at h
      rw [hr, attempt_error ha, he]
      exact (ih fewer (Nat.lt_succ_self fewer) (k + 1) h).cons

theorem unaborted_retry (left k : Nat)
    (h : ∀ value, (retry options timeouts conditions fn left k).result = .ok value →
      ∃ j writes, .committed j writes ∈ (retry options timeouts conditions fn left k).events) :
    ∀ j, k ≤ j → j < (retry options timeouts conditions fn left k).attempts →
      Unaborted conditions fn j := by
  induction left using Nat.strongRecOn generalizing k with
  | ind left ih =>
    intro j hk hj
    obtain ⟨value, events, ha, hr⟩ | ⟨error, events, thrown, ha, hr⟩ |
        ⟨error, events, fewer, rest, ha, rfl, he, hr⟩ :=
      retry_cases options timeouts conditions fn left k
    · rw [hr] at h hj
      obtain ⟨i, writes, hm⟩ := h value rfl
      obtain rfl : j = k := Nat.le_antisymm (Nat.le_of_lt_succ hj) hk
      exact unaborted_of_committed ha hm
    · rw [hr] at hj
      obtain rfl : j = k := Nat.le_antisymm (Nat.le_of_lt_succ hj) hk
      exact unaborted_of_error ha
    · rw [hr, he] at h hj
      rcases Nat.eq_or_lt_of_le hk with rfl | hl
      · exact unaborted_of_error ha
      · refine ih fewer (Nat.lt_succ_self fewer) (k + 1) (fun value hv => ?_) j hl hj
        obtain ⟨i, writes, hm⟩ := h value hv
        rw [attempt_error ha] at hm
        rcases mem_append.mp hm with hm | hm
        · cases (mem_map_rollback hm).1
        · exact ⟨i, writes, hm⟩

/-- The outcome of `withTransaction`, its one commit and the hooks that run agree precisely when
in no attempt a callback returns with an aborted transaction to a `COMMIT` without an error. -/
theorem transaction_hooks_agree :
    AgreesFrom conditions fn 0 (withTransaction options timeouts conditions fn) ↔
      ∀ k < (withTransaction options timeouts conditions fn).attempts,
        Unaborted conditions fn k := by
  constructor
  · intro h k
    refine unaborted_retry options timeouts conditions fn _ 0 (fun value hv => ?_) k k.zero_le
    obtain ⟨j, before, -, -, he, -⟩ := h.returns value hv
    exact ⟨j, _, he ▸ mem_append_right before mem_cons_self⟩
  · exact agreesFrom_retry options timeouts conditions fn _ 0

end

def contended : Nat → Conditions String := fun k =>
  { connect := none
    setup := none
    answers := fun _ => if k = 0 then .fails ⟨some pgLockTimeoutCode, "lock"⟩ else .succeeds
    commit := none
    hook := fun _ => .error .typeError }

def careful : Callback Nat String String :=
  .runPostCommit "publish" (.runRollback "compensate" ((Callback.query (.write "row") fun error =>
    match error with
    | none => .done 1
    | some error => .throw (.error error)).nest fun result =>
      match result with
      | .ok value => .done value
      | .error error => .throw error))

def retrying : TransactionOptions := ⟨none, none, true, 3⟩

theorem transaction_hooks_agree_contended :
    (withTransaction retrying fallbackTimeouts contended fun _ => careful).events =
        [.rollback 0 "compensate", .committed 1 ["row"], .postCommit 1 "publish"] ∧
      AgreesFrom contended (fun _ => careful) 0
        (withTransaction retrying fallbackTimeouts contended fun _ => careful) := by
  refine ⟨by decide +kernel, (transaction_hooks_agree _ _ _ _).mpr ?_⟩
  intro k _
  by_cases hf : k = 0
  · subst hf
    intro ho
    cases ho
  · intro _ _
    simp [called, contended, hf, careful, Callback.nest, Callback.run, TransactionContext.new,
      Transaction.execute]

def forgiving : Callback Nat String String :=
  .runPostCommit "publish" (.runRollback "compensate" (.query (.write "row") fun _ => .done 1))

/-- `withTransaction` returns, nothing is committed, the post-commit hook has run and the rollback
hook has not. -/
theorem committed_without_commit :
    let out := withTransaction retrying fallbackTimeouts contended fun _ => forgiving
    out.result = .ok 1 ∧ out.events = [.postCommit 0 "publish"] := by
  decide +kernel

end Credence.Db
