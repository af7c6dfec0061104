import Credence.ProofKit.Lists
import Credence.ProofKit.Runs
import Mathlib.Tactic.Linarith

/-! `CircuitBreaker`: overlapping `execute` calls. An operation is judged by the state in which it
settles, so one from before the breaker opened can close it again. -/

namespace Credence.Clients

open ProofKit List Option

inductive BreakerState where
  | closed
  | opened
  | halfOpen
  deriving DecidableEq

structure CircuitBreakerConfig where
  failureThreshold : ℚ
  openWindowMs : Option ℚ
  halfOpenAfterMs : Option ℚ
  cooldownPeriodMs : Option ℚ

def circuitBreakerOpenWindowMs : ℚ := 10000

def circuitBreakerHalfOpenAfterMs : ℚ := 30000

structure CircuitBreaker where
  host : String
  failureThreshold : ℚ
  halfOpenAfterMs : ℚ
  state : BreakerState
  failureCount : Nat
  openedAt : ℚ
  activeProbes : Nat
  deriving DecidableEq

structure SorobanClientError where
  code : String
  message : String
  deriving DecidableEq

namespace CircuitBreaker

def new (host : String) (config : CircuitBreakerConfig) : CircuitBreaker :=
  let resolvedHalfOpen :=
    (config.halfOpenAfterMs.or config.cooldownPeriodMs).getD circuitBreakerHalfOpenAfterMs
  let openWindowMs := config.openWindowMs.getD circuitBreakerOpenWindowMs
  { host
    failureThreshold := config.failureThreshold
    halfOpenAfterMs := max resolvedHalfOpen openWindowMs
    state := .closed
    failureCount := 0
    openedAt := 0
    activeProbes := 0 }

variable (breaker : CircuitBreaker) (now : ℚ)

def transitionTo : BreakerState → CircuitBreaker
  | .opened => { breaker with state := .opened, openedAt := now, activeProbes := 0 }
  | .closed => { breaker with state := .closed, failureCount := 0, activeProbes := 0 }
  | .halfOpen => { breaker with state := .halfOpen, activeProbes := 0 }

def checkTimers : CircuitBreaker :=
  if breaker.state = .opened ∧ now - breaker.openedAt ≥ breaker.halfOpenAfterMs then
    breaker.transitionTo now .halfOpen
  else breaker

/-- `execute` up to the call of `fn`, which is not made where there is an error. -/
def enter : CircuitBreaker × Option SorobanClientError :=
  let breaker := breaker.checkTimers now
  match breaker.state with
  | .opened =>
    (breaker, some ⟨"NETWORK_ERROR", "Soroban circuit breaker is OPEN for host: " ++ breaker.host⟩)
  | .halfOpen =>
    if breaker.activeProbes ≥ 1 then
      (breaker, some ⟨"NETWORK_ERROR", "Soroban circuit breaker is HALF_OPEN for host: " ++
        breaker.host ++ " and a probe is already in progress"⟩)
    else ({ breaker with activeProbes := breaker.activeProbes + 1 }, none)
  | .closed => (breaker, none)

def recordSuccess : CircuitBreaker :=
  match breaker.state with
  | .halfOpen => breaker.transitionTo now .closed
  | .closed => { breaker with failureCount := 0 }
  | .opened => breaker

def recordFailure : CircuitBreaker :=
  match breaker.state with
  | .closed =>
    let counted := { breaker with failureCount := breaker.failureCount + 1 }
    if (counted.failureCount : ℚ) ≥ counted.failureThreshold then counted.transitionTo now .opened
    else counted
  | .halfOpen => breaker.transitionTo now .opened
  | .opened => breaker

end CircuitBreaker

/-- A started operation, with the number of the `HALF_OPEN` period that it was started in. -/
structure Operation where
  startedAt : ℚ
  period : Option Nat
  settled : Bool
  deriving DecidableEq

/-- `periods` counts the times that the breaker became `HALF_OPEN`, and `openings` has the times at
which it opened. -/
structure World where
  breaker : CircuitBreaker
  now : ℚ
  operations : List Operation
  periods : Nat
  openings : List ℚ
  rejections : List SorobanClientError
  deriving DecidableEq

def World.start (host : String) (config : CircuitBreakerConfig) (now : ℚ) : World :=
  ⟨.new host config, now, [], 0, [], []⟩

def World.move (s : World) (now : ℚ) (breaker : CircuitBreaker) : World := { s with
    breaker
    now
    periods :=
      if s.breaker.state ≠ .halfOpen ∧ breaker.state = .halfOpen then s.periods + 1 else s.periods
    openings :=
      if s.breaker.state ≠ .opened ∧ breaker.state = .opened then s.openings ++ [now]
      else s.openings }

def World.period (s : World) : Option Nat :=
  if s.breaker.state = .halfOpen then some s.periods else none

inductive Action where
  | getState (now : ℚ)
  | execute (now : ℚ)
  | settle (now : ℚ) (operation : Nat) (succeeds : Bool)

def Action.now : Action → ℚ
  | .getState now | .execute now | .settle now _ _ => now

def World.execute (s : World) (now : ℚ) : World :=
  match s.breaker.enter now with
  | (breaker, some error) =>
    { s.move now breaker with rejections := s.rejections ++ [error] }
  | (breaker, none) =>
    let entered := s.move now breaker
    { entered with operations := s.operations ++ [⟨now, entered.period, false⟩] }

def World.settle (s : World) (now : ℚ) (operation : Nat) (succeeds : Bool) : World :=
  let settled := s.move now
    (if succeeds then s.breaker.recordSuccess now else s.breaker.recordFailure now)
  { settled with
    operations := s.operations.modify operation fun op => { op with settled := true } }

def step (action : Action) (s : World) : Option World :=
  if action.now < s.now then none
  else
    match action with
    | .getState now => some (s.move now (s.breaker.checkTimers now))
    | .execute now => some (s.execute now)
    | .settle now operation succeeds =>
      if (s.operations[operation]?).any fun op => !op.settled then
        some (s.settle now operation succeeds)
      else none

def World.Probes (s : World) (i : Nat) : Prop :=
  ∃ op, s.operations[i]? = some op ∧ op.period = some s.periods

/-- What is known of the operations and the openings; `window` is the breaker's
`halfOpenAfterMs`. -/
structure Ok (window : ℚ) (s : World) : Prop where
  configured : s.breaker.halfOpenAfterMs = window
  past : ∀ {i : Nat} {op : Operation}, s.operations[i]? = some op → op.startedAt ≤ s.now
  numbered : ∀ {i n : Nat} {op : Operation}, s.operations[i]? = some op → op.period = some n →
    n ≤ s.periods
  before : s.breaker.state = .opened → ∀ {i : Nat} {op : Operation},
    s.operations[i]? = some op → op.startedAt ≤ s.breaker.openedAt
  waited : ∀ {o : ℚ}, o ∈ s.openings →
    o + window ≤ s.now ∨ s.breaker.state = .opened ∧ o = s.breaker.openedAt
  stale : s.breaker.state = .halfOpen → ∀ {i : Nat} {op : Operation},
    s.operations[i]? = some op → op.period = some s.periods ∨ op.startedAt + window ≤ s.now
  counted : s.breaker.state = .halfOpen → ∀ {i : Nat}, s.Probes i → 1 ≤ s.breaker.activeProbes
  single : s.breaker.state = .halfOpen → ∀ {i j : Nat}, s.Probes i → s.Probes j → i = j

variable {host : String} {config : CircuitBreakerConfig} {window now : ℚ} {s t : World}

theorem Ok.start :
    Ok (CircuitBreaker.new host config).halfOpenAfterMs (.start host config now) := by
  constructor
  all_goals simp [World.start, CircuitBreaker.new, World.Probes]

theorem Ok.advance (h : Ok window s) (hn : s.now ≤ now) : Ok window { s with now := now } where
  __ := h
  past := by
    intro i op hg
    exact (h.past hg).trans hn
  waited := by
    intro o hm
    exact (h.waited hm).imp_left fun hp => hp.trans hn
  stale := by
    intro hs i op hg
    exact (h.stale hs hg).imp_right fun hp => hp.trans hn

theorem World.move_self (s : World) : s.move s.now s.breaker = s := by
  simp [World.move]

theorem Ok.becomeHalfOpen (h : Ok window s) (hs : s.breaker.state = .opened)
    (he : s.breaker.openedAt + window ≤ s.now) :
    Ok window (s.move s.now (s.breaker.transitionTo s.now .halfOpen)) := by
  have hn : ∀ {i : Nat} {op : Operation}, s.operations[i]? = some op →
      op.period ≠ some (s.periods + 1) := by
    intro i op hg hp
    have := h.numbered hg hp
    omega
  have hm : s.move s.now (s.breaker.transitionTo s.now .halfOpen) = { s with
        breaker := s.breaker.transitionTo s.now .halfOpen
        periods := s.periods + 1 } := by
    simp [World.move, hs, CircuitBreaker.transitionTo]
  rw [hm]
  refine ⟨h.configured, h.past, ?_, ?_, ?_, ?_, ?_, ?_⟩
  · intro i n op hg hp
    exact Nat.le_succ_of_le (h.numbered hg hp)
  · intro ho
    cases ho
  · intro o ha
    left
    rcases h.waited ha with hc | ⟨-, rfl⟩
    · exact hc
    · exact he
  · intro _ i op hg
    have hb := h.before hs hg
    right
    show op.startedAt + window ≤ s.now
    linarith
  · rintro - i ⟨op, hg, hp⟩
    exact absurd hp (hn hg)
  · rintro - i j ⟨op, hg, hp⟩ -
    exact absurd hp (hn hg)

theorem Ok.checkTimers (h : Ok window s) :
    Ok window (s.move s.now (s.breaker.checkTimers s.now)) := by
  rw [CircuitBreaker.checkTimers]
  split
  · next ht =>
    apply h.becomeHalfOpen ht.1
    have he := ht.2
    rw [h.configured] at he
    linarith
  · rw [World.move_self]
    exact h

variable {breaker : CircuitBreaker} {a : Action} {op : Operation} {o : ℚ}

theorem Ok.waited_of_not_opened (h : Ok window s) (hs : s.breaker.state ≠ .opened)
    (hm : o ∈ s.openings) : o + window ≤ s.now :=
  (h.waited hm).resolve_right fun ho => hs ho.1

theorem Ok.begin (h : Ok window s)
    (hs : breaker.state = s.breaker.state ∧ breaker.halfOpenAfterMs = s.breaker.halfOpenAfterMs)
    (ht : s.breaker.state ≠ .opened)
    (hr : s.breaker.state = .halfOpen → s.breaker.activeProbes = 0 ∧ 1 ≤ breaker.activeProbes) :
    Ok window { s with
      breaker
      operations := s.operations ++ [⟨s.now, s.period, false⟩] } := by
  have hn : s.breaker.state = .halfOpen → ∀ {i : Nat}, ¬ s.Probes i := by
    intro hh i ha
    have hc := h.counted hh ha
    rw [(hr hh).1] at hc
    cases hc
  have hl : ∀ {i : Nat}, s.breaker.state = .halfOpen → World.Probes { s with
        breaker, operations := s.operations ++ [⟨s.now, s.period, false⟩] } i →
      i = s.operations.length := by
    rintro i hh ⟨op, hg, hp⟩
    rcases getElem?_concat_eq_some_iff.mp hg with hb | ⟨hd, -⟩
    · exact absurd ⟨op, hb, hp⟩ (hn hh)
    · exact hd
  refine ⟨hs.2.trans h.configured, ?_, ?_, ?_, ?_, ?_, ?_, ?_⟩
  · intro i op hg
    rcases getElem?_concat_eq_some_iff.mp hg with hb | ⟨-, rfl⟩
    · exact h.past hb
    · exact le_refl _
  · intro i n op hg hp
    rcases getElem?_concat_eq_some_iff.mp hg with hb | ⟨-, rfl⟩
    · exact h.numbered hb hp
    · simp only [World.period, ite_none_right_eq_some, Option.some.injEq] at hp
      exact Nat.le_of_eq hp.2.symm
  · intro ho
    exact absurd (hs.1.symm.trans ho) ht
  · exact fun hm => .inl (h.waited_of_not_opened ht hm)
  · intro hh i op hg
    rcases getElem?_concat_eq_some_iff.mp hg with hb | ⟨-, rfl⟩
    · exact h.stale (hs.1.symm.trans hh) hb
    · left
      simp only [World.period]
      rw [if_pos (hs.1.symm.trans hh)]
  · intro hh i _
    exact (hr (hs.1.symm.trans hh)).2
  · intro hh i j hI hJ
    have hb := hs.1.symm.trans hh
    rw [hl hb hI, hl hb hJ]

theorem Ok.reject (h : Ok window s) (rejections : List SorobanClientError) :
    Ok window { s with rejections := rejections } :=
  { h with }

theorem enter_cases (breaker : CircuitBreaker) (now : ℚ) :
    (∃ error, breaker.enter now = (breaker.checkTimers now, some error)) ∨
    ∃ probes, breaker.enter now = ({ breaker.checkTimers now with activeProbes := probes }, none) ∧
      (breaker.checkTimers now).state ≠ .opened ∧
      ((breaker.checkTimers now).state = .halfOpen →
        (breaker.checkTimers now).activeProbes = 0 ∧ 1 ≤ probes) := by
  unfold CircuitBreaker.enter
  simp only
  split
  · exact .inl ⟨_, rfl⟩
  · next hs =>
    split
    · exact .inl ⟨_, rfl⟩
    · exact .inr ⟨_, rfl, by simp [hs], fun _ => ⟨by omega, Nat.le_add_left 1 _⟩⟩
  · next hs => exact .inr ⟨_, rfl, by simp [hs], by simp [hs]⟩

section

variable (h : Ok window s)
include h

theorem Ok.execute : Ok window (s.execute s.now) := by
  have ht := h.checkTimers
  rw [World.execute]
  rcases enter_cases s.breaker s.now with ⟨error, he⟩ | ⟨probes, he, hs, hp⟩
  · rw [he]
    exact ht.reject _
  · rw [he]
    exact ht.begin ⟨rfl, rfl⟩ hs hp

theorem Ok.settleOperation (i : Nat) : Ok window { s with
      operations := s.operations.modify i fun op => { op with settled := true } } := by
  have ha : ∀ {j : Nat} {op : Operation},
      (s.operations.modify i fun op => { op with settled := true })[j]? = some op →
      ∃ old, s.operations[j]? = some old ∧ old.startedAt = op.startedAt ∧
        old.period = op.period := by
    intro j op hg
    obtain ⟨old, ho, rfl⟩ := getElem?_modify_eq_some hg
    refine ⟨old, ho, ?_⟩
    split
    · exact ⟨rfl, rfl⟩
    · exact ⟨rfl, rfl⟩
  have hp : ∀ {j : Nat}, World.Probes { s with
      operations := s.operations.modify i fun op => { op with settled := true } } j →
      s.Probes j := by
    rintro j ⟨op, hg, he⟩
    obtain ⟨old, ho, -, hb⟩ := ha hg
    exact ⟨old, ho, hb.trans he⟩
  refine ⟨h.configured, ?_, ?_, ?_, h.waited, ?_, ?_, ?_⟩
  · intro j op hg
    obtain ⟨old, ho, ht, -⟩ := ha hg
    rw [← ht]
    exact h.past ho
  · intro j n op hg he
    obtain ⟨old, ho, -, hb⟩ := ha hg
    exact h.numbered ho (hb.trans he)
  · intro hs j op hg
    obtain ⟨old, ho, ht, -⟩ := ha hg
    rw [← ht]
    exact h.before hs ho
  · intro hs j op hg
    obtain ⟨old, ho, ht, hb⟩ := ha hg
    rw [← ht, ← hb]
    exact h.stale hs ho
  · intro hs j hJ
    exact h.counted hs (hp hJ)
  · intro hs j k hJ hK
    exact h.single hs (hp hJ) (hp hK)

theorem Ok.close (hs : s.breaker.state ≠ .opened) (hc : breaker.state = .closed)
    (ha : breaker.halfOpenAfterMs = s.breaker.halfOpenAfterMs) :
    Ok window (s.move s.now breaker) := by
  have hm : s.move s.now breaker = { s with breaker } := by
    simp [World.move, hc]
  rw [hm]
  refine ⟨ha.trans h.configured, h.past, h.numbered, ?_, ?_, ?_, ?_, ?_⟩
  · intro ho
    cases hc.symm.trans ho
  · exact fun he => .inl (h.waited_of_not_opened hs he)
  all_goals
    intro hh
    cases hc.symm.trans hh

theorem Ok.open (hs : s.breaker.state ≠ .opened) (ho : breaker.state = .opened)
    (ht : breaker.openedAt = s.now)
    (ha : breaker.halfOpenAfterMs = s.breaker.halfOpenAfterMs) :
    Ok window (s.move s.now breaker) := by
  have hm : s.move s.now breaker = { s with breaker, openings := s.openings ++ [s.now] } := by
    simp [World.move, ho, hs]
  rw [hm]
  refine ⟨ha.trans h.configured, h.past, h.numbered, ?_, ?_, ?_, ?_, ?_⟩
  · intro _ i op hg
    show op.startedAt ≤ breaker.openedAt
    rw [ht]
    exact h.past hg
  · intro o he
    rcases mem_append.mp he with hb | hn
    · exact .inl (h.waited_of_not_opened hs hb)
    · right
      exact ⟨ho, (mem_singleton.mp hn).trans ht.symm⟩
  all_goals
    intro hh
    cases ho.symm.trans hh

theorem Ok.recordSuccess : Ok window (s.move s.now (s.breaker.recordSuccess s.now)) := by
  rw [CircuitBreaker.recordSuccess]
  cases hs : s.breaker.state with
  | halfOpen | closed => exact h.close (by rw [hs]; decide) rfl rfl
  | opened =>
    simp only
    rw [World.move_self]
    exact h

theorem Ok.recordFailure : Ok window (s.move s.now (s.breaker.recordFailure s.now)) := by
  rw [CircuitBreaker.recordFailure]
  cases hs : s.breaker.state with
  | halfOpen => exact h.open (by rw [hs]; decide) rfl rfl rfl
  | closed =>
    simp only
    split
    · exact h.open (by rw [hs]; decide) rfl rfl rfl
    · exact h.close (by rw [hs]; decide) rfl rfl
  | opened =>
    simp only
    rw [World.move_self]
    exact h

theorem Ok.settle (i : Nat) (succeeds : Bool) : Ok window (s.settle s.now i succeeds) := by
  rw [World.settle]
  cases succeeds with
  | true => exact h.recordSuccess.settleOperation i
  | false => exact h.recordFailure.settleOperation i

theorem Ok.step (hs : step a s = some t) : Ok window t := by
  unfold Clients.step at hs
  split at hs
  · cases hs
  · next hn =>
    have hl := h.advance (not_lt.mp hn)
    cases a with
    | getState =>
      cases hs
      exact hl.checkTimers
    | execute =>
      cases hs
      exact hl.execute
    | settle now i succeeds =>
      obtain ⟨-, he⟩ := ite_none_right_eq_some.mp hs
      cases he
      exact hl.settle i succeeds

end

theorem Ok.of_run {acts : List Action}
    (hr : run Clients.step acts (.start host config now) = some s) :
    Ok (CircuitBreaker.new host config).halfOpenAfterMs s :=
  run_invariant (Ok _) (fun _ _ _ h _ hs => h.step hs) Ok.start (along_anyAction acts _) hr

/-! ### The end of a period -/

/-- The operation settles sooner than `halfOpenAfterMs` after its start. -/
def InTime : Action → World → Prop
  | .settle now i _, s => (s.operations[i]?).all (fun op =>
      now < op.startedAt + s.breaker.halfOpenAfterMs) = true
  | .getState _, _ | .execute _, _ => True

instance (a : Action) (s : World) : Decidable (InTime a s) :=
  match a with
  | .settle _ _ _ => inferInstanceAs (Decidable (_ = true))
  | .getState _ | .execute _ => isTrue trivial

theorem state_checkTimers (hh : s.breaker.state = .halfOpen) (now : ℚ) :
    (s.breaker.checkTimers now).state = .halfOpen := by
  rw [CircuitBreaker.checkTimers, if_neg]
  · exact hh
  · rw [hh]
    simp

theorem settles_of_end (hs : step a s = some t) (hh : s.breaker.state = .halfOpen)
    (he : t.breaker.state ≠ .halfOpen) :
    ∃ now i succeeds op, a = .settle now i succeeds ∧ s.operations[i]? = some op ∧ s.now ≤ now ∧
      t.breaker.state = if succeeds then .closed else .opened := by
  unfold step at hs
  split at hs
  · cases hs
  · next hn =>
    cases a with
    | getState now =>
      cases hs
      exact absurd (state_checkTimers hh now) he
    | execute now =>
      cases hs
      have ht := state_checkTimers hh now
      rw [World.execute] at he
      rcases enter_cases s.breaker now with ⟨error, ha⟩ | ⟨probes, ha, -⟩
      all_goals
        rw [ha] at he
        exact absurd ht he
    | settle now i succeeds =>
      obtain ⟨hp, hb⟩ := ite_none_right_eq_some.mp hs
      cases hb
      obtain ⟨op, hg, -⟩ := (any_eq_true _ _).mp hp
      refine ⟨now, i, succeeds, op, rfl, hg, not_lt.mp hn, ?_⟩
      cases succeeds with
      | true => simp [World.settle, World.move, CircuitBreaker.recordSuccess, hh,
          CircuitBreaker.transitionTo]
      | false => simp [World.settle, World.move, CircuitBreaker.recordFailure, hh,
          CircuitBreaker.transitionTo]

theorem mem_openings_move (ho : o ∈ s.openings) (now : ℚ) (breaker : CircuitBreaker) :
    o ∈ (s.move now breaker).openings := by
  rw [World.move]
  simp only
  split
  · exact mem_append_left _ ho
  · exact ho

theorem Ok.started (h : Ok window s) (hs : Clients.step a s = some t)
    (ht : t.operations = s.operations ++ [op]) (ho : o ∈ s.openings) :
    o + window ≤ op.startedAt := by
  have ha := h.step hs
  have hl := congrArg length ht
  rw [length_append, length_singleton] at hl
  unfold Clients.step at hs
  split at hs
  · cases hs
  · cases a with
    | getState =>
      cases hs
      exact absurd hl (Nat.ne_of_lt (Nat.lt_succ_self _))
    | settle =>
      obtain ⟨-, hb⟩ := ite_none_right_eq_some.mp hs
      cases hb
      simp [World.settle] at hl
    | execute now =>
      cases hs
      rw [World.execute] at ht ha hl
      rcases enter_cases s.breaker now with ⟨error, he⟩ | ⟨probes, he, hc, -⟩
      · rw [he] at hl
        exact absurd hl (Nat.ne_of_lt (Nat.lt_succ_self _))
      · rw [he] at ht ha
        rw [← singleton_inj.mp (append_cancel_left ht)]
        exact ha.waited_of_not_opened hc (mem_openings_move ho now _)

/-- In every run: at most one operation of a `HALF_OPEN` period is outstanding; the period is ended
by a settlement of its own, unless an operation settles too late, and closed by a success, opened by
a failure; and no operation starts sooner than `halfOpenAfterMs` after an opening. -/
theorem probe_decides {acts : List Action}
    (hRun : run step acts (.start host config now) = some s) :
    (s.breaker.state = .halfOpen → ∀ (i j : Nat) (op other : Operation),
      s.operations[i]? = some op → op.period = some s.periods → op.settled = false →
      s.operations[j]? = some other → other.period = some s.periods → other.settled = false →
      i = j) ∧
    (∀ a t, step a s = some t → InTime a s → s.breaker.state = .halfOpen →
      t.breaker.state ≠ .halfOpen → ∃ now i succeeds, a = .settle now i succeeds ∧ s.Probes i ∧
        t.breaker.state = if succeeds then .closed else .opened) ∧
    ∀ a t op, step a s = some t → t.operations = s.operations ++ [op] → ∀ o ∈ s.openings,
      o + s.breaker.halfOpenAfterMs ≤ op.startedAt := by
  have ho := Ok.of_run hRun
  refine ⟨?_, ?_, ?_⟩
  · intro hh i j op other hg hp _ ht ha _
    exact ho.single hh ⟨op, hg, hp⟩ ⟨other, ht, ha⟩
  · intro a t hs hit hh he
    obtain ⟨now, i, succeeds, op, rfl, hg, hn, hb⟩ := settles_of_end hs hh he
    refine ⟨now, i, succeeds, rfl, ?_, hb⟩
    have hc : now < op.startedAt + s.breaker.halfOpenAfterMs := by
      simpa [InTime, hg] using hit
    rw [ho.configured] at hc
    rcases ho.stale hh hg with hp | hd
    · exact ⟨op, hg, hp⟩
    · exact absurd (hd.trans hn) (not_le.mpr hc)
  · intro a t op hs hs1 o hope
    rw [ho.configured]
    exact ho.started hs hs1 hope

def oneFailure : CircuitBreakerConfig := ⟨1, none, none, none⟩

def probing : World where
  breaker := ⟨"rpc", 1, 30000, .halfOpen, 1, 1, 1⟩
  now := 30001
  operations := [⟨0, none, true⟩, ⟨30001, some 1, false⟩]
  periods := 1
  openings := [1]
  rejections := []

theorem run_probing : run step [.execute 0, .settle 1 0 false, .execute 30001]
    (.start "rpc" oneFailure 0) = some probing := by
  decide +kernel

theorem probe_decides_probing : InTime (.settle 30002 1 true) probing ∧
    ∃ t, step (.settle 30002 1 true) probing = some t ∧ t.breaker.state = .closed ∧
      ∃ now i succeeds, Action.settle 30002 1 true = .settle now i succeeds ∧ probing.Probes i ∧
        t.breaker.state = if succeeds then .closed else .opened := by
  have hit : InTime (.settle 30002 1 true) probing := by decide +kernel
  obtain ⟨t, hs, ht⟩ : ∃ t, step (.settle 30002 1 true) probing = some t ∧
      t.breaker.state = .closed := ⟨_, rfl, rfl⟩
  refine ⟨hit, t, hs, ht, ?_⟩
  exact (probe_decides run_probing).2.1 _ t hs hit rfl (by rw [ht]; decide)

def slowOperation : List Action := [.execute 0, .execute 0, .settle 1 1 false, .getState 30001]

def World.view (s : World) : BreakerState × Nat × List (Option Nat × Bool) :=
  (s.breaker.state, s.periods, s.operations.map fun op => (op.period, op.settled))

/-- The success of an operation from before the opening closes a `HALF_OPEN` breaker, and its
failure opens it again, without a probe. -/
theorem slow_operation_decides :
    (run step slowOperation (.start "rpc" oneFailure 0)).map World.view =
      some (.halfOpen, 1, [(none, false), (none, true)]) ∧
    (run step (slowOperation ++ [.settle 30001 0 true]) (.start "rpc" oneFailure 0)).map
      World.view = some (.closed, 1, [(none, true), (none, true)]) ∧
    (run step (slowOperation ++ [.settle 30001 0 false]) (.start "rpc" oneFailure 0)).map
      World.view = some (.opened, 1, [(none, true), (none, true)]) := by
  refine ⟨?_, ?_, ?_⟩
  · decide +kernel
  · decide +kernel
  · decide +kernel

end Credence.Clients
