import Credence.Imports.Turns
import Credence.ProofKit.Lists
import Credence.ProofKit.Runs

/-! The invariant of overlapping imports: who holds the lock of a key, what a call has written, and
what the checkpoint says of it. -/

namespace Credence.Imports

open Js ProofKit List Option

def Stage.isLate : Stage → Bool
  | writing _ _ _ _ | ended => true
  | _ => false

theorem Stage.not_late_of_early {stage : Stage} (h : stage.isEarly = true) :
    ¬ stage.isLate = true := by
  cases stage <;> simp_all [Stage.isEarly, Stage.isLate]

def Event.written (env : Env) : Event → Option (String × String)
  | ended call rowKey _ true => some (env.keyOf call, rowKey)
  | _ => none

def Event.rowKey : Event → String
  | called _ rowKey _ | ended _ rowKey _ _ => rowKey

def Event.row : Event → ValidatedImportRow
  | called _ _ row | ended _ _ row _ => row

def Accepts (outcomes : List (String × ImportRowOutcome)) (rowKey : String) : Prop :=
  ∃ outcome, Map.get rowKey outcomes = some outcome ∧ outcome.status = .accepted

def Keeps (earlier later : List ImportRowOutcome) : Prop :=
  ∀ outcome ∈ earlier, outcome.status = .accepted →
    ∀ next ∈ later, next.rowKey = outcome.rowKey → next.status = .accepted

structure Holds (env : Env) (w : World) (id : CallId) : Prop where
  ticket : ∃ previous, Map.get id w.lock.tickets = some ⟨env.keyOf id, previous, false⟩
  ready : w.lock.ready id = true

structure Agrees (env : Env) (w : World) (id : CallId) (file : ImportFile)
    (checkpoint : ImportCheckpoint) : Prop where
  present : Map.get (env.keyOf id) w.checkpoints = some checkpoint
  fingerprint : checkpoint.fingerprint = importFingerprint env.hash file

/-- What holds while the call writes `row`. -/
structure Writes (env : Env) (w : World) (id : CallId) (file : ImportFile)
    (rows : List ValidatedImportRow) (row : ValidatedImportRow) (rest : List ValidatedImportRow)
    (tally : Tally) : Prop where
  holds : Holds env w id
  collected : collectValidatedImportRows env.csv file = some rows
  checkpoint : ∃ checkpoint, Agrees env w id file checkpoint ∧
    ¬ Accepts checkpoint.outcomes (env.rowKey file row) ∧
    ∀ outcome ∈ tally.rowOutcomes, outcome.status = .accepted →
      Accepts checkpoint.outcomes outcome.rowKey
  counted : tally.Ok (env.keys file rows) (env.keys file (row :: rest))
  kept : ∀ other body, (other, .committed body) ∈ w.responses → env.keyOf other = env.keyOf id →
    Keeps body.rowOutcomes tally.rowOutcomes
  alone : AloneSince (fun x y => env.keyOf x = env.keyOf y) (w.log.map Event.call) id

def Logged (env : Env) (w : World) (event : Event) : Prop :=
  ∃ call checkpoint, Map.get event.call w.calls = some call ∧ call.stage.isLate = true ∧
    Agrees env w event.call call.file checkpoint ∧
    event.rowKey = env.rowKey call.file event.row ∧
    (event.written env ≠ none → Accepts checkpoint.outcomes event.rowKey)

def Responded (env : Env) (w : World) (id : CallId) (body : ImportCommitSuccessBody) : Prop :=
  ∃ call checkpoint rows tally, Map.get id w.calls = some call ∧ call.stage.isLate = true ∧
    Agrees env w id call.file checkpoint ∧
    collectValidatedImportRows env.csv call.file = some rows ∧
    tally.Ok (env.keys call.file rows) [] ∧
    body = successBody checkpoint.operationId rows.length tally ∧
    ∀ outcome ∈ tally.rowOutcomes, outcome.status = .accepted →
      Accepts checkpoint.outcomes outcome.rowKey

structure Ok (env : Env) (w : World) : Prop where
  queued : ∀ key, ∃ queue, PromiseLock.Queued w.lock key queue
  outside : ∀ id, (∀ call, Map.get id w.calls = some call → call.stage.isEarly = true) →
    Map.get id w.lock.tickets = none
  inside : ∀ id key previous, Map.get id w.lock.tickets = some ⟨key, previous, false⟩ →
    key = env.keyOf id ∧ ∃ call, Map.get id w.calls = some call ∧ call.stage ≠ .ended
  waits : ∀ id file rows, Map.get id w.calls = some ⟨file, .waiting rows⟩ →
    (∃ previous, Map.get id w.lock.tickets = some ⟨env.keyOf id, previous, false⟩) ∧
      collectValidatedImportRows env.csv file = some rows
  writes : ∀ id file rows row rest tally,
    Map.get id w.calls = some ⟨file, .writing rows row rest tally⟩ →
    Writes env w id file rows row rest tally
  keyed : ∀ key checkpoint, Map.get key w.checkpoints = some checkpoint → Keyed checkpoint.outcomes
  logged : ∀ event ∈ w.log, Logged env w event
  once : (w.log.filterMap (Event.written env)).Nodup
  uninterrupted : Uninterrupted (fun x y => env.keyOf x = env.keyOf y) (w.log.map Event.call)
  responded : ∀ id body, (id, .committed body) ∈ w.responses → Responded env w id body
  conflicted : ∀ id body, (id, .conflict body) ∈ w.responses → body = conflictBody
  kept : w.responses.Pairwise fun earlier later => env.keyOf earlier.1 = env.keyOf later.1 →
    ∀ before after, earlier.2 = .committed before → later.2 = .committed after →
      Keeps before.rowOutcomes after.rowOutcomes

theorem ok_start (env : Env) : Ok env .start where
  queued key := ⟨[], PromiseLock.queued_empty key⟩
  outside _ _ := rfl
  inside _ _ _ h := by cases h
  waits _ _ _ h := by cases h
  writes _ _ _ _ _ _ h := by cases h
  keyed _ _ h := by cases h
  logged _ h := by cases h
  once := nodup_nil
  uninterrupted before between after call h := by cases before <;> cases h
  responded _ _ h := by cases h
  conflicted _ _ h := by cases h
  kept := .nil

variable {env : Env} {w : World} {id other : CallId}

theorem Ok.exclusive (h : Ok env w) (hi : Holds env w id) (ho : Holds env w other)
    (hk : env.keyOf id = env.keyOf other) : id = other := by
  obtain ⟨queue, hq⟩ := h.queued (env.keyOf id)
  refine hq.exclusive ?_ ?_ hi.ready ho.ready
  · exact (hq.members id).mpr hi.ticket
  · exact (hq.members other).mpr (hk ▸ ho.ticket)

/-- Files, checkpoints and accepted rows stay. -/
structure Grows (before after : World) : Prop where
  calls : ∀ id call, Map.get id before.calls = some call → ∃ later,
    Map.get id after.calls = some later ∧ later.file = call.file ∧
      (call.stage.isLate = true → later.stage.isLate = true)
  checkpoints : ∀ key checkpoint, Map.get key before.checkpoints = some checkpoint → ∃ later,
    Map.get key after.checkpoints = some later ∧ later.fingerprint = checkpoint.fingerprint ∧
      later.operationId = checkpoint.operationId ∧
      ∀ rowKey, Accepts checkpoint.outcomes rowKey → Accepts later.outcomes rowKey

variable {after : World} {turn : Turn}

theorem Agrees.grows {file : ImportFile} {checkpoint : ImportCheckpoint}
    (h : Agrees env w id file checkpoint) (hg : Grows w after) : ∃ later,
    Agrees env after id file later ∧ later.operationId = checkpoint.operationId ∧
      ∀ rowKey, Accepts checkpoint.outcomes rowKey → Accepts later.outcomes rowKey := by
  obtain ⟨later, hl, hf, hi, ha⟩ := hg.checkpoints _ _ h.present
  exact ⟨later, ⟨hl, hf.trans h.fingerprint⟩, hi, ha⟩

theorem Logged.grows {event : Event} (h : Logged env w event) (hg : Grows w after) :
    Logged env after event := by
  obtain ⟨call, checkpoint, hc, hl, ha, hr, hw⟩ := h
  obtain ⟨later, hb, hf, hs⟩ := hg.calls _ _ hc
  obtain ⟨next, hn, -, hd⟩ := ha.grows hg
  refine ⟨later, next, hb, hs hl, ?_, ?_, fun he => hd _ (hw he)⟩
  · rw [hf]
    exact hn
  · rw [hf]
    exact hr

theorem Responded.grows {body : ImportCommitSuccessBody} (h : Responded env w id body)
    (hg : Grows w after) : Responded env after id body := by
  obtain ⟨call, checkpoint, rows, tally, hc, hl, ha, hr, ht, hb, hs⟩ := h
  obtain ⟨later, he, hf, hj⟩ := hg.calls _ _ hc
  obtain ⟨next, hn, hi, hk⟩ := ha.grows hg
  refine ⟨later, next, rows, tally, he, hj hl, ?_, ?_, ?_, ?_, ?_⟩
  · rw [hf]
    exact hn
  · rw [hf]
    exact hr
  · rw [hf]
    exact ht
  · rw [hi]
    exact hb
  · exact fun outcome hm hd => hk _ (hs outcome hm hd)

theorem World.get_take_calls (turn : Turn) : Map.get other (w.take env id turn).calls =
    if id = other then some turn.call else Map.get other w.calls := Map.get_set ..

theorem World.get_take_checkpoints (turn : Turn) (key : String) :
    Map.get key (w.take env id turn).checkpoints =
      if env.keyOf id = key then turn.checkpoint.or (Map.get key w.checkpoints)
      else Map.get key w.checkpoints := by
  unfold World.take
  cases turn.checkpoint with
  | none => simp
  | some => simp [Map.get_set]

/-- The lock is entered once and left by the call that has it, and only that call changes the
checkpoint, writes rows or commits. -/
structure Changes (env : Env) (w : World) (id : CallId) (turn : Turn) : Prop where
  comes : turn.lock = .enter → Map.get id w.lock.tickets = none
  leaves : turn.lock = .leave → Holds env w id
  own : ∀ event ∈ turn.events, event.call = id
  held : turn.checkpoint ≠ none ∨ turn.events ≠ [] ∨
    (∃ body, turn.response = some (.committed body)) → Holds env w id
  continues : ∀ call, Map.get id w.calls = some call → turn.call.file = call.file ∧
    (call.stage.isLate = true → turn.call.stage.isLate = true)
  checkpoint : ∀ later, turn.checkpoint = some later → Keyed later.outcomes ∧
    ∀ before, Map.get (env.keyOf id) w.checkpoints = some before →
      later.fingerprint = before.fingerprint ∧ later.operationId = before.operationId ∧
      ∀ rowKey, Accepts before.outcomes rowKey → Accepts later.outcomes rowKey

namespace Changes

variable {turn : Turn}

section

variable (h : Changes env w id turn)
include h

theorem grows : Grows w (w.take env id turn) where
  calls other call hc := by
    rw [World.get_take_calls]
    split
    · next he =>
      subst he
      exact ⟨turn.call, rfl, h.continues call hc⟩
    · exact ⟨call, hc, rfl, fun hl => hl⟩
  checkpoints key before hb := by
    rw [World.get_take_checkpoints]
    have hs : ∃ later, Map.get key w.checkpoints = some later ∧
        later.fingerprint = before.fingerprint ∧ later.operationId = before.operationId ∧
        ∀ rowKey, Accepts before.outcomes rowKey → Accepts later.outcomes rowKey :=
      ⟨before, hb, rfl, rfl, fun _ ha => ha⟩
    split
    · next hk =>
      subst hk
      cases hh : turn.checkpoint with
      | none => exact hs
      | some later => exact ⟨later, rfl, (h.checkpoint later hh).2 before hb⟩
    · exact hs

theorem ticket (ho : id ≠ other) :
    Map.get other (w.take env id turn).lock.tickets = Map.get other w.lock.tickets := by
  unfold World.take LockUse.apply
  cases hl : turn.lock with
  | keep => rfl
  | enter => exact (Map.get_set ..).trans (if_neg ho)
  | leave =>
    obtain ⟨previous, ht⟩ := (h.leaves hl).ticket
    exact (PromiseLock.get_leave_tickets ht other).trans (if_neg ho)

theorem ready (hr : w.lock.ready other = true) : (w.take env id turn).lock.ready other = true := by
  unfold World.take LockUse.apply
  cases hl : turn.lock with
  | keep => exact hr
  | enter => exact PromiseLock.ready_enter (h.comes hl) hr
  | leave =>
    obtain ⟨previous, ht⟩ := (h.leaves hl).ticket
    exact PromiseLock.ready_leave ht hr

theorem holds (ho : id ≠ other) (hh : Holds env w other) : Holds env (w.take env id turn) other :=
  ⟨(h.ticket ho).symm ▸ hh.ticket, h.ready hh.ready⟩

theorem queued (ho : Ok env w) (key : String) :
    ∃ queue, PromiseLock.Queued (w.take env id turn).lock key queue := by
  obtain ⟨queue, hq⟩ := ho.queued key
  unfold World.take LockUse.apply
  cases hl : turn.lock with
  | keep => exact ⟨queue, hq⟩
  | enter =>
    by_cases hk : env.keyOf id = key
    · subst hk
      exact ⟨_, hq.enter (h.comes hl)⟩
    · exact ⟨queue, hq.enter_other (h.comes hl) hk⟩
  | leave =>
    have hh := h.leaves hl
    obtain ⟨previous, ht⟩ := hh.ticket
    by_cases hk : env.keyOf id = key
    · subst hk
      have he := (hq.ready_iff ((hq.members id).mpr hh.ticket)).mp hh.ready
      obtain ⟨rest, rfl⟩ := head?_eq_some_iff.mp he
      exact ⟨rest, hq.leave⟩
    · exact ⟨queue, hq.leave_other ht hk⟩

theorem writes (hOk : Ok env w) (ho : id ≠ other) {file : ImportFile}
    {rows : List ValidatedImportRow} {row : ValidatedImportRow} {rest : List ValidatedImportRow}
    {tally : Tally} (hw : Writes env w other file rows row rest tally) :
    Writes env (w.take env id turn) other file rows row rest tally := by
  have hk : turn.checkpoint ≠ none ∨ turn.events ≠ [] ∨
      (∃ body, turn.response = some (.committed body)) → env.keyOf id ≠ env.keyOf other :=
    fun hh he => ho (hOk.exclusive (h.held hh) hw.holds he)
  obtain ⟨checkpoint, ha, hr, hb⟩ := hw.checkpoint
  refine ⟨h.holds ho hw.holds, hw.collected,
    ⟨checkpoint, ⟨?_, ha.fingerprint⟩, hr, hb⟩, hw.counted, ?_, ?_⟩
  · rw [World.get_take_checkpoints]
    split
    · next he =>
      cases hc : turn.checkpoint with
      | none => exact ha.present
      | some => exact absurd he (hk (.inl (by simp [hc])))
    · exact ha.present
  · intro called body hm he
    rcases mem_append.mp hm with hl | hn
    · exact hw.kept called body hl he
    · simp only [mem_toList, map_eq_some_iff, Prod.mk.injEq] at hn
      obtain ⟨response, hd, rfl, rfl⟩ := hn
      exact absurd he (hk (.inr (.inr ⟨body, hd⟩)))
  · show AloneSince _ ((w.log ++ turn.events).map Event.call) other
    rw [map_append]
    refine hw.alone.append fun x hx hs => ?_
    obtain ⟨event, hv, rfl⟩ := mem_map.mp hx
    rw [h.own event hv] at hs
    exact absurd hs (hk (.inr (.inl (ne_nil_of_mem hv))))

end

end Changes

/-- What a turn of the call has to show for `Ok` to go on. -/
structure Arrives (env : Env) (w : World) (id : CallId) (turn : Turn) : Prop where
  outside : turn.call.stage.isEarly = true → Map.get id (w.take env id turn).lock.tickets = none
  inside : ∀ key previous,
    Map.get id (w.take env id turn).lock.tickets = some ⟨key, previous, false⟩ →
    key = env.keyOf id ∧ turn.call.stage ≠ .ended
  waits : ∀ file rows, turn.call = ⟨file, .waiting rows⟩ →
    (∃ previous, Map.get id (w.take env id turn).lock.tickets =
      some ⟨env.keyOf id, previous, false⟩) ∧
      collectValidatedImportRows env.csv file = some rows
  writes : ∀ file rows row rest tally, turn.call = ⟨file, .writing rows row rest tally⟩ →
    Writes env (w.take env id turn) id file rows row rest tally
  logged : ∀ event ∈ turn.events, Logged env (w.take env id turn) event
  once : ((w.log ++ turn.events).filterMap (Event.written env)).Nodup
  uninterrupted : Uninterrupted (fun x y => env.keyOf x = env.keyOf y)
    ((w.log ++ turn.events).map Event.call)
  responded : ∀ body, turn.response = some (.committed body) →
    Responded env (w.take env id turn) id body ∧
      ∀ other earlier, (other, .committed earlier) ∈ w.responses →
        env.keyOf other = env.keyOf id → Keeps earlier.rowOutcomes body.rowOutcomes
  conflicted : ∀ body, turn.response = some (.conflict body) → body = conflictBody

theorem mem_take_responses {response : Response} :
    (other, response) ∈ (w.take env id turn).responses ↔
      (other, response) ∈ w.responses ∨ id = other ∧ turn.response = some response := by
  simp only [World.take, mem_append, mem_toList, map_eq_some_iff, Prod.mk.injEq]
  constructor
  · rintro (ho | ⟨_, hr, rfl, rfl⟩)
    · exact .inl ho
    · exact .inr ⟨rfl, hr⟩
  · rintro (ho | ⟨rfl, hr⟩)
    · exact .inl ho
    · exact .inr ⟨_, hr, rfl, rfl⟩

theorem Ok.take (h : Ok env w) (hh : Changes env w id turn)
    (ha : Arrives env w id turn) : Ok env (w.take env id turn) where
  __ := ha
  queued key := hh.queued h key
  outside other hb := by
    rw [World.get_take_calls] at hb
    by_cases he : id = other
    · subst he
      exact ha.outside (hb turn.call (if_pos rfl))
    · rw [hh.ticket he]
      exact h.outside other (by simpa only [if_neg he] using hb)
  inside other key previous ht := by
    rw [World.get_take_calls]
    by_cases he : id = other
    · subst he
      obtain ⟨hk, hs⟩ := ha.inside key previous ht
      exact ⟨hk, turn.call, if_pos rfl, hs⟩
    · rw [if_neg he]
      exact h.inside other key previous (hh.ticket he ▸ ht)
  waits other file rows hc := by
    rw [World.get_take_calls] at hc
    split at hc
    · next he =>
      subst he
      exact ha.waits file rows (Option.some.inj hc)
    · next he =>
      rw [hh.ticket he]
      exact h.waits other file rows hc
  writes other file rows row rest tally hc := by
    rw [World.get_take_calls] at hc
    split at hc
    · next he =>
      subst he
      exact ha.writes file rows row rest tally (Option.some.inj hc)
    · next he => exact hh.writes h he (h.writes other file rows row rest tally hc)
  keyed key checkpoint hg := by
    rw [World.get_take_checkpoints] at hg
    split at hg
    · cases hd : turn.checkpoint with
      | none =>
        rw [hd] at hg
        exact h.keyed key checkpoint hg
      | some =>
        rw [hd] at hg
        cases hg
        exact (hh.checkpoint _ hd).1
    · exact h.keyed key checkpoint hg
  logged event hm := by
    rcases mem_append.mp hm with ho | hn
    · exact (h.logged event ho).grows hh.grows
    · exact ha.logged event hn
  responded other body hm := by
    rcases mem_take_responses.mp hm with ho | ⟨rfl, hr⟩
    · exact (h.responded other body ho).grows hh.grows
    · exact (ha.responded body hr).1
  conflicted other body hm := by
    rcases mem_take_responses.mp hm with ho | ⟨rfl, hr⟩
    · exact h.conflicted other body ho
    · exact ha.conflicted body hr
  kept := by
    refine pairwise_append.mpr ⟨h.kept, ?_, ?_⟩
    · cases turn.response <;> simp
    · rintro ⟨other, earlier⟩ hf later hl hk before after rfl hi
      simp only [mem_toList, map_eq_some_iff] at hl
      obtain ⟨response, hr, rfl⟩ := hl
      cases hi
      exact (ha.responded after hr).2 other before hf hk

/-- What a turn keeps from row to row. -/
structure Progress (env : Env) (w : World) (id : CallId) (file : ImportFile)
    (rows : List ValidatedImportRow) (tally : Tally) (checkpoint : ImportCheckpoint)
    (events : List Event) : Prop where
  holds : Holds env w id
  call : ∃ stage, Map.get id w.calls = some ⟨file, stage⟩
  collected : collectValidatedImportRows env.csv file = some rows
  fingerprint : checkpoint.fingerprint = importFingerprint env.hash file
  keyed : Keyed checkpoint.outcomes
  grows : ∀ before, Map.get (env.keyOf id) w.checkpoints = some before →
    checkpoint.fingerprint = before.fingerprint ∧ checkpoint.operationId = before.operationId ∧
    ∀ rowKey, Accepts before.outcomes rowKey → Accepts checkpoint.outcomes rowKey
  accepted : ∀ outcome ∈ tally.rowOutcomes, outcome.status = .accepted →
    Accepts checkpoint.outcomes outcome.rowKey
  kept : ∀ other body, (other, .committed body) ∈ w.responses → env.keyOf other = env.keyOf id →
    Keeps body.rowOutcomes tally.rowOutcomes
  own : ∀ event ∈ events, event.call = id
  logged : ∀ event ∈ events, event.rowKey = env.rowKey file event.row ∧
    (event.written env ≠ none → Accepts checkpoint.outcomes event.rowKey)
  once : ((w.log ++ events).filterMap (Event.written env)).Nodup
  alone : AloneSince (fun x y => env.keyOf x = env.keyOf y) ((w.log ++ events).map Event.call) id
  uninterrupted : Uninterrupted (fun x y => env.keyOf x = env.keyOf y)
    ((w.log ++ events).map Event.call)

section

variable {file : ImportFile} {rows : List ValidatedImportRow} {tally after : Tally}
  {checkpoint : ImportCheckpoint} {events : List Event} {turn : Turn}

section

variable (h : Progress env w id file rows tally checkpoint events) (hAdvance : ∀ outcome ∈
    after.rowOutcomes, outcome ∈ tally.rowOutcomes ∨ outcome.status = .accepted ∧ Map.get
    outcome.rowKey checkpoint.outcomes = some outcome)
include h hAdvance

theorem Progress.accepts : ∀ outcome ∈ after.rowOutcomes, outcome.status = .accepted →
      Accepts checkpoint.outcomes outcome.rowKey := by
  intro outcome hm hs
  rcases hAdvance outcome hm with ho | ⟨-, hg⟩
  · exact h.accepted outcome ho hs
  · exact ⟨outcome, hg, hs⟩

theorem Progress.keeps :
    ∀ other body, (other, .committed body) ∈ w.responses → env.keyOf other = env.keyOf id →
      Keeps body.rowOutcomes after.rowOutcomes := by
  intro other body hm hk outcome ho hs next hn hr
  rcases hAdvance next hn with hl | ⟨ha, -⟩
  · exact h.kept other body hm hk outcome ho hs next hl hr
  · exact ha

end

theorem Progress.changes (h : Progress env w id file rows tally checkpoint events)
    (ht : Proceeds env id file rows tally checkpoint events turn) : Changes env w id turn where
  comes he := by cases ht <;> cases he
  leaves _ := h.holds
  own event hm := by
    cases ht with
    | writes =>
      rcases mem_append.mp hm with ho | hn
      · exact h.own event ho
      · cases mem_singleton.mp hn
        rfl
    | ends => exact h.own event hm
  held _ := h.holds
  continues call hg := by
    obtain ⟨stage, hc⟩ := h.call
    cases hc.symm.trans hg
    cases ht <;> exact ⟨rfl, fun _ => rfl⟩
  checkpoint later hl := by
    cases ht <;> cases hl <;> exact ⟨h.keyed, h.grows⟩

theorem Progress.agrees (h : Progress env w id file rows tally checkpoint events)
    (later : ImportCheckpoint) (hc : turn.checkpoint = some later)
    (hs : later.fingerprint = checkpoint.fingerprint) :
    Agrees env (w.take env id turn) id file later := by
  refine ⟨?_, hs.trans h.fingerprint⟩
  rw [World.get_take_checkpoints, if_pos rfl, hc, some_or]

variable {event : Event} {key rowKey : String} {outcome : ImportRowOutcome}

section

variable (h : Progress env w id file rows tally checkpoint events)
include h

theorem Progress.logs (later : ImportCheckpoint) (hc : turn.checkpoint = some later)
    (hs : later.fingerprint = checkpoint.fingerprint)
    (hu : later.outcomes = checkpoint.outcomes) (hf : turn.call.file = file)
    (hl : turn.call.stage.isLate = true) (ho : event.call = id)
    (hr : event.rowKey = env.rowKey file event.row)
    (hw : event.written env ≠ none → Accepts checkpoint.outcomes event.rowKey) :
    Logged env (w.take env id turn) event := by
  refine ⟨turn.call, later, ?_, hl, ?_, ?_, ?_⟩
  · rw [World.get_take_calls, if_pos ho.symm]
  · rw [ho, hf]
    exact h.agrees later hc hs
  · rw [hf]
    exact hr
  · rw [hu]
    exact hw

theorem Progress.arrives (hu : Proceeds env id file rows tally checkpoint events turn) :
    Arrives env w id turn := by
  have hh := h.changes hu
  cases hu with
  | writes row rest after hOk hf hAdvance =>
    have ha : (w.log ++ (events ++ [Event.called id (env.rowKey file row) row])).map Event.call =
        (w.log ++ events).map Event.call ++ [id] := by
      rw [← append_assoc, map_append]
      rfl
    have hn : [Event.called id (env.rowKey file row) row].filterMap (Event.written env) = [] := rfl
    refine ⟨by simp [Stage.isEarly], ?_, by simp, ?_, ?_, ?_, ?_, by simp, by simp⟩
    · intro key previous ht
      obtain ⟨earlier, he⟩ := h.holds.ticket
      cases ht.symm.trans he
      exact ⟨rfl, by simp⟩
    · intro file' rows' row' rest' tally' hc
      cases hc
      refine ⟨⟨h.holds.ticket, h.holds.ready⟩, h.collected,
        ⟨checkpoint, h.agrees checkpoint rfl rfl, ?_, h.accepts hAdvance⟩, hOk, ?_, ?_⟩
      · rintro ⟨outcome, hg, hs⟩
        exact hf outcome hg hs
      · intro other body hm
        rcases mem_take_responses.mp hm with ho | ⟨-, hd⟩
        · exact h.keeps hAdvance other body ho
        · cases hd
      · show AloneSince _ (map _ (w.log ++ (events ++ _))) id
        rw [ha]
        exact h.alone.concat fun _ => rfl
    · intro event hm
      rcases mem_append.mp hm with ho | hn
      · obtain ⟨hr, hw⟩ := h.logged event ho
        exact h.logs checkpoint rfl rfl rfl rfl rfl (h.own event ho) hr hw
      · cases mem_singleton.mp hn
        exact h.logs checkpoint rfl rfl rfl rfl rfl rfl rfl (by simp [Event.written])
    · rw [← append_assoc, filterMap_append, hn, append_nil]
      exact h.once
    · rw [ha]
      exact h.uninterrupted.concat h.alone
  | ends after completed hOk hAdvance =>
    refine ⟨by simp [Stage.isEarly], ?_, by simp, by simp, ?_, h.once, h.uninterrupted, ?_, by simp⟩
    · intro key previous ht
      obtain ⟨earlier, he⟩ := h.holds.ticket
      have hl := PromiseLock.get_leave_tickets he id
      rw [if_pos rfl] at hl
      cases ht.symm.trans hl
    · intro event hm
      obtain ⟨hr, hw⟩ := h.logged event hm
      exact h.logs { checkpoint with completed := completed } rfl rfl rfl rfl rfl
        (h.own event hm) hr hw
    · intro body hb
      cases hb
      refine ⟨⟨⟨file, .ended⟩, { checkpoint with completed := completed }, rows, after, ?_, rfl,
        h.agrees _ rfl rfl, h.collected, hOk, rfl, h.accepts hAdvance⟩, h.keeps hAdvance⟩
      rw [World.get_take_calls, if_pos rfl]

theorem Progress.ok (ho : Ok env w) (ht : Proceeds env id file rows tally checkpoint events turn) :
    Ok env (w.take env id turn) :=
  ho.take (h.changes ht) (h.arrives ht)

end

theorem Progress.of_waiting (ho : Ok env w)
    (hc : Map.get id w.calls = some ⟨file, .waiting rows⟩) (hr : w.lock.ready id = true)
    (hb : Map.get (env.keyOf id) w.checkpoints = some checkpoint ∨
      Map.get (env.keyOf id) w.checkpoints = none ∧ checkpoint.outcomes = [])
    (hd : checkpoint.fingerprint = importFingerprint env.hash file) :
    Progress env w id file rows .empty checkpoint [] := by
  obtain ⟨ht, hf⟩ := ho.waits id file rows hc
  refine ⟨⟨ht, hr⟩, ⟨_, hc⟩, hf, hd, ?_, ?_, by simp [Tally.empty],
    fun _ _ _ _ _ _ _ _ hn => by simp [Tally.empty] at hn, by simp, by simp, ?_, ?_, ?_⟩
  · rcases hb with hs | ⟨-, hi⟩
    · exact ho.keyed _ checkpoint hs
    · rw [hi]
      exact fun _ _ hg => by cases hg
  · intro before hg
    rcases hb with hs | ⟨hj, -⟩
    · cases hs.symm.trans hg
      exact ⟨rfl, rfl, fun _ ha => ha⟩
    · cases hj.symm.trans hg
  · rw [append_nil]
    exact ho.once
  · rw [append_nil]
    refine aloneSince_of_notMem fun hm => ?_
    obtain ⟨event, he, rfl⟩ := mem_map.mp hm
    obtain ⟨call, -, hg, hl, -⟩ := ho.logged event he
    cases hc.symm.trans hg
    cases hl
  · rw [append_nil]
    exact ho.uninterrupted

theorem Event.written_eq (h : event.written env = some (key, rowKey)) :
    env.keyOf event.call = key ∧ event.rowKey = rowKey := by
  unfold Event.written at h
  split at h
  · cases h
    exact ⟨rfl, rfl⟩
  · cases h

theorem Ok.accepts_written (ho : Ok env w) (h : (key, rowKey) ∈ w.log.filterMap (Event.written env))
    (hg : Map.get key w.checkpoints = some checkpoint) : Accepts checkpoint.outcomes rowKey := by
  obtain ⟨event, he, hw⟩ := mem_filterMap.mp h
  obtain ⟨rfl, rfl⟩ := Event.written_eq hw
  obtain ⟨call, found, -, -, ha, -, hc⟩ := ho.logged event he
  cases hg.symm.trans ha.present
  exact hc (by simp [hw])

theorem Progress.of_writing {row : ValidatedImportRow} {rest : List ValidatedImportRow}
    (ho : Ok env w) (hb : Map.get id w.calls = some ⟨file, .writing rows row rest tally⟩)
    (hc : Map.get (env.keyOf id) w.checkpoints = some checkpoint)
    (hk : outcome.rowKey = env.rowKey file row) :
    Progress env w id file rows (tally.add outcome)
      { checkpoint with outcomes := Map.set outcome.rowKey outcome checkpoint.outcomes }
      [.ended id outcome.rowKey row (outcome.status = .accepted)] := by
  have hw := ho.writes id file rows row rest tally hb
  obtain ⟨found, ha, hf, hd⟩ := hw.checkpoint
  cases hc.symm.trans ha.present
  rw [← hk] at hf
  have he : ∀ rowKey, Accepts checkpoint.outcomes rowKey →
      Accepts (Map.set outcome.rowKey outcome checkpoint.outcomes) rowKey := by
    rintro rowKey ⟨previous, hg, hs⟩
    refine ⟨previous, ?_, hs⟩
    rw [Map.get_set, if_neg, hg]
    rintro rfl
    exact hf ⟨previous, hg, hs⟩
  have hn : outcome.status = .accepted →
      Accepts (Map.set outcome.rowKey outcome checkpoint.outcomes) outcome.rowKey :=
    fun hs => ⟨outcome, Map.get_set_self .., hs⟩
  refine ⟨hw.holds, ⟨_, hb⟩, hw.collected, ha.fingerprint,
    (ho.keyed _ _ hc).set outcome, ?_, ?_, ?_, ?_, ?_, ?_, ?_, ?_⟩
  · intro before hg
    cases hc.symm.trans hg
    exact ⟨rfl, rfl, he⟩
  · intro result hm hs
    rcases mem_append.mp hm with hi | hl
    · exact he _ (hd result hi hs)
    · cases mem_singleton.mp hl
      exact hn hs
  · intro other body hm hj result hr hs next hne hp
    rcases mem_append.mp hne with hi | hl
    · exact hw.kept other body hm hj result hr hs next hi hp
    · cases mem_singleton.mp hl
      obtain ⟨_, _, _, _, -, -, ha, -, -, rfl, hq⟩ := ho.responded other body hm
      cases (hj ▸ hc).symm.trans ha.present
      exact absurd (hp ▸ hq result hr hs) hf
  · intro event hm
    cases mem_singleton.mp hm
    rfl
  · intro event hm
    cases mem_singleton.mp hm
    refine ⟨hk, fun ht => hn ?_⟩
    by_contra hs
    simp [Event.written, hs] at ht
  · rw [filterMap_append]
    by_cases hs : outcome.status = .accepted
    · simp only [hs, decide_true, filterMap_cons, Event.written, filterMap_nil]
      refine nodup_append.mpr ⟨ho.once, nodup_singleton _, ?_⟩
      rintro earlier hm _ hl rfl
      cases mem_singleton.mp hl
      exact hf (ho.accepts_written hm hc)
    · simp only [hs, decide_false, filterMap_cons, Event.written, filterMap_nil,
        append_nil]
      exact ho.once
  · rw [map_append]
    exact hw.alone.concat fun _ => rfl
  · rw [map_append]
    exact ho.uninterrupted.concat hw.alone

end

theorem Ok.take_silent (h : Ok env w) {call : Call} {lock : LockUse} {response : Option Response}
    (hc : Changes env w id ⟨call, lock, none, [], response⟩)
    (ho : call.stage.isEarly = true →
      Map.get id (lock.apply (env.keyOf id) id w.lock).tickets = none)
    (hi : ∀ key previous, Map.get id (lock.apply (env.keyOf id) id w.lock).tickets =
      some ⟨key, previous, false⟩ → key = env.keyOf id ∧ call.stage ≠ .ended)
    (hw : ∀ file rows, call = ⟨file, .waiting rows⟩ →
      (∃ previous, Map.get id (lock.apply (env.keyOf id) id w.lock).tickets =
        some ⟨env.keyOf id, previous, false⟩) ∧
        collectValidatedImportRows env.csv file = some rows)
    (hr : ∀ file rows row rest tally, call ≠ ⟨file, .writing rows row rest tally⟩)
    (ha : ∀ body, response ≠ some (.committed body))
    (hn : ∀ body, response = some (.conflict body) → body = conflictBody) :
    Ok env (w.take env id ⟨call, lock, none, [], response⟩) := by
  refine h.take hc ⟨ho, hi, hw, ?_, by simp, ?_, ?_, ?_, hn⟩
  · exact fun file rows row rest tally hd => absurd hd (hr file rows row rest tally)
  · rw [append_nil]
    exact h.once
  · rw [append_nil]
    exact h.uninterrupted
  · exact fun body hb => absurd hb (ha body)

theorem Ok.takes {before : Option Call} {ready : Bool} {found : Option ImportCheckpoint}
    (h : Ok env w) (hc : Map.get id w.calls = before) (hr : w.lock.ready id = ready)
    (hf : Map.get (env.keyOf id) w.checkpoints = found)
    (hd : Takes env id ⟨before, ready, found⟩ turn) : Ok env (w.take env id turn) := by
  cases hd with
  | early _ _ _ file stage response hi hj hm =>
    subst hc
    have ht := h.outside id fun call hc => (hi call hc).1
    have hs : ∀ answer, response = some answer → answer.isEarly = true := hm
    refine h.take_silent ⟨by simp, by simp, by simp, ?_, ?_, by simp⟩ (fun _ => ht) ?_ ?_ ?_
      ?_ ?_
    · rintro (hn | hq | ⟨body, hb⟩)
      · exact absurd rfl hn
      · exact absurd rfl hq
      · cases hs _ hb
    · intro call hc
      obtain ⟨he, hu⟩ := hi call hc
      exact ⟨hu.symm, fun hl => absurd hl (Stage.not_late_of_early he)⟩
    · intro key previous hg
      cases ht.symm.trans hg
    · rintro _ _ ⟨⟩
      simp [Stage.isEarly] at hj
    · rintro _ _ _ _ _ ⟨⟩
      simp [Stage.isEarly] at hj
    · intro body hb
      cases hs _ hb
    · intro body hb
      cases hs _ hb
  | enters file rows ready checkpoint hv =>
    have ht : Map.get id w.lock.tickets = none := by
      refine h.outside id fun call hg => ?_
      cases hc.symm.trans hg
      rfl
    have ha : Map.get id (w.lock.enter (env.keyOf id) id).tickets =
        some ⟨env.keyOf id, Map.get (env.keyOf id) w.lock.locks, false⟩ := Map.get_set_self ..
    refine h.take_silent ⟨fun _ => ht, by simp, by simp, by simp, ?_, by simp⟩
      (by simp [Stage.isEarly]) ?_ ?_ (by simp) (by simp) (by simp)
    · intro call hg
      cases hc.symm.trans hg
      exact ⟨rfl, fun hl => by cases hl⟩
    · intro key previous hg
      cases hg.symm.trans ha
      exact ⟨rfl, by simp⟩
    · intro file' rows' hEq
      cases hEq
      exact ⟨⟨_, ha⟩, hv⟩
  | refuses file rows =>
    have hh : Holds env w id := ⟨(h.waits id file rows hc).1, hr⟩
    obtain ⟨previous, ht⟩ := hh.ticket
    have ha := (PromiseLock.get_leave_tickets ht id).trans (if_pos rfl)
    refine h.take_silent ⟨by simp, fun _ => hh, by simp, by simp, ?_, by simp⟩
      (by simp [Stage.isEarly]) ?_ (by simp) (by simp) (by simp) ?_
    · intro call hg
      cases hc.symm.trans hg
      exact ⟨rfl, fun hl => by cases hl⟩
    · intro key earlier hg
      cases hg.symm.trans ha
    · intro body hb
      cases hb
      rfl
  | executes file rows _ checkpoint turn hi hw hx =>
    subst hf
    have hp := Progress.of_waiting h hc hr hi hw
    exact hp.ok h (hx hp.keyed)
  | records file rows row rest tally ready checkpoint outcome turn hk hx =>
    have hp := Progress.of_writing h hc hf hk
    exact hp.ok h (hx (h.keyed _ _ hf) (h.writes _ _ _ _ _ _ hc).counted)

theorem Ok.step {action : Action} (h : Ok env w) (hs : step env action w = some after) :
    Ok env after := by
  obtain ⟨turn, ht, rfl⟩ := map_eq_some_iff.mp hs
  exact h.takes rfl rfl rfl (takes_of_turn ht)

theorem Ok.run {actions : List Action} (h : Ok env w)
    (hr : run (Imports.step env) actions w = some after) : Ok env after :=
  run_invariant (Ok env) (fun _ _ _ ho _ hs => ho.step hs) h
    (along_anyAction actions w) hr

end Credence.Imports
