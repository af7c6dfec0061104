import Credence.Outbox.Effects
import Credence.ProofKit.Runs

/-! The lifecycle of an outbox row. Every statement but `quarantine` names the status that it
expects; `quarantine` deletes its row on the word of an event that was read earlier. -/

namespace Credence.Outbox

open Js ProofKit Table

def outboxLifecycleTransitions : List (OutboxEventStatus × OutboxEventStatus) :=
  [(.pending, .processing), (.processing, .published), (.processing, .pending),
    (.processing, .deadLetter)]

/-- The tables, and the events that some call has returned so far. -/
structure Session where
  db : Db
  returned : List OutboxEvent

def Session.start : Session := ⟨⟨0, .empty, .empty⟩, []⟩

/-- `read` stands for the queries that return events without changing a row; `quarantine` takes an
event by its place among the returned ones. -/
inductive Operation where
  | tick (elapsed : Nat)
  | read (ids : List Nat)
  | create (event : CreateOutboxEvent)
  | claimEvents (args : ClaimArgs) (picked : List Nat)
  | renewLease (consumerId : String) (leaseSeconds : Number)
  | releaseClaims (consumerId : String)
  | recoverStaleLeases
  | trySetPublishIdempotencyKey (eventId : Nat) (key consumerId : String)
  | clearPublishIdempotencyKey (eventId : Nat)
  | markPublished (eventId : Nat) (consumerId : String)
  | markFailed (eventId : Nat) (errorMessage : String) (consumerId : ConsumerArg)
  | quarantine (event : Nat) (reason : OutboxQuarantineReason) (errorMessage : String)
  | reinjectQuarantined (quarantineId : Nat) (fixedPayload : Json) (reinjectedBy : String)

namespace Session

def settle (s : Session) : Except String Db → Session
  | .ok db => { s with db := db }
  | .error _ => s

def step (host : Host) : Operation → Session → Option Session
  | .tick elapsed, s => some { s with db := { s.db with now := s.db.now + elapsed } }
  | .read ids, s =>
    some { s with
      returned := s.returned ++ ids.filterMap fun id =>
        (s.db.eventOutbox.get id).map (mapOutboxEvent host id) }
  | .create event, s => some (s.settle ((Outbox.create s.db event).map Prod.fst))
  | .claimEvents args picked, s =>
    (Outbox.claimEvents host s.db args picked).map fun (db, events) => ⟨db, s.returned ++ events⟩
  | .renewLease consumerId leaseSeconds, s =>
    some { s with db := (Outbox.renewLease s.db consumerId leaseSeconds).1 }
  | .releaseClaims consumerId, s => some { s with db := (Outbox.releaseClaims s.db consumerId).1 }
  | .recoverStaleLeases, s => some { s with db := (Outbox.recoverStaleLeases s.db).1 }
  | .trySetPublishIdempotencyKey eventId key consumerId, s =>
    some { s with db := (Outbox.trySetPublishIdempotencyKey s.db eventId key consumerId).1 }
  | .clearPublishIdempotencyKey eventId, s =>
    some { s with db := Outbox.clearPublishIdempotencyKey s.db eventId }
  | .markPublished eventId consumerId, s =>
    some (s.settle (Outbox.markPublished s.db eventId consumerId))
  | .markFailed eventId errorMessage consumerId, s =>
    some (s.settle ((Outbox.markFailed host s.db eventId errorMessage consumerId).map Prod.fst))
  | .quarantine index reason errorMessage, s =>
    (s.returned[index]?).map fun event =>
      { s with db := Outbox.quarantine host s.db event reason errorMessage }
  | .reinjectQuarantined quarantineId fixedPayload reinjectedBy, s =>
    some { s with db := (Outbox.reinjectQuarantined s.db quarantineId fixedPayload reinjectedBy).1 }

end Session

/-- A call of `quarantine` finds its event's row in a state that is not terminal, or finds none. -/
def quarantinesLive : Operation → Session → Bool
  | .quarantine index _ _, s => (s.returned[index]?).all fun event =>
      (s.db.eventOutbox.get event.id).all fun row => !row.isTerminal
  | _, _ => true

/-- The row takes a transition of the lifecycle and loses no retry. -/
structure Advances (row row' : OutboxEventRow) : Prop where
  transition : row'.status = row.status ∨ (row.status, row'.status) ∈ outboxLifecycleTransitions
  retryCount : row.retryCount ≤ row'.retryCount
  maxRetries : row'.maxRetries = row.maxRetries

structure Spares (row row' : OutboxEventRow) : Prop extends Advances row row' where
  alive : row'.status = .deadLetter → row.status = .deadLetter

theorem Advances.refl (row : OutboxEventRow) : Advances row row := ⟨.inl rfl, Nat.le_refl _, rfl⟩

variable {row row' failed : OutboxEventRow} {now : Nat} {message : String} {s t : Session}
  {host : Host} {ops : List Operation}

theorem Advances.status_of_terminal (h : Advances row row') (ht : row.isTerminal = true) :
    row'.status = row.status := by
  rcases h.transition with ha | hl
  · exact ha
  · have hs : row.status = .published ∨ row.status = .deadLetter := by
      simpa [OutboxEventRow.isTerminal] using ht
    rcases hs with hs | hs <;> simp [hs, outboxLifecycleTransitions] at hl

theorem spares_claimed {args : ClaimArgs} {id : Nat} (h : claimable now args.shard id row = true) :
    Spares row (args.claimed now row) := by
  refine ⟨⟨?_, Nat.le_refl _, rfl⟩, fun hd => by cases hd⟩
  rcases claimable_status h with hp | hr
  · exact .inr (by simp [hp, ClaimArgs.claimed, claimRow, outboxLifecycleTransitions])
  · exact .inl hr.symm

theorem spares_released (h : row.status = .processing) : Spares row row.released := by
  refine ⟨⟨.inr ?_, Nat.le_refl _, rfl⟩, fun hd => by cases hd⟩
  simp [h, OutboxEventRow.released, outboxLifecycleTransitions]

theorem spares_published (h : row.status = .processing) : Spares row (publishedRow now row) := by
  refine ⟨⟨.inr ?_, Nat.le_refl _, rfl⟩, fun hd => by cases hd⟩
  simp [h, publishedRow, outboxLifecycleTransitions]

theorem failedRow_eq (h : failedRow now message row = some failed) :
    failed.retryCount = row.retryCount + 1 ∧ failed.maxRetries = row.maxRetries ∧
    failed.status = if row.maxRetries ≤ row.retryCount + 1 then .deadLetter else .pending := by
  unfold failedRow at h
  split at h
  · rename_i hu
    cases h
    simp [hu]
  · rename_i hl
    obtain ⟨delay, -, rfl⟩ := Option.map_eq_some_iff.mp h
    simp [hl]

theorem advances_failed (hs : row.status = .processing)
    (h : failedRow now message row = some failed) : Advances row failed := by
  obtain ⟨hr, hm, hf⟩ := failedRow_eq h
  refine ⟨.inr ?_, by omega, hm⟩
  rw [hs, hf]
  split <;> simp [outboxLifecycleTransitions]

def StepChange (host : Host) (op : Operation) (s : Session) (id : Nat)
    (row row' : OutboxEventRow) : Prop :=
  Spares row row' ∨ ∃ message consumerId, op = .markFailed id message consumerId ∧
    row.status = .processing ∧
    failedRow s.db.now (host.sanitizeErrorMessage message) row = some row'

def StepGone (op : Operation) (s : Session) (id : Nat) : Prop :=
  ∃ index reason message event, op = .quarantine index reason message ∧
    s.returned[index]? = some event ∧ id = event.id

def IsNew (row : OutboxEventRow) : Prop := row.status = .pending ∧ row.retryCount = 0

section

variable {host : Host} {op : Operation} {s t : Session}

structure StepTables (host : Host) (op : Operation) (s : Session) (db : Db) : Prop where
  rows : Evolves (StepChange host op s) (fun id _ => StepGone op s id) IsNew s.db.eventOutbox
    db.eventOutbox
  separate : Separate s.db → Separate db

theorem stepTables_refl : StepTables host op s s.db := ⟨evolves_refl, id⟩

theorem stepTables_of_insert {row : OutboxEventRow} {db' : Db} (hn : IsNew row)
    (hr : db'.eventOutbox = s.db.eventOutbox.insert row)
    (ha : ∀ id, isQuarantined db' id = isQuarantined s.db id) : StepTables host op s db' := by
  have he : Evolves (StepChange host op s) (fun id _ => StepGone op s id) IsNew
      s.db.eventOutbox db'.eventOutbox := hr ▸ evolves_insert row hn
  exact ⟨he, fun h => h.of_evolves he fun id hid => ha id ▸ hid⟩

theorem Updates.stepTables {Change : Nat → OutboxEventRow → OutboxEventRow → Prop} {db' : Db}
    (h : Updates Change s.db db')
    (hc : ∀ id row row', Change id row row' → StepChange host op s id row row') :
    StepTables host op s db' where
  rows := h.rows.mono hc (fun _ _ => False.elim) fun _ => False.elim
  separate hs := hs.of_evolves h.rows fun id hid => isQuarantined_congr h.quarantine id ▸ hid

theorem step_tables (h : Session.step host op s = some t) : StepTables host op s t.db := by
  cases op with
  | tick =>
    cases h
    exact ⟨evolves_refl, id⟩
  | read =>
    cases h
    exact stepTables_refl
  | create event =>
    cases h
    cases hc : Outbox.create s.db event with
    | error => exact stepTables_refl
    | ok =>
      obtain ⟨-, -, hq, maxRetries, hi⟩ := create_evolves hc
      exact stepTables_of_insert ⟨rfl, rfl⟩ hi (isQuarantined_congr hq)
  | claimEvents =>
    obtain ⟨⟨db, events⟩, hl, rfl⟩ := Option.map_eq_some_iff.mp h
    apply (claimEvents_updates hl).stepTables
    rintro id row row' ⟨-, ha, rfl⟩
    exact .inl (spares_claimed ha)
  | renewLease consumerId leaseSeconds =>
    cases h
    apply (renewLease_updates consumerId leaseSeconds).stepTables
    rintro id row row' ⟨-, lease, rfl⟩
    exact .inl ⟨⟨.inl rfl, Nat.le_refl _, rfl⟩, fun h => h⟩
  | releaseClaims consumerId =>
    cases h
    apply (releaseClaims_updates consumerId).stepTables
    rintro id row row' ⟨hh, rfl⟩
    exact .inl (spares_released (heldBy_iff.mp hh).1)
  | recoverStaleLeases =>
    cases h
    apply recoverStaleLeases_updates.stepTables
    rintro id row row' ⟨hs, rfl⟩
    exact .inl (spares_released (isStale_processing hs))
  | trySetPublishIdempotencyKey eventId key consumerId =>
    cases h
    apply (trySetPublishIdempotencyKey_updates eventId key consumerId).stepTables
    rintro id row row' ⟨-, -, rfl⟩
    exact .inl ⟨⟨.inl rfl, Nat.le_refl _, rfl⟩, fun h => h⟩
  | clearPublishIdempotencyKey eventId =>
    cases h
    apply (clearPublishIdempotencyKey_updates eventId).stepTables
    rintro id row row' ⟨-, rfl⟩
    exact .inl ⟨⟨.inl rfl, Nat.le_refl _, rfl⟩, fun h => h⟩
  | markPublished eventId consumerId =>
    cases h
    cases hm : Outbox.markPublished s.db eventId consumerId with
    | error => exact stepTables_refl
    | ok =>
      apply (markPublished_updates hm).2.stepTables
      rintro id row row' ⟨-, hh, rfl⟩
      exact .inl (spares_published (heldBy_iff.mp hh).1)
  | markFailed eventId message consumerId =>
    cases h
    cases hm : Outbox.markFailed host s.db eventId message consumerId with
    | error => exact stepTables_refl
    | ok =>
      apply (markFailed_updates hm).stepTables
      rintro id row row' ⟨rfl, hh, hf⟩
      exact .inr ⟨message, consumerId, rfl, (heldBy_iff.mp hh).1, hf⟩
  | quarantine index reason message =>
    obtain ⟨event, he, rfl⟩ := Option.map_eq_some_iff.mp h
    refine ⟨?_, fun hb => hb.quarantine event reason message⟩
    exact (quarantine_evolves event reason message).mono (fun _ _ _ => False.elim)
      (fun id _ hid => ⟨index, reason, message, event, rfl, he, hid.1⟩) fun _ => False.elim
  | reinjectQuarantined quarantineId fixedPayload reinjectedBy =>
    cases h
    rcases reinjectQuarantined_cases s.db quarantineId fixedPayload reinjectedBy with
      hd | ⟨source, -, -, hi⟩
    · simp only [hd]
      exact stepTables_refl
    · exact stepTables_of_insert ⟨rfl, rfl⟩ (by simp only [hi]; rfl)
        (isQuarantined_reinject s.db quarantineId fixedPayload reinjectedBy)

variable {id : Nat} {row row' : OutboxEventRow}

theorem StepChange.advances (h : StepChange host op s id row row') : Advances row row' := by
  rcases h with hs | ⟨message, consumerId, -, ht, hf⟩
  · exact hs.toAdvances
  · exact advances_failed ht hf

section

variable (h : Session.step host op s = some t) (hRow : s.db.eventOutbox.get id = some row)
  (hRow' : t.db.eventOutbox.get id = some row')
include h hRow hRow'

theorem step_advances : Advances row row' := by
  rcases (step_tables h).rows.forward hRow with ⟨after, ha, hc⟩ | ⟨ha, -⟩
  · obtain rfl : after = row' := Option.some.inj (ha.symm.trans hRow')
    rcases hc with rfl | hc
    · exact Advances.refl _
    · exact hc.advances
  · rw [hRow'] at ha
    cases ha

theorem step_deadLetter_iff (ha : row.status ≠ .deadLetter) : row'.status = .deadLetter ↔
      (∃ message consumerId result, op = .markFailed id message consumerId ∧
        Outbox.markFailed host s.db id message consumerId = .ok result) ∧
      row.maxRetries ≤ row.retryCount + 1 := by
  constructor
  · intro hd
    rcases (step_tables h).rows.backward hRow' with ⟨before, hb, hc⟩ | ⟨hn, -⟩
    · obtain rfl : before = row := Option.some.inj (hb.symm.trans hRow)
      rcases hc with rfl | hs | ⟨message, consumerId, rfl, -, hf⟩
      · exact absurd hd ha
      · exact absurd (hs.alive hd) ha
      · refine ⟨?_, ?_⟩
        · cases hm : Outbox.markFailed host s.db id message consumerId with
          | ok result => exact ⟨message, consumerId, result, rfl, hm⟩
          | error =>
            simp only [Session.step, hm, Except.map, Session.settle, Option.some.injEq] at h
            rw [← h, hRow] at hRow'
            obtain rfl : before = row' := Option.some.inj hRow'
            exact absurd hd ha
        · by_contra hl
          rw [(failedRow_eq hf).2.2, if_neg hl] at hd
          cases hd
    · rw [hRow] at hn
      cases hn
  · rintro ⟨⟨message, consumerId, result, rfl, hm⟩, hu⟩
    obtain ⟨-, before, failed, hb, -, hf, hDb⟩ := markFailed_row hm
    obtain rfl : before = row := Option.some.inj (hb.symm.trans hRow)
    simp only [Session.step, hm, Except.map, Session.settle, Option.some.injEq] at h
    rw [← h, hDb, get_updateWhere_of hRow] at hRow'
    obtain rfl : failed = row' := by simpa [Table.only] using hRow'
    rw [(failedRow_eq hf).2.2, if_pos hu]

end

end

/-- What a row may become over a run: its attempts never decrease, its limit stays, and a terminal
status is final. -/
structure Endures (row row' : OutboxEventRow) : Prop where
  retryCount : row.retryCount ≤ row'.retryCount
  maxRetries : row'.maxRetries = row.maxRetries
  status : row.isTerminal = true → row'.status = row.status

theorem Endures.isTerminal (h : Endures row row') (ht : row.isTerminal = true) :
    row'.isTerminal = true := by
  rw [OutboxEventRow.isTerminal, h.status ht]
  exact ht

theorem Endures.trans {row'' : OutboxEventRow} (hf : Endures row row')
    (hs : Endures row' row'') : Endures row row'' where
  retryCount := Nat.le_trans hf.retryCount hs.retryCount
  maxRetries := hs.maxRetries.trans hf.maxRetries
  status ht := (hs.status (hf.isTerminal ht)).trans (hf.status ht)

theorem Advances.endures (h : Advances row row') : Endures row row' :=
  ⟨h.retryCount, h.maxRetries, h.status_of_terminal⟩

/-- The rows of the later session, against those of the earlier one: only a row that is not terminal
may be gone. -/
def Session.Continues (s t : Session) : Prop :=
  Evolves (fun _ => Endures) (fun _ row => row.isTerminal = false) (fun _ => True)
    s.db.eventOutbox t.db.eventOutbox

theorem Session.Continues.trans {u : Session} (hf : s.Continues t) (hs : t.Continues u) :
    s.Continues u := by
  apply Evolves.trans hf hs (fun _ _ _ _ => Endures.trans)
  intro _ row row' he hl
  by_contra ht
  rw [he.isTerminal (by simpa using ht)] at hl
  cases hl

theorem step_continues {op : Operation} (ho : quarantinesLive op s = true)
    (h : Session.step host op s = some t) : s.Continues t := by
  have hr := (step_tables h).rows
  refine ⟨hr.grows, ?_, fun hg hn => ⟨(hr.born hg hn).1, trivial⟩⟩
  intro id row hg
  rcases hr.forward hg with ⟨row', ha, hc⟩ | ⟨ha, hb⟩
  · exact .inl ⟨row', ha, hc.imp_right fun hc => hc.advances.endures⟩
  · obtain ⟨index, reason, message, event, rfl, he, rfl⟩ := hb
    exact .inr ⟨ha, by simpa [quarantinesLive, he, hg] using ho⟩

theorem run_continues (hl : Along (Session.step host) (quarantinesLive · ·) ops s)
    (hr : run (Session.step host) ops s = some t) : s.Continues t :=
  run_relates (fun _ => True) Session.Continues (fun _ _ _ _ _ _ => trivial) (fun _ => evolves_refl)
    (fun _ _ _ => Session.Continues.trans) (fun _ _ _ _ ho h => step_continues ho h) trivial
    hl hr

theorem run_separate (hr : run (Session.step host) ops .start = some t) : Separate t.db := by
  refine run_invariant (fun s => Separate s.db)
    (fun _ _ _ hs _ h => (step_tables h).separate hs) ?_ (along_anyAction ..) hr
  intro id hid
  obtain ⟨key, entry, he, -⟩ := isQuarantined_iff.mp hid
  cases he

/-- Where `quarantine` finds no terminal row, from any state to any later one: a terminal row keeps
its status and is not quarantined, attempts never decrease and limits stay; every call changes a
status by a legal transition, and kills a row exactly when it is a `markFailed` that uses up its
attempts. -/
theorem lifecycle_monotone (host : Host) {before after : List Operation} {s t : Session}
    (hLive : Along (Session.step host) (quarantinesLive · ·) (before ++ after) .start)
    (hBefore : run (Session.step host) before .start = some s)
    (hAfter : run (Session.step host) after s = some t) :
    (∀ id row, s.db.eventOutbox.get id = some row → row.isTerminal = true →
      isQuarantined t.db id = false ∧
        ∃ row', t.db.eventOutbox.get id = some row' ∧ row'.status = row.status) ∧
    (∀ id row row', s.db.eventOutbox.get id = some row → t.db.eventOutbox.get id = some row' →
      row.retryCount ≤ row'.retryCount ∧ row'.maxRetries = row.maxRetries) ∧
    ∀ op u, Session.step host op t = some u → ∀ id row row',
      t.db.eventOutbox.get id = some row → u.db.eventOutbox.get id = some row' →
      (row'.status = row.status ∨ (row.status, row'.status) ∈ outboxLifecycleTransitions) ∧
      (row.status ≠ .deadLetter → (row'.status = .deadLetter ↔
        (∃ message consumerId result, op = .markFailed id message consumerId ∧
          Outbox.markFailed host t.db id message consumerId = .ok result) ∧
        row.maxRetries ≤ row.retryCount + 1)) := by
  have ha := run_continues (hLive.append_right hBefore) hAfter
  have hb := run_separate (run_append.mpr ⟨s, hBefore, hAfter⟩)
  refine ⟨?_, ?_, ?_⟩
  · intro id row hRow ht
    rcases ha.forward hRow with ⟨row', hRow', hc⟩ | ⟨-, hg⟩
    · refine ⟨?_, row', hRow', ?_⟩
      · by_contra hm
        rw [(hb id (by simpa using hm)).1] at hRow'
        cases hRow'
      · rcases hc with rfl | he
        · rfl
        · exact he.status ht
    · rw [ht] at hg
      cases hg
  · intro id row row' hRow hRow'
    rcases ha.backward hRow' with ⟨before, hBefore, hc⟩ | ⟨hn, -⟩
    · obtain rfl : before = row := Option.some.inj (hBefore.symm.trans hRow)
      rcases hc with rfl | he
      · exact ⟨Nat.le_refl _, rfl⟩
      · exact ⟨he.retryCount, he.maxRetries⟩
    · rw [hRow] at hn
      cases hn
  · intro op u hs id row row' hRow hRow'
    exact ⟨(step_advances hs hRow hRow').transition, step_deadLetter_iff hs hRow hRow'⟩

def publishedAndQuarantined : List Operation :=
  [.create ⟨"bond", "b-1", "bond.created", .obj [], none⟩,
    .create ⟨"bond", "b-2", "bond.created", .obj [], none⟩,
    .claimEvents ⟨"worker", 2, 300, none, none⟩ [1, 2], .markPublished 1 "worker",
    .quarantine 1 .schemaInvalid "bad payload"]

theorem lifecycle_monotone_published :
    ∃ s t, run (Session.step .plain) publishedAndQuarantined .start = some s ∧
      run (Session.step .plain) [.recoverStaleLeases] s = some t ∧
      isQuarantined t.db 1 = false ∧ isQuarantined t.db 2 = true := by
  have hl : Along (Session.step .plain) (quarantinesLive · ·)
      (publishedAndQuarantined ++ [.recoverStaleLeases]) .start := by decide
  refine ⟨_, _, rfl, rfl, ?_, by decide⟩
  exact ((lifecycle_monotone .plain hl rfl rfl).1 1 _ rfl (by decide)).1

/-- The event that the claim returned says `processing`, so `quarantine` moves the published row. -/
theorem quarantine_moves_published_row :
    (run (Session.step .plain) publishedAndQuarantined .start).map
        (fun s => (s.db.eventOutbox.get 1).map OutboxEventRow.status) =
      some (some .published) ∧
    (run (Session.step .plain)
        (publishedAndQuarantined ++ [.quarantine 0 .schemaInvalid "bad payload"]) .start).map
        (fun s => ((s.db.eventOutbox.get 1).isSome, isQuarantined s.db 1)) =
      some (false, true) := by
  decide

end Credence.Outbox
