import Credence.Outbox.Publisher
import Credence.ProofKit.Runs

/-! At-least-once delivery. A publisher takes a key that it finds for the proof of an earlier
delivery; the key proves only an attempt, since `handlePublishFailure` passes a boolean as the
consumer and the key stays. -/

namespace Credence.Outbox

open ProofKit Table List

def Activation.skips (a : Activation) (id : Nat) : Bool :=
  a.todo.any (fun event => event.id == id && hasKey event) ||
    (a.stage == .markSkipped && a.todo.head?.any (·.id == id))

/-- Every key that the step finds belongs to a delivered event: on the rows that a batch claims, for
the activations of the same consumer that go on to skip such a row, and on a row whose key the step
tries to set. -/
def keysProveDelivery : Action → System → Bool
  | .processBatch config picked, s => picked.all fun id =>
      !((s.db.eventOutbox.get id).any (·.publishIdempotencyKey.isSome) ||
        s.activations.any fun a => a.config.consumerId == config.consumerId && a.skips id) ||
      s.log.contains (.returned id)
  | .advance worker, s =>
    (s.atStage worker .setKey).all fun (a, event) =>
      (s.db.eventOutbox.get event.id).all fun row =>
        !(row.heldBy a.config.consumerId && row.publishIdempotencyKey.isSome) ||
        s.log.contains (.returned event.id)
  | _, _ => true

/-- What is published, or about to be marked so, was delivered. -/
structure Delivered (s : System) : Prop where
  published : ∀ id row, s.db.eventOutbox.get id = some row → row.status = .published →
    .returned id ∈ s.log
  marking : ∀ a ∈ s.activations, a.stage = .markPublished → ∀ event, a.todo.head? = some event →
    .returned event.id ∈ s.log
  skipping : ∀ a ∈ s.activations, a.config.consumerId ≠ "" → ∀ id row, a.skips id = true →
    s.db.eventOutbox.get id = some row → row.heldBy a.config.consumerId = true →
    .returned id ∈ s.log

structure Subsides (row row' : OutboxEventRow) : Prop where
  published : row'.status = .published → row.status = .published
  held : ∀ consumerId, row'.heldBy consumerId = true → row.heldBy consumerId = true

variable {row row' : OutboxEventRow}

theorem subsides_of_not_processing (h : row'.status ≠ .processing)
    (hp : row'.status ≠ .published) : Subsides row row' :=
  ⟨fun ht => absurd ht hp, fun _ hh => absurd (heldBy_iff.mp hh).1 h⟩

theorem subsides_of_same (ht : row'.status = row.status)
    (hc : row'.consumerId = row.consumerId) : Subsides row row' := by
  refine ⟨fun h => ht ▸ h, fun consumerId hh => ?_⟩
  rw [heldBy_iff] at hh ⊢
  rwa [← ht, ← hc]

theorem subsides_failed {now : Nat} {message : String} {failed : OutboxEventRow}
    (h : failedRow now message row = some failed) : Subsides row failed := by
  unfold failedRow at h
  split at h
  · cases h
    exact subsides_of_not_processing (by simp) (by simp)
  · obtain ⟨delay, -, rfl⟩ := Option.map_eq_some_iff.mp h
    exact subsides_of_not_processing (by simp) (by simp)

section

variable {host : Host} {s : System}

theorem Delivered.of_rows {Change : Nat → OutboxEventRow → OutboxEventRow → Prop}
    {Gone : Nat → OutboxEventRow → Prop} {Born : OutboxEventRow → Prop} {db : Db}
    {log : List Entry} (hs : Delivered s) (hl : s.log ⊆ log)
    (hd : Evolves Change Gone Born s.db.eventOutbox db.eventOutbox)
    (hc : ∀ id row row', s.db.eventOutbox.get id = some row → Change id row row' →
      Subsides row row')
    (hf : ∀ row, Born row → row.status = .pending) :
    Delivered { s with db := db, log := log } where
  published := by
    refine hd.all_rows (P := fun id row => row.status = .published → .returned id ∈ log) ?_ ?_ ?_
    · exact fun id row hg ht => hl (hs.published id row hg ht)
    · intro id row row' hg hr ht
      exact hl (hs.published id row hg ((hc id row row' hg hr).published ht))
    · intro id row' _ hr ht
      rw [hf row' hr] at ht
      cases ht
  marking a ha hi event he := hl (hs.marking a ha hi event he)
  skipping a ha hn id row' hk hg hh := by
    rcases hd.backward hg with ⟨row, hb, rfl | hr⟩ | ⟨-, -, hr⟩
    · exact hl (hs.skipping a ha hn id _ hk hb hh)
    · exact hl (hs.skipping a ha hn id row hk hb
        ((hc id row row' hb hr).held _ hh))
    · rw [heldBy_iff, hf row' hr] at hh
      cases hh.1

variable {a : Activation} {config : OutboxPublisherConfig} {events : List OutboxEvent} {id : Nat}

theorem Delivered.set (hs : Delivered s) (worker : Nat)
    (hm : a.stage = .markPublished → ∀ event, a.todo.head? = some event →
      .returned event.id ∈ s.log)
    (hk : a.config.consumerId ≠ "" → ∀ id row, a.skips id = true →
      s.db.eventOutbox.get id = some row → row.heldBy a.config.consumerId = true →
      .returned id ∈ s.log) : Delivered (s.setActivation worker a) where
  published := hs.published
  marking b hb := by
    rcases mem_or_eq_of_mem_set hb with hb | rfl
    · exact hs.marking b hb
    · exact hm
  skipping b hb := by
    rcases mem_or_eq_of_mem_set hb with hb | rfl
    · exact hs.skipping b hb
    · exact hk

theorem startStage_ne_markPublished (config : OutboxPublisherConfig) (events : List OutboxEvent) :
    startStage host config events ≠ .markPublished := by
  cases events with
  | nil => simp [startStage]
  | cons =>
    rw [startStage]
    split
    · simp
    · split <;> simp

theorem hasKey_of_startStage (h : startStage host config events = .markSkipped) :
    ∀ event, events.head? = some event → hasKey event = true := by
  cases events with
  | nil => simp
  | cons =>
    rintro event ⟨⟩
    rw [startStage] at h
    split at h
    · cases h
    · by_contra hk
      rw [if_neg hk] at h
      cases h

theorem skips_iff : a.skips id = true ↔ (∃ event ∈ a.todo, event.id = id ∧ hasKey event = true) ∨
      (a.stage = .markSkipped ∧ ∃ event, a.todo.head? = some event ∧ event.id = id) := by
  simp [Activation.skips, any_eq_true, Option.any_eq_true]

theorem skips_of_startStage
    (h : Activation.skips ⟨config, events, startStage host config events⟩ id = true) :
    ∃ event ∈ events, event.id = id ∧ hasKey event = true := by
  rcases skips_iff.mp h with hk | ⟨ht, event, he, hid⟩
  · exact hk
  · exact ⟨event, mem_of_head? he, hid, hasKey_of_startStage ht event he⟩

theorem Delivered.next (hs : Delivered s) (ha : a ∈ s.activations) (worker : Nat) :
    Delivered (s.setActivation worker (a.next host)) := by
  apply hs.set worker (fun h => absurd h (startStage_ne_markPublished _ _))
  intro hn id row hb
  obtain ⟨event, he, hid, hk⟩ := skips_of_startStage hb
  exact hs.skipping a ha hn id row
    (skips_iff.mpr (.inl ⟨event, mem_of_mem_tail he, hid, hk⟩))

theorem Delivered.setStage (hs : Delivered s) (ha : a ∈ s.activations) (worker : Nat)
    {stage : Stage} (hm : stage ≠ .markPublished) (hb : stage ≠ .markSkipped) :
    Delivered (s.setActivation worker { a with stage := stage }) := by
  apply hs.set worker (fun h => absurd h hm)
  intro hn id row hi
  rcases skips_iff.mp hi with hk | ⟨ht, -⟩
  · exact hs.skipping a ha hn id row (skips_iff.mpr (.inl hk))
  · exact absurd ht hb

theorem Delivered.abort (hs : Delivered s) (worker : Nat) (a : Activation) :
    Delivered (s.setActivation worker a.abort) := by
  apply hs.set worker (fun h => by cases h)
  intro _ id row hk
  simp [Activation.skips, Activation.abort] at hk

end

section

variable {host : Host} {s t : System}

theorem buildPublishIdempotencyKey_ne (consumerId : String) (id : Nat) :
    buildPublishIdempotencyKey consumerId id ≠ "" := by
  intro h
  have := congrArg String.toList h
  simp [buildPublishIdempotencyKey] at this

variable {db : Db} {a : Activation} {event : OutboxEvent} {row : OutboxEventRow}

theorem key_of_taken (h : (a.trySetKey db event).2 = false) (hn : a.config.consumerId ≠ "")
    (hg : db.eventOutbox.get event.id = some row)
    (hh : row.heldBy a.config.consumerId = true) : row.publishIdempotencyKey.isSome = true := by
  have hk := buildPublishIdempotencyKey_ne a.config.consumerId event.id
  simp only [Activation.trySetKey, trySetPublishIdempotencyKey, hk, hn, or_self, if_false,
    hg, Option.any_some, keyFree, hh, Bool.true_and] at h
  cases hr : row.publishIdempotencyKey with
  | none => simp [hr] at h
  | some => rfl

section

variable (hs : Delivered s)
include hs

theorem Delivered.trySetKey (a : Activation) (event : OutboxEvent) :
    Delivered { s with db := (a.trySetKey s.db event).1 } := by
  refine hs.of_rows (fun _ h => h) (trySetPublishIdempotencyKey_updates event.id _ _).rows ?_
    fun _ => False.elim
  rintro id row row' - ⟨-, -, rfl⟩
  exact subsides_of_same rfl rfl

theorem Delivered.marked {rest : List OutboxEvent} (ha : a ∈ s.activations)
    (ht : a.todo = event :: rest) (hc : a.stage = .markSkipped ∨ a.stage = .markPublished)
    (hm : markPublished s.db event.id a.config.consumerId = .ok db) :
    Delivered { s with db := db } := by
  obtain ⟨hn, hu⟩ := markPublished_updates hm
  have he : a.todo.head? = some event := by rw [ht]; rfl
  have hr : ∀ row, s.db.eventOutbox.get event.id = some row →
      row.heldBy a.config.consumerId = true → .returned event.id ∈ s.log := by
    intro row hg hh
    rcases hc with hk | hc
    · exact hs.skipping a ha hn event.id row (skips_iff.mpr (.inr ⟨hk, event, he, rfl⟩))
        hg hh
    · exact hs.marking a ha hc event he
  refine ⟨?_, hs.marking, ?_⟩
  · refine hu.rows.all_rows (P := fun id row => row.status = .published →
      .returned id ∈ s.log) hs.published ?_ fun _ _ _ => False.elim
    rintro id row row' hg ⟨rfl, hh, -⟩ -
    exact hr row hg hh
  · intro b hb hn' id row' hi hg hh
    rcases hu.rows.backward hg with ⟨row, hd, rfl | ⟨-, -, rfl⟩⟩ | ⟨-, -, hf⟩
    · exact hs.skipping b hb hn' id _ hi hd hh
    · cases (heldBy_iff.mp hh).1
    · exact hf.elim

theorem Delivered.advance {worker : Nat} {a' : Activation}
    (ho : keysProveDelivery (.advance worker) s = true) (ha : s.activations[worker]? = some a)
    (h : a.advance host s.db = some (db, a')) :
    Delivered ({ s with db := db }.setActivation worker a') := by
  have hm : a ∈ s.activations := mem_of_getElem? ha
  obtain ⟨event, rest, ht, had⟩ := Activation.advance_cases h
  have he : a.todo.head? = some event := by rw [ht]; rfl
  cases had with
  | @quarantined reason message =>
    have hd : Delivered { s with db := quarantine host s.db event reason message } :=
      hs.of_rows (fun _ h => h) (quarantine_evolves event reason message)
        (fun _ _ _ _ => False.elim) fun _ => False.elim
    exact hd.next hm worker
  | marked hc hi =>
    exact (hs.marked hm ht hc hi).next hm worker
  | acquired =>
    exact (hs.trySetKey a event).setStage hm worker (by simp) (by simp)
  | taken hc hk =>
    apply (hs.trySetKey a event).set worker (fun h => by cases h)
    intro hn id row' hj hg hh
    rcases skips_iff.mp hj with hl | ⟨-, first, hf, rfl⟩
    · exact (hs.trySetKey a event).skipping a hm hn id row' (skips_iff.mpr (.inl hl))
        hg hh
    · obtain rfl : event = first := Option.some.inj (he.symm.trans hf)
      have hu := ho
      simp only [keysProveDelivery, atStage_eq.mpr ⟨ha, hc, he⟩, Option.all_some] at hu
      rcases (trySetPublishIdempotencyKey_updates event.id _ _).rows.backward hg with
        ⟨row, hb, hr⟩ | ⟨-, -, hp⟩
      · have hh' : row.heldBy a.config.consumerId = true := by
          rcases hr with rfl | ⟨-, hq, -⟩
          · exact hh
          · exact (keyFree_iff.mp hq).1
        obtain ⟨key, hv⟩ := Option.isSome_iff_exists.mp (key_of_taken hk hn hb hh')
        simpa [hb, hh', hv] using hu
      · exact hp.elim
  | failed hc hw =>
    have hd := hs.of_rows (fun _ h => h) (markFailed_updates hw).rows
      (fun _ _ _ _ hr => subsides_failed hr.2.2) fun _ => False.elim
    exact hd.next hm worker
  | threw => exact hs.setStage hm worker (by simp) (by simp)
  | aborted => exact hs.abort worker a

theorem Delivered.batch {config : OutboxPublisherConfig} {picked : List Nat}
    {events : List OutboxEvent} (ho : keysProveDelivery (.processBatch config picked) s = true)
    (h : claimEvents host s.db config.claimArgs picked = some (db, events)) :
    Delivered
      { s with db := db, activations := s.activations ++ [.start host config events] } := by
  have hd := (claimEvents_updates h).rows
  have hu : ∀ id ∈ picked, ((∃ row, s.db.eventOutbox.get id = some row ∧
      row.publishIdempotencyKey.isSome = true) ∨ ∃ a ∈ s.activations,
      a.config.consumerId = config.consumerId ∧ a.skips id = true) → .returned id ∈ s.log := by
    intro id hid hi
    have hr := all_eq_true.mp ho id hid
    simp only [Bool.or_eq_true, Bool.not_eq_true', contains_iff_mem] at hr
    rcases hr with hn | hj
    · exfalso
      rw [Bool.or_eq_false_iff] at hn
      rcases hi with ⟨row, hg, hk⟩ | ⟨a, ha, hl, hp⟩
      · simp [hg, hk] at hn
      · have := any_eq_false.mp hn.2 a ha
        simp [hl, hp] at this
    · exact hj
  refine ⟨?_, ?_, ?_⟩
  · refine hd.all_rows (P := fun id row => row.status = .published → .returned id ∈ s.log)
      hs.published ?_ fun _ _ _ => False.elim
    rintro id row row' - ⟨-, -, rfl⟩ ht
    cases ht
  · intro a ha hq
    rcases mem_append.mp ha with ha | ha
    · exact hs.marking a ha hq
    · obtain rfl := mem_singleton.mp ha
      exact absurd hq (startStage_ne_markPublished _ _)
  · intro a ha hv id row' hp hg hh
    rcases mem_append.mp ha with ha | ha
    · rcases hd.backward hg with ⟨row, hb, rfl | ⟨hid, -, rfl⟩⟩ | ⟨-, -, hf⟩
      · exact hs.skipping a ha hv id _ hp hb hh
      · have hl : config.consumerId = a.config.consumerId :=
          Option.some.inj (heldBy_iff.mp hh).2
        exact hu id hid (.inr ⟨a, ha, hl.symm, hp⟩)
      · exact hf.elim
    · obtain rfl := mem_singleton.mp ha
      obtain ⟨event, he, rfl, hk⟩ := skips_of_startStage hp
      obtain ⟨hid, row, hr, hm⟩ := mem_claimEvents h ((groupByKey_perm events).mem_iff.mp he)
      obtain rfl : row = row' := Option.some.inj (hr.symm.trans hg)
      have hw : row.publishIdempotencyKey.isSome = true := by
        rw [hm] at hk
        exact Option.isSome_of_any hk
      rcases hd.backward hg with ⟨before, hb, hc⟩ | ⟨-, -, hf⟩
      · refine hu event.id hid (.inl ⟨before, hb, ?_⟩)
        rcases hc with rfl | ⟨-, -, rfl⟩
        · exact hw
        · exact hw
      · exact hf.elim

theorem Delivered.of_updates {Change : Nat → OutboxEventRow → OutboxEventRow → Prop}
    (h : Updates Change s.db db) (hc : ∀ id row row', Change id row row' → Subsides row row') :
    Delivered { s with db := db } :=
  hs.of_rows (fun _ h => h) h.rows (fun id row row' _ => hc id row row') fun _ => False.elim

theorem Delivered.insert {quarantine : Table OutboxQuarantineRow} (h : row.status = .pending) :
    Delivered { s with
      db := { s.db with
        eventOutbox := s.db.eventOutbox.insert row
        outboxQuarantine := quarantine } } := by
  have hr : Evolves (fun _ _ _ => False) (fun _ _ => False) (fun row => row.status = .pending)
      s.db.eventOutbox (s.db.eventOutbox.insert row) := evolves_insert row h
  exact hs.of_rows (fun _ h => h) hr (fun _ _ _ _ => False.elim) fun _ h => h

theorem Delivered.append_log (entries : List Entry) :
    Delivered { s with log := s.log ++ entries } where
  published id row hg ht := mem_append_left _ (hs.published id row hg ht)
  marking a ha hb event he := mem_append_left _ (hs.marking a ha hb event he)
  skipping a ha hn id row hk hg hh := mem_append_left _ (hs.skipping a ha hn id row hk hg hh)

theorem Delivered.step {action : Action} (ho : keysProveDelivery action s = true)
    (h : System.step host action s = some t) : Delivered t := by
  cases action with
  | tick =>
    cases h
    exact ⟨hs.published, hs.marking, hs.skipping⟩
  | create event =>
    cases h
    cases hc : Outbox.create s.db event with
    | error => exact hs
    | ok result =>
      obtain ⟨⟨now, table, quarantine⟩, id⟩ := result
      obtain ⟨-, rfl, rfl, maxRetries, rfl⟩ := create_evolves hc
      exact hs.insert rfl
  | reinjectQuarantined quarantineId fixedPayload reinjectedBy =>
    cases h
    rcases reinjectQuarantined_cases s.db quarantineId fixedPayload reinjectedBy with
      hb | ⟨source, -, -, hi⟩
    · rw [hb]
      exact hs
    · rw [hi]
      exact hs.insert rfl
  | renewLease consumerId leaseSeconds =>
    cases h
    apply hs.of_updates (renewLease_updates consumerId leaseSeconds)
    rintro id row row' ⟨-, lease, rfl⟩
    exact subsides_of_same rfl rfl
  | releaseClaims consumerId =>
    cases h
    apply hs.of_updates (releaseClaims_updates consumerId)
    rintro id row row' ⟨-, rfl⟩
    exact subsides_of_not_processing (by simp [OutboxEventRow.released])
      (by simp [OutboxEventRow.released])
  | recoverStaleLeases =>
    cases h
    apply hs.of_updates recoverStaleLeases_updates
    rintro id row row' ⟨-, rfl⟩
    exact subsides_of_not_processing (by simp [OutboxEventRow.released])
      (by simp [OutboxEventRow.released])
  | cleanup config =>
    cases h
    exact hs.of_rows (subset_append_left _ _) (cleanup_evolves config)
      (fun _ _ _ _ => False.elim) fun _ => False.elim
  | processBatch =>
    simp only [System.step] at h
    split at h
    · cases h
    · obtain ⟨⟨db, events⟩, hd, rfl⟩ := Option.map_eq_some_iff.mp h
      exact hs.batch ho hd
  | advance =>
    obtain ⟨a, ha, h⟩ := Option.bind_eq_some_iff.mp h
    obtain ⟨⟨db, a'⟩, had, rfl⟩ := Option.map_eq_some_iff.mp h
    exact hs.advance ho ha had
  | publish worker =>
    obtain ⟨⟨a, event⟩, hAt, rfl⟩ := Option.map_eq_some_iff.mp h
    have hl := hs.append_log [.called event.id]
    exact hl.setStage (mem_of_getElem? (atStage_eq.mp hAt).1) worker (by simp) (by simp)
  | refuse worker nested message | publishThrows worker message =>
    obtain ⟨⟨a, event⟩, hAt, rfl⟩ := Option.map_eq_some_iff.mp h
    exact hs.setStage (mem_of_getElem? (atStage_eq.mp hAt).1) worker (by simp) (by simp)
  | publishReturns worker =>
    obtain ⟨⟨a, event⟩, hAt, rfl⟩ := Option.map_eq_some_iff.mp h
    obtain ⟨ha, ht, he⟩ := atStage_eq.mp hAt
    have hl := hs.append_log [.returned event.id]
    refine hl.set worker ?_ ?_
    · intro _ first hf
      obtain rfl : event = first := Option.some.inj (he.symm.trans hf)
      exact mem_append_right _ (mem_singleton_self _)
    · intro hn id row hg
      rcases skips_iff.mp hg with hk | ⟨hj, -⟩
      · exact hl.skipping a (mem_of_getElem? ha) hn id row (skips_iff.mpr (.inl hk))
      · cases hj
  | crash worker =>
    obtain ⟨a, ha, rfl⟩ := Option.map_eq_some_iff.mp h
    exact hs.abort worker a

end

end

theorem delivered_start : Delivered .start := by
  refine ⟨?_, ?_, ?_⟩
  · rintro id row ⟨⟩
  · rintro a ⟨⟩
  · rintro a ⟨⟩

/-- Where each key that a step finds belongs to a delivered event, every published row has had a
call of `publish` that returned. -/
theorem published_was_delivered (host : Host) {actions : List Action} {s : System}
    (hKeys : Along (System.step host) (keysProveDelivery · ·) actions .start)
    (hRun : run (System.step host) actions .start = some s) :
    ∀ id row, s.db.eventOutbox.get id = some row → row.status = .published →
      .returned id ∈ s.log := by
  have hd : Delivered s := run_invariant Delivered
    (fun _ _ _ hs ho h => hs.step ho h) delivered_start hKeys hRun
  exact hd.published

def crashAfterPublish : List Action :=
  [.create (bondCreated "b-1"), .processBatch (bondWorker "first" 100) [1], .advance 0, .publish 0,
    .publishReturns 0, .crash 0, .tick 300000001, .processBatch (bondWorker "second" 100) [1],
    .advance 1]

theorem published_was_delivered_crash :
    ∃ s, run (System.step .plain) crashAfterPublish .start = some s ∧
      (s.db.eventOutbox.get 1).map OutboxEventRow.status = some .published ∧
      .returned 1 ∈ s.log := by
  have hk : Along (System.step .plain) (keysProveDelivery · ·) crashAfterPublish .start := by
    decide
  refine ⟨_, rfl, by decide, ?_⟩
  exact published_was_delivered .plain hk rfl 1 _ rfl rfl

/-- The only call of `publish` throws, both calls of `markFailed` throw, and the lease runs out: the
next consumer marks the event as published. -/
theorem published_without_delivery : (run (System.step .plain)
      [.create (bondCreated "b-1"), .processBatch (bondWorker "first" 100) [1], .advance 0,
        .publish 0, .publishThrows 0 "connection refused", .advance 0, .advance 0, .tick 300000001,
        .processBatch (bondWorker "second" 100) [1], .advance 1] .start).map
      (fun s => ((s.db.eventOutbox.get 1).map OutboxEventRow.status, s.log)) =
    some (some .published, [.called 1]) := by
  decide

end Credence.Outbox
