import Credence.Outbox.Repository

/-! What each statement of `OutboxRepository` does to the rows of `event_outbox`. -/

namespace Credence.Outbox

open Js ProofKit Table List

/-- Only rows of the outbox change, each by `Change`. -/
structure Updates (Change : Nat → OutboxEventRow → OutboxEventRow → Prop) (db db' : Db) : Prop where
  now : db'.now = db.now
  quarantine : db'.outboxQuarantine = db.outboxQuarantine
  nextId : db'.eventOutbox.nextId = db.eventOutbox.nextId
  rows : Evolves Change (fun _ _ => False) (fun _ => False) db.eventOutbox db'.eventOutbox

variable {row : OutboxEventRow} {consumerId : String} {now id : Nat} {shard : Option Shard}

theorem heldBy_iff :
    row.heldBy consumerId = true ↔ row.status = .processing ∧ row.consumerId = some consumerId := by
  simp [OutboxEventRow.heldBy]

theorem keyFree_iff : keyFree consumerId row = true ↔
      row.heldBy consumerId = true ∧ row.publishIdempotencyKey = none := by
  simp [keyFree]

theorem claimable_status (h : claimable now shard id row = true) :
    row.status = .pending ∨ row.status = .processing := by
  simp only [claimable, Bool.and_eq_true, Bool.or_eq_true, beq_iff_eq] at h
  exact h.1.1.imp_right And.left

theorem claimable_open (h : claimable now shard id row = true) : row.isTerminal = false := by
  rcases claimable_status h with hs | hs <;> simp [OutboxEventRow.isTerminal, hs]

theorem isStale_processing (h : isStale now row = true) : row.status = .processing := by
  simp only [isStale, Bool.and_eq_true, beq_iff_eq] at h
  exact h.1

theorem only_iff {key : Nat} {p : OutboxEventRow → Bool} :
    Table.only key p id row = true ↔ id = key ∧ p row = true := by
  simp [Table.only]

variable {host : Host} {db db' : Db}

variable {Change : Nat → OutboxEventRow → OutboxEventRow → Prop} {id eventId : Nat}
  {args : ClaimArgs} {picked : List Nat} {events : List OutboxEvent} {message : String}
  {result : OutboxEventStatus × Nat} {row : OutboxEventRow}

theorem updates_refl : Updates Change db db := ⟨rfl, rfl, rfl, evolves_refl⟩

theorem updates_where (p : Nat → OutboxEventRow → Bool) (f : OutboxEventRow → OutboxEventRow)
    (h : ∀ id row, db.eventOutbox.get id = some row → p id row = true → Change id row (f row)) :
    Updates Change db { db with eventOutbox := db.eventOutbox.updateWhere p f } :=
  ⟨rfl, rfl, rfl, evolves_updateWhere p f h⟩

theorem create_evolves {event : CreateOutboxEvent} (h : create db event = .ok (db', id)) :
    id = db.eventOutbox.nextId ∧ db'.now = db.now ∧ db'.outboxQuarantine = db.outboxQuarantine ∧
    ∃ maxRetries, db'.eventOutbox = db.eventOutbox.insert (newRow db.now event.aggregateType
      event.aggregateId event.eventType event.payload maxRetries) := by
  unfold create at h
  split at h
  · cases h
  · cases h
    exact ⟨rfl, rfl, rfl, _, rfl⟩

variable {event : OutboxEvent}

section

variable (h : claimEvents host db args picked = some (db', events))
include h

theorem claimEvents_updates :
    Updates (fun id row row' => id ∈ picked ∧ claimable db.now args.shard id row = true ∧
      row' = args.claimed db.now row) db db' := by
  unfold claimEvents at h
  split at h
  · split at h
    · cases h
      exact updates_refl
    · cases h
  · split at h
    · rename_i hs
      cases h
      refine updates_where _ _ fun id row hg hp => ?_
      have hid : id ∈ picked := by simpa using hp
      have hc := hs.2.1 id hid
      rw [hg] at hc
      exact ⟨hid, hc, rfl⟩
    · cases h

theorem claimEvents_nodup : picked.Nodup := by
  unfold claimEvents at h
  split at h
  · split at h
    · rename_i hp
      rw [hp]
      exact nodup_nil
    · cases h
  · split at h
    · rename_i hs
      exact hs.1
    · cases h

theorem claimEvents_get (hid : id ∈ picked) : ∃ row, db.eventOutbox.get id = some row ∧
      db'.eventOutbox.get id = some (args.claimed db.now row) := by
  unfold claimEvents at h
  split at h
  · split at h
    · rename_i hp
      rw [hp] at hid
      cases hid
    · cases h
  · split at h
    · rename_i hs
      cases h
      obtain ⟨row, hg, -⟩ := Option.any_eq_true _ _ |>.mp (hs.2.1 id hid)
      refine ⟨row, hg, ?_⟩
      simp only [get_updateWhere_of hg, contains_iff_mem, hid, if_true]
    · cases h

theorem claimEvents_events :
    events = picked.filterMap fun id => (db'.eventOutbox.get id).map fun row =>
      mapOutboxEvent host id { row with nextAttemptAt := none } := by
  unfold claimEvents at h
  split at h
  · split at h
    · rename_i hp
      cases h
      rw [hp]
      rfl
    · cases h
  · split at h
    · cases h
      rfl
    · cases h

theorem mem_claimEvents (he : event ∈ events) : event.id ∈ picked ∧ ∃ row,
      db'.eventOutbox.get event.id = some row ∧
      event = mapOutboxEvent host event.id { row with nextAttemptAt := none } := by
  rw [claimEvents_events h] at he
  obtain ⟨id, hid, hr⟩ := mem_filterMap.mp he
  obtain ⟨row, hg, rfl⟩ := Option.map_eq_some_iff.mp hr
  exact ⟨hid, row, hg, rfl⟩

theorem claimEvents_ids : events.map OutboxEvent.id = picked := by
  rw [claimEvents_events h, map_filterMap]
  have hs : ∀ id ∈ picked, ((db'.eventOutbox.get id).map fun row =>
      mapOutboxEvent host id { row with nextAttemptAt := none }).map OutboxEvent.id = some id := by
    intro id hid
    obtain ⟨row, -, hg⟩ := claimEvents_get h hid
    rw [hg]
    rfl
  rw [filterMap_congr hs, filterMap_some]

end

theorem renewLease_updates (consumerId : String) (leaseSeconds : Number) :
    Updates (fun _ row row' => row.heldBy consumerId = true ∧
      ∃ lease, row' = { row with leaseExpiresAt := some lease }) db
      (renewLease db consumerId leaseSeconds).1 := by
  unfold renewLease
  split
  · exact updates_refl
  · exact updates_where _ _ fun _ _ _ hh => ⟨hh, _, rfl⟩

theorem releaseClaims_updates (consumerId : String) :
    Updates (fun _ row row' => row.heldBy consumerId = true ∧ row' = row.released) db
      (releaseClaims db consumerId).1 := by
  unfold releaseClaims
  split
  · exact updates_refl
  · exact updates_where _ _ fun _ _ _ hh => ⟨hh, rfl⟩

theorem recoverStaleLeases_updates :
    Updates (fun _ row row' => isStale db.now row = true ∧ row' = row.released) db
      (recoverStaleLeases db).1 :=
  updates_where _ _ fun _ _ _ hs => ⟨hs, rfl⟩

theorem markPublished_updates {consumerId : String}
    (h : markPublished db eventId consumerId = .ok db') :
    consumerId ≠ "" ∧ Updates (fun id row row' => id = eventId ∧ row.heldBy consumerId = true ∧
      row' = publishedRow db.now row) db db' := by
  unfold markPublished at h
  split at h
  · cases h
  · rename_i hn
    split at h
    · cases h
      refine ⟨hn, updates_where _ _ fun id row _ hr => ?_⟩
      exact ⟨(only_iff.mp hr).1, (only_iff.mp hr).2, rfl⟩
    · cases h

theorem markPublished_get {consumerId : String}
    (h : markPublished db eventId consumerId = .ok db') :
    ∃ row, db'.eventOutbox.get eventId = some (publishedRow db.now row) := by
  unfold markPublished at h
  split at h
  · cases h
  · split at h
    · rename_i hh
      cases h
      obtain ⟨row, hg, hr⟩ := Option.any_eq_true _ _ |>.mp hh
      exact ⟨row, by simp [get_updateWhere_of hg, Table.only, hr]⟩
    · cases h

theorem trySetPublishIdempotencyKey_updates (eventId : Nat) (key consumerId : String) :
    Updates (fun id row row' => id = eventId ∧ keyFree consumerId row = true ∧
      row' = { row with publishIdempotencyKey := some key }) db
      (trySetPublishIdempotencyKey db eventId key consumerId).1 := by
  unfold trySetPublishIdempotencyKey
  split
  · exact updates_refl
  · exact updates_where _ _ fun id row _ hr =>
      ⟨(only_iff.mp hr).1, (only_iff.mp hr).2, rfl⟩

theorem clearPublishIdempotencyKey_updates (eventId : Nat) :
    Updates (fun id row row' => id = eventId ∧ row' = { row with publishIdempotencyKey := none }) db
      (clearPublishIdempotencyKey db eventId) :=
  updates_where _ _ fun _ _ _ hr => ⟨(only_iff.mp hr).1, rfl⟩

section

variable {consumerId : ConsumerArg}
  (h : markFailed host db eventId message consumerId = .ok (db', result))
include h

theorem markFailed_row :
    consumerId.isTruthy = true ∧ ∃ row failed, db.eventOutbox.get eventId = some row ∧
      row.heldBy consumerId.sqlText = true ∧
      failedRow db.now (host.sanitizeErrorMessage message) row = some failed ∧
      db' = { db with
        eventOutbox := db.eventOutbox.updateWhere (Table.only eventId fun _ => true)
          fun _ => failed } := by
  unfold markFailed at h
  split at h
  · cases h
  · rename_i ht
    split at h
    · cases h
    · rename_i row hg
      split at h
      · cases h
      · rename_i failed hf
        cases h
        obtain ⟨hr, hh⟩ := Option.filter_eq_some_iff.mp hg
        exact ⟨by simpa using ht, row, failed, hr, hh, hf, rfl⟩

theorem markFailed_updates :
    Updates (fun id row row' => id = eventId ∧ row.heldBy consumerId.sqlText = true ∧
      failedRow db.now (host.sanitizeErrorMessage message) row = some row') db db' := by
  obtain ⟨-, row, failed, hg, hh, hf, rfl⟩ := markFailed_row h
  refine updates_where _ _ fun id other ho hr => ?_
  obtain ⟨rfl, -⟩ := only_iff.mp hr
  obtain rfl : row = other := Option.some.inj (hg.symm.trans ho)
  exact ⟨rfl, hh, hf⟩

end

theorem isQuarantined_iff : isQuarantined db id = true ↔
    ∃ key entry, db.outboxQuarantine.get key = some entry ∧ entry.originalEventId = id := by
  simp only [isQuarantined, any_eq_true, mem_range, Option.any_eq_true, beq_iff_eq]
  constructor
  · rintro ⟨key, -, entry, he, hid⟩
    exact ⟨key, entry, he, hid⟩
  · rintro ⟨key, entry, he, hid⟩
    exact ⟨key, lt_nextId he, entry, he, hid⟩

theorem isQuarantined_congr (h : db'.outboxQuarantine = db.outboxQuarantine) (id : Nat) :
    isQuarantined db' id = isQuarantined db id := by
  rw [isQuarantined, h, isQuarantined]

theorem quarantine_cases (host : Host) (db : Db) (event : OutboxEvent)
    (reason : OutboxQuarantineReason) (message : String) :
    quarantine host db event reason message = db ∨
    ∃ row, event.status ≠ .published ∧ db.eventOutbox.get event.id = some row ∧
      quarantine host db event reason message = { db with
          eventOutbox := db.eventOutbox.deleteWhere (Table.only event.id fun _ => true)
          outboxQuarantine :=
            if isQuarantined db event.id then db.outboxQuarantine
            else db.outboxQuarantine.insert (quarantineRow db.now event.id reason
              (host.sanitizeErrorMessage message) row) } := by
  unfold quarantine
  split
  · exact .inl rfl
  · rename_i hs
    split
    · exact .inl rfl
    · rename_i row hg
      exact .inr ⟨row, hs, hg, rfl⟩

theorem isQuarantined_quarantine (host : Host) (hs : event.status ≠ .published)
    (hg : db.eventOutbox.get event.id = some row)
    (reason : OutboxQuarantineReason) (message : String) (id : Nat) :
    isQuarantined (quarantine host db event reason message) id = true ↔
      id = event.id ∨ isQuarantined db id = true := by
  rw [quarantine, if_neg hs, hg]
  by_cases ho : isQuarantined db event.id = true
  · simp only [ho, if_true]
    constructor
    · exact fun hid => .inr (isQuarantined_congr rfl id ▸ hid)
    · rintro (rfl | hid)
      · exact isQuarantined_congr rfl event.id ▸ ho
      · exact isQuarantined_congr rfl id ▸ hid
  · simp only [ho, isQuarantined_iff, Bool.false_eq_true, if_false, get_insert]
    constructor
    · rintro ⟨key, entry, ⟨-, rfl⟩ | he, rfl⟩
      · exact .inl rfl
      · exact .inr ⟨key, entry, he, rfl⟩
    · rintro (rfl | ⟨key, entry, he, rfl⟩)
      · exact ⟨_, _, .inl ⟨rfl, rfl⟩, rfl⟩
      · exact ⟨key, entry, .inr he, rfl⟩

theorem quarantine_evolves (event : OutboxEvent) (reason : OutboxQuarantineReason)
    (message : String) :
    Evolves (fun _ _ _ => False) (fun id _ => id = event.id ∧ event.status ≠ .published)
      (fun _ => False) db.eventOutbox (quarantine host db event reason message).eventOutbox := by
  rcases quarantine_cases host db event reason message with h | ⟨row, hs, -, h⟩
  · rw [h]
    exact evolves_refl
  · rw [h]
    exact evolves_deleteWhere _ fun id row _ hr => ⟨(only_iff.mp hr).1, hs⟩

theorem reinjectQuarantined_cases (db : Db) (quarantineId : Nat) (fixedPayload : Json)
    (reinjectedBy : String) :
    reinjectQuarantined db quarantineId fixedPayload reinjectedBy = (db, none) ∨
    ∃ source, db.outboxQuarantine.get quarantineId = some source ∧ source.reinjectedAt = none ∧
      reinjectQuarantined db quarantineId fixedPayload reinjectedBy = ({ db with
            eventOutbox := db.eventOutbox.insert (newRow db.now source.aggregateType
              source.aggregateId source.eventType fixedPayload source.maxRetries)
            outboxQuarantine := db.outboxQuarantine.updateWhere
              (Table.only quarantineId fun _ => true) fun entry =>
                { entry with reinjectedAt := some db.now, reinjectedBy := some reinjectedBy } },
          some db.eventOutbox.nextId) := by
  unfold reinjectQuarantined
  split
  · exact .inl rfl
  · split
    · exact .inl rfl
    · rename_i source hg
      obtain ⟨hs, ho⟩ := Option.filter_eq_some_iff.mp hg
      exact .inr ⟨source, hs, by simpa using ho, rfl⟩

theorem cleanup_evolves (config : OutboxCleanupConfig) :
    Evolves (fun _ _ _ => False) (fun _ row => isExpendable db.now config row = true)
      (fun _ => False) db.eventOutbox (cleanup db config).1.eventOutbox := by
  unfold cleanup
  split
  · exact evolves_refl
  · exact evolves_deleteWhere _ fun _ _ _ hr => hr

def Separate (db : Db) : Prop :=
  ∀ id, isQuarantined db id = true → db.eventOutbox.get id = none ∧ id < db.eventOutbox.nextId

theorem Separate.of_evolves {Gone : Nat → OutboxEventRow → Prop} {Born : OutboxEventRow → Prop}
    (hs : Separate db) (hr : Evolves Change Gone Born db.eventOutbox db'.eventOutbox)
    (he : ∀ id, isQuarantined db' id = true → isQuarantined db id = true) : Separate db' := by
  intro id hid
  obtain ⟨hn, hlt⟩ := hs id (he id hid)
  refine ⟨?_, Nat.lt_of_lt_of_le hlt hr.grows⟩
  by_contra ha
  obtain ⟨row, hb⟩ := Option.ne_none_iff_exists'.mp ha
  have := (hr.born hb hn).1
  omega

theorem Separate.quarantine (he : Separate db) (event : OutboxEvent)
    (reason : OutboxQuarantineReason) (message : String) :
    Separate (quarantine host db event reason message) := by
  rcases quarantine_cases host db event reason message with h | ⟨row, hs, hg, h⟩
  · rwa [h]
  intro id hid
  have hr : (Outbox.quarantine host db event reason message).eventOutbox =
      db.eventOutbox.deleteWhere (Table.only event.id fun _ => true) := by rw [h]
  rw [hr]
  rcases (isQuarantined_quarantine host hs hg reason message id).mp hid with rfl | ho
  · have hlt : event.id < db.eventOutbox.nextId := lt_nextId hg
    exact ⟨by simp [deleteWhere, hg, Table.only, Option.filter], hlt⟩
  · obtain ⟨hn, hlt⟩ := he id ho
    exact ⟨by simp [deleteWhere, hn], hlt⟩

theorem isQuarantined_reinject (db : Db) (quarantineId : Nat) (fixedPayload : Json)
    (reinjectedBy : String) (id : Nat) :
    isQuarantined (reinjectQuarantined db quarantineId fixedPayload reinjectedBy).1 id =
      isQuarantined db id := by
  rcases reinjectQuarantined_cases db quarantineId fixedPayload reinjectedBy with
    h | ⟨source, -, -, h⟩
  · rw [h]
  rw [h, Bool.eq_iff_iff, isQuarantined_iff, isQuarantined_iff]
  constructor
  · rintro ⟨key, entry, he, rfl⟩
    obtain ⟨old, ho, rfl⟩ := get_updateWhere.mp he
    refine ⟨key, old, ho, ?_⟩
    split <;> rfl
  · rintro ⟨key, entry, he, rfl⟩
    refine ⟨key, _, get_updateWhere_of he _ _, ?_⟩
    split <;> rfl

end Credence.Outbox
