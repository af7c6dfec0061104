import Credence.Outbox.Lifecycle
import Credence.Outbox.Publisher

/-! The order of the events of an aggregate. A claim takes any row that is due, also while an
earlier event of the same aggregate is held, waits or falls beyond the limit or the shard. -/

namespace Credence.Outbox

open Js ProofKit Table List Option

structure Origin where
  id : Nat
  aggregateType : String
  aggregateId : String
  createdAt : Nat

def OutboxEventRow.origin (row : OutboxEventRow) (id : Nat) : Origin :=
  ⟨id, row.aggregateType, row.aggregateId, row.createdAt⟩

def OutboxEvent.origin (event : OutboxEvent) : Origin :=
  ⟨event.id, event.aggregateType, event.aggregateId, event.createdAt⟩

def Origin.precedes (first second : Origin) : Bool :=
  first.aggregateType == second.aggregateType && first.aggregateId == second.aggregateId &&
    decide (first.id < second.id) && decide (first.createdAt < second.createdAt)

theorem Origin.precedes_iff {first second : Origin} : first.precedes second = true ↔
    first.aggregateType = second.aggregateType ∧ first.aggregateId = second.aggregateId ∧
      first.id < second.id ∧ first.createdAt < second.createdAt := by
  simp [precedes, and_assoc]

/-- A batch takes every open event that precedes one of its events, and returns it before that
event. -/
def takesEarlierFirst : Action → System → Bool
  | .processBatch _ picked, s => picked.all fun id =>
      (s.db.eventOutbox.get id).all fun row => (range id).all fun earlier =>
        (s.db.eventOutbox.get earlier).all fun first =>
          !(!first.isTerminal && (first.origin earlier).precedes (row.origin id)) ||
            decide ([earlier, id].Sublist picked)
  | _, _ => true

structure Persists (id : Nat) (row row' : OutboxEventRow) : Prop extends Advances row row' where
  origin : row'.origin id = row.origin id

variable {id : Nat} {row row' : OutboxEventRow}

theorem Persists.isTerminal (h : Persists id row row') (ht : row.isTerminal = true) :
    row'.isTerminal = true := by
  rw [OutboxEventRow.isTerminal, h.status_of_terminal ht]
  exact ht

theorem Persists.status_ne_failed (h : Persists id row row') (hr : row.status ≠ .failed) :
    row'.status ≠ .failed := by
  rcases h.transition with hs | hl
  · rwa [hs]
  · intro hf
    simp [hf, outboxLifecycleTransitions] at hl

variable {now : Nat} {message : String} {failed : OutboxEventRow}

theorem persists_failed (hs : row.status = .processing)
    (h : failedRow now message row = some failed) : Persists id row failed := by
  refine ⟨advances_failed hs h, ?_⟩
  unfold failedRow at h
  split at h
  · cases h
    rfl
  · obtain ⟨delay, -, rfl⟩ := map_eq_some_iff.mp h
    rfl

def Leaves (t : System) (id : Nat) (row : OutboxEventRow) : Prop :=
  isQuarantined t.db id = true ∨
    (.purged id row.status ∈ t.log ∧ (row.status = .published ∨ row.status = .failed))

structure StepEffect (s t : System) : Prop where
  rows : Evolves Persists (Leaves t) IsNew s.db.eventOutbox t.db.eventOutbox
  filled : ∀ id, s.db.eventOutbox.nextId ≤ id → id < t.db.eventOutbox.nextId →
    ∃ row, t.db.eventOutbox.get id = some row
  quarantined : ∀ id, isQuarantined s.db id = true → isQuarantined t.db id = true
  log : s.log ⊆ t.log

section

variable {host : Host} {s t : System}

theorem stepEffect_of_eq (hd : t.db.eventOutbox = s.db.eventOutbox)
    (hq : t.db.outboxQuarantine = s.db.outboxQuarantine) (hl : s.log ⊆ t.log) :
    StepEffect s t where
  rows := hd ▸ evolves_refl
  filled id hle hlt := by
    rw [hd] at hlt
    omega
  quarantined id hid := isQuarantined_congr hq id ▸ hid
  log := hl

variable {db : Db} {event : OutboxEvent}

theorem stepEffect_of_updates {Change : Nat → OutboxEventRow → OutboxEventRow → Prop}
    (h : Updates Change s.db db) (hd : t.db = db) (hl : s.log ⊆ t.log)
    (hc : ∀ id row row', Change id row row' → Persists id row row') : StepEffect s t where
  rows := by
    rw [hd]
    exact h.rows.mono hc (fun _ _ => False.elim) fun _ => False.elim
  filled id hle hlt := by
    rw [hd, h.nextId] at hlt
    omega
  quarantined id hid := by
    rw [hd]
    exact isQuarantined_congr h.quarantine id ▸ hid
  log := hl

theorem stepEffect_of_insert {row : OutboxEventRow} (hn : IsNew row)
    (hd : t.db.eventOutbox = s.db.eventOutbox.insert row)
    (hq : ∀ id, isQuarantined s.db id = true → isQuarantined t.db id = true)
    (hl : s.log ⊆ t.log) : StepEffect s t where
  rows := by
    rw [hd]
    exact evolves_insert row hn
  filled id hle hlt := by
    rw [hd, nextId_insert] at hlt
    obtain rfl : id = s.db.eventOutbox.nextId := by omega
    exact ⟨row, by rw [hd]; exact get_insert.mpr (.inl ⟨rfl, rfl⟩)⟩
  quarantined := hq
  log := hl

theorem stepEffect_of_quarantine {reason : OutboxQuarantineReason}
    (hd : t.db = quarantine host s.db event reason message) (hl : s.log ⊆ t.log) :
    StepEffect s t := by
  rcases quarantine_cases host s.db event reason message with ha | ⟨row, hs, hg, h⟩
  · rw [ha] at hd
    exact stepEffect_of_eq (by rw [hd]) (by rw [hd]) hl
  · have hm := isQuarantined_quarantine host hs hg reason message
    refine ⟨?_, ?_, ?_, hl⟩
    · rw [hd]
      refine (quarantine_evolves event reason message).mono (fun _ _ _ => False.elim) ?_
        fun _ => False.elim
      rintro id - ⟨rfl, -⟩
      exact .inl (by rw [hd]; exact (hm event.id).mpr (.inl rfl))
    · intro id hle hlt
      rw [hd, h] at hlt
      exact absurd hlt (Nat.not_lt.mpr hle)
    · intro id hid
      rw [hd]
      exact (hm id).mpr (.inr hid)

theorem stepEffect_of_cleanup {config : OutboxCleanupConfig}
    (hd : t.db = (cleanup s.db config).1) (hl : t.log = s.log ++ System.purgedRows s.db config) :
    StepEffect s t := by
  have hq : t.db.outboxQuarantine = s.db.outboxQuarantine := by
    rw [hd, cleanup]
    split <;> rfl
  have hne : t.db.eventOutbox.nextId = s.db.eventOutbox.nextId := by
    rw [hd, cleanup]
    split <;> rfl
  refine ⟨?_, fun id hle hlt => by omega, fun id hid => isQuarantined_congr hq id ▸ hid,
    hl ▸ subset_append_left _ _⟩
  rw [hd]
  refine ⟨(cleanup_evolves config).grows, ?_, fun hg hn =>
    (((cleanup_evolves config).born hg hn).2).elim⟩
  intro id row hg
  rcases (cleanup_evolves config).forward hg with ⟨row', ha, hs⟩ | ⟨ha, hb⟩
  · exact .inl ⟨row', ha, hs.imp_right False.elim⟩
  · refine .inr ⟨ha, .inr ⟨?_, ?_⟩⟩
    · rw [hl, System.purgedRows]
      split
      · rename_i ho
        rw [cleanup, if_pos ho, hg] at ha
        cases ha
      · refine mem_append_right _ (mem_filterMap.mpr ⟨id, ?_, ?_⟩)
        · exact mem_range.mpr (lt_nextId hg)
        · simp [hg, hb]
    · unfold isExpendable at hb
      obtain ⟨processedAt, -, h⟩ := any_eq_true _ _ |>.mp hb
      simp only [Bool.or_eq_true, Bool.and_eq_true, beq_iff_eq] at h
      exact h.imp And.left And.left

theorem Activation.Advances.stepEffect {a a' : Activation} (h : a.Advances host s.db event db a')
    (hd : t.db = db) (hl : s.log ⊆ t.log) : StepEffect s t := by
  cases h with
  | quarantined => exact stepEffect_of_quarantine hd hl
  | marked hs hm =>
    refine stepEffect_of_updates (markPublished_updates hm).2 hd hl ?_
    rintro id row row' ⟨-, hh, rfl⟩
    exact ⟨(spares_published (heldBy_iff.mp hh).1).toAdvances, rfl⟩
  | acquired hs hk | taken hs hk =>
    refine stepEffect_of_updates (trySetPublishIdempotencyKey_updates event.id _ _) hd hl ?_
    rintro id row row' ⟨-, -, rfl⟩
    exact ⟨⟨.inl rfl, Nat.le_refl _, rfl⟩, rfl⟩
  | failed hs hf =>
    refine stepEffect_of_updates (markFailed_updates hf) hd hl ?_
    rintro id row row' ⟨-, hh, ha⟩
    exact persists_failed (heldBy_iff.mp hh).1 ha
  | threw | aborted => exact stepEffect_of_eq (by rw [hd]) (by rw [hd]) hl

theorem step_effect {action : Action} (h : System.step host action s = some t) :
    StepEffect s t := by
  have hr : s.log ⊆ s.log := fun _ h => h
  cases action with
  | tick =>
    cases h
    exact stepEffect_of_eq rfl rfl hr
  | create event =>
    cases h
    cases hc : Outbox.create s.db event with
    | error => exact stepEffect_of_eq rfl rfl hr
    | ok =>
      obtain ⟨-, -, hq, maxRetries, hi⟩ := create_evolves hc
      exact stepEffect_of_insert ⟨rfl, rfl⟩ hi
        (fun id hid => isQuarantined_congr hq id ▸ hid) hr
  | reinjectQuarantined quarantineId fixedPayload reinjectedBy =>
    cases h
    have hs := isQuarantined_reinject s.db quarantineId fixedPayload reinjectedBy
    rcases reinjectQuarantined_cases s.db quarantineId fixedPayload reinjectedBy with
      hn | ⟨source, -, -, hi⟩
    · exact stepEffect_of_eq (by simp only [hn]) (by simp only [hn]) hr
    · refine stepEffect_of_insert ⟨rfl, rfl⟩ (by simp only [hi]; rfl) (fun id hid => ?_) hr
      exact (hs id).trans hid
  | renewLease consumerId leaseSeconds =>
    cases h
    refine stepEffect_of_updates (renewLease_updates consumerId leaseSeconds) rfl hr ?_
    rintro id row row' ⟨-, lease, rfl⟩
    exact ⟨⟨.inl rfl, Nat.le_refl _, rfl⟩, rfl⟩
  | releaseClaims consumerId =>
    cases h
    refine stepEffect_of_updates (releaseClaims_updates consumerId) rfl hr ?_
    rintro id row row' ⟨hh, rfl⟩
    exact ⟨(spares_released (heldBy_iff.mp hh).1).toAdvances, rfl⟩
  | recoverStaleLeases =>
    cases h
    refine stepEffect_of_updates recoverStaleLeases_updates rfl hr ?_
    rintro id row row' ⟨ht, rfl⟩
    exact ⟨(spares_released (isStale_processing ht)).toAdvances, rfl⟩
  | cleanup =>
    cases h
    exact stepEffect_of_cleanup rfl rfl
  | processBatch =>
    simp only [System.step] at h
    split at h
    · cases h
    · obtain ⟨⟨db, events⟩, hl, rfl⟩ := map_eq_some_iff.mp h
      refine stepEffect_of_updates (claimEvents_updates hl) rfl hr ?_
      rintro id row row' ⟨-, hb, rfl⟩
      exact ⟨(spares_claimed hb).toAdvances, rfl⟩
  | advance =>
    obtain ⟨a, ha, h⟩ := bind_eq_some_iff.mp h
    obtain ⟨⟨db, a'⟩, had, rfl⟩ := map_eq_some_iff.mp h
    obtain ⟨event, rest, -, hd⟩ := Activation.advance_cases had
    exact hd.stepEffect rfl hr
  | publish worker | publishReturns worker =>
    obtain ⟨⟨a, event⟩, -, rfl⟩ := map_eq_some_iff.mp h
    exact stepEffect_of_eq rfl rfl (subset_append_left _ _)
  | refuse worker nested message | publishThrows worker message =>
    obtain ⟨⟨a, event⟩, -, rfl⟩ := map_eq_some_iff.mp h
    exact stepEffect_of_eq rfl rfl hr
  | crash =>
    obtain ⟨a, -, rfl⟩ := map_eq_some_iff.mp h
    exact stepEffect_of_eq rfl rfl hr

end

/-- The events still to process are snapshots of their rows, none occurs twice, and every open row
that precedes one of them is to be processed before it. -/
structure Ordered (db : Db) (todo : List OutboxEvent) : Prop where
  known : ∀ event ∈ todo, event.id < db.eventOutbox.nextId ∧ event.status ≠ .published
  snapshot : ∀ event ∈ todo, ∀ row, db.eventOutbox.get event.id = some row →
    event.retryCount ≤ row.retryCount ∧ row.maxRetries ≤ event.maxRetries
  distinct : (todo.map OutboxEvent.id).Nodup
  preceded : ∀ event ∈ todo, ∀ id row, db.eventOutbox.get id = some row →
    row.isTerminal = false → (row.origin id).precedes event.origin = true →
    ∃ first, first.id = id ∧ [first, event].Sublist todo

/-- Every event is in the table, in quarantine or purged after it was published. -/
structure Orderly (s : System) : Prop where
  ordered : ∀ a ∈ s.activations, Ordered s.db a.todo
  notFailed : ∀ id row, s.db.eventOutbox.get id = some row → row.status ≠ .failed
  accounted : ∀ id, 1 ≤ id → id < s.db.eventOutbox.nextId →
    (∃ row, s.db.eventOutbox.get id = some row) ∨ isQuarantined s.db id = true ∨
      .purged id .published ∈ s.log

section

variable {host : Host} {s t : System}

theorem Ordered.nil (db : Db) : Ordered db [] := by
  refine ⟨?_, ?_, nodup_nil, ?_⟩
  all_goals
    intro event he
    cases he

theorem Ordered.step {todo : List OutboxEvent} (ht : Ordered s.db todo) (h : StepEffect s t) :
    Ordered t.db todo where
  known event he := ⟨Nat.lt_of_lt_of_le (ht.known event he).1 h.rows.grows, (ht.known event he).2⟩
  snapshot event he row' hg := by
    rcases h.rows.backward hg with ⟨row, hb, rfl | hp⟩ | ⟨-, hn, -⟩
    · exact ht.snapshot event he _ hb
    · obtain ⟨hr, hm⟩ := ht.snapshot event he row hb
      exact ⟨Nat.le_trans hr hp.retryCount, hp.maxRetries ▸ hm⟩
    · have := (ht.known event he).1
      omega
  distinct := ht.distinct
  preceded event he id row' hg ho ha := by
    rcases h.rows.backward hg with ⟨row, hb, rfl | hp⟩ | ⟨-, hn, -⟩
    · exact ht.preceded event he id _ hb ho ha
    · refine ht.preceded event he id row hb ?_ (hp.origin ▸ ha)
      by_contra hc
      rw [hp.isTerminal (by simpa using hc)] at ho
      cases ho
    · have hlt : id < event.id := (Origin.precedes_iff.mp ha).2.2.1
      have := (ht.known event he).1
      omega

variable {db db' : Db} {event : OutboxEvent} {rest events : List OutboxEvent} {id : Nat}
  {row : OutboxEventRow} {picked : List Nat} {action : Action}

theorem Ordered.tail (ht : Ordered db (event :: rest))
    (hc : ∀ row, db.eventOutbox.get event.id = some row → row.isTerminal = true) :
    Ordered db rest where
  known e he := ht.known e (mem_cons_of_mem _ he)
  snapshot e he := ht.snapshot e (mem_cons_of_mem _ he)
  distinct := (nodup_cons.mp ht.distinct).2
  preceded e he id row hg ho hp := by
    obtain ⟨first, rfl, hb⟩ := ht.preceded e (mem_cons_of_mem _ he) id row hg ho hp
    cases hb with
    | cons _ hr => exact ⟨first, rfl, hr⟩
    | cons_cons =>
      rw [hc row hg] at ho
      cases ho

theorem Ordered.head (ht : Ordered db (event :: rest)) (hg : db.eventOutbox.get id = some row)
    (ho : row.isTerminal = false) : (row.origin id).precedes event.origin = false := by
  by_contra hp
  obtain ⟨first, rfl, hb⟩ := ht.preceded event (mem_cons_self ..) id row hg ho
    (by simpa using hp)
  cases hb with
  | cons _ hr =>
    have hw : event.id ∈ rest.map OutboxEvent.id := mem_map_of_mem (hr.subset (by simp))
    exact (nodup_cons.mp ht.distinct).1 hw
  | cons_cons =>
    have hlt := (Origin.precedes_iff.mp (by simpa using hp)).2.2.1
    exact Nat.lt_irrefl _ hlt

theorem Activation.Advances.closes {a a' : Activation}
    (h : a.Advances host db event db' a') (ht : a.todo = event :: rest)
    (ho : Ordered db a.todo) :
    a'.todo = a.todo ∨ a'.todo = [] ∨ (a'.todo = rest ∧
      ∀ row, db'.eventOutbox.get event.id = some row → row.isTerminal = true) := by
  have hm : event ∈ a.todo := ht ▸ mem_cons_self ..
  have hn : (a.next host).todo = rest := by rw [Activation.next, ht]; rfl
  cases h with
  | @quarantined reason message =>
    refine .inr (.inr ⟨hn, fun row hg => ?_⟩)
    rcases (quarantine_evolves event reason message).backward hg with
      ⟨before, hb, -⟩ | ⟨-, -, hf⟩
    · rw [quarantine, if_neg (ho.known event hm).2, hb] at hg
      simp [deleteWhere, hb, Table.only] at hg
    · exact hf.elim
  | marked hs ha =>
    refine .inr (.inr ⟨hn, fun row hg => ?_⟩)
    obtain ⟨before, hb⟩ := markPublished_get ha
    rw [hb] at hg
    cases hg
    rfl
  | acquired hs hk | taken hs hk | threw => exact .inl rfl
  | @failed nested message _ _ hs hc =>
    refine .inr (.inr ⟨hn, fun row hg => ?_⟩)
    obtain ⟨hd, before, failed, hb, -, hi, rfl⟩ := markFailed_row hc
    rw [get_updateWhere_of hb] at hg
    obtain rfl : failed = row := by simpa [Table.only] using hg
    have hu : event.maxRetries ≤ event.retryCount + 1 := by
      simpa [Activation.failureArg, ConsumerArg.isTruthy] using hd
    obtain ⟨hr, hm1⟩ := ho.snapshot event hm before hb
    rw [OutboxEventRow.isTerminal, (failedRow_eq hi).2.2, if_pos (by omega)]
    rfl
  | aborted => exact .inr (.inl rfl)

theorem claimEvents_pair {args : ClaimArgs}
    (h : claimEvents host db args picked = some (db', events)) (he : event ∈ events)
    (hg : db'.eventOutbox.get id = some row) (hp : [id, event.id].Sublist picked) :
    ∃ first : OutboxEvent, first.origin = row.origin id ∧ [first, event].Sublist events := by
  obtain ⟨-, later, hl, hm⟩ := mem_claimEvents h he
  refine ⟨mapOutboxEvent host id { row with nextAttemptAt := none }, rfl, ?_⟩
  have hb := hp.filterMap fun id => (db'.eventOutbox.get id).map fun row =>
    mapOutboxEvent host id { row with nextAttemptAt := none }
  rw [← claimEvents_events h] at hb
  simpa [hg, hl, ← hm] using hb

theorem aggregateKey_of_precedes {first second : OutboxEvent}
    (h : first.origin.precedes second.origin = true) :
    aggregateKey first = aggregateKey second := by
  obtain ⟨ht, hi, -⟩ := Origin.precedes_iff.mp h
  have ht' : first.aggregateType = second.aggregateType := ht
  have hi' : first.aggregateId = second.aggregateId := hi
  rw [aggregateKey, ht', hi', aggregateKey]

theorem ordered_batch {config : OutboxPublisherConfig}
    (ho : takesEarlierFirst (.processBatch config picked) s = true)
    (h : claimEvents host s.db config.claimArgs picked = some (db, events)) :
    Ordered db (Activation.start host config events).todo := by
  have ha : ((groupByAggregate events).flatMap Prod.snd).Perm events := groupByKey_perm events
  refine ⟨?_, ?_, ?_, ?_⟩
  · intro event he
    obtain ⟨hid, row, hg, hm⟩ := mem_claimEvents h (ha.mem_iff.mp he)
    obtain ⟨before, -, hc⟩ := claimEvents_get h hid
    obtain rfl : row = _ := Option.some.inj (hg.symm.trans hc)
    refine ⟨lt_nextId hg, ?_⟩
    rw [hm]
    simp [mapOutboxEvent, ClaimArgs.claimed, claimRow]
  · intro event he row hg
    obtain ⟨-, row', hg', hm⟩ := mem_claimEvents h (ha.mem_iff.mp he)
    obtain rfl : row' = row := Option.some.inj (hg'.symm.trans hg)
    rw [hm]
    refine ⟨Nat.le_refl _, ?_⟩
    simp only [mapOutboxEvent]
    split <;> omega
  · rw [Activation.start, (ha.map OutboxEvent.id).nodup_iff, claimEvents_ids h]
    exact claimEvents_nodup h
  · intro event he id row' hg hd hp
    have hi := ha.mem_iff.mp he
    obtain ⟨hid, later, hl, hm⟩ := mem_claimEvents h hi
    obtain ⟨before, hb, hc⟩ := claimEvents_get h hid
    obtain rfl : later = _ := Option.some.inj (hl.symm.trans hc)
    have hj : event.origin = before.origin event.id := by
      conv_lhs => rw [hm]
      rfl
    have hk : [id, event.id].Sublist picked := by
      obtain ⟨row, hr, hf⟩ : ∃ row, s.db.eventOutbox.get id = some row ∧
          row.isTerminal = false ∧ (row.origin id).precedes event.origin = true := by
        rcases (claimEvents_updates h).rows.backward hg with
          ⟨row, hr, rfl | ⟨-, hn, rfl⟩⟩ | ⟨-, -, hq⟩
        · exact ⟨_, hr, hd, hp⟩
        · exact ⟨row, hr, claimable_open hn, hp⟩
        · exact hq.elim
      have hlt : id < event.id := (Origin.precedes_iff.mp hp).2.2.1
      have hu := all_eq_true.mp ho event.id hid
      rw [hb, all_some] at hu
      have ht := all_eq_true.mp hu id (mem_range.mpr hlt)
      rw [hr, all_some, ← hj, hf.1, hf.2] at ht
      simpa using ht
    obtain ⟨first, hs, hv⟩ := claimEvents_pair h hi hg hk
    rw [← hs] at hp
    exact ⟨first, congrArg Origin.id hs, pair_sublist_groupByKey (aggregateKey_of_precedes hp) hv⟩

theorem Orderly.step_ordered (hs : Orderly s) (ho : takesEarlierFirst action s = true)
    (h : System.step host action s = some t) : ∀ a ∈ t.activations, Ordered t.db a.todo := by
  have he := step_effect h
  have hk : ∀ a ∈ s.activations, Ordered t.db a.todo := fun a ha => (hs.ordered a ha).step he
  have hd : ∀ worker a, t.activations = s.activations.set worker a → Ordered t.db a.todo →
      ∀ b ∈ t.activations, Ordered t.db b.todo := by
    intro worker a hf ha b hb
    rw [hf] at hb
    rcases mem_or_eq_of_mem_set hb with hb | rfl
    · exact hk b hb
    · exact ha
  cases action with
  | processBatch =>
    simp only [System.step] at h
    split at h
    · cases h
    · obtain ⟨⟨db, events⟩, hc, rfl⟩ := map_eq_some_iff.mp h
      intro a ha
      rcases mem_append.mp ha with ha | ha
      · exact hk a ha
      · obtain rfl := mem_singleton.mp ha
        exact ordered_batch ho hc
  | advance worker =>
    obtain ⟨a, ha, h⟩ := bind_eq_some_iff.mp h
    obtain ⟨⟨db, a'⟩, had, rfl⟩ := map_eq_some_iff.mp h
    obtain ⟨event, rest, ht, hv⟩ := Activation.advance_cases had
    have hm := mem_of_getElem? ha
    refine hd worker a' rfl ?_
    rcases hv.closes ht (hs.ordered a hm) with hg | hn | ⟨hr, hl⟩
    · rw [hg]
      exact hk a hm
    · rw [hn]
      exact Ordered.nil _
    · rw [hr]
      exact Ordered.tail (ht ▸ hk a hm) hl
  | publish worker | refuse worker _ _ | publishReturns worker | publishThrows worker _ =>
    obtain ⟨⟨a, event⟩, hAt, rfl⟩ := map_eq_some_iff.mp h
    exact hd worker _ rfl (hk a (mem_of_getElem? (atStage_eq.mp hAt).1))
  | crash worker =>
    obtain ⟨a, ha, rfl⟩ := map_eq_some_iff.mp h
    exact hd worker _ rfl (Ordered.nil _)
  | create event =>
    cases h
    cases hi : Outbox.create s.db event with
    | error => exact hs.ordered
    | ok => simpa [hi, Except.map, System.settle] using hk
  | _ =>
    cases h
    exact hk

theorem Orderly.step_notFailed (hs : Orderly s) (he : StepEffect s t) :
    ∀ id row, t.db.eventOutbox.get id = some row → row.status ≠ .failed :=
  he.rows.all_rows (P := fun _ row => row.status ≠ .failed) hs.notFailed
    (fun id row row' hg hp => hp.status_ne_failed (hs.notFailed id row hg))
    fun _ row' _ hn => by rw [hn.1]; simp

theorem Orderly.step_accounted (hs : Orderly s) (he : StepEffect s t) :
    ∀ id, 1 ≤ id → id < t.db.eventOutbox.nextId →
      (∃ row, t.db.eventOutbox.get id = some row) ∨ isQuarantined t.db id = true ∨
        .purged id .published ∈ t.log := by
  intro id hb hlt
  by_cases ho : id < s.db.eventOutbox.nextId
  · rcases hs.accounted id hb ho with ⟨row, hg⟩ | hq | hp
    · rcases he.rows.forward hg with ⟨row', ha, -⟩ | ⟨-, hm | ⟨hp, ht⟩⟩
      · exact .inl ⟨row', ha⟩
      · exact .inr (.inl hm)
      · rcases ht with hu | hf
        · exact .inr (.inr (hu ▸ hp))
        · exact absurd hf (hs.notFailed id row hg)
    · exact .inr (.inl (he.quarantined id hq))
    · exact .inr (.inr (he.log hp))
  · exact .inl (he.filled id (by omega) hlt)

theorem Orderly.step (hs : Orderly s) (ho : takesEarlierFirst action s = true)
    (h : System.step host action s = some t) : Orderly t :=
  ⟨hs.step_ordered ho h, hs.step_notFailed (step_effect h), hs.step_accounted (step_effect h)⟩

end

theorem orderly_start : Orderly .start := by
  refine ⟨?_, ?_, ?_⟩
  · rintro a ⟨⟩
  · rintro id row ⟨⟩
  · intro id hp hlt
    have ho : id < 1 := hlt
    omega

/-- The event is published or dead, or it was quarantined, or it was published and has been cleaned
up since. -/
def System.settled (s : System) (id : Nat) : Prop :=
  (∃ row, s.db.eventOutbox.get id = some row ∧ row.isTerminal = true) ∨
    isQuarantined s.db id = true ∨ .purged id .published ∈ s.log

/-- Where each batch takes the open predecessors of its events first, when `publish` is called for
an event, every event created before it has reached its outcome, is of another aggregate or was not
created earlier. -/
theorem publish_follows_predecessors (host : Host) (worker : Nat) {actions : List Action}
    {s : System} {a : Activation} {event : OutboxEvent}
    (hEarlier : Along (System.step host) (takesEarlierFirst · ·) actions .start)
    (hRun : run (System.step host) actions .start = some s)
    (hPublish : s.atStage worker .publish = some (a, event)) :
    ∀ id, 1 ≤ id → id < event.id → s.settled id ∨ ∃ row, s.db.eventOutbox.get id = some row ∧
      (row.origin id).precedes event.origin = false := by
  have ho : Orderly s := run_invariant Orderly (fun _ _ _ hs hOk h => hs.step hOk h)
    orderly_start hEarlier hRun
  obtain ⟨ha, -, hh⟩ := atStage_eq.mp hPublish
  obtain ⟨rest, hb⟩ := head?_eq_some_iff.mp hh
  have hr : Ordered s.db (event :: rest) := hb ▸ ho.ordered a (mem_of_getElem? ha)
  intro id hp hlt
  have hk := (hr.known event (mem_cons_self ..)).1
  rcases ho.accounted id hp (by omega) with ⟨row, hg⟩ | hq | hu
  · by_cases ht : row.isTerminal = true
    · exact .inl (.inl ⟨row, hg, ht⟩)
    · exact .inr ⟨row, hg, hr.head hg (by simpa using ht)⟩
  · exact .inl (.inr (.inl hq))
  · exact .inl (.inr (.inr hu))

def bondInOrder : List Action := [.create (bondCreated "b-1"), .tick 1, .create (bondCreated "b-1"),
    .processBatch (bondWorker "first" 100) [1, 2], .advance 0, .publish 0, .publishReturns 0,
    .advance 0, .advance 0]

theorem publish_follows_predecessors_bond :
    ∃ s a event, run (System.step .plain) bondInOrder .start = some s ∧
      s.atStage 0 .publish = some (a, event) ∧ event.id = 2 ∧
      (s.settled 1 ∨ ∃ row, s.db.eventOutbox.get 1 = some row ∧
        (row.origin 1).precedes event.origin = false) := by
  have he : Along (System.step .plain) (takesEarlierFirst · ·) bondInOrder .start := by
    decide
  refine ⟨_, _, _, rfl, rfl, rfl, ?_⟩
  exact publish_follows_predecessors .plain 0 he rfl rfl 1 (by decide) (by decide)

/-- A second consumer publishes the second event of a bond while the first consumer holds the
first. -/
theorem publish_overtakes : (run (System.step .plain)
      [.create (bondCreated "b-1"), .tick 1, .create (bondCreated "b-1"),
        .processBatch (bondWorker "first" 1) [1], .processBatch (bondWorker "second" 1) [2],
        .advance 1, .publish 1] .start).map
      (fun s => ((s.db.eventOutbox.get 1).map OutboxEventRow.status, s.log)) =
    some (some .processing, [.called 2]) := by
  decide

end Credence.Outbox
