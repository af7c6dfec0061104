import Credence.Audit.Verify
import Credence.ProofKit.Lists

/-! The stored chain before the two verifiers: what they accept, and which selections of its rows.
-/

namespace Credence.Audit

open Crypto ProofKit List

def toChainRow (entry : AuditLogEntry) : AuditChainRow :=
  { id := entry.id
    seq := entry.seq.getD 0
    occurredAt := .text entry.timestamp
    actorId := entry.actorId
    action := entry.action
    resourceType := entry.resourceType
    resourceId := entry.resourceId
    detailsJson := some entry.details
    status := entry.status.text
    tenantId := entry.tenantId
    prevHash := entry.prevHash
    rowHash := entry.rowHash }

section

variable {hash : TextHash} {rows kept : List AuditLogEntry} {tip : Option String × Nat}

theorem map_seq_of_follows (h : Follows (Continues hash) advanceChain tip rows) :
    rows.map AuditLogEntry.seq = (range' tip.2 rows.length).map some := by
  induction rows generalizing tip with
  | nil => rfl
  | cons row rows ih =>
    obtain ⟨⟨hs, -⟩, hr⟩ := follows_cons.mp h
    rw [map_cons, hs, ih hr]
    rfl

variable {row : AuditLogEntry}

theorem seq_of_prevHash_none (h : Follows (Continues hash) advanceChain tip rows)
    (hr : row ∈ rows) (hn : row.prevHash = none) : tip.1 = none ∧ row.seq = some tip.2 := by
  induction rows generalizing tip with
  | nil => exact absurd hr not_mem_nil
  | cons first rows ih =>
    obtain ⟨⟨hs, hp, hh⟩, ha⟩ := follows_cons.mp h
    rcases mem_cons.mp hr with rfl | hl
    · exact ⟨hp.symm.trans hn, hs⟩
    · have ht : first.rowHash = none := (ih ha hl).1
      rw [ht] at hh
      cases hh

def Increasing (rows : List AuditLogEntry) : Prop :=
  (rows.map AuditLogEntry.seq).Pairwise fun a b => ∃ m n, a = some m ∧ b = some n ∧ m < n

theorem Increasing.sublist (h : Increasing rows) (hk : kept.Sublist rows) : Increasing kept :=
  List.Pairwise.sublist (hk.map _) h

theorem Increasing.getD_lt (h : Increasing rows) (default : Nat) :
    rows.Pairwise fun a b => a.seq.getD default < b.seq.getD default := by
  apply (pairwise_map.mp h).imp
  rintro a b ⟨m, n, hf, hs, hl⟩
  rw [hf, hs]
  exact hl

theorem IsChain.increasing (h : IsChain hash rows) : Increasing rows := by
  rw [Increasing, map_seq_of_follows h]
  refine pairwise_map.mpr ((pairwise_lt_range' 1).imp ?_)
  intro m n hl
  exact ⟨m, n, rfl, rfl, hl⟩

theorem IsChain.nodup_seq (h : IsChain hash rows) : (rows.map AuditLogEntry.seq).Nodup := by
  rw [map_seq_of_follows h]
  exact (nodup_range').map (Option.some_injective _)

theorem IsChain.one_le_seq (h : IsChain hash rows) (hr : row ∈ rows) :
    ∃ n, 1 ≤ n ∧ row.seq = some n := by
  have hm : row.seq ∈ rows.map AuditLogEntry.seq := mem_map_of_mem hr
  rw [map_seq_of_follows h] at hm
  obtain ⟨n, ha, hs⟩ := mem_map.mp hm
  exact ⟨n, (mem_range'_1.mp ha).1, hs.symm⟩

end

section

variable {hash : TextHash} {rows kept : List AuditLogEntry}

theorem verify_selection {options : AuditChainVerifierOptions} (hb : 1 ≤ options.batchSize)
    (hm : 1 ≤ options.maxViolations) (hc : IsChain hash rows) (hk : kept.Sublist rows) :
    ∃ result, verify hash options (kept.map toChainRow) = some result ∧ (result.valid = true ↔
        Follows (RowOk hash) nextBefore (none, none) (kept.map toChainRow)) ∧
      (result.valid = true → result.rowsChecked = kept.length) := by
  have hs : (kept.map toChainRow).Pairwise fun a b => a.seq < b.seq :=
    pairwise_map.mpr ((hc.increasing.sublist hk).getD_lt 0)
  have hp : ∀ row ∈ kept.map toChainRow, 1 ≤ row.seq := by
    intro row hr
    obtain ⟨entry, he, rfl⟩ := mem_map.mp hr
    obtain ⟨n, hn, ha⟩ := hc.one_le_seq (hk.subset he)
    simp only [toChainRow, ha]
    exact hn
  obtain ⟨result, hd, hv, hf⟩ := verify_spec hash hb hm hs hp
  rw [length_map] at hf
  exact ⟨result, hd, hv, hf⟩

end

def Call.stored : Call → List AuditLogInput
  | .append _ input => if input.tenantId = "" then [] else [input]
  | .appendBatch inputs => (inputs.map Prod.snd).takeWhile fun input => input.tenantId ≠ ""

section

variable {hash : TextHash} {rows : List AuditLogEntry}

theorem requests_append (s : InMemory) (fresh : Fresh) (input : AuditLogInput) :
    (s.append hash fresh input).1.logs.map AuditLogEntry.requestId =
      s.logs.map AuditLogEntry.requestId ++
        (Call.append fresh input).stored.map AuditLogInput.requestId := by
  by_cases ht : input.tenantId = ""
  · simp [InMemory.append, Call.stored, ht]
  · rw [InMemory.append_eq s fresh ht]
    simp [Call.stored, ht, newEntry]

theorem requests_appendBatch (s : InMemory) (inputs : List (Fresh × AuditLogInput)) :
    (s.appendBatch hash inputs).1.logs.map AuditLogEntry.requestId =
      s.logs.map AuditLogEntry.requestId ++
        (Call.appendBatch inputs).stored.map AuditLogInput.requestId := by
  induction inputs generalizing s with
  | nil => simp [InMemory.appendBatch, Call.stored]
  | cons first inputs ih =>
    obtain ⟨fresh, input⟩ := first
    by_cases ht : input.tenantId = ""
    · rw [InMemory.appendBatch, InMemory.append, if_pos ht]
      simp [Call.stored, ht]
    · rw [InMemory.appendBatch_cons s fresh ht inputs, ih, requests_append]
      simp [Call.stored, ht]

theorem requests_afterCalls (s : InMemory) (calls : List Call) :
    (calls.foldl (InMemory.after hash) s).logs.map AuditLogEntry.requestId =
      s.logs.map AuditLogEntry.requestId ++
        (calls.flatMap Call.stored).map AuditLogInput.requestId := by
  induction calls generalizing s with
  | nil => simp
  | cons call calls ih =>
    rw [foldl_cons, ih, flatMap_cons, map_append, ← append_assoc]
    congr 1
    cases call with
    | append fresh input => exact requests_append s fresh input
    | appendBatch inputs => exact requests_appendBatch s inputs

theorem noRequests_iff (hash : TextHash) (calls : List Call) :
    (∀ input ∈ calls.flatMap Call.stored, input.requestId.getD "" = "") ↔
      ∀ entry ∈ (InMemory.afterAll hash calls).logs, entry.requestId.getD "" = "" := by
  have hm : (∀ request ∈ (calls.flatMap Call.stored).map AuditLogInput.requestId,
      request.getD "" = "") ↔
      ∀ request ∈ (InMemory.afterAll hash calls).logs.map AuditLogEntry.requestId,
        request.getD "" = "" := by
    rw [InMemory.afterAll, requests_afterCalls, InMemory.start, map_nil, nil_append]
  simpa only [forall_mem_map] using hm

theorem hashAfter_eq_expectedHash (hi : Function.Injective hash.digest) (entry : AuditLogEntry) :
    entry.hashAfter hash entry.prevHash = (toChainRow entry).expectedHash hash ↔
      entry.requestId.getD "" = "" := by
  apply hi.eq_iff.trans
  simp [rowText, toChainRow, String.intercalate_cons_cons, OccurredAt.render]

variable {tip : Option String × Nat}

theorem entriesOk_of_chain (h : Follows (Continues hash) advanceChain tip rows) :
    Follows (EntryOk hash) nextTip tip rows := by
  induction rows generalizing tip with
  | nil => trivial
  | cons row rows ih =>
    obtain ⟨⟨hs, hp, hh⟩, hr⟩ := follows_cons.mp h
    refine ⟨⟨by rw [hs]; rfl, hp, hh⟩, ?_⟩
    rw [nextTip, hs]
    exact ih hr

theorem rowsOk_of_chain {before : Option String × Option Nat}
    (h : Follows (Continues hash) advanceChain tip rows) (ht : before.1 = tip.1)
    (hne : ∀ n, before.2 = some n → tip.2 = n + 1) :
    Follows (RowOk hash) nextBefore before (rows.map toChainRow) ↔ ∀ entry ∈ rows,
        entry.hashAfter hash entry.prevHash = (toChainRow entry).expectedHash hash := by
  induction rows generalizing tip before with
  | nil => simp [Follows]
  | cons row rows ih =>
    obtain ⟨⟨hs, hp, hh⟩, hr⟩ := follows_cons.mp h
    have hu : (toChainRow row).seq = tip.2 := by
      rw [toChainRow, hs]
      rfl
    have hl : (toChainRow row).prevHash = before.1 := hp.trans ht.symm
    have hb : RowOk hash before (toChainRow row) ↔
        row.hashAfter hash row.prevHash = (toChainRow row).expectedHash hash := by
      rw [RowOk, hu, and_iff_right hne, and_iff_right hl]
      show row.rowHash = _ ↔ _
      rw [hh, Option.some_inj, hp]
    have ha : ∀ n, (nextBefore before (toChainRow row)).2 = some n →
        (advanceChain tip row).2 = n + 1 := by
      intro n hn
      obtain rfl : (toChainRow row).seq = n := Option.some.inj hn
      rw [hu]
      rfl
    rw [map_cons, follows_cons, hb, ih hr rfl ha, forall_mem_cons]

/-- `verifyChain` accepts every stored chain, and `verify` accepts it exactly when no stored input
has a request. -/
theorem stored_chain_verifies_iff (hash : TextHash) (hInjective : Function.Injective hash.digest)
    (localeCompare : String → String → Int) (options : AuditChainVerifierOptions)
    (hBatch : 1 ≤ options.batchSize) (hMax : 1 ≤ options.maxViolations) (calls : List Call) :
    (verifyChain hash localeCompare (InMemory.afterAll hash calls).getAll).valid = true ∧
      ((∃ result,
          verify hash options ((InMemory.afterAll hash calls).logs.map toChainRow) = some result ∧
          result.valid = true ∧
          result.rowsChecked = (InMemory.afterAll hash calls).logs.length) ↔
        ∀ input ∈ calls.flatMap Call.stored, input.requestId.getD "" = "") := by
  have hs : (InMemory.afterAll hash calls).Sound hash := InMemory.sound_afterAll calls
  constructor
  · rw [hs.getAll, verifyChain_valid_iff hash localeCompare (hs.chain.increasing.getD_lt _)]
    exact entriesOk_of_chain hs.chain
  · obtain ⟨result, hr, hv, hc⟩ :=
      verify_selection hBatch hMax hs.chain (List.Sublist.refl _)
    rw [rowsOk_of_chain hs.chain rfl (by intro n hn; cases hn)] at hv
    simp only [hashAfter_eq_expectedHash hInjective] at hv
    rw [noRequests_iff hash, ← hv]
    constructor
    · rintro ⟨other, ho, ha, -⟩
      obtain rfl := Option.some.inj (hr.symm.trans ho)
      exact ha
    · intro ha
      exact ⟨result, hr, ha, hc ha⟩

end

def roleChange (requestId : Option String) : AuditLogInput :=
  { actorId := some "admin-1"
    actor_id := none
    adminId := none
    actorEmail := none
    actor_email := none
    adminEmail := none
    action := "ASSIGN_ROLE"
    resourceType := "user"
    resourceId := "user-7"
    details := none
    status := none
    ipAddress := none
    errorMessage := none
    tenantId := "tenant-1"
    requestId := requestId
    occurredAt := none }

def firstCall : Call := .append ⟨"a", "2024-01-01T00:00:00.000Z"⟩ (roleChange none)

def firstText : String :=
  rowText none "a" "2024-01-01T00:00:00.000Z" "admin-1" "ASSIGN_ROLE" "user" "user-7" "\x7b\x7d"
    "success" "tenant-1" ""

def twoCalls : List Call :=
  [firstCall, .append ⟨"b", "2024-01-01T00:00:01.000Z"⟩ (roleChange none)]

/-- With pages of one row the link between the two rows is one between pages. -/
theorem stored_chain_verifies_two :
    (∀ input ∈ twoCalls.flatMap Call.stored, input.requestId.getD "" = "") ∧ ∃ result,
        verify (sha256On [firstText]) ⟨1, 1⟩
          ((InMemory.afterAll (sha256On [firstText]) twoCalls).logs.map toChainRow) =
            some result ∧
        result.valid = true ∧ result.rowsChecked = 2 := by
  have hq : ∀ input ∈ twoCalls.flatMap Call.stored, input.requestId.getD "" = "" := by decide
  have hi : Function.Injective (sha256On [firstText]).digest := sha256On_injective (by simp)
  exact ⟨hq, (stored_chain_verifies_iff _ hi (fun _ _ => 0) ⟨1, 1⟩ (by decide)
    (by decide) twoCalls).2.mpr hq⟩

/-- One entry with a request: the verifier expects another hash. -/
theorem request_fails_verification : (verify sha256Hash ⟨1000, 100⟩ ((InMemory.afterAll sha256Hash
      [Call.append ⟨"a", "2024-01-01T00:00:00.000Z"⟩ (roleChange (some "req-1"))]).logs.map
        toChainRow)).map (fun result => result.valid) = some false := by
  decide +kernel

section

variable {hash : TextHash} {rows kept : List AuditLogEntry}

theorem prefix_of_map_seq (hc : IsChain hash rows) (hk : kept.Sublist rows)
    (hs : kept.map AuditLogEntry.seq = (range' 1 kept.length).map some) : kept <+: rows := by
  apply prefix_of_map_prefix hc.nodup_seq hk
  rw [hs, map_seq_of_follows hc]
  obtain ⟨more, hm⟩ := Nat.exists_eq_add_of_le hk.length_le
  rw [hm, ← range'_append_1, map_append]
  exact prefix_append _ _

theorem IsChain.numbered (hc : IsChain hash rows) (hk : kept.Sublist rows) :
    ∀ entry ∈ kept, entry.seq ≠ none := by
  intro entry he hn
  obtain ⟨n, -, hs⟩ := hc.one_le_seq (hk.subset he)
  rw [hn] at hs
  cases hs

theorem map_seq_of_entriesOk {tip : Option String × Nat}
    (h : Follows (EntryOk hash) nextTip tip kept) (hs : ∀ entry ∈ kept, entry.seq ≠ none) :
    kept.map AuditLogEntry.seq = (range' tip.2 kept.length).map some := by
  induction kept generalizing tip with
  | nil => rfl
  | cons entry kept ih =>
    obtain ⟨⟨ha, -⟩, hk⟩ := follows_cons.mp h
    obtain ⟨n, hn⟩ := Option.ne_none_iff_exists'.mp (hs entry (mem_cons_self ..))
    rw [hn] at ha
    obtain rfl : n = tip.2 := ha
    rw [map_cons, ih hk fun e he => hs e (mem_cons_of_mem _ he), hn, nextTip, hn]
    rfl

theorem map_seq_of_rowsOk {before : Option String × Option Nat} {n : Nat}
    (h : Follows (RowOk hash) nextBefore before (kept.map toChainRow)) (hb : before.2 = some n)
    (hs : ∀ entry ∈ kept, entry.seq ≠ none) :
    kept.map AuditLogEntry.seq = (range' (n + 1) kept.length).map some := by
  induction kept generalizing before n with
  | nil => rfl
  | cons entry kept ih =>
    rw [map_cons] at h
    obtain ⟨⟨hn, -⟩, hk⟩ := follows_cons.mp h
    obtain ⟨m, hm⟩ := Option.ne_none_iff_exists'.mp (hs entry (mem_cons_self ..))
    have ha : (toChainRow entry).seq = m := by
      rw [toChainRow, hm]
      rfl
    obtain rfl : m = n + 1 := ha.symm.trans (hn n hb)
    rw [map_cons, hm, ih hk (congrArg some ha)
      fun e he => hs e (mem_cons_of_mem _ he)]
    rfl

theorem prefix_of_rowsOk (hc : IsChain hash rows) (hk : kept.Sublist rows)
    (h : Follows (RowOk hash) nextBefore (none, none) (kept.map toChainRow)) : kept <+: rows := by
  have hs := hc.numbered hk
  cases kept with
  | nil => exact nil_prefix
  | cons first =>
    rw [map_cons] at h
    obtain ⟨⟨-, hp, -⟩, hr⟩ := follows_cons.mp h
    have ho : first.seq = some 1 :=
      (seq_of_prevHash_none hc (hk.subset (mem_cons_self ..)) hp).2
    have ha : (nextBefore (none, none) (toChainRow first)).2 = some 1 := by
      rw [nextBefore, toChainRow, ho]
      rfl
    apply prefix_of_map_seq hc hk
    rw [map_cons, ho, map_seq_of_rowsOk hr ha fun e he => hs e (mem_cons_of_mem _ he)]
    rfl

theorem verifyChain_accepts_iff_prefix (localeCompare : String → String → Int)
    (hc : IsChain hash rows) (hk : kept.Sublist rows) :
    (verifyChain hash localeCompare (some kept)).valid = true ↔ kept <+: rows := by
  rw [verifyChain_valid_iff hash localeCompare ((hc.increasing.sublist hk).getD_lt _)]
  constructor
  · intro h
    exact prefix_of_map_seq hc hk (map_seq_of_entriesOk h (hc.numbered hk))
  · intro hp
    exact entriesOk_of_chain (Follows.of_prefix hc hp)

/-- Both verifiers reject what is left of a chain exactly when it is not an initial segment. -/
theorem deletion_detected_iff (hash : TextHash) (localeCompare : String → String → Int)
    (options : AuditChainVerifierOptions) (hBatch : 1 ≤ options.batchSize)
    (hMax : 1 ≤ options.maxViolations) (calls : List Call) {kept : List AuditLogEntry}
    (hKept : kept.Sublist (InMemory.afterAll hash calls).logs) :
    ∃ result, verify hash options (kept.map toChainRow) = some result ∧
      ((verifyChain hash localeCompare (some kept)).valid = false ∧ result.valid = false ↔
        ¬kept <+: (InMemory.afterAll hash calls).logs) := by
  have hc : IsChain hash (InMemory.afterAll hash calls).logs :=
    (InMemory.sound_afterAll calls).chain
  obtain ⟨result, hr, hv, -⟩ := verify_selection hBatch hMax hc hKept
  refine ⟨result, hr, ?_⟩
  rw [← Bool.not_eq_true, ← Bool.not_eq_true, hv,
    verifyChain_accepts_iff_prefix localeCompare hc hKept]
  constructor
  · intro h
    exact h.1
  · intro hp
    exact ⟨hp, fun h => hp (prefix_of_rowsOk hc hKept h)⟩

end

def quietCalls : List Call :=
  [firstCall, .appendBatch [(⟨"b", "2024-01-02T00:00:00.000Z"⟩, roleChange (some ""))]]

theorem deletion_detected_first : ∃ result, verify sha256Hash ⟨1, 1⟩
        (((InMemory.afterAll sha256Hash quietCalls).logs.eraseIdx 0).map toChainRow) = some result ∧
      (verifyChain sha256Hash (fun _ _ => 0)
        (some ((InMemory.afterAll sha256Hash quietCalls).logs.eraseIdx 0))).valid = false ∧
      result.valid = false := by
  obtain ⟨result, hr, hi⟩ := deletion_detected_iff sha256Hash (fun _ _ => 0) ⟨1, 1⟩
    (by decide) (by decide) quietCalls (eraseIdx_sublist _ 0)
  refine ⟨result, hr, hi.mpr ?_⟩
  intro hp
  have hid := hp.map AuditLogEntry.id
  revert hid
  decide +kernel

/-- Without its last row the chain still passes. -/
theorem last_row_deleted_unnoticed :
    (InMemory.afterAll sha256Hash quietCalls).logs.dropLast.length = 1 ∧
      (verifyChain sha256Hash (fun _ _ => 0)
        (some (InMemory.afterAll sha256Hash quietCalls).logs.dropLast)).valid = true ∧
      (verify sha256Hash ⟨1000, 100⟩
        ((InMemory.afterAll sha256Hash quietCalls).logs.dropLast.map toChainRow)).map
          (fun result => result.valid) = some true := by
  decide +kernel

end Credence.Audit
