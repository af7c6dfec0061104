import Credence.Audit.Chain
import Credence.Audit.Statements

/-! The verifiers on a table that Postgres has written: the server hashes its own text of the time,
and `getAll` has no tenant and throws. -/

namespace Credence.Audit.Postgres

open Js Crypto ProofKit Pg List

/-- The hash of the row covers the server's text of its time. -/
def AuditLogRow.ServerHashed (hash : TextHash) (row : AuditLogRow) : Prop :=
  ∃ zone details request, row.rowHash = some (computeRowHash hash row.prevHash row.id
    (timestampText zone row.occurredAt) row.actorId row.action row.resourceType row.resourceId
    details row.status.text row.tenantId request)

/-- The table gets the rows `added`, numbered from its next number on. -/
structure Table.Adds (hash : TextHash) (t t' : Table) (added : List AuditLogRow) : Prop where
  rows : t'.rows = t.rows ++ added
  numbers : added.map AuditLogRow.seq = range' t.nextSeq added.length
  drawn : t.nextSeq + added.length ≤ t'.nextSeq
  hashed : ∀ row ∈ added, row.ServerHashed hash

def Call.stored : Call → List (String × AuditLogInput)
  | .append run id input =>
    if input.tenantId = "" ∨ run.fault.isSome then [] else [(id, input)]
  | .appendBatch run items =>
    if (∃ item ∈ items, item.2.tenantId = "") ∨ run.fault.isSome then [] else items

section

variable {hash : TextHash} {server : Server}

theorem adds_none (t : Table) : t.Adds hash t [] := ⟨by simp, rfl, Nat.le_refl _, by simp⟩

theorem adds_skip (t : Table) (fault : Fault) : t.Adds hash (t.skip fault) [] :=
  ⟨by simp [Table.skip], rfl, by simp [Table.skip], by simp⟩

theorem stored_eq_sent (call : Call) : call.stored =
      if call.run.fault.isSome then [] else (call.sent.map Statement.items).getD [] := by
  have hs : ∀ run id input, (Call.append run id input).stored = if run.fault.isSome then []
      else ((Call.append run id input).sent.map Statement.items).getD [] := by
    intro run id input
    by_cases ht : input.tenantId = ""
    · simp [Call.stored, Call.sent, ht]
    · simp [Call.stored, Call.sent, ht, Statement.items]
  cases call using Call.shapes with
  | append run id input => exact hs run id input
  | empty => simp [Call.stored, Call.sent]
  | single run id input =>
    refine Eq.trans ?_ (hs run id input)
    simp [Call.stored]
  | several run first second items =>
    by_cases ht : ∃ item ∈ first :: second :: items, item.2.tenantId = ""
    · have ha : (first :: second :: items).any (fun item => item.2.tenantId = "") = true := by
        simpa using ht
      simp only [Call.stored, Call.sent, ht, ha]
      simp
    · have ha : (first :: second :: items).any (fun item => item.2.tenantId = "") = false := by
        simpa using ht
      simp only [Call.stored, Call.sent, ht, ha]
      simp [Statement.items, Call.run]

theorem adds_execute (t : Table) (run : Execution) (statement : Statement) :
    ∃ added, t.Adds hash (t.execute hash server run statement) added ∧ added.map AuditLogRow.id =
        (if run.fault.isSome then [] else statement.items).map Prod.fst := by
  rw [Table.execute]
  cases hf : run.fault with
  | some fault => exact ⟨[], adds_skip t fault, rfl⟩
  | none =>
    have hd : (range' t.nextSeq statement.items.length).length =
        statement.items.length := length_range'
    have hs := rows_seq hash server t.rows hd
    have hl := congrArg length hs
    rw [length_map, hd] at hl
    refine ⟨_, ⟨rfl, ?_, ?_, forall_rows (fun now _ _ _ _ => ⟨now.zone, _, _, rfl⟩) statement⟩, ?_⟩
    · rw [hs, hl]
    · rw [hl]
    · exact rows_id hash server t.rows hd

theorem adds_after (hash : TextHash) (server : Server) (t : Table) (call : Call) :
    ∃ added, t.Adds hash (t.after hash server call) added ∧
      added.map AuditLogRow.id = call.stored.map Prod.fst := by
  rw [after_eq_execute, stored_eq_sent]
  cases hs : call.sent with
  | none => exact ⟨[], adds_none t, by simp⟩
  | some statement => exact adds_execute t call.run statement

end

/-- The rows are in the order of their numbers, with the hashes of the server. -/
structure Table.Sound (hash : TextHash) (t : Table) : Prop where
  sorted : t.rows.Pairwise fun a b => a.seq < b.seq
  below : ∀ row ∈ t.rows, row.seq < t.nextSeq
  positive : 1 ≤ t.nextSeq ∧ ∀ row ∈ t.rows, 1 ≤ row.seq
  hashed : ∀ row ∈ t.rows, row.ServerHashed hash

section

variable {hash : TextHash} {server : Server} {t t' : Table} {added : List AuditLogRow}

theorem Table.Adds.seq_bounds (h : t.Adds hash t' added) :
    ∀ row ∈ added, t.nextSeq ≤ row.seq ∧ row.seq < t'.nextSeq := by
  intro row hr
  have hm : row.seq ∈ added.map AuditLogRow.seq := mem_map_of_mem hr
  rw [h.numbers] at hm
  have ha := mem_range'_1.mp hm
  have hd := h.drawn
  omega

theorem Table.Adds.sorted (h : t.Adds hash t' added) : added.Pairwise fun a b => a.seq < b.seq := by
  have hs : (added.map AuditLogRow.seq).Pairwise (· < ·) := by
    rw [h.numbers]
    exact pairwise_lt_range' 1
  exact pairwise_map.mp hs

theorem Table.Sound.adds (hs : t.Sound hash) (h : t.Adds hash t' added) : t'.Sound hash := by
  have hl : ∀ row ∈ t.rows, row.seq < t'.nextSeq := by
    intro row hr
    have he := hs.below row hr
    have hd := h.drawn
    omega
  have ho := hs.positive.1
  refine ⟨?_, ?_, ⟨?_, ?_⟩, ?_⟩
  · rw [h.rows, pairwise_append]
    refine ⟨hs.sorted, h.sorted, ?_⟩
    intro a ha b hb
    exact (hs.below a ha).trans_le (h.seq_bounds b hb).1
  · rw [h.rows]
    exact forall_mem_append.mpr ⟨hl, fun row hr => (h.seq_bounds row hr).2⟩
  · exact ho.trans (Nat.le_of_add_right_le h.drawn)
  · rw [h.rows]
    refine forall_mem_append.mpr ⟨hs.positive.2, fun row hr => ?_⟩
    exact ho.trans (h.seq_bounds row hr).1
  · rw [h.rows]
    exact forall_mem_append.mpr ⟨hs.hashed, h.hashed⟩

theorem sound_start : Table.start.Sound hash :=
  ⟨.nil, by simp [Table.start], ⟨Nat.le_refl _, by simp [Table.start]⟩, by simp [Table.start]⟩

theorem afterCalls_spec (hs : t.Sound hash) (calls : List Call) :
    (calls.foldl (Table.after hash server) t).Sound hash ∧
      (calls.foldl (Table.after hash server) t).rows.map AuditLogRow.id =
        t.rows.map AuditLogRow.id ++ (calls.flatMap Call.stored).map Prod.fst := by
  induction calls generalizing t with
  | nil => exact ⟨hs, by simp⟩
  | cons call calls ih =>
    obtain ⟨added, ha, hi⟩ := adds_after hash server t call
    obtain ⟨hb, hr⟩ := ih (hs.adds ha)
    refine ⟨hb, ?_⟩
    rw [foldl_cons, hr, ha.rows, map_append, hi, flatMap_cons,
      map_append, append_assoc]

theorem ids_afterAll (calls : List Call) :
    (Table.afterAll hash server calls).rows.map AuditLogRow.id =
      (calls.flatMap Call.stored).map Prod.fst :=
  (afterCalls_spec sound_start calls).2

end

theorem rowHash_ne_expectedHash {hash : TextHash} (hi : Function.Injective hash.digest)
    {row : AuditLogRow} (h : row.ServerHashed hash) :
    row.chainRow.rowHash ≠ some (row.chainRow.expectedHash hash) := by
  intro he
  obtain ⟨zone, details, request, hs⟩ := h
  have hd := Option.some.inj (hs.symm.trans he)
  have ht := hi hd
  simp only [rowText, String.intercalate_cons_cons, AuditLogRow.chainRow] at ht
  rw [String.append_right_inj, String.append_right_inj, ← String.toList_inj] at ht
  simp only [String.toList_append, append_assoc] at ht
  have ha := first_part_eq (bar_notMem_timestampText _ _) (bar_notMem_toISOString _) ht
  exact timestampText_ne_toISOString _ _ _ (String.toList_inj.mp ha.1)

/-- `verifyChain` rejects every table, since it cannot read it; `verify` accepts exactly the tables
into which no call has stored a row. -/
theorem postgres_chain_verifies_iff (hash : TextHash) (hInjective : Function.Injective hash.digest)
    (server : Server) (r : Reading) (localeCompare : String → String → Int)
    (options : AuditChainVerifierOptions) (hBatch : 1 ≤ options.batchSize)
    (hMax : 1 ≤ options.maxViolations) (calls : List Call) :
    (verifyChain hash localeCompare
        (getAll r (Table.afterAll hash server calls).rows).toOption).valid = false ∧
      ∃ result, verify hash options
          ((Table.afterAll hash server calls).rows.map AuditLogRow.chainRow) = some result ∧
        (result.valid = true ↔ ∀ call ∈ calls, call.stored = []) := by
  have hs : (Table.afterAll hash server calls).Sound hash := (afterCalls_spec sound_start calls).1
  have he : (Table.afterAll hash server calls).rows = [] ↔ ∀ call ∈ calls, call.stored = [] := by
    rw [← flatMap_eq_nil_iff, ← map_eq_nil_iff (f := Prod.fst),
      ← ids_afterAll, map_eq_nil_iff]
  have hp : ∀ row ∈ (Table.afterAll hash server calls).rows.map AuditLogRow.chainRow,
      1 ≤ row.seq := by
    intro chainRow hm
    obtain ⟨row, hr, rfl⟩ := mem_map.mp hm
    exact hs.positive.2 row hr
  refine ⟨rfl, ?_⟩
  obtain ⟨result, ha, hv, -⟩ := verify_spec hash hBatch hMax (pairwise_map.mpr hs.sorted) hp
  refine ⟨result, ha, ?_⟩
  rw [hv, ← he]
  cases hb : (Table.afterAll hash server calls).rows with
  | nil => simp [Follows]
  | cons row =>
    have hr : row.ServerHashed hash := hs.hashed row (by rw [hb]; simp)
    refine ⟨fun h => ?_, fun h => by cases h⟩
    exact absurd (follows_cons.mp h).1.2.2 (rowHash_ne_expectedHash hInjective hr)

def refusedCalls : List Call :=
  [.append ⟨newYear, none⟩ "a" { roleChange none with tenantId := "" },
    .append ⟨newYear, some ⟨"connection terminated", 1⟩⟩ "b" (roleChange none),
    .appendBatch ⟨newYear, none⟩ [("c", roleChange none),
      ("d", { roleChange none with tenantId := "" })]]

theorem postgres_chain_verifies_refused : (∀ call ∈ refusedCalls, call.stored = []) ∧
      ∃ result, verify (sha256On []) ⟨1, 1⟩
          ((Table.afterAll (sha256On []) plainServer refusedCalls).rows.map AuditLogRow.chainRow) =
            some result ∧
        result.valid = true := by
  have hr : ∀ call ∈ refusedCalls, call.stored = [] := by
    simp [refusedCalls, Call.stored, roleChange]
  obtain ⟨-, result, he, hi⟩ := postgres_chain_verifies_iff (sha256On [])
    (sha256On_injective (by simp)) plainServer plainReading (fun _ _ => 0) ⟨1, 1⟩ (by decide)
    (by decide) refusedCalls
  exact ⟨hr, result, he, hi.mpr hr⟩

/-- One row, without a request and with empty details: both verifiers reject it. -/
theorem postgres_row_rejected :
    (verify sha256Hash ⟨1000, 100⟩ ((Table.afterAll sha256Hash plainServer
        [.append ⟨newYear, none⟩ "a" (roleChange none)]).rows.map AuditLogRow.chainRow)).map
          (fun result => result.valid) = some false ∧
      (verifyChain sha256Hash (fun _ _ => 0) (getAll plainReading (Table.afterAll sha256Hash
        plainServer [.append ⟨newYear, none⟩ "a" (roleChange none)]).rows).toOption).valid =
          false := by
  decide +kernel

end Credence.Audit.Postgres
