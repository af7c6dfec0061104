import Credence.Audit.Repository
import Credence.Js.Date
import Mathlib.Data.List.Sort

/-! The two verifiers of the audit chain, `AuditLogService.verifyChain` and
`AuditChainVerifier.verify`, as checks of each row in the state that the rows before it have left.
-/

namespace Credence.Audit

open Js Crypto ProofKit List

inductive ViolationType where
  | prevHashMismatch
  | rowHashMismatch
  | missingRow
  | deletedRow

structure ChainViolation where
  seq : Nat
  id : String
  expectedPrevHash : Option String
  actualPrevHash : Option String
  expectedRowHash : String
  actualRowHash : Option String
  type : ViolationType

structure ChainVerificationResult where
  valid : Bool
  rowsChecked : Nat
  lastCheckedSeq : Option Nat
  firstViolationSeq : Option Nat
  firstViolationId : Option String
  violationCount : Nat
  violations : List ChainViolation

/-! ### `AuditLogService.verifyChain` -/

def maxSafeInteger : Nat := 9007199254740991

def walksBefore (localeCompare : String → String → Int) (a b : AuditLogEntry) : Prop :=
  let first := a.seq.getD maxSafeInteger
  let second := b.seq.getD maxSafeInteger
  first < second ∨ (first = second ∧ localeCompare a.id b.id ≤ 0)

instance (localeCompare : String → String → Int) : DecidableRel (walksBefore localeCompare) :=
  fun _ _ => inferInstanceAs (Decidable (_ ∨ _))

def entryViolations (hash : TextHash) (tip : Option String × Nat) (entry : AuditLogEntry) :
    List ChainViolation :=
  let seq := entry.seq.getD tip.2
  let expectedHash := entry.hashAfter hash tip.1
  let violation (seq : Nat) (type : ViolationType) : ChainViolation :=
    ⟨seq, entry.id, tip.1, entry.prevHash, expectedHash, entry.rowHash, type⟩
  (if seq ≠ tip.2 then [violation tip.2 .missingRow] else []) ++
    (if entry.prevHash ≠ tip.1 then [violation seq .prevHashMismatch] else []) ++
    (if entry.rowHash.getD "" = "" ∨ entry.rowHash ≠ some expectedHash then
      [violation seq .rowHashMismatch] else [])

def nextTip (tip : Option String × Nat) (entry : AuditLogEntry) : Option String × Nat :=
  (entry.rowHash, entry.seq.getD tip.2 + 1)

def unreadableChain : ChainVerificationResult :=
  { valid := false
    rowsChecked := 0
    lastCheckedSeq := none
    firstViolationSeq := some 1
    firstViolationId := none
    violationCount := 1
    violations := [⟨1, "unreadable-chain", none, none, "", none, .missingRow⟩] }

/-- `verifyChain` on the result of `getAll`; `none` when `getAll` throws. -/
def verifyChain (hash : TextHash) (localeCompare : String → String → Int) :
    Option (List AuditLogEntry) → ChainVerificationResult
  | none => unreadableChain
  | some logs =>
    let ordered := logs.insertionSort (walksBefore localeCompare)
    let violations := collect (entryViolations hash) nextTip
      (none, if 0 < ordered.length then 1 else 0) ordered
    { valid := violations.length == 0
      rowsChecked := ordered.length
      lastCheckedSeq := match ordered.getLast? with
        | some last => some (last.seq.getD ordered.length)
        | none => some 0
      firstViolationSeq := violations.head?.map ChainViolation.seq
      firstViolationId := violations.head?.map ChainViolation.id
      violationCount := violations.length
      violations := violations }

/-! ### `AuditChainVerifier.verify` -/

inductive OccurredAt where
  | date (millis : Int)
  | text (value : String)

def OccurredAt.render : OccurredAt → String
  | date millis => toISOString millis
  | text value => value

structure AuditChainRow where
  id : String
  seq : Nat
  occurredAt : OccurredAt
  actorId : String
  action : String
  resourceType : String
  resourceId : String
  detailsJson : Option Json
  status : String
  tenantId : String
  prevHash : Option String
  rowHash : Option String

/-- The hash that the verifier expects; it leaves out the request. -/
def AuditChainRow.expectedHash (hash : TextHash) (row : AuditChainRow) : String :=
  computeRowHash hash row.prevHash row.id row.occurredAt.render row.actorId row.action
    row.resourceType row.resourceId ((row.detailsJson.map Json.stringify).getD "\x7b\x7d")
    row.status row.tenantId ""

structure AuditChainVerifierOptions where
  batchSize : Nat
  maxViolations : Nat

structure Progress where
  violations : List ChainViolation
  rowsChecked : Nat
  prevRowHash : Option String
  prevSeq : Option Nat
  lastSeq : Nat

namespace Progress

def start : Progress := ⟨[], 0, none, none, 0⟩

/-- Records what the checks find until there are as many violations as there may be; says whether
the loop over the page ends. -/
def note (options : AuditChainVerifierOptions) :
    List (Option ChainViolation) → Progress → Progress × Bool
  | [], p => (p, false)
  | none :: checks, p => note options checks p
  | some violation :: checks, p =>
    let p' := { p with violations := p.violations ++ [violation] }
    if options.maxViolations ≤ p'.violations.length then (p', true) else note options checks p'

end Progress

section

variable (prevRowHash : Option String) (row : AuditChainRow)

def gapViolation (prevSeq : Option Nat) : Option ChainViolation :=
  if prevSeq.any fun seq => row.seq ≠ seq + 1 then
    some ⟨row.seq, row.id, prevRowHash, row.prevHash, "", row.rowHash, .deletedRow⟩
  else none

def linkViolation : Option ChainViolation :=
  if row.prevHash ≠ prevRowHash ∧ ((prevRowHash = none ∧ row.prevHash ≠ none) ∨
      (prevRowHash ≠ none ∧ row.prevHash ≠ prevRowHash)) then
    some ⟨row.seq, row.id, prevRowHash, row.prevHash, "", row.rowHash, .prevHashMismatch⟩
  else none

def hashViolation (hash : TextHash) : Option ChainViolation :=
  if row.rowHash ≠ some (row.expectedHash hash) then
    some ⟨row.seq, row.id, prevRowHash, row.prevHash, row.expectedHash hash, row.rowHash,
      .rowHashMismatch⟩
  else none

end

section

variable (hash : TextHash) (options : AuditChainVerifierOptions)

def visit (p : Progress) (row : AuditChainRow) : Progress × Bool :=
  let counted := { p with rowsChecked := p.rowsChecked + 1 }
  match counted.note options [gapViolation p.prevRowHash row p.prevSeq,
      linkViolation p.prevRowHash row, hashViolation p.prevRowHash row hash] with
  | (p, true) => (p, true)
  | (p, false) =>
    ({ p with prevRowHash := row.rowHash, prevSeq := some row.seq, lastSeq := row.seq }, false)

def visitPage : List AuditChainRow → Progress → Progress
  | [], p => p
  | row :: rows, p =>
    match visit hash options p row with
    | (p, true) => p
    | (p, false) => visitPage rows p

def fetchBatch (table : List AuditChainRow) (afterSeq : Nat) : List AuditChainRow :=
  ((table.filter fun row => afterSeq < row.seq).insertionSort fun a b => a.seq ≤ b.seq).take
    options.batchSize

/-- The loop over the pages; `none` when the fuel runs out. -/
def visitTable (table : List AuditChainRow) : Nat → Progress → Option Progress
  | 0, _ => none
  | fuel + 1, p =>
    if p.violations.length < options.maxViolations then
      let rows := fetchBatch options table p.lastSeq
      if rows.length = 0 then some p
      else
        let p' := visitPage hash options rows p
        if rows.length < options.batchSize then some p' else visitTable table fuel p'
    else some p

def Progress.result (p : Progress) : ChainVerificationResult :=
  { valid := p.violations.length == 0
    rowsChecked := p.rowsChecked
    lastCheckedSeq := some p.lastSeq
    firstViolationSeq := p.violations.head?.map ChainViolation.seq
    firstViolationId := p.violations.head?.map ChainViolation.id
    violationCount := p.violations.length
    violations := p.violations }

def verify (table : List AuditChainRow) : Option ChainVerificationResult :=
  (visitTable hash options table (table.length + 2) .start).map Progress.result

end

/-! ### What `verifyChain` accepts -/

def EntryOk (hash : TextHash) (tip : Option String × Nat) (entry : AuditLogEntry) : Prop :=
  entry.seq.getD tip.2 = tip.2 ∧ entry.prevHash = tip.1 ∧
    entry.rowHash = some (entry.hashAfter hash tip.1)

theorem entryViolations_eq_nil {hash : TextHash} {tip : Option String × Nat}
    {entry : AuditLogEntry} : entryViolations hash tip entry = [] ↔ EntryOk hash tip entry := by
  have hi : ∀ {c : Prop} [Decidable c] {v : ChainViolation}, (if c then [v] else []) = [] ↔ ¬c := by
    intro c _ v
    by_cases hc : c <;> simp [hc]
  simp only [entryViolations, append_eq_nil_iff, hi, not_not, EntryOk, not_or, and_assoc]
  refine and_congr_right fun _ => and_congr_right fun _ => and_iff_right_of_imp fun hh => ?_
  rw [hh]
  exact hash.digest_ne _

theorem verifyChain_valid_iff (hash : TextHash) (localeCompare : String → String → Int)
    {logs : List AuditLogEntry}
    (hs : logs.Pairwise fun a b => a.seq.getD maxSafeInteger < b.seq.getD maxSafeInteger) :
    (verifyChain hash localeCompare (some logs)).valid = true ↔
      Follows (EntryOk hash) nextTip (none, 1) logs := by
  have ho : logs.insertionSort (walksBefore localeCompare) = logs :=
    (hs.imp fun h => Or.inl h).insertionSort_eq
  simp only [verifyChain, ho, beq_iff_eq, length_eq_zero_iff, collect_eq_nil,
    entryViolations_eq_nil]
  cases logs with
  | nil => simp [Follows]
  | cons => simp

/-! ### What `verify` accepts -/

def RowOk (hash : TextHash) (before : Option String × Option Nat) (row : AuditChainRow) : Prop :=
  (∀ seq, before.2 = some seq → row.seq = seq + 1) ∧ row.prevHash = before.1 ∧
    row.rowHash = some (row.expectedHash hash)

def nextBefore (_ : Option String × Option Nat) (row : AuditChainRow) :
    Option String × Option Nat :=
  (row.rowHash, some row.seq)

def Progress.before (p : Progress) : Option String × Option Nat := (p.prevRowHash, p.prevSeq)

def Progress.pass (p : Progress) (row : AuditChainRow) : Progress := { p with
    rowsChecked := p.rowsChecked + 1
    prevRowHash := row.rowHash
    prevSeq := some row.seq
    lastSeq := row.seq }

section

variable {hash : TextHash} {options : AuditChainVerifierOptions} {p : Progress}
  {row : AuditChainRow}

variable {prevRowHash : Option String} {rows : List AuditChainRow} {last : AuditChainRow}

theorem gapViolation_eq_none {prevSeq : Option Nat} : gapViolation prevRowHash row prevSeq = none ↔
      ∀ seq, prevSeq = some seq → row.seq = seq + 1 := by
  cases prevSeq with
  | none => simp [gapViolation]
  | some => simp [gapViolation]

theorem linkViolation_eq_none :
    linkViolation prevRowHash row = none ↔ row.prevHash = prevRowHash := by
  rw [linkViolation]
  split
  · rename_i h
    simp [h.1]
  · rename_i h
    simp only [true_iff]
    by_contra hne
    cases prevRowHash with
    | none => exact h ⟨hne, .inl ⟨rfl, hne⟩⟩
    | some => exact h ⟨hne, .inr ⟨by simp, hne⟩⟩

theorem hashViolation_eq_none :
    hashViolation prevRowHash row hash = none ↔ row.rowHash = some (row.expectedHash hash) := by
  simp [hashViolation]

theorem note_none {checks : List (Option ChainViolation)} (h : ∀ check ∈ checks, check = none) :
    Progress.note options checks p = (p, false) := by
  induction checks with
  | nil => rfl
  | cons check checks ih =>
    obtain rfl := h check (mem_cons_self ..)
    exact ih fun c hc => h c (mem_cons_of_mem _ hc)

theorem note_found (options : AuditChainVerifierOptions) (checks : List (Option ChainViolation))
    (p : Progress) : ∃ found,
      (Progress.note options checks p).1.violations = p.violations ++ found ∧
      ((∃ violation, some violation ∈ checks) → found ≠ []) ∧
      ((Progress.note options checks p).2 = true →
        options.maxViolations ≤ (p.violations ++ found).length) := by
  induction checks generalizing p with
  | nil => exact ⟨[], by simp [Progress.note], by simp, by simp [Progress.note]⟩
  | cons check checks ih =>
    cases check with
    | none =>
      obtain ⟨found, hf, ha, hs⟩ := ih p
      exact ⟨found, hf, fun h => ha (by simpa using h), hs⟩
    | some violation =>
      rw [Progress.note]
      simp only
      split
      · rename_i hm
        exact ⟨[violation], rfl, by simp, fun _ => hm⟩
      · obtain ⟨found, hf, -, hs⟩ :=
          ih { p with violations := p.violations ++ [violation] }
        refine ⟨violation :: found, ?_, by simp, ?_⟩
        · simpa using hf
        · simpa using hs

theorem rowOk_iff : RowOk hash p.before row ↔
    ∀ check ∈ [gapViolation p.prevRowHash row p.prevSeq, linkViolation p.prevRowHash row,
      hashViolation p.prevRowHash row hash], check = none := by
  simp only [forall_mem_cons, not_mem_nil, false_imp_iff, implies_true, and_true,
    gapViolation_eq_none, linkViolation_eq_none, hashViolation_eq_none]
  rfl

theorem visit_of_rowOk (h : RowOk hash p.before row) :
    visit hash options p row = (p.pass row, false) := by
  have hc := rowOk_iff.mp h
  simp only [visit, note_none hc]
  rfl

theorem visit_found (hash : TextHash) (options : AuditChainVerifierOptions) (p : Progress)
    (row : AuditChainRow) : ∃ found,
      (visit hash options p row).1.violations = p.violations ++ found ∧
      (¬RowOk hash p.before row → found ≠ []) ∧
      ((visit hash options p row).2 = true →
        options.maxViolations ≤ (visit hash options p row).1.violations.length) ∧
      ((visit hash options p row).2 = false → (visit hash options p row).1.lastSeq = row.seq) := by
  let checks := [gapViolation p.prevRowHash row p.prevSeq, linkViolation p.prevRowHash row,
    hashViolation p.prevRowHash row hash]
  obtain ⟨found, hf, ha, hs⟩ := note_found options checks
    { p with rowsChecked := p.rowsChecked + 1 }
  have hb : ¬RowOk hash p.before row → found ≠ [] := by
    intro hr
    rw [rowOk_iff] at hr
    push Not at hr
    obtain ⟨check, hm, hc⟩ := hr
    obtain ⟨violation, rfl⟩ := Option.ne_none_iff_exists'.mp hc
    exact ha ⟨violation, hm⟩
  cases hn : Progress.note options checks { p with rowsChecked := p.rowsChecked + 1 } with
  | mk q stop =>
    rw [hn] at hf hs
    cases stop with
    | true =>
      have hv : visit hash options p row = (q, true) := by simp only [visit, checks, hn]
      rw [hv]
      refine ⟨found, hf, hb, fun _ => ?_, fun h => by cases h⟩
      rw [hf]
      exact hs rfl
    | false =>
      have hv : visit hash options p row =
          ({ q with prevRowHash := row.rowHash, prevSeq := some row.seq, lastSeq := row.seq },
            false) := by
        simp only [visit, checks, hn]
      rw [hv]
      exact ⟨found, hf, hb, (by cases ·), fun _ => rfl⟩

def Progress.passAll (p : Progress) (rows : List AuditChainRow) : Progress :=
  rows.foldl Progress.pass p

theorem passAll_violations (p : Progress) (rows : List AuditChainRow) :
    (p.passAll rows).violations = p.violations := by
  induction rows generalizing p with
  | nil => rfl
  | cons row rows ih => exact ih (p.pass row)

theorem passAll_rowsChecked (p : Progress) (rows : List AuditChainRow) :
    (p.passAll rows).rowsChecked = p.rowsChecked + rows.length := by
  induction rows generalizing p with
  | nil => rfl
  | cons row rows ih =>
    have hr : (p.passAll (row :: rows)).rowsChecked = p.rowsChecked + 1 + rows.length :=
      ih (p.pass row)
    rw [hr, length_cons]
    omega

theorem passAll_before (p : Progress) (rows : List AuditChainRow) :
    (p.passAll rows).before = carry nextBefore p.before rows := by
  induction rows generalizing p with
  | nil => rfl
  | cons row rows ih => exact ih (p.pass row)

theorem passAll_lastSeq (p : Progress) (h : rows.getLast? = some last) :
    (p.passAll rows).lastSeq = last.seq := by
  obtain ⟨front, rfl⟩ := getLast?_eq_some_iff.mp h
  rw [Progress.passAll, foldl_append]
  rfl

theorem visitPage_of_follows (h : Follows (RowOk hash) nextBefore p.before rows) :
    visitPage hash options rows p = p.passAll rows := by
  induction rows generalizing p with
  | nil => rfl
  | cons row rows ih =>
    obtain ⟨hr, ha⟩ := follows_cons.mp h
    rw [visitPage, visit_of_rowOk hr]
    exact ih ha

theorem visitPage_cons (hash : TextHash) (options : AuditChainVerifierOptions)
    (row : AuditChainRow) (rows : List AuditChainRow) (p : Progress) :
    visitPage hash options (row :: rows) p =
      if (visit hash options p row).2 then (visit hash options p row).1
      else visitPage hash options rows (visit hash options p row).1 := by
  rw [visitPage]
  split
  · next hv => rw [hv, if_pos rfl]
  · next hv => rw [hv, if_neg Bool.false_ne_true]

theorem visitPage_found (h : p.violations ≠ [] ∨ ¬Follows (RowOk hash) nextBefore p.before rows) :
    (visitPage hash options rows p).violations ≠ [] := by
  induction rows generalizing p with
  | nil => exact h.resolve_right (not_not_intro trivial)
  | cons row rows ih =>
    obtain ⟨found, hf, hs, -⟩ := visit_found hash options p row
    by_cases hr : p.violations = [] ∧ RowOk hash p.before row
    · rw [visitPage, visit_of_rowOk hr.2]
      have ha := h.resolve_left (not_not_intro hr.1)
      exact ih (.inr fun hb => ha (follows_cons.mpr ⟨hr.2, hb⟩))
    · have hn : (visit hash options p row).1.violations ≠ [] := by
        rw [hf]
        exact fun hi => hr ((append_eq_nil_iff.mp hi).imp_right (not_imp_not.mp hs))
      rw [visitPage_cons]
      split
      · exact hn
      · exact ih (.inl hn)

theorem visitPage_lastSeq (hash : TextHash) (options : AuditChainVerifierOptions) (p : Progress)
    (hl : rows.getLast? = some last) :
    options.maxViolations ≤ (visitPage hash options rows p).violations.length ∨
      (visitPage hash options rows p).lastSeq = last.seq := by
  induction rows generalizing p with
  | nil => cases hl
  | cons row rows ih =>
    obtain ⟨found, -, -, hs, hg⟩ := visit_found hash options p row
    rw [visitPage_cons]
    split
    · next he => exact .inl (hs he)
    · next ha =>
      cases rows with
      | nil =>
        obtain rfl : row = last := by simpa using hl
        exact .inr (hg (Bool.eq_false_of_not_eq_true ha))
      | cons => exact ih _ (by simpa using hl)

end

variable {hash : TextHash} {options : AuditChainVerifierOptions} {table : List AuditChainRow}

def rowsAfter (table : List AuditChainRow) (seq : Nat) : List AuditChainRow :=
  table.filter fun row => seq < row.seq

variable {a b fuel : Nat} {row last : AuditChainRow} {p : Progress} {page rest : List AuditChainRow}

theorem rowsAfter_rowsAfter (h : a ≤ b) : rowsAfter (rowsAfter table a) b = rowsAfter table b := by
  rw [rowsAfter, rowsAfter, rowsAfter, filter_filter]
  refine filter_congr fun row _ => ?_
  by_cases hr : b < row.seq
  · have : a < row.seq := by omega
    simp [hr, this]
  · simp [hr]

theorem rowsAfter_lt (h : row ∈ rowsAfter table a) :
    (rowsAfter table row.seq).length < (rowsAfter table a).length := by
  have hlt : a < row.seq := by simpa using (mem_filter.mp h).2
  rw [← rowsAfter_rowsAfter (Nat.le_of_lt hlt)]
  exact length_filter_lt_length_iff_exists.mpr ⟨row, h, by simp⟩

theorem mem_fetchBatch (h : row ∈ fetchBatch options table a) : row ∈ rowsAfter table a :=
  (mem_insertionSort _).mp (mem_of_mem_take h)

theorem fetchBatch_of_sorted (hs : table.Pairwise fun a b => a.seq < b.seq) (a : Nat) :
    fetchBatch options table a = (rowsAfter table a).take options.batchSize := by
  have hr : (rowsAfter table a).Pairwise fun a b => a.seq ≤ b.seq :=
    (hs.filter _).imp fun h => Nat.le_of_lt h
  rw [fetchBatch, ← rowsAfter, hr.insertionSort_eq]

theorem visitTable_total (hf : 1 ≤ fuel) (hr : options.maxViolations ≤ p.violations.length ∨
      (rowsAfter table p.lastSeq).length + 1 ≤ fuel) :
    ∃ q, visitTable hash options table fuel p = some q := by
  induction fuel generalizing p with
  | zero => omega
  | succ fuel ih =>
    rw [visitTable]
    split
    · rename_i ha
      simp only
      split
      · exact ⟨p, rfl⟩
      · rename_i hp
        split
        · exact ⟨_, rfl⟩
        · obtain ⟨last, hl⟩ : ∃ last, (fetchBatch options table p.lastSeq).getLast? = some last :=
            Option.isSome_iff_exists.mp (by simpa using fun h => hp (by rw [h]; rfl))
          have hm := mem_fetchBatch (mem_of_getLast? hl)
          have hle := rowsAfter_lt hm
          have he : (rowsAfter table p.lastSeq).length ≤ fuel := by omega
          apply ih (by omega)
          rcases visitPage_lastSeq hash options p hl with hs | hb
          · exact .inl hs
          · exact .inr (by rw [hb]; omega)
    · exact ⟨p, rfl⟩

theorem visitTable_keeps {q : Progress} (h : p.violations ≠ [])
    (hv : visitTable hash options table fuel p = some q) : q.violations ≠ [] := by
  induction fuel generalizing p with
  | zero => cases hv
  | succ fuel ih =>
    rw [visitTable] at hv
    split at hv
    · simp only at hv
      split at hv
      · cases hv
        exact h
      · split at hv
        · cases hv
          exact visitPage_found (.inl h)
        · exact ih (visitPage_found (.inl h)) hv
    · cases hv
      exact h

theorem rowsAfter_append (hs : table.Pairwise fun a b => a.seq < b.seq)
    (hd : rowsAfter table a = page ++ rest) (hl : page.getLast? = some last) :
    rowsAfter table last.seq = rest := by
  obtain ⟨front, rfl⟩ := getLast?_eq_some_iff.mp hl
  have ho : (front ++ [last] ++ rest).Pairwise fun a b => a.seq < b.seq := hd ▸ hs.filter _
  have ha : a < last.seq := by
    have hm : last ∈ rowsAfter table a := by simp [hd]
    simpa using (mem_filter.mp hm).2
  obtain ⟨hf, -, hc⟩ := pairwise_append.mp ho
  obtain ⟨-, -, hb⟩ := pairwise_append.mp hf
  rw [← rowsAfter_rowsAfter (Nat.le_of_lt ha), hd, rowsAfter, filter_append,
    filter_eq_nil_iff.mpr, nil_append, filter_eq_self.mpr]
  · intro r hr
    simpa using hc last (by simp) r hr
  · intro r hr
    rcases mem_append.mp hr with hr | hr
    · have := hb r hr last (by simp)
      simp only [decide_eq_true_eq]
      omega
    · obtain rfl := mem_singleton.mp hr
      simp

theorem rest_of_short_page (hp : (page ++ rest).take b = page) (hs : page.length < b) :
    rest = [] := by
  have hl := congrArg length hp
  rw [length_take, length_append] at hl
  exact length_eq_zero_iff.mp (by omega)

theorem visitTable_of_not_follows (hl : page.getLast? = some last)
    (ha : rowsAfter table last.seq = rest) (hu : rest.length + 1 ≤ fuel)
    (hb : ¬Follows (RowOk hash) nextBefore p.before page) :
    ∃ q, (if page.length < options.batchSize then some (visitPage hash options page p)
        else visitTable hash options table fuel (visitPage hash options page p)) = some q ∧
      q.violations ≠ [] := by
  have hf : (visitPage hash options page p).violations ≠ [] := visitPage_found (.inr hb)
  split
  · exact ⟨_, rfl, hf⟩
  · obtain ⟨q, hv⟩ : ∃ q, visitTable hash options table fuel
        (visitPage hash options page p) = some q := by
      apply visitTable_total (by omega)
      rcases visitPage_lastSeq hash options p hl with hs | he
      · exact .inl hs
      · exact .inr (by rw [he, ha]; exact hu)
    exact ⟨q, hv, visitTable_keeps hf hv⟩

theorem visitTable_spec (hb : 1 ≤ options.batchSize) (hm : 1 ≤ options.maxViolations)
    (hd : table.Pairwise fun a b => a.seq < b.seq) (fuel : Nat) (p : Progress)
    (rows : List AuditChainRow) (hc : p.violations = [])
    (hr : rowsAfter table p.lastSeq = rows) (hu : rows.length + 2 ≤ fuel) :
    ∃ q, visitTable hash options table fuel p = some q ∧
      (q.violations = [] ↔ Follows (RowOk hash) nextBefore p.before rows) ∧
      (q.violations = [] → q.rowsChecked = p.rowsChecked + rows.length) := by
  induction fuel generalizing p rows with
  | zero => omega
  | succ fuel ih =>
    have hg : p.violations.length < options.maxViolations := by
      rw [hc]
      exact hm
    rw [visitTable, if_pos hg]
    simp only [fetchBatch_of_sorted hd, hr]
    obtain ⟨page, rest, hp, rfl⟩ : ∃ page rest, rows.take options.batchSize = page ∧
        rows = page ++ rest := ⟨_, _, rfl, (take_append_drop ..).symm⟩
    have hle : (page ++ rest).length = page.length + rest.length := length_append
    rw [hp]
    by_cases he : page.length = 0
    · have hn := rest_of_short_page hp (by omega)
      obtain rfl := length_eq_zero_iff.mp he
      rw [if_pos he, hn]
      exact ⟨p, rfl, by simp [hc, Follows], by simp⟩
    · obtain ⟨last, hl⟩ : ∃ last, page.getLast? = some last :=
        Option.isSome_iff_exists.mp (by simpa using fun h => he (by rw [h]; rfl))
      have ha := rowsAfter_append hd hr hl
      rw [if_neg he]
      by_cases hf : Follows (RowOk hash) nextBefore p.before page
      · rw [visitPage_of_follows hf, follows_append]
        by_cases hs : page.length < options.batchSize
        · obtain rfl := rest_of_short_page hp hs
          rw [if_pos hs]
          refine ⟨_, rfl, ?_, ?_⟩
          · simp [passAll_violations, hc, hf, Follows]
          · simp [passAll_rowsChecked]
        · rw [if_neg hs]
          obtain ⟨q, hv, hi, hj⟩ := ih (p.passAll page) rest
            (by rw [passAll_violations, hc]) (by rw [passAll_lastSeq p hl, ha])
            (by omega)
          refine ⟨q, hv, ?_, ?_⟩
          · rw [hi, passAll_before]
            exact (and_iff_right hf).symm
          · intro hn
            rw [hj hn, passAll_rowsChecked]
            omega
      · obtain ⟨q, hv, hk⟩ := visitTable_of_not_follows hl ha
          (by omega : rest.length + 1 ≤ fuel) hf
        refine ⟨q, hv, ?_, fun h => absurd h hk⟩
        exact ⟨fun h => absurd h hk, fun h => absurd (follows_append.mp h).1 hf⟩

/-- `verify` returns, accepts exactly the tables all of whose rows pass in turn, and has then
checked every row. -/
theorem verify_spec (hash : TextHash) (hb : 1 ≤ options.batchSize)
    (hm : 1 ≤ options.maxViolations) (hs : table.Pairwise fun a b => a.seq < b.seq)
    (he : ∀ row ∈ table, 1 ≤ row.seq) :
    ∃ result, verify hash options table = some result ∧
      (result.valid = true ↔ Follows (RowOk hash) nextBefore (none, none) table) ∧
      (result.valid = true → result.rowsChecked = table.length) := by
  have ha : rowsAfter table Progress.start.lastSeq = table :=
    filter_eq_self.mpr fun row hr => decide_eq_true (he row hr)
  obtain ⟨q, hv, hd, hc⟩ := visitTable_spec hb hm hs (table.length + 2)
    .start table rfl ha (Nat.le_refl _)
  have hi : q.result.valid = true ↔ q.violations = [] := by simp [Progress.result]
  refine ⟨q.result, by rw [verify, hv]; rfl, hi.trans hd, fun h => ?_⟩
  have hf : q.rowsChecked = 0 + table.length := hc (hi.mp h)
  rw [Progress.result, hf, Nat.zero_add]

end Credence.Audit
