import Credence.Audit.Chain
import Credence.Audit.Statements
import Credence.ProofKit.Runs

/-! Statements of `append` and `appendBatch` at the same time. A statement reads the table as of
its start; `append` holds the advisory lock to its end. -/

namespace Credence.Audit.Postgres

open Crypto ProofKit List Option

structure Running where
  statement : Statement
  snapshot : List AuditLogRow
  drawn : List Nat

structure World where
  table : List AuditLogRow
  nextSeq : Nat
  lockHolder : Option Nat
  running : Nat → Option Running

namespace World

def start : World := ⟨[], 1, none, fun _ => none⟩

def finish (w : World) (session : Nat) : World := { w with
    lockHolder := if w.lockHolder = some session then none else w.lockHolder
    running := Function.update w.running session none }

end World

inductive Action where
  | start (session : Nat) (statement : Statement)
  | lock (session : Nat)
  | nextval (session : Nat)
  | commit (session : Nat)
  | abort (session : Nat)

section

variable (hash : TextHash) (server : Server)

def World.step : Action → World → Option World
  | .start session statement, w =>
    if statement.sendable = true ∧ (w.running session).isNone = true then
      some { w with
        running := Function.update w.running session (some ⟨statement, w.table, []⟩) }
    else none
  | .lock session, w =>
    (w.running session).bind fun current =>
      if current.statement.takesLock = true ∧ w.lockHolder = none then
        some { w with lockHolder := some session }
      else none
  | .nextval session, w =>
    (w.running session).bind fun current =>
      if current.drawn.length < current.statement.items.length then
        some { w with
          nextSeq := w.nextSeq + 1
          running := Function.update w.running session
            (some { current with drawn := current.drawn ++ [w.nextSeq] }) }
      else none
  | .commit session, w =>
    (w.running session).bind fun current =>
      if current.drawn.length = current.statement.items.length ∧
          (current.statement.takesLock = true → w.lockHolder = some session) then
        some (World.finish
          { w with
            table := w.table ++ current.statement.rows hash server current.snapshot current.drawn }
          session)
      else none
  | .abort session, w => (w.running session).map fun _ => w.finish session

end

def bySeq (rows : List AuditLogRow) : List AuditLogRow :=
  rows.insertionSort fun a b => a.seq ≤ b.seq

/-- The rows, in order, are one chain: each points to the one before, and only the first to none. -/
structure OneChain (rows : List AuditLogRow) : Prop where
  linked : rows.IsChain fun before row => row.prevHash = before.rowHash
  first : ∀ row, rows.head? = some row → row.prevHash = none
  later : ∀ row ∈ rows.tail, row.prevHash ≠ none

def PointsTo (tip : Option String) (row : AuditLogRow) : Prop := row.prevHash = tip

def hashOf (_ : Option String) (row : AuditLogRow) : Option String := row.rowHash

section

variable {rows : List AuditLogRow}

theorem carry_hashOf (rows : List AuditLogRow) :
    carry hashOf none rows = rows.getLast?.bind AuditLogRow.rowHash := by
  induction rows using reverseRecOn with
  | nil => rfl
  | append_singleton rows row ih => simp [carry_snoc, hashOf]

theorem argmax_of_sorted (h : rows.Pairwise fun a b => a.seq < b.seq) :
    rows.argmax AuditLogRow.seq = rows.getLast? := by
  induction rows using reverseRecOn with
  | nil => rfl
  | append_singleton rows row ih =>
    obtain ⟨hr, -, hl⟩ := pairwise_append.mp h
    rw [argmax_concat, ih hr, getLast?_append]
    cases hn : rows.getLast? with
    | none => rfl
    | some newest =>
      have hLt := hl newest (mem_of_getLast? hn) row (by simp)
      simp [hLt]

theorem newestHash_of_sorted (h : rows.Pairwise fun a b => a.seq < b.seq) :
    newestHash rows = carry hashOf none rows := by
  rw [newestHash, argmax_of_sorted h, carry_hashOf]

theorem isChain_of_follows {tip : Option String} (h : Follows PointsTo hashOf tip rows) :
    rows.IsChain fun before row => row.prevHash = before.rowHash := by
  induction rows generalizing tip with
  | nil => exact .nil
  | cons row rows ih =>
    have hr := (follows_cons.mp h).2
    cases rows with
    | nil => exact .singleton _
    | cons => exact .cons_cons (follows_cons.mp hr).1 (ih hr)

theorem prevHash_ne_none_of_follows {tip : Option String} (h : Follows PointsTo hashOf tip rows)
    (ht : tip ≠ none) (hh : ∀ row ∈ rows, row.rowHash ≠ none) :
    ∀ row ∈ rows, row.prevHash ≠ none := by
  induction rows generalizing tip with
  | nil => simp
  | cons row rows ih =>
    obtain ⟨hr, ha⟩ := follows_cons.mp h
    obtain ⟨hb, he⟩ := forall_mem_cons.mp hh
    refine forall_mem_cons.mpr ⟨?_, ih ha hb he⟩
    rw [hr]
    exact ht

theorem oneChain_of_follows (h : Follows PointsTo hashOf none rows)
    (hh : ∀ row ∈ rows, row.rowHash ≠ none) : OneChain rows := by
  refine ⟨isChain_of_follows h, ?_, ?_⟩
  · intro row hr
    obtain ⟨rest, rfl⟩ := head?_eq_some_iff.mp hr
    exact (follows_cons.mp h).1
  · cases rows with
    | nil => simp
    | cons =>
      obtain ⟨ha, he⟩ := forall_mem_cons.mp hh
      exact prevHash_ne_none_of_follows (follows_cons.mp h).2 ha he

end

section

variable {hash : TextHash} {server : Server} {snapshot : List AuditLogRow} {drawn : List Nat}

theorem follows_batchRows (now : Now) {prevHash : Option String} (hp : prevHash ≠ none)
    (parts : List (Nat × String × AuditLogInput)) :
    Follows PointsTo hashOf prevHash (batchRows hash server now prevHash parts) := by
  induction parts generalizing prevHash with
  | nil => trivial
  | cons part parts ih =>
    obtain ⟨tip, rfl⟩ := ne_none_iff_exists'.mp hp
    exact ⟨rfl, ih (some_ne_none _)⟩

theorem follows_rows {statement : Statement} (h : drawn.length = statement.items.length)
    (hb : statement.takesLock = false → newestHash snapshot ≠ none) :
    Follows PointsTo hashOf (newestHash snapshot)
      (statement.rows hash server snapshot drawn) := by
  cases statement with
  | append =>
    obtain ⟨seq, rfl⟩ := length_eq_one_iff.mp h
    exact ⟨rfl, trivial⟩
  | appendBatch now => exact follows_batchRows now (hb rfl) _

end

/-- A statement commits while the table is still as it was when the statement started, and a batch
does not write the first row. -/
def commitsFresh : Action → World → Prop
  | .commit session, w =>
    (w.running session).all (fun current =>
      current.snapshot.length == w.table.length &&
        (current.statement.takesLock || !w.table.isEmpty)) = true
  | _, _ => True

instance : ∀ a w, Decidable (commitsFresh a w)
  | .commit _, _ => inferInstanceAs (Decidable (_ = true))
  | .start .., _ | .lock _, _ | .nextval _, _ | .abort _, _ => isTrue trivial

/-- The snapshot is a first part of the table, and the numbers drawn are above it. -/
structure Running.Ok (w : World) (current : Running) : Prop where
  snapshot : current.snapshot <+: w.table
  increasing : current.drawn.Pairwise (· < ·)
  above : ∀ seq ∈ current.drawn, ∀ row ∈ current.snapshot, row.seq < seq
  below : ∀ seq ∈ current.drawn, seq < w.nextSeq

/-- The table is one chain in the order of the numbers. -/
structure World.Ok (w : World) : Prop where
  links : Follows PointsTo hashOf none w.table
  hashes : ∀ row ∈ w.table, row.rowHash ≠ none
  sorted : w.table.Pairwise fun a b => a.seq < b.seq
  below : ∀ row ∈ w.table, row.seq < w.nextSeq
  running : ∀ session current, w.running session = some current → current.Ok w

section

variable {hash : TextHash} {server : Server} {w w' : World} {current : Running}

theorem Running.Ok.mono (h : current.Ok w) (ht : w.table <+: w'.table)
    (he : w.nextSeq ≤ w'.nextSeq) : current.Ok w' :=
  ⟨h.snapshot.trans ht, h.increasing, h.above, fun seq hs => (h.below seq hs).trans_le he⟩

theorem Running.Ok.draw (hc : current.Ok w) (h : w.Ok) (ht : w'.table = w.table)
    (hs : w'.nextSeq = w.nextSeq + 1) :
    Running.Ok w' { current with drawn := current.drawn ++ [w.nextSeq] } := by
  refine ⟨ht ▸ hc.snapshot, ?_, ?_, ?_⟩
  · refine pairwise_append.mpr ⟨hc.increasing, pairwise_singleton _ _, ?_⟩
    intro seq hd next hn
    obtain rfl := mem_singleton.mp hn
    exact hc.below seq hd
  · refine forall_mem_append.mpr ⟨hc.above, ?_⟩
    intro seq hd row hr
    obtain rfl := mem_singleton.mp hd
    exact h.below row (hc.snapshot.subset hr)
  · rw [hs]
    refine forall_mem_append.mpr ⟨?_, by simp⟩
    intro seq hd
    exact Nat.lt_succ_of_lt (hc.below seq hd)

theorem World.Ok.update (h : w.Ok) {session : Nat} {next : Option Running}
    (ht : w.table = w'.table) (hs : w.nextSeq ≤ w'.nextSeq)
    (hr : w'.running = Function.update w.running session next)
    (hn : ∀ current, next = some current → current.Ok w') : w'.Ok := by
  refine ⟨ht ▸ h.links, ht ▸ h.hashes, ht ▸ h.sorted, ?_, ?_⟩
  · rw [← ht]
    exact fun row ha => (h.below row ha).trans_le hs
  · intro other current hc
    rw [hr] at hc
    by_cases ho : other = session
    · rw [ho, Function.update_self] at hc
      exact hn current hc
    · rw [Function.update_of_ne ho] at hc
      exact (h.running other current hc).mono (ht ▸ prefix_rfl) hs

theorem World.Ok.insert (h : w.Ok) (hc : current.Ok w)
    (hd : current.drawn.length = current.statement.items.length)
    (hf : current.snapshot.length = w.table.length)
    (hb : current.statement.takesLock = false → w.table ≠ []) :
    World.Ok { w with
      table := w.table ++ current.statement.rows hash server current.snapshot current.drawn } := by
  have hs : current.snapshot = w.table := hc.snapshot.eq_of_length hf
  have he := rows_seq hash server current.snapshot hd
  have hm : ∀ row ∈ current.statement.rows hash server current.snapshot current.drawn,
      row.seq ∈ current.drawn := by
    intro row hr
    rw [← he]
    exact mem_map_of_mem hr
  refine ⟨?_, ?_, ?_, ?_, ?_⟩
  · refine follows_append.mpr ⟨h.links, ?_⟩
    rw [← newestHash_of_sorted h.sorted, ← hs]
    refine follows_rows hd fun hn => ?_
    rw [hs, newestHash_of_sorted h.sorted, carry_hashOf, getLast?_eq_some_getLast (hb hn)]
    exact h.hashes _ (getLast_mem _)
  · exact forall_mem_append.mpr
      ⟨h.hashes, forall_rows (fun _ _ _ _ _ => some_ne_none _) _⟩
  · refine pairwise_append.mpr ⟨h.sorted, ?_, ?_⟩
    · rw [← pairwise_map (f := AuditLogRow.seq), he]
      exact hc.increasing
    · intro old ho row hr
      exact hc.above row.seq (hm row hr) old (hs ▸ ho)
  · refine forall_mem_append.mpr ⟨h.below, fun row hr => ?_⟩
    exact hc.below row.seq (hm row hr)
  · intro session other ht
    exact (h.running session other ht).mono (prefix_append _ _) (Nat.le_refl _)

theorem World.Ok.finish (h : w.Ok) (session : Nat) : (w.finish session).Ok :=
  h.update rfl (Nat.le_refl _) rfl (by simp)

theorem World.Ok.step {a : Action} (h : w.Ok) (hf : commitsFresh a w)
    (hs : World.step hash server a w = some w') : w'.Ok := by
  cases a with simp only [World.step, bind_eq_some_iff, map_eq_some_iff,
    ite_none_right_eq_some, Option.some.injEq] at hs
  | start =>
    obtain ⟨-, rfl⟩ := hs
    refine h.update rfl (Nat.le_refl _) rfl ?_
    rintro current ⟨⟩
    exact ⟨prefix_rfl, .nil, by simp, by simp⟩
  | lock session =>
    obtain ⟨current, -, -, rfl⟩ := hs
    exact ⟨h.links, h.hashes, h.sorted, h.below, fun session current hc =>
      (h.running session current hc).mono prefix_rfl (Nat.le_refl _)⟩
  | nextval session =>
    obtain ⟨current, hc, -, rfl⟩ := hs
    have ho := h.running session current hc
    refine h.update rfl (Nat.le_succ _) rfl ?_
    rintro next ⟨⟩
    exact ho.draw h rfl rfl
  | commit session =>
    obtain ⟨current, hc, ⟨hd, -⟩, rfl⟩ := hs
    simp only [commitsFresh, hc, all_some, Bool.and_eq_true, beq_iff_eq,
      Bool.or_eq_true, Bool.not_eq_true', isEmpty_eq_false_iff] at hf
    refine (h.insert (h.running session current hc) hd hf.1 ?_).finish session
    intro hn
    exact hf.2.resolve_left (by simp [hn])
  | abort session =>
    obtain ⟨current, -, rfl⟩ := hs
    exact h.finish session

theorem ok_start : World.start.Ok :=
  ⟨trivial, by simp [World.start], .nil, by simp [World.start], by simp [World.start]⟩

/-- In every run whose commits are fresh, the table ordered by number is one chain. -/
theorem table_is_one_chain (hash : TextHash) (server : Server) {actions : List Action}
    (hFresh : Along (World.step hash server) commitsFresh actions .start)
    (hRun : run (World.step hash server) actions .start = some w) : OneChain (bySeq w.table) := by
  have ho : w.Ok := run_invariant World.Ok (fun _ _ _ h hFresh hs => h.step hFresh hs)
    ok_start hFresh hRun
  have ha : bySeq w.table = w.table := (ho.sorted.imp Nat.le_of_lt).insertionSort_eq
  rw [ha]
  exact oneChain_of_follows ho.links ho.hashes

end

def spacedActions : List Action :=
  [.start 1 (.append newYear "a" (roleChange none)), .lock 1, .nextval 1, .commit 1,
    .start 2 (.appendBatch newYear [("b", roleChange none), ("c", roleChange none)]), .nextval 2,
    .start 3 (.append newYear "d" (roleChange none)), .nextval 3, .lock 3, .nextval 2, .abort 3,
    .commit 2]

theorem table_is_one_chain_spaced :
    ∃ w, run (World.step sha256Hash plainServer) spacedActions .start = some w ∧
      OneChain (bySeq w.table) := by
  have hf : Along (World.step sha256Hash plainServer) commitsFresh spacedActions .start := by
    decide
  have hr : run (World.step sha256Hash plainServer) spacedActions .start = some _ := rfl
  exact ⟨_, hr, table_is_one_chain sha256Hash plainServer hf hr⟩

/-- Two appends start on the empty table; the second waits for the lock and then still reads no
row. -/
theorem appends_fork : (run (World.step sha256Hash plainServer)
      [.start 1 (.append newYear "a" (roleChange none)),
        .start 2 (.append newYear "b" (roleChange none)), .lock 1, .nextval 1, .commit 1, .lock 2,
        .nextval 2, .commit 2] .start).map
      (fun w => (bySeq w.table).map fun row => (row.seq, row.prevHash)) =
        some [(1, none), (2, none)] := by
  decide +kernel

end Credence.Audit.Postgres
