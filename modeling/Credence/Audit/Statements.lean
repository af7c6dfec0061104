import Credence.Audit.Postgres

/-! The two insert statements as data, and each call in terms of the statement it sends. -/

namespace Credence.Audit.Postgres

open Crypto List

inductive Statement where
  | append (now : Now) (id : String) (input : AuditLogInput)
  | appendBatch (now : Now) (items : List (String × AuditLogInput))

namespace Statement

def items : Statement → List (String × AuditLogInput)
  | append _ id input => [(id, input)]
  | appendBatch _ items => items

def takesLock : Statement → Bool
  | append .. => true
  | appendBatch .. => false

def sendable (statement : Statement) : Bool :=
  (statement.items.all fun item => item.2.tenantId ≠ "") &&
    (statement.takesLock || 2 ≤ statement.items.length)

def rows (hash : TextHash) (server : Server) (snapshot : List AuditLogRow) (drawn : List Nat) :
    Statement → List AuditLogRow
  | append now id input =>
    drawn.map fun seq => insertedRow hash server now (newestHash snapshot) seq id input
  | appendBatch now items => batchRows hash server now (newestHash snapshot) (drawn.zip items)

end Statement

section

variable {hash : TextHash} {server : Server} {snapshot : List AuditLogRow} {drawn : List Nat}
  {statement : Statement}

theorem forall_batchRows {P : AuditLogRow → Prop}
    (h : ∀ now prevHash seq id input, P (insertedRow hash server now prevHash seq id input))
    (now : Now) (prevHash : Option String) (parts : List (Nat × String × AuditLogInput)) :
    ∀ row ∈ batchRows hash server now prevHash parts, P row := by
  induction parts generalizing prevHash with
  | nil => simp [batchRows]
  | cons part parts ih =>
    rw [batchRows]
    exact forall_mem_cons.mpr ⟨h _ _ _ _ _, ih _⟩

theorem forall_rows {P : AuditLogRow → Prop}
    (h : ∀ now prevHash seq id input, P (insertedRow hash server now prevHash seq id input))
    (statement : Statement) : ∀ row ∈ statement.rows hash server snapshot drawn, P row := by
  cases statement with
  | append =>
    intro row hr
    obtain ⟨seq, -, rfl⟩ := mem_map.mp hr
    exact h _ _ _ _ _
  | appendBatch now => exact forall_batchRows h now _ _

theorem rows_seq (hash : TextHash) (server : Server) (snapshot : List AuditLogRow)
    (h : drawn.length = statement.items.length) :
    (statement.rows hash server snapshot drawn).map AuditLogRow.seq = drawn := by
  cases statement with
  | append =>
    rw [Statement.rows, map_map]
    exact map_id drawn
  | appendBatch =>
    rw [Statement.rows, batchRows_seq]
    exact map_fst_zip (Nat.le_of_eq h)

theorem rows_id (hash : TextHash) (server : Server) (snapshot : List AuditLogRow)
    (h : drawn.length = statement.items.length) :
    (statement.rows hash server snapshot drawn).map AuditLogRow.id =
      statement.items.map Prod.fst := by
  cases statement with
  | append =>
    obtain ⟨seq, rfl⟩ := length_eq_one_iff.mp h
    rfl
  | appendBatch =>
    rw [Statement.rows, batchRows_id]
    exact congrArg (map Prod.fst) (map_snd_zip (Nat.le_of_eq h.symm))

end

namespace Call

def run : Call → Execution
  | append run _ _ => run
  | appendBatch run _ => run

def sent : Call → Option Statement
  | append run id input => if input.tenantId = "" then none else some (.append run.now id input)
  | appendBatch _ [] => none
  | appendBatch run [(id, input)] =>
    if input.tenantId = "" then none else some (.append run.now id input)
  | appendBatch run items =>
    if items.any fun item => item.2.tenantId = "" then none else some (.appendBatch run.now items)

end Call

theorem Call.shapes {P : Call → Prop} (append : ∀ run id input, P (.append run id input))
    (empty : ∀ run, P (.appendBatch run []))
    (single : ∀ run id input, P (.appendBatch run [(id, input)]))
    (several : ∀ run first second items, P (.appendBatch run (first :: second :: items)))
    (call : Call) : P call := by
  cases call with
  | append run id input => exact append run id input
  | appendBatch run items =>
    cases items with
    | nil => exact empty run
    | cons first items =>
      cases items with
      | nil => exact single run first.1 first.2
      | cons second items => exact several run first second items

variable (hash : TextHash) (server : Server)

def Table.execute (t : Table) (run : Execution) (statement : Statement) : Table :=
  match run.fault with
  | some fault => t.skip fault
  | none =>
    let n := statement.items.length
    ⟨t.rows ++ statement.rows hash server t.rows (range' t.nextSeq n), t.nextSeq + n⟩

variable {hash server}

theorem appendBatch_single (t : Table) (run : Execution) (id : String) (input : AuditLogInput) :
    (t.appendBatch hash server run [(id, input)]).1 = (t.append hash server run id input).1 := by
  rw [Table.appendBatch]
  split
  · rename_i ha
    rw [ha]
  · rename_i ha
    rw [ha]

theorem append_eq_execute (t : Table) (run : Execution) (id : String) (input : AuditLogInput) :
    (t.append hash server run id input).1 =
      (((Call.append run id input).sent).map (t.execute hash server run)).getD t := by
  by_cases ht : input.tenantId = ""
  · rw [Table.append, if_pos ht, Call.sent, if_pos ht]
    rfl
  · rw [Table.append, if_neg ht, Call.sent, if_neg ht, Option.map_some,
      Option.getD_some, Table.execute]
    cases run.fault with
    | none => rfl
    | some => rfl

theorem after_eq_execute (t : Table) (call : Call) :
    t.after hash server call = (call.sent.map (t.execute hash server call.run)).getD t := by
  cases call using Call.shapes with
  | append run id input => exact append_eq_execute t run id input
  | empty => rfl
  | single run id input =>
    exact (appendBatch_single t run id input).trans (append_eq_execute t run id input)
  | several run =>
    rw [Table.after, Table.appendBatch, Call.sent]
    · split
      · rfl
      · simp only [Option.map_some, Option.getD_some, Call.run, Table.execute]
        cases run.fault with
        | none => rfl
        | some => rfl
    · simp
    · simp
    · simp
    · simp

end Credence.Audit.Postgres
