import Credence.ProofKit.Runs

/-! Code that talks to the database in one transaction. A statement that fails aborts it, and the
`COMMIT` of an aborted transaction rolls back without an error. The first statement takes the lock
of the one row that all of them are about. -/

namespace Credence.Pg

open ProofKit

inductive Command (S : Type) where
  | begin
  | query (statement : S)
  | commit
  | rollback

def Command.isQuery {S : Type} : Command S → Bool
  | query _ => true
  | _ => false

/-- The answer to a command is a reply, or `none` when it throws. -/
inductive Program (S R α : Type) where
  | done (result : α)
  | send (command : Command S) (next : Option R → Program S R α)

def Program.attempt {S R α : Type} (command : Command S) (handler : Program S R α)
    (next : R → Program S R α) : Program S R α :=
  .send command fun answer => answer.elim handler next

/-- What the transaction has made of the data so far. -/
structure Transaction (σ : Type) where
  working : σ
  aborted : Bool

/-- A command whose answer is lost has taken effect, but throws. -/
inductive Outcome where
  | succeeds
  | fails
  | lost
  deriving DecidableEq

variable {S R α σ : Type} [Inhabited R] (exec : S → σ → Option (σ × R))

/-- The committed data, the transaction and the answer after a command. `exec` refuses a statement
with `none`. -/
def respond : Command S → Outcome → σ → Option (Transaction σ) →
    σ × Option (Transaction σ) × Option R
  | .begin, outcome, db, tx => (db, tx, if outcome = .succeeds then some default else none)
  | .query statement, outcome, db, tx =>
    let current := tx.getD ⟨db, false⟩
    if current.aborted then (db, some current, none)
    else
      match if outcome = .succeeds then exec statement current.working else none with
      | some (working, reply) => (db, some ⟨working, false⟩, some reply)
      | none => (db, some ⟨current.working, true⟩, none)
  | .commit, outcome, db, tx =>
    let committed := match tx with
      | some ⟨working, false⟩ => working
      | _ => db
    match outcome with
    | .succeeds => (committed, none, some default)
    | .lost => (committed, none, none)
    | .fails => (db, none, none)
  | .rollback, outcome, db, _ => (db, none, if outcome = .succeeds then some default else none)

theorem respond_query_committed (statement : S) (outcome : Outcome) (db : σ)
    (tx : Option (Transaction σ)) : (respond exec (.query statement) outcome db tx).1 = db := by
  rw [respond]
  split
  · rfl
  · split <;> rfl

/-- The committed data and the result when no other client comes between. -/
def Program.run : List Outcome → Program S R α → σ → Option (Transaction σ) → Option (σ × α)
  | [], .done result, db, _ => some (db, result)
  | outcome :: outcomes, .send command next, db, tx =>
    let (db, tx, answer) := respond exec command outcome db tx
    (next answer).run outcomes db tx
  | _, _, _, _ => none

variable {command : Command S} {db after : σ} {tx : Option (Transaction σ)}
  {handler : Program S R α} {next : R → Program S R α} {outcomes : List Outcome} {result : α}
  {outcome : Outcome}

section

variable {exec : S → σ → Option (σ × R)}
  (hh : ∀ outcomes db tx, handler.run exec outcomes db tx ≠ some (after, result))
include hh

end

structure Client (S R α σ : Type) where
  program : Program S R α
  transaction : Option (Transaction σ)

structure Server (S R α σ : Type) where
  committed : σ
  clients : List (Client S R α σ)

variable {exec}

def Server.connect (program : Program S R α) (server : Server S R α σ) : Server S R α σ :=
  { server with clients := server.clients ++ [⟨program, none⟩] }

def Server.locked (server : Server S R α σ) (index : Nat) : Bool :=
  server.clients.zipIdx.any fun (client, i) => i ≠ index && client.transaction.isSome

/-- The client's next command, with the given outcome; a statement waits for the lock. -/
def Server.answer (exec : S → σ → Option (σ × R)) (index : Nat) (outcome : Outcome)
    (server : Server S R α σ) : Option (Server S R α σ) :=
  match server.clients[index]? with
  | some ⟨.send command next, tx⟩ =>
    if command.isQuery && server.locked index then none
    else
      let (committed, tx, answer) := respond exec command outcome server.committed tx
      some ⟨committed, server.clients.set index ⟨next answer, tx⟩⟩
  | _ => none

/-- The client's next command is the first statement of its transaction. -/
def Server.takesLock (server : Server S R α σ) (index : Nat) : Bool :=
  match server.clients[index]? with
  | some ⟨.send command _, none⟩ => command.isQuery
  | _ => false

/-- Whatever the outcomes, the program commits only data with `Inv`, if its transaction starts from
data with `Inv` and `Ok`. -/
def Program.Keeps (exec : S → σ → Option (σ × R)) (Inv Ok : σ → Prop) :
    Program S R α → Option (Transaction σ) → Prop
  | .done _, _ => True
  | .send command next, tx => ∀ outcome db, Inv db → (command.isQuery = true → tx = none → Ok db) →
        Inv (respond exec command outcome db tx).1 ∧
          (next (respond exec command outcome db tx).2.2).Keeps exec Inv Ok
            (respond exec command outcome db tx).2.1

namespace Program.Keeps

variable {Inv Ok : σ → Prop} {next : Option R → Program S R α} {tx : Option (Transaction σ)}

theorem begin (h : ∀ answer, (next answer).Keeps exec Inv Ok tx) :
    (Program.send .begin next).Keeps exec Inv Ok tx :=
  fun _ _ hi _ => ⟨hi, h _⟩

theorem rollback (h : ∀ answer, (next answer).Keeps exec Inv Ok none) :
    (Program.send .rollback next).Keeps exec Inv Ok tx :=
  fun _ _ hi _ => ⟨hi, h _⟩

variable {working : σ} {statement : S}

theorem commit {aborted : Bool} (hw : aborted = false → Inv working)
    (h : ∀ answer, (next answer).Keeps exec Inv Ok none) :
    (Program.send .commit next).Keeps exec Inv Ok (some ⟨working, aborted⟩) := by
  intro outcome db hi _
  cases aborted with
  | true => cases outcome <;> exact ⟨hi, h _⟩
  | false =>
    cases outcome with
    | succeeds => exact ⟨hw rfl, h _⟩
    | fails => exact ⟨hi, h _⟩
    | lost => exact ⟨hw rfl, h _⟩

theorem aborted (h : (next none).Keeps exec Inv Ok (some ⟨working, true⟩)) :
    (Program.send (.query statement) next).Keeps exec Inv Ok (some ⟨working, true⟩) :=
  fun _ _ hi _ => ⟨hi, h⟩

theorem respond_query {db : σ} (ht : tx.getD ⟨db, false⟩ = ⟨working, false⟩)
    (hf : (next none).Keeps exec Inv Ok (some ⟨working, true⟩))
    (hr : ∀ working' reply, exec statement working = some (working', reply) →
      (next (some reply)).Keeps exec Inv Ok (some ⟨working', false⟩)) :
    (next (respond exec (.query statement) outcome db tx).2.2).Keeps exec Inv Ok
      (respond exec (.query statement) outcome db tx).2.1 := by
  simp only [respond, ht]
  cases outcome with
  | succeeds =>
    cases he : exec statement working with
    | none => simpa using hf
    | some result => simpa using hr result.1 result.2 he
  | fails => simpa using hf
  | lost => simpa using hf

theorem query (hf : (next none).Keeps exec Inv Ok (some ⟨working, true⟩))
    (hr : ∀ working' reply, exec statement working = some (working', reply) →
      (next (some reply)).Keeps exec Inv Ok (some ⟨working', false⟩)) :
    (Program.send (.query statement) next).Keeps exec Inv Ok (some ⟨working, false⟩) := by
  intro outcome db hi _
  rw [respond_query_committed]
  exact ⟨hi, respond_query rfl hf hr⟩

theorem firstQuery (hf : ∀ db, Inv db → Ok db → (next none).Keeps exec Inv Ok (some ⟨db, true⟩))
    (hr : ∀ db, Inv db → Ok db → ∀ working reply, exec statement db = some (working, reply) →
      (next (some reply)).Keeps exec Inv Ok (some ⟨working, false⟩)) :
    (Program.send (.query statement) next).Keeps exec Inv Ok none := by
  intro outcome db hi ho
  rw [respond_query_committed]
  exact ⟨hi, respond_query rfl (hf db hi (ho rfl rfl)) (hr db hi (ho rfl rfl))⟩

end Program.Keeps

/-- The committed state is invariant, and so is what each client may commit. -/
structure Server.Kept (exec : S → σ → Option (σ × R)) (Inv Ok : σ → Prop)
    (server : Server S R α σ) : Prop where
  committed : Inv server.committed
  clients : ∀ client ∈ server.clients, client.program.Keeps exec Inv Ok client.transaction

namespace Server.Kept

variable {Inv Ok : σ → Prop} {server server' : Server S R α σ}

theorem connect (h : server.Kept exec Inv Ok) {program : Program S R α}
    (hp : program.Keeps exec Inv Ok none) : (server.connect program).Kept exec Inv Ok := by
  refine ⟨h.committed, fun client hm => ?_⟩
  rcases List.mem_append.mp hm with ho | hn
  · exact h.clients client ho
  · rw [List.mem_singleton.mp hn]
    exact hp

theorem answer (h : server.Kept exec Inv Ok) {index : Nat}
    (ho : server.takesLock index = true → Ok server.committed)
    (ha : server.answer exec index outcome = some server') : server'.Kept exec Inv Ok := by
  rw [Server.answer] at ha
  split at ha
  · next command next tx hc =>
    split at ha
    · cases ha
    · obtain rfl := Option.some.inj ha
      have hs := h.clients _ (List.mem_of_getElem? hc)
      have hf : command.isQuery = true → tx = none → Ok server.committed := by
        rintro hq rfl
        exact ho (by rw [Server.takesLock, hc]; exact hq)
      obtain ⟨hb, hn⟩ := hs outcome server.committed h.committed hf
      refine ⟨hb, fun client hm => ?_⟩
      rcases List.mem_or_eq_of_mem_set hm with hl | rfl
      · exact h.clients client hl
      · exact hn
  · cases ha

end Server.Kept

end Credence.Pg
