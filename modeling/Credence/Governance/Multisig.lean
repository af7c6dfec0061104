import Credence.Js.Map
import Credence.Js.Number
import Credence.ProofKit.Cells

/-! Multi-signature proposals. Each operation of `MultiSigCoordinationService` is a program that
reads and overwrites the stored proposal as a whole. -/

namespace Credence.Governance

open Js ProofKit

inductive MultisigStatus where
  | pending
  | approved
  | rejected
  | executed
  | cancelled
  | expired
  deriving DecidableEq

def MultisigStatus.text : MultisigStatus → String
  | pending => "pending"
  | approved => "approved"
  | rejected => "rejected"
  | executed => "executed"
  | cancelled => "cancelled"
  | expired => "expired"

/-- `requiredSignatures` is `none` where the storage has made a `null` of it, `payload` is the JSON
text, and `expiresAt` is `none` for an invalid date. -/
structure MultisigProposal where
  id : String
  signers : List String
  requiredSignatures : Option Number
  action : String
  payload : Option String
  signatures : List (String × String)
  slashingVotes : List String
  status : MultisigStatus
  createdAt : Int
  expiresAt : Option Int
  deriving DecidableEq

structure MultisigInput where
  signers : List String
  requiredSignatures : Number
  action : String
  payload : Option String
  ttlMs : Number

def reaches (size : Nat) : Option Number → Bool
  | none => true
  | some .nan => false
  | some (.infinity negative) => negative
  | some (.finite q) => q ≤ size

def isPast (now : Int) (expiresAt : Option Int) : Bool := expiresAt.any fun time => time < now

/-- `new Date(time)`: the time without its fraction, invalid beyond the range of dates. -/
def dateAt (time : ℚ) : Option Int :=
  if -8640000000000000 ≤ time ∧ time ≤ 8640000000000000 then
    some (if 0 ≤ time then time.floor else time.ceil)
  else none

def expiryOf (now : Int) : Number → Option Int
  | .finite ttlMs => dateAt (now + ttlMs)
  | _ => none

inductive StorageKind where
  | inMemory
  | redis

/-- What `JSON.parse` makes of a number that `JSON.stringify` has written. -/
def jsonNumber : Number → Option Number
  | .finite q => some (.finite q)
  | _ => none

/-- The stored form of a proposal: Redis writes dates with `toISOString`. -/
def serialize : StorageKind → MultisigProposal → Except String MultisigProposal
  | .inMemory, p => .ok p
  | .redis, p =>
    if p.expiresAt.isNone then .error "Invalid time value"
    else .ok { p with requiredSignatures := p.requiredSignatures.bind jsonNumber }

inductive Reply where
  | created (proposal : MultisigProposal)
  | found (proposal : Option MultisigProposal)
  | signed (proposal : MultisigProposal)
  | executed (payload : Option String)
  | void

abbrev Prog : Type := CellProg MultisigProposal Int (Except String Reply)

def Prog.throw (message : String) : Prog := .done (.error message)

def Prog.return (reply : Reply) : Prog := .done (.ok reply)

variable (kind : StorageKind)

def updateProposal (p : MultisigProposal) (next : Prog) : Prog :=
  match serialize kind p with
  | .error message => Prog.throw message
  | .ok stored => .put stored next

def getProposalOrThrow (id : String) (next : Int → MultisigProposal → Prog) : Prog :=
  .get fun found now =>
    match found with
    | none => Prog.throw s!"Proposal {id} not found"
    | some p => next now p

def checkExpiration (now : Int) (p : MultisigProposal) (next : MultisigProposal → Prog) : Prog :=
  if p.status = .pending ∧ isPast now p.expiresAt then
    updateProposal kind { p with status := .expired } (next { p with status := .expired })
  else next p

def getProposal : Prog :=
  .get fun found now =>
    match found with
    | none => Prog.return (.found none)
    | some p => checkExpiration kind now p fun p => Prog.return (.found (some p))

def sign (id signer signature : String) (p : MultisigProposal) : Except String MultisigProposal :=
  if p.status ≠ .pending then .error s!"Cannot sign proposal in status {p.status.text}"
  else if signer ∉ p.signers then .error s!"Signer {signer} is not authorized for proposal {id}"
  else if (Map.get signer p.signatures).isSome then
    .error s!"Signer {signer} has already signed proposal {id}"
  else
    let signatures := Map.set signer signature p.signatures
    let approved := reaches signatures.length p.requiredSignatures
    .ok { p with signatures, status := if approved then .approved else p.status }

theorem sign_ok {id signer signature : String} {p signed : MultisigProposal}
    (h : sign id signer signature p = .ok signed) :
    p.status = .pending ∧ signer ∈ p.signers ∧ Map.get signer p.signatures = none ∧
      signed = { p with
        signatures := Map.set signer signature p.signatures
        status := if reaches (Map.set signer signature p.signatures).length p.requiredSignatures
          then .approved else p.status } := by
  unfold sign at h
  split at h
  · cases h
  next hp =>
  split at h
  · cases h
  next hs =>
  split at h
  · cases h
  next hn =>
  cases h
  exact ⟨not_not.mp hp, not_not.mp hs, by simpa using hn, rfl⟩

def submitSignature (id signer signature : String) : Prog :=
  getProposalOrThrow id fun now p => checkExpiration kind now p fun p =>
    match sign id signer signature p with
    | .error message => Prog.throw message
    | .ok p => updateProposal kind p (Prog.return (.signed p))

def rejectProposal (id : String) : Prog :=
  getProposalOrThrow id fun _ p =>
    if p.status ≠ .pending ∧ p.status ≠ .approved then
      Prog.throw s!"Cannot reject proposal in status {p.status.text}"
    else updateProposal kind { p with status := .rejected } (Prog.return .void)

/-- `Math.ceil(signers.length / 2)`. -/
def slashingThreshold (p : MultisigProposal) : Nat := (p.signers.length + 1) / 2

def addSlashingVote (id voter : String) : Prog :=
  getProposalOrThrow id fun now p => checkExpiration kind now p fun p =>
    if voter ∈ p.slashingVotes then
      Prog.throw s!"Voter {voter} has already submitted a slashing vote"
    else
      let p := { p with slashingVotes := p.slashingVotes ++ [voter] }
      updateProposal kind p <|
        if slashingThreshold p ≤ p.slashingVotes.length then rejectProposal kind id
        else Prog.return .void

def executeProposal (id : String) : Prog :=
  getProposalOrThrow id fun _ p =>
    if p.status ≠ .approved then
      Prog.throw s!"Cannot execute proposal in status {p.status.text}"
    else
      let p := { p with status := .executed }
      updateProposal kind p (Prog.return (.executed p.payload))

inductive Operation where
  | getProposal
  | submitSignature (signer signature : String)
  | addSlashingVote (voter : String)
  | executeProposal
  | rejectProposal

def Operation.program (id : String) : Operation → Prog
  | getProposal => Governance.getProposal kind
  | submitSignature signer signature => Governance.submitSignature kind id signer signature
  | addSlashingVote voter => Governance.addSlashingVote kind id voter
  | executeProposal => Governance.executeProposal kind id
  | rejectProposal => Governance.rejectProposal kind id

/-- `createProposal` up to the save, with the id that `randomUUID` gives. -/
def newProposal (id : String) (now : Int) (input : MultisigInput) :
    Except String MultisigProposal :=
  if input.signers.length < 2 then .error "At least 2 signers are required"
  else if outOfRange input then
    .error "requiredSignatures must be between 1 and the number of signers"
  else
    .ok { id
          signers := input.signers
          requiredSignatures := some input.requiredSignatures
          action := input.action
          payload := input.payload
          signatures := []
          slashingVotes := []
          status := .pending
          createdAt := now
          expiresAt := expiryOf now input.ttlMs }
where
  outOfRange (input : MultisigInput) : Bool :=
    match input.requiredSignatures with
    | .nan => false
    | .infinity _ => true
    | .finite q => q < 1 ∨ input.signers.length < q

structure Entry where
  proposal : MultisigProposal
  deadline : Option Int

abbrev Storage : Type := List (String × Entry)

def ttlSeconds (now : Int) (p : MultisigProposal) : Int :=
  match p.expiresAt with
  | some time => (time - now) / 1000 + 86400
  | none => 0

/-- The time to live that an update gives; Redis only. -/
def updateDeadline (now : Int) (p : MultisigProposal) : StorageKind → Option Int
  | .inMemory => none
  | .redis => some (now + 1000 * if 0 < ttlSeconds now p then ttlSeconds now p else 3600)

def Storage.read (now : Int) (id : String) (storage : Storage) : Option MultisigProposal :=
  (Map.get id storage).bind fun entry =>
    if entry.deadline.all (now < ·) then some entry.proposal else none

def Storage.write (kind : StorageKind) (now : Int) (id : String) (stored : MultisigProposal)
    (storage : Storage) : Storage :=
  Map.set id ⟨stored, updateDeadline now stored kind⟩ storage

theorem lt_updateDeadline (now : Int) (p : MultisigProposal) {kind : StorageKind} {deadline : Int}
    (h : updateDeadline now p kind = some deadline) :
    now < deadline ∧ ∀ time, p.expiresAt = some time → time < deadline := by
  cases kind with
  | inMemory => cases h
  | redis =>
    cases h
    cases ht : p.expiresAt with
    | none =>
      simp only [ttlSeconds, ht]
      exact ⟨by omega, nofun⟩
    | some =>
      simp only [ttlSeconds, ht]
      refine ⟨by split <;> omega, fun other ho => ?_⟩
      cases ho
      split <;> omega

theorem updateDeadline_live (now : Int) (p : MultisigProposal) (kind : StorageKind) :
    (updateDeadline now p kind).all (now < ·) = true := by
  rw [Option.all_eq_true]
  intro deadline hd
  exact decide_eq_true (lt_updateDeadline now p hd).1

theorem read_write (kind : StorageKind) (now : Int) (id : String) (p : MultisigProposal)
    (storage : Storage) : Storage.read now id (Storage.write kind now id p storage) = some p := by
  simp [Storage.read, Storage.write, Map.get_set, updateDeadline_live]

def saveProposal (now : Int) (p : MultisigProposal) (storage : Storage) :
    StorageKind → Except String Storage
  | .inMemory => .ok (Map.set p.id ⟨p, none⟩ storage)
  | .redis =>
    match serialize .redis p with
    | .error message => .error message
    | .ok stored =>
      if max 0 (ttlSeconds now p) = 0 then .error "ERR invalid expire time in 'set' command"
      else .ok (Map.set p.id ⟨stored, some (now + 1000 * ttlSeconds now p)⟩ storage)

inductive Call where
  | createProposal (id : String) (input : MultisigInput)
  | operate (id : String) (operation : Operation)

def perform (kind : StorageKind) (now : Int) : Call → Storage → Storage × Except String Reply
  | .createProposal id input, storage =>
    match newProposal id now input with
    | .error message => (storage, .error message)
    | .ok p =>
      match saveProposal now p storage kind with
      | .error message => (storage, .error message)
      | .ok saved => (saved, .ok (.created p))
  | .operate id operation, storage =>
    (operation.program kind id).exec (Storage.read now id) (Storage.write kind now id) now storage

def storageAfter (kind : StorageKind) : List (Int × Call) → Storage → Storage
  | [], storage => storage
  | (now, call) :: calls, storage => storageAfter kind calls (perform kind now call storage).1

end Credence.Governance
