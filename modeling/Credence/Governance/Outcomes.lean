import Credence.Governance.Multisig

/-! What one call does: the stored proposal and the reply after each operation, and the storage. -/

namespace Credence.Governance

open Js ProofKit

def expire (now : Int) (p : MultisigProposal) : MultisigProposal :=
  if p.status = .pending ∧ isPast now p.expiresAt then { p with status := .expired } else p

def withVote (voter : String) (p : MultisigProposal) : MultisigProposal :=
  { p with slashingVotes := p.slashingVotes ++ [voter] }

def withSignature (signer signature : String) (p : MultisigProposal) : MultisigProposal := { p with
    signatures := Map.set signer signature p.signatures
    status := if reaches (Map.set signer signature p.signatures).length p.requiredSignatures
      then .approved else p.status }

/-- The stored proposal after an operation that has read `p`, and the reply. -/
inductive Outcome (now : Int) (p : MultisigProposal) :
    Operation → MultisigProposal → Except String Reply → Prop
  | kept (operation : Operation) (result : Except String Reply) :
    Outcome now p operation (expire now p) result
  | ignored (operation : Operation) (result : Except String Reply) :
    Outcome now p operation p result
  | signed {signer signature : String} (hPending : p.status = .pending)
    (hTime : isPast now p.expiresAt = false) (hSigner : signer ∈ p.signers)
    (hNone : Map.get signer p.signatures = none) :
    Outcome now p (.submitSignature signer signature) (withSignature signer signature p)
      (.ok (.signed (withSignature signer signature p)))
  | voted {voter : String} (result : Except String Reply) (hVoter : voter ∉ p.slashingVotes) :
    Outcome now p (.addSlashingVote voter) (withVote voter (expire now p)) result
  | slashed {voter : String} (hVoter : voter ∉ p.slashingVotes)
    (hThreshold : slashingThreshold p ≤ p.slashingVotes.length + 1) :
    Outcome now p (.addSlashingVote voter)
      { withVote voter (expire now p) with status := .rejected } (.ok .void)
  | executed (hApproved : p.status = .approved) :
    Outcome now p .executeProposal { p with status := .executed } (.ok (.executed p.payload))
  | rejected : Outcome now p .rejectProposal { p with status := .rejected } (.ok .void)

variable {kind : StorageKind} {id : String} {now : Int} {p : MultisigProposal}

/-- Redis has made its changes to the numbers and dates of the proposal. -/
def IsStored (kind : StorageKind) (p : MultisigProposal) : Prop :=
  kind = .redis →
    p.expiresAt.isNone = false ∧ p.requiredSignatures.bind jsonNumber = p.requiredSignatures

theorem IsStored.serialize (h : IsStored kind p) : serialize kind p = .ok p := by
  cases kind with
  | inMemory => rfl
  | redis =>
    obtain ⟨hd, hn⟩ := h rfl
    rw [Governance.serialize, hd, hn]
    rfl

theorem isStored_of_serialize {created : MultisigProposal}
    (h : Governance.serialize kind created = .ok p) : IsStored kind p := by
  rintro rfl
  simp only [Governance.serialize] at h
  split at h
  · cases h
  · next hd =>
    cases h
    refine ⟨eq_false_of_ne_true hd, ?_⟩
    cases created.requiredSignatures with
    | none => rfl
    | some number => cases number <;> rfl

theorem IsStored.expire (h : IsStored kind p) : IsStored kind (expire now p) := by
  unfold Governance.expire
  split
  · exact h
  · exact h

theorem IsStored.execCell_update (h : IsStored kind p) (next : Prog)
    (cell : Option MultisigProposal) :
    (updateProposal kind p next).execCell now cell = next.execCell now (some p) := by
  rw [updateProposal, h.serialize]
  rfl

theorem IsStored.execCell_checkExpiration (h : IsStored kind p) (next : MultisigProposal → Prog) :
    (checkExpiration kind now p next).execCell now (some p) =
      (next (Governance.expire now p)).execCell now (some (Governance.expire now p)) := by
  unfold checkExpiration Governance.expire
  split
  · have he : IsStored kind { p with status := .expired } := h
    exact he.execCell_update _ _
  · rfl

theorem expire_of_pending (h : (expire now p).status = .pending) :
    expire now p = p ∧ isPast now p.expiresAt = false := by
  unfold expire at h ⊢
  split at h
  · cases h
  · next hn =>
    rw [if_neg hn]
    refine ⟨rfl, ?_⟩
    cases hp : isPast now p.expiresAt with
    | false => rfl
    | true => exact absurd ⟨h, hp⟩ hn

@[simp] theorem expire_slashingVotes : (expire now p).slashingVotes = p.slashingVotes := by
  unfold expire
  split <;> rfl

@[simp] theorem expire_signers : (expire now p).signers = p.signers := by
  unfold expire
  split <;> rfl

def EndsIn (kind : StorageKind) (now : Int) (id : String) (p : MultisigProposal)
    (operation : Operation) : Prop :=
  ∃ p' result, (operation.program kind id).execCell now (some p) = (some p', result) ∧
    Outcome now p operation p' result ∧ IsStored kind p'

section

variable (h : IsStored kind p)
include h

theorem IsStored.getProposal : EndsIn kind now id p .getProposal :=
  ⟨Governance.expire now p, _, h.execCell_checkExpiration _, .kept _ _, h.expire⟩

theorem IsStored.submitSignature (signer signature : String) :
    EndsIn kind now id p (.submitSignature signer signature) := by
  cases hs : sign id signer signature (Governance.expire now p) with
  | error message =>
    refine ⟨Governance.expire now p, .error message, (h.execCell_checkExpiration _).trans ?_,
      .kept _ _, h.expire⟩
    simp only [hs]
    rfl
  | ok signed =>
    obtain ⟨hp, hi, hn, hg⟩ := sign_ok hs
    obtain ⟨ha, ht⟩ := expire_of_pending hp
    rw [ha] at hp hi hn hg
    have hb : IsStored kind (withSignature signer signature p) := h
    refine ⟨withSignature signer signature p, _, (h.execCell_checkExpiration _).trans ?_,
      .signed hp ht hi hn, hb⟩
    simp only [hs, hg]
    exact hb.execCell_update _ _

theorem IsStored.execCell_reject : (Governance.rejectProposal kind id).execCell now (some p) =
      if p.status ≠ .pending ∧ p.status ≠ .approved then
        (some p, .error s!"Cannot reject proposal in status {p.status.text}")
      else (some { p with status := .rejected }, .ok .void) := by
  have hr : IsStored kind { p with status := .rejected } := h
  have he : (Governance.rejectProposal kind id).execCell now (some p) =
      (if p.status ≠ .pending ∧ p.status ≠ .approved then
        Prog.throw s!"Cannot reject proposal in status {p.status.text}"
      else updateProposal kind { p with status := .rejected } (Prog.return .void)).execCell now
        (some p) := rfl
  rw [he]
  split
  · rfl
  · exact hr.execCell_update _ _

theorem IsStored.rejectProposal : EndsIn kind now id p .rejectProposal := by
  have he := @IsStored.execCell_reject kind id now p h
  split at he
  · exact ⟨p, _, he, .ignored _ _, h⟩
  · exact ⟨_, _, he, .rejected, h⟩

theorem IsStored.addSlashingVote (voter : String) :
    EndsIn kind now id p (.addSlashingVote voter) := by
  by_cases hv : voter ∈ p.slashingVotes
  · refine ⟨Governance.expire now p, .error s!"Voter {voter} has already submitted a slashing vote",
      (h.execCell_checkExpiration _).trans ?_, .kept _ _, h.expire⟩
    rw [if_pos (by simpa using hv)]
    rfl
  · have ha : IsStored kind (withVote voter (Governance.expire now p)) := h.expire
    have he : (Governance.addSlashingVote kind id voter).execCell now (some p) =
        (if slashingThreshold (withVote voter (Governance.expire now p)) ≤
            (withVote voter (Governance.expire now p)).slashingVotes.length then
          Governance.rejectProposal kind id
        else Prog.return .void).execCell now (some (withVote voter (Governance.expire now p))) := by
      refine (h.execCell_checkExpiration _).trans ?_
      rw [if_neg (by simpa using hv)]
      exact ha.execCell_update _ _
    split at he
    · next ht =>
      rw [ha.execCell_reject] at he
      split at he
      · exact ⟨_, _, he, .voted _ hv, ha⟩
      · refine ⟨_, _, he, .slashed hv ?_, ha⟩
        simpa [withVote, slashingThreshold] using ht
    · exact ⟨_, _, he, .voted _ hv, ha⟩

theorem IsStored.executeProposal : EndsIn kind now id p .executeProposal := by
  have hex : IsStored kind { p with status := .executed } := h
  have he : (Governance.executeProposal kind id).execCell now (some p) =
      (if p.status ≠ .approved then
        Prog.throw s!"Cannot execute proposal in status {p.status.text}"
      else updateProposal kind { p with status := .executed }
        (Prog.return (.executed p.payload))).execCell now (some p) := rfl
  split at he
  · exact ⟨p, _, he, .ignored _ _, h⟩
  · next ha =>
    exact ⟨_, _, he.trans (hex.execCell_update _ _), .executed (not_not.mp ha), h⟩

theorem IsStored.endsIn (operation : Operation) : EndsIn kind now id p operation := by
  cases operation with
  | getProposal => exact h.getProposal
  | submitSignature signer signature => exact h.submitSignature signer signature
  | addSlashingVote voter => exact h.addSlashingVote voter
  | executeProposal => exact h.executeProposal
  | rejectProposal => exact h.rejectProposal

end

theorem execCell_none (operation : Operation) :
    ((operation.program kind id).execCell now none).1 = none := by
  cases operation <;> rfl

theorem get_of_read {storage : Storage} (h : Storage.read now id storage = some p) :
    ∃ deadline, Map.get id storage = some ⟨p, deadline⟩ := by
  obtain ⟨entry, he, hl⟩ := Option.bind_eq_some_iff.mp h
  split at hl
  · cases hl
    exact ⟨entry.deadline, he⟩
  · cases hl

theorem exec_storage (kind : StorageKind) (now : Int) (id : String) (prog : Prog)
    (storage : Storage) :
    (∀ other, id ≠ other → Map.get other
      (prog.exec (Storage.read now id) (Storage.write kind now id) now storage).1 =
        Map.get other storage) ∧
    (Map.get id (prog.exec (Storage.read now id) (Storage.write kind now id) now storage).1 =
        Map.get id storage ∨
      ∃ p, Map.get id (prog.exec (Storage.read now id) (Storage.write kind now id) now storage).1 =
        some ⟨p, updateDeadline now p kind⟩) := by
  induction prog generalizing storage with
  | done => exact ⟨fun _ _ => rfl, .inl rfl⟩
  | get next ih => exact ih (Storage.read now id storage) now storage
  | put stored next ih =>
    obtain ⟨ho, he⟩ := ih (Storage.write kind now id stored storage)
    refine ⟨fun other hn => (ho other hn).trans ?_, .inr ?_⟩
    · rw [Storage.write, Map.get_set, if_neg hn]
    · rcases he with hs | hu
      · refine ⟨stored, hs.trans ?_⟩
        rw [Storage.write, Map.get_set_self]
      · exact hu

theorem get_perform_operate {storage : Storage} {operation : Operation}
    (hs : ∀ entry, Map.get id storage = some entry → IsStored kind entry.proposal) :
    (∀ other, id ≠ other →
      Map.get other (perform kind now (.operate id operation) storage).1 = Map.get other storage) ∧
    (Map.get id (perform kind now (.operate id operation) storage).1 = Map.get id storage ∨
      ∃ p p', Storage.read now id storage = some p ∧
        Map.get id (perform kind now (.operate id operation) storage).1 =
          some ⟨p', updateDeadline now p' kind⟩ ∧ IsStored kind p' ∧
        Outcome now p operation p' (perform kind now (.operate id operation) storage).2) := by
  obtain ⟨ho, hn⟩ := exec_storage kind now id (operation.program kind id) storage
  refine ⟨ho, hn.imp_right ?_⟩
  rintro ⟨written, hw⟩
  have he := CellProg.exec_read (read_write kind now id) now (operation.program kind id) storage
  have hr : Storage.read now id (perform kind now (.operate id operation) storage).1 =
      some written := by
    rw [Storage.read, show Map.get id (perform kind now (.operate id operation) storage).1 =
      some ⟨written, updateDeadline now written kind⟩ from hw]
    exact if_pos (updateDeadline_live now written kind)
  cases hf : Storage.read now id storage with
  | none =>
    rw [hf] at he
    cases hr.symm.trans ((congrArg Prod.fst he).trans (execCell_none operation))
  | some p =>
    obtain ⟨deadline, hg⟩ := get_of_read hf
    obtain ⟨p', result, he1, hu, his⟩ := @IsStored.endsIn kind id now p (hs _ hg) operation
    rw [hf, he1, Prod.mk.injEq] at he
    cases hr.symm.trans he.1
    exact ⟨p, written, rfl, hw, his, he.2 ▸ hu⟩

theorem newProposal_ok {id : String} {input : MultisigInput}
    (h : newProposal id now input = .ok p) :
    newProposal.outOfRange input = false ∧ p =
      { id, signers := input.signers, requiredSignatures := some input.requiredSignatures
        action := input.action, payload := input.payload, signatures := [], slashingVotes := []
        status := .pending, createdAt := now, expiresAt := expiryOf now input.ttlMs } := by
  unfold newProposal at h
  split at h
  · cases h
  · split at h
    · cases h
    · next hr =>
      cases h
      exact ⟨eq_false_of_ne_true hr, rfl⟩

theorem saveProposal_ok {storage saved : Storage}
    (h : saveProposal now p storage kind = .ok saved) :
    ∃ stored deadline, serialize kind p = .ok stored ∧ (kind = .inMemory → deadline = none) ∧
      (∀ time, p.expiresAt = some time → ∀ ends, deadline = some ends → time < ends) ∧
      saved = Map.set p.id ⟨stored, deadline⟩ storage := by
  cases kind with
  | inMemory =>
    cases h
    exact ⟨p, none, rfl, fun _ => rfl, by simp, rfl⟩
  | redis =>
    simp only [saveProposal] at h
    split at h
    · cases h
    · next stored hs =>
      split at h
      · cases h
      · next ht =>
        cases h
        refine ⟨stored, _, hs, nofun, fun time hi ends he => ?_, rfl⟩
        cases he
        simp only [ttlSeconds, hi] at ht ⊢
        omega

theorem serialize_ok {stored : MultisigProposal} (h : serialize kind p = .ok stored) :
    ∃ required, stored = { p with requiredSignatures := required } ∧
      ∀ q, p.requiredSignatures = some (.finite q) → required = some (.finite q) := by
  cases kind with
  | inMemory =>
    cases h
    exact ⟨p.requiredSignatures, rfl, fun q hq => hq⟩
  | redis =>
    simp only [serialize] at h
    split at h
    · cases h
    · cases h
      refine ⟨_, rfl, fun q hq => ?_⟩
      rw [hq]
      rfl

end Credence.Governance
