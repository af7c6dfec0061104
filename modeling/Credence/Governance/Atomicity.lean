import Credence.Governance.Multisig

/-! Overlapping operations on one proposal in Redis, each of which reads the whole proposal and
later writes the whole proposal. -/

namespace Credence.Governance

open Js ProofKit

def MultisigStatus.isFinal : MultisigStatus → Bool
  | executed => true
  | rejected => true
  | expired => true
  | _ => false

/-- Signatures and a final status stay. -/
structure Continues (p later : MultisigProposal) : Prop where
  signatures : ∀ signer signature, Map.get signer p.signatures = some signature →
    Map.get signer later.signatures = some signature
  settled : p.status.isFinal = true → later.status = p.status

theorem Continues.refl (p : MultisigProposal) : Continues p p := ⟨fun _ _ h => h, fun _ => rfl⟩

theorem Continues.trans (p q r : MultisigProposal) (h : Continues p q) (h' : Continues q r) :
    Continues p r where
  signatures signer signature hi := h'.signatures signer signature
    (h.signatures signer signature hi)
  settled hf := by
    have hs := h.settled hf
    exact (h'.settled (hs ▸ hf)).trans hs

structure StoredAs (p stored : MultisigProposal) : Prop where
  signatures : stored.signatures = p.signatures
  status : stored.status = p.status

theorem StoredAs.refl (p : MultisigProposal) : StoredAs p p := ⟨rfl, rfl⟩

variable {p stored : MultisigProposal}

theorem storedAs_of_serialize {kind : StorageKind} (h : serialize kind p = .ok stored) :
    StoredAs p stored := by
  cases kind with
  | inMemory =>
    cases h
    exact .refl p
  | redis =>
    simp only [serialize] at h
    split at h
    · cases h
    · cases h
      exact ⟨rfl, rfl⟩

theorem StoredAs.continues {base changed : MultisigProposal} (h : StoredAs p base)
    (hs : StoredAs changed stored)
    (hi : ∀ signer signature, Map.get signer p.signatures = some signature →
      Map.get signer changed.signatures = some signature)
    (he : p.status.isFinal = true → changed.status = p.status) : Continues base stored := by
  refine ⟨?_, ?_⟩
  · rw [h.signatures, hs.signatures]
    exact hi
  · rw [h.status, hs.status]
    exact he

section

variable {kind : StorageKind} {id : String} {now : Int} {base p : MultisigProposal}

theorem updateProposal_cases (Holds : Prog → Prop) {next : Prog}
    (hThrow : ∀ message, Holds (Prog.throw message))
    (hp : ∀ stored, StoredAs p stored → Holds (.put stored next)) :
    Holds (updateProposal kind p next) := by
  unfold updateProposal
  split
  · exact hThrow _
  · next stored hs => exact hp stored (storedAs_of_serialize hs)

theorem checkExpiration_cases (Holds : Prog → Prop) {next : MultisigProposal → Prog}
    (hThrow : ∀ message, Holds (Prog.throw message)) (hn : Holds (next p))
    (he : p.status = .pending → isPast now p.expiresAt = true → ∀ stored,
      StoredAs { p with status := .expired } stored →
      Holds (.put stored (next { p with status := .expired }))) :
    Holds (checkExpiration kind now p next) := by
  unfold checkExpiration
  split
  · next hp =>
    exact updateProposal_cases Holds hThrow fun stored hs =>
      he hp.1 hp.2 stored hs
  · exact hn

theorem keeps_getProposalOrThrow {next : Int → MultisigProposal → Prog}
    (hn : ∀ now p, (next now p).Keeps Continues (some p)) (seen : Option MultisigProposal) :
    (getProposalOrThrow id next).Keeps Continues seen := by
  intro found now
  cases found with
  | none => trivial
  | some p => exact hn now p

theorem keeps_checkExpiration {next : MultisigProposal → Prog} (hb : StoredAs p base)
    (hn : ∀ p base, StoredAs p base → (next p).Keeps Continues (some base)) :
    (checkExpiration kind now p next).Keeps Continues (some base) := by
  refine checkExpiration_cases (fun prog => prog.Keeps Continues (some base))
    (fun _ => trivial) (hn p base hb) fun hp _ stored hs => ?_
  refine ⟨⟨base, rfl, hb.continues hs (fun _ _ h => h) ?_⟩, hn _ stored hs⟩
  rw [hp]
  exact nofun

theorem keeps_updateProposal {changed : MultisigProposal} {next : Prog} (hb : StoredAs p base)
    (hs : ∀ signer signature, Map.get signer p.signatures = some signature →
      Map.get signer changed.signatures = some signature)
    (he : p.status.isFinal = true → changed.status = p.status)
    (hn : ∀ stored, next.Keeps Continues (some stored)) :
    (updateProposal kind changed next).Keeps Continues (some base) :=
  updateProposal_cases (fun prog => prog.Keeps Continues (some base)) (fun _ => trivial)
    fun stored ht =>
      ⟨⟨base, rfl, hb.continues ht hs he⟩, hn stored⟩

theorem keeps_submitSignature (signer signature : String) (seen : Option MultisigProposal) :
    (submitSignature kind id signer signature).Keeps Continues seen := by
  refine keeps_getProposalOrThrow (fun now base => ?_) seen
  refine keeps_checkExpiration (.refl base) fun p base hb => ?_
  cases hs : sign id signer signature p with
  | error => trivial
  | ok =>
    obtain ⟨hp, -, hn, rfl⟩ := sign_ok hs
    refine keeps_updateProposal hb (fun other old ho => ?_) ?_ fun _ => trivial
    · have hNe : signer ≠ other := by
        rintro rfl
        cases hn.symm.trans ho
      exact (Map.get_set _ _ _ _).trans ((if_neg hNe).trans ho)
    · rw [hp]
      exact nofun

theorem keeps_rejectProposal (seen : Option MultisigProposal) :
    (rejectProposal kind id).Keeps Continues seen := by
  refine keeps_getProposalOrThrow (fun now base => ?_) seen
  split
  · trivial
  · next ho =>
    refine keeps_updateProposal (.refl base) (fun _ _ h => h) (fun hf => ?_) fun _ => trivial
    cases hs : base.status <;> simp_all [MultisigStatus.isFinal]

theorem keeps_addSlashingVote (voter : String) (seen : Option MultisigProposal) :
    (addSlashingVote kind id voter).Keeps Continues seen := by
  refine keeps_getProposalOrThrow (fun now base => ?_) seen
  refine keeps_checkExpiration (.refl base) fun p base hb => ?_
  split
  · trivial
  · refine keeps_updateProposal hb (fun _ _ h => h) (fun _ => rfl) fun stored => ?_
    split
    · exact keeps_rejectProposal (some stored)
    · trivial

theorem keeps_executeProposal (seen : Option MultisigProposal) :
    (executeProposal kind id).Keeps Continues seen := by
  refine keeps_getProposalOrThrow (fun now base => ?_) seen
  split
  · trivial
  · next ha =>
    refine keeps_updateProposal (.refl base) (fun _ _ h => h) ?_ fun _ => trivial
    rw [not_not.mp ha]
    exact nofun

theorem keeps_getProposal (seen : Option MultisigProposal) :
    (getProposal kind).Keeps Continues seen := by
  intro found now
  cases found with
  | none => trivial
  | some base => exact keeps_checkExpiration (.refl base) fun _ _ _ => trivial

theorem keeps_program (operation : Operation) :
    (operation.program kind id).Keeps Continues none := by
  cases operation with
  | getProposal => exact keeps_getProposal none
  | submitSignature signer signature => exact keeps_submitSignature signer signature none
  | addSlashingVote voter => exact keeps_addSlashingVote voter none
  | executeProposal => exact keeps_executeProposal none
  | rejectProposal => exact keeps_rejectProposal none

def Reply.isExecuted : Reply → Bool
  | executed _ => true
  | _ => false

def Executed (result : Except String Reply) : Prop := ∃ reply, result = .ok reply ∧ reply.isExecuted

variable {Post : Option MultisigProposal → Except String Reply → Prop}
  {seen : Option MultisigProposal}

section

variable (hThrow : ∀ seen message, Post seen (.error message))
include hThrow

theorem ends_getProposalOrThrow {next : Int → MultisigProposal → Prog}
    (hn : ∀ now p, (next now p).Ends Post (some p)) (seen : Option MultisigProposal) :
    (getProposalOrThrow id next).Ends Post seen := by
  intro found now
  cases found with
  | none => exact hThrow none _
  | some p => exact hn now p

theorem ends_updateProposal {next : Prog}
    (hn : ∀ stored, StoredAs p stored → next.Ends Post (some stored)) :
    (updateProposal kind p next).Ends Post seen :=
  updateProposal_cases (fun prog => prog.Ends Post seen) (fun message => hThrow seen message)
    fun stored hs => hn stored hs

theorem ends_checkExpiration {next : MultisigProposal → Prog}
    (hn : ∀ p seen, (next p).Ends Post seen) :
    (checkExpiration kind now p next).Ends Post seen :=
  checkExpiration_cases (fun prog => prog.Ends Post seen) (fun message => hThrow seen message)
    (hn p seen) fun _ _ stored _ => hn _ (some stored)

end

theorem not_executed_error (_ : Option MultisigProposal) (message : String) :
    ¬ Executed (.error message) := by
  rintro ⟨reply, ho, -⟩
  cases ho

theorem not_executed_ok {reply : Reply} (h : reply.isExecuted = false) :
    ¬ Executed (.ok reply) := by
  rintro ⟨other, ho, he⟩
  cases ho
  exact Bool.noConfusion (h.symm.trans he)

def Signs (signer signature : String) (seen : Option MultisigProposal)
    (result : Except String Reply) : Prop :=
  ¬ Executed result ∧ ∀ reply, result = .ok reply →
    ∃ p, seen = some p ∧ Map.get signer p.signatures = some signature

theorem ends_submitSignature (signer signature : String) (seen : Option MultisigProposal) :
    (submitSignature kind id signer signature).Ends (Signs signer signature) seen := by
  have hThrow : ∀ seen message, Signs signer signature seen (.error message) :=
    fun seen message => ⟨not_executed_error seen message, by simp⟩
  refine ends_getProposalOrThrow hThrow (fun now base => ?_) seen
  refine ends_checkExpiration hThrow fun p seen => ?_
  cases hs : sign id signer signature p with
  | error message => exact hThrow seen message
  | ok =>
    obtain ⟨-, -, -, rfl⟩ := sign_ok hs
    refine ends_updateProposal hThrow fun stored ht => ⟨not_executed_ok rfl, ?_⟩
    intro reply _
    refine ⟨stored, rfl, ?_⟩
    rw [ht.signatures]
    exact Map.get_set_self ..

theorem ends_rejectProposal (seen : Option MultisigProposal) :
    (rejectProposal kind id).Ends (fun _ result => ¬ Executed result) seen := by
  refine ends_getProposalOrThrow not_executed_error (fun now base => ?_) seen
  split
  · exact not_executed_error seen _
  · exact ends_updateProposal not_executed_error fun _ _ => not_executed_ok rfl

theorem ends_addSlashingVote (voter : String) (seen : Option MultisigProposal) :
    (addSlashingVote kind id voter).Ends (fun _ result => ¬ Executed result) seen := by
  refine ends_getProposalOrThrow not_executed_error (fun now base => ?_) seen
  refine ends_checkExpiration not_executed_error fun p seen => ?_
  split
  · exact not_executed_error seen _
  · refine ends_updateProposal not_executed_error fun stored _ => ?_
    split
    · exact ends_rejectProposal (some stored)
    · exact not_executed_ok rfl

theorem ends_getProposal (seen : Option MultisigProposal) :
    (getProposal kind).Ends (fun _ result => ¬ Executed result) seen := by
  intro found now
  cases found with
  | none => exact not_executed_ok rfl
  | some =>
    exact ends_checkExpiration not_executed_error fun _ _ => not_executed_ok rfl

def Executes (result : Except String Reply) : Prop := ∀ reply, result = .ok reply → reply.isExecuted

theorem executes_error (_ : Option MultisigProposal) (message : String) :
    Executes (.error message) := by
  intro reply hr
  cases hr

theorem ends_executeProposal (seen : Option MultisigProposal) :
    (executeProposal kind id).Ends (fun _ result => Executes result) seen := by
  refine ends_getProposalOrThrow executes_error (fun now base => ?_) seen
  split
  · exact executes_error none _
  · refine ends_updateProposal executes_error fun _ _ reply hr => ?_
    cases hr
    rfl

theorem marks_executeProposal (seen : Option MultisigProposal) :
    (executeProposal kind id).Marks (fun p => p.status = .executed) Executed seen := by
  intro found now
  cases found with
  | none => exact not_executed_error none _
  | some base =>
    simp only
    split
    · exact not_executed_error none _
    · next ha =>
      refine updateProposal_cases
        (fun prog => prog.Marks (fun p => p.status = .executed) Executed (some base))
        (not_executed_error none) fun stored hs => ?_
      refine .inr ⟨⟨base, rfl, fun he => ?_⟩, hs.status, _, rfl⟩
      cases (not_not.mp ha).symm.trans he

theorem marks_program (operation : Operation) :
    (operation.program kind id).Marks (fun p => p.status = .executed) Executed none := by
  cases operation with
  | getProposal => exact (ends_getProposal none).marks
  | submitSignature signer signature =>
    exact ((ends_submitSignature signer signature none).mono fun _ _ h => h.1).marks
  | addSlashingVote voter => exact (ends_addSlashingVote voter none).marks
  | executeProposal => exact marks_executeProposal none
  | rejectProposal => exact (ends_rejectProposal none).marks

end

abbrev World : Type := Shared Operation MultisigProposal Int (Except String Reply)

/-- A step of overlapping operations on the proposal in Redis; `clear` is the end of its time to
live. -/
def step (id : String) : CellAction Operation Int → World → Option World :=
  Shared.step (Operation.program .redis id)

def Resolved (w : World) (i : Nat) (operation : Operation) : Prop :=
  ∃ seen reply, w.tasks[i]? = some ⟨operation, seen, .done (.ok reply)⟩

/-- What has been told to a caller still holds later. -/
structure Atomic (w later : World) : Prop where
  signatures : ∀ i signer signature, Resolved w i (.submitSignature signer signature) →
    ∀ p, later.cell = some p → Map.get signer p.signatures = some signature
  once : ∀ i j, Resolved later i .executeProposal → Resolved later j .executeProposal → i = j
  settled : ∀ p, w.cell = some p → p.status.isFinal = true →
    ∀ p', later.cell = some p' → p'.status = p.status

def Told : Operation → Option MultisigProposal → Except String Reply → Prop
  | .submitSignature signer signature, seen, result => Signs signer signature seen result
  | .executeProposal, _, result => Executes result
  | _, _, result => ¬ Executed result

theorem ends_program (id : String) (operation : Operation) :
    (operation.program .redis id).Ends (Told operation) none := by
  cases operation with
  | getProposal => exact ends_getProposal none
  | submitSignature signer signature => exact ends_submitSignature signer signature none
  | addSlashingVote voter => exact ends_addSlashingVote voter none
  | executeProposal => exact ends_executeProposal none
  | rejectProposal => exact ends_rejectProposal none

structure Ok (w : World) : Prop where
  ok : w.Ok Continues
  told : w.AllEnd Told
  once : w.Once (fun p => p.status = .executed) Executed

theorem ok_start (stored : Option MultisigProposal) : Ok ⟨stored, []⟩ :=
  ⟨⟨by simp, by simp⟩, by simp [Shared.AllEnd], by simp, by simp, by simp⟩

variable {w : World}

theorem Ok.step {id : String} {a : CellAction Operation Int} {w' : World} (h : Ok w)
    (hc : Shared.PutsCurrent a w) (hs : Governance.step id a w = some w') : Ok w' where
  ok := h.ok.step keeps_program .refl .trans hc hs
  told := h.told.step (ends_program id) hs
  once := h.once.step h.ok marks_program .refl
    (fun _ _ ha he => (ha.settled (by rw [he]; rfl)).trans he)
    hc hs

theorem Resolved.marked (h : Ok w) {i : Nat} (hr : Resolved w i .executeProposal) :
    ∃ task, w.tasks[i]? = some task ∧ Shared.Marked Executed task := by
  obtain ⟨seen, reply, ht⟩ := hr
  exact ⟨_, ht, .ok reply, rfl, reply, rfl, h.told i _ ht reply rfl⟩

/-- While each write finds the proposal that its operation last saw, overlapping operations act as
if each were one step. -/
theorem proposal_atomic {id : String} {stored : Option MultisigProposal}
    {before after : List (CellAction Operation Int)} {w later : World}
    (hCurrent : Along (step id) Shared.PutsCurrent (before ++ after) ⟨stored, []⟩)
    (hBefore : run (step id) before ⟨stored, []⟩ = some w)
    (hAfter : run (step id) after w = some later) : Atomic w later := by
  have hp : ∀ a (s t : World), Ok s → Shared.PutsCurrent a s → step id a s = some t → Ok t :=
    fun a s t h => h.step
  have ho : Ok w := run_invariant Ok hp (ok_start stored) hCurrent.append_left hBefore
  have hl : Ok later := run_invariant Ok hp ho (hCurrent.append_right hBefore) hAfter
  obtain ⟨-, hf⟩ := ho.ok.run keeps_program .refl .trans (hCurrent.append_right hBefore) hAfter
  refine ⟨?_, ?_, ?_⟩
  · rintro i signer signature ⟨seen, reply, ht⟩ p hl
    obtain ⟨signed, rfl, hs⟩ := (ho.told i _ ht).2 reply rfl
    obtain ⟨current, hc, ha⟩ := hf p hl
    exact ha.signatures _ _
      ((ho.ok.follows i _ ht signed rfl current hc).signatures _ _ hs)
  · intro i j hi he
    obtain ⟨first, ht, hm⟩ := hi.marked hl
    obtain ⟨second, ht', hm'⟩ := he.marked hl
    exact hl.once.unique i j first second ht ht' hm hm'
  · intro p hc hn p' hl
    obtain ⟨current, hCurrent, ha⟩ := hf p' hl
    cases hc.symm.trans hCurrent
    exact ha.settled hn

def slashProposal (status : MultisigStatus) : MultisigProposal where
  id := "p1"
  signers := ["ada", "bob", "eve"]
  requiredSignatures := some 2
  action := "slash_validator"
  payload := none
  signatures := []
  slashingVotes := []
  status := status
  createdAt := 0
  expiresAt := some 1000

def signedAndExecuted : List (CellAction Operation Int) :=
  [.start (.submitSignature "ada" "a1"), .get 0 1, .put 0, .start .getProposal,
    .start (.submitSignature "bob" "b1"), .get 2 2, .get 1 3, .put 2]

theorem proposal_atomic_signedAndExecuted : ∃ w later,
    run (step "p1") signedAndExecuted ⟨some (slashProposal .pending), []⟩ = some w ∧
    run (step "p1") [.start .executeProposal, .get 3 4, .put 3, .start (.addSlashingVote "eve"),
      .get 4 5, .put 4] w = some later ∧ Atomic w later := by
  have hb : run (step "p1") signedAndExecuted ⟨some (slashProposal .pending), []⟩ = some _ := rfl
  exact ⟨_, _, hb, rfl, proposal_atomic (by decide +kernel) hb
    (rfl : run (step "p1") [.start .executeProposal, .get 3 4, .put 3,
      .start (.addSlashingVote "eve"), .get 4 5, .put 4] _ = some _)⟩

def resolved (w : World) : List Bool :=
  w.tasks.map fun task => match task.prog with
    | .done (.ok _) => true
    | _ => false

/-- A signature is overwritten, a proposal is executed twice, and a rejected one is open again. -/
theorem overlapping_writes_lost :
    (run (step "p1") [.start (.submitSignature "ada" "a1"), .start (.submitSignature "bob" "b1"),
        .get 0 1, .get 1 2, .put 0, .put 1] ⟨some (slashProposal .pending), []⟩).map
      (fun w => (resolved w, w.cell.map MultisigProposal.signatures)) =
      some ([true, true], some [("bob", "b1")]) ∧
    (run (step "p1") [.start .executeProposal, .start .executeProposal, .get 0 1, .get 1 2, .put 0,
        .put 1] ⟨some (slashProposal .approved), []⟩).map resolved = some [true, true] ∧
    (run (step "p1") [.start .rejectProposal, .start (.submitSignature "ada" "a1"), .get 0 1,
        .get 1 2, .put 0] ⟨some (slashProposal .pending), []⟩).map
      (fun w => (w.cell.map MultisigProposal.status,
        (run (step "p1") [.put 1] w).map fun w => w.cell.map MultisigProposal.status)) =
      some (some .rejected, some (some .pending)) := by
  decide +kernel

end Credence.Governance
