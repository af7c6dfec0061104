import Credence.Governance.Outcomes
import Mathlib.Algebra.Order.Ring.Rat
import Mathlib.Data.List.Dedup
import Mathlib.Data.List.Induction
import Mathlib.Data.List.Perm.Subperm
import Mathlib.Data.Nat.Cast.Order.Ring

/-! Who has authorised a proposal, over sequences of calls that do not overlap. -/

namespace Credence.Governance

open Js ProofKit List

def terms (p : MultisigProposal) : MultisigProposal :=
  { p with signatures := [], slashingVotes := [], status := .pending }

/-- One of the calls was this operation on the proposal; `P` speaks of its time, of the proposal as
it found it and of its reply. -/
def Occurred (kind : StorageKind) (calls : List (Int × Call)) (p : MultisigProposal)
    (operation : Operation) (P : Int → MultisigProposal → Except String Reply → Prop) : Prop :=
  ∃ before now after found, calls = before ++ (now, .operate p.id operation) :: after ∧
    Storage.read now p.id (storageAfter kind before []) = some found ∧ terms found = terms p ∧
    P now found (perform kind now (.operate p.id operation) (storageAfter kind before [])).2

/-- The signer has signed the proposal while it was pending and not past its expiration. -/
def SignedInTime (kind : StorageKind) (calls : List (Int × Call)) (p : MultisigProposal)
    (signer : String) : Prop :=
  ∃ signature, Occurred kind calls p (.submitSignature signer signature) fun now found result =>
    found.status = .pending ∧ isPast now found.expiresAt = false ∧ ∃ reply, result = .ok reply

def VotedToSlash (kind : StorageKind) (calls : List (Int × Call)) (p : MultisigProposal)
    (voter : String) : Prop :=
  Occurred kind calls p (.addSlashingVote voter) fun _ found _ => voter ∉ found.slashingVotes

def ExecutedWhenApproved (kind : StorageKind) (calls : List (Int × Call)) (p : MultisigProposal) :
    Prop :=
  Occurred kind calls p .executeProposal fun _ found result =>
    found.status = .approved ∧ ∃ reply, result = .ok reply

section

variable {kind : StorageKind} {calls : List (Int × Call)} {p p' : MultisigProposal} {now : Int}
  {operation : Operation} {P : Int → MultisigProposal → Except String Reply → Prop}

theorem storageAfter_append (kind : StorageKind) (calls later : List (Int × Call))
    (storage : Storage) : storageAfter kind (calls ++ later) storage =
      storageAfter kind later (storageAfter kind calls storage) := by
  induction calls generalizing storage with
  | nil => rfl
  | cons first calls ih => exact ih _

theorem storageAfter_snoc (kind : StorageKind) (calls : List (Int × Call)) (call : Int × Call)
    (storage : Storage) : storageAfter kind (calls ++ [call]) storage =
      (perform kind call.1 call.2 (storageAfter kind calls storage)).1 :=
  storageAfter_append kind calls [call] storage

theorem id_of_terms (h : terms p' = terms p) : p'.id = p.id := by
  have hi := congrArg MultisigProposal.id h
  exact hi

theorem Occurred.later (h : Occurred kind calls p operation P) (call : Int × Call)
    (ht : terms p' = terms p) : Occurred kind (calls ++ [call]) p' operation P := by
  obtain ⟨before, now, after, found, rfl, hr, hf, hP⟩ := h
  have hi := id_of_terms ht
  refine ⟨before, now, after ++ [call], found, ?_, hi ▸ hr, hf.trans ht.symm, hi ▸ hP⟩
  rw [hi, append_assoc, cons_append]

theorem occurred_last (hr : Storage.read now p.id (storageAfter kind calls []) = some p)
    (ht : terms p' = terms p)
    (hP : P now p (perform kind now (.operate p.id operation) (storageAfter kind calls [])).2) :
    Occurred kind (calls ++ [(now, .operate p.id operation)]) p' operation P := by
  have hi := id_of_terms ht
  exact ⟨calls, now, [], p, by rw [hi], hi ▸ hr, ht.symm, hi ▸ hP⟩

/-- What the calls so far account for in a stored proposal. -/
structure EntryOk (kind : StorageKind) (calls : List (Int × Call)) (id : String)
    (p : MultisigProposal) : Prop where
  stored : IsStored kind p
  id : p.id = id
  distinct : Map.Nodup p.signatures
  signed : ∀ signer ∈ p.signatures.map Prod.fst, signer ∈ p.signers ∧
    SignedInTime kind calls p signer
  enough : p.status = .approved ∨ p.status = .executed →
    reaches p.signatures.length p.requiredSignatures = true
  voters : p.slashingVotes.Nodup
  voted : ∀ voter ∈ p.slashingVotes, VotedToSlash kind calls p voter
  executed : p.status = .executed → ExecutedWhenApproved kind calls p

theorem terms_expire : terms (expire now p) = terms p := by
  unfold expire
  split <;> rfl

variable {signer id : String}

theorem SignedInTime.later (h : SignedInTime kind calls p signer) (call : Int × Call)
    (ht : terms p' = terms p) : SignedInTime kind (calls ++ [call]) p' signer := by
  obtain ⟨signature, hs⟩ := h
  exact ⟨signature, hs.later call ht⟩

section

variable (h : EntryOk kind calls id p)
include h

theorem EntryOk.later (call : Int × Call) : EntryOk kind (calls ++ [call]) id p where
  __ := h
  signed signer hs := ⟨(h.signed signer hs).1, (h.signed signer hs).2.later call rfl⟩
  voted voter hv := (h.voted voter hv).later call rfl
  executed ht := (h.executed ht).later call rfl

theorem EntryOk.setStatus {status : MultisigStatus}
    (he : status = .approved ∨ status = .executed → p.status = .approved ∨
      p.status = .executed) (hex : status = .executed → ExecutedWhenApproved kind calls p) :
    EntryOk kind calls id { p with status } where
  __ := h
  enough hs := h.enough (he hs)
  executed := hex

theorem EntryOk.expire (now : Int) : EntryOk kind calls id (Governance.expire now p) := by
  unfold Governance.expire
  split
  · exact h.setStatus (by simp) (by simp)
  · exact h

theorem EntryOk.vote {voter : String} (ha : voter ∉ p.slashingVotes)
    (hv : VotedToSlash kind calls p voter) : EntryOk kind calls id (withVote voter p) where
  __ := h
  voters := nodup_append.mpr ⟨h.voters, nodup_singleton voter, by grind⟩
  voted other ho := by
    rcases mem_append.mp ho with ho | ho
    · exact h.voted other ho
    · cases mem_singleton.mp ho
      exact hv

theorem EntryOk.sign {signature : String} (call : Int × Call) (hp : p.status = .pending)
    (hi : signer ∈ p.signers)
    (hg : SignedInTime kind (calls ++ [call]) (withSignature signer signature p) signer) :
    EntryOk kind (calls ++ [call]) id (withSignature signer signature p) where
  __ := h
  distinct := Map.nodup_set signer signature h.distinct
  signed other ho := by
    rcases Map.keys_set_subset signer signature p.signatures other ho with rfl | ho
    · exact ⟨hi, hg⟩
    · exact ⟨(h.signed other ho).1, (h.signed other ho).2.later call rfl⟩
  enough hs := by
    simp only [withSignature] at hs ⊢
    split at hs
    · next hr => exact hr
    · rw [hp] at hs
      rcases hs with hs | hs <;> cases hs
  voted voter hv := (h.voted voter hv).later call rfl
  executed hs := by
    simp only [withSignature] at hs
    split at hs
    · cases hs
    · cases hp.symm.trans hs

theorem EntryOk.outcome (hr : Storage.read now id (storageAfter kind calls []) = some p)
    (ho : Outcome now p operation p' (perform kind now (.operate id operation) (storageAfter
      kind calls [])).2) :
    EntryOk kind (calls ++ [(now, .operate id operation)]) id p' := by
  obtain rfl := h.id
  generalize he :
    (perform kind now (.operate p.id operation) (storageAfter kind calls [])).2 = result at ho
  cases ho with
  | kept => exact (h.later _).expire now
  | ignored => exact h.later _
  | signed hp ht hs =>
    refine h.sign _ hp hs ⟨_, occurred_last hr rfl ⟨hp, ht, _, he⟩⟩
  | voted _ hv =>
    exact ((h.later _).expire now).vote (by simpa using hv)
      (occurred_last hr terms_expire hv)
  | slashed hv =>
    have hb := ((h.later _).expire now).vote (by simpa using hv)
      (occurred_last hr terms_expire hv)
    exact hb.setStatus (by simp) (by simp)
  | executed ha =>
    exact (h.later _).setStatus (fun _ => .inl ha)
      fun _ => occurred_last hr rfl ⟨ha, _, he⟩
  | rejected => exact (h.later _).setStatus (by simp) (by simp)

end

/-! ### Whole sequences -/

theorem entryOk_new {input : MultisigInput} {stored : MultisigProposal}
    (hn : newProposal id now input = .ok p) (hs : serialize kind p = .ok stored)
    (calls : List (Int × Call)) : EntryOk kind calls id stored := by
  have his := isStored_of_serialize hs
  obtain ⟨-, rfl⟩ := newProposal_ok hn
  obtain ⟨required, rfl, -⟩ := serialize_ok hs
  exact ⟨his, rfl, nodup_nil, by simp, by simp, nodup_nil, by simp, by simp⟩

def HistoryOk (kind : StorageKind) (calls : List (Int × Call)) : Prop :=
  ∀ id entry, Map.get id (storageAfter kind calls []) = some entry →
    EntryOk kind calls id entry.proposal

theorem HistoryOk.snoc (h : HistoryOk kind calls) (call : Int × Call) :
    HistoryOk kind (calls ++ [call]) := by
  intro id entry he
  rw [storageAfter_snoc] at he
  obtain ⟨now, call⟩ := call
  cases call with
  | createProposal =>
    simp only [perform] at he
    split at he
    · exact (h id entry he).later _
    · next hn =>
      split at he
      · exact (h id entry he).later _
      · next hs =>
        obtain ⟨stored, deadline, ha, -, -, rfl⟩ := saveProposal_ok hs
        rcases Map.get_of_set he with ⟨hi, rfl⟩ | hf
        · obtain ⟨-, rfl⟩ := newProposal_ok hn
          exact hi ▸ entryOk_new hn ha _
        · exact (h id entry hf).later _
  | operate target operation =>
    obtain ⟨ho, ht⟩ := @get_perform_operate kind target now
      (storageAfter kind calls []) operation fun entry he => (h target entry he).stored
    by_cases hi : target = id
    · subst hi
      rcases ht with hb | ⟨p, p', hr, hw, -, hu⟩
      · exact (h target entry (hb ▸ he)).later _
      · cases he.symm.trans hw
        obtain ⟨deadline, hg⟩ := get_of_read hr
        exact (h target _ hg).outcome hr hu
    · exact (h id entry (ho id hi ▸ he)).later _

theorem ok_calls (kind : StorageKind) (calls : List (Int × Call)) : HistoryOk kind calls := by
  induction calls using reverseRecOn with
  | nil => exact fun id entry he => nomatch he
  | append_singleton calls call ih => exact ih.snoc call

end

/-! ### Collecting signatures -/

section

variable {kind : StorageKind} {id : String} {now : Int} {p q q' : MultisigProposal}
  {storage : Storage}

theorem reaches_mono {size size' : Nat} {required : Option Number}
    (h : reaches size required = true) (hl : size ≤ size') : reaches size' required = true := by
  cases required with
  | none => rfl
  | some number =>
    cases number with
    | nan => cases h
    | infinity => exact h
    | finite =>
      simp only [reaches, decide_eq_true_eq] at h ⊢
      exact le_trans h (Nat.cast_le.mpr hl)

def Readable (id : String) (p : MultisigProposal) (storage : Storage) : Prop :=
  ∀ time, isPast time p.expiresAt = false → Storage.read time id storage = some p

theorem readable_of_get {deadline : Option Int} (ha : IsStored kind p)
    (hg : Map.get id storage = some ⟨p, deadline⟩) (hm : kind = .inMemory → deadline = none)
    (hd : ∀ time, p.expiresAt = some time → ∀ ends, deadline = some ends → time < ends) :
    Readable id p storage := by
  intro time ht
  have hl : deadline.all (time < ·) = true := by
    rw [Option.all_eq_true]
    intro ends hn
    cases kind with
    | inMemory => cases (hm rfl).symm.trans hn
    | redis =>
      cases he : p.expiresAt with
      | none =>
        have hs := (ha rfl).1
        rw [he] at hs
        cases hs
      | some expires =>
        have hLt := hd expires he ends hn
        simp only [isPast, he, Option.any_some, decide_eq_false_iff_not] at ht
        exact decide_eq_true (by omega)
  rw [Storage.read, hg]
  exact if_pos hl

theorem readable_congr {storage' : Storage} (h : Readable id p storage)
    (hg : Map.get id storage' = Map.get id storage) : Readable id p storage' := by
  intro time ht
  rw [Storage.read, hg]
  exact h time ht

theorem Readable.operate {operation : Operation} {result : Except String Reply}
    (h : Readable id q storage) (ht : isPast now q.expiresAt = false)
    (he : (operation.program kind id).execCell now (some q) = (some q', result))
    (ha : IsStored kind q') (hex : q'.expiresAt = q.expiresAt) :
    Readable id q' (perform kind now (.operate id operation) storage).1 := by
  have hr := CellProg.exec_read (read_write kind now id) now (operation.program kind id) storage
  rw [h now ht, he, Prod.mk.injEq] at hr
  obtain ⟨-, hs | ⟨written, hw⟩⟩ := exec_storage kind now id (operation.program kind id) storage
  · have hk : Storage.read now id (perform kind now (.operate id operation) storage).1 =
        some q := by
      rw [Storage.read, perform, hs]
      exact h now ht
    cases hk.symm.trans hr.1
    exact readable_congr h hs
  · obtain ⟨deadline, hg⟩ := get_of_read hr.1
    cases hw.symm.trans hg
    have hm : kind = .inMemory → updateDeadline now q' kind = none := by
      rintro rfl
      rfl
    exact readable_of_get ha hg hm fun time ht ends hn =>
      (lt_updateDeadline now _ hn).2 time ht

theorem expire_of_inTime (h : isPast now p.expiresAt = false) : expire now p = p :=
  if_neg fun hp => Bool.noConfusion (h.symm.trans hp.2)

theorem IsStored.execCell_getProposal (h : IsStored kind p) (ht : isPast now p.expiresAt = false) :
    (Governance.getProposal kind).execCell now (some p) = (some p, .ok (.found (some p))) := by
  have he := @IsStored.execCell_checkExpiration kind now p h fun p =>
    Prog.return (.found (some p))
  rw [expire_of_inTime ht] at he
  exact he

theorem IsStored.execCell_submitSignature (h : IsStored kind p)
    (ht : isPast now p.expiresAt = false) (signer signature : String) :
    (Governance.submitSignature kind id signer signature).execCell now (some p) =
      match sign id signer signature p with
      | .error message => (some p, .error message)
      | .ok signed => (some signed, .ok (.signed signed)) := by
  refine (h.execCell_checkExpiration _).trans ?_
  rw [expire_of_inTime ht]
  cases hs : sign id signer signature p with
  | error => rfl
  | ok =>
    obtain ⟨-, -, -, rfl⟩ := sign_ok hs
    have hi : IsStored kind (withSignature signer signature p) := h
    exact hi.execCell_update _ _

/-- The proposal is approved, or has a signature of every signer that submitted one. -/
structure Collects (kind : StorageKind) (id : String) (p : MultisigProposal)
    (submitted : List String) (q : MultisigProposal) (storage : Storage) : Prop where
  readable : Readable id q storage
  stored : IsStored kind q
  signers : q.signers = p.signers
  required : q.requiredSignatures = p.requiredSignatures
  expiresAt : q.expiresAt = p.expiresAt
  status : q.status = .approved ∨ q.status = .pending ∧
    reaches q.signatures.length q.requiredSignatures = false ∧
    ∀ signer ∈ submitted, signer ∈ p.signers → (Map.get signer q.signatures).isSome

/-- A call that leaves the proposal alone, reads it, or submits a signature in time. -/
def SignsInTime (id : String) (p : MultisigProposal) : Int × Call → Prop
  | (_, .createProposal other _) => other ≠ id
  | (now, .operate other operation) => other = id → isPast now p.expiresAt = false ∧
      (operation = .getProposal ∨ ∃ signer signature, operation = .submitSignature signer signature)

def submitter (id : String) : Int × Call → Option String
  | (_, .operate other (.submitSignature signer _)) => if other = id then some signer else none
  | _ => none

variable {signer signature : String} {submitted : List String} {input : MultisigInput}

theorem signed_of_error {message : String} (h : sign id signer signature p = .error message)
    (hp : p.status = .pending) (hs : signer ∈ p.signers) :
    (Map.get signer p.signatures).isSome := by
  by_contra hn
  rw [sign, if_neg (not_not.mpr hp), if_neg (not_not.mpr hs), if_neg hn] at h
  cases h

section

variable (h : Collects kind id p submitted q storage)
include h

theorem Collects.submit (ht : isPast now p.expiresAt = false) :
    ∃ q', Collects kind id p (submitted ++ [signer]) q'
      (perform kind now (.operate id (.submitSignature signer signature)) storage).1 := by
  have hit : isPast now q.expiresAt = false := h.expiresAt ▸ ht
  have he := @IsStored.execCell_submitSignature kind id now q h.stored hit signer signature
  cases hs : sign id signer signature q with
  | error =>
    rw [hs] at he
    refine ⟨q, h.readable.operate hit he h.stored rfl, h.stored, h.signers, h.required,
      h.expiresAt, h.status.imp_right fun ⟨hp, hl, hi⟩ => ⟨hp, hl, ?_⟩⟩
    intro other ho hc
    rcases mem_append.mp ho with ho | ho
    · exact hi other ho hc
    · cases mem_singleton.mp ho
      exact signed_of_error hs hp (h.signers ▸ hc)
  | ok =>
    rw [hs] at he
    obtain ⟨hp, -, hd, rfl⟩ := sign_ok hs
    refine ⟨_, h.readable.operate hit he h.stored rfl, h.stored, h.signers, h.required,
      h.expiresAt, ?_⟩
    by_cases hr : reaches (Map.set signer signature q.signatures).length q.requiredSignatures = true
    · exact .inl (if_pos hr)
    · refine .inr ⟨(if_neg hr).trans hp, eq_false_of_ne_true hr, ?_⟩
      intro other ho hc
      simp only [Map.get_set]
      split
      · rfl
      · next hn =>
        have hb : other ∈ submitted := by
          rcases mem_append.mp ho with ho | ho
          · exact ho
          · exact absurd (mem_singleton.mp ho).symm hn
        rcases h.status with ha | ⟨-, -, hi⟩
        · cases hp.symm.trans ha
        · exact hi other hb hc

theorem Collects.call {call : Int × Call} (hc : SignsInTime id p call) :
    ∃ q', Collects kind id p (submitted ++ (submitter id call).toList) q'
      (perform kind call.1 call.2 storage).1 := by
  obtain ⟨now, call⟩ := call
  cases call with
  | createProposal other input =>
    have hg : Map.get id (perform kind now (.createProposal other input) storage).1 =
        Map.get id storage := by
      simp only [perform]
      split
      · rfl
      · next hn =>
        split
        · rfl
        · next hs =>
          obtain ⟨stored, deadline, -, -, -, rfl⟩ := saveProposal_ok hs
          obtain ⟨-, rfl⟩ := newProposal_ok hn
          rw [Map.get_set]
          exact if_neg hc
    exact ⟨q, readable_congr h.readable hg, h.stored, h.signers, h.required, h.expiresAt,
      by simpa [submitter] using h.status⟩
  | operate other operation =>
    by_cases ho : other = id
    · subst ho
      obtain ⟨ht, rfl | ⟨signer, signature, rfl⟩⟩ := hc rfl
      · have hit : isPast now q.expiresAt = false := h.expiresAt ▸ ht
        exact ⟨q, h.readable.operate hit (h.stored.execCell_getProposal hit) h.stored rfl,
          h.stored, h.signers, h.required, h.expiresAt, by simpa [submitter] using h.status⟩
      · simpa [submitter] using h.submit ht
    · have ha : submitter id (now, .operate other operation) = none := by
        cases operation <;> simp [submitter, ho]
      rw [ha]
      refine ⟨q, readable_congr h.readable ?_, h.stored, h.signers, h.required, h.expiresAt,
        by simpa using h.status⟩
      exact (exec_storage kind now other _ storage).1 id ho

theorem Collects.calls {calls : List (Int × Call)} (hc : ∀ call ∈ calls, SignsInTime id p call) :
    ∃ q', Collects kind id p (submitted ++ calls.filterMap (submitter id)) q'
      (storageAfter kind calls storage) := by
  induction calls generalizing submitted q storage with
  | nil => exact ⟨q, by simpa [storageAfter] using h⟩
  | cons call calls ih =>
    obtain ⟨mid, hm⟩ := h.call (hc call mem_cons_self)
    obtain ⟨q', he⟩ := ih hm fun other ho => hc other (mem_cons_of_mem _ ho)
    refine ⟨q', ?_⟩
    have hs : submitted ++ (call :: calls).filterMap (submitter id) =
        submitted ++ (submitter id call).toList ++ calls.filterMap (submitter id) := by
      cases hu : submitter id call <;> simp [hu]
    rw [hs]
    exact he

theorem Collects.approved (he : reaches p.signers.dedup.length p.requiredSignatures = true)
    (ha : ∀ signer ∈ p.signers, signer ∈ submitted) : q.status = .approved := by
  rcases h.status with hp | ⟨-, hl, hs⟩
  · exact hp
  · have hu : p.signers.dedup ⊆ q.signatures.map Prod.fst := by
      intro signer hi
      have hm := mem_dedup.mp hi
      obtain ⟨signature, hg⟩ := Option.isSome_iff_exists.mp (hs signer (ha signer hm) hm)
      exact mem_map.mpr ⟨(signer, signature), Map.mem_of_get hg, rfl⟩
    have hle := (subperm_of_subset (nodup_dedup p.signers) hu).length_le
    rw [length_map] at hle
    rw [h.required] at hl
    exact Bool.noConfusion (hl.symm.trans (reaches_mono he hle))

end

section

variable (h : (perform kind now (.createProposal id input) storage).2 = .ok (.created p))
include h

theorem perform_created : newProposal id now input = .ok p ∧ saveProposal now p storage kind =
        .ok (perform kind now (.createProposal id input) storage).1 := by
  simp only [perform] at h ⊢
  split at h
  · cases h
  · next hn =>
    split at h
    · cases h
    · next hs =>
      cases h
      simp only [hn, hs, and_self]

theorem collects_created (he : reaches p.signers.dedup.length p.requiredSignatures = true) :
    ∃ q, Collects kind id p [] q (perform kind now (.createProposal id input) storage).1 := by
  obtain ⟨hne, ha⟩ := perform_created h
  obtain ⟨stored, deadline, hs, hm, hd, hv⟩ := saveProposal_ok ha
  rw [hv]
  have his := isStored_of_serialize hs
  obtain ⟨hr, rfl⟩ := newProposal_ok hne
  obtain ⟨required, rfl, hb⟩ := serialize_ok hs
  have hc := readable_of_get his
    (Map.get_set_self id _ storage) hm hd
  cases hn : input.requiredSignatures with
  | nan =>
    rw [hn] at he
    cases he
  | infinity =>
    rw [newProposal.outOfRange, hn] at hr
    cases hr
  | finite value =>
    obtain rfl : required = some (.finite value) := hb value (by rw [hn])
    refine ⟨_, hc, his, rfl, by rw [hn], rfl, .inr ⟨rfl, ?_, by simp⟩⟩
    simp only [newProposal.outOfRange, hn, decide_eq_false_iff_not, not_or, not_lt] at hr
    have hz : ¬ (1 : ℚ) ≤ (0 : Nat) := by decide
    exact decide_eq_false fun hl => hz (hr.1.trans hl)

end

end

structure Authorised (kind : StorageKind) (calls : List (Int × Call)) : Prop where
  approved : ∀ id p deadline, Map.get id (storageAfter kind calls []) = some ⟨p, deadline⟩ →
    p.status = .approved ∨ p.status = .executed →
    ∀ required, p.requiredSignatures = some required →
    ∃ who : List String, who.Nodup ∧
      (∀ signer ∈ who, signer ∈ p.signers ∧ SignedInTime kind calls p signer) ∧
      reaches who.length (some required) = true
  slashed : ∀ now id voter p p', Storage.read now id (storageAfter kind calls []) = some p →
    Storage.read now id
      (storageAfter kind (calls ++ [(now, .operate id (.addSlashingVote voter))]) []) = some p' →
    p.status ≠ .rejected → p'.status = .rejected →
    ∃ voters : List String, voters.Nodup ∧ slashingThreshold p' ≤ voters.length ∧
      ∀ other ∈ voters, VotedToSlash kind
        (calls ++ [(now, .operate id (.addSlashingVote voter))]) p' other
  executed : ∀ id p deadline, Map.get id (storageAfter kind calls []) = some ⟨p, deadline⟩ →
    p.status = .executed → ExecutedWhenApproved kind calls p
  approvable : ∀ now id input p,
    (perform kind now (.createProposal id input) (storageAfter kind calls [])).2 =
      .ok (.created p) →
    reaches p.signers.dedup.length p.requiredSignatures = true →
    ∀ later : List (Int × Call), (∀ call ∈ later, SignsInTime id p call) →
    (∀ signer ∈ p.signers, ∃ time signature,
      (time, .operate id (.submitSignature signer signature)) ∈ later) →
    ∀ time, isPast time p.expiresAt = false →
    ∃ q, Storage.read time id
      (storageAfter kind (calls ++ (now, .createProposal id input) :: later) []) = some q ∧
      q.status = .approved

theorem Outcome.slashed_threshold {now : Int} {p p' : MultisigProposal} {voter : String}
    {result : Except String Reply} (h : Outcome now p (.addSlashingVote voter) p' result)
    (hb : p.status ≠ .rejected) (ha : p'.status = .rejected) :
    slashingThreshold p' ≤ p'.slashingVotes.length := by
  have he : (expire now p).status ≠ .rejected := by
    unfold expire
    split
    · simp
    · exact hb
  cases h with
  | kept => exact absurd ha he
  | ignored => exact absurd ha hb
  | voted => exact absurd ha he
  | slashed hv ht => simpa [withVote, slashingThreshold] using ht

theorem multisig_authorised (kind : StorageKind) (calls : List (Int × Call)) :
    Authorised kind calls where
  approved id p deadline hg hs required hd := by
    have ho := ok_calls kind calls id _ hg
    refine ⟨p.signatures.map Prod.fst, ho.distinct, ho.signed, ?_⟩
    rw [length_map, ← hd]
    exact ho.enough hs
  slashed now id voter p p' hr hr' hb ha := by
    obtain ⟨deadline, hg⟩ := get_of_read hr'
    have ho := ok_calls kind _ id _ hg
    refine ⟨p'.slashingVotes, ho.voters, ?_, ho.voted⟩
    rw [storageAfter_snoc] at hg hr'
    obtain ⟨-, hi | ⟨found, written, hf, hw, -, hu⟩⟩ :=
      @get_perform_operate kind id now (storageAfter kind calls []) (.addSlashingVote voter)
        fun entry hn => (ok_calls kind calls id entry hn).stored
    · have hEq : Storage.read now id (storageAfter kind calls []) = some p' := by
        rw [Storage.read, ← hi]
        exact hr'
      cases hr.symm.trans hEq
      exact absurd ha hb
    · cases hr.symm.trans hf
      cases hg.symm.trans hw
      exact hu.slashed_threshold hb ha
  executed id p deadline hg hs := (ok_calls kind calls id _ hg).executed hs
  approvable now id input p hc hj later hl hk time ht := by
    rw [storageAfter_append]
    obtain ⟨created, hp⟩ := collects_created hc hj
    obtain ⟨q, he⟩ := hp.calls hl
    refine ⟨q, he.readable time (he.expiresAt ▸ ht), he.approved hj ?_⟩
    intro signer hq
    obtain ⟨when, signature, hm⟩ := hk signer hq
    exact mem_filterMap.mpr ⟨_, hm, if_pos rfl⟩

def twoSigners (signers : List String) : MultisigInput where
  signers := signers
  requiredSignatures := 2
  action := "slash_validator"
  payload := none
  ttlMs := 1000

def operations (id : String) (timed : List (Int × Operation)) : List (Int × Call) :=
  timed.map fun entry => (entry.1, .operate id entry.2)

def status (id : String) (storage : Storage) : Option MultisigStatus :=
  (Map.get id storage).map fun entry => entry.proposal.status

theorem multisig_authorised_twoSigners :
    Authorised .redis ((0, .createProposal "p1" (twoSigners ["ada", "bob", "eve"])) ::
      operations "p1" [(1, .submitSignature "ada" "a1"), (2, .submitSignature "bob" "b1"),
        (3, .executeProposal)]) ∧
    status "p1" (storageAfter .redis
      ((0, .createProposal "p1" (twoSigners ["ada", "bob", "eve"])) ::
        operations "p1" [(1, .submitSignature "ada" "a1"), (2, .submitSignature "bob" "b1"),
          (3, .executeProposal)]) []) = some .executed :=
  ⟨multisig_authorised _ _, by decide +kernel⟩

/-- Two votes of others than the signers reject a proposal; an approved one is executed after its
expiration; one with a repeated signer cannot be approved; and Redis makes of a required number that
is not a number one that a single signature reaches. -/
theorem authorisation_gaps :
    (storageAfter .inMemory ((0, .createProposal "p1" (twoSigners ["ada", "bob", "eve"])) ::
        operations "p1" [(1, .addSlashingVote "mallory"), (2, .addSlashingVote "oscar")]) []).map
      (fun entry => (entry.2.proposal.status, entry.2.proposal.slashingVotes)) =
      [(.rejected, ["mallory", "oscar"])] ∧
    (storageAfter .inMemory ((0, .createProposal "p1" (twoSigners ["ada", "bob", "eve"])) ::
        operations "p1" [(1, .submitSignature "ada" "a1"),
          (2, .submitSignature "bob" "b1")]) []).map
      (fun entry => (entry.2.proposal.status, isPast 5000 entry.2.proposal.expiresAt)) =
      [(.approved, true)] ∧
    status "p1" (storageAfter .inMemory
      ((0, .createProposal "p1" (twoSigners ["ada", "bob", "eve"])) ::
        operations "p1" [(1, .submitSignature "ada" "a1"), (2, .submitSignature "bob" "b1"),
          (5000, .executeProposal)]) []) = some .executed ∧
    status "p1" (storageAfter .inMemory ((0, .createProposal "p1" (twoSigners ["ada", "ada"])) ::
        operations "p1" [(1, .submitSignature "ada" "a1"), (2, .submitSignature "ada" "a2")]) []) =
      some .pending ∧
    (storageAfter .redis ((0, .createProposal "p1"
          { twoSigners ["ada", "bob", "eve"] with requiredSignatures := .nan }) ::
        operations "p1" [(1, .submitSignature "ada" "a1")]) []).map
      (fun entry => (entry.2.proposal.status, entry.2.proposal.signatures)) =
      [(.approved, [("ada", "a1")])] := by
  decide +kernel

end Credence.Governance
