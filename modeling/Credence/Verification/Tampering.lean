import Credence.Verification.Proofs
import Mathlib.Data.Fintype.EquivFin

/-! What an accepted proof says about the proofs that were signed. The list of names that
`buildCanonical` gives to `JSON.stringify` applies at every depth, and nothing compares the text of
the fields with the signed text. -/

namespace Credence.Verification

open Js Crypto

section

variable (round : ℚ → Number) (text : ℚ → JsNumber) (hash : TextHash) (sign : String → String)
  (verify : String → String → Option Bool)

theorem strict_valid_iff (now : Int) (p : SignedVerificationProof) :
    (verifySignedProofStrict text hash verify now p).valid = true ↔
      isExpired now p.toVerificationProof = false ∧
        hash.digest (buildCanonical (p.props text)) = p.hash ∧
        verify p.canonical p.signature = some true := by
  have hv : verifySignedProof verify p = true ↔ verify p.canonical p.signature = some true := by
    rw [verifySignedProof]
    cases verify p.canonical p.signature with
    | none => simp
    | some => simp
  rw [← hv, verifySignedProofStrict, verifyProofHash]
  cases isExpired now p.toVerificationProof with
  | true => simp
  | false =>
    by_cases hh : hash.digest (buildCanonical (p.props text)) = p.hash
    · cases verifySignedProof verify p <;> simp [hh]
    · simp [hh]

def issue (args : CreateProof) : SignedVerificationProof :=
  signProof sign (createProof round text hash args)

/-- The public key accepts the signatures of the issued proofs, and no signature on a text that was
not signed. -/
structure Unforgeable (issued : List CreateProof) : Prop where
  accepts : ∀ args ∈ issued, verify (issue round text hash sign args).canonical
    (issue round text hash sign args).signature = some true
  onlySigned : ∀ message signature, verify message signature = some true →
    ∃ args ∈ issued, (issue round text hash sign args).canonical = message

/-- Whatever is accepted, at any time, has the content of an issued proof. -/
def Sound (issued : List CreateProof) : Prop :=
  ∀ now p, (verifySignedProofStrict text hash verify now p).valid = true →
    ∃ args ∈ issued, SameContent (issue round text hash sign args) p

/-- Another address under the canonical text and the signature of a signed proof. -/
def readdress (p : SignedVerificationProof) (address : String) : SignedVerificationProof := { p with
    address
    expiresAt := none
    hash := hash.digest (buildCanonical (ProofData.props text { p.toProofData with address })) }

variable {verify} in
theorem readdress_valid {p : SignedVerificationProof}
    (hv : verify p.canonical p.signature = some true) (address : String) (now : Int) :
    (verifySignedProofStrict text hash verify now (readdress text hash p address)).valid = true :=
  (strict_valid_iff text hash verify now _).mpr ⟨rfl, rfl, hv⟩

theorem exists_fresh_address (issued : List CreateProof) :
    ∃ address, ∀ args ∈ issued, args.address ≠ address := by
  obtain ⟨address, hf⟩ := Infinite.exists_notMem_finset (issued.map CreateProof.address).toFinset
  refine ⟨address, fun args ha hs => hf ?_⟩
  rw [List.mem_toFinset]
  exact List.mem_map.mpr ⟨args, ha, hs⟩

variable {round text hash sign verify}

/-- Acceptance says something about the issued proofs only while there are none. -/
theorem sound_iff_none_issued {issued : List CreateProof}
    (h : Unforgeable round text hash sign verify issued) :
    Sound round text hash sign verify issued ↔ issued = [] := by
  constructor
  · intro hs
    by_contra hb
    obtain ⟨args, rest, hi⟩ := List.exists_cons_of_ne_nil hb
    have ha : args ∈ issued := by simp [hi]
    obtain ⟨address, hf⟩ := exists_fresh_address issued
    obtain ⟨other, ho, hc, -⟩ := hs 0 _
      (readdress_valid text hash (h.accepts args ha) address 0)
    exact hf other ho (congrArg ProofData.address hc)
  · rintro rfl now p hv
    obtain ⟨-, -, he⟩ := (strict_valid_iff text hash verify now p).mp hv
    obtain ⟨args, ha, -⟩ := h.onlySigned _ _ he
    exact (List.not_mem_nil ha).elim

end

def integerText (q : ℚ) : JsNumber := .ofInt q.num

def oneProof : CreateProof :=
  { address := "GA7QYNF7"
    score := 50
    bondSnapshot := ⟨"GA7QYNF7", "1000", some 1700000000000, some 86400000, true⟩
    attestationCount := 3
    expiryMinutes := some 60
    now := 1700000000000 }

def oneIssued : SignedVerificationProof := issue .finite integerText sha256Hash id oneProof

def onlyOne (message signature : String) : Option Bool :=
  some (message = oneIssued.canonical ∧ signature = message)

theorem onlyOne_unforgeable : Unforgeable .finite integerText sha256Hash id onlyOne [oneProof] := by
  refine ⟨fun args ha => ?_, fun message signature hv => ⟨oneProof, by simp, ?_⟩⟩
  · obtain rfl := List.mem_singleton.mp ha
    exact congrArg some (decide_eq_true ⟨rfl, rfl⟩)
  · exact (of_decide_eq_true (Option.some.inj hv)).1.symm

theorem sound_iff_none_issued_oneProof :
    Unforgeable .finite integerText sha256Hash id onlyOne [oneProof] ∧
      (Sound .finite integerText sha256Hash id onlyOne [oneProof] ↔ [oneProof] = []) :=
  ⟨onlyOne_unforgeable, sound_iff_none_issued onlyOne_unforgeable⟩

def raised : SignedVerificationProof := { oneIssued with
    score := 100
    expiresAt := none
    hash := sha256Hash.digest
      (buildCanonical (ProofData.props integerText { oneIssued.toProofData with score := 100 })) }

/-- The altered proof is accepted, also after the expiry of the signed one. -/
theorem raised_score_accepted :
    verifySignedProofStrict integerText sha256Hash onlyOne 1800000000000 raised = ⟨true, none⟩ ∧
      verifySignedProofStrict integerText sha256Hash onlyOne 1800000000000 oneIssued =
        ⟨false, some .expired⟩ ∧
      ¬ SameContent oneIssued raised := by
  refine ⟨by decide +kernel, by decide +kernel, fun hs => ?_⟩
  exact absurd (congrArg ProofData.score hs.1) (by decide +kernel)

end Credence.Verification
