import Credence.Crypto.Sha256
import Credence.Js.JsonRoundTrip
import Credence.Js.Number
import Mathlib.Data.List.Sort

/-! Verification proofs: `createProof`, `signProof` and `verifySignedProofStrict` over any signature
scheme. `round` rounds a result to a number, and `text` is the decimal text of a finite one. -/

namespace Credence.Verification

open Js Crypto

structure BondSnapshot where
  address : String
  bondedAmount : String
  bondStart : Option Number
  bondDuration : Option Number
  active : Bool
  deriving DecidableEq

structure AttestationSummary where
  count : Number
  hash : String
  deriving DecidableEq

/-- The fields of a proof that go into its canonical text. -/
structure ProofData where
  address : String
  score : Number
  bondSnapshot : BondSnapshot
  attestationSummary : AttestationSummary
  timestamp : Number
  deriving DecidableEq

structure VerificationProof extends ProofData where
  expiresAt : Option Number
  canonical : String
  hash : String
  deriving DecidableEq

structure SignedVerificationProof extends VerificationProof where
  signature : String
  deriving DecidableEq

/-- The proofs have the same address, score, snapshot, summary, timestamp and expiry. -/
def SameContent (a b : SignedVerificationProof) : Prop :=
  a.toProofData = b.toProofData ∧ a.expiresAt = b.expiresAt

instance (a b : SignedVerificationProof) : Decidable (SameContent a b) :=
  inferInstanceAs (Decidable (_ ∧ _))

variable (round : ℚ → Number) (text : ℚ → JsNumber)

def numberJson : Number → Json
  | .finite q => .num (text q)
  | .nan | .infinity _ => .null

def numberString : Number → String
  | .finite q => String.ofList (text q).text
  | .nan => "NaN"
  | .infinity true => "-Infinity"
  | .infinity false => "Infinity"

def BondSnapshot.toJson (snapshot : BondSnapshot) : Json :=
  .obj [("address", .str snapshot.address), ("bondedAmount", .str snapshot.bondedAmount),
    ("bondStart", (snapshot.bondStart.map (numberJson text)).getD .null),
    ("bondDuration", (snapshot.bondDuration.map (numberJson text)).getD .null),
    ("active", .bool snapshot.active)]

def AttestationSummary.toJson (summary : AttestationSummary) : Json :=
  .obj [("count", numberJson text summary.count), ("hash", .str summary.hash)]

def ProofData.props (data : ProofData) : List (String × Json) :=
  [("address", .str data.address), ("score", numberJson text data.score),
    ("bondSnapshot", data.bondSnapshot.toJson text),
    ("attestationSummary", data.attestationSummary.toJson text),
    ("timestamp", numberJson text data.timestamp)]

/-- The order of `sort`, which compares code units. -/
def sortsBefore : List Char → List Char → Bool
  | [], _ => true
  | _ :: _, [] => false
  | a :: as, b :: bs => a.toNat < b.toNat || a.toNat == b.toNat && sortsBefore as bs

def sortedKeys (props : List (String × Json)) : List String :=
  (props.map Prod.fst).insertionSort fun a b => sortsBefore a.toList b.toList = true

def buildCanonical (props : List (String × Json)) : String :=
  (Json.restrict (sortedKeys props) (.obj props)).stringify

def times (k : ℚ) : Number → Number
  | .finite q => round (q * k)
  | n => n

def plus (k : ℚ) : Number → Number
  | .finite q => round (k + q)
  | n => n

/-- A number that JavaScript takes for true: there, not zero and not `NaN`. -/
def truthy (n : Option Number) : Option Number := n.filter fun n => n ≠ 0 ∧ n ≠ .nan

variable (hash : TextHash)

structure CreateProof where
  address : String
  score : Number
  bondSnapshot : BondSnapshot
  attestationCount : Number
  expiryMinutes : Option Number
  now : Int
  deriving DecidableEq

def createProof (args : CreateProof) : VerificationProof :=
  let data : ProofData :=
    { address := args.address
      score := args.score
      bondSnapshot := args.bondSnapshot
      attestationSummary :=
        ⟨args.attestationCount, hash.digest (numberString text args.attestationCount)⟩
      timestamp := .finite args.now }
  let canonical := buildCanonical (data.props text)
  { toProofData := data
    expiresAt := (truthy args.expiryMinutes).map fun minutes =>
      plus round args.now (times round 1000 (times round 60 minutes))
    canonical
    hash := hash.digest canonical }

def signProof (sign : String → String) (proof : VerificationProof) : SignedVerificationProof :=
  { proof with signature := sign proof.canonical }

inductive InvalidReason where
  | expired
  | badSignature
  | hashMismatch
  deriving DecidableEq, Repr

structure StrictResult where
  valid : Bool
  reason : Option InvalidReason
  deriving DecidableEq, Repr

def verifyProofHash (proof : VerificationProof) : Bool :=
  hash.digest (buildCanonical (proof.toProofData.props text)) = proof.hash

/-- The check of the signature; `verify` has no result where it throws. -/
def verifySignedProof (verify : String → String → Option Bool) (proof : SignedVerificationProof) :
    Bool :=
  (verify proof.canonical proof.signature).getD false

def exceeds (now : Int) : Number → Bool
  | .finite q => q < now
  | .nan => false
  | .infinity negative => negative

def isExpired (now : Int) (proof : VerificationProof) : Bool :=
  match truthy proof.expiresAt with
  | none => false
  | some expiresAt => exceeds now expiresAt

def verifySignedProofStrict (verify : String → String → Option Bool) (now : Int)
    (proof : SignedVerificationProof) : StrictResult :=
  if isExpired now proof.toVerificationProof then ⟨false, some .expired⟩
  else if !verifyProofHash text hash proof.toVerificationProof then ⟨false, some .hashMismatch⟩
  else if !verifySignedProof verify proof then ⟨false, some .badSignature⟩
  else ⟨true, none⟩

end Credence.Verification
