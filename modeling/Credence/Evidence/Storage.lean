import Credence.Crypto.Aead
import Credence.Js.Buffer
import Credence.Js.Text
import Credence.Keys.KekManager

/-! The evidence store with envelope encryption: the data under a key of its own, and that key under
the current key encryption key. -/

namespace Credence.Evidence

open Crypto Js Keys ProofKit List

/-- The source keeps the bytes as hexadecimal texts. -/
structure EvidenceRecord where
  evidenceId : String
  encryptedBlob : List UInt8
  iv : List UInt8
  authTag : List UInt8
  wrappedDek : List UInt8
  wrappedDekIv : List UInt8
  wrappedDekAuthTag : List UInt8
  uploaderId : String
  tenantId : String
  createdAt : Int
  kekVersion : Nat
  deletedAt : Option Int
  legalHold : Bool
  shreddedAt : Option Int
  deriving DecidableEq

inductive Role where
  | user
  | arbitrator
  | governance
  deriving DecidableEq

abbrev EvidenceDb := List (String × EvidenceRecord)

/-- The key manager, and the bytes of `EVIDENCE_ENCRYPTION_KEY` when it is set. -/
structure KeySource where
  manager : KekManager
  secret : Option (List UInt8)

namespace KeySource

def secretKey (keys : KeySource) : Except String (List UInt8) :=
  match keys.secret with
  | some secret =>
    if secret.length ≠ 32 then .error "EVIDENCE_ENCRYPTION_KEY must be exactly 32 bytes long."
    else .ok secret
  | none => .error "EVIDENCE_ENCRYPTION_KEY must be exactly 32 bytes long."

def getKey (version : Nat) (keys : KeySource) : Except String (List UInt8) :=
  match Map.get version keys.manager.versions with
  | some kek => .ok kek.keyMaterial
  | none => keys.secretKey

def getCurrentKey (keys : KeySource) : Except String (List UInt8 × Nat) :=
  match keys.manager.getCurrentKek with
  | .ok kek => .ok (kek.keyMaterial, kek.version)
  | .error _ => keys.secretKey.map fun secret => (secret, 1)

theorem getKey_current {keys : KeySource} (h : keys.manager.Ok) {kek : KekVersion}
    (hc : keys.manager.getCurrentKek = .ok kek) :
    keys.getKey kek.version = .ok kek.keyMaterial := by
  rw [KekManager.getCurrentKek] at hc
  split at hc
  · cases hc
  · split at hc <;> cases hc
    next hg =>
    rw [getKey, (h.keys _ kek hg).1, hg]

end KeySource

def validateId (id : String) : Except String Unit :=
  if id.toList = [] ∨ trim id.toList = [] ∨ id.toList.any isWhiteSpace then
    .error "Invalid evidence id"
  else .ok ()

structure Upload where
  evidenceId : String
  rawData : String
  uploaderId : String
  tenantId : String
  dek : List UInt8
  dataIv : List UInt8
  wrapIv : List UInt8
  now : Int

def Upload.record (aead : Aead) (kek : List UInt8) (version : Nat) (u : Upload) : EvidenceRecord :=
  let data := aead.encrypt u.dek u.dataIv u.rawData
  let wrapped := aead.encrypt kek u.wrapIv (Buffer.toHex u.dek)
  { evidenceId := u.evidenceId
    encryptedBlob := data.ciphertext
    iv := u.dataIv
    authTag := data.tag
    wrappedDek := wrapped.ciphertext
    wrappedDekIv := u.wrapIv
    wrappedDekAuthTag := wrapped.tag
    uploaderId := u.uploaderId
    tenantId := u.tenantId
    createdAt := u.now
    kekVersion := version
    deletedAt := none
    legalHold := false
    shreddedAt := none }

def uploadEvidence (aead : Aead) (keys : KeySource) (u : Upload) (db : EvidenceDb) :
    Except String (EvidenceRecord × EvidenceDb) := do
  validateId u.evidenceId
  if (Map.get u.evidenceId db).isSome then .error "Evidence already exists"
  else
    let (kek, version) ← keys.getCurrentKey
    let record := u.record aead kek version
    .ok (record, Map.set u.evidenceId record db)

def enforceAccessControl (role : Role) : Except String Unit :=
  if role ∈ [Role.arbitrator, .governance] then .ok ()
  else .error "Unauthorized: Insufficient role permissions"

def findRecord (evidenceId : String) (db : EvidenceDb) : Except String EvidenceRecord :=
  match Map.get evidenceId db with
  | none => .error "Evidence not found"
  | some record => .ok record

/-- `createDecipheriv`, `setAuthTag`, `update` and `final`. -/
def decipher (aead : Aead) (key iv : List UInt8) (c : Sealed) : Except String String :=
  match aead.decrypt key iv c with
  | none => .error "Unsupported state or unable to authenticate data"
  | some text => .ok text

def openRecord (aead : Aead) (keys : KeySource) (record : EvidenceRecord) :
    Except String String := do
  let kek ← keys.getKey record.kekVersion
  let dekHex ← decipher aead kek record.wrappedDekIv ⟨record.wrappedDek, record.wrappedDekAuthTag⟩
  decipher aead (Buffer.ofHex dekHex) record.iv ⟨record.encryptedBlob, record.authTag⟩

def retrieveEvidence (aead : Aead) (keys : KeySource) (role : Role) (evidenceId : String)
    (db : EvidenceDb) : Except String String := do
  validateId evidenceId
  enforceAccessControl role
  let record ← findRecord evidenceId db
  if record.shreddedAt.isSome then .error "Evidence has been shredded"
  else openRecord aead keys record

def uploadAll (aead : Aead) (keys : KeySource) : List Upload → EvidenceDb → Except String EvidenceDb
  | [], db => .ok db
  | u :: uploads, db => do
    let (_, db) ← uploadEvidence aead keys u db
    uploadAll aead keys uploads db

variable {aead : Aead} {keys : KeySource} {kek : List UInt8} {version : Nat}

variable {u : Upload} {db db' : EvidenceDb} {record : EvidenceRecord} {uploads : List Upload}
  {role : Role}

theorem uploadEvidence_ok (h : uploadEvidence aead keys u db = .ok (record, db')) :
    validateId u.evidenceId = .ok () ∧ Map.get u.evidenceId db = none ∧
      db' = Map.set u.evidenceId record db ∧
      ∃ kek version, keys.getCurrentKey = .ok (kek, version) ∧
        record = u.record aead kek version := by
  rw [uploadEvidence] at h
  obtain ⟨checked, hi, h⟩ := ok_of_bind h
  split at h
  · cases h
  · next hn =>
    obtain ⟨current, hk, h⟩ := ok_of_bind h
    cases h
    exact ⟨hi, by simpa using hn, rfl, current.1, current.2, hk, rfl⟩

/-- The table has the records of the uploads and no others. -/
structure Stored (aead : Aead) (kek : List UInt8) (version : Nat) (uploads : List Upload)
    (db : EvidenceDb) : Prop where
  nodup : Map.Nodup db
  valid : ∀ u ∈ uploads, validateId u.evidenceId = .ok ()
  found : ∀ u ∈ uploads, Map.get u.evidenceId db = some (u.record aead kek version)
  only : ∀ id record, Map.get id db = some record →
    ∃ u ∈ uploads, u.evidenceId = id ∧ record = u.record aead kek version

theorem Stored.empty : Stored aead kek version [] [] := by
  refine ⟨nodup_nil, ?_, ?_, ?_⟩
  · intro u hu
    cases hu
  · intro u hu
    cases hu
  · intro id record h
    cases h

theorem Stored.uploadEvidence (hk : keys.getCurrentKey = .ok (kek, version))
    (hd : Stored aead kek version uploads db)
    (h : uploadEvidence aead keys u db = .ok (record, db')) :
    Stored aead kek version (uploads ++ [u]) db' := by
  obtain ⟨hi, hn, rfl, kek', version', hk', rfl⟩ := uploadEvidence_ok h
  cases hk.symm.trans hk'
  refine ⟨Map.nodup_set _ _ hd.nodup, ?_, ?_, ?_⟩
  · intro v hv
    rcases mem_append.mp hv with hv | hv
    · exact hd.valid v hv
    · exact mem_singleton.mp hv ▸ hi
  · intro v hv
    rw [Map.get_set]
    rcases mem_append.mp hv with hv | hv
    · have hf := hd.found v hv
      have hNe : u.evidenceId ≠ v.evidenceId := by
        intro he
        rw [← he, hn] at hf
        cases hf
      rw [if_neg hNe, hf]
    · rw [mem_singleton.mp hv, if_pos rfl]
  · intro id record hg
    rcases Map.get_of_set hg with ⟨he, rfl⟩ | hf
    · exact ⟨u, mem_append_right _ mem_cons_self, he, rfl⟩
    · obtain ⟨v, hv, hr⟩ := hd.only id record hf
      exact ⟨v, mem_append_left _ hv, hr⟩

theorem Stored.uploadAll {before : List Upload} (hk : keys.getCurrentKey = .ok (kek, version))
    (hd : Stored aead kek version before db) (h : uploadAll aead keys uploads db = .ok db') :
    Stored aead kek version (before ++ uploads) db' := by
  induction uploads generalizing before db with
  | nil =>
    cases h
    rwa [append_nil]
  | cons u uploads ih =>
    rw [Evidence.uploadAll] at h
    obtain ⟨result, hu, h⟩ := ok_of_bind h
    rw [append_cons]
    exact ih (hd.uploadEvidence hk hu) h

theorem openRecord_record (u : Upload) (hk : keys.getKey version = .ok kek) :
    openRecord aead keys (u.record aead kek version) = .ok u.rawData := by
  rw [openRecord]
  simp only [Upload.record, hk, bind, Except.bind, decipher, aead.decrypt_encrypt,
    Buffer.ofHex_toHex]

theorem openRecord_other {other : List UInt8}
    (hd : record.wrappedDek = (u.record aead kek version).wrappedDek)
    (hi : record.wrappedDekIv = (u.record aead kek version).wrappedDekIv)
    (ht : record.wrappedDekAuthTag = (u.record aead kek version).wrappedDekAuthTag)
    (hk : keys.getKey record.kekVersion = .ok other) (ho : other ≠ kek) :
    openRecord aead keys record = .error "Unsupported state or unable to authenticate data" := by
  rw [openRecord, hk]
  simp only [bind, Except.bind, hd, hi, ht, Upload.record, decipher, aead.decrypt_other ho]

theorem retrieveEvidence_eq {id : String} (hi : validateId id = .ok ())
    (hr : enforceAccessControl role = .ok ()) (hg : Map.get id db = some record)
    (hs : record.shreddedAt = none) :
    retrieveEvidence aead keys role id db = openRecord aead keys record := by
  simp [retrieveEvidence, findRecord, hi, hr, hg, hs, bind, Except.bind]

end Credence.Evidence
