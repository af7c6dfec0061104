import Credence.Evidence.Storage

/-! The worker that moves evidence to a new key encryption key. It decrypts the data itself with
the old one and never touches the wrapped key. -/

namespace Credence.Evidence

open Crypto Js Keys ProofKit List

structure RotationError where
  evidenceId : String
  message : String
  kekVersion : Nat
  deriving DecidableEq

/-- The worker's options and the arguments of a run; `newIv` has the random bytes for each record by
its place. -/
structure Job where
  aead : Aead
  newIv : Nat → List UInt8
  batchSize : Nat
  maxErrors : Nat
  oldKek : KekVersion
  newKek : KekVersion

/-- `signal` counts the reads of an abort signal that still return `false`, and is `none` when there
is no signal or it is never aborted. -/
structure Progress where
  db : EvidenceDb
  reencrypted : Nat
  skipped : Nat
  failed : Nat
  errors : List RotationError
  interrupted : Bool
  signal : Option Nat

structure RotationResult where
  total : Nat
  reencrypted : Nat
  skipped : Nat
  failed : Nat
  newVersion : Nat
  oldVersion : Nat
  interrupted : Bool
  errors : List RotationError

def isValidRecord (record : EvidenceRecord) : Bool :=
  record.evidenceId.toList ≠ [] ∧ record.encryptedBlob ≠ [] ∧ record.iv ≠ [] ∧ record.authTag ≠ []

def reencryptRecord (aead : Aead) (newIv : List UInt8) (oldKek newKek : KekVersion)
    (record : EvidenceRecord) : Except String EvidenceRecord := do
  if isValidRecord record then
    let plaintext ←
      decipher aead oldKek.keyMaterial record.iv ⟨record.encryptedBlob, record.authTag⟩
    if plaintext.toList = [] then
      .error s!"Empty plaintext after decryption for {record.evidenceId}"
    else
      let c := aead.encrypt newKek.keyMaterial newIv plaintext
      if c.ciphertext = [] ∨ c.tag = [] then
        .error s!"Re-encryption produced empty output for {record.evidenceId}"
      else
        .ok { record with
          encryptedBlob := c.ciphertext
          iv := newIv
          authTag := c.tag
          kekVersion := newKek.version }
  else .error s!"Invalid record for re-encryption: {record.evidenceId}"

def listPage (offset limit : Nat) (db : EvidenceDb) : List EvidenceRecord :=
  ((db.map Prod.snd).drop offset).take limit

namespace Progress

def start (signal : Option Nat) (db : EvidenceDb) : Progress := ⟨db, 0, 0, 0, [], false, signal⟩

def aborted (s : Progress) : Bool := s.signal = some 0

def read (s : Progress) : Progress := { s with signal := s.signal.map (· - 1) }

def interrupt (s : Progress) : Progress := { s with interrupted := true }

def skip (s : Progress) : Progress := { s with skipped := s.skipped + 1 }

def fail (maxErrors : Nat) (record : EvidenceRecord) (message : String) (s : Progress) : Progress :=
  { s with
    failed := s.failed + 1
    errors := if s.errors.length < maxErrors then
      s.errors ++ [⟨record.evidenceId, message, record.kekVersion⟩] else s.errors }

def update (record : EvidenceRecord) (s : Progress) : Progress :=
  { s with db := Map.set record.evidenceId record s.db, reencrypted := s.reencrypted + 1 }

end Progress

namespace Job

def processRecord (job : Job) (record : EvidenceRecord) (s : Progress) : Progress :=
  if record.kekVersion = job.newKek.version then s.skip
  else if record.kekVersion ≠ job.oldKek.version then s.skip
  else if isValidRecord record then
    match reencryptRecord job.aead (job.newIv (s.reencrypted + s.skipped + s.failed))
        job.oldKek job.newKek record with
    | .ok moved => s.update moved
    | .error message => s.fail job.maxErrors record message
  else s.fail job.maxErrors record s!"Invalid record shape for {record.evidenceId}"

def processPage (job : Job) : List EvidenceRecord → Progress → Progress
  | [], s => s
  | record :: page, s =>
    if s.aborted then s.interrupt else processPage job page (job.processRecord record s.read)

/-- The pages from an offset on; `none` when there are more than the given number. -/
def runPages (job : Job) : Nat → Nat → Progress → Option Progress
  | 0, _, _ => none
  | pages + 1, offset, s =>
    if s.aborted then some s.interrupt
    else
      let page := listPage offset job.batchSize s.db
      if page = [] then some s.read
      else
        let s := job.processPage page s.read
        if s.interrupted then some s else runPages job pages (offset + job.batchSize) s

def run (job : Job) (signal : Option Nat) (db : EvidenceDb) :
    Option (RotationResult × EvidenceDb) :=
  (job.runPages (db.length + 1) 0 (.start signal db)).map fun s =>
    (⟨db.length, s.reencrypted, s.skipped, s.failed, job.newKek.version, job.oldKek.version,
      s.interrupted, s.errors⟩, s.db)

end Job

/-- A record as it was, or on the new version with the same wrapped key. -/
structure Kept (newVersion : Nat) (before after : EvidenceRecord) : Prop where
  evidenceId : after.evidenceId = before.evidenceId
  wrappedDek : after.wrappedDek = before.wrappedDek
  wrappedDekIv : after.wrappedDekIv = before.wrappedDekIv
  wrappedDekAuthTag : after.wrappedDekAuthTag = before.wrappedDekAuthTag
  shreddedAt : after.shreddedAt = before.shreddedAt
  version : after.kekVersion = newVersion ∨ after = before

theorem Kept.refl (newVersion : Nat) (record : EvidenceRecord) : Kept newVersion record record :=
  ⟨rfl, rfl, rfl, rfl, rfl, .inr rfl⟩

variable {record : EvidenceRecord} {newVersion : Nat} {db : EvidenceDb}

theorem reencryptRecord_kept {aead : Aead} {newIv : List UInt8} {oldKek newKek : KekVersion}
    {before moved : EvidenceRecord} (hr : Kept newKek.version before record)
    (h : reencryptRecord aead newIv oldKek newKek record = .ok moved) :
    Kept newKek.version before moved := by
  rw [reencryptRecord] at h
  split at h
  · obtain ⟨plaintext, -, h⟩ := ok_of_bind h
    dsimp only at h
    split at h
    · cases h
    · split at h <;> cases h
      exact ⟨hr.evidenceId, hr.wrappedDek, hr.wrappedDekIv,
        hr.wrappedDekAuthTag, hr.shreddedAt, .inl rfl⟩
  · cases h

/-- The same records as at the start, each `Kept`. -/
structure Follows (newVersion : Nat) (start db : EvidenceDb) : Prop where
  nodup : Map.Nodup db
  length : db.length = start.length
  found : ∀ id record, Map.get id start = some record → (Map.get id db).isSome = true
  kept : ∀ id record, Map.get id db = some record →
    record.evidenceId = id ∧ ∃ before, Map.get id start = some before ∧
      Kept newVersion before record

theorem Follows.refl (hn : Map.Nodup db)
    (hk : ∀ id record, Map.get id db = some record → record.evidenceId = id) :
    Follows newVersion db db := by
  refine ⟨hn, rfl, ?_, ?_⟩
  · intro id record h
    rw [h]
    rfl
  · intro id record h
    exact ⟨hk id record h, record, h, .refl newVersion record⟩

def ReadFrom (newVersion : Nat) (start : EvidenceDb) (record : EvidenceRecord) : Prop :=
  ∃ before, Map.get record.evidenceId start = some before ∧ Kept newVersion before record

theorem Follows.readFrom {offset limit : Nat} {start : EvidenceDb} (h : Follows newVersion start db)
    (hm : record ∈ listPage offset limit db) : ReadFrom newVersion start record := by
  have hm := mem_of_mem_drop (mem_of_mem_take hm)
  obtain ⟨entry, he, rfl⟩ := mem_map.mp hm
  obtain ⟨hi, before, hb, hk⟩ := h.kept _ _ (Map.get_of_mem h.nodup he)
  exact ⟨before, hi ▸ hb, hk⟩

namespace Job

variable {job : Job} {start : EvidenceDb} {s : Progress}

theorem processRecord_follows {record : EvidenceRecord} (h : Follows job.newKek.version start s.db)
    (hr : ReadFrom job.newKek.version start record) :
    Follows job.newKek.version start (job.processRecord record s).db := by
  rw [processRecord]
  split
  · exact h
  · split
    · exact h
    · split
      · split
        · next moved hm =>
          obtain ⟨before, hb, hk⟩ := hr
          have hk' := reencryptRecord_kept hk hm
          have hi : moved.evidenceId = record.evidenceId := hk'.evidenceId.trans hk.evidenceId.symm
          have hf := h.found _ _ (hi ▸ hb)
          refine ⟨Map.nodup_set _ _ h.nodup, ?_, ?_, ?_⟩
          · rw [Progress.update, Map.length_set, if_pos hf]
            exact h.length
          · intro id record hg
            rw [Progress.update, Map.get_set]
            split
            · rfl
            · exact h.found id record hg
          · intro id record hg
            rcases Map.get_of_set hg with ⟨he, rfl⟩ | hf
            · exact ⟨he, before, he ▸ hi ▸ hb, hk'⟩
            · exact h.kept id record hf
        · exact h
      · exact h

theorem processPage_follows {page : List EvidenceRecord} (h : Follows job.newKek.version start s.db)
    (hp : ∀ record ∈ page, ReadFrom job.newKek.version start record) :
    Follows job.newKek.version start (job.processPage page s).db := by
  induction page generalizing s with
  | nil => exact h
  | cons record page ih =>
    obtain ⟨hr, hp⟩ := forall_mem_cons.mp hp
    rw [processPage]
    split
    · exact h
    · exact ih (processRecord_follows (s := s.read) h hr) hp

variable {pages offset : Nat}

theorem runPages_follows {s' : Progress} (h : Follows job.newKek.version start s.db)
    (hr : job.runPages pages offset s = some s') : Follows job.newKek.version start s'.db := by
  induction pages generalizing offset s with
  | zero => cases hr
  | succ pages ih =>
    rw [runPages] at hr
    have hp : Follows job.newKek.version start
        (job.processPage (listPage offset job.batchSize s.db) s.read).db :=
      processPage_follows (s := s.read) h fun record hm => h.readFrom hm
    split at hr
    · cases hr
      exact h
    · dsimp only at hr
      split at hr
      · cases hr
        exact h
      · split at hr
        · cases hr
          exact hp
        · exact ih hp hr

theorem runPages_ends (hb : 0 < job.batchSize) (h : Follows job.newKek.version start s.db)
    (hp : start.length - offset < pages) : ∃ s', job.runPages pages offset s = some s' := by
  induction pages generalizing offset s with
  | zero => omega
  | succ pages ih =>
    have hf : Follows job.newKek.version start
        (job.processPage (listPage offset job.batchSize s.db) s.read).db :=
      processPage_follows (s := s.read) h fun record hm => h.readFrom hm
    rw [runPages]
    split
    · exact ⟨_, rfl⟩
    · dsimp only
      split
      · exact ⟨_, rfl⟩
      · next hn =>
        -- A page that is not empty starts within the table, so fewer records are left after it.
        have ho : offset < start.length := by simp_all [listPage, ← h.length]
        split
        · exact ⟨_, rfl⟩
        · exact ih hf (by omega)

end Job

section

def Readable (aead : Aead) (keys : KeySource) (uploads : List Upload) (db : EvidenceDb) : Prop :=
  ∀ u ∈ uploads, ∀ role, enforceAccessControl role = .ok () →
    retrieveEvidence aead keys role u.evidenceId db = .ok u.rawData

/-- A run that was not interrupted has moved every upload, and every upload is read back. -/
structure Completes (job : Job) (keys : KeySource) (uploads : List Upload) (db : EvidenceDb)
    (result : RotationResult) (db' : EvidenceDb) : Prop where
  ran : job.run none db = some (result, db')
  failed : result.failed = 0
  moved : ∀ u ∈ uploads, ∃ record, Map.get u.evidenceId db' = some record ∧
    record.kekVersion = job.newKek.version
  readable : Readable job.aead keys uploads db'

/-- The evidence is readable before and after a run, and a run without interruption moves it all,
also after one that was interrupted. -/
structure KeepsReadable (job : Job) (keys : KeySource) (uploads : List Upload) (db : EvidenceDb) :
    Prop where
  before : Readable job.aead keys uploads db
  uninterrupted : ∃ result db', Completes job keys uploads db result db'
  interrupted : ∀ signal, ∃ result db', job.run (some signal) db = some (result, db') ∧
    Readable job.aead keys uploads db' ∧
    ∃ result' db'', Completes job keys uploads db' result' db''

variable {job : Job} {keys : KeySource} {uploads : List Upload} {db : EvidenceDb}

theorem Stored.follows (h : Stored job.aead job.oldKek.keyMaterial job.oldKek.version uploads db) :
    Follows job.newKek.version db db := by
  refine .refl h.nodup fun id record hg => ?_
  obtain ⟨u, -, hi, rfl⟩ := h.only id record hg
  exact hi

/-- A run ends, interrupted or not, with the same records, each as it was or on the new version
with the key and the mark it had. -/
theorem Job.run_follows (hb : 0 < job.batchSize) (hn : Map.Nodup db)
    (hk : ∀ id record, Map.get id db = some record → record.evidenceId = id) (signal : Option Nat) :
    ∃ result db', job.run signal db = some (result, db') ∧ Follows job.newKek.version db db' := by
  have h : Follows job.newKek.version db db := .refl hn hk
  obtain ⟨s, hr⟩ := runPages_ends (s := .start signal db) hb h (Nat.lt_succ_self _)
  exact ⟨_, _, congrArg (Option.map _) hr, runPages_follows (s := .start signal db) h hr⟩

theorem Job.run_empty (job : Job) (signal : Option Nat) :
    ∃ result, job.run signal [] = some (result, []) ∧ result.failed = 0 := by
  have hp : ∃ s, job.runPages 1 0 (.start signal []) = some s ∧ s.db = [] ∧ s.failed = 0 := by
    rw [runPages]
    split
    · exact ⟨_, rfl, rfl, rfl⟩
    · exact ⟨(Progress.start signal []).read, by simp [listPage, Progress.start], rfl, rfl⟩
  obtain ⟨s, hr, hd, hf⟩ := hp
  refine ⟨⟨0, s.reencrypted, s.skipped, s.failed, job.newKek.version, job.oldKek.version,
    s.interrupted, s.errors⟩, ?_, hf⟩
  rw [run, length_nil, hr, Option.map_some, hd]

theorem not_readable_of_moved (hn : keys.getKey job.newKek.version = .ok job.newKek.keyMaterial)
    (hm : job.newKek.keyMaterial ≠ job.oldKek.keyMaterial)
    (h : Stored job.aead job.oldKek.keyMaterial job.oldKek.version uploads db)
    {u : Upload} (hu : u ∈ uploads) {result : RotationResult} {db' : EvidenceDb}
    (hc : Completes job keys uploads db result db') : False := by
  obtain ⟨s, hp, he⟩ := Option.map_eq_some_iff.mp hc.ran
  cases he
  have hf := Job.runPages_follows (s := .start none db) h.follows hp
  obtain ⟨record, hr, hv⟩ := hc.moved u hu
  obtain ⟨-, before, hb, hk⟩ := hf.kept _ _ hr
  rw [h.found u hu] at hb
  cases hb
  have ha := hc.readable u hu .arbitrator rfl
  rw [retrieveEvidence_eq (h.valid u hu) rfl hr hk.shreddedAt,
    openRecord_other hk.wrappedDek hk.wrappedDekIv hk.wrappedDekAuthTag (hv ▸ hn)
      hm] at ha
  cases ha

/-- Key rotation keeps evidence readable just when there is no evidence. -/
theorem rotation_keeps_readable_iff (job : Job) (uploading keys : KeySource)
    (uploads : List Upload) (db : EvidenceDb)
    (hUploading : uploading.getCurrentKey = .ok (job.oldKek.keyMaterial, job.oldKek.version))
    (hUploads : uploadAll job.aead uploading uploads [] = .ok db)
    (hManager : keys.manager.Ok)
    (hNew : keys.manager.getCurrentKek = .ok job.newKek)
    (hMaterial : job.newKek.keyMaterial ≠ job.oldKek.keyMaterial) :
    KeepsReadable job keys uploads db ↔ uploads = [] := by
  have hs := Stored.empty.uploadAll hUploading hUploads
  rw [nil_append] at hs
  constructor
  · intro hk
    obtain ⟨result, db', hc⟩ := hk.uninterrupted
    refine eq_nil_iff_forall_not_mem.mpr fun u hu => ?_
    exact not_readable_of_moved (KeySource.getKey_current hManager hNew) hMaterial hs hu
      hc
  · rintro rfl
    cases hUploads
    have hr : Readable job.aead keys [] [] := fun u hu => by cases hu
    have hc : ∃ result db', Completes job keys [] [] result db' := by
      obtain ⟨result, ha, hf⟩ := job.run_empty none
      exact ⟨result, [], ha, hf, fun u hu => (by cases hu), hr⟩
    refine ⟨hr, hc, fun signal => ?_⟩
    obtain ⟨result, ha, -⟩ := job.run_empty (some signal)
    exact ⟨result, [], ha, hr, hc⟩

end

def managerAfter (actions : List KekAction) : KekManager :=
  ((ProofKit.run kekStep actions .start).map KekWorld.manager).getD .empty

theorem managerAfter_ok (actions : List KekAction) : (managerAfter actions).Ok := by
  rw [managerAfter]
  cases hr : ProofKit.run kekStep actions .start with
  | none => exact .empty
  | some => exact KekManager.Ok.run hr

def firstVersion : List KekAction := [.registerVersion 1 (replicate 32 7)]

def secondVersion : List KekAction :=
  firstVersion ++ [.registerVersion 2 (replicate 32 9), .approveActivation 3 2 "ada",
    .approveActivation 4 2 "grace", .activateVersion 5 2]

def document : Upload :=
  ⟨"doc-1", "signed statement", "user-1", "default", replicate 32 3, replicate 12 4,
    replicate 12 5, 2⟩

def rotation : Job :=
  ⟨transparent, fun n => replicate 12 (UInt8.ofNat n), 100, 100,
    ⟨1, replicate 32 7, .retired, 1, some 5⟩, ⟨2, replicate 32 9, .active, 2, none⟩⟩

/-- The document, and two records whose data is under the key encryption key itself. -/
def mixed : EvidenceDb :=
  let moved := document.record transparent (replicate 32 7) 1
  let c := transparent.encrypt (replicate 32 7) moved.iv "old statement"
  ["doc-2", "doc-3"].foldl (fun db id => db ++ [(id, { moved with
      evidenceId := id, encryptedBlob := c.ciphertext, authTag := c.tag })]) [("doc-1", moved)]

/-- The run fails on the first record, moves the second and is aborted before the third. -/
theorem Job.run_follows_mixed : ∃ result db', rotation.run (some 3) mixed = some (result, db') ∧
    (result.failed, result.reencrypted, result.interrupted) = (1, 1, true) ∧
    Follows 2 mixed db' := by
  obtain ⟨result, db', hr, hf⟩ := @Job.run_follows rotation mixed (by decide)
    (by simp [Map.Nodup, mixed]) (by grind [Map.get, mixed, Upload.record, document]) (some 3)
  have hc : (rotation.run (some 3) mixed).map (fun answer =>
      (answer.1.failed, answer.1.reencrypted, answer.1.interrupted)) = some (1, 1, true) := by
    decide +kernel
  rw [hr] at hc
  exact ⟨result, db', hr, Option.some.inj hc, hf⟩

theorem rotation_keeps_readable_document : ∃ db,
    uploadAll transparent ⟨managerAfter firstVersion, none⟩ [document] [] = .ok db ∧
      (KeepsReadable rotation ⟨managerAfter secondVersion, none⟩ [document] db ↔
        [document] = []) := by
  have hu : uploadAll transparent ⟨managerAfter firstVersion, none⟩ [document] [] =
      .ok [("doc-1", document.record transparent (replicate 32 7) 1)] := by
    decide +kernel
  exact ⟨_, hu, rotation_keeps_readable_iff rotation ⟨managerAfter firstVersion, none⟩ _ _ _
    (by decide +kernel) hu (managerAfter_ok secondVersion) (by decide +kernel) (by decide)⟩

/-- The document is read before the run, the run fails on it, and it stays on the old version. -/
theorem document_not_rotated :
    (uploadAll transparent ⟨managerAfter firstVersion, none⟩ [document] []).toOption.bind (fun db =>
      (rotation.run none db).map fun (result, db') =>
        ((retrieveEvidence transparent ⟨managerAfter secondVersion, none⟩ .arbitrator "doc-1"
          db).toOption, result.reencrypted, result.failed, result.errors,
          (Map.get "doc-1" db').map EvidenceRecord.kekVersion)) =
    some (some "signed statement", 0, 1,
      [⟨"doc-1", "Unsupported state or unable to authenticate data", 1⟩], some 1) := by
  decide +kernel

end Credence.Evidence
