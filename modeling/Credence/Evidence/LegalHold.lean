import Credence.Evidence.Storage

/-! Crypto-shredding beside legal holds: `cryptoShredEvidence` checks the hold, waits for the
signature of the proof and wipes the record without another check. -/

namespace Credence.Evidence

open Crypto Js ProofKit List

def setLegalHold (evidenceId : String) (hold : Bool) (db : EvidenceDb) :
    Except String EvidenceDb := do
  validateId evidenceId
  let record ← findRecord evidenceId db
  .ok (Map.set evidenceId { record with legalHold := hold } db)

/-- The part of `cryptoShredEvidence` before its first `await`; the result says whether the record
was shredded before. -/
def beginShred (evidenceId : String) (db : EvidenceDb) : Except String Bool := do
  validateId evidenceId
  let record ← findRecord evidenceId db
  if record.legalHold then .error "Evidence is on legal hold and cannot be shredded"
  else .ok record.shreddedAt.isSome

def shred (now : Int) (record : EvidenceRecord) : EvidenceRecord := { record with
    wrappedDek := []
    wrappedDekIv := []
    wrappedDekAuthTag := []
    encryptedBlob := []
    iv := []
    authTag := []
    shreddedAt := some now }

/-- Where a call of `cryptoShredEvidence` is; `again` says that the record was shredded before. -/
inductive Phase where
  | signing (again : Bool)
  | logging (proofJwt : String) (shreddedAt : Int)
  | resolved (proofJwt : String)
  | rejected (message : String)
  deriving DecidableEq

structure ShredCall where
  evidenceId : String
  actorId : String
  phase : Phase

structure ShreddedEntry where
  tenantId : String
  actorId : String
  actorEmail : String
  resourceId : String
  proofJwt : String
  shreddedAt : Int

structure EvidenceWorld where
  db : EvidenceDb
  calls : List ShredCall
  auditLog : List ShreddedEntry

inductive EvidenceAction where
  | upload (keys : KeySource) (u : Upload)
  | setLegalHold (evidenceId : String) (hold : Bool)
  | cryptoShred (evidenceId actorId : String)
  | signed (call : Nat) (proofJwt : String) (now : Int)
  | signingFailed (call : Nat) (message : String)
  | logged (call : Nat)
  | loggingFailed (call : Nat) (message : String)

namespace EvidenceWorld

def start (db : EvidenceDb) : EvidenceWorld := ⟨db, [], []⟩

def setPhase (n : Nat) (call : ShredCall) (phase : Phase) (w : EvidenceWorld) : EvidenceWorld :=
  { w with calls := w.calls.set n { call with phase } }

/-- What follows the signature of a proof: the record is wiped, unless it was before. -/
def afterSigning (logs : Bool) (n : Nat) (call : ShredCall) (again : Bool) (proofJwt : String)
    (now : Int) (w : EvidenceWorld) : Option EvidenceWorld :=
  if again then some (w.setPhase n call (.resolved proofJwt))
  else
    (Map.get call.evidenceId w.db).map fun record =>
      { w.setPhase n call (if logs then .logging proofJwt now else .resolved proofJwt) with
        db := Map.set call.evidenceId (shred now record) w.db }

def afterLogging (n : Nat) (call : ShredCall) (proofJwt : String) (shreddedAt : Int)
    (w : EvidenceWorld) : Option EvidenceWorld :=
  (Map.get call.evidenceId w.db).map fun record =>
    { w.setPhase n call (.resolved proofJwt) with
      auditLog := w.auditLog ++ [⟨record.tenantId, call.actorId, call.actorId ++ "@system.internal",
        call.evidenceId, proofJwt, shreddedAt⟩] }

end EvidenceWorld

/-- One step of some call; `logs` says whether the service has an audit log. -/
def evidenceStep (aead : Aead) (logs : Bool) : EvidenceAction → EvidenceWorld → Option EvidenceWorld
  | .upload keys u, w =>
    match uploadEvidence aead keys u w.db with
    | .ok (_, db) => some { w with db }
    | .error _ => some w
  | .setLegalHold evidenceId hold, w =>
    match setLegalHold evidenceId hold w.db with
    | .ok db => some { w with db }
    | .error _ => some w
  | .cryptoShred evidenceId actorId, w =>
    let phase := match beginShred evidenceId w.db with
      | .ok again => Phase.signing again
      | .error message => .rejected message
    some { w with calls := w.calls ++ [⟨evidenceId, actorId, phase⟩] }
  | .signed n proofJwt now, w =>
    match w.calls[n]? with
    | some ⟨evidenceId, actorId, .signing again⟩ =>
      w.afterSigning logs n ⟨evidenceId, actorId, .signing again⟩ again proofJwt now
    | _ => none
  | .signingFailed n message, w =>
    match w.calls[n]? with
    | some ⟨evidenceId, actorId, .signing again⟩ =>
      some (w.setPhase n ⟨evidenceId, actorId, .signing again⟩ (.rejected message))
    | _ => none
  | .logged n, w =>
    match w.calls[n]? with
    | some ⟨evidenceId, actorId, .logging proofJwt shreddedAt⟩ =>
      w.afterLogging n ⟨evidenceId, actorId, .logging proofJwt shreddedAt⟩ proofJwt shreddedAt
    | _ => none
  | .loggingFailed n message, w =>
    match w.calls[n]? with
    | some ⟨evidenceId, actorId, .logging proofJwt shreddedAt⟩ =>
      some (w.setPhase n ⟨evidenceId, actorId, .logging proofJwt shreddedAt⟩ (.rejected message))
    | _ => none

variable {evidenceId : String} {db : EvidenceDb} {w w' : EvidenceWorld} {action : EvidenceAction}

theorem findRecord_ok {record : EvidenceRecord} (h : findRecord evidenceId db = .ok record) :
    Map.get evidenceId db = some record := by
  rw [findRecord] at h
  split at h
  · cases h
  · next hg =>
    cases h
    exact hg

theorem setLegalHold_ok {hold : Bool} {db' : EvidenceDb}
    (h : setLegalHold evidenceId hold db = .ok db') :
    ∃ record, Map.get evidenceId db = some record ∧
      db' = Map.set evidenceId { record with legalHold := hold } db := by
  rw [setLegalHold] at h
  obtain ⟨-, -, h⟩ := ok_of_bind h
  obtain ⟨record, hf, h⟩ := ok_of_bind h
  cases h
  exact ⟨record, findRecord_ok hf, rfl⟩

theorem beginShred_ok {again : Bool} (h : beginShred evidenceId db = .ok again) :
    ∃ record, Map.get evidenceId db = some record ∧ record.legalHold = false ∧
      record.shreddedAt.isSome = again := by
  rw [beginShred] at h
  obtain ⟨-, -, h⟩ := ok_of_bind h
  obtain ⟨record, hf, h⟩ := ok_of_bind h
  split at h
  · cases h
  · next hh =>
    cases h
    exact ⟨record, findRecord_ok hf, by simpa using hh, rfl⟩

def ShredCall.WillWipe (call : ShredCall) : Prop := call.phase = .signing false

instance (call : ShredCall) : Decidable call.WillWipe := inferInstanceAs (Decidable (_ = _))

inductive EvidenceEffect (w : EvidenceWorld) : EvidenceAction → EvidenceWorld → Prop
  | quiet {action : EvidenceAction} {w' : EvidenceWorld} (hDb : w'.db = w.db)
      (hCalls : ∀ call ∈ w'.calls, call.WillWipe → call ∈ w.calls) : EvidenceEffect w action w'
  | uploaded {keys : KeySource} {u : Upload} {record : EvidenceRecord}
      (hNew : Map.get u.evidenceId w.db = none) :
      EvidenceEffect w (.upload keys u) { w with db := Map.set u.evidenceId record w.db }
  | held {evidenceId : String} {hold : Bool} {record : EvidenceRecord}
      (hFound : Map.get evidenceId w.db = some record) :
      EvidenceEffect w (.setLegalHold evidenceId hold)
        { w with db := Map.set evidenceId { record with legalHold := hold } w.db }
  | began {evidenceId actorId : String} {record : EvidenceRecord} {call : ShredCall}
      (hId : call.evidenceId = evidenceId) (hFound : Map.get evidenceId w.db = some record)
      (hFree : record.legalHold = false) :
      EvidenceEffect w (.cryptoShred evidenceId actorId) { w with calls := w.calls ++ [call] }
  | wiped {n : Nat} {proofJwt : String} {now : Int} {call : ShredCall} {record : EvidenceRecord}
      {phase : Phase} (hCall : call ∈ w.calls) (hWipe : call.WillWipe)
      (hFound : Map.get call.evidenceId w.db = some record) (hPhase : phase ≠ .signing false) :
      EvidenceEffect w (.signed n proofJwt now)
        { w.setPhase n call phase with db := Map.set call.evidenceId (shred now record) w.db }

theorem EvidenceEffect.movedOn {n : Nat} {call : ShredCall} {phase : Phase} (hd : w'.db = w.db)
    (hc : w'.calls = w.calls.set n { call with phase }) (hp : phase ≠ .signing false) :
    EvidenceEffect w action w' := by
  refine .quiet hd fun other hm hw => ?_
  rw [hc] at hm
  rcases mem_or_eq_of_mem_set hm with hm | rfl
  · exact hm
  · exact absurd hw hp

theorem evidenceStep_effect {aead : Aead} {logs : Bool}
    (h : evidenceStep aead logs action w = some w') : EvidenceEffect w action w' := by
  cases action with rw [evidenceStep] at h
  | upload =>
    split at h
    · next record db hu =>
      cases h
      obtain ⟨-, hn, rfl, -⟩ := uploadEvidence_ok hu
      exact .uploaded hn
    · cases h
      exact .quiet rfl fun call hm _ => hm
  | setLegalHold =>
    split at h
    · next hs =>
      cases h
      obtain ⟨record, hf, rfl⟩ := setLegalHold_ok hs
      exact .held hf
    · cases h
      exact .quiet rfl fun call hm _ => hm
  | cryptoShred evidenceId =>
    cases h
    cases hb : beginShred evidenceId w.db with
    | ok =>
      obtain ⟨record, hf, hr, -⟩ := beginShred_ok hb
      exact .began rfl hf hr
    | error =>
      refine .quiet rfl fun call hm hw => ?_
      rcases mem_append.mp hm with hm | hm
      · exact hm
      · cases mem_singleton.mp hm
        cases hw
  | signed =>
    split at h
    · next evidenceId actorId again hc =>
      rw [EvidenceWorld.afterSigning] at h
      split at h
      · cases h
        exact .movedOn rfl rfl (by simp)
      · next ha =>
        obtain ⟨record, hf, rfl⟩ := Option.map_eq_some_iff.mp h
        refine .wiped (mem_of_getElem? hc) ?_ hf ?_
        · simpa [ShredCall.WillWipe] using ha
        · split <;> simp
    · cases h
  | signingFailed n message | loggingFailed n message =>
    split at h
    · cases h
      exact .movedOn rfl rfl (by simp)
    · cases h
  | logged =>
    split at h
    · obtain ⟨record, -, rfl⟩ := Option.map_eq_some_iff.mp h
      exact .movedOn rfl rfl (by simp)
    · cases h

def EvidenceRecord.secrets (record : EvidenceRecord) : List (List UInt8) :=
  [record.wrappedDek, record.wrappedDekIv, record.wrappedDekAuthTag, record.encryptedBlob,
    record.iv, record.authTag]

def HoldKept (db db' : EvidenceDb) : Prop :=
  ∀ id record, Map.get id db = some record → record.legalHold = true →
    ∃ record', Map.get id db' = some record' ∧ record'.secrets = record.secrets

def EvidenceWorld.Free (w : EvidenceWorld) : Prop :=
  ∀ call ∈ w.calls, call.WillWipe →
    ∃ record, Map.get call.evidenceId w.db = some record ∧ record.legalHold = false

/-- A hold is not set on a record while the proof of its erasure is being signed. -/
def holdsInTime (action : EvidenceAction) (w : EvidenceWorld) : Bool :=
  match action with
  | .setLegalHold evidenceId true =>
    w.calls.all fun call => call.evidenceId ≠ evidenceId ∨ ¬call.WillWipe
  | _ => true

def HoldsInTime (action : EvidenceAction) (w : EvidenceWorld) : Prop := holdsInTime action w = true

instance (action : EvidenceAction) (w : EvidenceWorld) : Decidable (HoldsInTime action w) :=
  inferInstanceAs (Decidable (_ = true))

section

variable {aead : Aead} {logs : Bool} {action : EvidenceAction} {w w' : EvidenceWorld}

theorem EvidenceWorld.Free.step (h : w.Free) (hOk : HoldsInTime action w)
    (hs : evidenceStep aead logs action w = some w') : w'.Free := by
  cases evidenceStep_effect hs with
  | quiet hd hc =>
    intro call hm hw
    rw [hd]
    exact h call (hc call hm hw) hw
  | uploaded hn =>
    intro call hm hw
    obtain ⟨record, ha, hf⟩ := h call hm hw
    refine ⟨record, ?_, hf⟩
    rw [Map.get_set, if_neg ?_, ha]
    intro he
    rw [he, ha] at hn
    cases hn
  | @held evidenceId hold =>
    intro call hm hw
    obtain ⟨found, hg, hf⟩ := h call hm hw
    rw [Map.get_set]
    split
    · next he =>
      refine ⟨_, rfl, ?_⟩
      cases hold with
      | false => rfl
      | true =>
        have hb := all_eq_true.mp hOk call hm
        simp [he, hw] at hb
    · exact ⟨found, hg, hf⟩
  | @began evidenceId actorId record call hi ha hf =>
    intro other hm hw
    rcases mem_append.mp hm with hm | hm
    · exact h other hm hw
    · rw [mem_singleton.mp hm, hi]
      exact ⟨record, ha, hf⟩
  | @wiped n proofJwt now call record phase hj hw ha hp =>
    intro other hm ho
    have hm : other ∈ w.calls := by
      rcases mem_or_eq_of_mem_set hm with hm | rfl
      · exact hm
      · exact absurd ho hp
    obtain ⟨found, hg, hf⟩ := h other hm ho
    rw [Map.get_set]
    split
    · next he =>
      rw [← he, ha] at hg
      cases hg
      exact ⟨_, rfl, hf⟩
    · exact ⟨found, hg, hf⟩

theorem EvidenceWorld.Free.holdKept (h : w.Free)
    (hs : evidenceStep aead logs action w = some w') : HoldKept w.db w'.db := by
  intro id found hg hh
  cases evidenceStep_effect hs with
  | quiet hd => exact ⟨found, hd ▸ hg, rfl⟩
  | uploaded hn =>
    refine ⟨found, ?_, rfl⟩
    rw [Map.get_set, if_neg ?_, hg]
    intro he
    rw [he, hg] at hn
    cases hn
  | held hf =>
    rw [Map.get_set]
    split
    · next he =>
      rw [he, hg] at hf
      cases hf
      exact ⟨_, rfl, rfl⟩
    · exact ⟨found, hg, rfl⟩
  | began => exact ⟨found, hg, rfl⟩
  | wiped hc hw =>
    refine ⟨found, ?_, rfl⟩
    rw [Map.get_set, if_neg ?_, hg]
    intro he
    obtain ⟨record, hr, ha⟩ := h _ hc hw
    rw [he, hg] at hr
    cases hr
    rw [hh] at ha
    cases ha

variable {actions : List EvidenceAction}

/-- Beside the hold, a record changes only when it is shredded. -/
theorem record_kept {id : String} (P : EvidenceRecord → Prop)
    (hh : ∀ record hold, P record → P { record with legalHold := hold })
    (hd : ∀ record, record.shreddedAt.isSome = true → P record)
    (h : ∃ record, Map.get id w.db = some record ∧ P record)
    (hr : run (evidenceStep aead logs) actions w = some w') :
    ∃ record, Map.get id w'.db = some record ∧ P record := by
  refine run_invariant (fun w => ∃ record, Map.get id w.db = some record ∧ P record) ?_ h
    (along_anyAction _ _) hr
  rintro action w w' ⟨record, hg, hp⟩ - hs
  cases evidenceStep_effect hs with
  | quiet he => exact ⟨record, he ▸ hg, hp⟩
  | began => exact ⟨record, hg, hp⟩
  | uploaded hn =>
    -- An upload under a taken id is refused, so this one has another id.
    refine ⟨record, ?_, hp⟩
    rw [Map.get_set, if_neg, hg]
    rintro rfl
    cases hn.symm.trans hg
  | held hf =>
    rw [Map.get_set]
    split
    · next he =>
      subst he
      cases hf.symm.trans hg
      exact ⟨_, rfl, hh _ _ hp⟩
    · exact ⟨record, hg, hp⟩
  | wiped =>
    rw [Map.get_set]
    split
    · exact ⟨_, rfl, hd _ rfl⟩
    · exact ⟨record, hg, hp⟩

/-- Uploaded evidence is read back as it was until it is shredded, and never after that. -/
theorem evidence_read_until_shredded {keys reader : KeySource} {u : Upload} {role : Role}
    {record : EvidenceRecord} {db : EvidenceDb}
    (hUpload : uploadEvidence aead keys u w.db = .ok (record, db))
    (hKey : reader.getKey record.kekVersion = keys.getCurrentKey.map Prod.fst)
    (hRole : enforceAccessControl role = .ok ())
    (hRun : run (evidenceStep aead logs) actions { w with db } = some w') :
    retrieveEvidence aead reader role u.evidenceId w'.db = .ok u.rawData ∨
      ∀ later t, run (evidenceStep aead logs) later w' = some t →
        retrieveEvidence aead reader role u.evidenceId t.db =
          .error "Evidence has been shredded" := by
  obtain ⟨hi, -, rfl, kek, version, hk, rfl⟩ := uploadEvidence_ok hUpload
  rw [hk] at hKey
  obtain ⟨record, hg, ho⟩ := record_kept
    (fun record => record.shreddedAt = none → openRecord aead reader record = .ok u.rawData)
    (fun _ _ h => h) (fun _ hs hn => by simp [hn] at hs)
    ⟨_, Map.get_set_self .., fun _ => openRecord_record u hKey⟩ hRun
  cases hs : record.shreddedAt with
  | none => exact .inl ((retrieveEvidence_eq hi hRole hg hs).trans (ho hs))
  | some =>
    right
    intro later t ht
    obtain ⟨found, hf, hs⟩ := record_kept (·.shreddedAt.isSome = true) (fun _ _ h => h)
      (fun _ h => h) ⟨record, hg, hs ▸ rfl⟩ ht
    simp [retrieveEvidence, findRecord, hi, hRole, hf, hs, bind, Except.bind]

def scan : Upload := ⟨"d", "text", "u", "t", [1], [2], [3], 0⟩

def scanKeys : KeySource := ⟨.empty, some (replicate 32 7)⟩

theorem evidence_read_until_shredded_held : ∃ record db w,
    uploadEvidence transparent scanKeys scan [] = .ok (record, db) ∧
      run (evidenceStep transparent true) [.setLegalHold "d" true] ⟨db, [], []⟩ = some w ∧
      retrieveEvidence transparent scanKeys .governance "d" w.db = .ok "text" := by
  have hu : uploadEvidence transparent scanKeys scan [] = .ok (_, _) := rfl
  have h := @evidence_read_until_shredded transparent true (.start []) _
    [.setLegalHold "d" true] scanKeys scanKeys scan .governance _ _ hu rfl rfl rfl
  exact ⟨_, _, _, hu, rfl, h.resolve_right fun h => absurd (h [] _ rfl) (by decide +kernel)⟩

/-- Where no hold is set on a record while the proof of its erasure is being signed, no step of any
interleaving wipes a record that is on hold. -/
theorem legal_hold_kept (db : EvidenceDb) {actions : List EvidenceAction}
    (hOk : Along (evidenceStep aead logs) HoldsInTime actions (.start db))
    (hRun : run (evidenceStep aead logs) actions (.start db) = some w)
    (hStep : evidenceStep aead logs action w = some w') : HoldKept w.db w'.db := by
  have hs : (EvidenceWorld.start db).Free := by
    intro call hm
    cases hm
  have hf : w.Free := run_invariant EvidenceWorld.Free
    (fun _ _ _ h hOk hStep => h.step hOk hStep) hs hOk hRun
  exact hf.holdKept hStep

end

def exhibit : EvidenceRecord :=
  ⟨"doc-1", [1], [2], [3], [4], [5], [6], "user-1", "default", 0, 1, none, false, none⟩

theorem legal_hold_kept_exhibit : ∃ w w', run (evidenceStep transparent true)
      [.setLegalHold "doc-1" true, .cryptoShred "doc-1" "SYSTEM", .setLegalHold "doc-1" false,
        .cryptoShred "doc-1" "SYSTEM"] (.start [("doc-1", exhibit)]) = some w ∧
      evidenceStep transparent true (.signed 1 "proof" 7) w = some w' ∧ HoldKept w.db w'.db := by
  have hr : run (evidenceStep transparent true)
      [.setLegalHold "doc-1" true, .cryptoShred "doc-1" "SYSTEM", .setLegalHold "doc-1" false,
        .cryptoShred "doc-1" "SYSTEM"] (.start [("doc-1", exhibit)]) = some _ := rfl
  exact ⟨_, _, hr, rfl, legal_hold_kept _ (by decide +kernel) hr
    (rfl : evidenceStep transparent true (.signed 1 "proof" 7) _ = some _)⟩

def EvidenceWorld.hold (evidenceId : String) (w : EvidenceWorld) :
    Option (Bool × List (List UInt8)) :=
  (Map.get evidenceId w.db).map fun record => (record.legalHold, record.secrets)

/-- The hold is set while the proof is being signed, and the next step wipes the record. -/
theorem held_record_wiped : (run (evidenceStep transparent true) [.cryptoShred "doc-1" "SYSTEM",
      .setLegalHold "doc-1" true] (.start [("doc-1", exhibit)])).bind (EvidenceWorld.hold "doc-1") =
        some (true, [[4], [5], [6], [1], [2], [3]]) ∧
    (run (evidenceStep transparent true) [.cryptoShred "doc-1" "SYSTEM",
      .setLegalHold "doc-1" true, .signed 0 "proof" 7] (.start [("doc-1", exhibit)])).bind
        (EvidenceWorld.hold "doc-1") = some (true, [[], [], [], [], [], []]) := by
  decide +kernel

end Credence.Evidence
