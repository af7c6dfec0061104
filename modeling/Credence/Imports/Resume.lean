import Credence.Imports.Invariant

/-! Resumed imports: each row is written with success at most once under one key, and what a
response calls accepted stays accepted. -/

namespace Credence.Imports

open Js Crypto ProofKit List

variable {env : Env} {w : World} {id other : CallId}

structure SameKey (call other : CallId) : Prop where
  tenant : call.pair.tenantId = other.pair.tenantId
  key : call.pair.key = other.pair.key
  given : call.pair.key ≠ none

theorem SameKey.keyOf (h : SameKey id other) : env.keyOf id = env.keyOf other := by
  have hg := h.given
  unfold Env.keyOf scopedKey
  rw [← h.key, ← h.tenant]
  cases hk : id.pair.key with
  | none => exact absurd hk hg
  | some => rfl

def World.file (w : World) (id : CallId) : Option ImportFile := (Map.get id w.calls).map Call.file

def World.imports (w : World) (id : CallId) : Prop :=
  (∃ event ∈ w.log, event.call = id) ∨ ∃ body, (id, .committed body) ∈ w.responses

structure Resumable (env : Env) (w : World) : Prop where
  once : ∀ call other, SameKey call other → ∀ (i j : Nat) rowKey next row,
    w.log[i]? = some (.ended call rowKey row true) →
    w.log[j]? = some (.ended other next row true) → i = j
  uninterrupted : ∀ call other, SameKey call other → ∀ before between after,
    w.log.map Event.call = before ++ call :: (between ++ call :: after) →
    other ∈ between → other = call
  counted : ∀ call body, (call, .committed body) ∈ w.responses →
    body.accepted + retryableCount body.rowOutcomes = body.totalRows ∧
    (body.committed = true ↔ ∀ outcome ∈ body.rowOutcomes, outcome.status ≠ .retryable) ∧
    ∃ file rows, w.file call = some file ∧
      collectValidatedImportRows env.csv file = some rows ∧ body.totalRows = rows.length ∧
      body.rowOutcomes.map ImportRowOutcome.rowKey = env.keys file rows
  kept : ∀ call other, SameKey call other → ∀ (i j : Nat) before after, i < j →
    w.responses[i]? = some (call, .committed before) →
    w.responses[j]? = some (other, .committed after) →
    Keeps before.rowOutcomes after.rowOutcomes
  conflicts : ∀ call other, SameKey call other → ∀ file next, w.file call = some file →
    w.file other = some next → importFingerprint env.hash file ≠ importFingerprint env.hash next →
    w.imports call →
    (∀ event ∈ w.log, event.call ≠ other) ∧
    (∀ response, (other, response) ∈ w.responses →
      response = .conflict conflictBody ∨ response.isEarly = true) ∧
    ∀ after, step env (.acquired other) w = some after →
      (other, .conflict conflictBody) ∈ after.responses
  proceeds : ∀ call record, Map.get call w.calls = some record → record.stage ≠ .ended →
    ∃ action after, env.keyOf action.call = env.keyOf call ∧ step env action w = some after

variable {file : ImportFile} {t : Turn}

theorem Ok.agrees_of_imports (h : Ok env w) (hi : w.imports id)
    (hf : w.file id = some file) : ∃ checkpoint, Agrees env w id file checkpoint := by
  rcases hi with ⟨event, he, rfl⟩ | ⟨body, hb⟩
  · obtain ⟨call, checkpoint, hc, -, ha, -⟩ := h.logged event he
    rw [World.file, hc] at hf
    cases hf
    exact ⟨checkpoint, ha⟩
  · obtain ⟨call, checkpoint, _, _, hc, -, ha, -⟩ := h.responded id body hb
    rw [World.file, hc] at hf
    cases hf
    exact ⟨checkpoint, ha⟩

theorem turn_acquired {view : View} (h : turn env (.acquired id) view = some t) :
    ∃ file rows, view.call = some ⟨file, .waiting rows⟩ ∧ view.ready = true ∧
      t = execute env id file rows view.checkpoint := by
  unfold turn at h
  split at h
  · next ha => cases ha
  · next ha => cases ha
  · next ha => cases ha
  · next ha => cases ha
  · next ha => cases ha
  · next ha =>
    cases ha
    cases h
    exact ⟨_, _, rfl, rfl, rfl⟩
  · next ha => cases ha
  · cases h

theorem step_acquired_conflict {after : World} {checkpoint : ImportCheckpoint}
    (hf : w.file id = some file) (hg : Map.get (env.keyOf id) w.checkpoints = some checkpoint)
    (ho : checkpoint.fingerprint ≠ importFingerprint env.hash file)
    (h : step env (.acquired id) w = some after) :
    (id, .conflict conflictBody) ∈ after.responses := by
  obtain ⟨turn, ht, rfl⟩ := Option.map_eq_some_iff.mp h
  obtain ⟨found, rows, hc, -, rfl⟩ := turn_acquired ht
  simp only [World.view, Action.call] at hc ht ⊢
  rw [World.file, hc] at hf
  cases hf
  rw [mem_take_responses, hg]
  exact .inr ⟨rfl, congrArg Turn.response (if_pos ho)⟩

theorem exists_step {action : Action} (h : turn env action (w.view env action.call) = some t)
    (hk : env.keyOf action.call = env.keyOf id) :
    ∃ action after, env.keyOf action.call = env.keyOf id ∧ step env action w = some after :=
  ⟨action, _, hk, Option.map_eq_some_iff.mpr ⟨t, h, rfl⟩⟩

theorem Ok.head_goes_on (h : Ok env w)
    (hb : ∃ previous, Map.get id w.lock.tickets = some ⟨env.keyOf id, previous, false⟩) :
    ∃ action after, env.keyOf action.call = env.keyOf id ∧
      Imports.step env action w = some after := by
  obtain ⟨queue, hq⟩ := h.queued (env.keyOf id)
  obtain ⟨head, hm, hf⟩ : ∃ head, head ∈ queue ∧ queue.head? = some head := by
    have hi := (hq.members id).mpr hb
    cases queue with
    | nil => cases hi
    | cons head => exact ⟨head, mem_cons_self, rfl⟩
  have hr := (hq.ready_iff hm).mpr hf
  obtain ⟨previous, ho⟩ := (hq.members head).mp hm
  obtain ⟨hk, ⟨file, stage⟩, hg, hn⟩ := h.inside head _ _ ho
  have hl : ¬ stage.isEarly = true := by
    intro he
    have hd := h.outside head fun call hc => by
      cases hg.symm.trans hc
      exact he
    cases ho.symm.trans hd
  cases stage with
  | validating => exact absurd rfl hl
  | collecting => exact absurd rfl hl
  | waiting rows =>
    have ht : turn env (.acquired head) (w.view env head) =
        some (execute env head file rows (Map.get (env.keyOf head) w.checkpoints)) := by
      simp only [World.view, hg, hr]
      rfl
    exact exists_step ht hk.symm
  | writing rows row rest tally =>
    obtain ⟨checkpoint, ha, -⟩ := (h.writes _ _ _ _ _ _ hg).checkpoint
    have ht : turn env (.upserted head true) (w.view env head) =
        some (record env head file rows row rest tally checkpoint true) := by
      simp only [World.view, hg, ha.present]
      rfl
    exact exists_step ht hk.symm
  | ended => exact absurd rfl hn

theorem Ok.goes_on (h : Ok env w) {call : Call} (hc : Map.get id w.calls = some call)
    (hs : call.stage ≠ .ended) : ∃ action after,
      env.keyOf action.call = env.keyOf id ∧ Imports.step env action w = some after := by
  obtain ⟨file, stage⟩ := call
  cases stage with
  | validating =>
    have ht : turn env (.validated id .valid) (w.view env id) =
        some (.quiet ⟨file, .collecting⟩) := by
      simp only [World.view, hc]
      rfl
    exact exists_step ht rfl
  | collecting =>
    cases hr : collectValidatedImportRows env.csv file with
    | none =>
      have ht : turn env (.collected id) (w.view env id) =
          some (.answer file .keep (.error failureBody)) := by
        simp only [World.view, hc, turn, hr]
      exact exists_step ht rfl
    | some rows =>
      have ht : turn env (.collected id) (w.view env id) =
          some ⟨⟨file, .waiting rows⟩, .enter, none, [], none⟩ := by
        simp only [World.view, hc, turn, hr]
      exact exists_step ht rfl
  | waiting rows => exact h.head_goes_on (h.waits id file rows hc).1
  | writing => exact h.head_goes_on (h.writes _ _ _ _ _ _ hc).holds.ticket
  | ended => exact absurd rfl hs

theorem Ok.resumable (h : Ok env w) : Resumable env w where
  once call other hs i j rowKey next row hf hb := by
    obtain ⟨record, found, hc, -, ha, hr, -⟩ := h.logged _ (mem_of_getElem? hf)
    obtain ⟨record', found', hc', -, ha', hr', -⟩ := h.logged _ (mem_of_getElem? hb)
    have hp : Map.get (env.keyOf other) w.checkpoints = some found := hs.keyOf ▸ ha.present
    cases hp.symm.trans ha'.present
    have hd : rowKey = next := by
      rw [show rowKey = _ from hr, show next = _ from hr', Env.rowKey, Env.rowKey,
        ← ha.fingerprint, ← ha'.fingerprint]
      rfl
    subst hd
    refine getElem?_inj_of_nodup_filterMap h.once hf hb rfl ?_
    simp only [Event.written, hs.keyOf]
  uninterrupted call other hs before between after hg hm :=
    h.uninterrupted before between after call hg other hm hs.keyOf.symm
  counted call body hm := by
    obtain ⟨record, checkpoint, rows, tally, hc, -, -, hq, ht, rfl, -⟩ := h.responded call body hm
    refine ⟨?_, ?_, record.file, rows, ?_, hq, rfl, ?_⟩
    · have hl := congrArg length ht.listed
      rw [append_nil, length_map, Env.keys, length_map] at hl
      exact ht.accepted.trans hl
    · simp [successBody, retryableCount, countP_eq_zero]
    · rw [World.file, hc, Option.map_some]
    · exact (append_nil _).symm.trans ht.listed
  kept call other hs i j before after hLt hf hb := by
    obtain ⟨hi, he⟩ := List.getElem?_eq_some_iff.mp hf
    obtain ⟨hj, he'⟩ := List.getElem?_eq_some_iff.mp hb
    have hk := pairwise_iff_getElem.mp h.kept i j hi hj hLt
    rw [he, he'] at hk
    exact hk hs.keyOf before after rfl rfl
  conflicts call other hs file next hu hn ho him := by
    obtain ⟨checkpoint, ha⟩ := h.agrees_of_imports him hu
    have hv : ¬ w.imports other := by
      intro hw
      obtain ⟨found, hx⟩ := h.agrees_of_imports hw hn
      cases (hs.keyOf ▸ ha.present).symm.trans hx.present
      exact ho (ha.fingerprint.symm.trans hx.fingerprint)
    refine ⟨fun event hy he => hv (.inl ⟨event, hy, he⟩), ?_, ?_⟩
    · intro response hm
      cases response with
      | error => exact .inr rfl
      | invalid => exact .inr rfl
      | conflict body => exact .inl (congrArg Response.conflict (h.conflicted other body hm))
      | committed body => exact absurd (.inr ⟨body, hm⟩) hv
    · intro after hz
      refine step_acquired_conflict hn (hs.keyOf ▸ ha.present) ?_ hz
      rw [ha.fingerprint]
      exact ho
  proceeds call record hc hh := h.goes_on hc hh

theorem imports_resumable {actions : List Action}
    (hRun : run (step env) actions .start = some w) : Resumable env w :=
  ((ok_start env).run hRun).resumable

def oneRowFile : ImportFile := ⟨"address\nGA1", [("address", "address")]⟩

def otherFile : ImportFile := ⟨"address\nGB2", [("address", "address")]⟩

def sampleEnv : Env where
  hash := sha256On []
  csv :=
    { parse := fun text =>
        if text = oneRowFile.text then some [["address"], ["GA1"]]
        else if text = otherFile.text then some [["address"], ["GB2"]]
        else some []
      lower := fun text => text
      parse_empty := by decide }
  operationUuid := fun call => if call.number = 0 then "0d1c" else "7be4"
  importUuid := fun call => if call.number = 0 then "51aa" else "c29f"

def acmeCall (key : String) (number : Nat) : CallId := ⟨⟨some "acme", some key⟩, number⟩

def arrival (call : CallId) (file : ImportFile) : List Action :=
  [.commitImportFile call file, .validated call .valid, .collected call]

def retriedImport : List Action :=
  arrival (acmeCall "july" 0) oneRowFile ++ [.acquired (acmeCall "july" 0)] ++
  arrival (acmeCall "july" 1) oneRowFile ++ [.upserted (acmeCall "july" 0) false,
    .acquired (acmeCall "july" 1), .upserted (acmeCall "july" 1) true] ++
  arrival (acmeCall "july" 2) otherFile ++ [.acquired (acmeCall "july" 2)]

theorem imports_resumable_retried : ∃ w, run (step sampleEnv) retriedImport .start = some w ∧
    w.log.length = 4 ∧ w.responses.length = 3 ∧ Resumable sampleEnv w := by
  have hr : run (step sampleEnv) retriedImport .start = some _ := rfl
  exact ⟨_, hr, rfl, rfl, imports_resumable hr⟩

/-- A key that is blank is no key: both calls write the row. -/
theorem blank_key_repeats : ∃ w call other rowKey row, run (step sampleEnv)
      (arrival (acmeCall "  " 0) oneRowFile ++ arrival (acmeCall "  " 1) oneRowFile ++
        [.acquired (acmeCall "  " 0), .acquired (acmeCall "  " 1),
          .upserted (acmeCall "  " 0) true, .upserted (acmeCall "  " 1) true]) .start = some w ∧
    call ≠ other ∧ call.pair = other.pair ∧ w.file call = w.file other ∧
    .ended call rowKey row true ∈ w.log ∧ .ended other rowKey row true ∈ w.log := by
  refine ⟨_, acmeCall "  " 0, acmeCall "  " 1,
    sampleEnv.rowKey oneRowFile ⟨2, [("address", "GA1")]⟩,
    ⟨2, [("address", "GA1")]⟩, rfl, by decide, rfl, ?_⟩
  decide +kernel

end Credence.Imports
