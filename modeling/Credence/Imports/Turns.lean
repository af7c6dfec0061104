import Credence.Imports.Commit

/-! The turns of an import call: what the loop over the rows skips and writes next, and all that a
call can do between two awaits. -/

namespace Credence.Imports

open Js List

def Keyed (outcomes : List (String × ImportRowOutcome)) : Prop :=
  ∀ key outcome, Map.get key outcomes = some outcome → outcome.rowKey = key

variable {outcomes : List (String × ImportRowOutcome)} {tally : Tally}
  {todo : List ValidatedImportRow} {env : Env}

theorem Keyed.set (h : Keyed outcomes) (outcome : ImportRowOutcome) :
    Keyed (Map.set outcome.rowKey outcome outcomes) := by
  intro key other hg
  rcases Map.get_of_set hg with ⟨hk, rfl⟩ | hf
  · exact hk
  · exact h key other hf

/-- The tally has the outcomes of the rows before `left`. -/
structure Tally.Ok (keys left : List String) (tally : Tally) : Prop where
  listed : tally.rowOutcomes.map ImportRowOutcome.rowKey ++ left = keys
  accepted : tally.accepted + retryableCount tally.rowOutcomes = tally.rowOutcomes.length

theorem Tally.ok_empty (keys : List String) : Tally.empty.Ok keys keys := ⟨rfl, rfl⟩

theorem Tally.Ok.add {keys left : List String} {outcome : ImportRowOutcome}
    (h : tally.Ok keys (outcome.rowKey :: left)) (hs : outcome.status ≠ .rejected) :
    (tally.add outcome).Ok keys left := by
  have ha := h.accepted
  refine ⟨?_, ?_⟩
  · simp only [Tally.add, map_append, map_cons, map_nil, append_assoc,
      singleton_append]
    exact h.listed
  · simp only [Tally.add, retryableCount, countP_append, length_append,
      countP_singleton, length_singleton] at ha ⊢
    cases ho : outcome.status with
    | rejected => exact absurd ho hs
    | accepted =>
      simp
      omega
    | retryable =>
      simp
      omega

/-- Skipping ends before a row that is not accepted yet. -/
structure Skips (keyOf : ValidatedImportRow → String) (outcomes : List (String × ImportRowOutcome))
    (keys : List String) (tally : Tally)
    (result : Option (ValidatedImportRow × List ValidatedImportRow) × Tally) : Prop where
  ok : result.2.Ok keys (match result.1 with
    | some (row, rest) => (row :: rest).map keyOf
    | none => [])
  fresh : ∀ row rest, result.1 = some (row, rest) → ∀ previous,
    Map.get (keyOf row) outcomes = some previous → previous.status ≠ .accepted
  added : ∀ outcome ∈ result.2.rowOutcomes, outcome ∈ tally.rowOutcomes ∨
    outcome.status = .accepted ∧ Map.get outcome.rowKey outcomes = some outcome

theorem nextWrite_skips {keyOf : ValidatedImportRow → String} {keys : List String}
    (he : Keyed outcomes) (h : tally.Ok keys (todo.map keyOf)) :
    Skips keyOf outcomes keys tally (nextWrite keyOf outcomes todo tally) := by
  induction todo generalizing tally with
  | nil => exact ⟨h, by simp [nextWrite], fun _ hm => .inl hm⟩
  | cons row rest ih =>
    unfold nextWrite
    cases hp : Map.get (keyOf row) outcomes with
    | none =>
      refine ⟨h, fun next after hn previous hg => ?_, fun _ hm => .inl hm⟩
      cases hn
      cases hp.symm.trans hg
    | some previous =>
      have hk := he _ _ hp
      simp only
      cases hs : previous.status with
      | accepted =>
        have ho : (tally.add previous).Ok keys (rest.map keyOf) := by
          refine Tally.Ok.add ?_ (by rw [hs]; simp)
          rw [hk]
          exact h
        have hr := ih ho
        refine ⟨hr.ok, hr.fresh, fun outcome hm => ?_⟩
        rcases hr.added outcome hm with ha | hc
        · rcases mem_append.mp ha with hl | hne
          · exact .inl hl
          · cases mem_singleton.mp hne
            exact .inr ⟨hs, hk ▸ hp⟩
        · exact .inr hc
      | retryable =>
        refine ⟨⟨h.listed, h.accepted⟩, fun next after hn other hg => ?_, fun _ hm => .inl hm⟩
        cases hn
        cases hp.symm.trans hg
        rw [hs]
        simp
      | rejected =>
        refine ⟨h, fun next after hn other hg => ?_, fun _ hm => .inl hm⟩
        cases hn
        cases hp.symm.trans hg
        rw [hs]
        simp

def Stage.isEarly : Stage → Bool
  | validating | collecting => true
  | _ => false

def Response.isEarly : Response → Bool
  | error _ | invalid _ _ _ _ => true
  | _ => false

def Env.keys (env : Env) (file : ImportFile) (rows : List ValidatedImportRow) : List String :=
  rows.map (env.rowKey file)

inductive Proceeds (env : Env) (id : CallId) (file : ImportFile) (rows : List ValidatedImportRow)
    (tally : Tally) (checkpoint : ImportCheckpoint) (events : List Event) : Turn → Prop
  | writes (row : ValidatedImportRow) (rest : List ValidatedImportRow) (after : Tally)
    (hOk : after.Ok (env.keys file rows) (env.keys file (row :: rest)))
    (hFresh : ∀ previous, Map.get (env.rowKey file row) checkpoint.outcomes = some previous →
      previous.status ≠ .accepted)
    (hAdded : ∀ outcome ∈ after.rowOutcomes, outcome ∈ tally.rowOutcomes ∨
      outcome.status = .accepted ∧ Map.get outcome.rowKey checkpoint.outcomes = some outcome) :
    Proceeds env id file rows tally checkpoint events
      ⟨⟨file, .writing rows row rest after⟩, .keep, some checkpoint,
        events ++ [.called id (env.rowKey file row) row], none⟩
  | ends (after : Tally) (completed : Bool) (hOk : after.Ok (env.keys file rows) [])
    (hAdded : ∀ outcome ∈ after.rowOutcomes, outcome ∈ tally.rowOutcomes ∨
      outcome.status = .accepted ∧ Map.get outcome.rowKey checkpoint.outcomes = some outcome) :
    Proceeds env id file rows tally checkpoint events
      ⟨⟨file, .ended⟩, .leave, some { checkpoint with completed := completed }, events,
        some (.committed (successBody checkpoint.operationId rows.length after))⟩

theorem goOn_proceeds {id : CallId} {file : ImportFile} {rows : List ValidatedImportRow}
    {checkpoint : ImportCheckpoint} {events : List Event} (hk : Keyed checkpoint.outcomes)
    (h : tally.Ok (env.keys file rows) (env.keys file todo)) :
    Proceeds env id file rows tally checkpoint events
      (goOn env id file rows todo tally checkpoint events) := by
  have hs := nextWrite_skips hk h
  unfold goOn
  split
  · next row rest after hn =>
    rw [hn] at hs
    exact .writes row rest after hs.ok (hs.fresh row rest rfl) hs.added
  · next after hn =>
    rw [hn] at hs
    exact .ends after _ hs.ok hs.added

inductive Takes (env : Env) (id : CallId) : View → Turn → Prop
  | early (before : Option Call) (ready : Bool) (checkpoint : Option ImportCheckpoint)
    (file : ImportFile) (stage : Stage) (response : Option Response)
    (hBefore : ∀ call, before = some call → call.stage.isEarly = true ∧ call.file = file)
    (hStage : stage.isEarly = true ∨ stage = .ended)
    (hResponse : ∀ answer, response = some answer → answer.isEarly = true) :
    Takes env id ⟨before, ready, checkpoint⟩ ⟨⟨file, stage⟩, .keep, none, [], response⟩
  | enters (file : ImportFile) (rows : List ValidatedImportRow) (ready : Bool)
    (checkpoint : Option ImportCheckpoint)
    (hRows : collectValidatedImportRows env.csv file = some rows) :
    Takes env id ⟨some ⟨file, .collecting⟩, ready, checkpoint⟩
      ⟨⟨file, .waiting rows⟩, .enter, none, [], none⟩
  | refuses (file : ImportFile) (rows : List ValidatedImportRow) (checkpoint : ImportCheckpoint)
    (hOther : checkpoint.fingerprint ≠ importFingerprint env.hash file) :
    Takes env id ⟨some ⟨file, .waiting rows⟩, true, some checkpoint⟩
      (.answer file .leave (.conflict conflictBody))
  | executes (file : ImportFile) (rows : List ValidatedImportRow)
    (before : Option ImportCheckpoint) (checkpoint : ImportCheckpoint) (turn : Turn)
    (hBefore : before = some checkpoint ∨ before = none ∧ checkpoint.outcomes = [])
    (hSame : checkpoint.fingerprint = importFingerprint env.hash file)
    (hTurn : Keyed checkpoint.outcomes → Proceeds env id file rows .empty checkpoint [] turn) :
    Takes env id ⟨some ⟨file, .waiting rows⟩, true, before⟩ turn
  | records (file : ImportFile) (rows : List ValidatedImportRow) (row : ValidatedImportRow)
    (rest : List ValidatedImportRow) (tally : Tally) (ready : Bool)
    (checkpoint : ImportCheckpoint) (outcome : ImportRowOutcome) (turn : Turn)
    (hKey : outcome.rowKey = env.rowKey file row)
    (hTurn : Keyed checkpoint.outcomes →
      tally.Ok (env.keys file rows) (env.keys file (row :: rest)) →
      Proceeds env id file rows (tally.add outcome)
        { checkpoint with outcomes := Map.set outcome.rowKey outcome checkpoint.outcomes }
        [.ended id outcome.rowKey row (outcome.status = .accepted)] turn) :
    Takes env id ⟨some ⟨file, .writing rows row rest tally⟩, ready, some checkpoint⟩ turn

theorem takes_of_turn {action : Action} {view : View} {t : Turn}
    (h : turn env action view = some t) : Takes env action.call view t := by
  unfold turn at h
  split at h
  · cases h
    exact .early _ _ _ _ _ _ (by simp) (.inl rfl) (by simp)
  · cases h
    exact .early _ _ _ _ _ _ (by simp [Stage.isEarly]) (.inr rfl) (by simp [Response.isEarly])
  · cases h
    exact .early _ _ _ _ _ _ (by simp [Stage.isEarly]) (.inr rfl) (by simp [Response.isEarly])
  · cases h
    exact .early _ _ _ _ _ _ (by simp [Stage.isEarly]) (.inl rfl) (by simp)
  · split at h
    · cases h
      exact .early _ _ _ _ _ _ (by simp [Stage.isEarly]) (.inr rfl) (by simp [Response.isEarly])
    · next rows hr =>
      cases h
      exact .enters _ rows _ _ hr
  · next id file rows before =>
    cases h
    cases before with
    | none =>
      exact .executes file rows none _ _ (.inr ⟨rfl, rfl⟩) rfl fun hk =>
        goOn_proceeds hk (Tally.ok_empty _)
    | some checkpoint =>
      by_cases hs : checkpoint.fingerprint = importFingerprint env.hash file
      · have he : execute env id file rows (some checkpoint) =
            goOn env id file rows rows .empty checkpoint [] := if_neg (not_not.mpr hs)
        rw [he]
        exact .executes file rows _ checkpoint _ (.inl rfl) hs fun hk =>
          goOn_proceeds hk (Tally.ok_empty _)
      · have he : execute env id file rows (some checkpoint) =
            .answer file .leave (.conflict conflictBody) := if_pos hs
        rw [he]
        exact .refuses file rows checkpoint hs
  · next id succeeded file rows row rest tally ready checkpoint =>
    cases h
    cases succeeded with
    | true =>
      exact .records file rows row rest tally ready checkpoint
        (importedOutcome row.row (env.rowKey file row)) _ rfl fun hk ht =>
          goOn_proceeds (hk.set _) (ht.add (by simp [importedOutcome]))
    | false =>
      exact .records file rows row rest tally ready checkpoint
        (failedOutcome row.row (env.rowKey file row)) _ rfl fun hk ht =>
          goOn_proceeds (hk.set _) (ht.add (by simp [failedOutcome]))
  · cases h

end Credence.Imports
