import Credence.Backfill.Runner

/-! A sequence of runs of one job, each cut off anywhere, for a processor that serves the rows of a
table in order. -/

namespace Credence.Backfill

open ProofKit List

/-- A table of `rows` rows; `position` is the number of rows up to a cursor. -/
structure Source where
  rows : Nat
  position : String → Nat
  start : position "" = 0

/-- A batch goes on from the cursor, counts at most the rows it passes, and says whether a row is
left. -/
structure Source.Serves (source : Source) (cursor : String) (batch : BackfillBatchResult) :
    Prop where
  forward : source.position cursor ≤ source.position batch.nextCursor
  counted : 0 ≤ batch.processedCount ∧
    batch.processedCount ≤ source.position batch.nextCursor - source.position cursor
  done : batch.done = true ↔ source.rows ≤ source.position batch.nextCursor

instance (source : Source) (cursor : String) (batch : BackfillBatchResult) :
    Decidable (source.Serves cursor batch) :=
  decidable_of_iff (source.position cursor ≤ source.position batch.nextCursor ∧
      (0 ≤ batch.processedCount ∧
        batch.processedCount ≤ source.position batch.nextCursor - source.position cursor) ∧
      (batch.done = true ↔ source.rows ≤ source.position batch.nextCursor))
    ⟨fun h => ⟨h.1, h.2.1, h.2.2⟩, fun h => ⟨h.forward, h.counted, h.done⟩⟩

def CorrectWorker (source : Source) : Action → World → Prop
  | .process (.ok batch), s =>
    match s.phase with
    | some (.calling loop) => source.Serves loop.cursor batch
    | _ => True
  | _, _ => True

instance (source : Source) (a : Action) (s : World) : Decidable (CorrectWorker source a s) :=
  match a with
  | .process (.ok batch) =>
    match hPhase : s.phase with
    | some (.calling loop) =>
      decidable_of_iff (source.Serves loop.cursor batch) (by simp only [CorrectWorker, hPhase])
    | some .resetting | some (.marking _) | some (.checkpointing _ _) | some (.completing _)
    | some (.failing _ _) | none => isTrue (by simp only [CorrectWorker, hPhase])
  | .process (.error _) | .find _ | .write _ | .cut => isTrue trivial

def Source.Handled (source : Source) (handled : List (String × String)) (i : Nat) : Prop :=
  ∃ span ∈ handled, source.position span.1 ≤ i ∧ i < source.position span.2

section

variable (source : Source) (options : Options)

/-- Every row after `initialCursor` up to the cursor has been handled. -/
def Covered (handled : List (String × String)) (cursor : String) : Prop :=
  ∀ i, source.position options.initialCursor ≤ i → i < source.position cursor →
    source.Handled handled i

/-- The last batch before a completion: the processor was done, or the batch had no row, or the
loop had run to its limit. -/
def EndedBy (handled : List (String × String)) (batch : BackfillBatchResult) : Prop :=
  batch.done = true ∨ batch.processedCount = 0 ∨ maxBatches ≤ handled.length

/-- What the marker and the checkpoint say has been handled. -/
structure Durable (marker : Option BackfillProgress) (checkpoint : Option BackfillBatchResult)
    (handled : List (String × String)) : Prop where
  saved : ∀ {batch}, checkpoint = some batch →
    ∃ row, marker = some row ∧ row.cursorValue = batch.nextCursor
  unsaved : ∀ {row}, checkpoint = none → marker = some row → row.status ≠ .completed
  covered : ∀ {row}, marker = some row → Covered source options handled row.cursorValue
  last : ∀ {batch}, checkpoint = some batch → batch.done = true →
    source.rows ≤ source.position batch.nextCursor
  completed : ∀ {row batch}, marker = some row → row.status = .completed →
    checkpoint = some batch → EndedBy handled batch

structure LoopOk (handled : List (String × String)) (loop : Loop) : Prop where
  covered : Covered source options handled loop.cursor
  batches : loop.batchesProcessed ≤ handled.length

/-- What holds of the variables of a run before its next statement. -/
def PhaseOk (s : World) : Option Phase → Prop
  | some .resetting => options.forceRestart = true
  | some (.marking loop) | some (.calling loop) => LoopOk source options s.handled loop
  | some (.checkpointing loop batch) =>
    LoopOk source options s.handled loop ∧ loop.cursor = batch.nextCursor ∧
      (batch.done = true → source.rows ≤ source.position batch.nextCursor)
  | some (.completing loop) =>
    ∃ batch, s.checkpoint = some batch ∧ loop.cursor = batch.nextCursor ∧ EndedBy s.handled batch
  | some (.failing _ _) | none => True

/-- A run that finds no marker, or is to start again, starts at `initialCursor`, and any other one
at the last checkpoint, if there is one. -/
structure Start.Right (start : Start) : Prop where
  unmarked : start.marked = false → start.cursor = options.initialCursor
  forced : options.forceRestart = true → start.cursor = options.initialCursor
  resumed : ∀ {batch}, start.checkpoint = some batch → start.cursor = batch.nextCursor

structure Ok (s : World) : Prop where
  durable : Durable source options s.marker s.checkpoint s.handled
  phase : PhaseOk source options s s.phase
  starts : ∀ start ∈ s.starts, start.Right options

end

variable {source : Source} {options : Options} {s : World}

/-! ### The durable part -/

theorem covered_initial (handled : List (String × String)) :
    Covered source options handled options.initialCursor := by
  intro i hf ht
  omega

theorem covered_empty (handled : List (String × String)) : Covered source options handled "" := by
  intro i hf ht
  rw [source.start] at ht
  omega

variable {handled : List (String × String)} {cursor : String} {loop : Loop}

theorem Covered.append (h : Covered source options handled cursor) (span : String × String) :
    Covered source options (handled ++ [span]) cursor := by
  intro i hf ht
  obtain ⟨old, hm, hr⟩ := h i hf ht
  exact ⟨old, mem_append_left _ hm, hr⟩

theorem Covered.extend {next : String} (h : Covered source options handled cursor) :
    Covered source options (handled ++ [(cursor, next)]) next := by
  intro i hf ht
  by_cases hb : i < source.position cursor
  · exact h.append _ i hf hb
  · exact ⟨_, mem_append_right _ mem_cons_self, Nat.not_lt.mp hb, ht⟩

variable {batch : BackfillBatchResult}

theorem EndedBy.append (h : EndedBy handled batch)
    (span : String × String) : EndedBy (handled ++ [span]) batch := by
  rcases h with hd | hn | hl
  · exact .inl hd
  · exact .inr (.inl hn)
  · refine .inr (.inr ?_)
    rw [length_append]
    omega

theorem Durable.append {marker : Option BackfillProgress} {checkpoint : Option BackfillBatchResult}
    (h : Durable source options marker checkpoint handled) (span : String × String) :
    Durable source options marker checkpoint (handled ++ [span]) where
  __ := h
  covered hr := (h.covered hr).append span
  completed hr hs hb := (h.completed hr hs hb).append span

section

variable {marker : Option BackfillProgress} {checkpoint : Option BackfillBatchResult}
  {handled : List (String × String)} {row : BackfillProgress}

theorem Durable.rewrite (h : Durable source options marker checkpoint handled)
    (hc : row.cursorValue = (marker.map BackfillProgress.cursorValue).getD "")
    (hs : row.status ≠ .completed) : Durable source options (some row) checkpoint handled where
  saved hb := by
    obtain ⟨old, ho, ha⟩ := h.saved hb
    rw [ho] at hc
    exact ⟨row, rfl, hc.trans ha⟩
  unsaved _ hr := by
    cases hr
    exact hs
  covered hr := by
    cases hr
    rw [hc]
    cases hm : marker with
    | none => exact covered_empty handled
    | some => exact h.covered hm
  last := h.last
  completed hr hd _ := by
    cases hr
    exact absurd hd hs

theorem Durable.reset (hc : row.cursorValue = options.initialCursor)
    (hs : row.status ≠ .completed) : Durable source options (some row) none handled where
  saved hb := by cases hb
  unsaved _ hr := by
    cases hr
    exact hs
  covered hr := by
    cases hr
    exact hc ▸ covered_initial handled
  last hb := by cases hb
  completed _ _ hb := by cases hb

theorem Durable.atBatch (hc : row.cursorValue = batch.nextCursor)
    (ha : Covered source options handled batch.nextCursor)
    (hd : batch.done = true → source.rows ≤ source.position batch.nextCursor)
    (hs : row.status = .completed → EndedBy handled batch) :
    Durable source options (some row) (some batch) handled where
  saved hb := by
    cases hb
    exact ⟨row, rfl, hc⟩
  unsaved hn := by cases hn
  covered hr := by
    cases hr
    exact hc ▸ ha
  last hb := by
    cases hb
    exact hd
  completed hr hm hb := by
    cases hr
    cases hb
    exact hs hm

end

theorem checked_eq {row row' : BackfillProgress} (h : checked row = .ok row') : row' = row := by
  simp only [checked, bind, Except.bind, pure, Except.pure] at h
  split at h
  · cases h
  · split at h
    · cases h
    · cases h
      rfl

/-! ### The functions of a run -/

theorem Ok.reject (h : Ok source options s) (error : String) : Ok source options (s.reject error) :=
  ⟨h.durable, trivial, h.starts⟩

theorem Ok.return (h : Ok source options s) (result : RunResult) :
    Ok source options (s.return result) :=
  ⟨h.durable, trivial, h.starts⟩

theorem Ok.failing (h : Ok source options s) (loop : Loop) (message : String) :
    Ok source options { s with phase := some (.failing loop message) } :=
  ⟨h.durable, trivial, h.starts⟩

theorem Ok.begin (hd : Durable source options s.marker s.checkpoint s.handled)
    (hs : ∀ start ∈ s.starts, start.Right options) {existing : Option BackfillProgress}
    (he : s.marker = existing)
    (hf : options.forceRestart = true → ∀ row, existing = some row →
      row.cursorValue = options.initialCursor) : Ok source options (s.begin options existing) := by
  have ha {start : Start} (hn : start.Right options) :
      ∀ other ∈ s.starts ++ [start], other.Right options := by
    intro other hm
    rcases mem_append.mp hm with hm | hm
    · exact hs other hm
    · exact mem_singleton.mp hm ▸ hn
  cases existing with
  | none =>
    refine ⟨hd, ⟨covered_initial _, Nat.zero_le _⟩, ha ⟨fun _ => rfl, fun _ => rfl, ?_⟩⟩
    intro batch hb
    obtain ⟨row, hr, -⟩ := hd.saved hb
    rw [he] at hr
    cases hr
  | some row =>
    rw [World.begin]
    split
    · exact ⟨hd, trivial, hs⟩
    · refine ⟨hd, ⟨hd.covered he, Nat.zero_le _⟩, ha ⟨by simp, ?_, ?_⟩⟩
      · intro hg
        exact hf hg row rfl
      · intro batch hb
        obtain ⟨saved, hi, hc⟩ := hd.saved hb
        rw [he] at hi
        cases hi
        exact hc

section

variable (h : Ok source options s)
include h

theorem Ok.find (reply : Reply) : Ok source options (s.find options reply) := by
  rw [World.find]
  split
  · exact h.reject _
  · split
    · exact h.reject _
    · split
      · next hf => exact ⟨h.durable, hf.1, h.starts⟩
      · next hf =>
        apply Ok.begin h.durable h.starts rfl
        intro ha row hr
        exact absurd ⟨ha, by rw [hr]; rfl⟩ hf

theorem Ok.reset (reply : Reply) : Ok source options (s.reset options reply) := by
  rw [World.reset]
  split
  · exact h.reject _
  · next row hr =>
    have hd : Durable source options (some row) none s.handled := by
      rw [checked_eq hr]
      exact Durable.reset rfl (by simp)
    cases reply with
    | failed => exact h.reject _
    | lost => exact ⟨hd, trivial, h.starts⟩
    | ok =>
      refine Ok.begin (s := { s.put .ok row with checkpoint := none }) hd h.starts rfl ?_
      intro _ other ho
      cases ho
      rw [checked_eq hr]

theorem Ok.markRunning (hl : LoopOk source options s.handled loop) (reply : Reply) :
    Ok source options (s.markRunning loop reply) := by
  rw [World.markRunning]
  split
  · exact h.reject _
  · next row hr =>
    have hd : Durable source options (some row) s.checkpoint s.handled := by
      rw [checked_eq hr]
      exact h.durable.rewrite rfl (by simp)
    cases reply with
    | failed => exact h.reject _
    | lost => exact ⟨hd, trivial, h.starts⟩
    | ok => exact ⟨hd, ⟨hl.covered, hl.batches⟩, h.starts⟩

theorem Ok.process (hl : LoopOk source options s.handled loop)
    {batch : Except String BackfillBatchResult}
    (hs : ∀ result, batch = .ok result → source.Serves loop.cursor result) :
    Ok source options (s.process loop batch) := by
  cases batch with
  | error => exact h.failing ..
  | ok result =>
    have hc := @Covered.extend _ _ _ _ result.nextCursor hl.covered
    rw [World.process]
    split
    · exact ⟨h.durable.append _, trivial, h.starts⟩
    · refine ⟨h.durable.append _, ⟨⟨hc, ?_⟩, rfl, ?_⟩, h.starts⟩
      · rw [length_append]
        exact Nat.add_le_add_right hl.batches 1
      · exact (hs result rfl).done.mp

end

theorem phaseOk_next (hb : s.checkpoint = some batch)
    (hc : loop.cursor = batch.nextCursor) (hl : LoopOk source options s.handled loop) :
    PhaseOk source options s (some (loop.next batch)) := by
  rw [Loop.next]
  split
  · next he =>
    refine ⟨batch, hb, hc, ?_⟩
    simp only [Loop.ends, Bool.or_eq_true, beq_iff_eq] at he
    rcases he with (hd | hn) | hi
    · exact .inl hd
    · exact .inr (.inl hn)
    · exact .inr (.inr (hi ▸ hl.batches))
  · exact hl

section

variable (h : Ok source options s)
include h

theorem Ok.saveCheckpoint (hl : LoopOk source options s.handled loop)
    (hc : loop.cursor = batch.nextCursor)
    (ha : batch.done = true → source.rows ≤ source.position batch.nextCursor) (reply : Reply) :
    Ok source options (s.saveCheckpoint options loop batch reply) := by
  rw [World.saveCheckpoint]
  split
  · exact h.failing ..
  · next row hr =>
    have hd (totalRows : Option Int) :
        Durable source options (some { row with totalRows }) (some batch) s.handled := by
      rw [checked_eq hr]
      exact .atBatch hc (hc ▸ hl.covered) ha (by simp)
    cases reply with
    | failed => exact h.failing ..
    | lost => exact ⟨hd _, trivial, h.starts⟩
    | ok =>
      exact ⟨hd _, phaseOk_next rfl hc ⟨hl.covered, hl.batches⟩, h.starts⟩

theorem Ok.markCompleted (hb : s.checkpoint = some batch)
    (hc : loop.cursor = batch.nextCursor) (he : EndedBy s.handled batch) (reply : Reply) :
    Ok source options (s.markCompleted options loop reply) := by
  rw [World.markCompleted]
  split
  · exact h.failing ..
  · next old ho =>
    split
    · exact h.failing ..
    · next row hr =>
      have hd : Durable source options (some row) s.checkpoint s.handled := by
        obtain ⟨saved, hs, ha⟩ := h.durable.saved hb
        rw [checked_eq hr, hb]
        exact .atBatch hc (ha ▸ h.durable.covered hs) (h.durable.last hb)
          fun _ => he
      cases reply with
      | failed => exact h.failing ..
      | lost error | ok => exact ⟨hd, trivial, h.starts⟩

theorem Ok.markFailed (loop : Loop) (message : String) (reply : Reply) :
    Ok source options (s.markFailed loop message reply) := by
  rw [World.markFailed]
  split
  · next row hr =>
    obtain ⟨old, ho, hc⟩ := Option.map_eq_some_iff.mp hr
    have hd : Durable source options (some row) s.checkpoint s.handled := by
      rw [checked_eq hc]
      exact h.durable.rewrite (by rw [ho]; rfl) (by simp)
    cases reply with
    | failed => exact h.return _
    | lost error | ok => exact ⟨hd, trivial, h.starts⟩
  · exact h.return _
  · exact h.return _

theorem Ok.step {a : Action} {t : World} (hw : CorrectWorker source a s)
    (hs : Backfill.step options a s = some t) : Ok source options t := by
  have hp := h.phase
  cases a with
  | find reply =>
    obtain ⟨-, hd⟩ := Option.ite_none_right_eq_some.mp hs
    cases hd
    exact h.find reply
  | write reply =>
    simp only [Backfill.step] at hs
    split at hs
    · cases hs
      exact h.reset reply
    · next loop ha =>
      cases hs
      rw [ha] at hp
      exact h.markRunning hp reply
    · next loop batch ha =>
      cases hs
      rw [ha] at hp
      exact h.saveCheckpoint hp.1 hp.2.1 hp.2.2 reply
    · next loop ha =>
      cases hs
      rw [ha] at hp
      obtain ⟨batch, hb, hc, he⟩ := hp
      exact h.markCompleted hb hc he reply
    · cases hs
      exact h.markFailed ..
    · cases hs
    · cases hs
  | process =>
    simp only [Backfill.step] at hs
    split at hs
    · next loop ha =>
      cases hs
      rw [ha] at hp
      apply h.process hp
      rintro result rfl
      simpa only [CorrectWorker, ha] using hw
    · cases hs
  | cut =>
    cases hs
    exact ⟨h.durable, trivial, h.starts⟩

end

/-! ### Runs from the first one on -/

/-- What the runs of a job have done: where each started, and what a completed marker says. -/
structure Resumes (source : Source) (options : Options) (s : World) : Prop where
  starts : ∀ start ∈ s.starts, start.Right options
  completed : ∀ marker, s.marker = some marker → marker.status = .completed →
    ∃ batch, s.checkpoint = some batch ∧ marker.cursorValue = batch.nextCursor ∧
      EndedBy s.handled batch ∧
      (∀ i, source.position options.initialCursor ≤ i → i < source.position marker.cursorValue →
        source.Handled s.handled i) ∧
      (batch.done = true → ∀ i, source.position options.initialCursor ≤ i → i < source.rows →
        source.Handled s.handled i)

theorem Ok.resumes (h : Ok source options s) : Resumes source options s where
  starts := h.starts
  completed marker hm hc := by
    cases hb : s.checkpoint with
    | none => exact absurd hc (h.durable.unsaved hb hm)
    | some batch =>
      obtain ⟨saved, hs, hu⟩ := h.durable.saved hb
      rw [hm] at hs
      cases hs
      have ha := h.durable.covered hm
      refine ⟨batch, rfl, hu, h.durable.completed hm hc hb, ha, ?_⟩
      intro hd i hf ht
      have hl := h.durable.last hb hd
      exact ha i hf (by rw [hu]; omega)

def fresh : World := ⟨none, none, none, [], [], []⟩

theorem backfill_resumes (source : Source) (options : Options) (actions : List Action) (s : World)
    (hWorker : Along (step options) (CorrectWorker source) actions fresh)
    (hRun : run (step options) actions fresh = some s) : Resumes source options s := by
  have hf : Ok source options fresh := by
    refine ⟨⟨?_, ?_, ?_, ?_, ?_⟩, trivial, ?_⟩ <;> simp [fresh]
  exact (run_invariant (Ok source options)
    (fun _ _ _ ho hWorker hs => ho.step hWorker hs) hf hWorker hRun).resumes

def threeRows : Source where
  rows := 3
  position cursor := if cursor = "a" then 1 else if cursor = "b" then 2 else if cursor = "c" then 3
    else 0
  start := rfl

def after (initialCursor : String) : Options := ⟨"bonds", none, initialCursor, false⟩

def cutAndResumed : List Action :=
  [.find .ok, .write .ok, .process (.ok ⟨"b", 1, false, none⟩), .write .ok, .cut,
    .find .ok, .write .ok, .process (.ok ⟨"c", 1, true, none⟩), .write .ok, .write .ok]

def filteredBatch : List Action :=
  [.find .ok, .write .ok, .process (.ok ⟨"b", 0, false, none⟩), .write .ok, .write .ok]

def cutBeforeBatch : List Action := [.find .ok, .write .ok, .cut, .find .ok]

theorem backfill_resumes_cutAndResumed : ∃ s, run (step (after "a")) cutAndResumed fresh = some s ∧
      s.starts.map Start.cursor = ["a", "b"] ∧
      s.marker.map BackfillProgress.status = some .completed ∧ Resumes threeRows (after "a") s := by
  have hr : run (step (after "a")) cutAndResumed fresh = some _ := rfl
  exact ⟨_, hr, rfl, rfl,
    backfill_resumes threeRows (after "a") cutAndResumed _ (by decide +kernel) hr⟩

/-- A batch without work ends the backfill although a row is left, and a run cut off before its
first batch makes the next one start from the empty cursor. -/
theorem filtered_batch_completes :
    (∃ s, Along (step (after "")) (CorrectWorker threeRows) filteredBatch fresh ∧
      run (step (after "")) filteredBatch fresh = some s ∧
      s.marker.map BackfillProgress.status = some .completed ∧
      ¬ threeRows.Handled s.handled 2) ∧
    ∃ s, Along (step (after "a")) (CorrectWorker threeRows) cutBeforeBatch fresh ∧
      run (step (after "a")) cutBeforeBatch fresh = some s ∧ s.checkpoint = none ∧
      s.starts.map Start.cursor = ["a", ""] := by
  constructor
  · refine ⟨_, by decide +kernel, rfl, rfl, ?_⟩
    show ¬ threeRows.Handled [("", "b")] 2
    simp [Source.Handled, threeRows]
  · exact ⟨_, by decide +kernel, rfl, rfl, rfl⟩

end Credence.Backfill
