import Credence.Bulk.Claims
import Credence.Js.Number
import Credence.Js.Text

/-! `updateStatus` and the end of a worker's run, beside the claims. Metadata replaces the payload
of the job instead of being merged with it, and the worker always gives some. -/

namespace Credence.Bulk.Retry

open Js ProofKit

def BULK_JOB_STATUS_TRANSITIONS : BulkJobStatus → List BulkJobStatus
  | .pending => [.running, .cancelled]
  | .running => [.completed, .failed, .pending]
  | .completed => []
  | .failed => [.pending]
  | .cancelled => []

def BULK_JOB_STATUSES : List (String × BulkJobStatus) :=
  [("pending", .pending), ("running", .running), ("completed", .completed), ("failed", .failed),
    ("cancelled", .cancelled)]

def canTransition (source target : BulkJobStatus) : Bool :=
  source = target || (BULK_JOB_STATUS_TRANSITIONS source).contains target

def create (orgId : String) (size : Number) (payload : String) (now : Nat)
    (jobs : Table BulkJobRow) : Except String (Table BulkJobRow) :=
  if trim orgId.toList = [] then .error "orgId must be a non-empty string"
  else
    match size with
    | .finite q =>
      if ¬ q.isInt ∨ q ≤ 0 then .error "size must be a positive integer"
      else if 9007199254740991 < q then .error "size exceeds maximum safe integer"
      else .ok (jobs.insert ⟨orgId, q.num.toNat, payload, .pending, now, now⟩)
    | _ => .error "size must be a positive integer"

/-- `metadata` is the text of the object, if there is one. The source filters `BULK_JOB_STATUSESS`,
a slip for `BULK_JOB_STATUSES`. -/
def updateStatus (id : Nat) (status : String) (metadata : Option String) (now : Nat)
    (jobs : Table BulkJobRow) : Except String (Table BulkJobRow) :=
  match BULK_JOB_STATUSES.lookup status with
  | none => .error ("unknown bulk job status: " ++ status)
  | some target =>
    let allowedFrom := (BULK_JOB_STATUSES.map Prod.snd).filter (canTransition · target)
    .ok (jobs.updateWhere (Table.only id fun job => allowedFrom.contains job.status) fun job =>
      { job with status := target, payload := metadata.getD job.payload, updatedAt := now })

/-- `processNext` after a claim: `outcome` has the numbers of results and errors, and is `none`
where something throws before `updateStatus`. -/
def processClaimed (id now : Nat) (outcome : Option (Nat × Nat)) (jobs : Table BulkJobRow) :
    Except String (Table BulkJobRow) :=
  let completed : Except String (Table BulkJobRow) := match outcome with
    | none => .error "failed"
    | some (results, errors) => updateStatus id "completed" (some ("\x7b\"resultsCount\":" ++
        toString results ++ ",\"errorsCount\":" ++ toString errors ++ "\x7d")) now jobs
  match completed with
  | .ok jobs => .ok jobs
  | .error _ =>
    updateStatus id "failed" (some "\x7b\"failureReason\":\"INTERNAL_ERROR\"\x7d") now jobs

inductive Call where
  | create (orgId : String) (size : Number) (payload : String) (now : Nat)
  | poll (call today : Nat) (candidate : Option Nat)
  | update (call now : Nat)
  | processClaimed (id now : Nat) (outcome : Option (Nat × Nat))
  | updateStatus (id : Nat) (status : String) (metadata : Option String) (now : Nat)

def World.after (s : World) (result : Except String (Table BulkJobRow)) : World :=
  { s with jobs := result.toOption.getD s.jobs }

def step (score : Nat → Option ℚ → ℚ) : Call → World → Option World
  | .create orgId size payload now, s => some (World.after s (create orgId size payload now s.jobs))
  | .poll call today candidate, s => Bulk.step score (.poll call today candidate) s
  | .update call now, s => Bulk.step score (.update call now) s
  | .processClaimed id now outcome, s =>
    some (World.after s (processClaimed id now outcome s.jobs))
  | .updateStatus id status metadata now, s =>
    some (World.after s (updateStatus id status metadata now s.jobs))

/-- The status and the metadata with which a worker's run ends. -/
def ended : Option (Nat × Nat) → String × String
  | none => ("failed", "\x7b\"failureReason\":\"INTERNAL_ERROR\"\x7d")
  | some (results, errors) => ("completed", "\x7b\"resultsCount\":" ++ toString results ++
      ",\"errorsCount\":" ++ toString errors ++ "\x7d")

/-- The metadata that the call gives for the job, if the job is in a status that may change so. -/
def Call.metadata (id : Nat) (s : World) : Call → Option String
  | .updateStatus key status text _ => given key status text
  | .processClaimed key _ outcome => given key (ended outcome).1 (some (ended outcome).2)
  | _ => none
where
  given (key : Nat) (status : String) (text : Option String) : Option String :=
    if key = id ∧ (s.jobs.get id).any fun row =>
        (BULK_JOB_STATUSES.lookup status).any (canTransition row.status) then text
    else none

/-- The claim whose poll picked the job is about to update it. -/
def Call.Claims (id : Nat) (s : World) : Call → Prop
  | .update claim _ => Map.get claim s.candidates = some (some id)
  | _ => False

/-- The last metadata given for the job along a run. -/
def lastMetadata (score : Nat → Option ℚ → ℚ) (id : Nat) : List Call → World → Option String
  | [], _ => none
  | call :: calls, s =>
    (step score call s).bind (lastMetadata score id calls) <|> call.metadata id s

variable {score : Nat → Option ℚ → ℚ} {s t u : World} {call : Call} {id : Nat} {row : BulkJobRow}

theorem mem_allowedFrom (source target : BulkJobStatus) :
    ((BULK_JOB_STATUSES.map Prod.snd).filter (canTransition · target)).contains source =
      canTransition source target := by
  cases source <;> cases target <;> rfl

theorem final_of_canTransition {source target : BulkJobStatus}
    (hf : source = .completed ∨ source = .cancelled) (h : canTransition source target) :
    target = source := by
  rcases hf with rfl | rfl <;> cases target <;> first | rfl | cases h

/-- What a step leaves of the row of a job: the payload unless it gives metadata, and a final
status exactly when it does not claim the job. -/
structure Kept (id : Nat) (s : World) (call : Call) (row row' : BulkJobRow) : Prop where
  payload : row'.payload = (call.metadata id s).getD row.payload
  status : row.status = .completed ∨ row.status = .cancelled →
    (row'.status = row.status ↔ ¬call.Claims id s)

theorem updateStatus_row (hRow : s.jobs.get id = some row) (key : Nat) (status : String)
    (text : Option String) (now : Nat) : ∃ row',
      (World.after s (updateStatus key status text now s.jobs)).jobs.get id = some row' ∧
      row'.payload = (Call.metadata.given id s key status text).getD row.payload ∧
      (row.status = .completed ∨ row.status = .cancelled → row'.status = row.status) := by
  unfold updateStatus Call.metadata.given
  split
  · next hn => exact ⟨row, hRow, by simp [hn], fun _ => rfl⟩
  · next target ht =>
    refine ⟨_, Table.get_updateWhere_of hRow _ _, ?_, fun hf => ?_⟩
    · simp only [Table.only, mem_allowedFrom, hRow, ht, Option.any_some]
      by_cases hk : key = id ∧ canTransition row.status target <;> grind
    · simp only [Table.only, mem_allowedFrom]
      split
      · next hp => exact final_of_canTransition hf (Bool.and_eq_true_iff.mp hp).2
      · rfl

theorem processClaimed_eq (now : Nat) (outcome : Option (Nat × Nat)) (jobs : Table BulkJobRow) :
    processClaimed id now outcome jobs =
      updateStatus id (ended outcome).1 (some (ended outcome).2) now jobs := by
  cases outcome <;> rfl

theorem create_row (hRow : s.jobs.get id = some row) (orgId : String) (size : Number)
    (payload : String) (now : Nat) :
    (World.after s (create orgId size payload now s.jobs)).jobs.get id = some row := by
  unfold create
  split
  · exact hRow
  · split
    · split
      · exact hRow
      · split
        · exact hRow
        · exact Table.get_insert.mpr (.inr hRow)
    · exact hRow

theorem step_row (hStep : step score call s = some t) (hRow : s.jobs.get id = some row) :
    ∃ row', t.jobs.get id = some row' ∧ Kept id s call row row' := by
  cases call with
  | create =>
    cases hStep
    exact ⟨row, create_row hRow .., rfl, fun _ => by simp [Call.Claims]⟩
  | poll =>
    obtain ⟨-, hw⟩ := Option.ite_none_right_eq_some.mp hStep
    cases hw
    exact ⟨row, hRow, rfl, fun _ => by simp [Call.Claims]⟩
  | update claim =>
    obtain ⟨candidate, hc, rfl⟩ := Option.map_eq_some_iff.mp hStep
    cases candidate with
    | none => exact ⟨row, hRow, rfl, fun _ => by simp [Call.Claims, hc]⟩
    | some key =>
      refine ⟨_, Table.get_updateWhere_of hRow _ _, ?_, fun hf => ?_⟩
      · by_cases hk : id = key <;> simp [Table.only, hk, Call.metadata]
      · by_cases hk : id = key <;> grind [Call.Claims, Table.only]
  | processClaimed key now outcome =>
    cases hStep
    rw [processClaimed_eq]
    obtain ⟨row', hg, hp, hs⟩ := updateStatus_row hRow key (ended outcome).1 _ now
    exact ⟨row', hg, hp, fun hf => by simp [Call.Claims, hs hf]⟩
  | updateStatus key status text now =>
    cases hStep
    obtain ⟨row', hg, hp, hs⟩ := updateStatus_row hRow key status text now
    exact ⟨row', hg, hp, fun hf => by simp [Call.Claims, hs hf]⟩

theorem run_row {calls : List Call} (hRow : s.jobs.get id = some row)
    (hRun : run (step score) calls s = some t) : ∃ row', t.jobs.get id = some row' ∧
      row'.payload = (lastMetadata score id calls s).getD row.payload := by
  induction calls generalizing s row with
  | nil =>
    cases hRun
    exact ⟨row, hRow, rfl⟩
  | cons call calls ih =>
    obtain ⟨w, hs, hr⟩ := run_cons.mp hRun
    obtain ⟨row₁, h₁, hk⟩ := step_row hs hRow
    obtain ⟨row', h', hp⟩ := ih h₁ hr
    refine ⟨row', h', ?_⟩
    rw [hp, hk.payload, lastMetadata, hs]
    cases hl : lastMetadata score id calls w <;> simp [hl]

/-- After any run a job that is claimed has the payload it had at first exactly when the last
metadata given for it, if any, is that payload; and a job that is completed or cancelled keeps its
status in a step exactly when the step is not the second half of a claim that picked it before. -/
theorem retry_same_payload {calls : List Call} (hRow : s.jobs.get id = some row)
    (hRun : run (step score) calls s = some t) (hStep : step score call t = some u) :
    ∃ row' row'', t.jobs.get id = some row' ∧ u.jobs.get id = some row'' ∧
      (∀ claim now, call = .update claim now → call.Claims id t →
        u.log = t.log ++ [.returned claim (some (id, row''))] ∧
        (row''.payload = row.payload ↔
          ∀ text ∈ lastMetadata score id calls s, text = row.payload)) ∧
      (row'.status = .completed ∨ row'.status = .cancelled →
        (row''.status = row'.status ↔ ¬call.Claims id t)) := by
  obtain ⟨row', h', hp⟩ := run_row hRow hRun
  obtain ⟨row'', h'', hk⟩ := step_row hStep h'
  refine ⟨row', row'', h', h'', ?_, hk.status⟩
  rintro claim now rfl hc
  obtain ⟨candidate, hm, rfl⟩ := Option.map_eq_some_iff.mp hStep
  obtain rfl : some id = candidate := Option.some.inj (hc.symm.trans hm)
  refine ⟨?_, ?_⟩
  · rw [claimRow]
    exact congrArg (fun job => t.log ++ [.returned claim (job.map fun job => (id, job))]) h''
  · have hl : row''.payload = row'.payload := hk.payload
    rw [hl, hp]
    cases lastMetadata score id calls s <;> simp

def created : World :=
  ⟨.insert .empty ⟨"acme", 1, "\x7b\"addresses\":[\"G1\"]\x7d", .pending, 0, 0⟩, [], [], []⟩

def claimedTwice : List Call :=
  [.poll 1 0 (some 1), .update 1 1, .updateStatus 1 "pending" none 2, .poll 2 0 (some 1)]

theorem retry_same_payload_reset : ∃ t u job,
    run (step fun _ _ => 0) claimedTwice created = some t ∧
    step (fun _ _ => 0) (.update 2 3) t = some u ∧
    u.log = t.log ++ [.returned 2 (some (1, job))] ∧
    job.payload = "\x7b\"addresses\":[\"G1\"]\x7d" := by
  obtain ⟨_, job, -, -, h, -⟩ := @retry_same_payload (fun _ _ => 0) created _ _ (.update 2 3) 1 _
    claimedTwice rfl rfl rfl
  obtain ⟨hl, hp⟩ := h 2 3 rfl rfl
  exact ⟨_, _, job, rfl, rfl, hl, hp.mpr (by decide)⟩

/-- A job that failed and is set to `pending` is claimed without its addresses, and a claim that
waited takes a completed job. -/
theorem retry_loses_addresses :
    (∃ t job, run (step fun _ _ => 0) [.poll 1 0 (some 1), .update 1 1, .processClaimed 1 2 none,
        .updateStatus 1 "pending" none 3, .poll 2 0 (some 1), .update 2 4] created = some t ∧
      t.log.getLast? = some (.returned 2 (some (1, job))) ∧
      job.payload = "\x7b\"failureReason\":\"INTERNAL_ERROR\"\x7d") ∧
    ∃ t u, run (step fun _ _ => 0) [.poll 1 0 (some 1), .poll 2 0 (some 1), .update 1 1,
        .processClaimed 1 2 (some (1, 0))] created = some t ∧
      (t.jobs.get 1).map (·.status) = some .completed ∧
      step (fun _ _ => 0) (.update 2 3) t = some u ∧
      (u.jobs.get 1).map (·.status) = some .running :=
  ⟨⟨_, _, rfl, rfl, rfl⟩, _, _, rfl, rfl, rfl, rfl⟩

end Credence.Bulk.Retry
