import Credence.Js.Map
import Credence.ProofKit.Lists
import Credence.ProofKit.Runs
import Credence.ProofKit.Table
import Mathlib.Algebra.Order.Ring.Unbundled.Rat

/-! `claimNextQueuedWfq` picks a job on its snapshot and then updates the row. An `UPDATE` that
waited compares only the ids of the snapshot, so the halves are two steps. -/

namespace Credence.Bulk

open Js ProofKit Option

inductive BulkJobStatus where
  | pending
  | running
  | completed
  | failed
  | cancelled
  deriving DecidableEq

structure BulkJobRow where
  orgId : String
  size : Nat
  payload : String
  status : BulkJobStatus
  createdAt : Nat
  updatedAt : Nat
  deriving DecidableEq

structure OrgUsage where
  orgId : String
  day : Nat
  usage : Option ℚ

inductive Event where
  | returned (call : Nat) (job : Option (Nat × BulkJobRow))
  | wrote (id : Nat) (status : BulkJobStatus)
  deriving DecidableEq

structure World where
  jobs : Table BulkJobRow
  usage : List OrgUsage
  candidates : List (Nat × Option Nat)
  log : List Event

structure Scored where
  id : Nat
  wfqScore : ℚ
  createdAt : Nat

/-- The usages that the organisation is joined with: `none` where it has no row for the day. -/
def orgUsages (usage : List OrgUsage) (orgId : String) (today : Nat) : List (Option ℚ) :=
  match usage.filter fun row => row.orgId = orgId ∧ row.day = today with
  | [] => [none]
  | rows => rows.map fun row => some (row.usage.getD 0)

section

variable (score : Nat → Option ℚ → ℚ)

/-- `score` is `size::float / weight`, where the weight is `1.0 / (1 + usage)`, or `1.0` without a
row, with the roundings of the database. -/
def scored (s : World) (today : Nat) : List Scored := (List.range s.jobs.nextId).flatMap fun id =>
    match s.jobs.get id with
    | none => []
    | some job =>
      if job.status = .pending then
        (orgUsages s.usage job.orgId today).map fun usage =>
          ⟨id, score job.size usage, job.createdAt⟩
      else []

/-- A result of `ORDER BY wfq_score ASC, created_at ASC LIMIT 1`. -/
def IsFirst (rows : List Scored) : Option Nat → Prop
  | none => rows = []
  | some id => ∃ row ∈ rows, row.id = id ∧ ∀ other ∈ rows, row.wfqScore < other.wfqScore ∨
        row.wfqScore = other.wfqScore ∧ row.createdAt ≤ other.createdAt

instance (rows : List Scored) : DecidablePred (IsFirst rows)
  | none => inferInstanceAs (Decidable (rows = []))
  | some _ => inferInstanceAs (Decidable (∃ row ∈ rows, _ ∧ _))

/-- `poll` and `update` are the two halves of a claim; the others are statements of anyone else. -/
inductive Action where
  | poll (call today : Nat) (candidate : Option Nat)
  | update (call now : Nat)
  | insert (job : BulkJobRow)
  | write (id : Nat) (job : BulkJobRow)
  | meter (usage : List OrgUsage)

def claimRow (jobs : Table BulkJobRow) (candidate : Option Nat) (now : Nat) :
    Table BulkJobRow × Option (Nat × BulkJobRow) :=
  match candidate with
  | none => (jobs, none)
  | some id =>
    let claimed := jobs.updateWhere (Table.only id fun _ => true) fun job =>
      { job with status := .running, updatedAt := now }
    (claimed, (claimed.get id).map fun job => (id, job))

def step : Action → World → Option World
  | .poll call today candidate, s =>
    if Map.get call s.candidates = none ∧ IsFirst (scored score s today) candidate then
      some { s with candidates := Map.set call candidate s.candidates }
    else none
  | .update call now, s =>
    (Map.get call s.candidates).map fun candidate =>
      let (jobs, row) := claimRow s.jobs candidate now
      { s with
        jobs
        candidates := Map.delete call s.candidates
        log := s.log ++ [.returned call row] }
  | .insert job, s => some { s with jobs := s.jobs.insert job }
  | .write id job, s =>
    (s.jobs.get id).map fun _ =>
      { s with
        jobs := s.jobs.updateWhere (Table.only id fun _ => true) fun _ => job
        log := s.log ++ [.wrote id job.status] }
  | .meter usage, s => some { s with usage }

/-- Between two claims of a job its status was set back to `pending`. -/
def ClaimedOnce (log : List Event) : Prop :=
  ∀ (i j call call' id : Nat) (job job' : BulkJobRow), i < j →
    log[i]? = some (.returned call (some (id, job))) →
    log[j]? = some (.returned call' (some (id, job'))) →
    ∃ k, i < k ∧ k < j ∧ log[k]? = some (.wrote id .pending)

/-- A claimed job is pending again only after a write of `pending`. -/
structure Ok (s : World) : Prop where
  held : ∀ {i call id : Nat} {job row : BulkJobRow},
    s.log[i]? = some (.returned call (some (id, job))) → s.jobs.get id = some row →
    row.status = .pending → ∃ k, i < k ∧ s.log[k]? = some (.wrote id .pending)
  claimed : ∀ {i call id : Nat} {job : BulkJobRow},
    s.log[i]? = some (.returned call (some (id, job))) → id < s.jobs.nextId
  claimedOnce : ClaimedOnce s.log

def StillPending : Action → World → Prop
  | .update call _, s =>
    ((Map.get call s.candidates).join.bind s.jobs.get).all (·.status = .pending)
  | _, _ => True

instance (a : Action) (s : World) : Decidable (StillPending a s) :=
  match a with
  | .update _ _ => inferInstanceAs (Decidable (_ = true))
  | .poll _ _ _ | .insert _ | .write _ _ | .meter _ => isTrue trivial

variable {score} {s t : World} {a : Action}

/-- Rows outside `changed` are as they were or are new. -/
structure Keeps (changed : Nat → Prop) (jobs jobs' : Table BulkJobRow) : Prop where
  grows : jobs.nextId ≤ jobs'.nextId
  rows : ∀ {id row}, jobs'.get id = some row → ¬ changed id →
    jobs.get id = some row ∨ jobs.nextId ≤ id

inductive Turn (a : Action) (s t : World) : Prop
  | quiet (hLog : t.log = s.log) (hKeeps : Keeps (fun _ => False) s.jobs t.jobs)
  | missed (call : Nat) (hLog : t.log = s.log ++ [.returned call none])
      (hKeeps : Keeps (fun _ => False) s.jobs t.jobs)
  | claim (call now id : Nat) (job : BulkJobRow) (hAction : a = .update call now)
      (hCandidate : Map.get call s.candidates = some (some id)) (hBefore : s.jobs.get id = some job)
      (hAfter : t.jobs.get id = some { job with status := .running, updatedAt := now })
      (hLog : t.log =
        s.log ++ [.returned call (some (id, { job with status := .running, updatedAt := now }))])
      (hKeeps : Keeps (· = id) s.jobs t.jobs)
  | write (id : Nat) (job : BulkJobRow) (hLog : t.log = s.log ++ [.wrote id job.status])
      (hAfter : t.jobs.get id = some job) (hKeeps : Keeps (· = id) s.jobs t.jobs)

theorem Keeps.refl (changed : Nat → Prop) (jobs : Table BulkJobRow) : Keeps changed jobs jobs where
  grows := Nat.le_refl _
  rows hg _ := .inl hg

theorem Keeps.insert (changed : Nat → Prop) (jobs : Table BulkJobRow) (job : BulkJobRow) :
    Keeps changed jobs (jobs.insert job) where
  grows := by simp
  rows hg _ := by
    rcases Table.get_insert.mp hg with ⟨rfl, -⟩ | hg
    · exact .inr (Nat.le_refl _)
    · exact .inl hg

theorem Keeps.updateWhere (jobs : Table BulkJobRow) (id : Nat) (f : BulkJobRow → BulkJobRow) :
    Keeps (· = id) jobs (jobs.updateWhere (Table.only id fun _ => true) f) where
  grows := Nat.le_refl _
  rows hg ho := by
    obtain ⟨row, hr, rfl⟩ := Table.get_updateWhere.mp hg
    exact .inl (by simpa [Table.only, ho] using hr)

variable {jobs : Table BulkJobRow} {id i : Nat} {row : BulkJobRow} {changed : Nat → Prop}
  {log : List Event} {event : Event}

theorem Keeps.of_absent {jobs' : Table BulkJobRow} (h : Keeps (· = id) jobs jobs')
    (ha : jobs'.get id = none) : Keeps (fun _ => False) jobs jobs' where
  grows := h.grows
  rows {other row} hg _ := by
    by_cases ho : other = id
    · rw [ho, ha] at hg
      cases hg
    · exact h.rows hg ho

theorem get_updateWhere_only (h : jobs.get id = some row) (f : BulkJobRow → BulkJobRow) :
    (jobs.updateWhere (Table.only id fun _ => true) f).get id = some (f row) := by
  simp [Table.get_updateWhere_of h, Table.only]

theorem step_turn (h : step score a s = some t) : Turn a s t := by
  cases a with
  | poll =>
    obtain ⟨-, hw⟩ := ite_none_right_eq_some.mp h
    cases hw
    exact .quiet rfl (.refl ..)
  | update call now =>
    obtain ⟨candidate, hc, rfl⟩ := map_eq_some_iff.mp h
    cases candidate with
    | none => exact .missed call rfl (.refl ..)
    | some id =>
      have hk := Keeps.updateWhere s.jobs id fun job =>
        { job with status := .running, updatedAt := now }
      cases hb : s.jobs.get id with
      | none =>
        have ha : (claimRow s.jobs (some id) now).1.get id = none := by
          simp [claimRow, Table.updateWhere, hb]
        exact .missed call (by simpa [claimRow] using ha) (hk.of_absent ha)
      | some job =>
        have ha := get_updateWhere_only hb fun job =>
          { job with status := .running, updatedAt := now }
        exact .claim call now id job rfl hc hb ha
          (by simp only [claimRow, ha, map_some]) hk
  | insert =>
    cases h
    exact .quiet rfl (.insert ..)
  | write id job =>
    obtain ⟨row, hb, rfl⟩ := map_eq_some_iff.mp h
    exact .write id job rfl (get_updateWhere_only hb _) (.updateWhere ..)
  | meter =>
    cases h
    exact .quiet rfl (.refl ..)

theorem Ok.held_of_keeps (h : Ok s) (hk : Keeps changed s.jobs t.jobs) {call : Nat}
    {job : BulkJobRow} (ho : ¬ changed id)
    (hc : s.log[i]? = some (.returned call (some (id, job)))) (hg : t.jobs.get id = some row)
    (hp : row.status = .pending) : ∃ k, i < k ∧ s.log[k]? = some (.wrote id .pending) := by
  rcases hk.rows hg ho with hg | hn
  · exact h.held hc hg hp
  · exact absurd (h.claimed hc) (Nat.not_lt.mpr hn)

theorem lt_of_getElem? (h : log[i]? = some event) :
    i < log.length := (List.getElem?_eq_some_iff.mp h).1

theorem getElem?_of_append {new : Event} {k : Nat} (h : log[k]? = some event) :
    (log ++ [new])[k]? = some event :=
  getElem?_concat_eq_some_iff.mpr (.inl h)

theorem Ok.append (h : Ok s) (hl : t.log = s.log ++ [event]) (hd : Keeps changed s.jobs t.jobs)
    (hh : ∀ {id row}, changed id → t.jobs.get id = some row → row.status = .pending →
      event = .wrote id .pending)
    (hc : ∀ {call id job}, event = .returned call (some (id, job)) → id < s.jobs.nextId ∧
      (∀ {row}, t.jobs.get id = some row → row.status ≠ .pending) ∧
      ∀ {i call' : Nat} {job' : BulkJobRow}, s.log[i]? = some (.returned call' (some (id, job'))) →
      ∃ k, i < k ∧ s.log[k]? = some (.wrote id .pending)) : Ok t where
  held {i call id job row} ha hg hp := by
    rw [hl] at ha ⊢
    rcases getElem?_concat_eq_some_iff.mp ha with ha | ⟨-, he⟩
    · by_cases hi : changed id
      · refine ⟨s.log.length, lt_of_getElem? ha, ?_⟩
        exact getElem?_concat_eq_some_iff.mpr (.inr ⟨rfl, hh hi hg hp⟩)
      · obtain ⟨k, hj, hw⟩ := h.held_of_keeps hd hi ha hg hp
        exact ⟨k, hj, getElem?_of_append hw⟩
    · exact absurd hp ((hc he).2.1 hg)
  claimed ha := by
    rw [hl] at ha
    rcases getElem?_concat_eq_some_iff.mp ha with ha | ⟨-, he⟩
    · exact Nat.lt_of_lt_of_le (h.claimed ha) hd.grows
    · exact Nat.lt_of_lt_of_le (hc he).1 hd.grows
  claimedOnce i j call call' id job job' hLt hf hs := by
    rw [hl] at hf hs ⊢
    have hb {k : Nat} (hk : k < s.log.length)
        (ha : (s.log ++ [event])[k]? = some (.returned call (some (id, job)))) :
        s.log[k]? = some (.returned call (some (id, job))) := by
      rwa [List.getElem?_append_left hk] at ha
    rcases getElem?_concat_eq_some_iff.mp hs with hs | ⟨rfl, he⟩
    · have hf := hb (hLt.trans (lt_of_getElem? hs)) hf
      obtain ⟨k, hm, hu, hw⟩ := h.claimedOnce i j call call' id job job' hLt hf hs
      exact ⟨k, hm, hu, getElem?_of_append hw⟩
    · obtain ⟨k, hm, hw⟩ := (hc he).2.2 (hb hLt hf)
      exact ⟨k, hm, lt_of_getElem? hw, getElem?_of_append hw⟩

theorem Ok.step (h : Ok s) (hp : StillPending a s) (hs : Bulk.step score a s = some t) : Ok t := by
  cases step_turn hs with
  | quiet hl hk =>
    constructor
    · intro i call id job row ha hg hp
      rw [hl] at ha ⊢
      exact h.held_of_keeps hk not_false ha hg hp
    · intro i call id job ha
      exact Nat.lt_of_lt_of_le (h.claimed (hl ▸ ha)) hk.grows
    · exact hl ▸ h.claimedOnce
  | missed call hl hk =>
    apply h.append hl hk
    · intro id row hf
      exact hf.elim
    · intro call id job he
      cases he
  | claim call now id job hd hc hb hi hl hk =>
    subst hd
    have hw : job.status = .pending := by
      simpa [StillPending, hc, hb] using hp
    apply h.append hl hk
    · rintro _ row rfl hg hp
      rw [hi] at hg
      cases hg
      cases hp
    · intro _ _ _ he
      cases he
      refine ⟨Table.lt_nextId hb, ?_, fun ha => h.held ha hb hw⟩
      intro row hg
      rw [hi] at hg
      cases hg
      simp
  | write id job hl hi hk =>
    apply h.append hl hk
    · rintro _ row rfl hg hp
      rw [hi] at hg
      cases hg
      rw [hp]
    · intro _ _ _ he
      cases he

structure Fresh (s : World) : Prop where
  candidates : s.candidates = []
  log : s.log = []

theorem Ok.of_fresh (h : Fresh s) : Ok s where
  held ha := by simp [h.log] at ha
  claimed ha := by simp [h.log] at ha
  claimedOnce := by simp [ClaimedOnce, h.log]

end

/-- Where the row that a claim has picked is still `pending` at the `UPDATE`, no job is returned
twice unless it was given back in between. -/
theorem jobs_claimed_once (score : Nat → Option ℚ → ℚ) (actions : List Action) (s t : World)
    (hFresh : Fresh s) (hPending : Along (step score) StillPending actions s)
    (hRun : run (step score) actions s = some t) : ClaimedOnce t.log :=
  (run_invariant Ok (fun _ _ _ ho hPending hs => ho.step hPending hs) (.of_fresh hFresh)
    hPending hRun).claimedOnce

def exactScore (size : Nat) (usage : Option ℚ) : ℚ := size * (1 + usage.getD 0)

def pendingJob : BulkJobRow := ⟨"acme", 3, "[]", .pending, 100, 100⟩

def oneJob : World := ⟨Table.empty.insert pendingJob, [⟨"acme", 7, some 2⟩], [], []⟩

def givenBack : List Action :=
  [.poll 0 7 (some 1), .update 0 200, .write 1 pendingJob, .poll 1 7 (some 1), .update 1 300]

def overlapping : List Action :=
  [.poll 0 7 (some 1), .poll 1 7 (some 1), .update 0 200, .update 1 201]

theorem jobs_claimed_once_givenBack :
    ∃ t, run (step exactScore) givenBack oneJob = some t ∧ t.log.length = 3 ∧
      ClaimedOnce t.log := by
  have hl : (run (step exactScore) givenBack oneJob).map (·.log.length) = some 3 := by
    decide +kernel
  obtain ⟨t, hr, hle⟩ := map_eq_some_iff.mp hl
  exact ⟨t, hr, hle,
    jobs_claimed_once exactScore givenBack oneJob t ⟨rfl, rfl⟩ (by decide +kernel) hr⟩

theorem overlapping_claims_return_one_job :
    ∃ t, Fresh oneJob ∧ run (step exactScore) overlapping oneJob = some t ∧
      ¬ ClaimedOnce t.log := by
  have hl : (run (step exactScore) overlapping oneJob).map World.log =
      some [.returned 0 (some (1, { pendingJob with status := .running, updatedAt := 200 })),
        .returned 1 (some (1, { pendingJob with status := .running, updatedAt := 201 }))] := by
    decide +kernel
  obtain ⟨t, hr, hl⟩ := map_eq_some_iff.mp hl
  refine ⟨t, ⟨rfl, rfl⟩, hr, ?_⟩
  intro ho
  rw [hl] at ho
  obtain ⟨k, ha, hu, -⟩ := ho 0 1 0 1 1 _ _ Nat.one_pos rfl rfl
  omega

end Credence.Bulk
