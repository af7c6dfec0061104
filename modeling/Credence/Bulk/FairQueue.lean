import Credence.Js.Map
import Credence.Js.Number
import Mathlib.Algebra.Order.Field.Rat

/-! `orderJobsByWfq` in exact arithmetic. No job starts before an earlier arrival. -/

namespace Credence.Bulk.FairQueue

open Js List

structure BulkJob where
  id : String
  orgId : String
  size : Number
  createdAt : ℚ
  deriving DecidableEq

structure OrgUsage where
  orgId : String
  usage : Number

def positiveOr (fallback : ℚ) : Number → ℚ
  | .finite q => if 0 < q then q else fallback
  | _ => fallback

def computeOrgWeight (usage : Number) : ℚ := 1 / (1 + positiveOr 0 usage)

def weightMap (orgUsages : List OrgUsage) : List (String × ℚ) :=
  orgUsages.foldl (fun map ou => Map.set ou.orgId (computeOrgWeight ou.usage) map) []

def weightOf (orgUsages : List OrgUsage) (orgId : String) : ℚ :=
  (Map.get orgId (weightMap orgUsages)).getD 1

def cost (orgUsages : List OrgUsage) (job : BulkJob) : ℚ :=
  positiveOr 1 job.size / weightOf orgUsages job.orgId

structure Scored where
  job : BulkJob
  finish : ℚ

def startOf (lastFinish : List (String × ℚ)) (globalVTime : ℚ) (job : BulkJob) : ℚ :=
  max ((Map.get job.orgId lastFinish).getD 0) globalVTime

def scored (orgUsages : List OrgUsage) (lastFinish : List (String × ℚ)) (globalVTime : ℚ) :
    List BulkJob → List Scored
  | [] => []
  | job :: jobs =>
    let start := startOf lastFinish globalVTime job
    let finish := start + cost orgUsages job
    ⟨job, finish⟩ :: scored orgUsages (Map.set job.orgId finish lastFinish) start jobs

def arrivals (jobs : List BulkJob) : List BulkJob :=
  jobs.mergeSort fun a b => a.createdAt ≤ b.createdAt

def Scored.le (a b : Scored) : Bool :=
  a.finish < b.finish ∨ a.finish = b.finish ∧ a.job.createdAt ≤ b.job.createdAt

def orderJobsByWfq (jobs : List BulkJob) (orgUsages : List OrgUsage) : List BulkJob :=
  ((scored orgUsages [] 0 (arrivals jobs)).mergeSort Scored.le).map Scored.job

variable {orgUsages : List OrgUsage} {lastFinish : List (String × ℚ)} {globalVTime : ℚ}
  {jobs : List BulkJob}

theorem positiveOr_nonneg {fallback : ℚ} (h : 0 ≤ fallback) (n : Number) :
    0 ≤ positiveOr fallback n := by
  unfold positiveOr
  split
  · split
    · next hp => exact hp.le
    · exact h
  · exact h

theorem weightOf_nonneg (orgId : String) : 0 ≤ weightOf orgUsages orgId := by
  have hm : ∀ orgId w, Map.get orgId (weightMap orgUsages) = some w → 0 ≤ w := by
    refine foldlRecOn (motive := fun map => ∀ orgId w, Map.get orgId map = some w → 0 ≤ w)
      orgUsages _ (fun _ _ h => nomatch h) fun map h ou _ orgId w hg => ?_
    rcases Map.get_of_set hg with ⟨-, rfl⟩ | hf
    · exact div_nonneg zero_le_one (add_nonneg zero_le_one (positiveOr_nonneg le_rfl _))
    · exact h orgId w hf
  unfold weightOf
  cases hg : Map.get orgId (weightMap orgUsages) with
  | none => exact zero_le_one
  | some w => exact hm orgId w hg

theorem cost_nonneg (job : BulkJob) : 0 ≤ cost orgUsages job :=
  div_nonneg (positiveOr_nonneg zero_le_one _) (weightOf_nonneg _)

theorem map_job_scored : (scored orgUsages lastFinish globalVTime jobs).map Scored.job = jobs := by
  induction jobs generalizing lastFinish globalVTime with
  | nil => rfl
  | cons job jobs ih => simp only [scored, map_cons, ih]

theorem start_le {x : Scored} (hx : x ∈ scored orgUsages lastFinish globalVTime jobs) :
    startOf lastFinish globalVTime x.job + cost orgUsages x.job ≤ x.finish := by
  induction jobs generalizing lastFinish globalVTime with
  | nil => cases hx
  | cons job jobs ih =>
    rcases mem_cons.mp hx with rfl | hx
    · exact le_rfl
    · refine (add_le_add_left (max_le_max ?_ (le_max_right _ _)) _).trans (ih hx)
      rw [Map.get_set]
      split
      · next ho =>
        rw [← ho]
        exact (le_max_left _ globalVTime).trans (le_add_of_nonneg_right (cost_nonneg job))
      · exact le_rfl

theorem pairwise_scored : (scored orgUsages lastFinish globalVTime jobs).Pairwise fun a b =>
    a.job.orgId = b.job.orgId ∨ cost orgUsages a.job = cost orgUsages b.job →
      a.finish ≤ b.finish := by
  induction jobs generalizing lastFinish globalVTime with
  | nil => exact .nil
  | cons job jobs ih =>
    refine .cons (fun x hx ha => ?_) ih
    have hs := start_le hx
    rcases ha with ho | hc
    · refine le_trans (le_max_of_le_left ?_) (le_of_add_le_of_nonneg_left hs (cost_nonneg _))
      rw [Map.get_set, if_pos ho]
      exact le_rfl
    · exact (add_le_add (le_max_right _ _) hc.le).trans hs

theorem pairwise_arrivals (jobs : List BulkJob) :
    (arrivals jobs).Pairwise fun a b => a.createdAt ≤ b.createdAt := by
  have hs := @pairwise_mergeSort _ (fun a b : BulkJob => a.createdAt ≤ b.createdAt)
    (by simpa using fun a b c h h' => le_trans h h') (by simpa using fun a b => le_total _ _) jobs
  simpa [arrivals] using hs

/-- Jobs of one organisation, and jobs of one cost, keep the order of their arrivals. -/
theorem filter_orderJobsByWfq {p : BulkJob → Bool}
    (hp : ∀ a ∈ jobs, ∀ b ∈ jobs, p a = true → p b = true →
      a.orgId = b.orgId ∨ cost orgUsages a = cost orgUsages b) :
    (orderJobsByWfq jobs orgUsages).filter p = (arrivals jobs).filter p := by
  have hj := @map_job_scored orgUsages [] 0 (arrivals jobs)
  have hc := pairwise_map.mp (hj ▸ pairwise_arrivals jobs)
  have hm : ∀ x ∈ scored orgUsages [] 0 (arrivals jobs), x.job ∈ jobs := fun x hx =>
    (mergeSort_perm ..).mem_iff.mp (hj ▸ mem_map_of_mem hx)
  have hs := ((pairwise_scored.and hc).filter (p ∘ Scored.job)).imp_of_mem
    fun {a b} ha hb ⟨hf, hg⟩ => by
      obtain ⟨ha, hd⟩ := mem_filter.mp ha
      obtain ⟨hb, hi⟩ := mem_filter.mp hb
      have hn := hf (hp _ (hm a ha) _ (hm b hb) hd hi)
      show a.le b = true
      exact decide_eq_true (hn.lt_or_eq.imp_right fun he => ⟨he, hg⟩)
  have hk := (sublist_mergeSort (by grind [Scored.le]) (by grind [Scored.le]) hs
    filter_sublist).filter (p ∘ Scored.job)
  have hl := (mergeSort_perm (scored orgUsages [] 0 (arrivals jobs)) Scored.le).filter
    (p ∘ Scored.job)
  simp only [filter_filter, Bool.and_self] at hk
  rw [orderJobsByWfq, filter_map, ← hk.eq_of_length hl.length_eq.symm, ← filter_map, hj]

def ofEither (o o' orgId : String) : Bool := orgId = o ∨ orgId = o'

/-- While jobs of both organisations are left, the numbers served differ by at most one; the list
has the organisation of each job. -/
def Fair (o o' : String) (orgs : List String) : Prop :=
  ∀ n, o ∈ orgs.drop n → o' ∈ orgs.drop n → (orgs.take n).count o ≤ (orgs.take n).count o' + 1 ∧
    (orgs.take n).count o' ≤ (orgs.take n).count o + 1

theorem Fair.congr {o o' : String} {orgs others : List String} (hf : Fair o o' orgs)
    (h : orgs.filter (ofEither o o') = others.filter (ofEither o o')) : Fair o o' others := by
  intro n hl hl'
  have ho : ofEither o o' o = true := by simp [ofEither]
  have ho' : ofEither o o' o' = true := by simp [ofEither]
  rw [← take_append_drop n others, filter_append, filter_eq_append_iff] at h
  obtain ⟨served, left, rfl, hs, hr⟩ := h
  have hm : ∀ org ∈ others.drop n, ofEither o o' org = true → org ∈ left :=
    fun org ha he => (mem_filter.mp (hr ▸ mem_filter.mpr ⟨ha, he⟩)).1
  have hp := hf served.length
  rw [take_left, drop_left] at hp
  rw [← count_filter ho, ← count_filter ho', ← hs, count_filter ho,
    count_filter ho']
  exact hp (hm o hl ho) (hm o' hl' ho')

/-- The order is a permutation that keeps the creation order of each organisation's jobs, and is
fair to two organisations of one weight and job size exactly if their jobs were created in a fair
order. -/
theorem wfq_order (jobs : List BulkJob) (orgUsages : List OrgUsage) :
    (orderJobsByWfq jobs orgUsages).Perm jobs ∧
    (∀ o, ((orderJobsByWfq jobs orgUsages).filter fun job => job.orgId = o).Pairwise
      fun a b => a.createdAt ≤ b.createdAt) ∧
    ∀ o o', weightOf orgUsages o = weightOf orgUsages o' →
      (∀ a ∈ jobs, ∀ b ∈ jobs, ofEither o o' a.orgId = true → ofEither o o' b.orgId = true →
        a.size = b.size) →
      (Fair o o' ((orderJobsByWfq jobs orgUsages).map BulkJob.orgId) ↔
        Fair o o' ((arrivals jobs).map BulkJob.orgId)) := by
  refine ⟨?_, fun o => ?_, fun o o' hw hi => ?_⟩
  · have hp := (mergeSort_perm (scored orgUsages [] 0 (arrivals jobs)) Scored.le).map
      Scored.job
    rw [map_job_scored] at hp
    exact hp.trans (mergeSort_perm ..)
  · rw [filter_orderJobsByWfq fun a _ b _ ha hb =>
      .inl ((of_decide_eq_true ha).trans (of_decide_eq_true hb).symm)]
    exact (pairwise_arrivals jobs).filter _
  · have hs : ∀ org, ofEither o o' org = true →
        weightOf orgUsages org = weightOf orgUsages o' := fun org hr =>
      (of_decide_eq_true hr).elim (fun h => h ▸ hw) fun h => h ▸ rfl
    have ho : ((orderJobsByWfq jobs orgUsages).map BulkJob.orgId).filter (ofEither o o') =
        ((arrivals jobs).map BulkJob.orgId).filter (ofEither o o') := by
      rw [filter_map, filter_map, filter_orderJobsByWfq fun a ha b hb hc hd => .inr ?_]
      rw [cost, cost, hi a ha b hb hc hd, hs _ hc, hs _ hd]
    exact ⟨fun hf => hf.congr ho, fun hf => hf.congr ho.symm⟩

def backlog : List BulkJob :=
  [⟨"a1", "a", 1, 1⟩, ⟨"a2", "a", 1, 2⟩, ⟨"a3", "a", 1, 3⟩, ⟨"b1", "b", 1, 4⟩, ⟨"b2", "b", 1, 5⟩]

theorem wfq_order_backlog :
    Fair "a" "b" ((orderJobsByWfq backlog [⟨"a", 2⟩, ⟨"b", 2⟩]).map BulkJob.orgId) ↔
      Fair "a" "b" ((arrivals backlog).map BulkJob.orgId) :=
  (wfq_order backlog _).2.2 "a" "b" (by decide +kernel) (by decide +kernel)

/-- Two jobs of the first organisation are served before any of the second. -/
theorem backlog_unfair : (orderJobsByWfq backlog []).map BulkJob.orgId = ["a", "a", "a", "b", "b"] ∧
      ¬ Fair "a" "b" ["a", "a", "a", "b", "b"] := by
  constructor
  · have ha : arrivals backlog = backlog := mergeSort_of_pairwise (by decide +kernel)
    rw [orderJobsByWfq, ha, mergeSort_of_pairwise (by decide +kernel)]
    rfl
  · intro hf
    exact absurd (hf 2 (by decide) (by decide)).1 (by decide)

end Credence.Bulk.FairQueue
