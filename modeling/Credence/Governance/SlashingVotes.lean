import Credence.Js.Double
import Mathlib.Data.List.Nodup

/-! `createSlashRequest` and `submitVote`. A request is decided as soon as the votes that are
missing cannot change the outcome, and refuses every later vote. -/

namespace Credence.Governance.SlashingVotes

open Js List

inductive VoteChoice where
  | approve
  | reject
  deriving DecidableEq

inductive SlashRequestStatus where
  | pending
  | approved
  | rejected
  deriving DecidableEq

def SlashRequestStatus.text : SlashRequestStatus → String
  | pending => "pending"
  | approved => "approved"
  | rejected => "rejected"

structure Vote where
  voterId : String
  choice : VoteChoice
  deriving DecidableEq

structure SlashRequest where
  votes : List Vote
  status : SlashRequestStatus
  threshold : ℚ
  totalSigners : ℚ

structure VoteResult where
  voterId : String
  choice : VoteChoice
  approveCount : Nat
  rejectCount : Nat
  status : SlashRequestStatus

def countOf (choice : VoteChoice) (votes : List Vote) : Nat :=
  votes.countP fun vote => vote.choice = choice

def computeStatus (req : SlashRequest) : SlashRequestStatus :=
  let approveCount := countOf .approve req.votes
  let rejectCount := countOf .reject req.votes
  let remainingVoters := double (req.totalSigners - req.votes.length)
  if req.threshold ≤ approveCount then .approved
  else if double (approveCount + remainingVoters) < req.threshold then .rejected
  else if double (req.totalSigners - req.threshold) < rejectCount then .rejected
  else .pending

def createSlashRequest (threshold totalSigners : Option ℚ) : Except String SlashRequest :=
  let resolvedThreshold := threshold.getD 3
  let resolvedTotal := totalSigners.getD 5
  if resolvedThreshold < 1 then .error "threshold must be >= 1"
  else if resolvedTotal < resolvedThreshold then .error "totalSigners must be >= threshold"
  else .ok ⟨[], .pending, resolvedThreshold, resolvedTotal⟩

def submitVote (req : SlashRequest) (vote : Vote) : Except String (SlashRequest × VoteResult) :=
  if req.status ≠ .pending then .error ("Slash request is already " ++ req.status.text)
  else if req.votes.any fun other => other.voterId = vote.voterId then
    .error ("Voter " ++ vote.voterId ++ " has already voted on this request")
  else
    let votes := req.votes ++ [vote]
    let status := computeStatus { req with votes }
    .ok ({ req with votes, status },
      ⟨vote.voterId, vote.choice, countOf .approve votes, countOf .reject votes, status⟩)

def submit (req : SlashRequest) (vote : Vote) : SlashRequest :=
  match submitVote req vote with
  | .ok (after, _) => after
  | .error _ => req

def statusOf (k n : ℤ) (votes : List Vote) : SlashRequestStatus :=
  if k ≤ countOf .approve votes then .approved
  else if countOf .approve votes + (n - votes.length) < k then .rejected
  else .pending

/-- The request holds the first votes submitted, and the status that they give. -/
structure Recorded (k n : ℤ) (submitted : List Vote) (req : SlashRequest) : Prop where
  threshold : req.threshold = k
  totalSigners : req.totalSigners = n
  positive : 1 ≤ k
  signers : k ≤ n
  safe : n ≤ 2 ^ 53
  status : req.status = statusOf k n req.votes
  length : req.votes.length ≤ n
  refused : ∃ refused, submitted = req.votes ++ refused ∧ (req.status = .pending → refused = [])

variable {k n : ℤ} {req : SlashRequest} {submitted : List Vote} {vote : Vote}

theorem countOf_add (votes : List Vote) :
    countOf .approve votes + countOf .reject votes = votes.length := by
  induction votes with
  | nil => rfl
  | cons vote votes ih => cases hc : vote.choice <;> simp_all [countOf] <;> omega

theorem double_eq {q : ℚ} {m : ℤ} (h : q = m) (hs : -2 ^ 53 ≤ m ∧ m ≤ 2 ^ 53) : double q = m := by
  rw [h, double_intCast (abs_le.mpr hs)]

theorem Recorded.computeStatus_eq (h : Recorded k n submitted req) {votes : List Vote}
    (hl : votes.length ≤ n) : computeStatus { req with votes } = statusOf k n votes := by
  obtain ⟨ht, ha, hp, hi, hb, -⟩ := h
  have hc := countOf_add votes
  have hr := @double_eq (n - votes.length) (n - votes.length) (by simp) (by omega)
  have he := @double_eq (countOf .approve votes + ((n - votes.length : ℤ) : ℚ))
    (countOf .approve votes + (n - votes.length)) (by simp) (by omega)
  have hs := @double_eq (n - k) (n - k) (by simp) (by omega)
  simp only [computeStatus, ht, ha, hr, he, hs, statusOf]
  norm_cast
  split_ifs <;> first | rfl | omega

theorem Recorded.length_lt (h : Recorded k n submitted req) (hp : req.status = .pending) :
    req.votes.length < n := by
  have hs := h.status
  rw [hp, statusOf] at hs
  split_ifs at hs
  omega

theorem Recorded.submit (h : Recorded k n submitted req)
    (hn : vote.voterId ∉ submitted.map Vote.voterId) :
    Recorded k n (submitted ++ [vote]) (submit req vote) ∧
      (req.status ≠ .pending → submit req vote = req) := by
  obtain ⟨refused, hs, hr⟩ := h.refused
  unfold SlashingVotes.submit submitVote
  by_cases hp : req.status = .pending
  · obtain rfl : req.votes = submitted := by simp [hs, hr hp]
    have hv : (req.votes.any fun other => other.voterId = vote.voterId) = false := by
      simpa using hn
    have hl : ((req.votes ++ [vote]).length : ℤ) ≤ n := by
      simpa using Int.add_one_le_of_lt (h.length_lt hp)
    simp only [hp, hv, ne_eq, not_true_eq_false, if_false, Bool.false_eq_true]
    exact ⟨{ h with
      status := h.computeStatus_eq hl
      length := hl
      refused := ⟨[], by simp⟩ }, by simp⟩
  · simp only [hp, ne_eq, not_false_eq_true, if_true]
    exact ⟨{ h with
      refused := ⟨refused ++ [vote], by simp [hs], fun h => absurd h hp⟩ }, fun _ => trivial⟩

theorem Recorded.submitAll (h : Recorded k n submitted req) {ballots : List Vote}
    (hd : ((submitted ++ ballots).map Vote.voterId).Nodup) :
    Recorded k n (submitted ++ ballots) (ballots.foldl SlashingVotes.submit req) ∧
      (req.status ≠ .pending → ballots.foldl SlashingVotes.submit req = req) := by
  induction ballots generalizing req submitted with
  | nil => simpa using h
  | cons vote ballots ih =>
    have hn : vote.voterId ∉ submitted.map Vote.voterId := fun hm => by
      rw [map_append, nodup_append] at hd
      exact hd.2.2 _ hm _ (by simp) rfl
    obtain ⟨hne, hk⟩ := h.submit hn
    obtain ⟨hl, hr⟩ := ih hne (by simpa using hd)
    refine ⟨by simpa using hl, fun he => ?_⟩
    rw [foldl_cons, hk he] at *
    exact hr he

theorem Recorded.complete (h : Recorded k n submitted req) (ha : submitted.length = n) :
    req.status = if k ≤ countOf .approve submitted then .approved else .rejected := by
  obtain ⟨refused, rfl, hr⟩ := h.refused
  have hp : countOf .approve (req.votes ++ refused) =
      countOf .approve req.votes + countOf .approve refused := countP_append ..
  have hm : countOf .approve refused ≤ refused.length := countP_le_length
  have hs := h.status
  have hh := h.length_lt
  rw [length_append] at ha
  rw [hp]
  unfold statusOf at hs
  split_ifs at hs ⊢
  case _ => exact hs
  all_goals grind

theorem recorded_of_create {threshold totalSigners : Option ℚ}
    (hc : createSlashRequest threshold totalSigners = .ok req)
    (ht : req.threshold = k) (ha : req.totalSigners = n) (hb : n ≤ 2 ^ 53) :
    Recorded k n [] req := by
  simp only [createSlashRequest] at hc
  split at hc
  · cases hc
  · next hl =>
    split at hc
    · cases hc
    · next hh =>
      cases hc
      dsimp only at ht ha
      rw [ht] at hl hh
      rw [ha] at hh
      have hp : 1 ≤ k := by exact_mod_cast not_lt.mp hl
      have hs : k ≤ n := by exact_mod_cast not_lt.mp hh
      refine ⟨ht, ha, hp, hs, hb, ?_, by simp; omega, [], by simp⟩
      simp [statusOf, countOf, not_le.mpr (Int.zero_lt_one.trans_le hp), hs]

/-- For up to `2 ^ 53` signers the status is that of the recorded votes, does not change once
decided, and `n` votes decide it, in every order alike. -/
theorem slash_votes_decide {threshold totalSigners : Option ℚ} {req : SlashRequest} {k n : ℤ}
    (hCreate : createSlashRequest threshold totalSigners = .ok req)
    (hThreshold : req.threshold = k) (hTotal : req.totalSigners = n) (hSafe : n ≤ 2 ^ 53)
    {ballots : List Vote} (hDistinct : (ballots.map Vote.voterId).Nodup) :
    let final := ballots.foldl submit req
    (final.status = .approved ↔ k ≤ countOf .approve final.votes) ∧
    (final.status = .rejected ↔ countOf .approve final.votes + (n - final.votes.length) < k) ∧
    (∀ before after, ballots = before ++ after → (before.foldl submit req).status ≠ .pending →
      final.status = (before.foldl submit req).status) ∧
    (n ≤ ballots.length → final.status ≠ .pending) ∧
    (ballots.length = n → ∀ other, ballots.Perm other → (other.foldl submit req).status =
      if k ≤ countOf .approve ballots then .approved else .rejected) := by
  intro final
  have hs := recorded_of_create hCreate hThreshold hTotal hSafe
  have hr : ∀ list : List Vote, (list.map Vote.voterId).Nodup →
      Recorded k n list (list.foldl submit req) :=
    fun list hn => (hs.submitAll hn).1
  have hf : Recorded k n ballots final := hr ballots hDistinct
  have hl := hf.length
  refine ⟨?_, ?_, ?_, ?_, ?_⟩
  · rw [hf.status, statusOf]
    split_ifs <;> simp [*]
  · rw [hf.status, statusOf]
    split_ifs <;> simp <;> omega
  · rintro before after rfl hd
    have he := hr before ((map_append ▸ hDistinct).of_append_left)
    have hk := (he.submitAll hDistinct).2 hd
    rw [← foldl_append] at hk
    exact congrArg SlashRequest.status hk
  · intro hm hc
    have hh := hf.length_lt hc
    obtain ⟨refused, hb, hg⟩ := hf.refused
    rw [hg hc, append_nil] at hb
    rw [← hb] at hh
    omega
  · intro ha other hp
    have ho := hr other ((hp.map _).nodup_iff.mp hDistinct)
    rw [ho.complete (by rw [← hp.length_eq, ha]), countOf, ← hp.countP_eq, ← countOf]

def twoBallots : List Vote := [⟨"a", .reject⟩, ⟨"b", .approve⟩, ⟨"c", .approve⟩]

theorem slash_votes_decide_two : ∃ req, createSlashRequest (some 2) (some 3) = .ok req ∧
    ∀ other, twoBallots.Perm other → (other.foldl submit req).status = .approved := by
  refine ⟨_, rfl, fun other hp => ?_⟩
  have hd := @slash_votes_decide (some 2) (some 3) _ 2 3 rfl rfl rfl (by norm_num) twoBallots
    (by decide)
  exact hd.2.2.2.2 rfl other hp

/-- With `2 ^ 53 + 2` signers who must all approve, the first approval rejects the request. -/
theorem approval_rejects :
    (createSlashRequest (some 9007199254740994) (some 9007199254740994)).toOption.map (fun req =>
      (submit req ⟨"a", .approve⟩).status) = some .rejected := by
  decide +kernel

end Credence.Governance.SlashingVotes
