import Credence.Rbac.PolicyEngine

/-! What the policy engine decides. An anonymous caller is allowed without a look at the
conditions, and so may be allowed what a user is not. -/

namespace Credence.Rbac

open List

theorem foldl_min_spec (roles : List Role) (first : Role) :
    let least := roles.foldl (fun min role => if role.level < min.level then role else min) first
    least ∈ first :: roles ∧ ∀ role ∈ first :: roles, least.level ≤ role.level := by
  induction roles generalizing first with
  | nil => simp
  | cons next roles ih =>
    rw [foldl_cons]
    by_cases hle : next.level < first.level
    · rw [if_pos hle]
      obtain ⟨hm, hl⟩ := ih next
      refine ⟨mem_cons_of_mem _ hm, fun role hr => ?_⟩
      rcases mem_cons.mp hr with rfl | ha
      · exact Nat.le_trans (hl next mem_cons_self) (Nat.le_of_lt hle)
      · exact hl role ha
    · rw [if_neg hle]
      obtain ⟨hm, hl⟩ := ih first
      refine ⟨?_, fun role hr => ?_⟩
      · rcases mem_cons.mp hm with hf | ha
        · exact mem_cons.mpr (.inl hf)
        · exact mem_cons_of_mem _ (mem_cons_of_mem _ ha)
      · rcases mem_cons.mp hr with rfl | he
        · exact hl role mem_cons_self
        · rcases mem_cons.mp he with rfl | ha
          · exact Nat.le_trans (hl first mem_cons_self) (Nat.not_lt.mp hle)
          · exact hl role (mem_cons_of_mem _ ha)

/-- The role is one of the list, and none of the list is less privileged. -/
def Least (role : Role) (roles : List Role) : Prop :=
  role ∈ roles ∧ ∀ other ∈ roles, role.level ≤ other.level

variable {roles : List Role} {role : Role} {others : List PolicyRule}

theorem least_of_getMinRole (h : getMinRole roles = some role) : Least role roles := by
  cases roles with
  | nil => cases h
  | cons first roles =>
    cases h
    exact foldl_min_spec roles first

structure Grants (rule : PolicyRule) (user : AuthenticatedUser) (resource : String) : Prop where
  role : ∃ role, Least role rule.allowedRoles ∧ role.level ≤ user.role.level
  condition : ∀ condition, rule.condition = some condition → condition (some user) resource = true

variable {rule : PolicyRule} {rules : List PolicyRule} {user : AuthenticatedUser}
  {action resource : String}

theorem holdsFor_iff : rule.holdsFor user resource = true ↔
    ∀ condition, rule.condition = some condition → condition (some user) resource = true := by
  rw [PolicyRule.holdsFor, Option.all_eq_true]

theorem exists_least (h : role ∈ roles) :
    ∃ least, getMinRole roles = some least ∧ Least least roles := by
  cases hm : getMinRole roles with
  | none =>
    cases roles with
    | nil => cases h
    | cons => cases hm
  | some least => exact ⟨least, rfl, least_of_getMinRole hm⟩

theorem evaluateRule_isSome_iff :
    (evaluateRule user resource rule).isSome = true ↔ Grants rule user resource := by
  unfold evaluateRule
  by_cases hl : user.role ∈ rule.allowedRoles
  · rw [if_pos (contains_iff_mem.mpr hl)]
    obtain ⟨least, -, hle⟩ := exists_least hl
    constructor
    · intro h
      split at h
      · next hh => exact ⟨⟨least, hle, hle.2 _ hl⟩, holdsFor_iff.mp hh⟩
      · cases h
    · intro h
      rw [if_pos (holdsFor_iff.mpr h.condition)]
      rfl
  · rw [if_neg (mt contains_iff_mem.mp hl)]
    constructor
    · intro h
      split at h
      · cases h
      · next minRequiredRole hm =>
        split at h
        · next hb =>
          rw [Bool.and_eq_true, decide_eq_true_eq] at hb
          exact ⟨⟨minRequiredRole, least_of_getMinRole hm, hb.1⟩, holdsFor_iff.mp hb.2⟩
        · cases h
    · rintro ⟨⟨role, hr, hv⟩, hc⟩
      obtain ⟨least, hm, hle⟩ := exists_least hr.1
      have he : least.level ≤ user.role.level := Nat.le_trans (hle.2 role hr.1) hv
      have hb : (decide (least.level ≤ user.role.level) && rule.holdsFor user resource) = true := by
        rw [Bool.and_eq_true, decide_eq_true_eq]
        exact ⟨he, holdsFor_iff.mpr hc⟩
      simp only [hm, hb, if_true, Option.isSome_some]

theorem evaluateRule_decision {evaluation : Evaluation}
    (h : evaluateRule user resource rule = some evaluation) : evaluation.decision = .allow := by
  unfold evaluateRule at h
  split at h
  · split at h
    · cases h
      rfl
    · cases h
  · split at h
    · cases h
    · split at h
      · cases h
        rfl
      · cases h

def allows (rules : List PolicyRule) (action resource : String)
    (caller : Option AuthenticatedUser) : Prop :=
  (decisionOf rules caller action resource).decision = .allow

def Matching (rules : List PolicyRule) (action resource : String) (rule : PolicyRule) : Prop :=
  rule ∈ rules ∧ ruleMatches rule action resource = true

theorem mem_matchingRules : rule ∈ rules.filter (fun rule => ruleMatches rule action resource) ↔
      Matching rules action resource rule :=
  mem_filter

theorem allows_iff_evaluateRules {caller : Option AuthenticatedUser} :
    allows rules action resource caller ↔
      (evaluateRules (rules.filter fun rule => ruleMatches rule action resource) caller
        resource).decision = .allow := by
  unfold allows decisionOf
  cases hm : rules.filter fun rule => ruleMatches rule action resource with
  | nil => cases caller <;> simp [evaluateRules, insufficientRole]
  | cons => simp

theorem allows_user_iff : allows rules action resource (some user) ↔
    ∃ rule, Matching rules action resource rule ∧ Grants rule user resource := by
  rw [allows_iff_evaluateRules]
  unfold evaluateRules
  dsimp only
  cases hf : (rules.filter fun rule => ruleMatches rule action resource).findSome?
      (evaluateRule user resource) with
  | none =>
    rw [findSome?_eq_none_iff] at hf
    simp only [Option.getD_none, insufficientRole, reduceCtorEq, false_iff, not_exists, not_and]
    intro rule hm hg
    have hs := evaluateRule_isSome_iff.mpr hg
    rw [hf rule (mem_matchingRules.mpr hm)] at hs
    cases hs
  | some evaluation =>
    obtain ⟨rule, ha, he⟩ := exists_of_findSome?_eq_some hf
    simp only [Option.getD_some, evaluateRule_decision he, true_iff]
    refine ⟨rule, mem_matchingRules.mp ha, evaluateRule_isSome_iff.mp ?_⟩
    rw [he]
    rfl

theorem allows_anonymous_iff : allows rules action resource none ↔
    ∃ rule, Matching rules action resource rule ∧ .publicRole ∈ rule.allowedRoles := by
  rw [allows_iff_evaluateRules]
  unfold evaluateRules
  dsimp only
  cases hf : (rules.filter fun rule => ruleMatches rule action resource).find?
      fun rule => rule.allowedRoles.contains .publicRole with
  | none =>
    rw [find?_eq_none] at hf
    simp only [reduceCtorEq, false_iff, not_exists, not_and]
    intro rule hm hp
    exact hf rule (mem_matchingRules.mpr hm) (contains_iff_mem.mpr hp)
  | some rule =>
    simp only [true_iff]
    exact ⟨rule, mem_matchingRules.mp (mem_of_find?_eq_some hf), by
      simpa using find?_some hf⟩

theorem Matching.perm (hp : rules.Perm others) :
    Matching rules action resource rule ↔ Matching others action resource rule :=
  and_congr_left' hp.mem_iff

theorem allows_perm (hp : rules.Perm others) (caller : Option AuthenticatedUser) :
    allows rules action resource caller ↔ allows others action resource caller := by
  cases caller with
  | none => simp only [allows_anonymous_iff, Matching.perm hp]
  | some => simp only [allows_user_iff, Matching.perm hp]

/-- The conditions do not look at the role of the user. -/
def RoleBlind (rules : List PolicyRule) : Prop :=
  ∀ rule ∈ rules, ∀ condition, rule.condition = some condition → ∀ (user : AuthenticatedUser) role
    resource, condition (some { user with role := role }) resource = condition (some user) resource

theorem Grants.role_le (h : Grants rule user resource) (hb : RoleBlind [rule])
    (hl : user.role.level ≤ role.level) : Grants rule { user with role := role } resource where
  role := by
    obtain ⟨least, hle, hLe⟩ := h.role
    exact ⟨least, hle, Nat.le_trans hLe hl⟩
  condition condition hc := by
    rw [hb rule mem_cons_self condition hc]
    exact h.condition condition hc

structure Decisions (rules : List PolicyRule) (action resource : String) : Prop where
  granted : ∀ user, allows rules action resource (some user) ↔
    ∃ rule, Matching rules action resource rule ∧ Grants rule user resource
  order : ∀ others, rules.Perm others → ∀ caller,
    (allows rules action resource caller ↔ allows others action resource caller)
  monotone : RoleBlind rules → ∀ (user : AuthenticatedUser) role, user.role.level ≤ role.level →
    allows rules action resource (some user) →
    allows rules action resource (some { user with role := role })
  anonymous : allows rules action resource none → ∀ user, allows rules action resource (some user)

/-- Where some matching rule is for the public, every user meets the condition of some matching rule
that has a role at or below theirs. -/
def Covered (rules : List PolicyRule) (action resource : String) : Prop :=
  (∃ rule, Matching rules action resource rule ∧ .publicRole ∈ rule.allowedRoles) →
    ∀ user, ∃ rule, Matching rules action resource rule ∧ Grants rule user resource

/-- The decisions are as said exactly where the rules for the public cover every user. -/
theorem decisions_iff_covered (rules : List PolicyRule) (action resource : String) :
    Decisions rules action resource ↔ Covered rules action resource := by
  constructor
  · intro h hp user
    exact allows_user_iff.mp (h.anonymous (allows_anonymous_iff.mpr hp) user)
  · intro hc
    refine ⟨fun user => allows_user_iff, fun others => allows_perm, ?_, ?_⟩
    · intro hb user role hl ha
      obtain ⟨rule, hm, hg⟩ := allows_user_iff.mp ha
      have hr : RoleBlind [rule] := by
        intro other ho
        rw [mem_singleton.mp ho]
        exact hb rule hm.1
      exact allows_user_iff.mpr ⟨rule, hm, hg.role_le hr hl⟩
    · intro hn user
      exact allows_user_iff.mpr (hc (allows_anonymous_iff.mp hn) user)

def publicRead (resourcePattern : String) : PolicyRule :=
  ⟨"public-read-" ++ resourcePattern, ["read:*"], [resourcePattern],
    [.publicRole, .user, .verifier, .admin], none⟩

theorem decisions_publicRead : allows [publicRead "health"] "read:health" "health" none ∧
    Decisions [publicRead "health"] "read:health" "health" := by
  have hm : Matching [publicRead "health"] "read:health" "health" (publicRead "health") :=
    ⟨mem_cons_self, by decide⟩
  refine ⟨allows_anonymous_iff.mpr ⟨_, hm, mem_cons_self⟩,
    (decisions_iff_covered _ _ _).mpr fun _ user => ⟨_, hm, ⟨.publicRole, ?_, ?_⟩, ?_⟩⟩
  · exact ⟨mem_cons_self, fun other _ => Nat.zero_le _⟩
  · exact Nat.zero_le _
  · intro condition hc
    cases hc

def closedPublicRead : PolicyRule := { publicRead "health" with condition := some fun _ _ => false }

/-- Without a user the condition is not looked at; with one it fails. -/
theorem signing_in_loses_access : allows [closedPublicRead] "read:health" "health" none ∧
    ¬ allows [closedPublicRead] "read:health" "health" (some ⟨"u1", "0xABC", .admin⟩) ∧
    ¬ Decisions [closedPublicRead] "read:health" "health" := by
  have ha : allows [closedPublicRead] "read:health" "health" none := by
    unfold allows
    decide
  have hu : ¬ allows [closedPublicRead] "read:health" "health"
      (some ⟨"u1", "0xABC", .admin⟩) := by
    unfold allows
    decide
  exact ⟨ha, hu, fun h => hu (h.anonymous ha _)⟩

end Credence.Rbac
