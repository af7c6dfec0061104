import Credence.Policy.Engine
import Credence.ProofKit.Runs

/-! Decisions over sequences of writes and evaluations: on the stored rules, as long as
platform-wide writes find no other organisation's list in the cache. -/

namespace Credence.Policy

open Js ProofKit List

/-- The rules of the organisation and the platform-wide ones that match. -/
def Applies (ctx : PolicyContext) (rule : PolicyRule) : Prop :=
  (rule.orgId = ctx.orgId ∨ rule.orgId = "*") ∧ rule.matches ctx = true

/-- The specification: a denial wins, then a permission, then the role of an administrator. -/
def Permitted (ctx : PolicyContext) (rules : PolicyRule → Prop) : Prop :=
  (¬ ∃ rule, rules rule ∧ Applies ctx rule ∧ rule.effect = .deny) ∧
    ((∃ rule, rules rule ∧ Applies ctx rule ∧ rule.effect = .allow) ∨
      Role.admin.weight ≤ ctx.role.weight)

def PolicyStore.Has (store : PolicyStore) (rule : PolicyRule) : Prop :=
  ∃ id, Map.get id store.rules = some rule

theorem permitted_congr {ctx : PolicyContext} {rules others : PolicyRule → Prop}
    (h : ∀ rule, rule.orgId = ctx.orgId ∨ rule.orgId = "*" → (rules rule ↔ others rule)) :
    Permitted ctx rules ↔ Permitted ctx others := by
  have he : ∀ effect, (∃ rule, rules rule ∧ Applies ctx rule ∧ rule.effect = effect) ↔
      ∃ rule, others rule ∧ Applies ctx rule ∧ rule.effect = effect := by
    intro effect
    refine exists_congr fun rule => and_congr_left fun ha => h rule ha.1.1
  rw [Permitted, Permitted, he, he]

variable {rules : List PolicyRule} {ctx : PolicyContext} {rule : PolicyRule} {orgId id : String}

theorem find_matching {effect : PolicyEffect} :
    ((rules.filter fun rule => rule.matches ctx).find? fun rule => rule.effect = effect) = none ↔
      ¬ ∃ rule ∈ rules, rule.matches ctx = true ∧ rule.effect = effect := by
  simp [find?_eq_none]

theorem decideBy_allowed : (decideBy rules ctx).allowed = true ↔
      (¬ ∃ rule ∈ rules, rule.matches ctx = true ∧ rule.effect = .deny) ∧
        ((∃ rule ∈ rules, rule.matches ctx = true ∧ rule.effect = .allow) ∨
          Role.admin.weight ≤ ctx.role.weight) := by
  unfold decideBy
  simp only
  split
  · next rule hd =>
    have hs : ∃ rule ∈ rules, rule.matches ctx = true ∧ rule.effect = .deny := by
      by_contra hn
      cases hd.symm.trans (find_matching.mpr hn)
    simp [hs]
  · next hd =>
    have hb := find_matching.mp hd
    split
    · next rule ha =>
      have hs : ∃ rule ∈ rules, rule.matches ctx = true ∧ rule.effect = .allow := by
        by_contra hn
        cases ha.symm.trans (find_matching.mpr hn)
      simp only [true_iff]
      exact ⟨hb, .inl hs⟩
    · next ha =>
      have hc := find_matching.mp ha
      split
      · next had =>
        simp only [true_iff]
        exact ⟨hb, .inr had⟩
      · next had =>
        simp only [Bool.false_eq_true, false_iff]
        rintro ⟨-, hl | hr⟩
        · exact hc hl
        · exact had hr

theorem mem_rulesFor {rules : List (String × PolicyRule)} (h : Map.Nodup rules) :
    rule ∈ rulesFor orgId rules ↔
      (∃ id, Map.get id rules = some rule) ∧ (rule.orgId = orgId ∨ rule.orgId = "*") := by
  simp only [rulesFor, mem_filter, mem_map, PolicyRule.concerns, decide_eq_true_eq]
  refine and_congr_left fun _ => ⟨?_, ?_⟩
  · rintro ⟨⟨id, stored⟩, hm, rfl⟩
    exact ⟨id, Map.get_of_mem h hm⟩
  · rintro ⟨id, hg⟩
    exact ⟨(id, rule), Map.mem_of_get hg, rfl⟩

variable {store : PolicyStore}

theorem decideBy_rulesFor (h : Map.Nodup store.rules) (ctx : PolicyContext) :
    (decideBy (rulesFor ctx.orgId store.rules) ctx).allowed = true ↔ Permitted ctx store.Has := by
  have he : ∀ effect, (∃ rule ∈ rulesFor ctx.orgId store.rules,
      rule.matches ctx = true ∧ rule.effect = effect) ↔
        ∃ rule, store.Has rule ∧ Applies ctx rule ∧ rule.effect = effect := by
    intro effect
    refine exists_congr fun rule => ?_
    rw [mem_rulesFor h, PolicyStore.Has, Applies, and_assoc, and_assoc]
  rw [decideBy_allowed, he, he, Permitted]

inductive Call where
  | create (id : String) (input : CreatePolicyRuleInput)
  | update (id : String) (patch : Patch)
  | delete (id : String)
  | evaluate (ctx : PolicyContext)

structure World where
  store : PolicyStore
  clock : Int

def World.start (clock : Int) : World := ⟨.empty, clock⟩

/-- A call at its time; the id of a new rule is not in use. -/
def step : Int × Call → World → Option World
  | (now, .create id input), w =>
    if (Map.get id w.store.rules).isSome then none else some ⟨w.store.create id input now, now⟩
  | (now, .update id patch), w => some ⟨w.store.update id patch now, now⟩
  | (now, .delete id), w => some ⟨w.store.delete id, now⟩
  | (now, .evaluate ctx), w => some ⟨(Policy.evaluate ctx now w.store).2, now⟩

def onlyUsedBy (orgs : List String) (now : Int) (cache : List (String × CacheEntry)) : Bool :=
  cache.all fun entry => entry.2.expiresAt ≤ now ∨ entry.1 ∈ orgs

/-- Where a rule is platform-wide before or after a write, only the list of the organisation that
the write names is in use; where an update moves a rule to the empty name, no list of that name is.
-/
def writesSeen : Int × Call → World → Bool
  | (now, .create _ input), w =>
    w.clock ≤ now ∧ (input.orgId = "*" → onlyUsedBy ["*"] now w.store.cache)
  | (now, .update id patch), w =>
    w.clock ≤ now ∧ (Map.get id w.store.rules).all fun existing =>
      (existing.orgId = "*" ∨ patch.orgId = some "*" →
        onlyUsedBy ("*" :: existing.orgId :: patch.orgId.toList) now w.store.cache) ∧
      (patch.orgId = some "" → existing.orgId ≠ "" →
        (Map.get "" w.store.cache).all fun cached => cached.expiresAt ≤ now)
  | (now, .delete id), w =>
    w.clock ≤ now ∧ (Map.get id w.store.rules).all fun existing =>
      (existing.orgId = "*" → onlyUsedBy ["*"] now w.store.cache)
  | (now, .evaluate _), w => w.clock ≤ now

def WritesSeen (a : Int × Call) (w : World) : Prop := writesSeen a w = true

instance (a : Int × Call) (w : World) : Decidable (WritesSeen a w) :=
  inferInstanceAs (Decidable (_ = true))

/-- What the cache returns are the rules of the store. -/
structure World.Ok (w : World) : Prop where
  distinct : Map.Nodup w.store.rules
  fresh : ∀ orgId cached, Map.get orgId w.store.cache = some cached → w.clock < cached.expiresAt →
    cached.rules = rulesFor orgId w.store.rules

theorem ok_start (clock : Int) : (World.start clock).Ok :=
  ⟨nodup_nil, by simp [World.start, PolicyStore.empty, Map.get]⟩

variable {w : World} {now : Int} {rules : List (String × PolicyRule)} {cached : CacheEntry}
  {cache : List (String × CacheEntry)}

theorem rulesFor_set (ho : ∀ old, Map.get id rules = some old → old.concerns orgId = false)
    (hn : rule.concerns orgId = false) :
    rulesFor orgId (Map.set id rule rules) = rulesFor orgId rules := by
  induction rules with
  | nil => simp [rulesFor, Map.set, hn]
  | cons entry rules ih =>
    obtain ⟨key, stored⟩ := entry
    by_cases hk : key = id
    · have hs := ho stored (by simp [Map.get, hk])
      simp [rulesFor, Map.set, hk, hn, hs]
    · have hr := ih fun old hg => ho old (by simpa [Map.get, hk] using hg)
      simp only [rulesFor] at hr
      simp only [rulesFor, Map.set, if_neg hk, map_cons, filter_cons, hr]

theorem rulesFor_delete (hd : Map.Nodup rules)
    (ho : ∀ old, Map.get id rules = some old → old.concerns orgId = false) :
    rulesFor orgId (Map.delete id rules) = rulesFor orgId rules := by
  simp only [rulesFor, Map.delete, filter_map, filter_filter]
  congr 1
  refine filter_congr fun entry he => ?_
  obtain ⟨key, stored⟩ := entry
  by_cases hk : key = id
  · have hs := ho stored (hk ▸ Map.get_of_mem hd he)
    simp [hs]
  · simp [hk]

theorem get_invalidate {other : String} (h : Map.get other (invalidate orgId cache) = some cached) :
    Map.get other cache = some cached ∧ other ≠ "*" ∧ other ≠ orgId := by
  obtain ⟨ha, hr⟩ := Map.get_of_delete h
  obtain ⟨ho, hf⟩ := Map.get_of_delete hr
  exact ⟨hf, ha.symm, ho.symm⟩

theorem mem_of_onlyUsedBy {orgs : List String} (h : onlyUsedBy orgs now cache = true)
    (hg : Map.get orgId cache = some cached) (hl : now < cached.expiresAt) : orgId ∈ orgs := by
  have he := all_eq_true.mp h _ (Map.mem_of_get hg)
  rw [decide_eq_true_eq] at he
  rcases he with hex | hm
  · exact absurd hl (Int.not_lt.mpr hex)
  · exact hm

theorem not_concerns (ho : orgId ≠ rule.orgId)
    (ha : rule.orgId ≠ "*") : rule.concerns orgId = false := by
  simp [PolicyRule.concerns, Ne.symm ho, ha]

theorem World.Ok.write (h : w.Ok) (hc : w.clock ≤ now) (hd : Map.Nodup store.rules)
    (ha : ∀ orgId cached, Map.get orgId store.cache = some cached → now < cached.expiresAt →
      Map.get orgId w.store.cache = some cached ∧
        rulesFor orgId store.rules = rulesFor orgId w.store.rules) : World.Ok ⟨store, now⟩ := by
  refine ⟨hd, fun orgId cached hg hl => ?_⟩
  obtain ⟨hb, hs⟩ := ha orgId cached hg hl
  exact (h.fresh orgId cached hb (Int.lt_of_le_of_lt hc hl)).trans hs.symm

theorem World.Ok.create {input : CreatePolicyRuleInput} (h : w.Ok)
    (hs : WritesSeen (now, .create id input) w)
    (hn : Map.get id w.store.rules = none) : World.Ok ⟨w.store.create id input now, now⟩ := by
  obtain ⟨hc, ha⟩ := of_decide_eq_true hs
  refine h.write hc (Map.nodup_set _ _ h.distinct) fun orgId cached hg hl => ?_
  obtain ⟨hb, hd, ho⟩ := get_invalidate hg
  refine ⟨hb, rulesFor_set (fun old he => ?_) (not_concerns ho fun hw => ?_)⟩
  · cases hn.symm.trans he
  · exact hd (mem_singleton.mp (mem_of_onlyUsedBy (ha hw) hb hl))

theorem World.Ok.delete (h : w.Ok)
    (hs : WritesSeen (now, .delete id) w) : World.Ok ⟨w.store.delete id, now⟩ := by
  obtain ⟨hc, ha⟩ := of_decide_eq_true hs
  unfold PolicyStore.delete
  cases hr : Map.get id w.store.rules with
  | none => exact h.write hc h.distinct fun orgId cached hg _ => ⟨hg, rfl⟩
  | some =>
    refine h.write hc (Map.nodup_delete _ h.distinct) fun orgId cached hg hl => ?_
    obtain ⟨hb, hn, ho⟩ := get_invalidate hg
    refine ⟨hb, rulesFor_delete h.distinct fun old hd => ?_⟩
    cases hr.symm.trans hd
    refine not_concerns ho fun hw => hn ?_
    rw [hr, Option.all_some, decide_eq_true_eq] at ha
    exact mem_singleton.mp (mem_of_onlyUsedBy (ha hw) hb hl)

theorem get_update_cache {patch : Patch} {existing : PolicyRule}
    (hr : Map.get id store.rules = some existing)
    (h : Map.get orgId (store.update id patch now).cache = some cached) :
    Map.get orgId store.cache = some cached ∧ orgId ≠ "*" ∧ orgId ≠ existing.orgId ∧
      ∀ moved, patch.orgId = some moved → moved ≠ "" → orgId ≠ moved := by
  simp only [PolicyStore.update, hr] at h
  split at h
  · next moved hm =>
    split at h
    · obtain ⟨hi, -, hn⟩ := get_invalidate h
      obtain ⟨hb, ha, ho⟩ := get_invalidate hi
      refine ⟨hb, ha, ho, fun other ht _ => ?_⟩
      cases hm.symm.trans ht
      exact hn
    · next hs =>
      obtain ⟨hb, ha, ho⟩ := get_invalidate h
      refine ⟨hb, ha, ho, fun other ht hc => ?_⟩
      cases hm.symm.trans ht
      rw [not_and, not_not] at hs
      exact hs hc ▸ ho
  · next hd =>
    obtain ⟨hb, ha, ho⟩ := get_invalidate h
    exact ⟨hb, ha, ho, fun other ht => by cases hd.symm.trans ht⟩

theorem World.Ok.update {patch : Patch} (h : w.Ok) (hs : WritesSeen (now, .update id patch) w) :
    World.Ok ⟨w.store.update id patch now, now⟩ := by
  obtain ⟨hc, ha⟩ := of_decide_eq_true hs
  cases hr : Map.get id w.store.rules with
  | none =>
    simp only [PolicyStore.update, hr]
    exact h.write hc h.distinct fun orgId cached hg _ => ⟨hg, rfl⟩
  | some existing =>
    have hu : (w.store.update id patch now).rules =
        Map.set id (existing.patched patch now) w.store.rules := by
      simp only [PolicyStore.update, hr]
    rw [hr, Option.all_some, decide_eq_true_eq] at ha
    obtain ⟨hw, hd⟩ := ha
    refine h.write hc (hu ▸ Map.nodup_set _ _ h.distinct) fun orgId cached hg hl => ?_
    obtain ⟨hb, hf, ho, hi⟩ := get_update_cache hr hg
    have hj : ∀ moved, patch.orgId = some moved → orgId ≠ moved := by
      rintro moved hp rfl
      by_cases hk : orgId = ""
      · subst hk
        have he := hd hp (Ne.symm ho)
        rw [hb, Option.all_some, decide_eq_true_eq] at he
        exact Int.not_lt.mpr he hl
      · exact hi orgId hp hk rfl
    have hn : existing.orgId ≠ "*" ∧ patch.orgId ≠ some "*" := by
      rw [← not_or]
      intro hq
      have hm := mem_of_onlyUsedBy (hw hq) hb hl
      rw [mem_cons, mem_cons, Option.mem_toList] at hm
      rcases hm with ht | hv | hp
      · exact hf ht
      · exact ho hv
      · exact hj orgId hp rfl
    refine ⟨hb, hu ▸ rulesFor_set (fun old hx => ?_) ?_⟩
    · cases hr.symm.trans hx
      exact not_concerns ho hn.1
    · cases hp : patch.orgId with
      | none =>
        refine not_concerns ?_ ?_ <;> simp only [PolicyRule.patched, hp, Option.getD_none]
        · exact ho
        · exact hn.1
      | some moved =>
        refine not_concerns ?_ ?_ <;> simp only [PolicyRule.patched, hp, Option.getD_some]
        · exact hj moved hp
        · rintro rfl
          exact hn.2 hp

theorem World.Ok.evaluate (h : w.Ok) (hc : w.clock ≤ now) :
    (Policy.evaluate ctx now w.store).1 = decideBy (rulesFor ctx.orgId w.store.rules) ctx ∧
      World.Ok ⟨(Policy.evaluate ctx now w.store).2, now⟩ := by
  simp only [Policy.evaluate, PolicyStore.findAllByOrg]
  split
  · next cached ha =>
    obtain ⟨hg, hl⟩ := Option.filter_eq_some_iff.mp ha
    have hf := h.fresh _ _ hg (Int.lt_of_le_of_lt hc (of_decide_eq_true hl))
    exact ⟨by rw [hf], h.write hc h.distinct fun orgId cached hg _ => ⟨hg, rfl⟩⟩
  · refine ⟨rfl, h.distinct, fun orgId cached hg hl => ?_⟩
    rcases Map.get_of_set hg with ⟨ho, rfl⟩ | hb
    · rw [ho]
    · exact h.fresh orgId cached hb (Int.lt_of_le_of_lt hc hl)

theorem World.Ok.step {a : Int × Call} {w' : World} (h : w.Ok) (he : WritesSeen a w)
    (hs : Policy.step a w = some w') : w'.Ok := by
  obtain ⟨now, call⟩ := a
  cases call with
  | create =>
    simp only [Policy.step] at hs
    split at hs
    · cases hs
    · next hn =>
      cases hs
      exact h.create he (by simpa using hn)
  | update =>
    cases hs
    exact h.update he
  | delete =>
    cases hs
    exact h.delete he
  | evaluate =>
    cases hs
    exact (h.evaluate (of_decide_eq_true he)).2

/-- Every decision is the one that the stored rules call for, and depends only on the organisation's
rules and the platform-wide ones. -/
theorem decisions_current {calls : List (Int × Call)} {w : World} {clock now : Int}
    {ctx : PolicyContext}
    (hSeen : Along step WritesSeen (calls ++ [(now, .evaluate ctx)]) (.start clock))
    (hRun : run step calls (.start clock) = some w) :
    ((evaluate ctx now w.store).1.allowed = true ↔ Permitted ctx w.store.Has) ∧
    ∀ other : PolicyStore, Map.Nodup other.rules → other.cache = [] →
      (∀ rule, rule.orgId = ctx.orgId ∨ rule.orgId = "*" → (w.store.Has rule ↔ other.Has rule)) →
      (evaluate ctx now other).1.allowed = (evaluate ctx now w.store).1.allowed := by
  have ho : w.Ok := run_invariant World.Ok (fun _ _ _ h hSeen ht => h.step hSeen ht)
    (ok_start clock) hSeen.append_left hRun
  have hc : w.clock ≤ now := of_decide_eq_true (hSeen.append_right hRun).1
  obtain ⟨hd, -⟩ := @World.Ok.evaluate ctx w now ho hc
  have hs := decideBy_rulesFor ho.distinct ctx
  rw [← hd] at hs
  refine ⟨hs, fun other hi he ha => ?_⟩
  have hf : (evaluate ctx now other).1 = decideBy (rulesFor ctx.orgId other.rules) ctx := by
    simp [evaluate, PolicyStore.findAllByOrg, he, Map.get]
  rw [Bool.eq_iff_iff, hs, hf, decideBy_rulesFor hi]
  exact (permitted_congr ha).symm

def adminReads : PolicyContext where
  userId := "mallory"
  role := .admin
  orgId := "acme"
  action := .orgRead
  resource := "org:acme"
  extra := none

def ruleFor (orgId : String) (effect : PolicyEffect) : CreatePolicyRuleInput where
  orgId := orgId
  subject := "user:mallory"
  action := .any
  resource := "*"
  effect := effect
  conditions := none

/-- The platform-wide denial is written when the list of the organisation has expired. -/
theorem decisions_current_denied : ∃ w,
    run step [(0, .create "r1" (ruleFor "acme" .allow)), (1, .evaluate adminReads),
      (30001, .create "r2" (ruleFor "*" .deny))] (.start 0) = some w ∧
    ((evaluate adminReads 30002 w.store).1.allowed = true ↔ Permitted adminReads w.store.Has) := by
  have hr : run step [(0, .create "r1" (ruleFor "acme" .allow)), (1, .evaluate adminReads),
      (30001, .create "r2" (ruleFor "*" .deny))] (.start 0) = some _ := rfl
  exact ⟨_, hr, (decisions_current (by decide +kernel) hr).1⟩

/-- The list of the organisation is in the cache when a platform-wide denial is written, and the
next evaluation does not see the denial. -/
theorem platform_denial_unseen : ∃ w,
    run step [(0, .evaluate adminReads), (1, .create "r1" (ruleFor "*" .deny))] (.start 0) =
      some w ∧
    (evaluate adminReads 2 w.store).1.allowed = true ∧ ¬ Permitted adminReads w.store.Has := by
  refine ⟨_, rfl, by decide +kernel, fun hp => hp.1 ?_⟩
  exact ⟨_, ⟨"r1", rfl⟩, ⟨.inr rfl, by decide +kernel⟩, rfl⟩

end Credence.Policy
