import Credence.Js.Map
import Credence.Js.Number

/-! The policy engine: rules, the in-memory `PolicyStore` with its read cache of thirty seconds per
organisation, and `PolicyEvaluator`. -/

namespace Credence.Policy

open Js

inductive Role where
  | admin
  | verifier
  | user
  | «public»

def Role.text : Role → String
  | admin => "admin"
  | verifier => "verifier"
  | user => "user"
  | «public» => "public"

/-- `ROLE_HIERARCHY`. -/
def Role.weight : Role → Nat
  | «public» => 0
  | user => 1
  | verifier => 2
  | admin => 3

/-- `ROLE_HIERARCHY[subject]`; what an object inherits is no number, and no weight reaches it. -/
def weightOf (subject : String) : Option Nat :=
  ([.admin, .verifier, .user, .public].find? fun role : Role => role.text = subject).map Role.weight

inductive PolicyEffect where
  | allow
  | deny
  deriving DecidableEq

inductive PolicyAction where
  | orgRead
  | orgUpdate
  | orgDelete
  | orgMemberInvite
  | orgMemberRemove
  | orgMemberList
  | orgRoleAssign
  | orgApikeyCreate
  | orgApikeyRevoke
  | orgApikeyList
  | orgAuditRead
  | orgPolicyRead
  | orgPolicyWrite
  | any
  deriving DecidableEq

inductive ConditionValue where
  | text (value : String)
  | boolean (value : Bool)
  | number (value : Number)

/-- The comparison `===`. -/
def ConditionValue.strictEquals : ConditionValue → ConditionValue → Bool
  | text value, text other => value = other
  | boolean value, boolean other => value = other
  | number .nan, number _ => false
  | number value, number other => value = other
  | _, _ => false

structure PolicyRule where
  id : String
  orgId : String
  subject : String
  action : PolicyAction
  resource : String
  effect : PolicyEffect
  conditions : Option (List (String × ConditionValue))
  createdAt : Int
  updatedAt : Int

structure CreatePolicyRuleInput where
  orgId : String
  subject : String
  action : PolicyAction
  resource : String
  effect : PolicyEffect
  conditions : Option (List (String × ConditionValue))

structure Patch where
  orgId : Option String := none
  subject : Option String := none
  action : Option PolicyAction := none
  resource : Option String := none
  effect : Option PolicyEffect := none
  conditions : Option (Option (List (String × ConditionValue))) := none

structure PolicyContext where
  userId : String
  role : Role
  orgId : String
  action : PolicyAction
  resource : String
  extra : Option (List (String × ConditionValue))

structure PolicyDecision where
  allowed : Bool
  reason : String
  matchedRule : Option PolicyRule

def subjectMatches (subject : String) (ctx : PolicyContext) : Bool :=
  if subject = "*" then true
  else if subject = "user:" ++ ctx.userId then true
  else if subject = ctx.role.text then true
  else
    match weightOf subject with
    | some weight => weight ≤ ctx.role.weight
    | none => false

def actionMatches (ruleAction ctxAction : PolicyAction) : Bool :=
  ruleAction = .any ∨ ruleAction = ctxAction

def resourceMatches (ruleResource ctxResource : String) : Bool :=
  if ruleResource = "*" then true
  else if ruleResource = ctxResource then true
  else if ":*".toList.isSuffixOf ruleResource.toList then
    ruleResource.toList.dropLast.isPrefixOf ctxResource.toList
  else false

def conditionsMatch (conditions extra : Option (List (String × ConditionValue))) : Bool :=
  match conditions with
  | none => true
  | some [] => true
  | some entries =>
    match extra with
    | none => false
    | some fields => entries.all fun entry =>
      (Map.get entry.1 fields).any fun value => value.strictEquals entry.2

def PolicyRule.matches (rule : PolicyRule) (ctx : PolicyContext) : Bool :=
  subjectMatches rule.subject ctx && actionMatches rule.action ctx.action &&
    resourceMatches rule.resource ctx.resource && conditionsMatch rule.conditions ctx.extra

/-- `evaluate` once it has the rules. -/
def decideBy (rules : List PolicyRule) (ctx : PolicyContext) : PolicyDecision :=
  let matching := rules.filter fun rule => rule.matches ctx
  match matching.find? fun rule => rule.effect = .deny with
  | some rule => ⟨false, s!"Explicit deny rule matched (id={rule.id})", some rule⟩
  | none =>
    match matching.find? fun rule => rule.effect = .allow with
    | some rule => ⟨true, s!"Explicit allow rule matched (id={rule.id})", some rule⟩
    | none =>
      if Role.admin.weight ≤ ctx.role.weight then ⟨true, "Fallback: caller has admin role", none⟩
      else ⟨false, "Deny by default: no matching allow rule found", none⟩

structure CacheEntry where
  rules : List PolicyRule
  expiresAt : Int

structure PolicyStore where
  rules : List (String × PolicyRule)
  cache : List (String × CacheEntry)

def PolicyStore.empty : PolicyStore := ⟨[], []⟩

def PolicyRule.concerns (orgId : String) (rule : PolicyRule) : Bool :=
  rule.orgId = orgId ∨ rule.orgId = "*"

def rulesFor (orgId : String) (rules : List (String × PolicyRule)) : List PolicyRule :=
  (rules.map Prod.snd).filter fun rule => rule.concerns orgId

def invalidate (orgId : String) (cache : List (String × CacheEntry)) : List (String × CacheEntry) :=
  Map.delete "*" (Map.delete orgId cache)

def PolicyStore.create (id : String) (input : CreatePolicyRuleInput) (now : Int)
    (store : PolicyStore) : PolicyStore :=
  let rule : PolicyRule :=
    { id, orgId := input.orgId, subject := input.subject, action := input.action
      resource := input.resource, effect := input.effect, conditions := input.conditions
      createdAt := now, updatedAt := now }
  { rules := Map.set id rule store.rules, cache := invalidate input.orgId store.cache }

def PolicyRule.patched (rule : PolicyRule) (patch : Patch) (now : Int) : PolicyRule := { rule with
    orgId := patch.orgId.getD rule.orgId
    subject := patch.subject.getD rule.subject
    action := patch.action.getD rule.action
    resource := patch.resource.getD rule.resource
    effect := patch.effect.getD rule.effect
    conditions := patch.conditions.getD rule.conditions
    updatedAt := now }

def PolicyStore.update (id : String) (patch : Patch) (now : Int) (store : PolicyStore) :
    PolicyStore :=
  match Map.get id store.rules with
  | none => store
  | some existing =>
    let cache := invalidate existing.orgId store.cache
    { rules := Map.set id (existing.patched patch now) store.rules
      cache :=
        match patch.orgId with
        | some orgId =>
          if orgId ≠ "" ∧ orgId ≠ existing.orgId then invalidate orgId cache else cache
        | none => cache }

def PolicyStore.delete (id : String) (store : PolicyStore) : PolicyStore :=
  match Map.get id store.rules with
  | none => store
  | some rule =>
    { rules := Map.delete id store.rules, cache := invalidate rule.orgId store.cache }

def PolicyStore.findAllByOrg (orgId : String) (now : Int) (store : PolicyStore) :
    List PolicyRule × PolicyStore :=
  match (Map.get orgId store.cache).filter fun cached => now < cached.expiresAt with
  | some cached => (cached.rules, store)
  | none =>
    let all := rulesFor orgId store.rules
    (all, { store with cache := Map.set orgId ⟨all, now + 30000⟩ store.cache })

def evaluate (ctx : PolicyContext) (now : Int) (store : PolicyStore) :
    PolicyDecision × PolicyStore :=
  let (rules, after) := store.findAllByOrg ctx.orgId now
  (decideBy rules ctx, after)

end Credence.Policy
