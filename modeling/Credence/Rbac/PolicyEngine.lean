import Mathlib.Data.List.Perm.Basic

/-! `PolicyEngine.check`: the matching rules are evaluated, for an anonymous caller by their role
lists alone. -/

namespace Credence.Rbac

inductive Role where
  | publicRole
  | user
  | verifier
  | admin
  deriving DecidableEq

def Role.level : Role → Nat
  | .publicRole => 0
  | .user => 1
  | .verifier => 2
  | .admin => 3

def Role.text : Role → String
  | .publicRole => "public"
  | .user => "user"
  | .verifier => "verifier"
  | .admin => "admin"

structure AuthenticatedUser where
  id : String
  address : String
  role : Role

structure PolicyRule where
  id : String
  actions : List String
  resources : List String
  allowedRoles : List Role
  condition : Option (Option AuthenticatedUser → String → Bool)

/-- The characters that `.` of a regular expression does not match. -/
def isLineTerminator (c : Char) : Bool := c = '\n' || c = '\r' || c = '\u2028' || c = '\u2029'

def afterAny : List Char → List (List Char)
  | [] => [[]]
  | c :: cs => (c :: cs) :: if isLineTerminator c then [] else afterAny cs

/-- The test of the regular expression that stands for a pattern. -/
def regexTest : List Char → List Char → Bool
  | [], value => value.isEmpty
  | c :: pattern, value =>
    if c = '*' then (afterAny value).any (regexTest pattern)
    else match value with
      | [] => false
      | d :: value => c = d && regexTest pattern value

def wildcardMatch (pattern value : String) : Bool :=
  pattern = "*" || regexTest pattern.toList value.toList

def ruleMatches (rule : PolicyRule) (action resource : String) : Bool :=
  (rule.actions.any fun pattern => wildcardMatch pattern action) &&
    rule.resources.any fun pattern => wildcardMatch pattern resource

inductive PolicyDecision where
  | allow
  | deny
  deriving DecidableEq

inductive PolicyReasonCode where
  | roleMatch
  | roleHierarchy
  | publicResource
  | unauthenticated
  | insufficientRole
  | noMatchingRule

structure PolicyReason where
  message : String
  code : PolicyReasonCode
  context : List (String × String)

structure Evaluation where
  decision : PolicyDecision
  reason : PolicyReason

/-- The least privileged role, the first one of its level. -/
def getMinRole : List Role → Option Role
  | [] => none
  | role :: roles =>
    some (roles.foldl (fun min role => if role.level < min.level then role else min) role)

/-- `rule.condition && !rule.condition(user, resource)` is not the case. -/
def PolicyRule.holdsFor (rule : PolicyRule) (user : AuthenticatedUser) (resource : String) : Bool :=
  rule.condition.all fun condition => condition (some user) resource

def roleMatch (user : AuthenticatedUser) (rule : PolicyRule) : Evaluation :=
  ⟨.allow, s!"Role \"{user.role.text}\" allowed by rule \"{rule.id}\"", .roleMatch,
    [("ruleId", rule.id), ("role", user.role.text)]⟩

def roleHierarchy (user : AuthenticatedUser) (rule : PolicyRule) (minRequiredRole : Role) :
    Evaluation :=
  ⟨.allow, s!"Role \"{user.role.text}\" satisfies minimum role " ++
      s!"\"{minRequiredRole.text}\" by hierarchy", .roleHierarchy,
    [("ruleId", rule.id), ("userRole", user.role.text), ("minRequiredRole", minRequiredRole.text)]⟩

def insufficientRole (user : AuthenticatedUser) : Evaluation :=
  ⟨.deny, s!"Role \"{user.role.text}\" does not satisfy any matching policy rule",
    .insufficientRole, [("role", user.role.text)]⟩

/-- What one rule says of a user; `none` where the loop goes on with the next rule. -/
def evaluateRule (user : AuthenticatedUser) (resource : String) (rule : PolicyRule) :
    Option Evaluation :=
  if rule.allowedRoles.contains user.role then
    if rule.holdsFor user resource then some (roleMatch user rule) else none
  else match getMinRole rule.allowedRoles with
    | none => none
    | some minRequiredRole =>
      if minRequiredRole.level ≤ user.role.level && rule.holdsFor user resource then
        some (roleHierarchy user rule minRequiredRole)
      else none

def evaluateRules (rules : List PolicyRule) (user : Option AuthenticatedUser) (resource : String) :
    Evaluation :=
  match user with
  | none =>
    match rules.find? fun rule => rule.allowedRoles.contains .publicRole with
    | some publicRule =>
      ⟨.allow, s!"Public access allowed by rule \"{publicRule.id}\"", .publicResource,
        [("ruleId", publicRule.id)]⟩
    | none => ⟨.deny, "Authentication required", .unauthenticated, []⟩
  | some user => (rules.findSome? (evaluateRule user resource)).getD (insufficientRole user)

/-- What `check` decides, without the log that it writes. -/
def decisionOf (rules : List PolicyRule) (user : Option AuthenticatedUser)
    (action resource : String) : Evaluation :=
  let matchingRules := rules.filter fun rule => ruleMatches rule action resource
  if matchingRules.isEmpty then
    ⟨.deny, s!"No policy rule matches action \"{action}\" on resource \"{resource}\"",
      .noMatchingRule, [("action", action), ("resource", resource)]⟩
  else evaluateRules matchingRules user resource

structure PolicyAuditLog where
  id : String
  timestamp : Int
  user : Option AuthenticatedUser
  action : String
  resource : String
  evaluation : Evaluation

structure PolicyEngine where
  rules : List PolicyRule
  auditLogs : List PolicyAuditLog

/-- `check`, with the id and the time that the log gets. -/
def PolicyEngine.check (engine : PolicyEngine) (id : String) (timestamp : Int)
    (user : Option AuthenticatedUser) (action resource : String) : PolicyAuditLog × PolicyEngine :=
  let evaluation := decisionOf engine.rules user action resource
  let auditLog := ⟨id, timestamp, user, action, resource, evaluation⟩
  (auditLog, { engine with auditLogs := engine.auditLogs ++ [auditLog] })

end Credence.Rbac
