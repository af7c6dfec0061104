import Credence.Js.Map
import Credence.Lib.StateTransition
import Credence.ProofKit.Runs
import Mathlib.Data.Rat.Defs

/-! `KeyManager`: the signing keys, the tokens, and the calls under way, which interleave where they
wait for a key pair and for the helper that stores it. -/

namespace Credence.Keys

open Js Lib

inductive SigningKeyState where
  | active
  | retired
  deriving DecidableEq

def SigningKeyState.text : SigningKeyState → String
  | active => "active"
  | retired => "retired"

def signingKeyTransitions : TransitionMatrix SigningKeyState where
  transitions := [⟨.active, .retired, some "rotate"⟩]
  nodup := by decide

def trySigningKeyTransition (source target : SigningKeyState) : TransitionResult SigningKeyState :=
  signingKeyTransitions.tryTransition SigningKeyState.text source target

/-- The results of `randomUUID` are numbered: they are different from one another and from the
configured identifier. -/
inductive Kid where
  | configured (kid : String)
  | random (n : Nat)
  deriving DecidableEq

inductive KeyPair where
  | imported (pem : String)
  | generated (n : Nat)
  deriving DecidableEq

structure ManagedKey where
  kid : Kid
  state : SigningKeyState
  pair : KeyPair
  createdAt : Nat
  retiredAt : Option Nat
  deriving DecidableEq

structure KeyManagerConfig where
  gracePeriodSeconds : Nat
  clockSkewSeconds : Nat
  privateKeyPem : Option String
  initialKid : Option String

def KeyManagerConfig.windowMs (config : KeyManagerConfig) : Nat :=
  (config.gracePeriodSeconds + config.clockSkewSeconds) * 1000

inductive KeyEvent where
  | created
  | rotated
  | retired
  | pruned

structure KeyAuditEvent where
  timestamp : Nat
  event : KeyEvent
  kid : Kid
  previousActiveKid : Option Kid

/-- The `Map` of the keys: each key is stored under its own identifier. -/
structure KeyTable where
  entries : List (Kid × ManagedKey)
  nodup : Map.Nodup entries
  named : ∀ kid key, Map.get kid entries = some key → key.kid = kid

namespace KeyTable

def empty : KeyTable := ⟨[], List.nodup_nil, fun _ _ h => by cases h⟩

def get (kid : Kid) (keys : KeyTable) : Option ManagedKey := Map.get kid keys.entries

def put (key : ManagedKey) (keys : KeyTable) : KeyTable where
  entries := Map.set key.kid key keys.entries
  nodup := Map.nodup_set key.kid key keys.nodup
  named := by
    intro kid other hGet
    rcases Map.get_of_set hGet with ⟨hKid, rfl⟩ | hOld
    · exact hKid
    · exact keys.named kid other hOld

def keep (test : ManagedKey → Bool) (keys : KeyTable) : KeyTable where
  entries := keys.entries.filter fun entry => test entry.2
  nodup := keys.nodup.sublist (List.filter_sublist.map Prod.fst)
  named := by
    intro kid key hGet
    rw [Map.get_filter test keys.nodup] at hGet
    exact keys.named kid key (Option.filter_eq_some_iff.mp hGet).1

variable {keys : KeyTable} {kid : Kid} {key other : ManagedKey} {test : ManagedKey → Bool}

theorem get_put : (keys.put key).get kid = if key.kid = kid then some key else keys.get kid :=
  Map.get_set key.kid kid key keys.entries

theorem get_of_put (h : (keys.put key).get kid = some other) :
    (key.kid = kid ∧ key = other) ∨ key.kid ≠ kid ∧ keys.get kid = some other := by
  rw [get_put] at h
  split at h
  · next hk => exact .inl ⟨hk, Option.some.inj h⟩
  · next hk => exact .inr ⟨hk, h⟩

theorem get_keep : (keys.keep test).get kid = some key ↔ keys.get kid = some key ∧ test key := by
  rw [get, keep, Map.get_filter test keys.nodup]
  exact Option.filter_eq_some_iff

theorem mem_iff : (kid, key) ∈ keys.entries ↔ keys.get kid = some key :=
  ⟨fun h => Map.get_of_mem keys.nodup h, fun h => Map.mem_of_get h⟩

end KeyTable

structure KeyManager where
  config : KeyManagerConfig
  keys : KeyTable
  activeKid : Option Kid
  auditLog : List KeyAuditEvent

inductive NumericClaim where
  | number (value : ℚ)
  | other
  deriving DecidableEq

/-- A token: its header's `kid`, the pair that signed it, and the claims that `jwtVerify` reads. -/
structure Token where
  kid : Kid
  signedWith : KeyPair
  iat : Nat
  exp : Int
  nbf : Option NumericClaim
  deriving DecidableEq

inductive TokenError where
  | missingKid
  | unknownKey (kid : Kid)
  | signature
  | claim (name : String)
  deriving DecidableEq

namespace KeyManager

def new (config : KeyManagerConfig) : KeyManager := ⟨config, .empty, none, []⟩

variable (now : Nat) (m : KeyManager)

/-- `undefined`, here `none`, where the identifier of the active key has no entry. -/
def getCurrentKey : Except String (Option ManagedKey) :=
  match m.activeKid with
  | none => .error "KeyManager not initialized — call initialize() first"
  | some kid => .ok (m.keys.get kid)

def getAllVerificationKeys : List ManagedKey := (m.keys.entries.map Prod.snd).filter fun key =>
    key.state = .active ||
      key.retiredAt.any fun retiredAt => (now : Int) - retiredAt < m.config.windowMs

def emitAudit (event : KeyEvent) (kid : Kid) (previousActiveKid : Option Kid) : KeyManager :=
  { m with auditLog := m.auditLog ++ [⟨now, event, kid, previousActiveKid⟩] }

/-- The last statements of `_generateKey` and of `_importKey`. -/
def store (kid : Kid) (pair : KeyPair) : KeyManager :=
  { m with keys := m.keys.put ⟨kid, .active, pair, now, none⟩, activeKid := some kid }

/-- `rotate` up to the call of `_generateKey`; it returns the identifier of the retired key. -/
def retire : Except String (Kid × KeyManager) :=
  match m.getCurrentKey with
  | .error message => .error message
  | .ok none => .error "Cannot read properties of undefined (reading 'kid')"
  | .ok (some previous) =>
    let transition := trySigningKeyTransition previous.state .retired
    if transition.success then
      let keys := m.keys.put { previous with state := .retired, retiredAt := some now }
      .ok (previous.kid, { m with keys }.emitAudit now .retired previous.kid none)
    else .error ("Key rotation rejected: " ++ transition.error.getD "undefined")

def expired (key : ManagedKey) : Bool :=
  key.state = .retired &&
    key.retiredAt.any fun retiredAt => (now : Int) - retiredAt ≥ m.config.windowMs

def pruneExpiredKeys : List Kid × KeyManager :=
  let pruned := (m.keys.entries.filter fun entry => m.expired now entry.2).map Prod.fst
  (pruned, { m with
      keys := m.keys.keep fun key => !m.expired now key
      auditLog := m.auditLog ++ pruned.map fun kid => ⟨now, .pruned, kid, none⟩ })

/-- `expiresIn` in seconds; `nbf` is the claim of this name in the payload. -/
def signToken (expiresIn : Int) (nbf : Option NumericClaim) : Except String Token :=
  match m.getCurrentKey with
  | .error message => .error message
  | .ok none => .error "Cannot destructure property 'kid' of 'this.getCurrentKey(...)'"
  | .ok (some key) => .ok ⟨key.kid, key.pair, now / 1000, (now / 1000 : Nat) + expiresIn, nbf⟩

/-- The checks of `jwtVerify` at the time `checkedAt`. -/
def jwtVerify (token : Token) (pair : KeyPair) (clockTolerance checkedAt : Nat) :
    Except TokenError Token :=
  if token.signedWith ≠ pair then .error .signature
  else
    match token.nbf with
    | some .other => .error (.claim "nbf")
    | some (.number value) =>
      if value > (checkedAt / 1000 : Nat) + clockTolerance then .error (.claim "nbf")
      else if token.exp ≤ (checkedAt / 1000 : Nat) - (clockTolerance : Int) then
        .error (.claim "exp")
      else .ok token
    | none =>
      if token.exp ≤ (checkedAt / 1000 : Nat) - (clockTolerance : Int) then .error (.claim "exp")
      else .ok token

/-- The key is looked up at `now`, the claims are checked at `checkedAt`. -/
def verifyToken (token : Token) (checkedAt : Nat) : Except TokenError Token :=
  if token.kid = .configured "" then .error .missingKid
  else
    match (m.getAllVerificationKeys now).find? fun key => key.kid = token.kid with
    | none => .error (.unknownKey token.kid)
    | some key => jwtVerify token key.pair m.config.clockSkewSeconds checkedAt

variable {now : Nat} {m next : KeyManager} {kid retiredKid : Kid}

theorem retire_eq_ok (h : m.retire now = .ok (retiredKid, next)) :
    ∃ previous kid, m.activeKid = some kid ∧ m.keys.get kid = some previous ∧
      previous.state = .active ∧ retiredKid = previous.kid ∧ next.config = m.config ∧
      next.activeKid = m.activeKid ∧
      next.keys = m.keys.put { previous with state := .retired, retiredAt := some now } := by
  unfold retire getCurrentKey at h
  cases hk : m.activeKid with
  | none =>
    rw [hk] at h
    cases h
  | some kid =>
    rw [hk] at h
    cases hg : m.keys.get kid with
    | none =>
      simp only [hg] at h
      cases h
    | some previous =>
      simp only [hg] at h
      cases hs : previous.state with
      | active =>
        have hv : (trySigningKeyTransition .active .retired).success = true := by decide
        rw [hs, if_pos hv] at h
        cases h
        exact ⟨previous, kid, rfl, hg, hs, rfl, rfl, rfl, rfl⟩
      | retired =>
        have hi : ¬(trySigningKeyTransition .retired .retired).success = true := by decide
        rw [hs, if_neg hi] at h
        cases h

theorem get_pruned {key : ManagedKey} : (m.pruneExpiredKeys now).2.keys.get kid = some key ↔
      m.keys.get kid = some key ∧ m.expired now key = false := by
  rw [show (m.pruneExpiredKeys now).2.keys = m.keys.keep fun key => !m.expired now key from rfl,
    KeyTable.get_keep, Bool.not_eq_true']

end KeyManager

/-- A call of `initialize` or `rotate` waits for its key pair (`initializing`, `rotating`), then for
the helper that has stored the key, and then it has ended. -/
inductive KeyCall where
  | initializing
  | initializingWith (kid : Kid)
  | initialized
  | rotating (retiredKid : Kid)
  | rotatingTo (newKid retiredKid : Kid)
  | rotated (newKid retiredKid : Kid)
  | failed (message : String)
  deriving DecidableEq

def KeyCall.ended : KeyCall → Bool
  | .initialized | .rotated _ _ | .failed _ => true
  | _ => false

def KeyCall.waiting : KeyCall → Bool
  | .initializing | .rotating _ => true
  | _ => false

/-- `drawn` counts the identifiers and the key pairs that have been drawn. -/
structure KeyWorld where
  now : Nat
  drawn : Nat
  manager : KeyManager
  calls : List KeyCall
  issued : List Token

inductive KeyAction where
  | advance (ms : Nat)
  | initializeManager
  | rotate
  | pruneExpiredKeys
  | signToken (expiresIn : Int) (nbf : Option NumericClaim)
  | pairReady (i : Nat)
  | pairFailed (i : Nat) (message : String)
  | resume (i : Nat)

namespace KeyWorld

def start (config : KeyManagerConfig) (now : Nat) : KeyWorld := ⟨now, 0, .new config, [], []⟩

variable (w : KeyWorld)

/-- The pair and the identifier with which `initialize` stores its key; an empty PEM text is no
key. -/
def initialPair : Kid × KeyPair :=
  match w.manager.config.privateKeyPem with
  | none | some "" => (.random w.drawn, .generated w.drawn)
  | some pem =>
    ((w.manager.config.initialKid.map .configured).getD (.random w.drawn), .imported pem)

/-- The helper of call `i` stores a key; the call is then `call`. -/
def stored (i : Nat) (kid : Kid) (pair : KeyPair) (call : KeyCall) : KeyWorld := { w with
    drawn := w.drawn + 1
    manager := w.manager.store w.now kid pair
    calls := w.calls.set i call }

def step : KeyAction → KeyWorld → Option KeyWorld
  | .advance ms, w => some { w with now := w.now + ms }
  | .initializeManager, w =>
    let call := if w.manager.activeKid.isSome then KeyCall.initialized else .initializing
    some { w with calls := w.calls ++ [call] }
  | .rotate, w =>
    match w.manager.retire w.now with
    | .error message => some { w with calls := w.calls ++ [.failed message] }
    | .ok (retiredKid, manager) =>
      some { w with manager, calls := w.calls ++ [.rotating retiredKid] }
  | .pruneExpiredKeys, w => some { w with manager := (w.manager.pruneExpiredKeys w.now).2 }
  | .signToken expiresIn nbf, w =>
    match w.manager.signToken w.now expiresIn nbf with
    | .error _ => some w
    | .ok token => some { w with issued := w.issued ++ [token] }
  | .pairReady i, w =>
    match w.calls[i]? with
    | some .initializing =>
      let (kid, pair) := w.initialPair
      some (w.stored i kid pair (.initializingWith kid))
    | some (.rotating retiredKid) =>
      let kid := Kid.random w.drawn
      some (w.stored i kid (.generated w.drawn) (.rotatingTo kid retiredKid))
    | _ => none
  | .pairFailed i message, w =>
    match w.calls[i]? with
    | some .initializing | some (.rotating _) =>
      some { w with calls := w.calls.set i (.failed message) }
    | _ => none
  | .resume i, w =>
    match w.calls[i]? with
    | some (.initializingWith kid) =>
      some { w with
        manager := w.manager.emitAudit w.now .created kid none
        calls := w.calls.set i .initialized }
    | some (.rotatingTo newKid retiredKid) =>
      let manager := w.manager.emitAudit w.now .rotated newKid (some retiredKid)
      some { w with
        manager := (manager.pruneExpiredKeys w.now).2
        calls := w.calls.set i (.rotated newKid retiredKid) }
    | _ => none

variable {w next : KeyWorld} {i : Nat}

theorem rotate_cases (h : step .rotate w = some next) :
    (∃ message, w.manager.retire w.now = .error message ∧
      next = { w with calls := w.calls ++ [.failed message] }) ∨
    ∃ retiredKid manager, w.manager.retire w.now = .ok (retiredKid, manager) ∧
      next = { w with manager, calls := w.calls ++ [.rotating retiredKid] } := by
  rw [step] at h
  split at h
  · next message hr =>
    cases h
    exact .inl ⟨message, hr, rfl⟩
  · next retiredKid manager hr =>
    cases h
    exact .inr ⟨retiredKid, manager, hr, rfl⟩

theorem signToken_cases {expiresIn : Int} {nbf : Option NumericClaim}
    (h : step (.signToken expiresIn nbf) w = some next) :
    next = w ∨ ∃ token, w.manager.signToken w.now expiresIn nbf = .ok token ∧
      next = { w with issued := w.issued ++ [token] } := by
  rw [step] at h
  split at h
  · cases h
    exact .inl rfl
  · next token ht =>
    cases h
    exact .inr ⟨token, ht, rfl⟩

theorem pairReady_cases (h : step (.pairReady i) w = some next) :
    (w.calls[i]? = some .initializing ∧ next = w.stored i w.initialPair.1 w.initialPair.2
      (.initializingWith w.initialPair.1)) ∨
    ∃ retiredKid, w.calls[i]? = some (.rotating retiredKid) ∧
      next = w.stored i (.random w.drawn) (.generated w.drawn)
        (.rotatingTo (.random w.drawn) retiredKid) := by
  simp only [step] at h
  split at h
  · next hc =>
    cases h
    exact .inl ⟨hc, rfl⟩
  · next retiredKid hc =>
    cases h
    exact .inr ⟨retiredKid, hc, rfl⟩
  · cases h

theorem pairFailed_cases {message : String} (h : step (.pairFailed i message) w = some next) :
    ∃ call, w.calls[i]? = some call ∧ call.waiting = true ∧
      next = { w with calls := w.calls.set i (.failed message) } := by
  simp only [step] at h
  split at h
  · next hc => exact ⟨_, hc, rfl, (Option.some.inj h).symm⟩
  · next hc => exact ⟨_, hc, rfl, (Option.some.inj h).symm⟩
  · cases h

theorem resume_cases (h : step (.resume i) w = some next) :
    (∃ kid, w.calls[i]? = some (.initializingWith kid) ∧ next = { w with
      manager := w.manager.emitAudit w.now .created kid none
      calls := w.calls.set i .initialized }) ∨
    ∃ newKid retiredKid, w.calls[i]? = some (.rotatingTo newKid retiredKid) ∧ next = { w with
      manager :=
        ((w.manager.emitAudit w.now .rotated newKid (some retiredKid)).pruneExpiredKeys w.now).2
      calls := w.calls.set i (.rotated newKid retiredKid) } := by
  simp only [step] at h
  split at h
  · next kid hc =>
    cases h
    exact .inl ⟨kid, hc, rfl⟩
  · next newKid retiredKid hc =>
    cases h
    exact .inr ⟨newKid, retiredKid, hc, rfl⟩
  · cases h

end KeyWorld

end Credence.Keys
