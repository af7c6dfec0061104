import Credence.Js.Map
import Credence.Lib.StateTransition
import Credence.ProofKit.Runs

/-! The versions of the key encryption key in `KekManager`. A new version, a superseded one and a
wiped one all have the state `retired`. -/

namespace Credence.Keys

open Js Lib ProofKit Option

inductive KekState where
  | active
  | retired
  deriving DecidableEq

def KekState.text : KekState → String
  | active => "active"
  | retired => "retired"

def kekTransitions : TransitionMatrix KekState where
  transitions := [⟨.retired, .active, some "activate"⟩, ⟨.active, .retired, some "supersede"⟩]
  nodup := by decide

def tryKekTransition (source target : KekState) : TransitionResult KekState :=
  kekTransitions.tryTransition KekState.text source target

structure KekVersion where
  version : Nat
  keyMaterial : List UInt8
  state : KekState
  createdAt : Int
  retiredAt : Option Int
  deriving DecidableEq

structure KekApproval where
  version : Nat
  approvedBy : String
  approvedAt : Int

inductive KekEvent where
  | registered
  | activated
  | retired
  | zeroized

structure KekAuditEvent where
  timestamp : Int
  event : KekEvent
  version : Nat
  previousVersion : Option Nat

/-- The two `Map`s are lists of their entries. -/
structure KekManager where
  versions : List (Nat × KekVersion)
  currentVersion : Option Nat
  pendingApprovals : List (Nat × List KekApproval)
  auditLog : List KekAuditEvent

structure KekRegistrationResult where
  version : Nat
  autoActivated : Bool

def requiredApprovals : Nat := 2

namespace KekManager

def empty : KekManager := ⟨[], none, [], []⟩

def registerVersion (now : Int) (keyMaterial : List UInt8) (m : KekManager) :
    Except String (KekRegistrationResult × KekManager) :=
  if keyMaterial.length ≠ 32 then .error "KEK key material must be exactly 32 bytes (AES-256)"
  else
    let version := m.versions.length + 1
    let auto := m.currentVersion.isNone
    let state := if auto then KekState.active else .retired
    let registered : KekAuditEvent := ⟨now, .registered, version, none⟩
    let activated : KekAuditEvent := ⟨now, .activated, version, none⟩
    .ok (⟨version, auto⟩,
      { versions := Map.set version ⟨version, keyMaterial, state, now, none⟩ m.versions
        currentVersion := if auto then some version else m.currentVersion
        pendingApprovals := Map.set version [] m.pendingApprovals
        auditLog := m.auditLog ++ registered :: if auto then [activated] else [] })

def getPendingApprovals (version : Nat) (m : KekManager) : List KekApproval :=
  (Map.get version m.pendingApprovals).getD []

/-- The version, which must not be active; both ways to an activation look it up first. -/
def findInactive (version : Nat) (m : KekManager) : Except String KekVersion :=
  match Map.get version m.versions with
  | none => .error s!"KEK version {version} not found"
  | some kek =>
    if kek.state = .active then .error s!"KEK version {version} is already active" else .ok kek

def approveActivation (now : Int) (version : Nat) (approvedBy : String) (m : KekManager) :
    Except String KekManager := do
  let _ ← m.findInactive version
  let approvals := m.getPendingApprovals version
  if approvals.any fun a => a.approvedBy = approvedBy then
    .error (s!"Approver {approvedBy} has already approved version " ++ toString version)
  else
    let approval : KekApproval := ⟨version, approvedBy, now⟩
    let pendingApprovals := Map.set version (approvals ++ [approval]) m.pendingApprovals
    .ok { m with pendingApprovals }

/-- The previous version is retired; it is always there. -/
def supersede (now : Int) (previousVersion : Nat) (m : KekManager) : Except String KekManager :=
  match Map.get previousVersion m.versions with
  | none => .error "Cannot read properties of undefined (reading 'state')"
  | some prev =>
    let transition := tryKekTransition prev.state .retired
    if transition.success then
      let retired : KekVersion := { prev with state := .retired, retiredAt := some now }
      .ok { m with
        versions := Map.set previousVersion retired m.versions
        auditLog := m.auditLog ++ [⟨now, .retired, previousVersion, none⟩] }
    else .error ("KEK supersede rejected: " ++ transition.error.getD "undefined")

def activateVersion (now : Int) (version : Nat) (m : KekManager) : Except String KekManager := do
  let kek ← m.findInactive version
  let approvals := m.getPendingApprovals version
  if approvals.length < requiredApprovals then
    .error (s!"KEK version {version} requires {requiredApprovals} approvals, got " ++
      toString approvals.length)
  else
    let transition := tryKekTransition kek.state .active
    if transition.success then
      let m' ← match m.currentVersion with
        | none => .ok m
        | some previousVersion => m.supersede now previousVersion
      .ok { m' with
        versions := Map.set version { kek with state := .active } m'.versions
        currentVersion := some version
        auditLog := m'.auditLog ++ [⟨now, .activated, version, m.currentVersion⟩] }
    else .error ("KEK activation rejected: " ++ transition.error.getD "undefined")

def getCurrentKek (m : KekManager) : Except String KekVersion :=
  match m.currentVersion with
  | none => .error "No active KEK — call registerVersion() first"
  | some version =>
    match Map.get version m.versions with
    | none => .error "undefined"
    | some kek => .ok kek

/-- `keyMaterial.fill(0)` for a retired version that has material. -/
def zeroize (kek : KekVersion) : KekVersion :=
  if kek.state = .retired ∧ 0 < kek.keyMaterial.length then
    { kek with keyMaterial := kek.keyMaterial.map fun _ => 0 }
  else kek

def zeroizeRetired (now : Int) (m : KekManager) : List Nat × KekManager :=
  let zeroized := (m.versions.map Prod.snd).filter fun kek =>
    kek.state = .retired ∧ 0 < kek.keyMaterial.length
  let events := zeroized.map fun kek => ⟨now, .zeroized, kek.version, none⟩
  (zeroized.map KekVersion.version, { m with
      versions := m.versions.map fun entry => (entry.1, zeroize entry.2)
      auditLog := m.auditLog ++ events })

section

variable {now : Int} {version : Nat} {m m' : KekManager}

theorem registerVersion_ok {keyMaterial : List UInt8} {result : KekRegistrationResult}
    (h : m.registerVersion now keyMaterial = .ok (result, m')) :
    result.version = m.versions.length + 1 ∧
      m'.versions = Map.set result.version ⟨result.version, keyMaterial,
        if m.currentVersion.isNone then .active else .retired, now, none⟩ m.versions ∧
      m'.currentVersion = (if m.currentVersion.isNone then some result.version
        else m.currentVersion) ∧
      m'.pendingApprovals = Map.set result.version [] m.pendingApprovals := by
  rw [registerVersion] at h
  split at h <;> cases h
  exact ⟨rfl, rfl, rfl, rfl⟩

theorem findInactive_ok {kek : KekVersion} (h : m.findInactive version = .ok kek) :
    Map.get version m.versions = some kek ∧ kek.state = .retired := by
  rw [findInactive] at h
  split at h
  · cases h
  · next found hf =>
    split at h
    · cases h
    · next hs =>
      cases h
      refine ⟨hf, ?_⟩
      cases hk : kek.state with
      | active => exact absurd hk hs
      | retired => rfl

theorem approveActivation_ok {approvedBy : String}
    (h : m.approveActivation now version approvedBy = .ok m') :
    (∃ kek, Map.get version m.versions = some kek ∧ kek.state = .retired) ∧
      (∀ a ∈ m.getPendingApprovals version, a.approvedBy ≠ approvedBy) ∧
      m'.versions = m.versions ∧ m'.currentVersion = m.currentVersion ∧
      m'.pendingApprovals = Map.set version
        (m.getPendingApprovals version ++ [⟨version, approvedBy, now⟩]) m.pendingApprovals := by
  rw [approveActivation] at h
  obtain ⟨kek, hf, h⟩ := ok_of_bind h
  dsimp only at h
  split at h
  · cases h
  · next hn =>
    cases h
    refine ⟨⟨kek, findInactive_ok hf⟩, ?_, rfl, rfl, rfl⟩
    simpa using hn

theorem supersede_ok {previousVersion : Nat} (h : m.supersede now previousVersion = .ok m') :
    ∃ prev, Map.get previousVersion m.versions = some prev ∧ m'.versions = Map.set previousVersion
        { prev with state := .retired, retiredAt := some now } m.versions ∧
      m'.pendingApprovals = m.pendingApprovals := by
  rw [supersede] at h
  split at h
  · cases h
  · next prev hp =>
    dsimp only at h
    split at h <;> cases h
    exact ⟨prev, hp, rfl, rfl⟩

theorem activateVersion_ok (h : m.activateVersion now version = .ok m') :
    ∃ kek mid, Map.get version m.versions = some kek ∧ kek.state = .retired ∧
      requiredApprovals ≤ (m.getPendingApprovals version).length ∧
      (m.currentVersion = none ∧ mid = m ∨
        ∃ previousVersion, m.currentVersion = some previousVersion ∧
          m.supersede now previousVersion = .ok mid) ∧
      m'.versions = Map.set version { kek with state := .active } mid.versions ∧
      m'.currentVersion = some version ∧ m'.pendingApprovals = mid.pendingApprovals := by
  rw [activateVersion] at h
  obtain ⟨kek, hf, h⟩ := ok_of_bind h
  obtain ⟨hg, hs⟩ := findInactive_ok hf
  dsimp only at h
  split at h
  · cases h
  · next ha =>
    split at h
    · split at h
      · next hn =>
        cases h
        exact ⟨kek, m, hg, hs, Nat.not_lt.mp ha, .inl ⟨hn, rfl⟩, rfl, rfl, rfl⟩
      · next previousVersion hc =>
        obtain ⟨mid, hm, h⟩ := ok_of_bind h
        cases h
        exact ⟨kek, mid, hg, hs, Nat.not_lt.mp ha, .inr ⟨previousVersion, hc, hm⟩, rfl, rfl, rfl⟩
    · cases h

end

end KekManager

/-- One version is active, the current one. -/
structure KekManager.Ok (m : KekManager) : Prop where
  nodup : Map.Nodup m.versions
  keys : ∀ v kek, Map.get v m.versions = some kek → kek.version = v ∧ v ≤ m.versions.length
  current : ∀ v, m.currentVersion = some v → (Map.get v m.versions).isSome = true
  started : m.currentVersion = none → m.versions = []
  active : ∀ v kek, Map.get v m.versions = some kek →
    (kek.state = .active ↔ m.currentVersion = some v)

namespace KekManager.Ok

variable {now : Int} {version : Nat} {m m' : KekManager}

theorem empty : KekManager.empty.Ok := by
  refine ⟨List.nodup_nil, ?_, ?_, fun _ => rfl, ?_⟩ <;> intro v <;> simp [KekManager.empty, Map.get]

theorem get_new (h : m.Ok) : Map.get (m.versions.length + 1) m.versions = none := by
  cases hg : Map.get (m.versions.length + 1) m.versions with
  | none => rfl
  | some kek =>
    have hl := (h.keys _ kek hg).2
    omega

theorem registerVersion (h : m.Ok) {keyMaterial : List UInt8} {result : KekRegistrationResult}
    (hr : m.registerVersion now keyMaterial = .ok (result, m')) : m'.Ok := by
  obtain ⟨hd, hi, hc, -⟩ := registerVersion_ok hr
  have hne : Map.get result.version m.versions = none := hd ▸ h.get_new
  have hl : m'.versions.length = m.versions.length + 1 := by
    rw [hi, Map.length_set, hne]
    rfl
  have hg := fun v => hi ▸ Map.get_set result.version v _ m.versions
  refine ⟨hi ▸ Map.nodup_set _ _ h.nodup, ?_, ?_, ?_, ?_⟩
  · intro v kek hk
    rw [hg v] at hk
    split at hk
    · next he =>
      cases hk
      exact ⟨he, by omega⟩
    · have hj := h.keys v kek hk
      exact ⟨hj.1, by omega⟩
  · intro v hv
    rw [hg v]
    split
    · rfl
    · next hNe =>
      rw [hc] at hv
      split at hv
      · exact absurd (Option.some.inj hv) hNe
      · exact h.current v hv
  · intro hn
    rw [hc] at hn
    split at hn
    · cases hn
    · next hs => exact absurd (by simp [hn]) hs
  · intro v kek hk
    rw [hg v] at hk
    rw [hc]
    cases hb : m.currentVersion with
    | none =>
      rw [h.started hb] at hk
      split at hk
      · next he =>
        cases hk
        simp [hb, he]
      · cases hk
    | some c =>
      split at hk
      · next he =>
        cases hk
        have hNe : c ≠ v := by
          rintro rfl
          have hf := h.current c hb
          rw [← he, hne] at hf
          cases hf
        simp [hb, hNe]
      · have ha := h.active v kek hk
        rw [hb] at ha
        simpa using ha

theorem approveActivation (h : m.Ok) {approvedBy : String}
    (ha : m.approveActivation now version approvedBy = .ok m') : m'.Ok := by
  obtain ⟨-, -, hv, hc, -⟩ := approveActivation_ok ha
  obtain ⟨versions, currentVersion, pendingApprovals, auditLog⟩ := m'
  cases hv
  cases hc
  exact { h with }

theorem get_activateVersion (h : m.Ok) (hb : m.activateVersion now version = .ok m') :
    ∃ kek c prev, Map.get version m.versions = some kek ∧ c ≠ version ∧
      m.currentVersion = some c ∧ Map.get c m.versions = some prev ∧
      m'.currentVersion = some version ∧ Map.Nodup m'.versions ∧
      m'.versions.length = m.versions.length ∧
      ∀ v, Map.get v m'.versions = if version = v then some { kek with state := .active }
        else if c = v then some { prev with state := .retired, retiredAt := some now }
        else Map.get v m.versions := by
  obtain ⟨kek, mid, hk, hr, -, hm, hv, hc, -⟩ := activateVersion_ok hb
  rcases hm with ⟨hd, -⟩ | ⟨c, hC, hs⟩
  · rw [h.started hd] at hk
    cases hk
  · obtain ⟨prev, hp, he, -⟩ := supersede_ok hs
    have hn : c ≠ version := by
      rintro rfl
      have ha := (h.active c kek hk).mpr hC
      rw [hr] at ha
      cases ha
    have hg : ∀ v, Map.get v mid.versions =
        if c = v then some { prev with state := .retired, retiredAt := some now }
        else Map.get v m.versions := by
      intro v
      rw [he, Map.get_set]
    refine ⟨kek, c, prev, hk, hn, hC, hp, hc, ?_, ?_, ?_⟩
    · rw [hv, he]
      exact Map.nodup_set _ _ (Map.nodup_set _ _ h.nodup)
    · rw [hv, Map.length_set, hg version, if_neg hn, hk, he, Map.length_set, hp]
      rfl
    · intro v
      rw [hv, Map.get_set, hg v]

theorem activateVersion (h : m.Ok) (hb : m.activateVersion now version = .ok m') : m'.Ok := by
  obtain ⟨kek, c, prev, hd, hNe, hC, hp, hc, hf, hl, hg⟩ := h.get_activateVersion hb
  refine ⟨hf, ?_, ?_, ?_, ?_⟩
  · intro v k hk
    rw [hg v] at hk
    rw [hl]
    split at hk
    · next he =>
      cases hk
      exact h.keys v kek (he ▸ hd)
    · split at hk
      · next he =>
        cases hk
        exact h.keys v prev (he ▸ hp)
      · exact h.keys v k hk
  · intro v hv
    rw [hc] at hv
    rw [hg v, if_pos (Option.some.inj hv)]
    rfl
  · intro hn
    rw [hc] at hn
    cases hn
  · intro v k hk
    rw [hg v] at hk
    rw [hc, some_inj]
    split at hk
    · next he =>
      cases hk
      simp [he]
    · next ho =>
      split at hk
      · cases hk
        simp [ho]
      · next ho' =>
        have ha := h.active v k hk
        rw [hC, some_inj] at ha
        simp [ha, ho, ho']

theorem zeroize_state (kek : KekVersion) :
    (zeroize kek).state = kek.state ∧ (zeroize kek).version = kek.version := by
  rw [zeroize]
  split <;> exact ⟨rfl, rfl⟩

theorem get_zeroizeRetired (m : KekManager) (now : Int) (v : Nat) :
    Map.get v (m.zeroizeRetired now).2.versions = (Map.get v m.versions).map zeroize :=
  Map.get_map zeroize v m.versions

theorem zeroizeRetired (h : m.Ok) : (m.zeroizeRetired now).2.Ok := by
  refine ⟨Map.nodup_map _ h.nodup, ?_, ?_, ?_, ?_⟩
  · intro v k hk
    rw [get_zeroizeRetired, map_eq_some_iff] at hk
    obtain ⟨kek, he, rfl⟩ := hk
    have hk1 := h.keys v kek he
    have hl : (m.zeroizeRetired now).2.versions.length = m.versions.length := List.length_map _
    exact ⟨(zeroize_state kek).2.trans hk1.1, by omega⟩
  · intro v hv
    rw [get_zeroizeRetired, isSome_map]
    exact h.current v hv
  · intro hn
    exact List.map_eq_nil_iff.mpr (h.started hn)
  · intro v k hk
    rw [get_zeroizeRetired, map_eq_some_iff] at hk
    obtain ⟨kek, he, rfl⟩ := hk
    rw [(zeroize_state kek).1]
    exact h.active v kek he

end KekManager.Ok

/-- An operation that has succeeded; `previous` is the version that an activation has retired. -/
inductive KekEntry where
  | registered (version : Nat) (keyMaterial : List UInt8)
  | approved (version : Nat) (approvedBy : String)
  | activated (version : Nat) (previous : Option Nat)
  | zeroized (versions : List Nat)
  deriving DecidableEq

/-- The manager and what has happened to it, the last first. -/
structure KekWorld where
  manager : KekManager
  history : List KekEntry

inductive KekAction where
  | registerVersion (now : Int) (keyMaterial : List UInt8)
  | approveActivation (now : Int) (version : Nat) (approvedBy : String)
  | activateVersion (now : Int) (version : Nat)
  | zeroizeRetired (now : Int)

/-- A call that throws leaves everything as it was. -/
def kekStep : KekAction → KekWorld → Option KekWorld
  | .registerVersion now keyMaterial, w =>
    match w.manager.registerVersion now keyMaterial with
    | .ok (result, manager) => some ⟨manager, .registered result.version keyMaterial :: w.history⟩
    | .error _ => some w
  | .approveActivation now version approvedBy, w =>
    match w.manager.approveActivation now version approvedBy with
    | .ok manager => some ⟨manager, .approved version approvedBy :: w.history⟩
    | .error _ => some w
  | .activateVersion now version, w =>
    match w.manager.activateVersion now version with
    | .ok manager =>
      some ⟨manager, .activated version w.manager.currentVersion :: w.history⟩
    | .error _ => some w
  | .zeroizeRetired now, w =>
    let (versions, manager) := w.manager.zeroizeRetired now
    some ⟨manager, .zeroized versions :: w.history⟩

def KekWorld.start : KekWorld := ⟨.empty, []⟩

/-- What a call leaves: what was there when it throws, and else the manager and one more entry. -/
inductive KekEffect (w : KekWorld) : KekAction → KekWorld → Prop
  | refused {action : KekAction} : KekEffect w action w
  | registered {now : Int} {keyMaterial : List UInt8} {result : KekRegistrationResult}
      {manager : KekManager}
      (h : w.manager.registerVersion now keyMaterial = .ok (result, manager)) :
      KekEffect w (.registerVersion now keyMaterial)
        ⟨manager, .registered result.version keyMaterial :: w.history⟩
  | approved {now : Int} {version : Nat} {approvedBy : String} {manager : KekManager}
      (h : w.manager.approveActivation now version approvedBy = .ok manager) :
      KekEffect w (.approveActivation now version approvedBy)
        ⟨manager, .approved version approvedBy :: w.history⟩
  | activated {now : Int} {version : Nat} {manager : KekManager}
      (h : w.manager.activateVersion now version = .ok manager) :
      KekEffect w (.activateVersion now version)
        ⟨manager, .activated version w.manager.currentVersion :: w.history⟩
  | zeroized {now : Int} : KekEffect w (.zeroizeRetired now)
      ⟨(w.manager.zeroizeRetired now).2, .zeroized (w.manager.zeroizeRetired now).1 :: w.history⟩

variable {action : KekAction} {w w' : KekWorld}

theorem kekStep_effect (h : kekStep action w = some w') : KekEffect w action w' := by
  cases action with rw [kekStep] at h
  | registerVersion =>
    split at h
    · next hr =>
      cases h
      exact .registered hr
    · cases h
      exact .refused
  | approveActivation =>
    split at h
    · next ha =>
      cases h
      exact .approved ha
    · cases h
      exact .refused
  | activateVersion =>
    split at h
    · next hc =>
      cases h
      exact .activated hc
    · cases h
      exact .refused
  | zeroizeRetired =>
    cases h
    exact .zeroized

theorem KekManager.Ok.kekStep (ho : w.manager.Ok) (h : kekStep action w = some w') :
    w'.manager.Ok := by
  cases kekStep_effect h with
  | refused => exact ho
  | registered hr => exact ho.registerVersion hr
  | approved ha => exact ho.approveActivation ha
  | activated hc => exact ho.activateVersion hc
  | zeroized => exact ho.zeroizeRetired

theorem KekManager.Ok.run {actions : List KekAction}
    (hr : run Keys.kekStep actions .start = some w) : w.manager.Ok :=
  run_invariant (fun w => w.manager.Ok) (fun _ _ _ h _ hs => h.kekStep hs) .empty
    (along_anyAction actions _) hr

end Credence.Keys
