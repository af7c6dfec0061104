import Credence.Keys.KekManager

/-! The current key encryption key over whole histories. -/

namespace Credence.Keys

open Js ProofKit List

def KekEntry.wipes (version : Nat) : KekEntry → Bool
  | zeroized versions => version ∈ versions
  | _ => false

def wiped (version : Nat) (history : List KekEntry) : Bool := history.any (KekEntry.wipes version)

def KekEntry.material (version : Nat) : KekEntry → Option (List UInt8)
  | registered v keyMaterial => if v = version then some keyMaterial else none
  | _ => none

def registeredMaterial (version : Nat) (history : List KekEntry) : Option (List UInt8) :=
  history.findSome? (KekEntry.material version)

/-- The current version is not wiped, and keeps the material it was registered with. -/
structure KekWorld.Ok (w : KekWorld) : Prop where
  manager : w.manager.Ok
  known : ∀ v, wiped v w.history = true → v ≤ w.manager.versions.length
  intact : ∀ v, w.manager.currentVersion = some v → wiped v w.history = false
  material : ∀ v kek, Map.get v w.manager.versions = some kek → wiped v w.history = false →
    registeredMaterial v w.history = some kek.keyMaterial

namespace KekWorld.Ok

variable {w : KekWorld} {now : Int} {version : Nat} {manager : KekManager}

theorem start : KekWorld.start.Ok := by
  refine ⟨.empty, ?_, ?_, ?_⟩
  all_goals
    intro v
    simp [KekWorld.start, KekManager.empty, Map.get, wiped]

theorem registerVersion (h : w.Ok) {keyMaterial : List UInt8} {result : KekRegistrationResult}
    (hr : w.manager.registerVersion now keyMaterial = .ok (result, manager)) :
    KekWorld.Ok ⟨manager, .registered result.version keyMaterial :: w.history⟩ := by
  obtain ⟨ha, hb, hc, -⟩ := KekManager.registerVersion_ok hr
  have hn : Map.get result.version w.manager.versions = none := ha ▸ h.manager.get_new
  have hle : manager.versions.length = w.manager.versions.length + 1 := by
    rw [hb, Map.length_set, hn]
    rfl
  refine ⟨h.manager.registerVersion hr, ?_, ?_, ?_⟩
  · intro v hv
    have hl : v ≤ w.manager.versions.length := h.known v hv
    dsimp only
    omega
  · intro v hv
    dsimp only at hv
    rw [hc] at hv
    split at hv
    · cases hv
      rw [Bool.eq_false_iff]
      intro hw
      have hl : result.version ≤ w.manager.versions.length := h.known _ hw
      omega
    · exact h.intact v hv
  · intro v kek hk hi
    dsimp only at hk
    rw [hb, Map.get_set] at hk
    split at hk
    · next he =>
      cases hk
      simp [registeredMaterial, KekEntry.material, he]
    · next hNe =>
      have hm := h.material v kek hk hi
      simpa [registeredMaterial, KekEntry.material, hNe] using hm

theorem approveActivation (h : w.Ok) {approvedBy : String}
    (ha : w.manager.approveActivation now version approvedBy = .ok manager) :
    KekWorld.Ok ⟨manager, .approved version approvedBy :: w.history⟩ := by
  obtain ⟨-, -, hv, hc, -⟩ := KekManager.approveActivation_ok ha
  have hm := h.manager.approveActivation ha
  obtain ⟨versions, currentVersion, pendingApprovals, auditLog⟩ := manager
  cases hv
  cases hc
  exact ⟨hm, h.known, h.intact, h.material⟩

theorem activateVersion (h : w.Ok) (ha : w.manager.activateVersion now version = .ok manager)
    (hi : wiped version w.history = false) :
    KekWorld.Ok ⟨manager, .activated version w.manager.currentVersion :: w.history⟩ := by
  obtain ⟨kek, c, prev, hb, -, -, hp, hc, -, hl, hg⟩ := h.manager.get_activateVersion ha
  refine ⟨h.manager.activateVersion ha, ?_, ?_, ?_⟩
  · intro v hv
    have hLe : v ≤ w.manager.versions.length := h.known v hv
    dsimp only
    omega
  · intro v hv
    dsimp only at hv
    rw [hc] at hv
    exact Option.some.inj hv ▸ hi
  · intro v k hk hv
    dsimp only at hk
    rw [hg v] at hk
    split at hk
    · next he =>
      cases hk
      exact h.material v kek (he ▸ hb) hv
    · split at hk
      · next he =>
        cases hk
        exact h.material v prev (he ▸ hp) hv
      · exact h.material v k hk hv

theorem mem_zeroizeRetired (h : w.Ok) {v : Nat} (hm : v ∈ (w.manager.zeroizeRetired now).1) :
    ∃ kek, Map.get v w.manager.versions = some kek ∧ kek.state = .retired := by
  simp only [KekManager.zeroizeRetired, mem_map, mem_filter, decide_eq_true_eq] at hm
  obtain ⟨kek, ⟨⟨entry, he, rfl⟩, hr, -⟩, rfl⟩ := hm
  have hg := Map.get_of_mem h.manager.nodup he
  rw [(h.manager.keys entry.1 entry.2 hg).1]
  exact ⟨entry.2, hg, hr⟩

theorem zeroize_of_notMem (h : w.Ok) {v : Nat} {kek : KekVersion}
    (hg : Map.get v w.manager.versions = some kek)
    (hn : v ∉ (w.manager.zeroizeRetired now).1) : KekManager.zeroize kek = kek := by
  rw [KekManager.zeroize, if_neg]
  intro hw
  refine hn ?_
  simp only [KekManager.zeroizeRetired, mem_map, mem_filter, decide_eq_true_eq]
  exact ⟨kek, ⟨⟨(v, kek), Map.mem_of_get hg, rfl⟩, hw⟩, (h.manager.keys v kek hg).1⟩

theorem zeroizeRetired (h : w.Ok) : KekWorld.Ok ⟨(w.manager.zeroizeRetired now).2,
    .zeroized (w.manager.zeroizeRetired now).1 :: w.history⟩ := by
  have hw : ∀ v, wiped v (.zeroized (w.manager.zeroizeRetired now).1 :: w.history) = true ↔
      v ∈ (w.manager.zeroizeRetired now).1 ∨ wiped v w.history = true := by
    intro v
    simp [wiped, KekEntry.wipes]
  refine ⟨h.manager.zeroizeRetired, ?_, ?_, ?_⟩
  · intro v hv
    refine Nat.le_trans ?_ (Nat.le_of_eq (length_map _).symm)
    rcases (hw v).mp hv with hn | ho
    · obtain ⟨kek, he, -⟩ := h.mem_zeroizeRetired hn
      exact (h.manager.keys v kek he).2
    · exact h.known v ho
  · intro v hv
    rw [Bool.eq_false_iff]
    intro hn1
    rcases (hw v).mp hn1 with hn | ho
    · obtain ⟨kek, he, hr⟩ := h.mem_zeroizeRetired hn
      have ha := (h.manager.active v kek he).mpr hv
      rw [hr] at ha
      cases ha
    · rw [h.intact v hv] at ho
      cases ho
  · intro v k hk hv
    dsimp only at hk
    rw [KekManager.Ok.get_zeroizeRetired, Option.map_eq_some_iff] at hk
    obtain ⟨kek, he, rfl⟩ := hk
    have hb : v ∉ (w.manager.zeroizeRetired now).1 ∧ ¬ wiped v w.history = true := by
      rw [← not_or, ← hw v, hv]
      exact Bool.false_ne_true
    rw [h.zeroize_of_notMem he hb.1]
    exact h.material v kek he (Bool.eq_false_iff.mpr hb.2)

end KekWorld.Ok

def activatesIntact (action : KekAction) (w : KekWorld) : Bool :=
  match action with
  | .activateVersion _ version => !wiped version w.history
  | _ => true

def ActivatesIntact (action : KekAction) (w : KekWorld) : Prop := activatesIntact action w = true

instance (action : KekAction) (w : KekWorld) : Decidable (ActivatesIntact action w) :=
  inferInstanceAs (Decidable (_ = true))

theorem KekWorld.Ok.step {w w' : KekWorld} {action : KekAction} (h : w.Ok)
    (hi : ActivatesIntact action w) (hs : kekStep action w = some w') : w'.Ok := by
  cases kekStep_effect hs with
  | refused => exact h
  | registered hr => exact h.registerVersion hr
  | approved ha => exact h.approveActivation ha
  | activated hc =>
    exact h.activateVersion hc (by simpa [ActivatesIntact, activatesIntact] using hi)
  | zeroized => exact h.zeroizeRetired

/-- Where no wiped version is activated, once there is a version exactly one is active,
`getCurrentKek` returns it, and it has the material it was registered with. -/
theorem current_kek_usable {actions : List KekAction} {w : KekWorld}
    (hIntact : Along kekStep ActivatesIntact actions .start)
    (hRun : run kekStep actions .start = some w) (hSome : w.manager.versions ≠ []) :
    ∃ kek, w.manager.getCurrentKek = .ok kek ∧ Map.get kek.version w.manager.versions = some kek ∧
      (∀ v k, Map.get v w.manager.versions = some k → (k.state = .active ↔ v = kek.version)) ∧
      registeredMaterial kek.version w.history = some kek.keyMaterial := by
  have ho : w.Ok := run_invariant KekWorld.Ok (fun _ _ _ h ho hs => h.step ho hs) .start
    hIntact hRun
  cases hc : w.manager.currentVersion with
  | none => exact absurd (ho.manager.started hc) hSome
  | some c =>
    obtain ⟨kek, he⟩ := Option.isSome_iff_exists.mp (ho.manager.current c hc)
    obtain ⟨rfl, -⟩ := ho.manager.keys c kek he
    refine ⟨kek, by simp [KekManager.getCurrentKek, hc, he], he, ?_, ?_⟩
    · intro v k hk
      rw [ho.manager.active v k hk, hc, Option.some_inj, eq_comm]
    · exact ho.material _ kek he (ho.intact _ hc)

def secondApproved : List KekAction :=
  [.registerVersion 1 (replicate 32 7), .registerVersion 2 (replicate 32 9),
    .approveActivation 3 2 "ada", .approveActivation 4 2 "grace"]

theorem current_kek_usable_rotation : ∃ w kek,
    run kekStep (secondApproved ++ [.activateVersion 5 2, .zeroizeRetired 6]) .start = some w ∧
      w.manager.currentVersion = some 2 ∧ w.manager.getCurrentKek = .ok kek ∧
      registeredMaterial kek.version w.history = some kek.keyMaterial := by
  have hr : run kekStep (secondApproved ++ [.activateVersion 5 2, .zeroizeRetired 6]) .start =
      some _ := rfl
  obtain ⟨kek, hk, -, -, hm⟩ := current_kek_usable (by decide +kernel) hr (cons_ne_nil _ _)
  exact ⟨_, kek, hr, rfl, hk, hm⟩

/-- The second version is wiped before it is activated, and the current key is then all zeros. -/
theorem wiped_version_activated :
    (run kekStep (secondApproved ++ [.zeroizeRetired 5, .activateVersion 6 2]) .start).map
      (fun w => (w.manager.currentVersion,
        (Map.get 2 w.manager.versions).map fun kek => (kek.state, kek.keyMaterial),
        registeredMaterial 2 w.history)) =
    some (some 2, some (.active, replicate 32 0), some (replicate 32 9)) := by
  decide +kernel

end Credence.Keys
