import Credence.Keys.KekManager
import Credence.ProofKit.Lists

/-! Dual control: two approvers for each activation. The manager keeps the approvals of a version
after it has activated it. -/

namespace Credence.Keys

open Js ProofKit List

def KekEntry.approver (version : Nat) : KekEntry → Option String
  | approved v approvedBy => if v = version then some approvedBy else none
  | _ => none

def KekEntry.stops (version : Nat) : KekEntry → Bool
  | activated _ previous => previous = some version
  | _ => false

def KekEntry.activates (version : Nat) : KekEntry → Bool
  | activated v _ => v = version
  | _ => false

def approvers (version : Nat) (history : List KekEntry) : List String :=
  history.filterMap (KekEntry.approver version)

/-- Those who have approved the version since it last stopped being active. -/
def recentApprovers (version : Nat) (history : List KekEntry) : List String :=
  approvers version (history.takeWhile fun entry => !entry.stops version)

def activatedBefore (version : Nat) (history : List KekEntry) : Bool :=
  history.any (KekEntry.activates version)

/-- The approvals of the manager are those of the history, each by another approver. Those of a
version not activated before are recent: one that is active from its registration has none. -/
structure KekWorld.Controlled (w : KekWorld) : Prop where
  manager : w.manager.Ok
  pending : ∀ v, (w.manager.getPendingApprovals v).map KekApproval.approvedBy =
    (approvers v w.history).reverse
  nodup : ∀ v, (approvers v w.history).Nodup
  known : ∀ v, approvers v w.history ≠ [] → v ≤ w.manager.versions.length
  current : ∀ v, activatedBefore v w.history = false → w.manager.currentVersion = some v →
    approvers v w.history = []
  recent : ∀ v, activatedBefore v w.history = false →
    recentApprovers v w.history = approvers v w.history

namespace KekWorld.Controlled

variable {w : KekWorld} {now : Int} {version : Nat} {manager : KekManager}

theorem start : KekWorld.start.Controlled := by
  refine ⟨.empty, ?_, ?_, ?_, ?_, ?_⟩ <;> intro v <;>
    simp [KekWorld.start, KekManager.empty, KekManager.getPendingApprovals, Map.get, approvers,
      recentApprovers]

section

variable (h : w.Controlled)
include h

theorem other {entry : KekEntry} (hm : manager.Ok)
    (hd : ∀ v, entry.approver v = none) (hs : ∀ v, entry.stops v = false)
    (he : ∀ v, entry.activates v = false)
    (hp : ∀ v, manager.getPendingApprovals v = w.manager.getPendingApprovals v)
    (hl : w.manager.versions.length ≤ manager.versions.length)
    (hc : ∀ v, manager.currentVersion = some v → approvers v w.history = [] ∨
      w.manager.currentVersion = some v) : KekWorld.Controlled ⟨manager, entry :: w.history⟩ := by
  have ha : ∀ v, approvers v (entry :: w.history) = approvers v w.history := by
    intro v
    simp [approvers, hd v]
  have hr : ∀ v, recentApprovers v (entry :: w.history) = recentApprovers v w.history := by
    intro v
    simp [recentApprovers, approvers, hs v, hd v]
  have hb : ∀ v, activatedBefore v (entry :: w.history) = activatedBefore v w.history := by
    intro v
    simp [activatedBefore, he v]
  refine ⟨hm, ?_, ?_, ?_, ?_, ?_⟩
  · intro v
    rw [hp v, ha v]
    exact h.pending v
  · intro v
    rw [ha v]
    exact h.nodup v
  · intro v hv
    rw [ha v] at hv
    exact Nat.le_trans (h.known v hv) hl
  · intro v hv hn
    rw [hb v] at hv
    rw [ha v]
    rcases hc v hn with hf | ho
    · exact hf
    · exact h.current v hv ho
  · intro v hv
    rw [hb v] at hv
    rw [hr v, ha v]
    exact h.recent v hv

theorem pending_new {v : Nat} (hn : approvers v w.history = []) :
    w.manager.getPendingApprovals v = [] := by
  have hp := h.pending v
  rw [hn, reverse_nil, map_eq_nil_iff] at hp
  exact hp

theorem registerVersion {keyMaterial : List UInt8} {result : KekRegistrationResult}
    (hr : w.manager.registerVersion now keyMaterial = .ok (result, manager)) :
    KekWorld.Controlled ⟨manager, .registered result.version keyMaterial :: w.history⟩ := by
  obtain ⟨ha, hb, hc, hp⟩ := KekManager.registerVersion_ok hr
  have hn : approvers result.version w.history = [] := by
    by_contra hs
    have hl := h.known _ hs
    omega
  refine h.other (h.manager.registerVersion hr) (fun _ => rfl) (fun _ => rfl) (fun _ => rfl)
    ?_ ?_ ?_
  · intro v
    rw [KekManager.getPendingApprovals, hp, Map.get_set]
    split
    · next he =>
      subst he
      exact (h.pending_new hn).symm
    · rfl
  · rw [hb, Map.length_set]
    split <;> omega
  · intro v hv
    rw [hc] at hv
    split at hv
    · exact .inl (Option.some.inj hv ▸ hn)
    · exact .inr hv

theorem zeroizeRetired : KekWorld.Controlled ⟨(w.manager.zeroizeRetired now).2,
    .zeroized (w.manager.zeroizeRetired now).1 :: w.history⟩ :=
  h.other h.manager.zeroizeRetired (fun _ => rfl) (fun _ => rfl) (fun _ => rfl) (fun _ => rfl)
    (Nat.le_of_eq (length_map _).symm) fun _ => .inr

theorem approveActivation {approvedBy : String}
    (hd : w.manager.approveActivation now version approvedBy = .ok manager) :
    KekWorld.Controlled ⟨manager, .approved version approvedBy :: w.history⟩ := by
  obtain ⟨⟨kek, hk, hr⟩, hne, hf, hc, hp⟩ := KekManager.approveActivation_ok hd
  have ha : ∀ v, approvers v (.approved version approvedBy :: w.history) =
      if version = v then approvedBy :: approvers v w.history else approvers v w.history := by
    intro v
    by_cases he : version = v <;> simp [approvers, KekEntry.approver, he]
  refine ⟨h.manager.approveActivation hd, ?_, ?_, ?_, ?_, ?_⟩
  · intro v
    rw [ha v, KekManager.getPendingApprovals, hp, Map.get_set]
    split
    · next he =>
      subst he
      simp [h.pending version]
    · exact h.pending v
  · intro v
    rw [ha v]
    split
    · next he =>
      subst he
      refine nodup_cons.mpr ⟨fun hm => ?_, h.nodup version⟩
      rw [← mem_reverse, ← h.pending version] at hm
      obtain ⟨approval, hg, hb⟩ := mem_map.mp hm
      exact hne approval hg hb
    · exact h.nodup v
  · intro v hv
    dsimp only
    rw [hf]
    rw [ha v] at hv
    split at hv
    · next he => exact he ▸ (h.manager.keys version kek hk).2
    · exact h.known v hv
  · intro v hv hn
    dsimp only at hn
    rw [hc] at hn
    have hNe : version ≠ v := by
      rintro rfl
      have hi := (h.manager.active version kek hk).mpr hn
      rw [hr] at hi
      cases hi
    rw [ha v, if_neg hNe]
    exact h.current v hv hn
  · intro v hv
    have hj := h.recent v hv
    by_cases he : version = v <;>
      simpa [recentApprovers, approvers, KekEntry.approver, KekEntry.stops, he] using hj

theorem activateVersion (ha : w.manager.activateVersion now version = .ok manager) :
    KekWorld.Controlled ⟨manager, .activated version w.manager.currentVersion :: w.history⟩ := by
  obtain ⟨kek, c, prev, -, -, hC, -, hc, -, hl, -⟩ := h.manager.get_activateVersion ha
  have hp : manager.pendingApprovals = w.manager.pendingApprovals := by
    obtain ⟨_, mid, -, -, -, hm, -, -, hs⟩ := KekManager.activateVersion_ok ha
    rcases hm with ⟨-, rfl⟩ | ⟨_, -, hu⟩
    · exact hs
    · obtain ⟨_, -, -, hk⟩ := KekManager.supersede_ok hu
      exact hs.trans hk
  refine ⟨h.manager.activateVersion ha, ?_, h.nodup, ?_, ?_, ?_⟩
  · intro v
    rw [KekManager.getPendingApprovals, hp]
    exact h.pending v
  · intro v hv
    have hLe : v ≤ w.manager.versions.length := h.known v hv
    dsimp only
    omega
  · intro v hv hn
    dsimp only at hn
    rw [hc] at hn
    simp [activatedBefore, KekEntry.activates, Option.some.inj hn] at hv
  · intro v hv
    have ho : activatedBefore v w.history = false := by
      simp only [activatedBefore, any_cons, Bool.or_eq_false_iff] at hv
      exact hv.2
    have hr := h.recent v ho
    by_cases he : c = v
    · subst he
      have hb := h.current c ho hC
      simpa [recentApprovers, approvers, KekEntry.approver, KekEntry.stops, hC] using hb.symm
    · rw [recentApprovers, takeWhile_cons_of_pos (by simp [KekEntry.stops, hC, he])]
      exact hr

theorem step {w' : KekWorld} {action : KekAction} (hs : kekStep action w = some w') :
    w'.Controlled := by
  cases kekStep_effect hs with
  | refused => exact h
  | registered hr => exact h.registerVersion hr
  | approved ha => exact h.approveActivation ha
  | activated hc => exact h.activateVersion hc
  | zeroized => exact h.zeroizeRetired

end

end KekWorld.Controlled

/-- In every history, each activation of a version that was not activated before has two approvers
who have approved it since it last stopped being active. -/
theorem dual_control {actions : List KekAction} {w : KekWorld} {now : Int} {version : Nat}
    {manager : KekManager} (hRun : run kekStep actions .start = some w)
    (hFirst : activatedBefore version w.history = false)
    (hActivate : w.manager.activateVersion now version = .ok manager) :
    ∃ a b, a ≠ b ∧ a ∈ recentApprovers version w.history ∧
      b ∈ recentApprovers version w.history := by
  have hc : w.Controlled := run_invariant KekWorld.Controlled
    (fun _ _ _ h _ hs => h.step hs) .start (along_anyAction actions _) hRun
  obtain ⟨_, _, -, -, ha, -⟩ := KekManager.activateVersion_ok hActivate
  have hl : 2 ≤ (approvers version w.history).length := by
    have hp := congrArg length (hc.pending version)
    rw [length_map, length_reverse] at hp
    exact hp ▸ ha
  rw [hc.recent version hFirst]
  exact exists_ne_of_nodup (hc.nodup version) hl

def thirdActivated : List KekAction :=
  [.registerVersion 1 (replicate 32 7), .registerVersion 2 (replicate 32 8),
    .registerVersion 3 (replicate 32 9), .approveActivation 4 2 "ada",
    .approveActivation 5 2 "grace", .activateVersion 6 2, .approveActivation 7 3 "ada",
    .approveActivation 8 3 "grace"]

theorem dual_control_third : ∃ w manager,
    run kekStep thirdActivated .start = some w ∧ w.manager.activateVersion 9 3 = .ok manager ∧
      ∃ a b, a ≠ b ∧ a ∈ recentApprovers 3 w.history ∧ b ∈ recentApprovers 3 w.history := by
  have hr : run kekStep thirdActivated .start = some _ := rfl
  refine ⟨_, _, hr, rfl, ?_⟩
  exact dual_control hr rfl (rfl : KekManager.activateVersion 9 3 _ = .ok _)

/-- The second version is activated again with no approval since it was superseded. -/
theorem activated_without_approval :
    (run kekStep (thirdActivated ++ [.activateVersion 9 3, .activateVersion 10 2]) .start).map
      (fun w => (w.manager.currentVersion, w.history.take 2,
        recentApprovers 2 (w.history.drop 1))) =
    some (some 2, [.activated 2 (some 3), .activated 3 (some 2)], []) := by
  decide +kernel

end Credence.Keys
