import Credence.Keys.KeyManager
import Credence.ProofKit.Lists

/-! The active signing key. `rotate` retires the old key before it has a new one. -/

namespace Credence.Keys

open ProofKit List

namespace KeyManager

variable {m next : KeyManager} {kid retiredKid : Kid} {pair : KeyPair} {now : Nat}

def Blank (m : KeyManager) : Prop := m.activeKid = none ∧ ∀ kid, m.keys.get kid = none

/-- The old key is retired and the new one is not there yet. -/
def NoActive (m : KeyManager) : Prop :=
  m.activeKid ≠ none ∧ ∀ kid key, m.keys.get kid = some key → key.state = .retired

structure OneActive (m : KeyManager) (kid : Kid) : Prop where
  current : m.activeKid = some kid
  active : ∃ key, m.keys.get kid = some key ∧ key.state = .active
  only : ∀ other key, m.keys.get other = some key → key.state = .active → other = kid

theorem store_oneActive (h : ∀ kid key, m.keys.get kid = some key → key.state = .retired) :
    (m.store now kid pair).OneActive kid := by
  refine ⟨rfl, ⟨⟨kid, .active, pair, now, none⟩, ?_, rfl⟩, ?_⟩
  · exact KeyTable.get_put.trans (if_pos rfl)
  · intro other key hg ha
    rcases KeyTable.get_of_put hg with ⟨hk, -⟩ | ⟨-, ho⟩
    · exact hk.symm
    · rw [h other key ho] at ha
      cases ha

theorem Blank.store (h : m.Blank) : (m.store now kid pair).OneActive kid := by
  apply store_oneActive
  intro other key hg
  rw [h.2 other] at hg
  cases hg

theorem NoActive.store (h : m.NoActive) : (m.store now kid pair).OneActive kid :=
  store_oneActive h.2

theorem retire_of_active {key : ManagedKey} (hk : m.activeKid = some kid)
    (hg : m.keys.get kid = some key) (ha : key.state = .active) (now : Nat) :
    ∃ next, m.retire now = .ok (key.kid, next) := by
  have hv : (trySigningKeyTransition .active .retired).success = true := by decide
  unfold retire getCurrentKey
  rw [hk]
  simp only [hg]
  rw [ha, if_pos hv]
  exact ⟨_, rfl⟩

theorem Blank.retire_fails (h : m.Blank) (now : Nat) :
    ∃ message, m.retire now = .error message := by
  cases hr : m.retire now with
  | error message => exact ⟨message, rfl⟩
  | ok =>
    obtain ⟨_, kid, hk, -⟩ := retire_eq_ok hr
    rw [h.1] at hk
    cases hk

theorem NoActive.retire_fails (h : m.NoActive) (now : Nat) :
    ∃ message, m.retire now = .error message := by
  cases hr : m.retire now with
  | error message => exact ⟨message, rfl⟩
  | ok =>
    obtain ⟨previous, kid, -, hg, ha, -⟩ := retire_eq_ok hr
    rw [h.2 kid previous hg] at ha
    cases ha

theorem OneActive.retire (h : m.OneActive kid) (hr : m.retire now = .ok (retiredKid, next)) :
    next.NoActive := by
  obtain ⟨previous, kid', hk, hg, -, -, -, hs, he⟩ := retire_eq_ok hr
  have hc : kid' = kid := Option.some.inj (hk.symm.trans h.current)
  refine ⟨?_, ?_⟩
  · rw [hs, hk]
    simp
  · intro other key ho
    rw [he] at ho
    rcases KeyTable.get_of_put ho with ⟨-, rfl⟩ | ⟨hne, hl⟩
    · rfl
    · cases ht : key.state with
      | retired => rfl
      | active =>
        have hn := h.only other key hl ht
        exact absurd ((m.keys.named kid' previous hg).trans (hc.trans hn.symm)) hne

theorem NoActive.prune (h : m.NoActive) : (m.pruneExpiredKeys now).2.NoActive :=
  ⟨h.1, fun kid key hg => h.2 kid key (get_pruned.mp hg).1⟩

theorem Blank.prune (h : m.Blank) : (m.pruneExpiredKeys now).2.Blank := by
  refine ⟨h.1, fun kid => ?_⟩
  cases hg : (m.pruneExpiredKeys now).2.keys.get kid with
  | none => rfl
  | some =>
    have ho := (get_pruned.mp hg).1
    rw [h.2 kid] at ho
    cases ho

theorem OneActive.prune (h : m.OneActive kid) : (m.pruneExpiredKeys now).2.OneActive kid := by
  obtain ⟨key, hg, ha⟩ := h.active
  refine ⟨h.current, ⟨key, get_pruned.mpr ⟨hg, ?_⟩, ha⟩, ?_⟩
  · simp [expired, ha]
  · intro other key hg ha
    exact h.only other key (get_pruned.mp hg).1 ha

end KeyManager

namespace KeyWorld

/-- `initialize` is not called while another call of it waits for its key pair, and the key
generation of a rotation does not fail. -/
def Orderly : KeyAction → KeyWorld → Prop
  | .initializeManager, w => .initializing ∉ w.calls
  | .pairFailed i _, w => ∀ call ∈ w.calls[i]?, call = .initializing
  | _, _ => True

instance : ∀ a w, Decidable (Orderly a w)
  | .initializeManager, w => inferInstanceAs (Decidable (.initializing ∉ w.calls))
  | .pairFailed i _, w => inferInstanceAs (Decidable (∀ call ∈ w.calls[i]?, call = .initializing))
  | .advance _, _ | .rotate, _ | .pruneExpiredKeys, _ | .signToken _ _, _ | .pairReady _, _
  | .resume _, _ => isTrue trivial

/-- The situations of the manager, and the calls that wait in each of them. -/
inductive OneKey (m : KeyManager) (calls : List KeyCall) : Prop
  | blank (manager : m.Blank)
      (all : ∀ (i : Nat) (call : KeyCall), calls[i]? = some call →
        call = .initializing ∨ ∃ message, call = .failed message)
      (one : ∀ i j : Nat, calls[i]? = some .initializing → calls[j]? = some .initializing → i = j)
  | rotating (i : Nat) (retiredKid : Kid) (manager : m.NoActive)
      (rotation : calls[i]? = some (.rotating retiredKid))
      (others : ∀ (j : Nat) (call : KeyCall), calls[j]? = some call → j ≠ i → call.waiting = false)
  | settled (kid : Kid) (manager : m.OneActive kid)
      (all : ∀ (i : Nat) (call : KeyCall), calls[i]? = some call → call.waiting = false)

namespace OneKey

variable {m next : KeyManager} {calls : List KeyCall} {i now : Nat} {call after : KeyCall}

theorem new (config : KeyManagerConfig) : OneKey (.new config) [] :=
  .blank ⟨rfl, fun _ => rfl⟩ (fun i call h => by simp at h) (fun i j h => by simp at h)

section

variable (h : OneKey m calls)
include h

theorem initializeManager (ha : .initializing ∉ calls) :
    OneKey m (calls ++ [if m.activeKid.isSome then .initialized else .initializing]) := by
  cases h with
  | blank manager all =>
    have hn : ¬ m.activeKid.isSome = true := by
      rw [manager.1]
      simp
    rw [if_neg hn]
    refine .blank manager (forall_getElem?_concat all (.inl rfl)) ?_
    intro i j hi hj
    rcases getElem?_concat_eq_some_iff.mp hi with ho | ⟨hi, -⟩
    · exact absurd (mem_of_getElem? ho) ha
    · rcases getElem?_concat_eq_some_iff.mp hj with ho | ⟨hj, -⟩
      · exact absurd (mem_of_getElem? ho) ha
      · omega
  | rotating i retiredKid manager rotation others =>
    rw [if_pos (Option.isSome_iff_ne_none.mpr manager.1)]
    exact .rotating i retiredKid manager (getElem?_concat_eq_some_iff.mpr (.inl rotation))
      (forall_getElem?_concat others fun _ => rfl)
  | settled kid manager all =>
    have hs : m.activeKid.isSome = true := by
      rw [manager.current]
      rfl
    rw [if_pos hs]
    exact .settled kid manager (forall_getElem?_concat all rfl)

theorem failed (message : String) : OneKey m (calls ++ [.failed message]) := by
  cases h with
  | blank manager all one =>
    refine .blank manager (forall_getElem?_concat all (.inr ⟨message, rfl⟩)) ?_
    intro i j hi hj
    rcases getElem?_concat_eq_some_iff.mp hi with hi | ⟨-, hf⟩
    · rcases getElem?_concat_eq_some_iff.mp hj with hj | ⟨-, hf⟩
      · exact one i j hi hj
      · cases hf
    · cases hf
  | rotating i retiredKid manager rotation others =>
    exact .rotating i retiredKid manager (getElem?_concat_eq_some_iff.mpr (.inl rotation))
      (forall_getElem?_concat others fun _ => rfl)
  | settled kid manager all => exact .settled kid manager (forall_getElem?_concat all rfl)

theorem retire {retiredKid : Kid} (hr : m.retire now = .ok (retiredKid, next)) :
    OneKey next (calls ++ [.rotating retiredKid]) := by
  cases h with
  | blank manager all one | rotating i kid manager rotation others =>
    obtain ⟨message, hf⟩ := manager.retire_fails now
    cases hr.symm.trans hf
  | settled kid manager all =>
    refine .rotating calls.length retiredKid (manager.retire hr) (by simp) ?_
    apply forall_getElem?_concat
    · intro j call hc _
      exact all j call hc
    · intro hne
      exact absurd rfl hne

theorem prune (now : Nat) : OneKey (m.pruneExpiredKeys now).2 calls := by
  cases h with
  | blank manager all one => exact .blank manager.prune all one
  | rotating i kid manager rotation others =>
    exact .rotating i kid manager.prune rotation others
  | settled kid manager all => exact .settled kid manager.prune all

theorem emitAudit (now : Nat) (event : KeyEvent) (kid : Kid) (previous : Option Kid) :
    OneKey (m.emitAudit now event kid previous) calls := by
  cases h with
  | blank manager all one => exact .blank manager all one
  | rotating i kid manager rotation others => exact .rotating i kid manager rotation others
  | settled kid manager all =>
    exact .settled kid ⟨manager.current, manager.active, manager.only⟩ all

theorem store (kid : Kid) (pair : KeyPair) (hc : calls[i]? = some call)
    (hw : call.waiting = true) (ha : after.waiting = false) :
    OneKey (m.store now kid pair) (calls.set i after) := by
  cases h with
  | blank manager all one =>
    have hi : call = .initializing := by
      rcases all i call hc with hc | ⟨message, rfl⟩
      · exact hc
      · cases hw
    subst hi
    refine .settled kid manager.store (forall_getElem?_set (fun j other hp ho => ?_) ha)
    rcases all j other ho with rfl | ⟨message, rfl⟩
    · exact absurd (one i j hc ho) hp
    · rfl
  | rotating i' retiredKid manager rotation others =>
    have hp : i = i' := by
      by_contra hne
      rw [others i call hc hne] at hw
      cases hw
    subst hp
    exact .settled kid manager.store
      (forall_getElem?_set (fun j other hp ho => others j other ho hp.symm) ha)
  | settled kid' manager all =>
    rw [all i call hc] at hw
    cases hw

theorem initialize_fails (hc : calls[i]? = some .initializing) (message : String) :
    OneKey m (calls.set i (.failed message)) := by
  cases h with
  | blank manager all one =>
    refine .blank manager ?_ ?_
    · exact forall_getElem?_set (fun j call _ ho => all j call ho) (.inr ⟨message, rfl⟩)
    · intro j k hj hk
      rcases getElem?_set_eq_some hj with ⟨-, hf⟩ | ⟨-, hj⟩
      · cases hf
      · rcases getElem?_set_eq_some hk with ⟨-, hf⟩ | ⟨-, hk⟩
        · cases hf
        · exact one j k hj hk
  | rotating i' retiredKid manager rotation others =>
    by_cases hp : i = i'
    · subst hp
      cases hc.symm.trans rotation
    · cases others i _ hc hp
  | settled kid manager all => cases all i _ hc

theorem ends (hc : calls[i]? = some call) (hs : call.waiting = false)
    (hr : call.ended = false) (ha : after.waiting = false) :
    OneKey m (calls.set i after) := by
  cases h with
  | blank manager all =>
    rcases all i call hc with rfl | ⟨message, rfl⟩
    · cases hs
    · cases hr
  | rotating i' retiredKid manager rotation others =>
    have hp : i ≠ i' := by
      rintro rfl
      cases hc.symm.trans rotation
      cases hs
    refine .rotating i' retiredKid manager ?_ ?_
    · rw [getElem?_set_ne hp]
      exact rotation
    · exact forall_getElem?_set (fun j other _ ho => others j other ho) fun _ => ha
  | settled kid manager all =>
    exact .settled kid manager
      (forall_getElem?_set (fun j other _ ho => all j other ho) ha)

end

end OneKey

theorem oneKey_step {a : KeyAction} {w next : KeyWorld} (h : OneKey w.manager w.calls)
    (ho : Orderly a w) (hs : step a w = some next) : OneKey next.manager next.calls := by
  cases a with
  | advance =>
    cases hs
    exact h
  | initializeManager =>
    cases hs
    exact h.initializeManager ho
  | rotate =>
    rcases rotate_cases hs with ⟨message, -, rfl⟩ | ⟨retiredKid, manager, hr, rfl⟩
    · exact h.failed message
    · exact h.retire hr
  | pruneExpiredKeys =>
    cases hs
    exact h.prune w.now
  | signToken =>
    rcases signToken_cases hs with rfl | ⟨token, -, rfl⟩
    · exact h
    · exact h
  | pairReady =>
    rcases pairReady_cases hs with ⟨hc, rfl⟩ | ⟨retiredKid, hc, rfl⟩
    · exact h.store _ _ hc rfl rfl
    · exact h.store _ _ hc rfl rfl
  | pairFailed i message =>
    obtain ⟨call, hc, -, rfl⟩ := pairFailed_cases hs
    cases ho call hc
    exact h.initialize_fails hc message
  | resume =>
    rcases resume_cases hs with ⟨kid, hc, rfl⟩ | ⟨newKid, retiredKid, hc, rfl⟩
    · exact (h.ends hc rfl rfl rfl).emitAudit _ _ _ _
    · exact ((h.ends hc rfl rfl rfl).emitAudit _ _ _ _).prune w.now

def activeKeys (w : KeyWorld) : List ManagedKey :=
  (w.manager.keys.entries.map Prod.snd).filter fun key => key.state = .active

variable {w : KeyWorld} {kid : Kid}

variable {key : ManagedKey} {i : Nat} {retiredKid : Kid}

theorem activeKeys_eq (h : w.manager.OneActive kid) (hg : w.manager.keys.get kid = some key)
    (ha : key.state = .active) : w.activeKeys = [key] := by
  have he : (w.manager.keys.entries.filter fun entry => entry.2.state = .active) =
      [(kid, key)] := by
    apply perm_singleton.mp
    refine (perm_ext_iff_of_nodup ?_ (nodup_singleton _)).mpr ?_
    · exact (List.Nodup.of_map Prod.fst w.manager.keys.nodup).filter _
    · rintro ⟨other, found⟩
      rw [mem_filter, mem_singleton, KeyTable.mem_iff, decide_eq_true_eq]
      constructor
      · rintro ⟨hf, hs⟩
        cases h.only other found hf hs
        cases hf.symm.trans hg
        rfl
      · intro hEq
        cases hEq
        exact ⟨hg, ha⟩
  rw [activeKeys, filter_map, Function.comp_def, he]
  rfl

theorem rotation_succeeds (hk : w.manager.activeKid = some kid)
    (hg : w.manager.keys.get kid = some key) (ha : key.state = .active) :
    ∃ newKid later, run step [.rotate, .pairReady w.calls.length, .resume w.calls.length] w =
        some later ∧
      later.calls[w.calls.length]? = some (.rotated newKid key.kid) := by
  obtain ⟨manager, hr⟩ := KeyManager.retire_of_active hk hg ha w.now
  simp [run, step, hr, stored]

/-- In a run of orderly steps there is one active key whenever an `initialize` has resolved and no
call is under way; it is the current key and can be rotated. -/
theorem one_active_key {config : KeyManagerConfig} {now : Nat} {acts : List KeyAction}
    (h : Along step Orderly acts (start config now))
    (hRun : run step acts (start config now) = some w)
    (hInitialized : .initialized ∈ w.calls) (hEnded : ∀ call ∈ w.calls, call.ended = true) :
    ∃ key, w.activeKeys = [key] ∧ w.manager.getCurrentKey = .ok (some key) ∧
      ∃ newKid later, run step [.rotate, .pairReady w.calls.length, .resume w.calls.length] w =
          some later ∧
        later.calls[w.calls.length]? = some (.rotated newKid key.kid) := by
  have hn : OneKey w.manager w.calls :=
    run_invariant (fun w => OneKey w.manager w.calls)
      (fun _ _ _ h hr hs => oneKey_step h hr hs) (OneKey.new config) h hRun
  cases hn with
  | blank manager all =>
    obtain ⟨i, hc⟩ := mem_iff_getElem?.mp hInitialized
    rcases all i _ hc with ho | ⟨message, ho⟩
    · cases ho
    · cases ho
  | rotating i retiredKid manager rotation =>
    cases hEnded _ (mem_of_getElem? rotation)
  | settled kid manager =>
    obtain ⟨key, hg, ha⟩ := manager.active
    refine ⟨key, activeKeys_eq manager hg ha, ?_, rotation_succeeds manager.current hg ha⟩
    rw [KeyManager.getCurrentKey, manager.current]
    exact congrArg Except.ok hg

def generating : KeyManagerConfig := ⟨3600, 300, none, none⟩

def rotationRun : List KeyAction :=
  [.initializeManager, .pairReady 0, .resume 0, .rotate, .signToken 3600 none, .pairReady 1,
    .advance 4000000, .resume 1]

theorem one_active_key_rotationRun :
    ∃ w key, run step rotationRun (start generating 0) = some w ∧ w.activeKeys = [key] ∧
      w.manager.getCurrentKey = .ok (some key) ∧
      ∃ newKid later, run step [.rotate, .pairReady w.calls.length, .resume w.calls.length] w =
          some later ∧
        later.calls[w.calls.length]? = some (.rotated newKid key.kid) := by
  have hr : run step rotationRun (start generating 0) = some _ := rfl
  have ho : Along step Orderly rotationRun (start generating 0) := by decide +kernel
  obtain ⟨key, hk⟩ := one_active_key ho hr (by decide) (by decide)
  exact ⟨_, key, hr, hk⟩

/-- A failed key generation leaves no active key, and every later rotation is refused; two
overlapping calls of `initialize` leave two active keys. -/
theorem not_one_active_key :
    (run step [.initializeManager, .pairReady 0, .resume 0, .rotate, .pairFailed 1 "failed"]
      (start generating 0)).map (fun w => (w.calls, w.activeKeys)) =
        some ([.initialized, .failed "failed"], []) ∧
    (run step [.initializeManager, .pairReady 0, .resume 0, .rotate, .pairFailed 1 "failed",
      .rotate] (start generating 0)).map KeyWorld.calls = some [.initialized, .failed "failed",
        .failed "Key rotation rejected: Invalid transition from \"retired\" to \"retired\""] ∧
    (run step [.initializeManager, .initializeManager, .pairReady 0, .pairReady 1, .resume 0,
      .resume 1] (start generating 0)).map (fun w => (w.calls, w.activeKeys.map ManagedKey.kid)) =
        some ([.initialized, .initialized], [.random 0, .random 1]) := by
  refine ⟨?_, ?_, ?_⟩
  · decide +kernel
  · decide +kernel
  · decide +kernel

end KeyWorld

end Credence.Keys
