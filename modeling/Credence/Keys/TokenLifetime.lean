import Credence.Keys.KeyManager
import Credence.ProofKit.Lists
import Mathlib.Tactic.Linarith

/-! How long a token can be verified: a retired key verifies for the grace period and the clock
skew, whatever the lifetimes of the tokens it has signed. -/

namespace Credence.Keys

open ProofKit List Option

def Begun (config : KeyManagerConfig) (now : Nat) (nbf : Option NumericClaim) : Prop :=
  match nbf with
  | none => True
  | some .other => False
  | some (.number value) => value ≤ (now / 1000 : Nat) + config.clockSkewSeconds

instance (config : KeyManagerConfig) (now : Nat) : ∀ nbf, Decidable (Begun config now nbf)
  | none => isTrue trivial
  | some .other => isFalse id
  | some (.number _) => inferInstanceAs (Decidable (_ ≤ _))

theorem Begun.mono {config : KeyManagerConfig} {now later : Nat} {nbf : Option NumericClaim}
    (h : Begun config now nbf) (hl : now ≤ later) : Begun config later nbf := by
  match nbf with
  | none => trivial
  | some .other => exact h
  | some (.number value) =>
    have hs : ((now / 1000 : Nat) : ℚ) ≤ (later / 1000 : Nat) := by
      exact_mod_cast Nat.div_le_div_right hl
    have hv : value ≤ (now / 1000 : Nat) + config.clockSkewSeconds := h
    show value ≤ (later / 1000 : Nat) + config.clockSkewSeconds
    linarith

/-- Where an identifier comes from: the number has been drawn, or the pair is the imported one. -/
def Known (config : KeyManagerConfig) (drawn : Nat) : Kid → KeyPair → Prop
  | .random n, _ => n < drawn
  | .configured _, pair => config.privateKeyPem.map .imported = some pair

theorem Known.mono {config : KeyManagerConfig} {drawn more : Nat} {kid : Kid} {pair : KeyPair}
    (h : Known config drawn kid pair) (hm : drawn ≤ more) : Known config more kid pair := by
  cases kid with
  | configured => exact h
  | random => exact lt_of_lt_of_le h hm

/-- The time until which a key verifies: its window runs from its retirement, or else from now. -/
def ManagedKey.verifiesUntil (key : ManagedKey) (windowMs now : Nat) : Int :=
  (key.retiredAt.getD now + windowMs : Nat)

def ManagedKey.Dated (key : ManagedKey) (now : Nat) : Prop :=
  (key.state = .active ∧ key.retiredAt = none) ∨
    ∃ retiredAt, key.state = .retired ∧ key.retiredAt = some retiredAt ∧ retiredAt ≤ now

/-- The token is expired, or its key verifies it until then. -/
structure Backed (m : KeyManager) (now drawn : Nat) (token : Token) : Prop where
  named : token.kid ≠ .configured ""
  begun : Begun m.config now token.nbf
  known : Known m.config drawn token.kid token.signedWith
  key : token.exp * 1000 ≤ now ∨ ∃ key, m.keys.get token.kid = some key ∧
    key.pair = token.signedWith ∧ token.exp * 1000 ≤ key.verifiesUntil m.config.windowMs now

structure TokensBacked (m : KeyManager) (now drawn : Nat) (issued : List Token) : Prop where
  known : ∀ kid key, m.keys.get kid = some key → Known m.config drawn kid key.pair
  dated : ∀ kid key, m.keys.get kid = some key → key.Dated now
  tokens : ∀ token ∈ issued, Backed m now drawn token

namespace ManagedKey

variable {key : ManagedKey} {now later : Nat} (windowMs : Nat)

theorem Dated.mono (h : key.Dated now) (hl : now ≤ later) : key.Dated later := by
  rcases h with ha | ⟨retiredAt, hr, ht, hLe⟩
  · exact .inl ha
  · exact .inr ⟨retiredAt, hr, ht, hLe.trans hl⟩

theorem verifiesUntil_mono (hl : now ≤ later) :
    key.verifiesUntil windowMs now ≤ key.verifiesUntil windowMs later := by
  unfold verifiesUntil
  cases key.retiredAt with
  | none =>
    rw [getD_none, getD_none]
    omega
  | some => exact le_rfl

theorem Dated.verifiesUntil_le (h : key.Dated now) :
    key.verifiesUntil windowMs now ≤ (now + windowMs : Nat) := by
  unfold verifiesUntil
  rcases h with ⟨-, ht⟩ | ⟨retiredAt, -, ht, hl⟩
  · rw [ht, getD_none]
  · rw [ht, getD_some]
    omega

end ManagedKey

namespace TokensBacked

variable {m next : KeyManager} {now drawn : Nat} {issued : List Token}

theorem new (config : KeyManagerConfig) (now : Nat) : TokensBacked (.new config) now 0 [] :=
  ⟨fun _ _ h => (by cases h), fun _ _ h => (by cases h), fun _ h => (by cases h)⟩

section

variable (h : TokensBacked m now drawn issued)
include h

theorem advance (ms : Nat) : TokensBacked m (now + ms) drawn issued := by
  refine ⟨h.known, fun kid key hg => (h.dated kid key hg).mono (by omega), ?_⟩
  intro token ht
  obtain ⟨named, begun, known, key⟩ := h.tokens token ht
  refine ⟨named, begun.mono (by omega), known, ?_⟩
  rcases key with he | ⟨key, hg, hp, hl⟩
  · left
    push_cast
    omega
  · exact .inr ⟨key, hg, hp, hl.trans (ManagedKey.verifiesUntil_mono m.config.windowMs (by omega))⟩

theorem replace {more : Nat} (hc : next.config = m.config) (hm : drawn ≤ more)
    (hk : ∀ kid key, next.keys.get kid = some key → Known m.config more kid key.pair)
    (hd : ∀ kid key, next.keys.get kid = some key → key.Dated now)
    (ha : ∀ kid key (time : Int), m.keys.get kid = some key →
      Known m.config drawn kid key.pair → now < time →
      time ≤ key.verifiesUntil m.config.windowMs now → ∃ key', next.keys.get kid = some key' ∧
      key'.pair = key.pair ∧ time ≤ key'.verifiesUntil m.config.windowMs now) :
    TokensBacked next now more issued := by
  refine ⟨fun kid key hg => hc ▸ hk kid key hg, hd, ?_⟩
  intro token ht
  obtain ⟨named, begun, known, key⟩ := h.tokens token ht
  refine ⟨named, hc ▸ begun, hc ▸ known.mono hm, ?_⟩
  rw [hc]
  rcases key with he | ⟨key, hg, hp, hl⟩
  · exact .inl he
  · rcases le_or_gt (token.exp * 1000) (now : Int) with he | hb
    · exact .inl he
    · obtain ⟨key', hg', hp', hl'⟩ :=
        ha token.kid key _ hg (hp ▸ known) hb hl
      exact .inr ⟨key', hg', hp'.trans hp, hl'⟩

theorem store {kid : Kid} {pair : KeyPair} (hn : Known m.config (drawn + 1) kid pair)
    (hs : ∀ other, Known m.config drawn kid other → other = pair) :
    TokensBacked (m.store now kid pair) now (drawn + 1) issued := by
  refine h.replace ?_ (Nat.le_succ drawn) ?_ ?_ ?_
  · rfl
  · intro other key hg
    rcases KeyTable.get_of_put hg with ⟨rfl, rfl⟩ | ⟨-, ho⟩
    · exact hn
    · exact (h.known other key ho).mono (by omega)
  · intro other key hg
    rcases KeyTable.get_of_put hg with ⟨-, rfl⟩ | ⟨-, ho⟩
    · exact .inl ⟨rfl, rfl⟩
    · exact h.dated other key ho
  · intro other key time hg ht _ hl
    by_cases hk : kid = other
    · subst hk
      refine ⟨⟨kid, .active, pair, now, none⟩, KeyTable.get_put.trans (if_pos rfl), ?_, ?_⟩
      · exact (hs key.pair ht).symm
      · exact hl.trans ((h.dated kid key hg).verifiesUntil_le _)
    · exact ⟨key, KeyTable.get_put.trans ((if_neg hk).trans hg), rfl, hl⟩

theorem retire {retiredKid : Kid} (hr : m.retire now = .ok (retiredKid, next)) :
    TokensBacked next now drawn issued := by
  obtain ⟨previous, kid, -, hg, ha, -, hc, -, hk⟩ := KeyManager.retire_eq_ok hr
  have hi : previous.kid = kid := m.keys.named kid previous hg
  apply h.replace hc le_rfl
  · intro other key ho
    rw [hk] at ho
    rcases KeyTable.get_of_put ho with ⟨rfl, rfl⟩ | ⟨-, hb⟩
    · exact h.known _ previous (hi ▸ hg)
    · exact h.known other key hb
  · intro other key ho
    rw [hk] at ho
    rcases KeyTable.get_of_put ho with ⟨-, rfl⟩ | ⟨-, hb⟩
    · exact .inr ⟨now, rfl, rfl, le_rfl⟩
    · exact h.dated other key hb
  · intro other key time ho _ _ hl
    rw [hk]
    by_cases hp : previous.kid = other
    · have hd : key = previous :=
        Option.some.inj (ho.symm.trans ((hi.symm.trans hp) ▸ hg))
      refine ⟨_, KeyTable.get_put.trans (if_pos hp), by rw [hd], ?_⟩
      exact hl.trans ((h.dated other key ho).verifiesUntil_le _)
    · exact ⟨key, KeyTable.get_put.trans ((if_neg hp).trans ho), rfl, hl⟩

theorem prune : TokensBacked (m.pruneExpiredKeys now).2 now drawn issued := by
  refine h.replace ?_ le_rfl ?_ ?_ ?_
  · rfl
  · intro kid key hg
    exact h.known kid key (KeyManager.get_pruned.mp hg).1
  · intro kid key hg
    exact h.dated kid key (KeyManager.get_pruned.mp hg).1
  · intro kid key time hg _ hb hl
    refine ⟨key, KeyManager.get_pruned.mpr ⟨hg, ?_⟩, rfl, hl⟩
    rcases h.dated kid key hg with ⟨ha, -⟩ | ⟨retiredAt, hr, ht, -⟩
    · simp [KeyManager.expired, ha]
    · rw [ManagedKey.verifiesUntil, ht, getD_some] at hl
      have hw : ¬ (now : Int) - retiredAt ≥ m.config.windowMs := by
        push_cast at hl
        omega
      simp [KeyManager.expired, ht, hw]

theorem emitAudit (event : KeyEvent) (kid : Kid) (previous : Option Kid) :
    TokensBacked (m.emitAudit now event kid previous) now drawn issued :=
  h.replace rfl le_rfl h.known h.dated fun _ key _ hg _ _ hl => ⟨key, hg, rfl, hl⟩

theorem sign {key : ManagedKey} {expiresIn : Int} {nbf : Option NumericClaim} {token : Token}
    (hc : m.getCurrentKey = .ok (some key)) (hn : key.kid ≠ .configured "")
    (hb : Begun m.config now nbf)
    (ha : ((now / 1000 : Nat) + expiresIn) * 1000 ≤ key.verifiesUntil m.config.windowMs now)
    (ht : m.signToken now expiresIn nbf = .ok token) :
    TokensBacked m now drawn (issued ++ [token]) := by
  refine ⟨h.known, h.dated, ?_⟩
  intro other ho
  rcases mem_append.mp ho with hl | hne
  · exact h.tokens other hl
  · cases mem_singleton.mp hne
    simp only [KeyManager.signToken, hc] at ht
    cases ht
    have hg : m.keys.get key.kid = some key := by
      unfold KeyManager.getCurrentKey at hc
      split at hc
      · cases hc
      · next kid hk =>
        have hg := Except.ok.inj hc
        rw [m.keys.named kid key hg]
        exact hg
    exact ⟨hn, hb, h.known key.kid key hg, .inr ⟨key, hg, rfl, ha⟩⟩

end

end TokensBacked

theorem Backed.verifyToken {m : KeyManager} {now drawn checkedAt : Nat} {token : Token}
    (h : Backed m now drawn token) (hd : ∀ kid key, m.keys.get kid = some key → key.Dated now)
    (hc : now ≤ checkedAt) (hex : checkedAt < token.exp * 1000) :
    m.verifyToken now token checkedAt = .ok token := by
  obtain hx | ⟨key, hg, hp, hl⟩ := h.key
  · omega
  have hv : key ∈ m.getAllVerificationKeys now := by
    refine mem_filter.mpr ⟨mem_map.mpr ⟨_, KeyTable.mem_iff.mpr hg, rfl⟩, ?_⟩
    rcases hd _ key hg with ⟨ha, -⟩ | ⟨retiredAt, hr, ht, -⟩
    · simp [ha]
    · rw [ManagedKey.verifiesUntil, ht, getD_some] at hl
      have hw : (now : Int) - retiredAt < m.config.windowMs := by
        push_cast at hl
        omega
      simp [ht, hw]
  have hi : ((m.getAllVerificationKeys now).find? fun key => key.kid = token.kid) = some key := by
    apply find?_of_unique hv
    · rw [decide_eq_true_eq]
      exact m.keys.named _ key hg
    · intro other ho hk
      obtain ⟨⟨kid, _⟩, he, rfl⟩ := mem_map.mp (mem_filter.mp ho).1
      have hf := KeyTable.mem_iff.mp he
      rw [decide_eq_true_eq, m.keys.named kid _ hf] at hk
      subst hk
      exact Option.some.inj (hf.symm.trans hg)
  have hj : ¬ token.exp ≤ (checkedAt / 1000 : Nat) - (m.config.clockSkewSeconds : Int) := by
    omega
  have hb := h.begun.mono hc
  unfold KeyManager.verifyToken KeyManager.jwtVerify
  rw [if_neg h.named, hi]
  simp only [hp, ne_eq, not_true_eq_false, if_false]
  cases hn : token.nbf with
  | none => exact if_neg hj
  | some claim =>
    rw [hn] at hb
    cases claim with
    | other => exact hb.elim
    | number => exact (if_neg (not_lt.mpr hb)).trans (if_neg hj)

namespace KeyWorld

/-- A token is signed with a key that has an identifier, may be used from now on, and expires no
later than the window of the key, which runs from now or from its retirement. -/
def Covered : KeyAction → KeyWorld → Prop
  | .signToken expiresIn nbf, w =>
    ∀ key ∈ w.manager.getCurrentKey.toOption.join,
      key.kid ≠ .configured "" ∧ Begun w.manager.config w.now nbf ∧
        ((w.now / 1000 : Nat) + expiresIn) * 1000 ≤
          key.verifiesUntil w.manager.config.windowMs w.now
  | _, _ => True

instance : ∀ a w, Decidable (Covered a w)
  | .signToken _ _, w =>
    inferInstanceAs (Decidable (∀ key ∈ w.manager.getCurrentKey.toOption.join, _ ∧ _ ∧ _))
  | .initializeManager, _ | .pairFailed _ _, _ | .advance _, _ | .rotate, _
  | .pruneExpiredKeys, _ | .pairReady _, _ | .resume _, _ => isTrue trivial

variable {w next : KeyWorld}

theorem initialPair_known : Known w.manager.config (w.drawn + 1) w.initialPair.1 w.initialPair.2 ∧
      ∀ other, Known w.manager.config w.drawn w.initialPair.1 other → other = w.initialPair.2 := by
  have hr : ∀ pair, Known w.manager.config (w.drawn + 1) (.random w.drawn) pair ∧
      ∀ other, Known w.manager.config w.drawn (.random w.drawn) other → other = pair :=
    fun pair => ⟨Nat.lt_succ_self w.drawn, fun other h => absurd h (Nat.lt_irrefl w.drawn)⟩
  unfold initialPair
  split
  · exact hr _
  · exact hr _
  · next pem _ hp =>
    cases hk : w.manager.config.initialKid with
    | none => exact hr _
    | some =>
      refine ⟨?_, ?_⟩
      · show w.manager.config.privateKeyPem.map KeyPair.imported = some (.imported pem)
        rw [hp]
        rfl
      · intro other ho
        have ho : w.manager.config.privateKeyPem.map KeyPair.imported = some other := ho
        rw [hp] at ho
        exact (Option.some.inj ho).symm

theorem tokensBacked_step {a : KeyAction}
    (h : TokensBacked w.manager w.now w.drawn w.issued) (ha : Covered a w)
    (hs : step a w = some next) : TokensBacked next.manager next.now next.drawn next.issued := by
  cases a with
  | advance ms =>
    cases hs
    exact h.advance ms
  | initializeManager =>
    cases hs
    exact h
  | rotate =>
    rcases rotate_cases hs with ⟨message, -, rfl⟩ | ⟨retiredKid, manager, hr, rfl⟩
    · exact h
    · exact h.retire hr
  | pruneExpiredKeys =>
    cases hs
    exact h.prune
  | signToken =>
    rcases signToken_cases hs with rfl | ⟨token, ht, rfl⟩
    · exact h
    · have hi := ht
      unfold KeyManager.signToken at hi
      split at hi
      · cases hi
      · cases hi
      · next key hc =>
        have hk : key ∈ w.manager.getCurrentKey.toOption.join := by
          rw [hc]
          rfl
        obtain ⟨hn, hb, hw⟩ := ha key hk
        exact h.sign hc hn hb hw ht
  | pairReady =>
    rcases pairReady_cases hs with ⟨-, rfl⟩ | ⟨retiredKid, -, rfl⟩
    · exact h.store initialPair_known.1 initialPair_known.2
    · apply h.store
      · exact Nat.lt_succ_self w.drawn
      · intro other ho
        exact absurd ho (Nat.lt_irrefl w.drawn)
  | pairFailed =>
    obtain ⟨call, -, -, rfl⟩ := pairFailed_cases hs
    exact h
  | resume =>
    rcases resume_cases hs with ⟨kid, -, rfl⟩ | ⟨newKid, retiredKid, -, rfl⟩
    · exact h.emitAudit _ _ _
    · exact (h.emitAudit _ _ _).prune

/-- In a run that signs only tokens within the windows of their keys, every token is accepted at
every later time before it expires. -/
theorem tokens_verify_until_expiry {config : KeyManagerConfig} {now : Nat} {acts : List KeyAction}
    (h : Along step Covered acts (start config now))
    (hRun : run step acts (start config now) = some w) {token : Token} (hToken : token ∈ w.issued)
    {checkedAt : Nat} (hChecked : w.now ≤ checkedAt) (hExp : checkedAt < token.exp * 1000) :
    w.manager.verifyToken w.now token checkedAt = .ok token := by
  have hb : TokensBacked w.manager w.now w.drawn w.issued :=
    run_invariant (fun w => TokensBacked w.manager w.now w.drawn w.issued)
      (fun _ _ _ h hc hs => tokensBacked_step h hc hs)
      (TokensBacked.new config now) h hRun
  exact (hb.tokens token hToken).verifyToken hb.dated hChecked hExp

def hourRun : List KeyAction :=
  [.initializeManager, .pairReady 0, .resume 0, .signToken 3600 none, .rotate, .pairReady 1,
    .resume 1, .advance 3599999]

theorem tokens_verify_until_expiry_hourRun :
    ∃ w token, run step hourRun (start ⟨3600, 300, none, none⟩ 0) = some w ∧ token ∈ w.issued ∧
      w.manager.verifyToken w.now token w.now = .ok token := by
  have hc : Along step Covered hourRun (start ⟨3600, 300, none, none⟩ 0) := by
    decide +kernel
  have hr : run step hourRun (start ⟨3600, 300, none, none⟩ 0) = some _ := rfl
  have ht := mem_singleton_self (⟨.random 0, .generated 0, 0, 3600, none⟩ : Token)
  exact ⟨_, _, hr, ht, tokens_verify_until_expiry hc hr ht le_rfl (by decide)⟩

/-- `PROOF_EXPIRY`, 100 years, in seconds. -/
def proofExpiry : Int := 3155760000

def verified (w : KeyWorld) : List (Int × Except TokenError Token) :=
  w.issued.map fun token => (token.exp, w.manager.verifyToken w.now token w.now)

/-- An erasure proof, of 100 years, is rejected 65 minutes after a rotation; so is a token of one
hour, before it expires, when the rotation of its key took more than five minutes. -/
theorem tokens_rejected_before_expiry :
    (run step [.initializeManager, .pairReady 0, .resume 0, .signToken proofExpiry none, .rotate,
      .pairReady 1, .resume 1, .advance 3900000] (start ⟨3600, 300, none, none⟩ 0)).map
        (fun w => (w.now, w.verified)) =
      some (3900000, [(proofExpiry, .error (.unknownKey (.random 0)))]) ∧
    (run step [.initializeManager, .pairReady 0, .resume 0, .rotate, .advance 301000,
      .signToken 3600 none, .pairReady 1, .resume 1, .advance 3599000]
        (start ⟨3600, 300, none, none⟩ 0)).map (fun w => (w.now, w.verified)) =
      some (3900000, [(3901, .error (.unknownKey (.random 0)))]) := by
  constructor
  · decide +kernel
  · decide +kernel

end KeyWorld

end Credence.Keys
