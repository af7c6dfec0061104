import Mathlib.Algebra.Order.BigOperators.Group.List
import Mathlib.Algebra.Order.Field.Rat
import Mathlib.Data.Rat.Floor
import Mathlib.Tactic.Linarith
import Mathlib.Tactic.NormNum

/-! `calculatePersistedReputationScore` over the rationals. The column of `score_history` takes
integers from 0 to 100, and the two caps of the score add up to 1100. -/

namespace Credence.Reputation

open List

structure BondData where
  bondedAmount : ℚ
  bondStart : ℚ
  isSlashed : Bool

structure Attestation where
  weight : ℚ
  isValid : Bool

structure ReputationInput where
  bond : BondData
  attestations : List Attestation
  currentTime : ℚ

structure ReputationModuleConfig where
  bondMultiplier : ℚ
  maxBondScore : ℚ
  attestationMultiplier : ℚ
  maxAttestationWeight : ℚ

def DEFAULT_CONFIG : ReputationModuleConfig := ⟨1 / 100, 1000, 1 / 10, 100⟩

/-- What `calculateTimeWeight` returns, by the age of the bond. -/
structure TimeWeight where
  ofAge : ℚ → ℚ
  nonneg : ∀ age, 0 ≤ ofAge age
  le_one : ∀ age, ofAge age ≤ 1
  mono : ∀ age later, age ≤ later → ofAge age ≤ ofAge later

def calculateBondScore (config : ReputationModuleConfig) (bond : BondData) : ℚ :=
  if bond.isSlashed then 0
  else if bond.bondedAmount ≤ 0 then 0
  else min (bond.bondedAmount * config.bondMultiplier) config.maxBondScore

def totalWeight (attestations : List Attestation) (sum : ℚ) : ℚ :=
  attestations.foldl (fun sum attestation => sum + max 0 attestation.weight) sum

def calculateAttestationScore (config : ReputationModuleConfig) (attestations : List Attestation) :
    ℚ :=
  let validAttestations := attestations.filter Attestation.isValid
  if validAttestations = [] then 0
  else min (totalWeight validAttestations 0 * config.attestationMultiplier)
    config.maxAttestationWeight

def ReputationInput.age (input : ReputationInput) : ℚ := input.currentTime - input.bond.bondStart

def totalScore (timeWeight : TimeWeight) (config : ReputationModuleConfig)
    (input : ReputationInput) : ℚ :=
  (calculateBondScore config input.bond + calculateAttestationScore config input.attestations) *
    timeWeight.ofAge input.age

/-- `Math.round` takes a half upwards. -/
def normalizeScore (score : ℚ) : ℤ := max 0 ⌊score + 1 / 2⌋

def calculatePersistedReputationScore (timeWeight : TimeWeight) (input : ReputationInput) : ℤ :=
  normalizeScore (totalScore timeWeight DEFAULT_CONFIG input)

def Attestation.Raises (a b : Attestation) : Prop :=
  b.isValid = a.isValid ∧ (a.isValid = true → a.weight ≤ b.weight)

/-- A larger bond, heavier valid attestations, and an older bond. -/
structure Raises (input later : ReputationInput) : Prop where
  slashed : later.bond.isSlashed = input.bond.isSlashed
  amount : input.bond.bondedAmount ≤ later.bond.bondedAmount
  attestations : input.attestations.Forall₂ Attestation.Raises later.attestations
  age : input.age ≤ later.age

/-- The amount of the bond that counts. -/
def BondData.stake (bond : BondData) : ℚ := if bond.isSlashed then 0 else max 0 bond.bondedAmount

def Attestation.counts (attestation : Attestation) : ℚ :=
  if attestation.isValid then max 0 attestation.weight else 0

theorem bondScore_eq (bond : BondData) :
    calculateBondScore DEFAULT_CONFIG bond = min (bond.stake / 100) 1000 := by
  unfold calculateBondScore BondData.stake DEFAULT_CONFIG
  dsimp only
  split_ifs with hs ha
  · norm_num
  · rw [max_eq_left ha]
    norm_num
  · rw [max_eq_right (not_le.mp ha).le, mul_one_div]

theorem totalWeight_eq (attestations : List Attestation) (sum : ℚ) :
    totalWeight (attestations.filter Attestation.isValid) sum =
      sum + (attestations.map Attestation.counts).sum := by
  induction attestations generalizing sum with
  | nil => exact (add_zero sum).symm
  | cons attestation attestations ih =>
    rw [map_cons, sum_cons, ← add_assoc]
    cases hv : attestation.isValid with
    | true =>
      rw [filter_cons_of_pos hv, ← ih, Attestation.counts, if_pos hv]
      rfl
    | false =>
      rw [filter_cons_of_neg (by simp [hv]), ih, Attestation.counts, if_neg (by simp [hv]),
        add_zero]

theorem bondScore_mem (bond : BondData) : 0 ≤ calculateBondScore DEFAULT_CONFIG bond ∧
    calculateBondScore DEFAULT_CONFIG bond ≤ 1000 := by
  have hs : 0 ≤ bond.stake := by
    unfold BondData.stake
    split_ifs
    · exact le_refl 0
    · exact le_max_left _ _
  rw [bondScore_eq]
  exact ⟨le_min (by linarith) (by norm_num), min_le_right _ _⟩

theorem bondScore_mono {bond later : BondData} (hs : later.isSlashed = bond.isSlashed)
    (ha : bond.bondedAmount ≤ later.bondedAmount) :
    calculateBondScore DEFAULT_CONFIG bond ≤ calculateBondScore DEFAULT_CONFIG later := by
  have hl : bond.stake ≤ later.stake := by
    unfold BondData.stake
    rw [hs]
    split_ifs
    · exact le_refl 0
    · exact max_le_max (le_refl 0) ha
  rw [bondScore_eq, bondScore_eq]
  exact min_le_min (by linarith) (le_refl _)

theorem counts_mono {attestation other : Attestation} (h : attestation.Raises other) :
    0 ≤ attestation.counts ∧ attestation.counts ≤ other.counts := by
  obtain ⟨hv, hw⟩ := h
  unfold Attestation.counts
  rw [hv]
  split_ifs with hk
  · exact ⟨le_max_left _ _, max_le_max (le_refl 0) (hw hk)⟩
  · exact ⟨le_refl 0, le_refl 0⟩

theorem attestationScore_eq (attestations : List Attestation) :
    calculateAttestationScore DEFAULT_CONFIG attestations =
      min ((attestations.map Attestation.counts).sum / 10) 100 := by
  have ht := totalWeight_eq attestations 0
  rw [zero_add] at ht
  unfold calculateAttestationScore DEFAULT_CONFIG
  dsimp only
  split_ifs with hn
  · rw [hn, totalWeight, foldl_nil] at ht
    rw [← ht]
    norm_num
  · rw [ht, mul_one_div]

theorem attestationScore_mem (attestations : List Attestation) :
    0 ≤ calculateAttestationScore DEFAULT_CONFIG attestations ∧
      calculateAttestationScore DEFAULT_CONFIG attestations ≤ 100 := by
  have hw : 0 ≤ (attestations.map Attestation.counts).sum := by
    refine sum_nonneg fun weight hm => ?_
    obtain ⟨attestation, -, rfl⟩ := mem_map.mp hm
    exact (counts_mono ⟨rfl, fun _ => le_refl _⟩).1
  rw [attestationScore_eq]
  exact ⟨le_min (by linarith) (by norm_num), min_le_right _ _⟩

theorem attestationScore_mono {attestations others : List Attestation}
    (h : attestations.Forall₂ Attestation.Raises others) :
    calculateAttestationScore DEFAULT_CONFIG attestations ≤
      calculateAttestationScore DEFAULT_CONFIG others := by
  have hs : (attestations.map Attestation.counts).sum ≤ (others.map Attestation.counts).sum := by
    refine List.Forall₂.sum_le_sum (forall₂_map_left_iff.mpr ?_)
    exact forall₂_map_right_iff.mpr (h.imp fun _ _ hr => (counts_mono hr).2)
  rw [attestationScore_eq, attestationScore_eq]
  exact min_le_min (by linarith) (le_refl _)

theorem normalizeScore_le (score : ℚ) {n : ℤ} (hn : 0 ≤ n) :
    normalizeScore score ≤ n ↔ score < n + 1 / 2 := by
  have hf : ⌊score + 1 / 2⌋ < n + 1 ↔ score < n + 1 / 2 := by
    rw [Int.floor_lt]
    push_cast
    constructor <;> intro h <;> linarith
  rw [normalizeScore, max_le_iff, ← hf, Int.lt_add_one_iff]
  exact and_iff_right hn

/-- The score is an integer from 0 to 1100 that the three quantities only raise. It can be stored
precisely when a hundredth of the stake, at most 1000, and a tenth of the valid weights, at most
100, are together below 100.5 once they are weighted. -/
theorem persisted_score (timeWeight : TimeWeight) (input : ReputationInput) :
    let score := calculatePersistedReputationScore timeWeight
    0 ≤ score input ∧ score input ≤ 1100 ∧
    (score input ≤ 100 ↔ (min (input.bond.stake / 100) 1000 +
      min ((input.attestations.map Attestation.counts).sum / 10) 100) *
        timeWeight.ofAge input.age < 201 / 2) ∧
    ∀ later, Raises input later → score input ≤ score later := by
  have hb := bondScore_mem input.bond
  have ha := attestationScore_mem input.attestations
  have ht : totalScore timeWeight DEFAULT_CONFIG input ≤ 1100 :=
    (mul_le_of_le_one_right (by linarith) (timeWeight.le_one input.age)).trans (by linarith)
  refine ⟨le_max_left _ _, (normalizeScore_le _ (by norm_num)).mpr (by push_cast; linarith), ?_,
    fun later hr => ?_⟩
  · rw [calculatePersistedReputationScore, normalizeScore_le _ (by norm_num), totalScore,
      bondScore_eq, attestationScore_eq]
    norm_num
  refine max_le_max (le_refl 0) (Int.floor_le_floor (add_le_add_left ?_ _))
  have hp := add_le_add (bondScore_mono hr.slashed hr.amount)
    (attestationScore_mono hr.attestations)
  exact mul_le_mul hp (timeWeight.mono _ _ hr.age) (timeWeight.nonneg _) (by linarith)

def fullWeight : TimeWeight := ⟨fun _ => 1, by norm_num, by norm_num, by norm_num⟩

/-- A bond that is one year old. -/
def bonded (amount : ℚ) : ReputationInput := ⟨⟨amount, 1, false⟩, [⟨10, true⟩], 31536000001⟩

theorem persisted_score_raised : calculatePersistedReputationScore fullWeight (bonded 100) ≤
    calculatePersistedReputationScore fullWeight (bonded 200) :=
  (persisted_score fullWeight (bonded 100)).2.2.2 (bonded 200)
    ⟨rfl, by norm_num [bonded], by simp [bonded, Attestation.Raises],
      by norm_num [bonded, ReputationInput.age]⟩

/-- A bond of 20000 has the score 201. -/
theorem score_not_storable :
    calculatePersistedReputationScore fullWeight (bonded 20000) = 201 := by
  decide +kernel

end Credence.Reputation
