import Credence.Outbox.Repository

/-! The shards of `claimEvents`. A hash that reads as a negative integer leaves a negative
remainder, and no shard is negative. -/

namespace Credence.Outbox

theorem shardPredicate_iff {hash : BitVec 32} {count s : Nat} :
    shardPredicate hash count s = true ↔ hash.toInt.tmod count = s := by
  simp [shardPredicate]

theorem tmod_nonneg_iff {x : Int} {n : Nat} : 0 ≤ x.tmod n ↔ 0 ≤ x ∨ (n : Int) ∣ x := by
  rcases Int.le_total 0 x with hx | hx
  · simp [hx, Int.tmod_nonneg]
  · obtain ⟨y, rfl⟩ : ∃ y, x = -y := ⟨-x, by omega⟩
    have hy : 0 ≤ y.tmod n := Int.tmod_nonneg _ (by omega)
    rw [Int.neg_tmod, Int.dvd_neg, Int.dvd_iff_tmod_eq_zero]
    constructor
    · intro h
      exact .inr (by omega)
    · rintro (h | h)
      · obtain rfl : y = 0 := by omega
        simp
      · omega

theorem existsUnique_shard_iff {n : Nat} (hn : 1 ≤ n) (hash : BitVec 32) :
    (∃! s, s < n ∧ shardPredicate hash n s = true) ↔ 0 ≤ hash.toInt ∨ (n : Int) ∣ hash.toInt := by
  rw [← tmod_nonneg_iff]
  constructor
  · rintro ⟨s, ⟨-, hs⟩, -⟩
    rw [shardPredicate_iff.mp hs]
    exact Int.natCast_nonneg s
  · intro h
    have hlt : hash.toInt.tmod n < n := Int.tmod_lt_of_pos _ (by omega)
    refine ⟨(hash.toInt.tmod n).toNat, ⟨by omega, shardPredicate_iff.mpr (by omega)⟩, ?_⟩
    rintro s ⟨-, hs⟩
    have := shardPredicate_iff.mp hs
    omega

theorem claimable_shard {now id : Nat} {row : OutboxEventRow} (shard : Shard)
    (h : claimable now none id row = true) :
    claimable now (some shard) id row = shardPredicate (shardHash id) shard.count shard.id := by
  simp only [claimable, inShard, Option.all_none, Bool.and_true, Option.all_some] at h ⊢
  rw [h, Bool.true_and]

/-- Exactly one of `n` shards has an event, and can claim it, when its hash is not negative or `n`
divides it; otherwise none can. -/
theorem shards_partition_iff {n : Nat} (hn : 1 ≤ n) :
    (∀ hash : BitVec 32, (∃! s, s < n ∧ shardPredicate hash n s = true) ↔
      0 ≤ hash.toInt ∨ (n : Int) ∣ hash.toInt) ∧
    ∀ now id row, claimable now none id row = true →
      ((∃! shard : Shard, shard.count = n ∧ claimable now (some shard) id row = true) ↔
        0 ≤ (shardHash id).toInt ∨ (n : Int) ∣ (shardHash id).toInt) := by
  refine ⟨existsUnique_shard_iff hn, fun now id row hr => ?_⟩
  rw [← existsUnique_shard_iff hn (shardHash id)]
  constructor
  · rintro ⟨shard, ⟨rfl, hh⟩, hu⟩
    rw [claimable_shard shard hr] at hh
    refine ⟨shard.id, ⟨shard.id_lt, hh⟩, ?_⟩
    rintro s ⟨hlt, hs⟩
    have ha := hu ⟨shard.count, s, hlt⟩ ⟨rfl, by rw [claimable_shard _ hr, hs]⟩
    exact congrArg Shard.id ha
  · rintro ⟨s, ⟨hlt, hs⟩, hu⟩
    refine ⟨⟨n, s, hlt⟩, ⟨rfl, by rw [claimable_shard _ hr, hs]⟩, ?_⟩
    rintro ⟨count, other, ho⟩ ⟨rfl, hc⟩
    rw [claimable_shard _ hr] at hc
    obtain rfl := hu other ⟨ho, hc⟩
    rfl

theorem shards_partition_six : ∃! shard : Shard, shard.count = 5 ∧
    claimable 0 (some shard) 6 (newRow 0 "bond" "b-1" "bond.created" (.obj []) 5) = true :=
  ((shards_partition_iff (by decide : 1 ≤ 5)).2 0 6 _ (by decide)).mpr (.inl (by decide +kernel))

/-- The hash of event 1 leaves the remainder -1 modulo 5. -/
theorem event_one_in_no_shard :
    claimable 0 none 1 (newRow 0 "bond" "b-1" "bond.created" (.obj []) 5) = true ∧
    ∀ s ∈ List.range 5, shardPredicate (shardHash 1) 5 s = false := by
  decide +kernel

end Credence.Outbox
