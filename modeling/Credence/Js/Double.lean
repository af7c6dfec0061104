import Credence.ProofKit.Rounding
import Mathlib.Data.Int.Log
import Mathlib.Data.Rat.Floor

/-! Doubles: a result is rounded to the nearest one, and written with the fewest digits that read
back as it. Integers up to `2 ^ 53` go through both unchanged. -/

namespace Credence.Js

open ProofKit

def nearestEven (q : ℚ) : ℤ := roundBy (fun n f => 1 / 2 < f ∨ f = 1 / 2 ∧ n % 2 = 1) q

/-- The distance between the doubles around `q`. -/
def ulp (q : ℚ) : ℚ := (2 : ℚ) ^ max (Int.log 2 |q| - 52) (-1074)

/-- The double next to `q`; numbers above all doubles do not occur. -/
def double (q : ℚ) : ℚ := nearestEven (q / ulp q) * ulp q

/-- The shortest digits for an integer above `2 ^ 53`, with zeros behind them. -/
def shortest (n : Nat) : Nat := ((List.range 22).reverse.findSome? fun k =>
    let low := n / 10 ^ k * 10 ^ k
    let high := low + 10 ^ k
    (if n - low ≤ high - n then [low, high] else [high, low]).find? fun (m : Nat) =>
      decide (double m = n)).getD n

/-- The integer that the text of a double denotes; none if it has a point or an exponent. -/
def writtenInteger (q : ℚ) : Option ℤ :=
  if q.den ≠ 1 ∨ 10 ^ 21 ≤ q.num.natAbs then none
  else if q.num.natAbs ≤ 2 ^ 53 then some q.num
  else some (q.num.sign * shortest q.num.natAbs)

theorem nearestEven_intCast (n : ℤ) : nearestEven n = n := roundBy_intCast (fun _ => by norm_num) n

theorem log_abs_intCast (n : ℤ) : Int.log 2 |(n : ℚ)| = Nat.log 2 n.natAbs := by
  rw [← Int.cast_abs, Int.abs_eq_natAbs, Int.cast_natCast, Int.log_natCast]

theorem exists_eq_div_ulp {n : ℤ} (h : |n| ≤ 2 ^ 53) : ∃ m : ℤ, (n : ℚ) / ulp n = m := by
  rw [ulp, log_abs_intCast]
  have ha : n.natAbs ≤ 2 ^ 53 := by
    zify
    exact h
  rcases ha.lt_or_eq with hl | hEq
  · have hb : Nat.log 2 n.natAbs < 53 := by
      by_cases hz : n.natAbs = 0
      · simp [hz]
      · exact Nat.log_lt_of_lt_pow hz hl
    have he : max ((Nat.log 2 n.natAbs : ℤ) - 52) (-1074) ≤ 0 := by
      omega
    obtain ⟨k, hk⟩ := Int.eq_ofNat_of_zero_le (neg_nonneg.mpr he)
    refine ⟨n * 2 ^ k, ?_⟩
    rw [div_eq_mul_inv, ← zpow_neg, hk]
    push_cast
    rw [zpow_natCast]
  · have he : max ((Nat.log 2 n.natAbs : ℤ) - 52) (-1074) = 1 := by
      rw [hEq, Nat.log_pow (by norm_num)]
      norm_num
    obtain ⟨m, hm⟩ : (2 : ℤ) ∣ n := Int.natAbs_dvd_natAbs.mp (by rw [hEq]; norm_num)
    refine ⟨m, ?_⟩
    rw [he, zpow_one, hm]
    push_cast
    ring

theorem double_intCast {n : ℤ} (h : |n| ≤ 2 ^ 53) : double n = n := by
  obtain ⟨m, hm⟩ := exists_eq_div_ulp h
  have hu : ulp n ≠ 0 := (zpow_pos (by norm_num) _).ne'
  rw [double, hm, nearestEven_intCast, ← hm, div_mul_cancel₀ _ hu]

example : double 9007199254740993 = 9007199254740992 := by decide +kernel

theorem writtenInteger_intCast {n : ℤ} (h : |n| ≤ 2 ^ 53) : writtenInteger n = some n := by
  have ha : n.natAbs ≤ 2 ^ 53 := by
    zify
    exact h
  have hs : ¬ ((n : ℚ).den ≠ 1 ∨ 10 ^ 21 ≤ (n : ℚ).num.natAbs) := by
    simp only [Rat.den_intCast, Rat.num_intCast]
    omega
  rw [writtenInteger, if_neg hs, Rat.num_intCast, if_pos ha]

theorem shortest_reads (n : Nat) : double (shortest n) = n ∨ shortest n = n := by
  rw [shortest]
  generalize hf : List.findSome? _ _ = found
  cases found with
  | none => exact .inr rfl
  | some =>
    obtain ⟨k, -, hi⟩ := List.exists_of_findSome?_eq_some hf
    exact .inl (by simpa using List.find?_some hi)

theorem eq_of_writtenInteger {q : ℚ} {n : ℤ} (h : writtenInteger q = some n)
    (hm : |n| ≤ 2 ^ 53) : q = n := by
  rw [writtenInteger] at h
  split at h
  · cases h
  · next hi =>
    have hd : q.den = 1 := by
      omega
    split at h
    · obtain rfl := Option.some.inj h
      exact (Rat.den_eq_one_iff q).mp hd |>.symm
    · next hb =>
      obtain rfl := Option.some.inj h
      have ha : |q.num.sign| = 1 := Int.abs_sign_of_ne_zero (by omega)
      have hs : |((shortest q.num.natAbs : ℕ) : ℤ)| ≤ 2 ^ 53 := by
        rwa [abs_mul, ha, one_mul] at hm
      have he : shortest q.num.natAbs = q.num.natAbs := by
        rcases shortest_reads q.num.natAbs with hr | hc
        · rw [← Int.cast_natCast, double_intCast hs, Int.cast_natCast] at hr
          exact Nat.cast_injective hr
        · exact hc
      rw [he, Nat.abs_cast] at hs
      omega

example : writtenInteger 1152921504606846976 = some 1152921504606847000 := by decide +kernel

end Credence.Js
