import Credence.Js.Map
import Credence.Js.Number
import Mathlib.Algebra.Order.Ring.Rat
import Mathlib.Data.Nat.Cast.Order.Ring

/-! The two counters that a request of one tenant takes in one window of `rateLimit.ts`: every
request counts for the tenant, also one that the limit of its key then rejects. -/

namespace Credence.RateLimit

open Js

structure Request where
  keyId : Option String
  tier : String
  deriving DecidableEq

def Request.keyBucket (r : Request) : Option (String × String) :=
  (r.keyId.filter (· ≠ "")).map (·, r.tier)

structure Counters where
  tenant : Nat
  keys : List ((String × String) × Nat)

def Counters.keyCount (c : Counters) (bucket : String × String) : Nat :=
  (Map.get bucket c.keys).getD 0

inductive Decision where
  | admitted
  | tenantLimit
  | keyLimit
  deriving DecidableEq

def exceeds (count : Nat) : Number → Bool
  | .nan => false
  | .infinity negative => negative
  | .finite max => max < count

section

variable (effectiveTierMax keyMax : Number)

/-- Where Redis succeeds. -/
def handle (r : Request) (c : Counters) : Counters × Decision :=
  let c := { c with tenant := c.tenant + 1 }
  if exceeds c.tenant effectiveTierMax then (c, .tenantLimit)
  else
    match r.keyBucket with
    | none => (c, .admitted)
    | some bucket =>
      let keyCount := c.keyCount bucket + 1
      ({ c with keys := Map.set bucket keyCount c.keys },
        if exceeds keyCount keyMax then .keyLimit else .admitted)

def handleAll : List Request → Counters → List (Request × Decision)
  | [], _ => []
  | r :: requests, c =>
    (r, (handle effectiveTierMax keyMax r c).2) ::
      handleAll requests (handle effectiveTierMax keyMax r c).1

end

variable {effectiveTierMax keyMax : Number} {noisy : String} {r : Request} {c : Counters}

theorem exceeds_mono {n m : Nat} {max : Number} (hl : n ≤ m) (h : exceeds m max = false) :
    exceeds n max = false := by
  cases max with
  | finite max =>
    simp only [exceeds, decide_eq_false_iff_not, not_lt] at h ⊢
    exact le_trans (Nat.cast_le.mpr hl) h
  | _ => exact h

theorem keyId_of_keyBucket {bucket : String × String} (h : r.keyBucket = some bucket) :
    r.keyId = some bucket.1 := by
  obtain ⟨keyId, hk, rfl⟩ := Option.map_eq_some_iff.mp h
  exact (Option.filter_eq_some_iff.mp hk).1

theorem handle_within (h : exceeds (c.tenant + 1) effectiveTierMax = false) :
    let after := handle effectiveTierMax keyMax r c
    after.1.tenant = c.tenant + 1 ∧ (∀ bucket, after.1.keyCount bucket =
        c.keyCount bucket + if r.keyBucket = some bucket then 1 else 0) ∧
      after.2 = if r.keyBucket.any fun bucket => exceeds (c.keyCount bucket + 1) keyMax
        then .keyLimit else .admitted := by
  dsimp only [handle]
  rw [if_neg (Bool.eq_false_iff.mp h)]
  cases hb : r.keyBucket with
  | none => exact ⟨rfl, fun _ => rfl, rfl⟩
  | some bucket =>
    refine ⟨rfl, fun other => ?_, rfl⟩
    simp only [Counters.keyCount, Map.get_set, Option.some.injEq]
    split
    · next he => rw [he, Option.getD_some]
    · rfl

theorem handleAll_others {requests : List Request} {alone : Counters}
    (he : ∀ bucket, bucket.1 ≠ noisy → c.keyCount bucket = alone.keyCount bucket)
    (h : exceeds (c.tenant + requests.length) effectiveTierMax = false)
    (hl : alone.tenant ≤ c.tenant) :
    (handleAll effectiveTierMax keyMax requests c).filter (·.1.keyId ≠ some noisy) =
      handleAll effectiveTierMax keyMax (requests.filter (·.keyId ≠ some noisy)) alone := by
  induction requests generalizing c alone with
  | nil => rfl
  | cons r requests ih =>
    rw [List.length_cons] at h
    obtain ⟨hc, hb, hd⟩ := @handle_within _ keyMax r c (exceeds_mono (by omega) h)
    have hr : exceeds ((handle effectiveTierMax keyMax r c).1.tenant + requests.length)
        effectiveTierMax = false := exceeds_mono (by omega) h
    by_cases hk : r.keyId = some noisy
    · simp only [handleAll, hk, ne_eq, not_true_eq_false, decide_false, Bool.false_eq_true,
        not_false_eq_true, List.filter_cons_of_neg]
      refine ih (fun bucket ho => ?_) hr (by omega)
      rw [hb, if_neg, Nat.add_zero, he bucket ho]
      exact fun h => ho (Option.some.inj ((keyId_of_keyBucket h).symm.trans hk))
    · obtain ⟨hc', hb', hd'⟩ :=
        @handle_within _ keyMax r alone (exceeds_mono (by omega) h)
      simp only [handleAll, hk, ne_eq, not_false_eq_true, decide_true, List.filter_cons_of_pos]
      refine congrArg₂ List.cons ?_ (ih (fun bucket ho => ?_) hr (by omega))
      · rw [hd, hd']
        cases hu : r.keyBucket with
        | none => rfl
        | some bucket =>
          have ho : bucket.1 ≠ noisy := fun h => hk (h ▸ keyId_of_keyBucket hu)
          simp only [Option.any_some, he bucket ho]
      · rw [hb, hb', he bucket ho]

def start : Counters := ⟨0, []⟩

/-- While the requests of both sequences, rejected ones included, are within the tenant's limit,
those of the other keys are decided alike. -/
theorem noisy_key_harmless {requests requests' : List Request}
    (hOthers : requests.filter (·.keyId ≠ some noisy) = requests'.filter (·.keyId ≠ some noisy))
    (h : exceeds requests.length effectiveTierMax = false)
    (h' : exceeds requests'.length effectiveTierMax = false) :
    (handleAll effectiveTierMax keyMax requests start).filter (·.1.keyId ≠ some noisy) =
      (handleAll effectiveTierMax keyMax requests' start).filter (·.1.keyId ≠ some noisy) := by
  rw [handleAll_others (fun _ _ => rfl) (by simpa [start] using h) le_rfl,
    handleAll_others (fun _ _ => rfl) (by simpa [start] using h') le_rfl, hOthers]

def ofKey (keyId : String) : Request := ⟨some keyId, "free"⟩

theorem noisy_key_harmless_two :
    (handleAll 3 1 [ofKey "a", ofKey "a", ofKey "b"] start).filter (·.1.keyId ≠ some "a") =
      (handleAll 3 1 [ofKey "a", ofKey "b"] start).filter (·.1.keyId ≠ some "a") :=
  noisy_key_harmless rfl (by decide +kernel) (by decide +kernel)

/-- Two requests that the limit of their key has rejected take the budget of the tenant. -/
theorem noisy_key_exhausts : handleAll 3 1 [ofKey "a", ofKey "a", ofKey "a", ofKey "b"] start =
        [(ofKey "a", .admitted), (ofKey "a", .keyLimit), (ofKey "a", .keyLimit),
          (ofKey "b", .tenantLimit)] ∧
      handleAll 3 1 [ofKey "a", ofKey "b"] start =
        [(ofKey "a", .admitted), (ofKey "b", .admitted)] := by
  decide +kernel

end Credence.RateLimit
