import Mathlib.Data.List.Basic

/-! Walks over a list: a check of each element against the state that the elements before it have
left. -/

namespace Credence.ProofKit

variable {σ α ν : Type}

def carry (next : σ → α → σ) (s : σ) (as : List α) : σ := as.foldl next s

/-- Each element passes the check in the state that the elements before it have left. -/
def Follows (ok : σ → α → Prop) (next : σ → α → σ) : σ → List α → Prop
  | _, [] => True
  | s, a :: as => ok s a ∧ Follows ok next (next s a) as

def collect (check : σ → α → List ν) (next : σ → α → σ) : σ → List α → List ν
  | _, [] => []
  | s, a :: as => check s a ++ collect check next (next s a) as

variable {ok : σ → α → Prop} {next : σ → α → σ}

variable {s : σ} {a : α} {as bs : List α}

theorem follows_cons :
    Follows ok next s (a :: as) ↔ ok s a ∧ Follows ok next (next s a) as := Iff.rfl

theorem carry_snoc (s : σ) (as : List α) (a : α) :
    carry next s (as ++ [a]) = next (carry next s as) a := by
  simp [carry]

theorem follows_append : Follows ok next s (as ++ bs) ↔
      Follows ok next s as ∧ Follows ok next (carry next s as) bs := by
  induction as generalizing s with
  | nil => simp [Follows, carry]
  | cons a as ih =>
    rw [List.cons_append, follows_cons, follows_cons, ih, and_assoc]
    rfl

theorem follows_snoc :
    Follows ok next s (as ++ [a]) ↔ Follows ok next s as ∧ ok (carry next s as) a := by
  rw [follows_append, follows_cons]
  simp [Follows]

theorem Follows.of_prefix (h : Follows ok next s bs) (hp : as <+: bs) : Follows ok next s as := by
  obtain ⟨rest, rfl⟩ := hp
  exact (follows_append.mp h).1

theorem collect_eq_nil {check : σ → α → List ν} :
    collect check next s as = [] ↔ Follows (fun s a => check s a = []) next s as := by
  induction as generalizing s with
  | nil => simp [collect, Follows]
  | cons a as ih => rw [collect, List.append_eq_nil_iff, ih, follows_cons]

end Credence.ProofKit
