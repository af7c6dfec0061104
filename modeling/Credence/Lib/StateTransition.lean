import Mathlib.Data.List.Basic

/-! The transition matrix of a lifecycle: the pairs of states between which it may change. -/

namespace Credence.Lib

structure Transition (S : Type) where
  source : S
  target : S
  action : Option String

/-- A matrix that the constructor accepts: no pair of states appears twice. -/
structure TransitionMatrix (S : Type) where
  transitions : List (Transition S)
  nodup : (transitions.map fun t => (t.source, t.target)).Nodup

structure TransitionResult (S : Type) where
  success : Bool
  source : S
  target : S
  error : Option String

namespace TransitionMatrix

variable {S : Type} [DecidableEq S] (matrix : TransitionMatrix S)

def isValid (source target : S) : Bool :=
  matrix.transitions.any fun t => t.source = source ∧ t.target = target

def tryTransition (text : S → String) (source target : S) : TransitionResult S :=
  if matrix.isValid source target then ⟨true, source, target, none⟩
  else ⟨false, source, target,
    some ("Invalid transition from \"" ++ text source ++ "\" to \"" ++ text target ++ "\"")⟩

@[simp] theorem tryTransition_success (text : S → String) (source target : S) :
    (matrix.tryTransition text source target).success = matrix.isValid source target := by
  rw [tryTransition]
  split
  · next hv => exact hv.symm
  · next hv => simpa using hv

end TransitionMatrix

end Credence.Lib
