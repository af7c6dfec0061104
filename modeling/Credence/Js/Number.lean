import Mathlib.Data.Rat.Defs

/-! JavaScript numbers. A finite one is read as the rational number that it denotes. -/

namespace Credence.Js

inductive Number where
  | nan
  | infinity (negative : Bool)
  | finite (value : ℚ)
  deriving DecidableEq

namespace Number

instance (n : Nat) : OfNat Number n := ⟨.finite n⟩

def isFinite : Number → Bool
  | finite _ => true
  | _ => false

def isInteger : Number → Bool
  | finite q => q.isInt
  | _ => false

def isSafeInteger : Number → Bool
  | finite q => q.isInt && q.num.natAbs ≤ 9007199254740991
  | _ => false

/-- The comparison `n <= 0`. -/
def isNonPositive : Number → Bool
  | nan => false
  | infinity negative => negative
  | finite q => q ≤ 0

/-- The comparison `n <= bound` with a finite number. -/
def isAtMost (bound : ℚ) : Number → Bool
  | nan => false
  | infinity negative => negative
  | finite q => q ≤ bound

def addTo (q : ℚ) : Number → Number
  | finite r => finite (q + r)
  | n => n

def floor : Number → Int
  | finite q => q.floor
  | _ => 0

end Number

end Credence.Js
