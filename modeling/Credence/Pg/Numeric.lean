import Mathlib.Data.List.DropRight
import Mathlib.Data.Rat.Floor

/-! The `NUMERIC` type of PostgreSQL; a value is an integer number of units of the last digit of its
column. -/

namespace Credence.Pg

def isSpace (c : Char) : Bool := c.toNat ∈ [9, 10, 11, 12, 13, 32]

/-- The cast `text::NUMERIC` of an unsigned decimal text with digits before the point; `none` is the
error `invalid_text_representation`. -/
def numericIn (text : List Char) : Option ℚ :=
  let body := (text.dropWhile isSpace).rdropWhile isSpace
  let int := body.takeWhile Char.isDigit
  let rest := body.dropWhile Char.isDigit
  if int ≠ [] ∧ (rest = [] ∨ rest.head? = some '.' ∧ rest.tail.all Char.isDigit = true) then
    some ((Nat.ofDigitChars 10 (int ++ rest.tail) 0 : ℚ) / 10 ^ rest.tail.length)
  else none

/-- To the nearest integer, away from zero in the middle. -/
def roundAway (x : ℚ) : ℤ := if 0 ≤ x then ⌊x + 1 / 2⌋ else -⌊-x + 1 / 2⌋

/-- Assignment to a column `NUMERIC(precision, scale)`; `none` is `numeric_value_out_of_range`. -/
def storeNumeric (precision scale : Nat) (x : ℚ) : Option ℤ :=
  let units := roundAway (x * 10 ^ scale)
  if units.natAbs < 10 ^ precision then some units else none

theorem roundAway_intCast (n : ℤ) : roundAway n = n := by
  have hf : ∀ m : ℤ, ⌊(m : ℚ) + 1 / 2⌋ = m := by
    intro m
    rw [Int.floor_eq_iff]
    constructor <;> norm_num
  unfold roundAway
  split
  · exact hf n
  · rw [← Int.cast_neg, hf, neg_neg]

theorem storeNumeric_of_exact {precision scale : Nat} {x : ℚ} {units : ℤ}
    (he : x = units / 10 ^ scale) (hf : units.natAbs < 10 ^ precision) :
    storeNumeric precision scale x = some units := by
  have hu : x * 10 ^ scale = units := by
    rw [he]
    field_simp
  rw [storeNumeric, hu, roundAway_intCast, if_pos hf]

end Credence.Pg
