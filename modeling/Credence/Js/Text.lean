import Mathlib.Algebra.Ring.Nat
import Mathlib.Data.List.DropRight

/-! The methods of JavaScript strings that the models use, on lists of characters, and the functions
that read numbers from them. -/

namespace Credence.Js

open List

/-- `WhiteSpace` and `LineTerminator` of the ECMAScript grammar, which `trim` removes. -/
def isWhiteSpace (c : Char) : Bool :=
  c.toNat ∈ [9, 10, 11, 12, 13, 32, 160, 5760, 8232, 8233, 8239, 8287, 12288, 65279] ||
    (8192 ≤ c.toNat && c.toNat ≤ 8202)

def trim (cs : List Char) : List Char := (cs.dropWhile isWhiteSpace).rdropWhile isWhiteSpace

/-- The property `length` of a string: its number of UTF-16 code units. -/
def utf16Length (cs : List Char) : Nat := (cs.map fun c => if c.toNat < 65536 then 1 else 2).sum

variable {cs : List Char} {p q : Char → Bool} {c : Char}

theorem trim_of_ends (hh : ∀ c, cs.head? = some c → isWhiteSpace c = false)
    (hl : ∀ c, cs.getLast? = some c → isWhiteSpace c = false) : trim cs = cs := by
  cases cs with
  | nil => rfl
  | cons c cs =>
    have hd : (c :: cs).dropWhile isWhiteSpace = c :: cs := by
      rw [dropWhile_cons_of_neg]
      simp [hh c rfl]
    rw [trim, hd, rdropWhile_eq_self_iff]
    intro hne
    simp [hl _ (getLast?_eq_getLast_of_ne_nil hne)]

theorem dropWhile_dropWhile (hi : ∀ c, p c = true → q c = true) (cs : List Char) :
    (cs.dropWhile p).dropWhile q = cs.dropWhile q := by
  induction cs with
  | nil => rfl
  | cons c cs ih =>
    by_cases hp : p c = true
    · rw [dropWhile_cons_of_pos hp, ih, dropWhile_cons_of_pos (hi c hp)]
    · rw [dropWhile_cons_of_neg hp]

theorem rdropWhile_rdropWhile (hi : ∀ c, p c = true → q c = true) (cs : List Char) :
    (cs.rdropWhile p).rdropWhile q = cs.rdropWhile q := by
  simp only [rdropWhile, reverse_reverse, dropWhile_dropWhile hi]

theorem trim_eq_of_strip {space : Char → Bool} {body : List Char}
    (hs : ∀ c, space c = true → isWhiteSpace c = true)
    (hb : (cs.dropWhile space).rdropWhile space = body) (hne : body ≠ [])
    (hh : ∀ c, body.head? = some c → isWhiteSpace c = false)
    (hl : ∀ c, body.getLast? = some c → isWhiteSpace c = false) : trim cs = body := by
  obtain ⟨tail, ht⟩ : body <+: cs.dropWhile space := hb ▸ rdropWhile_prefix _ _
  have hd : cs.dropWhile isWhiteSpace = cs.dropWhile space := by
    obtain ⟨c, rest, rfl⟩ := exists_cons_of_ne_nil hne
    rw [← dropWhile_dropWhile hs, ← ht, cons_append,
      dropWhile_cons_of_neg (by simp [hh c rfl])]
  rw [trim, hd, ← rdropWhile_rdropWhile hs, hb, rdropWhile_eq_self_iff]
  intro hne
  simp [hl _ (getLast?_eq_getLast_of_ne_nil hne)]

theorem digit_range (h : c.isDigit = true) : 48 ≤ c.toNat ∧ c.toNat ≤ 57 := by
  simp only [Char.isDigit, Bool.and_eq_true, decide_eq_true_eq, UInt32.le_iff_toNat_le] at h
  exact h

theorem digit_not_whiteSpace (h : c.isDigit = true) : isWhiteSpace c = false := by
  obtain ⟨hl, hh⟩ := digit_range h
  simp [isWhiteSpace]
  omega

/-- `parseInt(text, 10)`; `none` is `NaN`. -/
def parseInt (cs : List Char) : Option Int :=
  let body := cs.dropWhile isWhiteSpace
  let signed := body.head? = some '-' ∨ body.head? = some '+'
  let digits := (if signed then body.tail else body).takeWhile Char.isDigit
  if digits = [] then none
  else
    let magnitude : Int := Nat.ofDigitChars 10 digits 0
    some (if body.head? = some '-' then -magnitude else magnitude)

theorem parseInt_toDigits (n : Nat) : parseInt (Nat.toDigits 10 n) = some (n : Int) := by
  have hd : ∀ c ∈ Nat.toDigits 10 n, c.isDigit = true := fun c hm =>
    Nat.isDigit_of_mem_toDigits (by decide) (by decide) hm
  have hv : Nat.ofDigitChars 10 (Nat.toDigits 10 n) 0 = n :=
    Nat.ofDigitChars_toDigits (by decide) (by decide)
  cases ht : Nat.toDigits 10 n with
  | nil => exact absurd ht Nat.toDigits_ne_nil
  | cons c =>
    rw [ht] at hd hv
    have hf : c.isDigit = true := hd c (mem_cons_self ..)
    have hs : isWhiteSpace c = false := digit_not_whiteSpace hf
    have hi : c ≠ '-' := by rintro rfl; cases hf
    have hp : c ≠ '+' := by rintro rfl; cases hf
    simp [parseInt, hs, hi, hp, takeWhile_eq_self_iff.mpr hd, hv]

/-- The exponent part of a decimal literal, zero where there is none. -/
def exponentPart : List Char → Int
  | [] => 0
  | c :: rest =>
    let digits (cs : List Char) : Nat := Nat.ofDigitChars 10 (cs.takeWhile Char.isDigit) 0
    if c = 'e' ∨ c = 'E' then
      if rest.head? = some '-' then -(digits rest.tail : Int)
      else if rest.head? = some '+' then digits rest.tail
      else digits rest
    else 0

/-- The decimal literal that `cs` starts with, as `m * 10 ^ e`. -/
def decimalLiteral (cs : List Char) : Option (Nat × Int) :=
  let int := cs.takeWhile Char.isDigit
  let rest := cs.dropWhile Char.isDigit
  let point := rest.head? = some '.'
  let frac := if point then rest.tail.takeWhile Char.isDigit else []
  let rest := if point then rest.tail.dropWhile Char.isDigit else rest
  if int = [] ∧ frac = [] then none
  else some (Nat.ofDigitChars 10 (int ++ frac) 0, exponentPart rest - frac.length)

/-- The comparison `parseFloat(text) < 0`. A literal below zero by at most `2 ^ -1075` is read as
negative zero. -/
def parseFloatNegative (cs : List Char) : Bool :=
  match cs.dropWhile isWhiteSpace with
  | [] => false
  | c :: rest =>
    c == '-' && ("Infinity".toList.isPrefixOf rest ||
      match decimalLiteral rest with
      | none => false
      | some (m, e) => decide (10 ^ (-e).toNat < m * 10 ^ e.toNat * 2 ^ 1075))

theorem parseFloatNegative_eq_false {rest : List Char} (ht : trim cs = c :: rest)
    (hm : c ≠ '-') : parseFloatNegative cs = false := by
  have hp : c :: rest <+: cs.dropWhile isWhiteSpace := by
    rw [← ht]
    exact rdropWhile_prefix _ _
  obtain ⟨suffix, hd⟩ := hp
  rw [parseFloatNegative, ← hd]
  show (c == '-' && _) = false
  rw [beq_false_of_ne hm, Bool.false_and]

end Credence.Js
