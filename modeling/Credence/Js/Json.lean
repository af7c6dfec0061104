import Mathlib.Data.List.Basic
import Mathlib.Data.List.TakeWhile
import Mathlib.Tactic.Ring

/-! JSON values as JavaScript holds them. An object is the list of its own properties in the order
of their enumeration, and a number is the text that `Number.prototype.toString` prints for it. -/

namespace Credence.Js

open List

def isNumberChar (c : Char) : Bool :=
  c.isDigit || c == '-' || c == '+' || c == '.' || c == 'e' || c == 'E'

def exponentText : List Char → Bool
  | [] => true
  | c :: rest =>
    let digits := if rest.head? = some '-' ∨ rest.head? = some '+' then rest.tail else rest
    (c == 'e' || c == 'E') && !digits.isEmpty && digits.all Char.isDigit

def fractionText : List Char → Bool
  | '.' :: rest =>
    !(rest.takeWhile Char.isDigit).isEmpty && exponentText (rest.dropWhile Char.isDigit)
  | rest => exponentText rest

def unsignedText : List Char → Bool
  | [] => false
  | c :: rest =>
    c.isDigit && fractionText (if c = '0' then rest else rest.dropWhile Char.isDigit)

def numberText : List Char → Bool
  | '-' :: rest => rest.all isNumberChar && unsignedText rest
  | cs => cs.all isNumberChar && unsignedText cs

structure JsNumber where
  text : List Char
  grammar : numberText text = true

def intText (n : Int) : List Char :=
  if n < 0 then '-' :: Nat.toDigits 10 n.natAbs else Nat.toDigits 10 n.natAbs

theorem toDigits_head_ne_zero {n : Nat} (h : 0 < n) : (Nat.toDigits 10 n).head? ≠ some '0' := by
  induction n using Nat.strongRecOn with
  | ind n ih =>
    by_cases hl : n < 10
    · rw [Nat.toDigits_of_lt_base hl, head?_cons, ne_eq, Option.some.injEq,
        Nat.digitChar_eq_zero]
      omega
    · have hh := ih (n / 10) (by omega) (by omega)
      rw [Nat.toDigits_of_base_le (by decide) (by omega),
        head?_append_of_ne_nil _ Nat.toDigits_ne_nil]
      exact hh

theorem unsignedText_toDigits (n : Nat) : unsignedText (Nat.toDigits 10 n) = true := by
  have hd : ∀ c ∈ Nat.toDigits 10 n, c.isDigit = true :=
    fun c hc => Nat.isDigit_of_mem_toDigits (by decide) (by decide) hc
  by_cases hz : n = 0
  · subst hz
    decide
  · have hh := toDigits_head_ne_zero (Nat.pos_of_ne_zero hz)
    obtain ⟨c, rest, ht⟩ := exists_cons_of_ne_nil (Nat.toDigits_ne_nil (n := n) (b := 10))
    rw [ht, head?_cons, ne_eq, Option.some.injEq] at hh
    rw [ht, forall_mem_cons] at hd
    rw [ht, unsignedText, hd.1, if_neg hh, dropWhile_eq_nil_iff.mpr hd.2]
    rfl

theorem mem_intText {n : Int} {c : Char} (h : c ∈ intText n) : c = '-' ∨ c.isDigit = true := by
  unfold intText at h
  split at h
  · rcases mem_cons.mp h with hm | hd
    · exact .inl hm
    · exact .inr (Nat.isDigit_of_mem_toDigits (by decide) (by decide) hd)
  · exact .inr (Nat.isDigit_of_mem_toDigits (by decide) (by decide) h)

theorem intText_injective : Function.Injective intText := by
  have hp : ∀ n : Nat, '-' ∉ Nat.toDigits 10 n := fun n hm =>
    absurd (Nat.isDigit_of_mem_toDigits (by decide) (by decide) hm) (by decide)
  have hd : ∀ {m n : Nat}, Nat.toDigits 10 m = Nat.toDigits 10 n → m = n := by
    intro m n h
    rw [← @Nat.ofDigitChars_ten_toDigits m, h, Nat.ofDigitChars_ten_toDigits]
  intro a b h
  unfold intText at h
  split at h <;> split at h
  · have ha := hd (cons.inj h).2
    omega
  · exact absurd (h ▸ mem_cons_self) (hp b.natAbs)
  · exact absurd (h ▸ mem_cons_self) (hp a.natAbs)
  · have ha := hd h
    omega

theorem numberText_intText (n : Int) : numberText (intText n) = true := by
  have hh : (Nat.toDigits 10 n.natAbs).all isNumberChar = true := by
    rw [all_eq_true]
    intro c hc
    simp [isNumberChar, Nat.isDigit_of_mem_toDigits (by decide) (by decide) hc]
  have ht := unsignedText_toDigits n.natAbs
  unfold intText
  split
  · rw [numberText, hh, ht]
    rfl
  · obtain ⟨c, rest, ha⟩ :=
      exists_cons_of_ne_nil (Nat.toDigits_ne_nil (n := n.natAbs) (b := 10))
    have hd : c.isDigit = true :=
      Nat.isDigit_of_mem_toDigits (by decide) (by decide) (ha ▸ mem_cons_self)
    rw [numberText]
    · rw [hh, ht]
      rfl
    · rintro _ hm
      rw [ha, cons.injEq] at hm
      rw [hm.1] at hd
      exact absurd hd (by decide)

def JsNumber.ofInt (n : Int) : JsNumber := ⟨intText n, numberText_intText n⟩

inductive Json
  | null
  | bool (b : Bool)
  | num (n : JsNumber)
  | str (s : String)
  | arr (xs : List Json)
  | obj (props : List (String × Json))

def arrayIndex? (name : String) : Option Nat :=
  let cs := name.toList
  let n := Nat.ofDigitChars 10 cs 0
  if cs.all Char.isDigit ∧ Nat.toDigits 10 n = cs ∧ n < 4294967295 then some n else none

/-- Own property `a` is enumerated before own property `b`, when `a` was created first. -/
def precedes (a b : String) : Bool :=
  match arrayIndex? a, arrayIndex? b with
  | some i, some j => i < j
  | some _, none => true
  | none, some _ => false
  | none, none => a ≠ b

namespace Json

def hexDigit (n : Nat) : Char := (Nat.toDigits 16 n).headD '0'

def shortEscapes : List (Char × Char) :=
  [('"', '"'), ('\\', '\\'), (Char.ofNat 8, 'b'), (Char.ofNat 12, 'f'), ('\n', 'n'), ('\r', 'r'),
    ('\t', 't')]

def escapeChar (c : Char) : List Char :=
  match shortEscapes.find? (·.1 = c) with
  | some (_, letter) => ['\\', letter]
  | none =>
    if c.toNat < 32 then ['\\', 'u', '0', '0', hexDigit (c.toNat / 16), hexDigit (c.toNat % 16)]
    else [c]

def quote (s : String) : List Char := '"' :: (s.toList.flatMap escapeChar ++ ['"'])

mutual

/-- `JSON.stringify(value)` without an indent. -/
def stringifyChars : Json → List Char
  | .null => ['n', 'u', 'l', 'l']
  | .bool true => ['t', 'r', 'u', 'e']
  | .bool false => ['f', 'a', 'l', 's', 'e']
  | .num n => n.text
  | .str s => quote s
  | .arr [] => ['[', ']']
  | .arr (x :: xs) => '[' :: (stringifyChars x ++ moreElements xs)
  | .obj [] => ['{', '}']
  | .obj ((name, v) :: props) =>
    '{' :: (quote name ++ ':' :: (stringifyChars v ++ moreProperties props))

def moreElements : List Json → List Char
  | [] => [']']
  | x :: xs => ',' :: (stringifyChars x ++ moreElements xs)

def moreProperties : List (String × Json) → List Char
  | [] => ['}']
  | (name, v) :: props =>
    ',' :: (quote name ++ ':' :: (stringifyChars v ++ moreProperties props))

end

def stringify (v : Json) : String := String.ofList v.stringifyChars

@[simp] theorem toList_stringify (v : Json) : v.stringify.toList = v.stringifyChars := by
  simp [stringify]

mutual

/-- What `JSON.stringify(value, names)` writes of the value: at every depth, of each object, the
properties with one of the names, in the order of the names. -/
def restrict (names : List String) : Json → Json
  | .arr xs => .arr (restrictElements names xs)
  | .obj props =>
    let values := restrictValues names props
    .obj (names.filterMap fun name => values.find? fun prop => prop.1 = name)
  | v => v

def restrictElements (names : List String) : List Json → List Json
  | [] => []
  | x :: xs => restrict names x :: restrictElements names xs

def restrictValues (names : List String) : List (String × Json) → List (String × Json)
  | [] => []
  | (name, v) :: props => (name, restrict names v) :: restrictValues names props

end

def isSpace (c : Char) : Bool := c == ' ' || c == '\t' || c == '\n' || c == '\r'

def skipSpace (cs : List Char) : List Char := cs.dropWhile isSpace

def hexValue (c : Char) : Option Nat :=
  if c.isDigit then some (c.toNat - 48)
  else if 'a' ≤ c ∧ c ≤ 'f' then some (c.toNat - 87)
  else if 'A' ≤ c ∧ c ≤ 'F' then some (c.toNat - 55)
  else none

def unescape (letter : Char) : Option Char :=
  if letter = '/' then some '/' else (shortEscapes.find? (·.2 = letter)).map Prod.fst

def codeUnit (a b c d : Char) : Option Nat := do
  return (← hexValue a) * 4096 + (← hexValue b) * 256 + (← hexValue c) * 16 + (← hexValue d)

/-- The characters of a string up to its closing quote, and the rest of the text. Escaped
surrogates are outside the model's strings and are refused. -/
def parseString : List Char → Option (List Char × List Char)
  | [] => none
  | '"' :: rest => some ([], rest)
  | '\\' :: 'u' :: a :: b :: c :: d :: rest => do
    let unit ← codeUnit a b c d
    if 55296 ≤ unit ∧ unit < 57344 then none
    else do
      let (cs, rest) ← parseString rest
      return (Char.ofNat unit :: cs, rest)
  | '\\' :: e :: rest => do
    let c ← unescape e
    let (cs, rest) ← parseString rest
    return (c :: cs, rest)
  | c :: rest =>
    if c.toNat < 32 then none
    else do
      let (cs, rest) ← parseString rest
      return (c :: cs, rest)

/-- Where a new property goes among the own properties: an array index before the first larger one
and before every other name, any other name at the end. -/
def insertProp (name : String) (v : Json) : List (String × Json) → List (String × Json)
  | [] => [(name, v)]
  | p :: props =>
    if precedes p.1 name then p :: insertProp name v props else (name, v) :: p :: props

/-- `CreateDataProperty`: a name that is there keeps its place and takes the new value. -/
def setProp (props : List (String × Json)) (name : String) (v : Json) : List (String × Json) :=
  if props.any (·.1 == name) then props.map fun p => if p.1 == name then (name, v) else p
  else insertProp name v props

def parseNumber (cs : List Char) : Option (Json × List Char) :=
  if h : numberText (cs.takeWhile isNumberChar) = true then
    some (.num ⟨cs.takeWhile isNumberChar, h⟩, cs.dropWhile isNumberChar)
  else none

def parseKeyword : List Char → Option (Json × List Char)
  | 'n' :: 'u' :: 'l' :: 'l' :: rest => some (.null, rest)
  | 't' :: 'r' :: 'u' :: 'e' :: rest => some (.bool true, rest)
  | 'f' :: 'a' :: 'l' :: 's' :: 'e' :: rest => some (.bool false, rest)
  | _ => none

mutual

def parseValue : Nat → List Char → Option (Json × List Char)
  | 0, _ => none
  | fuel + 1, cs =>
    match skipSpace cs with
    | [] => none
    | c :: rest =>
      if c = '"' then do
        let (s, rest) ← parseString rest
        return (.str (String.ofList s), rest)
      else if c = '[' then
        match skipSpace rest with
        | ']' :: rest => some (.arr [], rest)
        | _ => do
          let (x, rest) ← parseValue fuel rest
          let (xs, rest) ← parseElements fuel rest
          return (.arr (x :: xs), rest)
      else if c = '{' then
        match skipSpace rest with
        | '}' :: rest => some (.obj [], rest)
        | rest => do
          let (name, v, rest) ← parseProperty fuel rest
          let (props, rest) ← parseProperties fuel [(name, v)] rest
          return (.obj props, rest)
      else if c == '-' || c.isDigit then parseNumber (c :: rest)
      else parseKeyword (c :: rest)

def parseElements : Nat → List Char → Option (List Json × List Char)
  | 0, _ => none
  | fuel + 1, cs =>
    match skipSpace cs with
    | ']' :: rest => some ([], rest)
    | ',' :: rest => do
      let (x, rest) ← parseValue fuel rest
      let (xs, rest) ← parseElements fuel rest
      return (x :: xs, rest)
    | _ => none

def parseProperty : Nat → List Char → Option (String × Json × List Char)
  | 0, _ => none
  | fuel + 1, cs =>
    match skipSpace cs with
    | '"' :: rest => do
      let (name, rest) ← parseString rest
      match skipSpace rest with
      | ':' :: rest => do
        let (v, rest) ← parseValue fuel rest
        return (String.ofList name, v, rest)
      | _ => none
    | _ => none

def parseProperties : Nat → List (String × Json) → List Char →
    Option (List (String × Json) × List Char)
  | 0, _, _ => none
  | fuel + 1, props, cs =>
    match skipSpace cs with
    | '}' :: rest => some (props, rest)
    | ',' :: rest => do
      let (name, v, rest) ← parseProperty fuel rest
      parseProperties fuel (setProp props name v) rest
    | _ => none

end

/-- `JSON.parse(text)`; `none` where it throws a `SyntaxError`. -/
def parse (text : String) : Option Json :=
  match parseValue text.toList.length text.toList with
  | some (v, rest) => if skipSpace rest = [] then some v else none
  | none => none

end Json

end Credence.Js
