import Credence.Js.Json

/-! `JSON.parse` inverts `JSON.stringify` on every value whose objects list their properties in
JavaScript's order. The fuel of the parser is the length of the text. -/

namespace Credence.Js.Json

open List

theorem hexValue_hexDigit : ∀ n < 16, hexValue (hexDigit n) = some n := by decide

theorem codeUnit_escape {n : Nat} (h : n < 32) :
    codeUnit '0' '0' (hexDigit (n / 16)) (hexDigit (n % 16)) = some n := by
  have hh := hexValue_hexDigit (n / 16) (by omega)
  have hl := hexValue_hexDigit (n % 16) (by omega)
  have hz : hexValue '0' = some 0 := by decide
  simp only [codeUnit, hh, hl, hz, Option.pure_def, Option.bind_eq_bind, Option.bind_some]
  congr 1
  omega

variable {c : Char} {cs text rest : List Char} {name : String} {v : Json}

theorem parseString_plain (hq : c ≠ '"') (hs : c ≠ '\\') (hc : ¬c.toNat < 32) :
    parseString (c :: cs) = (parseString cs).map fun p => (c :: p.1, p.2) := by
  rw [parseString.eq_def]
  split <;> simp_all [Option.map_eq_bind]

theorem unescape_letter : ∀ p ∈ shortEscapes, unescape p.2 = some p.1 ∧ p.2 ≠ 'u' := by decide

theorem parseString_short {letter : Char} (hu : letter ≠ 'u') (h : unescape letter = some c) :
    parseString ('\\' :: letter :: cs) = (parseString cs).map fun p => (c :: p.1, p.2) := by
  rw [parseString.eq_def]
  split <;> simp_all [Option.map_eq_bind]
  rename_i hs he
  obtain ⟨rfl, rfl⟩ := he
  exact absurd rfl (hs _ _ rfl)

theorem parseString_control (h : c.toNat < 32) :
    parseString (['\\', 'u', '0', '0', hexDigit (c.toNat / 16), hexDigit (c.toNat % 16)] ++ cs) =
      (parseString cs).map fun p => (c :: p.1, p.2) := by
  have hu := codeUnit_escape h
  have hs : ¬(55296 ≤ c.toNat ∧ c.toNat < 57344) := by omega
  simp only [List.cons_append, List.nil_append, parseString, hu, Option.bind_eq_bind,
    Option.bind_some, if_neg hs, Char.ofNat_toNat, Option.map_eq_bind]
  rfl

theorem parseString_escapeChar (c : Char) (cs : List Char) :
    parseString (escapeChar c ++ cs) = (parseString cs).map fun p => (c :: p.1, p.2) := by
  unfold escapeChar
  split
  · rename_i d letter hf
    have hm := List.mem_of_find?_eq_some hf
    have he : d = c := by simpa using List.find?_some hf
    obtain ⟨hl, hu⟩ := unescape_letter _ hm
    subst he
    exact parseString_short hu hl
  · rename_i hf
    have hn : ∀ p ∈ shortEscapes, p.1 ≠ c := by simpa using hf
    split
    · exact parseString_control ‹_›
    · exact parseString_plain (hn ('"', '"') (by decide)).symm
        (hn ('\\', '\\') (by decide)).symm ‹_›

theorem parseString_escaped (s rest : List Char) :
    parseString (s.flatMap escapeChar ++ '"' :: rest) = some (s, rest) := by
  induction s with
  | nil => simp [parseString]
  | cons c s ih =>
    rw [flatMap_cons, append_assoc, parseString_escapeChar, ih]
    rfl

def EndsNumber (rest : List Char) : Prop := ∀ c, rest.head? = some c → isNumberChar c = false

theorem takeWhile_number (ht : text.all isNumberChar = true) (hr : EndsNumber rest) :
    (text ++ rest).takeWhile isNumberChar = text ∧
      (text ++ rest).dropWhile isNumberChar = rest := by
  rw [all_eq_true] at ht
  rw [takeWhile_append_of_pos ht, dropWhile_append_of_pos ht]
  cases rest with
  | nil => simp
  | cons c =>
    have hc := hr c rfl
    simp [hc]

theorem numberText_chars (h : numberText text = true) : text.all isNumberChar = true := by
  unfold numberText at h
  split at h
  · rename_i rest
    simp only [Bool.and_eq_true] at h
    simp only [all_cons, h.1, Bool.and_true]
    decide
  · simp only [Bool.and_eq_true] at h
    exact h.1

theorem numberText_head (h : numberText text = true) :
    ∃ c rest, text = c :: rest ∧ (c == '-' || c.isDigit) = true := by
  unfold numberText at h
  split at h
  · exact ⟨_, _, rfl, by decide⟩
  · cases text with
    | nil => simp [unsignedText] at h
    | cons c rest =>
      simp only [unsignedText, Bool.and_eq_true] at h
      exact ⟨c, rest, rfl, by simp [h.2.1]⟩

theorem parseNumber_text (n : JsNumber) (hr : EndsNumber rest) :
    parseNumber (n.text ++ rest) = some (.num n, rest) := by
  obtain ⟨ht, hd⟩ := takeWhile_number (numberText_chars n.grammar) hr
  simp only [parseNumber, ht, hd, n.grammar, dite_true]

theorem precedes_irrefl (a : String) : precedes a a = false := by
  unfold precedes
  split <;> simp_all

theorem setProp_append {props : List (String × Json)} (h : ∀ p ∈ props, precedes p.1 name = true) :
    setProp props name v = props ++ [(name, v)] := by
  have hn : props.any (·.1 == name) = false := by
    rw [any_eq_false]
    intro p hp he
    have hb := h p hp
    rw [beq_iff_eq.mp he, precedes_irrefl] at hb
    exact Bool.false_ne_true hb
  rw [setProp, hn]
  simp only [Bool.false_eq_true, if_false]
  clear hn
  induction props with
  | nil => rfl
  | cons p props ih =>
    rw [insertProp, if_pos (h p (by simp)), ih fun q hq => h q (by simp [hq])]
    rfl

mutual

/-- The objects of a value list their properties in JavaScript's order. -/
def OwnOrder : Json → Prop
  | .arr xs => OwnOrderAll xs
  | .obj props => (props.map Prod.fst).Pairwise (fun a b => precedes a b = true) ∧
      OwnOrderValues props
  | _ => True

def OwnOrderAll : List Json → Prop
  | [] => True
  | x :: xs => OwnOrder x ∧ OwnOrderAll xs

def OwnOrderValues : List (String × Json) → Prop
  | [] => True
  | (_, v) :: props => OwnOrder v ∧ OwnOrderValues props

end

theorem skipSpace_cons (h : isSpace c = false) (cs : List Char) :
    skipSpace (c :: cs) = c :: cs := by
  simp [skipSpace, h]

theorem digit_not_space (h : (c == '-' || c.isDigit) = true) :
    isSpace c = false ∧ c ≠ '"' ∧ c ≠ '[' ∧ c ≠ '{' := by
  refine ⟨?_, ?_, ?_, ?_⟩
  · by_contra hs
    simp only [isSpace, Bool.not_eq_false, Bool.or_eq_true, beq_iff_eq] at hs
    rcases hs with ((rfl | rfl) | rfl) | rfl <;> exact absurd h (by decide)
  all_goals rintro rfl; exact absurd h (by decide)

theorem endsNumber_cons (h : isNumberChar c = false) (cs : List Char) : EndsNumber (c :: cs) := by
  intro d hd
  simp only [List.head?_cons, Option.some.injEq] at hd
  rw [← hd, h]

theorem endsNumber_elements (xs : List Json) (rest : List Char) :
    EndsNumber (moreElements xs ++ rest) := by
  cases xs <;> simp only [moreElements, List.cons_append] <;> exact endsNumber_cons (by decide) _

theorem endsNumber_properties (props : List (String × Json)) (rest : List Char) :
    EndsNumber (moreProperties props ++ rest) := by
  cases props <;> simp only [moreProperties, List.cons_append] <;>
    exact endsNumber_cons (by decide) _

theorem stringifyChars_head (v : Json) :
    ∃ c cs, v.stringifyChars = c :: cs ∧ isSpace c = false ∧ c ≠ ']' := by
  cases v with
  | null => exact ⟨_, _, rfl, by decide, by decide⟩
  | bool b => cases b <;> exact ⟨_, _, rfl, by decide, by decide⟩
  | num n =>
    obtain ⟨c, rest, ht, hc⟩ := numberText_head n.grammar
    refine ⟨c, rest, ht, (digit_not_space hc).1, ?_⟩
    rintro rfl
    exact absurd hc (by decide)
  | str => exact ⟨_, _, rfl, by decide, by decide⟩
  | arr xs => cases xs <;> exact ⟨_, _, rfl, by decide, by decide⟩
  | obj props => cases props <;> exact ⟨_, _, rfl, by decide, by decide⟩

theorem parseProperty_text {fuel : Nat}
    (h : parseValue fuel (v.stringifyChars ++ rest) = some (v, rest)) :
    parseProperty (fuel + 1) (quote name ++ ':' :: (v.stringifyChars ++ rest)) =
      some (name, v, rest) := by
  have hq : skipSpace (quote name ++ ':' :: (v.stringifyChars ++ rest)) =
      '"' :: (name.toList.flatMap escapeChar ++ '"' :: ':' :: (v.stringifyChars ++ rest)) := by
    simp [quote, skipSpace_cons (show isSpace '"' = false by decide)]
  have hc : skipSpace (':' :: (v.stringifyChars ++ rest)) =
      ':' :: (v.stringifyChars ++ rest) := skipSpace_cons (by decide) _
  rw [parseProperty, hq]
  simp only [parseString_escaped, Option.bind_eq_bind, Option.bind_some, hc, h,
    Option.pure_def, String.ofList_toList]

mutual

theorem parseValue_text : ∀ (v : Json) (fuel : Nat) (rest : List Char), v.OwnOrder →
    v.stringifyChars.length ≤ fuel → EndsNumber rest →
    parseValue fuel (v.stringifyChars ++ rest) = some (v, rest)
  | v, 0, rest, _, hf, _ => by
    obtain ⟨c, cs, ht, -, -⟩ := stringifyChars_head v
    simp [ht] at hf
  | .null, fuel + 1, rest, _, _, _ | .bool true, fuel + 1, rest, _, _, _
  | .bool false, fuel + 1, rest, _, _, _ => by
    simp [stringifyChars, parseValue, skipSpace_cons, isSpace, parseKeyword]
  | .num n, fuel + 1, rest, _, _, hr => by
    obtain ⟨c, cs, ht, hc⟩ := numberText_head n.grammar
    obtain ⟨ha, hq, hb, hd⟩ := digit_not_space hc
    have hn := parseNumber_text n hr
    rw [ht, cons_append] at hn
    simp only [stringifyChars, ht, cons_append, parseValue, skipSpace_cons ha, hq,
      hb, hd, hc, if_true, if_false]
    exact hn
  | .str s, fuel + 1, rest, _, _, _ => by
    have ht : (Json.str s).stringifyChars ++ rest =
        '"' :: (s.toList.flatMap escapeChar ++ '"' :: rest) := by simp [stringifyChars, quote]
    simp only [ht, parseValue, skipSpace_cons (show isSpace '"' = false by decide), if_true,
      parseString_escaped, Option.bind_eq_bind, Option.bind_some, Option.pure_def,
      String.ofList_toList]
  | .arr [], fuel + 1, rest, _, _, _ => by
    simp [stringifyChars, parseValue, skipSpace_cons, isSpace]
  | .arr (x :: xs), fuel + 1, rest, ho, hf, _ => by
    simp only [OwnOrder, OwnOrderAll] at ho
    simp only [stringifyChars, length_cons, length_append] at hf
    have hx := parseValue_text x fuel (moreElements xs ++ rest) ho.1 (by omega)
      (endsNumber_elements xs rest)
    have he := parseElements_text xs fuel rest ho.2 (by omega)
    obtain ⟨c, cs, ht, ha, hc⟩ := stringifyChars_head x
    have hs : skipSpace (x.stringifyChars ++ (moreElements xs ++ rest)) =
        c :: (cs ++ (moreElements xs ++ rest)) := by
      rw [ht, cons_append, skipSpace_cons ha]
    simp only [stringifyChars, cons_append, append_assoc, parseValue,
      skipSpace_cons (show isSpace '[' = false by decide), Char.reduceEq, if_true, if_false, hs]
    split
    · simp_all
    · simp only [hx, he, Option.bind_eq_bind, Option.bind_some, Option.pure_def]
  | .obj [], fuel + 1, rest, _, _, _ => by
    simp [stringifyChars, parseValue, skipSpace_cons, isSpace]
  | .obj ((name, v) :: props), fuel + 1, rest, ho, hf, _ => by
    simp only [OwnOrder, OwnOrderValues, map_cons] at ho
    simp only [stringifyChars, length_cons, length_append] at hf
    obtain ⟨fuel, rfl⟩ : ∃ k, fuel = k + 1 := ⟨fuel - 1, by omega⟩
    have hv := parseValue_text v fuel (moreProperties props ++ rest) ho.2.1 (by omega)
      (endsNumber_properties props rest)
    have hp := parseProperties_text props (fuel + 1) [(name, v)] rest ho.2.2
      (by simpa using ho.1) (by omega)
    have hs : skipSpace (quote name ++ ':' :: (v.stringifyChars ++ (moreProperties props ++ rest)))
        = quote name ++ ':' :: (v.stringifyChars ++ (moreProperties props ++ rest)) := by
      rw [quote, cons_append, skipSpace_cons (by decide)]
    have hg : ∀ tail, skipSpace (quote name ++ ':' :: (v.stringifyChars ++
        (moreProperties props ++ rest))) = '}' :: tail → False := by
      intro tail
      rw [hs, quote]
      simp
    rw [parseValue]
    simp only [stringifyChars, cons_append, append_assoc,
      skipSpace_cons (show isSpace '{' = false by decide), Char.reduceEq, if_true, if_false]
    rw [hs, parseProperty_text hv]
    simp only [Option.bind_eq_bind, Option.bind_some]
    rw [hp]
    rfl

theorem parseElements_text : ∀ (xs : List Json) (fuel : Nat) (rest : List Char), OwnOrderAll xs →
    (moreElements xs).length ≤ fuel → parseElements fuel (moreElements xs ++ rest) = some (xs, rest)
  | [], 0, rest, _, hf => by simp [moreElements] at hf
  | [], fuel + 1, rest, _, _ => by
    simp [moreElements, parseElements, skipSpace_cons, isSpace]
  | x :: xs, 0, rest, _, hf => by simp [moreElements] at hf
  | x :: xs, fuel + 1, rest, ho, hf => by
    simp only [OwnOrderAll] at ho
    simp only [moreElements, length_cons, length_append] at hf
    have hx := parseValue_text x fuel (moreElements xs ++ rest) ho.1 (by omega)
      (endsNumber_elements xs rest)
    have hs := parseElements_text xs fuel rest ho.2 (by omega)
    simp only [moreElements, cons_append, append_assoc, parseElements,
      skipSpace_cons (show isSpace ',' = false by decide), hx, hs, Option.bind_eq_bind,
      Option.bind_some, Option.pure_def]

theorem parseProperties_text : ∀ (props : List (String × Json)) (fuel : Nat)
    (done : List (String × Json)) (rest : List Char), OwnOrderValues props →
    ((done ++ props).map Prod.fst).Pairwise (fun a b => precedes a b = true) →
    (moreProperties props).length ≤ fuel →
    parseProperties fuel done (moreProperties props ++ rest) = some (done ++ props, rest)
  | [], 0, done, rest, _, _, hf => by simp [moreProperties] at hf
  | [], fuel + 1, done, rest, _, _, _ => by
    simp [moreProperties, parseProperties, skipSpace_cons, isSpace]
  | (name, v) :: props, 0, done, rest, _, _, hf => by simp [moreProperties] at hf
  | (name, v) :: props, fuel + 1, done, rest, hb, ho, hf => by
    simp only [OwnOrderValues] at hb
    simp only [moreProperties, length_cons, length_append] at hf
    obtain ⟨fuel, rfl⟩ : ∃ k, fuel = k + 1 := ⟨fuel - 1, by omega⟩
    have hv := parseValue_text v fuel (moreProperties props ++ rest) hb.1 (by omega)
      (endsNumber_properties props rest)
    have ha : setProp done name v = done ++ [(name, v)] := by
      apply setProp_append
      intro p hp
      rw [map_append, pairwise_append] at ho
      exact ho.2.2 p.1 (mem_map_of_mem hp) name (by simp)
    have hr := parseProperties_text props (fuel + 1) (done ++ [(name, v)]) rest hb.2
      (by simpa using ho) (by omega)
    rw [parseProperties]
    simp only [moreProperties, cons_append, append_assoc,
      skipSpace_cons (show isSpace ',' = false by decide), parseProperty_text hv,
      Option.bind_eq_bind, Option.bind_some, ha]
    rw [hr]
    simp

end

theorem parse_stringify (h : v.OwnOrder) : parse v.stringify = some v := by
  have ht := parseValue_text v v.stringifyChars.length [] h le_rfl (by simp [EndsNumber])
  rw [append_nil] at ht
  simp [parse, ht, skipSpace]

end Credence.Js.Json
