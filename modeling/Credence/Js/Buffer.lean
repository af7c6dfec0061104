import Credence.Js.JsonRoundTrip

/-! The texts of a `Buffer`, hexadecimal, `base64url` and UTF-8, and the `Buffer` of such a text. -/

namespace Credence.Js.Buffer

open Js.Json List

def hexChars : List UInt8 → List Char
  | [] => []
  | byte :: bytes =>
    hexDigit (byte.toNat / 16) :: hexDigit (byte.toNat % 16) :: hexChars bytes

/-- `Buffer.from(bytes).toString('hex')`. -/
def toHex (bytes : List UInt8) : String := String.ofList (hexChars bytes)

/-- The bytes up to the first pair that is not two hexadecimal digits. -/
def bytesOfHex : List Char → List UInt8
  | high :: low :: cs =>
    match hexValue high, hexValue low with
    | some h, some l => UInt8.ofNat (16 * h + l) :: bytesOfHex cs
    | _, _ => []
  | _ => []

/-- `Buffer.from(text, 'hex')`. -/
def ofHex (text : String) : List UInt8 := bytesOfHex text.toList

theorem bytesOfHex_hexChars (bytes : List UInt8) : bytesOfHex (hexChars bytes) = bytes := by
  induction bytes with
  | nil => rfl
  | cons byte bytes ih =>
    have hb := byte.toNat_lt
    have hh := hexValue_hexDigit (byte.toNat / 16) (by omega)
    have hl := hexValue_hexDigit (byte.toNat % 16) (by omega)
    have hs : 16 * (byte.toNat / 16) + byte.toNat % 16 = byte.toNat := Nat.div_add_mod _ 16
    simp only [hexChars, bytesOfHex, hh, hl, hs, UInt8.ofNat_toNat, ih]

@[simp] theorem ofHex_toHex (bytes : List UInt8) : ofHex (toHex bytes) = bytes := by
  rw [ofHex, toHex, String.toList_ofList, bytesOfHex_hexChars]

/-- `Buffer.from(text, 'utf8')`. -/
def ofUtf8 (text : String) : List UInt8 := text.toList.flatMap String.utf8EncodeChar

@[simp] theorem ofUtf8_append (a b : String) : ofUtf8 (a ++ b) = ofUtf8 a ++ ofUtf8 b := by
  simp [ofUtf8]

theorem ofUtf8_injective : Function.Injective ofUtf8 := by
  intro a b h
  have hb : a.toList.utf8Encode = b.toList.utf8Encode := congrArg toByteArray h
  have hd := congrArg ByteArray.utf8Decode? hb
  rw [utf8Decode?_utf8Encode, utf8Decode?_utf8Encode, Option.some.injEq] at hd
  exact String.toList_inj.mp (congrArg Array.toList hd)

/-- Six bits at a time. -/
def sextets : List UInt8 → List Nat
  | a :: b :: c :: rest =>
    a.toNat / 4 :: (a.toNat % 4 * 16 + b.toNat / 16) :: (b.toNat % 16 * 4 + c.toNat / 64) ::
      c.toNat % 64 :: sextets rest
  | [a, b] => [a.toNat / 4, a.toNat % 4 * 16 + b.toNat / 16, b.toNat % 16 * 4]
  | [a] => [a.toNat / 4, a.toNat % 4 * 16]
  | [] => []

def ofSextets : List Nat → List UInt8
  | p :: q :: r :: s :: rest =>
    .ofNat (p * 4 + q / 16) :: .ofNat (q % 16 * 16 + r / 4) :: .ofNat (r % 4 * 64 + s) ::
      ofSextets rest
  | [p, q, r] => [.ofNat (p * 4 + q / 16), .ofNat (q % 16 * 16 + r / 4)]
  | [p, q] => [.ofNat (p * 4 + q / 16)]
  | _ => []

theorem ofNat_eq {a : UInt8} {n : Nat} (h : n = a.toNat) : UInt8.ofNat n = a := by
  rw [h, UInt8.ofNat_toNat]

theorem ofSextets_sextets (bytes : List UInt8) :
    ofSextets (sextets bytes) = bytes ∧ ∀ n ∈ sextets bytes, n < 64 := by
  fun_induction sextets bytes with
  | case1 a b c rest ih =>
    have := a.toNat_lt
    have := b.toNat_lt
    have := c.toNat_lt
    rw [ofSextets, ih.1, ofNat_eq (a := a) (by omega), ofNat_eq (a := b) (by omega),
      ofNat_eq (a := c) (by omega)]
    simp only [mem_cons, forall_eq_or_imp]
    exact ⟨trivial, by omega, by omega, by omega, by omega, ih.2⟩
  | case2 a b =>
    have := a.toNat_lt
    have := b.toNat_lt
    rw [ofSextets, ofNat_eq (a := a) (by omega), ofNat_eq (a := b) (by omega)]
    simp only [mem_cons, forall_eq_or_imp]
    exact ⟨trivial, by omega, by omega, by omega, nofun⟩
  | case3 a =>
    have := a.toNat_lt
    rw [ofSextets, ofNat_eq (a := a) (by omega)]
    simp only [mem_cons, forall_eq_or_imp]
    exact ⟨trivial, by omega, by omega, nofun⟩
  | case4 => exact ⟨rfl, nofun⟩

def base64urlChars : List Char :=
  "ABCDEFGHIJKLMNOPQRSTUVWXYZabcdefghijklmnopqrstuvwxyz0123456789-_".toList

/-- The value of a character in both alphabets of `base64`. -/
def sextet (c : Char) : Option Nat :=
  if c = '+' then some 62 else if c = '/' then some 63
  else base64urlChars.idxOf? c

/-- `Buffer.from(bytes).toString('base64url')`. -/
def toBase64url (bytes : List UInt8) : String :=
  String.ofList ((sextets bytes).map fun n => base64urlChars.getD n 'A')

/-- `Buffer.from(text, 'base64url')`, which passes over other characters. -/
def ofBase64url (text : String) : List UInt8 := ofSextets (text.toList.filterMap sextet)

theorem ofBase64url_toBase64url (bytes : List UInt8) : ofBase64url (toBase64url bytes) = bytes := by
  have hv : ∀ n < 64, sextet (base64urlChars.getD n 'A') = some n := by decide +kernel
  rw [ofBase64url, toBase64url, String.toList_ofList, filterMap_map]
  have hf : (sextets bytes).filterMap (sextet ∘ fun n => base64urlChars.getD n 'A') =
      sextets bytes := by
    conv_rhs => rw [← filterMap_some (l := sextets bytes)]
    exact filterMap_congr fun n hn => hv n ((ofSextets_sextets bytes).2 n hn)
  rw [hf, (ofSextets_sextets bytes).1]

/-- `Buffer.from(bytes).toString('utf8')`; `malformed` is the text of bytes that are no UTF-8. -/
def toUtf8 (malformed : List UInt8 → String) (bytes : List UInt8) : String :=
  match (toByteArray bytes).utf8Decode? with
  | some cs => String.ofList cs.toList
  | none => malformed bytes

theorem toUtf8_ofUtf8 (malformed : List UInt8 → String) (text : String) :
    toUtf8 malformed (ofUtf8 text) = text := by
  have h : (toByteArray (ofUtf8 text)).utf8Decode? = some text.toList.toArray :=
    utf8Decode?_utf8Encode
  rw [toUtf8, h]
  exact String.ofList_toList

theorem byte_mem_utf8EncodeChar {c : Char} {byte : UInt8} (hb : byte.toNat < 128)
    (h : byte ∈ String.utf8EncodeChar c) : c.toNat = byte.toNat := by
  have hl : ∀ n : Nat, 128 ≤ n → n < 256 → byte ≠ UInt8.ofNat n := by
    rintro n ha hh rfl
    rw [UInt8.toNat_ofNat_of_lt' (by simpa using hh)] at hb
    omega
  unfold String.utf8EncodeChar at h
  simp only at h
  split at h
  · next hs =>
    rw [mem_singleton.mp h, UInt8.toNat_ofNat_of_lt' (by
      simp only [UInt8.size]
      omega)]
    rfl
  · split at h
    · simp only [mem_cons, not_mem_nil, or_false] at h
      rcases h with h | h
      all_goals exact absurd h (hl _ (by omega) (by omega))
    · split at h
      · simp only [mem_cons, not_mem_nil, or_false] at h
        rcases h with h | h | h
        all_goals exact absurd h (hl _ (by omega) (by omega))
      · simp only [mem_cons, not_mem_nil, or_false] at h
        rcases h with h | h | h | h
        all_goals exact absurd h (hl _ (by omega) (by omega))

def colon : UInt8 := 58

theorem colon_notMem_ofUtf8 {text : String} (h : ':' ∉ text.toList) : colon ∉ ofUtf8 text := by
  intro hm
  obtain ⟨c, hc, hb⟩ := mem_flatMap.mp hm
  have ha := byte_mem_utf8EncodeChar (by decide) hb
  have hl : c = ':' := Char.toNat_inj.mp (ha.trans (by decide))
  exact h (hl ▸ hc)

theorem ofUtf8_colon : ofUtf8 ":" = [colon] := by decide

end Credence.Js.Buffer
