import Credence.Crypto.Hmac
import Credence.Js.Map
import Credence.Js.Text

/-! Signed download links of `ReportStorageService`. A signature of the right length that is not
hexadecimal decodes to fewer bytes, and `timingSafeEqual` throws on it. -/

namespace Credence.Reports

open Js Js.Json Js.Buffer Crypto List Option

def payload (key : String) (expires : Int) : String := key ++ ":" ++ String.ofList (intText expires)

variable (hmac : Hmac) (service : ReportStorage)

abbrev IsHex (cs : List Char) : Prop := ∀ c ∈ cs, (hexValue c).isSome = true

/-- The two texts have the same hexadecimal digits, in either case. -/
def SameHex (a b : String) : Prop := a.toList.map hexValue = b.toList.map hexValue

instance (a b : String) : Decidable (SameHex a b) := inferInstanceAs (Decidable (_ = _))

variable {hmac service} {cs : List Char} {bytes : List UInt8} {key signature : String}
  {now expires : Int} {artifactStore : List (String × List UInt8)}

theorem hexValue_some {c : Char} {v : Nat} (h : hexValue c = some v) : v < 16 ∧ c.toNat < 128 := by
  simp only [hexValue, Char.isDigit, Bool.and_eq_true, decide_eq_true_eq, Char.le_def,
    UInt32.le_iff_toNat_le] at h
  split at h
  · next hd =>
    have hc : 48 ≤ c.toNat ∧ c.toNat ≤ 57 := hd
    cases h
    omega
  · split at h
    · next hd =>
      have hc : 97 ≤ c.toNat ∧ c.toNat ≤ 102 := hd
      cases h
      omega
    · obtain ⟨hd, hv⟩ := ite_none_right_eq_some.mp h
      have hc : 65 ≤ c.toNat ∧ c.toNat ≤ 70 := hd
      cases hv
      omega

theorem hexValue_hexChars (byte : UInt8) (bytes : List UInt8) :
    (hexChars (byte :: bytes)).map hexValue =
      some (byte.toNat / 16) :: some (byte.toNat % 16) :: (hexChars bytes).map hexValue := by
  have hb := byte.toNat_lt
  rw [hexChars, map_cons, map_cons, hexValue_hexDigit _ (by omega),
    hexValue_hexDigit _ (by omega)]

/-- Hexadecimal texts of one length decode to buffers of one length, which are equal when the digits
are the same. -/
theorem bytesOfHex_eq_iff (hc : IsHex cs) (hl : cs.length = (hexChars bytes).length) :
    (bytesOfHex cs).length = bytes.length ∧
      (bytesOfHex cs = bytes ↔ cs.map hexValue = (hexChars bytes).map hexValue) := by
  induction bytes generalizing cs with
  | nil =>
    obtain rfl := eq_nil_of_length_eq_zero hl
    simp [bytesOfHex, hexChars]
  | cons byte bytes ih =>
    rcases cs with _ | ⟨high, _ | ⟨low, cs⟩⟩
    · simp [hexChars] at hl
    · simp [hexChars] at hl
    simp only [IsHex, forall_mem_cons] at hc
    obtain ⟨hh, hw, hc⟩ := hc
    obtain ⟨a, ha⟩ := isSome_iff_exists.mp hh
    obtain ⟨b, hb⟩ := isSome_iff_exists.mp hw
    obtain ⟨hn, he⟩ := ih hc (by simpa [hexChars] using hl)
    have hbyte : UInt8.ofNat (16 * a + b) = byte ↔ a = byte.toNat / 16 ∧ b = byte.toNat % 16 := by
      have h1 := (hexValue_some ha).1
      have h2 := (hexValue_some hb).1
      rw [← UInt8.toNat_inj, UInt8.toNat_ofNat']
      omega
    rw [hexValue_hexChars]
    simp only [bytesOfHex, ha, hb, length_cons, hn, cons.injEq, hbyte, he,
      map_cons, Option.some.injEq, and_assoc, true_and]

theorem hex_toHex (bytes : List UInt8) : IsHex (toHex bytes).toList := by
  rw [toHex, String.toList_ofList]
  induction bytes with
  | nil => simp [hexChars, IsHex]
  | cons byte bytes ih =>
    have hm := hexValue_hexChars byte bytes
    simp only [hexChars, map_cons, cons.injEq] at hm
    simp only [hexChars, IsHex, forall_mem_cons, hm.1, hm.2.1]
    exact ⟨rfl, rfl, ih⟩

theorem SameHex.hex (h : SameHex signature (toHex bytes)) : IsHex signature.toList := by
  intro c hc
  have hm := mem_map_of_mem (f := hexValue) hc
  rw [h] at hm
  obtain ⟨d, hd, he⟩ := mem_map.mp hm
  rw [← he]
  exact hex_toHex bytes d hd

theorem SameHex.length (h : SameHex signature (toHex bytes)) :
    signature.toList.length = (toHex bytes).toList.length := by
  simpa using congrArg List.length h

theorem SameHex.decodes (h : SameHex signature (toHex bytes)) : ofHex signature = bytes := by
  have hl := h.length
  unfold SameHex at h
  rw [toHex, String.toList_ofList] at h hl
  exact ((bytesOfHex_eq_iff (SameHex.hex (by simpa [SameHex, toHex] using h)) hl).2).mpr h

end Credence.Reports
