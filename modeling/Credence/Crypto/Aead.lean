import Mathlib.Data.List.Basic

/-! Authenticated encryption of texts, as an interface: what was encrypted is decrypted with the
same key, initialisation vector and tag, and nothing else is. -/

namespace Credence.Crypto

open List

structure Sealed where
  ciphertext : List UInt8
  tag : List UInt8
  deriving DecidableEq

structure Aead where
  encrypt (key iv : List UInt8) (text : String) : Sealed
  decrypt (key iv : List UInt8) (c : Sealed) : Option String
  decrypt_eq_some {key iv : List UInt8} {c : Sealed} {text : String} :
    decrypt key iv c = some text ↔ encrypt key iv text = c
  encrypt_inj {key iv key' iv' : List UInt8} {text text' : String} :
    encrypt key iv text = encrypt key' iv' text' → key = key' ∧ iv = iv'

namespace Aead

variable (aead : Aead)

@[simp] theorem decrypt_encrypt (key iv : List UInt8) (text : String) :
    aead.decrypt key iv (aead.encrypt key iv text) = some text :=
  aead.decrypt_eq_some.mpr rfl

theorem decrypt_other {key key' : List UInt8} (h : key' ≠ key) (iv iv' : List UInt8)
    (text : String) : aead.decrypt key' iv' (aead.encrypt key iv text) = none := by
  cases hd : aead.decrypt key' iv' (aead.encrypt key iv text) with
  | none => rfl
  | some => exact absurd (aead.encrypt_inj (aead.decrypt_eq_some.mp hd)).1 h

end Aead

namespace Transparent

def bytesOfChar (c : Char) : List UInt8 :=
  [UInt8.ofNat (c.toNat / 65536), UInt8.ofNat (c.toNat / 256), UInt8.ofNat c.toNat]

def charsOfBytes : List UInt8 → List Char
  | a :: b :: c :: bytes =>
    Char.ofNat (a.toNat * 65536 + b.toNat * 256 + c.toNat) :: charsOfBytes bytes
  | _ => []

theorem charsOfBytes_bytesOfChar (cs : List Char) : charsOfBytes (cs.flatMap bytesOfChar) = cs := by
  induction cs with
  | nil => rfl
  | cons c cs ih =>
    have hm : c.toNat < 1114112 := by
      have hv := c.valid
      rw [UInt32.isValidChar, Nat.isValidChar] at hv
      change c.toNat < 55296 ∨ 57343 < c.toNat ∧ c.toNat < 1114112 at hv
      omega
    have hs : c.toNat / 65536 % 256 * 65536 + c.toNat / 256 % 256 * 256 + c.toNat % 256
        = c.toNat := by omega
    simp only [flatMap_cons, bytesOfChar, cons_append, nil_append, charsOfBytes, ih,
      UInt8.toNat_ofNat', hs, Char.ofNat_toNat]

/-- The length of the key in unary, the key and the vector. -/
def tag (key iv : List UInt8) : List UInt8 := key.map (fun _ => 1) ++ 0 :: (key ++ iv)

theorem tag_inj : ∀ {key key' iv iv' : List UInt8}, tag key iv = tag key' iv' →
    key = key' ∧ iv = iv' := by
  intro key key' iv iv' h
  have hs : key.length = key'.length := by
    have ht := congrArg (takeWhile (· ≠ 0)) h
    simpa [tag, takeWhile_append] using congrArg length ht
  have ha := (append_inj h (by simpa using hs)).2
  exact append_inj (cons.inj ha).2 hs

def encrypt (key iv : List UInt8) (text : String) : Sealed :=
  ⟨text.toList.flatMap bytesOfChar, tag key iv⟩

def decrypt (key iv : List UInt8) (c : Sealed) : Option String :=
  let text := String.ofList (charsOfBytes c.ciphertext)
  if encrypt key iv text = c then some text else none

end Transparent

def transparent : Aead where
  encrypt := Transparent.encrypt
  decrypt := Transparent.decrypt
  decrypt_eq_some := by
    intro key iv c text
    constructor
    · intro h
      rw [Transparent.decrypt] at h
      split at h <;> cases h
      assumption
    · rintro rfl
      simp [Transparent.decrypt, Transparent.encrypt, Transparent.charsOfBytes_bytesOfChar]
  encrypt_inj := fun h => Transparent.tag_inj (congrArg Sealed.tag h)

end Credence.Crypto
