import Credence.Js.Buffer

/-! Keyed digests, as an interface in place of HMAC-SHA-256: injective under each key, and
unforgeable. -/

namespace Credence.Crypto

open Js

structure Hmac where
  digest : String → List UInt8 → List UInt8

def Hmac.Injective (hmac : Hmac) (key : String) : Prop := Function.Injective (hmac.digest key)

/-- What is presented and is a digest under the key is the digest of a text that has been signed. -/
def Hmac.Unforgeable (hmac : Hmac) (key : String) (signed presented : Set (List UInt8)) : Prop :=
  ∀ digest ∈ presented, ∀ data, digest = hmac.digest key data →
    ∃ text ∈ signed, digest = hmac.digest key text

theorem Hmac.Unforgeable.signed {hmac : Hmac} {key : String} {signed presented : Set (List UInt8)}
    (h : hmac.Unforgeable key signed presented) (hi : hmac.Injective key)
    {data : List UInt8} (hm : hmac.digest key data ∈ presented) : data ∈ signed := by
  obtain ⟨text, ht, hd⟩ := h _ hm data rfl
  rw [hi hd]
  exact ht

def openHmac : Hmac := ⟨fun key data => Buffer.ofUtf8 key ++ data⟩

end Credence.Crypto
