import Mathlib.Algebra.Group.Nat.Defs
import Mathlib.Data.List.Basic

/-! SHA-256 with a hexadecimal digest, over the UTF-8 bytes of a text, and the interface that the
proofs about hash chains use in its place. -/

namespace Credence.Crypto

open List

def roundConstants : List (BitVec 32) := [
    0x428a2f98, 0x71374491, 0xb5c0fbcf, 0xe9b5dba5, 0x3956c25b, 0x59f111f1,
    0x923f82a4, 0xab1c5ed5, 0xd807aa98, 0x12835b01, 0x243185be, 0x550c7dc3,
    0x72be5d74, 0x80deb1fe, 0x9bdc06a7, 0xc19bf174, 0xe49b69c1, 0xefbe4786,
    0x0fc19dc6, 0x240ca1cc, 0x2de92c6f, 0x4a7484aa, 0x5cb0a9dc, 0x76f988da,
    0x983e5152, 0xa831c66d, 0xb00327c8, 0xbf597fc7, 0xc6e00bf3, 0xd5a79147,
    0x06ca6351, 0x14292967, 0x27b70a85, 0x2e1b2138, 0x4d2c6dfc, 0x53380d13,
    0x650a7354, 0x766a0abb, 0x81c2c92e, 0x92722c85, 0xa2bfe8a1, 0xa81a664b,
    0xc24b8b70, 0xc76c51a3, 0xd192e819, 0xd6990624, 0xf40e3585, 0x106aa070,
    0x19a4c116, 0x1e376c08, 0x2748774c, 0x34b0bcb5, 0x391c0cb3, 0x4ed8aa4a,
    0x5b9cca4f, 0x682e6ff3, 0x748f82ee, 0x78a5636f, 0x84c87814, 0x8cc70208,
    0x90befffa, 0xa4506ceb, 0xbef9a3f7, 0xc67178f2]

structure ShaState where
  a : BitVec 32
  b : BitVec 32
  c : BitVec 32
  d : BitVec 32
  e : BitVec 32
  f : BitVec 32
  g : BitVec 32
  h : BitVec 32

namespace ShaState

def start : ShaState :=
  ⟨0x6a09e667, 0xbb67ae85, 0x3c6ef372, 0xa54ff53a, 0x510e527f, 0x9b05688c, 0x1f83d9ab, 0x5be0cd19⟩

def words (s : ShaState) : List (BitVec 32) := [s.a, s.b, s.c, s.d, s.e, s.f, s.g, s.h]

def add (s t : ShaState) : ShaState :=
  ⟨s.a + t.a, s.b + t.b, s.c + t.c, s.d + t.d, s.e + t.e, s.f + t.f, s.g + t.g, s.h + t.h⟩

def round (s : ShaState) (input : BitVec 32) : ShaState :=
  let sum1 := s.e.rotateRight 6 ^^^ s.e.rotateRight 11 ^^^ s.e.rotateRight 25
  let choice := (s.e &&& s.f) ^^^ (~~~s.e &&& s.g)
  let temp1 := s.h + sum1 + choice + input
  let sum0 := s.a.rotateRight 2 ^^^ s.a.rotateRight 13 ^^^ s.a.rotateRight 22
  let majority := (s.a &&& s.b) ^^^ (s.a &&& s.c) ^^^ (s.b &&& s.c)
  ⟨temp1 + (sum0 + majority), s.a, s.b, s.c, s.d + temp1, s.e, s.f, s.g⟩

end ShaState

def bigEndian (count n : Nat) : List Nat :=
  (range count).map fun i => n / 256 ^ (count - 1 - i) % 256

def pad (message : List Nat) : List Nat :=
  message ++ [128] ++ replicate ((119 - message.length % 64) % 64) 0 ++
    bigEndian 8 (8 * message.length % 2 ^ 64)

def word (block : List Nat) (i : Nat) : BitVec 32 :=
  BitVec.ofNat 32 (((block.drop (4 * i)).take 4).foldl (fun n byte => 256 * n + byte) 0)

def nextWord (window : List (BitVec 32)) : BitVec 32 :=
  let w15 := window.getD 1 0
  let w2 := window.getD 14 0
  let s0 := w15.rotateRight 7 ^^^ w15.rotateRight 18 ^^^ w15 >>> 3
  let s1 := w2.rotateRight 17 ^^^ w2.rotateRight 19 ^^^ w2 >>> 10
  window.getD 0 0 + s0 + window.getD 9 0 + s1

def rounds : List (BitVec 32) → List (BitVec 32) → ShaState → ShaState
  | [], _, s => s
  | constant :: constants, window, s =>
    rounds constants (window.tail ++ [nextWord window]) (s.round (constant + window.getD 0 0))

def compress (s : ShaState) (block : List Nat) : ShaState :=
  s.add (rounds roundConstants ((range 16).map (word block)) s)

def hexDigit (n : Nat) : Char := if n < 10 then Char.ofNat (48 + n) else Char.ofNat (87 + n)

def hexWord (w : BitVec 32) : List Char :=
  (range 8).map fun i => hexDigit (w.toNat / 16 ^ (7 - i) % 16)

def sha256 (text : String) : String :=
  let padded := pad (text.toUTF8.toList.map UInt8.toNat)
  let last := (range (padded.length / 64)).foldl
    (fun s i => compress s ((padded.drop (64 * i)).take 64)) .start
  String.ofList (last.words.flatMap hexWord)

/-- A hash function with texts for digests. SHA-256 is one; an assumption that no two texts collide
is made of any such function, not of SHA-256. -/
structure TextHash where
  digest : String → String
  digest_ne : ∀ text, digest text ≠ ""

theorem sha256_ne (text : String) : sha256 text ≠ "" := by
  intro h
  have hl := congrArg (fun s => s.toList.length) h
  simp [sha256, ShaState.words, hexWord] at hl

def sha256Hash : TextHash := ⟨sha256, sha256_ne⟩

theorem mark_notMem_hexWord (w : BitVec 32) : '#' ∉ hexWord w := by
  intro h
  obtain ⟨i, -, hd⟩ := mem_map.mp h
  have ha : ∀ n < 16, hexDigit n ≠ '#' := by decide
  exact ha _ (Nat.mod_lt _ (by omega)) hd

theorem sha256_ne_marked (text other : String) : sha256 text ≠ "#" ++ other := by
  intro h
  have hm : '#' ∈ (sha256 text).toList := by
    rw [h]
    simp
  rw [sha256, String.toList_ofList] at hm
  obtain ⟨w, -, hd⟩ := mem_flatMap.mp hm
  exact mark_notMem_hexWord w hd

/-- SHA-256 on the given texts, and the text itself behind a mark elsewhere. -/
def sha256On (texts : List String) : TextHash :=
  ⟨fun text => if text ∈ texts then sha256 text else "#" ++ text, fun text => by
    split
    · exact sha256_ne text
    · simp⟩

/-- Where SHA-256 has no collision among the given texts, there is none at all. -/
theorem sha256On_injective {texts : List String}
    (h : ∀ a ∈ texts, ∀ b ∈ texts, sha256 a = sha256 b → a = b) :
    Function.Injective (sha256On texts).digest := by
  intro a b hd
  simp only [sha256On] at hd
  split at hd
  · rename_i hA
    split at hd
    · rename_i hB
      exact h a hA b hB hd
    · exact absurd hd (sha256_ne_marked a b)
  · split at hd
    · exact absurd hd.symm (sha256_ne_marked b a)
    · exact (String.append_right_inj "#").mp hd

end Credence.Crypto
