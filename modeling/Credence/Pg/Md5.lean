import Mathlib.Algebra.Group.Nat.Defs
import Mathlib.Data.List.Basic

/-! The function `md5` of PostgreSQL, and its first eight digits as a signed integer, `('x' ||
substr(md5(t), 1, 8))::bit(32)::int`. -/

namespace Credence.Pg

/-- The constants of the sixty-four operations: `floor (2 ^ 32 * |sin (i + 1)|)`. -/
def md5Constants : List (BitVec 32) := [
    0xd76aa478, 0xe8c7b756, 0x242070db, 0xc1bdceee, 0xf57c0faf, 0x4787c62a,
    0xa8304613, 0xfd469501, 0x698098d8, 0x8b44f7af, 0xffff5bb1, 0x895cd7be,
    0x6b901122, 0xfd987193, 0xa679438e, 0x49b40821, 0xf61e2562, 0xc040b340,
    0x265e5a51, 0xe9b6c7aa, 0xd62f105d, 0x02441453, 0xd8a1e681, 0xe7d3fbc8,
    0x21e1cde6, 0xc33707d6, 0xf4d50d87, 0x455a14ed, 0xa9e3e905, 0xfcefa3f8,
    0x676f02d9, 0x8d2a4c8a, 0xfffa3942, 0x8771f681, 0x6d9d6122, 0xfde5380c,
    0xa4beea44, 0x4bdecfa9, 0xf6bb4b60, 0xbebfbc70, 0x289b7ec6, 0xeaa127fa,
    0xd4ef3085, 0x04881d05, 0xd9d4d039, 0xe6db99e5, 0x1fa27cf8, 0xc4ac5665,
    0xf4292244, 0x432aff97, 0xab9423a7, 0xfc93a039, 0x655b59c3, 0x8f0ccc92,
    0xffeff47d, 0x85845dd1, 0x6fa87e4f, 0xfe2ce6e0, 0xa3014314, 0x4e0811a1,
    0xf7537e82, 0xbd3af235, 0x2ad7d2bb, 0xeb86d391]

def md5Shifts : List (List Nat) :=
  [[7, 12, 17, 22], [5, 9, 14, 20], [4, 11, 16, 23], [6, 10, 15, 21]]

structure Md5State where
  a : BitVec 32
  b : BitVec 32
  c : BitVec 32
  d : BitVec 32

def md5Start : Md5State := ⟨0x67452301, 0xefcdab89, 0x98badcfe, 0x10325476⟩

def littleEndian (count n : Nat) : List Nat := (List.range count).map fun i => n / 256 ^ i % 256

def md5Pad (message : List Nat) : List Nat :=
  message ++ [128] ++ List.replicate ((119 - message.length % 64) % 64) 0 ++
    littleEndian 8 (8 * message.length % 2 ^ 64)

def md5Word (block : List Nat) (i : Nat) : BitVec 32 :=
  BitVec.ofNat 32 (block.getD (4 * i) 0 + 256 * block.getD (4 * i + 1) 0 +
    65536 * block.getD (4 * i + 2) 0 + 16777216 * block.getD (4 * i + 3) 0)

/-- Operation `i` on a block: the mixing function, the word of the block and the rotation are those
of its round. -/
def md5Operation (block : List Nat) (s : Md5State) (i : Nat) : Md5State :=
  let (f, g) : BitVec 32 × Nat :=
    match i / 16 with
    | 0 => ((s.b &&& s.c) ||| (~~~s.b &&& s.d), i)
    | 1 => ((s.d &&& s.b) ||| (~~~s.d &&& s.c), (5 * i + 1) % 16)
    | 2 => (s.b ^^^ s.c ^^^ s.d, (3 * i + 5) % 16)
    | _ => (s.c ^^^ (s.b ||| ~~~s.d), 7 * i % 16)
  let sum := f + s.a + md5Constants.getD i 0 + md5Word block g
  ⟨s.d, s.b + sum.rotateLeft ((md5Shifts.getD (i / 16) []).getD (i % 4) 0), s.b, s.c⟩

def md5Block (s : Md5State) (block : List Nat) : Md5State :=
  let t := (List.range 64).foldl (md5Operation block) s
  ⟨s.a + t.a, s.b + t.b, s.c + t.c, s.d + t.d⟩

def md5Chain (message : List Nat) : Md5State :=
  let padded := md5Pad message
  (List.range (padded.length / 64)).foldl
    (fun s i => md5Block s ((padded.drop (64 * i)).take 64)) md5Start

def md5 (text : String) : List Nat :=
  let s := md5Chain (text.toUTF8.toList.map UInt8.toNat)
  [s.a, s.b, s.c, s.d].flatMap fun word => littleEndian 4 word.toNat

/-- The first thirty-two bits of a digest: its first eight hexadecimal digits. -/
def digestHead (digest : List Nat) : BitVec 32 :=
  BitVec.ofNat 32 ((digest.take 4).foldl (fun n byte => 256 * n + byte) 0)

end Credence.Pg
