import Credence.Js.Text
import Mathlib.Data.Int.Bitwise

/-! `checkHostBlocked` and `checkHostnameBlocked`. The parser of URLs and the tests `isIPv4` and
`isIPv6` are parameters. -/

namespace Credence.Lib.SsrfProtection

open Js

structure Ipv4 where
  a : UInt8
  b : UInt8
  c : UInt8
  d : UInt8
  deriving DecidableEq

structure Ipv6 where
  pieces : List UInt16
  length_pieces : pieces.length = 8
  deriving DecidableEq

def Ipv4.toNat (ip : Ipv4) : Nat :=
  ((ip.a.toNat * 256 + ip.b.toNat) * 256 + ip.c.toNat) * 256 + ip.d.toNat

def Ipv6.toNat (ip : Ipv6) : Nat :=
  ip.pieces.foldl (fun value piece => value * 65536 + piece.toNat) 0

def join (separator : Char) (texts : List (List Char)) : List Char := [separator].intercalate texts

def Ipv4.text (ip : Ipv4) : List Char :=
  join '.' ([ip.a, ip.b, ip.c, ip.d].map fun octet => Nat.toDigits 10 octet.toNat)

/-- The pieces before and after the first of the longest runs of two or more zeros. -/
def compress : List UInt16 → Option (List UInt16 × Nat × List UInt16)
  | [] => none
  | piece :: pieces =>
    let zeros := (piece :: pieces).takeWhile (· = 0)
    let later := (compress pieces).map fun (left, count, right) => (piece :: left, count, right)
    if 2 ≤ zeros.length ∧ later.all fun found => found.2.1 ≤ zeros.length then
      some ([], zeros.length, (piece :: pieces).drop zeros.length)
    else later

def pieceTexts (pieces : List UInt16) : List (List Char) :=
  pieces.map fun piece => Nat.toDigits 16 piece.toNat

def Ipv6.text (ip : Ipv6) : List Char :=
  match compress ip.pieces with
  | some (left, _, right) => join ':' (pieceTexts left) ++ ':' :: ':' :: join ':' (pieceTexts right)
  | none => join ':' (pieceTexts ip.pieces)

inductive Address where
  | v4 (ip : Ipv4)
  | v6 (ip : Ipv6)
  deriving DecidableEq

inductive Host where
  | address (address : Address)
  | domain (name : List Char)
  deriving DecidableEq

def Host.hostname : Host → List Char
  | .address (.v4 ip) => ip.text
  | .address (.v6 ip) => '[' :: ip.text ++ [']']
  | .domain name => name

/-- `new URL` up to the host, and the tests of `node:net`. -/
structure Platform where
  parse : String → Option Host
  isIPv4 : List Char → Bool
  isIPv6 : List Char → Bool
  isIPv4_text : ∀ ip : Ipv4, isIPv4 ip.text = true
  isIPv4_bracket : ∀ text, isIPv4 ('[' :: text) = false
  isIPv6_bracket : ∀ text, isIPv6 ('[' :: text) = false

def PRIVATE_IPV4_RANGES : List (Nat × Nat) :=
  [(0x00000000, 0x00ffffff), (0x0a000000, 0x0affffff), (0x7f000000, 0x7fffffff),
    (0xa9fe0000, 0xa9feffff), (0xac100000, 0xac1fffff), (0xc0a80000, 0xc0a8ffff),
    (0xe0000000, 0xefffffff), (0xf0000000, 0xffffffff)]

def PRIVATE_IPV6_RANGES : List (Nat × Nat) :=
  [(0x00000000000000000000000000000000, 0x00000000000000000000000000000001),
    (0x00000000000000000000000000000001, 0x00000000000000000000000000000001),
    (0xfe800000000000000000000000000000, 0xfebfffffffffffffffffffffffffffff),
    (0xfc000000000000000000000000000000, 0xfdffffffffffffffffffffffffffffff)]

def IPV4_MAPPED_PREFIX : Int := 0x00000000000000000000ffff00000000

def IPV4_MAPPED_MASK : Int := 0x00000000000000000000ffffffffffff

def inRanges (ranges : List (Nat × Nat)) (value : Int) : Bool :=
  ranges.any fun range => range.1 ≤ value ∧ value ≤ range.2

/-- `parseInt(octet, 10) & 0xff`; what is not a number is zero. -/
def octetOf (octets : List (List Char)) (index : Nat) : BitVec 32 :=
  BitVec.ofInt 32 (((octets[index]?).bind parseInt).getD 0) &&& 0xff

def ipv4ToNumber (addr : List Char) : Nat :=
  let octets := addr.splitOn '.'
  (octetOf octets 0 <<< 24 ||| octetOf octets 1 <<< 16 ||| octetOf octets 2 <<< 8 |||
    octetOf octets 3).toNat

def hexDigitValue (c : Char) : Option Nat :=
  if c.isDigit then some (c.toNat - 48)
  else if 'a' ≤ c ∧ c ≤ 'f' then some (c.toNat - 87)
  else if 'A' ≤ c ∧ c ≤ 'F' then some (c.toNat - 55)
  else none

/-- `parseInt(text, 16)`; `none` is `NaN`. -/
def parseIntHex (cs : List Char) : Option Int :=
  let body := cs.dropWhile isWhiteSpace
  let signed := body.head? = some '-' ∨ body.head? = some '+'
  let rest := if signed then body.tail else body
  let rest := match rest with
    | '0' :: x :: digits => if x = 'x' ∨ x = 'X' then digits else rest
    | _ => rest
  let digits := rest.takeWhile fun c => (hexDigitValue c).isSome
  if digits = [] then none
  else
    let magnitude : Int := (digits.filterMap hexDigitValue).foldl (fun n digit => 16 * n + digit) 0
    some (if body.head? = some '-' then -magnitude else magnitude)

/-- The test `/:(\d+\.\d+\.\d+\.\d+)$/`, with what it captures. -/
def ipv4SuffixMatch (addr : List Char) : Option (List Char) :=
  let groups := addr.splitOn ':'
  let last := groups.getLastD []
  let octets := last.splitOn '.'
  if 2 ≤ groups.length ∧ octets.length = 4 ∧
      octets.all fun octet => !octet.isEmpty && octet.all Char.isDigit then
    some last
  else none

/-- `split('::')`. -/
def splitDouble : List Char → List (List Char)
  | ':' :: ':' :: cs => [] :: splitDouble cs
  | c :: cs =>
    match splitDouble cs with
    | [] => [[c]]
    | part :: parts => (c :: part) :: parts
  | [] => [[]]

/-- `split(':').filter(Boolean)` of a part, where there is one. -/
def groupsOf (part : Option (List Char)) : List (List Char) :=
  ((part.getD []).splitOn ':').filter fun group => !group.isEmpty

/-- `none` where `Array(missing)` throws. -/
def expandIPv6 (addr : List Char) : Option (List Char) :=
  let ipv4Suffix := ipv4SuffixMatch addr
  let addrWithoutIpv4 := match ipv4Suffix with
    | some suffix => addr.take (addr.length - (suffix.length + 1))
    | none => addr
  let parts := splitDouble addrWithoutIpv4
  if 2 ≤ parts.length then
    let left := groupsOf parts[0]?
    let right := groupsOf parts[1]?
    let totalGroups := left.length + right.length + ipv4Suffix.toList.length
    if 8 < totalGroups then none
    else some (join ':' (left ++ List.replicate (8 - totalGroups) ['0'] ++ right ++
      ipv4Suffix.toList))
  else some addr

/-- `none` where `BigInt(NaN)` or `expandIPv6` throws. -/
def ipv6ToBigInt (addr : List Char) : Option Int := do
  let expanded ← expandIPv6 addr
  (expanded.splitOn ':').foldlM (fun result part => do
    let value ← parseIntHex (if part.isEmpty then ['0'] else part)
    return Int.lor (result * 65536) value) 0

def isPrivateIPv4 (addr : List Char) : Bool := inRanges PRIVATE_IPV4_RANGES (ipv4ToNumber addr)

def isPrivateIPv6 (addr : List Char) : Option Bool := do
  let big ← ipv6ToBigInt addr
  return inRanges PRIVATE_IPV6_RANGES big ||
    Int.land big IPV4_MAPPED_MASK == IPV4_MAPPED_PREFIX &&
      inRanges PRIVATE_IPV4_RANGES (Int.land big 0xffffffff)

def BLOCKED_HOSTNAMES : List (List Char) :=
  ["localhost", "localhost.localdomain", "instance-data", "instance-data.ec2.internal",
    "instance-data.eu-west-1.compute.internal", "metadata.google.internal", "metadata"].map
    String.toList

def BLOCKED_HOSTNAME_SUFFIXES : List (List Char) :=
  [".local", ".internal", ".localhost", ".ec2.internal", ".compute.internal",
    ".compute.amazonaws.com"].map String.toList

inductive Reason where
  | privateIpv4
  | privateIpv6
  | blockedHostname
  | blockedSuffix
  deriving DecidableEq

inductive BlockedHostResult where
  | allowed
  | blocked (reason : Reason) (host : List Char)
  deriving DecidableEq

def BlockedHostResult.isBlocked : BlockedHostResult → Bool
  | .allowed => false
  | .blocked _ _ => true

def blockedIf (test : Bool) (reason : Reason) (host : List Char) : BlockedHostResult :=
  if test then .blocked reason host else .allowed

def toLowerCase (text : List Char) : List Char := text.map Char.toLower

/-- What the two checks share: they differ in the text that is tested for an IPv6 address. -/
def checkHost (platform : Platform) (hostname forIPv6 : List Char) : Option BlockedHostResult :=
  if hostname ∈ BLOCKED_HOSTNAMES then some (.blocked .blockedHostname hostname)
  else if BLOCKED_HOSTNAME_SUFFIXES.any fun suffix => suffix.isSuffixOf hostname then
    some (.blocked .blockedSuffix hostname)
  else if platform.isIPv4 hostname then
    some (blockedIf (isPrivateIPv4 hostname) .privateIpv4 hostname)
  else if platform.isIPv6 forIPv6 then
    (isPrivateIPv6 forIPv6).map fun isPrivate => blockedIf isPrivate .privateIpv6 hostname
  else some .allowed

/-- `none` where the check throws. -/
def checkHostBlocked (platform : Platform) (url : String) : Option BlockedHostResult :=
  match platform.parse url with
  | none => some .allowed
  | some host =>
    let hostname := toLowerCase host.hostname
    checkHost platform hostname hostname

def checkHostnameBlocked (platform : Platform) (hostname : List Char) : Option BlockedHostResult :=
  let lower := toLowerCase hostname
  let lowerForIPv6 :=
    if lower.head? = some '[' ∧ lower.getLast? = some ']' then lower.tail.dropLast else lower
  checkHost platform lower lowerForIPv6

end Credence.Lib.SsrfProtection
