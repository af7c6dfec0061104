import Credence.Lib.SsrfProtection

/-! Which addresses `checkHostBlocked` blocks. `hostname` keeps the brackets of an IPv6 address, so
the test for IPv6 addresses never sees one. -/

namespace Credence.Lib.SsrfProtection

open Js List

theorem getLast_isAlpha_of_mem_names {name : List Char}
    (hn : name ∈ BLOCKED_HOSTNAMES ++ BLOCKED_HOSTNAME_SUFFIXES) :
    ∃ c, name.getLast? = some c ∧ c.isAlpha = true := by
  have ha : ∀ name ∈ BLOCKED_HOSTNAMES ++ BLOCKED_HOSTNAME_SUFFIXES,
      name.getLast?.any Char.isAlpha = true := by
    decide
  simpa [Option.any_eq_true] using ha name hn

variable {c : Char} {platform : Platform} {url : String}

theorem checkHost_of_getLast (platform : Platform) {hostname forIPv6 : List Char}
    (hl : hostname.getLast? = some c) (ha : c.isAlpha = false) :
    checkHost platform hostname forIPv6 = if platform.isIPv4 hostname then
        some (blockedIf (isPrivateIPv4 hostname) .privateIpv4 hostname)
      else if platform.isIPv6 forIPv6 then
        (isPrivateIPv6 forIPv6).map fun isPrivate => blockedIf isPrivate .privateIpv6 hostname
      else some .allowed := by
  have hb {name : List Char}
      (hn : name ∈ BLOCKED_HOSTNAMES ++ BLOCKED_HOSTNAME_SUFFIXES) : ¬ name <:+ hostname := by
    rintro ⟨before, rfl⟩
    obtain ⟨letter, hle, hi⟩ := getLast_isAlpha_of_mem_names hn
    rw [getLast?_append, hle, Option.some_or, Option.some.injEq] at hl
    rw [← hl, hi] at ha
    cases ha
  have hh : hostname ∉ BLOCKED_HOSTNAMES := fun hm =>
    hb (mem_append_left _ hm) suffix_rfl
  have hs : (BLOCKED_HOSTNAME_SUFFIXES.any fun suffix => suffix.isSuffixOf hostname) = false := by
    rw [any_eq_false]
    intro suffix hm hi
    exact hb (mem_append_right _ hm) (isSuffixOf_iff_suffix.mp hi)
  rw [checkHost, if_neg hh, hs, if_neg Bool.false_ne_true]

theorem dot_notMem_toDigits (n : Nat) : '.' ∉ Nat.toDigits 10 n := fun hm =>
  absurd (Nat.isDigit_of_mem_toDigits (by decide) (by decide) hm) (by decide)

theorem splitOn_ipv4Text (ip : Ipv4) : ip.text.splitOn '.' =
      [ip.a, ip.b, ip.c, ip.d].map fun octet => Nat.toDigits 10 octet.toNat := by
  apply splitOn_intercalate
  · intro text hm
    obtain ⟨octet, -, rfl⟩ := mem_map.mp hm
    exact dot_notMem_toDigits _
  · simp

theorem octetOf_of_getElem? {octets : List (List Char)} {index : Nat} (octet : UInt8)
    (ho : octets[index]? = some (Nat.toDigits 10 octet.toNat)) :
    octetOf octets index = BitVec.ofNat 32 octet.toNat := by
  have hl : octet.toNat < 2 ^ 8 := octet.toNat_lt
  rw [octetOf, ho, Option.bind_some, parseInt_toDigits, Option.getD_some, BitVec.ofInt_natCast]
  apply BitVec.eq_of_toNat_eq
  rw [BitVec.toNat_and, BitVec.toNat_ofNat, Nat.mod_eq_of_lt (by omega)]
  exact Nat.and_two_pow_sub_one_of_lt_two_pow hl

theorem toNat_shiftLeft_or (octet : UInt8) {shift : Nat} {low : BitVec 32}
    (hs : shift ≤ 24) (hl : low.toNat < 2 ^ shift) :
    (BitVec.ofNat 32 octet.toNat <<< shift ||| low).toNat =
      octet.toNat * 2 ^ shift + low.toNat := by
  have hLt : octet.toNat < 2 ^ 8 := octet.toNat_lt
  have hf : octet.toNat * 2 ^ shift < 2 ^ 32 := by
    calc octet.toNat * 2 ^ shift
        < 2 ^ 8 * 2 ^ shift := Nat.mul_lt_mul_of_pos_right hLt (Nat.two_pow_pos _)
      _ ≤ 2 ^ 8 * 2 ^ 24 := Nat.mul_le_mul_left _ (Nat.pow_le_pow_right (by decide) hs)
      _ = 2 ^ 32 := by decide
  have ho : octet.toNat % 2 ^ 32 = octet.toNat := Nat.mod_eq_of_lt (by omega)
  rw [BitVec.toNat_or, BitVec.toNat_shiftLeft, BitVec.toNat_ofNat, ho, Nat.shiftLeft_eq,
    Nat.mod_eq_of_lt hf, Nat.mul_comm, Nat.two_pow_add_eq_or_of_lt hl]

theorem ipv4ToNumber_text (ip : Ipv4) : ipv4ToNumber ip.text = ip.toNat := by
  have hb : ip.b.toNat < 256 := ip.b.toNat_lt
  have hc : ip.c.toNat < 256 := ip.c.toNat_lt
  have hd : ip.d.toNat < 256 := ip.d.toNat_lt
  have hl : (BitVec.ofNat 32 ip.d.toNat).toNat = ip.d.toNat := by
    rw [BitVec.toNat_ofNat, Nat.mod_eq_of_lt (by omega)]
  have ht := toNat_shiftLeft_or ip.c (show 8 ≤ 24 by decide) (hl ▸ hd)
  have hh := toNat_shiftLeft_or ip.b (show 16 ≤ 24 by decide) (by rw [ht, hl]; omega)
  have hf := toNat_shiftLeft_or ip.a (show 24 ≤ 24 by decide)
    (by rw [hh, ht, hl]; omega)
  simp only [ipv4ToNumber, splitOn_ipv4Text]
  rw [octetOf_of_getElem? ip.a rfl, octetOf_of_getElem? ip.b rfl, octetOf_of_getElem? ip.c rfl,
    octetOf_of_getElem? ip.d rfl, BitVec.or_assoc, BitVec.or_assoc, hf, hh, ht, hl, Ipv4.toNat]
  omega

theorem ipv4Text_eq (ip : Ipv4) :
    ip.text = Nat.toDigits 10 ip.a.toNat ++ '.' :: (Nat.toDigits 10 ip.b.toNat ++
      '.' :: (Nat.toDigits 10 ip.c.toNat ++ '.' :: Nat.toDigits 10 ip.d.toNat)) := by
  simp [Ipv4.text, join, intercalate]

theorem isDigit_toDigits {n : Nat} (hm : c ∈ Nat.toDigits 10 n) : c.isDigit = true :=
  Nat.isDigit_of_mem_toDigits (by decide) (by decide) hm

theorem ipv4Text_chars {ip : Ipv4} (hm : c ∈ ip.text) : c.isDigit = true ∨ c = '.' := by
  simp only [ipv4Text_eq, mem_append, mem_cons] at hm
  rcases hm with hm | rfl | hm | rfl | hm | rfl | hm
  · exact .inl (isDigit_toDigits hm)
  · exact .inr rfl
  · exact .inl (isDigit_toDigits hm)
  · exact .inr rfl
  · exact .inl (isDigit_toDigits hm)
  · exact .inr rfl
  · exact .inl (isDigit_toDigits hm)

theorem letter_range (h : c.isAlpha = true) :
    65 ≤ c.toNat ∧ c.toNat ≤ 90 ∨ 97 ≤ c.toNat ∧ c.toNat ≤ 122 := by
  delta Char.isAlpha Char.isUpper Char.isLower at h
  simp only [Bool.or_eq_true, Bool.and_eq_true, decide_eq_true_eq, UInt32.le_iff_toNat_le] at h
  exact h

theorem toLower_of_not_upper (h : ¬ (65 ≤ c.toNat ∧ c.toNat ≤ 90)) : c.toLower = c := by
  refine dif_neg ?_
  simp only [ge_iff_le, UInt32.le_iff_toNat_le]
  exact h

theorem ipv4Text_range {ip : Ipv4} (hm : c ∈ ip.text) : 46 ≤ c.toNat ∧ c.toNat ≤ 57 := by
  rcases ipv4Text_chars hm with hd | rfl
  · obtain ⟨hl, hh⟩ := digit_range hd
    omega
  · decide

theorem ipv4Text_getLast? (ip : Ipv4) : ∃ c, ip.text.getLast? = some c ∧ c.isAlpha = false := by
  obtain ⟨before, c, ht⟩ := (eq_nil_or_concat' ip.text).resolve_left (by simp [ipv4Text_eq])
  have hm : c ∈ ip.text := ht ▸ by simp
  have hr := ipv4Text_range hm
  refine ⟨c, by simp [ht], ?_⟩
  rw [Bool.eq_false_iff]
  intro ha
  have hl := letter_range ha
  omega

theorem toLowerCase_ipv4Text (ip : Ipv4) : toLowerCase ip.text = ip.text := by
  rw [toLowerCase]
  conv_rhs => rw [← map_id ip.text]
  apply map_congr_left
  intro c hm
  have hr := ipv4Text_range hm
  exact toLower_of_not_upper (by omega)

def InRange (ranges : List (Nat × Nat)) (value : Nat) : Prop :=
  ∃ range ∈ ranges, range.1 ≤ value ∧ value ≤ range.2

instance (ranges : List (Nat × Nat)) (value : Nat) : Decidable (InRange ranges value) :=
  inferInstanceAs (Decidable (∃ range ∈ ranges, _))

theorem inRanges_iff (ranges : List (Nat × Nat)) (value : Nat) :
    inRanges ranges value = true ↔ InRange ranges value := by
  simp [inRanges, InRange]

/-- The addresses that the check is to block; the last are `::ffff:a.b.c.d`. -/
def Restricted : Address → Prop
  | .v4 ip => InRange PRIVATE_IPV4_RANGES ip.toNat
  | .v6 ip => InRange PRIVATE_IPV6_RANGES ip.toNat ∨
      ip.toNat / 2 ^ 32 = 0xffff ∧ InRange PRIVATE_IPV4_RANGES (ip.toNat % 2 ^ 32)

instance : DecidablePred Restricted
  | .v4 _ => inferInstanceAs (Decidable (InRange _ _))
  | .v6 _ => inferInstanceAs (Decidable (_ ∨ _))

theorem checkHostBlocked_v4 {ip : Ipv4} (hp : platform.parse url = some (.address (.v4 ip))) :
    checkHostBlocked platform url =
      some (blockedIf (decide (Restricted (.v4 ip))) .privateIpv4 ip.text) := by
  obtain ⟨c, hl, ha⟩ := ipv4Text_getLast? ip
  have hr : isPrivateIPv4 ip.text = decide (Restricted (.v4 ip)) := by
    rw [Bool.eq_iff_iff, isPrivateIPv4, ipv4ToNumber_text, inRanges_iff, decide_eq_true_iff]
    rfl
  simp only [checkHostBlocked, hp, Host.hostname, toLowerCase_ipv4Text]
  rw [checkHost_of_getLast platform hl ha, platform.isIPv4_text, if_pos rfl, hr]

theorem checkHostBlocked_v6 {ip : Ipv6} (hp : platform.parse url = some (.address (.v6 ip))) :
    checkHostBlocked platform url = some .allowed := by
  have hh : toLowerCase (Host.hostname (.address (.v6 ip))) =
      '[' :: (toLowerCase ip.text ++ [']']) := by
    simp [toLowerCase, Host.hostname]
  have hl : ('[' :: (toLowerCase ip.text ++ [']'])).getLast? = some ']' := by
    rw [← cons_append, getLast?_concat]
  simp only [checkHostBlocked, hp, hh]
  rw [checkHost_of_getLast platform hl (by decide), platform.isIPv4_bracket,
    platform.isIPv6_bracket, if_neg Bool.false_ne_true, if_neg Bool.false_ne_true]

theorem isBlocked_blockedIf (test : Bool) (reason : Reason) (host : List Char) :
    (blockedIf test reason host).isBlocked = test := by
  cases test <;> rfl

/-- The check blocks the restricted addresses and no others exactly where the address is an IPv4
address or needs no blocking. -/
theorem host_blocked_iff (platform : Platform) (url : String) (address : Address)
    (hParse : platform.parse url = some (.address address)) :
    ((checkHostBlocked platform url).map BlockedHostResult.isBlocked = some true ↔
        Restricted address) ↔
      (∃ ip, address = .v4 ip) ∨ ¬ Restricted address := by
  cases address with
  | v4 => simp [checkHostBlocked_v4 hParse, isBlocked_blockedIf]
  | v6 => simp [checkHostBlocked_v6 hParse, BlockedHostResult.isBlocked]

def privateHost : Ipv4 := ⟨10, 0, 0, 1⟩

def loopback : Ipv6 := ⟨[0, 0, 0, 0, 0, 0, 0, 1], rfl⟩

def twoUrls : Platform where
  parse url :=
    if url = "http://[::1]:3000/api" then some (.address (.v6 loopback))
    else if url = "http://10.0.0.1/admin" then some (.address (.v4 privateHost))
    else none
  isIPv4 text := text.all fun c => c.isDigit || c = '.'
  isIPv6 text := text.head? != some '[' && text.contains ':'
  isIPv4_text ip := by
    rw [all_eq_true]
    intro c hMem
    simpa using ipv4Text_chars hMem
  isIPv4_bracket text := rfl
  isIPv6_bracket text := rfl

theorem host_blocked_privateHost :
    (checkHostBlocked twoUrls "http://10.0.0.1/admin").map BlockedHostResult.isBlocked = some true ↔
      Restricted (.v4 privateHost) :=
  (host_blocked_iff twoUrls "http://10.0.0.1/admin" (.v4 privateHost) rfl).mpr (.inl ⟨_, rfl⟩)

/-- `http://[::1]:3000/api` is let through. -/
theorem bracketed_loopback_allowed :
    twoUrls.parse "http://[::1]:3000/api" = some (.address (.v6 loopback)) ∧
      (Host.address (.v6 loopback)).hostname = "[::1]".toList ∧ Restricted (.v6 loopback) ∧
      checkHostBlocked twoUrls "http://[::1]:3000/api" = some .allowed := by
  decide +kernel

end Credence.Lib.SsrfProtection
