import Mathlib.Logic.Basic

/-! `isSafeRedirectTarget` on strings of UTF-16 code units. The class of `CONTROL_CHAR_PATTERN` has
the letter `x` beside the control characters. -/

namespace Credence.Lib.SafeRedirect

open List

abbrev Text := List UInt16

def text (s : String) : Text := s.toList.map fun c => c.val.toUInt16

structure Url where
  protocol : String
  host : Text

def Url.isHttp (url : Url) : Bool := url.protocol = "http:" ∨ url.protocol = "https:"

/-- `CONTROL_CHAR_PATTERN`. -/
def isControlChar (c : UInt16) : Bool := c = 0x78 ∨ c ≤ 0x1f ∨ c = 0x7f

def hexDigit (c : UInt16) : Option Nat :=
  if 48 ≤ c ∧ c ≤ 57 then some (c.toNat - 48)
  else if 65 ≤ c ∧ c ≤ 70 then some (c.toNat - 55)
  else if 97 ≤ c ∧ c ≤ 102 then some (c.toNat - 87)
  else none

def escapedByte : Text → Option (Nat × Text)
  | percent :: a :: b :: rest => do
    let high ← hexDigit a
    let low ← hexDigit b
    if percent = 37 then return (16 * high + low, rest) else none
  | _ => none

/-- The bits of the given number of further bytes, after those that are read. -/
def continuation : Nat → Nat → Text → Option (Nat × Text)
  | 0, code, rest => some (code, rest)
  | count + 1, code, rest => do
    let (byte, rest) ← escapedByte rest
    if byte / 64 = 2 then continuation count (64 * code + byte % 64) rest else none

def escapedCode (cs : Text) : Option (Nat × Text) := do
  let (byte, rest) ← escapedByte cs
  let (count, bits, least) ←
    if byte < 128 then some (0, byte, 0)
    else if byte / 32 = 6 then some (1, byte % 32, 0x80)
    else if byte / 16 = 14 then some (2, byte % 16, 0x800)
    else if byte / 8 = 30 then some (3, byte % 8, 0x10000)
    else none
  let (code, rest) ← continuation count bits rest
  if code < least ∨ 0x10ffff < code ∨ 0xd800 ≤ code ∧ code ≤ 0xdfff then none
  else return (code, rest)

def utf16 (code : Nat) : Text :=
  if code < 0x10000 then [code.toUInt16]
  else [(0xd7c0 + code / 0x400).toUInt16, (0xdc00 + code % 0x400).toUInt16]

/-- At most as many characters as the first argument says. -/
def decodeFrom : Nat → Text → Option Text
  | _, [] => some []
  | 0, _ => none
  | fuel + 1, c :: cs =>
    if c = 37 then do
      let (code, rest) ← escapedCode (c :: cs)
      return utf16 code ++ (← decodeFrom fuel rest)
    else return c :: (← decodeFrom fuel cs)

/-- `none` where it throws a `URIError`. -/
def decodeURIComponent (target : Text) : Option Text := decodeFrom target.length target

def startsWith (s : String) (target : Text) : Bool := (text s).isPrefixOf target

/-- `new URL(target)`, `new URL(target, base)` and `toLowerCase`. -/
structure Platform where
  parse : Text → Option Url
  resolve : Text → Url → Option Url
  toLowerCase : Text → Text
  parse_path : ∀ target, startsWith "/" target = true → parse target = none
  resolve_path : ∀ target base, base.isHttp = true → startsWith "/" target = true →
    startsWith "//" target = false → startsWith "/\\" target = false → (∀ c ∈ target, 0x1f < c) →
    ∃ url, resolve target base = some url ∧ url.isHttp = true ∧ url.host = base.host
  resolve_url : ∀ target base parsed, base.isHttp = true → parse target = some parsed →
    parsed.isHttp = true → ∃ url, resolve target base = some url ∧ url.isHttp = true ∧
      (url.host = base.host ∨ url.host = parsed.host)

def isSafeRelativePath (target : Text) : Bool :=
  startsWith "/" target && !startsWith "//" target && !startsWith "/\\" target &&
    !startsWith "\\" target &&
    (decodeURIComponent target).any fun decoded =>
      !(startsWith "//" decoded || startsWith "/\\" decoded || startsWith "\\" decoded) &&
        !decoded.any isControlChar

def isAllowedAbsoluteUrl (platform : Platform) (target : Text) (allowedHosts : List Text) : Bool :=
  !allowedHosts.isEmpty && (platform.parse target).any fun parsed =>
    parsed.isHttp && allowedHosts.any fun allowed =>
      platform.toLowerCase allowed == platform.toLowerCase parsed.host

def isSafeRedirectTarget (platform : Platform) (target : Text) (allowedHosts : List Text) : Bool :=
  !target.isEmpty && !target.any isControlChar &&
    (isSafeRelativePath target || isAllowedAbsoluteUrl platform target allowedHosts)

/-- A path of the site, and what it decodes to. -/
structure SitePath (target decoded : Text) : Prop where
  path : startsWith "/" target = true
  single : startsWith "//" target = false ∧ startsWith "/\\" target = false
  decodes : decodeURIComponent target = some decoded
  plain : ∀ c ∈ target ++ decoded, 0x1f < c ∧ c ≠ 0x7f
  decodedSingle : startsWith "//" decoded = false ∧ startsWith "/\\" decoded = false

theorem startsWith_slash {target : Text} (h : startsWith "/" target = true) :
    ∃ cs, target = 47 :: cs := by
  cases target with
  | nil => cases h
  | cons c cs =>
    have hh : 47 = c := by simpa [startsWith, show text "/" = [47] from rfl] using h
    exact ⟨cs, by rw [hh]⟩

theorem decode_slash {cs decoded : Text} (h : decodeURIComponent (47 :: cs) = some decoded) :
    ∃ ds, decoded = 47 :: ds := by
  simp only [decodeURIComponent, decodeFrom, length_cons] at h
  obtain ⟨ds, -, hd⟩ := Option.bind_eq_some_iff.mp h
  cases hd
  exact ⟨ds, rfl⟩

theorem any_isControlChar {cs : Text} (h : ∀ c ∈ cs, 0x1f < c ∧ c ≠ 0x7f) :
    cs.any isControlChar = false ↔ 0x78 ∉ cs := by
  refine any_eq_false.trans ⟨fun ha hx => ha _ hx rfl, fun hx c hc => ?_⟩
  have hn : c ≠ 0x78 := fun he => hx (he ▸ hc)
  simp [isControlChar, hn, (h c hc).2, UInt16.not_le.mpr (h c hc).1]

/-- Where a safe target leads, and which paths of the site are safe: those without the letter `x`,
also once they are decoded. -/
theorem safe_redirects (platform : Platform) (target : Text) (allowedHosts : List Text) :
    (isSafeRedirectTarget platform target allowedHosts = true → ∀ base : Url, base.isHttp = true →
      ∃ url, platform.resolve target base = some url ∧ url.isHttp = true ∧
        (url.host = base.host ∨ ∃ allowed ∈ allowedHosts,
          platform.toLowerCase allowed = platform.toLowerCase url.host)) ∧
    ∀ decoded, SitePath target decoded →
      (isSafeRedirectTarget platform target allowedHosts = true ↔ 0x78 ∉ target ++ decoded) := by
  constructor
  · intro h base hf
    simp only [isSafeRedirectTarget, Bool.and_eq_true, Bool.or_eq_true, Bool.not_eq_true',
      any_eq_false] at h
    obtain ⟨⟨-, hp⟩, hr | ha⟩ := h
    · simp only [isSafeRelativePath, Bool.and_eq_true, Bool.not_eq_true'] at hr
      obtain ⟨⟨⟨⟨hg, hs⟩, hb⟩, -⟩, -⟩ := hr
      have hv : ∀ c ∈ target, 0x1f < c := by
        intro c hc
        have hi := hp c hc
        simp only [isControlChar, decide_eq_true_eq, not_or] at hi
        exact UInt16.not_le.mp hi.2.1
      obtain ⟨url, hu, hh, hj⟩ := platform.resolve_path target base hf hg hs hb hv
      exact ⟨url, hu, hh, .inl hj⟩
    · simp only [isAllowedAbsoluteUrl, Bool.and_eq_true, Option.any_eq_true, any_eq_true,
        beq_iff_eq] at ha
      obtain ⟨-, parsed, hk, hh, allowed, hm, hq⟩ := ha
      obtain ⟨url, hu, hw, hj⟩ := platform.resolve_url target base parsed hf hk hh
      refine ⟨url, hu, hw, hj.imp_right fun he => ⟨allowed, hm, ?_⟩⟩
      rw [hq, he]
  · intro decoded h
    obtain ⟨cs, rfl⟩ := startsWith_slash h.path
    obtain ⟨ds, rfl⟩ := decode_slash h.decodes
    have hb : ∀ rest, startsWith "\\" (47 :: rest) = false := fun _ => rfl
    have hu : isAllowedAbsoluteUrl platform (47 :: cs) allowedHosts = false := by
      rw [isAllowedAbsoluteUrl, platform.parse_path _ h.path, Option.any_none, Bool.and_false]
    have hr : isSafeRedirectTarget platform (47 :: cs) allowedHosts =
        (!(47 :: cs).any isControlChar && !(47 :: ds).any isControlChar) := by
      rw [isSafeRedirectTarget, isSafeRelativePath, h.path, h.single.1, h.single.2, h.decodes,
        Option.any_some, h.decodedSingle.1, h.decodedSingle.2, hb, hb, hu, Bool.or_false]
      rfl
    rw [hr, Bool.and_eq_true, Bool.not_eq_true', Bool.not_eq_true', mem_append, not_or,
      any_isControlChar fun c hc => h.plain c (mem_append_left _ hc),
      any_isControlChar fun c hc => h.plain c (mem_append_right _ hc)]

def sample : Platform where
  parse _ := none
  resolve _ base := some base
  toLowerCase host := host
  parse_path _ _ := rfl
  resolve_path _ base hBase _ _ _ _ := ⟨base, rfl, hBase, rfl⟩
  resolve_url _ _ _ _ h := nomatch h

theorem safe_redirects_docs : isSafeRedirectTarget sample (text "/a%20b") [] = true :=
  ((safe_redirects sample _ []).2 (text "/a b")
    ⟨by decide, by decide, by decide, by simp [text], by decide⟩).mpr (by decide)

theorem letter_refused : SitePath (text "/x") (text "/x") ∧
    isSafeRedirectTarget sample (text "/x") [] = false :=
  ⟨⟨by decide, by decide, by decide, by simp [text], by decide⟩, by decide⟩

end Credence.Lib.SafeRedirect
