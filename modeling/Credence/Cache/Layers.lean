import Credence.Js.JsonRoundTrip
import Credence.Js.Map
import Credence.Js.Number
import Mathlib.Data.List.Infix

/-! The two layers of `CacheService`: the memory of each process and Redis, where a string is stored
as it is and everything is read as JSON, and the patterns that clear them. -/

namespace Credence.Cache

open Js List

abbrev Text := List Char

structure Layers where
  redis : List (Text × String)
  l1 : Nat → List (Text × Json)

def getNamespacedKey (ns key : Text) : Text := ns ++ ':' :: key

def serialize : Json → String
  | .str text => text
  | value => value.stringify

def deserialize (value : String) : Json := (Json.parse value).getD (.str value)

def Layers.setL1 (process : Nat) (entries : List (Text × Json)) (c : Layers) : Layers :=
  { c with l1 := fun other => if other = process then entries else c.l1 other }

/-- `fails` is a failure of Redis; another call in between makes `canPopulate` false. -/
def Layers.set (process : Nat) (ns key : Text) (value : Json) (ttl : Option Number)
    (fails canPopulate : Bool) (c : Layers) : Layers × Bool :=
  let namespacedKey := getNamespacedKey ns key
  let invalidated := Map.delete namespacedKey (c.l1 process)
  if ttl.any fun ttl => !ttl.isSafeInteger || ttl.isNonPositive then (c, false)
  else if fails then (c.setL1 process invalidated, false)
  else
    let stored := { c with redis := Map.set namespacedKey (serialize value) c.redis }
    let entries := if canPopulate then Map.set namespacedKey value invalidated else invalidated
    (stored.setL1 process entries, true)

/-- A call in between makes `fills` false. -/
def Layers.get (process : Nat) (ns key : Text) (fills : Bool) (c : Layers) : Layers × Json :=
  let namespacedKey := getNamespacedKey ns key
  match Map.get namespacedKey (c.l1 process) with
  | some value => (c, value)
  | none =>
    match Map.get namespacedKey c.redis with
    | none => (c, .null)
    | some value =>
      let parsed := deserialize value
      (if fills then c.setL1 process (Map.set namespacedKey parsed (c.l1 process)) else c, parsed)

variable {value : Json} {c : Layers} {process : Nat} {ns key : Text}

def empty : Layers := ⟨[], fun _ => []⟩

/-- Whether the body of a class, without a leading `^`, has the character. -/
def inRanges : Text → Char → Bool
  | '\\' :: a :: rest, c => a == c || inRanges rest c
  | a :: '-' :: b :: rest, c => a ≤ c && c ≤ b || b ≤ c && c ≤ a || inRanges rest c
  | a :: rest, c => a == c || inRanges rest c
  | [], _ => false

def inClass : Text → Char → Bool
  | '^' :: body, c => !inRanges body c
  | body, c => inRanges body c

/-- The patterns of `KEYS`; the first argument is what has been read of a class, reversed. -/
def glob : Option Text → Text → Text → Bool
  | none, [], text => text.isEmpty
  | none, '*' :: pattern, text => text.tails.any (glob none pattern)
  | none, '[' :: pattern, text => glob (some []) pattern text
  | none, '\\' :: d :: pattern, c :: text => d == c && glob none pattern text
  | none, d :: pattern, c :: text => (d == '?' || d == c) && glob none pattern text
  | some body, '\\' :: d :: pattern, text => glob (some (d :: '\\' :: body)) pattern text
  | some body, [], c :: text => inClass body.reverse c && text.isEmpty
  | some body, ']' :: pattern, c :: text => inClass body.reverse c && glob none pattern text
  | some body, a :: '-' :: b :: pattern, text => glob (some (b :: '-' :: a :: body)) pattern text
  | some body, d :: pattern, text => glob (some (d :: body)) pattern text
  | _, _, [] => false

def clearL1Pattern (process : Nat) (pattern : Text) (c : Layers) : Layers :=
  c.setL1 process ((c.l1 process).filter fun entry => !(pattern.erase '*').isPrefixOf entry.1)

/-- Where Redis succeeds; with the number of keys that were deleted. -/
def clearNamespace (process : Nat) (ns : Text) (c : Layers) : Layers × Nat :=
  let pattern := getNamespacedKey ns ['*']
  let cleared := clearL1Pattern process pattern c
  let keys := cleared.redis.filter fun entry => glob none pattern entry.1
  (clearL1Pattern process pattern
    { cleared with redis := cleared.redis.filter fun entry => !glob none pattern entry.1 },
    keys.length)

/-- The layers when the call resolves, what it returns, and what it leaves to the commit of the
transaction in which it is made. -/
structure Invalidation where
  layers : Layers
  count : Nat
  postCommit : Layers → Layers

def invalidatePattern (inTransaction : Bool) (process : Nat) (ns pattern : Text) (c : Layers) :
    Invalidation :=
  let named := getNamespacedKey ns pattern
  if inTransaction then ⟨c, 0, fun later => (clearNamespace process named later).1⟩
  else ⟨(clearNamespace process named c).1, (clearNamespace process named c).2, id⟩

def Plain (text : Text) : Prop := ∀ c ∈ text, c ∉ ['*', '?', '[', '\\']

theorem glob_literal {literal : Text} (h : Plain literal) (pattern text : Text) :
    glob none (literal ++ pattern) text = true ↔
      ∃ rest, text = literal ++ rest ∧ glob none pattern rest = true := by
  induction literal generalizing text with
  | nil => simp
  | cons d literal ih =>
    have hp := h d mem_cons_self
    have ih := ih fun c hc => h c (mem_cons_of_mem d hc)
    simp only [mem_cons, not_mem_nil, or_false, not_or] at hp
    cases text with
    | nil => simp [glob, hp]
    | cons c =>
      rw [cons_append, glob]
      · by_cases hs : d = c
        · subst hs
          simp [ih]
        · simp [hs, hp, Ne.symm hs]
      all_goals simp [hp]

theorem glob_inner (rest : Text) : glob none ['*', ':', '*'] rest = rest.contains ':' := by
  induction rest with
  | nil => rfl
  | cons c rest ih =>
    rw [glob] at ih ⊢
    have he : rest.tails.any (glob none []) = true :=
      any_eq_true.2 ⟨[], (mem_tails _ _).2 nil_suffix, rfl⟩
    rw [tails, any_cons, ih, glob, glob, he, contains_cons, Bool.and_true]
    all_goals simp

/-- The pattern that is cleared in place of a literal one followed by a star. -/
def clearedPattern (ns literal : Text) : Text := getNamespacedKey ns literal ++ ['*', ':', '*']

variable {literal : Text}

theorem clearedPattern_eq : getNamespacedKey (getNamespacedKey ns (literal ++ ['*'])) ['*'] =
    clearedPattern ns literal := by
  simp [getNamespacedKey, clearedPattern]

theorem plain_named (hNs : Plain ns) (hl : Plain literal) :
    Plain (getNamespacedKey ns literal) := by
  intro c hc
  rcases mem_append.1 hc with hc | hc
  · exact hNs c hc
  · rcases mem_cons.1 hc with rfl | hc
    · decide
    · exact hl c hc

theorem invalidatePattern_redis (entry : Text × String) :
    entry ∈ (invalidatePattern false process ns (literal ++ ['*']) c).layers.redis ↔
      entry ∈ c.redis ∧ ¬glob none (clearedPattern ns literal) entry.1 = true := by
  simp [invalidatePattern, clearNamespace, clearL1Pattern, Layers.setL1, clearedPattern_eq]

theorem invalidatePattern_l1 (entry : Text × Json) :
    entry ∈ (invalidatePattern false process ns (literal ++ ['*']) c).layers.l1 process ↔
      entry ∈ c.l1 process ∧ ¬(clearedPattern ns literal).erase '*' <+: entry.1 := by
  simp [invalidatePattern, clearNamespace, clearL1Pattern, Layers.setL1, clearedPattern_eq,
    ← isPrefixOf_iff_prefix]

/-- Outside a transaction the call clears what matches and keeps what does not precisely as far as
the pattern `ns:literal*:*` does in Redis, and that pattern without its first star does as a prefix
in the memory. Where the namespace has no glob character these are the entries that go on with a
colon further on, and with `:*`. In a transaction nothing is cleared when the call resolves. -/
theorem pattern_cleared (process : Nat) (ns literal : Text) (hLiteral : Plain literal)
    (c : Layers) : let named := getNamespacedKey ns literal
    let after := (invalidatePattern false process ns (literal ++ ['*']) c).layers
    ((∀ entry ∈ c.redis, ¬named <+: entry.1 → entry ∈ after.redis) ↔ ∀ entry ∈ c.redis,
      glob none (clearedPattern ns literal) entry.1 = true → named <+: entry.1) ∧
    ((∀ entry ∈ after.redis, ¬named <+: entry.1) ↔ ∀ entry ∈ c.redis, named <+: entry.1 →
      glob none (clearedPattern ns literal) entry.1 = true) ∧
    ((∀ entry ∈ after.l1 process, ¬named <+: entry.1) ↔ ∀ entry ∈ c.l1 process,
      named <+: entry.1 → (clearedPattern ns literal).erase '*' <+: entry.1) ∧
    (Plain ns → (∀ text, glob none (clearedPattern ns literal) text = true ↔
        ∃ rest, text = named ++ rest ∧ ':' ∈ rest) ∧
      (clearedPattern ns literal).erase '*' = named ++ [':', '*']) ∧
    (invalidatePattern true process ns (literal ++ ['*']) c).layers = c := by
  simp only [invalidatePattern_redis, invalidatePattern_l1]
  refine ⟨by grind, by grind, by grind, fun hNs => ⟨fun text => ?_, ?_⟩, rfl⟩
  · simp only [clearedPattern, glob_literal (plain_named hNs hLiteral), glob_inner,
      contains_iff_mem]
  · exact erase_append_right _ fun hc => plain_named hNs hLiteral _ hc mem_cons_self

def twoEntries : Layers := ⟨[("a:b:5:x".toList, "7"), ("a:c".toList, "9")], fun _ => []⟩

theorem pattern_cleared_colon :
    let after := (invalidatePattern false 0 ['a'] ['b', ':', '*'] twoEntries).layers
    (∀ entry ∈ after.redis, ¬['a', ':', 'b', ':'] <+: entry.1) ∧
      ("a:c".toList, "9") ∈ after.redis := by
  obtain ⟨hk, hr, -⟩ := pattern_cleared 0 ['a'] ['b', ':'] (by simp [Plain]) twoEntries
  exact ⟨hr.mpr (by decide), hk.mpr (by decide) _ (by decide) (by decide)⟩

def oneEntry : Layers := ⟨[("a:b:5".toList, "7")], fun _ => []⟩

/-- Clearing `b:*` leaves the entry of `b:5`. -/
theorem pattern_not_cleared : ("a:b:5".toList, "7") ∈
      (invalidatePattern false 0 ['a'] ['b', ':', '*'] oneEntry).layers.redis := by
  decide

end Credence.Cache
