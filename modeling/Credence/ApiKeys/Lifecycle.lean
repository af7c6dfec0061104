import Credence.ApiKeys.Service
import Credence.ProofKit.Lists
import Mathlib.Data.List.Induction

/-! API keys over sequences of calls, against the set of keys issued and neither revoked nor rotated
since. `generateApiKey` writes to the `Map` in either mode, so only the `Map` behaves like that
set. -/

namespace Credence.ApiKeys

open Crypto Js ProofKit List Option

/-! ### The keys that are live -/

structure Grant where
  ownerId : String
  scopes : List String
  tier : SubscriptionTier
  deriving DecidableEq

structure IssuedKey where
  id : String
  rawKey : String
  grant : Grant

def StoredApiKey.grant (key : StoredApiKey) : Grant := ⟨key.ownerId, key.scopes, key.tier⟩

inductive Call where
  | generateApiKey (draw : Draw) (now : Int) (ownerId : String) (scope : ScopeArgument)
      (tier : SubscriptionTier) (scopes : Option (List String))
  | validateApiKey (now : Int) (rawKey : String)
  | revokeApiKey (id : String) (ownerId : Option String)
  | rotateApiKey (draw : Draw) (now : Int) (id : String)

def Call.draw : Call → Option Draw
  | generateApiKey draw .. => some draw
  | rotateApiKey draw _ _ => some draw
  | _ => none

def Call.generates : Call → Bool
  | generateApiKey .. => true
  | _ => false

/-- The live keys after a call: a revocation or a rotation ends the key with the id, and a rotation
issues one with the same grant. -/
def nextLive (live : List IssuedKey) : Call → List IssuedKey
  | .generateApiKey draw _ ownerId scope tier scopes =>
    live ++ [⟨draw.keyId, draw.rawKey, ⟨ownerId, grantedScopes scope scopes, tier⟩⟩]
  | .validateApiKey _ _ => live
  | .revokeApiKey id ownerId =>
    live.filter fun key => !(key.id = id ∧ ownerId.all fun owner => key.grant.ownerId = owner)
  | .rotateApiKey draw _ id =>
    match live.find? fun key => key.id = id with
    | some key =>
      (live.filter fun key => key.id ≠ id) ++ [⟨draw.keyId, draw.rawKey, key.grant⟩]
    | none => live

def liveKeys (calls : List Call) : List IssuedKey := calls.foldl nextLive []

/-! ### The service over a sequence of calls -/

def nextState (hash : TextHash) (s : State) : Call → State
  | .generateApiKey draw now ownerId scope tier scopes =>
    { s with inMemoryStore :=
        (generateApiKey hash draw now ownerId scope tier scopes s.inMemoryStore).2 }
  | .validateApiKey now rawKey => (validateApiKey hash now rawKey s).2
  | .revokeApiKey id ownerId => (revokeApiKey id ownerId s).2
  | .rotateApiKey draw now id =>
    { s with inMemoryStore := (rotateApiKey hash draw now id s.inMemoryStore).2 }

def stateAfter (hash : TextHash) (calls : List Call) (s : State) : State :=
  calls.foldl (nextState hash) s

/-- A raw key validates with its grant, and an id is rotated for a key with the same scopes and
tier, exactly if the key is live. -/
structure Lifecycle (hash : TextHash) (live : List IssuedKey) (s : State) : Prop where
  validates : ∀ now rawKey, (validateApiKey hash now rawKey s).1.map StoredApiKey.grant =
    (live.find? fun key => key.rawKey = rawKey).map IssuedKey.grant
  rotates : ∀ draw now id, (rotateApiKey hash draw now id s.inMemoryStore).1.map
      (fun result => (result.id, result.key, result.scopes, result.tier)) =
    (live.find? fun key => key.id = id).map fun key =>
      (draw.keyId, draw.rawKey, key.grant.scopes, key.grant.tier)

/-! ### The `Map` has the live keys -/

structure Linked (hash : TextHash) (drawn : List Draw) (live : List IssuedKey) (store : Store) :
    Prop where
  nodup : Map.Nodup store
  stored : ∀ id key, Map.get id store = some key → ∃ draw ∈ drawn, draw.keyId = id ∧
    key.hashedKey = hashKey hash draw.rawKey ∧ key.lookupPrefix = extractPrefix draw.rawKey
  live : ∀ issued, issued ∈ live ↔ ∃ draw ∈ drawn, ∃ key, Map.get draw.keyId store = some key ∧
    key.active = true ∧ issued = ⟨draw.keyId, draw.rawKey, key.grant⟩

structure Distinct (drawn : List Draw) : Prop where
  keys : ∀ a ∈ drawn, ∀ b ∈ drawn, a.rawKey = b.rawKey → a = b
  ids : ∀ a ∈ drawn, ∀ b ∈ drawn, a.keyId = b.keyId → a = b

theorem linked_empty (hash : TextHash) : Linked hash [] [] [] := by
  refine ⟨nodup_nil, nofun, fun issued => ⟨nofun, ?_⟩⟩
  rintro ⟨draw, hd, -⟩
  cases hd

section

variable {hash : TextHash} {drawn : List Draw} {live : List IssuedKey} {store : Store}

theorem Linked.find_id (h : Linked hash drawn live store) (id : String) :
    (live.find? fun key => key.id = id).map IssuedKey.grant =
      ((Map.get id store).filter StoredApiKey.active).map StoredApiKey.grant := by
  cases hf : live.find? fun key => key.id = id with
  | some issued =>
    have hi := find?_some hf
    rw [decide_eq_true_eq] at hi
    obtain ⟨draw, hd, key, hg, ha, rfl⟩ := (h.live issued).mp (mem_of_find?_eq_some hf)
    obtain rfl : draw.keyId = id := hi
    rw [hg, filter_some_pos ha]
    rfl
  | none =>
    cases hg : Map.get id store with
    | none => rfl
    | some key =>
      cases ha : key.active with
      | false =>
        simp [ha]
      | true =>
        obtain ⟨draw, hd, rfl, -⟩ := h.stored id key hg
        have hl := (h.live _).mpr ⟨draw, hd, key, hg, ha, rfl⟩
        exact absurd (by simp) (find?_eq_none.mp hf _ hl)

theorem Linked.validates (h : Linked hash drawn live store) (hb : Distinct drawn)
    (hi : Function.Injective hash.digest) (now : Int) (rawKey : String) :
    (validateInMemory hash now rawKey store).1.map StoredApiKey.grant =
      (live.find? fun key => key.rawKey = rawKey).map IssuedKey.grant := by
  rw [validateInMemory]
  dsimp only
  split
  · next id key hf =>
    have hm := find?_some hf
    rw [decide_eq_true_eq] at hm
    have hg := Map.get_of_mem h.nodup (mem_of_find?_eq_some hf)
    obtain ⟨draw, hd, rfl, hh, -⟩ := h.stored id key hg
    obtain rfl : draw.rawKey = rawKey := hi (hh.symm.trans hm.2)
    split
    · next ha =>
      have hl := (h.live _).mpr ⟨draw, hd, key, hg, ha, rfl⟩
      rw [find?_of_unique hl (by simp)]
      · rfl
      · intro other ho hs
        rw [decide_eq_true_eq] at hs
        obtain ⟨draw', hd', key', hg', -, rfl⟩ := (h.live other).mp ho
        obtain rfl := hb.keys draw' hd' draw hd hs
        cases hg.symm.trans hg'
        rfl
    · next hc =>
      rw [find?_eq_none.mpr]
      · rfl
      · intro other ho hs
        rw [decide_eq_true_eq] at hs
        obtain ⟨draw', hd', key', hg', ha, rfl⟩ := (h.live other).mp ho
        obtain rfl := hb.keys draw' hd' draw hd hs
        cases hg.symm.trans hg'
        exact hc ha
  · next hn =>
    rw [find?_eq_none.mpr]
    · rfl
    · intro other ho hs
      rw [decide_eq_true_eq] at hs
      obtain ⟨draw, hd, key, hg, -, rfl⟩ := (h.live other).mp ho
      obtain ⟨draw', hd', hId, hh, hp⟩ := h.stored _ key hg
      obtain rfl := hb.ids draw' hd' draw hd hId
      obtain rfl : draw'.rawKey = rawKey := hs
      exact find?_eq_none.mp hn _ (Map.mem_of_get hg) (by simp [hh, hp])

variable {id : String} {key : StoredApiKey} {draw : Draw}

section

variable (h : Linked hash drawn live store)
include h

theorem Linked.update {key' : StoredApiKey} {live' : List IssuedKey}
    (hg : Map.get id store = some key) (hh : key'.hashedKey = key.hashedKey)
    (hp : key'.lookupPrefix = key.lookupPrefix)
    (hl : ∀ issued, issued ∈ live' ↔ issued ∈ live ∧ issued.id ≠ id ∨ key'.active = true ∧
      ∃ draw ∈ drawn, draw.keyId = id ∧ issued = ⟨id, draw.rawKey, key'.grant⟩) :
    Linked hash drawn live' (Map.set id key' store) := by
  refine ⟨Map.nodup_set _ _ h.nodup, fun other found hf => ?_, fun issued => ?_⟩
  · rcases Map.get_of_set hf with ⟨hi, rfl⟩ | hb
    · rw [hh, hp, ← hi]
      exact h.stored id key hg
    · exact h.stored other found hb
  · rw [hl, h.live]
    constructor
    · rintro (⟨⟨draw, hd, found, hf, ha, rfl⟩, hi⟩ | ⟨ha, draw, hd, rfl, rfl⟩)
      · exact ⟨draw, hd, found, by rw [Map.get_set, if_neg (Ne.symm hi), hf], ha, rfl⟩
      · exact ⟨draw, hd, key', Map.get_set_self .., ha, rfl⟩
    · rintro ⟨draw, hd, found, hf, ha, rfl⟩
      rw [Map.get_set] at hf
      split at hf
      · next hi =>
        cases hf
        exact .inr ⟨ha, draw, hd, hi.symm, by rw [hi]⟩
      · next hi =>
        exact .inl ⟨⟨draw, hd, found, hf, ha, rfl⟩, fun he => hi he.symm⟩

theorem Linked.mem_iff (hg : Map.get id store = some key) (issued : IssuedKey) :
    issued ∈ live ↔ issued ∈ live ∧ issued.id ≠ id ∨ key.active = true ∧
      ∃ draw ∈ drawn, draw.keyId = id ∧ issued = ⟨id, draw.rawKey, key.grant⟩ := by
  constructor
  · intro hi
    by_cases hId : issued.id = id
    · obtain ⟨draw, hd, found, hf, ha, rfl⟩ := (h.live issued).mp hi
      obtain rfl : draw.keyId = id := hId
      cases hg.symm.trans hf
      exact .inr ⟨ha, draw, hd, rfl, rfl⟩
    · exact .inl ⟨hi, hId⟩
  · rintro (⟨hi, -⟩ | ⟨ha, draw, hd, rfl, rfl⟩)
    · exact hi
    · exact (h.live _).mpr ⟨draw, hd, key, hg, ha, rfl⟩

theorem Linked.validateInMemory (now : Int) (rawKey : String) :
    Linked hash drawn live (validateInMemory hash now rawKey store).2 := by
  rw [ApiKeys.validateInMemory]
  dsimp only
  split
  · next id key hf =>
    have hg := Map.get_of_mem h.nodup (mem_of_find?_eq_some hf)
    have hs := h.mem_iff hg
    split
    · exact h.update hg rfl rfl hs
    · exact h
  · exact h

theorem Linked.deactivate (hg : Map.get id store = some key) :
    Linked hash drawn (live.filter fun key => key.id ≠ id)
      (Map.set id { key with active := false } store) := by
  refine h.update hg rfl rfl fun issued => ?_
  simp

theorem Linked.generateApiKey (hn : ∀ old ∈ drawn, old.keyId ≠ draw.keyId) (now : Int)
    (ownerId : String) (scope : ScopeArgument) (tier : SubscriptionTier)
    (scopes : Option (List String)) :
    Linked hash (drawn ++ [draw])
      (live ++ [⟨draw.keyId, draw.rawKey, ⟨ownerId, grantedScopes scope scopes, tier⟩⟩])
      (generateApiKey hash draw now ownerId scope tier scopes store).2 := by
  rw [ApiKeys.generateApiKey]
  refine ⟨Map.nodup_set _ _ h.nodup, fun id found hf => ?_, fun issued => ?_⟩
  · rcases Map.get_of_set hf with ⟨hi, rfl⟩ | hb
    · exact ⟨draw, mem_append_right _ (mem_singleton_self _), hi, rfl, rfl⟩
    · obtain ⟨old, ho, hs⟩ := h.stored id found hb
      exact ⟨old, mem_append_left _ ho, hs⟩
  · rw [mem_append, h.live, mem_singleton]
    constructor
    · rintro (⟨old, ho, found, hf, ha, rfl⟩ | rfl)
      · refine ⟨old, mem_append_left _ ho, found, ?_, ha, rfl⟩
        rw [Map.get_set, if_neg (Ne.symm (hn old ho)), hf]
      · exact ⟨draw, mem_append_right _ (mem_singleton_self _), _,
          Map.get_set_self .., rfl, rfl⟩
    · rintro ⟨other, ht, found, hf, ha, rfl⟩
      rcases mem_append.mp ht with ho | hd
      · rw [Map.get_set, if_neg (Ne.symm (hn other ho))] at hf
        exact .inl ⟨other, ho, found, hf, ha, rfl⟩
      · obtain rfl := mem_singleton.mp hd
        rw [Map.get_set_self] at hf
        cases hf
        exact .inr rfl

theorem Linked.revoked (id : String) (ownerId : Option String) :
    nextLive live (.revokeApiKey id ownerId) = live.filter fun key => !(key.id = id ∧
      (Map.get id store).any fun stored => ownerId.all fun owner => stored.ownerId = owner) := by
  refine filter_congr fun issued his => ?_
  obtain ⟨draw, -, key, hf, -, rfl⟩ := (h.live issued).mp his
  by_cases hi : draw.keyId = id
  · rw [← hi, hf]
    rfl
  · simp [hi]

theorem Linked.revokeInMemory (id : String) (ownerId : Option String) :
    Linked hash drawn (nextLive live (.revokeApiKey id ownerId))
      (revokeInMemory id ownerId store).2 := by
  rw [h.revoked, ApiKeys.revokeInMemory]
  cases hg : Map.get id store with
  | none => simpa using h
  | some key =>
    have hd := h.deactivate hg
    cases ownerId with
    | none => simpa using hd
    | some owner =>
      by_cases ho : key.ownerId = owner
      · simpa [ho] using hd
      · simpa [ho] using h

theorem Linked.rotateApiKey (now : Int) (id : String)
    (hn : ∀ old ∈ drawn, old.keyId ≠ draw.keyId) : ∃ drawn', (∀ old ∈ drawn',
      old ∈ drawn ++ [draw]) ∧ Linked hash drawn' (nextLive live (.rotateApiKey draw now id))
        (rotateApiKey hash draw now id store).2 := by
  have hf := h.find_id id
  rw [ApiKeys.rotateApiKey, nextLive]
  cases hg : Map.get id store with
  | none =>
    rw [hg, filter_none, map_none, map_eq_none_iff] at hf
    rw [hf]
    exact ⟨drawn, fun old ho => mem_append_left _ ho, h⟩
  | some existing =>
    cases ha : existing.active with
    | false =>
      have hb : (some existing).filter StoredApiKey.active = none := by
        simp [ha]
      rw [hg, hb, map_none, map_eq_none_iff] at hf
      rw [hf]
      dsimp only
      rw [if_neg (by rw [ha]; decide)]
      exact ⟨drawn, fun old ho => mem_append_left _ ho, h⟩
    | true =>
      rw [hg, filter_some_pos ha, map_some] at hf
      obtain ⟨issued, hi, hr⟩ := map_eq_some_iff.mp hf
      rw [hi]
      dsimp only
      rw [hr, if_pos ha]
      exact ⟨drawn ++ [draw], fun old ho => ho,
        (h.deactivate hg).generateApiKey hn now _ (.many existing.scopes) _ none⟩

theorem Linked.rotates (draw : Draw) (now : Int) (id : String) :
    (ApiKeys.rotateApiKey hash draw now id store).1.map
        (fun result => (result.id, result.key, result.scopes, result.tier)) =
      (live.find? fun key => key.id = id).map fun key =>
        (draw.keyId, draw.rawKey, key.grant.scopes, key.grant.tier) := by
  have hf := h.find_id id
  have hm : ∀ found : Option IssuedKey, (found.map fun key =>
      (draw.keyId, draw.rawKey, key.grant.scopes, key.grant.tier)) =
        (found.map IssuedKey.grant).map fun grant =>
          (draw.keyId, draw.rawKey, grant.scopes, grant.tier) := by
    intro found
    rw [Option.map_map]
    rfl
  rw [hm, hf, ApiKeys.rotateApiKey]
  cases Map.get id store with
  | none => rfl
  | some existing =>
    cases ha : existing.active with
    | false => simp [ha]
    | true =>
      rw [filter_some_pos ha]
      dsimp only
      rw [if_pos ha]
      rfl

end

end

/-! ### Every sequence of calls -/

theorem toHex_injective : Function.Injective Buffer.toHex := by
  intro a b h
  rw [← Buffer.ofHex_toHex a, h, Buffer.ofHex_toHex]

theorem distinct_of_nodup {drawn : List Draw} (hk : (drawn.map Draw.key).Nodup)
    (hi : (drawn.map Draw.id).Nodup) : Distinct drawn := by
  refine ⟨fun a ha b hb h => ?_, fun a ha b hb h => ?_⟩
  · have hy : a.key = b.key := toHex_injective ((String.append_right_inj "cr_").mp h)
    exact inj_on_of_nodup_map hk ha hb hy
  · exact inj_on_of_nodup_map hi ha hb (toHex_injective h)

section

variable {hash : TextHash}

theorem stateAfter_snoc (calls : List Call) (call : Call) (s : State) :
    stateAfter hash (calls ++ [call]) s = nextState hash (stateAfter hash calls s) call := by
  rw [stateAfter, foldl_append]
  rfl

theorem liveKeys_snoc (calls : List Call) (call : Call) :
    liveKeys (calls ++ [call]) = nextLive (liveKeys calls) call := by
  rw [liveKeys, foldl_append]
  rfl

theorem stateAfter_useInMemory (calls : List Call) (s : State) :
    (stateAfter hash calls s).useInMemory = s.useInMemory := by
  induction calls using reverseRecOn with
  | nil => rfl
  | append_singleton calls call ih =>
    rw [stateAfter_snoc, ← ih]
    cases call with
    | validateApiKey =>
      rw [nextState, validateApiKey]
      repeat' split
      all_goals rfl
    | revokeApiKey =>
      rw [nextState, revokeApiKey]
      split <;> rfl
    | _ => rfl

variable {calls : List Call}

theorem linked_after (rows : ApiKeyTable) (hi : ((calls.filterMap Call.draw).map Draw.id).Nodup) :
    ∃ drawn, (∀ draw ∈ drawn, draw ∈ calls.filterMap Call.draw) ∧ Linked hash drawn
      (liveKeys calls) (stateAfter hash calls ⟨true, [], rows⟩).inMemoryStore := by
  induction calls using reverseRecOn with
  | nil => exact ⟨[], nofun, linked_empty hash⟩
  | append_singleton calls call ih =>
    rw [filterMap_append, map_append] at hi
    obtain ⟨drawn, hd, hl⟩ := ih (nodup_append.mp hi).1
    have hm : (stateAfter hash calls ⟨true, [], rows⟩).useInMemory = true :=
      stateAfter_useInMemory calls _
    have hn : ∀ draw, call.draw = some draw → ∀ old ∈ drawn, old.keyId ≠ draw.keyId := by
      intro draw hr old ho he
      refine (nodup_append.mp hi).2.2 old.id (mem_map_of_mem (hd old ho)) draw.id
        ?_ (toHex_injective he)
      simp [hr]
    rw [stateAfter_snoc, liveKeys_snoc, filterMap_append]
    generalize stateAfter hash calls ⟨true, [], rows⟩ = s at hl hm
    cases call with
    | generateApiKey draw now ownerId scope tier scopes =>
      refine ⟨drawn ++ [draw], fun old ho => ?_,
        hl.generateApiKey (hn draw rfl) now ownerId scope tier scopes⟩
      rcases mem_append.mp ho with ho | ho
      · exact mem_append_left _ (hd old ho)
      · exact mem_append_right _ ho
    | validateApiKey now rawKey =>
      refine ⟨drawn, fun old ho => mem_append_left _ (hd old ho), ?_⟩
      rw [nextState, validateApiKey, nextLive, hm]
      split
      · exact hl.validateInMemory now rawKey
      · exact hl
    | revokeApiKey id ownerId =>
      refine ⟨drawn, fun old ho => mem_append_left _ (hd old ho), ?_⟩
      rw [nextState, revokeApiKey, hm]
      exact hl.revokeInMemory id ownerId
    | rotateApiKey draw now id =>
      obtain ⟨drawn', hd', hl'⟩ := hl.rotateApiKey now id (hn draw rfl)
      refine ⟨drawn', fun old ho => ?_, hl'⟩
      rcases mem_append.mp (hd' old ho) with ho | ho
      · exact mem_append_left _ (hd old ho)
      · exact mem_append_right _ ho

theorem lifecycle_inMemory (hn : Function.Injective hash.digest)
    (hk : ((calls.filterMap Call.draw).map Draw.key).Nodup)
    (hi : ((calls.filterMap Call.draw).map Draw.id).Nodup) (rows : ApiKeyTable) :
    Lifecycle hash (liveKeys calls) (stateAfter hash calls ⟨true, [], rows⟩) := by
  obtain ⟨drawn, hd, hl⟩ := @linked_after hash calls rows hi
  have hc := distinct_of_nodup hk hi
  have he : Distinct drawn :=
    ⟨fun a ha b hb => hc.keys a (hd a ha) b (hd b hb),
      fun a ha b hb => hc.ids a (hd a ha) b (hd b hb)⟩
  refine ⟨fun now rawKey => ?_, hl.rotates⟩
  have hm : (stateAfter hash calls ⟨true, [], rows⟩).useInMemory = true :=
    stateAfter_useInMemory calls _
  rw [validateApiKey, hm]
  split
  · exact hl.validates he hn now rawKey
  · next hr =>
    rw [find?_eq_none.mpr]
    · rfl
    · intro issued his hs
      rw [decide_eq_true_eq] at hs
      obtain ⟨draw, -, key, -, -, rfl⟩ := (hl.live issued).mp his
      obtain rfl : draw.rawKey = rawKey := hs
      exact hr (isRawKey_rawKey draw)

theorem database_after (calls : List Call) : (stateAfter hash calls ⟨false, [], []⟩).rows = [] ∧
      ((∀ call ∈ calls, call.generates = false) → liveKeys calls = [] ∧
        (stateAfter hash calls ⟨false, [], []⟩).inMemoryStore = []) := by
  induction calls using reverseRecOn with
  | nil => exact ⟨rfl, fun _ => ⟨rfl, rfl⟩⟩
  | append_singleton calls call ih =>
    obtain ⟨hr, he⟩ := ih
    have hm : (stateAfter hash calls ⟨false, [], []⟩).useInMemory = false :=
      stateAfter_useInMemory calls _
    rw [stateAfter_snoc, liveKeys_snoc]
    simp only [forall_mem_append, forall_mem_singleton, and_imp]
    generalize stateAfter hash calls ⟨false, [], []⟩ = s at hr he hm
    cases call with
    | generateApiKey => exact ⟨hr, fun _ h => by cases h⟩
    | validateApiKey now rawKey =>
      have hs : (validateApiKey hash now rawKey s).2 = s := by
        rw [validateApiKey, hm, hr]
        split <;> rfl
      rw [nextState, hs]
      exact ⟨hr, fun hn _ => he hn⟩
    | revokeApiKey =>
      rw [nextState, revokeApiKey, hm, hr]
      refine ⟨rfl, fun hn _ => ⟨?_, (he hn).2⟩⟩
      rw [(he hn).1]
      rfl
    | rotateApiKey =>
      refine ⟨hr, fun hn _ => ?_⟩
      rw [nextState, (he hn).1, (he hn).2]
      exact ⟨rfl, rfl⟩

theorem validateApiKey_database (calls : List Call) (now : Int) (rawKey : String) :
    (validateApiKey hash now rawKey (stateAfter hash calls ⟨false, [], []⟩)).1 = none := by
  rw [validateApiKey, stateAfter_useInMemory, (database_after calls).1]
  split <;> rfl

end

/-- The service has the live keys at every point of a sequence of calls exactly if it is in memory
mode, or no key is generated. -/
theorem key_lifecycle_iff {hash : TextHash} {calls : List Call} (useInMemory : Bool)
    (hInjective : Function.Injective hash.digest)
    (hKeys : ((calls.filterMap Call.draw).map Draw.key).Nodup)
    (hIds : ((calls.filterMap Call.draw).map Draw.id).Nodup) :
    (∀ before, before <+: calls →
        Lifecycle hash (liveKeys before) (stateAfter hash before ⟨useInMemory, [], []⟩)) ↔
      useInMemory = true ∨ ∀ call ∈ calls, call.generates = false := by
  constructor
  · intro ha
    cases useInMemory with
    | true => exact .inl rfl
    | false =>
      refine .inr fun call hc => ?_
      obtain ⟨before, after, rfl⟩ := append_of_mem hc
      cases call with
      | generateApiKey draw now ownerId scope tier scopes =>
        have hb := ha (before ++ [.generateApiKey draw now ownerId scope tier scopes])
          ⟨after, by simp⟩
        have hn := hb.validates now draw.rawKey
        rw [validateApiKey_database, map_none, eq_comm, map_eq_none_iff,
          liveKeys_snoc, nextLive, find?_eq_none] at hn
        exact absurd (by simp) (hn _ (mem_append_right _ (mem_singleton_self _)))
      | _ => rfl
  · intro he before hb
    have hd := hb.sublist.filterMap Call.draw
    cases useInMemory with
    | true =>
      exact lifecycle_inMemory hInjective (hKeys.sublist (hd.map _))
        (hIds.sublist (hd.map _)) []
    | false =>
      have hn := he.resolve_left Bool.false_ne_true
      obtain ⟨hl, hs⟩ := (@database_after hash before).2 fun call hc =>
        hn call (hb.subset hc)
      refine ⟨fun now rawKey => ?_, fun draw now id => ?_⟩
      · rw [validateApiKey_database, hl]
        rfl
      · rw [hs, hl]
        rfl

def drawOf (byte : UInt8) : Draw :=
  ⟨replicate 32 byte, replicate 8 byte, length_replicate, length_replicate⟩

def rotatedKey : List Call := [.generateApiKey (drawOf 1) 0 "acme" (.one "read") .pro none,
    .validateApiKey 1 (drawOf 1).rawKey, .rotateApiKey (drawOf 2) 2 (drawOf 1).keyId,
    .validateApiKey 3 (drawOf 1).rawKey, .revokeApiKey (drawOf 2).keyId (some "acme")]

theorem key_lifecycle_rotatedKey :
    (liveKeys (rotatedKey.take 4)).map IssuedKey.rawKey = [(drawOf 2).rawKey] ∧
    Lifecycle (sha256On []) (liveKeys (rotatedKey.take 4))
      (stateAfter (sha256On []) (rotatedKey.take 4) ⟨true, [], []⟩) :=
  ⟨by decide, (key_lifecycle_iff true (sha256On_injective (by simp)) (by decide) (by decide)).mpr
    (.inl rfl) _ ( take_prefix 4 rotatedKey)⟩

/-- With the database, a key that was just generated does not validate. -/
theorem generated_key_refused : liveKeys (rotatedKey.take 1) =
      [⟨(drawOf 1).keyId, (drawOf 1).rawKey, ⟨"acme", ["read"], .pro⟩⟩] ∧
    (validateApiKey sha256Hash 1 (drawOf 1).rawKey
      (stateAfter sha256Hash (rotatedKey.take 1) ⟨false, [], []⟩)).1 = none ∧
    ¬ Lifecycle sha256Hash (liveKeys (rotatedKey.take 1))
      (stateAfter sha256Hash (rotatedKey.take 1) ⟨false, [], []⟩) := by
  have hn : (validateApiKey sha256Hash 1 (drawOf 1).rawKey
      (stateAfter sha256Hash (rotatedKey.take 1) ⟨false, [], []⟩)).1 = none :=
    validateApiKey_database _ _ _
  refine ⟨rfl, hn, fun ha => ?_⟩
  have hl := ha.validates 1 (drawOf 1).rawKey
  rw [hn] at hl
  exact absurd hl (by decide)

end Credence.ApiKeys
