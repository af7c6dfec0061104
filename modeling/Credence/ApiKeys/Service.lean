import Credence.Crypto.Sha256
import Credence.Js.Buffer
import Credence.Js.Map

/-! API keys, in a `Map` or in the table `api_keys`; a key is generated and rotated in the `Map`
whatever the mode. -/

namespace Credence.ApiKeys

open Crypto Js List

inductive SubscriptionTier where
  | free
  | pro
  | enterprise
  deriving DecidableEq

structure StoredApiKey where
  id : String
  hashedKey : String
  lookupPrefix : String
  scopes : List String
  scope : Option String
  tier : SubscriptionTier
  ownerId : String
  createdAt : Int
  lastUsedAt : Option Int
  active : Bool
  deriving DecidableEq

structure CreateApiKeyResult where
  id : String
  key : String
  lookupPrefix : String
  scope : Option String
  scopes : List String
  tier : SubscriptionTier
  createdAt : Int

abbrev Store := List (String × StoredApiKey)

def hashKey (hash : TextHash) (rawKey : String) : String := hash.digest rawKey

def extractPrefix (rawKey : String) : String := String.ofList ((rawKey.toList.drop 3).take 8)

/-- The pattern `^cr_[0-9a-f]{64}$`. -/
def isRawKey (rawKey : String) : Bool :=
  rawKey.toList.take 3 = ['c', 'r', '_'] ∧ (rawKey.toList.drop 3).length = 64 ∧
    (rawKey.toList.drop 3).all fun c => ('0' ≤ c && c ≤ '9') || ('a' ≤ c && c ≤ 'f')

structure Draw where
  key : List UInt8
  id : List UInt8
  keyLength : key.length = 32
  idLength : id.length = 8

def Draw.rawKey (draw : Draw) : String := "cr_" ++ Buffer.toHex draw.key

def Draw.keyId (draw : Draw) : String := Buffer.toHex draw.id

inductive ScopeArgument where
  | one (scope : String)
  | many (scopes : List String)

def grantedScopes (scope : ScopeArgument) (scopes : Option (List String)) : List String :=
  match scopes, scope with
  | some scopes, _ => scopes
  | none, .many scopes => scopes
  | none, .one scope => [scope]

def newKey (hash : TextHash) (draw : Draw) (now : Int) (ownerId : String)
    (granted : List String) (tier : SubscriptionTier) : StoredApiKey where
  id := draw.keyId
  hashedKey := hashKey hash draw.rawKey
  lookupPrefix := extractPrefix draw.rawKey
  scopes := granted
  scope := granted.head?
  tier
  ownerId
  createdAt := now
  lastUsedAt := none
  active := true

def generateApiKey (hash : TextHash) (draw : Draw) (now : Int) (ownerId : String)
    (scope : ScopeArgument) (tier : SubscriptionTier) (scopes : Option (List String))
    (store : Store) : CreateApiKeyResult × Store :=
  let granted := grantedScopes scope scopes
  let stored := newKey hash draw now ownerId granted tier
  (⟨stored.id, draw.rawKey, stored.lookupPrefix, stored.scope, granted, tier, now⟩,
    Map.set draw.keyId stored store)

/-- The loop of `_validateApiKeyDirect` over the values of the `Map`. -/
def validateInMemory (hash : TextHash) (now : Int) (rawKey : String) (store : Store) :
    Option StoredApiKey × Store :=
  let found := store.find? fun entry => entry.2.lookupPrefix = extractPrefix rawKey ∧
    entry.2.hashedKey = hashKey hash rawKey
  match found with
  | some (id, key) =>
    if key.active then
      let key := { key with lastUsedAt := some now }
      (some key, Map.set id key store)
    else (none, store)
  | none => (none, store)

def revokeInMemory (id : String) (ownerId : Option String) (store : Store) : Bool × Store :=
  match Map.get id store with
  | some key =>
    if ownerId.any fun owner => key.ownerId ≠ owner then (false, store)
    else (true, Map.set id { key with active := false } store)
  | none => (false, store)

def rotateApiKey (hash : TextHash) (draw : Draw) (now : Int) (id : String) (store : Store) :
    Option CreateApiKeyResult × Store :=
  match Map.get id store with
  | some existing =>
    if existing.active then
      let (result, store) := generateApiKey hash draw now existing.ownerId (.many existing.scopes)
        existing.tier none (Map.set id { existing with active := false } store)
      (some result, store)
    else (none, store)
  | none => (none, store)

/-- The rows of `api_keys`; the text of the serial number is the id. -/
abbrev ApiKeyTable := List StoredApiKey

def findByHashAndPrefix (hashedKey lookupPrefix : String) (rows : ApiKeyTable) :
    Option StoredApiKey :=
  rows.find? fun row => row.hashedKey = hashedKey ∧ row.lookupPrefix = lookupPrefix ∧
    row.active ∧ row.scopes ≠ []

def updateLastUsedAt (id ownerId : String) (now : Int) (rows : ApiKeyTable) : ApiKeyTable :=
  rows.map fun row =>
    if row.id = id ∧ row.ownerId = ownerId then { row with lastUsedAt := some now } else row

def StoredApiKey.revokedBy (id : String) (ownerId : Option String) (row : StoredApiKey) : Bool :=
  row.id = id ∧ ownerId.all fun owner => row.ownerId = owner

def revokeInTable (id : String) (ownerId : Option String) (rows : ApiKeyTable) :
    Bool × ApiKeyTable :=
  (rows.any (StoredApiKey.revokedBy id ownerId),
    rows.map fun row => if row.revokedBy id ownerId then { row with active := false } else row)

structure State where
  useInMemory : Bool
  inMemoryStore : Store
  rows : ApiKeyTable

/-- `validateApiKey` when no other validation is in flight. -/
def validateApiKey (hash : TextHash) (now : Int) (rawKey : String) (s : State) :
    Option StoredApiKey × State :=
  if isRawKey rawKey then
    if s.useInMemory then
      let (result, store) := validateInMemory hash now rawKey s.inMemoryStore
      (result, { s with inMemoryStore := store })
    else
      match findByHashAndPrefix (hashKey hash rawKey) (extractPrefix rawKey) s.rows with
      | some key =>
        (some { key with lastUsedAt := some now },
          { s with rows := updateLastUsedAt key.id key.ownerId now s.rows })
      | none => (none, s)
  else (none, s)

def revokeApiKey (id : String) (ownerId : Option String) (s : State) : Bool × State :=
  if s.useInMemory then
    let (result, store) := revokeInMemory id ownerId s.inMemoryStore
    (result, { s with inMemoryStore := store })
  else
    let (result, rows) := revokeInTable id ownerId s.rows
    (result, { s with rows })

theorem hexChars_length (bytes : List UInt8) :
    (Buffer.hexChars bytes).length = 2 * bytes.length := by
  induction bytes with
  | nil => rfl
  | cons byte bytes ih =>
    rw [Buffer.hexChars, length_cons, length_cons, ih, length_cons]
    omega

theorem mem_hexChars {bytes : List UInt8} {c : Char} (h : c ∈ Buffer.hexChars bytes) :
    (('0' ≤ c && c ≤ '9') || ('a' ≤ c && c ≤ 'f')) = true := by
  have hd : ∀ n < 16, (('0' ≤ Json.hexDigit n && Json.hexDigit n ≤ '9') ||
      ('a' ≤ Json.hexDigit n && Json.hexDigit n ≤ 'f')) = true := by
    decide
  induction bytes with
  | nil => cases h
  | cons byte bytes ih =>
    have hb := byte.toNat_lt
    rw [Buffer.hexChars, mem_cons, mem_cons] at h
    rcases h with rfl | rfl | h
    · exact hd _ (by omega)
    · exact hd _ (by omega)
    · exact ih h

theorem toList_rawKey (draw : Draw) :
    draw.rawKey.toList = 'c' :: 'r' :: '_' :: Buffer.hexChars draw.key := by
  simp [Draw.rawKey, Buffer.toHex]

theorem isRawKey_rawKey (draw : Draw) : isRawKey draw.rawKey = true := by
  rw [isRawKey, decide_eq_true_eq, toList_rawKey]
  refine ⟨rfl, ?_, all_eq_true.mpr fun c hc => mem_hexChars hc⟩
  rw [drop_succ_cons, drop_succ_cons, drop_succ_cons, drop_zero,
    hexChars_length, draw.keyLength]

end Credence.ApiKeys
