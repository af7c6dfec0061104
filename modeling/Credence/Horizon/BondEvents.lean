import Credence.Crypto.Sha256
import Credence.Js.Json
import Credence.Js.Text

/-! The handler of `src/listeners/horizonBondEvents.ts` for a `create_bond` operation, with the
statements of its transaction. A paging token is the number that its digits denote. -/

namespace Credence.Horizon

open Js Crypto

structure Operation where
  id : String
  type : String
  pagingToken : Nat
  sourceAccount : String
  amount : String
  duration : Option String
  deriving DecidableEq

/-- `bondOperationSchema`; `isAccount` stands for the check of the Stellar SDK. -/
def Operation.isValid (isAccount : String → Bool) (op : Operation) : Bool :=
  utf16Length op.sourceAccount.toList ≤ 128 && isAccount op.sourceAccount &&
    (1 ≤ utf16Length op.id.toList && utf16Length op.id.toList ≤ 256) &&
    (utf16Length op.amount.toList ≤ 32 && op.amount.toList ≠ [] &&
      op.amount.toList.all Char.isDigit) &&
    op.duration.all fun duration => utf16Length duration.toList ≤ 32

/-- The event that `parseBondEvent` makes of an operation; the ledger stores it as the payload. -/
structure BondEvent where
  identityId : String
  bondId : String
  address : String
  amount : String
  duration : Option String

def parseBondEvent (op : Operation) : BondEvent where
  identityId := op.sourceAccount
  bondId := op.id
  address := op.sourceAccount
  amount := op.amount
  duration := op.duration

structure Identity where
  bondedAmount : String
  bondStart : Option Nat
  bondDuration : Option Int
  active : Bool

def Identity.fresh : Identity := ⟨"0", none, none, false⟩

structure HorizonEventRecord where
  id : Nat
  streamName : String
  eventId : String
  pagingToken : Nat
  eventType : String
  payload : BondEvent
  stateHash : Option String

structure Db where
  now : Nat
  identities : String → Option Identity
  events : List HorizonEventRecord
  nextEventId : Nat
  cursor : Option Nat

def Db.empty : Db := ⟨0, fun _ => none, [], 1, none⟩

def streamName : String := "bond_creation"

@[ext]
structure IdentityStateView where
  address : String
  bondedAmount : String
  hasBondStart : Bool
  bondDuration : Option Int
  active : Bool
  deriving DecidableEq

/-- `duration ? parseInt(duration, 10) : null`, with `none` for `null` and `some none` for `NaN`. -/
def durationSeconds (duration : Option String) : Option (Option Int) :=
  match duration with
  | none => none
  | some text => if text = "" then none else some (parseInt text.toList)

def stateFromBondEvent (payload : BondEvent) : IdentityStateView where
  address := payload.address
  bondedAmount := payload.amount
  hasBondStart := true
  bondDuration := (durationSeconds payload.duration).join
  active := true

def durationJson : Option Int → Json
  | none => .null
  | some n => .num (.ofInt n)

def IdentityStateView.json (state : IdentityStateView) : Json :=
  .obj [("address", .str state.address), ("bondedAmount", .str state.bondedAmount),
    ("hasBondStart", .bool state.hasBondStart), ("bondDuration", durationJson state.bondDuration),
    ("active", .bool state.active)]

def computeStateHash (hash : TextHash) (state : IdentityStateView) : String :=
  hash.digest state.json.stringify

/-- PostgreSQL text has no character `U+0000`. -/
def hasNul (text : String) : Bool := text.toList.contains (Char.ofNat 0)

/-- `INSERT … ON CONFLICT (address) DO NOTHING`, on a column `varchar(64)`. -/
def upsertIdentity (address : String) (db : Db) : Option Db :=
  if address.length ≤ 64 ∧ hasNul address = false then
    some { db with
      identities := Function.update db.identities address
        (some ((db.identities address).getD .fresh)) }
  else none

/-- The value of the parameter for the column `integer`; `none` is an error. -/
def integerParam (seconds : Option (Option Int)) : Option (Option Int) :=
  match seconds with
  | none => some none
  | some none => none
  | some (some n) => if -2 ^ 31 ≤ n ∧ n < 2 ^ 31 then some (some n) else none

def Identity.withBond (row : Identity) (now : Nat) (amount : String) (duration : Option Int) :
    Identity :=
  { bondedAmount := amount
    bondStart := some (row.bondStart.getD now)
    bondDuration := duration
    active := true }

def upsertBond (address amount : String) (duration : Option String) (db : Db) : Option Db :=
  (integerParam (durationSeconds duration)).map fun seconds =>
    { db with
      identities := Function.update db.identities address
        ((db.identities address).map fun row => row.withBond db.now amount seconds) }

/-- The checks of the method, then `INSERT … ON CONFLICT (stream_name, event_id) DO NOTHING`. The
column `ledger_seq` is a `bigint` that gets the token as a double. -/
def record (hash : TextHash) (op : Operation) (db : Db) : Option Db :=
  if trim op.id.toList ≠ [] ∧ hasNul op.id = false ∧ hasNul (op.duration.getD "") = false ∧
      op.pagingToken < 2 ^ 63 - 512 then
    if db.events.any (fun event => event.streamName = streamName ∧ event.eventId = op.id) then
      some { db with nextEventId := db.nextEventId + 1 }
    else
      some { db with
        nextEventId := db.nextEventId + 1
        events := db.events ++ [{
          id := db.nextEventId
          streamName := streamName
          eventId := op.id
          pagingToken := op.pagingToken
          eventType := "create_bond"
          payload := parseBondEvent op
          stateHash := some (computeStateHash hash (stateFromBondEvent (parseBondEvent op))) }] }
  else none

def upsertCursor (pagingToken : Nat) (db : Db) : Db := { db with cursor := some pagingToken }

/-- The transaction of the handler; `none` is a rollback. -/
def transaction (hash : TextHash) (op : Operation) (db : Db) : Option Db := do
  let event := parseBondEvent op
  let db ← upsertIdentity event.identityId { db with now := db.now + 1 }
  let db ← upsertBond event.address event.amount event.duration db
  let db ← record hash op db
  return upsertCursor op.pagingToken db

end Credence.Horizon
