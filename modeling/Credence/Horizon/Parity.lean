import Credence.Horizon.BondEvents
import Credence.Js.Map
import Credence.ProofKit.Walk
import Mathlib.Data.List.Sort

/-! `src/services/horizonParity.ts`: the state that the event ledger accounts for, and its
comparison with the committed one. -/

namespace Credence.Horizon

open Js Crypto List

/-- The order of the sort: by paging token, then by the text of the row's number. -/
def EventLe (a b : HorizonEventRecord) : Prop :=
  a.pagingToken < b.pagingToken ∨ a.pagingToken = b.pagingToken ∧ toString a.id ≤ toString b.id

instance : DecidableRel EventLe := fun _ _ => inferInstanceAs (Decidable (_ ∨ _))

structure Bucket where
  last : IdentityStateView
  seenEvents : List String

def foldEvent (byAddress : List (String × Bucket)) (event : HorizonEventRecord) :
    List (String × Bucket) :=
  let address := event.payload.address
  if event.eventType ≠ "create_bond" ∨ address = "" then byAddress
  else
    let candidate := stateFromBondEvent event.payload
    let bucket := (Map.get address byAddress).getD ⟨candidate, []⟩
    if event.eventId ∈ bucket.seenEvents then byAddress
    else
      Map.set address
        { last := {
            address
            bondedAmount := candidate.bondedAmount
            hasBondStart := bucket.last.hasBondStart || candidate.hasBondStart
            bondDuration := candidate.bondDuration
            active := true }
          seenEvents := bucket.seenEvents ++ [event.eventId] }
        byAddress

def applyBondEvents (events : List HorizonEventRecord) : List (String × IdentityStateView) :=
  let ordered := events.insertionSort EventLe
  (ordered.foldl foldEvent []).map fun entry => (entry.1, entry.2.last)

inductive FindingKind where
  | recordHashMismatch
  | stateMismatch
  | eventWithoutState
  | stateWithoutEvent
  deriving DecidableEq

structure HorizonParityFinding where
  kind : FindingKind
  address : String
  eventId : Option String
  expected : Option String
  actual : Option String
  detail : String

structure HorizonParityReport where
  totalEvents : Nat
  totalAddresses : Nat
  matchedAddresses : Int
  mismatchedAddresses : Nat
  findings : List HorizonParityFinding
  valid : Bool

def checkRecord (hash : TextHash) (event : HorizonEventRecord) : List HorizonParityFinding :=
  let expectedHash := computeStateHash hash (stateFromBondEvent event.payload)
  if event.eventType = "create_bond" ∧ event.stateHash ≠ none ∧
      event.stateHash ≠ some expectedHash then
    [{ kind := .recordHashMismatch
       address := event.payload.address
       eventId := some event.eventId
       expected := some expectedHash
       actual := event.stateHash
       detail := "Recorded state_hash does not match the event payload; record may have been " ++
         "tampered with." }]
  else []

/-- The compared fields: the name, whether the values differ, and the values. -/
def comparedFields (expected actual : IdentityStateView) : List (String × Bool × Json × Json) :=
  [("bondedAmount", expected.bondedAmount ≠ actual.bondedAmount, .str expected.bondedAmount,
      .str actual.bondedAmount),
    ("hasBondStart", expected.hasBondStart ≠ actual.hasBondStart, .bool expected.hasBondStart,
      .bool actual.hasBondStart),
    ("bondDuration", expected.bondDuration ≠ actual.bondDuration,
      durationJson expected.bondDuration, durationJson actual.bondDuration),
    ("active", expected.active ≠ actual.active, .bool expected.active, .bool actual.active)]

def mismatchTexts (expected actual : IdentityStateView) : List String :=
  ((comparedFields expected actual).filter fun (_, differ, _, _) => differ).map
    fun (field, _, e, a) => field ++ " expected=" ++ e.stringify ++ " actual=" ++ a.stringify

def checkState (states : String → Option IdentityStateView) (address : String)
    (expected : IdentityStateView) : List HorizonParityFinding :=
  match states address with
  | none =>
    [{ kind := .eventWithoutState
       address
       eventId := none
       expected := some expected.json.stringify
       actual := none
       detail := "A committed event exists but the identity has no committed state." }]
  | some actual =>
    if mismatchTexts expected actual = [] then []
    else
      [{ kind := .stateMismatch
         address
         eventId := none
         expected := some expected.json.stringify
         actual := some actual.json.stringify
         detail := "Committed state diverges from the event ledger: " ++
           String.intercalate "; " (mismatchTexts expected actual) }]

def checkKnown (states : String → Option IdentityStateView)
    (expectedByAddress : List (String × IdentityStateView)) (address : String) :
    List HorizonParityFinding :=
  if (Map.get address expectedByAddress).isSome then []
  else
    match states address with
    | none => []
    | some actual =>
      if actual.active = true ∨ actual.bondedAmount ≠ "0" then
        [{ kind := .stateWithoutEvent
           address
           eventId := none
           expected := none
           actual := some actual.json.stringify
           detail := "Committed state exists but no Horizon event record accounts for it " ++
             "(silent gap)." }]
      else []

def verifyHorizonParity (hash : TextHash) (events : List HorizonEventRecord)
    (states : String → Option IdentityStateView) (knownAddresses : List String) :
    HorizonParityReport :=
  let expectedByAddress := applyBondEvents events
  let findings := events.flatMap (checkRecord hash) ++
    expectedByAddress.flatMap (fun entry => checkState states entry.1 entry.2) ++
    knownAddresses.flatMap (checkKnown states expectedByAddress)
  let mismatchedAddresses :=
    ((findings.filter fun finding => finding.kind ≠ .recordHashMismatch).map
      HorizonParityFinding.address).dedup.length
  { totalEvents := events.length
    totalAddresses := expectedByAddress.length
    matchedAddresses := expectedByAddress.length - mismatchedAddresses
    mismatchedAddresses
    findings
    valid := findings.isEmpty }

def Identity.stateView (address : String) (row : Identity) : IdentityStateView where
  address
  bondedAmount := row.bondedAmount
  hasBondStart := row.bondStart.isSome
  bondDuration := row.bondDuration
  active := row.active

def Db.states (db : Db) (address : String) : Option IdentityStateView :=
  (db.identities address).map (Identity.stateView address)

theorem mismatchTexts_eq_nil {expected actual : IdentityStateView}
    (ha : expected.address = actual.address) :
    mismatchTexts expected actual = [] ↔ expected = actual := by
  rw [mismatchTexts, map_eq_nil_iff, filter_eq_nil_iff, IdentityStateView.ext_iff]
  simp [comparedFields, ha]

theorem foldEvent_cases (byAddress : List (String × Bucket)) (event : HorizonEventRecord) :
    foldEvent byAddress event = byAddress ∨ ∃ bucket, bucket.last.active = true ∧
        foldEvent byAddress event = Map.set event.payload.address bucket byAddress := by
  unfold foldEvent
  simp only
  split
  · exact .inl rfl
  · split
    · exact .inl rfl
    · exact .inr ⟨_, rfl, rfl⟩

variable {byAddress : List (String × Bucket)} {events : List HorizonEventRecord}
  {event : HorizonEventRecord}

theorem nodup_foldl_foldEvent (events : List HorizonEventRecord) (h : Map.Nodup byAddress) :
    Map.Nodup (events.foldl foldEvent byAddress) := by
  induction events generalizing byAddress with
  | nil => exact h
  | cons event events ih =>
    apply ih
    rcases foldEvent_cases byAddress event with hs | ⟨bucket, -, he⟩
    · rw [hs]
      exact h
    · rw [he]
      exact Map.nodup_set _ _ h

theorem nodup_applyBondEvents (events : List HorizonEventRecord) :
    Map.Nodup (applyBondEvents events) :=
  Map.nodup_map Bucket.last (nodup_foldl_foldEvent _ nodup_nil)

def HashesMatch (hash : TextHash) (events : List HorizonEventRecord) : Prop :=
  ∀ event ∈ events, event.eventType = "create_bond" → event.stateHash = none ∨
      event.stateHash = some (computeStateHash hash (stateFromBondEvent event.payload))

/-- The committed state of the address is the expected one. -/
def Matches (states : String → Option IdentityStateView) (entry : String × IdentityStateView) :
    Prop :=
  (states entry.1).map (fun actual => { actual with address := entry.2.address }) = some entry.2

instance (states : String → Option IdentityStateView) : DecidablePred (Matches states) :=
  fun _ => inferInstanceAs (Decidable (_ = _))

def SilentGap (states : String → Option IdentityStateView)
    (expectedByAddress : List (String × IdentityStateView)) (address : String) : Prop :=
  Map.get address expectedByAddress = none ∧
    ∃ actual, states address = some actual ∧ (actual.active = true ∨ actual.bondedAmount ≠ "0")

section

variable {hash : TextHash} {states : String → Option IdentityStateView}

theorem forall_checkRecord_eq_nil : (∀ event ∈ events, checkRecord hash event = []) ↔
    HashesMatch hash events := by
  refine forall₂_congr fun event _ => ?_
  simp only [checkRecord]
  split
  · next hs => simp [hs]
  · next hs =>
    refine iff_of_true rfl fun ht => ?_
    tauto

theorem checkState_cases (states : String → Option IdentityStateView)
    (entry : String × IdentityStateView) :
    checkState states entry.1 entry.2 = [] ∧ Matches states entry ∨
      ∃ finding, checkState states entry.1 entry.2 = [finding] ∧ finding.address = entry.1 ∧
        finding.kind ≠ .recordHashMismatch ∧ ¬Matches states entry := by
  unfold checkState Matches
  cases states entry.1 with
  | none => exact .inr ⟨_, rfl, rfl, nofun, nofun⟩
  | some actual =>
    have ht : mismatchTexts entry.2 actual = [] ↔
        entry.2 = { actual with address := entry.2.address } :=
      @mismatchTexts_eq_nil entry.2 { actual with address := entry.2.address } rfl
    dsimp only
    split
    · next hn => exact .inl ⟨rfl, congrArg some (ht.mp hn).symm⟩
    · next hn =>
      exact .inr ⟨_, rfl, rfl, nofun, fun he => hn (ht.mpr (Option.some.inj he).symm)⟩

theorem checkKnown_eq_nil {entries : List (String × IdentityStateView)} {address : String} :
    checkKnown states entries address = [] ↔ ¬SilentGap states entries address := by
  unfold checkKnown SilentGap
  cases Map.get address entries with
  | some => simp
  | none =>
    cases states address with
    | none => simp
    | some actual => by_cases hg : actual.active = true ∨ actual.bondedAmount ≠ "0" <;> simp_all

theorem findings_eq_nil_iff {knownAddresses : List String} :
    (verifyHorizonParity hash events states knownAddresses).findings = [] ↔
      HashesMatch hash events ∧ (∀ entry ∈ applyBondEvents events, Matches states entry) ∧
        ∀ address ∈ knownAddresses, ¬SilentGap states (applyBondEvents events) address := by
  simp only [verifyHorizonParity, append_eq_nil_iff, flatMap_eq_nil_iff,
    forall_checkRecord_eq_nil, checkKnown_eq_nil, and_assoc]
  refine and_congr_right fun _ => and_congr_left fun _ => forall₂_congr fun entry _ => ?_
  rcases checkState_cases states entry with ⟨hi, hy⟩ | ⟨finding, ho, -, -, hd⟩
  · simp [hi, hy]
  · simp [ho, hd]

theorem valid_iff {knownAddresses : List String} :
    (verifyHorizonParity hash events states knownAddresses).valid = true ↔
      HashesMatch hash events ∧ (∀ entry ∈ applyBondEvents events, Matches states entry) ∧
        ∀ address ∈ knownAddresses, ¬SilentGap states (applyBondEvents events) address :=
  List.isEmpty_iff.trans findings_eq_nil_iff

theorem findings_eq_nil_of_states (hh : HashesMatch hash events)
    (hs : ∀ address, states address = Map.get address (applyBondEvents events))
    (knownAddresses : List String) :
    (verifyHorizonParity hash events states knownAddresses).findings = [] := by
  refine findings_eq_nil_iff.mpr ⟨hh, fun entry he => ?_, ?_⟩
  · rw [Matches, hs, Map.get_of_mem (nodup_applyBondEvents events) he]
    rfl
  · rintro address - ⟨hn, actual, ha, -⟩
    rw [hs, hn] at ha
    cases ha

end

/-- The rows are those of bonds, and no two are of one event. -/
structure BondRows (events : List HorizonEventRecord) : Prop where
  ids : events.Pairwise fun a b => a.eventId ≠ b.eventId
  kinds : ∀ event ∈ events, event.eventType = "create_bond" ∧ event.payload.address ≠ ""

structure InOrder (events : List HorizonEventRecord) : Prop extends BondRows events where
  tokens : events.Pairwise fun a b => a.pagingToken < b.pagingToken

theorem BondRows.of_snoc (h : BondRows (events ++ [event])) : BondRows events where
  ids := (pairwise_append.mp h.ids).1
  kinds e he := h.kinds e (mem_append_left _ he)

def eventsOf (address : String) (events : List HorizonEventRecord) : List HorizonEventRecord :=
  events.filter fun event => event.payload.address = address

theorem eventsOf_snoc (address : String) (events : List HorizonEventRecord)
    (event : HorizonEventRecord) :
    eventsOf address (events ++ [event]) =
      eventsOf address events ++ if event.payload.address = address then [event] else [] := by
  by_cases ha : event.payload.address = address <;> simp [eventsOf, ha]

/-- The bucket of an address after the rows `events`, all of that address. -/
def bucketOf (events : List HorizonEventRecord) : Option Bucket :=
  events.getLast?.map fun last =>
    ⟨stateFromBondEvent last.payload, events.map HorizonEventRecord.eventId⟩

theorem bucketOf_seen (events : List HorizonEventRecord) (first : IdentityStateView) :
    ((bucketOf events).getD ⟨first, []⟩).seenEvents = events.map HorizonEventRecord.eventId := by
  cases hl : events.getLast? with
  | none =>
    rw [getLast?_eq_none_iff] at hl
    subst hl
    rfl
  | some => simp [bucketOf, hl]

theorem foldEvent_snoc (h : BondRows (events ++ [event]))
    (hf : ∀ address, Map.get address byAddress = bucketOf (eventsOf address events)) :
    ∃ bucket, foldEvent byAddress event = Map.set event.payload.address bucket byAddress ∧
      bucketOf (eventsOf event.payload.address (events ++ [event])) = some bucket := by
  obtain ⟨ht, ha⟩ := h.kinds event (by simp)
  have hn : event.eventId ∉ (eventsOf event.payload.address events).map
      HorizonEventRecord.eventId := by
    intro hm
    obtain ⟨other, ho, hi⟩ := mem_map.mp hm
    exact (pairwise_append.mp h.ids).2.2 other (mem_of_mem_filter ho) event (by simp)
      hi
  refine ⟨⟨stateFromBondEvent event.payload,
    (eventsOf event.payload.address (events ++ [event])).map HorizonEventRecord.eventId⟩, ?_, ?_⟩
  · rw [foldEvent, if_neg (by simp [ht, ha]), hf]
    simp only [bucketOf_seen]
    rw [if_neg hn, eventsOf_snoc, if_pos rfl, map_append, map_singleton]
    simp [stateFromBondEvent]
  · rw [eventsOf_snoc, if_pos rfl]
    simp [bucketOf]

theorem foldl_foldEvent (h : BondRows events) : Map.Nodup (events.foldl foldEvent []) ∧
      ∀ address, Map.get address (events.foldl foldEvent []) =
        bucketOf (eventsOf address events) := by
  induction events using reverseRecOn with
  | nil => exact ⟨nodup_nil, fun _ => rfl⟩
  | append_singleton events event ih =>
    obtain ⟨hn, hf⟩ := ih h.of_snoc
    obtain ⟨bucket, he, hb⟩ := foldEvent_snoc h hf
    rw [foldl_append, foldl_cons, foldl_nil, he]
    refine ⟨Map.nodup_set _ _ hn, fun address => ?_⟩
    rw [Map.get_set]
    split
    · rename_i ha
      rw [← ha, hb]
    · rename_i ha
      rw [hf, eventsOf_snoc, if_neg ha, append_nil]

/-- The ledger accounts, for an address, for the state of its row with the latest token. -/
theorem applyBondEvents_spec (h : InOrder events) : Map.Nodup (applyBondEvents events) ∧
      ∀ address, Map.get address (applyBondEvents events) =
        (eventsOf address events).getLast?.map fun last => stateFromBondEvent last.payload := by
  have hs : events.insertionSort EventLe = events :=
    List.Pairwise.insertionSort_eq (h.tokens.imp fun hl => .inl hl)
  obtain ⟨hn, hf⟩ := foldl_foldEvent h.toBondRows
  refine ⟨?_, fun address => ?_⟩
  · simp only [applyBondEvents, hs]
    exact Map.nodup_map Bucket.last hn
  · simp only [applyBondEvents, hs]
    rw [Map.get_map Bucket.last, hf, bucketOf, Option.map_map]
    rfl

end Credence.Horizon
