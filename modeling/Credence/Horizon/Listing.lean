import Credence.Horizon.Parity
import Mathlib.Data.List.Dedup
import Mathlib.Data.Prod.Lex
import Mathlib.Data.String.Basic

/-! `HorizonParityService.verify` over `HorizonEventLedger.list`, which returns at most a thousand
rows, the first ones in the order of the text of their tokens. -/

namespace Credence.Horizon

open Js Crypto List

structure LedgerRow where
  id : Nat
  streamName : String
  eventId : String
  pagingToken : String
  eventType : String
  payload : BondEvent
  stateHash : Option String

/-- The rows, with the primary key and the unique index of `horizon_events`. -/
structure Ledger where
  rows : List LedgerRow
  ids : rows.Pairwise fun a b => a.id ≠ b.id
  eventIds : rows.Pairwise fun a b => a.streamName = b.streamName → a.eventId ≠ b.eventId

structure HorizonEventListOptions where
  limit : Option Int
  afterPagingToken : Option String

section

variable (rank : String → Nat) (textLe : String → String → Bool)

/-- `rank` gives the place of a token in the order of `localeCompare` with `numeric`. -/
def LedgerRow.record (row : LedgerRow) : HorizonEventRecord where
  id := row.id
  streamName := row.streamName
  eventId := row.eventId
  pagingToken := rank row.pagingToken
  eventType := row.eventType
  payload := row.payload
  stateHash := row.stateHash

/-- `ORDER BY paging_token ASC, id ASC`, with the order `textLe` of the text column. -/
def RowLe (a b : LedgerRow) : Prop :=
  textLe a.pagingToken b.pagingToken = true ∧
    (textLe b.pagingToken a.pagingToken = true → a.id ≤ b.id)

instance : DecidableRel (RowLe textLe) := fun _ _ => inferInstanceAs (Decidable (_ ∧ (_ → _)))

def Ledger.stream (ledger : Ledger) (streamName : String) : List LedgerRow :=
  ledger.rows.filter fun row => row.streamName = streamName

def Ledger.list (ledger : Ledger) (streamName : String) (options : HorizonEventListOptions) :
    List HorizonEventRecord :=
  let limit := min (max (options.limit.getD 1000) 1) 5000
  let found := (ledger.stream streamName).filter fun row =>
    match options.afterPagingToken with
    | none => true
    | some after => after = "" || !textLe row.pagingToken after
  ((found.insertionSort (RowLe textLe)).take limit.toNat).map (LedgerRow.record rank)

structure HorizonParityService where
  ledger : Ledger
  states : String → Option IdentityStateView
  allAddresses : Option (List String)

def HorizonParityService.verify (hash : TextHash) (service : HorizonParityService)
    (streamName : String) (knownAddresses : Option (List String)) : HorizonParityReport :=
  verifyHorizonParity hash (service.ledger.list rank textLe streamName ⟨none, none⟩)
    service.states ((knownAddresses.or service.allAddresses).getD [])

end

variable {rank : String → Nat} {textLe : String → String → Bool} {hash : TextHash}

def Ledger.events (rank : String → Nat) (ledger : Ledger) (streamName : String) :
    List HorizonEventRecord :=
  (ledger.stream streamName).map (LedgerRow.record rank)

variable {ledger : Ledger} {streamName : String} {events : List HorizonEventRecord}

theorem list_eq : ledger.list rank textLe streamName ⟨none, none⟩ =
    (((ledger.stream streamName).insertionSort (RowLe textLe)).take 1000).map
      (LedgerRow.record rank) := by
  have ha : (ledger.stream streamName).filter (fun _ => true) = ledger.stream streamName :=
    filter_eq_self.mpr fun _ _ => rfl
  simp only [Ledger.list, ha]
  rfl

theorem eventLe_iff {a b : HorizonEventRecord} :
    EventLe a b ↔ toLex (a.pagingToken, toString a.id) ≤ toLex (b.pagingToken, toString b.id) :=
  (Prod.Lex.toLex_le_toLex (x := (_, _)) (y := (_, _))).symm

instance : Std.Total EventLe where
  total a b := by
    simpa only [eventLe_iff] using
      le_total (toLex (a.pagingToken, toString a.id)) (toLex (b.pagingToken, toString b.id))

instance : IsTrans HorizonEventRecord EventLe where
  trans _ _ _ hAB hBC := eventLe_iff.mpr ((eventLe_iff.mp hAB).trans (eventLe_iff.mp hBC))

theorem eq_of_text_eq {m n : Nat} (h : toString m = toString n) : m = n := by
  have hd : Nat.toDigits 10 m = Nat.toDigits 10 n := by
    rw [← Nat.toList_repr, ← Nat.toList_repr]
    exact congrArg String.toList h
  rw [← @Nat.ofDigitChars_ten_toDigits m, hd, Nat.ofDigitChars_ten_toDigits]

theorem foldEvent_repeat (byAddress : List (String × Bucket)) (event : HorizonEventRecord) :
    foldEvent (foldEvent byAddress event) event = foldEvent byAddress event := by
  by_cases hs : event.eventType ≠ "create_bond" ∨ event.payload.address = ""
  · simp only [foldEvent, if_pos hs]
  · unfold foldEvent
    simp only [if_neg hs]
    split
    · rfl
    · rw [Map.get_set_self, Option.getD_some, if_pos (by simp)]

variable {listed : List HorizonEventRecord}

/-- The repeated rows of a sorted list stand together. -/
theorem foldl_dedup [DecidableEq HorizonEventRecord] (byAddress : List (String × Bucket))
    (hs : events.Pairwise EventLe)
    (hc : ∀ a ∈ events, ∀ b ∈ events, EventLe a b → EventLe b a → a = b) :
    events.dedup.foldl foldEvent byAddress = events.foldl foldEvent byAddress := by
  induction events generalizing byAddress with
  | nil => rfl
  | cons event events ih =>
    have ih := fun byAddress => ih byAddress hs.of_cons fun a ha b hb =>
      hc a (mem_cons_of_mem _ ha) b (mem_cons_of_mem _ hb)
    by_cases hm : event ∈ events
    · rw [dedup_cons_of_mem hm, ih]
      cases events with
      | nil => cases hm
      | cons next events =>
        have hn : event = next := by
          have hl := rel_of_pairwise_cons hs mem_cons_self
          rcases mem_cons.mp hm with he | hd
          · exact he
          · exact hc _ (by simp) _ (by simp) hl
              (rel_of_pairwise_cons hs.of_cons hd)
        subst hn
        simp only [foldl_cons, foldEvent_repeat]
    · rw [dedup_cons_of_notMem hm, foldl_cons, foldl_cons, ih]

theorem applyBondEvents_congr (hm : ∀ event, event ∈ listed ↔ event ∈ events)
    (hs : ∀ a ∈ events, ∀ b ∈ events, EventLe a b → EventLe b a → a = b) :
    applyBondEvents listed = applyBondEvents events := by
  classical
  have hc : ∀ {rows : List HorizonEventRecord}, (∀ event ∈ rows, event ∈ events) →
      (rows.insertionSort EventLe).dedup.foldl foldEvent [] =
        (rows.insertionSort EventLe).foldl foldEvent [] := by
    intro rows hr
    refine foldl_dedup [] (pairwise_insertionSort EventLe rows) fun a ha b hb => ?_
    rw [mem_insertionSort] at ha hb
    exact hs a (hr a ha) b (hr b hb)
  have he : (listed.insertionSort EventLe).dedup = (events.insertionSort EventLe).dedup := by
    refine List.Perm.eq_of_pairwise (fun a b ha hb => ?_)
      ((pairwise_insertionSort EventLe listed).sublist (dedup_sublist _))
      ((pairwise_insertionSort EventLe events).sublist (dedup_sublist _)) ?_
    · rw [mem_dedup, mem_insertionSort] at ha hb
      exact hs a ((hm a).mp ha) b hb
    · rw [perm_ext_iff_of_nodup (nodup_dedup _) (nodup_dedup _)]
      simp [hm]
  simp only [applyBondEvents]
  rw [← hc fun event => (hm event).mp, he, hc fun _ h => h]

def Creates (address : String) (event : HorizonEventRecord) : Prop :=
  event.eventType = "create_bond" ∧ event.payload.address = address ∧ address ≠ ""

instance (address : String) : DecidablePred (Creates address) :=
  fun _ => inferInstanceAs (Decidable (_ ∧ _))

/-- The state that the row of the address with the latest token accounts for. -/
def latestState (address : String) (events : List HorizonEventRecord) : Option IdentityStateView :=
  ((events.insertionSort EventLe).filter (Creates address ·)).getLast?.map
    fun last => stateFromBondEvent last.payload

theorem foldl_filter_bonds (events : List HorizonEventRecord) :
    (events.filter fun event => event.eventType = "create_bond" ∧
      event.payload.address ≠ "").foldl foldEvent [] = events.foldl foldEvent [] := by
  rw [foldl_filter]
  congr 1
  funext byAddress event
  split
  · rfl
  · next hn => rw [foldEvent, if_pos (by simp at hn; tauto)]

variable {address : String}

theorem get_applyBondEvents (hi : events.Pairwise fun a b => a.eventId ≠ b.eventId) :
    Map.get address (applyBondEvents events) = latestState address events := by
  have hs : (events.insertionSort EventLe).Pairwise fun a b => a.eventId ≠ b.eventId :=
    ((perm_insertionSort EventLe events).pairwise_iff fun hn => Ne.symm hn).mpr hi
  have hf := (@foldl_foldEvent ((events.insertionSort EventLe).filter fun event =>
    event.eventType = "create_bond" ∧ event.payload.address ≠ "")
    ⟨hs.sublist filter_sublist, fun event he => by simpa using (mem_filter.mp he).2⟩).2 address
  rw [foldl_filter_bonds] at hf
  rw [applyBondEvents, Map.get_map Bucket.last, hf, bucketOf, Option.map_map, eventsOf,
    filter_filter, latestState]
  congr 2
  refine filter_congr fun event _ => ?_
  unfold Creates
  grind

theorem isSome_latestState : (latestState address events).isSome = true ↔
    ∃ event ∈ events, Creates address event := by
  simp [latestState]

theorem latestState_some {state : IdentityStateView}
    (h : latestState address events = some state) :
    state.address = address ∧ state.active = true := by
  obtain ⟨event, he, rfl⟩ := Option.map_eq_some_iff.mp h
  have hm := (mem_filter.mp (mem_of_getLast? he)).2
  exact ⟨(of_decide_eq_true hm).2.1, rfl⟩

theorem matches_iff {states : String → Option IdentityStateView} {state : IdentityStateView}
    (hs : state.address = address)
    (ha : ∀ actual, states address = some actual → actual.address = address) :
    Matches states (address, state) ↔ states address = some state := by
  cases hc : states address with
  | none => simp [Matches, hc]
  | some actual =>
    have hd : { actual with address := state.address } = actual := by rw [hs, ← ha actual hc]
    simp only [Matches, hc, Option.map_some, hd]

theorem pairwise_eventId (ledger : Ledger) (streamName : String) :
    (ledger.stream streamName).Pairwise fun a b => a.eventId ≠ b.eventId := by
  refine Pairwise.imp_of_mem ?_ (ledger.eventIds.sublist filter_sublist)
  intro a b ha hb hn
  have ha := of_decide_eq_true (mem_filter.mp ha).2
  have hb := of_decide_eq_true (mem_filter.mp hb).2
  exact hn (ha.trans hb.symm)

/-- The rows of the stream in the order of the text of their tokens. -/
def Ledger.inTextOrder (rank : String → Nat) (textLe : String → String → Bool) (ledger : Ledger)
    (streamName : String) : List HorizonEventRecord :=
  ((ledger.stream streamName).insertionSort (RowLe textLe)).map (LedgerRow.record rank)

/-- The verifier of a stream whose states are those of its fold finds nothing precisely when, for
every known address and every address in the first thousand rows, the latest of these rows has the
state of the latest row of all. -/
theorem verify_valid {service : HorizonParityService} {streamName : String}
    (hStates : ∀ address, service.states address =
      Map.get address (applyBondEvents (service.ledger.events rank streamName)))
    (hHashes : HashesMatch hash (service.ledger.events rank streamName))
    (knownAddresses : Option (List String)) :
    let first := (service.ledger.inTextOrder rank textLe streamName).take 1000
    (service.verify rank textLe hash streamName knownAddresses).valid = true ↔
      ∀ address, address ∈ (knownAddresses.or service.allAddresses).getD [] ∨
          (latestState address first).isSome = true →
        latestState address first =
          latestState address (service.ledger.events rank streamName) := by
  intro first
  have hl : service.ledger.list rank textLe streamName ⟨none, none⟩ = first := by
    rw [list_eq, map_take]
    rfl
  have hp : ((service.ledger.stream streamName).insertionSort (RowLe textLe)).Pairwise
      fun a b => a.eventId ≠ b.eventId :=
    ((perm_insertionSort _ _).pairwise_iff fun hn => Ne.symm hn).mpr (pairwise_eventId _ _)
  have hf : ∀ address, Map.get address (applyBondEvents first) = latestState address first := by
    refine fun address => get_applyBondEvents (Pairwise.sublist (take_sublist _ _) ?_)
    exact pairwise_map.mpr hp
  have hs : ∀ address, service.states address =
      latestState address (service.ledger.events rank streamName) := by
    refine fun address => (hStates address).trans (get_applyBondEvents ?_)
    exact pairwise_map.mpr (pairwise_eventId _ _)
  have hc : ∀ address actual, service.states address = some actual → actual.address = address :=
    fun address actual ha => (latestState_some ((hs address).symm.trans ha)).1
  have hh : HashesMatch hash first := by
    intro event he
    refine hHashes event ?_
    obtain ⟨row, hr, rfl⟩ := mem_map.mp (mem_of_mem_take he)
    exact mem_map_of_mem ((mem_insertionSort _).mp hr)
  rw [HorizonParityService.verify, hl]
  refine valid_iff.trans ⟨?_, fun h => ⟨hh, ?_, ?_⟩⟩
  · rintro ⟨-, hm, hg⟩ address hk
    cases he : latestState address first with
    | some state =>
      have hy := hm _ (Map.mem_of_get ((hf address).trans he))
      rw [← hs, (matches_iff (latestState_some he).1 (hc address)).mp hy]
    | none =>
      rw [he] at hk
      cases ha : latestState address (service.ledger.events rank streamName) with
      | none => rfl
      | some actual =>
        exact absurd ⟨(hf address).trans he, actual, (hs address).trans ha,
          .inl (latestState_some ha).2⟩ (hg address (hk.resolve_right nofun))
  · rintro ⟨address, state⟩ he
    have hx := (hf address).symm.trans (Map.get_of_mem (nodup_applyBondEvents first) he)
    rw [matches_iff (latestState_some hx).1 (hc address), hs, ← h address (.inr (by rw [hx]; rfl)),
      hx]
  · rintro address hk ⟨hn, actual, ha, -⟩
    rw [hf, h address (.inl hk), ← hs, ha] at hn
    cases hn

def bondPayload (id : Nat) (address : String) : BondEvent :=
  ⟨address, toString id, address, "1000", none⟩

def bondRow (id : Nat) (address pagingToken : String) : LedgerRow where
  id
  streamName := "bond_creation"
  eventId := toString id
  pagingToken
  eventType := "create_bond"
  payload := bondPayload id address
  stateHash := some (computeStateHash sha256Hash (stateFromBondEvent (bondPayload id address)))

def foldedService (rank : String → Nat) (ledger : Ledger) : HorizonParityService where
  ledger
  states address := Map.get address (applyBondEvents (ledger.events rank "bond_creation"))
  allAddresses := none

theorem hashesMatch_bondRows {rank : String → Nat}
    (h : ∀ row ∈ ledger.rows, ∃ id address token, row = bondRow id address token) :
    HashesMatch sha256Hash (ledger.events rank "bond_creation") := by
  intro event he _
  obtain ⟨row, hr, rfl⟩ := mem_map.mp he
  obtain ⟨id, address, token, rfl⟩ := h row (mem_of_mem_filter hr)
  exact .inr rfl

def tokenNumber (token : String) : Nat := Nat.ofDigitChars 10 token.toList 0

def byteLe (a b : String) : Bool := a ≤ b

def twoRows : Ledger := ⟨[bondRow 1 "GA" "9", bondRow 2 "GA" "10"], by decide, by decide⟩

theorem verify_valid_twoRows : ((foldedService tokenNumber twoRows).verify tokenNumber byteLe
    sha256Hash "bond_creation" (some ["GA", "GB"])).valid = true := by
  refine (verify_valid (fun _ => rfl) (hashesMatch_bondRows ?_) _).mpr ?_
  · intro row hr
    rcases mem_cons.mp hr with rfl | hl
    · exact ⟨_, _, _, rfl⟩
    · exact ⟨_, _, _, mem_singleton.mp hl⟩
  · intro address _
    have he : ((twoRows.inTextOrder tokenNumber byteLe "bond_creation").take 1000).insertionSort
        EventLe = (twoRows.events tokenNumber "bond_creation").insertionSort EventLe := by
      rfl
    rw [latestState, latestState]
    rw [show (foldedService tokenNumber twoRows).ledger = twoRows from rfl, he]

def firstRows : List LedgerRow := (range 1000).map fun id => bondRow id "GA" "1"

theorem pairwise_firstRows : firstRows.Pairwise fun a b => a.id < b.id :=
  pairwise_map.mpr pairwise_lt_range

theorem lt_of_mem_firstRows {row : LedgerRow} (h : row ∈ firstRows) : row.id < 1000 := by
  obtain ⟨id, hi, rfl⟩ := mem_map.mp h
  exact mem_range.mp hi

def largeRows : List LedgerRow := firstRows ++ [bondRow 1000 "GB" "2"]

theorem pairwise_largeRows : largeRows.Pairwise fun a b => a.id ≠ b.id := by
  refine pairwise_append.mpr ⟨pairwise_firstRows.imp Nat.ne_of_lt,
    pairwise_singleton _ _, ?_⟩
  intro row hRow last hLast
  rw [mem_singleton.mp hLast]
  exact Nat.ne_of_lt (lt_of_mem_firstRows hRow)

theorem isBondRow_largeRows {row : LedgerRow} (h : row ∈ largeRows) :
    ∃ id address token, row = bondRow id address token := by
  rcases mem_append.mp h with hf | hl
  · obtain ⟨id, -, rfl⟩ := mem_map.mp hf
    exact ⟨_, _, _, rfl⟩
  · exact ⟨_, _, _, mem_singleton.mp hl⟩

def largeLedger : Ledger where
  rows := largeRows
  ids := pairwise_largeRows
  eventIds := by
    refine pairwise_largeRows.imp_of_mem fun ha hb hn _ he => hn ?_
    obtain ⟨m, _, _, rfl⟩ := isBondRow_largeRows ha
    obtain ⟨n, _, _, rfl⟩ := isBondRow_largeRows hb
    exact eq_of_text_eq he

theorem stream_largeLedger : largeLedger.stream "bond_creation" = largeLedger.rows := by
  refine filter_eq_self.mpr fun row hr => ?_
  obtain ⟨_, _, _, rfl⟩ := isBondRow_largeRows hr
  rfl

theorem list_largeLedger : largeLedger.list tokenNumber byteLe "bond_creation" ⟨none, none⟩ =
    firstRows.map (LedgerRow.record tokenNumber) := by
  have ht : byteLe "1" "1" = true ∧ byteLe "1" "2" = true ∧ byteLe "2" "1" = false := by
    decide
  have hs : largeLedger.rows.Pairwise (RowLe byteLe) := by
    refine pairwise_append.mpr ⟨?_, pairwise_singleton _ _, ?_⟩
    · refine pairwise_map.mpr (pairwise_lt_range.imp ?_)
      intro a b hl
      exact ⟨ht.1, fun _ => Nat.le_of_lt hl⟩
    · intro row hr last ha
      obtain ⟨id, -, rfl⟩ := mem_map.mp hr
      rw [mem_singleton.mp ha]
      refine ⟨ht.2.1, ?_⟩
      intro he
      cases ht.2.2.symm.trans he
  have hle : firstRows.length = 1000 := by
    rw [firstRows, length_map, length_range]
  rw [list_eq, stream_largeLedger, hs.insertionSort_eq, ← hle]
  rw [show largeLedger.rows = firstRows ++ [bondRow 1000 "GB" "2"] from rfl, take_left]

/-- The states and the hashes are those of the thousand and one rows, and the verifier finds a state
without an event. -/
theorem verify_false_alarm :
    (∀ address, (foldedService tokenNumber largeLedger).states address = Map.get address
      (applyBondEvents (largeLedger.events tokenNumber "bond_creation"))) ∧
    HashesMatch sha256Hash (largeLedger.events tokenNumber "bond_creation") ∧
    ((foldedService tokenNumber largeLedger).verify tokenNumber byteLe sha256Hash "bond_creation"
      (some ["GB"])).valid = false := by
  refine ⟨fun _ => by rw [foldedService], hashesMatch_bondRows ?_, ?_⟩
  · intro row hr
    exact isBondRow_largeRows hr
  rw [← Bool.not_eq_true, HorizonParityService.verify,
    show (foldedService tokenNumber largeLedger).ledger = largeLedger from rfl, list_largeLedger]
  intro hv
  refine (valid_iff.mp hv).2.2 "GB" (mem_singleton_self _) ⟨?_, ?_⟩
  · have hp : (firstRows.map (LedgerRow.record tokenNumber)).Pairwise
        fun a b => a.eventId ≠ b.eventId :=
      pairwise_map.mpr (pairwise_map.mpr (pairwise_lt_range.imp fun hl he =>
        Nat.ne_of_lt hl (eq_of_text_eq he)))
    rw [get_applyBondEvents hp, ← Option.not_isSome_iff_eq_none, isSome_latestState]
    rintro ⟨event, he, hc⟩
    obtain ⟨row, hr, rfl⟩ := mem_map.mp he
    obtain ⟨id, -, rfl⟩ := mem_map.mp hr
    have ha : "GA" ≠ "GB" := by decide
    exact ha hc.2.1
  · have hp : (largeLedger.events tokenNumber "bond_creation").Pairwise
        fun a b => a.eventId ≠ b.eventId := pairwise_map.mpr (pairwise_eventId _ _)
    have hs : (latestState "GB"
        (largeLedger.events tokenNumber "bond_creation")).isSome = true := by
      refine isSome_latestState.mpr
        ⟨(bondRow 1000 "GB" "2").record tokenNumber, ?_, rfl, rfl, by decide⟩
      rw [Ledger.events, stream_largeLedger]
      exact mem_map_of_mem (mem_append_right _ (mem_singleton_self _))
    obtain ⟨actual, ha⟩ := Option.isSome_iff_exists.mp hs
    refine ⟨actual, ?_, .inl (latestState_some ha).2⟩
    simp only [foldedService]
    rw [get_applyBondEvents hp, ha]

end Credence.Horizon
