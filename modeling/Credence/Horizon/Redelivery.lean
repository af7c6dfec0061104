import Credence.Horizon.Parity

/-! Redelivered operations: each delivery writes the bond of the operation to the identity, and the
first one only writes a ledger row. -/

namespace Credence.Horizon

open Js Crypto ProofKit List

inductive DlqReasonCode where
  | schemaValidationFailed
  | processingError

structure Listener where
  db : Db
  dlq : List (Operation × DlqReasonCode)

def Listener.start : Listener := ⟨.empty, []⟩

section

variable (isAccount : String → Bool) (hash : TextHash)

def onMessage (listener : Listener) (op : Operation) : Listener :=
  if op.type = "create_bond" then
    if op.isValid isAccount = true then
      match transaction hash op listener.db with
      | some db => { listener with db }
      | none => { listener with dlq := listener.dlq ++ [(op, .processingError)] }
    else { listener with dlq := listener.dlq ++ [(op, .schemaValidationFailed)] }
  else listener

def deliverAll (deliveries : List Operation) : Listener :=
  deliveries.foldl (onMessage isAccount hash) .start

end

/-! ### The transaction as a whole -/

def Operation.commits (op : Operation) : Bool :=
  op.sourceAccount.length ≤ 64 && !hasNul op.sourceAccount &&
    (integerParam (durationSeconds op.duration)).isSome &&
    (trim op.id.toList ≠ [] && !hasNul op.id && !hasNul (op.duration.getD "") &&
      op.pagingToken < 2 ^ 63 - 512)

structure IsRecord (hash : TextHash) (op : Operation) (event : HorizonEventRecord) : Prop where
  streamName : event.streamName = Horizon.streamName
  eventId : event.eventId = op.id
  pagingToken : event.pagingToken = op.pagingToken
  eventType : event.eventType = "create_bond"
  payload : event.payload = parseBondEvent op
  stateHash : event.stateHash =
    some (computeStateHash hash (stateFromBondEvent (parseBondEvent op)))

def Operation.state (op : Operation) : IdentityStateView := stateFromBondEvent (parseBondEvent op)

structure Commits (hash : TextHash) (op : Operation) (db db' : Db) : Prop where
  states : ∀ address, db'.states address =
    if address = op.sourceAccount then some op.state else db.states address
  cursor : db'.cursor = some op.pagingToken
  events : (∃ event ∈ db.events, event.streamName = streamName ∧ event.eventId = op.id) ∧
      db'.events = db.events ∨
    (∀ event ∈ db.events, event.streamName = streamName → event.eventId ≠ op.id) ∧
      ∃ event, IsRecord hash op event ∧ db'.events = db.events ++ [event]

theorem integerParam_eq_some {seconds : Option (Option Int)} {value : Option Int}
    (h : integerParam seconds = some value) : value = seconds.join := by
  unfold integerParam at h
  split at h
  · cases h
    rfl
  · cases h
  · split at h
    · cases h
      rfl
    · cases h

variable {address : String} {op : Operation}

theorem upsertIdentity_eq (hl : address.length ≤ 64) (hn : hasNul address = false)
    (db : Db) : ∃ db', upsertIdentity address db = some db' ∧ db'.events = db.events ∧
      (∃ row, db'.identities address = some row) ∧
      ∀ other, other ≠ address → db'.identities other = db.identities other := by
  refine ⟨_, if_pos ⟨hl, hn⟩, rfl, ⟨_, Function.update_self _ _ _⟩, fun other hne => ?_⟩
  exact Function.update_of_ne hne _ _

theorem upsertBond_eq {row : Identity} {db : Db} (hr : db.identities address = some row)
    {duration : Option String} {seconds : Option Int}
    (hs : integerParam (durationSeconds duration) = some seconds) (amount : String) :
    ∃ db', upsertBond address amount duration db = some db' ∧ db'.events = db.events ∧
      db'.identities address = some (row.withBond db.now amount seconds) ∧
      ∀ other, other ≠ address → db'.identities other = db.identities other := by
  rw [upsertBond, hs, Option.map_some]
  refine ⟨_, rfl, rfl, ?_, fun other hne => ?_⟩
  · simp [hr]
  · exact Function.update_of_ne hne _ _

theorem record_eq (hb : trim op.id.toList ≠ []) (hu : hasNul op.id = false)
    (hd : hasNul (op.duration.getD "") = false) (ht : op.pagingToken < 2 ^ 63 - 512)
    (hash : TextHash) (db : Db) :
    ∃ db', record hash op db = some db' ∧ db'.identities = db.identities ∧
      ((∃ event ∈ db.events, event.streamName = streamName ∧ event.eventId = op.id) ∧
          db'.events = db.events ∨
        (∀ event ∈ db.events, event.streamName = streamName → event.eventId ≠ op.id) ∧
          ∃ event, IsRecord hash op event ∧ db'.events = db.events ++ [event]) := by
  rw [record, if_pos ⟨hb, hu, hd, ht⟩]
  split
  · rename_i he
    simp only [any_eq_true, decide_eq_true_eq] at he
    exact ⟨_, rfl, rfl, .inl ⟨he, rfl⟩⟩
  · rename_i hn
    simp only [any_eq_true, decide_eq_true_eq, not_exists, not_and] at hn
    exact ⟨_, rfl, rfl, .inr ⟨hn, _, ⟨rfl, rfl, rfl, rfl, rfl, rfl⟩, rfl⟩⟩

theorem transaction_commits (h : op.commits = true) (hash : TextHash) (db : Db) :
    ∃ db', transaction hash op db = some db' ∧ Commits hash op db db' := by
  simp only [Operation.commits, Bool.and_eq_true, decide_eq_true_eq, Bool.not_eq_true',
    Option.isSome_iff_exists] at h
  obtain ⟨⟨⟨hl, hn⟩, seconds, hs⟩, ⟨⟨hb, hc⟩, hd⟩, ht⟩ := h
  obtain ⟨db₁, hi, he₁, ⟨row, hr⟩, ho₁⟩ := upsertIdentity_eq hl hn { db with now := db.now + 1 }
  obtain ⟨db₂, he, he₂, hr₂, ho₂⟩ := upsertBond_eq hr hs op.amount
  obtain ⟨db₃, hf, hid, he₃⟩ := record_eq hb hc hd ht hash db₂
  rw [he₂, he₁] at he₃
  refine ⟨upsertCursor op.pagingToken db₃, ?_, fun address => ?_, rfl, he₃⟩
  · simp only [transaction, parseBondEvent, hi, he, hf, Option.bind_eq_bind, Option.bind_some]
    rfl
  · simp only [Db.states, upsertCursor, hid]
    split
    · rename_i ha
      rw [ha, hr₂, Option.map_some, integerParam_eq_some hs]
      rfl
    · rename_i ha
      rw [ho₂ address ha, ho₁ address ha]

theorem transaction_rollback (h : op.commits = false) (hash : TextHash) (db : Db) :
    transaction hash op db = none := by
  cases ht : transaction hash op db with
  | none => rfl
  | some =>
    simp only [transaction, Option.bind_eq_bind, Option.bind_eq_some_iff] at ht
    obtain ⟨db₁, hi, db₂, hb, db₃, hr, -⟩ := ht
    have ha : op.sourceAccount.length ≤ 64 ∧ hasNul op.sourceAccount = false := by
      by_contra hn
      rw [upsertIdentity, parseBondEvent, if_neg hn] at hi
      cases hi
    obtain ⟨seconds, hs, -⟩ := Option.map_eq_some_iff.mp hb
    have hc : trim op.id.toList ≠ [] ∧ hasNul op.id = false ∧
        hasNul (op.duration.getD "") = false ∧ op.pagingToken < 2 ^ 63 - 512 := by
      by_contra hn
      rw [record, if_neg hn] at hr
      cases hr
    have hs' : integerParam (durationSeconds op.duration) = some seconds := hs
    simp [Operation.commits, ha, hs', hc] at h
    omega

section

variable (isAccount : String → Bool) (hash : TextHash)

def Operation.isAccepted (op : Operation) : Bool :=
  op.type = "create_bond" && op.isValid isAccount && op.commits

def acceptedOf (account : String) (deliveries : List Operation) : List Operation :=
  deliveries.filter fun op => op.isAccepted isAccount && op.sourceAccount = account

/-- Each delivery is a redelivery or of an operation with a larger token than all before it. -/
def InStreamOrder (deliveries : List Operation) : Prop :=
  Follows (fun seen op => op ∈ seen ∨ ∀ other ∈ seen, other.pagingToken < op.pagingToken)
    (fun seen op => seen ++ [op]) [] deliveries

def IdsDetermine (deliveries : List Operation) : Prop :=
  ∀ op ∈ deliveries, ∀ other ∈ deliveries, op.id = other.id → op = other

theorem carry_snoc_eq (seen deliveries : List Operation) :
    carry (fun seen op => seen ++ [op]) seen deliveries = seen ++ deliveries := by
  induction deliveries generalizing seen with
  | nil => simp [carry]
  | cons op deliveries ih =>
    rw [show carry _ seen (op :: deliveries) = carry _ (seen ++ [op]) deliveries from rfl, ih,
      append_assoc, singleton_append]

variable {deliveries : List Operation} {op other : Operation} {db : Db} {account : String}
  {event : HorizonEventRecord}

theorem inStreamOrder_snoc : InStreamOrder (deliveries ++ [op]) ↔ InStreamOrder deliveries ∧
      (op ∈ deliveries ∨ ∀ other ∈ deliveries, other.pagingToken < op.pagingToken) := by
  rw [InStreamOrder, follows_snoc, carry_snoc_eq, nil_append]
  rfl

/-- The tables say what the deliveries say. -/
structure Reflects (deliveries : List Operation) (db : Db) : Prop where
  states : ∀ account, db.states account =
    (acceptedOf isAccount account deliveries).getLast?.map Operation.state
  recorded : ∀ op ∈ deliveries, op.isAccepted isAccount = true →
    ∃ event ∈ db.events, IsRecord hash op event
  records : ∀ event ∈ db.events, ∃ op ∈ deliveries, op.isAccepted isAccount = true ∧
    IsRecord hash op event
  tokens : db.events.Pairwise fun a b => a.pagingToken < b.pagingToken

theorem acceptedOf_snoc (account : String) (deliveries : List Operation) (op : Operation) :
    acceptedOf isAccount account (deliveries ++ [op]) = acceptedOf isAccount account deliveries ++
      if op.isAccepted isAccount = true ∧ op.sourceAccount = account then [op] else [] := by
  by_cases ha : op.isAccepted isAccount = true ∧ op.sourceAccount = account
  · simp [acceptedOf, ha.1, ha.2]
  · rw [if_neg ha, acceptedOf, acceptedOf, filter_append]
    simpa using ha

theorem onMessage_db (listener : Listener) (op : Operation) : (op.isAccepted isAccount = true ∧
        Commits hash op listener.db (onMessage isAccount hash listener op).db) ∨
      (op.isAccepted isAccount = false ∧
        (onMessage isAccount hash listener op).db = listener.db) := by
  by_cases ht : op.type = "create_bond"
  · by_cases hv : op.isValid isAccount = true
    · cases hc : op.commits with
      | true =>
        obtain ⟨db', hr, hd⟩ := transaction_commits hc hash listener.db
        left
        refine ⟨by simp [Operation.isAccepted, ht, hv, hc], ?_⟩
        simpa only [onMessage, ht, hv, if_true, hr] using hd
      | false =>
        right
        refine ⟨by simp [Operation.isAccepted, hc], ?_⟩
        simp only [onMessage, ht, hv, if_true, transaction_rollback hc]
    · right
      refine ⟨by simp [Operation.isAccepted, hv], ?_⟩
      simp [onMessage, ht, hv]
  · right
    refine ⟨by simp [Operation.isAccepted, ht], ?_⟩
    simp [onMessage, ht]

variable {isAccount hash}

theorem Reflects.snoc {db' : Db} (h : Reflects isAccount hash deliveries db)
    (hid : IdsDetermine (deliveries ++ [op]))
    (hd : op ∈ deliveries ∨ ∀ other ∈ deliveries, other.pagingToken < op.pagingToken)
    (ha : op.isAccepted isAccount = true) (hc : Commits hash op db db') :
    Reflects isAccount hash (deliveries ++ [op]) db' := by
  have ht : ∀ account, db'.states account =
      (acceptedOf isAccount account (deliveries ++ [op])).getLast?.map Operation.state := by
    intro account
    rw [hc.states, acceptedOf_snoc]
    by_cases hg : account = op.sourceAccount
    · simp [hg, ha]
    · rw [if_neg hg, if_neg (fun hb => hg hb.2.symm), append_nil, h.states]
  have hj : ∀ event ∈ db.events, ∃ op' ∈ deliveries ++ [op],
      op'.isAccepted isAccount = true ∧ IsRecord hash op' event := by
    intro event hv
    obtain ⟨op', hOp, hr⟩ := h.records event hv
    exact ⟨op', mem_append_left _ hOp, hr⟩
  rcases hc.events with ⟨⟨event, hv, -, hId⟩, hs⟩ | ⟨hn, event, hr, had⟩
  · obtain ⟨op', hOp', -, hr⟩ := hj event hv
    obtain rfl : op' = op := hid op' hOp' op (by simp) (hr.eventId.symm.trans hId)
    refine ⟨ht, fun other ho hOk => ?_, hs ▸ hj, hs ▸ h.tokens⟩
    rw [hs]
    rcases mem_append.mp ho with ho | ho
    · exact h.recorded other ho hOk
    · rw [mem_singleton.mp ho]
      exact ⟨event, hv, hr⟩
  · have hf : ∀ other ∈ deliveries, other.pagingToken < op.pagingToken := by
      refine hd.resolve_left fun hm => ?_
      obtain ⟨earlier, he, hi⟩ := h.recorded op hm ha
      exact hn earlier he hi.streamName hi.eventId
    refine ⟨ht, fun other ho hOk => ?_, fun other ho => ?_, ?_⟩
    · rw [had]
      rcases mem_append.mp ho with ho | ho
      · obtain ⟨earlier, he, hi⟩ := h.recorded other ho hOk
        exact ⟨earlier, mem_append_left _ he, hi⟩
      · rw [mem_singleton.mp ho]
        exact ⟨event, by simp, hr⟩
    · rw [had] at ho
      rcases mem_append.mp ho with ho | ho
      · exact hj other ho
      · rw [mem_singleton.mp ho]
        exact ⟨op, by simp, ha, hr⟩
    · rw [had, pairwise_append]
      refine ⟨h.tokens, pairwise_singleton _ _, fun earlier he last hl => ?_⟩
      obtain ⟨other, ho, -, hi⟩ := h.records earlier he
      rw [mem_singleton.mp hl, hi.pagingToken, hr.pagingToken]
      exact hf other ho

theorem Reflects.skip (h : Reflects isAccount hash deliveries db)
    (ha : op.isAccepted isAccount = false) :
    Reflects isAccount hash (deliveries ++ [op]) db := by
  refine ⟨fun account => ?_, fun other ho hOk => ?_, fun event he => ?_, h.tokens⟩
  · rw [acceptedOf_snoc, if_neg (by simp [ha]), append_nil, h.states]
  · rcases mem_append.mp ho with ho | ho
    · exact h.recorded other ho hOk
    · rw [mem_singleton.mp ho, ha] at hOk
      cases hOk
  · obtain ⟨other, ho, hr⟩ := h.records event he
    exact ⟨other, mem_append_left _ ho, hr⟩

theorem reflects_deliverAll (hi : IdsDetermine deliveries) (ho : InStreamOrder deliveries) :
    Reflects isAccount hash deliveries (deliverAll isAccount hash deliveries).db := by
  induction deliveries using reverseRecOn with
  | nil => exact ⟨fun _ => rfl, by simp, by simp [deliverAll, Listener.start, Db.empty], .nil⟩
  | append_singleton deliveries op ih =>
    obtain ⟨he, hl⟩ := inStreamOrder_snoc.mp ho
    have hr := ih (fun a ha b hb => hi a (mem_append_left _ ha) b
      (mem_append_left _ hb)) he
    rw [deliverAll, foldl_append, foldl_cons, foldl_nil, ← deliverAll]
    rcases onMessage_db isAccount hash (deliverAll isAccount hash deliveries) op with
      ⟨hd, hc⟩ | ⟨hd, hs⟩
    · exact hr.snoc hi hl hd hc
    · rw [hs]
      exact hr.skip hd

theorem mem_acceptedOf : op ∈ acceptedOf isAccount account deliveries ↔
      op ∈ deliveries ∧ op.isAccepted isAccount = true ∧ op.sourceAccount = account := by
  simp [acceptedOf]

theorem sourceAccount_ne_empty (he : isAccount "" = false)
    (h : op.isAccepted isAccount = true) : op.sourceAccount ≠ "" := by
  intro ha
  simp [Operation.isAccepted, Operation.isValid, ha, he] at h

section

variable (h : Reflects isAccount hash deliveries db)
include h

theorem Reflects.inOrder (he : isAccount "" = false) (hi : IdsDetermine deliveries) :
    InOrder db.events where
  tokens := h.tokens
  ids := by
    refine List.Pairwise.imp_of_mem (fun {a b} ha hb hl hId => ?_) h.tokens
    obtain ⟨op, ho, -, hr⟩ := h.records a ha
    obtain ⟨other, ht, -, hr'⟩ := h.records b hb
    obtain rfl : op = other := hi op ho other ht (by rw [← hr.eventId, ← hr'.eventId, hId])
    rw [hr.pagingToken, hr'.pagingToken] at hl
    exact lt_irrefl _ hl
  kinds event hv := by
    obtain ⟨op, -, hc, hr⟩ := h.records event hv
    rw [hr.payload]
    exact ⟨hr.eventType, sourceAccount_ne_empty he hc⟩

theorem Reflects.latest (hl : (eventsOf account db.events).getLast? = some event) :
    ∃ op ∈ acceptedOf isAccount account deliveries, IsRecord hash op event ∧
      ∀ other ∈ acceptedOf isAccount account deliveries, other.pagingToken ≤ op.pagingToken := by
  have hm := mem_of_getLast? hl
  obtain ⟨he, ha⟩ := mem_filter.mp hm
  obtain ⟨op, hOp, hc, hr⟩ := h.records event he
  rw [hr.payload] at ha
  refine ⟨op, mem_acceptedOf.mpr ⟨hOp, hc, of_decide_eq_true ha⟩, hr, fun other ht => ?_⟩
  obtain ⟨ht, hOk, hb⟩ := mem_acceptedOf.mp ht
  obtain ⟨earlier, hd, hi⟩ := h.recorded other ht hOk
  have ho : earlier ∈ eventsOf account db.events := by
    refine mem_filter.mpr ⟨hd, ?_⟩
    rw [hi.payload]
    exact decide_eq_true hb
  have hs := h.tokens.filter fun event => event.payload.address = account
  obtain ⟨init, hn⟩ := getLast?_eq_some_iff.mp hl
  rw [← hr.pagingToken, ← hi.pagingToken]
  rw [hn] at ho
  rw [show db.events.filter _ = eventsOf account db.events from rfl, hn] at hs
  rcases mem_append.mp ho with ho | ho
  · exact ((pairwise_append.mp hs).2.2 earlier ho event (by simp)).le
  · rw [mem_singleton.mp ho]

theorem Reflects.eventsOf_eq_nil :
    eventsOf account db.events = [] ↔ acceptedOf isAccount account deliveries = [] := by
  rw [eq_nil_iff_forall_not_mem, eq_nil_iff_forall_not_mem]
  constructor
  · intro hn op ho
    obtain ⟨ho, ha, hc⟩ := mem_acceptedOf.mp ho
    obtain ⟨event, he, hr⟩ := h.recorded op ho ha
    refine hn event (mem_filter.mpr ⟨he, ?_⟩)
    rw [hr.payload]
    exact decide_eq_true hc
  · intro hn event he
    obtain ⟨he, had⟩ := mem_filter.mp he
    obtain ⟨op, ho, ha, hr⟩ := h.records event he
    rw [hr.payload] at had
    exact hn op (mem_acceptedOf.mpr ⟨ho, ha, of_decide_eq_true had⟩)

end

variable (isAccount) in
/-- For every account, the last accepted delivery is of the operation with the largest token, or has
its amount and duration. -/
def LastIsLatest (deliveries : List Operation) : Prop :=
  ∀ account last, (acceptedOf isAccount account deliveries).getLast? = some last →
    ∀ op ∈ acceptedOf isAccount account deliveries,
      (∀ other ∈ acceptedOf isAccount account deliveries, other.pagingToken ≤ op.pagingToken) →
      last.amount = op.amount ∧
        (durationSeconds last.duration).join = (durationSeconds op.duration).join

/-- The state of every account is the one that the ledger accounts for, and the verifier, given any
known addresses, finds nothing. -/
def InParity (hash : TextHash) (knownAddresses : List String) (db : Db) : Prop :=
  (∀ account, db.states account = Map.get account (applyBondEvents db.events)) ∧
    (verifyHorizonParity hash db.events db.states knownAddresses).findings = []

theorem Reflects.eq_of_token (h : Reflects isAccount hash deliveries db)
    (hi : IdsDetermine deliveries) (hOp : op ∈ deliveries) (ho : op.isAccepted isAccount = true)
    (ha : other ∈ deliveries) (ho' : other.isAccepted isAccount = true)
    (ht : op.pagingToken = other.pagingToken) : op = other := by
  obtain ⟨event, he, hr⟩ := h.recorded op hOp ho
  obtain ⟨event', he', hr'⟩ := h.recorded other ha ho'
  have hn : (db.events.map HorizonEventRecord.pagingToken).Nodup :=
    pairwise_map.mpr (h.tokens.imp fun hl => hl.ne)
  obtain rfl : event = event' := inj_on_of_nodup_map hn he he'
    (by rw [hr.pagingToken, hr'.pagingToken, ht])
  exact hi op hOp other ha (by rw [← hr.eventId, hr'.eventId])

theorem checkRecord_eq_nil (h : IsRecord hash op event) : checkRecord hash event = [] := by
  rw [checkRecord, if_neg]
  rw [h.payload, h.stateHash]
  simp

theorem state_eq_iff (ha : op.sourceAccount = other.sourceAccount) :
    op.state = other.state ↔ op.amount = other.amount ∧
      (durationSeconds op.duration).join = (durationSeconds other.duration).join := by
  simp [Operation.state, stateFromBondEvent, parseBondEvent, ha]

theorem Reflects.lastIsLatest (h : Reflects isAccount hash deliveries db)
    (hi : IdsDetermine deliveries) (hb : InOrder db.events)
    (ht : ∀ account, db.states account = Map.get account (applyBondEvents db.events)) :
    LastIsLatest isAccount deliveries := by
  intro account last hl op hOp hm
  have hs := ht account
  rw [h.states, hl, (applyBondEvents_spec hb).2, Option.map_some] at hs
  obtain ⟨event, he, hc⟩ := Option.map_eq_some_iff.mp hs.symm
  obtain ⟨latest, hd, hr, hm'⟩ := h.latest he
  obtain ⟨hf, ho, ha⟩ := mem_acceptedOf.mp hOp
  obtain ⟨hg, ho', ha'⟩ := mem_acceptedOf.mp hd
  obtain rfl : op = latest := h.eq_of_token hi hf ho hg ho'
    (le_antisymm (hm' op hOp) (hm latest hd))
  rw [hr.payload] at hc
  have hj := (mem_acceptedOf.mp (mem_of_getLast? hl)).2.2
  exact (state_eq_iff (hj.trans ha.symm)).mp hc.symm

theorem Reflects.states_eq (h : Reflects isAccount hash deliveries db)
    (hi : InOrder db.events) (hb : LastIsLatest isAccount deliveries)
    (account : String) : db.states account = Map.get account (applyBondEvents db.events) := by
  rw [h.states, (applyBondEvents_spec hi).2]
  cases he : (eventsOf account db.events).getLast? with
  | none =>
    rw [getLast?_eq_none_iff, h.eventsOf_eq_nil] at he
    simp [he]
  | some =>
    obtain ⟨op, ho, hr, hm⟩ := h.latest he
    cases hl : (acceptedOf isAccount account deliveries).getLast? with
    | none =>
      rw [getLast?_eq_none_iff] at hl
      rw [hl] at ho
      cases ho
    | some last =>
      have ha : last.sourceAccount = op.sourceAccount :=
        (mem_acceptedOf.mp (mem_of_getLast? hl)).2.2.trans
          (mem_acceptedOf.mp ho).2.2.symm
      have hs := (state_eq_iff ha).mpr (hb account last hl op ho hm)
      rw [Option.map_some, Option.map_some, hs, hr.payload]
      rfl

/-- After any deliveries in stream order, with redeliveries anywhere, the identities and the ledger
are in parity exactly where the last delivery for each account is of its latest operation. -/
theorem parity_iff_lastIsLatest (hEmpty : isAccount "" = false) {deliveries : List Operation}
    (hIds : IdsDetermine deliveries) (hOrder : InStreamOrder deliveries)
    (knownAddresses : List String) :
    InParity hash knownAddresses (deliverAll isAccount hash deliveries).db ↔
      LastIsLatest isAccount deliveries := by
  have h : Reflects isAccount hash deliveries (deliverAll isAccount hash deliveries).db :=
    reflects_deliverAll hIds hOrder
  have hi := h.inOrder hEmpty hIds
  constructor
  · rintro ⟨hs, -⟩
    exact h.lastIsLatest hIds hi hs
  · intro hl
    have hs := h.states_eq hi hl
    refine ⟨hs, findings_eq_nil_of_states (forall_checkRecord_eq_nil.mp fun event he => ?_)
      hs knownAddresses⟩
    obtain ⟨op, -, -, hr⟩ := h.records event he
    exact checkRecord_eq_nil hr

end

def zeroAccount : String := "GAAAAAAAAAAAAAAAAAAAAAAAAAAAAAAAAAAAAAAAAAAAAAAAAAAAAWHF"

def isZeroAccount (account : String) : Bool := account == zeroAccount

def firstBond : Operation := ⟨"100", "create_bond", 100, zeroAccount, "1000", some "365"⟩

def secondBond : Operation := ⟨"200", "create_bond", 200, zeroAccount, "2000", some "730"⟩

theorem parity_lastIsLatest_redelivered :
    InParity sha256Hash [zeroAccount] (deliverAll isZeroAccount sha256Hash
      [firstBond, firstBond, secondBond, secondBond]).db := by
  refine (parity_iff_lastIsLatest rfl ?_ ?_ _).mpr fun account last hl op ho hm => ?_
  · unfold IdsDetermine
    decide
  · simp only [InStreamOrder, Follows]
    decide
  · obtain rfl : account = zeroAccount := by
      obtain ⟨he, -, ha⟩ := mem_acceptedOf.mp ho
      simp only [mem_cons, not_mem_nil, or_false] at he
      rcases he with rfl | rfl | rfl | rfl <;> exact ha.symm
    have hb : acceptedOf isZeroAccount zeroAccount
        [firstBond, firstBond, secondBond, secondBond] =
          [firstBond, firstBond, secondBond, secondBond] := by decide
    rw [hb] at hl ho hm
    obtain rfl : secondBond = last := by simpa using hl
    have ht := hm secondBond (by simp)
    simp only [mem_cons, not_mem_nil, or_false] at ho
    rcases ho with rfl | rfl | rfl | rfl
    · exact absurd ht (by decide)
    · exact absurd ht (by decide)
    · exact ⟨rfl, rfl⟩
    · exact ⟨rfl, rfl⟩

/-- The first operation, redelivered after the second, takes the identity back to its own bond. -/
theorem redelivery_breaks_parity :
    let db := (deliverAll isZeroAccount sha256Hash [firstBond, secondBond, firstBond]).db
    db.states zeroAccount = some firstBond.state ∧
      Map.get zeroAccount (applyBondEvents db.events) = some secondBond.state ∧
      firstBond.state ≠ secondBond.state := by
  decide +kernel

end Credence.Horizon
