import Credence.ApiKeys.Service
import Credence.Lib.SingleFlight
import Credence.ProofKit.Runs

/-! Validations and revocations side by side, in database mode. A validation that joins one in
flight gets what that one has found, however long ago. -/

namespace Credence.ApiKeys

open Crypto Js Lib ProofKit List

inductive Validation where
  | resolved (key : Option StoredApiKey)
  | rejected
  deriving DecidableEq

/-- Where `_validateApiKeyDirect` is: its lookup is under way or answered, its update is under way
or answered, or it has returned. -/
inductive Lookup where
  | looking
  | found (key : Option StoredApiKey)
  | updating (key : StoredApiKey)
  | updated (key : StoredApiKey)
  | returned (validation : Validation)
  deriving DecidableEq

inductive Revocation where
  | issued (id : String) (ownerId : Option String)
  | executed (id : String) (result : Bool)
  | resolved (id : String) (result : Bool)
  | rejected
  deriving DecidableEq

structure World where
  rows : ApiKeyTable
  validations : SingleFlight String Lookup Validation
  revocations : List Revocation

/-- A call begins; the database executes a statement of the validation in flight; the service goes
on with the reply or an error; the first caller resumes. -/
inductive Action where
  | validateApiKey (rawKey : String)
  | find (rawKey : String)
  | touch (rawKey : String) (now : Int)
  | proceed (rawKey : String) (now : Int)
  | fail (rawKey : String)
  | settle (rawKey : String)
  | updateLastUsedAt (id ownerId : String) (now : Int)
  | revokeApiKey (id : String) (ownerId : Option String)
  | revoke (call : Nat)
  | returnRevoked (call : Nat)
  | failRevoked (call : Nat)

def World.start (rows : ApiKeyTable) : World := ⟨rows, .empty, []⟩

def World.validateApiKey (rawKey : String) (w : World) : World :=
  if isRawKey rawKey then { w with validations := w.validations.doFor rawKey .looking }
  else { w with validations := w.validations.answer (.resolved none) }

def World.advance (rawKey : String) (flight : Flight Lookup) (lookup : Lookup) (w : World) :
    World :=
  { w with validations := w.validations.advance rawKey flight lookup }

def Lookup.proceed (now : Int) : Lookup → Option Lookup
  | found none => some (.returned (.resolved none))
  | found (some key) => some (.updating key)
  | updated key => some (.returned (.resolved (some { key with lastUsedAt := some now })))
  | _ => none

def Lookup.fail : Lookup → Option Lookup
  | returned _ => none
  | _ => some (.returned .rejected)

def step (hash : TextHash) : Action → World → Option World
  | .validateApiKey rawKey, w => some (w.validateApiKey rawKey)
  | .find rawKey, w =>
    match Map.get rawKey w.validations.inFlight with
    | some flight =>
      if flight.fn = .looking then
        some (w.advance rawKey flight
          (.found (findByHashAndPrefix (hashKey hash rawKey) (extractPrefix rawKey) w.rows)))
      else none
    | none => none
  | .touch rawKey now, w =>
    match Map.get rawKey w.validations.inFlight with
    | some flight =>
      match flight.fn with
      | .updating key =>
        some { w.advance rawKey flight (.updated key) with
          rows := updateLastUsedAt key.id key.ownerId now w.rows }
      | _ => none
    | none => none
  | .proceed rawKey now, w =>
    (Map.get rawKey w.validations.inFlight).bind fun flight =>
      (flight.fn.proceed now).map fun lookup => w.advance rawKey flight lookup
  | .fail rawKey, w =>
    (Map.get rawKey w.validations.inFlight).bind fun flight =>
      flight.fn.fail.map fun lookup => w.advance rawKey flight lookup
  | .settle rawKey, w =>
    match Map.get rawKey w.validations.inFlight with
    | some flight =>
      match flight.fn with
      | .returned validation =>
        some { w with validations := w.validations.settle rawKey flight validation }
      | _ => none
    | none => none
  | .updateLastUsedAt id ownerId now, w =>
    some { w with rows := updateLastUsedAt id ownerId now w.rows }
  | .revokeApiKey id ownerId, w =>
    some { w with revocations := w.revocations ++ [.issued id ownerId] }
  | .revoke call, w =>
    match w.revocations[call]? with
    | some (.issued id ownerId) =>
      let (result, rows) := revokeInTable id ownerId w.rows
      some { w with rows, revocations := w.revocations.set call (.executed id result) }
    | _ => none
  | .returnRevoked call, w =>
    match w.revocations[call]? with
    | some (.executed id result) =>
      some { w with revocations := w.revocations.set call (.resolved id result) }
    | _ => none
  | .failRevoked call, w =>
    match w.revocations[call]? with
    | some (.issued _ _) => some { w with revocations := w.revocations.set call .rejected }
    | some (.executed _ _) => some { w with revocations := w.revocations.set call .rejected }
    | _ => none

def Lookup.key : Lookup → Option StoredApiKey
  | looking => none
  | found key => key
  | updating key => some key
  | updated key => some key
  | returned (.resolved key) => key
  | returned .rejected => none

/-- A validation joins one that has found the key only while the row of the key is active. -/
def joinsCurrent (hash : TextHash) (action : Action) (w : World) : Bool :=
  match action with
  | .validateApiKey rawKey =>
    (Map.get rawKey w.validations.inFlight).all fun flight => flight.fn.key.isNone ∨
      w.rows.any fun row => row.hashedKey = hashKey hash rawKey ∧ row.active
  | _ => true

def JoinsCurrent (hash : TextHash) (action : Action) (w : World) : Prop :=
  joinsCurrent hash action w = true

instance (hash : TextHash) (action : Action) (w : World) : Decidable (JoinsCurrent hash action w) :=
  inferInstanceAs (Decidable (_ = true))

def Keeps (rows rows' : ApiKeyTable) : Prop :=
  ∃ f : StoredApiKey → StoredApiKey, rows' = rows.map f ∧
    ∀ row, (f row).id = row.id ∧ (f row).hashedKey = row.hashedKey ∧
      ((f row).active = true → row.active = true)

theorem Keeps.refl (rows : ApiKeyTable) : Keeps rows rows :=
  ⟨id, (map_id rows).symm, fun _ => ⟨rfl, rfl, id⟩⟩

theorem updateLastUsedAt_keeps (id ownerId : String) (now : Int) (rows : ApiKeyTable) :
    Keeps rows (updateLastUsedAt id ownerId now rows) := by
  refine ⟨_, rfl, fun row => ?_⟩
  split <;> exact ⟨rfl, rfl, fun h => h⟩

theorem revokeInTable_keeps (id : String) (ownerId : Option String) (rows : ApiKeyTable) :
    Keeps rows (revokeInTable id ownerId rows).2 := by
  refine ⟨_, rfl, fun row => ?_⟩
  split
  · exact ⟨rfl, rfl, nofun⟩
  · exact ⟨rfl, rfl, fun h => h⟩

def Revoked (id : String) (rows : ApiKeyTable) : Prop :=
  ∀ row ∈ rows, row.id = id → row.active = false

def Dead (hash : TextHash) (rawKey : String) (rows : ApiKeyTable) : Prop :=
  ∀ row ∈ rows, row.hashedKey = hashKey hash rawKey → row.active = false

section

variable {hash : TextHash} {rawKey id : String} {rows rows' : ApiKeyTable}

theorem Keeps.inactive (h : Keeps rows rows') {p : String → String → Prop}
    (ho : ∀ row ∈ rows, p row.id row.hashedKey → row.active = false) :
    ∀ row ∈ rows', p row.id row.hashedKey → row.active = false := by
  obtain ⟨f, rfl, hk⟩ := h
  intro row hr hp
  obtain ⟨old, hm, rfl⟩ := mem_map.mp hr
  obtain ⟨hi, hh, ha⟩ := hk old
  rw [hi, hh] at hp
  rw [Bool.eq_false_iff]
  exact fun hn => Bool.eq_false_iff.mp (ho old hm hp) (ha hn)

theorem Keeps.dead (h : Keeps rows rows') (hd : Dead hash rawKey rows) :
    Dead hash rawKey rows' := h.inactive (p := fun _ hashed => hashed = hashKey hash rawKey) hd

theorem Keeps.map_eq (h : Keeps rows rows') (g : String → String → String) :
    (rows'.map fun row => g row.id row.hashedKey) = rows.map fun row => g row.id row.hashedKey := by
  obtain ⟨f, rfl, hk⟩ := h
  rw [map_map]
  exact map_congr_left fun row _ => congrArg₂ g (hk row).1 (hk row).2.1

theorem Revoked.dead (he : Revoked id rows) (hn : (rows.map StoredApiKey.hashedKey).Nodup)
    (hk : ∃ row ∈ rows, row.id = id ∧ row.hashedKey = hashKey hash rawKey) :
    Dead hash rawKey rows := by
  obtain ⟨key, hk, hi, hh⟩ := hk
  intro row hr ha
  obtain rfl : row = key := inj_on_of_nodup_map hn hr hk (ha.trans hh.symm)
  exact he row hr hi

theorem Dead.findByHashAndPrefix (hd : Dead hash rawKey rows) (lookupPrefix : String) :
    findByHashAndPrefix (hashKey hash rawKey) lookupPrefix rows = none := by
  rw [ApiKeys.findByHashAndPrefix, find?_eq_none]
  intro row hr hf
  simp only [decide_eq_true_eq] at hf
  have hi := hd row hr hf.1
  rw [hf.2.2.1] at hi
  cases hi

theorem revokeInTable_revoked {ownerId : Option String}
    (hn : (rows.map StoredApiKey.id).Nodup) (h : (revokeInTable id ownerId rows).1 = true) :
    Revoked id (revokeInTable id ownerId rows).2 := by
  obtain ⟨key, hk, hr⟩ := any_eq_true.mp h
  have hi : key.id = id := by
    simp only [StoredApiKey.revokedBy, decide_eq_true_eq] at hr
    exact hr.1
  intro row ha hb
  obtain ⟨old, ho, rfl⟩ := mem_map.mp ha
  have hc : old.id = id := by
    split at hb <;> exact hb
  obtain rfl : old = key := inj_on_of_nodup_map hn ho hk (hc.trans hi.symm)
  rw [if_pos hr]

end

def Revocation.Done (id : String) (revocation : Revocation) : Prop :=
  revocation = .executed id true ∨ revocation = .resolved id true

inductive Effect (hash : TextHash) (w : World) : Action → World → Prop
  | begins {rawKey : String} : Effect hash w (.validateApiKey rawKey)
        { w with validations := w.validations.doFor rawKey .looking }
  | refuses {rawKey : String} : Effect hash w (.validateApiKey rawKey)
        { w with validations := w.validations.answer (.resolved none) }
  | moves {action : Action} {rawKey : String} {flight : Flight Lookup} {lookup : Lookup}
      {rows : ApiKeyTable} (hFlight : Map.get rawKey w.validations.inFlight = some flight)
      (hRows : Keeps w.rows rows)
      (hKey : flight.fn.key = none →
        findByHashAndPrefix (hashKey hash rawKey) (extractPrefix rawKey) w.rows = none →
        lookup.key = none) :
      Effect hash w action
        ⟨rows, w.validations.advance rawKey flight lookup, w.revocations⟩
  | settles {rawKey : String} {flight : Flight Lookup} {validation : Validation}
      (hFlight : Map.get rawKey w.validations.inFlight = some flight)
      (hFn : flight.fn = .returned validation) :
      Effect hash w (.settle rawKey)
        { w with validations := w.validations.settle rawKey flight validation }
  | writes {action : Action} {rows : ApiKeyTable} {revocations : List Revocation}
      (hRows : Keeps w.rows rows)
      (hDone : (w.rows.map StoredApiKey.id).Nodup → ∀ id, ∀ revocation ∈ revocations,
        revocation.Done id → (∃ old ∈ w.revocations, old.Done id) ∨ Revoked id rows) :
      Effect hash w action ⟨rows, w.validations, revocations⟩

variable {lookup lookup' : Lookup} {rows : ApiKeyTable}

theorem Lookup.proceed_key {now : Int} (h : lookup.proceed now = some lookup')
    (hk : lookup.key = none) : lookup'.key = none := by
  cases lookup with
  | found key =>
    cases key with
    | none =>
      cases h
      rfl
    | some => cases hk
  | updated => cases hk
  | _ => cases h

theorem Lookup.fail_key (h : lookup.fail = some lookup') : lookup'.key = none := by
  cases lookup with
  | returned => cases h
  | _ =>
    cases h
    rfl

theorem done_set {revocations : List Revocation} {call : Nat} {new : Revocation}
    (hn : ∀ id, new.Done id → (∃ old ∈ revocations, old.Done id) ∨ Revoked id rows) :
    ∀ id, ∀ revocation ∈ revocations.set call new, revocation.Done id →
      (∃ old ∈ revocations, old.Done id) ∨ Revoked id rows := by
  intro id revocation hm hd
  rcases mem_or_eq_of_mem_set hm with ho | rfl
  · exact .inl ⟨revocation, ho, hd⟩
  · exact hn id hd

theorem step_effect {hash : TextHash} {action : Action} {w w' : World}
    (h : step hash action w = some w') : Effect hash w action w' := by
  cases action with rw [step] at h
  | validateApiKey =>
    cases h
    rw [World.validateApiKey]
    split
    · exact .begins
    · exact .refuses
  | find =>
    split at h
    · next flight hf =>
      split at h <;> cases h
      exact .moves hf (.refl _) fun _ ha => ha
    · cases h
  | touch =>
    split at h
    · next flight hf =>
      split at h <;> cases h
      next key hFn =>
      refine .moves hf (updateLastUsedAt_keeps _ _ _ _) fun hk => ?_
      rw [hFn] at hk
      cases hk
    · cases h
  | proceed =>
    obtain ⟨flight, hf, hn⟩ := Option.bind_eq_some_iff.mp h
    obtain ⟨lookup, hl, rfl⟩ := Option.map_eq_some_iff.mp hn
    exact .moves hf (.refl _) fun hk _ => Lookup.proceed_key hl hk
  | fail =>
    obtain ⟨flight, hf, hn⟩ := Option.bind_eq_some_iff.mp h
    obtain ⟨lookup, hl, rfl⟩ := Option.map_eq_some_iff.mp hn
    exact .moves hf (.refl _) fun _ _ => Lookup.fail_key hl
  | settle =>
    split at h
    · next flight hf =>
      split at h <;> cases h
      next validation hFn => exact .settles hf hFn
    · cases h
  | updateLastUsedAt id =>
    cases h
    exact .writes (updateLastUsedAt_keeps _ _ _ _) fun _ id r hm hd => .inl ⟨r, hm, hd⟩
  | revokeApiKey id =>
    cases h
    refine .writes (.refl _) fun _ id r hm hd => ?_
    rcases mem_append.mp hm with ho | hne
    · exact .inl ⟨r, ho, hd⟩
    · rw [mem_singleton.mp hne] at hd
      rcases hd with hd | hd <;> cases hd
  | revoke =>
    split at h <;> cases h
    next id ownerId hc =>
    refine .writes (revokeInTable_keeps _ _ _) fun hb => done_set fun id' hd => .inr ?_
    rcases hd with hd | hd
    · injection hd with hi hr
      exact hi ▸ revokeInTable_revoked hb hr
    · cases hd
  | returnRevoked =>
    split at h <;> cases h
    next id result hc =>
    refine .writes (.refl _) fun _ => done_set fun id' hd => .inl ?_
    refine ⟨_, mem_of_getElem? hc, ?_⟩
    rcases hd with hd | hd
    · cases hd
    · cases hd
      exact .inl rfl
  | failRevoked =>
    split at h <;> cases h
    all_goals
      refine .writes (.refl _) fun _ => done_set fun id' hd => .inl ?_
      rcases hd with hd | hd <;> cases hd

/-- A revocation that has resolved with `true` has left its row revoked. -/
structure World.Ok (w : World) : Prop where
  ids : (w.rows.map StoredApiKey.id).Nodup
  hashes : (w.rows.map StoredApiKey.hashedKey).Nodup
  flights : w.validations.Ok
  revoked : ∀ id, ∀ revocation ∈ w.revocations, revocation.Done id → Revoked id w.rows

theorem ok_start (hi : (rows.map StoredApiKey.id).Nodup)
    (hh : (rows.map StoredApiKey.hashedKey).Nodup) : (World.start rows).Ok :=
  ⟨hi, hh, SingleFlight.ok_empty, nofun⟩

section

variable {hash : TextHash} {action : Action} {w w' : World} {rawKey : String}

theorem World.Ok.step (h : w.Ok) (hs : step hash action w = some w') : w'.Ok := by
  cases step_effect hs with
  | begins => exact ⟨h.ids, h.hashes, h.flights.doFor _ _, h.revoked⟩
  | refuses => exact ⟨h.ids, h.hashes, h.flights.answer _, h.revoked⟩
  | moves hf hr =>
    exact ⟨hr.map_eq (fun id _ => id) ▸ h.ids, hr.map_eq (fun _ hashed => hashed) ▸ h.hashes,
      h.flights.advance hf _, fun id r hm hd =>
        hr.inactive (p := fun i _ => i = id) (h.revoked id r hm hd)⟩
  | settles hf => exact ⟨h.ids, h.hashes, h.flights.settle hf _, h.revoked⟩
  | writes hr hd =>
    refine ⟨hr.map_eq (fun id _ => id) ▸ h.ids, hr.map_eq (fun _ hashed => hashed) ▸ h.hashes,
      h.flights, fun id r hm hn => ?_⟩
    rcases hd h.ids id r hm hn with ⟨old, ho, hb⟩ | he
    · exact hr.inactive (p := fun i _ => i = id) (h.revoked id old ho hb)
    · exact he

def World.Doomed (hash : TextHash) (rawKey : String) (call : Nat) (w : World) : Prop :=
  Dead hash rawKey w.rows ∧ w.validations.Fated (fun lookup => lookup.key = none)
    (fun validation => ∀ key, validation = .resolved key → key = none) rawKey call

theorem World.Doomed.step {call : Nat} (h : w.Doomed hash rawKey call) (ho : w.Ok)
    (hs : step hash action w = some w') : w'.Doomed hash rawKey call := by
  obtain ⟨hd, hf⟩ := h
  cases step_effect hs with
  | begins => exact ⟨hd, hf.doFor ho.flights _ _⟩
  | refuses => exact ⟨hd, hf.answer _⟩
  | moves hl hr hk =>
    refine ⟨hr.dead hd, hf.advance (fun ha hn => hk hn ?_) hl⟩
    subst ha
    exact hd.findByHashAndPrefix _
  | settles hl hFn =>
    refine ⟨hd, hf.settle ho.flights (fun _ hn key he => ?_) hl⟩
    rw [hFn, he] at hn
    exact hn
  | writes hr => exact ⟨hr.dead hd, hf⟩

theorem doomed_validateApiKey (hd : Dead hash rawKey w.rows)
    (hj : JoinsCurrent hash (.validateApiKey rawKey) w) :
    (w.validateApiKey rawKey).Doomed hash rawKey w.validations.promises.length := by
  rw [World.validateApiKey]
  split
  · refine ⟨hd, SingleFlight.fated_doFor rfl fun flight hl => ?_⟩
    rw [JoinsCurrent, joinsCurrent, hl, Option.all_some, decide_eq_true_eq] at hj
    rcases hj with hn | ha
    · exact Option.isNone_iff_eq_none.mp hn
    · obtain ⟨row, hr, hf⟩ := any_eq_true.mp ha
      rw [decide_eq_true_eq] at hf
      have hi := hd row hr hf.1
      rw [hf.2] at hi
      cases hi
  · refine ⟨hd, .inr ⟨.resolved none, by simp [SingleFlight.answer], ?_⟩⟩
    intro key he
    cases he
    rfl

end

/-- Where no validation joins one that has found its key after the row became inactive, a validation
that starts after the revocation returns null if it returns. -/
theorem revoked_key_stops {hash : TextHash} {rows : ApiKeyTable} {before after : List Action}
    {w w' : World} {rawKey id : String} {result : Option StoredApiKey}
    (hIds : (rows.map StoredApiKey.id).Nodup) (hHashes : (rows.map StoredApiKey.hashedKey).Nodup)
    (hJoins : Along (step hash) (JoinsCurrent hash) (before ++ .validateApiKey rawKey :: after)
      (.start rows))
    (hBefore : run (step hash) before (.start rows) = some w)
    (hRevoked : .resolved id true ∈ w.revocations)
    (hKey : ∃ row ∈ w.rows, row.id = id ∧ row.hashedKey = hashKey hash rawKey)
    (hAfter : run (step hash) (.validateApiKey rawKey :: after) w = some w')
    (hReturned : w'.validations.promises[w.validations.promises.length]? =
      some (.settled (.resolved result))) : result = none := by
  have ho : w.Ok := run_invariant World.Ok (fun _ _ _ h _ hs => h.step hs)
    (ok_start hIds hHashes) hJoins.append_left hBefore
  have hd : Dead hash rawKey w.rows := (ho.revoked id _ hRevoked (.inr rfl)).dead ho.hashes hKey
  have hl := hJoins.append_right hBefore
  obtain ⟨mid, hs, hr⟩ := run_cons.mp hAfter
  obtain ⟨hm, ha⟩ : w'.Ok ∧ w'.Doomed hash rawKey w.validations.promises.length := by
    refine run_invariant (fun w' => w'.Ok ∧ w'.Doomed hash rawKey w.validations.promises.length)
      (fun _ _ _ h _ hs => ⟨h.1.step hs, h.2.step h.1 hs⟩) ⟨ho.step hs, ?_⟩
      (hl.2 mid hs) hr
    cases hs
    exact doomed_validateApiKey hd hl.1
  rcases ha.2 with ⟨hp, -⟩ | ⟨validation, hb, he⟩
  · cases hReturned.symm.trans hp
  · cases hReturned.symm.trans hb
    exact he result rfl

def draw : Draw := ⟨replicate 32 171, replicate 8 1, rfl, rfl⟩

def keyRow (hash : TextHash) : StoredApiKey :=
  ⟨"1", hashKey hash draw.rawKey, extractPrefix draw.rawKey, ["trust:read"], some "trust:read",
    .free, "acme", 0, none, true⟩

def markHash : TextHash := sha256On []

/-- The first validation has its reply before the revocation, and the second one starts after it. -/
theorem revoked_key_stops_ended : ∃ w w',
    run (step markHash) [.validateApiKey draw.rawKey, .find draw.rawKey, .revokeApiKey "1" none,
      .proceed draw.rawKey 1, .touch draw.rawKey 2, .revoke 0, .proceed draw.rawKey 3,
      .settle draw.rawKey, .returnRevoked 0] (.start [keyRow markHash]) = some w ∧
    run (step markHash) [.validateApiKey draw.rawKey, .find draw.rawKey, .proceed draw.rawKey 4,
      .settle draw.rawKey] w = some w' ∧
    ∀ result, w'.validations.promises[w.validations.promises.length]? =
      some (.settled (.resolved result)) → result = none := by
  have hb : run (step markHash) [.validateApiKey draw.rawKey, .find draw.rawKey,
      .revokeApiKey "1" none, .proceed draw.rawKey 1, .touch draw.rawKey 2, .revoke 0,
      .proceed draw.rawKey 3, .settle draw.rawKey, .returnRevoked 0]
      (.start [keyRow markHash]) = some _ := rfl
  exact ⟨_, _, hb, rfl, fun result => revoked_key_stops (by decide) (by decide)
    (by decide +kernel) hb (show Revocation.resolved "1" true ∈ _ by decide +kernel)
    (by decide +kernel) (rfl : run (step markHash) [.validateApiKey draw.rawKey, .find draw.rawKey,
      .proceed draw.rawKey 4, .settle draw.rawKey] _ = some _)⟩

/-- The second validation joins the first one after the revocation has resolved with true, and
returns the key. -/
theorem revoked_key_validates :
    (run (step markHash) [.validateApiKey draw.rawKey, .find draw.rawKey, .proceed draw.rawKey 1,
      .revokeApiKey "1" none, .revoke 0, .returnRevoked 0, .validateApiKey draw.rawKey,
      .touch draw.rawKey 2, .proceed draw.rawKey 3, .settle draw.rawKey]
      (.start [keyRow markHash])).map (fun w =>
        (w.revocations, w.rows.map StoredApiKey.active, w.validations.promises[1]?)) =
    some ([.resolved "1" true], [false],
      some (.settled (.resolved (some { keyRow markHash with lastUsedAt := some 3 })))) := by
  decide +kernel

end Credence.ApiKeys
