import Credence.Imports.Resume

/-! Imports of two tenants: calls under one pair of tenant and key leave those of another pair alone
exactly where the pairs are not joined to one scoped key. -/

namespace Credence.Imports

open Js ProofKit List Option

/-! ### The calls of some keys alone -/

structure Part (env : Env) (mine : CallId → Bool) (w part : World) : Prop where
  calls : ∀ id, mine id = true → Map.get id part.calls = Map.get id w.calls
  lock : PromiseLock.Shares (fun id => mine id = true) env.keyOf w.lock part.lock
  checkpoints : ∀ id, mine id = true →
    Map.get (env.keyOf id) part.checkpoints = Map.get (env.keyOf id) w.checkpoints
  log : part.log = w.log.filter fun event => mine event.call
  responses : part.responses = w.responses.filter fun entry => mine entry.1

theorem part_start (env : Env) (mine : CallId → Bool) : Part env mine .start .start :=
  ⟨fun _ _ => rfl, PromiseLock.shares_empty, fun _ _ => rfl, rfl, rfl⟩

variable {env : Env} {mine : CallId → Bool} {w part : World} {id : CallId} {t : Turn}

theorem Part.view (h : Part env mine w part) (hm : mine id = true) :
    part.view env id = w.view env id := by
  unfold World.view
  rw [h.calls id hm, h.lock.ready hm, h.checkpoints id hm]

theorem goOn_events {file : ImportFile} {rows todo : List ValidatedImportRow} {tally : Tally}
    {checkpoint : ImportCheckpoint} {events : List Event} (h : ∀ event ∈ events, event.call = id) :
    ∀ event ∈ (goOn env id file rows todo tally checkpoint events).events, event.call = id := by
  intro event hm
  unfold goOn at hm
  split at hm
  · rcases mem_append.mp hm with ho | hn
    · exact h event ho
    · cases mem_singleton.mp hn
      rfl
  · exact h event hm

variable {action : Action}

theorem turn_events {view : View} (h : turn env action view = some t) :
    ∀ event ∈ t.events, event.call = action.call := by
  unfold turn at h
  split at h
  · cases h
    simp [Turn.quiet]
  · cases h
    simp [Turn.answer]
  · cases h
    simp [Turn.answer]
  · cases h
    simp [Turn.quiet]
  · split at h
    · cases h
      simp [Turn.answer]
    · cases h
      simp
  · next id file rows before =>
    cases h
    unfold execute
    split
    · split
      · simp [Turn.answer]
      · exact goOn_events (by simp)
    · exact goOn_events (by simp)
  · cases h
    refine goOn_events fun event hm => ?_
    cases mem_singleton.mp hm
    rfl
  · cases h

section

variable (h : Part env mine w part)
include h

theorem Part.take (hm : mine id = true) (how : ∀ event ∈ t.events, event.call = id) :
    Part env mine (w.take env id t) (part.take env id t) where
  calls other ho := by
    simp only [World.take, Map.get_set, h.calls other ho]
  lock := by
    unfold World.take LockUse.apply
    cases t.lock with
    | keep => exact h.lock
    | enter => exact h.lock.enter hm
    | leave => exact h.lock.leave hm
  checkpoints other ho := by
    unfold World.take
    cases t.checkpoint with
    | none => exact h.checkpoints other ho
    | some => simp only [Map.get_set, h.checkpoints other ho]
  log := by
    have hk : t.events.filter (fun event => mine event.call) = t.events :=
      filter_eq_self.mpr fun event he => by rw [how event he, hm]
    simp only [World.take, filter_append, h.log, hk]
  responses := by
    simp only [World.take, filter_append, h.responses]
    cases t.response with
    | none => simp
    | some => simp [hm]

theorem Part.take_other (ho : ∀ mate, mine mate = true → env.keyOf id ≠ env.keyOf mate)
    (how : ∀ event ∈ t.events, event.call = id) : Part env mine (w.take env id t) part := by
  have hn : ∀ mate, mine mate = true → id ≠ mate :=
    fun mate hm he => ho mate hm (congrArg env.keyOf he)
  have ha : mine id = false := by
    cases hi : mine id with
    | false => rfl
    | true => exact absurd rfl (ho id hi)
  refine ⟨fun mate hm => ?_, ?_, fun mate hm => ?_, ?_, ?_⟩
  · simp only [World.take, Map.get_set, if_neg (hn mate hm), h.calls mate hm]
  · unfold World.take LockUse.apply
    cases t.lock with
    | keep => exact h.lock
    | enter => exact h.lock.enter_other ho
    | leave => exact h.lock.leave_other ho
  · unfold World.take
    cases t.checkpoint with
    | none => exact h.checkpoints mate hm
    | some =>
      simp only [Map.get_set, if_neg (ho mate hm), h.checkpoints mate hm]
  · have hb : t.events.filter (fun event => mine event.call) = [] :=
      filter_eq_nil_iff.mpr fun event hc => by simp [how event hc, ha]
    simp only [World.take, filter_append, hb, append_nil, h.log]
  · simp only [World.take, filter_append, h.responses]
    cases t.response with
    | none => simp
    | some => simp [ha]

theorem Part.forward {after : World} (hm : mine action.call = true)
    (hs : step env action w = some after) :
    ∃ later, step env action part = some later ∧ Part env mine after later := by
  obtain ⟨t, ht, rfl⟩ := map_eq_some_iff.mp hs
  refine ⟨part.take env action.call t, ?_, h.take hm (turn_events ht)⟩
  rw [step, h.view hm, ht, map_some]

theorem Part.backward {later : World} (hm : mine action.call = true)
    (hs : step env action part = some later) :
    ∃ after, step env action w = some after ∧ Part env mine after later := by
  obtain ⟨t, ht, rfl⟩ := map_eq_some_iff.mp hs
  refine ⟨w.take env action.call t, ?_, h.take hm (turn_events ht)⟩
  rw [step, ← h.view hm, ht, map_some]

theorem Part.aside {after : World}
    (ho : ∀ mate, mine mate = true → env.keyOf action.call ≠ env.keyOf mate)
    (hs : step env action w = some after) : Part env mine after part := by
  obtain ⟨t, ht, rfl⟩ := map_eq_some_iff.mp hs
  exact h.take_other ho (turn_events ht)

end

def Pair.same (pair other : Pair) : Bool := pair.tenantId = other.tenantId ∧ pair.key = other.key

theorem Pair.same_iff {pair other : Pair} :
    pair.same other = true ↔ pair.tenantId = other.tenantId ∧ pair.key = other.key := by
  simp [Pair.same]

/-- The text before the first colon that the scoped key adds. -/
def Pair.tenant (pair : Pair) : String := pair.tenantId.getD "anonymous"

/-- Both keys are given, and tenants and keys are joined to one text: they are the same, or a part
between colons belongs to one tenant and to the other key. -/
def Clash (p q : Pair) : Prop :=
  ∃ key other, p.key = some key ∧ q.key = some other ∧ ((p.tenant = q.tenant ∧ key = other) ∨
      (∃ part, q.tenant = p.tenant ++ ":" ++ part ∧ key = part ++ ":" ++ other) ∨
      ∃ part, p.tenant = q.tenant ++ ":" ++ part ∧ other = part ++ ":" ++ key)

/-- The values of `randomUUID` have no colon, and those drawn under one pair are neither drawn under
the other nor keys of the clients. -/
structure Env.Fresh (env : Env) (p q : Pair) : Prop where
  operation : ∀ call other, call.pair.same p = true → other.pair.same q = true →
    env.operationUuid call ≠ env.operationUuid other
  imported : ∀ call other, call.pair.same p = true → other.pair.same q = true →
    env.importUuid call ≠ env.importUuid other
  plain : ∀ call, ':' ∉ (env.operationUuid call).toList
  unused : ∀ call, p.key ≠ some (env.operationUuid call) ∧ q.key ≠ some (env.operationUuid call)

theorem text_joined_eq_iff {first first' rest rest' : String} :
    first ++ ":" ++ rest = first' ++ ":" ++ rest' ↔ (first = first' ∧ rest = rest') ∨
      (∃ part, first' = first ++ ":" ++ part ∧ rest = part ++ ":" ++ rest') ∨
      ∃ part, first = first' ++ ":" ++ part ∧ rest' = part ++ ":" ++ rest := by
  have ht : ∀ a b : String, (a ++ ":" ++ b).toList = a.toList ++ ':' :: b.toList := by simp
  have hp : ∀ (a b : String) (part : List Char), a.toList = b.toList ++ ':' :: part →
      a = b ++ ":" ++ String.ofList part := by
    intro a b part he
    rw [← String.toList_inj, ht, String.toList_ofList, he]
  have hr : ∀ (a b : String) (part : List Char), a.toList = part ++ ':' :: b.toList →
      a = String.ofList part ++ ":" ++ b := by
    intro a b part he
    rw [← String.toList_inj, ht, String.toList_ofList, he]
  constructor
  · intro h
    have hl := congrArg String.toList h
    rw [ht, ht] at hl
    rcases joined_eq_iff.mp hl with ⟨hf, hs⟩ | ⟨part, hf, hs⟩ |
      ⟨part, hf, hs⟩
    · exact .inl ⟨String.toList_inj.mp hf, String.toList_inj.mp hs⟩
    · exact .inr (.inl ⟨_, hp _ _ part hf, hr _ _ part hs⟩)
    · exact .inr (.inr ⟨_, hp _ _ part hf, hr _ _ part hs⟩)
  · rintro (⟨rfl, rfl⟩ | ⟨part, rfl, rfl⟩ | ⟨part, rfl, rfl⟩)
    · rfl
    · simp only [String.append_assoc]
    · simp only [String.append_assoc]

theorem scopedKey_some {uuid key : String} {pair : Pair} (h : pair.key = some key) :
    scopedKey uuid pair = pair.tenant ++ ":" ++ key := by
  rw [scopedKey, h]
  rfl

theorem scopedKey_none {uuid : String} {pair : Pair} (h : pair.key = none) :
    scopedKey uuid pair = "operation" ++ ":" ++ uuid := by
  rw [scopedKey, h]
  rfl

theorem operation_ne_joined {uuid tenant key : String} (hp : ':' ∉ uuid.toList)
    (hk : key ≠ uuid) : "operation" ++ ":" ++ uuid ≠ tenant ++ ":" ++ key := by
  intro h
  rcases text_joined_eq_iff.mp h with ⟨-, he⟩ | ⟨part, -, he⟩ | ⟨part, he, -⟩
  · exact hk he.symm
  · exact hp (by simp [he])
  · have hm : ':' ∈ "operation".toList := by rw [he]; simp
    exact absurd hm (by decide)

variable {p q : Pair} {call other : CallId}

theorem keyOf_ne (hf : env.Fresh p q) (hl : ¬ Clash p q)
    (hc : call.pair.same p = true) (ho : other.pair.same q = true) :
    env.keyOf call ≠ env.keyOf other := by
  obtain ⟨ht, hk⟩ := Pair.same_iff.mp hc
  obtain ⟨ht', hk'⟩ := Pair.same_iff.mp ho
  have ha : call.pair.tenant = p.tenant := by rw [Pair.tenant, ht, Pair.tenant]
  have hb : other.pair.tenant = q.tenant := by rw [Pair.tenant, ht', Pair.tenant]
  unfold Env.keyOf
  intro he
  cases hP : p.key with
  | none =>
    rw [scopedKey_none (hk.trans hP)] at he
    cases hQ : q.key with
    | none =>
      rw [scopedKey_none (hk'.trans hQ)] at he
      rcases text_joined_eq_iff.mp he with ⟨-, hu⟩ | ⟨part, hp, -⟩ | ⟨part, hp, -⟩
      · exact hf.operation call other hc ho hu
      · exact absurd hp (by simp [← String.toList_inj])
      · exact absurd hp (by simp [← String.toList_inj])
    | some =>
      rw [scopedKey_some (hk'.trans hQ)] at he
      exact operation_ne_joined (hf.plain call)
        (fun hu => (hf.unused call).2 (hu ▸ hQ)) he
  | some key =>
    rw [scopedKey_some (hk.trans hP)] at he
    cases hQ : q.key with
    | none =>
      rw [scopedKey_none (hk'.trans hQ)] at he
      exact operation_ne_joined (hf.plain other)
        (fun hu => (hf.unused other).1 (hu ▸ hP)) he.symm
    | some key' =>
      rw [scopedKey_some (hk'.trans hQ), ha, hb] at he
      exact hl ⟨key, key', hP, hQ, text_joined_eq_iff.mp he⟩

theorem keyOf_eq (hc : Clash p q) (m n : Nat) : env.keyOf ⟨p, m⟩ = env.keyOf ⟨q, n⟩ := by
  obtain ⟨key, other, hk, ho, hj⟩ := hc
  rw [Env.keyOf, Env.keyOf, scopedKey_some hk, scopedKey_some ho]
  exact text_joined_eq_iff.mpr hj

def Action.madeUnder (pair : Pair) (action : Action) : Bool := action.call.pair.same pair

/-- In a run under the two pairs, the calls under `q` have the responses and writes that they have
without those under `p`, and each can do what it can do alone. -/
structure Isolated (env : Env) (p q : Pair) : Prop where
  unaffected : ∀ actions w,
    (∀ action ∈ actions, action.madeUnder p = true ∨ action.madeUnder q = true) →
    run (step env) actions .start = some w →
    ∃ alone, run (step env) (actions.filter (Action.madeUnder q)) .start = some alone ∧
      alone.responses = w.responses.filter (fun entry => entry.1.pair.same q) ∧
      alone.log = w.log.filter fun event => event.call.pair.same q
  unhindered : ∀ actions alone other,
    (∀ action ∈ actions, action.madeUnder p = true ∨ action.madeUnder q = true) →
    run (step env) (actions.filter (Action.madeUnder q)) .start = some alone →
    run (step env) (actions.filter (Action.madeUnder p)) .start = some other →
    ∃ w, run (step env) actions .start = some w

theorem not_madeUnder (hd : p.same q = false) (h : action.madeUnder p = true) :
    action.madeUnder q = false := by
  cases hQ : action.madeUnder q with
  | false => rfl
  | true =>
    obtain ⟨ht, hk⟩ := Pair.same_iff.mp h
    obtain ⟨ht', hk'⟩ := Pair.same_iff.mp hQ
    have hs : p.same q = true := Pair.same_iff.mpr ⟨ht.symm.trans ht', hk.symm.trans hk'⟩
    simp [hs] at hd

theorem isolated_of_ne
    (hn : ∀ call other : CallId, call.pair.same p = true → other.pair.same q = true →
      env.keyOf call ≠ env.keyOf other)
    (hd : p.same q = false) : Isolated env p q where
  unaffected actions w hb hr := by
    obtain ⟨alone, hl, hp⟩ := run_filter (Action.madeUnder q)
      (fun action => action.madeUnder p = true ∨ action.madeUnder q = true)
      (Part env fun id => id.pair.same q)
      (fun action s s' part _ hk hp hs => hp.forward hk hs)
      (fun action s s' part hg hk hp hs => by
        refine hp.aside (fun mate hm => hn _ mate (hg.resolve_right ?_) hm) hs
        simp [hk])
      hb (part_start env _) hr
    exact ⟨alone, hl, hp.responses, hp.log⟩
  unhindered actions alone other hb hl ho := by
    have hf : actions.filter (Action.madeUnder p) =
        actions.filter fun action => !action.madeUnder q := by
      refine filter_congr fun action he => ?_
      rcases hb action he with hP | hQ
      · simp [hP, not_madeUnder hd hP]
      · cases hP : action.madeUnder p with
        | false => simp [hQ]
        | true => simp [not_madeUnder hd hP] at hQ
    rw [hf] at ho
    obtain ⟨w, hr, -⟩ := run_merge (Action.madeUnder q)
      (fun action => action.madeUnder p = true ∨ action.madeUnder q = true)
      (fun w alone other => Part env (fun id => id.pair.same q) w alone ∧
        Part env (fun id => id.pair.same p) w other)
      (fun action w alone other later _ hk hc hs => by
        obtain ⟨after, ha, hp⟩ := hc.1.backward hk hs
        exact ⟨after, ha, hp, hc.2.aside (fun mate hm => (hn mate _ hm hk).symm) ha⟩)
      (fun action w alone other later hg hk hc hs => by
        have hP := hg.resolve_right (by simp [hk])
        obtain ⟨after, ha, hp⟩ := hc.2.backward hP hs
        exact ⟨after, ha, hc.1.aside (fun mate hm => hn _ mate hP hm) ha, hp⟩)
      hb ⟨part_start env _, part_start env _⟩ hl ho
    exact ⟨w, hr⟩

def emptyFile : ImportFile := ⟨"", [("address", "address")]⟩

def emptyImport (call : CallId) : List Action :=
  [.commitImportFile call emptyFile, .validated call .valid, .collected call, .acquired call]

theorem execute_emptyFile {before : Option ImportCheckpoint}
    (hs : ∀ checkpoint, before = some checkpoint →
      checkpoint.fingerprint = importFingerprint env.hash emptyFile) :
    ∃ checkpoint, execute env call emptyFile [] before =
        ⟨⟨emptyFile, .ended⟩, .leave, some checkpoint, [],
          some (.committed (successBody checkpoint.operationId 0 .empty))⟩ ∧
      checkpoint.operationId = (before.map ImportCheckpoint.operationId).getD
        s!"import_{env.importUuid call}" ∧
      checkpoint.fingerprint = importFingerprint env.hash emptyFile := by
  cases before with
  | none => exact ⟨_, rfl, rfl, rfl⟩
  | some checkpoint =>
    have hf := hs checkpoint rfl
    refine ⟨{ checkpoint with completed := true }, ?_, rfl, hf⟩
    exact if_neg (not_not.mpr hf)

theorem run_emptyImport {before : Option ImportCheckpoint}
    (hc : Map.get call w.calls = none) (hl : Map.get (env.keyOf call) w.lock.locks = none)
    (hb : Map.get (env.keyOf call) w.checkpoints = before)
    (ha : ∀ checkpoint, before = some checkpoint →
      checkpoint.fingerprint = importFingerprint env.hash emptyFile) :
    ∃ v checkpoint, run (step env) (emptyImport call) w = some v ∧ v.responses = w.responses ++
        [(call, .committed (successBody checkpoint.operationId 0 .empty))] ∧
      checkpoint.operationId = (before.map ImportCheckpoint.operationId).getD
        s!"import_{env.importUuid call}" ∧
      Map.get (env.keyOf call) v.checkpoints = some checkpoint ∧
      checkpoint.fingerprint = importFingerprint env.hash emptyFile ∧
      Map.get (env.keyOf call) v.lock.locks = none ∧
      ∀ other, call ≠ other → Map.get other v.calls = Map.get other w.calls := by
  obtain ⟨checkpoint, he, ho, hi⟩ := @execute_emptyFile env call before ha
  have hr : collectValidatedImportRows env.csv emptyFile = some [] := by
    simp [collectValidatedImportRows, emptyFile, env.csv.parse_empty]
  let validating := w.take env call (.quiet ⟨emptyFile, .validating⟩)
  let collecting := validating.take env call (.quiet ⟨emptyFile, .collecting⟩)
  let waiting := collecting.take env call ⟨⟨emptyFile, .waiting []⟩, .enter, none, [], none⟩
  have hd : step env (.commitImportFile call emptyFile) w = some validating := by
    simp only [step, Action.call, World.view, hc]
    rfl
  have hg : step env (.validated call .valid) validating = some collecting := by
    have hs : Map.get call validating.calls = some ⟨emptyFile, .validating⟩ := Map.get_set_self ..
    simp only [step, Action.call, World.view, hs]
    rfl
  have hh : step env (.collected call) collecting = some waiting := by
    have hs : Map.get call collecting.calls = some ⟨emptyFile, .collecting⟩ := Map.get_set_self ..
    simp only [step, Action.call, World.view, hs, turn, hr]
    rfl
  have ht : Map.get call waiting.lock.tickets = some ⟨env.keyOf call, none, false⟩ := by
    have hn : Map.get call waiting.lock.tickets =
        some ⟨env.keyOf call, Map.get (env.keyOf call) w.lock.locks, false⟩ := Map.get_set_self ..
    rw [hn, hl]
  have hf : step env (.acquired call) waiting =
      some (waiting.take env call (execute env call emptyFile [] before)) := by
    have hs : Map.get call waiting.calls = some ⟨emptyFile, .waiting []⟩ := Map.get_set_self ..
    have hj : waiting.lock.ready call = true := by simp [PromiseLock.ready, ht]
    have hk : Map.get (env.keyOf call) waiting.checkpoints = before := hb
    simp only [step, Action.call, World.view, hs, hj, hk]
    rfl
  rw [he] at hf
  refine ⟨waiting.take env call ⟨⟨emptyFile, .ended⟩, .leave, some checkpoint, [],
      some (.committed (successBody checkpoint.operationId 0 .empty))⟩, checkpoint, ?_, ?_,
    ho, Map.get_set_self .., hi, ?_, ?_⟩
  · simp only [emptyImport, run, hd, hg, hh, hf, bind_some]
  · simp only [World.take, waiting, collecting, validating, Turn.quiet, map_none,
      toList_none, append_nil, map_some, toList_some]
  · have hm : Map.get (env.keyOf call) waiting.lock.locks = some call := Map.get_set_self ..
    exact (PromiseLock.get_leave_locks ht _).trans (if_pos ⟨hm, rfl⟩)
  · intro other hp
    simp only [World.take, Map.get_set, if_neg hp, waiting, collecting, validating]

/-- Of two pairs with one scoped key, the call under the second has the operation of the first. -/
theorem not_isolated (him : env.importUuid ⟨p, 0⟩ ≠ env.importUuid ⟨q, 0⟩)
    (hd : p.same q = false) (hk : env.keyOf ⟨p, 0⟩ = env.keyOf ⟨q, 0⟩) :
    ¬ Isolated env p q := by
  intro his
  have hc : (⟨p, 0⟩ : CallId) ≠ ⟨q, 0⟩ := by
    intro he
    cases he
    simp [Pair.same] at hd
  obtain ⟨w, first, hb, hr, ho, hh, hs, hl, hg⟩ :=
    @run_emptyImport env .start ⟨p, 0⟩ none rfl rfl rfl (by simp)
  obtain ⟨v, second, hj, hm, hn, -⟩ :=
    @run_emptyImport env w ⟨q, 0⟩ (some first) (hg ⟨q, 0⟩ hc) (hk ▸ hl)
      (hk ▸ hh) (fun _ he => by cases he; exact hs)
  obtain ⟨own, third, ht, how, hp, -⟩ :=
    @run_emptyImport env .start ⟨q, 0⟩ none rfl rfl rfl (by simp)
  have hu : run (step env) (emptyImport ⟨p, 0⟩ ++ emptyImport ⟨q, 0⟩) .start = some v :=
    run_append.mpr ⟨w, hb, hj⟩
  have hP : (⟨p, 0⟩ : CallId).pair.same q = false := hd
  have hQ : (⟨q, 0⟩ : CallId).pair.same q = true := by simp [Pair.same]
  obtain ⟨alone, ha, hf, -⟩ := his.unaffected _ v (by
    simp [emptyImport, Action.madeUnder, Action.call, Pair.same]) hu
  have hq : (emptyImport ⟨p, 0⟩ ++ emptyImport ⟨q, 0⟩).filter (Action.madeUnder q) =
      emptyImport ⟨q, 0⟩ := by
    simp [emptyImport, Action.madeUnder, Action.call, hd, hQ]
  rw [hq] at ha
  cases ht.symm.trans ha
  rw [hm, hr, how] at hf
  simp only [World.start, nil_append, filter_append, filter_cons, hP, hQ,
    filter_nil] at hf
  have hi : third.operationId = second.operationId := by simpa [successBody] using hf
  rw [hp, hn, map_some, getD_some, ho] at hi
  exact him ((String.append_right_inj _).mp hi.symm)

theorem imports_isolated_iff (hFresh : env.Fresh p q) (hDiffer : p.same q = false) :
    Isolated env p q ↔ ¬ Clash p q := by
  constructor
  · intro hi hc
    refine not_isolated (hFresh.imported _ _ ?_ ?_) hDiffer (keyOf_eq hc 0 0) hi
    · simp [Pair.same]
    · simp [Pair.same]
  · intro hc
    exact isolated_of_ne (fun call other => keyOf_ne hFresh hc) hDiffer

def acmeJuly : Pair := ⟨some "acme", some "july"⟩

def globexJuly : Pair := ⟨some "globex", some "july"⟩

def acmeOr (first second : String) (call : CallId) : String :=
  if call.pair.tenantId = some "acme" then first else second

def twoTenants : Env := { sampleEnv with
    operationUuid := acmeOr "0d1c" "7be4"
    importUuid := acmeOr "51aa" "c29f" }

theorem twoTenants_fresh : twoTenants.Fresh acmeJuly globexJuly := by
  have hd : ∀ first second call other, first ≠ second →
      call.pair.same acmeJuly = true → other.pair.same globexJuly = true →
      acmeOr first second call ≠ acmeOr first second other := by
    intro first second call other hn hc ho
    have ha := (Pair.same_iff.mp hc).1
    have hg := (Pair.same_iff.mp ho).1
    simp [acmeOr, ha, hg, acmeJuly, globexJuly, hn]
  refine ⟨fun call other => hd _ _ call other (by decide),
    fun call other => hd _ _ call other (by decide), fun call => ?_, fun call => ?_⟩
  · show ':' ∉ (acmeOr _ _ call).toList
    unfold acmeOr
    split <;> decide
  · show _ ≠ some (acmeOr _ _ call) ∧ _ ≠ some (acmeOr _ _ call)
    unfold acmeOr
    split <;> decide

theorem acme_globex_separate : ¬ Clash acmeJuly globexJuly := by
  rintro ⟨key, other, hk, ho, hj⟩
  have hP : acmeJuly.key = some "july" := by decide
  have hQ : globexJuly.key = some "july" := by decide
  cases hP.symm.trans hk
  cases hQ.symm.trans ho
  exact absurd (text_joined_eq_iff.mpr hj) (by decide)

theorem imports_isolated_twoTenants : Isolated twoTenants acmeJuly globexJuly :=
  (imports_isolated_iff twoTenants_fresh (by decide)).mpr acme_globex_separate

/-- Alone, the call under the second pair writes its row; after a call under the first it writes
nothing, and its response says that the row is accepted. -/
def Displaces (p q : Pair) : Prop :=
  p.same q = false ∧
  (run (step sampleEnv) (arrival ⟨q, 1⟩ oneRowFile ++ [.acquired ⟨q, 1⟩]) .start).map
    (fun w => (w.log.map Event.call, w.responses.map Prod.fst)) = some ([⟨q, 1⟩], []) ∧
  (run (step sampleEnv) (arrival ⟨p, 0⟩ oneRowFile ++ [.acquired ⟨p, 0⟩, .upserted ⟨p, 0⟩ true] ++
    (arrival ⟨q, 1⟩ oneRowFile ++ [.acquired ⟨q, 1⟩])) .start).map
    (fun w => (w.log.map Event.call, w.responses.map Prod.fst)) =
      some ([⟨p, 0⟩, ⟨p, 0⟩], [⟨p, 0⟩, ⟨q, 1⟩])

instance (p q : Pair) : Decidable (Displaces p q) := inferInstanceAs (Decidable (_ ∧ _ ∧ _))

theorem joined_pairs_displace :
    Displaces ⟨some "acme", some "eu:july"⟩ ⟨some "acme:eu", some "july"⟩ ∧
    Displaces ⟨none, some "july"⟩ ⟨some "anonymous", some "july"⟩ := by
  decide +kernel

end Credence.Imports
