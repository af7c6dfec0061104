import Credence.Ingestion.Listener
import Credence.Lease.Fencing

/-! `LeasedHorizonListener.process` on several instances: a heartbeat, the inner listener, the
cursor; the other instances may act between any two of these. -/

namespace Credence.Lease

open ProofKit Ingestion List

inductive Outcome where
  | processed
  | skipped
  | threw
  deriving DecidableEq

/-- The heartbeat of `process` is on its way, or has been executed with a result;
`inner.handleEvent` runs; its cursor update is on its way, or has been executed. -/
inductive Stage where
  | asserting (statement : Statement)
  | asserted (ok : Bool)
  | applying
  | advancing (statement : Statement)
  | advanced (ok : Bool)
  | ended (outcome : Outcome)
  deriving DecidableEq

structure ProcessCall (ι : Type) where
  manager : ι
  event : HorizonEvent
  stage : Stage

structure Fleet (ι : Type) where
  lease : World ι
  calls : List (ProcessCall ι)

/-- Besides the steps of the managers (`start`, `heartbeat`, `stop`): a call of `process`, the
execution of its statement or its failure, its next step with the result, and the end of the inner
listener's call. -/
inductive ListenerAction (ι : Type) where
  | lease (action : Action ι)
  | process (manager : ι) (event : HorizonEvent)
  | execute (index : Nat)
  | fails (index : Nat)
  | resume (index : Nat)
  | handled (index : Nat) (ok : Bool)

namespace Fleet

variable {ι : Type}

def start (clock : Int) : Fleet ι := ⟨.start clock, []⟩

def setStage (f : Fleet ι) (index : Nat) (call : ProcessCall ι) (stage : Stage) : Fleet ι :=
  { f with calls := f.calls.set index { call with stage } }

end Fleet

section

variable {ι : Type} [DecidableEq ι] (managers : ι → LeaseManager) (readBack : Nat → Nat)

def advance (w : World ι) (call : ProcessCall ι) : Stage :=
  match present call.event.pagingToken with
  | none => .ended .processed
  | some pagingToken =>
    match (managers call.manager).request w.clock (w.currentFencingToken call.manager)
        (.updateCursor pagingToken) with
    | .ok statement => .advancing statement
    | .error _ => .ended .threw

def listenerStep : ListenerAction ι → Fleet ι → Option (Fleet ι)
  | .lease action, f => (step managers readBack action f.lease).map fun lease => { f with lease }
  | .process i event, f =>
    match (managers i).request f.lease.clock (f.lease.currentFencingToken i) .heartbeat with
    | .ok statement => some { f with calls := f.calls ++ [⟨i, event, .asserting statement⟩] }
    | .error _ => none
  | .execute index, f =>
    f.calls[index]?.bind fun call =>
      match call.stage with
      | .asserting statement =>
        (statement.execute f.lease.row).2.changed.map fun ok =>
          Fleet.setStage { f with lease := f.lease.perform ⟨call.manager, statement⟩ } index call
            (.asserted ok)
      | .advancing statement =>
        (statement.execute f.lease.row).2.changed.map fun ok =>
          Fleet.setStage { f with lease := f.lease.perform ⟨call.manager, statement⟩ } index call
            (.advanced ok)
      | _ => none
  | .fails index, f =>
    f.calls[index]?.bind fun call =>
      match call.stage with
      | .asserting _ | .advancing _ => some (f.setStage index call (.ended .threw))
      | _ => none
  | .resume index, f =>
    f.calls[index]?.bind fun call =>
      match call.stage with
      | .asserted true => some (f.setStage index call .applying)
      | .asserted false => some (f.setStage index call (.ended .skipped))
      | .advanced true => some (f.setStage index call (.ended .processed))
      | .advanced false => some (f.setStage index call (.ended .skipped))
      | _ => none
  | .handled index ok, f =>
    f.calls[index]?.bind fun call =>
      match call.stage with
      | .applying =>
        some (f.setStage index call (if ok then advance managers f.lease call else .ended .threw))
      | _ => none

end

section

variable {ι : Type}

def ProcessCall.inHand (call : ProcessCall ι) : Bool :=
  call.stage == .asserted true || call.stage == .applying

def Fleet.CallsHandler (f : Fleet ι) (index : Nat) (call : ProcessCall ι) : Prop :=
  f.calls[index]? = some call ∧ call.stage = .asserted true

variable [DecidableEq ι]

/-- An `acquire` that takes the lease from another manager is executed only while that manager has
no event in hand. -/
def handoverWhenIdle (action : ListenerAction ι) (f : Fleet ι) : Bool :=
  match action with
  | .lease (.execute index) =>
    match f.lease.sent[index]? with
    | none => true
    | some call =>
      !call.statement.acquires f.lease.row || f.lease.holder == some call.manager ||
        f.calls.all fun other => !(other.inHand && f.lease.holder == some other.manager)
  | _ => true

def HandoverWhenIdle (action : ListenerAction ι) (f : Fleet ι) : Prop :=
  handoverWhenIdle action f = true

instance (action : ListenerAction ι) (f : Fleet ι) : Decidable (HandoverWhenIdle action f) :=
  inferInstanceAs (Decidable (_ = true))

end

section

variable {ι : Type} (managers : ι → LeaseManager)

def Stage.statement : Stage → Option Statement
  | .asserting statement | .advancing statement => some statement
  | _ => none

/-- A call with an event in hand is one of the holder. -/
structure ProcessCall.Ok (w : World ι) (call : ProcessCall ι) : Prop where
  sent : ∀ statement, call.stage.statement = some statement →
    Call.Ok managers w ⟨call.manager, statement⟩ ∧ statement.fencingToken.isSome = true
  holds : call.inHand = true → w.holder = some call.manager

structure Fleet.Ok (f : Fleet ι) : Prop where
  lease : f.lease.Ok managers
  calls : ∀ call ∈ f.calls, call.Ok managers f.lease

theorem fleet_ok_start (clock : Int) : (Fleet.start clock : Fleet ι).Ok managers :=
  ⟨ok_start managers clock, fun _ hc => (not_mem_nil hc).elim⟩

variable {managers} {f : Fleet ι} {index : Nat} {call : ProcessCall ι}

theorem Fleet.Ok.setStage (h : f.Ok managers) {stage : Stage}
    (hs : ProcessCall.Ok managers f.lease { call with stage }) :
    (f.setStage index call stage).Ok managers := by
  refine ⟨h.lease, fun other ho => ?_⟩
  rcases mem_or_eq_of_mem_set ho with ho | rfl
  · exact h.calls other ho
  · exact hs

variable {w : World ι} {statement : Statement}

theorem ProcessCall.Ok.of_idle (ht : call.stage.statement = none)
    (hi : call.inHand = false) : call.Ok managers w := by
  refine ⟨fun statement hs => ?_, fun hh => ?_⟩
  · rw [ht] at hs
    cases hs
  · rw [hi] at hh
    cases hh

theorem ProcessCall.Ok.of_frame {w' : World ι} (h : call.Ok managers w)
    (hc : w.clock ≤ w'.clock) (ha : call.inHand = true → w'.holder = w.holder) :
    call.Ok managers w' := by
  refine ⟨fun statement hs => ?_, fun hh => (ha hh).trans (h.holds hh)⟩
  obtain ⟨ho, ht⟩ := h.sent statement hs
  exact ⟨⟨ho.owner, Int.le_trans ho.time hc⟩, ht⟩

theorem acquires_of_fencingToken (ht : statement.fencingToken.isSome = true)
    (row : Option LeaseRow) : statement.acquires row = false := by
  have he := statement.effect row
  generalize (statement.execute row).1 = row' at he
  cases he with
  | claims _ _ hf =>
    rw [hf] at ht
    cases ht
  | changes _ _ _ ha => exact ha
  | keeps ha => exact ha

theorem World.Ok.holder_of_changed (h : w.Ok managers)
    (hd : Function.Injective fun i => (managers i).ownerId) {sent : Call ι}
    (ha : sent.Ok managers w) (ht : sent.statement.fencingToken.isSome = true)
    (hc : (sent.statement.execute w.row).2.changed = some true) :
    w.holder = some sent.manager := by
  obtain ⟨token, hs⟩ := Option.isSome_iff_exists.mp ht
  have he := sent.statement.effect w.row
  generalize (sent.statement.execute w.row).1 = row' at he
  cases he with
  | claims _ _ hf =>
    rw [hf] at hs
    cases hs
  | changes old _ hr _ ho => exact h.holder_of_changes hd ha hr ho
  | keeps _ hb =>
    rw [hb token hs] at hc
    cases hc

theorem Fleet.Ok.perform (h : f.Ok managers)
    (hs : Call.Ok managers f.lease ⟨call.manager, statement⟩)
    (ht : statement.fencingToken.isSome = true) :
    Fleet.Ok managers { f with lease := f.lease.perform ⟨call.manager, statement⟩ } ∧
      (f.lease.perform ⟨call.manager, statement⟩).holder = f.lease.holder := by
  have hh : (f.lease.perform ⟨call.manager, statement⟩).holder = f.lease.holder := by
    simp [World.perform, acquires_of_fencingToken ht]
  refine ⟨⟨⟨fun row hr => h.lease.perform hs hr, fun other ho => ?_⟩, fun other ho => ?_⟩, hh⟩
  · have hOk := h.lease.sent other ho
    exact ⟨hOk.owner, hOk.time⟩
  · exact (h.calls other ho).of_frame (Int.le_refl _) fun _ => hh

variable [DecidableEq ι] {readBack : Nat → Nat}

theorem Fleet.Ok.leaseStep (h : f.Ok managers) {action : Action ι} {lease : World ι}
    (hi : HandoverWhenIdle (.lease action) f)
    (hs : step managers readBack action f.lease = some lease) :
    Fleet.Ok managers { f with lease } := by
  refine ⟨h.lease.step hs, fun other ho => ?_⟩
  refine (h.calls other ho).of_frame (step_effect hs).clock fun hb => ?_
  have hd := (h.calls other ho).holds hb
  rcases (step_effect hs).row with ⟨-, hh⟩ | ⟨index, call, rfl, hc, -, hh⟩
  · exact hh
  · rw [hh, World.perform]
    split
    · next ha =>
      simp only [HandoverWhenIdle, handoverWhenIdle, hc, ha, Bool.not_true, Bool.false_or,
        Bool.or_eq_true, beq_iff_eq, all_eq_true, Bool.not_eq_true', Bool.and_eq_false_iff,
        beq_eq_false_iff_ne] at hi
      rcases hi with he | hf
      · exact he.symm
      · rcases hf other ho with hn | hn
        · rw [hb] at hn
          cases hn
        · exact absurd hd hn
    · rfl

omit [DecidableEq ι] in
theorem advance_ok (w : World ι) (call : ProcessCall ι) :
    ProcessCall.Ok managers w { call with stage := advance managers w call } := by
  cases hp : present call.event.pagingToken with
  | none =>
    simp only [advance, hp]
    exact .of_idle rfl rfl
  | some pagingToken =>
    cases hr : (managers call.manager).request w.clock (w.currentFencingToken call.manager)
        (.updateCursor pagingToken) with
    | error text =>
      simp only [advance, hp, hr]
      exact .of_idle rfl rfl
    | ok statement =>
      obtain ⟨ho, hn, -⟩ := LeaseManager.request_eq_ok hr
      simp only [advance, hp, hr]
      refine ⟨fun other hs => ?_, fun hh => by cases hh⟩
      obtain rfl := Option.some.inj hs
      refine ⟨⟨ho, Int.le_of_eq hn⟩, ?_⟩
      rw [LeaseManager.request] at hr
      split at hr
      · cases hr
      · cases hr
        rfl

theorem Fleet.Ok.step (h : f.Ok managers)
    (hd : Function.Injective fun i => (managers i).ownerId) {action : ListenerAction ι}
    {f' : Fleet ι} (hi : HandoverWhenIdle action f)
    (hb : listenerStep managers readBack action f = some f') : f'.Ok managers := by
  cases action with simp only [listenerStep, Option.bind_eq_some_iff, Option.map_eq_some_iff] at hb
  | lease =>
    obtain ⟨lease, hl, rfl⟩ := hb
    exact h.leaseStep hi hl
  | process =>
    split at hb
    · next statement hr =>
      obtain rfl := Option.some.inj hb
      obtain ⟨how, hn, -⟩ := LeaseManager.request_eq_ok hr
      cases hr
      refine ⟨h.lease, fun other ho => ?_⟩
      rcases mem_append.mp ho with ho | ho
      · exact h.calls other ho
      · obtain rfl := mem_singleton.mp ho
        refine ⟨fun statement he => ?_, fun hh => by cases hh⟩
        obtain rfl := Option.some.inj he
        exact ⟨⟨how, Int.le_of_eq hn⟩, rfl⟩
    · cases hb
  | execute =>
    obtain ⟨call, hc, hs⟩ := hb
    have hOk := h.calls call (mem_of_getElem? hc)
    split at hs
    · next statement ha =>
      obtain ⟨hf, ht⟩ := hOk.sent statement (by rw [ha]; rfl)
      obtain ⟨ok, hg, rfl⟩ := Option.map_eq_some_iff.mp hs
      obtain ⟨hp, hj⟩ := h.perform hf ht
      refine hp.setStage ⟨fun statement he => (by cases he), fun hh => ?_⟩
      cases ok with
      | false => cases hh
      | true => exact hj.trans (h.lease.holder_of_changed hd hf ht hg)
    · next statement had =>
      obtain ⟨hf, ht⟩ := hOk.sent statement (by rw [had]; rfl)
      obtain ⟨ok, -, rfl⟩ := Option.map_eq_some_iff.mp hs
      exact (h.perform hf ht).1.setStage (.of_idle rfl rfl)
    · cases hs
  | fails =>
    obtain ⟨call, hc, hs⟩ := hb
    split at hs
    · obtain rfl := Option.some.inj hs
      exact h.setStage (.of_idle rfl rfl)
    · obtain rfl := Option.some.inj hs
      exact h.setStage (.of_idle rfl rfl)
    · cases hs
  | resume =>
    obtain ⟨call, hc, hs⟩ := hb
    have hOk := h.calls call (mem_of_getElem? hc)
    split at hs
    · next hk =>
      obtain rfl := Option.some.inj hs
      refine h.setStage ⟨fun statement he => (by cases he), fun _ => ?_⟩
      exact hOk.holds (by simp [ProcessCall.inHand, hk])
    · obtain rfl := Option.some.inj hs
      exact h.setStage (.of_idle rfl rfl)
    · obtain rfl := Option.some.inj hs
      exact h.setStage (.of_idle rfl rfl)
    · obtain rfl := Option.some.inj hs
      exact h.setStage (.of_idle rfl rfl)
    · cases hs
  | handled index ok =>
    obtain ⟨call, hc, hs⟩ := hb
    split at hs
    · obtain rfl := Option.some.inj hs
      cases ok with
      | false => exact h.setStage (.of_idle rfl rfl)
      | true => exact h.setStage (advance_ok f.lease call)
    · cases hs

/-- Where the lease never changes hands while its holder has an event in hand, every call of
`inner.handleEvent` is the holder's, and the calls that run are of one manager. -/
theorem handler_called_by_holder (hDistinct : Function.Injective fun i => (managers i).ownerId)
    {clock : Int} {acts : List (ListenerAction ι)} {f : Fleet ι}
    (hIdle : Along (listenerStep managers readBack) HandoverWhenIdle acts (.start clock))
    (hRun : run (listenerStep managers readBack) acts (.start clock) = some f) :
    (∀ index call, f.CallsHandler index call → f.lease.holder = some call.manager) ∧
      ∀ call ∈ f.calls, ∀ other ∈ f.calls, call.stage = .applying → other.stage = .applying →
        call.manager = other.manager := by
  have ho := run_invariant (Fleet.Ok managers)
    (fun _ _ _ ho hIdle hs => ho.step hDistinct hIdle hs) (fleet_ok_start managers clock)
    hIdle hRun
  refine ⟨fun index call hc => ?_, fun call hb other ht ha ha' => ?_⟩
  · exact (ho.calls call (mem_of_getElem? hc.1)).holds
      (by simp [ProcessCall.inHand, hc.2])
  · have hh := (ho.calls call hb).holds (by simp [ProcessCall.inHand, ha])
    have hh' := (ho.calls other ht).holds (by simp [ProcessCall.inHand, ha'])
    exact Option.some.inj (hh.symm.trans hh')

end

def firstEvent : HorizonEvent := ⟨"bond", some "node-10", some "1000", none, some "10"⟩

def primaryAsserts : List (ListenerAction Bool) :=
  [.lease (.call false .acquire), .lease (.execute 0), .lease (.answer 0),
    .process false firstEvent, .execute 0]

def standbyAsserts : List (ListenerAction Bool) :=
  [.lease (.tick 1000), .lease (.call true .acquire), .lease (.execute 0), .lease (.answer 0),
    .process true firstEvent, .execute 1]

theorem handler_called_by_holder_handover : ∃ f, run (listenerStep pair id)
        (primaryAsserts ++ [.resume 0, .handled 0 true] ++ standbyAsserts ++ [.resume 1])
        (.start 0) = some f ∧
      (∀ index call, f.CallsHandler index call → f.lease.holder = some call.manager) ∧
      ∀ call ∈ f.calls, ∀ other ∈ f.calls, call.stage = .applying → other.stage = .applying →
        call.manager = other.manager := by
  have hr : run (listenerStep pair id)
      (primaryAsserts ++ [.resume 0, .handled 0 true] ++ standbyAsserts ++ [.resume 1])
      (.start 0) = some _ := rfl
  exact ⟨_, hr, handler_called_by_holder pair_distinct (by decide +kernel) hr⟩

/-- The lease expires between the heartbeat of the primary and its call of `inner.handleEvent`: both
it and the standby, which holds the lease, apply the event. -/
theorem zombie_applies_event :
    (run (listenerStep pair id) (primaryAsserts ++ standbyAsserts) (.start 0)).map
        (fun f => (f.lease.holder, f.calls.map ProcessCall.stage)) =
      some (some true, [.asserted true, .asserted true]) ∧
    (run (listenerStep pair id) (primaryAsserts ++ standbyAsserts ++ [.resume 0, .resume 1])
        (.start 0)).map
        (fun f => (f.lease.holder, f.calls.map fun call => (call.manager, call.stage))) =
      some (some true, [(false, .applying), (true, .applying)]) := by
  decide +kernel

end Credence.Lease
