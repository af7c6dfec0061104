import Credence.Guard.Process

/-! What the guard gives: one success for each marker key where the checks do not overlap, and no
influence between keys. -/

namespace Credence.Guard

open Js ProofKit

variable {T : Type} {w after : World T} {id other : CallId} {stage : Stage T} {marks : Bool}
  {key : String}

def Stage.isBetween : Stage T → Bool
  | checked false | marking => true
  | _ => false

def Stage.hasMarked : Stage T → Bool
  | marked | running | executed _ | failed _ => true
  | _ => false

def Stage.hasStarted : Stage T → Bool
  | running | executed _ | failed _ => true
  | _ => false

def Stage.hasFinished : Stage T → Bool
  | executed _ | failed _ | duplicate => true
  | _ => false

/-- A marker is there exactly where a call of its key has written it. -/
def Marked (w : World T) : Prop :=
  ∀ key, w.has key = true ↔
    ∃ id stage, Map.get id w.calls = some stage ∧ id.markerKey = key ∧ stage.hasMarked = true

theorem marked_start : Marked (World.start : World T) := by
  intro key
  simp [World.has, World.start, Map.get]

variable {found : Bool} {before : Option (Stage T)} {actions : List (Action T)} {action : Action T}

theorem Moves.hasMarked (h : Moves found before stage marks) : stage.hasMarked = true ↔
      marks = true ∨ ∃ old, before = some old ∧ old.hasMarked = true := by
  cases h <;> simp [Stage.hasMarked]

theorem Marked.take (h : Marked w)
    (hm : Moves (w.has id.markerKey) (Map.get id w.calls) stage marks) :
    Marked (w.take id stage marks) := by
  intro key
  rw [World.has_take, h key]
  constructor
  · rintro (⟨called, old, hg, hk, ho⟩ | ⟨ha, hk⟩)
    · by_cases he : id = called
      · subst he
        exact ⟨id, stage, World.get_take.trans (if_pos rfl), hk,
          hm.hasMarked.mpr (.inr ⟨old, hg, ho⟩)⟩
      · exact ⟨called, old, World.get_take.trans ((if_neg he).trans hg), hk, ho⟩
    · exact ⟨id, stage, World.get_take.trans (if_pos rfl), hk, hm.hasMarked.mpr (.inl ha)⟩
  · rintro ⟨called, found, hg, hk, hf⟩
    rw [World.get_take] at hg
    split at hg
    · next he =>
      subst he
      cases hg
      rcases hm.hasMarked.mp hf with ha | ⟨old, ho, hr⟩
      · exact .inr ⟨ha, hk⟩
      · exact .inl ⟨id, old, ho, hk, hr⟩
    · exact .inl ⟨called, found, hg, hk, hf⟩

theorem Marked.run (h : run step actions .start = some w) : Marked w :=
  run_invariant Marked (fun _ _ _ hm _ hs => by
    obtain ⟨stage, marks, rfl, ha⟩ := step_take hs
    exact hm.take ha) marked_start (along_anyAction actions _) h

/-- A call of the key checks only while no other one is between its check and its marker. -/
def Apart (key : String) (action : Action T) (w : World T) : Prop :=
  match action with
  | .check id => id.markerKey = key → ∀ entry ∈ w.calls, entry.1.markerKey = key →
    entry.1 ≠ id → entry.2.isBetween = false
  | _ => True

instance (key : String) : (action : Action T) → (w : World T) → Decidable (Apart key action w)
  | .check id, w => inferInstanceAs (Decidable (id.markerKey = key → ∀ entry ∈ w.calls, _))
  | .process _, _ | .mark _, _ | .reply _, _ | .resolve _ _, _ | .throw _ _, _ => isTrue trivial

def Stage.isPast (stage : Stage T) : Bool := stage.isBetween || stage.hasMarked

def Single (key : String) (w : World T) : Prop :=
  ∀ id other stage next, Map.get id w.calls = some stage → Map.get other w.calls = some next →
    id.markerKey = key → other.markerKey = key → stage.isPast = true → next.isPast = true →
    id = other

theorem Moves.isPast (h : Moves found before stage marks) (hp : stage.isPast = true) :
    (∃ old, before = some old ∧ old.isPast = true) ∨ before = some .checking ∧ found = false := by
  cases h with
  | checks =>
    cases found with
    | true => simp [Stage.isPast, Stage.isBetween, Stage.hasMarked] at hp
    | false => exact .inr ⟨rfl, rfl⟩
  | starts | skips => simp [Stage.isPast, Stage.isBetween, Stage.hasMarked] at hp
  | goes | marks | runs | ends | throws => exact .inl ⟨_, rfl, rfl⟩

theorem Single.take (h : Single key w)
    (hm : Moves (w.has id.markerKey) (Map.get id w.calls) stage marks)
    (hf : Map.get id w.calls = some .checking → w.has id.markerKey = false →
      id.markerKey = key → ∀ called found, Map.get called w.calls = some found →
      called.markerKey = key → called ≠ id → found.isPast = false) :
    Single key (w.take id stage marks) := by
  have how : id.markerKey = key → stage.isPast = true →
      ∀ called found, Map.get called w.calls = some found → called.markerKey = key →
      called ≠ id → found.isPast = false := by
    intro hk hp called found hg hc hn
    rcases hm.isPast hp with ⟨old, ho, hw⟩ | ⟨hh, ha⟩
    · cases hi : found.isPast with
      | false => rfl
      | true => exact absurd (h called id found old hg ho hc hk hi hw) hn
    · exact hf hh ha hk called found hg hc hn
  intro first second old next hb hs hd hj ho hne
  rw [World.get_take] at hb hs
  split at hb
  · next he =>
    subst he
    cases hb
    split at hs
    · assumption
    · next hn =>
      have hl := how hd ho second next hs hj (Ne.symm hn)
      rw [hne] at hl
      cases hl
  · next hn =>
    split at hs
    · next he =>
      subst he
      cases hs
      have hl := how hj hne first old hb hd (Ne.symm hn)
      rw [ho] at hl
      cases hl
    · exact h first second old next hb hs hd hj ho hne

theorem Single.step (h : Single key w) (hm : Marked w) (hp : Apart key action w)
    (ht : Guard.step action w = some after) : Single key after := by
  obtain ⟨⟨stage, marks⟩, ha, rfl⟩ := Option.map_eq_some_iff.mp ht
  refine h.take (moves_of_advance ha) ?_
  intro hd hn hk called found hg hc hNe
  rw [hd] at ha
  rw [show action = .check action.call by cases action <;> first | rfl | cases ha] at hp
  have hb := hp hk _ (Map.mem_of_get hg) hc hNe
  cases hh : found.hasMarked with
  | false => simp [Stage.isPast, hb, hh]
  | true =>
    have hs := (hm key).mpr ⟨called, found, hg, hc, hh⟩
    rw [← hk, hn] at hs
    cases hs

theorem Single.run (ha : Along Guard.step (Apart key) actions .start)
    (hr : run Guard.step actions .start = some w) : Single key w := by
  have hb : Marked w ∧ Single key w :=
    run_invariant (fun w => Marked w ∧ Single key w)
      (fun _ _ _ hi ho hs => by
        refine ⟨?_, hi.2.step hi.1 ho hs⟩
        obtain ⟨stage, marks, rfl, hm⟩ := step_take hs
        exact hi.1.take hm)
      ⟨marked_start, fun _ _ _ _ hg => by cases hg⟩ ha hr
  exact hb.2

def upToHandler (id : CallId) : List (Action T) :=
  [.process id, .check id, .reply id, .mark id, .reply id]

def Executes (w : World T) (id : CallId) : Prop :=
  ∃ after, run step (upToHandler id) w = some after ∧ Map.get id after.calls = some .running

theorem step_eq (action : Action T) (hg : Map.get action.call w.calls = before)
    (ha : advance (w.has action.call.markerKey) action before = some (stage, marks)) :
    step action w = some (w.take action.call stage marks) := by
  rw [step, hg, ha]
  rfl

theorem executes_iff (hn : Map.get id w.calls = none) :
    Executes w id ↔ w.has id.markerKey = false := by
  let checking := w.take id .checking false
  let checked := checking.take id (.checked (w.has id.markerKey)) false
  have hp : step (.process id) w = some checking := step_eq (.process id) hn rfl
  have ha : step (.check id) checking = some checked :=
    step_eq (.check id) (World.get_take.trans (if_pos rfl)) rfl
  have hc : Map.get id checked.calls = some (.checked (w.has id.markerKey)) :=
    World.get_take.trans (if_pos rfl)
  unfold Executes upToHandler
  simp only [run, hp, ha, Option.bind_some]
  cases hh : w.has id.markerKey with
  | true =>
    rw [hh] at hc
    have hr : step (.reply id) checked = some (checked.take id .duplicate false) :=
      step_eq (.reply id) hc rfl
    have hm : step (.mark id) (checked.take id .duplicate false) = none := by
      rw [step, Action.call, World.get_take, if_pos rfl]
      rfl
    simp [hr, hm]
  | false =>
    rw [hh] at hc
    let marking := checked.take id .marking false
    let marked := marking.take id .marked true
    have hr : step (.reply id) checked = some marking := step_eq (.reply id) hc rfl
    have hm : step (.mark id) marking = some marked :=
      step_eq (.mark id) (World.get_take.trans (if_pos rfl)) rfl
    have hu : step (.reply id) marked = some (marked.take id .running false) :=
      step_eq (.reply id) (World.get_take.trans (if_pos rfl)) rfl
    simp [hr, hm, hu, World.get_take]

theorem Stage.hasStarted_of_finished (h : stage.hasFinished = true) :
    stage.hasStarted = stage.hasMarked := by
  cases stage <;> simp_all [Stage.hasFinished, Stage.hasStarted, Stage.hasMarked]

theorem Marked.started (h : Marked w) (hf : ∀ called stage, Map.get called w.calls = some stage →
      called.markerKey = key → stage.hasFinished = true) :
    w.has key = false ↔ ∀ called stage, Map.get called w.calls = some stage →
      called.markerKey = key → stage.hasStarted = false := by
  constructor
  · intro hn called stage hg hk
    rw [Stage.hasStarted_of_finished (hf called stage hg hk)]
    cases hm : stage.hasMarked with
    | false => rfl
    | true =>
      have hs := (h key).mpr ⟨called, stage, hg, hk, hm⟩
      rw [hn] at hs
      cases hs
  · intro hn
    cases hh : w.has key with
    | false => rfl
    | true =>
      obtain ⟨called, stage, hg, hk, hm⟩ := (h key).mp hh
      have ha := hn called stage hg hk
      rw [Stage.hasStarted_of_finished (hf called stage hg hk), hm] at ha
      cases ha

def Action.hasKey (key : String) (action : Action T) : Bool := action.call.markerKey = key

structure Part (keys : String → Prop) (w part : World T) : Prop where
  calls : ∀ id, keys id.markerKey → Map.get id part.calls = Map.get id w.calls
  markers : ∀ key, keys key → part.has key = w.has key

section

variable {keys : String → Prop} {part : World T} {action : Action T}

theorem part_start : Part keys (World.start : World T) .start := ⟨fun _ _ => rfl, fun _ _ => rfl⟩

section

variable (h : Part keys w part)
include h

theorem Part.take : Part keys (w.take id stage marks) (part.take id stage marks) where
  calls called hk := by
    rw [World.get_take, World.get_take, h.calls called hk]
  markers key hk := by
    rw [Bool.eq_iff_iff, World.has_take, World.has_take, h.markers key hk]

theorem Part.take_other (ho : ¬ keys id.markerKey) : Part keys (w.take id stage marks) part where
  calls called hk := by
    have hn : id ≠ called := by
      rintro rfl
      exact ho hk
    rw [World.get_take, if_neg hn, h.calls called hk]
  markers key hk := by
    have hn : id.markerKey ≠ key := by
      rintro rfl
      exact ho hk
    rw [Bool.eq_iff_iff, World.has_take, h.markers key hk]
    simp [hn]

theorem Part.forward (hk : keys action.call.markerKey) (hs : step action w = some after) :
    ∃ later, step action part = some later ∧ Part keys after later := by
  obtain ⟨⟨stage, marks⟩, ha, rfl⟩ := Option.map_eq_some_iff.mp hs
  refine ⟨part.take action.call stage marks, step_eq action (h.calls _ hk) ?_, h.take⟩
  rw [h.markers _ hk, ha]

theorem Part.backward {later : World T} (hk : keys action.call.markerKey)
    (hs : step action part = some later) :
    ∃ after, step action w = some after ∧ Part keys after later := by
  obtain ⟨⟨stage, marks⟩, ha, rfl⟩ := Option.map_eq_some_iff.mp hs
  refine ⟨w.take action.call stage marks, step_eq action (h.calls _ hk).symm ?_, h.take⟩
  rw [← h.markers _ hk, ha]

theorem Part.aside (hk : ¬ keys action.call.markerKey) (hs : step action w = some after) :
    Part keys after part := by
  obtain ⟨stage, marks, rfl, -⟩ := step_take hs
  exact h.take_other hk

end

end

theorem run_of_key (key : String) (hr : run step actions .start = some w) : ∃ alone,
      run step (actions.filter (Action.hasKey key)) .start = some alone ∧
      ∀ id, id.markerKey = key → Map.get id alone.calls = Map.get id w.calls := by
  obtain ⟨alone, ha, hp⟩ := run_filter (Action.hasKey key) (fun _ => True)
    (Part fun other => other = key)
    (fun action s s' t _ hk hp hs => hp.forward (of_decide_eq_true hk) hs)
    (fun action s s' t _ hk hp hs => hp.aside (of_decide_eq_false hk) hs)
    (fun _ _ => trivial) part_start hr
  exact ⟨alone, ha, hp.calls⟩

theorem run_of_keys (key : String) {alone others : World T}
    (hl : run step (actions.filter (Action.hasKey key)) .start = some alone)
    (ho : run step (actions.filter fun action => !action.hasKey key) .start = some others) :
    ∃ w, run step actions .start = some w := by
  obtain ⟨w, hr, -⟩ := run_merge (Action.hasKey key) (fun _ => True)
    (fun w alone others => Part (fun other => other = key) w alone ∧
      Part (fun other => other ≠ key) w others)
    (fun action w alone others later _ he hp hs => by
      have hk := of_decide_eq_true he
      obtain ⟨after, ha, hb⟩ := hp.1.backward hk hs
      exact ⟨after, ha, hb, hp.2.aside (not_not.mpr hk) ha⟩)
    (fun action w alone others later _ he hp hs => by
      have hk := of_decide_eq_false he
      obtain ⟨after, ha, hb⟩ := hp.2.backward hk hs
      exact ⟨after, ha, hp.1.aside hk ha, hb⟩)
    (fun _ _ => trivial) ⟨part_start, part_start⟩ hl ho
  exact ⟨w, hr⟩

def CallId.sameMessage (id other : CallId) : Prop :=
  id.handlerType = other.handlerType ∧ id.messageId = other.messageId

theorem CallId.sameMessage.markerKey (h : id.sameMessage other) :
    id.markerKey = other.markerKey := by
  rw [CallId.markerKey, h.1, h.2, CallId.markerKey]

structure Guarded (actions : List (Action T)) : Prop where
  once : ∀ w key, run step actions .start = some w → Along step (Apart key) actions .start →
    ∀ id other value next, Map.get id w.calls = some (.executed value) →
    Map.get other w.calls = some (.executed next) →
    id.markerKey = key → other.markerKey = key → id = other
  next : ∀ w id, run step actions .start = some w → Map.get id w.calls = none →
    (∀ called stage, Map.get called w.calls = some stage → called.markerKey = id.markerKey →
      stage.hasFinished = true) →
    ((∀ called stage, Map.get called w.calls = some stage → called.markerKey = id.markerKey →
      stage.hasStarted = false) → Executes w id) ∧
    ((∃ called stage, Map.get called w.calls = some stage ∧ called.sameMessage id ∧
      stage.hasStarted = true) → ¬ Executes w id)
  unaffected : ∀ w key, run step actions .start = some w → ∃ alone,
    run step (actions.filter (Action.hasKey key)) .start = some alone ∧
    ∀ id, id.markerKey = key → Map.get id alone.calls = Map.get id w.calls
  unhindered : ∀ key alone others,
    run step (actions.filter (Action.hasKey key)) .start = some alone →
    run step (actions.filter fun action => !action.hasKey key) .start = some others →
    ∃ w, run step actions .start = some w

theorem messages_guarded (actions : List (Action T)) : Guarded actions where
  once w key hr ha id other value next hi ho hk hb :=
    Single.run ha hr id other _ _ hi ho hk hb rfl rfl
  next w id hr hne hf := by
    rw [executes_iff hne, (Marked.run hr).started hf]
    refine ⟨fun hn => hn, ?_⟩
    rintro ⟨called, stage, hg, hc, hs⟩ hn
    rw [hn called stage hg hc.markerKey] at hs
    cases hs
  unaffected w key hr := run_of_key key hr
  unhindered key alone others hl ht := run_of_keys key hl ht

def addEvent (number : Nat) : CallId := ⟨"attestation:add", "e1", number⟩

def addedTwice : List (Action Nat) :=
  upToHandler (addEvent 0) ++ [.process (addEvent 1), .check (addEvent 1), .reply (addEvent 1),
    .resolve (addEvent 0) 7]

theorem messages_guarded_addedTwice : ∃ w, run step addedTwice .start = some w ∧
    Map.get (addEvent 0) w.calls = some (.executed 7) ∧
    Map.get (addEvent 1) w.calls = some .duplicate ∧
    ∀ id value, Map.get id w.calls = some (.executed value) →
      id.markerKey = "attestation:add:e1" → id = addEvent 0 := by
  have hr : run step addedTwice .start = some _ := rfl
  refine ⟨_, hr, rfl, rfl, fun id value hi hk => ?_⟩
  exact (messages_guarded addedTwice).once _ "attestation:add:e1" hr (by decide +kernel) id
    (addEvent 0) value 7 hi rfl hk (by decide)

/-- Two deliveries check before either has written the marker, and both are executed; a handler
fails, and the next delivery is taken for a duplicate; so is the first delivery of a message whose
type and id join to another's marker key. -/
theorem guard_gaps : (run step [.process (addEvent 0), .process (addEvent 1), .check (addEvent 0),
      .check (addEvent 1), .reply (addEvent 0), .reply (addEvent 1), .mark (addEvent 0),
      .mark (addEvent 1), .reply (addEvent 0), .reply (addEvent 1), .resolve (addEvent 0) 7,
      .resolve (addEvent 1) 8] (World.start : World Nat)).map World.calls =
        some [(addEvent 0, .executed 7), (addEvent 1, .executed 8)] ∧
    (run step (upToHandler (addEvent 0) ++ [.throw (addEvent 0) "down", .process (addEvent 1),
      .check (addEvent 1), .reply (addEvent 1)]) (World.start : World Nat)).map World.calls =
        some [(addEvent 0, .failed "down"), (addEvent 1, .duplicate)] ∧
    (run step (upToHandler (addEvent 0) ++ [.resolve (addEvent 0) 7,
      .process ⟨"attestation", "add:e1", 0⟩, .check ⟨"attestation", "add:e1", 0⟩,
      .reply ⟨"attestation", "add:e1", 0⟩]) (World.start : World Nat)).map World.calls =
        some [(addEvent 0, .executed 7), (⟨"attestation", "add:e1", 0⟩, .duplicate)] := by
  decide +kernel

end Credence.Guard
