import Credence.Lib.SingleFlight
import Credence.ProofKit.Runs

/-! All calls of one `SingleFlight`, with the functions that they start. A function settles in one
turn of the event loop, and the first call of its flight hands out the outcome in a later one. -/

namespace Credence.Lib

open Js ProofKit List Option

/-- The function of a flight is the number of its invocation, and each outcome carries the number of
the invocation that it is of. -/
structure Coalescer (κ ρ : Type) where
  flights : SingleFlight κ Nat (Nat × ρ)
  invocations : List (κ × Option ρ)

inductive CoalescerAction (κ ρ : Type) where
  | call (key : κ) (throws : Option ρ)
  | settles (invocation : Nat) (outcome : ρ)
  | resume (key : κ)

variable {κ ρ : Type} [DecidableEq κ]

namespace Coalescer

def empty : Coalescer κ ρ := ⟨.empty, []⟩

/-- The first call of the flight resumes and hands out the outcome. -/
def handOut (key : κ) (flight : Flight Nat) (outcome : ρ) (s : Coalescer κ ρ) : Coalescer κ ρ :=
  { s with flights := s.flights.settle key flight (flight.fn, outcome) }

def step (action : CoalescerAction κ ρ) (s : Coalescer κ ρ) : Option (Coalescer κ ρ) :=
  match action with
  | .call key throws =>
    match Map.get key s.flights.inFlight, throws with
    | some flight, _ => some { s with flights := s.flights.doFor key flight.fn }
    | none, none => some
        ⟨s.flights.doFor key s.invocations.length, s.invocations ++ [(key, none)]⟩
    | none, some outcome => some
        ⟨s.flights.answer (s.invocations.length, outcome), s.invocations ++ [(key, some outcome)]⟩
  | .settles invocation outcome =>
    match s.invocations[invocation]? with
    | some (key, none) =>
      some { s with invocations := s.invocations.set invocation (key, some outcome) }
    | _ => none
  | .resume key => do
    let flight ← Map.get key s.flights.inFlight
    let outcome ← (← s.invocations[flight.fn]?).2
    return s.handOut key flight outcome

/-- The invocation of the flight of the key. -/
def fnOf (s : Coalescer κ ρ) (key : κ) : Option Nat :=
  (Map.get key s.flights.inFlight).map Flight.fn

/-- Each function in flight runs, and a settled promise has its outcome. -/
structure Sound (s : Coalescer κ ρ) : Prop where
  ok : s.flights.Ok
  distinct : Map.Nodup s.flights.inFlight
  flies : ∀ key id, s.fnOf key = some id → ∃ outcome, s.invocations[id]? = some (key, outcome)
  runs : ∀ (id : Nat) (key : κ), s.invocations[id]? = some (key, none) → s.fnOf key = some id
  settled : ∀ (call id : Nat) (outcome : ρ),
    s.flights.promises[call]? = some (.settled (id, outcome)) →
    ∃ key, s.invocations[id]? = some (key, some outcome)

/-- The call waits for the invocation, which is one of its key, or has the outcome of it. -/
structure Awaits (s : Coalescer κ ρ) (key : κ) (id call : Nat) : Prop where
  invocation : ∃ outcome, s.invocations[id]? = some (key, outcome)
  fated : s.flights.Fated (· = id) (fun outcome => outcome.1 = id) key call

/-- No call that waits for an invocation, or has its outcome, loses it. -/
def Keeps (s t : Coalescer κ ρ) : Prop := ∀ key id call, s.Awaits key id call → t.Awaits key id call

variable {s t : Coalescer κ ρ} {key other : κ} {flight : Flight Nat} {fn id call : Nat}
  {throws : Option ρ} {outcome : ρ}

theorem fnOf_doFor (invocations : List (κ × Option ρ)) :
    fnOf ⟨s.flights.doFor key fn, invocations⟩ other =
      if key = other then some ((s.fnOf key).getD fn) else s.fnOf other := by
  unfold fnOf
  split
  · next hk =>
    subst hk
    cases hg : Map.get key s.flights.inFlight with
    | none => simp [SingleFlight.get_doFor_of_none fn hg]
    | some flight => simp [SingleFlight.get_doFor_of_flight fn hg]
  · next hk => simp [SingleFlight.get_doFor_of_ne fn hk]

theorem distinct_doFor (h : Map.Nodup s.flights.inFlight) :
    Map.Nodup (s.flights.doFor key fn).inFlight := by
  unfold SingleFlight.doFor
  split
  · exact Map.nodup_set _ _ h
  · exact Map.nodup_set _ _ h

theorem fnOf_answer (invocations : List (κ × Option ρ)) (outcome : Nat × ρ) :
    fnOf ⟨s.flights.answer outcome, invocations⟩ other = s.fnOf other :=
  rfl

theorem fnOf_handOut :
    (s.handOut key flight outcome).fnOf other = if key = other then none else s.fnOf other := by
  rw [fnOf, handOut, SingleFlight.settle, Map.get_delete]
  split <;> rfl

theorem Sound.step_call (h : s.Sound) (hs : step (.call key throws) s = some t) :
    t.Sound ∧ s.Keeps t ∧
      t.Awaits key ((s.fnOf key).getD s.invocations.length) s.flights.promises.length := by
  obtain ⟨ho, hd, hf, hr, hp⟩ := h
  simp only [step] at hs
  split at hs
  · next flight hg =>
    cases hs
    have hk : s.fnOf key = some flight.fn := by rw [fnOf, hg, map_some]
    refine ⟨⟨ho.doFor _ _, distinct_doFor hd, ?_, ?_, ?_⟩, ?_, ⟨?_, ?_⟩⟩
    · grind [fnOf_doFor]
    · grind [fnOf_doFor]
    · grind [SingleFlight.promises_doFor]
    · exact fun _ _ _ ha => ⟨ha.invocation, ha.fated.doFor ho _ _⟩
    · grind
    · exact SingleFlight.fated_doFor (by grind) (by grind)
  · next hg =>
    cases hs
    have hk : s.fnOf key = none := by rw [fnOf, hg, map_none]
    rw [hk, getD_none]
    refine ⟨⟨ho.doFor _ _, distinct_doFor hd, ?_, ?_, ?_⟩, ?_, ⟨?_, ?_⟩⟩
    · grind [fnOf_doFor]
    · grind [fnOf_doFor]
    · grind [SingleFlight.promises_doFor]
    · exact fun _ _ _ ⟨hi, ha⟩ => ⟨by grind, ha.doFor ho _ _⟩
    · exact ⟨none, getElem?_concat_length⟩
    · exact SingleFlight.fated_doFor rfl (by grind)
  · next outcome hg =>
    cases hs
    have hk : s.fnOf key = none := by rw [fnOf, hg, map_none]
    rw [hk, getD_none]
    refine ⟨⟨ho.answer _, hd, ?_, ?_, ?_⟩, ?_, ⟨?_, ?_⟩⟩
    · grind [fnOf_answer]
    · grind [fnOf_answer]
    · intro call id o hc
      rcases getElem?_concat_eq_some_iff.mp hc with hc | ⟨-, he⟩
      · grind
      · cases he
        exact ⟨key, getElem?_concat_length⟩
    · exact fun _ _ _ ⟨hi, ha⟩ => ⟨by grind, ha.answer _⟩
    · exact ⟨_, getElem?_concat_length⟩
    · exact .inr ⟨_, getElem?_concat_length, rfl⟩

theorem Sound.step_settles (h : s.Sound) (hs : step (.settles fn outcome) s = some t) :
    t.Sound ∧ s.Keeps t := by
  obtain ⟨ho, hd, hf, hr, hp⟩ := h
  simp only [step] at hs
  split at hs
  · next key hg =>
    cases hs
    refine ⟨⟨ho, hd, ?_, ?_, ?_⟩, fun _ _ _ ⟨hi, ha⟩ => ⟨by grind, ha⟩⟩
    · show ∀ key id, s.fnOf key = some id → _
      grind
    · show ∀ (id : Nat) (key : κ), _ → s.fnOf key = some id
      grind
    · grind
  · cases hs

theorem Sound.step_resume (h : s.Sound) (hg : Map.get key s.flights.inFlight = some flight)
    (hi : s.invocations[flight.fn]? = some (other, some outcome)) :
    step (.resume key) s = some (s.handOut key flight outcome) ∧
      (s.handOut key flight outcome).Sound ∧ s.Keeps (s.handOut key flight outcome) := by
  obtain ⟨ho, hd, hf, hr, hp⟩ := h
  have hk : s.fnOf key = some flight.fn := by rw [fnOf, hg, map_some]
  refine ⟨by simp [step, hg, hi], ⟨ho.settle hg _, Map.nodup_delete key hd, ?_, ?_, ?_⟩, ?_⟩
  · grind [fnOf_handOut, handOut]
  · grind [fnOf_handOut, handOut]
  · grind [SingleFlight.promises_settle, handOut]
  · exact fun _ _ _ ha => ⟨ha.invocation, ha.fated.settle ho (fun _ he => he) hg⟩

theorem Sound.step {a : CoalescerAction κ ρ} (h : s.Sound) (hs : Coalescer.step a s = some t) :
    t.Sound ∧ s.Keeps t := by
  cases a with
  | call key throws =>
    obtain ⟨ht, ha, -⟩ := h.step_call hs
    exact ⟨ht, ha⟩
  | settles fn outcome => exact h.step_settles hs
  | resume key =>
    obtain ⟨flight, hg, hs'⟩ := bind_eq_some_iff.mp hs
    obtain ⟨⟨other, o⟩, hi, hs'⟩ := bind_eq_some_iff.mp hs'
    obtain ⟨outcome, rfl, -⟩ := bind_eq_some_iff.mp hs'
    obtain ⟨hr, ht⟩ := h.step_resume hg hi
    cases hr.symm.trans hs
    exact ht

theorem Sound.run {later : List (CoalescerAction κ ρ)} (h : s.Sound)
    (hr : run Coalescer.step later s = some t) :
    t.Sound ∧ s.Keeps t := by
  refine run_invariant (fun t => t.Sound ∧ s.Keeps t) (fun a u v hu _ hs => ?_)
    ⟨h, fun _ _ _ ha => ha⟩ (along_anyAction _ _) hr
  obtain ⟨hv, ha⟩ := hu.1.step hs
  exact ⟨hv, fun other id call hc => ha other id call (hu.2 other id call hc)⟩

theorem sound_empty : (empty : Coalescer κ ρ).Sound :=
  ⟨SingleFlight.ok_empty, nodup_nil, nofun, nofun, nofun⟩

/-- With no function running, the first calls of all flights can resume, and leave no flight. -/
theorem Sound.drain (h : s.Sound)
    (hn : ∀ (id : Nat) (key : κ), s.invocations[id]? ≠ some (key, none)) :
    ∃ t, ProofKit.run Coalescer.step (s.flights.inFlight.map fun entry => .resume entry.1) s =
      some t ∧ t.flights.inFlight = [] := by
  generalize he : s.flights.inFlight = entries
  induction entries generalizing s with
  | nil => exact ⟨s, rfl, he⟩
  | cons entry entries ih =>
    obtain ⟨key, flight⟩ := entry
    have hg : Map.get key s.flights.inFlight = some flight := by
      rw [he]
      exact if_pos rfl
    obtain ⟨o, hi⟩ := h.flies key flight.fn (by rw [fnOf, hg, map_some])
    cases o with
    | none => exact absurd hi (hn _ key)
    | some outcome =>
      obtain ⟨hs, ht, -⟩ := h.step_resume hg hi
      have hd : Map.delete key s.flights.inFlight = entries := by
        have hk := (nodup_cons.mp (he ▸ h.distinct)).1
        rw [he, Map.delete, filter_cons_of_neg (by simp), filter_eq_self]
        rintro ⟨k, v⟩ hm
        exact decide_eq_true fun ha : k = key => hk (mem_map.mpr ⟨_, hm, ha⟩)
      obtain ⟨t, hr, hf⟩ := ih ht hn hd
      exact ⟨t, run_cons.mpr ⟨_, hs, hr⟩, hf⟩

end Coalescer

open Coalescer

/-- One function per key runs at a time, every call ends with the outcome of the invocation that it
joined or started, and with nothing running the map empties. -/
theorem single_flight_coalesces {actions : List (CoalescerAction κ ρ)} {s : Coalescer κ ρ}
    (h : run step actions empty = some s) :
    (∀ (id id' : Nat) (key : κ), s.invocations[id]? = some (key, none) →
      s.invocations[id']? = some (key, none) → id = id') ∧
    (∀ key throws t later u, step (.call key throws) s = some t → run step later t = some u →
      u.Awaits key ((s.fnOf key).getD s.invocations.length) s.flights.promises.length) ∧
    (∀ (call id : Nat) (outcome : ρ), s.flights.promises[call]? = some (.settled (id, outcome)) →
      ∃ key, s.invocations[id]? = some (key, some outcome)) ∧
    (∀ (call : Nat) (key : κ), s.flights.promises[call]? = some (.pending key) →
      ∃ id, s.fnOf key = some id ∧ ∀ other outcome,
        s.invocations[id]? = some (other, some outcome) → ∃ t, step (.resume key) s = some t ∧
          t.flights.promises[call]? = some (.settled (id, outcome))) ∧
    ((∀ (id : Nat) (key : κ), s.invocations[id]? ≠ some (key, none)) →
      ∃ t, run step (s.flights.inFlight.map fun entry => .resume entry.1) s = some t ∧
        t.flights.inFlight = []) := by
  obtain ⟨hs, -⟩ := sound_empty.run h
  refine ⟨?_, ?_, hs.settled, ?_, hs.drain⟩
  · intro id id' key hi hi'
    exact Option.some.inj ((hs.runs id key hi).symm.trans (hs.runs id' key hi'))
  · intro key throws t later u hc hr
    obtain ⟨ht, -, ha⟩ := hs.step_call hc
    exact (ht.run hr).2 _ _ _ ha
  · intro call key hp
    obtain ⟨flight, hg, hc⟩ := hs.ok.flies call key hp
    refine ⟨flight.fn, by rw [fnOf, hg, map_some], fun other outcome hi => ?_⟩
    obtain ⟨hr, -⟩ := hs.step_resume hg hi
    refine ⟨_, hr, ?_⟩
    rw [handOut, SingleFlight.promises_settle, hp, map_some, if_pos hc]

/-- A second call joins after the function of the first has settled. -/
theorem single_flight_coalesces_joined : ∃ s : Coalescer Nat Nat,
    run step [.call 0 none, .settles 0 7, .call 0 none] empty = some s ∧
      ∃ t, step (.resume 0) s = some t ∧ t.flights.promises[1]? = some (.settled (0, 7)) := by
  have h : run step [.call 0 none, .settles 0 7, .call 0 none] (empty : Coalescer Nat Nat) =
    some _ := rfl
  obtain ⟨id, hf, hr⟩ := (single_flight_coalesces h).2.2.2.1 1 0 rfl
  cases hf
  exact ⟨_, h, hr 0 7 rfl⟩

end Credence.Lib
