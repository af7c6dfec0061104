import Credence.Js.Map
import Credence.ProofKit.Lists

/-! `SingleFlight`: a call of `do` runs its function, a state `φ` of its own, or waits for the one
that runs for its key. -/

namespace Credence.Lib

open Js ProofKit

/-- An entry of `inFlight`: the call that awaits the function, the calls that wait for that one, and
where the function is. -/
structure Flight (φ : Type) where
  leader : Nat
  waiters : List Nat
  fn : φ

inductive Promise (κ ρ : Type) where
  | pending (key : κ)
  | settled (outcome : ρ)
  deriving DecidableEq

structure SingleFlight (κ φ ρ : Type) where
  inFlight : List (κ × Flight φ)
  promises : List (Promise κ ρ)

namespace SingleFlight

variable {κ φ ρ : Type} [DecidableEq κ]

def empty : SingleFlight κ φ ρ := ⟨[], []⟩

/-- `do(key, fn)`: the new call waits for the flight of its key, or is the first of one. -/
def doFor (key : κ) (fn : φ) (s : SingleFlight κ φ ρ) : SingleFlight κ φ ρ :=
  let call := s.promises.length
  match Map.get key s.inFlight with
  | some flight =>
    ⟨Map.set key { flight with waiters := flight.waiters ++ [call] } s.inFlight,
      s.promises ++ [.pending key]⟩
  | none => ⟨Map.set key ⟨call, [], fn⟩ s.inFlight, s.promises ++ [.pending key]⟩

def advance (key : κ) (flight : Flight φ) (fn : φ) (s : SingleFlight κ φ ρ) : SingleFlight κ φ ρ :=
  { s with inFlight := Map.set key { flight with fn } s.inFlight }

/-- The first call of a flight resumes with the outcome of its function. -/
def settle (key : κ) (flight : Flight φ) (outcome : ρ) (s : SingleFlight κ φ ρ) :
    SingleFlight κ φ ρ where
  inFlight := Map.delete key s.inFlight
  promises := s.promises.mapIdx fun call promise =>
    if call = flight.leader ∨ call ∈ flight.waiters then .settled outcome else promise

def answer (outcome : ρ) (s : SingleFlight κ φ ρ) : SingleFlight κ φ ρ :=
  { s with promises := s.promises ++ [.settled outcome] }

/-- A promise is pending exactly while its call is in the flight of its key. -/
structure Ok (s : SingleFlight κ φ ρ) : Prop where
  flies : ∀ call key, s.promises[call]? = some (.pending key) →
    ∃ flight, Map.get key s.inFlight = some flight ∧ (call = flight.leader ∨ call ∈ flight.waiters)
  waits : ∀ key flight, Map.get key s.inFlight = some flight → ∀ call,
    call = flight.leader ∨ call ∈ flight.waiters → s.promises[call]? = some (.pending key)

/-- Where the function of the call's flight is, or the outcome that the call has. -/
def Fated (running : φ → Prop) (ended : ρ → Prop) (key : κ) (call : Nat)
    (s : SingleFlight κ φ ρ) : Prop :=
  (s.promises[call]? = some (.pending key) ∧
      ∀ flight, Map.get key s.inFlight = some flight → running flight.fn) ∨
    ∃ outcome, s.promises[call]? = some (.settled outcome) ∧ ended outcome

theorem ok_empty : (empty : SingleFlight κ φ ρ).Ok := ⟨nofun, nofun⟩

variable {s : SingleFlight κ φ ρ} {key : κ} {flight : Flight φ}

theorem promises_doFor (key : κ) (fn : φ) (s : SingleFlight κ φ ρ) :
    (s.doFor key fn).promises = s.promises ++ [.pending key] := by
  rw [doFor]
  split <;> rfl

variable {other : κ} {fn : φ}

theorem get_doFor_of_ne (fn : φ) (hn : key ≠ other) :
    Map.get other (s.doFor key fn).inFlight = Map.get other s.inFlight := by
  rw [doFor]
  split <;> simp [Map.get_set, hn]

theorem get_doFor_of_flight (fn : φ) (hf : Map.get key s.inFlight = some flight) :
    Map.get key (s.doFor key fn).inFlight =
      some { flight with waiters := flight.waiters ++ [s.promises.length] } := by
  rw [doFor, hf]
  simp [Map.get_set]

theorem get_doFor_of_none (fn : φ) (hn : Map.get key s.inFlight = none) :
    Map.get key (s.doFor key fn).inFlight = some ⟨s.promises.length, [], fn⟩ := by
  rw [doFor, hn]
  simp [Map.get_set]

/-- The calls of the flight of a key. -/
def Calls (s : SingleFlight κ φ ρ) (key : κ) (call : Nat) : Prop :=
  ∃ flight, Map.get key s.inFlight = some flight ∧ (call = flight.leader ∨ call ∈ flight.waiters)

theorem ok_iff : s.Ok ↔ ∀ call key, s.promises[call]? = some (.pending key) ↔ s.Calls key call := by
  refine ⟨fun h call key => ⟨h.flies call key, ?_⟩, fun h => ⟨fun call key => (h call key).mp, ?_⟩⟩
  · rintro ⟨flight, hg, hc⟩
    exact h.waits key flight hg call hc
  · intro key flight hg call hc
    exact (h call key).mpr ⟨flight, hg, hc⟩

theorem calls_doFor (call : Nat) : (s.doFor key fn).Calls other call ↔
    s.Calls other call ∨ call = s.promises.length ∧ key = other := by
  unfold Calls
  by_cases hk : key = other
  · subst hk
    cases hg : Map.get key s.inFlight with
    | none => simp [get_doFor_of_none fn hg]
    | some => simp [get_doFor_of_flight fn hg, or_assoc]
  · simp [get_doFor_of_ne fn hk, hk]

theorem Ok.doFor (h : s.Ok) (key : κ) (fn : φ) : (s.doFor key fn).Ok := by
  rw [ok_iff] at h ⊢
  intro call other
  rw [promises_doFor, getElem?_concat_eq_some_iff, Promise.pending.injEq, calls_doFor, h call other]

theorem Ok.answer (h : s.Ok) (outcome : ρ) : (s.answer outcome).Ok := by
  rw [ok_iff] at h ⊢
  intro call key
  have hp : (s.answer outcome).promises[call]? = some (.pending key) ↔
      s.promises[call]? = some (.pending key) := by
    simp [SingleFlight.answer, getElem?_concat_eq_some_iff]
  rw [hp, h call key]
  rfl

theorem Ok.advance (h : s.Ok) (hg : Map.get key s.inFlight = some flight) (fn : φ) :
    (s.advance key flight fn).Ok := by
  rw [ok_iff] at h ⊢
  intro call other
  rw [show (s.advance key flight fn).promises = s.promises from rfl, h call other]
  by_cases hk : key = other
  · subst hk
    simp [Calls, SingleFlight.advance, Map.get_set, hg]
  · simp [Calls, SingleFlight.advance, Map.get_set, hk]

theorem promises_settle (outcome : ρ) (call : Nat) :
    (s.settle key flight outcome).promises[call]? = (s.promises[call]?).map fun promise =>
      if call = flight.leader ∨ call ∈ flight.waiters then .settled outcome else promise := by
  rw [settle, List.getElem?_mapIdx]

theorem Ok.settle (h : s.Ok) (hg : Map.get key s.inFlight = some flight) (outcome : ρ) :
    (s.settle key flight outcome).Ok := by
  rw [ok_iff] at h ⊢
  intro call other
  have hm : (call = flight.leader ∨ call ∈ flight.waiters) ↔
      s.promises[call]? = some (.pending key) := by
    simp [h call key, Calls, hg]
  have hc : (s.settle key flight outcome).Calls other call ↔
      key ≠ other ∧ s.promises[call]? = some (.pending other) := by
    by_cases hk : key = other <;>
      simp [h call other, Calls, SingleFlight.settle, Map.get_delete, hk]
  rw [hc, promises_settle]
  by_cases hi : call = flight.leader ∨ call ∈ flight.waiters
  · simp [hi, hm.mp hi]
  · simp only [hi, if_false, Option.map_id', iff_and_self]
    rintro hp rfl
    exact hi (hm.mpr hp)

variable {running : φ → Prop} {ended : ρ → Prop} {call : Nat}

theorem fated_doFor (hn : running fn)
    (ho : ∀ flight, Map.get key s.inFlight = some flight → running flight.fn) :
    (s.doFor key fn).Fated running ended key s.promises.length := by
  refine .inl ⟨by simp [promises_doFor], fun flight hf => ?_⟩
  cases hg : Map.get key s.inFlight with
  | none =>
    cases (get_doFor_of_none fn hg).symm.trans hf
    exact hn
  | some old =>
    cases (get_doFor_of_flight fn hg).symm.trans hf
    exact ho old hg

variable (h : s.Fated running ended key call)
include h

theorem Fated.doFor (hOk : s.Ok) (other : κ) (fn : φ) :
    (s.doFor other fn).Fated running ended key call := by
  have hk : ∀ promise, s.promises[call]? = some promise →
      (s.doFor other fn).promises[call]? = some promise := fun promise ha =>
    promises_doFor other fn s ▸ getElem?_concat_eq_some_iff.mpr (.inl ha)
  rcases h with ⟨hp, hr⟩ | ⟨outcome, hs, he⟩
  · refine .inl ⟨hk _ hp, fun flight hf => ?_⟩
    obtain ⟨old, ho, -⟩ := hOk.flies call key hp
    by_cases hb : other = key
    · subst hb
      cases (get_doFor_of_flight fn ho).symm.trans hf
      exact hr old ho
    · rw [get_doFor_of_ne fn hb] at hf
      exact hr flight hf
  · exact .inr ⟨outcome, hk _ hs, he⟩

theorem Fated.answer (outcome : ρ) : (s.answer outcome).Fated running ended key call := by
  have hk : ∀ promise, s.promises[call]? = some promise →
      (s.answer outcome).promises[call]? = some promise := fun promise hp =>
    getElem?_concat_eq_some_iff.mpr (.inl hp)
  rcases h with ⟨ha, hr⟩ | ⟨last, hs, he⟩
  · exact .inl ⟨hk _ ha, hr⟩
  · exact .inr ⟨last, hk _ hs, he⟩

theorem Fated.advance (hn : other = key → running flight.fn → running fn)
    (hg : Map.get other s.inFlight = some flight) :
    (s.advance other flight fn).Fated running ended key call := by
  refine h.imp (fun ⟨hp, hr⟩ => ⟨hp, fun flight' hf => ?_⟩) id
  rcases Map.get_of_set hf with ⟨rfl, rfl⟩ | ha
  · exact hn rfl (hr flight hg)
  · exact hr flight' ha

theorem Fated.settle (ho : s.Ok) {outcome : ρ}
    (hl : other = key → running flight.fn → ended outcome)
    (hg : Map.get other s.inFlight = some flight) :
    (s.settle other flight outcome).Fated running ended key call := by
  rcases h with ⟨hp, hr⟩ | ⟨last, hs, he⟩
  · by_cases hk : other = key
    · subst hk
      obtain ⟨flight', hf, hc⟩ := ho.flies call other hp
      cases hg.symm.trans hf
      refine .inr ⟨outcome, ?_, hl rfl (hr flight hg)⟩
      rw [promises_settle, hp, Option.map_some, if_pos hc]
    · refine .inl ⟨?_, fun flight' hf => ?_⟩
      · rw [promises_settle, hp, Option.map_some, if_neg]
        intro hm
        have ha := hp.symm.trans (ho.waits other flight hg call hm)
        exact hk (by cases ha; rfl)
      · rw [SingleFlight.settle, Map.get_delete, if_neg hk] at hf
        exact hr flight' hf
  · refine .inr ⟨last, ?_, he⟩
    rw [promises_settle, hs, Option.map_some, if_neg]
    intro hm
    cases hs.symm.trans (ho.waits other flight hg call hm)

end SingleFlight

end Credence.Lib
