import Credence.Replay.Service

/-! How often an event's handler returns. The status is compared before the handler and written
after it, on a copy that may be old. -/

namespace Credence.Replay

open Js ProofKit

def Phase.isBusy : Phase → Bool
  | .handling _ | .updating => true
  | _ => false

/-- A handler starts only while no call is between its handler and its update and the row is not
`replayed`; the update of a handled event takes effect. -/
def Guarded : Action → World → Prop
  | .start call, s =>
    match Map.get call s.calls with
    | some (.checking event) => event.status = .replayed ∨
        (s.calls.all fun entry => !entry.2.isBusy) ∧ s.row.all (·.status ≠ .replayed)
    | _ => True
  | .update _ reply, s => reply.takesEffect = true ∧ s.row.isSome = true
  | .crash call, s => Map.get call s.calls ≠ some .updating
  | _, _ => True

instance (a : Action) (s : World) : Decidable (Guarded a s) :=
  match a with
  | .start call =>
    match hAt : Map.get call s.calls with
    | some (.checking event) =>
      decidable_of_iff (event.status = .replayed ∨
          (s.calls.all fun entry => !entry.2.isBusy) ∧ s.row.all (·.status ≠ .replayed))
        (by simp only [Guarded, hAt])
    | some .fetching | some (.storing _) | some (.handling _) | some .updating | some .counting
    | some .refetching | some .invalidating | some (.recording _) | none =>
      isTrue (by simp only [Guarded, hAt])
  | .update _ _ => inferInstanceAs (Decidable (_ ∧ _))
  | .crash _ => inferInstanceAs (Decidable (¬ _))
  | .call _ _ | .fetch _ _ | .store _ _ _ | .handle _ _ | .increment _ _ | .refetch _ _
  | .invalidate _ _ _ => isTrue trivial

def World.isReplayed (s : World) : Bool := s.row.any (·.status = .replayed)

/-- At most one call is busy, and the handler has returned at most once. -/
structure Ok (s : World) : Prop where
  alone : ∀ {call call' phase phase'}, Map.get call s.calls = some phase → phase.isBusy = true →
    Map.get call' s.calls = some phase' → phase'.isBusy = true → call = call'
  before : ∀ {call event}, Map.get call s.calls = some (.handling event) → s.handled = []
  after : s.handled.length ≤ 1
  done : s.handled ≠ [] → s.isReplayed = true ∨ ∃ call, Map.get call s.calls = some .updating

variable {s t : World} {a : Action} {id : String} {handlers : List String}

/-- What a step can do to the calls, the row and the list of handled calls. -/
inductive Turn (a : Action) (s t : World) : Prop
  | quiet (hHandled : t.handled = s.handled) (hRow : s.isReplayed = true → t.isReplayed = true)
      (hBusy : ∀ {call phase}, Map.get call t.calls = some phase → phase.isBusy = true →
        Map.get call s.calls = some phase)
      (hUpdating : ∀ {call}, Map.get call s.calls = some .updating →
        Map.get call t.calls = some .updating)
  | start (call : Nat) (event : FailedInboundEvent) (hAction : a = .start call)
      (hChecking : Map.get call s.calls = some (.checking event))
      (hStatus : event.status ≠ .replayed) (hWorld : t = s.go call (.handling event))
  | handle (call : Nat) (event : FailedInboundEvent)
      (hHandling : Map.get call s.calls = some (.handling event))
      (hWorld : t = { s with handled := s.handled ++ [call] }.go call .updating)
  | update (call : Nat) (reply : Reply) (phase : Phase) (hAction : a = .update call reply)
      (hUpdating : Map.get call s.calls = some .updating) (hPhase : phase.isBusy = false)
      (hWorld : t = (s.write reply setReplayed).go call phase)

variable {call : Nat} {phase : Phase} {event : FailedInboundEvent}

theorem Turn.go (he : Map.get call s.calls ≠ some .updating) (hp : phase.isBusy = false)
    (hc : t.calls = Map.set call phase s.calls) (hh : t.handled = s.handled)
    (hr : s.isReplayed = true → t.isReplayed = true) : Turn a s t := by
  refine .quiet hh hr ?_ ?_
  · intro other otherPhase hg hb
    rw [hc] at hg
    rcases Map.get_of_set hg with ⟨-, rfl⟩ | hf
    · rw [hp] at hb
      cases hb
    · exact hf
  · intro other hg
    rw [hc, Map.get_set, if_neg]
    · exact hg
    · rintro rfl
      exact he hg

theorem Turn.finish (hb : Map.get call s.calls ≠ some .updating)
    (hc : t.calls = Map.delete call s.calls) (hh : t.handled = s.handled)
    (hr : s.isReplayed = true → t.isReplayed = true) : Turn a s t := by
  refine .quiet hh hr ?_ ?_
  · intro other otherPhase hg hu
    rw [hc] at hg
    exact (Map.get_of_delete hg).2
  · intro other hg
    rw [hc, Map.get_delete, if_neg]
    · exact hg
    · rintro rfl
      exact hb hg

theorem isReplayed_increment (reply : Reply) (h : s.isReplayed = true) :
    (s.write reply incrementRetryCount).isReplayed = true := by
  have hk : (incrementRetryCount s.row).any (·.status = .replayed) = true := by
    cases hr : s.row with
    | none => simp [World.isReplayed, hr] at h
    | some event =>
      have hs : event.status = .replayed := by simpa [World.isReplayed, hr] using h
      simp [incrementRetryCount, hs]
  cases reply with
  | ok => exact hk
  | lost => exact hk
  | failed => exact h

@[simp] theorem calls_write (reply : Reply)
    (statement : Option FailedInboundEvent → Option FailedInboundEvent) :
    (s.write reply statement).calls = s.calls := by
  cases reply <;> rfl

@[simp] theorem handled_write (reply : Reply)
    (statement : Option FailedInboundEvent → Option FailedInboundEvent) :
    (s.write reply statement).handled = s.handled := by
  cases reply <;> rfl

theorem not_updating (ha : Map.get call s.calls = some phase) (hp : phase ≠ .updating) :
    Map.get call s.calls ≠ some .updating := by
  rw [ha]
  simpa using hp

theorem start_turn (ha : Map.get call s.calls = some (.checking event)) :
    Turn (.start call) s (s.start handlers call event) := by
  have hi := not_updating ha (by simp)
  rw [World.start]
  split
  · exact .finish hi rfl rfl fun h => h
  · next hs =>
    split
    · exact .start call event rfl ha hs rfl
    · exact .finish hi rfl rfl fun h => h

theorem advance_turn (hg : Guarded a s) (ha : Map.get a.caller s.calls = some phase)
    (h : s.advance id handlers a phase = some t) : Turn a s t := by
  unfold World.advance at h
  split at h
  · cases h
    exact .finish (not_updating ha (by simp)) rfl rfl fun h => h
  · split at h
    · cases h
      exact .finish (not_updating ha (by simp)) rfl rfl fun h => h
    · cases h
      exact .go (not_updating ha (by simp)) rfl rfl rfl fun h => h
  · next kept event =>
    cases h
    cases kept with
    | false | true => exact .go (not_updating ha (by simp)) rfl rfl rfl fun h => h
  · cases h
    exact start_turn ha
  · cases h
    exact .go (not_updating ha (by simp)) rfl rfl rfl fun h => h
  · next call event =>
    cases h
    exact .handle call event ha rfl
  · next call reply =>
    cases h
    refine .update call reply _ rfl ha ?_ rfl
    cases reply <;> rfl
  · next call reply =>
    cases h
    refine .go (not_updating ha (by simp)) ?_ (by simp [World.go]; rfl) (by simp [World.go])
      fun h => isReplayed_increment reply h
    cases reply <;> rfl
  · cases h
    exact .go (not_updating ha (by simp)) rfl rfl rfl fun h => h
  · split at h
    · cases h
      exact .go (not_updating ha (by simp)) rfl rfl rfl fun h => h
    · cases h
      exact .finish (not_updating ha (by simp)) rfl rfl fun h => h
  · next call deleted error =>
    have hi := not_updating ha (by simp)
    cases deleted <;> cases error <;> cases h
    · exact .finish hi rfl rfl fun h => h
    · exact .go hi rfl rfl rfl fun h => h
    · exact .finish hi rfl rfl fun h => h
    · exact .go hi rfl rfl rfl fun h => h
  · next call reply message =>
    have hi := not_updating ha (by simp)
    cases reply <;> cases h
    · exact .finish hi rfl rfl (isReplayed_increment _)
    · exact .finish hi rfl rfl (isReplayed_increment _)
    · exact .finish hi rfl rfl fun h => h
  · cases h
    exact .finish hg rfl rfl fun h => h
  · cases h

theorem step_turn (hg : Guarded a s) (h : step id handlers a s = some t) : Turn a s t := by
  unfold step at h
  split at h
  · next call now =>
    obtain ⟨hn, hw⟩ := Option.ite_none_right_eq_some.mp h
    have hi : Map.get call s.calls ≠ some .updating := by simp [hn]
    split at hw
    · cases hw
      exact .go hi rfl rfl rfl fun h => h
    · cases hw
      exact .go hi rfl rfl rfl fun h => h
  · obtain ⟨phase, ha, had⟩ := Option.bind_eq_some_iff.mp h
    exact advance_turn hg ha had

theorem Ok.handled_nil (h : Ok s) (hb : ∀ entry ∈ s.calls, entry.2.isBusy = false)
    (hr : s.isReplayed = false) : s.handled = [] := by
  by_contra hh
  rcases h.done hh with he | ⟨call, hu⟩
  · rw [he] at hr
    cases hr
  · have hf := hb _ (Map.mem_of_get hu)
    cases hf

theorem Ok.start (h : Ok s) (event : FailedInboundEvent)
    (hf : ∀ entry ∈ s.calls, entry.2.isBusy = false) (hr : s.isReplayed = false) :
    Ok (s.go call (.handling event)) := by
  have hn := h.handled_nil hf hr
  have ho {other : Nat} {phase : Phase}
      (hg : Map.get other (Map.set call (.handling event) s.calls) = some phase)
      (hb : phase.isBusy = true) : other = call := by
    rcases Map.get_of_set hg with ⟨hs, -⟩ | ha
    · exact hs.symm
    · rw [hf _ (Map.mem_of_get ha)] at hb
      cases hb
  constructor
  · intro other other' phase phase' hg hi hg' hi'
    exact (ho hg hi).trans (ho hg' hi').symm
  · intro other otherEvent _
    exact hn
  · exact h.after
  · intro hc
    exact absurd hn hc

theorem Ok.handle (h : Ok s) (hh : Map.get call s.calls = some (.handling event)) :
    Ok ({ s with handled := s.handled ++ [call] }.go call .updating) := by
  have hn := h.before hh
  have ho {other : Nat} {phase : Phase}
      (hg : Map.get other (Map.set call .updating s.calls) = some phase)
      (hb : phase.isBusy = true) : other = call ∧ phase = .updating := by
    rw [Map.get_set] at hg
    split at hg
    · next hs =>
      cases hg
      exact ⟨hs.symm, rfl⟩
    · next ht => exact absurd (h.alone hh rfl hg hb) ht
  constructor
  · intro other other' phase phase' hg hi hg' hi'
    exact (ho hg hi).1.trans (ho hg' hi').1.symm
  · intro other otherEvent hg
    cases (ho hg rfl).2
  · show (s.handled ++ [call]).length ≤ 1
    rw [hn]
    exact Nat.le_refl 1
  · intro _
    refine .inr ⟨call, ?_⟩
    exact Map.get_set_self ..

theorem Ok.update (h : Ok s) {reply : Reply} (he : reply.takesEffect = true)
    (hr : s.row.isSome = true) (hp : phase.isBusy = false) :
    Ok ((s.write reply setReplayed).go call phase) := by
  have ha : (s.write reply setReplayed).isReplayed = true := by
    obtain ⟨event, hv⟩ := Option.isSome_iff_exists.mp hr
    simp [World.write, World.isReplayed, setReplayed, he, hv]
  have hb {other : Nat} {otherPhase : Phase}
      (hg : Map.get other ((s.write reply setReplayed).go call phase).calls = some otherPhase)
      (hi : otherPhase.isBusy = true) : Map.get other s.calls = some otherPhase := by
    rw [World.go, calls_write] at hg
    rcases Map.get_of_set hg with ⟨-, rfl⟩ | hf
    · rw [hp] at hi
      cases hi
    · exact hf
  constructor
  · intro other other' otherPhase phase' hg hi hg' hi'
    exact h.alone (hb hg hi) hi (hb hg' hi') hi'
  · intro other event hg
    exact (handled_write reply setReplayed).trans (h.before (hb hg rfl))
  · rw [World.go, handled_write]
    exact h.after
  · intro _
    exact .inl ha

theorem Ok.step (h : Ok s) (hd : Guarded a s)
    (hs : Replay.step id handlers a s = some t) : Ok t := by
  cases step_turn hd hs with
  | quiet hh hr hb hu =>
    refine ⟨fun hg hi hg' hi' => h.alone (hb hg hi) hi (hb hg' hi') hi',
      fun hg => hh.trans (h.before (hb hg rfl)), hh ▸ h.after, fun hj => ?_⟩
    rcases h.done (hh ▸ hj) with hk | ⟨call, hg⟩
    · exact .inl (hr hk)
    · exact .inr ⟨call, hu hg⟩
  | start call event ha hc ht hw =>
    subst ha hw
    simp only [Guarded, hc] at hd
    obtain ⟨hf, hr⟩ := hd.resolve_left ht
    refine h.start event (by simpa using hf) ?_
    rw [World.isReplayed]
    cases he : s.row with
    | none => rfl
    | some => simpa [he] using hr
  | handle call event hl hw =>
    subst hw
    exact h.handle hl
  | update call reply phase ha hu hp hw =>
    subst ha hw
    exact h.update hd.1 hd.2 hp

/-- Where handlers start alone, on a row that is not yet `replayed`, and the updates after them take
effect, the handler returns at most once. -/
theorem handled_at_most_once (id : String) (handlers : List String) (actions : List Action)
    (s t : World) (hStart : s.calls = [] ∧ s.handled = [])
    (hGuarded : Along (step id handlers) Guarded actions s)
    (hRun : run (step id handlers) actions s = some t) : t.handled.length ≤ 1 := by
  have ho : Ok s := by
    constructor <;> simp [hStart.1, hStart.2, Map.get]
  exact (run_invariant Ok (fun _ _ _ ho hGuarded hs => ho.step hGuarded hs) ho hGuarded
    hRun).after

def failedEvent : World := ⟨some ⟨"bond_creation", "b1", .failed, 0⟩, none, [], [], []⟩

def readEvent (call now : Nat) : List Action :=
  [.call call now, .fetch call none, .store call now true]

def inTurn : List Action :=
  readEvent 0 0 ++ [.start 0, .handle 0 (some "down"), .increment 0 .ok, .call 1 10, .start 1,
    .handle 1 none, .update 1 .ok, .increment 1 .ok, .refetch 1 none, .invalidate 1 true none] ++
    readEvent 2 20 ++ [.start 2]

def overlapping : List Action :=
  readEvent 0 0 ++ [.start 0, .call 1 1, .start 1, .handle 0 none, .handle 1 none]

def staleCopy : List Action :=
  readEvent 0 0 ++ [.start 0, .handle 0 none, .update 0 .ok, .call 1 5, .start 1, .handle 1 none]

def failedUpdate : List Action :=
  readEvent 0 0 ++ [.start 0, .handle 0 none, .update 0 (.failed "timeout"), .increment 0 .ok,
    .call 1 400, .fetch 1 none, .store 1 400 true, .start 1, .handle 1 none]

theorem handled_at_most_once_inTurn :
    ∃ t, run (step "e1" ["bond_creation"]) inTurn failedEvent = some t ∧ t.handled = [1] ∧
      t.handled.length ≤ 1 := by
  have hr : run (step "e1" ["bond_creation"]) inTurn failedEvent = some _ := rfl
  exact ⟨_, hr, rfl, handled_at_most_once "e1" ["bond_creation"] inTurn failedEvent _
    ⟨rfl, rfl⟩ (by decide +kernel) hr⟩

/-- Overlapping calls, a stale copy and a failed update each let the handler return twice. -/
theorem handler_returns_twice :
    (run (step "e1" ["bond_creation"]) overlapping failedEvent).map World.handled = some [0, 1] ∧
      (run (step "e1" ["bond_creation"]) staleCopy failedEvent).map World.handled = some [0, 1] ∧
      (run (step "e1" ["bond_creation"]) failedUpdate failedEvent).map World.handled =
        some [0, 1] := by
  decide +kernel

end Credence.Replay
