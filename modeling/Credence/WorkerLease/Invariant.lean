import Credence.ProofKit.Lists
import Credence.WorkerLease.Manager

/-! The invariant of `WorkerLeaseManager`, in parts, each over the fields that it reads. -/

namespace Credence.WorkerLease

open ProofKit List

/-- A session is released once, and not for reuse with the lock. -/
structure SessionOk (x : LeaseSession) : Prop where
  once : x.disposed = true → x.released.length = 1
  kept : x.disposed = false → x.released = []
  held : x.held = true → x.lock = .granted
  unlocked : x.unlocked = true → x.lock = .granted
  safe : false ∈ x.released → x.lock = .idle ∨ x.lock = .denied ∨ x.unlocked = true

def Stopping.session? : Stopping → Option Nat
  | .releasing session => session
  | .unlocking session => some session
  | .ended | .finished => none

def Releases (stops : List Stopping) (i : Nat) : Prop :=
  ∃ (p : Nat) (phase : Stopping), stops[p]? = some phase ∧ phase.session? = some i

def IsHeld (sessions : List LeaseSession) (i : Nat) : Prop :=
  ∃ x, sessions[i]? = some x ∧ x.held = true

/-- Every session that is not released is the lease, or one that a stop releases. -/
structure Owned (sessions : List LeaseSession) (lease : Option Nat) (stops : List Stopping)
    (state : LeaseState) : Prop where
  sound : ∀ {i : Nat} {x : LeaseSession}, sessions[i]? = some x → SessionOk x
  live : ∀ {i : Nat}, lease = some i → ∃ x, sessions[i]? = some x ∧ x.disposed = false
  owner : ∀ {i : Nat} {x : LeaseSession}, sessions[i]? = some x → x.disposed = false →
    lease = some i ∨ Releases stops i
  apart : ∀ {i : Nat}, Releases stops i → lease ≠ some i ∧ i < sessions.length
  unlocking : ∀ {p i : Nat}, stops[p]? = some (.unlocking i) → IsHeld sessions i
  leader : state = .leader → ∃ i, lease = some i ∧ IsHeld sessions i

def Alone (stops : List Stopping) (stopping : Option Nat) : Prop :=
  ∀ (p i : Nat) (phase : Stopping), stops[p]? = some phase → phase.session? = some i →
    stopping = some p

def Acquiring.generation? : Acquiring → Option Nat
  | .connecting generation | .locking _ generation => some generation
  | .ended => none

/-- One acquisition at a time is under way for the current generation, and while it waits for the
pool there is no lease. -/
structure Acquires (running : Bool) (generation : Nat) (lease : Option Nat)
    (acquisition : Option (Nat × Nat)) (acquisitions : List Acquiring) : Prop where
  active : ∀ {i : Nat}, lease = some i → running = true
  bounded : ∀ {a g : Nat} {phase : Acquiring}, acquisitions[a]? = some phase →
    phase.generation? = some g → g ≤ generation
  single : ∀ {a : Nat} {phase : Acquiring}, acquisitions[a]? = some phase →
    phase.generation? = some generation → acquisition = some (a, generation)
  idle : ∀ {a : Nat}, acquisitions[a]? = some (.connecting generation) → lease = none

/-- A lock query without a reply belongs to the session that its acquisition has checked out. -/
structure Linked (sessions : List LeaseSession) (acquisitions : List Acquiring)
    (lease : Option Nat) (generation : Nat) : Prop where
  locking : ∀ {a i g : Nat}, acquisitions[a]? = some (.locking i g) →
    ∃ x, sessions[i]? = some x ∧ x.lock = .asked ∧ x.acquisition = a ∧ x.generation = g
  current : ∀ {i : Nat} {x : LeaseSession}, lease = some i → sessions[i]? = some x →
    x.generation = generation

/-- There is no lease, and no acquisition of the current generation is under way. -/
structure Quiet (generation : Nat) (lease : Option Nat) (acquisitions : List Acquiring) : Prop where
  free : lease = none
  none : ∀ {a : Nat} {phase : Acquiring}, acquisitions[a]? = some phase →
    phase.generation? ≠ some generation

def Frame.retries : Frame → Bool
  | .lost _ _ | .lostReleased _ | .lostReported _ | .connectFailed => true
  | .acquired _ _ | .announced _ _ | .stopped _ | .unlockFailed _ | .released => false

/-- A retry is scheduled, or will be, only where nothing else is under way. A `stop` in between
keeps the manager from starting until the callbacks have returned. -/
structure Scheduled (running : Bool) (generation : Nat) (lease : Option Nat)
    (acquisitions : List Acquiring) (stopping : Option Nat) (retryTimer : Bool)
    (stack : List Frame) : Prop where
  retry : retryTimer = true → running = true ∧ Quiet generation lease acquisitions
  frames : ∀ {frame}, frame ∈ stack → frame.retries = true →
    (running = true ∧ Quiet generation lease acquisitions) ∨
      (running = false ∧ stopping.isSome = true)

structure Ok (s : World) : Prop where
  owned : Owned s.sessions s.lease s.stops s.state
  alone : Alone s.stops s.stopping
  acquires : Acquires s.running s.generation s.lease s.acquisition s.acquisitions
  linked : Linked s.sessions s.acquisitions s.lease s.generation
  scheduled : Scheduled s.running s.generation s.lease s.acquisitions s.stopping s.retryTimer
    s.stack

theorem Ok.start : Ok World.start where
  owned := by
    refine ⟨?_, ?_, ?_, ?_, ?_, ?_⟩
    all_goals simp [World.start, Releases]
  alone := by simp [World.start, Alone]
  acquires := by
    refine ⟨?_, ?_, ?_, ?_⟩
    all_goals simp [World.start]
  linked := by
    refine ⟨?_, ?_⟩
    all_goals simp [World.start]
  scheduled := by
    refine ⟨?_, ?_⟩
    all_goals simp [World.start]

def Returnable (sessions : List LeaseSession) (i : Nat) : Prop :=
  ∀ x, sessions[i]? = some x → x.lock = .idle ∨ x.lock = .denied ∨ x.unlocked = true

theorem disposed_dispose (destroy : Bool) (x : LeaseSession) :
    (x.dispose destroy).disposed = true := by
  rw [LeaseSession.dispose]
  split
  · next hd => exact hd
  · rfl

variable {x : LeaseSession} {destroy : Bool}

theorem SessionOk.dispose (h : SessionOk x)
    (hs : destroy = true ∨ x.lock = .idle ∨ x.lock = .denied ∨ x.unlocked = true) :
    SessionOk (x.dispose destroy) := by
  rw [LeaseSession.dispose]
  split
  · exact h
  · next hd =>
    have hn : x.released = [] := h.kept (by simpa using hd)
    refine ⟨?_, ?_, h.held, h.unlocked, ?_⟩
    · simp [hn]
    · simp
    · intro hm
      rcases hs with rfl | hr
      · simp [hn] at hm
      · exact hr

theorem held_dispose : (x.dispose destroy).held = x.held := by
  rw [LeaseSession.dispose]
  split
  · rfl
  · rfl

theorem sessionOk_checkedOut (a g : Nat) : SessionOk (LeaseSession.checkedOut a g) := by
  refine ⟨?_, ?_, ?_, ?_, ?_⟩
  all_goals simp [LeaseSession.checkedOut]

theorem SessionOk.record (h : SessionOk x) (hl : x.lock = .asked) (reply : LockReply) :
    SessionOk (reply.record x) := by
  have hg : x.lock ≠ .granted := by simp [hl]
  refine ⟨h.once, h.kept, fun hh => absurd (h.held hh) hg,
    fun hu => absurd (h.unlocked hu) hg, fun hm => ?_⟩
  rcases h.safe hm with hi | hd | hu
  · cases hl.symm.trans hi
  · cases hl.symm.trans hd
  · exact absurd (h.unlocked hu) hg

variable {sessions : List LeaseSession} {lease after : Option Nat} {stops : List Stopping}
  {state : LeaseState} {running retryTimer : Bool} {generation : Nat}
  {acquisition : Option (Nat × Nat)} {acquisitions : List Acquiring} {stopping : Option Nat}
  {stack : List Frame} {i : Nat} {x : LeaseSession} {f : LeaseSession → LeaseSession}

structure Sound (sessions : List LeaseSession) (i : Nat) (f : LeaseSession → LeaseSession) :
    Prop where
  sound : ∀ {x}, sessions[i]? = some x → SessionOk x → SessionOk (f x)
  disposed : ∀ {x}, (f x).disposed = false → x.disposed = false
  held : ∀ x, x.held = true → (f x).held = true

structure Steady (f : LeaseSession → LeaseSession) : Prop where
  lock : ∀ {x}, (f x).lock = x.lock
  acquisition : ∀ {x}, (f x).acquisition = x.acquisition
  generation : ∀ {x}, (f x).generation = x.generation

theorem steady_dispose (destroy : Bool) : Steady (LeaseSession.dispose destroy) := by
  refine ⟨?_, ?_, ?_⟩
  all_goals
    intro x
    rw [LeaseSession.dispose]
    split
    · rfl
    · rfl

variable {j p : Nat} {old : Stopping}

theorem IsHeld.modify (h : IsHeld sessions j) (hh : ∀ x, x.held = true → (f x).held = true) :
    IsHeld (sessions.modify i f) j := by
  obtain ⟨x, hg, hX⟩ := h
  refine ⟨if i = j then f x else x, ?_, ?_⟩
  · rw [getElem?_modify, hg]
    rfl
  · split
    · exact hh x hX
    · exact hX

theorem Linked.modify (h : Linked sessions acquisitions lease generation) (hs : Steady f)
    (hl : ∀ {j}, after = some j → lease = some j) :
    Linked (sessions.modify i f) acquisitions after generation where
  locking := by
    intro a j g hc
    obtain ⟨x, hg, hd, ha, he⟩ := h.locking hc
    refine ⟨if i = j then f x else x, ?_, ?_⟩
    · rw [getElem?_modify, hg]
      rfl
    · split
      · rw [hs.lock, hs.acquisition, hs.generation]
        exact ⟨hd, ha, he⟩
      · exact ⟨hd, ha, he⟩
  current := by
    intro j y hf hg
    obtain ⟨x, hb, rfl⟩ := getElem?_modify_eq_some hg
    split
    · rw [hs.generation]
      exact h.current (hl hf) hb
    · exact h.current (hl hf) hb

theorem Owned.modify (h : Owned sessions lease stops state) (hs : Sound sessions i f)
    (hl : ∀ {j}, after = some j → lease = some j)
    (hi : after = some i → ∀ {x}, x.disposed = false → (f x).disposed = false)
    (hc : after ≠ lease → lease = some i ∧ ∀ {x}, (f x).disposed = true)
    (hle : state = .leader → after = lease) :
    Owned (sessions.modify i f) after stops state where
  sound := by
    intro j y hg
    obtain ⟨x, hb, rfl⟩ := getElem?_modify_eq_some hg
    split
    · next hp =>
      subst hp
      exact hs.sound hb (h.sound hb)
    · exact h.sound hb
  live := by
    intro j ha
    obtain ⟨x, hg, hd⟩ := h.live (hl ha)
    refine ⟨if i = j then f x else x, ?_, ?_⟩
    · rw [getElem?_modify, hg]
      rfl
    · split
      · next hp => exact hi (hp ▸ ha) hd
      · exact hd
  owner := by
    intro j y hg hd
    obtain ⟨x, hb, rfl⟩ := getElem?_modify_eq_some hg
    have hX : x.disposed = false := by
      split at hd
      · exact hs.disposed hd
      · exact hd
    refine (h.owner hb hX).imp_left fun ho => ?_
    by_cases he : after = lease
    · rw [he, ho]
    · obtain ⟨hI, hf⟩ := hc he
      rw [ho, Option.some.injEq] at hI
      rw [if_pos hI.symm, hf] at hd
      cases hd
  apart := by
    intro j hr
    rw [length_modify]
    exact ⟨fun ha => (h.apart hr).1 (hl ha), (h.apart hr).2⟩
  unlocking := fun ht => (h.unlocking ht).modify hs.held
  leader := by
    intro hj
    rw [hle hj]
    obtain ⟨j, hJ, hh⟩ := h.leader hj
    exact ⟨j, hJ, hh.modify hs.held⟩

theorem no_lease (hn : lease = none) (hl : ∀ {j}, after = some j → lease = some j) :
    after = none := by
  rw [Option.eq_none_iff_forall_ne_some]
  intro j ha
  cases hn.symm.trans (hl ha)

theorem Acquires.mono (h : Acquires running generation lease acquisition acquisitions)
    (hl : ∀ {j}, after = some j → lease = some j) :
    Acquires running generation after acquisition acquisitions where
  __ := h
  active := fun ha => h.active (hl ha)
  idle := fun hc => no_lease (h.idle hc) hl

theorem Scheduled.imp {later : List Acquiring}
    (h : Scheduled running generation lease acquisitions stopping retryTimer stack)
    (hq : Quiet generation lease acquisitions → Quiet generation after later) :
    Scheduled running generation after later stopping retryTimer stack where
  retry := fun ht => (h.retry ht).imp_right hq
  frames := fun hm hr => (h.frames hm hr).imp_left (And.imp_right hq)

def Fewer (acquisitions fewer : List Acquiring) : Prop :=
  ∀ (a : Nat) (phase : Acquiring), fewer[a]? = some phase →
    acquisitions[a]? = some phase ∨ phase = .ended

theorem fewer_set (acquisitions : List Acquiring) (a : Nat) :
    Fewer acquisitions (acquisitions.set a .ended) := by
  intro b phase hg
  rcases getElem?_set_eq_some hg with ⟨-, he⟩ | ⟨-, hb⟩
  · exact .inr he.symm
  · exact .inl hb

theorem Fewer.before {fewer : List Acquiring} (h : Fewer acquisitions fewer) {a g : Nat}
    {phase : Acquiring} (hg : fewer[a]? = some phase) (hp : phase.generation? = some g) :
    acquisitions[a]? = some phase := by
  rcases h a phase hg with hb | rfl
  · exact hb
  · cases hp

theorem Acquires.fewer {fewer : List Acquiring}
    (h : Acquires running generation lease acquisition acquisitions)
    (hf : Fewer acquisitions fewer) : Acquires running generation lease acquisition fewer where
  active := h.active
  bounded := fun hg hp => h.bounded (hf.before hg hp) hp
  single := fun hg hp => h.single (hf.before hg hp) hp
  idle := fun hg => h.idle (hf.before hg rfl)

theorem Linked.fewer {fewer : List Acquiring} (h : Linked sessions acquisitions lease generation)
    (hf : Fewer acquisitions fewer) : Linked sessions fewer lease generation where
  locking := fun hg => h.locking (hf.before hg rfl)
  current := h.current

theorem Owned.setStop {phase : Stopping} (h : Owned sessions lease stops state)
    (ht : stops[p]? = some old) (hh : ∀ {j}, phase.session? = some j → old.session? = some j)
    (hl : ∀ {j x}, old.session? = some j → sessions[j]? = some x → x.disposed = false →
      phase.session? = some j) (hu : ∀ {j}, phase = .unlocking j → IsHeld sessions j) :
    Owned sessions lease (stops.set p phase) state where
  __ := h
  owner := by
    intro j x hg hd
    refine (h.owner hg hd).imp_right ?_
    rintro ⟨q, other, ho, hs⟩
    by_cases hp : p = q
    · subst hp
      rw [ht, Option.some.injEq] at ho
      subst ho
      have hi := (List.getElem?_eq_some_iff.mp ht).1
      refine ⟨p, phase, ?_, hl hs hg hd⟩
      rw [getElem?_set, if_pos rfl, if_pos hi]
    · refine ⟨q, other, ?_, hs⟩
      rw [getElem?_set, if_neg hp]
      exact ho
  apart := by
    rintro j ⟨q, other, ho, hs⟩
    rcases getElem?_set_eq_some ho with ⟨-, rfl⟩ | ⟨-, hb⟩
    · exact h.apart ⟨p, old, ht, hh hs⟩
    · exact h.apart ⟨q, other, hb, hs⟩
  unlocking := by
    intro q j hn
    rcases getElem?_set_eq_some hn with ⟨-, ha⟩ | ⟨-, hb⟩
    · exact hu ha
    · exact h.unlocking hb

theorem Owned.handOver (h : Owned sessions lease stops state) :
    Owned sessions none (stops ++ [.releasing lease]) .standby where
  sound := h.sound
  live := by
    intro i hl
    cases hl
  owner := by
    intro i x hg hd
    right
    rcases h.owner hg hd with hl | ⟨p, phase, hs, he⟩
    · exact ⟨stops.length, _, getElem?_concat_length, hl⟩
    · exact ⟨p, phase, getElem?_concat_eq_some_iff.mpr (.inl hs), he⟩
  apart := by
    rintro i ⟨p, phase, hs, he⟩
    refine ⟨by simp, ?_⟩
    rcases getElem?_concat_eq_some_iff.mp hs with hb | ⟨-, rfl⟩
    · exact (h.apart ⟨p, phase, hb, he⟩).2
    · obtain ⟨x, hg, -⟩ := h.live he
      exact (List.getElem?_eq_some_iff.mp hg).1
  unlocking := by
    intro p i hs
    rcases getElem?_concat_eq_some_iff.mp hs with hb | ⟨-, ha⟩
    · exact h.unlocking hb
    · cases ha
  leader := by
    intro ht
    cases ht

theorem Alone.set {phase : Stopping} (h : Alone stops stopping) (ht : stops[p]? = some old)
    (hp : ∀ {j}, phase.session? = some j → old.session? = some j) :
    Alone (stops.set p phase) stopping := by
  intro q j other ho hs
  rcases getElem?_set_eq_some ho with ⟨rfl, rfl⟩ | ⟨-, hb⟩
  · exact h p j old ht (hp hs)
  · exact h q j other hb hs

theorem Alone.concat (h : Alone stops none) (phase : Stopping) :
    Alone (stops ++ [phase]) (some stops.length) := by
  intro q j other ho hs
  rcases getElem?_concat_eq_some_iff.mp ho with hb | ⟨rfl, -⟩
  · cases h q j other hb hs
  · rfl

theorem Alone.finish (h : Alone stops stopping) (p : Nat) :
    Alone (stops.set p .finished) (if stopping = some p then none else stopping) := by
  intro q j other ho hs
  rcases getElem?_set_eq_some ho with ⟨-, rfl⟩ | ⟨hn, hb⟩
  · cases hs
  · have hu := h q j other hb hs
    rw [if_neg]
    · exact hu
    · rw [hu, Option.some.injEq]
      exact hn.symm

theorem getElem?_append_of_some {y : LeaseSession} (h : sessions[j]? = some y) :
    (sessions ++ [x])[j]? = some y := getElem?_concat_eq_some_iff.mpr (.inl h)

theorem IsHeld.append (h : IsHeld sessions j) : IsHeld (sessions ++ [x]) j := by
  obtain ⟨y, hg, hh⟩ := h
  exact ⟨y, getElem?_append_of_some hg, hh⟩

theorem Owned.append_disposed (h : Owned sessions lease stops state) (hX : SessionOk x)
    (hd : x.disposed = true) : Owned (sessions ++ [x]) lease stops state where
  sound := by
    intro j y hg
    rcases getElem?_concat_eq_some_iff.mp hg with hb | ⟨-, rfl⟩
    · exact h.sound hb
    · exact hX
  live := by
    intro j hle
    obtain ⟨y, hg, hl⟩ := h.live hle
    exact ⟨y, getElem?_append_of_some hg, hl⟩
  owner := by
    intro j y hg hl
    rcases getElem?_concat_eq_some_iff.mp hg with hb | ⟨-, rfl⟩
    · exact h.owner hb hl
    · rw [hd] at hl
      cases hl
  apart := by
    intro j hr
    rw [length_append]
    exact ⟨(h.apart hr).1, Nat.lt_add_right _ (h.apart hr).2⟩
  unlocking := fun hs => (h.unlocking hs).append
  leader := by
    intro ht
    obtain ⟨j, hle, hh⟩ := h.leader ht
    exact ⟨j, hle, hh.append⟩

theorem Owned.append_lease (h : Owned sessions none stops state) (hX : SessionOk x)
    (ha : x.disposed = false) : Owned (sessions ++ [x]) (some sessions.length) stops state where
  sound := by
    intro j y hg
    rcases getElem?_concat_eq_some_iff.mp hg with hb | ⟨-, rfl⟩
    · exact h.sound hb
    · exact hX
  live := by
    intro j hl
    cases hl
    exact ⟨x, getElem?_concat_length, ha⟩
  owner := by
    intro j y hg hd
    rcases getElem?_concat_eq_some_iff.mp hg with hb | ⟨hc, -⟩
    · rcases h.owner hb hd with hl | hr
      · cases hl
      · exact .inr hr
    · exact .inl (congrArg some hc.symm)
  apart := by
    intro j hr
    have hi := (h.apart hr).2
    rw [length_append]
    refine ⟨?_, Nat.lt_add_right _ hi⟩
    intro hs
    rw [Option.some.injEq] at hs
    omega
  unlocking := fun ht => (h.unlocking ht).append
  leader := by
    intro he
    obtain ⟨j, hl, -⟩ := h.leader he
    cases hl

theorem Linked.append (h : Linked sessions acquisitions lease generation)
    (hl : ∀ {j}, lease = some j → j < sessions.length) :
    Linked (sessions ++ [x]) acquisitions lease generation where
  locking := by
    intro a j g hg
    obtain ⟨y, hb, hY⟩ := h.locking hg
    exact ⟨y, getElem?_append_of_some hb, hY⟩
  current := by
    intro j y hs hg
    rcases getElem?_concat_eq_some_iff.mp hg with hb | ⟨ha, -⟩
    · exact h.current hs hb
    · have := hl hs
      omega

end Credence.WorkerLease
