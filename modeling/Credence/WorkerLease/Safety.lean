import Credence.WorkerLease.Operations

/-! What holds in every run of `WorkerLeaseManager`. -/

namespace Credence.WorkerLease

open ProofKit

variable {s : World} {i : Nat} {frame : Frame}

variable {b generation p : Nat} {phase other : Acquiring} {t : World}

section

variable {a : Nat} (h : Ok s) (hGet : s.acquisitions[a]? = some phase)
  (hPhase : phase.generation? = some s.generation)
include h hGet hPhase

theorem Ok.eq_of_generation (ho : s.acquisitions[b]? = some other)
    (hs : other.generation? = some s.generation) : a = b := by
  have hf := h.acquires.single hGet hPhase
  rw [h.acquires.single ho hs, Option.some.injEq, Prod.mk.injEq] at hf
  exact hf.1.symm

theorem Ok.none_of_ended (ho : (s.acquisitions.set a .ended)[b]? = some other) :
    other.generation? ≠ some s.generation := by
  intro hs
  rcases getElem?_set_eq_some ho with ⟨-, rfl⟩ | ⟨hn, hb⟩
  · cases hs
  · exact hn (h.eq_of_generation hGet hPhase hb hs)

end

theorem Ok.lend {a : Nat} (h : Ok s) (hc : s.acquisitions[a]? = some (.connecting s.generation))
    (hr : s.running = true) (ha : s.stack = []) :
    Ok { s with
      acquisitions := s.acquisitions.set a (.locking s.sessions.length s.generation)
      lease := some s.sessions.length
      sessions := s.sessions ++
        [{ LeaseSession.checkedOut a s.generation with querying := true, lock := .asked }] } where
  owned := by
    have ho := h.owned
    rw [h.acquires.idle hc] at ho
    refine ho.append_lease ?_ rfl
    refine ⟨?_, ?_, ?_, ?_, ?_⟩
    all_goals simp [LeaseSession.checkedOut]
  alone := h.alone
  acquires := by
    refine ⟨fun _ => hr, ?_, ?_, ?_⟩
    · intro b g phase hGet hPhase
      rcases getElem?_set_eq_some hGet with ⟨-, rfl⟩ | ⟨-, hb⟩
      · exact Nat.le_of_eq (Option.some.inj hPhase).symm
      · exact h.acquires.bounded hb hPhase
    · intro b phase hGet hPhase
      rcases getElem?_set_eq_some hGet with ⟨rfl, -⟩ | ⟨-, hb⟩
      · exact h.acquires.single hc rfl
      · exact h.acquires.single hb hPhase
    · intro b hGet
      rcases getElem?_set_eq_some hGet with ⟨-, hs⟩ | ⟨hn, hb⟩
      · cases hs
      · exact absurd (h.eq_of_generation hc rfl hb rfl) hn
  linked := by
    refine ⟨?_, ?_⟩
    · intro b j g hGet
      rcases getElem?_set_eq_some hGet with ⟨rfl, hs⟩ | ⟨-, hb⟩
      · cases hs
        exact ⟨_, List.getElem?_concat_length, rfl, rfl, rfl⟩
      · obtain ⟨y, he, hY⟩ := h.linked.locking hb
        exact ⟨y, getElem?_append_of_some he, hY⟩
    · intro j x hl hGet
      cases hl
      rw [List.getElem?_concat_length] at hGet
      cases hGet
      rfl
  scheduled := by
    refine ⟨?_, ?_⟩
    · intro ht
      exact absurd rfl ((h.scheduled.retry ht).2.none hc)
    · intro frame hm
      simp only [ha] at hm
      cases hm

theorem Ok.connected {a : Nat} {succeeds : Bool} (h : Ok s)
    (hc : s.acquisitions[a]? = some (.connecting generation)) (hs : s.stack = []) :
    Ok (s.connected a generation succeeds) := by
  have he := h.endAcquisition a
  have hi : ∀ {j}, s.lease = some j → j < s.sessions.length := by
    intro j hle
    obtain ⟨x, hGet, -⟩ := h.owned.live hle
    exact (List.getElem?_eq_some_iff.mp hGet).1
  rw [World.connected]
  split
  · simp only
    split
    · refine ⟨he.owned.append_disposed ?_ (disposed_dispose _ _), h.alone, he.acquires,
        he.linked.append hi, he.scheduled⟩
      exact (sessionOk_checkedOut a generation).dispose (.inr (.inl rfl))
    · next hl =>
      simp only [Bool.or_eq_true, Bool.not_eq_true', decide_eq_true_eq, not_or,
        Bool.not_eq_false, Decidable.not_not] at hl
      obtain ⟨hr, rfl⟩ := hl
      exact h.lend hc hr hs
  · simp only
    split
    · next hu =>
      simp only [Bool.and_eq_true, decide_eq_true_eq] at hu
      obtain ⟨hr, rfl⟩ := hu
      refine he.notify fun _ => .inl ⟨hr, h.acquires.idle hc, ?_⟩
      exact h.none_of_ended hc rfl
    · exact he

theorem Ok.record {a : Nat} (h : Ok s)
    (hc : s.acquisitions[a]? = some (.locking i generation)) (reply : LockReply) :
    Ok ((s.updateSession i reply.record).endAcquisition a) := by
  obtain ⟨x, hs, hd, ha, -⟩ := h.linked.locking hc
  have he := h.endAcquisition a
  refine ⟨?_, h.alone, he.acquires, ⟨?_, ?_⟩, he.scheduled⟩
  · refine h.owned.modify ⟨?_, fun hl => hl, fun _ hh => hh⟩ (fun hle => hle)
      (fun _ _ hl => hl) (fun hf => absurd rfl hf) fun _ => rfl
    intro y hGet hY
    rw [hs] at hGet
    cases hGet
    exact hY.record hd reply
  · intro b j g hGet
    rcases getElem?_set_eq_some hGet with ⟨-, hg⟩ | ⟨hn, hb⟩
    · cases hg
    · obtain ⟨y, ho, hY⟩ := h.linked.locking hb
      refine ⟨y, ?_, hY⟩
      have hp : i ≠ j := by
        rintro rfl
        rw [hs] at ho
        cases ho
        exact hn (ha.symm.trans hY.2.1)
      rw [World.endAcquisition, World.updateSession, List.getElem?_modify, ho]
      simp [hp]
  · intro j y hle hGet
    obtain ⟨z, hb, rfl⟩ := getElem?_modify_eq_some hGet
    have hZ := h.linked.current hle hb
    split
    · exact hZ
    · exact hZ

theorem Ok.gain {a : Nat} (h : Ok s) (hc : Current s i generation)
    (hg : ∀ x, s.sessions[i]? = some x → x.lock = .granted) :
    Ok ((s.updateSession i fun x => { x with held := true }).setState .leader
      (.acquired i a)) := by
  have hh : Ok (s.updateSession i fun x => { x with held := true }) := by
    refine h.updateSession ⟨?_, fun hl => hl, fun _ _ => rfl⟩ ⟨rfl, rfl, rfl⟩
      fun hl => hl
    intro x hGet hX
    exact { hX with held := fun _ => hg x hGet }
  obtain ⟨x, hGet, -⟩ := h.owned.live hc.lease
  have he : IsHeld (s.updateSession i fun x => { x with held := true }).sessions i := by
    refine ⟨{ x with held := true }, ?_, rfl⟩
    rw [World.updateSession, List.getElem?_modify, hGet]
    simp
  rw [World.setState]
  split
  · exact hh.resume (by intro hr; cases hr)
  · refine Ok.notify ⟨?_, h.alone, hh.acquires, hh.linked, hh.scheduled⟩
      (by intro hr; cases hr)
    have ho := hh.owned
    exact ⟨ho.sound, ho.live, ho.owner, ho.apart, ho.unlocking, fun _ => ⟨i, hc.lease, he⟩⟩

theorem Ok.deny (h : Ok s) (hd : ∀ x, s.sessions[i]? = some x → x.lock = .denied) :
    Ok (s.disposeSession i false) := by
  refine h.dispose (.inr fun x hGet => .inr (.inl (hd x hGet))) ?_
  intro hs hl
  obtain ⟨j, hJ, x, hGet, hh⟩ := h.owned.leader hs
  rw [hl, Option.some.injEq] at hJ
  subst hJ
  have hg := (h.owned.sound hGet).held hh
  rw [hd x hGet] at hg
  cases hg

theorem Ok.locked {a : Nat} {reply : LockReply} (h : Ok s)
    (ha : s.acquisitions[a]? = some (.locking i generation)) :
    Ok (s.locked a i generation reply) := by
  obtain ⟨x, hs, hb, -, hg⟩ := h.linked.locking ha
  have hr := h.record ha reply
  have he : ∀ y, ((s.updateSession i reply.record).endAcquisition a).sessions[i]? = some y →
      y.lock = reply.lock := by
    intro y hGet
    obtain ⟨z, -, rfl⟩ := getElem?_modify_eq_some hGet
    rw [if_pos rfl]
    rfl
  unfold World.locked
  simp only
  split
  · next hi =>
    have hc := current_of_isCurrent hi
    have hf := hr.loseLease generation none (i := i)
    cases reply with
    | invalid => exact hf
    | failed => exact hf
    | acquired acquired =>
      cases acquired with
      | true => exact hr.gain hc he
      | false =>
        refine (hr.deny he).scheduleRetry fun _ => ⟨if_pos hc.lease, ?_⟩
        exact h.none_of_ended ha (congrArg some hc.generation.symm)
  · next hi =>
    have ho : s.lease ≠ some i := by
      intro hl
      obtain ⟨y, hGet, hj⟩ := h.owned.live hl
      rw [hs, Option.some.injEq] at hGet
      subst hGet
      refine hi ?_
      have hk := h.linked.current hl hs
      simp [World.isCurrent, World.endAcquisition, World.updateSession, h.acquires.active hl,
        hl, hs, hj, ← hk, hg, LockReply.record]
    have hd := hr.dispose (i := i) (.inl rfl) fun _ => ho
    cases reply with
    | invalid => exact hd
    | failed => exact hr
    | acquired => exact hd

section

variable (h : Ok s)
include h

theorem Ok.heartbeat (generation : Nat) : Ok (s.heartbeat i generation) := by
  rw [World.heartbeat]
  split
  · have hq := h.setQuerying i true
    exact { hq with alone := h.alone }
  · exact h

theorem Ok.beaten (generation : Nat) (succeeds : Bool) : Ok (s.beaten i generation succeeds) := by
  have he : Ok { s with beating := s.beating.erase (i, generation) } := { h with }
  rw [World.beaten]
  split
  · exact he.endBeat (some i)
  · exact he.loseLease generation (some i)

theorem Ok.unlocked {confirmed : Bool} (ht : s.stops[p]? = some (.unlocking i)) :
    Ok (s.unlocked p i confirmed) := by
  rw [World.unlocked]
  split
  · obtain ⟨x, hGet, hh⟩ := h.owned.unlocking ht
    have hc : Ok (s.updateSession i fun x => { x with unlocked := true }) := by
      refine h.updateSession ⟨?_, fun hl => hl, fun _ hh => hh⟩ ⟨rfl, rfl, rfl⟩
        fun hl => hl
      intro y hs hY
      rw [hGet, Option.some.injEq] at hs
      subst hs
      exact ⟨hY.once, hY.kept, hY.held, fun _ => hY.held hh, fun _ => .inr (.inr rfl)⟩
    refine hc.closeLock ht rfl (.inr ?_)
    intro y hs
    obtain ⟨z, -, rfl⟩ := getElem?_modify_eq_some hs
    rw [if_pos rfl]
    exact .inr (.inr rfl)
  · exact h.notify (by intro hr; cases hr)

theorem Ok.finishStop (hs : s.stops[p]? = some .ended) (ht : s.stack = []) :
    Ok (s.finishStop p) where
  __ := h
  owned := by
    refine h.owned.setStop hs ?_ ?_ ?_
    · intro j hn
      cases hn
    · intro j x hn
      cases hn
    · intro j ha
      cases ha
  alone := h.alone.finish p
  scheduled := by
    refine ⟨h.scheduled.retry, ?_⟩
    intro frame hm
    rw [show (s.finishStop p).stack = [] from ht] at hm
    cases hm

theorem Ok.finishAcquire {a : Nat} (he : s.acquisitions[a]? = some .ended) :
    Ok (s.finishAcquire a) where
  __ := h
  acquires := by
    refine ⟨h.acquires.active, h.acquires.bounded, ?_, h.acquires.idle⟩
    intro b phase hGet hPhase
    have hs := h.acquires.single hGet hPhase
    rw [World.finishAcquire, if_neg]
    · exact hs
    · rw [hs]
      intro ha
      obtain rfl : b = a := Option.some.inj ha
      obtain rfl : Acquiring.ended = phase := Option.some.inj (he.symm.trans hGet)
      cases hPhase

theorem Ok.retry (ht : s.retryTimer = true) (hs : s.stack = []) :
    Ok { s with retryTimer := false }.tryAcquire := by
  obtain ⟨-, hq⟩ := h.scheduled.retry ht
  refine Ok.tryAcquire ⟨h.owned, h.alone, h.acquires, h.linked, ?_, h.scheduled.frames⟩
    (fun _ => hq.free) rfl ?_
  · intro hp
    cases hp
  · intro frame hm
    rw [hs] at hm
    cases hm

theorem Ok.event {a : Action} (ha : s.stack = []) (hs : event a s = some t) : Ok t := by
  cases a with simp only [WorkerLease.event, reduceCtorEq] at hs
  | retry =>
    obtain ⟨ht, hw⟩ := Option.ite_none_right_eq_some.mp hs
    cases hw
    exact h.retry ht ha
  | heartbeat =>
    split at hs
    · cases hs
      exact h.heartbeat _
    · cases hs
  | connected =>
    split at hs
    · next hc =>
      cases hs
      exact h.connected hc ha
    · cases hs
  | locked =>
    split at hs
    · next hl =>
      cases hs
      exact h.locked hl
    · cases hs
  | settled =>
    split at hs
    · next he =>
      cases hs
      exact h.finishAcquire he
    · cases hs
  | beaten session generation succeeds =>
    obtain ⟨-, hw⟩ := Option.ite_none_right_eq_some.mp hs
    cases hw
    exact h.beaten generation succeeds
  | connectionError =>
    split at hs
    · cases hs
      exact h.loseLease _ none
    · cases hs
  | unlocked =>
    split at hs
    · next hb =>
      cases hs
      exact h.unlocked hb
    · cases hs
  | stopped =>
    split at hs
    · next hb =>
      cases hs
      exact h.finishStop hb ha
    · cases hs
  | restart =>
    obtain ⟨-, hw⟩ := Option.ite_none_right_eq_some.mp hs
    cases hw
    refine Ok.startNow { h with } ?_
    intro _ frame hm
    rw [ha] at hm
    cases hm

theorem Ok.pop {stack : List Frame} (hs : s.stack = frame :: stack) :
    Ok ({ s with stack := stack }.resume frame) := by
  refine Ok.resume ⟨h.owned, h.alone, h.acquires, h.linked, h.scheduled.retry, ?_⟩ ?_
  · intro other hm hr
    exact h.scheduled.frames (hs ▸ List.mem_cons_of_mem frame hm) hr
  · intro hr
    exact h.scheduled.frames (hs ▸ List.mem_cons_self) hr

end

theorem Ok.step {a : Action} (h : Ok s) (hs : step a s = some t) : Ok t := by
  cases a with
  | start =>
    cases hs
    exact h.startCall
  | stop =>
    cases hs
    exact h.stop
  | resume =>
    simp only [WorkerLease.step] at hs
    split at hs
    · next ht =>
      cases hs
      exact h.pop ht
    · cases hs
  | _ =>
    simp only [WorkerLease.step] at hs
    split at hs
    · next ht => exact h.event ht hs
    · cases hs

theorem Ok.of_run {acts : List Action} (hr : run WorkerLease.step acts World.start = some s) :
    Ok s :=
  run_invariant Ok (fun _ _ _ h _ hs => h.step hs) Ok.start (along_anyAction acts _) hr

theorem Ok.released (h : Ok s) {x : LeaseSession} (hGet : s.sessions[i]? = some x) :
    x.released.length = 1 ∨ x.released = [] ∧ (s.lease = some i ∨ Releases s.stops i) := by
  have hX := h.owned.sound hGet
  cases hd : x.disposed with
  | true => exact .inl (hX.once hd)
  | false => exact .inr ⟨hX.kept hd, h.owned.owner hGet hd⟩

theorem Ok.releases_unique (h : Ok s) {j : Nat} (hI : Releases s.stops i)
    (hJ : Releases s.stops j) : i = j := by
  obtain ⟨p, phase, ht, he⟩ := hI
  obtain ⟨q, other, ho, hs⟩ := hJ
  have hu := h.alone p i phase ht he
  rw [h.alone q j other ho hs, Option.some.injEq] at hu
  subst hu
  rw [ht, Option.some.injEq] at ho
  subst ho
  rw [he, Option.some.injEq] at hs
  exact hs

theorem Ok.leader (h : Ok s) (ht : s.state = .leader) : ∃ i x, s.lease = some i ∧
    s.sessions[i]? = some x ∧ x.lock = .granted ∧ x.disposed = false := by
  obtain ⟨i, hl, x, hGet, hh⟩ := h.owned.leader ht
  obtain ⟨y, hs, hi⟩ := h.owned.live hl
  rw [hGet, Option.some.injEq] at hs
  subst hs
  exact ⟨i, x, hl, hGet, (h.owned.sound hGet).held hh, hi⟩

/-- At every point of every run, also while callbacks are running: each client was released once, or
is the lease or the one that the `stop` under way has to release; the lease is the only session not
released that does not belong to a `stop`; the leader's session was granted the lock and not
disposed; and a session that may have the lock goes back undestroyed only after its unlock has
returned true. -/
theorem lease_safe {acts : List Action} (hRun : run step acts World.start = some s) :
    (∀ (i : Nat) (x : LeaseSession), s.sessions[i]? = some x →
      x.released.length = 1 ∨ x.released = [] ∧ (s.lease = some i ∨ Releases s.stops i)) ∧
    (∀ i j, Releases s.stops i → Releases s.stops j → i = j) ∧
    (∀ (i j : Nat) (x y : LeaseSession), s.sessions[i]? = some x → s.sessions[j]? = some y →
      x.released = [] → y.released = [] → ¬Releases s.stops i → ¬Releases s.stops j → i = j) ∧
    (s.state = .leader → ∃ i x, s.lease = some i ∧ s.sessions[i]? = some x ∧ x.lock = .granted ∧
      x.disposed = false) ∧
    ∀ (i : Nat) (x : LeaseSession), s.sessions[i]? = some x → false ∈ x.released →
      x.lock ≠ .idle → x.lock ≠ .denied → x.unlocked = true := by
  have ho := Ok.of_run hRun
  have hle : ∀ {i : Nat} {x : LeaseSession}, s.sessions[i]? = some x → x.released = [] →
      ¬Releases s.stops i → s.lease = some i := by
    intro i x hGet hn hf
    rcases ho.released hGet with ha | ⟨-, hc | ht⟩
    · rw [hn] at ha
      cases ha
    · exact hc
    · exact absurd ht hf
  refine ⟨fun i x hGet => ho.released hGet, fun i j => ho.releases_unique, ?_, ho.leader, ?_⟩
  · intro i j x y hI hJ hX hY hf hb
    have hs := hle hI hX hf
    rw [hle hJ hY hb, Option.some.injEq] at hs
    exact hs.symm
  · intro i x hGet hr hi hd
    rcases (ho.owned.sound hGet).safe hr with hl | hl | hu
    · exact absurd hl hi
    · exact absurd hl hd
    · exact hu

def restartInCallback : List Action :=
  [.start, .connected 0 true, .locked 0 (.acquired true), .stop, .start, .resume, .resume,
    .unlocked 0 true, .resume, .stopped 0, .settled 0, .restart 0, .connected 1 true]

def restarted : World where
  running := true
  generation := 3
  lease := some 1
  acquisition := some (1, 3)
  stopping := none
  state := .standby
  retryTimer := false
  heartbeatTimer := none
  sessions := [⟨0, 1, true, true, true, .granted, true, [false]⟩,
    ⟨1, 3, false, true, false, .asked, false, []⟩]
  acquisitions := [.ended, .locking 1 3]
  stops := [.finished]
  waiting := []
  beating := []
  stack := []

theorem run_restartInCallback : run step restartInCallback World.start = some restarted := by
  decide +kernel

theorem lease_safe_restarted : restarted.sessions.map LeaseSession.released = [[false], []] ∧
      (restarted.sessions[0]?).map LeaseSession.unlocked = some true ∧
      ∀ (i : Nat) (x : LeaseSession), restarted.sessions[i]? = some x → x.released.length = 1 ∨
          x.released = [] ∧ (restarted.lease = some i ∨ Releases restarted.stops i) :=
  ⟨rfl, rfl, (lease_safe run_restartInCallback).1⟩

end Credence.WorkerLease
