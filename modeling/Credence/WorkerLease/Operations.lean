import Credence.WorkerLease.Invariant

/-! The functions of `WorkerLeaseManager` that replies, timers and calls share keep the invariant.
-/

namespace Credence.WorkerLease

open ProofKit

variable {s : World} {i : Nat} {f : LeaseSession → LeaseSession} {frame : Frame}

theorem Ok.updateSession (h : Ok s) (hs : Sound s.sessions i f) (ht : Steady f)
    (hd : ∀ {x}, x.disposed = false → (f x).disposed = false) :
    Ok (s.updateSession i f) where
  __ := h
  owned := h.owned.modify hs (fun hl => hl) (fun _ => hd)
    (fun ha => absurd rfl ha) fun _ => rfl
  linked := h.linked.modify ht fun hl => hl

theorem Ok.setQuerying (h : Ok s) (i : Nat) (querying : Bool) :
    Ok (s.updateSession i fun x => { x with querying := querying }) := by
  refine h.updateSession ⟨?_, ?_, ?_⟩ ⟨rfl, rfl, rfl⟩ ?_
  · intro x _ hX
    exact { hX with }
  · intro x hd
    exact hd
  · intro x hh
    exact hh
  · intro x hd
    exact hd

theorem lease_disposeSession (i : Nat) (destroy : Bool) :
    (s.disposeSession i destroy).lease = if s.lease = some i then none else s.lease := rfl

variable {destroy : Bool} {p : Nat} {phase : Stopping}

theorem Ok.dispose (h : Ok s) (hs : destroy = true ∨ Returnable s.sessions i)
    (hle : s.state = .leader → s.lease ≠ some i) : Ok (s.disposeSession i destroy) := by
  have hl : ∀ {j}, (if s.lease = some i then none else s.lease) = some j → s.lease = some j := by
    intro j ha
    split at ha
    · cases ha
    · exact ha
  refine ⟨?_, h.alone, h.acquires.mono hl, h.linked.modify (steady_dispose destroy) hl,
    h.scheduled.imp fun hq => ⟨no_lease hq.free hl, hq.none⟩⟩
  refine h.owned.modify ⟨?_, ?_, ?_⟩ hl ?_ ?_ ?_
  · intro x hg hX
    exact hX.dispose (hs.imp_right fun hr => hr x hg)
  · intro x hd
    rw [disposed_dispose] at hd
    cases hd
  · intro x hh
    rw [held_dispose, hh]
  · intro ha
    rw [lease_disposeSession] at ha
    split at ha
    · cases ha
    · next ho => exact absurd ha ho
  · intro hb
    rw [lease_disposeSession] at hb
    split at hb
    · next hc => exact ⟨hc, disposed_dispose destroy _⟩
    · exact absurd rfl hb
  · intro ht
    exact if_neg (hle ht)

def Retries (s : World) : Prop := (s.running = true ∧ Quiet s.generation s.lease s.acquisitions) ∨
    (s.running = false ∧ s.stopping.isSome = true)

theorem Ok.notify (h : Ok s) (hf : frame.retries = true → Retries s) : Ok (s.notify frame) where
  __ := h
  scheduled := by
    refine ⟨h.scheduled.retry, ?_⟩
    intro other hm hr
    rcases List.mem_cons.mp hm with rfl | hb
    · exact hf hr
    · exact h.scheduled.frames hb hr

theorem Ok.clearTimers (h : Ok s) : Ok s.clearTimers where
  __ := h
  scheduled := by
    refine ⟨?_, h.scheduled.frames⟩
    intro ht
    cases ht

theorem Ok.scheduleRetry (h : Ok s)
    (hq : s.running = true → Quiet s.generation s.lease s.acquisitions) :
    Ok s.scheduleRetry := by
  rw [World.scheduleRetry]
  split
  · next hr =>
    exact ⟨h.owned, h.alone, h.acquires, h.linked, fun _ => ⟨hr, hq hr⟩, h.scheduled.frames⟩
  · exact h

theorem Ok.endAcquisition (h : Ok s) (a : Nat) : Ok (s.endAcquisition a) where
  __ := h
  acquires := h.acquires.fewer (fewer_set s.acquisitions a)
  linked := h.linked.fewer (fewer_set s.acquisitions a)
  scheduled := h.scheduled.imp fun hq => ⟨hq.free, fun hg hp =>
    hq.none ((fewer_set s.acquisitions a).before hg hp) hp⟩

theorem Ok.endBeat (h : Ok s) (beating : Option Nat) : Ok (s.endBeat beating) := by
  cases beating with
  | none => exact h
  | some session => exact h.setQuerying session false

theorem Ok.endStop (h : Ok s) (hs : s.stops[p]? = some phase)
    (hd : ∀ {j x}, phase.session? = some j → s.sessions[j]? = some x → x.disposed = true) :
    Ok (s.setStop p .ended) where
  __ := h
  owned := by
    refine h.owned.setStop hs ?_ ?_ ?_
    · intro j hn
      cases hn
    · intro j x he hg hl
      rw [hd he hg] at hl
      cases hl
    · intro j ha
      cases ha
  alone := by
    refine h.alone.set hs ?_
    intro j hn
    cases hn

theorem Ok.closeLock (h : Ok s) (hs : s.stops[p]? = some phase)
    (hb : phase.session? = some i) (hf : destroy = true ∨ Returnable s.sessions i) :
    Ok (s.closeLock p i destroy) := by
  have ha := (h.owned.apart ⟨p, phase, hs, hb⟩).1
  have hd := h.dispose hf fun _ => ha
  have he : Ok ((s.disposeSession i destroy).setStop p .ended) := by
    refine hd.endStop hs ?_
    intro j x hc hg
    rw [hb, Option.some.injEq] at hc
    subst hc
    obtain ⟨y, -, rfl⟩ := getElem?_modify_eq_some hg
    rw [if_pos rfl, disposed_dispose]
  rw [World.closeLock]
  split
  · exact he.notify (by intro hr; cases hr)
  · exact he

theorem Ok.releaseLock (h : Ok s) (p : Nat) : Ok (s.releaseLock p) := by
  unfold World.releaseLock
  split
  · next session ht =>
    split
    · next hd =>
      refine h.endStop ht ?_
      intro j x hs hg
      cases hs
      simpa [hg] using hd
    · split
      · next hf =>
        have hh : IsHeld s.sessions session := by
          cases hg : s.sessions[session]? with
          | none => simp [hg] at hf
          | some x =>
            rw [hg, Option.any_some, Bool.and_eq_true] at hf
            exact ⟨x, hg, hf.1⟩
        have hq := h.setQuerying session true
        refine ⟨?_, h.alone.set ht fun hs => hs, hq.acquires, hq.linked, hq.scheduled⟩
        refine hq.owned.setStop ht ?_ ?_ ?_
        · intro j hs
          exact hs
        · intro j x hs _ _
          exact hs
        · intro j ha
          cases ha
          exact hh.modify fun x hX => hX
      · exact h.closeLock ht rfl (.inl rfl)
  · next ht =>
    refine h.endStop ht ?_
    intro j x hs
    cases hs
  · exact h

theorem Ok.resume (h : Ok s) (hf : frame.retries = true → Retries s) : Ok (s.resume frame) := by
  have hq : frame.retries = true → s.running = true →
      Quiet s.generation s.lease s.acquisitions := by
    intro hr hu
    rcases hf hr with ⟨-, hq⟩ | ⟨hs, -⟩
    · exact hq
    · rw [hu] at hs
      cases hs
  cases frame with
  | acquired =>
    rw [World.resume]
    split
    · exact h.notify (by intro hr; cases hr)
    · exact h
  | announced =>
    rw [World.resume]
    split
    · exact { h with scheduled := h.clearTimers.scheduled }
    · exact h
  | lost =>
    rw [World.resume]
    split
    · exact h.notify hf
    · exact h.notify hf
  | lostReleased => exact h.notify hf
  | lostReported beating => exact (h.scheduleRetry (hq rfl)).endBeat beating
  | connectFailed => exact h.scheduleRetry (hq rfl)
  | stopped stop => exact h.releaseLock stop
  | unlockFailed =>
    rw [World.resume]
    split
    · next ht => exact h.closeLock ht rfl (.inl rfl)
    · exact h
  | released => exact h

theorem Ok.setStandby (h : Ok { s with state := .standby })
    (hf : frame.retries = true → Retries s) : Ok (s.setState .standby frame) := by
  rw [World.setState]
  split
  · next hs =>
    rw [← hs] at h
    exact h.resume hf
  · exact h.notify hf

theorem Ok.bump (h : Ok s) (hf : s.lease = none) :
    Ok { s with generation := s.generation + 1, retryTimer := false, heartbeatTimer := none } ∧
      Quiet (s.generation + 1) s.lease s.acquisitions := by
  have hn : ∀ {a : Nat} {phase : Acquiring}, s.acquisitions[a]? = some phase →
      phase.generation? ≠ some (s.generation + 1) := by
    intro a phase hg hp
    have := h.acquires.bounded hg hp
    omega
  have hq : Quiet (s.generation + 1) s.lease s.acquisitions := ⟨hf, hn⟩
  refine ⟨⟨h.owned, h.alone, ⟨h.acquires.active, ?_, ?_, ?_⟩, ⟨h.linked.locking, ?_⟩, ?_, ?_⟩, hq⟩
  · intro a g phase hg hp
    have := h.acquires.bounded hg hp
    simp only
    omega
  · intro a phase hg hp
    exact absurd hp (hn hg)
  · intro a hg
    exact absurd rfl (hn hg)
  · intro i x hl
    rw [hf] at hl
    cases hl
  · intro ht
    cases ht
  · intro frame hm hr
    exact (h.scheduled.frames hm hr).imp_left fun hu => ⟨hu.1, hq⟩

structure Current (s : World) (i generation : Nat) : Prop where
  running : s.running = true
  generation : s.generation = generation
  lease : s.lease = some i

theorem current_of_isCurrent {generation : Nat} (h : s.isCurrent i generation = true) :
    Current s i generation := by
  simp only [World.isCurrent, Bool.and_eq_true, decide_eq_true_eq] at h
  exact ⟨h.1.1.1, h.1.1.2, h.1.2⟩

theorem Ok.loseLease (h : Ok s) (generation : Nat) (beating : Option Nat) :
    Ok (s.loseLease i generation beating) := by
  rw [World.loseLease]
  split
  · next hi =>
    have hc := current_of_isCurrent hi
    have ht : Ok { s with state := .standby } :=
      ⟨⟨h.owned.sound, h.owned.live, h.owned.owner, h.owned.apart, h.owned.unlocking,
        by intro hs; cases hs⟩, h.alone, h.acquires, h.linked, h.scheduled⟩
    have hd := ht.dispose (i := i) (.inl rfl) (by intro hs; cases hs)
    obtain ⟨hb, hq⟩ := hd.bump (if_pos hc.lease)
    exact hb.setStandby fun _ => .inl ⟨hc.running, hq⟩
  · exact h.endBeat beating

theorem Ok.stop (h : Ok s) : Ok s.stop := by
  rw [World.stop]
  split
  · exact h
  · next hc =>
    have hn : s.stopping = none := by
      rw [Bool.or_eq_true, not_or, Option.not_isSome_iff_eq_none] at hc
      exact hc.1
    have hf : Ok { s with
        lease := none, running := false, state := .standby
        stops := s.stops ++ [Stopping.releasing s.lease], stopping := some s.stops.length
        retryTimer := false } := by
      refine ⟨h.owned.handOver, Alone.concat (hn ▸ h.alone) _,
        ⟨?_, h.acquires.bounded, h.acquires.single, fun _ => rfl⟩, ⟨h.linked.locking, ?_⟩, ?_,
        fun _ _ => .inr ⟨rfl, rfl⟩⟩
      · intro i hl
        cases hl
      · intro i x hl
        cases hl
      · intro ht
        cases ht
    exact (hf.bump rfl).1.setStandby (by intro hr; cases hr)

theorem Ok.tryAcquire (h : Ok s) (hf : s.running = true → s.lease = none)
    (ht : s.retryTimer = false) (ha : ∀ frame ∈ s.stack, frame.retries = false) :
    Ok s.tryAcquire := by
  rw [World.tryAcquire]
  split
  · exact h
  · next hu =>
    have hl : s.lease = none := hf (by simpa using hu)
    split
    · exact h
    · next ho =>
      have hn : ∀ {a : Nat} {phase : Acquiring}, s.acquisitions[a]? = some phase →
          phase.generation? ≠ some s.generation := by
        intro a phase hg hp
        rw [h.acquires.single hg hp] at ho
        exact ho rfl
      refine ⟨h.owned, h.alone, ⟨h.acquires.active, ?_, ?_, fun _ => hl⟩,
        ⟨?_, h.linked.current⟩, ?_, ?_⟩
      · intro a g phase hg hp
        rcases getElem?_concat_eq_some_iff.mp hg with hb | ⟨-, rfl⟩
        · exact h.acquires.bounded hb hp
        · exact Nat.le_of_eq (Option.some.inj hp).symm
      · intro a phase hg hp
        rcases getElem?_concat_eq_some_iff.mp hg with hb | ⟨hc, rfl⟩
        · exact absurd hp (hn hb)
        · rw [hc]
      · intro a i g hg
        rcases getElem?_concat_eq_some_iff.mp hg with hb | ⟨-, hs⟩
        · exact h.linked.locking hb
        · cases hs
      · intro he
        rw [ht] at he
        cases he
      · intro frame hm hr
        rw [ha frame hm] at hr
        cases hr

theorem Ok.startNow (h : Ok s)
    (ha : s.running = false → ∀ frame ∈ s.stack, frame.retries = false) : Ok s.startNow := by
  rw [World.startNow]
  split
  · exact h
  · next hr =>
    rw [Bool.not_eq_true] at hr
    have hf : s.lease = none := by
      rw [Option.eq_none_iff_forall_ne_some]
      intro i hl
      rw [h.acquires.active hl] at hr
      cases hr
    have ht : s.retryTimer = false := by
      rw [← Bool.not_eq_true]
      intro ht
      rw [(h.scheduled.retry ht).1] at hr
      cases hr
    obtain ⟨hb, hq⟩ := h.bump hf
    refine Ok.tryAcquire ⟨hb.owned, hb.alone, ?_, hb.linked, ?_, ?_⟩ (fun _ => hf)
      ht (ha hr)
    · exact ⟨fun _ => rfl, hb.acquires.bounded, hb.acquires.single, hb.acquires.idle⟩
    · intro _
      exact ⟨rfl, hq⟩
    · intro frame _ _
      exact .inl ⟨rfl, hq⟩

theorem Ok.startCall (h : Ok s) : Ok s.startCall := by
  rw [World.startCall]
  split
  · exact { h with }
  · next ht =>
    refine h.startNow ?_
    intro hr frame hm
    rw [← Bool.not_eq_true]
    intro he
    rcases h.scheduled.frames hm he with ⟨ha, -⟩ | ⟨-, hs⟩
    · rw [hr] at ha
      cases ha
    · rw [ht] at hs
      cases hs

end Credence.WorkerLease
