import Credence.Notifications.Idempotency
import Mathlib.Data.List.Nodup

/-! One job key is run by one worker at a time. The calls that hold an older attempt than the row
are those whose time was over when it was taken over. -/

namespace Credence.Notifications

open Js ProofKit List Option

section

variable {T : Type}

def Phase.attempt? : Phase T → Option IdempotentJobAttempt
  | .finding | .reclaiming | .findingAgain => none
  | .running attempt | .marking attempt _ => some attempt

def World.Holds (s : World T) (call : Nat) (attempt : IdempotentJobAttempt) : Prop :=
  ∃ phase, Map.get call s.calls = some phase ∧ phase.attempt? = some attempt

def Job.Overdue (job : Job) (attempt : IdempotentJobAttempt) (now : Int) : Prop :=
  attempt.attemptedAt + job.claimTimeout ≤ now ∨ attempt.attemptedAt + job.expiresIn ≤ now

variable {attempt held row : IdempotentJobAttempt} {now : Int} {id : String} {crashes : Bool}
  {other : Nat} {acts : List (Action T)}

theorem Job.Overdue.mono {job : Job} {later : Int} (h : job.Overdue attempt now)
    (hn : now ≤ later) : job.Overdue attempt later := by
  rcases h with h | h
  · exact .inl (by omega)
  · exact .inr (by omega)

/-- A call that holds an attempt holds the last one, or one that is overdue. -/
structure Ok (job : Job) (codec : Codec T) (s : World T) : Prop where
  last : s.row.map IdempotentJobAttempt.id = s.starts.getLast?.map (·.2.id)
  fresh : (s.starts.map (·.2.id)).Nodup
  inserted : ∀ entry ∈ s.starts, entry.2 = job.inserted entry.2.id entry.2.attemptedAt
  started : ∀ {call attempt}, s.Holds call attempt → (call, attempt) ∈ s.starts
  current : ∀ {call attempt}, s.Holds call attempt →
    s.row = some attempt ∨ job.Overdue attempt s.now
  encoded : ∀ {call attempt value text},
    Map.get call s.calls = some (.marking attempt (.completed value text)) →
    codec.stringify value = .ok text

variable {job : Job} {codec : Codec T} {s t : World T} {a : Action T} {call : Nat}

def Mark.status : Mark T → Status
  | .completed _ _ => .completed
  | .failed _ => .failed

def Mark.result : Mark T → Option String
  | .completed _ text => text
  | .failed error => some error.message

def Mark.outcome (attempt : IdempotentJobAttempt) : Mark T → Outcome T
  | .completed value _ => .processed value attempt
  | .failed error => .threw error

inductive ReadOutcome (codec : Codec T) (now : Int) (row : Option IdempotentJobAttempt) :
    Outcome T → Prop
  | duplicate : ReadOutcome codec now row .duplicate
  | processed (attempt : IdempotentJobAttempt) (hFound : findAttempt now row = some attempt)
      (hStatus : attempt.status = .completed) : ReadOutcome codec now row
        (.alreadyProcessed (codec.parseStoredResult attempt.result) attempt)

inductive Turn (job : Job) (codec : Codec T) (a : Action T) (s t : World T) : Prop
  | quiet (hRow : t.row = s.row) (hStarts : t.starts = s.starts) (hNow : s.now ≤ t.now)
      (hHolds : ∀ {call attempt}, t.Holds call attempt → s.Holds call attempt)
      (hMarking : ∀ {call attempt value text},
        Map.get call t.calls = some (.marking attempt (.completed value text)) →
        Map.get call s.calls = some (.marking attempt (.completed value text)) ∨
          codec.stringify value = .ok text)
      (hCompletions : t.completions = s.completions ∨
        ∃ outcome, t.completions = s.completions ++ [⟨a.caller, t.now, none, outcome⟩] ∧
          ReadOutcome codec t.now s.row outcome)
  | claim (id : String) (now : Int) (hNow : s.now ≤ now) (hFresh : id ∉ s.starts.map (·.2.id))
      (hFree : ∀ attempt, ¬ s.Holds a.caller attempt)
      (hReclaimable : s.row.all (job.isReclaimable now) = true)
      (hWorld : t = { s with
        row := some (job.inserted id now), now := now
        calls := Map.set a.caller (.running (job.inserted id now)) s.calls
        starts := s.starts ++ [(a.caller, job.inserted id now)] })
  | mark (attempt : IdempotentJobAttempt) (mark : Mark T)
      (hMarking : Map.get a.caller s.calls = some (.marking attempt mark)) (hNow : s.now ≤ t.now)
      (hRow : t.row = markAttempt mark.status attempt.id mark.result t.now s.row)
      (hStarts : t.starts = s.starts) (hCalls : t.calls = Map.delete a.caller s.calls)
      (hCompletions : t.completions = s.completions ∨ t.completions =
          s.completions ++ [⟨a.caller, t.now, some attempt, mark.outcome attempt⟩])

theorem Turn.now_le (h : Turn job codec a s t) : s.now ≤ t.now := by
  cases h with
  | quiet hr hs hn => exact hn
  | claim id now hn hf ha he hw =>
    subst hw
    exact hn
  | mark attempt mark hm hn => exact hn

theorem Turn.go {phase : Phase T} (hp : phase.attempt? = none)
    (hc : t.calls = Map.set call phase s.calls) (hr : t.row = s.row)
    (hs : t.starts = s.starts) (hn : s.now ≤ t.now)
    (hd : t.completions = s.completions) : Turn job codec a s t := by
  refine .quiet hr hs hn ?_ ?_ (.inl hd)
  · rintro other attempt ⟨otherPhase, hg, ha⟩
    rw [hc] at hg
    rcases Map.get_of_set hg with ⟨-, rfl⟩ | hb
    · rw [hp] at ha
      cases ha
    · exact ⟨otherPhase, hb, ha⟩
  · intro other attempt value text hg
    rw [hc] at hg
    rcases Map.get_of_set hg with ⟨-, rfl⟩ | hb
    · cases hp
    · exact .inl hb

theorem holds_of_delete (hc : t.calls = Map.delete call s.calls) (h : t.Holds other held) :
    call ≠ other ∧ s.Holds other held := by
  obtain ⟨phase, hg, ha⟩ := h
  rw [hc] at hg
  obtain ⟨hn, hb⟩ := Map.get_of_delete hg
  exact ⟨hn, phase, hb, ha⟩

theorem Turn.delete (hc : t.calls = Map.delete call s.calls) (hr : t.row = s.row)
    (hs : t.starts = s.starts) (hn : s.now ≤ t.now)
    (ha : t.completions = s.completions ∨
      ∃ outcome, t.completions = s.completions ++ [⟨a.caller, t.now, none, outcome⟩] ∧
        ReadOutcome codec t.now s.row outcome) : Turn job codec a s t := by
  refine .quiet hr hs hn (fun hh => (holds_of_delete hc hh).2) ?_ ha
  intro other attempt value text hg
  rw [hc] at hg
  exact .inl (Map.get_of_delete hg).2

theorem claim_turn {otherwise : Phase T} (hn : s.now ≤ now) (hf : id ∉ s.starts.map (·.2.id))
    (ha : ∀ attempt, ¬ s.Holds call attempt) (hp : otherwise.attempt? = none) :
    Turn job codec (.claim call now id) s ({ s with now := now }.claim call job id otherwise) := by
  rw [World.claim, Job.claimAttempt]
  split
  · next attempt hc =>
    rw [ite_none_right_eq_some, Option.some.injEq] at hc
    obtain ⟨hr, rfl⟩ := hc
    exact .claim id now hn hf ha hr rfl
  · exact .go hp rfl rfl rfl hn rfl

theorem find_turn {again : Bool} (hn : s.now ≤ now) :
    Turn job codec (.find call now) s ({ s with now := now }.find call codec again) := by
  have hd : Turn job codec (.find call now) s
      ({ s with now := now }.finish call none .duplicate) :=
    .delete rfl rfl rfl hn (.inr ⟨_, rfl, .duplicate⟩)
  have ha : Turn job codec (.find call now) s
      (if again then { s with now := now }.finish call none .duplicate
        else { s with now := now }.go call .reclaiming) := by
    split
    · exact hd
    · exact .go rfl rfl rfl rfl hn rfl
  rw [World.find]
  split
  · next attempt hf =>
    split
    · next hs =>
      exact .delete rfl rfl rfl hn (.inr ⟨_, rfl, .processed attempt hf hs⟩)
    · exact hd
    · exact ha
  · exact ha

theorem stringify_markOf {result : Except JobError T} {value : T} {text : Option String}
    (h : World.markOf codec result = .completed value text) : codec.stringify value = .ok text := by
  cases result with
  | error => cases h
  | ok value =>
    cases ht : codec.stringify value with
    | error => simp [World.markOf, ht] at h
    | ok =>
      simp only [World.markOf, ht] at h
      cases h
      exact ht

theorem settle_turn {result : Except JobError T}
    (hr : Map.get call s.calls = some (.running attempt)) :
    Turn job codec (.settle call result) s
      (s.go call (.marking attempt (World.markOf codec result))) := by
  refine .quiet rfl rfl (Int.le_refl _) ?_ ?_ (.inl rfl)
  · rintro other held ⟨phase, hg, ha⟩
    rcases Map.get_of_set hg with ⟨rfl, rfl⟩ | hb
    · exact ⟨_, hr, ha⟩
    · exact ⟨phase, hb, ha⟩
  · intro other held value text hg
    rcases Map.get_of_set hg with ⟨-, hp⟩ | hb
    · rw [Phase.marking.injEq] at hp
      exact .inr (stringify_markOf hp.2)
    · exact .inl hb

theorem step_turn (h : step job codec a s = some t) : Turn job codec a s t := by
  cases a with simp only [step] at h
  | claim =>
    obtain ⟨⟨hn, hf⟩, hs⟩ := ite_none_right_eq_some.mp h
    split at hs
    · next ha =>
      cases hs
      refine claim_turn hn hf ?_ rfl
      rintro attempt ⟨phase, hg, -⟩
      rw [ha] at hg
      cases hg
    · next ha =>
      cases hs
      refine claim_turn hn hf ?_ rfl
      rintro attempt ⟨phase, hg, ht⟩
      rw [ha] at hg
      cases hg
      cases ht
    · cases hs
  | find =>
    obtain ⟨hn, hs⟩ := ite_none_right_eq_some.mp h
    split at hs
    · cases hs
      exact find_turn hn
    · cases hs
      exact find_turn hn
    · cases hs
  | settle =>
    split at h
    · next hr =>
      cases h
      exact settle_turn hr
    · cases h
  | mark call now crashes =>
    obtain ⟨hn, hs⟩ := ite_none_right_eq_some.mp h
    split at hs
    · next attempt mark hm =>
      cases hs
      cases crashes with
      | false => cases mark <;> exact .mark attempt _ hm hn rfl rfl rfl (.inr rfl)
      | true => cases mark <;> exact .mark attempt _ hm hn rfl rfl rfl (.inl rfl)
    · cases hs
  | crash =>
    cases h
    exact .delete rfl rfl rfl (Int.le_refl _) (.inl rfl)

theorem overdue_of_isReclaimable (hi : attempt = job.inserted attempt.id attempt.attemptedAt)
    (h : job.isReclaimable now attempt = true) : job.Overdue attempt now := by
  have hs : attempt.status = .pending := by rw [hi]; rfl
  have he : attempt.expiresAt = attempt.attemptedAt + job.expiresIn := by
    rw [hi]
    rfl
  simp only [Job.isReclaimable, hs, he, Bool.or_eq_true, Bool.and_eq_true,
    decide_eq_true_eq, reduceCtorEq, true_and, false_or] at h
  rcases h with hex | ht
  · exact .inr hex
  · exact .inl (by omega)

theorem id_markAttempt (status : Status) (id : String) (result : Option String) (now : Int)
    (row : Option IdempotentJobAttempt) :
    (markAttempt status id result now row).map IdempotentJobAttempt.id =
      row.map IdempotentJobAttempt.id := by
  cases row with
  | none => rfl
  | some =>
    simp only [markAttempt, map_some, Option.some.injEq]
    split
    · rfl
    · rfl

theorem markAttempt_of_ne {status : Status} {result : Option String} (h : attempt.id ≠ id) :
    markAttempt status id result now (some attempt) = some attempt := by
  rw [markAttempt, map_some, if_neg h]

theorem Ok.eq_of_id (h : Ok job codec s) (hc : s.Holds call attempt)
    (ho : s.Holds other held) (hi : attempt.id = held.id) : call = other := by
  have hs := inj_on_of_nodup_map h.fresh (h.started hc) (h.started ho) hi
  exact congrArg Prod.fst hs

theorem Ok.claim (h : Ok job codec s) (hn : s.now ≤ now) (hf : id ∉ s.starts.map (·.2.id))
    (hr : s.row.all (job.isReclaimable now) = true) :
    Ok job codec { s with
      row := some (job.inserted id now), now := now
      calls := Map.set call (.running (job.inserted id now)) s.calls
      starts := s.starts ++ [(call, job.inserted id now)] } where
  last := by
    rw [getLast?_concat]
    rfl
  fresh := by
    rw [map_append]
    exact List.Nodup.append h.fresh (nodup_singleton _) (disjoint_singleton.mpr hf)
  inserted := by
    intro entry hm
    rcases mem_append.mp hm with ho | hne
    · exact h.inserted entry ho
    · rw [mem_singleton.mp hne]
      rfl
  started := by
    rintro other attempt ⟨phase, hg, ha⟩
    rcases Map.get_of_set hg with ⟨rfl, rfl⟩ | hb
    · cases ha
      exact mem_append_right _ mem_cons_self
    · exact mem_append_left _ (h.started ⟨phase, hb, ha⟩)
  current := by
    rintro other attempt ⟨phase, hg, ha⟩
    rcases Map.get_of_set hg with ⟨rfl, rfl⟩ | hb
    · cases ha
      exact .inl rfl
    · have hh : s.Holds other attempt := ⟨phase, hb, ha⟩
      rcases h.current hh with hc | hv
      · rw [hc] at hr
        exact .inr (overdue_of_isReclaimable (h.inserted _ (h.started hh)) hr)
      · exact .inr (hv.mono hn)
  encoded := by
    intro other attempt value text hg
    rcases Map.get_of_set hg with ⟨-, hp⟩ | hb
    · cases hp
    · exact h.encoded hb

theorem Ok.keep (h : Ok job codec s)
    (hi : t.row.map IdempotentJobAttempt.id = s.row.map IdempotentJobAttempt.id)
    (hs : t.starts = s.starts) (hn : s.now ≤ t.now)
    (ha : ∀ {call attempt}, t.Holds call attempt →
      s.Holds call attempt ∧ (s.row = some attempt → t.row = some attempt))
    (hm : ∀ {call attempt value text},
      Map.get call t.calls = some (.marking attempt (.completed value text)) →
      Map.get call s.calls = some (.marking attempt (.completed value text)) ∨
        codec.stringify value = .ok text) : Ok job codec t where
  last := by
    rw [hi, hs]
    exact h.last
  fresh := hs ▸ h.fresh
  inserted := hs ▸ h.inserted
  started := fun hh => hs ▸ h.started (ha hh).1
  current := by
    intro call attempt hh
    obtain ⟨hb, hr⟩ := ha hh
    exact (h.current hb).imp hr fun ho => ho.mono hn
  encoded := fun hg => (hm hg).elim h.encoded fun ht => ht

theorem Ok.turn (h : Ok job codec s) (ht : Turn job codec a s t) : Ok job codec t := by
  cases ht with
  | quiet hr hs hn ha hm =>
    exact h.keep (by rw [hr]) hs hn
      (fun hh => ⟨ha hh, fun hc => hr.trans hc⟩) hm
  | claim id now hn hf hd he hw =>
    subst hw
    exact h.claim hn hf he
  | mark attempt mark hm hn hr hs hj =>
    refine h.keep (by rw [hr, id_markAttempt]) hs hn (fun hh => ?_) fun hg => ?_
    · obtain ⟨hNe, hb⟩ := holds_of_delete hj hh
      refine ⟨hb, fun hc => ?_⟩
      rw [hr, hc]
      exact markAttempt_of_ne fun hi => hNe (h.eq_of_id hb ⟨_, hm, rfl⟩ hi).symm
    · rw [hj] at hg
      exact .inl (Map.get_of_delete hg).2

def World.start (now : Int) : World T := ⟨none, now, [], [], []⟩

theorem Ok.start (now : Int) : Ok job codec (World.start now) where
  last := rfl
  fresh := nodup_nil
  inserted := by rintro entry ⟨⟩
  started := by rintro call attempt ⟨phase, ⟨⟩, -⟩
  current := by rintro call attempt ⟨phase, ⟨⟩, -⟩
  encoded := by rintro call attempt value text ⟨⟩

theorem Ok.of_run (hr : run (step job codec) acts (World.start now) = some s) : Ok job codec s :=
  run_invariant (Ok job codec) (fun _ _ _ h _ hs => h.turn (step_turn hs)) (Ok.start now)
    (along_anyAction acts _) hr

def FinishesInTime (job : Job) (call : Nat) (attempt : IdempotentJobAttempt)
    (acts : List (Action T)) : Prop :=
  ∃ now crashes, .mark call now crashes ∈ acts ∧
    now < attempt.attemptedAt + job.claimTimeout ∧ now < attempt.attemptedAt + job.expiresIn

theorem now_le_of_mark (hr : run (step job codec) acts s = some t)
    (hm : .mark call now crashes ∈ acts) : s.now ≤ now := by
  induction acts generalizing s with
  | nil => cases hm
  | cons first acts ih =>
    obtain ⟨mid, hs, he⟩ := run_cons.mp hr
    rcases mem_cons.mp hm with rfl | hl
    · simp only [step] at hs
      exact (ite_none_right_eq_some.mp hs).1
    · exact Int.le_trans (step_turn hs).now_le (ih he hl)

theorem FinishesInTime.not_overdue (h : FinishesInTime job call attempt acts)
    (hr : run (step job codec) acts s = some t) : ¬ job.Overdue attempt s.now := by
  obtain ⟨now, crashes, hm, hc, ha⟩ := h
  have hn := now_le_of_mark hr hm
  rintro (ho | ho)
  · omega
  · omega

theorem Ok.exclusive (h : Ok job codec s) (hr : run (step job codec) acts s = some t)
    (hc : s.Holds call attempt) (ho : s.Holds other held)
    (hit : FinishesInTime job call attempt acts)
    (hi : FinishesInTime job other held acts) : call = other := by
  have ha := (h.current hc).resolve_right (hit.not_overdue hr)
  have hb := (h.current ho).resolve_right (hi.not_overdue hr)
  rw [ha, Option.some.injEq] at hb
  exact h.eq_of_id hc ho (congrArg _ hb)

inductive Recorded (codec : Codec T) (text : Option String) : Outcome T → Prop
  | own (value : T) (attempt : IdempotentJobAttempt) (hText : codec.stringify value = .ok text) :
      Recorded codec text (.processed value attempt)
  | read (attempt : IdempotentJobAttempt) :
      Recorded codec text (.alreadyProcessed (codec.parseStoredResult text) attempt)
  | duplicate : Recorded codec text .duplicate

def Completion.IsInTime (job : Job) (entry : Completion T) : Prop :=
  ∀ attempt, entry.claimed = some attempt → entry.time < attempt.attemptedAt + job.claimTimeout ∧
      entry.time < attempt.attemptedAt + job.expiresIn

/-- What is added to the records while a row is kept: no run of the job starts and each call that
ends has the row's result. -/
structure Kept (job : Job) (codec : Codec T) (row : IdempotentJobAttempt) (s t : World T) :
    Prop where
  starts : ∃ more, t.starts = s.starts ++ more ∧ ∀ entry ∈ more, row.expiresAt ≤ entry.2.attemptedAt
  completions : ∃ more, t.completions = s.completions ++ more ∧
    ∀ entry ∈ more, entry.time < row.expiresAt → entry.IsInTime job →
      Recorded codec row.result entry.outcome

theorem Kept.refl (row : IdempotentJobAttempt) (s : World T) : Kept job codec row s s :=
  ⟨⟨[], by simp⟩, ⟨[], by simp⟩⟩

theorem Kept.trans {u : World T} (h : Kept job codec row s t) (hl : Kept job codec row t u) :
    Kept job codec row s u := by
  obtain ⟨⟨starts, hs, hf⟩, ⟨completions, hc, hr⟩⟩ := h
  obtain ⟨⟨starts', hs', hf'⟩, ⟨completions', hc', hr'⟩⟩ := hl
  refine ⟨⟨starts ++ starts', ?_, ?_⟩, ⟨completions ++ completions', ?_, ?_⟩⟩
  · rw [hs', hs, append_assoc]
  · intro entry hm
    exact (mem_append.mp hm).elim (hf entry) (hf' entry)
  · rw [hc', hc, append_assoc]
  · intro entry hm
    exact (mem_append.mp hm).elim (hr entry) (hr' entry)

/-- The attempt is completed, and no call holds it. -/
structure Done (row : IdempotentJobAttempt) (s : World T) : Prop where
  kept : s.row = some row ∨ row.expiresAt ≤ s.now
  status : row.status = .completed
  known : row.id ∈ s.starts.map (·.2.id)
  free : ∀ {call attempt}, s.Holds call attempt → attempt.id ≠ row.id

theorem Done.expired (h : Done row s) (hn : s.now ≤ now)
    (hr : s.row.all (job.isReclaimable now) = true) : row.expiresAt ≤ now := by
  rcases h.kept with ha | he
  · rw [ha] at hr
    simpa [Job.isReclaimable, h.status] using hr
  · exact Int.le_trans he hn

theorem Done.turn (h : Done row s) (ht : Turn job codec a s t) : Done row t := by
  cases ht with
  | quiet hr hs hn hd =>
    refine ⟨?_, h.status, ?_, fun hh => h.free (hd hh)⟩
    · rw [hr]
      exact h.kept.imp_right fun he => Int.le_trans he hn
    · rw [hs]
      exact h.known
  | claim id now hn hf hi hj hw =>
    subst hw
    refine ⟨.inr (h.expired hn hj), h.status, ?_, ?_⟩
    · rw [map_append]
      exact mem_append_left _ h.known
    · rintro call attempt ⟨phase, hg, ha⟩
      rcases Map.get_of_set hg with ⟨-, rfl⟩ | hb
      · cases ha
        rintro rfl
        exact hf h.known
      · exact h.free ⟨phase, hb, ha⟩
  | mark attempt mark hm hn hr hs hc =>
    refine ⟨?_, h.status, ?_, ?_⟩
    · rcases h.kept with hk | he
      · refine .inl ?_
        rw [hr, hk]
        exact markAttempt_of_ne (h.free ⟨_, hm, rfl⟩).symm
      · exact .inr (Int.le_trans he hn)
    · rw [hs]
      exact h.known
    · exact fun hh => h.free (holds_of_delete hc hh).2

theorem Done.records (hOk : Ok job codec s) (h : Done row s) (hu : Turn job codec a s t) :
    Kept job codec row s t := by
  have hr : t.now < row.expiresAt → s.row = some row := by
    intro hn
    refine h.kept.resolve_right fun hex => ?_
    have := hu.now_le
    omega
  cases hu with
  | quiet ha hs hn hh hb hc =>
    refine ⟨⟨[], by simp [hs]⟩, ?_⟩
    rcases hc with hd | ⟨outcome, ho, hg⟩
    · exact ⟨[], by simp [hd]⟩
    · refine ⟨_, ho, ?_⟩
      intro entry hm ht hit
      rw [mem_singleton.mp hm] at ht ⊢
      cases hg with
      | duplicate => exact .duplicate
      | processed attempt hf =>
        rw [hr ht, findAttempt, filter_some, ite_none_right_eq_some] at hf
        cases hf.2
        exact .read row
  | claim id now hn hi hj hk hw =>
    subst hw
    refine ⟨⟨_, rfl, ?_⟩, ⟨[], by simp⟩⟩
    intro entry hm
    rw [mem_singleton.mp hm]
    exact h.expired hn hk
  | mark attempt mark hb hn hl hs hp hc =>
    have hh : s.Holds a.caller attempt := ⟨_, hb, rfl⟩
    refine ⟨⟨[], by simp [hs]⟩, ?_⟩
    rcases hc with hd | ho
    · exact ⟨[], by simp [hd]⟩
    · refine ⟨_, ho, ?_⟩
      intro entry hm ht hit
      rw [mem_singleton.mp hm] at ht hit
      obtain ⟨hq, he⟩ := hit attempt rfl
      rcases hOk.current hh with hv | hx | hx
      · rw [hr ht, Option.some.injEq] at hv
        exact absurd (congrArg _ hv.symm) (h.free hh)
      · simp only at hq
        omega
      · simp only at he
        omega

structure MarksCompleted (s t : World T) (row : IdempotentJobAttempt) : Prop where
  changed : t.row ≠ s.row
  marked : t.row = some row
  status : row.status = .completed

theorem markAttempt_eq_some {status : Status} {result : Option String}
    {before : Option IdempotentJobAttempt} (h : markAttempt status id result now before = some row)
    (hc : some row ≠ before) : row.id = id ∧ row.status = status ∧ row.result = result := by
  cases before with
  | none => cases h
  | some =>
    rw [markAttempt, map_some, Option.some.injEq] at h
    split at h
    · next hi =>
      subst h
      exact ⟨hi, rfl, rfl⟩
    · exact absurd (congrArg some h.symm) hc

theorem MarksCompleted.turn (hm : MarksCompleted s t row) (ho : Ok job codec s)
    (ht : Turn job codec a s t) : Done row t ∧ Kept job codec row s t := by
  cases ht with
  | quiet hr => exact absurd hr hm.changed
  | claim id now hn hf ha he hw =>
    subst hw
    cases hm.marked
    cases hm.status
  | mark attempt mark hd hn hr hs hc hg =>
    have hh : s.Holds a.caller attempt := ⟨_, hd, rfl⟩
    obtain ⟨hi, hj, hk⟩ := markAttempt_eq_some (hr.symm.trans hm.marked) (hm.marked ▸ hm.changed)
    refine ⟨⟨.inl hm.marked, hm.status, ?_, ?_⟩, ⟨[], by simp [hs]⟩, ?_⟩
    · rw [hs, hi]
      exact mem_map_of_mem (ho.started hh)
    · intro other held hl hp
      obtain ⟨hNe, hb⟩ := holds_of_delete hc hl
      exact hNe (ho.eq_of_id hh hb (hi.symm.trans hp.symm))
    · rcases hg with hq | hu
      · exact ⟨[], by simp [hq]⟩
      · refine ⟨_, hu, ?_⟩
        intro entry hv hx hit
        rw [mem_singleton.mp hv]
        cases mark with
        | failed =>
          rw [hm.status] at hj
          cases hj
        | completed value =>
          rw [hk]
          exact .own value attempt (ho.encoded hd)

theorem Done.run (h : Done row s) (ho : Ok job codec s)
    (hr : ProofKit.run (step job codec) acts s = some t) : Kept job codec row s t := by
  refine run_relates (fun s => Ok job codec s ∧ Done row s) (Kept job codec row) ?_ (Kept.refl row)
    (fun _ _ _ => Kept.trans) ?_ ⟨ho, h⟩ (along_anyAction acts s) hr
  · rintro action before after ⟨ho, hd⟩ - hs
    exact ⟨ho.turn (step_turn hs), hd.turn (step_turn hs)⟩
  · rintro action before after ⟨ho, hd⟩ - hs
    exact hd.records ho (step_turn hs)

def World.TakenOver (s : World T) (call : Nat) : Prop :=
  ∃ attempt before after, s.Holds call attempt ∧
    s.starts = before ++ (call, attempt) :: after ∧ after ≠ []

theorem Ok.id_ne_of_later {before after : List (Nat × IdempotentJobAttempt)} (h : Ok job codec s)
    (hs : s.starts = before ++ (call, attempt) :: after) (ha : after ≠ [])
    (hr : s.row = some row) : row.id ≠ attempt.id := by
  have hf := h.fresh
  rw [hs, map_append, map_cons] at hf
  have hn : attempt.id ∉ after.map (·.2.id) :=
    (nodup_cons.mp (List.Nodup.of_append_right hf)).1
  obtain ⟨latest, hb⟩ : ∃ latest, after.getLast? = some latest :=
    ⟨after.getLast ha, getLast?_eq_some_getLast ha⟩
  have hl : some row.id = some latest.2.id := by
    have hl := h.last
    rwa [hr, hs, getLast?_append, getLast?_cons, hb] at hl
  rw [Option.some.inj hl]
  intro hi
  exact hn (mem_map.mpr ⟨latest, mem_of_getLast? hb, hi⟩)

theorem Ok.fenced (h : Ok job codec s) (ht : Turn job codec a s t)
    (ho : s.TakenOver a.caller) : t.row = s.row := by
  obtain ⟨attempt, before, after, ⟨phase, hg, ha⟩, hs, hc⟩ := ho
  cases ht with
  | quiet hr => exact hr
  | claim id now hn hd hf =>
    exact absurd ⟨phase, hg, ha⟩ (hf attempt)
  | mark held mark hm hn hr =>
    rw [hm] at hg
    cases hg
    cases ha
    rw [hr]
    cases hb : s.row with
    | none => rfl
    | some => exact markAttempt_of_ne (h.id_ne_of_later hs hc hb)

end

def delivery : Job := ⟨"notification_delivery", 1000, 10⟩

end Credence.Notifications
