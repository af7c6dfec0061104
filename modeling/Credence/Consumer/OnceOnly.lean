import Credence.Consumer.Process
import Credence.ProofKit.Lists

/-! One completion for each message where no save fails, a handler starts only on a clear table and
results are read back as they were saved. -/

namespace Credence.Consumer

open Js ProofKit List Option

variable {R : Type}

def Stage.isExecuting : Stage R → Bool
  | running | saving _ | saved _ | deleting _ | deleted _ => true
  | _ => false

def Stage.isSaving : Stage R → Bool
  | saving _ | saved _ => true
  | _ => false

def World.Clear (w : World R) (call : Call R) : Prop :=
  (Map.get call.messageId w.table).isNone = true ∧ ∀ other ∈ w.calls,
    other.messageId = call.messageId → other.replica ≠ call.replica →
    other.stage.isExecuting = false

instance (w : World R) (call : Call R) : Decidable (w.Clear call) :=
  inferInstanceAs (Decidable (_ ∧ _))

def World.starts (json : JsonTools R) (w : World R) (id : Nat) (call : Call R) : Bool :=
  match call.stage with
  | .looked existing => (resume json id (w.view call).active existing).stage.isExecuting
  | _ => false

def Careful (json : JsonTools R) : Action R → World R → Prop
  | .reply id, w => ∀ call, call ∈ w.calls[id]? → w.starts json id call = true → w.Clear call
  | .fail id _, w => ∀ call, call ∈ w.calls[id]? → call.stage.isSaving = false
  | .resolve _ result, _ => json.readBody (json.column result) = some result
  | _, _ => True

instance [DecidableEq R] (json : JsonTools R) :
    (action : Action R) → (w : World R) → Decidable (Careful json action w)
  | .reply id, w => inferInstanceAs (Decidable (∀ call, call ∈ w.calls[id]? → _ → _))
  | .fail id _, w => inferInstanceAs (Decidable (∀ call, call ∈ w.calls[id]? → _ = _))
  | .resolve _ _, _ => inferInstanceAs (Decidable (_ = _))
  | .process _ _, _ | .execute _, _ | .throw _ _, _ | .follow _, _ => isTrue trivial

def World.completionsOf (w : World R) (messageId : String) : List (Completion R) :=
  w.completions.filter fun completion => completion.messageId = messageId

inductive Phase (json : JsonTools R) (w : World R) (messageId : String) : Option Nat → Prop
  | idle (hNone : w.completionsOf messageId = []) (hRow : Map.get messageId w.table = none) :
    Phase json w messageId none
  | executed (id : Nat) (call : Call R) (hCall : w.calls[id]? = some call)
    (hMessage : call.messageId = messageId) (hStage : call.stage.isExecuting = true)
    (hNot : call.stage.isSaving = false) (hNone : w.completionsOf messageId = [])
    (hRow : Map.get messageId w.table = none) : Phase json w messageId (some id)
  | saving (id : Nat) (call : Call R) (result : R) (hCall : w.calls[id]? = some call)
    (hMessage : call.messageId = messageId) (hStage : call.stage = .saving result)
    (hOne : w.completionsOf messageId = [⟨id, messageId, result⟩])
    (hRow : Map.get messageId w.table = none) : Phase json w messageId (some id)
  | saved (id : Nat) (call : Call R) (result : R) (hCall : w.calls[id]? = some call)
    (hMessage : call.messageId = messageId) (hStage : call.stage = .saved result)
    (hOne : w.completionsOf messageId = [⟨id, messageId, result⟩])
    (hRow : Map.get messageId w.table = some ⟨200, json.column result⟩) :
    Phase json w messageId (some id)
  | done (completion : Completion R) (hOne : w.completionsOf messageId = [completion])
    (hRow : Map.get messageId w.table = some ⟨200, json.column completion.result⟩) :
    Phase json w messageId none

/-- At most one call executes the message, and the maps in flight name it. -/
structure Led (w : World R) (messageId : String) (leader : Option Nat) : Prop where
  calls : ∀ (id : Nat) call, w.calls[id]? = some call → call.messageId = messageId →
    (call.stage.isExecuting = true ↔ leader = some id)
  inflight : ∀ replica id, Map.get (replica, messageId) w.inflight = some id ↔
    leader = some id ∧ ∃ call, w.calls[id]? = some call ∧ call.replica = replica

def Knows (json : JsonTools R) (w : World R) (messageId : String) : Stage R → Prop
  | .looked (some existing) => ∃ completion, w.completionsOf messageId = [completion] ∧
    existing = ⟨200, json.column completion.result⟩
  | .following leader => ∃ call, w.calls[leader]? = some call ∧ call.messageId = messageId
  | .returned (.success result) => ∃ completion, w.completionsOf messageId = [completion] ∧
    completion.result = result
  | _ => True

structure Ok (json : JsonTools R) (w : World R) (messageId : String) : Prop where
  readable : ∀ completion ∈ w.completionsOf messageId,
    json.readBody (json.column completion.result) = some completion.result
  led : ∃ leader, Phase json w messageId leader ∧ Led w messageId leader
  knows : ∀ (id : Nat) call, w.calls[id]? = some call → call.messageId = messageId →
    Knows json w messageId call.stage

theorem ok_start (json : JsonTools R) (messageId : String) : Ok json .start messageId where
  readable _ h := by cases h
  led := ⟨none, .idle rfl rfl, by simp [World.start], by simp [World.start, Map.get]⟩
  knows _ _ h := by simp [World.start] at h

/-! ### Steps of other messages -/

structure SameFor (messageId : String) (w after : World R) : Prop where
  calls : ∀ (id : Nat) call, call.messageId = messageId →
    (after.calls[id]? = some call ↔ w.calls[id]? = some call)
  row : Map.get messageId after.table = Map.get messageId w.table
  inflight : ∀ replica, Map.get (replica, messageId) after.inflight =
    Map.get (replica, messageId) w.inflight
  completions : after.completionsOf messageId = w.completionsOf messageId

variable {json : JsonTools R} {w after : World R} {messageId : String}

theorem Phase.transfer {leader : Option Nat} (h : Phase json w messageId leader)
    (hc : ∀ id call, leader = some id → w.calls[id]? = some call →
      call.messageId = messageId → after.calls[id]? = some call)
    (hr : Map.get messageId after.table = Map.get messageId w.table)
    (ho : after.completionsOf messageId = w.completionsOf messageId) :
    Phase json after messageId leader := by
  cases h with
  | idle ha hn => exact .idle (ho.trans ha) (hr.trans hn)
  | executed id call hCall hm hs hn1 ha hn =>
    exact .executed id call (hc id call rfl hCall hm) hm hs hn1
      (ho.trans ha) (hr.trans hn)
  | saving id call result hCall hm hs hb hn =>
    exact .saving id call result (hc id call rfl hCall hm) hm hs
      (ho.trans hb) (hr.trans hn)
  | saved id call result hCall hm hs hb hd =>
    exact .saved id call result (hc id call rfl hCall hm) hm hs
      (ho.trans hb) (hr.trans hd)
  | done completion hb hd => exact .done completion (ho.trans hb) (hr.trans hd)

theorem Phase.message {id : Nat} (h : Phase json w messageId (some id)) :
    ∃ call, w.calls[id]? = some call ∧ call.messageId = messageId := by
  cases h with
  | executed _ call hCall hm | saving _ call _ hCall hm
  | saved _ call _ hCall hm => exact ⟨call, hCall, hm⟩

variable {stage : Stage R} {action : Action R}

theorem Knows.mono (h : Knows json w messageId stage)
    (ho : ∀ completion, w.completionsOf messageId = [completion] →
      after.completionsOf messageId = [completion])
    (hc : ∀ (id : Nat) call, w.calls[id]? = some call → call.messageId = messageId →
      ∃ later, after.calls[id]? = some later ∧ later.messageId = messageId) :
    Knows json after messageId stage := by
  unfold Knows at h ⊢
  split
  · obtain ⟨completion, he, hex⟩ := h
    exact ⟨completion, ho completion he, hex⟩
  · obtain ⟨call, hCall, hm⟩ := h
    exact hc _ call hCall hm
  · obtain ⟨completion, he, hr⟩ := h
    exact ⟨completion, ho completion he, hr⟩
  · trivial

theorem Ok.extend (h : Ok json w messageId)
    (hk : ∀ (id : Nat) call, w.calls[id]? = some call → call.messageId = messageId →
      after.calls[id]? = some call)
    (hn : ∀ (id : Nat) call, after.calls[id]? = some call → call.messageId = messageId →
      w.calls[id]? = some call ∨ call.stage = .looking ∧ w.calls[id]? = none)
    (hr : Map.get messageId after.table = Map.get messageId w.table)
    (hi : ∀ replica, Map.get (replica, messageId) after.inflight =
      Map.get (replica, messageId) w.inflight)
    (ho : after.completionsOf messageId = w.completionsOf messageId) :
    Ok json after messageId := by
  obtain ⟨leader, hp, hl⟩ := h.led
  refine ⟨ho ▸ h.readable, ⟨leader, ?_, ?_, ?_⟩, ?_⟩
  · exact hp.transfer (fun id call _ => hk id call) hr ho
  · intro id call hCall hm
    rcases hn id call hCall hm with hf | ⟨hs, ha⟩
    · exact hl.calls id call hf hm
    · rw [hs]
      refine ⟨by simp [Stage.isExecuting], ?_⟩
      rintro rfl
      obtain ⟨found, hf, -⟩ := hp.message
      cases ha.symm.trans hf
  · intro replica id
    rw [hi, hl.inflight]
    refine and_congr_right fun hle => ?_
    subst hle
    obtain ⟨call, hCall, hm⟩ := hp.message
    rw [hCall, hk id call hCall hm]
  · intro id call hCall hm
    rcases hn id call hCall hm with hf | ⟨hs, -⟩
    · exact (h.knows id call hf hm).mono (fun _ hb => ho.trans hb)
        fun other found he hc => ⟨found, hk other found he hc, hc⟩
    · rw [hs]
      trivial

theorem Ok.congr (h : Ok json w messageId) (hs : SameFor messageId w after) :
    Ok json after messageId :=
  h.extend (fun id call hCall hm => (hs.calls id call hm).mpr hCall)
    (fun id call hCall hm => .inl ((hs.calls id call hm).mp hCall)) hs.row
    hs.inflight hs.completions

theorem Ok.process (h : Ok json w messageId) (replica : Nat) (other : String) :
    Ok json { w with calls := w.calls ++ [⟨replica, other, .looking⟩] } messageId := by
  refine h.extend (fun id call hCall _ => getElem?_concat_eq_some_iff.mpr (.inl hCall))
    (fun id call hCall _ => ?_) rfl (fun _ => rfl) rfl
  rcases getElem?_concat_eq_some_iff.mp hCall with ho | ⟨rfl, rfl⟩
  · exact .inl ho
  · exact .inr ⟨rfl, getElem?_eq_none (Nat.le_refl _)⟩

theorem Change.get_apply_ne {κ α : Type} [DecidableEq κ] {key other : κ}
    {entries : List (κ × α)} (change : Change α) (hk : key ≠ other) :
    Map.get other (change.apply key entries) = Map.get other entries := by
  cases change with
  | keep => rfl
  | set => exact (Map.get_set ..).trans (if_neg hk)
  | delete => exact (Map.get_delete ..).trans (if_neg hk)

variable {id : Nat} {call : Call R} {move : Move R}

theorem World.take_calls (hCall : w.calls[id]? = some call) (other : Nat) :
    (w.take id call move).calls[other]? =
      if id = other then some { call with stage := move.stage } else w.calls[other]? := by
  obtain ⟨hl, -⟩ := List.getElem?_eq_some_iff.mp hCall
  by_cases he : id = other
  · subst he
    simp [World.take, hl]
  · simp [World.take, he]

theorem sameFor_take (hCall : w.calls[id]? = some call) (ho : call.messageId ≠ messageId) :
    SameFor messageId w (w.take id call move) where
  calls other found hf := by
    rw [World.take_calls hCall]
    split
    · next he =>
      subst he
      constructor
      · intro hs
        cases hs
        exact absurd hf ho
      · intro hs
        cases hCall.symm.trans hs
        exact absurd hf ho
    · exact Iff.rfl
  row := move.table.get_apply_ne ho
  inflight replica := move.inflight.get_apply_ne fun he => ho (Prod.mk.inj he).2
  completions := by
    have hn : ((move.completes.map fun result =>
        (⟨id, call.messageId, result⟩ : Completion R)).toList.filter
          fun completion => completion.messageId = messageId) = [] := by
      cases move.completes <;> simp [ho]
    simp only [World.completionsOf, World.take, filter_append, hn, append_nil]

/-! ### Steps of the message -/

inductive Moves (json : JsonTools R) (w : World R) (id : Nat) (call : Call R) : Move R → Prop
  | waits (stage : Stage R) (hOld : call.stage.isExecuting = false)
    (hNew : stage.isExecuting = false) (hKnows : Knows json w call.messageId stage) :
    Moves json w id call (.to stage)
  | starts (hOld : call.stage.isExecuting = false)
    (hActive : Map.get (call.replica, call.messageId) w.inflight = none) (hClear : w.Clear call) :
    Moves json w id call ⟨.running, .keep, .set id, none⟩
  | completes (result : R) (hStage : call.stage = .running)
    (hRead : json.readBody (json.column result) = some result) :
    Moves json w id call ⟨.saving result, .keep, .keep, some result⟩
  | throws (error : String) (hStage : call.stage = .running) :
    Moves json w id call (.to (.deleting error))
  | saves (result : R) (hStage : call.stage = .saving result) :
    Moves json w id call ⟨.saved result, .set ⟨200, json.column result⟩, .keep, none⟩
  | deletes (error : String) (hStage : call.stage = .deleting error) :
    Moves json w id call ⟨.deleted error, .delete, .keep, none⟩
  | succeeds (result : R) (hStage : call.stage = .saved result) :
    Moves json w id call (.finish (.success result))
  | fails (error : String) (hStage : call.stage.isExecuting = true)
    (hNot : call.stage.isSaving = false) : Moves json w id call (.finish (.failure error))

theorem Ok.row (h : Ok json w messageId) {existing : IdempotencyRecord R}
    (hr : Map.get messageId w.table = some existing) : ∃ completion,
      w.completionsOf messageId = [completion] ∧
        existing = ⟨200, json.column completion.result⟩ := by
  obtain ⟨leader, hp, -⟩ := h.led
  cases hp with
  | idle _ hn => cases hr.symm.trans hn
  | executed _ _ _ _ _ _ _ hn => cases hr.symm.trans hn
  | saving _ _ _ _ _ _ _ hn => cases hr.symm.trans hn
  | saved id call result _ _ _ ho hs =>
    cases hr.symm.trans hs
    exact ⟨_, ho, rfl⟩
  | done completion ho hs =>
    cases hr.symm.trans hs
    exact ⟨completion, ho, rfl⟩

theorem Ok.active (h : Ok json w messageId) {replica leader : Nat}
    (ha : Map.get (replica, messageId) w.inflight = some leader) :
    ∃ call, w.calls[leader]? = some call ∧ call.messageId = messageId := by
  obtain ⟨led, hp, hl⟩ := h.led
  obtain ⟨rfl, -⟩ := (hl.inflight replica leader).mp ha
  exact hp.message

theorem moves_of_resume (h : Ok json w call.messageId) (hCall : w.calls[id]? = some call)
    {existing : Option (IdempotencyRecord R)} (hs : call.stage = .looked existing)
    (hc : w.starts json id call = true → w.Clear call) :
    Moves json w id call (resume json id (w.view call).active existing) := by
  have hk := h.knows id call hCall rfl
  have ho : call.stage.isExecuting = false := by rw [hs]; rfl
  rw [hs] at hk
  cases existing with
  | some =>
    obtain ⟨completion, hn, rfl⟩ := hk
    have he := h.readable completion (by rw [hn]; exact mem_singleton_self _)
    have hr : resume json id (w.view call).active
        (some ⟨200, json.column completion.result⟩) =
        .to (.returned (.success completion.result)) := by
      simp [resume, he]
    rw [hr]
    exact .waits _ ho rfl ⟨completion, hn, rfl⟩
  | none =>
    cases ha : Map.get (call.replica, call.messageId) w.inflight with
    | some leader =>
      have hr : resume json id (w.view call).active none = .to (.following leader) := by
        simp [resume, resume.enter, World.view, ha]
      rw [hr]
      exact .waits _ ho rfl (h.active ha)
    | none =>
      have hr : resume json id (w.view call).active none = ⟨.running, .keep, .set id, none⟩ := by
        simp [resume, resume.enter, World.view, ha]
      rw [hr]
      refine .starts ho ha (hc ?_)
      simp [World.starts, hs, hr, Stage.isExecuting]

theorem moves_of_advance (h : Ok json w call.messageId) (hCall : w.calls[id]? = some call)
    (ha : action.call = some id) (hc : Careful json action w)
    (hm : advance json (w.view call) action call.stage = some move) :
    Moves json w id call move := by
  obtain ⟨replica, messageId, stage⟩ := call
  have hk := h.knows id _ hCall rfl
  unfold advance at hm
  dsimp only at hm
  split at hm
  · cases hm
    refine .waits _ rfl rfl ?_
    cases hr : Map.get messageId w.table with
    | none => simp [World.view, hr, Knows]
    | some =>
      simp only [World.view, hr]
      exact h.row hr
  · cases hm
    exact .saves _ rfl
  · cases hm
    exact .deletes _ rfl
  · cases hm
    cases ha
    exact moves_of_resume h hCall rfl (hc _ hCall)
  · cases hm
    exact .succeeds _ rfl
  · cases hm
    exact .fails _ rfl rfl
  · cases hm
    exact .waits _ rfl rfl trivial
  · cases hm
    exact .waits _ rfl rfl trivial
  · cases ha
    cases hc _ hCall
  · cases ha
    cases hc _ hCall
  · cases hm
    exact .fails _ rfl rfl
  · cases hm
    exact .fails _ rfl rfl
  · cases hm
    exact .completes _ rfl hc
  · cases hm
    exact .throws _ rfl
  · next leader =>
    obtain ⟨found, hf, he⟩ := hk
    split at hm
    · next result hb =>
      cases hm
      simp only [World.view, hf, map_some, Option.some.injEq] at hb
      have hl := h.knows leader found hf he
      rw [hb] at hl
      exact .waits _ rfl rfl hl
    · cases hm
  · cases hm

/-! ### The invariant is kept -/

theorem completionsOf_take : (w.take id call move).completionsOf call.messageId =
    w.completionsOf call.messageId ++
      (move.completes.map fun result => ⟨id, call.messageId, result⟩).toList := by
  simp only [World.completionsOf, World.take, filter_append]
  cases move.completes <;> simp

theorem Knows.take (h : Knows json w call.messageId stage) (hCall : w.calls[id]? = some call)
    (hs : ∀ completion, w.completionsOf call.messageId = [completion] → move.completes = none) :
    Knows json (w.take id call move) call.messageId stage := by
  refine h.mono (fun completion ho => ?_) (fun other found hf hm => ?_)
  · rw [completionsOf_take, hs completion ho, ho]
    rfl
  · rw [World.take_calls hCall]
    split
    · exact ⟨_, rfl, rfl⟩
    · exact ⟨found, hf, hm⟩

section

variable {leader : Option Nat}

theorem Led.take_calls {next : Option Nat} (h : Led w call.messageId leader)
    (hCall : w.calls[id]? = some call) (hs : move.stage.isExecuting = true ↔ next = some id)
    (ho : ∀ other, id ≠ other → (leader = some other ↔ next = some other)) (other : Nat)
    (found : Call R) (hf : (w.take id call move).calls[other]? = some found)
    (hm : found.messageId = call.messageId) :
    found.stage.isExecuting = true ↔ next = some other := by
  rw [World.take_calls hCall] at hf
  split at hf
  · next he =>
    subst he
    cases hf
    exact hs
  · next he => exact (h.calls other found hf hm).trans (ho other he)

theorem Led.keep (h : Led w call.messageId leader) (hCall : w.calls[id]? = some call)
    (hi : move.inflight = .keep)
    (hs : move.stage.isExecuting = call.stage.isExecuting) :
    Led (w.take id call move) call.messageId leader where
  calls := h.take_calls hCall (hs ▸ h.calls id call hCall rfl) fun _ _ => Iff.rfl
  inflight replica other := by
    have ha : (w.take id call move).inflight = w.inflight := by
      simp only [World.take, hi, Change.apply]
    rw [ha, h.inflight, World.take_calls hCall]
    refine and_congr_right fun _ => ?_
    split
    · next he =>
      subst he
      simp [hCall]
    · exact Iff.rfl

theorem Led.begin (h : Led w call.messageId none) (hCall : w.calls[id]? = some call)
    (hi : move.inflight = .set id) (hs : move.stage.isExecuting = true) :
    Led (w.take id call move) call.messageId (some id) where
  calls := h.take_calls hCall (by simp [hs]) (by simp)
  inflight replica other := by
    have hn : Map.get (replica, call.messageId) w.inflight = none :=
      eq_none_iff_forall_ne_some.mpr fun found ha => by
        cases ((h.inflight replica found).mp ha).1
    simp only [World.take, hi, Change.apply, Map.get_set, hn]
    rw [show (w.calls.set id { call with stage := move.stage }) =
      (w.take id call move).calls from rfl, World.take_calls hCall]
    grind

theorem Led.finish (h : Led w call.messageId (some id)) (hCall : w.calls[id]? = some call)
    (hi : move.inflight = .delete) (hs : move.stage.isExecuting = false) :
    Led (w.take id call move) call.messageId none where
  calls := h.take_calls hCall (by simp [hs]) (by simp)
  inflight replica other := by
    simp only [World.take, hi, Change.apply, Map.get_delete, reduceCtorEq, false_and, iff_false]
    split
    · simp
    · next hr =>
      intro ha
      obtain ⟨hl, found, hf, hb⟩ := (h.inflight replica other).mp ha
      cases hl
      cases hCall.symm.trans hf
      exact hr (by rw [hb])

end

theorem completionsOf_take_none (hn : move.completes = none) :
    (w.take id call move).completionsOf call.messageId = w.completionsOf call.messageId := by
  rw [completionsOf_take, hn]
  exact append_nil _

theorem Phase.keep {leader : Option Nat} (h : Phase json w call.messageId leader)
    (hCall : w.calls[id]? = some call) (hl : leader ≠ some id) (ht : move.table = .keep)
    (hn : move.completes = none) : Phase json (w.take id call move) call.messageId leader := by
  refine h.transfer ?_ ?_ (completionsOf_take_none hn)
  · rintro other found rfl hf -
    rw [World.take_calls hCall, if_neg fun he => hl (congrArg some he.symm), hf]
  · simp only [World.take, ht, Change.apply]

theorem Ok.of_take (h : Ok json w call.messageId) (hCall : w.calls[id]? = some call)
    (hs : ∀ completion, w.completionsOf call.messageId = [completion] → move.completes = none)
    (hr : ∀ result, move.completes = some result → json.readBody (json.column result) = some result)
    (ho : Knows json (w.take id call move) call.messageId move.stage)
    (hl : ∃ leader, Phase json (w.take id call move) call.messageId leader ∧
      Led (w.take id call move) call.messageId leader) :
    Ok json (w.take id call move) call.messageId where
  readable completion hm := by
    rw [completionsOf_take] at hm
    rcases mem_append.mp hm with ha | hn
    · exact h.readable completion ha
    · simp only [mem_toList, map_eq_some_iff] at hn
      obtain ⟨result, he, rfl⟩ := hn
      exact hr result he
  led := hl
  knows other found hf hb := by
    rw [World.take_calls hCall] at hf
    split at hf
    · cases hf
      exact ho
    · exact (h.knows other found hf hb).take hCall hs

theorem Ok.leader_none (h : Ok json w call.messageId)
    (ha : Map.get (call.replica, call.messageId) w.inflight = none)
    (hc : w.Clear call) : w.completionsOf call.messageId = [] ∧
      Map.get call.messageId w.table = none ∧ Led w call.messageId none := by
  obtain ⟨leader, hp, hl⟩ := h.led
  have hr := isNone_iff_eq_none.mp hc.1
  cases leader with
  | some other =>
    obtain ⟨found, hf, hm⟩ := hp.message
    have he := (hl.calls other found hf hm).mpr rfl
    by_cases hb : found.replica = call.replica
    · have hs := (hl.inflight call.replica other).mpr ⟨rfl, found, hf, hb⟩
      cases ha.symm.trans hs
    · have hi := hc.2 found (mem_of_getElem? hf) hm hb
      rw [he] at hi
      cases hi
  | none =>
    cases hp with
    | idle hn => exact ⟨hn, hr, hl⟩
    | done completion _ hs => cases hr.symm.trans hs

theorem Ok.leader_self (h : Ok json w call.messageId) (hCall : w.calls[id]? = some call)
    (hs : call.stage.isExecuting = true) :
    Phase json w call.messageId (some id) ∧ Led w call.messageId (some id) := by
  obtain ⟨leader, hp, hl⟩ := h.led
  cases (hl.calls id call hCall rfl).mp hs
  exact ⟨hp, hl⟩

/-! What is known of a message while the call executes it. -/

section

variable (h : Ok json w call.messageId) (hCall : w.calls[id]? = some call)
include h hCall

theorem Ok.executing (hs : call.stage.isExecuting = true) (hn : call.stage.isSaving = false) :
    w.completionsOf call.messageId = [] ∧ Map.get call.messageId w.table = none ∧
      Led w call.messageId (some id) := by
  obtain ⟨hp, hl⟩ := h.leader_self hCall hs
  cases hp with
  | executed _ found _ _ _ _ ha hr => exact ⟨ha, hr, hl⟩
  | saving _ found result hf _ ho _ _ | saved _ found result hf _ ho _ _ =>
    cases hCall.symm.trans hf
    rw [ho] at hn
    cases hn

theorem Ok.completed {result : R} (hs : call.stage = .saving result ∨ call.stage = .saved result) :
    w.completionsOf call.messageId = [⟨id, call.messageId, result⟩] ∧
      Led w call.messageId (some id) ∧
      (call.stage = .saved result →
        Map.get call.messageId w.table = some ⟨200, json.column result⟩) := by
  have he : call.stage.isExecuting = true := by
    rcases hs with hs | hs <;> rw [hs] <;> rfl
  obtain ⟨hp, hl⟩ := h.leader_self hCall he
  cases hp with
  | executed _ found hf _ _ hn =>
    cases hCall.symm.trans hf
    rcases hs with hs | hs <;> rw [hs] at hn <;> cases hn
  | saving _ found other hf _ ho ha =>
    cases hCall.symm.trans hf
    rw [ho] at hs ⊢
    simp only [Stage.saving.injEq, reduceCtorEq, or_false] at hs
    subst hs
    exact ⟨ha, hl, by simp⟩
  | saved _ found other hf _ ho ha hr =>
    cases hCall.symm.trans hf
    rw [ho] at hs ⊢
    simp only [Stage.saved.injEq, reduceCtorEq, false_or] at hs
    subst hs
    exact ⟨ha, hl, fun _ => hr⟩

theorem Ok.take (hm : Moves json w id call move) :
    Ok json (w.take id call move) call.messageId := by
  have ho : (w.take id call move).calls[id]? = some { call with stage := move.stage } :=
    (World.take_calls hCall id).trans (if_pos rfl)
  cases hm with
  | waits stage hb hne hk =>
    obtain ⟨leader, hp, hl⟩ := h.led
    have hle : leader ≠ some id := by
      intro he
      rw [(hl.calls id call hCall rfl).mpr he] at hb
      cases hb
    exact h.of_take hCall (fun _ _ => rfl) (by simp [Move.to]) (hk.take hCall fun _ _ => rfl)
      ⟨leader, hp.keep hCall hle rfl rfl, hl.keep hCall rfl (hne.trans hb.symm)⟩
  | starts hb ha hc =>
    obtain ⟨hn, hr, hl⟩ := h.leader_none ha hc
    refine h.of_take hCall (fun _ _ => rfl) (by simp) trivial
      ⟨some id, ?_, hl.begin hCall rfl rfl⟩
    exact .executed id _ ho rfl rfl rfl ((completionsOf_take_none rfl).trans hn) hr
  | completes result hs hd =>
    obtain ⟨hn, hr, hl⟩ := h.executing hCall (by rw [hs]; rfl) (by rw [hs]; rfl)
    refine h.of_take hCall ?_ ?_ trivial ⟨some id, ?_, hl.keep hCall rfl (by rw [hs]; rfl)⟩
    · intro completion hf
      cases hn.symm.trans hf
    · intro other ht
      cases ht
      exact hd
    · refine .saving id _ result ho rfl rfl ?_ hr
      rw [completionsOf_take, hn]
      rfl
  | throws error hs =>
    obtain ⟨hn, hr, hl⟩ := h.executing hCall (by rw [hs]; rfl) (by rw [hs]; rfl)
    refine h.of_take hCall (fun _ _ => rfl) (by simp [Move.to]) trivial
      ⟨some id, ?_, hl.keep hCall rfl (by rw [hs]; rfl)⟩
    exact .executed id _ ho rfl rfl rfl ((completionsOf_take_none rfl).trans hn) hr
  | saves result hs =>
    obtain ⟨hf, hl, -⟩ := h.completed hCall (.inl hs)
    refine h.of_take hCall (fun _ _ => rfl) (by simp) trivial
      ⟨some id, ?_, hl.keep hCall rfl (by rw [hs]; rfl)⟩
    exact .saved id _ result ho rfl rfl ((completionsOf_take_none rfl).trans hf)
      (Map.get_set_self ..)
  | deletes error hs =>
    obtain ⟨hn, -, hl⟩ := h.executing hCall (by rw [hs]; rfl) (by rw [hs]; rfl)
    refine h.of_take hCall (fun _ _ => rfl) (by simp) trivial
      ⟨some id, ?_, hl.keep hCall rfl (by rw [hs]; rfl)⟩
    exact .executed id _ ho rfl rfl rfl ((completionsOf_take_none rfl).trans hn)
      ((Map.get_delete ..).trans (if_pos rfl))
  | succeeds result hs =>
    obtain ⟨hf, hl, hr⟩ := h.completed hCall (.inr hs)
    have hg : (w.take id call (.finish (.success result))).completionsOf call.messageId =
        [⟨id, call.messageId, result⟩] := (completionsOf_take_none rfl).trans hf
    exact h.of_take hCall (fun _ _ => rfl) (by simp [Move.finish]) ⟨_, hg, rfl⟩
      ⟨none, .done _ hg (hr hs), hl.finish hCall rfl rfl⟩
  | fails error hs hi =>
    obtain ⟨hn, hr, hl⟩ := h.executing hCall hs hi
    exact h.of_take hCall (fun _ _ => rfl) (by simp [Move.finish]) trivial
      ⟨none, .idle ((completionsOf_take_none rfl).trans hn) hr, hl.finish hCall rfl rfl⟩

end

theorem Ok.step (h : ∀ messageId, Ok json w messageId) (hc : Careful json action w)
    (hs : step json action w = some after) : ∀ messageId, Ok json after messageId := by
  intro messageId
  unfold Consumer.step at hs
  split at hs
  · next replica other =>
    cases hs
    exact (h messageId).process replica other
  · simp only [bind_eq_bind, bind_eq_some_iff, Option.pure_def,
      Option.some.injEq] at hs
    obtain ⟨id, ha, call, hCall, move, hm, rfl⟩ := hs
    by_cases ho : call.messageId = messageId
    · subst ho
      exact (h _).take hCall (moves_of_advance (h _) hCall ha hc hm)
    · exact (h messageId).congr (sameFor_take hCall ho)

theorem Ok.run {actions : List (Action R)}
    (hc : Along (Consumer.step json) (Careful json) actions .start)
    (hr : run (Consumer.step json) actions .start = some w) (messageId : String) :
    Ok json w messageId :=
  run_invariant (fun w => ∀ messageId, Ok json w messageId)
    (fun _ _ _ ho hc hs => Ok.step ho hc hs) (ok_start json) hc hr
    messageId

/-- Each message has at most one completion, and what a call returns as its success is that. -/
structure OnceOnly (w : World R) : Prop where
  once : ∀ (i j : Nat) a b, w.completions[i]? = some a → w.completions[j]? = some b →
    a.messageId = b.messageId → i = j
  results : ∀ (id : Nat) call result, w.calls[id]? = some call →
    call.stage = .returned (.success result) → ∃ completion ∈ w.completions,
      completion.messageId = call.messageId ∧ completion.result = result

theorem Ok.atMostOne (h : Ok json w messageId) : (w.completionsOf messageId).length ≤ 1 := by
  obtain ⟨leader, hp, -⟩ := h.led
  cases hp with
  | idle hn => simp [hn]
  | executed _ _ _ _ _ _ hn => simp [hn]
  | saving _ _ _ _ _ _ ho => simp [ho]
  | saved _ _ _ _ _ _ ho => simp [ho]
  | done _ ho => simp [ho]

theorem onceOnly_of_ok (h : ∀ messageId, Ok json w messageId) : OnceOnly w where
  once i j a b hf hs hm := by
    exact getElem?_inj_of_filter_le_one (h a.messageId).atMostOne hf hs
      (decide_eq_true rfl) (decide_eq_true hm.symm)
  results id call result hCall ht := by
    have hk := (h call.messageId).knows id call hCall rfl
    rw [ht] at hk
    obtain ⟨completion, ho, hr⟩ := hk
    have he : completion ∈ w.completionsOf call.messageId := by simp [ho]
    obtain ⟨hi, hm⟩ := mem_filter.mp he
    exact ⟨completion, hi, of_decide_eq_true hm, hr⟩

theorem messages_complete_once {actions : List (Action R)}
    (hCareful : Along (step json) (Careful json) actions .start)
    (hRun : run (step json) actions .start = some w) : OnceOnly w :=
  onceOnly_of_ok (Ok.run hCareful hRun)

inductive SampleValue where
  | text (value : String)
  | number (value : Nat)
  deriving DecidableEq

def sampleJson : JsonTools SampleValue where
  column value := value
  asText
    | .text value => some value
    | .number _ => none
  parse text := if text = "5" then some (.number 5) else none

def redelivered : List (Action SampleValue) :=
  [.process 0 "m", .process 0 "m", .execute 0, .reply 0, .execute 1, .reply 1,
    .resolve 0 (.number 7), .execute 0, .reply 0, .follow 1, .process 1 "m", .execute 2, .reply 2]

theorem messages_complete_once_redelivered : ∃ w,
    run (step sampleJson) redelivered .start = some w ∧
    w.calls.map Call.stage = [.returned (.success (.number 7)), .returned (.success (.number 7)),
      .returned (.success (.number 7))] ∧ OnceOnly w := by
  have hr : run (step sampleJson) redelivered .start = some _ := rfl
  exact ⟨_, hr, rfl, messages_complete_once (by decide +kernel) hr⟩

/-- Two replicas look the message up before either has saved; a lookup's reply comes after the
execution that saved the row; a save fails after the handler; a text comes back as the number that
it spells. -/
theorem messages_complete_twice :
    (run (step sampleJson) [.process 0 "m", .process 1 "m", .execute 0, .execute 1, .reply 0,
      .reply 1, .resolve 0 (.number 7), .resolve 1 (.number 8)] .start).map World.completions =
        some [⟨0, "m", .number 7⟩, ⟨1, "m", .number 8⟩] ∧
    (run (step sampleJson) [.process 0 "m", .process 0 "m", .execute 0, .execute 1, .reply 0,
      .resolve 0 (.number 7), .execute 0, .reply 0, .reply 1, .resolve 1 (.number 8)] .start).map
        World.completions = some [⟨0, "m", .number 7⟩, ⟨1, "m", .number 8⟩] ∧
    (run (step sampleJson) [.process 0 "m", .execute 0, .reply 0, .resolve 0 (.number 7),
      .fail 0 "timeout", .execute 0, .reply 0, .process 0 "m", .execute 1, .reply 1,
      .resolve 1 (.number 8)] .start).map World.completions =
        some [⟨0, "m", .number 7⟩, ⟨1, "m", .number 8⟩] ∧
    (run (step sampleJson) [.process 0 "m", .execute 0, .reply 0, .resolve 0 (.text "5"),
      .execute 0, .reply 0, .process 0 "m", .execute 1, .reply 1] .start).map
        (fun w => w.calls.map Call.stage) =
        some [.returned (.success (.text "5")), .returned (.success (.number 5))] := by
  decide +kernel

end Credence.Consumer
