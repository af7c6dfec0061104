import Credence.Lib.SsrfAddresses
import Credence.Webhooks.Delivery

/-! What a success of `deliverWebhook` says. A call that finds the event reserved reports a success
whatever becomes of the call that has reserved it. -/

namespace Credence.Webhooks.Delivery

open Js Crypto ProofKit Lib.SsrfProtection List

def Phase.isHolding : Phase → Bool
  | .reserving _ => false
  | .delivering _ _ _ _ _ | .clearing _ _ | .cleaning _ => true

/-- Some division of the payload has had a success status for each of its chunks. -/
def World.Delivered (payload : Payload) (s : World) : Prop :=
  ∃ sizeCap chunkId, (sizeCap, chunkId) ∈ s.divisions ∧
    ∀ chunk ∈ deliveries payload sizeCap chunkId, chunk ∈ s.answered

/-- No call finds the reservation of a call under way, none loses the reply to its own, the last
attempt to delete a reservation takes effect, and no call crashes while it holds one. -/
def InTurn : Action → World → Prop
  | .reserve _ _ reply, s => reply.isLost = false ∧
      (s.reserved = true → (s.calls.all fun entry => !entry.2.isHolding) = true)
  | .clear call reply, s =>
    match Map.get call s.calls with
    | some (.cleaning _) => reply.takesEffect = true
    | _ => True
  | .crash call, s => (Map.get call s.calls).all (fun phase => !phase.isHolding) = true
  | _, _ => True

instance (a : Action) (s : World) : Decidable (InTurn a s) :=
  match a with
  | .reserve _ _ _ => inferInstanceAs (Decidable (_ ∧ (_ → _)))
  | .clear call reply =>
    match hAt : Map.get call s.calls with
    | some (.cleaning _) =>
      decidable_of_iff (reply.takesEffect = true) (by simp only [InTurn, hAt])
    | some (.reserving _) | some (.delivering _ _ _ _ _) | some (.clearing _ _) | none =>
      isTrue (by simp only [InTurn, hAt])
  | .crash _ => inferInstanceAs (Decidable (_ = _))
  | .call _ _ | .respond _ _ _ => isTrue trivial

/-- A call that delivers has had a success for each earlier chunk; one that deletes its reservation
has a chunk that failed. -/
def PhaseOk (payload : Payload) (divisions : List (Nat × String)) (answered : List Payload) :
    Phase → Prop
  | .reserving _ | .cleaning _ => True
  | .delivering options results chunk rest _ =>
    (∃ chunkId sent, (options.sizeCap, chunkId) ∈ divisions ∧
      deliveries payload options.sizeCap chunkId = sent ++ chunk :: rest ∧
      ∀ earlier ∈ sent, earlier ∈ answered) ∧
    results.all DeliveryResult.success = true
  | .clearing _ results => results.all DeliveryResult.success = false

def Succeeded (outcomes : List (Nat × Outcome)) : Prop :=
  ∃ call value, (call, .returned value) ∈ outcomes ∧ value.isSuccess = true

/-- What the calls and the outcomes say was answered. -/
structure Recorded (payload : Payload) (s : World) : Prop where
  phases : ∀ {call phase}, Map.get call s.calls = some phase →
    PhaseOk payload s.divisions s.answered phase
  delivered : Succeeded s.outcomes → s.Delivered payload

structure Ok (payload : Payload) (s : World) : Prop extends Recorded payload s where
  held : s.reserved = true →
    (∃ call phase, Map.get call s.calls = some phase ∧ phase.isHolding = true) ∨
      Succeeded s.outcomes

variable {hmac : Hmac} {platform : Platform} {webhook : Webhook} {payload : Payload}
  {s t : World} {a : Action} {call : Nat}

theorem results_value (options : Options) (results : List DeliveryResult) :
    (options.value results).results = results := by
  unfold Options.value
  split
  · rfl
  · split
    · rfl
    · rfl

variable {answered rest : List Payload} {phase : Phase} {outcomes : List (Nat × Outcome)}
  {outcome : Outcome} {options : Options} {results : List DeliveryResult} {reply : Reply}
  {chunk : Payload}

theorem PhaseOk.mono {divisions more : List (Nat × String)} {further : List Payload}
    (h : PhaseOk payload divisions answered phase) (hd : divisions ⊆ more)
    (ha : answered ⊆ further) : PhaseOk payload more further phase := by
  cases phase with
  | reserving => trivial
  | cleaning => trivial
  | clearing => exact h
  | delivering =>
    obtain ⟨⟨chunkId, sent, hi, hs, he⟩, hr⟩ := h
    exact ⟨⟨chunkId, sent, hd hi, hs, fun earlier hm => ha (he earlier hm)⟩, hr⟩

theorem Recorded.mono (h : Recorded payload s) (hc : t.calls = s.calls)
    (ho : t.outcomes = s.outcomes) (hd : s.divisions ⊆ t.divisions)
    (ha : s.answered ⊆ t.answered) : Recorded payload t where
  phases := by
    intro call phase hg
    rw [hc] at hg
    exact (h.phases hg).mono hd ha
  delivered := by
    intro hs
    rw [ho] at hs
    obtain ⟨sizeCap, chunkId, hi, hh⟩ := h.delivered hs
    exact ⟨sizeCap, chunkId, hd hi, fun chunk hu => ha (hh chunk hu)⟩

theorem Recorded.set (h : Recorded payload s) (hp : PhaseOk payload s.divisions s.answered phase) :
    Recorded payload (s.go call phase) where
  phases := by
    intro other otherPhase hg
    rcases Map.get_of_set hg with ⟨-, rfl⟩ | hf
    · exact hp
    · exact h.phases hf
  delivered := h.delivered

theorem Recorded.go (h : Recorded payload s) (hp : PhaseOk payload s.divisions s.answered phase)
    (hh : phase.isHolding = true) : Ok payload (s.go call phase) where
  __ := h.set hp
  held := by
    intro _
    exact .inl ⟨call, phase, by rw [World.go, Map.get_set_self], hh⟩

theorem succeeded_append : Succeeded (outcomes ++ [(call, outcome)]) ↔
    Succeeded outcomes ∨ ∃ value, .returned value = outcome ∧ value.isSuccess = true := by
  simp [Succeeded, or_and_right, exists_or]

theorem Recorded.succeed {value : Value} (h : Recorded payload s)
    (hs : value.isSuccess = true) (hd : s.Delivered payload) :
    Ok payload (s.finish call (.returned value)) where
  phases := fun hg => h.phases (Map.get_of_delete hg).2
  delivered := fun _ => hd
  held := fun _ => .inr ⟨call, value, mem_append_right _ mem_cons_self, hs⟩

/-- A call that is the only one to rely on the reservation does not come to its end before the
reservation is deleted. -/
theorem Ok.delete (h : Ok payload s) (ho : Succeeded outcomes ↔ Succeeded s.outcomes)
    (hf : s.reserved = false ∨
      ∀ phase, Map.get call s.calls = some phase → phase.isHolding = false) :
    Ok payload { s with calls := Map.delete call s.calls, outcomes := outcomes } where
  phases := fun hg => h.phases (Map.get_of_delete hg).2
  delivered := fun hs => h.delivered (ho.mp hs)
  held := by
    intro hr
    rcases hf with hf | hf
    · cases hf.symm.trans hr
    · refine (h.held hr).imp ?_ ho.mpr
      rintro ⟨other, phase, hg, hh⟩
      refine ⟨other, phase, ?_, hh⟩
      rw [Map.get_delete, if_neg]
      · exact hg
      · rintro rfl
        cases (hf phase hg).symm.trans hh

theorem Ok.fail (h : Ok payload s)
    (ho : ∀ value, outcome = .returned value → value.isSuccess = false)
    (hf : s.reserved = false ∨
      ∀ phase, Map.get call s.calls = some phase → phase.isHolding = false) :
    Ok payload (s.finish call outcome) := by
  refine h.delete (succeeded_append.trans (or_iff_left ?_)) hf
  rintro ⟨value, hv, hs⟩
  cases (ho value hv.symm).symm.trans hs

/-- The payloads before `rest` have been answered with success. -/
structure Sent (payload : Payload) (options : Options) (s : World) (results : List DeliveryResult)
    (rest : List Payload) : Prop where
  divided : ∃ chunkId sent, (options.sizeCap, chunkId) ∈ s.divisions ∧
    deliveries payload options.sizeCap chunkId = sent ++ rest ∧
    ∀ earlier ∈ sent, earlier ∈ s.answered
  successes : results.all DeliveryResult.success = true

theorem Recorded.conclude (h : Recorded payload s)
    (hf : results.all DeliveryResult.success = false) :
    Ok payload (s.conclude call options results) := by
  rw [World.conclude, if_pos]
  · exact h.go hf rfl
  · simpa using hf

theorem success_beforeRequest {result : DeliveryResult}
    (h : beforeRequest platform webhook options = .ok (some result)) : result.success = false := by
  rw [beforeRequest] at h
  split at h
  · cases h
  · split at h
    · cases h
    · cases h
      rfl
    · split at h
      · cases h
        rfl
      · cases h

theorem Recorded.next (h : Recorded payload s) (hs : Sent payload options s results rest) :
    Ok payload (s.next call platform webhook options results rest) := by
  obtain ⟨chunkId, sent, hd, he, ha⟩ := hs.divided
  cases rest with
  | nil =>
    rw [World.next, World.conclude, if_neg]
    · refine h.succeed ?_ ⟨options.sizeCap, chunkId, hd, ?_⟩
      · rw [Value.isSuccess, results_value]
        exact hs.successes
      · rw [he, append_nil]
        exact ha
    · simpa using hs.successes
  | cons =>
    rw [World.next]
    split
    · exact h.go trivial rfl
    · next result hr =>
      refine h.conclude ?_
      rw [all_append, all_cons, success_beforeRequest hr, Bool.false_and, Bool.and_false]
    · exact h.go ⟨hs.divided, hs.successes⟩ rfl

theorem Ok.reserve {chunkId : String} (h : Ok payload s)
    (ht : InTurn (.reserve call chunkId reply) s)
    (ha : Map.get call s.calls = some (.reserving options)) :
    Ok payload (s.reserve call platform webhook payload options chunkId reply) := by
  have hi : ∀ phase, Map.get call s.calls = some phase → phase.isHolding = false := by
    intro phase hg
    rw [ha] at hg
    cases hg
    rfl
  cases reply with
  | lost => cases ht.1
  | failed => exact h.fail (by simp) (.inr hi)
  | ok =>
    rw [World.reserve]
    split
    · next hr =>
      rcases h.held hr with ⟨other, phase, hg, hh⟩ | hs
      · have hn := all_eq_true.mp (ht.2 hr) _ (Map.mem_of_get hg)
        simp [hh] at hn
      · refine h.succeed ?_ (h.delivered hs)
        rw [Value.isSuccess, results_value]
        rfl
    · have hd : Recorded payload
          { s with
            reserved := true, divisions := s.divisions ++ [(options.sizeCap, chunkId)] } :=
        h.toRecorded.mono rfl rfl (subset_append_left _ _) fun _ hm => hm
      refine hd.next ⟨⟨chunkId, [], ?_, (nil_append _).symm, by simp⟩, rfl⟩
      exact mem_append_right _ mem_cons_self

theorem Recorded.answer (h : Recorded payload s) {answer : Answer}
    (hw : (if answer.isAcknowledged then { s with answered := s.answered ++ [chunk] } else s) =
      t) : Recorded payload t ∧ t.calls = s.calls := by
  split at hw
  · subst hw
    exact ⟨h.mono rfl rfl (fun _ hm => hm) (subset_append_left _ _), rfl⟩
  · subst hw
    exact ⟨h, rfl⟩

theorem isAcknowledged_attempt {answer : Answer} {code : Nat}
    (h : attempt hmac webhook answer = .ok code) : answer.isAcknowledged = true := by
  cases answer with
  | failed =>
    rw [attempt] at h
    split at h
    · cases h
    · cases h
  | status =>
    rw [attempt] at h
    split at h
    · next ho => exact ho
    · split at h
      · cases h
      · cases h

theorem Ok.respond {attempts : Nat} {answer : Answer} {retry : Bool} (h : Ok payload s)
    (ha : Map.get call s.calls = some (.delivering options results chunk rest attempts)) :
    Ok payload (s.respond call hmac platform webhook options results chunk rest attempts answer
      retry) := by
  obtain ⟨⟨chunkId, sent, hd, he, hs⟩, hb⟩ := h.phases ha
  rw [World.respond]
  cases ht : attempt hmac webhook answer with
  | ok =>
    simp only [isAcknowledged_attempt ht, if_true]
    have hr : Recorded payload { s with answered := s.answered ++ [chunk] } :=
      (h.toRecorded.answer (if_pos (isAcknowledged_attempt ht))).1
    refine hr.next ⟨⟨chunkId, sent ++ [chunk], hd, ?_, ?_⟩, ?_⟩
    · rw [he, append_assoc, singleton_append]
    · intro earlier hm
      rcases mem_append.mp hm with ho | hn
      · exact mem_append_left _ (hs earlier ho)
      · exact mem_append_right _ hn
    · rw [all_append, hb]
      rfl
  | error =>
    generalize hw : (if answer.isAcknowledged then
      { s with answered := s.answered ++ [chunk] } else s) = later
    obtain ⟨hr, hc⟩ := h.toRecorded.answer hw
    simp only
    split
    · have hl : Map.get call later.calls =
          some (.delivering options results chunk rest attempts) := by
        rw [hc]
        exact ha
      have hp := hr.phases hl
      exact hr.go hp rfl
    · refine hr.conclude ?_
      rw [all_append, hb]
      rfl

theorem Recorded.clear (h : Recorded payload s) (reply : Reply) :
    Recorded payload (s.clear reply) := by
  rw [World.clear]
  split
  · exact h.mono rfl rfl (fun _ hm => hm) fun _ hm => hm
  · exact h

section

variable (h : Ok payload s)
include h

theorem Ok.clear (he : reply.takesEffect = true) :
    Ok payload (s.clear reply) ∧ (s.clear reply).reserved = false := by
  refine ⟨⟨h.toRecorded.clear reply, ?_⟩, ?_⟩
  · simp [World.clear, he]
  · simp [World.clear, he]

theorem Ok.clearing (ha : Map.get call s.calls = some (.clearing options results)) :
    Ok payload (s.cleared call reply (.returned (options.value results))
      fun error s => s.go call (.cleaning error)) := by
  cases reply with
  | ok =>
    obtain ⟨hc, hf⟩ := h.clear (show Reply.ok.takesEffect = true by rfl)
    refine hc.fail ?_ (.inl hf)
    intro value hv
    cases hv
    rw [Value.isSuccess, results_value]
    exact h.phases ha
  | lost message => exact (h.toRecorded.clear (.lost message)).go trivial rfl
  | failed message => exact (h.toRecorded.clear (.failed message)).go trivial rfl

theorem Ok.cleaning {error : Thrown} (he : reply.takesEffect = true) :
    Ok payload (s.cleared call reply (.threw error)
      fun error s => s.finish call (.threw error)) := by
  obtain ⟨hc, hf⟩ := h.clear he
  cases reply with
  | ok | lost message => exact hc.fail (by simp) (.inl hf)
  | failed => cases he

theorem Ok.enter (hn : Map.get call s.calls = none) :
    Ok payload (s.go call (.reserving options)) where
  __ := h.set (show PhaseOk _ _ _ (.reserving options) from trivial)
  held := by
    intro hr
    rcases h.held hr with ⟨other, phase, hg, hh⟩ | hs
    · refine .inl ⟨other, phase, ?_, hh⟩
      rw [World.go, Map.get_set, if_neg]
      · exact hg
      · rintro rfl
        rw [hn] at hg
        cases hg
    · exact .inr hs

theorem Ok.step (ht : InTurn a s)
    (hs : Delivery.step hmac platform webhook payload a s = some t) : Ok payload t := by
  cases a with simp only [Delivery.step] at hs
  | call =>
    split at hs
    · next hn =>
      cases hs
      exact h.enter hn
    · cases hs
  | reserve =>
    split at hs
    · next ha =>
      cases hs
      exact h.reserve ht ha
    · cases hs
  | respond =>
    split at hs
    · next ha =>
      cases hs
      exact h.respond ha
    · cases hs
  | clear =>
    split at hs
    · next ha =>
      cases hs
      exact h.clearing ha
    · next ha =>
      cases hs
      simp only [InTurn, ha] at ht
      exact h.cleaning ht
    · cases hs
  | crash =>
    split at hs
    · cases hs
      exact h.delete Iff.rfl (.inr fun phase hg => by simpa [InTurn, hg] using ht)
    · cases hs

end

def World.start : World := ⟨false, [], [], [], []⟩

theorem Ok.start : Ok payload World.start where
  phases := by
    intro call phase hg
    cases hg
  delivered := by
    rintro ⟨call, value, hm, hs⟩
    cases hm
  held := by
    intro hr
    cases hr

structure Reachable (hmac : Hmac) (platform : Platform) (webhook : Webhook) : Prop where
  secret : webhook.secret ≠ ""
  host : checkHostBlocked platform webhook.url = some .allowed
  pin : validateServerCertificatePin hmac "placeholder_actual_cert"
    (webhook.pinnedServerCertSha256.getD "") = none

theorem Reachable.beforeRequest (h : Reachable hmac platform webhook)
    (ha : options.maxAttempts ≠ 0) :
    Delivery.beforeRequest platform webhook options = .ok none := by
  simp [Delivery.beforeRequest, h.secret, h.host, ha]

theorem Reachable.attempt (h : Reachable hmac platform webhook) :
    Delivery.attempt hmac webhook (.status 200) = .ok 200 := by
  simp [Delivery.attempt, isOk, h.pin]

def allAnswered (call : Nat) (chunks : List Payload) : List Action :=
  chunks.map fun _ => .respond call (.status 200) false

def World.Delivers (s : World) (call : Nat) : Prop :=
  ∃ value, (call, .returned value) ∈ s.outcomes ∧ value.isSuccess = true ∧ value.isSkipped = false

theorem run_allAnswered (payload : Payload) (call : Nat)
    (hr : Reachable hmac platform webhook) (ha : options.maxAttempts ≠ 0)
    (chunks : List Payload) (results : List DeliveryResult)
    (hs : results.all DeliveryResult.success = true)
    (hk : results.any DeliveryResult.skipped = false) (s : World) :
    ∃ u, run (step hmac platform webhook payload) (allAnswered call chunks)
      (s.next call platform webhook options results chunks) = some u ∧ u.Delivers call := by
  induction chunks generalizing s results with
  | nil =>
    refine ⟨_, rfl, options.value results, ?_, ?_, ?_⟩
    · rw [World.next, World.conclude, if_neg]
      · exact mem_append_right _ mem_cons_self
      · simpa using hs
    · rw [Value.isSuccess, results_value, hs]
    · rw [Value.isSkipped, results_value, hk]
  | cons chunk rest ih =>
    have hs' : (results ++ [delivered webhook 200 1]).all DeliveryResult.success = true := by
      rw [all_append, hs]
      rfl
    have hb : (results ++ [delivered webhook 200 1]).any DeliveryResult.skipped = false := by
      rw [any_append, hk]
      rfl
    obtain ⟨u, hu, hd⟩ := ih _ hs' hb
      { s.go call (.delivering options results chunk rest 1) with
        answered := s.answered ++ [chunk] }
    refine ⟨u, run_cons.mpr ⟨_, ?_, hu⟩, hd⟩
    rw [World.next, hr.beforeRequest ha]
    simp only [step, World.go, Map.get_set, if_true]
    rw [World.respond, hr.attempt]
    rfl

theorem exists_delivery (hr : Reachable hmac platform webhook)
    (ha : options.maxAttempts ≠ 0) (hf : s.reserved = false)
    (hn : Map.get call s.calls = none) :
    ∃ acts u, run (step hmac platform webhook payload) acts s = some u ∧ u.Delivers call := by
  obtain ⟨u, hu, hd⟩ := run_allAnswered payload call hr ha
    (deliveries payload options.sizeCap "") [] rfl rfl
    { s.go call (.reserving options) with
      reserved := true, divisions := s.divisions ++ [(options.sizeCap, "")] }
  refine ⟨.call call options :: .reserve call "" .ok ::
    allAnswered call (deliveries payload options.sizeCap ""), u, ?_, hd⟩
  refine run_cons.mpr ⟨s.go call (.reserving options), ?_, run_cons.mpr ⟨_, ?_, hu⟩⟩
  · simp only [step, hn]
  · simp only [step, World.go, Map.get_set, if_true, World.reserve, hf, Bool.false_eq_true,
      if_false]

/-- Where calls take turns, a success is returned only after the receiver has answered every chunk
with a success status, and an event with no call under way and no success can be delivered by the
next call. -/
theorem successes_delivered {acts : List Action}
    (hTurns : Along (step hmac platform webhook payload) InTurn acts World.start)
    (hRun : run (step hmac platform webhook payload) acts World.start = some s) :
    (∀ call value, (call, .returned value) ∈ s.outcomes → value.isSuccess = true →
      s.Delivered payload) ∧
    (s.calls = [] → (∀ call value, (call, .returned value) ∈ s.outcomes → value.isSuccess = false) →
      Reachable hmac platform webhook → ∀ call (options : Options), options.maxAttempts ≠ 0 →
      ∃ more u, run (step hmac platform webhook payload) more s = some u ∧ u.Delivers call) := by
  have ho : Ok payload s :=
    run_invariant (Ok payload) (fun _ _ _ h ht hb => h.step ht hb) Ok.start hTurns hRun
  refine ⟨?_, ?_⟩
  · intro call value hm hs
    exact ho.delivered ⟨call, value, hm, hs⟩
  · intro hi hf hr call options ha
    have hc : s.reserved = false := by
      cases he : s.reserved with
      | false => rfl
      | true =>
        rcases ho.held he with ⟨other, phase, hg, -⟩ | ⟨other, value, hm, hs⟩
        · rw [hi] at hg
          cases hg
        · rw [hf other value hm] at hs
          cases hs
    refine exists_delivery hr ha hc ?_
    rw [hi]
    rfl

/-- The delivery is reserved and no call goes on with it. -/
structure Abandoned (answered : List Payload) (s : World) : Prop where
  reserved : s.reserved = true
  idle : ∀ {call phase}, Map.get call s.calls = some phase → phase.isHolding = false
  same : s.answered = answered

theorem Abandoned.delete (h : Abandoned answered s) : Abandoned answered
      { s with calls := Map.delete call s.calls, outcomes := outcomes } where
  __ := h
  idle := by
    intro other phase hg
    exact h.idle (Map.get_of_delete hg).2

theorem Abandoned.step (h : Abandoned answered s)
    (hs : Delivery.step hmac platform webhook payload a s = some t) : Abandoned answered t := by
  cases a with simp only [Delivery.step] at hs
  | call =>
    split at hs
    · cases hs
      refine ⟨h.reserved, ?_, h.same⟩
      intro other phase hg
      rcases Map.get_of_set hg with ⟨-, rfl⟩ | hf
      · rfl
      · exact h.idle hf
    · cases hs
  | reserve call chunkId reply =>
    split at hs
    · cases hs
      cases reply with
      | ok =>
        rw [World.reserve, if_pos h.reserved]
        exact h.delete
      | lost =>
        have hb : { s with reserved := true } = s := by rw [← h.reserved]
        rw [World.reserve, hb]
        exact h.delete
      | failed => exact h.delete
    · cases hs
  | respond =>
    split at hs
    · next ha => cases h.idle ha
    · cases hs
  | clear =>
    split at hs
    · next ha => cases h.idle ha
    · next ha => cases h.idle ha
    · cases hs
  | crash =>
    split at hs
    · cases hs
      exact h.delete
    · cases hs

/-- After a crash of the call that has reserved it, an event is never sent again. -/
theorem Abandoned.run {acts : List Action} (h : Abandoned answered s)
    (hr : ProofKit.run (Delivery.step hmac platform webhook payload) acts s = some t) :
    t.answered = answered :=
  (run_invariant (Abandoned answered) (fun _ _ _ h _ hs => h.step hs) h
    (along_anyAction acts s) hr).same

def oneDomain : Platform := { twoUrls with
    parse := fun url =>
      if url = "https://hooks.example/bonds" then some (.domain "hooks.example".toList) else none }

def bondHook : Webhook := ⟨"wh-1", "https://hooks.example/bonds", "s3cret", none, none⟩

def twoItems : Payload where
  event := .bondCreated
  timestamp := "2026-01-01T00:00:00.000Z"
  data := .list [.bool true, .bool false]
  chunkId := none
  chunkIndex := none
  totalChunks := none
  payloadTruncated := none
  paginationUrl := none

def capped : Options := ⟨some 60, 4, false⟩

def hookStep : Action → World → Option World := step openHmac oneDomain bondHook twoItems

def reserves (call : Nat) : List Action := [.call call capped, .reserve call "c" .ok]

def refused : List Action :=
  reserves 1 ++ [.respond 1 (.status 200) false, .respond 1 (.status 404) false, .clear 1 .ok]

def retried : List Action :=
  refused ++ reserves 2 ++ [.respond 2 (.status 200) false, .respond 2 (.status 503) true,
    .respond 2 (.status 200) false] ++ reserves 3

def World.report (s : World) : List (Nat × Outcome) × Nat := (s.outcomes, s.calls.length)

theorem bondHook_reachable : Reachable openHmac oneDomain bondHook where
  secret := by decide
  host := by decide +kernel
  pin := by decide +kernel

def notFound : DeliveryResult :=
  ⟨"wh-1", false, false, some 404, some "HTTP 404", 1, some "HTTP_404"⟩

def partly : Value := .many [delivered bondHook 200 1, notFound]

def complete : Value := .many [delivered bondHook 200 1, delivered bondHook 200 2]

def skips : Value := .single (alreadyReserved bondHook)

theorem deliver_refused :
    (run hookStep refused World.start).map World.report = some ([(1, .returned partly)], 0) := by
  decide +kernel

theorem deliver_retried : (run hookStep retried World.start).map World.report =
    some ([(1, .returned partly), (2, .returned complete), (3, .returned skips)], 0) := by
  decide +kernel

theorem refused_inTurn : Along hookStep InTurn refused World.start := by decide +kernel

theorem retried_inTurn : Along hookStep InTurn retried World.start := by decide +kernel

theorem successes_delivered_retried : (∃ s more u, run hookStep refused World.start = some s ∧
      run hookStep more s = some u ∧ u.Delivers 2) ∧
    ∃ s, run hookStep retried World.start = some s ∧ (3, .returned skips) ∈ s.outcomes ∧
      s.Delivered twoItems := by
  refine ⟨?_, ?_⟩
  · obtain ⟨s, hu, hr⟩ := Option.map_eq_some_iff.mp deliver_refused
    rw [World.report, Prod.mk.injEq] at hr
    have hf : ∀ call value, (call, .returned value) ∈ s.outcomes → value.isSuccess = false := by
      intro call value hm
      rw [hr.1, mem_singleton] at hm
      cases hm
      rfl
    obtain ⟨more, u, ha, hd⟩ := (successes_delivered refused_inTurn hu).2
      (length_eq_zero_iff.mp hr.2) hf bondHook_reachable 2 capped (by decide)
    exact ⟨s, more, u, hu, ha, hd⟩
  · obtain ⟨s, hu, hr⟩ := Option.map_eq_some_iff.mp deliver_retried
    rw [World.report, Prod.mk.injEq] at hr
    have hs : (3, .returned skips) ∈ s.outcomes := by simp [hr.1]
    exact ⟨s, hu, hs, (successes_delivered retried_inTurn hu).1 3 skips hs (by decide)⟩

def overlapping : List Action := reserves 1 ++ reserves 2

def abandoned : List Action := reserves 1 ++ [.crash 1] ++ reserves 2

theorem run_overlapping :
    (run hookStep overlapping World.start).map (fun s => (s.outcomes, s.answered.length)) =
      some ([(2, .returned skips)], 0) := by
  decide +kernel

theorem run_abandoned : (run hookStep abandoned World.start).map
        (fun s => (s.report, s.reserved, s.answered.length)) =
      some (([(2, .returned skips)], 0), true, 0) := by
  decide +kernel

/-- A success is returned although the receiver has answered nothing; after the crash it never
will. -/
theorem success_without_delivery :
    (∃ s, run hookStep overlapping World.start = some s ∧ (2, .returned skips) ∈ s.outcomes ∧
      skips.isSuccess = true ∧ s.answered = []) ∧
    ∃ s, run hookStep abandoned World.start = some s ∧ (2, .returned skips) ∈ s.outcomes ∧
      ∀ more t, run hookStep more s = some t → t.answered = [] := by
  refine ⟨?_, ?_⟩
  · obtain ⟨s, hu, hr⟩ := Option.map_eq_some_iff.mp run_overlapping
    rw [Prod.mk.injEq] at hr
    exact ⟨s, hu, by simp [hr.1], rfl, length_eq_zero_iff.mp hr.2⟩
  · obtain ⟨s, hu, hr⟩ := Option.map_eq_some_iff.mp run_abandoned
    simp only [World.report, Prod.mk.injEq] at hr
    obtain ⟨⟨ho, hc⟩, he, ha⟩ := hr
    have hb : Abandoned [] s := by
      refine ⟨he, ?_, length_eq_zero_iff.mp ha⟩
      intro call phase hg
      rw [length_eq_zero_iff.mp hc] at hg
      cases hg
    exact ⟨s, hu, by simp [ho], fun more t hm => hb.run hm⟩

end Credence.Webhooks.Delivery
