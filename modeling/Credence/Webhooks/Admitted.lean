import Credence.ProofKit.Lists
import Credence.ProofKit.Runs
import Credence.Webhooks.Admission
import Mathlib.Tactic.Linarith

/-! Which webhooks are admitted where no name has a colon. -/

namespace Credence.Webhooks

open Js Crypto ProofKit

def Webhook.Plain (webhook : Webhook) : Prop :=
  ':' ∉ webhook.tenantId.toList ∧ ':' ∉ webhook.eventId.toList

instance (webhook : Webhook) : Decidable webhook.Plain := inferInstanceAs (Decidable (_ ∧ _))

/-- The tenant, the event, the timestamp and the bytes of the body are the same. -/
structure Webhook.Same (webhook other : Webhook) : Prop where
  tenantId : webhook.tenantId = other.tenantId
  eventId : webhook.eventId = other.eventId
  timestamp : webhook.timestamp = other.timestamp
  body : bodyBytes webhook.rawBody = bodyBytes other.rawBody

variable {env : Env}

theorem signingMaterial_eq (webhook : Webhook) : signingMaterial env webhook =
    Buffer.ofUtf8 "v1" ++ Buffer.colon :: (Buffer.ofUtf8 webhook.tenantId ++ Buffer.colon ::
      (Buffer.ofUtf8 webhook.eventId ++ Buffer.colon ::
        (Buffer.ofUtf8 (env.numbers.text webhook.timestamp) ++ Buffer.colon ::
          bodyBytes webhook.rawBody))) := by
  simp only [signingMaterial, Buffer.ofUtf8_append, Buffer.ofUtf8_colon, List.append_assoc,
    List.cons_append, List.nil_append]

variable {webhook : Webhook} {records : Records} {i : Nat} {last : AdmissionRecord}

/-- Without colons in them, the parts can be read from the text that is signed. -/
theorem signingMaterial_inj {other : Webhook} (hp : webhook.Plain) (ho : other.Plain)
    (h : signingMaterial env webhook = signingMaterial env other) :
    webhook.tenantId = other.tenantId ∧ webhook.eventId = other.eventId ∧
      env.numbers.text webhook.timestamp = env.numbers.text other.timestamp ∧
      bodyBytes webhook.rawBody = bodyBytes other.rawBody := by
  have hc : ∀ text : String, ':' ∉ text.toList → Buffer.colon ∉ Buffer.ofUtf8 text :=
    fun _ => Buffer.colon_notMem_ofUtf8
  rw [signingMaterial_eq, signingMaterial_eq] at h
  have hv := hc "v1" (by decide)
  obtain ⟨ht, hr⟩ := first_part_eq (hc _ hp.1) (hc _ ho.1)
    (first_part_eq hv hv h).2
  obtain ⟨he, hr⟩ := first_part_eq (hc _ hp.2) (hc _ ho.2) hr
  obtain ⟨hTime, hb⟩ := first_part_eq (hc _ (env.numbers.plain _))
    (hc _ (env.numbers.plain _)) hr
  exact ⟨Buffer.ofUtf8_injective ht, Buffer.ofUtf8_injective he, Buffer.ofUtf8_injective hTime, hb⟩

theorem isInt_iff {q : ℚ} : q.isInt = true ↔ q = q.num := by
  rw [Rat.isInt, beq_iff_eq]
  exact ⟨fun h => (Rat.coe_int_num_of_den_eq_one h).symm, fun h => h ▸ Rat.den_intCast _⟩

theorem eq_intCast_of_safe {timestamp : Number} (h : timestamp.isSafeInteger = true) :
    ∃ n : Int, timestamp = .finite n ∧ n.natAbs < 1000000000000000000000 := by
  cases timestamp with
  | nan => cases h
  | infinity => cases h
  | finite q =>
    simp only [Number.isSafeInteger, Bool.and_eq_true, decide_eq_true_eq] at h
    exact ⟨q.num, congrArg Number.finite (isInt_iff.mp h.1), by omega⟩

section

variable {input : AdmissionInput}

theorem verify_ok (h : verifyIncomingSignature env input = .ok ()) :
    input.timestamp.isSafeInteger = true ∧ suppliedBytes input.signature =
        env.hmac.digest input.secret (signingMaterial env input.toWebhook) := by
  simp only [verifyIncomingSignature, bind, Except.bind] at h
  split at h
  · cases h
  split at h
  · cases h
  next ht =>
  split at h
  · cases h
  next hs =>
  simp only [signIncomingWebhook, if_neg hs, Buffer.ofHex_toHex] at h
  split at h
  · cases h
  next hu =>
  simp only [not_or, Bool.not_eq_false] at ht
  exact ⟨ht.1, not_not.mp hu⟩

theorem fresh_ok {timestamp toleranceSeconds : Number} {nowSeconds : Int}
    (h : validateFreshness timestamp nowSeconds toleranceSeconds = .ok ()) :
    ∃ tolerance, toleranceSeconds = .finite tolerance ∧
      outOfRange nowSeconds tolerance timestamp = false := by
  simp only [validateFreshness, bind, Except.bind] at h
  split at h
  · cases h
  cases toleranceSeconds with
  | nan => cases h
  | infinity => cases h
  | finite tolerance =>
    simp only at h
    split at h
    · cases h
    split at h
    · cases h
    next hr => exact ⟨tolerance, rfl, Bool.eq_false_of_not_eq_true hr⟩

theorem fresh_window {timestamp tolerance checkedAt : ℚ}
    (h : outOfRange (checkedAt / 1000).floor tolerance (.finite timestamp) = false) :
    (timestamp - tolerance) * 1000 ≤ checkedAt ∧
      checkedAt < (timestamp + tolerance + 1) * 1000 := by
  simp only [outOfRange, decide_eq_false_iff_not, not_or, not_lt] at h
  have hf := Rat.floor_le (checkedAt / 1000)
  have hn := @Rat.lt_floor (checkedAt / 1000)
  constructor <;> linarith

variable {ttlMs toleranceSeconds : Number} {now : ℚ} {nowSeconds : Int} {records : Records}

inductive Admits (env : Env) (ttlMs : Number) (now : ℚ) (input : AdmissionInput) (nowSeconds : Int)
    (toleranceSeconds : Number) (records : Records) :
    Except WebhookAdmissionError AdmissionResult × Records → Prop
  | refused (error : WebhookAdmissionError) :
    Admits env ttlMs now input nowSeconds toleranceSeconds records (.error error, records)
  | known {result : AdmissionResult} (hOutcome : result.outcome ≠ .accepted) :
    Admits env ttlMs now input nowSeconds toleranceSeconds records (.ok result, purge now records)
  | accepted {record : AdmissionRecord}
    (hVerified : verifyIncomingSignature env input = .ok ())
    (hFresh : validateFreshness input.timestamp nowSeconds toleranceSeconds = .ok ())
    (hNone : Map.get (storeKey input.tenantId input.eventId) (purge now records) = none)
    (hExpires : record.expiresAt = ttlMs.addTo now) :
    Admits env ttlMs now input nowSeconds toleranceSeconds records (.ok ⟨.accepted, record⟩,
      Map.set (storeKey input.tenantId input.eventId) record (purge now records))

theorem admits_admitIncomingWebhook : Admits env ttlMs now input nowSeconds toleranceSeconds records
    (admitIncomingWebhook env ttlMs now input nowSeconds toleranceSeconds records) := by
  unfold admitIncomingWebhook
  cases hv : verifyIncomingSignature env input with
  | error error => exact .refused error
  | ok =>
    cases hf : validateFreshness input.timestamp nowSeconds toleranceSeconds with
    | error error => exact .refused error
    | ok =>
      simp only [bind, Except.bind, claim]
      cases hg : Map.get (storeKey input.tenantId input.eventId) (purge now records) with
      | none => exact .accepted hv hf hg rfl
      | some => exact .known (by dsimp only; split <;> simp)

end

/-! ### Runs of calls -/

/-- The lifetime of the records, the tolerance for timestamps and the secret that is shared with the
sender. -/
structure Config where
  ttlMs : Number
  toleranceSeconds : Number
  secret : String

/-- A call of anyone. The clock is read for the timestamp and once more by the store. -/
structure Call where
  checkedAt : ℚ
  claimedAt : ℚ
  webhook : Webhook
  signature : String

def Call.input (config : Config) (call : Call) : AdmissionInput :=
  ⟨call.webhook, call.signature, config.secret⟩

def Call.key (call : Call) : String := storeKey call.webhook.tenantId call.webhook.eventId

structure World where
  records : Records
  results : List (Call × Except WebhookAdmissionError AdmissionResult)

def World.start : World := ⟨[], []⟩

def step (env : Env) (config : Config) (call : Call) (w : World) : Option World :=
  let (result, records) := admitIncomingWebhook env config.ttlMs call.claimedAt (call.input config)
    (call.checkedAt / 1000).floor config.toleranceSeconds w.records
  some ⟨records, w.results ++ [(call, result)]⟩

def World.Accepts (w : World) (i : Nat) (call : Call) (record : AdmissionRecord) : Prop :=
  w.results[i]? = some (call, .ok ⟨.accepted, record⟩)

/-- The clock does not go back, and the store reads it at most `lag` after the timestamp has been
checked. -/
structure InTime (lag : ℚ) (call : Call) (w : World) : Prop where
  later : ∀ entry ∈ w.results, entry.1.claimedAt ≤ call.checkedAt
  forward : call.checkedAt ≤ call.claimedAt
  lag : call.claimedAt ≤ call.checkedAt + lag

instance (lag : ℚ) (call : Call) (w : World) : Decidable (InTime lag call w) :=
  decidable_of_iff ((∀ entry ∈ w.results, entry.1.claimedAt ≤ call.checkedAt) ∧
      call.checkedAt ≤ call.claimedAt ∧ call.claimedAt ≤ call.checkedAt + lag)
    ⟨fun h => ⟨h.1, h.2.1, h.2.2⟩, fun h => ⟨h.later, h.forward, h.lag⟩⟩

/-- A record lives longer than a timestamp can be fresh: twice the tolerance, a second, and the time
within a call. -/
def Config.Outlasts (config : Config) (lag : ℚ) : Prop :=
  match config.ttlMs, config.toleranceSeconds with
  | .finite ttlMs, .finite tolerance => (2 * tolerance + 1) * 1000 + lag < ttlMs
  | .infinity negative, _ => negative = false
  | _, _ => True

/-! ### Records and acceptances -/

theorem isAtMost_mono {n : Number} {a b : ℚ} (h : n.isAtMost a = true) (hl : a ≤ b) :
    n.isAtMost b = true := by
  cases n with
  | nan => exact h
  | infinity => exact h
  | finite => exact decide_eq_true (le_trans (of_decide_eq_true h) hl)

theorem nodup_purge (now : ℚ) (h : Map.Nodup records) : Map.Nodup (purge now records) :=
  h.sublist (List.filter_sublist.map Prod.fst)

theorem get_purge (h : Map.Nodup records) (now : ℚ) (key : String) :
    Map.get key (purge now records) =
      (Map.get key records).filter fun record => !record.expiresAt.isAtMost now :=
  Map.get_filter (fun record : AdmissionRecord => !record.expiresAt.isAtMost now) h key

theorem World.Accepts.of_append {w : World} {call next : Call} {record : AdmissionRecord}
    {result : Except WebhookAdmissionError AdmissionResult}
    (h : World.Accepts ⟨records, w.results ++ [(next, result)]⟩ i call record) :
    w.Accepts i call record ∨
      (i = w.results.length ∧ next = call ∧ result = .ok ⟨.accepted, record⟩) := by
  rcases getElem?_concat_eq_some_iff.mp h with ho | ⟨hl, he⟩
  · exact .inl ho
  · cases he
    exact .inr ⟨hl, rfl, rfl⟩

/-- The record of an accepted call is in the store, or it has expired before some call. -/
def Lasts (w : World) (call : Call) (record : AdmissionRecord) : Prop :=
  Map.get call.key w.records = some record ∨
    ∃ entry ∈ w.results, record.expiresAt.isAtMost entry.1.claimedAt = true

/-- What holds of an accepted call by itself. -/
structure Passed (env : Env) (config : Config) (call : Call) (record : AdmissionRecord) : Prop where
  verified : verifyIncomingSignature env (call.input config) = .ok ()
  fresh : validateFreshness call.webhook.timestamp (call.checkedAt / 1000).floor
    config.toleranceSeconds = .ok ()
  expires : record.expiresAt = config.ttlMs.addTo call.claimedAt

/-- What was accepted passed the checks, and its key again only after it expired. -/
structure Ok (env : Env) (config : Config) (lag : ℚ) (w : World) : Prop where
  nodup : Map.Nodup w.records
  passed : ∀ {i call record}, w.Accepts i call record → Passed env config call record
  lasts : ∀ {i call record}, w.Accepts i call record → Lasts w call record
  spaced : ∀ {i j call other record next}, w.Accepts i call record → w.Accepts j other next →
    i < j → call.key = other.key → record.expiresAt.isAtMost other.claimedAt = true
  timely : ∀ entry ∈ w.results, entry.1.checkedAt ≤ entry.1.claimedAt ∧
    entry.1.claimedAt ≤ entry.1.checkedAt + lag

theorem Ok.start (env : Env) (config : Config) (lag : ℚ) : Ok env config lag .start where
  nodup := List.nodup_nil
  passed h := by cases h
  lasts h := by cases h
  spaced h := by cases h
  timely _ h := by cases h

variable {config : Config} {lag : ℚ} {w : World} {call next : Call} {record : AdmissionRecord}
  {result : Except WebhookAdmissionError AdmissionResult}

theorem Lasts.keep (h : Lasts w call record) :
    Lasts ⟨w.records, w.results ++ [(next, result)]⟩ call record := by
  rcases h with hg | ⟨entry, he, hex⟩
  · exact .inl hg
  · exact .inr ⟨entry, List.mem_append_left _ he, hex⟩

theorem Lasts.purge (h : Lasts w call record) (hn : Map.Nodup w.records) :
    Lasts ⟨Webhooks.purge next.claimedAt w.records, w.results ++ [(next, result)]⟩ call record := by
  rcases h with hg | ⟨entry, he, hex⟩
  · cases hl : record.expiresAt.isAtMost next.claimedAt with
    | true => exact .inr ⟨(next, result), by simp, hl⟩
    | false =>
      refine .inl ?_
      rw [get_purge hn, hg, Option.filter_some_pos (by rw [hl]; rfl)]
  · exact .inr ⟨entry, List.mem_append_left _ he, hex⟩

theorem Lasts.expired (h : Lasts w call record) (ha : Map.Nodup w.records)
    (hTime : InTime lag next w)
    (hn : Map.get call.key (Webhooks.purge next.claimedAt w.records) = none) :
    record.expiresAt.isAtMost next.claimedAt = true := by
  rcases h with hg | ⟨entry, he, hex⟩
  · rw [get_purge ha, hg, Option.filter_eq_none_iff] at hn
    simpa using hn record rfl
  · exact isAtMost_mono hex (le_trans (hTime.later entry he) hTime.forward)

section

variable (h : Ok env config lag w) (hTime : InTime lag next w)
include h hTime

theorem Ok.timely_append :
    ∀ entry ∈ w.results ++ [(next, result)], entry.1.checkedAt ≤ entry.1.claimedAt ∧
      entry.1.claimedAt ≤ entry.1.checkedAt + lag := by
  intro entry he
  rcases List.mem_append.mp he with ho | hn
  · exact h.timely entry ho
  · rw [List.mem_singleton.mp hn]
    exact ⟨hTime.forward, hTime.lag⟩

theorem Ok.aside (hn : ∀ record, result ≠ .ok ⟨.accepted, record⟩) (hb : Map.Nodup records)
    (hl : ∀ call record, Lasts w call record → Lasts ⟨records, w.results ++ [(next, result)]⟩
      call record) :
    Ok env config lag ⟨records, w.results ++ [(next, result)]⟩ := by
  have ho : ∀ {i call record},
      World.Accepts ⟨records, w.results ++ [(next, result)]⟩ i call record →
        w.Accepts i call record :=
    fun ha => ha.of_append.resolve_right fun hne => hn _ hne.2.2
  exact {
    nodup := hb
    passed := fun ha => h.passed (ho ha)
    lasts := fun ha => hl _ _ (h.lasts (ho ha))
    spaced := fun hf hs => h.spaced (ho hf) (ho hs)
    timely := h.timely_append hTime }

theorem Ok.accept (hp : Passed env config next record)
    (hn : Map.get next.key (purge next.claimedAt w.records) = none) :
    Ok env config lag ⟨Map.set next.key record (purge next.claimedAt w.records),
      w.results ++ [(next, .ok ⟨.accepted, record⟩)]⟩ where
  nodup := Map.nodup_set _ _ (nodup_purge _ h.nodup)
  passed ha := by
    rcases ha.of_append with ho | ⟨-, rfl, hr⟩
    · exact h.passed ho
    · cases hr
      exact hp
  lasts := by
    intro i call kept ha
    rcases ha.of_append with ho | ⟨-, rfl, hr⟩
    · by_cases hk : call.key = next.key
      · exact .inr ⟨_, List.mem_append_right _ List.mem_cons_self,
          (h.lasts ho).expired h.nodup hTime (hk ▸ hn)⟩
      · refine ((h.lasts ho).purge h.nodup).imp_left fun hg => ?_
        rw [Map.get_set, if_neg (Ne.symm hk)]
        exact hg
    · cases hr
      refine .inl ?_
      rw [Map.get_set_self]
  spaced := by
    intro i j call other kept last hf hs hl hk
    rcases hf.of_append with ho | ⟨rfl, -, -⟩
    · rcases hs.of_append with hb | ⟨-, rfl, -⟩
      · exact h.spaced ho hb hl hk
      · exact (h.lasts ho).expired h.nodup hTime (hk ▸ hn)
    · have hle := (List.getElem?_eq_some_iff.mp hs).1
      rw [List.length_append, List.length_singleton] at hle
      omega
  timely := h.timely_append hTime

end

variable {after : World} {calls : List Call}

theorem Ok.step (h : Ok env config lag w) (hTime : InTime lag next w)
    (hs : Webhooks.step env config next w = some after) : Ok env config lag after := by
  have ha := @admits_admitIncomingWebhook env (next.input config) config.ttlMs
    config.toleranceSeconds next.claimedAt (next.checkedAt / 1000).floor w.records
  simp only [Webhooks.step, Option.some.injEq] at hs
  generalize admitIncomingWebhook env config.ttlMs next.claimedAt (next.input config)
    (next.checkedAt / 1000).floor config.toleranceSeconds w.records = outcome at ha hs
  subst hs
  cases ha with
  | refused => exact h.aside hTime (by simp) h.nodup fun _ _ => Lasts.keep
  | known ho =>
    refine h.aside hTime ?_ (nodup_purge _ h.nodup) fun _ _ hl => hl.purge h.nodup
    rintro record hr
    cases hr
    exact ho rfl
  | accepted hv hf hn he =>
    exact h.accept hTime ⟨hv, hf, he⟩ hn

theorem Ok.run (hTime : Along (Webhooks.step env config) (InTime lag) calls .start)
    (hr : ProofKit.run (Webhooks.step env config) calls .start = some w) : Ok env config lag w :=
  run_invariant (Ok env config lag) (fun _ _ _ h hTime hs => h.step hTime hs)
    (.start env config lag) hTime hr

def presented (calls : List Call) : Set (List UInt8) :=
  {digest | ∃ call ∈ calls, suppliedBytes call.signature = digest}

theorem Webhook.Same.symm {other : Webhook} (h : webhook.Same other) : other.Same webhook :=
  ⟨h.tenantId.symm, h.eventId.symm, h.timestamp.symm, h.body.symm⟩

theorem Passed.signed {signed : Set Webhook} (h : Passed env config call record)
    (hm : call ∈ calls) (hi : env.hmac.Injective config.secret)
    (hu : env.hmac.Unforgeable config.secret (signingMaterial env '' signed)
      (presented calls)) (hp : call.webhook.Plain)
    (ha : ∀ webhook ∈ signed, webhook.Plain) :
    ∃ webhook ∈ signed, call.webhook.Same webhook := by
  obtain ⟨hc, hd⟩ := verify_ok h.verified
  obtain ⟨webhook, hw, hf⟩ := hu.signed hi ⟨call, hm, hd⟩
  obtain ⟨hg, he, ht, hb⟩ := signingMaterial_inj hp (ha webhook hw) hf.symm
  obtain ⟨n, hj, hz⟩ := eq_intCast_of_safe hc
  have hs : call.webhook.timestamp = .finite n := hj
  rw [hs] at ht
  exact ⟨webhook, hw, hg, he, hs.trans (env.numbers.only _ n hz ht.symm).symm, hb⟩

theorem Passed.lives {other : Call} (h : Passed env config call record)
    (ha : Passed env config other last)
    (hi : call.webhook.timestamp = other.webhook.timestamp)
    (ho : config.Outlasts lag) (hb : call.checkedAt ≤ call.claimedAt)
    (hl : other.claimedAt ≤ other.checkedAt + lag) :
    record.expiresAt.isAtMost other.claimedAt = false := by
  obtain ⟨n, hs, -⟩ := eq_intCast_of_safe (verify_ok h.verified).1
  have hc : call.webhook.timestamp = .finite n := hs
  obtain ⟨tolerance, ht, hf⟩ := fresh_ok h.fresh
  obtain ⟨tolerance', ht', hf'⟩ := fresh_ok ha.fresh
  obtain rfl : tolerance = tolerance' := Number.finite.inj (ht.symm.trans ht')
  rw [hc] at hf
  rw [← hi, hc] at hf'
  have hr := (fresh_window hf).1
  have he := (fresh_window hf').2
  rw [h.expires]
  unfold Config.Outlasts at ho
  rw [ht] at ho
  cases hd : config.ttlMs with
  | nan => rfl
  | infinity =>
    rw [hd] at ho
    exact ho
  | finite =>
    rw [hd] at ho
    dsimp only at ho
    refine decide_eq_false (not_le.mpr ?_)
    linarith

theorem Ok.once {j : Nat} {other : Call} (h : Ok env config lag w) (ho : config.Outlasts lag)
    (hf : w.Accepts i call record) (hs : w.Accepts j other last)
    (ha : call.webhook.Same other.webhook) : ¬ i < j := by
  intro hl
  have hk : call.key = other.key := by rw [Call.key, Call.key, ha.tenantId, ha.eventId]
  have he := h.spaced hf hs hl hk
  rw [(h.passed hf).lives (h.passed hs) ha.timestamp ho
    (h.timely _ (List.mem_of_getElem? hf)).1
    (h.timely _ (List.mem_of_getElem? hs)).2] at he
  cases he

def World.outcomes (w : World) : List (Option AdmissionOutcome) :=
  w.results.map fun entry => match entry.2 with
    | .ok result => some result.outcome
    | .error _ => none

/-- Whole numbers are written with their digits, fractions all in one way. -/
def wholeText : Number → String
  | .nan => "NaN"
  | .infinity _ => "Infinity"
  | .finite q => if q.isInt then String.ofList (intText q.num) else "fraction"

theorem wholeText_integer (n : Int) : wholeText (.finite n) = String.ofList (intText n) := by
  rw [wholeText, if_pos (isInt_iff.mpr (by rw [Rat.num_intCast])), Rat.num_intCast]

theorem wholeText_only {a : Number} {n : Int} (h : wholeText a = wholeText (.finite n)) :
    a = .finite n := by
  rw [wholeText_integer] at h
  have hd : ∀ c ∈ (wholeText a).toList, c = '-' ∨ c.isDigit = true := by
    rw [h, String.toList_ofList]
    exact fun c => mem_intText
  cases a with
  | nan => exact absurd (hd 'N' (by decide)) (by decide)
  | infinity => exact absurd (hd 'I' (by simp [wholeText])) (by decide)
  | finite =>
    rw [wholeText] at h hd
    split at h
    · next hw =>
      rw [isInt_iff.mp hw, intText_injective (String.ofList_injective h)]
    · next hp =>
      rw [if_neg hp] at hd
      exact absurd (hd 'f' (by decide)) (by decide)

theorem wholeText_plain (a : Number) : ':' ∉ (wholeText a).toList := by
  cases a with
  | nan => decide
  | infinity => simp [wholeText]
  | finite =>
    rw [wholeText]
    split
    · rw [String.toList_ofList]
      exact fun h => absurd (mem_intText h) (by decide)
    · decide

def wholeNumbers : NumberTexts where
  text := wholeText
  integer n _ := wholeText_integer n
  only _ _ _ := wholeText_only
  plain := wholeText_plain

def sampleEnv : Env := ⟨openHmac, wholeNumbers⟩

def paid (tenantId eventId : String) : Webhook := ⟨tenantId, eventId, 1000, .text "paid"⟩

end Credence.Webhooks
