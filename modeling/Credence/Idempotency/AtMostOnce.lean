import Credence.Idempotency.Middleware
import Credence.ProofKit.Lists

/-! The handler runs at most once to a success in every orderly run. -/

namespace Credence.Idempotency

open Crypto ProofKit List

section

variable {β : Type}

def Phase.holds : Phase β → Bool
  | acquired | looking | found _ | running | executed _ _ => true
  | _ => false

def Phase.answered : Phase β → Bool
  | executed _ _ | replayed _ _ | refused => true
  | _ => false

def Phase.quiet : Phase β → Bool
  | running | executed _ _ | refused => false
  | _ => true

def Phase.failed : Phase β → Bool
  | executed status _ => 400 ≤ status
  | _ => false

/-- The request has set a promise that no request has been released from. -/
def World.Holds (w : World β) (n : Nat) : Prop :=
  n ∉ w.released ∧ ∃ phase, w.requests[n]? = some phase ∧ phase.holds = true

def World.Succeeded (w : World β) (n status : Nat) (body : β) : Prop :=
  w.requests[n]? = some (.executed status body) ∧ status < 400

/-- A request goes on after waiting only when no other one has the key; the row is deleted only when
there is none; `close` comes before the lookup, after a failure, or after the key is released. -/
def orderly (action : Action β) (w : World β) : Bool :=
  match action with
  | .wake _ => w.inFlight = none
  | .commit i => (w.saves[i]?).all fun save => save.status < 400 ∨ w.record.isNone
  | .close n => (w.requests[n]?).all fun phase =>
      !phase.listens ∨ n ∈ w.released ∨ phase.failed
  | _ => true

def Orderly (action : Action β) (w : World β) : Prop := orderly action w = true

instance (action : Action β) (w : World β) : Decidable (Orderly action w) :=
  inferInstanceAs (Decidable (_ = true))

/-- One request has the key; the handler that runs, or has succeeded, started last; and what a
success has released is stored. -/
structure World.Ok (caller : Caller) (w : World β) : Prop where
  released : ∀ n ∈ w.released, ∃ phase, w.requests[n]? = some phase ∧ phase.answered = true
  lock : ∀ n, w.Holds n → w.inFlight = some n
  once : w.started.Nodup
  starts : ∀ n ∈ w.started, w.requests[n]? = some .running ∨
    ∃ status body, w.requests[n]? = some (.executed status body)
  running : ∀ n, w.requests[n]? = some .running → w.started.head? = some n
  latest : ∀ n status body, w.Succeeded n status body → w.started.head? = some n
  stored : ∀ n status body, w.Succeeded n status body → n ∈ w.released → w.record.isSome = true ∧
      ∀ m : Nat, w.requests[m]? ≠ some (.found none) ∧ w.requests[m]? ≠ some .running
  saved : ∀ save ∈ w.saves, w.requests[save.request]? = some (.executed save.status save.body)
  committed : ∀ save ∈ w.saves, save.phase ≠ .issued → save.status < 400 → w.record.isSome = true
  origin : ∀ record, w.record = some record ∨
      (∃ m : Nat, w.requests[m]? = some (.found (some record))) →
    (∃ n, w.Succeeded n record.responseCode record.responseBody) ∧
      record.actorId = caller.actorId ∧ record.requestHash = caller.payloadHash
  replays : ∀ (m status : Nat) (body : β), w.requests[m]? = some (.replayed status body) →
    ∃ n, w.Succeeded n status body
  accepted : ∀ m : Nat, w.requests[m]? ≠ some .refused

namespace World.Ok

variable {caller : Caller} {w : World β}

theorem start : (World.start : World β).Ok caller where
  released := nofun
  lock := fun n ⟨_, phase, hp, _⟩ => by cases hp
  once := nodup_nil
  starts := nofun
  running := nofun
  latest := fun n status body hs => by cases hs.1
  stored := fun n status body hs => by cases hs.1
  saved := nofun
  committed := nofun
  origin := by
    rintro record (hr | ⟨m, hf⟩)
    · cases hr
    · cases hf
  replays := nofun
  accepted := nofun

variable {n m status : Nat} {phase : Phase β} {body : β} {w' : World β} {hash : TextHash}

theorem holder_unique (h : w.Ok caller) (hn : w.Holds n) (hm : w.Holds m) : n = m :=
  Option.some.inj ((h.lock n hn).symm.trans (h.lock m hm))

theorem holds (h : w.Ok caller) (hp : w.requests[n]? = some phase) (hh : phase.holds = true)
    (ha : phase.answered = false) : w.Holds n := by
  refine ⟨fun hr => ?_, phase, hp, hh⟩
  obtain ⟨phase', hp', ha'⟩ := h.released n hr
  cases hp.symm.trans hp'
  rw [ha] at ha'
  cases ha'

section

variable {n m : Nat} {phase other : Phase β} {before requests : List (Phase β)}
  (hRequests : ∀ m : Nat, requests[m]? = if n = m then some phase else before[m]?)

include hRequests

omit caller in
theorem changed_back (hg : requests[m]? = some other) :
    n = m ∧ other = phase ∨ n ≠ m ∧ before[m]? = some other := by
  rw [hRequests m] at hg
  split at hg
  · next he =>
    cases hg
    exact .inl ⟨he, rfl⟩
  · next hn => exact .inr ⟨hn, hg⟩

omit caller in
theorem changed_other (hn : n ≠ m) (hg : before[m]? = some other) : requests[m]? = some other := by
  rw [hRequests m, if_neg hn, hg]

end

theorem advance (h : w.Ok caller) {requests : List (Phase β)} {inFlight : Option Nat}
    (hRequests : ∀ m : Nat, requests[m]? = if n = m then some phase else w.requests[m]?)
    (hb : ∀ before, w.requests[n]? = some before → before.quiet = true ∧
      before.answered = false) (hq : phase.quiet = true)
    (hf : ∀ existing, phase = .found existing → existing = w.record)
    (hd : ∀ status body, phase = .replayed status body → ∃ k, w.Succeeded k status body)
    (hi : ∀ m, World.Holds { w with requests, inFlight } m → inFlight = some m) :
    World.Ok caller { w with requests, inFlight } := by
  have ho : ∀ {m : Nat} {other : Phase β}, w.requests[m]? = some other →
      (other.quiet = false ∨ other.answered = true) → requests[m]? = some other := by
    intro m other ho hk
    refine changed_other hRequests ?_ ho
    rintro rfl
    obtain ⟨hj, hp⟩ := hb other ho
    rw [hj, hp] at hk
    rcases hk with hk | hk <;> cases hk
  have hl : ∀ {m : Nat} {other : Phase β}, requests[m]? = some other → other.quiet = false →
      w.requests[m]? = some other := by
    intro m other hg hk
    rcases changed_back hRequests hg with ⟨-, rfl⟩ | ⟨-, ht⟩
    · rw [hq] at hk
      cases hk
    · exact ht
  have hu : ∀ {k status : Nat} {body : β},
      World.Succeeded { w with requests, inFlight } k status body ↔ w.Succeeded k status body :=
    ⟨fun hs => ⟨hl hs.1 rfl, hs.2⟩, fun hs => ⟨ho hs.1 (.inl rfl), hs.2⟩⟩
  refine ⟨?_, hi, h.once, ?_, ?_, ?_, ?_, ?_, h.committed, ?_, ?_, ?_⟩
  · intro m hm
    obtain ⟨other, hg, ha⟩ := h.released m hm
    exact ⟨other, ho hg (.inr ha), ha⟩
  · intro m hm
    rcases h.starts m hm with hv | ⟨status, body, hex⟩
    · exact .inl (ho hv (.inl rfl))
    · exact .inr ⟨status, body, ho hex (.inl rfl)⟩
  · intro m hv
    exact h.running m (hl hv rfl)
  · intro k status body hs
    exact h.latest k status body (hu.mp hs)
  · intro k status body hs hw
    obtain ⟨hr, hn⟩ := h.stored k status body (hu.mp hs) hw
    refine ⟨hr, fun m => ⟨fun hg => ?_, fun hg => (hn m).2 (hl hg rfl)⟩⟩
    rcases changed_back hRequests hg with ⟨-, he⟩ | ⟨-, ht⟩
    · rw [← hf none he.symm] at hr
      cases hr
    · exact (hn m).1 ht
  · intro save hSave
    exact ho (h.saved save hSave) (.inl rfl)
  · rintro record hr
    have hx : w.record = some record ∨
        ∃ m : Nat, w.requests[m]? = some (.found (some record)) := by
      rcases hr with hr | ⟨m, hg⟩
      · exact .inl hr
      · rcases changed_back hRequests hg with ⟨-, he⟩ | ⟨-, ht⟩
        · exact .inl (hf _ he.symm).symm
        · exact .inr ⟨m, ht⟩
    obtain ⟨⟨k, hs⟩, hc⟩ := h.origin record hx
    exact ⟨⟨k, hu.mpr hs⟩, hc⟩
  · intro m status body hg
    have hy : ∃ k, w.Succeeded k status body := by
      rcases changed_back hRequests hg with ⟨-, he⟩ | ⟨-, ht⟩
      · exact hd status body he.symm
      · exact h.replays m status body ht
    obtain ⟨k, hs⟩ := hy
    exact ⟨k, hu.mpr hs⟩
  · intro m hg
    exact h.accepted m (hl hg rfl)

omit caller in
theorem holds_cases (w : World β) (hh : w'.Holds m) (hr : w'.released = w.released)
    (hRequests : ∀ m : Nat, w'.requests[m]? = if n = m then some phase else w.requests[m]?) :
    n = m ∧ phase.holds = true ∨ n ≠ m ∧ w.Holds m := by
  obtain ⟨hn, other, hg, ho⟩ := hh
  rw [hr] at hn
  rcases changed_back hRequests hg with ⟨he, rfl⟩ | ⟨hNe, hl⟩
  · exact .inl ⟨he, ho⟩
  · exact .inr ⟨hNe, hn, other, hl, ho⟩

theorem fresh (h : w.Ok caller) (hn : ∀ k status body, ¬w.Succeeded k status body) :
    w.record = none ∧ ∀ (m : Nat) (phase : Phase β), w.requests[m]? = some phase →
      (∀ record, phase ≠ .found (some record)) ∧ (∀ status body, phase ≠ .replayed status body) ∧
        phase ≠ .refused := by
  refine ⟨?_, fun m phase hg => ⟨?_, ?_, ?_⟩⟩
  · cases hr : w.record with
    | none => rfl
    | some record =>
      obtain ⟨⟨k, hs⟩, -⟩ := h.origin record (.inl hr)
      exact absurd hs (hn k _ _)
  · rintro record rfl
    obtain ⟨⟨k, hs⟩, -⟩ := h.origin record (.inr ⟨m, hg⟩)
    exact hn k _ _ hs
  · rintro status body rfl
    obtain ⟨k, hs⟩ := h.replays m status body hg
    exact hn k _ _ hs
  · rintro rfl
    exact h.accepted m hg

theorem arrive (h : w.Ok caller) : w.arrive.Ok caller := by
  have hn : ∀ before, w.requests[w.requests.length]? = some before →
      before.quiet = true ∧ before.answered = false := by
    intro before hb
    simp at hb
  rw [World.arrive]
  split
  · next previous hf =>
    refine h.advance (getElem?_concat _ _) hn rfl nofun nofun fun m hh => ?_
    rcases holds_cases w hh rfl (getElem?_concat _ _) with ⟨-, hw⟩ | ⟨-, hh⟩
    · cases hw
    · exact h.lock m hh
  · next hf =>
    refine h.advance (getElem?_concat _ _) hn rfl nofun nofun fun m hh => ?_
    rcases holds_cases w hh rfl (getElem?_concat _ _) with ⟨rfl, -⟩ | ⟨-, hh⟩
    · rfl
    · cases hf.symm.trans (h.lock m hh)

section

variable {n : Nat} {before : Phase β}

omit caller in
theorem getElem?_setPhase (hb : w.requests[n]? = some before) (phase : Phase β) (m : Nat) :
    (w.setPhase n phase).requests[m]? = if n = m then some phase else w.requests[m]? := by
  have hl : n < w.requests.length := (List.getElem?_eq_some_iff.mp hb).1
  rw [World.setPhase, getElem?_set]
  simp [hl]

theorem wake (h : w.Ok caller) {previous : Nat} (hp : w.requests[n]? = some (.waiting previous))
    (hf : w.inFlight = none) :
    World.Ok caller { w.setPhase n .acquired with inFlight := some n } := by
  have hs := getElem?_setPhase hp .acquired
  refine h.advance hs (fun before hb => ?_) rfl nofun nofun fun m hh => ?_
  · cases hp.symm.trans hb
    exact ⟨rfl, rfl⟩
  · rcases holds_cases w hh rfl hs with ⟨rfl, -⟩ | ⟨-, hh⟩
    · rfl
    · cases hf.symm.trans (h.lock m hh)

theorem lookup (h : w.Ok caller) (hp : w.requests[n]? = some before)
    (hh : before.holds = true) (hq : before.quiet = true) {phase : Phase β}
    (hn : phase = .looking ∨ phase = .found w.record) : (w.setPhase n phase).Ok caller := by
  have ha : before.answered = false := by
    cases before with
    | executed => cases hq
    | replayed => cases hh
    | refused => cases hq
    | _ => rfl
  have hs := getElem?_setPhase hp phase
  refine h.advance hs (fun before hb => ?_) ?_ ?_ ?_ fun m hh => ?_
  · cases hp.symm.trans hb
    exact ⟨hq, ha⟩
  · rcases hn with rfl | rfl <;> rfl
  · rintro existing rfl
    rcases hn with hn | hn <;> cases hn
    rfl
  · rintro status body rfl
    rcases hn with hn | hn <;> cases hn
  · rcases holds_cases w hh rfl hs with ⟨rfl, -⟩ | ⟨-, hh⟩
    · exact h.lock _ (h.holds hp ‹_› ha)
    · exact h.lock m hh

end

theorem release (h : w.Ok caller) (hp : w.requests[n]? = some phase) (ha : phase.answered = true)
    (ht : ∀ status body, w.Succeeded n status body → w.record.isSome = true) :
    (w.release n).Ok caller := by
  rw [World.release]
  split
  · exact h
  · next hn =>
    refine { h with released := ?_, lock := ?_, stored := ?_ }
    · intro m hm
      rcases mem_cons.mp hm with rfl | hm
      · exact ⟨phase, hp, ha⟩
      · exact h.released m hm
    · rintro m ⟨hr, hh⟩
      obtain ⟨hNe, hr⟩ := not_or.mp (mt mem_cons.mpr hr)
      have hf : w.inFlight = some m := h.lock m ⟨hr, hh⟩
      rw [hf, if_neg fun he => hNe (Option.some.inj he)]
    · intro k status body hs hk
      rcases mem_cons.mp hk with rfl | hk
      · have hh : w.Holds k := ⟨hn, _, hs.1, rfl⟩
        refine ⟨ht status body hs, fun m => ⟨fun hg => ?_, fun hg => ?_⟩⟩
        · cases h.holder_unique hh (h.holds hg rfl rfl)
          cases hs.1.symm.trans hg
        · cases h.holder_unique hh (h.holds hg rfl rfl)
          cases hs.1.symm.trans hg
      · exact h.stored k status body hs hk

theorem replay (h : w.Ok caller) {existing : IdempotencyRecord β}
    (hp : w.requests[n]? = some (.found (some existing))) :
    (w.proceed hash caller n (some existing)).Ok caller := by
  obtain ⟨hu, ha, hc⟩ := h.origin existing (.inr ⟨n, hp⟩)
  have hd := getElem?_setPhase hp (.replayed existing.responseCode existing.responseBody)
  have ho : (w.setPhase n
      (.replayed existing.responseCode existing.responseBody)).Ok caller := by
    refine h.advance hd (fun before hb => ?_) rfl nofun ?_ fun m hh => ?_
    · cases hp.symm.trans hb
      exact ⟨rfl, rfl⟩
    · rintro status body he
      cases he
      exact hu
    · rcases holds_cases w hh rfl hd with ⟨-, hr⟩ | ⟨-, hh⟩
      · cases hr
      · exact h.lock m hh
  rw [World.proceed, ha, hc, if_pos rfl]
  have hf := (hd n).trans (if_pos rfl)
  refine ho.release hf rfl fun status body hs => ?_
  cases hf.symm.trans hs.1

theorem handle (h : w.Ok caller) {before after : Phase β} {started : List Nat}
    {saves : List (Save β)} (hp : w.requests[n]? = some before) (hh : w.Holds n)
    (hn : ∀ k status body, ¬w.Succeeded k status body) (hc : before.answered = false)
    (ha : after = .running ∨ ∃ status body, after = .executed status body)
    (hd : started.Nodup) (hj : started.head? = some n)
    (ht : ∀ m ∈ started, m = n ∨ m ∈ w.started)
    (hl : ∀ save ∈ saves, save ∈ w.saves ∨
      save.phase = .issued ∧ save.request = n ∧ after = .executed save.status save.body) :
    World.Ok caller { w.setPhase n after with started, saves } := by
  have hq := getElem?_setPhase hp after
  have hu := (hq n).trans (if_pos rfl)
  obtain ⟨hv, hf⟩ := h.fresh hn
  have hw : ∀ {m : Nat} {other : Phase β}, w.requests[m]? = some other →
      other.answered = true → (w.setPhase n after).requests[m]? = some other := by
    intro m other hg hk
    refine changed_other hq ?_ hg
    rintro rfl
    cases hp.symm.trans hg
    cases hc.symm.trans hk
  have hb : ∀ {m : Nat} {other : Phase β}, (w.setPhase n after).requests[m]? = some other →
      other ≠ .running → (∀ status body, other ≠ .executed status body) →
      w.requests[m]? = some other := by
    intro m other hg hr hex
    rcases changed_back hq hg with ⟨-, rfl⟩ | ⟨-, ho⟩
    · obtain rfl | ⟨status, body, rfl⟩ := ha
      · exact absurd rfl hr
      · exact absurd rfl (hex status body)
    · exact ho
  have hx : ∀ {k status : Nat} {body : β},
      World.Succeeded { w.setPhase n after with started, saves } k status body → n = k := by
    intro k status body hs
    rcases changed_back hq hs.1 with ⟨he, -⟩ | ⟨-, ho⟩
    · exact he
    · exact absurd ⟨ho, hs.2⟩ (hn k status body)
  refine ⟨?_, ?_, hd, ?_, ?_, ?_, ?_, ?_, ?_, ?_, ?_, ?_⟩
  · intro m hm
    obtain ⟨other, hg, hy⟩ := h.released m hm
    exact ⟨other, hw hg hy, hy⟩
  · intro m hm
    rcases holds_cases w hm rfl hq with ⟨rfl, -⟩ | ⟨-, hm⟩
    · exact h.lock _ hh
    · exact h.lock m hm
  · intro m hm
    by_cases he : n = m
    · subst he
      obtain rfl | ⟨status, body, rfl⟩ := ha
      · exact .inl hu
      · exact .inr ⟨status, body, hu⟩
    · rcases h.starts m ((ht m hm).resolve_left (Ne.symm he)) with hr | ⟨_, _, hg⟩
      · exact .inl (changed_other hq he hr)
      · exact .inr ⟨_, _, hw hg rfl⟩
  · intro m hr
    rcases changed_back hq hr with ⟨rfl, -⟩ | ⟨hNe, ho⟩
    · exact hj
    · exact absurd (h.holder_unique hh (h.holds ho rfl rfl)) hNe
  · intro k status body hs
    cases hx hs
    exact hj
  · intro k status body hs hz
    cases hx hs
    exact absurd hz hh.1
  · intro save hSave
    rcases hl save hSave with ho | ⟨-, rfl, rfl⟩
    · exact hw (h.saved save ho) rfl
    · exact hu
  · intro save hSave hp
    rcases hl save hSave with ho | ⟨hi, -⟩
    · exact h.committed save ho hp
    · exact absurd hi hp
  · rintro record (hnone | ⟨m, hfound⟩)
    · cases hv.symm.trans hnone
    · exact absurd rfl ((hf m _ (hb hfound nofun nofun)).1 record)
  · intro m status body hg
    exact absurd rfl ((hf m _ (hb hg nofun nofun)).2.1 status body)
  · intro m hg
    exact (hf m _ (hb hg nofun nofun)).2.2 rfl

theorem execute (h : w.Ok caller) (hp : w.requests[n]? = some (.found none)) :
    (w.proceed hash caller n none).Ok caller := by
  have hh := h.holds hp rfl rfl
  refine h.handle hp hh (fun k status body hs => ?_) rfl (.inl rfl) ?_ rfl ?_
    fun save hSave => .inl hSave
  · by_cases hk : k ∈ w.released
    · exact ((h.stored k status body hs hk).2 n).1 hp
    · cases h.holder_unique hh ⟨hk, _, hs.1, rfl⟩
      cases hp.symm.trans hs.1
  · refine nodup_cons.mpr ⟨fun hn => ?_, h.once⟩
    rcases h.starts n hn with hr | ⟨status, body, he⟩
    · cases hp.symm.trans hr
    · cases hp.symm.trans he
  · exact fun m hm => mem_cons.mp hm

theorem answer (h : w.Ok caller) {saves : List (Save β)} (hp : w.requests[n]? = some .running)
    (ha : ∀ save ∈ saves, save ∈ w.saves ∨ save = ⟨n, status, body, .issued⟩) :
    World.Ok caller { w.setPhase n (.executed status body) with saves } := by
  have hh := h.running n hp
  refine h.handle hp (h.holds hp rfl rfl) (fun k status body hs => ?_) rfl
    (.inr ⟨status, body, rfl⟩) h.once hh (fun m hm => .inr hm) fun save hSave => ?_
  · cases hh.symm.trans (h.latest k status body hs)
    cases hp.symm.trans hs.1
  · refine (ha save hSave).imp_right ?_
    rintro rfl
    exact ⟨rfl, rfl, rfl⟩

theorem json (h : w.Ok caller) (hp : w.requests[n]? = some .running) :
    (w.json n status body).Ok caller := by
  have ha : ∀ save ∈ w.saves ++ World.savesOf n status body,
      save ∈ w.saves ∨ save = ⟨n, status, body, .issued⟩ := by
    intro save hSave
    refine (mem_append.mp hSave).imp_right fun hn => ?_
    rw [World.savesOf] at hn
    split at hn
    · split at hn <;> simpa using hn
    · cases hn
  have ho := h.answer hp ha
  rw [World.json]
  split
  · next hb =>
    have hh := (getElem?_setPhase hp (.executed status body) n).trans (if_pos rfl)
    refine ho.release hh rfl fun status' body' hs => ?_
    cases hh.symm.trans hs.1
    have hf : 400 ≤ status := by
      simp only [World.notCached, decide_eq_true_eq] at hb
      omega
    exact absurd hs.2 (Nat.not_lt.mpr hf)
  · exact ho

section

variable {i : Nat} {save : Save β}

section

variable (h : w.Ok caller) (hSave : w.saves[i]? = some save)
include h hSave

theorem setSave {phase : SavePhase} (ht : save.status < 400 → w.record.isSome = true) :
    World.Ok caller { w with saves := w.saves.set i { save with phase } } := by
  have hm := mem_of_getElem? hSave
  refine { h with saved := ?_, committed := ?_ }
  · intro other ho
    rcases mem_or_eq_of_mem_set ho with hl | rfl
    · exact h.saved other hl
    · exact h.saved save hm
  · intro other ho hp hs
    rcases mem_or_eq_of_mem_set ho with hl | rfl
    · exact h.committed other hl hp hs
    · exact ht hs

theorem commit (ho : Orderly (.commit i) w) : (w.commit caller i save).Ok caller := by
  have he := h.saved save (mem_of_getElem? hSave)
  simp only [Orderly, orderly, hSave, Option.all_some, decide_eq_true_eq] at ho
  by_cases ht : 400 ≤ save.status
  · have hn : w.record = none := by
      rcases ho with hb | hn
      · omega
      · exact Option.isNone_iff_eq_none.mp hn
    have ha : w.commit caller i save =
        { w with saves := w.saves.set i { save with phase := .committed } } := by
      rw [World.commit, if_pos ht, ← hn]
    rw [ha]
    exact h.setSave hSave fun hb => absurd hb (Nat.not_lt.mpr ht)
  · have hb : save.status < 400 := Nat.not_le.mp ht
    rw [World.commit, if_neg ht]
    refine { h with stored := ?_, saved := ?_, committed := ?_, origin := ?_ }
    · intro k status body hs hk
      exact ⟨rfl, (h.stored k status body hs hk).2⟩
    · intro other hc
      rcases mem_or_eq_of_mem_set hc with hl | rfl
      · exact h.saved other hl
      · exact he
    · intro other hc hp hd
      rfl
    · rintro record (hr | hf)
      · cases hr
        exact ⟨⟨save.request, he, hb⟩, rfl, rfl⟩
      · exact h.origin record (.inr hf)

theorem settle (hp : save.phase = .committed) : (w.settle i save).Ok caller := by
  have hm := mem_of_getElem? hSave
  have he := h.saved save hm
  have ht : save.status < 400 → w.record.isSome = true := h.committed save hm (by rw [hp]; nofun)
  refine (h.setSave hSave ht).release he rfl fun status body hs => ?_
  cases he.symm.trans hs.1
  exact ht hs.2

end

end

theorem close (h : w.Ok caller) (hp : w.requests[n]? = some phase) (ho : Orderly (.close n) w) :
    World.Ok caller (if phase.listens then
      ({ w with closed := n :: w.closed } : World β).release n
      else { w with closed := n :: w.closed }) := by
  have hOk : World.Ok caller { w with closed := n :: w.closed } := { h with }
  simp only [Orderly, orderly, hp, Option.all_some, decide_eq_true_eq] at ho
  split
  · next hl =>
    rcases ho with hd | hr | hf
    · rw [hl] at hd
      cases hd
    · rwa [World.release, if_pos hr]
    · cases phase with
      | executed status =>
        refine hOk.release hp rfl fun status' body' hs => ?_
        cases hp.symm.trans hs.1
        have ha : 400 ≤ status := by simpa [Phase.failed] using hf
        exact absurd hs.2 (Nat.not_lt.mpr ha)
      | _ => cases hf
  · exact hOk

theorem step {action : Action β} (h : w.Ok caller) (ho : Orderly action w)
    (hs : step hash caller action w = some w') : w'.Ok caller := by
  cases action with rw [Idempotency.step] at hs
  | arrive =>
    cases hs
    exact h.arrive
  | wake =>
    split at hs
    · next hp =>
      split at hs <;> cases hs
      exact h.wake hp (by simpa [Orderly, orderly] using ho)
    · cases hs
  | enter =>
    split at hs
    · next hp =>
      cases hs
      exact h.lookup hp rfl rfl (.inl rfl)
    · cases hs
  | read =>
    split at hs
    · next hp =>
      cases hs
      exact h.lookup hp rfl rfl (.inr rfl)
    · cases hs
  | proceed =>
    split at hs
    · next existing hp =>
      cases hs
      cases existing with
      | none => exact h.execute hp
      | some => exact h.replay hp
    · cases hs
  | json =>
    split at hs
    · next hp =>
      cases hs
      exact h.json hp
    · cases hs
  | send =>
    split at hs
    · next hp =>
      cases hs
      exact h.answer hp fun save hSave => .inl hSave
    · cases hs
  | commit =>
    split at hs
    · next hSave =>
      split at hs <;> cases hs
      exact h.commit hSave ho
    · cases hs
  | settle =>
    split at hs
    · next hSave =>
      split at hs <;> cases hs
      next hp => exact h.settle hSave hp
    · cases hs
  | close =>
    split at hs
    · next hp =>
      split at hs <;> cases hs
      exact h.close hp ho
    · cases hs

end World.Ok

/-- The success started last and once; another handler that has answered has failed, and every other
answer is the stored one. -/
structure World.OnceOnly (w : World β) (n status : Nat) (body : β) : Prop where
  last : ∃ earlier, w.started = n :: earlier ∧ n ∉ earlier
  others : ∀ (m : Nat) (phase : Phase β), m ≠ n → w.requests[m]? = some phase →
    phase.answered = true → phase.failed = true ∨ phase = .replayed status body

end

end Credence.Idempotency
