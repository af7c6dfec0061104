import Mathlib.Logic.Basic

/-! Runs of a partial step function, conditions on every action of a run, and the induction rules
for an invariant and for a relation between states. -/

namespace Credence.ProofKit

open List

section

variable {State Action : Type} (step : Action → State → Option State)

/-- The state after the actions, in order; `none` when some action cannot be taken. -/
def run : List Action → State → Option State
  | [], s => some s
  | a :: as, s => (step a s).bind (run as)

/-- Each action of a run meets `ok` in the state in which it is taken. -/
def Along (ok : Action → State → Prop) : List Action → State → Prop
  | [], _ => True
  | a :: as, s => ok a s ∧ ∀ t, step a s = some t → Along ok as t

variable {step}

variable {as bs : List Action} {s t : State}

theorem run_cons {a : Action} :
    run step (a :: as) s = some t ↔ ∃ mid, step a s = some mid ∧ run step as mid = some t := by
  simp [run, Option.bind_eq_some_iff]

theorem run_append : run step (as ++ bs) s = some t ↔
      ∃ mid, run step as s = some mid ∧ run step bs mid = some t := by
  induction as generalizing s with
  | nil => simp [run]
  | cons a as ih =>
    rw [cons_append, run_cons]
    constructor
    · rintro ⟨mid, hs, hr⟩
      obtain ⟨later, hf, he⟩ := ih.mp hr
      exact ⟨later, run_cons.mpr ⟨mid, hs, hf⟩, he⟩
    · rintro ⟨later, hf, he⟩
      obtain ⟨mid, hs, hr⟩ := run_cons.mp hf
      exact ⟨mid, hs, ih.mpr ⟨later, hr, he⟩⟩

variable {ok : Action → State → Prop}

/-- A decidable condition can be checked along a run. -/
instance Along.decidable [∀ a s, Decidable (ok a s)] :
    (as : List Action) → (s : State) → Decidable (Along step ok as s)
  | [], _ => isTrue trivial
  | a :: as, s =>
    match hStep : step a s with
    | none => decidable_of_iff (ok a s) ⟨fun h => ⟨h, by simp [hStep]⟩, And.left⟩
    | some t =>
      have := Along.decidable as t
      decidable_of_iff (ok a s ∧ Along step ok as t)
        ⟨fun h => ⟨h.1, by simpa [hStep] using h.2⟩, fun h => ⟨h.1, h.2 t hStep⟩⟩

theorem Along.append_left (h : Along step ok (as ++ bs) s) : Along step ok as s := by
  induction as generalizing s with
  | nil => trivial
  | cons a as ih => exact ⟨h.1, fun t hs => ih (h.2 t hs)⟩

theorem Along.append_right (h : Along step ok (as ++ bs) s) (hr : run step as s = some t) :
    Along step ok bs t := by
  induction as generalizing s with
  | nil =>
    cases hr
    exact h
  | cons a as ih =>
    obtain ⟨mid, hs, he⟩ := run_cons.mp hr
    exact ih (h.2 mid hs) he

theorem run_invariant (Inv : State → Prop)
    (preserved : ∀ a s t, Inv s → ok a s → step a s = some t → Inv t) (initial : Inv s)
    (h : Along step ok as s) (hr : run step as s = some t) : Inv t := by
  induction as generalizing s with
  | nil =>
    cases hr
    exact initial
  | cons a as ih =>
    obtain ⟨mid, hs, he⟩ := run_cons.mp hr
    exact ih (preserved a s mid initial h.1 hs) (h.2 mid hs) he

/-- A preorder that every step from an invariant state keeps relates the two ends of every run. -/
theorem run_relates (Inv : State → Prop) (Rel : State → State → Prop)
    (preserved : ∀ a s t, Inv s → ok a s → step a s = some t → Inv t) (refl : ∀ s, Rel s s)
    (trans : ∀ s t u, Rel s t → Rel t u → Rel s u)
    (related : ∀ a s t, Inv s → ok a s → step a s = some t → Rel s t) (initial : Inv s)
    (h : Along step ok as s) (hr : run step as s = some t) : Rel s t := by
  have hb := run_invariant (fun t => Inv t ∧ Rel s t)
    (fun a u v hu ho hs => ⟨preserved a u v hu.1 ho hs,
      trans s u v hu.2 (related a u v hu.1 ho hs)⟩) ⟨initial, refl s⟩ h hr
  exact hb.2

/-- Where the actions that are left out do not matter to a related state, the others can be taken
there alone. -/
theorem run_filter (keep : Action → Bool) (good : Action → Prop) (Rel : State → State → Prop)
    (kept : ∀ a s s' t, good a → keep a = true → Rel s t → step a s = some s' →
      ∃ t', step a t = some t' ∧ Rel s' t')
    (dropped : ∀ a s s' t, good a → keep a = false → Rel s t → step a s = some s' → Rel s' t)
    {s' : State} (hg : ∀ a ∈ as, good a) (initial : Rel s t) (hr : run step as s = some s') :
    ∃ t', run step (as.filter keep) t = some t' ∧ Rel s' t' := by
  induction as generalizing s t with
  | nil =>
    cases hr
    exact ⟨t, rfl, initial⟩
  | cons a as ih =>
    obtain ⟨mid, hs, ha⟩ := run_cons.mp hr
    have hl : ∀ a ∈ as, good a := fun b hb => hg b (mem_cons_of_mem a hb)
    cases hk : keep a with
    | false =>
      rw [filter_cons_of_neg (by simp [hk])]
      exact ih hl (dropped a s mid t (hg a mem_cons_self) hk initial hs) ha
    | true =>
      rw [filter_cons_of_pos hk]
      obtain ⟨next, hn, hr1⟩ := kept a s mid t (hg a mem_cons_self) hk initial hs
      obtain ⟨last, hc, he⟩ := ih hl hr1 ha
      exact ⟨last, run_cons.mpr ⟨next, hn, hc⟩, he⟩

/-- Two runs that do not matter to each other can be interleaved. -/
theorem run_merge (keep : Action → Bool) (good : Action → Prop) (Rel : State → State → State → Prop)
    (left : ∀ a s t u t', good a → keep a = true → Rel s t u → step a t = some t' →
      ∃ s', step a s = some s' ∧ Rel s' t' u)
    (right : ∀ a s t u u', good a → keep a = false → Rel s t u → step a u = some u' →
      ∃ s', step a s = some s' ∧ Rel s' t u') {t' u u' : State} (hg : ∀ a ∈ as, good a)
    (initial : Rel s t u) (hl : run step (as.filter keep) t = some t')
    (hr : run step (as.filter fun a => !keep a) u = some u') :
    ∃ s', run step as s = some s' ∧ Rel s' t' u' := by
  induction as generalizing s t u with
  | nil =>
    cases hl
    cases hr
    exact ⟨s, rfl, initial⟩
  | cons a as ih =>
    have ha : ∀ a ∈ as, good a := fun b hb => hg b (mem_cons_of_mem a hb)
    cases hk : keep a with
    | true =>
      rw [filter_cons_of_pos hk] at hl
      rw [filter_cons_of_neg (by simp [hk])] at hr
      obtain ⟨mid, hm, hc⟩ := run_cons.mp hl
      obtain ⟨next, hn, hr1⟩ := left a s t u mid (hg a mem_cons_self) hk initial hm
      obtain ⟨last, hd, he⟩ := ih ha hr1 hc hr
      exact ⟨last, run_cons.mpr ⟨next, hn, hd⟩, he⟩
    | false =>
      rw [filter_cons_of_neg (by simp [hk])] at hl
      rw [filter_cons_of_pos (by simp [hk])] at hr
      obtain ⟨mid, hm, hc⟩ := run_cons.mp hr
      obtain ⟨next, hn, hr1⟩ := right a s t u mid (hg a mem_cons_self) hk initial hm
      obtain ⟨last, hd, he⟩ := ih ha hr1 hl hc
      exact ⟨last, run_cons.mpr ⟨next, hn, hd⟩, he⟩

def anyAction (_ : Action) (_ : State) : Prop := True

theorem along_anyAction (as : List Action) (s : State) : Along step anyAction as s := by
  induction as generalizing s with
  | nil => trivial
  | cons a as ih => exact ⟨trivial, fun t _ => ih t⟩

end

section

variable {State Other Call Reply : Type}

/-- The state after the calls, in order, and the reply to each. -/
def replies (perform : State → Call → State × Reply) : State → List Call → State × List Reply
  | s, [] => (s, [])
  | s, call :: calls =>
    let (t, reply) := perform s call
    let (u, rest) := replies perform t calls
    (u, reply :: rest)

theorem replies_related (perform : State → Call → State × Reply)
    (other : Other → Call → Other × Reply) (Rel : State → Other → Prop)
    (step : ∀ s t call, Rel s t →
      (perform s call).2 = (other t call).2 ∧ Rel (perform s call).1 (other t call).1)
    {s : State} {t : Other} (calls : List Call) (initial : Rel s t) :
    (replies perform s calls).2 = (replies other t calls).2 ∧
      Rel (replies perform s calls).1 (replies other t calls).1 := by
  induction calls generalizing s t with
  | nil => exact ⟨rfl, initial⟩
  | cons call calls ih =>
    obtain ⟨he, hr⟩ := step s t call initial
    obtain ⟨hl, hf⟩ := ih hr
    constructor
    · show (perform s call).2 :: _ = (other t call).2 :: _
      rw [he, hl]
    · exact hf

end

theorem ok_of_bind {ε α β : Type} {x : Except ε α} {f : α → Except ε β} {b : β}
    (h : x >>= f = .ok b) : ∃ a, x = .ok a ∧ f a = .ok b := by
  cases x with
  | error => cases h
  | ok a => exact ⟨a, rfl, h⟩

end Credence.ProofKit
