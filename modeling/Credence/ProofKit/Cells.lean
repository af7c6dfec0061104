import Credence.ProofKit.Runs
import Mathlib.Data.List.Basic

/-! Programs that read and overwrite one shared cell as a whole, alone and interleaved. -/

namespace Credence.ProofKit

/-- `get` receives the value of the cell, if it has one, and an input at the time of the reply. -/
inductive CellProg (σ τ α : Type) where
  | done (result : α)
  | get (next : Option σ → τ → CellProg σ τ α)
  | put (value : σ) (next : CellProg σ τ α)

namespace CellProg

variable {σ τ α S : Type} {prog : CellProg σ τ α} {seen : Option σ}

def exec (read : S → Option σ) (write : σ → S → S) (input : τ) : CellProg σ τ α → S → S × α
  | done result, s => (s, result)
  | get next, s => exec read write input (next (read s) input) s
  | put value next, s => exec read write input next (write value s)

def execCell (input : τ) : CellProg σ τ α → Option σ → Option σ × α :=
  exec id (fun value _ => some value) input

/-- Where a write can be read back, a program does to the state what it does to the cell. -/
theorem exec_read {read : S → Option σ} {write : σ → S → S}
    (hw : ∀ value s, read (write value s) = some value) (input : τ) (prog : CellProg σ τ α)
    (s : S) : (read (exec read write input prog s).1, (exec read write input prog s).2) =
      execCell input prog (read s) := by
  induction prog generalizing s with
  | done => rfl
  | get next ih => exact ih (read s) input s
  | put value next ih => exact (ih (write value s)).trans (by rw [hw]; rfl)

/-- Each write is related to the value last seen. -/
def Keeps (Rel : σ → σ → Prop) : CellProg σ τ α → Option σ → Prop
  | done _, _ => True
  | get next, _ => ∀ found input, Keeps Rel (next found input) found
  | put value next, seen =>
    (∃ base, seen = some base ∧ Rel base value) ∧ Keeps Rel next (some value)

/-- Each result is related to the value last seen. -/
def Ends (Post : Option σ → α → Prop) : CellProg σ τ α → Option σ → Prop
  | done result, seen => Post seen result
  | get next, _ => ∀ found input, Ends Post (next found input) found
  | put value next, _ => Ends Post next (some value)

/-- A marked result comes right after a write that makes `P` true where it was false. -/
def Marks (P : σ → Prop) (marked : α → Prop) : CellProg σ τ α → Option σ → Prop
  | done result, _ => ¬ marked result
  | get next, _ => ∀ found input, Marks P marked (next found input) found
  | put value next, seen => Marks P marked next (some value) ∨
      (∃ base, seen = some base ∧ ¬ P base) ∧ P value ∧ ∃ result, next = done result

theorem Ends.mono {Post Post' : Option σ → α → Prop} (h : prog.Ends Post seen)
    (hp : ∀ seen result, Post seen result → Post' seen result) : prog.Ends Post' seen := by
  induction prog generalizing seen with
  | done result => exact hp seen result h
  | get next ih => exact fun found input => ih found input (h found input)
  | put value next ih => exact ih h

theorem Ends.marks {P : σ → Prop} {marked : α → Prop}
    (h : prog.Ends (fun _ result => ¬ marked result) seen) : prog.Marks P marked seen := by
  induction prog generalizing seen with
  | done => exact h
  | get next ih => exact fun found input => ih found input (h found input)
  | put value next ih => exact .inl (ih h)

end CellProg

structure Task (ℓ σ τ α : Type) where
  label : ℓ
  seen : Option σ
  prog : CellProg σ τ α

structure Shared (ℓ σ τ α : Type) where
  cell : Option σ
  tasks : List (Task ℓ σ τ α)

inductive CellAction (ℓ τ : Type) where
  | start (label : ℓ)
  | get (task : Nat) (input : τ)
  | put (task : Nat)
  | clear

namespace Shared

variable {ℓ σ τ α : Type}

def step (program : ℓ → CellProg σ τ α) : CellAction ℓ τ → Shared ℓ σ τ α → Option (Shared ℓ σ τ α)
  | .start label, w => some { w with tasks := w.tasks ++ [⟨label, none, program label⟩] }
  | .get i input, w =>
    match w.tasks[i]? with
    | some ⟨label, _, .get next⟩ =>
      some { w with tasks := w.tasks.set i ⟨label, w.cell, next w.cell input⟩ }
    | _ => none
  | .put i, w =>
    match w.tasks[i]? with
    | some ⟨label, _, .put value next⟩ =>
      some { cell := some value, tasks := w.tasks.set i ⟨label, some value, next⟩ }
    | _ => none
  | .clear, w => some { w with cell := none }

/-- A write finds the value that its program last saw. -/
def putsCurrent [DecidableEq σ] : CellAction ℓ τ → Shared ℓ σ τ α → Bool
  | .put i, w => w.tasks[i]?.all fun task => w.cell = task.seen
  | _, _ => true

def PutsCurrent [DecidableEq σ] (a : CellAction ℓ τ) (w : Shared ℓ σ τ α) : Prop :=
  putsCurrent a w = true

instance [DecidableEq σ] (a : CellAction ℓ τ) (w : Shared ℓ σ τ α) : Decidable (PutsCurrent a w) :=
  inferInstanceAs (Decidable (_ = true))

inductive Effect (program : ℓ → CellProg σ τ α) (w : Shared ℓ σ τ α) :
    CellAction ℓ τ → Shared ℓ σ τ α → Prop
  | start (label : ℓ) :
    Effect program w (.start label) { w with tasks := w.tasks ++ [⟨label, none, program label⟩] }
  | get {i : Nat} {label : ℓ} {seen : Option σ} {next : Option σ → τ → CellProg σ τ α} (input : τ)
    (hTask : w.tasks[i]? = some ⟨label, seen, .get next⟩) :
    Effect program w (.get i input)
      { w with tasks := w.tasks.set i ⟨label, w.cell, next w.cell input⟩ }
  | put {i : Nat} {label : ℓ} {seen : Option σ} {value : σ} {next : CellProg σ τ α}
    (hTask : w.tasks[i]? = some ⟨label, seen, .put value next⟩) :
    Effect program w (.put i)
      { cell := some value, tasks := w.tasks.set i ⟨label, some value, next⟩ }
  | clear : Effect program w .clear { w with cell := none }

theorem effect_of_step {program : ℓ → CellProg σ τ α} {a : CellAction ℓ τ} {w w' : Shared ℓ σ τ α}
    (h : step program a w = some w') : Effect program w a w' := by
  cases a with
  | start label =>
    cases h
    exact .start label
  | get i input =>
    simp only [step] at h
    split at h
    · next ht =>
      cases h
      exact .get input ht
    · cases h
  | put =>
    simp only [step] at h
    split at h
    · next ht =>
      cases h
      exact .put ht
    · cases h
  | clear =>
    cases h
    exact .clear

/-- All tasks but the one at `k` are those that there were. -/
def Touches (w w' : Shared ℓ σ τ α) (k : Nat) (task : Task ℓ σ τ α) : Prop :=
  ∀ j other, w'.tasks[j]? = some other → (j = k ∧ other = task) ∨ (j ≠ k ∧ w.tasks[j]? = some other)

theorem touches_start (w : Shared ℓ σ τ α) (task : Task ℓ σ τ α) :
    Touches w { w with tasks := w.tasks ++ [task] } w.tasks.length task := by
  intro j other ho
  rw [List.getElem?_append] at ho
  split at ho
  · next hl => exact .inr ⟨by omega, ho⟩
  · next hLe =>
    obtain ⟨hl, he⟩ := List.getElem?_eq_some_iff.mp ho
    rw [List.length_singleton] at hl
    exact .inl ⟨by omega, by rw [← he, List.getElem_singleton]⟩

theorem touches_set (w : Shared ℓ σ τ α) (cell : Option σ) (i : Nat) (task : Task ℓ σ τ α) :
    Touches w { cell, tasks := w.tasks.set i task } i task := by
  intro j other ho
  rw [List.getElem?_set] at ho
  split at ho
  · next he =>
    split at ho
    · cases ho
      exact .inl ⟨he.symm, rfl⟩
    · cases ho
  · next hn => exact .inr ⟨fun h => hn h.symm, ho⟩

variable {task : Task ℓ σ τ α}

section

variable [DecidableEq σ] {program : ℓ → CellProg σ τ α} {Rel : σ → σ → Prop}
  {a : CellAction ℓ τ} {as : List (CellAction ℓ τ)} {w w' : Shared ℓ σ τ α}

/-- Every task keeps `Rel`, and the cell has gone on by `Rel` from what it has seen. -/
structure Ok (Rel : σ → σ → Prop) (w : Shared ℓ σ τ α) : Prop where
  keeps : ∀ (i : Nat) (task : Task ℓ σ τ α), w.tasks[i]? = some task → task.prog.Keeps Rel task.seen
  follows : ∀ (i : Nat) (task : Task ℓ σ τ α), w.tasks[i]? = some task →
    ∀ value, task.seen = some value → ∀ current, w.cell = some current → Rel value current

/-- The later cell has no value, or one that is related to the earlier value. -/
def Follows (Rel : σ → σ → Prop) (w w' : Shared ℓ σ τ α) : Prop :=
  ∀ later, w'.cell = some later → ∃ value, w.cell = some value ∧ Rel value later

theorem PutsCurrent.seen {i : Nat} (h : PutsCurrent (.put i : CellAction ℓ τ) w)
    (ht : w.tasks[i]? = some task) : w.cell = task.seen := by
  simpa [PutsCurrent, putsCurrent, ht] using h

theorem Ok.follows_step (hOk : w.Ok Rel) (hRefl : ∀ value, Rel value value)
    (hc : PutsCurrent a w) (hs : step program a w = some w') : Follows Rel w w' := by
  intro later hl
  cases effect_of_step hs with
  | start label | get input ht => exact ⟨later, hl, hRefl later⟩
  | put ht =>
    cases hl
    obtain ⟨⟨base, hb, hr⟩, -⟩ := hOk.keeps _ _ ht
    exact ⟨base, (hc.seen ht).trans hb, hr⟩
  | clear => cases hl

section

variable (hOk : w.Ok Rel) (hk : ∀ label, (program label).Keeps Rel none)
  (hRefl : ∀ value, Rel value value)
  (hTrans : ∀ first second third, Rel first second → Rel second third → Rel first third)
include hOk hk hRefl hTrans

theorem Ok.step (hc : PutsCurrent a w) (ha : step program a w = some w') : w'.Ok Rel := by
  have hf := hOk.follows_step hRefl hc ha
  have hl : ∀ (j : Nat) (other : Task ℓ σ τ α), w.tasks[j]? = some other →
      ∀ value, other.seen = some value → ∀ current, w'.cell = some current → Rel value current := by
    intro j other ho value hs current hc
    obtain ⟨before, hb, hr⟩ := hf current hc
    exact hTrans value before current (hOk.follows j other ho value hs before hb) hr
  cases effect_of_step ha with
  | start label =>
    refine ⟨fun j other ho => ?_, fun j other ho => ?_⟩ <;>
      rcases touches_start w _ j other ho with ⟨-, rfl⟩ | ⟨-, ho⟩
    · exact hk label
    · exact hOk.keeps j other ho
    · exact fun value hs => nomatch hs
    · exact hl j other ho
  | get input ht =>
    refine ⟨fun j other ho => ?_, fun j other ho => ?_⟩ <;>
      rcases touches_set w _ _ _ j other ho with ⟨-, rfl⟩ | ⟨-, ho⟩
    · exact hOk.keeps _ _ ht _ input
    · exact hOk.keeps j other ho
    · intro value hs current hc
      cases hs.symm.trans hc
      exact hRefl value
    · exact hl j other ho
  | put ht =>
    refine ⟨fun j other ho => ?_, fun j other ho => ?_⟩ <;>
      rcases touches_set w _ _ _ j other ho with ⟨-, rfl⟩ | ⟨-, ho⟩
    · exact (hOk.keeps _ _ ht).2
    · exact hOk.keeps j other ho
    · intro value hs current hc
      cases hs.symm.trans hc
      exact hRefl value
    · exact hl j other ho
  | clear => exact ⟨hOk.keeps, hl⟩

theorem Ok.run (hc : Along (Shared.step program) PutsCurrent as w)
    (hr : ProofKit.run (Shared.step program) as w = some w') : w'.Ok Rel ∧ Follows Rel w w' := by
  have hp : ∀ a (s t : Shared ℓ σ τ α), s.Ok Rel → PutsCurrent a s →
      Shared.step program a s = some t → t.Ok Rel :=
    fun a s t hOk => hOk.step hk hRefl hTrans
  refine ⟨run_invariant (Ok Rel) hp hOk hc hr, ?_⟩
  refine run_relates (Ok Rel) (Follows Rel) hp (fun s later h => ⟨later, h, hRefl later⟩)
    (fun s t u hf hs later hl => ?_) (fun a s t hOk => hOk.follows_step hRefl) hOk
    hc hr
  obtain ⟨mid, hm, ha⟩ := hs later hl
  obtain ⟨value, hv, he⟩ := hf mid hm
  exact ⟨value, hv, hTrans value mid later he ha⟩

end

end

variable {program : ℓ → CellProg σ τ α} {a : CellAction ℓ τ} {as : List (CellAction ℓ τ)}
  {w w' : Shared ℓ σ τ α}

def AllEnd (Post : ℓ → Option σ → α → Prop) (w : Shared ℓ σ τ α) : Prop :=
  ∀ (i : Nat) (task : Task ℓ σ τ α), w.tasks[i]? = some task →
    task.prog.Ends (Post task.label) task.seen

theorem AllEnd.step {Post : ℓ → Option σ → α → Prop} (h : w.AllEnd Post)
    (he : ∀ label, (program label).Ends (Post label) none)
    (hs : step program a w = some w') : w'.AllEnd Post := by
  intro j other ho
  cases effect_of_step hs with
  | start label =>
    rcases touches_start w _ j other ho with ⟨-, rfl⟩ | ⟨-, ho⟩
    · exact he label
    · exact h j other ho
  | get input ht =>
    rcases touches_set w _ _ _ j other ho with ⟨-, rfl⟩ | ⟨-, ho⟩
    · exact h _ _ ht _ input
    · exact h j other ho
  | put ht =>
    rcases touches_set w _ _ _ j other ho with ⟨-, rfl⟩ | ⟨-, ho⟩
    · have hp := h _ _ ht
      exact hp
    · exact h j other ho
  | clear => exact h j other ho

def Marked (marked : α → Prop) (task : Task ℓ σ τ α) : Prop :=
  ∃ result, task.prog = .done result ∧ marked result

/-- At most one task is marked, and then the cell has `P`. -/
structure Once (P : σ → Prop) (marked : α → Prop) (w : Shared ℓ σ τ α) : Prop where
  marks : ∀ (i : Nat) (task : Task ℓ σ τ α), w.tasks[i]? = some task →
    task.prog.Marks P marked task.seen ∨ Marked marked task
  holds : ∀ (i : Nat) (task : Task ℓ σ τ α), w.tasks[i]? = some task → Marked marked task →
    ∀ value, w.cell = some value → P value
  unique : ∀ (i j : Nat) (task other : Task ℓ σ τ α), w.tasks[i]? = some task →
    w.tasks[j]? = some other → Marked marked task → Marked marked other → i = j

theorem not_marked {P : σ → Prop} {marked : α → Prop} (h : task.prog.Marks P marked task.seen) :
    ¬ Marked marked task := by
  rintro ⟨result, hd, hm⟩
  rw [hd] at h
  exact h hm

variable {marked : α → Prop} {P : σ → Prop} (h : w.Once P marked)
include h

theorem Once.of_marks {k : Nat} (ht : Touches w w' k task) (hm : task.prog.Marks P marked task.seen)
    (hc : (∀ value, w.cell = some value → P value) → ∀ value, w'.cell = some value → P value) :
    w'.Once P marked where
  marks := by
    intro j other ho
    rcases ht j other ho with ⟨-, rfl⟩ | ⟨-, ho⟩
    · exact .inl hm
    · exact h.marks j other ho
  holds := by
    intro j other ho ha
    rcases ht j other ho with ⟨-, rfl⟩ | ⟨-, ho⟩
    · exact absurd ha (not_marked hm)
    · exact hc (h.holds j other ho ha)
  unique := by
    intro i j first second hf hs hb hd
    rcases ht i first hf with ⟨-, rfl⟩ | ⟨-, hf⟩
    · exact absurd hb (not_marked hm)
    · rcases ht j second hs with ⟨-, rfl⟩ | ⟨-, hs⟩
      · exact absurd hd (not_marked hm)
      · exact h.unique i j first second hf hs hb hd

theorem Once.of_first {k : Nat} {result : α} (ht : Touches w w' k task)
    (hd : task.prog = .done result)
    (hn : ∀ (i : Nat) (other : Task ℓ σ τ α), w.tasks[i]? = some other → ¬ Marked marked other)
    (hc : ∀ value, w'.cell = some value → P value) : w'.Once P marked where
  marks := by
    intro j other ho
    rcases ht j other ho with ⟨-, rfl⟩ | ⟨-, ho⟩
    · by_cases hm : marked result
      · exact .inr ⟨result, hd, hm⟩
      · exact .inl (by rw [hd]; exact hm)
    · exact h.marks j other ho
  holds := fun _ _ _ _ => hc
  unique := by
    intro i j first second hf hs ha hb
    rcases ht i first hf with ⟨hI, -⟩ | ⟨-, hf⟩
    · rcases ht j second hs with ⟨hJ, -⟩ | ⟨-, hs⟩
      · exact hI.trans hJ.symm
      · exact absurd hb (hn j second hs)
    · exact absurd ha (hn i first hf)

theorem Once.step [DecidableEq σ] {Rel : σ → σ → Prop} (hOk : w.Ok Rel)
    (ha : ∀ label, (program label).Marks P marked none) (hRefl : ∀ value, Rel value value)
    (he : ∀ value later, Rel value later → P value → P later) (hu : PutsCurrent a w)
    (hs : Shared.step program a w = some w') : w'.Once P marked := by
  have hc : (∀ value, w.cell = some value → P value) → ∀ value, w'.cell = some value → P value := by
    intro hh later hl
    obtain ⟨value, hv, hr⟩ := hOk.follows_step hRefl hu hs later hl
    exact he value later hr (hh value hv)
  cases effect_of_step hs with
  | start label => exact h.of_marks (touches_start w _) (ha label) hc
  | get input ht =>
    rcases h.marks _ _ ht with hm | ⟨result, hd, -⟩
    · exact h.of_marks (touches_set w _ _ _) (hm _ input) hc
    · cases hd
  | put ht =>
    rcases h.marks _ _ ht with (hm | ⟨⟨base, hb, hn⟩, hP, result, hd⟩) |
      ⟨result, hd, -⟩
    · exact h.of_marks (touches_set w _ _ _) hm hc
    · refine h.of_first (touches_set w _ _ _) hd (fun i other ho hf => hn ?_) ?_
      · exact h.holds i other ho hf base ((hu.seen ht).trans hb)
      · intro value hv
        cases hv
        exact hP
    · cases hd
  | clear => exact ⟨h.marks, fun i task ht hf value hv => (by cases hv), h.unique⟩

end Shared

end Credence.ProofKit
