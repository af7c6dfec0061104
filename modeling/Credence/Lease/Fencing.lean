import Credence.Lease.Manager
import Credence.ProofKit.Runs
import Mathlib.Logic.Function.Basic

/-! Any number of managers on one stream, whose statements and answers arrive later, in any order or
not at all. `holder` is the manager whose `acquire` was the last to succeed. -/

namespace Credence.Lease

open ProofKit List Option

/-- A statement that a manager has sent and the database has not executed. -/
structure Call (ι : Type) where
  manager : ι
  statement : Statement

structure World (ι : Type) where
  clock : Int
  row : Option LeaseRow
  currentFencingToken : ι → Nat
  sent : List (Call ι)
  answers : List (ι × Reply)
  holder : Option ι

inductive Action (ι : Type) where
  | tick (ms : Nat)
  | call (manager : ι) (method : Method)
  | execute (index : Nat)
  | fails (index : Nat)
  | answer (index : Nat)
  | loses (index : Nat)

namespace World

variable {ι : Type}

def start (clock : Int) : World ι := ⟨clock, none, fun _ => 0, [], [], none⟩

def fencingToken (w : World ι) : Nat := (w.row.map LeaseRow.fencingToken).getD 0

def perform (w : World ι) (call : Call ι) : World ι := { w with
    row := (call.statement.execute w.row).1
    holder := if call.statement.acquires w.row then some call.manager else w.holder }

end World

section

variable {ι : Type} [DecidableEq ι] (managers : ι → LeaseManager) (readBack : Nat → Nat)

/-- `readBack` is the way of a `BIGINT` through a JavaScript number, as `rowToLease` reads it and as
it is sent in a parameter. -/
def step : Action ι → World ι → Option (World ι)
  | .tick ms, w => some { w with clock := w.clock + ms }
  | .call i method, w =>
    match (managers i).request w.clock (w.currentFencingToken i) method with
    | .error _ => none
    | .ok statement => some { w with sent := w.sent ++ [⟨i, statement⟩] }
  | .execute index, w =>
    w.sent[index]?.map fun call =>
      { w.perform call with
        sent := w.sent.eraseIdx index
        answers := w.answers ++ [(call.manager, (call.statement.execute w.row).2)] }
  | .fails index, w => w.sent[index]?.map fun _ => { w with sent := w.sent.eraseIdx index }
  | .answer index, w =>
    w.answers[index]?.map fun (i, reply) =>
      let result := (managers i).acquireResult w.row reply
      { w with
        answers := w.answers.eraseIdx index
        currentFencingToken :=
          match result.acquired, result.lease with
          | true, some lease =>
            Function.update w.currentFencingToken i (readBack lease.fencingToken)
          | _, _ => w.currentFencingToken }
  | .loses index, w => w.answers[index]?.map fun _ => { w with answers := w.answers.eraseIdx index }

end

section

variable {ι : Type} (managers : ι → LeaseManager)

structure Call.Ok (w : World ι) (call : Call ι) : Prop where
  owner : call.statement.ownerId = (managers call.manager).ownerId
  time : call.statement.now ≤ w.clock

/-- The row is that of the holder. -/
structure World.Ok (w : World ι) : Prop where
  owned : ∀ row, w.row = some row → ∃ i, w.holder = some i ∧ row.ownerId = (managers i).ownerId
  sent : ∀ call ∈ w.sent, call.Ok managers w

theorem ok_start (clock : Int) : (World.start clock : World ι).Ok managers :=
  ⟨fun _ hr => (by cases hr), fun _ hCall => (not_mem_nil hCall).elim⟩

variable {managers} {w : World ι} {call : Call ι}

theorem World.Ok.perform (h : w.Ok managers) (hCall : call.Ok managers w) {row : LeaseRow}
    (hr : (w.perform call).row = some row) :
    ∃ i, (w.perform call).holder = some i ∧ row.ownerId = (managers i).ownerId := by
  have he := call.statement.effect w.row
  simp only [World.perform] at hr ⊢
  generalize (call.statement.execute w.row).1 = row' at he hr
  cases he with
  | claims claimed ha _ ho =>
    obtain rfl := Option.some.inj hr
    rw [if_pos ha]
    exact ⟨call.manager, rfl, ho.trans hCall.owner⟩
  | changes old new hb ha _ hn =>
    obtain rfl := Option.some.inj hr
    rw [ha, if_neg Bool.false_ne_true]
    obtain ⟨i, hh, ho⟩ := h.owned old hb
    exact ⟨i, hh, hn.trans ho⟩
  | keeps ha =>
    rw [ha, if_neg Bool.false_ne_true]
    exact h.owned row hr

variable [DecidableEq ι] {readBack : Nat → Nat}

structure StepEffect (managers : ι → LeaseManager) (action : Action ι) (w w' : World ι) : Prop where
  clock : w.clock ≤ w'.clock
  sent : ∀ call ∈ w'.sent, call ∈ w.sent ∨
    ∃ method token, (managers call.manager).request w.clock token method = .ok call.statement
  row : w'.row = w.row ∧ w'.holder = w.holder ∨
    ∃ index call, action = .execute index ∧ w.sent[index]? = some call ∧
      w'.row = (w.perform call).row ∧ w'.holder = (w.perform call).holder

variable {action : Action ι} {w' : World ι}

theorem step_effect (hs : step managers readBack action w = some w') :
    StepEffect managers action w w' := by
  cases action with
  | tick ms =>
    cases hs
    exact ⟨Int.le_add_of_nonneg_right (Int.natCast_nonneg ms), fun _ => .inl, .inl ⟨rfl, rfl⟩⟩
  | call i method =>
    cases hr : (managers i).request w.clock (w.currentFencingToken i) method with
    | error => simp [step, hr] at hs
    | ok =>
      simp only [step, hr, Option.some.injEq] at hs
      obtain rfl := hs
      refine ⟨Int.le_refl _, fun call hCall => ?_, .inl ⟨rfl, rfl⟩⟩
      rcases mem_append.mp hCall with hCall | hCall
      · exact .inl hCall
      · obtain rfl := mem_singleton.mp hCall
        exact .inr ⟨method, _, hr⟩
  | execute index =>
    obtain ⟨call, hCall, rfl⟩ := map_eq_some_iff.mp hs
    exact ⟨Int.le_refl _, fun _ ho => .inl (mem_of_mem_eraseIdx ho),
      .inr ⟨index, call, rfl, hCall, rfl, rfl⟩⟩
  | fails =>
    obtain ⟨call, -, rfl⟩ := map_eq_some_iff.mp hs
    exact ⟨Int.le_refl _, fun _ ho => .inl (mem_of_mem_eraseIdx ho), .inl ⟨rfl, rfl⟩⟩
  | answer index | loses index =>
    obtain ⟨answer, -, rfl⟩ := map_eq_some_iff.mp hs
    exact ⟨Int.le_refl _, fun _ => .inl, .inl ⟨rfl, rfl⟩⟩

theorem World.Ok.step (h : w.Ok managers) (hs : step managers readBack action w = some w') :
    w'.Ok managers := by
  have he := step_effect hs
  refine ⟨fun row hr => ?_, fun call hCall => ?_⟩
  · rcases he.row with ⟨ha, hh⟩ | ⟨index, call, -, hCall, hn, hh⟩
    · rw [hh]
      exact h.owned row (ha.symm.trans hr)
    · rw [hh]
      exact h.perform (h.sent call (mem_of_getElem? hCall)) (hn.symm.trans hr)
  · rcases he.sent call hCall with ho | ⟨method, token, hb⟩
    · exact ⟨(h.sent call ho).owner, Int.le_trans (h.sent call ho).time he.clock⟩
    · obtain ⟨how, hc, -⟩ := LeaseManager.request_eq_ok hb
      exact ⟨how, hc ▸ he.clock⟩

end

section

variable {ι : Type} {managers : ι → LeaseManager} {w : World ι} {call : Call ι}

/-- What the execution of a statement in `w`, with `next` after it, is allowed to do. -/
structure Fenced (managers : ι → LeaseManager) (w next : World ι) (call : Call ι) : Prop where
  increases : call.statement.acquires w.row = true → w.fencingToken < next.fencingToken
  expired : call.statement.acquires w.row = true → ∀ row, w.row = some row →
    row.ownerId ≠ (managers call.manager).ownerId →
    row.leaseExpiresAt ≤ call.statement.now ∧ call.statement.now ≤ w.clock
  guarded : ∀ token, call.statement.fencingToken = some token → next.row ≠ w.row →
    w.holder = some call.manager ∧ w.fencingToken = token

theorem World.Ok.holder_of_changes (h : w.Ok managers)
    (hDistinct : Function.Injective fun i => (managers i).ownerId) (hCall : call.Ok managers w)
    {old : LeaseRow} (hr : w.row = some old) (ho : old.ownerId = call.statement.ownerId) :
    w.holder = some call.manager := by
  obtain ⟨i, hh, ha⟩ := h.owned old hr
  have hs : (managers i).ownerId = (managers call.manager).ownerId :=
    (ha.symm.trans ho).trans hCall.owner
  rw [hh, hDistinct hs]

theorem perform_fencingToken (w : World ι) (call : Call ι) :
    w.fencingToken ≤ (w.perform call).fencingToken := by
  have he := call.statement.effect w.row
  simp only [World.fencingToken, World.perform]
  generalize (call.statement.execute w.row).1 = row' at he
  cases he with
  | claims claimed _ _ _ ht =>
    simp only [map_some, getD_some, ht]
    omega
  | changes old new hr _ _ _ ht =>
    simp [hr, ht]
  | keeps => exact Nat.le_refl _

variable {next : World ι} {action : Action ι}

section

variable (h : w.Ok managers) (hDistinct : Function.Injective fun i => (managers i).ownerId)
  (hCall : call.Ok managers w)
include h hDistinct hCall

theorem World.Ok.fenced (hn : next.row = (w.perform call).row) : Fenced managers w next call := by
  have he := call.statement.effect w.row
  simp only [World.perform] at hn
  generalize (call.statement.execute w.row).1 = row' at he hn
  cases he with
  | claims claimed ha hf _ hb hex =>
    refine ⟨fun _ => ?_, fun _ row hr ho => ?_, fun token hc => ?_⟩
    · simp only [World.fencingToken, hn, map_some, getD_some, hb]
      omega
    · rcases hex row hr with how | hp
      · exact absurd (how.trans hCall.owner) ho
      · exact ⟨hp, hCall.time⟩
    · rw [hf] at hc
      cases hc
  | changes old new hr ha hl _ hb hd =>
    refine ⟨fun ht => ?_, fun ht => ?_, fun token hc _ => ⟨?_, ?_⟩⟩
    · rw [ha] at ht
      cases ht
    · rw [ha] at ht
      cases ht
    · exact h.holder_of_changes hDistinct hCall hr hl
    · simpa [World.fencingToken, hr] using hd token hc
  | keeps ha =>
    refine ⟨fun ht => ?_, fun ht => ?_, fun _ _ hh => absurd hn hh⟩
    · rw [ha] at ht
      cases ht
    · rw [ha] at ht
      cases ht

theorem World.Ok.row_of_lost (hl : w.holder ≠ some call.manager)
    (hf : call.statement.acquires w.row = false) : (w.perform call).row = w.row := by
  have he := call.statement.effect w.row
  simp only [World.perform]
  generalize (call.statement.execute w.row).1 = row' at he ⊢
  cases he with
  | claims _ ha =>
    rw [hf] at ha
    cases ha
  | changes old _ hr _ ho =>
    exact absurd (h.holder_of_changes hDistinct hCall hr ho) hl
  | keeps => rfl

end

variable [DecidableEq ι] {readBack : Nat → Nat}

theorem step_fencingToken (hs : step managers readBack action w = some next) :
    w.fencingToken ≤ next.fencingToken := by
  rcases (step_effect hs).row with ⟨hr, -⟩ | ⟨index, call, -, -, hr, -⟩
  · rw [World.fencingToken, World.fencingToken, hr]
  · rw [World.fencingToken.eq_1 next, hr]
    exact perform_fencingToken w call

def notAcquiredBy (i : ι) (action : Action ι) (w : World ι) : Bool :=
  match action with
  | .execute index =>
    match w.sent[index]? with
    | none => true
    | some call => call.manager != i || !call.statement.acquires w.row
  | _ => true

def NotAcquiredBy (i : ι) (action : Action ι) (w : World ι) : Prop :=
  notAcquiredBy i action w = true

instance (i : ι) (action : Action ι) (w : World ι) : Decidable (NotAcquiredBy i action w) :=
  inferInstanceAs (Decidable (_ = true))

theorem holder_ne_of_notAcquiredBy {i : ι} (hl : w.holder ≠ some i)
    (hn : NotAcquiredBy i action w) (hs : step managers readBack action w = some next) :
    next.holder ≠ some i := by
  rcases (step_effect hs).row with ⟨-, hh⟩ | ⟨index, call, rfl, hCall, -, hh⟩
  · rwa [hh]
  · rw [hh, World.perform]
    simp only [NotAcquiredBy, notAcquiredBy, hCall, Bool.or_eq_true, bne_iff_ne, ne_eq,
      Bool.not_eq_true'] at hn
    rcases hn with ho | hf
    · split
      · exact fun ha => ho (Option.some.inj ha)
      · exact hl
    · rwa [if_neg (by rw [hf]; exact Bool.false_ne_true)]

/-- In every reachable state: the fencing token never decreases afterwards; each executed statement
is fenced; and after a manager has lost the lease, no statement of its own changes the row but the
one by which it acquires again. -/
theorem lease_fencing (hDistinct : Function.Injective fun i => (managers i).ownerId) {clock : Int}
    {acts later : List (Action ι)} {w w' : World ι}
    (hRun : run (step managers readBack) acts (.start clock) = some w)
    (hLater : run (step managers readBack) later w = some w') :
    w.fencingToken ≤ w'.fencingToken ∧
    (∀ index call next, w.sent[index]? = some call →
      step managers readBack (.execute index) w = some next → Fenced managers w next call) ∧
    ∀ i, w.holder ≠ some i → Along (step managers readBack) (NotAcquiredBy i) later w →
      ∀ action next, step managers readBack action w' = some next → next.row ≠ w'.row →
        ∃ index call, action = .execute index ∧ w'.sent[index]? = some call ∧
          (call.manager = i → call.statement.acquires w'.row = true) := by
  have hp : ∀ action v next, World.Ok managers v → anyAction action v →
      step managers readBack action v = some next → World.Ok managers next :=
    fun _ _ _ ho _ hs => ho.step hs
  have ho := run_invariant (World.Ok managers) hp (ok_start managers clock)
    (along_anyAction acts _) hRun
  have ho' := run_invariant (World.Ok managers) hp ho (along_anyAction later w) hLater
  refine ⟨?_, fun index call next hCall hs => ?_, fun i hl hn action next hs hr => ?_⟩
  · exact run_relates (fun _ => True) (fun v next => v.fencingToken ≤ next.fencingToken)
      (fun _ _ _ _ _ _ => trivial) (fun _ => Nat.le_refl _) (fun _ _ _ => Nat.le_trans)
      (fun _ _ _ _ _ hs => step_fencingToken hs) trivial (along_anyAction later w) hLater
  · simp only [step, hCall, map_some, Option.some.injEq] at hs
    exact ho.fenced hDistinct (ho.sent call (mem_of_getElem? hCall)) (by rw [← hs])
  · have hl' := run_invariant (fun v => v.holder ≠ some i)
      (fun _ _ _ hh hn hs => holder_ne_of_notAcquiredBy hh hn hs) hl hn
      hLater
    rcases (step_effect hs).row with ⟨ha, -⟩ | ⟨index, call, rfl, hCall, hne, -⟩
    · exact absurd ha hr
    · refine ⟨index, call, rfl, hCall, fun hm => ?_⟩
      have he := ho'.sent call (mem_of_getElem? hCall)
      rw [← hm] at hl'
      by_contra hf
      exact hr (hne.trans
        (ho'.row_of_lost hDistinct he hl' (Bool.not_eq_true _ ▸ hf)))

end

def pair (standby : Bool) : LeaseManager :=
  ⟨if standby then "standby" else "primary", 1000, 300, by decide⟩

theorem pair_distinct : Function.Injective fun i => (pair i).ownerId := by
  have hp : ∀ i j, (pair i).ownerId = (pair j).ownerId → i = j := by decide
  exact fun i j => hp i j

def takeover : List (Action Bool) :=
  [.call false .acquire, .execute 0, .answer 0, .call false .heartbeat, .tick 1000,
    .call true .acquire, .execute 1]

theorem lease_fencing_takeover : ∃ w w', run (step pair id) takeover (.start 0) = some w ∧
      run (step pair id) [.answer 0] w = some w' ∧ w.holder = some true ∧
      w.fencingToken ≤ w'.fencingToken ∧
      (∀ index call next, w.sent[index]? = some call →
        step pair id (.execute index) w = some next → Fenced pair w next call) ∧
      ∀ action next, step pair id action w' = some next → next.row ≠ w'.row →
        ∃ index call, action = .execute index ∧ w'.sent[index]? = some call ∧
          (call.manager = false → call.statement.acquires w'.row = true) := by
  have hr : run (step pair id) takeover (.start 0) = some _ := rfl
  obtain ⟨ht, hf, hl⟩ := lease_fencing pair_distinct hr
    (rfl : run (step pair id) [.answer 0] _ = some _)
  exact ⟨_, _, hr, rfl, rfl, ht, hf, hl false (by decide) (by decide +kernel)⟩

end Credence.Lease
