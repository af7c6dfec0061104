import Mathlib.Data.List.Basic
import Mathlib.Data.List.Induction
import Mathlib.Data.List.Perm.Basic

/-! `ReplayService.replayLedgerRange` where Horizon answers and `captureFailure` and the audit log
succeed. Handlers get the operation that their payload is parsed from. -/

namespace Credence.Replay.Range

open List

structure Operation where
  id : String
  type : String
  deriving DecidableEq

inductive Handler where
  | bondCreation
  | withdrawal
  | attestation
  deriving DecidableEq

def Handler.key : Handler → String
  | bondCreation => "bond_creation"
  | withdrawal => "withdrawal"
  | attestation => "attestation"

/-- A call of a handler, and whether it returned. -/
structure Call where
  handler : Handler
  op : Operation
  returned : Bool
  deriving DecidableEq

structure Captured where
  eventType : String
  op : Operation
  reason : String
  deriving DecidableEq

/-- A failure of a handler, not of a schema. -/
def Captured.isCall (c : Captured) : Bool := c.eventType = "replay_range_op_failure"

structure Progress where
  calls : List Call
  captured : List Captured
  processed : Nat
  errors : Nat
  deriving DecidableEq

structure ReplayResult where
  success : Bool
  processed : Nat
  errors : Nat
  deriving DecidableEq

/-- The registered handlers, why a schema rejects an operation, and the error of a handler in its
call after a number of others. -/
structure Service where
  registered : Handler → Bool
  rejects : Handler → Operation → Option String
  fails : Nat → Handler → Operation → Option String
  attestationUnchecked : ∀ op, rejects .attestation op = none

namespace Service

variable (s : Service)

def handlerFor (op : Operation) : Option Handler :=
  if op.type = "create_bond" ∧ s.registered .bondCreation then some .bondCreation
  else if op.type = "payment" ∧ s.registered .withdrawal then some .withdrawal
  else if ((op.type.toList.map Char.toLower).tails.any "attest".toList.isPrefixOf) ∧
      s.registered .attestation then some .attestation
  else none

def replayOperation (p : Progress) (op : Operation) : Progress :=
  match s.handlerFor op with
  | none => p
  | some handler =>
    match s.rejects handler op with
    | some reason =>
      { p with errors := p.errors + 1, captured := p.captured ++ [⟨handler.key, op, reason⟩] }
    | none =>
      match s.fails p.calls.length handler op with
      | none => { p with calls := p.calls ++ [⟨handler, op, true⟩], processed := p.processed + 1 }
      | some message =>
        { p with
          calls := p.calls ++ [⟨handler, op, false⟩]
          errors := p.errors + 1
          captured := p.captured ++ [⟨"replay_range_op_failure", op, message⟩] }

def replayLedger (ledger : Nat → List Operation) (p : Progress) (seq : Nat) : Progress :=
  ((ledger seq).take 200).foldl s.replayOperation p

def sequence (fromLedger toLedger : Nat) : List Nat :=
  range' fromLedger (toLedger + 1 - fromLedger)

def replayLedgerRange (ledger : Nat → List Operation) (fromLedger toLedger : Nat) :
    Except String (ReplayResult × Progress) :=
  if fromLedger > toLedger then .error "fromLedger must be <= toLedger"
  else
    let p := (sequence fromLedger toLedger).foldl (s.replayLedger ledger) ⟨[], [], 0, 0⟩
    .ok (⟨p.errors = 0, p.processed, p.errors⟩, p)

/-- The operation has a handler, and passes its schema. -/
def passes (op : Operation) : Bool :=
  (s.handlerFor op).any fun handler => (s.rejects handler op).isNone

def rejectedBySchema (op : Operation) : Bool := (s.handlerFor op).isSome && !s.passes op

/-- The operations that pass were given to their handlers once, in order; the others with a handler,
and the calls that failed, were captured once, in order. -/
structure Accounts (ops : List Operation) (p : Progress) : Prop where
  called : p.calls.map (fun call => (some call.handler, call.op)) =
    (ops.filter s.passes).map fun op => (s.handlerFor op, op)
  rejected : (p.captured.filter (!·.isCall)).map Captured.op = ops.filter s.rejectedBySchema
  failed : (p.captured.filter (·.isCall)).map Captured.op =
    (p.calls.filter (!·.returned)).map Call.op
  processed : p.processed = (p.calls.filter Call.returned).length
  errors : p.errors = p.captured.length

variable {s}

theorem isCall_key (handler : Handler) (op : Operation) (reason : String) :
    Captured.isCall ⟨handler.key, op, reason⟩ = false := by
  cases handler <;> rfl

theorem isCall_failure (op : Operation) (message : String) :
    Captured.isCall ⟨"replay_range_op_failure", op, message⟩ = true := rfl

theorem Accounts.step {ops : List Operation} {p : Progress} (h : s.Accounts ops p)
    (op : Operation) : s.Accounts (ops ++ [op]) (s.replayOperation p op) := by
  obtain ⟨hc, hb, hf, hd, he⟩ := h
  unfold replayOperation
  split
  · next hn =>
    have hp : s.passes op = false := by simp [passes, hn]
    exact ⟨by simpa [hp] using hc, by simpa [rejectedBySchema, hn] using hb, hf, hd, he⟩
  · next handler hs =>
    split
    · next reason hr =>
      have hp : s.passes op = false := by simp [passes, hs, hr]
      have hj : s.rejectedBySchema op = true := by simp [rejectedBySchema, hs, hp]
      exact ⟨by simpa [hp] using hc, by simp [hj, hb, isCall_key], by simpa [isCall_key] using hf,
        hd, by simp [he]⟩
    · next ha =>
      have hp : s.passes op = true := by simp [passes, hs, ha]
      have hj : s.rejectedBySchema op = false := by simp [rejectedBySchema, hp]
      split
      · exact ⟨by simp [hp, hc, hs], by simp [hb, hj], by simpa using hf, by simp [hd], he⟩
      · exact ⟨by simp [hp, hc, hs], by simp [hb, hj, isCall_failure],
          by simp [hf, filter_cons, isCall_failure], by simpa using hd, by simp [he]⟩

theorem accounts_range (ledger : Nat → List Operation) (seqs : List Nat) :
    s.Accounts (seqs.flatMap fun seq => (ledger seq).take 200)
      (seqs.foldl (s.replayLedger ledger) ⟨[], [], 0, 0⟩) := by
  have ha : ∀ ops : List Operation,
      s.Accounts ops (ops.foldl s.replayOperation ⟨[], [], 0, 0⟩) := by
    intro ops
    induction ops using reverseRecOn with
    | nil => exact ⟨rfl, by simp, by simp, rfl, rfl⟩
    | append_singleton ops op ih =>
      rw [foldl_append]
      exact ih.step op
  have hf : seqs.foldl (s.replayLedger ledger) ⟨[], [], 0, 0⟩ =
      (seqs.flatMap fun seq => (ledger seq).take 200).foldl s.replayOperation ⟨[], [], 0, 0⟩ :=
    foldl_flatMap.symm
  exact hf ▸ ha _

variable {ledger : Nat → List Operation}

/-- No operation with a handler is behind the first 200 of a ledger. -/
def NoneBehind (s : Service) (ledger : Nat → List Operation) (seqs : List Nat) : Prop :=
  ∀ seq ∈ seqs, ∀ op ∈ (ledger seq).drop 200, s.handlerFor op = none

theorem filter_take {seqs : List Nat} (h : s.NoneBehind ledger seqs) {select : Operation → Bool}
    (hs : ∀ op, s.handlerFor op = none → select op = false) :
    (seqs.flatMap fun seq => (ledger seq).take 200).filter select =
      (seqs.flatMap ledger).filter select := by
  rw [filter_flatMap, filter_flatMap]
  refine flatMap_congr fun seq hm => ?_
  have hd : ((ledger seq).drop 200).filter select = [] :=
    filter_eq_nil_iff.mpr fun op ho => by simp [hs op (h seq hm op ho)]
  conv_rhs => rw [← take_append_drop 200 (ledger seq), filter_append, hd, append_nil]

/-- What the first 200 operations of each ledger leave accounts for all operations precisely when
no operation with a handler is behind them. -/
theorem Accounts.all_iff {seqs : List Nat} {p : Progress}
    (h : s.Accounts (seqs.flatMap fun seq => (ledger seq).take 200) p) :
    s.Accounts (seqs.flatMap ledger) p ↔ s.NoneBehind ledger seqs := by
  constructor
  · intro ha seq hs op ho
    have hp : (seqs.flatMap ledger).Perm ((seqs.flatMap fun seq => (ledger seq).take 200) ++
        seqs.flatMap fun seq => (ledger seq).drop 200) := by
      refine Perm.trans (.of_eq (flatMap_congr fun seq _ => ?_)) (flatMap_append_perm ..).symm
      exact (take_append_drop 200 _).symm
    have hm : op ∈ seqs.flatMap fun seq => (ledger seq).drop 200 := mem_flatMap.mpr ⟨seq, hs, ho⟩
    have hz : ∀ select : Operation → Bool, ((seqs.flatMap ledger).filter select).length =
        ((seqs.flatMap fun seq => (ledger seq).take 200).filter select).length →
        select op = false := by
      intro select hl
      rw [(hp.filter _).length_eq, filter_append, length_append, Nat.add_eq_left,
        length_eq_zero_iff, filter_eq_nil_iff] at hl
      simpa using hl op hm
    have hx := hz s.passes (by simpa using congrArg length (ha.called.symm.trans h.called))
    have hy := hz s.rejectedBySchema (congrArg length (ha.rejected.symm.trans h.rejected))
    simpa [rejectedBySchema, hx] using hy
  · intro hn
    refine ⟨?_, ?_, h.failed, h.processed, h.errors⟩
    · rw [h.called, filter_take hn fun op ho => by simp [passes, ho]]
    · rw [h.rejected, filter_take hn fun op ho => by simp [rejectedBySchema, ho]]

/-- Each operation with a handler was given to it exactly once or captured precisely when none is
behind the first 200 of its ledger, and then success means that none failed. -/
theorem replayLedgerRange_complete {fromLedger toLedger : Nat} (hRange : fromLedger ≤ toLedger) :
    ∃ result p, s.replayLedgerRange ledger fromLedger toLedger = .ok (result, p) ∧
      let ops := (sequence fromLedger toLedger).flatMap ledger
      (s.Accounts ops p ↔ s.NoneBehind ledger (sequence fromLedger toLedger)) ∧
      result.processed = (p.calls.filter Call.returned).length ∧
      (result.success = true → (∀ call ∈ p.calls, call.returned = true) ∧
        (s.NoneBehind ledger (sequence fromLedger toLedger) → ∀ op ∈ ops,
          (s.handlerFor op).isSome → s.passes op = true ∧ ∃ call ∈ p.calls, call.op = op)) := by
  have h := accounts_range (s := s) ledger (sequence fromLedger toLedger)
  rw [replayLedgerRange, if_neg (Nat.not_lt.mpr hRange)]
  refine ⟨_, _, rfl, h.all_iff, h.processed, fun hu => ?_⟩
  have he := length_eq_zero_iff.mp (h.errors.symm.trans (of_decide_eq_true hu))
  refine ⟨fun call hc => ?_, fun hn op hm hh => ?_⟩
  · by_contra hr
    have hf := h.failed
    rw [he, filter_nil, map_nil, eq_comm, map_eq_nil_iff, filter_eq_nil_iff] at hf
    exact hf call hc (by simpa using hr)
  · have ha := h.all_iff.mpr hn
    have hp : s.passes op = true := by
      by_contra hp
      have hr := ha.rejected
      rw [he, filter_nil, map_nil, eq_comm, filter_eq_nil_iff] at hr
      exact hr op hm (by simp [rejectedBySchema, hh, hp])
    have hg := mem_map_of_mem (f := fun op => (s.handlerFor op, op)) (mem_filter.mpr ⟨hm, hp⟩)
    rw [← ha.called] at hg
    obtain ⟨call, hc, hx⟩ := mem_map.mp hg
    exact ⟨hp, call, hc, (Prod.mk.inj hx).2⟩

end Service

def lenient : Service where
  registered := fun _ => true
  rejects := fun _ _ => none
  fails := fun _ _ _ => none
  attestationUnchecked := fun _ => rfl

def bonds (count : Nat) (_ : Nat) : List Operation := replicate count ⟨"1", "create_bond"⟩

theorem replayLedgerRange_complete_two :
    ∃ result p, lenient.replayLedgerRange (bonds 2) 5 6 = .ok (result, p) ∧
      lenient.Accounts ((Service.sequence 5 6).flatMap (bonds 2)) p ∧
      result.processed = (p.calls.filter Call.returned).length := by
  obtain ⟨result, p, hr, ha, hp, -⟩ :=
    @Service.replayLedgerRange_complete lenient (bonds 2) 5 6 (by decide)
  exact ⟨result, p, hr, ha.mpr (by simp [Service.NoneBehind, bonds]), hp⟩

/-- A ledger with 201 bonds: the last one is left out, and the replay is a success. -/
theorem replay_leaves_out : (lenient.replayLedgerRange (bonds 201) 5 5).toOption.map
      (fun answer => (answer.1, answer.2.calls.length, answer.2.captured)) =
        some (⟨true, 200, 0⟩, 200, []) := by
  decide +kernel

end Credence.Replay.Range
