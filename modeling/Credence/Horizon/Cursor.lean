import Credence.Horizon.Redelivery
import Credence.ProofKit.Runs

/-! The cursor of the bond stream, with handlers that overlap. A process resumes from the stored
cursor, and one whose stream fails from the cursor in memory; where there is none, from the end of
the chain. -/

namespace Credence.Horizon

open Crypto ProofKit List

/-- Its variable `cursor`, with `none` for `now`, the token up to which its stream has delivered,
the operations whose handlers have not committed, and those that have committed but not set the
variable. -/
structure Process where
  cursor : Option Nat
  position : Nat
  pending : List Operation
  finishing : List Operation

structure World where
  chain : List Operation
  listener : Listener
  process : Option Process

namespace World

def start : World := ⟨[], .start, none⟩

def lastToken (w : World) : Nat := (w.chain.getLast?.map Operation.pagingToken).getD 0

def stored (w : World) : Option Nat := w.listener.db.cursor

end World

inductive Action where
  | publish (op : Operation)
  | start (loaded : Bool)
  | deliver
  | commit (op : Operation)
  | setCursor (op : Operation)
  | route (op : Operation)
  | routeFails (op : Operation)
  | reconnect
  | crash

section

variable (isAccount : String → Bool) (hash : TextHash)

def World.openStream (w : World) (cursor : Option Nat) (pending finishing : List Operation) :
    World :=
  { w with process := some ⟨cursor, cursor.getD w.lastToken, pending, finishing⟩ }

def step : Action → World → Option World
  | .publish op, w =>
    if w.lastToken < op.pagingToken ∧ op.type = "create_bond" ∧ op.isValid isAccount = true then
      some { w with chain := w.chain ++ [op] }
    else none
  | .start loaded, w =>
    if w.process.isNone then some (w.openStream (if loaded then w.stored else none) [] []) else none
  | .deliver, w =>
    w.process.bind fun p =>
      (w.chain.find? fun op => p.position < op.pagingToken).map fun op =>
        { w with
          process := some { p with position := op.pagingToken, pending := p.pending ++ [op] } }
  | .commit op, w =>
    w.process.bind fun p =>
      if op ∈ p.pending then
        (transaction hash op w.listener.db).map fun db =>
          { w with
            listener := { w.listener with db }
            process := some { p with
              pending := p.pending.erase op
              finishing := p.finishing ++ [op] } }
      else none
  | .setCursor op, w =>
    w.process.bind fun p =>
      if op ∈ p.finishing then
        some { w with
          process := some { p with
            cursor := some op.pagingToken
            finishing := p.finishing.erase op } }
      else none
  | .route op, w =>
    w.process.bind fun p =>
      if op ∈ p.pending then
        some { w with
          listener := { w.listener with dlq := w.listener.dlq ++ [(op, .processingError)] }
          process := some { p with pending := p.pending.erase op } }
      else none
  | .routeFails op, w =>
    w.process.bind fun p =>
      if op ∈ p.pending then
        some { w with process := some { p with pending := p.pending.erase op } }
      else none
  | .reconnect, w => w.process.map fun p => w.openStream p.cursor p.pending p.finishing
  | .crash, w => w.process.map fun _ => { w with process := none }

end

/-! ### Steps in order -/

/-- A transaction commits when no handler of an earlier operation is open; what is routed to the
dead-letter queue arrives there; a process starts with a stored token, or before the first
operation; a stream is opened again when no handler runs and the variable has the stored token. -/
def inOrder (action : Action) (w : World) : Bool :=
  match action with
  | .commit op =>
    match w.process with
    | none => true
    | some p => p.pending.all fun other => op.pagingToken ≤ other.pagingToken
  | .routeFails _ => false
  | .start loaded => w.chain.isEmpty || loaded && w.stored.isSome
  | .reconnect =>
    match w.process with
    | none => true
    | some p => p.pending.isEmpty && p.finishing.isEmpty && p.cursor == w.stored && w.stored.isSome
  | _ => true

def StepsInOrder (action : Action) (w : World) : Prop := inOrder action w = true

instance (action : Action) (w : World) : Decidable (StepsInOrder action w) :=
  inferInstanceAs (Decidable (_ = true))

def Listener.Settled (listener : Listener) (op : Operation) : Prop :=
  (listener.db.states op.sourceAccount).isSome = true ∧
      (∃ event ∈ listener.db.events, event.streamName = streamName ∧ event.eventId = op.id) ∨
    ∃ reason, (op, reason) ∈ listener.dlq

def World.Safe (w : World) : Prop :=
  ∀ token, w.stored = some token → ∀ op ∈ w.chain, op.pagingToken ≤ token → w.listener.Settled op

/-- What a process has delivered is settled or in an open handler, and no open handler is behind the
stored cursor. -/
structure Process.Ok (w : World) (p : Process) : Prop where
  delivered : ∀ op ∈ w.chain, op.pagingToken ≤ p.position → w.listener.Settled op ∨ op ∈ p.pending
  known : ∀ op ∈ p.pending, op ∈ w.chain ∧ op.pagingToken ≤ p.position
  ahead : ∀ token, w.stored = some token →
    token ≤ p.position ∧ ∀ op ∈ p.pending, token ≤ op.pagingToken
  behind : p.position ≤ w.lastToken

/-- Every operation up to the stored cursor is settled. -/
structure World.Ok (w : World) : Prop where
  tokens : w.chain.Pairwise fun a b => a.pagingToken < b.pagingToken
  safe : w.Safe
  behind : ∀ token, w.stored = some token → token ≤ w.lastToken
  process : ∀ p, w.process = some p → p.Ok w

variable {op : Operation}

theorem commits_of_transaction {hash : TextHash} {db db' : Db}
    (h : transaction hash op db = some db') : Commits hash op db db' := by
  cases hc : op.commits with
  | true =>
    obtain ⟨db'', hs, hd⟩ := transaction_commits hc hash db
    obtain rfl : db'' = db' := Option.some.inj (hs.symm.trans h)
    exact hd
  | false =>
    rw [transaction_rollback hc] at h
    cases h

section

variable {hash : TextHash} {op : Operation} {listener : Listener} {db : Db}

theorem settled_of_commits (h : Commits hash op listener.db db) :
    Listener.Settled { listener with db } op := by
  refine .inl ⟨by simp [h.states], ?_⟩
  rcases h.events with ⟨⟨event, he, hi⟩, hs⟩ | ⟨-, event, hr, ha⟩
  · exact ⟨event, by simpa [hs] using he, hi⟩
  · exact ⟨event, by simp [ha], hr.streamName, hr.eventId⟩

variable {other : Operation}

theorem Listener.Settled.of_commits (hs : listener.Settled other)
    (h : Commits hash op listener.db db) : Listener.Settled { listener with db } other := by
  rcases hs with ⟨ht, event, he, hi⟩ | hr
  · refine .inl ⟨?_, event, ?_, hi⟩
    · simp only [h.states]
      split
      · rfl
      · exact ht
    · rcases h.events with ⟨-, hb⟩ | ⟨-, added, -, ha⟩
      · simpa [hb] using he
      · simp [ha, he]
  · exact .inr hr

theorem Listener.Settled.of_route (hs : listener.Settled other)
    (entry : Operation × DlqReasonCode) :
    Listener.Settled { listener with dlq := listener.dlq ++ [entry] } other := by
  rcases hs with hc | ⟨reason, hr⟩
  · exact .inl hc
  · exact .inr ⟨reason, mem_append_left _ hr⟩

end

theorem lastToken_ge {w : World} (h : w.chain.Pairwise fun a b => a.pagingToken < b.pagingToken) :
    ∀ op ∈ w.chain, op.pagingToken ≤ w.lastToken := by
  intro op ho
  cases hl : w.chain.getLast? with
  | none =>
    rw [getLast?_eq_none_iff] at hl
    rw [hl] at ho
    cases ho
  | some last =>
    obtain ⟨init, hi⟩ := getLast?_eq_some_iff.mp hl
    simp only [World.lastToken, hl, Option.map_some, Option.getD_some]
    rw [hi] at ho h
    rcases mem_append.mp ho with ho | ho
    · exact ((pairwise_append.mp h).2.2 op ho last (by simp)).le
    · rw [mem_singleton.mp ho]

theorem eq_of_token {chain : List Operation}
    (h : chain.Pairwise fun a b => a.pagingToken < b.pagingToken) {other : Operation}
    (ho : op ∈ chain) (ha : other ∈ chain) (ht : op.pagingToken = other.pagingToken) :
    op = other :=
  have hn : (chain.map Operation.pagingToken).Nodup := pairwise_map.mpr (h.imp fun hl => hl.ne)
  inj_on_of_nodup_map hn ho ha ht

section

variable {isAccount : String → Bool} {hash : TextHash} {w : World}

variable {op : Operation} {p : Process}

theorem World.Ok.publish (h : w.Ok) (ht : w.lastToken < op.pagingToken) :
    World.Ok { w with chain := w.chain ++ [op] } := by
  have hc := lastToken_ge h.tokens
  have hg : World.lastToken { w with chain := w.chain ++ [op] } = op.pagingToken := by
    simp [World.lastToken]
  refine ⟨?_, fun token hs other ho hl => ?_, fun token hs => ?_, fun p hProcess => ?_⟩
  · rw [pairwise_append]
    refine ⟨h.tokens, pairwise_singleton _ _, fun earlier he last hm => ?_⟩
    rw [mem_singleton.mp hm]
    exact (hc earlier he).trans_lt ht
  · rcases mem_append.mp ho with ho | ho
    · exact h.safe token hs other ho hl
    · have hb := h.behind token hs
      rw [mem_singleton.mp ho] at hl
      omega
  · have hb := h.behind token hs
    omega
  · obtain ⟨hd, hk, ha, hb⟩ := h.process p hProcess
    refine ⟨fun other ho hl => ?_, fun other ho => ?_, ha, by omega⟩
    · rcases mem_append.mp ho with ho | ho
      · exact hd other ho hl
      · rw [mem_singleton.mp ho] at hl
        omega
    · exact ⟨mem_append_left _ (hk other ho).1, (hk other ho).2⟩

theorem World.Ok.openStream (h : w.Ok) {cursor : Option Nat} (hc : w.chain = [] ∧ cursor = none ∨
      ∃ token, cursor = some token ∧ w.stored = some token) :
    (w.openStream cursor [] []).Ok := by
  refine ⟨h.tokens, h.safe, h.behind, fun p hProcess => ?_⟩
  obtain rfl : (⟨cursor, cursor.getD w.lastToken, [], []⟩ : Process) = p := Option.some.inj hProcess
  rcases hc with ⟨hh, rfl⟩ | ⟨token, rfl, hs⟩
  · refine ⟨fun op ho => ?_, by simp, fun token hs => ⟨h.behind token hs, by simp⟩, le_rfl⟩
    rw [show (w.openStream none [] []).chain = w.chain from rfl, hh] at ho
    cases ho
  · refine ⟨fun op ho hl => .inl (h.safe token hs op ho hl), by simp,
      fun other ht => ?_, h.behind token hs⟩
    obtain rfl : token = other := Option.some.inj (hs.symm.trans ht)
    exact ⟨le_rfl, by simp⟩

theorem find?_next {chain : List Operation} {position : Nat}
    (ht : chain.Pairwise fun a b => a.pagingToken < b.pagingToken)
    (hn : (chain.find? fun op => position < op.pagingToken) = some op) :
    op ∈ chain ∧ position < op.pagingToken ∧ ∀ other ∈ chain, other.pagingToken ≤ op.pagingToken →
        other.pagingToken ≤ position ∨ other = op := by
  obtain ⟨hp, before, after, rfl, hb⟩ := find?_eq_some_iff_append.mp hn
  refine ⟨by simp, by simpa using hp, fun other ho hl => ?_⟩
  rcases mem_append.mp ho with ho | ho
  · exact .inl (by simpa using hb other ho)
  · rcases mem_cons.mp ho with rfl | ho
    · exact .inr rfl
    · have hLt := (pairwise_cons.mp (pairwise_append.mp ht).2.1).1 other ho
      omega

section

variable (h : w.Ok) (hProcess : w.process = some p)
include h hProcess

theorem World.Ok.deliver (hn : (w.chain.find? fun op => p.position < op.pagingToken) = some op) :
    World.Ok { w with
      process := some { p with position := op.pagingToken, pending := p.pending ++ [op] } } := by
  obtain ⟨hd, hk, ha, hc⟩ := h.process p hProcess
  obtain ⟨hOp, hp, hb⟩ := find?_next h.tokens hn
  refine ⟨h.tokens, h.safe, h.behind, fun q hq => ?_⟩
  obtain rfl := Option.some.inj hq
  refine ⟨fun other ho hl => ?_, fun other ho => ?_, fun token hs => ⟨?_, ?_⟩,
    lastToken_ge h.tokens op hOp⟩
  · rcases hb other ho hl with he | rfl
    · rcases hd other ho he with hf | hg
      · exact .inl hf
      · exact .inr (mem_append_left _ hg)
    · exact .inr (by simp)
  · rcases mem_append.mp ho with ho | ho
    · exact ⟨(hk other ho).1, (hk other ho).2.trans hp.le⟩
    · rw [mem_singleton.mp ho]
      exact ⟨hOp, le_rfl⟩
  · exact (ha token hs).1.trans hp.le
  · intro other ho
    rcases mem_append.mp ho with ho | ho
    · exact (ha token hs).2 other ho
    · rw [mem_singleton.mp ho]
      exact (ha token hs).1.trans hp.le

theorem World.Ok.commit (hOp : op ∈ p.pending)
    (hf : ∀ other ∈ p.pending, op.pagingToken ≤ other.pagingToken) {db : Db}
    (hc : Commits hash op w.listener.db db) :
    World.Ok { w with
      listener := { w.listener with db }
      process := some { p with
        pending := p.pending.erase op
        finishing := p.finishing ++ [op] } } := by
  obtain ⟨hd, hk, ha, hb⟩ := h.process p hProcess
  obtain ⟨hh, he⟩ := hk op hOp
  have hs : ∀ token, db.cursor = some token → token = op.pagingToken := by
    intro token ht
    exact Option.some.inj (ht.symm.trans hc.cursor)
  refine ⟨h.tokens, fun token ht other ho hl => ?_, fun token ht => ?_, fun q hq => ?_⟩
  · rw [hs token ht] at hl
    rcases hd other ho (hl.trans he) with hg | hp
    · exact hg.of_commits hc
    · obtain rfl : other = op :=
        eq_of_token h.tokens ho hh (le_antisymm hl (hf other hp))
      exact settled_of_commits hc
  · rw [hs token ht]
    exact lastToken_ge h.tokens op hh
  · obtain rfl := Option.some.inj hq
    refine ⟨fun other ho hl => ?_,
      fun other ho => hk other (mem_of_mem_erase ho), fun token ht => ?_, hb⟩
    · by_cases hi : other = op
      · subst hi
        exact .inl (settled_of_commits hc)
      · rcases hd other ho hl with hg | hp
        · exact .inl (hg.of_commits hc)
        · exact .inr ((mem_erase_of_ne hi).mpr hp)
    · rw [hs token ht]
      exact ⟨he, fun other ho => hf other (mem_of_mem_erase ho)⟩

theorem World.Ok.route : World.Ok { w with
      listener := { w.listener with dlq := w.listener.dlq ++ [(op, .processingError)] }
      process := some { p with pending := p.pending.erase op } } := by
  obtain ⟨hd, hk, ha, hb⟩ := h.process p hProcess
  refine ⟨h.tokens, fun token ht other ho hl =>
    (h.safe token ht other ho hl).of_route _, h.behind, fun q hq => ?_⟩
  obtain rfl := Option.some.inj hq
  refine ⟨fun other ho hl => ?_, fun other ho => hk other (mem_of_mem_erase ho),
    fun token ht => ⟨(ha token ht).1,
      fun other ho => (ha token ht).2 other (mem_of_mem_erase ho)⟩, hb⟩
  by_cases hs : other = op
  · subst hs
    exact .inl (.inr ⟨.processingError, by simp⟩)
  · rcases hd other ho hl with he | hp
    · exact .inl (he.of_route _)
    · exact .inr ((mem_erase_of_ne hs).mpr hp)

end

def NotBehind (earlier later : World) : Prop :=
  ∀ token, earlier.stored = some token → ∃ token', later.stored = some token' ∧ token ≤ token'

theorem NotBehind.of_eq {earlier later : World} (h : later.stored = earlier.stored) :
    NotBehind earlier later := fun token hs => ⟨token, h.trans hs, le_rfl⟩

theorem World.Ok.step {action : Action} {w' : World} (h : w.Ok) (ho : StepsInOrder action w)
    (hs : step isAccount hash action w = some w') : w'.Ok ∧ NotBehind w w' := by
  cases action with simp only [Horizon.step, Option.bind_eq_some_iff, Option.map_eq_some_iff,
    Option.ite_none_right_eq_some, Option.some.injEq] at hs
  | publish =>
    obtain ⟨⟨ht, -⟩, rfl⟩ := hs
    exact ⟨h.publish ht, .of_eq rfl⟩
  | start loaded =>
    obtain ⟨-, rfl⟩ := hs
    refine ⟨h.openStream ?_, .of_eq rfl⟩
    simp only [StepsInOrder, inOrder, Bool.or_eq_true, List.isEmpty_iff, Bool.and_eq_true,
      Option.isSome_iff_exists] at ho
    rcases ho with hc | ⟨rfl, token, he⟩
    · cases loaded with
      | false => exact .inl ⟨hc, rfl⟩
      | true =>
        cases he : w.stored with
        | none => exact .inl ⟨hc, rfl⟩
        | some token => exact .inr ⟨token, rfl, rfl⟩
    · exact .inr ⟨token, he, he⟩
  | deliver =>
    obtain ⟨p, hProcess, op, hn, rfl⟩ := hs
    exact ⟨h.deliver hProcess hn, .of_eq rfl⟩
  | commit op =>
    obtain ⟨p, hProcess, hOp, db, hr, rfl⟩ := hs
    have hg := commits_of_transaction hr
    simp only [StepsInOrder, inOrder, hProcess, all_eq_true, decide_eq_true_eq] at ho
    refine ⟨h.commit hProcess hOp ho hg, fun token he => ?_⟩
    exact ⟨op.pagingToken, hg.cursor, ((h.process p hProcess).ahead token he).2 op hOp⟩
  | setCursor =>
    obtain ⟨p, hProcess, -, rfl⟩ := hs
    obtain ⟨hd, hk, ha, hb⟩ := h.process p hProcess
    refine ⟨⟨h.tokens, h.safe, h.behind, fun q hq => ?_⟩, .of_eq rfl⟩
    obtain rfl := Option.some.inj hq
    exact ⟨hd, hk, ha, hb⟩
  | route =>
    obtain ⟨p, hProcess, -, rfl⟩ := hs
    exact ⟨h.route hProcess, .of_eq rfl⟩
  | routeFails => simp [StepsInOrder, inOrder] at ho
  | reconnect =>
    obtain ⟨p, hProcess, rfl⟩ := hs
    simp only [StepsInOrder, inOrder, hProcess, Bool.and_eq_true, List.isEmpty_iff, beq_iff_eq,
      Option.isSome_iff_exists] at ho
    obtain ⟨⟨⟨hp, hf⟩, hu⟩, token, he⟩ := ho
    rw [hp, hf]
    exact ⟨h.openStream (.inr ⟨token, hu.trans he, he⟩), .of_eq rfl⟩
  | crash =>
    obtain ⟨p, -, rfl⟩ := hs
    exact ⟨⟨h.tokens, h.safe, h.behind, fun q hq => by cases hq⟩, .of_eq rfl⟩

theorem ok_start : World.start.Ok :=
  ⟨.nil, fun _ _ _ ho => (not_mem_nil ho).elim, fun _ hs => (by cases hs),
    fun _ hProcess => (by cases hProcess)⟩

/-- In a run of steps in order, every operation up to the stored cursor is settled, in every state,
and the stored cursor never goes back. -/
theorem cursor_safe {before after : List Action} {mid w : World}
    (hOrder : Along (step isAccount hash) StepsInOrder (before ++ after) World.start)
    (hBefore : run (step isAccount hash) before World.start = some mid)
    (hAfter : run (step isAccount hash) after mid = some w) :
    mid.Safe ∧ w.Safe ∧ NotBehind mid w := by
  have hp : ∀ a s t, World.Ok s → StepsInOrder a s → step isAccount hash a s = some t →
      World.Ok t := fun _ _ _ ho hOrder ht => (ho.step hOrder ht).1
  have hm : mid.Ok := run_invariant World.Ok hp ok_start hOrder.append_left hBefore
  have hr := hOrder.append_right hBefore
  have ha : w.Ok := run_invariant World.Ok hp hm hr hAfter
  refine ⟨hm.safe, ha.safe, ?_⟩
  exact run_relates World.Ok NotBehind hp (fun _ => .of_eq rfl)
    (fun _ _ _ hf he token hs => by
      obtain ⟨token', hs', hl⟩ := hf token hs
      obtain ⟨token'', hs'', hl'⟩ := he token' hs'
      exact ⟨token'', hs'', hl.trans hl'⟩)
    (fun _ _ _ ho hOrder ht => (ho.step hOrder ht).2) hm hr hAfter

end

def twoHandlers : List Action :=
  [.start true, .publish firstBond, .publish secondBond, .deliver, .deliver]

theorem cursor_safe_inOrder : ∃ mid w,
    run (step isZeroAccount sha256Hash) (twoHandlers ++ [.commit firstBond]) .start = some mid ∧
      run (step isZeroAccount sha256Hash) [.commit secondBond, .crash, .start true] mid = some w ∧
      mid.Safe ∧ w.Safe ∧ NotBehind mid w := by
  have hb : run (step isZeroAccount sha256Hash) (twoHandlers ++ [.commit firstBond]) .start =
      some _ := rfl
  have ho : Along (step isZeroAccount sha256Hash) StepsInOrder
      ((twoHandlers ++ [.commit firstBond]) ++ [.commit secondBond, .crash, .start true])
      .start := by
    decide +kernel
  exact ⟨_, _, hb, rfl, cursor_safe ho hb rfl⟩

/-- The second handler commits first. After a crash the process resumes behind an operation that
was never committed; without one, the first handler takes the cursor back. -/
theorem cursor_skips_and_regresses : (run (step isZeroAccount sha256Hash)
        (twoHandlers ++ [.commit secondBond, .crash, .start true]) .start).map
        (fun w => (w.stored, w.process.map Process.position,
          w.listener.db.events.map HorizonEventRecord.eventId, w.listener.dlq.length)) =
      some (some 200, some 200, ["200"], 0) ∧
    (run (step isZeroAccount sha256Hash) (twoHandlers ++ [.commit secondBond]) .start).map
        World.stored = some (some 200) ∧
    (run (step isZeroAccount sha256Hash) (twoHandlers ++ [.commit secondBond, .commit firstBond])
        .start).map World.stored = some (some 100) := by
  decide +kernel

end Credence.Horizon
