import Credence.Ingestion.Listener
import Credence.ProofKit.Lists
import Credence.ProofKit.Runs
import Mathlib.Data.List.Dedup
import Mathlib.Data.List.Perm.Subperm
import Mathlib.Data.Nat.Find

/-! The lock per node of `InMemoryDbRepository`. `withLock` leaves the promise
`prev.then(() => next)` in the map and takes away only `next` itself, which is never there. -/

namespace Credence.Ingestion

open Js ProofKit List Option

inductive NodeOperation where
  | upsertNode (nodeId amount : String)
  | updateNodeStatus (nodeId status : String) (amount : Option String)

def NodeOperation.nodeId : NodeOperation → String
  | upsertNode nodeId _ | updateNodeStatus nodeId _ _ => nodeId

/-- The arguments pass the checks that are made before the lock is asked for. -/
def NodeOperation.checked : NodeOperation → Bool
  | upsertNode nodeId amount => nodeId ≠ "" ∧ trim amount.toList ≠ []
  | updateNodeStatus nodeId status _ => nodeId ≠ "" ∧ (NodeStatus.ofText status).isSome

def NodeOperation.body : NodeOperation → Repository → Result Bool
  | upsertNode nodeId amount => Repository.upsertNode nodeId amount
  | updateNodeStatus nodeId status amount => Repository.updateNodeStatus nodeId status amount

/-- The two promises of a call of `withLock`: `next`, and `prev.then(() => next)`. -/
inductive LockPromise where
  | next (call : Nat)
  | chained (call : Nat)
  deriving DecidableEq

/-- `chained` means that `prev.then(() => next)` is resolved. -/
inductive LockStage where
  | waiting
  | running (outcome : Except IngestionError Bool)
  | released (outcome : Except IngestionError Bool)
  | chained (outcome : Except IngestionError Bool)

def LockStage.rank : LockStage → Nat
  | waiting => 0
  | running _ => 1
  | released _ => 2
  | chained _ => 3

structure LockCall where
  operation : NodeOperation
  prev : Option LockPromise
  stage : LockStage

namespace LockCall

def nodeId (c : LockCall) : String := c.operation.nodeId

def rank (c : LockCall) : Nat := c.stage.rank

def begun (c : LockCall) : Prop := 0 < c.rank

abbrev released (c : LockCall) : Prop := 1 < c.rank

end LockCall

structure LockedRepository where
  nodes : Repository
  locks : List (String × LockPromise)
  calls : List LockCall

inductive LockAction where
  | enter (operation : NodeOperation)
  | begin (call : Nat)
  | finish (call : Nat)
  | chain (call : Nat)

def LockAction.isTurn : LockAction → Bool
  | enter _ => false
  | _ => true

namespace LockedRepository

def empty : LockedRepository := ⟨[], [], []⟩

/-- A missing promise is `Promise.resolve()`. -/
def resolved (s : LockedRepository) : Option LockPromise → Bool
  | none => true
  | some (.next i) => s.calls[i]?.any fun c => 1 < c.rank
  | some (.chained i) => s.calls[i]?.any fun c => 2 < c.rank

/-- A body has no `await`, so it takes effect in the turn in which it begins. -/
def step (action : LockAction) (s : LockedRepository) : Option LockedRepository :=
  match action with
  | .enter operation =>
    if operation.checked then
      some { s with
        locks := Map.set operation.nodeId (.chained s.calls.length) s.locks
        calls := s.calls ++ [⟨operation, Map.get operation.nodeId s.locks, .waiting⟩] }
    else some s
  | .begin i => s.calls[i]?.bind fun c =>
    match c.stage, s.resolved c.prev with
    | .waiting, true =>
      let (outcome, nodes) := c.operation.body s.nodes
      some { s with nodes, calls := s.calls.set i { c with stage := .running outcome } }
    | _, _ => none
  | .finish i => s.calls[i]?.bind fun c =>
    match c.stage with
    | .running outcome =>
      some { s with
        locks :=
          if Map.get c.nodeId s.locks = some (.next i) then Map.delete c.nodeId s.locks
          else s.locks
        calls := s.calls.set i { c with stage := .released outcome } }
    | _ => none
  | .chain i => s.calls[i]?.bind fun c =>
    match c.stage, s.resolved c.prev with
    | .released outcome, true =>
      some { s with calls := s.calls.set i { c with stage := .chained outcome } }
    | _, _ => none

/-- The nodes with an operation in progress. -/
def inProgress (s : LockedRepository) : List String :=
  ((s.calls.filter fun c => ¬c.released).map LockCall.nodeId).dedup

/-- The node and the promise that each call awaits. -/
def tickets (s : LockedRepository) : List (String × Option LockPromise) :=
  s.calls.map fun c => (c.nodeId, c.prev)

end LockedRepository

/-- Each call awaits the last call on its node before it, and the map has the last of all. -/
structure Chain (tickets : List (String × Option LockPromise))
    (locks : List (String × LockPromise)) : Prop where
  known : ∀ nodeId p, Map.get nodeId locks = some p →
    ∃ k prev, p = .chained k ∧ tickets[k]? = some (nodeId, prev)
  last : ∀ (j : Nat) (nodeId : String) (prev : Option LockPromise),
    tickets[j]? = some (nodeId, prev) → ∃ k, Map.get nodeId locks = some (.chained k) ∧ j ≤ k
  prev : ∀ (i : Nat) (nodeId : String) (p : LockPromise), tickets[i]? = some (nodeId, some p) →
    ∃ k prev, k < i ∧ p = .chained k ∧ tickets[k]? = some (nodeId, prev)
  before : ∀ (i j : Nat) (nodeId : String) (p q : Option LockPromise), j < i →
    tickets[i]? = some (nodeId, p) → tickets[j]? = some (nodeId, q) →
    ∃ k, p = some (.chained k) ∧ j ≤ k

/-- What holds of the calls and the map between any two turns. -/
structure LockedRepository.Sound (s : LockedRepository) : Prop where
  distinct : Map.Nodup s.locks
  chain : Chain s.tickets s.locks
  begun : ∀ (i : Nat) (c : LockCall), s.calls[i]? = some c → c.begun → s.resolved c.prev = true

/-- What a turn of a call already made does. -/
structure LockedRepository.Turn (s t : LockedRepository) (i : Nat) (c d : LockCall) : Prop where
  found : s.calls[i]? = some c
  calls : t.calls = s.calls.set i d
  locks : t.locks = s.locks
  operation : d.operation = c.operation
  prev : d.prev = c.prev
  ready : s.resolved c.prev = true
  rank : d.rank = c.rank + 1

variable {s t : LockedRepository} {a : LockAction} {i j : Nat} {c d : LockCall} {nodeId : String}
  {all : List (String × Option LockPromise)} {locks : List (String × LockPromise)}

theorem Chain.concat (h : Chain all locks) (nodeId : String) :
    Chain (all ++ [(nodeId, Map.get nodeId locks)])
      (Map.set nodeId (.chained all.length) locks) := by
  obtain ⟨hl, ha, hp, hb⟩ := h
  constructor
  · grind [Map.get_set]
  · grind [Map.get_set]
  · intro i other p hi
    rcases getElem?_concat_eq_some_iff.mp hi with ho | ⟨rfl, he⟩
    · obtain ⟨k, prev, hk⟩ := hp i other p ho
      exact ⟨k, prev, by grind⟩
    · obtain ⟨rfl, hg⟩ := Prod.mk.inj he
      obtain ⟨k, prev, hk⟩ := hl nodeId p hg
      exact ⟨k, prev, by grind⟩
  · grind

theorem sum_rank_set {calls : List LockCall} (h : calls[i]? = some c) (hd : d.rank = c.rank + 1) :
    ((calls.set i d).map LockCall.rank).sum = (calls.map LockCall.rank).sum + 1 := by
  induction calls generalizing i with
  | nil => cases h
  | cons e calls ih =>
    cases i with
    | zero =>
      cases h
      simp only [set_cons_zero, map_cons, sum_cons]
      omega
    | succ i =>
      have hi := ih h
      simp only [set_cons_succ, map_cons, sum_cons]
      omega

namespace LockedRepository

theorem Sound.turn (h : s.Sound) (ha : a.isTurn = true) (hs : step a s = some t) :
    ∃ i c d, Turn s t i c d := by
  cases a with
  | enter => cases ha
  | begin i =>
    obtain ⟨c, hg, hs⟩ := bind_eq_some_iff.mp hs
    split at hs
    · next hw hr =>
      cases hs
      exact ⟨i, c, _, hg, rfl, rfl, rfl, rfl, hr, by rw [LockCall.rank, LockCall.rank, hw]; rfl⟩
    · cases hs
  | finish i =>
    obtain ⟨c, hg, hs⟩ := bind_eq_some_iff.mp hs
    split at hs
    · next outcome hw =>
      cases hs
      have hl : Map.get c.nodeId s.locks ≠ some (.next i) := by
        intro hg
        obtain ⟨k, prev, he, -⟩ := h.chain.known _ _ hg
        cases he
      have hc : c.rank = 1 := by
        rw [LockCall.rank, hw]
        rfl
      have hr := h.begun i c hg (show 0 < c.rank by omega)
      exact ⟨i, c, _, hg, rfl, if_neg hl, rfl, rfl, hr, by rw [hc]; rfl⟩
    · cases hs
  | chain i =>
    obtain ⟨c, hg, hs⟩ := bind_eq_some_iff.mp hs
    split at hs
    · next hw hr =>
      cases hs
      exact ⟨i, c, _, hg, rfl, rfl, rfl, rfl, hr, by rw [LockCall.rank, LockCall.rank, hw]; rfl⟩
    · cases hs

theorem ticket_of (h : s.calls[i]? = some c) : s.tickets[i]? = some (c.nodeId, c.prev) := by
  rw [tickets, getElem?_map, h]
  rfl

theorem call_of {prev : Option LockPromise} (h : s.tickets[i]? = some (nodeId, prev)) :
    ∃ c, s.calls[i]? = some c ∧ c.nodeId = nodeId := by
  rw [tickets, getElem?_map] at h
  obtain ⟨c, hc, he⟩ := map_eq_some_iff.mp h
  exact ⟨c, hc, congrArg Prod.fst he⟩

theorem Turn.tickets_eq (h : Turn s t i c d) : t.tickets = s.tickets := by
  have hd : (d.nodeId, d.prev) = (c.nodeId, c.prev) := by
    rw [h.prev, LockCall.nodeId, h.operation]
    rfl
  obtain ⟨hl, he⟩ := List.getElem?_eq_some_iff.mp (ticket_of h.found)
  rw [tickets, h.calls, map_set, hd, ← he]
  exact set_getElem_self hl

/-- A promise that is resolved stays so while no call goes back. -/
theorem resolved_mono (h : ∀ (j : Nat) (e : LockCall), s.calls[j]? = some e →
      ∃ e' : LockCall, t.calls[j]? = some e' ∧ e.rank ≤ e'.rank)
    {p : Option LockPromise} (hp : s.resolved p = true) : t.resolved p = true := by
  have hm : ∀ k j : Nat, (s.calls[j]?.any fun c => k < c.rank) = true →
      (t.calls[j]?.any fun c => k < c.rank) = true := by
    intro k j ha
    obtain ⟨e, he, hr⟩ := (any_eq_true _ _).mp ha
    obtain ⟨e', he', hl⟩ := h j e he
    have hk : k < e.rank := of_decide_eq_true hr
    exact (any_eq_true _ _).mpr ⟨e', he', decide_eq_true (by omega)⟩
  cases p with
  | none => rfl
  | some p =>
    cases p with
    | next j => exact hm 1 j hp
    | chained j => exact hm 2 j hp

theorem Turn.resolved_of (h : Turn s t i c d) {p : Option LockPromise}
    (hp : s.resolved p = true) : t.resolved p = true := by
  refine resolved_mono (fun j e he => ?_) hp
  rw [h.calls, getElem?_set]
  by_cases hj : i = j
  · subst hj
    cases h.found.symm.trans he
    obtain ⟨hl, -⟩ := List.getElem?_eq_some_iff.mp he
    have hr := h.rank
    rw [if_pos rfl, if_pos hl]
    exact ⟨d, rfl, by omega⟩
  · rw [if_neg hj]
    exact ⟨e, he, le_rfl⟩

theorem Sound.of_turn (h : s.Sound) (ht : Turn s t i c d) : t.Sound := by
  constructor
  · rw [ht.locks]
    exact h.distinct
  · rw [ht.locks, ht.tickets_eq]
    exact h.chain
  · rw [ht.calls]
    apply forall_getElem?_set fun j e _ he hb => ht.resolved_of (h.begun j e he hb)
    intro _
    rw [ht.prev]
    exact ht.resolved_of ht.ready

theorem Sound.enter (h : s.Sound) (operation : NodeOperation)
    (hs : step (.enter operation) s = some t) : t.Sound := by
  simp only [step] at hs
  split at hs
  · cases hs
    constructor
    · exact Map.nodup_set _ _ h.distinct
    · have hc := h.chain.concat operation.nodeId
      rw [tickets, length_map] at hc
      rw [tickets, map_append]
      exact hc
    · apply forall_getElem?_concat
      · intro i c hg hb
        refine resolved_mono (fun j e he => ?_) (h.begun i c hg hb)
        exact ⟨e, getElem?_concat_eq_some_iff.mpr (.inl he), le_rfl⟩
      · intro hb
        cases hb
  · cases hs
    exact h

theorem sound_run {actions : List LockAction} (hr : run step actions empty = some s) : s.Sound := by
  refine run_invariant Sound (fun a s t h _ hs => ?_) ?_ (along_anyAction _ _) hr
  · by_cases ha : a.isTurn = true
    · obtain ⟨i, c, d, ht⟩ := h.turn ha hs
      exact h.of_turn ht
    · cases a with
      | enter operation => exact h.enter operation hs
      | begin | finish | chain => exact absurd rfl ha
  · exact ⟨nodup_nil, ⟨nofun, nofun, nofun, nofun⟩, nofun⟩

/-- When a call has begun, the promises of all calls on its node before it are resolved. -/
theorem Sound.earlier (h : s.Sound) (hi : s.calls[i]? = some d) (hb : d.begun) (hj : j < i)
    (hc : s.calls[j]? = some c) (hn : c.nodeId = d.nodeId) : 2 < c.rank := by
  induction i using Nat.strong_induction_on generalizing d with
  | _ i ih =>
    have ht := ticket_of hi
    obtain ⟨k, hk, ha⟩ := h.chain.before i j _ _ _ hj ht (hn ▸ ticket_of hc)
    have hr := h.begun i d hi hb
    rw [hk] at ht hr
    obtain ⟨_, prev, hlt, he, hp⟩ := h.chain.prev i _ _ ht
    cases he
    obtain ⟨e, he, hr⟩ := (any_eq_true _ _).mp hr
    have hr : 2 < e.rank := of_decide_eq_true hr
    have hne := congrArg Prod.fst (Option.some.inj ((ticket_of he).symm.trans hp))
    rcases Nat.lt_or_eq_of_le ha with hlt' | rfl
    · exact ih k hlt he (Nat.zero_lt_of_lt hr) hlt' (hn.trans hne.symm)
    · cases he.symm.trans hc
      exact hr

/-- While some call has not released its turn, the first one whose promise is not resolved can go
on. -/
theorem Sound.progress (h : s.Sound) (hc : ∃ c ∈ s.calls, ¬c.released) :
    ∃ a t, a.isTurn = true ∧ step a s = some t := by
  classical
  have hu : ∃ k : Nat, ∃ c : LockCall, s.calls[k]? = some c ∧ ¬2 < c.rank := by
    obtain ⟨c, hm, hr⟩ := hc
    obtain ⟨k, hk⟩ := mem_iff_getElem?.mp hm
    exact ⟨k, c, hk, fun hl => hr (by unfold LockCall.released; omega)⟩
  obtain ⟨k, ⟨c, hg, hh⟩, hmin⟩ := Nat.findX hu
  have hp : s.resolved c.prev = true := by
    have ht := ticket_of hg
    cases hb : c.prev with
    | none => rfl
    | some p =>
      rw [hb] at ht
      obtain ⟨m, _, hm, rfl, hq⟩ := h.chain.prev k _ _ ht
      obtain ⟨e, he, -⟩ := call_of hq
      have hr : 2 < e.rank := by
        by_contra hn
        exact hmin m hm ⟨e, he, hn⟩
      exact (any_eq_true _ _).mpr ⟨e, he, decide_eq_true hr⟩
  cases hs : c.stage with
  | waiting => exact ⟨.begin k, _, rfl, by simp [step, hg, hs, hp]; rfl⟩
  | running outcome => exact ⟨.finish k, _, rfl, by simp [step, hg, hs]; rfl⟩
  | released outcome => exact ⟨.chain k, _, rfl, by simp [step, hg, hs, hp]; rfl⟩
  | chained outcome =>
    rw [LockCall.rank, hs] at hh
    exact absurd (Nat.lt_succ_self 2) hh

theorem Sound.turns (h : s.Sound) {later : List LockAction} (ht : ∀ a ∈ later, a.isTurn = true)
    (hr : run step later s = some t) :
    t.Sound ∧ t.calls.length = s.calls.length ∧
      later.length + (s.calls.map LockCall.rank).sum = (t.calls.map LockCall.rank).sum := by
  induction later generalizing s with
  | nil =>
    cases hr
    exact ⟨h, rfl, Nat.zero_add _⟩
  | cons a later ih =>
    obtain ⟨mid, hs, hr⟩ := run_cons.mp hr
    obtain ⟨i, c, d, hd⟩ := h.turn (ht a mem_cons_self) hs
    obtain ⟨hf, hl, hn⟩ := ih (h.of_turn hd) (fun b hb => ht b (mem_cons_of_mem a hb)) hr
    rw [hd.calls, length_set] at hl
    rw [hd.calls, sum_rank_set hd.found hd.rank] at hn
    refine ⟨hf, hl, ?_⟩
    rw [length_cons]
    omega

theorem sum_rank_le (calls : List LockCall) : (calls.map LockCall.rank).sum ≤ 3 * calls.length := by
  induction calls with
  | nil => exact le_rfl
  | cons c calls ih =>
    have hc : c.rank ≤ 3 := by
      unfold LockCall.rank LockStage.rank
      split <;> omega
    rw [map_cons, sum_cons, length_cons]
    omega

theorem Sound.mem_locks (h : s.Sound) :
    nodeId ∈ s.locks.map Prod.fst ↔ ∃ c ∈ s.calls, c.nodeId = nodeId := by
  rw [← not_iff_not, ← Map.get_eq_none_iff]
  constructor
  · rintro hn ⟨c, hm, rfl⟩
    obtain ⟨i, hi⟩ := mem_iff_getElem?.mp hm
    obtain ⟨k, hk, -⟩ := h.chain.last i _ _ (ticket_of hi)
    cases hn.symm.trans hk
  · intro hn
    by_contra hg
    obtain ⟨p, hp⟩ := ne_none_iff_exists'.mp hg
    obtain ⟨k, _, -, ht⟩ := h.chain.known _ p hp
    obtain ⟨c, hc, he⟩ := call_of ht
    exact hn ⟨c, mem_of_getElem? hc, he⟩

end LockedRepository

open LockedRepository

/-- The bodies of a node run one at a time and in call order, no outcome of a body blocks a later
one, and the map has an entry for each node that was ever locked. -/
theorem node_locks_exclusive_never_deleted {actions : List LockAction}
    (h : run step actions empty = some s) :
    (∀ (i j : Nat) (c d : LockCall), i < j → s.calls[i]? = some c → s.calls[j]? = some d →
      c.nodeId = d.nodeId → d.begun → c.released) ∧
    (∀ later t, (∀ a ∈ later, a.isTurn = true) → run step later s = some t →
      later.length ≤ 3 * s.calls.length ∧
        ((∃ c ∈ t.calls, ¬c.released) → ∃ a u, a.isTurn = true ∧ step a t = some u)) ∧
    (∀ nodeId, nodeId ∈ s.locks.map Prod.fst ↔ ∃ c ∈ s.calls, c.nodeId = nodeId) ∧
    ((∀ c ∈ s.calls, c.nodeId ∈ s.inProgress) → s.locks.length ≤ s.inProgress.length) := by
  have hs := sound_run h
  refine ⟨?_, ?_, fun _ => hs.mem_locks, ?_⟩
  · intro i j c d hj hc hd hn hb
    exact Nat.lt_of_succ_lt (hs.earlier hd hb hj hc hn)
  · intro later t ht hr
    obtain ⟨hf, hl, hn⟩ := hs.turns ht hr
    have hb := sum_rank_le t.calls
    exact ⟨by omega, hf.progress⟩
  · intro hi
    rw [← length_map Prod.fst]
    apply (subperm_of_subset hs.distinct _).length_le
    intro nodeId hm
    obtain ⟨c, hc, rfl⟩ := hs.mem_locks.mp hm
    exact hi c hc

def twoOperations : List LockAction :=
  [.enter (.upsertNode "n" "1"), .enter (.updateNodeStatus "n" "completed" none), .begin 0,
    .finish 0]

/-- The first of two operations on a node has run, and the second is in progress. -/
theorem node_locks_exclusive_two : ∃ s,
    run step twoOperations empty = some s ∧ s.locks.length ≤ s.inProgress.length := by
  have h : run step twoOperations empty = some _ := rfl
  exact ⟨_, h, (node_locks_exclusive_never_deleted h).2.2.2 (by decide)⟩

/-- One operation has run to its end, and its node is still in the map. -/
theorem node_lock_left_behind :
    (run step [.enter (.upsertNode "n" "1"), .begin 0, .finish 0, .chain 0] empty).map
      (fun s => (s.inProgress, s.locks)) = some ([], [("n", .chained 0)]) := by
  decide

section

variable {P : NodeStatus → Prop} (hP : ∀ a b, P a → b ∈ a.allowed → P b)
include hP

theorem NodeOperation.body_status (o : NodeOperation) {nodes : Repository}
    (h : ∃ node, Map.get nodeId nodes = some node ∧ P node.status) :
    ∃ node, Map.get nodeId (o.body nodes).2 = some node ∧ P node.status := by
  cases o with
  | upsertNode =>
    simp only [body, Repository.upsertNode]
    grind [Map.get_set]
  | updateNodeStatus id status =>
    simp only [body, Repository.updateNodeStatus]
    cases NodeStatus.ofText status <;> grind [Map.get_set]

/-- Whatever the calls and their order, a node stays, and its status leaves no set that is closed
under the allowed transitions. -/
theorem node_status_moves_on {actions : List LockAction} (h : run step actions s = some t)
    (hNode : ∃ node, Map.get nodeId s.nodes = some node ∧ P node.status) :
    ∃ node, Map.get nodeId t.nodes = some node ∧ P node.status := by
  refine run_invariant (fun t => ∃ node, Map.get nodeId t.nodes = some node ∧ P node.status) ?_
    hNode (along_anyAction _ _) h
  intro a s t hs _ h
  cases a with
  | enter =>
    simp only [step] at h
    split at h <;> cases h <;> exact hs
  | begin i =>
    -- The only step that writes to the nodes: a call has its turn and runs its body.
    obtain ⟨c, -, h⟩ := bind_eq_some_iff.mp h
    split at h
    · obtain rfl := Option.some.inj h
      exact c.operation.body_status hP hs
    · cases h
  | finish i | chain i =>
    obtain ⟨c, -, h⟩ := bind_eq_some_iff.mp h
    split at h <;> cases h
    exact hs

end

theorem node_status_moves_on_completed : ∃ t,
    run step twoOperations ⟨[("n", ⟨"2", .completed⟩)], [], []⟩ = some t ∧
      ∃ node, Map.get "n" t.nodes = some node ∧ node.status = .completed := by
  have h : run step twoOperations ⟨[("n", ⟨"2", .completed⟩)], [], []⟩ = some _ := rfl
  refine ⟨_, h, @node_status_moves_on _ _ _ (· = .completed) ?_ _ h ⟨_, rfl, rfl⟩⟩
  rintro _ b rfl hb
  cases hb

end Credence.Ingestion
