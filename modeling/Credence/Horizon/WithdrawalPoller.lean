import Mathlib.Data.List.Induction
import Mathlib.Data.Nat.Find
import Mathlib.Order.WellFounded

/-! `pollForEvents` of `src/listeners/horizonWithdrawalEvents.ts` where no call fails. Horizon is
an unbounded stream of operations with ascending paging tokens; a poll reads the first 100 of them
after `lastCursor`, a token. -/

namespace Credence.Horizon.Withdrawals

open List

structure Operation where
  id : String
  pagingToken : Nat
  type : String
  sourceAccount : String
  deriving DecidableEq

structure Stream where
  op : Nat → Operation
  ascending : StrictMono fun n => (op n).pagingToken

structure Config where
  bondContractAddress : Option String
  /-- `validateMessage` on the event of the operation. -/
  isValid : Operation → Bool

/-- The listener, with the keys it has handed to the idempotency guard and the ids of the events it
has given to `captureFailure`. -/
structure Listener where
  lastCursor : Nat
  guarded : List String
  captured : List String
  deriving DecidableEq

def idempotencyKey (op : Operation) : String := "bond_withdrawal:" ++ op.id

namespace Stream

variable (stream : Stream)

theorem exists_after (cursor : Nat) : ∃ n, cursor < (stream.op n).pagingToken :=
  ⟨cursor + 1, Nat.lt_of_lt_of_le (Nat.lt_succ_self _) (stream.ascending.le_apply)⟩

def after (cursor : Nat) : Nat := Nat.find (stream.exists_after cursor)

def page (cursor : Nat) : List Operation :=
  (range 100).map fun k => stream.op (stream.after cursor + k)

end Stream

namespace Config

variable (config : Config)

/-- An empty address is no address. -/
def isWithdrawalOperation (op : Operation) : Bool :=
  op.type = "payment" &&
    match config.bondContractAddress with
    | some address => address = "" || op.sourceAccount = address
    | none => true

def fetchWithdrawalEvents (stream : Stream) (cursor : Nat) : List Operation :=
  (stream.page cursor).filter config.isWithdrawalOperation

def handle (l : Listener) (event : Operation) : Listener :=
  if config.isValid event then
    ⟨event.pagingToken, l.guarded ++ [idempotencyKey event], l.captured⟩
  else ⟨event.pagingToken, l.guarded, l.captured ++ [event.id]⟩

def pollForEvents (stream : Stream) (l : Listener) : Listener :=
  (config.fetchWithdrawalEvents stream l.lastCursor).foldl config.handle l

def polls (stream : Stream) (l : Listener) : Nat → Listener
  | 0 => l
  | k + 1 => config.pollForEvents stream (polls stream l k)

end Config

namespace Stream

variable {stream : Stream} {cursor n : Nat}

theorem after_le_iff : stream.after cursor ≤ n ↔ cursor < (stream.op n).pagingToken := by
  rw [after, Nat.find_le_iff]
  constructor
  · rintro ⟨m, hLe, hl⟩
    exact hl.trans_le (stream.ascending.monotone hLe)
  · exact fun hl => ⟨n, le_rfl, hl⟩

theorem after_token : stream.after (stream.op n).pagingToken = n + 1 := by
  refine le_antisymm (after_le_iff.mpr (stream.ascending (Nat.lt_succ_self n))) ?_
  by_contra hl
  exact lt_irrefl _ (after_le_iff.mp (Nat.lt_succ_iff.mp (Nat.not_le.mp hl)))

theorem mem_page {op : Operation} : op ∈ stream.page cursor ↔
    ∃ n, stream.after cursor ≤ n ∧ n < stream.after cursor + 100 ∧ stream.op n = op := by
  simp only [page, mem_map, mem_range]
  constructor
  · rintro ⟨k, hk, rfl⟩
    exact ⟨stream.after cursor + k, by omega, by omega, rfl⟩
  · rintro ⟨n, hl, hh, rfl⟩
    exact ⟨n - stream.after cursor, by omega, by rw [Nat.add_sub_cancel' hl]⟩

end Stream

section

variable (config : Config) {stream : Stream} {l : Listener}

/-- The event was handed to the guard, or to the dead letters if it is malformed. -/
def Config.Handed (l : Listener) (op : Operation) : Prop :=
  if config.isValid op then idempotencyKey op ∈ l.guarded else op.id ∈ l.captured

theorem handed_handle {op event : Operation}
    (h : config.Handed l op ∨ op = event) : config.Handed (config.handle l event) op := by
  unfold Config.Handed Config.handle at *
  rcases h with h | rfl
  · cases config.isValid event <;> split at h <;> simp_all
  · cases config.isValid op <;> simp

theorem handle_all (events : List Operation) (l : Listener) :
    (∀ op, config.Handed l op ∨ op ∈ events → config.Handed (events.foldl config.handle l) op) ∧
      (events.foldl config.handle l).lastCursor =
        (events.getLast?.map Operation.pagingToken).getD l.lastCursor := by
  induction events using reverseRecOn with
  | nil => simp
  | append_singleton events event ih =>
    rw [foldl_append, foldl_cons, foldl_nil]
    refine ⟨fun op h => handed_handle config ?_, ?_⟩
    · rw [mem_append, mem_singleton, ← or_assoc] at h
      exact h.imp_left (ih.1 op)
    · rw [getLast?_concat]
      unfold Config.handle
      split <;> rfl

/-- The `n`-th operation of the stream is a withdrawal. -/
def IsWithdrawal (stream : Stream) (n : Nat) : Prop :=
  config.isWithdrawalOperation (stream.op n) = true

theorem pollForEvents_cases (stream : Stream) (l : Listener) :
    ((∀ n, stream.after l.lastCursor ≤ n → n < stream.after l.lastCursor + 100 →
      ¬IsWithdrawal config stream n) ∧ config.pollForEvents stream l = l) ∨
    ∃ n, stream.after l.lastCursor ≤ n ∧ n < stream.after l.lastCursor + 100 ∧
      IsWithdrawal config stream n ∧
      (config.pollForEvents stream l).lastCursor = (stream.op n).pagingToken ∧
      (∀ m, stream.after l.lastCursor ≤ m → m < stream.after l.lastCursor + 100 →
        IsWithdrawal config stream m → m ≤ n) ∧
      ∀ op, config.Handed l op ∨ (∃ m, stream.after l.lastCursor ≤ m ∧ m ≤ n ∧
        IsWithdrawal config stream m ∧ stream.op m = op) →
        config.Handed (config.pollForEvents stream l) op := by
  obtain ⟨hh, hc⟩ := handle_all config (config.fetchWithdrawalEvents stream l.lastCursor) l
  have hm : ∀ m, stream.after l.lastCursor ≤ m → m < stream.after l.lastCursor + 100 →
      IsWithdrawal config stream m →
      stream.op m ∈ config.fetchWithdrawalEvents stream l.lastCursor :=
    fun m hl hr hw => mem_filter.mpr ⟨Stream.mem_page.mpr ⟨m, hl, hr, rfl⟩, hw⟩
  rcases eq_nil_or_concat (config.fetchWithdrawalEvents stream l.lastCursor) with
    he | ⟨init, last, he⟩
  · refine .inl ⟨fun n hl hr hw => ?_, by rw [Config.pollForEvents, he, foldl_nil]⟩
    have := hm n hl hr hw
    rw [he] at this
    cases this
  · have hl : last ∈ config.fetchWithdrawalEvents stream l.lastCursor := by simp [he]
    obtain ⟨hp, hw⟩ := mem_filter.mp hl
    obtain ⟨n, hb, hd, rfl⟩ := Stream.mem_page.mp hp
    have hs : (config.fetchWithdrawalEvents stream l.lastCursor).Pairwise
        fun a b => a.pagingToken ≤ b.pagingToken := by
      refine List.Pairwise.filter _ (pairwise_map.mpr ?_)
      exact pairwise_lt_range.imp fun hLt => (stream.ascending (by omega)).le
    refine .inr ⟨n, hb, hd, hw, ?_, fun m hl hr hi => ?_, fun other ho => hh other ?_⟩
    · rw [Config.pollForEvents, hc, he, concat_eq_append, getLast?_concat]
      rfl
    · have hx := hm m hl hr hi
      rw [he, concat_eq_append] at hx hs
      rcases mem_append.mp hx with hg | hj
      · exact stream.ascending.le_iff_le.mp ((pairwise_append.mp hs).2.2 _ hg _ (by simp))
      · rw [mem_singleton] at hj
        exact stream.ascending.le_iff_le.mp (congrArg Operation.pagingToken hj).le
    · refine ho.imp_right ?_
      rintro ⟨m, hf, ht, hi, rfl⟩
      exact hm m hf (by omega) hi

/-- Every withdrawal from the `start`-th operation on is among the next 100 operations, seen from
the start or from an earlier such withdrawal. -/
def WithinReach (stream : Stream) (start : Nat) : Prop :=
  ∀ m, start ≤ m → IsWithdrawal config stream m → m < start + 100 ∨
    ∃ w, start ≤ w ∧ w < m ∧ m ≤ w + 100 ∧ IsWithdrawal config stream w

theorem polls_handed (stream : Stream) (l : Listener) (k : Nat) :
    stream.after l.lastCursor ≤ stream.after (config.polls stream l k).lastCursor ∧
      ∀ m, stream.after l.lastCursor ≤ m → m < stream.after (config.polls stream l k).lastCursor →
        IsWithdrawal config stream m → config.Handed (config.polls stream l k) (stream.op m) := by
  induction k with
  | zero => exact ⟨le_rfl, fun m hl hh => absurd hl (Nat.not_le.mpr hh)⟩
  | succ k ih =>
    rw [Config.polls]
    rcases pollForEvents_cases config stream (config.polls stream l k) with
      ⟨-, he⟩ | ⟨n, hl, -, -, hc, -, ha⟩
    · rw [he]
      exact ih
    · rw [hc, Stream.after_token]
      refine ⟨by omega, fun i hf ht hw => ha _ ?_⟩
      by_cases ho : i < stream.after (config.polls stream l k).lastCursor
      · exact .inl (ih.2 i hf ho hw)
      · exact .inr ⟨i, by omega, by omega, hw, rfl⟩

/-- A poll that is short of a withdrawal moves on: the first withdrawal ahead is on its page. -/
theorem polls_reach (h : WithinReach config stream (stream.after l.lastCursor)) {m : Nat}
    (hw : IsWithdrawal config stream m) (k : Nat) :
    m < stream.after (config.polls stream l k).lastCursor ∨
      k ≤ stream.after (config.polls stream l k).lastCursor := by
  classical
  induction k with
  | zero => exact .inr (Nat.zero_le _)
  | succ k ih =>
    have hs := (polls_handed config stream l k).1
    rw [Config.polls]
    generalize config.polls stream l k = state at ih hs
    rcases pollForEvents_cases config stream state with ⟨hn, he⟩ | ⟨n, hp, -, -, hc, -, -⟩
    · rw [he]
      refine .inl (Nat.lt_of_not_le fun hm => ?_)
      have hx : ∃ n, stream.after state.lastCursor ≤ n ∧ IsWithdrawal config stream n := ⟨m, hm, hw⟩
      obtain ⟨hf, hi⟩ := Nat.find_spec hx
      rcases h _ (hs.trans hf) hi with hr | ⟨w, hb, ht, hr, hv⟩
      · exact hn _ hf (by omega) hi
      · have hy : ¬stream.after state.lastCursor ≤ w := fun hy => Nat.find_min hx ht ⟨hy, hv⟩
        exact hn _ hf (by omega) hi
    · rw [hc, Stream.after_token]
      omega

/-- Behind 100 operations without a withdrawal the polls never get. -/
theorem polls_held {m : Nat} (hm : stream.after l.lastCursor + 100 ≤ m)
    (h : ∀ w, stream.after l.lastCursor ≤ w → w < m → IsWithdrawal config stream w → w + 100 < m)
    (k : Nat) : stream.after (config.polls stream l k).lastCursor + 100 ≤ m := by
  induction k with
  | zero => exact hm
  | succ k ih =>
    have hs := (polls_handed config stream l k).1
    rw [Config.polls]
    rcases pollForEvents_cases config stream (config.polls stream l k) with
      ⟨-, he⟩ | ⟨n, hp, hr, hw, hc, -, -⟩
    · rw [he]
      exact ih
    · rw [hc, Stream.after_token]
      have := h n (by omega) (by omega) hw
      omega

/-- A poll takes the cursor to the last operation it fetched precisely when that is a withdrawal.
The polls take it to every withdrawal precisely when each is within reach, and then every valid
withdrawal after the cursor reaches the guard. -/
theorem polls_progress (stream : Stream) (l : Listener) :
    (∀ op, (stream.page l.lastCursor).getLast? = some op →
      (op.pagingToken ≤ (config.pollForEvents stream l).lastCursor ↔
        config.isWithdrawalOperation op = true)) ∧
    ((∀ n, l.lastCursor < (stream.op n).pagingToken → IsWithdrawal config stream n →
      ∃ k, (stream.op n).pagingToken ≤ (config.polls stream l k).lastCursor) ↔
      WithinReach config stream (stream.after l.lastCursor)) ∧
    (WithinReach config stream (stream.after l.lastCursor) →
      ∀ n, l.lastCursor < (stream.op n).pagingToken → IsWithdrawal config stream n →
        config.isValid (stream.op n) = true →
        ∃ k, idempotencyKey (stream.op n) ∈ (config.polls stream l k).guarded) := by
  have ht : ∀ n cursor, (stream.op n).pagingToken ≤ cursor ↔ n < stream.after cursor := by
    intro n cursor
    rw [← not_lt, ← Stream.after_le_iff, not_le]
  have hr : WithinReach config stream (stream.after l.lastCursor) → ∀ n,
      IsWithdrawal config stream n →
      ∃ k, n < stream.after (config.polls stream l k).lastCursor := fun h n hw =>
    ⟨n + 1, (polls_reach config h hw (n + 1)).elim id Nat.lt_of_succ_le⟩
  refine ⟨fun op hl => ?_, ⟨fun h m hm hw => ?_, fun h n _ hw => ?_⟩, fun h n hn hw hv => ?_⟩
  · obtain rfl : stream.op (stream.after l.lastCursor + 99) = op := by
      simpa [Stream.page, getLast?_range] using hl
    rw [ht]
    rcases pollForEvents_cases config stream l with ⟨hn, he⟩ | ⟨n, hp, hx, hw, hc, hm, -⟩
    · rw [he]
      exact iff_of_false (by omega) (hn _ (by omega) (by omega))
    · rw [hc, Stream.after_token]
      constructor
      · intro hle
        obtain rfl : n = stream.after l.lastCursor + 99 := by omega
        exact hw
      · intro hi
        have := hm _ (by omega) (by omega) hi
        omega
  · by_contra hc
    push Not at hc
    obtain ⟨k, hk⟩ := h m (Stream.after_le_iff.mp hm) hw
    rw [ht] at hk
    have hq := polls_held config hc.1 (fun w hb hlt hx => ?_) k
    · omega
    · by_contra hy
      exact hc.2 w hb hlt (by omega) hx
  · obtain ⟨k, hk⟩ := hr h n hw
    exact ⟨k, (ht _ _).mpr hk⟩
  · have hb := Stream.after_le_iff.mpr hn
    obtain ⟨k, hk⟩ := hr h n hw
    have ho := (polls_handed config stream l k).2 n hb hk hw
    rw [Config.Handed, if_pos hv] at ho
    exact ⟨k, ho⟩

end

def anyPayment : Config := ⟨none, fun _ => true⟩

def streamOf (isPayment : Nat → Bool) : Stream where
  op n := ⟨toString n, n + 1, if isPayment n then "payment" else "create_account", "G"⟩
  ascending _ _ h := Nat.succ_lt_succ h

theorem isWithdrawal_streamOf {isPayment : Nat → Bool} {n : Nat} :
    IsWithdrawal anyPayment (streamOf isPayment) n ↔ isPayment n = true := by
  cases hp : isPayment n <;>
    simp [IsWithdrawal, Config.isWithdrawalOperation, streamOf, anyPayment, hp]

theorem after_zero (isPayment : Nat → Bool) : (streamOf isPayment).after 0 = 0 :=
  Nat.le_zero.mp (Stream.after_le_iff.mpr (Nat.succ_pos 0))

theorem polls_progress_payments : ∃ k, "bond_withdrawal:150" ∈
    (anyPayment.polls (streamOf fun n => n % 100 = 50) ⟨0, [], []⟩ k).guarded := by
  refine (polls_progress anyPayment _ ⟨0, [], []⟩).2.2 (fun m _ hw => ?_) 150 (by decide) rfl rfl
  have hp : m % 100 = 50 := by simpa using isWithdrawal_streamOf.mp hw
  rw [after_zero]
  rcases Nat.lt_or_ge m 100 with hl | hl
  · exact .inl (by omega)
  · refine .inr ⟨m - 100, by omega, by omega, by omega, isWithdrawal_streamOf.mpr ?_⟩
    exact decide_eq_true (by omega)

/-- 100 operations that are not withdrawals hold the poller before them for ever. -/
theorem poller_stuck : (streamOf fun n => decide (100 ≤ n)).page 0 ≠ [] ∧
    anyPayment.isWithdrawalOperation ((streamOf fun n => decide (100 ≤ n)).op 100) = true ∧
    ∀ k, anyPayment.polls (streamOf fun n => decide (100 ≤ n)) ⟨0, [], []⟩ k = ⟨0, [], []⟩ := by
  have hn : anyPayment.fetchWithdrawalEvents (streamOf fun n => decide (100 ≤ n)) 0 = [] := by
    refine filter_eq_nil_iff.mpr fun op ho hw => ?_
    obtain ⟨n, -, hh, rfl⟩ := Stream.mem_page.mp ho
    rw [after_zero] at hh
    have := of_decide_eq_true (isWithdrawal_streamOf.mp hw)
    omega
  refine ⟨by simp [Stream.page], rfl, fun k => ?_⟩
  induction k with
  | zero => rfl
  | succ k ih =>
    rw [Config.polls, ih, Config.pollForEvents, hn]
    rfl

end Credence.Horizon.Withdrawals
