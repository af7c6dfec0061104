import Credence.Js.Map
import Mathlib.Data.List.Chain
import Mathlib.Data.List.Nodup

/-! A lock per key as a chain of promises: each call leaves in a map the promise of its release, and
awaits the promise that it found there. -/

namespace Credence.ProofKit

open Js List

/-- A call of the lock: its key, the call whose promise it awaits and whether it has released its
turn. -/
structure Ticket (κ ι : Type) where
  key : κ
  previous : Option ι
  released : Bool

/-- The map of the last promise of each key, and all calls. -/
structure PromiseLock (κ ι : Type) where
  locks : List (κ × ι)
  tickets : List (ι × Ticket κ ι)

namespace PromiseLock

variable {κ ι : Type} [DecidableEq κ] [DecidableEq ι]

def empty : PromiseLock κ ι := ⟨[], []⟩

def enter (key : κ) (call : ι) (lock : PromiseLock κ ι) : PromiseLock κ ι where
  locks := Map.set key call lock.locks
  tickets := Map.set call ⟨key, Map.get key lock.locks, false⟩ lock.tickets

def ready (call : ι) (lock : PromiseLock κ ι) : Bool :=
  (Map.get call lock.tickets).any fun ticket => ticket.previous.all fun previous =>
    (Map.get previous lock.tickets).any Ticket.released

/-- The call releases its turn, and deletes its promise from the map if it is still there. -/
def leave (call : ι) (lock : PromiseLock κ ι) : PromiseLock κ ι :=
  match Map.get call lock.tickets with
  | none => lock
  | some ticket =>
    { locks :=
        if Map.get ticket.key lock.locks = some call then Map.delete ticket.key lock.locks
        else lock.locks
      tickets := Map.set call { ticket with released := true } lock.tickets }

/-- The calls of the key that have not released their turn, in the order in which they came. -/
structure Queued (lock : PromiseLock κ ι) (key : κ) (queue : List ι) : Prop where
  distinct : queue.Nodup
  members : ∀ call, call ∈ queue ↔
    ∃ previous, Map.get call lock.tickets = some ⟨key, previous, false⟩
  last : Map.get key lock.locks = queue.getLast?
  chain : queue.IsChain fun call next => Map.get next lock.tickets = some ⟨key, some call, false⟩
  first : ∀ call, queue.head? = some call → ∀ previous,
    Map.get call lock.tickets = some ⟨key, some previous, false⟩ →
    ∃ ticket, Map.get previous lock.tickets = some ticket ∧ ticket.released = true

variable {lock : PromiseLock κ ι} {key other : κ} {call next : ι} {queue : List ι}

theorem queued_empty (key : κ) : Queued (empty : PromiseLock κ ι) key [] :=
  ⟨nodup_nil, by simp [empty, Map.get], rfl, .nil, by simp⟩

theorem Queued.ready_iff (h : Queued lock key queue) (hCall : call ∈ queue) :
    ready call lock = true ↔ queue.head? = some call := by
  obtain ⟨previous, ht⟩ := (h.members call).mp hCall
  simp only [ready, ht, Option.any_some]
  constructor
  · intro hr
    obtain ⟨before, after, rfl⟩ := append_of_mem hCall
    rcases eq_nil_or_concat before with rfl | ⟨init, last, rfl⟩
    · rfl
    · have hc := h.chain
      rw [concat_eq_append, append_assoc, isChain_append] at hc
      have hl := (isChain_cons_cons.mp hc.2.1).1
      cases ht.symm.trans hl
      obtain ⟨earlier, he⟩ := (h.members last).mp (by simp)
      simp [he] at hr
  · intro hh
    cases previous with
    | none => rfl
    | some previous =>
      obtain ⟨ticket, hg, ha⟩ := h.first call hh previous ht
      simp [hg, ha]

theorem Queued.exclusive (h : Queued lock key queue) (hCall : call ∈ queue) (hn : next ∈ queue)
    (hr : ready call lock = true) (hr' : ready next lock = true) : call = next :=
  Option.some.inj (((h.ready_iff hCall).mp hr).symm.trans ((h.ready_iff hn).mp hr'))

theorem Queued.congr {after : PromiseLock κ ι} (h : Queued lock key queue)
    (ha : Map.get key after.locks = Map.get key lock.locks)
    (ht : ∀ call ticket, Map.get call lock.tickets = some ticket →
      ∃ later, Map.get call after.tickets = some later ∧ later.key = ticket.key ∧
        (ticket.released = true → later.released = true) ∧
        (ticket.key = key → ticket.released = false → later = ticket))
    (hn : ∀ call previous, Map.get call after.tickets = some ⟨key, previous, false⟩ →
      Map.get call lock.tickets = some ⟨key, previous, false⟩) : Queued after key queue := by
  have hs : ∀ call previous, Map.get call lock.tickets = some ⟨key, previous, false⟩ →
      Map.get call after.tickets = some ⟨key, previous, false⟩ := by
    intro call previous hg
    obtain ⟨later, hl, -, -, he⟩ := ht call _ hg
    rw [hl, he rfl rfl]
  refine ⟨h.distinct, fun call => (h.members call).trans ⟨?_, ?_⟩, ha.trans h.last, ?_, ?_⟩
  · rintro ⟨previous, hg⟩
    exact ⟨previous, hs call previous hg⟩
  · rintro ⟨previous, hg⟩
    exact ⟨previous, hn call previous hg⟩
  · exact h.chain.imp fun call next hne => hs next (some call) hne
  · intro call hh previous hg
    obtain ⟨ticket, hi, hr⟩ := h.first call hh previous (hn call _ hg)
    obtain ⟨later, hl, -, hb, -⟩ := ht previous ticket hi
    exact ⟨later, hl, hb hr⟩

variable {ticket : Ticket κ ι}

theorem get_enter_tickets (hn : Map.get call lock.tickets = none)
    (hg : Map.get next lock.tickets = some ticket) :
    Map.get next (lock.enter key call).tickets = some ticket := by
  have hNe : call ≠ next := by
    rintro rfl
    cases hn.symm.trans hg
  rw [PromiseLock.enter, Map.get_set, if_neg hNe, hg]

theorem Queued.enter (h : Queued lock key queue) (hn : Map.get call lock.tickets = none) :
    Queued (lock.enter key call) key (queue ++ [call]) := by
  have hk : ∀ earlier ticket, Map.get earlier lock.tickets = some ticket →
      Map.get earlier (lock.enter key call).tickets = some ticket :=
    fun _ _ hg => get_enter_tickets hn hg
  have hCall : Map.get call (lock.enter key call).tickets = some ⟨key, queue.getLast?, false⟩ := by
    rw [PromiseLock.enter, Map.get_set_self, h.last]
  have ha : call ∉ queue := by
    intro hm
    obtain ⟨previous, hg⟩ := (h.members call).mp hm
    cases hn.symm.trans hg
  refine ⟨?_, fun other => ?_, ?_, ?_, ?_⟩
  · exact nodup_append.mpr ⟨h.distinct, nodup_singleton call, by grind⟩
  · rw [mem_append, mem_singleton, h.members other]
    by_cases hOther : call = other
    · subst hOther
      exact ⟨fun _ => ⟨_, hCall⟩, fun _ => .inr rfl⟩
    · rw [PromiseLock.enter, Map.get_set, if_neg hOther]
      exact or_iff_left fun he => hOther he.symm
  · rw [PromiseLock.enter, Map.get_set_self, getLast?_concat]
  · refine isChain_append.mpr ⟨h.chain.imp fun _ _ hne => hk _ _ hne, .singleton _, ?_⟩
    intro last hl first hf
    cases hf
    rw [hCall, hl]
  · intro head hh previous hg
    cases queue with
    | nil =>
      cases hh
      cases hg.symm.trans hCall
    | cons first =>
      cases hh
      obtain ⟨earlier, hf⟩ := (h.members head).mp mem_cons_self
      cases hg.symm.trans (hk head _ hf)
      obtain ⟨ticket, ht, hr⟩ := h.first head rfl previous hf
      exact ⟨ticket, hk previous ticket ht, hr⟩

theorem Queued.enter_other (h : Queued lock other queue) (hn : Map.get call lock.tickets = none)
    (hk : key ≠ other) : Queued (lock.enter key call) other queue := by
  refine h.congr ?_ (fun earlier ticket hg => ?_) (fun later previous hg => ?_)
  · rw [PromiseLock.enter, Map.get_set, if_neg hk]
  · exact ⟨ticket, get_enter_tickets hn hg, rfl, id, fun _ _ => rfl⟩
  · rcases Map.get_of_set hg with ⟨-, hs⟩ | hf
    · cases hs
      exact absurd rfl hk
    · exact hf

theorem get_leave_tickets (hCall : Map.get call lock.tickets = some ticket) (other : ι) :
    Map.get other (lock.leave call).tickets =
      if call = other then some { ticket with released := true }
      else Map.get other lock.tickets := by
  simp only [PromiseLock.leave, hCall, Map.get_set]

theorem get_leave_locks (hCall : Map.get call lock.tickets = some ticket) (other : κ) :
    Map.get other (lock.leave call).locks =
      if Map.get ticket.key lock.locks = some call ∧ ticket.key = other then none
      else Map.get other lock.locks := by
  simp only [PromiseLock.leave, hCall]
  split
  · next hl => simp [hl, Map.get_delete]
  · next hl => simp [hl]

theorem Queued.leave (h : Queued lock key (call :: queue)) :
    Queued (lock.leave call) key queue := by
  obtain ⟨previous, hCall⟩ := (h.members call).mp mem_cons_self
  obtain ⟨ha, hd⟩ := nodup_cons.mp h.distinct
  have hk : ∀ other ∈ queue, ∀ ticket, Map.get other lock.tickets = some ticket →
      Map.get other (lock.leave call).tickets = some ticket := by
    intro other hOther ticket hg
    have hn : call ≠ other := by
      rintro rfl
      exact ha hOther
    rw [get_leave_tickets hCall, if_neg hn, hg]
  refine ⟨hd, fun other => ?_, ?_, ?_, ?_⟩
  · rw [get_leave_tickets hCall]
    split
    · next he =>
      subst he
      refine ⟨fun hm => absurd hm ha, ?_⟩
      rintro ⟨_, hg⟩
      cases hg
    · next hn => rw [← h.members other, mem_cons, or_iff_right (Ne.symm hn)]
  · rw [get_leave_locks hCall]
    cases queue with
    | nil => simp [h.last]
    | cons =>
      have hl : Map.get key lock.locks ≠ some call := by
        rw [h.last]
        intro he
        rw [getLast?_cons_cons] at he
        exact ha (mem_of_getLast? he)
      simp only [hl, false_and, if_false]
      rw [h.last, getLast?_cons_cons]
  · exact h.chain.tail.imp_of_mem_imp fun earlier next _ hne hg => hk next hne _ hg
  · intro head hh earlier hg
    cases queue with
    | nil => cases hh
    | cons =>
      cases hh
      have hne := (isChain_cons_cons.mp h.chain).1
      cases hg.symm.trans (hk head mem_cons_self _ hne)
      exact ⟨_, (get_leave_tickets hCall call).trans (if_pos rfl), rfl⟩

theorem Queued.leave_other {earlier : Option ι} (h : Queued lock other queue)
    (hCall : Map.get call lock.tickets = some ⟨key, earlier, false⟩) (hk : key ≠ other) :
    Queued (lock.leave call) other queue := by
  refine h.congr ?_ (fun called ticket hg => ?_) (fun later previous hg => ?_)
  · rw [get_leave_locks hCall, if_neg fun hb => hk hb.2]
  · rw [get_leave_tickets hCall]
    split
    · next he =>
      subst he
      cases hCall.symm.trans hg
      exact ⟨_, rfl, rfl, fun _ => rfl, fun he => absurd he hk⟩
    · exact ⟨ticket, hg, rfl, id, fun _ _ => rfl⟩
  · rw [get_leave_tickets hCall] at hg
    split at hg
    · cases hg
    · exact hg

omit [DecidableEq κ] in
theorem ready_iff_previous : ready call lock = true ↔
    ∃ ticket, Map.get call lock.tickets = some ticket ∧
      ∀ previous, ticket.previous = some previous → ∃ earlier,
        Map.get previous lock.tickets = some earlier ∧ earlier.released = true := by
  simp only [ready, Option.any_eq_true, Option.all_eq_true]

theorem ready_enter (hn : Map.get call lock.tickets = none) (h : ready next lock = true) :
    ready next (lock.enter key call) = true := by
  obtain ⟨ticket, ht, hp⟩ := ready_iff_previous.mp h
  refine ready_iff_previous.mpr ⟨ticket, get_enter_tickets hn ht, fun previous he => ?_⟩
  obtain ⟨earlier, ha, hr⟩ := hp previous he
  exact ⟨earlier, get_enter_tickets hn ha, hr⟩

theorem ready_leave (hCall : Map.get call lock.tickets = some ticket) (h : ready next lock = true) :
    ready next (lock.leave call) = true := by
  obtain ⟨own, ho, hp⟩ := ready_iff_previous.mp h
  have hn : ∃ later, Map.get next (lock.leave call).tickets = some later ∧
      later.previous = own.previous := by
    rw [get_leave_tickets hCall]
    split
    · next he =>
      subst he
      cases hCall.symm.trans ho
      exact ⟨_, rfl, rfl⟩
    · exact ⟨own, ho, rfl⟩
  obtain ⟨later, hl, hs⟩ := hn
  refine ready_iff_previous.mpr ⟨later, hl, fun previous he => ?_⟩
  obtain ⟨earlier, ha, hr⟩ := hp previous (hs ▸ he)
  rw [get_leave_tickets hCall]
  split
  · exact ⟨_, rfl, rfl⟩
  · exact ⟨earlier, ha, hr⟩

/-- The second lock is what the first one is for some calls: those that come before them in the
queues are calls of theirs. -/
structure Shares (mine : ι → Prop) (keyOf : ι → κ) (lock part : PromiseLock κ ι) : Prop where
  locks : ∀ call, mine call → Map.get (keyOf call) part.locks = Map.get (keyOf call) lock.locks
  tickets : ∀ call, mine call → Map.get call part.tickets = Map.get call lock.tickets
  last : ∀ call last, mine call → Map.get (keyOf call) lock.locks = some last → mine last
  previous : ∀ call ticket previous, mine call → Map.get call lock.tickets = some ticket →
    ticket.previous = some previous → mine previous
  keyed : ∀ call ticket, Map.get call lock.tickets = some ticket → ticket.key = keyOf call

section

variable {mine : ι → Prop} {keyOf : ι → κ} {part : PromiseLock κ ι}

theorem shares_empty : Shares mine keyOf empty empty where
  locks _ _ := rfl
  tickets _ _ := rfl
  last _ _ _ h := by cases h
  previous _ _ _ _ h := by cases h
  keyed _ _ h := by cases h

section

variable (h : Shares mine keyOf lock part)
include h

theorem Shares.keyed_enter
    (hg : Map.get next (lock.enter (keyOf call) call).tickets = some ticket) :
    ticket.key = keyOf next := by
  rcases Map.get_of_set hg with ⟨rfl, rfl⟩ | hf
  · rfl
  · exact h.keyed next ticket hf

theorem Shares.keyed_leave (hg : Map.get next (lock.leave call).tickets = some ticket) :
    ticket.key = keyOf next := by
  rw [PromiseLock.leave] at hg
  split at hg
  · exact h.keyed next ticket hg
  · next own ho =>
    rcases Map.get_of_set hg with ⟨rfl, rfl⟩ | hf
    · exact h.keyed call own ho
    · exact h.keyed next ticket hf

theorem Shares.congr {after : PromiseLock κ ι} (hl : ∀ mate, mine mate →
      Map.get (keyOf mate) after.locks = Map.get (keyOf mate) lock.locks)
    (ht : ∀ mate, mine mate → Map.get mate after.tickets = Map.get mate lock.tickets)
    (hk : ∀ call ticket, Map.get call after.tickets = some ticket → ticket.key = keyOf call) :
    Shares mine keyOf after part where
  locks mate hm := (h.locks mate hm).trans (hl mate hm).symm
  tickets mate hm := (h.tickets mate hm).trans (ht mate hm).symm
  last mate last hm hg := h.last mate last hm (hl mate hm ▸ hg)
  previous mate ticket previous hm hg := h.previous mate ticket previous hm (ht mate hm ▸ hg)
  keyed := hk

end

section

variable (h : Shares mine keyOf lock part) (hCall : mine call)
include h hCall

theorem Shares.ready : part.ready call = lock.ready call := by
  unfold PromiseLock.ready
  rw [h.tickets call hCall]
  cases ht : Map.get call lock.tickets with
  | none => rfl
  | some ticket =>
    cases hp : ticket.previous with
    | none => simp [hp]
    | some previous =>
      simp [hp, h.tickets previous (h.previous call ticket previous hCall ht hp)]

theorem Shares.enter :
    Shares mine keyOf (lock.enter (keyOf call) call) (part.enter (keyOf call) call) where
  locks other hOther := by
    simp only [PromiseLock.enter, Map.get_set, h.locks other hOther]
  tickets other hOther := by
    simp only [PromiseLock.enter, Map.get_set, h.tickets other hOther, h.locks call hCall]
  last other last hOther hg := by
    rcases Map.get_of_set hg with ⟨-, rfl⟩ | hf
    · exact hCall
    · exact h.last other last hOther hf
  previous other ticket previous hOther hg hp := by
    rcases Map.get_of_set hg with ⟨-, rfl⟩ | hf
    · exact h.last call previous hCall hp
    · exact h.previous other ticket previous hOther hf hp
  keyed _ _ := h.keyed_enter

theorem Shares.leave : Shares mine keyOf (lock.leave call) (part.leave call) := by
  cases ht : Map.get call lock.tickets with
  | none =>
    have hp := (h.tickets call hCall).trans ht
    simp only [PromiseLock.leave, ht, hp]
    exact h
  | some ticket =>
    have hp := (h.tickets call hCall).trans ht
    have hk := h.keyed call ticket ht
    refine ⟨fun other hOther => ?_, fun other hOther => ?_, fun other last hOther hg => ?_,
      fun other later previous hOther hg hr => ?_, fun _ _ => h.keyed_leave⟩
    · rw [get_leave_locks hp, get_leave_locks ht, hk, h.locks call hCall, h.locks other hOther]
    · rw [get_leave_tickets hp, get_leave_tickets ht, h.tickets other hOther]
    · rw [get_leave_locks ht] at hg
      split at hg
      · cases hg
      · exact h.last other last hOther hg
    · rw [get_leave_tickets ht] at hg
      split at hg
      · cases hg
        exact h.previous call ticket previous hCall ht hr
      · exact h.previous other later previous hOther hg hr

end

section

variable (h : Shares mine keyOf lock part) (hOther : ∀ mate, mine mate → keyOf call ≠ keyOf mate)
include h hOther

theorem Shares.enter_other : Shares mine keyOf (lock.enter (keyOf call) call) part := by
  refine h.congr (fun mate hm => ?_) (fun mate hm => ?_) fun _ _ => h.keyed_enter
  · rw [PromiseLock.enter, Map.get_set, if_neg (hOther mate hm)]
  · have hn : call ≠ mate := fun he => hOther mate hm (congrArg keyOf he)
    rw [PromiseLock.enter, Map.get_set, if_neg hn]

theorem Shares.leave_other : Shares mine keyOf (lock.leave call) part := by
  cases ht : Map.get call lock.tickets with
  | none =>
    simp only [PromiseLock.leave, ht]
    exact h
  | some ticket =>
    refine h.congr (fun mate hm => ?_) (fun mate hm => ?_) fun _ _ => h.keyed_leave
    · rw [get_leave_locks ht, if_neg]
      rintro ⟨-, he⟩
      exact hOther mate hm ((h.keyed call ticket ht).symm.trans he)
    · have hn : call ≠ mate := fun he => hOther mate hm (congrArg keyOf he)
      rw [get_leave_tickets ht, if_neg hn]

end

end

end PromiseLock

variable {ι : Type} {same : ι → ι → Prop} {callers : List ι} {call other : ι}

/-- Since the call first appeared, it alone has appeared among those of its kind. -/
def AloneSince (same : ι → ι → Prop) (callers : List ι) (call : ι) : Prop :=
  ∀ before after, callers = before ++ call :: after → ∀ x ∈ after, same x call → x = call

/-- Between two appearances of a call there is no other one of its kind. -/
def Uninterrupted (same : ι → ι → Prop) (callers : List ι) : Prop :=
  ∀ before between after call, callers = before ++ call :: (between ++ call :: after) →
    ∀ x ∈ between, same x call → x = call

theorem aloneSince_of_notMem (h : call ∉ callers) : AloneSince same callers call := by
  rintro before after rfl
  exact absurd (by simp) h

theorem AloneSince.concat (h : AloneSince same callers call)
    (hOther : same other call → other = call) : AloneSince same (callers ++ [other]) call := by
  intro before after he x hx hs
  rcases eq_nil_or_concat after with rfl | ⟨init, last, rfl⟩
  · cases hx
  · rw [concat_eq_append, ← cons_append, ← append_assoc] at he
    obtain ⟨hc, hl⟩ := append_inj' he rfl
    cases hl
    rw [concat_eq_append, mem_append, mem_singleton] at hx
    rcases hx with hx | rfl
    · exact h before init hc x hx hs
    · exact hOther hs

theorem AloneSince.append {later : List ι} (h : AloneSince same callers call)
    (hl : ∀ x ∈ later, same x call → x = call) : AloneSince same (callers ++ later) call := by
  induction later generalizing callers with
  | nil => rwa [append_nil]
  | cons x later ih =>
    rw [append_cons]
    exact ih (h.concat (hl x mem_cons_self))
      fun y hy => hl y (mem_cons_of_mem x hy)

theorem Uninterrupted.concat (h : Uninterrupted same callers)
    (ha : AloneSince same callers call) : Uninterrupted same (callers ++ [call]) := by
  intro before between after other he x hx hs
  rcases eq_nil_or_concat after with rfl | ⟨init, last, rfl⟩
  · rw [← cons_append, ← append_assoc] at he
    obtain ⟨hc, hl⟩ := append_inj' he rfl
    cases hl
    exact ha before between hc x hx hs
  · rw [concat_eq_append, ← cons_append, ← append_assoc, ← cons_append,
      ← append_assoc] at he
    obtain ⟨hc, hl⟩ := append_inj' he rfl
    exact h before between init other (by simpa using hc) x hx hs

end Credence.ProofKit
