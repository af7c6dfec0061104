import Credence.Webhooks.DlqProcessor
import Mathlib.Data.List.Nodup

/-! How often an entry is handed to the delivery. The limit is compared with the attempts of the
original delivery, which no run changes. -/

namespace Credence.Webhooks.Dlq

open Js ProofKit List

def World.entries (s : World) : List DlqEntry := (s.cycle.map Cycle.entries).getD []

/-- The entries of a run are distinct ones of the store. -/
structure Listed (s : World) : Prop where
  store : (s.store.map DlqEntry.id).Nodup
  distinct : ((s.inFlight.toList ++ s.entries).map DlqEntry.id).Nodup
  known : ∀ {entry}, entry ∈ s.inFlight.toList ++ s.entries → entry.id ∈ s.store.map DlqEntry.id

theorem ids_markReplayed (id replayedAt : String) (store : List DlqEntry) :
    (markReplayed id replayedAt store).map DlqEntry.id = store.map DlqEntry.id := by
  rw [markReplayed, map_map]
  apply map_congr_left
  intro entry _
  simp only [Function.comp_apply]
  split <;> rfl

/-- The entry is marked as replayed wherever it is. -/
structure Done (s : World) (id : String) : Prop where
  stored : id ∈ s.store.map DlqEntry.id
  inStore : ∀ {entry}, entry ∈ s.store → entry.id = id → entry.isReplayed = true
  inRun : ∀ {entry}, entry ∈ s.entries → entry.id = id → entry.isReplayed = true

variable {id : String} {now : Int} {entry : DlqEntry} {rest : List DlqEntry} {counts : Counts}
  {limit : ℚ}

theorem mem_markReplayed {store : List DlqEntry}
    (hm : entry ∈ markReplayed id (toISOString now) store) :
    (entry.id = id ∧ entry.isReplayed = true) ∨ (entry.id ≠ id ∧ entry ∈ store) := by
  obtain ⟨old, ho, rfl⟩ := mem_map.mp hm
  by_cases hi : old.id = id
  · left
    rw [if_pos hi]
    refine ⟨hi, ?_⟩
    have ht : toISOString now ≠ "" := by
      intro he
      have hm := T_mem_toISOString now
      rw [he] at hm
      cases hm
    simp [DlqEntry.isReplayed, isText, ht]
  · right
    rw [if_neg hi]
    exact ⟨hi, ho⟩

structure Later (s t : World) : Prop where
  listed : Listed t
  done : ∀ {id}, Done s id → Done t id

variable {s t : World} {a : Action} {processor : Processor} {parseDate : ParseDate}

theorem Listed.of_sublist (h : Listed s) (hi : t.store.map DlqEntry.id = s.store.map DlqEntry.id)
    (hs : (t.inFlight.toList ++ t.entries).Sublist (s.inFlight.toList ++ s.entries)) :
    Listed t where
  store := hi ▸ h.store
  distinct := h.distinct.sublist (hs.map _)
  known hm := hi ▸ h.known (hs.subset hm)

theorem Later.of_sublist (h : Listed s) (hs : t.store = s.store)
    (hu : (t.inFlight.toList ++ t.entries).Sublist (s.inFlight.toList ++ s.entries))
    (he : t.entries ⊆ s.entries) : Later s t where
  listed := h.of_sublist (by rw [hs]) hu
  done hd := ⟨hs ▸ hd.stored, fun hm => hd.inStore (hs ▸ hm), fun hm => hd.inRun (he hm)⟩

theorem Later.of_mark (h : Listed s) (hs : t.store = markReplayed id (toISOString now) s.store)
    (hu : (t.inFlight.toList ++ t.entries).Sublist (s.inFlight.toList ++ s.entries))
    (he : t.entries ⊆ s.entries) : Later s t where
  listed := h.of_sublist (by rw [hs, ids_markReplayed]) hu
  done hd := by
    refine ⟨?_, ?_, fun hm => hd.inRun (he hm)⟩
    · rw [hs, ids_markReplayed]
      exact hd.stored
    · intro entry hm hi
      rw [hs] at hm
      rcases mem_markReplayed hm with ⟨-, hr⟩ | ⟨-, hm⟩
      · exact hr
      · exact hd.inStore hm hi

inductive Turn (a : Action) (s t : World) : Prop
  | quiet (hHanded : t.handed = s.handed) (hUnmarked : t.unmarked = s.unmarked)
      (hInFlight : t.inFlight = s.inFlight)
  | hand (entry : DlqEntry) (hMem : entry ∈ s.entries) (hReplayed : entry.isReplayed = false)
      (hNone : s.inFlight = none) (hSome : t.inFlight = some entry)
      (hHanded : t.handed = s.handed ++ [entry.id]) (hUnmarked : t.unmarked = s.unmarked)
  | mark (entry : DlqEntry) (hSome : s.inFlight = some entry) (hNone : t.inFlight = none)
      (hDone : Done t entry.id) (hHanded : t.handed = s.handed)
      (hUnmarked : t.unmarked = s.unmarked)
  | leave (entry : DlqEntry) (hAction : (∃ now delivery mark, a = .settle now delivery mark ∧
        marks delivery mark = false) ∨ a = .crash)
      (hSome : s.inFlight = some entry) (hNone : t.inFlight = none) (hHanded : t.handed = s.handed)
      (hUnmarked : t.unmarked = s.unmarked ++ [entry.id])

theorem isReplayed_of_eligible {payload : Payload}
    (h : processor.classify parseDate now entry = .eligible payload) :
    entry.isReplayed = false := by
  rw [Bool.eq_false_iff]
  intro hr
  rw [Processor.classify, if_pos hr] at h
  cases h

theorem entry_turn {lookup : Lookup} (h : Listed s)
    (hc : s.cycle = some ⟨entry :: rest, none, counts⟩) :
    Later s (s.entry processor parseDate entry rest counts now lookup) ∧
      Turn (.entry now lookup) s (s.entry processor parseDate entry rest counts now lookup) := by
  have hi : s.inFlight = none := by simp [World.inFlight, hc]
  have he : s.entries = entry :: rest := by simp [World.entries, hc]
  have hp (counts : Counts) :
      Later s (s.passOver rest counts) ∧ Turn (.entry now lookup) s (s.passOver rest counts) := by
    refine ⟨.of_sublist h rfl ?_ ?_, .quiet rfl rfl hi.symm⟩
    · rw [hi, he]
      exact sublist_cons_self ..
    · rw [he]
      exact subset_cons_self ..
  rw [World.entry]
  split
  · exact hp _
  · exact hp _
  · next payload hl =>
    split
    · exact hp _
    · split
      · exact hp _
      · refine ⟨.of_sublist h rfl ?_ ?_,
          .hand entry ?_ (isReplayed_of_eligible hl) hi rfl rfl rfl⟩
        · rw [hi, he]
          exact List.Sublist.refl _
        · rw [he]
          exact subset_cons_self ..
        · rw [he]
          exact mem_cons_self

theorem settle_turn {delivery : Delivery} {mark : Mark} (h : Listed s)
    (hc : s.cycle = some ⟨rest, some entry, counts⟩) :
    Later s (s.settle entry rest counts now delivery mark) ∧
      Turn (.settle now delivery mark) s (s.settle entry rest counts now delivery mark) := by
  have hf : s.inFlight = some entry := by simp [World.inFlight, hc]
  have he : s.entries = rest := by simp [World.entries, hc]
  have hs : rest.Sublist (s.inFlight.toList ++ s.entries) := by
    rw [hf, he]
    exact sublist_append_right ..
  rw [World.settle]
  split
  · next ha =>
    refine ⟨.of_mark h rfl hs (he ▸ List.Subset.refl _), .mark entry hf rfl ⟨?_, ?_, ?_⟩ rfl rfl⟩
    · have hk := h.known (show entry ∈ s.inFlight.toList ++ s.entries by simp [hf])
      rwa [← ids_markReplayed entry.id (toISOString now)] at hk
    · intro other hm hi
      rcases mem_markReplayed hm with ⟨-, hr⟩ | ⟨ho, -⟩
      · exact hr
      · exact absurd hi ho
    · intro other hm hi
      have hd := h.distinct
      rw [hf, he] at hd
      have hn := (nodup_cons.mp hd).1
      exact absurd (hi ▸ mem_map_of_mem hm) hn
  · next ha =>
    refine ⟨.of_sublist h rfl hs (he ▸ List.Subset.refl _), .leave entry (.inl ?_) hf rfl rfl rfl⟩
    exact ⟨now, delivery, mark, rfl, by simpa using ha⟩

theorem step_turn (h : Listed s) (hs : step processor parseDate a s = some t) :
    Later s t ∧ Turn a s t := by
  cases a with simp only [step] at hs
  | start =>
    split at hs
    · cases hs
      exact ⟨⟨h, id⟩, .quiet rfl rfl rfl⟩
    · cases hs
      exact ⟨⟨h, id⟩, .quiet rfl rfl rfl⟩
    · next entries hc =>
      obtain ⟨hp, hw⟩ := Option.ite_none_right_eq_some.mp hs
      cases hw
      refine ⟨⟨⟨h.store, ?_, ?_⟩, ?_⟩, .quiet rfl rfl (by simp [World.inFlight, hc])⟩
      · exact (hp.map _).nodup_iff.mpr h.store
      · intro entry hm
        exact mem_map_of_mem (hp.mem_iff.mp hm)
      · intro id hd
        exact ⟨hd.stored, hd.inStore, fun hm => hd.inStore (hp.mem_iff.mp hm)⟩
  | entry =>
    split at hs
    · next entry rest counts hc =>
      cases hs
      exact entry_turn h hc
    · cases hs
  | settle =>
    split at hs
    · next rest entry counts hc =>
      cases hs
      exact settle_turn h hc
    · cases hs
  | finish =>
    split at hs
    · next counts hc =>
      cases hs
      exact ⟨.of_sublist h rfl (nil_sublist _) (nil_subset _),
        .quiet rfl rfl (by simp [World.inFlight, hc])⟩
    · cases hs
  | crash =>
    cases hs
    refine ⟨.of_sublist h rfl (nil_sublist _) (nil_subset _), ?_⟩
    cases hf : s.inFlight with
    | none => exact .quiet rfl (by simp) hf.symm
    | some entry => exact .leave entry (.inr rfl) hf rfl rfl (by simp)
  | push =>
    obtain ⟨hn, hw⟩ := Option.ite_none_left_eq_some.mp hs
    cases hw
    refine ⟨⟨⟨?_, h.distinct, ?_⟩, ?_⟩, .quiet rfl rfl rfl⟩
    · rw [map_append, map_singleton, nodup_append_comm]
      exact nodup_cons.mpr ⟨hn, h.store⟩
    · intro other hm
      rw [map_append]
      exact mem_append_left _ (h.known hm)
    · intro id hd
      refine ⟨?_, ?_, hd.inRun⟩
      · rw [map_append]
        exact mem_append_left _ hd.stored
      · intro other hm hi
        rcases mem_append.mp hm with hm | hm
        · exact hd.inStore hm hi
        · rw [mem_singleton.mp hm] at hi
          exact absurd (hi ▸ hd.stored) hn
  | markOther =>
    cases hs
    exact ⟨.of_mark h rfl (List.Sublist.refl _) (List.Subset.refl _), .quiet rfl rfl rfl⟩

/-- An entry has been handed over once for each delivery that was not marked, and once more where it
is in flight or done. -/
inductive Counted (s : World) (id : String) : Prop
  | waiting (hCount : s.handed.count id = s.unmarked.count id)
      (hInFlight : ∀ entry, s.inFlight = some entry → entry.id ≠ id)
  | inFlight (hCount : s.handed.count id = s.unmarked.count id + 1) (entry : DlqEntry)
      (hInFlight : s.inFlight = some entry) (hId : entry.id = id)
  | done (hCount : s.handed.count id = s.unmarked.count id + 1) (hDone : Done s id)
      (hInFlight : ∀ entry, s.inFlight = some entry → entry.id ≠ id)

theorem Counted.le (h : Counted s id) : s.handed.count id ≤ s.unmarked.count id + 1 := by
  cases h with
  | waiting => omega
  | inFlight => omega
  | done => omega

theorem Counted.of_inFlight (h : Counted s id) (hs : s.inFlight = some entry)
    (hi : entry.id = id) : s.handed.count id = s.unmarked.count id + 1 := by
  cases h with
  | waiting _ ho => exact absurd hi (ho entry hs)
  | inFlight hc => exact hc
  | done hc => exact hc

theorem Counted.keep (h : Counted s id) (hl : Later s t)
    (hh : t.handed.count id = s.handed.count id)
    (hu : t.unmarked.count id = s.unmarked.count id)
    (hf : ∀ entry, entry.id = id → (t.inFlight = some entry ↔ s.inFlight = some entry)) :
    Counted t id := by
  have hn (ho : ∀ entry, s.inFlight = some entry → entry.id ≠ id) (entry : DlqEntry)
      (hs : t.inFlight = some entry) : entry.id ≠ id :=
    fun hi => ho entry ((hf entry hi).mp hs) hi
  cases h with
  | waiting hc ho => exact .waiting (by rw [hh, hu, hc]) (hn ho)
  | inFlight hc entry hs hi =>
    exact .inFlight (by rw [hh, hu, hc]) entry ((hf entry hi).mpr hs) hi
  | done hc hd ho =>
    exact .done (by rw [hh, hu, hc]) (hl.done hd) (hn ho)

theorem Counted.step (h : Counted s id) (hl : Later s t) (ht : Turn a s t) : Counted t id := by
  cases ht with
  | quiet hh hu hf =>
    exact h.keep hl (by rw [hh]) (by rw [hu]) fun _ _ => by rw [hf]
  | hand entry hm hr hn hs hh hu =>
    by_cases hi : entry.id = id
    · cases h with
      | waiting hc =>
        exact .inFlight (by simp [hh, hu, hi, hc]) entry hs hi
      | inFlight _ other ho => cases hn.symm.trans ho
      | done _ hd =>
        rw [hd.inRun hm hi] at hr
        cases hr
    · exact h.keep hl (by simp [hh, hi]) (by rw [hu]) (by grind)
  | mark entry hs hn hd hh hu =>
    by_cases hi : entry.id = id
    · exact .done (by rw [hh, hu, h.of_inFlight hs hi]) (hi ▸ hd)
        (by simp [hn])
    · exact h.keep hl (by rw [hh]) (by rw [hu]) (by grind)
  | leave entry ha hs hn hh hu =>
    by_cases hi : entry.id = id
    · exact .waiting (by simp [hh, hu, hi, h.of_inFlight hs hi]) (by simp [hn])
    · exact h.keep hl (by rw [hh]) (by simp [hu, hi]) (by grind)

/-- Where the delivery of an entry in flight ends without a mark, it is not the last that the limit
allows. -/
def FailsRarely (limit : ℚ) : Action → World → Prop
  | .settle _ delivery mark, s =>
    marks delivery mark = false →
      s.inFlight.all fun entry => ((s.unmarked.count entry.id : ℕ) : ℚ) + 2 ≤ limit
  | .crash, s => s.inFlight.all fun entry => ((s.unmarked.count entry.id : ℕ) : ℚ) + 2 ≤ limit
  | _, _ => True

instance (limit : ℚ) (a : Action) (s : World) : Decidable (FailsRarely limit a s) :=
  match a with
  | .settle _ _ _ => inferInstanceAs (Decidable (_ → _))
  | .crash => inferInstanceAs (Decidable (_ = true))
  | .start _ | .entry _ _ | .finish | .push _ | .markOther _ _ => isTrue trivial

/-- Each entry is `Counted`, its unmarked deliveries below the limit. -/
structure Ok (limit : ℚ) (s : World) : Prop where
  listed : Listed s
  counted : ∀ id, Counted s id
  unmarked : ∀ {id}, id ∈ s.unmarked → ((s.unmarked.count id : ℕ) : ℚ) + 1 ≤ limit

theorem Ok.step (h : Ok limit s) (hr : FailsRarely limit a s)
    (hb : Dlq.step processor parseDate a s = some t) : Ok limit t := by
  obtain ⟨hl, ht⟩ := step_turn h.listed hb
  refine ⟨hl.listed, fun id => (h.counted id).step hl ht, ?_⟩
  intro id hm
  cases ht with
  | quiet _ hu _ | hand _ _ _ _ _ _ hu | mark _ _ _ _ _ hu =>
    exact hu ▸ h.unmarked (hu ▸ hm)
  | leave entry ha hs _ _ hu =>
    have hc : ((s.unmarked.count entry.id : ℕ) : ℚ) + 2 ≤ limit := by
      rcases ha with ⟨now, delivery, mark, rfl, hd⟩ | rfl
      · simpa [FailsRarely, hs] using hr hd
      · simpa [FailsRarely, hs] using hr
    rw [hu] at hm ⊢
    by_cases hi : entry.id = id
    · subst hi
      rw [count_append, count_singleton_self]
      push_cast
      linarith
    · have hm : id ∈ s.unmarked := by
        rcases mem_append.mp hm with hm | hm
        · exact hm
        · exact absurd (mem_singleton.mp hm).symm hi
      simpa [count_append, hi] using h.unmarked hm

structure Fresh (s : World) : Prop where
  store : (s.store.map DlqEntry.id).Nodup
  cycle : s.cycle = none
  handed : s.handed = []
  unmarked : s.unmarked = []

theorem Ok.of_fresh (h : Fresh s) : Ok limit s where
  listed := ⟨h.store, by simp [World.inFlight, World.entries, h.cycle],
    by simp [World.inFlight, World.entries, h.cycle]⟩
  counted id := .waiting (by rw [h.handed, h.unmarked]) (by simp [World.inFlight, h.cycle])
  unmarked hm := by simp [h.unmarked] at hm

/-- Where the limit is at least 1 and fewer deliveries of each entry than it end without a mark,
runs hand each entry over at most as often as the limit says. -/
theorem replay_bounded (options : Options) (parseDate : ParseDate) (actions : List Action)
    (s t : World) (hFresh : Fresh s) (hLimit : 1 ≤ (Processor.ofOptions options).maxReplayAttempts)
    (hRare : Along (step (.ofOptions options) parseDate)
      (FailsRarely (Processor.ofOptions options).maxReplayAttempts) actions s)
    (hRun : run (step (.ofOptions options) parseDate) actions s = some t) (id : String) :
    ((t.handed.count id : ℕ) : ℚ) ≤ (Processor.ofOptions options).maxReplayAttempts := by
  have ho := run_invariant (Ok (Processor.ofOptions options).maxReplayAttempts)
    (fun _ _ _ ho hRare hs => ho.step hRare hs) (.of_fresh hFresh) hRare hRun
  have hl : ((t.handed.count id : ℕ) : ℚ) ≤ t.unmarked.count id + 1 := by
    exact_mod_cast (ho.counted id).le
  by_cases hm : id ∈ t.unmarked
  · exact hl.trans (ho.unmarked hm)
  · rw [count_eq_zero_of_not_mem hm] at hl
    exact hl.trans (by simpa using hLimit)

def deadLetter : DlqEntry :=
  ⟨"e1", some "w1", some ⟨some "bond.created", some "2026-01-01T00:00:00.000Z", true⟩,
    some "2026-01-01T00:00:00.000Z", some 1, none⟩

def oneEntry : World := ⟨[deadLetter], none, [], [], []⟩

def atMost (limit : Number) : Options := ⟨none, none, some limit, none⟩

def readsDate : ParseDate := fun _ => some 1767225600000

def cycleOver (entry : DlqEntry) (delivery : Delivery) : List Action :=
  [.start (some [entry]), .entry 1767226200000 (.found true),
    .settle 1767226200000 delivery .ok, .finish]

theorem replay_bounded_secondSucceeds : ∃ t, run (step (.ofOptions (atMost 2)) readsDate)
        (cycleOver deadLetter (.single false) ++ cycleOver deadLetter (.single true)) oneEntry =
          some t ∧ t.handed.count "e1" = 2 ∧
      ((t.handed.count "e1" : ℕ) : ℚ) ≤ (Processor.ofOptions (atMost 2)).maxReplayAttempts := by
  have hr : run (step (.ofOptions (atMost 2)) readsDate)
      (cycleOver deadLetter (.single false) ++ cycleOver deadLetter (.single true)) oneEntry =
        some _ := rfl
  exact ⟨_, hr, by decide +kernel, replay_bounded (atMost 2) readsDate _ oneEntry _
    ⟨by decide, rfl, rfl, rfl⟩ (by decide +kernel) (by decide +kernel) hr "e1"⟩

/-- Each run hands over the entry whose delivery fails. -/
theorem failing_entry_replayed_again :
    ∃ t, Fresh oneEntry ∧ run (step (.ofOptions (atMost 1)) readsDate)
        (cycleOver deadLetter (.single false) ++ cycleOver deadLetter (.single false)) oneEntry =
          some t ∧
      (Processor.ofOptions (atMost 1)).maxReplayAttempts = 1 ∧ t.handed.count "e1" = 2 := by
  exact ⟨_, ⟨by decide, rfl, rfl, rfl⟩, rfl, by decide +kernel, by decide +kernel⟩

end Credence.Webhooks.Dlq
