import Credence.Horizon.Listing

/-! The report of `verifyHorizonParity`: what it depends on, when it is valid, what it counts. -/

namespace Credence.Horizon

open Js Crypto List

variable {hash : TextHash} {states : String → Option IdentityStateView}
  {events listed : List HorizonEventRecord} {knownAddresses : List String}

theorem filter_checkRecord : (events.flatMap (checkRecord hash)).filter
    (fun finding => finding.kind ≠ .recordHashMismatch) = [] := by
  rw [filter_eq_nil_iff]
  intro finding hf
  obtain ⟨event, -, hm⟩ := mem_flatMap.mp hf
  unfold checkRecord at hm
  dsimp only at hm
  split at hm
  · cases mem_singleton.mp hm
    simp
  · cases hm

theorem addresses_checkState (entries : List (String × IdentityStateView)) :
    (((entries.flatMap fun entry => checkState states entry.1 entry.2).filter
      fun finding => finding.kind ≠ .recordHashMismatch).map HorizonParityFinding.address) =
      (entries.filter fun entry => ¬Matches states entry).map Prod.fst := by
  induction entries with
  | nil => rfl
  | cons entry entries ih =>
    rw [flatMap_cons, filter_append, map_append, ih]
    rcases checkState_cases states entry with ⟨hn, hy⟩ | ⟨finding, ho, he, hk, ha⟩
    · simp [hn, hy]
    · simp [ho, he, hk, ha]

theorem checkKnown_finding {entries : List (String × IdentityStateView)} {address : String}
    {finding : HorizonParityFinding} (h : finding ∈ checkKnown states entries address) :
    Map.get finding.address entries = none ∧ finding.kind ≠ .recordHashMismatch := by
  have hg := mt checkKnown_eq_nil.mpr (ne_nil_of_mem h)
  rw [not_not] at hg
  obtain ⟨hn, actual, ha, hs⟩ := hg
  rw [checkKnown, hn, ha] at h
  simp only [Option.isSome_none, Bool.false_eq_true, if_false, if_pos hs, mem_singleton] at h
  subst h
  exact ⟨hn, nofun⟩

/-- What the report counts as matched: the folded addresses with the committed state, less the known
addresses with a gap. -/
theorem matchedAddresses_eq :
    (verifyHorizonParity hash events states knownAddresses).matchedAddresses =
      ((applyBondEvents events).countP (Matches states ·) : Int) -
        ((knownAddresses.flatMap (checkKnown states (applyBondEvents events))).map
          HorizonParityFinding.address).dedup.length := by
  have hc := length_eq_countP_add_countP (Matches states ·) (l := applyBondEvents events)
  have hk : (knownAddresses.flatMap (checkKnown states (applyBondEvents events))).filter
      (fun finding => finding.kind ≠ .recordHashMismatch) =
        knownAddresses.flatMap (checkKnown states (applyBondEvents events)) := by
    refine filter_eq_self.mpr fun finding hf => ?_
    obtain ⟨address, -, hm⟩ := mem_flatMap.mp hf
    simpa using (checkKnown_finding hm).2
  have hj : ((applyBondEvents events).filter fun entry => ¬Matches states entry).map
      Prod.fst |>.Nodup :=
    (nodup_applyBondEvents events).sublist (filter_sublist.map _)
  have hd : Disjoint
      (((applyBondEvents events).filter fun entry => ¬Matches states entry).map Prod.fst)
      ((knownAddresses.flatMap (checkKnown states (applyBondEvents events))).map
        HorizonParityFinding.address) := by
    intro address ha hb
    obtain ⟨entry, he, rfl⟩ := mem_map.mp ha
    obtain ⟨finding, hf, hi⟩ := mem_map.mp hb
    obtain ⟨known, -, hm⟩ := mem_flatMap.mp hf
    have hn := (checkKnown_finding hm).1
    rw [hi, Map.get_of_mem (nodup_applyBondEvents events) (mem_of_mem_filter he)] at hn
    cases hn
  simp only [verifyHorizonParity, filter_append, filter_checkRecord, nil_append, map_append,
    addresses_checkState, hk]
  rw [hd.dedup_append, length_append, dedup_eq_self.mpr hj, length_map, ← countP_eq_length_filter]
  simp only [decide_eq_true_eq] at hc
  omega

/-- The report does not depend on the order of the records or on repeated ones, it is valid
precisely when the hashes and the states agree, and it counts the matched addresses precisely when
no known address without events has a state of its own. -/
theorem parity_report (hash : TextHash) (events : List HorizonEventRecord)
    (states : String → Option IdentityStateView) (knownAddresses : List String) :
    let report := verifyHorizonParity hash events states knownAddresses
    let folded := applyBondEvents events
    (∀ listed, (∀ event, event ∈ listed ↔ event ∈ events) →
      (∀ a ∈ events, ∀ b ∈ events, a.pagingToken = b.pagingToken → a = b) →
      let again := verifyHorizonParity hash listed states knownAddresses
      again.totalAddresses = report.totalAddresses ∧
        again.matchedAddresses = report.matchedAddresses ∧
        again.mismatchedAddresses = report.mismatchedAddresses ∧ again.valid = report.valid ∧
        (listed.Perm events ∨ HashesMatch hash events → again.findings.Perm report.findings)) ∧
    (report.valid = true ↔ HashesMatch hash events ∧ (∀ entry ∈ folded, Matches states entry) ∧
      ∀ address ∈ knownAddresses, ¬SilentGap states folded address) ∧
    (report.matchedAddresses = folded.countP (Matches states ·) ↔
      ∀ address ∈ knownAddresses, ¬SilentGap states folded address) ∧
    ((∀ address ∈ knownAddresses, ¬SilentGap states folded address) →
      0 ≤ report.matchedAddresses) ∧ report.matchedAddresses ≤ report.totalAddresses := by
  dsimp only
  refine ⟨fun listed hm ht => ?_, valid_iff, ?_⟩
  · have hf : applyBondEvents listed = applyBondEvents events := by
      refine applyBondEvents_congr hm fun a ha b hb hAB hBA => ht a ha b hb ?_
      rcases hAB with hLt | ⟨he, -⟩
      · rcases hBA with hg | ⟨he, -⟩
        · omega
        · exact he.symm
      · exact he
    simp only [verifyHorizonParity, hf, filter_append, filter_checkRecord, true_and]
    refine ⟨?_, ?_⟩
    · rw [Bool.eq_iff_iff]
      simp [hm]
    · rintro (hp | hh)
      · exact ((hp.flatMap_right _).append_right _).append_right _
      · have hl : HashesMatch hash listed := fun event h => hh event ((hm event).mp h)
        rw [flatMap_eq_nil_iff.mpr (forall_checkRecord_eq_nil.mpr hh),
          flatMap_eq_nil_iff.mpr (forall_checkRecord_eq_nil.mpr hl)]
  · have hm : (verifyHorizonParity hash events states knownAddresses).matchedAddresses =
        (applyBondEvents events).countP (Matches states ·) ↔
          ∀ address ∈ knownAddresses, ¬SilentGap states (applyBondEvents events) address := by
      simp only [← checkKnown_eq_nil]
      rw [matchedAddresses_eq, ← flatMap_eq_nil_iff,
        ← map_eq_nil_iff (f := HorizonParityFinding.address), ← dedup_eq_nil,
        ← length_eq_zero_iff]
      omega
    refine ⟨hm, fun hn => hm.mpr hn ▸ Int.natCast_nonneg _, ?_⟩
    have hl := countP_le_length (p := (Matches states ·)) (l := applyBondEvents events)
    rw [matchedAddresses_eq]
    show _ ≤ ((applyBondEvents events).length : Int)
    omega

def oneEvent : HorizonEventRecord := LedgerRow.record tokenNumber (bondRow 1 "GA" "9")

theorem parity_report_repeated : let states address :=
      if address = "GA" then some (stateFromBondEvent oneEvent.payload) else none
    let again := verifyHorizonParity sha256Hash [oneEvent, oneEvent] states ["GB"]
    again.matchedAddresses =
      (verifyHorizonParity sha256Hash [oneEvent] states ["GB"]).matchedAddresses :=
  ((parity_report sha256Hash [oneEvent] _ ["GB"]).1 [oneEvent, oneEvent] (by simp) (by simp)).2.1

/-- Without any event, a known address with a bond makes the matched addresses negative. -/
theorem matched_negative :
    (verifyHorizonParity sha256Hash [] (fun _ => some (stateFromBondEvent oneEvent.payload))
      ["GA"]).matchedAddresses = -1 := by
  decide +kernel

end Credence.Horizon
