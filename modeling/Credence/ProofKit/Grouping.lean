import Mathlib.Data.List.Induction
import Mathlib.Data.List.Perm.Basic

/-! Grouping a list by a key, as a `Map` filled in one pass does it: the groups stand in the order
in which their keys first occur. -/

namespace Credence.ProofKit

open scoped List

variable {α κ : Type} [DecidableEq κ]

/-- Appends an element to the group of its key, or opens a group at the end. -/
def addToGroup (key : κ) (a : α) : List (κ × List α) → List (κ × List α)
  | [] => [(key, [a])]
  | (k, group) :: groups =>
    if k = key then (k, group ++ [a]) :: groups else (k, group) :: addToGroup key a groups

def groupByKey (key : α → κ) (as : List α) : List (κ × List α) :=
  as.foldl (fun groups a => addToGroup (key a) a groups) []

/-- Every element is in the group of its key, and no key has two groups. -/
structure Grouped (key : α → κ) (groups : List (κ × List α)) : Prop where
  member : ∀ g ∈ groups, ∀ a ∈ g.2, key a = g.1
  distinct : (groups.map Prod.fst).Nodup

variable {key : α → κ}

variable {k : κ} {a : α} {groups : List (κ × List α)} {as : List α}

theorem mem_keys_addToGroup {k' : κ} :
    k' ∈ (addToGroup k a groups).map Prod.fst ↔ k' = k ∨ k' ∈ groups.map Prod.fst := by
  induction groups with
  | nil => simp [addToGroup]
  | cons g groups ih =>
    by_cases hk : g.1 = k
    · simp only [addToGroup, hk, if_true, List.map_cons, List.mem_cons]
      tauto
    · simp only [addToGroup, hk, if_false, List.map_cons, List.mem_cons, ih]
      tauto

theorem Grouped.addToGroup (h : Grouped key groups) (a : α) :
    Grouped key (addToGroup (key a) a groups) := by
  induction groups with
  | nil => exact ⟨by simp [ProofKit.addToGroup], by simp [ProofKit.addToGroup]⟩
  | cons g groups ih =>
    obtain ⟨hf, hd⟩ := List.nodup_cons.mp h.distinct
    have hr := ih ⟨fun g' hg => h.member g' (List.mem_cons_of_mem _ hg), hd⟩
    by_cases hk : g.1 = key a
    · rw [ProofKit.addToGroup, if_pos hk]
      refine ⟨?_, h.distinct⟩
      intro g' hg b hb
      rcases List.mem_cons.mp hg with rfl | hg
      · rcases List.mem_append.mp hb with hb | hb
        · exact h.member g (List.mem_cons_self ..) b hb
        · obtain rfl := List.mem_singleton.mp hb
          exact hk.symm
      · exact h.member g' (List.mem_cons_of_mem _ hg) b hb
    · rw [ProofKit.addToGroup, if_neg hk]
      refine ⟨?_, List.nodup_cons.mpr ⟨?_, hr.distinct⟩⟩
      · intro g' hg b hb
        rcases List.mem_cons.mp hg with rfl | hg
        · exact h.member _ (List.mem_cons_self ..) b hb
        · exact hr.member g' hg b hb
      · intro hm
        rcases mem_keys_addToGroup.mp hm with hs | ho
        · exact hk hs
        · exact hf ho

def ofKey (key : α → κ) (k : κ) (as : List α) : List α := as.filter fun a => key a = k

theorem ofKey_append (k : κ) (as bs : List α) :
    ofKey key k (as ++ bs) = ofKey key k as ++ ofKey key k bs := List.filter_append ..

theorem ofKey_of_ne (h : ∀ a ∈ as, key a ≠ k) : ofKey key k as = [] := by
  simpa [ofKey] using h

theorem Grouped.ofKey_addToGroup (h : Grouped key groups) (a : α) (k : κ) :
    ofKey key k ((ProofKit.addToGroup (key a) a groups).flatMap Prod.snd) =
      ofKey key k (groups.flatMap Prod.snd) ++ ofKey key k [a] := by
  induction groups with
  | nil => simp [ProofKit.addToGroup, ofKey]
  | cons g groups ih =>
    obtain ⟨hf, hd⟩ := List.nodup_cons.mp h.distinct
    have hr : Grouped key groups := ⟨fun g' hg => h.member g' (List.mem_cons_of_mem _ hg), hd⟩
    by_cases hk : g.1 = key a
    · rw [ProofKit.addToGroup, if_pos hk]
      simp only [List.flatMap_cons, ofKey_append]
      by_cases hkey : key a = k
      · have hn : ofKey key k (groups.flatMap Prod.snd) = [] := by
          refine ofKey_of_ne fun b hb => ?_
          obtain ⟨g', hg, hb⟩ := List.mem_flatMap.mp hb
          rw [hr.member g' hg b hb]
          rintro rfl
          exact hf (hk.trans hkey ▸ List.mem_map_of_mem hg)
        simp [hn]
      · have hn : ofKey key k [a] = [] := ofKey_of_ne (by simpa using hkey)
        simp [hn]
    · rw [ProofKit.addToGroup, if_neg hk]
      simp only [List.flatMap_cons, ofKey_append, ih hr, List.append_assoc]

theorem groupByKey_induction {P : List α → List (κ × List α) → Prop} (nil : P [] [])
    (snoc : ∀ as a groups, P as groups → P (as ++ [a]) (addToGroup (key a) a groups))
    (as : List α) : P as (groupByKey key as) := by
  induction as using List.reverseRecOn with
  | nil => exact nil
  | append_singleton as a ih =>
    rw [groupByKey, List.foldl_append]
    exact snoc as a _ ih

theorem groupByKey_ofKey (as : List α) : Grouped key (groupByKey key as) ∧
      ∀ k, ofKey key k ((groupByKey key as).flatMap Prod.snd) = ofKey key k as := by
  refine groupByKey_induction (P := fun as groups => Grouped key groups ∧
    ∀ k, ofKey key k (groups.flatMap Prod.snd) = ofKey key k as) ?_ ?_ as
  · exact ⟨⟨by simp, by simp⟩, fun k => rfl⟩
  · rintro as a groups ⟨hg, hk⟩
    refine ⟨hg.addToGroup a, fun k => ?_⟩
    rw [hg.ofKey_addToGroup, hk, ofKey_append]

theorem addToGroup_perm (k : κ) (a : α) (groups : List (κ × List α)) :
    (addToGroup k a groups).flatMap Prod.snd ~ groups.flatMap Prod.snd ++ [a] := by
  induction groups with
  | nil => simp [addToGroup]
  | cons g groups ih =>
    by_cases hk : g.1 = k
    · rw [addToGroup, if_pos hk]
      simp only [List.flatMap_cons, List.append_assoc]
      exact List.perm_append_comm.append_left g.2
    · rw [addToGroup, if_neg hk]
      simp only [List.flatMap_cons, List.append_assoc]
      exact ih.append_left g.2

theorem groupByKey_perm (as : List α) : (groupByKey key as).flatMap Prod.snd ~ as := by
  refine groupByKey_induction (P := fun as groups => groups.flatMap Prod.snd ~ as) ?_ ?_ as
  · exact List.Perm.refl _
  · intro as a groups hp
    exact (addToGroup_perm (key a) a groups).trans (hp.append_right [a])

theorem pair_sublist_groupByKey {b : α} (hk : key a = key b) (h : [a, b].Sublist as) :
    [a, b].Sublist ((groupByKey key as).flatMap Prod.snd) := by
  have hf : [a, b].Sublist (ofKey key (key b) as) := by
    have := h.filter fun c => decide (key c = key b)
    simpa [ofKey, hk] using this
  rw [← (groupByKey_ofKey as).2] at hf
  exact hf.trans List.filter_sublist

end Credence.ProofKit
