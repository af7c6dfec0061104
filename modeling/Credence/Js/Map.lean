import Mathlib.Data.List.Basic

/-! A JavaScript `Map` as the list of its entries in the order of their first insertion. -/

namespace Credence.Js.Map

open List

variable {κ ν : Type} [DecidableEq κ]

def set (key : κ) (value : ν) : List (κ × ν) → List (κ × ν)
  | [] => [(key, value)]
  | (k, v) :: entries => if k = key then (k, value) :: entries else (k, v) :: set key value entries

def get (key : κ) : List (κ × ν) → Option ν
  | [] => none
  | (k, v) :: entries => if k = key then some v else get key entries

def delete (key : κ) (entries : List (κ × ν)) : List (κ × ν) :=
  entries.filter fun entry => entry.1 ≠ key

theorem get_set (key other : κ) (value : ν) (entries : List (κ × ν)) :
    get other (set key value entries) = if key = other then some value else get other entries := by
  induction entries with
  | nil => rfl
  | cons entry entries ih =>
    obtain ⟨k, v⟩ := entry
    by_cases hk : k = key
    · subst hk
      by_cases ho : k = other <;> simp [set, get, ho]
    · by_cases ho : k = other
      · subst ho
        simp [set, get, hk, Ne.symm hk]
      · simp [set, get, hk, ho, ih]

theorem get_set_self (key : κ) (value : ν) (entries : List (κ × ν)) :
    get key (set key value entries) = some value := by
  rw [get_set, if_pos rfl]

theorem get_delete (key other : κ) (entries : List (κ × ν)) :
    get other (delete key entries) = if key = other then none else get other entries := by
  induction entries with
  | nil => simp [delete, get]
  | cons entry entries ih =>
    obtain ⟨k, v⟩ := entry
    rw [delete] at ih ⊢
    by_cases hk : k = key
    · rw [filter_cons_of_neg (by simpa using hk), ih, get]
      split
      · rfl
      · next ho => rw [if_neg (hk ▸ ho)]
    · rw [filter_cons_of_pos (by simpa using hk), get, get, ih]
      by_cases ho : k = other
      · rw [if_pos ho, if_pos ho, if_neg (fun h => hk (ho.trans h.symm))]
      · rw [if_neg ho, if_neg ho]

variable {key other : κ} {value : ν} {entries : List (κ × ν)} {μ : Type}

theorem get_of_set {new : ν} (h : get other (set key new entries) = some value) :
    (key = other ∧ new = value) ∨ get other entries = some value := by
  rw [get_set] at h
  split at h
  · next hk => exact .inl ⟨hk, Option.some.inj h⟩
  · exact .inr h

theorem get_of_delete (h : get other (delete key entries) = some value) :
    key ≠ other ∧ get other entries = some value := by
  rw [get_delete] at h
  split at h
  · cases h
  · next hk => exact ⟨hk, h⟩

theorem keys_set_subset (key : κ) (value : ν) (entries : List (κ × ν)) :
    ∀ k ∈ (set key value entries).map Prod.fst, k = key ∨ k ∈ entries.map Prod.fst := by
  induction entries with
  | nil => simp [set]
  | cons entry entries ih =>
    obtain ⟨k, v⟩ := entry
    intro k' hk'
    by_cases hk : k = key
    · simp only [set, if_pos hk, map_cons] at hk'
      exact .inr hk'
    · simp only [set, if_neg hk, map_cons, mem_cons] at hk' ⊢
      rcases hk' with rfl | hk'
      · exact .inr (.inl rfl)
      · rcases ih k' hk' with rfl | hm
        · exact .inl rfl
        · exact .inr (.inr hm)

def Nodup (entries : List (κ × ν)) : Prop := (entries.map Prod.fst).Nodup

theorem nodup_set (key : κ) (value : ν) (h : Nodup entries) : Nodup (set key value entries) := by
  induction entries with
  | nil => simp [set, Nodup]
  | cons entry entries ih =>
    obtain ⟨k, v⟩ := entry
    obtain ⟨hk, hr⟩ := nodup_cons.mp h
    by_cases ha : k = key
    · simp only [set, if_pos ha]
      exact h
    · simp only [set, if_neg ha]
      refine nodup_cons.mpr ⟨fun hm => ?_, ih hr⟩
      rcases keys_set_subset key value entries k hm with he | hm
      · exact ha he
      · exact hk hm

theorem nodup_delete (key : κ) (h : Nodup entries) : Nodup (delete key entries) :=
  h.sublist (filter_sublist.map Prod.fst)

theorem get_of_mem (h : Nodup entries) (hm : (key, value) ∈ entries) :
    get key entries = some value := by
  induction entries with
  | nil => cases hm
  | cons entry entries ih =>
    obtain ⟨k, v⟩ := entry
    obtain ⟨hk, hr⟩ := nodup_cons.mp h
    rcases mem_cons.mp hm with he | hm
    · cases he
      simp [get]
    · have hne : k ≠ key := by
        rintro rfl
        exact hk (mem_map.mpr ⟨(k, value), hm, rfl⟩)
      rw [get, if_neg hne]
      exact ih hr hm

theorem mem_of_get (h : get key entries = some value) : (key, value) ∈ entries := by
  induction entries with
  | nil => cases h
  | cons entry entries ih =>
    obtain ⟨k, v⟩ := entry
    rw [get] at h
    split at h
    · next hk =>
      cases h
      exact hk ▸ mem_cons_self
    · exact mem_cons_of_mem _ (ih h)

theorem get_eq_none_iff : get key entries = none ↔ key ∉ entries.map Prod.fst := by
  induction entries with
  | nil => simp [get]
  | cons entry entries ih =>
    by_cases hk : entry.1 = key
    · simp [get, hk]
    · simp [get, hk, Ne.symm hk, ih]

theorem length_set (key : κ) (value : ν) (entries : List (κ × ν)) : (set key value entries).length =
      if (get key entries).isSome then entries.length else entries.length + 1 := by
  induction entries with
  | nil => rfl
  | cons entry entries ih =>
    obtain ⟨k, v⟩ := entry
    by_cases hk : k = key
    · simp [set, get, hk]
    · rw [set, if_neg hk, get, if_neg hk, length_cons, ih]
      split <;> rfl

theorem get_map (f : ν → μ) (key : κ) (entries : List (κ × ν)) :
    get key (entries.map fun entry => (entry.1, f entry.2)) = (get key entries).map f := by
  induction entries with
  | nil => rfl
  | cons entry entries ih =>
    by_cases hk : entry.1 = key <;> simp [get, hk, ih]

omit [DecidableEq κ] in
theorem nodup_map (f : ν → μ) (h : Nodup entries) :
    Nodup (entries.map fun entry => (entry.1, f entry.2)) := by
  simpa [Nodup, Function.comp_def] using h

theorem get_filter (p : ν → Bool) (h : Nodup entries) (key : κ) :
    get key (entries.filter fun entry => p entry.2) = (get key entries).filter p := by
  have hi : Nodup (entries.filter fun entry => p entry.2) :=
    h.sublist (filter_sublist.map Prod.fst)
  cases hg : get key entries with
  | none =>
    cases hf : get key (entries.filter fun entry => p entry.2) with
    | none => rfl
    | some =>
      have hm := (mem_filter.mp (mem_of_get hf)).1
      cases hg.symm.trans (get_of_mem h hm)
  | some value =>
    cases ht : p value with
    | true =>
      rw [get_of_mem hi (mem_filter.mpr ⟨mem_of_get hg, ht⟩), Option.filter_some_pos ht]
    | false =>
      cases hf : get key (entries.filter fun entry => p entry.2) with
      | none => rw [Option.filter_some_neg (by simp [ht])]
      | some =>
        obtain ⟨hm, ho⟩ := mem_filter.mp (mem_of_get hf)
        cases hg.symm.trans (get_of_mem h hm)
        simp [ht] at ho

end Credence.Js.Map
