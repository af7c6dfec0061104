import Mathlib.Data.List.Nodup

/-! Lists joined with a separator, and selections from a list whose keys are distinct. -/

namespace Credence.ProofKit

open List

section

variable {α : Type} [BEq α] [LawfulBEq α]

variable {parts : List (List α)}

end

section

variable {α κ : Type} {key : α → κ}

theorem prefix_of_map_prefix {kept rows : List α} (hn : (rows.map key).Nodup)
    (hk : kept.Sublist rows) (he : kept.map key <+: rows.map key) : kept <+: rows := by
  induction rows generalizing kept with
  | nil =>
    obtain rfl := sublist_nil.mp hk
    exact prefix_rfl
  | cons row rows ih =>
    cases kept with
    | nil => exact nil_prefix
    | cons =>
      obtain ⟨hr, ha⟩ := nodup_cons.mp hn
      obtain ⟨hf, hb⟩ := cons_prefix_cons.mp he
      cases hk with
      | cons _ hl =>
        exact absurd (hf ▸ mem_map_of_mem (hl.subset (mem_cons_self ..))) hr
      | cons_cons _ hl =>
        exact cons_prefix_cons.mpr ⟨rfl, ih ha hl hb⟩

end

variable {α : Type} {i j : Nat}

theorem joined_eq_iff {sep : α} {first first' rest rest' : List α} :
    first ++ sep :: rest = first' ++ sep :: rest' ↔ (first = first' ∧ rest = rest') ∨
      (∃ part, first' = first ++ sep :: part ∧ rest = part ++ sep :: rest') ∨
      ∃ part, first = first' ++ sep :: part ∧ rest' = part ++ sep :: rest := by
  constructor
  · intro h
    rcases append_eq_append_iff.mp h with ⟨middle, hf, hr⟩ | ⟨middle, hf, hr⟩
    · cases middle with
      | nil =>
        cases hr
        exact .inl ⟨by simpa using hf.symm, rfl⟩
      | cons head part =>
        cases hr
        exact .inr (.inl ⟨part, hf, rfl⟩)
    · cases middle with
      | nil =>
        cases hr
        exact .inl ⟨by simpa using hf, rfl⟩
      | cons head part =>
        cases hr
        exact .inr (.inr ⟨part, hf, rfl⟩)
  · rintro (⟨rfl, rfl⟩ | ⟨part, rfl, rfl⟩ | ⟨part, rfl, rfl⟩)
    · rfl
    · simp
    · simp

theorem first_part_eq {sep : α} {first first' rest rest' : List α} (hf : sep ∉ first)
    (hf' : sep ∉ first') (h : first ++ sep :: rest = first' ++ sep :: rest') :
    first = first' ∧ rest = rest' := by
  rcases joined_eq_iff.mp h with hs | ⟨part, rfl, -⟩ | ⟨part, rfl, -⟩
  · exact hs
  · exact absurd (mem_append_right first mem_cons_self) hf'
  · exact absurd (mem_append_right first' mem_cons_self) hf

variable {items : List α} {a : α}

theorem find?_of_unique {p : α → Bool} (hm : a ∈ items)
    (ht : p a = true) (hu : ∀ b ∈ items, p b = true → b = a) : items.find? p = some a := by
  cases hf : items.find? p with
  | none => exact absurd ht (find?_eq_none.mp hf a hm)
  | some b =>
    rw [hu b (mem_of_find?_eq_some hf) (find?_some hf)]

theorem exists_ne_of_nodup (hn : items.Nodup) (ht : 2 ≤ items.length) :
    ∃ a b, a ≠ b ∧ a ∈ items ∧ b ∈ items := by
  cases items with
  | nil => simp at ht
  | cons a rest =>
    cases rest with
    | nil => simp at ht
    | cons b =>
      refine ⟨a, b, ?_, mem_cons_self, mem_cons_of_mem _ mem_cons_self⟩
      rintro rfl
      exact (nodup_cons.mp hn).1 mem_cons_self

theorem getElem?_concat (items : List α) (a : α) (i : Nat) :
    (items ++ [a])[i]? = if items.length = i then some a else items[i]? := by
  rcases Nat.lt_trichotomy i items.length with hl | rfl | hg
  · rw [getElem?_append_left hl, if_neg (Nat.ne_of_gt hl)]
  · simp
  · rw [if_neg (Nat.ne_of_lt hg), getElem?_eq_none, getElem?_eq_none]
    · exact Nat.le_of_lt hg
    · rw [length_append, length_singleton]
      exact hg

theorem getElem?_concat_eq_some_iff {b : α} :
    (items ++ [a])[i]? = some b ↔ items[i]? = some b ∨ i = items.length ∧ a = b := by
  rw [getElem?_concat]
  split
  · next hl => simp [← hl]
  · next ho => simp [Ne.symm ho]

theorem getElem?_set_eq_some {b : α} (h : (items.set i a)[j]? = some b) :
    (i = j ∧ a = b) ∨ (i ≠ j ∧ items[j]? = some b) := by
  rw [getElem?_set] at h
  split at h
  · next hp =>
    split at h
    · exact .inl ⟨hp, Option.some.inj h⟩
    · cases h
  · next hp => exact .inr ⟨hp, h⟩

theorem forall_getElem?_concat {P : Nat → α → Prop}
    (h : ∀ (i : Nat) (b : α), items[i]? = some b → P i b) (hl : P items.length a) :
    ∀ (i : Nat) (b : α), (items ++ [a])[i]? = some b → P i b := by
  intro i b hi
  rcases getElem?_concat_eq_some_iff.mp hi with ho | ⟨rfl, rfl⟩
  · exact h i b ho
  · exact hl

theorem forall_getElem?_set {P : Nat → α → Prop}
    (h : ∀ (j : Nat) (b : α), i ≠ j → items[j]? = some b → P j b) (ha : P i a) :
    ∀ (j : Nat) (b : α), (items.set i a)[j]? = some b → P j b := by
  intro j b hi
  rcases getElem?_set_eq_some hi with ⟨rfl, rfl⟩ | ⟨hp, ho⟩
  · exact ha
  · exact h j b hp ho

theorem getElem?_modify_eq_some {f : α → α} {b : α} (h : (items.modify i f)[j]? = some b) :
    ∃ a, items[j]? = some a ∧ (if i = j then f a else a) = b := by
  rw [getElem?_modify] at h
  exact Option.map_eq_some_iff.mp h

theorem getElem?_inj_of_nodup_filterMap {β : Type} {f : α → Option β}
    (h : (items.filterMap f).Nodup) {b : α} {c : β} (hi : items[i]? = some a)
    (hj : items[j]? = some b) (ha : f a = some c) (hb : f b = some c) : i = j := by
  obtain ⟨hf, rfl⟩ := List.getElem?_eq_some_iff.mp hi
  obtain ⟨hs, rfl⟩ := List.getElem?_eq_some_iff.mp hj
  have hp := pairwise_iff_getElem.mp (pairwise_filterMap.mp h)
  rcases Nat.lt_trichotomy i j with hl | he | hl
  · exact absurd rfl (hp i j hf hs hl c ha c hb)
  · exact he
  · exact absurd rfl (hp j i hs hf hl c hb c ha)

theorem getElem?_inj_of_filter_le_one {p : α → Bool}
    (h : (items.filter p).length ≤ 1) {b : α} (hi : items[i]? = some a) (hj : items[j]? = some b)
    (ha : p a = true) (hb : p b = true) : i = j := by
  obtain ⟨hf, rfl⟩ := List.getElem?_eq_some_iff.mp hi
  obtain ⟨hs, rfl⟩ := List.getElem?_eq_some_iff.mp hj
  have hn : (items.filter p).Pairwise fun _ _ => False := by
    match hc : items.filter p with
    | [] => exact .nil
    | [_] => exact pairwise_singleton _ _
    | _ :: _ :: _ => simp [hc] at h
  have hp := pairwise_iff_getElem.mp (pairwise_filter.mp hn)
  rcases Nat.lt_trichotomy i j with hl | he | hl
  · exact absurd hb (hp i j hf hs hl ha)
  · exact he
  · exact absurd ha (hp j i hs hf hl hb)

end Credence.ProofKit
