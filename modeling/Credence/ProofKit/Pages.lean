import Mathlib.Data.List.Basic

/-! A sorted list read in pages of `n`, where a page is taken from the items that pass the last item
of the page before it. -/

namespace Credence.ProofKit

open List

variable {α : Type} (passes : α → α → Bool) (n : Nat)

/-- What the pages yield: the items are the last page, or a full page comes first. -/
inductive Paged : List α → List α → Prop
  | last {items : List α} (h : items.length ≤ n) : Paged items items
  | next {page rest listed : List α} {last : α} (h : page.length + 1 = n)
      (hr : Paged ((page ++ last :: rest).filter (passes last)) listed) :
      Paged (page ++ last :: rest) (page ++ last :: listed)

/-- The first item of each page but the first passes the last item of the page before. -/
def CleanBreaks (items : List α) : Prop :=
  ∀ i, n ∣ i + 1 → ∀ last next, items[i]? = some last → items[i + 1]? = some next →
    passes last next = true

variable {passes n} {page rest items listed : List α} {last : α}

theorem exists_page {size : Nat} (h : size < items.length) : ∃ page last rest,
    items = page ++ last :: rest ∧ page.length = size := by
  refine ⟨items.take size, items[size], items.drop (size + 1), by simp, ?_⟩
  rw [length_take]
  omega

theorem Paged.of_nil (h : Paged passes n [] listed) : listed = [] := by
  generalize hi : ([] : List α) = items at h
  cases h with
  | last => rfl
  | next => simp at hi

theorem CleanBreaks.of_length_le (h : items.length ≤ n) : CleanBreaks passes n items := by
  intro i hd last next _ hn
  have hi := (List.getElem?_eq_some_iff.mp hn).1
  have := Nat.le_of_dvd i.succ_pos hd
  omega

theorem cleanBreaks_append (h : page.length + 1 = n) : CleanBreaks passes n (page ++ last :: rest) ↔
    (∀ next, rest.head? = some next → passes last next = true) ∧ CleanBreaks passes n rest := by
  have hg : ∀ i, (page ++ last :: rest)[n + i]? = rest[i]? := by
    intro i
    rw [getElem?_append_right (by omega), show n + i - page.length = i + 1 by omega,
      getElem?_cons_succ]
  have hl : (page ++ last :: rest)[page.length]? = some last := by simp
  constructor
  · intro hc
    refine ⟨fun next hn => hc page.length (h ▸ Nat.dvd_refl _) last next hl ?_,
      fun i hd a b ha hb => ?_⟩
    · rw [h, ← hn, ← Nat.add_zero n, hg, head?_eq_getElem?]
    · refine hc (n + i) (by rw [Nat.add_assoc]; exact Nat.dvd_add (Nat.dvd_refl n) hd) a b ?_ ?_
      · rw [hg, ha]
      · rw [Nat.add_assoc, hg, hb]
  · rintro ⟨hf, hc⟩ i hd a b ha hb
    have hn := Nat.le_of_dvd i.succ_pos hd
    obtain ⟨j, rfl⟩ | rfl : (∃ j, i = n + j) ∨ i = page.length := by
      rcases Nat.lt_or_ge i n with hi | hi
      · exact .inr (by omega)
      · exact .inl ⟨i - n, by omega⟩
    · rw [hg] at ha
      rw [Nat.add_assoc, hg] at hb
      exact hc j ((Nat.dvd_add_right (Nat.dvd_refl n)).mp (Nat.add_assoc n j 1 ▸ hd)) a b ha hb
    · rw [hl] at ha
      cases ha
      rw [h, ← Nat.add_zero n, hg, ← head?_eq_getElem?] at hb
      exact hf b hb

theorem filter_page {p : α → Bool} (hp : ∀ a ∈ page, p a = false) (hl : p last = false) :
    (page ++ last :: rest).filter p = rest.filter p := by
  rw [filter_append, filter_cons_of_neg (by simp [hl]),
    filter_eq_nil_iff.mpr fun a hm => by simp [hp a hm], nil_append]

theorem filter_eq_self_iff_head {le : α → α → Prop} (hs : rest.Pairwise le) {p : α → Bool}
    (hp : ∀ a b, le a b → p a = true → p b = true) :
    rest.filter p = rest ↔ ∀ next, rest.head? = some next → p next = true := by
  rw [filter_eq_self]
  cases rest with
  | nil => simp
  | cons next rest =>
    refine ⟨fun h a ha => ?_, fun h a hm => ?_⟩
    · cases ha
      exact h _ mem_cons_self
    · have hx := h next rfl
      rcases mem_cons.mp hm with rfl | hm
      · exact hx
      · exact hp next a ((pairwise_cons.mp hs).1 a hm) hx

/-- The pages yield no more than the items; they yield as many precisely when they break cleanly,
and then they yield the items themselves. -/
theorem Paged.spec (le : α → α → Prop) (hrefl : ∀ a, le a a)
    (hback : ∀ a b, le a b → passes b a = false)
    (hpass : ∀ last a b, le a b → passes last a = true → passes last b = true)
    (h : Paged passes n items listed) (hs : items.Pairwise le) :
    listed.length ≤ items.length ∧ (listed.length = items.length ↔ CleanBreaks passes n items) ∧
      (CleanBreaks passes n items → listed = items) := by
  induction h with
  | last hl => exact ⟨Nat.le_refl _, iff_of_true rfl (.of_length_le hl), fun _ => rfl⟩
  | @next page rest listed last hl hr ih =>
    obtain ⟨-, hsl, hp⟩ := pairwise_append.mp hs
    obtain ⟨ha, hsr⟩ := pairwise_cons.mp hsl
    have hf : (page ++ last :: rest).filter (passes last) = rest.filter (passes last) :=
      filter_page (fun a hm => hback a last (hp a hm last mem_cons_self)) (hback _ _ (hrefl last))
    rw [hf] at ih
    obtain ⟨hle, hiff, heq⟩ := ih (hsr.filter _)
    have hlf := length_filter_le (passes last) rest
    -- the pages go on with all that is left precisely when its first item passes
    rw [cleanBreaks_append hl, ← filter_eq_self_iff_head hsr (hpass last)]
    simp only [length_append, length_cons]
    refine ⟨by omega, ⟨fun he => ?_, fun ⟨he, hc⟩ => ?_⟩, fun ⟨he, hc⟩ => ?_⟩
    · have hx := (filter_sublist (p := passes last) (l := rest)).eq_of_length (by omega)
      rw [hx] at hiff
      exact ⟨hx, hiff.mp (by omega)⟩
    · rw [he] at hiff
      rw [hiff.mpr hc]
    · rw [he] at heq
      rw [heq hc]

end Credence.ProofKit
