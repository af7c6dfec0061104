import Mathlib.Data.List.Basic

/-! A SQL table whose primary key is drawn from a sequence (`BIGSERIAL`): each key has at most one
row, and none where the sequence has not been. -/

namespace Credence.ProofKit

structure Table (Row : Type) where
  get : Nat → Option Row
  nextId : Nat
  fresh : ∀ id, nextId ≤ id → get id = none

namespace Table

variable {Row : Type}

def empty : Table Row where
  get _ := none
  nextId := 1
  fresh _ _ := rfl

/-- The rows at the keys below the next one for which `p` holds. -/
def rowCount (t : Table Row) (p : Nat → Row → Bool) : Nat :=
  (List.range t.nextId).countP fun id => (t.get id).any (p id)

def insert (t : Table Row) (row : Row) : Table Row where
  get id := if id = t.nextId then some row else t.get id
  nextId := t.nextId + 1
  fresh id h := by
    have hne : id ≠ t.nextId := by omega
    simpa [hne] using t.fresh id (by omega)

def updateWhere (t : Table Row) (p : Nat → Row → Bool) (f : Row → Row) : Table Row where
  get id := (t.get id).map fun row => if p id row then f row else row
  nextId := t.nextId
  fresh id h := by simp [t.fresh id h]

def deleteWhere (t : Table Row) (p : Nat → Row → Bool) : Table Row where
  get id := (t.get id).filter fun row => !p id row
  nextId := t.nextId
  fresh id h := by simp [t.fresh id h]

/-- A result of `SELECT id ... WHERE p ORDER BY key ASC LIMIT limit`, in some order: rows of equal
keys may be taken in any order. -/
def Selects (t : Table Row) (p : Nat → Row → Bool) (key : Row → Nat) (limit : Nat)
    (picked : List Nat) : Prop :=
  picked.Nodup ∧ (∀ id ∈ picked, (t.get id).any (p id)) ∧ picked.length = min limit (t.rowCount p) ∧
    ∀ id ∈ List.range t.nextId, (t.get id).any (p id) → id ∉ picked →
      ∀ other ∈ picked, (t.get other).elim 0 key ≤ (t.get id).elim 0 key

instance (t : Table Row) (p : Nat → Row → Bool) (key : Row → Nat) (limit : Nat)
    (picked : List Nat) : Decidable (t.Selects p key limit picked) :=
  inferInstanceAs (Decidable (_ ∧ _ ∧ _ ∧ _))

def only (key : Nat) (p : Row → Bool) (id : Nat) (row : Row) : Bool := id == key && p row

variable {id : Nat} {row row' : Row} {p : Nat → Row → Bool}

theorem lt_nextId {t : Table Row} (h : t.get id = some row) : id < t.nextId := by
  by_contra hl
  rw [t.fresh id (by omega)] at h
  cases h

@[simp] theorem nextId_insert (t : Table Row) (row : Row) : (t.insert row).nextId = t.nextId + 1 :=
  rfl

theorem get_insert {t : Table Row} : (t.insert row).get id = some row' ↔
      (id = t.nextId ∧ row' = row) ∨ t.get id = some row' := by
  by_cases hid : id = t.nextId
  · subst hid
    have hf := t.fresh t.nextId (Nat.le_refl _)
    simp [insert, hf, eq_comm]
  · simp [insert, hid]

theorem get_updateWhere {t : Table Row} {f : Row → Row} : (t.updateWhere p f).get id = some row' ↔
      ∃ row, t.get id = some row ∧ row' = if p id row then f row else row := by
  simp only [updateWhere, Option.map_eq_some_iff]
  exact exists_congr fun row => and_congr_right fun _ => eq_comm

theorem get_updateWhere_of {t : Table Row} (h : t.get id = some row) (p : Nat → Row → Bool)
    (f : Row → Row) : (t.updateWhere p f).get id = some (if p id row then f row else row) := by
  simp [updateWhere, h]

theorem get_deleteWhere {t : Table Row} :
    (t.deleteWhere p).get id = some row ↔ t.get id = some row ∧ p id row = false := by
  simp [deleteWhere, Option.filter_eq_some_iff]

/-- Between the two tables each row stays, changes by `Change` or goes by `Gone`, and each row at a
new key is a `Born` one. -/
structure Evolves (Change : Nat → Row → Row → Prop) (Gone : Nat → Row → Prop) (Born : Row → Prop)
    (t t' : Table Row) : Prop where
  grows : t.nextId ≤ t'.nextId
  forward : ∀ {id row}, t.get id = some row →
    (∃ row', t'.get id = some row' ∧ (row' = row ∨ Change id row row')) ∨
      (t'.get id = none ∧ Gone id row)
  born : ∀ {id row'}, t'.get id = some row' → t.get id = none → t.nextId ≤ id ∧ Born row'

variable {Change Change' : Nat → Row → Row → Prop} {Gone Gone' : Nat → Row → Prop}
  {Born Born' : Row → Prop} {t t' : Table Row}

theorem Evolves.backward (h : Evolves Change Gone Born t t') (hg : t'.get id = some row') :
    (∃ row, t.get id = some row ∧ (row' = row ∨ Change id row row')) ∨
      (t.get id = none ∧ t.nextId ≤ id ∧ Born row') := by
  cases hb : t.get id with
  | none => exact .inr ⟨rfl, h.born hg hb⟩
  | some row =>
    rcases h.forward hb with ⟨row'', ha, hc⟩ | ⟨ha, -⟩
    · obtain rfl : row'' = row' := Option.some.inj (ha.symm.trans hg)
      exact .inl ⟨row, rfl, hc⟩
    · rw [hg] at ha
      cases ha

/-- What holds of every row that is born, and of a row after each change, holds of every row. -/
theorem Evolves.all_rows (h : Evolves Change Gone Born t t') {P : Nat → Row → Prop}
    (before : ∀ id row, t.get id = some row → P id row)
    (change : ∀ id row row', t.get id = some row → Change id row row' → P id row')
    (birth : ∀ id row', t.nextId ≤ id → Born row' → P id row') :
    ∀ id row', t'.get id = some row' → P id row' := by
  intro id row' hg
  rcases h.backward hg with ⟨row, hb, rfl | hc⟩ | ⟨-, hid, ha⟩
  · exact before id _ hb
  · exact change id row row' hb hc
  · exact birth id row' hid ha

theorem Evolves.mono (h : Evolves Change Gone Born t t')
    (hc : ∀ id row row', Change id row row' → Change' id row row')
    (hd : ∀ id row, Gone id row → Gone' id row) (hb : ∀ row, Born row → Born' row) :
    Evolves Change' Gone' Born' t t' where
  grows := h.grows
  forward hg := by
    rcases h.forward hg with ⟨row', ha, hr⟩ | ⟨ha, hr⟩
    · exact .inl ⟨row', ha, hr.imp id (hc _ _ _)⟩
    · exact .inr ⟨ha, hd _ _ hr⟩
  born hg hn := (h.born hg hn).imp id (hb _)

theorem evolves_refl : Evolves Change Gone Born t t where
  grows := Nat.le_refl _
  forward hg := .inl ⟨_, hg, .inl rfl⟩
  born hg hn := by
    rw [hg] at hn
    cases hn

/-- Two evolutions in turn, when changes compose and a change never makes a row `Gone` that was
not. -/
theorem Evolves.trans {t'' : Table Row} (hf : Evolves Change Gone (fun _ => True) t t')
    (hs : Evolves Change Gone (fun _ => True) t' t'')
    (hc : ∀ id row row' row'', Change id row row' → Change id row' row'' → Change id row row'')
    (ha : ∀ id row row', Change id row row' → Gone id row' → Gone id row) :
    Evolves Change Gone (fun _ => True) t t'' where
  grows := Nat.le_trans hf.grows hs.grows
  forward {id row} hg := by
    rcases hf.forward hg with ⟨row', hm, hr⟩ | ⟨hm, hr⟩
    · rcases hs.forward hm with ⟨row'', hl, hr'⟩ | ⟨hl, hr'⟩
      · refine .inl ⟨row'', hl, ?_⟩
        rcases hr with rfl | hr
        · exact hr'
        · rcases hr' with rfl | hr'
          · exact .inr hr
          · exact .inr (hc id row row' row'' hr hr')
      · refine .inr ⟨hl, ?_⟩
        rcases hr with rfl | hr
        · exact hr'
        · exact ha id row row' hr hr'
    · refine .inr ⟨?_, hr⟩
      by_contra hb
      obtain ⟨row'', hl⟩ := Option.ne_none_iff_exists'.mp hb
      have hn := (hs.born hl hm).1
      have ho := lt_nextId hg
      have hd := hf.grows
      omega
  born {id row''} hg he := by
    refine ⟨?_, trivial⟩
    rcases hs.backward hg with ⟨row', hm, -⟩ | ⟨-, hn, -⟩
    · exact (hf.born hm he).1
    · exact Nat.le_trans hf.grows hn

theorem evolves_insert (row : Row) (hb : Born row) : Evolves Change Gone Born t (t.insert row) where
  grows := Nat.le_succ _
  forward hg := .inl ⟨_, get_insert.mpr (.inr hg), .inl rfl⟩
  born hg hn := by
    rcases get_insert.mp hg with ⟨rfl, rfl⟩ | he
    · exact ⟨Nat.le_refl _, hb⟩
    · rw [he] at hn
      cases hn

theorem evolves_updateWhere (p : Nat → Row → Bool) (f : Row → Row)
    (hc : ∀ id row, t.get id = some row → p id row = true → Change id row (f row)) :
    Evolves Change Gone Born t (t.updateWhere p f) where
  grows := Nat.le_refl _
  forward {id row} hg := by
    refine .inl ⟨_, get_updateWhere_of hg p f, ?_⟩
    by_cases hp : p id row = true
    · exact .inr (by simpa [hp] using hc id row hg hp)
    · exact .inl (by simp [hp])
  born hg hn := by
    obtain ⟨row, hb, -⟩ := get_updateWhere.mp hg
    rw [hb] at hn
    cases hn

theorem evolves_deleteWhere (p : Nat → Row → Bool)
    (ha : ∀ id row, t.get id = some row → p id row = true → Gone id row) :
    Evolves Change Gone Born t (t.deleteWhere p) where
  grows := Nat.le_refl _
  forward {id row} hg := by
    by_cases hp : p id row = true
    · exact .inr ⟨by simp [deleteWhere, hg, hp, Option.filter], ha id row hg hp⟩
    · exact .inl ⟨row, get_deleteWhere.mpr ⟨hg, by simpa using hp⟩, .inl rfl⟩
  born hg hn := by
    rw [(get_deleteWhere.mp hg).1] at hn
    cases hn

end Table

end Credence.ProofKit
