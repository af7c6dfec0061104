import Credence.Js.Date
import Mathlib.Data.List.DropRight

/-! The text of a `timestamptz` value in the session's time zone, and how it differs from the text
of a JavaScript date. -/

namespace Credence.Pg

open Js List

def yearChars (year : Int) : List Char :=
  paddedDigits 4 (if 0 < year then year.toNat else (1 - year).toNat)

/-- The microseconds after the point, without zeros at the end. -/
def fractionChars (micros : Nat) : List Char :=
  if micros = 0 then [] else '.' :: (paddedDigits 6 micros).rdropWhile (· = '0')

/-- The offset of the time zone, `+HH[:MM[:SS]]`. -/
def zoneChars (zone : Int) : List Char :=
  let seconds := zone.natAbs
  let sign := if zone < 0 then '-' else '+'
  sign :: paddedDigits 2 (seconds / 3600) ++
    (if seconds % 3600 = 0 then [] else ':' :: paddedDigits 2 (seconds / 60 % 60)) ++
    (if seconds % 60 = 0 then [] else ':' :: paddedDigits 2 (seconds % 60))

/-- `value::text`: microseconds since 1970 in a zone so many seconds east of Greenwich. -/
def timestampText (zone micros : Int) : String :=
  let wall := micros + zone * 1000000
  let date := civilDate (wall / 86400000000)
  let ofDay := (wall % 86400000000).toNat
  String.ofList (dateChars (yearChars date.year) date ++
    ' ' :: timeChars (ofDay / 1000000) ++ fractionChars (ofDay % 1000000) ++ zoneChars zone ++
    (if date.year ≤ 0 then [' ', 'B', 'C'] else []))

example : timestampText 19800 1763200800123450 = "2025-11-15 15:30:00.12345+05:30" := by
  decide +kernel

variable {c : Char}

theorem mem_yearChars {year : Int} (h : c ∈ yearChars year) : c.isDigit = true := mem_paddedDigits h

theorem mem_fractionChars {micros : Nat} (h : c ∈ fractionChars micros) :
    c.isDigit = true ∨ c = '.' := by
  rw [fractionChars] at h
  split at h
  · cases h
  · rcases mem_cons.mp h with rfl | hd
    · exact .inr rfl
    · exact .inl (mem_paddedDigits (( rdropWhile_prefix _ _).subset hd))

theorem mem_zoneChars {zone : Int} (h : c ∈ zoneChars zone) :
    c.isDigit = true ∨ c ∈ ['-', '+', ':'] := by
  have hp : ∀ {condition : Prop} [Decidable condition] {n : Nat},
      c ∈ (if condition then [] else ':' :: paddedDigits 2 n) → c.isDigit = true ∨ c = ':' := by
    intro condition _ n hm
    split at hm
    · cases hm
    · exact (mem_cons.mp hm).symm.imp_left mem_paddedDigits
  simp only [zoneChars, mem_append, mem_cons] at h
  rcases h with ((rfl | hd) | hi) | hs
  · right
    split <;> simp
  · exact .inl (mem_paddedDigits hd)
  · exact (hp hi).imp_right fun hc => by simp [hc]
  · exact (hp hs).imp_right fun hc => by simp [hc]

theorem mem_timestampText {zone micros : Int} (h : c ∈ (timestampText zone micros).toList) :
    c.isDigit = true ∨ c ∈ [' ', '-', ':', '.', '+', 'B', 'C'] := by
  simp only [timestampText, String.toList_ofList, mem_append, mem_cons] at h
  rcases h with (((hd | rfl | ht) | hf) | hz) | he
  · rcases mem_dateChars hd with hy | hi | rfl
    · exact .inl (mem_yearChars hy)
    · exact .inl hi
    · simp
  · simp
  · exact (mem_timeChars ht).imp_right fun hc => by simp [hc]
  · exact (mem_fractionChars hf).imp_right fun hc => by simp [hc]
  · refine (mem_zoneChars hz).imp_right fun hc => ?_
    revert hc
    simp only [mem_cons]
    tauto
  · split at he
    · right
      revert he
      simp only [mem_cons]
      tauto
    · cases he

theorem bar_notMem_timestampText (zone micros : Int) :
    '|' ∉ (timestampText zone micros).toList := by
  intro h
  rcases mem_timestampText h with hd | hm
  · revert hd
    decide
  · revert hm
    decide

theorem timestampText_ne_toISOString (zone micros millis : Int) :
    timestampText zone micros ≠ toISOString millis := by
  intro h
  have hl := T_mem_toISOString millis
  rw [← h] at hl
  rcases mem_timestampText hl with hd | hm
  · revert hd
    decide
  · revert hm
    decide

end Credence.Pg
