import Mathlib.Data.Nat.Digits.Defs

/-! Dates: the calendar of a day number, and the text of `Date.prototype.toISOString`. -/

namespace Credence.Js

open List

structure CivilDate where
  year : Int
  month : Nat
  day : Nat

/-- The date of a day, counted from 1970-01-01; years start in March in the computation. -/
def civilDate (days : Int) : CivilDate :=
  let shifted := days + 719468
  let era := shifted / 146097
  let dayOfEra := (shifted % 146097).toNat
  let yearOfEra := (dayOfEra - dayOfEra / 1460 + dayOfEra / 36524 - dayOfEra / 146096) / 365
  let dayOfYear := dayOfEra - (365 * yearOfEra + yearOfEra / 4 - yearOfEra / 100)
  let marchMonth := (5 * dayOfYear + 2) / 153
  let month := if marchMonth < 10 then marchMonth + 3 else marchMonth - 9
  { year := yearOfEra + era * 400 + if month ≤ 2 then 1 else 0
    month := month
    day := dayOfYear - (153 * marchMonth + 2) / 5 + 1 }

def paddedDigits (width n : Nat) : List Char := (Nat.toDigits 10 n).leftpad width '0'

/-- `YYYY-MM-DD`, with the given digits for the year. -/
def dateChars (year : List Char) (date : CivilDate) : List Char :=
  year ++ '-' :: paddedDigits 2 date.month ++ '-' :: paddedDigits 2 date.day

/-- `HH:MM:SS` of a second of the day. -/
def timeChars (second : Nat) : List Char :=
  paddedDigits 2 (second / 3600) ++ ':' :: paddedDigits 2 (second / 60 % 60) ++
    ':' :: paddedDigits 2 (second % 60)

def isoYear (year : Int) : List Char :=
  if 0 ≤ year ∧ year ≤ 9999 then paddedDigits 4 year.toNat
  else (if year < 0 then '-' else '+') :: paddedDigits 6 year.natAbs

def toISOString (millis : Int) : String :=
  let date := civilDate (millis / 86400000)
  let ofDay := (millis % 86400000).toNat
  String.ofList (dateChars (isoYear date.year) date ++
    'T' :: timeChars (ofDay / 1000) ++ '.' :: paddedDigits 3 (ofDay % 1000) ++ ['Z'])

example : toISOString 1763200800123 = "2025-11-15T10:00:00.123Z" := by decide +kernel

variable {c : Char}

theorem mem_paddedDigits {width n : Nat} (h : c ∈ paddedDigits width n) : c.isDigit = true := by
  rcases mem_append.mp h with hp | hd
  · rw [eq_of_mem_replicate hp]
    decide
  · exact Nat.isDigit_of_mem_toDigits (by omega) (by omega) hd

theorem mem_dateChars {year : List Char} {date : CivilDate} (h : c ∈ dateChars year date) :
    c ∈ year ∨ c.isDigit = true ∨ c = '-' := by
  simp only [dateChars, mem_append, mem_cons] at h
  rcases h with (hy | rfl | hm) | rfl | hd
  · exact .inl hy
  · exact .inr (.inr rfl)
  · exact .inr (.inl (mem_paddedDigits hm))
  · exact .inr (.inr rfl)
  · exact .inr (.inl (mem_paddedDigits hd))

theorem mem_timeChars {second : Nat} (h : c ∈ timeChars second) : c.isDigit = true ∨ c = ':' := by
  simp only [timeChars, mem_append, mem_cons] at h
  rcases h with (hh | rfl | hm) | rfl | hs
  · exact .inl (mem_paddedDigits hh)
  · exact .inr rfl
  · exact .inl (mem_paddedDigits hm)
  · exact .inr rfl
  · exact .inl (mem_paddedDigits hs)

theorem mem_isoYear {year : Int} (h : c ∈ isoYear year) : c.isDigit = true ∨ c ∈ ['-', '+'] := by
  rw [isoYear] at h
  split at h
  · exact .inl (mem_paddedDigits h)
  · rcases mem_cons.mp h with rfl | hd
    · right
      split <;> simp
    · exact .inl (mem_paddedDigits hd)

theorem mem_toISOString {millis : Int} (h : c ∈ (toISOString millis).toList) :
    c.isDigit = true ∨ c ∈ ['-', '+', 'T', ':', '.', 'Z'] := by
  simp only [toISOString, String.toList_ofList, mem_append, mem_cons] at h
  rcases h with ((hd | rfl | ht) | rfl | hm) | hz
  · rcases mem_dateChars hd with hy | hi | rfl
    · refine (mem_isoYear hy).imp_right fun hc => ?_
      revert hc
      simp only [mem_cons]
      tauto
    · exact .inl hi
    · simp
  · simp
  · exact (mem_timeChars ht).imp_right fun hc => by simp [hc]
  · simp
  · exact .inl (mem_paddedDigits hm)
  · rcases hz with rfl | hn
    · simp
    · cases hn

theorem bar_notMem_toISOString (millis : Int) : '|' ∉ (toISOString millis).toList := by
  intro h
  rcases mem_toISOString h with hd | hm
  · revert hd
    decide
  · revert hm
    decide

theorem T_mem_toISOString (millis : Int) : 'T' ∈ (toISOString millis).toList := by
  simp [toISOString]

end Credence.Js
