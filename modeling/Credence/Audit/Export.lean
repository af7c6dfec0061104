import Credence.Audit.Chain
import Credence.Audit.Postgres
import Credence.Js.Text
import Credence.ProofKit.Pages

/-! `exportLogsStream` over the table. A cursor has milliseconds and the rows microseconds, so rows
between the two are on no page. -/

namespace Credence.Audit.Postgres

open Js Crypto ProofKit List

/-- The first character and the domain remain. A first character outside the basic plane leaves
half of itself, which is read as U+FFFD. -/
def maskEmail (email : String) : String :=
  match email.toList.splitOn '@' with
  | first :: domain :: _ =>
    let kept := first.head?.map fun c => if c.toNat < 65536 then c else '�'
    let maskedLocal := if 1 < utf16Length first then kept.toList ++ ['*', '*', '*']
      else ['*', '*', '*']
    String.ofList (maskedLocal ++ '@' :: domain)
  | _ => "***@***"

def maskIpAddress (address : String) : String :=
  match address.toList.splitOn '.' with
  | [a, b, c, _] => String.ofList (['.'].intercalate [a, b, c, ['*', '*', '*']])
  | _ => address

def redactLogEntry (entry : AuditLogEntry) : AuditLogEntry :=
  let masked (mask : String → String) (text : String) := if text = "" then text else mask text
  { entry with
    adminEmail := masked maskEmail entry.adminEmail
    targetUserEmail := entry.targetUserEmail.map (masked maskEmail)
    ipAddress := entry.ipAddress.map (masked maskIpAddress) }

structure Stream where
  yielded : List AuditLogEntry
  error : Option String

def scopingRequired : String :=
  "Tenant scoping required: either provide tenantId or explicitly enable " ++
    "allowSuperScope for privileged access"

section

variable (r : Reading) (rows : List AuditLogRow)

def getLogs (tenantId : Option String) (filters : AuditLogFilters) (limit : Number)
    (cursor : Option String) (allowSuperScope : Bool) : Except String Page :=
  if given tenantId = none ∧ allowSuperScope = false then .error scopingRequired
  else
    let effectiveTenantId :=
      if allowSuperScope then given filters.tenantId <|> tenantId else tenantId
    query r rows (some { filters with tenantId := effectiveTenantId }) limit cursor

/-- The pages from a cursor on, as far as the fuel goes. -/
def paginateLogs (tenantId : Option String) (filters : AuditLogFilters) (allowSuperScope : Bool)
    (pageSize : Number) : Nat → Option String → Option Stream
  | 0, _ => none
  | fuel + 1, cursor =>
    match getLogs r rows tenantId filters pageSize cursor allowSuperScope with
    | .error message => some ⟨[], some message⟩
    | .ok page =>
      match page.hasNextPage, given page.nextCursor with
      | true, some next =>
        (paginateLogs tenantId filters allowSuperScope pageSize fuel (some next)).map fun rest =>
          { rest with yielded := page.logs ++ rest.yielded }
      | _, _ => some ⟨page.logs, none⟩

def exportFilters (startDate endDate : Int) : AuditLogFilters :=
  { action := none
    actorId := none
    adminId := none
    resourceId := none
    targetUserId := none
    resourceType := none
    status := none
    fromTime := some (toISOString startDate)
    toTime := some (toISOString endDate)
    tenantId := none }

def exportLogsStream (startDate endDate : Int) (tenantId : Option String)
    (allowSuperScope : Bool) (fuel : Nat) : Option Stream :=
  if given tenantId = none ∧ allowSuperScope = false then some ⟨[], some scopingRequired⟩
  else
    (paginateLogs r rows tenantId (exportFilters startDate endDate) allowSuperScope 500 fuel
      none).map fun logs => { logs with yielded := logs.yielded.map redactLogEntry }

end

structure Export where
  reading : Reading
  rows : List AuditLogRow
  startDate : Int
  endDate : Int
  tenantId : String

namespace Export

section

variable (e : Export)

def includes (row : AuditLogRow) : Bool :=
  row.tenantId = e.tenantId ∧ e.startDate * 1000 ≤ row.occurredAt ∧
    row.occurredAt ≤ e.endDate * 1000

/-- The stream ends without an error, and has yielded each row of the tenant in the range once, the
latest first. -/
def Complete (allowSuperScope : Bool) : Prop :=
  ∃ fuel, ∃ listed : List AuditLogRow,
    exportLogsStream e.reading e.rows e.startDate e.endDate (some e.tenantId) allowSuperScope fuel =
      some ⟨listed.map fun row => redactLogEntry (mapAuditLog row), none⟩ ∧
    listed.Perm (e.rows.filter e.includes) ∧ listed.Pairwise (listedBefore e.reading)

/-- The tenant and the ids are proper, and the server reads times as they are written and orders
texts. -/
structure Lawful : Prop where
  tenant : e.tenantId ≠ ""
  ids : (e.rows.map AuditLogRow.id).Nodup
  total : ∀ a b, e.reading.textLe a b = true ∨ e.reading.textLe b a = true
  trans : ∀ a b c, e.reading.textLe a b = true → e.reading.textLe b c = true →
    e.reading.textLe a c = true
  antisymm : ∀ a b, e.reading.textLe a b = true → e.reading.textLe b a = true → a = b
  rowTime : ∀ row ∈ e.rows, e.reading.instant row.timestamp = row.occurredAt / 1000 * 1000
  startTime : e.reading.instant (toISOString e.startDate) = e.startDate * 1000
  endTime : e.reading.instant (toISOString e.endDate) = e.endDate * 1000

def listing : List AuditLogRow := (e.rows.filter e.includes).insertionSort (listedBefore e.reading)

/-- The row comes after another one whose time has lost its microseconds. -/
def passes (last row : AuditLogRow) : Bool :=
  row.occurredAt < last.occurredAt / 1000 * 1000 ||
    (row.occurredAt == last.occurredAt / 1000 * 1000 && e.reading.textLe row.id last.id &&
      row.id ≠ last.id)

def filters : AuditLogFilters :=
  { exportFilters e.startDate e.endDate with tenantId := some e.tenantId }

def selection (cursor : Option (String × String)) : List AuditLogRow :=
  (e.rows.filter fun row => e.filters.admits e.reading row &&
    cursor.all fun decoded => beforeCursor e.reading decoded row).insertionSort
      (listedBefore e.reading)

def logs (allowSuperScope : Bool) (fuel : Nat) (cursor : Option String) : Option Stream :=
  paginateLogs e.reading e.rows (some e.tenantId) (exportFilters e.startDate e.endDate)
    allowSuperScope 500 fuel cursor

end

theorem insertionSort_filter {α : Type} {le : α → α → Prop} [DecidableRel le] [Std.Total le]
    [IsTrans α le] {items : List α} (ha : ∀ a ∈ items, ∀ b ∈ items, le a b → le b a → a = b)
    (p : α → Bool) : (items.filter p).insertionSort le = (items.insertionSort le).filter p := by
  refine List.Perm.eq_of_pairwise ?_ (pairwise_insertionSort le _)
    ((pairwise_insertionSort le items).filter p) ?_
  · intro a b hA hB
    rw [mem_insertionSort] at hA
    exact ha a (mem_of_mem_filter hA) b
      ((mem_insertionSort _).mp (mem_of_mem_filter hB))
  · calc ((items.filter p).insertionSort le).Perm (items.filter p) := perm_insertionSort _ _
      List.Perm _ ((items.insertionSort le).filter p) :=
        ((perm_insertionSort le items).filter p).symm

theorem given_of_ne {text : String} (h : text ≠ "") : given (some text) = some text := by
  simp [given, h]

theorem toISOString_ne_empty (millis : Int) : toISOString millis ≠ "" := by
  intro he
  have hm := T_mem_toISOString millis
  rw [he] at hm
  cases hm

/-- The cursors of the rows, and none. -/
def cursorOf (e : Export) (last : Option AuditLogRow) : Option String :=
  last.map fun row => e.reading.cursorKey.encodeCursor row.timestamp row.id

def selectionAfter (e : Export) (last : Option AuditLogRow) : List AuditLogRow :=
  e.selection (last.map fun row => (row.timestamp, row.id))

variable {e : Export} {last next row : AuditLogRow} {items : List AuditLogRow}
  {before : Option AuditLogRow} {allowSuperScope : Bool} {fuel : Nat}

section

variable (h : e.Lawful)
include h

theorem Lawful.total_listedBefore : Std.Total (listedBefore e.reading) := by
  refine ⟨fun a b => ?_⟩
  have := h.total a.id b.id
  unfold listedBefore
  grind

theorem Lawful.trans_listedBefore : IsTrans AuditLogRow (listedBefore e.reading) := by
  refine ⟨fun a b c ha hb => ?_⟩
  have := h.trans c.id b.id a.id
  unfold listedBefore at *
  grind

theorem Lawful.selection_sorted (cursor : Option (String × String)) :
    (e.selection cursor).Pairwise (listedBefore e.reading) := by
  have := h.total_listedBefore
  have := h.trans_listedBefore
  exact pairwise_insertionSort _ _

theorem Lawful.not_passes (hr : listedBefore e.reading row last) : e.passes last row = false := by
  rw [← Bool.not_eq_true]
  have := h.antisymm row.id last.id
  simp only [passes, Bool.or_eq_true, decide_eq_true_eq, Bool.and_eq_true, beq_iff_eq]
  unfold listedBefore at hr
  grind

theorem Lawful.passes_of_listedBefore (hn : e.passes last next = true)
    (hr : listedBefore e.reading next row) : e.passes last row = true := by
  simp only [passes, Bool.or_eq_true, decide_eq_true_eq, Bool.and_eq_true, beq_iff_eq] at hn ⊢
  rcases hr with hLt | ⟨hs, hl⟩
  · exact .inl (by omega)
  · rw [← hs]
    rcases hn with hLt | ⟨⟨he, ha⟩, hNe⟩
    · exact .inl hLt
    · refine .inr ⟨⟨he, h.trans _ _ _ hl ha⟩, fun hi => hNe ?_⟩
      rw [hi] at hl
      exact h.antisymm _ _ ha hl

theorem Lawful.admits_filters : e.filters.admits e.reading = e.includes := by
  funext row
  rw [Bool.eq_iff_iff]
  simp [AuditLogFilters.admits, filters, exportFilters, given, h.tenant, toISOString_ne_empty,
    h.startTime, h.endTime, includes]
  tauto

theorem Lawful.beforeCursor_eq (hl : last ∈ e.rows) :
    beforeCursor e.reading (last.timestamp, last.id) = e.passes last := by
  funext row
  rw [beforeCursor, h.rowTime last hl, passes]

theorem Lawful.beforeCursor_of_passes {cursor : String × String}
    (hc : beforeCursor e.reading cursor last = true) (hp : e.passes last row = true) :
    beforeCursor e.reading cursor row = true := by
  have := h.trans row.id last.id cursor.2
  have := h.antisymm row.id last.id
  simp only [beforeCursor, passes, Bool.or_eq_true, decide_eq_true_eq, Bool.and_eq_true,
    beq_iff_eq] at *
  grind

/-- The next page is taken from the rows that pass the last one of this page. -/
theorem Lawful.selection_next (hl : last ∈ e.selectionAfter before) :
    e.selectionAfter (some last) = (e.selectionAfter before).filter (e.passes last) := by
  have hm := mem_filter.mp ((mem_insertionSort _).mp hl)
  have := h.total_listedBefore
  have := h.trans_listedBefore
  rw [selectionAfter, selectionAfter, selection, selection, ← insertionSort_filter, filter_filter]
  · congr 1
    refine filter_congr fun row _ => ?_
    rw [Option.map_some, Option.all_some, h.beforeCursor_eq hm.1, Bool.and_comm]
    cases hp : e.passes last row with
    | false => simp
    | true =>
      have ha : (before.map fun row => (row.timestamp, row.id)).all
          (fun decoded => beforeCursor e.reading decoded row) = true := by
        refine Option.all_eq_true _ _ |>.mpr fun cursor hc => ?_
        have hb := (Option.all_eq_true _ _).mp (Bool.and_eq_true_iff.mp hm.2).2 cursor hc
        exact h.beforeCursor_of_passes hb hp
      rw [ha, Bool.and_true]
  · intro a hA b hB ha hb
    apply inj_on_of_nodup_map h.ids (mem_of_mem_filter hA) (mem_of_mem_filter hB)
    have := h.antisymm a.id b.id
    unfold listedBefore at ha hb
    grind

theorem Lawful.getLogs_eq (hi : e.selectionAfter before = items) :
    getLogs e.reading e.rows (some e.tenantId) (exportFilters e.startDate e.endDate) 500
      (e.cursorOf before) allowSuperScope =
        .ok ⟨(items.take 500).map mapAuditLog, decide (500 < items.length),
          if 500 < items.length then e.cursorOf items[499]? else none⟩ := by
  have hq : getLogs e.reading e.rows (some e.tenantId) (exportFilters e.startDate e.endDate)
      500 (e.cursorOf before) allowSuperScope =
        query e.reading e.rows (some e.filters) 500 (e.cursorOf before) := by
    rw [getLogs, given_of_ne h.tenant, if_neg (by simp)]
    cases allowSuperScope <;> rfl
  have hd : (given (e.cursorOf before)).elim (.ok none) e.reading.cursorKey.decodeCursor =
      .ok (before.map fun row => (row.timestamp, row.id)) := by
    cases before with
    | none => rfl
    | some row =>
      rw [cursorOf, Option.map_some, given_of_ne Lib.CursorKey.encodeCursor_ne_empty,
        Option.elim_some, Lib.CursorKey.decodeCursor_encodeCursor, Option.map_some]
  have hf : (500 : Number).floor = 500 := by decide +kernel
  have hm : 500 < (items.take 501).length ↔ 500 < items.length := by
    rw [length_take]
    omega
  have hg : given e.filters.tenantId = some e.tenantId := given_of_ne h.tenant
  have ha : (items.take 501).take 500 = items.take 500 := by
    rw [take_take]
    rfl
  rw [selectionAfter, selection] at hi
  simp only [hq, query, hg, hd, hf, hi, Int.reduceToNat, Nat.reduceAdd, ha, hm]
  rw [if_neg (by simp), if_neg (by decide +kernel)]
  by_cases hl : 500 < items.length
  · obtain ⟨last, hb⟩ : ∃ last, items[499]? = some last :=
      ⟨_, getElem?_eq_getElem (by omega)⟩
    simp [hl, hb, getLast?_take, mapAuditLog, cursorOf]
  · simp [hl]

/-- The last page, or a full page and those after it. -/
theorem Lawful.logs_cases (before : Option AuditLogRow) (allowSuperScope : Bool) (fuel : Nat) :
    ((e.selectionAfter before).length ≤ 500 ∧
      e.logs allowSuperScope (fuel + 1) (e.cursorOf before) =
        some ⟨(e.selectionAfter before).map mapAuditLog, none⟩) ∨
    ∃ page last rest, e.selectionAfter before = page ++ last :: rest ∧ page.length + 1 = 500 ∧
      e.logs allowSuperScope (fuel + 1) (e.cursorOf before) =
        (e.logs allowSuperScope fuel (e.cursorOf (some last))).map fun more =>
          { more with yielded := (page ++ [last]).map mapAuditLog ++ more.yielded } := by
  rcases Nat.lt_or_ge 500 (e.selectionAfter before).length with hl | hl
  · obtain ⟨page, last, rest, hi, hp⟩ :=
      exists_page (show 499 < (e.selectionAfter before).length by omega)
    refine .inr ⟨page, last, rest, hi, by omega, ?_⟩
    have ht : (page ++ last :: rest).take 500 = page ++ [last] := by
      rw [append_cons, take_left' (by simp [hp])]
    have hg : (page ++ last :: rest)[499]? = some last := by simp [← hp]
    rw [logs, paginateLogs, h.getLogs_eq hi, ht, hg]
    rw [hi] at hl
    simp only [hl, decide_true, if_true, cursorOf, Option.map_some,
      given_of_ne Lib.CursorKey.encodeCursor_ne_empty]
    rfl
  · refine .inl ⟨hl, ?_⟩
    rw [logs, paginateLogs, h.getLogs_eq rfl]
    simp only [Nat.not_lt.mpr hl, decide_false, take_of_length_le hl]

theorem Lawful.logs_paged {stream : Stream}
    (hs : e.logs allowSuperScope fuel (e.cursorOf before) = some stream) :
    ∃ listed, Paged e.passes 500 (e.selectionAfter before) listed ∧
      stream = ⟨listed.map mapAuditLog, none⟩ := by
  induction fuel generalizing before stream with
  | zero => cases hs
  | succ fuel ih =>
    rcases h.logs_cases before allowSuperScope fuel with
      ⟨hl, he⟩ | ⟨page, last, rest, hi, hp, he⟩
    · exact ⟨_, .last hl, Option.some.inj (hs.symm.trans he)⟩
    · obtain ⟨more, hm, rfl⟩ := Option.map_eq_some_iff.mp (he ▸ hs)
      obtain ⟨listed, hq, rfl⟩ := ih hm
      rw [h.selection_next (hi ▸ mem_append_right _ mem_cons_self), hi] at hq
      rw [hi]
      exact ⟨page ++ last :: listed, .next hp hq, by simp⟩

/-- Each page leaves fewer rows for the pages after it. -/
theorem Lawful.logs_isSome (hf : (e.selectionAfter before).length < fuel) :
    (e.logs allowSuperScope fuel (e.cursorOf before)).isSome = true := by
  induction fuel generalizing before with
  | zero => cases hf
  | succ fuel ih =>
    rcases h.logs_cases before allowSuperScope fuel with
      ⟨-, he⟩ | ⟨page, last, rest, hi, -, he⟩
    · rw [he]
      rfl
    · have hm : last ∈ e.selectionAfter before := hi ▸ mem_append_right _ mem_cons_self
      have := h.total_listedBefore
      rw [he, Option.isSome_map]
      refine ih (Nat.lt_of_lt_of_le ?_ (Nat.le_of_lt_succ hf))
      rw [h.selection_next hm, length_filter_lt_length_iff_exists]
      exact ⟨last, hm, by simp [h.not_passes (Std.Refl.refl last)]⟩

theorem Lawful.selectionAfter_none : e.selectionAfter none = e.listing := by
  simp [selectionAfter, selection, listing, h.admits_filters]

theorem Lawful.exportLogsStream_eq (allowSuperScope : Bool) (fuel : Nat) :
    exportLogsStream e.reading e.rows e.startDate e.endDate (some e.tenantId) allowSuperScope fuel =
      (e.logs allowSuperScope fuel (e.cursorOf none)).map fun logs =>
        { logs with yielded := logs.yielded.map redactLogEntry } := by
  rw [exportLogsStream, given_of_ne h.tenant, if_neg (by simp)]
  rfl

/-- The stream ends without an error, and yields the pages of the listing. -/
theorem Lawful.exportLogsStream_paged (allowSuperScope : Bool) : ∃ listed,
    Paged e.passes 500 e.listing listed ∧
      exportLogsStream e.reading e.rows e.startDate e.endDate (some e.tenantId) allowSuperScope
        (e.listing.length + 1) =
          some ⟨listed.map fun row => redactLogEntry (mapAuditLog row), none⟩ := by
  have hn := h.selectionAfter_none
  obtain ⟨stream, hs⟩ := Option.isSome_iff_exists.mp
    (@Lawful.logs_isSome e none allowSuperScope (e.listing.length + 1) h (by rw [hn]; omega))
  obtain ⟨listed, hp, rfl⟩ := h.logs_paged hs
  rw [hn] at hp
  refine ⟨listed, hp, ?_⟩
  rw [h.exportLogsStream_eq, hs]
  simp

theorem Lawful.paged_spec {listed : List AuditLogRow} (hp : Paged e.passes 500 e.listing listed) :
    listed.length ≤ e.listing.length ∧
      (listed.length = e.listing.length ↔ CleanBreaks e.passes 500 e.listing) ∧
      (CleanBreaks e.passes 500 e.listing → listed = e.listing) := by
  have := h.total_listedBefore
  exact hp.spec (listedBefore e.reading) (fun a => Std.Refl.refl a) (fun _ _ => h.not_passes)
    (fun _ _ _ ha hl => h.passes_of_listedBefore hl ha)
    (h.selectionAfter_none ▸ h.selection_sorted _)

end

/-- An export is complete precisely when the first row of each page but the first one passes the
last row of the page before. -/
theorem export_complete (h : e.Lawful) (allowSuperScope : Bool) :
    e.Complete allowSuperScope ↔ CleanBreaks e.passes 500 e.listing := by
  constructor
  · rintro ⟨fuel, listed, hs, hp, -⟩
    rw [h.exportLogsStream_eq] at hs
    obtain ⟨stream, hl, he⟩ := Option.map_eq_some_iff.mp hs
    obtain ⟨paged, hq, rfl⟩ := h.logs_paged hl
    rw [h.selectionAfter_none] at hq
    refine (h.paged_spec hq).2.1.mp ?_
    have hlen := congrArg (fun stream => stream.yielded.length) he
    simp only [length_map] at hlen
    rw [hlen, hp.length_eq, listing, length_insertionSort]
  · intro hc
    obtain ⟨listed, hq, hs⟩ := h.exportLogsStream_paged allowSuperScope
    rw [(h.paged_spec hq).2.2 hc] at hs
    exact ⟨_, e.listing, hs, perm_insertionSort _ _, h.selectionAfter_none ▸ h.selection_sorted _⟩

/-- A server that reads the first two milliseconds of 1970. -/
def earlyReading : Reading :=
  { plainReading with instant text := if text = toISOString 1 then 1000 else 0 }

def earlyRow (i : Nat) : AuditLogRow :=
  { insertedRow sha256Hash plainServer newYear none 1 (String.ofList (replicate (i + 1) 'a'))
    (roleChange none) with occurredAt := 999 - i }

def earlyExport (count : Nat) : Export :=
  ⟨earlyReading, (range count).map earlyRow, 0, 1, (roleChange none).tenantId⟩

theorem earlyExport_occurredAt {count : Nat} (hc : count ≤ 999) :
    ∀ row ∈ (earlyExport count).rows, 0 < row.occurredAt ∧ row.occurredAt / 1000 = 0 := by
  intro row hr
  obtain ⟨i, hI, rfl⟩ := mem_map.mp hr
  rw [mem_range] at hI
  simp only [earlyRow]
  omega

theorem earlyExport_lawful {count : Nat} (hc : count ≤ 999) : (earlyExport count).Lawful := by
  have ht : toISOString 0 ≠ toISOString 1 := by decide +kernel
  constructor
  case tenant =>
    show (roleChange none).tenantId ≠ ""
    decide
  case ids =>
    rw [earlyExport, map_map]
    refine List.Nodup.map (fun i j hs => ?_) nodup_range
    have hl := congrArg (fun id => id.toList.length) hs
    simpa [earlyRow, insertedRow] using hl
  case total =>
    exact fun a b => by simpa [earlyExport, earlyReading, plainReading] using String.le_total a b
  case trans =>
    intro a b c ha hb
    simp only [earlyExport, earlyReading, plainReading, decide_eq_true_eq] at *
    exact String.le_trans ha hb
  case antisymm =>
    intro a b ha hBA
    simp only [earlyExport, earlyReading, plainReading, decide_eq_true_eq] at *
    exact String.le_antisymm ha hBA
  case rowTime =>
    intro row hm
    rw [AuditLogRow.timestamp, (earlyExport_occurredAt hc row hm).2]
    simp [earlyExport, earlyReading, ht]
  case startTime => simp [earlyExport, earlyReading, ht]
  case endTime => simp [earlyExport, earlyReading]

theorem export_complete_twoRows :
    (earlyExport 2).rows.length = 2 ∧ (earlyExport 2).Complete false := by
  refine ⟨rfl, (export_complete (earlyExport_lawful (by decide)) _).mpr (.of_length_le ?_)⟩
  rw [listing, length_insertionSort]
  exact (length_filter_le _ _).trans (by decide)

/-- The second of two pages lacks its row, which shares a millisecond with the first page. -/
theorem export_skips_row : (earlyExport 501).Lawful ∧
      ((earlyExport 501).rows.filter (earlyExport 501).includes).length = 501 ∧
      ∃ fuel, (exportLogsStream (earlyExport 501).reading (earlyExport 501).rows 0 1
        (some (earlyExport 501).tenantId) false fuel).map
          (fun stream => (stream.yielded.length, stream.error)) = some (500, none) := by
  have h : (earlyExport 501).Lawful := earlyExport_lawful (by decide)
  have hl : ((earlyExport 501).rows.filter (earlyExport 501).includes).length = 501 := by
    decide +kernel
  obtain ⟨listed, hp, hs⟩ := h.exportLogsStream_paged false
  refine ⟨h, hl, _, congrArg (Option.map _) hs |>.trans ?_⟩
  rw [Option.map_some, length_map]
  suffices hn : listed.length = 500 by rw [hn]
  have hm : ∀ row ∈ (earlyExport 501).listing, row ∈ (earlyExport 501).rows :=
    fun row hr => mem_of_mem_filter ((mem_insertionSort _).mp hr)
  have hi : (earlyExport 501).listing.length = 501 := by rw [listing, length_insertionSort, hl]
  generalize (earlyExport 501).listing = items at hp hm hi
  cases hp with
  | last hle => omega
  | @next page rest listed last hp hr =>
    -- no row passes the last one of the first page
    rw [filter_eq_nil_iff.mpr] at hr
    · rw [hr.of_nil, length_append, length_singleton, hp]
    · intro row hRow
      have ha := earlyExport_occurredAt (by decide) row (hm row hRow)
      have hb := earlyExport_occurredAt (by decide) last (hm last (by simp))
      simp only [passes, hb.2, Bool.or_eq_true, decide_eq_true_eq, Bool.and_eq_true, beq_iff_eq]
      omega

end Export

end Credence.Audit.Postgres
