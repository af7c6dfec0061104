import Credence.ProofKit.Lists
import Credence.ProofKit.Pages
import Mathlib.Data.List.Sort

/-! The pages of the dead-letter queue. The cursor is the `failed_at` of its row, so entries that
share it with the last entry of a page are passed over. -/

namespace Credence.Webhooks

open ProofKit List

structure DlqRow where
  id : String
  failedAt : Int
  replayedAt : Option Int
  deriving DecidableEq

structure ListDlqOptions where
  limit : Option Nat
  beforeId : Option String
  pendingOnly : Bool

/-- `failed_at < (SELECT failed_at FROM webhook_dlq WHERE id = $1)`, where a cursor is given. -/
def isBefore (table : List DlqRow) (beforeId : Option String) (row : DlqRow) : Bool :=
  (beforeId.filter (· ≠ "")).all fun id =>
    (table.find? (·.id = id)).any fun anchor => row.failedAt < anchor.failedAt

/-- The rows that meet the conditions. -/
def selected (pendingOnly : Bool) (beforeId : Option String) (table : List DlqRow) : List DlqRow :=
  table.filter fun row => (!pendingOnly || row.replayedAt.isNone) && isBefore table beforeId row

/-- `order` stands for `ORDER BY failed_at DESC`. -/
def list (order : List DlqRow → List DlqRow) (opts : ListDlqOptions) (table : List DlqRow) :
    List DlqRow :=
  (order (selected opts.pendingOnly opts.beforeId table)).take (min (opts.limit.getD 100) 500)

def Newest (rows : List DlqRow) : Prop := rows.Pairwise fun a b => b.failedAt ≤ a.failedAt

/-- All pages from the cursor on, each query with its own order of ties; `none` when there are more
than `fuel` pages. -/
def listAll (order : Nat → List DlqRow → List DlqRow) (table : List DlqRow) (limit : Nat)
    (pendingOnly : Bool) : Nat → Option String → Option (List DlqRow)
  | 0, _ => none
  | fuel + 1, beforeId =>
    let page := list (order fuel) ⟨some limit, beforeId, pendingOnly⟩ table
    if page.length < limit then some page
    else (listAll order table limit pendingOnly fuel (page.getLast?.map DlqRow.id)).map (page ++ ·)

variable {table init rest : List DlqRow} {row other : DlqRow} {limit : Nat} {pendingOnly : Bool}
  {beforeId : Option String}

/-- The times of the rows, newest first. -/
def times (rows : List DlqRow) : List Int := (rows.map DlqRow.failedAt).insertionSort (· ≥ ·)

theorem map_failedAt {rows : List DlqRow} (hp : rows.Perm table) (hs : Newest rows) :
    rows.map DlqRow.failedAt = times table :=
  List.Perm.eq_of_pairwise (fun _ _ _ _ ha hb => le_antisymm hb ha) (pairwise_map.mpr hs)
    (pairwise_insertionSort _ _) ((hp.map _).trans (perm_insertionSort _ _).symm)

theorem isBefore_of_lt (h : isBefore table beforeId row = true)
    (hl : other.failedAt < row.failedAt) : isBefore table beforeId other = true := by
  unfold isBefore at h ⊢
  rw [Option.all_eq_true] at h ⊢
  intro id hid
  obtain ⟨anchor, hg, hb⟩ := (Option.any_eq_true _ _).mp (h id hid)
  have ha : row.failedAt < anchor.failedAt := of_decide_eq_true hb
  exact (Option.any_eq_true _ _).mpr ⟨anchor, hg, decide_eq_true (by omega)⟩

variable {order : Nat → List DlqRow → List DlqRow}

section

variable (hi : (table.map DlqRow.id).Nodup) (ht : "" ∉ table.map DlqRow.id)
include hi ht

/-- The next page is taken from what is older than the last entry of this one. -/
theorem selected_next (hm : row ∈ selected pendingOnly beforeId table) :
    selected pendingOnly (some row.id) table =
      (selected pendingOnly beforeId table).filter fun other => other.failedAt < row.failedAt := by
  obtain ⟨hr, hs⟩ := mem_filter.mp hm
  have hne : row.id ≠ "" := fun he => ht (he ▸ mem_map_of_mem hr)
  have hf : table.find? (·.id = row.id) = some row :=
    find?_of_unique hr (by simp) fun b hb he => inj_on_of_nodup_map hi hb hr (by simpa using he)
  have hb := (Bool.and_eq_true_iff.mp hs).2
  rw [selected, selected, filter_filter]
  apply filter_congr
  intro other _
  have hc : isBefore table (some row.id) other = decide (other.failedAt < row.failedAt) := by
    simp [isBefore, hne, hf]
  rw [hc]
  by_cases hl : other.failedAt < row.failedAt
  · rw [isBefore_of_lt hb hl, decide_eq_true hl, Bool.true_and]
  · simp [hl]

theorem listAll_paged (ho : ∀ n rows, (order n rows).Perm rows ∧ Newest (order n rows))
    (hl : 1 ≤ limit ∧ limit ≤ 500) {fuel : Nat}
    (hf : (selected pendingOnly beforeId table).length < fuel) :
    ∃ rows, listAll order table limit pendingOnly fuel beforeId = some rows ∧
      rows.Subperm (selected pendingOnly beforeId table) ∧
      Paged (fun last next => next < last) limit (times (selected pendingOnly beforeId table))
        (rows.map DlqRow.failedAt) := by
  induction fuel generalizing beforeId with
  | zero => omega
  | succ fuel ih =>
    obtain ⟨hp, hs⟩ := ho fuel (selected pendingOnly beforeId table)
    have hpage : list (order fuel) ⟨some limit, beforeId, pendingOnly⟩ table =
        (order fuel (selected pendingOnly beforeId table)).take limit := by
      simp only [list, Option.getD_some, Nat.min_eq_left hl.2]
    generalize order fuel (selected pendingOnly beforeId table) = rows at hp hs hpage
    simp only [listAll, hpage, length_take]
    by_cases hshort : rows.length < limit
    · rw [if_pos (by omega), take_of_length_le (by omega)]
      refine ⟨rows, rfl, hp.subperm, ?_⟩
      rw [← map_failedAt hp hs]
      exact .last (by rw [length_map]; omega)
    · obtain ⟨init, row, rest, rfl, hlen⟩ := exists_page (show limit - 1 < rows.length by omega)
      have he : (init ++ row :: rest).take limit = init ++ [row] := by
        rw [append_cons, take_left' (by simp; omega)]
      rw [if_neg (by omega), he]
      -- the next page is taken from the rows that are older than this one's last row
      have hr : row ∈ selected pendingOnly beforeId table :=
        hp.mem_iff.mp (mem_append_right _ mem_cons_self)
      have hnext := selected_next hi ht hr
      have hold : ((init ++ row :: rest).filter fun other => other.failedAt < row.failedAt) =
          rest.filter fun other => other.failedAt < row.failedAt := by
        refine filter_page (fun other hm => ?_) (by simp)
        have := (pairwise_append.mp hs).2.2 other hm row mem_cons_self
        simpa using this
      have hperm := hp.filter fun other => other.failedAt < row.failedAt
      rw [← hnext] at hperm
      have hlt : (selected pendingOnly (some row.id) table).length < fuel := by
        have hle := length_filter_le (fun other : DlqRow => other.failedAt < row.failedAt) rest
        have := hp.length_eq
        rw [← hperm.length_eq, hold]
        simp only [length_append, length_cons] at this
        omega
      obtain ⟨more, hm, hsub, hpaged⟩ := ih hlt
      simp only [getLast?_concat, Option.map_some, hm]
      refine ⟨_, rfl, ?_, ?_⟩
      · rw [append_assoc, singleton_append]
        refine Subperm.trans ?_ hp.subperm
        rw [subperm_append_left, subperm_cons]
        exact (hsub.trans (hold ▸ hperm.symm.subperm)).trans filter_sublist.subperm
      · rw [← map_failedAt hp hs]
        rw [← map_failedAt hperm (hs.filter _)] at hpaged
        simp only [map_append, map_cons, append_assoc, singleton_append]
        refine .next (by rw [length_map]; omega) ?_
        rw [← map_cons, ← map_append, filter_map]
        exact hpaged

end

/-- The pages end, and they hold every entry once, newest first, precisely when no page ends
between two entries that failed at one time. -/
theorem dlq_listing_complete (hOrder : ∀ n rows, (order n rows).Perm rows ∧ Newest (order n rows))
    (hIds : (table.map DlqRow.id).Nodup) (hText : "" ∉ table.map DlqRow.id)
    (hLimit : 1 ≤ limit ∧ limit ≤ 500) :
    let entries := table.filter fun row => !pendingOnly || row.replayedAt.isNone
    ∃ rows, listAll order table limit pendingOnly (table.length + 1) none = some rows ∧
      (rows.Perm entries ∧ Newest rows ↔
        CleanBreaks (fun last next => next < last) limit (times entries)) := by
  intro entries
  have he : selected pendingOnly none table = entries := by simp [selected, isBefore, entries]
  have hf : (selected pendingOnly none table).length < table.length + 1 :=
    Nat.lt_succ_of_le (length_filter_le _ _)
  obtain ⟨rows, hr, hs, hp⟩ := listAll_paged hIds hText hOrder hLimit hf
  rw [he] at hs hp
  have ht : (times entries).length = entries.length := by
    rw [times, length_insertionSort, length_map]
  obtain ⟨-, hc, hq⟩ := hp.spec (· ≥ ·) le_refl (fun a b hab => by simpa using hab)
    (fun last a b hab ha => by simp only [decide_eq_true_eq] at *; omega)
    (pairwise_insertionSort _ _)
  rw [length_map, ht] at hc
  refine ⟨rows, hr, fun h => hc.mp h.1.length_eq, fun h => ⟨?_, ?_⟩⟩
  · exact hs.perm_of_length_le (hc.mpr h).ge
  · rw [Newest, ← pairwise_map (f := DlqRow.failedAt) (R := (· ≥ ·)), hq h]
    exact pairwise_insertionSort _ _

def byTime (rows : List DlqRow) : List DlqRow :=
  rows.insertionSort fun a b => b.failedAt ≤ a.failedAt

theorem byTime_newest (rows : List DlqRow) : Newest (byTime rows) :=
  pairwise_insertionSort (fun a b : DlqRow => b.failedAt ≤ a.failedAt) rows

def threeFailed : List DlqRow := [⟨"a", 1, none⟩, ⟨"b", 2, none⟩, ⟨"c", 2, none⟩]

theorem dlq_listing_complete_tied : ∃ rows,
    listAll (fun _ => byTime) threeFailed 2 false 4 none = some rows ∧
      rows.Perm threeFailed ∧ Newest rows := by
  obtain ⟨rows, hr, hc⟩ := @dlq_listing_complete threeFailed 2 false (fun _ => byTime)
    (fun _ rows => ⟨perm_insertionSort _ rows, byTime_newest rows⟩)
    (by decide) (by decide) (by decide)
  refine ⟨rows, hr, hc.mpr ?_⟩
  exact (@cleanBreaks_append _ _ 2 [2] [1] 2 rfl).mpr ⟨by simp, .of_length_le (by decide)⟩

/-- Of two entries that failed at one time, with a page of one, the second is in no page. -/
theorem dlq_listing_passes_over :
    listAll (fun _ => byTime) [⟨"a", 1, none⟩, ⟨"b", 1, none⟩] 1 false 3 none =
      some [⟨"a", 1, none⟩] := by
  decide

end Credence.Webhooks
