import Credence.Members.Service
import Credence.ProofKit.Lists

/-! The last owner of an organisation. The guard counts the owners in one statement and the owner
is taken away in a later one. -/

namespace Credence.Members

open ProofKit List

variable {orgId id : String} {m : Member} {rows : MemberTable} {pending next : Pending}

theorem owns_iff : m.owns orgId = true ↔ m.orgId = orgId ∧ m.role = .owner ∧ m.active = true := by
  simp [Member.owns]

/-- No row goes, and no owner but the one removed. -/
structure Leaves (removed : Option String) (rows rows' : MemberTable) : Prop where
  nodup : (rows.map Member.id).Nodup → (rows'.map Member.id).Nodup
  located : ∀ m ∈ rows, ∃ m' ∈ rows', m'.id = m.id ∧ m'.orgId = m.orgId
  owners : ∀ orgId, ∀ m ∈ rows, m.owns orgId = true → removed ≠ some m.id →
    ∃ m' ∈ rows', m'.id = m.id ∧ m'.owns orgId = true

theorem Leaves.refl (removed : Option String) (rows : MemberTable) : Leaves removed rows rows :=
  ⟨id, fun m hm => ⟨m, hm, rfl, rfl⟩, fun _ m hm ho _ => ⟨m, hm, rfl, ho⟩⟩

theorem insert_leaves {userId email : String} {role : MemberRole} {rows' : MemberTable}
    (h : insert id orgId userId email role rows = .ok (m, rows')) : Leaves none rows rows' := by
  rw [insert] at h
  split at h
  · cases h
  · next hn =>
    split at h <;> cases h
    refine ⟨fun hc => ?_, fun m hm => ⟨m, mem_append_left _ hm, rfl, rfl⟩,
      fun _ m hm ho _ => ⟨m, mem_append_left _ hm, rfl, ho⟩⟩
    have hf : id ∉ rows.map Member.id := by simpa using hn
    rw [map_append, nodup_append]
    refine ⟨hc, nodup_singleton _, ?_⟩
    intro a ha b hb he
    rw [he, mem_singleton.mp hb] at ha
    exact hf ha

theorem updateWhere_leaves {removed : Option String} {p : Member → Bool} {f : Member → Member}
    (rows : MemberTable) (hi : ∀ m, (f m).id = m.id) (hr : ∀ m, (f m).orgId = m.orgId)
    (how : ∀ orgId m, p m = true → m.owns orgId = true → removed ≠ some m.id →
      (f m).owns orgId = true) : Leaves removed rows (updateWhere p f rows).2 := by
  have he : ∀ m ∈ rows, (if p m then f m else m) ∈ (updateWhere p f rows).2 :=
    fun m hm => mem_map.mpr ⟨m, hm, rfl⟩
  have hs : (updateWhere p f rows).2.map Member.id = rows.map Member.id := by
    rw [updateWhere, map_map]
    refine map_congr_left fun m _ => ?_
    by_cases hp : p m = true <;> simp [hp, hi]
  refine ⟨fun h => hs ▸ h, fun m hm => ⟨_, he m hm, ?_, ?_⟩,
    fun orgId m hm ho hk => ⟨_, he m hm, ?_, ?_⟩⟩
  · split
    · exact hi m
    · rfl
  · split
    · exact hr m
    · rfl
  · split
    · exact hi m
    · rfl
  · split
    · next hp => exact how orgId m hp ho hk
    · exact ho

theorem updateRole_leaves (id : String) (role : MemberRole) (rows : MemberTable) :
    Leaves (if role = .owner then none else some id) rows (updateRole id role rows).2 := by
  refine updateWhere_leaves rows (fun _ => rfl) (fun _ => rfl) fun orgId m hp ho hk => ?_
  by_cases hr : role = .owner
  · subst hr
    rw [owns_iff] at ho ⊢
    exact ⟨ho.1, rfl, ho.2.2⟩
  · simp_all

theorem softDelete_leaves (id deletedBy : String) (now : Int) (rows : MemberTable) :
    Leaves (some id) rows (softDelete id deletedBy now rows).2 := by
  refine updateWhere_leaves rows (fun _ => rfl) (fun _ => rfl) fun orgId m hp ho hk => ?_
  simp_all

theorem restore_leaves {result : Option Member × MemberTable} (h : restore id rows = .ok result) :
    Leaves none rows result.2 := by
  rw [restore] at h
  split at h <;> cases h
  refine updateWhere_leaves rows (fun _ => rfl) (fun _ => rfl) fun orgId m hp ho hk => ?_
  simp_all [Member.owns]

/-- The member whose membership or ownership the pending statement takes away, with the
organisation of the call. -/
def Pending.removes : Pending → Option (String × String)
  | updateWrite r _ => if r.role = .owner then none else some (r.orgId, r.memberId)
  | deleteWrite r _ => some (r.orgId, r.memberId)
  | _ => none

def Pending.target : Pending → Option (String × String)
  | updateCount r _ => some (r.orgId, r.memberId)
  | updateWrite r _ => some (r.orgId, r.memberId)
  | deleteCount r _ => some (r.orgId, r.memberId)
  | deleteWrite r _ => some (r.orgId, r.memberId)
  | _ => none

theorem Pending.target_of_removes {removal : String × String} (h : pending.removes = some removal) :
    pending.target = some removal := by
  cases pending with
  | updateWrite =>
    rw [removes] at h
    split at h
    · cases h
    · exact h
  | deleteWrite => exact h
  | _ => cases h

def Pending.reads : Pending → Bool
  | inviteInsert _ | updateWrite _ _ | deleteWrite _ _ | restoreWrite _ => false
  | _ => true

theorem resume_reads (newId : String) (now : Int) (rows : MemberTable) (h : pending.reads = true) :
    (resume newId now rows pending).2 = rows := by
  cases pending with
  | inviteInsert => cases h
  | updateWrite => cases h
  | deleteWrite => cases h
  | restoreWrite => cases h
  | _ =>
    rw [resume]
    repeat' split
    all_goals rfl

theorem resume_leaves (newId : String) (now : Int) (rows : MemberTable) (pending : Pending) :
    Leaves (pending.removes.map Prod.snd) rows (resume newId now rows pending).2 := by
  cases pending with
  | inviteInsert =>
    rw [resume]
    split
    · next hi => exact insert_leaves hi
    · exact .refl _ _
  | updateWrite r existing =>
    have hr : (resume newId now rows (.updateWrite r existing)).2 =
        (updateRole r.memberId r.role rows).2 := by
      rw [resume]
      split <;> next hu => rw [hu]
    have he : (Pending.updateWrite r existing).removes.map Prod.snd =
        if r.role = .owner then none else some r.memberId := by
      rw [Pending.removes]
      split <;> rfl
    rw [hr, he]
    exact updateRole_leaves r.memberId r.role rows
  | deleteWrite r existing =>
    have hr : (resume newId now rows (.deleteWrite r existing)).2 =
        (softDelete r.memberId r.adminId now rows).2 := by
      rw [resume]
      split <;> next hd => rw [hd]
    rw [hr]
    exact softDelete_leaves r.memberId r.adminId now rows
  | restoreWrite =>
    rw [resume]
    split
    · next ha => exact restore_leaves ha
    · next ha => exact restore_leaves ha
    · exact .refl _ _
  | _ =>
    rw [resume_reads newId now rows rfl]
    exact .refl _ _

theorem findActiveById_some (h : findActiveById id rows = some m) : m ∈ rows ∧ m.id = id := by
  have hh := find?_some h
  simp only [decide_eq_true_eq] at hh
  exact ⟨mem_of_find?_eq_some h, hh.1⟩

/-- A call waits for its update only past the guard: there were two owners, or the member it has
found was none. -/
structure PastGuard (rows : MemberTable) (pending next : Pending) (orgId id : String) : Prop where
  reads : pending.reads = true
  located : pending.target = some (orgId, id) ∨ ∃ m ∈ rows, m.id = id ∧ m.orgId = orgId
  guarded : next.removes = some (orgId, id) →
    1 < countActiveOwners orgId rows ∨ ∃ m ∈ rows, m.id = id ∧ m.role ≠ .owner

theorem resume_target {newId : String} {now : Int}
    (h : (resume newId now rows pending).1 = .waiting next)
    (ht : next.target = some (orgId, id)) : PastGuard rows pending next orgId id := by
  cases pending with
  | updateFind r =>
    rw [resume] at h
    split at h
    · cases h
    · next existing hf =>
      obtain ⟨hm, hi⟩ := findActiveById_some hf
      split at h
      · cases h
      · next ho =>
        have ho : existing.orgId = r.orgId := by simpa using ho
        split at h <;> cases h <;> cases ht
        · exact ⟨rfl, .inr ⟨existing, hm, hi, ho⟩, nofun⟩
        · next hg =>
          refine ⟨rfl, .inr ⟨existing, hm, hi, ho⟩, fun hr => ?_⟩
          refine .inr ⟨existing, hm, hi, fun how => ?_⟩
          rw [Pending.removes] at hr
          split at hr
          · cases hr
          · next ha => exact hg ⟨how, ha⟩
  | updateCount r existing | deleteCount r existing =>
    rw [resume] at h
    split at h <;> cases h
    cases ht
    next hc => exact ⟨rfl, .inl rfl, fun _ => .inl (Nat.not_le.mp hc)⟩
  | deleteFind r =>
    rw [resume] at h
    split at h
    · cases h
    · next existing hf =>
      obtain ⟨hm, hi⟩ := findActiveById_some hf
      split at h
      · cases h
      · next ho =>
        have ho : existing.orgId = r.orgId := by simpa using ho
        split at h <;> cases h <;> cases ht
        · exact ⟨rfl, .inr ⟨existing, hm, hi, ho⟩, nofun⟩
        · next hg =>
          exact ⟨rfl, .inr ⟨existing, hm, hi, ho⟩, fun _ => .inr ⟨existing, hm, hi, hg⟩⟩
  | _ =>
    simp only [resume, lostRace] at h
    repeat' split at h
    all_goals cases h
    all_goals cases ht

def Spare (orgId id : String) (rows : MemberTable) : Prop :=
  ∃ m ∈ rows, m.owns orgId = true ∧ m.id ≠ id

theorem eq_of_id (hn : (rows.map Member.id).Nodup) {m' : Member} (hm : m ∈ rows)
    (hm' : m' ∈ rows) (hi : m.id = m'.id) : m = m' :=
  inj_on_of_nodup_map hn hm hm' hi

theorem spare_of_count (hn : (rows.map Member.id).Nodup) (h : 1 < countActiveOwners orgId rows)
    (id : String) : Spare orgId id rows := by
  have ho : ((rows.filter (Member.owns orgId)).map Member.id).Nodup :=
    hn.sublist (filter_sublist.map _)
  obtain ⟨a, b, hNe, ha, hb⟩ := exists_ne_of_nodup ho (by rw [length_map]; exact h)
  obtain ⟨m, hm, rfl⟩ := mem_map.mp ha
  obtain ⟨m', hm', rfl⟩ := mem_map.mp hb
  by_cases hi : m.id = id
  · exact ⟨m', (mem_filter.mp hm').1, (mem_filter.mp hm').2, hi ▸ hNe.symm⟩
  · exact ⟨m, (mem_filter.mp hm).1, (mem_filter.mp hm).2, hi⟩

theorem PastGuard.spare (h : PastGuard rows pending next orgId id)
    (hn : (rows.map Member.id).Nodup) (how : ∃ m ∈ rows, m.owns orgId = true)
    (hr : next.removes = some (orgId, id)) : Spare orgId id rows := by
  rcases h.guarded hr with hc | ⟨m, hm, hi, ha⟩
  · exact spare_of_count hn hc id
  · obtain ⟨owner, he, ho⟩ := how
    refine ⟨owner, he, ho, fun hs => ha ?_⟩
    rw [eq_of_id hn hm he (hi.trans hs.symm)]
    exact (owns_iff.mp ho).2.1

/-- The organisation has an owner, and one to spare for each removal that waits. -/
structure MemberWorld.Owned (orgId : String) (w : MemberWorld) : Prop where
  nodup : (w.rows.map Member.id).Nodup
  owner : ∃ m ∈ w.rows, m.owns orgId = true
  located : ∀ pending, .waiting pending ∈ w.calls → ∀ org id, pending.target = some (org, id) →
    ∃ m ∈ w.rows, m.id = id ∧ m.orgId = org
  spare : ∀ pending, .waiting pending ∈ w.calls → ∀ id, pending.removes = some (orgId, id) →
    Spare orgId id w.rows

def CallState.removes : CallState → Option (String × String)
  | waiting pending => pending.removes
  | _ => none

/-- An owner of the organisation is removed only while no other member's removal is past its
guard. -/
def removesAlone (orgId : String) (action : MemberAction) (w : MemberWorld) : Bool :=
  match action with
  | .answer n _ _ =>
    match (w.calls[n]?).bind CallState.removes with
    | some (org, id) =>
      org ≠ orgId ∨ (∀ m ∈ w.rows, m.id = id → m.owns orgId = false) ∨
        ∀ call ∈ w.calls, ∀ removal, call.removes = some removal → removal.1 = orgId →
          removal.2 = id
    | none => true
  | _ => true

def RemovesAlone (orgId : String) (action : MemberAction) (w : MemberWorld) : Prop :=
  removesAlone orgId action w = true

instance (orgId : String) (action : MemberAction) (w : MemberWorld) :
    Decidable (RemovesAlone orgId action w) := inferInstanceAs (Decidable (_ = true))

namespace MemberWorld.Owned

variable {orgId : String} {w : MemberWorld}

theorem start {rows : MemberTable} (hn : (rows.map Member.id).Nodup)
    (ho : ∃ m ∈ rows, m.owns orgId = true) : (MemberWorld.start rows).Owned orgId := by
  refine ⟨hn, ho, ?_, ?_⟩
  · intro pending hm
    cases hm
  · intro pending hm
    cases hm

variable {pending : Pending}

theorem call (h : w.Owned orgId) (ht : pending.target = none) : (w.call pending).Owned orgId := by
  have hl : ∀ other, .waiting other ∈ (w.call pending).calls → ∀ removal,
      other.target = some removal → .waiting other ∈ w.calls := by
    intro other hm removal ho
    rcases mem_append.mp hm with hm | hm
    · exact hm
    · cases mem_singleton.mp hm
      rw [ht] at ho
      cases ho
  refine ⟨h.nodup, h.owner, ?_, ?_⟩
  · intro other hm org id ho
    exact h.located other (hl other hm _ ho) org id ho
  · intro other hm id hr
    exact h.spare other (hl other hm _ (Pending.target_of_removes hr)) id hr

section

variable (h : w.Owned orgId) (newId : String) (now : Int) (hCall : .waiting pending ∈ w.calls)
include h newId now hCall

theorem keeps {m : Member} (hm : m ∈ w.rows) (ho : m.owns orgId = true)
    (ht : pending.removes ≠ some (orgId, m.id)) :
    ∃ m' ∈ (resume newId now w.rows pending).2, m'.id = m.id ∧ m'.owns orgId = true := by
  refine (resume_leaves newId now w.rows pending).owners orgId m hm ho fun he => ?_
  obtain ⟨⟨org, id⟩, hr, rfl⟩ := Option.map_eq_some_iff.mp he
  obtain ⟨found, hf, hi, ha⟩ := h.located pending hCall org _ (Pending.target_of_removes hr)
  cases eq_of_id h.nodup hf hm hi
  rw [(owns_iff.mp ho).1] at ha
  exact ht (ha ▸ hr)

theorem keepsSpare {id : String} (hs : Spare orgId id w.rows)
    (ha : ∀ m ∈ w.rows, m.owns orgId = true → pending.removes = some (orgId, m.id) → m.id = id) :
    Spare orgId id (resume newId now w.rows pending).2 := by
  obtain ⟨m, hm, ho, hi⟩ := hs
  obtain ⟨m', hm', hi', ho'⟩ := h.keeps newId now hCall hm ho fun hr => hi (ha m hm ho hr)
  exact ⟨m', hm', ho', hi' ▸ hi⟩

theorem keepsOwner : ∃ m ∈ (resume newId now w.rows pending).2, m.owns orgId = true := by
  by_cases hr : ∃ id, pending.removes = some (orgId, id)
  · obtain ⟨id, hr⟩ := hr
    obtain ⟨m, hm, ho, -⟩ := h.keepsSpare newId now hCall (h.spare pending hCall id hr)
      fun m _ _ he => by
        cases hr.symm.trans he
        rfl
    exact ⟨m, hm, ho⟩
  · obtain ⟨m, hm, ho⟩ := h.owner
    obtain ⟨m', hm', -, ho'⟩ := h.keeps newId now hCall hm ho fun he => hr ⟨_, he⟩
    exact ⟨m', hm', ho'⟩

end

theorem answer (h : w.Owned orgId) {n : Nat} {newId : String} {now : Int}
    (hCall : w.calls[n]? = some (.waiting pending))
    (ha : RemovesAlone orgId (.answer n newId now) w) :
    MemberWorld.Owned orgId ⟨(resume newId now w.rows pending).2,
      w.calls.set n (resume newId now w.rows pending).1⟩ := by
  have hc := mem_of_getElem? hCall
  have hl := resume_leaves newId now w.rows pending
  refine ⟨hl.nodup h.nodup, h.keepsOwner newId now hc, ?_, ?_⟩
  · intro other hd org id ht
    have hf : ∃ m ∈ w.rows, m.id = id ∧ m.orgId = org := by
      rcases mem_or_eq_of_mem_set hd with hj | hn
      · exact h.located other hj org id ht
      · rcases (resume_target hn.symm ht).located with hb | hf
        · exact h.located pending hc org id hb
        · exact hf
    obtain ⟨m, hm, hi, ho⟩ := hf
    obtain ⟨m', hm', hi', ho'⟩ := hl.located m hm
    exact ⟨m', hm', hi'.trans hi, ho'.trans ho⟩
  · intro other hd id hr
    rcases mem_or_eq_of_mem_set hd with hj | hn
    · refine h.keepsSpare newId now hc (h.spare other hj id hr) fun m hm how he => ?_
      have hk : (w.calls[n]?).bind CallState.removes = some (orgId, m.id) := by
        rw [hCall]
        exact he
      rw [RemovesAlone, removesAlone, hk, decide_eq_true_eq] at ha
      rcases ha with ho | hp | hs
      · exact absurd rfl ho
      · rw [hp m hm rfl] at how
        cases how
      · exact (hs _ hj (orgId, id) hr rfl).symm
    · have hg := resume_target hn.symm (Pending.target_of_removes hr)
      dsimp only
      rw [resume_reads newId now w.rows hg.reads]
      exact hg.spare h.nodup h.owner hr

theorem step {w' : MemberWorld} {action : MemberAction} (h : w.Owned orgId)
    (ha : RemovesAlone orgId action w) (hs : memberStep action w = some w') :
    w'.Owned orgId := by
  cases action with
  | inviteMember request | updateMemberRole request | deleteMember request
  | restoreMember request =>
    cases hs
    exact h.call rfl
  | answer =>
    rw [memberStep] at hs
    split at hs
    · next pending hCall =>
      cases hs
      exact h.answer hCall ha
    · cases hs

end MemberWorld.Owned

theorem countActiveOwners_pos :
    0 < countActiveOwners orgId rows ↔ ∃ m ∈ rows, m.owns orgId = true := by
  rw [countActiveOwners, length_pos_iff_exists_mem]
  exact exists_congr fun m => mem_filter

/-- Where no owner of the organisation is removed while the removal of another member is past its
guard, an organisation with an active owner keeps one. -/
theorem last_owner_kept (orgId : String) {rows : MemberTable} {actions : List MemberAction}
    {w : MemberWorld} (hKey : (rows.map Member.id).Nodup)
    (hOwner : 0 < countActiveOwners orgId rows)
    (hAlone : Along memberStep (RemovesAlone orgId) actions (.start rows))
    (hRun : run memberStep actions (.start rows) = some w) :
    0 < countActiveOwners orgId w.rows := by
  have ho : w.Owned orgId := run_invariant (MemberWorld.Owned orgId)
    (fun _ _ _ h hOk hs => h.step hOk hs) (.start hKey (countActiveOwners_pos.mp hOwner))
    hAlone hRun
  exact countActiveOwners_pos.mpr ho.owner

def twoOwners : MemberTable := [⟨"m1", "org", "u1", "ada@example.org", .owner, none, none⟩,
    ⟨"m2", "org", "u2", "grace@example.org", .owner, none, none⟩]

/-- One owner is removed before the guard of the other's removal, which is then refused. -/
theorem last_owner_kept_twoOwners : ∃ w,
    run memberStep [.deleteMember ⟨"org", "m1", "u2"⟩, .updateMemberRole ⟨"org", "m2", .member⟩,
      .answer 0 "" 1, .answer 1 "" 1, .answer 0 "" 2, .answer 0 "" 3, .answer 1 "" 4]
        (.start twoOwners) = some w ∧ 0 < countActiveOwners "org" w.rows := by
  have hr : run memberStep [.deleteMember ⟨"org", "m1", "u2"⟩,
      .updateMemberRole ⟨"org", "m2", .member⟩, .answer 0 "" 1, .answer 1 "" 1, .answer 0 "" 2,
      .answer 0 "" 3, .answer 1 "" 4] (.start twoOwners) = some _ := rfl
  exact ⟨_, hr, last_owner_kept "org" (by decide) (by decide +kernel) (by decide +kernel) hr⟩

/-- Both guards count two owners before either is removed. -/
theorem both_owners_removed :
    (run memberStep [.deleteMember ⟨"org", "m1", "u2"⟩, .updateMemberRole ⟨"org", "m2", .member⟩,
      .answer 0 "" 1, .answer 1 "" 1, .answer 0 "" 2, .answer 1 "" 2, .answer 0 "" 3,
      .answer 1 "" 3] (.start twoOwners)).map (fun w =>
        (countActiveOwners "org" twoOwners, countActiveOwners "org" w.rows, w.calls)) =
    some (2, 0, [.resolved "Member ada@example.org has been removed",
      .resolved "Role updated from owner to member"]) := by
  decide +kernel

end Credence.Members
