import Credence.ProofKit.Runs

/-! The members of organisations: the statements on `org_members`, and the calls of the service,
which interleave between statements. -/

namespace Credence.Members

inductive MemberRole where
  | owner
  | admin
  | member
  deriving DecidableEq

def MemberRole.text : MemberRole → String
  | owner => "owner"
  | admin => "admin"
  | member => "member"

structure Member where
  id : String
  orgId : String
  userId : String
  email : String
  role : MemberRole
  deletedAt : Option Int
  deletedBy : Option String
  deriving DecidableEq

/-- `Error` with its `name` and `message`. -/
structure MemberError where
  name : String
  message : String
  deriving DecidableEq

abbrev MemberTable := List Member

def Member.active (m : Member) : Bool := m.deletedAt.isNone

def Member.owns (orgId : String) (m : Member) : Bool := m.orgId = orgId ∧ m.role = .owner ∧ m.active

def findActiveById (id : String) (rows : MemberTable) : Option Member :=
  rows.find? fun m => m.id = id ∧ m.active

def findById (id : String) (rows : MemberTable) : Option Member := rows.find? fun m => m.id = id

def findActiveByOrgAndUser (orgId userId : String) (rows : MemberTable) : Option Member :=
  rows.find? fun m => m.orgId = orgId ∧ m.userId = userId ∧ m.active

def uniqueViolation (constraint : String) : MemberError :=
  ⟨"error", s!"duplicate key value violates unique constraint \"{constraint}\""⟩

/-- `INSERT … RETURNING *`; `id` is what `gen_random_uuid()` returns. -/
def insert (id orgId userId email : String) (role : MemberRole) (rows : MemberTable) :
    Except MemberError (Member × MemberTable) :=
  if rows.any fun m => m.id = id then .error (uniqueViolation "org_members_pkey")
  else if (findActiveByOrgAndUser orgId userId rows).isSome then
    .error (uniqueViolation "uq_org_members_active")
  else
    let m : Member := ⟨id, orgId, userId, email, role, none, none⟩
    .ok (m, rows ++ [m])

def updateWhere (p : Member → Bool) (f : Member → Member) (rows : MemberTable) :
    Option Member × MemberTable :=
  ((rows.find? p).map f, rows.map fun m => if p m then f m else m)

def updateRole (id : String) (role : MemberRole) : MemberTable → Option Member × MemberTable :=
  updateWhere (fun m => m.id = id ∧ m.active) fun m => { m with role }

def softDelete (id deletedBy : String) (now : Int) : MemberTable → Option Member × MemberTable :=
  updateWhere (fun m => m.id = id ∧ m.active) fun m =>
    { m with deletedAt := some now, deletedBy := some deletedBy }

def countActiveOwners (orgId : String) (rows : MemberTable) : Nat :=
  (rows.filter (Member.owns orgId)).length

/-- The update fails when another membership of the same user is active. -/
def restore (id : String) (rows : MemberTable) : Except MemberError (Option Member × MemberTable) :=
  let clash := rows.any fun m => m.id = id ∧ !m.active ∧
    (findActiveByOrgAndUser m.orgId m.userId rows).isSome
  if clash then .error (uniqueViolation "uq_org_members_active")
  else .ok (updateWhere (fun m => m.id = id ∧ !m.active)
    (fun m => { m with deletedAt := none, deletedBy := none }) rows)

structure InviteMember where
  orgId : String
  userId : String
  email : String
  role : Option MemberRole
  deriving DecidableEq

structure UpdateMemberRole where
  orgId : String
  memberId : String
  role : MemberRole
  deriving DecidableEq

structure DeleteMember where
  orgId : String
  memberId : String
  adminId : String
  deriving DecidableEq

structure RestoreMember where
  orgId : String
  memberId : String
  deriving DecidableEq

/-- The statement that a call waits for, with what the rest of the call needs. -/
inductive Pending where
  | inviteFind (request : InviteMember)
  | inviteInsert (request : InviteMember)
  | updateFind (request : UpdateMemberRole)
  | updateCount (request : UpdateMemberRole) (existing : Member)
  | updateWrite (request : UpdateMemberRole) (existing : Member)
  | updateRecount (request : UpdateMemberRole)
  | deleteFind (request : DeleteMember)
  | deleteCount (request : DeleteMember) (existing : Member)
  | deleteWrite (request : DeleteMember) (existing : Member)
  | deleteRecount (request : DeleteMember)
  | restoreFind (request : RestoreMember)
  | restoreConflict (request : RestoreMember) (existing : Member)
  | restoreWrite (request : RestoreMember)
  deriving DecidableEq

inductive CallState where
  | waiting (pending : Pending)
  | resolved (message : String)
  | rejected (error : MemberError)
  deriving DecidableEq

def memberNotFound (message : String) : CallState := .rejected ⟨"MemberNotFoundError", message⟩

def memberAlreadyDeleted (message : String) : CallState :=
  .rejected ⟨"MemberAlreadyDeletedError", message⟩

def lastOwner (message : String) : CallState := .rejected ⟨"LastOwnerError", message⟩

def lostRace (orgId memberId : String) (ownerCount : Nat) : CallState :=
  if ownerCount ≤ 0 then
    lastOwner s!"Organisation {orgId} has no active owners after a concurrent soft-delete"
  else memberAlreadyDeleted s!"Member {memberId} was concurrently soft-deleted"

/-- The answer to the statement that a call waits for, and the call up to its next one. -/
def resume (newId : String) (now : Int) (rows : MemberTable) : Pending → CallState × MemberTable
  | .inviteFind r =>
    match findActiveByOrgAndUser r.orgId r.userId rows with
    | some _ =>
      (.rejected ⟨"MemberAlreadyActiveError", "Member is already active in this organisation"⟩,
        rows)
    | none => (.waiting (.inviteInsert r), rows)
  | .inviteInsert r =>
    match insert newId r.orgId r.userId r.email (r.role.getD .member) rows with
    | .ok (m, rows) => (.resolved s!"{r.email} invited as {m.role.text}", rows)
    | .error error => (.rejected error, rows)
  | .updateFind r =>
    match findActiveById r.memberId rows with
    | none => (memberNotFound s!"Member not found or has been removed: {r.memberId}", rows)
    | some existing =>
      if existing.orgId ≠ r.orgId then
        (memberNotFound s!"Member not found in organisation {r.orgId}: {r.memberId}", rows)
      else if existing.role = .owner ∧ r.role ≠ .owner then
        (.waiting (.updateCount r existing), rows)
      else (.waiting (.updateWrite r existing), rows)
  | .updateCount r existing =>
    if countActiveOwners r.orgId rows ≤ 1 then
      (lastOwner s!"Cannot demote the last active owner in organisation {r.orgId}", rows)
    else (.waiting (.updateWrite r existing), rows)
  | .updateWrite r existing =>
    match updateRole r.memberId r.role rows with
    | (some _, rows) =>
      (.resolved s!"Role updated from {existing.role.text} to {r.role.text}", rows)
    | (none, rows) => (.waiting (.updateRecount r), rows)
  | .updateRecount r => (lostRace r.orgId r.memberId (countActiveOwners r.orgId rows), rows)
  | .deleteFind r =>
    match findActiveById r.memberId rows with
    | none => (memberAlreadyDeleted s!"Member not found or already deleted: {r.memberId}", rows)
    | some existing =>
      if existing.orgId ≠ r.orgId then
        (memberNotFound s!"Member not found in organisation {r.orgId}: {r.memberId}", rows)
      else if existing.role = .owner then (.waiting (.deleteCount r existing), rows)
      else (.waiting (.deleteWrite r existing), rows)
  | .deleteCount r existing =>
    if countActiveOwners r.orgId rows ≤ 1 then
      (lastOwner s!"Cannot remove the last active owner in organisation {r.orgId}", rows)
    else (.waiting (.deleteWrite r existing), rows)
  | .deleteWrite r existing =>
    match softDelete r.memberId r.adminId now rows with
    | (some _, rows) => (.resolved s!"Member {existing.email} has been removed", rows)
    | (none, rows) => (.waiting (.deleteRecount r), rows)
  | .deleteRecount r => (lostRace r.orgId r.memberId (countActiveOwners r.orgId rows), rows)
  | .restoreFind r =>
    match findById r.memberId rows with
    | none => (memberNotFound s!"Member not found: {r.memberId}", rows)
    | some existing =>
      if existing.active then
        (memberAlreadyDeleted s!"Member {r.memberId} is already active — nothing to restore", rows)
      else if existing.orgId ≠ r.orgId then
        (memberNotFound s!"Member not found in organisation {r.orgId}: {r.memberId}", rows)
      else (.waiting (.restoreConflict r existing), rows)
  | .restoreConflict r existing =>
    match findActiveByOrgAndUser existing.orgId existing.userId rows with
    | some _ =>
      (.rejected ⟨"ActiveMembershipExistsError", "Cannot restore: an active membership already " ++
        "exists for this user in this organisation"⟩, rows)
    | none => (.waiting (.restoreWrite r), rows)
  | .restoreWrite r =>
    match restore r.memberId rows with
    | .ok (some m, rows) => (.resolved s!"Member {m.email} has been restored", rows)
    | .ok (none, rows) =>
      (memberAlreadyDeleted s!"Member {r.memberId} was concurrently hard-deleted before restore",
        rows)
    | .error error => (.rejected error, rows)

inductive MemberAction where
  | inviteMember (request : InviteMember)
  | updateMemberRole (request : UpdateMemberRole)
  | deleteMember (request : DeleteMember)
  | restoreMember (request : RestoreMember)
  | answer (call : Nat) (newId : String) (now : Int)

structure MemberWorld where
  rows : MemberTable
  calls : List CallState

def MemberWorld.start (rows : MemberTable) : MemberWorld := ⟨rows, []⟩

def MemberWorld.call (pending : Pending) (w : MemberWorld) : MemberWorld :=
  { w with calls := w.calls ++ [.waiting pending] }

def memberStep : MemberAction → MemberWorld → Option MemberWorld
  | .inviteMember request, w => some (w.call (.inviteFind request))
  | .updateMemberRole request, w => some (w.call (.updateFind request))
  | .deleteMember request, w => some (w.call (.deleteFind request))
  | .restoreMember request, w => some (w.call (.restoreFind request))
  | .answer n newId now, w =>
    match w.calls[n]? with
    | some (.waiting pending) =>
      let (state, rows) := resume newId now w.rows pending
      some ⟨rows, w.calls.set n state⟩
    | _ => none

end Credence.Members
