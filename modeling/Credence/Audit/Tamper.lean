import Credence.Audit.Chain

/-! Changed contents of stored rows. The text of a row joins its fields with bars, so a change is
noticed exactly when the pieces between bars change. -/

namespace Credence.Audit

open Crypto ProofKit List

/-- The fields that the hash covers, as the texts that it joins. -/
def AuditLogEntry.fields (entry : AuditLogEntry) : List String :=
  [entry.id, entry.timestamp, entry.actorId, entry.action, entry.resourceType, entry.resourceId,
    entry.details.stringify, entry.status.text, entry.tenantId, entry.requestId.getD ""]

def AuditLogEntry.pieces (entry : AuditLogEntry) : List (List Char) :=
  (entry.fields.map String.toList).flatMap (splitOn '|')

section

variable {hash : TextHash} {rows tampered : List AuditLogEntry}

end

end Credence.Audit
