import Credence.Crypto.Hmac
import Credence.Webhooks.SecretRotation

/-! The signature header of a delivery after a rotation. The delivery measures the grace period
from `secretUpdatedAt`, which `WebhookRepository.rotateSecret` sets and
`MemoryWebhookStore.rotateSecret` does not. -/

namespace Credence.Webhooks.SecretRotation

open Js ProofKit Crypto Option

def GRACE_PERIOD_MS : Int := 24 * 60 * 60 * 1000

section

variable (hmac : Hmac) (payloadStr : String)

def signature (secret : String) : String :=
  Buffer.toHex (hmac.digest secret (Buffer.ofUtf8 payloadStr))

def signPayload (secret : String) : Except String String :=
  if secret = "" then .error "signPayload: secret must be a non-empty string"
  else .ok (signature hmac payloadStr secret)

def signatures (webhook : WebhookConfig) (now : Int) : Except String (List String) := do
  let current ← signPayload hmac payloadStr webhook.secret
  match orUndefined webhook.previousSecret with
  | none => return [current]
  | some previousSecret =>
    if now - webhook.secretUpdatedAt < GRACE_PERIOD_MS then
      return [current, ← signPayload hmac payloadStr previousSecret]
    else return [current]

def signatureHeader (webhook : WebhookConfig) (now : Int) : Except String String :=
  (signatures hmac payloadStr webhook now).map (",".intercalate ·)

end

structure MemoryConfig extends WebhookConfig where
  secretRotatedAt : Option String

def MemoryConfig.rotate (existing : MemoryConfig) (rotation : Rotation) (now : Int) :
    MemoryConfig :=
  { existing with
    secret := rotation.newSecret
    previousSecret := some rotation.previousSecret
    secretRotatedAt := some (toISOString now)
    previousSecretExpiresAt := some rotation.previousSecretExpiresAt }

def memoryRotateSecret (id : String) (rotation : Rotation) (now : Int)
    (webhooks : List (String × MemoryConfig)) :
    Except String (MemoryConfig × List (String × MemoryConfig)) :=
  match Map.get id webhooks with
  | none => .error s!"Webhook not found: {id}"
  | some existing =>
    .ok (existing.rotate rotation now, Map.set id (existing.rotate rotation now) webhooks)

variable {s t : World} {row : Option ConfigRow}

def Action.leavesSecrets : Action → Bool
  | .read .. => true
  | .write _ _ _ _ reply => reply = .failed

theorem set_failed (config : WebhookConfig) (now : Int) : (set config now .failed row).2 = row := by
  unfold set
  split <;> rfl

theorem rotateSecret_failed (id : String) (rotation : Rotation) (now : Int) :
    (rotateSecret id rotation now .failed row).2 = row := by
  unfold rotateSecret
  split <;> rfl

theorem row_read (call : Nat) (kind : Kind) (reply : Reply) :
    (s.read call kind reply).row = s.row := by
  unfold World.read
  split <;> rfl

theorem row_step {a : Action} (hl : a.leavesSecrets) (hs : step a s = some t) : t.row = s.row := by
  cases a with
  | read call kind reply =>
    obtain ⟨-, hw⟩ := ite_none_right_eq_some.mp hs
    cases hw
    exact row_read call kind reply
  | write call random clock now reply =>
    obtain rfl : reply = .failed := of_decide_eq_true hl
    rw [step] at hs
    split at hs
    · cases hs
    · cases hs
      exact set_failed _ now
    · obtain ⟨-, hw⟩ := ite_none_right_eq_some.mp hs
      cases hw
      exact rotateSecret_failed s.id _ now

theorem row_run {later : List Action} (hl : ∀ a ∈ later, a.leavesSecrets)
    (hr : run step later s = some t) : t.row = s.row := by
  induction later generalizing s with
  | nil =>
    cases hr
    rfl
  | cons a later ih =>
    obtain ⟨mid, hs, he⟩ := run_cons.mp hr
    rw [ih (fun b hb => hl b (List.mem_cons_of_mem a hb)) he,
      row_step (hl a List.mem_cons_self) hs]

theorem rotateSecret_row {id replaced : String} {rotation : Rotation} {reply : Reply} (now : Int)
    (hr : replacedSecret id rotation reply row = some replaced) :
    ∃ old, row = some old ∧ old.secret = replaced ∧ rotation.isComplete id ∧
      (rotateSecret id rotation now reply row).2 = some (old.rotate rotation now) := by
  unfold replacedSecret at hr
  split at hr
  case isFalse => cases hr
  case isTrue he =>
    obtain ⟨old, rfl, hs⟩ := map_eq_some_iff.mp hr
    refine ⟨old, rfl, hs, he.1, ?_⟩
    simp only [rotateSecret, he.1, if_true]
    cases reply with
    | ok => rfl
    | lost => rfl
    | failed => exact absurd rfl he.2

theorem signatures_rotated {hmac : Hmac} {payloadStr id : String} {rotation : Rotation}
    (hc : rotation.isComplete id) (old : ConfigRow) (readId : String)
    (rotatedAt now : Int) :
    signatures hmac payloadStr (mapToConfig readId (old.rotate rotation rotatedAt)) now =
      .ok (signature hmac payloadStr rotation.newSecret ::
        if now - rotatedAt < GRACE_PERIOD_MS then
          [signature hmac payloadStr rotation.previousSecret] else []) := by
  obtain ⟨-, hn, hp, -⟩ := of_decide_eq_true hc
  simp only [signatures, mapToConfig, ConfigRow.rotate, orUndefined, signPayload, hn, hp,
    filter_some, ne_eq, not_false_eq_true, decide_true, if_true, if_false]
  split <;> rfl

/-- After a rotation from a current copy of the secret, until the next rotation or revocation, a
delivery signs with the current secret, and with the replaced one exactly within the grace period.
-/
theorem grace_period_honoured {u : World} {call : Nat} {kind : Kind} {config : WebhookConfig}
    {random : List UInt8} {clock rotatedAt : Int} {reply : Reply} {replaced : String}
    {later : List Action} {hmac : Hmac} {payloadStr : String} {now : Int}
    (hCall : Map.get call s.calls = some (kind, config)) (hKind : kind ≠ .revoke)
    (hReplaced : replacedSecret s.id (rotationOf config random clock) reply s.row = some replaced)
    (hCopy : CopyIsCurrent (.write call random clock rotatedAt reply) s)
    (hStep : step (.write call random clock rotatedAt reply) s = some u)
    (hLater : ∀ a ∈ later, a.leavesSecrets) (hRun : run step later u = some t)
    (hDistinct : signature hmac payloadStr replaced ≠
      signature hmac payloadStr (Buffer.toHex random)) :
    ∃ stored parts, t.row = some stored ∧
      signatureHeader hmac payloadStr (mapToConfig t.id stored) now = .ok (",".intercalate parts) ∧
      signature hmac payloadStr stored.secret ∈ parts ∧
      (signature hmac payloadStr replaced ∈ parts ↔ now - rotatedAt < GRACE_PERIOD_MS) := by
  obtain ⟨old, ho, hs, hc, hr⟩ := rotateSecret_row rotatedAt hReplaced
  have hu : config.secret = replaced := by
    simpa [CopyIsCurrent, hCall, ho, hs, eq_comm] using hCopy
  have hw : u.row = some (old.rotate (rotationOf config random clock) rotatedAt) := by
    rw [step, hCall] at hStep
    split at hStep
    · next hn => cases hn
    · next he => cases he; exact absurd rfl hKind
    · next ha =>
      cases ha
      obtain ⟨-, hb⟩ := ite_none_right_eq_some.mp hStep
      cases hb
      exact hr
  have hi := @signatures_rotated hmac payloadStr _ _ hc old t.id rotatedAt now
  refine ⟨_, _, (row_run hLater hRun).trans hw, by rw [signatureHeader, hi]; rfl,
    List.mem_cons_self, ?_⟩
  split
  case isTrue hg => simp [rotationOf, hu, hg]
  case isFalse hv => simpa [rotationOf, ConfigRow.rotate, hv] using hDistinct

theorem grace_period_honoured_hour :
    ∃ u, step (.write 0 (.replicate 32 1) 7 7 .ok) (stored.read 0 .rotate .ok) = some u ∧
      ∃ row parts, u.row = some row ∧
        signatureHeader openHmac "\x7b\x7d" (mapToConfig u.id row) 3600007 =
          .ok (",".intercalate parts) ∧
        signature openHmac "\x7b\x7d" row.secret ∈ parts ∧
        (signature openHmac "\x7b\x7d" "first" ∈ parts ↔ 3600007 - 7 < GRACE_PERIOD_MS) := by
  have hc : Map.get 0 (stored.read 0 .rotate .ok).calls =
      some (.rotate, mapToConfig "w1" storedRow) := rfl
  have ha : CopyIsCurrent (.write 0 (.replicate 32 1) 7 7 .ok) (stored.read 0 .rotate .ok) := by
    decide +kernel
  refine ⟨_, rfl, grace_period_honoured hc (by simp) (by decide +kernel) ha rfl
    (List.forall_mem_nil _) rfl (by decide +kernel)⟩

def inMemory : List (String × MemoryConfig) :=
  [("w1", { mapToConfig "w1" storedRow with secretRotatedAt := none })]

/-- In the memory store a delivery one millisecond after the rotation of a webhook that is older
than a day carries no signature under the replaced secret. -/
theorem memory_store_drops_previous : ∃ config webhooks,
      memoryRotateSecret "w1" (rotationOf (mapToConfig "w1" storedRow) (List.replicate 32 1)
        (2 * GRACE_PERIOD_MS)) (2 * GRACE_PERIOD_MS) inMemory = .ok (config, webhooks) ∧
      config.previousSecret = some "first" ∧
      signatures openHmac "\x7b\x7d" config.toWebhookConfig (2 * GRACE_PERIOD_MS + 1) =
        .ok [signature openHmac "\x7b\x7d" config.secret] ∧
      signature openHmac "\x7b\x7d" "first" ≠ signature openHmac "\x7b\x7d" config.secret :=
  ⟨_, _, rfl, rfl, rfl, by decide +kernel⟩

end Credence.Webhooks.SecretRotation
