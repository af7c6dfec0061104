import Credence.Crypto.Hmac
import Credence.Js.Map
import Credence.Js.Number
import Mathlib.Algebra.Order.Ring.Rat

/-! `admitIncomingWebhook`: the signature, the age of the timestamp, and a store of claimed events
that forgets its records after some time. -/

namespace Credence.Webhooks

open Js Crypto

/-- `${n}` of a number: whole numbers below 10^21 are written with their digits, no other number is
written in the same way, and there is no colon. -/
structure NumberTexts where
  text : Number → String
  integer : ∀ n : Int, n.natAbs < 1000000000000000000000 →
    text (.finite n) = String.ofList (intText n)
  only : ∀ (a : Number) (n : Int), n.natAbs < 1000000000000000000000 →
    text a = text (.finite n) → a = .finite n
  plain : ∀ a, ':' ∉ (text a).toList

structure Env where
  hmac : Hmac
  numbers : NumberTexts

inductive RawBody where
  | text (value : String)
  | buffer (bytes : List UInt8)

def bodyBytes : RawBody → List UInt8
  | .text value => Buffer.ofUtf8 value
  | .buffer bytes => bytes

structure Webhook where
  tenantId : String
  eventId : String
  timestamp : Number
  rawBody : RawBody

structure AdmissionInput extends Webhook where
  signature : String
  secret : String

structure WebhookAdmissionError where
  code : String
  message : String
  statusCode : Nat

def identityRequired : WebhookAdmissionError :=
  ⟨"IDENTITY_REQUIRED", "Tenant and event identity are required.", 400⟩

def timestampInvalid : WebhookAdmissionError :=
  ⟨"TIMESTAMP_INVALID", "Webhook timestamp must be a positive integer.", 400⟩

def secretRequired : WebhookAdmissionError :=
  ⟨"SECRET_REQUIRED", "Webhook secret is required.", 400⟩

def signatureInvalid : WebhookAdmissionError :=
  ⟨"SIGNATURE_INVALID", "Webhook signature is invalid.", 400⟩

def clockInvalid : WebhookAdmissionError := ⟨"CLOCK_INVALID", "Verifier clock is invalid.", 500⟩

def toleranceInvalid : WebhookAdmissionError :=
  ⟨"TOLERANCE_INVALID", "Timestamp tolerance is invalid.", 500⟩

def timestampOutOfRange : WebhookAdmissionError :=
  ⟨"TIMESTAMP_OUT_OF_RANGE", "Webhook timestamp is outside the acceptance window.", 400⟩

def bodyFingerprint (env : Env) (rawBody : RawBody) : String :=
  Buffer.toHex (env.hmac.digest "credence-webhook-fingerprint" (bodyBytes rawBody))

def signingMaterial (env : Env) (webhook : Webhook) : List UInt8 :=
  Buffer.ofUtf8 ("v1" ++ ":" ++ webhook.tenantId ++ ":" ++ webhook.eventId ++ ":" ++
    env.numbers.text webhook.timestamp ++ ":") ++ bodyBytes webhook.rawBody

def signIncomingWebhook (env : Env) (webhook : Webhook) (secret : String) :
    Except WebhookAdmissionError String :=
  if secret = "" then .error secretRequired
  else .ok (Buffer.toHex (env.hmac.digest secret (signingMaterial env webhook)))

/-- The bytes of the signature, with or without `v1=` before its digits. -/
def suppliedBytes (signature : String) : List UInt8 :=
  match signature.toList with
  | 'v' :: '1' :: '=' :: digits => Buffer.bytesOfHex digits
  | digits => Buffer.bytesOfHex digits

def verifyIncomingSignature (env : Env) (input : AdmissionInput) :
    Except WebhookAdmissionError Unit := do
  if input.tenantId = "" ∨ input.eventId = "" then .error identityRequired
  if input.timestamp.isSafeInteger = false ∨ input.timestamp.isNonPositive then
    .error timestampInvalid
  if input.secret = "" then .error secretRequired
  let expected ← signIncomingWebhook env input.toWebhook input.secret
  if suppliedBytes input.signature ≠ Buffer.ofHex expected then .error signatureInvalid
  return ()

/-- `Math.abs(nowSeconds - timestamp) > toleranceSeconds`. -/
def outOfRange (nowSeconds toleranceSeconds : ℚ) : Number → Bool
  | .nan => false
  | .infinity _ => true
  | .finite q => toleranceSeconds < nowSeconds - q ∨ toleranceSeconds < q - nowSeconds

def validateFreshness (timestamp : Number) (nowSeconds : Int) (toleranceSeconds : Number) :
    Except WebhookAdmissionError Unit := do
  if 9007199254740991 < nowSeconds ∨ nowSeconds < 0 then .error clockInvalid
  match toleranceSeconds with
  | .finite tolerance =>
    if toleranceSeconds.isSafeInteger = false ∨ tolerance < 0 then .error toleranceInvalid
    if outOfRange nowSeconds tolerance timestamp then .error timestampOutOfRange
    return ()
  | _ => .error toleranceInvalid

inductive AdmissionOutcome where
  | accepted
  | replay
  | conflict
  deriving DecidableEq

structure AdmissionRecord where
  tenantId : String
  eventId : String
  fingerprint : String
  statusCode : Nat
  responseBody : Json
  createdAt : ℚ
  expiresAt : Number

structure AdmissionResult where
  outcome : AdmissionOutcome
  record : AdmissionRecord

abbrev Records := List (String × AdmissionRecord)

def storeKey (tenantId eventId : String) : String := tenantId ++ "\x00" ++ eventId

def purge (now : ℚ) (records : Records) : Records :=
  records.filter fun entry => !entry.2.expiresAt.isAtMost now

def claim (env : Env) (ttlMs : Number) (now : ℚ) (webhook : Webhook) (records : Records) :
    AdmissionResult × Records :=
  let live := purge now records
  let key := storeKey webhook.tenantId webhook.eventId
  let fingerprint := bodyFingerprint env webhook.rawBody
  match Map.get key live with
  | some existing =>
    (⟨if existing.fingerprint = fingerprint then .replay else .conflict, existing⟩, live)
  | none =>
    let record := ⟨webhook.tenantId, webhook.eventId, fingerprint, 202, .null, now, ttlMs.addTo now⟩
    (⟨.accepted, record⟩, Map.set key record live)

/-- `now` is what the clock of the store shows when the event is claimed. -/
def admitIncomingWebhook (env : Env) (ttlMs : Number) (now : ℚ) (input : AdmissionInput)
    (nowSeconds : Int) (toleranceSeconds : Number) (records : Records) :
    Except WebhookAdmissionError AdmissionResult × Records :=
  let checked : Except WebhookAdmissionError Unit := do
    verifyIncomingSignature env input
    validateFreshness input.timestamp nowSeconds toleranceSeconds
  match checked with
  | .error error => (.error error, records)
  | .ok () =>
    let (result, records) := claim env ttlMs now input.toWebhook records
    (.ok result, records)

end Credence.Webhooks
