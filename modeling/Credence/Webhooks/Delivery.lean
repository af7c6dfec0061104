import Credence.Crypto.Hmac
import Credence.Js.Map
import Credence.Lib.SsrfProtection
import Credence.ProofKit.Runs

/-! `deliverWebhook` for one webhook and one event, with an idempotency store. The calls interleave
between their statements and requests and may crash at any point. -/

namespace Credence.Webhooks.Delivery

open Js Crypto Lib.SsrfProtection

structure Webhook where
  id : String
  url : String
  secret : String
  clientCertPem : Option String
  pinnedServerCertSha256 : Option String

inductive WebhookEventType where
  | bondCreated
  | bondSlashed
  | bondWithdrawn
  | attestationAdded
  | attestationRevoked
  | scoreUpdated
  | creditsLow

def WebhookEventType.text : WebhookEventType → String
  | .bondCreated => "bond.created"
  | .bondSlashed => "bond.slashed"
  | .bondWithdrawn => "bond.withdrawn"
  | .attestationAdded => "attestation.added"
  | .attestationRevoked => "attestation.revoked"
  | .scoreUpdated => "score.updated"
  | .creditsLow => "credits.low"

inductive PayloadData where
  | list (items : List Json)
  | record (value : Json)

def PayloadData.toJson : PayloadData → Json
  | .list items => .arr items
  | .record value => value

structure Payload where
  event : WebhookEventType
  timestamp : String
  data : PayloadData
  chunkId : Option String
  chunkIndex : Option Nat
  totalChunks : Option Nat
  payloadTruncated : Option Bool
  paginationUrl : Option String

def Payload.toJson (payload : Payload) : Json :=
  .obj ([("event", .str payload.event.text), ("timestamp", .str payload.timestamp),
      ("data", payload.data.toJson)] ++
    (payload.chunkId.map fun id => ("chunkId", Json.str id)).toList ++
    (payload.chunkIndex.map fun n => ("chunkIndex", Json.num (.ofInt n))).toList ++
    (payload.totalChunks.map fun n => ("totalChunks", Json.num (.ofInt n))).toList ++
    (payload.payloadTruncated.map fun b => ("payloadTruncated", Json.bool b)).toList ++
    (payload.paginationUrl.map fun url => ("paginationUrl", Json.str url)).toList)

/-- `Buffer.byteLength(JSON.stringify(payload), 'utf8')`. -/
def Payload.byteLength (payload : Payload) : Nat :=
  (payload.toJson.stringifyChars.map Char.utf8Size).sum

section

variable (base : Payload) (sizeCap : Nat) (chunkId : String)

def chunkOf (items : List Json) (index : Nat) : Payload := { base with
    data := .list items, chunkId := some chunkId, chunkIndex := some index, totalChunks := some 0 }

/-- One turn of the loop over the items: the chunks so far and the items of the current one. -/
def addItem (state : List Payload × List Json) (item : Json) : List Payload × List Json :=
  let (chunks, currentChunkItems) := state
  if (chunkOf base chunkId (currentChunkItems ++ [item]) chunks.length).byteLength ≤ sizeCap then
    (chunks, currentChunkItems ++ [item])
  else if currentChunkItems.isEmpty then
    (chunks ++ [{ chunkOf base chunkId [item] chunks.length with payloadTruncated := some true }],
      [])
  else (chunks ++ [chunkOf base chunkId currentChunkItems chunks.length], [item])

def closeChunk (state : List Payload × List Json) : List Payload :=
  let (chunks, currentChunkItems) := state
  if currentChunkItems.isEmpty then chunks
  else chunks ++ [chunkOf base chunkId currentChunkItems chunks.length]

def chunkListPayload (items : List Json) : List Payload :=
  let chunks := closeChunk base chunkId (items.foldl (addItem base sizeCap chunkId) ([], []))
  chunks.map fun chunk => { chunk with totalChunks := some chunks.length }

/-- The payloads that one delivery sends, in order. -/
def deliveries : List Payload :=
  if base.byteLength ≤ sizeCap then [base]
  else
    match base.data with
    | .list items => chunkListPayload base sizeCap chunkId items
    | .record _ => [{ base with payloadTruncated := some true }]

end

structure DeliveryResult where
  webhookId : String
  success : Bool
  skipped : Bool
  statusCode : Option Nat
  error : Option String
  attempts : Nat
  errorCode : Option String
  deriving DecidableEq

structure FetchError where
  name : String
  message : String
  code : Option String

/-- What becomes of a request. A request that fails for the sender may have been answered. -/
inductive Answer where
  | status (code : Nat)
  | failed (error : FetchError) (answered : Option Nat)

def isOk (status : Nat) : Bool := 200 ≤ status && status < 300

/-- The receiver has answered with a success status. -/
def Answer.isAcknowledged : Answer → Bool
  | .status code => isOk code
  | .failed _ answered => answered.any isOk

structure AttemptError where
  name : String
  message : String
  status : Option Nat
  code : Option String

def AttemptError.isNonRetryable (error : AttemptError) : Bool := error.name = "NonRetryableError"

/-- The test of an optional text for being there and not empty. -/
def isPresent (text : Option String) : Bool := text.any (· ≠ "")

def isTimeout (name message : String) : Bool :=
  name = "AbortError" || message.toList.tails.any ("timeout".toList.isPrefixOf ·)

structure Options where
  payloadSizeCap : Option Nat
  maxAttempts : Nat
  returnAllChunks : Bool

def Options.sizeCap (options : Options) : Nat := options.payloadSizeCap.getD 262144

def reasonText : Reason → String
  | .privateIpv4 => "private_ipv4"
  | .privateIpv6 => "private_ipv6"
  | .blockedHostname => "blocked_hostname"
  | .blockedSuffix => "blocked_suffix"

/-- The error of a statement of the store, `signPayload`'s for a secret that is empty, or that of
the check of the host. -/
inductive Thrown where
  | store (message : String)
  | secret
  | host
  deriving DecidableEq

section

variable (hmac : Hmac) (platform : Platform) (webhook : Webhook)

def validateServerCertificatePin (actualCert expectedPin : String) : Option String :=
  if expectedPin = "" ∨ Buffer.toHex (hmac.digest "" (Buffer.ofUtf8 actualCert)) = expectedPin then
    none
  else some "WEBHOOK_MTLS_FAILURE: Server certificate pin mismatch"

def handshakeFailed (code : Option String) : Bool :=
  code = some "UNABLE_TO_VERIFY_LEAF_SIGNATURE" || code = some "CERT_UNTRUSTED" ||
    (code = some "ECONNREFUSED" && isPresent webhook.clientCertPem)

/-- The operation that is retried: the status of the answer, or the error that it throws. -/
def attempt : Answer → Except AttemptError Nat
  | .failed error _ =>
    if handshakeFailed webhook error.code then
      .error ⟨"Error", "mTLS handshake failed: " ++ error.message, none,
        some "WEBHOOK_MTLS_FAILURE"⟩
    else .error ⟨error.name, error.message, none, error.code⟩
  | .status code =>
    if isOk code then
      match validateServerCertificatePin hmac "placeholder_actual_cert"
          (webhook.pinnedServerCertSha256.getD "") with
      | none => .ok code
      | some message =>
        .error ⟨"NonRetryableError", message, none, some "WEBHOOK_MTLS_FAILURE"⟩
    else if 400 ≤ code ∧ code < 500 then
      .error ⟨"NonRetryableError", "HTTP " ++ toString code, some code,
        some ("HTTP_" ++ toString code)⟩
    else .error ⟨"Error", "HTTP " ++ toString code, some code, none⟩

def AttemptError.result (error : AttemptError) (attempts : Nat) : DeliveryResult where
  webhookId := webhook.id
  success := false
  skipped := false
  statusCode := error.status
  error := some (if error.message = "" then error.name else error.message)
  attempts := attempts
  errorCode :=
    match error.status with
    | some (code + 1) => some ("HTTP_" ++ toString (code + 1))
    | _ => if isTimeout error.name error.message then some "TIMEOUT_ERROR" else error.code

def delivered (statusCode attempts : Nat) : DeliveryResult :=
  ⟨webhook.id, true, false, some statusCode, none, attempts, none⟩

def alreadyReserved : DeliveryResult := ⟨webhook.id, true, true, none, none, 0, none⟩

/-- What `deliverSingleWebhook` throws before its first request, the result that it returns without
one, or `none` where it goes on. -/
def beforeRequest (options : Options) : Except Thrown (Option DeliveryResult) :=
  if webhook.secret = "" then .error .secret
  else
    match checkHostBlocked platform webhook.url with
    | none => .error .host
    | some (.blocked reason host) =>
      .ok (some ⟨webhook.id, false, false, none,
        some ("Webhook target '" ++ String.ofList host ++ "' is restricted: " ++ reasonText reason),
        0, some "SSRF_BLOCKED"⟩)
    | some .allowed =>
      if options.maxAttempts = 0 then
        .ok (some ⟨webhook.id, false, false, none,
          some "Webhook delivery failed: no attempts were made", 0, none⟩)
      else .ok none

end

inductive Value where
  | single (result : DeliveryResult)
  | many (results : List DeliveryResult)
  deriving DecidableEq

def Options.value (options : Options) (results : List DeliveryResult) : Value :=
  if options.returnAllChunks then .many results
  else
    match results with
    | [result] => .single result
    | _ => .many results

def Value.results : Value → List DeliveryResult
  | .single result => [result]
  | .many results => results

def Value.isSuccess (value : Value) : Bool := value.results.all DeliveryResult.success

def Value.isSkipped (value : Value) : Bool := value.results.any DeliveryResult.skipped

inductive Outcome where
  | returned (value : Value)
  | threw (error : Thrown)
  deriving DecidableEq

/-- What becomes of a statement; a `lost` one takes effect and its reply does not arrive. -/
inductive Reply where
  | ok
  | lost (message : String)
  | failed (message : String)

def Reply.takesEffect : Reply → Bool
  | .ok | .lost _ => true
  | .failed _ => false

def Reply.isLost : Reply → Bool
  | .lost _ => true
  | .ok | .failed _ => false

/-- A `delivering` call waits for the answer to its `attempts`-th request for a chunk; a `cleaning`
call is in the `catch` block and throws the error at its end. -/
inductive Phase where
  | reserving (options : Options)
  | delivering (options : Options) (results : List DeliveryResult) (chunk : Payload)
      (rest : List Payload) (attempts : Nat)
  | clearing (options : Options) (results : List DeliveryResult)
  | cleaning (error : Thrown)

/-- `reserved` is the row of the webhook and the event; `answered` are the payloads that the
receiver has answered with a success status, and `divisions` the size cap and chunk id of each call
that has divided the payload. -/
structure World where
  reserved : Bool
  calls : List (Nat × Phase)
  divisions : List (Nat × String)
  answered : List Payload
  outcomes : List (Nat × Outcome)

inductive Action where
  | call (call : Nat) (options : Options)
  | reserve (call : Nat) (chunkId : String) (reply : Reply)
  | respond (call : Nat) (answer : Answer) (retry : Bool)
  | clear (call : Nat) (reply : Reply)
  | crash (call : Nat)

namespace World

variable (s : World) (call : Nat)

def go (phase : Phase) : World := { s with calls := Map.set call phase s.calls }

def finish (outcome : Outcome) : World :=
  { s with calls := Map.delete call s.calls, outcomes := s.outcomes ++ [(call, outcome)] }

def conclude (options : Options) (results : List DeliveryResult) : World :=
  if results.any fun result => !result.success then s.go call (.clearing options results)
  else s.finish call (.returned (options.value results))

variable (hmac : Hmac) (platform : Platform) (webhook : Webhook) (payload : Payload)

/-- The loop over the chunks that are left. -/
def next (options : Options) (results : List DeliveryResult) : List Payload → World
  | [] => s.conclude call options results
  | chunk :: rest =>
    match beforeRequest platform webhook options with
    | .error error => s.go call (.cleaning error)
    | .ok (some result) => s.conclude call options (results ++ [result])
    | .ok none => s.go call (.delivering options results chunk rest 1)

def reserve (options : Options) (chunkId : String) (reply : Reply) : World :=
  match reply with
  | .failed message => s.finish call (.threw (.store message))
  | .lost message => { s with reserved := true }.finish call (.threw (.store message))
  | .ok =>
    if s.reserved then s.finish call (.returned (options.value [alreadyReserved webhook]))
    else
      { s with reserved := true, divisions := s.divisions ++ [(options.sizeCap, chunkId)] }.next
        call platform webhook options [] (deliveries payload options.sizeCap chunkId)

/-- The answer to a request; `retry` is the decision of the retry policy. -/
def respond (options : Options) (results : List DeliveryResult) (chunk : Payload)
    (rest : List Payload) (attempts : Nat) (answer : Answer) (retry : Bool) : World :=
  let s := if answer.isAcknowledged then { s with answered := s.answered ++ [chunk] } else s
  match attempt hmac webhook answer with
  | .ok code =>
    s.next call platform webhook options (results ++ [delivered webhook code attempts]) rest
  | .error error =>
    if retry && !error.isNonRetryable && attempts < options.maxAttempts then
      s.go call (.delivering options results chunk rest (attempts + 1))
    else s.conclude call options (results ++ [error.result webhook attempts])

def clear (reply : Reply) : World := if reply.takesEffect then { s with reserved := false } else s

/-- The end of the `DELETE` statement of a call that returns or throws `after`, or throws the
statement's own error from where it is. -/
def cleared (reply : Reply) (after : Outcome) (failed : Thrown → World → World) : World :=
  match reply with
  | .ok => (s.clear reply).finish call after
  | .lost message | .failed message => failed (.store message) (s.clear reply)

end World

variable (hmac : Hmac) (platform : Platform) (webhook : Webhook) (payload : Payload)

def step : Action → World → Option World
  | .call call options, s =>
    match Map.get call s.calls with
    | none => some (s.go call (.reserving options))
    | some _ => none
  | .reserve call chunkId reply, s =>
    match Map.get call s.calls with
    | some (.reserving options) =>
      some (s.reserve call platform webhook payload options chunkId reply)
    | _ => none
  | .respond call answer retry, s =>
    match Map.get call s.calls with
    | some (.delivering options results chunk rest attempts) =>
      some (s.respond call hmac platform webhook options results chunk rest attempts answer retry)
    | _ => none
  | .clear call reply, s =>
    match Map.get call s.calls with
    | some (.clearing options results) =>
      some (s.cleared call reply (.returned (options.value results))
        fun error s => s.go call (.cleaning error))
    | some (.cleaning error) =>
      some (s.cleared call reply (.threw error) fun error s => s.finish call (.threw error))
    | _ => none
  | .crash call, s =>
    match Map.get call s.calls with
    | some _ => some { s with calls := Map.delete call s.calls }
    | none => none

end Credence.Webhooks.Delivery
