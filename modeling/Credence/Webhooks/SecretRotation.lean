import Credence.Js.Buffer
import Credence.Js.Date
import Credence.Js.Map
import Credence.ProofKit.Runs

/-! Rotation of a webhook's signing secret. Rotations and revocations read the row and later write
it; calls interleave between their statements. -/

namespace Credence.Webhooks.SecretRotation

open Js ProofKit List Option

/-- The columns of `webhook_configs` that are read or written. -/
structure ConfigRow where
  url : String
  secret : String
  previousSecret : Option String
  previousSecretExpiresAt : Option String
  secretUpdatedAt : Int
  active : Bool
  events : List String
  updatedAt : Int

structure WebhookConfig where
  id : String
  url : String
  secret : String
  previousSecret : Option String
  previousSecretExpiresAt : Option String
  secretUpdatedAt : Int
  active : Bool
  events : List String

inductive ErrorCode where
  | notFound
  | invalidInput
  | database

structure WebhookRepositoryError where
  code : ErrorCode
  message : String

/-- What becomes of a statement; a `lost` one takes effect and its reply does not arrive. -/
inductive Reply where
  | ok
  | lost
  | failed
  deriving DecidableEq

/-- `text || undefined`. -/
def orUndefined (text : Option String) : Option String := text.filter (· ≠ "")

def mapToConfig (id : String) (row : ConfigRow) : WebhookConfig where
  id := id
  url := row.url
  secret := row.secret
  previousSecret := orUndefined row.previousSecret
  previousSecretExpiresAt := orUndefined row.previousSecretExpiresAt
  secretUpdatedAt := row.secretUpdatedAt
  active := row.active
  events := row.events

def get (id : String) (reply : Reply) (row : Option ConfigRow) :
    Except WebhookRepositoryError (Option WebhookConfig) :=
  if id = "" then .error ⟨.invalidInput, "get requires a non-empty id"⟩
  else if reply = .ok then .ok (row.map (mapToConfig id))
  else .error ⟨.database, "failed to load webhook config"⟩

/-- The row that the upsert leaves; a conflict keeps the column the statement does not name. -/
def upsert (config : WebhookConfig) (now : Int) (row : Option ConfigRow) : ConfigRow where
  url := config.url
  secret := config.secret
  previousSecret := orUndefined config.previousSecret
  previousSecretExpiresAt := row.bind ConfigRow.previousSecretExpiresAt
  secretUpdatedAt := config.secretUpdatedAt
  active := config.active
  events := config.events
  updatedAt := now

def set (config : WebhookConfig) (now : Int) (reply : Reply) (row : Option ConfigRow) :
    Except WebhookRepositoryError Unit × Option ConfigRow :=
  if config.id = "" ∨ config.url = "" ∨ config.secret = "" then
    (.error ⟨.invalidInput, "set requires a config with id, url and secret"⟩, row)
  else
    match reply with
    | .ok => (.ok (), some (upsert config now row))
    | .lost =>
      (.error ⟨.database, "failed to persist webhook config"⟩, some (upsert config now row))
    | .failed => (.error ⟨.database, "failed to persist webhook config"⟩, row)

structure Rotation where
  newSecret : String
  previousSecret : String
  previousSecretExpiresAt : String

def ConfigRow.rotate (row : ConfigRow) (rotation : Rotation) (now : Int) : ConfigRow := { row with
    secret := rotation.newSecret
    previousSecret := some rotation.previousSecret
    previousSecretExpiresAt := some rotation.previousSecretExpiresAt
    secretUpdatedAt := now
    updatedAt := now }

def Rotation.isComplete (rotation : Rotation) (id : String) : Bool :=
  id ≠ "" ∧ rotation.newSecret ≠ "" ∧ rotation.previousSecret ≠ "" ∧
    rotation.previousSecretExpiresAt ≠ ""

def rotateSecret (id : String) (rotation : Rotation) (now : Int) (reply : Reply)
    (row : Option ConfigRow) : Except WebhookRepositoryError WebhookConfig × Option ConfigRow :=
  if rotation.isComplete id then
    match reply, row with
    | .ok, none => (.error ⟨.notFound, s!"Webhook not found: {id}"⟩, none)
    | .ok, some old =>
      (.ok (mapToConfig id (old.rotate rotation now)), some (old.rotate rotation now))
    | .lost, _ =>
      (.error ⟨.database, "failed to rotate webhook secret"⟩, row.map (·.rotate rotation now))
    | .failed, _ => (.error ⟨.database, "failed to rotate webhook secret"⟩, row)
  else
    (.error ⟨.invalidInput,
      "rotateSecret requires id, newSecret, previousSecret and previousSecretExpiresAt"⟩, row)

def replacedSecret (id : String) (rotation : Rotation) (reply : Reply) (row : Option ConfigRow) :
    Option String :=
  if rotation.isComplete id ∧ reply ≠ .failed then row.map ConfigRow.secret else none

/-- `WebhookService.rotateSecret`, `WebhookRotationService.rotateSecret` and
`WebhookService.revokePreviousSecret`. -/
inductive Kind where
  | rotate
  | rotateByRotationService
  | revoke

inductive CallError where
  | notFound (message : String)
  | repository (error : WebhookRepositoryError)

inductive Result where
  | config (config : WebhookConfig)
  | rotation (webhookId newSecret rotatedAt previousSecretExpiresAt : String)

def Result.secret : Result → String
  | .config updated => updated.secret
  | .rotation _ newSecret _ _ => newSecret

structure Replacement where
  newSecret : String
  replaced : String
  deriving DecidableEq

/-- A call that has ended, with what its `UPDATE` replaced where one took effect. -/
structure Finished where
  call : Nat
  replacement : Option Replacement
  result : Except CallError Result

structure World where
  id : String
  row : Option ConfigRow
  calls : List (Nat × Kind × WebhookConfig)
  log : List Finished

def PREVIOUS_SECRET_TTL_MS : Int := 24 * 60 * 60 * 1000

def notFoundMessage (id : String) : Kind → String
  | .rotate | .revoke => "Webhook not found"
  | .rotateByRotationService => s!"Webhook not found: {id}"

/-- The arguments that a rotation makes from its copy of the row, 32 random bytes and its clock. -/
def rotationOf (config : WebhookConfig) (random : List UInt8) (clock : Int) : Rotation where
  newSecret := Buffer.toHex random
  previousSecret := config.secret
  previousSecretExpiresAt := toISOString (clock + PREVIOUS_SECRET_TTL_MS)

def rotationResult (id : String) (kind : Kind) (rotation : Rotation) (clock : Int)
    (updated : WebhookConfig) : Result :=
  match kind with
  | .rotateByRotationService =>
    .rotation id rotation.newSecret (toISOString clock) rotation.previousSecretExpiresAt
  | .rotate | .revoke => .config updated

inductive Action where
  | read (call : Nat) (kind : Kind) (reply : Reply)
  | write (call : Nat) (random : List UInt8) (clock now : Int) (reply : Reply)

def World.finish (s : World) (call : Nat) (row : Option ConfigRow)
    (replacement : Option Replacement) (result : Except CallError Result) : World :=
  { s with
    row
    calls := Map.delete call s.calls
    log := s.log ++ [⟨call, replacement, result⟩] }

def World.read (s : World) (call : Nat) (kind : Kind) (reply : Reply) : World :=
  match get s.id reply s.row with
  | .error error => s.finish call s.row none (.error (.repository error))
  | .ok none => s.finish call s.row none (.error (.notFound (notFoundMessage s.id kind)))
  | .ok (some config) => { s with calls := Map.set call (kind, config) s.calls }

def World.revoke (s : World) (call : Nat) (config : WebhookConfig) (now : Int) (reply : Reply) :
    World :=
  let config := { config with previousSecret := none }
  let (result, row) := set config now reply s.row
  s.finish call row none
    ((result.mapError CallError.repository).map fun _ => .config config)

def World.rotate (s : World) (call : Nat) (kind : Kind) (rotation : Rotation) (clock now : Int)
    (reply : Reply) : World :=
  let (result, row) := rotateSecret s.id rotation now reply s.row
  s.finish call row
    ((replacedSecret s.id rotation reply s.row).map fun replaced => ⟨rotation.newSecret, replaced⟩)
    ((result.mapError CallError.repository).map (rotationResult s.id kind rotation clock))

def step : Action → World → Option World
  | .read call kind reply, s =>
    if Map.get call s.calls = none then some (s.read call kind reply) else none
  | .write call random clock now reply, s =>
    match Map.get call s.calls with
    | none => none
    | some (.revoke, config) => some (s.revoke call config now reply)
    | some (kind, config) =>
      if random.length = 32 then
        some (s.rotate call kind (rotationOf config random clock) clock now reply)
      else none

def World.lastRotation (s : World) : Option Finished := s.log.reverse.find? (·.replacement.isSome)

/-- The stored secrets are those of the last rotation: its new one, told to its caller, and none or
the one that it replaced. -/
structure Consistent (s : World) : Prop where
  pair : ∀ {last : Finished} {newSecret replaced : String}, s.lastRotation = some last →
    last.replacement = some ⟨newSecret, replaced⟩ →
    ∃ row, s.row = some row ∧ row.secret = newSecret ∧
      ((mapToConfig s.id row).previousSecret = none ∨
        (mapToConfig s.id row).previousSecret = some replaced) ∧
      ∀ result, last.result = .ok result → result.secret = row.secret

/-- The secret that the call has read is still the stored one. -/
def CopyIsCurrent : Action → World → Prop
  | .write call _ _ _ _, s =>
    (Map.get call s.calls).all fun (_, config) =>
      s.row.map ConfigRow.secret = some config.secret
  | .read _ _ _, _ => True

instance (a : Action) (s : World) : Decidable (CopyIsCurrent a s) :=
  match a with
  | .write _ _ _ _ _ => inferInstanceAs (Decidable (_ = true))
  | .read _ _ _ => isTrue trivial

variable {s : World}

variable {call : Nat} {result : Except CallError Result} {config : WebhookConfig}

theorem Consistent.finish_none (h : Consistent s) {row : Option ConfigRow}
    (hr : ∀ old, s.row = some old → ∃ new, row = some new ∧ new.secret = old.secret ∧
      (orUndefined new.previousSecret = none ∨
      orUndefined new.previousSecret = orUndefined old.previousSecret)) :
    Consistent (s.finish call row none result) where
  pair hl he := by
    simp only [World.lastRotation, World.finish, reverse_concat, find?_cons,
      isSome_none] at hl
    obtain ⟨old, ho, ha, hp, hb⟩ := h.pair hl he
    obtain ⟨new, hn, hs, hk⟩ := hr old ho
    refine ⟨new, hn, hs.trans ha, ?_, fun result hOk => hs ▸ hb result hOk⟩
    rcases hk with hc | hk
    · exact .inl hc
    · exact hp.imp hk.trans hk.trans

theorem Consistent.finish_same (h : Consistent s) (call : Nat) (result : Except CallError Result) :
    Consistent (s.finish call s.row none result) :=
  h.finish_none fun old ho => ⟨old, ho, rfl, .inr rfl⟩

theorem Consistent.read (h : Consistent s) (call : Nat) (kind : Kind) (reply : Reply) :
    Consistent (s.read call kind reply) := by
  rw [World.read]
  split
  · exact h.finish_same ..
  · exact h.finish_same ..
  · exact ⟨h.pair⟩

theorem set_row (config : WebhookConfig) (now : Int) (reply : Reply) (row : Option ConfigRow) :
    (set config now reply row).2 = row ∨
      (set config now reply row).2 = some (upsert config now row) := by
  unfold set
  split
  · exact .inl rfl
  · cases reply with
    | ok => exact .inr rfl
    | lost => exact .inr rfl
    | failed => exact .inl rfl

theorem Consistent.revoke (h : Consistent s)
    (hc : s.row.map ConfigRow.secret = some config.secret) (call : Nat) (now : Int)
    (reply : Reply) : Consistent (s.revoke call config now reply) := by
  apply h.finish_none
  intro old ho
  rcases set_row { config with previousSecret := none } now reply s.row with hr | hr
  · exact ⟨old, hr.trans ho, rfl, .inr rfl⟩
  · refine ⟨_, hr, ?_, .inl rfl⟩
    rw [ho] at hc
    exact (Option.some.inj hc).symm

theorem Consistent.finish_some {old : ConfigRow} {rotation : Rotation} {now : Int}
    (hp : rotation.previousSecret = old.secret)
    (hr : ∀ told, result = .ok told → told.secret = rotation.newSecret) :
    Consistent (s.finish call (some (old.rotate rotation now))
      (some ⟨rotation.newSecret, old.secret⟩) result) where
  pair hl ha := by
    simp only [World.lastRotation, World.finish, reverse_concat, find?_cons,
      isSome_some] at hl
    cases hl
    cases ha
    refine ⟨_, rfl, rfl, ?_, hr⟩
    rw [mapToConfig, ConfigRow.rotate, hp]
    by_cases he : old.secret = ""
    · exact .inl (by simp [orUndefined, he])
    · exact .inr (by simp [orUndefined, he])

theorem Consistent.rotate (h : Consistent s)
    (hu : s.row.map ConfigRow.secret = some config.secret) (call : Nat) (kind : Kind)
    (random : List UInt8) (clock now : Int) (reply : Reply) :
    Consistent (s.rotate call kind (rotationOf config random clock) clock now reply) := by
  obtain ⟨old, ho, hs⟩ := map_eq_some_iff.mp hu
  by_cases hc : (rotationOf config random clock).isComplete s.id = true
  · cases reply with
    | failed =>
      simp only [World.rotate, rotateSecret, replacedSecret, hc]
      exact h.finish_same ..
    | ok =>
      simp only [World.rotate, rotateSecret, replacedSecret, hc, ho]
      apply Consistent.finish_some hs.symm
      intro told ht
      cases ht
      unfold rotationResult
      split <;> rfl
    | lost =>
      simp only [World.rotate, rotateSecret, replacedSecret, hc, ho]
      apply Consistent.finish_some hs.symm
      intro told ht
      cases ht
  · simp only [World.rotate, rotateSecret, replacedSecret, hc]
    exact h.finish_same ..

theorem Consistent.step {a : Action} {t : World} (h : Consistent s) (ha : CopyIsCurrent a s)
    (hs : SecretRotation.step a s = some t) : Consistent t := by
  cases a with
  | read =>
    obtain ⟨-, hw⟩ := ite_none_right_eq_some.mp hs
    cases hw
    exact h.read ..
  | write =>
    rw [SecretRotation.step] at hs
    split at hs
    · cases hs
    · next config hc =>
      cases hs
      exact h.revoke (by simpa [CopyIsCurrent, hc] using ha) ..
    · next kind config hk hc =>
      obtain ⟨-, hw⟩ := ite_none_right_eq_some.mp hs
      cases hw
      exact h.rotate (by simpa [CopyIsCurrent, hc] using ha) ..

/-- Where each call writes only while the secret it has read is the stored one, the stored pair is
always that of the last rotation. -/
theorem rotations_consistent (s t : World) (actions : List Action) (hStart : s.log = [])
    (hCopies : Along step CopyIsCurrent actions s) (hRun : run step actions s = some t) :
    Consistent t :=
  run_invariant Consistent (fun _ _ _ ho hc hs => ho.step hc hs)
    ⟨by simp [World.lastRotation, hStart]⟩ hCopies hRun

def storedRow : ConfigRow :=
  ⟨"https://a.example", "first", none, none, 0, true, ["bond.created"], 0⟩

def stored : World := ⟨"w1", some storedRow, [], []⟩

def rotatedInTurn : List Action := [.read 0 .rotate .ok, .write 0 (replicate 32 1) 10 10 .ok,
    .read 1 .rotateByRotationService .ok, .write 1 (replicate 32 2) 20 20 .ok,
    .read 2 .revoke .ok, .write 2 [] 30 30 .ok]

def overlappingRotations : List Action :=
  [.read 0 .rotate .ok, .read 1 .rotateByRotationService .ok,
    .write 0 (replicate 32 1) 10 10 .ok, .write 1 (replicate 32 2) 11 11 .ok]

def staleRevocation : List Action :=
  [.read 0 .revoke .ok, .read 1 .rotate .ok, .write 1 (replicate 32 1) 10 10 .ok,
    .write 0 [] 11 11 .ok]

theorem rotations_consistent_inTurn :
    ∃ t, run step rotatedInTurn stored = some t ∧ t.log.length = 3 ∧ Consistent t := by
  have hr : run step rotatedInTurn stored = some _ := rfl
  exact ⟨_, hr, rfl, rotations_consistent stored _ rotatedInTurn rfl (by decide +kernel) hr⟩

def World.secrets (s : World) : Option (String × Option String) × Option Replacement :=
  (s.row.map fun row => (row.secret, orUndefined row.previousSecret),
    s.lastRotation.bind Finished.replacement)

theorem not_consistent {secret newSecret replaced : String} {previous : Option String}
    (hs : s.secrets = (some (secret, previous), some ⟨newSecret, replaced⟩))
    (hw : secret ≠ newSecret ∨ previous ≠ none ∧ previous ≠ some replaced) :
    ¬ Consistent s := by
  intro h
  obtain ⟨hp, hl⟩ := Prod.mk.inj hs
  obtain ⟨last, hl, hr⟩ := bind_eq_some_iff.mp hl
  obtain ⟨row, ha, he, hb, -⟩ := h.pair hl hr
  rw [ha, map_some, Option.some.injEq] at hp
  cases hp
  rcases hw with hw | ⟨hn, ho⟩
  · exact hw he
  · exact hb.elim hn ho

/-- After overlapping rotations the previous secret is not the replaced one; after a stale
revocation the secret of the last rotation is gone. -/
theorem overlapping_calls_lose_secrets :
    (∃ t, run step overlappingRotations stored = some t ∧ ¬ Consistent t) ∧
      ∃ t, run step staleRevocation stored = some t ∧ ¬ Consistent t := by
  constructor
  · exact ⟨_, rfl, not_consistent rfl (by decide +kernel)⟩
  · exact ⟨_, rfl, not_consistent rfl (by decide +kernel)⟩

end Credence.Webhooks.SecretRotation
