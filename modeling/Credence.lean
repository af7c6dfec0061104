import Credence.Outbox.Shard
import Credence.Outbox.Delivery
import Credence.Outbox.Ordering
import Credence.Audit.Tamper
import Credence.Audit.PostgresVerify
import Credence.Audit.Interleaving
import Credence.Audit.Export
import Credence.Lib.Division
import Credence.Billing.FeeExact
import Credence.Wallets.Replay
import Credence.Horizon.Cursor
import Credence.Ingestion.Lifecycle
import Credence.Lease.Listener
import Credence.Verification.Tampering
import Credence.Settlements.Retry
import Credence.Credits.Ledger
import Credence.Credits.Charging
import Credence.Keys.CurrentKek
import Credence.Keys.DualControl
import Credence.Keys.ActiveKey
import Credence.Keys.TokenLifetime
import Credence.Db.Transaction
import Credence.Evidence.Rotation
import Credence.Members.LastOwner
import Credence.Idempotency.AtMostOnce
import Credence.ApiKeys.Revocation
import Credence.ApiKeys.Lifecycle
import Credence.Governance.Atomicity
import Credence.Governance.Authorisation
import Credence.Policy.Decisions
import Credence.Imports.Isolation
import Credence.Consumer.OnceOnly
import Credence.Guard.ExactlyOnce
import Credence.Webhooks.Admitted
import Credence.Rbac.Decisions
import Credence.Webhooks.DlqReplay
import Credence.Backfill.Resume
import Credence.Replay.AtMostOnce
import Credence.Webhooks.Delivered
import Credence.Notifications.Exclusive
import Credence.WorkerLease.Safety
import Credence.Clients.CircuitBreaker
import Credence.Bonds.Debit
import Credence.Horizon.WithdrawalPoller
import Credence.Replay.LedgerRange
import Credence.Webhooks.GracePeriod
import Credence.Bulk.Retry
import Credence.Governance.SlashingVotes
import Credence.Lib.SafeRedirect
import Credence.Bulk.FairQueue
import Credence.Cache.Layers
import Credence.RateLimit.NoisyKey
import Credence.Evidence.LegalHold
import Credence.Horizon.ParityReport
import Credence.Reputation.Score
import Credence.Ingestion.NodeLocks
import Credence.Jobs.RingBuffer
import Credence.Lib.Coalescing
import Credence.Reports.SignedLinks
import Credence.Webhooks.DlqListing
import Credence.Settlements.ShadowWrite
