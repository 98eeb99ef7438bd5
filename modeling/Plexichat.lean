import Plexichat.Encryption.BlindIndexRoot
import Plexichat.Encryption.KekMigration
import Plexichat.Encryption.FileRoundTrip
import Plexichat.Encryption.RatchetMembership
import Plexichat.Encryption.Snowflake
import Plexichat.Messaging.Scheduled
import Plexichat.Messaging.ReadMarkers
import Plexichat.Messaging.Revisions
import Plexichat.Messaging.EditEffect
import Plexichat.Messaging.BulkDelete
import Plexichat.Messaging.ConversationPages
import Plexichat.Messaging.DirectMessages
import Plexichat.Servers.Overrides
import Plexichat.Servers.BatchPermissions
import Plexichat.Servers.Templates
import Plexichat.Servers.CacheCoherence
import Plexichat.Servers.BanExclusion
import Plexichat.Servers.InviteUses
import Plexichat.RateLimit.Updates
import Plexichat.RateLimit.Bounds
import Plexichat.RateLimit.Requests
import Plexichat.Sum.Shifts
import Plexichat.Sum.Packing
import Plexichat.Sum.Grammar
import Plexichat.Sum.Budget
import Plexichat.Sum.Idempotence
import Plexichat.Sum.FullFile
import Plexichat.Sum.Container
import Plexichat.Sum.FormulaOrder
import Plexichat.Sum.Utf16
import Plexichat.Gateway.Resume
import Plexichat.Gateway.Workers
import Plexichat.Gateway.Presence
import Plexichat.Relationships.Races
import Plexichat.Polls.Races
import Plexichat.Stash.Exposure
import Plexichat.Database.Atomicity
import Plexichat.Database.Transparency
import Plexichat.Database.Threads
import Plexichat.Database.Pool
import Plexichat.Database.TwoTierCache
import Plexichat.Database.CacheKeys
import Plexichat.Database.CacheValues
import Plexichat.Database.Dialect
import Plexichat.Migrations.Gate
import Plexichat.Migrations.Dependencies
import Plexichat.Migrations.Workers
import Plexichat.Migrations.Uptime
import Plexichat.Threads.Counters
import Plexichat.Threads.Slowmode
import Plexichat.Reactions.Limits
import Plexichat.Reactions.Batch
import Plexichat.Events.Delivered
import Plexichat.Voice.Lifecycle
import Plexichat.Notifications.Counters
import Plexichat.Automod.Links
import Plexichat.Recording.Consent
import Plexichat.Media.ChunkIntegrity
import Plexichat.Media.ChunkProgress
import Plexichat.Media.Deduplication
import Plexichat.Media.FileAccess
import Plexichat.Media.SignedIntegrity
import Plexichat.Auth.Permissions
import Plexichat.Auth.Lockout
import Plexichat.Auth.SessionCap
import Plexichat.Auth.TakenOnce
import Plexichat.Auth.Sessions
import Plexichat.Auth.DeletionChain
import Plexichat.Stash.PurgeSafety
import Plexichat.Artifacts.PayloadWrites
import Plexichat.Artifacts.Replay
import Plexichat.Artifacts.RetentionKept
import Plexichat.Signatures.Acceptance
import Plexichat.Erasure.Spares
import Plexichat.Search.PageWalk
