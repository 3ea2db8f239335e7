import Maju.Lib.HashMap
import Maju.Lib.OrderedSet
import Maju.Lib.Index
import Maju.Lib.Hex
import Maju.Lib.Buckets
import Maju.Lib.Run
import Maju.Lib.Slots
import Maju.Lib.Counting
import Maju.Lib.Paging
import Maju.Lib.Bytes
import Maju.Lib.Decimal
import Maju.Lib.HashChain
import Maju.Lib.Json
import Maju.Lib.SortedMap
import Maju.Lib.Text
import Maju.Lib.Trace
import Maju.Lib.Versioned
import Maju.Lib.Lockstep
import Maju.Lib.JsMap
import Maju.Lib.MaxRegister
import Maju.Lib.Utf8
import Maju.Lib.Outcome
import Maju.Lib.Brackets
import Maju.Lib.Framing
import Maju.Lib.Shell
import Maju.Lib.Slice
import Maju.Lib.TypedStore
import Maju.Lib.Search
import Maju.Lib.Delimited
import Maju.Lib.Loop
import Maju.Lib.JsonValue
import Maju.Lib.Base64
import Maju.Lib.Keyset
import Maju.Lib.SingleFlight
import Maju.Core.Nostr
import Maju.Core.Kind
import Maju.Core.Filter
import Maju.Core.GitPerms.Evaluate
import Maju.Core.GitPerms.Tighten
import Maju.Core.Pairing.Qr
import Maju.Core.Pairing.Session
import Maju.Core.Pairing.Atomic
import Maju.Core.Pairing.Effects
import Maju.Core.Pairing.Protocol
import Maju.Core.Pairing.Safety
import Maju.Core.Engram.Body
import Maju.Core.Engram.Envelope
import Maju.Core.Engram.Head
import Maju.Core.Engram.Refs
import Maju.Core.Engram.Slug
import Maju.Core.GitPerms.Language
import Maju.Ifc.Label
import Maju.Ifc.FlowState
import Maju.Db.Rows
import Maju.Db.Query
import Maju.Db.Timeline
import Maju.Db.Heads
import Maju.Db.Replaceable
import Maju.Db.Invites.Accounting
import Maju.Db.Invites.Redemption
import Maju.Db.Threads.Counters
import Maju.Db.Threads.Metadata
import Maju.Db.Deletion.ServingLeases
import Maju.Db.Deletion.WriteFence
import Maju.Db.Reactions.Transactions
import Maju.Db.Reactions.Agreement
import Maju.Db.Window
import Maju.Pubsub.Topic
import Maju.Pubsub.RunnerExclusion
import Maju.Pubsub.RunnerLease
import Maju.Audit.Chain
import Maju.Audit.Interleaving
import Maju.Audit.Tamper
import Maju.Audit.Preimage
import Maju.Audit.Canonical
import Maju.Relay.Subscription.Registry
import Maju.Relay.Subscription.Invariant
import Maju.Relay.Subscription.Runs
import Maju.Relay.Subscription.FanOut
import Maju.Relay.Lifecycle.Model
import Maju.Relay.Lifecycle.Topics
import Maju.Relay.Lifecycle.Orderly
import Maju.Relay.Lifecycle.Turns
import Maju.Relay.Lifecycle.Preservation
import Maju.Relay.Lifecycle.Runs
import Maju.Relay.Read.Gates
import Maju.Relay.Read.Request
import Maju.Relay.Read.Access
import Maju.Relay.Read.Pushdown
import Maju.Relay.Read.Count
import Maju.Relay.Read.CountExact
import Maju.Relay.Read.History
import Maju.Relay.Read.Reach
import Maju.Relay.Read.HistoryExact
import Maju.Relay.Live.Surfaces
import Maju.Relay.Live.Visibility
import Maju.Relay.Git.Manifest
import Maju.Relay.Git.Publish
import Maju.Relay.Git.Protocol
import Maju.Relay.Git.Closure
import Maju.Relay.Git.Linear
import Maju.Relay.Git.Size
import Maju.Relay.Git.LongNames
import Maju.Relay.Tunnel.Directory
import Maju.Relay.Tunnel.Fencing
import Maju.Relay.Tunnel.Runs
import Maju.Relay.Mesh.Convergence
import Maju.Relay.Mesh.Gossip
import Maju.Relay.Mesh.Membership
import Maju.Relay.Audio.Admission
import Maju.Relay.Audio.Replication
import Maju.Relay.Audio.Room
import Maju.Relay.Audio.Roster
import Maju.Relay.Audio.Owners
import Maju.Relay.Audio.OwnerDrain
import Maju.Relay.Audio.OwnerLeases
import Maju.Relay.Admin.Authorize
import Maju.Relay.Admin.Once
import Maju.Relay.Tunnel.Reliable
import Maju.Relay.Tunnel.Delivery
import Maju.Relay.Audio.Control
import Maju.Relay.Audio.Manager
import Maju.Relay.Audio.Departure
import Maju.Relay.Audio.Teardown
import Maju.Relay.Audio.Validation
import Maju.Relay.Git.Codec
import Maju.Relay.Git.Hook
import Maju.Relay.Git.Callback
import Maju.Relay.Live.Frame
import Maju.Relay.Git.PackCache
import Maju.Agent.Permission.Broker
import Maju.Agent.Permission.Safety
import Maju.Agent.Run.History
import Maju.Agent.Run.Loop
import Maju.Agent.Run.Delivery
import Maju.Agent.Run.Valid
import Maju.Agent.Usage
import Maju.Agent.Mcp.Restart
import Maju.Agent.Mcp.ToolResult
import Maju.Agent.Run.HandoffPrompt
import Maju.Agent.Run.Bounded
import Maju.Acp.Queue.EventQueue
import Maju.Acp.Queue.Harness
import Maju.Acp.Queue.Conservation
import Maju.Acp.Queue.Bounds
import Maju.Acp.Queue.Fairness
import Maju.Acp.Usage.Tracker
import Maju.Acp.Queue.Readiness
import Maju.Acp.Queue.Drain
import Maju.Acp.Usage.Accounting
import Maju.Acp.Usage.Connection
import Maju.Acp.Usage.Counts
import Maju.Acp.Usage.Session
import Maju.Acp.Queue.SlashCommand
import Maju.PushGateway.Authority
import Maju.PushGateway.Memory
import Maju.PushGateway.Postgres
import Maju.PushGateway.Grants
import Maju.PushGateway.MemoryGrants
import Maju.PushGateway.PostgresGrants
import Maju.PushGateway.Safety
import Maju.PushGateway.Agreement
import Maju.Workflow.Cron
import Maju.Workflow.Engine
import Maju.Workflow.Schedule
import Maju.Workflow.Interval
import Maju.Workflow.Template
import Maju.Workflow.Condition
import Maju.Workflow.Definition
import Maju.Auth.Nip98
import Maju.Desktop.ReadState.Convergence
import Maju.Desktop.ReadState.Format
import Maju.Desktop.ReadState.Manager
import Maju.Desktop.ReadState.Arrival
import Maju.Desktop.ReadState.Budget
import Maju.GitSign.Binding
import Maju.GitSign.Envelope
import Maju.GitSign.Armor
import Maju.GitSign.Conditions
import Maju.DevMcp.StrReplace
import Maju.Media.MoovFirst
import Maju.Media.Mp4
import Maju.Media.Checked
import Maju.Media.Jpeg
import Maju.Media.Png
import Maju.Media.Gif
import Maju.Media.Image
import Maju.Media.Webp
