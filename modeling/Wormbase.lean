import Wormbase.Py.Float
import Wormbase.Py.DateTime
import Wormbase.Py.Value
import Wormbase.Py.Json
import Wormbase.Py.Encode
import Wormbase.Py.Column
import Wormbase.Lib.HashChain
import Wormbase.Ledger.Entry
import Wormbase.Ledger.Tamper
import Wormbase.Ledger.Store
import Wormbase.Ledger.WritePrimitive
import Wormbase.Ledger.RoundTrip
import Wormbase.Ledger.Commit
import Wormbase.Ledger.Runs
import Wormbase.Lib.Unwinding
import Wormbase.Ledger.Tenants
import Wormbase.Ledger.AsOf
import Wormbase.Ledger.InMemory
import Wormbase.Ledger.Refinement
import Wormbase.Lib.Run
import Wormbase.Ledger.RefinementRuns
import Wormbase.Ledger.Concurrent
import Wormbase.Ledger.Serialise
import Wormbase.Reactivity.Runner
import Wormbase.Reactivity.NoLoss
import Wormbase.Reactivity.AtMostOnce
import Wormbase.Lib.Constraint
import Wormbase.Py.Coerce
import Wormbase.Py.IsoFormat
import Wormbase.Projection.Entry
import Wormbase.Projection.Agents
import Wormbase.Projection.Axes
import Wormbase.Projection.Build
import Wormbase.Projection.Parts
import Wormbase.Projection.AxisLaw
import Wormbase.Projection.Tables
import Wormbase.Projection.Constraints
import Wormbase.Projection.Isolation
import Wormbase.Projection.Grants
import Wormbase.Lib.Holding
import Wormbase.Projection.Written
import Wormbase.WriteActions.Pevr
import Wormbase.WriteActions.Persons
import Wormbase.WriteActions.Effects
import Wormbase.WriteActions.Deeds
import Wormbase.WriteActions.Requests
import Wormbase.WriteActions.Agreement
import Wormbase.WriteActions.Conservation
import Wormbase.Subscriptions.Filter
import Wormbase.Reactivity.Predicates
import Wormbase.Subscriptions.Dispatcher
import Wormbase.Subscriptions.Feedback
import Wormbase.Subscriptions.Delivery
import Wormbase.Governance.Classification
import Wormbase.Tenancy.Quota
import Wormbase.Projection.Lifecycle
import Wormbase.Projection.Migrate
import Wormbase.Lib.Join
import Wormbase.Projection.RowIds
import Wormbase.ChannelAdapters.RateLimit
import Wormbase.ChannelAdapters.WhatsappSend
import Wormbase.Lib.Window
import Wormbase.Projection.Runner
import Wormbase.Lib.Meter
import Wormbase.Reactivity.Budget
import Wormbase.Reactivity.Isolation
import Wormbase.Reactivity.OwnState
import Wormbase.Reactivity.StatementToOwner
import Wormbase.Reactivity.ProcessMapper
import Wormbase.Subscriptions.Resumption
import Wormbase.Gateway.CompiledSql
import Wormbase.Gateway.Redaction
import Wormbase.Gateway.LakeTools
import Wormbase.Gateway.Audit
import Wormbase.Gateway.Clustering
import Wormbase.WriteActions.Silent
import Wormbase.Lib.Balance
import Wormbase.McpTools.RoleGrants
import Wormbase.McpTools.RoleAgreement
import Wormbase.Readers.LakeReaders
import Wormbase.Readers.LakeScan
import Wormbase.Readers.LakeAgreement
import Wormbase.Readers.GatewayReaders
import Wormbase.Lib.LastWrite
import Wormbase.Readers.GatewayAgreement
import Wormbase.Gateway.Compounding
import Wormbase.Py.Decimal
import Wormbase.Gateway.OutcomePromotions
import Wormbase.Gateway.GapEscalation
import Wormbase.Gateway.PromotionKinds
import Wormbase.Gateway.PromotionSafety
import Wormbase.Gateway.PromotedKeys
import Wormbase.Gateway.PromotedOnce
import Wormbase.ChannelAdapter.SessionParser
import Wormbase.ChannelAdapter.Tailer
import Wormbase.ChannelAdapter.Tailing
import Wormbase.ChannelAdapter.Scanning
import Wormbase.InferenceRouter.Router
import Wormbase.InferenceRouter.Transparent
import Wormbase.CredentialBroker.Brokers
import Wormbase.CredentialBroker.Revocation
import Wormbase.Governance.PIIGate
import Wormbase.Governance.InterjectionGate
import Wormbase.Governance.Clarifications
import Wormbase.Py.IsoRoundTrip
import Wormbase.Tools.Snapshot
import Wormbase.Py.SameText
import Wormbase.Tools.Exported
import Wormbase.Tools.AuditorAgreement
import Wormbase.Gateway.QueryAudit
import Wormbase.Py.FloatArith
import Wormbase.WormCore.CompositeScore
import Wormbase.WormCore.ScoreCounts
import Wormbase.Ledger.Actions
import Wormbase.Ledger.TimedActions
import Wormbase.Reactivity.Lifecycles
import Wormbase.Reactivity.Novelty
import Wormbase.Reactivity.Mentions
import Wormbase.CatalogMirror.Reactivities
import Wormbase.CatalogMirror.Imports
import Wormbase.ChatPresence.ChatStore
import Wormbase.ChatPresence.ChannelBudget
import Wormbase.IdentityTracker.PositionInference
import Wormbase.IdentityTracker.KnownPositions
import Wormbase.WormCore.SetupConversation
import Wormbase.WormCore.SetupProgress
import Wormbase.Gateway.ImpactBacking
import Wormbase.Reactivity.OwnerCooldown
import Wormbase.Lib.Slots
import Wormbase.ProcessExtractor.Similarity
import Wormbase.ProcessExtractor.Topics
import Wormbase.ProcessExtractor.Recurring
import Wormbase.Gateway.EntityStitch
import Wormbase.Gateway.StitchSymmetry
import Wormbase.Gateway.CatalogDrift
import Wormbase.Gateway.DriftDiff
import Wormbase.Lib.Recent
import Wormbase.Tools.Kpis
import Wormbase.Tools.KpiLatest
import Wormbase.Lib.Tally
import Wormbase.ProcessExtractor.SystemMap
import Wormbase.ProcessExtractor.MapCounts
import Wormbase.Lib.Passes
import Wormbase.Projection.Cycles
import Wormbase.WormCore.AuditTrail
import Wormbase.WormCore.WholeCycles
import Wormbase.Gateway.IdentityCycles
import Wormbase.Gateway.PairedRows
import Wormbase.Gateway.NamingMatch
import Wormbase.Lib.SlidingWindow
import Wormbase.Tenancy.RequestLimits
import Wormbase.ChannelAdapter.LedgerWriter
import Wormbase.Reactivity.ClockTicks
import Wormbase.ChannelAdapter.SlackCapture
import Wormbase.ChannelAdapter.LogTail
import Wormbase.Gateway.RedactedArgs
import Wormbase.Reactivity.MetricGap
import Wormbase.Gateway.LakeLoop
import Wormbase.IdentityTracker.ResourceOwnership
import Wormbase.IdentityTracker.OwnershipRuns
import Wormbase.Lib.Firsts
import Wormbase.WormCore.FirstKnowings
import Wormbase.WormCore.Unconfirmed
import Wormbase.ResearchLoop.KeepRate
import Wormbase.ResearchLoop.Budgets
import Wormbase.ChannelAdapter.LurkerDefault
import Wormbase.IdentityTracker.Resolver
