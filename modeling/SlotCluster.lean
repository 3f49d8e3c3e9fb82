import SlotCluster.Client.Attempt
import SlotCluster.Client.Discovery
import SlotCluster.Client.Dispatch
import SlotCluster.Client.Exchange
import SlotCluster.Client.Interleaving
import SlotCluster.Client.Operation
import SlotCluster.Client.Pipeline
import SlotCluster.Client.Program
import SlotCluster.Client.State
import SlotCluster.Command
import SlotCluster.Command.Table
import SlotCluster.Fault
import SlotCluster.Merge
import SlotCluster.Node
import SlotCluster.Pool
import SlotCluster.Registry
import SlotCluster.Reply
import SlotCluster.Reply.Decoder
import SlotCluster.Reply.Reader
import SlotCluster.Routing
import SlotCluster.Scripted.Network
import SlotCluster.Scripted.Session
import SlotCluster.ServerError
import SlotCluster.Settings
import SlotCluster.Simulated.Layout
import SlotCluster.Simulated.Network
import SlotCluster.Simulated.Session
import SlotCluster.Slot
import SlotCluster.Text.Blank
import SlotCluster.Text.Bytes
import SlotCluster.Text.Decimal
import SlotCluster.Text.Printable
import SlotCluster.Text.Quoted
import SlotCluster.Text.Utf8
import SlotCluster.Topology
import SlotCluster.Transport
import SlotCluster.Transport.Endpoints
import SlotCluster.Proofs.Attempts
import SlotCluster.Proofs.AttemptBudget
import SlotCluster.Proofs.Canned
import SlotCluster.Proofs.Contacts
import SlotCluster.Proofs.Interleavings
import SlotCluster.Proofs.PlainRequests
import SlotCluster.Proofs.Protocols
import SlotCluster.Proofs.RefreshLock
import SlotCluster.Proofs.Runs
import SlotCluster.Proofs.PendingRefresh
import SlotCluster.Proofs.RefreshInFlight
import SlotCluster.Proofs.FailedRefresh
import SlotCluster.Proofs.Strands
import SlotCluster.Proofs.Grips
import SlotCluster.Proofs.ReplyQueues
import SlotCluster.Proofs.LinkBooks
import SlotCluster.Proofs.PoolBooks
import SlotCluster.Proofs.Bookkeeping
import SlotCluster.Proofs.ReplyIsolation
import SlotCluster.Proofs.Turnovers
import SlotCluster.Proofs.Upkeep
import SlotCluster.Proofs.Batches
import SlotCluster.Proofs.ResultTable
import SlotCluster.Proofs.PipelineResults
import SlotCluster.Proofs.PipelineVerdicts
import SlotCluster.Proofs.Transactions
import SlotCluster.Proofs.SlotTables
import SlotCluster.Proofs.Topologies
import SlotCluster.Proofs.Readings
import SlotCluster.Proofs.Surveys
import SlotCluster.Proofs.DiscoveryOutcomes
import SlotCluster.Proofs.DiscoverySoundness
import SlotCluster.Proofs.Dealings
import SlotCluster.Proofs.OperationUses
import SlotCluster.Proofs.RegistryIntegrity
import SlotCluster.Proofs.PoolAccounts
import SlotCluster.Proofs.LinkOrigins
import SlotCluster.Proofs.ResetBarrier
import SlotCluster.Proofs.Contracts
import SlotCluster.Proofs.FaultKinds
import SlotCluster.Proofs.OneSlotTransactions
import SlotCluster.Proofs.OperationFaults
import SlotCluster.Proofs.SoloRequests
import SlotCluster.Proofs.SlotCoverage
import SlotCluster.Proofs.Numerals
import SlotCluster.Proofs.Pieces
import SlotCluster.Proofs.BlockReading
import SlotCluster.Proofs.WireForm
import SlotCluster.Proofs.Chunks
import SlotCluster.Proofs.CommandPacking
import SlotCluster.Proofs.RoutingViews
import SlotCluster.Proofs.CommandNames
import SlotCluster.Proofs.LetterCase
import SlotCluster.Proofs.KeyLayouts
import SlotCluster.Proofs.RefusedCommands
import SlotCluster.Proofs.Broadcasts
import SlotCluster.Proofs.CalmAnswers
import SlotCluster.Proofs.DiscoveryTurns
import SlotCluster.Proofs.CheckedPaths
import SlotCluster.Proofs.SharedDiscovery
import SlotCluster.Proofs.MergeRules
import SlotCluster.Proofs.MergedNumbers
import SlotCluster.Proofs.MovedSlots
import SlotCluster.Proofs.RequestEffects
import SlotCluster.Proofs.Checksums
import SlotCluster.Proofs.StreamReads
import SlotCluster.Proofs.HashTags
import SlotCluster.Proofs.MergedViews
import SlotCluster.Proofs.LogicalMerges
import SlotCluster.Proofs.Spellings
import SlotCluster.Proofs.NodeAddresses
import SlotCluster.Proofs.NumericMerges
import SlotCluster.Proofs.OperationBodies
import SlotCluster.Proofs.MoveCounts
import SlotCluster.Proofs.RefreshCadence
import SlotCluster.Proofs.ServingNodes
import SlotCluster.Proofs.EncodedTexts
import SlotCluster.Proofs.LayoutReplies
import SlotCluster.Proofs.RegistryChanges
