import Iso8583Switch.Library.History
import Iso8583Switch.Flow.Refinement
import Iso8583Switch.Flow.Instances
import Iso8583Switch.Flow.Responders
import Iso8583Switch.Flow.Runs
import Iso8583Switch.Properties.Exclusion
import Iso8583Switch.Flow.Contexts
import Iso8583Switch.Properties.Idempotency
import Iso8583Switch.Properties.Timeout
import Iso8583Switch.Properties.Phantom
import Iso8583Switch.Properties.Decision
import Iso8583Switch.Properties.Sweep
import Iso8583Switch.Properties.AutoReversal
import Iso8583Switch.Properties.HsmPath
import Iso8583Switch.Flow.Wire
import Iso8583Switch.Properties.Correlation
import Iso8583Switch.Properties.Delivery
import Iso8583Switch.Daemon.HotReload
import Iso8583Switch.Library.LongestPrefix
import Iso8583Switch.Properties.RoutingTable
import Iso8583Switch.Journal.Wal
import Iso8583Switch.Journal.Settle
import Iso8583Switch.Properties.JournalFile
import Iso8583Switch.Journal.Live
import Iso8583Switch.Properties.LiveJournal
import Iso8583Switch.Library.FieldWalk
import Iso8583Switch.Dialect.Universal
import Iso8583Switch.Properties.UniversalCodec
import Iso8583Switch.Flow.Paths
import Iso8583Switch.Properties.StipBalance
import Iso8583Switch.Properties.ForwardingGate
import Iso8583Switch.Journal.Attached
import Iso8583Switch.Properties.WriteAhead
import Iso8583Switch.Properties.Settlement
import Iso8583Switch.Engine.Ledger
import Iso8583Switch.Properties.SliceSafety
import Iso8583Switch.Properties.Conservation
import Iso8583Switch.Daemon.GeneralLedger
import Iso8583Switch.Properties.ReversedSettlement
import Iso8583Switch.Flow.Solo
import Iso8583Switch.Properties.ReversalFrame
import Iso8583Switch.Properties.RiskScreen
import Iso8583Switch.Properties.Sanctions
import Iso8583Switch.Properties.PinBlocks
import Iso8583Switch.Properties.ReversalDelivery
import Iso8583Switch.Engine.Background
import Iso8583Switch.Properties.InstanceExact
import Iso8583Switch.Hsm.HsmClient
import Iso8583Switch.Properties.HsmAnswers
import Iso8583Switch.Edge.UpstreamClient
import Iso8583Switch.Properties.StoreAndForward
import Iso8583Switch.Edge.Places
import Iso8583Switch.Daemon.EgressClients
import Iso8583Switch.Properties.SharedStore
import Iso8583Switch.Library.Framing
import Iso8583Switch.Edge.Iso8583Codec
import Iso8583Switch.Hsm.ThalesCodec
import Iso8583Switch.Properties.StreamFraming
import Iso8583Switch.Dialect.Responses
import Iso8583Switch.Properties.CodecAgreement
import Iso8583Switch.Library.LossyText
import Iso8583Switch.Properties.DialectRoundTrips
import Iso8583Switch.Properties.ParsedEvents
import Iso8583Switch.Properties.EgressFidelity
import Iso8583Switch.Ops.Tables
import Iso8583Switch.Ops.Publish
import Iso8583Switch.Properties.Publishing
import Iso8583Switch.Properties.LiveVersions
import Iso8583Switch.Journal.Cutoff
import Iso8583Switch.Properties.IncrementalSweep
import Iso8583Switch.Properties.CutoffReports
import Iso8583Switch.Library.FieldLayout
import Iso8583Switch.Properties.WireMessages
import Iso8583Switch.Properties.WireDecoding
import Iso8583Switch.Properties.EmptyBitmaps
import Iso8583Switch.Properties.ReplayedAdvice
import Iso8583Switch.Properties.GuardKeys
import Iso8583Switch.Engine.LedgerBatches
import Iso8583Switch.Properties.LedgerPosting
import Iso8583Switch.Engine.HotCaches
import Iso8583Switch.Properties.CacheFreshness
import Iso8583Switch.Properties.HsmRequests
import Iso8583Switch.Properties.HsmStream
import Iso8583Switch.Library.WrappingCounter
import Iso8583Switch.Properties.CorrelationNumbers
import Iso8583Switch.Properties.IngressSessions
import Iso8583Switch.Edge.ReplyWriter
import Iso8583Switch.Properties.ReplyOrder
import Iso8583Switch.Edge.BankLink
import Iso8583Switch.Properties.BankAnswers
import Iso8583Switch.Properties.BankLinks
import Iso8583Switch.Daemon.Clearing
import Iso8583Switch.Properties.ClearedPayments
import Iso8583Switch.Properties.HsmVerdicts
import Iso8583Switch.Properties.EchoedAnswers
import Iso8583Switch.Daemon.Network
import Iso8583Switch.Properties.TerminalAnswers
import Iso8583Switch.Library.Dialogue
import Iso8583Switch.Properties.TerminalDialogues
import Iso8583Switch.Properties.NodeFailover
import Iso8583Switch.Daemon.Operated
import Iso8583Switch.Daemon.SecuredEngine
import Iso8583Switch.Properties.OperatedTables
import Iso8583Switch.Daemon.Bookkeeping
import Iso8583Switch.Properties.LiquidityReport
import Iso8583Switch.Properties.WaitingTerminals
import Iso8583Switch.Properties.VettedRequests
import Iso8583Switch.Library.InPlaceUpdate
import Iso8583Switch.Daemon.PolledEngine
import Iso8583Switch.Properties.SanctionsPolls
