import RoqCme.Lib.KeyedBuffer
import RoqCme.Lib.Bytes
import RoqCme.Api
import RoqCme.Mdp.Frame
import RoqCme.Mdp.Messages
import RoqCme.Tools.Security
import RoqCme.MarketData.Channel
import RoqCme.MarketData.Arbitration
import RoqCme.MarketData.SecurityDefinitions
import RoqCme.MarketData.Incremental
import RoqCme.MarketData.Recovery
import RoqCme.MarketData.Manager
import RoqCme.MarketData.SnapshotAssembly
import RoqCme.MarketData.SnapshotIntegrity
import RoqCme.MarketData.Feeds
import RoqCme.MarketData.Reports
import RoqCme.MarketData.Views
import RoqCme.MarketData.ReportSequence
import RoqCme.MarketData.ForcedSnapshots
import RoqCme.MarketData.OptIn
import RoqCme.Ilink.Parser
import RoqCme.Gateway.OrderEntry
import RoqCme.Gateway.PriceScale
import RoqCme.Gateway.SymbolIndex
import RoqCme.Lib.Unwinding
import RoqCme.MarketData.Locality
import RoqCme.MarketData.ChannelIsolation
import RoqCme.MarketData.ResetOrder
import RoqCme.MarketData.OrderEvents
import RoqCme.MarketData.ResetFragments
import RoqCme.Lib.Replay
import RoqCme.MarketData.BookReplay
import RoqCme.MarketData.SkippedPackets
import RoqCme.MarketData.FreshStart
import RoqCme.MarketData.InstrumentSources
import RoqCme.Gateway.Session
import RoqCme.Lib.Numbering
import RoqCme.Gateway.SequenceNumbers
import RoqCme.Gateway.KeepAlive
import RoqCme.Ilink.Prices
import RoqCme.Gateway.Controller
import RoqCme.Gateway.Readiness
import RoqCme.Lib.Slices
import RoqCme.MarketData.SummaryOrders
import RoqCme.MarketData.OrderAccess
import RoqCme.MarketData.SummaryFragments
import RoqCme.Lib.Runs
import RoqCme.MarketData.FullBuffer
import RoqCme.MarketData.LongQuantities
import RoqCme.MarketData.PriceRuns
import RoqCme.MarketData.RawPrices
import RoqCme.MarketData.DisplayFactors
import RoqCme.Gateway.RequestIds
import RoqCme.Gateway.Refusals
import RoqCme.MarketData.EmptySnapshots
import RoqCme.MarketData.StatusAddressees
import RoqCme.Mdp.Parser
import RoqCme.MarketData.Packets
import RoqCme.MarketData.OrderReferences
import RoqCme.MarketData.EventAssembly
import RoqCme.Secdef.ConfigReader
import RoqCme.Secdef.Records
import RoqCme.Lib.Duplication
import RoqCme.MarketData.DuplicateChunks
import RoqCme.MarketData.HeldPackets
import RoqCme.MarketData.SecurityRuns
import RoqCme.Ilink.Encoders
import RoqCme.Lib.RecordReader
import RoqCme.Mdp.ConfigReader
import RoqCme.Ilink.ConfigReader
import RoqCme.Mdp.ChannelRecords
import RoqCme.Gateway.Configuration
import RoqCme.MarketData.RedundantFeeds
import RoqCme.Lib.Table
import RoqCme.Mdp.Config
import RoqCme.MarketData.Streams
import RoqCme.Gateway.Handshake
import RoqCme.Gateway.Identifiers
import RoqCme.Gateway.Signature
import RoqCme.Import.Controller
import RoqCme.Import.Events
import RoqCme.Gateway.Receivers
import RoqCme.Import.AsLive
import RoqCme.Gateway.Connection
import RoqCme.MarketData.FoundSecurities
import RoqCme.MarketData.Introductions
import RoqCme.Filter.Controller
