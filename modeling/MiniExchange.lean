import MiniExchange.OrderBook.WellFormed
import MiniExchange.OrderBook.PoolHistory
import MiniExchange.OrderBook.LevelHistory
import MiniExchange.Engine.PriceTimePriority
import MiniExchange.Engine.LevelLifetime
import MiniExchange.Engine.BookInvariant
import MiniExchange.Engine.Uncrossed
import MiniExchange.Engine.EventDepth
import MiniExchange.Engine.OrderByOrder
import MiniExchange.Engine.OrderLedger
import MiniExchange.Engine.Mirror
import MiniExchange.Engine.Untraded
import MiniExchange.Engine.Slicing
import MiniExchange.Engine.SelfTrade
import MiniExchange.Engine.IdDiscipline
import MiniExchange.Engine.Termination
import MiniExchange.Risk.Filter
import MiniExchange.Risk.PriceBand
import MiniExchange.Risk.Limits
import MiniExchange.Protocol.ErrorReplies
import MiniExchange.Protocol.GatewayCodec
import MiniExchange.Cli.CliParser
import MiniExchange.Cli.Session
import MiniExchange.Feed.BookBuilder
import MiniExchange.Feed.QuoteInvariants
import MiniExchange.Feed.TrueQuotes
import MiniExchange.Feed.ViewOrder
import MiniExchange.Feed.QueuedEventSink
import MiniExchange.Feed.GapLog
import MiniExchange.LockFree.SpscRingBuffer
import MiniExchange.LockFree.IndexWrap
import MiniExchange.Server.Shutdown
import MiniExchange.Server.FrameLimit
import MiniExchange.Server.Handlers
import MiniExchange.Tcp.Disconnect
import MiniExchange.Tcp.Batch
import MiniExchange.Tcp.OutboundStream
import MiniExchange.Server.Exchange
import MiniExchange.Fix.RoundTrip
import MiniExchange.Fix.Corruption
import MiniExchange.Fix.OrderStatus
import MiniExchange.Fix.ReportNumbers
import MiniExchange.Strategy.MarketMaker
import MiniExchange.Strategy.Settling
import MiniExchange.Tools.WorkloadGenerator
