import MmEngine.Analysis.RingRefinement
import MmEngine.Analysis.DoubleQuote
import MmEngine.Analysis.LiveQuotes
import MmEngine.Analysis.SelfCross
import MmEngine.Analysis.LostReports
import MmEngine.Analysis.SymbolSafety
import MmEngine.Analysis.SenderGate
import MmEngine.Analysis.ForeignReports
import MmEngine.Analysis.StuckQuotes
import MmEngine.Analysis.OpenOrders
import MmEngine.Analysis.Quoting
import MmEngine.Analysis.MissingPrices
import MmEngine.Analysis.MarketView
import MmEngine.Analysis.OrderIdReuse
import MmEngine.Analysis.SymbolIsolation
import MmEngine.Analysis.Percentiles
import MmEngine.Analysis.DumpRows
import MmEngine.Analysis.TradeHistory
import MmEngine.Analysis.LastRecords
import MmEngine.Analysis.ClosingReports
import MmEngine.Analysis.PercentileAccuracy
import MmEngine.Analysis.FailedBegin
import MmEngine.Analysis.ConfigLayout
import MmEngine.Analysis.SeparatorSpaces
import MmEngine.Analysis.BookDepth
import MmEngine.Analysis.Replay
import MmEngine.Analysis.StoreScan
import MmEngine.Analysis.IdRoundTrip
import MmEngine.Analysis.VisibleVwap
import MmEngine.Analysis.PoolSound
import MmEngine.Analysis.HighWaterMarks
import MmEngine.Analysis.MockFraming
import MmEngine.Analysis.FillSchedule
import MmEngine.Analysis.MockRefinement
import MmEngine.Analysis.ConcurrentHistogram
import MmEngine.Analysis.OpsLog
import MmEngine.Analysis.ShutdownEnds
import MmEngine.Analysis.SendLock
import MmEngine.Analysis.FreshOrders
import MmEngine.Analysis.Accounting
import MmEngine.Analysis.LoadTest
import MmEngine.Analysis.MockTrades
import MmEngine.Analysis.SavedBooks
import MmEngine.Analysis.PublishedCounts
import MmEngine.Analysis.StoreDump
