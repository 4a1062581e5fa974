import Orderbook.F64
import Orderbook.Json
import Orderbook.Serde
import Orderbook.Model
import Orderbook.Exchange
import Orderbook.Exchange.Kraken
import Orderbook.Exchange.Binance
import Orderbook.Exchange.Bitstamp
import Orderbook.Merge
import Orderbook.Aggregator
import Orderbook.Feed
import Orderbook.Server
import Orderbook.Proxy
import Orderbook.Connect
import Orderbook.Fmt
import Orderbook.Client
import Orderbook.Viewer
import Orderbook.Report
import Orderbook.Main
import Orderbook.Misc.Machine
import Orderbook.Misc.OrderedMap
import Orderbook.Misc.StableMerge
import Orderbook.Misc.BTreeMap
import Orderbook.Misc.Crc32
import Orderbook.Misc.Ladder
import Orderbook.Misc.Repeats
import Orderbook.Misc.Spacing
import Orderbook.Misc.GreedyMerge
import Orderbook.Misc.Ranks
import Orderbook.Misc.Windows
import Orderbook.Misc.Decimal
import Orderbook.Misc.Buffered
import Orderbook.Misc.Cuts
import Orderbook.Misc.Ansi
import Orderbook.Misc.Lines
import Orderbook.Misc.Mpsc
import Orderbook.Misc.Factors
import Orderbook.Misc.Split
import Orderbook.Proofs.KrakenLevels
import Orderbook.Proofs.KrakenParse
import Orderbook.Proofs.KrakenAtomicity
import Orderbook.Proofs.KrakenReplay
import Orderbook.Proofs.KrakenTracking
import Orderbook.Proofs.KrakenFeed
import Orderbook.Proofs.KrakenRedelivery
import Orderbook.Proofs.KrakenOrder
import Orderbook.Proofs.ChecksumDigits
import Orderbook.Proofs.Merge
import Orderbook.Proofs.MergeLevels
import Orderbook.Proofs.Publish
import Orderbook.Proofs.DeepLevels
import Orderbook.Proofs.BitstampEvents
import Orderbook.Proofs.Overflow
import Orderbook.Proofs.MoreVenues
import Orderbook.Proofs.FiniteBooks
import Orderbook.Proofs.Connect
import Orderbook.Proofs.BookMessages
import Orderbook.Proofs.PriceOrder
import Orderbook.Proofs.Subscribers
import Orderbook.Proofs.ShownLevels
import Orderbook.Proofs.Staleness
import Orderbook.Proofs.Grace
import Orderbook.Proofs.ReportWindows
import Orderbook.Proofs.ConnectRate
import Orderbook.Proofs.ConnectCap
import Orderbook.Proofs.TokenBucket
import Orderbook.Proofs.BackoffLaw
import Orderbook.Proofs.Handshake
import Orderbook.Proofs.ShadeCell
import Orderbook.Proofs.FrameText
import Orderbook.Proofs.Frame
import Orderbook.Proofs.ProcessSteps
import Orderbook.Proofs.Delivery
import Orderbook.Proofs.Progress
import Orderbook.Proofs.FeedRuns
import Orderbook.Proofs.EndToEnd
import Orderbook.Proofs.Exits
import Orderbook.Proofs.Rounding
import Orderbook.Proofs.Decimals
import Orderbook.Proofs.Ticks
import Orderbook.Proofs.Spread
import Orderbook.Proofs.GridBooks
import Orderbook.Proofs.GridPublish
import Orderbook.Proofs.GridFrames
import Orderbook.Proofs.ViewerRuns
import Orderbook.Proofs.DepthBars
import Orderbook.Proofs.BasisPoints
import Orderbook.Proofs.ReportFigures
import Orderbook.Proofs.GridScreen
