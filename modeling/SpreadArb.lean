import SpreadArb.Interact.Program
import SpreadArb.Interact.Join
import SpreadArb.Interact.Protocol
import SpreadArb.Interact.Pool
import SpreadArb.Interact.Steps
import SpreadArb.Interact.Trace
import SpreadArb.Interact.Rest
import SpreadArb.Numeric.Rounding
import SpreadArb.Numeric.F64
import SpreadArb.Numeric.Grid
import SpreadArb.Types
import SpreadArb.Backend
import SpreadArb.Retry
import SpreadArb.DepthChecker
import SpreadArb.PriceChaser
import SpreadArb.Entry
import SpreadArb.PaperEntry
import SpreadArb.HedgeLocks
import SpreadArb.FillProbability
import SpreadArb.Portfolio
import SpreadArb.Runner
import SpreadArb.Monitor
import SpreadArb.ScanLoop
import SpreadArb.OrderBackends
import SpreadArb.Market
import SpreadArb.ExchangeParser
import SpreadArb.Detector
import SpreadArb.Feed
import SpreadArb.Dashboard
import SpreadArb.Pipeline
import SpreadArb.SymbolCalls
import SpreadArb.Queues
import SpreadArb.Persistence
import SpreadArb.Proofs.Book
import SpreadArb.Proofs.Frame
import SpreadArb.Proofs.Polling
import SpreadArb.Proofs.Sections
import SpreadArb.Proofs.Close
import SpreadArb.Proofs.Hedge
import SpreadArb.Proofs.Unwind
import SpreadArb.Proofs.Neutral
import SpreadArb.Proofs.Agree
import SpreadArb.Proofs.Locks
import SpreadArb.Proofs.Flags
import SpreadArb.Proofs.Foreign
import SpreadArb.Proofs.Requests
import SpreadArb.Proofs.Shards
import SpreadArb.Proofs.Halt
import SpreadArb.Proofs.Timeout
import SpreadArb.Proofs.Ledger
import SpreadArb.Proofs.Tally
import SpreadArb.Proofs.StatusContract
import SpreadArb.Proofs.Detection
import SpreadArb.Proofs.Quotes
import SpreadArb.Proofs.Stores
import SpreadArb.Proofs.Display
import SpreadArb.Proofs.Ids
import SpreadArb.Proofs.Queue
import SpreadArb.Proofs.Races
import SpreadArb.Proofs.Handover
import SpreadArb.Proofs.Origins
import SpreadArb.Proofs.Oversold
import SpreadArb.Proofs.Funding
import SpreadArb.Proofs.LegOuts
import SpreadArb.Proofs.Booking
import SpreadArb.Service
import SpreadArb.Proofs.Shutdown
import SpreadArb.Proofs.Levels
import SpreadArb.Proofs.Quantity
import SpreadArb.Proofs.Depth
import SpreadArb.Proofs.PaperFills
import SpreadArb.Proofs.Probability
import SpreadArb.Numeric.Decimal
import SpreadArb.Proofs.Prices
import SpreadArb.Numeric.Lanes
import SpreadArb.PriceAvx512
import SpreadArb.Proofs.Vectors
import SpreadArb.Proofs.Symbols
import SpreadArb.Assoc.Overlay
import SpreadArb.Bybit
import SpreadArb.Proofs.Tickers
import SpreadArb.Proofs.Exposure
import SpreadArb.Proofs.StoreMap
import SpreadArb.Numeric.Sorted
import SpreadArb.Workers
import SpreadArb.Proofs.Workers
import SpreadArb.TestMetrics
import SpreadArb.Proofs.Percentiles
import SpreadArb.RateLimiter
import SpreadArb.Proofs.Rate
import SpreadArb.LatencyTracker
import SpreadArb.Proofs.Latency
import SpreadArb.Numeric.Binary64
import SpreadArb.Proofs.Averages
import SpreadArb.DemoClient
import SpreadArb.Proofs.BookCache
import SpreadArb.Numeric.ClockOffset
import SpreadArb.Proofs.Clock
import SpreadArb.Connectors
import SpreadArb.Proofs.Connectors
import SpreadArb.Proofs.Admission
import SpreadArb.Numeric.Fixed
import SpreadArb.OrderTexts
import SpreadArb.Proofs.Texts
import SpreadArb.ConfigStorage
import SpreadArb.Proofs.Chase
import SpreadArb.Proofs.Waiting
import SpreadArb.PortfolioStore
import SpreadArb.Proofs.Mirror
import SpreadArb.Interact.Served
import SpreadArb.BinanceOrders
import SpreadArb.Proofs.Placements
import SpreadArb.Proofs.Subscriptions
