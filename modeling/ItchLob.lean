import ItchLob.Shared.FiniteMap
import ItchLob.Shared.Framing
import ItchLob.Itch.Messages
import ItchLob.Itch.Parser
import ItchLob.Book.Resting
import ItchLob.Shared.Simulation
import ItchLob.Book.Locator
import ItchLob.Book.OrderBook
import ItchLob.Book.OrderBookRefinement
import ItchLob.Book.LadderBook
import ItchLob.Book.LadderSide
import ItchLob.Book.LadderRefinement
import ItchLob.Shared.Transition
import ItchLob.Pipeline.BookBuilder
import ItchLob.Pipeline.Differential
import ItchLob.Pipeline.SpscQueue
import ItchLob.Pipeline.TwoThreads
import ItchLob.Pipeline.Threaded
import ItchLob.Pipeline.Equivalence
import ItchLob.Net.MoldUdp64
import ItchLob.Net.Receiver
import ItchLob.Net.Delivery
import ItchLob.Net.ReorderBuffer
import ItchLob.Net.HostileFeed
import ItchLob.Net.PendingCap
import ItchLob.Net.Sender
import ItchLob.Net.GapFill
import ItchLob.Net.LossySession
import ItchLob.Itch.FrameWalk
import ItchLob.Io.GzipSource
import ItchLob.Pipeline.Isolation
import ItchLob.Exec.RiskSession
import ItchLob.Net.QueryConsistency
import ItchLob.Pipeline.LadderSafety
import ItchLob.Exec.AlmgrenChriss
import ItchLob.Book.RejectedAdd
import ItchLob.Exec.Pov
import ItchLob.Exec.Advance
import ItchLob.Exec.FillSim
import ItchLob.Exec.FillHistory
import ItchLob.Exec.Partition
import ItchLob.Exec.MarketPrice
import ItchLob.Net.QueryLocate
import ItchLob.Net.RoundTrip
import ItchLob.Pipeline.SaneOrders
import ItchLob.Net.FrameCopies
import ItchLob.Shared.Reads
import ItchLob.Itch.ParserReads
import ItchLob.Pipeline.Occupancy
import ItchLob.Net.QueryScan
import ItchLob.Shared.Delimited
import ItchLob.Net.QueryConnection
import ItchLob.Pipeline.PublishingHandler
import ItchLob.Net.Requests
import ItchLob.Io.GzipMembers
import ItchLob.Shared.Fairness
import ItchLob.Pipeline.ThreadedProgress
import ItchLob.Pipeline.ReplayReport
import ItchLob.Pipeline.DivergingHandler
import ItchLob.Net.LiveReplay
import ItchLob.Net.HostileReplay
import ItchLob.Shared.Ownership
import ItchLob.Io.Handles
import ItchLob.Net.ConnectionTurns
import ItchLob.Net.ServerLifecycle
import ItchLob.Net.Sockets
import ItchLob.Net.ServerStop
import ItchLob.Shared.Json
import ItchLob.Net.Replies
import ItchLob.Net.QueryClient
import ItchLob.Net.ReplayQuery
import ItchLob.Shared.ReleaseAcquire
import ItchLob.Pipeline.MemoryOrders
import ItchLob.Pipeline.ThreadedOrders
import ItchLob.Pipeline.NewestStores
import ItchLob.Pipeline.ThreadedReport
import ItchLob.Shared.Pool
import ItchLob.Bench.SyntheticSession
