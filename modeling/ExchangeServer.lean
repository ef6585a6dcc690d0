import ExchangeServer.Common
import ExchangeServer.Lib.Containers
import ExchangeServer.PriceTime
import ExchangeServer.OrderBook.Basic
import ExchangeServer.OrderBook.Ladder
import ExchangeServer.OrderBook.Simulation
import ExchangeServer.OrderBook.Refinement
import ExchangeServer.Ledger
import ExchangeServer.OrderBook.Runs
import ExchangeServer.Lib.Runs
import ExchangeServer.OrderBookProcessor
import ExchangeServer.MatchingEngine
import ExchangeServer.Lib.Machine
import ExchangeServer.Lib.ProducerQueue
import ExchangeServer.UserManager
import ExchangeServer.Repositories
import ExchangeServer.SettlementProcessor
import ExchangeServer.Handler
import ExchangeServer.AccountMoves
import ExchangeServer.Market
import ExchangeServer.OrderBook.Owners
import ExchangeServer.Clearing
import ExchangeServer.Backing
import ExchangeServer.Exchange.Basic
import ExchangeServer.Exchange.Simulation
import ExchangeServer.Exchange.Laws
import ExchangeServer.Lib.Bytes
import ExchangeServer.Lib.Framing
import ExchangeServer.OrderIds
import ExchangeServer.Protocol
import ExchangeServer.EchoBusiness
import ExchangeServer.Client
import ExchangeServer.Pipeline
import ExchangeServer.Exchange.Flow
import ExchangeServer.LogReplay
import ExchangeServer.Tally
import ExchangeServer.Exchange.Scheduling
import ExchangeServer.Tickets
import ExchangeServer.Exchange.TimePriority
import ExchangeServer.Startup
import ExchangeServer.Lib.SortedSet
import ExchangeServer.MarketData
import ExchangeServer.Exchange.Receipts
import ExchangeServer.Exchange.Shutdown
import ExchangeServer.Solvency.Basic
import ExchangeServer.Solvency.Steps
import ExchangeServer.Exchange.Mirror
import ExchangeServer.TimerManager
import ExchangeServer.TcpServer.Basic
import ExchangeServer.TcpServer.Locking
import ExchangeServer.TcpServer.Descriptors
import ExchangeServer.TcpServer.Reaping
import ExchangeServer.Lib.Memory
import ExchangeServer.Handlers.Basic
import ExchangeServer.Handlers.Leaks
import ExchangeServer.Handlers.Credentials
import ExchangeServer.Handlers.Trade
import ExchangeServer.Handlers.Effects
import ExchangeServer.Handlers.Sessions
import ExchangeServer.Socket.Basic
import ExchangeServer.Socket.Closing
import ExchangeServer.Socket.Sending
import ExchangeServer.Lib.Totals
import ExchangeServer.ThreadPool
import ExchangeServer.TcpServer.Bounds
import ExchangeServer.Lib.Rounding
import ExchangeServer.Handlers.Deposit
import ExchangeServer.Handlers.Lists
import ExchangeServer.Lib.CriticalSections
import ExchangeServer.UserManager.Methods
import ExchangeServer.UserManager.Linearizable
import ExchangeServer.ConnectionPool
import ExchangeServer.OrderBook.BestExecution
import ExchangeServer.OrderBook.TradeCount
import ExchangeServer.Lib.Progress
import ExchangeServer.Exchange.Progress
import ExchangeServer.Exchange.Statement
import ExchangeServer.Lib.Quoting
import ExchangeServer.Repositories.Statements
import ExchangeServer.Agent
import ExchangeServer.Logger
import ExchangeServer.Dialogue
import ExchangeServer.Exchange.Views
import ExchangeServer.TcpServer.Handover
