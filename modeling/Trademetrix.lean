import Trademetrix.Async.Proc
import Trademetrix.Async.Pool
import Trademetrix.Dict
import Trademetrix.Text
import Trademetrix.Execution.Retry
import Trademetrix.Oms.Models
import Trademetrix.Oms.Reconciliation
import Trademetrix.Oms.World
import Trademetrix.Oms.Manager
import Trademetrix.Oms.System
import Trademetrix.Oms.Contract
import Trademetrix.Oms.Legal
import Trademetrix.Oms.Transitions
import Trademetrix.Oms.Observations
import Trademetrix.Oms.Cancellation
import Trademetrix.Oms.Recovery
import Trademetrix.Execution.Manager
import Trademetrix.Oms.RetryBudget
import Trademetrix.Oms.Stages
import Trademetrix.Oms.Fills
import Trademetrix.Oms.Brackets
import Trademetrix.Oms.Reports
import Trademetrix.Engine.Models
import Trademetrix.Engine.Gate
import Trademetrix.Engine.Exclusion
import Trademetrix.Queue
import Trademetrix.ExecutionEngine.Fifo
import Trademetrix.ExecutionEngine.Events
import Trademetrix.ExecutionEngine.Positions
import Trademetrix.ExecutionEngine.Netting
import Trademetrix.ExecutionEngine.PartialFills
import Trademetrix.ExecutionEngine.Persistence
import Trademetrix.Risk.KillSwitch
import Trademetrix.Risk.Orders
import Trademetrix.Risk.Halted
import Trademetrix.StrategyRuntime.Models
import Trademetrix.StrategyRuntime.Manager
import Trademetrix.StrategyRuntime.Frames
import Trademetrix.StrategyRuntime.Halts
import Trademetrix.StrategyRuntime.Workers
import Trademetrix.StrategyRuntime.DailyLimit
import Trademetrix.Struct
import Trademetrix.Results
import Trademetrix.Market.Packets
import Trademetrix.Market.Wire
import Trademetrix.Market.Feed
import Trademetrix.Market.FeedContract
import Trademetrix.Market.Subscriptions
import Trademetrix.Async.Serial
import Trademetrix.Market.DhanMaster
import Trademetrix.Market.InstrumentSchema
import Trademetrix.Market.InstrumentFiles
import Trademetrix.Market.InstrumentStore
import Trademetrix.Market.ActiveVersion
import Trademetrix.Market.EncodedMaster
import Trademetrix.Market.BuiltVersion
import Trademetrix.Market.DhanProvider
import Trademetrix.Market.DhanRefresh
import Trademetrix.Market.BuildRuns
import Trademetrix.Market.LeftoverBuilds
import Trademetrix.Market.ServedMaster
import Trademetrix.Market.BackendParity
import Trademetrix.Market.StaleMetadata
import Trademetrix.Backtest.Costs
import Trademetrix.Backtest.Execution
import Trademetrix.Backtest.Accounting
import Trademetrix.Backtest.Risk
import Trademetrix.Backtest.Performance
import Trademetrix.Backtest.Manager
import Trademetrix.Backtest.LookAhead
import Trademetrix.Backtest.DriverParity
import Trademetrix.Ledger
import Trademetrix.Paper.Broker
import Trademetrix.Paper.Restore
import Trademetrix.Run
import Trademetrix.Core.Resilience
import Trademetrix.LastWrite
import Trademetrix.Application.Subscriptions
import Trademetrix.Cron
import Trademetrix.StrategyRuntime.CronTriggers
import Trademetrix.Calendar
import Trademetrix.Engine.StrategyCompiler
import Trademetrix.Application.Deployments
import Trademetrix.Engine.UserStrategyRunner
import Trademetrix.Application.Squareoff
import Trademetrix.Application.WebhookCalls
import Trademetrix.Application.MirrorSignals
import Trademetrix.Execution.RetriedWebhooks
import Trademetrix.Oms.OrderQueue
import Trademetrix.Dedup
import Trademetrix.Market.CandleAggregator
import Trademetrix.Engine.GraphStrategyRunner
import Trademetrix.BrokerConnect.Engine
import Trademetrix.BrokerConnect.FanOut
import Trademetrix.BrokerConnect.Dispatch
import Trademetrix.Market.BrokerFeeds
import Trademetrix.Market.FeedSupervision
import Trademetrix.Oms.Texts
import Trademetrix.Oms.OcoCancel
import Trademetrix.Oms.StopLoss
import Trademetrix.Oms.Intent
import Trademetrix.Oms.Custody
import Trademetrix.Oms.Resends
import Trademetrix.Decimal
import Trademetrix.Oms.DecisionTable
import Trademetrix.Risk.Rules
import Trademetrix.Execution.OrdersTable
import Trademetrix.Execution.Placing
import Trademetrix.Execution.PlacingContract
import Trademetrix.Execution.OnePost
import Trademetrix.Execution.OwnAttempts
import Trademetrix.Execution.Recovery
import Trademetrix.Sliding
import Trademetrix.Risk.OrderRate
import Trademetrix.Execution.RateLimiter
import Trademetrix.Engine.OptionSymbols
import Trademetrix.Execution.PositionReconciliation
import Trademetrix.Risk.LegControls
import Trademetrix.Risk.DailyPnl
import Trademetrix.Risk.Drawdown
import Trademetrix.Risk.Duplicates
import Trademetrix.Risk.RejectedOrders
import Trademetrix.Risk.LegLimits
import Trademetrix.Paper.Accounts
import Trademetrix.Paper.FinalOrders
import Trademetrix.Backtest.FinalOrders
import Trademetrix.Paper.FillEngine
import Trademetrix.Portfolio.Manager
import Trademetrix.ExecutionEngine.Deliveries
import Trademetrix.ExecutionEngine.Equity
import Trademetrix.StrategyRuntime.Evaluations
import Trademetrix.StrategyRuntime.Replays
import Trademetrix.StrategyRuntime.ErrorCounts
import Trademetrix.StrategyRuntime.Calls
import Trademetrix.StrategyRuntime.RestartCounts
import Trademetrix.StrategyRuntime.Reconnects
import Trademetrix.StrategyRuntime.Starting
import Trademetrix.Market.ParsedMaster
import Trademetrix.Market.SlotLookups
import Trademetrix.Market.AmbiguousSymbols
import Trademetrix.Market.FeedIdentities
import Trademetrix.Market.BuiltCandidates
import Trademetrix.Builder.Triggers
import Trademetrix.Builder.OrderSignals
import Trademetrix.Builder.Crossings
import Trademetrix.StrategyRuntime.ManualEvaluations
import Trademetrix.Market.MaxPain
import Trademetrix.Backtest.RiskLimits
import Trademetrix.Backtest.ClosedPositions
import Trademetrix.Backtest.Optimizer
import Trademetrix.Engine.LegacyBacktest
import Trademetrix.Engine.PlanLegs
import Trademetrix.Engine.SymbolReadback
import Trademetrix.Market.Expiries
import Trademetrix.Engine.UserStrategyBacktest
import Trademetrix.Application.LiveDeployments
import Trademetrix.BrokerConnect.RiskSettings
import Trademetrix.Brokers.InFlight
import Trademetrix.Brokers.TokenChange
import Trademetrix.Auth.SingleUse
import Trademetrix.Backtest.CorporateActions
import Trademetrix.Backtest.Continuous
import Trademetrix.Backtest.RepeatedLoads
import Trademetrix.Alternation
import Trademetrix.Strategies.Indicators
import Trademetrix.Strategies.Buyers
import Trademetrix.Strategies.Trades
import Trademetrix.Strategies.BuyerRuns
import Trademetrix.Strategies.BuyerDay
import Trademetrix.Strategies.LongStraddle
import Trademetrix.Noninterference
import Trademetrix.Builder.Manager
import Trademetrix.Builder.Isolation
import Trademetrix.Builder.Ownership
import Trademetrix.Builder.Requests
import Trademetrix.Builder.Versions
