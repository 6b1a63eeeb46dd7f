import KeelTrader.Sim.NoLookahead
import KeelTrader.Core.OrderHistory
import KeelTrader.Core.RefusedSell
import KeelTrader.Core.LiveWriter
import KeelTrader.Research.Gate
import KeelTrader.Sim.CashLedger
import KeelTrader.Sim.EquityCurve
import KeelTrader.Lib.Packed
import KeelTrader.Sim.Binpack
import KeelTrader.Sim.RoundTrip
import KeelTrader.Core.SharedBuys
import KeelTrader.Core.BuySafety
import KeelTrader.Core.SimParity
import KeelTrader.Forecast.Technical
import KeelTrader.Core.MomentumScore
import KeelTrader.Sim.ExportData
import KeelTrader.Core.Exposure
import KeelTrader.Sim.Clamped
import KeelTrader.Sim.FirstEntry
import KeelTrader.Sim.TellingRuns
import KeelTrader.Sim.Bindings
import KeelTrader.Core.PaperRunner
import KeelTrader.Core.RunnerFloor
import KeelTrader.Lib.WaterFilling
import KeelTrader.Models.Sizing
import KeelTrader.Lib.TopK
import KeelTrader.Models.Decide
import KeelTrader.Sim.HoldClock
import KeelTrader.Sim.HoldDeadline
import KeelTrader.Sim.BarBook
import KeelTrader.Sim.Drawdown
import KeelTrader.Research.RunWindow
import KeelTrader.Sim.LoadedFiles
import KeelTrader.Core.Handshake
import KeelTrader.Core.Deploy
import KeelTrader.Core.LiveGate
import KeelTrader.Sim.FillRule
import KeelTrader.Sim.Solvency
import KeelTrader.Lib.PeakDrawdown
import KeelTrader.Sim.StreamingDrawdown
import KeelTrader.Research.Policies
import KeelTrader.Sim.AlignGrid
import KeelTrader.Core.ReadFaults
import KeelTrader.Core.TradingServer
import KeelTrader.Core.OrderAnswers
import KeelTrader.Core.LockPath
import KeelTrader.Core.SharedLock
import KeelTrader.Sim.BorrowFee
import KeelTrader.Lib.Paging
import KeelTrader.Sim.PagedDownload
import KeelTrader.Lib.BackwardSum
import KeelTrader.Models.Gae
import KeelTrader.Sim.ClosedMarket
import KeelTrader.Lib.Xorshift
import KeelTrader.Sim.FillGate
import KeelTrader.Lib.Detached
import KeelTrader.Lib.Lockstep
import KeelTrader.Sim.EpisodeLog
import KeelTrader.Sim.FeeCost
import KeelTrader.Sim.Relabel
import KeelTrader.Sim.SharedEnvs
import KeelTrader.Forecast.Cache
import KeelTrader.Sim.BuildBin
import KeelTrader.Sim.PipelineCausality
import KeelTrader.Sim.ExportBinary
import KeelTrader.Sim.ExportCausality
import KeelTrader.Research.Leaderboard
