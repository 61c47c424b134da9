import RobotMoney.Gateway.RollingCap
import RobotMoney.Router.Redeem
import RobotMoney.Upgrade.GovernedUUPS
import RobotMoney.Vault.Recovery
import RobotMoney.Vault.Switch
import RobotMoney.Client.CacheBytes
import RobotMoney.Client.Fees
import RobotMoney.Client.ReceiptId
import RobotMoney.Client.WritePath
import RobotMoney.Explorer.ExclusionClaims
import RobotMoney.Indexer.GatewayLogs
import RobotMoney.Indexer.Positions
import RobotMoney.Publish.ManifestLock
import RobotMoney.Publish.ResumeRuns
import RobotMoney.Publish.UnpauseRuns
import RobotMoney.Router.Fixpoint
import RobotMoney.Safe.Exchange
import RobotMoney.Watchdog.Coverage
import RobotMoney.Watchdog.MintVolume
import RobotMoney.Watchdog.PauseTransaction
import RobotMoney.Watchdog.ProxyChanges
import RobotMoney.Registry.DefaultWeights
import RobotMoney.Access.Rotation
import RobotMoney.Access.ProposerFloor
import RobotMoney.Basket.Configuration
import RobotMoney.Basket.Unwound
import RobotMoney.Basket.InKindFair
import RobotMoney.Vault.Refusals
import RobotMoney.Vault.Withdrawals
import RobotMoney.Vault.RebalanceThrottle
import RobotMoney.Vault.Slices
import RobotMoney.Vault.StrategyAdapters
import RobotMoney.Recorder.SellAnchor
import RobotMoney.Indexer.DeployFloor
import RobotMoney.Indexer.LedgerFetch
import RobotMoney.Indexer.SnapshotRuns
import RobotMoney.Indexer.Backfill
import RobotMoney.Indexer.Schema
import RobotMoney.Client.PendingOps
import RobotMoney.Watchdog.Windows
import RobotMoney.Watchdog.Incidents
import RobotMoney.Client.Format
import RobotMoney.Publish.LogScan
import RobotMoney.Indexer.Retry
import RobotMoney.Indexer.ProxyBackfill
import RobotMoney.Client.Preflight
import RobotMoney.Client.TimelockHistory
import RobotMoney.Client.ReceiptOrder
import RobotMoney.Client.ReceiptArithmetic
import RobotMoney.Indexer.DeleteOrder
import RobotMoney.Publish.RuntimeCode
