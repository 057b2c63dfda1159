import Bmac.Backup.Pruning
import Bmac.Bmacd.SlotJobs
import Bmac.Backupd.Exports
import Bmac.Bmacd.UpkeepOffers
import Bmac.Bmacd.RunnerNumbers
import Bmac.Bmacd.NotifyPairs
import Bmac.Bmacd.NotifyWrites
import Bmac.Bmacd.MeshFeed
import Bmac.Records.Eviction
import Bmac.Bmacd.LimitRuns
import Bmac.Bmacd.SessionRuns
import Bmac.Bmacd.TokensOnce
import Bmac.Bmacd.Revocations
import Bmac.Bmacd.Logins
import Bmac.Storage.JournalRuns
import Bmac.Bmacd.ReplaceOrder
import Bmac.Bmacd.DiskSafety
import Bmac.Registry.Addresses
import Bmac.Registry.OrchestrationRuns
import Bmac.Registry.IngressRuns
import Bmac.Haproxy.RolloutSafe
import Bmac.Registry.ReconcileAgrees
import Bmac.Registry.Owned
import Bmac.Backupd.Watchdog
import Bmac.Backupd.Prune
import Bmac.Backupd.Zones
import Bmac.Bmacd.DeletePit
import Bmac.Bmacd.Freeze
import Bmac.Backupd.Recovery
import Bmac.Backupd.Scrub
import Bmac.Registry.Retries
import Bmac.Haproxy.RoundTrip
import Bmac.Bmacd.RemoveVdev
import Bmac.Bmacd.RestorePlan
import Bmac.Adapters.Assigned
import Bmac.Bmacd.SupervisorAnswers
import Bmac.Bmacd.SupervisorScrub
import Bmac.Proto.Answers
import Bmac.Bmacd.LaunchArguments
import Bmac.Adapters.ZpoolSplit
import Bmac.Backup.LocalRetention
import Bmac.Storage.Capacity
import Bmac.Storage.BlockSizes
import Bmac.Bmacd.Slots
import Bmac.Records.Pages
import Bmac.Records.Calls
import Bmac.Pmxcfs.CanonicalJson
import Bmac.Backup.Restored
import Bmac.Pmxcfs.Time
import Bmac.Core.Address
import Bmac.Inventory.Labels
import Bmac.Bmacd.UpdateDrain
