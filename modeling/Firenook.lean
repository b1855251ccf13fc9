import Firenook.StoreTimeTravel
import Firenook.CrashMachine
import Firenook.TransactionalQueries
import Firenook.ReadTimes
import Firenook.RulesBudgets
import Firenook.DeliveryCoordinator
import Firenook.StorageCrashes
import Firenook.StorageRaces
import Firenook.JournalFaults
import Firenook.ReplayBudget
import Firenook.ValueOrder
import Firenook.NativeStateReuse
import Firenook.BloomFilters
import Firenook.Partitions
import Firenook.SumAggregates
import Firenook.FieldPaths
import Firenook.QueryProofs
import Firenook.AuthorizedWrites
import Firenook.TaskRates
import Firenook.WaitingPulls
import Firenook.SessionLimits
import Firenook.SessionWakeups
import Firenook.ObjectGenerations
import Firenook.AccountListing
import Firenook.ConfigMasks
import Firenook.SuiteExports
import Firenook.ExportLogs
