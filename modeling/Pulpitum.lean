import Pulpitum.Support.Calendar
import Pulpitum.Support.Table
import Pulpitum.Support.Text
import Pulpitum.Support.Runs
import Pulpitum.Support.Prog
import Pulpitum.Support.Cutover
import Pulpitum.Domain.Time
import Pulpitum.Domain.Model
import Pulpitum.Domain.Schema
import Pulpitum.Ports.InMemory
import Pulpitum.Ports.Fencing
import Pulpitum.Adapters.CockroachTables
import Pulpitum.Adapters.CockroachDurable
import Pulpitum.Adapters.CockroachStrategy
import Pulpitum.Adapters.CockroachTransaction
import Pulpitum.Application.DurableTable
import Pulpitum.Support.Window
import Pulpitum.Application.Tasks
import Pulpitum.Application.Renewer
import Pulpitum.Application.Discipline
import Pulpitum.Application.NoLoss
import Pulpitum.Adapters.CockroachCutover
import Pulpitum.Adapters.CockroachTime
import Pulpitum.Adapters.CockroachRead
import Pulpitum.Adapters.OpenDal
import Pulpitum.Adapters.CockroachFiling
import Pulpitum.Integrations.DataFusion
import Pulpitum.Ports.InMemoryArchive
import Pulpitum.Support.Paging
import Pulpitum.Adapters.InMemoryCutover
import Pulpitum.Application.Pagination
import Pulpitum.Application.Attempts
import Pulpitum.Adapters.InMemoryPaging
import Pulpitum.Adapters.OpenDalIntegrity
import Pulpitum.Adapters.InMemoryRecovery
import Pulpitum.Application.RecoveryOutcome
import Pulpitum.Adapters.ArchiveCache
import Pulpitum.Adapters.CockroachRoutes
import Pulpitum.Adapters.CockroachPool
import Pulpitum.Adapters.CockroachCalls
import Pulpitum.Adapters.CockroachSessions
import Pulpitum.Adapters.CockroachInvariants
import Pulpitum.Adapters.StoreRelation
import Pulpitum.Support.Lockstep
import Pulpitum.Adapters.StoreSimulation
import Pulpitum.Domain.Routing
import Pulpitum.Domain.Window
import Pulpitum.Application.WriteWindow
import Pulpitum.Adapters.CockroachSchema
import Pulpitum.Ports.InMemoryInvariant
import Pulpitum.Adapters.Discovery
import Pulpitum.Adapters.OpenDalUploads
import Pulpitum.Application.ReadBuckets
import Pulpitum.Application.Exchanges
import Pulpitum.Application.Attended
import Pulpitum.Adapters.InMemoryDirect
import Pulpitum.Ports.Locality
import Pulpitum.Application.Deeds
import Pulpitum.Adapters.Isolation
import Pulpitum.Adapters.ObjectKeys
import Pulpitum.Adapters.CockroachAccounting
import Pulpitum.Sidecar.Statements
import Pulpitum.Support.Utf8
import Pulpitum.Sidecar.Literals
import Pulpitum.Sidecar.Binding
import Pulpitum.Support.SqlLexer
import Pulpitum.Sidecar.Placeholders
import Pulpitum.Adapters.CockroachServer
import Pulpitum.Adapters.CockroachMigrations
import Pulpitum.Support.Arrow
import Pulpitum.Integrations.RoutedScan
import Pulpitum.Integrations.ScanDelivery
import Pulpitum.Sidecar.Gateway
import Pulpitum.Sidecar.RoundTrip
import Pulpitum.Adapters.CockroachPaging
import Pulpitum.Adapters.CockroachTier
import Pulpitum.Adapters.OpenDalTier
import Pulpitum.Adapters.Production
import Pulpitum.Sidecar.Describe
