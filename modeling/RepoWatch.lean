import RepoWatch.Lib.Table
import RepoWatch.Routing
import RepoWatch.Duplicates
import RepoWatch.Dedup
import RepoWatch.Repositories
import RepoWatch.Lib.Run
import RepoWatch.CacheStore
import RepoWatch.Warmed
import RepoWatch.Revisions
import RepoWatch.Lib.Program
import RepoWatch.Replacements
import RepoWatch.Cleanup
import RepoWatch.DedupMap
import RepoWatch.Lib.Percent
import RepoWatch.Serving
import RepoWatch.ServingKeys
import RepoWatch.DedupServing
import RepoWatch.Lib.Regex
import RepoWatch.Locations
import RepoWatch.Apply
import RepoWatch.Reconcile
import RepoWatch.EventLog
import RepoWatch.SharedTargets
import RepoWatch.RefreshTargets
import RepoWatch.NixStore
import RepoWatch.NixTrust
import RepoWatch.NixPurge
import RepoWatch.Isolation
import RepoWatch.PurgeRecords
import RepoWatch.PurgeRuns
import RepoWatch.CacheWork
import RepoWatch.Lib.Closure
import RepoWatch.Narinfo
import RepoWatch.NixDiscover
import RepoWatch.NixWarm
import RepoWatch.CleanupRuns
import RepoWatch.Lib.Rotation
import RepoWatch.CleanupWindows
import RepoWatch.Lib.Tally
import RepoWatch.Rollups
import RepoWatch.Lib.Keyset
import RepoWatch.Pagination
import RepoWatch.Bandwidth
import RepoWatch.Notifications
import RepoWatch.Clearsign
import RepoWatch.Lib.Ip
import RepoWatch.ClientContext
import RepoWatch.Schedule
import RepoWatch.Fetch
import RepoWatch.Lib.Ranking
import RepoWatch.Retention
import RepoWatch.PathIndex
import RepoWatch.Completeness
import RepoWatch.Demand
import RepoWatch.Lib.Event
import RepoWatch.Slots
import RepoWatch.Access
import RepoWatch.Status
import RepoWatch.Handler
import RepoWatch.Dispatcher
import RepoWatch.Lib.Radix
import RepoWatch.Pkglist
import RepoWatch.Pacman
import RepoWatch.NixHash
import RepoWatch.Splitlines
import RepoWatch.Gentoo
import RepoWatch.AptPackages
import RepoWatch.Lib.Ledger
import RepoWatch.StorageUsage
import RepoWatch.Lib.Dumps
import RepoWatch.Fingerprint
import RepoWatch.Tarfile
import RepoWatch.Lib.Agree
import RepoWatch.Parsers
import RepoWatch.ApkIndex
import RepoWatch.NixCatalog
import RepoWatch.PackageLists
import RepoWatch.SignedIndexes
import RepoWatch.RpmMd
import RepoWatch.CatalogFetch
import RepoWatch.VerifiedFetch
import RepoWatch.Auth
import RepoWatch.Sessions
import RepoWatch.Posts
import RepoWatch.Lib.Gather
import RepoWatch.Lib.Glob
import RepoWatch.Warming
import RepoWatch.IndexCheck
import RepoWatch.Statistics
import RepoWatch.IndexRefresh
