import Turbolite.Lib.Blocks
import Turbolite.Lib.Runs
import Turbolite.Lib.Results
import Turbolite.Lib.SharedCell
import Turbolite.Keys
import Turbolite.Manifest
import Turbolite.Staging
import Turbolite.PendingQueue
import Turbolite.Codec
import Turbolite.Storage
import Turbolite.ReadPaths
import Turbolite.ReadAgreement
import Turbolite.Publish
import Turbolite.ColdRead
import Turbolite.PathBytes
import Turbolite.Grouping
import Turbolite.Writers
import Turbolite.GroupMerge
import Turbolite.StoredState
import Turbolite.Bundles
import Turbolite.Sync
import Turbolite.Flush
import Turbolite.Checkpoint
import Turbolite.ExactFlush
import Turbolite.SharedManifest
import Turbolite.ObjectLifetime
import Turbolite.StagingFile
import Turbolite.Wire
import Turbolite.Serializers
import Turbolite.Import
import Turbolite.Lifecycle
import Turbolite.ReadBack
import Turbolite.Partition
import Turbolite.Truncation
import Turbolite.Lib.RawFile
import Turbolite.CacheFile
import Turbolite.CacheRestart
import Turbolite.CacheGroups
import Turbolite.Residency
import Turbolite.GroupPresence
import Turbolite.EvictionSafety
import Turbolite.Retry
import Turbolite.RejectedWriter
import Turbolite.Replay
import Turbolite.ReplayAtomicity
import Turbolite.Fetches
import Turbolite.FetchedBytes
import Turbolite.FetchSafety
import Turbolite.FlatFile
import Turbolite.Adoption
import Turbolite.DbLocks
import Turbolite.DbExclusion
import Turbolite.WalLocks
import Turbolite.WalExclusion
import Turbolite.FailedLocks
import Turbolite.FastPath
import Turbolite.Passthrough
import Turbolite.NonceExtents
import Turbolite.Downgrade
import Turbolite.LocalManifest
import Turbolite.OverrideCompaction
import Turbolite.BTreeCompaction
import Turbolite.Lib.Extents
import Turbolite.LocalFormat
import Turbolite.LocalDecoder
import Turbolite.LocalDb
import Turbolite.Lib.LockFile
import Turbolite.LocalLock
import Turbolite.ReplaySequence
import Turbolite.ReplayCursor
import Turbolite.CursorFencing
import Turbolite.ReplayAnchor
import Turbolite.Rotation
import Turbolite.FlushRetry
import Turbolite.BTreeWalker
import Turbolite.BTreePeek
import Turbolite.BTreePages
import Turbolite.ImportFile
import Turbolite.Materialize
import Turbolite.UploadSources
import Turbolite.Sashimono
import Turbolite.Envelope
import Turbolite.Lib.Texts
import Turbolite.LocalVfs
import Turbolite.Browser
import Turbolite.BrowserRefresh
import Turbolite.CacheTruncation
import Turbolite.CompressedStore
import Turbolite.MemCache
import Turbolite.OverrideRange
import Turbolite.TornLog
import Turbolite.SeekableCodec
import Turbolite.Lib.Checked
import Turbolite.LegacyCodec
import Turbolite.CacheClears
import Turbolite.BudgetEviction
import Turbolite.Lib.Agents
import Turbolite.RemoteIoBudget
import Turbolite.PrefetchClaims
import Turbolite.FrameRuns
import Turbolite.GroupMaps
import Turbolite.PlanQueue
import Turbolite.QueryPlan
import Turbolite.QueryPlanLines
import Turbolite.Lib.Lru
import Turbolite.BrowserCache
import Turbolite.RecoveryCoverage
import Turbolite.Lookahead
import Turbolite.PersistedCache
import Turbolite.LookaheadWindow
import Turbolite.SlotIdentity
import Turbolite.Varints
import Turbolite.TrackerAccounting
import Turbolite.Lib.Search
import Turbolite.PageWalk
import Turbolite.WalkPartition
import Turbolite.WalkAgreement
import Turbolite.CursorChain
import Turbolite.RecoveryChain
import Turbolite.Lib.Fairness
import Turbolite.CursorLiveness
import Turbolite.CloudScan
import Turbolite.ScanPrefetch
import Turbolite.FrameBatches
import Turbolite.Settings
