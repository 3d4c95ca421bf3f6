import StrataDB.Index.EntryPoint
import StrataDB.Index.NeighborSelection
import StrataDB.Index.SegmentDecoding
import StrataDB.Index.Traversal
import StrataDB.Lifecycle.Agreement
import StrataDB.Lifecycle.Reclaiming
import StrataDB.Lifecycle.Report
import StrataDB.Query.GroupedRows
import StrataDB.Storage.JsonLimits
import StrataDB.Storage.Keys
import StrataDB.Txn.CacheKey
import StrataDB.Txn.CommitLayout
import StrataDB.Txn.Evolving
import StrataDB.Txn.Explained
import StrataDB.Txn.GroupedLayout
import StrataDB.Txn.Isolation
import StrataDB.Txn.LifecycleCoordination
import StrataDB.Txn.Validation
import StrataDB.Txn.VectorRecall
