import PiDb.Core.Map
import PiDb.Core.Log
import PiDb.Core.Meta
import PiDb.Txn.Model
import PiDb.Txn.Commit
import PiDb.Txn.Writes
import PiDb.Txn.Prepare
import PiDb.Txn.Durability
import PiDb.Txn.Reopen
import PiDb.Txn.Batch
import PiDb.Store.Model
import PiDb.Store.Open
import PiDb.Store.Collect
import PiDb.Store.Rescan
import PiDb.Store.Statistics
import PiDb.Store.Remove
import PiDb.Store.Consistency
import PiDb.Store.Compaction
import PiDb.Meta.Registry
import PiDb.Meta.Interleave
import PiDb.Meta.Enumerate
import PiDb.Meta.Snapshot
