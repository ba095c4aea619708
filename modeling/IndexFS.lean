import IndexFS.Lib.PrefixTree
import IndexFS.Giga.Index
import IndexFS.Giga.Partitions
import IndexFS.Giga.Lookup
import IndexFS.Giga.Split
import IndexFS.Giga.Cache
import IndexFS.Lib.Transition
import IndexFS.Giga.Growth
import IndexFS.Giga.Wire
import IndexFS.Lib.Buffer
import IndexFS.Backend.Value
import IndexFS.Backend.Store
import IndexFS.Backend.Layout
import IndexFS.Server.Ops
import IndexFS.Backend.Readdir
import IndexFS.Client.Readdir
import IndexFS.ColumnDb.Encoding
import IndexFS.ColumnDb.Db
import IndexFS.ColumnDb.Refine
import IndexFS.Backend.Extract
import IndexFS.Server.Split
import IndexFS.Server.Frame
import IndexFS.Cluster.Step
import IndexFS.Cluster.RootSplit
import IndexFS.Cluster.FailedSplit
import IndexFS.Cluster.Frame
import IndexFS.Cluster.Union
import IndexFS.Cluster.Placement
import IndexFS.Cluster.Delivery
import IndexFS.Client.Redirect
import IndexFS.Cluster.Routing
import IndexFS.Lib.Scan
import IndexFS.Client.Path
import IndexFS.Lib.CInt
import IndexFS.Server.Inode
import IndexFS.Lib.Seek
import IndexFS.Server.Listing
