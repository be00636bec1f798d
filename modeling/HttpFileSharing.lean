import HttpFileSharing.Lib.System
import HttpFileSharing.Lib.Progress
import HttpFileSharing.Lib.Shared
import HttpFileSharing.Lib.Locks
import HttpFileSharing.Lib.StdMap
import HttpFileSharing.Lib.Lines
import HttpFileSharing.Lib.Walk
import HttpFileSharing.Lib.HttpReader
import HttpFileSharing.Lib.Replace
import HttpFileSharing.Lib.Tags
import HttpFileSharing.Lib.Transducer
import HttpFileSharing.Lib.Anchors
import HttpFileSharing.Lib.Catalog
import HttpFileSharing.Lib.Decimal
import HttpFileSharing.Lib.Getopt
import HttpFileSharing.Core.Bytes
import HttpFileSharing.Core.Semaphore
import HttpFileSharing.Core.TPool
import HttpFileSharing.Core.PoolThreads
import HttpFileSharing.Core.Connections
import HttpFileSharing.Core.Blacklist
import HttpFileSharing.Core.Db
import HttpFileSharing.Core.BlacklistLocks
import HttpFileSharing.Core.FileSystem
import HttpFileSharing.Core.ProgOptions
import HttpFileSharing.Core.HttpRsp
import HttpFileSharing.Core.Filesys
import HttpFileSharing.Core.HttpReq
import HttpFileSharing.Core.File
import HttpFileSharing.Core.HtmlRsp
import HttpFileSharing.Core.Tcp
import HttpFileSharing.Core.Http
import HttpFileSharing.Core.ProcessRequest
import HttpFileSharing.Core.Server
import HttpFileSharing.Core.ServerLoop
import HttpFileSharing.Core.Sqlite
import HttpFileSharing.Core.Rows
import HttpFileSharing.Core.Engine
import HttpFileSharing.Core.Init
import HttpFileSharing.Core.StatsDb
import HttpFileSharing.Core.Main
import HttpFileSharing.Core.Argv
import HttpFileSharing.Core.Visits
import HttpFileSharing.Theory.Wakeup
import HttpFileSharing.Theory.Pool
import HttpFileSharing.Theory.PoolRefinement
import HttpFileSharing.Theory.PoolProgress
import HttpFileSharing.Theory.Connections
import HttpFileSharing.Theory.Draining
import HttpFileSharing.Theory.Starvation
import HttpFileSharing.Theory.DbHandle
import HttpFileSharing.Theory.Deadlock
import HttpFileSharing.Theory.Ledger
import HttpFileSharing.Theory.LockModel
import HttpFileSharing.Theory.Verdict
import HttpFileSharing.Theory.ServerRun
import HttpFileSharing.Theory.InFlight
import HttpFileSharing.Theory.Ban
import HttpFileSharing.Theory.ScoreRange
import HttpFileSharing.Theory.Codec
import HttpFileSharing.Theory.Paths
import HttpFileSharing.Theory.TextType
import HttpFileSharing.Theory.Lookup
import HttpFileSharing.Theory.Processing
import HttpFileSharing.Theory.Confinement
import HttpFileSharing.Theory.Listing
import HttpFileSharing.Theory.Sending
import HttpFileSharing.Theory.Delivery
import HttpFileSharing.Theory.FileSend
import HttpFileSharing.Theory.Response
import HttpFileSharing.Theory.Truncation
import HttpFileSharing.Theory.Answer
import HttpFileSharing.Theory.Links
import HttpFileSharing.Theory.Breadcrumbs
import HttpFileSharing.Theory.PageStructure
import HttpFileSharing.Theory.PageLinks
import HttpFileSharing.Theory.Uri
import HttpFileSharing.Theory.Sizes
import HttpFileSharing.Theory.Entries
import HttpFileSharing.Theory.Request
import HttpFileSharing.Theory.Segmentation
import HttpFileSharing.Theory.Receiving
import HttpFileSharing.Theory.Acceptance
import HttpFileSharing.Theory.Browsing
import HttpFileSharing.Theory.Reuse
import HttpFileSharing.Theory.Statements
import HttpFileSharing.Theory.Migration
import HttpFileSharing.Theory.Startup
import HttpFileSharing.Theory.Engine
import HttpFileSharing.Theory.StoreEngine
import HttpFileSharing.Theory.ScoreRows
import HttpFileSharing.Theory.SetUp
import HttpFileSharing.Theory.DiskLedger
import HttpFileSharing.Theory.Visits
import HttpFileSharing.Theory.Argv
import HttpFileSharing.Theory.Availability
