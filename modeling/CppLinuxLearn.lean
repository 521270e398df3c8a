import CppLinuxLearn.Lib.Bytes
import CppLinuxLearn.Lib.Multipart
import CppLinuxLearn.Lib.TwoRuns
import CppLinuxLearn.Lib.Transaction
import CppLinuxLearn.Lib.Steps
import CppLinuxLearn.Lib.Sql
import CppLinuxLearn.Lib.Framing
import CppLinuxLearn.Lib.Block
import CppLinuxLearn.Lib.Containers
import CppLinuxLearn.Deployer.CommonStruct
import CppLinuxLearn.Deployer.Database
import CppLinuxLearn.Deployer.AllOrNothing
import CppLinuxLearn.Deployer.SqliteHandles
import CppLinuxLearn.Deployer.SqlText
import CppLinuxLearn.Deployer.SqlBuffer
import CppLinuxLearn.Deployer.ReadBack
import CppLinuxLearn.Deployer.StoreRead
import CppLinuxLearn.Deployer.Affected
import CppLinuxLearn.Deployer.Updates
import CppLinuxLearn.Deployer.Service
import CppLinuxLearn.Deployer.PollLoop
import CppLinuxLearn.Deployer.Task
import CppLinuxLearn.Deployer.Stepping
import CppLinuxLearn.Deployer.System
import CppLinuxLearn.Deployer.Login
import CppLinuxLearn.Deployer.Address
import CppLinuxLearn.Deployer.Manager
import CppLinuxLearn.Deployer.RequestFormat
import CppLinuxLearn.Deployer.ResponseFormat
import CppLinuxLearn.Deployer.Boundary
import CppLinuxLearn.Deployer.Crash
import CppLinuxLearn.Deployer.ThreadPool
import CppLinuxLearn.Deployer.Pool
import CppLinuxLearn.Deployer.ManagerNames
import CppLinuxLearn.Deployer.FieldBounds
import CppLinuxLearn.Deployer.FailedRefresh
import CppLinuxLearn.Deployer.ManagerCache
import CppLinuxLearn.Deployer.Order
import CppLinuxLearn.Deployer.Answers
import CppLinuxLearn.Deployer.Alike
import CppLinuxLearn.Deployer.Rejected
import CppLinuxLearn.Solcom.ByteArray
import CppLinuxLearn.Solcom.ByteDeque
import CppLinuxLearn.Solcom.Capacity
import CppLinuxLearn.Solcom.Package
import CppLinuxLearn.Solcom.Receive
import CppLinuxLearn.Solcom.Reassembly
import CppLinuxLearn.Solcom.StaleBytes
import CppLinuxLearn.Solcom.NullObject
import CppLinuxLearn.Solcom.CachedBuffer
import CppLinuxLearn.Solcom.RingQueue
import CppLinuxLearn.Solcom.Cursor
import CppLinuxLearn.Solcom.Post
import CppLinuxLearn.Solcom.Recover
import CppLinuxLearn.Solcom.SendQueue
import CppLinuxLearn.Solcom.Connection
import CppLinuxLearn.Solcom.IdleCheck
import CppLinuxLearn.Solcom.Reconnect
import CppLinuxLearn.Solcom.Notify
import CppLinuxLearn.Solcom.ConnServer
import CppLinuxLearn.Solcom.IdleClients
import CppLinuxLearn.Solcom.RecvRange
import CppLinuxLearn.Solcom.ClientMap
import CppLinuxLearn.Deployer.Identity
import CppLinuxLearn.Deployer.Resync
import CppLinuxLearn.Deployer.AsyncZmqApi
import CppLinuxLearn.Deployer.OpenClose
import CppLinuxLearn.Solcom.ReqBuffer
import CppLinuxLearn.Solcom.PostWait
import CppLinuxLearn.BoostAsioTest.ServerEnd
import CppLinuxLearn.Trivials.SplitMdFile
import CppLinuxLearn.Trivials.ShortReads
import CppLinuxLearn.Test.QuickSort
import CppLinuxLearn.Test.TopK
import CppLinuxLearn.Trivials.UnionFind
import CppLinuxLearn.Trivials.SplitString
import CppLinuxLearn.Trivials.StockTree
import CppLinuxLearn.Solcom.RingCapacity
import CppLinuxLearn.Solcom.DataSize
import CppLinuxLearn.Solcom.Exchange
import CppLinuxLearn.ZmqTest.ZmqServerEnd
import CppLinuxLearn.Lib.Linearizable
import CppLinuxLearn.Deployer.Linear
import CppLinuxLearn.Deployer.Filters
import CppLinuxLearn.Deployer.Confirmed
import CppLinuxLearn.Deployer.Removal
import CppLinuxLearn.Deployer.Expiry
import CppLinuxLearn.Solcom.Link
import CppLinuxLearn.Lib.Handoff
import CppLinuxLearn.ShmSemSync.Semaphores
import CppLinuxLearn.Lib.RequestReply
import CppLinuxLearn.ZmqTest.Broker
import CppLinuxLearn.Deployer.RoundTrip
import CppLinuxLearn.Trivials.CondVar
import CppLinuxLearn.Trivials.SharedCounter
