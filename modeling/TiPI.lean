import TiPI.DB.Durability
import TiPI.DB.Quorum
import TiPI.DB.Linearizability
import TiPI.DB.Supervisor
import TiPI.DB.Heartbeat
import TiPI.DB.Races
import TiPI.DB.Follower
import TiPI.DB.Acknowledgement
import TiPI.DB.Rejection
import TiPI.DB.History
import TiPI.DB.Panics
import TiPI.DB.FailedWrites
import TiPI.DB.Recovery
import TiPI.DB.Reign
import TiPI.DB.Validity
import TiPI.DB.Persistence
import TiPI.SpinLock.TestAndSet
import TiPI.SpinLock.TicketLock
import TiPI.ThreadPool.Shutdown
import TiPI.ThreadPool.Progress
import TiPI.ThreadPool.TaskString
import TiPI.LockFreeStack.Memory
import TiPI.BLinkTree.Tree
import TiPI.Lib.BLinkChain
import TiPI.BLinkTree.Readers
import TiPI.BLinkTree.Shape
import TiPI.BLinkTree.Progress
import TiPI.BLinkTree.Halves
import TiPI.BLinkTree.LiveSlots
import TiPI.BLinkTree.Search
import TiPI.BLinkTree.NodeStore
import TiPI.Ext2.Dump
import TiPI.Ext2.BlockMap
import TiPI.Ext2.Superblock
import TiPI.Ext2.Halting
import TiPI.MatrixMultiplier.Tiles
import TiPI.Cp.Copy
import TiPI.SSHServer.Lifecycle
import TiPI.Pipe.Flow
import TiPI.Lsof.Merged
import TiPI.Auditor.Answered
import TiPI.Auditor.Outcomes
import TiPI.Auditor.ParseQuery
import TiPI.Auditor.Counted
