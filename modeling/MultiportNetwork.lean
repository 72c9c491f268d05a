import MultiportNetwork.Lib.ByteOrder
import MultiportNetwork.Lib.Memory
import MultiportNetwork.Lib.Run
import MultiportNetwork.Lib.Framer
import MultiportNetwork.Define
import MultiportNetwork.Server.Reply
import MultiportNetwork.Server.Parse
import MultiportNetwork.Server.Process
import MultiportNetwork.Spec.Session
import MultiportNetwork.Spec.Stream
import MultiportNetwork.Server.Window
import MultiportNetwork.Server.Cases
import MultiportNetwork.Server.Inv
import MultiportNetwork.Refine
import MultiportNetwork.Server.Call
import MultiportNetwork.Server.Exec
import MultiportNetwork.Segmentation
import MultiportNetwork.Framing
import MultiportNetwork.Accounting
import MultiportNetwork.Batch
import MultiportNetwork.Stranded
import MultiportNetwork.Refused
import MultiportNetwork.Lib.Interleave
import MultiportNetwork.Server.Connections
import MultiportNetwork.Isolation
import MultiportNetwork.HandOver
import MultiportNetwork.Server.Returns
import MultiportNetwork.WriteOut
import MultiportNetwork.BufferBounds
import MultiportNetwork.Single
import MultiportNetwork.Lib.Cursor
import MultiportNetwork.Lib.Decimal
import MultiportNetwork.Client.Package
import MultiportNetwork.Lib.Builder
import MultiportNetwork.Client.GetBatch
import MultiportNetwork.Client.BatchesServed
import MultiportNetwork.Client.MicroTest
import MultiportNetwork.Client.Dispatch
import MultiportNetwork.Receive
import MultiportNetwork.Failures
import MultiportNetwork.Numbered
import MultiportNetwork.Client.Keys
import MultiportNetwork.Client.SendBatches
import MultiportNetwork.Lib.Atomic
import MultiportNetwork.Lib.Uses
import MultiportNetwork.Lib.Locks
import MultiportNetwork.Lib.LevelOrder
import MultiportNetwork.Lib.Cells
import MultiportNetwork.Cuckoo.Hash
import MultiportNetwork.Cuckoo.Bucket
import MultiportNetwork.Cuckoo.Move
import MultiportNetwork.Cuckoo.Map
import MultiportNetwork.Cuckoo.Expand
import MultiportNetwork.Cuckoo.Entries
import MultiportNetwork.Cuckoo.Insert
import MultiportNetwork.Cuckoo.Step
import MultiportNetwork.Cuckoo.Linear
import MultiportNetwork.Cuckoo.Search
import MultiportNetwork.Cuckoo.Displace
import MultiportNetwork.Cuckoo.Ends
import MultiportNetwork.Cuckoo.Locks
import MultiportNetwork.Server.Table
import MultiportNetwork.Cuckoo.Needs
import MultiportNetwork.Cuckoo.LocksOk
import MultiportNetwork.Cuckoo.Mutex
import MultiportNetwork.Cuckoo.Protect
import MultiportNetwork.Cuckoo.Alone
import MultiportNetwork.Server.Locked
import MultiportNetwork.Client.ThreadPool
