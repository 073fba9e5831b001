import BlipMQ.Lib.Buf
import BlipMQ.Lib.Bytes
import BlipMQ.Lib.Crc32
import BlipMQ.Lib.Dir
import BlipMQ.Lib.Exchange
import BlipMQ.Lib.Heap
import BlipMQ.Lib.HighWater
import BlipMQ.Lib.Machine
import BlipMQ.Lib.Maps
import BlipMQ.Lib.Run
import BlipMQ.Lib.Stream
import BlipMQ.Lib.Threads
import BlipMQ.Lib.Turns
import BlipMQ.Wal.Durability
import BlipMQ.Wal.LossWindow
import BlipMQ.Wal.Crash
import BlipMQ.Wal.BitFlip
import BlipMQ.Wal.Grammar
import BlipMQ.Wal.Iterate
import BlipMQ.Wal.TornTail
import BlipMQ.Wal.Compaction
import BlipMQ.Wal.FailedCompaction
import BlipMQ.Wal.Sessions
import BlipMQ.Wal.Sizing
import BlipMQ.Wal.ConcurrentReads
import BlipMQ.Core.OnDisk
import BlipMQ.Core.Replay
import BlipMQ.Core.Scan
import BlipMQ.Core.Conservation
import BlipMQ.Core.Capacity
import BlipMQ.Core.PendingLength
import BlipMQ.Core.FirstReturns
import BlipMQ.Core.Retry
import BlipMQ.Core.Consistency
import BlipMQ.Core.Handles
import BlipMQ.Core.Tags
import BlipMQ.Core.EffectiveQos
import BlipMQ.Core.ReplayTargets
import BlipMQ.Core.TopicNames
import BlipMQ.Core.ExactPattern
import BlipMQ.Core.GroupBalance
import BlipMQ.Core.OffsetSlice
import BlipMQ.Core.ConcurrentPublish
import BlipMQ.Core.Uninterrupted
import BlipMQ.Net.Handler
import BlipMQ.Net.Wire
import BlipMQ.Net.Payloads
import BlipMQ.Net.Reads
import BlipMQ.Net.Server
import BlipMQ.Net.Keyed
import BlipMQ.Net.Routing
import BlipMQ.Net.Publish
import BlipMQ.Net.Connection
import BlipMQ.Net.Deliver
import BlipMQ.Net.Encoder
import BlipMQ.Net.SlotBound
import BlipMQ.Net.WriterTask
import BlipMQ.Daemon.Recovery
import BlipMQ.Daemon.Checkpoint
import BlipMQ.Daemon.Restart
import BlipMQ.Daemon.Retention
import BlipMQ.Daemon.GroupOffset
import BlipMQ.Daemon.Cursors
import BlipMQ.Daemon.WriteAhead
import BlipMQ.Daemon.OffsetReplay
import BlipMQ.Daemon.Persist
