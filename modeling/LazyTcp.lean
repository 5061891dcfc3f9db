import LazyTcp.General.Bytes
import LazyTcp.General.Keyed
import LazyTcp.General.Linked
import LazyTcp.General.Blocks
import LazyTcp.General.Run
import LazyTcp.General.Fifo
import LazyTcp.General.CondVar
import LazyTcp.General.Schedule
import LazyTcp.General.Records
import LazyTcp.General.Messages
import LazyTcp.General.SeqNum
import LazyTcp.General.OnesComplement
import LazyTcp.General.Checksum
import LazyTcp.General.Rfc1071
import LazyTcp.General.Wire
import LazyTcp.General.Bounded
import LazyTcp.General.Reassembly
import LazyTcp.Refactor.Ip
import LazyTcp.Refactor.Tcb
import LazyTcp.Refactor.Tcp
import LazyTcp.Refactor.Replies
import LazyTcp.Refactor.Table
import LazyTcp.Refactor.TableMap
import LazyTcp.Refactor.TableCount
import LazyTcp.Refactor.Connection
import LazyTcp.Refactor.Reach
import LazyTcp.Refactor.Craft
import LazyTcp.Refactor.Validate
import LazyTcp.Refactor.Handshake
import LazyTcp.Refactor.Independence
import LazyTcp.Refactor.Window
import LazyTcp.Refactor.Completeness
import LazyTcp.Refactor.Integrity
import LazyTcp.Refactor.SynAck
import LazyTcp.Refactor.Acceptance
import LazyTcp.Refactor.Drops
import LazyTcp.Refactor.Resets
import LazyTcp.Refactor.Duplicates
import LazyTcp.Refactor.Demux
import LazyTcp.Refactor.IcmpReplies
import LazyTcp.Refactor.Quiet
import LazyTcp.Refactor.Malformed
import LazyTcp.Refactor.AllocFailure
import LazyTcp.Refactor.Agree
import LazyTcp.Refactor.Leakage
import LazyTcp.Refactor.Pointers
import LazyTcp.Refactor.PointerVectors
import LazyTcp.Refactor.PointerTable
import LazyTcp.Refactor.PointerDestroy
import LazyTcp.Refactor.PointerRuns
import LazyTcp.Refactor.Log
import LazyTcp.Refactor.Server
import LazyTcp.Refactor.LogStream
import LazyTcp.Refactor.Relay
import LazyTcp.Refactor.Bounds
import LazyTcp.Refactor.InBounds
import LazyTcp.Legacy.Network
import LazyTcp.Legacy.Http
import LazyTcp.Legacy.Tcp
import LazyTcp.Legacy.Machine
import LazyTcp.Legacy.Linked
import LazyTcp.Legacy.LinkedRuns
import LazyTcp.Legacy.AllocFailure
import LazyTcp.Legacy.Replies
import LazyTcp.Legacy.Answers
import LazyTcp.Legacy.HalfOpen
import LazyTcp.Legacy.Stream
import LazyTcp.Legacy.ReplyStream
import LazyTcp.Legacy.Bounds
import LazyTcp.Legacy.InBounds
import LazyTcp.Legacy.Verifies
import LazyTcp.Legacy.Client
import LazyTcp.Legacy.Session
import LazyTcp.Legacy.SessionRuns
import LazyTcp.Legacy.HttpMessages
import LazyTcp.ThreadPool.Pool
import LazyTcp.ThreadPool.Shutdown
import LazyTcp.ThreadPool.Monitor
import LazyTcp.ThreadPool.Fairness
import LazyTcp.Rewrite.Resets
import LazyTcp.Rewrite.RstReply
import LazyTcp.Rewrite.Session
import LazyTcp.Rewrite.SessionRuns
