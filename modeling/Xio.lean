import Xio.Raft.VoteRule
import Xio.Raft.Learner
import Xio.Raft.MembershipChange
import Xio.Raft.SmCommitNotify
import Xio.Raft.PreVote
import Xio.Raft.JoinSync
import Xio.Raft.Precommit
import Xio.Raft.CommitQueue
import Xio.Rpc.Client
import Xio.Raft.BlockingCompletion
import Xio.Raft.ConfIndex
import Xio.Raft.AutoForward
import Xio.Codec.InmemLog
import Xio.Rpc.PayloadScan
import Xio.Rpc.ResponseDelivery
import Xio.Rpc.MessageCrc
import Xio.Raft.Succession
import Xio.Raft.FollowerCalls
import Xio.Raft.ApplyOrder
import Xio.Raft.StreamWindow
import Xio.Raft.SnapshotConfig
import Xio.Raft.SnapshotLog
import Xio.Raft.SnapshotIo
import Xio.Raft.CatchUp
import Xio.Codec.Records
import Xio.Raft.MutualJoin
import Xio.Raft.PeerFlight
import Xio.Codec.BufferStats
import Xio.Detail.Strand
import Xio.Detail.SignalFork
import Xio.Ip.NetworkText
import Xio.Raft.Durability
import Xio.Raft.EventAwaiter
