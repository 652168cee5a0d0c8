import Mathlib

/-!
# Raft.Types — configurations, log entries, snapshots and messages

The records that the raft server stores and exchanges. Buffers that the source serialises
and parses again (`cluster_config`, `srv_config`, the wrapped entries of a request) are kept
decoded, so a value of `ReqBody` is a request whose payload was read successfully, and an
`Option` payload stands for the formats that the handlers check and refuse.

- server ids and priorities are `Int` (`-1` is the source's "no server")
- terms and log indices are `Nat`
- timers are not state: whoever schedules a step says what its timers show
-/

namespace Xio
namespace Raft

abbrev Bytes := List UInt8

inductive SrvRole
  | follower
  | candidate
  | leader
  deriving DecidableEq, Repr

/-! ## Cluster configuration -/

structure SrvConfig where
  id : Int
  dcId : Int := 0
  endpoint : Bytes := []
  aux : Bytes := []
  learner : Bool := false
  newJoiner : Bool := false
  priority : Int := 1
  deriving DecidableEq, Repr

structure ClusterConfig where
  logIdx : Nat := 0
  prevLogIdx : Nat := 0
  asyncReplication : Bool := false
  userCtx : Bytes := []
  servers : List SrvConfig
  deriving DecidableEq, Repr

namespace ClusterConfig

/-- `set_log_idx`: the old index moves to `prev_log_idx_`. -/
def setLogIdx (c : ClusterConfig) (i : Nat) : ClusterConfig :=
  { c with prevLogIdx := c.logIdx, logIdx := i }

def getServer (c : ClusterConfig) (id : Int) : Option SrvConfig :=
  c.servers.find? (fun s => s.id == id)

/-- Applies `f` to the entries of one server. -/
def mapServer (c : ClusterConfig) (id : Int) (f : SrvConfig → SrvConfig) : ClusterConfig :=
  { c with servers := c.servers.map (fun sc => if sc.id = id then f sc else sc) }

end ClusterConfig

/-! ## Log entries and snapshots -/

/-- What a stored log entry carries: application data or a cluster configuration. -/
inductive LogVal
  | appLog (buf : Bytes)
  | conf (c : ClusterConfig)
  deriving DecidableEq, Repr

structure LogEntry where
  term : Nat
  val : LogVal
  deriving DecidableEq, Repr

namespace LogEntry

def conf? (e : LogEntry) : Option ClusterConfig :=
  match e.val with
  | .appLog _ => none
  | .conf c => some c

def isConf (e : LogEntry) : Bool := e.conf?.isSome

end LogEntry

structure Snapshot where
  lastLogIdx : Nat
  lastLogTerm : Nat
  lastConfig : ClusterConfig
  deriving DecidableEq, Repr

/-- One object of a snapshot transfer: object id, and whether it is the last one. -/
structure SnapshotSyncReq where
  snapshot : Snapshot
  offset : Nat
  done : Bool
  deriving DecidableEq, Repr

/-! ## Persistent server state -/

/-- `srv_state`: what `state_mgr::save_state` makes durable. -/
structure SrvState where
  term : Nat := 0
  votedFor : Int := -1
  electionTimerAllowed : Bool := true
  catchingUp : Bool := false
  receivingSnapshot : Bool := false
  deriving DecidableEq, Repr

/-! ## Requests -/

inductive Notification
  | outOfLogRange (startIdxOfLeader : Nat)
  | leadershipTakeover
  | requestResignation
  deriving DecidableEq, Repr

/-- The type of a request together with its decoded log entries. -/
inductive ReqBody
  /-- `force`: the request carries the special entry that switches priorities off. -/
  | requestVote (force : Bool)
  | preVote
  | appendEntries (entries : List LogEntry)
  | clientRequest (bufs : List Bytes)
  | addServer (srv : Option SrvConfig)
  | removeServer (srvId : Option Int)
  | syncLog (pack : Option (List LogEntry))
  | joinCluster (conf : Option ClusterConfig)
  | leaveCluster
  | installSnapshot (sync : Option SnapshotSyncReq)
  | ping
  | priorityChange (change : Option (Int × Int))
  | reconnect
  | customNotification (note : Option Notification)
  | other
  deriving DecidableEq, Repr

structure ReqMsg where
  term : Nat
  src : Int
  dst : Int
  lastLogTerm : Nat
  lastLogIdx : Nat
  commitIdx : Nat
  body : ReqBody
  deriving DecidableEq, Repr

/-! ## Responses -/

inductive RespType
  | requestVote
  | preVote
  | appendEntries
  | client
  | addServer
  | removeServer
  | syncLog
  | joinCluster
  | leaveCluster
  | installSnapshot
  | ping
  | priorityChange
  | reconnect
  | customNotification
  deriving DecidableEq, Repr

inductive CmdResultCode
  | ok
  | notLeader
  | badRequest
  | serverAlreadyExists
  | configChanging
  | serverIsJoining
  | serverNotFound
  | cannotRemoveLeader
  | serverIsLeaving
  deriving DecidableEq, Repr

/-- Response hint of the append handler (`append_entries_resp` flags). -/
inductive RespHint
  | none
  | doNotRewind
  | receivingSnapshot
  deriving DecidableEq, Repr

structure RespMsg where
  term : Nat
  type : RespType
  src : Int
  dst : Int
  nextIdx : Nat := 0
  accepted : Bool := false
  resultCode : CmdResultCode := .ok
  hint : RespHint := .none
  selfMarkDown : Bool := false
  /-- A snapshot response whose context says that the receiver has the whole snapshot. -/
  snapshotDone : Bool := false
  deriving DecidableEq, Repr

/-- `resp_msg::accept`. -/
def RespMsg.accept (r : RespMsg) (nextIdx : Nat) : RespMsg :=
  { r with nextIdx := nextIdx, accepted := true }

end Raft
end Xio
