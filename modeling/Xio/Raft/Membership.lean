import Xio.Raft.AppendEntries

/-!
# Raft.Membership — configuration operations

The operations that append a configuration entry on a leader, and the messages by which
servers join and leave. Each operation builds the new configuration on its own: some start from
`uncommitted_config_`, some from the committed configuration, and only some record what they
appended. The definitions keep those differences.

`latestConf` is the base of the operations that honour an uncommitted configuration.
-/

namespace Xio
namespace Raft

namespace ClusterConfig

def addServer (c : ClusterConfig) (sc : SrvConfig) : ClusterConfig :=
  { c with servers := c.servers ++ [sc] }

def removeServer (c : ClusterConfig) (id : Int) : ClusterConfig :=
  { c with servers := c.servers.filter (fun sc => sc.id != id) }

end ClusterConfig

namespace RaftServer

variable (s : RaftServer)

def isLeader : Bool := s.leader == s.id && s.role == .leader

/-- The uncommitted configuration if one is recorded, else the committed one. -/
def latestConf : ClusterConfig := s.uncommittedConfig.getD s.config

/-! ## Operations on the configuration -/

def setUserCtx (env : Env) (ctx : Bytes) : RaftServer :=
  s.appendConf env { s.config.setLogIdx s.log.nextSlot with userCtx := ctx }

def updateSrvConfig (env : Env) (new : SrvConfig) : RaftServer × Bool :=
  if s.isLeader = false ∧ env.tested = false then (s, false)
  else
    match s.config.getServer new.id with
    | none => (s, false)
    | some prev =>
      if prev.newJoiner ∨ prev.endpoint ≠ new.endpoint then (s, false)
      else
        (s.appendConf env
          ((s.config.setLogIdx s.log.nextSlot).mapServer new.id (fun _ => new)), true)

def flipLearnerFlag (env : Env) (srvId : Int) (flag : Bool) : RaftServer × CmdResultCode :=
  if (s.role ≠ .leader ∨ s.writePaused) ∧ env.tested = false then (s, .notLeader)
  else if s.configChanging ∧ env.tested = false then (s, .configChanging)
  else
    match s.config.getServer srvId with
    | none => (s, .serverNotFound)
    | some sc =>
      if sc.learner = flag then (s, .ok)
      else
        let c := (s.config.setLogIdx s.log.nextSlot).mapServer srvId
          (fun sc => { sc with learner := flag })
        ((s.markChanging c).appendConf env c, .ok)

/-- `broadcast_priority_change`, which edits the committed configuration in place. -/
def broadcastPriorityChange (srvId priority : Int) : RaftServer × List ReqMsg :=
  let s₁ : RaftServer :=
    { s with
      myPriority := if srvId = s.id then priority else s.myPriority
      config := s.config.mapServer srvId (fun sc => { sc with priority := priority }) }
  (s₁, s₁.peers.map (fun p => s₁.positionReq p.id (.priorityChange (some (srvId, priority)))))

inductive PrioritySetResult
  | set
  | broadcast
  | ignored
  deriving DecidableEq, Repr

def setPriority (env : Env) (srvId priority : Int) (broadcastWhenLeaderExists : Bool) :
    RaftServer × List ReqMsg × PrioritySetResult :=
  if s.id ≠ s.leader then
    if s.leader = -1 ∨ s.hbAlive = false ∨ broadcastWhenLeaderExists then
      let r := s.broadcastPriorityChange srvId priority
      (r.1, r.2, .broadcast)
    else (s, [], .ignored)
  else if s.id = srvId ∧ priority = 0 then
    let r := s.broadcastPriorityChange srvId priority
    (r.1, r.2, .broadcast)
  else
    let c := (s.latestConf.mapServer srvId (fun sc => { sc with priority := priority })).setLogIdx
      s.log.nextSlot
    ((s.markChanging c).appendConf env c, [], .set)

def handlePriorityChangeReq (req : ReqMsg) (change : Option (Int × Int)) : RaftServer × RespMsg :=
  let resp : RespMsg := { term := req.term, type := .priorityChange, src := s.id, dst := req.src }
  match change with
  | none => (s, resp)
  | some (id, priority) =>
    let s₁ : RaftServer := { s with myPriority := if id = s.id then priority else s.myPriority }
    if (s₁.config.getServer id).isNone then (s₁, resp)
    else
      ({ s₁ with config := s₁.config.mapServer id (fun sc => { sc with priority := priority }) },
        resp.accept s.log.nextSlot)

/-! ## Adding a server -/

@[simps] def resetSrvToJoin : RaftServer := { s with srvToJoin := none }

@[simps] def setSrvToJoin (p : Peer) : RaftServer := { s with srvToJoin := some p }

def inviteSrvToJoinCluster (p : Peer) : ReqMsg :=
  { term := s.state.term
    src := s.id
    dst := p.id
    lastLogTerm := 0
    lastLogIdx := s.log.nextSlot - 1
    commitIdx := s.quickCommitIndex
    body := .joinCluster (some s.config) }

/-- `env.timedOut`: the server that leaves, or the one that joins, was silent for too long. -/
def handleAddSrvReq (env : Env) (srv : Option SrvConfig) : RaftServer × List ReqMsg × RespMsg :=
  let resp : RespMsg := { term := s.state.term, type := .addServer, src := s.id, dst := s.leader }
  match srv with
  | none => (s, [], { resp with resultCode := .badRequest })
  | some srv =>
    if s.role ≠ .leader ∨ s.writePaused then (s, [], { resp with resultCode := .notLeader })
    else
      let s₁ := s.checkSrvToLeaveTimeout env
      let conf := if s₁.params.useNewJoinerType then { srv with newJoiner := true } else srv
      if (s₁.findPeer conf.id).isSome ∨ s₁.id = conf.id then
        (s₁, [], { resp with resultCode := .serverAlreadyExists })
      else if s₁.configChanging then (s₁, [], { resp with resultCode := .configChanging })
      else if s₁.srvToJoin.isSome ∧ env.timedOut = false then
        (s₁, [], { resp with resultCode := .serverIsJoining })
      else
        let p : Peer := { config := conf }
        let s₂ : RaftServer := { s₁ with srvToJoin := some p, confToAdd := some conf }
        (s₂, [s₂.inviteSrvToJoinCluster p], resp.accept s₂.log.nextSlot)

def confWithJoiner (sc : SrvConfig) : ClusterConfig :=
  (s.latestConf.setLogIdx s.log.nextSlot).addServer sc

/-- `sync_log_to_new_srv`: once the new server is close enough, it is put into the cluster.
Nothing is checked about other changes on the way. -/
def syncLogToNewSrv (env : Env) (startIdx : Nat) : RaftServer × List ReqMsg :=
  match s.srvToJoin, s.confToAdd with
  | some p, some sc =>
    let gap := s.quickCommitIndex - startIdx
    if gap < s.params.logSyncStopGap ∨ s.params.logSyncStopGap = 0 ∨ s.params.useNewJoinerType then
      let c := s.confWithJoiner sc
      ((s.markChanging c).appendConf env c, [])
    else if startIdx < s.log.startIndex then
      match s.createSyncSnapshotReq env p startIdx with
      | some (p', req) => (s.setSrvToJoin p', [req])
      | none => (s, [])
    else
      (s, [{ term := s.state.term
             src := s.id
             dst := p.id
             lastLogTerm := 0
             lastLogIdx := startIdx - 1
             commitIdx := s.quickCommitIndex
             body := .syncLog (some (s.log.logEntries startIdx
               (startIdx + min gap s.params.logSyncBatchSize))) }])
  | _, _ => (s, [])

/-- `handle_join_cluster_resp`; `fromJoiner` says whether the response belongs to the server that
is being added now. -/
def handleJoinClusterResp (env : Env) (resp : RespMsg) (fromJoiner : Bool) :
    RaftServer × List ReqMsg :=
  if fromJoiner ∧ resp.accepted then s.syncLogToNewSrv env resp.nextIdx else (s, [])

def handleLogSyncReq (req : ReqMsg) (pack : Option (List LogEntry)) : RaftServer × RespMsg :=
  let resp : RespMsg :=
    { term := s.state.term
      type := .syncLog
      src := s.id
      dst := req.src
      nextIdx := s.log.nextSlot }
  match pack with
  | none => (s, resp)
  | some es =>
    if s.state.catchingUp = false then (s, resp)
    else
      let l := s.log.applyPack (req.lastLogIdx + 1) es
      let s₁ : RaftServer := { s with log := l, precommitIndex := l.nextSlot - 1 }
      (s₁.commit (l.nextSlot - 1), resp.accept l.nextSlot)

def handleLogSyncResp (env : Env) (resp : RespMsg) : RaftServer × List ReqMsg :=
  match s.srvToJoin with
  | none => (s, [])
  | some p =>
    let p₁ : Peer := { p with nextLogIdx := resp.nextIdx, matchedIdx := resp.nextIdx - 1 }
    (s.setSrvToJoin p₁).syncLogToNewSrv env resp.nextIdx

def handleInstallSnapshotRespNewMember (env : Env) (resp : RespMsg) : RaftServer × List ReqMsg :=
  match s.srvToJoin with
  | none => (s, [])
  | some p =>
    let p₁ : Peer := if resp.accepted then p else { p with nextLogIdx := resp.nextIdx }
    match p₁.snpSyncCtx with
    | none => (s.setSrvToJoin p₁, [])
    | some ctx =>
      let p₂ : Peer :=
        if resp.snapshotDone then
          { p₁ with
            nextLogIdx := ctx.snapshot.lastLogIdx + 1
            matchedIdx := ctx.snapshot.lastLogIdx
            snpSyncCtx := none }
        else { p₁ with snpSyncCtx := some { ctx with offset := resp.nextIdx } }
      (s.setSrvToJoin p₂).syncLogToNewSrv env p₂.nextLogIdx

/-- Servers of a configuration other than this one, with their endpoints. -/
def otherServers (c : ClusterConfig) : List (Int × Bytes) :=
  (c.servers.filter (fun sc => sc.id != s.id)).map (fun sc => (sc.id, sc.endpoint))

def sameServers (a b : List (Int × Bytes)) : Bool :=
  a.all (fun x => decide (x ∈ b)) && b.all (fun x => decide (x ∈ a))

/-- What a server without a cluster does when it accepts an invitation. -/
def joinCluster (req : ReqMsg) (c : ClusterConfig) : RaftServer :=
  let s₁ : RaftServer :=
    { s with
      srvToJoin := none
      state := { s.state with catchingUp := true, votedFor := -1, term := req.term }
      role := .follower
      indexAtBecomingLeader := 0
      leader := req.src
      smCommitIndex := if s.state.catchingUp then s.smCommitIndex else s.initialCommitIndex
      quickCommitIndex :=
        if s.state.catchingUp then s.quickCommitIndex else s.initialCommitIndex }
  s₁.saveState.reconfigure c

def handleJoinClusterReq (req : ReqMsg) (conf : Option ClusterConfig) : RaftServer × RespMsg :=
  let resp : RespMsg :=
    { term := s.state.term, type := .joinCluster, src := s.id, dst := req.src }
  match conf with
  | none => (s, resp)
  | some c =>
    if 1 < s.config.servers.length then
      -- already in a cluster: accepted again only if the invitation is from the same one
      if sameServers (s.otherServers c) (s.otherServers s.config) then
        (s, resp.accept (s.quickCommitIndex + 1))
      else (s, resp)
    else if s.srvToJoin.isSome ∧ s.id ≤ req.src then (s, resp)
    else
      let s₁ := s.joinCluster req c
      (s₁, resp.accept (s₁.quickCommitIndex + 1))

/-! ## Removing a server -/

def handleRmSrvReq (env : Env) (srvId : Option Int) : RaftServer × List ReqMsg × RespMsg :=
  let resp : RespMsg :=
    { term := s.state.term, type := .removeServer, src := s.id, dst := s.leader }
  match srvId with
  | none => (s, [], { resp with resultCode := .badRequest })
  | some id =>
    if s.role ≠ .leader ∨ s.writePaused then (s, [], { resp with resultCode := .notLeader })
    else
      let s₁ := s.checkSrvToLeaveTimeout env
      if s₁.srvToLeave.isSome ∨ s₁.peers.any Peer.leaveRequested then
        (s₁, [], { resp with resultCode := .serverIsLeaving })
      else if s₁.configChanging then (s₁, [], { resp with resultCode := .configChanging })
      else if id = s₁.id then (s₁, [], { resp with resultCode := .cannotRemoveLeader })
      else if (s₁.findPeer id).isNone then (s₁, [], { resp with resultCode := .serverNotFound })
      else
        (s₁.updatePeer id (fun p => { p with leaveRequested := true }),
          [{ s₁.positionReq id .leaveCluster with lastLogTerm := 0 }],
          resp.accept s₁.log.nextSlot)

def confWithoutServer (srvId : Int) : ClusterConfig :=
  (s.latestConf.setLogIdx s.log.nextSlot).removeServer srvId

/-- `rm_srv_from_cluster` checks for another leaving server only. -/
def rmSrvFromCluster (env : Env) (srvId : Int) : RaftServer :=
  if s.srvToLeave.isSome then s
  else
    let c := s.confWithoutServer srvId
    let s₁ := (s.markChanging c).storeLogEntry ⟨s.state.term, .conf c⟩
    let s₂ : RaftServer :=
      if (s.findPeer srvId).isSome then
        { s₁ with srvToLeave := some srvId, srvToLeaveTargetIdx := c.logIdx }
      else s₁
    s₂.requestAppendEntries env

def handleLeaveClusterReq (req : ReqMsg) : RaftServer × RespMsg :=
  let resp : RespMsg :=
    { term := s.state.term, type := .leaveCluster, src := s.id, dst := req.src }
  if s.configChanging then (s, resp)
  else ({ s with stepsToDown := 2 }, resp.accept s.log.nextSlot)

def handleLeaveClusterResp (env : Env) (resp : RespMsg) : RaftServer :=
  if resp.accepted then s.rmSrvFromCluster env resp.src else s

/-- `handle_join_leave_rpc_err` for a leaving server. -/
def handleLeaveRpcErr (env : Env) (id : Int) : RaftServer :=
  let s₁ :=
    if s.peers.length = 1 then (s.removePeerFromPeers id).resetSrvToLeave else s
  match s₁.srvToLeave with
  | some leaving => (s₁.removePeerFromPeers leaving).resetSrvToLeave
  | none => s₁.rmSrvFromCluster env id

/-- `handle_join_leave_rpc_err` for a joining server. -/
def handleJoinRpcErr : RaftServer := resetSrvToJoin { s with configChanging := false }

end RaftServer
end Raft
end Xio
