import Xio.Raft.Membership

/-!
# Raft.Process — every input of a server

Dispatch of requests (`process_req`), of responses (`handle_peer_resp`, `handle_ext_resp`) and of
RPC errors, the public calls, the timers, and restart. `RaftServer.step` is one critical section
of the server lock. Two kinds of code work outside of it. The public calls that append a
configuration take no lock: `Env.tested` is such a call whose tests were made in an earlier state,
and `ConfIndex` has the threads. With `dual_mutex` a client request stores its entries and raises
`precommit_index_` under `cli_lock_` only, while `handleCliReq` does both in one step; `Precommit`
and `NextIndex` have the two apart.
-/

namespace Xio
namespace Raft

/-- What one step hands back: requests for other servers and the response to the caller. -/
structure Output where
  sent : List ReqMsg := []
  resp : Option RespMsg := none
  deriving DecidableEq, Repr

namespace RaftServer

variable (s : RaftServer)

/-! ## Client requests -/

def appendBufs (bufs : List Bytes) : RaftServer :=
  bufs.foldl (fun t b => t.storeLogEntry ⟨s.state.term, .appLog b⟩) s

/-- `handle_cli_req` with the replication that its caller asks for. -/
def handleCliReq (env : Env) (bufs : List Bytes) : RaftServer × RespMsg :=
  let resp : RespMsg :=
    { term := s.state.term, type := .appendEntries, src := s.id, dst := s.leader }
  if s.role ≠ .leader ∨ s.writePaused then (s, { resp with resultCode := .notLeader })
  else
    let s₁ := s.appendBufs bufs
    let s₂ := if bufs = [] then s₁ else s₁.tryUpdatePrecommitIndex (s₁.log.nextSlot - 1)
    (s₂.requestAppendEntries env, resp.accept s₂.log.nextSlot)

/-! ## Custom notifications -/

def handleLeadershipTakeover (env : Env) : RaftServer × List ReqMsg :=
  if s.isLeader then (s, [])
  else
    let r := s.initiateVote env true
    (r.1.restartElectionTimer, r.2)

def handleResignationRequest (env : Env) (src : Int) : RaftServer :=
  if s.isLeader then s.yieldLeadership env false src else s

def handleOutOfLogMsg (req : ReqMsg) : RaftServer :=
  let s₁ : RaftServer := { (s.updateTerm req.term).1 with outOfLogRange := true }
  if req.term = s₁.state.term ∧ s₁.role = .follower then s₁.restartElectionTimer else s₁

def handleCustomNotificationReq (env : Env) (req : ReqMsg) (note : Option Notification) :
    RaftServer × Output :=
  let resp : RespMsg :=
    { term := s.state.term
      type := .customNotification
      src := s.id
      dst := req.src
      nextIdx := s.log.nextSlot
      accepted := true }
  match note with
  | none => (s, { resp := some resp })
  | some (.outOfLogRange _) => (s.handleOutOfLogMsg req, { resp := some resp })
  | some .leadershipTakeover =>
    let r := s.handleLeadershipTakeover env
    (r.1, { sent := r.2, resp := some resp })
  | some .requestResignation =>
    (s.handleResignationRequest env req.src, { resp := some resp })

/-! ## Requests from other servers -/

/-- Priority decay, and the postponed departure of a server that was asked to leave. -/
@[simps] def afterTermUpdate (decay : Bool) : RaftServer :=
  { s with
    targetPriority := if decay then s.decayTargetPriority.targetPriority else s.targetPriority
    stepsToDown := if 0 < s.stepsToDown then 2 else s.stepsToDown }

/-- `process_req` raises the term for three request types only. -/
def updateTermOnReq (req : ReqMsg) : RaftServer :=
  let r := s.updateTerm req.term
  match req.body with
  | .appendEntries _ | .installSnapshot _ => r.1.afterTermUpdate false
  | .requestVote _ => r.1.afterTermUpdate (!r.1.imLearner && !r.1.hbAlive && r.2)
  | _ => s

@[simp] theorem updateTermOnReq_frame (req : ReqMsg) :
    let t := s.updateTermOnReq req
    t.id = s.id ∧ t.config = s.config ∧ t.log = s.log ∧ t.peers = s.peers ∧
    t.lastSnapshot = s.lastSnapshot ∧ t.snpInProgress = s.snpInProgress ∧
    t.applyingSnapshots = s.applyingSnapshots ∧ t.imLearner = s.imLearner ∧
    t.quickCommitIndex = s.quickCommitIndex ∧ t.smCommitIndex = s.smCommitIndex ∧
    t.precommitIndex = s.precommitIndex ∧ t.configChanging = s.configChanging ∧
    t.srvToLeave = s.srvToLeave := by
  unfold updateTermOnReq
  split <;> simp

def handleReconnectReq (req : ReqMsg) : RespMsg :=
  let resp : RespMsg := { term := s.state.term, type := .reconnect, src := s.id, dst := req.src }
  if s.role = .leader ∧ (s.findPeer req.src).isSome then resp.accept s.log.nextSlot else resp

/-- `process_req`; `none` is the exit of a server that meets another leader of its term. -/
def processReq (env : Env) (req : ReqMsg) : Option (RaftServer × Output) :=
  let s₁ := s.updateTermOnReq req
  match req.body with
  | .clientRequest bufs =>
    let r := s₁.handleCliReq env bufs
    some (r.1, { resp := some r.2 })
  | .appendEntries entries =>
    let r := s₁.handleAppendEntries env req entries
    some (r.1, { resp := r.2 })
  | .requestVote force =>
    let r := s₁.handleVoteReq req force
    some (r.1, { resp := some r.2 })
  | .preVote => some (s₁, { resp := some (s₁.handlePrevoteReq req) })
  | .ping =>
    let resp : RespMsg := { term := s₁.state.term, type := .ping, src := s₁.id, dst := req.src }
    some (s₁, { resp := some resp })
  | .priorityChange change =>
    let r := s₁.handlePriorityChangeReq req change
    some (r.1, { resp := some r.2 })
  | .addServer srv =>
    let r := s₁.handleAddSrvReq env srv
    some (r.1, { sent := r.2.1, resp := some r.2.2 })
  | .removeServer id =>
    let r := s₁.handleRmSrvReq env id
    some (r.1, { sent := r.2.1, resp := some r.2.2 })
  | .syncLog pack =>
    let r := s₁.handleLogSyncReq req pack
    some (r.1, { resp := some r.2 })
  | .joinCluster conf =>
    let r := s₁.handleJoinClusterReq req conf
    some (r.1, { resp := some r.2 })
  | .leaveCluster =>
    let r := s₁.handleLeaveClusterReq req
    some (r.1, { resp := some r.2 })
  | .installSnapshot sync =>
    (s₁.handleInstallSnapshotReq env req sync).map (fun r => (r.1, { resp := r.2 }))
  | .reconnect => some (s₁, { resp := some (s₁.handleReconnectReq req) })
  | .customNotification note => some (s₁.handleCustomNotificationReq env req note)
  | .other => some (s₁, {})

variable {s} in
theorem processReq_vote (env : Env) {req : ReqMsg} {force : Bool}
    (hb : req.body = .requestVote force) :
    s.processReq env req = some (((s.updateTermOnReq req).handleVoteReq req force).1,
      { resp := some ((s.updateTermOnReq req).handleVoteReq req force).2 }) := by
  rw [processReq, hb]

/-! ## Responses and RPC errors -/

def handleCustomNotificationResp (resp : RespMsg) : RaftServer :=
  if resp.accepted then s.updatePeer resp.src (fun p => { p with nextLogIdx := resp.nextIdx })
  else s

/-- `handle_peer_resp`: a newer term ends the handling, an older one is not looked at. -/
def handlePeerResp (env : Env) (resp : RespMsg) : RaftServer × List ReqMsg :=
  let r := s.updateTerm resp.term
  if r.2 then (r.1, [])
  else
    match resp.type with
    | .preVote => s.handlePrevoteResp env resp
    | .requestVote => (s.handleVoteResp env resp, [])
    | .appendEntries => s.handleAppendEntriesResp env resp
    | .installSnapshot => (s.handleInstallSnapshotResp resp, [])
    | .customNotification => (s.handleCustomNotificationResp resp, [])
    | _ => (s, [])

/-- `handle_ext_resp`: responses about joining and leaving. -/
def handleExtResp (env : Env) (resp : RespMsg) (fromJoiner : Bool) : RaftServer × List ReqMsg :=
  match resp.type with
  | .syncLog => s.handleLogSyncResp env resp
  | .joinCluster => s.handleJoinClusterResp env resp fromJoiner
  | .leaveCluster => (s.handleLeaveClusterResp env resp, [])
  | .installSnapshot => s.handleInstallSnapshotRespNewMember env resp
  | _ => (s, [])

/-- A failed request to a peer: the snapshot context may time out, and a server that was asked to
leave is removed without its answer. -/
def handlePeerErr (env : Env) (dst : Int) : RaftServer :=
  match s.findPeer dst with
  | none => s
  | some p =>
    let s₁ :=
      if env.timedOut then s.updatePeer dst (fun p => { p with snpSyncCtx := none }) else s
    if p.leaveRequested then s₁.handleLeaveRpcErr env dst else s₁

/-- `handle_ext_resp_err` once the retries are used up. -/
def handleExtRespErr (env : Env) (dst : Int) (leaving : Bool) : RaftServer :=
  if leaving then
    if (s.findPeer dst).isSome then s.handleLeaveRpcErr env dst else s
  else if s.srvToJoin.isSome then s.handleJoinRpcErr else s

/-! ## Heartbeat timer -/

/-- What `handle_hb_timeout` does besides sending; `expired` says that the commit quorum is silent. -/
def handleHbTimeout (env : Env) (expired : Bool) : RaftServer :=
  let s₁ := s.checkSrvToLeaveTimeout env
  if s₁.writePaused ∧ env.timedOut then s₁.stepDown
  else if s₁.role ≠ .leader then s₁
  else if expired then s₁.yieldLeadership env true (-1)
  else s₁.updateTargetPriority

def requestLeadership : List ReqMsg :=
  if s.id = s.leader ∨ s.leader = -1 ∨ (s.findPeer s.leader).isNone then []
  else [s.positionReq s.leader (.customNotification (some .requestResignation))]

/-! ## Restart -/

/-- The constructor on the durable data: `applied` is the state machine's last commit index. -/
def restart (applied : Nat) : RaftServer :=
  let own := s.config.getServer s.id
  { id := s.id
    params := s.params
    peers := (s.config.servers.filter (fun c => c.id != s.id)).map (fun c => { config := c })
    state := s.savedState
    savedState := s.savedState
    log := s.log
    lastSnapshot := s.lastSnapshot
    quickCommitIndex := applied
    smCommitIndex := applied
    initialCommitIndex := applied
    precommitIndex := s.log.nextSlot - 1
    laggingSmTargetIndex := s.log.nextSlot - 1
    voteInitTimerTerm := s.savedState.term
    myPriority := own.elim 1 SrvConfig.priority
    imLearner := own.elim false SrvConfig.learner
    config := s.config
    configChanging := (s.log.entries.drop (applied + 1 - s.log.startIndex)).any LogEntry.isConf }

/-! ## One step -/

inductive Input
  | request (req : ReqMsg)
  | response (resp : RespMsg)
  | extResponse (resp : RespMsg) (fromJoiner : Bool)
  | peerError (dst : Int)
  | extError (dst : Int) (leaving : Bool)
  | electionTimeout
  | heartbeatTimeout (expired : Bool)
  | retryJoinSync
  | sendAppend (dst : Int) (reconnect : Bool) (custom : Nat)
  /-- `append_entries_in_bg_exec`, which every client request asks for, a refused one, too. -/
  | appendEntriesInBg
  | logAppendCompletion (ok : Bool)
  | finishSnapshot (pending : PendingInstall)
  | adjustCommit
  | commitNext
  | createSnapshot (forced : Bool)
  | snapshotCompleted (ok : Bool)
  | setUserCtx (ctx : Bytes)
  | updateSrvConfig (srv : SrvConfig)
  | flipLearnerFlag (srvId : Int) (flag : Bool)
  | setPriority (srvId priority : Int) (broadcast : Bool)
  | yieldLeadership (immediateYield : Bool) (successor : Int)
  | requestLeadership
  | restart (applied : Nat)
  deriving DecidableEq, Repr

def step (env : Env) : Input → Option (RaftServer × Output)
  | .request req => s.processReq env req
  | .response resp => let r := s.handlePeerResp env resp; some (r.1, { sent := r.2 })
  | .extResponse resp fromJoiner =>
    let r := s.handleExtResp env resp fromJoiner
    some (r.1, { sent := r.2 })
  | .peerError dst => some (s.handlePeerErr env dst, {})
  | .extError dst leaving => some (s.handleExtRespErr env dst leaving, {})
  | .electionTimeout => let r := s.handleElectionTimeout env; some (r.1, { sent := r.2 })
  | .heartbeatTimeout expired => some (s.handleHbTimeout env expired, {})
  | .retryJoinSync => let r := s.syncLogToNewSrv env 0; some (r.1, { sent := r.2 })
  | .sendAppend dst reconnect custom =>
    (s.requestAppendEntriesTo env dst reconnect custom).map (fun r => (r.1, { sent := [r.2] }))
  | .appendEntriesInBg => some (s.requestAppendEntries env, {})
  | .logAppendCompletion ok => some (s.notifyLogAppendCompletion env ok, {})
  | .finishSnapshot pending =>
    if pending ∈ s.applyingSnapshots then
      (s.finishSnapshot pending).map (fun r => (r.1, { resp := some r.2 }))
    else none
  | .adjustCommit => some (s.adjustSmCommitIndex, {})
  | .commitNext => s.commitNext.map (fun t => (t, {}))
  | .createSnapshot forced => some (s.snapshotAndCompact env forced, {})
  | .snapshotCompleted ok => some (s.onSnapshotCompleted ok, {})
  | .setUserCtx ctx => some (s.setUserCtx env ctx, {})
  | .updateSrvConfig srv => some ((s.updateSrvConfig env srv).1, {})
  | .flipLearnerFlag id flag => some ((s.flipLearnerFlag env id flag).1, {})
  | .setPriority id priority broadcast =>
    let r := s.setPriority env id priority broadcast
    some (r.1, { sent := r.2.1 })
  | .yieldLeadership immediateYield successor =>
    some (s.yieldLeadership env immediateYield successor, {})
  | .requestLeadership => some (s, { sent := s.requestLeadership })
  | .restart applied =>
    if applied ≤ s.smCommitIndex then some (s.restart applied, {}) else none

/-- The step as a transition on the server's state alone. -/
def next (a : Env × Input) : Option RaftServer := (s.step a.1 a.2).map Prod.fst

variable {s} in
theorem next_eq_some {t : RaftServer} {a : Env × Input} :
    s.next a = some t ↔ ∃ o, s.step a.1 a.2 = some (t, o) := by
  unfold next
  constructor
  · intro h
    obtain ⟨⟨u, o⟩, hu, rfl⟩ := Option.map_eq_some_iff.mp h
    exact ⟨o, hu⟩
  · rintro ⟨o, ho⟩
    rw [ho]
    rfl

end RaftServer
end Raft
end Xio
