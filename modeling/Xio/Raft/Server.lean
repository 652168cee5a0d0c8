import Xio.Raft.LogStore

/-!
# Raft.Server — the server record and its basic operations

`RaftServer` is the part of `raft_server` that its decisions read. What the source takes from
clocks, callbacks and connections comes in as an `Env`, one per step. A handler that issues
requests returns them; append requests are created by a step of their own
(`createAppendEntriesReq`), since a server that wants to send one may find the peer busy and
send it with any later heartbeat.
-/

namespace Xio
namespace Raft

structure RaftParams where
  customCommitQuorumSize : Int := 0
  customElectionQuorumSize : Int := 0
  excludeSnpReceiverFromQuorum : Bool := false
  autoAdjustQuorumForSmallCluster : Bool := false
  useFullConsensusAmongHealthyMembers : Bool := false
  allowTemporaryZeroPriorityLeader : Bool := true
  parallelLogAppending : Bool := false
  useNewJoinerType : Bool := false
  maxAppendSize : Nat := 100
  reservedLogItems : Nat := 100000
  snapshotDistance : Nat := 0
  logSyncStopGap : Nat := 99999
  logSyncBatchSize : Nat := 1000
  gracePeriodOfLaggingStateMachine : Nat := 0
  deriving DecidableEq, Repr

/-- What timers, callbacks and the log store's device show to one step. -/
structure Env where
  /-- The `inc_term` callback answers with `term + 1 + termBump`. -/
  termBump : Nat := 0
  /-- `priority_change_timer_` is past twenty heartbeats. -/
  zpTimer : Bool := false
  /-- `vote_init_timer_` has run out. -/
  graceOver : Bool := true
  /-- Peers silent for longer than the limit that the running check uses. -/
  notResponding : List Int := []
  /-- `last_durable_index()`. -/
  durableIndex : Nat := 0
  /-- The peer's byte hint as a number of entries; a negative hint is `some 0`. -/
  batchEntries : Option Nat := none
  /-- Reading a snapshot object: is it the last one. -/
  lastObject : Bool := true
  /-- Saving a snapshot object: the id of the next one. -/
  nextObject : Nat := 0
  /-- The callback refuses the request. -/
  refused : Bool := false
  /-- A timer that the step checks has run out (resignation, joining or leaving server). -/
  timedOut : Bool := false
  /-- A public call that takes no lock made its tests in an earlier state. -/
  tested : Bool := false
  deriving DecidableEq, Repr

structure SnapshotSyncCtx where
  snapshot : Snapshot
  offset : Nat
  deriving DecidableEq, Repr

structure Peer where
  config : SrvConfig
  nextLogIdx : Nat := 0
  matchedIdx : Nat := 0
  lastSentIdx : Nat := 0
  cntNotApplied : Nat := 0
  snpSyncCtx : Option SnapshotSyncCtx := none
  snapshotSyncIsNeeded : Bool := false
  leaveRequested : Bool := false
  steppingDown : Bool := false
  selfMarkDown : Bool := false
  deriving DecidableEq, Repr

def Peer.id (p : Peer) : Int := p.config.id

/-- What `become_leader` does to each peer; `matched_idx_` keeps its value. -/
def Peer.onBecomeLeader (nextSlot : Nat) (p : Peer) : Peer :=
  { p with snpSyncCtx := none, nextLogIdx := nextSlot, snapshotSyncIsNeeded := false }

structure PreVoteStatus where
  term : Nat := 0
  done : Bool := false
  live : Nat := 0
  dead : Nat := 0
  abandoned : Nat := 0
  noResponseFailureCount : Nat := 0
  deriving DecidableEq, Repr

/-- `pre_vote_status_t::reset`: the failure counter stays. -/
def PreVoteStatus.reset (p : PreVoteStatus) (term : Nat) : PreVoteStatus :=
  { p with term := term, done := false, live := 0, dead := 0, abandoned := 0 }

/-- A snapshot received in full; the rest is for the response to its last object. -/
structure PendingInstall where
  snapshot : Snapshot
  term : Nat
  sender : Int
  nextObject : Nat
  deriving DecidableEq, Repr

structure RaftServer where
  id : Int
  params : RaftParams := {}
  peers : List Peer := []
  role : SrvRole := .follower
  state : SrvState := {}
  /-- The last argument of `state_mgr::save_state`. -/
  savedState : SrvState := {}
  log : LogStore := LogStore.empty
  /-- Snapshot of the state machine, `none` before the first one. -/
  lastSnapshot : Option Snapshot := none
  /-- A snapshot that the state machine is creating. -/
  snpInProgress : Option Snapshot := none
  /-- Received snapshots whose handler released the lock to pause the state machine. -/
  applyingSnapshots : List PendingInstall := []
  quickCommitIndex : Nat := 0
  smCommitIndex : Nat := 0
  laggingSmTargetIndex : Nat := 0
  precommitIndex : Nat := 0
  leaderCommitIndex : Nat := 0
  initialCommitIndex : Nat := 0
  indexAtBecomingLeader : Nat := 0
  leader : Int := -1
  hbAlive : Bool := false
  electionCompleted : Bool := true
  votesGranted : Nat := 0
  votesResponded : Nat := 0
  preVote : PreVoteStatus := {}
  voteInitTimerTerm : Nat := 0
  myPriority : Int := 1
  targetPriority : Int := 1
  imLearner : Bool := false
  config : ClusterConfig
  uncommittedConfig : Option ClusterConfig := none
  configChanging : Bool := false
  srvToJoin : Option Peer := none
  confToAdd : Option SrvConfig := none
  srvToLeave : Option Int := none
  srvToLeaveTargetIdx : Nat := 0
  stepsToDown : Nat := 0
  writePaused : Bool := false
  nextLeaderCandidate : Int := -1
  outOfLogRange : Bool := false
  deriving DecidableEq, Repr

namespace RaftServer

variable (s : RaftServer)

/-! ## Peers and quorums -/

def findPeer (id : Int) : Option Peer := s.peers.find? (fun p => p.id == id)

@[simps] def updatePeer (id : Int) (f : Peer → Peer) : RaftServer :=
  { s with peers := s.peers.map (fun p => if p.id = id then f p else p) }

/-- Skips the server to be removed, learners and new joiners. -/
def isRegularMember (p : Peer) : Bool :=
  !(s.srvToLeave == some p.id) && !p.config.learner && !p.config.newJoiner

def getNumVotingMembers : Nat :=
  (s.peers.filter s.isRegularMember).length + if s.imLearner then 0 else 1

/-- Size of the quorum without the candidate. -/
def getQuorumForElection : Nat :=
  if s.params.customElectionQuorumSize ≤ 0 ∨
      s.getNumVotingMembers < s.params.customElectionQuorumSize then
    s.getNumVotingMembers / 2
  else (s.params.customElectionQuorumSize - 1).toNat

/-- Size of the quorum without the leader. -/
def getQuorumForCommit : Nat :=
  let excluded :=
    if s.params.excludeSnpReceiverFromQuorum then
      (s.peers.filter (fun p => p.snpSyncCtx.isSome)).length
    else 0
  let n := s.getNumVotingMembers - excluded
  if s.params.customCommitQuorumSize ≤ 0 ∨ n < s.params.customCommitQuorumSize then n / 2
  else (s.params.customCommitQuorumSize - 1).toNat

/-! ## Terms of log positions -/

def termForLog (i : Nat) : Nat :=
  if i = 0 then 0
  else if s.log.startIndex ≤ i then s.log.termAt i
  else
    match s.lastSnapshot with
    | none => 0
    | some snp => if i = snp.lastLogIdx then snp.lastLogTerm else 0

def lastLogIdx : Nat := s.log.nextSlot - 1

/-! ## Persistence and priorities -/

@[simps] def saveState : RaftServer := { s with savedState := s.state }

/-- The election timer was switched off and may run again. -/
def timerRestarts : Bool :=
  !s.state.catchingUp && s.role != .leader && !s.state.electionTimerAllowed

@[simps] def restartElectionTimer : RaftServer :=
  { s with
    state := { s.state with
      electionTimerAllowed := s.state.electionTimerAllowed || s.timerRestarts }
    savedState :=
      if s.timerRestarts then { s.state with electionTimerAllowed := true } else s.savedState }

@[simps] def decayTargetPriority : RaftServer :=
  { s with targetPriority := max 1 (s.targetPriority - max 10 (s.targetPriority / 5)) }

@[simps] def updateTargetPriority : RaftServer :=
  let maxPriority := s.peers.foldl (fun m p => max m p.config.priority) s.myPriority
  { s with
    targetPriority := if 0 < maxPriority then maxPriority else 1
    hbAlive := true
    preVote := s.preVote.reset s.state.term }

def checkCondForZpElection (env : Env) : Bool :=
  s.params.allowTemporaryZeroPriorityLeader && s.targetPriority == 1 && s.myPriority == 0
    && env.zpTimer

/-! ## Commit index -/

/-- `commit`, without the requests it sends and the thread it wakes. -/
@[simps] def commit (target : Nat) : RaftServer :=
  { s with
    quickCommitIndex := if s.quickCommitIndex < target then target else s.quickCommitIndex
    laggingSmTargetIndex :=
      if s.quickCommitIndex < target then target else s.laggingSmTargetIndex }

/-- `try_update_precommit_index`: the index only grows. -/
@[simps] def tryUpdatePrecommitIndex (desired : Nat) : RaftServer :=
  { s with precommitIndex := max s.precommitIndex desired }

def getCurrentLeaderIndex (env : Env) : Nat :=
  if s.params.parallelLogAppending then min s.precommitIndex env.durableIndex
  else s.precommitIndex

/-- `request_append_entries()`: with nobody to ask, the leader's own log decides. Otherwise
the index stays, as `commit` of `0` leaves it. -/
@[simps! role params leader savedState myPriority uncommittedConfig indexAtBecomingLeader id peers log
  lastSnapshot snpInProgress applyingSnapshots smCommitIndex precommitIndex electionCompleted
  votesGranted imLearner config configChanging srvToLeave state]
def requestAppendEntries (env : Env) : RaftServer :=
  s.commit (if s.peers = [] ∨ s.getQuorumForCommit = 0 then s.getCurrentLeaderIndex env else 0)

/-- `store_log_entry` at the end of the log; a leader's configuration entry counts as
pre-committed at once. -/
@[simps] def storeLogEntry (e : LogEntry) : RaftServer :=
  { s with
    log := s.log.append e
    precommitIndex :=
      if e.isConf ∧ s.role = .leader then max s.precommitIndex s.log.nextSlot
      else s.precommitIndex }

/-! ## Role changes -/

@[simps! role uncommittedConfig id peers log lastSnapshot snpInProgress applyingSnapshots
  quickCommitIndex smCommitIndex precommitIndex electionCompleted votesGranted imLearner config
  configChanging srvToLeave state_term state_votedFor state_catchingUp state_receivingSnapshot]
def becomeFollower : RaftServer :=
  let restore := s.params.autoAdjustQuorumForSmallCluster && s.peers.length == 1 &&
    s.params.customCommitQuorumSize == 1
  restartElectionTimer { s with
      srvToJoin := none
      role := .follower
      indexAtBecomingLeader := 0
      writePaused := false
      nextLeaderCandidate := -1
      uncommittedConfig := none
      preVote := { s.preVote with noResponseFailureCount := 0 }
      params := if restore then
          { s.params with customCommitQuorumSize := 0, customElectionQuorumSize := 0 }
        else s.params }

/-- A follower of a newer term: no vote, no ballot. -/
@[simps! role state_term state_votedFor electionCompleted votesGranted uncommittedConfig id peers log
  lastSnapshot snpInProgress applyingSnapshots quickCommitIndex smCommitIndex precommitIndex imLearner
  config configChanging srvToLeave state_catchingUp state_receivingSnapshot]
def raiseTerm (term : Nat) : RaftServer :=
  becomeFollower <| saveState { s with
      role := .follower
      state := { s.state with term := term, votedFor := -1, electionTimerAllowed := true }
      electionCompleted := false
      votesGranted := 0
      votesResponded := 0 }

/-- `update_term`; the second component says whether the term was new. -/
def updateTerm (term : Nat) : RaftServer × Bool :=
  if s.state.term < term then (s.raiseTerm term, true) else (s, false)

/-- The latest configuration among the entries that the state machine has not applied. -/
def lastConfigInLog : ClusterConfig :=
  let from_ := max (s.smCommitIndex + 1) s.log.startIndex
  ((s.log.entries.drop (from_ - s.log.startIndex)).filterMap LogEntry.conf?).getLastD s.config

/-- Successor of `yield_leadership`: the given peer, or the responsive one of highest priority. -/
def pickSuccessor (env : Env) (successor : Int) : Int :=
  if 0 ≤ successor ∧ (s.findPeer successor).isSome then successor
  else
    (s.peers.foldl (fun (best : Int × Int) p =>
      if ¬ p.id ∈ env.notResponding ∧ best.2 < p.config.priority then (p.id, p.config.priority)
      else best) ((-1 : Int), (0 : Int))).1

def yieldRefused (env : Env) : Bool :=
  s.writePaused || s.id != s.leader || decide (s.getNumVotingMembers ≤ 1) || env.refused

/-- Stops accepting writes until the successor has caught up. -/
@[simps] def nominateSuccessor (env : Env) (successor : Int) : RaftServer :=
  let candidate := s.pickSuccessor env successor
  { s with
    writePaused := true
    nextLeaderCandidate := if -1 < candidate then candidate else s.nextLeaderCandidate }

@[simps] def stepDown : RaftServer :=
  { becomeFollower { s with leader := -1 } with hbAlive := false }

def yieldLeadership (env : Env) (immediateYield : Bool) (successor : Int) : RaftServer :=
  if s.yieldRefused env then s
  else if immediateYield then s.stepDown
  else s.nominateSuccessor env successor

def leaderConfEntry : LogEntry :=
  ⟨s.state.term, .conf (s.lastConfigInLog.setLogIdx s.log.nextSlot)⟩

/-- Role, peers and the first entry of a new leader. -/
@[simps] def takeLeadership : RaftServer :=
  { s with
    role := .leader
    leader := s.id
    srvToJoin := none
    peers := s.peers.map (Peer.onBecomeLeader s.log.nextSlot)
    log := s.log.append s.leaderConfEntry
    precommitIndex := s.log.nextSlot
    indexAtBecomingLeader := s.log.nextSlot
    configChanging := true
    writePaused := false
    nextLeaderCandidate := -1
    preVote := { s.preVote with noResponseFailureCount := 0 } }

/-- A leader of priority zero looks for a successor right away. -/
def becomeLeader (env : Env) : RaftServer :=
  let s₁ := s.takeLeadership.requestAppendEntries env
  if s₁.myPriority = 0 ∧ 1 < s₁.getNumVotingMembers then s₁.yieldLeadership env false (-1) else s₁

/-! ## Configuration entries -/

@[simps! id params peers role state savedState log smCommitIndex imLearner config uncommittedConfig
  configChanging srvToLeave lastSnapshot snpInProgress electionCompleted votesGranted]
def appendConf (env : Env) (c : ClusterConfig) : RaftServer :=
  (s.storeLogEntry ⟨s.state.term, .conf c⟩).requestAppendEntries env

/-- Marks a configuration change in progress, with the configuration that is being agreed on. -/
@[simps] def markChanging (c : ClusterConfig) : RaftServer :=
  { s with configChanging := true, uncommittedConfig := some c }

/-! ## What the role changes leave alone -/

@[simp] theorem updateTerm_frame (term : Nat) :
    let t := (s.updateTerm term).1
    t.id = s.id ∧ t.config = s.config ∧ t.log = s.log ∧ t.peers = s.peers ∧
    t.lastSnapshot = s.lastSnapshot ∧ t.snpInProgress = s.snpInProgress ∧
    t.applyingSnapshots = s.applyingSnapshots ∧ t.imLearner = s.imLearner ∧
    t.quickCommitIndex = s.quickCommitIndex ∧ t.smCommitIndex = s.smCommitIndex ∧
    t.precommitIndex = s.precommitIndex ∧ t.configChanging = s.configChanging ∧
    t.srvToLeave = s.srvToLeave := by
  unfold updateTerm
  split <;> simp

/-- A new leader appends one entry of its term and keeps every other entry. -/
@[simp] theorem becomeLeader_frame (env : Env) :
    let t := s.becomeLeader env
    t.role = .leader ∧ t.log = s.log.append s.leaderConfEntry ∧
    t.peers = s.peers.map (Peer.onBecomeLeader s.log.nextSlot) ∧ t.precommitIndex = s.log.nextSlot ∧
    t.configChanging = true ∧ t.params = s.params ∧ t.savedState = s.savedState ∧ t.id = s.id ∧
    t.lastSnapshot = s.lastSnapshot ∧ t.snpInProgress = s.snpInProgress ∧
    t.applyingSnapshots = s.applyingSnapshots ∧ t.smCommitIndex = s.smCommitIndex ∧
    t.electionCompleted = s.electionCompleted ∧ t.votesGranted = s.votesGranted ∧
    t.imLearner = s.imLearner ∧ t.config = s.config ∧ t.srvToLeave = s.srvToLeave ∧
    t.state = s.state := by
  dsimp only [becomeLeader]
  split
  · unfold yieldLeadership
    split <;> simp
  · simp

end RaftServer

end Raft
end Xio
