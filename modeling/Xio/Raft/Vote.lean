import Xio.Raft.Server

/-!
# Raft.Vote — pre-vote, vote and the election timer

Handlers of `handle_vote.cc` and the election timer of `handle_timeout.cc`. A handler that
sends requests returns them in peer order; a peer whose connection is busy loses its request,
which is the loss that the network may cause anyway.
-/

namespace Xio
namespace Raft
namespace RaftServer

variable (s : RaftServer)

/-! ## Requests -/

/-- A request that carries this server's last log position. -/
def positionReq (dst : Int) (body : ReqBody) : ReqMsg :=
  { term := s.state.term
    src := s.id
    dst := dst
    lastLogTerm := s.termForLog (s.log.nextSlot - 1)
    lastLogIdx := s.log.nextSlot - 1
    commitIdx := s.quickCommitIndex
    body := body }

/-- One request for each peer that may vote. -/
def requestsToRegularMembers (body : ReqBody) : List ReqMsg :=
  (s.peers.filter s.isRegularMember).map (fun p => s.positionReq p.id body)

/-! ## Vote -/

@[simps] def castOwnVote : RaftServer :=
  { s with
    state := { s.state with votedFor := s.id }
    savedState := { s.state with votedFor := s.id }
    votesGranted := s.votesGranted + 1
    votesResponded := s.votesResponded + 1 }

@[simps] def completeElection : RaftServer := { s with electionCompleted := true }

def requestVote (env : Env) (forceVote : Bool) : RaftServer × List ReqMsg :=
  let s₁ := s.castOwnVote
  if s₁.getQuorumForElection < s₁.votesGranted then (s₁.completeElection.becomeLeader env, [])
  else (s₁, s₁.requestsToRegularMembers (.requestVote forceVote))

/-- The lagging state machine still has its grace period. -/
def inGracePeriod (env : Env) (forceVote : Bool) : Bool :=
  !forceVote && s.params.gracePeriodOfLaggingStateMachine != 0
    && decide (s.smCommitIndex < s.laggingSmTargetIndex)
    && (s.voteInitTimerTerm != s.state.term || !env.graceOver)

/-- The priority conditions under which `initiate_vote` starts an election. -/
def mayStand (env : Env) (forceVote : Bool) : Bool :=
  decide (s.targetPriority ≤ s.myPriority) || forceVote || s.checkCondForZpElection env
    || (s.getQuorumForElection == 0 && decide (0 < s.myPriority))

@[simps] def openBallot (env : Env) : RaftServer :=
  { s with
    state := { s.state with term := s.state.term + 1 + env.termBump, votedFor := -1 }
    role := .candidate
    indexAtBecomingLeader := 0
    votesGranted := 0
    votesResponded := 0
    electionCompleted := false }

@[simps] def forgetLeader : RaftServer := { s with hbAlive := false, leader := -1 }

def initiateVote (env : Env) (forceVote : Bool) : RaftServer × List ReqMsg :=
  if s.inGracePeriod env forceVote then ({ s with voteInitTimerTerm := s.state.term }, [])
  else
    let r :=
      if s.mayStand env forceVote then (s.openBallot env).requestVote env forceVote else (s, [])
    if r.1.role = .leader then r else (r.1.forgetLeader, r.2)

/-- `log_okay` of `handle_vote_req`: the voter reads its last entry from the log store. -/
def voteLogOkay (req : ReqMsg) : Bool :=
  decide (s.log.lastEntryTerm < req.lastLogTerm) ||
    (req.lastLogTerm == s.log.lastEntryTerm && decide (s.log.nextSlot - 1 ≤ req.lastLogIdx))

/-- The candidate's priority in the configuration is too low to vote for it. -/
def lowPriority (src : Int) : Bool :=
  s.config.servers.any (fun c => c.id == src && c.priority != 0
    && decide (c.priority < s.targetPriority))

/-- The decision of `handle_vote_req`; a forced request and a server that is catching up switch the
priorities off. -/
def grantsVote (req : ReqMsg) (force : Bool) : Bool :=
  req.term == s.state.term && s.voteLogOkay req
    && (s.state.votedFor == req.src || s.state.votedFor == -1)
    && (force || s.state.catchingUp || !s.lowPriority req.src)

@[simps] def castVote (src : Int) : RaftServer :=
  { s with
    state := { s.state with votedFor := src }
    savedState := { s.state with votedFor := src } }

def handleVoteReq (req : ReqMsg) (force : Bool) : RaftServer × RespMsg :=
  let resp : RespMsg :=
    { term := s.state.term, type := .requestVote, src := s.id, dst := req.src }
  if s.grantsVote req force then (s.castVote req.src, resp.accept s.log.nextSlot) else (s, resp)

/-- Counts one response; with the last one the election is over, won or lost. -/
@[simps] def countVote (resp : RespMsg) : RaftServer :=
  { s with
    votesResponded := s.votesResponded + 1
    votesGranted := if resp.accepted then s.votesGranted + 1 else s.votesGranted
    electionCompleted := s.electionCompleted || decide (s.getNumVotingMembers ≤ s.votesResponded + 1) }

def handleVoteResp (env : Env) (resp : RespMsg) : RaftServer :=
  if s.electionCompleted ∨ resp.term ≠ s.state.term then s
  else
    let s₁ := s.countVote resp
    if s₁.getQuorumForElection + 1 ≤ s₁.votesGranted then s₁.completeElection.becomeLeader env
    else s₁

/-! ## Pre-vote -/

/-- Limit on silent pre-vote rounds before a two-server cluster shrinks its quorum. -/
def voteLimit : Nat := 5

/-- Silent rounds in a row, after the round that ends now. -/
def prevoteFailures : Nat :=
  let answered := s.preVote.live + s.preVote.dead
  if answered = 0 then s.preVote.noResponseFailureCount
  else if answered < s.getQuorumForElection + 1 then s.preVote.noResponseFailureCount + 1
  else 0

/-- A new round of pre-votes, counting this server as one that sees no leader. -/
@[simps] def openPrevote (env : Env) : RaftServer :=
  { s with
    params :=
      if s.params.autoAdjustQuorumForSmallCluster ∧ s.getNumVotingMembers = 2 ∧
          voteLimit < s.prevoteFailures ∧ env.refused = false then
        { s.params with customCommitQuorumSize := 1, customElectionQuorumSize := 1 }
      else s.params
    hbAlive := false
    leader := -1
    role := .candidate
    indexAtBecomingLeader := 0
    preVote := { s.preVote.reset s.state.term with
      dead := 1, noResponseFailureCount := s.prevoteFailures } }

def requestPrevote (env : Env) : RaftServer × List ReqMsg :=
  let s₁ := s.openPrevote env
  if s₁.myPriority < s₁.targetPriority ∧ ¬ s₁.checkCondForZpElection env then
    (s₁.restartElectionTimer, [])
  else (s₁, s₁.requestsToRegularMembers .preVote)

/-- `next_idx_for_resp` of a server that is no longer a peer. -/
def removedNodeIdx : Nat := 2 ^ 64 - 1

def handlePrevoteReq (req : ReqMsg) : RespMsg :=
  let resp : RespMsg :=
    { term := req.term
      type := .preVote
      src := s.id
      dst := req.src
      nextIdx := if (s.findPeer req.src).isSome then 0 else removedNodeIdx }
  if !s.hbAlive || s.state.catchingUp then resp.accept s.log.nextSlot else resp

def countPrevote (resp : RespMsg) : PreVoteStatus :=
  if resp.accepted then { s.preVote with dead := s.preVote.dead + 1 }
  else if resp.nextIdx ≠ removedNodeIdx then { s.preVote with live := s.preVote.live + 1 }
  else { s.preVote with abandoned := s.preVote.abandoned + 1 }

@[simps] def withPreVote (pv : PreVoteStatus) : RaftServer := { s with preVote := pv }

/-- Enough servers see no leader, and the round has not started its election yet. -/
def prevoteSucceeds (pv : PreVoteStatus) : Bool :=
  decide (s.getQuorumForElection + 1 ≤ pv.dead) && !pv.done

@[simps] def leaveSoon (go : Bool) : RaftServer :=
  { s with stepsToDown := if go then 2 else s.stepsToDown }

def handlePrevoteResp (env : Env) (resp : RespMsg) : RaftServer × List ReqMsg :=
  if resp.term ≠ s.preVote.term then (s, [])
  else
    let pv := s.countPrevote resp
    let removed := decide (s.getQuorumForElection + 1 ≤ pv.abandoned)
    if s.prevoteSucceeds pv then
      let r := (s.withPreVote { pv with done := true }).initiateVote env false
      (r.1.restartElectionTimer.leaveSoon removed, r.2)
    else ((s.withPreVote pv).leaveSoon removed, [])

/-! ## Election timer -/

/-- The countdown of a server that was asked to leave; at its end the timer is switched off. -/
@[simps] def countDown : RaftServer :=
  { s with
    stepsToDown := s.stepsToDown - 1
    state := { s.state with
      electionTimerAllowed := s.state.electionTimerAllowed && s.stepsToDown != 1 }
    savedState :=
      if s.stepsToDown = 1 then { s.state with electionTimerAllowed := false } else s.savedState }

/-- Priority and pre-vote round of a timeout without heartbeats. -/
def prepareElection : RaftServer :=
  let s₁ := if s.hbAlive then s else s.decayTargetPriority
  if s₁.preVote.term ≠ s₁.state.term then s₁.withPreVote (s₁.preVote.reset s₁.state.term) else s₁

def handleElectionTimeout (env : Env) : RaftServer × List ReqMsg :=
  if 0 < s.stepsToDown then
    (if s.stepsToDown = 1 then s.countDown else s.countDown.restartElectionTimer, [])
  else if s.state.catchingUp then (s.restartElectionTimer, [])
  else if s.outOfLogRange then (s, [])
  else if s.state.receivingSnapshot then (s.restartElectionTimer, [])
  else if s.role = .leader then (s, [])
  else if s.imLearner then (s.restartElectionTimer, [])
  else
    let s₁ := s.prepareElection
    let r :=
      if s₁.peers = [] ∨ s₁.preVote.done ∨ s₁.getQuorumForElection = 0 then
        s₁.initiateVote env false
      else s₁.requestPrevote env
    (r.1.restartElectionTimer, r.2)

end RaftServer
end Raft
end Xio
