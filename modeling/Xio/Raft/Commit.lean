import Xio.Raft.Vote

/-!
# Raft.Commit — applying entries, configurations and snapshots

The commit thread of `handle_commit.cc`, one entry per step, with the configuration switch
(`reconfigure`) and the creation of snapshots. Creating a snapshot takes two steps, since the
state machine may finish it much later than it was asked for.
-/

namespace Xio
namespace Raft
namespace RaftServer

variable (s : RaftServer)

/-! ## Peer list -/

@[simps] def removePeerFromPeers (id : Int) : RaftServer :=
  { s with peers := s.peers.filter (fun p => p.id != id) }

@[simps] def resetSrvToLeave : RaftServer := { s with srvToLeave := none, srvToLeaveTargetIdx := 0 }

/-- `check_srv_to_leave_timeout`: a leaving server that went silent is dropped. -/
@[simps] def checkSrvToLeaveTimeout (env : Env) : RaftServer :=
  { s with
    peers := if env.timedOut then s.peers.filter (fun p => s.srvToLeave != some p.id) else s.peers
    srvToLeave := if env.timedOut then none else s.srvToLeave
    srvToLeaveTargetIdx := if env.timedOut then 0 else s.srvToLeaveTargetIdx }

/-! ## Reconfiguration -/

/-- Being a committed member ends the catch-up phase. -/
def catchUpEnds (c : SrvConfig) : Bool :=
  !c.newJoiner && s.role == .follower && s.state.catchingUp

/-- The part of `reconfigure` about this server's own entry. -/
@[simps] def applyOwnConfig (c : SrvConfig) : RaftServer :=
  { s with
    myPriority := c.priority
    imLearner := c.learner
    stepsToDown := 0
    state := { s.state with
      catchingUp := s.state.catchingUp && !s.catchUpEnds c
      electionTimerAllowed := s.state.electionTimerAllowed || s.catchUpEnds c }
    savedState :=
      if s.catchUpEnds c then { s.state with catchingUp := false, electionTimerAllowed := true }
      else s.savedState }

/-- A peer for a server that the new configuration adds. -/
def newPeer (c : SrvConfig) : Peer :=
  let joined : Option Nat := match s.srvToJoin with
    | some p => if s.role = SrvRole.leader ∧ p.id = c.id then some p.nextLogIdx else none
    | none => none
  { config := c, nextLogIdx := joined.getD s.log.nextSlot }

@[simps] def addPeers (added : List SrvConfig) : RaftServer :=
  { s with
    peers := s.peers ++ added.map s.newPeer
    srvToJoin := s.srvToJoin.filter
      (fun p => !(s.role == .leader && added.any (fun c => c.id == p.id))) }

/-- A leader keeps the server to be removed in its peer list until it caught up. -/
@[simps] def removePeer (id : Int) : RaftServer :=
  { s with
    peers :=
      if s.role = .leader ∧ s.srvToLeave.isSome then
        s.peers.map (fun p => if s.srvToLeave = some p.id then { p with snpSyncCtx := none } else p)
      else s.peers.filter (fun p => p.id != id) }

/-- Copies each server's entry of the configuration into its peer. -/
@[simps] def refreshPeerConfigs (c : ClusterConfig) : RaftServer :=
  { s with peers := s.peers.map (fun p =>
      match c.getServer p.id with
      | some sc => { p with config := sc }
      | none => p) }

/-- The server with its own entry of the configuration applied. -/
def withOwnConfig (c : ClusterConfig) : RaftServer :=
  (c.getServer s.id).elim s s.applyOwnConfig

/-- A server that is not in the configuration any more counts down, unless it is still joining. -/
@[simps] def leaveIfRemoved (c : ClusterConfig) : RaftServer :=
  { s with
    stepsToDown :=
      if (c.getServer s.id).isNone ∧ s.state.catchingUp = false then 2 else s.stepsToDown }

/-- The new configuration is the current one, and no longer uncommitted. -/
@[simps] def switchConfig (c : ClusterConfig) : RaftServer :=
  { s with
    config := c
    uncommittedConfig := s.uncommittedConfig.filter (fun u => u.logIdx != c.logIdx) }

def reconfigure (c : ClusterConfig) : RaftServer :=
  let added := c.servers.filter (fun sc => sc.id != s.id && (s.findPeer sc.id).isNone)
  let removed := (s.peers.map Peer.id).filter (fun i => (c.getServer i).isNone)
  let s₁ := ((s.withOwnConfig c).addPeers added).leaveIfRemoved c
  let s₂ := (removed.foldl removePeer s₁).switchConfig c
  (s₂.refreshPeerConfigs c).updateTargetPriority

theorem foldl_removePeer_eq (ids : List Int) :
    ∃ ps, ids.foldl removePeer s = { s with peers := ps } := by
  induction ids generalizing s with
  | nil => exact ⟨s.peers, rfl⟩
  | cons i ids ih =>
    obtain ⟨ps, hps⟩ := ih (s.removePeer i)
    refine ⟨ps, ?_⟩
    rw [List.foldl_cons, hps]
    rfl

@[simp] theorem withOwnConfig_frame (c : ClusterConfig) :
    (s.withOwnConfig c).state.term = s.state.term ∧
    (s.withOwnConfig c).state.votedFor = s.state.votedFor ∧
    (s.withOwnConfig c).state.receivingSnapshot = s.state.receivingSnapshot ∧
    (s.withOwnConfig c).id = s.id ∧ (s.withOwnConfig c).role = s.role ∧
    (s.withOwnConfig c).electionCompleted = s.electionCompleted ∧
    (s.withOwnConfig c).votesGranted = s.votesGranted := by
  unfold withOwnConfig
  cases c.getServer s.id <;> simp

@[simp] theorem reconfigure_frame (c : ClusterConfig) :
    let t := s.reconfigure c
    t.config = c ∧ t.state = (s.withOwnConfig c).state ∧
    t.savedState = (s.withOwnConfig c).savedState ∧ t.imLearner = (s.withOwnConfig c).imLearner ∧
    t.id = s.id ∧ t.params = s.params ∧ t.role = s.role ∧ t.log = s.log ∧
    t.lastSnapshot = s.lastSnapshot ∧ t.snpInProgress = s.snpInProgress ∧
    t.applyingSnapshots = s.applyingSnapshots ∧ t.quickCommitIndex = s.quickCommitIndex ∧
    t.smCommitIndex = s.smCommitIndex ∧ t.precommitIndex = s.precommitIndex ∧
    t.indexAtBecomingLeader = s.indexAtBecomingLeader ∧ t.electionCompleted = s.electionCompleted ∧
    t.votesGranted = s.votesGranted ∧ t.leader = s.leader ∧ t.configChanging = s.configChanging ∧
    t.srvToLeave = s.srvToLeave ∧ t.confToAdd = s.confToAdd := by
  dsimp only [reconfigure]
  generalize s.peers.map Peer.id = ids
  rcases foldl_removePeer_eq (((s.withOwnConfig c).addPeers _).leaveIfRemoved c) (ids.filter _)
    with ⟨ps, hps⟩
  rw [hps]
  unfold withOwnConfig
  cases c.getServer s.id <;> simp

theorem reconfigure_uncommittedConfig (c : ClusterConfig) : (s.reconfigure c).uncommittedConfig =
      s.uncommittedConfig.filter (fun u => u.logIdx != c.logIdx) := by
  dsimp only [reconfigure]
  generalize s.peers.map Peer.id = ids
  rcases foldl_removePeer_eq (((s.withOwnConfig c).addPeers _).leaveIfRemoved c) (ids.filter _)
    with ⟨ps, hps⟩
  rw [hps]
  unfold withOwnConfig
  cases c.getServer s.id <;> simp

/-! ## The commit thread -/

@[simps] def endConfigChange : RaftServer := { s with configChanging := false }

/-- `commit_conf`: any configuration entry clears the flag. -/
def commitConf (c : ClusterConfig) : RaftServer :=
  if s.config.logIdx < c.logIdx then s.endConfigChange.reconfigure c else s.endConfigChange

@[simps] def applied (i : Nat) : RaftServer := { s with smCommitIndex := i }

/-- `commit_in_bg_exec` starts by moving up to the log's start index. -/
@[simps] def adjustSmCommitIndex : RaftServer :=
  { s with smCommitIndex := max s.smCommitIndex (s.log.startIndex - 1) }

/-- One turn of the loop of `commit_in_bg_exec`, `none` when there is nothing to apply. -/
def commitNext : Option RaftServer :=
  if s.smCommitIndex < s.quickCommitIndex ∧ s.smCommitIndex < s.log.nextSlot - 1 then
    match s.log.entryAt (s.smCommitIndex + 1) with
    | none => none
    | some e =>
      match e.val with
      | .appLog _ =>
        if s.precommitIndex < s.smCommitIndex + 1 then none
        else some (s.applied (s.smCommitIndex + 1))
      | .conf c => some ((s.commitConf c).applied (s.smCommitIndex + 1))
  else none

/-- What the commit thread does with an entry, the move of `sm_commit_index_` apart. -/
def executeEntry (e : LogEntry) : RaftServer :=
  match e.val with
  | .appLog _ => s
  | .conf c => s.commitConf c

/-- The condition of the loop of `commit_in_bg_exec`. -/
def hasWork : Bool :=
  decide (s.smCommitIndex < s.quickCommitIndex) && decide (s.smCommitIndex < s.log.nextSlot - 1)

@[simp] theorem executeEntry_smCommitIndex (e : LogEntry) :
    (s.executeEntry e).smCommitIndex = s.smCommitIndex := by
  unfold executeEntry
  split
  · rfl
  · unfold commitConf
    split <;> simp

@[simp] theorem executeEntry_frame (e : LogEntry) :
    (s.executeEntry e).log = s.log ∧ (s.executeEntry e).role = s.role ∧
    (s.executeEntry e).quickCommitIndex = s.quickCommitIndex ∧
    (s.executeEntry e).precommitIndex = s.precommitIndex := by
  unfold executeEntry
  split
  · exact ⟨rfl, rfl, rfl, rfl⟩
  · unfold commitConf
    split <;> simp

/-! ## Snapshots and compaction -/

/-- Walks the `prev_log_idx` links down to a configuration at or below `committed`. -/
def snapshotConfig (committed : Nat) : Nat → ClusterConfig → ClusterConfig
  | 0, c => c
  | fuel + 1, c =>
    if committed < c.logIdx ∧ s.log.startIndex ≤ c.prevLogIdx then
      match (s.log.entryAt c.prevLogIdx).bind LogEntry.conf? with
      | some c' => snapshotConfig committed fuel c'
      | none => c
    else c

/-- Conditions under which `snapshot_and_compact` starts a snapshot of `smCommitIndex`. -/
def snapshotDue (env : Env) (forced : Bool) : Bool :=
  let k := s.smCommitIndex
  let lastIdx := s.lastSnapshot.elim 0 Snapshot.lastLogIdx
  decide (s.config.prevLogIdx < s.log.nextSlot) && (forced || (s.params.snapshotDistance != 0
      && decide (s.params.snapshotDistance ≤ k + 1 - s.log.startIndex) && !env.refused))
    && (forced || s.lastSnapshot.isNone || decide (s.params.snapshotDistance + lastIdx ≤ k))
    && s.snpInProgress.isNone && decide (lastIdx < k)

/-- What `snapshot_and_compact` asks for when it is called with an index. -/
def newSnapshot (k : Nat) : Snapshot :=
  let c := s.snapshotConfig k s.log.entries.length s.config
  let c' :=
    if k < c.logIdx ∧ 0 < c.prevLogIdx ∧ c.prevLogIdx < s.log.startIndex then
      s.lastSnapshot.elim c Snapshot.lastConfig
    else c
  ⟨k, s.log.termAt k, c'⟩

/-- Every caller passes the commit index of the state machine. -/
def snapshotToCreate : Snapshot := s.newSnapshot s.smCommitIndex

/-- `snapshot_and_compact`: asks the state machine for a snapshot. -/
@[simps] def snapshotAndCompact (env : Env) (forced : Bool) : RaftServer :=
  { s with
    snpInProgress := if s.snapshotDue env forced then some s.snapshotToCreate else s.snpInProgress }

/-- The state machine answers with the latest of its snapshots. -/
def latestSnapshot (snp : Snapshot) : Snapshot :=
  match s.lastSnapshot with
  | some old => if snp.lastLogIdx ≤ old.lastLogIdx then old else snp
  | none => snp

/-- The log without what is more than `reserved_log_items_` below the snapshot. -/
def compactedLog (snp : Snapshot) : LogStore :=
  if s.params.reservedLogItems < snp.lastLogIdx then
    s.log.compact (snp.lastLogIdx - s.params.reservedLogItems)
  else s.log

@[simps] def adoptSnapshot (snp : Snapshot) : RaftServer :=
  { s with lastSnapshot := some snp, log := s.compactedLog snp, snpInProgress := none }

@[simps] def dropSnapshot : RaftServer := { s with snpInProgress := none }

/-- `on_snapshot_completed`; `ok = false` is a failed creation. -/
def onSnapshotCompleted (ok : Bool) : RaftServer :=
  match s.snpInProgress with
  | none => s
  | some snp => if ok then s.adoptSnapshot (s.latestSnapshot snp) else s.dropSnapshot

end RaftServer
end Raft
end Xio
