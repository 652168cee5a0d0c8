import Xio.Raft.SnapshotSync

/-!
# Raft.AppendEntries — replication

Both ends of `handle_append_entries.cc`: how a leader builds a request for a peer, how a member
writes the entries it receives, and how the leader turns the answers into a commit index.
-/

namespace Xio
namespace Raft

/-! ## Writing received entries -/

namespace LogStore

/-- Skips received entries whose terms are already in the log at their index. -/
def skipLoop (l : LogStore) : Nat → List LogEntry → Nat × List LogEntry
  | i, [] => (i, [])
  | i, e :: es =>
    if i < l.nextSlot ∧ l.termAt i = e.term then skipLoop l (i + 1) es else (i, e :: es)

/-- Overwrites entries while the log reaches the index; a write drops what follows it. -/
def overwriteLoop : LogStore → Nat → List LogEntry → LogStore × List LogEntry
  | l, _, [] => (l, [])
  | l, i, e :: es =>
    if i < l.nextSlot then overwriteLoop (l.writeAt i e) (i + 1) es else (l, e :: es)

def appendLoop (l : LogStore) (es : List LogEntry) : LogStore := es.foldl append l

def writeFrom (l : LogStore) (i : Nat) (es : List LogEntry) : LogStore :=
  let r := l.overwriteLoop i es
  r.1.appendLoop r.2

end LogStore

/-- What a rejected append response does to its peer. -/
def Peer.onAppendRejected (resp : RespMsg) (p : Peer) : Peer :=
  if 0 < resp.nextIdx ∧ resp.nextIdx < p.nextLogIdx then { p with nextLogIdx := resp.nextIdx }
  else
    { p with
      snapshotSyncIsNeeded := p.snapshotSyncIsNeeded || resp.hint == .receivingSnapshot
      nextLogIdx := if resp.hint = .doNotRewind then p.nextLogIdx else p.nextLogIdx - 1 }

/-- What an accepted append response does to its peer: the matched index follows the response,
upwards or downwards. -/
def Peer.onAppendAccepted (resp : RespMsg) (p : Peer) : Peer :=
  { p with
    nextLogIdx := resp.nextIdx
    matchedIdx := resp.nextIdx - 1
    selfMarkDown := resp.selfMarkDown }

/-- `is_excluded_from_quorum`: silent, behind, receiving a snapshot or marked down. A matched
index of `0` is a peer that has not answered yet, which is not held against it. -/
def Peer.isExcludedFromQuorum (env : Env) (requiredLogIdx : Nat) (p : Peer) : Bool :=
  decide (p.id ∈ env.notResponding) ||
    (requiredLogIdx != 0 && ((p.matchedIdx != 0 && decide (p.matchedIdx < requiredLogIdx))
      || p.snpSyncCtx.isSome)) || p.selfMarkDown

namespace RaftServer

variable (s : RaftServer)

/-! ## Building a request -/

/-- Up to five resends of the same entry, then one entry at a time. -/
def appendEndIdx (p : Peer) (lastLogIdx : Nat) : Nat :=
  let curNxt := s.precommitIndex + 1
  let endIdx := min curNxt (lastLogIdx + 1 + s.params.maxAppendSize)
  if lastLogIdx + 1 = p.lastSentIdx ∧ lastLogIdx + 2 < endIdx ∧ 5 ≤ p.cntNotApplied + 1 then
    min curNxt (lastLogIdx + 2)
  else endIdx

def countResends (p : Peer) (lastLogIdx : Nat) : Nat :=
  let endIdx := min (s.precommitIndex + 1) (lastLogIdx + 1 + s.params.maxAppendSize)
  if lastLogIdx + 1 = p.lastSentIdx ∧ lastLogIdx + 2 < endIdx then p.cntNotApplied + 1 else 0

/-- `create_append_entries_req`; `custom` is the index that streaming has reached (`0`: none),
and `none` is the exit of a server whose peer is ahead of its own log. -/
def createAppendEntriesReq (env : Env) (peer : Peer) (custom : Nat) : Option (Peer × ReqMsg) :=
  let curNxt := s.precommitIndex + 1
  let p : Peer := if peer.nextLogIdx = 0 then { peer with nextLogIdx := curNxt } else peer
  let last := if 0 < custom then custom else p.nextLogIdx - 1
  if curNxt ≤ last then none
  else
    let endIdx := s.appendEndIdx p last
    let p₁ : Peer := { p with cntNotApplied := s.countResends p last }
    if s.log.startIndex ≤ last + 1 ∧ p.snapshotSyncIsNeeded = false then
      let all := s.log.logEntries (last + 1) endIdx
      let entries := if curNxt ≤ last + 1 then [] else (env.batchEntries.elim all all.take)
      some ({ p₁ with lastSentIdx := last + 1 },
        { term := s.state.term
          src := s.id
          dst := p.id
          lastLogTerm := s.termForLog last
          lastLogIdx := last
          commitIdx := s.quickCommitIndex
          body := .appendEntries entries })
    else if s.lastSnapshot.isSome ∧ (p.snapshotSyncIsNeeded ∨
        (last < s.log.startIndex ∧ last < s.lastSnapshot.elim 0 Snapshot.lastLogIdx)) then
      s.createSyncSnapshotReq env p₁ last
    else
      some (p₁,
        { term := s.state.term
          src := s.id
          dst := p.id
          lastLogTerm := 0
          lastLogIdx := last
          commitIdx := s.quickCommitIndex
          body := .customNotification (some (.outOfLogRange s.log.startIndex)) })

theorem syncContext_cases {env : Env} {p : Peer} {last : Nat} {ctx : SnapshotSyncCtx}
    (h : s.syncContext env p last = some ctx) :
    p.snpSyncCtx = some ctx ∨ s.lastSnapshot = some ctx.snapshot ∧ ctx.offset = 0 := by
  dsimp only [syncContext] at h
  cases hlast : s.lastSnapshot with
  | none =>
    rw [hlast] at h
    split at h
    · rename_i old hold
      split at h
      · cases h
      · exact .inl (hold.trans h)
    · cases h
  | some snp =>
    rw [hlast] at h
    have hnew (hfresh : (if snp.lastLogIdx < last then none else some (⟨snp, 0⟩ : SnapshotSyncCtx)) =
        some ctx) : some snp = some ctx.snapshot ∧ ctx.offset = 0 := by
      split at hfresh
      · cases hfresh
      · cases hfresh
        exact ⟨rfl, rfl⟩
    split at h
    · rename_i old hold
      split at h
      · exact .inr (hnew h)
      · exact .inl (hold.trans h)
    · exact .inr (hnew h)

/-- The three kinds of requests for a peer that needs log entries. -/
inductive BuiltReq (p p' : Peer) (req : ReqMsg) : Prop
  | entries (last : Nat) (es : List LogEntry) (hlast : last ≤ s.precommitIndex)
      (hstart : s.log.startIndex ≤ last + 1)
      (hes : es <+: s.log.entries.drop (last + 1 - s.log.startIndex))
      (hctx : p'.snpSyncCtx = p.snpSyncCtx)
      (hreq : req = ⟨s.state.term, s.id, p.id, s.termForLog last, last, s.quickCommitIndex,
        .appendEntries es⟩)
  | snapshot (ctx : SnapshotSyncCtx) (last : Bool)
      (hctx : p.snpSyncCtx = some ctx ∨ s.lastSnapshot = some ctx.snapshot ∧ ctx.offset = 0)
      (hctx' : p'.snpSyncCtx = some ctx)
      (hreq : req = ⟨s.state.term, s.id, p.id, ctx.snapshot.lastLogTerm, ctx.snapshot.lastLogIdx,
        s.quickCommitIndex, .installSnapshot (some ⟨ctx.snapshot, ctx.offset, last⟩)⟩)
  | outOfRange (note : Notification) (hctx : p'.snpSyncCtx = p.snpSyncCtx)
      (hbody : req.body = .customNotification (some note)) (hterm : req.term = s.state.term)

theorem createAppendEntriesReq_built {env : Env} {p p' : Peer} {custom : Nat} {req : ReqMsg}
    (h : s.createAppendEntriesReq env p custom = some (p', req)) :
    s.BuiltReq p p' req ∧ p'.config = p.config ∧ p'.matchedIdx = p.matchedIdx ∧
      p'.leaveRequested = p.leaveRequested := by
  dsimp only [createAppendEntriesReq] at h
  generalize hq : (if p.nextLogIdx = 0 then ({ p with nextLogIdx := s.precommitIndex + 1 } : Peer)
    else p) = q at h
  have hqp : q.config = p.config ∧ q.matchedIdx = p.matchedIdx ∧
      q.leaveRequested = p.leaveRequested ∧ q.snpSyncCtx = p.snpSyncCtx := by
    rw [← hq]
    split <;> exact ⟨rfl, rfl, rfl, rfl⟩
  obtain ⟨hconf, hmatch, hleave, hctx⟩ := hqp
  have hid : q.id = p.id := congrArg SrvConfig.id hconf
  generalize (if 0 < custom then custom else q.nextLogIdx - 1) = last at h
  split at h
  · cases h
  rename_i hlast
  split at h
  · rename_i hheld
    generalize hes : (if s.precommitIndex + 1 ≤ last + 1 then [] else _) = es at h
    cases h
    refine ⟨.entries last es (by omega) hheld.1 ?_ hctx (by rw [hid]), hconf, hmatch, hleave⟩
    rw [← hes]
    split
    · exact List.nil_prefix
    · have hall (n : Nat) : s.log.logEntries (last + 1) n <+:
          s.log.entries.drop (last + 1 - s.log.startIndex) := List.take_prefix _ _
      cases env.batchEntries with
      | none => exact hall _
      | some n => exact (List.take_prefix _ _).trans (hall _)
  split at h
  · unfold createSyncSnapshotReq at h
    split at h
    · cases h
    · rename_i ctx hsync
      cases h
      refine ⟨.snapshot ctx env.lastObject ?_ rfl (by rw [← hid]; rfl), hconf, hmatch, hleave⟩
      rw [← hctx]
      exact s.syncContext_cases hsync
  · cases h
    exact ⟨.outOfRange _ hctx rfl rfl, hconf, hmatch, hleave⟩

/-- `request_append_entries(p)` up to the send. `reconnect` is a connection that was made again,
which resets both indices of the peer. -/
def requestAppendEntriesTo (env : Env) (dst : Int) (reconnect : Bool) (custom : Nat) :
    Option (RaftServer × ReqMsg) :=
  if s.role ≠ .leader then none
  else
    match s.findPeer dst with
    | none => none
    | some p =>
      let p' : Peer :=
        if reconnect ∧ p.nextLogIdx ≠ 0 then { p with nextLogIdx := 0, matchedIdx := 0 } else p
      match s.createAppendEntriesReq env p' custom with
      | none => none
      | some (p'', req) =>
        let leaving := s.srvToLeave == some dst && decide (s.srvToLeaveTargetIdx ≤ req.commitIdx)
        some (s.updatePeer dst
          (fun _ => { p'' with steppingDown := p''.steppingDown || leaving }), req)

/-! ## Receiving a request -/

/-- The consistency check on the position that precedes the received entries. -/
def appendLogOkay (req : ReqMsg) : Bool :=
  let logTerm := if req.lastLogIdx < s.log.nextSlot then s.termForLog req.lastLogIdx else 0
  req.lastLogIdx == 0 || (logTerm != 0 && req.lastLogTerm == logTerm)
    || s.lastSnapshot.any (fun snp =>
      snp.lastLogIdx == req.lastLogIdx && snp.lastLogTerm == req.lastLogTerm)

/-- The commit indices step back below the first entry that is rolled back, and a rolled back
configuration ends the change it belonged to. -/
@[simps] def rollback (i : Nat) : RaftServer :=
  { s with
    quickCommitIndex := if i ≤ s.quickCommitIndex then i - 1 else s.quickCommitIndex
    smCommitIndex := if i ≤ s.smCommitIndex then i - 1 else s.smCommitIndex
    configChanging :=
      s.configChanging && !(s.log.logEntries i s.log.nextSlot).any LogEntry.isConf }

@[simps] def storeReceived (i : Nat) (es : List LogEntry) : RaftServer :=
  { s with
    log := s.log.writeFrom i es
    configChanging := s.configChanging || es.any LogEntry.isConf }

def writeEntries (first : Nat) (entries : List LogEntry) : RaftServer :=
  let r := s.log.skipLoop first entries
  if r.1 < s.log.nextSlot ∧ r.2 ≠ [] then (s.rollback r.1).storeReceived r.1 r.2
  else s.storeReceived r.1 r.2

/-- This server's own entry has committed, so its catch-up phase is over. -/
def catchUpCommitted : Bool :=
  s.state.catchingUp && (s.config.getServer s.id).any (fun c => !c.newJoiner)

@[simps] def clearCatchingUp : RaftServer :=
  { s with
    state := { s.state with catchingUp := s.state.catchingUp && !s.catchUpCommitted }
    savedState :=
      if s.catchUpCommitted then { s.state with catchingUp := false } else s.savedState }

@[simps] def noteLeader (req : ReqMsg) : RaftServer :=
  { s with leader := req.src, leaderCommitIndex := req.commitIdx, outOfLogRange := false }

/-- `handle_append_entries` after the request was found acceptable. -/
def acceptEntries (req : ReqMsg) (entries : List LogEntry) : RaftServer :=
  let s₁ := if entries = [] then s else s.writeEntries (req.lastLogIdx + 1) entries
  let target := req.lastLogIdx + entries.length
  let s₂ := (s₁.noteLeader req).tryUpdatePrecommitIndex target
  let s₃ := s₂.commit (min req.commitIdx target)
  if req.term = s₃.state.term ∧ s₃.role = .follower then s₃.restartElectionTimer else s₃

/-- The role of a server that hears from a leader of its own term. -/
def followAppender (req : ReqMsg) : RaftServer :=
  if req.term = s.state.term then
    if s.role = .candidate then s.becomeFollower else s.updateTargetPriority
  else s

def refusesAppend (req : ReqMsg) : Bool :=
  decide (req.term < s.state.term) || !s.appendLogOkay req || s.state.receivingSnapshot

def handleAppendEntries (env : Env) (req : ReqMsg) (entries : List LogEntry) :
    RaftServer × Option RespMsg :=
  if s.params.useFullConsensusAmongHealthyMembers ∧ env.timedOut then (s, none)
  else
    let s₁ := s.clearCatchingUp
    if req.term = s₁.state.term ∧ s₁.role = .leader then (s₁, none)
    else
      let s₂ := s₁.followAppender req
      let resp : RespMsg :=
        { term := s₂.state.term
          type := .appendEntries
          src := s₂.id
          dst := req.src
          nextIdx := s₂.log.nextSlot }
      if s₂.refusesAppend req then
        (s₂, some { resp with
          hint := if s₂.state.receivingSnapshot then .receivingSnapshot else .none })
      else if env.refused then
        (s₂.restartElectionTimer, some { resp with hint := .doNotRewind })
      else
        (s₂.acceptEntries req entries, some (resp.accept (req.lastLogIdx + entries.length + 1)))

/-! ## Receiving a response -/

/-- Voting peers that full consensus leaves out. -/
def getNotRespondingPeersCount (env : Env) (requiredLogIdx : Nat) : Nat :=
  (s.peers.filter (fun p =>
    s.isRegularMember p && p.isExcludedFromQuorum env requiredLogIdx)).length

/-- The position in the sorted list of matched indices that commits. -/
def commitQuorumIdx (env : Env) : Nat :=
  let quorum := s.getQuorumForCommit
  if s.params.useFullConsensusAmongHealthyMembers ∧ s.params.customCommitQuorumSize = 0 then
    let silent := s.getNotRespondingPeersCount env (s.quickCommitIndex - s.params.maxAppendSize)
    if silent < s.getNumVotingMembers - quorum then s.getNumVotingMembers - silent - 1 else quorum
  else quorum

/-- The leader's own index and the matched indices of the members that vote. -/
def matchedIndexes (env : Env) : List Nat :=
  s.getCurrentLeaderIndex env :: (s.peers.filter s.isRegularMember).map Peer.matchedIdx

/-- `get_expected_committed_log_idx` with the state machine's default `adjust_commit_index`. -/
def getExpectedCommittedLogIdx (env : Env) : Nat :=
  ((s.matchedIndexes env).insertionSort (· ≥ ·)).getD (s.commitQuorumIdx env) 0

/-- A new joiner that caught up becomes a regular member. -/
def promoteNewJoiner (env : Env) (id : Int) : RaftServer :=
  let c := (s.config.setLogIdx s.log.nextSlot).mapServer id
    (fun sc => { sc with newJoiner := false })
  (s.markChanging c).appendConf env c

def readyForPromotion (p : Peer) : Bool :=
  let gap := if s.params.logSyncStopGap = 0 then 1 else s.params.logSyncStopGap
  !s.configChanging && p.config.newJoiner && decide (s.log.nextSlot ≤ p.matchedIdx + gap)

/-- The chosen successor has every entry of the leader that paused its writes. -/
def readyToResign (p : Peer) : Bool :=
  s.writePaused && p.id == s.nextLeaderCandidate && p.matchedIdx != 0
    && p.matchedIdx == s.log.nextSlot - 1

def resign (dst : Int) : RaftServer × List ReqMsg :=
  let s' := s.stepDown
  (s', [s'.positionReq dst (.customNotification (some .leadershipTakeover))])

/-- The index updates of `handle_append_entries_resp`. Neither the role nor the term of the
response is looked at. -/
def recordAppendResp (env : Env) (resp : RespMsg) : RaftServer :=
  if resp.accepted then
    let s₁ := s.updatePeer resp.src (Peer.onAppendAccepted resp)
    s₁.commit (s₁.getExpectedCommittedLogIdx env)
  else s.updatePeer resp.src (Peer.onAppendRejected resp)

/-- The server to be removed has received the configuration without it. -/
def leaverCaughtUp (resp : RespMsg) : Bool :=
  s.srvToLeave == some resp.src && (s.findPeer resp.src).any Peer.steppingDown
    && decide (s.srvToLeaveTargetIdx < resp.nextIdx)

def handleAppendEntriesResp (env : Env) (resp : RespMsg) : RaftServer × List ReqMsg :=
  if (s.findPeer resp.src).isNone then (s, [])
  else
    let s₁ := s.checkSrvToLeaveTimeout env
    if s₁.leaverCaughtUp resp then ((s₁.removePeerFromPeers resp.src).resetSrvToLeave, [])
    else
      let s₂ := s₁.recordAppendResp env resp
      match s₂.findPeer resp.src with
      | none => (s₂, [])
      | some p =>
        if s₂.readyForPromotion p then (s₂.promoteNewJoiner env p.id, [])
        else if s₂.readyToResign p then s₂.resign p.id
        else (s₂, [])

/-- `notify_log_append_completion` on a leader whose log device finished writing. -/
def notifyLogAppendCompletion (env : Env) (ok : Bool) : RaftServer :=
  if s.role ≠ .leader then s
  else if ok then s.commit (s.getExpectedCommittedLogIdx env)
  else s.stepDown

end RaftServer
end Raft
end Xio
