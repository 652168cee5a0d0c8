import Xio.Raft.Process

/-!
# Raft.Settled — steps that take no part in an election

Elections are decided on a small part of a server: its term and vote, their saved copies, the
ballot counters and whether it leads. Most operations leave that part alone, except that they may
save it or step down; they are `Settled`. A newer term that a message brings empties the ballot
(`Raised`).

Before an election there is a round of pre-votes, which are counted in `pre_vote_`. Heartbeats and
configuration changes reset the counter, and most other operations leave it alone (`Tallies`).

Each handler gets one lemma that says which of these it is (`Quiet` if it is settled and the counter
stays or is reset), so that the facts about elections need not look into the handlers again.
-/

namespace Xio
namespace Raft

def ReqMsg.isVoteReq (m : ReqMsg) : Bool :=
  match m.body with
  | .requestVote _ => true
  | _ => false

theorem ReqMsg.isVoteReq_of_body {m : ReqMsg} {force : Bool} (h : m.body = .requestVote force) :
    m.isVoteReq = true := by
  simp [isVoteReq, h]

def NoVoteReq (sent : List ReqMsg) : Prop := ∀ m ∈ sent, m.isVoteReq = false

theorem NoVoteReq.nil : NoVoteReq [] := nofun

theorem NoVoteReq.single {m : ReqMsg} (h : m.isVoteReq = false) : NoVoteReq [m] := by
  simpa [NoVoteReq] using h

/-- What elections are decided on. -/
structure Ballot where
  id : Int
  term : Nat
  votedFor : Int
  savedTerm : Nat
  savedVote : Int
  completed : Bool
  granted : Nat
  role : SrvRole
  deriving DecidableEq, Repr

namespace RaftServer

variable {s t u : RaftServer} {env : Env}

def ballot (s : RaftServer) : Ballot :=
  ⟨s.id, s.state.term, s.state.votedFor, s.savedState.term, s.savedState.votedFor,
    s.electionCompleted, s.votesGranted, s.role⟩

/-- The ballot stays, it may be saved again, and nobody becomes leader. -/
structure Settled (s t : RaftServer) : Prop where
  id : t.id = s.id
  term : t.state.term = s.state.term
  vote : t.state.votedFor = s.state.votedFor
  completed : t.electionCompleted = s.electionCompleted
  granted : t.votesGranted = s.votesGranted
  role : t.role = .leader → s.role = .leader
  saved : (t.savedState.term = s.savedState.term ∧ t.savedState.votedFor = s.savedState.votedFor) ∨
    (t.savedState.term = s.state.term ∧ t.savedState.votedFor = s.state.votedFor)

/-- A follower of a newer term with an empty ballot, which is saved. -/
structure Raised (s t : RaftServer) (newTerm : Nat) : Prop where
  lt : s.state.term < newTerm
  id : t.id = s.id
  term : t.state.term = newTerm
  vote : t.state.votedFor = -1
  completed : t.electionCompleted = false
  granted : t.votesGranted = 0
  role : t.role ≠ .leader
  saved : t.savedState.term = newTerm ∧ t.savedState.votedFor = -1

/-- A message of the given term was heard: the ballot stays unless the term is new. -/
def Heard (s t : RaftServer) (term : Nat) : Prop := Settled s t ∨ Raised s t term

theorem Settled.refl (s : RaftServer) : Settled s s :=
  ⟨rfl, rfl, rfl, rfl, rfl, fun h => h, .inl ⟨rfl, rfl⟩⟩

theorem Settled.trans (h₁ : Settled s t) (h₂ : Settled t u) : Settled s u where
  id := h₂.id.trans h₁.id
  term := h₂.term.trans h₁.term
  vote := h₂.vote.trans h₁.vote
  completed := h₂.completed.trans h₁.completed
  granted := h₂.granted.trans h₁.granted
  role := fun h => h₁.role (h₂.role h)
  saved := by
    rcases h₂.saved with ⟨ht, hv⟩ | ⟨ht, hv⟩
    · rw [ht, hv]
      exact h₁.saved
    · rw [ht, hv, h₁.term, h₁.vote]
      exact .inr ⟨rfl, rfl⟩

theorem Settled.of_ballot (h : t.ballot = s.ballot) : Settled s t := by
  simp only [ballot, Ballot.mk.injEq] at h
  obtain ⟨hid, hterm, hvote, hst, hsv, hcomp, hgrant, hrole⟩ := h
  exact ⟨hid, hterm, hvote, hcomp, hgrant, fun h => hrole ▸ h, .inl ⟨hst, hsv⟩⟩

theorem Settled.of_saving (h : t.ballot = { s.ballot with
      savedTerm := t.savedState.term, savedVote := t.savedState.votedFor })
    (hsaved : t.savedState = s.savedState ∨
      t.savedState.term = s.state.term ∧ t.savedState.votedFor = s.state.votedFor) :
    Settled s t := by
  simp only [ballot, Ballot.mk.injEq] at h
  obtain ⟨hid, hterm, hvote, _, _, hcomp, hgrant, hrole⟩ := h
  refine ⟨hid, hterm, hvote, hcomp, hgrant, fun h => hrole ▸ h, ?_⟩
  rcases hsaved with h | h
  · rw [h]
    exact .inl ⟨rfl, rfl⟩
  · exact .inr h

/-! ## The pre-vote counter -/

/-- The granted pre-votes of the round, and whether they have started an election. -/
def tally (s : RaftServer) : Nat × Bool := (s.preVote.dead, s.preVote.done)

/-- The counter is reset, with at most this server's own pre-vote in it, or it stays. -/
def Tallies (s t : RaftServer) : Prop :=
  t.preVote.dead ≤ 1 ∧ t.preVote.done = false ∨ t.tally = s.tally

theorem Tallies.refl (s : RaftServer) : Tallies s s := .inr rfl

theorem Tallies.of_reset (h : t.tally = (0, false)) : Tallies s t := by
  have hdead : t.preVote.dead = 0 := congrArg Prod.fst h
  exact .inl ⟨by rw [hdead]; exact Nat.zero_le 1, congrArg Prod.snd h⟩

theorem Tallies.trans (h : Tallies s t) (h' : Tallies t u) : Tallies s u := by
  rcases h' with hreset | hsame
  · exact .inl hreset
  have hdead : u.preVote.dead = t.preVote.dead := congrArg Prod.fst hsame
  have hdone : u.preVote.done = t.preVote.done := congrArg Prod.snd hsame
  rcases h with hreset | hsame'
  · exact .inl ⟨hdead ▸ hreset.1, hdone.trans hreset.2⟩
  · exact .inr (hsame.trans hsame')

/-- Neither an election nor a round of pre-votes makes progress. -/
structure Quiet (s t : RaftServer) : Prop extends Settled s t where
  tallies : Tallies s t

namespace Quiet

theorem refl (s : RaftServer) : Quiet s s := ⟨Settled.refl s, Tallies.refl s⟩

theorem trans (h : Quiet s t) (h' : Quiet t u) : Quiet s u :=
  ⟨h.toSettled.trans h'.toSettled, h.tallies.trans h'.tallies⟩

theorem of_ballot (h : t.ballot = s.ballot) (htally : t.tally = s.tally) : Quiet s t :=
  ⟨Settled.of_ballot h, .inr htally⟩

theorem of_saving (h : t.ballot = { s.ballot with
      savedTerm := t.savedState.term, savedVote := t.savedState.votedFor })
    (htally : t.tally = s.tally)
    (hsaved : t.savedState = s.savedState ∨
      t.savedState.term = s.state.term ∧ t.savedState.votedFor = s.state.votedFor) : Quiet s t :=
  ⟨Settled.of_saving h hsaved, .inr htally⟩

theorem of_reset (h : t.ballot = s.ballot) (htally : t.tally = (0, false)) : Quiet s t :=
  ⟨Settled.of_ballot h, Tallies.of_reset htally⟩

end Quiet

theorem Raised.settled {term : Nat} (h : Raised s u term) (h' : Settled u t) : Raised s t term where
  lt := h.lt
  id := h'.id.trans h.id
  term := h'.term.trans h.term
  vote := h'.vote.trans h.vote
  completed := h'.completed.trans h.completed
  granted := h'.granted.trans h.granted
  role := fun hr => h.role (h'.role hr)
  saved := by
    rcases h'.saved with ⟨ht, hv⟩ | ⟨ht, hv⟩
    · rw [ht, hv]
      exact h.saved
    · rw [ht, hv]
      exact ⟨h.term, h.vote⟩

theorem Heard.settled {term : Nat} (h : Heard s u term) (h' : Settled u t) : Heard s t term := by
  rcases h with h | h
  · exact .inl (h.trans h')
  · exact .inr (h.settled h')

/-! ## Roles and terms -/

theorem restartElectionTimer_quiet (s : RaftServer) : Quiet s s.restartElectionTimer := by
  refine Quiet.of_saving rfl rfl ?_
  simp only [restartElectionTimer_savedState]
  split
  · exact .inr ⟨rfl, rfl⟩
  · exact .inl rfl

theorem becomeFollower_quiet (s : RaftServer) : Quiet s s.becomeFollower := by
  unfold becomeFollower
  refine .trans ?_ (restartElectionTimer_quiet _)
  exact ⟨⟨rfl, rfl, rfl, rfl, rfl, nofun, .inl ⟨rfl, rfl⟩⟩, .inr rfl⟩

theorem stepDown_quiet (s : RaftServer) : Quiet s s.stepDown := by
  have hforget : Quiet s { s with leader := -1 } := .of_ballot rfl rfl
  exact (hforget.trans (becomeFollower_quiet _)).trans (.of_ballot rfl rfl)

theorem raiseTerm_raised {term : Nat} (h : s.state.term < term) :
    Raised s (s.raiseTerm term) term := by
  refine Raised.settled ?_ (becomeFollower_quiet _).toSettled
  exact ⟨h, rfl, rfl, rfl, rfl, rfl, nofun, rfl, rfl⟩

theorem updateTerm_heard (s : RaftServer) (term : Nat) : Heard s (s.updateTerm term).1 term := by
  unfold updateTerm
  split
  · rename_i h
    exact .inr (raiseTerm_raised h)
  · exact .inl (.refl s)

theorem updateTerm_tally (s : RaftServer) (term : Nat) : (s.updateTerm term).1.tally = s.tally := by
  unfold updateTerm
  split <;> rfl

theorem updateTermOnReq_heard (s : RaftServer) (req : ReqMsg) :
    Heard s (s.updateTermOnReq req) req.term := by
  have h := updateTerm_heard s req.term
  unfold updateTermOnReq
  split
  case h_4 => exact .inl (.refl s)
  all_goals exact h.settled (Settled.of_ballot rfl)

theorem updateTermOnReq_tally (s : RaftServer) (req : ReqMsg) :
    (s.updateTermOnReq req).tally = s.tally := by
  have h := updateTerm_tally s req.term
  unfold updateTermOnReq
  split
  case h_4 => rfl
  all_goals exact h

theorem yieldLeadership_quiet (s : RaftServer) (env : Env) (imm : Bool) (succ : Int) :
    Quiet s (s.yieldLeadership env imm succ) := by
  unfold yieldLeadership
  split
  · exact .refl s
  · split
    · exact stepDown_quiet s
    · exact .of_ballot rfl rfl

/-! ## Pre-votes and the timer -/

theorem positionReq_noVote {body : ReqBody} (h : ∀ force, body ≠ .requestVote force) (dst : Int) :
    (s.positionReq dst body).isVoteReq = false := by
  cases body with
  | requestVote force => exact absurd rfl (h force)
  | _ => rfl

theorem requestPrevote_quiet (s : RaftServer) (env : Env) :
    Quiet s (s.requestPrevote env).1 ∧ NoVoteReq (s.requestPrevote env).2 := by
  have hopen : Quiet s (s.openPrevote env) :=
    ⟨⟨rfl, rfl, rfl, rfl, rfl, fun h => absurd h (by simp), .inl ⟨rfl, rfl⟩⟩,
      .inl ⟨Nat.le_refl 1, rfl⟩⟩
  dsimp only [requestPrevote]
  split
  · exact ⟨hopen.trans (restartElectionTimer_quiet _), NoVoteReq.nil⟩
  · refine ⟨hopen, ?_⟩
    intro m hm
    obtain ⟨p, _, rfl⟩ := List.mem_map.mp hm
    exact positionReq_noVote (by simp) p.id

theorem prepareElection_quiet (s : RaftServer) : Quiet s s.prepareElection := by
  dsimp only [prepareElection]
  split <;> split
  · exact .of_reset rfl rfl
  · exact .refl s
  · exact .of_reset rfl rfl
  · exact .of_ballot rfl rfl

theorem countDown_quiet (s : RaftServer) : Quiet s s.countDown := by
  refine Quiet.of_saving rfl rfl ?_
  simp only [countDown_savedState]
  split
  · exact .inr ⟨rfl, rfl⟩
  · exact .inl rfl

/-! ## Configurations and snapshots -/

theorem withOwnConfig_quiet (s : RaftServer) (c : ClusterConfig) : Quiet s (s.withOwnConfig c) := by
  unfold withOwnConfig
  cases c.getServer s.id with
  | none => exact .refl s
  | some sc =>
    refine Quiet.of_saving rfl rfl ?_
    simp only [Option.elim_some, applyOwnConfig_savedState]
    split
    · exact .inr ⟨rfl, rfl⟩
    · exact .inl rfl

theorem reconfigure_quiet (s : RaftServer) (c : ClusterConfig) : Quiet s (s.reconfigure c) :=
  (withOwnConfig_quiet s c).trans (.of_reset (by simp [ballot]) rfl)

theorem commitNext_quiet (h : s.commitNext = some t) : Quiet s t := by
  unfold commitNext at h
  split at h
  · split at h
    · cases h
    · split at h
      · split at h
        · cases h
        · cases h
          exact .of_ballot rfl rfl
      · cases h
        unfold commitConf
        split
        · have hend : Quiet s s.endConfigChange := .of_ballot rfl rfl
          exact (hend.trans (reconfigure_quiet _ _)).trans (.of_ballot rfl rfl)
        · exact .of_ballot rfl rfl
  · cases h

theorem onSnapshotCompleted_quiet (s : RaftServer) (ok : Bool) :
    Quiet s (s.onSnapshotCompleted ok) := by
  unfold onSnapshotCompleted
  split
  · exact .refl s
  · split <;> exact .of_ballot rfl rfl

theorem followLeader_quiet (s : RaftServer) (req : ReqMsg) : Quiet s (s.followLeader req) := by
  unfold followLeader
  split
  · split
    · exact becomeFollower_quiet s
    · exact restartElectionTimer_quiet s
  · exact .refl s

theorem startReceiving_quiet (s : RaftServer) : Quiet s s.startReceiving := by
  refine Quiet.of_saving rfl rfl ?_
  simp only [startReceiving_savedState]
  split
  · exact .inl rfl
  · exact .inr ⟨rfl, rfl⟩

theorem receiveObject_quiet (s : RaftServer) (env : Env) (resp : RespMsg)
    (obj : SnapshotSyncReq) : Quiet s (s.receiveObject env resp obj).1 := by
  have hrecv := startReceiving_quiet s
  unfold receiveObject
  split
  · exact .refl s
  split
  · exact .refl s
  split
  · exact hrecv.trans (.of_ballot rfl rfl)
  · exact hrecv

theorem handleInstallSnapshotReq_quiet {req : ReqMsg}
    {sync : Option SnapshotSyncReq} {r : RaftServer × Option RespMsg}
    (h : s.handleInstallSnapshotReq env req sync = some r) : Quiet s r.1 := by
  have hfollow := followLeader_quiet s req
  unfold handleInstallSnapshotReq at h
  split at h
  · cases h
  · dsimp only at h
    split at h
    · cases h
      exact hfollow
    · split at h
      · cases h
        exact hfollow
      · cases h
        exact hfollow.trans (receiveObject_quiet _ env _ _)

theorem finishSnapshot_quiet {pending : PendingInstall} {r : RaftServer × RespMsg}
    (h : s.finishSnapshot pending = some r) : Quiet s r.1 := by
  have hcompact : Quiet s (s.compactTo pending) :=
    Quiet.of_saving rfl rfl (.inr ⟨rfl, rfl⟩)
  unfold finishSnapshot at h
  split at h
  · cases h
  · cases h
    have hassign (u : RaftServer) : Quiet u (u.assignIndices pending.snapshot) :=
      Quiet.of_saving rfl rfl (.inr ⟨rfl, rfl⟩)
    refine .trans ?_ (restartElectionTimer_quiet _)
    refine .trans ?_ (hassign _)
    split
    · exact hcompact.trans (reconfigure_quiet _ _)
    · exact hcompact

/-! ## Replication -/

section

variable (s)

theorem clearCatchingUp_quiet : Quiet s s.clearCatchingUp := by
  refine Quiet.of_saving rfl rfl ?_
  simp only [clearCatchingUp_savedState]
  split
  · exact .inr ⟨rfl, rfl⟩
  · exact .inl rfl

theorem followAppender_quiet (req : ReqMsg) : Quiet s (s.followAppender req) := by
  unfold followAppender
  split
  · split
    · exact becomeFollower_quiet s
    · exact .of_reset rfl rfl
  · exact .refl s

theorem writeEntries_quiet (first : Nat) (entries : List LogEntry) :
    Quiet s (s.writeEntries first entries) := by
  dsimp only [writeEntries]
  split <;> exact .of_ballot rfl rfl

theorem acceptEntries_quiet (req : ReqMsg) (entries : List LogEntry) :
    Quiet s (s.acceptEntries req entries) := by
  have hwrite : Quiet s
      (if entries = [] then s else s.writeEntries (req.lastLogIdx + 1) entries) := by
    split
    · exact .refl s
    · exact writeEntries_quiet s _ _
  dsimp only [acceptEntries]
  generalize (if entries = [] then s else _) = u at hwrite ⊢
  have hindex : Quiet u (((u.noteLeader req).tryUpdatePrecommitIndex
      (req.lastLogIdx + entries.length)).commit
        (min req.commitIdx (req.lastLogIdx + entries.length))) := .of_ballot rfl rfl
  split
  · exact hwrite.trans (hindex.trans (restartElectionTimer_quiet _))
  · exact hwrite.trans hindex

theorem handleAppendEntries_quiet (env : Env) (req : ReqMsg) (entries : List LogEntry) :
    Quiet s (s.handleAppendEntries env req entries).1 := by
  have hclear := clearCatchingUp_quiet s
  have hfollow := hclear.trans (followAppender_quiet s.clearCatchingUp req)
  unfold handleAppendEntries
  split
  · exact .refl s
  dsimp only
  split
  · exact hclear
  split
  · exact hfollow
  split
  · exact hfollow.trans (restartElectionTimer_quiet _)
  · exact hfollow.trans (acceptEntries_quiet _ req entries)

theorem recordAppendResp_quiet (env : Env) (resp : RespMsg) :
    Quiet s (s.recordAppendResp env resp) := by
  unfold recordAppendResp
  split <;> exact .of_ballot rfl rfl

theorem promoteNewJoiner_quiet (env : Env) (id : Int) : Quiet s (s.promoteNewJoiner env id) := by
  unfold promoteNewJoiner
  exact .of_ballot (by simp [ballot]) rfl

theorem handleAppendEntriesResp_quiet (env : Env) (resp : RespMsg) :
    Quiet s (s.handleAppendEntriesResp env resp).1 ∧
      NoVoteReq (s.handleAppendEntriesResp env resp).2 := by
  have htimeout : Quiet s (s.checkSrvToLeaveTimeout env) := .of_ballot rfl rfl
  have hrecord := htimeout.trans (recordAppendResp_quiet _ env resp)
  unfold handleAppendEntriesResp
  split
  · exact ⟨.refl s, NoVoteReq.nil⟩
  dsimp only
  split
  · exact ⟨.of_ballot rfl rfl, NoVoteReq.nil⟩
  split
  · exact ⟨hrecord, NoVoteReq.nil⟩
  split
  · exact ⟨hrecord.trans (promoteNewJoiner_quiet _ env _), NoVoteReq.nil⟩
  split
  · exact ⟨hrecord.trans (stepDown_quiet _), .single (positionReq_noVote (by simp) _)⟩
  · exact ⟨hrecord, NoVoteReq.nil⟩

theorem notifyLogAppendCompletion_quiet (env : Env) (ok : Bool) :
    Quiet s (s.notifyLogAppendCompletion env ok) := by
  unfold notifyLogAppendCompletion
  split
  · exact .refl s
  split
  · exact .of_ballot rfl rfl
  · exact stepDown_quiet s

end

theorem createSyncSnapshotReq_noVote {p : Peer} {last : Nat} {r : Peer × ReqMsg}
    (h : s.createSyncSnapshotReq env p last = some r) : r.2.isVoteReq = false := by
  unfold createSyncSnapshotReq at h
  split at h
  · cases h
  · cases h
    rfl

theorem createAppendEntriesReq_noVote {p : Peer} {custom : Nat} {r : Peer × ReqMsg}
    (h : s.createAppendEntriesReq env p custom = some r) : r.2.isVoteReq = false := by
  dsimp only [createAppendEntriesReq] at h
  generalize (if p.nextLogIdx = 0 then _ else p) = p' at h
  generalize (if 0 < custom then custom else p'.nextLogIdx - 1) = last at h
  split at h
  · cases h
  split at h
  · cases h
    rfl
  split at h
  · exact createSyncSnapshotReq_noVote h
  · cases h
    rfl

theorem requestAppendEntriesTo_quiet {dst : Int} {reconnect : Bool}
    {custom : Nat} {r : RaftServer × ReqMsg}
    (h : s.requestAppendEntriesTo env dst reconnect custom = some r) :
    Quiet s r.1 ∧ NoVoteReq [r.2] := by
  unfold requestAppendEntriesTo at h
  split at h
  · cases h
  split at h
  · cases h
  dsimp only at h
  split at h
  · cases h
  · rename_i hreq
    cases h
    exact ⟨.of_ballot rfl rfl, .single (createAppendEntriesReq_noVote hreq)⟩

/-! ## Membership -/

section

variable (s)

theorem appendConf_quiet (env : Env) (c : ClusterConfig) : Quiet s (s.appendConf env c) :=
  .of_ballot (by simp [ballot]) rfl

theorem changeConf_quiet (env : Env) (c : ClusterConfig) :
    Quiet s ((s.markChanging c).appendConf env c) :=
  .of_ballot (by simp [ballot]) rfl

theorem syncLogToNewSrv_quiet (env : Env) (startIdx : Nat) :
    Quiet s (s.syncLogToNewSrv env startIdx).1 ∧ NoVoteReq (s.syncLogToNewSrv env startIdx).2 := by
  unfold syncLogToNewSrv
  split
  · dsimp only
    split
    · exact ⟨changeConf_quiet s env _, NoVoteReq.nil⟩
    split
    · split
      · rename_i hreq
        exact ⟨.of_ballot rfl rfl, .single (createSyncSnapshotReq_noVote hreq)⟩
      · exact ⟨.refl s, NoVoteReq.nil⟩
    · exact ⟨.refl s, .single rfl⟩
  · exact ⟨.refl s, NoVoteReq.nil⟩

theorem rmSrvFromCluster_quiet (env : Env) (id : Int) : Quiet s (s.rmSrvFromCluster env id) := by
  unfold rmSrvFromCluster
  split
  · exact .refl s
  · split <;> exact .of_ballot (by simp [ballot]) rfl

theorem handleLeaveRpcErr_quiet (env : Env) (id : Int) : Quiet s (s.handleLeaveRpcErr env id) := by
  have hdrop : Quiet s
      (if s.peers.length = 1 then (s.removePeerFromPeers id).resetSrvToLeave else s) := by
    split
    · exact .of_ballot rfl rfl
    · exact .refl s
  dsimp only [handleLeaveRpcErr]
  split
  · exact hdrop.trans (.of_ballot rfl rfl)
  · exact hdrop.trans (rmSrvFromCluster_quiet _ env id)

theorem handleAddSrvReq_quiet (env : Env) (srv : Option SrvConfig) :
    Quiet s (s.handleAddSrvReq env srv).1 ∧ NoVoteReq (s.handleAddSrvReq env srv).2.1 := by
  have htimeout : Quiet s (s.checkSrvToLeaveTimeout env) := .of_ballot rfl rfl
  unfold handleAddSrvReq
  cases srv with
  | none => exact ⟨.refl s, NoVoteReq.nil⟩
  | some sc =>
    dsimp only
    split
    · exact ⟨.refl s, NoVoteReq.nil⟩
    generalize (if (s.checkSrvToLeaveTimeout env).params.useNewJoinerType then _ else sc) = conf
    split
    · exact ⟨htimeout, NoVoteReq.nil⟩
    split
    · exact ⟨htimeout, NoVoteReq.nil⟩
    split
    · exact ⟨htimeout, NoVoteReq.nil⟩
    · exact ⟨.of_ballot rfl rfl, .single rfl⟩

theorem handleRmSrvReq_quiet (env : Env) (id : Option Int) :
    Quiet s (s.handleRmSrvReq env id).1 ∧ NoVoteReq (s.handleRmSrvReq env id).2.1 := by
  have htimeout : Quiet s (s.checkSrvToLeaveTimeout env) := .of_ballot rfl rfl
  unfold handleRmSrvReq
  cases id with
  | none => exact ⟨.refl s, NoVoteReq.nil⟩
  | some id =>
    dsimp only
    split
    · exact ⟨.refl s, NoVoteReq.nil⟩
    split
    · exact ⟨htimeout, NoVoteReq.nil⟩
    split
    · exact ⟨htimeout, NoVoteReq.nil⟩
    split
    · exact ⟨htimeout, NoVoteReq.nil⟩
    split
    · exact ⟨htimeout, NoVoteReq.nil⟩
    · exact ⟨.of_ballot rfl rfl, .single rfl⟩

theorem handleLogSyncReq_quiet (req : ReqMsg) (pack : Option (List LogEntry)) :
    Quiet s (s.handleLogSyncReq req pack).1 := by
  unfold handleLogSyncReq
  cases pack with
  | none => exact .refl s
  | some es =>
    dsimp only
    split
    · exact .refl s
    · exact .of_ballot rfl rfl

theorem handlePriorityChangeReq_quiet (req : ReqMsg) (change : Option (Int × Int)) :
    Quiet s (s.handlePriorityChangeReq req change).1 := by
  unfold handlePriorityChangeReq
  cases change with
  | none => exact .refl s
  | some pr =>
    dsimp only
    split <;> exact .of_ballot rfl rfl

theorem broadcastPriorityChange_quiet (id priority : Int) :
    Quiet s (s.broadcastPriorityChange id priority).1 ∧
      NoVoteReq (s.broadcastPriorityChange id priority).2 := by
  refine ⟨.of_ballot rfl rfl, ?_⟩
  intro m hm
  obtain ⟨p, _, rfl⟩ := List.mem_map.mp hm
  rfl

theorem setPriority_quiet (env : Env) (id priority : Int) (bc : Bool) :
    Quiet s (s.setPriority env id priority bc).1 ∧
      NoVoteReq (s.setPriority env id priority bc).2.1 := by
  have hbroadcast := broadcastPriorityChange_quiet s id priority
  unfold setPriority
  split
  · split
    · exact hbroadcast
    · exact ⟨.refl s, NoVoteReq.nil⟩
  split
  · exact hbroadcast
  · exact ⟨changeConf_quiet s env _, NoVoteReq.nil⟩

theorem updateSrvConfig_quiet (env : Env) (srv : SrvConfig) :
    Quiet s (s.updateSrvConfig env srv).1 := by
  unfold updateSrvConfig
  split
  · exact .refl s
  split
  · exact .refl s
  split
  · exact .refl s
  · exact appendConf_quiet s env _

theorem flipLearnerFlag_quiet (env : Env) (id : Int) (flag : Bool) :
    Quiet s (s.flipLearnerFlag env id flag).1 := by
  unfold flipLearnerFlag
  split
  · exact .refl s
  split
  · exact .refl s
  split
  · exact .refl s
  split
  · exact .refl s
  · exact changeConf_quiet s env _

theorem joinProgress_quiet (env : Env) (p : Peer) (startIdx : Nat) :
    Quiet s ((s.setSrvToJoin p).syncLogToNewSrv env startIdx).1 ∧
      NoVoteReq ((s.setSrvToJoin p).syncLogToNewSrv env startIdx).2 := by
  have hjoin : Quiet s (s.setSrvToJoin p) := .of_ballot rfl rfl
  have hsync := syncLogToNewSrv_quiet (s.setSrvToJoin p) env startIdx
  exact ⟨hjoin.trans hsync.1, hsync.2⟩

theorem handleLogSyncResp_quiet (env : Env) (resp : RespMsg) :
    Quiet s (s.handleLogSyncResp env resp).1 ∧ NoVoteReq (s.handleLogSyncResp env resp).2 := by
  unfold handleLogSyncResp
  split
  · exact ⟨.refl s, NoVoteReq.nil⟩
  · exact joinProgress_quiet s env _ _

theorem handleInstallSnapshotRespNewMember_quiet (env : Env) (resp : RespMsg) :
    Quiet s (s.handleInstallSnapshotRespNewMember env resp).1 ∧
      NoVoteReq (s.handleInstallSnapshotRespNewMember env resp).2 := by
  unfold handleInstallSnapshotRespNewMember
  split
  · exact ⟨.refl s, NoVoteReq.nil⟩
  · dsimp only
    split
    · exact ⟨.of_ballot rfl rfl, NoVoteReq.nil⟩
    · exact joinProgress_quiet s env _ _

theorem handleExtResp_quiet (env : Env) (resp : RespMsg) (fj : Bool) :
    Quiet s (s.handleExtResp env resp fj).1 ∧ NoVoteReq (s.handleExtResp env resp fj).2 := by
  unfold handleExtResp
  split
  · exact handleLogSyncResp_quiet s env resp
  · unfold handleJoinClusterResp
    split
    · exact syncLogToNewSrv_quiet s env _
    · exact ⟨.refl s, NoVoteReq.nil⟩
  · refine ⟨?_, NoVoteReq.nil⟩
    unfold handleLeaveClusterResp
    split
    · exact rmSrvFromCluster_quiet s env _
    · exact .refl s
  · exact handleInstallSnapshotRespNewMember_quiet s env resp
  · exact ⟨.refl s, NoVoteReq.nil⟩

theorem handlePeerErr_quiet (env : Env) (dst : Int) : Quiet s (s.handlePeerErr env dst) := by
  unfold handlePeerErr
  split
  · exact .refl s
  · have hctx : Quiet s (if env.timedOut then
        s.updatePeer dst (fun p => { p with snpSyncCtx := none }) else s) := by
      split
      · exact .of_ballot rfl rfl
      · exact .refl s
    dsimp only
    split
    · exact hctx.trans (handleLeaveRpcErr_quiet _ env dst)
    · exact hctx

theorem handleExtRespErr_quiet (env : Env) (dst : Int) (lv : Bool) :
    Quiet s (s.handleExtRespErr env dst lv) := by
  unfold handleExtRespErr
  split
  · split
    · exact handleLeaveRpcErr_quiet s env dst
    · exact .refl s
  · split
    · exact .of_ballot rfl rfl
    · exact .refl s

/-! ## Client requests and the heartbeat timer -/

theorem handleHbTimeout_quiet (env : Env) (expired : Bool) :
    Quiet s (s.handleHbTimeout env expired) := by
  have htimeout : Quiet s (s.checkSrvToLeaveTimeout env) := .of_ballot rfl rfl
  dsimp only [handleHbTimeout]
  split
  · exact htimeout.trans (stepDown_quiet _)
  split
  · exact htimeout
  split
  · exact htimeout.trans (yieldLeadership_quiet _ env true (-1))
  · exact htimeout.trans (.of_reset rfl rfl)

theorem appendBufs_quiet (bufs : List Bytes) : Quiet s (s.appendBufs bufs) := by
  unfold appendBufs
  generalize s.state.term = term
  induction bufs generalizing s with
  | nil => exact .refl s
  | cons b bufs ih =>
    have hstore : Quiet s (s.storeLogEntry ⟨term, .appLog b⟩) := .of_ballot rfl rfl
    exact hstore.trans (ih _)

theorem requestAppendEntries_quiet (env : Env) : Quiet s (s.requestAppendEntries env) :=
  .of_ballot (by simp [ballot]) rfl

theorem handleCliReq_quiet (env : Env) (bufs : List Bytes) :
    Quiet s (s.handleCliReq env bufs).1 := by
  have hbufs := appendBufs_quiet s bufs
  unfold handleCliReq
  split
  · exact .refl s
  · refine .trans ?_ (requestAppendEntries_quiet _ env)
    split
    · exact hbufs
    · exact hbufs.trans (.of_ballot rfl rfl)

theorem handleOutOfLogMsg_quiet (req : ReqMsg) :
    Quiet (s.updateTerm req.term).1 (s.handleOutOfLogMsg req) := by
  have hnoted (u : RaftServer) : Quiet u { u with outOfLogRange := true } := .of_ballot rfl rfl
  dsimp only [handleOutOfLogMsg]
  split
  · exact (hnoted _).trans (restartElectionTimer_quiet _)
  · exact hnoted _

theorem handleResignationRequest_quiet (env : Env) (src : Int) :
    Quiet s (s.handleResignationRequest env src) := by
  unfold handleResignationRequest
  split
  · exact yieldLeadership_quiet s env false src
  · exact .refl s

end

end RaftServer
end Raft
end Xio
