import Xio.Raft.Settled

/-!
# Raft.BallotStep — everything a step can do to a ballot

`BallotStep` lists the ways in which one step of a server can take part in an election: it may
stand for election, answer a vote request, count a vote, hear of a newer term, join a cluster or
restart. Every other step is `Settled`. The inversion `step_polled` is the only place that goes
through all inputs; facts about terms, votes, leaders and pre-votes follow from it.
-/

namespace Xio
namespace Raft

open Option

namespace RaftServer

variable {s t u : RaftServer} {env : Env} {req : ReqMsg} {o : Output} {input : Input}

/-! ## Standing for election -/

def voteRequests (s : RaftServer) (term : Nat) (force : Bool) : List ReqMsg :=
  (s.peers.filter s.isRegularMember).map
    (fun p => { s.positionReq p.id (.requestVote force) with term := term })

/-- The server went to a new term, voted for itself and asked the others, or it needs nobody. -/
structure Stood (s t : RaftServer) (env : Env) (sent : List ReqMsg) : Prop where
  id : t.id = s.id
  term : t.state.term = s.state.term + 1 + env.termBump
  vote : t.state.votedFor = s.id
  saved : t.savedState.term = t.state.term ∧ t.savedState.votedFor = s.id
  granted : t.votesGranted = 1
  outcome : (t.electionCompleted = false ∧ t.role ≠ .leader ∧
      ∃ force, sent = s.voteRequests t.state.term force) ∨
    (t.electionCompleted = true ∧ s.getQuorumForElection = 0 ∧ sent = [])

theorem Stood.settled {sent : List ReqMsg} (h : Stood s u env sent)
    (h' : Settled u t) : Stood s t env sent where
  id := h'.id.trans h.id
  term := h'.term.trans h.term
  vote := h'.vote.trans h.vote
  saved := by
    rw [h'.term]
    rcases h'.saved with ⟨ht, hv⟩ | ⟨ht, hv⟩
    · rw [ht, hv]
      exact h.saved
    · rw [ht, hv]
      exact ⟨rfl, h.vote⟩
  granted := h'.granted.trans h.granted
  outcome := by
    rw [h'.completed, h'.term]
    rcases h.outcome with ⟨hc, hr, hs⟩ | hdone
    · exact .inl ⟨hc, fun hl => hr (h'.role hl), hs⟩
    · exact .inr hdone

theorem Stood.mem_sent {sent : List ReqMsg} {m : ReqMsg} (h : Stood s t env sent) (hm : m ∈ sent) :
    m.src = s.id ∧ m.term = t.state.term ∧ m.lastLogIdx = s.log.nextSlot - 1 ∧
      m.lastLogTerm = s.termForLog (s.log.nextSlot - 1) := by
  rcases h.outcome with ⟨_, _, force, rfl⟩ | ⟨_, _, rfl⟩
  · obtain ⟨p, _, rfl⟩ := List.mem_map.mp hm
    exact ⟨rfl, rfl, rfl, rfl⟩
  · cases hm

theorem requestVote_stood (s : RaftServer) (env : Env) (force : Bool) :
    Stood s ((s.openBallot env).requestVote env force).1 env
      ((s.openBallot env).requestVote env force).2 := by
  dsimp only [requestVote]
  split
  · rename_i hq
    have hzero : s.getQuorumForElection = 0 := by
      have hlt : s.getQuorumForElection < 1 := hq
      omega
    refine ⟨by simp, by simp, by simp, by simp, by simp, .inr ⟨by simp, hzero, rfl⟩⟩
  · exact ⟨rfl, rfl, rfl, ⟨rfl, rfl⟩, rfl, .inl ⟨rfl, nofun, force, rfl⟩⟩

@[simp] theorem becomeLeader_tally (s : RaftServer) (env : Env) :
    (s.becomeLeader env).tally = s.tally := by
  dsimp only [becomeLeader, yieldLeadership]
  repeat' split
  all_goals rfl

theorem initiateVote_tally (s : RaftServer) (env : Env) (force : Bool) :
    (s.initiateVote env force).1.tally = s.tally := by
  have hvote : ((s.openBallot env).requestVote env force).1.tally = s.tally := by
    dsimp only [requestVote]
    split
    · rw [becomeLeader_tally]
      rfl
    · rfl
  unfold initiateVote
  split
  · rfl
  dsimp only
  split
  · split <;> exact hvote
  · split <;> rfl

theorem initiateVote_cases (s : RaftServer) (env : Env) (force : Bool) :
    Settled s (s.initiateVote env force).1 ∧ (s.initiateVote env force).2 = [] ∨
      Stood s (s.initiateVote env force).1 env (s.initiateVote env force).2 := by
  unfold initiateVote
  split
  · exact .inl ⟨Settled.of_ballot rfl, rfl⟩
  · dsimp only
    have hforget (u : RaftServer) : Settled u u.forgetLeader := Settled.of_ballot rfl
    split
    · have hstood := requestVote_stood s env force
      split
      · exact .inr hstood
      · exact .inr (hstood.settled (hforget _))
    · split
      · exact .inl ⟨Settled.refl s, rfl⟩
      · exact .inl ⟨hforget s, rfl⟩

/-- The timeout and the pre-vote round change nothing that a candidacy depends on. -/
theorem Stood.of_prepared {sent : List ReqMsg}
    (h : Stood s.prepareElection t env sent) : Stood s t env sent := by
  dsimp only [prepareElection] at h
  split at h <;> split at h
  all_goals exact { h with }

theorem handleElectionTimeout_cases (s : RaftServer) (env : Env) :
    Settled s (s.handleElectionTimeout env).1 ∧ NoVoteReq (s.handleElectionTimeout env).2 ∨
      s.imLearner = false ∧
        Stood s (s.handleElectionTimeout env).1 env (s.handleElectionTimeout env).2 := by
  have htimer := (restartElectionTimer_quiet s).toSettled
  unfold handleElectionTimeout
  split
  · refine .inl ⟨?_, NoVoteReq.nil⟩
    split
    · exact (countDown_quiet s).toSettled
    · exact ((countDown_quiet s).trans (restartElectionTimer_quiet _)).toSettled
  split
  · exact .inl ⟨htimer, NoVoteReq.nil⟩
  split
  · exact .inl ⟨Settled.refl s, NoVoteReq.nil⟩
  split
  · exact .inl ⟨htimer, NoVoteReq.nil⟩
  split
  · exact .inl ⟨Settled.refl s, NoVoteReq.nil⟩
  split
  · exact .inl ⟨htimer, NoVoteReq.nil⟩
  rename_i hlearner
  dsimp only
  have hprep := (prepareElection_quiet s).toSettled
  have hafter (u : RaftServer) : Settled u u.restartElectionTimer :=
    (restartElectionTimer_quiet u).toSettled
  split
  · rcases initiateVote_cases s.prepareElection env false with ⟨hset, hnil⟩ | hstood
    · rw [hnil]
      exact .inl ⟨(hprep.trans hset).trans (hafter _), NoVoteReq.nil⟩
    · refine .inr ⟨by simpa using hlearner, ?_⟩
      exact hstood.of_prepared.settled (hafter _)
  · have hpre := requestPrevote_quiet s.prepareElection env
    exact .inl ⟨(hprep.trans hpre.1.toSettled).trans (hafter _), hpre.2⟩

theorem handlePrevoteResp_cases (s : RaftServer) (env : Env) (resp : RespMsg) :
    Settled s (s.handlePrevoteResp env resp).1 ∧ NoVoteReq (s.handlePrevoteResp env resp).2 ∨
      (resp.term = s.preVote.term ∧ s.prevoteSucceeds (s.countPrevote resp) = true) ∧
        Stood s (s.handlePrevoteResp env resp).1 env (s.handlePrevoteResp env resp).2 := by
  unfold handlePrevoteResp
  split
  · exact .inl ⟨Settled.refl s, NoVoteReq.nil⟩
  · rename_i hterm
    dsimp only
    split
    · rename_i hsucc
      have hleave (u : RaftServer) (go : Bool) : Settled u (u.leaveSoon go) := Settled.of_ballot rfl
      have hstatus (pv : PreVoteStatus) : Settled s (s.withPreVote pv) := Settled.of_ballot rfl
      rcases initiateVote_cases (s.withPreVote { s.countPrevote resp with done := true }) env false
        with ⟨hset, hnil⟩ | hstood
      · rw [hnil]
        have h := ((hstatus _).trans hset).trans (restartElectionTimer_quiet _).toSettled
        exact .inl ⟨h.trans (hleave _ _), NoVoteReq.nil⟩
      · have h : Stood s _ env _ :=
          { hstood with }
        refine .inr ⟨⟨not_not.mp hterm, hsucc⟩, ?_⟩
        exact (h.settled (restartElectionTimer_quiet _).toSettled).settled (hleave _ _)
    · exact .inl ⟨Settled.of_ballot rfl, NoVoteReq.nil⟩

theorem handleLeadershipTakeover_cases (s : RaftServer) (env : Env) :
    Settled s (s.handleLeadershipTakeover env).1 ∧ NoVoteReq (s.handleLeadershipTakeover env).2 ∨
      Stood s (s.handleLeadershipTakeover env).1 env (s.handleLeadershipTakeover env).2 := by
  unfold handleLeadershipTakeover
  split
  · exact .inl ⟨Settled.refl s, NoVoteReq.nil⟩
  · rcases initiateVote_cases s env true with ⟨hset, hnil⟩ | hstood
    · rw [hnil]
      exact .inl ⟨hset.trans (restartElectionTimer_quiet _).toSettled, NoVoteReq.nil⟩
    · exact .inr (hstood.settled (restartElectionTimer_quiet _).toSettled)

/-! ## Giving votes -/

theorem handleVoteReq_cases (s : RaftServer) (req : ReqMsg) (force : Bool) :
    (s.handleVoteReq req force).1 = s ∧ (s.handleVoteReq req force).2.accepted = false ∨
    s.grantsVote req force = true ∧ (s.handleVoteReq req force).1 = s.castVote req.src := by
  unfold handleVoteReq
  split
  · rename_i h
    exact .inr ⟨h, rfl⟩
  · exact .inl ⟨rfl, rfl⟩

theorem handleVoteReq_keeps (s : RaftServer) (req : ReqMsg) (force : Bool) :
    (s.handleVoteReq req force).1.state.term = s.state.term ∧
      (s.handleVoteReq req force).1.role = s.role ∧
      (s.handleVoteReq req force).1.electionCompleted = s.electionCompleted ∧
      (s.handleVoteReq req force).1.votesGranted = s.votesGranted := by
  rcases handleVoteReq_cases s req force with ⟨h, _⟩ | ⟨_, h⟩ <;> rw [h] <;>
    exact ⟨rfl, rfl, rfl, rfl⟩

theorem handleVoteReq_tally (s : RaftServer) (req : ReqMsg) (force : Bool) :
    (s.handleVoteReq req force).1.tally = s.tally := by
  rcases handleVoteReq_cases s req force with ⟨h, _⟩ | ⟨_, h⟩ <;> rw [h]
  rfl

theorem votedFor_of_grantsVote {force : Bool} (h : s.grantsVote req force = true) :
    s.state.votedFor = req.src ∨ s.state.votedFor = -1 := by
  simp only [grantsVote, Bool.and_eq_true, Bool.or_eq_true, beq_iff_eq] at h
  exact h.1.2

theorem term_of_grantsVote {force : Bool} (h : s.grantsVote req force = true) :
    req.term = s.state.term := by
  simp only [grantsVote, Bool.and_eq_true, beq_iff_eq] at h
  exact h.1.1.1

/-! ## Counting votes -/

/-- A vote response of the open election was counted. -/
structure Counted (s t : RaftServer) (resp : RespMsg) : Prop where
  isOpen : s.electionCompleted = false
  sameTerm : resp.term = s.state.term
  id : t.id = s.id
  term : t.state.term = s.state.term
  vote : t.state.votedFor = s.state.votedFor
  saved : t.savedState = s.savedState
  granted : t.votesGranted = s.votesGranted + if resp.accepted then 1 else 0
  role : t.role = .leader → s.role = .leader ∨
    t.electionCompleted = true ∧ s.getQuorumForElection + 1 ≤ t.votesGranted

theorem handleVoteResp_cases (s : RaftServer) (env : Env) (resp : RespMsg) :
    s.handleVoteResp env resp = s ∨ Counted s (s.handleVoteResp env resp) resp := by
  unfold handleVoteResp
  split
  · exact .inl rfl
  · rename_i h
    obtain ⟨hopen, hterm⟩ := not_or.mp h
    have hcount : (s.countVote resp).votesGranted =
        s.votesGranted + if resp.accepted then 1 else 0 := by
      simp only [countVote_votesGranted]
      split <;> rfl
    dsimp only
    split
    · rename_i hquorum
      refine .inr ⟨by simpa using hopen, not_not.mp hterm, by simp, by simp, by simp, by simp,
        ?_, ?_⟩
      · simpa using hcount
      · intro _
        have hq : s.getQuorumForElection + 1 ≤ (s.countVote resp).votesGranted := hquorum
        exact .inr ⟨by simp, by simpa using hq⟩
    · exact .inr ⟨by simpa using hopen, not_not.mp hterm, rfl, rfl, rfl, rfl, hcount, Or.inl⟩

theorem handleVoteResp_tally (s : RaftServer) (env : Env) (resp : RespMsg) :
    (s.handleVoteResp env resp).tally = s.tally := by
  unfold handleVoteResp
  split
  · rfl
  dsimp only
  split
  · rw [becomeLeader_tally]
    rfl
  · rfl

/-! ## Joining a cluster and restarting -/

/-- A server of its own adopted the term of the cluster that invited it. -/
structure Joined (s t : RaftServer) (req : ReqMsg) : Prop where
  alone : s.config.servers.length ≤ 1
  id : t.id = s.id
  term : t.state.term = req.term
  vote : t.state.votedFor = -1
  saved : t.savedState.term = req.term ∧ t.savedState.votedFor = -1
  role : t.role ≠ .leader

theorem joinCluster_joined {c : ClusterConfig}
    (h : s.config.servers.length ≤ 1) : Joined s (s.joinCluster req c) req := by
  unfold joinCluster
  obtain ⟨⟨hid, hterm, hvote, _, _, hrole, hsaved⟩, _⟩ := reconfigure_quiet (saveState _) c
  refine ⟨h, hid, hterm, hvote, ?_, ?_⟩
  · rcases hsaved with hs | hs <;> exact hs
  · intro hl
    cases hrole hl

theorem handleJoinClusterReq_cases (s : RaftServer) (req : ReqMsg) (conf : Option ClusterConfig) :
    (s.handleJoinClusterReq req conf).1 = s ∨ Joined s (s.handleJoinClusterReq req conf).1 req ∧
      (s.handleJoinClusterReq req conf).1.tally = (0, false) := by
  unfold handleJoinClusterReq
  cases conf with
  | none => exact .inl rfl
  | some c =>
    dsimp only
    split
    · split <;> exact .inl rfl
    · rename_i hlen
      split
      · exact .inl rfl
      · exact .inr ⟨joinCluster_joined (by omega), rfl⟩

/-- The durable state is what is left after a restart. -/
structure Restarted (s t : RaftServer) : Prop where
  id : t.id = s.id
  state : t.state = s.savedState
  saved : t.savedState = s.savedState
  completed : t.electionCompleted = true
  granted : t.votesGranted = 0
  role : t.role = .follower

/-! ## The inversion -/

def Input.Carries (term : Nat) : Input → Prop
  | .request req => req.term = term
  | .response resp => resp.term = term
  | _ => False

def Input.Elects (s : RaftServer) : Input → Prop
  | .electionTimeout => s.imLearner = false
  | .request req => req.body = .customNotification (some .leadershipTakeover)
  | .response resp => resp.type = .preVote ∧ resp.term = s.preVote.term ∧
      s.prevoteSucceeds (s.countPrevote resp) = true
  | _ => False

/-- No vote is asked for and none is given. -/
def NoVotes (o : Output) : Prop := NoVoteReq o.sent ∧ ∀ m ∈ o.resp, m.type ≠ .requestVote

inductive BallotStep (s t : RaftServer) (env : Env) (input : Input) (o : Output) : Prop
  | settled (h : Settled s t) (ho : NoVotes o)
  | raised (term : Nat) (hin : input.Carries term) (h : Raised s t term) (ho : NoVotes o)
  | answered (req : ReqMsg) (force : Bool) (hin : input = .request req)
      (hbody : req.body = .requestVote force)
      (ht : t = ((s.updateTermOnReq req).handleVoteReq req force).1)
      (ho : o = { resp := some ((s.updateTermOnReq req).handleVoteReq req force).2 })
  | stood (hin : input.Elects s) (h : Stood s t env o.sent)
      (ho : ∀ m ∈ o.resp, m.type ≠ .requestVote)
  | counted (resp : RespMsg) (hin : input = .response resp) (htype : resp.type = .requestVote)
      (h : Counted s t resp) (ho : o = {})
  | joined (req : ReqMsg) (conf : Option ClusterConfig) (hin : input = .request req)
      (hbody : req.body = .joinCluster conf) (h : Joined s t req) (ho : NoVotes o)
  | restarted (applied : Nat) (hin : input = .restart applied) (h : Restarted s t) (ho : o = {})

def Input.isPrevoteResp : Input → Bool
  | .response resp => resp.type == .preVote
  | _ => false

/-- What a step does to the ballot, and to the pre-vote counter unless the timer or a pre-vote
response has to do with it. -/
structure Polled (s t : RaftServer) (env : Env) (input : Input) (o : Output) : Prop where
  ballot : BallotStep s t env input o
  tallies : input.isPrevoteResp = false → input ≠ .electionTimeout → Tallies s t

theorem Quiet.polled (h : Quiet s t) (ho : NoVotes o) : Polled s t env input o :=
  ⟨.settled h.toSettled ho, fun _ _ => h.tallies⟩

/-- A message may bring a newer term; what follows is quiet. -/
theorem Quiet.polled_of_heard {term : Nat} (h : Quiet u t)
    (hin : input.Carries term) (hu : Heard s u term) (htally : u.tally = s.tally) (ho : NoVotes o) :
    Polled s t env input o := by
  refine ⟨?_, fun _ _ => Tallies.trans (.inr htally) h.tallies⟩
  rcases hu.settled h.toSettled with h | h
  · exact .settled h ho
  · exact .raised term hin h ho

theorem handleInstallSnapshotReq_type {sync : Option SnapshotSyncReq}
    {r : RaftServer × Option RespMsg} {m : RespMsg}
    (h : s.handleInstallSnapshotReq env req sync = some r) (hm : r.2 = some m) :
    m.type = .installSnapshot := by
  unfold handleInstallSnapshotReq at h
  split at h
  · cases h
  · dsimp only at h
    split at h
    · cases h; cases hm; rfl
    · split at h
      · cases h; cases hm; rfl
      · cases h
        unfold receiveObject at hm
        repeat' split at hm
        all_goals cases hm
        all_goals rfl

theorem finishSnapshot_type {pending : PendingInstall} {r : RaftServer × RespMsg}
    (h : s.finishSnapshot pending = some r) : r.2.type = .installSnapshot := by
  unfold finishSnapshot at h
  split at h
  · cases h
  · cases h
    rfl

theorem handleAppendEntries_type {entries : List LogEntry}
    {m : RespMsg} (hm : (s.handleAppendEntries env req entries).2 = some m) :
    m.type = .appendEntries := by
  unfold handleAppendEntries at hm
  split at hm
  · cases hm
  dsimp only at hm
  repeat' split at hm
  all_goals cases hm
  all_goals rfl

theorem processReq_type {m : RespMsg}
    (h : s.processReq env req = some (t, o)) (hm : o.resp = some m)
    (htype : m.type = .requestVote) : ∃ force, req.body = .requestVote force := by
  unfold processReq at h
  generalize s.updateTermOnReq req = u at h
  split at h
  case h_3 force heq => exact ⟨force, heq⟩
  case h_2 =>
    cases h
    rw [handleAppendEntries_type hm] at htype
    cases htype
  case h_12 =>
    obtain ⟨r, hr, heq⟩ := map_eq_some_iff.mp h
    cases heq
    rw [handleInstallSnapshotReq_type hr hm] at htype
    cases htype
  case h_14 note _ =>
    have ho := congrArg (fun r => r.2.resp) (some.inj h)
    unfold handleCustomNotificationReq at ho
    rw [hm] at ho
    split at ho <;> cases ho <;> cases htype
  case h_15 => cases h; cases hm
  all_goals exfalso; cases h; cases hm; revert htype
  case h_1 => unfold handleCliReq; dsimp only; split <;> simp [RespMsg.accept]
  case h_4 => unfold handlePrevoteReq; dsimp only; split <;> simp [RespMsg.accept]
  case h_5 => simp
  case h_6 change _ =>
    unfold handlePriorityChangeReq
    cases change with
    | none => simp
    | some pr => dsimp only; split <;> simp [RespMsg.accept]
  case h_7 srv _ =>
    unfold handleAddSrvReq
    cases srv with
    | none => simp
    | some sc => dsimp only; repeat' split
                 all_goals simp [RespMsg.accept]
  case h_8 id _ =>
    unfold handleRmSrvReq
    cases id with
    | none => simp
    | some id => dsimp only; repeat' split
                 all_goals simp [RespMsg.accept]
  case h_9 pack _ =>
    unfold handleLogSyncReq
    cases pack with
    | none => simp
    | some es => dsimp only; split <;> simp [RespMsg.accept]
  case h_10 conf _ =>
    unfold handleJoinClusterReq
    cases conf with
    | none => simp
    | some c => dsimp only; repeat' split
                all_goals simp [RespMsg.accept]
  case h_11 => unfold handleLeaveClusterReq; dsimp only; split <;> simp [RespMsg.accept]
  case h_13 => unfold handleReconnectReq; dsimp only; split <;> simp [RespMsg.accept]

theorem processReq_polled (hbody : ∀ force, req.body ≠ .requestVote force)
    (h : s.processReq env req = some (t, o)) : Polled s t env (.request req) o := by
  have hresp : ∀ m ∈ o.resp, m.type ≠ .requestVote := by
    intro m hm htype
    obtain ⟨force, hf⟩ := processReq_type h hm htype
    exact hbody force hf
  -- a request is heard, and what follows is quiet
  have hheard {v : RaftServer} {o : Output} (hv : Quiet (s.updateTermOnReq req) v)
      (ho : NoVotes o) : Polled s v env (.request req) o :=
    hv.polled_of_heard rfl (updateTermOnReq_heard s req) (updateTermOnReq_tally s req) ho
  have hquiet {v : RaftServer} (hv : Quiet (s.updateTermOnReq req) v) {r : Option RespMsg}
      (hr : ∀ m ∈ r, m.type ≠ .requestVote) : Polled s v env (.request req) { resp := r } :=
    hheard hv ⟨NoVoteReq.nil, hr⟩
  unfold processReq at h
  split at h
  case h_3 force heq => exact absurd heq (hbody force)
  case h_1 => cases h; exact hquiet (handleCliReq_quiet _ env _) hresp
  case h_2 => cases h; exact hquiet (handleAppendEntries_quiet _ env req _) hresp
  case h_4 => cases h; exact hquiet (.refl _) hresp
  case h_5 => cases h; exact hquiet (.refl _) hresp
  case h_6 => cases h; exact hquiet (handlePriorityChangeReq_quiet _ req _) hresp
  case h_7 srv _ =>
    cases h
    have hadd := handleAddSrvReq_quiet (s.updateTermOnReq req) env srv
    exact hheard hadd.1 ⟨hadd.2, hresp⟩
  case h_8 id _ =>
    cases h
    have hrm := handleRmSrvReq_quiet (s.updateTermOnReq req) env id
    exact hheard hrm.1 ⟨hrm.2, hresp⟩
  case h_9 => cases h; exact hquiet (handleLogSyncReq_quiet _ req _) hresp
  case h_10 conf heq =>
    cases h
    have hsame : s.updateTermOnReq req = s := by simp [updateTermOnReq, heq]
    rw [hsame] at hquiet hresp ⊢
    rcases handleJoinClusterReq_cases s req conf with hs | hj
    · exact hquiet (by rw [hs]; exact .refl s) hresp
    · refine ⟨.joined req conf rfl heq hj.1 ⟨NoVoteReq.nil, hresp⟩, fun _ _ => ?_⟩
      exact Tallies.of_reset hj.2
  case h_11 =>
    cases h
    refine hquiet ?_ hresp
    unfold handleLeaveClusterReq
    split
    · exact .refl _
    · exact .of_ballot rfl rfl
  case h_12 =>
    obtain ⟨r, hr, heq⟩ := map_eq_some_iff.mp h
    cases heq
    exact hquiet (handleInstallSnapshotReq_quiet hr) hresp
  case h_13 => cases h; exact hquiet (.refl _) hresp
  case h_14 note heq =>
    have hsame : s.updateTermOnReq req = s := by simp [updateTermOnReq, heq]
    rw [hsame] at h hquiet
    unfold handleCustomNotificationReq at h
    split at h
    · cases h
      exact hquiet (.refl s) hresp
    · cases h
      exact (handleOutOfLogMsg_quiet s req).polled_of_heard rfl (updateTerm_heard s req.term)
        (updateTerm_tally s req.term) ⟨NoVoteReq.nil, hresp⟩
    · cases h
      refine ⟨?_, fun _ _ => .inr ?_⟩
      · rcases handleLeadershipTakeover_cases s env with ⟨hset, hno⟩ | hstood
        · exact .settled hset ⟨hno, hresp⟩
        · exact .stood heq hstood hresp
      · unfold handleLeadershipTakeover
        split
        · rfl
        · exact initiateVote_tally s env true
    · cases h
      exact hquiet (handleResignationRequest_quiet s env req.src) hresp
  case h_15 => cases h; exact hquiet (.refl _) hresp

theorem handlePeerResp_polled (s : RaftServer) (env : Env) (resp : RespMsg) :
    Polled s (s.handlePeerResp env resp).1 env (.response resp)
      { sent := (s.handlePeerResp env resp).2 } := by
  have hnone : ∀ m ∈ (none : Option RespMsg), m.type ≠ .requestVote := by simp
  dsimp only [handlePeerResp]
  split
  · exact (Quiet.refl _).polled_of_heard rfl (updateTerm_heard s resp.term)
      (updateTerm_tally s resp.term) ⟨NoVoteReq.nil, hnone⟩
  split
  case h_1 htype =>
    refine ⟨?_, fun hin => absurd hin (by simp [Input.isPrevoteResp, htype])⟩
    rcases handlePrevoteResp_cases s env resp with ⟨hset, hno⟩ | ⟨⟨hterm, hsucc⟩, hstood⟩
    · exact .settled hset ⟨hno, hnone⟩
    · exact .stood ⟨htype, hterm, hsucc⟩ hstood hnone
  case h_2 htype =>
    refine ⟨?_, fun _ _ => .inr (handleVoteResp_tally s env resp)⟩
    rcases handleVoteResp_cases s env resp with hs | hc
    · rw [hs]
      exact .settled (Settled.refl s) ⟨NoVoteReq.nil, hnone⟩
    · exact .counted resp rfl htype hc rfl
  case h_3 =>
    have happend := handleAppendEntriesResp_quiet s env resp
    exact happend.1.polled ⟨happend.2, hnone⟩
  case h_4 => exact Quiet.polled (.of_ballot rfl rfl) ⟨NoVoteReq.nil, hnone⟩
  case h_5 =>
    refine Quiet.polled ?_ ⟨NoVoteReq.nil, hnone⟩
    unfold handleCustomNotificationResp
    split
    · exact .of_ballot rfl rfl
    · exact .refl s
  case h_6 => exact (Quiet.refl s).polled ⟨NoVoteReq.nil, hnone⟩

/-- Everything one step of a server can do to its ballot and to its pre-vote counter. -/
theorem step_polled (h : s.step env input = some (t, o)) : Polled s t env input o := by
  have hnone : ∀ m ∈ (none : Option RespMsg), m.type ≠ .requestVote := by simp
  have hquiet {v : RaftServer} (hv : Quiet s v) : Polled s v env input {} :=
    hv.polled ⟨NoVoteReq.nil, hnone⟩
  cases input with
  | request req =>
    by_cases hbody : ∃ force, req.body = .requestVote force
    · obtain ⟨force, hbody⟩ := hbody
      have h' : s.processReq env req = some (t, o) := h
      rw [processReq_vote env hbody] at h'
      cases h'
      refine ⟨.answered req force rfl hbody rfl rfl, fun _ _ => .inr ?_⟩
      exact (handleVoteReq_tally _ req force).trans (updateTermOnReq_tally s req)
    · exact processReq_polled (fun force hf => hbody ⟨force, hf⟩) h
  | response resp => cases h; exact handlePeerResp_polled s env resp
  | extResponse resp fj =>
    cases h
    have hext := handleExtResp_quiet s env resp fj
    exact hext.1.polled ⟨hext.2, hnone⟩
  | peerError dst => cases h; exact hquiet (handlePeerErr_quiet s env dst)
  | extError dst lv => cases h; exact hquiet (handleExtRespErr_quiet s env dst lv)
  | electionTimeout =>
    cases h
    refine ⟨?_, fun _ hne => absurd rfl hne⟩
    rcases handleElectionTimeout_cases s env with ⟨hset, hno⟩ | ⟨hlearner, hstood⟩
    · exact .settled hset ⟨hno, hnone⟩
    · exact .stood hlearner hstood hnone
  | heartbeatTimeout expired => cases h; exact hquiet (handleHbTimeout_quiet s env expired)
  | retryJoinSync =>
    cases h
    have hsync := syncLogToNewSrv_quiet s env 0
    exact hsync.1.polled ⟨hsync.2, hnone⟩
  | sendAppend dst reconnect custom =>
    obtain ⟨r, hr, heq⟩ := map_eq_some_iff.mp h
    cases heq
    have hsend := requestAppendEntriesTo_quiet hr
    exact hsend.1.polled ⟨hsend.2, hnone⟩
  | appendEntriesInBg => cases h; exact hquiet (.of_ballot rfl rfl)
  | logAppendCompletion ok => cases h; exact hquiet (notifyLogAppendCompletion_quiet s env ok)
  | finishSnapshot pending =>
    simp only [step] at h
    split at h
    · obtain ⟨r, hr, heq⟩ := map_eq_some_iff.mp h
      cases heq
      refine (finishSnapshot_quiet hr).polled ⟨NoVoteReq.nil, ?_⟩
      intro m hm htype
      cases hm
      rw [finishSnapshot_type hr] at htype
      cases htype
    · cases h
  | adjustCommit => cases h; exact hquiet (.of_ballot rfl rfl)
  | commitNext =>
    obtain ⟨u, hu, heq⟩ := map_eq_some_iff.mp h
    cases heq
    exact hquiet (commitNext_quiet hu)
  | createSnapshot forced => cases h; exact hquiet (.of_ballot rfl rfl)
  | snapshotCompleted ok => cases h; exact hquiet (onSnapshotCompleted_quiet s ok)
  | setUserCtx ctx => cases h; exact hquiet (appendConf_quiet s env _)
  | updateSrvConfig srv => cases h; exact hquiet (updateSrvConfig_quiet s env srv)
  | flipLearnerFlag id flag => cases h; exact hquiet (flipLearnerFlag_quiet s env id flag)
  | setPriority id priority bc =>
    cases h
    have hset := setPriority_quiet s env id priority bc
    exact hset.1.polled ⟨hset.2, hnone⟩
  | yieldLeadership imm succ => cases h; exact hquiet (yieldLeadership_quiet s env imm succ)
  | requestLeadership =>
    cases h
    refine (Quiet.refl s).polled ⟨?_, hnone⟩
    unfold requestLeadership
    split
    · exact NoVoteReq.nil
    · exact .single (positionReq_noVote (by simp) _)
  | restart applied =>
    simp only [step] at h
    split at h
    · cases h
      exact ⟨.restarted applied rfl ⟨rfl, rfl, rfl, rfl, rfl, rfl⟩ rfl,
        fun _ _ => Tallies.of_reset rfl⟩
    · cases h

theorem step_ballotStep (h : s.step env input = some (t, o)) : BallotStep s t env input o :=
  (step_polled h).ballot

end RaftServer
end Raft
end Xio
