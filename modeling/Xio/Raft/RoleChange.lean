import Xio.Raft.Settled

/-!
# Raft.RoleChange — what elections and changes of the role leave alone

A server that raises its term, steps down, stands for election or restarts its timer writes the
fields of its ballot, of its role and of a leader's unfinished business. `core` is the server without
them: the peers, the log, the snapshots, the indices and the committed configuration. An election
that is won changes the core as `takeLeadership` does; every other handler of this kind keeps it.
-/

namespace Xio
namespace Raft
namespace RaftServer

variable {s t u v : RaftServer} {env : Env}

/-- The server with the fields blanked that an election or a change of the role writes. -/
def core (s : RaftServer) : RaftServer :=
  { s with
    params := {}
    role := .follower
    state := {}
    savedState := {}
    indexAtBecomingLeader := 0
    leader := -1
    hbAlive := false
    electionCompleted := true
    votesGranted := 0
    votesResponded := 0
    preVote := {}
    voteInitTimerTerm := 0
    targetPriority := 1
    uncommittedConfig := none
    srvToJoin := none
    stepsToDown := 0
    writePaused := false
    nextLeaderCandidate := -1 }

/-- The core stays, and nobody becomes leader. Who stays leader keeps its term, the server that it is
adding and the configuration that is being agreed on. The parameters change for the quorum of a small
cluster only, and nobody falls back into the phase of catching up. -/
structure Steady (s t : RaftServer) : Prop where
  core : t.core = s.core
  role : t.role = .leader →
    s.role = .leader ∧ t.state.term = s.state.term ∧ t.srvToJoin = s.srvToJoin
  conf : t.role = .leader → t.uncommittedConfig = s.uncommittedConfig
  params : s.params.autoAdjustQuorumForSmallCluster = false → t.params = s.params
  caught : s.state.catchingUp = false ∧ s.savedState.catchingUp = false →
    t.state.catchingUp = false ∧ t.savedState.catchingUp = false

/-- The fields that a steady step is about, apart from the core. -/
def office (s : RaftServer) :
    SrvRole × Nat × Option Peer × Option ClusterConfig × RaftParams × Bool × Bool :=
  (s.role, s.state.term, s.srvToJoin, s.uncommittedConfig, s.params, s.state.catchingUp,
    s.savedState.catchingUp)

namespace Steady

theorem refl (s : RaftServer) : Steady s s :=
  ⟨rfl, fun h => ⟨h, rfl, rfl⟩, fun _ => rfl, fun _ => rfl, fun h => h⟩

theorem trans (h : Steady s u) (h' : Steady u t) : Steady s t where
  core := h'.core.trans h.core
  role := by
    intro hlead
    obtain ⟨hu, hterm, hjoin⟩ := h'.role hlead
    obtain ⟨hs, hterm', hjoin'⟩ := h.role hu
    exact ⟨hs, hterm.trans hterm', hjoin.trans hjoin'⟩
  conf := fun hlead => (h'.conf hlead).trans (h.conf (h'.role hlead).1)
  params := by
    intro hadj
    have hu := h.params hadj
    exact (h'.params (by rw [hu]; exact hadj)).trans hu
  caught := fun hs => h'.caught (h.caught hs)

theorem of_same (hcore : t.core = s.core) (h : t.office = s.office) : Steady s t := by
  simp only [office, Prod.mk.injEq] at h
  obtain ⟨hrole, hterm, hjoin, hconf, hparams, hcatch, hsaved⟩ := h
  exact ⟨hcore, fun hl => ⟨hrole ▸ hl, hterm, hjoin⟩, fun _ => hconf, fun _ => hparams,
    fun hs => ⟨hcatch.trans hs.1, hsaved.trans hs.2⟩⟩

theorem of_saving (hcore : t.core = s.core)
    (h : t.office = { s with savedState := t.savedState }.office)
    (hsaved : t.savedState.catchingUp = s.savedState.catchingUp ∨
      t.savedState.catchingUp = s.state.catchingUp) : Steady s t := by
  simp only [office, Prod.mk.injEq] at h
  obtain ⟨hrole, hterm, hjoin, hconf, hparams, hcatch, _⟩ := h
  refine ⟨hcore, fun hl => ⟨hrole ▸ hl, hterm, hjoin⟩, fun _ => hconf, fun _ => hparams, ?_⟩
  intro hs
  exact ⟨hcatch.trans hs.1, hsaved.elim (fun h => h.trans hs.2) (fun h => h.trans hs.1)⟩

theorem of_not_leader (hcore : t.core = s.core) (hrole : t.role ≠ .leader)
    (hparams : s.params.autoAdjustQuorumForSmallCluster = false → t.params = s.params)
    (hcaught : s.state.catchingUp = false ∧ s.savedState.catchingUp = false →
      t.state.catchingUp = false ∧ t.savedState.catchingUp = false) : Steady s t :=
  ⟨hcore, fun hlead => absurd hlead hrole, fun hlead => absurd hlead hrole, hparams, hcaught⟩

end Steady

/-! ## Reading the core -/

theorem core_read {α : Type} {f : RaftServer → α} (hf : ∀ v : RaftServer, f v.core = f v)
    (h : t.core = s.core) : f t = f s :=
  (hf t).symm.trans ((congrArg f h).trans (hf s))

theorem core_log (h : t.core = s.core) : t.log = s.log := core_read (fun _ => rfl) h

theorem core_peers (h : t.core = s.core) : t.peers = s.peers := core_read (fun _ => rfl) h

theorem core_quick (h : t.core = s.core) : t.quickCommitIndex = s.quickCommitIndex :=
  core_read (fun _ => rfl) h

theorem core_lastSnapshot (h : t.core = s.core) : t.lastSnapshot = s.lastSnapshot :=
  core_read (fun _ => rfl) h

/-! ## Role and term -/

theorem restartElectionTimer_steady (s : RaftServer) : Steady s s.restartElectionTimer := by
  refine .of_saving rfl rfl ?_
  simp only [restartElectionTimer_savedState]
  split
  · exact .inr rfl
  · exact .inl rfl

theorem updateTargetPriority_steady (s : RaftServer) : Steady s s.updateTargetPriority :=
  .of_same rfl rfl

theorem becomeFollower_steady (s : RaftServer) : Steady s s.becomeFollower := by
  refine .trans ?_ (restartElectionTimer_steady _)
  refine .of_not_leader rfl (by simp) ?_ (fun h => h)
  intro hadj
  simp [hadj]

theorem stepDown_steady (s : RaftServer) : Steady s s.stepDown := by
  have hforget : Steady s { s with leader := -1 } := .of_same rfl rfl
  exact hforget.trans ((becomeFollower_steady _).trans (.of_same rfl rfl))

theorem updateTerm_steady (s : RaftServer) (term : Nat) : Steady s (s.updateTerm term).1 := by
  unfold updateTerm
  split
  · refine .trans ?_ (becomeFollower_steady _)
    exact .of_not_leader rfl (by simp) (fun _ => rfl) (fun h => ⟨h.1, h.1⟩)
  · exact .refl s

theorem updateTerm_old {term : Nat} (h : ¬ (s.updateTerm term).2 = true) : term ≤ s.state.term := by
  unfold updateTerm at h
  split at h
  · exact absurd rfl h
  · next hle => exact Nat.le_of_not_lt hle

section

variable (s)

theorem updateTermOnReq_steady (req : ReqMsg) : Steady s (s.updateTermOnReq req) := by
  have hraise := updateTerm_steady s req.term
  unfold updateTermOnReq
  split
  case h_4 => exact .refl s
  all_goals exact hraise.trans (.of_same rfl rfl)

theorem yieldLeadership_steady (env : Env) (imm : Bool) (succ : Int) :
    Steady s (s.yieldLeadership env imm succ) := by
  unfold yieldLeadership
  split
  · exact .refl s
  split
  · exact stepDown_steady s
  · exact .of_same rfl rfl

theorem followLeader_steady (req : ReqMsg) : Steady s (s.followLeader req) := by
  unfold followLeader
  split
  · split
    · exact becomeFollower_steady s
    · exact restartElectionTimer_steady s
  · exact .refl s

theorem startReceiving_steady : Steady s s.startReceiving := by
  refine .of_saving rfl rfl ?_
  simp only [startReceiving_savedState]
  split
  · exact .inl rfl
  · exact .inr rfl

theorem clearCatchingUp_steady : Steady s s.clearCatchingUp := by
  refine ⟨rfl, fun h => ⟨h, rfl, rfl⟩, fun _ => rfl, fun _ => rfl, ?_⟩
  rintro ⟨hcatch, hsaved⟩
  refine ⟨by simp [hcatch], ?_⟩
  simp only [clearCatchingUp_savedState]
  split
  · rfl
  · exact hsaved

theorem followAppender_steady (req : ReqMsg) : Steady s (s.followAppender req) := by
  unfold followAppender
  split
  · split
    · exact becomeFollower_steady s
    · exact updateTargetPriority_steady s
  · exact .refl s

theorem handleVoteReq_steady (req : ReqMsg) (force : Bool) :
    Steady s (s.handleVoteReq req force).1 := by
  unfold handleVoteReq
  split
  · exact .of_saving rfl rfl (.inr rfl)
  · exact .refl s

theorem handleResignationRequest_steady (env : Env) (src : Int) :
    Steady s (s.handleResignationRequest env src) := by
  unfold handleResignationRequest
  split
  · exact yieldLeadership_steady s env false src
  · exact .refl s

end

/-! ## Elections -/

/-- A server that may have won an election on the way. -/
inductive Elects (env : Env) (s t : RaftServer) : Prop
  | steady (h : Steady s t)
  | elected (u : RaftServer) (hu : Steady s u) (hconf : u.uncommittedConfig = s.uncommittedConfig)
      (ht : Steady (u.takeLeadership.requestAppendEntries env) t) (hrole : t.role = .leader)

theorem Elects.around {s' t' : RaftServer} (h : Elects env s' t') (hs : Steady s s')
    (hconf : s'.uncommittedConfig = s.uncommittedConfig) (ht : Steady t' t)
    (hrole : t.role = t'.role) : Elects env s t := by
  cases h with
  | steady h => exact .steady (hs.trans (h.trans ht))
  | elected u hu hconf' ht' hlead =>
    exact .elected u (hs.trans hu) (hconf'.trans hconf) (ht'.trans ht) (hrole.trans hlead)

/-- A leader of priority zero nominates a successor, which is a change of its role only. -/
theorem becomeLeader_elects (h : Steady s u) (hconf : u.uncommittedConfig = s.uncommittedConfig)
    (env : Env) : Elects env s (u.becomeLeader env) := by
  refine .elected u h hconf ?_ (by simp)
  dsimp only [becomeLeader]
  split
  · exact yieldLeadership_steady _ env false (-1)
  · exact .refl _

section

variable (s)

theorem initiateVote_elects (env : Env) (force : Bool) :
    Elects env s (s.initiateVote env force).1 := by
  unfold initiateVote
  split
  · exact .steady (.of_same rfl rfl)
  dsimp only
  split
  · -- the server stands, and a lone server wins at once
    have hstand : Steady s (s.openBallot env).castOwnVote :=
      .of_not_leader rfl (by simp) (fun _ => rfl) (fun h => ⟨h.1, h.1⟩)
    dsimp only [requestVote]
    split
    · have hover : Steady s (s.openBallot env).castOwnVote.completeElection :=
        hstand.trans (.of_same rfl rfl)
      rw [if_pos (by simp)]
      exact becomeLeader_elects hover rfl env
    · exact .steady (hstand.trans (.of_same rfl rfl))
  · split
    · exact .steady (.refl s)
    · exact .steady (.of_same rfl rfl)

theorem prepareElection_steady : Steady s s.prepareElection := by
  dsimp only [prepareElection]
  split <;> split <;> exact .of_same rfl rfl

theorem requestPrevote_steady (env : Env) : Steady s (s.requestPrevote env).1 := by
  have hopen : Steady s (s.openPrevote env) := by
    refine .of_not_leader rfl (by simp) ?_ (fun h => h)
    intro hadj
    simp [hadj]
  dsimp only [requestPrevote]
  split
  · exact hopen.trans (restartElectionTimer_steady _)
  · exact hopen

theorem countDown_steady : Steady s s.countDown := by
  refine .of_saving rfl rfl ?_
  simp only [countDown_savedState]
  split
  · exact .inr rfl
  · exact .inl rfl

theorem handleElectionTimeout_elects (env : Env) :
    Elects env s (s.handleElectionTimeout env).1 := by
  have htimer := restartElectionTimer_steady s
  unfold handleElectionTimeout
  split
  · refine .steady ?_
    split
    · exact countDown_steady s
    · exact (countDown_steady s).trans (restartElectionTimer_steady _)
  split
  · exact .steady htimer
  split
  · exact .steady (.refl s)
  split
  · exact .steady htimer
  split
  · exact .steady (.refl s)
  split
  · exact .steady htimer
  dsimp only
  have hprep := prepareElection_steady s
  have hconf : s.prepareElection.uncommittedConfig = s.uncommittedConfig := by
    dsimp only [prepareElection]
    split <;> split <;> rfl
  split
  · exact (initiateVote_elects s.prepareElection env false).around hprep hconf
      (restartElectionTimer_steady _) rfl
  · exact .steady (hprep.trans ((requestPrevote_steady _ env).trans
      (restartElectionTimer_steady _)))

theorem handlePrevoteResp_elects (env : Env) (resp : RespMsg) :
    Elects env s (s.handlePrevoteResp env resp).1 := by
  unfold handlePrevoteResp
  split
  · exact .steady (.refl s)
  dsimp only
  split
  · have hround : Steady s (s.withPreVote { s.countPrevote resp with done := true }) :=
      .of_same rfl rfl
    exact (initiateVote_elects _ env false).around hround rfl
      ((restartElectionTimer_steady _).trans (.of_same rfl rfl)) rfl
  · exact .steady (.of_same rfl rfl)

theorem handleVoteResp_elects (env : Env) (resp : RespMsg) :
    Elects env s (s.handleVoteResp env resp) := by
  have hover : Steady s (s.countVote resp).completeElection := .of_same rfl rfl
  unfold handleVoteResp
  split
  · exact .steady (.refl s)
  dsimp only
  split
  · exact becomeLeader_elects hover rfl env
  · exact .steady (.of_same rfl rfl)

theorem handleLeadershipTakeover_elects (env : Env) :
    Elects env s (s.handleLeadershipTakeover env).1 := by
  unfold handleLeadershipTakeover
  split
  · exact .steady (.refl s)
  · exact (initiateVote_elects s env true).around (.refl s) rfl (restartElectionTimer_steady _) rfl

end

end RaftServer
end Raft
end Xio
