import Xio.Raft.Cluster
import Xio.Raft.TermVote

/-!
# Raft.Learner — learners and elections

`srv_config.h` promises that a learner does not take part in leader election. The election timer
checks the flag, but three handlers do not: a leadership takeover, the response that completes
a pre-vote round, and a vote response of an election that is still open. A learner that meets
none of the three stays out of elections; one that is told to take over becomes leader.
-/

namespace Xio
namespace Raft
namespace RaftServer

variable {s t u : RaftServer}

/-- The step does not start an election, asks for no vote and makes nobody leader. -/
structure OutOfElections (s t : RaftServer) (input : Input) (o : Output) : Prop where
  /-- A term that grows is the term of the message that was handled. -/
  term : s.state.term < t.state.term → input.Carries t.state.term
  sent : NoVoteReq o.sent
  role : t.role = .leader → s.role = .leader

/-- The inputs whose handlers do not look at `im_learner_`. -/
def Unguarded (s : RaftServer) : Input → Bool
  | .request req => req.body = .customNotification (some .leadershipTakeover)
  | .response resp =>
    (resp.type == .preVote && resp.term == s.preVote.term
      && s.prevoteSucceeds (s.countPrevote resp))
    || (resp.type == .requestVote && resp.term == s.state.term && !s.electionCompleted)
  | _ => false

theorem unguarded_of_elects {input : Input} (hl : s.imLearner = true) (h : input.Elects s) :
    s.Unguarded input = true := by
  cases input with
  | electionTimeout =>
    have hno : s.imLearner = false := h
    cases hl ▸ hno
  | request req =>
    have hbody : req.body = .customNotification (some .leadershipTakeover) := h
    simp [Unguarded, hbody]
  | response resp =>
    obtain ⟨htype, hterm, hsucc⟩ := h
    simp [Unguarded, htype, hterm, hsucc]
  | _ => cases h

theorem unguarded_of_counted {resp : RespMsg} (htype : resp.type = .requestVote)
    (h : Counted s t resp) : s.Unguarded (.response resp) = true := by
  simp [Unguarded, htype, h.sameTerm, h.isOpen]

theorem step_outOfElections {env : Env} {input : Input} {o : Output} (hs : Synced s)
    (hl : s.imLearner = true) (hg : s.Unguarded input = false)
    (hstep : s.step env input = some (t, o)) : OutOfElections s t input o := by
  cases step_ballotStep hstep with
  | settled h ho => exact ⟨fun hlt => absurd h.term (by omega), ho.1, h.role⟩
  | raised term hin h ho =>
    refine ⟨fun _ => ?_, ho.1, fun hr => absurd hr h.role⟩
    rwa [h.term]
  | answered req force hin _ ht ho =>
    have hkeeps := handleVoteReq_keeps (s.updateTermOnReq req) req force
    rw [← ht] at hkeeps
    obtain ⟨hterm, hrole, _⟩ := hkeeps
    subst hin ho
    rcases updateTermOnReq_heard s req with h | h
    · exact ⟨fun hlt => absurd (hterm.trans h.term) (by omega), NoVoteReq.nil,
        fun hr => h.role (hrole ▸ hr)⟩
    · exact ⟨fun _ => (hterm.trans h.term).symm, NoVoteReq.nil,
        fun hr => absurd (hrole ▸ hr) h.role⟩
  | stood hin _ _ =>
    rw [unguarded_of_elects hl hin] at hg
    cases hg
  | counted resp hin htype h _ =>
    subst hin
    rw [unguarded_of_counted htype h] at hg
    cases hg
  | joined req _ hin _ h ho =>
    subst hin
    exact ⟨fun _ => h.term.symm, ho.1, fun hr => absurd hr h.role⟩
  | restarted applied hin h ho =>
    subst ho
    have hterm : t.state.term = s.state.term := by rw [h.state, hs.1]
    refine ⟨fun hlt => absurd hterm (by omega), NoVoteReq.nil, fun hr => ?_⟩
    cases h.role ▸ hr

/-- In every run whose steps hand no unguarded input to a learner: each step that a learner takes
leaves it out of elections. -/
theorem learner_outOfElections {as : List (Env × Input)} {a : Env × Input} {o : Output}
    (hs : Synced s)
    (hguard : Runs.AllSteps next (fun v b => v.imLearner = true → v.Unguarded b.2 = false) s
      (as ++ [a]))
    (hrun : Runs.run next s as = some u) (hl : u.imLearner = true)
    (hstep : u.step a.1 a.2 = some (t, o)) : OutOfElections u t a.2 o := by
  have hg := (hguard.suffix hrun).1 hl
  exact step_outOfElections (synced_of_run hs hrun) hl hg hstep

end RaftServer

/-! ## A learner that takes over -/

def learnerConfig : ClusterConfig :=
  { servers := [{ id := 1 }, { id := 2 }, { id := 3, learner := true }] }

def learnerCluster : Cluster :=
  { members := [1, 2, 3]
    srv := fun i => RaftServer.fresh i {} learnerConfig
    reqs := []
    resps := [] }

/-- Member `1` is elected, is told to yield to server `3`, replicates its entry to `3` and hands
over. -/
def yieldToLearner : List Cluster.Action :=
  [.act 1 {} .electionTimeout, .recvReq 0 {}, .recvResp 0 {}, .recvReq 0 {}, .recvResp 0 {},
   .act 1 {} (.yieldLeadership false 3), .act 1 {} (.sendAppend 3 false 0), .recvReq 0 {},
   .recvResp 0 {}]

/-- The takeover reaches the learner, member `2` votes for it and it counts the vote. -/
def learnerTakesOver : List Cluster.Action :=
  yieldToLearner ++ [.recvReq 0 {}, .recvReq 1 {}, .recvResp 0 {}]

theorem learner_elected_by_takeover :
    (learnerCluster.run (yieldToLearner ++ [.recvReq 0 {}])).map (fun c =>
        ((c.srv 3).imLearner, (c.srv 3).state.term, c.reqs.map (fun m => (m.src, m.isVoteReq)))) =
      some (true, 2, [(3, true), (3, true)]) ∧
    (learnerCluster.run learnerTakesOver).map (fun c => ((c.srv 3).imLearner, (c.srv 3).role)) =
      some (true, .leader) := by
  decide +kernel

def learnerVotes : List (Env × RaftServer.Input) := [({}, .request (voteReqFrom 1 1))]

def votingLearner : RaftServer := ((RaftServer.fresh 3 {} learnerConfig).raiseTerm 1).castVote 1

/-- Its election timer runs out, and nothing happens. -/
theorem votingLearner_outOfElections : votingLearner.imLearner = true ∧
      votingLearner.step {} .electionTimeout = some (votingLearner.restartElectionTimer, {}) ∧
      votingLearner.OutOfElections votingLearner.restartElectionTimer .electionTimeout {} := by
  have hrun : Runs.run RaftServer.next (RaftServer.fresh 3 {} learnerConfig)
      learnerVotes = some votingLearner := by decide +kernel
  have hguard : Runs.AllSteps RaftServer.next
      (fun v b => v.imLearner = true → v.Unguarded b.2 = false)
      (RaftServer.fresh 3 {} learnerConfig)
      (learnerVotes ++ [(({} : Env), RaftServer.Input.electionTimeout)]) := by decide +kernel
  have hstep : votingLearner.step {} .electionTimeout =
      some (votingLearner.restartElectionTimer, {}) := by decide +kernel
  exact ⟨rfl, hstep, RaftServer.learner_outOfElections ⟨rfl, rfl⟩ hguard hrun rfl hstep⟩

end Raft
end Xio
