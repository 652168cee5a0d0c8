import Xio.Lib.Runs
import Xio.Raft.BallotStep

/-!
# Raft.TermVote — terms only grow, and a vote is given once per term

The saved state always has the term and the vote of the running server (`Synced`), since every
handler that changes one of the two also saves it before it returns. So a restart loses neither,
and within a term only a vote request fills in a ballot that was open.
-/

namespace Xio
namespace Raft
namespace RaftServer

variable {s t u : RaftServer} {input : Input}

/-- The saved state has the term and the vote of the running server. -/
def Synced (s : RaftServer) : Prop :=
  s.savedState.term = s.state.term ∧ s.savedState.votedFor = s.state.votedFor

theorem Synced.settled (hs : Synced s) (h : Settled s t) : Synced t := by
  rw [Synced, h.term, h.vote]
  rcases h.saved with ⟨ht, hv⟩ | hsaved
  · rwa [ht, hv]
  · exact hsaved

theorem Raised.synced {term : Nat} (h : Raised s t term) : Synced t :=
  ⟨h.saved.1.trans h.term.symm, h.saved.2.trans h.vote.symm⟩

def SameBallot (s t : RaftServer) : Prop :=
  t.state.term = s.state.term ∧ t.state.votedFor = s.state.votedFor

/-- An open ballot of the current term was filled in for the sender of a vote request. -/
def FillsBallot (s t : RaftServer) (input : Input) : Prop :=
  t.state.term = s.state.term ∧ s.state.votedFor = -1 ∧
    ∃ req force, input = .request req ∧ req.body = .requestVote force ∧ t.state.votedFor = req.src

/-! ## One step -/

theorem step_synced {env : Env} {o : Output} (hs : Synced s)
    (hstep : s.step env input = some (t, o)) : Synced t := by
  cases step_ballotStep hstep with
  | settled h _ => exact hs.settled h
  | raised term _ h _ => exact h.synced
  | answered req force _ _ ht _ =>
    rcases handleVoteReq_cases (s.updateTermOnReq req) req force with ⟨heq, _⟩ | ⟨_, heq⟩
    · rw [heq] at ht
      subst ht
      rcases updateTermOnReq_heard s req with h | h
      · exact hs.settled h
      · exact h.synced
    · rw [heq] at ht
      subst ht
      exact ⟨rfl, rfl⟩
  | stood _ h _ => exact ⟨h.saved.1, h.saved.2.trans h.vote.symm⟩
  | counted resp _ _ h _ =>
    rw [Synced, h.saved, h.term, h.vote]
    exact hs
  | joined req _ _ _ h _ => exact ⟨h.saved.1.trans h.term.symm, h.saved.2.trans h.vote.symm⟩
  | restarted applied _ h _ =>
    rw [Synced, h.saved, h.state]
    exact ⟨rfl, rfl⟩

theorem voteReq_ballot {req : ReqMsg} {force : Bool} (hbody : req.body = .requestVote force)
    (ht : t = ((s.updateTermOnReq req).handleVoteReq req force).1) :
    SameBallot s t ∨ s.state.term < t.state.term ∨ FillsBallot s t (.request req) := by
  have hterm := (handleVoteReq_keeps (s.updateTermOnReq req) req force).1
  rw [← ht] at hterm
  rcases updateTermOnReq_heard s req with h | h
  · rcases handleVoteReq_cases (s.updateTermOnReq req) req force with ⟨heq, _⟩ | ⟨hgrant, heq⟩
    · rw [heq] at ht
      exact .inl (ht ▸ ⟨h.term, h.vote⟩)
    · rw [heq] at ht
      have hvote : t.state.votedFor = req.src := ht ▸ rfl
      rcases votedFor_of_grantsVote hgrant with hown | hopen
      · exact .inl ⟨hterm.trans h.term, hvote.trans (hown.symm.trans h.vote)⟩
      · exact .inr (.inr ⟨hterm.trans h.term, h.vote.symm.trans hopen, req, force, rfl, hbody,
          hvote⟩)
  · exact .inr (.inl (by rw [hterm, h.term]; exact h.lt))

theorem step_ballot {env : Env} {o : Output} (hs : Synced s)
    (hc : 1 < s.config.servers.length) (hstep : s.step env input = some (t, o)) :
    SameBallot s t ∨ s.state.term < t.state.term ∨ FillsBallot s t input := by
  cases step_ballotStep hstep with
  | settled h _ => exact .inl ⟨h.term, h.vote⟩
  | raised term _ h _ => exact .inr (.inl (h.term ▸ h.lt))
  | answered req force hin hbody ht _ =>
    subst hin
    exact voteReq_ballot hbody ht
  | stood _ h _ =>
    rw [h.term]
    omega
  | counted resp _ _ h _ => exact .inl ⟨h.term, h.vote⟩
  | joined req _ _ _ h _ => exact absurd h.alone (by omega)
  | restarted applied _ h _ =>
    rw [SameBallot, h.state]
    exact .inl hs

/-- When an accepted vote response leaves the server, its term and vote have been saved. -/
theorem step_voteResp {env : Env} {o : Output} {m : RespMsg}
    (h : s.step env input = some (t, o)) (hm : o.resp = some m) (htype : m.type = .requestVote)
    (hacc : m.accepted = true) : t.savedState.term = m.term ∧ t.savedState.votedFor = m.dst := by
  cases step_ballotStep h with
  | settled _ ho => exact absurd htype (ho.2 m hm)
  | raised _ _ _ ho => exact absurd htype (ho.2 m hm)
  | stood _ _ ho => exact absurd htype (ho m hm)
  | joined _ _ _ _ _ ho => exact absurd htype (ho.2 m hm)
  | counted _ _ _ _ ho => subst ho; cases hm
  | restarted _ _ _ ho => subst ho; cases hm
  | answered req force _ _ ht ho =>
    subst ho ht
    cases hm
    rcases handleVoteReq_cases (s.updateTermOnReq req) req force with ⟨_, hno⟩ | ⟨hg, heq⟩
    · cases hno ▸ hacc
    · rw [handleVoteReq, if_pos hg]
      exact ⟨rfl, rfl⟩

/-! ## Runs -/

/-- A vote request of server `id` is among the inputs. -/
def VoteRequested (as : List (Env × Input)) (id : Int) : Prop :=
  ∃ env req force, (env, Input.request req) ∈ as ∧ req.body = .requestVote force ∧ req.src = id

/-- Several servers are configured before each step. -/
abbrev StaysInCluster (s : RaftServer) (as : List (Env × Input)) : Prop :=
  Runs.AllSteps next (fun u _ => 1 < u.config.servers.length) s as

theorem synced_of_run {as : List (Env × Input)} (hs : Synced s)
    (hr : Runs.run next s as = some t) : Synced t := by
  refine Runs.invariant (I := Synced) ?_ hs hr
  intro u a v hu hv
  obtain ⟨o, ho⟩ := next_eq_some.mp hv
  exact step_synced hu ho

/-- Between any two states of a run the term grows, or it stays and the vote is kept or was open. -/
theorem run_ballot {as : List (Env × Input)} (hs : Synced s) (hc : StaysInCluster s as)
    (hr : Runs.run next s as = some t) :
    s.state.term ≤ t.state.term ∧
      (t.state.term = s.state.term → t.state.votedFor ≠ s.state.votedFor →
        s.state.votedFor = -1 ∧ VoteRequested as t.state.votedFor) := by
  induction as generalizing s with
  | nil =>
    cases hr
    exact ⟨le_rfl, fun _ hne => absurd rfl hne⟩
  | cons a as ih =>
    obtain ⟨u, hu, hut⟩ := Runs.run_cons_eq_some.mp hr
    obtain ⟨o, ho⟩ := next_eq_some.mp hu
    have hstep := step_ballot hs hc.1 ho
    obtain ⟨hle, hvote⟩ := ih (step_synced hs ho) (hc.2 u hu) hut
    -- a vote that changes after the first step was requested after it
    have hlater : t.state.term = u.state.term → t.state.votedFor ≠ u.state.votedFor →
        u.state.votedFor = -1 ∧ VoteRequested (a :: as) t.state.votedFor := by
      intro hterm hne
      obtain ⟨hopen, env, req, force, hmem, hbody, hsrc⟩ := hvote hterm hne
      exact ⟨hopen, env, req, force, List.mem_cons_of_mem a hmem, hbody, hsrc⟩
    rcases hstep with ⟨hterm, hsame⟩ | hlt | ⟨hterm, hopen, req, force, hin, hbody, hsrc⟩
    · refine ⟨hterm ▸ hle, ?_⟩
      intro heq hne
      rw [← hsame] at hne ⊢
      exact hlater (heq.trans hterm.symm) hne
    · refine ⟨hlt.le.trans hle, ?_⟩
      intro heq
      omega
    · refine ⟨hterm ▸ hle, ?_⟩
      intro heq _
      refine ⟨hopen, ?_⟩
      by_cases hkeep : t.state.votedFor = u.state.votedFor
      · refine ⟨a.1, req, force, ?_, hbody, ?_⟩
        · rw [← hin]
          exact List.mem_cons_self
        · rw [hkeep, hsrc]
      · exact (hlater (heq.trans hterm.symm) hkeep).2

/-- In every run of a server whose configuration keeps more than one member: between any two
states the term does not fall, and within a term the vote changes only from none to the sender
of a vote request, hence once; and when a granted vote is answered, term and vote are saved. -/
theorem term_vote_discipline {as bs : List (Env × Input)} (hs : Synced s)
    (hc : StaysInCluster s (as ++ bs)) (hu : Runs.run next s as = some u)
    (ht : Runs.run next u bs = some t) :
    u.state.term ≤ t.state.term ∧
    (t.state.term = u.state.term → t.state.votedFor ≠ u.state.votedFor →
      u.state.votedFor = -1 ∧ VoteRequested bs t.state.votedFor) ∧
    (∀ env input v o m, t.step env input = some (v, o) → o.resp = some m →
      m.type = .requestVote → m.accepted = true →
        v.savedState.term = m.term ∧ v.savedState.votedFor = m.dst) := by
  have hsync : Synced u := synced_of_run hs hu
  have hballot := run_ballot hsync (hc.suffix hu) ht
  exact ⟨hballot.1, hballot.2, fun env input v o m => step_voteResp⟩

end RaftServer

/-! ## A voter that is asked twice -/

/-- Member `1` of three, just started. -/
def voterOfThree : RaftServer :=
  RaftServer.restart { id := 1, config := { servers := [{ id := 1 }, { id := 2 }, { id := 3 }] } } 0

def voteReqFrom (src : Int) (term : Nat) : ReqMsg :=
  { term := term
    src := src
    dst := 1
    lastLogTerm := 0
    lastLogIdx := 0
    commitIdx := 0
    body := .requestVote false }

/-- A response that tells of term `1`, then two candidates of that term. -/
def laterTermHeard : List (Env × RaftServer.Input) :=
  [({}, .response { term := 1, type := .requestVote, src := 3, dst := 1 })]

def twoCandidates : List (Env × RaftServer.Input) :=
  [({}, .request (voteReqFrom 2 1)), ({}, .request (voteReqFrom 3 1))]

/-- The voter hears of term `1`, votes for member `2` and refuses member `3`. -/
theorem voterOfThree_discipline :
    Runs.run RaftServer.next voterOfThree laterTermHeard = some (voterOfThree.raiseTerm 1) ∧
      Runs.run RaftServer.next (voterOfThree.raiseTerm 1) twoCandidates =
        some ((voterOfThree.raiseTerm 1).castVote 2) ∧
      (voterOfThree.raiseTerm 1).state.votedFor = -1 ∧
      RaftServer.VoteRequested twoCandidates 2 := by
  have hraise : Runs.run RaftServer.next voterOfThree laterTermHeard =
      some (voterOfThree.raiseTerm 1) := by decide +kernel
  have hvote : Runs.run RaftServer.next (voterOfThree.raiseTerm 1) twoCandidates =
      some ((voterOfThree.raiseTerm 1).castVote 2) := by decide +kernel
  have hconf : RaftServer.StaysInCluster voterOfThree (laterTermHeard ++ twoCandidates) := by
    decide +kernel
  have hmain := (RaftServer.term_vote_discipline ⟨rfl, rfl⟩ hconf hraise hvote).2.1
  exact ⟨hraise, hvote, hmain (by decide) (by decide)⟩

end Raft
end Xio
