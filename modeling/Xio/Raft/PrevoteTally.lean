import Xio.Raft.TermVote

/-!
# Raft.PrevoteTally — everything a step can do to the pre-vote counter

`pre_vote_` counts the peers that hear from no leader. A round sets the counter to one, heartbeats
and configuration changes reset it, pre-vote responses raise it, and every other step leaves it
alone (`step_tallies`).
-/

namespace Xio
namespace Raft

open List

namespace RaftServer

variable {s t u : RaftServer} {env : Env} {input : Input}

/-! ## The election timer -/

def votingIds (s : RaftServer) : List Int := (s.peers.filter s.isRegularMember).map Peer.id

/-- The destinations of the pre-vote requests among some messages. -/
def prevotesSent (sent : List ReqMsg) : List Int :=
  (sent.filter (fun m => decide (m.body = .preVote))).map ReqMsg.dst

theorem prevotesSent_eq_nil {sent : List ReqMsg} (h : ∀ m ∈ sent, m.body ≠ .preVote) :
    prevotesSent sent = [] := by
  rw [prevotesSent, map_eq_nil_iff, filter_eq_nil_iff]
  intro m hm
  simpa using h m hm

/-- A step of a voting server that opens a round and asks every voting peer. -/
structure OpensRound (s t : RaftServer) (sent : List ReqMsg) : Prop where
  voter : s.imLearner = false
  follower : t.role ≠ .leader
  term : t.state.term = s.state.term
  tally : t.tally = (1, false)
  asked : prevotesSent sent = s.votingIds

theorem requestPrevote_cases (s : RaftServer) (env : Env) (hvoter : s.imLearner = false) :
    prevotesSent (s.requestPrevote env).2 = [] ∧ (s.requestPrevote env).1.tally = (1, false) ∨
      OpensRound s (s.requestPrevote env).1 (s.requestPrevote env).2 := by
  dsimp only [requestPrevote]
  split
  · exact .inl ⟨rfl, rfl⟩
  · refine .inr ⟨hvoter, ?_, rfl, rfl, ?_⟩
    · intro h
      cases h
    · rw [prevotesSent, requestsToRegularMembers, votingIds, filter_map, map_map]
      have hall : ((fun m : ReqMsg => decide (m.body = .preVote)) ∘
          fun p : Peer => (s.openPrevote env).positionReq p.id .preVote) = fun _ => true := by
        funext p
        simp [positionReq]
      rw [hall, filter_true]
      rfl

theorem initiateVote_noPrevote (s : RaftServer) (env : Env) (force : Bool) :
    prevotesSent (s.initiateVote env force).2 = [] := by
  have hvote : prevotesSent ((s.openBallot env).requestVote env force).2 = [] := by
    dsimp only [requestVote]
    split
    · rfl
    · apply prevotesSent_eq_nil
      intro m hm
      obtain ⟨p, _, rfl⟩ := mem_map.mp hm
      simp [positionReq]
  unfold initiateVote
  split
  · rfl
  · dsimp only
    split
    · split
      · exact hvote
      · exact hvote
    · split <;> rfl

/-- The timer changes nothing that a round depends on before it opens one. -/
theorem OpensRound.of_prepared {sent : List ReqMsg} (h : OpensRound s.prepareElection t sent) :
    OpensRound s t sent := by
  dsimp only [prepareElection] at h
  split at h <;> split at h
  all_goals exact { h with }

theorem handleElectionTimeout_tallies (s : RaftServer) (env : Env) :
    prevotesSent (s.handleElectionTimeout env).2 = [] ∧ Tallies s (s.handleElectionTimeout env).1 ∨
      OpensRound s (s.handleElectionTimeout env).1 (s.handleElectionTimeout env).2 := by
  unfold handleElectionTimeout
  split
  · refine .inl ⟨rfl, ?_⟩
    split
    · exact .inr rfl
    · exact .inr rfl
  split
  · exact .inl ⟨rfl, .inr rfl⟩
  split
  · exact .inl ⟨rfl, Tallies.refl s⟩
  split
  · exact .inl ⟨rfl, .inr rfl⟩
  split
  · exact .inl ⟨rfl, Tallies.refl s⟩
  split
  · exact .inl ⟨rfl, .inr rfl⟩
  rename_i hlearner
  have hprep := (prepareElection_quiet s).tallies
  dsimp only
  split
  · refine .inl ⟨initiateVote_noPrevote _ env false, ?_⟩
    exact hprep.trans (.inr (initiateVote_tally _ env false))
  · have hvoter : s.prepareElection.imLearner = false := by
      dsimp only [prepareElection]
      split <;> split <;> simpa using hlearner
    rcases requestPrevote_cases s.prepareElection env hvoter with ⟨hnone, htally⟩ | hopens
    · refine .inl ⟨hnone, .inl ⟨?_, congrArg Prod.snd htally⟩⟩
      exact Nat.le_of_eq (congrArg Prod.fst htally)
    · refine .inr ?_
      have hprepared := hopens.of_prepared
      exact { hprepared with }

/-! ## Steps -/

/-- Everything but a pre-vote response: the counter is reset or stays, or a round is opened. -/
theorem step_tallies {o : Output} (hin : input.isPrevoteResp = false)
    (h : s.step env input = some (t, o)) :
    (input = .electionTimeout → prevotesSent o.sent = []) ∧ Tallies s t ∨
      input = .electionTimeout ∧ OpensRound s t o.sent := by
  by_cases htimeout : input = .electionTimeout
  · subst htimeout
    cases h
    rcases handleElectionTimeout_tallies s env with ⟨hnone, htally⟩ | hopens
    · exact .inl ⟨fun _ => hnone, htally⟩
    · exact .inr ⟨rfl, hopens⟩
  refine .inl ⟨fun ht => absurd ht htimeout, ?_⟩
  exact (step_polled h).tallies hin htimeout

/-! ## A pre-vote response -/

/-- The response is counted and the count starts an election: `handle_prevote_resp` calls
`initiate_vote`. -/
def StartsVote (s : RaftServer) (resp : RespMsg) : Prop :=
  resp.term ≤ s.state.term ∧ resp.term = s.preVote.term ∧
    s.prevoteSucceeds (s.countPrevote resp) = true

instance (resp : RespMsg) : Decidable (s.StartsVote resp) := inferInstanceAs (Decidable (_ ∧ _))

theorem handlePeerResp_prevote {resp : RespMsg} (htype : resp.type = .preVote)
    (hle : resp.term ≤ s.state.term) :
    s.handlePeerResp env resp = s.handlePrevoteResp env resp := by
  rw [handlePeerResp, updateTerm, if_neg (Nat.not_lt_of_le hle), htype]
  rfl

theorem countPrevote_dead_le (s : RaftServer) (resp : RespMsg) :
    (s.countPrevote resp).dead ≤ s.preVote.dead + if resp.accepted then 1 else 0 := by
  unfold countPrevote
  split
  · exact le_rfl
  · split <;> exact le_rfl

theorem countPrevote_done (s : RaftServer) (resp : RespMsg) :
    (s.countPrevote resp).done = s.preVote.done := by
  unfold countPrevote
  repeat' split
  all_goals rfl

/-- A pre-vote response adds at most itself to the counter, and takes no election back. -/
theorem handlePrevoteResp_tally (s : RaftServer) (env : Env) (resp : RespMsg) :
    (s.handlePrevoteResp env resp).1.preVote.dead ≤
        s.preVote.dead + (if resp.accepted then 1 else 0) ∧
      ((s.handlePrevoteResp env resp).1.preVote.done = false → s.preVote.done = false) := by
  have hdead := countPrevote_dead_le s resp
  unfold handlePrevoteResp
  split
  · exact ⟨Nat.le_add_right _ _, fun h => h⟩
  dsimp only
  split
  · have htally := initiateVote_tally
      (s.withPreVote { s.countPrevote resp with done := true }) env false
    have hd := congrArg Prod.fst htally
    have hn := congrArg Prod.snd htally
    refine ⟨Nat.le_trans hd.le hdead, ?_⟩
    intro hfalse
    exact absurd (hn.symm.trans hfalse) (by simp [tally])
  · exact ⟨hdead, fun h => (countPrevote_done s resp).symm.trans h⟩

theorem handlePrevoteResp_of_not_starts (env : Env) {resp : RespMsg}
    (hle : resp.term ≤ s.state.term) (h : ¬ s.StartsVote resp) :
    (s.handlePrevoteResp env resp).1.role = s.role ∧
      (s.handlePrevoteResp env resp).1.state = s.state := by
  unfold handlePrevoteResp
  split
  · exact ⟨rfl, rfl⟩
  · rename_i hterm
    dsimp only
    split
    · rename_i hsucceeds
      exact absurd ⟨hle, not_not.mp hterm, hsucceeds⟩ h
    · exact ⟨rfl, rfl⟩

/-! ## Identity and term -/

/-- The server stays the same process in the same cluster. -/
def Input.staysMember : Input → Bool
  | .restart _ => false
  | .request req =>
    match req.body with
    | .joinCluster _ => false
    | _ => true
  | _ => true

theorem step_id {o : Output} (h : s.step env input = some (t, o)) : t.id = s.id := by
  cases step_ballotStep h with
  | settled h _ => exact h.id
  | raised term _ h _ => exact h.id
  | answered req force _ _ ht _ =>
    rcases handleVoteReq_cases (s.updateTermOnReq req) req force with ⟨heq, _⟩ | ⟨_, heq⟩
    · rw [ht, heq]
      simp
    · rw [ht, heq]
      simp
  | stood _ h _ => exact h.id
  | counted resp _ _ h _ => exact h.id
  | joined req _ _ _ h _ => exact h.id
  | restarted applied _ h _ => exact h.id

theorem step_term_le {o : Output} (hin : input.staysMember = true)
    (h : s.step env input = some (t, o)) : s.state.term ≤ t.state.term := by
  cases step_ballotStep h with
  | settled h _ => exact h.term.symm.le
  | raised term _ h _ => exact h.term ▸ h.lt.le
  | answered req force _ hbody ht _ =>
    rcases voteReq_ballot hbody ht with hsame | hlt | hfills
    · exact hsame.1.symm.le
    · exact hlt.le
    · exact hfills.1.symm.le
  | stood _ h _ =>
    rw [h.term]
    omega
  | counted resp _ _ h _ => exact h.term.symm.le
  | joined req conf hjoin hbody h _ =>
    subst hjoin
    simp [Input.staysMember, hbody] at hin
  | restarted applied hrestart h _ =>
    subst hrestart
    cases hin

end RaftServer
end Raft
end Xio
