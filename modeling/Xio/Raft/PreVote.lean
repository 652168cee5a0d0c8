import Xio.Raft.PrevoteTally

/-!
# Raft.PreVote — which pre-votes start an election

A server that hears nothing from a leader asks the others whether they do (`request_prevote`) and
stands for election once a quorum answered that they do not. The counters belong to the latest
round, but a response is matched to them by its term only, and neither a heartbeat nor a new term
closes the round. So a response that is late counts for whatever the counters are used for now.

- `PrevoteRun`: a server together with the requests that it still has answers to come for
- `Inv`: each member counts once, and the counter has no more than the grants of its round
- in a run whose counted responses are timely, an election starts on a quorum of one round
-/

namespace Xio
namespace Raft

open List RaftServer

/-! ## Rounds and their answers -/

/-- A pre-vote request that was sent in the given round. -/
structure PrevoteRequest where
  round : Nat
  dst : Int
  term : Nat
  deriving DecidableEq, Repr

/-- A server with a record of its pre-vote rounds. The record is not read by the server. -/
structure PrevoteRun where
  srv : RaftServer
  /-- Number and term of the latest round. -/
  round : Nat := 0
  term : Nat := 0
  /-- The voting members when the latest round started. -/
  voters : List Int := []
  /-- Members that granted the latest round. -/
  granted : List Int := []
  /-- Requests of all rounds that are not answered yet. -/
  waiting : List PrevoteRequest := []
  /-- An append request of a current leader came in since the latest round started. -/
  heardLeader : Bool := true
  /-- The term changed or the server led since the latest round started. -/
  movedOn : Bool := true

namespace PrevoteRun

variable (v : PrevoteRun) {r : PrevoteRequest} {w : PrevoteRun}

inductive Action
  /-- Any step of the server that is no pre-vote response. -/
  | other (env : Env) (input : RaftServer.Input)
  /-- The answer to a request that waits for one. -/
  | answer (r : PrevoteRequest) (env : Env) (resp : RespMsg)

/-- An append request of the server's term or a newer one. -/
def fromCurrentLeader (s : RaftServer) : RaftServer.Input → Bool
  | .request req =>
    match req.body with
    | .appendEntries _ => decide (s.state.term ≤ req.term)
    | _ => false
  | _ => false

/-- A new round. The peer map has one entry for an id and none for the server itself. -/
def openRound (t : RaftServer) (asked : List Int) : PrevoteRun :=
  { srv := t
    round := v.round + 1
    term := t.state.term
    voters := (if v.srv.imLearner then [] else [v.srv.id]) ++ v.srv.votingIds
    granted := []
    waiting := v.waiting ++ (asked.dedup.filter (fun i => decide (i ≠ v.srv.id))).map
      (fun i => ⟨v.round + 1, i, t.state.term⟩)
    heardLeader := false
    movedOn := false }

def follow (input : RaftServer.Input) (t : RaftServer) (o : Output) : PrevoteRun :=
  if input = .electionTimeout ∧ RaftServer.prevotesSent o.sent ≠ [] then
    v.openRound t (RaftServer.prevotesSent o.sent)
  else
    { v with
      srv := t
      heardLeader := v.heardLeader || fromCurrentLeader v.srv input
      movedOn := v.movedOn || t.state.term != v.srv.state.term || t.role == .leader }

/-- The response that answers a request: it repeats the term of the request. -/
def answerOf (r : PrevoteRequest) (resp : RespMsg) : RespMsg :=
  { resp with term := r.term, type := .preVote, src := r.dst }

def answered (r : PrevoteRequest) (env : Env) (resp : RespMsg) : PrevoteRun :=
  let t := (v.srv.handlePeerResp env (answerOf r resp)).1
  { v with
    srv := t
    granted := if r.round = v.round ∧ resp.accepted then r.dst :: v.granted else v.granted
    waiting := v.waiting.erase r
    movedOn := v.movedOn || t.state.term != v.srv.state.term || t.role == .leader }

def step : Action → Option PrevoteRun
  | .other env input =>
    if input.isPrevoteResp || !input.staysMember then none
    else (v.srv.step env input).map (fun r => v.follow input r.1 r.2)
  | .answer r env resp => if r ∈ v.waiting then some (v.answered r env resp) else none

/-- A pre-vote response is ignored, or its round has started its election already, or it answers the
latest round, since whose start the server heard from no leader, kept its term and did not lead. -/
def Timely : Action → Prop
  | .other _ _ => True
  | .answer r _ _ => r.term ≠ v.srv.preVote.term ∨ v.srv.preVote.done = true ∨
      r.round = v.round ∧ v.heardLeader = false ∧ v.movedOn = false

instance : ∀ a, Decidable (v.Timely a)
  | .other _ _ => inferInstanceAs (Decidable True)
  | .answer _ _ _ => inferInstanceAs (Decidable (_ ∨ _ ∨ _))

/-- The members that the latest round has no answer of yet. -/
def unanswered : List Int :=
  (v.waiting.filter (fun r => decide (r.round = v.round))).map PrevoteRequest.dst

/-- Each member counts once for a round, and the counter has no more than they and the server. -/
structure Inv : Prop where
  rounds : ∀ r ∈ v.waiting, r.round ≤ v.round
  terms : ∀ r ∈ v.waiting, r.term ≤ v.srv.state.term
  roundTerm : ∀ r ∈ v.waiting, r.round = v.round → r.term = v.term
  distinct : (v.unanswered ++ v.granted).Nodup
  voting : ∀ i ∈ v.unanswered ++ v.granted, i ∈ v.voters ∧ i ≠ v.srv.id
  current : v.movedOn = false → v.srv.role ≠ .leader ∧ v.srv.state.term = v.term ∧
    v.srv.id ∈ v.voters ∧ (v.srv.preVote.done = false → v.srv.preVote.dead ≤ v.granted.length + 1)

variable {v} {t : RaftServer}

theorem inv_start (srv : RaftServer) : Inv { srv := srv } where
  rounds := by intro r hr; cases hr
  terms := by intro r hr; cases hr
  roundTerm := by intro r hr; cases hr
  distinct := nodup_nil
  voting := by intro i hi; cases hi
  current := by intro h; cases h

theorem openRound_unanswered (hv : v.Inv) (asked : List Int) :
    (v.openRound t asked).unanswered = asked.dedup.filter (fun i => decide (i ≠ v.srv.id)) := by
  have hold : v.waiting.filter (fun r => decide (r.round = v.round + 1)) = [] := by
    rw [filter_eq_nil_iff]
    intro r hr
    have hle := hv.rounds r hr
    simp only [decide_eq_true_eq]
    omega
  unfold unanswered openRound
  rw [filter_append, hold, nil_append, filter_map, map_map]
  simp [Function.comp_def]

theorem Inv.openRound (hv : v.Inv) {sent : List ReqMsg} (h : OpensRound v.srv t sent)
    (hid : t.id = v.srv.id) : (v.openRound t (prevotesSent sent)).Inv := by
  have hmem : ∀ r ∈ (v.openRound t (prevotesSent sent)).waiting,
      r ∈ v.waiting ∨ r.round = v.round + 1 ∧ r.term = t.state.term := by
    intro r hr
    rcases mem_append.mp hr with hold | hnew
    · exact .inl hold
    · obtain ⟨i, _, rfl⟩ := mem_map.mp hnew
      exact .inr ⟨rfl, rfl⟩
  have hunanswered := openRound_unanswered (t := t) hv (prevotesSent sent)
  refine ⟨?_, ?_, ?_, ?_, ?_, ?_⟩
  · intro r hr
    rcases hmem r hr with hold | hnew
    · exact Nat.le_succ_of_le (hv.rounds r hold)
    · exact hnew.1.le
  · intro r hr
    rcases hmem r hr with hold | hnew
    · exact (hv.terms r hold).trans h.term.symm.le
    · exact hnew.2.le
  · intro r hr hround
    rcases hmem r hr with hold | hnew
    · -- a request of an earlier round
      have hle := hv.rounds r hold
      have heq : r.round = v.round + 1 := hround
      omega
    · exact hnew.2
  · rw [hunanswered, show (v.openRound t _).granted = [] from rfl, append_nil]
    exact (nodup_dedup _).filter _
  · intro i hi
    rw [hunanswered, show (v.openRound t _).granted = [] from rfl, append_nil,
      mem_filter, mem_dedup, h.asked] at hi
    refine ⟨mem_append_right _ hi.1, ?_⟩
    intro heq
    exact of_decide_eq_true hi.2 (heq.trans hid)
  · intro _
    refine ⟨h.follower, rfl, ?_, ?_⟩
    · change t.id ∈ (if v.srv.imLearner then [] else [v.srv.id]) ++ v.srv.votingIds
      rw [hid, h.voter]
      exact mem_cons_self
    · intro _
      exact Nat.le_of_eq (congrArg Prod.fst h.tally)

theorem Inv.quiet (hv : v.Inv) (htally : Tallies v.srv w.srv)
    (hid : w.srv.id = v.srv.id) (hterm : v.srv.state.term ≤ w.srv.state.term)
    (hround : w.round = v.round ∧ w.term = v.term ∧ w.voters = v.voters)
    (hsame : w.granted = v.granted ∧ w.waiting = v.waiting)
    (hmoved : w.movedOn = (v.movedOn || w.srv.state.term != v.srv.state.term ||
      w.srv.role == .leader)) : w.Inv := by
  obtain ⟨hr, ht, hvo⟩ := hround
  obtain ⟨hg, hw⟩ := hsame
  have hun : w.unanswered = v.unanswered := by
    unfold unanswered
    rw [hw, hr]
  refine ⟨?_, ?_, ?_, ?_, ?_, ?_⟩
  · rw [hw, hr]
    exact hv.rounds
  · rw [hw]
    intro r hmem
    exact (hv.terms r hmem).trans hterm
  · rw [hw, hr, ht]
    exact hv.roundTerm
  · rw [hun, hg]
    exact hv.distinct
  · rw [hun, hg, hvo, hid]
    exact hv.voting
  · intro hm
    rw [hmoved] at hm
    simp only [Bool.or_eq_false_iff, bne_eq_false_iff_eq, beq_eq_false_iff_ne] at hm
    obtain ⟨-, hvterm, hself, hdead⟩ := hv.current hm.1.1
    refine ⟨hm.2, ?_, ?_, ?_⟩
    · rwa [ht, hm.1.2]
    · rwa [hid, hvo]
    · rw [hg]
      intro hdone
      rcases htally with ⟨hle, -⟩ | heq
      · exact hle.trans (Nat.le_add_left 1 _)
      · have hd : w.srv.preVote.dead = v.srv.preVote.dead := congrArg Prod.fst heq
        have hn : w.srv.preVote.done = v.srv.preVote.done := congrArg Prod.snd heq
        rw [hd]
        exact hdead (hn.symm.trans hdone)

theorem Inv.other (hv : v.Inv) {env : Env} {input : Input}
    (h : v.step (.other env input) = some w) : w.Inv := by
  simp only [step] at h
  split at h
  · cases h
  rename_i hguard
  simp only [Bool.or_eq_true, Bool.not_eq_true', not_or, Bool.not_eq_true, Bool.not_eq_false]
    at hguard
  obtain ⟨⟨t, o⟩, hstep, rfl⟩ := Option.map_eq_some_iff.mp h
  have hid := step_id hstep
  have hterm := step_term_le hguard.2 hstep
  have htallies := step_tallies hguard.1 hstep
  unfold follow
  split
  · rename_i hopen
    rcases htallies with ⟨hnone, -⟩ | ⟨-, hopens⟩
    · exact absurd (hnone hopen.1) hopen.2
    · exact hv.openRound hopens hid
  · refine hv.quiet ?_ hid hterm ⟨rfl, rfl, rfl⟩ ⟨rfl, rfl⟩ rfl
    rcases htallies with ⟨-, htally⟩ | ⟨-, hopens⟩
    · exact htally
    · -- a round without a voting peer to ask
      exact .inl ⟨Nat.le_of_eq (congrArg Prod.fst hopens.tally), congrArg Prod.snd hopens.tally⟩

/-! ### Answers -/

theorem unanswered_perm (hr : r ∈ v.waiting) (env : Env) (resp : RespMsg) : v.unanswered.Perm
      ((if r.round = v.round then [r.dst] else []) ++ (v.answered r env resp).unanswered) := by
  have hperm := ((perm_cons_erase hr).filter (fun q => decide (q.round = v.round))).map
    PrevoteRequest.dst
  refine hperm.trans (Perm.of_eq ?_)
  unfold unanswered answered
  by_cases hround : r.round = v.round
  · simp [hround]
  · simp [hround]

theorem answered_subperm (hr : r ∈ v.waiting) (env : Env) (resp : RespMsg) :
    ((v.answered r env resp).unanswered ++ (v.answered r env resp).granted).Subperm
      (v.unanswered ++ v.granted) := by
  have hperm := (unanswered_perm hr env resp).append_right v.granted
  refine Subperm.trans ?_ hperm.symm.subperm
  generalize (v.answered r env resp).unanswered = un
  change Subperm
    (un ++ if r.round = v.round ∧ resp.accepted then r.dst :: v.granted else v.granted) _
  by_cases hround : r.round = v.round
  · by_cases hacc : resp.accepted = true
    · rw [if_pos ⟨hround, hacc⟩, if_pos hround]
      exact perm_middle.subperm
    · rw [if_neg (fun h => hacc h.2), if_pos hround]
      exact (sublist_cons_self r.dst (un ++ v.granted)).subperm
  · rw [if_neg (fun h => hround h.1), if_neg hround]
    exact Subperm.refl _

theorem granted_length (hround : r.round = v.round) (env : Env)
    (resp : RespMsg) : (v.answered r env resp).granted.length =
      v.granted.length + if resp.accepted then 1 else 0 := by
  change (if r.round = v.round ∧ resp.accepted then r.dst :: v.granted else v.granted).length = _
  by_cases hacc : resp.accepted = true
  · rw [if_pos ⟨hround, hacc⟩, if_pos hacc]
    rfl
  · rw [if_neg (fun h => hacc h.2), if_neg hacc]
    rfl

theorem Inv.answer (hv : v.Inv) {env : Env} {resp : RespMsg}
    (hr : r ∈ v.waiting) (ht : v.Timely (.answer r env resp)) : (v.answered r env resp).Inv := by
  have hle : (answerOf r resp).term ≤ v.srv.state.term := hv.terms r hr
  have hstep : v.srv.step env (.response (answerOf r resp)) =
      some ((v.answered r env resp).srv, _) := rfl
  have hid := step_id hstep
  have hterm := step_term_le rfl hstep
  have hsub := answered_subperm hr env resp
  refine ⟨?_, ?_, ?_, ?_, ?_, ?_⟩
  · intro q hq
    exact hv.rounds q (mem_of_mem_erase hq)
  · intro q hq
    exact (hv.terms q (mem_of_mem_erase hq)).trans hterm
  · intro q hq
    exact hv.roundTerm q (mem_of_mem_erase hq)
  · obtain ⟨l, hperm, hsublist⟩ := hsub
    exact hperm.nodup_iff.mp (hv.distinct.sublist hsublist)
  · intro i hi
    rw [hid]
    exact hv.voting i (hsub.subset hi)
  · intro hm
    change (v.movedOn || (v.answered r env resp).srv.state.term != v.srv.state.term ||
      (v.answered r env resp).srv.role == .leader) = false at hm
    simp only [Bool.or_eq_false_iff, bne_eq_false_iff_eq, beq_eq_false_iff_ne] at hm
    obtain ⟨-, hvterm, hself, hdead⟩ := hv.current hm.1.1
    refine ⟨hm.2, hm.1.2.trans hvterm, by rw [hid]; exact hself, ?_⟩
    intro hdone
    have hsrv : (v.answered r env resp).srv = (v.srv.handlePrevoteResp env (answerOf r resp)).1 :=
      congrArg Prod.fst (handlePeerResp_prevote rfl hle)
    have htally := handlePrevoteResp_tally v.srv env (answerOf r resp)
    rw [← hsrv] at htally
    have hbefore := hdead (htally.2 hdone)
    have hmore : v.granted.length ≤ (v.answered r env resp).granted.length := by
      change _ ≤ (if r.round = v.round ∧ resp.accepted then r.dst :: v.granted
        else v.granted).length
      split
      · exact Nat.le_succ _
      · exact le_rfl
    rcases ht with hignored | hstarted | ⟨hround, -, -⟩
    · have hsame : (v.answered r env resp).srv = v.srv := by
        rw [hsrv]
        unfold handlePrevoteResp
        have hne : (answerOf r resp).term ≠ v.srv.preVote.term := hignored
        rw [if_pos hne]
      rw [hsame]
      omega
    · rw [htally.2 hdone] at hstarted
      cases hstarted
    · -- the response counts for the round that it answers
      have hgrant := granted_length hround env resp
      have hcount : (v.answered r env resp).srv.preVote.dead ≤
          v.srv.preVote.dead + if resp.accepted then 1 else 0 := htally.1
      omega

theorem step_inv {a : Action} (hv : v.Inv) (ht : v.Timely a) (h : v.step a = some w) : w.Inv := by
  cases a with
  | other env input => exact hv.other h
  | answer r env resp =>
    simp only [step] at h
    split at h
    · rename_i hr
      cases h
      exact hv.answer hr ht
    · cases h

/-- The server and the members that granted a round are a quorum of its voters when it starts an
election. -/
theorem quorum_of_startsVote (hv : v.Inv) {env : Env} {resp : RespMsg}
    (hr : r ∈ v.waiting) (ht : v.Timely (.answer r env resp)) (hround : r.round = v.round)
    (hmoved : v.movedOn = false) (hstarts : v.srv.StartsVote (answerOf r resp)) :
    (v.srv.id :: (v.answered r env resp).granted).Nodup ∧
      v.srv.getQuorumForElection + 1 ≤ (v.srv.id :: (v.answered r env resp).granted).length ∧
      ∀ i ∈ v.srv.id :: (v.answered r env resp).granted, i ∈ v.voters := by
  have hw := hv.answer hr ht
  have hstep : v.srv.step env (.response (answerOf r resp)) =
      some ((v.answered r env resp).srv, _) := rfl
  have hid := step_id hstep
  have hvoting : ∀ i ∈ (v.answered r env resp).granted, i ∈ v.voters ∧ i ≠ v.srv.id := by
    intro i hi
    have hboth := hw.voting i (mem_append_right _ hi)
    rwa [hid] at hboth
  obtain ⟨-, -, hself, hdead⟩ := hv.current hmoved
  obtain ⟨-, -, hsucceeds⟩ := hstarts
  simp only [prevoteSucceeds, Bool.and_eq_true, decide_eq_true_eq, Bool.not_eq_true'] at hsucceeds
  refine ⟨nodup_cons.mpr ⟨fun hmem => (hvoting _ hmem).2 rfl, hw.distinct.of_append_right⟩, ?_, ?_⟩
  · have hcount := countPrevote_dead_le v.srv (answerOf r resp)
    have hdone := (countPrevote_done v.srv (answerOf r resp)).symm.trans hsucceeds.2
    calc v.srv.getQuorumForElection + 1 ≤ (v.srv.countPrevote (answerOf r resp)).dead := hsucceeds.1
      _ ≤ v.srv.preVote.dead + (if resp.accepted then 1 else 0) := hcount
      _ ≤ v.granted.length + 1 + (if resp.accepted then 1 else 0) :=
          Nat.add_le_add_right (hdead hdone) _
      _ = (v.srv.id :: (v.answered r env resp).granted).length := by
          rw [length_cons, granted_length hround env resp]
          omega
  · intro i hi
    rcases mem_cons.mp hi with rfl | hmem
    · exact hself
    · exact (hvoting i hmem).1

/-- In every run whose pre-vote responses are all timely: when one of them starts an election, the
server does not lead, it is in the term of the round, it has heard from no leader since the round
started, and a quorum of the round's voters granted it. No response disturbs a leader. -/
theorem prevote_sound {srv : RaftServer} {as : List Action} {r : PrevoteRequest} {env : Env}
    {resp : RespMsg} (hrun : Runs.run step { srv := srv } as = some v) (hr : r ∈ v.waiting)
    (htimely : Runs.AllSteps step Timely { srv := srv } (as ++ [.answer r env resp])) :
    (v.srv.StartsVote (answerOf r resp) →
      v.srv.role ≠ .leader ∧ v.srv.state.term = v.term ∧ r.term = v.term ∧ v.heardLeader = false ∧
        ∃ G : List Int, G.Nodup ∧ v.srv.id ∈ G ∧ v.srv.getQuorumForElection + 1 ≤ G.length ∧
          ∀ i ∈ G, i ∈ v.voters ∧ (i = v.srv.id ∨ i ∈ (v.answered r env resp).granted)) ∧
    (v.srv.role = .leader → (v.answered r env resp).srv.role = .leader ∧
      (v.answered r env resp).srv.state.term = v.srv.state.term) := by
  have hv : v.Inv := Runs.invariant_of_allSteps (P := Timely) (I := Inv)
    (fun _ _ _ hu ht hw => step_inv hu ht hw) (inv_start srv) htimely.left hrun
  have ht : v.Timely (.answer r env resp) := (htimely.suffix hrun).1
  have hle : (answerOf r resp).term ≤ v.srv.state.term := hv.terms r hr
  -- a response that starts an election is neither ignored nor late
  have hlatest : v.srv.StartsVote (answerOf r resp) →
      r.round = v.round ∧ v.heardLeader = false ∧ v.movedOn = false := by
    rintro ⟨-, hterm, hsucceeds⟩
    rcases ht with hignored | hdone | hlatest
    · exact absurd hterm hignored
    · simp [prevoteSucceeds, countPrevote_done, hdone] at hsucceeds
    · exact hlatest
  constructor
  · intro hstarts
    obtain ⟨hround, hheard, hmoved⟩ := hlatest hstarts
    obtain ⟨hrole, hterm, -, -⟩ := hv.current hmoved
    obtain ⟨hnodup, hlen, hvoters⟩ := quorum_of_startsVote hv hr ht hround hmoved hstarts
    refine ⟨hrole, hterm, hv.roundTerm r hr hround, hheard, _, hnodup, mem_cons_self, hlen, ?_⟩
    intro i hi
    exact ⟨hvoters i hi, mem_cons.mp hi⟩
  · intro hleader
    have hnot : ¬ v.srv.StartsVote (answerOf r resp) := by
      intro hstarts
      exact (hv.current (hlatest hstarts).2.2).1 hleader
    have hsrv : (v.answered r env resp).srv = (v.srv.handlePrevoteResp env (answerOf r resp)).1 :=
      congrArg Prod.fst (handlePeerResp_prevote rfl hle)
    obtain ⟨hrole, hstate⟩ := handlePrevoteResp_of_not_starts env hle hnot
    rw [hsrv, hrole, hstate]
    exact ⟨hleader, rfl⟩

end PrevoteRun

/-! ## Late answers -/

def grant : RespMsg := { term := 0, type := .preVote, src := 0, dst := 1, accepted := true }

/-- A heartbeat of the leader `2`. -/
def heartbeatFrom (src : Int) (term : Nat) : ReqMsg :=
  { term := term
    src := src
    dst := 1
    lastLogTerm := 0
    lastLogIdx := 0
    commitIdx := 0
    body := .appendEntries [] }

/-- Member `1` follows the leader `2` of term `1`, times out, and hears from the leader again before
the answers come in. -/
def heartbeatDuringRound : List PrevoteRun.Action :=
  [.other {} (.request (heartbeatFrom 2 1)), .other {} .electionTimeout,
    .other {} (.request (heartbeatFrom 2 1))]

/-- Member `1` stands for election in term `1`, times out, asks again, and then wins. -/
def winsDuringRound : List PrevoteRun.Action :=
  [.other {} .electionTimeout, .answer ⟨1, 2, 0⟩ {} grant, .other {} .electionTimeout,
    .other {} (.response { grant with term := 1, type := .requestVote, src := 2 })]

/-- The first late answer takes a follower of a live leader into an election, the second one takes a
leader out of its term. -/
theorem late_prevotes_start_elections :
    (Runs.run PrevoteRun.step { srv := voterOfThree } heartbeatDuringRound).map
        (fun v => (v.heardLeader, v.srv.hbAlive, v.srv.role, v.srv.state.term)) =
      some (true, false, .follower, 1) ∧
    (Runs.run PrevoteRun.step { srv := voterOfThree }
        (heartbeatDuringRound ++ [.answer ⟨1, 2, 1⟩ {} grant])).map
        (fun v => (v.srv.role, v.srv.state.term)) = some (.candidate, 2) ∧
    (Runs.run PrevoteRun.step { srv := voterOfThree } winsDuringRound).map
        (fun v => (v.srv.role, v.srv.state.term)) = some (.leader, 1) ∧
    (Runs.run PrevoteRun.step { srv := voterOfThree }
        (winsDuringRound ++ [.answer ⟨2, 2, 1⟩ {} grant])).map
        (fun v => (v.srv.role, v.srv.state.term)) = some (.candidate, 2) := by
  decide +kernel

/-- With the answer of member `2` in time, members `1` and `2` are the quorum. -/
theorem timely_prevote_starts_election :
    ∃ v, Runs.run PrevoteRun.step { srv := voterOfThree } [.other {} .electionTimeout] = some v ∧
      v.srv.StartsVote (PrevoteRun.answerOf ⟨1, 2, 0⟩ grant) ∧ v.heardLeader = false ∧
      ∃ G : List Int, G.Nodup ∧ v.srv.getQuorumForElection + 1 ≤ G.length := by
  have hobs : (Runs.run PrevoteRun.step { srv := voterOfThree } [.other {} .electionTimeout]).map
      (fun v => (decide (v.srv.StartsVote (PrevoteRun.answerOf ⟨1, 2, 0⟩ grant)),
        decide ((⟨1, 2, 0⟩ : PrevoteRequest) ∈ v.waiting))) = some (true, true) := by
    decide +kernel
  have htimely : Runs.AllSteps PrevoteRun.step PrevoteRun.Timely { srv := voterOfThree }
      ([.other {} .electionTimeout] ++ [.answer ⟨1, 2, 0⟩ {} grant]) := by
    decide +kernel
  obtain ⟨v, hrun, heq⟩ := Option.map_eq_some_iff.mp hobs
  have hstarts := of_decide_eq_true (congrArg Prod.fst heq)
  have hwaits := of_decide_eq_true (congrArg Prod.snd heq)
  obtain ⟨-, -, -, hheard, G, hnodup, -, hquorum, -⟩ :=
    (PrevoteRun.prevote_sound hrun hwaits htimely).1 hstarts
  exact ⟨v, hrun, hstarts, hheard, G, hnodup, hquorum⟩

end Raft
end Xio
