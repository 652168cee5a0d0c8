import Xio.Lib.Voting
import Xio.Raft.FixedMembers
import Xio.Raft.TermVote

/-!
# Raft.Election — at most one leader in a term

A run of the cluster is an execution of `Voting` on the servers' terms, votes and leaders. The
relation `Elections` ties the two together. Its core is the tally of an open election: the votes
that a candidate counted came from different voters, because a vote request, the answer to it and
the counted vote are the same one thing at three times, and the candidate asks each voter once.
-/

namespace Xio
namespace Raft

open Voting List Function Relation
open Option hiding choice

variable {term : Nat}

namespace RaftServer

/-- The candidate that the server voted for in its current term. -/
def choice (s : RaftServer) : Option Int :=
  if s.state.votedFor = -1 then none else some s.state.votedFor

theorem choice_congr {s t : RaftServer} (h : t.state.votedFor = s.state.votedFor) :
    t.choice = s.choice := by
  simp [choice, h]

theorem votedFor_of_choice {s : RaftServer} {w : Int} (h : s.choice = some w) :
    s.state.votedFor = w := by
  unfold choice at h
  split at h
  · cases h
  · exact some.inj h

end RaftServer

/-! ## Votes on their way -/

/-- A request of candidate `i` for the vote of `w` in the given term. -/
def ReqMsg.asks (i w : Int) (term : Nat) (m : ReqMsg) : Bool :=
  m.isVoteReq && m.src == i && m.dst == w && m.term == term

/-- The vote of `w` for candidate `i` in the given term. -/
def RespMsg.grants (i w : Int) (term : Nat) (m : RespMsg) : Bool :=
  m.type == .requestVote && m.accepted && m.src == w && m.dst == i && m.term == term

theorem ReqMsg.asks_iff {i w : Int} {m : ReqMsg} :
    m.asks i w term = true ↔ m.isVoteReq = true ∧ m.src = i ∧ m.dst = w ∧ m.term = term := by
  simp [ReqMsg.asks, and_assoc]

theorem RespMsg.grants_iff {i w : Int} {m : RespMsg} : m.grants i w term = true ↔
      m.type = .requestVote ∧ m.accepted = true ∧ m.src = w ∧ m.dst = i ∧ m.term = term := by
  simp [RespMsg.grants, and_assoc]

namespace Cluster

open RaftServer

variable {k : Nat} {resp : RespMsg}

/-- How often the vote of `w` for `i` is on its way, asked for or given. -/
def pending (c : Cluster) (i w : Int) (term : Nat) : Nat :=
  c.reqs.countP (ReqMsg.asks i w term) + c.resps.countP (RespMsg.grants i w term)

/-- The set of counted voters, of whom none has another vote on its way. -/
structure Tally (c : Cluster) (b : Ballots Int) (i : Int) (term granted : Nat) (A : Finset Int) :
    Prop where
  card : A.card = granted
  members : ∀ w ∈ A, w ∈ c.members
  vote : ∀ w ∈ A, b.vote term w = some i
  once : ∀ w, c.pending i w term + (if w ∈ A then 1 else 0) ≤ 1

/-- The servers' terms, votes and leaders are the latest entries of the recorded ballots. -/
structure Elections (c : Cluster) (b : Ballots Int) : Prop where
  sound : Sound c.members.toFinset b
  synced : ∀ i ∈ c.members, Synced (c.srv i)
  term : ∀ i ∈ c.members, b.term i = (c.srv i).state.term
  vote : ∀ i ∈ c.members, b.vote (c.srv i).state.term i = (c.srv i).choice
  lead : ∀ i ∈ c.members, (c.srv i).role = .leader → b.lead (c.srv i).state.term = some i
  reached : ∀ i ∈ c.members, ∀ t, b.lead t = some i → t ≤ (c.srv i).state.term
  done : ∀ i ∈ c.members, b.lead (c.srv i).state.term = some i → (c.srv i).electionCompleted = true
  reqs : ∀ m ∈ c.reqs, m.isVoteReq = true →
    m.src ∈ c.members ∧ 0 < m.term ∧ m.term ≤ (c.srv m.src).state.term
  resps : ∀ m ∈ c.resps, m.type = .requestVote → m.accepted = true →
    m.src ∈ c.members ∧ m.term ≤ (c.srv m.dst).state.term ∧ b.vote m.term m.src = some m.dst
  tally : ∀ i ∈ c.members, (c.srv i).electionCompleted = false →
    ∃ A, c.Tally b i (c.srv i).state.term (c.srv i).votesGranted A

variable {v : VotingConfig} {ps : Int → RaftParams} {c c' : Cluster} {b : Ballots Int} {i : Int}
  {s t : RaftServer} {o : Output} {reqs : List ReqMsg} {resps : List RespMsg}

/-! ## One server's step -/

/-- The ballots after server `i` made a step to state `t`. -/
def observe (b : Ballots Int) (i : Int) (t : RaftServer) : Ballots Int :=
  b.record i t.state.term t.choice (t.role == .leader)

/-- What the step of server `i` to state `t` with output `o` has to satisfy for the relation to
survive it. -/
structure GoodStep (c : Cluster) (b : Ballots Int) (i : Int) (t : RaftServer) (o : Output)
    (reqs : List ReqMsg) (resps : List RespMsg) : Prop where
  term : (c.srv i).state.term ≤ t.state.term
  vote : t.state.term = (c.srv i).state.term → (c.srv i).choice = none ∨ (c.srv i).choice = t.choice
  pos : t.choice ≠ none → 0 < t.state.term
  synced : Synced t
  elected : t.role = .leader →
    (b.recordVote i t.state.term t.choice).Elected c.members.toFinset t.state.term i
  done : b.lead t.state.term = some i ∨ t.role = .leader → t.electionCompleted = true
  sent : ∀ m ∈ o.sent, m.isVoteReq = true → m.src = i ∧ 0 < m.term ∧ m.term ≤ t.state.term
  granted : ∀ m, o.resp = some m → m.type = .requestVote → m.accepted = true →
    m.src = i ∧ t.state.term = m.term ∧ t.choice = some m.dst ∧
      m.dst ∈ c.members ∧ m.term ≤ (c.srv m.dst).state.term
  pending : ∀ j ∈ c.members, j ≠ i → ∀ w,
    (update { c with reqs := reqs, resps := resps } i t o).pending j w (c.srv j).state.term ≤
      c.pending j w (c.srv j).state.term
  tally : t.electionCompleted = false → ∃ A,
    (update { c with reqs := reqs, resps := resps } i t o).Tally (observe b i t) i t.state.term
      t.votesGranted A

theorem Tally.mono {term granted : Nat} {A : Finset Int} {b' : Ballots Int}
    (hA : c.Tally b i term granted A) (hext : Extends b b') (hmembers : c'.members = c.members)
    (hle : ∀ w, c'.pending i w term ≤ c.pending i w term) : c'.Tally b' i term granted A where
  card := hA.card
  members w hw := hmembers ▸ hA.members w hw
  vote w hw := hext.vote _ _ _ (hA.vote w hw)
  once w := (Nat.add_le_add_right (hle w) _).trans (hA.once w)

theorem update_srv_self (c : Cluster) (i : Int) (t : RaftServer) (o : Output) :
    (c.update i t o).srv i = t := if_pos rfl

theorem update_srv_of_ne (c : Cluster) {i j : Int} (t : RaftServer) (o : Output) (h : j ≠ i) :
    (c.update i t o).srv j = c.srv j := if_neg h

theorem GoodStep.reports (h : Elections c b) (hi : i ∈ c.members)
    (hg : c.GoodStep b i t o reqs resps) : b.Reports i t.state.term t.choice := by
  refine ⟨(h.term i hi).trans_le hg.term, ?_, hg.pos⟩
  rcases Nat.lt_or_eq_of_le hg.term with hlt | heq
  · -- nobody votes ahead of its term
    exact .inl (h.sound.vote_eq_none (by rw [h.term i hi]; exact hlt))
  · rw [← heq, h.vote i hi]
    exact hg.vote heq.symm

theorem GoodStep.elections (h : Elections c b) (hi : i ∈ c.members)
    (htook : reqs.Sublist c.reqs ∧ resps.Sublist c.resps) (hg : c.GoodStep b i t o reqs resps) :
    ReflTransGen (Step c.members.toFinset) b (observe b i t) ∧
      Elections (update { c with reqs := reqs, resps := resps } i t o) (observe b i t) := by
  have hr := hg.reports h hi
  have hexec : ReflTransGen (Step c.members.toFinset) b (observe b i t) :=
    Ballots.record_execution hr (fun hl => hg.elected (by simpa using hl))
  obtain ⟨hsound, hext⟩ := Execution.extends h.sound hexec
  obtain ⟨_, hvote, hother, _⟩ := Ballots.recordVote_spec hr
  obtain ⟨hterm, hrec, hlead⟩ := Ballots.record_spec hr (t.role == .leader)
  refine ⟨hexec, ?_⟩
  -- server `j` is either `i`, in state `t`, or untouched
  have hsrv (j : Int) : j = i ∧ (update { c with reqs := reqs, resps := resps } i t o).srv j = t ∨
      j ≠ i ∧ (update { c with reqs := reqs, resps := resps } i t o).srv j = c.srv j := by
    by_cases hj : j = i
    · exact .inl ⟨hj, if_pos hj⟩
    · exact .inr ⟨hj, if_neg hj⟩
  have hmono (j : Int) : (c.srv j).state.term ≤
      ((update { c with reqs := reqs, resps := resps } i t o).srv j).state.term := by
    rcases hsrv j with ⟨rfl, heq⟩ | ⟨_, heq⟩ <;> rw [heq]
    exact hg.term
  have hnew (u : Nat) (j : Int) (hu : (observe b i t).lead u = some j) :
      b.lead u = some j ∨ u = t.state.term ∧ j = i ∧ t.role = .leader := by
    rw [observe, hlead] at hu
    split at hu
    · rename_i hcond
      by_cases hut : u = t.state.term
      · subst hut
        rw [update_self] at hu
        exact .inr ⟨rfl, (some.inj hu).symm, by simpa using hcond.1⟩
      · rw [update_of_ne hut] at hu
        exact .inl hu
    · exact .inl hu
  have hwon (hl : t.role = .leader) : (observe b i t).lead t.state.term = some i := by
    obtain ⟨A, hA, hvA⟩ := hg.elected hl
    have hown : (observe b i t).Elected c.members.toFinset t.state.term i :=
      ⟨A, hA, fun w hw => by rw [observe, hrec]; exact hvA w hw⟩
    cases hb : b.lead t.state.term with
    | none => rw [observe, hlead, if_pos ⟨by simp [hl], hb⟩, update_self]
    | some j =>
      -- two majorities of one term share a voter
      have hj := hext.lead _ _ hb
      rw [hj, elected_unique hown (hsound.elected _ _ hj)]
  refine ⟨hsound, ?_, ?_, ?_, ?_, ?_, ?_, ?_, ?_, ?_⟩
  · intro j hj
    rcases hsrv j with ⟨_, heq⟩ | ⟨_, heq⟩ <;> rw [heq]
    · exact hg.synced
    · exact h.synced j hj
  · intro j hj
    rcases hsrv j with ⟨rfl, heq⟩ | ⟨hne, heq⟩ <;> rw [heq, observe, hterm]
    · exact update_self ..
    · rw [update_of_ne hne]
      exact h.term j hj
  · intro j hj
    rcases hsrv j with ⟨rfl, heq⟩ | ⟨hne, heq⟩ <;> rw [heq, observe, hrec]
    · exact hvote
    · rw [hother _ _ (.inr hne)]
      exact h.vote j hj
  · intro j hj hl
    rcases hsrv j with ⟨rfl, heq⟩ | ⟨hne, heq⟩ <;> rw [heq] at hl ⊢
    · exact hwon hl
    · exact hext.lead _ _ (h.lead j hj hl)
  · intro j hj u hu
    rcases hnew u j hu with hold | ⟨rfl, rfl, _⟩
    · exact (h.reached j hj u hold).trans (hmono j)
    · rw [update_srv_self]
  · intro j hj hl
    rcases hsrv j with ⟨rfl, heq⟩ | ⟨hne, heq⟩ <;> rw [heq] at hl ⊢
    · rcases hnew _ _ hl with hold | ⟨_, _, hrole⟩
      · exact hg.done (.inl hold)
      · exact hg.done (.inr hrole)
    · rcases hnew _ _ hl with hold | ⟨_, hji, _⟩
      · exact h.done j hj hold
      · exact absurd hji hne
  · intro m hm hvreq
    rcases mem_append.mp hm with hnew | hold
    · obtain ⟨hsrc, hpos, hle⟩ := hg.sent m hnew hvreq
      rw [hsrc, update_srv_self]
      exact ⟨hi, hpos, hle⟩
    · obtain ⟨hsrc, hpos, hle⟩ := h.reqs m (htook.1.subset hold) hvreq
      exact ⟨hsrc, hpos, hle.trans (hmono _)⟩
  · intro m hm htype hacc
    rcases mem_append.mp hm with hnew | hold
    · obtain ⟨hsrc, hmt, hch, _, hle⟩ := hg.granted m (by simpa using hnew) htype hacc
      refine ⟨hsrc ▸ hi, hle.trans (hmono _), ?_⟩
      rw [observe, hrec, hsrc, ← hmt, hvote, hch]
    · obtain ⟨hsrc, hle, hv⟩ := h.resps m (htook.2.subset hold) htype hacc
      exact ⟨hsrc, hle.trans (hmono _), hext.vote _ _ _ hv⟩
  · intro j hj hopen
    rcases hsrv j with ⟨rfl, heq⟩ | ⟨hne, heq⟩ <;> rw [heq] at hopen ⊢
    · exact hg.tally hopen
    · obtain ⟨A, hA⟩ := h.tally j hj hopen
      exact ⟨A, hA.mono hext rfl (hg.pending j hj hne)⟩

/-! ## Counting what is on its way -/

theorem pending_update (c : Cluster) (i : Int) (t : RaftServer) (o : Output) (j w : Int)
    (term : Nat) : (c.update i t o).pending j w term =
      o.sent.countP (ReqMsg.asks j w term) + o.resp.toList.countP (RespMsg.grants j w term) +
        c.pending j w term := by
  simp only [pending, update, countP_append]
  omega

theorem pending_of_sublist (htook : reqs.Sublist c.reqs ∧ resps.Sublist c.resps) (j w : Int)
    (term : Nat) :
    pending { c with reqs := reqs, resps := resps } j w term ≤ c.pending j w term :=
  Nat.add_le_add (htook.1.countP_le) (htook.2.countP_le)

theorem pending_le_of_noVotes (htook : reqs.Sublist c.reqs ∧ resps.Sublist c.resps)
    (ho : NoVotes o) (i : Int) (t : RaftServer) (j w : Int) (term : Nat) :
    (update { c with reqs := reqs, resps := resps } i t o).pending j w term ≤
      c.pending j w term := by
  have hsent : o.sent.countP (ReqMsg.asks j w term) = 0 := by
    refine countP_eq_zero.mpr ?_
    intro m hm hask
    exact absurd (ReqMsg.asks_iff.mp hask).1 (by rw [ho.1 m hm]; simp)
  have hresp : o.resp.toList.countP (RespMsg.grants j w term) = 0 := by
    refine countP_eq_zero.mpr ?_
    intro m hm hgrant
    exact ho.2 m (by simpa using hm) (RespMsg.grants_iff.mp hgrant).1
  rw [pending_update, hsent, hresp]
  simpa using pending_of_sublist htook j w term

theorem Elections.pending_eq_zero (h : Elections c b)
    (hlt : (c.srv i).state.term < term) (w : Int) : c.pending i w term = 0 := by
  have hreqs : c.reqs.countP (ReqMsg.asks i w term) = 0 := by
    refine countP_eq_zero.mpr ?_
    intro m hm hask
    obtain ⟨hreq, hsrc, _, hterm⟩ := ReqMsg.asks_iff.mp hask
    have := (h.reqs m hm hreq).2.2
    rw [hsrc, hterm] at this
    omega
  have hresps : c.resps.countP (RespMsg.grants i w term) = 0 := by
    refine countP_eq_zero.mpr ?_
    intro m hm hgrant
    obtain ⟨htype, hacc, _, hdst, hterm⟩ := RespMsg.grants_iff.mp hgrant
    have := (h.resps m hm htype hacc).2.1
    rw [hdst, hterm] at this
    omega
  rw [pending, hreqs, hresps]

theorem countP_of_getElem? {α : Type*} {l : List α} {x : α} (h : l[k]? = some x)
    (p : α → Bool) : l.countP p = (l.eraseIdx k).countP p + if p x then 1 else 0 := by
  obtain ⟨hk, hx⟩ := List.getElem?_eq_some_iff.mp h
  rw [← (getElem_cons_eraseIdx_perm hk).countP_eq, countP_cons, hx]

theorem Elections.pos_of_choice (h : Elections c b) (hi : i ∈ c.members)
    (hne : (c.srv i).choice ≠ none) : 0 < (c.srv i).state.term :=
  h.sound.pos _ i (by rw [h.vote i hi]; exact hne)

/-! ## The kinds of steps -/

/-- Every vote is on its way at most as often as before. -/
def Drains (c : Cluster) (i : Int) (t : RaftServer) (o : Output) (reqs : List ReqMsg)
    (resps : List RespMsg) : Prop :=
  ∀ j w term, (update { c with reqs := reqs, resps := resps } i t o).pending j w term ≤
    c.pending j w term

/-- The messages of a step that stands for nothing: no vote is asked for, and a vote that is given
is the one on the server's ballot, for a candidate that has reached the term. -/
structure Answers (c : Cluster) (i : Int) (t : RaftServer) (o : Output) (reqs : List ReqMsg)
    (resps : List RespMsg) : Prop where
  sent : NoVoteReq o.sent
  granted : ∀ m, o.resp = some m → m.type = .requestVote → m.accepted = true →
    m.src = i ∧ t.state.term = m.term ∧ t.choice = some m.dst ∧
      m.dst ∈ c.members ∧ m.term ≤ (c.srv m.dst).state.term
  drains : c.Drains i t o reqs resps

theorem Answers.of_noVotes (htook : reqs.Sublist c.reqs ∧ resps.Sublist c.resps)
    (ho : NoVotes o) : c.Answers i t o reqs resps where
  sent := ho.1
  granted := fun m hm htype _ => absurd htype (ho.2 m hm)
  drains := pending_le_of_noVotes htook ho i t

theorem goodStep_same (h : Elections c b) (hi : i ∈ c.members) (hsync : Synced t)
    (hterm : t.state.term = (c.srv i).state.term)
    (hvote : (c.srv i).choice = none ∨ (c.srv i).choice = t.choice)
    (hpos : t.choice = (c.srv i).choice ∨ 0 < t.state.term)
    (hrole : t.role = .leader → (c.srv i).role = .leader)
    (hopen : t.electionCompleted = false →
      (c.srv i).electionCompleted = false ∧ t.votesGranted = (c.srv i).votesGranted)
    (ho : c.Answers i t o reqs resps) : c.GoodStep b i t o reqs resps := by
  have hpos' : t.choice ≠ none → 0 < t.state.term := by
    intro hne
    rcases hpos with heq | hpos
    · rw [hterm]
      exact h.pos_of_choice hi (heq ▸ hne)
    · exact hpos
  have hr : b.Reports i t.state.term t.choice := by
    refine ⟨Nat.le_of_eq ((h.term i hi).trans hterm.symm), ?_, hpos'⟩
    rwa [hterm, h.vote i hi]
  have helected (hl : t.role = .leader) :
      (b.recordVote i t.state.term t.choice).Elected c.members.toFinset t.state.term i := by
    refine (Ballots.recordVote_extends hr).elected (h.sound.elected _ _ ?_)
    rw [hterm]
    exact h.lead i hi (hrole hl)
  have hext : Extends b (observe b i t) :=
    (Execution.extends h.sound
      (Ballots.record_execution hr (fun hl => helected (by simpa using hl)))).2
  refine ⟨hterm.symm.le, fun _ => hvote, hpos', hsync, helected, ?_, ?_, ho.granted,
    fun j _ _ w => ho.drains j w _, ?_⟩
  · intro hlead
    by_contra hne
    have hcomp := (hopen (by simpa using hne)).1
    have hdone : (c.srv i).electionCompleted = true := by
      refine h.done i hi ?_
      rcases hlead with hlead | hlead
      · rwa [← hterm]
      · exact h.lead i hi (hrole hlead)
    cases hdone ▸ hcomp
  · intro m hm hreq
    rw [ho.sent m hm] at hreq
    cases hreq
  · intro hnot
    obtain ⟨A, hA⟩ := h.tally i hi (hopen hnot).1
    rw [hterm, (hopen hnot).2]
    exact ⟨A, hA.mono hext rfl fun w => ho.drains i w _⟩

theorem goodStep_raised (h : Elections c b) (hi : i ∈ c.members) (hsync : Synced t)
    (hlt : (c.srv i).state.term < t.state.term) (hrole : t.role ≠ .leader)
    (hgranted : t.electionCompleted = false → t.votesGranted = 0)
    (ho : c.Answers i t o reqs resps) : c.GoodStep b i t o reqs resps := by
  refine ⟨hlt.le, fun heq => absurd heq (by omega), fun _ => by omega, hsync,
    fun hl => absurd hl hrole, ?_, ?_, ho.granted, fun j _ _ w => ho.drains j w _, ?_⟩
  · rintro (hlead | hlead)
    · -- nobody leads a term that it has not reached
      exact absurd (h.reached i hi _ hlead) (by omega)
    · exact absurd hlead hrole
  · intro m hm hreq
    rw [ho.sent m hm] at hreq
    cases hreq
  · intro hopen
    refine ⟨∅, (hgranted hopen).symm, by simp, by simp, ?_⟩
    intro w
    have hzero := h.pending_eq_zero hlt w
    have hle := ho.drains i w t.state.term
    simp only [Finset.notMem_empty, if_false]
    omega

/-- A candidate asks each peer once, if the peers are distinct and it is not among them. -/
theorem countP_voteRequests_of_nodup
    (hnodup : (i :: (s.peers.filter s.isRegularMember).map Peer.id).Nodup) (w : Int) (term : Nat)
    (force : Bool) : (s.voteRequests term force).countP (ReqMsg.asks i w term) +
      (if w = i then 1 else 0) ≤ 1 := by
  have hcount : (s.voteRequests term force).countP (ReqMsg.asks i w term) ≤
      ((s.peers.filter s.isRegularMember).map Peer.id).count w := by
    rw [voteRequests, countP_map, count, countP_map]
    refine countP_mono_left ?_
    intro p _ hask
    have hdst : p.id = w := (ReqMsg.asks_iff.mp hask).2.2.1
    simpa using hdst
  have hone := nodup_iff_count_le_one.mp hnodup w
  rw [count_cons] at hone
  by_cases hw : w = i
  · subst hw
    simp only [beq_self_eq_true, if_true] at hone ⊢
    omega
  · rw [if_neg hw]
    omega

theorem countP_voteRequests (hs : Member v.config.servers (ps i) i s) (w : Int) (term : Nat)
    (force : Bool) : (s.voteRequests term force).countP (ReqMsg.asks i w term) +
      (if w = i then 1 else 0) ≤ 1 := by
  refine countP_voteRequests_of_nodup ?_ w term force
  rw [hs.regularMembers]
  refine nodup_cons.mpr ⟨?_, hs.peerIds_nodup⟩
  -- the candidate is not among its own peers
  intro hmem
  obtain ⟨p, hp, hid⟩ := mem_map.mp hmem
  exact (hs.peer_mem hp).2 hid

theorem choice_of_votedFor (hi : 0 ≤ i) (h : s.state.votedFor = i) : s.choice = some i := by
  rw [choice, if_neg (by omega), h]

theorem goodStep_stood_of (h : Elections c b) (hi : i ∈ c.members) (hpos : 0 ≤ i)
    (hid : (c.srv i).id = i)
    (hask : ∀ w force, ((c.srv i).voteRequests t.state.term force).countP
      (ReqMsg.asks i w t.state.term) + (if w = i then 1 else 0) ≤ 1)
    (halone : t.role = .leader → (c.srv i).getQuorumForElection = 0 →
      Majority c.members.toFinset {i})
    (htook : reqs.Sublist c.reqs ∧ resps.Sublist c.resps) {env : Env}
    (hs : Stood (c.srv i) t env o.sent) (ho : ∀ m ∈ o.resp, m.type ≠ .requestVote) :
    c.GoodStep b i t o reqs resps := by
  have hlt : (c.srv i).state.term < t.state.term := by
    rw [hs.term]
    omega
  have hchoice : t.choice = some i := choice_of_votedFor hpos (hs.vote.trans hid)
  have hr : b.Reports i t.state.term t.choice :=
    ⟨by rw [h.term i hi]; exact hlt.le,
      .inl (h.sound.vote_eq_none (by rw [h.term i hi]; exact hlt)), fun _ => by omega⟩
  have hresp (j w : Int) (term : Nat) : o.resp.toList.countP (RespMsg.grants j w term) = 0 := by
    refine countP_eq_zero.mpr ?_
    intro m hm hgrant
    exact ho m (by simpa using hm) (RespMsg.grants_iff.mp hgrant).1
  refine ⟨hlt.le, fun heq => absurd heq (by omega), fun _ => by omega,
    ⟨hs.saved.1, hs.saved.2.trans hs.vote.symm⟩, ?_, ?_, ?_, ?_, ?_, ?_⟩
  · intro hl
    -- a leader right away needs nobody else
    rcases hs.outcome with ⟨_, hrole, _⟩ | ⟨_, hquorum, _⟩
    · exact absurd hl hrole
    · refine ⟨{i}, halone hl hquorum, ?_⟩
      intro w hw
      rw [Finset.mem_singleton.mp hw, (Ballots.recordVote_spec hr).2.1, hchoice]
  · rintro (hlead | hlead)
    · exact absurd (h.reached i hi _ hlead) (by omega)
    · rcases hs.outcome with ⟨_, hrole, _⟩ | ⟨hdone, _⟩
      · exact absurd hlead hrole
      · exact hdone
  · intro m hm _
    obtain ⟨hsrc, hterm, -⟩ := hs.mem_sent hm
    exact ⟨hsrc.trans hid, by omega, hterm.le⟩
  · intro m hm htype
    exact absurd htype (ho m hm)
  · intro j _ hne w
    have hsent : o.sent.countP (ReqMsg.asks j w (c.srv j).state.term) = 0 := by
      refine countP_eq_zero.mpr ?_
      intro m hm hask
      exact hne ((ReqMsg.asks_iff.mp hask).2.1.symm.trans ((hs.mem_sent hm).1.trans hid))
    rw [pending_update, hsent, hresp]
    simpa using pending_of_sublist htook j w _
  · intro hopen
    rcases hs.outcome with ⟨_, _, force, hsent⟩ | ⟨hdone, _⟩
    · refine ⟨{i}, hs.granted ▸ rfl, by simpa [update] using hi, ?_, ?_⟩
      · intro w hw
        rw [Finset.mem_singleton.mp hw, observe, (Ballots.record_spec hr _).2.1,
          (Ballots.recordVote_spec hr).2.1, hchoice]
      · intro w
        have hold : pending { c with reqs := reqs, resps := resps } i w t.state.term = 0 :=
          Nat.eq_zero_of_le_zero
            ((pending_of_sublist htook i w _).trans_eq (h.pending_eq_zero hlt w))
        rw [pending_update, hsent, hresp, hold]
        simpa using hask w force
    · cases hdone ▸ hopen

theorem Fixed.nonneg (hf : Fixed v ps c) (hi : i ∈ c.members) : 0 ≤ i := by
  obtain ⟨sc, hsc, rfl⟩ := mem_map.mp (hf.members ▸ hi)
  exact v.ids sc hsc

theorem Fixed.card_members (hf : Fixed v ps c) :
    c.members.toFinset.card = v.config.servers.length := by
  rw [toFinset_card_of_nodup (hf.members ▸ v.nodup), hf.members, length_map]

theorem goodStep_stood (h : Elections c b) (hf : Fixed v ps c) (hi : i ∈ c.members)
    (hdef : (ps i).customElectionQuorumSize = 0)
    (htook : reqs.Sublist c.reqs ∧ resps.Sublist c.resps) {env : Env}
    (hs : Stood (c.srv i) t env o.sent) (ho : ∀ m ∈ o.resp, m.type ≠ .requestVote) :
    c.GoodStep b i t o reqs resps := by
  have hmem := hf.srv i hi
  refine goodStep_stood_of h hi (hf.nonneg hi) hmem.id
    (fun w force => countP_voteRequests hmem w _ force) ?_ htook hs ho
  intro _ hquorum
  rw [hmem.getQuorumForElection (hf.members ▸ hi) hdef] at hquorum
  refine ⟨by simpa using hi, ?_⟩
  rw [hf.card_members, Finset.card_singleton]
  omega

/-- The vote that is counted is taken out of the network, so its voter was not counted before. -/
theorem Tally.count {granted k : Nat} {A : Finset Int} (h : Elections c b)
    (hA : c.Tally b i resp.term granted A) (hk : c.resps[k]? = some resp) (hdst : resp.dst = i)
    (htype : resp.type = .requestVote) :
    ∃ A', (update { c with resps := c.resps.eraseIdx k } i t {}).Tally b i resp.term
      (granted + if resp.accepted then 1 else 0) A' := by
  have hle (w : Int) : (update { c with resps := c.resps.eraseIdx k } i t {}).pending i w resp.term +
      (if resp.grants i w resp.term then 1 else 0) = c.pending i w resp.term := by
    have hcount := countP_of_getElem? hk (RespMsg.grants i w resp.term)
    simp only [pending, update, nil_append, toList_none]
    omega
  by_cases hacc : resp.accepted = true
  · obtain ⟨hsrc, _, hvote⟩ := h.resps resp (mem_of_getElem? hk) htype hacc
    have hgrant : resp.grants i resp.src resp.term = true :=
      RespMsg.grants_iff.mpr ⟨htype, hacc, rfl, hdst, rfl⟩
    have hnew : resp.src ∉ A := by
      intro hmem
      have honce := hA.once resp.src
      have hpend := hle resp.src
      rw [if_pos hgrant] at hpend
      rw [if_pos hmem] at honce
      omega
    refine ⟨insert resp.src A, ?_, ?_, ?_, ?_⟩
    · rw [Finset.card_insert_of_notMem hnew, hA.card, if_pos hacc]
    · intro w hw
      rcases Finset.mem_insert.mp hw with rfl | hold
      · exact hsrc
      · exact hA.members w hold
    · intro w hw
      rcases Finset.mem_insert.mp hw with rfl | hold
      · rw [hvote, hdst]
      · exact hA.vote w hold
    · intro w
      have honce := hA.once w
      have hpend := hle w
      by_cases hw : w = resp.src
      · subst hw
        rw [if_pos hgrant] at hpend
        rw [if_pos (Finset.mem_insert_self _ _)]
        omega
      · have hsame : (w ∈ insert resp.src A) ↔ w ∈ A := by simp [hw]
        simp only [hsame]
        omega
  · refine ⟨A, ?_, hA.members, hA.vote, ?_⟩
    · rw [if_neg hacc, hA.card, Nat.add_zero]
    · intro w
      have honce := hA.once w
      have hpend := hle w
      omega

theorem goodStep_counted_of (h : Elections c b) (hi : i ∈ c.members)
    (hmaj : t.role = .leader → (c.srv i).getQuorumForElection + 1 ≤ t.votesGranted →
      ∀ A : Finset Int, A.card = t.votesGranted → (∀ w ∈ A, w ∈ c.members) →
        Majority c.members.toFinset A)
    (hk : c.resps[k]? = some resp) (hdst : resp.dst = i) (htype : resp.type = .requestVote)
    (hs : Counted (c.srv i) t resp) : c.GoodStep b i t {} c.reqs (c.resps.eraseIdx k) := by
  have hchoice : t.choice = (c.srv i).choice := choice_congr hs.vote
  have hpos : t.choice ≠ none → 0 < t.state.term := by
    intro hne
    rw [hs.term]
    exact h.pos_of_choice hi (hchoice ▸ hne)
  have hr : b.Reports i t.state.term t.choice := by
    refine ⟨Nat.le_of_eq ((h.term i hi).trans hs.term.symm), .inr ?_, hpos⟩
    rw [hs.term, h.vote i hi, hchoice]
  obtain ⟨A, hA⟩ := h.tally i hi hs.isOpen
  rw [← hs.sameTerm] at hA
  obtain ⟨A', hA'⟩ := hA.count (t := t) h hk hdst htype
  rw [← hs.granted, hs.sameTerm, ← hs.term] at hA'
  have hnot : ¬ b.lead (c.srv i).state.term = some i := by
    intro hlead
    have hdone := h.done i hi hlead
    cases hs.isOpen ▸ hdone
  have hwon (hl : t.role = .leader) :
      t.electionCompleted = true ∧ (c.srv i).getQuorumForElection + 1 ≤ t.votesGranted := by
    rcases hs.role hl with hrole | hwin
    · exact absurd (h.lead i hi hrole) hnot
    · exact hwin
  have helected (hl : t.role = .leader) :
      (b.recordVote i t.state.term t.choice).Elected c.members.toFinset t.state.term i := by
    have hA := hmaj hl (hwon hl).2 A' hA'.card hA'.members
    exact (Ballots.recordVote_extends hr).elected ⟨A', hA, hA'.vote⟩
  have hext : Extends b (observe b i t) :=
    (Execution.extends h.sound
      (Ballots.record_execution hr (fun hl => helected (by simpa using hl)))).2
  refine ⟨hs.term.symm.le, fun _ => .inr hchoice.symm, hpos, ?_, helected, ?_, ?_, ?_, ?_, ?_⟩
  · rw [Synced, hs.saved, hs.term, hs.vote]
    exact h.synced i hi
  · rintro (hlead | hlead)
    · rw [hs.term] at hlead
      exact absurd hlead hnot
    · exact (hwon hlead).1
  · intro _ hm
    cases hm
  · intro _ hm
    cases hm
  · intro j _ _ w
    have hno : NoVotes {} := ⟨NoVoteReq.nil, by simp⟩
    exact pending_le_of_noVotes ⟨Sublist.refl _, eraseIdx_sublist _ _⟩ hno i t j w _
  · intro _
    exact ⟨A', hA'.mono hext rfl fun _ => le_rfl⟩

theorem goodStep_counted (h : Elections c b) (hf : Fixed v ps c) (hi : i ∈ c.members)
    (hdef : (ps i).customElectionQuorumSize = 0)
    (hk : c.resps[k]? = some resp) (hdst : resp.dst = i) (htype : resp.type = .requestVote)
    (hs : Counted (c.srv i) t resp) : c.GoodStep b i t {} c.reqs (c.resps.eraseIdx k) := by
  refine goodStep_counted_of h hi ?_ hk hdst htype hs
  intro _ hquorum A hcard hmem
  rw [(hf.srv i hi).getQuorumForElection (hf.members ▸ hi) hdef] at hquorum
  refine ⟨fun w hw => mem_toFinset.mpr (hmem w hw), ?_⟩
  rw [hf.card_members, hcard]
  omega

theorem handleVoteReq_choice (s : RaftServer) (req : ReqMsg) (force : Bool) :
    s.choice = (s.handleVoteReq req force).1.choice ∨
      s.choice = none ∧ req.term = (s.handleVoteReq req force).1.state.term := by
  unfold choice
  rcases handleVoteReq_cases s req force with ⟨heq, _⟩ | ⟨hgrants, heq⟩
  · rw [heq]
    exact .inl rfl
  · rcases votedFor_of_grantsVote hgrants with hown | hopen
    · rw [heq, hown]
      exact .inl rfl
    · have hterm := term_of_grantsVote hgrants
      rw [if_pos hopen, heq]
      exact .inr ⟨rfl, hterm⟩

/-- A step by which a vote request is answered, in state `u` after the request's term was heard. -/
theorem goodStep_answered (h : Elections c b) (hi : i ∈ c.members) (hsync : Synced t)
    {u : RaftServer} (hu : Heard (c.srv i) u term)
    (hterm : t.state.term = u.state.term) (hrole : t.role = u.role)
    (hcomp : t.electionCompleted = u.electionCompleted) (hgrant : t.votesGranted = u.votesGranted)
    (hchoice : u.choice = t.choice ∨ u.choice = none ∧ 0 < t.state.term)
    (ha : c.Answers i t o reqs resps) : c.GoodStep b i t o reqs resps := by
  rcases hu with hs | hs
  · rw [choice_congr hs.vote] at hchoice
    refine goodStep_same h hi hsync (hterm.trans hs.term) ?_ ?_ ?_ ?_ ha
    · exact hchoice.symm.imp_left And.left
    · exact hchoice.imp Eq.symm And.right
    · intro hl
      exact hs.role (hrole ▸ hl)
    · intro hopen
      rw [hcomp, hs.completed] at hopen
      exact ⟨hopen, hgrant.trans hs.granted⟩
  · refine goodStep_raised h hi hsync ?_ (hrole ▸ hs.role) (fun _ => hgrant.trans hs.granted) ha
    rw [hterm, hs.term]
    exact hs.lt

theorem handleVoteReq_resp (s : RaftServer) (req : ReqMsg) (force : Bool) :
    (s.handleVoteReq req force).2.src = s.id ∧ (s.handleVoteReq req force).2.dst = req.src ∧
      (s.handleVoteReq req force).2.term = s.state.term ∧
      ((s.handleVoteReq req force).2.accepted = true →
        req.term = s.state.term ∧ (s.handleVoteReq req force).1.state.votedFor = req.src) := by
  unfold handleVoteReq
  split
  · next hgrant => exact ⟨rfl, rfl, rfl, fun _ => ⟨term_of_grantsVote hgrant, rfl⟩⟩
  · exact ⟨rfl, rfl, rfl, nofun⟩

/-- The answer takes the place of the request in the network. -/
theorem answers_voteReq_of (h : Elections c b) (hids : ∀ j ∈ c.members, 0 ≤ j)
    {req : ReqMsg} {r : RespMsg} (hk : c.reqs[k]? = some req) (hdst : req.dst = i)
    (hvote : req.isVoteReq = true) (hrsrc : r.src = i) (hrdst : r.dst = req.src)
    (hrterm : r.term = t.state.term)
    (hracc : r.accepted = true → req.term = r.term ∧ t.state.votedFor = req.src) :
    c.Answers i t { resp := some r } (c.reqs.eraseIdx k) c.resps := by
  obtain ⟨hsrc, _, hle⟩ := h.reqs req (mem_of_getElem? hk) hvote
  refine ⟨NoVoteReq.nil, ?_, ?_⟩
  · intro m hm _ hacc
    cases hm
    obtain ⟨hreq, hfor⟩ := hracc hacc
    refine ⟨hrsrc, hrterm.symm, ?_, hrdst ▸ hsrc, ?_⟩
    · rw [hrdst]
      exact choice_of_votedFor (hids _ hsrc) hfor
    · rwa [hrdst, ← hreq]
  · intro j w term
    have hcount := countP_of_getElem? hk (ReqMsg.asks j w term)
    have himp : (if r.grants j w term then 1 else 0) ≤ if req.asks j w term then 1 else 0 := by
      by_cases hg : r.grants j w term = true
      · obtain ⟨_, hacc, hw, hj, hT⟩ := RespMsg.grants_iff.mp hg
        have hreq := (hracc hacc).1
        have hask : req.asks j w term = true := ReqMsg.asks_iff.mpr
          ⟨hvote, hrdst.symm.trans hj, hdst.trans (hrsrc.symm.trans hw), hreq.trans hT⟩
        rw [if_pos hg, if_pos hask]
      · rw [if_neg hg]
        exact Nat.zero_le _
    rw [pending_update]
    simp only [pending, countP_nil, toList_some, countP_singleton]
    omega

theorem answers_voteReq (h : Elections c b) (hf : Fixed v ps c) (hi : i ∈ c.members)
    {req : ReqMsg} {force : Bool} (hk : c.reqs[k]? = some req) (hdst : req.dst = i)
    (hbody : req.body = .requestVote force)
    (ht : t = (((c.srv i).updateTermOnReq req).handleVoteReq req force).1)
    (ho : o = { resp := some (((c.srv i).updateTermOnReq req).handleVoteReq req force).2 }) :
    c.Answers i t o (c.reqs.eraseIdx k) c.resps := by
  have hvote := ReqMsg.isVoteReq_of_body hbody
  have hterm := (handleVoteReq_keeps ((c.srv i).updateTermOnReq req) req force).1
  have huid : ((c.srv i).updateTermOnReq req).id = i := by simpa using (hf.srv i hi).id
  rcases handleVoteReq_resp ((c.srv i).updateTermOnReq req) req force with
    ⟨hrsrc, hrdst, hrterm, hracc⟩
  rw [← ht] at hterm hracc
  rw [ho]
  refine answers_voteReq_of h (fun _ => hf.nonneg) hk hdst hvote (hrsrc.trans huid) hrdst
    (hrterm.trans hterm.symm) (fun hacc => ?_)
  rw [hrterm]
  exact hracc hacc

theorem Answers.drop (h : c.Answers i t o reqs resps) :
    c.Answers i t { sent := o.sent } reqs resps := by
  refine ⟨h.sent, (fun _ hm => nomatch hm), ?_⟩
  intro j w term
  refine Nat.le_trans ?_ (h.drains j w term)
  rw [pending_update, pending_update]
  simp

theorem goodStep (h : Elections c b) (hf : Fixed v ps c) (hi : i ∈ c.members)
    (hdef : (ps i).customElectionQuorumSize = 0) {env : Env} {input : Input} {o' : Output}
    (htook : c.Took i input reqs resps) (hstep : (c.srv i).step env input = some (t, o))
    (hout : o' = o ∨ o' = { sent := o.sent }) : c.GoodStep b i t o' reqs resps := by
  have hsub := htook.reqs_subset
  have hsync := step_synced (h.synced i hi) hstep
  have hanswers (ha : c.Answers i t o reqs resps) : c.Answers i t o' reqs resps := by
    rcases hout with rfl | rfl
    · exact ha
    · exact ha.drop
  -- a ballot that is the same, apart from a vote on an open one
  have hsettled (hs : Settled (c.srv i) t) (ha : c.Answers i t o reqs resps) :
      c.GoodStep b i t o' reqs resps := by
    have hchoice : t.choice = (c.srv i).choice := choice_congr hs.vote
    refine goodStep_same h hi hsync hs.term (.inr hchoice.symm) (.inl hchoice) hs.role ?_
      (hanswers ha)
    exact fun hopen => ⟨hs.completed ▸ hopen, hs.granted⟩
  cases step_ballotStep hstep with
  | settled hs ho => exact hsettled hs (.of_noVotes hsub ho)
  | raised term _ hs ho =>
    refine goodStep_raised h hi hsync ?_ hs.role (fun _ => hs.granted) (hanswers (.of_noVotes hsub ho))
    rw [hs.term]
    exact hs.lt
  | answered req force hin hbody ht ho =>
    subst hin
    cases htook with
    | inner hallowed => cases hallowed
    | client bufs => cases hbody
    | request hk hdst =>
      have ha := hanswers (answers_voteReq h hf hi hk hdst hbody ht ho)
      have hvote := ReqMsg.isVoteReq_of_body hbody
      have hreq := (h.reqs req (mem_of_getElem? hk) hvote).2.1
      rw [ht] at hsync ha ⊢
      rcases handleVoteReq_keeps ((c.srv i).updateTermOnReq req) req force with
        ⟨hterm, hrole, hcomp, hgrant⟩
      refine goodStep_answered h hi hsync (updateTermOnReq_heard (c.srv i) req) hterm hrole hcomp
        hgrant ?_ ha
      exact (handleVoteReq_choice _ req force).imp_right (fun ⟨hnone, heq⟩ => ⟨hnone, heq ▸ hreq⟩)
  | stood _ hs ho =>
    have ho' : ∀ m ∈ o'.resp, m.type ≠ .requestVote := by
      rcases hout with rfl | rfl
      · exact ho
      · exact fun _ hm => nomatch hm
    have hs' : Stood (c.srv i) t env o'.sent := by
      rcases hout with rfl | rfl <;> exact hs
    exact goodStep_stood h hf hi hdef hsub hs' ho'
  | counted resp hin htype hs ho =>
    subst hin
    subst ho
    have ho' : o' = {} := by
      rcases hout with rfl | rfl <;> rfl
    subst ho'
    cases htook with
    | inner hallowed => cases hallowed
    | response hk hdst => exact goodStep_counted h hf hi hdef hk hdst htype hs
  | joined req conf hin hbody _ _ =>
    -- nobody is invited to a cluster whose membership is fixed
    subst hin
    have hof : req.Of v.config.servers ∨ ∃ bufs, req.body = .clientRequest bufs := hf.input htook
    simp [ReqMsg.Of, hbody] at hof
  | restarted applied _ hs ho =>
    subst ho
    have hno : NoVotes {} := ⟨NoVoteReq.nil, by simp⟩
    have hchoice : t.choice = (c.srv i).choice :=
      choice_congr (by rw [hs.state, (h.synced i hi).2])
    refine goodStep_same h hi hsync ?_ (.inr hchoice.symm) (.inl hchoice) ?_ ?_
      (hanswers (.of_noVotes hsub hno))
    · rw [hs.state]
      exact (h.synced i hi).1
    · intro hl
      cases hs.role ▸ hl
    · intro hopen
      cases hs.completed ▸ hopen

/-! ## Runs of the cluster -/

def voters (v : VotingConfig) : Finset Int := (v.config.servers.map SrvConfig.id).toFinset

def Voted (v : VotingConfig) (ps : Int → RaftParams) (c : Cluster) (b : Ballots Int) : Prop :=
  Fixed v ps c ∧ Elections c b

def noBallots : Ballots Int := ⟨fun _ => 0, fun _ _ => none, fun _ => none⟩

theorem elections_start (hsrv : ∀ i ∈ c.members, Synced (c.srv i) ∧ (c.srv i).state.term = 0 ∧
      (c.srv i).choice = none ∧ (c.srv i).role ≠ .leader ∧ (c.srv i).electionCompleted = true)
    (hreqs : c.reqs = []) (hresps : c.resps = []) : Elections c noBallots where
  sound := ⟨fun _ _ hne => absurd rfl hne, fun _ _ hne => absurd rfl hne, nofun⟩
  synced i hi := (hsrv i hi).1
  term i hi := (hsrv i hi).2.1.symm
  vote i hi := (hsrv i hi).2.2.1.symm
  lead i hi hl := absurd hl (hsrv i hi).2.2.2.1
  reached := nofun
  done := nofun
  reqs := by simp [hreqs]
  resps := by simp [hresps]
  tally i hi := by simp [(hsrv i hi).2.2.2.2]

theorem init_voted (v : VotingConfig) (ps : Int → RaftParams) : Voted v ps (init v ps) noBallots :=
  ⟨init_fixed v ps, elections_start (fun _ _ => ⟨⟨rfl, rfl⟩, rfl, rfl, nofun, rfl⟩) rfl rfl⟩

/-- Only append messages are delivered twice, and they carry no vote. -/
theorem Elections.dupReq (h : Elections c b) {m : ReqMsg} (happ : isAppendReq m = true) :
    Elections { c with reqs := m :: c.reqs } b := by
  have hnot : m.isVoteReq = false := by
    unfold isAppendReq at happ
    split at happ
    · next heq => simp [ReqMsg.isVoteReq, heq]
    · cases happ
  have hpend (i w : Int) (term : Nat) :
      pending { c with reqs := m :: c.reqs } i w term = c.pending i w term := by
    simp [pending, ReqMsg.asks, hnot]
  refine { h with reqs := ?_, tally := ?_ }
  · intro m' hm' hreq
    rcases mem_cons.mp hm' with rfl | hold
    · cases hnot ▸ hreq
    · exact h.reqs m' hold hreq
  · intro i hi hopen
    obtain ⟨A, hA⟩ := h.tally i hi hopen
    exact ⟨A, hA.mono (.refl b) rfl fun w => (hpend i w _).le⟩

theorem Elections.dupResp (h : Elections c b) {m : RespMsg} (happ : m.type = .appendEntries) :
    Elections { c with resps := m :: c.resps } b := by
  have hpend (i w : Int) (term : Nat) :
      pending { c with resps := m :: c.resps } i w term = c.pending i w term := by
    simp [pending, RespMsg.grants, happ]
  refine { h with resps := ?_, tally := ?_ }
  · intro m' hm' htype hacc
    rcases mem_cons.mp hm' with rfl | hold
    · cases happ ▸ htype
    · exact h.resps m' hold htype hacc
  · intro i hi hopen
    obtain ⟨A, hA⟩ := h.tally i hi hopen
    exact ⟨A, hA.mono (.refl b) rfl fun w => (hpend i w _).le⟩

section DefaultElection

variable (helect : ∀ i, (ps i).customElectionQuorumSize = 0)
  (hadj : ∀ i, (ps i).autoAdjustQuorumForSmallCluster = false)
include helect hadj

theorem step_voted {a : Action} (h : Voted v ps c b) (hstep : c.step a = some c') :
    ∃ b', ReflTransGen (Step (voters v)) b b' ∧ Voted v ps c' b' := by
  have hfixed := step_fixed hadj h.1 hstep
  have hvoters : c.members.toFinset = voters v := by
    rw [h.1.members]
    rfl
  cases step_moves hstep with
  | @server i env input t o o' reqs resps hin hi htook hs hout hc =>
    subst hc
    have hgood := goodStep h.2 h.1 hi (helect i) htook hs hout.cases
    obtain ⟨hexec, helections⟩ := hgood.elections h.2 hi htook.reqs_subset
    exact ⟨observe b i t, hvoters ▸ hexec, hfixed, helections⟩
  | @dupReq m hm happ hc =>
    subst hc
    exact ⟨b, .refl, hfixed, h.2.dupReq happ⟩
  | @dupResp m hm happ hc =>
    subst hc
    exact ⟨b, .refl, hfixed, h.2.dupResp happ⟩

theorem run_voted {as : List Action} (h : Voted v ps c b) (hrun : c.run as = some c') :
    ∃ b', ReflTransGen (Step (voters v)) b b' ∧ Voted v ps c' b' := by
  refine Runs.simulation (P := fun _ _ => True) (R := Voted v ps) ?_ h
    (Runs.AllSteps.of_forall (fun _ _ => trivial) c as) hrun
  intro c a c' b hc _ hstep
  exact step_voted helect hadj hc hstep

/-- Election safety: in every run, two servers that lead the same term, at the same time or one
after the other, are the same server. -/
theorem election_safety {as bs : List Action} {c₁ c₂ : Cluster} {i j : Int}
    (h₁ : (init v ps).run as = some c₁) (h₂ : c₁.run bs = some c₂) (hi : i ∈ c₁.members)
    (hj : j ∈ c₂.members) (hli : (c₁.srv i).role = .leader) (hlj : (c₂.srv j).role = .leader)
    (hterm : (c₁.srv i).state.term = (c₂.srv j).state.term) : i = j := by
  obtain ⟨b₁, _, hv₁⟩ := run_voted helect hadj (init_voted v ps) h₁
  obtain ⟨b₂, hexec, hv₂⟩ := run_voted helect hadj hv₁ h₂
  have hsound : Sound (voters v) b₁ := by
    have hs := hv₁.2.sound
    rwa [hv₁.1.members] at hs
  have hleadi := hv₁.2.lead i hi hli
  have hleadj := hv₂.2.lead j hj hlj
  rw [← hterm] at hleadj
  exact Execution.lead hsound hexec hleadi hleadj

end DefaultElection

end Cluster
/-! ## A run with an election -/

def threeVoters : VotingConfig where
  config := { servers := [{ id := 1 }, { id := 2 }, { id := 3 }] }
  nodup := by decide
  nonempty := by decide
  voting := by decide
  ids := by decide

/-- Server `1` asks for pre-votes, then for votes, and the votes of `2` and `3` are counted. -/
def electServerOne : List Cluster.Action :=
  [.act 1 {} .electionTimeout, .recvReq 0 {}, .recvResp 0 {}, .recvReq 1 {}, .recvResp 0 {}]

theorem serverOne_leads_alone :
    ∃ c, (Cluster.init threeVoters (fun _ => {})).run electServerOne = some c ∧
      (c.srv 1).role = .leader ∧ ∀ j ∈ c.members, (c.srv j).role = .leader →
        (c.srv 1).state.term = (c.srv j).state.term → 1 = j := by
  have hrole : ((Cluster.init threeVoters (fun _ => {})).run electServerOne).map
      (fun c => (decide (1 ∈ c.members), (c.srv 1).role)) = some (true, .leader) := by
    decide +kernel
  obtain ⟨c, hrun, heq⟩ := map_eq_some_iff.mp hrole
  have hmem : (1 : Int) ∈ c.members := of_decide_eq_true (congrArg Prod.fst heq)
  have hlead : (c.srv 1).role = .leader := congrArg Prod.snd heq
  refine ⟨c, hrun, hlead, ?_⟩
  intro j hj hlj hterm
  have hstay : c.run [] = some c := rfl
  exact Cluster.election_safety (fun _ => rfl) (fun _ => rfl) hrun hstay hmem hj hlead hlj hterm

end Raft
end Xio
