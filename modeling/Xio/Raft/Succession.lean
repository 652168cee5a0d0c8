import Xio.Lib.Succession
import Xio.Raft.Deployment

/-!
# Raft.Succession — leaders of a cluster whose members change

A configuration takes effect on each server when its commit thread applies it, so at any time the
servers may count their votes over different electorates. A run of a deployment is an execution of
`Succession` as long as every change of an electorate is orderly: it happens while the server does
not stand for election and no server is in a newer term, and the new electorate is near those of all
others. Without that two servers may lead one term: a candidate that lags two configurations behind
finds a majority of the old cluster that shares nobody with a majority of the new one.

The votes themselves are followed with the relation `Elections` of the fixed cluster, for a deployment
in which nobody is seen to lead (`unled`).
-/

namespace Xio
namespace Raft

open Voting Succession List Function RaftServer
open Relation hiding map_map

namespace RaftServer

variable {s t : RaftServer}

/-- The server with its leadership hidden. -/
@[simps] def unled (s : RaftServer) : RaftServer := { s with role := .follower }

theorem Settled.unled (h : Settled s t) : Settled s.unled t.unled :=
  { h with role := fun hl => nomatch hl }

theorem Raised.unled {term : Nat} (h : Raised s t term) : Raised s.unled t.unled term :=
  { h with role := fun hl => nomatch hl }

theorem Stood.unled {env : Env} {sent : List ReqMsg} (h : Stood s t env sent) :
    Stood s.unled t.unled env sent := by
  refine { h with outcome := ?_ }
  rcases h.outcome with ⟨hc, _, hsent⟩ | hdone
  · exact .inl ⟨hc, nofun, hsent⟩
  · exact .inr hdone

theorem Counted.unled {resp : RespMsg} (h : Counted s t resp) : Counted s.unled t.unled resp :=
  { h with role := fun hl => nomatch hl }

theorem join_keeps_count {env : Env} {req : ReqMsg} {conf : Option ClusterConfig} {o : Output}
    (hbody : req.body = .joinCluster conf) (h : s.step env (.request req) = some (t, o)) :
    t.electionCompleted = s.electionCompleted ∧ t.votesGranted = s.votesGranted := by
  simp only [step, processReq, updateTermOnReq, hbody] at h
  cases h
  unfold handleJoinClusterReq
  cases conf with
  | none => exact ⟨rfl, rfl⟩
  | some c =>
    dsimp only
    split
    · split <;> exact ⟨rfl, rfl⟩
    split
    · exact ⟨rfl, rfl⟩
    · simp [joinCluster]

/-- The term of an invitation that the server would take over. -/
def Input.adopts (s : RaftServer) : Input → Option Nat
  | .request req =>
    match req.body with
    | .joinCluster _ => if s.config.servers.length ≤ 1 then some req.term else none
    | _ => none
  | _ => none

end RaftServer

namespace Cluster

open RaftServer

/-- The cluster with nobody seen to lead. -/
def unled (c : Cluster) : Cluster := { c with srv := fun i => (c.srv i).unled }

theorem update_unled (c : Cluster) (i : Int) (t : RaftServer) (o : Output) :
    (c.update i t o).unled = c.unled.update i t.unled o := by
  simp only [unled, update, Cluster.mk.injEq, true_and, and_true]
  funext j
  split <;> rfl

end Cluster

namespace Deployment

open RaftServer

/-! ## Orderly changes -/

/-- Server `i` may take part with the electorate of `t` from now on. -/
@[mk_iff] structure Changeover (d : Deployment) (i : Int) (t : RaftServer) : Prop where
  idle : (d.srv i).standing = false
  newest : ∀ j ∈ d.members, (d.srv j).state.term ≤ t.state.term
  voting : t.imLearner = false
  distinct : t.electorate.Nodup
  near : ∀ j ∈ d.joined, j ≠ i → Near t.electorate.toFinset (d.srv j).electorate.toFinset

/-- The server keeps the electorate with which it takes part. -/
def Keeps (d : Deployment) (i : Int) (t : RaftServer) : Prop :=
  i ∈ d.joined ∧ t.electorate = (d.srv i).electorate ∧ t.imLearner = (d.srv i).imLearner

/-- Elections ask for a majority, a server that takes over the term of an invitation loses no vote
by that, and every change of an electorate is a changeover. -/
@[mk_iff] structure OrderlyTurn (d : Deployment) (x : Turn) : Prop where
  quorum : (d.srv x.i).params.customElectionQuorumSize ≤ 0
  invited : ∀ term ∈ x.input.adopts (d.srv x.i), (d.srv x.i).standing = false ∧
    ((d.srv x.i).state.term < term ∨
      (d.srv x.i).state.term = term ∧ (d.srv x.i).state.votedFor = -1)
  change : ∀ r ∈ (d.srv x.i).step x.env x.input, d.Keeps x.i r.1 ∨ d.Changeover x.i r.1

def Orderly (d : Deployment) (a : Action) : Prop := ∀ x ∈ d.turn a, d.OrderlyTurn x

instance (d : Deployment) (i : Int) (t : RaftServer) : Decidable (d.Changeover i t) :=
  decidable_of_iff' _ (changeover_iff d i t)

instance (d : Deployment) (i : Int) (t : RaftServer) : Decidable (d.Keeps i t) :=
  inferInstanceAs (Decidable (_ ∧ _))

instance (d : Deployment) (x : Turn) : Decidable (d.OrderlyTurn x) :=
  decidable_of_iff' _ (orderlyTurn_iff d x)

instance (d : Deployment) (a : Action) : Decidable (d.Orderly a) :=
  inferInstanceAs (Decidable (∀ x ∈ d.turn a, d.OrderlyTurn x))

/-! ## The deployment and its contest -/

/-- The contest `k` is what the deployment shows of its elections. -/
structure Contested (d : Deployment) (k : Contest Int) : Prop where
  sound : Sound k
  polls : Cluster.Elections d.unled k.votes
  running : k.running = d.joined.toFinset
  joined : ∀ i ∈ d.joined, i ∈ d.members
  ids : ∀ i ∈ d.members, 0 ≤ i ∧ (d.srv i).id = i
  electorate : ∀ i ∈ d.joined, k.electorate i = (d.srv i).electorate.toFinset
  standing : ∀ i ∈ d.members, k.standing i = (d.srv i).standing
  voting : ∀ i ∈ d.joined, (d.srv i).imLearner = false ∧ (d.srv i).electorate.Nodup
  lead : ∀ i ∈ d.members, (d.srv i).role = .leader → k.lead (d.srv i).state.term = some i
  reached : ∀ u j, k.lead u = some j → j ∈ d.members ∧ u ≤ (d.srv j).state.term
  own : ∀ u w j, k.vote u w = some j → k.vote u j = some j
  ownReq : ∀ m ∈ d.reqs, m.isVoteReq = true → k.vote m.term m.src = some m.src
  asked : ∀ i ∈ d.members, (d.srv i).standing = true → ∀ w,
    k.vote (d.srv i).state.term w = some i → w ∈ (d.srv i).electorate
  requested : ∀ m ∈ d.reqs, m.isVoteReq = true → m.term = (d.srv m.src).state.term →
    (d.srv m.src).standing = true → m.dst ∈ (d.srv m.src).electorate

variable {d d' : Deployment} {k : Contest Int} {x : Turn} {t : RaftServer} {o : Output}

@[simp] theorem Turn.emits_sent (x : Turn) (o : Output) : (x.emits o).sent = o.sent := by
  unfold Turn.emits
  split <;> rfl

theorem Turn.emits_cases (x : Turn) (o : Output) :
    x.emits o = o ∨ x.emits o = { sent := o.sent } := by
  unfold Turn.emits
  split
  · exact .inl rfl
  · exact .inr rfl

/-- What the step of the server whose turn it is has to satisfy for the relation to survive it. -/
structure FairStep (d : Deployment) (k : Contest Int) (x : Turn) (t : RaftServer) (o : Output) :
    Prop where
  good : d.unled.GoodStep k.votes x.i t.unled (x.emits o) x.reqs x.resps
  id : t.id = x.i
  choice : ∀ j, t.choice = some j → k.vote t.state.term x.i = some j ∨ j = x.i ∨
    ∃ m ∈ d.reqs, m.isVoteReq = true ∧ m.src = j ∧ m.dst = x.i ∧ m.term = t.state.term
  sent : ∀ m ∈ o.sent, m.isVoteReq = true →
    m.term = t.state.term ∧ t.choice = some x.i ∧ m.dst ∈ t.electorate
  stands : t.standing = true → (d.srv x.i).state.term < t.state.term ∨
    (d.srv x.i).standing = true ∧ t.state.term = (d.srv x.i).state.term
  change : d.Keeps x.i t ∨ t.standing = false ∧ d.Changeover x.i t
  lead : t.role = .leader → k.lead t.state.term = some x.i ∨ d.Keeps x.i t ∧ t.standing = false ∧
      ((d.srv x.i).state.term < t.state.term ∨ (d.srv x.i).standing = true) ∧
      (k.votes.recordVote x.i t.state.term t.choice).Elected (d.srv x.i).electorate.toFinset
        t.state.term x.i

theorem FairStep.member (h : Contested d k) (hmay : d.MayAct x) : x.i ∈ d.members :=
  hmay.elim (h.joined x.i) And.left

theorem FairStep.reports (h : Contested d k) (hi : x.i ∈ d.members) (hf : d.FairStep k x t o) :
    k.Reports x.i t.state.term t.choice := by
  have hr := hf.good.reports h.polls hi
  exact ⟨hr.term, hr.vote, hr.pos⟩

/-- The contest takes the steps that lead to the server's new state. -/
theorem FairStep.reported (h : Contested d k) (hi : x.i ∈ d.members) (hf : d.FairStep k x t o) :
    ∃ k', ReflTransGen Succession.Step k k' ∧ (t.role = .leader → k'.lead t.state.term = some x.i) ∧
      Contest.Reported k k' x.i t.state.term t.choice t.standing t.electorate.toFinset := by
  have hr := hf.reports h hi
  by_cases hkeep : d.Keeps x.i t
  · obtain ⟨hj, helec, hlearn⟩ := hkeep
    have hrun : x.i ∈ k.running := by
      rw [h.running]
      exact mem_toFinset.mpr hj
    have hsame : t.electorate.toFinset = k.electorate x.i := by
      rw [helec]
      exact (h.electorate x.i hj).symm
    have hstands : t.standing = true → k.term x.i < t.state.term ∨ k.standing x.i = true := by
      intro hst
      have hterm : k.term x.i = (d.srv x.i).state.term := h.polls.term x.i hi
      rw [hterm, h.standing x.i hi]
      exact (hf.stands hst).imp_right And.left
    by_cases hnew : t.role = .leader ∧ k.lead t.state.term ≠ some x.i
    · -- the election was won by this step
      obtain ⟨_, hdone, hst, helected⟩ := (hf.lead hnew.1).resolve_left hnew.2
      have hvotes : (k.poll x.i t.state.term t.choice false).votes.vote =
          (k.votes.recordVote x.i t.state.term t.choice).vote :=
        congrArg Ballots.vote (Contest.poll_votes k x.i t.state.term t.choice false)
      have hwon : (k.recordVote x.i t.state.term t.choice).Elected (k.electorate x.i)
          t.state.term x.i := by
        obtain ⟨A, hA, hvA⟩ := helected
        rw [← helec, hsame] at hA
        exact ⟨A, hA, fun w hw => (congrFun (congrFun hvotes _) w).trans (hvA w hw)⟩
      have hterm : k.term x.i = (d.srv x.i).state.term := h.polls.term x.i hi
      rw [← hterm, ← h.standing x.i hi] at hst
      obtain ⟨k', hexec, hlead, hrep⟩ := Contest.win_reported hr hrun hst hwon
      refine ⟨k', hexec, fun _ => hlead, ?_⟩
      rwa [hdone, hsame]
    · refine ⟨k.poll x.i t.state.term t.choice t.standing, Contest.poll_execution hr hstands, ?_, ?_⟩
      · intro hl
        have hold : k.lead t.state.term = some x.i := by
          by_contra hne
          exact hnew ⟨hl, hne⟩
        have hlead : (k.poll x.i t.state.term t.choice t.standing).lead = k.lead :=
          (Ballots.recordVote_spec hr).2.2.2
        rwa [hlead]
      · rw [hsame]
        exact Contest.poll_reported hr hrun
  · obtain ⟨hidle, hchange⟩ := hf.change.resolve_left hkeep
    have hnewest (u : Nat) (j : Int) (hl : k.lead u = some j) : u ≤ t.state.term := by
      obtain ⟨hj, hu⟩ := h.reached u j hl
      exact hu.trans (hchange.newest j hj)
    have hnear (w : Int) (hw : w ∈ k.running) (hne : w ≠ x.i) :
        Near t.electorate.toFinset (k.electorate w) := by
      rw [h.running] at hw
      have hj := mem_toFinset.mp hw
      rw [h.electorate w hj]
      exact hchange.near w hj hne
    obtain ⟨k', hexec, hsame, hrep⟩ := Contest.enter_reported hr hnewest hnear
    refine ⟨k', hexec, ?_, ?_⟩
    · intro hl
      rw [hsame]
      exact (hf.lead hl).resolve_right (fun hwon => hkeep hwon.1)
    · rwa [hidle]

section Survives

variable {k' : Contest Int} (h : Contested d k) (hi : x.i ∈ d.members) (hf : d.FairStep k x t o)
  (hrep : Contest.Reported k k' x.i t.state.term t.choice t.standing t.electorate.toFinset)

theorem Turn.after_self (d : Deployment) (x : Turn) (t : RaftServer) (o : Output) :
    (x.after d t o).srv x.i = t :=
  if_pos rfl

theorem Turn.after_srv (d : Deployment) (x : Turn) (t : RaftServer) (o : Output) (j : Int) :
    j = x.i ∨ j ≠ x.i ∧ (x.after d t o).srv j = d.srv j :=
  (eq_or_ne j x.i).imp_right fun hne => ⟨hne, if_neg hne⟩

include h hi hf hrep

theorem FairStep.vote_self : k'.vote t.state.term x.i = t.choice := by
  obtain ⟨-, hchoice, -, -⟩ := Ballots.recordVote_spec (hf.good.reports h.polls hi)
  exact (congrFun (congrFun (congrArg Ballots.vote hrep.votes) _) _).trans hchoice

/-- The vote of another server or of another term is the one on record before. -/
theorem FairStep.vote_other {u : Nat} {w : Int} (hne : u ≠ t.state.term ∨ w ≠ x.i) :
    k'.vote u w = k.vote u w := by
  obtain ⟨-, -, hother, -⟩ := Ballots.recordVote_spec (hf.good.reports h.polls hi)
  exact (congrFun (congrFun (congrArg Ballots.vote hrep.votes) u) w).trans (hother u w hne)

theorem FairStep.polls (htook : x.reqs.Sublist d.reqs ∧ x.resps.Sublist d.resps) :
    (x.after d t o).unled.Elections k'.votes := by
  obtain ⟨_, hpolls⟩ := hf.good.elections h.polls hi htook
  have hobserve : Cluster.observe k.votes x.i t.unled = k'.votes := by
    rw [hrep.votes]
    unfold Cluster.observe Ballots.record
    exact if_neg (fun hleads => absurd hleads.1 (by simp))
  have hunled : (x.after d t o).unled =
      Cluster.update { d.unled with reqs := x.reqs, resps := x.resps } x.i t.unled (x.emits o) :=
    Cluster.update_unled { d.toCluster with reqs := x.reqs, resps := x.resps } x.i t (x.emits o)
  rw [← hobserve]
  rwa [hunled]

theorem FairStep.own (hext : Voting.Extends k.toBallots k'.toBallots) {u : Nat} {w j : Int}
    (hv : k'.vote u w = some j) : k'.vote u j = some j := by
  by_cases hsame : u = t.state.term ∧ w = x.i
  · obtain ⟨rfl, rfl⟩ := hsame
    have hself := hf.vote_self h hi hrep
    rw [hself] at hv
    rcases hf.choice j hv with hrec | rfl | ⟨m, hm, hreq, rfl, _, hterm⟩
    · exact hext.vote _ _ _ (h.own _ _ _ hrec)
    · rwa [hself]
    · have hown := hext.vote _ _ _ (h.ownReq m hm hreq)
      rwa [hterm] at hown
  · rw [hf.vote_other h hi hrep (by tauto)] at hv
    exact hext.vote _ _ _ (h.own u w j hv)

theorem FairStep.asked {j : Int} (hj : j ∈ d.members)
    (hst : ((x.after d t o).srv j).standing = true) {w : Int}
    (hv : k'.vote ((x.after d t o).srv j).state.term w = some j) :
    w ∈ ((x.after d t o).srv j).electorate := by
  rcases Turn.after_srv d x t o j with rfl | ⟨hji, heq⟩
  · rw [Turn.after_self] at hst hv ⊢
    by_cases hw : w = x.i
    · rw [hw, ← hf.id]
      exact mem_cons_self
    rw [hf.vote_other h hi hrep (.inr hw)] at hv
    rcases hf.stands hst with hlt | ⟨hst', hterm⟩
    · -- nobody voted for a candidate in a term that it had not reached
      have hvoted := h.polls.sound.voted t.state.term x.i (by
        have hown : k.votes.vote t.state.term x.i = some x.i := h.own _ _ _ hv
        rw [hown]
        simp)
      rw [h.polls.term x.i hi] at hvoted
      exact absurd hlt (Nat.not_lt.mpr hvoted)
    · have hkeep := hf.change.resolve_right (fun hc => by rw [hc.1] at hst; cases hst)
      rw [hkeep.2.1]
      rw [hterm] at hv
      exact h.asked x.i hi hst' w hv
  · rw [heq] at hst hv ⊢
    by_cases hsame : (d.srv j).state.term = t.state.term ∧ w = x.i
    · obtain ⟨hterm, rfl⟩ := hsame
      rw [hterm, hf.vote_self h hi hrep] at hv
      rcases hf.choice j hv with hrec | hjw | ⟨m, hm, hreq, rfl, hdst, hmt⟩
      · rw [← hterm] at hrec
        exact h.asked j hj hst _ hrec
      · exact absurd hjw hji
      · rw [← hdst]
        exact h.requested m hm hreq (hmt.trans hterm.symm) hst
    · rw [hf.vote_other h hi hrep (by tauto)] at hv
      exact h.asked j hj hst w hv

omit hi hrep in
theorem FairStep.requested (htook : x.reqs.Sublist d.reqs) {m : ReqMsg}
    (hm : m ∈ (x.after d t o).reqs) (hreq : m.isVoteReq = true)
    (hterm : m.term = ((x.after d t o).srv m.src).state.term)
    (hst : ((x.after d t o).srv m.src).standing = true) :
    m.dst ∈ ((x.after d t o).srv m.src).electorate := by
  rcases mem_append.mp hm with hsent | hm
  · obtain ⟨hsrc, _, _⟩ := hf.good.sent m hsent hreq
    rw [hsrc, Turn.after_self]
    exact (hf.sent m (x.emits_sent o ▸ hsent) hreq).2.2
  · have hm' := htook.subset hm
    rcases Turn.after_srv d x t o m.src with hji | ⟨-, heq⟩
    · rw [hji, Turn.after_self] at hterm hst ⊢
      rcases hf.stands hst with hlt | ⟨hst', hsame⟩
      · have hle : m.term ≤ (d.srv m.src).state.term := (h.polls.reqs m hm' hreq).2.2
        rw [hji] at hle
        omega
      · have hkeep := hf.change.resolve_right (fun hc => by rw [hc.1] at hst; cases hst)
        rw [hkeep.2.1, ← hji]
        rw [hsame, ← hji] at hterm
        rw [← hji] at hst'
        exact h.requested m hm' hreq hterm hst'
    · rw [heq] at hterm hst ⊢
      exact h.requested m hm' hreq hterm hst

end Survives

theorem FairStep.contested (h : Contested d k) (hmay : d.MayAct x)
    (htook : x.reqs.Sublist d.reqs ∧ x.resps.Sublist d.resps) (hf : d.FairStep k x t o) :
    ∃ k', ReflTransGen Succession.Step k k' ∧ Contested (x.after d t o) k' := by
  have hi := FairStep.member h hmay
  obtain ⟨k', hexec, hlead, hrep⟩ := hf.reported h hi
  obtain ⟨hsound, hext⟩ := Succession.Execution.extends h.sound hexec
  have hself := Turn.after_self d x t o
  have hsrv := Turn.after_srv d x t o
  refine ⟨k', hexec, ⟨hsound, hf.polls h hi hrep htook, ?_, ?_, ?_, ?_, ?_, ?_, ?_, ?_,
    fun u w j => hf.own h hi hrep hext, ?_, fun j hj hst w => hf.asked h hi hrep hj hst,
    fun m => hf.requested h htook.1⟩⟩
  · rw [hrep.running, h.running]
    ext j
    simp [Turn.after, mem_insert_iff]
  · intro j hj
    rcases mem_insert_iff.mp hj with rfl | hj
    · exact hi
    · exact h.joined j hj
  · intro j hj
    rcases hsrv j with rfl | ⟨-, heq⟩
    · rw [hself]
      exact ⟨(h.ids x.i hi).1, hf.id⟩
    · exact heq ▸ h.ids j hj
  · intro j hj
    rw [hrep.electorate]
    rcases hsrv j with rfl | ⟨hji, heq⟩
    · rw [hself, update_self]
    · rw [heq, update_of_ne hji]
      exact h.electorate j ((mem_insert_iff.mp hj).resolve_left hji)
  · intro j hj
    rw [hrep.standing]
    rcases hsrv j with rfl | ⟨hji, heq⟩
    · rw [hself, update_self]
    · rw [heq, update_of_ne hji]
      exact h.standing j hj
  · intro j hj
    rcases hsrv j with rfl | ⟨hji, heq⟩
    · rw [hself]
      rcases hf.change with ⟨hjoin, helec, hlearn⟩ | ⟨_, hchange⟩
      · rw [helec, hlearn]
        exact h.voting x.i hjoin
      · exact ⟨hchange.voting, hchange.distinct⟩
    · exact heq ▸ h.voting j ((mem_insert_iff.mp hj).resolve_left hji)
  · intro j hj hl
    rcases hsrv j with rfl | ⟨-, heq⟩
    · rw [hself] at hl ⊢
      exact hlead hl
    · rw [heq] at hl ⊢
      exact hext.lead _ _ (h.lead j hj hl)
  · intro u j hl
    rcases hrep.lead u j hl with hl | ⟨rfl, rfl⟩
    · obtain ⟨hj, hu⟩ := h.reached u j hl
      refine ⟨hj, hu.trans ?_⟩
      rcases hsrv j with rfl | ⟨-, heq⟩
      · rw [hself]
        exact hf.good.term
      · rw [heq]
    · rw [hself]
      exact ⟨hi, le_rfl⟩
  · intro m hm hreq
    rcases mem_append.mp hm with hsent | hm
    · obtain ⟨hterm, hch, _⟩ := hf.sent m (x.emits_sent o ▸ hsent) hreq
      obtain ⟨hsrc, _, _⟩ := hf.good.sent m hsent hreq
      rw [hterm, hsrc, hf.vote_self h hi hrep, hch]
    · exact hext.vote _ _ _ (h.ownReq m (htook.1.subset hm) hreq)

/-! ## The kinds of steps -/

theorem Contested.synced (h : Contested d k) {i : Int} (hi : i ∈ d.members) : Synced (d.srv i) :=
  h.polls.synced i hi

/-- A server whose election is open has counted nothing unless it stands. -/
theorem Contested.granted_eq_zero (h : Contested d k) {i : Int} (hi : i ∈ d.members)
    (hidle : (d.srv i).standing = false) (hopen : (d.srv i).electionCompleted = false) :
    (d.srv i).votesGranted = 0 := by
  obtain ⟨A, hA⟩ := h.polls.tally i hi hopen
  have hcard : A.card = (d.srv i).votesGranted := hA.card
  rw [← hcard, Finset.card_eq_zero, Finset.eq_empty_iff_forall_notMem]
  intro w hw
  -- whoever has a vote voted for itself
  have hown : k.vote (d.srv i).state.term i = some i := h.own _ w i (hA.vote w hw)
  have hchoice : (d.srv i).choice = some i := (h.polls.vote i hi).symm.trans hown
  have hst : (d.srv i).standing = true :=
    standing_iff.mpr ⟨hopen, (votedFor_of_choice hchoice).trans (h.ids i hi).2.symm⟩
  cases hidle ▸ hst

section Kinds

variable (h : Contested d k) (hi : x.i ∈ d.members) (horder : d.OrderlyTurn x)
  (hstep : (d.srv x.i).step x.env x.input = some (t, o)) (hno : NoVoteReq o.sent)
include h hi horder hstep hno

theorem FairStep.of_quiet
    (hgood : d.unled.GoodStep k.votes x.i t.unled (x.emits o) x.reqs x.resps) (hid : t.id = x.i)
    (hchoice : ∀ j, t.choice = some j → k.vote t.state.term x.i = some j ∨ j = x.i ∨
      ∃ m ∈ d.reqs, m.isVoteReq = true ∧ m.src = j ∧ m.dst = x.i ∧ m.term = t.state.term)
    (hstands : t.standing = true →
      (d.srv x.i).standing = true ∧ t.state.term = (d.srv x.i).state.term)
    (hrole : t.role = .leader →
      (d.srv x.i).role = .leader ∧ t.state.term = (d.srv x.i).state.term) :
    d.FairStep k x t o := by
  refine ⟨hgood, hid, hchoice, ?_, fun hst => .inr (hstands hst), ?_, ?_⟩
  · intro m hm hreq
    rw [hno m hm] at hreq
    cases hreq
  · rcases horder.change (t, o) hstep with hkeep | hchange
    · exact .inl hkeep
    · refine .inr ⟨?_, hchange⟩
      by_contra hne
      have hst := (hstands (by simpa using hne)).1
      cases hchange.idle ▸ hst
  · intro hl
    obtain ⟨hlead, hterm⟩ := hrole hl
    rw [hterm]
    exact .inl (h.lead x.i hi hlead)

variable (ho : d.unled.Answers x.i t.unled (x.emits o) x.reqs x.resps)
include ho

/-- The ballot stays, and no election is opened. -/
theorem fairStep_same (hid : t.id = (d.srv x.i).id) (hterm : t.state.term = (d.srv x.i).state.term)
    (hvote : t.state.votedFor = (d.srv x.i).state.votedFor)
    (hopen : t.electionCompleted = false →
      (d.srv x.i).electionCompleted = false ∧ t.votesGranted = (d.srv x.i).votesGranted)
    (hrole : t.role = .leader → (d.srv x.i).role = .leader) : d.FairStep k x t o := by
  have hchoice : t.choice = (d.srv x.i).choice := choice_congr hvote
  have hsync : Synced t := step_synced (h.synced hi) hstep
  refine .of_quiet h hi horder hstep hno ?_ (hid.trans (h.ids x.i hi).2) ?_ ?_
    (fun hl => ⟨hrole hl, hterm⟩)
  · exact Cluster.goodStep_same h.polls hi hsync hterm (.inr hchoice.symm) (.inl hchoice) nofun
      hopen ho
  · intro j hj
    refine .inl ?_
    rw [hterm]
    exact (h.polls.vote x.i hi).trans (hchoice.symm.trans hj)
  · intro hst
    rw [standing_iff, hvote, hid] at hst
    exact ⟨standing_iff.mpr ⟨(hopen hst.1).1, hst.2⟩, hterm⟩

theorem fairStep_settled (hs : Settled (d.srv x.i) t) : d.FairStep k x t o :=
  fairStep_same h hi horder hstep hno ho hs.id hs.term hs.vote
    (fun hopen => ⟨hs.completed.symm.trans hopen, hs.granted⟩) hs.role

theorem fairStep_raised (hid : t.id = x.i)
    (hlt : (d.srv x.i).state.term < t.state.term) (hvote : t.state.votedFor = -1)
    (hgranted : t.electionCompleted = false → t.votesGranted = 0) (hrole : t.role ≠ .leader) :
    d.FairStep k x t o := by
  have hsync : Synced t := step_synced (h.synced hi) hstep
  refine .of_quiet h hi horder hstep hno ?_ hid ?_ ?_ (fun hl => absurd hl hrole)
  · exact Cluster.goodStep_raised h.polls hi hsync hlt (by simp) hgranted ho
  · intro j hj
    rw [choice, if_pos hvote] at hj
    cases hj
  · intro hst
    have hfor := (standing_iff.mp hst).2
    have hpos := (h.ids x.i hi).1
    omega

/-- A server that joins loses no vote and no count by it. -/
theorem fairStep_joined {req : ReqMsg} {conf : Option ClusterConfig} (hin : x.input = .request req)
    (hbody : req.body = .joinCluster conf) (hj : Joined (d.srv x.i) t req) : d.FairStep k x t o := by
  have hadopts : req.term ∈ x.input.adopts (d.srv x.i) := by
    simp [hin, Input.adopts, hbody, hj.alone]
  obtain ⟨hidle, hballot⟩ := horder.invited req.term hadopts
  have hcount : t.electionCompleted = (d.srv x.i).electionCompleted ∧
      t.votesGranted = (d.srv x.i).votesGranted := by
    rw [hin] at hstep
    exact join_keeps_count hbody hstep
  have hid : t.id = x.i := hj.id.trans (h.ids x.i hi).2
  rcases hballot with hlt | ⟨hterm, hopen⟩
  · refine fairStep_raised h hi horder hstep hno ho hid (by rw [hj.term]; exact hlt) hj.vote ?_ hj.role
    intro hc
    rw [hcount.2]
    exact h.granted_eq_zero hi hidle (hcount.1 ▸ hc)
  · refine fairStep_settled h hi horder hstep hno ho ?_
    refine ⟨hj.id, hj.term.trans hterm.symm, hj.vote.trans hopen.symm, hcount.1, hcount.2,
      fun hl => absurd hl hj.role, .inr ?_⟩
    rw [hterm, hopen]
    exact hj.saved

theorem fairStep_restarted (hs : Restarted (d.srv x.i) t) : d.FairStep k x t o := by
  obtain ⟨hterm, hvote⟩ := h.synced hi
  exact fairStep_same h hi horder hstep hno ho hs.id (by rw [hs.state, hterm])
    (by rw [hs.state, hvote]) (by simp [hs.completed]) (by simp [hs.role])

theorem fairStep_answered {n : Nat} {req : ReqMsg} {force : Bool}
    (hk : d.reqs[n]? = some req) (hbody : req.body = .requestVote force) (hdst : req.dst = x.i)
    (ht : t = (((d.srv x.i).updateTermOnReq req).handleVoteReq req force).1) :
    d.FairStep k x t o := by
  have hvote := ReqMsg.isVoteReq_of_body hbody
  have hmem := mem_of_getElem? hk
  have hsync : Synced t := step_synced (h.synced hi) hstep
  have hheard := updateTermOnReq_heard (d.srv x.i) req
  have huid : ((d.srv x.i).updateTermOnReq req).id = (d.srv x.i).id := by simp
  generalize (d.srv x.i).updateTermOnReq req = u at ht hheard huid
  obtain ⟨hterm, hrole, hcomp, hgrant⟩ := handleVoteReq_keeps u req force
  have hcases := handleVoteReq_cases u req force
  have hchoice := Cluster.handleVoteReq_choice u req force
  rw [← ht] at hterm hrole hcomp hgrant hcases hchoice
  have hid : t.id = x.i := by
    rcases hcases with ⟨heq, _⟩ | ⟨_, heq⟩ <;> rw [heq]
    · exact huid.trans (h.ids x.i hi).2
    · exact huid.trans (h.ids x.i hi).2
  have hpos := (h.ids x.i hi).1
  refine .of_quiet h hi horder hstep hno ?_ hid ?_ ?_ ?_
  · have hheard' : Heard (d.srv x.i).unled u.unled req.term :=
      hheard.imp Settled.unled Raised.unled
    have hreq := (h.polls.reqs req hmem hvote).2.1
    refine Cluster.goodStep_answered h.polls hi hsync hheard' hterm rfl hcomp hgrant ?_ ho
    exact hchoice.imp_right (fun ⟨hnone, heq⟩ => ⟨hnone, heq ▸ hreq⟩)
  · intro j hj
    rcases hcases with ⟨heq, _⟩ | ⟨hgrants, heq⟩
    · rcases hheard with hs | hs
      · refine .inl ?_
        rw [hterm, hs.term]
        refine (h.polls.vote x.i hi).trans (Eq.trans ?_ hj)
        rw [heq]
        exact (choice_congr hs.vote).symm
      · rw [heq] at hj
        rw [choice, if_pos hs.vote] at hj
        cases hj
    · -- the vote is for the sender of the request
      have hsrc : t.state.votedFor = req.src := heq ▸ rfl
      exact .inr (.inr ⟨req, hmem, hvote, hsrc.symm.trans (votedFor_of_choice hj), hdst,
        (term_of_grantsVote hgrants).trans hterm.symm⟩)
  · intro hst
    obtain ⟨hopen, hfor⟩ := standing_iff.mp hst
    rw [hid] at hfor
    rw [hcomp] at hopen
    -- a server that votes for itself now has done so before
    have hbefore : u.state.votedFor = x.i := by
      rcases hcases with ⟨heq, _⟩ | ⟨hgrants, heq⟩
      · rwa [← heq]
      · have hsrc : req.src = x.i := by
          rwa [heq] at hfor
        refine (votedFor_of_grantsVote hgrants).elim (fun hv => hv.trans hsrc) (fun hnone => ?_)
        have hown : k.vote req.term x.i = some x.i := by
          have hv := h.ownReq req hmem hvote
          rwa [hsrc] at hv
        have hreached := h.polls.sound.voted req.term x.i (by
          change k.vote req.term x.i ≠ none
          rw [hown]
          simp)
        rw [h.polls.term x.i hi] at hreached
        rcases hheard with hs | hs
        · have hrec := h.polls.vote x.i hi
          have hopenVote : (d.srv x.i).choice = none := by
            rw [choice, ← hs.vote, if_pos hnone]
          have hrec : k.vote (d.srv x.i).state.term x.i = none := hrec.trans hopenVote
          rw [← hs.term, ← term_of_grantsVote hgrants, hown] at hrec
          cases hrec
        · exact absurd hs.lt (Nat.not_lt.mpr hreached)
    rcases hheard with hs | hs
    · refine ⟨standing_iff.mpr ⟨hs.completed.symm.trans hopen, ?_⟩, hterm.trans hs.term⟩
      rw [← hs.vote, hbefore, (h.ids x.i hi).2]
    · rw [hs.vote] at hbefore
      omega
  · intro hl
    rw [hrole] at hl
    rcases hheard with hs | hs
    · exact ⟨hs.role hl, hterm.trans hs.term⟩
    · exact absurd hl hs.role

end Kinds

/-- More than half of the electorate, by the count that the election quorum asks for. -/
theorem Contested.majority (h : Contested d k) (hj : x.i ∈ d.joined) (horder : d.OrderlyTurn x)
    {A : Finset Int} (hsub : ∀ w ∈ A, w ∈ (d.srv x.i).electorate)
    (hq : (d.srv x.i).getQuorumForElection + 1 ≤ A.card) :
    Majority (d.srv x.i).electorate.toFinset A := by
  obtain ⟨hlearn, hnodup⟩ := h.voting x.i hj
  rw [getQuorumForElection_electorate horder.quorum hlearn] at hq
  refine ⟨fun w hw => mem_toFinset.mpr (hsub w hw), ?_⟩
  rw [toFinset_card_of_nodup hnodup]
  omega

theorem Contested.own_mem (h : Contested d k) {i : Int} (hi : i ∈ d.members) :
    i ∈ (d.srv i).electorate := by
  rw [RaftServer.electorate, (h.ids i hi).2]
  exact mem_cons_self

theorem fairStep_stood (h : Contested d k) (hj : x.i ∈ d.joined) (horder : d.OrderlyTurn x)
    (htook : x.reqs.Sublist d.reqs ∧ x.resps.Sublist d.resps)
    (hstep : (d.srv x.i).step x.env x.input = some (t, o)) (hin : x.input.Elects (d.srv x.i))
    (hs : Stood (d.srv x.i) t x.env o.sent) (ho : ∀ m ∈ o.resp, m.type ≠ .requestVote) :
    d.FairStep k x t o := by
  have hi := h.joined x.i hj
  obtain ⟨hpos, hid⟩ := h.ids x.i hi
  have hkeep : d.Keeps x.i t := ⟨hj, step_electorate (.inl hin) hstep⟩
  have hchoice : t.choice = some x.i := Cluster.choice_of_votedFor hpos (hs.vote.trans hid)
  have hlt : (d.srv x.i).state.term < t.state.term := by
    rw [hs.term]
    omega
  have hnodup : (x.i :: ((d.srv x.i).peers.filter (d.srv x.i).isRegularMember).map Peer.id).Nodup := by
    have hnodup := (h.voting x.i hj).2
    rwa [electorate, hid] at hnodup
  have hgood : d.unled.GoodStep k.votes x.i t.unled (x.emits o) x.reqs x.resps := by
    have hs' : Stood (d.unled.srv x.i) t.unled x.env (x.emits o).sent := by
      rw [Turn.emits_sent]
      exact hs.unled
    refine Cluster.goodStep_stood_of h.polls hi hpos hid ?_ (fun h => by cases h) htook hs' ?_
    · intro w force
      exact Cluster.countP_voteRequests_of_nodup hnodup w t.state.term force
    · intro m hm
      rcases x.emits_cases o with heq | heq <;> rw [heq] at hm
      · exact ho m hm
      · cases hm
  have hown : x.i ∈ (d.srv x.i).electorate := h.own_mem hi
  refine ⟨hgood, hs.id.trans hid, ?_, ?_, fun _ => .inl hlt, .inl hkeep, ?_⟩
  · intro j hj'
    rw [hchoice] at hj'
    exact .inr (.inl (Option.some.inj hj').symm)
  · intro m hm hreq
    rcases hs.outcome with ⟨_, _, force, hsent⟩ | ⟨_, _, hsent⟩
    · rw [hsent] at hm
      obtain ⟨p, hp, rfl⟩ := mem_map.mp hm
      refine ⟨rfl, hchoice, ?_⟩
      rw [hkeep.2.1]
      exact .tail _ (mem_map.mpr ⟨p, hp, rfl⟩)
    · cases hsent ▸ hm
  · intro hl
    rcases hs.outcome with ⟨_, hrole, _⟩ | ⟨hdone, hquorum, _⟩
    · exact absurd hl hrole
    · refine .inr ⟨hkeep, by simp [standing, hdone], .inl hlt, {x.i}, ?_, ?_⟩
      · refine h.majority hj horder ?_ (by rw [hquorum]; simp)
        intro w hw
        rwa [Finset.mem_singleton.mp hw]
      · intro w hw
        rw [Finset.mem_singleton.mp hw]
        exact (Ballots.recordVote_spec (hgood.reports h.polls hi)).2.1.trans hchoice

theorem fairStep_counted (h : Contested d k) (hj : x.i ∈ d.joined) (horder : d.OrderlyTurn x)
    (hstep : (d.srv x.i).step x.env x.input = some (t, {})) {n : Nat} {resp : RespMsg}
    (hk : d.resps[n]? = some resp) (hdst : resp.dst = x.i) (hreqs : x.reqs = d.reqs)
    (hresps : x.resps = d.resps.eraseIdx n) (hin : x.input = .response resp)
    (htype : resp.type = .requestVote) (hs : Counted (d.srv x.i) t resp) :
    d.FairStep k x t {} := by
  have hi := h.joined x.i hj
  have hid := (h.ids x.i hi).2
  have hkeep : d.Keeps x.i t := ⟨hj, step_electorate (.inr ⟨resp, hin, htype⟩) hstep⟩
  have hchoice : t.choice = (d.srv x.i).choice := choice_congr hs.vote
  have hrec : k.vote (d.srv x.i).state.term x.i = (d.srv x.i).choice := h.polls.vote x.i hi
  have hgood : d.unled.GoodStep k.votes x.i t.unled (x.emits {}) x.reqs x.resps := by
    have hemits : x.emits {} = {} := by rcases x.emits_cases {} with heq | heq <;> exact heq
    rw [hemits, hreqs, hresps]
    exact Cluster.goodStep_counted_of h.polls hi nofun hk hdst htype hs.unled
  have hstanding (hfor : (d.srv x.i).choice = some x.i) : (d.srv x.i).standing = true :=
    standing_iff.mpr ⟨hs.isOpen, (votedFor_of_choice hfor).trans hid.symm⟩
  refine ⟨hgood, hs.id.trans hid, ?_, nofun, ?_, .inl hkeep, ?_⟩
  · intro j hj'
    rw [hs.term, hrec, ← hchoice]
    exact .inl hj'
  · intro hst
    rw [standing_iff, hs.vote, hs.id] at hst
    exact .inr ⟨standing_iff.mpr ⟨hs.isOpen, hst.2⟩, hs.term⟩
  · intro hl
    rcases hs.role hl with hrole | ⟨hdone, hquorum⟩
    · rw [hs.term]
      exact .inl (h.lead x.i hi hrole)
    -- the voters counted so far, and the new one
    obtain ⟨A, hA⟩ := h.polls.tally x.i hi hs.isOpen
    have hA : d.unled.Tally k.votes x.i resp.term (d.srv x.i).votesGranted A := by
      rwa [hs.sameTerm]
    obtain ⟨A', hA'⟩ := hA.count (t := t) h.polls hk hdst htype
    rw [← hs.granted, hs.sameTerm] at hA'
    have hcard : A'.card = t.votesGranted := hA'.card
    have hvotes (w : Int) (hw : w ∈ A') : k.vote (d.srv x.i).state.term w = some x.i := hA'.vote w hw
    have hstand : (d.srv x.i).standing = true := by
      have hne : A'.Nonempty := Finset.card_pos.mp (by omega)
      obtain ⟨w, hw⟩ := hne
      exact hstanding (hrec.symm.trans (h.own _ w _ (hvotes w hw)))
    refine .inr ⟨hkeep, by simp [standing, hdone], .inr hstand, A', ?_, ?_⟩
    · refine h.majority hj horder ?_ (by rw [hcard]; exact hquorum)
      intro w hw
      exact h.asked x.i hi hstand w (hvotes w hw)
    · intro w hw
      refine (Ballots.recordVote_extends (hgood.reports h.polls hi)).vote _ _ _ ?_
      rw [hs.term]
      exact hvotes w hw

theorem answers_emits {c : Cluster} {reqs : List ReqMsg} {resps : List RespMsg}
    (ha : c.Answers x.i t o reqs resps) : c.Answers x.i t (x.emits o) reqs resps := by
  rcases x.emits_cases o with heq | heq <;> rw [heq]
  · exact ha
  · exact ha.drop

theorem fairStep (h : Contested d k) (hmay : d.MayAct x) (horder : d.OrderlyTurn x)
    (htook : d.Took x.i x.input x.reqs x.resps)
    (hstep : (d.srv x.i).step x.env x.input = some (t, o)) : d.FairStep k x t o := by
  have hi := FairStep.member h hmay
  have hsub := htook.sublist
  have hquiet (ho : NoVotes o) : d.unled.Answers x.i t.unled (x.emits o) x.reqs x.resps :=
    answers_emits (.of_noVotes hsub ho)
  cases step_ballotStep hstep with
  | settled hs ho => exact fairStep_settled h hi horder hstep ho.1 (hquiet ho) hs
  | raised term _ hs ho =>
    refine fairStep_raised h hi horder hstep ho.1 (hquiet ho) (hs.id.trans (h.ids x.i hi).2) ?_ hs.vote
      (fun _ => hs.granted) hs.role
    rw [hs.term]
    exact hs.lt
  | answered req force hin hbody ht ho =>
    have hresp := Cluster.handleVoteReq_resp ((d.srv x.i).updateTermOnReq req) req force
    have hterm := (handleVoteReq_keeps ((d.srv x.i).updateTermOnReq req) req force).1
    rw [← ht] at hterm hresp
    obtain ⟨hsrc, hdst, hrterm, hacc⟩ := hresp
    have huid : ((d.srv x.i).updateTermOnReq req).id = x.i := by simpa using (h.ids x.i hi).2
    have hno : NoVoteReq o.sent := by
      rw [ho]
      exact NoVoteReq.nil
    have hvote := ReqMsg.isVoteReq_of_body hbody
    have htook' := htook
    rw [hin] at htook'
    generalize hreqs : x.reqs = reqs at htook'
    generalize hresps : x.resps = resps at htook'
    cases htook' with
    | inner hinner => cases hinner
    | @command body hcommand =>
      have hbody : body = .requestVote force := hbody
      cases hbody ▸ hcommand
    | @request n _ hk hreq =>
      refine fairStep_answered h hi horder hstep hno (answers_emits ?_) hk hbody hreq ht
      rw [ho, hreqs, hresps]
      refine Cluster.answers_voteReq_of h.polls (fun j hj => (h.ids j hj).1) hk hreq hvote
        (hsrc.trans huid) hdst (hrterm.trans hterm.symm) (fun haccept => ?_)
      rw [hrterm]
      exact hacc haccept
  | stood hin hs ho =>
    have hj : x.i ∈ d.joined := by
      refine hmay.resolve_right (fun hinvited => ?_)
      generalize x.input = input at hin hinvited
      cases input with
      | request req =>
        have hbody : req.body = .customNotification (some .leadershipTakeover) := hin
        simp [Input.isInvitation, hbody] at hinvited
      | _ => cases hinvited.2
    exact fairStep_stood h hj horder hsub hstep hin hs ho
  | counted resp hin htype hs ho =>
    subst ho
    have hj : x.i ∈ d.joined := by
      refine hmay.resolve_right (fun hinvited => ?_)
      rw [hin] at hinvited
      cases hinvited.2
    have htook' := htook
    rw [hin] at htook'
    generalize hreqs : x.reqs = reqs at htook'
    generalize hresps : x.resps = resps at htook'
    cases htook' with
    | inner hinner => cases hinner
    | response hk hdst =>
      exact fairStep_counted h hj horder hstep hk hdst hreqs hresps hin htype hs
  | joined req conf hin hbody hs ho =>
    exact fairStep_joined h hi horder hstep ho.1 (hquiet ho) hin hbody hs
  | restarted applied _ hs ho =>
    have hno : NoVotes o := by
      rw [ho]
      exact ⟨NoVoteReq.nil, by simp⟩
    exact fairStep_restarted h hi horder hstep hno.1 (hquiet hno) hs

/-! ## Runs of the deployment -/

theorem Contested.stop (h : Contested d k) (i : Int) :
    Contested { d with joined := d.joined.filter (fun j => j != i) } (k.leave i) := by
  have hstay {j : Int} (hj : j ∈ d.joined.filter (fun j => j != i)) : j ∈ d.joined :=
    (mem_filter.mp hj).1
  refine { h with
    sound := (Succession.Step.leave k i).sound h.sound
    running := ?_
    joined := fun j hj => h.joined j (hstay hj)
    electorate := fun j hj => h.electorate j (hstay hj)
    voting := fun j hj => h.voting j (hstay hj) }
  simp only [Contest.leave, h.running]
  ext j
  simp [and_comm]

theorem fresh_electorate (v : VotingConfig) (params : RaftParams) (i : Int) :
    (fresh i params v.config).electorate =
      i :: (v.config.servers.map SrvConfig.id).filter (fun j => j != i) := by
  have hregular : (fresh i params v.config).peers.filter (fresh i params v.config).isRegularMember =
      (fresh i params v.config).peers := by
    refine filter_eq_self.mpr ?_
    intro p hp
    obtain ⟨c, hc, rfl⟩ := mem_map.mp hp
    obtain ⟨hlearner, hjoiner⟩ := v.voting c (mem_filter.mp hc).1
    simp [isRegularMember, hlearner, hjoiner, fresh, restart]
  rw [electorate, hregular]
  simp only [fresh, restart, map_map, filter_map]
  rfl

/-- The electorate of a member of the first configuration is that configuration. -/
theorem fresh_electorate_toFinset (v : VotingConfig) (params : RaftParams) {i : Int}
    (hi : i ∈ v.config.servers.map SrvConfig.id) :
    (fresh i params v.config).electorate.toFinset =
      (v.config.servers.map SrvConfig.id).toFinset := by
  rw [fresh_electorate]
  ext j
  by_cases hj : j = i
  · simp [hj, mem_map.mp hi]
  · simp [hj]

theorem fresh_voting (v : VotingConfig) (params : RaftParams) (i : Int) :
    (fresh i params v.config).imLearner = false ∧ (fresh i params v.config).electorate.Nodup := by
  refine ⟨?_, ?_⟩
  · change (v.config.getServer i).elim false SrvConfig.learner = false
    cases hget : v.config.getServer i with
    | none => rfl
    | some c => exact (v.voting c (mem_of_find?_eq_some hget)).1
  · rw [fresh_electorate]
    refine nodup_cons.mpr ⟨by simp, v.nodup.filter _⟩

def firstContest (p : Setup) : Contest Int where
  toBallots := Cluster.noBallots
  electorate := fun i => ((init p).srv i).electorate.toFinset
  standing := fun _ => false
  mandate := fun _ => ∅
  running := (init p).joined.toFinset

theorem init_contested (p : Setup) : Contested (init p) (firstContest p) := by
  have hmem (i : Int) (hi : i ∈ (init p).members) : 0 ≤ i := by
    rcases mem_append.mp hi with hfirst | hspare
    · obtain ⟨c, hc, rfl⟩ := mem_map.mp hfirst
      exact p.voting.ids c hc
    · exact p.spareIds i hspare
  have hfirst (i : Int) (hi : i ∈ (init p).joined) :
      (init p).srv i = fresh i (p.params i) p.voting.config := by
    exact congrArg (fresh i (p.params i)) (if_pos hi)
  refine ⟨⟨nofun, ?_, nofun⟩, Cluster.elections_start (fun _ _ => ⟨⟨rfl, rfl⟩, rfl, rfl, nofun, rfl⟩) rfl rfl,
    rfl, ?_, ?_, ?_, ?_, ?_, nofun, nofun, nofun, nofun, nofun, nofun⟩
  · intro i hi j hj
    have hi := mem_toFinset.mp hi
    have hj := mem_toFinset.mp hj
    simp only [firstContest]
    rw [hfirst i hi, hfirst j hj, fresh_electorate_toFinset p.voting _ hi,
      fresh_electorate_toFinset p.voting _ hj]
    exact Near.refl _
  · intro i hi
    exact mem_append_left _ hi
  · intro i hi
    exact ⟨hmem i hi, rfl⟩
  · intro i _
    rfl
  · intro i _
    rfl
  · intro i hi
    rw [hfirst i hi]
    exact fresh_voting p.voting (p.params i) i

theorem step_contested {a : Action} (h : Contested d k) (horder : d.Orderly a)
    (hstep : d.step a = some d') :
    ∃ k', ReflTransGen Succession.Step k k' ∧ Contested d' k' := by
  cases step_moves hstep with
  | stopped i hd =>
    subst hd
    exact ⟨k.leave i, .single (.leave k i), h.stop i⟩
  | server x t o hx hmay hs hd =>
    subst hd
    have htook := turn_took hx
    exact (fairStep h hmay (horder x hx) htook hs).contested h hmay htook.sublist

theorem run_contested {as : List Action} (h : Contested d k)
    (horder : Runs.AllSteps step Orderly d as) (hrun : d.run as = some d') :
    ∃ k', ReflTransGen Succession.Step k k' ∧ Contested d' k' := by
  refine Runs.simulation ?_ h horder hrun
  intro d a d' k hk ha hstep
  exact step_contested hk ha hstep

/-- Election safety while servers join and leave: in every run whose steps are orderly, two servers
that lead the same term, at the same time or one after the other, are the same server. -/
theorem leader_unique {p : Setup} {as bs : List Action} {d₁ d₂ : Deployment} {i j : Int}
    (horder : Runs.AllSteps step Orderly (init p) (as ++ bs)) (h₁ : (init p).run as = some d₁)
    (h₂ : d₁.run bs = some d₂) (hi : i ∈ d₁.members) (hj : j ∈ d₂.members)
    (hli : (d₁.srv i).role = .leader) (hlj : (d₂.srv j).role = .leader)
    (hterm : (d₁.srv i).state.term = (d₂.srv j).state.term) : i = j := by
  obtain ⟨k₁, _, hk₁⟩ := run_contested (init_contested p) horder.left h₁
  obtain ⟨k₂, hexec, hk₂⟩ := run_contested hk₁ (horder.suffix h₁) h₂
  have hleadi := hk₁.lead i hi hli
  have hleadj := hk₂.lead j hj hlj
  rw [← hterm] at hleadj
  exact Succession.Execution.lead hk₁.sound hexec hleadi hleadj

end Deployment

/-! ## A candidate two configurations behind -/

def twoSpares : Setup where
  voting := threeVoters
  spare := [4, 5]
  spareIds := by decide
  own := fun i => { servers := [{ id := i }] }
  params := fun _ => {}

/-- Server `i` sends entries to `j` and handles the answer. -/
def sendLog (i j : Int) : List Deployment.Action :=
  [.act i {} (.sendAppend j false 0), .recvReq 0 {}, .recvResp 0 {}]

/-- Server `1` invites server `j` and appends the configuration with it. -/
def addServer (j : Int) : List Deployment.Action :=
  [.ask 1 {} (.addServer (some { id := j })), .recvReq 0 {}, .recvExtResp 0 {} true]

/-- Server `1` is elected by `3`, commits its first entry with `2`, and adds server `4`. -/
def addsFour : List Deployment.Action :=
  [.act 1 {} .electionTimeout, .recvReq 0 {}, .recvResp 0 {}, .recvReq 1 {}, .recvResp 0 {}] ++
    sendLog 1 2 ++ [.act 1 {} .commitNext] ++ addServer 4 ++ sendLog 1 2 ++ [.act 1 {} .commitNext]

/-- Server `1` adds server `5` as well, and server `4` applies both configurations. -/
def addsFive : List Deployment.Action :=
  addServer 5 ++ sendLog 1 2 ++ sendLog 1 4 ++ sendLog 1 4 ++ sendLog 1 4 ++
    [.act 4 {} .commitNext, .act 4 {} .commitNext, .act 4 {} .commitNext]

/-- Servers `4` and `2` stand in term `2`. Server `2`, which has applied neither configuration, leads
with the vote of `3` and commits with it; then the votes of `1` and `5` make server `4` leader. -/
def standTogether : List Deployment.Action :=
  [.act 4 {} .electionTimeout, .recvReq 2 {}, .recvResp 0 {}, .recvReq 2 {}, .recvResp 0 {},
    .act 2 {} .electionTimeout, .recvReq 1 {}, .recvResp 0 {}, .recvReq 1 {}, .recvResp 0 {}] ++
    sendLog 2 3 ++ sendLog 2 3 ++ [.recvReq 2 {}, .recvResp 0 {}, .recvReq 4 {}, .recvResp 0 {}]

/-- Every configuration was committed before the next one was appended, and still two servers lead
term `2`. -/
theorem lagging_electorate_elects_second_leader :
    Runs.AllSteps Deployment.step Deployment.Serial (Deployment.init twoSpares)
        (addsFour ++ addsFive ++ standTogether) ∧
      ((Deployment.init twoSpares).run (addsFour ++ addsFive ++ standTogether)).map (fun d =>
        ((d.srv 2).role, (d.srv 2).state.term, (d.srv 4).role, (d.srv 4).state.term)) =
        some (.leader, 2, .leader, 2) := by
  decide +kernel

/-- Server `2`, which has not applied the configuration with server `4`, leads with the vote of `3`. -/
def electsTwo : List Deployment.Action :=
  [.act 2 {} .electionTimeout, .recvReq 1 {}, .recvResp 0 {}, .recvReq 1 {}, .recvResp 0 {}]

/-- Server `1` leads term `1` with an electorate of four when server `2` begins to lead term `2` with
an electorate of three; nobody but server `1` leads term `1`. -/
theorem leaders_of_two_terms :
    ∃ d₁ d₂, (Deployment.init twoSpares).run addsFour = some d₁ ∧ d₁.run electsTwo = some d₂ ∧
      (d₁.srv 1).role = .leader ∧ (d₂.srv 2).role = .leader ∧
      (d₂.srv 1).electorate = [1, 2, 3, 4] ∧ (d₂.srv 2).electorate = [2, 1, 3] ∧
      ∀ j ∈ d₂.members, (d₂.srv j).role = .leader →
        (d₁.srv 1).state.term = (d₂.srv j).state.term → 1 = j := by
  have horder : Runs.AllSteps Deployment.step Deployment.Orderly (Deployment.init twoSpares)
      (addsFour ++ electsTwo) := by
    decide +kernel
  have hseen : ((Deployment.init twoSpares).run addsFour).bind (fun d₁ => (d₁.run electsTwo).map
      (fun d₂ => (decide (1 ∈ d₁.members), (d₁.srv 1).role, (d₂.srv 2).role,
        (d₂.srv 1).electorate, (d₂.srv 2).electorate))) =
      some (true, .leader, .leader, [1, 2, 3, 4], [2, 1, 3]) := by
    decide +kernel
  obtain ⟨d₁, h₁, hrest⟩ := Option.bind_eq_some_iff.mp hseen
  obtain ⟨d₂, h₂, heq⟩ := Option.map_eq_some_iff.mp hrest
  simp only [Prod.mk.injEq, decide_eq_true_eq] at heq
  obtain ⟨hmem, hone, htwo, hfour, hthree⟩ := heq
  refine ⟨d₁, d₂, h₁, h₂, hone, htwo, hfour, hthree, ?_⟩
  intro j hj hlj hterm
  exact Deployment.leader_unique horder h₁ h₂ hmem hj hone hlj hterm

end Raft
end Xio
