import Xio.Raft.Election

/-!
# Raft.Deployment — a cluster that servers join and leave

The servers of the first configuration and the spare ones that may be added later, with the messages
that are on their way. A spare server takes part from the moment that it handles an invitation, and a
server may be shut down for good. A message may stay in the network forever and may be delivered
after any other. Every server takes all the steps of `RaftServer.step`.

An election is decided on the electorate of a server: itself and the peers that may vote, as they
follow from the configuration that the server has in effect.
-/

namespace Xio
namespace Raft

open List Option RaftServer

namespace RaftServer

variable {s t : RaftServer}

/-- Timers, threads and calls: everything that does not come from the network. -/
def Input.isInner : Input → Bool
  | .request _ | .response _ | .extResponse _ _ => false
  | _ => true

def Input.isInvitation : Input → Bool
  | .request req =>
    match req.body with
    | .joinCluster _ => true
    | _ => false
  | _ => false

/-! ## Electorates -/

def electorate (s : RaftServer) : List Int :=
  s.id :: (s.peers.filter s.isRegularMember).map Peer.id

/-- A candidate whose election is open. -/
def standing (s : RaftServer) : Bool := !s.electionCompleted && s.state.votedFor == s.id

theorem standing_iff : s.standing = true ↔ s.electionCompleted = false ∧ s.state.votedFor = s.id := by
  simp [standing]

theorem core_electorate (h : t.core = s.core) :
    t.electorate = s.electorate ∧ t.imLearner = s.imLearner :=
  ⟨show t.core.electorate = s.core.electorate from congrArg electorate h,
    show t.core.imLearner = s.core.imLearner from congrArg imLearner h⟩

theorem Elects.electorate {env : Env} (h : Elects env s t) :
    t.electorate = s.electorate ∧ t.imLearner = s.imLearner := by
  cases h with
  | steady h => exact core_electorate h.core
  | elected u hu _ ht _ =>
    have hpeers : (u.takeLeadership.requestAppendEntries env).electorate = u.electorate := by
      simp only [RaftServer.electorate, requestAppendEntries, commit_id, commit_peers,
        takeLeadership_id, takeLeadership_peers, List.filter_map, List.map_map]
      rfl
    have hu' := core_electorate hu.core
    have ht' := core_electorate ht.core
    exact ⟨ht'.1.trans (hpeers.trans hu'.1), ht'.2.trans hu'.2⟩

theorem processReq_takeover {env : Env} {req : ReqMsg} {o : Output}
    (hbody : req.body = .customNotification (some .leadershipTakeover))
    (h : s.step env (.request req) = some (t, o)) : t = (s.handleLeadershipTakeover env).1 := by
  simp only [step, processReq, updateTermOnReq, hbody, handleCustomNotificationReq] at h
  cases h
  rfl

/-- Neither standing for election nor counting a vote changes who may vote. -/
theorem step_electorate {env : Env} {input : Input} {o : Output}
    (hin : input.Elects s ∨ ∃ resp, input = .response resp ∧ resp.type = .requestVote)
    (h : s.step env input = some (t, o)) :
    t.electorate = s.electorate ∧ t.imLearner = s.imLearner := by
  have hresp (resp : RespMsg) (htype : resp.type = .preVote ∨ resp.type = .requestVote) :
      Elects env s (s.handlePeerResp env resp).1 := by
    dsimp only [handlePeerResp]
    split
    · exact .steady (updateTerm_steady s resp.term)
    rcases htype with htype | htype
    · rw [htype]
      exact handlePrevoteResp_elects s env resp
    · rw [htype]
      exact handleVoteResp_elects s env resp
  cases input with
  | electionTimeout =>
    cases h
    exact (handleElectionTimeout_elects s env).electorate
  | request req =>
    rcases hin with hbody | ⟨resp, heq, _⟩
    · have hs := processReq_takeover hbody h
      rw [hs]
      exact (handleLeadershipTakeover_elects s env).electorate
    · cases heq
  | response resp =>
    cases h
    refine (hresp resp ?_).electorate
    rcases hin with hin | ⟨resp', heq, htype⟩
    · exact .inl hin.1
    · cases heq
      exact .inr htype
  | _ =>
    rcases hin with hin | ⟨resp, heq, _⟩
    · exact hin.elim
    · cases heq

theorem getQuorumForElection_electorate (hq : s.params.customElectionQuorumSize ≤ 0)
    (hl : s.imLearner = false) : s.getQuorumForElection = s.electorate.length / 2 := by
  rw [getQuorumForElection, if_pos (.inl hq)]
  simp [getNumVotingMembers, electorate, hl]

end RaftServer

/-- What a client or an operator may ask for. -/
def ReqBody.isCommand : ReqBody → Bool
  | .clientRequest _ | .addServer _ | .removeServer _ => true
  | _ => false

/-- How a deployment is started: the spare servers have configurations of their own. -/
structure Setup where
  voting : VotingConfig
  spare : List Int
  spareIds : ∀ i ∈ spare, 0 ≤ i
  own : Int → ClusterConfig
  params : Int → RaftParams

/-- All servers there are; `joined` are those that take part at the moment. -/
structure Deployment extends Cluster where
  joined : List Int

namespace Deployment

open RaftServer

def init (p : Setup) : Deployment :=
  let first := p.voting.config.servers.map SrvConfig.id
  { members := first ++ p.spare
    srv := fun i => RaftServer.fresh i (p.params i) (if i ∈ first then p.voting.config else p.own i)
    reqs := []
    resps := []
    joined := first }

inductive Action
  | act (i : Int) (env : Env) (input : Input)
  | ask (i : Int) (env : Env) (body : ReqBody)
  | recvReq (k : Nat) (env : Env)
  | recvResp (k : Nat) (env : Env)
  | recvExtResp (k : Nat) (env : Env) (fromJoiner : Bool)
  | stop (i : Int)
  deriving DecidableEq, Repr

/-- A server with its input, and what is left in the network once the input was taken from it.
The response to a command leaves the deployment. -/
structure Turn where
  i : Int
  env : Env
  input : Input
  reqs : List ReqMsg
  resps : List RespMsg
  answers : Bool := true

def command (i : Int) (body : ReqBody) : ReqMsg := { Cluster.clientReq i [] with body := body }

def turn (d : Deployment) : Action → Option Turn
  | .act i env input => if input.isInner then some ⟨i, env, input, d.reqs, d.resps, true⟩ else none
  | .ask i env body =>
    if body.isCommand then some ⟨i, env, .request (command i body), d.reqs, d.resps, false⟩ else none
  | .recvReq k env =>
    (d.reqs[k]?).map (fun m => ⟨m.dst, env, .request m, d.reqs.eraseIdx k, d.resps, true⟩)
  | .recvResp k env =>
    (d.resps[k]?).map (fun m => ⟨m.dst, env, .response m, d.reqs, d.resps.eraseIdx k, true⟩)
  | .recvExtResp k env joiner =>
    (d.resps[k]?).map (fun m => ⟨m.dst, env, .extResponse m joiner, d.reqs, d.resps.eraseIdx k, true⟩)
  | .stop _ => none

def Turn.emits (x : Turn) (o : Output) : Output := if x.answers then o else { sent := o.sent }

/-- The state after the server whose turn it is went to state `t` with the given output. -/
def Turn.after (x : Turn) (d : Deployment) (t : RaftServer) (o : Output) : Deployment :=
  { toCluster := Cluster.update { d.toCluster with reqs := x.reqs, resps := x.resps } x.i t (x.emits o)
    joined := d.joined.insert x.i }

/-- A server outside the cluster reacts to invitations only. -/
def take (d : Deployment) (x : Turn) : Option Deployment :=
  if x.i ∈ d.joined ∨ (x.i ∈ d.members ∧ x.input.isInvitation = true) then
    ((d.srv x.i).step x.env x.input).map (fun r => x.after d r.1 r.2)
  else none

def step (d : Deployment) : Action → Option Deployment
  | .stop i => some { d with joined := d.joined.filter (fun j => j != i) }
  | a => (d.turn a).bind d.take

abbrev run : Deployment → List Action → Option Deployment := Runs.run step

/-! ## Whose step it is -/

/-- Where an input comes from, and what is left in the network without it. -/
inductive Took (d : Deployment) (i : Int) : Input → List ReqMsg → List RespMsg → Prop
  | inner {input : Input} (h : input.isInner = true) : Took d i input d.reqs d.resps
  | command {body : ReqBody} (h : body.isCommand = true) :
      Took d i (.request (command i body)) d.reqs d.resps
  | request {k : Nat} {m : ReqMsg} (hk : d.reqs[k]? = some m) (hdst : m.dst = i) :
      Took d i (.request m) (d.reqs.eraseIdx k) d.resps
  | response {k : Nat} {m : RespMsg} (hk : d.resps[k]? = some m) (hdst : m.dst = i) :
      Took d i (.response m) d.reqs (d.resps.eraseIdx k)
  | extResponse {k : Nat} {m : RespMsg} (hk : d.resps[k]? = some m) (joiner : Bool) :
      Took d i (.extResponse m joiner) d.reqs (d.resps.eraseIdx k)

variable {d d' : Deployment} {a : Action} {x : Turn} {i : Int} {input : Input}
  {reqs : List ReqMsg} {resps : List RespMsg}

theorem turn_took (h : d.turn a = some x) : d.Took x.i x.input x.reqs x.resps := by
  cases a with
  | act i env input =>
    simp only [turn] at h
    split at h
    · rename_i hin
      cases h
      exact .inner hin
    · cases h
  | ask i env body =>
    simp only [turn] at h
    split at h
    · rename_i hin
      cases h
      exact .command hin
    · cases h
  | recvReq k env =>
    obtain ⟨m, hk, rfl⟩ := map_eq_some_iff.mp h
    exact .request hk rfl
  | recvResp k env =>
    obtain ⟨m, hk, rfl⟩ := map_eq_some_iff.mp h
    exact .response hk rfl
  | recvExtResp k env joiner =>
    obtain ⟨m, hk, rfl⟩ := map_eq_some_iff.mp h
    exact .extResponse hk joiner
  | stop i => cases h

theorem Took.sublist (h : d.Took i input reqs resps) :
    reqs.Sublist d.reqs ∧ resps.Sublist d.resps := by
  cases h with
  | inner _ | command _ => exact ⟨Sublist.refl _, Sublist.refl _⟩
  | request _ _ => exact ⟨eraseIdx_sublist _ _, Sublist.refl _⟩
  | response _ _ | extResponse _ _ => exact ⟨Sublist.refl _, eraseIdx_sublist _ _⟩

def MayAct (d : Deployment) (x : Turn) : Prop :=
  x.i ∈ d.joined ∨ (x.i ∈ d.members ∧ x.input.isInvitation = true)

/-- A step is the shutdown of a server, or the step of one server. -/
inductive Moves (d : Deployment) (a : Action) (d' : Deployment) : Prop
  | stopped (i : Int) (hd : d' = { d with joined := d.joined.filter (fun j => j != i) })
  | server (x : Turn) (t : RaftServer) (o : Output) (hx : d.turn a = some x) (hmay : d.MayAct x)
      (hstep : (d.srv x.i).step x.env x.input = some (t, o)) (hd : d' = x.after d t o)

theorem take_eq_some (h : d.take x = some d') : d.MayAct x ∧
    ∃ t o, (d.srv x.i).step x.env x.input = some (t, o) ∧ d' = x.after d t o := by
  unfold take at h
  split at h
  · rename_i hmay
    obtain ⟨⟨t, o⟩, hstep, rfl⟩ := map_eq_some_iff.mp h
    exact ⟨hmay, t, o, hstep, rfl⟩
  · cases h

theorem step_moves (h : d.step a = some d') : d.Moves a d' := by
  have hturn (hbind : (d.turn a).bind d.take = some d') : d.Moves a d' := by
    obtain ⟨x, hx, htake⟩ := bind_eq_some_iff.mp hbind
    obtain ⟨hmay, t, o, hstep, hd⟩ := take_eq_some htake
    exact .server x t o hx hmay hstep hd
  cases a with
  | stop i =>
    cases h
    exact .stopped i rfl
  | _ => exact hturn h

/-! ## One configuration after the other -/

/-- Each configuration entry of any log was committed by a server that has it. -/
def ConfsCommitted (d : Deployment) : Prop :=
  ∀ j ∈ d.members, ∀ n < (d.srv j).log.nextSlot, ∀ e ∈ (d.srv j).log.entryAt n, e.isConf = true →
    ∃ l ∈ d.members, (d.srv l).log.entryAt n = some e ∧ n ≤ (d.srv l).quickCommitIndex

/-- A leader has a configuration entry that it did not have before. -/
def AppendsConf (s t : RaftServer) : Prop :=
  t.role = .leader ∧ ∃ n < t.log.nextSlot, s.log.nextSlot ≤ n ∧
    ∃ e ∈ t.log.entryAt n, e.isConf = true

/-- A configuration entry is appended only after all earlier ones were committed. -/
def Serial (d : Deployment) (a : Action) : Prop :=
  ∀ d' ∈ d.step a, (∃ i ∈ d.members, AppendsConf (d.srv i) (d'.srv i)) → d.ConfsCommitted

instance (d : Deployment) : Decidable d.ConfsCommitted := by
  unfold ConfsCommitted
  infer_instance

instance (s t : RaftServer) : Decidable (AppendsConf s t) := by
  unfold AppendsConf
  infer_instance

instance (d : Deployment) (a : Action) : Decidable (d.Serial a) := by
  unfold Serial
  infer_instance

end Deployment

end Raft
end Xio
