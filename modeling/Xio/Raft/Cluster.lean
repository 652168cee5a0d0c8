import Xio.Lib.Runs
import Xio.Raft.Process

/-!
# Raft.Cluster — a fixed cluster over an unreliable network

The servers of one configuration with the messages that are on their way. A message may stay in
the network forever (loss), may be delivered after any other (delay, reordering), and append
messages may be delivered more than once. Every server takes the steps of `RaftServer.step`
that do not change the membership.
-/

namespace Xio
namespace Raft

open List RaftServer

/-- A configuration of voting members. -/
structure VotingConfig where
  config : ClusterConfig
  nodup : (config.servers.map SrvConfig.id).Nodup
  nonempty : config.servers ≠ []
  voting : ∀ c ∈ config.servers, c.learner = false ∧ c.newJoiner = false
  ids : ∀ c ∈ config.servers, 0 ≤ c.id

/-- Parameters with the default quorums. -/
structure DefaultQuorums (p : RaftParams) : Prop where
  commit : p.customCommitQuorumSize = 0
  election : p.customElectionQuorumSize = 0
  snapshotReceivers : p.excludeSnpReceiverFromQuorum = false
  smallClusters : p.autoAdjustQuorumForSmallCluster = false
  fullConsensus : p.useFullConsensusAmongHealthyMembers = false

/-- A server started for the first time with the given configuration. -/
def RaftServer.fresh (id : Int) (params : RaftParams) (config : ClusterConfig) : RaftServer :=
  RaftServer.restart { id := id, params := params, config := config } 0

structure Cluster where
  members : List Int
  srv : Int → RaftServer
  reqs : List ReqMsg
  resps : List RespMsg

namespace Cluster

def init (v : VotingConfig) (params : Int → RaftParams) : Cluster :=
  { members := v.config.servers.map SrvConfig.id
    srv := fun i => RaftServer.fresh i (params i) v.config
    reqs := []
    resps := [] }

/-- Steps of a server that leave the membership alone. -/
def Allowed : RaftServer.Input → Bool
  | .electionTimeout | .heartbeatTimeout _ | .sendAppend _ _ _ | .appendEntriesInBg
  | .logAppendCompletion _ | .finishSnapshot _ | .adjustCommit | .commitNext | .createSnapshot _
  | .snapshotCompleted _ | .yieldLeadership _ _ | .requestLeadership | .restart _ | .peerError _ => true
  | _ => false

inductive Action
  | act (i : Int) (env : Env) (input : RaftServer.Input)
  | client (i : Int) (env : Env) (bufs : List Bytes)
  | recvReq (k : Nat) (env : Env)
  | recvResp (k : Nat) (env : Env)
  | dupReq (k : Nat)
  | dupResp (k : Nat)
  deriving DecidableEq, Repr

/-- The state after server `i` made a step with the given output. -/
def update (c : Cluster) (i : Int) (s : RaftServer) (o : Output) : Cluster :=
  { c with
    srv := fun j => if j = i then s else c.srv j
    reqs := o.sent ++ c.reqs
    resps := o.resp.toList ++ c.resps }

/-- One server's step, with what it sends put into the network. -/
def local_ (c : Cluster) (i : Int) (env : Env) (input : RaftServer.Input) : Option Cluster :=
  if i ∈ c.members then ((c.srv i).step env input).map (fun r => c.update i r.1 r.2) else none

def isAppendReq (m : ReqMsg) : Bool :=
  match m.body with
  | .appendEntries _ => true
  | _ => false

def step (c : Cluster) : Action → Option Cluster
  | .act i env input => if Allowed input then c.local_ i env input else none
  | .client i env bufs =>
    -- the response goes back to the client
    if i ∈ c.members then some (c.update i ((c.srv i).handleCliReq env bufs).1 {}) else none
  | .recvReq k env =>
    match c.reqs[k]? with
    | none => none
    | some m => local_ { c with reqs := c.reqs.eraseIdx k } m.dst env (.request m)
  | .recvResp k env =>
    match c.resps[k]? with
    | none => none
    | some m => local_ { c with resps := c.resps.eraseIdx k } m.dst env (.response m)
  | .dupReq k =>
    match c.reqs[k]? with
    | none => none
    | some m => if isAppendReq m then some { c with reqs := m :: c.reqs } else none
  | .dupResp k =>
    match c.resps[k]? with
    | none => none
    | some m =>
      if m.type = .appendEntries then some { c with resps := m :: c.resps } else none

abbrev run : Cluster → List Action → Option Cluster := Runs.run step

/-! ## Whose step it is -/

/-- A client's request, as the server that receives it sees it. -/
def clientReq (i : Int) (bufs : List Bytes) : ReqMsg :=
  { term := 0
    src := -1
    dst := i
    lastLogTerm := 0
    lastLogIdx := 0
    commitIdx := 0
    body := .clientRequest bufs }

/-- The server that an action is about, with its input. -/
def input (c : Cluster) : Action → Option (Int × Env × RaftServer.Input)
  | .act i env input => some (i, env, input)
  | .client i env bufs => some (i, env, .request (clientReq i bufs))
  | .recvReq k env => (c.reqs[k]?).map (fun m => (m.dst, env, .request m))
  | .recvResp k env => (c.resps[k]?).map (fun m => (m.dst, env, .response m))
  | .dupReq _ | .dupResp _ => none

/-- What is left in the network once the input was taken from it. -/
inductive Took (c : Cluster) (i : Int) : RaftServer.Input → List ReqMsg → List RespMsg → Prop
  | inner {input : RaftServer.Input} (h : Allowed input = true) : Took c i input c.reqs c.resps
  | client (bufs : List Bytes) : Took c i (.request (clientReq i bufs)) c.reqs c.resps
  | request {k : Nat} {m : ReqMsg} (hk : c.reqs[k]? = some m) (hdst : m.dst = i) :
      Took c i (.request m) (c.reqs.eraseIdx k) c.resps
  | response {k : Nat} {m : RespMsg} (hk : c.resps[k]? = some m) (hdst : m.dst = i) :
      Took c i (.response m) c.reqs (c.resps.eraseIdx k)

/-- What gets into the network of a step's output. A client's response leaves the cluster. -/
def Emits (c : Cluster) (i : Int) (input : RaftServer.Input) (o o' : Output) : Prop :=
  o' = o ∧ (∀ bufs, input = .request (clientReq i bufs) → clientReq i bufs ∈ c.reqs) ∨
    o' = { sent := o.sent } ∧ ∃ bufs, input = .request (clientReq i bufs)

theorem Emits.cases {c : Cluster} {i : Int} {input : Input} {o o' : Output}
    (h : c.Emits i input o o') : o' = o ∨ o' = { sent := o.sent } := h.imp And.left And.left

theorem Emits.sent {c : Cluster} {i : Int} {input : Input} {o o' : Output}
    (h : c.Emits i input o o') : o'.sent = o.sent := by
  rcases h.cases with rfl | rfl <;> rfl

/-- A step is the step of one server, or a message that is on its way is there twice. -/
inductive Moves (c : Cluster) (a : Action) (c' : Cluster) : Prop
  | server {i : Int} {env : Env} {input : RaftServer.Input} {t : RaftServer} {o o' : Output}
      {reqs : List ReqMsg} {resps : List RespMsg} (hin : c.input a = some (i, env, input))
      (hi : i ∈ c.members) (htook : c.Took i input reqs resps)
      (hstep : (c.srv i).step env input = some (t, o))
      (hout : c.Emits i input o o')
      (hc : c' = update { c with reqs := reqs, resps := resps } i t o')
  | dupReq {m : ReqMsg} (hm : m ∈ c.reqs) (happ : isAppendReq m = true)
      (hc : c' = { c with reqs := m :: c.reqs })
  | dupResp {m : RespMsg} (hm : m ∈ c.resps) (happ : m.type = .appendEntries)
      (hc : c' = { c with resps := m :: c.resps })

theorem local_eq_some {c c' : Cluster} {i : Int} {env : Env} {input : Input}
    (h : c.local_ i env input = some c') :
    i ∈ c.members ∧ ∃ t o, (c.srv i).step env input = some (t, o) ∧ c' = c.update i t o := by
  unfold local_ at h
  split at h
  · rename_i hi
    obtain ⟨⟨t, o⟩, hstep, rfl⟩ := Option.map_eq_some_iff.mp h
    exact ⟨hi, t, o, hstep, rfl⟩
  · cases h

theorem step_moves {c c' : Cluster} {a : Action} (h : c.step a = some c') : c.Moves a c' := by
  cases a with
  | act i env input =>
    simp only [step] at h
    split at h
    · rename_i hallowed
      obtain ⟨hi, t, o, hstep, hc⟩ := local_eq_some h
      refine .server rfl hi (.inner hallowed) hstep (.inl ⟨rfl, ?_⟩) hc
      intro bufs heq
      cases heq ▸ hallowed
    · cases h
  | client i env bufs =>
    simp only [step] at h
    split at h
    · rename_i hi
      cases h
      -- the request changes no term, so the handler runs on the server as it is
      have hstep : (c.srv i).step env (.request (clientReq i bufs)) = some
          (((c.srv i).handleCliReq env bufs).1,
            { resp := some ((c.srv i).handleCliReq env bufs).2 }) := rfl
      exact .server rfl hi (.client bufs) hstep (.inr ⟨rfl, bufs, rfl⟩) rfl
    · cases h
  | recvReq k env =>
    simp only [step] at h
    split at h
    · cases h
    · rename_i m hk
      obtain ⟨hi, t, o, hstep, hc⟩ := local_eq_some h
      refine .server (by simp [input, hk]) hi (.request hk rfl) hstep (.inl ⟨rfl, ?_⟩) hc
      intro bufs heq
      rw [← Input.request.inj heq]
      exact mem_of_getElem? hk
  | recvResp k env =>
    simp only [step] at h
    split at h
    · cases h
    · rename_i m hk
      obtain ⟨hi, t, o, hstep, hc⟩ := local_eq_some h
      refine .server (by simp [input, hk]) hi (.response hk rfl) hstep (.inl ⟨rfl, ?_⟩) hc
      intro bufs heq
      cases heq
  | dupReq k =>
    simp only [step] at h
    split at h
    · cases h
    · rename_i m hk
      split at h
      · rename_i happ
        cases h
        exact .dupReq (mem_of_getElem? hk) happ rfl
      · cases h
  | dupResp k =>
    simp only [step] at h
    split at h
    · cases h
    · rename_i m hk
      split at h
      · rename_i happ
        cases h
        exact .dupResp (mem_of_getElem? hk) happ rfl
      · cases h

theorem Took.reqs_subset {c : Cluster} {i : Int} {input : Input} {reqs : List ReqMsg}
    {resps : List RespMsg} (h : c.Took i input reqs resps) :
    reqs.Sublist c.reqs ∧ resps.Sublist c.resps := by
  cases h with
  | inner _ | client _ => exact ⟨Sublist.refl _, Sublist.refl _⟩
  | request _ _ => exact ⟨eraseIdx_sublist _ _, Sublist.refl _⟩
  | response _ _ => exact ⟨Sublist.refl _, eraseIdx_sublist _ _⟩

end Cluster

end Raft
end Xio
