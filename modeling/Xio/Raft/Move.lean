import Xio.Raft.LogWrite
import Xio.Raft.RoleChange

/-!
# Raft.Move — everything a step can do

`Move` says once what a step of a server can do, over every input and every role: which operation of
the model the new state comes from, under which tests of the source it is reached, and what is sent
where that matters. Changes of the role, the term and the timers are behind `Steady`, so that the
moves are about the log, the peers, the indices, the snapshots and the configuration.

Eight operations append a configuration entry. They differ in the configuration they start from and in
what they record, so `ConfOp` keeps one value per operation, with its edit, its base and its records.

- `step_moves`: the inversion of `RaftServer.step`

The facts about logs, rosters, configurations and commit indices are case analyses over it and do not
look into the handlers again.
-/

namespace Xio
namespace Raft

open List Option

structure ConfView where
  log : LogStore
  applied : Nat
  config : ClusterConfig
  uncommitted : Option ClusterConfig
  changing : Bool
  deriving DecidableEq, Repr

def RaftServer.confView (s : RaftServer) : ConfView :=
  ⟨s.log, s.smCommitIndex, s.config, s.uncommittedConfig, s.configChanging⟩

/-- The latest configuration among the entries that are not applied, else the current one. -/
def ConfView.lastConfigInLog (v : ConfView) : ClusterConfig :=
  let start := max (v.applied + 1) v.log.startIndex
  ((v.log.entries.drop (start - v.log.startIndex)).filterMap LogEntry.conf?).getLastD v.config

/-! ## The operations -/

inductive ConfOp
  | addServer (sc : SrvConfig)
  | removeServer (id : Int)
  | setPriority (id priority : Int)
  | setUserCtx (ctx : Bytes)
  | updateSrvConfig (sc : SrvConfig)
  | flipLearnerFlag (id : Int) (flag : Bool)
  | promoteNewJoiner (id : Int)
  | becomeLeader
  deriving DecidableEq, Repr

namespace ConfOp

/-- What the operation is for. -/
def edit : ConfOp → ClusterConfig → ClusterConfig
  | addServer sc, c => c.addServer sc
  | removeServer id, c => c.removeServer id
  | setPriority id priority, c => c.mapServer id (fun sc => { sc with priority := priority })
  | setUserCtx ctx, c => { c with userCtx := ctx }
  | updateSrvConfig new, c => c.mapServer new.id (fun _ => new)
  | flipLearnerFlag id flag, c => c.mapServer id (fun sc => { sc with learner := flag })
  | promoteNewJoiner id, c => c.mapServer id (fun sc => { sc with newJoiner := false })
  | becomeLeader, c => c

/-- The configuration that the code applies the edit to. -/
def base (v : ConfView) : ConfOp → ClusterConfig
  | addServer _ | removeServer _ | setPriority _ _ => v.uncommitted.getD v.config
  | becomeLeader => v.lastConfigInLog
  | _ => v.config

/-- The operation sets `uncommitted_config_`, together with `config_changing_`. -/
def records : ConfOp → Bool
  | addServer _ | removeServer _ | setPriority _ _ | flipLearnerFlag _ _
  | promoteNewJoiner _ => true
  | _ => false

def changesMembers : ConfOp → Bool
  | addServer _ | removeServer _ => true
  | _ => false

def newConf (op : ConfOp) (v : ConfView) : ClusterConfig :=
  op.edit ((op.base v).setLogIdx v.log.nextSlot)

def apply (op : ConfOp) (term : Nat) (v : ConfView) : ConfView :=
  { v with
    log := v.log.append ⟨term, .conf (op.newConf v)⟩
    uncommitted := if op.records then some (op.newConf v) else v.uncommitted
    changing := v.changing || op.records || op == becomeLeader }

end ConfOp

/-! ## Messages -/

/-- Requests that carry entries or a snapshot. -/
def ReqMsg.copies (m : ReqMsg) : Bool :=
  match m.body with
  | .appendEntries _ | .installSnapshot _ => true
  | _ => false

/-- Requests of an election, and notes about the leadership. -/
def ReqMsg.isCanvass (m : ReqMsg) : Bool :=
  match m.body with
  | .requestVote _ | .preVote | .customNotification _ => true
  | _ => false

/-- Responses by which a peer confirms what it has. -/
def RespMsg.confirms (m : RespMsg) : Bool :=
  m.accepted && (m.type == .appendEntries || (m.type == .installSnapshot && m.snapshotDone))

namespace RaftServer

variable {s t u : RaftServer} {env : Env} {input : Input} {o : Output} {req : ReqMsg}

/-- Nothing is sent but requests of an election, and nothing is confirmed. -/
structure Plain (o : Output) : Prop where
  sent : ∀ m ∈ o.sent, m.isCanvass = true
  resp : ∀ m, o.resp = some m → m.confirms = false

theorem Plain.nil : Plain {} := ⟨nofun, nofun⟩

theorem Plain.of_resp {m : RespMsg} (h : m.confirms = false) : Plain { resp := some m } := by
  refine ⟨(fun _ hm => nomatch hm), ?_⟩
  rintro m' ⟨⟩
  exact h

theorem Plain.of_sent {sent : List ReqMsg} (h : ∀ m ∈ sent, m.isCanvass = true) :
    Plain { sent := sent } := ⟨h, (fun _ hm => nomatch hm)⟩

def acceptedResp (s : RaftServer) (req : ReqMsg) (es : List LogEntry) : RespMsg :=
  { term := req.term
    type := .appendEntries
    src := s.id
    dst := req.src
    nextIdx := req.lastLogIdx + es.length + 1
    accepted := true }

def clientEntries (s : RaftServer) (bufs : List Bytes) : List LogEntry :=
  bufs.map (fun b => ⟨s.state.term, .appLog b⟩)

/-! ## Joining and leaving -/

/-- A snapshot response of the joining server, as far as its transfer is not looked at. -/
def joinerAnswered (resp : RespMsg) (p : Peer) : Peer :=
  if resp.accepted then p else { p with nextLogIdx := resp.nextIdx }

/-- The rest of the response, for the transfer that the joining server has. -/
def joinerInstalled (resp : RespMsg) (p : Peer) (ctx : SnapshotSyncCtx) : Peer :=
  if resp.snapshotDone then
    { p with
      nextLogIdx := ctx.snapshot.lastLogIdx + 1
      matchedIdx := ctx.snapshot.lastLogIdx
      snpSyncCtx := none }
  else { p with snpSyncCtx := some { ctx with offset := resp.nextIdx } }

/-- The joining server when `sync_log_to_new_srv` is called, and the index it is called with. -/
inductive Joining (s : RaftServer) : Input → Option Peer → Nat → Prop
  | retried {q : Option Peer} (hq : s.srvToJoin = q) : Joining s .retryJoinSync q 0
  | welcomed {resp : RespMsg} {q : Option Peer} (htype : resp.type = .joinCluster)
      (hacc : resp.accepted = true) (hq : s.srvToJoin = q) :
      Joining s (.extResponse resp true) q resp.nextIdx
  | synced {resp : RespMsg} {joiner : Bool} {p : Peer} (htype : resp.type = .syncLog)
      (hp : s.srvToJoin = some p) : Joining s (.extResponse resp joiner)
        (some { p with nextLogIdx := resp.nextIdx, matchedIdx := resp.nextIdx - 1 }) resp.nextIdx
  | installed {resp : RespMsg} {joiner : Bool} {p : Peer} {ctx : SnapshotSyncCtx}
      (htype : resp.type = .installSnapshot) (hp : s.srvToJoin = some p)
      (hctx : (joinerAnswered resp p).snpSyncCtx = some ctx) : Joining s (.extResponse resp joiner)
        (some (joinerInstalled resp (joinerAnswered resp p) ctx))
        (joinerInstalled resp (joinerAnswered resp p) ctx).nextLogIdx

/-- What becomes of the joining server where no configuration is appended. -/
inductive JoinerNoted (env : Env) (s : RaftServer) : Input → Option Peer → Prop
  | answered {resp : RespMsg} {joiner : Bool} {p : Peer} (htype : resp.type = .installSnapshot)
      (hp : s.srvToJoin = some p) : JoinerNoted env s (.extResponse resp joiner)
        (some (joinerAnswered resp p))
  | waits {input : Input} {q : Option Peer} {start : Nat} (h : Joining s input q start) :
      JoinerNoted env s input q
  | supplied {input : Input} {p p' : Peer} {req : ReqMsg} {start : Nat}
      (h : Joining s input (some p) start)
      (hreq : s.createSyncSnapshotReq env p start = some (p', req)) :
      JoinerNoted env s input (some p')

/-- The joining server is heard of by responses about joining and by its own timer. -/
theorem JoinerNoted.about {input : Input} {q : Option Peer} (h : JoinerNoted env s input q) :
    input = .retryJoinSync ∨ ∃ resp joiner, input = .extResponse resp joiner := by
  have hjoining {q : Option Peer} {start : Nat} (h : Joining s input q start) :
      input = .retryJoinSync ∨ ∃ resp joiner, input = .extResponse resp joiner := by
    cases h with
    | retried _ => exact .inl rfl
    | _ => exact .inr ⟨_, _, rfl⟩
  cases h with
  | answered _ _ => exact .inr ⟨_, _, rfl⟩
  | waits h => exact hjoining h
  | supplied h _ => exact hjoining h

/-- The only peer is dropped without waiting for anything. -/
def dropLone (s : RaftServer) (id : Int) : RaftServer :=
  if s.peers.length = 1 then (s.removePeerFromPeers id).resetSrvToLeave else s

/-- A request failed, and the snapshot transfer of the peer may have timed out. -/
def dropTransfer (s : RaftServer) (env : Env) (dst : Int) : RaftServer :=
  if env.timedOut then s.updatePeer dst (fun p => { p with snpSyncCtx := none }) else s

/-- A request failed that concerns a server which was asked to leave. -/
inductive LeaveFailed (env : Env) (s : RaftServer) : Input → Int → RaftServer → Prop
  | ext {dst : Int} (hpeer : (s.findPeer dst).isSome = true) :
      LeaveFailed env s (.extError dst true) dst s
  | peer {dst : Int} {p : Peer} (hp : s.findPeer dst = some p) (hleave : p.leaveRequested = true) :
      LeaveFailed env s (.peerError dst) dst (s.dropTransfer env dst)

/-- The server that is removed is remembered if it is a peer. -/
def startLeaving (s : RaftServer) (id : Int) : RaftServer :=
  if (s.findPeer id).isSome then
    { s with srvToLeave := some id, srvToLeaveTargetIdx := s.log.nextSlot }
  else s

/-- The operation that an input stands for, while the server is in the given state. -/
def IssuedBy (s : RaftServer) : Input → ConfOp → Prop
  | .setUserCtx ctx, op => op = .setUserCtx ctx
  | .updateSrvConfig srv, op => op = .updateSrvConfig srv
  | .flipLearnerFlag id flag, op => op = .flipLearnerFlag id flag
  | .setPriority id priority _, op => op = .setPriority id priority
  | .response resp, op =>
    (op = .promoteNewJoiner resp.src ∧ s.configChanging = false ∧ resp.type = .appendEntries) ∨
    (op = .becomeLeader ∧ (resp.type = .preVote ∨ resp.type = .requestVote))
  | .electionTimeout, op => op = .becomeLeader
  | .request req, op =>
    op = .becomeLeader ∧ req.body = .customNotification (some .leadershipTakeover)
  | .extResponse resp _, op =>
    (∃ sc, s.confToAdd = some sc ∧ op = .addServer sc) ∨ op = .removeServer resp.src
  | .retryJoinSync, op => ∃ sc, s.confToAdd = some sc ∧ op = .addServer sc
  | .peerError dst, op => op = .removeServer dst
  | .extError dst _, op => op = .removeServer dst
  | _, _ => False

/-- The input writes a priority into the committed configuration. -/
def EditsInPlace (s : RaftServer) : Input → Prop
  | .setPriority id priority _ => s.id ≠ s.leader ∨ s.id = id ∧ priority = 0
  | .request req => ∃ change, req.body = .priorityChange change
  | _ => False

/-! ## Configuration operations -/

/-- The tail of every configuration operation. -/
def operate (s : RaftServer) (env : Env) (op : ConfOp) : RaftServer :=
  let c := op.newConf s.confView
  (if op.records then s.markChanging c else s).appendConf env c

/-- The server when an operation appends its entry, with the tests that lead there. -/
inductive Readied (env : Env) (s : RaftServer) : Input → ConfOp → RaftServer → Prop
  | userCtx {ctx : Bytes} : Readied env s (.setUserCtx ctx) (.setUserCtx ctx) s
  | srvConfig {srv : SrvConfig} (hlead : s.isLeader = true ∨ env.tested = true) :
      Readied env s (.updateSrvConfig srv) (.updateSrvConfig srv) s
  | learner {id : Int} {flag : Bool} (hrole : s.role = .leader ∨ env.tested = true) :
      Readied env s (.flipLearnerFlag id flag) (.flipLearnerFlag id flag) s
  | priority {id priority : Int} {bc : Bool} (hid : s.id = s.leader)
      (hself : ¬ (s.id = id ∧ priority = 0)) :
      Readied env s (.setPriority id priority bc) (.setPriority id priority) s
  | promoted {resp : RespMsg} {p : Peer} (htype : resp.type = .appendEntries)
      (hterm : resp.term ≤ s.state.term)
      (hp : ((s.checkSrvToLeaveTimeout env).recordAppendResp env resp).findPeer resp.src = some p)
      (hready : ((s.checkSrvToLeaveTimeout env).recordAppendResp env resp).readyForPromotion p =
        true) :
      Readied env s (.response resp) (.promoteNewJoiner resp.src)
        ((s.checkSrvToLeaveTimeout env).recordAppendResp env resp)
  | joined {input : Input} {sc : SrvConfig} {p : Peer} {start : Nat}
      (h : Joining s input (some p) start) (hsc : s.confToAdd = some sc) :
      Readied env s input (.addServer sc) (s.setSrvToJoin p)
  | left {resp : RespMsg} {joiner : Bool} (htype : resp.type = .leaveCluster)
      (hacc : resp.accepted = true) (hnone : s.srvToLeave = none) :
      Readied env s (.extResponse resp joiner) (.removeServer resp.src) (s.startLeaving resp.src)
  | unheard {input : Input} {id : Int} {w : RaftServer} (h : LeaveFailed env s input id w)
      (hnone : (w.dropLone id).srvToLeave = none) :
      Readied env s input (.removeServer id) ((w.dropLone id).startLeaving id)

/-! ## The inversion -/

/-- What a message says about one peer. -/
inductive PeerTold (env : Env) (s : RaftServer) : Input → Int → (Peer → Peer) → Prop
  | installed {resp : RespMsg} (htype : resp.type = .installSnapshot)
      (hterm : resp.term ≤ s.state.term) :
      PeerTold env s (.response resp) resp.src (Peer.onInstallSnapshotResp resp)
  | located {resp : RespMsg} (htype : resp.type = .customNotification)
      (hterm : resp.term ≤ s.state.term) (hacc : resp.accepted = true) :
      PeerTold env s (.response resp) resp.src (fun p => { p with nextLogIdx := resp.nextIdx })
  | aborted {dst : Int} : PeerTold env s (.peerError dst) dst (fun p => { p with snpSyncCtx := none })

/-- The handler starts with the check of the timer of the leaving server. -/
def Input.checksLeaver : Input → Bool
  | .heartbeatTimeout _ => true
  | .request req =>
    match req.body with
    | .addServer _ | .removeServer _ => true
    | _ => false
  | _ => false

inductive Move (env : Env) (s : RaftServer) : Input → RaftServer → Output → Prop
  /-- Terms, votes, timers and roles, and whatever is refused. -/
  | steady {input : Input} {t : RaftServer} {o : Output} (h : Steady s t) (ho : Plain o) :
      Move env s input t o
  | elected {input : Input} {t : RaftServer} {o : Output} (u : RaftServer) (hu : Steady s u)
      (hconf : u.uncommittedConfig = s.uncommittedConfig)
      (ht : Steady (u.takeLeadership.requestAppendEntries env) t) (hrole : t.role = .leader)
      (hin : IssuedBy s input .becomeLeader) (ho : Plain o) : Move env s input t o
  | outOfRange {req : ReqMsg} {t : RaftServer} {o : Output} (u : RaftServer) (hu : Steady s u)
      (ht : Steady { u with outOfLogRange := true } t) (ho : Plain o) : Move env s (.request req) t o
  | stored {req : ReqMsg} {bufs : List Bytes} {resp : RespMsg} (k : Nat)
      (hbody : req.body = .clientRequest bufs) (hrole : s.role = .leader)
      (hk : k = if bufs = [] then s.precommitIndex
        else max s.precommitIndex (s.log.nextSlot + bufs.length - 1)) :
      Move env s (.request req) (requestAppendEntries
        { s with log := s.log.appendLoop (s.clientEntries bufs), precommitIndex := k } env)
        { resp := some resp }
  | accepted {req : ReqMsg} {es : List LogEntry} (u : RaftServer)
      (hbody : req.body = .appendEntries es) (hu : Steady s u)
      (hterm : s.state.term ≤ req.term ∧ u.state.term = req.term) (hrole : u.role ≠ .leader)
      (hokay : u.refusesAppend req = false) :
      Move env s (.request req) (u.acceptEntries req es) { resp := some (s.acceptedResp req es) }
  | parked {req : ReqMsg} {obj : SnapshotSyncReq} (u : RaftServer)
      (hbody : req.body = .installSnapshot (some obj)) (hu : Steady s u)
      (hterm : u.state.catchingUp = false → s.state.term ≤ req.term ∧ u.state.term = req.term)
      (hrole : u.state.catchingUp = false → u.role ≠ .leader) :
      Move env s (.request req)
        (u.startReceiving.parkInstall ⟨obj.snapshot, u.state.term, req.src, env.nextObject⟩) {}
  | packed {req : ReqMsg} {es : List LogEntry} {o : Output} (l : LogStore)
      (hbody : req.body = .syncLog (some es)) (hcatch : s.state.catchingUp = true)
      (hl : l = s.log.applyPack (req.lastLogIdx + 1) es) :
      Move env s (.request req)
        (RaftServer.commit { s with log := l, precommitIndex := l.nextSlot - 1 } (l.nextSlot - 1)) o
  | joins {req : ReqMsg} {c : ClusterConfig} {o : Output} (hbody : req.body = .joinCluster (some c))
      (hlone : ¬ 1 < s.config.servers.length) (hfree : ¬ (s.srvToJoin.isSome ∧ s.id ≤ req.src)) :
      Move env s (.request req) (s.joinCluster req c) o
  | edited {input : Input} {o : Output} (id priority mine : Int) (c : ClusterConfig)
      (hin : EditsInPlace s input)
      (hc : c = s.config ∨ c = s.config.mapServer id (fun sc => { sc with priority := priority })) :
      Move env s input { s with myPriority := mine, config := c } o
  | timed {input : Input} {t : RaftServer} {o : Output} (hin : input.checksLeaver = true)
      (ht : Steady (s.checkSrvToLeaveTimeout env) t) (ho : Plain o) : Move env s input t o
  | invited {req : ReqMsg} {o : Output} (conf : SrvConfig)
      (hbody : (Input.request req).checksLeaver = true) (hrole : s.role = .leader) :
      Move env s (.request req) { s.checkSrvToLeaveTimeout env with
          srvToJoin := some { config := conf }, confToAdd := some conf } o
  | asked {req : ReqMsg} {o : Output} (id : Int) (hbody : (Input.request req).checksLeaver = true)
      (hrole : s.role = .leader) :
      Move env s (.request req) ((s.checkSrvToLeaveTimeout env).updatePeer id
        (fun p => { p with leaveRequested := true })) o
  | recorded {resp : RespMsg} {t : RaftServer} {o : Output} (htype : resp.type = .appendEntries)
      (hterm : resp.term ≤ s.state.term)
      (ht : Steady ((s.checkSrvToLeaveTimeout env).recordAppendResp env resp) t) (ho : Plain o) :
      Move env s (.response resp) t o
  | leaverGone {resp : RespMsg} (htype : resp.type = .appendEntries)
      (hcaught : (s.checkSrvToLeaveTimeout env).leaverCaughtUp resp = true) :
      Move env s (.response resp)
        ((s.checkSrvToLeaveTimeout env).removePeerFromPeers resp.src).resetSrvToLeave {}
  | told {input : Input} {id : Int} {f : Peer → Peer} (h : PeerTold env s input id f) :
      Move env s input (s.updatePeer id f) {}
  | sent {dst : Int} {reconnect : Bool} {custom : Nat} {r : RaftServer × ReqMsg}
      (h : s.requestAppendEntriesTo env dst reconnect custom = some r) :
      Move env s (.sendAppend dst reconnect custom) r.1 { sent := [r.2] }
  | joiner {input : Input} {q : Option Peer} {o : Output} (h : JoinerNoted env s input q) :
      Move env s input { s with srvToJoin := q } o
  | joinFailed {dst : Int} : Move env s (.extError dst false) s.handleJoinRpcErr {}
  | gaveUp {input : Input} {id x : Int} {w : RaftServer} (h : LeaveFailed env s input id w)
      (hx : (w.dropLone id).srvToLeave = some x) :
      Move env s input ((w.dropLone id).removePeerFromPeers x).resetSrvToLeave {}
  | operated {input : Input} {op : ConfOp} {u : RaftServer} {o : Output}
      (h : Readied env s input op u) : Move env s input (u.operate env op) o
  | applied {e : LogEntry} (he : s.log.entryAt (s.smCommitIndex + 1) = some e)
      (hlt : s.smCommitIndex < s.quickCommitIndex ∧ s.smCommitIndex + 1 < s.log.nextSlot) :
      Move env s .commitNext ((s.executeEntry e).applied (s.smCommitIndex + 1)) {}
  | adjusted : Move env s .adjustCommit s.adjustSmCommitIndex {}
  | creating {forced : Bool} :
      Move env s (.createSnapshot forced) (s.snapshotAndCompact env forced) {}
  | created {snp : Snapshot} (hsnp : s.snpInProgress = some snp) :
      Move env s (.snapshotCompleted true) (s.adoptSnapshot (s.latestSnapshot snp)) {}
  | dropped {snp : Snapshot} (hsnp : s.snpInProgress = some snp) :
      Move env s (.snapshotCompleted false) s.dropSnapshot {}
  | installed {pending : PendingInstall} {r : RaftServer × RespMsg}
      (hmem : pending ∈ s.applyingSnapshots) (h : s.finishSnapshot pending = some r) :
      Move env s (.finishSnapshot pending) r.1 { resp := some r.2 }
  | urged : Move env s .appendEntriesInBg (s.requestAppendEntries env) {}
  | durable {ok : Bool} (hrole : s.role = .leader) :
      Move env s (.logAppendCompletion ok) (s.commit (s.getExpectedCommittedLogIdx env)) {}
  | restarted {applied : Nat} (hle : applied ≤ s.smCommitIndex) :
      Move env s (.restart applied) (s.restart applied) {}

theorem requestAppendEntriesTo_eq {dst : Int} {reconnect : Bool} {custom : Nat}
    {r : RaftServer × ReqMsg} (h : s.requestAppendEntriesTo env dst reconnect custom = some r) :
    ∃ p : Peer, p.id = dst ∧ r.1 = s.updatePeer dst (fun _ => p) := by
  unfold requestAppendEntriesTo at h
  split at h
  · cases h
  split at h
  · cases h
  next p hp =>
  dsimp only at h
  split at h
  · cases h
  next p' req hbuilt =>
  cases h
  refine ⟨_, ?_, rfl⟩
  have hid : p.id = dst := by simpa using find?_some hp
  refine Eq.trans (congrArg SrvConfig.id ((s.createAppendEntriesReq_built hbuilt).2.1.trans ?_)) hid
  split <;> rfl

/-! ### What an operation starts from -/

/-- The server without what its peers are doing. -/
def sansPeers (s : RaftServer) : RaftServer :=
  { s with
    peers := []
    quickCommitIndex := 0
    laggingSmTargetIndex := 0
    srvToJoin := none
    srvToLeave := none
    srvToLeaveTargetIdx := 0 }

theorem sansPeers_read {α : Type} {f : RaftServer → α} (hf : ∀ v : RaftServer, f v.sansPeers = f v)
    (h : t.sansPeers = s.sansPeers) : f t = f s :=
  (hf t).symm.trans ((congrArg f h).trans (hf s))

theorem recordAppendResp_sansPeers (s : RaftServer) (env : Env) (resp : RespMsg) :
    ((s.checkSrvToLeaveTimeout env).recordAppendResp env resp).sansPeers = s.sansPeers := by
  unfold recordAppendResp
  split <;> rfl

theorem LeaveFailed.sansPeers {id : Int} {w : RaftServer} (h : LeaveFailed env s input id w) :
    (w.dropLone id).sansPeers = s.sansPeers := by
  have hlone : (w.dropLone id).sansPeers = w.sansPeers := by
    unfold dropLone
    split <;> rfl
  rw [hlone]
  cases h with
  | ext _ => rfl
  | peer _ _ =>
    unfold dropTransfer
    split <;> rfl

theorem startLeaving_sansPeers (s : RaftServer) (id : Int) :
    (s.startLeaving id).sansPeers = s.sansPeers := by
  unfold startLeaving
  split <;> rfl

theorem Readied.sansPeers {op : ConfOp} (h : Readied env s input op u) :
    u.sansPeers = s.sansPeers := by
  cases h with
  | promoted _ _ _ _ => exact recordAppendResp_sansPeers s env _
  | left _ _ _ => exact startLeaving_sansPeers s _
  | unheard h _ => exact (startLeaving_sansPeers _ _).trans h.sansPeers
  | _ => rfl

@[simp] theorem operate_frame (s : RaftServer) (env : Env) (op : ConfOp) :
    (s.operate env op).role = s.role ∧ (s.operate env op).state = s.state ∧
    (s.operate env op).log = s.log.append ⟨s.state.term, .conf (op.newConf s.confView)⟩ := by
  unfold operate
  split <;> simp

/-! ### Elections -/

theorem Elects.move (h : Elects env s t) (hin : IssuedBy s input .becomeLeader) (ho : Plain o) :
    Move env s input t o := by
  cases h with
  | steady h => exact .steady h ho
  | elected u hu hconf ht hrole => exact .elected u hu hconf ht hrole hin ho

theorem requestsToRegularMembers_canvass (s : RaftServer) {body : ReqBody}
    (h : (s.positionReq 0 body).isCanvass = true) :
    ∀ m ∈ s.requestsToRegularMembers body, m.isCanvass = true := by
  intro m hm
  obtain ⟨p, _, rfl⟩ := mem_map.mp hm
  exact h

theorem initiateVote_canvass (s : RaftServer) (env : Env) (force : Bool) :
    ∀ m ∈ (s.initiateVote env force).2, m.isCanvass = true := by
  have hvote : ∀ m ∈ ((s.openBallot env).requestVote env force).2, m.isCanvass = true := by
    dsimp only [requestVote]
    split
    · exact fun m hm => nomatch hm
    · exact requestsToRegularMembers_canvass _ rfl
  unfold initiateVote
  split
  · exact fun m hm => nomatch hm
  dsimp only
  split
  · split <;> exact hvote
  · split <;> exact fun m hm => nomatch hm

theorem handleElectionTimeout_canvass (s : RaftServer) (env : Env) :
    ∀ m ∈ (s.handleElectionTimeout env).2, m.isCanvass = true := by
  have hnone : ∀ m ∈ ([] : List ReqMsg), m.isCanvass = true := fun m hm => nomatch hm
  unfold handleElectionTimeout
  repeat (split; exact hnone)
  dsimp only
  split
  · exact initiateVote_canvass s.prepareElection env false
  · dsimp only [requestPrevote]
    split
    · exact hnone
    · exact requestsToRegularMembers_canvass _ rfl

theorem handlePrevoteResp_canvass (s : RaftServer) (env : Env) (resp : RespMsg) :
    ∀ m ∈ (s.handlePrevoteResp env resp).2, m.isCanvass = true := by
  unfold handlePrevoteResp
  split
  · exact fun m hm => nomatch hm
  dsimp only
  split
  · exact initiateVote_canvass _ env false
  · exact fun m hm => nomatch hm

/-! ### Requests -/

theorem appendBufs_eq (s : RaftServer) (bufs : List Bytes) :
    s.appendBufs bufs = { s with log := s.log.appendLoop (s.clientEntries bufs) } := by
  unfold appendBufs LogStore.appendLoop clientEntries
  generalize s.state.term = term
  induction bufs generalizing s with
  | nil => rfl
  | cons b bufs ih =>
    rw [foldl_cons, ih, map_cons, foldl_cons]
    simp [storeLogEntry, LogEntry.isConf, LogEntry.conf?]

theorem handleCliReq_moves (s : RaftServer) (env : Env) {bufs : List Bytes}
    (hbody : req.body = .clientRequest bufs) : Move env s (.request req) (s.handleCliReq env bufs).1
      { resp := some (s.handleCliReq env bufs).2 } := by
  unfold handleCliReq
  split
  · exact .steady (.refl s) (.of_resp rfl)
  next hlead =>
  have hrole : s.role = .leader := by
    by_contra hne
    exact hlead (.inl hne)
  rw [appendBufs_eq]
  split
  · next hnil => exact .stored s.precommitIndex hbody hrole (if_pos hnil).symm
  · next hne =>
    refine .stored _ hbody hrole ?_
    simp [if_neg hne, clientEntries]

theorem updateTermOnReq_ge
    (hbody : (∃ es, req.body = .appendEntries es) ∨ ∃ sync, req.body = .installSnapshot sync) :
    s.state.term ≤ (s.updateTermOnReq req).state.term ∧
      req.term ≤ (s.updateTermOnReq req).state.term := by
  rcases hbody with ⟨_, hbody⟩ | ⟨_, hbody⟩
  all_goals
    unfold updateTermOnReq updateTerm
    rw [hbody]
    split
    · next hlt => exact ⟨by simpa using hlt.le, by simp⟩
    · next hle => exact ⟨le_rfl, Nat.le_of_not_lt hle⟩

theorem handleAppendEntries_moves (env : Env) {es : List LogEntry}
    (hbody : req.body = .appendEntries es) :
    Move env s (.request req) ((s.updateTermOnReq req).handleAppendEntries env req es).1
      { resp := ((s.updateTermOnReq req).handleAppendEntries env req es).2 } := by
  have hterm : s.state.term ≤ (s.updateTermOnReq req).state.term ∧
      req.term ≤ (s.updateTermOnReq req).state.term := updateTermOnReq_ge (by simp [hbody])
  have hs := updateTermOnReq_steady s req
  generalize s.updateTermOnReq req = v at hterm hs ⊢
  have hclear := hs.trans (clearCatchingUp_steady v)
  have hfollow := hclear.trans (followAppender_steady v.clearCatchingUp req)
  have hsame : (v.clearCatchingUp.followAppender req).state.term = v.state.term := by
    unfold followAppender
    split
    · split <;> simp
    · rfl
  unfold handleAppendEntries
  split
  · exact .steady hs .nil
  dsimp only
  split
  · exact .steady hclear .nil
  next hlead =>
  split
  · exact .steady hfollow (.of_resp rfl)
  next hokay =>
  split
  · exact .steady (hfollow.trans (restartElectionTimer_steady _)) (.of_resp rfl)
  · have hokay' : (v.clearCatchingUp.followAppender req).refusesAppend req = false := by
      simpa using hokay
    -- the request is not older than the server, so it is of the server's term
    have hge : v.state.term ≤ req.term := by
      have hnot := hokay'
      simp only [refusesAppend, Bool.or_eq_false_iff, decide_eq_false_iff_not, hsame] at hnot
      exact Nat.le_of_not_lt hnot.1.1
    have heq : v.state.term = req.term := Nat.le_antisymm hge hterm.2
    have hid : (v.clearCatchingUp.followAppender req).id = s.id :=
      show (v.clearCatchingUp.followAppender req).core.id = s.core.id from
        congrArg RaftServer.id hfollow.core
    have hmove : Move env s (.request req) ((v.clearCatchingUp.followAppender req).acceptEntries req es)
        { resp := some (s.acceptedResp req es) } := by
      refine .accepted _ hbody hfollow ⟨hterm.1.trans hge, hsame.trans heq⟩ ?_ hokay'
      have hown : req.term = v.clearCatchingUp.state.term := heq.symm
      rw [followAppender, if_pos hown]
      split
      · simp
      · exact fun h => hlead ⟨hown, h⟩
    simpa [acceptedResp, RespMsg.accept, hid, hsame, heq] using hmove

theorem handleInstallSnapshotReq_moves {sync : Option SnapshotSyncReq}
    {r : RaftServer × Option RespMsg} (hbody : req.body = .installSnapshot sync)
    (h : (s.updateTermOnReq req).handleInstallSnapshotReq env req sync = some r) :
    Move env s (.request req) r.1 { resp := r.2 } := by
  have hterm : s.state.term ≤ (s.updateTermOnReq req).state.term ∧
      req.term ≤ (s.updateTermOnReq req).state.term := updateTermOnReq_ge (by simp [hbody])
  have hs := updateTermOnReq_steady s req
  generalize s.updateTermOnReq req = v at hterm hs h
  have hfollow := hs.trans (followLeader_steady v req)
  have hsame : (v.followLeader req).state.term = v.state.term ∧
      (v.followLeader req).state.catchingUp = v.state.catchingUp := by
    unfold followLeader
    split
    · split <;> simp
    · exact ⟨rfl, rfl⟩
  unfold handleInstallSnapshotReq at h
  split at h
  · cases h
  next hlead =>
  dsimp only at h
  split at h
  · cases h
    exact .steady hfollow (.of_resp rfl)
  next hold =>
  split at h
  · cases h
    exact .steady hfollow (.of_resp rfl)
  next obj =>
  cases h
  unfold receiveObject
  split
  · exact .steady hfollow (.of_resp rfl)
  split
  · exact .steady hfollow (.of_resp rfl)
  split
  · have heq (hcatch : (v.followLeader req).state.catchingUp = false) :
        v.state.term = req.term := by
      rw [hsame.1] at hold
      exact Nat.le_antisymm (Nat.le_of_not_lt fun hlt => hold ⟨hcatch, hlt⟩) hterm.2
    refine .parked _ hbody hfollow ?_ ?_
    · intro hcatch
      exact ⟨hterm.1.trans (Nat.le_of_eq (heq hcatch)), hsame.1.trans (heq hcatch)⟩
    · intro hcatch
      have hown : req.term = v.state.term ∧ v.state.catchingUp = false :=
        ⟨(heq hcatch).symm, hsame.2 ▸ hcatch⟩
      rw [followLeader, if_pos hown]
      split
      · simp
      · exact fun h => hlead ⟨hown.1, hown.2, h⟩
  · exact .steady (hfollow.trans (startReceiving_steady _)) (.of_resp rfl)

theorem handleAddSrvReq_moves (s : RaftServer) (env : Env) {srv : Option SrvConfig}
    (hbody : req.body = .addServer srv) {o : Output}
    (ho : o = { sent := (s.handleAddSrvReq env srv).2.1, resp := some (s.handleAddSrvReq env srv).2.2 }) :
    Move env s (.request req) (s.handleAddSrvReq env srv).1 o := by
  have hin : (Input.request req).checksLeaver = true := by simp [Input.checksLeaver, hbody]
  subst ho
  unfold handleAddSrvReq
  cases srv with
  | none => exact .steady (.refl s) (.of_resp rfl)
  | some sc =>
    dsimp only
    split
    · exact .steady (.refl s) (.of_resp rfl)
    next hlead =>
    have hrole : s.role = .leader := by
      by_contra hne
      exact hlead (.inl hne)
    generalize (if (s.checkSrvToLeaveTimeout env).params.useNewJoinerType then _ else sc) = conf
    repeat (split; exact .timed hin (.refl _) (.of_resp rfl))
    exact .invited conf hin hrole

theorem handleRmSrvReq_moves (s : RaftServer) (env : Env) {id : Option Int}
    (hbody : req.body = .removeServer id) {o : Output}
    (ho : o = { sent := (s.handleRmSrvReq env id).2.1, resp := some (s.handleRmSrvReq env id).2.2 }) :
    Move env s (.request req) (s.handleRmSrvReq env id).1 o := by
  have hin : (Input.request req).checksLeaver = true := by simp [Input.checksLeaver, hbody]
  subst ho
  unfold handleRmSrvReq
  cases id with
  | none => exact .steady (.refl s) (.of_resp rfl)
  | some id =>
    dsimp only
    split
    · exact .steady (.refl s) (.of_resp rfl)
    next hlead =>
    have hrole : s.role = .leader := by
      by_contra hne
      exact hlead (.inl hne)
    repeat (split; exact .timed hin (.refl _) (.of_resp rfl))
    exact .asked id hin hrole

theorem handleCustomNotificationReq_moves (s : RaftServer) (env : Env)
    {note : Option Notification} (hbody : req.body = .customNotification note) :
    Move env s (.request req) (s.handleCustomNotificationReq env req note).1
      (s.handleCustomNotificationReq env req note).2 := by
  unfold handleCustomNotificationReq
  split
  · exact .steady (.refl s) (.of_resp rfl)
  · have ht : Steady { (s.updateTerm req.term).1 with outOfLogRange := true }
        (s.handleOutOfLogMsg req) := by
      dsimp only [handleOutOfLogMsg]
      split
      · exact restartElectionTimer_steady _
      · exact .refl _
    exact .outOfRange _ (updateTerm_steady s req.term) ht (.of_resp rfl)
  · refine (handleLeadershipTakeover_elects s env).move ⟨rfl, hbody⟩ ⟨?_, ?_⟩
    · unfold handleLeadershipTakeover
      split
      · exact fun m hm => nomatch hm
      · exact initiateVote_canvass s env true
    · rintro m ⟨⟩
      rfl
  · exact .steady (handleResignationRequest_steady s env _) (.of_resp rfl)

theorem processReq_moves (h : s.processReq env req = some (t, o)) :
    Move env s (.request req) t o := by
  have hs := updateTermOnReq_steady s req
  unfold processReq at h
  split at h
  case h_2 es hbody => cases h; exact handleAppendEntries_moves env hbody
  case h_3 force hbody =>
    cases h
    refine .steady (hs.trans (handleVoteReq_steady _ req force)) (.of_resp ?_)
    unfold handleVoteReq
    split <;> rfl
  case h_12 hbody =>
    obtain ⟨r, hr, heq⟩ := map_eq_some_iff.mp h
    cases heq
    exact handleInstallSnapshotReq_moves hbody hr
  all_goals
    rename_i hbody
    have hself : s.updateTermOnReq req = s := by simp [updateTermOnReq, hbody]
    rw [hself] at h
  case h_1 bufs => cases h; exact handleCliReq_moves s env hbody
  case h_4 =>
    cases h
    refine .steady (.refl s) (.of_resp ?_)
    dsimp only [handlePrevoteReq]
    split <;> rfl
  case h_5 => cases h; exact .steady (.refl s) (.of_resp rfl)
  case h_6 change =>
    cases h
    dsimp only [handlePriorityChangeReq]
    split
    · exact .steady (.refl s) (.of_resp rfl)
    next id priority =>
    split
    · exact .edited id priority _ s.config ⟨_, hbody⟩ (.inl rfl)
    · exact .edited id priority _ _ ⟨_, hbody⟩ (.inr rfl)
  case h_7 srv => cases h; exact handleAddSrvReq_moves s env hbody rfl
  case h_8 id => cases h; exact handleRmSrvReq_moves s env hbody rfl
  case h_9 pack =>
    cases h
    unfold handleLogSyncReq
    split
    · exact .steady (.refl s) (.of_resp rfl)
    split
    · exact .steady (.refl s) (.of_resp rfl)
    · next hcatch => exact .packed _ hbody (by simpa using hcatch) rfl
  case h_10 conf =>
    cases h
    unfold handleJoinClusterReq
    split
    · exact .steady (.refl s) (.of_resp rfl)
    split
    · split <;> exact .steady (.refl s) (.of_resp rfl)
    next hlone =>
    split
    · exact .steady (.refl s) (.of_resp rfl)
    · next hfree => exact .joins hbody hlone hfree
  case h_11 =>
    cases h
    unfold handleLeaveClusterReq
    split
    · exact .steady (.refl s) (.of_resp rfl)
    · exact .steady (.of_same rfl rfl) (.of_resp rfl)
  case h_13 =>
    cases h
    refine .steady (.refl s) (.of_resp ?_)
    unfold handleReconnectReq
    split <;> rfl
  case h_14 note =>
    have hmove := handleCustomNotificationReq_moves s env hbody
    rwa [some.inj h] at hmove
  case h_15 => cases h; exact .steady (.refl s) .nil

/-! ### Responses and errors -/

theorem handleAppendEntriesResp_moves (s : RaftServer) (env : Env) {resp : RespMsg}
    (htype : resp.type = .appendEntries) (hterm : resp.term ≤ s.state.term) :
    Move env s (.response resp) (s.handleAppendEntriesResp env resp).1
      { sent := (s.handleAppendEntriesResp env resp).2 } := by
  unfold handleAppendEntriesResp
  split
  · exact .steady (.refl s) .nil
  dsimp only
  split
  · next hcaught => exact .leaverGone htype hcaught
  split
  · exact .recorded htype hterm (.refl _) .nil
  next p hp =>
  have hid : p.id = resp.src := by simpa using find?_some hp
  split
  · next hready =>
    rw [hid]
    exact .operated (.promoted htype hterm hp hready)
  split
  · refine .recorded htype hterm (stepDown_steady _) (.of_sent ?_)
    intro m hm
    rcases mem_singleton.mp hm with rfl
    rfl
  · exact .recorded htype hterm (.refl _) .nil

theorem handlePeerResp_moves (s : RaftServer) (env : Env) (resp : RespMsg) :
    Move env s (.response resp) (s.handlePeerResp env resp).1
      { sent := (s.handlePeerResp env resp).2 } := by
  dsimp only [handlePeerResp]
  split
  · exact .steady (updateTerm_steady s resp.term) .nil
  next hnew =>
  have hterm : resp.term ≤ s.state.term := updateTerm_old hnew
  split
  · next htype =>
    exact (handlePrevoteResp_elects s env resp).move (.inr ⟨rfl, .inl htype⟩)
      (.of_sent (handlePrevoteResp_canvass s env resp))
  · next htype =>
    exact (handleVoteResp_elects s env resp).move (.inr ⟨rfl, .inr htype⟩) .nil
  · next htype => exact handleAppendEntriesResp_moves s env htype hterm
  · next htype => exact .told (.installed htype hterm)
  · next htype =>
    unfold handleCustomNotificationResp
    split
    · next hacc => exact .told (.located htype hterm hacc)
    · exact .steady (.refl s) .nil
  · exact .steady (.refl s) .nil

theorem syncLogToNewSrv_moves {q : Option Peer} {start : Nat} (h : Joining s input q start)
    (env : Env) : Move env s input ({ s with srvToJoin := q }.syncLogToNewSrv env start).1 o := by
  unfold syncLogToNewSrv
  split
  · next p sc hq hsc =>
    subst hq
    dsimp only
    split
    · exact .operated (.joined h hsc)
    split
    · split
      · next p' req hreq => exact .joiner (.supplied h hreq)
      · exact .joiner (.waits h)
    · exact .joiner (.waits h)
  · exact .joiner (.waits h)

/-- A server that may be removed is recorded as leaving, unless another one is. -/
theorem rmSrvFromCluster_eq (hnone : s.srvToLeave = none) (env : Env) (id : Int) :
    s.rmSrvFromCluster env id = (s.startLeaving id).operate env (.removeServer id) := by
  rw [rmSrvFromCluster, startLeaving, if_neg (by simp [hnone])]
  split <;> rfl

theorem handleLeaveRpcErr_moves {id : Int} {w : RaftServer} (h : LeaveFailed env s input id w) :
    Move env s input (w.handleLeaveRpcErr env id) {} := by
  have hlone : (if w.peers.length = 1 then (w.removePeerFromPeers id).resetSrvToLeave else w) =
      w.dropLone id := rfl
  dsimp only [handleLeaveRpcErr]
  rw [hlone]
  split
  · next x hx => exact .gaveUp h hx
  · next hnone =>
    rw [rmSrvFromCluster_eq hnone]
    exact .operated (.unheard h hnone)

theorem handleExtResp_moves (s : RaftServer) (env : Env) (resp : RespMsg) (joiner : Bool) :
    Move env s (.extResponse resp joiner) (s.handleExtResp env resp joiner).1
      { sent := (s.handleExtResp env resp joiner).2 } := by
  unfold handleExtResp
  split
  · next htype =>
    unfold handleLogSyncResp
    split
    · exact .steady (.refl s) .nil
    · next p hp => exact syncLogToNewSrv_moves (.synced htype hp) env
  · next htype =>
    unfold handleJoinClusterResp
    split
    · next hacc =>
      obtain ⟨rfl, hacc⟩ := hacc
      exact syncLogToNewSrv_moves (.welcomed htype hacc rfl) env
    · exact .steady (.refl s) .nil
  · next htype =>
    unfold handleLeaveClusterResp
    split
    · next hacc =>
      cases hnone : s.srvToLeave with
      | some x =>
        have hself : s.rmSrvFromCluster env resp.src = s := by simp [rmSrvFromCluster, hnone]
        rw [hself]
        exact .steady (.refl s) .nil
      | none =>
        rw [rmSrvFromCluster_eq hnone]
        exact .operated (.left htype hacc hnone)
    · exact .steady (.refl s) .nil
  · next htype =>
    unfold handleInstallSnapshotRespNewMember
    split
    · exact .steady (.refl s) .nil
    next p hp =>
    dsimp only
    split
    · exact .joiner (.answered htype hp)
    · next ctx hctx => exact syncLogToNewSrv_moves (.installed htype hp hctx) env
  · exact .steady (.refl s) .nil

theorem handlePeerErr_moves (s : RaftServer) (env : Env) (dst : Int) :
    Move env s (.peerError dst) (s.handlePeerErr env dst) {} := by
  unfold handlePeerErr
  split
  · exact .steady (.refl s) .nil
  next p hp =>
  dsimp only
  split
  · next hleave => exact handleLeaveRpcErr_moves (.peer hp hleave)
  split
  · exact .told .aborted
  · exact .steady (.refl s) .nil

theorem handleExtRespErr_moves (s : RaftServer) (env : Env) (dst : Int) (leaving : Bool) :
    Move env s (.extError dst leaving) (s.handleExtRespErr env dst leaving) {} := by
  unfold handleExtRespErr
  cases leaving with
  | true =>
    rw [if_pos rfl]
    split
    · next hpeer => exact handleLeaveRpcErr_moves (.ext hpeer)
    · exact .steady (.refl s) .nil
  | false =>
    rw [if_neg (by simp)]
    split
    · exact .joinFailed
    · exact .steady (.refl s) .nil

/-! ### Timers, threads and calls -/

theorem handleHbTimeout_moves (s : RaftServer) (env : Env) (expired : Bool) :
    Move env s (.heartbeatTimeout expired) (s.handleHbTimeout env expired) {} := by
  refine .timed rfl ?_ .nil
  dsimp only [handleHbTimeout]
  split
  · exact stepDown_steady _
  split
  · exact .refl _
  split
  · exact yieldLeadership_steady _ env true (-1)
  · exact updateTargetPriority_steady _

theorem notifyLogAppendCompletion_moves (s : RaftServer) (env : Env) (ok : Bool) :
    Move env s (.logAppendCompletion ok) (s.notifyLogAppendCompletion env ok) {} := by
  unfold notifyLogAppendCompletion
  split
  · exact .steady (.refl s) .nil
  next hrole =>
  split
  · exact .durable (by simpa using hrole)
  · exact .steady (stepDown_steady s) .nil

theorem commitNext_moves (h : s.commitNext = some t) : Move env s .commitNext t {} := by
  unfold commitNext at h
  split at h
  · next hlt =>
    have hslot : s.smCommitIndex + 1 < s.log.nextSlot := by omega
    split at h
    · cases h
    next e he =>
    have hmove : Move env s .commitNext ((s.executeEntry e).applied (s.smCommitIndex + 1)) {} :=
      .applied he ⟨hlt.1, hslot⟩
    unfold executeEntry at hmove
    split at h
    · next hval =>
      rw [hval] at hmove
      split at h
      · cases h
      · cases h
        exact hmove
    · next c hval =>
      rw [hval] at hmove
      cases h
      exact hmove
  · cases h

theorem onSnapshotCompleted_moves (s : RaftServer) (env : Env) (ok : Bool) :
    Move env s (.snapshotCompleted ok) (s.onSnapshotCompleted ok) {} := by
  unfold onSnapshotCompleted
  split
  · exact .steady (.refl s) .nil
  next snp hsnp =>
  cases ok with
  | true => exact .created hsnp
  | false => exact .dropped hsnp

theorem updateSrvConfig_moves (s : RaftServer) (env : Env) (srv : SrvConfig) :
    Move env s (.updateSrvConfig srv) (s.updateSrvConfig env srv).1 {} := by
  unfold updateSrvConfig
  split
  · exact .steady (.refl s) .nil
  next hlead =>
  repeat (split; exact .steady (.refl s) .nil)
  exact .operated (.srvConfig (by grind))

theorem flipLearnerFlag_moves (s : RaftServer) (env : Env) (id : Int) (flag : Bool) :
    Move env s (.flipLearnerFlag id flag) (s.flipLearnerFlag env id flag).1 {} := by
  unfold flipLearnerFlag
  split
  · exact .steady (.refl s) .nil
  next hlead =>
  repeat (split; exact .steady (.refl s) .nil)
  exact .operated (.learner (by grind))

theorem setPriority_moves (s : RaftServer) (env : Env) (id priority : Int) (bc : Bool) :
    Move env s (.setPriority id priority bc) (s.setPriority env id priority bc).1
      { sent := (s.setPriority env id priority bc).2.1 } := by
  unfold setPriority
  split
  · next hne =>
    split
    · exact .edited id priority _ _ (.inl hne) (.inr rfl)
    · exact .steady (.refl s) .nil
  next hid =>
  split
  · next hself => exact .edited id priority _ _ (.inr hself) (.inr rfl)
  · next hself => exact .operated (.priority (by simpa using hid) hself)

theorem step_moves (h : s.step env input = some (t, o)) : Move env s input t o := by
  cases input with
  | request req => exact processReq_moves h
  | response resp => cases h; exact handlePeerResp_moves s env resp
  | extResponse resp joiner => cases h; exact handleExtResp_moves s env resp joiner
  | peerError dst => cases h; exact handlePeerErr_moves s env dst
  | extError dst leaving => cases h; exact handleExtRespErr_moves s env dst leaving
  | electionTimeout =>
    cases h
    exact (handleElectionTimeout_elects s env).move rfl
      (.of_sent (handleElectionTimeout_canvass s env))
  | heartbeatTimeout expired => cases h; exact handleHbTimeout_moves s env expired
  | retryJoinSync => cases h; exact syncLogToNewSrv_moves (.retried rfl) env
  | sendAppend dst reconnect custom =>
    obtain ⟨r, hr, heq⟩ := map_eq_some_iff.mp h
    cases heq
    exact .sent hr
  | appendEntriesInBg => cases h; exact .urged
  | logAppendCompletion ok => cases h; exact notifyLogAppendCompletion_moves s env ok
  | finishSnapshot pending =>
    simp only [step] at h
    split at h
    · next hmem =>
      obtain ⟨r, hr, heq⟩ := map_eq_some_iff.mp h
      cases heq
      exact .installed hmem hr
    · cases h
  | adjustCommit => cases h; exact .adjusted
  | commitNext =>
    obtain ⟨u, hu, heq⟩ := map_eq_some_iff.mp h
    cases heq
    exact commitNext_moves hu
  | createSnapshot forced => cases h; exact .creating
  | snapshotCompleted ok => cases h; exact onSnapshotCompleted_moves s env ok
  | setUserCtx ctx => cases h; exact .operated .userCtx
  | updateSrvConfig srv => cases h; exact updateSrvConfig_moves s env srv
  | flipLearnerFlag id flag => cases h; exact flipLearnerFlag_moves s env id flag
  | setPriority id priority bc => cases h; exact setPriority_moves s env id priority bc
  | yieldLeadership imm succ =>
    cases h
    exact .steady (yieldLeadership_steady s env imm succ) .nil
  | requestLeadership =>
    cases h
    refine .steady (.refl s) (.of_sent ?_)
    intro m hm
    unfold requestLeadership at hm
    split at hm
    · cases hm
    · rw [mem_singleton.mp hm]
      rfl
  | restart applied =>
    simp only [step] at h
    split at h
    · next hle => cases h; exact .restarted hle
    · cases h

end RaftServer
end Raft
end Xio
