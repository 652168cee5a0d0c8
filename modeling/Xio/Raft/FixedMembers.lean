import Xio.Raft.Cluster
import Xio.Raft.Move

/-!
# Raft.FixedMembers — a cluster whose membership does not change

A server reads the membership from its configuration, its peers and its own flags, and takes new
ones from log entries, snapshots and messages. In a cluster that nobody asks for a change all of
these hold the servers of the first configuration (`Member`), and the network carries only what
elections and replication need (`ReqMsg.Of`). The number of voting members, and with it every
quorum, is then fixed.
-/

namespace Xio
namespace Raft

open List LogStore

variable {c : ClusterConfig} {env : Env}

theorem VotingConfig.getServer_of_mem (v : VotingConfig) {sc : SrvConfig}
    (hc : c.servers = v.config.servers) (hsc : sc ∈ v.config.servers) :
    c.getServer sc.id = some sc := by
  rw [ClusterConfig.getServer, hc]
  have hsome : (v.config.servers.find? (fun s => s.id == sc.id)).isSome :=
    find?_isSome.mpr ⟨sc, hsc, by simp⟩
  obtain ⟨sc', hfind⟩ := Option.isSome_iff_exists.mp hsome
  have hid : sc'.id = sc.id := by simpa using find?_some hfind
  rw [hfind, inj_on_of_nodup_map v.nodup (mem_of_find?_eq_some hfind) hsc hid]

variable {servers : List SrvConfig} {params : RaftParams} {i : Int}

/-! ## What carries a configuration -/

def LogEntry.Of (servers : List SrvConfig) (e : LogEntry) : Prop :=
  ∀ c, e.conf? = some c → c.servers = servers

def Snapshot.Of (servers : List SrvConfig) (snp : Snapshot) : Prop :=
  snp.lastConfig.servers = servers

/-- Requests of elections and of replication. -/
def ReqMsg.Of (servers : List SrvConfig) (m : ReqMsg) : Prop :=
  match m.body with
  | .requestVote _ | .preVote | .customNotification _ => True
  | .appendEntries es => ∀ e ∈ es, e.Of servers
  | .installSnapshot (some obj) => obj.snapshot.Of servers
  | _ => False

structure Peer.Of (servers : List SrvConfig) (p : Peer) : Prop where
  staying : p.leaveRequested = false
  syncing : ∀ ctx, p.snpSyncCtx = some ctx → ctx.snapshot.Of servers

/-- The part of a server that the membership is read from. -/
structure MemberView where
  id : Int
  params : RaftParams
  config : ClusterConfig
  peers : List Peer
  srvToLeave : Option Int
  imLearner : Bool
  catchingUp : Bool
  log : LogStore
  lastSnapshot : Option Snapshot
  snpInProgress : Option Snapshot
  applyingSnapshots : List PendingInstall

namespace RaftServer

variable {s t : RaftServer} {f : Peer → Peer} {p : Peer}

def memberView (s : RaftServer) : MemberView :=
  ⟨s.id, s.params, s.config, s.peers, s.srvToLeave, s.imLearner, s.state.catchingUp, s.log,
    s.lastSnapshot, s.snpInProgress, s.applyingSnapshots⟩

/-- Server `i` of a cluster that has the given servers for good. -/
structure Member (servers : List SrvConfig) (params : RaftParams) (i : Int) (s : RaftServer) :
    Prop where
  id : s.id = i
  params : s.params = params
  config : s.config.servers = servers
  others : s.peers.map Peer.config = servers.filter (fun c => c.id != i)
  peers : ∀ p ∈ s.peers, p.Of servers
  noLeaver : s.srvToLeave = none
  voting : s.imLearner = false
  caughtUp : s.state.catchingUp = false
  savedCaughtUp : s.savedState.catchingUp = false
  log : ∀ e ∈ s.log.entries, e.Of servers
  last : ∀ snp, s.lastSnapshot = some snp → snp.Of servers
  creating : ∀ snp, s.snpInProgress = some snp → snp.Of servers
  applying : ∀ p ∈ s.applyingSnapshots, p.snapshot.Of servers

theorem Member.of_view (h : Member servers params i s) (hv : t.memberView = s.memberView)
    (hsaved : t.savedState.catchingUp = false) : Member servers params i t := by
  simp only [memberView, MemberView.mk.injEq] at hv
  obtain ⟨hid, hpar, hconf, hpeers, hleave, hlearn, hcatch, hlog, hlast, hcreate, happly⟩ := hv
  exact {
    id := hid.trans h.id
    params := hpar.trans h.params
    config := by rw [hconf]; exact h.config
    others := by rw [hpeers]; exact h.others
    peers := by rw [hpeers]; exact h.peers
    noLeaver := hleave.trans h.noLeaver
    voting := hlearn.trans h.voting
    caughtUp := hcatch.trans h.caughtUp
    savedCaughtUp := hsaved
    log := by rw [hlog]; exact h.log
    last := by rw [hlast]; exact h.last
    creating := by rw [hcreate]; exact h.creating
    applying := by rw [happly]; exact h.applying }

theorem Member.map_peers (h : Member servers params i s)
    (hconf : ∀ p, (f p).config = p.config) (hpeer : ∀ p ∈ s.peers, (f p).Of servers)
    (hv : t.memberView = { s.memberView with peers := s.peers.map f })
    (hsaved : t.savedState = s.savedState) : Member servers params i t := by
  have h' : Member servers params i { s with peers := s.peers.map f } := by
    refine { h with others := ?_, peers := ?_ }
    · simp only [map_map]
      rw [← h.others]
      exact map_congr_left (fun p _ => hconf p)
    · intro p hp
      obtain ⟨q, hq, rfl⟩ := mem_map.mp hp
      exact hpeer q hq
  exact h'.of_view hv (by rw [hsaved]; exact h.savedCaughtUp)

theorem Member.with_log (h : Member servers params i s) {l : LogStore}
    (hl : ∀ e ∈ l.entries, e.Of servers) : Member servers params i { s with log := l } :=
  { h with log := hl }

def AllOf (servers : List SrvConfig) (sent : List ReqMsg) : Prop := ∀ m ∈ sent, m.Of servers

theorem AllOf.nil : AllOf servers [] := by
  intro m hm
  cases hm

theorem Plain.allOf {o : Output} (h : Plain o) : AllOf servers o.sent := by
  intro m hm
  have hcanvass := h.sent m hm
  unfold ReqMsg.isCanvass at hcanvass
  unfold ReqMsg.Of
  split at hcanvass <;> simp_all

/-! ## Roles, terms and elections -/

theorem Member.of_steady (hadj : params.autoAdjustQuorumForSmallCluster = false)
    (h : Member servers params i s) (hst : Steady s t) : Member servers params i t := by
  have hcaught := hst.caught ⟨h.caughtUp, h.savedCaughtUp⟩
  have hsame : t.core.memberView = s.core.memberView := congrArg memberView hst.core
  simp only [memberView, MemberView.mk.injEq] at hsame
  have hview : t.memberView = s.memberView := by
    simp only [memberView, MemberView.mk.injEq]
    obtain ⟨hid, _, hconf, hpeers, hleave, hlearn, _, hrest⟩ := hsame
    exact ⟨hid, hst.params (by rw [h.params]; exact hadj), hconf, hpeers, hleave, hlearn,
      hcaught.1.trans h.caughtUp.symm, hrest⟩
  exact h.of_view hview hcaught.2

section

variable (h : Member servers params i s)
include h

theorem commit_member (k : Nat) :
    Member servers params i (s.commit k) := h.of_view rfl h.savedCaughtUp

theorem requestAppendEntries_member (env : Env) :
    Member servers params i (s.requestAppendEntries env) := commit_member h _

theorem lastConfigInLog_of : s.lastConfigInLog.servers = servers := by
  dsimp only [lastConfigInLog]
  generalize hl : (s.log.entries.drop _).filterMap LogEntry.conf? = l
  rcases eq_nil_or_concat l with rfl | ⟨l', c, rfl⟩
  · exact h.config
  · have hc : c ∈ l'.concat c := by simp
    rw [← hl] at hc
    obtain ⟨e, he, hec⟩ := mem_filterMap.mp hc
    simpa using h.log e (mem_of_mem_drop he) c hec

theorem append_member {e : LogEntry} (he : e.Of servers) :
    ∀ e' ∈ (s.log.append e).entries, e'.Of servers := by
  intro e' hmem
  rcases mem_append.mp hmem with hold | hnew
  · exact h.log e' hold
  · rwa [mem_singleton.mp hnew]

theorem takeLeadership_member : Member servers params i s.takeLeadership := by
  have hentry : s.leaderConfEntry.Of servers := by
    intro c hc
    cases hc
    exact lastConfigInLog_of h
  refine (h.with_log (append_member h hentry)).map_peers (f := Peer.onBecomeLeader s.log.nextSlot)
    (fun _ => rfl) ?_ rfl rfl
  intro p hp
  refine ⟨(h.peers p hp).staying, ?_⟩
  intro ctx hctx
  cases hctx

end

/-! ## Configurations -/

section Voting

variable {v : VotingConfig}

theorem Member.peer_mem (h : Member servers params i s) (hp : p ∈ s.peers) :
    p.config ∈ servers ∧ p.id ≠ i := by
  have hmem : p.config ∈ servers.filter (fun c => c.id != i) := by
    rw [← h.others]
    exact mem_map_of_mem hp
  obtain ⟨hin, hne⟩ := mem_filter.mp hmem
  exact ⟨hin, by simpa [Peer.id] using hne⟩

theorem Member.exists_peer (h : Member servers params i s) {c : SrvConfig} (hc : c ∈ servers)
    (hne : c.id ≠ i) : ∃ p ∈ s.peers, p.config = c := by
  have hmem : c ∈ s.peers.map Peer.config := by
    rw [h.others]
    exact mem_filter.mpr ⟨hc, by simpa using hne⟩
  exact mem_map.mp hmem

section

variable (h : Member v.config.servers params i s)
include h

theorem Member.peerIds_nodup : (s.peers.map Peer.id).Nodup := by
  have hids : s.peers.map Peer.id = (s.peers.map Peer.config).map SrvConfig.id := by
    rw [map_map]
    rfl
  rw [hids, h.others]
  exact v.nodup.sublist (filter_sublist.map SrvConfig.id)

theorem Member.peer_unique {p q : Peer} (hp : p ∈ s.peers) (hq : q ∈ s.peers) (hid : p.id = q.id) :
    p = q :=
  inj_on_of_nodup_map h.peerIds_nodup hp hq hid

theorem Member.length_peers (hi : i ∈ v.config.servers.map SrvConfig.id) :
    s.peers.length + 1 = v.config.servers.length := by
  have hone : v.config.servers.countP (fun c => c.id == i) = 1 := by
    have hcount := count_eq_one_of_mem v.nodup hi
    rwa [count, countP_map] at hcount
  have hlen : s.peers.length = v.config.servers.countP (fun c => c.id != i) := by
    rw [countP_eq_length_filter, ← h.others, length_map]
  have hnot : (fun c : SrvConfig => decide (¬ (c.id == i) = true)) = fun c => c.id != i := by
    funext c
    by_cases hc : c.id = i <;> simp [hc]
  have hsum : v.config.servers.length = _ :=
    length_eq_countP_add_countP (fun c : SrvConfig => c.id == i)
  rw [hone, hnot, ← hlen] at hsum
  omega

theorem Member.isRegularMember (hp : p ∈ s.peers) : s.isRegularMember p = true := by
  have hvoting := v.voting _ (h.peer_mem hp).1
  simp [RaftServer.isRegularMember, h.noLeaver, hvoting.1, hvoting.2]

theorem Member.regularMembers : s.peers.filter s.isRegularMember = s.peers :=
  filter_eq_self.mpr (fun _ hp => h.isRegularMember hp)

theorem Member.getNumVotingMembers (hi : i ∈ v.config.servers.map SrvConfig.id) :
    s.getNumVotingMembers = v.config.servers.length := by
  rw [RaftServer.getNumVotingMembers, h.regularMembers, h.voting]
  exact h.length_peers hi

theorem Member.getQuorumForElection (hi : i ∈ v.config.servers.map SrvConfig.id)
    (hdef : params.customElectionQuorumSize = 0) :
    s.getQuorumForElection = v.config.servers.length / 2 := by
  unfold RaftServer.getQuorumForElection
  rw [if_pos (.inl (by rw [h.params]; exact hdef.le)), h.getNumVotingMembers hi]

theorem Member.getServer_peer (hc : c.servers = v.config.servers) (hp : p ∈ s.peers) :
    c.getServer p.id = some p.config := v.getServer_of_mem hc (h.peer_mem hp).1

theorem reconfigure_peers (hc : c.servers = v.config.servers) :
    (s.reconfigure c).peers = s.peers := by
  have hadded : c.servers.filter (fun sc => sc.id != s.id && (s.findPeer sc.id).isNone) = [] := by
    rw [filter_eq_nil_iff, hc]
    intro sc hsc hcond
    simp only [Bool.and_eq_true, bne_iff_ne, h.id] at hcond
    obtain ⟨p, hp, hpc⟩ := h.exists_peer hsc hcond.1
    have hnone := find?_eq_none.mp (Option.isNone_iff_eq_none.mp hcond.2) p hp
    simp [Peer.id, hpc] at hnone
  have hremoved : (s.peers.map Peer.id).filter (fun j => (c.getServer j).isNone) = [] := by
    rw [filter_eq_nil_iff]
    intro j hj hnone
    obtain ⟨p, hp, rfl⟩ := mem_map.mp hj
    rw [h.getServer_peer hc hp] at hnone
    cases hnone
  have hown : (s.withOwnConfig c).peers = s.peers := by
    unfold withOwnConfig
    cases c.getServer s.id <;> rfl
  rw [reconfigure, hadded, hremoved]
  simp only [foldl_nil, updateTargetPriority_peers, refreshPeerConfigs_peers,
    switchConfig_peers, leaveIfRemoved_peers, addPeers_peers, map_nil, append_nil, hown]
  refine (map_congr_left ?_).trans (map_id s.peers)
  intro p hp
  rw [h.getServer_peer hc hp]
  rfl

theorem reconfigure_member (hc : c.servers = v.config.servers) :
    Member v.config.servers params i (s.reconfigure c) := by
  have hown : (s.withOwnConfig c).imLearner = false ∧ (s.withOwnConfig c).state.catchingUp = false ∧
      (s.withOwnConfig c).savedState.catchingUp = false := by
    unfold withOwnConfig
    cases hget : c.getServer s.id with
    | none => exact ⟨h.voting, h.caughtUp, h.savedCaughtUp⟩
    | some sc =>
      have hsc : sc ∈ v.config.servers := hc ▸ mem_of_find?_eq_some hget
      refine ⟨(v.voting sc hsc).1, by simp [h.caughtUp], ?_⟩
      simp only [Option.elim_some, applyOwnConfig_savedState]
      split
      · rfl
      · exact h.savedCaughtUp
  have hpeers := reconfigure_peers h hc
  exact {
    id := by simpa using h.id
    params := by simpa using h.params
    config := by simpa using hc
    others := by rw [hpeers]; exact h.others
    peers := by rw [hpeers]; exact h.peers
    noLeaver := by simpa using h.noLeaver
    voting := by simpa using hown.1
    caughtUp := by simpa using hown.2.1
    savedCaughtUp := by simpa using hown.2.2
    log := by simpa using h.log
    last := by simpa using h.last
    creating := by simpa using h.creating
    applying := by simpa using h.applying }

theorem executeEntry_member {e : LogEntry} {k : Nat} (he : s.log.entryAt k = some e) :
    Member v.config.servers params i (s.executeEntry e) := by
  unfold executeEntry
  split
  · exact h
  next c hval =>
  have hc : c.servers = v.config.servers := by
    refine h.log e ?_ c (by simp [LogEntry.conf?, hval])
    exact mem_of_getElem? (entryAt_eq_some_iff.mp he).2
  have hend : Member v.config.servers params i s.endConfigChange := h.of_view rfl h.savedCaughtUp
  unfold commitConf
  split
  · exact reconfigure_member hend hc
  · exact hend

end

/-! ## Snapshots -/

theorem snapshotConfig_of (h : Member servers params i s) (k fuel : Nat)
    (hc : c.servers = servers) : (s.snapshotConfig k fuel c).servers = servers := by
  induction fuel generalizing c with
  | zero => exact hc
  | succ fuel ih =>
    unfold snapshotConfig
    split
    · split
      · rename_i c' hlink
        obtain ⟨e, he, hconf⟩ := Option.bind_eq_some_iff.mp hlink
        refine ih (h.log e ?_ c' hconf)
        exact mem_of_getElem? (entryAt_eq_some_iff.mp he).2
      · exact hc
    · exact hc

theorem snapshotAndCompact_member (h : Member servers params i s) (env : Env) (forced : Bool) :
    Member servers params i (s.snapshotAndCompact env forced) := by
  have hsnp : s.snapshotToCreate.Of servers := by
    have hlink := snapshotConfig_of h s.smCommitIndex s.log.entries.length h.config
    dsimp only [snapshotToCreate, newSnapshot, Snapshot.Of]
    split
    · cases hlast : s.lastSnapshot with
      | none => exact hlink
      | some snp => exact h.last snp hlast
    · exact hlink
  refine { h with creating := ?_ }
  intro snp hmem
  simp only [snapshotAndCompact_snpInProgress] at hmem
  split at hmem
  · cases hmem
    exact hsnp
  · exact h.creating snp hmem

theorem adoptSnapshot_member (h : Member servers params i s) {snp : Snapshot}
    (hsnp : s.snpInProgress = some snp) :
    Member servers params i (s.adoptSnapshot (s.latestSnapshot snp)) := by
  refine { h with log := ?_, last := ?_, creating := fun _ hnone => nomatch hnone }
  · intro e he
    refine h.log e ?_
    simp only [adoptSnapshot_log] at he
    unfold compactedLog at he
    split at he
    · exact mem_compact he
    · exact he
  · intro snp' hmem
    cases hmem
    unfold latestSnapshot
    split
    · next old hold =>
      split
      · exact h.last old hold
      · exact h.creating snp hsnp
    · exact h.creating snp hsnp

theorem compactTo_member (h : Member servers params i s) (pending : PendingInstall) :
    Member servers params i (s.compactTo pending) := by
  refine { h with savedCaughtUp := h.caughtUp, log := ?_, applying := ?_ }
  · intro e he
    exact h.log e (mem_compact he)
  · intro p hp
    exact h.applying p (mem_of_mem_erase hp)

theorem finishSnapshot_member (hadj : params.autoAdjustQuorumForSmallCluster = false)
    (h : Member v.config.servers params i s) {pending : PendingInstall}
    {r : RaftServer × RespMsg} (hpend : pending ∈ s.applyingSnapshots)
    (hr : s.finishSnapshot pending = some r) : Member v.config.servers params i r.1 := by
  have hsnp := h.applying pending hpend
  have hcompact := compactTo_member h pending
  -- the indices are assigned whether or not the configuration is new
  have hassign {u : RaftServer} (hu : Member v.config.servers params i u) :
      Member v.config.servers params i (u.assignIndices pending.snapshot) := by
    refine { hu with savedCaughtUp := hu.caughtUp, last := ?_ }
    intro snp hmem
    cases hmem
    exact hu.config
  unfold finishSnapshot at hr
  split at hr
  · cases hr
  · cases hr
    refine (hassign ?_).of_steady hadj (restartElectionTimer_steady _)
    split
    · exact reconfigure_member hcompact hsnp
    · exact hcompact

end Voting

/-! ## Replication -/

theorem writeEntries_member (h : Member servers params i s) {es : List LogEntry}
    (hes : ∀ e ∈ es, e.Of servers) (first : Nat) :
    Member servers params i (s.writeEntries first es) := by
  obtain ⟨k, _, heq, _, _⟩ := skipLoop_spec s.log first es
  have hlog : ∀ e ∈ (s.log.writeFrom (first + k) (es.drop k)).entries, e.Of servers := by
    intro e he
    rcases mem_writeFrom he with hold | hnew
    · exact h.log e hold
    · exact hes e (mem_of_mem_drop hnew)
  rw [writeEntries, heq]
  dsimp only
  split <;> exact (h.with_log hlog).of_view rfl h.savedCaughtUp

theorem acceptEntries_member (hadj : params.autoAdjustQuorumForSmallCluster = false)
    (h : Member servers params i s) (req : ReqMsg) {es : List LogEntry}
    (hes : ∀ e ∈ es, e.Of servers) : Member servers params i (s.acceptEntries req es) := by
  have hwrite : Member servers params i
      (if es = [] then s else s.writeEntries (req.lastLogIdx + 1) es) := by
    split
    · exact h
    · exact writeEntries_member h hes _
  dsimp only [acceptEntries]
  generalize (if es = [] then s else _) = u at hwrite ⊢
  have hnote : Member servers params i ((u.noteLeader req).tryUpdatePrecommitIndex
      (req.lastLogIdx + es.length)) := hwrite.of_view rfl hwrite.savedCaughtUp
  split
  · exact (commit_member hnote _).of_steady hadj (restartElectionTimer_steady _)
  · exact commit_member hnote _

theorem BuiltReq.of_member (h : Member servers params i s) {p p' : Peer} {req : ReqMsg}
    (hp : p.Of servers) (hr : s.BuiltReq p p' req) (hleave : p'.leaveRequested = p.leaveRequested) :
    p'.Of servers ∧ req.Of servers := by
  have hstay : p'.leaveRequested = false := hleave.trans hp.staying
  cases hr with
  | entries last es _ _ hes hctx hreq =>
    subst hreq
    refine ⟨⟨hstay, by rw [hctx]; exact hp.syncing⟩, ?_⟩
    intro e he
    exact h.log e (mem_of_mem_drop (hes.subset he))
  | snapshot ctx last hctx hctx' hreq =>
    subst hreq
    have hof : ctx.snapshot.Of servers := by
      rcases hctx with hold | ⟨hlast, _⟩
      · exact hp.syncing ctx hold
      · exact h.last _ hlast
    refine ⟨⟨hstay, ?_⟩, hof⟩
    intro ctx' hctx''
    cases hctx' ▸ hctx''
    exact hof
  | outOfRange note hctx hbody =>
    refine ⟨⟨hstay, by rw [hctx]; exact hp.syncing⟩, ?_⟩
    rw [ReqMsg.Of, hbody]
    trivial

section Voting

variable {v : VotingConfig}

theorem requestAppendEntriesTo_member (h : Member v.config.servers params i s) {dst : Int}
    {reconnect : Bool} {custom : Nat} {r : RaftServer × ReqMsg}
    (hr : s.requestAppendEntriesTo env dst reconnect custom = some r) :
    Member v.config.servers params i r.1 ∧ r.2.Of v.config.servers := by
  unfold requestAppendEntriesTo at hr
  split at hr
  · cases hr
  split at hr
  · cases hr
  rename_i p hfind
  dsimp only at hr
  generalize hq : (if reconnect = true ∧ p.nextLogIdx ≠ 0 then
    ({ p with nextLogIdx := 0, matchedIdx := 0 } : Peer) else p) = q at hr
  have hp := h.peers p (mem_of_find?_eq_some hfind)
  have hpid : p.id = dst := by simpa using find?_some hfind
  have hqp : q.Of v.config.servers ∧ q.config = p.config := by
    rw [← hq]
    split
    · exact ⟨⟨hp.staying, hp.syncing⟩, rfl⟩
    · exact ⟨hp, rfl⟩
  split at hr
  · cases hr
  · rename_i p' req hbuilt
    cases hr
    obtain ⟨hb, hconf, _, hleave⟩ := createAppendEntriesReq_built s hbuilt
    obtain ⟨hp', hreq⟩ := hb.of_member h hqp.1 hleave
    refine ⟨?_, hreq⟩
    -- only the entry of `dst` is replaced, by one of the same server
    refine { h with others := ?_, peers := ?_ }
    · rw [← h.others]
      simp only [updatePeer_peers, map_map]
      refine map_congr_left ?_
      intro p₀ hp₀
      simp only [Function.comp_apply]
      split
      · rename_i hid
        rw [h.peer_unique hp₀ (mem_of_find?_eq_some hfind) (hid.trans hpid.symm)]
        simp only [hconf, hqp.2]
      · rfl
    · intro p₀ hp₀
      obtain ⟨p₁, hp₁, rfl⟩ := mem_map.mp hp₀
      split
      · exact ⟨hp'.staying, hp'.syncing⟩
      · exact h.peers p₁ hp₁

theorem checkSrvToLeaveTimeout_member (h : Member servers params i s) (env : Env) :
    Member servers params i (s.checkSrvToLeaveTimeout env) := by
  refine h.of_view ?_ h.savedCaughtUp
  simp [memberView, h.noLeaver]

theorem updatePeer_member (h : Member servers params i s) (id : Int)
    (hconf : ∀ p, (f p).config = p.config) (hof : ∀ p, p.Of servers → (f p).Of servers) :
    Member servers params i (s.updatePeer id f) := by
  refine h.map_peers (f := fun p => if p.id = id then f p else p) ?_ ?_ rfl rfl
  · intro p
    split
    · exact hconf p
    · rfl
  · intro p hp
    split
    · exact hof p (h.peers p hp)
    · exact h.peers p hp

theorem recordAppendResp_member (h : Member servers params i s) (env : Env) (resp : RespMsg) :
    Member servers params i (s.recordAppendResp env resp) := by
  unfold recordAppendResp
  split
  · have hmatch : Member servers params i
        (s.updatePeer resp.src (Peer.onAppendAccepted resp)) :=
      updatePeer_member h resp.src (fun _ => rfl) (fun p hp => ⟨hp.staying, hp.syncing⟩)
    exact commit_member hmatch _
  · refine updatePeer_member h resp.src ?_ ?_
    · intro p
      unfold Peer.onAppendRejected
      split <;> rfl
    · intro p hp
      unfold Peer.onAppendRejected
      split <;> exact ⟨hp.staying, hp.syncing⟩

theorem onInstallSnapshotResp_of (hp : p.Of servers) (resp : RespMsg) :
    (p.onInstallSnapshotResp resp).Of servers := by
  have hnone (ctx : SnapshotSyncCtx) (hctx : (none : Option SnapshotSyncCtx) = some ctx) :
      ctx.snapshot.Of servers := by cases hctx
  unfold Peer.onInstallSnapshotResp
  split
  · split
    · exact hp
    · rename_i ctx hctx
      split
      · exact ⟨hp.staying, hnone⟩
      · refine ⟨hp.staying, ?_⟩
        intro ctx' hctx'
        cases hctx'
        exact hp.syncing ctx hctx
  · exact ⟨hp.staying, hnone⟩

theorem PeerTold.member {input : Input} {id : Int}
    (hf : PeerTold env s input id f) (h : Member servers params i s) :
    Member servers params i (s.updatePeer id f) := by
  cases hf with
  | installed _ _ =>
    refine updatePeer_member h _ ?_ (fun p hp => onInstallSnapshotResp_of hp _)
    intro p
    unfold Peer.onInstallSnapshotResp
    repeat' split
    all_goals rfl
  | located _ _ _ =>
    exact updatePeer_member h _ (fun _ => rfl) (fun p hp => ⟨hp.staying, hp.syncing⟩)
  | aborted =>
    exact updatePeer_member h _ (fun _ => rfl) (fun p hp => ⟨hp.staying, nofun⟩)

theorem restart_member (h : Member v.config.servers params i s) (applied : Nat) :
    Member v.config.servers params i (s.restart applied) := by
  have hnone (snp : Snapshot) (hsnp : (none : Option Snapshot) = some snp) :
      snp.Of v.config.servers := by cases hsnp
  refine ⟨h.id, h.params, h.config, ?_, ?_, rfl, ?_, h.savedCaughtUp, h.savedCaughtUp, h.log,
    h.last, hnone, by simp [restart]⟩
  · simp only [restart, map_map, h.config, h.id]
    exact map_id _
  · intro p hp
    obtain ⟨c, _, rfl⟩ := mem_map.mp hp
    refine ⟨rfl, ?_⟩
    intro ctx hctx
    cases hctx
  · simp only [restart]
    cases hown : s.config.getServer s.id with
    | none => rfl
    | some c =>
      have hc : c ∈ v.config.servers := h.config ▸ mem_of_find?_eq_some hown
      exact (v.voting c hc).1

/-! ## Steps of a member -/

/-- What reaches a server of a fixed cluster. -/
def FixedInput (servers : List SrvConfig) : Input → Prop
  | .request req => req.Of servers ∨ ∃ bufs, req.body = .clientRequest bufs
  | .response _ => True
  | input => Cluster.Allowed input = true

theorem FixedInput.not_checksLeaver {req : ReqMsg} (hin : FixedInput servers (.request req)) :
    ¬ (Input.request req).checksLeaver = true := by
  cases hbody : req.body <;> simp_all [FixedInput, ReqMsg.Of, Input.checksLeaver]

theorem FixedInput.not_edits {input : Input} (hin : FixedInput servers input) :
    ¬ EditsInPlace s input := by
  intro hedit
  cases input with
  | request req =>
    obtain ⟨change, hbody⟩ := hedit
    simp [FixedInput, ReqMsg.Of, hbody] at hin
  | setPriority _ _ _ => cases hin
  | _ => cases hedit

theorem Member.not_leaveFailed (h : Member servers params i s) {input : Input}
    {id : Int} {w : RaftServer} (hin : FixedInput servers input) :
    ¬ LeaveFailed env s input id w := by
  intro hf
  cases hf with
  | ext _ => cases hin
  | @peer _ p hp hleave =>
    rw [(h.peers p (mem_of_find?_eq_some hp)).staying] at hleave
    cases hleave

theorem not_readied (h : Member v.config.servers params i s) {input : Input}
    {op : ConfOp} {u : RaftServer} (hin : FixedInput v.config.servers input)
    (hop : Readied env s input op u) : False := by
  cases hop with
  | @promoted resp p _ _ hp hready =>
    have hrec := recordAppendResp_member (checkSrvToLeaveTimeout_member h env) env resp
    have hvoting := v.voting _ (hrec.peer_mem (mem_of_find?_eq_some hp)).1
    simp [readyForPromotion, hvoting.2] at hready
  | joined hj _ => cases hj <;> cases hin
  | unheard hf _ => exact h.not_leaveFailed hin hf
  | _ => cases hin

theorem step_member (hadj : params.autoAdjustQuorumForSmallCluster = false)
    (h : Member v.config.servers params i s) {input : Input} {o : Output}
    (hin : FixedInput v.config.servers input) (hstep : s.step env input = some (t, o)) :
    Member v.config.servers params i t ∧ AllOf v.config.servers o.sent := by
  have hcheck := checkSrvToLeaveTimeout_member h env
  cases step_moves hstep with
  | steady hs ho => exact ⟨h.of_steady hadj hs, ho.allOf⟩
  | elected u hu _ ht _ _ ho =>
    have hlead := requestAppendEntries_member (takeLeadership_member (h.of_steady hadj hu)) env
    exact ⟨hlead.of_steady hadj ht, ho.allOf⟩
  | outOfRange u hu ht ho =>
    have hu' := h.of_steady hadj hu
    have hlost : Member v.config.servers params i { u with outOfLogRange := true } :=
      hu'.of_view rfl hu'.savedCaughtUp
    exact ⟨hlost.of_steady hadj ht, ho.allOf⟩
  | stored k _ _ _ =>
    refine ⟨requestAppendEntries_member ?_ env, AllOf.nil⟩
    refine (h.with_log ?_).of_view rfl h.savedCaughtUp
    intro e he
    rw [appendLoop_entries] at he
    rcases mem_append.mp he with hold | hnew
    · exact h.log e hold
    · obtain ⟨b, -, rfl⟩ := mem_map.mp hnew
      intro c hc
      cases hc
  | @accepted req es u hbody hu _ _ _ =>
    have hes : ∀ e ∈ es, e.Of v.config.servers := by
      simpa [FixedInput, ReqMsg.Of, hbody] using hin
    exact ⟨acceptEntries_member hadj (h.of_steady hadj hu) req hes, AllOf.nil⟩
  | @parked req obj u hbody hu _ _ =>
    have hobj : obj.snapshot.Of v.config.servers := by
      simpa [FixedInput, ReqMsg.Of, hbody] using hin
    have hrecv := (h.of_steady hadj hu).of_steady hadj (startReceiving_steady u)
    refine ⟨{ hrecv with applying := ?_ }, AllOf.nil⟩
    intro p hp
    rcases mem_cons.mp hp with rfl | hold
    · exact hobj
    · exact hrecv.applying p hold
  | packed _ hbody _ _ => simp [FixedInput, ReqMsg.Of, hbody] at hin
  | joins hbody _ _ => simp [FixedInput, ReqMsg.Of, hbody] at hin
  | edited _ _ _ _ hedit _ => exact absurd hedit hin.not_edits
  | timed _ ht ho => exact ⟨hcheck.of_steady hadj ht, ho.allOf⟩
  | invited _ hbody _ => exact absurd hbody hin.not_checksLeaver
  | asked _ hbody _ => exact absurd hbody hin.not_checksLeaver
  | @recorded resp _ _ _ _ ht ho =>
    exact ⟨(recordAppendResp_member hcheck env resp).of_steady hadj ht, ho.allOf⟩
  | leaverGone _ hcaught =>
    rw [leaverCaughtUp, hcheck.noLeaver] at hcaught
    cases hcaught
  | told hf => exact ⟨hf.member h, AllOf.nil⟩
  | sent hr =>
    have hsend := requestAppendEntriesTo_member h hr
    refine ⟨hsend.1, ?_⟩
    intro m hm
    rw [mem_singleton.mp hm]
    exact hsend.2
  | joiner hj => rcases hj.about with rfl | ⟨_, _, rfl⟩ <;> cases hin
  | joinFailed => cases hin
  | gaveUp hf _ => exact absurd hf (h.not_leaveFailed hin)
  | operated hop => exact absurd hop (not_readied h hin)
  | applied he _ =>
    have hconf := executeEntry_member h he
    exact ⟨hconf.of_view rfl hconf.savedCaughtUp, AllOf.nil⟩
  | adjusted => exact ⟨h.of_view rfl h.savedCaughtUp, AllOf.nil⟩
  | creating => exact ⟨snapshotAndCompact_member h env _, AllOf.nil⟩
  | created hsnp => exact ⟨adoptSnapshot_member h hsnp, AllOf.nil⟩
  | dropped _ => exact ⟨{ h with creating := fun _ hnone => nomatch hnone }, AllOf.nil⟩
  | installed hmem hr => exact ⟨finishSnapshot_member hadj h hmem hr, AllOf.nil⟩
  | urged => exact ⟨requestAppendEntries_member h env, AllOf.nil⟩
  | durable _ => exact ⟨commit_member h _, AllOf.nil⟩
  | restarted _ => exact ⟨restart_member h _, AllOf.nil⟩

end Voting

end RaftServer

/-! ## Runs of a cluster -/

namespace Cluster

open RaftServer

variable {v : VotingConfig} {ps : Int → RaftParams} {c c' : Cluster}

structure Fixed (v : VotingConfig) (ps : Int → RaftParams) (c : Cluster) : Prop where
  members : c.members = v.config.servers.map SrvConfig.id
  srv : ∀ i ∈ c.members, Member v.config.servers (ps i) i (c.srv i)
  reqs : AllOf v.config.servers c.reqs

theorem init_fixed (v : VotingConfig) (ps : Int → RaftParams) : Fixed v ps (init v ps) := by
  refine ⟨rfl, ?_, AllOf.nil⟩
  intro i _
  have hnone (snp : Snapshot) (hsnp : (none : Option Snapshot) = some snp) :
      snp.Of v.config.servers := by cases hsnp
  refine ⟨rfl, rfl, rfl, ?_, ?_, rfl, ?_, rfl, rfl, ?_, hnone, hnone, ?_⟩
  · simp only [init, fresh, restart, map_map]
    exact map_id _
  · intro p hp
    obtain ⟨sc, _, rfl⟩ := mem_map.mp hp
    refine ⟨rfl, ?_⟩
    intro ctx hctx
    cases hctx
  · simp only [init, fresh, restart]
    cases hown : v.config.getServer i with
    | none => rfl
    | some sc => exact (v.voting sc (mem_of_find?_eq_some hown)).1
  · intro e he
    cases he
  · intro p hp
    cases hp

theorem Fixed.input (h : Fixed v ps c) {i : Int} {input : Input} {reqs : List ReqMsg}
    {resps : List RespMsg} (htook : c.Took i input reqs resps) :
    FixedInput v.config.servers input := by
  cases htook with
  | inner hallowed => cases input <;> first | exact hallowed | cases hallowed
  | client bufs => exact .inr ⟨bufs, rfl⟩
  | request hk _ => exact .inl (h.reqs _ (mem_of_getElem? hk))
  | response _ _ => trivial

theorem Fixed.update (hadj : ∀ i, (ps i).autoAdjustQuorumForSmallCluster = false)
    (h : Fixed v ps c) {i : Int} (hi : i ∈ c.members) {input : Input} {t : RaftServer}
    {o o' : Output} {reqs : List ReqMsg} {resps : List RespMsg}
    (htook : c.Took i input reqs resps) (hstep : (c.srv i).step env input = some (t, o))
    (hout : c.Emits i input o o') :
    Fixed v ps (Cluster.update { c with reqs := reqs, resps := resps } i t o') := by
  obtain ⟨ht, hof⟩ := step_member (hadj i) (h.srv i hi) (h.input htook) hstep
  refine ⟨h.members, ?_, ?_⟩
  · intro j hj
    simp only [Cluster.update]
    split
    · rename_i hji
      rwa [hji]
    · exact h.srv j hj
  · intro m hm
    rcases mem_append.mp hm with hnew | hold
    · exact hof m (hout.sent ▸ hnew)
    · exact h.reqs m (htook.reqs_subset.1.subset hold)

theorem Fixed.dupReq (h : Fixed v ps c) {m : ReqMsg} (hm : m ∈ c.reqs) :
    Fixed v ps { c with reqs := m :: c.reqs } := by
  refine ⟨h.members, h.srv, ?_⟩
  intro m' hm'
  rcases mem_cons.mp hm' with rfl | hold
  · exact h.reqs _ hm
  · exact h.reqs m' hold

theorem step_fixed (hadj : ∀ i, (ps i).autoAdjustQuorumForSmallCluster = false)
    (h : Fixed v ps c) {a : Action} (hstep : c.step a = some c') : Fixed v ps c' := by
  cases step_moves hstep with
  | server _ hi htook hs hout hc =>
    subst hc
    exact h.update hadj hi htook hs hout
  | dupReq hm _ hc =>
    subst hc
    exact h.dupReq hm
  | dupResp _ _ hc =>
    subst hc
    exact { h with }

end Cluster

end Raft
end Xio
