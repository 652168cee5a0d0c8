import Xio.Raft.LogAuthority
import Xio.Raft.LogMatching

/-!
# Raft.NextIndex — how far a leader believes its peers to be

A leader sends a peer what follows `next_log_idx_`, and `create_append_entries_req` ends the process
when that index is beyond the leader's own log. Four response handlers overwrite the index with what
the peer reported, without a comparison with the log.

The bound is an invariant of a leader's states as long as no report is beyond `precommit_index_ + 1`:
elections reset the index, the log of a leader only grows, and snapshots that were taken of it end
inside it. With two mutexes a client's thread, and without them a call that takes no lock, stores its
entries and raises `precommit_index_` in separate steps, and the commit thread may come between them
and give a new peer the end of the log. `Streaming.act` has both steps, at any time.
-/

namespace Xio
namespace Raft

open List Option RaftServer LogStore

variable {custom : Nat} {resp : RespMsg}

/-- Neither the next index nor the snapshot that is being sent is beyond the slot. -/
def Peer.Within (p : Peer) (slot : Nat) : Prop :=
  p.nextLogIdx ≤ slot ∧ ∀ ctx ∈ p.snpSyncCtx, ctx.snapshot.lastLogIdx < slot

namespace Peer.Within

variable {p q : Peer} {m n : Nat}

theorem mono (h : p.Within m) (hle : m ≤ n) : p.Within n :=
  ⟨h.1.trans hle, fun ctx hctx => Nat.lt_of_lt_of_le (h.2 ctx hctx) hle⟩

theorem of_same (h : p.Within n) (hnext : q.nextLogIdx = p.nextLogIdx)
    (hctx : q.snpSyncCtx = p.snpSyncCtx) : q.Within n := by
  rw [Within, hnext, hctx]
  exact h

theorem of_next (h : p.Within n) (hnext : q.nextLogIdx ≤ n)
    (hctx : q.snpSyncCtx = p.snpSyncCtx) : q.Within n := by
  rw [Within, hctx]
  exact ⟨hnext, h.2⟩

theorem of_no_ctx (hnext : q.nextLogIdx ≤ n) (hctx : q.snpSyncCtx = none) : q.Within n := by
  rw [Within, hctx]
  exact ⟨hnext, fun ctx h => nomatch h⟩

end Peer.Within

namespace RaftServer

variable {s t u : RaftServer} {env : Env} {input : Input} {req : ReqMsg} {k : Nat}

/-! ## The invariant and the operations that keep it -/

/-- The entries up to an index are pre-committed, and no peer is believed to be beyond those that
are. -/
structure NextBound (s : RaftServer) (k : Nat) : Prop where
  reach : k ≤ s.precommitIndex
  slot : s.precommitIndex < s.log.nextSlot
  peers : ∀ p ∈ s.peers, p.Within (s.precommitIndex + 1)
  joiner : ∀ p ∈ s.srvToJoin, p.Within (s.precommitIndex + 1)

namespace NextBound

section

variable (h : s.NextBound k)
include h

theorem of_peers (hlog : t.log = s.log) (hpre : t.precommitIndex = s.precommitIndex)
    (hpeers : ∀ p ∈ t.peers, p.Within (s.precommitIndex + 1))
    (hjoin : ∀ p ∈ t.srvToJoin, p.Within (s.precommitIndex + 1)) : t.NextBound k :=
  ⟨hpre ▸ h.reach, hpre ▸ hlog ▸ h.slot, hpre ▸ hpeers, hpre ▸ hjoin⟩

theorem grow (hpre : s.precommitIndex ≤ t.precommitIndex)
    (hslot : t.precommitIndex < t.log.nextSlot) (hpeers : t.peers = s.peers)
    (hjoin : t.srvToJoin = s.srvToJoin) : t.NextBound k := by
  refine ⟨h.reach.trans hpre, hslot, ?_, ?_⟩
  · rw [hpeers]
    exact fun p hp => (h.peers p hp).mono (Nat.succ_le_succ hpre)
  · rw [hjoin]
    exact fun p hp => (h.joiner p hp).mono (Nat.succ_le_succ hpre)

theorem of_core (hcore : t.core = s.core) (hjoin : t.srvToJoin = s.srvToJoin) : t.NextBound k := by
  have hpre : t.precommitIndex = s.precommitIndex :=
    show t.core.precommitIndex = s.core.precommitIndex from congrArg precommitIndex hcore
  refine h.of_peers (core_log hcore) hpre ?_ ?_
  · rw [core_peers hcore]
    exact h.peers
  · rw [hjoin]
    exact h.joiner

theorem commit (i : Nat) : (s.commit i).NextBound k := { h with }

theorem requestAppendEntries (env : Env) : (s.requestAppendEntries env).NextBound k := h.commit _

theorem markChanging (c : ClusterConfig) : (s.markChanging c).NextBound k :=
  { h with }

theorem resetSrvToLeave : s.resetSrvToLeave.NextBound k :=
  { h with }

theorem updatePeer (id : Int) {f : Peer → Peer}
    (hf : ∀ p ∈ s.peers, p.id = id → (f p).Within (s.precommitIndex + 1)) :
    (s.updatePeer id f).NextBound k := by
  refine h.of_peers rfl rfl ?_ h.joiner
  intro p hp
  obtain ⟨q, hq, rfl⟩ := mem_map.mp hp
  split
  · next hid => exact hf q hq hid
  · exact h.peers q hq

theorem removePeerFromPeers (id : Int) : (s.removePeerFromPeers id).NextBound k :=
  h.of_peers rfl rfl (fun p hp => h.peers p (mem_of_mem_filter hp)) h.joiner

theorem checkSrvToLeaveTimeout (env : Env) : (s.checkSrvToLeaveTimeout env).NextBound k := by
  refine h.of_peers rfl rfl ?_ h.joiner
  intro p hp
  rw [checkSrvToLeaveTimeout_peers] at hp
  split at hp
  · exact h.peers p (mem_of_mem_filter hp)
  · exact h.peers p hp

theorem setSrvToJoin {p : Peer} (hp : p.Within (s.precommitIndex + 1)) :
    (s.setSrvToJoin p).NextBound k := by
  refine h.of_peers rfl rfl h.peers ?_
  rintro q ⟨⟩
  exact hp

theorem storeConf (hrole : s.role = .leader) (term : Nat) (c : ClusterConfig) :
    (s.storeLogEntry ⟨term, .conf c⟩).NextBound k := by
  have hslot := h.slot
  have hconf : LogEntry.isConf ⟨term, .conf c⟩ = true := rfl
  have hpre : (s.storeLogEntry ⟨term, .conf c⟩).precommitIndex =
      max s.precommitIndex s.log.nextSlot := by
    simp [hconf, hrole]
  refine h.grow (by omega) ?_ (by simp) (by simp)
  simp only [hpre, storeLogEntry_log, append_nextSlot]
  omega

theorem operate (hrole : s.role = .leader) (env : Env) (op : ConfOp) :
    (s.operate env op).NextBound k := by
  unfold RaftServer.operate
  split
  · exact ((h.markChanging _).storeConf hrole _ _).requestAppendEntries env
  · exact (h.storeConf hrole _ _).requestAppendEntries env

end

theorem takeLeadership (hk : k ≤ s.log.nextSlot) : s.takeLeadership.NextBound k := by
  refine ⟨hk, by simp, ?_, ?_⟩
  · intro p hp
    obtain ⟨q, _, rfl⟩ := mem_map.mp hp
    exact .of_no_ctx (Nat.le_succ _) rfl
  · rintro p ⟨⟩

theorem of_steady (h : Steady s t) (hlead : t.role = .leader)
    (hinv : s.role = .leader → s.NextBound k) : t.NextBound k := by
  obtain ⟨hrole, _, hjoin⟩ := h.role hlead
  exact (hinv hrole).of_core h.core hjoin

end NextBound

/-! ## The configuration switch -/

/-- Every peer that the configuration adds is the joining server, which has its own next index. -/
def AddsJoinerOnly (s : RaftServer) (c : ClusterConfig) : Prop :=
  ∀ sc ∈ c.servers.filter (fun sc => sc.id != s.id && (s.findPeer sc.id).isNone),
    ∃ p ∈ s.srvToJoin, s.role = .leader ∧ p.id = sc.id

instance (s : RaftServer) (c : ClusterConfig) : Decidable (s.AddsJoinerOnly c) := by
  unfold AddsJoinerOnly
  infer_instance

namespace NextBound

section

variable (h : s.NextBound k)
include h

theorem removePeer (id : Int) : (s.removePeer id).NextBound k := by
  refine h.of_peers rfl rfl ?_ h.joiner
  intro p hp
  rw [removePeer_peers] at hp
  split at hp
  · obtain ⟨q, hq, rfl⟩ := mem_map.mp hp
    split
    · exact .of_no_ctx (h.peers q hq).1 rfl
    · exact h.peers q hq
  · exact h.peers p (mem_of_mem_filter hp)

theorem foldl_removePeer (ids : List Int) : (ids.foldl RaftServer.removePeer s).NextBound k := by
  induction ids generalizing s with
  | nil => exact h
  | cons i ids ih => exact ih (h.removePeer i)

/-- A peer that is not the joining server starts at the end of the log. -/
theorem addPeers {added : List SrvConfig}
    (hadd : s.log.nextSlot ≤ s.precommitIndex + 1 ∨
      ∀ c ∈ added, ∃ p ∈ s.srvToJoin, s.role = .leader ∧ p.id = c.id) :
    (s.addPeers added).NextBound k := by
  refine h.of_peers rfl rfl ?_ ?_
  · intro p hp
    rcases mem_append.mp hp with hold | hnew
    · exact h.peers p hold
    obtain ⟨c, hc, rfl⟩ := mem_map.mp hnew
    refine .of_no_ctx ?_ rfl
    have hend (hnot : ¬ ∃ p ∈ s.srvToJoin, s.role = .leader ∧ p.id = c.id) :
        s.log.nextSlot ≤ s.precommitIndex + 1 :=
      hadd.resolve_right (fun hall => hnot (hall c hc))
    unfold newPeer
    split
    · next q hq =>
      split
      · exact (h.joiner q hq).1
      · next hne =>
        refine hend ?_
        rintro ⟨p, hp, hrole, hid⟩
        cases hq.symm.trans hp
        exact hne ⟨hrole, hid⟩
    · next hnone =>
      refine hend ?_
      rintro ⟨p, hp, _⟩
      cases hnone.symm.trans hp
  · intro p hp
    exact h.joiner p (mem_filter_iff.mp hp).1

theorem refreshPeerConfigs (c : ClusterConfig) : (s.refreshPeerConfigs c).NextBound k := by
  refine h.of_peers rfl rfl ?_ h.joiner
  intro p hp
  obtain ⟨q, hq, rfl⟩ := mem_map.mp hp
  split
  · exact (h.peers q hq).of_same rfl rfl
  · exact h.peers q hq

theorem withOwnConfig (c : ClusterConfig) : (s.withOwnConfig c).NextBound k := by
  unfold RaftServer.withOwnConfig
  cases c.getServer s.id <;> exact { h with }

theorem reconfigure {c : ClusterConfig}
    (hadd : s.log.nextSlot ≤ s.precommitIndex + 1 ∨ s.AddsJoinerOnly c) :
    (s.reconfigure c).NextBound k := by
  have hown : (s.withOwnConfig c).log = s.log ∧
      (s.withOwnConfig c).precommitIndex = s.precommitIndex ∧
      (s.withOwnConfig c).srvToJoin = s.srvToJoin ∧ (s.withOwnConfig c).role = s.role := by
    unfold RaftServer.withOwnConfig
    cases c.getServer s.id <;> exact ⟨rfl, rfl, rfl, rfl⟩
  have hadded : (((s.withOwnConfig c).addPeers (c.servers.filter
      (fun sc => sc.id != s.id && (s.findPeer sc.id).isNone))).leaveIfRemoved c).NextBound k := by
    refine { (h.withOwnConfig c).addPeers ?_ with }
    rw [hown.1, hown.2.1, hown.2.2.1, hown.2.2.2]
    exact hadd.imp_right (fun hall sc hsc => hall sc hsc)
  have hremoved := hadded.foldl_removePeer
    ((s.peers.map Peer.id).filter (fun i => (c.getServer i).isNone))
  have hlast := NextBound.refreshPeerConfigs (s := (((s.peers.map Peer.id).filter
    (fun i => (c.getServer i).isNone)).foldl RaftServer.removePeer (((s.withOwnConfig c).addPeers
      (c.servers.filter (fun sc => sc.id != s.id && (s.findPeer sc.id).isNone))).leaveIfRemoved
        c)).switchConfig c) { hremoved with } c
  exact { hlast with }

end

end NextBound

/-! ## Sending -/

/-- Snapshots of a leader end inside what it has pre-committed. -/
@[mk_iff] structure SnapshotsWithin (s : RaftServer) : Prop where
  last : ∀ snp ∈ s.lastSnapshot, snp.lastLogIdx < s.precommitIndex + 1
  created : ∀ snp ∈ s.snpInProgress, snp.lastLogIdx < s.precommitIndex + 1

instance (s : RaftServer) : Decidable s.SnapshotsWithin :=
  decidable_of_iff' _ (snapshotsWithin_iff s)

theorem createSyncSnapshotReq_within {p p' : Peer} {last : Nat}
    (hp : p.Within (s.precommitIndex + 1)) (hsnp : s.SnapshotsWithin)
    (h : s.createSyncSnapshotReq env p last = some (p', req)) : p'.Within (s.precommitIndex + 1) := by
  unfold createSyncSnapshotReq at h
  split at h
  · cases h
  next ctx hctx =>
  cases h
  refine ⟨hp.1, ?_⟩
  rintro ctx' ⟨⟩
  rcases s.syncContext_cases hctx with hold | ⟨hnew, _⟩
  · exact hp.2 ctx hold
  · exact hsnp.last ctx.snapshot hnew

theorem createAppendEntriesReq_within {p p' : Peer}
    (hp : p.Within (s.precommitIndex + 1)) (hsnp : s.SnapshotsWithin)
    (h : s.createAppendEntriesReq env p custom = some (p', req)) : p'.Within (s.precommitIndex + 1) := by
  dsimp only [createAppendEntriesReq] at h
  -- a peer without a next index gets the end of the log
  have hq : (if p.nextLogIdx = 0 then ({ p with nextLogIdx := s.precommitIndex + 1 } : Peer)
      else p).Within (s.precommitIndex + 1) := by
    split
    · exact hp.of_next le_rfl rfl
    · exact hp
  generalize (if p.nextLogIdx = 0 then ({ p with nextLogIdx := s.precommitIndex + 1 } : Peer)
    else p) = q at h hq
  generalize (if 0 < custom then custom else q.nextLogIdx - 1) = last at h
  split at h
  · cases h
  split at h
  · cases h
    exact hq.of_same rfl rfl
  split at h
  · refine createSyncSnapshotReq_within ?_ hsnp h
    exact hq.of_same rfl rfl
  · cases h
    exact hq.of_same rfl rfl

theorem requestAppendEntriesTo_bound {dst : Int} {reconnect : Bool}
    {r : RaftServer × ReqMsg} (hs : s.NextBound k) (hsnp : s.SnapshotsWithin)
    (h : s.requestAppendEntriesTo env dst reconnect custom = some r) : r.1.NextBound k := by
  unfold requestAppendEntriesTo at h
  split at h
  · cases h
  split at h
  · cases h
  next p hp =>
  dsimp only at h
  split at h
  · cases h
  next p' req hbuilt =>
  cases h
  have hpeer := hs.peers p (mem_of_find?_eq_some hp)
  have hreset : (if reconnect = true ∧ p.nextLogIdx ≠ 0 then
      ({ p with nextLogIdx := 0, matchedIdx := 0 } : Peer) else p).Within (s.precommitIndex + 1) := by
    split
    · exact hpeer.of_next (Nat.zero_le _) rfl
    · exact hpeer
  have hp' := createAppendEntriesReq_within hreset hsnp hbuilt
  exact hs.updatePeer dst (fun _ _ _ => hp'.of_same rfl rfl)

/-! ## Reports of peers -/

/-- What the response says about the end of a peer's log is inside what the leader has
pre-committed. -/
def ReportsWithin (s : RaftServer) : Input → Prop
  | .response resp => resp.term ≤ s.state.term →
      ((resp.type = .appendEntries ∨ resp.type = .customNotification) → resp.accepted = true →
        resp.nextIdx ≤ s.precommitIndex + 1) ∧
      (resp.type = .installSnapshot → resp.accepted = false → resp.nextIdx ≤ s.precommitIndex + 1)
  | .extResponse resp _ =>
    (resp.type = .syncLog → resp.nextIdx ≤ s.precommitIndex + 1) ∧
    (resp.type = .installSnapshot → resp.accepted = false → resp.nextIdx ≤ s.precommitIndex + 1)
  | _ => True

instance (s : RaftServer) (input : Input) : Decidable (s.ReportsWithin input) := by
  rcases input with ⟨⟩ <;> (dsimp only [ReportsWithin]; infer_instance)

/-- What a leader may be told and may have, for its peers to stay within its log. -/
@[mk_iff] structure StaysWithin (s : RaftServer) (input : Input) : Prop where
  reports : s.ReportsWithin input
  snapshots : s.SnapshotsWithin
  packs : s.RefusesPacks input
  /-- Whoever is added starts at `next_slot()`, which is not ahead of what was pre-committed. -/
  adds : input = .commitNext → s.log.nextSlot ≤ s.precommitIndex + 1 ∨
    ∀ e ∈ s.log.entryAt (s.smCommitIndex + 1), ∀ c ∈ e.conf?, s.AddsJoinerOnly c

instance (s : RaftServer) (input : Input) : Decidable (s.StaysWithin input) :=
  decidable_of_iff' _ (staysWithin_iff s input)

theorem onAppendRejected_within {p : Peer} {slot : Nat} (h : p.Within slot) (resp : RespMsg) :
    (p.onAppendRejected resp).Within slot := by
  unfold Peer.onAppendRejected
  split
  · next hlt => exact h.of_next (Nat.le_of_lt (hlt.2.trans_le h.1)) rfl
  · refine h.of_next ?_ rfl
    split
    · exact h.1
    · exact (Nat.sub_le _ _).trans h.1

theorem onInstallSnapshotResp_within {p : Peer} {slot : Nat} (h : p.Within slot)
    (hdeclined : resp.accepted = false → resp.nextIdx ≤ slot) :
    (p.onInstallSnapshotResp resp).Within slot := by
  unfold Peer.onInstallSnapshotResp
  split
  · split
    · exact h
    next ctx hctx =>
    split
    · exact .of_no_ctx (h.2 ctx hctx) rfl
    · refine ⟨h.1, ?_⟩
      rintro ctx' ⟨⟩
      exact h.2 ctx hctx
  · next hacc => exact .of_no_ctx (hdeclined (by simpa using hacc)) rfl

theorem joinerAnswered_within {p : Peer} {slot : Nat} (h : p.Within slot)
    (hdeclined : resp.accepted = false → resp.nextIdx ≤ slot) :
    (joinerAnswered resp p).Within slot := by
  unfold joinerAnswered
  split
  · exact h
  · next hacc => exact h.of_next (hdeclined (by simpa using hacc)) rfl

theorem recordAppendResp_bound (hs : s.NextBound k) (env : Env)
    (hrep : resp.accepted = true → resp.nextIdx ≤ s.precommitIndex + 1) :
    (s.recordAppendResp env resp).NextBound k := by
  unfold recordAppendResp
  split
  · next hacc =>
    refine NextBound.commit (hs.updatePeer resp.src (fun p hp _ => ?_)) _
    exact (hs.peers p hp).of_next (hrep hacc) rfl
  · exact hs.updatePeer resp.src (fun p hp _ => onAppendRejected_within (hs.peers p hp) resp)

/-! ## Joining and leaving -/

theorem Joining.within {q : Option Peer} {start : Nat} (h : Joining s input q start)
    (hs : s.NextBound k) (hcond : s.StaysWithin input) : ∀ p ∈ q, p.Within (s.precommitIndex + 1) := by
  have hrep := hcond.reports
  cases h with
  | retried hq => exact hq ▸ hs.joiner
  | welcomed _ _ hq => exact hq ▸ hs.joiner
  | @synced _ _ p htype hp =>
    rintro _ ⟨⟩
    exact (hs.joiner p hp).of_next (hrep.1 htype) rfl
  | @installed resp _ p ctx htype hp hctx =>
    rintro _ ⟨⟩
    have hanswered := joinerAnswered_within (hs.joiner p hp) (hrep.2 htype)
    unfold joinerInstalled
    split
    · exact .of_no_ctx (hanswered.2 ctx hctx) rfl
    · refine ⟨hanswered.1, ?_⟩
      rintro ctx' ⟨⟩
      exact hanswered.2 ctx hctx

theorem JoinerNoted.within {q : Option Peer} (h : JoinerNoted env s input q) (hs : s.NextBound k)
    (hcond : s.StaysWithin input) : ∀ p ∈ q, p.Within (s.precommitIndex + 1) := by
  cases h with
  | @answered _ _ p htype hp =>
    rintro _ ⟨⟩
    exact joinerAnswered_within (hs.joiner p hp) (hcond.reports.2 htype)
  | waits h => exact h.within hs hcond
  | supplied h hreq =>
    rintro _ ⟨⟩
    exact createSyncSnapshotReq_within (h.within hs hcond _ rfl) hcond.snapshots hreq

theorem LeaveFailed.bound {id : Int} {w : RaftServer} (h : LeaveFailed env s input id w)
    (hs : s.NextBound k) : (w.dropLone id).NextBound k := by
  have hw : w.NextBound k := by
    cases h with
    | ext _ => exact hs
    | peer _ _ =>
      unfold dropTransfer
      split
      · exact hs.updatePeer id (fun p hp _ => .of_no_ctx (hs.peers p hp).1 rfl)
      · exact hs
  unfold dropLone
  split
  · exact (hw.removePeerFromPeers id).resetSrvToLeave
  · exact hw

theorem startLeaving_bound (hs : s.NextBound k) (id : Int) : (s.startLeaving id).NextBound k := by
  unfold startLeaving
  split
  · exact { hs with }
  · exact hs

theorem Readied.bound {op : ConfOp} (h : Readied env s input op u) (hs : s.NextBound k)
    (hcond : s.StaysWithin input) : u.NextBound k := by
  cases h with
  | promoted htype hterm _ _ =>
    exact recordAppendResp_bound (hs.checkSrvToLeaveTimeout env) env
      ((hcond.reports hterm).1 (.inl htype))
  | joined hj _ => exact hs.setSrvToJoin (hj.within hs hcond _ rfl)
  | left _ _ _ => exact startLeaving_bound hs _
  | unheard hf _ => exact startLeaving_bound (hf.bound hs) _
  | _ => exact hs

theorem PeerTold.bound {id : Int} {f : Peer → Peer} (h : PeerTold env s input id f)
    (hs : s.NextBound k) (hcond : s.StaysWithin input) : (s.updatePeer id f).NextBound k := by
  refine hs.updatePeer id (fun p hp _ => ?_)
  cases h with
  | installed htype hterm =>
    exact onInstallSnapshotResp_within (hs.peers p hp) ((hcond.reports hterm).2 htype)
  | located htype hterm hacc =>
    exact (hs.peers p hp).of_next ((hcond.reports hterm).1 (.inr htype) hacc) rfl
  | aborted => exact .of_no_ctx (hs.peers p hp).1 rfl

/-! ## Threads -/

theorem executeEntry_bound (hs : s.NextBound k) {e : LogEntry} (hadd : s.log.nextSlot ≤
      s.precommitIndex + 1 ∨ ∀ c ∈ e.conf?, s.AddsJoinerOnly c) : (s.executeEntry e).NextBound k := by
  have hend : s.endConfigChange.NextBound k := { hs with }
  unfold executeEntry
  split
  · exact hs
  · next c hval =>
    unfold commitConf
    split
    · exact hend.reconfigure (hadd.imp_right (fun h => h c (by simp [LogEntry.conf?, hval])))
    · exact hend

theorem stored_bound (hs : s.NextBound k) (env : Env) {bufs : List Bytes} {n : Nat}
    (hn : n = if bufs = [] then s.precommitIndex
      else max s.precommitIndex (s.log.nextSlot + bufs.length - 1)) :
    (requestAppendEntries { s with
      log := s.log.appendLoop (s.clientEntries bufs), precommitIndex := n } env).NextBound k := by
  have hslot := hs.slot
  have hlen : (s.clientEntries bufs).length = bufs.length := length_map _
  have hle : s.precommitIndex ≤ n ∧ n < s.log.nextSlot + bufs.length := by
    rw [hn]
    split
    · omega
    · next hne =>
      have hpos := length_pos_iff.mpr hne
      omega
  refine NextBound.requestAppendEntries ?_ env
  refine hs.grow hle.1 ?_ rfl rfl
  rw [appendLoop_nextSlot, hlen]
  exact hle.2

theorem compactedLog_nextSlot (hs : s.NextBound k) (hsnp : s.SnapshotsWithin) {snp : Snapshot}
    (hcreated : s.snpInProgress = some snp) :
    (s.compactedLog (s.latestSnapshot snp)).nextSlot = s.log.nextSlot := by
  have hlast : (s.latestSnapshot snp).lastLogIdx < s.precommitIndex + 1 := by
    unfold latestSnapshot
    split
    · next old hold =>
      split
      · exact hsnp.last old hold
      · exact hsnp.created snp hcreated
    · exact hsnp.created snp hcreated
  unfold compactedLog
  split
  · exact compact_nextSlot (((Nat.sub_le _ _).trans_lt hlast).trans_le hs.slot)
  · rfl

theorem adoptSnapshot_bound (hs : s.NextBound k) (hsnp : s.SnapshotsWithin) {snp : Snapshot}
    (hcreated : s.snpInProgress = some snp) :
    (s.adoptSnapshot (s.latestSnapshot snp)).NextBound k := by
  refine hs.grow (by simp) ?_ (by simp) (by simp)
  rw [adoptSnapshot_log, compactedLog_nextSlot hs hsnp hcreated]
  exact hs.slot

theorem step_bound {o : Output} (hinv : s.role = .leader → s.NextBound k)
    (hreach : k = 0 ∨ s.role = .leader) (hcond : s.role = .leader → s.StaysWithin input)
    (hstep : s.step env input = some (t, o)) (hlead : t.role = .leader) : t.NextBound k := by
  cases step_moves hstep with
  | steady hst _ => exact .of_steady hst hlead hinv
  | elected u hu _ ht _ _ _ =>
    have hk : k ≤ u.log.nextSlot := by
      have hlog : u.log = s.log := core_log hu.core
      rw [hlog]
      rcases hreach with rfl | hrole
      · exact Nat.zero_le _
      · exact (hinv hrole).reach.trans (hinv hrole).slot.le
    exact .of_steady ht hlead (fun _ => (NextBound.takeLeadership hk).requestAppendEntries env)
  | outOfRange u hu ht _ =>
    refine .of_steady ht hlead (fun hrole => ?_)
    have hu' : u.NextBound k := .of_steady hu hrole hinv
    exact { hu' with }
  | stored _ _ hrole hn => exact stored_bound (hinv hrole) env hn
  | accepted u _ _ _ hrole _ => exact absurd ((acceptEntries_quiet u _ _).role hlead) hrole
  | parked u _ hu _ _ =>
    have hu' : u.NextBound k := .of_steady hu hlead hinv
    exact { hu' with }
  | packed _ hbody hcatch _ =>
    have hfalse := (hcond hlead).packs (by simp [ReqMsg.isPack, hbody])
    simp [hcatch] at hfalse
  | joins _ _ _ =>
    -- whoever joins is a follower
    simp [joinCluster] at hlead
  | timed _ ht _ =>
    exact .of_steady ht hlead (fun hrole => (hinv hrole).checkSrvToLeaveTimeout env)
  | invited conf _ hrole =>
    have hcheck := (hinv hrole).checkSrvToLeaveTimeout env
    refine hcheck.of_peers rfl rfl hcheck.peers ?_
    rintro p ⟨⟩
    exact .of_no_ctx (Nat.zero_le _) rfl
  | asked _ _ hrole =>
    have hcheck := (hinv hrole).checkSrvToLeaveTimeout env
    exact hcheck.updatePeer _ (fun p hp _ => (hcheck.peers p hp).of_same rfl rfl)
  | @recorded resp _ _ htype hterm ht _ =>
    refine .of_steady ht hlead (fun hl => ?_)
    have hrole : s.role = .leader :=
      (recordAppendResp_quiet (s.checkSrvToLeaveTimeout env) env resp).role hl
    exact recordAppendResp_bound ((hinv hrole).checkSrvToLeaveTimeout env) env
      (((hcond hrole).reports hterm).1 (.inl htype))
  | leaverGone _ _ =>
    exact (((hinv hlead).checkSrvToLeaveTimeout env).removePeerFromPeers _).resetSrvToLeave
  | told hf => exact hf.bound (hinv hlead) (hcond hlead)
  | sent hr =>
    have hrole := (requestAppendEntriesTo_quiet hr).1.role hlead
    exact requestAppendEntriesTo_bound (hinv hrole) (hcond hrole).snapshots hr
  | joiner hj =>
    have hs := hinv hlead
    exact hs.of_peers rfl rfl hs.peers (hj.within hs (hcond hlead))
  | joinFailed =>
    refine (hinv hlead).of_peers rfl rfl (hinv hlead).peers ?_
    rintro p ⟨⟩
  | gaveUp hf _ =>
    have hrole : s.role = .leader :=
      (sansPeers_read (f := role) (fun _ => rfl) hf.sansPeers).symm.trans hlead
    exact ((hf.bound (hinv hrole)).removePeerFromPeers _).resetSrvToLeave
  | @operated _ op u _ hop =>
    have hu : u.role = .leader := by simpa using hlead
    have hrole : s.role = .leader :=
      (sansPeers_read (f := role) (fun _ => rfl) hop.sansPeers).symm.trans hu
    exact (hop.bound (hinv hrole) (hcond hrole)).operate hu env op
  | @applied e he _ =>
    have hrole : s.role = .leader := (executeEntry_frame s e).2.1.symm.trans hlead
    have hexec := executeEntry_bound (hinv hrole)
      (((hcond hrole).adds rfl).imp_right (fun h => h e he))
    exact { hexec with }
  | created hsnp => exact adoptSnapshot_bound (hinv hlead) (hcond hlead).snapshots hsnp
  | installed _ hr =>
    have hrole := (finishSnapshot_quiet hr).role hlead
    simp [finishSnapshot, hrole] at hr
  | urged =>
    have hrole := (requestAppendEntries_quiet s env).role hlead
    exact (hinv hrole).requestAppendEntries env
  | durable hrole => exact (hinv hrole).commit _
  | restarted _ => cases hlead
  | edited | adjusted | creating | dropped =>
    have hs := hinv hlead
    exact { hs with }

/-! ## The exit -/

/-- The branch of `create_append_entries_req` that ends the process, for a peer with the given next
index and the given index reached by streaming (`0`: none). -/
def PeerTooFar (s : RaftServer) (next custom : Nat) : Prop :=
  s.precommitIndex + 1 ≤
    if 0 < custom then custom else (if next = 0 then s.precommitIndex + 1 else next) - 1

instance (s : RaftServer) (next custom : Nat) : Decidable (s.PeerTooFar next custom) := by
  unfold PeerTooFar
  infer_instance

theorem not_peerTooFar {next custom : Nat} (hnext : next ≤ s.precommitIndex + 1)
    (hcustom : custom ≤ s.precommitIndex) : ¬ s.PeerTooFar next custom := by
  unfold PeerTooFar
  split
  · omega
  · split <;> omega

/-! ## Building a request -/

/-- The index in front of the entries of a request: where streaming is, or before `next_log_idx_`. -/
def requestFrom (s : RaftServer) (peer : Peer) (custom : Nat) : Nat :=
  if 0 < custom then custom
  else (if peer.nextLogIdx = 0 then s.precommitIndex + 1 else peer.nextLogIdx) - 1

def requestEntries (s : RaftServer) (env : Env) (peer : Peer) (last : Nat) : List LogEntry :=
  let all := s.log.logEntries (last + 1) (s.appendEndIdx peer last)
  if s.precommitIndex ≤ last then [] else env.batchEntries.elim all all.take

theorem createAppendEntriesReq_entries {peer p' : Peer} {es : List LogEntry}
    (h : s.createAppendEntriesReq env peer custom = some (p', req))
    (hbody : req.body = .appendEntries es) :
    s.requestFrom peer custom ≤ s.precommitIndex ∧
    s.log.startIndex ≤ s.requestFrom peer custom + 1 ∧
    req.lastLogIdx = s.requestFrom peer custom ∧
    req.lastLogTerm = s.termForLog (s.requestFrom peer custom) ∧
    es = s.requestEntries env peer (s.requestFrom peer custom) := by
  unfold createAppendEntriesReq at h
  dsimp only at h
  have hlast : (if 0 < custom then custom else (if peer.nextLogIdx = 0 then
      ({ peer with nextLogIdx := s.precommitIndex + 1 } : Peer) else peer).nextLogIdx - 1) =
      s.requestFrom peer custom := by
    unfold requestFrom
    split
    · rfl
    · split <;> rfl
  rw [hlast] at h
  generalize s.requestFrom peer custom = last at h ⊢
  have hend : ∀ q : Peer, q.lastSentIdx = peer.lastSentIdx → q.cntNotApplied = peer.cntNotApplied →
      s.appendEndIdx q last = s.appendEndIdx peer last := by
    intro q hsent hcnt
    unfold appendEndIdx
    rw [hsent, hcnt]
  generalize hq : (if peer.nextLogIdx = 0 then
    ({ peer with nextLogIdx := s.precommitIndex + 1 } : Peer) else peer) = q at h
  have hsame : s.appendEndIdx q last = s.appendEndIdx peer last := by
    rw [← hq]
    split <;> exact hend _ rfl rfl
  split at h
  · cases h
  next hle =>
    split at h
    · next hheld =>
      cases h
      cases hbody
      refine ⟨by omega, hheld.1, rfl, rfl, ?_⟩
      rw [requestEntries, hsame]
      simp only [Nat.add_le_add_iff_right]
    split at h
    · unfold createSyncSnapshotReq at h
      split at h
      · cases h
      · cases h
        cases hbody
    · cases h
      cases hbody

theorem appendEndIdx_le (s : RaftServer) (p : Peer) (last : Nat) :
    s.appendEndIdx p last ≤ min (s.precommitIndex + 1) (last + 1 + s.params.maxAppendSize) := by
  dsimp only [appendEndIdx]
  split <;> omega

/-- The entries stand in the log one after the other, from the index on that follows `last`. -/
theorem requestEntries_spec (s : RaftServer) (env : Env) (p : Peer) {last : Nat}
    (hlast : last ≤ s.precommitIndex) (hstart : s.log.startIndex ≤ last + 1) :
    (∀ k, k < (s.requestEntries env p last).length →
      (s.requestEntries env p last)[k]? = s.log.entryAt (last + 1 + k)) ∧
    (s.requestEntries env p last).length ≤ s.params.maxAppendSize ∧
    last + (s.requestEntries env p last).length ≤ s.precommitIndex := by
  have hend := s.appendEndIdx_le p last
  -- whatever the hint, it is a front part of the log from there on
  have hfront : ∃ n, n ≤ s.appendEndIdx p last - (last + 1) ∧ s.requestEntries env p last =
      (s.log.entries.drop (last + 1 - s.log.startIndex)).take n := by
    unfold requestEntries logEntries
    split
    · exact ⟨0, Nat.zero_le _, rfl⟩
    · cases env.batchEntries with
      | none => exact ⟨_, le_rfl, rfl⟩
      | some n =>
        refine ⟨min n (s.appendEndIdx p last - (last + 1)), Nat.min_le_right _ _, ?_⟩
        rw [elim_some, take_take]
  obtain ⟨n, hn, hes⟩ := hfront
  rw [hes]
  have hlen : ((s.log.entries.drop (last + 1 - s.log.startIndex)).take n).length ≤ n :=
    length_take_le _ _
  refine ⟨?_, by omega, by omega⟩
  intro k hk
  rw [getElem?_take_of_lt (by omega), getElem?_drop, entryAt, if_neg (by omega)]
  congr 1
  omega

/-- Entries that were asked for from an index of the stream on follow it, and end inside what was
pre-committed. -/
theorem createAppendEntriesReq_streamed {peer p' : Peer} {es : List LogEntry}
    (h : s.createAppendEntriesReq env peer custom = some (p', req))
    (hbody : req.body = .appendEntries es) (hpos : 0 < custom) : req.lastLogIdx = custom ∧
      es.length ≤ s.params.maxAppendSize ∧ custom + es.length ≤ s.precommitIndex := by
  obtain ⟨hle, hstart, hidx, -, rfl⟩ := createAppendEntriesReq_entries h hbody
  have hfrom : s.requestFrom peer custom = custom := if_pos hpos
  rw [hfrom] at hle hstart hidx ⊢
  exact ⟨hidx, (s.requestEntries_spec env peer hle hstart).2⟩

end RaftServer

/-! ## Streaming -/

/-- A server with `last_streamed_log_idx_` of each peer, `0` outside of the stream mode. -/
structure Streaming where
  server : RaftServer
  streamed : Int → Nat

/-- What decides about the stream mode besides the server: `max_log_gap_in_stream_`, whether too many
bytes are in flight, and the peers whose connection failed or was made again. -/
structure StreamEnv where
  maxGap : Nat := 0
  throttled : Bool := false
  disconnected : List Int := []

namespace Streaming

open RaftServer

variable (x : Streaming) (c : StreamEnv)

/-- The index that `request_append_entries(p)` passes to `create_append_entries_req`. -/
def current (dst : Int) (reconnect : Bool) : Nat :=
  if reconnect ∨ c.maxGap = 0 then 0 else x.streamed dst

/-- The stream moves on with the entries of a request that is not throttled; `t` is the server that
has built the request. -/
def advance (t : RaftServer) (dst : Int) (custom : Nat) (o : Output) : Nat :=
  match o.sent.head?.map ReqMsg.body with
  | some (.appendEntries es) =>
    if 0 < custom ∧ c.throttled = false ∧
        (t.findPeer dst).any (fun p => custom + 1 < c.maxGap + p.nextLogIdx) then
      custom + es.length
    else custom
  | _ => custom

/-- The stream after a response: an accepted one may start it, a rejected one stops it. -/
def respond (resp : RespMsg) : Nat :=
  if resp.accepted = false then 0
  else if 0 < c.maxGap ∧ x.streamed resp.src = 0 ∧ 0 < resp.nextIdx ∧
      (x.server.findPeer resp.src).any (fun p => p.lastSentIdx < resp.nextIdx) ∧
      x.server.precommitIndex < resp.nextIdx + c.maxGap then
    resp.nextIdx - 1
  else x.streamed resp.src

/-- The streams after the server's step to `t`, apart from elections and connections. -/
def restream (t : RaftServer) (input : Input) (o : Output) : Int → Nat :=
  match input with
  | .sendAppend dst _ custom => Function.update x.streamed dst (advance c t dst custom o)
  | .response resp =>
    if resp.type = .appendEntries ∧ resp.term ≤ x.server.state.term then
      Function.update x.streamed resp.src (x.respond c resp)
    else x.streamed
  | _ => x.streamed

/-- A request for a peer asks for what follows its stream. -/
def Asks : Input → Prop
  | .sendAppend dst reconnect custom => custom = x.current c dst reconnect
  | _ => True

instance (input : Input) : Decidable (x.Asks c input) := by
  rcases input with ⟨⟩ <;> (dsimp only [Asks]; infer_instance)

/-- One step; `become_leader` stops every stream. -/
def next (a : StreamEnv × Env × Input) : Option Streaming :=
  if x.Asks a.1 a.2.2 then
    (x.server.step a.2.1 a.2.2).map (fun r =>
      ⟨r.1, fun id =>
        if r.1.role = .leader ∧ ¬ (x.server.role = .leader ∧ x.server.state.term = r.1.state.term) ∨
            id ∈ a.1.disconnected then 0
        else x.restream a.1 r.1 a.2.2 r.2 id⟩)
  else none

/-- What a thread does: a step of the server, or half of what is done without `lock_`. A client
request, and a call that appends a configuration, store their entries and raise `precommit_index_`
after that. -/
inductive Act
  | step (a : StreamEnv × Env × Input)
  | storeEntries (es : List LogEntry)
  | raisePrecommit (k : Nat)

def act : Act → Option Streaming
  | .step a => x.next a
  | .storeEntries es =>
    some { x with server := { x.server with log := x.server.log.appendLoop es } }
  | .raisePrecommit k =>
    if k < x.server.log.nextSlot then
      some { x with server := x.server.tryUpdatePrecommitIndex k }
    else none

/-- No stream is beyond what was pre-committed. -/
structure Inv (x : Streaming) : Prop where
  bound : x.server.NextBound 0
  streamed : ∀ id, x.streamed id ≤ x.server.precommitIndex

variable {x c} {env : Env} {t : RaftServer} {input : Input} {o : Output}

theorem current_le (hx : x.Inv) (dst : Int) (reconnect : Bool) :
    x.current c dst reconnect ≤ x.server.precommitIndex := by
  unfold current
  split
  · exact Nat.zero_le _
  · exact hx.streamed dst

theorem advance_le {dst : Int} {reconnect : Bool}
    (hcustom : custom ≤ x.server.precommitIndex)
    (h : x.server.step env (.sendAppend dst reconnect custom) = some (t, o)) :
    advance c t dst custom o ≤ x.server.precommitIndex := by
  unfold advance
  split
  · next es hes =>
    split
    · next hpos =>
      obtain ⟨⟨u, req⟩, hu, heq⟩ := map_eq_some_iff.mp h
      cases heq
      unfold requestAppendEntriesTo at hu
      split at hu
      · cases hu
      split at hu
      · cases hu
      dsimp only at hu
      split at hu
      · cases hu
      next hreq =>
      cases hu
      exact (createAppendEntriesReq_streamed hreq (some.inj hes) hpos.1).2.2
    · exact hcustom
  · exact hcustom

theorem respond_le (hx : x.Inv) (htype : resp.type = .appendEntries)
    (hterm : resp.term ≤ x.server.state.term) (h : x.server.ReportsWithin (.response resp)) :
    x.respond c resp ≤ x.server.precommitIndex := by
  unfold respond
  split
  · exact Nat.zero_le _
  next hacc =>
  split
  · have hnext : resp.nextIdx ≤ x.server.precommitIndex + 1 :=
      (h hterm).1 (.inl htype) (Bool.not_eq_false _ ▸ hacc)
    omega
  · exact hx.streamed resp.src

theorem restream_le (hx : x.Inv) (hasks : x.Asks c input) (hcond : x.server.StaysWithin input)
    (h : x.server.step env input = some (t, o)) (id : Int) :
    x.restream c t input o id ≤ x.server.precommitIndex := by
  -- only the stream of the peer that the input is about can move
  have hupdate {k : Int} {n : Nat} (hn : n ≤ x.server.precommitIndex) :
      Function.update x.streamed k n id ≤ x.server.precommitIndex := by
    rw [Function.update_apply]
    split
    · exact hn
    · exact hx.streamed id
  unfold restream
  split
  · next dst reconnect custom =>
    have hcustom : custom ≤ x.server.precommitIndex := hasks.trans_le (current_le hx dst reconnect)
    exact hupdate (advance_le hcustom h)
  · next resp =>
    split
    · next hresp => exact hupdate (respond_le hx hresp.1 hresp.2 hcond.reports)
    · exact hx.streamed id
  · exact hx.streamed id

theorem next_inv {y : Streaming} {a : StreamEnv × Env × Input}
    (hinv : x.server.role = .leader → x.Inv)
    (hcond : x.server.role = .leader → x.server.StaysWithin a.2.2) (h : x.next a = some y)
    (hlead : y.server.role = .leader) : y.Inv := by
  unfold next at h
  split at h
  · next hasks =>
    obtain ⟨⟨t, o⟩, hr, rfl⟩ := map_eq_some_iff.mp h
    refine ⟨step_bound (fun hs => (hinv hs).bound) (.inl rfl) hcond hr hlead, fun id => ?_⟩
    dsimp only
    split
    · exact Nat.zero_le _
    next hkeep =>
    obtain ⟨hstill, _⟩ := not_or.mp hkeep
    have hrole : x.server.role = .leader := by
      by_contra hnot
      exact hstill ⟨hlead, fun hboth => hnot hboth.1⟩
    -- the leader stays in office, so what was pre-committed still is
    have hreach := (step_bound (k := x.server.precommitIndex)
      (fun _ => { (hinv hrole).bound with reach := le_rfl }) (.inr hrole) hcond hr hlead).reach
    exact (restream_le (hinv hrole) hasks (hcond hrole) hr id).trans hreach
  · cases h

/-- What a leader is told and has, as far as the action is a step of the server. -/
def StaysWithin (x : Streaming) : Act → Prop
  | .step a => x.server.StaysWithin a.2.2
  | _ => True

instance (a : Act) : Decidable (x.StaysWithin a) := by
  cases a <;> (dsimp only [StaysWithin]; infer_instance)

theorem act_inv {y : Streaming} {a : Act} (hinv : x.server.role = .leader → x.Inv)
    (hcond : x.server.role = .leader → x.StaysWithin a) (h : x.act a = some y)
    (hlead : y.server.role = .leader) : y.Inv := by
  cases a with
  | step a => exact next_inv hinv hcond h hlead
  | storeEntries es =>
    -- the log grows ahead of what is pre-committed, and the bound is about the latter
    cases h
    have hx := hinv hlead
    refine ⟨hx.bound.grow le_rfl ?_ rfl rfl, hx.streamed⟩
    rw [appendLoop_nextSlot]
    exact hx.bound.slot.trans_le (Nat.le_add_right _ _)
  | raisePrecommit k =>
    obtain ⟨hk, ⟨⟩⟩ := ite_none_right_eq_some.mp h
    have hx := hinv hlead
    have hle : x.server.precommitIndex ≤ max x.server.precommitIndex k := Nat.le_max_left _ _
    exact ⟨hx.bound.grow hle (Nat.max_lt.mpr ⟨hx.bound.slot, hk⟩) rfl rfl,
      fun id => (hx.streamed id).trans hle⟩

/-- A leader holds no next index beyond its log, and no request for a peer, made over a new
connection or not and with or without the stream, reaches the exit. -/
structure InReach (x : Streaming) : Prop where
  next : ∀ p ∈ x.server.peers, p.nextLogIdx ≤ x.server.log.nextSlot
  noExit : ∀ p ∈ x.server.peers, ∀ reconnect c,
    ¬ x.server.PeerTooFar (if reconnect then 0 else p.nextLogIdx) (x.current c p.id reconnect)

theorem Inv.inReach (hx : x.Inv) : x.InReach := by
  refine ⟨fun p hp => (hx.bound.peers p hp).1.trans hx.bound.slot, fun p hp reconnect c => ?_⟩
  refine not_peerTooFar ?_ (current_le hx p.id reconnect)
  split
  · exact Nat.zero_le _
  · exact (hx.bound.peers p hp).1

end Streaming

/-! ## A run that meets the condition -/

/-- Server `1` is elected, stores a client's data and streams it to server `2`. Between the store of
the next entry and its pre-commit the commit thread has a turn. -/
def streamsToTwo : List Streaming.Act :=
  let step (a : Env × RaftServer.Input) : Streaming.Act := .step ({ maxGap := 8 }, a)
  (leadsAndFollows.take 4).map step ++ [step ({}, .sendAppend 2 false 0),
    step ({}, .response ⟨1, .appendEntries, 2, 1, 3, true, .ok, .none, false, false⟩),
    .storeEntries [⟨1, .appLog [8]⟩], step ({}, .commitNext), .raisePrecommit 3,
    step ({}, .sendAppend 2 false 2)]

/-- Server `1` leads term `1` and copies two entries of a client to server `2`. Server `3` leads term
`2` without them and replaces the log of server `1`, which then leads term `3` with the votes of
servers `4` and `5`. Only now the response of server `2` arrives. -/
def confirmedInEarlierTerm : List Cluster.Action :=
  let timeout (i : Int) : Cluster.Action := .act i {} .electionTimeout
  let send (i j : Int) : Cluster.Action := .act i {} (.sendAppend j false 0)
  let req (k : Nat) : Cluster.Action := .recvReq k {}
  let resp : Cluster.Action := .recvResp 0 {}
  -- server 1 leads term 1
  [timeout 1, req 0, resp, req 0, resp, req 0, resp, req 0, resp] ++
  [.client 1 {} [[7]], .client 1 {} [[8]], send 1 2, req 0] ++
  -- server 3 leads term 2 and writes its log to server 1
  [timeout 3, req 2, resp, req 2, resp, req 2, resp, req 2, resp] ++
  [send 3 1, req 0, req 0, req 1, resp] ++
  -- server 1 leads term 3
  [timeout 1, req 2, resp, req 2, resp, req 2, resp, req 2, resp, .recvResp 2 {}]

/-- Server `1` gets the entry that adds server `4` from leader `2`, is elected and commits it. Before
the commit thread applies it, a client's thread has stored an entry that is not pre-committed. -/
def addsPeerBetween : List Streaming.Act :=
  let step (a : Env × RaftServer.Input) : Streaming.Act := .step ({}, a)
  [step ({}, .request ⟨1, 2, 1, 0, 0, 0, .appendEntries [⟨1, .conf
      { logIdx := 1, servers := threeVoters.config.servers ++ [{ id := 4 }] }⟩]⟩),
    step ({}, .electionTimeout),
    step ({}, .response ⟨1, .preVote, 2, 1, 0, true, .ok, .none, false, false⟩),
    step ({}, .response ⟨2, .requestVote, 2, 1, 2, true, .ok, .none, false, false⟩),
    step ({}, .sendAppend 2 false 0),
    step ({}, .response ⟨2, .appendEntries, 2, 1, 3, true, .ok, .none, false, false⟩),
    .storeEntries [⟨2, .appLog [8]⟩], step ({}, .commitNext)]

end Raft
end Xio
