import Xio.Raft.FixedMembers
import Xio.Raft.BallotStep
import Xio.Raft.CommitRule

/-!
# Raft.LogStep — everything a step can do to a replica

`LogStep` lists what one step of a member of a fixed cluster can do to the log, the snapshots, the
indices and the progress of the peers, together with the append and snapshot messages that it sends.
Terms and votes are the business of `BallotStep`. The inversion `step_logStep` is the only place that
goes through the handlers; facts about replication follow from it.
-/

namespace Xio
namespace Raft

open List

/-- How far a peer has come, and the snapshot that it is being sent. -/
structure Progress where
  id : Int
  matchedIdx : Nat := 0
  snapshot : Option Snapshot := none
  deriving DecidableEq, Repr

def Peer.progress (p : Peer) : Progress :=
  ⟨p.id, p.matchedIdx, p.snpSyncCtx.map SnapshotSyncCtx.snapshot⟩

/-- The part of a server that replication is about. -/
structure LogView where
  log : LogStore
  lastSnapshot : Option Snapshot
  snpInProgress : Option Snapshot
  applyingSnapshots : List PendingInstall
  quickCommitIndex : Nat
  smCommitIndex : Nat
  precommitIndex : Nat
  peers : List Progress
  deriving DecidableEq, Repr

namespace LogView

def updatePeer (w : LogView) (id : Int) (f : Progress → Progress) : LogView :=
  { w with peers := w.peers.map (fun p => if p.id = id then f p else p) }

@[simp] theorem updatePeer_id (w : LogView) (id : Int) : w.updatePeer id (fun p => p) = w := by
  simp [updatePeer]

/-- The first entry of a new leader, which knows of no transfer. -/
def lead (w : LogView) (e : LogEntry) : LogView :=
  { w with
    log := w.log.append e
    precommitIndex := w.log.nextSlot
    peers := w.peers.map (fun p => { p with snapshot := none }) }

/-- The log gives way to a received snapshot, and all indices become the snapshot's. -/
def install (w : LogView) (pending : PendingInstall) (conf : ClusterConfig) : LogView :=
  { w with
    log := w.log.compact pending.snapshot.lastLogIdx
    lastSnapshot := some { pending.snapshot with lastConfig := conf }
    applyingSnapshots := w.applyingSnapshots.erase pending
    quickCommitIndex := pending.snapshot.lastLogIdx
    smCommitIndex := pending.snapshot.lastLogIdx
    precommitIndex := pending.snapshot.lastLogIdx }

def restart (w : LogView) (applied : Nat) : LogView :=
  { log := w.log
    lastSnapshot := w.lastSnapshot
    snpInProgress := none
    applyingSnapshots := []
    quickCommitIndex := applied
    smCommitIndex := applied
    precommitIndex := w.log.nextSlot - 1
    peers := w.peers.map (fun p => { id := p.id }) }

/-- More than half of the members have index `k`: the server, by its own pre-commit index, and its
peers. -/
def MatchedBy (w : LogView) (k : Nat) : Prop :=
  w.peers.length + 1 <
    2 * ((if k ≤ w.precommitIndex then 1 else 0) + w.peers.countP (fun p => k ≤ p.matchedIdx))

instance (w : LogView) (k : Nat) : Decidable (w.MatchedBy k) := Nat.decLt _ _

/-- A server without peers has index `k`. -/
def Alone (w : LogView) (k : Nat) : Prop := w.peers = [] ∧ k ≤ w.precommitIndex

end LogView

namespace RaftServer

variable {s t u : RaftServer}

/-- No message of replication is sent. -/
structure Silent (o : Output) : Prop where
  sent : ∀ m ∈ o.sent, m.copies = false
  resp : ∀ m, o.resp = some m → m.confirms = false

theorem Silent.nil : Silent {} := ⟨(fun _ hm => nomatch hm), (fun _ hm => nomatch hm)⟩

/-- Whoever leads after the step has led the same term before. -/
def Keeps (s t : RaftServer) : Prop :=
  t.role = .leader → s.role = .leader ∧ t.state.term = s.state.term

theorem Keeps.refl (s : RaftServer) : Keeps s s := fun h => ⟨h, rfl⟩

theorem Keeps.trans (h : Keeps s u) (h' : Keeps u t) : Keeps s t := by
  intro hl
  obtain ⟨hu, hterm⟩ := h' hl
  obtain ⟨hs, hterm'⟩ := h hu
  exact ⟨hs, hterm.trans hterm'⟩

theorem Steady.keeps (h : Steady s t) : Keeps s t := by
  intro hl
  obtain ⟨hlead, hterm, -⟩ := h.role hl
  exact ⟨hlead, hterm⟩

theorem Plain.silent {o : Output} (h : Plain o) : Silent o := by
  refine ⟨?_, h.resp⟩
  intro m hm
  have hcanvass := h.sent m hm
  unfold ReqMsg.isCanvass at hcanvass
  unfold ReqMsg.copies
  split <;> simp_all

def logView (s : RaftServer) : LogView :=
  ⟨s.log, s.lastSnapshot, s.snpInProgress, s.applyingSnapshots, s.quickCommitIndex,
    s.smCommitIndex, s.precommitIndex, s.peers.map Peer.progress⟩

/-- The commit index stays, or it moves up to an index that enough members have. -/
def Commits (enough : LogView → Nat → Prop) (s t : RaftServer) : Prop :=
  t.quickCommitIndex = s.quickCommitIndex ∨ s.quickCommitIndex < t.quickCommitIndex ∧
      (DefaultQuorums t.params → enough t.logView t.quickCommitIndex)

inductive LogStep (s t : RaftServer) (input : Input) (o : Output) : Prop
  /-- Elections, timers, answers without consequences. -/
  | quiet (hkeep : Keeps s t) (hview : t.logView = s.logView) (ho : Silent o)
  | elected (e : LogEntry) (hrole : t.role = .leader) (he : e.term = t.state.term)
      (hview : t.logView = { s.logView.lead e with quickCommitIndex := t.quickCommitIndex })
      (hcommit : Commits LogView.Alone s t) (ho : Silent o)
  | appended (es : List LogEntry) (k : Nat) (hin : ∃ req bufs, input = .request req ∧
        req.body = .clientRequest bufs)
      (hkeep : s.role = .leader ∧ t.role = .leader ∧ t.state.term = s.state.term)
      (hes : ∀ e ∈ es, e.term = s.state.term)
      (hview : t.logView = { s.logView with
        log := s.log.appendLoop es, precommitIndex := k, quickCommitIndex := t.quickCommitIndex })
      (hk : k = s.precommitIndex ∨ k < s.log.nextSlot + es.length)
      (hcommit : Commits LogView.Alone s t) (ho : o.sent = [])
  | sent (dst : Int) (p p' : Peer) (req : ReqMsg) (hin : ∃ rc custom, input = .sendAppend dst rc custom)
      (hkeep : s.role = .leader ∧ t.role = .leader ∧ t.state.term = s.state.term)
      (hp : p ∈ s.peers) (hid : p.id = dst ∧ p'.id = dst) (hreq : s.BuiltReq p p' req)
      (hmatch : p'.matchedIdx = p.matchedIdx ∨ p'.matchedIdx = 0)
      (hview : t.logView = s.logView.updatePeer dst (fun _ => p'.progress))
      (ho : o = { sent := [req] })
  | accepted (req : ReqMsg) (es : List LogEntry) (hin : input = .request req)
      (hbody : req.body = .appendEntries es)
      (hterm : s.state.term ≤ req.term ∧ t.state.term = req.term) (hrole : t.role ≠ .leader)
      (hokay : s.appendLogOkay req = true)
      (hview : t.logView = { (s.writeEntries (req.lastLogIdx + 1) es).logView with
        precommitIndex := max s.precommitIndex (req.lastLogIdx + es.length)
        quickCommitIndex := max (s.writeEntries (req.lastLogIdx + 1) es).quickCommitIndex
          (min req.commitIdx (req.lastLogIdx + es.length)) })
      (ho : o = { resp := some (s.acceptedResp req es) })
  | parked (req : ReqMsg) (obj : SnapshotSyncReq) (next : Nat) (hin : input = .request req)
      (hbody : req.body = .installSnapshot (some obj))
      (hterm : s.state.term ≤ req.term ∧ t.state.term = req.term) (hrole : t.role ≠ .leader)
      (hview : t.logView = { s.logView with applyingSnapshots :=
        ⟨obj.snapshot, req.term, req.src, next⟩ :: s.applyingSnapshots })
      (ho : o = {})
  | installed (pending : PendingInstall) (conf : ClusterConfig)
      (hin : input = .finishSnapshot pending) (hmem : pending ∈ s.applyingSnapshots)
      (hrole : t.role ≠ .leader) (hterm : t.state.term = s.state.term)
      (hview : t.logView = s.logView.install pending conf)
      (ho : o = { resp := some (s.installedResp pending) })
  | moved (k : Nat) (hkeep : Keeps s t)
      (hk : k = s.smCommitIndex + 1 ∧ s.smCommitIndex < s.quickCommitIndex ∧
        s.smCommitIndex + 1 < s.log.nextSlot ∨ k = max s.smCommitIndex (s.log.startIndex - 1))
      (hview : t.logView = { s.logView with smCommitIndex := k }) (ho : o = {})
  | creating (snp : Snapshot) (hin : ∃ forced, input = .createSnapshot forced) (hkeep : Keeps s t)
      (hidx : snp.lastLogIdx = s.smCommitIndex)
      (hterm : snp.lastLogTerm = s.log.termAt s.smCommitIndex)
      (hlt : s.lastSnapshot.elim 0 Snapshot.lastLogIdx < s.smCommitIndex)
      (hview : t.logView = { s.logView with snpInProgress := some snp }) (ho : o = {})
  | created (snp : Snapshot) (hkeep : Keeps s t) (hsnp : s.snpInProgress = some snp)
      (hview : t.logView = { s.logView with
        lastSnapshot := some (s.latestSnapshot snp)
        log := s.compactedLog (s.latestSnapshot snp)
        snpInProgress := none })
      (ho : o = {})
  | dropped (hkeep : Keeps s t) (hview : t.logView = { s.logView with snpInProgress := none })
      (ho : o = {})
  | matched (resp : RespMsg) (hin : input = .response resp) (htype : resp.type = .appendEntries)
      (hacc : resp.accepted = true) (hterm : resp.term ≤ s.state.term) (hkeep : Keeps s t)
      (hview : t.logView = { s.logView.updatePeer resp.src
        (fun p => { p with matchedIdx := resp.nextIdx - 1 }) with
          quickCommitIndex := t.quickCommitIndex })
      (hcommit : Commits LogView.MatchedBy s t) (ho : Silent o)
  | committed (hin : ∃ ok, input = .logAppendCompletion ok) (hrole : s.role = .leader)
      (hkeep : Keeps s t)
      (hview : t.logView = { s.logView with quickCommitIndex := t.quickCommitIndex })
      (hcommit : Commits LogView.MatchedBy s t) (ho : o = {})
  /-- With nobody to ask, the server's own log decides, whatever its role. -/
  | urged (hin : input = .appendEntriesInBg) (hrole : t.role = s.role) (hkeep : Keeps s t)
      (hview : t.logView = { s.logView with quickCommitIndex := t.quickCommitIndex })
      (hcommit : Commits LogView.Alone s t) (ho : o = {})
  | synced (resp : RespMsg) (hin : input = .response resp) (htype : resp.type = .installSnapshot)
      (hacc : resp.accepted = true ∧ resp.snapshotDone = true) (hterm : resp.term ≤ s.state.term)
      (hkeep : Keeps s t)
      (hview : t.logView = s.logView.updatePeer resp.src (fun p =>
        p.snapshot.elim p (fun snp => { p with matchedIdx := snp.lastLogIdx, snapshot := none })))
      (ho : o = {})
  | aborted (dst : Int) (hkeep : Keeps s t)
      (hview : t.logView = s.logView.updatePeer dst (fun p => { p with snapshot := none }))
      (ho : o = {})
  | restarted (applied : Nat) (hle : applied ≤ s.smCommitIndex) (hrole : t.role ≠ .leader)
      (hview : t.logView = s.logView.restart applied) (ho : o = {})

/-! ## Operations that leave a replica alone -/

theorem core_logView (h : t.core = s.core) : t.logView = s.logView := core_read (fun _ => rfl) h

@[simp] theorem logView_becomeFollower (s : RaftServer) :
    s.becomeFollower.logView = s.logView := core_logView (becomeFollower_steady s).core

@[simp] theorem logView_updateTermOnReq (s : RaftServer) (req : ReqMsg) :
    (s.updateTermOnReq req).logView = s.logView := core_logView (updateTermOnReq_steady s req).core

theorem Silent.of_resp {m : RespMsg} (h : m.confirms = false) : Silent { resp := some m } :=
  (Plain.of_resp h).silent

theorem logView_updatePeer (s : RaftServer) (id : Int) {f : Peer → Peer} {g : Progress → Progress}
    (h : ∀ p, (f p).progress = g p.progress) :
    (s.updatePeer id f).logView = s.logView.updatePeer id g := by
  simp only [logView, updatePeer, LogView.updatePeer, map_map]
  congr 1
  refine map_congr_left ?_
  intro p _
  have hid : p.progress.id = p.id := rfl
  simp only [Function.comp_apply, hid]
  split
  · exact h p
  · rfl

/-! ## Winning an election -/

section Members

variable {v : VotingConfig} {params : RaftParams} {i : Int}

theorem Member.peers_eq_nil (h : Member v.config.servers params i s) (hd : DefaultQuorums s.params)
    (hquorum : s.getQuorumForCommit = 0) : s.peers = [] := by
  rw [getQuorumForCommit, hd.snapshotReceivers, if_pos (.inl hd.commit.le)] at hquorum
  have hN : s.getNumVotingMembers = s.peers.length + 1 := by
    rw [RaftServer.getNumVotingMembers, h.regularMembers, h.voting]
    rfl
  apply eq_nil_of_length_eq_zero
  simp only [Bool.false_eq_true, if_false] at hquorum
  omega

theorem requestAppendEntries_commits (h : Member v.config.servers params i s) (env : Env) :
    Commits LogView.Alone s (s.requestAppendEntries env) := by
  unfold requestAppendEntries
  by_cases hlone : s.peers = [] ∨ s.getQuorumForCommit = 0
  · rw [if_pos hlone]
    by_cases hlt : s.quickCommitIndex < s.getCurrentLeaderIndex env
    · refine .inr ?_
      simp only [commit_quickCommitIndex, if_pos hlt, commit_params]
      refine ⟨hlt, fun hd => ?_⟩
      have hnil : s.peers = [] := hlone.elim (fun hnil => hnil) (h.peers_eq_nil hd)
      have hle : s.getCurrentLeaderIndex env ≤ s.precommitIndex := getCurrentLeaderIndex_le
      simp [LogView.Alone, logView, hnil, hle]
    · exact .inl (if_neg hlt)
  · rw [if_neg hlone]
    exact .inl (by simp)

/-! ## Replication -/

theorem Commits.of_logView {enough : LogView → Nat → Prop} {s' t' : RaftServer}
    (h : Commits enough s' t')
    (hs : s'.quickCommitIndex = s.quickCommitIndex) (ht : t.logView = t'.logView)
    (hparams : t.params = t'.params) : Commits enough s t := by
  have hquick : t.quickCommitIndex = t'.quickCommitIndex := congrArg LogView.quickCommitIndex ht
  unfold Commits at h ⊢
  rwa [hquick, hparams, ht, ← hs]

theorem writeEntries_logView (h : u.logView = s.logView) (first : Nat) (es : List LogEntry) :
    (u.writeEntries first es).logView = (s.writeEntries first es).logView := by
  simp only [logView, LogView.mk.injEq] at h
  obtain ⟨hlog, hlast, hcreate, happly, hquick, hsm, hpre, hpeers⟩ := h
  unfold writeEntries
  rw [hlog]
  dsimp only
  split <;> simp [logView, *]

theorem appendLogOkay_congr (h : u.logView = s.logView) (req : ReqMsg) :
    u.appendLogOkay req = s.appendLogOkay req := by
  have hlog : u.log = s.log := congrArg LogView.log h
  have hlast : u.lastSnapshot = s.lastSnapshot := congrArg LogView.lastSnapshot h
  unfold appendLogOkay termForLog
  rw [hlog, hlast]

theorem acceptEntries_logView (s : RaftServer) (req : ReqMsg) (es : List LogEntry) :
    (s.acceptEntries req es).logView = { (s.writeEntries (req.lastLogIdx + 1) es).logView with
      precommitIndex := max s.precommitIndex (req.lastLogIdx + es.length)
      quickCommitIndex := max (s.writeEntries (req.lastLogIdx + 1) es).quickCommitIndex
        (min req.commitIdx (req.lastLogIdx + es.length)) } := by
  have hnil : (s.writeEntries (req.lastLogIdx + 1) []).logView = s.logView := by
    simp [writeEntries, LogStore.skipLoop, logView]
  have hwrite : (if es = [] then s else s.writeEntries (req.lastLogIdx + 1) es).logView =
      (s.writeEntries (req.lastLogIdx + 1) es).logView := by
    split
    · next h =>
      rw [h]
      exact hnil.symm
    · rfl
  have hpre : (s.writeEntries (req.lastLogIdx + 1) es).precommitIndex = s.precommitIndex := by
    dsimp only [writeEntries]
    split <;> rfl
  dsimp only [acceptEntries]
  generalize (if es = [] then s else s.writeEntries (req.lastLogIdx + 1) es) = u at hwrite ⊢
  generalize s.writeEntries (req.lastLogIdx + 1) es = w at hwrite hpre ⊢
  generalize min req.commitIdx (req.lastLogIdx + es.length) = target
  have hmax (a b : Nat) : (if a < b then b else a) = max a b := by
    split <;> omega
  simp only [logView, LogView.mk.injEq] at hwrite
  split <;> simp [logView, *]

theorem handleAppendEntries_log (s : RaftServer) (env : Env) (req : ReqMsg) (es : List LogEntry) :
    ((s.handleAppendEntries env req es).1.logView = s.logView ∧
      Silent { resp := (s.handleAppendEntries env req es).2 }) ∨
    (s.state.term ≤ req.term ∧ ¬ (req.term = s.state.term ∧ s.role = .leader) ∧
      s.appendLogOkay req = true ∧
      (s.handleAppendEntries env req es).1.logView = (s.acceptEntries req es).logView ∧
      (s.handleAppendEntries env req es).2 = some { s.acceptedResp req es with term := s.state.term }) := by
  have hclear : s.clearCatchingUp.logView = s.logView := rfl
  have hfollow : (s.clearCatchingUp.followAppender req).logView = s.logView := by
    unfold followAppender
    split
    · split
      · rw [logView_becomeFollower, hclear]
      · rfl
    · rfl
  have hset := (clearCatchingUp_quiet s).trans (followAppender_quiet s.clearCatchingUp req)
  unfold handleAppendEntries
  split
  · exact .inl ⟨rfl, Silent.nil⟩
  dsimp only
  split
  · exact .inl ⟨hclear, Silent.nil⟩
  next hleader =>
  generalize s.clearCatchingUp.followAppender req = u at hfollow hset ⊢
  split
  · exact .inl ⟨hfollow, Silent.of_resp rfl⟩
  next hrefuse =>
  split
  · exact .inl ⟨hfollow, Silent.of_resp rfl⟩
  · refine .inr ⟨?_, hleader, ?_, ?_, ?_⟩
    · simp only [refusesAppend, Bool.or_eq_true, decide_eq_true_eq, not_or] at hrefuse
      have hle := hrefuse.1.1
      rw [hset.term] at hle
      exact Nat.le_of_not_lt hle
    · simp only [refusesAppend, Bool.or_eq_true, Bool.not_eq_true', not_or] at hrefuse
      rw [← appendLogOkay_congr hfollow]
      simpa using hrefuse.1.2
    · rw [acceptEntries_logView, acceptEntries_logView, writeEntries_logView hfollow]
      have hwrite := congrArg LogView.quickCommitIndex
        (writeEntries_logView hfollow (req.lastLogIdx + 1) es)
      have hpre : u.precommitIndex = s.precommitIndex := congrArg LogView.precommitIndex hfollow
      rw [hpre]
      rw [show (u.writeEntries (req.lastLogIdx + 1) es).quickCommitIndex =
        (s.writeEntries (req.lastLogIdx + 1) es).quickCommitIndex from hwrite]
    · rw [hset.term, hset.id]
      rfl

theorem sendAppend_logStep {env : Env} {dst : Int} {rc : Bool} {custom : Nat}
    {r : RaftServer × ReqMsg} (hr : s.requestAppendEntriesTo env dst rc custom = some r) :
    LogStep s r.1 (.sendAppend dst rc custom) { sent := [r.2] } := by
  unfold requestAppendEntriesTo at hr
  split at hr
  · cases hr
  next hrole =>
  split at hr
  · cases hr
  next p hfind =>
  dsimp only at hr
  generalize hq : (if rc = true ∧ p.nextLogIdx ≠ 0 then
    ({ p with nextLogIdx := 0, matchedIdx := 0 } : Peer) else p) = q at hr
  have hpid : p.id = dst := by simpa using find?_some hfind
  have hqp : q.config = p.config ∧ q.snpSyncCtx = p.snpSyncCtx ∧
      (q.matchedIdx = p.matchedIdx ∨ q.matchedIdx = 0) := by
    rw [← hq]
    split
    · exact ⟨rfl, rfl, .inr rfl⟩
    · exact ⟨rfl, rfl, .inl rfl⟩
  have hqid : q.id = p.id := congrArg SrvConfig.id hqp.1
  split at hr
  · cases hr
  next p' req hbuilt =>
  cases hr
  obtain ⟨hb, hconf, hmatch, -⟩ := createAppendEntriesReq_built s hbuilt
  have hid' : p'.id = dst := (congrArg SrvConfig.id (hconf.trans hqp.1)).trans hpid
  have hbuilt' : s.BuiltReq p p' req := by
    cases hb with
    | entries last es hlast hstart hes hctx hreq =>
      exact .entries last es hlast hstart hes (hctx.trans hqp.2.1) (by rw [← hqid]; exact hreq)
    | snapshot ctx last hctx hctx' hreq =>
      exact .snapshot ctx last (by rw [← hqp.2.1]; exact hctx) hctx' (by rw [← hqid]; exact hreq)
    | outOfRange note hctx hbody hterm =>
      exact .outOfRange note (hctx.trans hqp.2.1) hbody hterm
  have hlead : s.role = .leader := not_not.mp hrole
  refine .sent dst p p' req ⟨rc, custom, rfl⟩ ⟨hlead, hlead, rfl⟩ (mem_of_find?_eq_some hfind)
    ⟨hpid, hid'⟩ hbuilt' (by rw [hmatch]; exact hqp.2.2) ?_ rfl
  exact logView_updatePeer s dst (fun _ => rfl)

/-- The default quorum is a majority of the members. -/
theorem commit_expected_commits (h : Member v.config.servers params i s) (env : Env) :
    Commits LogView.MatchedBy s (s.commit (s.getExpectedCommittedLogIdx env)) := by
  by_cases hlt : s.quickCommitIndex < s.getExpectedCommittedLogIdx env
  · refine .inr ?_
    simp only [commit_quickCommitIndex, if_pos hlt, commit_params]
    refine ⟨hlt, fun hd => ?_⟩
    have hvoting : s.votingPeers = s.peers := h.regularMembers
    have hN := getNumVotingMembers_eq h.voting
    have hquorum : s.commitQuorumIdx env = (s.peers.length + 1) / 2 := by
      rw [commitQuorumIdx, hd.fullConsensus, if_neg (by simp)]
      rw [getQuorumForCommit, hd.snapshotReceivers, if_pos (.inl hd.commit.le), hN, hvoting]
      rfl
    have hcount : s.commitQuorumIdx env < _ :=
      lt_matched_of_commitQuorumIdx (by rw [hquorum, hvoting]; omega)
    have hprogress (k : Nat) : (s.peers.map Peer.progress).countP (fun p => k ≤ p.matchedIdx) =
        matchedBy s.peers k := by
      rw [countP_map]
      rfl
    have hleader : s.getCurrentLeaderIndex env ≤ s.precommitIndex := getCurrentLeaderIndex_le
    rw [hquorum, hvoting] at hcount
    simp only [LogView.MatchedBy, logView, commit_precommitIndex, commit_peers, hprogress,
      length_map]
    generalize s.getExpectedCommittedLogIdx env = k at hcount ⊢
    split at hcount
    · next hk =>
      rw [if_pos (hk.trans hleader)]
      omega
    · split <;> omega
  · exact .inl (if_neg hlt)

theorem checkSrvToLeaveTimeout_logView (h : Member servers params i s) (env : Env) :
    (s.checkSrvToLeaveTimeout env).logView = s.logView := by
  have hpeers : (s.checkSrvToLeaveTimeout env).peers = s.peers := by simp [h.noLeaver]
  rw [logView, hpeers]
  rfl

theorem recordAppendResp_log (h : Member v.config.servers params i s) (env : Env) (resp : RespMsg) :
    (resp.accepted = false ∧ (s.recordAppendResp env resp).logView = s.logView) ∨
    (resp.accepted = true ∧ Commits LogView.MatchedBy s (s.recordAppendResp env resp) ∧
      (s.recordAppendResp env resp).logView =
        { s.logView.updatePeer resp.src (fun p => { p with matchedIdx := resp.nextIdx - 1 }) with
          quickCommitIndex := (s.recordAppendResp env resp).quickCommitIndex }) := by
  unfold recordAppendResp
  split
  · next hacc =>
    have hmember : Member v.config.servers params i
        (s.updatePeer resp.src (Peer.onAppendAccepted resp)) :=
      updatePeer_member h resp.src (fun _ => rfl) (fun p hp => ⟨hp.staying, hp.syncing⟩)
    have hview : (s.updatePeer resp.src (Peer.onAppendAccepted resp)).logView =
        s.logView.updatePeer resp.src (fun p => { p with matchedIdx := resp.nextIdx - 1 }) :=
      logView_updatePeer s resp.src (fun _ => rfl)
    refine .inr ⟨hacc, (commit_expected_commits hmember env).of_logView rfl rfl rfl, ?_⟩
    rw [← hview]
    rfl
  · next hacc =>
    have hsame : (s.updatePeer resp.src (Peer.onAppendRejected resp)).logView =
        s.logView.updatePeer resp.src (fun p => p) := by
      refine logView_updatePeer s resp.src ?_
      intro p
      unfold Peer.onAppendRejected
      split <;> rfl
    refine .inl ⟨by simpa using hacc, ?_⟩
    rw [hsame, LogView.updatePeer_id]

theorem handleInstallSnapshotResp_logStep (s : RaftServer) {resp : RespMsg}
    (htype : resp.type = .installSnapshot) (hterm : resp.term ≤ s.state.term) :
    LogStep s (s.handleInstallSnapshotResp resp) (.response resp) {} := by
  have hkeep : Keeps s (s.handleInstallSnapshotResp resp) := Keeps.refl s
  by_cases hacc : resp.accepted = true
  · by_cases hdone : resp.snapshotDone = true
    · refine .synced resp rfl htype ⟨hacc, hdone⟩ hterm hkeep (logView_updatePeer s resp.src ?_) rfl
      intro p
      cases hctx : p.snpSyncCtx <;>
        simp [Peer.onInstallSnapshotResp, Peer.progress, Peer.id, hacc, hdone, hctx]
    · refine .quiet hkeep ?_ Silent.nil
      rw [← LogView.updatePeer_id s.logView resp.src]
      refine logView_updatePeer s resp.src ?_
      intro p
      cases hctx : p.snpSyncCtx <;>
        simp [Peer.onInstallSnapshotResp, Peer.progress, Peer.id, hacc, hdone, hctx]
  · refine .aborted resp.src hkeep (logView_updatePeer s resp.src ?_) rfl
    intro p
    simp [Peer.onInstallSnapshotResp, Peer.progress, Peer.id, hacc]

/-! ## Applying and compacting -/

theorem executeEntry_logView (h : Member v.config.servers params i s) {e : LogEntry} {k : Nat}
    (he : s.log.entryAt k = some e) : (s.executeEntry e).logView = s.logView := by
  unfold executeEntry
  split
  · rfl
  next c hval =>
  have hof : c.servers = v.config.servers := by
    refine h.log e ?_ c (by simp [LogEntry.conf?, hval])
    exact mem_of_getElem? (LogStore.entryAt_eq_some_iff.mp he).2
  have hend : Member v.config.servers params i s.endConfigChange := h.of_view rfl h.savedCaughtUp
  unfold commitConf
  split
  · simp [logView, reconfigure_peers hend hof]
  · rfl

theorem executeEntry_keeps (s : RaftServer) (e : LogEntry) : Keeps s (s.executeEntry e) := by
  unfold executeEntry
  split
  · exact Keeps.refl s
  · unfold commitConf
    split
    · exact fun hl => ⟨by simpa using hl, by simp⟩
    · exact Keeps.refl s

theorem snapshotAndCompact_logStep (s : RaftServer) (env : Env) (forced : Bool) :
    LogStep s (s.snapshotAndCompact env forced) (.createSnapshot forced) {} := by
  by_cases hdue : s.snapshotDue env forced = true
  · have hlt : s.lastSnapshot.elim 0 Snapshot.lastLogIdx < s.smCommitIndex := by
      simp only [snapshotDue, Bool.and_eq_true, decide_eq_true_eq] at hdue
      exact hdue.2
    refine .creating s.snapshotToCreate ⟨forced, rfl⟩ (Keeps.refl s) rfl rfl hlt ?_ rfl
    simp [logView, hdue]
  · refine .quiet (Keeps.refl s) ?_ Silent.nil
    simp [logView, hdue]

theorem finishSnapshot_logStep (h : Member v.config.servers params i s) {pending : PendingInstall}
    {r : RaftServer × RespMsg} (hmem : pending ∈ s.applyingSnapshots)
    (hr : s.finishSnapshot pending = some r) :
    LogStep s r.1 (.finishSnapshot pending) { resp := some r.2 } := by
  have hset := finishSnapshot_quiet hr
  unfold finishSnapshot at hr
  split at hr
  · cases hr
  next hrole =>
  cases hr
  have hcompact := compactTo_member h pending
  generalize hu : (if (s.compactTo pending).config.logIdx < pending.snapshot.lastConfig.logIdx then
    (s.compactTo pending).reconfigure pending.snapshot.lastConfig else s.compactTo pending) = u
    at hset ⊢
  have hframe : u.log = s.log.compact pending.snapshot.lastLogIdx ∧
      u.snpInProgress = s.snpInProgress ∧
      u.applyingSnapshots = s.applyingSnapshots.erase pending ∧ u.peers = s.peers := by
    rw [← hu]
    split
    · have hpeers := reconfigure_peers hcompact (h.applying pending hmem)
      simp only [reconfigure_frame, compactTo_log, compactTo_snpInProgress,
        compactTo_applyingSnapshots, hpeers, compactTo_peers, and_self]
    · exact ⟨rfl, rfl, rfl, rfl⟩
  obtain ⟨hlog, hcreate, happly, hpeers⟩ := hframe
  refine .installed pending u.config rfl hmem ?_ hset.term ?_ rfl
  · intro hl
    exact absurd (hset.role hl) (by rw [not_not.mp hrole]; simp)
  · simp [logView, LogView.install, hlog, hcreate, happly, hpeers]

theorem restart_logStep (h : Member v.config.servers params i s) {applied : Nat}
    (hle : applied ≤ s.smCommitIndex) : LogStep s (s.restart applied) (.restart applied) {} := by
  refine .restarted applied hle (by simp [restart]) ?_ rfl
  have hpeers : (s.restart applied).peers.map Peer.progress =
      (s.peers.map Peer.progress).map (fun p => { id := p.id }) := by
    have hconf : s.peers.map Peer.config = s.config.servers.filter (fun c => c.id != s.id) := by
      rw [h.others, h.config, h.id]
    simp only [restart, ← hconf, map_map]
    rfl
  simp only [logView, LogView.restart, hpeers]
  rfl

/-! ## The inversion -/

theorem stored_logStep (h : Member v.config.servers params i s) (env : Env) {req : ReqMsg}
    {bufs : List Bytes} {resp : RespMsg} {k : Nat} (hbody : req.body = .clientRequest bufs)
    (hrole : s.role = .leader) (hk : k = if bufs = [] then s.precommitIndex
      else max s.precommitIndex (s.log.nextSlot + bufs.length - 1)) :
    LogStep s (requestAppendEntries
        { s with log := s.log.appendLoop (s.clientEntries bufs), precommitIndex := k } env)
      (.request req) { resp := some resp } := by
  have hlen : (s.clientEntries bufs).length = bufs.length := by simp [clientEntries]
  have hterm : ∀ e ∈ s.clientEntries bufs, e.term = s.state.term ∧ e.conf? = none := by
    intro e he
    obtain ⟨b, -, rfl⟩ := mem_map.mp he
    exact ⟨rfl, rfl⟩
  have hmember : Member v.config.servers params i
      { s with log := s.log.appendLoop (s.clientEntries bufs), precommitIndex := k } := by
    refine (h.with_log ?_).of_view rfl h.savedCaughtUp
    intro e he c hc
    rw [LogStore.appendLoop_entries] at he
    rcases mem_append.mp he with hold | hnew
    · exact h.log e hold c hc
    · rw [(hterm e hnew).2] at hc
      cases hc
  have hcommits := (requestAppendEntries_commits hmember env).of_logView
    (s := s) (t := requestAppendEntries _ env) rfl rfl rfl
  refine .appended (s.clientEntries bufs) k ⟨req, bufs, rfl, hbody⟩
    ⟨hrole, by simpa using hrole, by simp⟩ (fun e he => (hterm e he).1) (by simp [logView]) ?_
    hcommits rfl
  rw [hlen, hk]
  split
  · exact Or.inl rfl
  · omega

theorem PeerTold.logStep {env : Env} {input : Input} {id : Int} {f : Peer → Peer}
    (h : PeerTold env s input id f) : LogStep s (s.updatePeer id f) input {} := by
  cases h with
  | installed htype hterm => exact handleInstallSnapshotResp_logStep s htype hterm
  | @located resp _ _ _ =>
    refine .quiet (Keeps.refl s) ?_ Silent.nil
    rw [← LogView.updatePeer_id s.logView resp.src]
    exact logView_updatePeer s resp.src (fun _ => rfl)
  | aborted => exact .aborted id (Keeps.refl s) (logView_updatePeer s id (fun _ => rfl)) rfl

theorem step_logStep (hadj : params.autoAdjustQuorumForSmallCluster = false)
    (h : Member v.config.servers params i s) {env : Env} {input : Input}
    {o : Output} (hin : FixedInput v.config.servers input)
    (hstep : s.step env input = some (t, o)) : LogStep s t input o := by
  have hcheck := checkSrvToLeaveTimeout_member h env
  have hcview := checkSrvToLeaveTimeout_logView h env
  cases step_moves hstep with
  | steady hs ho => exact .quiet hs.keeps (core_logView hs.core) ho.silent
  | elected u hu _ ht hrole _ ho =>
    have hmember := takeLeadership_member (h.of_steady hadj hu)
    have hview := core_logView ht.core
    have hquick : t.quickCommitIndex = _ := core_quick ht.core
    have hold : u.params = params := (h.of_steady hadj hu).params
    have hparams := ht.params (by simpa [hold] using hadj)
    have hterm : t.state.term = u.state.term := by
      rw [(ht.role hrole).2.1]
      simp
    have hsame : u.quickCommitIndex = s.quickCommitIndex := core_quick hu.core
    have hcommits := requestAppendEntries_commits hmember env
    refine .elected u.leaderConfEntry hrole (by simp [leaderConfEntry, hterm]) ?_
      (hcommits.of_logView hsame hview hparams) ho.silent
    rw [hview, hquick, ← core_logView hu.core]
    simp [logView, LogView.lead, Peer.onBecomeLeader, Peer.progress, Function.comp_def, Peer.id]
  | outOfRange u hu ht ho =>
    have hlost : Keeps u { u with outOfLogRange := true } := Keeps.refl u
    have hview : ({ u with outOfLogRange := true } : RaftServer).logView = s.logView :=
      (core_logView hu.core :)
    exact .quiet ((hu.keeps.trans hlost).trans ht.keeps) ((core_logView ht.core).trans hview)
      ho.silent
  | stored k hbody hrole hk => exact stored_logStep h env hbody hrole hk
  | @accepted req es u hbody hu hterm hrole hokay =>
    have hview := core_logView hu.core
    have hwrite := writeEntries_logView hview (req.lastLogIdx + 1) es
    have hpre : u.precommitIndex = s.precommitIndex := congrArg LogView.precommitIndex hview
    have hquick : (u.writeEntries (req.lastLogIdx + 1) es).quickCommitIndex = _ :=
      congrArg LogView.quickCommitIndex hwrite
    simp only [refusesAppend, Bool.or_eq_false_iff, Bool.not_eq_false'] at hokay
    refine .accepted req es rfl hbody ⟨hterm.1, ?_⟩ ?_ ?_ ?_ rfl
    · exact (acceptEntries_quiet u req es).term.trans hterm.2
    · exact fun hl => hrole ((acceptEntries_quiet u req es).role hl)
    · rw [← appendLogOkay_congr hview]
      exact hokay.1.2
    · rw [acceptEntries_logView, hwrite, hpre, hquick]
      rfl
  | @parked req obj u hbody hu hterm hrole =>
    have hcatch := (h.of_steady hadj hu).caughtUp
    refine .parked req obj env.nextObject rfl hbody (hterm hcatch) (hrole hcatch) ?_ rfl
    have happly : u.applyingSnapshots = s.applyingSnapshots :=
      congrArg LogView.applyingSnapshots (core_logView hu.core)
    rw [← (hterm hcatch).2, ← core_logView hu.core, ← happly]
    rfl
  | packed _ hbody _ _ => simp [FixedInput, ReqMsg.Of, hbody] at hin
  | joins hbody _ _ => simp [FixedInput, ReqMsg.Of, hbody] at hin
  | edited _ _ _ _ hedit _ => exact absurd hedit hin.not_edits
  | timed _ ht ho =>
    have hkeep : Keeps s (s.checkSrvToLeaveTimeout env) := Keeps.refl s
    exact .quiet (hkeep.trans ht.keeps) ((core_logView ht.core).trans hcview) ho.silent
  | invited _ hbody _ => exact absurd hbody hin.not_checksLeaver
  | asked _ hbody _ => exact absurd hbody hin.not_checksLeaver
  | @recorded resp _ _ htype hterm ht ho =>
    have hkeep : Keeps s ((s.checkSrvToLeaveTimeout env).recordAppendResp env resp) := by
      have hset := recordAppendResp_quiet (s.checkSrvToLeaveTimeout env) env resp
      exact fun hl => ⟨hset.role hl, hset.term⟩
    have hold := (recordAppendResp_member hcheck env resp).params
    have hview := core_logView ht.core
    have hquick : t.quickCommitIndex = _ := core_quick ht.core
    rcases recordAppendResp_log hcheck env resp with ⟨-, hsame⟩ | ⟨hacc, hcommits, hnew⟩
    · exact .quiet (hkeep.trans ht.keeps) (hview.trans (hsame.trans hcview)) ho.silent
    · have hparams := ht.params (by rw [hold]; exact hadj)
      refine .matched resp rfl htype hacc hterm (hkeep.trans ht.keeps) ?_
        (hcommits.of_logView rfl hview hparams) ho.silent
      rw [hview, hnew, hcview, hquick]
  | leaverGone _ hcaught =>
    rw [leaverCaughtUp, hcheck.noLeaver] at hcaught
    cases hcaught
  | told hf => exact hf.logStep
  | sent hr => exact sendAppend_logStep hr
  | joiner hj => rcases hj.about with rfl | ⟨_, _, rfl⟩ <;> cases hin
  | joinFailed => cases hin
  | gaveUp hf _ => exact absurd hf (h.not_leaveFailed hin)
  | operated hop => exact absurd hop (not_readied h hin)
  | applied he hlt =>
    refine .moved _ (executeEntry_keeps s _) (.inl ⟨rfl, hlt⟩) ?_ rfl
    rw [← executeEntry_logView h he]
    rfl
  | adjusted => exact .moved _ (Keeps.refl s) (.inr rfl) rfl rfl
  | creating => exact snapshotAndCompact_logStep s env _
  | created hsnp => exact .created _ (Keeps.refl s) hsnp rfl rfl
  | dropped _ => exact .dropped (Keeps.refl s) rfl rfl
  | installed hmem hr => exact finishSnapshot_logStep h hmem hr
  | urged =>
    exact .urged rfl (by simp) (Keeps.refl s) (by simp [logView])
      (requestAppendEntries_commits h env) rfl
  | durable hrole =>
    exact .committed ⟨_, rfl⟩ hrole (Keeps.refl s) rfl (commit_expected_commits h env) rfl
  | restarted hle => exact restart_logStep h hle

end Members

end RaftServer
end Raft
end Xio
