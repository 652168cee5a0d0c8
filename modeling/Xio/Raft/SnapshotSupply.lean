import Xio.Raft.CommitIndex
import Xio.Raft.NextIndex

/-!
# Raft.SnapshotSupply — is there a snapshot when one is to be sent?

`create_sync_snapshot_req` ends the process if the last snapshot is missing or older than the index
that it is called with. It is called for a peer whose entries are gone from the log, for a peer that
has reported an unfinished installation, and for a joining server that is behind the log.

Entries only go from the log when a snapshot has them, so for the first and the third call the
snapshot is there: `Covered` is an invariant. The second call compares nothing. The report moves
`next_log_idx_` back by one, but nothing relates it to the snapshot of the leader that receives the
report, which need not be the leader that has started the installation.

- `RaftServer.snapshotCalls`: the calls of one step
- `RaftServer.step_covered`: what the log has lost is in the last snapshot
- `SnapshotRun.calls_supplied`: every run
- `older_snapshot_ends_leader`: two leaders with different snapshots
-/

namespace Xio
namespace Raft

open Option RaftServer LogStore

/-! ## The start of the log -/

namespace LogStore

variable (l : LogStore)

theorem writeAt_startIndex_le (i : Nat) (e : LogEntry) :
    (l.writeAt i e).startIndex ≤ l.startIndex := by
  unfold writeAt
  split
  · next h => exact h.2.le
  · exact le_rfl

theorem overwriteLoop_startIndex_le (i : Nat) (es : List LogEntry) :
    (l.overwriteLoop i es).1.startIndex ≤ l.startIndex := by
  induction es generalizing l i with
  | nil => exact le_rfl
  | cons e es ih =>
    unfold overwriteLoop
    split
    · exact (ih (l.writeAt i e) (i + 1)).trans (l.writeAt_startIndex_le i e)
    · exact le_rfl

theorem writeFrom_startIndex_le (i : Nat) (es : List LogEntry) :
    (l.writeFrom i es).startIndex ≤ l.startIndex := by
  rw [writeFrom, appendLoop_startIndex]
  exact l.overwriteLoop_startIndex_le i es

theorem applyPack_startIndex_le {i : Nat} (es : List LogEntry) (h : i ≤ l.nextSlot) :
    (l.applyPack i es).startIndex ≤ l.startIndex := by
  have hpos := l.start_pos
  unfold applyPack
  split
  · split
    · exact hpos
    · exact le_rfl
  split
  · next hcase =>
    rcases hcase.2 with hbelow | hbeyond | hempty
    · exact hbelow.le
    · exact absurd h (Nat.not_le.mpr hbeyond)
    · have hnext : l.nextSlot = l.startIndex := by simp [nextSlot, hempty]
      exact hnext ▸ h
  · exact le_rfl

end LogStore

namespace RaftServer

variable {s t u : RaftServer} {env : Env} {input : Input} {o : Output}

/-! ## Steps that are about something else -/

def snapshotView (s : RaftServer) :
    Nat × Nat × Option Snapshot × Option Snapshot × List PendingInstall :=
  (s.quickCommitIndex, s.smCommitIndex, s.lastSnapshot, s.snpInProgress, s.applyingSnapshots)

/-- Nothing happens to the snapshots, and the commit index does not fall. -/
structure Apart (s t : RaftServer) : Prop where
  quick : s.quickCommitIndex ≤ t.quickCommitIndex
  sm : t.smCommitIndex = s.smCommitIndex
  last : t.lastSnapshot = s.lastSnapshot
  creating : t.snpInProgress = s.snpInProgress
  applying : t.applyingSnapshots = s.applyingSnapshots

namespace Apart

theorem refl (s : RaftServer) : Apart s s := ⟨le_rfl, rfl, rfl, rfl, rfl⟩

theorem of_view (h : t.snapshotView = s.snapshotView) : Apart s t := by
  simp only [snapshotView, Prod.mk.injEq] at h
  obtain ⟨hquick, hsm, hlast, hcreating, happlying⟩ := h
  exact ⟨hquick.symm.le, hsm, hlast, hcreating, happlying⟩

theorem trans (h₁ : Apart s u) (h₂ : Apart u t) : Apart s t where
  quick := h₁.quick.trans h₂.quick
  sm := h₂.sm.trans h₁.sm
  last := h₂.last.trans h₁.last
  creating := h₂.creating.trans h₁.creating
  applying := h₂.applying.trans h₁.applying

theorem of_core (h : t.core = s.core) : Apart s t where
  quick := Nat.le_of_eq (core_quick h).symm
  sm := show t.core.smCommitIndex = s.core.smCommitIndex from congrArg smCommitIndex h
  last := core_lastSnapshot h
  creating := show t.core.snpInProgress = s.core.snpInProgress from congrArg snpInProgress h
  applying := show t.core.applyingSnapshots = s.core.applyingSnapshots from
    congrArg applyingSnapshots h

theorem of_logView (h : t.logView = s.logView) : Apart s t where
  quick := Nat.le_of_eq (congrArg LogView.quickCommitIndex h).symm
  sm := congrArg LogView.smCommitIndex h
  last := congrArg LogView.lastSnapshot h
  creating := congrArg LogView.snpInProgress h
  applying := congrArg LogView.applyingSnapshots h

end Apart

theorem commit_apart (s : RaftServer) (i : Nat) : Apart s (s.commit i) := by
  refine ⟨(commit_onlyCommits s i).quick, ?_, ?_, ?_, ?_⟩ <;> simp

theorem requestAppendEntries_apart (s : RaftServer) (env : Env) :
    Apart s (s.requestAppendEntries env) := commit_apart s _

theorem operate_apart (s : RaftServer) (env : Env) (op : ConfOp) : Apart s (s.operate env op) := by
  have hmark (c : ClusterConfig) (e : LogEntry) : Apart s ((s.markChanging c).storeLogEntry e) :=
    .of_view rfl
  have hstore (e : LogEntry) : Apart s (s.storeLogEntry e) := .of_view rfl
  unfold operate
  split
  · exact (hmark _ _).trans (requestAppendEntries_apart _ env)
  · exact (hstore _).trans (requestAppendEntries_apart _ env)

theorem recordAppendResp_apart (s : RaftServer) (env : Env) (resp : RespMsg) :
    Apart s ((s.checkSrvToLeaveTimeout env).recordAppendResp env resp) := by
  unfold recordAppendResp
  split
  · have hnote : Apart s ((s.checkSrvToLeaveTimeout env).updatePeer resp.src
        (Peer.onAppendAccepted resp)) := .of_view rfl
    exact hnote.trans (commit_apart _ _)
  · exact .of_view rfl

theorem LeaveFailed.apart {id : Int} {w : RaftServer} (h : LeaveFailed env s input id w) :
    Apart s (w.dropLone id) := by
  have hlone : Apart w (w.dropLone id) := by
    unfold dropLone
    split <;> exact .of_view rfl
  refine Apart.trans ?_ hlone
  cases h with
  | ext _ => exact .refl s
  | peer _ _ =>
    unfold dropTransfer
    split <;> exact .of_view rfl

theorem Readied.apart {op : ConfOp} (h : Readied env s input op u) : Apart s u := by
  have hleaving (v : RaftServer) (id : Int) : Apart v (v.startLeaving id) := by
    unfold startLeaving
    split <;> exact .of_view rfl
  cases h with
  | promoted _ _ _ _ => exact recordAppendResp_apart s env _
  | left _ _ _ => exact hleaving s _
  | unheard hf _ => exact hf.apart.trans (hleaving _ _)
  | _ => exact .of_view rfl

/-- Requests that neither bring entries nor snapshots, and do not make the server join. -/
def ReqMsg.isPlain (req : ReqMsg) : Bool :=
  match req.body with
  | .appendEntries _ | .installSnapshot _ | .joinCluster _ | .syncLog _ => false
  | _ => true

/-- Inputs that are not about entries from elsewhere, snapshots or the commit thread. -/
def Input.isPlain : Input → Bool
  | .request req => ReqMsg.isPlain req
  | .finishSnapshot _ | .adjustCommit | .commitNext | .createSnapshot _ | .snapshotCompleted _
  | .restart _ => false
  | _ => true

theorem step_apart (hplain : input.isPlain = true)
    (hstep : s.step env input = some (t, o)) : Apart s t := by
  cases step_moves hstep with
  | steady hst _ => exact .of_core hst.core
  | elected u hu _ ht _ _ _ =>
    have hlead : Apart u u.takeLeadership := .of_view rfl
    exact (Apart.of_core hu.core).trans
      ((hlead.trans (requestAppendEntries_apart _ env)).trans (.of_core ht.core))
  | outOfRange u hu ht _ =>
    have hlost : Apart u { u with outOfLogRange := true } := .of_view rfl
    exact ((Apart.of_core hu.core).trans hlost).trans (.of_core ht.core)
  | stored k _ _ _ =>
    refine Apart.trans ?_ (requestAppendEntries_apart _ env)
    exact .of_view rfl
  | accepted _ hbody _ _ _ _ => simp [Input.isPlain, ReqMsg.isPlain, hbody] at hplain
  | parked _ hbody _ _ _ => simp [Input.isPlain, ReqMsg.isPlain, hbody] at hplain
  | packed _ hbody _ _ => simp [Input.isPlain, ReqMsg.isPlain, hbody] at hplain
  | joins hbody _ _ => simp [Input.isPlain, ReqMsg.isPlain, hbody] at hplain
  | timed _ ht _ =>
    have hcheck : Apart s (s.checkSrvToLeaveTimeout env) := .of_view rfl
    exact hcheck.trans (.of_core ht.core)
  | recorded _ _ ht _ => exact (recordAppendResp_apart s env _).trans (.of_core ht.core)
  | sent hr =>
    obtain ⟨p, -, heq⟩ := requestAppendEntriesTo_eq hr
    rw [heq]
    exact .of_view rfl
  | gaveUp hf _ => exact hf.apart.trans (.of_view rfl)
  | operated hop => exact hop.apart.trans (operate_apart _ env _)
  | urged => exact requestAppendEntries_apart s env
  | durable _ => exact commit_apart s _
  | applied | adjusted | creating | created | dropped | installed | restarted => cases hplain
  | _ => exact .of_view rfl

/-! ## Who changes the last snapshot -/

theorem acceptEntries_lastSnapshot (s : RaftServer) (req : ReqMsg) (es : List LogEntry) :
    (s.acceptEntries req es).lastSnapshot = s.lastSnapshot := by
  refine (congrArg LogView.lastSnapshot (acceptEntries_logView s req es)).trans ?_
  dsimp only [writeEntries]
  split <;> rfl

/-- The end of a creation or of an installation. -/
def Input.endsSnapshot : Input → Bool
  | .snapshotCompleted _ | .finishSnapshot _ => true
  | _ => false

inductive SnapshotChange (s t : RaftServer) (input : Input) : Prop
  | other (h : t.lastSnapshot = s.lastSnapshot) (hin : input.endsSnapshot = false)
  | dropped (h : t.lastSnapshot = s.lastSnapshot) (hlog : t.log = s.log)
  | created (ok : Bool) (snp : Snapshot) (hin : input = .snapshotCompleted ok)
      (h : t.lastSnapshot = some (s.latestSnapshot snp))
      (hlog : t.log = s.compactedLog (s.latestSnapshot snp))
  | installed (pending : PendingInstall) (conf : ClusterConfig)
      (hin : input = .finishSnapshot pending)
      (h : t.lastSnapshot = some { pending.snapshot with lastConfig := conf })
      (hlog : t.log = s.log.compact pending.snapshot.lastLogIdx)

theorem finishSnapshot_snapshotChange {pending : PendingInstall} {r : RaftServer × RespMsg}
    (h : s.finishSnapshot pending = some r) : SnapshotChange s r.1 (.finishSnapshot pending) := by
  unfold finishSnapshot at h
  split at h
  · cases h
  cases h
  refine .installed pending _ rfl rfl ?_
  split <;> simp

theorem Readied.isPlain {op : ConfOp} (h : Readied env s input op u) : input.isPlain = true := by
  cases h with
  | joined hj _ => cases hj <;> rfl
  | unheard hf _ => cases hf <;> rfl
  | _ => rfl

theorem step_snapshotChange (hstep : s.step env input = some (t, o)) :
    SnapshotChange s t input := by
  by_cases hplain : input.isPlain = true
  · refine .other (step_apart hplain hstep).last ?_
    cases input <;> first | rfl | cases hplain
  cases step_moves hstep with
  | steady hst _ => exact .dropped (core_lastSnapshot hst.core) (core_log hst.core)
  | elected u hu _ ht _ hin _ =>
    -- elections are no business of snapshots
    refine absurd ?_ hplain
    cases input with
    | request req => simp [Input.isPlain, ReqMsg.isPlain, hin.2]
    | _ => first | rfl | cases hin
  | outOfRange u hu ht _ =>
    have hlast : u.lastSnapshot = s.lastSnapshot := core_lastSnapshot hu.core
    exact .other ((core_lastSnapshot ht.core).trans hlast) rfl
  | accepted u _ hu _ _ _ =>
    exact .other ((acceptEntries_lastSnapshot u _ _).trans (core_lastSnapshot hu.core)) rfl
  | parked u _ hu _ _ =>
    have hlast : u.lastSnapshot = s.lastSnapshot := core_lastSnapshot hu.core
    exact .other hlast rfl
  | joins _ _ _ => exact .other (by simp [joinCluster]) rfl
  | timed _ ht _ =>
    have hcheck : (s.checkSrvToLeaveTimeout env).lastSnapshot = s.lastSnapshot ∧
        (s.checkSrvToLeaveTimeout env).log = s.log := ⟨rfl, rfl⟩
    exact .dropped ((core_lastSnapshot ht.core).trans hcheck.1) ((core_log ht.core).trans hcheck.2)
  | gaveUp hf _ =>
    exact .dropped hf.apart.last (sansPeers_read (f := log) (fun _ => rfl) hf.sansPeers)
  | operated hop => exact absurd hop.isPlain hplain
  | applied _ _ => exact .other (executeEntry_onlyCommits s _).last rfl
  | created _ => exact .created true _ rfl rfl rfl
  | installed _ hr => exact finishSnapshot_snapshotChange hr
  | stored | packed | adjusted | creating | restarted => exact .other rfl rfl
  | recorded | sent | urged | durable => exact absurd rfl hplain
  | _ => exact .dropped rfl rfl

/-! ## What the log has lost is in the last snapshot -/

/-- The index of the last snapshot, `0` without one. -/
def snapshotIdx (s : RaftServer) : Nat := s.lastSnapshot.elim 0 Snapshot.lastLogIdx

def Covered (s : RaftServer) : Prop := s.log.startIndex ≤ s.snapshotIdx + 1

/-- No installation of an older snapshot, and no pack that leaves a gap behind the log. -/
def KeepsCover (s : RaftServer) : Input → Prop
  | .finishSnapshot pending => s.snapshotIdx ≤ pending.snapshot.lastLogIdx
  | .request req =>
    match req.body with
    | .syncLog (some _) => s.state.catchingUp = true → req.lastLogIdx + 1 ≤ s.log.nextSlot
    | _ => True
  | _ => True

theorem writeEntries_startIndex_le (s : RaftServer) (first : Nat) (es : List LogEntry) :
    (s.writeEntries first es).log.startIndex ≤ s.log.startIndex := by
  dsimp only [writeEntries]
  split <;> exact writeFrom_startIndex_le _ _ _

/-- Only the end of a creation or of an installation can raise the start of the log. -/
theorem LogChange.startIndex_le (h : LogChange env s t input) (hin : input.endsSnapshot = false)
    (hcond : s.KeepsCover input) : t.log.startIndex ≤ s.log.startIndex := by
  cases h with
  | kept h => rw [h]
  | created es h _ => rw [h, appendLoop_startIndex]
  | received req es hin' hbody hrole h =>
    rw [h]
    exact writeEntries_startIndex_le s _ es
  | synced req es hin' hbody hcatch h =>
    rw [h]
    subst hin'
    simp only [KeepsCover, hbody] at hcond
    exact applyPack_startIndex_le _ es (hcond hcatch)
  | compacted ok snp hin' _ _ =>
    cases hin' ▸ hin
  | installed pending hin' _ _ =>
    cases hin' ▸ hin

theorem latestSnapshot_le (s : RaftServer) (snp : Snapshot) :
    s.snapshotIdx ≤ (s.latestSnapshot snp).lastLogIdx := by
  unfold snapshotIdx latestSnapshot
  cases s.lastSnapshot with
  | none => exact Nat.zero_le _
  | some old =>
    dsimp only [elim_some]
    split
    · exact le_rfl
    · next h => exact Nat.le_of_lt (Nat.not_le.mp h)

theorem compactedLog_startIndex_le (s : RaftServer) (snp : Snapshot) :
    (s.compactedLog snp).startIndex ≤ max s.log.startIndex (snp.lastLogIdx + 1) := by
  unfold compactedLog
  split
  · rw [compact_startIndex]
    omega
  · exact Nat.le_max_left _ _

theorem step_covered (hs : s.Covered) (hcond : s.KeepsCover input)
    (h : s.step env input = some (t, o)) : t.Covered := by
  have hlog := step_logChange h
  unfold Covered at hs ⊢
  cases step_snapshotChange h with
  | other hsame hin =>
    have hstart := hlog.startIndex_le hin hcond
    unfold snapshotIdx at hs ⊢
    rw [hsame]
    exact hstart.trans hs
  | dropped hsame hkept =>
    unfold snapshotIdx at hs ⊢
    rwa [hsame, hkept]
  | created ok snp hin hnew hcompact =>
    have hle := latestSnapshot_le s snp
    have hstart := compactedLog_startIndex_le s (s.latestSnapshot snp)
    have hidx : t.snapshotIdx = (s.latestSnapshot snp).lastLogIdx := by simp [snapshotIdx, hnew]
    rw [hcompact, hidx]
    omega
  | installed pending conf hin hnew hcompact =>
    have hidx : t.snapshotIdx = pending.snapshot.lastLogIdx := by simp [snapshotIdx, hnew]
    have hle : s.snapshotIdx ≤ pending.snapshot.lastLogIdx := by
      rwa [hin] at hcond
    rw [hcompact, hidx, compact_startIndex]
    omega

theorem step_hasSnapshot (hs : s.lastSnapshot.isSome = true)
    (h : s.step env input = some (t, o)) : t.lastSnapshot.isSome = true := by
  cases step_snapshotChange h with
  | other hsame _ => rw [hsame]; exact hs
  | dropped hsame _ => rw [hsame]; exact hs
  | created ok snp hin hnew _ => rw [hnew]; rfl
  | installed pending conf hin hnew _ => rw [hnew]; rfl

/-! ## The calls of `create_sync_snapshot_req` -/

/-- `create_append_entries_req` up to the call: the peer and the index that it passes. -/
def snapshotForPeer (s : RaftServer) (peer : Peer) (custom : Nat) : Option (Peer × Nat) :=
  let curNxt := s.precommitIndex + 1
  let p : Peer := if peer.nextLogIdx = 0 then { peer with nextLogIdx := curNxt } else peer
  let last := if 0 < custom then custom else p.nextLogIdx - 1
  if curNxt ≤ last then none
  else if s.log.startIndex ≤ last + 1 ∧ p.snapshotSyncIsNeeded = false then none
  else if s.lastSnapshot.isSome ∧ (p.snapshotSyncIsNeeded ∨
      (last < s.log.startIndex ∧ last < s.lastSnapshot.elim 0 Snapshot.lastLogIdx)) then
    some ({ p with cntNotApplied := s.countResends p last }, last)
  else none

/-- `sync_log_to_new_srv` up to the call. -/
def snapshotForJoiner (s : RaftServer) (startIdx : Nat) : Option (Peer × Nat) :=
  match s.srvToJoin, s.confToAdd with
  | some p, some _ =>
    let gap := s.quickCommitIndex - startIdx
    if gap < s.params.logSyncStopGap ∨ s.params.logSyncStopGap = 0 ∨ s.params.useNewJoinerType then
      none
    else if startIdx < s.log.startIndex then some (p, startIdx)
    else none
  | _, _ => none

theorem snapshotForJoiner_lt {startIdx last : Nat} {q : Peer}
    (h : s.snapshotForJoiner startIdx = some (q, last)) :
    last = startIdx ∧ startIdx < s.log.startIndex := by
  unfold snapshotForJoiner at h
  split at h
  · dsimp only at h
    split at h
    · cases h
    split at h
    · next hlt =>
      cases h
      exact ⟨rfl, hlt⟩
    · cases h
  · cases h

/-- The joining server after the response to a part of a snapshot. -/
def joinerAfterInstall (resp : RespMsg) (p : Peer) : Option Peer :=
  let p₁ : Peer := if resp.accepted then p else { p with nextLogIdx := resp.nextIdx }
  p₁.snpSyncCtx.map fun ctx =>
    if resp.snapshotDone then
      { p₁ with
        nextLogIdx := ctx.snapshot.lastLogIdx + 1
        matchedIdx := ctx.snapshot.lastLogIdx
        snpSyncCtx := none }
    else { p₁ with snpSyncCtx := some { ctx with offset := resp.nextIdx } }

/-- The call of `create_sync_snapshot_req` in a step. -/
def snapshotCalls (s : RaftServer) : Input → Option (Peer × Nat)
  | .sendAppend dst reconnect custom =>
    if s.role ≠ .leader then none
    else (s.findPeer dst).bind fun p =>
      s.snapshotForPeer (if reconnect ∧ p.nextLogIdx ≠ 0 then
        { p with nextLogIdx := 0, matchedIdx := 0 } else p) custom
  | .retryJoinSync => s.snapshotForJoiner 0
  | .extResponse resp fromJoiner =>
    match resp.type with
    | .syncLog => s.srvToJoin.bind fun p =>
      (s.setSrvToJoin { p with nextLogIdx := resp.nextIdx, matchedIdx := resp.nextIdx - 1 }
        ).snapshotForJoiner resp.nextIdx
    | .joinCluster =>
      if fromJoiner ∧ resp.accepted then s.snapshotForJoiner resp.nextIdx else none
    | .installSnapshot => (s.srvToJoin.bind (joinerAfterInstall resp)).bind fun p =>
      (s.setSrvToJoin p).snapshotForJoiner p.nextLogIdx
    | _ => none
  | _ => none

section CallSites

variable {env : Env} {q : Peer} {last : Nat}

theorem createAppendEntriesReq_of_call {peer : Peer} {custom : Nat}
    (h : s.snapshotForPeer peer custom = some (q, last)) :
    s.createAppendEntriesReq env peer custom = s.createSyncSnapshotReq env q last := by
  dsimp only [snapshotForPeer] at h
  dsimp only [createAppendEntriesReq]
  generalize (if peer.nextLogIdx = 0 then
    ({ peer with nextLogIdx := s.precommitIndex + 1 } : Peer) else peer) = p at h ⊢
  generalize (if 0 < custom then custom else p.nextLogIdx - 1) = idx at h ⊢
  split at h
  · cases h
  next hreach =>
  split at h
  · cases h
  next hgone =>
  split at h
  · next hsnp =>
    cases h
    rw [if_neg hreach, if_neg hgone, if_pos hsnp]
  · cases h

theorem syncLogToNewSrv_of_call {i : Nat} (h : s.snapshotForJoiner i = some (q, last)) :
    (s.syncLogToNewSrv env i).2 = ((s.createSyncSnapshotReq env q last).map Prod.snd).toList := by
  unfold snapshotForJoiner at h
  split at h
  · next hp hc =>
    dsimp only at h
    split at h
    · cases h
    next hgap =>
    split at h
    · next hlt =>
      cases h
      unfold syncLogToNewSrv
      rw [hp, hc]
      dsimp only
      rw [if_neg hgap, if_pos hlt]
      cases s.createSyncSnapshotReq env q last <;> rfl
    · cases h
  · cases h

/-- A step that calls `create_sync_snapshot_req` sends what the call builds and nothing else. -/
theorem step_sends_call (hcall : s.snapshotCalls input = some (q, last))
    (h : s.step env input = some (t, o)) :
    o.sent = ((s.createSyncSnapshotReq env q last).map Prod.snd).toList := by
  cases input with
  | sendAppend dst reconnect custom =>
    simp only [snapshotCalls] at hcall
    split at hcall
    · cases hcall
    next hrole =>
    obtain ⟨p, hp, hpeer⟩ := bind_eq_some_iff.mp hcall
    obtain ⟨⟨u, req⟩, hsend, ⟨⟩⟩ := map_eq_some_iff.mp h
    simp only [requestAppendEntriesTo, if_neg hrole, hp, createAppendEntriesReq_of_call hpeer]
      at hsend
    cases hbuilt : s.createSyncSnapshotReq env q last with
    | none => rw [hbuilt] at hsend; cases hsend
    | some built => rw [hbuilt] at hsend; cases hsend; rfl
  | retryJoinSync =>
    cases h
    exact syncLogToNewSrv_of_call hcall
  | extResponse resp fromJoiner =>
    cases h
    simp only [snapshotCalls] at hcall
    simp only [handleExtResp]
    split at hcall
    · next htype =>
      obtain ⟨p, hp, hjoiner⟩ := bind_eq_some_iff.mp hcall
      simp only [htype, handleLogSyncResp, hp]
      exact syncLogToNewSrv_of_call hjoiner
    · next htype =>
      split at hcall
      · next hacc =>
        simp only [htype, handleJoinClusterResp, if_pos hacc]
        exact syncLogToNewSrv_of_call hcall
      · cases hcall
    · next htype =>
      obtain ⟨p', hp', hjoiner⟩ := bind_eq_some_iff.mp hcall
      obtain ⟨p, hp, hafter⟩ := bind_eq_some_iff.mp hp'
      obtain ⟨ctx, hctx, rfl⟩ := map_eq_some_iff.mp hafter
      simp only [htype, handleInstallSnapshotRespNewMember, hp, hctx]
      exact syncLogToNewSrv_of_call hjoiner
    · cases hcall
  | _ => cases hcall

end CallSites

/-! ## Supplied calls -/

/-- The server has a snapshot up to the index at least. -/
def Available (s : RaftServer) (i : Nat) : Prop :=
  ∃ snp, s.lastSnapshot = some snp ∧ i ≤ snp.lastLogIdx

/-- The snapshot is there, so the call does not end the process. -/
def Supplied (s : RaftServer) (env : Env) (input : Input) : Prop :=
  ∀ q last, s.snapshotCalls input = some (q, last) →
    s.Available last ∧ (s.createSyncSnapshotReq env q last).isSome = true

theorem Available.isSome {i : Nat} (h : s.Available i) (env : Env) (p : Peer) :
    (s.createSyncSnapshotReq env p i).isSome = true := by
  obtain ⟨snp, hsnp, hle⟩ := h
  have hctx : ∃ ctx, s.syncContext env p i = some ctx := by
    rw [syncContext, hsnp]
    dsimp only
    rw [if_neg (Nat.not_lt.mpr hle)]
    split
    · split <;> exact ⟨_, rfl⟩
    · exact ⟨_, rfl⟩
  obtain ⟨ctx, hctx⟩ := hctx
  rw [createSyncSnapshotReq, hctx]
  rfl

theorem Covered.available {i : Nat} (hs : s.Covered) (hlt : i < s.log.startIndex)
    (hsome : 0 < i ∨ s.lastSnapshot.isSome = true) : s.Available i := by
  unfold Covered snapshotIdx at hs
  cases hsnp : s.lastSnapshot with
  | none =>
    rw [hsnp] at hs hsome
    have hpos : 0 < i := hsome.resolve_right nofun
    simp only [elim_none] at hs
    omega
  | some snp =>
    rw [hsnp] at hs
    simp only [elim_some] at hs
    exact ⟨snp, hsnp, by omega⟩

/-- A peer that has reported an unfinished installation is believed to be within the snapshot: the
index that precedes the next request for it is not beyond. -/
def WithinSnapshot (s : RaftServer) : Input → Prop
  | .sendAppend dst reconnect custom => ∀ p ∈ s.findPeer dst, p.snapshotSyncIsNeeded = true →
      ∀ snp ∈ s.lastSnapshot, (if 0 < custom then custom
          else if reconnect = true ∨ p.nextLogIdx = 0 then s.precommitIndex
          else p.nextLogIdx - 1) ≤ snp.lastLogIdx
  | _ => True

theorem snapshotForPeer_available {peer q : Peer} {custom last : Nat}
    (hneed : peer.snapshotSyncIsNeeded = true → ∀ snp ∈ s.lastSnapshot, (if 0 < custom then custom
        else if peer.nextLogIdx = 0 then s.precommitIndex else peer.nextLogIdx - 1) ≤
        snp.lastLogIdx)
    (h : s.snapshotForPeer peer custom = some (q, last)) : s.Available last := by
  dsimp only [snapshotForPeer] at h
  have hneeded : (if peer.nextLogIdx = 0 then
      ({ peer with nextLogIdx := s.precommitIndex + 1 } : Peer) else peer).snapshotSyncIsNeeded =
      peer.snapshotSyncIsNeeded := by
    split <;> rfl
  have hnext : (if peer.nextLogIdx = 0 then
      ({ peer with nextLogIdx := s.precommitIndex + 1 } : Peer) else peer).nextLogIdx - 1 =
      if peer.nextLogIdx = 0 then s.precommitIndex else peer.nextLogIdx - 1 := by
    split <;> rfl
  rw [hneeded, hnext] at h
  generalize (if 0 < custom then custom else if peer.nextLogIdx = 0 then s.precommitIndex
    else peer.nextLogIdx - 1) = idx at h hneed
  split at h
  · cases h
  split at h
  · cases h
  split at h
  · next hsnp =>
    cases h
    obtain ⟨snp, hlast⟩ := isSome_iff_exists.mp hsnp.1
    rcases hsnp.2 with hflag | ⟨-, hlt⟩
    · exact ⟨snp, hlast, hneed hflag snp hlast⟩
    · rw [hlast] at hlt
      exact ⟨snp, hlast, hlt.le⟩
  · cases h

/-- A server that answers has a position for the next entry, and `1` is the first one. -/
def Reported : Input → Prop
  | .extResponse resp _ =>
    resp.type = .syncLog ∨ resp.type = .joinCluster ∧ resp.accepted = true → 0 < resp.nextIdx
  | _ => True

theorem handleLogSyncReq_reports (s : RaftServer) (req : ReqMsg) (pack : Option (List LogEntry)) :
    0 < (s.handleLogSyncReq req pack).2.nextIdx := by
  unfold handleLogSyncReq
  split
  · exact nextSlot_pos _
  · split <;> exact nextSlot_pos _

theorem handleJoinClusterReq_reports (s : RaftServer) (req : ReqMsg) (conf : Option ClusterConfig)
    (h : (s.handleJoinClusterReq req conf).2.accepted = true) :
    0 < (s.handleJoinClusterReq req conf).2.nextIdx := by
  revert h
  fun_cases handleJoinClusterReq s req conf with
  | case1 | case3 | case4 => intro h; cases h
  | case2 | case5 => intro _; exact Nat.succ_pos _

/-- A retry, or the response to a part of a snapshot, comes after the call for the joining server. -/
def Input.followsCall : Input → Bool
  | .retryJoinSync => true
  | .extResponse resp _ => resp.type == .installSnapshot
  | _ => false

theorem calls_supplied_of_covered {env : Env} (hs : s.Covered)
    (hsome : input.followsCall = true → s.lastSnapshot.isSome = true)
    (hwithin : s.WithinSnapshot input) (hrep : Reported input) : s.Supplied env input := by
  intro q last hcall
  suffices h : s.Available last from ⟨h, h.isSome env q⟩
  cases input with
  | sendAppend dst reconnect custom =>
    simp only [snapshotCalls] at hcall
    split at hcall
    · cases hcall
    obtain ⟨p, hp, hpeer⟩ := bind_eq_some_iff.mp hcall
    refine snapshotForPeer_available (fun hneed snp hsnp => ?_) hpeer
    by_cases hnew : reconnect = true ∧ p.nextLogIdx ≠ 0
    · -- a peer over a new connection starts at the end of the log
      rw [if_pos hnew] at hneed ⊢
      have hle := hwithin p hp hneed snp hsnp
      have hstart : reconnect = true ∨ p.nextLogIdx = 0 := .inl hnew.1
      rwa [if_pos hstart] at hle
    · rw [if_neg hnew] at hneed ⊢
      have hle := hwithin p hp hneed snp hsnp
      have hzero : reconnect = true ∨ p.nextLogIdx = 0 ↔ p.nextLogIdx = 0 := by
        constructor
        · rintro (hre | hz)
          · by_contra hne
            exact hnew ⟨hre, hne⟩
          · exact hz
        · exact .inr
      simpa only [hzero] using hle
  | retryJoinSync =>
    obtain ⟨rfl, hlt⟩ := snapshotForJoiner_lt hcall
    exact hs.available hlt (.inr (hsome rfl))
  | extResponse resp fromJoiner =>
    simp only [snapshotCalls] at hcall
    split at hcall
    · next htype =>
      obtain ⟨p, -, hjoiner⟩ := bind_eq_some_iff.mp hcall
      obtain ⟨rfl, hlt⟩ := snapshotForJoiner_lt hjoiner
      exact hs.available hlt (.inl (hrep (.inl htype)))
    · next htype =>
      split at hcall
      · next hacc =>
        obtain ⟨rfl, hlt⟩ := snapshotForJoiner_lt hcall
        exact hs.available hlt (.inl (hrep (.inr ⟨htype, hacc.2⟩)))
      · cases hcall
    · next htype =>
      obtain ⟨p, -, hjoiner⟩ := bind_eq_some_iff.mp hcall
      obtain ⟨rfl, hlt⟩ := snapshotForJoiner_lt hjoiner
      exact hs.available hlt (.inr (hsome (by simp [Input.followsCall, htype])))
    · cases hcall
  | _ => cases hcall

instance (s : RaftServer) (input : Input) : Decidable (s.KeepsCover input) := by
  rcases input with ⟨⟨_, _, _, _, _, _, ⟨⟩⟩⟩ <;> try (dsimp only [KeepsCover]; infer_instance)
  rename_i pack
  rcases pack with ⟨⟩ <;> (dsimp only [KeepsCover]; infer_instance)

instance (s : RaftServer) (input : Input) : Decidable (s.WithinSnapshot input) := by
  rcases input with ⟨⟩ <;> (dsimp only [WithinSnapshot]; infer_instance)

instance (input : Input) : Decidable (Reported input) := by
  rcases input with ⟨⟩ <;> (dsimp only [Reported]; infer_instance)

end RaftServer

/-! ## Every run -/

/-- A server, and whether it has asked for a snapshot before. -/
structure SnapshotRun where
  server : RaftServer
  asked : Bool := false

namespace SnapshotRun

open RaftServer

/-- Without an earlier call there is nothing to retry, and no part of a snapshot to be answered. -/
def Occurs (x : SnapshotRun) (a : Env × Input) : Prop := a.2.followsCall = true → x.asked = true

instance (x : SnapshotRun) (a : Env × Input) : Decidable (x.Occurs a) :=
  inferInstanceAs (Decidable (_ → _))

def next (x : SnapshotRun) (a : Env × Input) : Option SnapshotRun :=
  if x.Occurs a then
    (x.server.step a.1 a.2).map fun r => ⟨r.1, x.asked || (x.server.snapshotCalls a.2).isSome⟩
  else none

structure Inv (x : SnapshotRun) : Prop where
  covered : x.server.Covered
  asked : x.asked = true → x.server.lastSnapshot.isSome = true

/-- What a step needs besides the state of the server. -/
@[mk_iff] structure Orderly (x : SnapshotRun) (a : Env × Input) : Prop where
  cover : x.server.KeepsCover a.2
  within : x.server.WithinSnapshot a.2
  reported : Reported a.2

instance (x : SnapshotRun) (a : Env × Input) : Decidable (x.Orderly a) :=
  decidable_of_iff' _ (orderly_iff x a)

variable {x y : SnapshotRun} {a : Env × Input}

theorem Inv.supplied (hx : x.Inv) (ha : x.Orderly a) (hcan : x.Occurs a) :
    x.server.Supplied a.1 a.2 :=
  calls_supplied_of_covered hx.covered (fun hfollows => hx.asked (hcan hfollows)) ha.within
    ha.reported

theorem next_inv (hx : x.Inv) (ha : x.Orderly a) (h : x.next a = some y) : y.Inv := by
  unfold next at h
  split at h
  · next hcan =>
    obtain ⟨⟨t, o⟩, hstep, rfl⟩ := map_eq_some_iff.mp h
    refine ⟨step_covered hx.covered ha.cover hstep, fun hasked => step_hasSnapshot ?_ hstep⟩
    rcases Bool.or_eq_true_iff.mp hasked with hbefore | hnow
    · exact hx.asked hbefore
    · -- the call found a snapshot
      obtain ⟨⟨q, last⟩, hcall⟩ := isSome_iff_exists.mp hnow
      obtain ⟨snp, hsnp, -⟩ := (hx.supplied ha hcan q last hcall).1
      exact isSome_iff_exists.mpr ⟨snp, hsnp⟩
  · cases h

/-- Every call of a run finds its snapshot, whether the step can be completed or not. -/
theorem calls_supplied {id : Int} {params : RaftParams} {config : ClusterConfig}
    {as : List (Env × Input)}
    (hcond : Runs.AllSteps next Orderly ⟨fresh id params config, false⟩ as) :
    Runs.AllSteps next (fun x a => x.Occurs a → x.server.Supplied a.1 a.2)
      ⟨fresh id params config, false⟩ as := by
  have hinv : Runs.AllSteps next (fun x _ => x.Inv) ⟨fresh id params config, false⟩ as := by
    refine Runs.allSteps_of_invariant (fun x a y hx ha h => next_inv hx ha h) ?_ hcond
    exact ⟨Nat.le_refl 1, nofun⟩
  exact (hinv.and hcond).imp (fun x a h hcan => h.1.supplied h.2 hcan)

end SnapshotRun

/-- Server `1` is elected, commits an entry with server `3`, applies it and compacts its log. -/
def leadsAndCompacts : List (Env × RaftServer.Input) :=
  let inputs : List RaftServer.Input :=
    [.response ⟨1, .appendEntries, 3, 1, 3, true, .ok, .none, false, false⟩,
      .commitNext, .commitNext, .createSnapshot true, .snapshotCompleted true,
      .sendAppend 2 false 0]
  leadsAndFollows.take 4 ++ inputs.map (fun input => (({} : Env), input))

/-- The snapshot of index `2` is there when server `2`, which has nothing, is to be sent it. -/
theorem leadsAndCompacts_supplied : (Runs.run SnapshotRun.next
        ⟨RaftServer.fresh 1 { reservedLogItems := 0 } threeVoters.config, false⟩
        leadsAndCompacts).map (fun x => (x.server.log.startIndex, x.server.snapshotIdx, x.asked)) =
      some (3, 2, true) ∧
    Runs.AllSteps SnapshotRun.next (fun x a => x.Occurs a → x.server.Supplied a.1 a.2)
      ⟨RaftServer.fresh 1 { reservedLogItems := 0 } threeVoters.config, false⟩ leadsAndCompacts :=
  ⟨by decide +kernel, SnapshotRun.calls_supplied (by decide +kernel)⟩

/-! ## Two leaders with different snapshots -/

def exchange (leader member : Int) : List Cluster.Action :=
  [.act leader {} (.sendAppend member false 0), .recvReq 0 {}, .recvResp 0 {}]

/-- Member `3` takes a snapshot at index `1`, the leader, member `1`, one at index `4`. Member `2`
has got three entries and the first part of the leader's snapshot when it restarts. -/
def restartsWhileReceiving : List Cluster.Action :=
  electWithThree ++ exchange 1 3 ++ exchange 1 3 ++ applyAndSnapshot 3
    ++ [.client 1 {} [[7], [8]]] ++ exchange 1 2 ++ exchange 1 2
    ++ [.client 1 {} [[9]]] ++ exchange 1 3
    ++ List.replicate 3 (.act 1 {} .commitNext) ++ applyAndSnapshot 1
    ++ [.act 1 { lastObject := false } (.sendAppend 2 false 0), .recvReq 0 { nextObject := 1 },
      .act 2 {} (.restart 0)]

/-- Member `3` leads term `2` with the vote of member `2`, which refuses two requests. -/
def refusesNewLeader : List Cluster.Action :=
  [.act 3 {} .electionTimeout, .recvReq 1 {}, .recvResp 0 {}, .recvReq 1 {}, .recvResp 0 {}]
    ++ exchange 3 2 ++ exchange 3 2

/-- The new leader is about to send its snapshot of index `1` for index `2`. -/
theorem older_snapshot_ends_leader :
    ∃ c q, compactingCluster.run (restartsWhileReceiving ++ refusesNewLeader) = some c ∧
      (c.srv 3).role = .leader ∧ (c.srv 3).snapshotIdx = 1 ∧
      (c.srv 3).snapshotCalls (.sendAppend 2 false 0) = some (q, 2) ∧
      (c.srv 3).createSyncSnapshotReq {} q 2 = none ∧
      (c.srv 3).step {} (.sendAppend 2 false 0) = none := by
  have hend : (compactingCluster.run (restartsWhileReceiving ++ refusesNewLeader)).bind (fun c =>
      ((c.srv 3).snapshotCalls (.sendAppend 2 false 0)).map fun call =>
        (decide ((c.srv 3).role = .leader), (c.srv 3).snapshotIdx, call.2,
          ((c.srv 3).createSyncSnapshotReq {} call.1 2).isNone,
          ((c.srv 3).step {} (.sendAppend 2 false 0)).isNone)) = some (true, 1, 2, true, true) := by
    decide +kernel
  obtain ⟨c, hrun, hmap⟩ := bind_eq_some_iff.mp hend
  obtain ⟨⟨q, last⟩, hcall, heq⟩ := map_eq_some_iff.mp hmap
  simp only [Prod.mk.injEq] at heq
  obtain ⟨hrole, hidx, rfl, hexit, hstep⟩ := heq
  exact ⟨c, q, hrun, of_decide_eq_true hrole, hidx, hcall, isNone_iff_eq_none.mp hexit,
    isNone_iff_eq_none.mp hstep⟩

end Raft
end Xio
