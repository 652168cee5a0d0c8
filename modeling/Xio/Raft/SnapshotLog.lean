import Xio.Raft.SnapshotSupply

/-!
# Raft.SnapshotLog — the log goes on where the snapshot ends

The commit thread asks for snapshots of what it has applied, the state machine completes them at
any time later, and a leader may send a snapshot that is ahead of the log. All three move
`last_snapshot_`, and two of them compact the log. In every order of these steps the log starts at
or below the index behind the last snapshot and reaches at least up to the snapshot, and the server
knows the term of the snapshot's index.

The invariant is that some log `V` explains both: the store has its entries from the start index
on, and the snapshots are taken at its positions. A received snapshot may replace the beginning of
`V`, but no step replaces a position that a snapshot or the commit index covers.
-/

namespace Xio
namespace Raft

open ReplicatedLog List Option RaftServer LogStore

/-! ## What the operations mean for the whole log -/

namespace Holds

variable {V : List LogEntry} {w : LogView} {s : RaftServer}

theorem termForLog_snapshot (h : Holds V s.logView) {snp : Snapshot}
    (hsnp : s.lastSnapshot = some snp) : s.termForLog snp.lastLogIdx = snp.lastLogTerm := by
  obtain ⟨e, hpos, he, hterm⟩ := h.last snp hsnp
  rw [termForLog, if_neg (Nat.ne_of_gt hpos)]
  split
  · next hle =>
    have hentry : s.log.entryAt snp.lastLogIdx = some e := (h.entryAt_of_le hle).trans he
    rw [termAt_of_entryAt hentry, hterm]
  · rw [hsnp]
    exact if_pos rfl

/-- A received snapshot that is ahead of all others replaces the beginning of the log. -/
theorem installOver (h : Holds V w) {pending : PendingInstall} {conf : ClusterConfig}
    (hlt : w.coveredIdx < pending.snapshot.lastLogIdx) :
    Holds (replicate pending.snapshot.lastLogIdx
      ⟨pending.snapshot.lastLogTerm, .appLog []⟩ ++ V.drop pending.snapshot.lastLogIdx)
      (w.install pending conf) := by
  have hkept := h.kept
  have hidx : w.snapshotIdx ≤ w.coveredIdx := Nat.le_max_left _ _
  have hstart : w.log.startIndex ≤ pending.snapshot.lastLogIdx := by omega
  have hpos := w.log.start_pos
  have hlog : w.log.compact pending.snapshot.lastLogIdx = ⟨pending.snapshot.lastLogIdx + 1,
        w.log.entries.drop (pending.snapshot.lastLogIdx + 1 - w.log.startIndex),
        Nat.succ_pos _⟩ := if_pos hstart
  refine ⟨?_, ?_, ?_, ?_, ?_, ?_⟩
  · show (w.log.compact pending.snapshot.lastLogIdx).startIndex ≤ _
    rw [hlog, length_append, length_replicate]
    dsimp only
    omega
  · show (w.log.compact pending.snapshot.lastLogIdx).entries =
      List.drop ((w.log.compact pending.snapshot.lastLogIdx).startIndex - 1) _
    rw [hlog]
    dsimp only
    rw [h.entries, drop_drop, Nat.add_sub_cancel, drop_left' length_replicate]
    congr 1
    omega
  · rintro snp ⟨⟩
    refine ⟨⟨pending.snapshot.lastLogTerm, .appLog []⟩, by dsimp only; omega, ?_, rfl⟩
    dsimp only
    rw [getElem?_append_left (by rw [length_replicate]; omega),
      getElem?_replicate, if_pos (by omega)]
  · show (w.log.compact pending.snapshot.lastLogIdx).startIndex ≤ pending.snapshot.lastLogIdx + 1
    rw [hlog]
  · intro snp hsnp
    have hcreating : snp.lastLogIdx ≤ w.coveredIdx := by
      refine Nat.le_trans (Nat.le_of_eq ?_) (Nat.le_max_right _ _)
      rw [show w.snpInProgress = some snp from hsnp]
      rfl
    exact ⟨(h.creating snp hsnp).1, .inr (hcreating.trans hlt.le)⟩
  · rw [length_append, length_replicate]
    exact Nat.le_add_right _ _

end Holds

namespace RaftServer

variable {s t u : RaftServer} {env : Env} {input : Input} {req : ReqMsg}

/-! ## The invariant -/

structure SnapshotInv (s : RaftServer) : Prop where
  holds : ∃ V, Holds V s.logView
  applied : s.smCommitIndex ≤ s.quickCommitIndex
  covered : s.logView.coveredIdx ≤ s.quickCommitIndex
  installing : ∀ pending ∈ s.applyingSnapshots, s.applyingSnapshots = [pending] ∧
    s.quickCommitIndex < pending.snapshot.lastLogIdx ∧ s.state.receivingSnapshot = true

/-- The entries that an append request makes the server write are above what it has committed. -/
def WritesAbove (s : RaftServer) (req : ReqMsg) (es : List LogEntry) : Prop :=
  (s.log.skipLoop (req.lastLogIdx + 1) es).2 = [] ∨
    s.quickCommitIndex < (s.log.skipLoop (req.lastLogIdx + 1) es).1

instance (s : RaftServer) (req : ReqMsg) (es : List LogEntry) : Decidable (s.WritesAbove req es) :=
  inferInstanceAs (Decidable (_ ∨ _))

/-- No snapshot is being installed. -/
def Settles (s : RaftServer) : Prop := s.applyingSnapshots = []

instance (s : RaftServer) : Decidable s.Settles := inferInstanceAs (Decidable (_ = _))

/-- Requests that a running member gets. Committed entries are not overwritten, and one snapshot is
installed at a time. -/
def ProceedsReq (s : RaftServer) (req : ReqMsg) : ReqBody → Prop
  | .appendEntries es => s.WritesAbove req es
  | .joinCluster _ | .syncLog _ => False
  | .clientRequest _ => s.role = .leader → s.Settles
  | _ => s.Settles

instance (s : RaftServer) (req : ReqMsg) (body : ReqBody) : Decidable (s.ProceedsReq req body) := by
  rcases body with ⟨⟩ <;> (dsimp only [ProceedsReq]; infer_instance)

/-- Appends, commits, snapshots and elections of a running member. While a snapshot is being
installed, the member hears of new entries, and its commit thread and its state machine go on. -/
def Proceeds (s : RaftServer) : Input → Prop
  | .request req => s.ProceedsReq req req.body
  | .finishSnapshot _ | .adjustCommit | .commitNext | .createSnapshot _ | .snapshotCompleted _ =>
    True
  | .restart _ => False
  | _ => s.Settles

instance (s : RaftServer) (input : Input) : Decidable (s.Proceeds input) := by
  rcases input with ⟨⟩ <;> (dsimp only [Proceeds]; infer_instance)

theorem SnapshotInv.of_apart (hs : s.SnapshotInv) (h : Apart s t) (hsettles : s.Settles)
    (hholds : ∃ V, Holds V t.logView) : t.SnapshotInv := by
  have hcovered : t.logView.coveredIdx = s.logView.coveredIdx := by
    unfold LogView.coveredIdx LogView.snapshotIdx logView
    rw [h.last, h.creating]
  refine ⟨hholds, ?_, ?_, ?_⟩
  · rw [h.sm]
    exact hs.applied.trans h.quick
  · rw [hcovered]
    exact hs.covered.trans h.quick
  · rw [h.applying, hsettles]
    exact fun _ hmem => (nomatch hmem)

theorem SnapshotInv.of_logView (hs : s.SnapshotInv) (h : t.logView = s.logView)
    (hflag : s.state.receivingSnapshot = true → t.state.receivingSnapshot = true) :
    t.SnapshotInv := by
  have hquick : t.quickCommitIndex = s.quickCommitIndex := congrArg LogView.quickCommitIndex h
  have happlying : t.applyingSnapshots = s.applyingSnapshots :=
    congrArg LogView.applyingSnapshots h
  refine ⟨by rw [h]; exact hs.holds, ?_, ?_, ?_⟩
  · rw [show t.smCommitIndex = s.smCommitIndex from congrArg LogView.smCommitIndex h, hquick]
    exact hs.applied
  · rw [h, hquick]
    exact hs.covered
  · rw [happlying, hquick]
    intro pending hmem
    obtain ⟨hone, hlt, hrecv⟩ := hs.installing pending hmem
    exact ⟨hone, hlt, hflag hrecv⟩

/-- A step that is about something else leaves the log alone or appends to it. -/
theorem plain_snapshotInv {o : Output} (hs : s.SnapshotInv) (hplain : input.isPlain = true)
    (hsettles : s.Settles) (h : s.step env input = some (t, o)) : t.SnapshotInv := by
  have hapart := step_apart hplain h
  refine hs.of_apart hapart hsettles ?_
  obtain ⟨V, hV⟩ := hs.holds
  cases step_logChange h with
  | kept hlog => exact ⟨V, hV.congr hlog hapart.last hapart.creating hapart.sm⟩
  | created es hlog =>
    exact ⟨V ++ es, (hV.append es).congr hlog hapart.last hapart.creating hapart.sm⟩
  | received req es hin hbody =>
    subst hin
    simp [Input.isPlain, ReqMsg.isPlain, hbody] at hplain
  | synced req es hin hbody =>
    subst hin
    simp [Input.isPlain, ReqMsg.isPlain, hbody] at hplain
  | compacted ok snp hin => subst hin; cases hplain
  | installed pending hin => subst hin; cases hplain

/-! ### Append requests -/

theorem handleAppendEntries_receiving (hrecv : s.state.receivingSnapshot = true) (env : Env)
    (req : ReqMsg) (es : List LogEntry) :
    (s.handleAppendEntries env req es).1.logView = s.logView ∧
      (s.handleAppendEntries env req es).1.state.receivingSnapshot = true := by
  have hclear : s.clearCatchingUp.state.receivingSnapshot = true := hrecv
  have hfollow : (s.clearCatchingUp.followAppender req).logView = s.logView ∧
      (s.clearCatchingUp.followAppender req).state.receivingSnapshot = true := by
    unfold followAppender
    split
    · split
      · exact ⟨by rw [logView_becomeFollower]; rfl, by simpa using hclear⟩
      · exact ⟨rfl, hclear⟩
    · exact ⟨rfl, hclear⟩
  unfold handleAppendEntries
  split
  · exact ⟨rfl, hrecv⟩
  dsimp only
  split
  · exact ⟨rfl, hclear⟩
  rw [if_pos (by simp [refusesAppend, hfollow.2])]
  exact hfollow

theorem lastLogIdx_le_of_okay {V : List LogEntry} (hV : Holds V s.logView)
    (hokay : s.appendLogOkay req = true) : req.lastLogIdx ≤ V.length := by
  have hnext : s.log.nextSlot = V.length + 1 := hV.nextSlot
  simp only [appendLogOkay, Bool.or_eq_true, beq_iff_eq, Bool.and_eq_true, bne_iff_ne] at hokay
  rcases hokay with (hzero | ⟨hne, -⟩) | hsnp
  · omega
  · split at hne
    · omega
    · exact absurd rfl hne
  · cases hlast : s.lastSnapshot with
    | none =>
      cases hlast ▸ hsnp
    | some snp =>
      rw [hlast] at hsnp
      simp only [any_some, Bool.and_eq_true, beq_iff_eq] at hsnp
      exact hsnp.1 ▸ (hV.last snp hlast).le_length

section

variable (hs : s.SnapshotInv)
include hs

/-- Writing above the commit index replaces a part of the log that no snapshot is about. -/
theorem writeEntries_above {V : List LogEntry} (hV : Holds V s.logView) {es : List LogEntry}
    (hlast : req.lastLogIdx ≤ V.length) (habove : s.WritesAbove req es) :
    (∃ V', Holds V' (s.writeEntries (req.lastLogIdx + 1) es).logView) ∧
      Apart s (s.writeEntries (req.lastLogIdx + 1) es) := by
  have hnext : s.log.nextSlot = V.length + 1 := hV.nextSlot
  have hkept : s.log.startIndex ≤ s.logView.snapshotIdx + 1 := hV.kept
  have hidx : s.logView.snapshotIdx ≤ s.logView.coveredIdx := Nat.le_max_left _ _
  have hcovered := hs.covered
  have happlied := hs.applied
  obtain ⟨k, hk, heq, hskip, -⟩ := skipLoop_spec s.log (req.lastLogIdx + 1) es
  have hend : req.lastLogIdx + k ≤ V.length := by
    cases k with
    | zero => exact hlast
    | succ k =>
      have := (hskip k (Nat.lt_succ_self k)).1
      omega
  unfold WritesAbove at habove
  unfold writeEntries
  rw [heq] at habove ⊢
  dsimp only at habove ⊢
  by_cases hnil : es.drop k = []
  · rw [hnil, if_neg (by simp)]
    exact ⟨⟨V, hV⟩, le_rfl, rfl, rfl, rfl, rfl⟩
  · have hquick := habove.resolve_left hnil
    have hstart : s.log.startIndex ≤ req.lastLogIdx + 1 + k := by omega
    have hentries : (s.log.writeFrom (req.lastLogIdx + 1 + k) (es.drop k)).entries =
        s.log.entries.take (req.lastLogIdx + k + 1 - s.log.startIndex) ++ es.drop k := by
      rw [writeFrom_entries hstart (by omega) hnil]
      congr 3
      omega
    have hreplace := hV.replace hend (by omega) (writeFrom_startIndex hstart (es.drop k)) hentries
      ⟨Nat.le_refl s.smCommitIndex, fun hlt => by omega⟩
    -- the roll-back starts above the commit indices, so it does not reach them
    have hroll : Apart s ((s.rollback (req.lastLogIdx + 1 + k)).storeReceived
        (req.lastLogIdx + 1 + k) (es.drop k)) := by
      refine ⟨?_, ?_, rfl, rfl, rfl⟩
      · simp only [storeReceived_quickCommitIndex, rollback_quickCommitIndex]
        rw [if_neg (by omega)]
      · simp only [storeReceived_smCommitIndex, rollback_smCommitIndex]
        rw [if_neg (by omega)]
    split
    · exact ⟨⟨_, hreplace.congr rfl rfl rfl hroll.sm⟩, hroll⟩
    · exact ⟨⟨_, hreplace.congr rfl rfl rfl rfl⟩, le_rfl, rfl, rfl, rfl, rfl⟩

theorem append_snapshotInv {es : List LogEntry} (habove : s.WritesAbove req es) (env : Env) :
    (s.handleAppendEntries env req es).1.SnapshotInv := by
  obtain ⟨V, hV⟩ := hs.holds
  cases hcase : s.applyingSnapshots with
  | cons pending rest =>
    have hmem : pending ∈ s.applyingSnapshots := hcase ▸ mem_cons_self
    obtain ⟨-, -, hrecv⟩ := hs.installing pending hmem
    obtain ⟨hview, hflag⟩ := handleAppendEntries_receiving hrecv env req es
    exact hs.of_logView hview (fun _ => hflag)
  | nil =>
    rcases handleAppendEntries_log s env req es with ⟨hview, -⟩ | ⟨-, -, hokay, hview, -⟩
    · exact hs.of_apart (.of_logView hview) hcase ⟨V, by rw [hview]; exact hV⟩
    · -- the entries are written, and then the commit index may follow the leader's
      rcases writeEntries_above hs hV (lastLogIdx_le_of_okay hV hokay) habove with
        ⟨⟨V', hV'⟩, hwrite⟩
      rw [acceptEntries_logView] at hview
      have haccept : Apart s (s.handleAppendEntries env req es).1 := by
        refine ⟨?_, ?_, ?_, ?_, ?_⟩
        · rw [show (s.handleAppendEntries env req es).1.quickCommitIndex = _ from
            congrArg LogView.quickCommitIndex hview]
          exact hwrite.quick.trans (Nat.le_max_left _ _)
        · exact (congrArg LogView.smCommitIndex hview).trans hwrite.sm
        · exact (congrArg LogView.lastSnapshot hview).trans hwrite.last
        · exact (congrArg LogView.snpInProgress hview).trans hwrite.creating
        · exact (congrArg LogView.applyingSnapshots hview).trans hwrite.applying
      refine hs.of_apart haccept hcase ⟨V', ?_⟩
      rw [hview]
      exact hV'.congr rfl rfl rfl rfl

/-! ### Snapshots -/

/-- A received snapshot waits for the lock only if it is ahead of the commit index. -/
theorem receiveObject_snapshotInv (hsettles : s.Settles) (env : Env) (resp : RespMsg)
    (obj : SnapshotSyncReq) : (s.receiveObject env resp obj).1.SnapshotInv := by
  unfold receiveObject
  split
  · exact hs
  next hahead =>
  split
  · exact hs
  split
  · refine ⟨hs.holds.imp fun V hV => hV.congr rfl rfl rfl rfl, hs.applied, hs.covered, ?_⟩
    intro pending hmem
    have happlying : (s.startReceiving.parkInstall
        ⟨obj.snapshot, resp.term, resp.dst, env.nextObject⟩).applyingSnapshots =
        [⟨obj.snapshot, resp.term, resp.dst, env.nextObject⟩] := by
      rw [parkInstall_applyingSnapshots, startReceiving_applyingSnapshots, hsettles]
    rw [happlying] at hmem ⊢
    rw [mem_singleton.mp hmem]
    exact ⟨rfl, Nat.lt_of_not_le hahead, rfl⟩
  · exact hs.of_apart ⟨le_rfl, rfl, rfl, rfl, rfl⟩ hsettles hs.holds

theorem installReq_snapshotInv {sync : Option SnapshotSyncReq} {r : RaftServer × Option RespMsg}
    (hsettles : s.Settles) (h : s.handleInstallSnapshotReq env req sync = some r) :
    r.1.SnapshotInv := by
  have hcore := (followLeader_steady s req).core
  have hapart : Apart s (s.followLeader req) := .of_core hcore
  have hfollow : (s.followLeader req).SnapshotInv :=
    hs.of_apart hapart hsettles (hs.holds.imp fun V hV =>
      hV.congr (core_log hcore) hapart.last hapart.creating hapart.sm)
  unfold handleInstallSnapshotReq at h
  split at h
  · cases h
  dsimp only at h
  split at h
  · cases h
    exact hfollow
  split at h
  · cases h
    exact hfollow
  · cases h
    exact receiveObject_snapshotInv hfollow (hapart.applying.trans hsettles) env _ _

theorem SnapshotInv.of_applied (hlog : t.log = s.log) (hlast : t.lastSnapshot = s.lastSnapshot)
    (hcreating : t.snpInProgress = s.snpInProgress)
    (happlying : t.applyingSnapshots = s.applyingSnapshots)
    (hquick : t.quickCommitIndex = s.quickCommitIndex)
    (hflag : t.state.receivingSnapshot = s.state.receivingSnapshot)
    (hle : t.smCommitIndex ≤ s.quickCommitIndex) (hin : t.smCommitIndex < s.log.nextSlot) :
    t.SnapshotInv := by
  refine ⟨?_, by rw [hquick]; exact hle, ?_, ?_⟩
  · obtain ⟨V, hV⟩ := hs.holds
    have hnext : s.log.nextSlot = V.length + 1 := hV.nextSlot
    exact ⟨V, (hV.move (k := t.smCommitIndex) (by omega)).congr hlog hlast hcreating rfl⟩
  · have hcovered : t.logView.coveredIdx = s.logView.coveredIdx := by
      unfold LogView.coveredIdx LogView.snapshotIdx logView
      rw [hlast, hcreating]
    rw [hcovered, hquick]
    exact hs.covered
  · rw [happlying, hquick, hflag]
    exact hs.installing

theorem commitNext_snapshotInv (h : s.commitNext = some t) : t.SnapshotInv := by
  have hconf (c : ClusterConfig) : (s.commitConf c).log = s.log ∧
      (s.commitConf c).lastSnapshot = s.lastSnapshot ∧
      (s.commitConf c).snpInProgress = s.snpInProgress ∧
      (s.commitConf c).applyingSnapshots = s.applyingSnapshots ∧
      (s.commitConf c).quickCommitIndex = s.quickCommitIndex ∧
      (s.commitConf c).state.receivingSnapshot = s.state.receivingSnapshot := by
    unfold commitConf
    split <;> simp
  unfold commitNext at h
  split at h
  · next hgo =>
    split at h
    · cases h
    split at h
    · split at h
      · cases h
      · cases h
        exact hs.of_applied rfl rfl rfl rfl rfl rfl hgo.1 (by simp only [applied_smCommitIndex]; omega)
    · cases h
      obtain ⟨hlog, hlast, hcreating, happlying, hquick, hflag⟩ := hconf _
      exact hs.of_applied hlog hlast hcreating happlying hquick hflag hgo.1
        (by simp only [applied_smCommitIndex]; omega)
  · cases h

theorem adjustCommit_snapshotInv : s.adjustSmCommitIndex.SnapshotInv := by
  obtain ⟨V, hV⟩ := hs.holds
  have hnext : s.log.nextSlot = V.length + 1 := hV.nextSlot
  have hkept : s.log.startIndex ≤ s.logView.snapshotIdx + 1 := hV.kept
  have hstart : s.log.startIndex ≤ V.length + 1 := hV.start
  have hsm : s.smCommitIndex ≤ V.length := hV.applied
  have hidx : s.logView.snapshotIdx ≤ s.logView.coveredIdx := Nat.le_max_left _ _
  have hcovered := hs.covered
  have happlied := hs.applied
  refine hs.of_applied rfl rfl rfl rfl rfl rfl ?_ ?_
  · rw [adjustSmCommitIndex_smCommitIndex]
    omega
  · rw [adjustSmCommitIndex_smCommitIndex]
    omega

theorem createSnapshot_snapshotInv (env : Env) (forced : Bool) :
    (s.snapshotAndCompact env forced).SnapshotInv := by
  unfold snapshotAndCompact
  split
  · next hdue =>
    simp only [snapshotDue, Bool.and_eq_true, decide_eq_true_eq] at hdue
    refine ⟨?_, hs.applied, ?_, hs.installing⟩
    · obtain ⟨V, hV⟩ := hs.holds
      have hidx : s.snapshotToCreate.lastLogIdx = s.logView.smCommitIndex := rfl
      exact ⟨V, hV.create hidx rfl hdue.2⟩
    · -- the new snapshot is of what is applied
      refine Nat.max_le.mpr ⟨?_, hs.applied⟩
      exact (Nat.le_max_left _ _).trans hs.covered
  · exact hs

theorem snapshotCompleted_snapshotInv (ok : Bool) : (s.onSnapshotCompleted ok).SnapshotInv := by
  obtain ⟨hlast, hcreating⟩ := Nat.max_le.mp hs.covered
  unfold onSnapshotCompleted
  split
  · exact hs
  next snp hsnp =>
  obtain ⟨V, hV⟩ := hs.holds
  split
  · refine ⟨⟨V, hV.adopt hsnp⟩, hs.applied, Nat.max_le.mpr ⟨?_, Nat.zero_le _⟩, hs.installing⟩
    -- the state machine answers with this snapshot or with the one before it
    have hnew : snp.lastLogIdx ≤ s.quickCommitIndex := by
      rwa [show s.logView.snpInProgress = some snp from hsnp] at hcreating
    unfold latestSnapshot
    split
    · next old hold =>
      rw [show s.logView.snapshotIdx = old.lastLogIdx by
        unfold LogView.snapshotIdx logView; rw [hold]; rfl] at hlast
      split
      · exact hlast
      · exact hnew
    · exact hnew
  · exact ⟨⟨V, hV.drop⟩, hs.applied, Nat.max_le.mpr ⟨hlast, Nat.zero_le _⟩, hs.installing⟩

theorem finishSnapshot_snapshotInv {pending : PendingInstall} {r : RaftServer × RespMsg}
    (hmem : pending ∈ s.applyingSnapshots) (h : s.finishSnapshot pending = some r) :
    r.1.SnapshotInv := by
  obtain ⟨hone, hlt, -⟩ := hs.installing pending hmem
  obtain ⟨V, hV⟩ := hs.holds
  obtain ⟨-, hcreating⟩ := Nat.max_le.mp hs.covered
  unfold finishSnapshot at h
  split at h
  · cases h
  cases h
  have hconf : ∀ v : RaftServer, (v = s.compactTo pending ∨
      v = (s.compactTo pending).reconfigure pending.snapshot.lastConfig) →
      v.log = s.log.compact pending.snapshot.lastLogIdx ∧
      v.snpInProgress = s.snpInProgress ∧ v.applyingSnapshots = [] := by
    have herase : s.applyingSnapshots.erase pending = [] := by rw [hone]; simp
    rintro v (rfl | rfl)
    · exact ⟨rfl, rfl, herase⟩
    · simp [herase]
  generalize hv : (if (s.compactTo pending).config.logIdx < pending.snapshot.lastConfig.logIdx then
    (s.compactTo pending).reconfigure pending.snapshot.lastConfig
    else s.compactTo pending) = v
  rcases hconf v (by rw [← hv]; split <;> simp) with ⟨hlog, hprogress, happlying⟩
  have hcovered : s.logView.coveredIdx < pending.snapshot.lastLogIdx :=
    hs.covered.trans_lt hlt
  have hinstall : Holds _ (s.logView.install pending v.config) := hV.installOver hcovered
  refine ⟨⟨_, hinstall.congr hlog rfl hprogress rfl⟩, le_rfl, ?_, ?_⟩
  · refine Nat.max_le.mpr ⟨le_rfl, ?_⟩
    show v.snpInProgress.elim 0 Snapshot.lastLogIdx ≤ pending.snapshot.lastLogIdx
    rw [hprogress]
    exact hcreating.trans hlt.le
  · show ∀ q ∈ v.applyingSnapshots, _
    rw [happlying]
    exact fun _ hq => (nomatch hq)

end

/-! ## Every run -/

theorem updateTermOnReq_receivingSnapshot (s : RaftServer) (req : ReqMsg) :
    (s.updateTermOnReq req).state.receivingSnapshot = s.state.receivingSnapshot := by
  have hterm : (s.updateTerm req.term).1.state.receivingSnapshot = s.state.receivingSnapshot := by
    unfold updateTerm
    split <;> simp
  unfold updateTermOnReq
  split <;> simp [hterm]

theorem request_snapshotInv {o : Output} (hs : s.SnapshotInv)
    (hgo : s.Proceeds (.request req)) (h : s.step env (.request req) = some (t, o)) :
    t.SnapshotInv := by
  have hplain (hreq : Input.isPlain (.request req) = true) (hsettles : s.Settles) :
      t.SnapshotInv := plain_snapshotInv hs hreq hsettles h
  have hview := logView_updateTermOnReq s req
  have hterm : (s.updateTermOnReq req).SnapshotInv :=
    hs.of_logView hview (fun hflag => (updateTermOnReq_receivingSnapshot s req).trans hflag)
  simp only [step, processReq] at h
  change s.ProceedsReq req req.body at hgo
  cases hbody : req.body with
  | appendEntries es =>
    rw [hbody] at h hgo
    cases h
    refine append_snapshotInv hterm ?_ env
    unfold ProceedsReq WritesAbove at hgo
    unfold WritesAbove
    simpa using hgo
  | installSnapshot sync =>
    rw [hbody] at h hgo
    obtain ⟨r, hr, heq⟩ := map_eq_some_iff.mp h
    cases heq
    have happlying : (s.updateTermOnReq req).applyingSnapshots = s.applyingSnapshots :=
      congrArg LogView.applyingSnapshots hview
    exact installReq_snapshotInv hterm (happlying.trans hgo) hr
  | clientRequest bufs =>
    rw [hbody] at hgo
    by_cases hlead : s.role = .leader
    · exact hplain (by simp [Input.isPlain, ReqMsg.isPlain, hbody]) (hgo hlead)
    · -- a server that does not lead refuses, whatever it is installing
      have hsame : s.updateTermOnReq req = s := by simp [updateTermOnReq, hbody]
      rw [hbody, hsame] at h
      simp only [handleCliReq] at h
      rw [if_pos (.inl hlead)] at h
      cases h
      exact hs
  | joinCluster conf =>
    rw [hbody] at hgo
    exact absurd hgo (fun hno => hno)
  | syncLog pack =>
    rw [hbody] at hgo
    exact absurd hgo (fun hno => hno)
  | _ =>
    rw [hbody] at hgo
    exact hplain (by simp [Input.isPlain, ReqMsg.isPlain, hbody]) hgo

theorem step_snapshotInv {o : Output} (hs : s.SnapshotInv) (hgo : s.Proceeds input)
    (h : s.step env input = some (t, o)) : t.SnapshotInv := by
  cases input with
  | request req => exact request_snapshotInv hs hgo h
  | finishSnapshot pending =>
    simp only [step] at h
    split at h
    · next hmem =>
      obtain ⟨r, hr, heq⟩ := map_eq_some_iff.mp h
      cases heq
      exact finishSnapshot_snapshotInv hs hmem hr
    · cases h
  | adjustCommit => cases h; exact adjustCommit_snapshotInv hs
  | commitNext =>
    obtain ⟨u, hu, heq⟩ := map_eq_some_iff.mp h
    cases heq
    exact commitNext_snapshotInv hs hu
  | createSnapshot forced => cases h; exact createSnapshot_snapshotInv hs env forced
  | snapshotCompleted ok => cases h; exact snapshotCompleted_snapshotInv hs ok
  | restart applied => exact absurd hgo (fun hno => hno)
  | _ => exact plain_snapshotInv hs rfl hgo h

/-- The log starts at or below the index behind the snapshot and reaches up to it, and the term of
the snapshot's index is known. -/
structure NoGap (s : RaftServer) (snp : Snapshot) : Prop where
  start : s.log.startIndex ≤ snp.lastLogIdx + 1
  reach : snp.lastLogIdx + 1 ≤ s.log.nextSlot
  term : s.termForLog snp.lastLogIdx = snp.lastLogTerm

theorem SnapshotInv.noGap (hs : s.SnapshotInv) {snp : Snapshot} (hsnp : snp ∈ s.lastSnapshot) :
    s.NoGap snp := by
  obtain ⟨V, hV⟩ := hs.holds
  have hidx : s.logView.snapshotIdx = snp.lastLogIdx := by
    rw [LogView.snapshotIdx, logView, show s.lastSnapshot = some snp from hsnp]
    rfl
  have hnext : s.log.nextSlot = V.length + 1 := hV.nextSlot
  refine ⟨?_, ?_, hV.termForLog_snapshot hsnp⟩
  · exact hidx ▸ hV.kept
  · rw [hnext]
    exact Nat.succ_le_succ (hV.last snp hsnp).le_length

theorem fresh_snapshotInv (id : Int) (params : RaftParams) (config : ClusterConfig) :
    (fresh id params config).SnapshotInv := by
  refine ⟨⟨[], ?_⟩, le_rfl, le_rfl, fun _ hmem => (nomatch hmem)⟩
  exact ⟨le_rfl, rfl, nofun, le_rfl, nofun, le_rfl⟩

/-- In every run there is no gap between the last snapshot and the log. -/
theorem snapshot_meets_log {id : Int} {params : RaftParams} {config : ClusterConfig}
    {as : List (Env × Input)}
    (hcond : Runs.AllSteps next (fun v a => v.Proceeds a.2) (fresh id params config) as)
    (h : Runs.run next (fresh id params config) as = some t) :
    ∀ snp ∈ t.lastSnapshot, t.NoGap snp := by
  have hinv : t.SnapshotInv := by
    refine Runs.invariant_of_allSteps (I := SnapshotInv) ?_ (fresh_snapshotInv id params config)
      hcond h
    intro v a w hv hgo hw
    obtain ⟨o, ho⟩ := next_eq_some.mp hw
    exact step_snapshotInv hv hgo ho
  exact fun snp hsnp => hinv.noGap hsnp

end RaftServer

/-- The third entry of a member is not committed yet when a snapshot of index `9` comes in. Its own
snapshot of index `2` is completed in the meantime, and entries are refused. -/
def installsAhead : List (Env × RaftServer.Input) :=
  let append (last : Nat) (es : List LogEntry) : RaftServer.Input :=
    .request ⟨1, 1, 2, 1, last, 2, .appendEntries es⟩
  let snp : Snapshot := ⟨9, 1, threeVoters.config⟩
  let inputs : List RaftServer.Input :=
    [append 0 [⟨1, .appLog [1]⟩, ⟨1, .appLog [2]⟩, ⟨1, .appLog [3]⟩],
      .commitNext, .commitNext, .createSnapshot true,
      .request ⟨1, 1, 2, 1, 9, 9, .installSnapshot (some ⟨snp, 0, true⟩)⟩,
      append 3 [⟨1, .appLog [4]⟩], .snapshotCompleted true, .finishSnapshot ⟨snp, 1, 1, 0⟩,
      append 9 [⟨1, .appLog [10]⟩]]
  inputs.map (fun input => (({} : Env), input))

theorem installsAhead_noGap :
    ∃ t, Runs.run RaftServer.next (RaftServer.fresh 2 { reservedLogItems := 1 } threeVoters.config)
        installsAhead = some t ∧ t.lastSnapshot.isSome = true ∧
      ∀ snp ∈ t.lastSnapshot, t.NoGap snp := by
  have hend : (Runs.run next
      (fresh 2 { reservedLogItems := 1 } threeVoters.config) installsAhead).map
      (fun t => (t.log.startIndex, t.log.nextSlot, t.lastSnapshot.isSome)) =
      some (10, 11, true) := by
    decide +kernel
  obtain ⟨t, ht, heq⟩ := map_eq_some_iff.mp hend
  simp only [Prod.mk.injEq] at heq
  exact ⟨t, ht, heq.2.2, snapshot_meets_log (by decide +kernel) ht⟩

end Raft
end Xio
