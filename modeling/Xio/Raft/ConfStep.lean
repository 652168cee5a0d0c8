import Xio.Raft.Move

/-!
# Raft.ConfStep — everything a step can do to a leader's configurations

What a leader knows about configurations is its log, how far the log is applied, the committed
and the uncommitted configuration, and the flag of a running change (`ConfView`). A step that leaves
a leader in office either keeps the view or is one of the cases of `ConfStep`.
-/

namespace Xio
namespace Raft
namespace RaftServer

open RaftServer

variable {s t u : RaftServer} {env : Env} {input : Input}

/-- A leader after the step was leader before it, with the same view. -/
def Kept (s t : RaftServer) : Prop :=
  t.role = .leader → s.role = .leader ∧ t.confView = s.confView

theorem Kept.trans (h₁ : Kept s t) (h₂ : Kept t u) : Kept s u := by
  intro hu
  obtain ⟨ht, hview⟩ := h₂ hu
  obtain ⟨hs, hview'⟩ := h₁ ht
  exact ⟨hs, hview.trans hview'⟩

theorem Kept.of_view (hr : t.role = s.role) (hv : t.confView = s.confView) : Kept s t :=
  fun h => ⟨hr ▸ h, hv⟩

theorem Kept.of_not_leader (h : t.role ≠ .leader) : Kept s t := fun hl => absurd hl h

theorem isConf_of_mem_clientEntries {bufs : List Bytes} {e : LogEntry}
    (he : e ∈ s.clientEntries bufs) : e.isConf = false := by
  obtain ⟨b, _, rfl⟩ := List.mem_map.mp he
  rfl

/-- What one step can do, seen from a server that leads afterwards. -/
inductive ConfStep (s t : RaftServer) (input : Input) : Prop
  | kept (h : Kept s t)
  /-- Client data were stored. -/
  | stored (req : ReqMsg) (bufs : List Bytes) (hin : input = .request req)
      (hbody : req.body = .clientRequest bufs) (hr : s.role = .leader)
      (h : t.confView = { s.confView with log := s.log.appendLoop (s.clientEntries bufs) })
  /-- A configuration operation of a server that may lead already. -/
  | operation (op : ConfOp) (term : Nat) (hop : IssuedBy s input op)
      (hr : t.role = .leader → s.role = .leader) (h : t.confView = op.apply term s.confView)
  | elected (term : Nat) (hop : IssuedBy s input .becomeLeader) (h : t.confView = ConfOp.becomeLeader.apply term s.confView)
  /-- The commit thread applied an entry of application data. -/
  | applied (e : LogEntry) (hin : input = .commitNext) (hr : t.role = s.role)
      (he : s.log.entryAt (s.smCommitIndex + 1) = some e) (hconf : e.conf? = none)
      (h : t.confView = { s.confView with applied := s.smCommitIndex + 1 })
  /-- The commit thread applied a configuration. -/
  | appliedConf (e : LogEntry) (c : ClusterConfig) (hin : input = .commitNext) (hr : t.role = s.role)
      (he : s.log.entryAt (s.smCommitIndex + 1) = some e) (hconf : e.conf? = some c)
      (h : t.confView = { s.confView with
        applied := s.smCommitIndex + 1
        config := if s.config.logIdx < c.logIdx then c else s.config
        uncommitted := if s.config.logIdx < c.logIdx then
            s.uncommittedConfig.filter (fun u => u.logIdx != c.logIdx)
          else s.uncommittedConfig
        changing := false })
  | skipped (hin : input = .adjustCommit) (hr : t.role = s.role)
      (h : t.confView = { s.confView with
        applied := max s.smCommitIndex (s.log.startIndex - 1) })
  | compacted (ok : Bool) (k : Nat) (hin : input = .snapshotCompleted ok) (hr : t.role = s.role)
      (h : t.confView = { s.confView with log := s.log.compact k })
  /-- A priority was written into the committed configuration, without a log entry. -/
  | editedInPlace (id priority : Int) (hin : EditsInPlace s input) (hr : t.role = s.role)
      (h : t.confView = { s.confView with
        config := s.config.mapServer id (fun sc => { sc with priority := priority }) })
  /-- The joining server did not answer. -/
  | joinFailed (dst : Int) (hin : input = .extError dst false) (hr : t.role = s.role)
      (h : t.confView = { s.confView with changing := false })
  /-- A leader that is still catching up received log data. -/
  | synced (req : ReqMsg) (pack : List LogEntry) (hin : input = .request req)
      (hbody : req.body = .syncLog (some pack)) (hr : t.role = s.role)
      (hc : s.state.catchingUp = true)

/-! ## The moves of a leader -/

theorem core_confView (h : t.core = s.core) :
    { t.confView with uncommitted := none } = { s.confView with uncommitted := none } :=
  core_read (f := fun v => { v.confView with uncommitted := none }) (fun _ => rfl) h

theorem Steady.kept (h : Steady s t) : Kept s t := by
  intro hl
  refine ⟨(h.role hl).1, ?_⟩
  exact congrArg₂ (fun v c => { v with uncommitted := c }) (core_confView h.core) (h.conf hl)

theorem Readied.issuedBy {op : ConfOp} (h : Readied env s input op u) : IssuedBy s input op := by
  cases h with
  | userCtx => rfl
  | srvConfig _ => rfl
  | learner _ => rfl
  | priority _ _ => rfl
  | @promoted resp p htype _ _ hready =>
    have hsame : ((s.checkSrvToLeaveTimeout env).recordAppendResp env resp).configChanging =
        s.configChanging := sansPeers_read (fun _ => rfl) (recordAppendResp_sansPeers s env resp)
    simp only [readyForPromotion, Bool.and_eq_true, Bool.not_eq_true'] at hready
    exact .inl ⟨rfl, hsame.symm.trans hready.1.1, htype⟩
  | @joined _ sc _ _ h hsc =>
    cases h with
    | retried => exact ⟨sc, hsc, rfl⟩
    | _ => exact .inl ⟨sc, hsc, rfl⟩
  | left _ _ _ => exact .inr rfl
  | unheard h _ => cases h <;> rfl

theorem Readied.confView {op : ConfOp} (h : Readied env s input op u) :
    (u.operate env op).confView = op.apply s.state.term s.confView := by
  have hview : u.confView = s.confView := sansPeers_read (fun _ => rfl) h.sansPeers
  have hterm : u.state = s.state := sansPeers_read (fun _ => rfl) h.sansPeers
  have hop : op ≠ .becomeLeader := by cases h <;> simp
  rw [← hview, ← hterm]
  unfold operate
  split
  · next hrec => simp [RaftServer.confView, ConfOp.apply, hrec]
  · next hrec => simp [RaftServer.confView, ConfOp.apply, hrec, hop]

theorem commitConf_view (s : RaftServer) (c : ClusterConfig) :
    (s.commitConf c).confView = { s.confView with
      config := if s.config.logIdx < c.logIdx then c else s.config
      uncommitted := if s.config.logIdx < c.logIdx then
          s.uncommittedConfig.filter (fun u => u.logIdx != c.logIdx)
        else s.uncommittedConfig
      changing := false } := by
  unfold commitConf
  split
  · rename_i h
    simp [confView, reconfigure_uncommittedConfig]
  · rename_i h
    simp [confView]

theorem executeEntry_confStep {e : LogEntry} (he : s.log.entryAt (s.smCommitIndex + 1) = some e) :
    ConfStep s ((s.executeEntry e).applied (s.smCommitIndex + 1)) .commitNext := by
  have hrole : (s.executeEntry e).role = s.role := by simp
  cases hval : e.val with
  | appLog b =>
    have hself : s.executeEntry e = s := by simp [executeEntry, hval]
    rw [hself]
    exact .applied e rfl rfl he (by simp [LogEntry.conf?, hval]) rfl
  | conf c =>
    have hconf : s.executeEntry e = s.commitConf c := by simp [executeEntry, hval]
    rw [hconf] at hrole ⊢
    refine .appliedConf e c rfl hrole he (by simp [LogEntry.conf?, hval]) ?_
    have hview := commitConf_view s c
    simp only [confView, ConfView.mk.injEq, applied_log, applied_config,
      applied_uncommittedConfig, applied_configChanging, applied_smCommitIndex] at hview ⊢
    exact ⟨hview.1, trivial, hview.2.2⟩

/-- Whoever takes entries or a snapshot of another server does not lead. -/
theorem step_confStep {o : Output} (hstep : s.step env input = some (t, o)) :
    ConfStep s t input := by
  have hview {v : RaftServer} (hr : v.role = s.role) (hv : v.confView = s.confView) :
      ConfStep s v input := .kept (.of_view hr hv)
  cases step_moves hstep with
  | steady h _ => exact .kept h.kept
  | elected u hu hconf ht hrole hin _ =>
    refine .elected u.state.term hin ?_
    have hus : u.confView = s.confView :=
      congrArg₂ (fun v c => { v with uncommitted := c }) (core_confView hu.core) hconf
    have htu : t.confView = (u.takeLeadership.requestAppendEntries env).confView :=
      congrArg₂ (fun v c => { v with uncommitted := c }) (core_confView ht.core) (ht.conf hrole)
    rw [htu, ← hus]
    simp [confView, ConfOp.apply, ConfOp.records, leaderConfEntry, ConfOp.newConf, ConfOp.edit, ConfOp.base,
      ConfView.lastConfigInLog, lastConfigInLog]
  | outOfRange u hu ht _ => exact .kept ((hu.kept.trans (.of_view rfl rfl)).trans ht.kept)
  | @stored req bufs _ k hbody hrole _ =>
    exact .stored req bufs rfl hbody hrole (by simp [confView])
  | @accepted req es u _ hu _ hrole _ =>
    have hlast : (u.acceptEntries req es).role ≠ .leader := fun hl =>
      hrole ((acceptEntries_quiet u req es).role hl)
    exact .kept (.of_not_leader hlast)
  | parked u _ hu _ _ => exact .kept (hu.kept.trans (.of_view rfl rfl))
  | packed l hbody hcatch _ => exact .synced _ _ rfl hbody rfl hcatch
  | joins _ _ _ => exact .kept (.of_not_leader (by simp [joinCluster]))
  | edited id priority mine c hin hc =>
    rcases hc with rfl | rfl
    · exact hview rfl rfl
    · exact .editedInPlace id priority hin rfl rfl
  | timed _ ht _ => exact .kept ((Kept.of_view rfl rfl).trans ht.kept)
  | invited _ _ _ => exact hview rfl rfl
  | asked _ _ _ => exact hview rfl rfl
  | @recorded resp _ _ _ _ ht _ =>
    have hsame := recordAppendResp_sansPeers s env resp
    exact .kept ((Kept.of_view (sansPeers_read (fun _ => rfl) hsame)
      (sansPeers_read (fun _ => rfl) hsame)).trans ht.kept)
  | leaverGone _ _ => exact hview rfl rfl
  | told _ => exact hview rfl rfl
  | sent h =>
    obtain ⟨p, -, hp⟩ := requestAppendEntriesTo_eq h
    rw [hp]
    exact hview rfl rfl
  | joiner _ => exact hview rfl rfl
  | joinFailed => exact .joinFailed _ rfl rfl rfl
  | gaveUp hfail _ =>
    exact hview (sansPeers_read (fun _ => rfl) hfail.sansPeers)
      (sansPeers_read (fun _ => rfl) hfail.sansPeers)
  | operated hop =>
    have hrole := sansPeers_read (f := role) (fun _ => rfl) hop.sansPeers
    exact .operation _ _ hop.issuedBy (by simp [hrole]) hop.confView
  | applied he _ => exact executeEntry_confStep he
  | adjusted => exact .skipped rfl rfl rfl
  | creating => exact hview rfl rfl
  | @created snp hsnp =>
    by_cases hlt : s.params.reservedLogItems < (s.latestSnapshot snp).lastLogIdx
    · refine .compacted true ((s.latestSnapshot snp).lastLogIdx - s.params.reservedLogItems) rfl rfl ?_
      simp [confView, compactedLog, hlt]
    · exact hview rfl (by simp [confView, compactedLog, hlt])
  | dropped _ => exact hview rfl rfl
  | installed _ h =>
    -- only a follower gets this far, and it stays one
    refine .kept (.of_not_leader ?_)
    intro hl
    have hs := (finishSnapshot_quiet h).role hl
    unfold finishSnapshot at h
    rw [if_pos (by rw [hs]; decide)] at h
    cases h
  | urged => exact hview (by simp) (by simp [confView])
  | durable _ => exact hview rfl rfl
  | restarted _ => exact .kept (.of_not_leader (by simp [restart]))

end RaftServer
end Raft
end Xio
