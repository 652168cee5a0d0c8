import Xio.Raft.Cluster
import Xio.Raft.Move

/-!
# Raft.CommitIndex — when the commit indices only grow

Three writers move `quick_commit_index_` and `sm_commit_index_`: the append handler, the commit
thread and the installation of a snapshot. The append handler lowers both below the first entry
that it finds in conflict with the request, and the installation assigns them after the server
lock was released and taken again.

A conflict with a committed entry cannot come from a leader that has it. It is found all the same
when the request starts below the log's first index, since a compacted entry reads as term `0`.
-/

namespace Xio
namespace Raft

open RaftServer LogStore

namespace RaftServer

variable {s t u : RaftServer} {entries : List LogEntry}

def Grows (s t : RaftServer) : Prop :=
  s.quickCommitIndex ≤ t.quickCommitIndex ∧ s.smCommitIndex ≤ t.smCommitIndex

theorem Grows.refl (s : RaftServer) : Grows s s := ⟨le_rfl, le_rfl⟩

theorem Grows.trans (h₁ : Grows s t) (h₂ : Grows t u) : Grows s u :=
  ⟨h₁.1.trans h₂.1, h₁.2.trans h₂.2⟩

/-- What the commit indices bound: the applied entries, the dropped ones and the snapshots. -/
structure IndexInv (s : RaftServer) : Prop where
  applied : s.smCommitIndex ≤ s.quickCommitIndex
  start : s.log.startIndex ≤ s.quickCommitIndex + 1
  last : ∀ snp ∈ s.lastSnapshot, snp.lastLogIdx ≤ s.quickCommitIndex
  creating : ∀ snp ∈ s.snpInProgress, snp.lastLogIdx ≤ s.quickCommitIndex

/-- Only the quick commit index may move, and upwards. -/
structure OnlyCommits (s t : RaftServer) : Prop where
  quick : s.quickCommitIndex ≤ t.quickCommitIndex
  sm : t.smCommitIndex = s.smCommitIndex
  start : t.log.startIndex = s.log.startIndex
  last : t.lastSnapshot = s.lastSnapshot
  creating : t.snpInProgress = s.snpInProgress

theorem OnlyCommits.refl (s : RaftServer) : OnlyCommits s s := ⟨le_rfl, rfl, rfl, rfl, rfl⟩

theorem OnlyCommits.trans (h₁ : OnlyCommits s t) (h₂ : OnlyCommits t u) : OnlyCommits s u where
  quick := h₁.quick.trans h₂.quick
  sm := h₂.sm.trans h₁.sm
  start := h₂.start.trans h₁.start
  last := h₂.last.trans h₁.last
  creating := h₂.creating.trans h₁.creating

theorem OnlyCommits.grows (h : OnlyCommits s t) : Grows s t := ⟨h.quick, h.sm.symm.le⟩

theorem IndexInv.onlyCommits (hs : IndexInv s) (h : OnlyCommits s t) : IndexInv t where
  applied := by
    rw [h.sm]
    exact hs.applied.trans h.quick
  start := by
    rw [h.start]
    exact hs.start.trans (Nat.succ_le_succ h.quick)
  last := by
    rw [h.last]
    exact fun snp hsnp => (hs.last snp hsnp).trans h.quick
  creating := by
    rw [h.creating]
    exact fun snp hsnp => (hs.creating snp hsnp).trans h.quick

/-! ## Role changes and elections -/

theorem OnlyCommits.of_core (h : t.core = s.core) : OnlyCommits s t where
  quick := Nat.le_of_eq (core_quick h).symm
  sm := show t.core.smCommitIndex = s.core.smCommitIndex from congrArg smCommitIndex h
  start := congrArg startIndex (core_log h)
  last := core_lastSnapshot h
  creating := show t.core.snpInProgress = s.core.snpInProgress from congrArg snpInProgress h

theorem commit_onlyCommits (s : RaftServer) (i : Nat) : OnlyCommits s (s.commit i) := by
  refine ⟨?_, rfl, rfl, rfl, rfl⟩
  simp only [commit_quickCommitIndex]
  split
  · rename_i h
    exact h.le
  · exact le_rfl

/-! ## Append requests -/

/-- The entries are a slice of a leader's log, and that log has what the member committed. -/
def FromLegitLeader (s : RaftServer) (req : ReqMsg) (entries : List LogEntry) : Prop :=
  ∃ l : LogStore, l.startIndex ≤ req.lastLogIdx + 1 ∧
    (∀ k, k < entries.length → entries[k]? = l.entryAt (req.lastLogIdx + 1 + k)) ∧
    ∀ j e, j ≤ s.quickCommitIndex → s.log.entryAt j = some e → l.startIndex ≤ j →
      l.entryAt j = some e

/-- The conflict that the skip loop stops at is above the commit index, provided that the request
starts inside the log. -/
theorem lt_of_conflict {req : ReqMsg}
    (hlegit : FromLegitLeader s req entries) (hstart : s.log.startIndex ≤ req.lastLogIdx + 1)
    {k : Nat} {e : LogEntry} (he : entries[k]? = some e)
    (hlt : req.lastLogIdx + 1 + k < s.log.nextSlot)
    (hne : s.log.termAt (req.lastLogIdx + 1 + k) ≠ e.term) :
    s.quickCommitIndex < req.lastLogIdx + 1 + k := by
  obtain ⟨l, hl, hslice, hagree⟩ := hlegit
  by_contra hle
  have hheld : (s.log.entryAt (req.lastLogIdx + 1 + k)).isSome :=
    entryAt_isSome_iff.mpr ⟨by omega, hlt⟩
  obtain ⟨own, hown⟩ := Option.isSome_iff_exists.mp hheld
  have hleader := hagree _ own (Nat.le_of_not_lt hle) hown (by omega)
  have hk : k < entries.length := (List.getElem?_eq_some_iff.mp he).1
  rw [hslice k hk, hleader] at he
  cases he
  exact hne (termAt_of_entryAt hown)

theorem writeEntries_onlyCommits {req : ReqMsg} (hs : IndexInv s)
    (hlegit : FromLegitLeader s req entries) (hstart : s.log.startIndex ≤ req.lastLogIdx + 1) :
    OnlyCommits s (s.writeEntries (req.lastLogIdx + 1) entries) := by
  rcases skipLoop_spec s.log (req.lastLogIdx + 1) entries with
    ⟨k, hk, heq, _, hstop⟩
  have hlog : (s.log.writeFrom (req.lastLogIdx + 1 + k) (entries.drop k)).startIndex =
      s.log.startIndex := writeFrom_startIndex (by omega) _
  rw [writeEntries, heq]
  dsimp only
  split
  · rename_i hroll
    -- the rolled back entries are all above the commit indices
    have hlen : k < entries.length := by
      have := hroll.2
      rw [Ne, List.drop_eq_nil_iff] at this
      omega
    have he := List.getElem?_eq_getElem hlen
    have hconf := lt_of_conflict hlegit hstart he hroll.1 (hstop _ he hroll.1)
    have happ := hs.applied
    refine ⟨?_, ?_, hlog, rfl, rfl⟩
    · simp only [storeReceived_quickCommitIndex, rollback_quickCommitIndex]
      rw [if_neg (by omega)]
    · simp only [storeReceived_smCommitIndex, rollback_smCommitIndex]
      rw [if_neg (by omega)]
  · exact ⟨le_rfl, rfl, hlog, rfl, rfl⟩

theorem acceptEntries_onlyCommits {req : ReqMsg} (hs : IndexInv s)
    (hlegit : FromLegitLeader s req entries)
    (hstart : entries = [] ∨ s.log.startIndex ≤ req.lastLogIdx + 1) :
    OnlyCommits s (s.acceptEntries req entries) := by
  have hwrite : OnlyCommits s
      (if entries = [] then s else s.writeEntries (req.lastLogIdx + 1) entries) := by
    split
    · exact OnlyCommits.refl s
    · rename_i hne
      exact writeEntries_onlyCommits hs hlegit (hstart.resolve_left hne)
  dsimp only [acceptEntries]
  generalize (if entries = [] then s else _) = u at hwrite ⊢
  have hnote : OnlyCommits u ((u.noteLeader req).tryUpdatePrecommitIndex
      (req.lastLogIdx + entries.length)) := ⟨le_rfl, rfl, rfl, rfl, rfl⟩
  have hwritten := hwrite.trans hnote
  split
  · exact (hwritten.trans (commit_onlyCommits _ _)).trans (.of_core rfl)
  · exact hwritten.trans (commit_onlyCommits _ _)

/-! ## Snapshots -/

theorem finishSnapshot_grows {pending : PendingInstall} {r : RaftServer × RespMsg}
    (hs : IndexInv s) (hq : s.quickCommitIndex ≤ pending.snapshot.lastLogIdx)
    (hsm : s.smCommitIndex ≤ pending.snapshot.lastLogIdx)
    (h : s.finishSnapshot pending = some r) : IndexInv r.1 ∧ Grows s r.1 := by
  have hstart := hs.start
  have hcreating := hs.creating
  unfold finishSnapshot at h
  split at h
  · cases h
  · cases h
    have hlog : ∀ c, ((s.compactTo pending).reconfigure c).log = (s.compactTo pending).log := by simp
    have hsnp : ∀ c, ((s.compactTo pending).reconfigure c).snpInProgress = s.snpInProgress := by simp
    refine ⟨⟨le_rfl, ?_, ?_, ?_⟩, hq, hsm⟩
    · have hcompact : (s.compactTo pending).log.startIndex ≤ pending.snapshot.lastLogIdx + 1 := by
        simp only [compactTo_log, compact_startIndex]
        omega
      simp only [restartElectionTimer_log, assignIndices_log, restartElectionTimer_quickCommitIndex,
        assignIndices_quickCommitIndex]
      split
      · rwa [hlog]
      · exact hcompact
    · intro snp hmem
      cases hmem
      exact le_rfl
    · intro snp hmem
      refine (hcreating snp ?_).trans hq
      simp only [restartElectionTimer_snpInProgress, assignIndices_snpInProgress] at hmem
      split at hmem
      · rwa [hsnp] at hmem
      · exact hmem

theorem latestSnapshot_committed (hs : IndexInv s) {snp : Snapshot} (hsnp : s.snpInProgress = some snp) :
    (s.latestSnapshot snp).lastLogIdx ≤ s.quickCommitIndex := by
  unfold latestSnapshot
  split
  · rename_i old hold
    split
    · exact hs.last old hold
    · exact hs.creating snp hsnp
  · exact hs.creating snp hsnp

theorem adoptSnapshot_grows (hs : IndexInv s) {snp : Snapshot} (hsnp : s.snpInProgress = some snp) :
    IndexInv (s.adoptSnapshot (s.latestSnapshot snp)) := by
  have hlatest := latestSnapshot_committed hs hsnp
  have hstart := hs.start
  refine ⟨hs.applied, ?_, ?_, (fun _ hmem => nomatch hmem)⟩
  · simp only [adoptSnapshot_log, adoptSnapshot_quickCommitIndex]
    unfold compactedLog
    split
    · rw [compact_startIndex]
      omega
    · exact hstart
  · intro snp' hmem
    cases hmem
    exact hlatest

/-! ## The commit thread -/

theorem executeEntry_onlyCommits (s : RaftServer) (e : LogEntry) :
    OnlyCommits s (s.executeEntry e) := by
  refine ⟨?_, ?_, ?_, ?_, ?_⟩ <;> unfold executeEntry <;> split
  all_goals first
    | simp
    | unfold commitConf
      split <;> simp

/-! ## Steps and runs of a member -/

/-- What a member does besides joining: requests of leaders and candidates, the commit thread, and
a snapshot handler that takes the lock again. -/
def MemberInput : Input → Bool
  | .request req =>
    match req.body with
    | .appendEntries _ | .installSnapshot _ | .requestVote _ | .preVote
    | .customNotification _ => true
    | _ => false
  | .commitNext | .adjustCommit | .finishSnapshot _ | .createSnapshot _
  | .snapshotCompleted _ => true
  | _ => false

/-- A member's step whose append requests come from a leader with its committed entries. -/
def MemberStep (s : RaftServer) (input : Input) : Prop :=
  MemberInput input = true ∧
    ∀ req entries, input = .request req → req.body = .appendEntries entries →
      FromLegitLeader s req entries

/-- Entries start inside the log, and a snapshot is not behind the indices when the lock is back. -/
def KeepsAhead (s : RaftServer) : Input → Bool
  | .request req =>
    match req.body with
    | .appendEntries entries => entries = [] || decide (s.log.startIndex ≤ req.lastLogIdx + 1)
    | _ => true
  | .finishSnapshot pending =>
    decide (s.quickCommitIndex ≤ pending.snapshot.lastLogIdx)
      && decide (s.smCommitIndex ≤ pending.snapshot.lastLogIdx)
  | _ => true

theorem step_grows {env : Env} {input : Input} {o : Output} (hs : IndexInv s)
    (hm : MemberStep s input) (hk : s.KeepsAhead input = true)
    (hstep : s.step env input = some (t, o)) : IndexInv t ∧ Grows s t := by
  have honly {t : RaftServer} (hc : OnlyCommits s t) : IndexInv t ∧ Grows s t :=
    ⟨hs.onlyCommits hc, hc.grows⟩
  obtain ⟨hin, hlegit⟩ := hm
  cases step_moves hstep with
  | steady hst _ => exact honly (.of_core hst.core)
  | elected u hu _ ht _ _ _ =>
    have htake : OnlyCommits u u.takeLeadership := ⟨le_rfl, rfl, rfl, rfl, rfl⟩
    exact honly ((OnlyCommits.of_core hu.core).trans
      ((htake.trans (commit_onlyCommits _ _)).trans (.of_core ht.core)))
  | outOfRange u hu ht _ =>
    have hlost : OnlyCommits u { u with outOfLogRange := true } :=
      ⟨le_rfl, rfl, rfl, rfl, rfl⟩
    exact honly (((OnlyCommits.of_core hu.core).trans hlost).trans (.of_core ht.core))
  | @accepted req es u hbody hu _ _ _ =>
    have hsame := OnlyCommits.of_core hu.core
    refine honly (hsame.trans (acceptEntries_onlyCommits (hs.onlyCommits hsame) ?_ ?_))
    · rw [FromLegitLeader, core_log hu.core, core_quick hu.core]
      exact hlegit req es rfl hbody
    · rw [core_log hu.core]
      simpa [KeepsAhead, hbody] using hk
  | parked u _ hu _ _ =>
    have hpark (pending : PendingInstall) :
        OnlyCommits u (u.startReceiving.parkInstall pending) := ⟨le_rfl, rfl, rfl, rfl, rfl⟩
    exact honly ((OnlyCommits.of_core hu.core).trans (hpark _))
  | edited => exact honly ⟨le_rfl, rfl, rfl, rfl, rfl⟩
  | timed _ ht _ =>
    have hcheck : OnlyCommits s (s.checkSrvToLeaveTimeout env) := ⟨le_rfl, rfl, rfl, rfl, rfl⟩
    exact honly (hcheck.trans (.of_core ht.core))
  | invited => exact honly ⟨le_rfl, rfl, rfl, rfl, rfl⟩
  | asked => exact honly ⟨le_rfl, rfl, rfl, rfl, rfl⟩
  | told => exact honly ⟨le_rfl, rfl, rfl, rfl, rfl⟩
  | joiner => exact honly ⟨le_rfl, rfl, rfl, rfl, rfl⟩
  | gaveUp hf _ => cases hf <;> cases hin
  | operated hop =>
    cases hop with
    | joined hj _ => cases hj <;> cases hin
    | unheard hf _ => cases hf <;> cases hin
    | _ => cases hin
  | @applied e _ hlt =>
    have hexec := executeEntry_onlyCommits s e
    have hinv := hs.onlyCommits hexec
    refine ⟨⟨?_, hinv.start, hinv.last, hinv.creating⟩, hexec.quick, Nat.le_succ _⟩
    exact hlt.1.trans_le hexec.quick
  | adjusted =>
    have hstart := hs.start
    have happ := hs.applied
    refine ⟨⟨?_, hstart, hs.last, hs.creating⟩, le_rfl, ?_⟩
    · simp only [adjustSmCommitIndex_smCommitIndex, adjustSmCommitIndex_quickCommitIndex]
      omega
    · simp only [adjustSmCommitIndex_smCommitIndex]
      omega
  | creating =>
    refine ⟨⟨hs.applied, hs.start, hs.last, ?_⟩, le_rfl, le_rfl⟩
    intro snp hmem
    simp only [snapshotAndCompact_snpInProgress] at hmem
    split at hmem
    · cases hmem
      exact hs.applied
    · exact hs.creating snp hmem
  | created hsnp => exact ⟨adoptSnapshot_grows hs hsnp, le_rfl, le_rfl⟩
  | dropped _ =>
    exact ⟨⟨hs.applied, hs.start, hs.last, fun _ hmem => nomatch hmem⟩, le_rfl, le_rfl⟩
  | installed _ hr =>
    simp only [KeepsAhead, Bool.and_eq_true, decide_eq_true_eq] at hk
    exact finishSnapshot_grows hs hk.1 hk.2 hr
  -- clients, joining servers and the leader's side are no inputs of a member
  | stored _ hbody _ _ => simp [MemberInput, hbody] at hin
  | packed _ hbody _ _ => simp [MemberInput, hbody] at hin
  | joins hbody _ _ => simp [MemberInput, hbody] at hin
  | _ => cases hin

/-- In every run of a member whose steps all keep ahead, neither commit index falls between any two
states. -/
theorem commitIndices_monotone {as bs : List (Env × Input)} (hs : IndexInv s)
    (hm : Runs.AllSteps next (fun v a => MemberStep v a.2) s (as ++ bs))
    (hk : Runs.AllSteps next (fun v a => v.KeepsAhead a.2 = true) s (as ++ bs))
    (hu : Runs.run next s as = some u) (ht : Runs.run next u bs = some t) : Grows u t := by
  have hstep : ∀ v a w, IndexInv v → MemberStep v a.2 ∧ v.KeepsAhead a.2 = true →
      next v a = some w → IndexInv w ∧ Grows v w := by
    intro v a w hv hcond hw
    obtain ⟨o, ho⟩ := next_eq_some.mp hw
    exact step_grows hv hcond.1 hcond.2 ho
  have hcond := hm.and hk
  have hinv : IndexInv u := by
    refine Runs.invariant_of_allSteps (I := IndexInv) ?_ hs hcond.left hu
    intro v a w hv hc hw
    exact (hstep v a w hv hc hw).1
  exact Runs.related_of_allSteps (I := IndexInv) Grows.refl Grows.trans hstep hinv
    (hcond.suffix hu) ht

end RaftServer

/-! ## Two runs in which the indices fall -/

/-- Three members that keep no log entries behind their snapshots. -/
def compactingCluster : Cluster :=
  { members := [1, 2, 3]
    srv := fun i => RaftServer.fresh i { reservedLogItems := 0 }
      { servers := [{ id := 1 }, { id := 2 }, { id := 3 }] }
    reqs := []
    resps := [] }

/-- Member `1` becomes leader of term `1` with the vote of member `3`. -/
def electWithThree : List Cluster.Action :=
  [.act 1 {} .electionTimeout, .recvReq 1 {}, .recvResp 0 {}, .recvReq 1 {}, .recvResp 0 {}]

/-- One more request to member `3` and its answer. -/
def replicateToThree : List Cluster.Action :=
  [.act 1 {} (.sendAppend 3 false 0), .recvReq 0 {}, .recvResp 0 {}]

def applyAndSnapshot (i : Int) : List Cluster.Action :=
  [.act i {} .commitNext, .act i {} (.createSnapshot true), .act i {} (.snapshotCompleted true)]

/-- The leader sends its first entry to member `3` twice. Member `3` answers the second request,
hears that the entry is committed, applies it and compacts its log. -/
def compactBeforeLateRequest : List Cluster.Action :=
  electWithThree ++ [.act 1 {} (.sendAppend 3 false 0)] ++ replicateToThree
    ++ [.act 1 {} (.sendAppend 3 false 0), .recvReq 0 {}] ++ applyAndSnapshot 3

/-- The leader sends its snapshot of index `1` and then the one of index `2` to member `2`, which
receives both before it applies one. -/
def twoInstalls : List Cluster.Action :=
  electWithThree ++ replicateToThree ++ applyAndSnapshot 1 ++ [.act 1 {} (.sendAppend 2 false 0)]
    ++ [.client 1 {} [[7]]] ++ replicateToThree ++ applyAndSnapshot 1
    ++ [.act 1 {} (.sendAppend 2 false 0), .recvReq 1 {}, .recvReq 0 {}]

def snapshotAt (i : Nat) : PendingInstall :=
  { snapshot := ⟨i, 1, { logIdx := 1, servers := [{ id := 1 }, { id := 2 }, { id := 3 }] }⟩
    term := 1
    sender := 1
    nextObject := 0 }

/-- The late request makes member `3` forget its commits, and the snapshot of index `1`, which
finishes last, takes member `2` back from index `2`. -/
theorem commitIndices_fall : (compactingCluster.run compactBeforeLateRequest).map
        (fun c => ((c.srv 3).quickCommitIndex, (c.srv 3).smCommitIndex)) = some (1, 1) ∧
    (compactingCluster.run (compactBeforeLateRequest ++ [.recvReq 0 {}])).map
        (fun c => ((c.srv 3).quickCommitIndex, (c.srv 3).smCommitIndex)) = some (0, 0) ∧
    (compactingCluster.run (twoInstalls ++ [.act 2 {} (.finishSnapshot (snapshotAt 2))])).map
        (fun c => ((c.srv 2).quickCommitIndex, (c.srv 2).smCommitIndex)) = some (2, 2) ∧
    (compactingCluster.run (twoInstalls ++ [.act 2 {} (.finishSnapshot (snapshotAt 2)),
        .act 2 {} (.finishSnapshot (snapshotAt 1))])).map
        (fun c => ((c.srv 2).quickCommitIndex, (c.srv 2).smCommitIndex)) = some (1, 1) := by
  decide +kernel

/-- A follower that has applied nothing, and a request that commits its first entry. -/
def newFollower : RaftServer :=
  RaftServer.fresh 2 {} { servers := [{ id := 1 }, { id := 2 }, { id := 3 }] }

def firstAppend : ReqMsg :=
  { term := 1
    src := 1
    dst := 2
    lastLogTerm := 0
    lastLogIdx := 0
    commitIdx := 1
    body := .appendEntries [⟨1, .appLog []⟩] }

def firstAppendRun : List (Env × RaftServer.Input) := [({}, .request firstAppend)]

theorem newFollower_indexInv : newFollower.IndexInv where
  applied := by decide
  start := by decide
  last := by intro snp h; cases h
  creating := by intro snp h; cases h

theorem newFollower_memberStep : newFollower.MemberStep (.request firstAppend) := by
  refine ⟨by decide, ?_⟩
  intro req entries hin hbody
  cases hin
  cases hbody
  refine ⟨⟨1, [⟨1, .appLog []⟩], by decide⟩, by decide, ?_, ?_⟩
  · intro k hk
    have hzero : k = 0 := by
      simp only [List.length_singleton] at hk
      omega
    subst hzero
    rfl
  · intro j e hj he
    -- nothing is committed yet
    have hnone : newFollower.log.entryAt j = none := by
      have hj' : j = 0 := Nat.le_zero.mp hj
      subst hj'
      rfl
    cases hnone ▸ he

theorem newFollower_grows :
    ∃ t, Runs.run RaftServer.next newFollower firstAppendRun = some t ∧ t.quickCommitIndex = 1 ∧
      newFollower.Grows t := by
  have hquick : (Runs.run next newFollower firstAppendRun).map
      quickCommitIndex = some 1 := by decide +kernel
  obtain ⟨t, ht, hq⟩ := Option.map_eq_some_iff.mp hquick
  have hmember : Runs.AllSteps next (fun v a => v.MemberStep a.2) newFollower
      ([] ++ firstAppendRun) := ⟨newFollower_memberStep, fun _ _ => trivial⟩
  have hahead : Runs.AllSteps next (fun v a => v.KeepsAhead a.2 = true) newFollower
      ([] ++ firstAppendRun) := by decide +kernel
  exact ⟨t, ht, hq, commitIndices_monotone newFollower_indexInv hmember hahead rfl ht⟩

end Raft
end Xio
