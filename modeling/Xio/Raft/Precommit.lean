import Xio.Lib.Runs
import Xio.Raft.AppendEntries

/-!
# Raft.Precommit — pre-commit comes before commit on a leader

Three kinds of threads work on a leader's log. A client thread holds `cli_lock_` for a whole batch:
it stores an entry, calls `pre_commit` for it, goes on with the next one, and raises
`precommit_index_` at the end. A thread that appends a configuration entry stores it under the
server lock and then takes `cli_lock_` to raise the index. The commit thread takes no lock at all
and compares with `precommit_index_`.

The invariant: of the application entries of this leader at most the last one is not pre-committed
yet, that one is in the hands of the thread that holds `cli_lock_`, and the index is below it.
-/

namespace Xio
namespace Raft

open List RaftServer LogStore

/-- The state of a client thread inside `handle_cli_req`. -/
structure CliBatch where
  /-- Entries that are not stored yet. -/
  rest : List Bytes
  /-- An entry that is stored and not pre-committed yet. -/
  stored : Option Nat := none
  /-- `last_idx`. -/
  last : Nat := 0

/-- A leader and its threads, with the calls that its state machine has received. -/
structure LeaderThreads where
  srv : RaftServer
  /-- The client thread that holds `cli_lock_`. -/
  batch : Option CliBatch := none
  /-- Configuration entries whose thread still waits for `cli_lock_`. -/
  pendingConf : List Nat := []
  /-- Calls of `pre_commit` and of `commit`, the first one first. -/
  preCommits : List Nat := []
  commits : List Nat := []

namespace LeaderThreads

variable (v : LeaderThreads)

inductive Action
  | enter (expectedTerm : Nat) (bufs : List Bytes)
  | storeEntry
  | preCommit
  | leave
  | storeConf (c : ClusterConfig)
  | updateConf (idx : Nat)
  | appendResp (env : Env) (resp : RespMsg)
  | requestAppendEntries (env : Env)
  | nominateSuccessor (env : Env) (successor : Int)
  | commitNext

/-- `store_log_entry` of an application entry. -/
def storeEntry (b : CliBatch) (buf : Bytes) (rest : List Bytes) : LeaderThreads :=
  { v with
    srv := { v.srv with log := v.srv.log.append ⟨v.srv.state.term, .appLog buf⟩ }
    batch := some { b with rest := rest, stored := some v.srv.log.nextSlot } }

/-- `store_log_entry` of a configuration entry, up to the place where it takes `cli_lock_`. -/
def storeConf (c : ClusterConfig) : LeaderThreads :=
  { v with
    srv := { v.srv with log := v.srv.log.append ⟨v.srv.state.term, .conf c⟩ }
    pendingConf := v.srv.log.nextSlot :: v.pendingConf }

/-- `handle_cli_req` answers `NOT_LEADER` or `TERM_MISMATCH`. -/
def refusesClient (expectedTerm : Nat) : Bool :=
  v.srv.role != .leader || v.srv.writePaused
    || (expectedTerm != 0 && expectedTerm != v.srv.state.term)

/-- `handle_append_entries_resp`. The promotion of a new joiner appends a configuration entry; a
leader that resigns is not followed any further. -/
def handleAppendEntriesResp (env : Env) (resp : RespMsg) : Option LeaderThreads :=
  if (v.srv.findPeer resp.src).isNone then some v
  else
    let s₁ := v.srv.checkSrvToLeaveTimeout env
    if s₁.leaverCaughtUp resp then
      some { v with srv := (s₁.removePeerFromPeers resp.src).resetSrvToLeave }
    else
      let s₂ := s₁.recordAppendResp env resp
      match s₂.findPeer resp.src with
      | none => some { v with srv := s₂ }
      | some p =>
        if s₂.readyForPromotion p then
          let c := (s₂.config.setLogIdx s₂.log.nextSlot).mapServer p.id
            (fun sc => { sc with newJoiner := false })
          some ({ v with srv := s₂.markChanging c }.storeConf c)
        else if s₂.readyToResign p then none
        else some { v with srv := s₂ }

/-- The next entry is one that the state machine gets to see. -/
def commitsApp : Bool :=
  (v.srv.log.entryAt (v.srv.smCommitIndex + 1)).any (fun e => !e.isConf)

def step : Action → Option LeaderThreads
  | .enter expectedTerm bufs =>
    if v.batch.isSome then none
    else if v.refusesClient expectedTerm then some v
    else some { v with batch := some { rest := bufs } }
  | .storeEntry =>
    match v.batch with
    | some ⟨buf :: rest, none, last⟩ => some (v.storeEntry ⟨buf :: rest, none, last⟩ buf rest)
    | _ => none
  | .preCommit =>
    match v.batch with
    | some ⟨rest, some i, _⟩ =>
      some { v with batch := some ⟨rest, none, i⟩, preCommits := v.preCommits ++ [i] }
    | _ => none
  | .leave =>
    match v.batch with
    | some ⟨[], none, last⟩ =>
      some { v with srv := v.srv.tryUpdatePrecommitIndex last, batch := none }
    | _ => none
  | .storeConf c => some (v.storeConf c)
  | .updateConf idx =>
    if v.batch.isNone ∧ idx ∈ v.pendingConf then
      some { v with
        srv := v.srv.tryUpdatePrecommitIndex idx
        pendingConf := v.pendingConf.erase idx }
    else none
  | .appendResp env resp => v.handleAppendEntriesResp env resp
  | .requestAppendEntries env => some { v with srv := v.srv.requestAppendEntries env }
  | .nominateSuccessor env successor =>
    some { v with srv := v.srv.nominateSuccessor env successor }
  | .commitNext =>
    v.srv.commitNext.map (fun t =>
      { v with
        srv := t
        commits := if v.commitsApp then v.commits ++ [v.srv.smCommitIndex + 1] else v.commits })

/-- A server that has just become leader. It did all of it under `cli_lock_`. -/
def start (s : RaftServer) : LeaderThreads := { srv := s.takeLeadership }

/-- An application entry of the log from index `first` on. -/
def IsApp (first i : Nat) : Prop :=
  first ≤ i ∧ ∃ e, v.srv.log.entryAt i = some e ∧ e.isConf = false

/-- What holds at every point between two steps; `first` is the first index of this leader. -/
structure Inv (first : Nat) : Prop where
  /-- Only the entry in the hands of the client thread is not pre-committed. -/
  preCommitted : ∀ i, v.IsApp first i → i ∈ v.preCommits ∨ ∃ b, v.batch = some b ∧ b.stored = some i
  index : v.srv.precommitIndex < v.srv.log.nextSlot
  /-- The index stays below an entry that is not pre-committed. -/
  stored : ∀ b i, v.batch = some b → b.stored = some i →
    v.srv.precommitIndex < i ∧ i < v.srv.log.nextSlot ∧ ∀ j ∈ v.preCommits, j < i
  last : ∀ b, v.batch = some b → b.last < v.srv.log.nextSlot
  pending : ∀ i ∈ v.pendingConf, i < v.srv.log.nextSlot
  calls : ∀ i ∈ v.preCommits, i < v.srv.log.nextSlot
  ordered : v.preCommits.Pairwise (· < ·)
  committed : ∀ i ∈ v.commits, first ≤ i → i ∈ v.preCommits

variable {v} {w : LeaderThreads} {first : Nat}

section

variable (hv : v.Inv first)
include hv

theorem Inv.mem_preCommits {i : Nat} (happ : v.IsApp first i) (hi : i ≤ v.srv.precommitIndex) :
    i ∈ v.preCommits := by
  rcases hv.preCommitted i happ with h | ⟨b, hb, hstored⟩
  · exact h
  · have hlt := (hv.stored b i hb hstored).1
    omega

theorem Inv.withServer {t : RaftServer} (hlog : t.log = v.srv.log)
    (hindex : t.precommitIndex = v.srv.precommitIndex) : Inv { v with srv := t } first where
  preCommitted i happ := by
    obtain ⟨hi, e, he, happ⟩ := happ
    exact hv.preCommitted i ⟨hi, e, hlog ▸ he, happ⟩
  index := by
    rw [hlog, hindex]
    exact hv.index
  stored b i hb hi := by
    rw [hlog, hindex]
    exact hv.stored b i hb hi
  last b hb := hlog ▸ hv.last b hb
  pending i hi := hlog ▸ hv.pending i hi
  calls i hi := hlog ▸ hv.calls i hi
  ordered := hv.ordered
  committed := hv.committed

theorem Inv.storeEntry {b : CliBatch} (hb : v.batch = some b) (hfree : b.stored = none)
    (buf : Bytes) (rest : List Bytes) : (v.storeEntry b buf rest).Inv first where
  preCommitted i happ := by
    obtain ⟨hi, e, he, happ⟩ := happ
    rcases append_entryAt_cases he with hold | ⟨hnew, -⟩
    · rcases hv.preCommitted i ⟨hi, e, hold, happ⟩ with hcall | ⟨b', hb', hstored⟩
      · exact .inl hcall
      · -- no entry is in the hands of the thread before it stores this one
        cases hb.symm.trans hb'
        cases hfree.symm.trans hstored
    · exact .inr ⟨_, rfl, congrArg some hnew.symm⟩
  index := by
    have h := hv.index
    simp only [LeaderThreads.storeEntry, append_nextSlot]
    omega
  stored b' i hb' hi := by
    cases hb'
    cases hi
    refine ⟨hv.index, ?_, fun j hj => hv.calls j hj⟩
    simp [LeaderThreads.storeEntry]
  last b' hb' := by
    cases hb'
    have h := hv.last b hb
    simp only [LeaderThreads.storeEntry, append_nextSlot]
    omega
  pending i hi := by
    have h := hv.pending i hi
    simp only [LeaderThreads.storeEntry, append_nextSlot]
    omega
  calls i hi := by
    have h := hv.calls i hi
    simp only [LeaderThreads.storeEntry, append_nextSlot]
    omega
  ordered := hv.ordered
  committed := hv.committed

theorem Inv.storeConf (c : ClusterConfig) : (v.storeConf c).Inv first where
  preCommitted i happ := by
    obtain ⟨hi, e, he, happ⟩ := happ
    rcases append_entryAt_cases he with hold | ⟨-, rfl⟩
    · exact hv.preCommitted i ⟨hi, e, hold, happ⟩
    · cases happ
  index := by
    have h := hv.index
    simp only [LeaderThreads.storeConf, append_nextSlot]
    omega
  stored b i hb hi := by
    obtain ⟨hindex, hlt, hcalls⟩ := hv.stored b i hb hi
    refine ⟨hindex, ?_, hcalls⟩
    simp only [LeaderThreads.storeConf, append_nextSlot]
    omega
  last b hb := by
    have h := hv.last b hb
    simp only [LeaderThreads.storeConf, append_nextSlot]
    omega
  pending i hi := by
    simp only [LeaderThreads.storeConf, append_nextSlot]
    rcases mem_cons.mp hi with rfl | hold
    · omega
    · have h := hv.pending i hold
      omega
  calls i hi := by
    have h := hv.calls i hi
    simp only [LeaderThreads.storeConf, append_nextSlot]
    omega
  ordered := hv.ordered
  committed := hv.committed

theorem Inv.preCommit {rest : List Bytes} {i last : Nat}
    (hb : v.batch = some ⟨rest, some i, last⟩) :
    Inv { v with batch := some ⟨rest, none, i⟩, preCommits := v.preCommits ++ [i] } first := by
  obtain ⟨-, hlt, hcalls⟩ := hv.stored _ i hb rfl
  exact
    { hv with
      preCommitted := by
        intro j happ
        refine .inl (mem_append.mpr ?_)
        rcases hv.preCommitted j happ with hcall | ⟨b, hb', hstored⟩
        · exact .inl hcall
        · cases hb.symm.trans hb'
          cases hstored
          exact .inr (mem_singleton_self i)
      stored := by
        intro b j hb' hj
        cases hb'
        cases hj
      last := by
        intro b hb'
        cases hb'
        exact hlt
      calls := by
        intro j hj
        rcases mem_append.mp hj with hold | hnew
        · exact hv.calls j hold
        · rwa [mem_singleton.mp hnew]
      ordered := by
        rw [pairwise_append]
        refine ⟨hv.ordered, pairwise_singleton _ _, ?_⟩
        intro j hj k hk
        rw [mem_singleton.mp hk]
        exact hcalls j hj
      committed := fun j hj hfirst => mem_append_left _ (hv.committed j hj hfirst) }

theorem Inv.updateIndex (hlock : v.batch = none) {idx : Nat} (hidx : idx < v.srv.log.nextSlot) :
    Inv { v with srv := v.srv.tryUpdatePrecommitIndex idx } first :=
  { hv with
    index := max_lt hv.index hidx
    stored _ _ hb _ := nomatch hlock.symm.trans hb
    last _ hb := nomatch hlock.symm.trans hb }

theorem Inv.release {rest : List Bytes} {last : Nat} (hb : v.batch = some ⟨rest, none, last⟩) :
    Inv { v with batch := none } first :=
  { hv with
    preCommitted i happ := by
      rcases hv.preCommitted i happ with hcall | ⟨b, hb', hstored⟩
      · exact .inl hcall
      · cases hb.symm.trans hb'
        cases hstored
    stored _ _ hb' _ := nomatch hb'
    last _ hb' := nomatch hb' }

theorem Inv.enter (hlock : v.batch = none) (bufs : List Bytes) :
    Inv { v with batch := some { rest := bufs } } first :=
  { hv with
    preCommitted i happ := by
      rcases hv.preCommitted i happ with hcall | ⟨b, hb, -⟩
      · exact .inl hcall
      · cases hlock.symm.trans hb
    stored b i hb hi := by
      cases hb
      cases hi
    last b hb := by
      cases hb
      exact nextSlot_pos _ }

end

/-- A turn of the commit thread: an application entry is applied only up to `precommit_index_`. -/
theorem commitNext_cases {s t : RaftServer} (h : s.commitNext = some t) :
    t.log = s.log ∧ t.precommitIndex = s.precommitIndex ∧
    ∃ e, s.log.entryAt (s.smCommitIndex + 1) = some e ∧
      (e.isConf = false → s.smCommitIndex + 1 ≤ s.precommitIndex) := by
  unfold commitNext at h
  split at h
  · cases he : s.log.entryAt (s.smCommitIndex + 1) with
    | none => simp [he] at h
    | some e =>
      rw [he] at h
      dsimp only at h
      split at h
      · next hval =>
        split at h
        · cases h
        · next hle =>
          cases h
          exact ⟨rfl, rfl, e, rfl, fun _ => Nat.le_of_not_lt hle⟩
      · next c hval =>
        cases h
        have hconf : e.isConf = true := by simp [LogEntry.isConf, LogEntry.conf?, hval]
        refine ⟨?_, ?_, e, rfl, fun happ => absurd (hconf.symm.trans happ) (by decide)⟩
        · unfold commitConf
          split <;> simp
        · unfold commitConf
          split <;> simp
  · cases h

theorem Inv.commitNext (hv : v.Inv first) {t : RaftServer} (h : v.srv.commitNext = some t) :
    Inv { v with
      srv := t
      commits := if v.commitsApp then v.commits ++ [v.srv.smCommitIndex + 1] else v.commits }
      first := by
  obtain ⟨hlog, hindex, e, he, hle⟩ := commitNext_cases h
  refine { hv.withServer hlog hindex with committed := ?_ }
  intro i hi hfirst
  split at hi
  · next happ =>
    have hconf : e.isConf = false := by simpa [commitsApp, he] using happ
    rcases mem_append.mp hi with hold | hnew
    · exact hv.committed i hold hfirst
    · rw [mem_singleton] at hnew
      subst hnew
      exact hv.mem_preCommits ⟨hfirst, e, he, hconf⟩ (hle hconf)
  · exact hv.committed i hi hfirst

theorem recordAppendResp_log (s : RaftServer) (env : Env) (resp : RespMsg) :
    (s.recordAppendResp env resp).log = s.log ∧
    (s.recordAppendResp env resp).precommitIndex = s.precommitIndex := by
  unfold recordAppendResp
  split <;> simp

theorem Inv.handleAppendEntriesResp (hv : v.Inv first) {env : Env} {resp : RespMsg}
    (h : v.handleAppendEntriesResp env resp = some w) : w.Inv first := by
  unfold LeaderThreads.handleAppendEntriesResp at h
  split at h
  · cases h
    exact hv
  · dsimp only at h
    split at h
    · cases h
      exact hv.withServer rfl rfl
    · obtain ⟨hlog, hindex⟩ := recordAppendResp_log (v.srv.checkSrvToLeaveTimeout env) env resp
      generalize (v.srv.checkSrvToLeaveTimeout env).recordAppendResp env resp = u at h hlog hindex
      split at h
      · cases h
        exact hv.withServer hlog hindex
      · split at h
        · cases h
          exact (hv.withServer (t := u.markChanging _) hlog hindex).storeConf _
        · split at h
          · cases h
          · cases h
            exact hv.withServer hlog hindex

theorem step_inv (a : Action) (hv : v.Inv first) (h : v.step a = some w) : w.Inv first := by
  cases a with
  | enter expectedTerm bufs =>
    simp only [step] at h
    split at h
    · cases h
    · next hlock =>
      split at h
      · cases h
        exact hv
      · cases h
        exact hv.enter (by simpa using hlock) bufs
  | storeEntry =>
    simp only [step] at h
    split at h
    · next buf rest last hb =>
      cases h
      exact hv.storeEntry hb rfl buf rest
    · cases h
  | preCommit =>
    simp only [step] at h
    split at h
    · next hb =>
      cases h
      exact hv.preCommit hb
    · cases h
  | leave =>
    simp only [step] at h
    split at h
    · next last hb =>
      cases h
      exact (hv.release hb).updateIndex rfl (hv.last _ hb)
    · cases h
  | storeConf c =>
    cases h
    exact hv.storeConf c
  | updateConf idx =>
    simp only [step] at h
    split at h
    · next hcond =>
      cases h
      have hlock : v.batch = none := by simpa using hcond.1
      have hraised := hv.updateIndex hlock (hv.pending idx hcond.2)
      exact { hraised with pending := fun i hi => hv.pending i (mem_of_mem_erase hi) }
    · cases h
  | appendResp env resp => exact hv.handleAppendEntriesResp h
  | requestAppendEntries env =>
    cases h
    exact hv.withServer (by simp) (by simp)
  | nominateSuccessor env successor =>
    cases h
    exact hv.withServer rfl rfl
  | commitNext =>
    obtain ⟨t, ht, rfl⟩ := Option.map_eq_some_iff.mp h
    exact hv.commitNext ht

/-- The leader's own first entry is a configuration, and it counts as pre-committed. -/
theorem start_inv (s : RaftServer) : (start s).Inv s.log.nextSlot where
  preCommitted i happ := by
    obtain ⟨hi, e, he, happ⟩ := happ
    rcases append_entryAt_cases he with hold | ⟨-, rfl⟩
    · have hlt := entryAt_lt_nextSlot hold
      omega
    · cases happ
  index := by
    show s.log.nextSlot < (s.log.append s.leaderConfEntry).nextSlot
    rw [append_nextSlot]
    exact Nat.lt_succ_self _
  stored _ _ hb _ := nomatch hb
  last _ hb := nomatch hb
  pending _ hi := nomatch hi
  calls _ hi := nomatch hi
  ordered := Pairwise.nil
  committed _ hi := nomatch hi

/-- In every run of a leader's threads: the state machine's `commit` finds its entry pre-committed,
the `pre_commit` calls come in increasing order, and every application entry of this leader up to
`precommit_index_` is pre-committed. -/
theorem preCommit_before_commit (s : RaftServer) (as : List Action) (v : LeaderThreads)
    (hrun : Runs.run step (start s) as = some v) :
    (∀ i ∈ v.commits, s.log.nextSlot ≤ i → i ∈ v.preCommits) ∧
    v.preCommits.Pairwise (· < ·) ∧
    (∀ i, v.IsApp s.log.nextSlot i → i ≤ v.srv.precommitIndex → i ∈ v.preCommits) := by
  have hv : v.Inv s.log.nextSlot :=
    Runs.invariant (I := fun v => v.Inv s.log.nextSlot) (fun _ a _ hi h => step_inv a hi h)
      (start_inv s) hrun
  exact ⟨hv.committed, hv.ordered, fun i happ hi => hv.mem_preCommits happ hi⟩

end LeaderThreads

def loneMember : RaftServer := { id := 1, config := { servers := [{ id := 1 }] } }

/-- A configuration entry lands behind a stored entry of a client batch; both are committed. -/
def confInsideBatch : List LeaderThreads.Action :=
  [.enter 0 [[7]], .storeEntry, .storeConf loneMember.config, .preCommit, .leave, .updateConf 3,
    .requestAppendEntries {}, .commitNext, .commitNext, .commitNext]

theorem confInsideBatch_preCommitted :
    ∃ v, Runs.run LeaderThreads.step (LeaderThreads.start loneMember) confInsideBatch = some v ∧
      v.commits = [2] ∧ 2 ∈ v.preCommits := by
  have hobserved : (Runs.run LeaderThreads.step (LeaderThreads.start loneMember)
      confInsideBatch).map LeaderThreads.commits = some [2] := by decide +kernel
  obtain ⟨v, hrun, hcommits⟩ := Option.map_eq_some_iff.mp hobserved
  have hmem : 2 ∈ v.commits := by simp [hcommits]
  have hsound := LeaderThreads.preCommit_before_commit loneMember confInsideBatch v hrun
  exact ⟨v, hrun, hcommits, hsound.1 2 hmem (by decide)⟩

end Raft
end Xio
