import Xio.Raft.LogWrite

/-!
# Raft.ClientThreads — the threads that complete client requests

With the asynchronous return method `handle_cli_req` answers with a `cmd_result` that is set later.
The table `commit_ret_elems_` holds one element per waiting request, by the index of the last entry
of its batch. Three parties take elements out: the commit thread after it has applied the entry, the
scan over the peers' state machines (with `track_peers_sm_commit_idx_`), and a step-down. An element
is put in by the request or by the commit thread, whichever comes first.

What each thread holds decides where another one can get in. A client thread has `cli_lock_` from
its first entry until its element is registered, and a step-down needs that lock. The table has a
lock of its own. The commit thread reads the role once for a whole run of its loop.

`ClientCompletion.Threads` is what holds of the server and its threads whatever the table holds.

Replication is synchronous here, and snapshots and rollbacks of applied entries are left out.
-/

namespace Xio
namespace Raft

open List RaftServer LogStore

/-- A `cmd_result`, with the entry of the request that it was made for. -/
structure CmdResult where
  id : Nat
  idx : Nat
  term : Nat
  deriving DecidableEq, Repr

inductive Completion
  | ok (value : Option Bytes)
  /-- Whether the entry was applied, and whether a scan had reached it, when it was dropped. -/
  | cancelled (wasApplied wasNotified : Bool)
  deriving DecidableEq, Repr

structure CommitRetElem where
  idx : Nat
  retValue : Option Bytes := none
  asyncResult : Option CmdResult := none
  deriving DecidableEq, Repr

/-- Where the commit thread is; the flag is `need_to_handle_commit_elem`. -/
inductive CommitPhase
  | idle
  | looping (handles : Bool)
  | picked (handles : Bool) (k : Nat) (e : LogEntry)
  /-- `commit_ext` has returned; `pc` is the pre-commit index read before it. -/
  | returned (handles : Bool) (k : Nat) (e : LogEntry) (pc : Nat) (value : Option Bytes)
  | notifying (handles : Bool) (k : Nat) (rs : List (CmdResult × Option Bytes))
  deriving DecidableEq, Repr

/-- Results that the thread has taken out of the table and not set yet. -/
def CommitPhase.held : CommitPhase → List CmdResult
  | .notifying _ _ rs => rs.map Prod.fst
  | _ => []

/-- The flag, the index and the pre-commit index of an entry that is applied and not completed. -/
def CommitPhase.returning : CommitPhase → Option (Bool × Nat × Nat)
  | .returned b k _ pc _ => some (b, k, pc)
  | _ => none

/-- The index that is completed and that `sm_commit_index_` has not moved to yet. -/
def CommitPhase.past : CommitPhase → Option Nat
  | .notifying _ k _ => some k
  | _ => none

structure ClientCompletion where
  srv : RaftServer
  trackPeersSmCommitIdx : Bool
  /-- A client thread that has stored and pre-committed its batch: last index and term. -/
  client : Option (Nat × Nat) := none
  exec : CommitPhase := .idle
  commitRetElems : List CommitRetElem := []
  /-- A thread is inside `update_term` or `become_follower`, with the server lock. -/
  steppingDown : Bool := false
  /-- Results dropped by `drop_all_pending_commit_elems` and not set yet. -/
  draining : List (CmdResult × Completion) := []
  notifiedIdx : Nat := 0
  nextResult : Nat := 0
  /-- Calls of `commit_ext`: index, term of the entry, returned value. -/
  applied : List (Nat × Nat × Option Bytes) := []
  /-- Results set so far. -/
  sets : List (CmdResult × Completion) := []

namespace ClientCompletion

variable (v : ClientCompletion) {e : LogEntry} {t : RaftServer} {k : Nat} {b : Bool}

inductive Action
  | store (bufs : List Bytes)
  | register
  | enterExec
  | pick
  | apply (value : Option Bytes)
  | complete
  | notify
  | exit
  | scan (upto : Nat)
  | loseRole (term : Nat)
  | drain
  | cancel
  | becomeLeader
  | other (t : RaftServer)

def findElem (k : Nat) : Option CommitRetElem := v.commitRetElems.find? (fun x => x.idx == k)

/-- The index that a client thread is about to register. -/
def clientIdx : Option Nat := v.client.map Prod.fst

/-- `handle_cli_req` up to `try_update_precommit_index`. -/
def store (bufs : List Bytes) : ClientCompletion :=
  let term := v.srv.state.term
  let log := v.srv.log.appendLoop (bufs.map (fun buf => ⟨term, .appLog buf⟩))
  { v with
    srv := { v.srv with log := log }.tryUpdatePrecommitIndex (log.nextSlot - 1)
    client := some (log.nextSlot - 1, term) }

/-- The table without index `k`. -/
def eraseElem (k : Nat) : List CommitRetElem := v.commitRetElems.filter (fun y => y.idx != k)

/-- The table with an element inserted, or exchanged for the one of the same index. -/
def putElem (x : CommitRetElem) : List CommitRetElem := x :: v.eraseElem x.idx

/-- The rest of `handle_cli_req`: the element of the commit thread is used where there is one. -/
def register (k term : Nat) : ClientCompletion :=
  let fresh : CmdResult := ⟨v.nextResult, k, term⟩
  let x := (v.findElem k).getD { idx := k }
  match x.asyncResult with
  | some _ => { v with client := none }
  | none =>
    { v with
      client := none
      commitRetElems := v.putElem { x with asyncResult := some fresh }
      nextResult := v.nextResult + 1 }

/-- `commit_app_log` after the state machine has returned, up to the end of the locked part. -/
def complete (k : Nat) (e : LogEntry) (pc : Nat) (value : Option Bytes) : ClientCompletion :=
  let done : ClientCompletion := { v with exec := .notifying true k [] }
  match v.findElem k with
  | some x =>
    if v.trackPeersSmCommitIdx then
      { done with commitRetElems := v.putElem { x with retValue := value } }
    else
      { v with
        exec := .notifying true k (x.asyncResult.toList.map (fun r => (r, value)))
        commitRetElems := v.eraseElem k }
  | none =>
    if k ≠ pc then done
    else if v.trackPeersSmCommitIdx then
      { done with commitRetElems := v.putElem { idx := k, retValue := value } }
    else
      -- the new result is constructed with its value, that is set
      let made : CmdResult := ⟨v.nextResult, k, e.term⟩
      { done with
        commitRetElems := v.putElem { idx := k, retValue := value, asyncResult := some made }
        nextResult := v.nextResult + 1
        sets := v.sets ++ [(made, .ok value)] }

/-- `scan_sm_commit_and_notify`, all of it under the lock of the table. -/
def scan (upto : Nat) : ClientCompletion :=
  if v.trackPeersSmCommitIdx then
    { v with
      sets := v.sets ++ (v.commitRetElems.filter (fun x => x.idx ≤ upto)).filterMap
        (fun x => x.asyncResult.map (fun r => (r, .ok x.retValue)))
      commitRetElems := v.commitRetElems.filter (fun x => upto < x.idx)
      notifiedIdx := upto }
  else v

/-- A dropped result, with what was known of its entry. -/
def dropped (r : CmdResult) : CmdResult × Completion :=
  (r, .cancelled (v.applied.any (fun a => a.1 == r.idx && a.2.1 == r.term))
    (decide (r.idx ≤ v.notifiedIdx)))

/-- `become_follower` up to the point where the table is empty. An element without a result would
be a null pointer. -/
def drain : Option ClientCompletion :=
  if v.commitRetElems.any (fun x => x.asyncResult.isNone) then none
  else
    some { v with
      srv := v.srv.becomeFollower
      steppingDown := true
      draining := v.commitRetElems.filterMap (fun x => x.asyncResult.map v.dropped)
      commitRetElems := [] }

/-- What every other handler of the server leaves alone. While the server leads, its log only
grows; a follower keeps what is committed. `precommit_index_` of a leader needs `cli_lock_`. -/
def Undisturbed (t : RaftServer) : Prop :=
  t.role = v.srv.role ∧ t.smCommitIndex = v.srv.smCommitIndex ∧
    v.srv.smCommitIndex < t.log.nextSlot ∧ v.srv.quickCommitIndex ≤ t.quickCommitIndex ∧
    (∀ i < v.srv.log.nextSlot, v.srv.smCommitIndex < i →
      v.srv.role = .leader ∨ v.steppingDown ∨ i ≤ v.srv.quickCommitIndex →
      t.log.entryAt i = v.srv.log.entryAt i) ∧
    (v.srv.role = .leader → v.srv.log.nextSlot ≤ t.log.nextSlot ∧
      t.state.term = v.srv.state.term ∧ t.precommitIndex < t.log.nextSlot ∧
      (v.client.isSome → t.precommitIndex = v.srv.precommitIndex))

instance (t : RaftServer) : Decidable (v.Undisturbed t) := inferInstanceAs (Decidable (_ ∧ _))

def stepExec (a : Action) : Option ClientCompletion :=
  match a, v.exec with
  | .enterExec, .idle => some { v with exec := .looping (v.srv.role == .leader) }
  | .pick, .looping b =>
    if v.srv.hasWork then
      (v.srv.log.entryAt (v.srv.smCommitIndex + 1)).map
        (fun e => { v with exec := .picked b (v.srv.smCommitIndex + 1) e })
    else none
  | .apply value, .picked b k e =>
    if e.isConf then some { v with srv := v.srv.executeEntry e, exec := .notifying b k [] }
    else if v.srv.precommitIndex < k then none
    else
      some { v with
        exec := .returned b k e v.srv.precommitIndex value
        applied := v.applied ++ [(k, e.term, value)] }
  | .complete, .returned b k e pc value =>
    if b then some (v.complete k e pc value) else some { v with exec := .notifying b k [] }
  | .notify, .notifying b k (r :: rs) =>
    some { v with exec := .notifying b k rs, sets := v.sets ++ [(r.1, .ok r.2)] }
  | .notify, .notifying b k [] => some { v with srv := v.srv.applied k, exec := .looping b }
  | .exit, .looping _ => some { v with exec := .idle }
  | _, _ => none

def step : Action → Option ClientCompletion
  | .store bufs =>
    if v.client.isSome ∨ v.draining ≠ [] ∨ bufs = [] then none
    else if v.srv.role ≠ .leader ∨ v.srv.writePaused then some v
    else some (v.store bufs)
  | .register => v.client.map (fun c => v.register c.1 c.2)
  | .scan upto => some (v.scan upto)
  | .loseRole term =>
    if v.client.isSome ∨ v.steppingDown ∨ term ≤ v.srv.state.term then none
    else
      some { v with
        srv := { v.srv with role := .follower, state := { v.srv.state with term := term } }
        steppingDown := true }
  | .drain => if v.client.isSome ∨ v.draining ≠ [] then none else v.drain
  | .cancel =>
    match v.draining with
    | d :: ds => some { v with draining := ds, sets := v.sets ++ [d] }
    | [] =>
      if v.steppingDown ∧ v.commitRetElems = [] then some { v with steppingDown := false } else none
  | .becomeLeader =>
    if v.client.isSome ∨ v.steppingDown ∨ v.srv.role = .leader then none
    else some { v with srv := v.srv.takeLeadership }
  | .other t => if v.Undisturbed t then some { v with srv := t } else none
  | a => v.stepExec a

/-! ## The threads -/

/-- The commit thread is past the completion of index `k`. -/
def Done (k : Nat) : Prop := k ≤ v.srv.smCommitIndex ∨ v.exec.past = some k

/-- The log has an application entry of the given term at index `k`. -/
def HasEntry (k term : Nat) : Prop :=
  ∃ e, v.srv.log.entryAt k = some e ∧ e.term = term ∧ e.isConf = false

/-- The entry that the commit thread works on. -/
def AtNext (k : Nat) (e : LogEntry) : Prop :=
  k = v.srv.smCommitIndex + 1 ∧ k ≤ v.srv.quickCommitIndex ∧ v.srv.log.entryAt k = some e

def PhaseSound : CommitPhase → Prop
  | .picked _ k e => v.AtNext k e
  | .returned _ k e pc value =>
    v.AtNext k e ∧ (k, e.term, value) ∈ v.applied ∧ (v.clientIdx = some k → pc = k)
  | .notifying _ k rs =>
    (∃ e, v.AtNext k e) ∧ ∀ r ∈ rs, (r.1.idx, r.1.term, r.2) ∈ v.applied
  | _ => True

/-- The log keeps its entries: the server leads, or the thread that ends that has the lock. -/
def Guarded : Prop := v.srv.role = .leader ∨ v.steppingDown

/-- The entries that somebody relies on are still in the log. -/
def Keeps (t : RaftServer) : Prop :=
  ∀ i e, v.srv.log.entryAt i = some e → v.srv.smCommitIndex < i →
    v.Guarded ∨ i ≤ v.srv.quickCommitIndex → t.log.entryAt i = some e

/-- What the threads know of the server, whatever the table holds. -/
structure Threads : Prop where
  client : ∀ k term, v.client = some (k, term) →
    v.srv.role = .leader ∧ v.srv.precommitIndex = k ∧ (¬ v.Done k → v.HasEntry k term)
  phase : v.PhaseSound v.exec
  applied : ∀ a ∈ v.applied, v.Done a.1 ∨ ∃ b pc, v.exec.returning = some (b, a.1, pc)
  inLog : v.srv.smCommitIndex < v.srv.log.nextSlot
  leader : v.srv.role = .leader → v.srv.precommitIndex < v.srv.log.nextSlot

/-- Where the commit thread stands before the completion of an index. -/
structure Completing (k : Nat) (e : LogEntry) : Prop where
  next : v.AtNext k e
  past : v.exec.past = none
  held : v.exec.held = []
  returning : ∀ r ∈ v.exec.returning, r.2.1 = k

variable {v} {w : ClientCompletion}

theorem AtNext.term_eq {k term : Nat} (h : v.AtNext k e) (hentry : v.HasEntry k term) :
    e.term = term ∧ e.isConf = false := by
  obtain ⟨e', he', hterm⟩ := hentry
  cases h.2.2.symm.trans he'
  exact hterm

theorem Completing.not_done (h : v.Completing k e) : ¬ v.Done k := by
  rintro (hle | hpast)
  · have hk := h.next.1
    omega
  · cases h.past.symm.trans hpast

theorem Completing.done_iff (h : v.Completing k e)
    (hsm : w.srv.smCommitIndex = v.srv.smCommitIndex) (hpast : w.exec.past = some k) {j : Nat} :
    w.Done j ↔ v.Done j ∨ j = k := by
  unfold Done
  rw [hsm, hpast, h.past]
  simp [eq_comm]

theorem Threads.phase_lt (hv : v.Threads) : (∀ k, v.exec.past = some k → k < v.srv.log.nextSlot) ∧
    (∀ r ∈ v.exec.returning, r.2.1 < v.srv.log.nextSlot) := by
  have h := hv.phase
  cases hexec : v.exec with
  | returned b k e pc value =>
    rw [hexec] at h
    refine ⟨fun k' hk' => (nomatch hk'), ?_⟩
    rintro r ⟨⟩
    exact entryAt_lt_nextSlot h.1.2.2
  | notifying b k rs =>
    rw [hexec] at h
    refine ⟨?_, fun r hr => nomatch hr⟩
    rintro k' ⟨⟩
    obtain ⟨e, he⟩ := h.1
    exact entryAt_lt_nextSlot he.2.2
  | idle | looping | picked => exact ⟨fun k' hk' => (nomatch hk'), fun r hr => (nomatch hr)⟩

theorem Threads.lt_of_done (hv : v.Threads) (hdone : v.Done k) : k < v.srv.log.nextSlot := by
  rcases hdone with hle | hpast
  · exact hle.trans_lt hv.inLog
  · exact hv.phase_lt.1 k hpast

theorem Threads.clientEntry (hv : v.Threads) (hclient : v.clientIdx = some k)
    (hnot : ¬ v.Done k) : ∃ term, v.client = some (k, term) ∧ v.HasEntry k term := by
  obtain ⟨⟨j, term⟩, hc, rfl⟩ := Option.map_eq_some_iff.mp hclient
  exact ⟨term, hc, (hv.client j term hc).2.2 hnot⟩

theorem done_withServer (hsm : t.smCommitIndex = v.srv.smCommitIndex) (k : Nat) :
    Done { v with srv := t } k ↔ v.Done k := by
  show k ≤ t.smCommitIndex ∨ _ ↔ _
  rw [hsm]
  rfl

theorem HasEntry.withServer {k term : Nat} (h : v.HasEntry k term)
    (hkeep : v.Keeps t) (hguard : v.Guarded) (hnot : ¬ v.Done k) :
    HasEntry { v with srv := t } k term := by
  obtain ⟨e, he, hterm⟩ := h
  have hk : v.srv.smCommitIndex < k := Nat.lt_of_not_le (fun hle => hnot (.inl hle))
  exact ⟨e, hkeep k e he hk (.inl hguard), hterm⟩

theorem Threads.withServer (hv : v.Threads)
    (hsm : t.smCommitIndex = v.srv.smCommitIndex) (hlog : v.srv.smCommitIndex < t.log.nextSlot)
    (hquick : v.srv.quickCommitIndex ≤ t.quickCommitIndex) (hkeep : v.Keeps t)
    (hclient : ∀ k term, v.client = some (k, term) → t.role = .leader ∧ t.precommitIndex = k)
    (hleader : t.role = .leader → t.precommitIndex < t.log.nextSlot) :
    Threads { v with srv := t } where
  client k term hc := by
    obtain ⟨hlead, hindex⟩ := hclient k term hc
    refine ⟨hlead, hindex, fun h => ?_⟩
    obtain ⟨hled, -, hentry⟩ := hv.client k term hc
    have hnot : ¬ v.Done k := fun hd => h ((done_withServer hsm k).mpr hd)
    exact (hentry hnot).withServer hkeep (.inl hled) hnot
  phase := by
    have hnext : ∀ k e, v.AtNext k e → AtNext { v with srv := t } k e := by
      rintro k e ⟨hk, hle, he⟩
      exact ⟨by rw [hk, ← hsm], hle.trans hquick, hkeep k e he (by omega) (.inr hle)⟩
    have h := hv.phase
    cases hexec : v.exec with
    | picked b k e =>
      rw [hexec] at h
      exact hnext k e h
    | returned b k e pc value =>
      rw [hexec] at h
      exact ⟨hnext k e h.1, h.2⟩
    | notifying b k rs =>
      rw [hexec] at h
      obtain ⟨e, he⟩ := h.1
      exact ⟨⟨e, hnext k e he⟩, h.2⟩
    | _ => trivial
  applied a ha := (hv.applied a ha).imp_left (done_withServer hsm a.1).mpr
  inLog := hsm ▸ hlog
  leader := hleader

theorem Threads.withPhase (hv : v.Threads) {p : CommitPhase} (hpast : p.past = v.exec.past)
    (hreturning : p.returning = v.exec.returning) (hsound : v.PhaseSound p) :
    Threads { v with exec := p } := by
  have hdone : ∀ j, Done { v with exec := p } j ↔ v.Done j := by
    intro j
    unfold Done
    rw [← hpast]
  exact
    { hv with
      client := by
        intro k term hc
        obtain ⟨hlead, hindex, hentry⟩ := hv.client k term hc
        exact ⟨hlead, hindex, fun h => hentry (fun hd => h ((hdone k).mpr hd))⟩
      phase := hsound
      applied := by
        intro a ha
        rcases hv.applied a ha with hd | hret
        · exact .inl ((hdone a.1).mpr hd)
        · exact .inr (hreturning ▸ hret) }

theorem done_apply (hexec : v.exec = .picked b k e) (value : Option Bytes) (j : Nat) : Done { v with
      exec := .returned b k e v.srv.precommitIndex value
      applied := v.applied ++ [(k, e.term, value)] } j ↔ v.Done j := by
  unfold Done
  rw [hexec]
  rfl

theorem Threads.apply (hv : v.Threads)
    (hexec : v.exec = .picked b k e) (value : Option Bytes) : Threads { v with
      exec := .returned b k e v.srv.precommitIndex value
      applied := v.applied ++ [(k, e.term, value)] } := by
  have hat : v.AtNext k e := by
    have h := hv.phase
    rwa [hexec] at h
  have hdone := done_apply hexec value
  exact
    { hv with
      client := by
        intro j term hc
        obtain ⟨hlead, hindex, hentry⟩ := hv.client j term hc
        exact ⟨hlead, hindex, fun h => hentry (fun hd => h ((hdone j).mpr hd))⟩
      phase := by
        refine ⟨hat, mem_append_right _ (mem_singleton_self _), ?_⟩
        intro hc
        obtain ⟨c, hclient, rfl⟩ := Option.map_eq_some_iff.mp hc
        exact (hv.client c.1 c.2 hclient).2.1
      applied := by
        intro a ha
        rcases mem_append.mp ha with hold | hnew
        · rcases hv.applied a hold with hd | ⟨b', pc, hret⟩
          · exact .inl ((hdone _).mpr hd)
          · cases hexec ▸ hret
        · rw [mem_singleton.mp hnew]
          exact .inr ⟨b, _, rfl⟩ }

/-- The completion of index `k`; `rs` is what the thread takes out of the table. -/
theorem Threads.pass (hv : v.Threads) (b : Bool) (hc : v.Completing k e)
    {rs : List (CmdResult × Option Bytes)} (hrs : ∀ r ∈ rs, (r.1.idx, r.1.term, r.2) ∈ v.applied) :
    Threads { v with exec := .notifying b k rs } := by
  have hdone : ∀ j, Done { v with exec := .notifying b k rs } j ↔ v.Done j ∨ j = k :=
    fun j => hc.done_iff (w := { v with exec := .notifying b k rs }) rfl rfl
  exact
    { hv with
      client := by
        intro j term hj
        obtain ⟨hlead, hindex, hentry⟩ := hv.client j term hj
        exact ⟨hlead, hindex, fun h => hentry (fun hd => h ((hdone j).mpr (.inl hd)))⟩
      phase := ⟨⟨e, hc.next⟩, hrs⟩
      applied := by
        intro a ha
        refine .inl ((hdone a.1).mpr ?_)
        rcases hv.applied a ha with hd | ⟨b', pc, hret⟩
        · exact .inl hd
        · exact .inr (hc.returning _ hret) }

theorem Threads.done_advance (hv : v.Threads) (hexec : v.exec = .notifying b k []) (j : Nat) :
    Done { v with srv := v.srv.applied k, exec := .looping b } j ↔ v.Done j := by
  obtain ⟨⟨e, hk, -, -⟩, -⟩ : v.PhaseSound (.notifying b k []) := hexec ▸ hv.phase
  unfold Done
  rw [hexec]
  simp only [applied_smCommitIndex, CommitPhase.past, Option.some.injEq, reduceCtorEq, or_false]
  omega

theorem Threads.advance (hv : v.Threads) (hexec : v.exec = .notifying b k []) :
    Threads { v with srv := v.srv.applied k, exec := .looping b } where
  client j term hc := by
    obtain ⟨hlead, hindex, hentry⟩ := hv.client j term hc
    exact ⟨hlead, hindex, fun h => hentry (fun hd => h ((hv.done_advance hexec j).mpr hd))⟩
  phase := trivial
  applied a ha := by
    rcases hv.applied a ha with hd | ⟨b', pc, hret⟩
    · exact .inl ((hv.done_advance hexec a.1).mpr hd)
    · cases hexec ▸ hret
  inLog := by
    obtain ⟨⟨e, -, -, he⟩, -⟩ : v.PhaseSound (.notifying b k []) := hexec ▸ hv.phase
    exact entryAt_lt_nextSlot he
  leader := hv.leader

theorem Threads.withClient (hv : v.Threads) {k term : Nat} (hlead : v.srv.role = .leader)
    (hindex : v.srv.precommitIndex = k) (hentry : v.HasEntry k term)
    (hphase : ∀ r ∈ v.exec.returning, r.2.1 ≠ k) : Threads { v with client := some (k, term) } where
  client k' term' hc := by
    cases hc
    exact ⟨hlead, hindex, fun _ => hentry⟩
  phase := by
    have h := hv.phase
    cases hexec : v.exec with
    | returned b k' e pc value =>
      rw [hexec] at h hphase
      refine ⟨h.1, h.2.1, fun hc => ?_⟩
      cases hc
      exact absurd rfl (hphase _ rfl)
    | idle | looping | picked | notifying =>
      rwa [hexec] at h
  applied := hv.applied
  inLog := hv.inLog
  leader := hv.leader

theorem executeEntry_keeps : v.Keeps (v.srv.executeEntry e) := by
  intro i e' he' _ _
  rwa [(v.srv.executeEntry_frame e).1]

theorem Threads.executeEntry (hv : v.Threads) : Threads { v with srv := v.srv.executeEntry e } := by
  obtain ⟨hlog, hrole, hquick, hpre⟩ := v.srv.executeEntry_frame e
  refine hv.withServer (executeEntry_smCommitIndex _ _) ?_ hquick.ge executeEntry_keeps ?_ ?_
  · exact hlog ▸ hv.inLog
  · intro k term hc
    obtain ⟨hlead, hindex, -⟩ := hv.client k term hc
    exact ⟨hrole.trans hlead, hpre.trans hindex⟩
  · intro hlead
    rw [hpre, hlog]
    exact hv.leader (hrole ▸ hlead)

theorem store_nextSlot (bufs : List Bytes) :
    (v.store bufs).srv.log.nextSlot = v.srv.log.nextSlot + bufs.length := by
  simp [store]

theorem store_client (bufs : List Bytes) :
    (v.store bufs).client = some (v.srv.log.nextSlot + bufs.length - 1, v.srv.state.term) := by
  simp [store]

theorem store_precommitIndex (bufs : List Bytes) : (v.store bufs).srv.precommitIndex =
    max v.srv.precommitIndex (v.srv.log.nextSlot + bufs.length - 1) := by
  simp [store]

theorem store_keeps (bufs : List Bytes) : v.Keeps (v.store bufs).srv :=
  fun _ _ he _ _ => (appendLoop_entryAt_of_lt _ (entryAt_lt_nextSlot he)).trans he

theorem store_entry {bufs : List Bytes} (hbufs : bufs ≠ []) :
    HasEntry { v with srv := (v.store bufs).srv } (v.srv.log.nextSlot + bufs.length - 1)
      v.srv.state.term := by
  have hpos : 0 < bufs.length := length_pos_of_ne_nil hbufs
  obtain ⟨buf, hlast⟩ : ∃ buf, bufs[bufs.length - 1]? = some buf :=
    ⟨_, getElem?_eq_getElem (by omega)⟩
  refine ⟨⟨v.srv.state.term, .appLog buf⟩, ?_, rfl, rfl⟩
  show (v.srv.log.appendLoop _).entryAt _ = _
  rw [Nat.add_sub_assoc hpos, appendLoop_entryAt_add, getElem?_map, hlast]
  rfl

theorem Threads.store_server (hv : v.Threads) (hclient : v.client = none) (bufs : List Bytes) :
    Threads { v with srv := (v.store bufs).srv } := by
  refine hv.withServer rfl ?_ le_rfl (store_keeps bufs) ?_ ?_
  · have h := hv.inLog
    rw [store_nextSlot]
    omega
  · intro k term hc
    cases hclient.symm.trans hc
  · intro hlead
    have hindex := hv.leader hlead
    rw [store_precommitIndex, store_nextSlot]
    omega

theorem Threads.store_index (hv : v.Threads) (hlead : v.srv.role = .leader) (bufs : List Bytes) :
    (v.store bufs).srv.precommitIndex = v.srv.log.nextSlot + bufs.length - 1 := by
  have hindex := hv.leader hlead
  rw [store_precommitIndex]
  omega

theorem Threads.store (hv : v.Threads) (hclient : v.client = none) (hlead : v.srv.role = .leader)
    {bufs : List Bytes} (hbufs : bufs ≠ []) : (v.store bufs).Threads := by
  have hpos : 0 < bufs.length := length_pos_of_ne_nil hbufs
  have hthreads := (hv.store_server hclient bufs).withClient hlead (hv.store_index hlead bufs)
    (store_entry hbufs) ?_
  · rwa [← store_client] at hthreads
  · intro r hr
    have hlt := hv.phase_lt.2 r hr
    omega

theorem Undisturbed.keeps (ht : v.Undisturbed t) : v.Keeps t := by
  intro i e he hi hwhy
  obtain ⟨-, -, -, -, hkeep, -⟩ := ht
  rwa [hkeep i (entryAt_lt_nextSlot he) hi (or_assoc.mp hwhy)]

theorem Threads.other (hv : v.Threads) (ht : v.Undisturbed t) : Threads { v with srv := t } := by
  have hkeep := ht.keeps
  obtain ⟨hrole, hsm, hlog, hquick, -, hleader⟩ := ht
  refine hv.withServer hsm hlog hquick hkeep ?_ ?_
  · intro k term hc
    obtain ⟨hled, hindex, -⟩ := hv.client k term hc
    have hsame := (hleader hled).2.2.2 (hc ▸ rfl)
    exact ⟨hrole.trans hled, hsame.trans hindex⟩
  · intro hlead
    exact (hleader (hrole ▸ hlead)).2.2.1

theorem takeLeadership_keeps : v.Keeps v.srv.takeLeadership := by
  intro i e he _ _
  rw [takeLeadership_log, append_entryAt_of_lt _ (entryAt_lt_nextSlot he)]
  exact he

theorem Threads.becomeLeader (hv : v.Threads) (hclient : v.client = none) :
    Threads { v with srv := v.srv.takeLeadership } := by
  refine hv.withServer rfl ?_ le_rfl takeLeadership_keeps ?_ ?_
  · have h := hv.inLog
    simp only [takeLeadership_log, append_nextSlot]
    omega
  · intro k term hc
    cases hclient.symm.trans hc
  · intro _
    simp

theorem Threads.notLeading (hv : v.Threads) (hclient : v.client = none)
    (hrole : t.role ≠ .leader) (hsm : t.smCommitIndex = v.srv.smCommitIndex)
    (hquick : t.quickCommitIndex = v.srv.quickCommitIndex) (hlog : t.log = v.srv.log) :
    Threads { v with srv := t } := by
  refine hv.withServer hsm ?_ hquick.ge (fun _ _ he _ _ => hlog ▸ he) ?_ ?_
  · exact hlog ▸ hv.inLog
  · intro k term hc
    cases hclient.symm.trans hc
  · intro hlead
    exact absurd hlead hrole

end ClientCompletion
end Raft
end Xio
