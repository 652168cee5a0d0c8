import Xio.Lib.Conservation
import Xio.Lib.Runs
import Xio.Raft.SnapshotSync

/-!
# Raft.SmWatchers — waiting for the state machine

`wait_for_state_machine_commit` registers a watcher for an index that is not applied yet, and the
commit loop completes the watchers of each index it applies. Registration and notification share
`sm_watchers_lock_`, which does not protect `sm_commit_index_` itself. Snapshot installation and
the start-index adjustment assign that index without a look at the watchers.

The threads take the steps between which another one can get in:

- the commit thread reads the start index, assigns, tests its loop, picks an index, applies it,
  collects the watchers of that index under the lock, and completes them one by one
- a snapshot handler pauses the commit thread, waits for it, compacts, assigns and resumes
- a waiting call reads the index under the lock, then answers or registers
-/

namespace Xio
namespace Raft

open Conservation List Option

namespace RaftServer

variable (s : RaftServer)

/-- The part of `handle_snapshot_sync_req` after the compaction of the log. -/
def installIndices (snp : Snapshot) : RaftServer :=
  let s₁ := if s.config.logIdx < snp.lastConfig.logIdx then s.reconfigure snp.lastConfig else s
  (s₁.assignIndices snp).restartElectionTimer

@[simp] theorem installIndices_smCommitIndex (snp : Snapshot) :
    (s.installIndices snp).smCommitIndex = snp.lastLogIdx := by
  simp [installIndices]

end RaftServer

/-- A `cmd_result` handed out by `wait_for_state_machine_commit`. -/
structure Watcher where
  id : Nat
  target : Nat
  deriving DecidableEq, Repr

/-- Where the thread that holds `commit_lock_` is inside `commit_in_bg_exec`. -/
inductive ExecPhase
  | idle
  | entered
  | adjusting (idx : Nat)
  | looping
  | tested
  | picked (k : Nat) (e : LogEntry)
  /-- `sm_commit_index_` was moved to `k`, or the exchange failed. -/
  | moved (k : Nat)
  | notifying (k : Nat) (ws : List Watcher)
  deriving DecidableEq, Repr

/-- Watchers that the thread has taken out of the table and not completed yet. -/
def ExecPhase.held : ExecPhase → List Watcher
  | .notifying _ ws => ws
  | _ => []

inductive HandlerPhase
  | pausing
  | paused
  | compacted
  | installed
  deriving DecidableEq, Repr

/-- A thread in `handle_snapshot_sync_req` that has received the last object of a snapshot. -/
structure SnapshotHandler where
  pending : PendingInstall
  phase : HandlerPhase
  deriving DecidableEq, Repr

structure SmWatchers where
  srv : RaftServer
  exec : ExecPhase := .idle
  smCommitPaused : Bool := false
  handlers : List SnapshotHandler := []
  /-- The call that holds `sm_watchers_lock_`, and whether it found its index applied. -/
  waiting : Option (Watcher × Bool) := none
  smWatchers : List Watcher := []
  nextId : Nat := 0
  /-- Results set to `true`, with `sm_commit_index_` at that moment. -/
  results : List (Watcher × Nat) := []

namespace SmWatchers

variable (v : SmWatchers)

inductive Action
  | enterExec
  | readStart
  | adjust
  | testLoop (timedOut : Bool)
  | pick
  | execute
  | collect
  | notify
  | waitRead (target : Nat)
  | waitFinish
  | pause (p : PendingInstall)
  | awaitPause (p : PendingInstall)
  | compact (p : PendingInstall)
  | install (p : PendingInstall)
  | resume (p : PendingInstall)
  | other (t : RaftServer)

def goto (p : ExecPhase) : SmWatchers := { v with exec := p }

/-- A handler of snapshot `p` goes from one phase to the next. -/
def advance (p : PendingInstall) (phase next : HandlerPhase) : Option SmWatchers :=
  if ⟨p, phase⟩ ∈ v.handlers then
    some { v with handlers := ⟨p, next⟩ :: v.handlers.erase ⟨p, phase⟩ }
  else none

def stepExec (a : Action) : Option SmWatchers :=
  match a, v.exec with
  | .enterExec, .idle => some (v.goto .entered)
  | .readStart, .entered =>
    if v.srv.smCommitIndex < v.srv.log.startIndex - 1 then
      some (v.goto (.adjusting (v.srv.log.startIndex - 1)))
    else some (v.goto .looping)
  | .adjust, .adjusting idx => some { v with srv := v.srv.applied idx, exec := .looping }
  | .testLoop timedOut, .looping =>
    if v.srv.hasWork && !timedOut && !v.smCommitPaused then some (v.goto .tested)
    else some (v.goto .idle)
  | .pick, .tested =>
    match v.srv.log.entryAt (v.srv.smCommitIndex + 1) with
    | none => none
    | some e => some (v.goto (.picked (v.srv.smCommitIndex + 1) e))
  | .execute, .picked k e =>
    if e.isConf = false ∧ v.srv.precommitIndex < k then none
    else
      let s := v.srv.executeEntry e
      -- `compare_exchange_strong`: the turn goes on whether the exchange succeeds or not
      some { v with srv := if s.smCommitIndex + 1 = k then s.applied k else s, exec := .moved k }
  | .collect, .moved k =>
    if v.waiting.isSome then none
    else
      some { v with
        exec := .notifying k (v.smWatchers.filter (fun w => w.target == k))
        smWatchers := v.smWatchers.filter (fun w => w.target != k) }
  | .notify, .notifying k (w :: ws) =>
    some { v with
      exec := .notifying k ws
      results := v.results ++ [(w, v.srv.smCommitIndex)] }
  | .notify, .notifying _ [] => some (v.goto .looping)
  | _, _ => none

/-- `wait_for_state_machine_commit` after it has read `sm_commit_index_`. -/
def waitFinish (w : Watcher) (isApplied : Bool) : SmWatchers :=
  if isApplied then
    { v with waiting := none, results := v.results ++ [(w, v.srv.smCommitIndex)] }
  else { v with waiting := none, smWatchers := v.smWatchers ++ [w] }

def step : Action → Option SmWatchers
  | .waitRead target =>
    if v.waiting.isSome then none
    else
      some { v with
        waiting := some (⟨v.nextId, target⟩, decide (target ≤ v.srv.smCommitIndex))
        nextId := v.nextId + 1 }
  | .waitFinish => v.waiting.map (fun r => v.waitFinish r.1 r.2)
  | .pause p =>
    if p ∈ v.srv.applyingSnapshots then
      some { v with smCommitPaused := true, handlers := ⟨p, .pausing⟩ :: v.handlers }
    else none
  | .awaitPause p => if v.exec = .idle then v.advance p .pausing .paused else none
  | .compact p =>
    if v.srv.role = .follower then
      { v with srv := v.srv.compactTo p }.advance p .paused .compacted
    else none
  | .install p => { v with srv := v.srv.installIndices p.snapshot }.advance p .compacted .installed
  | .resume p =>
    if ⟨p, .installed⟩ ∈ v.handlers then
      some { v with smCommitPaused := false, handlers := v.handlers.erase ⟨p, .installed⟩ }
    else none
  -- any handler of the server that leaves `sm_commit_index_` alone
  | .other t => if t.smCommitIndex = v.srv.smCommitIndex then some { v with srv := t } else none
  | a => v.stepExec a

/-- Watchers that are registered or about to be. -/
def registering : List Watcher :=
  v.smWatchers ++ (v.waiting.toList.filter (fun r => !r.2)).map Prod.fst

/-- The assignment of `idx` to `sm_commit_index_` does not lower it and passes over no watcher. -/
def SafeJump (idx : Nat) : Prop :=
  v.srv.smCommitIndex ≤ idx ∧ ∀ w ∈ v.registering, v.srv.smCommitIndex < w.target → idx < w.target

instance (idx : Nat) : Decidable (v.SafeJump idx) := inferInstanceAs (Decidable (_ ∧ _))

/-- The index that an action assigns to `sm_commit_index_`, outside the commit loop. -/
def jumpTarget : Action → Option Nat
  | .adjust =>
    match v.exec with
    | .adjusting idx => some idx
    | _ => none
  | .install p => some p.snapshot.lastLogIdx
  | _ => none

def Safe (a : Action) : Prop := ∀ idx ∈ v.jumpTarget a, v.SafeJump idx

instance (a : Action) : Decidable (v.Safe a) :=
  inferInstanceAs (Decidable (∀ idx ∈ v.jumpTarget a, v.SafeJump idx))

/-- No thread is inside one of the three functions. -/
def Quiet : Prop := v.exec = .idle ∧ v.handlers = [] ∧ v.waiting = none

instance : Decidable v.Quiet := inferInstanceAs (Decidable (_ ∧ _))

/-- The index that the commit thread works on is at most one above `sm_commit_index_`, and after the
exchange not above it. -/
def ExecSound : ExecPhase → Prop
  | .picked k _ => k ≤ v.srv.smCommitIndex + 1
  | .moved k => k ≤ v.srv.smCommitIndex
  | .notifying k ws => k ≤ v.srv.smCommitIndex ∧ ∀ w ∈ ws, w.target = k
  | _ => True

/-- A watcher whose turn is still to come. -/
def ToCome (w : Watcher) : Prop := v.srv.smCommitIndex < w.target ∨ v.exec = .moved w.target

/-- Where the results handed out so far are. -/
def places : List Nat :=
  v.results.map (fun r => r.1.id) ++ (v.smWatchers.map Watcher.id
    ++ (v.waiting.toList.map (fun r => r.1.id) ++ v.exec.held.map Watcher.id))

structure Inv : Prop where
  toCome : ∀ w ∈ v.registering, v.ToCome w
  found : ∀ w, v.waiting = some (w, true) → w.target ≤ v.srv.smCommitIndex
  exec : v.ExecSound v.exec
  results : ∀ r ∈ v.results, r.1.target ≤ r.2
  conserved : Conserved v.places v.nextId

variable {v} {w : SmWatchers}

theorem mem_registering {x : Watcher} :
    x ∈ v.registering ↔ x ∈ v.smWatchers ∨ v.waiting = some (x, false) := by
  unfold registering
  cases v.waiting with
  | none => simp
  | some r =>
    obtain ⟨y, isApplied⟩ := r
    cases isApplied <;> simp [eq_comm]

theorem start_inv (s : RaftServer) : Inv { srv := s } where
  toCome _ hw := nomatch hw
  found _ hw := nomatch hw
  exec := trivial
  results _ hr := nomatch hr
  conserved := conserved_nil

theorem Inv.withHandlers (hv : v.Inv) (hs : List SnapshotHandler) (paused : Bool) :
    Inv { v with handlers := hs, smCommitPaused := paused } :=
  { hv with }

theorem Inv.jump (hv : v.Inv) {t : RaftServer} (hsafe : v.SafeJump t.smCommitIndex) :
    Inv { v with srv := t } where
  toCome w hw := by
    rcases hv.toCome w hw with hlt | hmoved
    · exact .inl (hsafe.2 w hw hlt)
    · exact .inr hmoved
  found w hw := (hv.found w hw).trans hsafe.1
  exec := by
    have hle := hsafe.1
    have h := hv.exec
    cases hexec : v.exec with
    | picked k e =>
      rw [hexec] at h
      exact h.trans (Nat.succ_le_succ hle)
    | moved k =>
      rw [hexec] at h
      exact h.trans hle
    | notifying k ws =>
      rw [hexec] at h
      exact ⟨h.1.trans hle, h.2⟩
    | _ => trivial
  results := hv.results
  conserved := hv.conserved

theorem Inv.withServer (hv : v.Inv) {t : RaftServer}
    (hsm : t.smCommitIndex = v.srv.smCommitIndex) : Inv { v with srv := t } := by
  apply hv.jump
  rw [hsm]
  exact ⟨le_rfl, fun w _ hlt => hlt⟩

theorem Inv.goto (hv : v.Inv) {p : ExecPhase} (hquiet : ∀ k, v.exec ≠ .moved k)
    (hsound : v.ExecSound p) (hheld : p.held = v.exec.held) : (v.goto p).Inv where
  toCome w hw := by
    rcases hv.toCome w hw with hlt | hmoved
    · exact .inl hlt
    · exact absurd hmoved (hquiet _)
  found := hv.found
  exec := hsound
  results := hv.results
  conserved := by
    have hplaces : (v.goto p).places = v.places := by
      unfold SmWatchers.places SmWatchers.goto
      rw [hheld]
    rw [hplaces]
    exact hv.conserved

/-- After the exchange the watchers of this index, and no others, are due. -/
theorem Inv.execute (hv : v.Inv) {k : Nat} {e : LogEntry} (hexec : v.exec = .picked k e) :
    Inv { v with
      srv := if (v.srv.executeEntry e).smCommitIndex + 1 = k then (v.srv.executeEntry e).applied k
        else v.srv.executeEntry e
      exec := .moved k } := by
  have hk : k ≤ v.srv.smCommitIndex + 1 := by
    have h := hv.exec
    rwa [hexec] at h
  generalize ht : (if (v.srv.executeEntry e).smCommitIndex + 1 = k
    then (v.srv.executeEntry e).applied k else v.srv.executeEntry e) = t
  -- either the exchange moves the index from `k - 1` to `k`, or the index is at least `k` already
  have hsm : v.srv.smCommitIndex + 1 = k ∧ t.smCommitIndex = k ∨
      k ≤ v.srv.smCommitIndex ∧ t.smCommitIndex = v.srv.smCommitIndex := by
    subst ht
    rw [RaftServer.executeEntry_smCommitIndex]
    split
    · next heq => exact .inl ⟨heq, rfl⟩
    · next hne =>
      refine .inr ⟨by omega, ?_⟩
      exact RaftServer.executeEntry_smCommitIndex _ _
  have hle : v.srv.smCommitIndex ≤ t.smCommitIndex := by omega
  exact
    { toCome := by
        intro w hw
        rcases hv.toCome w hw with hlt | hmoved
        · by_cases hwk : w.target = k
          · exact .inr (by rw [hwk])
          · refine .inl ?_
            show t.smCommitIndex < w.target
            omega
        · cases hexec.symm.trans hmoved
      found := fun w hw => (hv.found w hw).trans hle
      exec := by
        show k ≤ t.smCommitIndex
        omega
      results := hv.results
      conserved := by
        have hplaces := hv.conserved
        rw [SmWatchers.places, hexec] at hplaces
        exact hplaces }

theorem Inv.collect (hv : v.Inv) {k : Nat} (hexec : v.exec = .moved k) (hlock : v.waiting = none) :
    Inv { v with
      exec := .notifying k (v.smWatchers.filter (fun w => w.target == k))
      smWatchers := v.smWatchers.filter (fun w => w.target != k) } where
  toCome w hw := by
    rcases mem_registering.mp hw with hmem | hwait
    · obtain ⟨hold, hne⟩ := mem_filter.mp hmem
      rcases hv.toCome w (mem_registering.mpr (.inl hold)) with hlt | hmoved
      · exact .inl hlt
      · -- what was due at `k` is exactly what has been taken out
        cases hexec.symm.trans hmoved
        simp at hne
    · cases hlock.symm.trans hwait
  found := hv.found
  exec := by
    have hk := hv.exec
    rw [hexec] at hk
    refine ⟨hk, ?_⟩
    intro w hw
    simpa using (mem_filter.mp hw).2
  results := hv.results
  conserved := by
    apply hv.conserved.move
    unfold places
    rw [hexec, hlock]
    apply Perm.append_left
    simp only [toList_none, map_nil, nil_append, ExecPhase.held, append_nil]
    rw [← map_append]
    apply Perm.map
    have hsplit := filter_append_perm (fun w : Watcher => w.target != k) v.smWatchers
    simpa only [bne, Bool.not_not] using hsplit

theorem Inv.notify (hv : v.Inv) {k : Nat} {x : Watcher} {ws : List Watcher}
    (hexec : v.exec = .notifying k (x :: ws)) :
    Inv { v with
      exec := .notifying k ws
      results := v.results ++ [(x, v.srv.smCommitIndex)] } := by
  have hsound : k ≤ v.srv.smCommitIndex ∧ ∀ w ∈ x :: ws, w.target = k := by
    have h := hv.exec
    rwa [hexec] at h
  refine
    { toCome := ?_
      found := hv.found
      exec := ⟨hsound.1, fun w hw => hsound.2 w (.tail _ hw)⟩
      results := ?_
      conserved := ?_ }
  · intro w hw
    rcases hv.toCome w hw with hlt | hmoved
    · exact .inl hlt
    · cases hexec.symm.trans hmoved
  · intro r hr
    rcases mem_append.mp hr with hold | hnew
    · exact hv.results r hold
    · rw [mem_singleton.mp hnew]
      rw [hsound.2 x mem_cons_self]
      exact hsound.1
  · have hplaces := hv.conserved
    unfold places at hplaces ⊢
    rw [hexec] at hplaces
    rw [map_append]
    apply hplaces.finish
    rw [← append_assoc, ← append_assoc]
    exact perm_middle.symm

theorem Inv.waitRead (hv : v.Inv) (hlock : v.waiting = none) (target : Nat) : Inv { v with
      waiting := some (⟨v.nextId, target⟩, decide (target ≤ v.srv.smCommitIndex))
      nextId := v.nextId + 1 } where
  toCome w hw := by
    rcases mem_registering.mp hw with hmem | hwait
    · exact hv.toCome w (mem_registering.mpr (.inl hmem))
    · simp only [some.injEq, Prod.mk.injEq, decide_eq_false_iff_not] at hwait
      obtain ⟨rfl, hlt⟩ := hwait
      exact .inl (Nat.not_le.mp hlt)
  found w hw := by
    simp only [some.injEq, Prod.mk.injEq, decide_eq_true_eq] at hw
    obtain ⟨rfl, hle⟩ := hw
    exact hle
  exec := hv.exec
  results := hv.results
  conserved := by
    apply hv.conserved.issue
    unfold places
    rw [hlock]
    simp only [toList_some, toList_none, map_cons, map_nil, nil_append, singleton_append]
    rw [← append_assoc, ← append_assoc]
    exact perm_middle

theorem Inv.waitFinish (hv : v.Inv) {x : Watcher} {isApplied : Bool}
    (hwait : v.waiting = some (x, isApplied)) : (v.waitFinish x isApplied).Inv := by
  have hplaces := hv.conserved
  rw [places, hwait] at hplaces
  unfold SmWatchers.waitFinish
  cases isApplied with
  | true =>
    refine
      { toCome := ?_
        found := nofun
        exec := hv.exec
        results := ?_
        conserved := ?_ }
    · intro w hw
      rcases mem_registering.mp hw with hmem | h
      · exact hv.toCome w (mem_registering.mpr (.inl hmem))
      · cases h
    · intro r hr
      rcases mem_append.mp hr with hold | hnew
      · exact hv.results r hold
      · rw [mem_singleton.mp hnew]
        exact hv.found x hwait
    · simp only [places, if_true, map_append]
      apply hplaces.finish
      exact perm_middle.symm
  | false =>
    refine { hv with
        toCome := ?_
        found := nofun
        conserved := ?_ }
    · intro w hw
      rcases mem_registering.mp hw with hmem | h
      · rcases mem_append.mp hmem with hold | hnew
        · exact hv.toCome w (mem_registering.mpr (.inl hold))
        · rw [mem_singleton.mp hnew]
          exact hv.toCome x (mem_registering.mpr (.inr hwait))
      · cases h
    · unfold places
      simpa using hplaces

theorem Inv.advance (hv : v.Inv) {p : PendingInstall} {phase next : HandlerPhase}
    (h : v.advance p phase next = some w) : w.Inv := by
  unfold SmWatchers.advance at h
  split at h
  · cases h
    exact hv.withHandlers _ _
  · cases h

theorem stepExec_inv {a : Action} (hv : v.Inv) (hsafe : v.Safe a) (h : v.stepExec a = some w) :
    w.Inv := by
  unfold stepExec at h
  split at h
  · next hexec =>
    cases h
    exact hv.goto (by simp [hexec]) trivial (by simp [hexec, ExecPhase.held])
  · next hexec =>
    split at h
    · cases h
      exact hv.goto (by simp [hexec]) trivial (by simp [hexec, ExecPhase.held])
    · cases h
      exact hv.goto (by simp [hexec]) trivial (by simp [hexec, ExecPhase.held])
  · next idx hexec =>
    cases h
    have hjump : Inv { v with srv := v.srv.applied idx } :=
      hv.jump (hsafe idx (by simp [jumpTarget, hexec]))
    have hquiet : ∀ k, v.exec ≠ .moved k := by simp [hexec]
    exact hjump.goto hquiet trivial (by simp [hexec, ExecPhase.held])
  · next hexec =>
    split at h
    · cases h
      exact hv.goto (by simp [hexec]) trivial (by simp [hexec, ExecPhase.held])
    · cases h
      exact hv.goto (by simp [hexec]) trivial (by simp [hexec, ExecPhase.held])
  · next hexec =>
    split at h
    · cases h
    · cases h
      exact hv.goto (by simp [hexec]) le_rfl (by simp [hexec, ExecPhase.held])
  · next k e hexec =>
    split at h
    · cases h
    · cases h
      exact hv.execute hexec
  · next k hexec =>
    split at h
    · cases h
    · next hlock =>
      cases h
      exact hv.collect hexec (by simpa using hlock)
  · next k x ws hexec =>
    cases h
    exact hv.notify hexec
  · next k hexec =>
    cases h
    exact hv.goto (by simp [hexec]) trivial (by simp [hexec, ExecPhase.held])
  · cases h

theorem step_inv (a : Action) (hv : v.Inv) (hsafe : v.Safe a) (h : v.step a = some w) : w.Inv := by
  cases a with
  | waitRead target =>
    simp only [step] at h
    split at h
    · cases h
    · next hlock =>
      cases h
      exact hv.waitRead (by simpa using hlock) target
  | waitFinish =>
    obtain ⟨⟨x, isApplied⟩, hwait, rfl⟩ := map_eq_some_iff.mp h
    exact hv.waitFinish hwait
  | pause p =>
    simp only [step] at h
    split at h
    · cases h
      exact hv.withHandlers _ _
    · cases h
  | awaitPause p =>
    simp only [step] at h
    split at h
    · exact hv.advance h
    · cases h
  | compact p =>
    simp only [step] at h
    split at h
    · exact (hv.withServer (t := v.srv.compactTo p) rfl).advance h
    · cases h
  | install p =>
    have hjump : v.SafeJump (v.srv.installIndices p.snapshot).smCommitIndex := by
      exact hsafe _ rfl
    exact (hv.jump hjump).advance h
  | resume p =>
    simp only [step] at h
    split at h
    · cases h
      exact hv.withHandlers _ _
    · cases h
  | other t =>
    simp only [step] at h
    split at h
    · next hsm =>
      cases h
      exact hv.withServer hsm
    · cases h
  | enterExec => exact stepExec_inv hv hsafe h
  | readStart => exact stepExec_inv hv hsafe h
  | adjust => exact stepExec_inv hv hsafe h
  | testLoop timedOut => exact stepExec_inv hv hsafe h
  | pick => exact stepExec_inv hv hsafe h
  | execute => exact stepExec_inv hv hsafe h
  | collect => exact stepExec_inv hv hsafe h
  | notify => exact stepExec_inv hv hsafe h

/-- As long as no jump of `sm_commit_index_` passes over a watcher or goes down, each result is set
at most once and only when its index is applied, and no watcher of an applied index is left behind
once the threads have returned. -/
theorem watchers_completed {s : RaftServer} {as : List Action} {v : SmWatchers}
    (hsafe : Runs.AllSteps step Safe { srv := s } as)
    (hrun : Runs.run step { srv := s } as = some v) :
    (v.results.map (fun r => r.1.id)).Nodup ∧
    (∀ r ∈ v.results, r.1.target ≤ r.2) ∧
    (v.Quiet → ∀ w ∈ v.smWatchers, v.srv.smCommitIndex < w.target) := by
  have hv : v.Inv :=
    Runs.invariant_of_allSteps (P := Safe) (I := Inv)
      (fun _ a _ hi hs h => step_inv a hi hs h) (start_inv s) hsafe hrun
  refine ⟨hv.conserved.nodup_left, hv.results, ?_⟩
  intro hquiet w hw
  rcases hv.toCome w (mem_registering.mpr (.inl hw)) with hlt | hmoved
  · exact hlt
  · cases hquiet.1.symm.trans hmoved

end SmWatchers

def receivedSnapshot : PendingInstall :=
  ⟨⟨5, 1, { servers := [{ id := 1 }, { id := 2 }] }⟩, 1, 2, 1⟩

/-- A follower of one peer that is about to install a snapshot of index `5`. -/
def installingFollower : RaftServer :=
  { id := 1
    config := { servers := [{ id := 1 }, { id := 2 }] }
    applyingSnapshots := [receivedSnapshot] }

/-- A log that starts above what the state machine of the server has applied. -/
def compactedFollower : RaftServer :=
  { installingFollower with log := ⟨6, [], by decide⟩, applyingSnapshots := [] }

def waitFor (target : Nat) : List SmWatchers.Action := [.waitRead target, .waitFinish]

def installSnapshot : List SmWatchers.Action :=
  [.pause receivedSnapshot, .awaitPause receivedSnapshot, .compact receivedSnapshot,
    .install receivedSnapshot, .resume receivedSnapshot]

/-- Either jump takes `sm_commit_index_` to `5` and leaves the watcher of index `3` registered. -/
theorem jumps_leave_watcher :
    (Runs.run SmWatchers.step { srv := installingFollower } (waitFor 3 ++ installSnapshot)).map
        (fun v => (decide v.Quiet, v.smWatchers, v.srv.smCommitIndex)) = some (true, [⟨0, 3⟩], 5) ∧
      (Runs.run SmWatchers.step { srv := compactedFollower }
          (waitFor 3 ++ [.enterExec, .readStart, .adjust, .testLoop false])).map
        (fun v => (decide v.Quiet, v.smWatchers, v.srv.smCommitIndex)) =
          some (true, [⟨0, 3⟩], 5) := by
  decide +kernel

/-- A snapshot below every watched index keeps the promise. -/
theorem installed_below_watcher : ∃ v, Runs.run SmWatchers.step { srv := installingFollower }
        (waitFor 7 ++ installSnapshot ++ waitFor 5) = some v ∧
      v.Quiet ∧ v.results = [(⟨1, 5⟩, 5)] ∧ ∀ w ∈ v.smWatchers, v.srv.smCommitIndex < w.target := by
  have hobserved : (Runs.run SmWatchers.step { srv := installingFollower }
      (waitFor 7 ++ installSnapshot ++ waitFor 5)).map (fun v => (decide v.Quiet, v.results)) =
        some (true, [(⟨1, 5⟩, 5)]) := by decide +kernel
  obtain ⟨v, hrun, hv⟩ := map_eq_some_iff.mp hobserved
  simp only [Prod.mk.injEq, decide_eq_true_eq] at hv
  have hsafe : Runs.AllSteps SmWatchers.step SmWatchers.Safe { srv := installingFollower }
      (waitFor 7 ++ installSnapshot ++ waitFor 5) := by decide +kernel
  exact ⟨v, hrun, hv.1, hv.2, (SmWatchers.watchers_completed hsafe hrun).2.2 hv.1⟩

end Raft
end Xio
