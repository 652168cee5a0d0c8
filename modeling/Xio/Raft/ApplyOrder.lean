import Xio.Lib.Progression
import Xio.Raft.SmWatchers

/-!
# Raft.ApplyOrder — the state machine gets every entry once, in order

The threads of `SmWatchers`, with the calls that pass an index to the state machine and the two
other writers of `sm_commit_index_` recorded: the installation of a snapshot and the adjustment to
the start of the log. A second call of `commit_in_bg_exec` that finds `commit_lock_` taken returns
at once and is no step here.

A snapshot handler waits until no run is in progress, with the pause flag set. A run that starts
after that stops at the flag before it picks an entry, but it has passed the adjustment by then. So
`adjust` may assign a value that was computed before an installation.

- `ApplyRun.step_inOrder`: one step of any thread
- `ApplyRun.applied_in_order`: every run
-/

namespace Xio
namespace Raft

open Progression List Option RaftServer

/-- A run that has not passed the test of the pause flag. -/
def ExecPhase.early : ExecPhase → Bool
  | .idle | .entered | .adjusting _ | .looping => true
  | _ => false

/-- The handler has seen the execution paused and has not assigned the indices yet. -/
def SnapshotHandler.installing (h : SnapshotHandler) : Bool :=
  h.phase == .paused || h.phase == .compacted

/-- A call of `commit` or `commit_config` of the state machine, with the commit index and the last
log index at that moment. -/
structure ApplyCall where
  index : Nat
  quickCommitIndex : Nat
  lastLogIdx : Nat
  deriving DecidableEq, Repr

structure ApplyRun where
  threads : SmWatchers
  calls : List ApplyCall := []
  /-- The applied indices, with the jumps of `sm_commit_index_` in between. -/
  moves : List Move := []

namespace ApplyRun

variable {a : SmWatchers.Action} {p : ExecPhase}

/-- The steps of the threads, and the calls that pause or resume the execution at any time. -/
inductive Action
  | thread (a : SmWatchers.Action)
  | pauseExecution
  | resumeExecution

/-- The index that the step passes to the state machine. -/
def applies (v : SmWatchers) : SmWatchers.Action → Option Nat
  | .execute =>
    match v.exec with
    | .picked k _ => some k
    | _ => none
  | _ => none

def call (v : SmWatchers) (k : Nat) : ApplyCall := ⟨k, v.srv.quickCommitIndex, v.srv.lastLogIdx⟩

/-- What the step does to `sm_commit_index_`, as it means to. -/
def moveOf (v : SmWatchers) (a : SmWatchers.Action) : Option Move :=
  ((applies v a).map .next).or ((v.jumpTarget a).map .jump)

def step (x : ApplyRun) : Action → Option ApplyRun
  | .thread a => (x.threads.step a).map fun w =>
    { threads := w
      calls := x.calls ++ ((applies x.threads a).map (call x.threads)).toList
      moves := x.moves ++ (moveOf x.threads a).toList }
  | .pauseExecution => some { x with threads := { x.threads with smCommitPaused := true } }
  | .resumeExecution => some { x with threads := { x.threads with smCommitPaused := false } }

/-- The commit index never moves back, the log loses nothing up to it, and the execution stays
paused from the end of a handler's wait until the handler has assigned the indices. -/
def Undisturbed (x : ApplyRun) : Action → Prop
  | .thread (.other t) =>
    x.threads.srv.quickCommitIndex ≤ t.quickCommitIndex ∧
      min x.threads.srv.log.nextSlot (x.threads.srv.quickCommitIndex + 1) ≤ t.log.nextSlot
  | .thread (.awaitPause _) => x.threads.smCommitPaused = true
  | .thread (.install p) => x.threads.srv.quickCommitIndex ≤ p.snapshot.lastLogIdx ∧
      x.threads.srv.smCommitIndex ≤ p.snapshot.lastLogIdx
  | .thread (.resume _) | .resumeExecution => ∀ h ∈ x.threads.handlers, h.installing = false
  | _ => True

instance (x : ApplyRun) (a : Action) : Decidable (x.Undisturbed a) := by
  rcases a with ⟨⟨⟩⟩ | _ | _ <;> (dsimp only [Undisturbed]; infer_instance)

/-- No adjustment assigns less than `sm_commit_index_` has by now. -/
def AdjustsUp (x : ApplyRun) : Action → Prop
  | .thread .adjust => ∀ idx ∈ x.threads.jumpTarget .adjust, x.threads.srv.smCommitIndex ≤ idx
  | _ => True

instance (x : ApplyRun) (a : Action) : Decidable (x.AdjustsUp a) := by
  rcases a with ⟨⟨⟩⟩ | _ | _ <;> (dsimp only [AdjustsUp]; infer_instance)

/-- What the commit thread has found out. Nobody can take it back while it is under way. -/
def Found (v : SmWatchers) : ExecPhase → Prop
  | .tested => v.srv.smCommitIndex < v.srv.quickCommitIndex ∧
      v.srv.smCommitIndex + 1 < v.srv.log.nextSlot
  | .picked k _ => k = v.srv.smCommitIndex + 1 ∧ k ≤ v.srv.quickCommitIndex ∧
      k < v.srv.log.nextSlot
  | _ => True

/-- The threads at any time. -/
structure Ready (v : SmWatchers) : Prop where
  found : Found v v.exec
  paused : ∀ h ∈ v.handlers, h.installing = true → v.smCommitPaused = true ∧ v.exec.early = true

structure InOrder (i : Nat) (x : ApplyRun) : Prop where
  ready : Ready x.threads
  follows : Follows i x.moves
  current : x.threads.srv.smCommitIndex = last i x.moves
  bounded : ∀ c ∈ x.calls, c.index ≤ c.quickCommitIndex ∧ c.index ≤ c.lastLogIdx
  recorded : x.calls.map ApplyCall.index = x.moves.filterMap Move.next?

variable {v w : SmWatchers} {i : Nat} {x y : ApplyRun}

/-! ## One step -/

/-- What a step of a thread does, as far as the order of the calls is concerned. -/
structure Effect (v : SmWatchers) (a : SmWatchers.Action) (w : SmWatchers) : Prop where
  ready : Ready w
  allowed : ∀ m ∈ moveOf v a, Allowed v.srv.smCommitIndex m
  moved : w.srv.smCommitIndex = ((moveOf v a).map Move.target).getD v.srv.smCommitIndex
  bounded : ∀ k ∈ applies v a, k ≤ v.srv.quickCommitIndex ∧ k ≤ v.srv.lastLogIdx

theorem Effect.of_quiet (hmove : moveOf v a = none)
    (happ : applies v a = none) (hsm : w.srv.smCommitIndex = v.srv.smCommitIndex)
    (hw : Ready w) : Effect v a w := by
  refine ⟨hw, ?_, ?_, ?_⟩
  · simp [hmove]
  · simp [hmove, hsm]
  · simp [happ]

theorem Ready.goto (hv : Ready v) (hfound : Found v p)
    (hearly : v.smCommitPaused = true → v.exec.early = true → p.early = true) :
    Ready (v.goto p) := by
  refine ⟨?_, ?_⟩
  · cases p <;> exact hfound
  · intro h hmem hinst
    obtain ⟨hpaused, hexec⟩ := hv.paused h hmem hinst
    exact ⟨hpaused, hearly hpaused hexec⟩

theorem Found.grow {t : RaftServer} (h : Found v p) (hsm : t.smCommitIndex = v.srv.smCommitIndex)
    (hquick : v.srv.quickCommitIndex ≤ t.quickCommitIndex)
    (hlog : min v.srv.log.nextSlot (v.srv.quickCommitIndex + 1) ≤ t.log.nextSlot) :
    Found { v with srv := t } p := by
  cases p with
  | tested =>
    obtain ⟨hq, hn⟩ := h
    refine ⟨?_, ?_⟩
    · show t.smCommitIndex < t.quickCommitIndex
      omega
    · show t.smCommitIndex + 1 < t.log.nextSlot
      omega
  | picked k e =>
    obtain ⟨hk, hq, hn⟩ := h
    refine ⟨?_, ?_, ?_⟩
    · show k = t.smCommitIndex + 1
      omega
    · show k ≤ t.quickCommitIndex
      omega
    · show k < t.log.nextSlot
      omega
  | _ => trivial

theorem Ready.of_late (hv : Ready v) (hlate : v.exec.early = false)
    (hhandlers : w.handlers = v.handlers) (hfound : Found w w.exec) : Ready w := by
  refine ⟨hfound, fun h hmem hinst => ?_⟩
  rw [hhandlers] at hmem
  have hearly := (hv.paused h hmem hinst).2
  cases hlate ▸ hearly

theorem stepExec_effect (hv : Ready v)
    (hup : ∀ idx ∈ v.jumpTarget a, v.srv.smCommitIndex ≤ idx) (h : v.stepExec a = some w) :
    Effect v a w := by
  have hfound := hv.found
  unfold SmWatchers.stepExec at h
  split at h
  · cases h
    exact .of_quiet rfl rfl rfl (hv.goto trivial fun _ _ => rfl)
  · split at h
    · cases h
      exact .of_quiet rfl rfl rfl (hv.goto trivial fun _ _ => rfl)
    · cases h
      exact .of_quiet rfl rfl rfl (hv.goto trivial fun _ _ => rfl)
  · next idx hexec =>
    have hjump : v.jumpTarget .adjust = some idx := by simp [SmWatchers.jumpTarget, hexec]
    have hmove : moveOf v .adjust = some (.jump idx) := by simp [moveOf, applies, hjump]
    cases h
    refine ⟨⟨trivial, fun h hmem hinst => ⟨(hv.paused h hmem hinst).1, rfl⟩⟩, ?_, ?_, ?_⟩
    · intro m hm
      cases hmove.symm.trans hm
      exact hup idx hjump
    · rw [hmove]
      rfl
    · intro k hk
      cases hk
  · next hexec =>
    split at h
    · next hgo =>
      cases h
      simp only [hasWork, Bool.and_eq_true, decide_eq_true_eq, Bool.not_eq_true'] at hgo
      obtain ⟨⟨⟨hquick, hlast⟩, _⟩, hnot⟩ := hgo
      refine .of_quiet rfl rfl rfl (hv.goto ⟨hquick, by omega⟩ fun hpaused _ => ?_)
      -- the flag is not set
      cases hnot ▸ hpaused
    · cases h
      exact .of_quiet rfl rfl rfl (hv.goto trivial fun _ _ => rfl)
  · next hexec =>
    rw [hexec] at hfound
    split at h
    · cases h
    · cases h
      refine .of_quiet rfl rfl rfl (hv.of_late (hexec ▸ rfl) rfl ?_)
      exact ⟨rfl, hfound.1, hfound.2⟩
  · next k e hexec =>
    rw [hexec] at hfound
    obtain ⟨hk, hquick, hlast⟩ := hfound
    have happ : applies v .execute = some k := by simp [applies, hexec]
    have hmove : moveOf v .execute = some (.next k) := by simp [moveOf, happ]
    split at h
    · cases h
    · cases h
      refine ⟨hv.of_late (hexec ▸ rfl) rfl trivial, ?_, ?_, ?_⟩
      · intro m hm
        cases hmove.symm.trans hm
        exact hk
      · rw [hmove]
        -- nobody has moved the index since it was read, so the exchange succeeds
        simp only [executeEntry_smCommitIndex]
        rw [if_pos hk.symm]
        rfl
      · intro k' hk'
        cases happ.symm.trans hk'
        exact ⟨hquick, Nat.le_sub_one_of_lt hlast⟩
  · next k hexec =>
    split at h
    · cases h
    · cases h
      exact .of_quiet rfl rfl rfl (hv.of_late (hexec ▸ rfl) rfl trivial)
  · next k r ws hexec =>
    cases h
    exact .of_quiet rfl rfl rfl (hv.of_late (hexec ▸ rfl) rfl trivial)
  · next k hexec =>
    cases h
    exact .of_quiet rfl rfl rfl (hv.of_late (hexec ▸ rfl) rfl trivial)
  · cases h

theorem found_of_early (h : p.early = true) (v : SmWatchers) : Found v p := by
  cases p with
  | tested => cases h
  | picked k e => cases h
  | _ => trivial

theorem Ready.advance {p : PendingInstall} {phase next : HandlerPhase} (hv : Ready v)
    (hnext : (⟨p, next⟩ : SnapshotHandler).installing = true →
      v.smCommitPaused = true ∧ v.exec.early = true)
    (h : v.advance p phase next = some w) : Ready w ∧ w.srv = v.srv := by
  unfold SmWatchers.advance at h
  split at h
  · cases h
    refine ⟨⟨?_, fun g hg hinst => ?_⟩, rfl⟩
    · exact hv.found
    · rcases mem_cons.mp hg with rfl | hold
      · exact hnext hinst
      · exact hv.paused g (mem_of_mem_erase hold) hinst
  · cases h

/-- A handler that is installing may change the server in any way. -/
theorem Ready.install {p : PendingInstall} {phase next : HandlerPhase} (hv : Ready v)
    (hinst : (⟨p, phase⟩ : SnapshotHandler).installing = true) {t : RaftServer}
    (h : { v with srv := t }.advance p phase next = some w) : Ready w ∧ w.srv = t := by
  have hmem : ⟨p, phase⟩ ∈ v.handlers := by
    unfold SmWatchers.advance at h
    split at h
    · assumption
    · cases h
  obtain ⟨hpaused, hearly⟩ := hv.paused _ hmem hinst
  have hready : Ready { v with srv := t } := ⟨found_of_early hearly _, hv.paused⟩
  exact hready.advance (fun _ => ⟨hpaused, hearly⟩) h

theorem step_effect (hv : Ready x.threads)
    (hu : x.Undisturbed (.thread a)) (hup : x.AdjustsUp (.thread a))
    (h : x.threads.step a = some w) : Effect x.threads a w := by
  have hexec (h : x.threads.stepExec a = some w)
      (hup : ∀ idx ∈ x.threads.jumpTarget a, x.threads.srv.smCommitIndex ≤ idx) :
      Effect x.threads a w := stepExec_effect hv hup h
  cases a with
  | waitRead target =>
    simp only [SmWatchers.step] at h
    split at h
    · cases h
    · cases h
      exact .of_quiet rfl rfl rfl ⟨hv.found, hv.paused⟩
  | waitFinish =>
    obtain ⟨r, _, rfl⟩ := map_eq_some_iff.mp h
    unfold SmWatchers.waitFinish
    split
    · exact .of_quiet rfl rfl rfl ⟨hv.found, hv.paused⟩
    · exact .of_quiet rfl rfl rfl ⟨hv.found, hv.paused⟩
  | pause p =>
    simp only [SmWatchers.step] at h
    split at h
    · cases h
      refine .of_quiet rfl rfl rfl ⟨hv.found, fun g hg hinst => ⟨rfl, ?_⟩⟩
      rcases mem_cons.mp hg with rfl | hold
      · cases hinst
      · exact (hv.paused g hold hinst).2
    · cases h
  | awaitPause p =>
    simp only [SmWatchers.step] at h
    split at h
    · next hidle =>
      obtain ⟨hready, hsrv⟩ := hv.advance (fun _ => ⟨hu, hidle ▸ rfl⟩) h
      exact .of_quiet rfl rfl (by rw [hsrv]) hready
    · cases h
  | compact p =>
    simp only [SmWatchers.step] at h
    split at h
    · obtain ⟨hready, hsrv⟩ := hv.install rfl h
      exact .of_quiet rfl rfl (hsrv ▸ rfl) hready
    · cases h
  | install p =>
    obtain ⟨hready, hsrv⟩ := hv.install rfl h
    refine ⟨hready, ?_, ?_, ?_⟩
    · intro m hm
      cases hm
      exact hu.2
    · rw [hsrv, installIndices_smCommitIndex]
      rfl
    · intro k hk
      cases hk
  | resume p =>
    simp only [SmWatchers.step] at h
    split at h
    · cases h
      refine .of_quiet rfl rfl rfl ⟨hv.found, fun g hg hinst => ?_⟩
      rw [hu g (mem_of_mem_erase hg)] at hinst
      cases hinst
    · cases h
  | other t =>
    simp only [SmWatchers.step] at h
    split at h
    · next hsm =>
      cases h
      exact .of_quiet rfl rfl hsm ⟨hv.found.grow hsm hu.1 hu.2, hv.paused⟩
    · cases h
  | adjust => exact hexec h hup
  | enterExec => exact hexec h (by simp [SmWatchers.jumpTarget])
  | readStart => exact hexec h (by simp [SmWatchers.jumpTarget])
  | testLoop timedOut => exact hexec h (by simp [SmWatchers.jumpTarget])
  | pick => exact hexec h (by simp [SmWatchers.jumpTarget])
  | execute => exact hexec h (by simp [SmWatchers.jumpTarget])
  | collect => exact hexec h (by simp [SmWatchers.jumpTarget])
  | notify => exact hexec h (by simp [SmWatchers.jumpTarget])

theorem step_inOrder {a : Action} (hx : InOrder i x) (hu : x.Undisturbed a) (hup : x.AdjustsUp a)
    (h : x.step a = some y) : InOrder i y := by
  cases a with
  | thread a =>
    obtain ⟨w, hw, rfl⟩ := map_eq_some_iff.mp h
    obtain ⟨hready, hallowed, hmoved, hbounded⟩ := step_effect hx.ready hu hup hw
    refine ⟨hready, ?_, ?_, ?_, ?_⟩
    · cases hm : moveOf x.threads a with
      | none => simpa [hm] using hx.follows
      | some m => exact hx.follows.snoc (hx.current ▸ hallowed m hm)
    · rw [hmoved]
      cases moveOf x.threads a with
      | none => simpa using hx.current
      | some m => exact (last_snoc i x.moves m).symm
    · intro c hc
      rcases mem_append.mp hc with hold | hnew
      · exact hx.bounded c hold
      · obtain ⟨k, hk, rfl⟩ := map_eq_some_iff.mp (mem_toList.mp hnew)
        exact hbounded k hk
    · have hnext : ((applies x.threads a).map (call x.threads)).toList.map ApplyCall.index =
          (moveOf x.threads a).toList.filterMap Move.next? := by
        unfold moveOf
        cases applies x.threads a with
        | none => cases x.threads.jumpTarget a <;> rfl
        | some k => rfl
      rw [map_append, filterMap_append, hx.recorded, hnext]
  | pauseExecution =>
    cases h
    refine { hx with ready := ⟨hx.ready.found, fun g hg hinst => ⟨rfl, ?_⟩⟩ }
    exact (hx.ready.paused g hg hinst).2
  | resumeExecution =>
    cases h
    refine { hx with ready := ⟨hx.ready.found, fun g hg hinst => ?_⟩ }
    rw [hu g hg] at hinst
    cases hinst

/-! ## Every run -/

/-- No thread is inside the functions, and nothing is recorded yet. -/
def start (s : RaftServer) : ApplyRun := { threads := { srv := s } }

theorem start_inOrder (s : RaftServer) : InOrder s.smCommitIndex (start s) where
  ready := ⟨trivial, fun _ hmem => absurd hmem not_mem_nil⟩
  follows := trivial
  current := rfl
  bounded _ hc := absurd hc not_mem_nil
  recorded := rfl

/-- **Entries are applied in order and once.** The indices passed to the state machine grow, each is
covered by the commit index and by the log at that moment, none is left out between two jumps of
`sm_commit_index_`, and that index is where the last call or jump has put it. -/
theorem applied_in_order {s : RaftServer} {as : List Action} {x : ApplyRun}
    (hu : Runs.AllSteps step Undisturbed (start s) as)
    (hup : Runs.AllSteps step AdjustsUp (start s) as)
    (hrun : Runs.run step (start s) as = some x) :
    (x.calls.map ApplyCall.index).Pairwise (· < ·) ∧
      (∀ c ∈ x.calls, c.index ≤ c.quickCommitIndex ∧ c.index ≤ c.lastLogIdx) ∧
      x.calls.map ApplyCall.index = x.moves.filterMap Move.next? ∧
      Follows s.smCommitIndex x.moves ∧
      x.threads.srv.smCommitIndex = last s.smCommitIndex x.moves := by
  have hx : InOrder s.smCommitIndex x :=
    Runs.invariant_of_allSteps (I := InOrder s.smCommitIndex)
      (fun _ _ _ hx hcond h => step_inOrder hx hcond.1 hcond.2 h) (start_inOrder s) (hu.and hup)
      hrun
  refine ⟨?_, hx.bounded, hx.recorded, hx.follows, hx.current⟩
  rw [hx.recorded]
  exact hx.follows.increasing

end ApplyRun

/-! ## Jumps of the applied index -/

open ApplyRun (Action)

/-- A follower with the entries of the indices `first` to `first + n - 1`. -/
def followerApplying (first : Nat) (h : 0 < first) (n applied committed : Nat) : RaftServer :=
  { installingFollower with
    log := ⟨first, List.replicate n ⟨1, .appLog []⟩, h⟩
    smCommitIndex := applied
    quickCommitIndex := committed
    precommitIndex := first + n - 1 }

def applyOne : List Action :=
  [.thread (.testLoop false), .thread .pick, .thread .execute, .thread .collect, .thread .notify]

def beginRun : List Action := [.thread .enterExec, .thread .readStart]

/-- The first entry is applied, the execution is paused by hand, a snapshot of index `5` is
installed, and the entry behind it is received and applied. -/
def applyAroundSnapshot : List Action :=
  beginRun ++ applyOne ++ [.pauseExecution, .thread (.testLoop false)]
    ++ installSnapshot.map .thread ++ [.thread (.other (followerApplying 6 (Nat.le_add_left 1 5) 1 5 6))]
    ++ beginRun ++ applyOne

theorem applyAroundSnapshot_in_order :
    ∃ x, Runs.run ApplyRun.step (.start (followerApplying 1 (by decide) 3 0 2))
        applyAroundSnapshot = some x ∧
      x.calls = [⟨1, 2, 3⟩, ⟨6, 6, 6⟩] ∧ x.moves = [.next 1, .jump 5, .next 6] ∧
      x.threads.srv.smCommitIndex = 6 ∧ Follows 0 x.moves := by
  have hobserved : (Runs.run ApplyRun.step (.start (followerApplying 1 (by decide) 3 0 2))
      applyAroundSnapshot).map (fun x => (x.calls, x.moves, x.threads.srv.smCommitIndex)) =
        some ([⟨1, 2, 3⟩, ⟨6, 6, 6⟩], [.next 1, .jump 5, .next 6], 6) := by decide +kernel
  obtain ⟨x, hrun, hx⟩ := map_eq_some_iff.mp hobserved
  simp only [Prod.mk.injEq] at hx
  have hu : Runs.AllSteps ApplyRun.step ApplyRun.Undisturbed
      (.start (followerApplying 1 (by decide) 3 0 2)) applyAroundSnapshot := by decide +kernel
  have hup : Runs.AllSteps ApplyRun.step ApplyRun.AdjustsUp
      (.start (followerApplying 1 (by decide) 3 0 2)) applyAroundSnapshot := by decide +kernel
  exact ⟨x, hrun, hx.1, hx.2.1, hx.2.2, (ApplyRun.applied_in_order hu hup hrun).2.2.2.1⟩

/-- The adjustment to a log that starts at index `3`. -/
def adjustToStart : List Action := beginRun ++ [.thread .adjust]

/-- The same while a handler, which has seen the execution paused, installs its snapshot. -/
def adjustDuringInstall : List Action :=
  [.thread (.pause receivedSnapshot), .thread (.awaitPause receivedSnapshot)] ++ beginRun
    ++ [.thread (.compact receivedSnapshot), .thread (.install receivedSnapshot), .thread .adjust]

/-- The adjustment moves `sm_commit_index_` to an index that was neither applied nor installed, and
it may move it back below a snapshot that was installed in between. -/
theorem adjustment_leaves_applied : (Runs.AllSteps ApplyRun.step ApplyRun.Undisturbed
        (.start (followerApplying 3 (by decide) 2 0 4)) adjustToStart ∧
      (Runs.run ApplyRun.step (.start (followerApplying 3 (by decide) 2 0 4)) adjustToStart).map
        (fun x => (x.calls, x.threads.handlers, x.threads.srv.smCommitIndex)) = some ([], [], 2)) ∧
    (Runs.AllSteps ApplyRun.step ApplyRun.Undisturbed
        (.start (followerApplying 3 (by decide) 2 0 4)) adjustDuringInstall ∧
      (Runs.run ApplyRun.step (.start (followerApplying 3 (by decide) 2 0 4))
          adjustDuringInstall).map
        (fun x => (x.moves, x.threads.srv.quickCommitIndex, x.threads.srv.smCommitIndex)) =
          some ([.jump 5, .jump 2], 5, 2)) := by
  decide +kernel

end Raft
end Xio
