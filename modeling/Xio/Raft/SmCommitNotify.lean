import Xio.Lib.Runs
import Xio.Raft.CommitRule
import Xio.Raft.Process

/-!
# Raft.SmCommitNotify — completing requests by the peers' commit indices

With `track_peers_sm_commit_idx_` a leader answers its clients only when enough state machines
have applied the entry. The index up to which it answers is one position of a descending list:
its own `sm_commit_index_` and the indices that healthy peers reported. The last position is the
minimum; a custom quorum size reads further up, where a peer that is ahead of the leader may
stand, and a negative one reads outside the list.
-/

namespace Xio
namespace Raft

open List Option RaftServer

namespace RaftServer

variable (s : RaftServer)

/-- The leader's own index and those of the healthy peers that reported one. -/
def commitIdxList (env : Env) (smCommitted : Int → Nat) : List Nat :=
  s.smCommitIndex :: (s.peers.filter (fun p =>
    !p.isExcludedFromQuorum env s.allowedLogIndex && smCommitted p.id != 0)).map
      (fun p => smCommitted p.id)

/-- Conversion of an `int32` to `size_t`. -/
def toSize (i : Int) : Nat := if i < 0 then (i + 2 ^ 64).toNat else i.toNat

def idxToPick (quorum : Int) (size : Nat) : Nat :=
  if quorum ≠ 0 ∧ quorum < size then toSize (quorum - 1) else size - 1

/-- `find_sm_commit_idx_to_notify`; `none` is a read outside the list. -/
def findSmCommitIdxToNotify (env : Env) (smCommitted : Int → Nat) : Option Nat :=
  let l := s.commitIdxList env smCommitted
  (l.insertionSort (· ≥ ·))[idxToPick s.params.customCommitQuorumSize l.length]?

/-- Peers in the list whose state machine is ahead of the leader's. -/
def peersAhead (env : Env) (smCommitted : Int → Nat) : Nat :=
  (s.commitIdxList env smCommitted).countP (fun k => decide (s.smCommitIndex < k))

/-- A custom quorum size is larger than the number of peers ahead. -/
def QuorumCoversAhead (env : Env) (smCommitted : Int → Nat) : Prop :=
  s.params.customCommitQuorumSize = 0 ∨
    (s.peersAhead env smCommitted : Int) < s.params.customCommitQuorumSize

instance (env : Env) (smCommitted : Int → Nat) : Decidable (s.QuorumCoversAhead env smCommitted) :=
  inferInstanceAs (Decidable (_ ∨ _))

variable {s} {env : Env} {smCommitted : Int → Nat}

theorem peersAhead_lt_length : s.peersAhead env smCommitted < (s.commitIdxList env smCommitted).length := by
  rw [peersAhead, commitIdxList, countP_cons_of_neg (by simp), length_cons]
  exact Nat.lt_succ_of_le countP_le_length

/-- The position is inside the list and behind every peer that is ahead. -/
theorem idxToPick_bounds (h : s.QuorumCoversAhead env smCommitted) :
    let size := (s.commitIdxList env smCommitted).length
    s.peersAhead env smCommitted ≤ idxToPick s.params.customCommitQuorumSize size ∧
      idxToPick s.params.customCommitQuorumSize size < size := by
  have hlt : s.peersAhead env smCommitted < (s.commitIdxList env smCommitted).length :=
    peersAhead_lt_length
  dsimp only
  unfold idxToPick
  split
  · rename_i hcustom
    rcases h with hzero | hahead
    · exact absurd hzero hcustom.1
    · have hpos : ¬ s.params.customCommitQuorumSize - 1 < 0 := by omega
      rw [toSize, if_neg hpos]
      omega
  · omega

theorem findSmCommitIdxToNotify_le (h : s.QuorumCoversAhead env smCommitted) :
    ∃ k, s.findSmCommitIdxToNotify env smCommitted = some k ∧
      k ∈ s.commitIdxList env smCommitted ∧ k ≤ s.smCommitIndex := by
  obtain ⟨hahead, hinside⟩ := idxToPick_bounds h
  refine ⟨((s.commitIdxList env smCommitted).insertionSort (· ≥ ·)).getD
    (idxToPick s.params.customCommitQuorumSize (s.commitIdxList env smCommitted).length) 0, ?_,
    OrderStatistic.getD_mem hinside 0, ?_⟩
  · rw [findSmCommitIdxToNotify, getD_eq_getElem?_getD]
    rw [getElem?_eq_getElem (by rw [length_insertionSort]; exact hinside)]
    rfl
  · -- otherwise more peers than the position counts would be ahead
    by_contra hlt
    have hcount := (OrderStatistic.le_getD_iff hinside (s.smCommitIndex + 1) 0).mp (Nat.lt_of_not_le hlt)
    exact absurd hcount (Nat.not_lt_of_le hahead)

end RaftServer

/-! ## Target, scan and the requests that wait -/

/-- A server with the indices of the notifier; `commitRetElems` are the indices that requests
wait for. -/
structure SmNotifier where
  srv : RaftServer
  /-- `sm_committed_idx_` of each peer. -/
  smCommitted : Int → Nat := fun _ => 0
  targetIdx : Nat := 0
  notifiedIdx : Nat := 0
  commitRetElems : List Nat := []

namespace SmNotifier

variable (n : SmNotifier)

inductive Action
  /-- Any step of the server itself. -/
  | server (env : Env) (input : RaftServer.Input)
  /-- An append response that carries the peer's `sm_committed_idx_`. -/
  | heard (env : Env) (src : Int) (idx : Nat)
  /-- The end of `commit_in_bg_exec`. -/
  | commitDone (env : Env)
  /-- The commit thread scans up to a target that it has read. -/
  | scan (upto : Nat)
  | register (idx : Nat)
  | dropAllPendingCommitElems
  | setCustomCommitQuorumSize (size : Int)

/-- The server after a step of its own. Peers that are gone take their index along. -/
def follow (input : RaftServer.Input) (t : RaftServer) : SmNotifier :=
  match input with
  | .restart _ => { srv := t }
  | _ =>
    { n with
      srv := t
      smCommitted := fun i => if (t.findPeer i).isSome then n.smCommitted i else 0 }

def setSmCommittedIdx (src : Int) (idx : Nat) : SmNotifier :=
  { n with smCommitted := Function.update n.smCommitted src idx }

/-- `update_sm_commit_notifier_target_idx` of the index that is found. -/
def updateTargetIdx (env : Env) : Option SmNotifier :=
  (n.srv.findSmCommitIdxToNotify env n.smCommitted).map
    (fun k => { n with targetIdx := max n.targetIdx k })

def scanned (upto : Nat) : List Nat := n.commitRetElems.filter (fun i => decide (i ≤ upto))

def scanSmCommitAndNotify (upto : Nat) : SmNotifier :=
  { n with
    commitRetElems := n.commitRetElems.filter (fun i => !decide (i ≤ upto))
    notifiedIdx := upto }

def withQuorumSize (size : Int) : SmNotifier :=
  { n with srv := { n.srv with params := { n.srv.params with customCommitQuorumSize := size } } }

def step : Action → Option SmNotifier
  | .server env input => (n.srv.next (env, input)).map (n.follow input)
  | .heard env src idx =>
    if (n.srv.findPeer src).isNone then some n
    else if n.smCommitted src < idx then (n.setSmCommittedIdx src idx).updateTargetIdx env
    else some (n.setSmCommittedIdx src idx)
  | .commitDone env => n.updateTargetIdx env
  | .scan upto => if upto ≤ n.targetIdx then some (n.scanSmCommitAndNotify upto) else none
  | .register idx => some { n with commitRetElems := idx :: n.commitRetElems }
  | .dropAllPendingCommitElems => some { n with commitRetElems := [] }
  | .setCustomCommitQuorumSize size => some (n.withQuorumSize size)

/-- Whenever an index is looked for, the quorum size covers the peers ahead, and no step of the
server takes `sm_commit_index_` below the target. -/
def Safe : Action → Prop
  | .server env input => ∀ t, n.srv.next (env, input) = some t →
      (n.follow input t).targetIdx ≤ t.smCommitIndex
  | .heard env src idx =>
    n.srv.QuorumCoversAhead env (n.setSmCommittedIdx src idx).smCommitted
  | .commitDone env => n.srv.QuorumCoversAhead env n.smCommitted
  | _ => True

def Action.isRestart : Action → Bool
  | .server _ (.restart _) => true
  | _ => false

variable {n} {m : SmNotifier}

theorem updateTargetIdx_eq_some {env : Env} (h : n.updateTargetIdx env = some m) :
    ∃ k, n.srv.findSmCommitIdxToNotify env n.smCommitted = some k ∧
      m = { n with targetIdx := max n.targetIdx k } := by
  obtain ⟨k, hk, heq⟩ := map_eq_some_iff.mp h
  exact ⟨k, hk, heq.symm⟩

theorem updateTargetIdx_le {env : Env} (hcover : n.srv.QuorumCoversAhead env n.smCommitted)
    (hle : n.targetIdx ≤ n.srv.smCommitIndex) (h : n.updateTargetIdx env = some m) :
    m.targetIdx ≤ m.srv.smCommitIndex := by
  obtain ⟨k, hk, rfl⟩ := updateTargetIdx_eq_some h
  obtain ⟨k', hk', -, hle'⟩ := findSmCommitIdxToNotify_le hcover
  have heq : k = k' := some.inj (hk.symm.trans hk')
  subst heq
  exact Nat.max_le.mpr ⟨hle, hle'⟩

theorem step_target_le_applied {a : Action} (hle : n.targetIdx ≤ n.srv.smCommitIndex)
    (hsafe : n.Safe a) (h : n.step a = some m) : m.targetIdx ≤ m.srv.smCommitIndex := by
  cases a with
  | server env input =>
    obtain ⟨t, ht, rfl⟩ := map_eq_some_iff.mp h
    have hsrv : (n.follow input t).srv = t := by cases input <;> rfl
    rw [hsrv]
    exact hsafe t ht
  | heard env src idx =>
    simp only [step] at h
    split at h
    · cases h
      exact hle
    · split at h
      · exact updateTargetIdx_le (n := n.setSmCommittedIdx src idx) hsafe hle h
      · cases h
        exact hle
  | commitDone env => exact updateTargetIdx_le hsafe hle h
  | scan upto =>
    simp only [step] at h
    split at h
    · cases h
      exact hle
    · cases h
  | register idx => cases h; exact hle
  | dropAllPendingCommitElems => cases h; exact hle
  | setCustomCommitQuorumSize size => cases h; exact hle

theorem step_target_mono {a : Action} (hrestart : a.isRestart = false) (h : n.step a = some m) :
    n.targetIdx ≤ m.targetIdx := by
  cases a with
  | server env input =>
    obtain ⟨t, ht, rfl⟩ := map_eq_some_iff.mp h
    cases input <;> first | exact le_rfl | cases hrestart
  | heard env src idx =>
    simp only [step] at h
    split at h
    · cases h
      exact le_rfl
    · split at h
      · obtain ⟨k, -, rfl⟩ := updateTargetIdx_eq_some h
        exact Nat.le_max_left _ _
      · cases h
        exact le_rfl
  | commitDone env =>
    obtain ⟨k, -, rfl⟩ := updateTargetIdx_eq_some h
    exact Nat.le_max_left _ _
  | scan upto =>
    simp only [step] at h
    split at h
    · cases h
      exact le_rfl
    · cases h
  | register idx => cases h; exact le_rfl
  | dropAllPendingCommitElems => cases h; exact le_rfl
  | setCustomCommitQuorumSize size => cases h; exact le_rfl

/-- In every run whose steps are all safe: an index that is looked for is one of the list and not
above the leader's own, a scan completes only requests that the leader has applied, and the target
never falls. -/
theorem notified_only_applied {srv : RaftServer} {as : List Action}
    (hsafe : Runs.AllSteps step Safe { srv := srv } as)
    (hrun : Runs.run step { srv := srv } as = some n) :
    (∀ env, n.srv.QuorumCoversAhead env n.smCommitted →
      ∃ k, n.srv.findSmCommitIdxToNotify env n.smCommitted = some k ∧
        k ∈ n.srv.commitIdxList env n.smCommitted ∧ k ≤ n.srv.smCommitIndex) ∧
    (∀ upto ≤ n.targetIdx, ∀ i ∈ n.scanned upto, i ≤ n.srv.smCommitIndex) ∧
    (∀ bs m, (∀ a ∈ bs, a.isRestart = false) → Runs.run step n bs = some m →
      n.targetIdx ≤ m.targetIdx) := by
  have hle : n.targetIdx ≤ n.srv.smCommitIndex := by
    refine Runs.invariant_of_allSteps (P := Safe)
      (I := fun v => v.targetIdx ≤ v.srv.smCommitIndex) ?_ (Nat.zero_le _) hsafe hrun
    intro v a w hv hs hw
    exact step_target_le_applied hv hs hw
  refine ⟨fun env hcover => findSmCommitIdxToNotify_le hcover, ?_, ?_⟩
  · intro upto hupto i hi
    have hi' : i ≤ upto := of_decide_eq_true (mem_filter.mp hi).2
    exact hi'.trans (hupto.trans hle)
  · intro bs m hno hbs
    clear hle hrun hsafe
    induction bs generalizing n with
    | nil =>
      cases hbs
      exact le_rfl
    | cons a bs ih =>
      obtain ⟨v, hv, hvm⟩ := Runs.run_cons_eq_some.mp hbs
      have hfirst := step_target_mono (hno a mem_cons_self) hv
      have hrest := ih (fun b hb => hno b (.tail _ hb)) hvm
      exact hfirst.trans hrest

end SmNotifier

def trackingLeader (quorum : Int) : RaftServer :=
  { leaderOfThree { customCommitQuorumSize := quorum } 10 5 with smCommitIndex := 3 }

/-- A request waits for index `5`, and peer `2` reports that it has applied index `7`. -/
def peerAhead : List SmNotifier.Action := [.register 5, .heard {} 2 7]

/-- With a quorum size of one the request is answered although the leader has applied index `3`
only; a negative size reads outside the list. -/
theorem notified_before_applied :
    (Runs.run SmNotifier.step { srv := trackingLeader 1 } peerAhead).map
        (fun n => (n.targetIdx, n.scanned n.targetIdx, n.srv.smCommitIndex)) = some (7, [5], 3) ∧
      (trackingLeader (-1)).findSmCommitIdxToNotify {} (fun _ => 0) = none := by
  decide +kernel

/-- With a quorum size of two the request for index `2` is answered, the one for index `5` is not. -/
theorem notified_at_three :
    ∃ n, Runs.run SmNotifier.step { srv := trackingLeader 2 } (.register 2 :: peerAhead) = some n ∧
      n.targetIdx = 3 ∧ n.scanned 3 = [2] ∧ ∀ i ∈ n.scanned 3, i ≤ n.srv.smCommitIndex := by
  have hseen : (Runs.run SmNotifier.step { srv := trackingLeader 2 } (.register 2 :: peerAhead)).map
      (fun n => (n.targetIdx, n.scanned 3)) = some (3, [2]) := by decide +kernel
  obtain ⟨n, hrun, hn⟩ := map_eq_some_iff.mp hseen
  obtain ⟨htarget, hscan⟩ := Prod.mk.inj hn
  have hsafe : Runs.AllSteps SmNotifier.step SmNotifier.Safe { srv := trackingLeader 2 }
      (.register 2 :: peerAhead) := by
    refine ⟨trivial, ?_⟩
    rintro _ ⟨⟩
    refine ⟨trivial, ?_⟩
    rintro _ ⟨⟩
    refine ⟨?_, fun _ _ => trivial⟩
    change QuorumCoversAhead _ _ _
    decide +kernel
  exact ⟨n, hrun, htarget, hscan, (SmNotifier.notified_only_applied hsafe hrun).2.1 3 htarget.symm.le⟩

end Raft
end Xio
