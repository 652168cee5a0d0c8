import Xio.Lib.OrderStatistic
import Xio.Raft.AppendEntries

/-!
# Raft.CommitRule — which index a leader may commit

`get_expected_committed_log_idx` sorts the indices of all voting members and reads one position.
Two options move that position: full consensus takes the unhealthy peers off its count, and
`exclude_snp_receiver_from_quorum_` takes the snapshot receivers off. Neither takes them off the
list, so an excluded peer that is ahead of a counted one fills the place of the counted one.

Both conditions are exact, and both are counts of the members past an index:

- full consensus: fewer unhealthy peers are past the least index of the healthy members than
  healthy members stand at it
- snapshot receivers: not more members than the position are past the index that a majority of the
  counted members has
-/

namespace Xio
namespace Raft
namespace RaftServer

open List

variable {s : RaftServer} {env : Env}

/-! ## The list of indices -/

def votingPeers (s : RaftServer) : List Peer := s.peers.filter s.isRegularMember

/-- How many of the given peers have matched index `k`. -/
def matchedBy (ps : List Peer) (k : Nat) : Nat := ps.countP (fun p => decide (k ≤ p.matchedIdx))

theorem matchedIndexes_length : (s.matchedIndexes env).length = s.votingPeers.length + 1 := by
  simp [matchedIndexes, votingPeers]

theorem matchedIndexes_countP (k : Nat) : (s.matchedIndexes env).countP (fun x => decide (k ≤ x)) =
      matchedBy s.votingPeers k + if k ≤ s.getCurrentLeaderIndex env then 1 else 0 := by
  simp [matchedIndexes, matchedBy, votingPeers, countP_cons, countP_map, Function.comp_def]

theorem getNumVotingMembers_eq (hvoter : s.imLearner = false) :
    s.getNumVotingMembers = s.votingPeers.length + 1 := by
  simp [getNumVotingMembers, votingPeers, hvoter]

theorem getNumVotingMembers_le : s.getNumVotingMembers ≤ s.votingPeers.length + 1 := by
  unfold getNumVotingMembers votingPeers
  split <;> omega

/-- What the returned index has behind it: more members than the position it was read from. -/
theorem lt_matched_of_commitQuorumIdx (hidx : s.commitQuorumIdx env < s.votingPeers.length + 1) :
    s.commitQuorumIdx env < matchedBy s.votingPeers (s.getExpectedCommittedLogIdx env) +
      if s.getExpectedCommittedLogIdx env ≤ s.getCurrentLeaderIndex env then 1 else 0 := by
  have hlen : (s.matchedIndexes env).length = s.votingPeers.length + 1 := matchedIndexes_length
  rw [← matchedIndexes_countP]
  exact OrderStatistic.lt_countP_getD (by rw [hlen]; exact hidx) 0

/-- How many of the leader and the voting peers are past index `k`. -/
def ahead (s : RaftServer) (env : Env) (k : Nat) : Nat :=
  (s.matchedIndexes env).countP (fun x => decide (k < x))

/-- An index is passed if more members are past it than the position that is read. -/
theorem lt_getExpectedCommittedLogIdx_iff (hidx : s.commitQuorumIdx env < s.votingPeers.length + 1)
    (k : Nat) : k < s.getExpectedCommittedLogIdx env ↔ s.commitQuorumIdx env < s.ahead env k :=
  OrderStatistic.le_getD_iff (by rw [matchedIndexes_length]; exact hidx) (k + 1) 0

/-! ## Full consensus among healthy members -/

/-- The index below which full consensus takes a peer for lagging. -/
def allowedLogIndex (s : RaftServer) : Nat := s.quickCommitIndex - s.params.maxAppendSize

def isHealthy (s : RaftServer) (env : Env) (p : Peer) : Bool :=
  !p.isExcludedFromQuorum env s.allowedLogIndex

def healthyPeers (s : RaftServer) (env : Env) : List Peer := s.votingPeers.filter (s.isHealthy env)

/-- The indices of the members that full consensus counts. -/
def healthyIndexes (s : RaftServer) (env : Env) : List Nat :=
  s.getCurrentLeaderIndex env :: (s.healthyPeers env).map Peer.matchedIdx

theorem healthyIndexes_ne_nil : s.healthyIndexes env ≠ [] := cons_ne_nil _ _

def leastHealthy (s : RaftServer) (env : Env) : Nat :=
  (s.healthyIndexes env).min healthyIndexes_ne_nil

/-- How many unhealthy peers are past the least healthy index. -/
def unhealthyAhead (s : RaftServer) (env : Env) : Nat :=
  (s.votingPeers.filter (fun p => !s.isHealthy env p)).countP
    (fun p => decide (s.leastHealthy env < p.matchedIdx))

/-- How many healthy members, the leader included, stand at the least healthy index. -/
def healthyLast (s : RaftServer) (env : Env) : Nat :=
  (s.healthyIndexes env).count (s.leastHealthy env)

theorem healthy_add_notResponding :
    (s.healthyPeers env).length + s.getNotRespondingPeersCount env s.allowedLogIndex =
      s.votingPeers.length := by
  have hsplit := length_eq_length_filter_add (l := s.votingPeers) (s.isHealthy env)
  have hrest : s.getNotRespondingPeersCount env s.allowedLogIndex =
      (s.votingPeers.filter (fun p => !s.isHealthy env p)).length := by
    simp [getNotRespondingPeersCount, votingPeers, isHealthy, filter_filter, Bool.and_comm]
  rw [hrest]
  exact hsplit.symm

theorem le_leastHealthy_iff {k : Nat} : k ≤ s.leastHealthy env ↔
    (∀ p ∈ s.healthyPeers env, k ≤ p.matchedIdx) ∧ k ≤ s.getCurrentLeaderIndex env := by
  rw [leastHealthy, List.le_min_iff, healthyIndexes, forall_mem_cons, forall_mem_map, and_comm]

theorem ahead_eq (k : Nat) : s.ahead env k = (s.healthyIndexes env).countP (fun x => decide (k < x)) +
      (s.votingPeers.filter (fun p => !s.isHealthy env p)).countP
        (fun p => decide (k < p.matchedIdx)) := by
  have hsplit := countP_eq_countP_filter_add s.votingPeers
    (fun p => decide (k < p.matchedIdx)) (s.isHealthy env)
  simp only [ahead, matchedIndexes, healthyIndexes, countP_cons, countP_map, Function.comp_def]
  rw [← votingPeers, hsplit, healthyPeers]
  omega

/-- All healthy members are past the least healthy index but those that stand at it. -/
theorem ahead_leastHealthy : s.ahead env (s.leastHealthy env) + s.healthyLast env =
    (s.healthyPeers env).length + 1 + s.unhealthyAhead env := by
  have hlast : s.healthyLast env =
      (s.healthyIndexes env).countP (fun x => !decide (s.leastHealthy env < x)) := by
    refine countP_congr (fun x hx => ?_)
    have hle : s.leastHealthy env ≤ x := min_le_of_mem hx
    simp only [beq_iff_eq, Bool.not_eq_true', decide_eq_false_iff_not]
    omega
  have hsplit := length_eq_countP_add_countP (fun x => decide (s.leastHealthy env < x))
    (l := s.healthyIndexes env)
  have hlen : (s.healthyIndexes env).length = (s.healthyPeers env).length + 1 := by
    simp [healthyIndexes]
  rw [ahead_eq, hlast, unhealthyAhead, ← hlen, hsplit]
  simp only [Bool.decide_eq_false, Bool.not_eq_true]
  omega

theorem getQuorumForCommit_le_half (hcustom : s.params.customCommitQuorumSize = 0) :
    s.getQuorumForCommit ≤ s.getNumVotingMembers / 2 := by
  rw [getQuorumForCommit, if_pos (.inl hcustom.le)]
  exact Nat.div_le_div_right (Nat.sub_le _ _)

/-- The position of full consensus: all healthy peers, but never fewer than a quorum. -/
theorem commitQuorumIdx_fullConsensus (hfull : s.params.useFullConsensusAmongHealthyMembers = true)
    (hcustom : s.params.customCommitQuorumSize = 0) (hvoter : s.imLearner = false) :
    s.commitQuorumIdx env = max (s.healthyPeers env).length s.getQuorumForCommit := by
  have hN := getNumVotingMembers_eq hvoter
  have hsplit : (s.healthyPeers env).length +
      s.getNotRespondingPeersCount env (s.quickCommitIndex - s.params.maxAppendSize) =
        s.votingPeers.length := healthy_add_notResponding
  rw [commitQuorumIdx, if_pos ⟨hfull, hcustom⟩]
  dsimp only
  split <;> omega

/-- A new commit index has all healthy members behind it, and there are enough of them for a regular
quorum, exactly if nothing new is committed, or if they are enough and the unhealthy peers that are
past their least index are fewer than those that stand at it. -/
theorem fullConsensus_commit (hfull : s.params.useFullConsensusAmongHealthyMembers = true)
    (hcustom : s.params.customCommitQuorumSize = 0) (hvoter : s.imLearner = false) :
    (s.quickCommitIndex < s.getExpectedCommittedLogIdx env →
      (∀ p ∈ s.healthyPeers env, s.getExpectedCommittedLogIdx env ≤ p.matchedIdx) ∧
        s.getExpectedCommittedLogIdx env ≤ s.getCurrentLeaderIndex env ∧
        s.getQuorumForCommit + 1 ≤ (s.healthyPeers env).length + 1) ↔
      s.ahead env s.quickCommitIndex ≤ max (s.healthyPeers env).length s.getQuorumForCommit ∨
        s.getQuorumForCommit ≤ (s.healthyPeers env).length ∧
          s.unhealthyAhead env < s.healthyLast env := by
  have hN := getNumVotingMembers_eq hvoter
  have hidx : s.commitQuorumIdx env = _ := commitQuorumIdx_fullConsensus hfull hcustom hvoter
  have hhealthy : (s.healthyPeers env).length ≤ s.votingPeers.length := length_filter_le _ _
  have hquorum := getQuorumForCommit_le_half hcustom
  have hpast (k : Nat) : k < s.getExpectedCommittedLogIdx env ↔ _ :=
    lt_getExpectedCommittedLogIdx_iff (by omega) k
  have hnew := hpast s.quickCommitIndex
  have hleast := hpast (s.leastHealthy env)
  have hsum : s.ahead env (s.leastHealthy env) + _ = _ := ahead_leastHealthy
  -- all healthy members have the index if it is not past their least one, which is a count again
  rw [← and_assoc, ← le_leastHealthy_iff]
  rw [hidx] at hnew hleast
  omega

end RaftServer

def leaderOfThree (params : RaftParams) (two three : Nat) : RaftServer :=
  { id := 1
    params := params
    role := .leader
    peers := [{ config := { id := 2 }, matchedIdx := two },
      { config := { id := 3 }, matchedIdx := three }]
    quickCommitIndex := 3
    precommitIndex := 10
    config := { servers := [{ id := 1 }, { id := 2 }, { id := 3 }] } }

def fullConsensus : RaftParams := { useFullConsensusAmongHealthyMembers := true }

/-- A silent peer ahead of the healthy one hides it; with both silent the leader commits on a
minority of healthy members. -/
theorem fullConsensus_ignores_healthy :
    ((leaderOfThree fullConsensus 10 5).healthyPeers { notResponding := [2] }).map Peer.matchedIdx = [5] ∧
      (leaderOfThree fullConsensus 10 5).getExpectedCommittedLogIdx { notResponding := [2] } = 10 ∧
      (leaderOfThree fullConsensus 10 5).healthyPeers { notResponding := [2, 3] } = [] ∧
      (leaderOfThree fullConsensus 10 5).getQuorumForCommit = 1 ∧
      (leaderOfThree fullConsensus 10 5).getExpectedCommittedLogIdx { notResponding := [2, 3] } = 10 := by
  decide

theorem fullConsensus_commits_five :
    (leaderOfThree fullConsensus 2 5).getExpectedCommittedLogIdx { notResponding := [2] } = 5 ∧
      ∀ p ∈ (leaderOfThree fullConsensus 2 5).healthyPeers { notResponding := [2] },
        (leaderOfThree fullConsensus 2 5).getExpectedCommittedLogIdx { notResponding := [2] } ≤
          p.matchedIdx :=
  ⟨by decide, ((RaftServer.fullConsensus_commit rfl rfl rfl).mpr (by decide) (by decide)).1⟩

namespace RaftServer

variable {s : RaftServer} {env : Env}

/-! ## Members that receive a snapshot -/

def isReceiver (s : RaftServer) (p : Peer) : Bool :=
  s.params.excludeSnpReceiverFromQuorum && p.snpSyncCtx.isSome

def countedPeers (s : RaftServer) : List Peer := s.votingPeers.filter (fun p => !s.isReceiver p)

/-- More than half of the leader and the counted peers have index `k`. -/
def MajorityMatched (s : RaftServer) (k : Nat) : Prop :=
  s.countedPeers.length + 1 <
    2 * (matchedBy s.countedPeers k + if k ≤ s.precommitIndex then 1 else 0)

/-- The highest index that more than half of the leader and the counted peers have. -/
def majorityIndex (s : RaftServer) : Nat :=
  ((s.precommitIndex :: s.countedPeers.map Peer.matchedIdx).insertionSort (· ≥ ·)).getD
    ((s.countedPeers.length + 1) / 2) 0

theorem majorityMatched_iff {k : Nat} : s.MajorityMatched k ↔ k ≤ s.majorityIndex := by
  have hsort := OrderStatistic.le_getD_iff
    (l := s.precommitIndex :: s.countedPeers.map Peer.matchedIdx)
    (k := (s.countedPeers.length + 1) / 2) (by simp; omega) k 0
  rw [majorityIndex, hsort, MajorityMatched, matchedBy, List.countP_cons,
    List.countP_map]
  simp only [Function.comp_def, decide_eq_true_eq]
  omega

theorem getCurrentLeaderIndex_le : s.getCurrentLeaderIndex env ≤ s.precommitIndex := by
  unfold getCurrentLeaderIndex
  split
  · exact Nat.min_le_left _ _
  · exact le_rfl

/-- Without the option every voting peer counts, and the position is right in every state. -/
theorem ahead_majorityIndex_le (hcustom : s.params.customCommitQuorumSize = 0)
    (hvoter : s.imLearner = false) (hoff : s.params.excludeSnpReceiverFromQuorum = false) :
    s.ahead env s.majorityIndex ≤ s.getQuorumForCommit := by
  have hcounted : s.countedPeers = s.votingPeers := by simp [countedPeers, isReceiver, hoff]
  have hquorum : s.getQuorumForCommit = (s.votingPeers.length + 1) / 2 := by
    rw [getQuorumForCommit, if_pos (.inl hcustom.le), hoff, getNumVotingMembers_eq hvoter]
    rfl
  have hnot : ¬ s.MajorityMatched (s.majorityIndex + 1) := by
    rw [majorityMatched_iff]
    omega
  have hcount : s.ahead env s.majorityIndex = _ := matchedIndexes_countP (s.majorityIndex + 1)
  have hle : s.getCurrentLeaderIndex env ≤ s.precommitIndex := getCurrentLeaderIndex_le
  rw [MajorityMatched, hcounted] at hnot
  rw [hcount, hquorum]
  split at hnot <;> split <;> omega

/-- The position is inside the list, and the index read there has a majority of the counted members
behind it exactly if not more members than the position are past the index of that majority.
Without the option this is so in every state. -/
theorem commit_matched_by_majority (hcustom : s.params.customCommitQuorumSize = 0)
    (hfull : s.params.useFullConsensusAmongHealthyMembers = false) :
    s.commitQuorumIdx env < (s.matchedIndexes env).length ∧
      (s.MajorityMatched (s.getExpectedCommittedLogIdx env) ↔
        s.ahead env s.majorityIndex ≤ s.getQuorumForCommit) ∧
      (s.imLearner = false → s.params.excludeSnpReceiverFromQuorum = false →
        s.MajorityMatched (s.getExpectedCommittedLogIdx env)) := by
  have hidx : s.commitQuorumIdx env = s.getQuorumForCommit := by
    simp [commitQuorumIdx, hfull]
  have hinside : s.commitQuorumIdx env < s.votingPeers.length + 1 := by
    have hN : s.getNumVotingMembers ≤ s.votingPeers.length + 1 := getNumVotingMembers_le
    have hquorum := getQuorumForCommit_le_half hcustom
    omega
  have hexact : s.MajorityMatched (s.getExpectedCommittedLogIdx env) ↔
      s.ahead env s.majorityIndex ≤ s.getQuorumForCommit := by
    rw [majorityMatched_iff, ← not_lt, lt_getExpectedCommittedLogIdx_iff hinside, hidx, not_lt]
  refine ⟨by rw [matchedIndexes_length]; exact hinside, hexact, ?_⟩
  intro hvoter hoff
  exact hexact.mpr (ahead_majorityIndex_le hcustom hvoter hoff)

end RaftServer

def excludeReceivers : RaftParams := { excludeSnpReceiverFromQuorum := true }

/-- The given peer receives a snapshot of index `1`. -/
def sendingSnapshot (s : RaftServer) (id : Int) : RaftServer :=
  s.updatePeer id (fun p => { p with snpSyncCtx := some ⟨⟨1, 1, s.config⟩, 0⟩ })

/-- The receiver `2` is ahead of the counted peer `3`, so its index is returned although only the
leader has it of the two counted members. -/
theorem receiver_counts_for_majority :
    (sendingSnapshot (leaderOfThree excludeReceivers 10 5) 2).countedPeers.map Peer.id = [3] ∧
      (sendingSnapshot (leaderOfThree excludeReceivers 10 5) 2).getExpectedCommittedLogIdx {} = 10 ∧
      ¬ (sendingSnapshot (leaderOfThree excludeReceivers 10 5) 2).MajorityMatched 10 := by
  unfold RaftServer.MajorityMatched
  decide

theorem receiver_behind_majority :
    (sendingSnapshot (leaderOfThree excludeReceivers 5 7) 2).MajorityMatched
      ((sendingSnapshot (leaderOfThree excludeReceivers 5 7) 2).getExpectedCommittedLogIdx {}) :=
  (RaftServer.commit_matched_by_majority rfl rfl).2.1.mpr (by decide)

end Raft
end Xio
