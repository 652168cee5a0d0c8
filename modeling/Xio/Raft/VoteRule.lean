import Xio.Raft.Process

/-!
# Raft.VoteRule — the up-to-date check of a vote

A voter must not vote for a candidate whose log is behind its own. The candidate describes its
log with `termForLog`, which falls back to the last snapshot; the voter reads its own last entry
from the log store, which has nothing to fall back to. The two descriptions agree as long as the
log holds an entry, and part ways once a snapshot covers the whole log.
-/

namespace Xio
namespace Raft

open RaftServer LogStore

/-- Log and last snapshot fit together where `last_entry` and `term_for_log` look at both. -/
structure LogShape (s : RaftServer) : Prop where
  /-- Nothing was dropped before the first snapshot. -/
  start_of_none : s.lastSnapshot = none → s.log.startIndex = 1
  snapshot_pos : ∀ snp, s.lastSnapshot = some snp → 1 ≤ snp.lastLogIdx ∧ 1 ≤ snp.lastLogTerm
  /-- An empty log starts right behind the snapshot. -/
  start_of_empty : ∀ snp, s.lastSnapshot = some snp → s.log.entries = [] →
    s.log.startIndex = snp.lastLogIdx + 1

namespace RaftServer

variable (s : RaftServer)

/-- Term and index of the last entry, or of the last entry that the snapshot covers. -/
def ownPosition : Nat × Nat :=
  match s.log.lastEntry with
  | some e => (e.term, s.log.nextSlot - 1)
  | none => s.lastSnapshot.elim (0, 0) (fun snp => (snp.lastLogTerm, snp.lastLogIdx))

/-- The position `(term, idx)` is at least this server's own one. -/
def BehindOf (term idx : Nat) : Prop :=
  s.ownPosition.1 < term ∨ s.ownPosition.1 = term ∧ s.ownPosition.2 ≤ idx

/-- Every vote that is granted goes to a candidate that is not behind, and the server's own vote
requests carry its own position. -/
def VoteRule : Prop :=
  (∀ env req force, req.body = .requestVote force → s.state.term ≤ req.term →
    ∀ t o r, s.processReq env req = some (t, o) → o.resp = some r → r.accepted = true →
      s.BehindOf req.lastLogTerm req.lastLogIdx) ∧
  (∀ env force m, m ∈ (s.requestVote env force).2 → (m.lastLogTerm, m.lastLogIdx) = s.ownPosition)

variable {s}

/-! ## The candidate's side -/

theorem lastEntry_eq_none_iff : s.log.lastEntry = none ↔ s.log.entries = [] := by
  unfold lastEntry entryAt nextSlot
  cases h : s.log.entries with
  | nil =>
    simp
  | cons e es =>
    have hlt : ¬ s.log.startIndex + (e :: es).length - 1 < s.log.startIndex := by
      simp
    simp

/-- `termForLog` of the last index describes the last entry, also when only the snapshot has it. -/
theorem termForLog_last (h : LogShape s) :
    (s.termForLog (s.log.nextSlot - 1), s.log.nextSlot - 1) = s.ownPosition := by
  have hpos := s.log.start_pos
  unfold ownPosition
  cases he : s.log.lastEntry with
  | some e =>
    have hidx := entryAt_eq_some_iff.mp he
    have hne : s.log.nextSlot - 1 ≠ 0 := by omega
    rw [termForLog, if_neg hne, if_pos hidx.1, termAt_of_entryAt he]
  | none =>
    have hnil := lastEntry_eq_none_iff.mp he
    have hnext : s.log.nextSlot = s.log.startIndex := by
      simp [nextSlot, hnil]
    unfold termForLog
    cases hs : s.lastSnapshot with
    | none =>
      have hone := h.start_of_none hs
      simp [hnext, hone]
    | some snp =>
      -- the snapshot ends exactly where the empty log starts
      have hle := h.start_of_empty snp hs hnil
      have hidx := h.snapshot_pos snp hs
      have hlast : s.log.nextSlot - 1 = snp.lastLogIdx := by omega
      have hne : ¬ snp.lastLogIdx = 0 := by omega
      have hlt : ¬ s.log.startIndex ≤ snp.lastLogIdx := by omega
      simp [hlast, hne, hlt]

theorem requestVote_position (h : LogShape s) (env : Env) (force : Bool) :
    ∀ m ∈ (s.requestVote env force).2, (m.lastLogTerm, m.lastLogIdx) = s.ownPosition := by
  intro m hm
  have hpos := termForLog_last h
  dsimp only [requestVote] at hm
  split at hm
  · simp at hm
  · obtain ⟨p, _, rfl⟩ := List.mem_map.mp hm
    exact hpos

/-! ## The voter's side -/

/-- With an entry in the log, or without a snapshot, the voter compares with its own position. -/
theorem lastEntryTerm_eq (h : LogShape s) (hlog : s.log.entries ≠ [] ∨ s.lastSnapshot = none) :
    (s.log.lastEntryTerm, s.log.nextSlot - 1) = s.ownPosition := by
  unfold lastEntryTerm ownPosition
  cases he : s.log.lastEntry with
  | some e => rfl
  | none =>
    have hnil := lastEntry_eq_none_iff.mp he
    rcases hlog with hne | hs
    · exact absurd hnil hne
    · have hone := h.start_of_none hs
      simp [hs, nextSlot, hnil, hone]

theorem voteLogOkay_of_accepted {req : ReqMsg} {force : Bool}
    (h : (s.handleVoteReq req force).2.accepted = true) : s.voteLogOkay req = true := by
  unfold handleVoteReq at h
  split at h
  · rename_i hg
    simp only [grantsVote, Bool.and_eq_true] at hg
    exact hg.1.1.2
  · simp at h

theorem behindOf_of_voteLogOkay (h : LogShape s)
    (hlog : s.log.entries ≠ [] ∨ s.lastSnapshot = none) {req : ReqMsg}
    (hok : s.voteLogOkay req = true) : s.BehindOf req.lastLogTerm req.lastLogIdx := by
  have hpos := lastEntryTerm_eq h hlog
  rw [BehindOf, ← hpos]
  simp only [voteLogOkay, Bool.or_eq_true, decide_eq_true_eq, Bool.and_eq_true, beq_iff_eq] at hok
  rcases hok with hlt | ⟨heq, hle⟩
  · exact .inl hlt
  · exact .inr ⟨heq.symm, hle⟩

/-- Where the log is empty below a snapshot, a forced request one entry short of the snapshot is
granted. -/
theorem exists_stale_vote (h : LogShape s) (hlog : s.log.entries = []) {snp : Snapshot}
    (hs : s.lastSnapshot = some snp) :
    ∃ env req force t o r, req.body = ReqBody.requestVote force ∧ s.state.term ≤ req.term ∧
      s.processReq env req = some (t, o) ∧ o.resp = some r ∧ r.accepted = true ∧
      ¬ s.BehindOf req.lastLogTerm req.lastLogIdx := by
  have hpos := h.snapshot_pos snp hs
  let req : ReqMsg :=
    { term := s.state.term + 1
      src := 0
      dst := s.id
      lastLogTerm := snp.lastLogTerm
      lastLogIdx := snp.lastLogIdx - 1
      commitIdx := 0
      body := .requestVote true }
  have hterm : (s.updateTermOnReq req).state.term = s.state.term + 1 := by
    simp [updateTermOnReq, updateTerm, req]
  have hvote : (s.updateTermOnReq req).state.votedFor = -1 := by
    simp [updateTermOnReq, updateTerm, req]
  have hbody : req.body = .requestVote true := rfl
  have hl : (s.updateTermOnReq req).log = s.log := by simp
  -- the store answers with term zero, which any candidate beats
  have hzero : (s.updateTermOnReq req).log.lastEntryTerm = 0 := by
    have hnone : s.log.lastEntry = none := lastEntry_eq_none_iff.mpr hlog
    simp [lastEntryTerm, hnone]
  have hok : (s.updateTermOnReq req).voteLogOkay req = true := by
    rw [voteLogOkay, hzero]
    have : 0 < snp.lastLogTerm := hpos.2
    simp [req, this]
  have hacc : ((s.updateTermOnReq req).handleVoteReq req true).2.accepted = true := by
    rw [handleVoteReq, if_pos]
    · rfl
    · simp [grantsVote, hok, hvote, hterm, req]
  refine ⟨{}, req, true, _, _, _, rfl, Nat.le_succ _, processReq_vote _ hbody, rfl, hacc, ?_⟩
  have hnone : s.log.lastEntry = none := lastEntry_eq_none_iff.mpr hlog
  have hown : s.ownPosition = (snp.lastLogTerm, snp.lastLogIdx) := by
    simp [ownPosition, hnone, hs]
  rw [BehindOf, hown]
  simp only [req]
  omega

/-- The rule holds in exactly the states whose log holds an entry or that have no snapshot. -/
theorem voteRule_iff (h : LogShape s) :
    s.VoteRule ↔ s.log.entries ≠ [] ∨ s.lastSnapshot = none := by
  constructor
  · intro hrule
    by_contra hcon
    obtain ⟨hnil, hsome⟩ := not_or.mp hcon
    obtain ⟨snp, hs⟩ := Option.ne_none_iff_exists'.mp hsome
    rcases exists_stale_vote h (not_not.mp hnil) hs with
      ⟨env, req, force, t, o, r, hb, hle, hreq, hr, hacc, hbad⟩
    exact hbad (hrule.1 env req force hb hle t o r hreq hr hacc)
  · intro hlog
    refine ⟨?_, fun env force => requestVote_position h env force⟩
    intro env req force hb _ t o r hreq hr hacc
    rw [processReq_vote env hb] at hreq
    cases hreq
    cases hr
    have hok := voteLogOkay_of_accepted hacc
    have hlog' : (s.updateTermOnReq req).log = s.log := by simp
    have hok' : s.voteLogOkay req = true := by
      unfold voteLogOkay at hok ⊢
      rwa [hlog'] at hok
    exact behindOf_of_voteLogOkay h hlog hok'

end RaftServer

/-! ## A voter whose log was compacted away -/

/-- A voter of term `2` that installed a snapshot up to index `5` and has no entry after it. -/
def compactedVoter : RaftServer :=
  { id := 1
    peers := [{ config := { id := 2 } }, { config := { id := 3 } }]
    config := { servers := [{ id := 1 }, { id := 2 }, { id := 3 }] }
    state := { term := 2 }
    savedState := { term := 2 }
    log := ⟨6, [], Nat.succ_pos 5⟩
    lastSnapshot := some ⟨5, 2, { servers := [{ id := 1 }, { id := 2 }, { id := 3 }] }⟩ }

/-- A candidate of term `3` whose log ends at index `1` of term `1`. -/
def staleCandidateReq : ReqMsg :=
  { term := 3
    src := 2
    dst := 1
    lastLogTerm := 1
    lastLogIdx := 1
    commitIdx := 0
    body := .requestVote false }

/-- The voter grants its vote although its own position `(2, 5)` is ahead of `(1, 1)`. -/
theorem compactedVoter_votes_for_stale : (compactedVoter.processReq {} staleCandidateReq).map
        (fun r => r.2.resp.map (fun m => (m.term, m.accepted))) = some (some (3, true)) ∧
      compactedVoter.ownPosition = (2, 5) ∧
      (staleCandidateReq.lastLogTerm, staleCandidateReq.lastLogIdx) = (1, 1) ∧
      ¬ compactedVoter.VoteRule := by
  refine ⟨by decide +kernel, by decide, by decide, ?_⟩
  intro hrule
  have hbody : staleCandidateReq.body = .requestVote false := rfl
  have hreq := processReq_vote (s := compactedVoter) {} hbody
  have hbad := hrule.1 {} staleCandidateReq false rfl (by decide) _ _ _ hreq rfl (by decide +kernel)
  revert hbad
  unfold BehindOf
  decide

/-- The voter before the compaction that dropped its last entry. -/
def fullVoter : RaftServer :=
  { compactedVoter with
    log := ⟨1, [⟨1, .appLog []⟩, ⟨1, .appLog []⟩, ⟨1, .appLog []⟩, ⟨2, .appLog []⟩,
      ⟨2, .appLog []⟩], Nat.one_pos⟩ }

theorem fullVoter_shape : LogShape fullVoter where
  start_of_none := by intro h; cases h
  snapshot_pos := by intro snp h; cases h; decide
  start_of_empty := by intro snp h hnil; cases hnil

theorem fullVoter_voteRule : LogShape fullVoter ∧ fullVoter.VoteRule :=
  ⟨fullVoter_shape, (voteRule_iff fullVoter_shape).mpr (.inl (by decide))⟩

end Raft
end Xio
