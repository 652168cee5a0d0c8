import Xio.Raft.Replication

/-!
# Raft.LogMatching — equal terms, equal logs

Two servers that hold entries of one term at one index have the same entries below it, in every run
whose steps are coherent: no append request contradicts what a snapshot of its receiver covers, and
no received snapshot is installed over a log that it does not fit. The log of every server is then
a copy of the logs of its leaders (`Replication`), and copies of one leader's log agree.

The condition is needed. A server compares a request with its last snapshot, too, and the snapshot
may be older than the entries that have replaced its last one since.
-/

namespace Xio
namespace Raft

open ReplicatedLog Option

namespace Cluster

variable {v : VotingConfig} {ps : Int → RaftParams} {c c' : Cluster} {x y : Replicas}

def noReplicas : Replicas := ⟨noBallots, fun _ _ => [], fun _ => [], fun _ => [], fun _ _ => 0⟩

theorem init_replicated (v : VotingConfig) (ps : Int → RaftParams) :
    Replicated v ps (init v ps) noReplicas := by
  have hnil : Matches LogEntry.term noReplicas [] := by
    intro p e hp
    simp at hp
  refine ⟨init_voted v ps, ?_, ?_, ?_, ?_⟩
  · have hvoted := (init_voted v ps).2.sound
    refine ⟨hvoted, ?_, ?_, fun _ _ => rfl, fun _ _ => rfl, ?_, fun _ => hnil, fun _ _ => hnil,
      fun _ _ => hnil, ?_, ?_, ?_, fun _ _ => Nat.zero_le _, ?_, fun _ => List.nil_prefix⟩
    · intro t w hl
      cases hl
    · intro t w u hl
      cases hl
    · intro t w hl
      cases hl
    · intro w e he
      cases he
    · intro t _ e he
      cases he
    · intro t w e he
      cases he
    · intro t w hpos
      exact absurd hpos (Nat.lt_irrefl 0)
  · intro i _
    refine ⟨⟨Nat.le_refl 1, rfl, ?_, Nat.le_refl 1, ?_, Nat.le_refl 0⟩, ?_, ?_, ?_, ?_⟩
    · intro snp hsnp
      cases hsnp
    · intro snp hsnp
      cases hsnp
    · intro hl
      cases hl
    · intro hl
      cases hl
    · intro hl
      cases hl
    · intro p hp
      cases hp
  · intro m hm
    cases hm
  · intro m hm
    cases hm

/-! ## Runs -/

section DefaultElection

variable (helect : ∀ i, (ps i).customElectionQuorumSize = 0)
  (hadj : ∀ i, (ps i).autoAdjustQuorumForSmallCluster = false)
include helect hadj

/-- Voters that do not compare logs are enough for the logs to match. -/
theorem run_replicated {as : List Action} (h : Replicated v ps c x)
    (hco : Runs.AllSteps step Coherent c as) (hrun : c.run as = some c') :
    ∃ y, Relation.ReflTransGen (ReplicatedLog.Step LogEntry.term False (voters v)) x y ∧
      Replicated v ps c' y := by
  refine Runs.simulation (P := Coherent) (R := Replicated v ps) ?_ h hco hrun
  intro c a c' x hc hca hstep
  exact step_replicated helect hadj hc hca (fun hf => hf.elim) hstep

/-- Log matching: where two logs have an entry of one term at index `k`, they have the same entries
up to `k`, as far as both still hold them. -/
theorem log_matching {as : List Action} (hco : Runs.AllSteps step Coherent (init v ps) as)
    (hrun : (init v ps).run as = some c) {i j : Int} (hi : i ∈ c.members) (hj : j ∈ c.members)
    {k : Nat} {e e' : LogEntry} (he : (c.srv i).log.entryAt k = some e)
    (he' : (c.srv j).log.entryAt k = some e') (hterm : e.term = e'.term) {l : Nat} (hl : l ≤ k)
    {d d' : LogEntry} (hd : (c.srv i).log.entryAt l = some d)
    (hd' : (c.srv j).log.entryAt l = some d') : d = d' := by
  obtain ⟨x, _, hx⟩ := run_replicated helect hadj (init_replicated v ps) hco hrun
  have hown := (hx.copies.srv i hi).holds
  have hother := (hx.copies.srv j hj).holds
  obtain ⟨hpos, hk⟩ := hown.of_entryAt he
  obtain ⟨_, hk'⟩ := hother.of_entryAt he'
  obtain ⟨hpos', hget⟩ := hown.of_entryAt hd
  obtain ⟨_, hget'⟩ := hother.of_entryAt hd'
  -- both logs are copies of the log of the leader that wrote the entries at `k`
  have htake := (hx.sane.log i).take_eq (hx.sane.log j) hk hk' hterm
  have hsame : (x.log i)[l - 1]? = (x.log j)[l - 1]? := by
    have hlt : l - 1 < k - 1 + 1 := by omega
    calc (x.log i)[l - 1]? = ((x.log i).take (k - 1 + 1))[l - 1]? :=
          (List.getElem?_take_of_lt hlt).symm
      _ = ((x.log j).take (k - 1 + 1))[l - 1]? := by rw [htake]
      _ = (x.log j)[l - 1]? := List.getElem?_take_of_lt hlt
  have hsome : some d = some d' := by
    rwa [← hget, ← hget']
  exact some.inj hsome

end DefaultElection

end Cluster

/-! ## A run that meets the condition -/

/-- Server `1` is elected, appends a client's entry and copies its log to server `2`. -/
def copyToServerTwo : List Cluster.Action :=
  electServerOne ++ [.client 1 {} [[7]], .act 1 {} (.sendAppend 2 false 0), .recvReq 0 {}]

theorem serverTwo_matches :
    ∃ c, (Cluster.init threeVoters (fun _ => {})).run copyToServerTwo = some c ∧
      ∃ d d', (c.srv 1).log.entryAt 1 = some d ∧ (c.srv 2).log.entryAt 1 = some d' ∧ d = d' := by
  have hco : Runs.AllSteps Cluster.step Cluster.Coherent
      (Cluster.init threeVoters (fun _ => {})) copyToServerTwo := by
    decide +kernel
  have hlogs : ((Cluster.init threeVoters (fun _ => {})).run copyToServerTwo).map (fun c =>
      (decide (1 ∈ c.members ∧ 2 ∈ c.members),
        ((c.srv 1).log.entryAt 2).map LogEntry.term, ((c.srv 2).log.entryAt 2).map LogEntry.term,
        ((c.srv 1).log.entryAt 1).map LogEntry.term, ((c.srv 2).log.entryAt 1).map LogEntry.term)) =
      some (true, some 1, some 1, some 1, some 1) := by
    decide +kernel
  obtain ⟨c, hrun, heq⟩ := map_eq_some_iff.mp hlogs
  simp only [Prod.mk.injEq, decide_eq_true_eq, map_eq_some_iff] at heq
  obtain ⟨⟨h₁, h₂⟩, ⟨e, he, hterm⟩, ⟨e', he', hterm'⟩, ⟨d, hd, _⟩, d', hd', _⟩ := heq
  exact ⟨c, hrun, d, d', hd, hd', Cluster.log_matching (fun _ => rfl) (fun _ => rfl) hco hrun h₁ h₂
    he he' (hterm.trans hterm'.symm) (by decide) hd hd'⟩

/-! ## An old snapshot -/

def fiveVoters : VotingConfig where
  config := { servers := [{ id := 1 }, { id := 2 }, { id := 3 }, { id := 4 }, { id := 5 }] }
  nodup := by decide
  nonempty := by decide
  voting := by decide
  ids := by decide

/-- Server `1` commits the entry of term `1` in term `3` and takes a snapshot of it. Server `5`,
leader of term `4`, replaces that entry by its own of term `2`. Server `3`, leader of term `5`, still
has the entry of term `1`, and its next entry is accepted by server `1` on the strength of the
snapshot. -/
def outdatedSnapshot : List Cluster.Action :=
  let timeout (i : Int) : Cluster.Action := .act i {} .electionTimeout
  let send (i j : Int) : Cluster.Action := .act i {} (.sendAppend j false 0)
  let req (k : Nat) : Cluster.Action := .recvReq k {}
  let resp : Cluster.Action := .recvResp 0 {}
  -- server 1 leads term 1, server 5 leads term 2, server 1 leads term 3
  [timeout 1, req 0, resp, req 0, resp, req 0, resp, req 0, resp, req 1] ++
  [timeout 5, req 3, resp, req 1, resp, req 3, resp, req 1, resp, req 0] ++
  [timeout 1, req 0, resp, req 0, resp, req 0, resp, req 0, resp] ++
  -- its first entry reaches servers 2 and 3, is committed, applied and in a snapshot
  [send 1 2, req 0, resp, send 1 2, req 0, resp, send 1 3, req 0, resp, send 1 3, req 0, resp] ++
  [.act 1 {} .commitNext, .act 1 {} (.createSnapshot true), .act 1 {} (.snapshotCompleted true)] ++
  -- server 5 leads term 4 and writes its log to server 1
  [req 1, timeout 2, timeout 5, req 3, resp, req 1, resp, req 3, resp, req 1, resp] ++
  [send 5 1, req 0, resp, send 5 1, req 0, resp] ++
  -- server 3 leads term 5
  [req 1, timeout 3, req 1, resp, req 1, resp, req 1, resp, req 1, resp, send 3 1, req 0]

theorem outdatedSnapshot_breaks_matching :
    ∃ c, (Cluster.init fiveVoters (fun _ => { maxAppendSize := 1 })).run outdatedSnapshot = some c ∧
      1 ∈ c.members ∧ 3 ∈ c.members ∧ ∃ e e' d d',
        (c.srv 1).log.entryAt 2 = some e ∧ (c.srv 3).log.entryAt 2 = some e' ∧ e.term = e'.term ∧
        (c.srv 1).log.entryAt 1 = some d ∧ (c.srv 3).log.entryAt 1 = some d' ∧ d.term ≠ d'.term := by
  have hlogs : ((Cluster.init fiveVoters (fun _ => { maxAppendSize := 1 })).run
      outdatedSnapshot).map (fun c => (decide (1 ∈ c.members ∧ 3 ∈ c.members),
        ((c.srv 1).log.entryAt 2).map LogEntry.term, ((c.srv 3).log.entryAt 2).map LogEntry.term,
        ((c.srv 1).log.entryAt 1).map LogEntry.term, ((c.srv 3).log.entryAt 1).map LogEntry.term)) =
      some (true, some 5, some 5, some 2, some 1) := by
    decide +kernel
  obtain ⟨c, hrun, heq⟩ := map_eq_some_iff.mp hlogs
  simp only [Prod.mk.injEq, decide_eq_true_eq, map_eq_some_iff] at heq
  obtain ⟨⟨h₁, h₃⟩, ⟨e, he, hterm⟩, ⟨e', he', hterm'⟩, ⟨d, hd, hd₂⟩, d', hd', hd₁⟩ := heq
  refine ⟨c, hrun, h₁, h₃, e, e', d, d', he, he', hterm.trans hterm'.symm, hd, hd', ?_⟩
  rw [hd₂, hd₁]
  decide

end Raft
end Xio
