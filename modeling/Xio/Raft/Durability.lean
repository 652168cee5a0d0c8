import Xio.Raft.Safety

/-!
# Raft.Durability — what the servers of a fixed cluster have in common

The run of a cluster is an execution of `ReplicatedLog`. What that says of the members' logs is said
here of the servers and of the messages between them.

- `leader_has_its_term`: the entries of a term, in other logs or on their way, are its leader's
- `matched_agrees`: what a leader believes of a peer is true while the peer is in its term
- `committed_durable`: committed entries stay where they are, and a majority has them
-/

namespace Xio
namespace Raft
namespace Cluster

open Voting ReplicatedLog List Option RaftServer

variable {v : VotingConfig} {ps : Int → RaftParams} {c c₁ c₂ : Cluster} {i : Int}
  {as bs : List Action} {k : Nat} {e : LogEntry}

theorem Fixed.mem_members (h : Fixed v ps c) : i ∈ c.members ↔ i ∈ voters v := by
  rw [h.members]
  exact List.mem_toFinset.symm

def threeServers : Cluster :=
  init threeVoters fun _ => {}

theorem commitWithTwo_ends :
    ∃ c ∈ threeServers.run commitWithTwo, (1 ∈ c.members ∧ 2 ∈ c.members) ∧
      ((c.srv 1).role = .leader ∧ (c.srv 2).state.term = (c.srv 1).state.term) ∧
      (∃ p ∈ (c.srv 1).peers, p.id = 2 ∧ p.matchedIdx = 2) ∧
      ((c.srv 1).log.entryAt 2).isSome ∧ (c.srv 1).quickCommitIndex = 2 := by
  decide +kernel

/-- Entries of a leader's term, in whatever log they are, and the entries of the append requests of
that term that are on their way, are entries of the leader's log, in their places. -/
theorem leader_has_its_term (helect : ∀ i, (ps i).customElectionQuorumSize = 0)
    (hadj : ∀ i, (ps i).autoAdjustQuorumForSmallCluster = false)
    (hco : Runs.AllSteps step Coherent (init v ps) as) (hrun : (init v ps).run as = some c)
    (hi : i ∈ c.members) (hrole : (c.srv i).role = .leader) :
    (∀ j ∈ c.members, ∀ k e, (c.srv j).log.entryAt k = some e → e.term = (c.srv i).state.term →
      (c.srv i).log.startIndex ≤ k → (c.srv i).log.entryAt k = some e) ∧
    (∀ m ∈ c.reqs, ∀ es, m.body = .appendEntries es → m.term = (c.srv i).state.term →
      m.src = i ∧ ∀ n e, es[n]? = some e → (c.srv i).log.startIndex ≤ m.lastLogIdx + n + 1 →
        (c.srv i).log.entryAt (m.lastLogIdx + n + 1) = some e) := by
  obtain ⟨x, _, hx⟩ := run_replicated helect hadj (init_replicated v ps) hco hrun
  have hlead := hx.voted.2.lead i hi hrole
  have hlog := llog_of_lead hx.sane (hx.voted.2.term i hi) hlead
  have hholds := (hx.copies.srv i hi).holds
  constructor
  · intro j hj k e he hterm hstart
    obtain ⟨hpos, hk⟩ := (hx.copies.srv j hj).holds.of_entryAt he
    -- up to the entry the log is the one of the leader that wrote it
    have hpre := (hx.sane.log j).take_isPrefix hk
    rw [hterm, hlog] at hpre
    refine (hholds.entryAt_of_le hstart).trans (getElem?_of_isPrefix hpre ?_)
    rwa [getElem?_take_of_lt (by omega)]
  · intro m hm es hbody hterm
    have hgen := hx.copies.reqs m hm
    rw [ReqMsg.Genuine, hbody] at hgen
    obtain ⟨hsrc, -, hes, -⟩ := hgen
    rw [hterm, hlog] at hes
    refine ⟨some.inj ((hterm ▸ hsrc).symm.trans hlead), fun n e he hstart => ?_⟩
    have hget := getElem?_of_isPrefix hes he
    rw [getElem?_drop] at hget
    exact (hholds.entryAt_of_le hstart).trans hget

theorem serverOne_has_its_term :
    ∃ c ∈ threeServers.run commitWithTwo, ∀ k e, (c.srv 2).log.entryAt k = some e →
      e.term = (c.srv 1).state.term → (c.srv 1).log.startIndex ≤ k →
        (c.srv 1).log.entryAt k = some e := by
  have hco : Runs.AllSteps step Coherent threeServers commitWithTwo := by decide +kernel
  obtain ⟨c, hrun, hmem, hrole, -⟩ := commitWithTwo_ends
  exact ⟨c, hrun, (leader_has_its_term (fun _ => rfl) (fun _ => rfl) hco hrun hmem.1
    hrole.1).1 2 hmem.2⟩

/-- While a peer is in the term of its leader, the leader's matched index is sound: up to it the
peer has the leader's entries. -/
theorem matched_agrees (hdef : ∀ i, DefaultQuorums (ps i)) (hno : ∀ a ∈ as, TakesNoSnapshot a)
    (hguard : Runs.AllSteps step Guarded (init v ps) as) (hrun : (init v ps).run as = some c)
    (hi : i ∈ c.members) (hrole : (c.srv i).role = .leader) {p : Peer}
    (hp : p ∈ (c.srv i).peers) (hj : p.id ∈ c.members)
    (hterm : (c.srv p.id).state.term = (c.srv i).state.term) (hpos : 0 < k)
    (hk : k ≤ p.matchedIdx) :
    ∃ e, (c.srv i).log.entryAt k = some e ∧ (c.srv p.id).log.entryAt k = some e := by
  obtain ⟨x, _, hx⟩ := run_safe hdef (init_safe v ps) hno hguard hrun
  have hsane := hx.replicated.sane
  have hvoted := hx.replicated.voted.2
  have hlog := llog_of_lead hsane (hvoted.term i hi) (hvoted.lead i hi hrole)
  -- the peer has acknowledged so much, and keeps it as long as it is in the term
  have hack : k ≤ x.ack (c.srv i).state.term p.id :=
    hk.trans ((hx.srv i hi).matched hrole _ (mem_map_of_mem hp))
  have hagree := hsane.agrees p.id
  rw [hvoted.term p.id hj, hterm] at hagree
  have hlen := hack.trans (hsane.ackLe _ _)
  obtain ⟨e, he⟩ : ∃ e, (x.llog (c.srv i).state.term)[k - 1]? = some e :=
    ⟨_, getElem?_eq_getElem (by omega)⟩
  refine ⟨e, hx.entryAt_of_isPrefix hi (hlog ▸ prefix_rfl) hpos he,
    hx.entryAt_of_isPrefix hj hagree hpos ?_⟩
  rwa [getElem?_take_of_lt (by omega)]

theorem matchedIdx_of_two_agrees :
    ∃ c ∈ threeServers.run commitWithTwo,
      ∃ e, (c.srv 1).log.entryAt 2 = some e ∧ (c.srv 2).log.entryAt 2 = some e := by
  have hguard : Runs.AllSteps step Guarded threeServers commitWithTwo := by decide +kernel
  obtain ⟨c, hrun, hmem, hrole, ⟨p, hp, hid, hk⟩, -⟩ := commitWithTwo_ends
  rw [← hid] at hmem hrole
  have hagrees := matched_agrees (fun _ => ⟨rfl, rfl, rfl, rfl, rfl⟩) (by decide) hguard hrun
    hmem.1 hrole.1 hp hmem.2 hrole.2 Nat.two_pos hk.ge
  exact ⟨c, hrun, hid ▸ hagrees⟩

/-- What a server takes for committed stays in its log, and from then on a majority has it. -/
theorem committed_durable (hdef : ∀ i, DefaultQuorums (ps i))
    (hno : ∀ a ∈ as ++ bs, TakesNoSnapshot a)
    (hguard : Runs.AllSteps step Guarded (init v ps) (as ++ bs))
    (h₁ : (init v ps).run as = some c₁) (h₂ : c₁.run bs = some c₂) (hi : i ∈ c₁.members)
    (he : (c₁.srv i).log.entryAt k = some e) (hk : k ≤ (c₁.srv i).quickCommitIndex) :
    (c₂.srv i).log.entryAt k = some e ∧
      ∃ Q, Majority (voters v) Q ∧ ∀ j ∈ Q, (c₂.srv j).log.entryAt k = some e := by
  obtain ⟨x, _, hx⟩ := run_safe hdef (init_safe v ps) (fun a ha => hno a (mem_append_left _ ha))
    hguard.left h₁
  obtain ⟨y, hexec, hy⟩ := run_safe hdef hx (fun a ha => hno a (mem_append_right _ ha))
    (hguard.suffix h₁) h₂
  obtain ⟨hpos, hget⟩ := hx.getElem?_chosen hi he hk
  have hchosen := (hx.srv i hi).chosen
  have hvoter : i ∈ voters v := hx.replicated.voted.1.mem_members.mp hi
  have hmem {j : Int} : j ∈ c₂.members ↔ j ∈ voters v := hy.replicated.voted.1.mem_members
  have hg := (execution_sane hx.replicated.sane hexec).2
  obtain ⟨Q, hQ, hlogs⟩ := (hchosen.mono hx.replicated.sane hg).majority ⟨i, hvoter⟩ hy.complete
  rw [← hx.replicated.voted.2.term i hi] at hchosen
  have hkept := hchosen.kept hx.complete hx.replicated.sane (List.take_prefix _ _) hexec
  exact ⟨hy.entryAt_of_isPrefix (hmem.mpr hvoter) hkept hpos hget, Q, hQ, fun j hj =>
    hy.entryAt_of_isPrefix (hmem.mpr (hQ.subset hj)) (hlogs j hj) hpos hget⟩

/-- The commit of server `1` outlives its leadership. -/
theorem commitWithTwo_durable :
    ∃ c₁ c₂ e, threeServers.run commitWithTwo = some c₁ ∧ c₁.run electServerTwo = some c₂ ∧
      ∃ Q, Majority (voters threeVoters) Q ∧ ∀ j ∈ Q, (c₂.srv j).log.entryAt 2 = some e := by
  have hguard : Runs.AllSteps step Guarded threeServers (commitWithTwo ++ electServerTwo) := by
    decide +kernel
  obtain ⟨c₁, h₁, hmem, -, -, hsome, hq⟩ := commitWithTwo_ends
  obtain ⟨e, he⟩ := isSome_iff_exists.mp hsome
  have hsecond : (threeServers.run (commitWithTwo ++ electServerTwo)).isSome := by decide +kernel
  obtain ⟨c₂, hrun⟩ := isSome_iff_exists.mp hsecond
  obtain ⟨c, hc, h₂⟩ := Runs.run_append_eq_some.mp hrun
  cases some.inj (h₁.symm.trans hc)
  exact ⟨c₁, c₂, e, h₁, h₂, (committed_durable (fun _ => ⟨rfl, rfl, rfl, rfl, rfl⟩) (by decide)
    hguard h₁ h₂ hmem.1 he hq.ge).2⟩

end Cluster
end Raft
end Xio
