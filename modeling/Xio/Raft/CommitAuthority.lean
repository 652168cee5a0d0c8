import Xio.Raft.Election

/-!
# Raft.CommitAuthority — who may move the commit index of a follower

`commit` is called from the append handler, from the handler of append responses, from
`request_append_entries` and from the handlers of joining servers. Only the first one is meant for
servers that do not lead, but the others do not look at the role. A server that stepped down commits
what a late response completes, and a server that needs nobody's agreement commits its own log when
its background thread runs.

The step lemma says when this cannot happen. The index of a server that does not lead then moves on
a leader's request, or the step has made the server a leader first.
-/

namespace Xio
namespace Raft
namespace RaftServer

open List

variable {s t u : RaftServer} {env : Env} {input : Input}

/-- Requests of a leader. A received snapshot is finished after its handler has waited for the commit
thread. -/
def FromLeader : Input → Bool
  | .request req =>
    match req.body with
    | .appendEntries _ | .syncLog _ | .installSnapshot _ | .joinCluster _ => true
    | _ => false
  | .finishSnapshot _ => true
  | _ => false

/-- The step elects the server: `become_leader` finds it as in `s` but for the fields of an election,
sets the role, and only then runs `request_append_entries`. It ends the step as leader of that term. -/
def CommitsAsLeader (env : Env) (s t : RaftServer) : Prop :=
  t.role = .leader ∧ ∃ u : RaftServer, u.core = s.core ∧ u.state.term = t.state.term ∧
    t.core = (u.takeLeadership.requestAppendEntries env).core

/-- A commit takes the agreement of others. -/
def AsksOthers (s : RaftServer) : Prop := s.peers ≠ [] ∧ s.getQuorumForCommit ≠ 0

instance (s : RaftServer) : Decidable s.AsksOthers := inferInstanceAs (Decidable (_ ∧ _))

/-- Nothing is left over from a leadership that could complete a commit or append a configuration,
and where a configuration is appended or the background thread runs, others have to agree. -/
def LeavesCommit (s : RaftServer) (env : Env) : Input → Prop
  | .response resp => resp.type = .appendEntries → resp.term ≤ s.state.term →
      resp.accepted = false ∧ ∀ p ∈ s.peers, p.id = resp.src → p.config.newJoiner = false
  | .extResponse resp _ =>
    (resp.type = .leaveCluster → resp.accepted = false) ∧ s.AsksOthers
  | .peerError dst => ∀ p ∈ s.peers, p.id = dst → p.leaveRequested = false
  | .extError _ leaving => leaving = false
  | .appendEntriesInBg | .retryJoinSync | .setUserCtx _ | .setPriority _ _ _ => s.AsksOthers
  | .updateSrvConfig _ | .flipLearnerFlag _ _ => env.tested = true → s.AsksOthers
  | _ => True

instance (s : RaftServer) (env : Env) (input : Input) : Decidable (s.LeavesCommit env input) := by
  rcases input with ⟨⟩ <;> (dsimp only [LeavesCommit]; infer_instance)

/-! ## Where nothing happens -/

theorem requestAppendEntries_quick (h : s.AsksOthers) (env : Env) :
    (s.requestAppendEntries env).quickCommitIndex = s.quickCommitIndex := by
  have hno : ¬ (s.peers = [] ∨ s.getQuorumForCommit = 0) := by
    rintro (hnil | hzero)
    · exact h.1 hnil
    · exact h.2 hzero
  rw [requestAppendEntries, if_neg hno]
  simp

theorem operate_quick (h : s.AsksOthers) (env : Env) (op : ConfOp) :
    (s.operate env op).quickCommitIndex = s.quickCommitIndex := by
  unfold operate
  split
  · exact requestAppendEntries_quick (s := (s.markChanging _).storeLogEntry ⟨_, .conf _⟩) h env
  · exact requestAppendEntries_quick (s := s.storeLogEntry ⟨_, .conf _⟩) h env

/-- The index stayed, or the server had become leader before it moved. -/
def Left (env : Env) (s t : RaftServer) : Prop :=
  t.quickCommitIndex = s.quickCommitIndex ∨ CommitsAsLeader env s t

/-! ## Responses -/

theorem recordAppendResp_config {resp : RespMsg} {p : Peer}
    (h : p ∈ ((s.checkSrvToLeaveTimeout env).recordAppendResp env resp).peers) :
    ∃ q ∈ s.peers, q.config = p.config := by
  have hupdate {f : Peer → Peer} (hf : ∀ q, (f q).config = q.config)
      (hp : p ∈ ((s.checkSrvToLeaveTimeout env).updatePeer resp.src f).peers) :
      ∃ q ∈ s.peers, q.config = p.config := by
    obtain ⟨q, hq, rfl⟩ := mem_map.mp hp
    refine ⟨q, ?_, ?_⟩
    · rw [checkSrvToLeaveTimeout_peers] at hq
      split at hq
      · exact mem_of_mem_filter hq
      · exact hq
    · split
      · exact (hf q).symm
      · rfl
  unfold recordAppendResp at h
  split at h
  · exact hupdate (f := Peer.onAppendAccepted resp) (fun _ => rfl) h
  · refine hupdate (fun q => ?_) h
    unfold Peer.onAppendRejected
    split <;> rfl

theorem not_promoted {resp : RespMsg} {p : Peer}
    (hold : ∀ p ∈ s.peers, p.id = resp.src → p.config.newJoiner = false)
    (hp : ((s.checkSrvToLeaveTimeout env).recordAppendResp env resp).findPeer resp.src = some p) :
    ¬ ((s.checkSrvToLeaveTimeout env).recordAppendResp env resp).readyForPromotion p = true := by
  obtain ⟨q, hq, hconf⟩ := recordAppendResp_config (mem_of_find?_eq_some hp)
  have hid : p.id = resp.src := by simpa using find?_some hp
  have hnot : p.config.newJoiner = false := by
    rw [← hconf]
    exact hold q hq ((congrArg SrvConfig.id hconf).trans hid)
  simp [readyForPromotion, hnot]

theorem not_leaveFailed {id : Int} (hcond : s.LeavesCommit env input) :
    ¬ LeaveFailed env s input id u := by
  intro hf
  cases hf with
  | ext _ => cases hcond
  | @peer _ p hp hleave =>
    have hstay := hcond p (mem_of_find?_eq_some hp) (by simpa using find?_some hp)
    simp [hstay] at hleave

/-- A server that does not lead and is asked nothing of a leader appends a configuration only where
others have to agree. -/
theorem Readied.asksOthers {op : ConfOp} (hrole : s.role ≠ .leader) (hcond : s.LeavesCommit env input)
    (h : Readied env s input op u) :
    u.AsksOthers ∧ u.quickCommitIndex = s.quickCommitIndex := by
  cases h with
  | userCtx => exact ⟨hcond, rfl⟩
  | srvConfig hlead =>
    rw [isLeader, Bool.and_eq_true, beq_iff_eq, beq_iff_eq] at hlead
    exact ⟨hcond (hlead.resolve_left fun h => hrole h.2), rfl⟩
  | learner hlead => exact ⟨hcond (hlead.resolve_left hrole), rfl⟩
  | priority _ _ => exact ⟨hcond, rfl⟩
  | promoted htype hterm hp hready =>
    exact absurd hready (not_promoted (hcond htype hterm).2 hp)
  | joined hj _ =>
    cases hj with
    | retried _ => exact ⟨hcond, rfl⟩
    | welcomed _ _ _ => exact ⟨hcond.2, rfl⟩
    | synced _ _ => exact ⟨hcond.2, rfl⟩
    | installed _ _ _ => exact ⟨hcond.2, rfl⟩
  | left htype hacc _ => simp [hcond.1 htype] at hacc
  | unheard hf _ => exact absurd hf (not_leaveFailed hcond)

/-! ## Steps and runs -/

/-- The process ends and a new one is started, with an index of its own. -/
def Input.isRestart : Input → Bool
  | .restart _ => true
  | _ => false

theorem step_left {o : Output} (hrole : s.role ≠ .leader) (hin : FromLeader input = false)
    (hlife : input.isRestart = false) (hcond : s.LeavesCommit env input)
    (hstep : s.step env input = some (t, o)) : Left env s t := by
  cases step_moves hstep with
  | steady hst _ => exact .inl (core_quick hst.core)
  | elected u hu _ ht hlead _ _ =>
    have hterm : t.state.term = u.state.term := (ht.role hlead).2.1
    exact .inr ⟨hlead, u, hu.core, hterm.symm, ht.core⟩
  | outOfRange u hu ht _ =>
    have hquick : u.quickCommitIndex = s.quickCommitIndex := core_quick hu.core
    exact .inl ((core_quick ht.core).trans hquick)
  | stored _ _ hlead _ => exact absurd hlead hrole
  | accepted _ hbody _ _ _ _ => simp [FromLeader, hbody] at hin
  | parked _ hbody _ _ _ => simp [FromLeader, hbody] at hin
  | packed _ hbody _ _ => simp [FromLeader, hbody] at hin
  | joins hbody _ _ => simp [FromLeader, hbody] at hin
  | timed _ ht _ =>
    refine .inl ?_
    rw [core_quick ht.core]
    rfl
  | recorded htype hterm ht _ =>
    -- a response that is not accepted moves no index
    refine .inl ((core_quick ht.core).trans ?_)
    rw [recordAppendResp, if_neg (by simp [(hcond htype hterm).1])]
    rfl
  | sent hr =>
    obtain ⟨p, -, heq⟩ := requestAppendEntriesTo_eq hr
    rw [heq]
    exact .inl rfl
  | gaveUp hf _ => exact absurd hf (not_leaveFailed hcond)
  | operated hop =>
    obtain ⟨hasks, hquick⟩ := hop.asksOthers hrole hcond
    exact .inl ((operate_quick hasks env _).trans hquick)
  | applied _ _ => exact .inl (executeEntry_frame s _).2.2.1
  | installed _ _ => cases hin
  | urged => exact .inl (requestAppendEntries_quick hcond env)
  | durable hlead => exact absurd hlead hrole
  | restarted _ => cases hlife
  | _ => exact .inl rfl

/-- While the server does not lead, its commit index moves only in a leader's request, or in the step
that makes it a leader, after the change of the role. -/
def CommitAuthority (s : RaftServer) (a : Env × Input) : Prop :=
  s.role ≠ .leader → ∀ t, s.next a = some t → t.quickCommitIndex ≠ s.quickCommitIndex →
    FromLeader a.2 = true ∨ CommitsAsLeader a.1 s t

end RaftServer

/-! ## A run that meets the condition -/

/-- A follower of three voting members gets its first entry, committed, and its background thread
runs. -/
def committedByLeader : List (Env × RaftServer.Input) :=
  [({}, .request
    { term := 1
      src := 1
      dst := 2
      lastLogTerm := 0
      lastLogIdx := 0
      commitIdx := 1
      body := .appendEntries [⟨1, .appLog [7]⟩] }),
    ({}, .appendEntriesInBg)]

/-- Server `1` leads and gives up its leadership while the answer of server `2` is on its way. -/
def lateAnswer : List Cluster.Action :=
  electServerOne ++ [.act 1 {} (.sendAppend 2 false 0), .recvReq 0 {},
    .act 1 {} (.yieldLeadership true (-1))]

/-- Server `2` has the first entry of server `1`, and refuses a client's request. -/
def refusedClient : List Cluster.Action :=
  electServerOne ++ [.act 1 {} (.sendAppend 2 false 0), .recvReq 0 {}, .client 2 {} [[7]]]

/-- Server `2` needs nobody's agreement. -/
def twoCommitsAlone (i : Int) : RaftParams := { customCommitQuorumSize := if i = 2 then 1 else 0 }

end Raft
end Xio
