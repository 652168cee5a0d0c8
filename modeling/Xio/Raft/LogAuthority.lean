import Xio.Raft.LogStep
import Xio.Raft.CommitAuthority

/-!
# Raft.LogAuthority — who may write to a log

Entries get into a log at three kinds of places: a leader creates them, a member stores what a leader
sent, and a joining server applies a pack. About ten operations create entries, and not all of them
look at the role: a call of `set_user_ctx` never does, `set_priority` compares ids only, and the
handlers of late responses about joining and leaving servers run on whoever receives them.

`LogChange` is the inversion for the log, over every input and every role. Its case for created
entries says under which condition the creator is leader.
-/

namespace Xio
namespace Raft

open List LogStore

namespace LogStore

variable {l : LogStore} {i j : Nat} {e e' : LogEntry} {es : List LogEntry}

/-! ## Reading a log that was written to -/

theorem writeAt_entryAt_cases (h : (l.writeAt i e).entryAt j = some e') :
    l.entryAt j = some e' ∨ e' = e := by
  unfold writeAt at h
  split at h
  · have hmem := mem_of_getElem? (entryAt_eq_some_iff.mp h).2
    exact .inr (mem_singleton.mp hmem)
  · obtain ⟨hstart, hget⟩ := entryAt_eq_some_iff.mp h
    by_cases hlt : j - l.startIndex < (l.entries.take (i - l.startIndex)).length
    · rw [getElem?_append_left hlt, getElem?_take] at hget
      split at hget
      · exact .inl (entryAt_eq_some_iff.mpr ⟨hstart, hget⟩)
      · cases hget
    · rw [getElem?_append_right (Nat.le_of_not_lt hlt)] at hget
      exact .inr (mem_singleton.mp (mem_of_getElem? hget))

theorem overwriteLoop_cases :
    ((l.overwriteLoop i es).1.entryAt j = some e → l.entryAt j = some e ∨ e ∈ es) ∧
      (e ∈ (l.overwriteLoop i es).2 → e ∈ es) := by
  induction es generalizing l i with
  | nil => exact ⟨Or.inl, id⟩
  | cons e' es ih =>
    unfold overwriteLoop
    split
    · refine ⟨?_, fun h => mem_cons_of_mem e' (ih.2 h)⟩
      intro h
      rcases ih.1 h with hlog | hes
      · rcases writeAt_entryAt_cases hlog with hold | rfl
        · exact .inl hold
        · exact .inr mem_cons_self
      · exact .inr (mem_cons_of_mem e' hes)
    · exact ⟨Or.inl, id⟩

theorem writeFrom_entryAt_cases (h : (l.writeFrom i es).entryAt j = some e) :
    l.entryAt j = some e ∨ e ∈ es := by
  rcases appendLoop_entryAt_cases h with hlog | hleft
  · exact overwriteLoop_cases.1 hlog
  · exact .inr ((overwriteLoop_cases (j := j)).2 hleft)

theorem mem_applyPack (h : e ∈ (l.applyPack i es).entries) : e ∈ l.entries ∨ e ∈ es := by
  unfold applyPack at h
  split at h
  · split at h
    · cases h
    · exact .inl h
  split at h
  · rcases mem_append.mp h with hnew | hold
    · exact .inr hnew
    · exact .inl (mem_of_mem_drop hold)
  · rcases mem_append.mp h with h | hold
    · rcases mem_append.mp h with hold | hnew
      · exact .inl (mem_of_mem_take hold)
      · exact .inr hnew
    · exact .inl (mem_of_mem_drop hold)

end LogStore

/-- The request carries a part of the log for a joining server. -/
def ReqMsg.isPack (m : ReqMsg) : Bool :=
  match m.body with
  | .syncLog _ => true
  | _ => false

namespace RaftServer

variable {s t u : RaftServer} {env : Env} {input : Input}

/-! ## The inversion -/

/-- Nothing is called or left over that makes a server create an entry without being leader. -/
def CreatesNothing (s : RaftServer) (env : Env) : Input → Prop
  | .response resp => resp.type = .appendEntries → resp.term ≤ s.state.term →
      ∀ p ∈ s.peers, p.id = resp.src → p.config.newJoiner = false
  | .extResponse resp _ =>
    if resp.type = .leaveCluster then resp.accepted = false else s.srvToJoin = none
  | .retryJoinSync => s.srvToJoin = none
  | .peerError dst => ∀ p ∈ s.peers, p.id = dst → p.leaveRequested = false
  | .extError _ leaving => leaving = false
  | .setUserCtx _ => False
  | .setPriority id priority _ => s.id = s.leader → s.id = id ∧ priority = 0
  | .updateSrvConfig _ | .flipLearnerFlag _ _ => env.tested = false
  | _ => True

instance (s : RaftServer) (env : Env) (input : Input) : Decidable (s.CreatesNothing env input) := by
  rcases input with ⟨⟩ <;> (dsimp only [CreatesNothing]; infer_instance)

/-- Whoever creates an entry with the input leads, or the input is one of those that nobody checks. -/
def NeedsLeader (s : RaftServer) (env : Env) (input : Input) : Prop :=
  (s.role ≠ .leader → s.CreatesNothing env input) → s.role = .leader

theorem NeedsLeader.of_leader (h : s.role = .leader) : s.NeedsLeader env input := fun _ => h

theorem NeedsLeader.of_unchecked (h : ¬ s.CreatesNothing env input) : s.NeedsLeader env input := by
  intro hcond
  by_contra hrole
  exact h (hcond hrole)

inductive LogChange (env : Env) (s t : RaftServer) (input : Input) : Prop
  | kept (h : t.log = s.log)
  | created (es : List LogEntry) (h : t.log = s.log.appendLoop es)
      (hby : (s.role ≠ .leader → s.CreatesNothing env input) →
        t.role = .leader ∧ ∀ e ∈ es, e.term = t.state.term)
  | received (req : ReqMsg) (es : List LogEntry) (hin : input = .request req)
      (hbody : req.body = .appendEntries es) (hrole : t.role ≠ .leader)
      (h : t.log = (s.writeEntries (req.lastLogIdx + 1) es).log)
  | synced (req : ReqMsg) (es : List LogEntry) (hin : input = .request req)
      (hbody : req.body = .syncLog (some es)) (hcatch : s.state.catchingUp = true)
      (h : t.log = s.log.applyPack (req.lastLogIdx + 1) es)
  | compacted (ok : Bool) (snp : Snapshot) (hin : input = .snapshotCompleted ok)
      (hsnp : s.snpInProgress = some snp) (h : t.log = s.compactedLog (s.latestSnapshot snp))
  | installed (pending : PendingInstall) (hin : input = .finishSnapshot pending)
      (hrole : t.role ≠ .leader) (h : t.log = s.log.compact pending.snapshot.lastLogIdx)

theorem Readied.needsLeader {op : ConfOp} (h : Readied env s input op u) :
    s.NeedsLeader env input := by
  -- a response about joining needs a leader as long as somebody is joining
  have hjoins {resp : RespMsg} {joiner : Bool} {p : Peer} (hp : s.srvToJoin = some p)
      (htype : resp.type ≠ .leaveCluster) : ¬ s.CreatesNothing env (.extResponse resp joiner) := by
    simp [CreatesNothing, htype, hp]
  cases h with
  | userCtx => exact .of_unchecked (fun hno => hno)
  | srvConfig hlead =>
    rw [isLeader, Bool.and_eq_true, beq_iff_eq, beq_iff_eq] at hlead
    exact hlead.elim (fun h => .of_leader h.2) (fun h => .of_unchecked (by simp [CreatesNothing, h]))
  | learner hlead =>
    exact hlead.elim .of_leader (fun h => .of_unchecked (by simp [CreatesNothing, h]))
  | priority hid hself => exact .of_unchecked (fun hno => hself (hno hid))
  | promoted htype hterm hp hready =>
    exact .of_unchecked (fun hno => not_promoted (hno htype hterm) hp hready)
  | joined hj _ =>
    cases hj with
    | retried hp => exact .of_unchecked (fun hno => by cases hp.symm.trans hno)
    | welcomed htype _ hp => exact .of_unchecked (hjoins hp (by simp [htype]))
    | synced htype hp => exact .of_unchecked (hjoins hp (by simp [htype]))
    | installed htype hp _ => exact .of_unchecked (hjoins hp (by simp [htype]))
  | left htype hacc _ => exact .of_unchecked (by simp [CreatesNothing, htype, hacc])
  | unheard hf _ =>
    cases hf with
    | ext _ => exact .of_unchecked (fun h => by cases h)
    | @peer _ p hp hleave =>
      refine .of_unchecked (fun hno => ?_)
      have hstay := hno p (mem_of_find?_eq_some hp) (by simpa using find?_some hp)
      simp [hstay] at hleave

theorem Readied.logChange {op : ConfOp} (h : Readied env s input op u) :
    LogChange env s (u.operate env op) input := by
  have hsame := h.sansPeers
  have hlog : u.log = s.log := sansPeers_read (fun _ => rfl) hsame
  have hrole : u.role = s.role := sansPeers_read (fun _ => rfl) hsame
  refine .created [⟨u.state.term, .conf (op.newConf u.confView)⟩] (by simp [hlog]; rfl) ?_
  intro hcond
  refine ⟨by simp [hrole, h.needsLeader hcond], ?_⟩
  intro e he
  rw [mem_singleton.mp he]
  simp

theorem step_logChange {o : Output} (hstep : s.step env input = some (t, o)) :
    LogChange env s t input := by
  cases step_moves hstep with
  | steady hst _ => exact .kept (core_log hst.core)
  | elected u hu _ ht hrole _ _ =>
    -- the winner of an election creates the first entry of its term
    have hlog : u.log = s.log := core_log hu.core
    have hnew : t.log = u.log.append u.leaderConfEntry := core_log ht.core
    have hterm : t.state.term = u.state.term := (ht.role hrole).2.1
    refine .created [u.leaderConfEntry] (by rw [hnew, hlog]; rfl) (fun _ => ⟨hrole, ?_⟩)
    intro e he
    rw [mem_singleton.mp he, hterm]
    rfl
  | outOfRange u hu ht _ =>
    have hlog : u.log = s.log := core_log hu.core
    exact .kept ((core_log ht.core).trans hlog)
  | @stored _ bufs _ k _ hrole _ =>
    refine .created (s.clientEntries bufs) (by simp) (fun _ => ⟨by simpa using hrole, ?_⟩)
    intro e he
    obtain ⟨b, _, rfl⟩ := mem_map.mp he
    simp
  | @accepted req es u hbody hu _ hrole _ =>
    refine .received req es rfl hbody ?_ ?_
    · exact fun hlead => hrole ((acceptEntries_quiet u req es).role hlead)
    · calc (u.acceptEntries req es).log
          = (u.writeEntries (req.lastLogIdx + 1) es).log :=
            congrArg LogView.log (acceptEntries_logView u req es)
        _ = (s.writeEntries (req.lastLogIdx + 1) es).log :=
            congrArg LogView.log (writeEntries_logView (core_logView hu.core) _ es)
  | parked u _ hu _ _ =>
    have hlog : u.log = s.log := core_log hu.core
    exact .kept hlog
  | packed l hbody hcatch hl => exact .synced _ _ rfl hbody hcatch hl
  | joins _ _ _ => exact .kept (by simp [joinCluster])
  | timed _ ht _ =>
    have hlog : (s.checkSrvToLeaveTimeout env).log = s.log := rfl
    exact .kept ((core_log ht.core).trans hlog)
  | @recorded resp _ _ _ _ ht _ =>
    have hlog : ((s.checkSrvToLeaveTimeout env).recordAppendResp env resp).log = s.log :=
      sansPeers_read (fun _ => rfl) (recordAppendResp_sansPeers s env resp)
    exact .kept ((core_log ht.core).trans hlog)
  | sent hr =>
    obtain ⟨p, -, heq⟩ := requestAppendEntriesTo_eq hr
    exact .kept (heq ▸ rfl)
  | gaveUp hf _ => exact .kept (sansPeers_read (f := RaftServer.log) (fun _ => rfl) hf.sansPeers)
  | operated hop => exact hop.logChange
  | applied _ _ => exact .kept (executeEntry_frame s _).1
  | created hsnp => exact .compacted true _ rfl hsnp rfl
  | @installed pending r _ hr =>
    unfold finishSnapshot at hr
    split at hr
    · cases hr
    next hfollower =>
    cases hr
    refine .installed pending rfl ?_ ?_
    · split <;> simp [not_not.mp hfollower]
    · split <;> simp
  | _ => exact .kept rfl

/-! ## Steps and runs -/

/-- The entry is in a request for this log. A pack that leaves a gap moves entries that the log has
already, and adds none. -/
def Received (s : RaftServer) (input : Input) (e : LogEntry) : Prop :=
  ∃ req, input = .request req ∧ ((∃ es, req.body = .appendEntries es ∧ e ∈ es) ∨
      ∃ es, req.body = .syncLog (some es) ∧ (e ∈ es ∨ e ∈ s.log.entries))

/-- A pack is not for a leader, even if it is still catching up. -/
def RefusesPacks (s : RaftServer) : Input → Prop
  | .request req => req.isPack = true → s.state.catchingUp = false
  | _ => True

instance (s : RaftServer) (input : Input) : Decidable (s.RefusesPacks input) := by
  rcases input with ⟨⟩ <;> (dsimp only [RefusesPacks]; infer_instance)

/-- Only leaders create entries, of their own term, and leaders only append. -/
structure LogAuthority (s : RaftServer) (a : Env × Input) (t : RaftServer) : Prop where
  created : ∀ i e, t.log.entryAt i = some e → s.log.entryAt i ≠ some e →
    s.Received a.2 e ∨ t.role = .leader ∧ e.term = t.state.term
  appends : s.role = .leader → t.role = .leader → ∀ i e, s.log.entryAt i = some e →
    t.log.entryAt i = some e ∨ i < t.log.startIndex ∧ ∃ ok, a.2 = .snapshotCompleted ok

theorem writeEntries_entryAt_cases {first i : Nat} {es : List LogEntry} {e : LogEntry}
    (h : (s.writeEntries first es).log.entryAt i = some e) : s.log.entryAt i = some e ∨ e ∈ es := by
  obtain ⟨k, _, hskip, _, _⟩ := skipLoop_spec s.log first es
  have hlog : (s.writeEntries first es).log = s.log.writeFrom (first + k) (es.drop k) := by
    rw [writeEntries, hskip]
    dsimp only
    split <;> rfl
  rw [hlog] at h
  exact (writeFrom_entryAt_cases h).imp_right mem_of_mem_drop

theorem LogChange.added (h : LogChange env s t input)
    (hcond : s.role ≠ .leader → s.CreatesNothing env input) {i : Nat} {e : LogEntry}
    (he : t.log.entryAt i = some e) (hnew : s.log.entryAt i ≠ some e) :
    s.Received input e ∨ t.role = .leader ∧ e.term = t.state.term := by
  cases h with
  | kept h => exact absurd (h ▸ he) hnew
  | created es h hby =>
    rw [h] at he
    obtain ⟨hrole, hterm⟩ := hby hcond
    rcases appendLoop_entryAt_cases he with hold | hmem
    · exact absurd hold hnew
    · exact .inr ⟨hrole, hterm e hmem⟩
  | received req es hin hbody hrole h =>
    rw [h] at he
    have hmem := (writeEntries_entryAt_cases he).resolve_left hnew
    exact .inl ⟨req, hin, .inl ⟨es, hbody, hmem⟩⟩
  | synced req es hin hbody hcatch h =>
    rw [h] at he
    have hmem := mem_applyPack (mem_of_getElem? (entryAt_eq_some_iff.mp he).2)
    exact .inl ⟨req, hin, .inr ⟨es, hbody, hmem.symm⟩⟩
  | compacted ok snp hin hsnp h =>
    rw [h] at he
    unfold compactedLog at he
    split at he
    · rw [compact_entryAt] at he
      split at he
      · cases he
      · exact absurd he hnew
    · exact absurd he hnew
  | installed pending hin hrole h =>
    rw [h, compact_entryAt] at he
    split at he
    · cases he
    · exact absurd he hnew

theorem LogChange.appends (h : LogChange env s t input) (hcond : s.RefusesPacks input)
    (hlead : t.role = .leader) {i : Nat} {e : LogEntry} (he : s.log.entryAt i = some e) :
    t.log.entryAt i = some e ∨ i < t.log.startIndex ∧ ∃ ok, input = .snapshotCompleted ok := by
  cases h with
  | kept h => exact .inl (h ▸ he)
  | created es h _ =>
    refine .inl ?_
    rwa [h, appendLoop_entryAt_of_lt es (entryAt_lt_nextSlot he)]
  | received req es hin hbody hrole h => exact absurd hlead hrole
  | synced req es hin hbody hcatch h =>
    rw [hin] at hcond
    have hfalse : s.state.catchingUp = false := hcond (by simp [ReqMsg.isPack, hbody])
    cases hcatch ▸ hfalse
  | compacted ok snp hin hsnp h =>
    rw [h]
    unfold compactedLog
    split
    · rw [compact_entryAt, compact_startIndex]
      split
      · exact .inr ⟨by omega, ok, hin⟩
      · exact .inl he
    · exact .inl he
  | installed pending hin hrole h => exact absurd hlead hrole

end RaftServer

/-! ## A run that meets the condition -/

/-- Server `1` of three voting members is elected, stores a client's data, is given another
configuration, steps down and follows server `2`. -/
def leadsAndFollows : List (Env × RaftServer.Input) :=
  [({}, .electionTimeout), ({}, .response ⟨0, .preVote, 2, 1, 0, true, .ok, .none, false, false⟩),
    ({}, .response ⟨1, .requestVote, 2, 1, 1, true, .ok, .none, false, false⟩),
    ({}, .request (Cluster.clientReq 1 [[7]])),
    ({}, .setUserCtx [1]),
    ({}, .request ⟨2, 2, 1, 1, 1, 1, .appendEntries [⟨2, .appLog [8]⟩]⟩)]

/-- Server `1` leads and has applied the first configuration of its term. -/
def leadsInPeace : List (Env × RaftServer.Input) :=
  leadsAndFollows.take 3 ++ [(({} : Env), .sendAppend 2 false 0),
      ({}, .response ⟨1, .appendEntries, 2, 1, 2, true, .ok, .none, false, false⟩),
      ({}, .commitNext)]

/-- The request to remove server `3`, which asks that server to leave. -/
def removeThreeReq : Env × RaftServer.Input :=
  ({}, .request ⟨0, -1, 1, 0, 0, 0, .removeServer (some 3)⟩)

def leaveAnswer : Env × RaftServer.Input :=
  ({}, .extResponse ⟨1, .leaveCluster, 3, 1, 2, true, .ok, .none, false, false⟩ false)

/-- Server `1` asks server `3` to leave, gives up its leadership, and gets the answer. -/
def lateLeaveAnswer : List (Env × RaftServer.Input) :=
  leadsInPeace ++ [removeThreeReq, (({} : Env), .yieldLeadership true (-1)), leaveAnswer]

/-- `update_srv_config` finds server `1` leading and goes on after the end of its leadership. -/
def lateSrvConfig : List (Env × RaftServer.Input) :=
  leadsInPeace ++ [(({} : Env), .yieldLeadership true (-1)),
    ({ tested := true }, .updateSrvConfig { id := 3, priority := 5 })]

/-- Server `4` joins, gets the log of leader `2`, is asked to take over before it has applied its
own membership, and wins the election. -/
def takesOverWhileJoining : List (Env × RaftServer.Input) :=
  [({}, .request ⟨2, 2, 4, 0, 2, 2, .joinCluster (some threeVoters.config)⟩),
    ({}, .request ⟨2, 2, 4, 0, 0, 2, .syncLog (some [⟨1, .appLog [1]⟩, ⟨2, .appLog [2]⟩])⟩),
    ({}, .request ⟨2, 2, 4, 2, 2, 2, .appendEntries [⟨2, .conf
      { logIdx := 3, servers := threeVoters.config.servers ++ [{ id := 4 }] }⟩]⟩),
    ({}, .request ⟨2, 2, 4, 2, 3, 2, .customNotification (some .leadershipTakeover)⟩),
    ({}, .response ⟨3, .requestVote, 2, 4, 4, true, .ok, .none, false, false⟩),
    ({}, .response ⟨3, .requestVote, 3, 4, 4, true, .ok, .none, false, false⟩)]

def latePack : Env × RaftServer.Input :=
  ({}, .request ⟨1, 1, 4, 0, 1, 2, .syncLog (some [⟨1, .appLog [9]⟩])⟩)

end Raft
end Xio
