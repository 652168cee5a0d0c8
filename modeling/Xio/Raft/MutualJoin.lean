import Xio.Raft.PrevoteTally
import Xio.Raft.Roster

/-!
# Raft.MutualJoin — two servers that add each other

Two clusters of one server each, whose operators ask for the other server to be added. A server that
accepts an invitation becomes a follower of the one that sent it, so both must not accept. The rule
against it is in `handle_join_cluster_req`: while a server is adding somebody, it refuses an
invitation of a server with a higher id, and gives its own attempt up for one with a lower id.

The rule works as long as the server with the lower id remembers what it asked for. Its invitation
may be on its way, or even be accepted, when an RPC error makes it give up.

A server is in one of three phases. It leads on its own (`Lone`), or its configuration has the other
server (`Grown`), or it has accepted the invitation (`Recruited`).

- `JoinPair.step_inv`: one step of the pair
- `JoinPair.one_follows`: every run
- `both_follow`: a run in which a server gives up too early
-/

namespace Xio
namespace Raft

open List Function Option RaftServer LogStore ClusterConfig

variable {k : Nat} {env : Env}

/-! ## The phases of a server -/

namespace RaftServer

variable {s t : RaftServer} {other : Int} {c : ClusterConfig} {conf : SrvConfig}

def ConfAt (s : RaftServer) (i : Nat) (c : ClusterConfig) : Prop :=
  (s.log.entryAt i).bind LogEntry.conf? = some c

def Joint (s : RaftServer) (other : Int) (c : ClusterConfig) : Prop := s.id ∈ c.ids ∧ other ∈ c.ids

/-- The leader of a cluster of one that may be adding the other server. What is not applied yet are
configurations without the other server, and then ones with it. -/
structure Lone (s : RaftServer) (other : Int) : Prop where
  leads : s.role = .leader
  leader : s.leader = s.id
  notCatchingUp : s.state.catchingUp = false
  notPaused : s.writePaused = false
  members : s.config.ids = [s.id]
  peers : s.peers = []
  notLeaving : s.srvToLeave = none
  joiner : ∀ p ∈ s.srvToJoin, p.id = other
  adding : s.srvToJoin.isSome → ∀ c ∈ s.confToAdd, c.id = other
  uncommitted : ∀ c ∈ s.uncommittedConfig, s.id ∈ c.ids
  pending : ∀ i c, s.smCommitIndex < i → s.ConfAt i c → c.ids = [s.id] ∨ s.Joint other c
  ordered : ∀ i j c c', s.smCommitIndex < i → i ≤ j → s.ConfAt i c → s.ConfAt j c' →
    other ∈ c.ids → other ∈ c'.ids

/-- The leader of a single-server cluster that adds nobody. -/
structure Alone (s : RaftServer) : Prop where
  leads : s.role = .leader
  leader : s.leader = s.id
  notCatchingUp : s.state.catchingUp = false
  notPaused : s.writePaused = false
  members : s.config.ids = [s.id]
  peers : s.peers = []
  notLeaving : s.srvToLeave = none
  notJoining : s.srvToJoin = none
  uncommitted : ∀ c ∈ s.uncommittedConfig, c.ids = [s.id]
  pending : ∀ i c, s.smCommitIndex < i → s.ConfAt i c → c.ids = [s.id]

theorem Alone.lone (h : Alone s) (hne : s.id ≠ other) : Lone s other := by
  refine { h with joiner := ?_, adding := ?_, uncommitted := ?_, pending := ?_, ordered := ?_ }
  · simp [h.notJoining]
  · simp [h.notJoining]
  · intro c hc
    rw [h.uncommitted c hc]
    exact mem_singleton_self _
  · exact fun i c hi hc => .inl (h.pending i c hi hc)
  · intro i j c c' hi hij hc hc' hother
    rw [h.pending i c hi hc, mem_singleton] at hother
    exact absurd hother.symm hne

/-- The other server is a member, whatever became of the role since. -/
structure Grown (s : RaftServer) (other : Int) : Prop where
  leader : s.leader ≠ other
  members : s.Joint other s.config
  peer : other ∈ s.peers.map Peer.id
  notJoining : s.srvToJoin = none
  notLeaving : s.srvToLeave = none
  pending : ∀ i c, s.smCommitIndex < i → s.ConfAt i c → s.Joint other c

/-- A follower that waits for the log of the other server. -/
structure Recruited (s : RaftServer) (other : Int) : Prop where
  follows : s.role = .follower
  catchingUp : s.state.catchingUp = true
  notJoining : s.srvToJoin = none
  members : s.config.ids = [other]
  idle : s.quickCommitIndex ≤ s.smCommitIndex

/-! ## Adding the other server -/

/-- An invitation of the given server, which knows of nobody else. -/
def IsInvitation (src : Int) (m : ReqMsg) : Prop :=
  m.src = src ∧ ∃ c : ClusterConfig, m.body = .joinCluster (some c) ∧ c.ids = [src]

/-- Nobody is invited. -/
def NoInvitation (ms : List ReqMsg) : Prop := ∀ m ∈ ms, ∀ c, m.body ≠ .joinCluster c

theorem NoInvitation.nil : NoInvitation [] := nofun

theorem NoInvitation.single {m : ReqMsg} (h : ∀ c, m.body ≠ .joinCluster c) : NoInvitation [m] := by
  intro m' hm'
  rwa [mem_singleton.mp hm']

theorem Lone.checkLeaver (h : Lone s other) (env : Env) :
    Lone (s.checkSrvToLeaveTimeout env) other :=
  { h with peers := by simp [h.peers], notLeaving := by simp [h.notLeaving] }

theorem Lone.add (h : Lone s other) (env : Env) (hconf : conf.id = other) :
    Lone (s.handleAddSrvReq env (some conf)).1 other ∧
    (s.srvToJoin.isSome → (s.handleAddSrvReq env (some conf)).1.srvToJoin.isSome) ∧
    (∀ m ∈ (s.handleAddSrvReq env (some conf)).2.1, IsInvitation s.id m ∧
      (s.handleAddSrvReq env (some conf)).1.srvToJoin.isSome) ∧
    (s.handleAddSrvReq env (some conf)).1.id = s.id := by
  have hleaver := h.checkLeaver env
  dsimp only [handleAddSrvReq]
  rw [if_neg (by simp [h.leads, h.notPaused])]
  generalize hc : (if (s.checkSrvToLeaveTimeout env).params.useNewJoinerType then
    { conf with newJoiner := true } else conf) = conf'
  have hid : conf'.id = other := by
    rw [← hc]
    split <;> exact hconf
  split
  · exact ⟨hleaver, fun hs => hs, fun _ hm => (nomatch hm), rfl⟩
  split
  · exact ⟨hleaver, fun hs => hs, fun _ hm => (nomatch hm), rfl⟩
  split
  · exact ⟨hleaver, fun hs => hs, fun _ hm => (nomatch hm), rfl⟩
  · refine ⟨?_, fun _ => rfl, ?_, rfl⟩
    · exact ⟨hleaver.leads, hleaver.leader, hleaver.notCatchingUp, hleaver.notPaused,
        hleaver.members, hleaver.peers, hleaver.notLeaving, by rintro p ⟨⟩; exact hid,
        by rintro - c ⟨⟩; exact hid, hleaver.uncommitted, hleaver.pending, hleaver.ordered⟩
    · intro m hm
      rw [mem_singleton.mp hm]
      exact ⟨⟨rfl, s.config, rfl, h.members⟩, rfl⟩

theorem Grown.checkLeaver (h : Grown s other) (env : Env) :
    Grown (s.checkSrvToLeaveTimeout env) other := by
  have hpeers : (s.checkSrvToLeaveTimeout env).peers = s.peers := by simp [h.notLeaving]
  refine ⟨h.leader, h.members, ?_, h.notJoining, ?_, h.pending⟩
  · rw [hpeers]
    exact h.peer
  · simp [h.notLeaving]

theorem Grown.add (h : Grown s other) (env : Env) (hconf : conf.id = other) :
    Grown (s.handleAddSrvReq env (some conf)).1 other ∧
    (s.handleAddSrvReq env (some conf)).2.1 = [] ∧
    (s.handleAddSrvReq env (some conf)).1.id = s.id := by
  dsimp only [handleAddSrvReq]
  split
  · exact ⟨h, rfl, rfl⟩
  · generalize hc : (if (s.checkSrvToLeaveTimeout env).params.useNewJoinerType then
      { conf with newJoiner := true } else conf) = conf'
    have hid : conf'.id = other := by
      rw [← hc]
      split <;> exact hconf
    have hchecked := h.checkLeaver env
    have hfound : ((s.checkSrvToLeaveTimeout env).findPeer conf'.id).isSome := by
      rw [findPeer_isSome, hid]
      exact hchecked.peer
    rw [if_pos (.inl hfound)]
    exact ⟨hchecked, rfl, rfl⟩

theorem Recruited.add (h : Recruited s other) (env : Env) (conf : SrvConfig) :
    (s.handleAddSrvReq env (some conf)).1 = s ∧ (s.handleAddSrvReq env (some conf)).2.1 = [] := by
  dsimp only [handleAddSrvReq]
  rw [if_pos (.inl (by rw [h.follows]; decide))]
  exact ⟨rfl, rfl⟩

/-! ## Invitations -/

theorem getServer_isNone_of_ids {i j : Int} (hids : c.ids = [j]) (hne : i ≠ j) :
    c.getServer i = none := by
  rw [← not_isSome_iff_eq_none, getServer_isSome, hids]
  simpa using hne

theorem length_eq_one_of_ids {j : Int} (hids : c.ids = [j]) : ¬ 1 < c.servers.length := by
  have hlen : c.ids.length = c.servers.length := length_map _
  rw [← hlen, hids]
  exact Nat.lt_irrefl 1

theorem Joint.length (h : s.Joint other c) (hne : s.id ≠ other) : 1 < c.servers.length := by
  have hlen : c.ids.length = c.servers.length := length_map _
  rw [← hlen]
  by_contra hle
  match hids : c.ids with
  | [] =>
    rw [Joint, hids] at h
    cases h.1
  | [j] =>
    rw [Joint, hids, mem_singleton, mem_singleton] at h
    exact hne (h.1.trans h.2.symm)
  | _ :: _ :: _ =>
    rw [hids, length_cons, length_cons] at hle
    omega

theorem reconfigure_joiner (s : RaftServer) (c : ClusterConfig) :
    (s.reconfigure c).srvToJoin = s.srvToJoin.filter (fun p => !(s.role == .leader &&
      (c.servers.filter (fun sc => sc.id != s.id && (s.findPeer sc.id).isNone)).any
        (fun sc => sc.id == p.id))) ∧
    (s.reconfigure c).writePaused = s.writePaused := by
  dsimp only [reconfigure, withOwnConfig]
  generalize s.peers.map Peer.id = ids
  rcases foldl_removePeer_eq ((((c.getServer s.id).elim s s.applyOwnConfig).addPeers _).leaveIfRemoved
    c) (ids.filter _) with ⟨ps, hps⟩
  rw [hps]
  cases c.getServer s.id <;> exact ⟨rfl, rfl⟩

theorem reconfigure_srvToJoin_none (c : ClusterConfig) (h : s.srvToJoin = none) :
    (s.reconfigure c).srvToJoin = none := by
  rw [(reconfigure_joiner s c).1, h]
  rfl

theorem recruited_joinCluster {req : ReqMsg} (hids : c.ids = [other]) (hne : s.id ≠ other)
    (hidle : s.state.catchingUp = true → s.quickCommitIndex ≤ s.smCommitIndex) :
    Recruited (s.joinCluster req c) other ∧ (s.joinCluster req c).id = s.id := by
  have hown : ∀ u : RaftServer, u.id = s.id → u.withOwnConfig c = u := by
    intro u hu
    rw [withOwnConfig, hu, getServer_isNone_of_ids hids hne]
    rfl
  dsimp only [joinCluster]
  generalize hu : saveState _ = u
  have hid : u.id = s.id := by rw [← hu]; rfl
  refine ⟨⟨?_, ?_, ?_, ?_, ?_⟩, ?_⟩
  · rw [(reconfigure_frame u c).2.2.2.2.2.2.1, ← hu]
    rfl
  · rw [(reconfigure_frame u c).2.1, hown u hid, ← hu]
    rfl
  · exact reconfigure_srvToJoin_none c (by rw [← hu]; rfl)
  · exact hids
  · simp only [reconfigure_frame]
    rw [← hu]
    split
    · next hc => exact hidle hc
    · exact le_rfl
  · rwa [(reconfigure_frame u c).2.2.2.2.1]

/-- A server that leads on its own refuses an invitation, or follows it. -/
theorem Lone.invite (h : Lone s other) {req : ReqMsg} (hids : c.ids = [other])
    (hsrc : req.src = other) (hne : s.id ≠ other) :
    (s.srvToJoin.isSome ∧ s.id ≤ other ∧ (s.handleJoinClusterReq req (some c)).1 = s) ∨
    (¬ (s.srvToJoin.isSome ∧ s.id ≤ other) ∧
      Recruited (s.handleJoinClusterReq req (some c)).1 other ∧
      (s.handleJoinClusterReq req (some c)).1.id = s.id) := by
  dsimp only [handleJoinClusterReq]
  rw [if_neg (length_eq_one_of_ids h.members), hsrc]
  split
  · next hjoin => exact .inl ⟨hjoin.1, hjoin.2, rfl⟩
  · next hjoin =>
    refine .inr ⟨hjoin, recruited_joinCluster hids hne ?_⟩
    intro hc
    cases h.notCatchingUp.symm.trans hc

theorem Grown.invite (h : Grown s other) (hne : s.id ≠ other) (req : ReqMsg) (c : ClusterConfig) :
    (s.handleJoinClusterReq req (some c)).1 = s := by
  dsimp only [handleJoinClusterReq]
  rw [if_pos (h.members.length hne)]
  split <;> rfl

theorem Recruited.invite (h : Recruited s other) (req : ReqMsg)
    (hids : c.ids = [other]) (hne : s.id ≠ other) :
    Recruited (s.handleJoinClusterReq req (some c)).1 other ∧
      (s.handleJoinClusterReq req (some c)).1.id = s.id := by
  dsimp only [handleJoinClusterReq]
  rw [if_neg (length_eq_one_of_ids h.members), if_neg (by simp [h.notJoining])]
  exact recruited_joinCluster hids hne (fun _ => h.idle)

/-! ## Answers and errors -/

theorem ConfAt.of_append {e : LogEntry} {i : Nat} (hlog : t.log = s.log.append e)
    (h : t.ConfAt i c) : s.ConfAt i c ∨ i = s.log.nextSlot ∧ e.conf? = some c := by
  rw [ConfAt, hlog] at h
  obtain ⟨e', he', hc⟩ := bind_eq_some_iff.mp h
  rcases append_entryAt_cases he' with hold | ⟨hi, rfl⟩
  · exact .inl (bind_eq_some_iff.mpr ⟨e', hold, hc⟩)
  · exact .inr ⟨hi, hc⟩

theorem ConfAt.lt {i : Nat} (h : s.ConfAt i c) : i < s.log.nextSlot := by
  obtain ⟨e, he, -⟩ := bind_eq_some_iff.mp h
  exact entryAt_lt_nextSlot he

theorem Lone.joint_confWithJoiner (h : Lone s other) {sc : SrvConfig} (hsc : sc.id = other) :
    s.Joint other (s.confWithJoiner sc) := by
  have hbase : s.id ∈ s.latestConf.ids := by
    unfold latestConf
    cases hu : s.uncommittedConfig with
    | none =>
      rw [getD_none, h.members]
      exact mem_singleton_self _
    | some u => exact h.uncommitted u hu
  have hids : (s.confWithJoiner sc).ids = s.latestConf.ids ++ [sc.id] := by
    simp [confWithJoiner, addServer, ids, setLogIdx]
  rw [Joint, hids]
  exact ⟨mem_append_left _ hbase, mem_append_right _ (by rw [hsc]; exact mem_singleton_self _)⟩

theorem Lone.appendJoint (h : Lone s other) (hc : s.Joint other c) (env : Env) :
    Lone ((s.markChanging c).appendConf env c) other := by
  have hlog : ((s.markChanging c).appendConf env c).log =
      s.log.append ⟨s.state.term, .conf c⟩ := rfl
  refine { h with uncommitted := ?_, pending := ?_, ordered := ?_ }
  · rintro u ⟨⟩
    exact hc.1
  · intro i d hi hd
    rcases ConfAt.of_append hlog hd with hold | ⟨-, hnew⟩
    · exact h.pending i d hi hold
    · cases hnew
      exact .inr hc
  · intro i j d d' hi hij hd hd' hother
    rcases ConfAt.of_append hlog hd' with hold' | ⟨-, hnew'⟩
    · rcases ConfAt.of_append hlog hd with hold | ⟨hi', -⟩
      · exact h.ordered i j d d' hi hij hold hold' hother
      · have hlt := hold'.lt
        omega
    · cases hnew'
      exact hc.2

theorem Lone.syncLog (h : Lone s other) (env : Env) (start : Nat) :
    Lone (s.syncLogToNewSrv env start).1 other ∧
    (s.syncLogToNewSrv env start).1.srvToJoin.isSome = s.srvToJoin.isSome ∧
    NoInvitation (s.syncLogToNewSrv env start).2 ∧
    (s.syncLogToNewSrv env start).1.id = s.id := by
  unfold syncLogToNewSrv
  split
  · next p sc hjoin hadd =>
    dsimp only
    split
    · exact ⟨h.appendJoint (h.joint_confWithJoiner (h.adding (by rw [hjoin]; rfl) sc hadd)) env, rfl, .nil, rfl⟩
    split
    · unfold createSyncSnapshotReq
      cases s.syncContext env p start with
      | none => exact ⟨h, rfl, .nil, rfl⟩
      | some ctx =>
        refine ⟨{ h with joiner := ?_, adding := fun _ => h.adding (hjoin ▸ rfl) }, ?_, ?_, rfl⟩
        · rintro p' ⟨⟩
          exact h.joiner p hjoin
        · rw [hjoin]
          rfl
        · exact .single fun _ hbody => nomatch hbody
    · exact ⟨h, rfl, .single (fun _ hbody => nomatch hbody), rfl⟩
  · exact ⟨h, rfl, .nil, rfl⟩

theorem syncLog_of_none (h : s.srvToJoin = none) (env : Env) (start : Nat) :
    s.syncLogToNewSrv env start = (s, []) := by
  rw [syncLogToNewSrv, h]

theorem Lone.giveUp (h : Lone s other) : Lone s.handleJoinRpcErr other :=
  { h with joiner := nofun, adding := nofun }

/-! ## The commit thread -/

theorem Lone.advance (h : Lone s other) (hk : s.smCommitIndex ≤ k) : Lone (s.applied k) other :=
  { h with
    pending := fun i c hi => h.pending i c (hk.trans_lt hi)
    ordered := fun i j c c' hi => h.ordered i j c c' (hk.trans_lt hi) }

theorem Grown.advance (h : Grown s other) (hk : s.smCommitIndex ≤ k) : Grown (s.applied k) other :=
  { h with pending := fun i c hi => h.pending i c (hk.trans_lt hi) }

theorem Lone.reconfigureOwn (h : Lone s other) (hids : c.ids = [s.id]) :
    Lone (s.reconfigure c) other ∧ (s.reconfigure c).srvToJoin = s.srvToJoin := by
  have hadded : c.servers.filter (fun sc => sc.id != s.id && (s.findPeer sc.id).isNone) = [] := by
    rw [filter_eq_nil_iff]
    intro sc hsc
    have hmem : sc.id ∈ c.ids := mem_map_of_mem hsc
    rw [hids, mem_singleton] at hmem
    simp [hmem]
  have hjoin : (s.reconfigure c).srvToJoin = s.srvToJoin := by
    rw [(reconfigure_joiner s c).1, hadded]
    cases s.srvToJoin <;> simp
  have hpeers : (s.reconfigure c).peers = [] := by
    rw [← map_eq_nil_iff, reconfigure_ids, h.peers, hids]
    simp [h.notLeaving]
  refine ⟨?_, hjoin⟩
  refine ⟨by simp [h.leads], by simp [h.leader], ?_, ?_, by simp [hids], hpeers,
    by simp [h.notLeaving], ?_, ?_, ?_, ?_, ?_⟩
  · rw [(reconfigure_frame s c).2.1]
    unfold withOwnConfig
    cases c.getServer s.id <;> simp [h.notCatchingUp]
  · rw [(reconfigure_joiner s c).2]
    exact h.notPaused
  · rw [hjoin]
    exact h.joiner
  · rw [hjoin]
    simpa using h.adding
  · intro u hu
    rw [reconfigure_uncommittedConfig] at hu
    have hold := (filter_eq_some_iff.mp hu).1
    simpa using h.uncommitted u hold
  · intro i d hi hd
    have hd' : s.ConfAt i d := by simpa [ConfAt] using hd
    simpa [Joint] using h.pending i d (by simpa using hi) hd'
  · intro i j d d' hi hij hd hd'
    exact h.ordered i j d d' (by simpa using hi) hij (by simpa [ConfAt] using hd)
      (by simpa [ConfAt] using hd')

/-- The other server becomes a member, and is not being added any more. -/
theorem Lone.reconfigureJoint (h : Lone s other) (hne : s.id ≠ other)
    (hc : s.Joint other c) (hpending : ∀ i d, k < i → s.ConfAt i d → s.Joint other d) :
    Grown ((s.reconfigure c).applied k) other := by
  refine ⟨by simpa [h.leader] using hne, ?_, ?_, ?_, by simp [h.notLeaving], ?_⟩
  · simpa [Joint] using hc
  · rw [applied_peers, reconfigure_ids, h.peers]
    simp [h.notLeaving, hc.2, hne.symm]
  · rw [applied_srvToJoin, (reconfigure_joiner s c).1]
    refine filter_eq_none_iff.mpr fun p hp => ?_
    obtain ⟨sc, hsc, hid⟩ := mem_map.mp hc.2
    have hfresh : s.findPeer other = none := by simp [findPeer, h.peers]
    simp only [h.leads, h.joiner p hp, Bool.not_eq_true', Bool.and_eq_false_imp, beq_self_eq_true,
      forall_const, Bool.not_eq_false, List.any_eq_true, mem_filter]
    exact ⟨sc, ⟨hsc, by simp [hid, hne.symm, hfresh]⟩, by simp [hid]⟩
  · intro i d hi hd
    have hd' : s.ConfAt i d := by simpa [ConfAt] using hd
    simpa [Joint] using hpending i d hi hd'

theorem Grown.reconfigure (h : Grown s other) (hc : s.Joint other c) :
    Grown (s.reconfigure c) other := by
  refine ⟨by simpa using h.leader, ?_, ?_, reconfigure_srvToJoin_none c h.notJoining,
    by simp [h.notLeaving], ?_⟩
  · simpa [Joint] using hc
  · rw [reconfigure_ids]
    have hpeer := h.peer
    have hmember : (c.getServer other).isSome := by
      rw [getServer_isSome]
      exact hc.2
    rw [if_neg (by simp [h.notLeaving]), mem_filter]
    refine ⟨mem_append_left _ hpeer, decide_eq_true ?_⟩
    intro hremoved
    have hgone := (mem_filter.mp hremoved).2
    rw [isNone_iff_eq_none] at hgone
    cases hgone ▸ hmember
  · intro i d hi hd
    have hd' : s.ConfAt i d := by simpa [ConfAt] using hd
    simpa [Joint] using h.pending i d (by simpa using hi) hd'

theorem commitNext_executes (h : s.commitNext = some t) :
    s.smCommitIndex < s.quickCommitIndex ∧ ∃ e, s.log.entryAt (s.smCommitIndex + 1) = some e ∧
      t = (s.executeEntry e).applied (s.smCommitIndex + 1) := by
  unfold commitNext at h
  split at h
  case isFalse => cases h
  next hwork =>
    refine ⟨hwork.1, ?_⟩
    cases he : s.log.entryAt (s.smCommitIndex + 1) with
    | none =>
      cases he ▸ h
    | some e =>
      refine ⟨e, rfl, ?_⟩
      rw [he] at h
      unfold executeEntry
      cases hval : e.val with
      | appLog buf =>
        simp only [hval] at h
        split at h
        · cases h
        · exact (some.inj h).symm
      | conf c =>
        simp only [hval] at h
        exact (some.inj h).symm

theorem Lone.commitNext (h : Lone s other) (hne : s.id ≠ other) (ht : s.commitNext = some t) :
    Grown t other ∨ Lone t other ∧ t.srvToJoin = s.srvToJoin := by
  obtain ⟨-, e, he, rfl⟩ := commitNext_executes ht
  have hlt : s.smCommitIndex < s.smCommitIndex + 1 := Nat.lt_succ_self _
  unfold executeEntry
  cases hval : e.val with
  | appLog buf => exact .inr ⟨h.advance hlt.le, rfl⟩
  | conf c =>
    have hc : s.ConfAt (s.smCommitIndex + 1) c := by
      rw [ConfAt, he]
      simp [LogEntry.conf?, hval]
    -- only the flag of the change is cleared before the configuration is looked at
    have hcleared : Lone s.endConfigChange other := { h with }
    dsimp only
    unfold commitConf
    split
    · rcases h.pending _ c hlt hc with hown | hjoint
      · obtain ⟨hlone, hjoin⟩ := hcleared.reconfigureOwn hown
        exact .inr ⟨hlone.advance (by simp), hjoin⟩
      · refine .inl (hcleared.reconfigureJoint hne hjoint ?_)
        intro i d hi hd
        have hother : other ∈ d.ids := h.ordered _ i c d hlt hi.le hc hd hjoint.2
        rcases h.pending i d (hlt.trans hi) hd with hown | hd'
        · rw [hown, mem_singleton] at hother
          exact absurd hother.symm hne
        · exact hd'
    · exact .inr ⟨hcleared.advance hlt.le, rfl⟩

theorem Grown.commitNext (h : Grown s other) (ht : s.commitNext = some t) : Grown t other := by
  obtain ⟨-, e, he, rfl⟩ := commitNext_executes ht
  have hlt : s.smCommitIndex < s.smCommitIndex + 1 := Nat.lt_succ_self _
  unfold executeEntry
  cases hval : e.val with
  | appLog buf => exact h.advance hlt.le
  | conf c =>
    have hc : s.ConfAt (s.smCommitIndex + 1) c := by
      rw [ConfAt, he]
      simp [LogEntry.conf?, hval]
    have hcleared : Grown s.endConfigChange other :=
      { h with }
    dsimp only
    unfold commitConf
    split
    · exact (hcleared.reconfigure (h.pending _ c hlt hc)).advance (by simp)
    · exact hcleared.advance hlt.le

/-- A recruit has nothing to apply before the log of the other server arrives. -/
theorem Recruited.commitNext (h : Recruited s other) : s.commitNext = none := by
  rw [RaftServer.commitNext, if_neg]
  intro hwork
  exact absurd hwork.1 (Nat.not_lt.mpr h.idle)

/-! ## Elections and the heartbeat timer -/

/-- Changing the role, a server names nobody but itself as the leader, and adds nobody. -/
structure Aside (s t : RaftServer) : Prop where
  leader : t.leader = s.leader ∨ t.leader = -1 ∨ t.leader = s.id
  joiner : s.srvToJoin = none → t.srvToJoin = none

theorem Aside.refl (s : RaftServer) : Aside s s := ⟨.inl rfl, fun h => h⟩

theorem Aside.of_fields (hleader : t.leader = s.leader ∨ t.leader = -1)
    (hjoin : t.srvToJoin = s.srvToJoin ∨ t.srvToJoin = none) : Aside s t := by
  refine ⟨hleader.imp_right Or.inl, fun h => ?_⟩
  rcases hjoin with heq | hnone
  · exact heq.trans h
  · exact hnone

theorem yieldLeadership_aside (s : RaftServer) (env : Env) (imm : Bool) (succ : Int) :
    Aside s (s.yieldLeadership env imm succ) := by
  unfold yieldLeadership
  split
  · exact .refl s
  split
  · exact .of_fields (.inr rfl) (.inr rfl)
  · exact .of_fields (.inl rfl) (.inl rfl)

theorem becomeLeader_aside (s : RaftServer) (env : Env) :
    (s.becomeLeader env).leader = -1 ∨ (s.becomeLeader env).leader = s.id := by
  have htaken : (s.takeLeadership.requestAppendEntries env).leader = s.id := by simp
  dsimp only [becomeLeader]
  split
  · rcases (yieldLeadership_aside (s.takeLeadership.requestAppendEntries env) env false (-1)).leader
      with hold | hnone | hown
    · exact .inr (hold.trans htaken)
    · exact .inl hnone
    · exact .inr (hown.trans (by simp))
  · exact .inr htaken

theorem requestsToRegularMembers_noInvitation (s : RaftServer) {body : ReqBody}
    (h : ∀ c, body ≠ .joinCluster c) : NoInvitation (s.requestsToRegularMembers body) := by
  intro m hm
  obtain ⟨p, -, rfl⟩ := mem_map.mp hm
  exact h

theorem initiateVote_aside (s : RaftServer) (env : Env) (force : Bool) :
    Aside s (s.initiateVote env force).1 ∧ NoInvitation (s.initiateVote env force).2 := by
  have hwon : Aside s ((s.openBallot env).castOwnVote.completeElection.becomeLeader env) := by
    refine ⟨.inr (becomeLeader_aside _ env), fun _ => ?_⟩
    dsimp only [becomeLeader]
    split
    · exact (yieldLeadership_aside _ env false (-1)).joiner rfl
    · rfl
  unfold initiateVote
  split
  · exact ⟨.of_fields (.inl rfl) (.inl rfl), .nil⟩
  dsimp only
  split
  · dsimp only [requestVote]
    split
    · rw [if_pos (by simp)]
      exact ⟨hwon, .nil⟩
    · exact ⟨.of_fields (.inr rfl) (.inl rfl),
        requestsToRegularMembers_noInvitation _ fun _ hbody => nomatch hbody⟩
  · split
    · exact ⟨.refl s, .nil⟩
    · exact ⟨.of_fields (.inr rfl) (.inl rfl), .nil⟩

theorem requestPrevote_aside (s : RaftServer) (env : Env) :
    Aside s (s.requestPrevote env).1 ∧ NoInvitation (s.requestPrevote env).2 := by
  dsimp only [requestPrevote]
  split
  · exact ⟨.of_fields (.inr rfl) (.inl rfl), .nil⟩
  · exact ⟨.of_fields (.inr rfl) (.inl rfl),
      requestsToRegularMembers_noInvitation _ fun _ hbody => nomatch hbody⟩

theorem handleElectionTimeout_aside (s : RaftServer) (env : Env) :
    Aside s (s.handleElectionTimeout env).1 ∧ NoInvitation (s.handleElectionTimeout env).2 := by
  have htimer : Aside s s.restartElectionTimer := .of_fields (.inl rfl) (.inl rfl)
  unfold handleElectionTimeout
  split
  · refine ⟨?_, .nil⟩
    split <;> exact .of_fields (.inl rfl) (.inl rfl)
  split
  · exact ⟨htimer, .nil⟩
  split
  · exact ⟨.refl s, .nil⟩
  split
  · exact ⟨htimer, .nil⟩
  split
  · exact ⟨.refl s, .nil⟩
  split
  · exact ⟨htimer, .nil⟩
  dsimp only
  have hprep : s.prepareElection.leader = s.leader ∧ s.prepareElection.id = s.id ∧
      s.prepareElection.srvToJoin = s.srvToJoin := by
    dsimp only [prepareElection]
    split <;> split <;> exact ⟨rfl, rfl, rfl⟩
  have hafter : ∀ u : RaftServer, Aside s.prepareElection u → Aside s u.restartElectionTimer := by
    intro u hu
    obtain ⟨hleader, hjoin⟩ := hu
    rw [hprep.1, hprep.2.1] at hleader
    rw [hprep.2.2] at hjoin
    exact ⟨hleader, hjoin⟩
  split
  · have hvote := initiateVote_aside s.prepareElection env false
    exact ⟨hafter _ hvote.1, hvote.2⟩
  · have hpre := requestPrevote_aside s.prepareElection env
    exact ⟨hafter _ hpre.1, hpre.2⟩

section

variable (h : Grown s other)
include h

theorem Grown.leader_ne (haside : Aside s t) (hne : s.id ≠ other) (hpos : 0 < other) :
    t.leader ≠ other := by
  rcases haside.leader with hold | hnone | hown
  · rw [hold]
    exact h.leader
  · omega
  · rwa [hown]

theorem Grown.of_core (hcore : t.core = s.core) (hleader : t.leader ≠ other)
    (hjoin : t.srvToJoin = none) : Grown t other := by
  have hid : t.id = s.id :=
    show t.core.id = s.core.id from congrArg id hcore
  have hconfig : t.config = s.config :=
    show t.core.config = s.core.config from congrArg config hcore
  have hleave : t.srvToLeave = s.srvToLeave :=
    show t.core.srvToLeave = s.core.srvToLeave from congrArg srvToLeave hcore
  have hsm : t.smCommitIndex = s.smCommitIndex :=
    show t.core.smCommitIndex = s.core.smCommitIndex from congrArg smCommitIndex hcore
  refine ⟨hleader, ?_, ?_, hjoin, hleave.trans h.notLeaving, ?_⟩
  · rw [Joint, hid, hconfig]
    exact h.members
  · rw [core_peers hcore]
    exact h.peer
  · intro i c hi hc
    rw [Joint, hid]
    rw [ConfAt, core_log hcore] at hc
    exact h.pending i c (hsm ▸ hi) hc

theorem Grown.joint_lastConfigInLog : s.Joint other s.lastConfigInLog := by
  dsimp only [lastConfigInLog]
  generalize hl : (s.log.entries.drop _).filterMap LogEntry.conf? = l
  rcases eq_nil_or_concat l with rfl | ⟨l', c, rfl⟩
  · exact h.members
  · have hc : c ∈ l'.concat c := by simp
    rw [← hl] at hc
    obtain ⟨e, he, hec⟩ := mem_filterMap.mp hc
    obtain ⟨k, hk⟩ := mem_iff_getElem?.mp he
    rw [getElem?_drop] at hk
    have hat : s.log.entryAt (max (s.smCommitIndex + 1) s.log.startIndex + k) = some e := by
      refine entryAt_eq_some_iff.mpr ⟨by omega, ?_⟩
      rw [← hk]
      congr 1
      omega
    have hconf : s.ConfAt (max (s.smCommitIndex + 1) s.log.startIndex + k) c := by
      rwa [ConfAt, hat]
    simpa using h.pending _ c (by omega) hconf

theorem Grown.takeLeadership (hne : s.id ≠ other) (env : Env) :
    Grown (s.takeLeadership.requestAppendEntries env) other := by
  have hlog : (s.takeLeadership.requestAppendEntries env).log = s.log.append s.leaderConfEntry := by
    simp
  have hpeers : (s.takeLeadership.requestAppendEntries env).peers.map Peer.id =
      s.peers.map Peer.id := by
    rw [requestAppendEntries_peers, takeLeadership_peers, List.map_map]
    rfl
  refine ⟨by simpa using hne, ?_, ?_, rfl, by simp [h.notLeaving], ?_⟩
  · simpa [Joint] using h.members
  · rw [hpeers]
    exact h.peer
  · intro i c hi hc
    rcases ConfAt.of_append hlog hc with hold | ⟨-, hnew⟩
    · simpa [Joint] using h.pending i c (by simpa using hi) hold
    · cases hnew
      simpa [Joint, ids, setLogIdx] using h.joint_lastConfigInLog

theorem Grown.electionTimeout (hne : s.id ≠ other) (hpos : 0 < other) (env : Env) :
    Grown (s.handleElectionTimeout env).1 other := by
  have haside := (handleElectionTimeout_aside s env).1
  have hleader := h.leader_ne haside hne hpos
  cases handleElectionTimeout_elects s env with
  | steady hsteady => exact h.of_core hsteady.core hleader (haside.joiner h.notJoining)
  | elected u hu _ ht hrole =>
    -- what the winner had for a leader and a joiner is overwritten
    have hbefore : Grown { u with leader := s.leader, srvToJoin := none } other :=
      h.of_core hu.core h.leader rfl
    have hid : u.id = s.id := core_read (fun _ => rfl) hu.core
    have hwon : Grown (u.takeLeadership.requestAppendEntries env) other :=
      hbefore.takeLeadership (hid.trans_ne hne) env
    exact hwon.of_core ht.core hleader (ht.role hrole).2.2

theorem Grown.yieldLeadership (hne : s.id ≠ other) (hpos : 0 < other) (env : Env) (imm : Bool)
    (succ : Int) : Grown (s.yieldLeadership env imm succ) other := by
  have haside := yieldLeadership_aside s env imm succ
  exact h.of_core (yieldLeadership_steady s env imm succ).core (h.leader_ne haside hne hpos)
    (haside.joiner h.notJoining)

theorem Grown.heartbeatTimeout (hne : s.id ≠ other) (hpos : 0 < other) (env : Env)
    (expired : Bool) : Grown (s.handleHbTimeout env expired) other := by
  have hchecked := h.checkLeaver env
  dsimp only [handleHbTimeout]
  split
  · refine hchecked.of_core (stepDown_steady _).core ?_ rfl
    have hnone : (s.checkSrvToLeaveTimeout env).stepDown.leader = -1 := rfl
    omega
  split
  · exact hchecked
  split
  · exact hchecked.yieldLeadership hne hpos env true (-1)
  · exact hchecked.of_core (updateTargetPriority_steady _).core hchecked.leader hchecked.notJoining

end

theorem Lone.electionTimeout (h : Lone s other) (env : Env) :
    Lone (s.handleElectionTimeout env).1 other ∧
      (s.handleElectionTimeout env).1.srvToJoin = s.srvToJoin := by
  have htimer : Lone s.restartElectionTimer other :=
    { h with }
  unfold handleElectionTimeout
  split
  · split
    all_goals exact ⟨{ h with }, rfl⟩
  split
  · exact ⟨htimer, rfl⟩
  split
  · exact ⟨h, rfl⟩
  split
  · exact ⟨htimer, rfl⟩
  rw [if_pos h.leads]
  exact ⟨h, rfl⟩

theorem Lone.yieldLeadership (h : Lone s other) (env : Env) (imm : Bool) (succ : Int) :
    s.yieldLeadership env imm succ = s := by
  have halone : s.getNumVotingMembers ≤ 1 := by
    rw [getNumVotingMembers, h.peers]
    split <;> simp
  simp [RaftServer.yieldLeadership, yieldRefused, halone]

theorem Lone.heartbeatTimeout (h : Lone s other) (env : Env) (expired : Bool) :
    Lone (s.handleHbTimeout env expired) other ∧
      (s.handleHbTimeout env expired).srvToJoin = s.srvToJoin := by
  have hchecked := h.checkLeaver env
  rw [handleHbTimeout, if_neg (by simp [h.notPaused]), if_neg (by simp [h.leads])]
  split
  · rw [hchecked.yieldLeadership env true (-1)]
    exact ⟨hchecked, rfl⟩
  · exact ⟨{ hchecked with }, rfl⟩

theorem Recruited.electionTimeout (h : Recruited s other) (env : Env) :
    Recruited (s.handleElectionTimeout env).1 other := by
  unfold handleElectionTimeout
  split
  · split <;> exact { h with }
  · rw [if_pos h.catchingUp]
    exact { h with }

theorem Recruited.yieldLeadership (h : Recruited s other) (env : Env) (imm : Bool) (succ : Int) :
    Recruited (s.yieldLeadership env imm succ) other := by
  unfold RaftServer.yieldLeadership
  split
  · exact h
  split
  · exact ⟨rfl, h.catchingUp, rfl, h.members, h.idle⟩
  · exact { h with }

theorem Recruited.heartbeatTimeout (h : Recruited s other) (env : Env) (expired : Bool) :
    Recruited (s.handleHbTimeout env expired) other := by
  dsimp only [handleHbTimeout]
  split
  · exact ⟨rfl, h.catchingUp, rfl, h.members, h.idle⟩
  · rw [if_pos (by simp [h.follows])]
    exact { h with }

/-! ## What a server does on its own -/

inductive Phase (s : RaftServer) (other : Int) : Prop
  | lone (h : Lone s other)
  | grown (h : Grown s other)
  | recruited (h : Recruited s other)

/-- The server has added the other one or is about to: it refuses one with a higher id. -/
inductive Insists (s : RaftServer) (other : Int) : Prop
  | adding (h : Lone s other) (hjoin : s.srvToJoin.isSome)
  | added (h : Grown s other)

theorem Lone.not_recruited (h : Lone s other) (h' : Recruited s other) : False :=
  absurd (h.leads.symm.trans h'.follows) (by decide)

theorem Lone.not_grown (h : Lone s other) (h' : Grown s other) : False := by
  have hpeer := h'.peer
  cases h.peers ▸ hpeer

theorem Grown.not_recruited (h : Grown s other) (hne : s.id ≠ other) (h' : Recruited s other) :
    False := by
  have hself := h.members.1
  rw [h'.members, mem_singleton] at hself
  exact hne hself

/-- A step without an invitation of the other server. Whoever insists goes on to, nobody is
recruited, and who invites insists. -/
structure Moves (s t : RaftServer) (other : Int) (ms : List ReqMsg) : Prop where
  id : t.id = s.id
  phase : Phase t other
  insists : Insists s other → Insists t other
  recruited : Recruited t other → Recruited s other
  sends : ∀ m ∈ ms, ∀ c, m.body = .joinCluster c → IsInvitation s.id m ∧ Insists t other

namespace Moves

variable {ms : List ReqMsg}

theorem of_lone (h : Lone s other) (hid : t.id = s.id) (ht : Lone t other)
    (hjoin : s.srvToJoin.isSome → t.srvToJoin.isSome)
    (hsends : ∀ m ∈ ms, ∀ c, m.body = .joinCluster c → IsInvitation s.id m ∧ t.srvToJoin.isSome) :
    Moves s t other ms where
  id := hid
  phase := .lone ht
  insists hs := by
    cases hs with
    | adding _ hadding => exact .adding ht (hjoin hadding)
    | added h' => exact (h.not_grown h').elim
  recruited h' := (ht.not_recruited h').elim
  sends m hm c hc := ⟨(hsends m hm c hc).1, .adding ht (hsends m hm c hc).2⟩

theorem of_grown (hne : s.id ≠ other) (hid : t.id = s.id) (ht : Grown t other)
    (hsends : NoInvitation ms) : Moves s t other ms where
  id := hid
  phase := .grown ht
  insists _ := .added ht
  recruited h' := (ht.not_recruited (hid.trans_ne hne) h').elim
  sends m hm c hc := absurd hc (hsends m hm c)

theorem of_recruited (h : Recruited s other) (hne : s.id ≠ other) (hid : t.id = s.id)
    (ht : Recruited t other) (hsends : NoInvitation ms) : Moves s t other ms where
  id := hid
  phase := .recruited ht
  insists hs := by
    cases hs with
    | adding h' _ => exact (h'.not_recruited h).elim
    | added h' => exact (h'.not_recruited hne h).elim
  recruited _ := h
  sends m hm c hc := absurd hc (hsends m hm c)

theorem stay (h : Phase s other) (hne : s.id ≠ other) : Moves s s other [] := by
  cases h with
  | lone h => exact of_lone h rfl h (fun hs => hs) fun _ hm => (nomatch hm)
  | grown h => exact of_grown hne rfl h .nil
  | recruited h => exact of_recruited h hne rfl h .nil

end Moves

theorem handleAddSrvReq_phase (h : Phase s other) (hne : s.id ≠ other) (env : Env)
    (hconf : conf.id = other) :
    Moves s (s.handleAddSrvReq env (some conf)).1 other (s.handleAddSrvReq env (some conf)).2.1 := by
  cases h with
  | lone h =>
    obtain ⟨hlone, hkeeps, hsends, hid⟩ := h.add env hconf
    exact .of_lone h hid hlone hkeeps fun m hm _ _ => hsends m hm
  | grown h =>
    obtain ⟨hgrown, hnil, hid⟩ := h.add env hconf
    rw [hnil]
    exact .of_grown hne hid hgrown .nil
  | recruited h =>
    obtain ⟨hsame, hnil⟩ := h.add env conf
    rw [hsame, hnil]
    exact .of_recruited h hne rfl h .nil

theorem syncLogToNewSrv_phase (h : Phase s other) (hne : s.id ≠ other) (env : Env) (start : Nat) :
    Moves s (s.syncLogToNewSrv env start).1 other (s.syncLogToNewSrv env start).2 := by
  cases h with
  | lone h =>
    obtain ⟨hlone, hjoin, hnone, hid⟩ := h.syncLog env start
    exact .of_lone h hid hlone (fun hs => hjoin.trans hs) fun m hm c hc => absurd hc (hnone m hm c)
  | grown h =>
    rw [syncLog_of_none h.notJoining]
    exact .of_grown hne rfl h .nil
  | recruited h =>
    rw [syncLog_of_none h.notJoining]
    exact .of_recruited h hne rfl h .nil

theorem handleExtResp_phase (h : Phase s other) (hne : s.id ≠ other) (env : Env) {resp : RespMsg}
    (htype : resp.type = .joinCluster) (fromJoiner : Bool) :
    Moves s (s.handleExtResp env resp fromJoiner).1 other
      (s.handleExtResp env resp fromJoiner).2 := by
  rw [handleExtResp, htype]
  dsimp only
  unfold handleJoinClusterResp
  split
  · exact syncLogToNewSrv_phase h hne env resp.nextIdx
  · exact .stay h hne

/-- The events of one server: timers, operators and the commit thread. -/
def Input.isOwn : Input → Bool
  | .electionTimeout | .heartbeatTimeout _ | .retryJoinSync | .commitNext | .yieldLeadership _ _ =>
    true
  | _ => false

theorem own_phase (h : Phase s other) (hne : s.id ≠ other) (hpos : 0 < other)
    {input : Input} {o : Output} (hown : input.isOwn) (hstep : s.step env input = some (t, o)) :
    Moves s t other o.sent := by
  have hid : t.id = s.id := step_id hstep
  cases input
  case electionTimeout =>
    cases hstep
    have hnone := (handleElectionTimeout_aside s env).2
    cases h with
    | lone h =>
      obtain ⟨hlone, hjoin⟩ := h.electionTimeout env
      exact .of_lone h hid hlone (fun hs => hjoin ▸ hs) fun m hm c hc => absurd hc (hnone m hm c)
    | grown h => exact .of_grown hne hid (h.electionTimeout hne hpos env) hnone
    | recruited h => exact .of_recruited h hne hid (h.electionTimeout env) hnone
  case heartbeatTimeout expired =>
    cases hstep
    cases h with
    | lone h =>
      obtain ⟨hlone, hjoin⟩ := h.heartbeatTimeout env expired
      exact .of_lone h hid hlone (fun hs => hjoin ▸ hs) fun _ hm => (nomatch hm)
    | grown h => exact .of_grown hne hid (h.heartbeatTimeout hne hpos env expired) .nil
    | recruited h => exact .of_recruited h hne hid (h.heartbeatTimeout env expired) .nil
  case retryJoinSync =>
    cases hstep
    exact syncLogToNewSrv_phase h hne env 0
  case commitNext =>
    obtain ⟨u, hu, heq⟩ := map_eq_some_iff.mp hstep
    cases heq
    cases h with
    | lone h =>
      rcases h.commitNext hne hu with hgrown | ⟨hlone, hjoin⟩
      · exact .of_grown hne hid hgrown .nil
      · exact .of_lone h hid hlone (fun hs => hjoin ▸ hs) fun _ hm => (nomatch hm)
    | grown h => exact .of_grown hne hid (h.commitNext hu) .nil
    | recruited h =>
      cases h.commitNext ▸ hu
  case yieldLeadership imm succ =>
    cases hstep
    cases h with
    | lone h =>
      rw [h.yieldLeadership env imm succ]
      exact .stay (.lone h) hne
    | grown h => exact .of_grown hne hid (h.yieldLeadership hne hpos env imm succ) .nil
    | recruited h => exact .of_recruited h hne hid (h.yieldLeadership env imm succ) .nil
  all_goals cases hown

/-! ## What an invitation does -/

theorem invite_phase (h : Phase s other) (hne : s.id ≠ other) {m : ReqMsg} {o : Output}
    (hm : IsInvitation other m) (hstep : s.step env (.request m) = some (t, o)) :
    t.id = s.id ∧ Phase t other ∧ (s.id < other → Insists s other → t = s) ∧
      (∀ r ∈ o.resp, r.type = .joinCluster) := by
  obtain ⟨hsrc, c, hbody, hids⟩ := hm
  have hreq : s.updateTermOnReq m = s := by
    rw [updateTermOnReq, hbody]
  have hresult : s.step env (.request m) = some ((s.handleJoinClusterReq m (some c)).1,
      { resp := some (s.handleJoinClusterReq m (some c)).2 }) := by
    dsimp only [step, processReq]
    rw [hreq, hbody]
  cases hresult ▸ hstep
  have htype : ∀ r ∈ some (s.handleJoinClusterReq m (some c)).2, r.type = .joinCluster := by
    rintro r ⟨⟩
    dsimp only [handleJoinClusterReq]
    split
    · split <;> rfl
    · split <;> rfl
  cases h with
  | lone h =>
    rcases h.invite hids hsrc hne with ⟨-, -, hsame⟩ | ⟨hyields, hrecruited, hid⟩
    · rw [hsame]
      exact ⟨rfl, .lone h, fun _ _ => rfl, htype⟩
    · refine ⟨hid, .recruited hrecruited, ?_, htype⟩
      intro hlt hinsists
      cases hinsists with
      | adding _ hjoin => exact absurd ⟨hjoin, hlt.le⟩ hyields
      | added h' => exact (h.not_grown h').elim
  | grown h =>
    rw [h.invite hne m c]
    exact ⟨rfl, .grown h, fun _ _ => rfl, htype⟩
  | recruited h =>
    obtain ⟨hrecruited, hid⟩ := h.invite m hids hne
    refine ⟨hid, .recruited hrecruited, ?_, htype⟩
    intro _ hinsists
    cases hinsists with
    | adding h' _ => exact (h'.not_recruited h).elim
    | added h' => exact (h'.not_recruited hne h).elim

end RaftServer

/-! ## The pair -/

inductive Side
  | lower
  | higher
  deriving DecidableEq, Repr

def Side.other : Side → Side
  | .lower => .higher
  | .higher => .lower

theorem Side.other_other (x : Side) : x.other.other = x := by cases x <;> rfl

/-- Two servers, named after the order of their ids, and the join requests and responses between
them; other messages of the pair are not delivered. A request is listed with its sender, a response
with its receiver. -/
structure JoinPair where
  srv : Side → RaftServer
  /-- On their way, or waiting to be sent again. -/
  reqs : List (Side × ReqMsg) := []
  resps : List (Side × RespMsg) := []
  /-- Every request sent so far: any of them may turn out to have failed. -/
  sent : List (Side × ReqMsg) := []

namespace JoinPair

variable {x : Side}

inductive Action
  /-- An operator asks for the other server to be added. -/
  | addServer (x : Side) (env : Env) (conf : SrvConfig)
  | deliver (env : Env) (k : Nat)
  | answer (env : Env) (k : Nat) (fromJoiner : Bool)
  | lose (k : Nat)
  | loseAnswer (k : Nat)
  /-- `handle_ext_resp_err` for one of the requests sent: a retry, or the end of the attempt. -/
  | error (x : Side) (env : Env) (k : Nat) (giveUp : Bool)
  | own (x : Side) (env : Env) (input : RaftServer.Input)
  deriving DecidableEq, Repr

variable (p : JoinPair)

def invitations (x : Side) (ms : List ReqMsg) : List (Side × ReqMsg) :=
  (ms.filter (fun m => match m.body with | .joinCluster _ => true | _ => false)).map (fun m => (x, m))

/-- A server after its step, with the invitations that it sends. -/
def moved (x : Side) (r : RaftServer × Output) : JoinPair :=
  { p with
    srv := Function.update p.srv x r.1
    reqs := p.reqs ++ invitations x r.2.sent
    sent := p.sent ++ invitations x r.2.sent }

def addSrv (conf : SrvConfig) : ReqMsg :=
  { term := 0
    src := 0
    dst := 0
    lastLogTerm := 0
    lastLogIdx := 0
    commitIdx := 0
    body := .addServer (some conf) }

def step : Action → Option JoinPair
  | .addServer x env conf =>
    if conf.id = (p.srv x.other).id then
      ((p.srv x).step env (.request (addSrv conf))).map (p.moved x)
    else none
  | .deliver env k =>
    (p.reqs[k]?).bind (fun r => ((p.srv r.1.other).step env (.request r.2)).map (fun u =>
      { p with
        srv := Function.update p.srv r.1.other u.1
        reqs := p.reqs.eraseIdx k
        resps := p.resps ++ u.2.resp.toList.map (fun m => (r.1, m)) }))
  | .answer env k fromJoiner =>
    (p.resps[k]?).bind (fun r => ((p.srv r.1).step env (.extResponse r.2 fromJoiner)).map
      (moved { p with resps := p.resps.eraseIdx k } r.1))
  | .lose k => some { p with reqs := p.reqs.eraseIdx k }
  | .loseAnswer k => some { p with resps := p.resps.eraseIdx k }
  | .error x env k giveUp =>
    (p.sent[k]?).bind (fun r =>
      if r.1 = x ∧ (p.srv x).srvToJoin.isSome then
        if giveUp then
          ((p.srv x).step env (.extError r.2.dst false)).map (p.moved x)
        else some { p with reqs := p.reqs ++ [r] }
      else none)
  | .own x env input =>
    if input.isOwn then ((p.srv x).step env input).map (p.moved x) else none

/-- The server with the lower id gives up, after whichever of its requests has failed, only when none
of its invitations is on its way and none was accepted. -/
def Settled : Action → Prop
  | .error .lower _ _ true =>
    (∀ r ∈ p.reqs, r.1 ≠ .lower) ∧ (p.srv .higher).state.catchingUp = false
  | _ => True

instance : ∀ a, Decidable (p.Settled a)
  | .error .lower _ _ true => inferInstanceAs (Decidable (_ ∧ _))
  | .error .lower _ _ false | .error .higher _ _ _ | .addServer .. | .deliver .. | .answer ..
  | .lose _ | .loseAnswer _ | .own .. => isTrue trivial

/-- A server has accepted the other's invitation. -/
def Follows (x : Side) : Prop :=
  (p.srv x).role = .follower ∧ (p.srv x).leader = (p.srv x.other).id

instance (x : Side) : Decidable (p.Follows x) := inferInstanceAs (Decidable (_ ∧ _))

/-! ## Invariant -/

/-- Once the server with the higher id is recruited, or may be, the other one insists. -/
structure Inv (ids : Side → Int) : Prop where
  id : ∀ x, (p.srv x).id = ids x
  phase : ∀ x, (p.srv x).Phase (ids x.other)
  reqs : ∀ r ∈ p.reqs, RaftServer.IsInvitation (ids r.1) r.2
  sent : ∀ r ∈ p.sent, RaftServer.IsInvitation (ids r.1) r.2
  resps : ∀ r ∈ p.resps, r.2.type = .joinCluster
  lower : ((∃ r ∈ p.reqs, r.1 = .lower) ∨ (p.srv .higher).Recruited (ids .lower)) →
    (p.srv .lower).Insists (ids .higher)

variable {p} {q : JoinPair} {ids : Side → Int}

theorem mem_invitations {ms : List ReqMsg} {r : Side × ReqMsg}
    (h : r ∈ invitations x ms) : r.1 = x ∧ r.2 ∈ ms ∧ ∃ c, r.2.body = .joinCluster c := by
  obtain ⟨m, hm, rfl⟩ := mem_map.mp h
  obtain ⟨hmem, hbody⟩ := mem_filter.mp hm
  refine ⟨rfl, hmem, ?_⟩
  cases hb : m.body with
  | joinCluster c => exact ⟨c, rfl⟩
  | _ => simp [hb] at hbody

theorem moved_silent (p : JoinPair) (x : Side) (s : RaftServer) :
    p.moved x (s, {}) = { p with srv := update p.srv x s } := by
  simp [JoinPair.moved, invitations]

theorem Inv.ne (h : p.Inv ids) (hlt : ids .lower < ids .higher) (x : Side) :
    (p.srv x).id ≠ ids x.other := by
  rw [h.id x]
  cases x
  · exact ne_of_lt hlt
  · exact ne_of_gt hlt

theorem Inv.update (h : p.Inv ids) {s : RaftServer} (hid : s.id = (p.srv x).id)
    (hphase : s.Phase (ids x.other)) (y : Side) :
    (update p.srv x s y).id = ids y ∧ (update p.srv x s y).Phase (ids y.other) := by
  rcases eq_or_ne y x with rfl | hne
  · rw [update_self]
    exact ⟨hid.trans (h.id y), hphase⟩
  · rw [update_of_ne hne]
    exact ⟨h.id y, h.phase y⟩

theorem Inv.moved (h : p.Inv ids) {r : RaftServer × Output}
    (hm : (p.srv x).Moves r.1 (ids x.other) r.2.sent) : (p.moved x r).Inv ids := by
  have hnew : ∀ m ∈ invitations x r.2.sent,
      IsInvitation (ids m.1) m.2 ∧ m.1 = x ∧ r.1.Insists (ids x.other) := by
    intro m hmem
    obtain ⟨hx, hsent, c, hbody⟩ := mem_invitations hmem
    rw [hx, ← h.id x]
    have hsends := hm.sends m.2 hsent c hbody
    exact ⟨hsends.1, rfl, hsends.2⟩
  have hupdate := h.update hm.id hm.phase
  refine ⟨fun y => (hupdate y).1, fun y => (hupdate y).2, ?_, ?_, h.resps, ?_⟩
  · intro m hmem
    rcases mem_append.mp hmem with hold | hfresh
    · exact h.reqs m hold
    · exact (hnew m hfresh).1
  · intro m hmem
    rcases mem_append.mp hmem with hold | hfresh
    · exact h.sent m hold
    · exact (hnew m hfresh).1
  · intro hout
    show (Function.update p.srv x r.1 .lower).Insists (ids .higher)
    replace hout : (∃ m ∈ p.reqs ++ invitations x r.2.sent, m.1 = .lower) ∨
      (Function.update p.srv x r.1 .higher).Recruited (ids .lower) := hout
    cases x with
    | lower =>
      rcases hout with ⟨m, hmem, hlower⟩ | hrecruited
      · rcases mem_append.mp hmem with hold | hfresh
        · exact hm.insists (h.lower (.inl ⟨m, hold, hlower⟩))
        · exact (hnew m hfresh).2.2
      · exact hm.insists (h.lower (.inr hrecruited))
    | higher =>
      rcases hout with ⟨m, hmem, hlower⟩ | hrecruited
      · rcases mem_append.mp hmem with hold | hfresh
        · exact h.lower (.inl ⟨m, hold, hlower⟩)
        · cases hlower.symm.trans (hnew m hfresh).2.1
      · exact h.lower (.inr (hm.recruited hrecruited))

theorem Inv.sub (h : p.Inv ids) {reqs : List (Side × ReqMsg)} {resps : List (Side × RespMsg)}
    (hreqs : ∀ r ∈ reqs, r ∈ p.reqs) (hresps : ∀ r ∈ resps, r ∈ p.resps) :
    Inv { p with reqs := reqs, resps := resps } ids :=
  { h with
    reqs r hr := h.reqs r (hreqs r hr)
    resps r hr := h.resps r (hresps r hr)
    lower hout := h.lower (hout.imp_left fun ⟨r, hr, hlower⟩ => ⟨r, hreqs r hr, hlower⟩) }

/-- An invitation arrives. The lower server takes no notice while it insists, and the higher one is
recruited only by a request on its way. -/
theorem Inv.deliver (h : p.Inv ids) (hlt : ids .lower < ids .higher)
    (hstep : p.step (.deliver env k) = some q) : q.Inv ids := by
  obtain ⟨⟨x, m⟩, hreq, hmap⟩ := bind_eq_some_iff.mp hstep
  obtain ⟨⟨t, o⟩, hserver, rfl⟩ := map_eq_some_iff.mp hmap
  have hmem : (x, m) ∈ p.reqs := mem_of_getElem? hreq
  have hphase := h.phase x.other
  have hne := h.ne hlt x.other
  rw [Side.other_other] at hphase hne
  rcases invite_phase hphase hne (h.reqs _ hmem) hserver with
    ⟨hid, hafter, hrefuses, htype⟩
  have hsub : ∀ r ∈ p.reqs.eraseIdx k, r ∈ p.reqs := fun r hr => mem_of_mem_eraseIdx hr
  have hupdate := h.update (x := x.other) hid (by rw [Side.other_other]; exact hafter)
  refine ⟨fun y => (hupdate y).1, fun y => (hupdate y).2, fun r hr => h.reqs r (hsub r hr), h.sent,
    ?_, ?_⟩
  · intro r hr
    rcases mem_append.mp hr with hold | hfresh
    · exact h.resps r hold
    · obtain ⟨m', hm', rfl⟩ := mem_map.mp hfresh
      exact htype m' (mem_toList.mp hm')
  · intro hout
    cases x with
    | lower =>
      -- the higher server answers a request of the lower one, which is therefore insisting
      show (Function.update p.srv .higher t .lower).Insists (ids .higher)
      exact h.lower (.inl ⟨_, hmem, rfl⟩)
    | higher =>
      show (Function.update p.srv .lower t .lower).Insists (ids .higher)
      replace hout : (∃ r ∈ p.reqs.eraseIdx k, r.1 = .lower) ∨
        (Function.update p.srv .lower t .higher).Recruited (ids .lower) := hout
      have hinsists := h.lower (hout.imp_left fun ⟨r, hr, hlower⟩ => ⟨r, hsub r hr, hlower⟩)
      rw [update_self, hrefuses (by simpa [Side.other, h.id] using hlt) hinsists]
      exact hinsists

/-- Giving up is harmless for the higher server, and for a lower one that nobody will answer. -/
theorem Inv.error (h : p.Inv ids) {giveUp : Bool}
    (hsettled : p.Settled (.error x env k giveUp)) (hstep : p.step (.error x env k giveUp) = some q) :
    q.Inv ids := by
  obtain ⟨r, hr, hrest⟩ := bind_eq_some_iff.mp hstep
  have hsent : r ∈ p.sent := mem_of_getElem? hr
  split at hrest
  case isFalse => cases hrest
  next hjoining =>
    obtain ⟨rfl, hjoin⟩ := hjoining
    -- only a server that leads alone is adding somebody
    have hlone : (p.srv r.1).Lone (ids r.1.other) := by
      cases h.phase r.1 with
      | lone hlone => exact hlone
      | grown hgrown => simp [hgrown.notJoining] at hjoin
      | recruited hrecruited => simp [hrecruited.notJoining] at hjoin
    cases giveUp with
    | false =>
      cases hrest
      refine ⟨h.id, h.phase, ?_, h.sent, h.resps, ?_⟩
      · intro r' hr'
        rcases mem_append.mp hr' with hold | hagain
        · exact h.reqs r' hold
        · rw [mem_singleton.mp hagain]
          exact h.sent r hsent
      · rintro (⟨r', hr', hlower⟩ | hrecruited)
        · rcases mem_append.mp hr' with hold | hagain
          · exact h.lower (.inl ⟨r', hold, hlower⟩)
          · rw [mem_singleton.mp hagain] at hlower
            rw [hlower] at hlone hjoin
            exact .adding hlone hjoin
        · exact h.lower (.inr hrecruited)
    | true =>
      have hgave : (p.srv r.1).step env (.extError r.2.dst false) =
          some ((p.srv r.1).handleJoinRpcErr, {}) := by
        show some ((p.srv r.1).handleExtRespErr env r.2.dst false, ({} : Output)) = _
        rw [handleExtRespErr, if_neg (by decide), if_pos hjoin]
      rw [if_pos rfl, hgave, map_some, moved_silent] at hrest
      cases hrest
      have hupdate := h.update (x := r.1) (s := (p.srv r.1).handleJoinRpcErr) rfl (.lone hlone.giveUp)
      refine ⟨fun y => (hupdate y).1, fun y => (hupdate y).2, h.reqs, h.sent, h.resps, ?_⟩
      dsimp only
      intro hout
      cases hx : r.1 with
      | lower =>
        rw [hx] at hsettled hout
        rcases hout with ⟨m, hm, hlower⟩ | hrecruited
        · exact absurd hlower (hsettled.1 m hm)
        · exact absurd (hsettled.2.symm.trans hrecruited.catchingUp) (by decide)
      | higher =>
        rw [hx] at hout hlone
        rcases hout with hreq | hrecruited
        · exact h.lower (.inl hreq)
        · exact (hlone.giveUp.not_recruited hrecruited).elim

theorem step_inv (hlt : ids .lower < ids .higher) (hpos : ∀ x, 0 < ids x) {a : Action}
    (h : p.Inv ids) (hsettled : p.Settled a) (hstep : p.step a = some q) : q.Inv ids := by
  cases a with
  | addServer x env conf =>
    simp only [step] at hstep
    split at hstep
    case isFalse => cases hstep
    next hconf =>
      obtain ⟨⟨t, o⟩, hserver, rfl⟩ := map_eq_some_iff.mp hstep
      cases hserver
      rw [h.id] at hconf
      exact h.moved (handleAddSrvReq_phase (h.phase x) (h.ne hlt x) env hconf)
  | deliver env k => exact h.deliver hlt hstep
  | answer env k fromJoiner =>
    obtain ⟨⟨x, m⟩, hresp, hmap⟩ := bind_eq_some_iff.mp hstep
    obtain ⟨⟨t, o⟩, hserver, rfl⟩ := map_eq_some_iff.mp hmap
    have htype : m.type = .joinCluster := h.resps _ (mem_of_getElem? hresp)
    cases hserver
    refine (h.sub (fun _ => id) (fun r hr => mem_of_mem_eraseIdx hr)).moved ?_
    exact handleExtResp_phase (h.phase x) (h.ne hlt x) env htype fromJoiner
  | lose k =>
    cases hstep
    exact h.sub (fun r hr => mem_of_mem_eraseIdx hr) (fun _ => id)
  | loseAnswer k =>
    cases hstep
    exact h.sub (fun _ => id) (fun r hr => mem_of_mem_eraseIdx hr)
  | error x env k giveUp => exact h.error hsettled hstep
  | own x env input =>
    simp only [step] at hstep
    split at hstep
    case isFalse => cases hstep
    next hown =>
      obtain ⟨⟨t, o⟩, hserver, rfl⟩ := map_eq_some_iff.mp hstep
      exact h.moved (own_phase (h.phase x) (h.ne hlt x) (hpos x.other) hown hserver)

/-! ## Runs -/

/-- Two servers that have not heard of each other. -/
def start (s t : RaftServer) : JoinPair :=
  { srv := fun
      | .lower => s
      | .higher => t }

theorem start_inv {s t : RaftServer} (hs : s.Alone) (ht : t.Alone) (hlt : s.id < t.id) :
    (start s t).Inv (fun x => ((start s t).srv x).id) where
  id _ := rfl
  phase x := by
    cases x
    · exact .lone (hs.lone (ne_of_lt hlt))
    · exact .lone (ht.lone (ne_of_gt hlt))
  reqs _ hr := (nomatch hr)
  sent _ hr := (nomatch hr)
  resps _ hr := (nomatch hr)
  lower hout := by
    rcases hout with ⟨r, hr, -⟩ | hrecruited
    · cases hr
    · exact ((ht.lone (ne_of_gt hlt)).not_recruited hrecruited).elim

theorem Inv.not_both (h : p.Inv ids) (hlower : p.Follows .lower) (hhigher : p.Follows .higher) :
    False := by
  have hid := h.id
  -- only a recruit follows
  have hrecruited : ∀ x, p.Follows x → (p.srv x).Recruited (ids x.other) := by
    intro x hx
    cases h.phase x with
    | lone hlone => exact absurd (hlone.leads.symm.trans hx.1) (by decide)
    | grown hgrown => exact absurd (hx.2.trans (hid x.other)) hgrown.leader
    | recruited hrecruited => exact hrecruited
  cases h.lower (.inr (hrecruited .higher hhigher)) with
  | adding hlone _ => exact hlone.not_recruited (hrecruited .lower hlower)
  | added hgrown => exact hgrown.leader (hlower.2.trans (hid .higher))

/-- However the requests are delayed, lost and sent again, at most one of the two servers accepts,
unless the one with the lower id gives up too early. -/
theorem one_follows {s t : RaftServer} (hs : s.Alone) (ht : t.Alone) (hpos : 0 < s.id)
    (hlt : s.id < t.id) {as : List Action} (hsettled : Runs.AllSteps step Settled (start s t) as)
    (hrun : Runs.run step (start s t) as = some q) : ¬ (q.Follows .lower ∧ q.Follows .higher) := by
  have hinv : q.Inv (fun x => ((start s t).srv x).id) := by
    refine Runs.invariant_of_allSteps (I := fun p => p.Inv fun x => ((start s t).srv x).id) ?_
      (start_inv hs ht hlt) hsettled hrun
    intro p a p' hp ha hstep
    refine step_inv hlt ?_ hp ha hstep
    intro x
    cases x
    · exact hpos
    · exact hpos.trans hlt
  rintro ⟨hlower, hhigher⟩
  exact hinv.not_both hlower hhigher

end JoinPair

def founder (id : Int) : RaftServer :=
  { id := id, role := .leader, leader := id, config := { servers := [{ id := id }] } }

theorem founder_alone (id : Int) : (founder id).Alone := by
  refine ⟨rfl, rfl, rfl, rfl, rfl, rfl, rfl, rfl, nofun, ?_⟩
  intro i c _ hc
  obtain ⟨e, he, -⟩ := bind_eq_some_iff.mp hc
  have hslot : (founder id).log.nextSlot = 1 := rfl
  have hlt := entryAt_lt_nextSlot he
  omega

/-- Both ask, the first request of each is late, and both try again. The server with the lower id
refuses; the other one gives its own attempt up and joins, and is a member in the end. -/
def bothAdd : List JoinPair.Action :=
  [.addServer .lower {} { id := 2 }, .addServer .higher {} { id := 1 }, .error .higher {} 1 false,
    .deliver {} 1, .error .lower {} 0 false, .deliver {} 0, .deliver {} 0, .lose 0, .answer {} 1 true,
    .own .lower {} .commitNext]

theorem bothAdd_one_follows : ∃ q, Runs.run JoinPair.step (.start (founder 1) (founder 2)) bothAdd =
    some q ∧ (q.srv .lower).config.ids = [1, 2] ∧ q.Follows .higher ∧
    ¬ (q.Follows .lower ∧ q.Follows .higher) := by
  have hobserved : (Runs.run JoinPair.step (.start (founder 1) (founder 2)) bothAdd).map (fun q =>
      ((q.srv .lower).config.ids, decide (q.Follows .higher))) = some ([1, 2], true) := by
    decide +kernel
  obtain ⟨q, hrun, hq⟩ := map_eq_some_iff.mp hobserved
  rw [Prod.mk.injEq, decide_eq_true_iff] at hq
  have hsettled : Runs.AllSteps JoinPair.step JoinPair.Settled (.start (founder 1) (founder 2))
      bothAdd := by
    decide +kernel
  exact ⟨q, hrun, hq.1, hq.2, JoinPair.one_follows (founder_alone 1) (founder_alone 2) (by decide)
    (by decide) hsettled hrun⟩

/-- The server with the lower id is told that its request has failed, gives up, and accepts the
invitation of the other one. Its own request was only late, and is accepted, too. -/
def givesUpEarly : List JoinPair.Action :=
  [.addServer .lower {} { id := 2 }, .addServer .higher {} { id := 1 }, .error .lower {} 0 true,
    .deliver {} 1, .deliver {} 0]

theorem both_follow : (founder 1).Alone ∧ (founder 2).Alone ∧
    ∃ q, Runs.run JoinPair.step (.start (founder 1) (founder 2)) givesUpEarly = some q ∧
      q.Follows .lower ∧ q.Follows .higher := by
  have hobserved : (Runs.run JoinPair.step (.start (founder 1) (founder 2)) givesUpEarly).map
      (fun q => decide (q.Follows .lower ∧ q.Follows .higher)) = some true := by
    decide +kernel
  obtain ⟨q, hrun, hq⟩ := map_eq_some_iff.mp hobserved
  exact ⟨founder_alone 1, founder_alone 2, q, hrun, of_decide_eq_true hq⟩

end Raft
end Xio
