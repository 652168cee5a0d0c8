import Xio.Raft.LogAuthority

/-!
# Raft.Roster — the peers follow the configuration

Every quorum is counted over `peers_`, which a server is meant to keep equal to its committed
configuration. Four places write it: the commit thread when it switches the configuration, the
installation of a snapshot, and two that give up on a server that was asked to leave, by a timeout or
by an RPC error. The last two do not wait until the removal is committed, and nothing undoes
`srv_to_leave_` when the entry of the removal is overwritten.

The roster is the part of a server that this is about. `RosterChange` inverts a step for it.
-/

namespace Xio
namespace Raft

open Function RaftServer LogStore ClusterConfig
open List hiding beq_eq_decide

def ClusterConfig.ids (c : ClusterConfig) : List Int := c.servers.map SrvConfig.id

theorem ClusterConfig.getServer_isSome (c : ClusterConfig) (i : Int) :
    (c.getServer i).isSome = true ↔ i ∈ c.ids := by
  simp [getServer, ids]

theorem ClusterConfig.mapServer_ids (c : ClusterConfig) (i : Int) {f : SrvConfig → SrvConfig}
    (hf : ∀ sc, (f sc).id = sc.id) : (c.mapServer i f).ids = c.ids := by
  rw [mapServer, ids, map_map]
  refine map_congr_left (fun sc _ => ?_)
  dsimp only [comp]
  split
  · exact hf sc
  · rfl

theorem ClusterConfig.removeServer_ids (c : ClusterConfig) (i : Int) :
    i ∉ (c.removeServer i).ids := by
  simp [removeServer, ids]

theorem LogStore.writeFrom_entryAt_of_lt {l : LogStore} {i j : Nat} {es : List LogEntry}
    {e : LogEntry} (he : l.entryAt j = some e) (hj : j < i) :
    (l.writeFrom i es).entryAt j = some e := by
  have hstart : l.startIndex ≤ i := by
    have := (entryAt_eq_some_iff.mp he).1
    omega
  unfold writeFrom
  rcases Nat.lt_or_ge i l.nextSlot with hlt | hge
  · cases es with
    | nil => exact he
    | cons e' es =>
      rw [overwriteLoop_cons hstart hlt, writeAt_of_le e' hstart]
      obtain ⟨hs, hget⟩ := entryAt_eq_some_iff.mp he
      refine (appendLoop_entryAt_of_lt es ?_).trans (entryAt_eq_some_iff.mpr ⟨hs, ?_⟩)
      · have hle : j - l.startIndex < l.entries.length := (List.getElem?_eq_some_iff.mp hget).1
        simp only [nextSlot, length_append, length_take, length_singleton]
        omega
      · have hle : j - l.startIndex < l.entries.length := (List.getElem?_eq_some_iff.mp hget).1
        dsimp only
        rw [getElem?_append_left (by rw [length_take]; omega), getElem?_take, if_pos (by omega)]
        exact hget
  · rwa [overwriteLoop_of_nextSlot_le hge, appendLoop_entryAt_of_lt es (entryAt_lt_nextSlot he)]

/-- Who takes part: the ids of the peers, of the committed configuration, and of the server that
leaves with the index of its removal. -/
structure Roster where
  id : Int
  peers : List Int
  members : List Int
  leaving : Option Int
  target : Nat
  deriving DecidableEq, Repr

namespace Roster

/-- The peers are the other members, and possibly the server that leaves. -/
structure Sound (r : Roster) : Prop where
  members : ∀ i ∈ r.members, i ≠ r.id → i ∈ r.peers
  others : ∀ i ∈ r.peers, (i ∈ r.members ∧ i ≠ r.id) ∨ r.leaving = some i

/-- The server that leaves is given up. -/
def drop (r : Roster) : Roster :=
  { r with
    peers := r.peers.filter (fun i => r.leaving != some i)
    leaving := none
    target := 0 }

variable {r : Roster}

theorem Sound.drop (h : r.Sound) (hgone : ∀ x, r.leaving = some x → x ∉ r.members) :
    r.drop.Sound := by
  refine ⟨?_, ?_⟩
  · intro i hi hne
    have hstay : r.leaving ≠ some i := fun hl => hgone i hl hi
    exact mem_filter.mpr ⟨h.members i hi hne, by simpa using hstay⟩
  · intro i hi
    obtain ⟨hpeer, hstay⟩ := mem_filter.mp hi
    rcases h.others i hpeer with hmem | hl
    · exact .inl hmem
    · simp [hl] at hstay

theorem Sound.leave (h : r.Sound) (hnone : r.leaving = none) (x : Int) (target : Nat) :
    { r with leaving := some x, target := target : Roster }.Sound := by
  refine ⟨h.members, ?_⟩
  intro i hi
  rcases h.others i hi with hmem | hl
  · exact .inl hmem
  · cases hnone ▸ hl

/-- The switch to the configuration with the given members; a leader with a leaving server keeps
every peer. -/
def Switched (r r' : Roster) (members : List Int) (keeps : Bool) : Prop :=
  r'.id = r.id ∧ r'.members = members ∧ r'.leaving = r.leaving ∧ r'.target = r.target ∧
    ∀ i, i ∈ r'.peers ↔ (i ∈ r.peers ∧ (keeps = true ∨ i ∈ members)) ∨ (i ∈ members ∧ i ≠ r.id)

theorem Sound.switch {r' : Roster} {members : List Int} {keeps : Bool} (h : r.Sound)
    (hsw : Switched r r' members keeps)
    (hkeeps : keeps = true → ∀ i ∈ r.peers, i ∈ members ∨ r.leaving = some i) : r'.Sound := by
  obtain ⟨hid, hmem, hleave, _, hpeers⟩ := hsw
  refine ⟨?_, ?_⟩
  · intro i hi hne
    rw [hmem] at hi
    rw [hid] at hne
    exact (hpeers i).mpr (.inr ⟨hi, hne⟩)
  · intro i hi
    rw [hmem, hid, hleave]
    rcases (hpeers i).mp hi with ⟨hold, hstay⟩ | hnew
    · have hi' : i ∈ members ∨ r.leaving = some i := by
        rcases hstay with hk | hin
        · exact hkeeps hk i hold
        · exact .inl hin
      rcases hi' with hin | hl
      · -- a peer that stays is another server, or the one that leaves
        rcases h.others i hold with ⟨_, hne⟩ | hl
        · exact .inl ⟨hin, hne⟩
        · exact .inr hl
      · exact .inr hl
    · exact .inl hnew

end Roster

namespace RaftServer

variable {s t u : RaftServer} {env : Env} {input : Input}

def roster (s : RaftServer) : Roster :=
  ⟨s.id, s.peers.map Peer.id, s.config.ids, s.srvToLeave, s.srvToLeaveTargetIdx⟩

theorem core_roster (h : t.core = s.core) : t.roster = s.roster :=
  show t.core.roster = s.core.roster from congrArg roster h

/-! ## Switching the configuration -/

theorem findPeer_isSome (s : RaftServer) (i : Int) :
    (s.findPeer i).isSome = true ↔ i ∈ s.peers.map Peer.id := by
  simp [findPeer]

theorem findPeer_isNone (s : RaftServer) (i : Int) :
    (s.findPeer i).isNone = decide (i ∉ s.peers.map Peer.id) := by
  rw [← Option.not_isSome, Bool.eq_iff_iff, Bool.not_eq_true', decide_eq_true_iff,
    ← findPeer_isSome, Bool.not_eq_true]

theorem foldl_removePeer_ids (s : RaftServer) (ids : List Int) :
    (ids.foldl removePeer s).peers.map Peer.id =
      if s.role = .leader ∧ s.srvToLeave.isSome then s.peers.map Peer.id
      else (s.peers.map Peer.id).filter (fun i => decide (i ∉ ids)) := by
  induction ids generalizing s with
  | nil => simp
  | cons j ids ih =>
    have hone : (s.removePeer j).peers.map Peer.id =
        if s.role = .leader ∧ s.srvToLeave.isSome then s.peers.map Peer.id
        else (s.peers.map Peer.id).filter (fun i => decide (i ≠ j)) := by
      rw [removePeer_peers]
      split
      · rw [map_map]
        refine map_congr_left (fun p _ => ?_)
        dsimp only [comp]
        split <;> rfl
      · rw [filter_map]
        congr 1
        refine filter_congr (fun p _ => ?_)
        simp [bne, comp, beq_eq_decide]
    rw [foldl_cons, ih, removePeer_role, removePeer_srvToLeave, hone]
    split
    · rfl
    · rw [filter_filter]
      simp [mem_cons, Bool.and_comm]

theorem refreshPeerConfigs_ids (s : RaftServer) (c : ClusterConfig) :
    (s.refreshPeerConfigs c).peers.map Peer.id = s.peers.map Peer.id := by
  rw [refreshPeerConfigs_peers, map_map]
  refine map_congr_left (fun p _ => ?_)
  dsimp only [comp]
  split
  · next sc hsc =>
    have hid : sc.id = p.id := by simpa using find?_some hsc
    exact hid
  · rfl

theorem reconfigure_ids (s : RaftServer) (c : ClusterConfig) : (s.reconfigure c).peers.map Peer.id =
      let added := (c.ids.filter (fun i => i != s.id && decide (i ∉ s.peers.map Peer.id)))
      if s.role = .leader ∧ s.srvToLeave.isSome then s.peers.map Peer.id ++ added
      else (s.peers.map Peer.id ++ added).filter
        (fun i => decide (i ∉ (s.peers.map Peer.id).filter (fun j => (c.getServer j).isNone))) := by
  have hown : (s.withOwnConfig c).peers = s.peers ∧ (s.withOwnConfig c).role = s.role ∧
      (s.withOwnConfig c).srvToLeave = s.srvToLeave := by
    unfold withOwnConfig
    cases c.getServer s.id <;> exact ⟨rfl, rfl, rfl⟩
  have hadded : ((c.servers.filter (fun sc => sc.id != s.id && (s.findPeer sc.id).isNone)).map
      (s.withOwnConfig c).newPeer).map Peer.id =
      c.ids.filter (fun i => i != s.id && decide (i ∉ s.peers.map Peer.id)) := by
    rw [ids, map_map, filter_map]
    refine congrArg₂ map rfl (filter_congr (fun sc _ => ?_))
    simp only [comp, findPeer_isNone]
  unfold reconfigure
  rw [updateTargetPriority_peers, refreshPeerConfigs_ids, switchConfig_peers, foldl_removePeer_ids,
    leaveIfRemoved_role, leaveIfRemoved_srvToLeave, leaveIfRemoved_peers, addPeers_role,
    addPeers_srvToLeave, addPeers_peers, map_append, hadded, hown.1, hown.2.1, hown.2.2]

theorem reconfigure_roster (s : RaftServer) (c : ClusterConfig) :
    Roster.Switched s.roster (s.reconfigure c).roster c.ids
      (decide (s.role = .leader ∧ s.srvToLeave.isSome)) := by
  have hrest : (s.reconfigure c).srvToLeaveTargetIdx = s.srvToLeaveTargetIdx := by
    dsimp only [reconfigure, withOwnConfig]
    generalize s.peers.map Peer.id = ids
    rcases foldl_removePeer_eq ((((c.getServer s.id).elim s s.applyOwnConfig).addPeers _).leaveIfRemoved
      c) (ids.filter _) with ⟨ps, hps⟩
    rw [hps]
    cases c.getServer s.id <;> rfl
  refine ⟨by simp [roster], by simp [roster], by simp [roster], hrest, ?_⟩
  intro i
  have hnone (j : Int) : (c.getServer j).isNone = true ↔ j ∉ c.ids := by
    rw [← c.getServer_isSome j, ← Option.not_isSome, Bool.not_eq_true', Bool.not_eq_true]
  rw [roster, reconfigure_ids]
  split
  · next hkeep =>
    rw [mem_append, mem_filter]
    simp only [hkeep, Bool.and_eq_true, bne_iff_ne, decide_eq_true_eq, ne_eq]
    tauto
  · next hkeep =>
    rw [mem_filter, mem_append, mem_filter]
    simp only [hkeep, mem_filter, hnone, Bool.and_eq_true, bne_iff_ne, decide_eq_true_eq,
      ne_eq, decide_false, Bool.false_eq_true, false_or]
    tauto

/-! ## The inversion -/

/-- The input may make the server give up on the server that leaves. -/
def MayDropLeaver (s : RaftServer) (env : Env) : Input → Bool
  | .heartbeatTimeout _ => env.timedOut
  | .request req =>
    match req.body with
    | .addServer _ | .removeServer _ => env.timedOut
    | _ => false
  | .response resp => resp.type == .appendEntries && (env.timedOut ||
      (s.srvToLeave == some resp.src && decide (s.srvToLeaveTargetIdx < resp.nextIdx)))
  | .peerError dst => s.peers.any (fun p => p.id == dst && p.leaveRequested)
  | .extError _ leaving => leaving
  | _ => false

/-- An RPC error; with a single peer it drops that peer at once. -/
def Input.isError : Input → Bool
  | .peerError _ | .extError _ _ => true
  | _ => false

inductive RosterChange (s t : RaftServer) (env : Env) (input : Input) : Prop
  | kept (h : t.roster = s.roster)
  | dropped (hmay : s.MayDropLeaver env input = true) (h : t.roster = s.roster.drop)
  | leaves (x : Int) (c : ClusterConfig) (hnone : s.srvToLeave = none) (hc : x ∉ c.ids)
      (hlog : t.log = s.log.append ⟨s.state.term, .conf c⟩)
      (h : t.roster = { s.roster with leaving := some x, target := s.log.nextSlot })
  | switched (c : ClusterConfig) (keeps : Bool)
      (hkeeps : keeps = true → (s.role = .leader ∧ s.srvToLeave.isSome) ∧ input = .commitNext ∧
        (s.log.entryAt (s.smCommitIndex + 1)).bind LogEntry.conf? = some c)
      (h : Roster.Switched s.roster t.roster c.ids keeps)
  | pair (hmay : s.MayDropLeaver env input = true) (herr : input.isError = true)
      (hlone : s.peers.length = 1)
  | restarted (h : t.roster = ⟨s.id, s.config.ids.filter (fun i => i != s.id), s.config.ids, none, 0⟩)

theorem updatePeer_roster (s : RaftServer) (id : Int) {f : Peer → Peer}
    (hf : ∀ p, p.id = id → (f p).id = p.id) : (s.updatePeer id f).roster = s.roster := by
  have hids : (s.updatePeer id f).peers.map Peer.id = s.peers.map Peer.id := by
    rw [updatePeer_peers, map_map]
    refine map_congr_left (fun p _ => ?_)
    dsimp only [comp]
    split
    · next h => exact hf p h
    · rfl
  rw [roster, hids]
  rfl

theorem removePeerFromPeers_roster {x : Int} (h : s.srvToLeave = some x) :
    (s.removePeerFromPeers x).resetSrvToLeave.roster = s.roster.drop := by
  have hids : (s.peers.filter (fun p => p.id != x)).map Peer.id =
      (s.peers.map Peer.id).filter (fun i => s.srvToLeave != some i) := by
    rw [filter_map]
    refine congrArg₂ map rfl (filter_congr (fun p _ => ?_))
    rw [h]
    simp [bne, comp, beq_eq_decide, eq_comm]
  simp only [roster, Roster.drop, resetSrvToLeave_peers, removePeerFromPeers_peers, hids]
  rfl

theorem checkSrvToLeaveTimeout_roster (s : RaftServer) (env : Env) :
    (s.checkSrvToLeaveTimeout env).roster = if env.timedOut then s.roster.drop else s.roster := by
  unfold roster Roster.drop
  cases htime : env.timedOut
  · simp [htime]
  · simp only [checkSrvToLeaveTimeout, htime, if_true, filter_map]
    rfl

theorem RosterChange.of_timeout (h : t.roster = (s.checkSrvToLeaveTimeout env).roster)
    (hmay : env.timedOut = true → s.MayDropLeaver env input = true) :
    RosterChange s t env input := by
  rw [checkSrvToLeaveTimeout_roster] at h
  split at h
  · next htime => exact .dropped (hmay htime) h
  · exact .kept h

theorem recordAppendResp_roster (s : RaftServer) (env : Env) (resp : RespMsg) :
    (s.recordAppendResp env resp).roster = s.roster := by
  unfold recordAppendResp
  split
  · exact updatePeer_roster s resp.src (f := Peer.onAppendAccepted resp) (fun _ _ => rfl)
  · refine updatePeer_roster s resp.src (fun p _ => ?_)
    unfold Peer.onAppendRejected
    split <;> rfl

theorem operate_roster (s : RaftServer) (env : Env) (op : ConfOp) :
    (s.operate env op).roster = s.roster := by
  unfold operate
  split <;> rfl

/-- A failed request that concerns a leaving server drops the only peer, or nobody yet. -/
theorem LeaveFailed.roster {id : Int} {w : RaftServer} (h : LeaveFailed env s input id w) :
    s.MayDropLeaver env input = true ∧ input.isError = true ∧
      (s.peers.length = 1 ∨ (w.dropLone id).roster = s.roster) := by
  have hlone {w : RaftServer} (hw : w.roster = s.roster) :
      s.peers.length = 1 ∨ (w.dropLone id).roster = s.roster := by
    have hlen : (w.peers.map Peer.id).length = (s.peers.map Peer.id).length :=
      congrArg (fun r => r.peers.length) hw
    rw [length_map, length_map] at hlen
    unfold dropLone
    split
    · next hone => exact .inl (hlen ▸ hone)
    · exact .inr hw
  cases h with
  | ext _ => exact ⟨rfl, rfl, hlone rfl⟩
  | @peer dst p hp hleave =>
    refine ⟨?_, rfl, hlone ?_⟩
    · refine any_eq_true.mpr ⟨p, mem_of_find?_eq_some hp, ?_⟩
      have hid : p.id = id := by simpa using find?_some hp
      simp [hid, hleave]
    · unfold dropTransfer
      split
      · exact updatePeer_roster s id (fun _ _ => rfl)
      · rfl

theorem RosterChange.of_leaving {id : Int} (hs : u.roster = s.roster) (hlog : u.log = s.log)
    (hterm : u.state.term = s.state.term) (hnone : u.srvToLeave = none) :
    RosterChange s ((u.startLeaving id).operate env (.removeServer id)) env input := by
  have hleave : u.srvToLeave = s.srvToLeave := congrArg Roster.leaving hs
  unfold startLeaving
  split
  · refine .leaves id (ConfOp.newConf (.removeServer id) u.confView) (hleave.symm.trans hnone) ?_ ?_ ?_
    · exact removeServer_ids _ id
    · rw [← hlog, ← hterm]
      rfl
    · rw [operate_roster, ← hs, ← hlog]
      rfl
  · exact .kept ((operate_roster _ env _).trans hs)

theorem Readied.rosterChange {op : ConfOp} (h : Readied env s input op u) :
    RosterChange s (u.operate env op) env input := by
  cases h with
  | @promoted resp p htype _ _ _ =>
    refine .of_timeout ((operate_roster _ env _).trans (recordAppendResp_roster _ env resp)) ?_
    intro htime
    simp [MayDropLeaver, htype, htime]
  | left _ _ hnone => exact .of_leaving rfl rfl rfl hnone
  | @unheard _ id w hf hnone =>
    rcases hf.roster with ⟨hmay, herr, hlone | hsame⟩
    · exact .pair hmay herr hlone
    · exact .of_leaving hsame (sansPeers_read (fun _ => rfl) hf.sansPeers)
        (sansPeers_read (f := fun v => v.state.term) (fun _ => rfl) hf.sansPeers) hnone
  | _ => exact .kept (operate_roster _ env _)

theorem PeerTold.roster {id : Int} {f : Peer → Peer} (h : PeerTold env s input id f) :
    (s.updatePeer id f).roster = s.roster := by
  refine updatePeer_roster s id (fun p _ => ?_)
  cases h with
  | installed _ _ =>
    unfold Peer.onInstallSnapshotResp
    repeat' split
    all_goals rfl
  | _ => rfl

theorem acceptEntries_roster (s : RaftServer) (req : ReqMsg) (es : List LogEntry) :
    (s.acceptEntries req es).roster = s.roster := by
  have hwrite : (if es = [] then s else s.writeEntries (req.lastLogIdx + 1) es).roster =
      s.roster := by
    dsimp only [writeEntries]
    repeat' split
    all_goals rfl
  dsimp only [acceptEntries]
  generalize (if es = [] then s else s.writeEntries (req.lastLogIdx + 1) es) = u at hwrite ⊢
  split <;> exact hwrite

theorem executeEntry_roster {e : LogEntry} (he : s.log.entryAt (s.smCommitIndex + 1) = some e)
    (ht : t.roster = (s.executeEntry e).roster) : RosterChange s t env .commitNext := by
  unfold executeEntry at ht
  split at ht
  · exact .kept ht
  next c hval =>
  have hconf : (s.log.entryAt (s.smCommitIndex + 1)).bind LogEntry.conf? = some c := by
    rw [he]
    simp [LogEntry.conf?, hval]
  unfold commitConf at ht
  split at ht
  · refine .switched c _ (fun hk => ⟨of_decide_eq_true hk, rfl, hconf⟩) ?_
    rw [ht]
    exact reconfigure_roster s.endConfigChange c
  · exact .kept ht

theorem restart_roster (s : RaftServer) (applied : Nat) : (s.restart applied).roster =
    ⟨s.id, s.config.ids.filter (fun i => i != s.id), s.config.ids, none, 0⟩ := by
  rw [restart, roster, ids, map_map, filter_map]
  rfl

theorem leaverGone_roster {resp : RespMsg} (htype : resp.type = .appendEntries)
    (hcaught : (s.checkSrvToLeaveTimeout env).leaverCaughtUp resp = true) :
    RosterChange s ((s.checkSrvToLeaveTimeout env).removePeerFromPeers resp.src).resetSrvToLeave env
      (.response resp) := by
  simp only [leaverCaughtUp, Bool.and_eq_true, beq_iff_eq, decide_eq_true_eq] at hcaught
  obtain ⟨⟨hleave, _⟩, hnext⟩ := hcaught
  have htime : env.timedOut = false := by
    cases htime : env.timedOut
    · rfl
    · simp [htime] at hleave
  have hsame : (s.checkSrvToLeaveTimeout env).roster = s.roster := by
    rw [checkSrvToLeaveTimeout_roster, htime]
    rfl
  refine .dropped ?_ ?_
  · have hl : s.srvToLeave = some resp.src := by simpa [htime] using hleave
    have ht : s.srvToLeaveTargetIdx < resp.nextIdx := by simpa [htime] using hnext
    simp [MayDropLeaver, htype, hl, ht]
  · rw [removePeerFromPeers_roster hleave, hsame]

theorem step_roster {o : Output} (hstep : s.step env input = some (t, o)) :
    RosterChange s t env input := by
  have hchecks (hin : input.checksLeaver = true) (htime : env.timedOut = true) :
      s.MayDropLeaver env input = true := by
    unfold Input.checksLeaver at hin
    unfold MayDropLeaver
    split at hin
    · exact htime
    · split at hin <;> simp_all
    · cases hin
  cases step_moves hstep with
  | steady hst _ => exact .kept (core_roster hst.core)
  | elected u hu _ ht _ _ _ =>
    have hlead : (u.takeLeadership.requestAppendEntries env).roster = u.roster := by
      simp only [roster, requestAppendEntries, commit_id, commit_peers, commit_config,
        commit_srvToLeave, commit_srvToLeaveTargetIdx, takeLeadership_id, takeLeadership_peers,
        takeLeadership_config, takeLeadership_srvToLeave, takeLeadership_srvToLeaveTargetIdx,
        map_map]
      rfl
    exact .kept ((core_roster ht.core).trans (hlead.trans (core_roster hu.core)))
  | outOfRange u hu ht _ =>
    have hsame : ({ u with outOfLogRange := true } : RaftServer).roster = u.roster := rfl
    exact .kept ((core_roster ht.core).trans (hsame.trans (core_roster hu.core)))
  | accepted u _ hu _ _ _ =>
    exact .kept ((acceptEntries_roster u _ _).trans (core_roster hu.core))
  | parked u _ hu _ _ =>
    have hpark (pending : PendingInstall) :
        (u.startReceiving.parkInstall pending).roster = u.roster := rfl
    exact .kept ((hpark _).trans (core_roster hu.core))
  | @joins req c _ _ _ _ =>
    -- a server that joins is a follower when it switches to the configuration of the invitation
    have hjoin : ∃ v : RaftServer, s.joinCluster req c = v.reconfigure c ∧ v.roster = s.roster ∧
        v.role = .follower := ⟨_, rfl, rfl, rfl⟩
    obtain ⟨v, hv, hsame, hrole⟩ := hjoin
    have hsw := reconfigure_roster v c
    have hno : decide (v.role = .leader ∧ v.srvToLeave.isSome) = false := by simp [hrole]
    rw [hno, hsame] at hsw
    rw [hv]
    exact .switched c false (fun h => by cases h) hsw
  | edited id priority _ c _ hc =>
    refine .kept ?_
    have hids : c.ids = s.config.ids := by
      rcases hc with rfl | rfl
      · rfl
      · exact s.config.mapServer_ids id (fun _ => rfl)
    unfold roster
    rw [hids]
  | timed hin ht _ => exact .of_timeout (core_roster ht.core) (hchecks hin)
  | invited _ hin _ => exact .of_timeout rfl (hchecks hin)
  | asked id hin _ => exact .of_timeout (updatePeer_roster _ id (fun _ _ => rfl)) (hchecks hin)
  | @recorded resp _ _ htype _ ht _ =>
    refine .of_timeout ((core_roster ht.core).trans (recordAppendResp_roster _ env resp)) ?_
    intro htime
    simp [MayDropLeaver, htype, htime]
  | leaverGone htype hcaught => exact leaverGone_roster htype hcaught
  | told hf => exact .kept hf.roster
  | @sent dst _ _ _ hr =>
    obtain ⟨p, hid, heq⟩ := requestAppendEntriesTo_eq hr
    rw [heq]
    exact .kept (updatePeer_roster s dst (fun q hq => hid.trans hq.symm))
  | gaveUp hf hx =>
    rcases hf.roster with ⟨hmay, herr, hlone | hsame⟩
    · exact .pair hmay herr hlone
    · refine .dropped hmay ?_
      rw [removePeerFromPeers_roster hx, hsame]
  | operated hop => exact hop.rosterChange
  | applied he _ => exact executeEntry_roster he rfl
  | @installed pending r _ hr =>
    unfold finishSnapshot at hr
    split at hr
    · cases hr
    next hrole =>
    cases hr
    split
    · -- a follower keeps no removed peer
      have hsw := reconfigure_roster (s.compactTo pending) pending.snapshot.lastConfig
      have hno : decide ((s.compactTo pending).role = .leader ∧
          (s.compactTo pending).srvToLeave.isSome) = false := by
        simp [not_not.mp hrole]
      rw [hno] at hsw
      generalize (s.compactTo pending).reconfigure pending.snapshot.lastConfig = v at hsw ⊢
      exact .switched pending.snapshot.lastConfig false (fun h => by cases h) hsw
    · exact .kept rfl
  | restarted _ => exact .restarted (restart_roster s _)
  | _ => exact .kept rfl

/-! ## The entry of the removal -/

theorem writeEntries_entryAt_of_agree {first j : Nat} {es : List LogEntry} {e : LogEntry}
    (he : s.log.entryAt j = some e)
    (hagree : ∀ k, k < es.length → first + k ≤ j → es[k]?.map LogEntry.term =
      some (s.log.termAt (first + k))) :
    (s.writeEntries first es).log.entryAt j = some e := by
  obtain ⟨k, hk, hskip, _, hstop⟩ := skipLoop_spec s.log first es
  have hlog : (s.writeEntries first es).log = s.log.writeFrom (first + k) (es.drop k) := by
    rw [writeEntries, hskip]
    dsimp only
    split <;> rfl
  rw [hlog]
  rcases Nat.lt_or_ge k es.length with hlt | hge
  · -- the first entry that is written differs, so it is behind `j`
    have hget : es[k]? = some es[k] := getElem?_eq_getElem hlt
    have hj : j < first + k := by
      by_contra hno
      have hin : first + k < s.log.nextSlot :=
        Nat.lt_of_le_of_lt (Nat.le_of_not_lt hno) (entryAt_lt_nextSlot he)
      have hterm := hagree k hlt (Nat.le_of_not_lt hno)
      rw [hget] at hterm
      exact hstop es[k] hget hin (Option.some.inj hterm).symm
    exact writeFrom_entryAt_of_lt he hj
  · rwa [drop_of_length_le hge]

/-- The log holds a configuration without the server at the given index. -/
def HoldsRemoval (l : LogStore) (i : Nat) (x : Int) : Prop :=
  ∃ e c, l.entryAt i = some e ∧ e.conf? = some c ∧ x ∉ c.ids

/-- The request leaves the entry of the removal where it is: received entries have the terms of the
log up to it. -/
def ReqKeepsTarget (s : RaftServer) (first : Nat) : ReqBody → Prop
  | .appendEntries es => ∀ k, k < es.length → first + k ≤ s.srvToLeaveTargetIdx →
      es[k]?.map LogEntry.term = some (s.log.termAt (first + k))
  | .syncLog _ => s.state.catchingUp = false
  | _ => True

instance (s : RaftServer) (first : Nat) (body : ReqBody) :
    Decidable (s.ReqKeepsTarget first body) := by
  cases body <;> (dsimp only [ReqKeepsTarget]; infer_instance)

/-- No snapshot reaches the entry either. -/
def KeepsTarget (s : RaftServer) : Input → Prop
  | .request req => s.ReqKeepsTarget (req.lastLogIdx + 1) req.body
  | .snapshotCompleted _ => ∀ snp ∈ s.snpInProgress,
      (s.latestSnapshot snp).lastLogIdx < s.srvToLeaveTargetIdx + s.params.reservedLogItems
  | .finishSnapshot pending => pending.snapshot.lastLogIdx < s.srvToLeaveTargetIdx
  | _ => True

instance (s : RaftServer) (input : Input) : Decidable (s.KeepsTarget input) := by
  rcases input with ⟨⟩ <;> (dsimp only [KeepsTarget]; infer_instance)

theorem LogChange.removal (h : LogChange env s t input) (hcond : s.KeepsTarget input) {x : Int}
    (hx : HoldsRemoval s.log s.srvToLeaveTargetIdx x) :
    HoldsRemoval t.log s.srvToLeaveTargetIdx x := by
  obtain ⟨e, c, he, hconf, hc⟩ := hx
  refine ⟨e, c, ?_, hconf, hc⟩
  cases h with
  | kept h => exact h ▸ he
  | created es h _ =>
    rwa [h, appendLoop_entryAt_of_lt es (entryAt_lt_nextSlot he)]
  | received req es hin hbody _ h =>
    rw [h]
    refine writeEntries_entryAt_of_agree he ?_
    subst hin
    simpa only [KeepsTarget, ReqKeepsTarget, hbody] using hcond
  | synced req es hin hbody hcatch h =>
    subst hin
    simp only [KeepsTarget, ReqKeepsTarget, hbody, hcatch] at hcond
    cases hcond
  | compacted ok snp hin hsnp h =>
    subst hin
    have hlt := hcond snp hsnp
    rw [h]
    unfold compactedLog
    split
    · rwa [compact_entryAt, if_neg (by omega)]
    · exact he
  | installed pending hin _ h =>
    subst hin
    have hlt : pending.snapshot.lastLogIdx < s.srvToLeaveTargetIdx := hcond
    rwa [h, compact_entryAt, if_neg (by omega)]

/-! ## Steps and runs -/

/-- The peers are the committed configuration, and possibly the server that leaves, whose removal is
in the log. -/
structure PeersFollow (s : RaftServer) : Prop where
  sound : s.roster.Sound
  removal : ∀ x, s.srvToLeave = some x → HoldsRemoval s.log s.srvToLeaveTargetIdx x

/-- Nobody is given up before its removal is applied, the commit thread of a leader removes nobody
else, the log keeps the entry of the removal, and an RPC error does not drop the only peer. -/
@[mk_iff] structure KeepsRoster (s : RaftServer) (env : Env) (input : Input) : Prop where
  drop : s.MayDropLeaver env input = true → ∀ x ∈ s.srvToLeave, x ∉ s.config.ids
  commit : input = .commitNext → s.role = .leader ∧ s.srvToLeave.isSome →
    ∀ c ∈ (s.log.entryAt (s.smCommitIndex + 1)).bind LogEntry.conf?,
      ∀ i ∈ s.peers.map Peer.id, i ∈ c.ids ∨ s.srvToLeave = some i
  target : s.srvToLeave.isSome → s.KeepsTarget input
  pair : s.MayDropLeaver env input = true → input.isError = true → s.peers.length ≠ 1

instance (s : RaftServer) (env : Env) (input : Input) : Decidable (s.KeepsRoster env input) :=
  decidable_of_iff' _ (keepsRoster_iff s env input)

theorem PeersFollow.of_restart (h : s.roster =
    ⟨u.id, u.config.ids.filter (fun i => i != u.id), u.config.ids, none, 0⟩) : s.PeersFollow := by
  refine ⟨?_, ?_⟩
  · rw [h]
    refine ⟨?_, ?_⟩
    · intro i hi hne
      exact mem_filter.mpr ⟨hi, by simpa using hne⟩
    · intro i hi
      obtain ⟨hmem, hne⟩ := mem_filter.mp hi
      exact .inl ⟨hmem, by simpa using hne⟩
  · intro x hx
    have hnone : s.srvToLeave = none := congrArg Roster.leaving h
    cases hnone ▸ hx

theorem step_peersFollow {o : Output} (hinv : s.PeersFollow) (hcond : s.KeepsRoster env input)
    (h : s.step env input = some (t, o)) : t.PeersFollow := by
  -- where the leaving server and its index stay, so does the entry
  have hkeep (hleave : t.srvToLeave = s.srvToLeave)
      (htarget : t.srvToLeaveTargetIdx = s.srvToLeaveTargetIdx) (x : Int)
      (hx : t.srvToLeave = some x) : HoldsRemoval t.log t.srvToLeaveTargetIdx x := by
    rw [hleave] at hx
    rw [htarget]
    exact (step_logChange h).removal (hcond.target (hx ▸ rfl)) (hinv.removal x hx)
  cases step_roster h with
  | kept hr =>
    refine ⟨hr ▸ hinv.sound, ?_⟩
    exact hkeep (congrArg Roster.leaving hr) (congrArg Roster.target hr)
  | dropped hmay hr =>
    refine ⟨hr ▸ hinv.sound.drop (hcond.drop hmay), ?_⟩
    intro x hx
    have hnone : t.srvToLeave = none := congrArg Roster.leaving hr
    cases hnone ▸ hx
  | leaves x c hnone hc hlog hr =>
    refine ⟨hr ▸ hinv.sound.leave hnone x s.log.nextSlot, ?_⟩
    intro y hy
    have hleave : t.srvToLeave = some x := congrArg Roster.leaving hr
    have htarget : t.srvToLeaveTargetIdx = s.log.nextSlot := congrArg Roster.target hr
    cases hleave ▸ hy
    rw [htarget, hlog]
    exact ⟨_, c, append_entryAt_nextSlot _ _, rfl, hc⟩
  | switched c keeps hkeeps hsw =>
    refine ⟨hinv.sound.switch hsw ?_, hkeep hsw.2.2.1 hsw.2.2.2.1⟩
    intro hk
    obtain ⟨hlead, hin, hentry⟩ := hkeeps hk
    exact hcond.commit hin hlead c hentry
  | pair hmay herr hlone => exact absurd hlone (hcond.pair hmay herr)
  | restarted hr => exact .of_restart hr

theorem fresh_peersFollow (id : Int) (params : RaftParams) (config : ClusterConfig) :
    (fresh id params config).PeersFollow :=
  .of_restart (restart_roster { id := id, params := params, config := config } 0)

end RaftServer

/-! ## A removal that meets the condition -/

/-- Server `1` leads three members, asks server `3` to leave and appends the configuration without
it. -/
def appendsRemoval : List (Env × RaftServer.Input) :=
  leadsInPeace ++ [removeThreeReq, leaveAnswer, (({} : Env), .sendAppend 2 false 0)]

/-- It applies that configuration and gives server `3` up after its silence. -/
def removesThree : List (Env × RaftServer.Input) :=
  appendsRemoval ++
    [(({} : Env), .response ⟨1, .appendEntries, 2, 1, 3, true, .ok, .none, false, false⟩),
      ({}, .commitNext), ({ timedOut := true }, .heartbeatTimeout false)]

/-- The leader of the next term overwrites the entry of the removal. -/
def overwritesRemoval : Env × RaftServer.Input :=
  ({}, .request ⟨2, 2, 1, 1, 1, 1, .appendEntries [⟨2, .appLog [8]⟩]⟩)

end Raft
end Xio
