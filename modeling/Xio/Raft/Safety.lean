import Xio.Lib.LeaderCompleteness
import Xio.Raft.LogMatching

/-!
# Raft.Safety — committed entries stay committed

Without snapshots a run of the cluster is an execution of `ReplicatedLog` whose voters compare logs,
so that later leaders have what a majority acknowledged up to an entry of its leader's own term
(`LeaderCompleteness`). What a server takes for committed is chosen in that sense (`Upholds`), under
conditions that the code does not check: a matched index comes from a response of the term that the
server leads, a new leader knows nothing about its peers, the index that a majority has is one of
the leader's own term, and a server on its own commits its log only as a leader.
-/

namespace Xio
namespace Raft

open Voting ReplicatedLog List Option LogStore

variable {m : ReqMsg}

/-- The peers' progress once an accepted append response is recorded. -/
def LogView.record (w : LogView) (resp : RespMsg) : LogView :=
  w.updatePeer resp.src (fun p => { p with matchedIdx := resp.nextIdx - 1 })

/-! ## Runs without snapshots -/

/-- Nothing was compacted, and no snapshot was taken, sent or received. -/
structure LogView.Plain (w : LogView) : Prop where
  start : w.log.startIndex = 1
  last : w.lastSnapshot = none
  creating : w.snpInProgress = none
  applying : w.applyingSnapshots = []
  peers : ∀ p ∈ w.peers, p.snapshot = none

def ReqMsg.installs (m : ReqMsg) : Bool :=
  match m.body with
  | .installSnapshot _ => true
  | _ => false

theorem ReqMsg.installs_of_copies (h : m.copies = false) : m.installs = false := by
  unfold ReqMsg.installs
  split
  · next hbody => simp [ReqMsg.copies, hbody] at h
  · rfl

namespace RaftServer

variable {s t : RaftServer} {input : Input} {o : Output}

theorem writeEntries_startIndex (s : RaftServer) {first : Nat} (h : s.log.startIndex ≤ first)
    (es : List LogEntry) : (s.writeEntries first es).log.startIndex = s.log.startIndex := by
  obtain ⟨k, _, heq, _⟩ := skipLoop_spec s.log first es
  rw [writeEntries, heq]
  dsimp only
  split <;> exact writeFrom_startIndex (h.trans (Nat.le_add_right _ _)) _

theorem LogStep.plain (h : LogStep s t input o) (hs : s.logView.Plain)
    (hcreate : ∀ forced, input ≠ .createSnapshot forced)
    (hreq : ∀ req, input = .request req → req.installs = false) :
    t.logView.Plain ∧ ∀ m ∈ o.sent, m.installs = false := by
  have hsilent (ho : Silent o) (m : ReqMsg) (hm : m ∈ o.sent) : m.installs = false :=
    m.installs_of_copies (ho.sent m hm)
  have hnone (ho : o = {}) (m : ReqMsg) (hm : m ∈ o.sent) : m.installs = false := by
    cases ho ▸ hm
  have hupdate {id : Int} {f : Progress → Progress} (hf : ∀ p, p.snapshot = none →
      (f p).snapshot = none) : ∀ p ∈ (s.logView.updatePeer id f).peers, p.snapshot = none := by
    intro p hp
    obtain ⟨q, hq, rfl⟩ := mem_map.mp hp
    split
    · exact hf q (hs.peers q hq)
    · exact hs.peers q hq
  cases h with
  | quiet _ hview ho => exact ⟨hview ▸ hs, hsilent ho⟩
  | elected e _ _ hview _ ho =>
    rw [hview]
    refine ⟨⟨hs.start, hs.last, hs.creating, hs.applying, ?_⟩, hsilent ho⟩
    exact forall_mem_map.mpr fun _ _ => rfl
  | appended es k _ _ _ hview _ _ ho =>
    rw [hview, ho]
    refine ⟨{ hs with start := ?_ }, nofun⟩
    exact (appendLoop_startIndex _ _).trans hs.start
  | sent dst p p' req _ _ hp _ hb _ hview ho =>
    have hctx : p.snpSyncCtx = none := by
      have := hs.peers p.progress (mem_map_of_mem hp)
      exact map_eq_none_iff.mp this
    have hbuilt : p'.snpSyncCtx = none ∧ req.installs = false := by
      cases hb with
      | entries _ _ _ _ _ hctx' hreq' =>
        rw [hreq']
        exact ⟨hctx'.trans hctx, rfl⟩
      | snapshot ctx _ hor _ _ =>
        rcases hor with hold | ⟨hlast, _⟩
        · cases hctx ▸ hold
        · have hnone : s.lastSnapshot = none := hs.last
          cases hnone ▸ hlast
      | outOfRange note hctx' hbody _ =>
        exact ⟨hctx'.trans hctx, by simp [ReqMsg.installs, hbody]⟩
    rw [hview, ho]
    exact ⟨{ hs with peers := hupdate fun _ _ => map_eq_none_iff.mpr hbuilt.1 },
      forall_mem_singleton.mpr hbuilt.2⟩
  | accepted req es _ _ _ _ _ hview ho =>
    have hwrite : (s.writeEntries (req.lastLogIdx + 1) es).logView.Plain := by
      have hstart : s.log.startIndex ≤ req.lastLogIdx + 1 := by
        have : s.log.startIndex = 1 := hs.start
        omega
      refine ⟨(writeEntries_startIndex s hstart es).trans hs.start, ?_, ?_, ?_, ?_⟩
      all_goals
        dsimp only [writeEntries]
        split
      all_goals first | exact hs.last | exact hs.creating | exact hs.applying | exact hs.peers
    rw [hview, ho]
    exact ⟨{ hwrite with }, nofun⟩
  | parked req obj _ hin hbody _ _ _ _ =>
    have := hreq req hin
    simp [ReqMsg.installs, hbody] at this
  | installed pending _ _ hmem _ _ _ _ =>
    have happ : s.applyingSnapshots = [] := hs.applying
    cases happ ▸ hmem
  | moved k _ _ hview ho =>
    rw [hview]
    exact ⟨{ hs with }, hnone ho⟩
  | creating _ hin _ _ _ _ _ _ =>
    obtain ⟨forced, hin⟩ := hin
    exact absurd hin (hcreate forced)
  | created snp _ hsnp _ _ =>
    have hidle : s.snpInProgress = none := hs.creating
    cases hidle ▸ hsnp
  | dropped _ hview ho =>
    rw [hview]
    exact ⟨{ hs with creating := rfl }, hnone ho⟩
  | matched resp _ _ _ _ _ hview _ ho =>
    rw [hview]
    exact ⟨{ hs with peers := hupdate (fun _ h => h) }, hsilent ho⟩
  | committed _ _ _ hview _ ho =>
    rw [hview]
    exact ⟨{ hs with }, hnone ho⟩
  | urged _ _ _ hview _ ho =>
    rw [hview]
    exact ⟨{ hs with }, hnone ho⟩
  | synced resp _ _ _ _ _ hview ho =>
    rw [hview]
    refine ⟨{ hs with peers := hupdate ?_ }, hnone ho⟩
    intro p hp
    rwa [hp]
  | aborted dst _ hview ho =>
    rw [hview]
    exact ⟨{ hs with peers := hupdate (fun _ _ => rfl) }, hnone ho⟩
  | restarted applied _ _ hview ho =>
    rw [hview]
    refine ⟨⟨hs.start, hs.last, rfl, rfl, ?_⟩, hnone ho⟩
    exact forall_mem_map.mpr fun _ _ => rfl

/-! ## Conditions on the steps -/

/-- If a majority has an index above the commit index, it has one of the server's current term, at
or above it. -/
def OwnTermMatched (s : RaftServer) (w : LogView) : Prop :=
  ∀ k < s.log.nextSlot, s.quickCommitIndex < k → w.MatchedBy k →
    ∃ k' < s.log.nextSlot, k ≤ k' ∧ w.MatchedBy k' ∧ s.log.termAt k' = s.state.term

/-- An accepted append response that is not from a later term is handled by the leader of its term,
and what it completes is of that term. -/
def GuardedAppendResp (s : RaftServer) (resp : RespMsg) : Prop :=
  resp.type = .appendEntries → resp.accepted = true → resp.term ≤ s.state.term →
    s.role = .leader ∧ resp.term = s.state.term ∧ s.OwnTermMatched (s.logView.record resp)

/-- Votes are counted by servers that know of no progress of their peers. -/
def GuardedVoteResp (s : RaftServer) (resp : RespMsg) : Prop :=
  resp.type = .requestVote → resp.term = s.state.term → s.electionCompleted = false →
    ∀ p ∈ s.peers, p.matchedIdx = 0

def GuardedInput (s : RaftServer) : Input → Prop
  | .response resp => s.GuardedAppendResp resp ∧ s.GuardedVoteResp resp
  | .logAppendCompletion _ => s.role = .leader → s.OwnTermMatched s.logView
  | .appendEntriesInBg => s.peers = [] → s.role = .leader
  | _ => True

instance (s : RaftServer) (w : LogView) : Decidable (s.OwnTermMatched w) :=
  inferInstanceAs (Decidable (∀ k < s.log.nextSlot, _ → _ → ∃ k' < s.log.nextSlot, _))

instance (s : RaftServer) (resp : RespMsg) : Decidable (s.GuardedAppendResp resp) :=
  inferInstanceAs (Decidable (_ → _ → _ → _ ∧ _ ∧ _))

instance (s : RaftServer) (resp : RespMsg) : Decidable (s.GuardedVoteResp resp) :=
  inferInstanceAs (Decidable (_ → _ → _ → ∀ p ∈ s.peers, _))

instance (s : RaftServer) (input : Input) : Decidable (s.GuardedInput input) := by
  rcases input with ⟨⟩ <;> (dsimp only [GuardedInput]; infer_instance)

end RaftServer

namespace Cluster

open RaftServer

variable {v : VotingConfig} {ps : Int → RaftParams} {c c' : Cluster} {x y z : Replicas} {i : Int}
  {s t : RaftServer} {input : Input} {o : Output} {params : RaftParams}
variable {env : Env}

/-! ## What a server takes for committed -/

/-- The part of its log that the server takes for committed is chosen, and a leader knows of its
peers only what they acknowledged. -/
structure Upholds (M : Finset Int) (x : Replicas) (i : Int) (s : RaftServer) : Prop where
  bound : s.quickCommitIndex ≤ (x.log i).length
  chosen : Chosen LogEntry.term M x s.state.term ((x.log i).take s.quickCommitIndex)
  applied : s.smCommitIndex ≤ s.quickCommitIndex
  tail : s.role = .leader → lastTerm LogEntry.term (x.log i) = s.state.term
  matched : s.role = .leader → ∀ p ∈ s.logView.peers, p.matchedIdx ≤ x.ack s.state.term p.id

/-- What a leader announces as committed is chosen. -/
def Announces (M : Finset Int) (x : Replicas) (m : ReqMsg) : Prop :=
  m.commitIdx ≤ (x.llog m.term).length ∧
    Chosen LogEntry.term M x m.term ((x.llog m.term).take m.commitIdx)

/-- Server and peers that have index `k` make up a majority that has acknowledged it. -/
theorem committed_of_matchedBy (h : Member v.config.servers params i s)
    (hi : i ∈ v.config.servers.map SrvConfig.id) {w : LogView} {term k : Nat}
    (hids : w.peers.map Progress.id = s.peers.map Peer.id)
    (hown : w.precommitIndex ≤ x.ack term i)
    (hpeers : ∀ p ∈ w.peers, p.matchedIdx ≤ x.ack term p.id) (hk : w.MatchedBy k) :
    Committed (voters v) x term k := by
  have hlen := h.length_peers hi
  have hnodup := h.peerIds_nodup
  have hcount : w.peers.length = s.peers.length := by
    simpa using congrArg length hids
  rw [← hids] at hnodup
  have hmem {w' : Int} (hw : w' ∈ w.peers.map Progress.id) :
      w' ∈ v.config.servers.map SrvConfig.id ∧ w' ≠ i := by
    rw [hids] at hw
    obtain ⟨p, hp, rfl⟩ := mem_map.mp hw
    exact ⟨mem_map_of_mem (h.peer_mem hp).1, (h.peer_mem hp).2⟩
  -- the peers that have it, and the server if it has it
  let have_ : List Int := (w.peers.filter (fun p => decide (k ≤ p.matchedIdx))).map Progress.id
  have hsub : have_.Sublist (w.peers.map Progress.id) := filter_sublist.map _
  have hcard : have_.toFinset.card = w.peers.countP (fun p => decide (k ≤ p.matchedIdx)) := by
    rw [toFinset_card_of_nodup (hnodup.sublist hsub), length_map, countP_eq_length_filter]
  have hvoters : (voters v).card = w.peers.length + 1 := by
    rw [voters, toFinset_card_of_nodup v.nodup, length_map]
    omega
  have hacked (u : Int) (hu : u ∈ have_.toFinset) : u ∈ voters v ∧ k ≤ x.ack term u := by
    obtain ⟨p, hp, rfl⟩ := mem_map.mp (mem_toFinset.mp hu)
    obtain ⟨hp, hle⟩ := mem_filter.mp hp
    refine ⟨mem_toFinset.mpr (hmem (mem_map_of_mem hp)).1, ?_⟩
    exact (of_decide_eq_true hle).trans (hpeers p hp)
  unfold LogView.MatchedBy at hk
  by_cases hself : k ≤ w.precommitIndex
  · refine ⟨insert i have_.toFinset, ⟨?_, ?_⟩, ?_⟩
    · intro u hu
      rcases Finset.mem_insert.mp hu with rfl | hu
      · exact mem_toFinset.mpr hi
      · exact (hacked u hu).1
    · have hnot : i ∉ have_.toFinset := by
        intro hin
        exact (hmem (hsub.subset (mem_toFinset.mp hin))).2 rfl
      rw [if_pos hself] at hk
      rw [Finset.card_insert_of_notMem hnot, hcard, hvoters]
      omega
    · intro u hu
      rcases Finset.mem_insert.mp hu with rfl | hu
      · exact hself.trans hown
      · exact (hacked u hu).2
  · refine ⟨have_.toFinset, ⟨fun u hu => (hacked u hu).1, ?_⟩, fun u hu => (hacked u hu).2⟩
    rw [if_neg hself] at hk
    omega

theorem Replica.log_eq (h : Replica x i s) (hp : s.logView.Plain) : x.log i = s.log.entries := by
  have hentries := h.holds.entries
  rw [hp.start] at hentries
  exact hentries.symm

theorem key_length (hx : Sane LogEntry.term (voters v) x) {term : Nat}
    (hlead : x.ballots.lead term = some i) (hlog : x.llog term = x.log i)
    (htail : lastTerm LogEntry.term (x.log i) = term) :
    Key LogEntry.term x term (x.log i).length := by
  have hpos : 0 < lastTerm LogEntry.term (x.log i) := htail ▸ hx.sound.lead_pos hlead
  obtain ⟨p, e, heq, he⟩ := exists_concat_of_lastTerm hpos
  refine ⟨e, ?_, ?_, he.trans htail⟩
  · rw [heq]
    simp
  · rw [hlog, heq]
    simp

theorem Upholds.lower (h : Upholds (voters v) x i s) (hx : Sane LogEntry.term (voters v) x)
    (hg : Grows x y) (hle : s.state.term ≤ t.state.term)
    (hkept : ∀ l, Chosen LogEntry.term (voters v) x t.state.term l → l <+: x.log i →
      l <+: y.log i) {q : Nat} (hq : q ≤ s.quickCommitIndex) :
    q ≤ (y.log i).length ∧ Chosen LogEntry.term (voters v) y t.state.term ((y.log i).take q) := by
  have hchosen := h.chosen.le hle
  have hpre := hkept _ hchosen (List.take_prefix _ _)
  have hlen : ((x.log i).take s.quickCommitIndex).length = s.quickCommitIndex := by
    rw [length_take, Nat.min_eq_left h.bound]
  have hbound : q ≤ (y.log i).length := by
    have := hpre.length_le
    omega
  refine ⟨hbound, (hchosen.mono hx hg).sublog (prefix_of_prefix_length_le
    (List.take_prefix _ _) hpre ?_)⟩
  rw [hlen, length_take]
  omega

/-- A leader that counts an index of its own term for a majority has chosen it. -/
theorem chosen_of_matchedBy (hm : Member v.config.servers params i s)
    (hi : i ∈ v.config.servers.map SrvConfig.id) (hx : Sane LogEntry.term (voters v) x)
    (hr : Replica x i s) (hrole : s.role = .leader)
    (hlead : x.ballots.lead s.state.term = some i) (hterm : x.ballots.term i = s.state.term)
    {w : LogView} (hids : w.peers.map Progress.id = s.peers.map Peer.id)
    (hpre : w.precommitIndex = s.precommitIndex)
    (hpeers : ∀ p ∈ w.peers, p.matchedIdx ≤ x.ack s.state.term p.id) (hown : s.OwnTermMatched w)
    {q : Nat} (hlt : s.quickCommitIndex < q) (hq : w.MatchedBy q) :
    q ≤ (x.log i).length ∧ Chosen LogEntry.term (voters v) x s.state.term ((x.log i).take q) := by
  have hlog := llog_of_lead hx hterm hlead
  have hnext : s.log.nextSlot = (x.log i).length + 1 := hr.holds.nextSlot
  have hself : w.precommitIndex ≤ x.ack s.state.term i := by
    rw [hpre]
    exact (hr.precommit hrole).trans (hr.acked hrole)
  -- somebody of the majority has acknowledged `q`, so the log is that long
  have hbound : q ≤ (x.log i).length := by
    obtain ⟨Q, hQ, hack⟩ := committed_of_matchedBy hm hi hids hself hpeers hq
    obtain ⟨u, hu⟩ := hQ.nonempty
    rw [← hlog]
    exact (hack u hu).trans (hx.ackLe _ u)
  obtain ⟨k, _, hqk, hk, hkterm⟩ := hown q (by omega) hlt hq
  have hcom := committed_of_matchedBy hm hi hids hself hpeers hk
  have hkey : Key LogEntry.term x s.state.term k := by
    have hpos := hx.sound.lead_pos hlead
    have hat := hr.holds.at_of_termAt (i := k) (by show s.log.termAt k ≠ 0; omega)
    obtain ⟨e, hk', he, heterm⟩ := hat
    refine ⟨e, hk', ?_, heterm.trans hkterm⟩
    rwa [hlog]
  refine ⟨hbound, .inr ⟨s.state.term, k, le_rfl, ?_, hkey, hcom⟩⟩
  rw [hlog]
  exact take_prefix_take_left hqk

/-! ## One step -/

/-- The replicated log went from `x` to `y` while server `i` went from `s` to `t`, and nothing that
was chosen got lost. -/
structure Stepped (v : VotingConfig) (x y : Replicas) (i : Int) (s t : RaftServer) : Prop where
  sane : Sane LogEntry.term (voters v) x
  sane' : Sane LogEntry.term (voters v) y
  grows : Grows x y
  replica : Replica x i s
  replica' : Replica y i t
  plain : s.logView.Plain
  plain' : t.logView.Plain
  term_le : s.state.term ≤ t.state.term
  term : x.ballots.term i = s.state.term
  term' : y.ballots.term i = t.state.term
  lead : s.role = .leader → x.ballots.lead s.state.term = some i
  lead' : t.role = .leader → y.ballots.lead t.state.term = some i
  kept : ∀ l, Chosen LogEntry.term (voters v) x t.state.term l → l <+: x.log i → l <+: y.log i

theorem Stepped.log_eq (hst : Stepped v x y i s t) (h : t.log = s.log) : y.log i = x.log i := by
  rw [hst.replica'.log_eq hst.plain', hst.replica.log_eq hst.plain, h]

theorem Stepped.log_append (hst : Stepped v x y i s t) {es : List LogEntry}
    (h : t.log = s.log.appendLoop es) : y.log i = x.log i ++ es := by
  rw [hst.replica'.log_eq hst.plain', hst.replica.log_eq hst.plain, h, appendLoop_entries]

theorem Stepped.tail (hst : Stepped v x y i s t) (h : Upholds (voters v) x i s)
    (hls : LogStep s t input o) (hrole : t.role = .leader) :
    lastTerm LogEntry.term (y.log i) = t.state.term := by
  have hkeep {w : LogView} (hkeep : Keeps s t) (hview : t.logView = w) (hlog : w.log = s.log) :
      lastTerm LogEntry.term (y.log i) = t.state.term := by
    rw [hst.log_eq ((congrArg LogView.log hview).trans hlog), (hkeep hrole).2]
    exact h.tail (hkeep hrole).1
  cases hls
  case elected e _ he hview _ _ =>
    have hlog : t.log = s.log.appendLoop [e] := congrArg LogView.log hview
    rw [hst.log_append hlog, ← he]
    simp [lastTerm]
  case appended es k _ hk hes hview _ _ _ =>
    rw [hst.log_append (congrArg LogView.log hview), hk.2.2]
    rcases eq_nil_or_concat' es with rfl | ⟨p, e, rfl⟩
    · rw [append_nil]
      exact h.tail hk.1
    · rw [← hes e (by simp)]
      simp [lastTerm]
  case sent hk _ _ _ _ hview _ =>
    exact hkeep (fun _ => ⟨hk.1, hk.2.2⟩) hview rfl
  case created hsnp _ _ =>
    have hidle : s.snpInProgress = none := hst.plain.creating
    cases hidle ▸ hsnp
  -- the other steps are not a leader's, or leave the log alone
  all_goals first
    | exact absurd hrole ‹_›
    | (have hview : t.logView = _ := ‹_›
       exact hkeep ‹_› hview rfl)

theorem Stepped.matched (hst : Stepped v x y i s t) (h : Upholds (voters v) x i s)
    (hls : LogStep s t input o) (hguard : s.GuardedInput input)
    (hresp : ∀ resp, input = .response resp → AckedResp x resp)
    (hnew : s.role = .leader ∧ t.state.term = s.state.term ∨
      ∀ p ∈ s.logView.peers, p.matchedIdx = 0) (hrole : t.role = .leader) :
    ∀ p ∈ t.logView.peers, p.matchedIdx ≤ y.ack t.state.term p.id := by
  -- what was known before, seen later
  have hold (hk : s.role = .leader ∧ t.state.term = s.state.term) (p : Progress)
      (hp : p ∈ s.logView.peers) : p.matchedIdx ≤ y.ack t.state.term p.id := by
    rw [hk.2]
    exact (h.matched hk.1 p hp).trans (hst.grows.ack _ _)
  have hsame {w : LogView} (hk : s.role = .leader ∧ t.state.term = s.state.term)
      (hview : t.logView = w) (hpeers : w.peers = s.logView.peers) (p : Progress)
      (hp : p ∈ t.logView.peers) : p.matchedIdx ≤ y.ack t.state.term p.id :=
    hold hk p (hpeers ▸ hview ▸ hp)
  have hupdate (hk : s.role = .leader ∧ t.state.term = s.state.term) {id : Int}
      {f : Progress → Progress} {w : LogView} (hview : t.logView = w)
      (hpeers : w.peers = (s.logView.updatePeer id f).peers)
      (hf : ∀ p ∈ s.logView.peers, p.id = id →
        (f p).matchedIdx ≤ y.ack t.state.term (f p).id) (p : Progress)
      (hp : p ∈ t.logView.peers) : p.matchedIdx ≤ y.ack t.state.term p.id := by
    rw [hview, hpeers] at hp
    obtain ⟨q, hq, rfl⟩ := mem_map.mp hp
    split
    · next hid => exact hf q hq hid
    · exact hold hk q hq
  cases hls
  case elected e _ _ hview _ _ =>
    intro p hp
    rw [hview] at hp
    obtain ⟨q, hq, rfl⟩ := mem_map.mp hp
    rcases hnew with hk | hzero
    · exact hold hk q hq
    · exact (hzero q hq).le.trans (Nat.zero_le _)
  case appended hk _ hview _ _ _ =>
    exact hsame ⟨hk.1, hk.2.2⟩ hview rfl
  case sent dst p p' _ _ hk hp hid _ hmatch hview _ =>
    refine hupdate ⟨hk.1, hk.2.2⟩ hview rfl ?_
    intro _ _ _
    have hown := hold ⟨hk.1, hk.2.2⟩ p.progress (mem_map_of_mem hp)
    have hpid : p'.progress.id = p.progress.id := hid.2.trans hid.1.symm
    rw [hpid]
    rcases hmatch with heq | hzero
    · exact heq.le.trans hown
    · exact hzero.le.trans (Nat.zero_le _)
  case matched resp hin htype hacc hterm hk hview _ _ =>
    subst hin
    refine hupdate (hk hrole) hview rfl ?_
    intro p hp hid
    -- the response is of the term that the server leads
    have hsame := (hguard.1 htype hacc hterm).2.1
    have hack := (hresp resp rfl htype hacc).trans (hst.grows.ack _ _)
    rw [(hk hrole).2, ← hsame]
    rwa [hid]
  case synced hk hview _ =>
    refine hupdate (hk hrole) hview rfl ?_
    intro p hp _
    rw [hst.plain.peers p hp]
    exact hold (hk hrole) p hp
  case aborted hk hview _ =>
    refine hupdate (hk hrole) hview rfl ?_
    intro p hp _
    exact hold (hk hrole) p hp
  -- the other steps are not a leader's, or leave the peers alone
  all_goals first
    | exact absurd hrole ‹_›
    | (have hview : t.logView = _ := ‹_›
       exact hsame (‹Keeps s t› hrole) hview rfl)

theorem writeEntries_applied (h : s.smCommitIndex ≤ s.quickCommitIndex) (first : Nat)
    (es : List LogEntry) :
    (s.writeEntries first es).smCommitIndex ≤ (s.writeEntries first es).quickCommitIndex ∧
      (s.writeEntries first es).quickCommitIndex ≤ s.quickCommitIndex := by
  dsimp only [writeEntries]
  split
  · simp only [storeReceived_smCommitIndex, storeReceived_quickCommitIndex,
      rollback_smCommitIndex, rollback_quickCommitIndex]
    split <;> split <;> omega
  · exact ⟨h, le_rfl⟩

theorem chosen_of_alone (hm : Member v.config.servers params i t)
    (hi : i ∈ v.config.servers.map SrvConfig.id) (hst : Stepped v x y i s t)
    (hrole : t.role = .leader) (htail : lastTerm LogEntry.term (y.log i) = t.state.term) {q : Nat}
    (halone : t.logView.Alone q) :
    q ≤ (y.log i).length ∧ Chosen LogEntry.term (voters v) y t.state.term ((y.log i).take q) := by
  have hlead := hst.lead' hrole
  have hlog := llog_of_lead hst.sane' hst.term' hlead
  have hnil : t.logView.peers = [] := halone.1
  have hcom : Committed (voters v) y t.state.term (y.log i).length := by
    have hids : t.logView.peers.map Progress.id = t.peers.map Peer.id := by
      simp only [logView, List.map_map]
      rfl
    refine committed_of_matchedBy hm hi
      (w := { t.logView with precommitIndex := (y.log i).length }) hids
      (hst.replica'.acked hrole) ?_ ?_
    · rw [hnil]
      intro p hp
      cases hp
    · rw [LogView.MatchedBy, hnil, if_pos le_rfl]
      simp
  refine ⟨halone.2.trans (hst.replica'.precommit hrole), .inr ⟨t.state.term, (y.log i).length,
    le_rfl, ?_, key_length hst.sane' hlead hlog htail, hcom⟩⟩
  rw [hlog, take_length]
  exact take_prefix _ _

/-- What a follower learns from its leader's announcement. -/
theorem chosen_of_announced (hst : Stepped v x y i s t) {req : ReqMsg} {n : Nat}
    (hreq : t.state.term = req.term) (hlead : x.ballots.lead req.term ≠ none)
    (hann : Announces (voters v) x req) (hn : n ≤ y.ack req.term i) :
    min req.commitIdx n ≤ (y.log i).length ∧ Chosen LogEntry.term (voters v) y t.state.term
      ((y.log i).take (min req.commitIdx n)) := by
  have hagree : (y.llog req.term).take n <+: y.log i := by
    have hterm := hst.term'
    rw [hreq] at hterm
    have hown := hst.sane'.agrees i
    rw [hterm] at hown
    exact (take_prefix_take_left hn).trans hown
  have hlong : n ≤ (y.llog req.term).length := hn.trans (hst.sane'.ackLe _ _)
  have hlen : ((y.llog req.term).take n).length = n := by
    rw [length_take, Nat.min_eq_left hlong]
  have hbound : min req.commitIdx n ≤ (y.log i).length := by
    have := hagree.length_le
    omega
  refine ⟨hbound, ?_⟩
  rw [hreq]
  refine (hann.2.mono hst.sane hst.grows).sublog ?_
  -- both are parts of the leader's log
  have hpre : (x.llog req.term).take req.commitIdx <+: y.llog req.term :=
    (List.take_prefix _ _).trans (hst.grows.llog _ hlead)
  have hshort : (y.log i).take (min req.commitIdx n) <+: (y.llog req.term).take n := by
    refine prefix_of_prefix_length_le (List.take_prefix _ _) hagree ?_
    rw [hlen, length_take]
    omega
  refine prefix_of_prefix_length_le (hshort.trans (List.take_prefix _ _)) hpre ?_
  rw [length_take, length_take, Nat.min_eq_left hann.1]
  omega

/-- Both indices after a step: the state machine is not ahead of the commit index, and everything up
to the commit index is chosen. -/
theorem Stepped.indices (hst : Stepped v x y i s t) (h : Upholds (voters v) x i s)
    (hm : Member v.config.servers params i s) (hm' : Member v.config.servers params i t)
    (hi : i ∈ v.config.servers.map SrvConfig.id) (hdef : DefaultQuorums params)
    (hls : LogStep s t input o) (hguard : s.GuardedInput input)
    (hresp : ∀ resp, input = .response resp → AckedResp x resp)
    (hreq : ∀ req es, input = .request req → req.body = .appendEntries es →
      Announces (voters v) x req ∧ x.ballots.lead req.term ≠ none)
    (hacked : ∀ req es, input = .request req → req.body = .appendEntries es →
      o.resp = some (s.acceptedResp req es) → req.lastLogIdx + es.length ≤ y.ack req.term i) :
    t.smCommitIndex ≤ t.quickCommitIndex ∧ t.quickCommitIndex ≤ (y.log i).length ∧
      Chosen LogEntry.term (voters v) y t.state.term ((y.log i).take t.quickCommitIndex) := by
  have hparams : DefaultQuorums t.params := by
    rwa [hm'.params]
  have hlower {q : Nat} (hq : q ≤ s.quickCommitIndex) :=
    h.lower hst.sane hst.grows hst.term_le hst.kept hq
  -- the goal, with the commit index as it was
  have hsame (hsm : t.smCommitIndex = s.smCommitIndex)
      (hquick : t.quickCommitIndex = s.quickCommitIndex) := show
      t.smCommitIndex ≤ t.quickCommitIndex ∧ t.quickCommitIndex ≤ (y.log i).length ∧
        Chosen LogEntry.term (voters v) y t.state.term ((y.log i).take t.quickCommitIndex) from
    ⟨by rw [hsm, hquick]; exact h.applied, hlower hquick.le⟩
  -- a commit, or none
  have hcommits {enough : LogView → Nat → Prop} (hsm : t.smCommitIndex = s.smCommitIndex)
      (hcommit : Commits enough s t) (hnew : s.quickCommitIndex < t.quickCommitIndex →
        enough t.logView t.quickCommitIndex → t.quickCommitIndex ≤ (y.log i).length ∧
          Chosen LogEntry.term (voters v) y t.state.term
            ((y.log i).take t.quickCommitIndex)) :
      t.smCommitIndex ≤ t.quickCommitIndex ∧ t.quickCommitIndex ≤ (y.log i).length ∧
        Chosen LogEntry.term (voters v) y t.state.term ((y.log i).take t.quickCommitIndex) := by
    rcases hcommit with heq | ⟨hlt, henough⟩
    · exact hsame hsm heq
    · refine ⟨?_, hnew hlt (henough hparams)⟩
      rw [hsm]
      exact h.applied.trans hlt.le
  -- a leader that counts its peers' progress in view `w`
  have hcount {w : LogView} (hrole : s.role = .leader) (hown : s.OwnTermMatched w)
      (hids : w.peers.map Progress.id = s.peers.map Peer.id)
      (hpre : w.precommitIndex = s.precommitIndex)
      (hpeers : ∀ p ∈ w.peers, p.matchedIdx ≤ x.ack s.state.term p.id) (hlog : t.log = s.log)
      (hlt : s.quickCommitIndex < t.quickCommitIndex) (hq : w.MatchedBy t.quickCommitIndex) :
      t.quickCommitIndex ≤ (y.log i).length ∧ Chosen LogEntry.term (voters v) y t.state.term
        ((y.log i).take t.quickCommitIndex) := by
    have hnew := chosen_of_matchedBy hm hi hst.sane hst.replica hrole (hst.lead hrole) hst.term hids
      hpre hpeers hown hlt hq
    rw [hst.log_eq hlog]
    exact ⟨hnew.1, (hnew.2.mono hst.sane hst.grows).le hst.term_le⟩
  have hids : s.logView.peers.map Progress.id = s.peers.map Peer.id := by
    simp only [logView, List.map_map]
    rfl
  have htail (hrole : t.role = .leader) := hst.tail h hls hrole
  cases hls
  case elected hrole _ hview hcommit _ =>
    refine hcommits (congrArg LogView.smCommitIndex hview) hcommit (fun _ halone => ?_)
    exact chosen_of_alone hm' hi hst hrole (htail hrole) halone
  case appended hkeep _ hview _ hcommit _ =>
    refine hcommits (congrArg LogView.smCommitIndex hview) hcommit (fun _ halone => ?_)
    exact chosen_of_alone hm' hi hst hkeep.2.1 (htail hkeep.2.1) halone
  case accepted req es hin hbody hterm _ _ hview ho =>
    have hsm : t.smCommitIndex = (s.writeEntries (req.lastLogIdx + 1) es).smCommitIndex :=
      congrArg LogView.smCommitIndex hview
    have hquick : t.quickCommitIndex = max (s.writeEntries (req.lastLogIdx + 1) es).quickCommitIndex
        (min req.commitIdx (req.lastLogIdx + es.length)) := congrArg LogView.quickCommitIndex hview
    obtain ⟨hle, hback⟩ := writeEntries_applied h.applied (req.lastLogIdx + 1) es
    obtain ⟨hann, hlead⟩ := hreq req es hin hbody
    have hnew := chosen_of_announced hst hterm.2 hlead hann (hacked req es hin hbody (by rw [ho]))
    rw [hsm, hquick]
    refine ⟨hle.trans (Nat.le_max_left _ _), ?_⟩
    -- either the old commit index, rolled back or not, or the announced one
    rcases Nat.le_total (s.writeEntries (req.lastLogIdx + 1) es).quickCommitIndex
      (min req.commitIdx (req.lastLogIdx + es.length)) with hmax | hmax
    · rwa [Nat.max_eq_right hmax]
    · rw [Nat.max_eq_left hmax]
      exact hlower hback
  case installed hmem _ _ _ _ =>
    have happ : s.applyingSnapshots = [] := hst.plain.applying
    cases happ ▸ hmem
  case moved k _ hk hview _ =>
    have hsm : t.smCommitIndex = k := congrArg LogView.smCommitIndex hview
    have hquick : t.quickCommitIndex = s.quickCommitIndex :=
      congrArg LogView.quickCommitIndex hview
    have hstart : s.log.startIndex = 1 := hst.plain.start
    exact ⟨by omega, hlower hquick.le⟩
  case matched resp hin htype hacc hterm hkeep hview hcommit _ =>
    subst hin
    obtain ⟨hrole, hsame', hown⟩ := hguard.1 htype hacc hterm
    refine hcommits (congrArg LogView.smCommitIndex hview) hcommit (fun hlt hq => ?_)
    refine hcount (w := s.logView.record resp) hrole hown ?_ rfl ?_ (congrArg LogView.log hview) hlt
      ?_
    · rw [← hids]
      simp only [LogView.record, LogView.updatePeer, List.map_map]
      refine map_congr_left ?_
      intro p _
      simp only [Function.comp_apply]
      split <;> rfl
    · intro p hp
      obtain ⟨q, hq, rfl⟩ := mem_map.mp hp
      split
      · next hid =>
        have hack := hresp resp rfl htype hacc
        rwa [hsame', ← hid] at hack
      · exact h.matched hrole q hq
    · rwa [hview] at hq
  case committed hin hrole _ hview hcommit _ =>
    obtain ⟨ok, rfl⟩ := hin
    refine hcommits (congrArg LogView.smCommitIndex hview) hcommit (fun hlt hq => ?_)
    refine hcount hrole (hguard hrole) hids rfl (h.matched hrole) (congrArg LogView.log hview) hlt ?_
    rwa [hview] at hq
  case urged hin hsrole hkeep hview hcommit _ =>
    subst hin
    refine hcommits (congrArg LogView.smCommitIndex hview) hcommit (fun _ halone => ?_)
    have hnil : s.peers = [] := by
      have hview' : t.peers.map Peer.progress = s.peers.map Peer.progress :=
        congrArg LogView.peers hview
      exact map_eq_nil_iff.mp (hview'.symm.trans halone.1)
    have hrole : t.role = .leader := hsrole.trans (hguard hnil)
    exact chosen_of_alone hm' hi hst hrole (htail hrole) halone
  case restarted applied hle _ hview _ =>
    have hsm : t.smCommitIndex = applied := congrArg LogView.smCommitIndex hview
    have hquick : t.quickCommitIndex = applied := congrArg LogView.quickCommitIndex hview
    rw [hsm, hquick]
    exact ⟨le_rfl, hlower (hle.trans h.applied)⟩
  -- the other steps leave both indices alone
  all_goals
    have hview : t.logView = _ := ‹_›
    exact hsame (congrArg LogView.smCommitIndex hview) (congrArg LogView.quickCommitIndex hview)

/-! ## The cluster -/

/-- A server becomes leader by counting a vote, unless it has no peers. -/
theorem matched_of_elected (hm : Member v.config.servers params i s) (hdef : DefaultQuorums params)
    (hin : FixedInput v.config.servers input)
    (hstep : s.step env input = some (t, o)) (hguard : s.GuardedInput input)
    (hrole : t.role = .leader) : s.role = .leader ∧ t.state.term = s.state.term ∨
      ∀ p ∈ s.logView.peers, p.matchedIdx = 0 := by
  cases step_ballotStep hstep with
  | settled hs _ => exact .inl ⟨hs.role hrole, hs.term⟩
  | raised _ _ hs _ => exact absurd hrole hs.role
  | answered req force _ _ ht _ =>
    obtain ⟨hterm, hsame, _⟩ := handleVoteReq_keeps (s.updateTermOnReq req) req force
    rw [← ht] at hterm hsame
    rw [hsame] at hrole
    obtain ⟨hlead, heq⟩ := (updateTermOnReq_steady s req).keeps hrole
    exact .inl ⟨hlead, hterm.trans heq⟩
  | stood _ hs _ =>
    rcases hs.outcome with ⟨_, hnot, _⟩ | ⟨_, hquorum, _⟩
    · exact absurd hrole hnot
    · -- nobody else has to agree
      refine .inr ?_
      have hnil : s.peers = [] := by
        have hN : s.getNumVotingMembers = s.peers.length + 1 := by
          rw [getNumVotingMembers, hm.regularMembers, hm.voting]
          rfl
        rw [getQuorumForElection, hm.params, if_pos (.inl hdef.election.le), hN] at hquorum
        apply eq_nil_of_length_eq_zero
        omega
      intro p hp
      have hp' : p ∈ s.peers.map Peer.progress := hp
      cases hnil ▸ hp'
  | counted resp hin' htype hs _ =>
    subst hin'
    refine .inr ?_
    intro p hp
    obtain ⟨q, hq, rfl⟩ := mem_map.mp hp
    exact hguard.2 htype hs.sameTerm hs.isOpen q hq
  | joined req conf hin' hbody _ _ =>
    subst hin'
    have hof : req.Of v.config.servers ∨ ∃ bufs, req.body = .clientRequest bufs := hin
    simp [ReqMsg.Of, hbody] at hof
  | restarted _ _ hs _ =>
    cases hs.role ▸ hrole

theorem LogStep.announces (hls : LogStep s t input o) (hm : m ∈ o.sent)
    (happ : isAppendReq m = true) :
    s.role = .leader ∧ m.term = s.state.term ∧ m.commitIdx = s.quickCommitIndex := by
  have hcopies : m.copies = true := by
    unfold isAppendReq at happ
    split at happ
    · next hbody => simp [ReqMsg.copies, hbody]
    · cases happ
  have hsilent (ho : Silent o) : False := by
    rw [ho.sent m hm] at hcopies
    cases hcopies
  cases hls
  case sent dst p p' req _ hk _ _ hb _ _ ho =>
    rw [ho] at hm
    have heq : m = req := mem_singleton.mp hm
    subst heq
    refine ⟨hk.1, ?_⟩
    cases hb with
    | entries _ _ _ _ _ _ hreq =>
      rw [hreq]
      exact ⟨rfl, rfl⟩
    | snapshot _ _ _ _ hreq =>
      cases hreq ▸ happ
    | outOfRange _ _ hbody _ => simp [isAppendReq, hbody] at happ
  -- no other step sends entries
  all_goals first
    | exact (hsilent ‹_›).elim
    | (rename_i ho
       rw [ho] at hm
       cases hm)

theorem Announces.mono (h : Announces (voters v) x m)
    (hx : Sane LogEntry.term (voters v) x) (hlead : x.ballots.lead m.term ≠ none)
    (hg : Grows x y) : Announces (voters v) y m := by
  have htake := hg.take_llog hlead h.1
  refine ⟨h.1.trans (hg.llog _ hlead).length_le, ?_⟩
  rw [htake]
  exact h.2.mono hx hg

/-- Nothing that any server takes for committed can get lost. -/
structure Safe (v : VotingConfig) (ps : Int → RaftParams) (c : Cluster) (x : Replicas) : Prop where
  replicated : Replicated v ps c x
  complete : Complete LogEntry.term (voters v) x
  plain : ∀ i ∈ c.members, (c.srv i).logView.Plain
  noInstall : ∀ m ∈ c.reqs, m.installs = false
  reqs : ∀ m ∈ c.reqs, isAppendReq m = true → Announces (voters v) x m
  srv : ∀ i ∈ c.members, Upholds (voters v) x i (c.srv i)

theorem Replicates.lead_of_appendReq (h : Replicates c x) (hm : m ∈ c.reqs)
    (happ : isAppendReq m = true) : x.ballots.lead m.term ≠ none := by
  have hgen := h.reqs m hm
  unfold isAppendReq at happ
  split at happ
  · next hbody =>
    rw [ReqMsg.Genuine, hbody] at hgen
    simp [hgen.1]
  · cases happ

theorem Upholds.mono (h : Upholds (voters v) x i s) (hx : Sane LogEntry.term (voters v) x)
    (hg : Grows x y) (hlog : y.log i = x.log i) : Upholds (voters v) y i s := by
  refine ⟨?_, ?_, h.applied, ?_, ?_⟩
  · rw [hlog]
    exact h.bound
  · rw [hlog]
    exact h.chosen.mono hx hg
  · rw [hlog]
    exact h.tail
  · intro hl p hp
    exact (h.matched hl p hp).trans (hg.ack _ _)

theorem coherent_of_plain (h : s.logView.Plain)
    (hstep : s.step env input = some (t, o)) : CoherentInput s input := by
  cases input with
  | request req =>
    intro _ j _ hcov
    have hzero : s.logView.coveredIdx = 0 := by
      rw [LogView.coveredIdx, LogView.snapshotIdx, h.last, h.creating]
      rfl
    omega
  | finishSnapshot p =>
    simp only [RaftServer.step] at hstep
    split at hstep
    · next hmem =>
      have happ : s.applyingSnapshots = [] := h.applying
      cases happ ▸ hmem
    · cases hstep
  | _ => trivial

section Steps

variable (hdef : ∀ i, DefaultQuorums (ps i))
include hdef

theorem server_safe (h : Safe v ps c x) (hi : i ∈ c.members) {o' : Output}
    {reqs : List ReqMsg} {resps : List RespMsg} (htook : c.Took i input reqs resps)
    (hstep : (c.srv i).step env input = some (t, o)) (hout : c.Emits i input o o')
    (hguard : (c.srv i).GuardedInput input) (hcreate : ∀ forced, input ≠ .createSnapshot forced) :
    ∃ y, Relation.ReflTransGen (ReplicatedLog.Step LogEntry.term True (voters v)) x y ∧
      Safe v ps (update { c with reqs := reqs, resps := resps } i t o') y := by
  have hfixed := h.replicated.voted.1
  have hmember := hfixed.srv i hi
  have hids : i ∈ v.config.servers.map SrvConfig.id := hfixed.members ▸ hi
  have hls := step_logStep (hdef i).smallClusters hmember (hfixed.input htook) hstep
  -- what the input is, if it comes from the network
  have hnet {req : ReqMsg} {es : List LogEntry} (hin : input = .request req)
      (hbody : req.body = .appendEntries es) : req ∈ c.reqs ∧ o' = o := by
    subst hin
    refine ⟨?_, ?_⟩
    · cases htook with
      | inner hallowed => cases hallowed
      | client bufs => cases hbody
      | request hk _ => exact mem_of_getElem? hk
    · rcases hout with ⟨heq, _⟩ | ⟨_, bufs, hclient⟩
      · exact heq
      · cases hclient
        cases hbody
  have hplain := hls.plain (h.plain i hi) hcreate (by
    rintro req rfl
    cases htook with
    | inner hallowed => cases hallowed
    | client bufs => rfl
    | request hk _ => exact h.noInstall req (mem_of_getElem? hk))
  rcases server_replicated (fun j => (hdef j).election) (fun j => (hdef j).smallClusters)
    h.replicated hi htook hstep hout (coherent_of_plain (h.plain i hi) hstep)
    (fun _ => (h.plain i hi).start) with ⟨y, hexec, hy, z, hvote, hlog, hcopied⟩
  have hx := h.replicated.sane
  obtain ⟨hsane, hgrows⟩ := execution_sane hx hexec
  have hcomplete := execution_complete h.complete hx hexec
  have hmember' := hy.voted.1.srv i hi
  have hreplica := hy.copies.srv i hi
  rw [update_srv_self] at hmember' hreplica
  have hterm : x.ballots.term i = (c.srv i).state.term := h.replicated.voted.2.term i hi
  have hterm' : y.ballots.term i = t.state.term := by
    rw [hy.voted.2.term i hi, update_srv_self]
  have hst : Stepped v x y i (c.srv i) t := by
    refine ⟨hx, hsane, hgrows, h.replicated.copies.srv i hi, hreplica, h.plain i hi, hplain.1, ?_,
      hterm, hterm', h.replicated.voted.2.lead i hi, ?_, ?_⟩
    · rw [← hterm, ← hterm']
      exact hgrows.ballots.term i
    · have hlead := hy.voted.2.lead i hi
      rwa [update_srv_self] at hlead
    · -- whatever the log was replaced by has what was chosen
      intro l hl hpre
      rw [← hlog] at hpre
      rcases hcopied.log with hgrow | ⟨hlead, n, hfollow⟩
      · exact hpre.trans hgrow
      · rw [hfollow]
        exact (hl.mono hx (hvote.grows hx)).follow (execution_complete h.complete hx (.single hvote))
          (hvote.sane hx) le_rfl hlead hpre
  have hold := h.srv i hi
  have hresp (resp : RespMsg) (hin : input = .response resp) : AckedResp x resp := by
    subst hin
    cases htook with
    | inner hallowed => cases hallowed
    | response hk _ => exact h.replicated.copies.resps resp (mem_of_getElem? hk)
  rcases hst.indices hold hmember hmember' hids (hdef i) hls hguard hresp (by
      intro req es hin hbody
      have happ : isAppendReq req = true := by simp [isAppendReq, hbody]
      have hmem := (hnet hin hbody).1
      exact ⟨h.reqs req hmem happ, h.replicated.copies.lead_of_appendReq hmem happ⟩)
    (by
      intro req es hin hbody hsome
      have hack := hcopied.resp (RaftServer.acceptedResp _ req es)
        (by rw [(hnet hin hbody).2]; exact hsome) rfl rfl
      rw [← hmember.id]
      exact hack) with ⟨happlied, hbound, hchosen⟩
  have hnew : Upholds (voters v) y i t :=
    ⟨hbound, hchosen, happlied, hst.tail hold hls, fun hl => hst.matched hold hls hguard hresp
        (matched_of_elected hmember (hdef i) (hfixed.input htook) hstep hguard hl) hl⟩
  refine ⟨y, hexec, hy, hcomplete, ?_, ?_, ?_, ?_⟩
  · intro j hj
    by_cases hji : j = i
    · subst hji
      rw [update_srv_self]
      exact hplain.1
    · rw [update_srv_of_ne _ _ _ hji]
      exact h.plain j hj
  · intro m hm
    rcases mem_append.mp hm with hm | hm
    · exact hplain.2 m (hout.sent ▸ hm)
    · exact h.noInstall m (htook.reqs_subset.1.subset hm)
  · intro m hm happ
    rcases mem_append.mp hm with hm | hm
    · -- the sender is the leader, and the log is the one of its term
      obtain ⟨hrole, hmterm, hidx⟩ := LogStep.announces hls (hout.sent ▸ hm) happ
      have hlead := hst.lead hrole
      have hllog := llog_of_lead hx hst.term hlead
      have hann : Announces (voters v) x m := by
        rw [Announces, hmterm, hidx, hllog]
        exact ⟨hold.bound, hold.chosen⟩
      exact hann.mono hx (by rw [hmterm, hlead]; simp) hgrows
    · have hmem := htook.reqs_subset.1.subset hm
      exact (h.reqs m hmem happ).mono hx (h.replicated.copies.lead_of_appendReq hmem happ) hgrows
  · intro j hj
    by_cases hji : j = i
    · subst hji
      rwa [update_srv_self]
    · rw [update_srv_of_ne _ _ _ hji]
      refine (h.srv j hj).mono hx hgrows ?_
      rw [hcopied.other j hji, hlog]

end Steps

/-! ## Runs -/

def Guarded (c : Cluster) (a : Action) : Prop :=
  match c.input a with
  | some (i, _, input) => (c.srv i).GuardedInput input
  | none => True

instance (c : Cluster) (a : Action) : Decidable (c.Guarded a) :=
  match h : c.input a with
  | some (i, _, input) =>
    decidable_of_iff ((c.srv i).GuardedInput input) (by rw [Guarded, h])
  | none => isTrue (by rw [Guarded, h]; trivial)

/-- Runs of appends, elections, append requests and restarts have no step that takes a snapshot. -/
def TakesNoSnapshot : Action → Prop
  | .act _ _ (.createSnapshot _) => False
  | _ => True

instance (a : Action) : Decidable (TakesNoSnapshot a) := by
  unfold TakesNoSnapshot
  split <;> infer_instance

theorem TakesNoSnapshot.ne_create {a : Action} (h : TakesNoSnapshot a)
    (hin : c.input a = some (i, env, input)) (forced : Bool) : input ≠ .createSnapshot forced := by
  rintro rfl
  cases a with
  | act j env' input' =>
    cases hin
    exact h
  | client j env' bufs => cases hin
  | recvReq k env' =>
    obtain ⟨m, _, heq⟩ := map_eq_some_iff.mp hin
    cases heq
  | recvResp k env' =>
    obtain ⟨m, _, heq⟩ := map_eq_some_iff.mp hin
    cases heq
  | dupReq k => cases hin
  | dupResp k => cases hin

theorem init_safe (v : VotingConfig) (ps : Int → RaftParams) :
    Safe v ps (init v ps) noReplicas := by
  refine ⟨init_replicated v ps, ⟨?_, nofun⟩, ?_, nofun, nofun, fun _ _ =>
    ⟨Nat.le_refl 0, .inl rfl, Nat.le_refl 0, nofun, nofun⟩⟩
  · intro t i w _ _
    exact take_nil.symm ▸ nil_prefix
  · intro i _
    refine ⟨rfl, rfl, rfl, rfl, ?_⟩
    intro p hp
    obtain ⟨q, hq, rfl⟩ := mem_map.mp hp
    obtain ⟨sc, _, rfl⟩ := mem_map.mp hq
    rfl

theorem Safe.getElem?_chosen (h : Safe v ps c x) (hi : i ∈ c.members) {k : Nat} {e : LogEntry}
    (he : (c.srv i).log.entryAt k = some e) (hk : k ≤ (c.srv i).quickCommitIndex) :
    0 < k ∧ ((x.log i).take (c.srv i).quickCommitIndex)[k - 1]? = some e := by
  obtain ⟨hpos, hget⟩ := (h.replicated.copies.srv i hi).holds.of_entryAt he
  refine ⟨hpos, ?_⟩
  rwa [getElem?_take_of_lt (by omega)]

theorem Safe.entryAt_of_isPrefix (h : Safe v ps c x) (hi : i ∈ c.members) {l : List LogEntry}
    (hpre : l <+: x.log i) {k : Nat} (hk : 0 < k) {e : LogEntry} (he : l[k - 1]? = some e) :
    (c.srv i).log.entryAt k = some e := by
  have hstart : (c.srv i).log.startIndex = 1 := (h.plain i hi).start
  refine ((h.replicated.copies.srv i hi).holds.entryAt_of_le (i := k) ?_).trans ?_
  · show (c.srv i).log.startIndex ≤ k
    omega
  · exact getElem?_of_isPrefix hpre he

theorem Safe.isPrefix_of_leader (h : Safe v ps c x) (hi : i ∈ c.members)
    (hrole : (c.srv i).role = .leader) {u : Nat} (hu : u ≤ (c.srv i).state.term)
    {l : List LogEntry} (hl : Chosen LogEntry.term (voters v) x u l) : l <+: x.log i := by
  have hlead := h.replicated.voted.2.lead i hi hrole
  have hlog := llog_of_lead h.replicated.sane (h.replicated.voted.2.term i hi) hlead
  rw [← hlog]
  exact hl.isPrefix_llog h.complete h.replicated.sane hu (by rw [hlead]; simp)

section Runs

variable (hdef : ∀ i, DefaultQuorums (ps i))
include hdef

theorem step_safe {a : Action} (h : Safe v ps c x) (hguard : c.Guarded a)
    (hno : TakesNoSnapshot a) (hstep : c.step a = some c') :
    ∃ y, Relation.ReflTransGen (ReplicatedLog.Step LogEntry.term True (voters v)) x y ∧
      Safe v ps c' y := by
  cases step_moves hstep with
  | @server i env input t o o' reqs resps hin hi htook hs hout hc =>
    subst hc
    rw [Guarded, hin] at hguard
    exact server_safe hdef h hi htook hs hout hguard (TakesNoSnapshot.ne_create hno hin)
  | @dupReq m hm happ hc =>
    subst hc
    exact ⟨x, .refl, h.replicated.dupReq hm happ, h.complete, h.plain,
      forall_mem_cons.mpr ⟨h.noInstall m hm, h.noInstall⟩,
      forall_mem_cons.mpr ⟨h.reqs m hm, h.reqs⟩, h.srv⟩
  | @dupResp m hm happ hc =>
    subst hc
    exact ⟨x, .refl, h.replicated.dupResp hm happ, h.complete, h.plain, h.noInstall, h.reqs, h.srv⟩

theorem run_safe {as : List Action} (h : Safe v ps c x) (hno : ∀ a ∈ as, TakesNoSnapshot a)
    (hguard : Runs.AllSteps step Guarded c as) (hrun : c.run as = some c') :
    ∃ y, Relation.ReflTransGen (ReplicatedLog.Step LogEntry.term True (voters v)) x y ∧
      Safe v ps c' y := by
  refine Runs.simulation (P := fun c a => c.Guarded a ∧ TakesNoSnapshot a) (R := Safe v ps) ?_ h ?_
    hrun
  · intro c a c' x hc hca hstep
    exact step_safe hdef hc hca.1 hca.2 hstep
  · exact hguard.and (Runs.AllSteps.of_mem (fun _ a ha => hno a ha))

/-- State-machine safety and leader completeness, over any two states of a run, in either order:
entries that two servers take for committed at one index are the same, and an entry that a leader
takes for committed is in the log of every leader of a later term. -/
theorem committed_safe {as bs : List Action} {c₁ c₂ : Cluster}
    (hno : ∀ a ∈ as ++ bs, TakesNoSnapshot a)
    (hguard : Runs.AllSteps step Guarded (init v ps) (as ++ bs))
    (h₁ : (init v ps).run as = some c₁) (h₂ : c₁.run bs = some c₂) :
    (∀ i ∈ c₁.members, ∀ j ∈ c₂.members, ∀ k e e', (c₁.srv i).log.entryAt k = some e →
      (c₂.srv j).log.entryAt k = some e' → k ≤ (c₁.srv i).quickCommitIndex →
      k ≤ (c₂.srv j).quickCommitIndex → e = e') ∧
    (∀ i ∈ c₁.members, ∀ j ∈ c₂.members, ∀ k e, (c₁.srv i).role = .leader →
      (c₂.srv j).role = .leader → (c₁.srv i).state.term < (c₂.srv j).state.term →
      (c₁.srv i).log.entryAt k = some e → k ≤ (c₁.srv i).quickCommitIndex →
      (c₂.srv j).log.entryAt k = some e) ∧
    (∀ i ∈ c₂.members, ∀ j ∈ c₁.members, ∀ k e, (c₂.srv i).role = .leader →
      (c₁.srv j).role = .leader → (c₂.srv i).state.term < (c₁.srv j).state.term →
      (c₂.srv i).log.entryAt k = some e → k ≤ (c₂.srv i).quickCommitIndex →
      (c₁.srv j).log.entryAt k = some e) := by
  have hleft (a : Action) (ha : a ∈ as) : TakesNoSnapshot a := hno a (mem_append_left _ ha)
  have hright (a : Action) (ha : a ∈ bs) : TakesNoSnapshot a := hno a (mem_append_right _ ha)
  obtain ⟨x, _, hx⟩ := run_safe hdef (init_safe v ps) hleft hguard.left h₁
  obtain ⟨y, hexec, hy⟩ := run_safe hdef hx hright (hguard.suffix h₁) h₂
  have hg := (execution_sane hx.replicated.sane hexec).2
  refine ⟨?_, ?_, ?_⟩
  · intro i hi j hj k e e' he he' hk hk'
    obtain ⟨_, hget⟩ := hx.getElem?_chosen hi he hk
    obtain ⟨_, hget'⟩ := hy.getElem?_chosen hj he' hk'
    -- of two chosen logs one continues the other
    have hchosen := (hx.srv i hi).chosen.mono hx.replicated.sane hg
    have hsome : some e = some e' := by
      rcases hchosen.comparable (hy.srv j hj).chosen hy.complete hy.replicated.sane with hpre | hpre
      · rw [← hget', getElem?_of_isPrefix hpre hget]
      · rw [← hget, getElem?_of_isPrefix hpre hget']
    exact some.inj hsome
  · intro i hi j hj k e _ hj' hlt he hk
    obtain ⟨hpos, hget⟩ := hx.getElem?_chosen hi he hk
    have hchosen := (hx.srv i hi).chosen.mono hx.replicated.sane hg
    exact hy.entryAt_of_isPrefix hj (hy.isPrefix_of_leader hj hj' hlt.le hchosen) hpos hget
  · intro i hi j hj k e _ hj' hlt he hk
    obtain ⟨hpos, hget⟩ := hy.getElem?_chosen hi he hk
    refine hx.entryAt_of_isPrefix hj ?_ hpos hget
    -- the leader of the later term started with it, whenever that was
    have hlead := hx.replicated.voted.2.lead j hj hj'
    have hterm := hx.replicated.voted.2.term j hj
    have hlog := llog_of_lead hx.replicated.sane hterm hlead
    have hcand := (hy.srv i hi).chosen.elected hy.complete hy.replicated.sane hlt
      (hg.ballots.lead _ _ hlead)
    rw [hg.cand _ _ hterm.ge] at hcand
    rw [← hlog]
    exact hcand.trans (hx.replicated.sane.start _ j hlead)

end Runs

end Cluster

/-! ## A run that meets the conditions -/

/-- Server `1` leads term `1` and commits a client's entry with server `2`. -/
def commitWithTwo : List Cluster.Action :=
  electServerOne ++ [.client 1 {} [[7]], .act 1 {} (.sendAppend 2 false 0), .recvReq 0 {},
    .recvResp 0 {}]

/-- Server `2` leads term `2`, with the vote of server `3`. -/
def electServerTwo : List Cluster.Action :=
  [.act 2 {} .electionTimeout, .recvReq 1 {}, .recvResp 0 {}, .recvReq 1 {}, .recvResp 0 {}]

theorem nextLeader_has_committed :
    ∃ c₁ c₂ e, (Cluster.init threeVoters (fun _ => {})).run commitWithTwo = some c₁ ∧
      c₁.run electServerTwo = some c₂ ∧ (c₁.srv 1).log.entryAt 2 = some e ∧
      (c₁.srv 1).quickCommitIndex = 2 ∧ (c₂.srv 2).role = .leader ∧
      (c₂.srv 2).log.entryAt 2 = some e := by
  have hno : ∀ a ∈ commitWithTwo ++ electServerTwo, Cluster.TakesNoSnapshot a := by
    decide
  have hguard : Runs.AllSteps Cluster.step Cluster.Guarded
      (Cluster.init threeVoters (fun _ => {})) (commitWithTwo ++ electServerTwo) := by
    decide +kernel
  have hfirst : ((Cluster.init threeVoters (fun _ => {})).run commitWithTwo).map (fun c =>
      (decide (1 ∈ c.members), (c.srv 1).role, (c.srv 1).state.term,
        ((c.srv 1).log.entryAt 2).isSome, (c.srv 1).quickCommitIndex)) =
      some (true, .leader, 1, true, 2) := by
    decide +kernel
  have hsecond : ((Cluster.init threeVoters (fun _ => {})).run
      (commitWithTwo ++ electServerTwo)).map (fun c =>
        (decide (2 ∈ c.members), (c.srv 2).role, (c.srv 2).state.term)) =
      some (true, .leader, 2) := by
    decide +kernel
  obtain ⟨c₁, hrun₁, heq₁⟩ := map_eq_some_iff.mp hfirst
  obtain ⟨c₂, hrun, heq₂⟩ := map_eq_some_iff.mp hsecond
  obtain ⟨c, hc, hrun₂⟩ := Runs.run_append_eq_some.mp hrun
  cases some.inj (hrun₁.symm.trans hc)
  simp only [Prod.mk.injEq, decide_eq_true_eq, isSome_iff_exists] at heq₁ heq₂
  obtain ⟨hmem₁, hrole₁, hterm₁, ⟨e, he⟩, hquick⟩ := heq₁
  obtain ⟨hmem₂, hrole₂, hterm₂⟩ := heq₂
  have hdef : ∀ _ : Int, DefaultQuorums {} := fun _ => ⟨rfl, rfl, rfl, rfl, rfl⟩
  refine ⟨c₁, c₂, e, hrun₁, hrun₂, he, hquick, hrole₂, ?_⟩
  exact (Cluster.committed_safe hdef hno hguard hrun₁ hrun₂).2.1 1 hmem₁ 2 hmem₂ 2 e hrole₁ hrole₂
    (by rw [hterm₁, hterm₂]; decide) he hquick.ge

/-! ## A run that commits an entry of an earlier term -/

/-- Server `1` leads term `1` and server `2` leads term `2`, each with an entry of its own. Server `1`
leads term `3` and copies its entry of term `1` to server `3`, which is a majority. Server `2` leads
term `4` with the vote of server `3` and does the same with its entry of term `2`. -/
def twoCommits : List Cluster.Action :=
  let timeout (i : Int) : Cluster.Action := .act i {} .electionTimeout
  let send (i j : Int) : Cluster.Action := .act i {} (.sendAppend j false 0)
  let req (k : Nat) : Cluster.Action := .recvReq k {}
  let resp : Cluster.Action := .recvResp 0 {}
  [timeout 1, req 0, resp, req 1, resp] ++
  [req 0, timeout 2, req 1, resp, req 1, resp] ++
  [req 0, timeout 1, req 1, resp, req 1, resp] ++
  [send 1 3, req 0, resp, send 1 3, req 0, resp] ++
  [req 0, timeout 3, timeout 2, req 1, resp, req 1, resp] ++
  [send 2 3, req 0, resp, send 2 3, req 0, resp]

theorem twoCommits_differ :
    ∃ c, (Cluster.init threeVoters (fun _ => { maxAppendSize := 1 })).run twoCommits = some c ∧
      1 ∈ c.members ∧ 2 ∈ c.members ∧
      (c.srv 1).role = .leader ∧ (c.srv 2).role = .leader ∧
      (c.srv 1).state.term < (c.srv 2).state.term ∧
      1 ≤ (c.srv 1).quickCommitIndex ∧ 1 ≤ (c.srv 2).quickCommitIndex ∧
      ∃ e e', (c.srv 1).log.entryAt 1 = some e ∧ (c.srv 2).log.entryAt 1 = some e' ∧ e ≠ e' := by
  have hobs : ((Cluster.init threeVoters (fun _ => { maxAppendSize := 1 })).run twoCommits).map
      (fun c => (decide (1 ∈ c.members ∧ 2 ∈ c.members ∧ (c.srv 1).role = .leader ∧
          (c.srv 2).role = .leader ∧ (c.srv 1).state.term < (c.srv 2).state.term ∧
          1 ≤ (c.srv 1).quickCommitIndex ∧ 1 ≤ (c.srv 2).quickCommitIndex),
        ((c.srv 1).log.entryAt 1).map LogEntry.term,
        ((c.srv 2).log.entryAt 1).map LogEntry.term)) = some (true, some 1, some 2) := by
    decide +kernel
  obtain ⟨c, hrun, heq⟩ := map_eq_some_iff.mp hobs
  simp only [Prod.mk.injEq, decide_eq_true_eq, map_eq_some_iff] at heq
  obtain ⟨⟨h₁, h₂, hrole₁, hrole₂, hterm, hquick₁, hquick₂⟩, ⟨e, he, het⟩, e', he', het'⟩ := heq
  refine ⟨c, hrun, h₁, h₂, hrole₁, hrole₂, hterm, hquick₁, hquick₂, e, e', he, he', ?_⟩
  rintro rfl
  cases het ▸ het'

end Raft
end Xio
