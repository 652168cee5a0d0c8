import Xio.Raft.Election
import Xio.Raft.Replica

/-!
# Raft.Replication — the servers' logs follow their leaders' logs

A run of the cluster is an execution of `ReplicatedLog`. The relation `Replicates` says that every
server holds the log of its member, and that whatever is on its way was copied from the log of the
leader of its term. Voters, leaders and terms are tied together by `Elections`.

The relation survives every step but two. A server that compares a request with its last snapshot
instead of its log may keep entries that contradict the snapshot. And a received snapshot that was
parked may be installed over a log that it does not fit.
-/

namespace Xio
namespace Raft

open Voting ReplicatedLog List Function
open Option hiding choice

variable {s : RaftServer}

/-- Terms of entries are the terms of the replicated log. -/
abbrev Replicas := ReplicatedLog.State Int LogEntry

/-- What a request carries is in the log of the leader of its term, or, of a candidate, the end of
the log that it stands with. -/
def ReqMsg.Genuine (x : Replicas) (m : ReqMsg) : Prop :=
  match m.body with
  | .appendEntries es =>
    x.ballots.lead m.term = some m.src ∧ m.lastLogIdx ≤ (x.llog m.term).length ∧
      es <+: (x.llog m.term).drop m.lastLogIdx ∧
      (m.lastLogTerm ≠ 0 → At LogEntry.term (x.llog m.term) m.lastLogIdx m.lastLogTerm)
  | .installSnapshot (some obj) =>
    x.ballots.lead m.term = some m.src ∧ obj.snapshot.On (x.llog m.term)
  | .requestVote _ =>
    m.lastLogIdx = (x.cand m.term m.src).length ∧
      m.lastLogTerm = lastTerm LogEntry.term (x.cand m.term m.src)
  | _ => True

def ReqMsg.entries (m : ReqMsg) : List LogEntry :=
  match m.body with
  | .appendEntries es => es
  | _ => []

variable {x y z : Replicas}

theorem Snapshot.On.mono {snp : Snapshot} {V V' : List LogEntry} (h : snp.On V) (hpre : V <+: V') :
    snp.On V' := At.mono h hpre

theorem ReqMsg.Genuine.mono {m : ReqMsg} (h : m.Genuine x) (hg : Grows x y)
    (hvote : m.isVoteReq = true → m.term ≤ x.ballots.term m.src) : m.Genuine y := by
  have hlead (hl : x.ballots.lead m.term = some m.src) :
      y.ballots.lead m.term = some m.src ∧ x.llog m.term <+: y.llog m.term :=
    ⟨hg.ballots.lead _ _ hl, hg.llog _ (by rw [hl]; simp)⟩
  unfold ReqMsg.Genuine at h ⊢
  unfold ReqMsg.isVoteReq at hvote
  split at h
  · next es hbody =>
    obtain ⟨hl, hlast, hes, hat⟩ := h
    obtain ⟨hl', hpre⟩ := hlead hl
    refine ⟨hl', hlast.trans hpre.length_le, hes.trans (hpre.drop _), fun hne => (hat hne).mono hpre⟩
  · obtain ⟨hl', hpre⟩ := hlead h.1
    exact ⟨hl', h.2.mono hpre⟩
  · next force hbody =>
    rw [hbody] at hvote
    rwa [hg.cand _ _ (hvote rfl)]
  · trivial

/-- The snapshot comes from the leader of a term that the server has reached. -/
def PendingInstall.Genuine (x : Replicas) (s : RaftServer) (p : PendingInstall) : Prop :=
  p.term ≤ s.state.term ∧ x.ballots.lead p.term ≠ none ∧ p.snapshot.On (x.llog p.term)

theorem PendingInstall.Genuine.mono {p : PendingInstall} {t : RaftServer}
    (h : PendingInstall.Genuine x s p) (hg : Grows x y) (hle : s.state.term ≤ t.state.term) :
    PendingInstall.Genuine y t p := by
  obtain ⟨hterm, hlead, hon⟩ := h
  exact ⟨hterm.trans hle, hg.lead_ne_none hlead, hon.mono (hg.llog _ hlead)⟩

namespace Cluster

open RaftServer

variable {req : ReqMsg} {term : Nat} {input : Input}

/-- What a server has, as a member of the replicated log. -/
structure Replica (x : Replicas) (i : Int) (s : RaftServer) : Prop where
  holds : Holds (x.log i) s.logView
  precommit : s.role = .leader → s.precommitIndex ≤ (x.log i).length
  syncing : s.role = .leader → ∀ p ∈ s.logView.peers, ∀ snp, p.snapshot = some snp →
    snp.On (x.log i)
  acked : s.role = .leader → (x.log i).length ≤ x.ack s.state.term i
  applying : ∀ p ∈ s.applyingSnapshots, PendingInstall.Genuine x s p

/-- A response that accepts entries is covered by an acknowledgement. -/
def AckedResp (x : Replicas) (m : RespMsg) : Prop :=
  m.type = .appendEntries → m.accepted = true → m.nextIdx - 1 ≤ x.ack m.term m.src

structure Replicates (c : Cluster) (x : Replicas) : Prop where
  srv : ∀ i ∈ c.members, Replica x i (c.srv i)
  reqs : ∀ m ∈ c.reqs, m.Genuine x
  resps : ∀ m ∈ c.resps, AckedResp x m

theorem Replica.of_not_leader {i : Int} (hrole : s.role ≠ .leader)
    (hholds : Holds (x.log i) s.logView)
    (happ : ∀ p ∈ s.applyingSnapshots, PendingInstall.Genuine x s p) : Replica x i s where
  holds := hholds
  precommit hl := absurd hl hrole
  syncing hl := absurd hl hrole
  acked hl := absurd hl hrole
  applying := happ

theorem Replica.mono {i : Int} (h : Replica x i s) (hg : Grows x y)
    (hlog : y.log i = x.log i) : Replica y i s := by
  refine ⟨?_, ?_, ?_, ?_, fun p hp => (h.applying p hp).mono hg le_rfl⟩
  all_goals rw [hlog]
  · exact h.holds
  · exact h.precommit
  · exact h.syncing
  · intro hl
    exact (h.acked hl).trans (hg.ack _ _)

theorem AckedResp.mono {m : RespMsg} (h : AckedResp x m) (hg : Grows x y) : AckedResp y m :=
  fun htype hacc => (h htype hacc).trans (hg.ack _ _)

variable {v : VotingConfig} {ps : Int → RaftParams} {c c' : Cluster} {i : Int} {t : RaftServer}
  {o : Output} {reqs : List ReqMsg} {resps : List RespMsg}

theorem Replicates.update (h : Replicates c x) (hg : Grows x y)
    (hvotes : ∀ m ∈ c.reqs, m.isVoteReq = true → m.term ≤ x.ballots.term m.src)
    (htook : reqs.Sublist c.reqs ∧ resps.Sublist c.resps)
    (hother : ∀ j, j ≠ i → y.log j = x.log j) (hsrv : Replica y i t)
    (hsent : ∀ m ∈ o.sent, m.Genuine y) (hresp : ∀ m, o.resp = some m → AckedResp y m) :
    Replicates (Cluster.update { c with reqs := reqs, resps := resps } i t o) y := by
  refine ⟨?_, ?_, ?_⟩
  · intro j hj
    by_cases hji : j = i
    · subst hji
      rwa [update_srv_self]
    · rw [update_srv_of_ne _ _ _ hji]
      exact (h.srv j hj).mono hg (hother j hji)
  · intro m hm
    rcases mem_append.mp hm with hnew | hold
    · exact hsent m hnew
    · have hmem := htook.1.subset hold
      exact (h.reqs m hmem).mono hg (hvotes m hmem)
  · intro m hm
    rcases mem_append.mp hm with hnew | hold
    · exact hresp m (by simpa using hnew)
    · exact (h.resps m (htook.2.subset hold)).mono hg

/-! ## Votes -/

section Vote

variable {fresh : Prop}

theorem votes_of_same (h : Elections c x.ballots) (hi : i ∈ c.members)
    (hterm : t.state.term = (c.srv i).state.term) (hchoice : t.choice = (c.srv i).choice) :
    Votes LogEntry.term fresh x i t.state.term t.choice := by
  intro w hw hnone
  rw [hterm, h.vote i hi, ← hchoice, hw] at hnone
  cases hnone

theorem votes_of_heard (h : Elections c x.ballots) (hi : i ∈ c.members)
    (hs : Heard (c.srv i) t term) : Votes LogEntry.term fresh x i t.state.term t.choice := by
  rcases hs with hs | hs
  · exact votes_of_same h hi hs.term (choice_congr hs.vote)
  · intro w hw
    rw [choice, if_pos hs.vote] at hw
    cases hw

/-- With nothing compacted, a voter compares its own log with the candidate's. -/
theorem upToDate_of_voteLogOkay {V C : List LogEntry}
    (h : Holds V s.logView) (hstart : s.log.startIndex = 1) (hokay : s.voteLogOkay req = true)
    (hidx : req.lastLogIdx = C.length) (hterm : req.lastLogTerm = lastTerm LogEntry.term C) :
    UpToDate LogEntry.term C V := by
  have hnext : s.log.nextSlot = V.length + 1 := h.nextSlot
  have hlast : s.log.lastEntryTerm = lastTerm LogEntry.term V := by
    rw [LogStore.lastEntryTerm, LogStore.lastEntry, hnext, Nat.add_sub_cancel]
    rcases eq_nil_or_concat' V with rfl | ⟨p, e, rfl⟩
    · have hnone : s.log.entryAt 0 = none := by
        rw [LogStore.entryAt, hstart, if_pos Nat.one_pos]
      rw [length_nil, hnone]
      rfl
    · have hentry := h.entryAt_of_le (i := (p ++ [e]).length) (by
        show s.log.startIndex ≤ _
        rw [hstart]
        simp)
      have hsome : s.log.entryAt (p ++ [e]).length = some e := hentry.trans (by simp)
      rw [hsome]
      simp [lastTerm]
  simp only [voteLogOkay, Bool.or_eq_true, Bool.and_eq_true, decide_eq_true_eq, beq_iff_eq] at hokay
  rw [hlast, hterm, hidx, hnext] at hokay
  rcases hokay with hlt | ⟨heq, hle⟩
  · exact .inl hlt
  · exact .inr ⟨heq, by omega⟩

/-- A new vote is the server's own, or it goes to a candidate that has reached the term. -/
theorem newVote (h : Elections c x.ballots) (hf : Fixed v ps c) (hr : Replicates c x)
    (hi : i ∈ c.members) {env : Env} (htook : c.Took i input reqs resps)
    (hstep : (c.srv i).step env input = some (t, o))
    (hfresh : fresh → (c.srv i).log.startIndex = 1) :
    Votes LogEntry.term fresh x i t.state.term t.choice := by
  cases step_ballotStep hstep with
  | settled hs _ =>
    have hheard : Heard (c.srv i) t 0 := .inl hs
    exact votes_of_heard h hi hheard
  | raised term _ hs _ => exact votes_of_heard h hi (.inr hs)
  | answered req force hin hbody ht _ =>
    subst hin
    cases htook with
    | inner hallowed => cases hallowed
    | client bufs => cases hbody
    | request hk _ =>
      have hmem := mem_of_getElem? hk
      obtain ⟨hsrc, _, hle⟩ := h.reqs req hmem (ReqMsg.isVoteReq_of_body hbody)
      have hgenuine := hr.reqs req hmem
      rw [ReqMsg.Genuine, hbody] at hgenuine
      have hheard := updateTermOnReq_heard (c.srv i) req
      rcases handleVoteReq_cases ((c.srv i).updateTermOnReq req) req force with
        ⟨heq, _⟩ | ⟨hgrants, heq⟩
      · rw [ht, heq]
        exact votes_of_heard h hi hheard
      · -- the vote goes to the sender of the request
        have hterm : t.state.term = req.term := by
          rw [ht, heq]
          exact (term_of_grantsVote hgrants).symm
        intro w hw _
        have hwsrc : w = req.src := by
          rw [ht, heq] at hw
          exact (votedFor_of_choice hw).symm
        refine .inr ⟨?_, fun hf' => ?_⟩
        · rwa [hwsrc, h.term _ hsrc, hterm]
        · have hokay : ((c.srv i).updateTermOnReq req).voteLogOkay req = true := by
            simp only [grantsVote, Bool.and_eq_true] at hgrants
            exact hgrants.1.1.2
          have hokay' : (c.srv i).voteLogOkay req = true := by
            unfold voteLogOkay at hokay ⊢
            simpa using hokay
          rw [hwsrc, hterm]
          exact upToDate_of_voteLogOkay (hr.srv i hi).holds (hfresh hf') hokay' hgenuine.1
            hgenuine.2
  | stood _ hs _ =>
    intro w hw _
    refine .inl ⟨?_, ?_⟩
    · rw [← votedFor_of_choice hw, hs.vote, (hf.srv i hi).id]
    · rw [h.term i hi, hs.term]
      omega
  | counted resp _ _ hs _ => exact votes_of_same h hi hs.term (choice_congr hs.vote)
  | joined req conf hin hbody _ _ =>
    subst hin
    have hfixed : req.Of v.config.servers ∨ ∃ bufs, req.body = .clientRequest bufs :=
      hf.input htook
    simp [ReqMsg.Of, hbody] at hfixed
  | restarted applied _ hs _ =>
    obtain ⟨hterm, hvote⟩ := h.synced i hi
    exact votes_of_same h hi (by rw [hs.state, hterm]) (choice_congr (by rw [hs.state, hvote]))

end Vote

/-! ## One server's step -/

/-- The request contradicts no entry that a snapshot of the server covers. -/
def Spares (s : RaftServer) (req : ReqMsg) (es : List LogEntry) : Prop :=
  ∀ j < es.length, req.lastLogIdx + 1 + j ≤ s.logView.coveredIdx →
    es[j]?.map LogEntry.term = some (s.log.termAt (req.lastLogIdx + 1 + j))

/-- The parked snapshot is a part of the server's log, or it comes from the leader of the current
term and covers all of the log. -/
def CoherentInstall (s : RaftServer) (p : PendingInstall) : Prop :=
  s.termForLog p.snapshot.lastLogIdx = p.snapshot.lastLogTerm ∧
      s.logView.snapshotIdx ≤ p.snapshot.lastLogIdx ∨
    p.term = s.state.term ∧ s.log.nextSlot ≤ p.snapshot.lastLogIdx + 1

instance (s : RaftServer) (req : ReqMsg) (es : List LogEntry) : Decidable (Spares s req es) :=
  inferInstanceAs (Decidable (∀ j < es.length, _ → _))

instance (s : RaftServer) (p : PendingInstall) : Decidable (CoherentInstall s p) :=
  inferInstanceAs (Decidable (_ ∨ _))

def CoherentInput (s : RaftServer) : Input → Prop
  | .request req => s.state.term ≤ req.term → Spares s req req.entries
  | .finishSnapshot p => CoherentInstall s p
  | _ => True

instance (s : RaftServer) (input : Input) : Decidable (CoherentInput s input) := by
  rcases input with ⟨⟩ <;> (dsimp only [CoherentInput]; infer_instance)

section Step

variable {s : RaftServer} {input : Input} {fresh : Prop} {M : Finset Int}

/-- Once the votes are counted, the replicated log goes from `z` to `y` while server `i` goes from
state `s` to state `t`. -/
structure Copied (fresh : Prop) (M : Finset Int) (z y : Replicas) (i : Int) (s t : RaftServer)
    (o : Output) : Prop where
  execution : Relation.ReflTransGen (ReplicatedLog.Step LogEntry.term fresh M) z y
  ballots : y.ballots = z.ballots
  other : ∀ j, j ≠ i → y.log j = z.log j
  log : z.log i <+: y.log i ∨ z.ballots.lead t.state.term ≠ none ∧
    ∃ n, y.log i = follow (z.llog t.state.term) n (z.log i)
  srv : Replica y i t
  sent : ∀ m ∈ o.sent, m.Genuine y
  resp : ∀ m, o.resp = some m → AckedResp y m
  installs : ∀ m, o.resp = some m → m.type = .installSnapshot → m.confirms = true →
    ∃ p ∈ s.applyingSnapshots, m = s.installedResp p ∧
      (p.snapshot.lastLogIdx ≤ y.ack p.term i ∨ p.term < t.state.term)

theorem AckedResp.of_silent {m : RespMsg} (h : m.confirms = false) : AckedResp y m := by
  intro htype hacc
  rw [RespMsg.confirms, hacc, htype] at h
  cases h

theorem Replica.keep (h : Replica z i s) (hterm : s.state.term ≤ t.state.term) (hkeep : Keeps s t)
    (hholds : Holds (z.log i) t.logView) (hpre : t.precommitIndex = s.precommitIndex)
    (hpeers : ∀ p ∈ t.logView.peers, ∀ snp, p.snapshot = some snp →
      ∃ q ∈ s.logView.peers, q.snapshot = some snp)
    (happ : t.applyingSnapshots = s.applyingSnapshots) : Replica z i t := by
  refine ⟨hholds, ?_, ?_, ?_, ?_⟩
  · intro hl
    rw [hpre]
    exact h.precommit (hkeep hl).1
  · intro hl p hp snp hsnp
    obtain ⟨q, hq, hsnp'⟩ := hpeers p hp snp hsnp
    exact h.syncing (hkeep hl).1 q hq snp hsnp'
  · intro hl
    rw [(hkeep hl).2]
    exact h.acked (hkeep hl).1
  · intro p hp
    exact (h.applying p (happ ▸ hp)).mono (.refl z) hterm

theorem exists_of_mem_updatePeer {w : LogView} {id : Int} {f : Progress → Progress} {p : Progress}
    (hf : ∀ q, (f q).snapshot = q.snapshot ∨ (f q).snapshot = none)
    (hp : p ∈ (w.updatePeer id f).peers) {snp : Snapshot} (hsnp : p.snapshot = some snp) :
    ∃ q ∈ w.peers, q.snapshot = some snp := by
  obtain ⟨q, hq, rfl⟩ := mem_map.mp hp
  refine ⟨q, hq, ?_⟩
  split at hsnp
  · rcases hf q with hsame | hnone
    · rwa [← hsame]
    · cases hnone ▸ hsnp
  · exact hsnp

theorem Copied.stay (hsrv : Replica z i t) (hsent : ∀ m ∈ o.sent, m.Genuine z)
    (hresp : ∀ m, o.resp = some m → m.confirms = false) : Copied fresh M z z i s t o :=
  ⟨.refl, rfl, fun _ _ => rfl, Or.inl prefix_rfl, hsrv, hsent, fun m hm => .of_silent (hresp m hm),
    fun m hm _ hc => absurd hc (by simp [hresp m hm])⟩

theorem llog_of_lead (hz : Sane LogEntry.term M z) (hterm : z.ballots.term i = term)
    (hlead : z.ballots.lead term = some i) : z.llog term = z.log i := by
  subst hterm
  exact (hz.leader i hlead).symm

theorem BuiltReq.genuine (h : Replica z i s) (hz : Sane LogEntry.term M z)
    (hterm : z.ballots.term i = s.state.term) (hlead : z.ballots.lead s.state.term = some i)
    (hrole : s.role = .leader) (hid : s.id = i) {p p' : Peer} (hp : p ∈ s.peers)
    (hb : s.BuiltReq p p' req) : req.Genuine z := by
  have hlog := llog_of_lead hz hterm hlead
  cases hb with
  | entries last es hlast hstart hes hctx hreq =>
    subst hreq
    rw [ReqMsg.Genuine, hlog, hid]
    refine ⟨hlead, hlast.trans (h.precommit hrole), ?_, h.holds.at_of_termForLog⟩
    have hentries : s.log.entries = (z.log i).drop (s.log.startIndex - 1) := h.holds.entries
    have hpos := s.log.start_pos
    rw [hentries, drop_drop, show s.log.startIndex - 1 + (last + 1 - s.log.startIndex) = last
      by omega] at hes
    exact hes
  | snapshot ctx last hctx hctx' hreq =>
    subst hreq
    rw [ReqMsg.Genuine, hlog, hid]
    refine ⟨hlead, ?_⟩
    rcases hctx with hctx | ⟨hsnp, _⟩
    · refine h.syncing hrole p.progress (mem_map_of_mem hp) ctx.snapshot ?_
      rw [Peer.progress, hctx]
      rfl
    · exact h.holds.last ctx.snapshot hsnp
  | outOfRange note hctx hbody _ =>
    rw [ReqMsg.Genuine, hbody]
    trivial

theorem copied_sent (h : Replica z i s) (hz : Sane LogEntry.term M z)
    (hterm : z.ballots.term i = t.state.term)
    (hlead : t.role = .leader → z.ballots.lead t.state.term = some i) (hid : s.id = i) {dst : Int}
    {p p' : Peer} (hkeep : s.role = .leader ∧ t.role = .leader ∧ t.state.term = s.state.term)
    (hp : p ∈ s.peers) (hb : s.BuiltReq p p' req)
    (hview : t.logView = s.logView.updatePeer dst (fun _ => p'.progress)) :
    Replica z i t ∧ req.Genuine z := by
  have hlead' := hlead hkeep.2.1
  rw [hkeep.2.2] at hterm hlead'
  refine ⟨⟨?_, ?_, ?_, ?_, ?_⟩, BuiltReq.genuine h hz hterm hlead' hkeep.1 hid hp hb⟩
  · rw [hview]
    exact h.holds.congr rfl rfl rfl rfl
  · intro _
    have hpre : t.precommitIndex = s.precommitIndex := congrArg LogView.precommitIndex hview
    rw [hpre]
    exact h.precommit hkeep.1
  · intro _ q hq snp hsnp
    rw [hview] at hq
    obtain ⟨q', hq', rfl⟩ := mem_map.mp hq
    split at hsnp
    · -- the transfer that the request belongs to
      have hold (hctx : p'.snpSyncCtx = p.snpSyncCtx) : snp.On (z.log i) := by
        refine h.syncing hkeep.1 p.progress (mem_map_of_mem hp) snp ?_
        unfold Peer.progress at hsnp ⊢
        rwa [← hctx]
      cases hb with
      | entries _ _ _ _ _ hctx _ => exact hold hctx
      | outOfRange _ hctx _ _ => exact hold hctx
      | snapshot ctx _ hctx hctx' _ =>
        rw [Peer.progress, hctx'] at hsnp
        cases hsnp
        rcases hctx with hctx | ⟨hlast, _⟩
        · refine hold (hctx'.trans hctx.symm)
        · exact h.holds.last _ hlast
    · exact h.syncing hkeep.1 q' hq' snp hsnp
  · intro _
    rw [hkeep.2.2]
    exact h.acked hkeep.1
  · intro q hq
    have happ : t.applyingSnapshots = s.applyingSnapshots :=
      congrArg LogView.applyingSnapshots hview
    exact (h.applying q (happ ▸ hq)).mono (.refl z) hkeep.2.2.ge

theorem copied_append (h : Replica z i s) (hz : Sane LogEntry.term M z)
    (hterm : z.ballots.term i = t.state.term) (hlead : z.ballots.lead t.state.term = some i)
    (hle : s.state.term ≤ t.state.term) {es : List LogEntry}
    (hes : ∀ e ∈ es, e.term = t.state.term)
    (hack : es = [] → (z.log i).length ≤ z.ack t.state.term i) {w : LogView} (hview : t.logView = w)
    (hholds : Holds (z.log i ++ es) w) (hpre : w.precommitIndex ≤ (z.log i).length + es.length)
    (hpeers : ∀ p ∈ w.peers, ∀ snp, p.snapshot = some snp → snp.On (z.log i))
    (happ : w.applyingSnapshots = s.applyingSnapshots) (hsent : ∀ m ∈ o.sent, m.Genuine z)
    (hvotes : ∀ m ∈ o.sent, m.isVoteReq = true → m.term ≤ z.ballots.term m.src)
    (hresp : ∀ m, o.resp = some m → m.confirms = false) :
    Copied fresh M z (z.appends i es) i s t o := by
  subst hview
  rw [← hterm] at hlead hack hes
  have happends : Relation.ReflTransGen (ReplicatedLog.Step LogEntry.term fresh M) z
      (z.appends i es) ∧ _ := appends_execution hz hlead hes hack
  obtain ⟨hexec, hballots, hnew, hother, hacked⟩ := happends
  have hg := (execution_sane hz hexec).2
  refine ⟨hexec, hballots, hother, .inl ?_, ⟨?_, ?_, ?_, ?_, ?_⟩, ?_,
    fun m hm => .of_silent (hresp m hm),
    fun m hm _ hc => absurd hc (by simp [hresp m hm])⟩
  · rw [hnew]
    exact prefix_append _ _
  · rwa [hnew]
  · intro _
    rwa [hnew, length_append]
  · intro _ p hp snp hsnp
    rw [hnew]
    exact (hpeers p hp snp hsnp).mono (prefix_append _ _)
  · intro _
    rwa [hnew, length_append, ← hterm]
  · intro p hp
    exact (h.applying p (happ ▸ hp)).mono hg hle
  · intro m hm
    exact (hsent m hm).mono hg (hvotes m hm)

/-- Positions with one term are one position: both logs are copies of that term's log. -/
theorem take_eq_of_lead (hz : Sane LogEntry.term M z)
    (hlead : z.ballots.lead term ≠ none) {k u : Nat} (h : At LogEntry.term (z.log i) k u)
    (h' : At LogEntry.term (z.llog term) k u) : (z.log i).take k = (z.llog term).take k :=
  (hz.log i).take_eq_of_at (hz.llog term hlead) h h'

theorem llog_pos (hz : Sane LogEntry.term M z) (hlead : z.ballots.lead term ≠ none) :
    ∀ e ∈ z.llog term, 0 < e.term := by
  intro e he
  obtain ⟨k, hk⟩ := mem_iff_getElem?.mp he
  have hat : At LogEntry.term (z.llog term) (k + 1) e.term := ⟨e, Nat.succ_pos k, hk, rfl⟩
  obtain ⟨w, hw⟩ := ne_none_iff_exists'.mp ((hz.llog term hlead).lead_of_at hat)
  exact hz.sound.lead_pos hw

/-- The position that a request builds on is in the server's log, at the same place as in the
leader's. -/
theorem take_eq_of_appendLogOkay (h : Replica z i s) (hz : Sane LogEntry.term M z)
    (hlead : z.ballots.lead req.term ≠ none) (hat : req.lastLogTerm ≠ 0 →
      At LogEntry.term (z.llog req.term) req.lastLogIdx req.lastLogTerm)
    (hokay : s.appendLogOkay req = true) : req.lastLogIdx ≤ (z.log i).length ∧
      (z.log i).take req.lastLogIdx = (z.llog req.term).take req.lastLogIdx := by
  have hpos (hown : At LogEntry.term (z.log i) req.lastLogIdx req.lastLogTerm) :
      req.lastLogTerm ≠ 0 := by
    obtain ⟨w, hw⟩ := ne_none_iff_exists'.mp ((hz.log i).lead_of_at hown)
    exact (hz.sound.lead_pos hw).ne'
  have hown (hown : At LogEntry.term (z.log i) req.lastLogIdx req.lastLogTerm) :
      req.lastLogIdx ≤ (z.log i).length ∧
        (z.log i).take req.lastLogIdx = (z.llog req.term).take req.lastLogIdx :=
    ⟨hown.le_length, take_eq_of_lead hz hlead hown (hat (hpos hown))⟩
  rw [appendLogOkay, Bool.or_eq_true, Bool.or_eq_true] at hokay
  rcases hokay with (hzero | hterm) | hsnp
  · have hidx : req.lastLogIdx = 0 := by simpa using hzero
    rw [hidx]
    exact ⟨Nat.zero_le _, rfl⟩
  · rw [Bool.and_eq_true, bne_iff_ne, beq_iff_eq] at hterm
    obtain ⟨hne, heq⟩ := hterm
    split at hne
    · rename_i hlt
      rw [if_pos hlt] at heq
      refine hown ?_
      rw [heq]
      exact h.holds.at_of_termForLog hne
    · exact absurd rfl hne
  · -- the check against the last snapshot
    cases hlast : s.lastSnapshot with
    | none =>
      cases hlast ▸ hsnp
    | some snp =>
      rw [hlast, any_some, Bool.and_eq_true, beq_iff_eq, beq_iff_eq] at hsnp
      refine hown ?_
      rw [← hsnp.1, ← hsnp.2]
      exact h.holds.last snp hlast

theorem copied_accept (h : Replica z i s) (hz : Sane LogEntry.term M z)
    (hterm : z.ballots.term i = t.state.term) (hid : s.id = i)
    {es : List LogEntry} (hbody : req.body = .appendEntries es) (hgen : req.Genuine z)
    (hspare : Spares s req es) (hle : s.state.term ≤ req.term) (hreq : t.state.term = req.term)
    (hrole : t.role ≠ .leader) (hokay : s.appendLogOkay req = true)
    (hholds : ∀ V, Holds V (s.writeEntries (req.lastLogIdx + 1) es).logView → Holds V t.logView)
    (happ : t.applyingSnapshots = s.applyingSnapshots) (hsent : o.sent = [])
    (hresp : ∀ m, o.resp = some m → m = s.acceptedResp req es) :
    Copied fresh M z (z.accept i (req.lastLogIdx + es.length)) i s t o := by
  rw [ReqMsg.Genuine, hbody] at hgen
  obtain ⟨hl, hbound, hes, hat⟩ := hgen
  have hlead : z.ballots.lead req.term ≠ none := by
    rw [hl]
    simp
  rw [hreq] at hterm
  have hn : req.lastLogIdx + es.length ≤ (z.llog req.term).length := by
    have := hes.length_le
    rw [length_drop] at this
    omega
  have hstep : ReplicatedLog.Step LogEntry.term fresh M z
      (z.accept i (req.lastLogIdx + es.length)) :=
    .accept z i _ (by rw [hterm]; exact hlead) (by rw [hterm]; exact hn)
  have hg := hstep.grows hz
  have hnew : (z.accept i (req.lastLogIdx + es.length)).log i =
      follow (z.llog req.term) (req.lastLogIdx + es.length) (z.log i) := by
    rw [← hterm]
    exact update_self ..
  have hacked : req.lastLogIdx + es.length ≤
      (z.accept i (req.lastLogIdx + es.length)).ack req.term i := by
    refine Nat.le_trans (Nat.le_max_right (z.ack req.term i) _) (Nat.le_of_eq ?_)
    exact (if_pos ⟨hterm.symm, rfl⟩).symm
  obtain ⟨hin', hagree⟩ := take_eq_of_appendLogOkay h hz hlead hat hokay
  refine ⟨.single hstep, rfl, fun j hj => update_of_ne hj .., .inr ?_,
    .of_not_leader hrole ?_ ?_, ?_, ?_,
    fun m hm htype => absurd htype (by simp [hresp m hm, acceptedResp])⟩
  · rw [hreq]
    exact ⟨hlead, _, hnew⟩
  · rw [hnew]
    refine hholds _ (h.holds.write hin' hagree hes (llog_pos hz hlead)
      (fun k u hk hk' => take_eq_of_lead hz hlead hk hk') ?_)
    intro j e he hcov
    have := hspare j (List.getElem?_eq_some_iff.mp he).1 hcov
    rw [he] at this
    exact (some.inj this).symm
  · intro p hp
    exact (h.applying p (happ ▸ hp)).mono hg (hle.trans hreq.ge)
  · rw [hsent]
    intro m hm
    cases hm
  · intro m hm _ _
    rw [hresp m hm]
    show req.lastLogIdx + es.length + 1 - 1 ≤ _
    rw [acceptedResp, hid]
    exact hacked

/-- Accepting a prefix that is in the log leaves it alone, and a prefix that is longer than the log
replaces it. -/
theorem follow_of_take {L V : List LogEntry} {n : Nat} (h : V.take n = L.take n) :
    follow L n V = V := by
  rw [follow, if_pos]
  rw [← h]
  exact take_prefix _ _

theorem follow_of_length {L V : List LogEntry} {n : Nat} (hn : n ≤ L.length) (h : V.length ≤ n) :
    follow L n V = L.take n := by
  unfold follow
  split
  · rename_i hpre
    refine (hpre.eq_of_length_le ?_).symm
    rw [length_take]
    omega
  · rfl

theorem copied_install (h : Replica z i s) (hz : Sane LogEntry.term M z)
    (hterm : z.ballots.term i = t.state.term) (hsame : t.state.term = s.state.term)
    {pending : PendingInstall} {conf : ClusterConfig}
    (hmem : pending ∈ s.applyingSnapshots) (hfit : CoherentInstall s pending)
    (hrole : t.role ≠ .leader) (hview : t.logView = s.logView.install pending conf)
    (hsent : o.sent = []) (hresp : ∀ m, o.resp = some m → m = s.installedResp pending) :
    ∃ y, Copied fresh M z y i s t o := by
  obtain ⟨hle, hlead, hon⟩ := h.applying pending hmem
  have hpos : pending.snapshot.lastLogTerm ≠ 0 := by
    obtain ⟨w, hw⟩ := ne_none_iff_exists'.mp ((hz.llog _ hlead).lead_of_at hon)
    exact (hz.sound.lead_pos hw).ne'
  -- a snapshot that the server knows is at the same place in its log
  have hown (hknown : s.termForLog pending.snapshot.lastLogIdx = pending.snapshot.lastLogTerm) :
      pending.snapshot.On (z.log i) := by
    have hat := h.holds.at_of_termForLog (by rw [hknown]; exact hpos)
    rwa [hknown] at hat
  have happly (y : Replicas) (hg : Grows z y) (hholds : Holds (y.log i) t.logView) :
      Replica y i t := by
    refine .of_not_leader hrole hholds ?_
    intro p hp
    have happ : t.applyingSnapshots = s.applyingSnapshots.erase pending :=
      congrArg LogView.applyingSnapshots hview
    rw [happ] at hp
    exact (h.applying p (mem_of_mem_erase hp)).mono hg hsame.ge
  have hsilent (y : Replicas) (m : RespMsg) (hm : o.resp = some m) : AckedResp y m := by
    intro htype
    rw [hresp m hm] at htype
    cases htype
  have hnone (y : Replicas) (m : ReqMsg) (hm : m ∈ o.sent) : m.Genuine y := by
    cases hsent ▸ hm
  rcases Nat.lt_or_eq_of_le hle with hlt | heq
  · -- the server has left the term of the snapshot
    rcases hfit with ⟨hknown, hidx⟩ | ⟨heq, _⟩
    · refine ⟨z, .refl, rfl, fun _ _ => rfl, .inl prefix_rfl, ?_, hnone z, hsilent z, ?_⟩
      · refine happly z (Grows.refl z) ?_
        rw [hview]
        exact h.holds.installKnown (hown hknown) hidx
      · intro m hm _ _
        exact ⟨pending, hmem, hresp m hm, .inr (hlt.trans_eq hsame.symm)⟩
    · omega
  · rw [hsame, ← heq] at hterm
    have hstep : ReplicatedLog.Step LogEntry.term fresh M z
        (z.accept i pending.snapshot.lastLogIdx) :=
      .accept z i _ (by rw [hterm]; exact hlead) (by rw [hterm]; exact hon.le_length)
    have hnew : (z.accept i pending.snapshot.lastLogIdx).log i =
        follow (z.llog pending.term) pending.snapshot.lastLogIdx (z.log i) := by
      rw [← hterm]
      exact update_self ..
    refine ⟨_, .single hstep, rfl, fun j hj => update_of_ne hj .., .inr ?_, ?_, hnone _,
      hsilent _, ?_⟩
    · rw [hsame, ← heq]
      exact ⟨hlead, _, hnew⟩
    · refine happly _ (hstep.grows hz) ?_
      rw [hnew, hview]
      rcases hfit with ⟨hknown, hidx⟩ | ⟨_, hlen⟩
      · rw [follow_of_take (take_eq_of_lead hz hlead (hown hknown) hon)]
        exact h.holds.installKnown (hown hknown) hidx
      · have hnext : s.log.nextSlot = (z.log i).length + 1 := h.holds.nextSlot
        have hshort : (z.log i).length ≤ pending.snapshot.lastLogIdx := by omega
        rw [follow_of_length hon.le_length hshort]
        exact h.holds.installAhead hon hshort
    · intro m hm _ _
      refine ⟨pending, hmem, hresp m hm, .inl (Nat.le_trans
        (Nat.le_max_right (z.ack pending.term i) _) (Nat.le_of_eq ?_))⟩
      exact (if_pos ⟨hterm.symm, rfl⟩).symm

/-- A leader stores what its clients send, and has neither sent nor answered anything yet. -/
theorem copied_client (h : Replica z i s) (hz : Sane LogEntry.term M z)
    (hterm : z.ballots.term i = t.state.term) (hlead : z.ballots.lead t.state.term = some i)
    (hle : s.state.term ≤ t.state.term) {es : List LogEntry} {k : Nat}
    (hkeep : s.role = .leader ∧ t.role = .leader ∧ t.state.term = s.state.term)
    (hes : ∀ e ∈ es, e.term = s.state.term)
    (hview : t.logView = { s.logView with
      log := s.log.appendLoop es, precommitIndex := k, quickCommitIndex := t.quickCommitIndex })
    (hk : k = s.precommitIndex ∨ k < s.log.nextSlot + es.length) (hsent : o.sent = [])
    (hresp : o.resp = none) : Copied fresh M z (z.appends i es) i s t o := by
  have hnext : s.log.nextSlot = (z.log i).length + 1 := h.holds.nextSlot
  have hown := h.precommit hkeep.1
  refine copied_append h hz hterm hlead hle ?_ ?_ hview
    ((h.holds.append es).congr rfl rfl rfl rfl) ?_ (h.syncing hkeep.1) rfl ?_ ?_ ?_
  · rwa [hkeep.2.2]
  · intro _
    rw [hkeep.2.2]
    exact h.acked hkeep.1
  · show k ≤ _
    omega
  · rw [hsent]
    exact fun _ hm => nomatch hm
  · rw [hsent]
    exact fun _ hm => nomatch hm
  · rw [hresp]
    exact fun _ hm => nomatch hm

/-- Steps that change neither the transfers nor the parked snapshots. -/
theorem Replica.same (h : Replica z i s) (hle : s.state.term ≤ t.state.term) {w : LogView}
    (hkeep : Keeps s t) (hview : t.logView = w) (hholds : Holds (z.log i) w)
    (hpre : w.precommitIndex = s.precommitIndex) (hpeers : w.peers = s.logView.peers)
    (happ : w.applyingSnapshots = s.applyingSnapshots) : Replica z i t := by
  subst hview
  exact h.keep hle hkeep hholds hpre (fun p hp _ hsnp => ⟨p, hpeers ▸ hp, hsnp⟩) happ

/-- Steps that change the progress of one peer. -/
theorem Replica.peer (h : Replica z i s) (hle : s.state.term ≤ t.state.term) (hkeep : Keeps s t)
    {id : Int} {f : Progress → Progress} {k : Nat}
    (hview : t.logView = { s.logView.updatePeer id f with quickCommitIndex := k })
    (hf : ∀ q, (f q).snapshot = q.snapshot ∨ (f q).snapshot = none) : Replica z i t := by
  refine h.keep hle hkeep ?_ (congrArg LogView.precommitIndex hview) ?_
    (congrArg LogView.applyingSnapshots hview)
  · rw [hview]
    exact h.holds.congr rfl rfl rfl rfl
  · intro p hp snp hsnp
    have hp' : p ∈ (s.logView.updatePeer id f).peers := by
      rwa [hview] at hp
    exact exists_of_mem_updatePeer hf hp' hsnp

/-- A snapshot has arrived and waits to be applied. -/
theorem Replica.park (h : Replica z i s) (hle : s.state.term ≤ t.state.term) {obj : SnapshotSyncReq}
    {next : Nat} (hbody : req.body = .installSnapshot (some obj)) (hgen : req.Genuine z)
    (hterm : t.state.term = req.term) (hrole : t.role ≠ .leader)
    (hview : t.logView = { s.logView with
      applyingSnapshots := ⟨obj.snapshot, req.term, req.src, next⟩ :: s.applyingSnapshots }) :
    Replica z i t := by
  rw [ReqMsg.Genuine, hbody] at hgen
  refine .of_not_leader hrole ?_ ?_
  · rw [hview]
    exact h.holds.congr rfl rfl rfl rfl
  · intro p hp
    have happ : t.applyingSnapshots = ⟨obj.snapshot, req.term, req.src, next⟩ ::
        s.applyingSnapshots := congrArg LogView.applyingSnapshots hview
    rw [happ] at hp
    rcases mem_cons.mp hp with rfl | hold
    · exact ⟨hterm.ge, by rw [hgen.1]; simp, hgen.2⟩
    · exact (h.applying p hold).mono (.refl z) hle

/-- Every step of a server that gets coherent input is a step of the replicated log. -/
theorem LogStep.copied (hls : LogStep s t input o) (h : Replica z i s)
    (hz : Sane LogEntry.term M z) (hterm : z.ballots.term i = t.state.term)
    (hle : s.state.term ≤ t.state.term)
    (hlead : t.role = .leader → z.ballots.lead t.state.term = some i) (hid : s.id = i)
    (hco : CoherentInput s input)
    (hreq : ∀ req, input = .request req → req.copies = true → req.Genuine z)
    (hvotes : ∀ m ∈ o.sent, m.copies = false → m.Genuine z)
    (hterms : ∀ m ∈ o.sent, m.isVoteReq = true → m.term ≤ z.ballots.term m.src)
    {o' : Output} (hsent : o'.sent = o.sent) (hresp : ∀ m, o'.resp = some m → o.resp = some m)
    (hclient : ∀ req bufs, input = .request req → req.body = .clientRequest bufs →
      o'.resp = none) : ∃ y, Copied fresh M z y i s t o' := by
  have hcopy (ho : Silent o) (m : ReqMsg) (hm : m ∈ o'.sent) : m.Genuine z := by
    rw [hsent] at hm
    exact hvotes m hm (ho.sent m hm)
  have hquiet (ho : Silent o) (m : RespMsg) (hm : o'.resp = some m) : m.confirms = false :=
    ho.resp m (hresp m hm)
  have hstay (ho : Silent o) (hsrv : Replica z i t) : ∃ y, Copied fresh M z y i s t o' :=
    ⟨z, .stay hsrv (hcopy ho) (hquiet ho)⟩
  have hempty (ho : o = {}) : Silent o := by
    rw [ho]
    exact Silent.nil
  cases hls with
  | quiet hkeep hview ho => exact hstay ho (h.same hle hkeep hview h.holds rfl rfl rfl)
  | elected e hrole he hview hcommit ho =>
    refine ⟨z.appends i [e], copied_append h hz hterm (hlead hrole) hle (by simpa using he) nofun
      hview ((h.holds.append [e]).congr rfl rfl rfl rfl) h.holds.nextSlot.le ?_ rfl (hcopy ho) ?_
      (hquiet ho)⟩
    · -- a new leader has no transfer
      intro p hp snp hsnp
      obtain ⟨q, _, rfl⟩ := mem_map.mp hp
      cases hsnp
    · rwa [hsent]
  | appended es k hin hkeep hes hview hk hcommit ho =>
    obtain ⟨req, bufs, hin, hbody⟩ := hin
    exact ⟨z.appends i es, copied_client h hz hterm (hlead hkeep.2.1) hle hkeep hes hview hk
      (hsent.trans ho) (hclient req bufs hin hbody)⟩
  | sent dst p p' req hin hkeep hp hpid hb hmatch hview ho =>
    obtain ⟨hsrv, hgen⟩ := copied_sent h hz hterm hlead hid hkeep hp hb hview
    subst ho
    refine ⟨z, .stay hsrv ?_ ?_⟩
    · intro m hm
      rw [hsent] at hm
      rwa [mem_singleton.mp hm]
    · intro m hm
      cases hresp m hm
  | accepted req es hin hbody hreqterm hrole hokay hview ho =>
    subst ho
    have hfit : s.state.term ≤ req.term → Spares s req es := by
      have hentries : req.entries = es := by simp [ReqMsg.entries, hbody]
      rw [hin] at hco
      rwa [← hentries]
    have hcopies : req.copies = true := by simp [ReqMsg.copies, hbody]
    refine ⟨_, copied_accept h hz hterm hid hbody (hreq req hin hcopies) (hfit hreqterm.1) hreqterm.1
      hreqterm.2 hrole hokay (fun V hV => hview ▸ hV.congr rfl rfl rfl rfl) ?_ hsent ?_⟩
    · have hwrite : (s.writeEntries (req.lastLogIdx + 1) es).applyingSnapshots =
          s.applyingSnapshots := by
        dsimp only [writeEntries]
        split <;> rfl
      rw [← hwrite]
      exact congrArg LogView.applyingSnapshots hview
    · intro m hm
      exact (some.inj (hresp m hm)).symm
  | parked req obj next hin hbody hreqterm hrole hview ho =>
    have hgen := hreq req hin (by simp [ReqMsg.copies, hbody])
    exact hstay (hempty ho) (h.park hle hbody hgen hreqterm.2 hrole hview)
  | installed pending conf hin hmem hrole hterm' hview ho =>
    subst ho
    subst hin
    refine copied_install h hz hterm hterm' hmem hco hrole hview hsent ?_
    intro m hm
    exact (some.inj (hresp m hm)).symm
  | moved k hkeep hk hview ho =>
    have hbound : k ≤ (z.log i).length := by
      have hnext : s.log.nextSlot = (z.log i).length + 1 := h.holds.nextSlot
      have hstart : s.log.startIndex ≤ (z.log i).length + 1 := h.holds.start
      have happlied : s.smCommitIndex ≤ (z.log i).length := h.holds.applied
      omega
    exact hstay (hempty ho) (h.same hle hkeep hview (h.holds.move hbound) rfl rfl rfl)
  | creating snp hin hkeep hidx hsnp hlt hview ho =>
    exact hstay (hempty ho) (h.same hle hkeep hview (h.holds.create hidx hsnp hlt) rfl rfl rfl)
  | created snp hkeep hsnp hview ho =>
    exact hstay (hempty ho) (h.same hle hkeep hview (h.holds.adopt hsnp) rfl rfl rfl)
  | dropped hkeep hview ho =>
    exact hstay (hempty ho) (h.same hle hkeep hview h.holds.drop rfl rfl rfl)
  | matched resp hin htype hacc hresp' hkeep hview hcommit ho =>
    exact hstay ho (h.peer hle hkeep hview (fun _ => .inl rfl))
  | committed hin hrole hkeep hview hcommit ho | urged hin hrole hkeep hview hcommit ho =>
    exact hstay (hempty ho)
      (h.same hle hkeep hview (h.holds.congr rfl rfl rfl rfl) rfl rfl rfl)
  | synced resp hin htype hacc hresp' hkeep hview ho =>
    refine hstay (hempty ho) (h.peer (k := s.quickCommitIndex) hle hkeep hview ?_)
    intro q
    cases hq : q.snapshot with
    | none => exact .inl hq
    | some snp => exact .inr rfl
  | aborted dst hkeep hview ho =>
    exact hstay (hempty ho)
      (h.peer (k := s.quickCommitIndex) hle hkeep hview (fun _ => .inr rfl))
  | restarted applied happlied hrole hview ho =>
    refine hstay (hempty ho) (.of_not_leader hrole ?_ ?_)
    · rw [hview]
      exact h.holds.restart happlied
    · intro p hp
      have happ : t.applyingSnapshots = [] := congrArg LogView.applyingSnapshots hview
      cases happ ▸ hp

end Step

/-! ## One step of the cluster -/

structure Replicated (v : VotingConfig) (ps : Int → RaftParams) (c : Cluster) (x : Replicas) :
    Prop where
  voted : Voted v ps c x.ballots
  sane : Sane LogEntry.term (voters v) x
  copies : Replicates c x

theorem voteRequest_position {env : Env}
    (hstep : s.step env input = some (t, o)) {m : ReqMsg} (hm : m ∈ o.sent)
    (hvote : m.isVoteReq = true) :
    m.src = s.id ∧ m.term = t.state.term ∧ s.state.term < t.state.term ∧
      m.lastLogIdx = s.log.nextSlot - 1 ∧ m.lastLogTerm = s.termForLog (s.log.nextSlot - 1) := by
  have hno (h : NoVoteReq o.sent) : False := by
    rw [h m hm] at hvote
    cases hvote
  cases step_ballotStep hstep with
  | settled _ ho => exact (hno ho.1).elim
  | raised _ _ _ ho => exact (hno ho.1).elim
  | joined _ _ _ _ _ ho => exact (hno ho.1).elim
  | answered _ _ _ _ _ ho =>
    cases ho ▸ hm
  | counted _ _ _ _ ho =>
    cases ho ▸ hm
  | restarted _ _ _ ho =>
    cases ho ▸ hm
  | stood _ hs _ =>
    obtain ⟨hsrc, hterm, hpos⟩ := hs.mem_sent hm
    have := hs.term
    exact ⟨hsrc, hterm, by omega, hpos⟩

def Coherent (c : Cluster) (a : Action) : Prop :=
  match c.input a with
  | some (i, _, input) => CoherentInput (c.srv i) input
  | none => True

instance (c : Cluster) (a : Action) : Decidable (c.Coherent a) :=
  match h : c.input a with
  | some (i, _, input) => decidable_of_iff (CoherentInput (c.srv i) input) (by rw [Coherent, h])
  | none => isTrue (by rw [Coherent, h]; trivial)

theorem Replicated.dupReq (h : Replicated v ps c x) {m : ReqMsg} (hm : m ∈ c.reqs)
    (happ : isAppendReq m = true) : Replicated v ps { c with reqs := m :: c.reqs } x := by
  refine ⟨⟨h.voted.1.dupReq hm, h.voted.2.dupReq happ⟩, h.sane, h.copies.srv, ?_, h.copies.resps⟩
  intro m' hm'
  rcases mem_cons.mp hm' with rfl | hold
  · exact h.copies.reqs _ hm
  · exact h.copies.reqs m' hold

theorem Replicated.dupResp (h : Replicated v ps c x) {m : RespMsg} (hm : m ∈ c.resps)
    (happ : m.type = .appendEntries) : Replicated v ps { c with resps := m :: c.resps } x := by
  refine ⟨⟨⟨h.voted.1.members, h.voted.1.srv, h.voted.1.reqs⟩, h.voted.2.dupResp happ⟩, h.sane,
    h.copies.srv, h.copies.reqs, ?_⟩
  intro m' hm'
  rcases mem_cons.mp hm' with rfl | hold
  · exact h.copies.resps _ hm
  · exact h.copies.resps m' hold

section DefaultElection

variable {fresh : Prop} (helect : ∀ i, (ps i).customElectionQuorumSize = 0)
  (hadj : ∀ i, (ps i).autoAdjustQuorumForSmallCluster = false)
include helect hadj

/-- A server's step: its vote is counted, then its log follows. -/
theorem server_replicated (h : Replicated v ps c x) (hi : i ∈ c.members) {env : Env}
    {o' : Output} (htook : c.Took i input reqs resps)
    (hstep : (c.srv i).step env input = some (t, o)) (hout : c.Emits i input o o')
    (hco : CoherentInput (c.srv i) input) (hfresh : fresh → (c.srv i).log.startIndex = 1) :
    ∃ y, Relation.ReflTransGen (ReplicatedLog.Step LogEntry.term fresh (voters v)) x y ∧
      Replicated v ps (update { c with reqs := reqs, resps := resps } i t o') y ∧
      ∃ z, ReplicatedLog.Step LogEntry.term fresh (voters v) x z ∧ z.log = x.log ∧
        Copied fresh (voters v) z y i (c.srv i) t o' := by
  have hvoters : c.members.toFinset = voters v := by
    rw [h.voted.1.members]
    rfl
  have hmember := h.voted.1.srv i hi
  have hgood := goodStep h.voted.2 h.voted.1 hi (helect i) htook hstep hout.cases
  have hr := hgood.reports h.voted.2 hi
  obtain ⟨_, helections⟩ := hgood.elections h.voted.2 hi htook.reqs_subset
  -- the votes
  have hvote : ReplicatedLog.Step LogEntry.term fresh (voters v) x
      (x.vote i t.state.term t.choice (t.role == .leader)) := by
    refine .vote x i _ _ _ hr (newVote h.voted.2 h.voted.1 h.copies hi htook hstep hfresh) ?_
    intro hl
    rw [← hvoters]
    exact hgood.elected (by simpa using hl)
  generalize hz : x.vote i t.state.term t.choice (t.role == .leader) = z at hvote
  have hballots : z.ballots = observe x.ballots i t := by
    rw [← hz]
    rfl
  have hlog : z.log = x.log := by
    rw [← hz]
    rfl
  have hg := hvote.grows h.sane
  have hzterm : z.ballots.term i = t.state.term := by
    rw [hballots, helections.term i hi, update_srv_self]
  have hsent := hout.sent
  have hasked (m : ReqMsg) (hm : m ∈ c.reqs) (hv : m.isVoteReq = true) :
      m.term ≤ x.ballots.term m.src := by
    obtain ⟨hsrc, _, hle⟩ := h.voted.2.reqs m hm hv
    rwa [h.voted.2.term _ hsrc]
  have hsrv := (h.copies.srv i hi).mono hg (congrFun hlog i)
  have hlead (hl : t.role = .leader) : z.ballots.lead t.state.term = some i := by
    have hown := helections.lead i hi
    rw [update_srv_self] at hown
    rw [hballots]
    exact hown hl
  have hnew (m : ReqMsg) (hm : m ∈ o.sent) (hcopies : m.copies = false) : m.Genuine z := by
    unfold ReqMsg.Genuine
    unfold ReqMsg.copies at hcopies
    split
    · next hbody =>
      cases hbody ▸ hcopies
    · next hbody =>
      cases hbody ▸ hcopies
    · next force hbody =>
      -- a candidate enters its term with the log that it has
      obtain ⟨hsrc, hterm, hlt, hidx, hlast⟩ := voteRequest_position hstep hm
        (ReqMsg.isVoteReq_of_body hbody)
      have hcand : z.cand m.term m.src = z.log i := by
        rw [hsrc, hterm, hmember.id, hlog, ← hz]
        refine if_pos ⟨?_, rfl, rfl⟩
        rwa [h.voted.2.term i hi]
      have hnext : (c.srv i).log.nextSlot = (z.log i).length + 1 := hsrv.holds.nextSlot
      rw [hcand, hidx, hlast, hsrv.holds.termForLog_last]
      exact ⟨by omega, rfl⟩
    · trivial
  have hcopied : ∃ y, Copied fresh (voters v) z y i (c.srv i) t o' := by
    refine LogStep.copied (step_logStep (hadj i) hmember (h.voted.1.input htook) hstep) hsrv
      (hvote.sane h.sane) hzterm hgood.term hlead hmember.id hco ?_ hnew ?_ hsent ?_ ?_
    · -- requests that are on their way
      rintro req rfl hcopies
      cases htook with
      | inner hallowed => cases hallowed
      | client bufs => cases hcopies
      | request hk _ =>
        have hmem := mem_of_getElem? hk
        exact (h.copies.reqs req hmem).mono hg (hasked req hmem)
    · intro m hm hv
      rw [← hsent] at hm
      obtain ⟨hsrc, _, hle⟩ := hgood.sent m hm hv
      rwa [hsrc, hzterm]
    · intro m hm
      rcases hout.cases with rfl | rfl
      · exact hm
      · cases hm
    · -- a client's request is not in the network
      rintro req bufs rfl hbody
      rcases hout with ⟨_, hclient⟩ | ⟨rfl, _⟩
      · have hmem : req ∈ c.reqs := by
          cases htook with
          | inner hallowed => cases hallowed
          | client bufs => exact hclient bufs rfl
          | request hk _ => exact mem_of_getElem? hk
        have hof := h.voted.1.reqs req hmem
        rw [ReqMsg.Of, hbody] at hof
        exact hof.elim
      · rfl
  obtain ⟨y, hy⟩ := hcopied
  have hgy := (execution_sane (hvote.sane h.sane) hy.execution).2
  have hexec := hy.execution.head hvote
  refine ⟨y, hexec, ⟨⟨h.voted.1.update hadj hi htook hstep hout, ?_⟩,
    (execution_sane h.sane hexec).1, ?_⟩, z, hvote, hlog, hy⟩
  · rwa [hy.ballots, hballots]
  refine h.copies.update (hg.trans hgy) hasked htook.reqs_subset ?_ hy.srv hy.sent hy.resp
  intro j hj
  rw [hy.other j hj, hlog]

/-- One step of the cluster is an execution of the replicated log. -/
theorem step_replicated {a : Action} (h : Replicated v ps c x) (hco : c.Coherent a)
    (hfresh : fresh → ∀ i ∈ c.members, (c.srv i).log.startIndex = 1)
    (hstep : c.step a = some c') :
    ∃ y, Relation.ReflTransGen (ReplicatedLog.Step LogEntry.term fresh (voters v)) x y ∧
      Replicated v ps c' y := by
  cases step_moves hstep with
  | @server i env input t o o' reqs resps hin hi htook hs hout hc =>
    subst hc
    have hfit : CoherentInput (c.srv i) input := by
      rw [Coherent, hin] at hco
      exact hco
    rcases server_replicated helect hadj h hi htook hs hout hfit (fun hf => hfresh hf i hi) with
      ⟨y, hexec, hy, _⟩
    exact ⟨y, hexec, hy⟩
  | @dupReq m hm happ hc =>
    subst hc
    exact ⟨x, .refl, h.dupReq hm happ⟩
  | @dupResp m hm happ hc =>
    subst hc
    exact ⟨x, .refl, h.dupResp hm happ⟩

end DefaultElection

end Cluster

end Raft
end Xio
