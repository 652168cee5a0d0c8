import Xio.Raft.FollowerAppend
import Xio.Raft.SnapshotSupply

/-!
# Raft.CatchUp — what a leader sends to a peer, and that the peer catches up

The first part is about one request: which entries `create_append_entries_req` puts into it and
which term it names for the entry in front of them. `term_for_log` knows the terms of the log and of
one more index, that of the last snapshot. With `reserved_log_items_` the snapshot lies inside the
log, and then nobody knows the term of the last index that was compacted.

The second part repeats the exchange of request and response between a leader that appends nothing
and one peer, without losses.

- `RaftServer.appendRequest_contents`: the contents of a request
- `boundary_term_unknown`: the request right behind a compaction
- `Exchange.caught_up`: after finitely many exchanges the peer has what the leader pre-committed
-/

namespace Xio
namespace Raft

open List Option RaftServer LogStore

variable {i : Nat} {resp : RespMsg}

namespace RaftServer

variable {s : RaftServer} {env : Env} {peer p' : Peer} {custom : Nat} {req : ReqMsg}
  {es : List LogEntry}

/-- The peer after an append request was built for it. -/
def noteRequest (s : RaftServer) (peer : Peer) (last : Nat) : Peer :=
  { peer with
    nextLogIdx := if peer.nextLogIdx = 0 then s.precommitIndex + 1 else peer.nextLogIdx
    cntNotApplied := s.countResends peer last
    lastSentIdx := last + 1 }

/-! ## The leader's history -/

/-- The term at an index of a history that begins at index `1`. -/
def historyTerm (hist : List LogEntry) (i : Nat) : Nat :=
  if i = 0 then 0 else (hist[i - 1]?).elim 0 LogEntry.term

/-- The log is the rest of the history behind what was compacted, and the last snapshot reaches at
least to its start. -/
structure CoversHistory (s : RaftServer) (hist : List LogEntry) : Prop where
  entries : s.log.entries = hist.drop (s.log.startIndex - 1)
  reach : s.log.startIndex ≤ hist.length + 1
  snapshot : ∀ snp ∈ s.lastSnapshot, s.log.startIndex ≤ snp.lastLogIdx + 1 ∧
    snp.lastLogTerm = historyTerm hist snp.lastLogIdx
  uncompacted : s.lastSnapshot = none → s.log.startIndex = 1
  terms : ∀ e ∈ hist, 0 < e.term

namespace CoversHistory

variable {hist : List LogEntry}

theorem nextSlot (h : s.CoversHistory hist) : s.log.nextSlot = hist.length + 1 := by
  have hreach := h.reach
  have hpos := s.log.start_pos
  rw [LogStore.nextSlot, h.entries, length_drop]
  omega

theorem entryAt (h : s.CoversHistory hist) (hi : s.log.startIndex ≤ i) :
    s.log.entryAt i = hist[i - 1]? := by
  have hpos := s.log.start_pos
  rw [LogStore.entryAt, if_neg (by omega), h.entries, getElem?_drop]
  congr 1
  omega

theorem termForLog (h : s.CoversHistory hist) (hi : s.log.startIndex ≤ i + 1)
    (hknown : i + 1 ≠ s.log.startIndex ∨ i = 0 ∨ ∃ snp ∈ s.lastSnapshot, snp.lastLogIdx = i) :
    s.termForLog i = historyTerm hist i := by
  unfold RaftServer.termForLog historyTerm
  split
  · rfl
  next hzero =>
    split
    · next hin => rw [termAt, h.entryAt hin]
    next hout =>
      -- the index right below the log
      rcases hknown with hne | hz | ⟨snp, hsnp, hidx⟩
      · omega
      · exact absurd hz hzero
      · rw [hsnp]
        dsimp only
        rw [if_pos hidx.symm, (h.snapshot snp hsnp).2, hidx, historyTerm, if_neg hzero]

theorem historyTerm_pos (h : s.CoversHistory hist) (hi : i < s.log.nextSlot)
    (hpos : i ≠ 0) : 0 < historyTerm hist i := by
  rw [h.nextSlot] at hi
  have hlt : i - 1 < hist.length := by omega
  rw [historyTerm, if_neg hpos, getElem?_eq_getElem hlt]
  exact h.terms _ (getElem_mem hlt)

end CoversHistory

/-- The term in front of the entries of a request is known: it is in the log, nothing is in front of
them, or it is the snapshot's. -/
def KnowsTermAt (s : RaftServer) (i : Nat) : Prop :=
  i + 1 ≠ s.log.startIndex ∨ i = 0 ∨ ∃ snp ∈ s.lastSnapshot, snp.lastLogIdx = i

theorem termForLog_eq_zero (hknown : ¬ s.KnowsTermAt i) : s.termForLog i = 0 := by
  simp only [KnowsTermAt, not_or, not_not] at hknown
  obtain ⟨hbelow, hne, hsnp⟩ := hknown
  unfold termForLog
  rw [if_neg hne, if_neg (by omega)]
  cases hsome : s.lastSnapshot with
  | none => rfl
  | some snp => exact if_neg (fun hi => hsnp ⟨snp, hsome, hi.symm⟩)

/-- An append request carries a gapless piece of the leader's history within both limits. It names
the history's term in front of it exactly if that term is known, and `0` otherwise. -/
theorem appendRequest_contents {hist : List LogEntry} (h : s.CoversHistory hist)
    (hnext : peer.nextLogIdx ≤ s.log.nextSlot) (hcustom : custom < s.log.nextSlot)
    (hzero : peer.nextLogIdx = 0 → s.precommitIndex < s.log.nextSlot)
    (hreq : s.createAppendEntriesReq env peer custom = some (p', req))
    (hbody : req.body = .appendEntries es) :
    (∀ k, k < es.length → es[k]? = hist[req.lastLogIdx + k]?) ∧
    es.length ≤ s.params.maxAppendSize ∧ req.lastLogIdx + es.length ≤ s.precommitIndex ∧
    (req.lastLogTerm = historyTerm hist req.lastLogIdx ∧
      (req.lastLogTerm = 0 → req.lastLogIdx = 0) ↔ s.KnowsTermAt req.lastLogIdx) := by
  obtain ⟨hle, hstart, hidx, hterm, rfl⟩ := createAppendEntriesReq_entries hreq hbody
  have hlt : s.requestFrom peer custom < s.log.nextSlot := by
    unfold requestFrom
    split
    · exact hcustom
    split
    · next hnone => exact hzero hnone
    · omega
  rw [hidx]
  generalize s.requestFrom peer custom = last at *
  obtain ⟨hentries, hsize, hbound⟩ := s.requestEntries_spec env peer hle hstart
  refine ⟨?_, hsize, hbound, ?_, ?_⟩
  · intro k hk
    rw [hentries k hk, h.entryAt (by omega)]
    congr 1
    omega
  · rintro ⟨-, hnone⟩
    by_contra hknown
    exact hknown (.inr (.inl (hnone (hterm.trans (termForLog_eq_zero hknown)))))
  · intro hknown
    have hprev := hterm.trans (h.termForLog hstart hknown)
    refine ⟨hprev, fun hnone => ?_⟩
    by_contra hne
    have hpos := h.historyTerm_pos hlt hne
    omega

end RaftServer

/-! ## Behind a compaction -/

def threeEntries : List LogEntry := [entryOf 1 10, entryOf 1 11, entryOf 1 12]

/-- A leader that has applied three entries, and keeps one entry below a snapshot. -/
def reservingLeader : RaftServer :=
  { serverWith 1 (logFrom 1 Nat.one_pos threeEntries) 3 none with
    role := .leader
    params := { reservedLogItems := 1 } }

/-- It creates a snapshot at index three, and its log starts there afterwards. -/
def compactedLeader : RaftServer :=
  (reservingLeader.snapshotAndCompact {} true).onSnapshotCompleted true

theorem compactedLeader_covers : compactedLeader.CoversHistory threeEntries where
  entries := by decide
  reach := by decide
  snapshot := by decide
  uncompacted := by decide
  terms := by decide

/-- The peer has the first entry only. -/
def peerAtTwo : Peer := { config := { id := 2 }, nextLogIdx := 2 }

theorem reservingLeader_request : ∃ p' req es,
    reservingLeader.createAppendEntriesReq {} peerAtTwo 0 = some (p', req) ∧
      req.body = .appendEntries es ∧ es[0]? = some (entryOf 1 11) ∧ req.lastLogTerm = 1 := by
  have hcovers : reservingLeader.CoversHistory threeEntries :=
    ⟨by decide, by decide, by decide, by decide, by decide⟩
  obtain ⟨p', req, es, hreq, hbody, hlen, hidx⟩ : ∃ p' req es,
      reservingLeader.createAppendEntriesReq {} peerAtTwo 0 = some (p', req) ∧
        req.body = .appendEntries es ∧ es.length = 2 ∧ req.lastLogIdx = 1 :=
    ⟨_, _, _, rfl, rfl, by decide, by decide⟩
  have hcontents := appendRequest_contents hcovers (by decide) (by decide) (by decide) hreq hbody
  rw [hidx] at hcontents
  exact ⟨p', req, es, hreq, hbody, hcontents.1 0 (by omega),
    (hcontents.2.2.2.mpr (.inl (by decide))).1⟩

/-- The peer has two entries, and asks for the first one that the leader still has. The term in front
of it is gone: the request says `0`. -/
theorem boundary_term_unknown : compactedLeader.CoversHistory threeEntries ∧
    compactedLeader.log.startIndex = 3 ∧ compactedLeader.precommitIndex = 3 ∧
    ∃ p' req es, compactedLeader.createAppendEntriesReq {} { config := { id := 2 }, nextLogIdx := 3 }
        0 = some (p', req) ∧ req.body = .appendEntries es ∧ req.lastLogIdx = 2 ∧
      req.lastLogTerm = 0 ∧ RaftServer.historyTerm threeEntries 2 = 1 :=
  ⟨compactedLeader_covers, by decide, by decide, _, _, _, rfl, rfl, by decide, by decide, by decide⟩

/-! ## Two logs from index one on -/

namespace LogStore

variable {l f : LogStore} {last : Nat} {es : List LogEntry}

/-- The second log has the entries of the first one up to an index. -/
def SameUpTo (l f : LogStore) (k : Nat) : Prop := ∀ i, i ≤ k → f.entryAt i = l.entryAt i

theorem entryAt_zero (l : LogStore) : l.entryAt 0 = none := by
  rw [entryAt, if_pos l.start_pos]

theorem exists_entryAt (hstart : l.startIndex = 1) (hpos : 0 < i) (hi : i < l.nextSlot) :
    ∃ e, l.entryAt i = some e :=
  isSome_iff_exists.mp (entryAt_isSome_iff.mpr ⟨by omega, hi⟩)

theorem Matching.sameUpTo (h : Matching l f) (hl : l.startIndex = 1) (hf : f.startIndex = 1)
    (hi : i < l.nextSlot) (hi' : i < f.nextSlot) (hterm : f.termAt i = l.termAt i) :
    SameUpTo l f i := by
  intro j hj
  rcases Nat.eq_zero_or_pos j with rfl | hpos
  · rw [entryAt_zero, entryAt_zero]
  · obtain ⟨e, he⟩ := exists_entryAt hl (hpos.trans_le hj) hi
    obtain ⟨e', he'⟩ := exists_entryAt hf (hpos.trans_le hj) hi'
    obtain ⟨d, hd⟩ := exists_entryAt hl hpos (hj.trans_lt hi)
    obtain ⟨d', hd'⟩ := exists_entryAt hf hpos (hj.trans_lt hi')
    rw [termAt_of_entryAt he, termAt_of_entryAt he'] at hterm
    rw [hd, hd', h i e e' he he' hterm.symm j hj d d' hd hd']

theorem SameUpTo.lt_nextSlot {k : Nat} (h : SameUpTo l f k) (hl : l.startIndex = 1)
    (hk : k < l.nextSlot) : k < f.nextSlot := by
  rcases Nat.eq_zero_or_pos k with rfl | hpos
  · exact f.nextSlot_pos
  · obtain ⟨e, he⟩ := exists_entryAt hl hpos hk
    exact entryAt_lt_nextSlot ((h k (Nat.le_refl k)).trans he)

theorem matching_of_same (h : ∀ i, i < f.nextSlot → f.entryAt i = l.entryAt i) : Matching l f := by
  intro i e e' _ he' _ j hj d d' hd hd'
  have hlt := (entryAt_lt_nextSlot he')
  exact some.inj (hd.symm.trans ((h j (hj.trans_lt hlt)).symm.trans hd'))

theorem receive_same (hmatch : Matching l f) (hl : l.startIndex = 1) (hf : f.startIndex = 1)
    (hlast : last + es.length < l.nextSlot) (hsame : SameUpTo l f last)
    (hes : ∀ k, k < es.length → es[k]? = l.entryAt (last + 1 + k)) :
    (f.receive (last + 1) es).startIndex = 1 ∧
    SameUpTo l (f.receive (last + 1) es) (last + es.length) ∧
    Matching l (f.receive (last + 1) es) ∧
    ∀ i, SameUpTo l f i → SameUpTo l (f.receive (last + 1) es) i := by
  have hin := hsame.lt_nextSlot hl (Nat.lt_of_le_of_lt (Nat.le_add_right _ _) hlast)
  obtain ⟨k, hk, hskip, hheld, hstop⟩ := skipLoop_spec f (last + 1) es
  have hslot : last + 1 + k ≤ f.nextSlot := by
    cases k with
    | zero => exact hin
    | succ k =>
      have := (hheld k (Nat.lt_succ_self k)).1
      omega
  -- every skipped entry is the leader's
  have hskipped : SameUpTo l f (last + k) := by
    cases k with
    | zero => exact hsame
    | succ k =>
      obtain ⟨hlt, e, he, hterm⟩ := hheld k (Nat.lt_succ_self k)
      have hlead := hes k (by omega)
      rw [he] at hlead
      have heq : last + 1 + k = last + (k + 1) := by omega
      rw [heq] at hterm hlead hlt
      exact hmatch.sameUpTo hl hf (by omega) hlt (hterm.trans (termAt_of_entryAt hlead.symm).symm)
  rcases Nat.lt_or_ge k es.length with hlen | hlen
  case inr =>
    rw [receive_of_length_le hskip hlen]
    have heq : k = es.length := Nat.le_antisymm hk hlen
    exact ⟨hf, heq ▸ hskipped, hmatch, fun _ => id⟩
  have hstart : (f.receive (last + 1) es).startIndex = 1 := by
    rw [receive, hskip, writeFrom_startIndex (by omega)]
    exact hf
  have hbelow : ∀ i, i < last + 1 + k → (f.receive (last + 1) es).entryAt i = f.entryAt i :=
    fun i hi => receive_entryAt_of_lt (by omega) hskip hslot hi
  have habove : ∀ i, last + 1 + k ≤ i → (f.receive (last + 1) es).entryAt i = es[i - (last + 1)]? :=
    fun i hi => receive_entryAt_of_le (by omega) hskip hslot hlen hi
  have hnew : SameUpTo l (f.receive (last + 1) es) (last + es.length) := by
    intro i hi
    rcases Nat.lt_or_ge i (last + 1 + k) with hlow | hhigh
    · rw [hbelow i hlow]
      exact hskipped i (by omega)
    · rw [habove i hhigh, hes _ (by omega)]
      congr 1
      omega
  refine ⟨hstart, hnew, matching_of_same ?_, ?_⟩
  · -- the log ends with the received entries
    intro i hi
    rcases Nat.eq_zero_or_pos i with rfl | hpos
    · rw [entryAt_zero, entryAt_zero]
    · obtain ⟨e, he⟩ := exists_entryAt hstart hpos hi
      refine hnew i ?_
      by_contra hout
      rw [habove i (by omega), getElem?_eq_none (by omega)] at he
      cases he
  · intro i hi
    rcases Nat.lt_or_ge (last + es.length) i with hfar | hnear
    · -- the first entry that is overwritten is not the leader's
      obtain ⟨e, he⟩ := exists_entryAt hl (i := last + 1 + k) (by omega) (by omega)
      have hown := (hi (last + 1 + k) (by omega)).trans he
      have hgot := hes k hlen
      rw [he] at hgot
      exact absurd (termAt_of_entryAt hown) (hstop e hgot (entryAt_lt_nextSlot hown))
    · exact fun j hj => hnew j (hj.trans hnear)

end LogStore

/-! ## The member's answer -/

/-- The peer after an append response. -/
def Peer.afterAppend (resp : RespMsg) (p : Peer) : Peer :=
  if resp.accepted then p.onAppendAccepted resp else p.onAppendRejected resp

namespace RaftServer

variable {s t u : RaftServer} {env : Env} {req : ReqMsg} {es : List LogEntry}

/-- A member that takes requests of a leader of the given term. -/
structure Obeys (s : RaftServer) (term : Nat) : Prop where
  term_le : s.state.term ≤ term
  role : s.state.term = term → s.role ≠ .leader
  notReceiving : s.state.receivingSnapshot = false

/-- The same server as far as the log and the snapshots are concerned, which obeys. -/
structure Listens (s t : RaftServer) (term : Nat) : Prop where
  id : t.id = s.id
  log : t.log = s.log
  lastSnapshot : t.lastSnapshot = s.lastSnapshot
  term : t.state.term = term
  role : t.role ≠ .leader
  notReceiving : t.state.receivingSnapshot = false

theorem Obeys.updateTerm (h : Obeys s req.term) (hbody : req.body = .appendEntries es) :
    Listens s (s.updateTermOnReq req) req.term := by
  unfold updateTermOnReq
  rw [hbody]
  unfold RaftServer.updateTerm
  split
  · exact ⟨rfl, rfl, rfl, rfl, nofun, h.notReceiving⟩
  · next hle =>
    have hterm : s.state.term = req.term := Nat.le_antisymm h.term_le (Nat.le_of_not_lt hle)
    exact ⟨rfl, rfl, rfl, hterm, h.role hterm, h.notReceiving⟩

theorem Listens.followAppender (h : Listens s u req.term) :
    Listens s (u.clearCatchingUp.followAppender req) req.term := by
  have hterm : req.term = u.clearCatchingUp.state.term := h.term.symm
  rw [RaftServer.followAppender, if_pos hterm]
  split
  · exact { h with role := fun h => by cases h }
  · exact { h with }

theorem acceptEntries_receivingSnapshot (s : RaftServer) (req : ReqMsg) (es : List LogEntry) :
    (s.acceptEntries req es).state.receivingSnapshot = s.state.receivingSnapshot := by
  dsimp only [acceptEntries, writeEntries]
  split <;> split <;> (try split) <;> rfl

/-- A request that fits is stored, and one that does not is answered with the end of the log. -/
theorem Obeys.answers (h : Obeys s req.term) (env : Env) (hbody : req.body = .appendEntries es)
    (htime : env.timedOut = false) (hcallback : env.refused = false) :
    ∃ t resp, s.step env (.request req) = some (t, { resp := some resp }) ∧ Obeys t req.term ∧
      t.id = s.id ∧ t.lastSnapshot = s.lastSnapshot ∧
      resp.type = .appendEntries ∧ resp.src = s.id ∧ resp.term = req.term ∧
      if s.appendLogOkay req then resp.accepted = true ∧
        resp.nextIdx = req.lastLogIdx + es.length + 1 ∧ t.log = s.log.receive (req.lastLogIdx + 1) es
      else resp.accepted = false ∧ resp.nextIdx = s.log.nextSlot ∧ resp.hint = .none ∧ t.log = s.log := by
  have hfollow := (h.updateTerm hbody).followAppender
  have hrole := (h.updateTerm hbody).role
  unfold step processReq
  dsimp only
  rw [hbody]
  dsimp only
  unfold handleAppendEntries
  rw [if_neg (by simp [htime])]
  dsimp only
  rw [if_neg (fun hlead => hrole hlead.2)]
  generalize (s.updateTermOnReq req).clearCatchingUp.followAppender req = u at hfollow ⊢
  have hokay : u.appendLogOkay req = s.appendLogOkay req := by
    unfold appendLogOkay termForLog
    rw [hfollow.log, hfollow.lastSnapshot]
  have hrefuses : u.refusesAppend req = !s.appendLogOkay req := by
    simp [refusesAppend, hfollow.term, hfollow.notReceiving, hokay]
  rw [hrefuses]
  cases hcase : s.appendLogOkay req with
  | false =>
    refine ⟨_, _, rfl, ⟨hfollow.term.le, fun _ => hfollow.role, hfollow.notReceiving⟩, hfollow.id,
      hfollow.lastSnapshot, rfl, hfollow.id, hfollow.term, rfl, ?_, ?_, hfollow.log⟩
    · exact congrArg nextSlot hfollow.log
    · exact if_neg (by rw [hfollow.notReceiving]; decide)
  | true =>
    have hset := acceptEntries_quiet u req es
    have hview := acceptEntries_logView u req es
    have hwrite : (u.writeEntries (req.lastLogIdx + 1) es).lastSnapshot = u.lastSnapshot := by
      dsimp only [writeEntries]
      split <;> rfl
    rw [hcallback]
    refine ⟨_, _, rfl, ⟨?_, ?_, ?_⟩, hset.id.trans hfollow.id, ?_, rfl, hfollow.id, hfollow.term, rfl,
      rfl, ?_⟩
    · exact (hset.term.trans hfollow.term).le
    · exact fun _ hlead => hfollow.role (hset.role hlead)
    · exact (acceptEntries_receivingSnapshot u req es).trans hfollow.notReceiving
    · exact (congrArg LogView.lastSnapshot hview).trans (hwrite.trans hfollow.lastSnapshot)
    · refine (congrArg LogView.log hview).trans ((u.writeEntries_log _ es).trans ?_)
      rw [hfollow.log]

/-! ## The leader's side -/

theorem createAppendEntriesReq_of_held (env : Env) {peer : Peer} (hstart : s.log.startIndex = 1)
    (hsnp : peer.snapshotSyncIsNeeded = false) (hle : s.requestFrom peer 0 ≤ s.precommitIndex) :
    s.createAppendEntriesReq env peer 0 = some (s.noteRequest peer (s.requestFrom peer 0),
      { term := s.state.term
        src := s.id
        dst := peer.id
        lastLogTerm := s.termForLog (s.requestFrom peer 0)
        lastLogIdx := s.requestFrom peer 0
        commitIdx := s.quickCommitIndex
        body := .appendEntries (s.requestEntries env peer (s.requestFrom peer 0)) }) := by
  have hlast : (if peer.nextLogIdx = 0 then
      ({ peer with nextLogIdx := s.precommitIndex + 1 } : Peer) else peer).nextLogIdx - 1 =
      s.requestFrom peer 0 := by
    unfold requestFrom
    split <;> rfl
  dsimp only [createAppendEntriesReq]
  rw [if_neg (Nat.lt_irrefl 0), hlast, if_neg (by omega)]
  generalize s.requestFrom peer 0 = last at hle
  unfold noteRequest requestEntries countResends appendEndIdx
  split
  · rw [if_pos ⟨by omega, hsnp⟩]
    simp only [Nat.add_le_add_iff_right, Peer.id]
  · rw [if_pos ⟨by omega, hsnp⟩]
    simp only [Nat.add_le_add_iff_right]

theorem findPeer_id {p : Peer} {dst : Int} (h : s.findPeer dst = some p) : p.id = dst := by
  simpa using find?_some h

theorem findPeer_updatePeer {f : Peer → Peer} {p : Peer} {dst : Int}
    (hf : ∀ q, q.id = dst → (f q).id = dst) (hp : s.findPeer dst = some p) :
    (s.updatePeer dst f).findPeer dst = some (f p) := by
  have hdst := findPeer_id hp
  unfold findPeer at hp ⊢
  rw [updatePeer_peers, find?_map]
  have hsame : ((fun q : Peer => q.id == dst) ∘ fun q => if q.id = dst then f q else q) =
      fun q => q.id == dst := by
    funext q
    by_cases hq : q.id = dst
    · simp [hq, hf]
    · simp [hq]
  rw [hsame, hp, map_some, if_pos hdst]

/-- The leader after it built a request for a peer that stays. -/
def noted (s : RaftServer) (p : Peer) : RaftServer :=
  s.updatePeer p.id (fun _ => s.noteRequest p (s.requestFrom p 0))

theorem sendAppend_of_held (env : Env) {p : Peer} {dst : Int} (hlead : s.role = .leader)
    (hpeer : s.findPeer dst = some p) (hstay : s.srvToLeave = none) (hstart : s.log.startIndex = 1)
    (hsnp : p.snapshotSyncIsNeeded = false) (hle : s.requestFrom p 0 ≤ s.precommitIndex) :
    s.step env (.sendAppend dst false 0) = some (s.noted p, { sent := [
      { term := s.state.term
        src := s.id
        dst := dst
        lastLogTerm := s.termForLog (s.requestFrom p 0)
        lastLogIdx := s.requestFrom p 0
        commitIdx := s.quickCommitIndex
        body := .appendEntries (s.requestEntries env p (s.requestFrom p 0)) }] }) := by
  have hdst := findPeer_id hpeer
  dsimp only [step, requestAppendEntriesTo]
  rw [if_neg (fun hne => hne hlead), hpeer]
  dsimp only
  rw [if_neg (fun hre => Bool.false_ne_true hre.1),
    createAppendEntriesReq_of_held env hstart hsnp hle, hstay]
  subst hdst
  simp [noted]

/-- What an append response does to the leader, as far as the exchange is concerned. -/
structure Recorded (s t : RaftServer) (dst : Int) (p : Peer) : Prop where
  role : t.role = s.role
  term : t.state.term = s.state.term
  log : t.log = s.log
  precommit : t.precommitIndex = s.precommitIndex
  params : t.params = s.params
  staying : t.srvToLeave = none
  writing : t.writePaused = s.writePaused
  changing : t.configChanging = s.configChanging
  peer : t.findPeer dst = some p

theorem recordAppendResp_recorded (env : Env) {p : Peer}
    (hpeer : s.findPeer resp.src = some p) (hstay : s.srvToLeave = none) :
    Recorded s ((s.checkSrvToLeaveTimeout env).recordAppendResp env resp) resp.src
      (Peer.afterAppend resp p) := by
  have hfound : (s.checkSrvToLeaveTimeout env).findPeer resp.src = some p := by
    have hpeers : (s.checkSrvToLeaveTimeout env).peers = s.peers := by simp [hstay]
    rw [findPeer, hpeers]
    exact hpeer
  have hstays : (s.checkSrvToLeaveTimeout env).srvToLeave = none := by simp [hstay]
  unfold recordAppendResp Peer.afterAppend
  split
  · exact ⟨rfl, rfl, rfl, rfl, rfl, hstays, rfl, rfl, findPeer_updatePeer (fun _ hq => hq) hfound⟩
  · refine ⟨rfl, rfl, rfl, rfl, rfl, hstays, rfl, rfl, findPeer_updatePeer ?_ hfound⟩
    intro q hq
    unfold Peer.onAppendRejected
    split <;> exact hq

theorem handlePeerResp_append (env : Env) {p : Peer}
    (hterm : resp.term = s.state.term) (htype : resp.type = .appendEntries)
    (hpeer : s.findPeer resp.src = some p) (hstay : s.srvToLeave = none)
    (hwrite : s.writePaused = false)
    (hjoined : p.config.newJoiner = false ∨ s.configChanging = true) :
    Recorded s (s.handlePeerResp env resp).1 resp.src (Peer.afterAppend resp p) := by
  have hrecorded := recordAppendResp_recorded env hpeer hstay
  have hsame : (s.handlePeerResp env resp).1 =
      (s.checkSrvToLeaveTimeout env).recordAppendResp env resp := by
    have hconf : (Peer.afterAppend resp p).config = p.config := by
      unfold Peer.afterAppend Peer.onAppendRejected
      split
      · rfl
      · split <;> rfl
    have hold : s.updateTerm resp.term = (s, false) := if_neg (by omega)
    rw [handlePeerResp, hold, if_neg Bool.false_ne_true, htype]
    rw [handleAppendEntriesResp, if_neg (by simp [hpeer])]
    dsimp only
    rw [if_neg (by simp [leaverCaughtUp, hstay])]
    generalize (s.checkSrvToLeaveTimeout env).recordAppendResp env resp = t at hrecorded ⊢
    rw [hrecorded.peer]
    dsimp only
    rw [if_neg, if_neg]
    · simp [readyToResign, hrecorded.writing, hwrite]
    · rcases hjoined with hmember | hchanging
      · simp [readyForPromotion, hconf, hmember]
      · simp [readyForPromotion, hrecorded.changing, hchanging]
  rwa [hsame]

end RaftServer

theorem RaftServer.termForLog_of_start {s : RaftServer} (h : s.log.startIndex = 1) (i : Nat) :
    s.termForLog i = s.log.termAt i := by
  unfold termForLog
  split
  · next hzero =>
    rw [hzero, termAt, entryAt_zero]
    rfl
  · rw [if_pos (by omega)]

/-! ## Exchanges -/

/-- A leader and one of its peers. -/
structure Exchange where
  leader : RaftServer
  member : RaftServer
  deriving DecidableEq

namespace Exchange

/-- What timers and callbacks show to the three handlers of one exchange. -/
structure Turn where
  send : Env := {}
  receive : Env := {}
  answer : Env := {}
  deriving DecidableEq, Repr

/-- No batch hint, and the member answers. -/
def Turn.Undisturbed (e : Turn) : Prop :=
  e.send.batchEntries = none ∧ e.receive.timedOut = false ∧ e.receive.refused = false

instance (e : Turn) : Decidable e.Undisturbed := inferInstanceAs (Decidable (_ ∧ _))

/-- One request outside a stream, and its response. -/
def step (x : Exchange) (e : Turn) : Option Exchange := do
  let (leader, out) ← x.leader.step e.send (.sendAppend x.member.id false 0)
  let req ← out.sent.head?
  let (member, out) ← x.member.step e.receive (.request req)
  let resp ← out.resp
  let (leader, _) ← leader.step e.answer (.response resp)
  some ⟨leader, member⟩

variable {x y : Exchange} {p q : Peer} {e : Turn}

/-- A leader that appends nothing, a peer that it knows about, and the peer's own state: both logs
are uncompacted and match, and what the peer has a snapshot of, both have. -/
structure Setting (x : Exchange) (p : Peer) : Prop where
  leads : x.leader.role = .leader
  start : x.leader.log.startIndex = 1
  terms : ∀ i e, x.leader.log.entryAt i = some e → 0 < e.term
  precommit : x.leader.precommitIndex < x.leader.log.nextSlot
  batch : 0 < x.leader.params.maxAppendSize
  staying : x.leader.srvToLeave = none
  writing : x.leader.writePaused = false
  peer : x.leader.findPeer x.member.id = some p
  noSnapshot : p.snapshotSyncIsNeeded = false
  next : p.nextLogIdx ≤ x.leader.precommitIndex + 1
  joined : p.config.newJoiner = false ∨ x.leader.configChanging = true
  obeys : x.member.Obeys x.leader.state.term
  memberStart : x.member.log.startIndex = 1
  matching : LogStore.Matching x.leader.log x.member.log
  snapshot : ∀ snp ∈ x.member.lastSnapshot, snp.lastLogIdx < x.leader.log.nextSlot ∧
    LogStore.SameUpTo x.leader.log x.member.log snp.lastLogIdx

namespace Setting

theorem requestFrom_le (h : x.Setting p) : x.leader.requestFrom p 0 ≤ x.leader.precommitIndex := by
  have hnext := h.next
  rw [requestFrom, if_neg (Nat.lt_irrefl 0)]
  split <;> omega

theorem appendLogOkay_iff (h : x.Setting p) {req : ReqMsg}
    (hlast : req.lastLogIdx < x.leader.log.nextSlot)
    (hterm : req.lastLogTerm = x.leader.termForLog req.lastLogIdx) :
    x.member.appendLogOkay req = true ↔ SameUpTo x.leader.log x.member.log req.lastLogIdx := by
  rw [termForLog_of_start h.start] at hterm
  simp only [appendLogOkay, Bool.or_eq_true, beq_iff_eq, Bool.and_eq_true, bne_iff_ne,
    ne_eq, Option.any_eq_true, termForLog_of_start h.memberStart]
  constructor
  · rintro ((hzero | ⟨hknown, hsame⟩) | ⟨snp, hsnp, hidx, -⟩)
    · intro i hi
      rw [hzero, Nat.le_zero] at hi
      rw [hi, entryAt_zero, entryAt_zero]
    · have hlt : req.lastLogIdx < x.member.log.nextSlot := by
        by_contra hge
        exact hknown (if_neg hge)
      rw [if_pos hlt, hterm] at hsame
      exact h.matching.sameUpTo h.start h.memberStart hlast hlt hsame.symm
    · rw [← hidx]
      exact (h.snapshot snp hsnp).2
  · intro hsame
    rcases Nat.eq_zero_or_pos req.lastLogIdx with hzero | hpos
    · exact .inl (.inl hzero)
    · obtain ⟨e, he⟩ := exists_entryAt h.start hpos hlast
      have hown := (hsame _ le_rfl).trans he
      have hpositive := h.terms _ e he
      rw [termAt_of_entryAt he] at hterm
      rw [if_pos (entryAt_lt_nextSlot hown), termAt_of_entryAt hown, hterm]
      exact .inl (.inr ⟨by omega, rfl⟩)

theorem requestEntries_pos (h : x.Setting p) {env : Env} (henv : env.batchEntries = none) {last : Nat}
    (hlast : last < x.leader.precommitIndex) :
    0 < (x.leader.requestEntries env p last).length := by
  have hslot := h.precommit
  have hbatch := h.batch
  have hend : last + 2 ≤ x.leader.appendEndIdx p last := by
    dsimp only [appendEndIdx]
    split <;> omega
  unfold requestEntries logEntries
  rw [if_neg (by omega), henv, elim_none, length_take, length_drop]
  unfold nextSlot at hslot
  rw [h.start] at hslot ⊢
  omega

theorem after (h : x.Setting p) {l m : RaftServer}
    (hl : (x.leader.noted p).Recorded l x.member.id q) (hid : m.id = x.member.id)
    (hobeys : m.Obeys x.leader.state.term) (hstart : m.log.startIndex = 1)
    (hmatch : Matching x.leader.log m.log) (hsnp : m.lastSnapshot = x.member.lastSnapshot)
    (hkept : ∀ i, SameUpTo x.leader.log x.member.log i → SameUpTo x.leader.log m.log i)
    (hneeded : q.snapshotSyncIsNeeded = false) (hconf : q.config = p.config)
    (hnext : q.nextLogIdx ≤ x.leader.precommitIndex + 1) : Setting ⟨l, m⟩ q where
  leads := hl.role.trans h.leads
  start := (congrArg startIndex hl.log).trans h.start
  terms i e he := h.terms i e (by rw [← he]; exact congrArg (entryAt · i) hl.log.symm)
  precommit := by
    rw [hl.precommit, hl.log]
    exact h.precommit
  batch := by
    rw [hl.params]
    exact h.batch
  staying := hl.staying
  writing := hl.writing.trans h.writing
  peer := by
    rw [hid]
    exact hl.peer
  noSnapshot := hneeded
  next := by
    rwa [hl.precommit]
  joined := by
    rw [hconf]
    exact h.joined.imp_right (fun hc => hl.changing.trans hc)
  obeys := by
    rwa [hl.term]
  memberStart := hstart
  matching := by
    rwa [hl.log]
  snapshot snp hmem := by
    rw [hl.log]
    have hold := h.snapshot snp (hsnp ▸ hmem)
    exact ⟨hold.1, hkept _ hold.2⟩

theorem rewound {s : RaftServer} {slot : Nat} (hnext : resp.nextIdx = slot)
    (hhint : resp.hint = .none) (hslot : 0 < slot) (hpos : s.requestFrom p 0 ≠ 0) :
    0 < (Peer.onAppendRejected resp (s.noteRequest p (s.requestFrom p 0))).nextLogIdx ∧
    (Peer.onAppendRejected resp (s.noteRequest p (s.requestFrom p 0))).nextLogIdx ≤
      s.requestFrom p 0 ∧
    (Peer.onAppendRejected resp (s.noteRequest p (s.requestFrom p 0))).snapshotSyncIsNeeded =
      p.snapshotSyncIsNeeded ∧
    (Peer.onAppendRejected resp (s.noteRequest p (s.requestFrom p 0))).config = p.config := by
  have hlast : (s.noteRequest p (s.requestFrom p 0)).nextLogIdx = s.requestFrom p 0 + 1 := by
    rw [requestFrom, if_neg (Nat.lt_irrefl 0)] at hpos ⊢
    show (if p.nextLogIdx = 0 then _ else _) = _
    omega
  unfold Peer.onAppendRejected
  split
  · next hfast => exact ⟨by show 0 < resp.nextIdx; omega, by show resp.nextIdx ≤ _; omega, rfl, rfl⟩
  · refine ⟨?_, ?_, ?_, rfl⟩
    · show 0 < if resp.hint = .doNotRewind then _ else _
      rw [hhint, if_neg (by decide)]
      omega
    · rw [hhint, if_neg (by decide)]
      exact le_rfl
    · rw [hhint]
      exact Bool.or_false _

/-- What one exchange does. Either the member has everything in front of the request, and afterwards
the entries of the request, too; or the leader goes back. -/
theorem exchange (h : x.Setting p) (he : e.Undisturbed) :
    ∃ y q, x.step e = some y ∧ y.Setting q ∧ y.leader.log = x.leader.log ∧
      y.leader.precommitIndex = x.leader.precommitIndex ∧
      ((SameUpTo x.leader.log x.member.log (x.leader.requestFrom p 0) ∧
        ∃ n, (x.leader.requestFrom p 0 < x.leader.precommitIndex → 0 < n) ∧
          q.matchedIdx = x.leader.requestFrom p 0 + n ∧
          q.matchedIdx ≤ x.leader.precommitIndex ∧ q.nextLogIdx = q.matchedIdx + 1 ∧
          SameUpTo x.leader.log y.member.log q.matchedIdx) ∨
      (¬ SameUpTo x.leader.log x.member.log (x.leader.requestFrom p 0) ∧
        0 < q.nextLogIdx ∧ q.nextLogIdx ≤ x.leader.requestFrom p 0 ∧ y.member.log = x.member.log)) := by
  have hle := h.requestFrom_le
  have hlt : x.leader.requestFrom p 0 < x.leader.log.nextSlot := hle.trans_lt h.precommit
  have hsend := sendAppend_of_held e.send h.leads h.peer h.staying h.start h.noSnapshot hle
  generalize hreq : ReqMsg.mk _ _ _ _ _ _ _ = req at hsend
  have hbody : req.body = .appendEntries (x.leader.requestEntries e.send p
      (x.leader.requestFrom p 0)) := by rw [← hreq]
  have hterm : req.term = x.leader.state.term := by rw [← hreq]
  have hidx : req.lastLogIdx = x.leader.requestFrom p 0 := by rw [← hreq]
  have hprev : req.lastLogTerm = x.leader.termForLog req.lastLogIdx := by rw [← hreq]
  have hokay := h.appendLogOkay_iff (hidx ▸ hlt) hprev
  rw [hidx] at hokay
  obtain ⟨m, resp, hmember, hobeys, hid, hsnp, htype, hsrc, hrterm, hresp⟩ :=
    Obeys.answers (s := x.member) (hterm ▸ h.obeys) e.receive hbody he.2.1 he.2.2
  -- the leader finds the peer of its request again
  have hdst := findPeer_id h.peer
  have hpeer : (x.leader.noted p).findPeer resp.src =
      some (x.leader.noteRequest p (x.leader.requestFrom p 0)) := by
    rw [hsrc, ← hdst]
    exact findPeer_updatePeer (fun _ _ => rfl) (hdst ▸ h.peer)
  have hrecorded := handlePeerResp_append e.answer (s := x.leader.noted p)
    (hrterm.trans hterm) htype hpeer h.staying h.writing h.joined
  have hstep : x.step e = some ⟨((x.leader.noted p).handlePeerResp e.answer resp).1, m⟩ := by
    rw [step, hsend]
    simp only [bind_eq_bind, bind_some, head?_cons, hmember]
    rfl
  generalize ((x.leader.noted p).handlePeerResp e.answer resp).1 = l at hrecorded hstep
  rw [hsrc] at hrecorded
  rcases x.leader.requestEntries_spec e.send p hle (by rw [h.start]; omega) with
    ⟨hentries, -, hbound⟩
  by_cases hsame : SameUpTo x.leader.log x.member.log (x.leader.requestFrom p 0)
  · rw [if_pos (hokay.mpr hsame), hidx] at hresp
    obtain ⟨hacc, hnext, hlog⟩ := hresp
    have hreceive := receive_same h.matching h.start h.memberStart
      (hbound.trans_lt h.precommit) hsame hentries
    rw [← hlog] at hreceive
    obtain ⟨hstart, hnew, hmatch, hkept⟩ := hreceive
    rw [Peer.afterAppend, if_pos hacc] at hrecorded
    have hmatched : (Peer.onAppendAccepted resp
        (x.leader.noteRequest p (x.leader.requestFrom p 0))).matchedIdx = x.leader.requestFrom p 0 +
        (x.leader.requestEntries e.send p (x.leader.requestFrom p 0)).length := by
      show resp.nextIdx - 1 = _
      rw [hnext]
      rfl
    refine ⟨⟨l, m⟩, _, hstep, h.after hrecorded hid (hterm ▸ hobeys) hstart hmatch hsnp hkept
      h.noSnapshot rfl ?_, hrecorded.log, hrecorded.precommit, .inl ⟨hsame, _,
        fun hlow => h.requestEntries_pos he.1 hlow, hmatched, ?_, ?_, ?_⟩⟩
    · show resp.nextIdx ≤ _
      omega
    · omega
    · rwa [hmatched]
    · rwa [hmatched]
  · rw [if_neg (fun hyes => hsame (hokay.mp hyes))] at hresp
    obtain ⟨hrej, hnext, hhint, hlog⟩ := hresp
    have hpos : x.leader.requestFrom p 0 ≠ 0 := by
      intro hzero
      refine hsame fun i hi => ?_
      rw [hzero, Nat.le_zero] at hi
      rw [hi, entryAt_zero, entryAt_zero]
    have hslot := x.member.log.nextSlot_pos
    rw [Peer.afterAppend, if_neg (by simp [hrej])] at hrecorded
    obtain ⟨hback, hback', hneeded, hconf⟩ := rewound hnext hhint hslot hpos
    exact ⟨⟨l, m⟩, _, hstep, h.after hrecorded hid (hterm ▸ hobeys) (hlog ▸ h.memberStart)
      (hlog ▸ h.matching) hsnp (fun i hi => hlog ▸ hi) (hneeded.trans h.noSnapshot) hconf
      (by omega), hrecorded.log, hrecorded.precommit, .inr ⟨hsame, hback, hback', hlog⟩⟩

end Setting

/-! ## Catching up -/

/-- The member has all that the leader pre-committed, and the leader knows. -/
structure CaughtUp (x : Exchange) (p : Peer) : Prop where
  matched : p.matchedIdx = x.leader.precommitIndex
  next : p.nextLogIdx = x.leader.precommitIndex + 1
  same : LogStore.SameUpTo x.leader.log x.member.log x.leader.precommitIndex

/-- At most so many exchanges are left: first back to an index that the member has, then forward. -/
inductive Left (x : Exchange) (p : Peer) (n : Nat) : Prop
  | caughtUp (h : x.CaughtUp p)
  | forward (h : LogStore.SameUpTo x.leader.log x.member.log (x.leader.requestFrom p 0))
      (hn : x.leader.precommitIndex - x.leader.requestFrom p 0 + 1 ≤ n)
  | back (hn : x.leader.precommitIndex + 1 + x.leader.requestFrom p 0 ≤ n)

theorem requestFrom_of_next {s : RaftServer} {k : Nat} (h : p.nextLogIdx = k + 1) :
    s.requestFrom p 0 = k := by
  rw [requestFrom, if_neg (Nat.lt_irrefl 0), h, if_neg (Nat.succ_ne_zero k)]
  rfl

theorem Setting.exchange_left (h : x.Setting p) (he : e.Undisturbed) {n : Nat}
    (hleft : x.Left p n) :
    ∃ y q, x.step e = some y ∧ y.Setting q ∧ y.leader.log = x.leader.log ∧
      y.leader.precommitIndex = x.leader.precommitIndex ∧ y.Left q (n - 1) := by
  obtain ⟨y, q, hstep, hy, hlog, hpre, hcase⟩ := h.exchange he
  refine ⟨y, q, hstep, hy, hlog, hpre, ?_⟩
  rcases hcase with ⟨hsame, k, hk, hmatched, hbound, hnext, hnew⟩ | ⟨hdiffers, hpos, hback, hmember⟩
  · have hfrom : y.leader.requestFrom q 0 = q.matchedIdx := requestFrom_of_next hnext
    rcases Nat.lt_or_ge q.matchedIdx x.leader.precommitIndex with hlow | hhigh
    · refine .forward ?_ ?_
      · rwa [hlog, hfrom]
      · cases hleft with
        | caughtUp hdone =>
          have := requestFrom_of_next (s := x.leader) hdone.next
          omega
        | forward _ hn => omega
        | back hn => omega
    · have hall : q.matchedIdx = x.leader.precommitIndex := Nat.le_antisymm hbound hhigh
      refine .caughtUp ⟨hall.trans hpre.symm, ?_, ?_⟩
      · rw [hnext, hall, hpre]
      · rwa [hlog, hpre, ← hall]
  · refine .back ?_
    have hfrom : y.leader.requestFrom q 0 = q.nextLogIdx - 1 := requestFrom_of_next (by omega)
    cases hleft with
    | caughtUp hdone =>
      rw [requestFrom_of_next hdone.next] at hdiffers
      exact absurd hdone.same hdiffers
    | forward hsame _ => exact absurd hsame hdiffers
    | back hn => omega

/-- **The member catches up.** After twice as many exchanges as there are entries, and one more, the
member has every entry up to `precommit_index_`, the leader's matched index is that one, and further
exchanges change neither. -/
theorem caught_up (h : x.Setting p) {turns : List Turn} (hturns : ∀ e ∈ turns, e.Undisturbed)
    (hlen : 2 * x.leader.precommitIndex + 1 ≤ turns.length) :
    ∃ y q, Runs.run step x turns = some y ∧ y.leader.log = x.leader.log ∧
      y.leader.precommitIndex = x.leader.precommitIndex ∧
      y.leader.findPeer y.member.id = some q ∧ q.matchedIdx = x.leader.precommitIndex ∧
      q.nextLogIdx = x.leader.precommitIndex + 1 ∧
      ∀ i, i ≤ x.leader.precommitIndex → y.member.log.entryAt i = x.leader.log.entryAt i := by
  have hstart : ∃ q, x.Setting q ∧ x.leader.log = x.leader.log ∧
      x.leader.precommitIndex = x.leader.precommitIndex ∧
      x.Left q (2 * x.leader.precommitIndex + 1) := by
    refine ⟨p, h, rfl, rfl, .back ?_⟩
    have hle := h.requestFrom_le
    omega
  have hrun : ∃ y, Runs.run step x turns = some y ∧ ∃ q, y.Setting q ∧
      y.leader.log = x.leader.log ∧ y.leader.precommitIndex = x.leader.precommitIndex ∧
      y.Left q (2 * x.leader.precommitIndex + 1 - turns.length) := by
    refine Runs.run_countdown (P := Turn.Undisturbed) (W := fun n (y : Exchange) => ∃ q, y.Setting q ∧
      y.leader.log = x.leader.log ∧ y.leader.precommitIndex = x.leader.precommitIndex ∧
      y.Left q n) ?_ hstart hturns
    rintro n y e ⟨q, hset, hlog, hpre, hleft⟩ he
    obtain ⟨z, r, hz, hset', hlog', hpre', hleft'⟩ := hset.exchange_left he hleft
    exact ⟨z, hz, r, hset', hlog'.trans hlog, hpre'.trans hpre, hleft'⟩
  obtain ⟨y, hy, q, hset, hlog, hpre, hleft⟩ := hrun
  have hdone : y.CaughtUp q := by
    cases hleft with
    | caughtUp hdone => exact hdone
    | forward _ hn => omega
    | back hn => omega
  refine ⟨y, q, hy, hlog, hpre, hset.peer, hdone.matched.trans hpre, ?_, ?_⟩
  · rw [hdone.next, hpre]
  · have hsame := hdone.same
    rwa [hlog, hpre] at hsame

end Exchange

/-! ## One pair that catches up and three that do not -/

/-- A leader of the given entries with one peer, to which it sends so many entries at a time. -/
def leaderOf (es : List LogEntry) (maxAppendSize next : Nat) : RaftServer :=
  { serverWith 1 (logFrom 1 Nat.one_pos es) 0 none with
    role := .leader
    params := { maxAppendSize := maxAppendSize }
    peers := [{ config := { id := 2 }, nextLogIdx := next }] }

def newMember : RaftServer := serverWith 2 (logFrom 1 Nat.one_pos []) 0 none

/-- The member's third entry is of an old term. -/
def conflictingPair : Exchange := ⟨leaderOf threeEntryLeader.log.entries 1 4, memberBehind⟩

theorem conflictingPair_caughtUp : ∃ y, Runs.run Exchange.step conflictingPair
    (List.replicate 7 {}) = some y ∧ y.member.log.entryAt 3 = some (entryOf 3 12) := by
  have hsetting : conflictingPair.Setting { config := { id := 2 }, nextLogIdx := 4 } :=
    { leads := rfl
      start := rfl
      terms := by
        intro i e he
        have hmem := mem_of_getElem? (entryAt_eq_some_iff.mp he).2
        have hall : ∀ e ∈ conflictingPair.leader.log.entries, 0 < e.term := by decide
        exact hall e hmem
      precommit := by decide
      batch := by decide
      staying := rfl
      writing := rfl
      peer := rfl
      noSnapshot := rfl
      next := by decide
      joined := .inl rfl
      obeys := ⟨by decide, by decide, rfl⟩
      memberStart := rfl
      matching := by decide
      snapshot := fun _ hsnp => (nomatch hsnp) }
  have hturns : ∀ e ∈ replicate 7 ({} : Exchange.Turn), e.Undisturbed := by decide
  rcases Exchange.caught_up hsetting hturns (by decide) with
    ⟨y, q, hy, -, -, -, -, -, hsame⟩
  exact ⟨y, hy, (hsame 3 (by decide)).trans (by decide)⟩

/-- The index of the peer may lie behind entries that are not pre-committed: the leader exits. With
batches of no entries nothing ever arrives. And an entry of term `0` is never found at the member,
so that the index goes back and forth in front of it. -/
theorem exchange_stuck : ((leaderOf [entryOf 1 10, entryOf 1 11] 1 3).log.nextSlot = 3 ∧
      Exchange.step ⟨{ leaderOf [entryOf 1 10, entryOf 1 11] 1 3 with precommitIndex := 1 },
        newMember⟩ {} = none) ∧
    (∃ y, Exchange.step ⟨leaderOf [entryOf 1 10] 0 1, newMember⟩ {} = some y ∧
      Exchange.step y {} = some y ∧ y.member.log.entryAt 1 = none) ∧
    (∃ y z, Runs.run Exchange.step ⟨leaderOf [entryOf 0 10, entryOf 0 11] 1 1, newMember⟩
        [{}, {}, {}] = some y ∧ Exchange.step y {} = some z ∧ Exchange.step z {} = some y ∧
      y.member.log.entryAt 2 = none ∧ z.member.log.entryAt 2 = none) := by
  have hstuck : (Exchange.step ⟨leaderOf [entryOf 1 10] 0 1, newMember⟩ {}).bind (fun y =>
      (Exchange.step y {}).map (fun z => decide (z = y ∧ y.member.log.entryAt 1 = none))) =
      some true := by
    decide +kernel
  have hcycle : (Runs.run Exchange.step ⟨leaderOf [entryOf 0 10, entryOf 0 11] 1 1, newMember⟩
      [{}, {}, {}]).bind (fun y => (Exchange.step y {}).bind (fun z => (Exchange.step z {}).map
        (fun w => decide (w = y ∧ y.member.log.entryAt 2 = none ∧ z.member.log.entryAt 2 = none)))) =
      some true := by
    decide +kernel
  refine ⟨⟨by decide, rfl⟩, ?_, ?_⟩
  · obtain ⟨y, hy, hz⟩ := bind_eq_some_iff.mp hstuck
    obtain ⟨z, hz, hfacts⟩ := map_eq_some_iff.mp hz
    obtain ⟨rfl, hempty⟩ := of_decide_eq_true hfacts
    exact ⟨z, hy, hz, hempty⟩
  · obtain ⟨y, hy, hz⟩ := bind_eq_some_iff.mp hcycle
    obtain ⟨z, hz, hw⟩ := bind_eq_some_iff.mp hz
    obtain ⟨w, hback, hfacts⟩ := map_eq_some_iff.mp hw
    obtain ⟨rfl, hsecond, hsecond'⟩ := of_decide_eq_true hfacts
    exact ⟨w, z, hy, hz, hback, hsecond, hsecond'⟩

end Raft
end Xio
