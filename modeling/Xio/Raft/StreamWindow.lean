import Xio.Raft.NextIndex

/-!
# Raft.StreamWindow — what is sent in stream mode, and how much of it is unacknowledged

The streams of `NextIndex`, with the requests that a leader sends to one peer in stream mode
recorded. A stream starts at the index of an accepted response, each request continues it where the
one before ended, and a rejection or a new connection ends it.

`max_log_gap_in_stream_` is compared with the logs in flight before the entries of a request are
added to them. So the cap holds as long as a whole batch fits into what is left of it, and as long
as no response moves `next_log_idx_` back under a stream.

- `StreamTrace`: contiguous ranges of the log
- `StreamRun.window`: every run of requests and responses
-/

namespace Xio
namespace Raft

open List Function Option

variable {req : ReqMsg} {custom : Nat} {dst : Int} {resp : RespMsg} {p p' : Peer}

/-- What happens to the stream of a peer; a request is recorded with the leader's log. -/
inductive StreamEvent
  | opened (i : Nat)
  | sent (log : LogStore) (req : ReqMsg)
  | closed
  deriving DecidableEq, Repr

/-- The events so far, and the index that the stream has reached with them (`0`: no stream). Each
request carries what the log holds right after that index. -/
inductive StreamTrace : List StreamEvent → Nat → Prop
  | start : StreamTrace [] 0
  | opened {evs : List StreamEvent} {i : Nat} (h : StreamTrace evs 0) :
      StreamTrace (evs ++ [.opened i]) i
  | sent {evs : List StreamEvent} {i : Nat} {log : LogStore} {req : ReqMsg} {es : List LogEntry}
      (h : StreamTrace evs i) (hpos : 0 < i) (hlast : req.lastLogIdx = i)
      (hbody : req.body = .appendEntries es) (hstart : log.startIndex ≤ i + 1)
      (hes : es <+: log.entries.drop (i + 1 - log.startIndex)) :
      StreamTrace (evs ++ [.sent log req]) (i + es.length)
  | closed {evs : List StreamEvent} {i : Nat} (h : StreamTrace evs i) :
      StreamTrace (evs ++ [.closed]) 0

/-- The end or the start of a stream, seen from the index before and after a step. -/
def StreamEvent.turn (i j : Nat) : List StreamEvent :=
  if j = 0 then if i = 0 then [] else [.closed]
  else if i = 0 then [.opened j] else []

/-- Only whether there was a stream before the step matters. -/
theorem StreamEvent.turn_of_pos {i i' : Nat} (hi : 0 < i) (hi' : 0 < i') (j : Nat) :
    turn i j = turn i' j := by
  unfold turn
  rw [if_neg hi.ne', if_neg hi'.ne', if_neg hi.ne', if_neg hi'.ne']

theorem StreamTrace.turn {evs : List StreamEvent} {i j : Nat} (h : StreamTrace evs i)
    (hij : i = 0 ∨ j = 0 ∨ j = i) : StreamTrace (evs ++ StreamEvent.turn i j) j := by
  unfold StreamEvent.turn
  by_cases hj : j = 0
  · subst hj
    by_cases hi : i = 0
    · subst hi
      simpa using h
    · simpa [hi] using h.closed
  · by_cases hi : i = 0
    · subst hi
      simpa [hj] using h.opened
    · -- a stream that goes on has not moved
      have heq : j = i := (hij.resolve_left hi).resolve_left hj
      subst heq
      simpa [hj] using h

namespace RaftServer

variable {s t : RaftServer} {env : Env}

/-! ## One request, one response -/

theorem createAppendEntriesReq_next (h : s.createAppendEntriesReq env p custom = some (p', req)) :
    p'.nextLogIdx = if p.nextLogIdx = 0 then s.precommitIndex + 1 else p.nextLogIdx := by
  dsimp only [createAppendEntriesReq] at h
  have hq : (if p.nextLogIdx = 0 then ({ p with nextLogIdx := s.precommitIndex + 1 } : Peer)
      else p).nextLogIdx = if p.nextLogIdx = 0 then s.precommitIndex + 1 else p.nextLogIdx := by
    split <;> rfl
  rw [← hq]
  generalize (if p.nextLogIdx = 0 then ({ p with nextLogIdx := s.precommitIndex + 1 } : Peer)
    else p) = q at h
  generalize (if 0 < custom then custom else q.nextLogIdx - 1) = last at h
  split at h
  · cases h
  split at h
  · cases h
    rfl
  split at h
  · unfold createSyncSnapshotReq at h
    split at h
    · cases h
    · cases h
      rfl
  · cases h
    rfl

/-- The next indices after an append response: only that of its sender may be new, and after an
accepted response it is the reported one. -/
def NextAfter (resp : RespMsg) (s t : RaftServer) : Prop :=
  ∀ q ∈ t.peers, (q.id ≠ resp.src ∧ ∃ p ∈ s.peers, p.id = q.id ∧ p.nextLogIdx = q.nextLogIdx) ∨
    (q.id = resp.src ∧ (s.findPeer resp.src).isSome = true ∧
      (resp.accepted = true → q.nextLogIdx = resp.nextIdx))

theorem NextAfter.of_removed (hsub : t.peers ⊆ s.peers)
    (hnone : ∀ q ∈ t.peers, q.id ≠ resp.src) : NextAfter resp s t :=
  fun q hq => .inl ⟨hnone q hq, q, hsub hq, rfl, rfl⟩

theorem NextAfter.of_peers {u : RaftServer} (h : NextAfter resp s t)
    (hpeers : u.peers = t.peers) : NextAfter resp s u := by
  rw [NextAfter, hpeers]
  exact h

theorem onAppendRejected_id (resp : RespMsg) (p : Peer) : (p.onAppendRejected resp).id = p.id := by
  unfold Peer.onAppendRejected
  split <;> rfl

theorem recordAppendResp_next (hsub : t.peers ⊆ s.peers) (env : Env) :
    NextAfter resp s (t.recordAppendResp env resp) := by
  -- either handler changes the peer with the id of the sender only
  have hupdate (f : Peer → Peer) (hid : ∀ p, (f p).id = p.id)
      (hnext : resp.accepted = true → ∀ p, (f p).nextLogIdx = resp.nextIdx) :
      NextAfter resp s (t.updatePeer resp.src f) := by
    intro q hq
    obtain ⟨p, hp, rfl⟩ := mem_map.mp hq
    split
    · next hsrc =>
      have hfound : (s.findPeer resp.src).isSome = true :=
        find?_isSome.mpr ⟨p, hsub hp, by simp [hsrc]⟩
      exact .inr ⟨(hid p).trans hsrc, hfound, fun hacc => hnext hacc p⟩
    · next hsrc => exact .inl ⟨hsrc, p, hsub hp, rfl, rfl⟩
  unfold recordAppendResp
  split
  · exact hupdate _ (fun _ => rfl) (fun _ _ => rfl)
  · next hacc =>
    exact hupdate _ (onAppendRejected_id resp) (fun htrue => absurd htrue hacc)

theorem handleAppendEntriesResp_next (resp : RespMsg)
    (hlead : (s.handleAppendEntriesResp env resp).1.role = .leader) :
    NextAfter resp s (s.handleAppendEntriesResp env resp).1 := by
  have hsub : (s.checkSrvToLeaveTimeout env).peers ⊆ s.peers := by
    rw [checkSrvToLeaveTimeout_peers]
    split
    · exact fun q hq => mem_of_mem_filter hq
    · exact Subset.refl _
  have hrecord : NextAfter resp s ((s.checkSrvToLeaveTimeout env).recordAppendResp env resp) :=
    recordAppendResp_next hsub env
  unfold handleAppendEntriesResp at hlead ⊢
  split at hlead
  · next hnone =>
    rw [if_pos hnone]
    refine .of_removed (Subset.refl _) (fun q hq hid => ?_)
    have habsent := find?_eq_none.mp (isNone_iff_eq_none.mp hnone) q hq
    exact habsent (by simp [hid])
  next hsome =>
  rw [if_neg hsome]
  dsimp only at hlead ⊢
  split at hlead
  · next hcaught =>
    rw [if_pos hcaught]
    refine .of_removed (fun q hq => hsub (mem_of_mem_filter hq)) (fun q hq => ?_)
    simpa using (mem_filter.mp hq).2
  next hcaught =>
  rw [if_neg hcaught]
  generalize (s.checkSrvToLeaveTimeout env).recordAppendResp env resp = v at *
  split
  · exact hrecord
  next p hp =>
  split
  · exact hrecord.of_peers rfl
  next hready =>
  split
  · next hresign =>
    simp only [hp, hready, hresign, if_true, resign] at hlead
    simp at hlead
  · exact hrecord

theorem requestAppendEntriesTo_cases {reconnect : Bool}
    (h : s.requestAppendEntriesTo env dst reconnect custom = some (t, req)) :
    ∃ p p' leaving, s.findPeer dst = some p ∧
      s.createAppendEntriesReq env (if reconnect = true ∧ p.nextLogIdx ≠ 0 then
        { p with nextLogIdx := 0, matchedIdx := 0 } else p) custom = some (p', req) ∧
      t = s.updatePeer dst (fun _ => { p' with steppingDown := leaving }) := by
  unfold requestAppendEntriesTo at h
  split at h
  · cases h
  split at h
  · cases h
  next p hp =>
  dsimp only at h
  split at h
  · cases h
  next p' req' hbuilt =>
  cases h
  exact ⟨p, p', _, hp, hbuilt, rfl⟩

end RaftServer

/-! ## Requests in stream mode -/

namespace Streaming

open RaftServer

variable (x : Streaming) (c : StreamEnv) {a : StreamEnv × Env × Input}

/-- The logs sent in stream mode to a peer and not acknowledged by it. -/
def inFlight (p : Peer) : Nat := x.streamed p.id - (p.nextLogIdx - 1)

/-- The test for a request that was built for a stream; `t` is the server that has built it. -/
def inStream (t : RaftServer) (dst : Int) (custom : Nat) (req : ReqMsg) : Bool :=
  (match req.body with
    | .appendEntries _ => true
    | _ => false) &&
  decide (0 < custom ∧ c.throttled = false ∧
    (t.findPeer dst).any (fun p => custom + 1 < c.maxGap + p.nextLogIdx) = true)

/-- The request that the step sends to the peer in stream mode. -/
def sentInStream (peer : Int) (a : StreamEnv × Env × Input) : Option ReqMsg :=
  match a.2.2 with
  | .sendAppend dst reconnect custom =>
    if dst = peer then
      (x.server.requestAppendEntriesTo a.2.1 dst reconnect custom).bind fun r =>
        if inStream a.1 r.1 dst custom r.2 then some r.2 else none
    else none
  | _ => none

variable {x c} {env : Env} {t : RaftServer} {input : Input} {o : Output}

theorem advance_eq (ho : o.sent = [req]) : advance c t dst custom o =
      if inStream c t dst custom req then custom + req.entries.length else custom := by
  rw [advance, inStream, ReqMsg.entries, ho]
  dsimp only [head?_cons, map_some]
  cases req.body with
  | appendEntries es => simp
  | _ => rfl

theorem inStream_body
    (h : inStream c t dst custom req = true) : req.body = .appendEntries req.entries := by
  unfold inStream at h
  unfold ReqMsg.entries
  cases hbody : req.body with
  | appendEntries es => rfl
  | _ =>
    rw [hbody] at h
    exact absurd h (by simp)

theorem inStream_pos (h : inStream c t dst custom req = true) : 0 < custom :=
  (of_decide_eq_true (Bool.and_eq_true_iff.mp h).2).1

theorem sentInStream_eq_some {peer : Int}
    (hasks : x.Asks a.1 a.2.2) (h : x.sentInStream peer a = some req) :
    a.2.2 = .sendAppend peer false (x.streamed peer) ∧ ∃ t,
      x.server.requestAppendEntriesTo a.2.1 peer false (x.streamed peer) = some (t, req) ∧
      inStream a.1 t peer (x.streamed peer) req = true := by
  unfold sentInStream at h
  split at h
  · next dst reconnect custom hin =>
    split at h
    · next hdst =>
      subst hdst
      obtain ⟨⟨t, req'⟩, hreq, hif⟩ := bind_eq_some_iff.mp h
      split at hif
      · next hstream =>
        cases hif
        have hcustom : custom = x.current a.1 dst reconnect := by
          rwa [hin] at hasks
        -- a new connection would have ended the stream
        have hpos : 0 < x.current a.1 dst reconnect := hcustom ▸ inStream_pos hstream
        unfold current at hpos hcustom
        split at hpos
        · exact absurd hpos (Nat.lt_irrefl 0)
        next hopen =>
        rw [if_neg hopen] at hcustom
        have hrec : reconnect = false := by
          simpa using (not_or.mp hopen).1
        subst hrec hcustom
        exact ⟨hin, t, hreq, hstream⟩
      · cases hif
    · cases h
  · cases h

/-- A step that sends nothing in stream mode can only start or end the stream. -/
theorem restream_of_not_sent {peer : Int}
    (hasks : x.Asks a.1 a.2.2) (hstep : x.server.step a.2.1 a.2.2 = some (t, o))
    (h : x.sentInStream peer a = none) : x.streamed peer = 0 ∨ x.restream a.1 t a.2.2 o peer = 0 ∨
      x.restream a.1 t a.2.2 o peer = x.streamed peer := by
  obtain ⟨c, env, input⟩ := a
  cases input with
  | sendAppend dst reconnect custom =>
    dsimp only [restream]
    rw [update_apply]
    split
    · next hpeer =>
      subst hpeer
      obtain ⟨⟨u, req⟩, hreq, heq⟩ := map_eq_some_iff.mp hstep
      cases heq
      -- the stream has stayed at the index that the request was built for
      have hstays : advance c u peer custom { sent := [req] } = custom := by
        rw [advance_eq rfl]
        refine if_neg (fun hstream => ?_)
        simp [sentInStream, hreq, hstream] at h
      have hcustom : custom = x.current c peer reconnect := hasks
      rw [hstays, hcustom]
      unfold current
      split
      · exact .inr (.inl rfl)
      · exact .inr (.inr rfl)
    · exact .inr (.inr rfl)
  | response resp =>
    dsimp only [restream]
    split
    · rw [update_apply]
      split
      · next hpeer =>
        subst hpeer
        unfold respond
        split
        · exact .inr (.inl rfl)
        split
        · next hopens => exact .inl hopens.2.1
        · exact .inr (.inr rfl)
      · exact .inr (.inr rfl)
    · exact .inr (.inr rfl)
  | _ => exact .inr (.inr rfl)

theorem restream_of_sent {peer : Int}
    (hasks : x.Asks a.1 a.2.2) (hstep : x.server.step a.2.1 a.2.2 = some (t, o))
    (h : x.sentInStream peer a = some req) :
    x.restream a.1 t a.2.2 o peer = x.streamed peer + req.entries.length := by
  obtain ⟨hin, u, hreq, hstream⟩ := sentInStream_eq_some hasks h
  rw [hin] at hstep ⊢
  obtain ⟨r, hr, heq⟩ := map_eq_some_iff.mp hstep
  cases hreq ▸ hr
  cases heq
  dsimp only [restream]
  rw [update_self, advance_eq rfl, if_pos hstream]

end Streaming

/-- The server and its streams, with what happened to the stream of one peer. -/
structure StreamRun where
  base : Streaming
  events : List StreamEvent := []

namespace StreamRun

open RaftServer

def next (peer : Int) (x : StreamRun) (a : StreamEnv × Env × Input) : Option StreamRun :=
  (x.base.next a).map fun y =>
    ⟨y, x.events ++ ((x.base.sentInStream peer a).map (.sent x.base.server.log)).toList ++
      StreamEvent.turn (x.base.streamed peer) (y.streamed peer)⟩

variable {peer : Int} {x y : StreamRun} {a : StreamEnv × Env × Input}

theorem next_cases (h : x.next peer a = some y) : ∃ t o, x.base.Asks a.1 a.2.2 ∧
    x.base.server.step a.2.1 a.2.2 = some (t, o) ∧ y.base.server = t ∧
    (∀ id, y.base.streamed id = 0 ∨ y.base.streamed id = x.base.restream a.1 t a.2.2 o id) ∧
    y.events = x.events ++ ((x.base.sentInStream peer a).map (.sent x.base.server.log)).toList ++
      StreamEvent.turn (x.base.streamed peer) (y.base.streamed peer) := by
  obtain ⟨z, hz, rfl⟩ := map_eq_some_iff.mp h
  unfold Streaming.next at hz
  split at hz
  · next hasks =>
    obtain ⟨⟨t, o⟩, hstep, rfl⟩ := map_eq_some_iff.mp hz
    refine ⟨t, o, hasks, hstep, rfl, fun id => ?_, rfl⟩
    dsimp only
    split
    · exact .inl rfl
    · exact .inr rfl
  · cases hz

/-! ## Contiguous ranges -/

theorem next_trace (ht : StreamTrace x.events (x.base.streamed peer))
    (h : x.next peer a = some y) : StreamTrace y.events (y.base.streamed peer) := by
  obtain ⟨t, o, hasks, hstep, -, hstreams, hevents⟩ := next_cases h
  rw [hevents]
  cases hsent : x.base.sentInStream peer a with
  | none =>
    have hmove := Streaming.restream_of_not_sent hasks hstep hsent
    rw [map_none, toList_none, append_nil]
    refine ht.turn ?_
    rcases hstreams peer with hzero | hsame
    · exact .inr (.inl hzero)
    · rwa [hsame]
  | some req =>
    obtain ⟨-, u, hreq, hstream⟩ := Streaming.sentInStream_eq_some hasks hsent
    have hpos := Streaming.inStream_pos hstream
    have hbody := Streaming.inStream_body hstream
    obtain ⟨p, p', leaving, -, hbuilt, -⟩ := requestAppendEntriesTo_cases hreq
    have hlast := (createAppendEntriesReq_streamed hbuilt hbody hpos).1
    -- the request carries a part of the log that begins where the stream is
    have htrace : StreamTrace (x.events ++ [.sent x.base.server.log req])
        (x.base.streamed peer + req.entries.length) := by
      cases (createAppendEntriesReq_built _ hbuilt).1 with
      | entries last es hle hstart hes hctx heq =>
        have hat : last = x.base.streamed peer := by
          rw [← hlast, heq]
        subst hat
        have hsame : req.entries = es := by
          rw [heq]
          rfl
        exact ht.sent hpos hlast hbody hstart (hsame ▸ hes)
      | snapshot ctx fin hctx hctx' heq =>
        cases heq ▸ hbody
      | outOfRange note hctx hnote hterm =>
        cases hbody ▸ hnote
    rw [map_some, toList_some, StreamEvent.turn_of_pos hpos (hpos.trans_le (Nat.le_add_right _ _))]
    refine htrace.turn ?_
    rcases hstreams peer with hzero | hsame
    · exact .inr (.inl hzero)
    · exact .inr (.inr (hsame.trans (Streaming.restream_of_sent hasks hstep hsent)))

/-! ## The window -/

/-- Requests to peers, their append responses, and new data of clients. -/
def Exchange : Input → Prop
  | .sendAppend _ _ _ => True
  | .response resp => resp.type = .appendEntries
  | .request req =>
    match req.body with
    | .clientRequest _ => True
    | _ => False
  | _ => False

instance (input : Input) : Decidable (Exchange input) := by
  rcases input with ⟨⟨_, _, _, _, _, _, ⟨⟩⟩⟩ <;> (dsimp only [Exchange]; infer_instance)

/-- A batch that is sent before the window is full fits into the rest of it, and an accepted
response does not move the next index back under a stream. -/
def Fits (gap : Nat) (x : Streaming) : Input → Prop
  | .sendAppend dst _ _ => 0 < x.streamed dst → ∀ p ∈ x.server.findPeer dst,
      x.inFlight p < gap →
      x.inFlight p +
        min x.server.params.maxAppendSize (x.server.precommitIndex - x.streamed dst) ≤ gap
  | .response resp => resp.accepted = true → 0 < x.streamed resp.src →
      ∀ p ∈ x.server.findPeer resp.src, p.nextLogIdx ≤ resp.nextIdx
  | _ => True

instance (gap : Nat) (x : Streaming) (input : Input) : Decidable (Fits gap x input) := by
  rcases input with ⟨⟩ <;> (dsimp only [Fits]; infer_instance)

def Room (gap i next : Nat) : Prop := i = 0 ∨ i + 1 ≤ gap + next

def WithinWindow (gap : Nat) (x : Streaming) : Prop :=
  ∀ p ∈ x.server.peers, Room gap (x.streamed p.id) p.nextLogIdx

theorem Room.mono {gap i next next' : Nat} (h : Room gap i next) (hle : next ≤ next') :
    Room gap i next' :=
  h.imp_right (fun h => h.trans (Nat.add_le_add_left hle gap))

variable {gap : Nat} {v : Streaming} {c : StreamEnv} {env : Env} {t : RaftServer} {o : Output}

/-- The stream after a request that was built for `p`; `p'` has the next index that the test of the
window reads. -/
theorem advance_room (hon : 0 < gap) (hgap : c.maxGap = gap)
    (hdst : p.id = dst) (hroom : Room gap (v.streamed dst) p.nextLogIdx)
    (hbuilt : v.server.createAppendEntriesReq env p (v.streamed dst) = some (p', req))
    (hpeer : (t.findPeer dst).map Peer.nextLogIdx = some p'.nextLogIdx)
    (hfit : 0 < v.streamed dst → v.inFlight p < gap → v.inFlight p +
      min v.server.params.maxAppendSize (v.server.precommitIndex - v.streamed dst) ≤ gap) :
    Room gap (Streaming.advance c t dst (v.streamed dst) { sent := [req] }) p'.nextLogIdx := by
  have hnext := createAppendEntriesReq_next hbuilt
  rw [Streaming.advance_eq rfl]
  split
  · next hstream =>
    have hpos := Streaming.inStream_pos hstream
    obtain ⟨-, hsize, hend⟩ :=
      createAppendEntriesReq_streamed hbuilt (Streaming.inStream_body hstream) hpos
    have hlen : _ ≤ min v.server.params.maxAppendSize (v.server.precommitIndex - v.streamed dst) :=
      Nat.le_min.mpr ⟨hsize, Nat.le_sub_of_add_le' hend⟩
    have htest : v.streamed dst + 1 < gap + p'.nextLogIdx := by
      have hany := (of_decide_eq_true (Bool.and_eq_true_iff.mp hstream).2).2.2
      obtain ⟨q, hq, hnext'⟩ := map_eq_some_iff.mp hpeer
      rw [hq, hgap, any_some, decide_eq_true_eq] at hany
      rwa [← hnext']
    rw [Streaming.inFlight, hdst] at hfit
    refine .inr ?_
    split at hnext
    · -- the peer starts at the end of the pre-committed entries, and the batch ends there, too
      omega
    · generalize min v.server.params.maxAppendSize _ = batch at hlen hfit
      omega
  · refine hroom.mono ?_
    rw [hnext]
    split
    · next hzero => exact hzero ▸ Nat.zero_le _
    · exact le_rfl

theorem findPeer_updated {s : RaftServer} (hp : s.findPeer dst = some p)
    (hid : p'.id = dst) : (s.updatePeer dst (fun _ => p')).findPeer dst = some p' := by
  unfold findPeer at hp ⊢
  rw [updatePeer_peers, find?_map]
  have hsame : ((fun q : Peer => q.id == dst) ∘ fun q => if q.id = dst then p' else q) =
      fun q => q.id == dst := by
    funext q
    by_cases hq : q.id = dst
    · simp [hq, hid]
    · simp [hq]
  have hdst : p.id = dst := by simpa using find?_some hp
  rw [hsame, hp, map_some, if_pos hdst]

theorem sendAppend_room {reconnect : Bool} (hon : 0 < gap)
    (hw : WithinWindow gap v) (hgap : c.maxGap = gap)
    (hasks : v.Asks c (.sendAppend dst reconnect custom))
    (hfit : Fits gap v (.sendAppend dst reconnect custom))
    (hstep : v.server.step env (.sendAppend dst reconnect custom) = some (t, o)) : ∀ q ∈ t.peers,
      Room gap (v.restream c t (.sendAppend dst reconnect custom) o q.id) q.nextLogIdx := by
  obtain ⟨⟨u, req⟩, hreq, heq⟩ := map_eq_some_iff.mp hstep
  cases heq
  obtain ⟨p, p', leaving, hp, hbuilt, rfl⟩ := requestAppendEntriesTo_cases hreq
  have hdst : p.id = dst := by simpa using find?_some hp
  have hid : p'.id = dst := by
    have hconf := congrArg SrvConfig.id (createAppendEntriesReq_built _ hbuilt).2.1
    refine Eq.trans hconf ?_
    split <;> exact hdst
  intro q hq
  dsimp only [Streaming.restream]
  obtain ⟨q', hq', rfl⟩ := mem_map.mp hq
  by_cases hq'dst : q'.id = dst
  · rw [if_pos hq'dst]
    have hself : ({ p' with steppingDown := leaving } : Peer).id = dst := hid
    rw [hself, update_self]
    have hcustom : custom = v.current c dst reconnect := hasks
    have hroom : Room gap (v.streamed dst) p.nextLogIdx :=
      hdst ▸ hw p (mem_of_find?_eq_some hp)
    cases reconnect with
    | true =>
      -- a new connection has no stream
      have hzero : custom = 0 := by
        rw [hcustom]
        exact if_pos (.inl rfl)
      subst hzero
      rw [Streaming.advance_eq rfl]
      split
      · next hstream => exact absurd (Streaming.inStream_pos hstream) (Nat.lt_irrefl 0)
      · exact .inl rfl
    | false =>
      have hcur : custom = v.streamed dst := by
        rw [hcustom]
        refine if_neg ?_
        rw [hgap]
        simp [hon.ne']
      subst hcur
      have hfound : (v.server.updatePeer dst
          (fun _ => { p' with steppingDown := leaving })).findPeer dst =
          some { p' with steppingDown := leaving } := findPeer_updated hp hid
      have hnext := congrArg (Option.map Peer.nextLogIdx) hfound
      have hmoved : Room gap _ p'.nextLogIdx :=
        advance_room hon hgap hdst hroom hbuilt hnext (fun hpos => hfit hpos p hp)
      exact hmoved
  · rw [if_neg hq'dst, update_of_ne hq'dst]
    exact hw q' hq'

theorem response_room (hw : WithinWindow gap v) (hgap : c.maxGap = gap)
    (htype : resp.type = .appendEntries) (hfit : Fits gap v (.response resp))
    (hstep : v.server.step env (.response resp) = some (t, o)) (hlead : t.role = .leader) :
    ∀ q ∈ t.peers, Room gap (v.restream c t (.response resp) o q.id) q.nextLogIdx := by
  cases hstep
  intro q hq
  dsimp only [Streaming.restream]
  dsimp only [handlePeerResp] at hq hlead
  split at hq
  · next hnew =>
    -- a newer term makes a follower
    unfold updateTerm at hnew hlead
    split at hlead
    · simp at hlead
    · next hold =>
      rw [if_neg hold] at hnew
      cases hnew
  next hold =>
  rw [if_neg hold] at hlead
  rw [htype] at hq hlead
  rw [if_pos ⟨htype, updateTerm_old hold⟩]
  rcases handleAppendEntriesResp_next resp hlead q hq with
    ⟨hne, p, hp, hid, hnext⟩ | ⟨hsrc, hfound, hnext⟩
  · rw [update_of_ne hne, ← hid, ← hnext]
    exact hw p hp
  · rw [hsrc, update_self]
    unfold Streaming.respond
    split
    · exact .inl rfl
    next hrejected =>
    have hacc : resp.accepted = true := by simpa using hrejected
    rw [hnext hacc]
    split
    · -- the stream starts right before the next index
      exact .inr (by omega)
    obtain ⟨p, hp⟩ := isSome_iff_exists.mp hfound
    have hid : p.id = resp.src := by simpa using find?_some hp
    rcases Nat.eq_zero_or_pos (v.streamed resp.src) with hzero | hpos
    · exact .inl hzero
    · have hroom : Room gap (v.streamed resp.src) p.nextLogIdx :=
        hid ▸ hw p (mem_of_find?_eq_some hp)
      exact hroom.mono (hfit hacc hpos p hp)

theorem handleCliReq_peers (s : RaftServer) (env : Env) (bufs : List Bytes) :
    (s.handleCliReq env bufs).1.peers = s.peers := by
  unfold handleCliReq
  split
  · rfl
  rw [appendBufs_eq]
  split <;> rfl

theorem restream_room {input : Input} (hon : 0 < gap) (hw : WithinWindow gap v)
    (hgap : c.maxGap = gap) (hex : Exchange input) (hfit : Fits gap v input)
    (hasks : v.Asks c input) (hstep : v.server.step env input = some (t, o))
    (hlead : t.role = .leader) :
    ∀ q ∈ t.peers, Room gap (v.restream c t input o q.id) q.nextLogIdx := by
  cases input with
  | sendAppend dst reconnect custom => exact sendAppend_room hon hw hgap hasks hfit hstep
  | response resp => exact response_room hw hgap hex hfit hstep hlead
  | request req =>
    cases hbody : req.body with
    | clientRequest bufs =>
      have hsame : t.peers = v.server.peers := by
        change v.server.processReq env req = _ at hstep
        rw [processReq, hbody] at hstep
        cases hstep
        rw [handleCliReq_peers]
        exact core_peers (updateTermOnReq_steady _ req).core
      rwa [hsame]
    | _ =>
      simp only [Exchange, hbody] at hex
  | _ => exact hex.elim

theorem next_window (hon : 0 < gap) (hw : WithinWindow gap x.base) (hgap : a.1.maxGap = gap)
    (hex : Exchange a.2.2) (hfit : Fits gap x.base a.2.2) (h : x.next peer a = some y)
    (hlead : y.base.server.role = .leader) : WithinWindow gap y.base := by
  obtain ⟨t, o, hasks, hstep, hserver, hstreams, -⟩ := next_cases h
  rw [hserver] at hlead
  intro q hq
  rw [hserver] at hq
  rcases hstreams q.id with hzero | hsame
  · exact .inl hzero
  · rw [hsame]
    exact restream_room hon hw hgap hex hfit hasks hstep hlead q hq

/-! ## Every run -/

/-- A step of a leader whose parameters are fixed. -/
def OnLeader (gap : Nat) (x : StreamRun) (a : StreamEnv × Env × Input) : Prop :=
  x.base.server.role = .leader ∧ a.1.maxGap = gap ∧ Exchange a.2.2

instance (gap : Nat) (x : StreamRun) (a : StreamEnv × Env × Input) : Decidable (OnLeader gap x a) :=
  inferInstanceAs (Decidable (_ ∧ _))

/-- The ranges sent in stream mode are contiguous, and a leader has at most `gap` logs in flight. -/
structure Windowed (gap : Nat) (peer : Int) (x : StreamRun) : Prop where
  contiguous : StreamTrace x.events (x.base.streamed peer)
  capped : x.base.server.role = .leader → ∀ p ∈ x.base.server.findPeer peer, x.base.inFlight p ≤ gap

theorem WithinWindow.inFlight_le (h : WithinWindow gap v) {p : Peer} (hp : p ∈ v.server.peers) :
    v.inFlight p ≤ gap := by
  unfold Streaming.inFlight
  rcases h p hp with hzero | hle
  · rw [hzero, Nat.zero_sub]
    exact Nat.zero_le _
  · omega

/-- From any leader without streams. -/
theorem window {s : RaftServer} {as : List (StreamEnv × Env × Input)} (hon : 0 < gap)
    (hcond : Runs.AllSteps (next peer)
      (fun z a => OnLeader gap z a ∧ Fits gap z.base a.2.2) ⟨⟨s, fun _ => 0⟩, []⟩ as)
    (hrun : Runs.run (next peer) ⟨⟨s, fun _ => 0⟩, []⟩ as = some x) : x.Windowed gap peer := by
  have hinv : StreamTrace x.events (x.base.streamed peer) ∧
      (x.base.server.role = .leader → WithinWindow gap x.base) := by
    refine Runs.invariant_of_allSteps (I := fun z => StreamTrace z.events (z.base.streamed peer) ∧
        (z.base.server.role = .leader → WithinWindow gap z.base)) ?_ ?_ hcond hrun
    · rintro z a z' ⟨htrace, hw⟩ ⟨⟨hlead, hgap, hex⟩, hfit⟩ hstep
      exact ⟨next_trace htrace hstep, next_window hon (hw hlead) hgap hex hfit hstep⟩
    · exact ⟨.start, fun _ p _ => .inl rfl⟩
  refine ⟨hinv.1, fun hlead p hp => ?_⟩
  exact (hinv.2 hlead).inFlight_le (mem_of_find?_eq_some hp)

end StreamRun

/-- Server `1` right after its election, with its configuration as the only entry. -/
def newlyElected : Option RaftServer :=
  Runs.run RaftServer.next (RaftServer.fresh 1 {} threeVoters.config) (leadsAndFollows.take 3)

def withGap (gap : Nat) (inputs : List RaftServer.Input) :
    List (StreamEnv × Env × RaftServer.Input) :=
  inputs.map (fun input => ({ maxGap := gap }, ({} : Env), input))

/-- The first request and its response start a stream; then the client's data is streamed. -/
def streamsBatch (bufs : List Bytes) : List RaftServer.Input :=
  [.sendAppend 2 false 0, .response ⟨1, .appendEntries, 2, 1, 2, true, .ok, .none, false, false⟩,
    .request (Cluster.clientReq 1 bufs),
    .sendAppend 2 false 1]

/-- A batch of two in a window of two; a third log waits for the response. -/
def streamsInWindow : List (StreamEnv × Env × RaftServer.Input) :=
  withGap 2 (streamsBatch [[7], [8]] ++ [.request (Cluster.clientReq 1 [[9]]),
      .sendAppend 2 false 3,
      .response ⟨1, .appendEntries, 2, 1, 4, true, .ok, .none, false, false⟩,
      .sendAppend 2 false 3])

theorem streamsInWindow_windowed : ∃ s x, newlyElected = some s ∧
      Runs.run (StreamRun.next 2) ⟨⟨s, fun _ => 0⟩, []⟩ streamsInWindow = some x ∧
      x.base.streamed 2 = 4 ∧ x.events.length = 3 ∧ x.Windowed 2 2 := by
  have hend : (newlyElected.bind fun s =>
      (Runs.run (StreamRun.next 2) ⟨⟨s, fun _ => 0⟩, []⟩ streamsInWindow).map fun x =>
        (decide (Runs.AllSteps (StreamRun.next 2)
          (fun z a => StreamRun.OnLeader 2 z a ∧ StreamRun.Fits 2 z.base a.2.2)
          ⟨⟨s, fun _ => 0⟩, []⟩ streamsInWindow), x.base.streamed 2, x.events.length)) =
      some (true, 4, 3) := by
    decide +kernel
  obtain ⟨s, hs, hmap⟩ := bind_eq_some_iff.mp hend
  obtain ⟨x, hrun, heq⟩ := map_eq_some_iff.mp hmap
  simp only [Prod.mk.injEq] at heq
  obtain ⟨hsteps, hstream, hevents⟩ := heq
  exact ⟨s, x, hs, hrun, hstream, hevents,
    StreamRun.window (by decide) (of_decide_eq_true hsteps) hrun⟩

def burstOfThree : List (StreamEnv × Env × RaftServer.Input) :=
  withGap 1 (streamsBatch [[7], [8], [9]])

/-- A batch of three in a window of one. -/
theorem batch_exceeds_window : ∃ s x p, newlyElected = some s ∧
      Runs.AllSteps (StreamRun.next 2) (StreamRun.OnLeader 1) ⟨⟨s, fun _ => 0⟩, []⟩ burstOfThree ∧
      Runs.run (StreamRun.next 2) ⟨⟨s, fun _ => 0⟩, []⟩ burstOfThree = some x ∧
      x.base.server.role = .leader ∧ x.base.server.findPeer 2 = some p ∧
      x.base.inFlight p = 3 ∧ ¬ x.Windowed 1 2 := by
  have hend : (newlyElected.bind fun s =>
      (Runs.run (StreamRun.next 2) ⟨⟨s, fun _ => 0⟩, []⟩ burstOfThree).bind
        fun x => (x.base.server.findPeer 2).map fun p =>
        (decide (Runs.AllSteps (StreamRun.next 2) (StreamRun.OnLeader 1)
          ⟨⟨s, fun _ => 0⟩, []⟩ burstOfThree),
          decide (x.base.server.role = .leader), x.base.inFlight p)) =
      some (true, true, 3) := by
    decide +kernel
  obtain ⟨s, hs, hbind⟩ := bind_eq_some_iff.mp hend
  obtain ⟨x, hrun, hmap⟩ := bind_eq_some_iff.mp hbind
  obtain ⟨p, hp, heq⟩ := map_eq_some_iff.mp hmap
  simp only [Prod.mk.injEq] at heq
  obtain ⟨hsteps, hlead, hflight⟩ := heq
  have hleader := of_decide_eq_true hlead
  refine ⟨s, x, p, hs, of_decide_eq_true hsteps, hrun, hleader, hp, hflight, fun hw => ?_⟩
  have hcap := hw.capped hleader p hp
  omega

end Raft
end Xio
