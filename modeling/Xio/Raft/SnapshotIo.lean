import Xio.Lib.KeyedList
import Xio.Raft.Cluster

/-!
# Raft.SnapshotIo — the queue of the snapshot thread

With `use_bg_thread_for_snapshot_io_` the servers of a process leave the reading of snapshots to one
thread. `push` puts a request into its queue unless there is one for the same server and peer. An
iteration of `async_io_loop` works on a copy of the queue. It reads an object for each request and
sends it, or keeps the request for later if the peer is busy. In the end everything copied is taken
out of the queue, and what was kept is put back.

The loop leaves at the first request whose server does not lead, and the requests behind it are
taken out all the same, whoever they belong to. A request that `drop_reqs` removed in the meantime
is put back, too.

`ρ` names the servers of the process. The lock of the queue makes `push`, `drop_reqs`, the copy and
the end of an iteration one step each. Between them the loop checks the role of a server and later
reads and sends, and all servers go on.
-/

namespace Xio
namespace Raft

open List Option

variable {ρ : Type} [DecidableEq ρ]

/-- `io_queue_elem`: `ref` is the identity of the object, which the loop compares. -/
structure IoElem (ρ : Type) where
  ref : Nat
  raft : ρ
  dst : Int
  snapshot : Snapshot
  deriving DecidableEq, Repr

/-- What `push` looks for. -/
def IoElem.key (e : IoElem ρ) : ρ × Int := (e.raft, e.dst)

inductive ReadFailure
  /-- The context of a member is reset, and the transfer starts again. -/
  | contextCleared
  /-- The joining server is asked again with the next heartbeat. -/
  | joinRetried
  | stale
  deriving DecidableEq, Repr

/-- Where the loop over the copied requests is. -/
inductive IoPhase (ρ : Type)
  | next (rest : List (IoElem ρ))
  /-- The server was leader, and the object at `offset` is being read. -/
  | reading (e : IoElem ρ) (offset : Nat) (rest : List (IoElem ρ))
  | left
  deriving DecidableEq, Repr

/-- The requests that the loop has not handled. -/
def IoPhase.ahead : IoPhase ρ → List (IoElem ρ)
  | .next rest => rest
  | .reading e _ rest => e :: rest
  | .left => []

/-- An iteration of `async_io_loop`. `entitled` has the copied requests whose server has been leader
in every state since the copy and was not dropped; the code does not keep it. -/
structure IoIteration (ρ : Type) where
  reqs : List (IoElem ρ)
  phase : IoPhase ρ
  reqsToReturn : List (IoElem ρ) := []
  sent : List (IoElem ρ × ReqMsg) := []
  failed : List (IoElem ρ × ReadFailure) := []
  entitled : List (IoElem ρ)
  deriving DecidableEq, Repr

namespace IoIteration

variable {it : IoIteration ρ}

/-- The requests of a server lose their claim. -/
def forget (it : IoIteration ρ) (r : ρ) : IoIteration ρ :=
  { it with entitled := it.entitled.filter (fun e => e.raft != r) }

/-- The request was handed to the peer, in a message that carries its snapshot. -/
def SentTo (it : IoIteration ρ) (e : IoElem ρ) : Prop :=
  ∃ m, (e, m) ∈ it.sent ∧ m.dst = e.dst ∧
    ∃ offset isLast, m.body = .installSnapshot (some ⟨e.snapshot, offset, isLast⟩)

def Reported (it : IoIteration ρ) (e : IoElem ρ) : Prop := ∃ f, (e, f) ∈ it.failed

/-- An iteration against the queue: the copied requests are still in it, those to be returned come in
the order of the copy, and every entitled request is handled or lies ahead. -/
structure Inv (it : IoIteration ρ) (queue : List (IoElem ρ)) : Prop where
  nodup : it.reqs.Nodup
  copied : ∀ e ∈ it.reqs, e ∈ queue
  order : (it.reqsToReturn ++ it.phase.ahead).Sublist it.reqs
  handled : ∀ e ∈ it.entitled,
    it.SentTo e ∨ it.Reported e ∨ e ∈ it.reqsToReturn ∨ e ∈ it.phase.ahead

theorem Inv.forget {queue : List (IoElem ρ)} (h : it.Inv queue) (r : ρ) : (it.forget r).Inv queue :=
  ⟨h.nodup, h.copied, h.order, fun e he => h.handled e (mem_filter.mp he).1⟩

omit [DecidableEq ρ] in
theorem Inv.mono {queue queue' : List (IoElem ρ)} (h : it.Inv queue)
    (hsub : ∀ e ∈ it.reqs, e ∈ queue → e ∈ queue') : it.Inv queue' :=
  ⟨h.nodup, fun e he => hsub e he (h.copied e he), h.order, h.handled⟩

omit [DecidableEq ρ] in
theorem Inv.of_ahead {queue : List (IoElem ρ)} (h : it.Inv queue) {phase : IoPhase ρ}
    (hahead : phase.ahead = it.phase.ahead) : ({ it with phase := phase } : IoIteration ρ).Inv queue where
  nodup := h.nodup
  copied := h.copied
  order := by
    dsimp only
    rw [hahead]
    exact h.order
  handled := by
    dsimp only
    rw [hahead]
    exact h.handled

end IoIteration

/-- The manager with the servers of the process; `busy` has the flags of their peers. -/
structure SnapshotIo (ρ : Type) where
  srv : ρ → RaftServer
  busy : ρ → Int → Bool := fun _ _ => false
  queue : List (IoElem ρ) := []
  nextRef : Nat := 0
  iter : Option (IoIteration ρ) := none

namespace SnapshotIo

variable (v : SnapshotIo ρ)

/-! ## The queue -/

def hasPendingRequest (r : ρ) (dst : Int) : Bool :=
  v.queue.any (fun e => e.raft == r && e.dst == dst)

/-- `push`: a second request for the same server and peer is ignored. -/
def push (r : ρ) (dst : Int) (snp : Snapshot) : SnapshotIo ρ :=
  if v.hasPendingRequest r dst then v
  else { v with queue := v.queue ++ [⟨v.nextRef, r, dst, snp⟩], nextRef := v.nextRef + 1 }

def dropReqs (r : ρ) : SnapshotIo ρ :=
  { v with
    queue := v.queue.filter (fun e => e.raft != r)
    iter := v.iter.map (·.forget r) }

/-! ## One iteration -/

def copyQueue : IoIteration ρ :=
  { reqs := v.queue
    phase := .next v.queue
    entitled := v.queue.filter (fun e => (v.srv e.raft).isLeader) }

/-- The message for the object at `offset`. -/
def installReq (s : RaftServer) (e : IoElem ρ) (offset : Nat) (isLast : Bool) : ReqMsg :=
  { term := s.state.term
    src := s.id
    dst := e.dst
    lastLogTerm := e.snapshot.lastLogTerm
    lastLogIdx := e.snapshot.lastLogIdx
    commitIdx := s.quickCommitIndex
    body := .installSnapshot (some ⟨e.snapshot, offset, isLast⟩) }

def readFailure (s : RaftServer) (dst : Int) : ReadFailure :=
  if (s.findPeer dst).isSome then .contextCleared
  else if s.srvToJoin.isSome then .joinRetried
  else .stale

def afterFailure (s : RaftServer) (dst : Int) : RaftServer :=
  if (s.findPeer dst).isSome then s.updatePeer dst (fun p => { p with snpSyncCtx := none }) else s

/-- The next turn of the loop up to the read; the loop ends, or is left where the server does not
lead. -/
def look (it : IoIteration ρ) (offset : Nat) : Option (IoIteration ρ) :=
  match it.phase with
  | .next [] => some { it with phase := .left }
  | .next (e :: rest) =>
    if (v.srv e.raft).isLeader then some { it with phase := .reading e offset rest }
    else some { it with phase := .left }
  | _ => none

/-- The rest of the turn: `none` is a failed read, and `some` tells whether the object is the last
one. A request counts as sent once it is handed to the peer; the peer drops it if it has no
connection. -/
def read (it : IoIteration ρ) (result : Option Bool) : Option (SnapshotIo ρ) :=
  match it.phase with
  | .reading e offset rest =>
    match result with
    | none =>
      some { v with
        srv := Function.update v.srv e.raft (afterFailure (v.srv e.raft) e.dst)
        iter := some { it with
          phase := .next rest
          failed := it.failed ++ [(e, readFailure (v.srv e.raft) e.dst)] } }
    | some isLast =>
      if v.busy e.raft e.dst then
        some { v with iter := some { it with
          phase := .next rest, reqsToReturn := it.reqsToReturn ++ [e] } }
      else
        some { v with
          busy := Function.update v.busy e.raft (Function.update (v.busy e.raft) e.dst true)
          iter := some { it with
            phase := .next rest
            sent := it.sent ++ [(e, installReq (v.srv e.raft) e offset isLast)] } }
  | _ => none

/-- All copied requests leave the queue, and those for busy peers come back. -/
def finish (it : IoIteration ρ) : SnapshotIo ρ :=
  { v with queue := KeyedList.giveBack v.queue it.reqs it.reqsToReturn, iter := none }

/-! ## Steps -/

inductive Action (ρ : Type)
  | push (r : ρ) (dst : Int) (snp : Snapshot)
  | dropReqs (r : ρ)
  /-- Any step of a server, role changes among them. -/
  | serve (r : ρ) (env : Env) (input : RaftServer.Input)
  /-- Other requests to a peer, and their responses. -/
  | setBusy (r : ρ) (dst : Int) (busy : Bool)
  | copy
  | look (offset : Nat)
  | read (result : Option Bool)
  | finish
  deriving DecidableEq, Repr

/-- A server that does not lead after its step has not led all the time. -/
def serve (r : ρ) (t : RaftServer) : SnapshotIo ρ :=
  { v with
    srv := Function.update v.srv r t
    iter := if t.isLeader then v.iter else v.iter.map (·.forget r) }

def step : Action ρ → Option (SnapshotIo ρ)
  | .push r dst snp => some (v.push r dst snp)
  | .dropReqs r => some (v.dropReqs r)
  | .serve r env input => ((v.srv r).next (env, input)).map (v.serve r)
  | .setBusy r dst b =>
    some { v with busy := Function.update v.busy r (Function.update (v.busy r) dst b) }
  | .copy => if v.iter.isNone then some { v with iter := some v.copyQueue } else none
  | .look offset =>
    (v.iter.bind (v.look · offset)).map (fun it => { v with iter := some it })
  | .read result => v.iter.bind (v.read · result)
  | .finish => v.iter.bind (fun it => if it.phase = .left then some (v.finish it) else none)

/-! ## What an iteration owes to its requests -/

def OnePerPeer : Prop := KeyedList.UniqueKeys IoElem.key v.queue

/-- Every request that the end of an iteration takes out, whose server has led all the time and was
not dropped, was sent or reported, or is in the queue again. -/
def Conserves (a : Action ρ) : Prop :=
  a = .finish → ∀ it ∈ v.iter, ∀ w, v.step a = some w →
    ∀ e ∈ it.entitled, it.SentTo e ∨ it.Reported e ∨ e ∈ w.queue

/-- The server of the request that the loop comes to is leader. -/
def headLeads (it : IoIteration ρ) : Bool :=
  match it.phase with
  | .next (e :: _) => (v.srv e.raft).isLeader
  | _ => true

/-- The loop meets leaders only, and no server is dropped of which it has a request. -/
def Undisturbed : Action ρ → Prop
  | .look _ => ∀ it ∈ v.iter, v.headLeads it = true
  | .dropReqs r => ∀ it ∈ v.iter, ∀ e ∈ it.reqs, e.raft ≠ r
  | _ => True

instance (v : SnapshotIo ρ) (a : Action ρ) : Decidable (v.Undisturbed a) := by
  cases a <;> (dsimp only [Undisturbed]; infer_instance)

/-! ## The invariant -/

structure Inv : Prop where
  single : v.OnePerPeer
  iter : ∀ it ∈ v.iter, it.Inv v.queue

variable {v} {w : SnapshotIo ρ} {it : IoIteration ρ}

theorem mem_queue_of_hasPendingRequest {r : ρ} {dst : Int} :
    v.hasPendingRequest r dst = true ↔ ∃ e ∈ v.queue, e.key = (r, dst) := by
  simp [hasPendingRequest, IoElem.key, Prod.ext_iff]

theorem push_inv (hv : v.Inv) (r : ρ) (dst : Int) (snp : Snapshot) : (v.push r dst snp).Inv := by
  unfold push
  split
  · exact hv
  · next hno =>
    refine ⟨hv.single.concat ?_, fun it hit => (hv.iter it hit).mono ?_⟩
    · intro e he hkey
      exact hno (mem_queue_of_hasPendingRequest.mpr ⟨e, he, hkey⟩)
    · exact fun e _ he => mem_append_left _ he

theorem dropReqs_inv (hv : v.Inv) {r : ρ} (hcond : v.Undisturbed (.dropReqs r)) :
    (v.dropReqs r).Inv := by
  refine ⟨hv.single.sublist filter_sublist, ?_⟩
  intro it' hit'
  obtain ⟨it, hit, rfl⟩ := map_eq_some_iff.mp hit'
  refine ((hv.iter it hit).mono ?_).forget r
  -- the requests of the iteration belong to other servers
  intro e he hqueue
  exact mem_filter.mpr ⟨hqueue, by simpa using hcond it hit e he⟩

theorem serve_inv (hv : v.Inv) (r : ρ) (t : RaftServer) : (v.serve r t).Inv := by
  refine ⟨hv.single, fun it' hit' => ?_⟩
  unfold serve at hit'
  split at hit'
  · exact hv.iter it' hit'
  · obtain ⟨it, hit, rfl⟩ := map_eq_some_iff.mp hit'
    exact (hv.iter it hit).forget r

omit [DecidableEq ρ] in
theorem copy_inv (hv : v.Inv) : ({ v with iter := some v.copyQueue } : SnapshotIo ρ).Inv := by
  refine ⟨hv.single, ?_⟩
  rintro it ⟨⟩
  refine ⟨hv.single.nodup, fun e he => he, Sublist.refl _, ?_⟩
  intro e he
  exact .inr (.inr (.inr (mem_filter.mp he).1))

omit [DecidableEq ρ] in
theorem look_inv (hv : v.Inv) (hit : it ∈ v.iter) {offset : Nat} {it' : IoIteration ρ}
    (hlead : v.headLeads it = true) (h : v.look it offset = some it') : it'.Inv v.queue := by
  have hinv := hv.iter it hit
  unfold look at h
  unfold headLeads at hlead
  split at h
  · next hphase =>
    cases h
    exact hinv.of_ahead (hphase ▸ rfl)
  · next e rest hphase =>
    rw [hphase] at hlead
    rw [if_pos hlead] at h
    cases h
    exact hinv.of_ahead (hphase ▸ rfl)
  · cases h

theorem read_inv (hv : v.Inv) (hit : it ∈ v.iter) {result : Option Bool}
    (h : v.read it result = some w) : w.Inv := by
  have hinv := hv.iter it hit
  unfold read at h
  split at h
  · next e offset rest hphase =>
    have horder : (it.reqsToReturn ++ e :: rest).Sublist it.reqs := by
      have hsub := hinv.order
      rwa [hphase] at hsub
    have hpassed : (it.reqsToReturn ++ rest).Sublist it.reqs :=
      ((sublist_cons_self e rest).append_left it.reqsToReturn).trans horder
    have hhandled : ∀ e' ∈ it.entitled, it.SentTo e' ∨ it.Reported e' ∨ e' ∈ it.reqsToReturn ∨
        e' = e ∨ e' ∈ rest := by
      intro e' he'
      have hcases := hinv.handled e' he'
      rw [hphase] at hcases
      simpa only [IoPhase.ahead, mem_cons] using hcases
    split at h
    · cases h
      refine ⟨hv.single, ?_⟩
      rintro it' ⟨⟩
      refine ⟨hinv.nodup, hinv.copied, hpassed, fun e' he' => ?_⟩
      rcases hhandled e' he' with hsent | ⟨f, hf⟩ | hret | rfl | hrest
      · exact .inl hsent
      · exact .inr (.inl ⟨f, mem_append_left _ hf⟩)
      · exact .inr (.inr (.inl hret))
      · exact .inr (.inl ⟨_, mem_append_right _ (mem_singleton.mpr rfl)⟩)
      · exact .inr (.inr (.inr hrest))
    split at h
    · cases h
      refine ⟨hv.single, ?_⟩
      rintro it' ⟨⟩
      refine ⟨hinv.nodup, hinv.copied, ?_, fun e' he' => ?_⟩
      · -- the request moves from the front of what is ahead to the end of what is returned
        simpa only [IoPhase.ahead, append_assoc, singleton_append] using horder
      · rcases hhandled e' he' with hsent | hfail | hret | rfl | hrest
        · exact .inl hsent
        · exact .inr (.inl hfail)
        · exact .inr (.inr (.inl (mem_append_left _ hret)))
        · exact .inr (.inr (.inl (mem_append_right _ (mem_singleton.mpr rfl))))
        · exact .inr (.inr (.inr hrest))
    · cases h
      refine ⟨hv.single, ?_⟩
      rintro it' ⟨⟩
      refine ⟨hinv.nodup, hinv.copied, hpassed, fun e' he' => ?_⟩
      rcases hhandled e' he' with ⟨m, hm, hmsg⟩ | hfail | hret | rfl | hrest
      · exact .inl ⟨m, mem_append_left _ hm, hmsg⟩
      · exact .inr (.inl hfail)
      · exact .inr (.inr (.inl hret))
      · exact .inl ⟨_, mem_append_right _ (mem_singleton.mpr rfl), rfl, _, _, rfl⟩
      · exact .inr (.inr (.inr hrest))
  · cases h

theorem finish_inv (hv : v.Inv) (hit : it ∈ v.iter) : (v.finish it).Inv := by
  have hinv := hv.iter it hit
  refine ⟨?_, fun it' hit' => (nomatch hit')⟩
  exact hv.single.giveBack hinv.copied ((sublist_append_left _ _).trans hinv.order) hinv.nodup

theorem step_inv (hv : v.Inv) {a : Action ρ} (hcond : v.Undisturbed a) (h : v.step a = some w) :
    w.Inv := by
  cases a with
  | push r dst snp => cases h; exact push_inv hv r dst snp
  | dropReqs r => cases h; exact dropReqs_inv hv hcond
  | serve r env input =>
    obtain ⟨t, -, rfl⟩ := map_eq_some_iff.mp h
    exact serve_inv hv r t
  | setBusy r dst b => cases h; exact ⟨hv.single, hv.iter⟩
  | copy =>
    simp only [step] at h
    split at h
    · cases h
      exact copy_inv hv
    · cases h
  | look offset =>
    obtain ⟨it', hlook, rfl⟩ := map_eq_some_iff.mp h
    obtain ⟨it, hit, hit'⟩ := bind_eq_some_iff.mp hlook
    refine ⟨hv.single, ?_⟩
    rintro it'' ⟨⟩
    exact look_inv hv hit (hcond it hit) hit'
  | read result =>
    obtain ⟨it, hit, hread⟩ := bind_eq_some_iff.mp h
    exact read_inv hv hit hread
  | finish =>
    obtain ⟨it, hit, hfinish⟩ := bind_eq_some_iff.mp h
    split at hfinish
    · cases hfinish
      exact finish_inv hv hit
    · cases hfinish

theorem conserves (hv : v.Inv) (a : Action ρ) : v.Conserves a := by
  rintro rfl it hit w hstep e he
  obtain ⟨it', hit', hfinish⟩ := bind_eq_some_iff.mp hstep
  cases some.inj (hit.symm.trans hit')
  split at hfinish
  · next hleft =>
    cases hfinish
    rcases (hv.iter it hit).handled e he with hsent | hfail | hret | hahead
    · exact .inl hsent
    · exact .inr (.inl hfail)
    · exact .inr (.inr (KeyedList.mem_giveBack_of_mem hret))
    · rw [hleft] at hahead
      exact absurd hahead not_mem_nil
  · cases hfinish

/-! ## Every run -/

def initial (srv : ρ → RaftServer) (busy : ρ → Int → Bool) : SnapshotIo ρ := { srv, busy }

/-- In every run the queue has at most one request for a server and a peer, and every iteration
accounts for its requests. -/
theorem requests_conserved {srv : ρ → RaftServer} {busy : ρ → Int → Bool} {as : List (Action ρ)}
    (hcond : Runs.AllSteps step Undisturbed (initial srv busy) as) :
    (∀ w, Runs.run step (initial srv busy) as = some w → w.OnePerPeer) ∧
      Runs.AllSteps step (fun v a => v.OnePerPeer ∧ v.Conserves a) (initial srv busy) as := by
  have hinit : (initial srv busy).Inv := ⟨.nil _, fun it hit => (nomatch hit)⟩
  have hstep : ∀ (v : SnapshotIo ρ) a w, v.Inv → v.Undisturbed a → v.step a = some w → w.Inv :=
    fun v a w hv hc h => step_inv hv hc h
  refine ⟨fun w hw => (Runs.invariant_of_allSteps (I := Inv) hstep hinit hcond hw).single, ?_⟩
  have hinv := Runs.allSteps_of_invariant (I := Inv) hstep hinit hcond
  exact hinv.imp (fun v a hv => ⟨hv.single, conserves hv a⟩)

end SnapshotIo

/-! ## Two leaders in one process -/

/-- Each leads a group of two. -/
def twoLeaders (_ : Bool) : RaftServer :=
  { RaftServer.fresh 1 {} { servers := [{ id := 1 }, { id := 2 }] } with
    role := .leader, leader := 1, state := { term := 1 } }

def idlePeers (_ : Bool) (_ : Int) : Bool := false

def snapshotOfFive : Snapshot := ⟨5, 1, { servers := [{ id := 1 }, { id := 2 }] }⟩

/-- The first request is sent, and the second one waits for a busy peer. -/
def sendAndReturn : List (SnapshotIo.Action Bool) :=
  [.push false 2 snapshotOfFive, .push true 2 snapshotOfFive, .setBusy true 2 true, .copy, .look 0,
    .read (some true), .look 0, .read (some true), .look 0, .finish]

theorem sendAndReturn_conserved :
    (Runs.run SnapshotIo.step (SnapshotIo.initial twoLeaders idlePeers) sendAndReturn).map
        (fun w => w.queue.map IoElem.key) = some [(true, 2)] ∧
      Runs.AllSteps SnapshotIo.step (fun v a => v.OnePerPeer ∧ v.Conserves a)
        (SnapshotIo.initial twoLeaders idlePeers) sendAndReturn :=
  ⟨by decide +kernel, (SnapshotIo.requests_conserved (by decide +kernel)).2⟩

/-- The first server hears of a newer term when the loop has copied a request of each. -/
def stepsDownAhead : List (SnapshotIo.Action Bool) :=
  [.push false 2 snapshotOfFive, .push true 2 snapshotOfFive, .copy,
    .serve false {} (.response ⟨2, .appendEntries, 2, 1, 0, false, .ok, .none, false, false⟩),
    .look 0]

/-- The peer is busy, and its server is dropped and comes back before the iteration ends. -/
def dropsWhileBusy : List (SnapshotIo.Action Bool) :=
  [.push false 2 snapshotOfFive, .setBusy false 2 true, .copy, .look 0, .read (some true),
    .dropReqs false, .push false 2 snapshotOfFive, .look 0, .finish]

/-- The request of a server that leads all the time is lost, and two requests for one peer are in
the queue. -/
theorem requests_lost_and_doubled :
    (∃ v, Runs.run SnapshotIo.step (SnapshotIo.initial twoLeaders idlePeers) stepsDownAhead = some v ∧
      ¬ v.Conserves .finish) ∧
    ∃ w, Runs.run SnapshotIo.step (SnapshotIo.initial twoLeaders idlePeers) dropsWhileBusy = some w ∧
      ¬ w.OnePerPeer := by
  refine ⟨?_, ?_⟩
  · have hend : (Runs.run SnapshotIo.step (SnapshotIo.initial twoLeaders idlePeers)
        stepsDownAhead).bind (fun v => v.iter.bind fun it => (v.step .finish).map fun w =>
          (it, w.queue)) =
        some (⟨[⟨0, false, 2, snapshotOfFive⟩, ⟨1, true, 2, snapshotOfFive⟩], .left, [], [], [],
          [⟨1, true, 2, snapshotOfFive⟩]⟩, []) := by
      decide +kernel
    obtain ⟨v, hv, hrest⟩ := bind_eq_some_iff.mp hend
    obtain ⟨it, hit, hmap⟩ := bind_eq_some_iff.mp hrest
    obtain ⟨w, hw, heq⟩ := map_eq_some_iff.mp hmap
    simp only [Prod.mk.injEq] at heq
    obtain ⟨rfl, hqueue⟩ := heq
    refine ⟨v, hv, fun hcons => ?_⟩
    rcases hcons rfl _ hit w hw ⟨1, true, 2, snapshotOfFive⟩ (mem_singleton.mpr rfl) with
      ⟨m, hm, -⟩ | ⟨f, hf⟩ | hmem
    · cases hm
    · cases hf
    · cases hqueue ▸ hmem
  · have hend : (Runs.run SnapshotIo.step (SnapshotIo.initial twoLeaders idlePeers)
        dropsWhileBusy).map (fun w => w.queue.map IoElem.key) = some [(false, 2), (false, 2)] := by
      decide +kernel
    obtain ⟨w, hw, hkeys⟩ := map_eq_some_iff.mp hend
    refine ⟨w, hw, fun hone => ?_⟩
    rw [SnapshotIo.OnePerPeer, KeyedList.UniqueKeys, hkeys] at hone
    exact absurd hone (by decide)

end Raft
end Xio
