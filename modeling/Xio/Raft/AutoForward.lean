import Xio.Lib.Conservation
import Xio.Lib.Runs
import Xio.Raft.Types

/-!
# Raft.AutoForward — requests that a follower forwards to its leader

In the asynchronous mode `send_msg_to_leader` looks for a connection in the package of the server
that is `leader_` at the moment. With no idle connection and no room for another one, the request
goes to the queue `auto_fwd_reqs_`. A connection whose response has arrived takes the first request
of that queue, or goes back to the idle list of its package.

There is a package for each leader but one queue for all of them, so a request may be taken by a
connection to an earlier leader. Apart from that nothing is lost: a request waits only while some
connection is in use, and each step brings the requests closer to their results.
-/

namespace Xio
namespace Raft

open Conservation Function
open List hiding beq_eq_decide

/-- An `rpc_client`, with the endpoint that it was created for. -/
structure RpcConn where
  id : Nat
  endpoint : Bytes
  deriving DecidableEq, Repr

structure AutoFwdPkg where
  rpcClientIdle : List RpcConn := []
  rpcClientInUse : List RpcConn := []
  deriving DecidableEq, Repr

/-- A forwarded request, numbered like its `cmd_result`, and `leader_` when it was issued. -/
structure FwdReq where
  id : Nat
  leader : Int
  deriving DecidableEq, Repr

/-- What an RPC handler is called with. -/
inductive RpcOutcome
  | error
  | response (accepted : Bool) (code : Int) (ctx : Option Bytes)
  deriving DecidableEq, Repr

/-- What `cmd_result` is set to. -/
structure FwdResult where
  accepted : Bool
  ctx : Option Bytes
  err : Bool
  code : Int
  deriving DecidableEq, Repr

/-- The result that `auto_fwd_resp_handler` sets; `-32768` is `FAILED`. -/
def autoFwdResult : RpcOutcome → FwdResult
  | .error => { accepted := false, ctx := none, err := true, code := -32768 }
  | .response accepted code ctx =>
    { accepted := accepted, ctx := if accepted then ctx else none, err := false, code := code }

/-- A connection in use, with the leader of the package it belongs to. -/
structure FwdLease where
  pkg : Int
  conn : RpcConn
  deriving DecidableEq, Repr

/-- A thread between two critical sections. -/
inductive FwdThread
  /-- Inside `send_msg_to_leader`, before it looks for a connection. -/
  | choosing (req : FwdReq)
  /-- Before it calls `send`. -/
  | sending (req : FwdReq) (l : FwdLease)
  /-- Before `auto_fwd_release_rpc_cli`. -/
  | releasing (l : FwdLease)
  deriving DecidableEq, Repr

namespace FwdThread

def reqs : FwdThread → List Nat
  | choosing req | sending req _ => [req.id]
  | releasing _ => []

def leases : FwdThread → List FwdLease
  | choosing _ => []
  | sending _ l | releasing l => [l]

end FwdThread

structure AutoForward where
  leader : Int := -1
  pkgs : Int → AutoFwdPkg := fun _ => {}
  autoFwdReqs : List FwdReq := []
  threads : List FwdThread := []
  /-- Requests whose handler is still to be called. -/
  inFlight : List (FwdReq × FwdLease) := []
  nextConn : Nat := 0
  /-- How many requests were forwarded, and the calls of `send`, of a handler and of `set_result`. -/
  calls : Nat := 0
  sends : List (FwdReq × RpcConn) := []
  replies : List (Nat × RpcOutcome) := []
  results : List (Nat × FwdResult) := []

namespace AutoForward

variable {idle : List RpcConn}

inductive Action
  | setLeader (id : Int)
  | call
  | choose (k : Nat) (maxConns : Nat) (abandoned : Bool)
  | send (k : Nat)
  | complete (j : Nat) (outcome : RpcOutcome)
  | release (k : Nat)
  deriving DecidableEq, Repr

-- the servers' endpoints in the configuration, and the id of this server
variable (endpoint : Int → Bytes) (self : Int) (x : AutoForward) {a : Action}

/-- The thread `k` goes on as the given ones. -/
def resume (k : Nat) (ts : List FwdThread) : AutoForward :=
  { x with threads := ts ++ x.threads.eraseIdx k }

def setPkg (id : Int) (pkg : AutoFwdPkg) : AutoForward :=
  { x with pkgs := Function.update x.pkgs id pkg }

def newConn (leader : Int) : RpcConn := ⟨x.nextConn, endpoint leader⟩

/-- The thread takes the connection `c` and leaves `idle`. -/
def takeConn (k : Nat) (req : FwdReq) (idle : List RpcConn) (c : RpcConn) : AutoForward :=
  { (x.setPkg req.leader
      { rpcClientIdle := idle
        rpcClientInUse := c :: (x.pkgs req.leader).rpcClientInUse }).resume k
      [.sending req ⟨req.leader, c⟩] with nextConn := x.nextConn + 1 }

/-- The critical section of `send_msg_to_leader`: an idle connection (made again if it is abandoned),
a new one, or the queue. -/
def findRpcCli (k : Nat) (req : FwdReq) (maxConns : Nat) (abandoned : Bool) : AutoForward :=
  match (x.pkgs req.leader).rpcClientIdle with
  | [] =>
    if (x.pkgs req.leader).rpcClientInUse.length < max 1 maxConns then
      x.takeConn k req [] (x.newConn endpoint req.leader)
    else { x.resume k [] with autoFwdReqs := x.autoFwdReqs ++ [req] }
  | c :: rest => x.takeConn k req rest (if abandoned then x.newConn endpoint req.leader else c)

/-- The critical section of `auto_fwd_release_rpc_cli`. -/
def autoFwdReleaseRpcCli (k : Nat) (l : FwdLease) : AutoForward :=
  match x.autoFwdReqs with
  | [] =>
    (x.setPkg l.pkg
      { rpcClientIdle := l.conn :: (x.pkgs l.pkg).rpcClientIdle
        rpcClientInUse := (x.pkgs l.pkg).rpcClientInUse.filter (fun c => c ≠ l.conn) }).resume k []
  | req :: rest => { x.resume k [.sending req l] with autoFwdReqs := rest }

def next : Action → Option AutoForward
  | .setLeader id => some { x with leader := id }
  | .call =>
    -- without a leader, or as the leader itself, nothing is forwarded
    if x.leader = -1 ∨ x.leader = self then some x
    else some { x with
      calls := x.calls + 1
      threads := .choosing ⟨x.calls, x.leader⟩ :: x.threads }
  | .choose k maxConns abandoned =>
    match x.threads[k]? with
    | some (.choosing req) => some (x.findRpcCli endpoint k req maxConns abandoned)
    | _ => none
  | .send k =>
    match x.threads[k]? with
    | some (.sending req l) =>
      some { x.resume k [] with
        inFlight := (req, l) :: x.inFlight
        sends := x.sends ++ [(req, l.conn)] }
    | _ => none
  | .complete j outcome =>
    match x.inFlight[j]? with
    | some (req, l) =>
      some { x with
        inFlight := x.inFlight.eraseIdx j
        replies := x.replies ++ [(req.id, outcome)]
        results := x.results ++ [(req.id, autoFwdResult outcome)]
        threads := .releasing l :: x.threads }
    | none => none
  | .release k =>
    match x.threads[k]? with
    | some (.releasing l) => some (x.autoFwdReleaseRpcCli k l)
    | _ => none

/-- A connection takes the request of the leader whose package it belongs to. -/
def InLine : Action → Prop
  | .release k =>
    match x.threads[k]?, x.autoFwdReqs with
    | some (.releasing l), req :: _ => req.leader = l.pkg
    | _, _ => True
  | _ => True

instance (a : Action) : Decidable (x.InLine a) := by
  cases a with
  | release k =>
    dsimp only [InLine]
    split <;> infer_instance
  | _ => exact isTrue trivial

/-! ## Where the requests and the connections are -/

def waitingIds : List Nat := x.autoFwdReqs.map FwdReq.id
def threadIds : List Nat := x.threads.flatMap FwdThread.reqs
def flightIds : List Nat := x.inFlight.map (fun r => r.1.id)
def resultIds : List Nat := x.results.map Prod.fst
def sendIds : List Nat := x.sends.map (fun r => r.1.id)

def leases : List FwdLease := x.threads.flatMap FwdThread.leases ++ x.inFlight.map Prod.snd

/-- Nothing is lost, at every point between two steps. -/
structure Placed : Prop where
  /-- A request waits, is in the hands of a thread, is in flight or has its result. -/
  held : Conserved (x.resultIds ++ (x.waitingIds ++ (x.threadIds ++ x.flightIds))) x.calls
  sent : x.sendIds.Perm (x.resultIds ++ x.flightIds)
  outcome : x.results = x.replies.map (fun r => (r.1, autoFwdResult r.2))
  /-- A connection in use is in the hands of a thread or has a request in flight. -/
  carried : ∀ id, ∀ c ∈ (x.pkgs id).rpcClientInUse, ⟨id, c⟩ ∈ x.leases
  waiting : x.autoFwdReqs ≠ [] → x.leases ≠ []

structure Aimed : Prop where
  /-- A package holds connections to its own leader. -/
  pooled : ∀ id, ∀ c ∈ (x.pkgs id).rpcClientIdle, c.endpoint = endpoint id
  leased : ∀ l ∈ x.leases, l.conn.endpoint = endpoint l.pkg
  sending : ∀ req l, .sending req l ∈ x.threads → l.conn.endpoint = endpoint req.leader
  sent : ∀ s ∈ x.sends, s.2.endpoint = endpoint s.1.leader

variable {endpoint self x} {y : AutoForward} {k : Nat} {t : FwdThread}

theorem threads_perm (h : x.threads[k]? = some t) : x.threads.Perm (t :: x.threads.eraseIdx k) := by
  obtain ⟨hk, ht⟩ := List.getElem?_eq_some_iff.mp h
  have hperm := getElem_cons_eraseIdx_perm hk
  rw [ht] at hperm
  exact hperm.symm

theorem count_threadIds (h : x.threads[k]? = some t) (i : Nat) :
    x.threadIds.count i = t.reqs.count i + ((x.threads.eraseIdx k).flatMap FwdThread.reqs).count i := by
  have hperm := (threads_perm h).flatMap_right FwdThread.reqs
  rw [threadIds, hperm.count_eq, flatMap_cons, count_append]

theorem mem_leases (h : x.threads[k]? = some t) {l : FwdLease} (hl : l ∈ x.leases) :
    l ∈ t.leases ∨
      l ∈ (x.threads.eraseIdx k).flatMap FwdThread.leases ++ x.inFlight.map Prod.snd := by
  rcases mem_append.mp hl with hthread | hflight
  · have hperm := (threads_perm h).flatMap_right FwdThread.leases
    rw [hperm.mem_iff, flatMap_cons, mem_append] at hthread
    exact hthread.imp_right (fun hrest => mem_append_left _ hrest)
  · exact .inr (mem_append_right _ hflight)

theorem mem_leases_of_erase {l : FwdLease}
    (hl : l ∈ (x.threads.eraseIdx k).flatMap FwdThread.leases ++ x.inFlight.map Prod.snd) :
    l ∈ x.leases := by
  rcases mem_append.mp hl with hthread | hflight
  · obtain ⟨t, ht, hmem⟩ := mem_flatMap.mp hthread
    exact mem_append_left _ (mem_flatMap.mpr ⟨t, mem_of_mem_eraseIdx ht, hmem⟩)
  · exact mem_append_right _ hflight

theorem mem_leases_of_thread {l : FwdLease} (ht : x.threads[k]? = some t) (hl : l ∈ t.leases) :
    l ∈ x.leases :=
  mem_append_left _ (mem_flatMap.mpr ⟨t, mem_of_getElem? ht, hl⟩)

/-! ## Nothing is lost -/

theorem placed_start (leader : Int) : Placed { leader := leader } where
  held := conserved_nil
  sent := Perm.refl _
  outcome := rfl
  carried _ _ hc := nomatch hc
  waiting h := absurd rfl h

theorem Placed.call (hx : x.Placed) : Placed { x with
    calls := x.calls + 1
    threads := .choosing ⟨x.calls, x.leader⟩ :: x.threads } :=
  { hx with
    held := by
      refine hx.held.issue (perm_iff_count.mpr fun i => ?_)
      simp only [resultIds, waitingIds, threadIds, flightIds, flatMap_cons, FwdThread.reqs,
        count_append, count_cons, count_nil]
      omega }

theorem Placed.takeConn (hx : x.Placed) {req : FwdReq}
    (ht : x.threads[k]? = some (.choosing req)) (idle : List RpcConn) (c : RpcConn) :
    (x.takeConn k req idle c).Placed := by
  have hnew : ⟨req.leader, c⟩ ∈ (x.takeConn k req idle c).leases :=
    mem_append_left _ mem_cons_self
  -- the thread had no connection before
  have hold {l : FwdLease} (hl : l ∈ x.leases) : l ∈ (x.takeConn k req idle c).leases := by
    rcases mem_leases ht hl with hmem | hmem
    · exact nomatch hmem
    · exact .tail _ hmem
  refine ⟨?_, hx.sent, hx.outcome, ?_, fun _ => ne_nil_of_mem hnew⟩
  · refine hx.held.move (perm_iff_count.mpr fun i => ?_)
    have hcount := count_threadIds ht i
    simp only [AutoForward.takeConn, resume, setPkg, resultIds, waitingIds, threadIds, flightIds,
      flatMap_append, flatMap_cons, flatMap_nil, append_nil, FwdThread.reqs,
      count_append] at hcount ⊢
    omega
  · intro id d hd
    simp only [AutoForward.takeConn, resume, setPkg, update_apply] at hd
    split at hd
    · next heq =>
      rw [heq]
      rcases mem_cons.mp hd with rfl | hd
      · exact hnew
      · exact hold (hx.carried req.leader d hd)
    · exact hold (hx.carried id d hd)

theorem Placed.queue (hx : x.Placed) {req : FwdReq} (ht : x.threads[k]? = some (.choosing req))
    (hbusy : (x.pkgs req.leader).rpcClientInUse ≠ []) :
    Placed { x.resume k [] with autoFwdReqs := x.autoFwdReqs ++ [req] } := by
  have hold {l : FwdLease} (hl : l ∈ x.leases) :
      l ∈ (x.threads.eraseIdx k).flatMap FwdThread.leases ++ x.inFlight.map Prod.snd := by
    rcases mem_leases ht hl with hmem | hmem
    · exact nomatch hmem
    · exact hmem
  refine ⟨?_, hx.sent, hx.outcome, fun id c hc => hold (hx.carried id c hc), fun _ => ?_⟩
  · refine hx.held.move (perm_iff_count.mpr fun i => ?_)
    have hcount := count_threadIds ht i
    simp only [FwdThread.reqs] at hcount
    simp only [resume, resultIds, waitingIds, threadIds, flightIds, nil_append,
      map_append, map_cons, map_nil, count_append] at hcount ⊢
    omega
  · obtain ⟨c, hc⟩ := exists_mem_of_ne_nil _ hbusy
    exact ne_nil_of_mem (hold (hx.carried req.leader c hc))

theorem Placed.findRpcCli (hx : x.Placed) {req : FwdReq}
    (ht : x.threads[k]? = some (.choosing req)) (maxConns : Nat) (abandoned : Bool) :
    (x.findRpcCli endpoint k req maxConns abandoned).Placed := by
  unfold AutoForward.findRpcCli
  split
  · split
    · exact hx.takeConn ht _ _
    · next hfull =>
      refine hx.queue ht ?_
      intro hnil
      rw [hnil] at hfull
      simp at hfull
  · exact hx.takeConn ht _ _

theorem Placed.send (hx : x.Placed) {req : FwdReq} {l : FwdLease}
    (ht : x.threads[k]? = some (.sending req l)) :
    Placed { x.resume k [] with
      inFlight := (req, l) :: x.inFlight
      sends := x.sends ++ [(req, l.conn)] } := by
  have hmem {m : FwdLease} (hm : m ∈ x.leases) :
      m ∈ (x.threads.eraseIdx k).flatMap FwdThread.leases ++ (l :: x.inFlight.map Prod.snd) := by
    have hperm := (threads_perm ht).flatMap_right FwdThread.leases
    simp only [leases, mem_append, hperm.mem_iff, flatMap_cons, FwdThread.leases,
      mem_cons, not_mem_nil, or_false] at hm ⊢
    tauto
  have hown := hmem (mem_leases_of_thread ht mem_cons_self)
  refine ⟨?_, ?_, hx.outcome, fun id c hc => hmem (hx.carried id c hc),
    fun _ => ne_nil_of_mem hown⟩
  · refine hx.held.move (perm_iff_count.mpr fun i => ?_)
    have hi := count_threadIds ht i
    simp only [resume, resultIds, waitingIds, threadIds, flightIds, FwdThread.reqs, nil_append,
      map_cons, count_append, count_cons, count_nil] at hi ⊢
    omega
  · refine perm_iff_count.mpr fun i => ?_
    have hi := perm_iff_count.mp hx.sent i
    simp only [resume, sendIds, resultIds, flightIds, map_append, map_cons,
      map_nil, count_append, count_cons, count_nil] at hi ⊢
    omega

theorem inFlight_perm {j : Nat} {r : FwdReq × FwdLease} (hj : x.inFlight[j]? = some r) :
    x.inFlight.Perm (r :: x.inFlight.eraseIdx j) := by
  obtain ⟨hlt, heq⟩ := List.getElem?_eq_some_iff.mp hj
  exact heq ▸ (getElem_cons_eraseIdx_perm hlt).symm

theorem mem_leases_completed {j : Nat} {req : FwdReq} {l m : FwdLease}
    (hj : x.inFlight[j]? = some (req, l)) :
    m ∈ (l :: x.threads.flatMap FwdThread.leases) ++ (x.inFlight.eraseIdx j).map Prod.snd ↔
      m ∈ x.leases := by
  have hsnd := (inFlight_perm hj).map Prod.snd
  simp only [leases, mem_append, hsnd.mem_iff, map_cons, mem_cons]
  tauto

theorem Placed.complete (hx : x.Placed) {j : Nat} {req : FwdReq} {l : FwdLease}
    (hj : x.inFlight[j]? = some (req, l)) (outcome : RpcOutcome) :
    Placed { x with
      inFlight := x.inFlight.eraseIdx j
      replies := x.replies ++ [(req.id, outcome)]
      results := x.results ++ [(req.id, autoFwdResult outcome)]
      threads := .releasing l :: x.threads } := by
  have hcount (i : Nat) := ((inFlight_perm hj).map (fun r => r.1.id)).count_eq i
  have hown : l ∈ (l :: x.threads.flatMap FwdThread.leases) ++
      (x.inFlight.eraseIdx j).map Prod.snd := mem_cons_self
  refine ⟨?_, ?_, ?_, ?_, fun _ => ne_nil_of_mem hown⟩
  · refine hx.held.move (perm_iff_count.mpr fun i => ?_)
    have hi := hcount i
    simp only [resultIds, waitingIds, threadIds, flightIds, flatMap_cons, FwdThread.reqs,
      nil_append, map_append, map_cons, map_nil, count_append,
      count_cons, count_nil] at hi ⊢
    omega
  · refine hx.sent.trans (perm_iff_count.mpr fun i => ?_)
    have hi := hcount i
    simp only [resultIds, flightIds, map_append, map_cons, map_nil,
      count_append, count_cons, count_nil] at hi ⊢
    omega
  · simp only [hx.outcome, map_append, map_cons, map_nil]
  · exact fun id c hc => (mem_leases_completed hj).mpr (hx.carried id c hc)

theorem mem_leases_handedOver {req : FwdReq} {l m : FwdLease}
    (ht : x.threads[k]? = some (.releasing l)) :
    m ∈ (x.resume k [.sending req l]).leases ↔ m ∈ x.leases := by
  have hperm := (threads_perm ht).flatMap_right FwdThread.leases
  simp only [leases, resume, mem_append, hperm.mem_iff, flatMap_append, flatMap_cons,
    flatMap_nil, FwdThread.leases, mem_cons, not_mem_nil, or_false]

theorem Placed.autoFwdReleaseRpcCli (hx : x.Placed) {l : FwdLease}
    (ht : x.threads[k]? = some (.releasing l)) : (x.autoFwdReleaseRpcCli k l).Placed := by
  have hcount (i : Nat) := count_threadIds ht i
  simp only [FwdThread.reqs] at hcount
  unfold AutoForward.autoFwdReleaseRpcCli
  split
  · -- the connection goes back to its package
    next hnone =>
    have hstays {m : FwdLease} (hin : m ∈ x.leases) (hne : m ≠ l) :
        m ∈ (x.threads.eraseIdx k).flatMap FwdThread.leases ++ x.inFlight.map Prod.snd := by
      rcases mem_leases ht hin with hmem | hmem
      · exact absurd (mem_singleton.mp hmem) hne
      · exact hmem
    refine ⟨?_, hx.sent, hx.outcome, ?_, fun h => absurd hnone h⟩
    · refine hx.held.move (perm_iff_count.mpr fun i => ?_)
      have hi := hcount i
      simp only [resume, setPkg, resultIds, waitingIds, threadIds, flightIds, nil_append,
        count_append, count_nil] at hi ⊢
      omega
    · intro id c hc
      simp only [resume, setPkg, update_apply] at hc
      split at hc
      · next heq =>
        subst heq
        obtain ⟨hin, hne⟩ := mem_filter.mp hc
        refine hstays (hx.carried _ c hin) (fun h => ?_)
        exact (of_decide_eq_true hne) (congrArg FwdLease.conn h)
      · next hid =>
        exact hstays (hx.carried id c hc) (fun h => hid (congrArg FwdLease.pkg h))
  · -- it takes the first request of the queue
    next req rest hreqs =>
    have hmem {m : FwdLease} (hm : m ∈ x.leases) : m ∈ (x.resume k [.sending req l]).leases :=
      (mem_leases_handedOver ht).mpr hm
    have hown := hmem (mem_leases_of_thread ht mem_cons_self)
    refine ⟨?_, hx.sent, hx.outcome, fun id c hc => hmem (hx.carried id c hc),
      fun _ => ne_nil_of_mem hown⟩
    refine hx.held.move (perm_iff_count.mpr fun i => ?_)
    have hi := hcount i
    simp only [resume, resultIds, waitingIds, threadIds, flightIds, hreqs, map_cons,
      flatMap_append, flatMap_cons, flatMap_nil, append_nil, FwdThread.reqs,
      count_append, count_cons, count_nil] at hi ⊢
    omega

theorem Placed.next (hx : x.Placed) (h : x.next endpoint self a = some y) : y.Placed := by
  cases a with
  | setLeader id =>
    cases h
    exact { hx with }
  | call =>
    simp only [AutoForward.next] at h
    split at h
    · cases h
      exact hx
    · cases h
      exact hx.call
  | choose k maxConns abandoned =>
    simp only [AutoForward.next] at h
    split at h
    · next ht =>
      cases h
      exact hx.findRpcCli ht maxConns abandoned
    · cases h
  | send k =>
    simp only [AutoForward.next] at h
    split at h
    · next ht =>
      cases h
      exact hx.send ht
    · cases h
  | complete j outcome =>
    simp only [AutoForward.next] at h
    split at h
    · next hj =>
      cases h
      exact hx.complete hj outcome
    · cases h
  | release k =>
    simp only [AutoForward.next] at h
    split at h
    · next ht =>
      cases h
      exact hx.autoFwdReleaseRpcCli ht
    · cases h

/-! ## Every request goes to its leader -/

theorem aimed_start (leader : Int) : Aimed endpoint { leader := leader } where
  pooled _ _ hc := nomatch hc
  leased _ hl := nomatch hl
  sending _ _ h := nomatch h
  sent _ h := nomatch h

theorem Aimed.takeConn (hx : x.Aimed endpoint) {req : FwdReq} {c : RpcConn}
    (hidle : ∀ d ∈ idle, d.endpoint = endpoint req.leader)
    (hc : c.endpoint = endpoint req.leader) : (x.takeConn k req idle c).Aimed endpoint := by
  refine ⟨?_, ?_, ?_, hx.sent⟩
  · intro id d hd
    simp only [AutoForward.takeConn, resume, setPkg, update_apply] at hd
    split at hd
    · next heq =>
      rw [heq]
      exact hidle d hd
    · exact hx.pooled id d hd
  · intro l hl
    rcases mem_cons.mp hl with rfl | hrest
    · exact hc
    · exact hx.leased l (mem_leases_of_erase hrest)
  · intro req' l h
    rcases mem_cons.mp h with heq | hrest
    · cases heq
      exact hc
    · exact hx.sending req' l (mem_of_mem_eraseIdx hrest)

theorem Aimed.findRpcCli (hx : x.Aimed endpoint) (req : FwdReq) (maxConns : Nat)
    (abandoned : Bool) : (x.findRpcCli endpoint k req maxConns abandoned).Aimed endpoint := by
  unfold AutoForward.findRpcCli
  split
  · split
    · exact hx.takeConn (fun d hd => nomatch hd) rfl
    · exact ⟨hx.pooled, fun l hl => hx.leased l (mem_leases_of_erase hl),
        fun req' l h => hx.sending req' l (mem_of_mem_eraseIdx h), hx.sent⟩
  · next c rest hidle =>
    have hpool (d : RpcConn) (hd : d ∈ c :: rest) : d.endpoint = endpoint req.leader :=
      hx.pooled req.leader d (hidle ▸ hd)
    refine hx.takeConn (fun d hd => hpool d (mem_cons_of_mem c hd)) ?_
    split
    · rfl
    · exact hpool c mem_cons_self

theorem Aimed.send (hx : x.Aimed endpoint) {req : FwdReq} {l : FwdLease}
    (ht : x.threads[k]? = some (.sending req l)) :
    Aimed endpoint { x.resume k [] with
      inFlight := (req, l) :: x.inFlight
      sends := x.sends ++ [(req, l.conn)] } := by
  refine ⟨hx.pooled, ?_, fun req' m h => hx.sending req' m (mem_of_mem_eraseIdx h), ?_⟩
  · intro m hm
    rcases mem_append.mp hm with hthread | hflight
    · exact hx.leased m (mem_leases_of_erase (mem_append_left _ hthread))
    · rcases mem_cons.mp hflight with rfl | hold
      · exact hx.leased _ (mem_leases_of_thread ht mem_cons_self)
      · exact hx.leased m (mem_append_right _ hold)
  · intro s hs
    rcases mem_append.mp hs with hold | hnew
    · exact hx.sent s hold
    · rw [mem_singleton.mp hnew]
      exact hx.sending req l (mem_of_getElem? ht)

theorem Aimed.autoFwdReleaseRpcCli (hx : x.Aimed endpoint) {l : FwdLease}
    (ht : x.threads[k]? = some (.releasing l)) (hline : x.InLine (.release k)) :
    (x.autoFwdReleaseRpcCli k l).Aimed endpoint := by
  have hlease : l.conn.endpoint = endpoint l.pkg :=
    hx.leased l (mem_leases_of_thread ht mem_cons_self)
  unfold AutoForward.autoFwdReleaseRpcCli
  split
  · refine ⟨?_, fun m hm => hx.leased m (mem_leases_of_erase hm),
      fun req m h => hx.sending req m (mem_of_mem_eraseIdx h), hx.sent⟩
    intro id c hc
    simp only [resume, setPkg, update_apply] at hc
    split at hc
    · next heq =>
      rw [heq]
      rcases mem_cons.mp hc with rfl | hc
      · exact hlease
      · exact hx.pooled l.pkg c hc
    · exact hx.pooled id c hc
  · next req rest hreqs =>
    have hleader : req.leader = l.pkg := by
      simp only [InLine, ht, hreqs] at hline
      exact hline
    refine ⟨hx.pooled, fun m hm => hx.leased m ((mem_leases_handedOver ht).mp hm), ?_, hx.sent⟩
    intro req' m h
    rcases mem_cons.mp h with heq | hrest
    · cases heq
      rwa [hleader]
    · exact hx.sending req' m (mem_of_mem_eraseIdx hrest)

theorem Aimed.next (hx : x.Aimed endpoint) (hline : x.InLine a)
    (h : x.next endpoint self a = some y) : y.Aimed endpoint := by
  cases a with
  | setLeader id =>
    cases h
    exact { hx with }
  | call =>
    simp only [AutoForward.next] at h
    split at h
    · cases h
      exact hx
    · cases h
      refine ⟨hx.pooled, hx.leased, ?_, hx.sent⟩
      intro req l hmem
      rcases mem_cons.mp hmem with heq | hold
      · cases heq
      · exact hx.sending req l hold
  | choose k maxConns abandoned =>
    simp only [AutoForward.next] at h
    split at h
    · cases h
      exact hx.findRpcCli _ maxConns abandoned
    · cases h
  | send k =>
    simp only [AutoForward.next] at h
    split at h
    · next ht =>
      cases h
      exact hx.send ht
    · cases h
  | complete j outcome =>
    simp only [AutoForward.next] at h
    split at h
    · next hj =>
      cases h
      refine ⟨hx.pooled, fun m hm => hx.leased m ((mem_leases_completed hj).mp hm), ?_, hx.sent⟩
      intro req l hmem
      rcases mem_cons.mp hmem with heq | hold
      · cases heq
      · exact hx.sending req l hold
    · cases h
  | release k =>
    simp only [AutoForward.next] at h
    split at h
    · next ht =>
      cases h
      exact hx.autoFwdReleaseRpcCli ht hline
    · cases h

/-! ## Every request comes to its end -/

/-- How many more steps a thread's request or connection can take. -/
def threadWeight : FwdThread → Nat
  | .choosing _ => 5
  | .sending _ _ => 3
  | .releasing _ => 1

def weight (x : AutoForward) : Nat :=
  4 * x.autoFwdReqs.length + (x.threads.map threadWeight).sum + 2 * x.inFlight.length

/-- A step of a request that is already under way. -/
def Action.goesOn : Action → Bool
  | .setLeader _ | .call => false
  | _ => true

/-- No thread is inside the forwarding code, and the handler of every `send` was called. -/
def Quiet (x : AutoForward) : Prop := x.threads = [] ∧ x.inFlight = []

theorem weight_threads (h : x.threads[k]? = some t) :
    (x.threads.map threadWeight).sum =
      threadWeight t + ((x.threads.eraseIdx k).map threadWeight).sum := by
  rw [((threads_perm h).map threadWeight).sum_nat, map_cons, sum_cons]

theorem next_weight (ha : a.goesOn = true) (h : x.next endpoint self a = some y) :
    y.weight < x.weight := by
  cases a with
  | setLeader id => cases ha
  | call => cases ha
  | choose k maxConns abandoned =>
    simp only [next] at h
    split at h
    · next req ht =>
      cases h
      have hsum := weight_threads ht
      simp only [threadWeight] at hsum
      unfold findRpcCli
      split
      · split
        · simp only [weight, takeConn, resume, setPkg, map_append, map_cons,
            map_nil, sum_append, sum_cons, sum_nil, threadWeight, hsum]
          omega
        · simp only [weight, resume, nil_append, length_append, length_singleton,
            hsum]
          omega
      · simp only [weight, takeConn, resume, setPkg, map_append, map_cons,
          map_nil, sum_append, sum_cons, sum_nil, threadWeight, hsum]
        omega
    · cases h
  | send k =>
    simp only [next] at h
    split at h
    · next req l ht =>
      cases h
      have hsum := weight_threads ht
      simp only [threadWeight] at hsum
      simp only [weight, resume, nil_append, length_cons, hsum]
      omega
    · cases h
  | complete j outcome =>
    simp only [next] at h
    split at h
    · next req l hj =>
      cases h
      have hlen := (inFlight_perm hj).length_eq
      simp only [length_cons] at hlen
      simp only [weight, map_cons, sum_cons, threadWeight, hlen]
      omega
    · cases h
  | release k =>
    simp only [next] at h
    split at h
    · next l ht =>
      cases h
      have hsum := weight_threads ht
      simp only [threadWeight] at hsum
      unfold autoFwdReleaseRpcCli
      split
      · simp only [weight, resume, setPkg, nil_append, hsum]
        omega
      · next req rest hreqs =>
        simp only [weight, resume, map_append, map_cons, map_nil, sum_append,
          sum_cons, sum_nil, threadWeight, hsum, hreqs, length_cons]
        omega
    · cases h

theorem exists_step (hx : ¬ x.Quiet) :
    ∃ a y, a.goesOn = true ∧ x.next endpoint self a = some y := by
  cases hflight : x.inFlight with
  | cons r rest => exact ⟨.complete 0 .error, _, rfl, by simp only [next, hflight]; rfl⟩
  | nil =>
    cases hthreads : x.threads with
    | nil => exact absurd ⟨hthreads, hflight⟩ hx
    | cons t rest =>
      cases t with
      | choosing req => exact ⟨.choose 0 1 false, _, rfl, by simp only [next, hthreads]; rfl⟩
      | sending req l => exact ⟨.send 0, _, rfl, by simp only [next, hthreads]; rfl⟩
      | releasing l => exact ⟨.release 0, _, rfl, by simp only [next, hthreads]; rfl⟩

/-- What is under way comes to its end, however its steps are ordered. -/
theorem settles (endpoint : Int → Bytes) (self : Int) (x : AutoForward) :
    ∃ bs y, (∀ b ∈ bs, Action.goesOn b = true) ∧
      Runs.run (fun v b => v.next endpoint self b) x bs = some y ∧ y.Quiet := by
  induction hn : x.weight using Nat.strong_induction_on generalizing x with
  | _ n ih =>
    by_cases hx : x.Quiet
    · exact ⟨[], x, (fun b hb => nomatch hb), rfl, hx⟩
    · obtain ⟨a, z, ha, hz⟩ := exists_step hx
      have hlt : z.weight < n := hn ▸ next_weight ha hz
      obtain ⟨bs, y, hbs, hrun, hy⟩ := ih z.weight hlt z rfl
      refine ⟨a :: bs, y, ?_, Runs.run_cons_eq_some.mpr ⟨z, hz, hrun⟩, hy⟩
      intro b hb
      rcases mem_cons.mp hb with rfl | hrest
      · exact ha
      · exact hbs b hrest

theorem Placed.once (hx : x.Placed) (hquiet : x.Quiet) {i : Nat} (hi : i < x.calls) :
    x.sendIds.count i = 1 ∧ x.resultIds.count i = 1 := by
  obtain ⟨hthreads, hflight⟩ := hquiet
  -- nobody could take a request that still waits
  have hwaiting : x.autoFwdReqs = [] := by
    by_contra hne
    exact hx.waiting hne (by simp [leases, hthreads, hflight])
  have hheld := hx.held
  have hsent := hx.sent
  simp only [waitingIds, threadIds, flightIds, hwaiting, hthreads, hflight, map_nil,
    flatMap_nil, append_nil] at hheld hsent
  have hresult := hheld.count_eq_one hi
  exact ⟨hsent.count_eq i ▸ hresult, hresult⟩

/-! ## Every run -/

structure Forwards (endpoint : Int → Bytes) (self : Int) (x : AutoForward) : Prop where
  toLeader : ∀ s ∈ x.sends, s.2.endpoint = endpoint s.1.leader
  sentOnce : x.sendIds.Nodup
  setOnce : x.resultIds.Nodup
  outcome : x.results = x.replies.map (fun r => (r.1, autoFwdResult r.2))
  finished : x.Quiet → ∀ i < x.calls, x.sendIds.count i = 1 ∧ x.resultIds.count i = 1
  finishes : ∃ bs y, (∀ b ∈ bs, Action.goesOn b = true) ∧
    Runs.run (fun v b => v.next endpoint self b) x bs = some y ∧ y.Quiet

/-- In every run in which a connection takes only requests of its own leader from the queue, each
request is sent once, to the server that led when it was issued, and gets the outcome of that. -/
theorem forwarded_to_leader {endpoint : Int → Bytes} {self leader : Int} {as : List Action}
    (hline : Runs.AllSteps (fun v b => v.next endpoint self b) InLine { leader := leader } as)
    (hrun : Runs.run (fun v b => v.next endpoint self b) { leader := leader } as = some x) :
    x.Forwards endpoint self := by
  have hplaced : x.Placed :=
    Runs.invariant (fun v a w hv hw => Placed.next hv hw) (placed_start leader) hrun
  have haimed : x.Aimed endpoint :=
    Runs.invariant_of_allSteps (fun v a w hv hl hw => Aimed.next hv hl hw) (aimed_start leader)
      hline hrun
  have hsent : (x.resultIds ++ x.flightIds).Nodup := by
    refine hplaced.held.nodup.sublist (Sublist.append_left ?_ _)
    exact (sublist_append_right _ _).trans (sublist_append_right _ _)
  exact
    { toLeader := haimed.sent
      sentOnce := hplaced.sent.nodup_iff.mpr hsent
      setOnce := hplaced.held.nodup_left
      outcome := hplaced.outcome
      finished := fun hquiet i hi => hplaced.once hquiet hi
      finishes := settles endpoint self x }

/-! ## The pool of connections -/

section Pool

variable {m : Nat}

def conns (x : AutoForward) (id : Int) : List RpcConn :=
  (x.pkgs id).rpcClientIdle ++ (x.pkgs id).rpcClientInUse

/-- Requests that were given to a connection and whose handler has not let go of it. -/
def outstanding (x : AutoForward) (c : RpcConn) : Nat := x.leases.countP (fun l => l.conn = c)

/-- The limit of `raft_params` that a call reads. -/
def Action.LimitedTo (m : Nat) : Action → Prop
  | .choose _ maxConns _ => maxConns = m
  | _ => True

instance (m : Nat) : (a : Action) → Decidable (a.LimitedTo m)
  | .choose _ maxConns _ => inferInstanceAs (Decidable (maxConns = m))
  | .setLeader _ | .call | .send _ | .complete _ _ | .release _ => isTrue trivial

/-- A connection is in one package, and in use by one request or idle. -/
structure Pool (m : Nat) (x : AutoForward) : Prop where
  fresh : ∀ id, ∀ c ∈ x.conns id, c.id < x.nextConn
  owned : ∀ id id', ∀ c ∈ x.conns id, c ∈ x.conns id' → id = id'
  nodup : ∀ id, (x.conns id).Nodup
  size : ∀ id, (x.conns id).length ≤ max 1 m
  leased : ∀ l, x.leases.count l = (x.pkgs l.pkg).rpcClientInUse.count l.conn

theorem pool_start (leader : Int) : Pool m { leader := leader } where
  fresh _ _ hc := nomatch hc
  owned _ _ _ hc := nomatch hc
  nodup _ := nodup_nil
  size _ := Nat.zero_le _
  leased _ := rfl

theorem count_leases (h : x.threads[k]? = some t) (l : FwdLease) :
    x.leases.count l = t.leases.count l +
      ((x.threads.eraseIdx k).flatMap FwdThread.leases ++ x.inFlight.map Prod.snd).count l := by
  have hperm := (threads_perm h).flatMap_right FwdThread.leases
  rw [leases, count_append, hperm.count_eq, flatMap_cons, count_append,
    count_append]
  omega

theorem Pool.of_perm (hx : x.Pool m) (hconns : ∀ id, (y.conns id).Perm (x.conns id))
    (hnext : y.nextConn = x.nextConn)
    (hleased : ∀ l, y.leases.count l = (y.pkgs l.pkg).rpcClientInUse.count l.conn) : y.Pool m where
  fresh id c hc := hnext ▸ hx.fresh id c ((hconns id).mem_iff.mp hc)
  owned id id' c hc hc' := hx.owned id id' c ((hconns id).mem_iff.mp hc) ((hconns id').mem_iff.mp hc')
  nodup id := (hconns id).nodup_iff.mpr (hx.nodup id)
  size id := (hconns id).length_eq ▸ hx.size id
  leased := hleased

theorem Pool.takeConn (hx : x.Pool m) {req : FwdReq} (ht : x.threads[k]? = some (.choosing req))
    {c : RpcConn} (hin : ∀ d ∈ c :: (idle ++ (x.pkgs req.leader).rpcClientInUse),
      d ∈ x.conns req.leader ∨ d.id = x.nextConn)
    (hnodup : (c :: (idle ++ (x.pkgs req.leader).rpcClientInUse)).Nodup)
    (hlen : (idle ++ (x.pkgs req.leader).rpcClientInUse).length < max 1 m) :
    (x.takeConn k req idle c).Pool m := by
  have hown : (x.takeConn k req idle c).pkgs req.leader =
      ⟨idle, c :: (x.pkgs req.leader).rpcClientInUse⟩ := update_self _ _ _
  have hother (id : Int) (hid : id ≠ req.leader) : (x.takeConn k req idle c).pkgs id = x.pkgs id :=
    update_of_ne hid _ _
  have hperm : ((x.takeConn k req idle c).conns req.leader).Perm
      (c :: (idle ++ (x.pkgs req.leader).rpcClientInUse)) := by
    rw [conns, hown]
    exact perm_middle
  -- only the package of the leader gets a connection, one that it had or a new one
  have hmem (id : Int) (d : RpcConn) (hd : d ∈ (x.takeConn k req idle c).conns id) :
      d ∈ x.conns id ∨ id = req.leader ∧ d.id = x.nextConn := by
    by_cases hid : id = req.leader
    · subst hid
      exact (hin d (hperm.mem_iff.mp hd)).imp_right fun hnew => ⟨rfl, hnew⟩
    · rw [conns, hother id hid] at hd
      exact .inl hd
  refine ⟨?_, ?_, ?_, ?_, ?_⟩
  · intro id d hd
    rcases hmem id d hd with hold | ⟨-, hnew⟩
    · exact Nat.lt_succ_of_lt (hx.fresh id d hold)
    · exact hnew ▸ Nat.lt_succ_self _
  · intro id id' d hd hd'
    rcases hmem id d hd with hold | ⟨rfl, hnew⟩ <;> rcases hmem id' d hd' with hold' | ⟨rfl, hnew'⟩
    · exact hx.owned id id' d hold hold'
    · exact absurd hnew' (Nat.ne_of_lt (hx.fresh id d hold))
    · exact absurd hnew (Nat.ne_of_lt (hx.fresh id' d hold'))
    · rfl
  · intro id
    by_cases hid : id = req.leader
    · exact hid ▸ hperm.nodup_iff.mpr hnodup
    · rw [conns, hother id hid]
      exact hx.nodup id
  · intro id
    by_cases hid : id = req.leader
    · exact hid ▸ hperm.length_eq ▸ hlen
    · rw [conns, hother id hid]
      exact hx.size id
  · intro l
    have hcount := count_leases ht l
    have hleased := hx.leased l
    have hthis : (x.takeConn k req idle c).leases = ⟨req.leader, c⟩ ::
        ((x.threads.eraseIdx k).flatMap FwdThread.leases ++ x.inFlight.map Prod.snd) := rfl
    simp only [FwdThread.leases, count_nil, Nat.zero_add] at hcount
    rw [hthis, count_cons, ← hcount, hleased]
    obtain ⟨id, d⟩ := l
    by_cases hid : id = req.leader
    · subst hid
      rw [hown, count_cons]
      simp
    · rw [hother id hid, if_neg (by simp [Ne.symm hid])]
      rfl

theorem Pool.takeNew (hx : x.Pool m) {req : FwdReq} (ht : x.threads[k]? = some (.choosing req))
    (hsub : idle.Sublist (x.pkgs req.leader).rpcClientIdle)
    (hlen : (idle ++ (x.pkgs req.leader).rpcClientInUse).length < max 1 m) :
    (x.takeConn k req idle (x.newConn endpoint req.leader)).Pool m := by
  have hsub' := hsub.append_right (x.pkgs req.leader).rpcClientInUse
  refine hx.takeConn ht ?_ (nodup_cons.mpr ⟨?_, (hx.nodup _).sublist hsub'⟩) hlen
  · intro d hd
    rcases mem_cons.mp hd with rfl | hold
    · exact .inr rfl
    · exact .inl (hsub'.subset hold)
  · intro hmem
    exact Nat.lt_irrefl _ (hx.fresh _ _ (hsub'.subset hmem))

theorem Pool.findRpcCli (hx : x.Pool m) {req : FwdReq} (ht : x.threads[k]? = some (.choosing req))
    (abandoned : Bool) : (x.findRpcCli endpoint k req m abandoned).Pool m := by
  have hsize := hx.size req.leader
  unfold AutoForward.findRpcCli
  split
  · split
    · next hroom => exact hx.takeNew ht (nil_sublist _) hroom
    · refine hx.of_perm (fun _ => Perm.refl _) rfl (fun l => ?_)
      have hcount := count_leases ht l
      rw [hx.leased l] at hcount
      exact (hcount.trans (Nat.zero_add _)).symm
  · next c rest hidle =>
    rw [conns, hidle, cons_append, length_cons] at hsize
    split
    · refine hx.takeNew ht ?_ hsize
      rw [hidle]
      exact sublist_cons_self c rest
    · have hold : c :: (rest ++ (x.pkgs req.leader).rpcClientInUse) = x.conns req.leader := by
        rw [conns, hidle, cons_append]
      refine hx.takeConn ht (fun d hd => .inl (hold ▸ hd)) (hold ▸ hx.nodup _) hsize

theorem Pool.mem_inUse (hx : x.Pool m) {l : FwdLease} (hl : l ∈ x.leases) :
    l.conn ∈ (x.pkgs l.pkg).rpcClientInUse :=
  count_pos_iff.mp (hx.leased l ▸ count_pos_iff.mpr hl)

theorem Pool.autoFwdReleaseRpcCli (hx : x.Pool m) {l : FwdLease}
    (ht : x.threads[k]? = some (.releasing l)) : (x.autoFwdReleaseRpcCli k l).Pool m := by
  have hcount (l' : FwdLease) := count_leases ht l'
  simp only [FwdThread.leases] at hcount
  unfold AutoForward.autoFwdReleaseRpcCli
  split
  · have hin := hx.mem_inUse (mem_leases_of_thread ht mem_cons_self)
    have huse : (x.pkgs l.pkg).rpcClientInUse.Nodup :=
      (hx.nodup l.pkg).sublist (sublist_append_right _ _)
    have herase : (x.pkgs l.pkg).rpcClientInUse.filter (fun c => c ≠ l.conn) =
        (x.pkgs l.pkg).rpcClientInUse.erase l.conn := by
      rw [huse.erase_eq_filter]
      exact filter_congr fun c _ => by simp [bne, beq_eq_decide]
    refine hx.of_perm (fun id => ?_) rfl (fun l' => ?_)
    · by_cases hid : id = l.pkg
      · subst hid
        simp only [conns, resume, setPkg, update_self, herase]
        exact perm_middle.symm.trans ((perm_cons_erase hin).symm.append_left _)
      · simp only [conns, resume, setPkg, update_of_ne hid]
        exact Perm.refl _
    · have hrest := hcount l'
      rw [hx.leased l', count_singleton] at hrest
      show count l' ((x.threads.eraseIdx k).flatMap FwdThread.leases ++ _) = _
      obtain ⟨id, d⟩ := l'
      by_cases hid : id = l.pkg
      · subst hid
        simp only [resume, setPkg, update_self, herase]
        by_cases hd : d = l.conn
        · subst hd
          rw [count_erase_self, hrest, if_pos (by simp)]
          omega
        · rw [count_erase_of_ne hd, hrest,
            if_neg (by simpa using fun h => hd (congrArg FwdLease.conn h).symm)]
          omega
      · simp only [resume, setPkg, update_of_ne hid]
        rw [hrest, if_neg (by simpa using fun h => hid (congrArg FwdLease.pkg h).symm)]
        omega
  · refine hx.of_perm (fun _ => Perm.refl _) rfl (fun l' => ?_)
    have hthis := (hx.leased l').symm.trans (hcount l')
    rw [← count_append] at hthis
    exact hthis.symm

theorem Pool.next (hx : x.Pool m) (ha : a.LimitedTo m)
    (h : x.next endpoint self a = some y) : y.Pool m := by
  have hsame (z : AutoForward) (hpkgs : z.pkgs = x.pkgs) (hnext : z.nextConn = x.nextConn)
      (hleases : ∀ l, z.leases.count l = x.leases.count l) : z.Pool m := by
    refine hx.of_perm (fun id => ?_) hnext (fun l => ?_)
    · rw [conns, hpkgs]
      exact Perm.refl _
    · rw [hpkgs, hleases l]
      exact hx.leased l
  cases a with
  | setLeader id => cases h; exact hsame _ rfl rfl fun _ => rfl
  | call =>
    simp only [AutoForward.next] at h
    split at h <;> cases h
    · exact hx
    · exact hsame _ rfl rfl fun _ => rfl
  | choose k maxConns abandoned =>
    cases ha
    simp only [AutoForward.next] at h
    split at h
    · next ht => cases h; exact hx.findRpcCli ht abandoned
    · cases h
  | send k =>
    simp only [AutoForward.next] at h
    split at h
    · next req l ht =>
      cases h
      refine hsame _ rfl rfl fun l' => ?_
      have hcount := count_leases ht l'
      simp only [leases, resume, FwdThread.leases, nil_append, map_cons,
        count_append, count_cons, count_nil] at hcount ⊢
      omega
    · cases h
  | complete j outcome =>
    simp only [AutoForward.next] at h
    split at h
    · next req l hj =>
      cases h
      refine hsame _ rfl rfl fun l' => ?_
      have hcount := ((inFlight_perm hj).map Prod.snd).count_eq l'
      simp only [leases, FwdThread.leases, flatMap_cons, map_cons, count_append,
        count_cons, count_nil] at hcount ⊢
      omega
    · cases h
  | release k =>
    simp only [AutoForward.next] at h
    split at h
    · next ht => cases h; exact hx.autoFwdReleaseRpcCli ht
    · cases h

structure PkgSound (m : Nat) (x : AutoForward) (id : Int) : Prop where
  disjoint : (x.pkgs id).rpcClientIdle.Disjoint (x.pkgs id).rpcClientInUse
  bounded : (x.pkgs id).rpcClientIdle.length + (x.pkgs id).rpcClientInUse.length ≤ max 1 m
  inUse : ∀ c ∈ (x.pkgs id).rpcClientInUse, x.outstanding c = 1
  idle : ∀ c ∈ (x.pkgs id).rpcClientIdle, x.outstanding c = 0

theorem Pool.pkgSound (hx : x.Pool m) (id : Int) : x.PkgSound m id := by
  have hnodup := nodup_append'.mp (hx.nodup id)
  -- whoever has the connection has it from this package
  have hpkg {l : FwdLease} (hl : l ∈ x.leases) (hc : l.conn ∈ x.conns id) : l.pkg = id :=
    hx.owned l.pkg id l.conn (mem_append_right _ (hx.mem_inUse hl)) hc
  refine ⟨hnodup.2.2, ?_, ?_, ?_⟩
  · rw [← length_append]
    exact hx.size id
  · intro c hc
    have hone : x.leases.count ⟨id, c⟩ = 1 := by
      rw [hx.leased]
      exact count_eq_one_of_mem hnodup.2.1 hc
    rw [← hone]
    refine countP_congr fun l hl => ?_
    simp only [decide_eq_true_eq, beq_iff_eq]
    constructor
    · rintro rfl
      rw [← hpkg hl (mem_append_right _ hc)]
    · rintro rfl
      rfl
  · intro c hc
    refine countP_eq_zero.mpr fun l hl hconn => ?_
    have hconn' : l.conn = c := of_decide_eq_true hconn
    have hid := hpkg hl (hconn' ▸ mem_append_left _ hc)
    have huse := hx.mem_inUse hl
    rw [hid, hconn'] at huse
    exact hnodup.2.2 hc huse

/-- In every state of every run with a fixed limit, each package is sound, and a request waits only
while some connection is in use. -/
theorem pool_sound {endpoint : Int → Bytes} {self leader : Int} {m : Nat} {as : List Action}
    (hlimit : ∀ a ∈ as, Action.LimitedTo m a)
    (hrun : Runs.run (fun v b => v.next endpoint self b) { leader := leader } as = some x) :
    (∀ id, x.PkgSound m id) ∧
      (x.autoFwdReqs ≠ [] → ∃ id, (x.pkgs id).rpcClientInUse ≠ []) := by
  have hplaced : x.Placed :=
    Runs.invariant (fun v a w hv hw => Placed.next hv hw) (placed_start leader) hrun
  have hpool : x.Pool m :=
    Runs.invariant_of_allSteps (fun v a w hv ha hw => Pool.next hv ha hw) (pool_start leader)
      (.of_mem fun _ => hlimit) hrun
  refine ⟨hpool.pkgSound, fun hwaiting => ?_⟩
  obtain ⟨l, hl⟩ := exists_mem_of_ne_nil _ (hplaced.waiting hwaiting)
  exact ⟨l.pkg, ne_nil_of_mem (hpool.mem_inUse hl)⟩

end Pool

end AutoForward

/-! ## A run that meets the condition -/

def endpointOf (id : Int) : Bytes := [id.toNat.toUInt8]

/-- Server `1` forwards two requests to leader `2` over one connection; the second one waits. -/
def forwardsTwo : List AutoForward.Action :=
  [.call, .choose 0 1 false, .send 0, .call, .choose 0 1 false,
    .complete 0 (.response true 0 (some [7])), .release 0, .send 0, .complete 0 .error, .release 0]

theorem forwardsTwo_reaches_leader :
    ∃ x, Runs.run (fun v b => AutoForward.next endpointOf 1 v b) { leader := 2 } forwardsTwo =
        some x ∧ x.sendIds = [0, 1] ∧ x.Quiet ∧ x.Forwards endpointOf 1 := by
  have hline : Runs.AllSteps (fun v b => AutoForward.next endpointOf 1 v b) AutoForward.InLine
      { leader := 2 } forwardsTwo := by
    decide +kernel
  have hend : (Runs.run (fun v b => AutoForward.next endpointOf 1 v b) { leader := 2 }
      forwardsTwo).map (fun x => (x.sendIds, x.threads, x.inFlight)) = some ([0, 1], [], []) := by
    decide +kernel
  obtain ⟨x, hrun, heq⟩ := Option.map_eq_some_iff.mp hend
  simp only [Prod.mk.injEq] at heq
  obtain ⟨hsends, hthreads, hflight⟩ := heq
  exact ⟨x, hrun, hsends, ⟨hthreads, hflight⟩, AutoForward.forwarded_to_leader hline hrun⟩

/-- The second request waits while the connection is in use. -/
theorem forwardsTwo_waits :
    ∃ x, Runs.run (fun v b => AutoForward.next endpointOf 1 v b) { leader := 2 }
        (forwardsTwo.take 5) = some x ∧ x.autoFwdReqs ≠ [] ∧ (∀ id, x.PkgSound 1 id) ∧
      ∃ id, (x.pkgs id).rpcClientInUse ≠ [] := by
  have hlimit : ∀ a ∈ forwardsTwo.take 5, AutoForward.Action.LimitedTo 1 a := by decide
  have hend : (Runs.run (fun v b => AutoForward.next endpointOf 1 v b) { leader := 2 }
      (forwardsTwo.take 5)).map (fun x => x.autoFwdReqs) = some [⟨1, 2⟩] := by
    decide +kernel
  obtain ⟨x, hrun, hqueue⟩ := Option.map_eq_some_iff.mp hend
  have hwaits : x.autoFwdReqs ≠ [] := by rw [hqueue]; decide
  obtain ⟨hsound, hbusy⟩ := AutoForward.pool_sound hlimit hrun
  exact ⟨x, hrun, hwaits, hsound, hbusy hwaits⟩

/-! ## A request that goes to the wrong server -/

/-- A request is in flight to leader `2` when server `3` becomes leader. Of the next two requests one
is sent to server `3` and one waits. Then the response of server `2` arrives. -/
def leaderChanges : List AutoForward.Action :=
  [.call, .choose 0 1 false, .send 0, .setLeader 3, .call, .choose 0 1 false, .send 0,
    .call, .choose 0 1 false, .complete 1 (.response true 0 none), .release 0, .send 0]

/-- The request issued under leader `3` is sent on the connection to server `2`. -/
theorem forwarded_to_old_leader :
    (Runs.run (fun v b => AutoForward.next endpointOf 1 v b) { leader := 2 } leaderChanges).map
      (fun x => x.sends.map (fun s => (s.1, s.2.endpoint))) =
        some [(⟨0, 2⟩, endpointOf 2), (⟨1, 3⟩, endpointOf 3), (⟨2, 3⟩, endpointOf 2)] := by
  decide +kernel

end Raft
end Xio
