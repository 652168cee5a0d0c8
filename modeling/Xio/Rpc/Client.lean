import Xio.Lib.Conservation
import Xio.Lib.Runs

/-!
# Rpc.Client — the streaming client

In streaming mode `xio_rpc_client` has two queues. A request waits in `pending_write_reqs_` until
its bytes are written, and then in `pending_read_reqs_` until its response is read; the front of
each queue has an operation on the socket. Every error empties both queues through `close_socket`,
which leaves the socket open and the operations on it outstanding.

A step is one handler: `send`, a completed write, a completed read of a header or of the data that
a response carries, the timeout. The bytes on the way back are kept as chunks, in the order in
which the server answers what was written. The socket is connected from the start.
-/

namespace Xio
namespace Rpc

open Conservation List Option

/-- A piece of a response on the wire. -/
inductive Chunk
  | header (of : Nat) (carriesData : Bool)
  | data (of : Nat)
  deriving DecidableEq, Repr

/-- How `when_done` is called. -/
inductive Outcome
  | response (of : Nat)
  /-- A response whose data is not what the server sent with it. -/
  | garbled
  | exception
  deriving DecidableEq, Repr

/-- An asynchronous read, with the request that it is for. -/
inductive ReadOp
  | header (req : Nat)
  | ctx (req : Nat) (rsp : Nat)
  deriving DecidableEq, Repr

namespace ReadOp

def req : ReadOp → Nat
  | .header req | .ctx req _ => req

/-- The response whose header this read follows, and what is still to come of it. -/
def taken : ReadOp → List Nat
  | .header _ => []
  | .ctx _ rsp => [rsp]

def due : ReadOp → List Chunk
  | .header _ => []
  | .ctx _ rsp => [.data rsp]

end ReadOp

def chunks (r : Nat × Bool) : List Chunk := .header r.1 r.2 :: if r.2 then [.data r.1] else []

structure RpcClient where
  pendingWriteReqs : List Nat := []
  pendingReadReqs : List Nat := []
  abandoned : Bool := false
  /-- Asynchronous operations on the socket, the oldest first. -/
  writeOps : List Nat := []
  readOps : List ReadOp := []
  nextReq : Nat := 0
  /-- Calls of `when_done`. -/
  done : List (Nat × Outcome) := []
  /-- Requests that the server has received, and how many of them it has answered. -/
  written : List Nat := []
  served : Nat := 0
  stream : List Chunk := []
  /-- An operation has failed, or was cancelled. -/
  failed : Bool := false
  deriving DecidableEq, Repr

namespace RpcClient

variable (c : RpcClient)

/-! ## The client -/

def whenDone (req : Nat) (outcome : Outcome) : RpcClient :=
  { c with done := c.done ++ [(req, outcome)] }

/-- `close_socket`: the requests waiting for a response first, then those waiting to be written. -/
def closeSocket : RpcClient :=
  { c with
    done := c.done ++ (c.pendingReadReqs ++ c.pendingWriteReqs).map (fun req => (req, .exception))
    pendingReadReqs := []
    pendingWriteReqs := [] }

/-- `handle_error` in streaming mode. -/
def handleError : RpcClient := { c with failed := true }.closeSocket

/-- `register_req_send` on an open socket. -/
def registerReqSend (req : Nat) : RpcClient :=
  if c.abandoned then c.handleError else { c with writeOps := c.writeOps ++ [req] }

def registerResponseRead (req : Nat) : RpcClient :=
  { c with readOps := c.readOps ++ [.header req] }

/-- `send` in streaming mode, that is `pre_send`. -/
def send : RpcClient :=
  let req := c.nextReq
  let c₁ := { c with nextReq := req + 1, pendingWriteReqs := c.pendingWriteReqs ++ [req] }
  if c₁.pendingWriteReqs.length = 1 then c₁.registerReqSend req else c₁

/-- The first half of `post_send`: the request waits for its response. -/
def enqueueRead (req : Nat) : RpcClient :=
  let c₁ := { c with pendingReadReqs := c.pendingReadReqs ++ [req] }
  if c₁.pendingReadReqs.length = 1 then c₁.registerResponseRead req else c₁

/-- The second half of `post_send`. The queue may be empty already. -/
def nextWrite : RpcClient :=
  let c₁ := { c with pendingWriteReqs := c.pendingWriteReqs.tail }
  match c₁.pendingWriteReqs with
  | [] => c₁
  | next :: _ => c₁.registerReqSend next

def postRead : RpcClient :=
  let c₁ := { c with pendingReadReqs := c.pendingReadReqs.tail }
  match c₁.pendingReadReqs with
  | [] => c₁
  | next :: _ => c₁.registerResponseRead next

/-- `handle_error` after an error code from the socket. -/
def abandon : RpcClient := { c with abandoned := true }.handleError

/-! ## Its handlers -/

def sent (err : Bool) : Option RpcClient :=
  match c.writeOps with
  | [] => none
  | req :: ops =>
    let c₁ := { c with writeOps := ops }
    if err then some c₁.abandon
    else some ({ c₁ with written := c₁.written ++ [req] }.enqueueRead req).nextWrite

def responseRead (err crcOk metaOk : Bool) : Option RpcClient :=
  match c.readOps with
  | .header req :: ops =>
    let c₁ := { c with readOps := ops }
    if err then some c₁.abandon
    else
      match c.stream with
      | [] => none
      -- bytes that are no header do not have the checksum of one
      | .data _ :: rest => some { c₁ with stream := rest }.handleError
      | .header rsp carriesData :: rest =>
        let c₂ := { c₁ with stream := rest }
        if !crcOk || !metaOk then some c₂.handleError
        else if carriesData then some { c₂ with readOps := c₂.readOps ++ [.ctx req rsp] }
        else some (c₂.whenDone req (.response rsp)).postRead
  | _ => none

/-- `ctx_read`. It does not look at its error code. -/
def ctxRead (err metaOk : Bool) : Option RpcClient :=
  match c.readOps with
  | .ctx req rsp :: ops =>
    let c₁ := { c with readOps := ops }
    if err then some ({ c₁ with failed := true }.whenDone req .garbled).postRead
    else
      match c.stream with
      | [] => none
      | chunk :: rest =>
        let c₂ := { c₁ with stream := rest }
        if !metaOk then some c₂.handleError
        else
          let outcome := if chunk = .data rsp then .response rsp else .garbled
          some (c₂.whenDone req outcome).postRead
  | _ => none

/-- `cancel_socket`, the timeout of an operation. -/
def cancelSocket : RpcClient := { c with abandoned := true, failed := true }

def respond (carriesData : Bool) : Option RpcClient :=
  c.written[c.served]?.map (fun req =>
    { c with
      served := c.served + 1
      stream := c.stream ++ chunks (req, carriesData) })

inductive Action
  | send
  | sent (err : Bool)
  | responseRead (err crcOk metaOk : Bool)
  | ctxRead (err metaOk : Bool)
  | cancelSocket
  | respond (carriesData : Bool)
  deriving DecidableEq, Repr

def step : Action → Option RpcClient
  | .send => some c.send
  | .sent err => c.sent err
  | .responseRead err crcOk metaOk => c.responseRead err crcOk metaOk
  | .ctxRead err metaOk => c.ctxRead err metaOk
  | .cancelSocket => some c.cancelSocket
  | .respond carriesData => c.respond carriesData

def readsCtx : Bool := c.readOps.any (fun op => op.taken != [])

/-- After a failure every operation reports an error, and neither the read of carried data fails
nor anything else while it is outstanding. -/
def Safe : Action → Prop
  | .sent err => (c.failed → err) ∧ (err → c.readsCtx = false)
  | .responseRead err _ _ => c.failed → err
  | .ctxRead err _ => c.failed = false ∧ err = false
  | .cancelSocket => c.readsCtx = false
  | .send | .respond _ => True

instance (a : Action) : Decidable (c.Safe a) := by
  cases a <;> (dsimp only [Safe]; infer_instance)

/-! ## Invariant -/

/-- Before the first failure: each queue has one operation, for its front, and the bytes on the way
back are the responses to the requests that wait for one. -/
structure Healthy : Prop where
  writeOps : c.writeOps = c.pendingWriteReqs.head?.toList
  readOps : c.readOps.map ReadOp.req = c.pendingReadReqs.head?.toList
  served : c.served ≤ c.written.length
  stream : ∃ rs : List (Nat × Bool), c.stream = c.readOps.flatMap ReadOp.due ++ rs.flatMap chunks ∧
    c.pendingReadReqs =
      c.readOps.flatMap ReadOp.taken ++ (rs.map Prod.fst ++ c.written.drop c.served)

structure Inv : Prop where
  conserved : Conserved (c.done.map Prod.fst ++ (c.pendingReadReqs ++ c.pendingWriteReqs)) c.nextReq
  answers : ∀ d ∈ c.done, d.2 = .exception ∨ d.2 = .response d.1
  writing : c.pendingWriteReqs ≠ [] → c.writeOps ≠ []
  reading : c.pendingReadReqs ≠ [] → c.readOps ≠ []
  abandoned : c.abandoned → c.failed
  failed : c.failed → c.readsCtx = false
  healthy : c.failed = false → c.Healthy

variable {c} {d : RpcClient}

theorem Inv.handleError (hconserved : Conserved
      (c.done.map Prod.fst ++ (c.pendingReadReqs ++ c.pendingWriteReqs)) c.nextReq)
    (hanswers : ∀ d ∈ c.done, d.2 = .exception ∨ d.2 = .response d.1)
    (hctx : c.readsCtx = false) : c.handleError.Inv where
  conserved := by
    simpa [RpcClient.handleError, RpcClient.closeSocket, Function.comp_def] using hconserved
  answers x hx := by
    rcases mem_append.mp hx with hold | hnew
    · exact hanswers x hold
    · obtain ⟨req, -, rfl⟩ := mem_map.mp hnew
      exact .inl rfl
  writing h := absurd rfl h
  reading h := absurd rfl h
  abandoned _ := rfl
  failed _ := hctx
  healthy h := nomatch h

theorem enqueueRead_eq (req : Nat) : c.enqueueRead req = { c with
      pendingReadReqs := c.pendingReadReqs ++ [req]
      readOps := c.readOps ++ if c.pendingReadReqs = [] then [.header req] else [] } := by
  unfold enqueueRead registerResponseRead
  cases c.pendingReadReqs <;> simp

theorem nextWrite_eq (hab : c.abandoned = false) : c.nextWrite = { c with
      pendingWriteReqs := c.pendingWriteReqs.tail
      writeOps := c.writeOps ++ c.pendingWriteReqs.tail.head?.toList } := by
  unfold nextWrite registerReqSend
  cases c.pendingWriteReqs.tail with
  | nil => simp
  | cons next rest => simp [hab]

theorem postRead_eq : c.postRead = { c with
      pendingReadReqs := c.pendingReadReqs.tail
      readOps := c.readOps ++ c.pendingReadReqs.tail.head?.toList.map .header } := by
  unfold postRead registerResponseRead
  cases c.pendingReadReqs.tail <;> simp

theorem Healthy.written (h : c.Healthy) (req : Nat) (ws : List Nat) : Healthy { c with
      writeOps := [] ++ ws.head?.toList
      pendingWriteReqs := ws
      written := c.written ++ [req]
      pendingReadReqs := c.pendingReadReqs ++ [req]
      readOps := c.readOps ++ if c.pendingReadReqs = [] then [.header req] else [] } := by
  obtain ⟨rs, hstream, hreads⟩ := h.stream
  -- a new read is for a header, so it takes and leaves nothing
  have hnew : (if c.pendingReadReqs = [] then [ReadOp.header req] else []).flatMap ReadOp.due = [] ∧
      (if c.pendingReadReqs = [] then [ReadOp.header req] else []).flatMap ReadOp.taken = [] := by
    split <;> exact ⟨rfl, rfl⟩
  refine ⟨nil_append _, ?_, ?_, rs, ?_, ?_⟩
  · have hops := h.readOps
    cases hq : c.pendingReadReqs with
    | nil =>
      have hnone : c.readOps = [] := by simpa [hq] using hops
      simp [hnone, ReadOp.req]
    | cons x rest =>
      rw [hq] at hops
      simpa using hops
  · have hserved := h.served
    simp only [length_append, length_singleton]
    omega
  · rwa [flatMap_append, hnew.1, append_nil]
  · rw [flatMap_append, hnew.2, append_nil, drop_append_of_le_length h.served]
    rw [hreads]
    simp only [append_assoc]

theorem send_inv (hc : c.Inv) : c.send.Inv := by
  have hissued : Conserved (c.done.map Prod.fst ++
      (c.pendingReadReqs ++ (c.pendingWriteReqs ++ [c.nextReq]))) (c.nextReq + 1) := by
    apply hc.conserved.issue
    rw [← append_assoc, ← append_assoc]
    exact (perm_append_singleton _ _).trans (Perm.cons _ (Perm.of_eq (append_assoc _ _ _)))
  dsimp only [send]
  split
  · next hfirst =>
    have hempty : c.pendingWriteReqs = [] := by simpa using hfirst
    unfold registerReqSend
    split
    · next habandoned =>
      exact Inv.handleError hissued hc.answers (hc.failed (hc.abandoned habandoned))
    · exact
        { hc with
          conserved := hissued
          writing := fun _ => by simp
          healthy := by
            intro hok
            have h := hc.healthy hok
            refine ⟨?_, h.readOps, h.served, h.stream⟩
            rw [h.writeOps, hempty]
            rfl }
  · next hmore =>
    have hne : c.pendingWriteReqs ≠ [] := by
      intro hempty
      simp [hempty] at hmore
    exact
      { hc with
        conserved := hissued
        writing := fun _ => hc.writing hne
        healthy := by
          intro hok
          have h := hc.healthy hok
          refine ⟨?_, h.readOps, h.served, h.stream⟩
          rw [h.writeOps, head?_append_of_ne_nil _ hne] }

theorem sent_ok_inv (hc : c.Inv) (hok : c.failed = false) {req : Nat} {ops : List Nat}
    (hops : c.writeOps = req :: ops) :
    ({ c with writeOps := ops, written := c.written ++ [req] }.enqueueRead req).nextWrite.Inv := by
  have h := hc.healthy hok
  have hab : c.abandoned = false := by
    cases hc' : c.abandoned with
    | false => rfl
    | true => exact absurd (hc.abandoned hc') (by simp [hok])
  -- the operation belongs to the front of the queue, and it is the only one
  obtain ⟨ws, hws, rfl⟩ : ∃ ws, c.pendingWriteReqs = req :: ws ∧ ops = [] := by
    have hfront := h.writeOps
    rw [hops] at hfront
    cases hq : c.pendingWriteReqs with
    | nil => simp [hq] at hfront
    | cons x ws =>
      rw [hq] at hfront
      simp only [head?_cons, toList_some, cons.injEq] at hfront
      exact ⟨ws, by rw [hfront.1], hfront.2⟩
  rw [enqueueRead_eq, nextWrite_eq]
  swap
  · exact hab
  rw [hws, tail_cons]
  exact
    { hc with
      conserved := by
        have hplaces := hc.conserved
        rw [hws] at hplaces
        simpa using hplaces
      writing := by
        intro hne
        cases ws with
        | nil => exact absurd rfl hne
        | cons next rest => simp
      reading := by
        intro _
        by_cases hempty : c.pendingReadReqs = []
        · simp [hempty]
        · simpa [hempty] using hc.reading hempty
      failed := fun hfailed => absurd hok (by simp [show c.failed = true from hfailed])
      healthy := fun _ => h.written req ws }

theorem delivered_inv (hc : c.Inv) (hok : c.failed = false) {req : Nat} {rest : List Nat}
    {rs : List (Nat × Bool)} (hreads : c.pendingReadReqs = req :: rest)
    (hrest : rest = rs.map Prod.fst ++ c.written.drop c.served) :
    ({ c with readOps := [], stream := rs.flatMap chunks }.whenDone req
      (.response req)).postRead.Inv := by
  have h := hc.healthy hok
  rw [postRead_eq]
  rw [whenDone, hreads, tail_cons, nil_append]
  exact
    { hc with
      conserved := by
        have hplaces := hc.conserved
        rw [hreads] at hplaces
        rw [map_append]
        exact hplaces.finish (Perm.refl _)
      answers := by
        intro x hx
        rcases mem_append.mp hx with hold | hnew
        · exact hc.answers x hold
        · rw [mem_singleton.mp hnew]
          exact .inr rfl
      reading := by
        intro hne
        cases rest with
        | nil => exact absurd rfl hne
        | cons next rest => simp
      failed := fun hfailed => absurd hok (by simp [show c.failed = true from hfailed])
      healthy := by
        intro _
        have hnone : (rest.head?.toList.map ReadOp.header).flatMap ReadOp.due = [] ∧
            (rest.head?.toList.map ReadOp.header).flatMap ReadOp.taken = [] := by
          cases rest <;> exact ⟨rfl, rfl⟩
        refine ⟨h.writeOps, ?_, h.served, rs, ?_, ?_⟩
        · cases rest <;> rfl
        · rw [hnone.1, nil_append]
        · rw [hnone.2, nil_append]
          exact hrest }

theorem header_inv (hc : c.Inv) (hok : c.failed = false) {req : Nat} {rest : List Nat}
    {rs : List (Nat × Bool)} (hreads : c.pendingReadReqs = req :: rest)
    (hrest : rest = rs.map Prod.fst ++ c.written.drop c.served) :
    Inv { c with readOps := [.ctx req req], stream := .data req :: rs.flatMap chunks } :=
  { hc with
    reading _ := cons_ne_nil _ _
    failed hfailed := absurd hok (by simp [show c.failed = true from hfailed])
    healthy _ := by
      have h := hc.healthy hok
      refine ⟨h.writeOps, ?_, h.served, rs, rfl, ?_⟩
      · rw [hreads]
        rfl
      · rw [hreads, hrest]
        rfl }

theorem readsCtx_eq_false {op : ReadOp} {ops : List ReadOp} (h : c.readOps = op :: ops)
    (hctx : c.readsCtx = false) : RpcClient.readsCtx { c with readOps := ops } = false := by
  unfold readsCtx at hctx ⊢
  rw [h, any_cons, Bool.or_eq_false_iff] at hctx
  exact hctx.2

theorem sent_inv {err : Bool} (hc : c.Inv) (hsafe : c.Safe (.sent err))
    (h : c.sent err = some d) : d.Inv := by
  unfold RpcClient.sent at h
  split at h
  · cases h
  · next req ops hops =>
    cases err with
    | true =>
      cases h
      exact Inv.handleError hc.conserved hc.answers (hsafe.2 rfl)
    | false =>
      cases h
      have hok : c.failed = false := by
        cases hf : c.failed with
        | false => rfl
        | true => exact absurd (hsafe.1 hf) (by decide)
      exact sent_ok_inv hc hok hops

/-- Before a failure the oldest read is the only one, and it is for the front of the queue. -/
theorem Healthy.front (h : c.Healthy) {op : ReadOp} {ops : List ReadOp}
    (hops : c.readOps = op :: ops) :
    ops = [] ∧ ∃ rest, c.pendingReadReqs = op.req :: rest := by
  have hfront := h.readOps
  rw [hops] at hfront
  cases hq : c.pendingReadReqs with
  | nil => simp [hq] at hfront
  | cons x rest =>
    rw [hq] at hfront
    simp only [map_cons, head?_cons, toList_some, cons.injEq, map_eq_nil_iff] at hfront
    exact ⟨hfront.2, rest, by rw [hfront.1]⟩

theorem responseRead_inv {err crcOk metaOk : Bool} (hc : c.Inv)
    (hsafe : c.Safe (.responseRead err crcOk metaOk))
    (h : c.responseRead err crcOk metaOk = some d) : d.Inv := by
  unfold RpcClient.responseRead at h
  split at h
  · next req ops hops =>
    cases err with
    | true =>
      cases h
      refine Inv.handleError hc.conserved hc.answers ?_
      cases hf : c.failed with
      | true => exact readsCtx_eq_false hops (hc.failed hf)
      | false =>
        obtain ⟨rfl, -⟩ := (hc.healthy hf).front hops
        rfl
    | false =>
      have hok : c.failed = false := by
        cases hf : c.failed with
        | false => rfl
        | true => exact absurd (hsafe hf) (by decide)
      have hhealthy := hc.healthy hok
      obtain ⟨rfl, rest, hreads⟩ := hhealthy.front hops
      obtain ⟨rs, hstream, hqueue⟩ := hhealthy.stream
      rw [hops] at hstream hqueue
      simp only [ReadOp.due, ReadOp.taken, flatMap_cons, flatMap_nil, nil_append] at hstream hqueue
      rw [if_neg (by decide)] at h
      cases rs with
      | nil =>
        cases hstream ▸ h
      | cons r rs =>
        -- the next bytes are the response to the request at the front
        obtain ⟨k, carriesData⟩ := r
        rw [hreads] at hqueue
        simp only [map_cons, cons_append, cons.injEq, ReadOp.req] at hqueue
        obtain ⟨rfl, hrest⟩ := hqueue
        simp only [flatMap_cons, chunks, cons_append] at hstream
        rw [hstream] at h
        dsimp only at h
        split at h
        · cases h
          exact Inv.handleError hc.conserved hc.answers rfl
        · cases carriesData with
          | true =>
            cases h
            exact header_inv hc hok hreads hrest
          | false =>
            cases h
            exact delivered_inv hc hok hreads hrest
  · cases h

theorem ctxRead_inv {err metaOk : Bool} (hc : c.Inv) (hsafe : c.Safe (.ctxRead err metaOk))
    (h : c.ctxRead err metaOk = some d) : d.Inv := by
  obtain ⟨hok, rfl⟩ := hsafe
  unfold RpcClient.ctxRead at h
  split at h
  · next req rsp ops hops =>
    have hhealthy := hc.healthy hok
    obtain ⟨rfl, rest, hreads⟩ := hhealthy.front hops
    obtain ⟨rs, hstream, hqueue⟩ := hhealthy.stream
    rw [hops] at hstream hqueue
    -- the data on the wire belongs to the header that was read, and both to the front of the queue
    rw [hreads] at hqueue
    simp only [ReadOp.due, ReadOp.taken, ReadOp.req, flatMap_cons, flatMap_nil,
      append_nil, singleton_append, cons.injEq] at hstream hqueue
    obtain ⟨rfl, hrest⟩ := hqueue
    rw [hstream] at h
    dsimp only at h
    rw [if_neg (by decide)] at h
    split at h
    · cases h
      exact Inv.handleError hc.conserved hc.answers rfl
    · rw [if_pos rfl] at h
      cases h
      exact delivered_inv hc hok hreads hrest
  · cases h

theorem cancelSocket_inv (hc : c.Inv) (hctx : c.readsCtx = false) : c.cancelSocket.Inv :=
  ⟨hc.conserved, hc.answers, hc.writing, hc.reading, fun _ => rfl, fun _ => hctx,
    nofun⟩

theorem respond_inv {carriesData : Bool} (hc : c.Inv) (h : c.respond carriesData = some d) :
    d.Inv := by
  obtain ⟨req, hreq, rfl⟩ := map_eq_some_iff.mp h
  refine { hc with healthy := ?_ }
  intro hok
  have hhealthy := hc.healthy hok
  obtain ⟨rs, hstream, hqueue⟩ := hhealthy.stream
  have hlt : c.served < c.written.length := by
    by_contra hge
    rw [getElem?_eq_none (Nat.le_of_not_lt hge)] at hreq
    cases hreq
  have hnext : c.written.drop c.served = req :: c.written.drop (c.served + 1) := by
    rw [drop_eq_getElem_cons hlt]
    rw [getElem?_eq_getElem hlt] at hreq
    rw [some.inj hreq]
  refine ⟨hhealthy.writeOps, hhealthy.readOps, hlt, rs ++ [(req, carriesData)], ?_, ?_⟩
  · rw [hstream]
    simp
  · rw [hqueue, hnext]
    simp

theorem step_inv (a : Action) (hc : c.Inv) (hsafe : c.Safe a) (h : c.step a = some d) : d.Inv := by
  cases a with
  | send =>
    cases h
    exact send_inv hc
  | sent err => exact sent_inv hc hsafe h
  | responseRead err crcOk metaOk => exact responseRead_inv hc hsafe h
  | ctxRead err metaOk => exact ctxRead_inv hc hsafe h
  | cancelSocket =>
    cases h
    exact cancelSocket_inv hc hsafe
  | respond carriesData => exact respond_inv hc h

theorem start_inv : ({} : RpcClient).Inv where
  conserved := conserved_nil
  answers _ hd := nomatch hd
  writing h := absurd rfl h
  reading h := absurd rfl h
  abandoned h := nomatch h
  failed h := nomatch h
  healthy _ := ⟨rfl, rfl, le_rfl, [], rfl, rfl⟩

/-- Each request is completed at most once, with an exception or with its own response, and exactly
once when no operation is outstanding. -/
theorem completed_once {as : List Action} {c : RpcClient}
    (hsafe : Runs.AllSteps step Safe {} as) (hrun : Runs.run step {} as = some c) :
    (c.done.map Prod.fst).Nodup ∧
    (∀ d ∈ c.done, d.2 = .exception ∨ d.2 = .response d.1) ∧
    (c.writeOps = [] → c.readOps = [] →
      ∀ req < c.nextReq, (c.done.map Prod.fst).count req = 1) := by
  have hc : c.Inv :=
    Runs.invariant_of_allSteps (P := Safe) (I := Inv)
      (fun _ a _ hi hs h => step_inv a hi hs h) start_inv hsafe hrun
  refine ⟨hc.conserved.nodup_left, hc.answers, ?_⟩
  intro hwrites hreads req hreq
  have hnoWrite : c.pendingWriteReqs = [] := by
    by_contra hne
    exact hc.writing hne hwrites
  have hnoRead : c.pendingReadReqs = [] := by
    by_contra hne
    exact hc.reading hne hreads
  have hall : Conserved (c.done.map Prod.fst) c.nextReq := by
    have h := hc.conserved
    rwa [hnoWrite, hnoRead, append_nil, append_nil] at h
  exact hall.count_eq_one hreq

end RpcClient

/-- The first response has a bad checksum while the second request is being written. -/
def badChecksum : List RpcClient.Action :=
  [.send, .sent false, .send, .respond false, .responseRead false false true, .sent false,
    .respond false, .responseRead false true true]

/-- Two responses are on their way when the first one is found to be bad, and then a third request
is sent. -/
def sendAfterBadChecksum : List RpcClient.Action :=
  [.send, .sent false, .send, .sent false, .respond false, .respond false,
    .responseRead false false true, .send, .sent false, .responseRead false true true]

/-- The connection breaks between the header of a response and its data. -/
def dataLost : List RpcClient.Action :=
  [.send, .sent false, .respond true, .responseRead false true true, .ctxRead true true]

/-- A request is completed twice, a request gets the response to another one, and a response is
handed out without its data. -/
theorem badly_completed : (Runs.run RpcClient.step {} badChecksum).map RpcClient.done =
        some [(0, .exception), (1, .exception), (1, .response 1)] ∧
      (Runs.run RpcClient.step {} sendAfterBadChecksum).map RpcClient.done =
        some [(0, .exception), (1, .exception), (2, .response 1)] ∧
      (Runs.run RpcClient.step {} dataLost).map RpcClient.done = some [(0, .garbled)] := by
  decide +kernel

/-- Two requests are written; after the response to the first one the connection is gone. -/
def connectionLost : List RpcClient.Action :=
  [.send, .sent false, .send, .sent false, .respond true, .responseRead false true true,
    .ctxRead false true, .send, .responseRead true true true, .sent true]

theorem connectionLost_completed :
    ∃ c, Runs.run RpcClient.step {} connectionLost = some c ∧ c.nextReq = 3 ∧
      ∀ req < 3, (c.done.map Prod.fst).count req = 1 := by
  have hobserved : (Runs.run RpcClient.step {} connectionLost).map
      (fun c => (c.writeOps, c.readOps, c.nextReq)) = some ([], [], 3) := by decide +kernel
  have hsafe : Runs.AllSteps RpcClient.step RpcClient.Safe {} connectionLost := by decide +kernel
  obtain ⟨c, hrun, hc⟩ := map_eq_some_iff.mp hobserved
  simp only [Prod.mk.injEq] at hc
  obtain ⟨hwrites, hreads, hnext⟩ := hc
  have hsound := RpcClient.completed_once hsafe hrun
  exact ⟨c, hrun, hnext, hnext ▸ hsound.2.2 hwrites hreads⟩

end Rpc
end Xio
