import Xio.Raft.ClientThreads

/-!
# Raft.BlockingClients — client requests that block

With the blocking return method the thread of a client waits in `handle_cli_req_callback` for the
element of its entry, for `client_req_timeout_` at most. It shares the element with the commit
thread and with a step-down, by pointer, while the table finds the element by the index of the entry.

The thread leaves in two parts. Under the lock of the table it takes the value and removes its index
from the table, unless its result is still `TIMEOUT`. After that it reads the result once more,
without the lock. Between the two parts, and between the end of the wait and the first of them, any
other thread can get in.

The threads of the server are those of `Raft.ClientThreads`, without their table.

- `BlockingClients.Safe`: an order of the threads
- `BlockingClients.Inv`: what holds between the steps, with the steps of the clients, of the
  requests and of a step-down; those of the commit thread are in `Raft.BlockingCompletion`
-/

namespace Xio
namespace Raft

open List Function Option

open ClientCompletion (Done HasEntry AtNext PhaseSound)

/-- `result_code_` of an element. -/
inductive BlockingCode
  | timeout
  | ok
  | cancelled
  deriving DecidableEq, Repr

/-- `commit_ret_elem`; `invoked` is the state of its `awaiter_`. -/
structure BlockingElem where
  idx : Nat
  code : BlockingCode := .timeout
  value : Option Bytes := none
  callbackInvoked : Bool := false
  invoked : Bool := false
  deriving DecidableEq, Repr

inductive RequestPhase
  | waiting
  | awake
  /-- Past the locked part, with the value that was read there. -/
  | collected (value : Option Bytes)
  | returned (code : BlockingCode) (value : Option Bytes)
  deriving DecidableEq, Repr

def RequestPhase.uncollected : RequestPhase → Bool
  | .waiting | .awake => true
  | _ => false

def RequestPhase.unreturned : RequestPhase → Bool
  | .returned _ _ => false
  | _ => true

structure BlockingRequest where
  idx : Nat
  term : Nat
  elem : Nat
  phase : RequestPhase := .waiting
  /-- The first of the end of the wait by timeout and a step-down: was the entry applied by then? -/
  late : Option Bool := none
  deriving DecidableEq, Repr

/-- The index of the entry that the commit thread is about to hand to the state machine. -/
def CommitPhase.picking : CommitPhase → Option Nat
  | .picked _ k _ => some k
  | _ => none

structure BlockingClients where
  core : ClientCompletion
  elems : Nat → BlockingElem := fun _ => { idx := 0 }
  nextElem : Nat := 0
  /-- `commit_ret_elems_`: indices and elements. -/
  table : List (Nat × Nat) := []
  requests : Nat → Option BlockingRequest := fun _ => none
  nextRequest : Nat := 0
  /-- Calls of `commit_ext` by a leader: index, term of the entry, returned value. -/
  led : List (Nat × Nat × Option Bytes) := []

namespace BlockingClients

variable {q : BlockingRequest} {r : Nat} {c : ClientCompletion} {k e : Nat}

def start (s : RaftServer) : BlockingClients :=
  { core := { srv := s, trackPeersSmCommitIdx := false } }

variable (v : BlockingClients)

inductive Action
  | store (bufs : List Bytes)
  | register
  | enterExec
  | pick
  | apply (value : Option Bytes)
  | complete
  | notify
  | exit
  | timeout (r : Nat)
  | wake (r : Nat)
  | collect (r : Nat)
  | answer (r : Nat)
  | loseRole (term : Nat)
  | drain
  | becomeLeader
  | other (t : RaftServer)

def findElem (k : Nat) : Option Nat := (v.table.find? (fun x => x.1 == k)).map Prod.snd

def eraseElem (k : Nat) : List (Nat × Nat) := v.table.filter (fun x => x.1 != k)

/-- The state machine has returned for the entry of the request. -/
def wasApplied (q : BlockingRequest) : Bool :=
  v.core.applied.any (fun a => a.1 == q.idx && a.2.1 == q.term)

def insertElem (x : BlockingElem) : BlockingClients :=
  { v with
    elems := Function.update v.elems v.nextElem x
    nextElem := v.nextElem + 1
    table := (x.idx, v.nextElem) :: v.table }

def newRequest (q : BlockingRequest) : BlockingClients :=
  { v with
    core := { v.core with client := none }
    requests := Function.update v.requests v.nextRequest (some q)
    nextRequest := v.nextRequest + 1 }

/-- The rest of `handle_cli_req`: the element of the commit thread is used where there is one. -/
def register (k term : Nat) : BlockingClients :=
  match v.findElem k with
  | some e => v.newRequest { idx := k, term := term, elem := e }
  | none => (v.insertElem { idx := k }).newRequest { idx := k, term := term, elem := v.nextElem }

/-- `commit_app_log` for a leader, after the state machine has returned. -/
def complete (k pc : Nat) (value : Option Bytes) : BlockingClients :=
  let done : BlockingClients := { v with core := { v.core with exec := .notifying true k [] } }
  match v.findElem k with
  | some e =>
    let x := { v.elems e with code := .ok, value := value }
    if x.callbackInvoked then
      -- its client has given up
      { done with elems := Function.update v.elems e x, table := v.eraseElem k }
    else { done with elems := Function.update v.elems e { x with invoked := true } }
  | none =>
    if k = pc then
      done.insertElem { idx := k, code := .ok, value := value, invoked := true }
    else done

def setRequest (r : Nat) (q : BlockingRequest) : BlockingClients :=
  { v with requests := Function.update v.requests r (some q) }

/-- The locked part of `handle_cli_req_callback`. -/
def collect (r : Nat) (q : BlockingRequest) : BlockingClients :=
  let x := v.elems q.elem
  { v.setRequest r { q with phase := .collected x.value } with
    elems := Function.update v.elems q.elem { x with callbackInvoked := true }
    table := if x.code = .timeout then v.table else v.eraseElem x.idx }

/-- A step-down, as every request sees it. -/
def markLate : BlockingClients :=
  { v with requests := fun r => (v.requests r).map fun q =>
      { q with late := q.late.or (some (v.wasApplied q)) } }

/-- `drop_all_pending_commit_elems`. -/
def dropAll : BlockingClients :=
  { v with
    elems := fun e =>
      if e ∈ v.table.map Prod.snd then
        { v.elems e with code := .cancelled, value := none, invoked := true }
      else v.elems e
    table := [] }

def withCore (c : ClientCompletion) : BlockingClients := { v with core := c }

/-- The call of `commit_ext` that the commit thread is about to make, if the server leads. -/
def ledCall (value : Option Bytes) : List (Nat × Nat × Option Bytes) :=
  match v.core.exec with
  | .picked _ k e =>
    if v.core.srv.role = .leader ∧ e.isConf = false then [(k, e.term, value)] else []
  | _ => []

def stepRequest (r : Nat) (q : BlockingRequest) (a : Action) : Option BlockingClients :=
  match a, q.phase with
  | .timeout _, .waiting =>
    if (v.elems q.elem).invoked then none
    else
      some (v.setRequest r { q with phase := .awake, late := q.late.or (some (v.wasApplied q)) })
  | .wake _, .waiting =>
    if (v.elems q.elem).invoked then some (v.setRequest r { q with phase := .awake }) else none
  | .collect _, .awake => some (v.collect r q)
  | .answer _, .collected value =>
    some (v.setRequest r { q with phase := .returned (v.elems q.elem).code value })
  | _, _ => none

def step : Action → Option BlockingClients
  | .store bufs => (v.core.step (.store bufs)).map v.withCore
  | .register => v.core.client.map (fun c => v.register c.1 c.2)
  | .enterExec => (v.core.step .enterExec).map v.withCore
  | .pick => (v.core.step .pick).map v.withCore
  | .apply value => (v.core.step (.apply value)).map fun c =>
    { v.withCore c with led := v.led ++ v.ledCall value }
  | .complete =>
    match v.core.exec with
    | .returned true k _ pc value => some (v.complete k pc value)
    | .returned false k _ _ _ => some (v.withCore { v.core with exec := .notifying false k [] })
    | _ => none
  | .notify => (v.core.step .notify).map v.withCore
  | .exit => (v.core.step .exit).map v.withCore
  | .loseRole term => (v.core.step (.loseRole term)).map v.markLate.withCore
  | .drain =>
    if v.core.client.isSome then none
    else
      some (v.markLate.dropAll.withCore
        { v.core with srv := v.core.srv.becomeFollower, steppingDown := false })
  | .becomeLeader => (v.core.step .becomeLeader).map v.withCore
  | .other t => (v.core.step (.other t)).map v.withCore
  | .timeout r => (v.requests r).bind fun q => v.stepRequest r q (.timeout r)
  | .wake r => (v.requests r).bind fun q => v.stepRequest r q (.wake r)
  | .collect r => (v.requests r).bind fun q => v.stepRequest r q (.collect r)
  | .answer r => (v.requests r).bind fun q => v.stepRequest r q (.answer r)

/-! ## Orders of the threads -/

/-- A batch ends at an index that no earlier request is still on its way to remove. -/
def SafeStore (bufs : List Bytes) : Prop :=
  ∀ r < v.nextRequest, ∀ q ∈ v.requests r, q.phase.uncollected = true →
    q.idx ≠ v.core.srv.log.nextSlot + bufs.length - 1

/-- The state machine is called by a leader, or for an index that no request waits for. -/
def SafeApply : Prop :=
  ∀ k ∈ v.core.exec.picking, v.core.srv.role = .leader ∨ v.findElem k = none

/-- The commit thread completes the index in a run that it began as a leader, unless nobody waits
for it, and not between the two parts of the thread that waits. -/
def SafeComplete : Prop :=
  ∀ x ∈ v.core.exec.returning,
    (x.1 = true → ∀ e ∈ v.findElem x.2.1, ∀ r < v.nextRequest, ∀ q ∈ v.requests r,
      q.elem = e → q.phase.uncollected = true ∨ q.phase.unreturned = false) ∧
    (x.1 = false → v.findElem x.2.1 = none ∧ v.core.clientIdx ≠ some x.2.1)

/-- The thread of a request does not come between the state machine and the completion. -/
def SafeCollect (r : Nat) : Prop :=
  ∀ q ∈ v.requests r, ∀ x ∈ v.core.exec.returning, x.2.1 ≠ q.idx

/-- A step-down finds no element of a request whose entry is applied. -/
def SafeDrain : Prop :=
  ∀ r < v.nextRequest, ∀ q ∈ v.requests r,
    q.phase.uncollected = true ∧ (q.idx, q.elem) ∈ v.table → v.wasApplied q = false

def Safe : Action → Prop
  | .store bufs => v.SafeStore bufs
  | .apply _ => v.SafeApply
  | .complete => v.SafeComplete
  | .collect r => v.SafeCollect r
  | .drain => v.SafeDrain
  | _ => True

instance (bufs : List Bytes) : Decidable (v.SafeStore bufs) :=
  inferInstanceAs (Decidable (∀ r < v.nextRequest, ∀ q ∈ v.requests r, _ → _))

instance : Decidable v.SafeApply :=
  inferInstanceAs (Decidable (∀ k ∈ v.core.exec.picking, _ ∨ _))

instance : Decidable v.SafeComplete :=
  inferInstanceAs (Decidable (∀ x ∈ v.core.exec.returning, _ ∧ _))

instance (r : Nat) : Decidable (v.SafeCollect r) :=
  inferInstanceAs (Decidable (∀ q ∈ v.requests r, ∀ x ∈ v.core.exec.returning, _))

instance : Decidable v.SafeDrain :=
  inferInstanceAs (Decidable (∀ r < v.nextRequest, ∀ q ∈ v.requests r, _ ∧ _ → _))

instance (v : BlockingClients) (a : Action) : Decidable (v.Safe a) := by
  cases a <;> (dsimp only [Safe]; infer_instance)

/-! ## Invariant -/

/-- An element of the table. Until the completion of its index it is for a request whose entry is
in the log. After it a client that is about to register finds the value of its own entry. -/
structure ElemSound (k e : Nat) : Prop where
  idx : (v.elems e).idx = k
  made : e < v.nextElem
  waits : (v.elems e).code = .timeout →
    ¬ v.core.Done k ∧ v.core.Guarded ∧ (∃ term, v.core.HasEntry k term) ∧ v.core.clientIdx ≠ some k
  done : (v.elems e).code ≠ .timeout → (v.elems e).code = .ok ∧ v.core.Done k
  unclaimed : ∀ term, v.core.client = some (k, term) → (k, term, (v.elems e).value) ∈ v.led ∧
    ∀ r q, v.requests r = some q → q.phase.unreturned = true → q.elem ≠ e

/-- What a request, its element and the table have to do with each other. -/
inductive Standing (q : BlockingRequest) : Prop
  | pending (phase : q.phase.uncollected = true) (code : (v.elems q.elem).code = .timeout)
      (listed : (q.idx, q.elem) ∈ v.table) (entry : v.core.HasEntry q.idx q.term)
      (callback : (v.elems q.elem).callbackInvoked = false)
      (event : (v.elems q.elem).invoked = false) (late : q.phase = .awake → q.late ≠ none)
  | ready (phase : q.phase.uncollected = true) (code : (v.elems q.elem).code = .ok)
      (listed : (q.idx, q.elem) ∈ v.table) (value : (q.idx, q.term, (v.elems q.elem).value) ∈ v.led)
  | dropped (phase : q.phase.uncollected = true) (code : (v.elems q.elem).code = .cancelled)
      (unlisted : ∀ k, (k, q.elem) ∉ v.table) (late : q.late = some false)
  | gaveUp {value : Option Bytes} (phase : q.phase = .collected value)
      (code : (v.elems q.elem).code = .timeout) (listed : (q.idx, q.elem) ∈ v.table)
      (late : q.late = some false)
  | taken {value : Option Bytes} (phase : q.phase = .collected value)
      (code : (v.elems q.elem).code = .ok) (unlisted : ∀ k, (k, q.elem) ∉ v.table)
      (value : (q.idx, q.term, value) ∈ v.led)
  | lost {value : Option Bytes} (phase : q.phase = .collected value)
      (code : (v.elems q.elem).code = .cancelled) (unlisted : ∀ k, (k, q.elem) ∉ v.table)
      (late : q.late = some false)
  | answered {code : BlockingCode} {value : Option Bytes} (phase : q.phase = .returned code value)
      (ok : code = .ok → (q.idx, q.term, value) ∈ v.led) (late : code ≠ .ok → q.late = some false)

structure Shape : Prop where
  keys : ∀ k e e', (k, e) ∈ v.table → (k, e') ∈ v.table → e = e'
  made : ∀ r q, v.requests r = some q → r < v.nextRequest
  owns : ∀ r q, v.requests r = some q → q.phase.unreturned = true →
    q.elem < v.nextElem ∧ (v.elems q.elem).idx = q.idx
  distinct : ∀ r q r' q', v.requests r = some q → v.requests r' = some q' →
    q.phase.unreturned = true → q'.phase.unreturned = true → q.elem = q'.elem → r = r'
  apart : ∀ r q r' q', v.requests r = some q → v.requests r' = some q' →
    q.phase.uncollected = true → q'.phase.unreturned = true → (q'.idx, q'.elem) ∈ v.table →
    q.idx = q'.idx → r = r'

structure Inv : Prop where
  threads : v.core.Threads
  shape : v.Shape
  elems : ∀ k e, (k, e) ∈ v.table → v.ElemSound k e
  standing : ∀ r q, v.requests r = some q → v.Standing q
  late : ∀ r q, v.requests r = some q → q.late = some true → v.wasApplied q = true
  early : ∀ k term, v.core.client = some (k, term) → v.core.Done k → ∃ e, (k, e) ∈ v.table
  reserved : ∀ k term, v.core.client = some (k, term) → ∀ r q, v.requests r = some q →
    q.phase.uncollected = true → q.idx ≠ k
  ledApplied : v.led ⊆ v.core.applied
  returned : ∀ b k e pc value, v.core.exec = .returned b k e pc value →
    (k, e.term, value) ∈ v.led ∨ (∀ el, (k, el) ∉ v.table) ∧ v.core.clientIdx ≠ some k

variable {v} {w : BlockingClients}

theorem unreturned_of_uncollected {p : RequestPhase} (h : p.uncollected = true) :
    p.unreturned = true := by
  cases p <;> first | rfl | cases h

theorem start_inv {s : RaftServer} (hrole : s.role ≠ .leader)
    (hlog : s.smCommitIndex < s.log.nextSlot) : (start s).Inv where
  threads := ⟨nofun, trivial, nofun, hlog,
    fun h => absurd h hrole⟩
  shape := ⟨nofun, nofun, nofun,
    nofun, nofun⟩
  elems _ _ h := nomatch h
  standing _ _ h := nomatch h
  late _ _ h := nomatch h
  early _ _ h := nomatch h
  reserved _ _ h := nomatch h
  ledApplied := Subset.refl _
  returned _ _ _ _ _ h := nomatch h

/-- A request after a step that hands out no element. -/
structure Follows (q q' : BlockingRequest) : Prop where
  idx : q'.idx = q.idx
  term : q'.term = q.term
  elem : q'.elem = q.elem
  uncollected : q'.phase.uncollected = true → q.phase.uncollected = true
  unreturned : q'.phase.unreturned = true → q.phase.unreturned = true

theorem Follows.refl (q : BlockingRequest) : Follows q q :=
  ⟨rfl, rfl, rfl, fun h => h, fun h => h⟩

/-- A step that hands out no element. -/
structure Evolves (v w : BlockingClients) : Prop where
  requests : ∀ r q', w.requests r = some q' → ∃ q, v.requests r = some q ∧ Follows q q'
  nextRequest : w.nextRequest = v.nextRequest
  nextElem : w.nextElem = v.nextElem
  idx : ∀ e, (w.elems e).idx = (v.elems e).idx
  table : w.table ⊆ v.table

theorem Evolves.shape (h : Evolves v w) (hv : v.Shape) : w.Shape where
  keys k e e' he he' := hv.keys k e e' (h.table he) (h.table he')
  made r q' hq' := by
    obtain ⟨q, hq, -⟩ := h.requests r q' hq'
    rw [h.nextRequest]
    exact hv.made r q hq
  owns r q' hq' hopen := by
    obtain ⟨q, hq, hfollow⟩ := h.requests r q' hq'
    rw [h.nextElem, h.idx, hfollow.elem, hfollow.idx]
    exact hv.owns r q hq (hfollow.unreturned hopen)
  distinct r q r' q' hq hq' hopen hopen' helem := by
    obtain ⟨p, hp, hf⟩ := h.requests r q hq
    obtain ⟨p', hp', hf'⟩ := h.requests r' q' hq'
    rw [hf.elem, hf'.elem] at helem
    exact hv.distinct r p r' p' hp hp' (hf.unreturned hopen) (hf'.unreturned hopen') helem
  apart r q r' q' hq hq' hopen hopen' hlisted hidx := by
    obtain ⟨p, hp, hf⟩ := h.requests r q hq
    obtain ⟨p', hp', hf'⟩ := h.requests r' q' hq'
    rw [hf'.idx, hf'.elem] at hlisted
    rw [hf.idx, hf'.idx] at hidx
    exact hv.apart r p r' p' hp hp' (hf.uncollected hopen) (hf'.unreturned hopen')
      (h.table hlisted) hidx

theorem Evolves.reserved (h : Evolves v w) (hv : v.Inv)
    (hclient : ∀ k term, w.core.client = some (k, term) → v.core.client = some (k, term)) :
    ∀ k term, w.core.client = some (k, term) → ∀ r q, w.requests r = some q →
      q.phase.uncollected = true → q.idx ≠ k := by
  intro k term hc r q' hq' hopen
  obtain ⟨q, hq, hf⟩ := h.requests r q' hq'
  rw [hf.idx]
  exact hv.reserved k term (hclient k term hc) r q hq (hf.uncollected hopen)

theorem Standing.mono (h : v.Standing q)
    (helem : q.phase.unreturned = true → w.elems q.elem = v.elems q.elem)
    (hlisted : q.phase.unreturned = true → ∀ k, (k, q.elem) ∈ w.table ↔ (k, q.elem) ∈ v.table)
    (hentry : (q.idx, q.elem) ∈ v.table → (v.elems q.elem).code = .timeout →
      v.core.HasEntry q.idx q.term → w.core.HasEntry q.idx q.term)
    (hled : v.led ⊆ w.led) : w.Standing q := by
  have hunreturned : q.phase.unreturned = true ∨ ∃ code value, q.phase = .returned code value := by
    cases q.phase <;> simp [RequestPhase.unreturned]
  rcases hunreturned with hopen | ⟨code', value', hreturned⟩
  · have he := helem hopen
    have hin := hlisted hopen
    have hout (hno : ∀ k, (k, q.elem) ∉ v.table) k : (k, q.elem) ∉ w.table := mt (hin k).mp (hno k)
    cases h with
    | pending phase code listed entry callback event late =>
      exact .pending phase (he ▸ code) ((hin _).mpr listed) (hentry listed code entry)
        (he ▸ callback) (he ▸ event) late
    | ready phase code listed value =>
      exact .ready phase (he ▸ code) ((hin _).mpr listed) (he ▸ hled value)
    | dropped phase code unlisted late => exact .dropped phase (he ▸ code) (hout unlisted) late
    | gaveUp phase code listed late => exact .gaveUp phase (he ▸ code) ((hin _).mpr listed) late
    | taken phase code unlisted value =>
      exact .taken phase (he ▸ code) (hout unlisted) (hled value)
    | lost phase code unlisted late => exact .lost phase (he ▸ code) (hout unlisted) late
    | answered phase ok late => exact .answered phase (fun h => hled (ok h)) late
  · cases h with
    | answered phase ok late => exact .answered phase (fun h => hled (ok h)) late
    | _ phase => simp [hreturned, RequestPhase.uncollected] at phase

theorem clientIdx_eq_some {k : Nat} : c.clientIdx = some k ↔ ∃ term, c.client = some (k, term) := by
  unfold ClientCompletion.clientIdx
  cases c.client with
  | none => simp
  | some x => simp [Prod.ext_iff, eq_comm]

theorem ElemSound.mono (h : v.ElemSound k e) (hnext : v.nextElem ≤ w.nextElem)
    (hidx : (w.elems e).idx = (v.elems e).idx) (hcode : (w.elems e).code = (v.elems e).code)
    (hvalue : (w.elems e).value = (v.elems e).value) (hdone : w.core.Done k ↔ v.core.Done k)
    (hentry : ∀ term, v.core.Guarded → ¬ v.core.Done k → v.core.HasEntry k term →
      w.core.HasEntry k term) (hguard : v.core.Guarded → w.core.Guarded)
    (hclient : ∀ term, w.core.client = some (k, term) → v.core.client = some (k, term))
    (hled : v.led ⊆ w.led)
    (howner : ∀ r q', w.requests r = some q' → q'.phase.unreturned = true → q'.elem = e →
      ∃ q, v.requests r = some q ∧ q.phase.unreturned = true ∧ q.elem = e) : w.ElemSound k e where
  idx := hidx.trans h.idx
  made := h.made.trans_le hnext
  waits hc := by
    obtain ⟨hnot, hg, ⟨term, hterm⟩, hfree⟩ := h.waits (hcode ▸ hc)
    refine ⟨fun hd => hnot (hdone.mp hd), hguard hg, ⟨term, hentry term hg hnot hterm⟩, ?_⟩
    intro hc'
    obtain ⟨t, ht⟩ := clientIdx_eq_some.mp hc'
    exact hfree (clientIdx_eq_some.mpr ⟨t, hclient t ht⟩)
  done hc := by
    obtain ⟨hok, hd⟩ := h.done (hcode ▸ hc)
    exact ⟨hcode.trans hok, hdone.mpr hd⟩
  unclaimed term hc := by
    obtain ⟨hval, hown⟩ := h.unclaimed term (hclient term hc)
    refine ⟨hvalue ▸ hled hval, fun r q' hq' hopen heq => ?_⟩
    obtain ⟨q, hq, ho, hqe⟩ := howner r q' hq' hopen heq
    exact hown r q hq ho hqe

theorem Evolves.owner (h : Evolves v w) {e : Nat} :
    ∀ r q', w.requests r = some q' → q'.phase.unreturned = true → q'.elem = e →
      ∃ q, v.requests r = some q ∧ q.phase.unreturned = true ∧ q.elem = e := by
  intro r q' hq' hopen heq
  obtain ⟨q, hq, hf⟩ := h.requests r q' hq'
  exact ⟨q, hq, hf.unreturned hopen, hf.elem ▸ heq⟩

theorem Inv.entry_of_listed (hv : v.Inv) {k e term : Nat}
    (hentry : v.core.Guarded → ¬ v.core.Done k → v.core.HasEntry k term → c.HasEntry k term)
    (hlisted : (k, e) ∈ v.table) (hcode : (v.elems e).code = .timeout)
    (h : v.core.HasEntry k term) : c.HasEntry k term := by
  obtain ⟨hnot, hguard, -⟩ := (hv.elems k e hlisted).waits hcode
  exact hentry hguard hnot h

/-! ## Steps of the server that nobody at the table notices -/

structure Unnoticed (v : BlockingClients) (c : ClientCompletion) : Prop where
  threads : c.Threads
  done : ∀ k, c.Done k ↔ v.core.Done k
  entry : ∀ k term, v.core.Guarded → ¬ v.core.Done k → v.core.HasEntry k term → c.HasEntry k term
  guard : v.table ≠ [] → v.core.Guarded → c.Guarded
  applied : c.applied = v.core.applied
  client : c.client = v.core.client
  returned : ∀ b k e pc value, c.exec = .returned b k e pc value →
    v.core.exec = .returned b k e pc value

theorem evolves_withCore (c : ClientCompletion) : Evolves v (v.withCore c) :=
  ⟨fun _ q hq => ⟨q, hq, .refl q⟩, rfl, rfl, fun _ => rfl, Subset.refl _⟩

theorem Unnoticed.inv (h : v.Unnoticed c) (hv : v.Inv) : (v.withCore c).Inv where
  threads := h.threads
  shape := (evolves_withCore c).shape hv.shape
  elems k e he := by
    have hne : v.table ≠ [] := ne_nil_of_mem he
    exact (hv.elems k e he).mono le_rfl rfl rfl rfl (h.done k) (h.entry k) (h.guard hne)
      (fun _ hc => h.client ▸ hc) (Subset.refl _) (evolves_withCore c).owner
  standing r q hq := (hv.standing r q hq).mono (fun _ => rfl) (fun _ _ => Iff.rfl)
    (hv.entry_of_listed (h.entry q.idx q.term)) (Subset.refl _)
  late r q hq hl := by
    have happlied := hv.late r q hq hl
    unfold wasApplied withCore
    rw [h.applied]
    exact happlied
  early k term hc hd := hv.early k term (h.client ▸ hc) ((h.done k).mp hd)
  reserved := (evolves_withCore c).reserved hv (fun _ _ hc => h.client ▸ hc)
  ledApplied := by
    show v.led ⊆ c.applied
    rw [h.applied]
    exact hv.ledApplied
  returned b k e pc value hexec := by
    have hclient : c.clientIdx = v.core.clientIdx := by
      unfold ClientCompletion.clientIdx
      rw [h.client]
    show _ ∨ _ ∧ c.clientIdx ≠ some k
    rw [hclient]
    exact hv.returned b k e pc value (h.returned b k e pc value hexec)

theorem Inv.withPhase (hv : v.Inv) {p : CommitPhase} (hpast : p.past = v.core.exec.past)
    (hreturning : p.returning = v.core.exec.returning) (hsound : v.core.PhaseSound p)
    (hreturned : ∀ b k e pc value, p = .returned b k e pc value →
      v.core.exec = .returned b k e pc value) :
    (v.withCore { v.core with exec := p }).Inv := by
  refine Unnoticed.inv ?_ hv
  refine ⟨hv.threads.withPhase hpast hreturning hsound, ?_, fun _ _ _ _ h => h, fun _ h => h, rfl, rfl,
    hreturned⟩
  intro k
  unfold ClientCompletion.Done
  rw [← hpast]

theorem Inv.withServer (hv : v.Inv) {t : RaftServer}
    (hsm : t.smCommitIndex = v.core.srv.smCommitIndex) (hkeep : v.core.Keeps t)
    (hguard : v.table ≠ [] → v.core.Guarded → ClientCompletion.Guarded { v.core with srv := t })
    (ht : ClientCompletion.Threads { v.core with srv := t }) :
    (v.withCore { v.core with srv := t }).Inv :=
  Unnoticed.inv ⟨ht, ClientCompletion.done_withServer hsm,
    fun _ _ hg hnot h => h.withServer hkeep hg hnot, hguard, rfl, rfl, fun _ _ _ _ _ => id⟩ hv

theorem other_inv (hv : v.Inv) {t : RaftServer} (ht : v.core.Undisturbed t) :
    (v.withCore { v.core with srv := t }).Inv := by
  refine hv.withServer ht.2.1 ht.keeps ?_ (hv.threads.other ht)
  rintro - (hlead | hstep)
  · exact .inl (ht.1.trans hlead)
  · exact .inr hstep

theorem becomeLeader_inv (hv : v.Inv) (hclient : v.core.client = none) :
    (v.withCore { v.core with srv := v.core.srv.takeLeadership }).Inv :=
  hv.withServer rfl ClientCompletion.takeLeadership_keeps (fun _ _ => .inl rfl)
    (hv.threads.becomeLeader hclient)

theorem advance_inv (hv : v.Inv) {b : Bool} {k : Nat} (hexec : v.core.exec = .notifying b k []) :
    (v.withCore { v.core with srv := v.core.srv.applied k, exec := .looping b }).Inv :=
  Unnoticed.inv ⟨hv.threads.advance hexec, hv.threads.done_advance hexec, fun _ _ _ _ => id,
    fun _ => id, rfl, rfl, nofun⟩ hv

/-! ## Step-downs -/

theorem markLate_requests {q' : BlockingRequest} (h : v.markLate.requests r = some q') :
    ∃ q, v.requests r = some q ∧ q' = { q with late := q.late.or (some (v.wasApplied q)) } := by
  obtain ⟨q, hq, rfl⟩ := map_eq_some_iff.mp h
  exact ⟨q, hq, rfl⟩

theorem evolves_markLate : Evolves v v.markLate where
  requests r q' hq' := by
    obtain ⟨q, hq, rfl⟩ := markLate_requests hq'
    exact ⟨q, hq, rfl, rfl, rfl, fun h => h, fun h => h⟩
  nextRequest := rfl
  nextElem := rfl
  idx _ := rfl
  table := Subset.refl _

theorem Inv.late_or (hv : v.Inv) (hq : v.requests r = some q)
    (hl : q.late.or (some (v.wasApplied q)) = some true) : v.wasApplied q = true := by
  cases hlate : q.late with
  | none =>
    rw [hlate] at hl
    exact some.inj hl
  | some b =>
    cases hlate ▸ hl
    exact hv.late r q hq hlate

theorem Standing.withLate (h : v.Standing q) (b : Bool) :
    v.Standing { q with late := q.late.or (some b) } := by
  cases h with
  | pending phase code listed entry callback event late =>
    exact .pending phase code listed entry callback event (fun _ => by cases q.late <;> simp)
  | ready phase code listed value => exact .ready phase code listed value
  | dropped phase code unlisted late => exact .dropped phase code unlisted (by simp [late])
  | gaveUp phase code listed late => exact .gaveUp phase code listed (by simp [late])
  | taken phase code unlisted value => exact .taken phase code unlisted value
  | lost phase code unlisted late => exact .lost phase code unlisted (by simp [late])
  | answered phase ok late => exact .answered phase ok (fun h => by simp [late h])

theorem markLate_inv (hv : v.Inv) : v.markLate.Inv :=
  { hv with
    shape := evolves_markLate.shape hv.shape
    elems k e he := (hv.elems k e he).mono le_rfl rfl rfl rfl Iff.rfl (fun _ _ _ => id)
      id (fun _ => id) (Subset.refl _) evolves_markLate.owner
    standing r q' hq' := by
      obtain ⟨q, hq, rfl⟩ := markLate_requests hq'
      exact ((hv.standing r q hq).withLate _).mono (fun _ => rfl) (fun _ _ => Iff.rfl)
        (fun _ _ => id) (Subset.refl _)
    late r q' hq' hl := by
      obtain ⟨q, hq, rfl⟩ := markLate_requests hq'
      show v.wasApplied q = true
      exact hv.late_or hq hl
    reserved := evolves_markLate.reserved hv (fun _ _ => id) }

theorem evolves_dropAll : Evolves v v.dropAll where
  requests _ q hq := ⟨q, hq, .refl q⟩
  nextRequest := rfl
  nextElem := rfl
  idx e := by
    dsimp only [dropAll]
    split <;> rfl
  table := nil_subset _

theorem dropAll_listed (h : (k, e) ∈ v.table) :
    v.dropAll.elems e = { v.elems e with code := .cancelled, value := none, invoked := true } :=
  if_pos (mem_map_of_mem h)

theorem dropAll_unlisted {e : Nat} (h : ∀ k, (k, e) ∉ v.table) : v.dropAll.elems e = v.elems e := by
  refine if_neg fun hmem => ?_
  obtain ⟨x, hx, rfl⟩ := mem_map.mp hmem
  exact h x.1 hx

/-- The table is cleared after what every request knew at the step-down is noted. -/
theorem dropAll_inv (hv : v.Inv) (hclient : v.core.client = none) (hsafe : v.SafeDrain)
    (hnoted : ∀ r q, v.requests r = some q → q.late ≠ none) : v.dropAll.Inv where
  threads := hv.threads
  shape := evolves_dropAll.shape hv.shape
  elems _ _ h := nomatch h
  standing r q hq := by
    have hunlisted : ∀ k, (k, q.elem) ∉ v.dropAll.table := nofun
    cases hv.standing r q hq with
    | pending phase code listed entry callback event late =>
      have hlate : q.late = some false := by
        have happlied := hsafe r (hv.shape.made r q hq) q hq ⟨phase, listed⟩
        cases hl : q.late with
        | none => exact absurd hl (hnoted r q hq)
        | some b =>
          cases b with
          | false => rfl
          | true => cases happlied.symm.trans (hv.late r q hq hl)
      exact .dropped phase (by rw [dropAll_listed listed]) hunlisted hlate
    | ready phase code listed value =>
      have happlied := hsafe r (hv.shape.made r q hq) q hq ⟨phase, listed⟩
      have hin := hv.ledApplied value
      have hyes : v.wasApplied q = true := any_eq_true.mpr ⟨_, hin, by simp⟩
      cases happlied.symm.trans hyes
    | dropped phase code unlisted late =>
      exact .dropped phase (by rw [dropAll_unlisted unlisted]; exact code) hunlisted late
    | gaveUp phase code listed late =>
      exact .lost phase (by rw [dropAll_listed listed]) hunlisted late
    | taken phase code unlisted value =>
      exact .taken phase (by rw [dropAll_unlisted unlisted]; exact code) hunlisted value
    | lost phase code unlisted late =>
      exact .lost phase (by rw [dropAll_unlisted unlisted]; exact code) hunlisted late
    | answered phase ok late => exact .answered phase ok late
  late := hv.late
  early k term hc := by
    cases hclient.symm.trans hc
  reserved := hv.reserved
  ledApplied := hv.ledApplied
  returned b k e pc value hexec := by
    rcases hv.returned b k e pc value hexec with hled | ⟨-, hfree⟩
    · exact .inl hled
    · exact .inr ⟨nofun, hfree⟩

theorem loseRole_inv (hv : v.Inv) (hclient : v.core.client = none) (term : Nat) :
    (v.markLate.withCore { v.core with
      srv := { v.core.srv with role := .follower, state := { v.core.srv.state with term := term } }
      steppingDown := true }).Inv := by
  have hthreads := hv.threads.notLeading hclient (t := { v.core.srv with
    role := .follower, state := { v.core.srv.state with term := term } }) nofun
    rfl rfl rfl
  refine Unnoticed.inv (v := v.markLate) ?_ (markLate_inv hv)
  exact ⟨{ hthreads with },
    fun _ => Iff.rfl, fun _ _ _ _ => id, fun _ _ => .inr rfl, rfl, rfl, fun _ _ _ _ _ => id⟩

theorem drain_inv (hv : v.Inv) (hclient : v.core.client = none) (hsafe : v.SafeDrain) :
    (v.markLate.dropAll.withCore { v.core with
      srv := v.core.srv.becomeFollower, steppingDown := false }).Inv := by
  have hdropped : v.markLate.dropAll.Inv := by
    refine dropAll_inv (markLate_inv hv) hclient ?_ ?_
    · intro r hr q' hq' hlisted
      obtain ⟨q, hq, rfl⟩ := markLate_requests hq'
      exact hsafe r hr q hq hlisted
    · intro r q' hq'
      obtain ⟨q, hq, rfl⟩ := markLate_requests hq'
      cases q.late <;> simp
  have hthreads := hv.threads.notLeading hclient (t := v.core.srv.becomeFollower)
    (by simp) (by simp) (by simp) (by simp)
  refine Unnoticed.inv ?_ hdropped
  refine ⟨{ hthreads with }, ?_, ?_, fun h => absurd rfl h, rfl, rfl, fun _ _ _ _ _ => id⟩
  · intro k
    exact ClientCompletion.done_withServer (v := v.core) (by simp) k
  · intro k term _ _ h
    obtain ⟨e, he, hterm⟩ := h
    have hlog : v.core.srv.becomeFollower.log = v.core.srv.log := by simp
    exact ⟨e, (congrArg (fun log => log.entryAt k) hlog).trans he, hterm⟩

/-! ## The threads of the requests -/

theorem forall_setRequest {P : Nat → BlockingRequest → Prop} {q' : BlockingRequest}
    (hold : ∀ s q, s ≠ r → v.requests s = some q → P s q) (hnew : P r q') :
    ∀ s q, (v.setRequest r q').requests s = some q → P s q := by
  intro s q hq
  dsimp only [setRequest] at hq
  by_cases hs : s = r
  · rw [hs, update_self] at hq
    cases hq
    rwa [hs]
  · rw [update_of_ne hs] at hq
    exact hold s q hs hq

theorem evolves_setRequest {q q' : BlockingRequest} (hq : v.requests r = some q)
    (hf : Follows q q') : Evolves v (v.setRequest r q') where
  requests := forall_setRequest (P := fun s p' => ∃ p, v.requests s = some p ∧ Follows p p')
    (fun _ p _ hp => ⟨p, hp, .refl p⟩) ⟨q, hq, hf⟩
  nextRequest := rfl
  nextElem := rfl
  idx _ := rfl
  table := Subset.refl _

theorem setRequest_inv (hv : v.Inv) {q q' : BlockingRequest} (hq : v.requests r = some q)
    (hf : Follows q q') (hstanding : v.Standing q')
    (hlate : q'.late = some true → v.wasApplied q' = true) : (v.setRequest r q').Inv :=
  { hv with
    shape := (evolves_setRequest hq hf).shape hv.shape
    elems k e he := (hv.elems k e he).mono le_rfl rfl rfl rfl Iff.rfl (fun _ _ _ => id)
      id (fun _ => id) (Subset.refl _) (evolves_setRequest hq hf).owner
    standing := by
      have hsame : ∀ p, v.Standing p → (v.setRequest r q').Standing p := fun p hp =>
        hp.mono (fun _ => rfl) (fun _ _ => Iff.rfl) (fun _ _ => id) (Subset.refl _)
      exact forall_setRequest (fun s p _ hp => hsame p (hv.standing s p hp)) (hsame q' hstanding)
    late := forall_setRequest (P := fun _ p => p.late = some true → v.wasApplied p = true)
      (fun s p _ hp => hv.late s p hp) hlate
    reserved := (evolves_setRequest hq hf).reserved hv (fun _ _ => id) }

theorem Standing.withPhase (h : v.Standing q) {p : RequestPhase}
    (hphase : q.phase.uncollected = true) (hp : p.uncollected = true)
    (hlate : (v.elems q.elem).invoked = false → q.late ≠ none) :
    v.Standing { q with phase := p } := by
  cases h with
  | pending phase code listed entry callback event late =>
    exact .pending hp code listed entry callback event (fun _ => hlate event)
  | ready phase code listed value => exact .ready hp code listed value
  | dropped phase code unlisted late => exact .dropped hp code unlisted late
  | gaveUp phase | taken phase | lost phase | answered phase =>
    cases phase ▸ hphase

theorem timeout_inv (hv : v.Inv) (hq : v.requests r = some q) (hphase : q.phase = .waiting) :
    (v.setRequest r { q with phase := .awake, late := q.late.or (some (v.wasApplied q)) }).Inv := by
  refine setRequest_inv hv hq ⟨rfl, rfl, rfl, fun _ => hphase ▸ rfl,
    fun _ => hphase ▸ rfl⟩ ?_ ?_
  · refine ((hv.standing r q hq).withLate (v.wasApplied q)).withPhase (hphase ▸ rfl) rfl ?_
    intro _
    cases q.late <;> simp
  · exact hv.late_or hq

theorem wake_inv (hv : v.Inv) (hq : v.requests r = some q)
    (hphase : q.phase = .waiting) (hinvoked : (v.elems q.elem).invoked = true) :
    (v.setRequest r { q with phase := .awake }).Inv := by
  refine setRequest_inv hv hq ⟨rfl, rfl, rfl, fun _ => hphase ▸ rfl,
    fun _ => hphase ▸ rfl⟩ ?_ (hv.late r q hq)
  refine (hv.standing r q hq).withPhase (hphase ▸ rfl) rfl ?_
  intro hnot
  cases hinvoked.symm.trans hnot

theorem answer_inv (hv : v.Inv) (hq : v.requests r = some q)
    {value : Option Bytes} (hphase : q.phase = .collected value) :
    (v.setRequest r { q with phase := .returned (v.elems q.elem).code value }).Inv := by
  refine setRequest_inv hv hq ⟨rfl, rfl, rfl, nofun, nofun⟩ ?_
    (hv.late r q hq)
  cases hv.standing r q hq with
  | pending phase | ready phase | dropped phase =>
    cases hphase ▸ phase
  | gaveUp _ code _ late => exact .answered rfl (fun h => by rw [code] at h; cases h) (fun _ => late)
  | taken phase code _ hled =>
    cases hphase.symm.trans phase
    exact .answered rfl (fun _ => hled) (fun h => absurd code h)
  | lost _ code _ late => exact .answered rfl (fun h => by rw [code] at h; cases h) (fun _ => late)
  | answered phase => cases hphase.symm.trans phase

theorem mem_eraseElem {k k' e : Nat} : (k', e) ∈ v.eraseElem k ↔ (k', e) ∈ v.table ∧ k' ≠ k := by
  simp [eraseElem]

theorem findElem_eq_some (h : v.findElem k = some e) : (k, e) ∈ v.table := by
  obtain ⟨⟨k', e'⟩, hfind, rfl⟩ := map_eq_some_iff.mp h
  have hk : k' = k := by simpa using find?_some hfind
  rw [← hk]
  exact mem_of_find?_eq_some hfind

theorem findElem_eq_none {k : Nat} : v.findElem k = none ↔ ∀ e, (k, e) ∉ v.table := by
  simp only [findElem, map_eq_none_iff, find?_eq_none, beq_iff_eq, Prod.forall]
  exact ⟨fun h e he => h k e he rfl, fun h k' e he hk => h e (hk ▸ he)⟩

/-- A request that is late and whose element still waits was not applied in time, unless the commit
thread is about to complete it. -/
theorem Inv.late_of_waits (hv : v.Inv) (hq : v.requests r = some q)
    (hlisted : (q.idx, q.elem) ∈ v.table) (hcode : (v.elems q.elem).code = .timeout)
    (hlate : q.late ≠ none) (hsafe : v.SafeCollect r) : q.late = some false := by
  cases hl : q.late with
  | none => exact absurd hl hlate
  | some b =>
    cases b with
    | false => rfl
    | true =>
      have happlied := hv.late r q hq hl
      simp only [wasApplied, List.any_eq_true, Bool.and_eq_true, beq_iff_eq] at happlied
      obtain ⟨a, ha, hidx, -⟩ := happlied
      rcases hv.threads.applied a ha with hdone | ⟨b, pc, hreturning⟩
      · exact absurd (hidx ▸ hdone) ((hv.elems _ _ hlisted).waits hcode).1
      · exact absurd hidx (hsafe q hq _ hreturning)

theorem collect_table : (k, e) ∈ (v.collect r q).table ↔ (k, e) ∈ v.table ∧
      ((v.elems q.elem).code ≠ .timeout → k ≠ (v.elems q.elem).idx) := by
  show (k, e) ∈ (if _ then _ else _) ↔ _
  split
  · next hcode => simp [hcode]
  · next hcode => simp [hcode, mem_eraseElem]

theorem collect_elems (e : Nat) : ((v.collect r q).elems e).idx = (v.elems e).idx ∧
    ((v.collect r q).elems e).code = (v.elems e).code ∧
    ((v.collect r q).elems e).value = (v.elems e).value := by
  dsimp only [collect]
  by_cases he : e = q.elem
  · rw [he, update_self]
    exact ⟨rfl, rfl, rfl⟩
  · rw [update_of_ne he]
    exact ⟨rfl, rfl, rfl⟩

theorem evolves_collect (hq : v.requests r = some q)
    (hphase : q.phase = .awake) : Evolves v (v.collect r q) where
  requests := forall_setRequest (P := fun s p' => ∃ p, v.requests s = some p ∧ Follows p p')
    (fun _ p _ hp => ⟨p, hp, .refl p⟩)
    ⟨q, hq, rfl, rfl, rfl, nofun, fun _ => hphase ▸ rfl⟩
  nextRequest := rfl
  nextElem := rfl
  idx e := (collect_elems e).1
  table := fun _ h => (collect_table.mp h).1

theorem collect_keeps (hv : v.Inv) {r s : Nat} {q p : BlockingRequest} (hq : v.requests r = some q)
    (hphase : q.phase = .awake) (hp : v.requests s = some p) (hne : s ≠ r)
    (hopen : p.phase.unreturned = true) {k : Nat} (hlisted : (k, p.elem) ∈ v.table) :
    (k, p.elem) ∈ (v.collect r q).table := by
  have hcollects : q.phase.uncollected = true := hphase ▸ rfl
  refine collect_table.mpr ⟨hlisted, fun _ hk => hne ?_⟩
  rw [(hv.shape.owns r q hq (unreturned_of_uncollected hcollects)).2] at hk
  have hidx : k = p.idx := (hv.elems k p.elem hlisted).idx.symm.trans (hv.shape.owns s p hp hopen).2
  rw [hidx] at hlisted
  exact (hv.shape.apart r q s p hq hp hcollects hopen hlisted (hk.symm.trans hidx)).symm

theorem collect_standing (hv : v.Inv) (hq : v.requests r = some q)
    (hphase : q.phase = .awake) (hsafe : v.SafeCollect r) :
    (v.collect r q).Standing { q with phase := .collected (v.elems q.elem).value } := by
  have hcode := (collect_elems (v := v) (r := r) (q := q) q.elem).2.1
  have hgone : (v.elems q.elem).code ≠ .timeout → ∀ k, (k, q.elem) ∉ (v.collect r q).table := by
    intro hne k hk
    obtain ⟨hlisted, hother⟩ := collect_table.mp hk
    exact hother hne (hv.elems k q.elem hlisted).idx.symm
  cases hv.standing r q hq with
  | pending phase code listed entry callback event late =>
    have hlate := hv.late_of_waits hq listed code (late hphase) hsafe
    exact .gaveUp rfl (hcode.trans code) (collect_table.mpr ⟨listed, fun h => absurd code h⟩) hlate
  | ready phase code listed value =>
    exact .taken rfl (hcode.trans code) (hgone (by rw [code]; decide)) value
  | dropped phase code unlisted late =>
    exact .lost rfl (hcode.trans code) (hgone (by rw [code]; decide)) late
  | gaveUp phase | taken phase | lost phase | answered phase => cases hphase.symm.trans phase

theorem collect_inv (hv : v.Inv) (hq : v.requests r = some q)
    (hphase : q.phase = .awake) (hsafe : v.SafeCollect r) : (v.collect r q).Inv where
  threads := hv.threads
  shape := (evolves_collect hq hphase).shape hv.shape
  elems k e he := by
    obtain ⟨hidx, hcode, hvalue⟩ := collect_elems (v := v) (r := r) (q := q) e
    exact (hv.elems k e (collect_table.mp he).1).mono le_rfl hidx hcode hvalue Iff.rfl
      (fun _ _ _ => id) id (fun _ => id) (Subset.refl _)
      (evolves_collect hq hphase).owner
  standing := by
    refine forall_setRequest (P := fun _ p => (v.collect r q).Standing p) ?_
      (collect_standing hv hq hphase hsafe)
    intro s p hs hp
    refine (hv.standing s p hp).mono ?_ ?_ (fun _ _ => id) (Subset.refl _)
    · intro hopen
      have hne : p.elem ≠ q.elem := fun heq =>
        hs (hv.shape.distinct s p r q hp hq hopen (hphase ▸ rfl) heq)
      exact update_of_ne hne _ _
    · intro hopen k
      exact ⟨fun h => (collect_table.mp h).1, collect_keeps hv hq hphase hp hs hopen⟩
  late := forall_setRequest (P := fun _ p => p.late = some true → v.wasApplied p = true)
    (fun s p _ hp => hv.late s p hp) (hv.late r q hq)
  early k term hc hd := by
    obtain ⟨e, he⟩ := hv.early k term hc hd
    have hopen : q.phase.uncollected = true := hphase ▸ rfl
    refine ⟨e, collect_table.mpr ⟨he, fun _ hk => ?_⟩⟩
    rw [(hv.shape.owns r q hq (unreturned_of_uncollected hopen)).2] at hk
    exact hv.reserved k term hc r q hq hopen hk.symm
  reserved := (evolves_collect hq hphase).reserved hv (fun _ _ => id)
  ledApplied := hv.ledApplied
  returned b k e pc value hexec := by
    rcases hv.returned b k e pc value hexec with hled | ⟨hunlisted, hfree⟩
    · exact .inl hled
    · exact .inr ⟨fun el h => hunlisted el (collect_table.mp h).1, hfree⟩

/-! ## The client -/

theorem store_inv (hv : v.Inv) (hclient : v.core.client = none) (hlead : v.core.srv.role = .leader)
    {bufs : List Bytes} (hbufs : bufs ≠ []) (hsafe : v.SafeStore bufs) :
    (v.withCore (v.core.store bufs)).Inv := by
  have hpos : 0 < bufs.length := length_pos_of_ne_nil hbufs
  have hstored := ClientCompletion.store_client (v := v.core) bufs
  have hdone : ∀ k, (v.core.store bufs).Done k ↔ v.core.Done k := fun _ => Iff.rfl
  -- what is in the table or in the hands of the commit thread lies below the batch
  have hbelow : ∀ k, k < v.core.srv.log.nextSlot → (v.core.store bufs).clientIdx ≠ some k := by
    intro k hk hidx
    obtain ⟨term, hc⟩ := clientIdx_eq_some.mp hidx
    cases hstored.symm.trans hc
    omega
  have hlisted : ∀ k e, (k, e) ∈ v.table → k < v.core.srv.log.nextSlot := by
    intro k e he
    have hs := hv.elems k e he
    by_cases hcode : (v.elems e).code = .timeout
    · obtain ⟨term, x, hx, -⟩ := (hs.waits hcode).2.2.1
      exact LogStore.entryAt_lt_nextSlot hx
    · exact hv.threads.lt_of_done (hs.done hcode).2
  have hentry : ∀ k term, v.core.Guarded → ¬ v.core.Done k → v.core.HasEntry k term →
      (v.core.store bufs).HasEntry k term := fun k term hg hnot h =>
    h.withServer (ClientCompletion.store_keeps bufs) hg hnot
  exact
    { hv with
      threads := hv.threads.store hclient hlead hbufs
      shape := (evolves_withCore _).shape hv.shape
      elems := by
        intro k e he
        have hfree := hbelow k (hlisted k e he)
        refine (hv.elems k e he).mono le_rfl rfl rfl rfl (hdone k) (hentry k)
          id ?_ (Subset.refl _) (evolves_withCore _).owner
        intro term hc
        exact absurd (clientIdx_eq_some.mpr ⟨term, hc⟩) hfree
      standing := fun r q hq => (hv.standing r q hq).mono (fun _ => rfl) (fun _ _ => Iff.rfl)
        (hv.entry_of_listed (hentry q.idx q.term)) (Subset.refl _)
      early := by
        intro k term hc hd
        exact absurd (clientIdx_eq_some.mpr ⟨term, hc⟩) (hbelow k (hv.threads.lt_of_done hd))
      reserved := by
        intro k term hc r q hq hopen
        cases hstored.symm.trans hc
        exact hsafe r (hv.shape.made r q hq) q hq hopen
      returned := by
        intro b k e pc value hexec
        rcases hv.returned b k e pc value hexec with hled | ⟨hunlisted, -⟩
        · exact .inl hled
        · have hlt := hv.threads.phase_lt.2 (b, k, pc)
            (by rw [show v.core.exec = _ from hexec]; rfl)
          exact .inr ⟨hunlisted, hbelow k hlt⟩ }

theorem withoutClient (c : ClientCompletion) (hc : c.Threads) :
    ClientCompletion.Threads { c with client := none } :=
  { hc with
    client _ _ h := nomatch h
    phase := by
      have h := hc.phase
      cases hexec : c.exec with
      | returned b k e pc value =>
        rw [hexec] at h
        exact ⟨h.1, h.2.1, nofun⟩
      | idle | looping | picked | notifying =>
        rw [hexec] at h
        exact h }

/-- The client thread leaves with a request and its element. -/
structure Registers (v w : BlockingClients) (q : BlockingRequest) : Prop where
  client : v.core.client = some (q.idx, q.term)
  core : w.core = { v.core with client := none }
  led : w.led = v.led
  requests : w.requests = Function.update v.requests v.nextRequest (some q)
  nextRequest : w.nextRequest = v.nextRequest + 1
  nextElem : v.nextElem ≤ w.nextElem
  elems : ∀ e < v.nextElem, w.elems e = v.elems e
  table : ∀ x, x ∈ w.table ↔ x = (q.idx, q.elem) ∨ x ∈ v.table
  late : q.late = none
  unowned : ∀ r p, v.requests r = some p → p.phase.unreturned = true → p.elem ≠ q.elem
  alone : ∀ e, (q.idx, e) ∈ v.table → e = q.elem
  sound : w.ElemSound q.idx q.elem
  standing : w.Standing q

namespace Registers

variable {q : BlockingRequest} (h : Registers v w q)
include h

theorem request {p : BlockingRequest} (hp : w.requests r = some p) :
    r = v.nextRequest ∧ p = q ∨ v.requests r = some p := by
  rw [h.requests] at hp
  by_cases hr : r = v.nextRequest
  · rw [hr, update_self] at hp
    exact .inl ⟨hr, (some.inj hp).symm⟩
  · rw [update_of_ne hr] at hp
    exact .inr hp

theorem listed_iff {e k : Nat} (he : e ≠ q.elem) : (k, e) ∈ w.table ↔ (k, e) ∈ v.table := by
  rw [h.table]
  refine or_iff_right fun heq => he ?_
  exact (Prod.mk.injEq _ _ _ _ ▸ heq).2

theorem shape (hv : v.Inv) : w.Shape where
  keys k e e' he he' := by
    rcases (h.table _).mp he with heq | hold
    · cases heq
      rcases (h.table _).mp he' with heq' | hold'
      · cases heq'
        rfl
      · exact (h.alone e' hold').symm
    · rcases (h.table _).mp he' with heq' | hold'
      · cases heq'
        exact h.alone e hold
      · exact hv.shape.keys k e e' hold hold'
  made r p hp := by
    rw [h.nextRequest]
    rcases h.request hp with ⟨rfl, -⟩ | hold
    · exact Nat.lt_succ_self _
    · exact Nat.lt_succ_of_lt (hv.shape.made r p hold)
  owns r p hp hopen := by
    rcases h.request hp with ⟨-, rfl⟩ | hold
    · exact ⟨h.sound.made, h.sound.idx⟩
    · obtain ⟨hmade, hidx⟩ := hv.shape.owns r p hold hopen
      rw [h.elems p.elem hmade]
      exact ⟨hmade.trans_le h.nextElem, hidx⟩
  distinct r p r' p' hp hp' hopen hopen' heq := by
    rcases h.request hp with ⟨rfl, rfl⟩ | hold
    · rcases h.request hp' with ⟨rfl, -⟩ | hold'
      · rfl
      · exact absurd heq.symm (h.unowned r' p' hold' hopen')
    · rcases h.request hp' with ⟨rfl, rfl⟩ | hold'
      · exact absurd heq (h.unowned r p hold hopen)
      · exact hv.shape.distinct r p r' p' hold hold' hopen hopen' heq
  apart r p r' p' hp hp' hopen hopen' hlisted hidx := by
    rcases h.request hp' with ⟨rfl, rfl⟩ | hold'
    · rcases h.request hp with ⟨rfl, -⟩ | hold
      · rfl
      · exact absurd hidx (hv.reserved _ _ h.client r p hold hopen)
    · have hother := h.unowned r' p' hold' hopen'
      rw [h.listed_iff hother] at hlisted
      rcases h.request hp with ⟨-, rfl⟩ | hold
      · exact absurd (h.alone _ (hidx ▸ hlisted)) hother
      · exact hv.shape.apart r p r' p' hold hold' hopen hopen' hlisted hidx

theorem inv (hv : v.Inv) : w.Inv where
  threads := h.core ▸ withoutClient v.core hv.threads
  shape := h.shape hv
  elems k e he := by
    by_cases heq : (k, e) = (q.idx, q.elem)
    · cases heq
      exact h.sound
    · have hold := ((h.table _).mp he).resolve_left heq
      have hs := hv.elems k e hold
      have hsame := h.elems e hs.made
      have hother : e ≠ q.elem := by
        rintro rfl
        exact heq (Prod.ext ((hs.idx.symm.trans (hsame ▸ rfl)).trans h.sound.idx) rfl)
      refine hs.mono h.nextElem (by rw [hsame]) (by rw [hsame]) (by rw [hsame]) ?_ ?_ ?_ ?_ ?_ ?_
      · rw [h.core]
        rfl
      · rw [h.core]
        exact fun _ _ _ => id
      · rw [h.core]
        exact fun hg => hg
      · rw [h.core]
        exact nofun
      · rw [h.led]
        exact Subset.refl _
      · intro r p hp hopen hpe
        rcases h.request hp with ⟨-, rfl⟩ | hp'
        · exact absurd hpe.symm hother
        · exact ⟨p, hp', hopen, hpe⟩
  standing r p hp := by
    rcases h.request hp with ⟨-, rfl⟩ | hold
    · exact h.standing
    · refine (hv.standing r p hold).mono ?_ ?_ ?_ ?_
      · intro hopen
        exact h.elems p.elem (hv.shape.owns r p hold hopen).1
      · intro hopen k
        exact h.listed_iff (h.unowned r p hold hopen)
      · rw [h.core]
        exact fun _ _ => id
      · rw [h.led]
        exact Subset.refl _
  late r p hp hl := by
    rcases h.request hp with ⟨-, rfl⟩ | hold
    · cases h.late.symm.trans hl
    · rw [wasApplied, h.core]
      exact hv.late r p hold hl
  early k term hc := by
    cases h.core ▸ hc
  reserved k term hc := by
    cases h.core ▸ hc
  ledApplied := by
    rw [h.led, h.core]
    exact hv.ledApplied
  returned b k e pc value hexec := by
    rw [h.core] at hexec ⊢
    rw [h.led]
    rcases hv.returned b k e pc value hexec with hled | ⟨hunlisted, hfree⟩
    · exact .inl hled
    · refine .inr ⟨fun el hel => ?_, nofun⟩
      rcases (h.table _).mp hel with heq | hold
      · cases heq
        exact hfree (clientIdx_eq_some.mpr ⟨_, h.client⟩)
      · exact hunlisted el hold

end Registers

theorem registers_found (hv : v.Inv) {k term e : Nat} (hclient : v.core.client = some (k, term))
    (hlisted : (k, e) ∈ v.table) :
    Registers v (v.newRequest { idx := k, term := term, elem := e })
      { idx := k, term := term, elem := e } := by
  have hs := hv.elems k e hlisted
  obtain ⟨hvalue, hunowned⟩ := hs.unclaimed term hclient
  have hcode : (v.elems e).code = .ok ∧ v.core.Done k := by
    apply hs.done
    intro hwaits
    exact (hs.waits hwaits).2.2.2 (clientIdx_eq_some.mpr ⟨term, hclient⟩)
  exact
    { client := hclient
      core := rfl
      led := rfl
      requests := rfl
      nextRequest := rfl
      nextElem := le_rfl
      elems := fun _ _ => rfl
      table := fun x => ⟨Or.inr, fun h => h.elim (fun heq => heq ▸ hlisted) id⟩
      late := rfl
      unowned := hunowned
      alone := fun e' he' => hv.shape.keys k e' e he' hlisted
      sound :=
        { hs with
          waits := fun hwaits => nomatch hwaits.symm.trans hcode.1
          done := fun _ => hcode
          unclaimed := fun _ hc => nomatch hc }
      standing := .ready rfl hcode.1 hlisted hvalue }

theorem registers_new (hv : v.Inv) {k term : Nat} (hclient : v.core.client = some (k, term))
    (hnone : ∀ e, (k, e) ∉ v.table) :
    Registers v
      ((v.insertElem { idx := k }).newRequest { idx := k, term := term, elem := v.nextElem })
      { idx := k, term := term, elem := v.nextElem } := by
  obtain ⟨hlead, -, hentry⟩ := hv.threads.client k term hclient
  have hnot : ¬ v.core.Done k := fun hdone =>
    (hv.early k term hclient hdone).elim fun e he => hnone e he
  have hnew : ((v.insertElem { idx := k }).newRequest
      { idx := k, term := term, elem := v.nextElem }).elems v.nextElem = { idx := k } :=
    update_self _ _ _
  exact
    { client := hclient
      core := rfl
      led := rfl
      requests := rfl
      nextRequest := rfl
      nextElem := Nat.le_succ _
      elems := fun e he => update_of_ne (Nat.ne_of_lt he) _ _
      table := fun x => mem_cons
      late := rfl
      unowned := fun r p hp hopen => Nat.ne_of_lt (hv.shape.owns r p hp hopen).1
      alone := fun e he => absurd he (hnone e)
      sound :=
        { idx := by rw [hnew]
          made := Nat.lt_succ_self _
          waits := fun _ => ⟨hnot, .inl hlead, ⟨term, hentry hnot⟩, nofun⟩
          done := fun h => absurd (by rw [hnew]) h
          unclaimed := fun _ hc => nomatch hc }
      standing := .pending rfl (by rw [hnew]) mem_cons_self (hentry hnot) (by rw [hnew])
        (by rw [hnew]) nofun }

theorem register_inv (hv : v.Inv) {k term : Nat} (hclient : v.core.client = some (k, term)) :
    (v.register k term).Inv := by
  unfold register
  cases hfind : v.findElem k with
  | some e => exact (registers_found hv hclient (findElem_eq_some hfind)).inv hv
  | none => exact (registers_new hv hclient (findElem_eq_none.mp hfind)).inv hv

end BlockingClients
end Raft
end Xio
