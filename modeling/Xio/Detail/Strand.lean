import Xio.Lib.Runs

/-!
# Detail.Strand — the functions of a strand, one after the other

The model of `strand_executor_service` for one strand. Whoever finds `locked_` clear sets it and
schedules an invoker; the invoker runs the ready queue without the mutex, and on its exit takes
over what waits and schedules a successor, or clears `locked_`.

- `Inv.step`: the flag stands for the one agent that owns the ready queue
- `go_weight`: without new functions every step brings the strand closer to its end
-/

namespace Xio
namespace Detail

open List

/-- A thread or an invoker on the way from setting `locked_` to the end of the strand's turn. -/
inductive Agent
  /-- `enqueue` has set `locked_` and is about to push the operation. -/
  | acquired (op : Nat)
  /-- `do_execute` is about to hand the invoker to the inner executor. -/
  | first
  /-- The inner executor has the invoker. -/
  | scheduled
  /-- `run_ready_handlers` is about to look at the front of the ready queue. -/
  | looping
  /-- A function runs, with so many others inline on top of it. -/
  | running (inline : Nat)
  /-- `~on_invoker_exit`, in front of `push_waiting_to_ready` -/
  | exiting
  /-- There is more to do, and the successor is about to be submitted. -/
  | again
  deriving DecidableEq, Repr

/-- An operation that is in neither queue yet. -/
def Agent.held : Agent → List Nat
  | .acquired op => [op]
  | _ => []

def Agent.isRunning : Agent → Bool
  | .running _ => true
  | _ => false

/-- Functions are numbered in the order in which they are queued. `queued` counts them, and
`started` has those that were started from the ready queue. -/
structure Strand where
  locked : Bool := false
  waitingQueue : List Nat := []
  readyQueue : List Nat := []
  agents : List Agent := []
  queued : Nat := 0
  started : List Nat := []

/-- `execute`: a function is submitted, from inside function `caller` of the strand or from
elsewhere, through an executor that never blocks or may do so. `go`: an agent goes on; the function
on top, if there is one, returns or throws. -/
inductive Strand.Action
  | execute (caller : Option Nat) (never : Bool)
  | go (i : Nat) (throws : Bool)

namespace Strand

variable {x y : Strand}

def setAgent (x : Strand) (i : Nat) (a : Agent) : Strand := { x with agents := x.agents.set i a }

/-- `enqueue`; the caller that gets `true` goes on as an agent. -/
def enqueue (x : Strand) : Strand :=
  if x.locked then
    { x with waitingQueue := x.waitingQueue ++ [x.queued], queued := x.queued + 1 }
  else
    { x with locked := true, agents := x.agents ++ [.acquired x.queued], queued := x.queued + 1 }

/-- `do_execute`; a thread is in the strand while it runs one of its functions. -/
def doExecute (x : Strand) (caller : Option Nat) (never : Bool) : Option Strand :=
  match caller with
  | none => some x.enqueue
  | some i =>
    match x.agents[i]? with
    | some (.running k) => some (if never then x.enqueue else x.setAgent i (.running (k + 1)))
    | _ => none

def pushWaitingToReady (x : Strand) : Strand :=
  { x with
    readyQueue := x.readyQueue ++ x.waitingQueue
    waitingQueue := []
    locked := !(x.readyQueue ++ x.waitingQueue).isEmpty }

/-- One step of agent `i`. An exception of an inline function is the caller's; one of the function
itself ends `run_ready_handlers`. -/
def go (x : Strand) (i : Nat) (throws : Bool) : Option Strand :=
  x.agents[i]?.map fun
    | .acquired op => { x.setAgent i .first with readyQueue := x.readyQueue ++ [op] }
    | .first => x.setAgent i .scheduled
    | .scheduled => x.setAgent i .looping
    | .looping =>
      match x.readyQueue with
      | [] => x.setAgent i .exiting
      | op :: rest =>
        { x.setAgent i (.running 0) with readyQueue := rest, started := x.started ++ [op] }
    | .running 0 => x.setAgent i (if throws then .exiting else .looping)
    | .running (k + 1) => x.setAgent i (.running k)
    | .exiting =>
      let y := x.pushWaitingToReady
      if y.locked then y.setAgent i .again else { y with agents := x.agents.eraseIdx i }
    | .again => x.setAgent i .scheduled

def step (x : Strand) : Action → Option Strand
  | .execute caller never => x.doExecute caller never
  | .go i throws => x.go i throws

/-- Queued functions that were not started, in their order. -/
def pending (x : Strand) : List Nat := x.agents.flatMap Agent.held ++ x.readyQueue ++ x.waitingQueue

/-- The flag is set for one agent. Only one that has not pushed its operation keeps the ready queue
empty. -/
structure Inv (x : Strand) : Prop where
  order : x.started ++ x.pending = List.range x.queued
  agents : x.agents.length = x.locked.toNat
  idle : x.locked = false → x.readyQueue = [] ∧ x.waitingQueue = []
  acquired : ∀ op, .acquired op ∈ x.agents → x.readyQueue = []

theorem Inv.init : Inv {} := by constructor <;> simp [pending]

theorem Inv.agents_eq (hx : x.Inv) {i : Nat} {a : Agent} (ha : x.agents[i]? = some a) :
    x.agents = [a] ∧ i = 0 ∧ x.locked = true := by
  have hlen := hx.agents
  obtain ⟨hi, rfl⟩ := List.getElem?_eq_some_iff.mp ha
  cases hlocked : x.locked with
  | false => simp [hlocked] at hlen; simp [hlen] at hi
  | true =>
    obtain ⟨b, hb⟩ := length_eq_one_iff.mp (by simpa [hlocked] using hlen)
    have h0 : i = 0 := by simpa [hb] using hi
    subst h0
    simp [hb]

theorem Inv.enqueue (hx : x.Inv) : x.enqueue.Inv := by
  obtain ⟨horder, hagents, hidle, hacq⟩ := hx
  unfold Strand.enqueue
  split
  next hlocked =>
    refine ⟨?_, hagents, fun h => by simp_all, hacq⟩
    simp only [pending] at horder ⊢
    rw [range_succ, ← horder]
    simp only [append_assoc]
  next hlocked =>
    have hnil : x.agents = [] := by simpa [hlocked] using hagents
    obtain ⟨hready, hwaiting⟩ := hidle (by simpa using hlocked)
    refine ⟨?_, by simp [hnil], by simp, fun _ _ => hready⟩
    simp only [pending, hnil, hready, hwaiting, flatMap_nil, append_nil] at horder
    simp [pending, hnil, hready, hwaiting, Agent.held, range_succ, horder]

/-- An agent goes on that holds no operation, before or after. -/
theorem Inv.setAgent (hx : x.Inv) {i : Nat} {a b : Agent} (ha : x.agents[i]? = some a)
    (hheld : a.held = []) (hheld' : b.held = []) : (x.setAgent i b).Inv := by
  obtain ⟨hagents, rfl, hlocked⟩ := hx.agents_eq ha
  have horder := hx.order
  refine ⟨?_, by simp [Strand.setAgent, hagents, hlocked], hx.idle, ?_⟩
  · simpa [pending, Strand.setAgent, hagents, hheld, hheld'] using horder
  · intro op hop
    simp [Strand.setAgent, hagents] at hop
    simp [← hop, Agent.held] at hheld'

theorem Inv.go (hx : x.Inv) {i : Nat} {throws : Bool} (h : x.go i throws = some y) : y.Inv := by
  obtain ⟨a, ha, rfl⟩ := Option.map_eq_some_iff.mp h
  obtain ⟨hagents, rfl, hlocked⟩ := hx.agents_eq ha
  have horder := hx.order
  cases a with
  | acquired op =>
    have hready := hx.acquired op (by simp [hagents])
    constructor <;> simp_all [Strand.setAgent, pending, Agent.held]
  | looping =>
    dsimp only
    split
    next => exact hx.setAgent ha rfl rfl
    next op rest hready =>
      constructor <;> simp_all [Strand.setAgent, pending, Agent.held]
  | running k =>
    cases k with
    | zero => cases throws <;> exact hx.setAgent ha rfl rfl
    | succ k => exact hx.setAgent ha rfl rfl
  | exiting =>
    -- Either there is something to do, or both queues are empty.
    cases hmore : (x.readyQueue ++ x.waitingQueue).isEmpty
    · simp only [pushWaitingToReady, hmore]
      constructor <;> simp_all [Strand.setAgent, pending, Agent.held]
    · simp only [pushWaitingToReady, hmore]
      constructor <;> simp_all [pending, Agent.held]
  | first => exact hx.setAgent ha rfl rfl
  | scheduled => exact hx.setAgent ha rfl rfl
  | again => exact hx.setAgent ha rfl rfl

theorem Inv.step (hx : x.Inv) {a : Action} (h : x.step a = some y) : y.Inv := by
  cases a with
  | go i throws => exact hx.go h
  | execute caller never =>
    cases caller with
    | none => exact Option.some.inj h ▸ hx.enqueue
    | some i =>
      simp only [Strand.step, doExecute] at h
      split at h
      next k ha =>
        cases never <;> cases h
        · exact hx.setAgent ha rfl rfl
        · exact hx.enqueue
      next => cases h

/-! ## What is queued is run -/

def Agent.weight (ready : List Nat) : Agent → Nat
  | .acquired _ => 15
  | .first | .again => 4
  | .scheduled => 3
  | .looping => 2
  | .running k => 6 + k
  | .exiting => if ready = [] then 1 else 5

/-- How many steps are left at most. A function that waits costs more than one that is ready, since
a successor has to be scheduled for it. -/
def weight (x : Strand) : Nat :=
  (x.agents.map (Agent.weight x.readyQueue)).sum + 10 * x.readyQueue.length +
    20 * x.waitingQueue.length

theorem go_weight (hx : x.Inv) {i : Nat} {throws : Bool} (h : x.go i throws = some y) :
    y.weight < x.weight ∧ y.queued = x.queued := by
  obtain ⟨a, ha, rfl⟩ := Option.map_eq_some_iff.mp h
  obtain ⟨hagents, rfl, hlocked⟩ := hx.agents_eq ha
  cases a with
  | acquired op =>
    have hready := hx.acquired op (by simp [hagents])
    simp [weight, Strand.setAgent, hagents, hready, Agent.weight]
  | looping =>
    dsimp only
    split
    next hready => simp [weight, Strand.setAgent, hagents, hready, Agent.weight]
    next op rest hready =>
      simp [weight, Strand.setAgent, hagents, hready, Agent.weight]
      omega
  | running k =>
    cases k with
    | zero =>
      cases throws <;> simp [weight, Strand.setAgent, hagents, Agent.weight]
      split <;> omega
    | succ k => simp [weight, Strand.setAgent, hagents, Agent.weight]
  | exiting =>
    cases hready : x.readyQueue <;> cases hwaiting : x.waitingQueue <;>
      simp [weight, pushWaitingToReady, Strand.setAgent, Agent.weight, hagents, hready, hwaiting]
    all_goals omega
  | first => simp [weight, Strand.setAgent, hagents, Agent.weight]
  | scheduled => simp [weight, Strand.setAgent, hagents, Agent.weight]
  | again => simp [weight, Strand.setAgent, hagents, Agent.weight]

def goOn (x : Strand) (b : Nat × Bool) : Option Strand := x.go b.1 b.2

/-- Where nobody can go on, everything that was queued has been run. -/
theorem Inv.rest (hx : x.Inv) (h : ∀ b, x.goOn b = none) :
    x.agents = [] ∧ x.started = range x.queued := by
  have hnil : x.agents = [] := by
    have h0 := h (0, false)
    simp only [goOn, Strand.go, Option.map_eq_none_iff] at h0
    simpa using h0
  have hlocked : x.locked = false := by
    have hlen := hx.agents
    cases hl : x.locked
    · rfl
    · simp [hnil, hl] at hlen
  obtain ⟨hready, hwaiting⟩ := hx.idle hlocked
  have horder := hx.order
  simp only [pending, hnil, hready, hwaiting, flatMap_nil, append_nil] at horder
  exact ⟨hnil, horder⟩

theorem run_goOn (hx : x.Inv) {bs : List (Nat × Bool)} (h : Runs.run goOn x bs = some y) :
    y.weight + bs.length ≤ x.weight ∧ y.queued = x.queued ∧ y.Inv := by
  induction bs generalizing x with
  | nil =>
    cases h
    exact ⟨Nat.le_refl _, rfl, hx⟩
  | cons b bs ih =>
    obtain ⟨z, hz, h⟩ := Runs.run_cons_eq_some.mp h
    obtain ⟨hlt, hqueued⟩ := go_weight hx hz
    obtain ⟨hle, hqueued', hy⟩ := ih (hx.go hz) h
    exact ⟨by rw [length_cons]; omega, hqueued'.trans hqueued, hy⟩

/-- What holds in every state: one function at a time, in the order of the queue and each once;
the flag stands for an agent, and without it nothing is left in the queues. Left to themselves, the
agents come to an end in a bounded number of steps, and everything that was queued has run then. -/
structure Serial (x : Strand) : Prop where
  one : x.agents.countP Agent.isRunning ≤ 1
  order : x.started ++ x.pending = List.range x.queued
  locked : x.locked = true ↔ x.agents ≠ []
  idle : x.locked = false → x.readyQueue = [] ∧ x.waitingQueue = []
  drains : ∃ n, ∀ bs y, Runs.run goOn x bs = some y → bs.length ≤ n ∧
    ((∀ b, y.goOn b = none) → y.agents = [] ∧ y.started = List.range x.queued)

theorem run_serial {as : List Action} (hrun : Runs.run step {} as = some x) : x.Serial := by
  have hx : x.Inv := Runs.invariant (fun _ _ _ h hstep => h.step hstep) Inv.init hrun
  have hlen := hx.agents
  refine ⟨?_, hx.order, ?_, hx.idle, x.weight, fun bs y h => ?_⟩
  · exact Nat.le_trans countP_le_length (hlen ▸ Bool.toNat_le _)
  · cases hlocked : x.locked <;> simp_all [← length_pos_iff]
  · obtain ⟨hle, hqueued, hy⟩ := run_goOn hx h
    exact ⟨by omega, fun hrest => hqueued ▸ hy.rest hrest⟩

/-- A function submits another one, runs a third one inline, and throws; its successor runs what
was queued. -/
def throwing : List Action :=
  [.execute none false, .go 0 false, .go 0 false, .go 0 false, .go 0 false, .execute (some 0) true,
    .execute (some 0) false, .go 0 true, .go 0 true, .go 0 false, .go 0 false, .go 0 false,
    .go 0 false]

theorem throwing_serial : ∃ x, Runs.run step {} throwing = some x ∧ x.started = [0, 1] ∧ x.Serial :=
  ⟨_, rfl, rfl, run_serial (show Runs.run step {} throwing = some _ from rfl)⟩

end Strand
end Detail
end Xio
