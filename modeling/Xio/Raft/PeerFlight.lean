import Xio.Lib.Runs

/-!
# Raft.PeerFlight — the bytes in flight to a peer

A peer adds the payload of an append request to `bytes_in_flight_` before it hands the request to its
RPC client, and takes it off when the request succeeds on the client that is still the current one.
With a failure, or when the client is replaced, the counter starts again at zero.

The counter is added to outside of `rpc_protector_`. A call of `send_req` that has read the current
client may be overtaken by the end of that client: what it adds then belongs to a client that is gone,
and nobody will take it off (`drift`).

- `PeerFlight.step_drift`: what one step does to the bytes that belong to no request
- `PeerFlight.accounted`: the counter along every run
- `PeerFlight.overtaken_drifts`: a run in which a client is replaced too early
-/

namespace Xio
namespace Raft

open List Option

/-- A request as far as it is counted: the sizes of its entries' buffers. -/
structure FlightReq where
  isAppend : Bool
  bufSizes : List Nat
  deriving DecidableEq, Repr

def FlightReq.reqSizeBytes (r : FlightReq) : Nat := if r.isAppend then r.bufSizes.sum else 0

/-- A request with the client that it goes to. -/
structure FlightCall where
  client : Nat
  size : Nat
  deriving DecidableEq, Repr

/-- A peer with its calls of `send_req` and the requests that its clients have taken over. -/
structure PeerFlight where
  /-- `rpc_`, by its id. The ids of clients are never used again. -/
  rpc : Option Nat := some 1
  nextId : Nat := 2
  bytesInFlight : Int := 0
  /-- Calls of `send_req` that have read `rpc_`. -/
  taken : List FlightCall := []
  /-- Calls that have added their size, and have not called the client yet. -/
  added : List FlightCall := []
  outstanding : List FlightCall := []
  deriving DecidableEq, Repr

namespace PeerFlight

inductive Action
  /-- `send_req` up to the end of its critical section. -/
  | take (req : FlightReq)
  /-- `bytes_in_flight_add`. -/
  | add (k : Nat)
  | send (k : Nat)
  /-- `handle_rpc_result` for a request that one of the clients has taken over. -/
  | succeed (k : Nat)
  | fail (k : Nat)
  /-- `recreate_rpc`, if the backoff timer allows it. -/
  | recreate
  deriving DecidableEq, Repr

variable (p : PeerFlight)

def step : Action → Option PeerFlight
  | .take req =>
    match p.rpc with
    | none => some p
    | some c => some { p with taken := p.taken ++ [⟨c, req.reqSizeBytes⟩] }
  | .add k => (p.taken[k]?).map (fun r =>
      { p with
        bytesInFlight := p.bytesInFlight + r.size
        taken := p.taken.eraseIdx k
        added := r :: p.added })
  | .send k => (p.added[k]?).map (fun r =>
      { p with added := p.added.eraseIdx k, outstanding := r :: p.outstanding })
  | .succeed k => (p.outstanding[k]?).map (fun r =>
      { p with
        outstanding := p.outstanding.eraseIdx k
        bytesInFlight :=
          if p.rpc = some r.client then p.bytesInFlight - r.size else p.bytesInFlight })
  | .fail k => (p.outstanding[k]?).map (fun r =>
      if p.rpc = some r.client then
        { p with outstanding := p.outstanding.eraseIdx k, rpc := none, bytesInFlight := 0 }
      else { p with outstanding := p.outstanding.eraseIdx k })
  | .recreate => some { p with rpc := some p.nextId, nextId := p.nextId + 1, bytesInFlight := 0 }

/-- The bytes of the calls that go to the given client. -/
def sizeOn (c : Option Nat) (l : List FlightCall) : Nat :=
  (l.map (fun r => if c = some r.client then r.size else 0)).sum

/-- The action ends the current client. -/
def EndsClient : Action → Prop
  | .recreate => True
  | .fail k => ∃ r ∈ p.outstanding[k]?, p.rpc = some r.client
  | _ => False

/-- No client ends while a call of `send_req` that has something to add has read it. -/
def Undisturbed (a : Action) : Prop := p.EndsClient a → ∀ r ∈ p.taken, r.size = 0

instance : ∀ a, Decidable (p.EndsClient a)
  | .recreate => isTrue trivial
  | .fail k => inferInstanceAs (Decidable (∃ r ∈ p.outstanding[k]?, p.rpc = some r.client))
  | .take _ | .add _ | .send _ | .succeed _ => isFalse id

instance (a : Action) : Decidable (p.Undisturbed a) := inferInstanceAs (Decidable (_ → _))

/-! ## One step -/

/-- What the counter has beyond the requests of the current client. -/
def drift : Int := p.bytesInFlight - (sizeOn p.rpc p.added + sizeOn p.rpc p.outstanding : Nat)

/-- The next client is not known to anybody yet. -/
structure Known : Prop where
  rpc : ∀ c ∈ p.rpc, c < p.nextId
  taken : ∀ r ∈ p.taken, r.client < p.nextId
  added : ∀ r ∈ p.added, r.client < p.nextId
  outstanding : ∀ r ∈ p.outstanding, r.client < p.nextId

/-- What is going to be added belongs to the current client. -/
def Fresh : Prop := ∀ r ∈ p.taken, p.rpc = some r.client ∨ r.size = 0

variable {p} {q : PeerFlight} {c : Option Nat} {l : List FlightCall} {r : FlightCall} {k : Nat}

theorem sizeOn_cons (c : Option Nat) (r : FlightCall) (l : List FlightCall) :
    sizeOn c (r :: l) = (if c = some r.client then r.size else 0) + sizeOn c l :=
  sum_cons

theorem sizeOn_eraseIdx (h : l[k]? = some r) :
    sizeOn c l = (if c = some r.client then r.size else 0) + sizeOn c (l.eraseIdx k) := by
  obtain ⟨hk, rfl⟩ := List.getElem?_eq_some_iff.mp h
  exact ((getElem_cons_eraseIdx_perm hk).map _).sum_eq.symm

theorem sizeOn_eq_zero (h : ∀ r ∈ l, c ≠ some r.client) : sizeOn c l = 0 := by
  refine sum_eq_zero ?_
  intro n hn
  obtain ⟨r, hr, rfl⟩ := mem_map.mp hn
  exact if_neg (h r hr)

theorem step_known {a : Action} (h : p.Known) (hstep : p.step a = some q) : q.Known := by
  cases a with
  | take req =>
    simp only [step] at hstep
    split at hstep
    · cases hstep
      exact h
    · next c hc =>
      cases hstep
      refine { h with taken := ?_ }
      intro r hr
      rcases mem_append.mp hr with hold | hnew
      · exact h.taken r hold
      · rw [mem_singleton.mp hnew]
        exact h.rpc c hc
  | add k =>
    obtain ⟨r, hr, rfl⟩ := map_eq_some_iff.mp hstep
    refine { h with taken := fun r' hr' => h.taken r' (mem_of_mem_eraseIdx hr'), added := ?_ }
    exact forall_mem_cons.mpr ⟨h.taken r (mem_of_getElem? hr), h.added⟩
  | send k =>
    obtain ⟨r, hr, rfl⟩ := map_eq_some_iff.mp hstep
    refine { h with added := fun r' hr' => h.added r' (mem_of_mem_eraseIdx hr'), outstanding := ?_ }
    exact forall_mem_cons.mpr ⟨h.added r (mem_of_getElem? hr), h.outstanding⟩
  | succeed k =>
    obtain ⟨r, -, rfl⟩ := map_eq_some_iff.mp hstep
    exact { h with outstanding := fun r' hr' => h.outstanding r' (mem_of_mem_eraseIdx hr') }
  | fail k =>
    obtain ⟨r, -, rfl⟩ := map_eq_some_iff.mp hstep
    have hleft : ∀ r' ∈ p.outstanding.eraseIdx k, r'.client < p.nextId :=
      fun r' hr' => h.outstanding r' (mem_of_mem_eraseIdx hr')
    split
    · exact { h with rpc := nofun, outstanding := hleft }
    · exact { h with outstanding := hleft }
  | recreate =>
    cases hstep
    refine ⟨?_, fun r hr => Nat.lt_succ_of_lt (h.taken r hr),
      fun r hr => Nat.lt_succ_of_lt (h.added r hr), fun r hr => Nat.lt_succ_of_lt (h.outstanding r hr)⟩
    rintro c ⟨⟩
    exact Nat.lt_succ_self _

/-- Only a late addition counts bytes that belong to no request of the current client, and the end of
a client forgets them. -/
theorem step_drift {a : Action} (h : p.Known) (hstep : p.step a = some q) :
    q.drift = p.drift ∨ q.drift = 0 ∨
      ∃ r ∈ p.taken, p.rpc ≠ some r.client ∧ q.drift = p.drift + r.size := by
  cases a with
  | take req =>
    simp only [step] at hstep
    split at hstep <;> cases hstep <;> exact .inl rfl
  | add k =>
    obtain ⟨r, hr, rfl⟩ := map_eq_some_iff.mp hstep
    by_cases hcur : p.rpc = some r.client
    · simp only [drift, sizeOn_cons, if_pos hcur]
      omega
    · refine .inr (.inr ⟨r, mem_of_getElem? hr, hcur, ?_⟩)
      simp only [drift, sizeOn_cons, if_neg hcur]
      omega
  | send k =>
    obtain ⟨r, hr, rfl⟩ := map_eq_some_iff.mp hstep
    simp only [drift, sizeOn_cons, sizeOn_eraseIdx (c := p.rpc) hr]
    omega
  | succeed k =>
    obtain ⟨r, hr, rfl⟩ := map_eq_some_iff.mp hstep
    simp only [drift, sizeOn_eraseIdx (c := p.rpc) hr]
    split <;> omega
  | fail k =>
    obtain ⟨r, hr, rfl⟩ := map_eq_some_iff.mp hstep
    split
    · refine .inr (.inl ?_)
      simp [drift, sizeOn_eq_zero]
    · next hstale =>
      refine .inl ?_
      simp only [drift, sizeOn_eraseIdx (c := p.rpc) hr, if_neg hstale]
      omega
  | recreate =>
    cases hstep
    -- nobody has called the new client yet
    have hnew {l : List FlightCall} (hl : ∀ r ∈ l, r.client < p.nextId) :
        sizeOn (some p.nextId) l = 0 := by
      refine sizeOn_eq_zero fun r hr heq => ?_
      have hlt := hl r hr
      rw [← some.inj heq] at hlt
      exact Nat.lt_irrefl _ hlt
    refine .inr (.inl ?_)
    simp [drift, hnew h.added, hnew h.outstanding]

theorem step_fresh {a : Action} (h : p.Fresh) (ha : p.Undisturbed a) (hstep : p.step a = some q) :
    q.Fresh := by
  cases a with
  | take req =>
    simp only [step] at hstep
    split at hstep
    · cases hstep
      exact h
    · next c hc =>
      cases hstep
      intro r hr
      rcases mem_append.mp hr with hold | hnew
      · exact h r hold
      · rw [mem_singleton.mp hnew]
        exact .inl hc
  | add k =>
    obtain ⟨r, -, rfl⟩ := map_eq_some_iff.mp hstep
    exact fun r' hr' => h r' (mem_of_mem_eraseIdx hr')
  | send k | succeed k =>
    obtain ⟨r, -, rfl⟩ := map_eq_some_iff.mp hstep
    exact h
  | fail k =>
    obtain ⟨r, hr, rfl⟩ := map_eq_some_iff.mp hstep
    split
    · next hcur => exact fun r' hr' => .inr (ha ⟨r, hr, hcur⟩ r' hr')
    · exact h
  | recreate =>
    cases hstep
    exact fun r hr => .inr (ha trivial r hr)

/-! ## Runs -/

theorem start_known : Known {} :=
  ⟨by rintro c ⟨⟩; decide, by simp, by simp, by simp⟩

/-- The counter is never negative. It has the bytes of the requests that the current client has not
answered, whenever no call of `send_req` is under way, unless a client ended too early. -/
theorem accounted {as : List Action} (hrun : Runs.run step {} as = some q) :
    0 ≤ q.bytesInFlight ∧ (Runs.AllSteps step Undisturbed {} as → q.taken = [] → q.added = [] →
      q.bytesInFlight = sizeOn q.rpc q.outstanding) := by
  have hdrift : q.Known ∧ 0 ≤ q.drift := by
    refine Runs.invariant (I := fun p => p.Known ∧ 0 ≤ p.drift) ?_ ⟨start_known, by decide⟩ hrun
    rintro p a q ⟨hknown, hge⟩ hstep
    refine ⟨step_known hknown hstep, ?_⟩
    rcases step_drift hknown hstep with heq | heq | ⟨r, -, -, heq⟩ <;> omega
  refine ⟨?_, ?_⟩
  · have hge := hdrift.2
    unfold drift at hge
    omega
  intro hall htaken hadded
  have hexact : q.Known ∧ q.Fresh ∧ q.drift = 0 := by
    refine Runs.invariant_of_allSteps (I := fun p => p.Known ∧ p.Fresh ∧ p.drift = 0) ?_
      ⟨start_known, fun _ hr => (nomatch hr), by decide⟩ hall hrun
    rintro p a q ⟨hknown, hfresh, hzero⟩ ha hstep
    refine ⟨step_known hknown hstep, step_fresh hfresh ha hstep, ?_⟩
    rcases step_drift hknown hstep with heq | heq | ⟨r, hr, hstale, heq⟩
    · exact heq.trans hzero
    · exact heq
    · have hnone := (hfresh r hr).resolve_left hstale
      omega
  have hzero := hexact.2.2
  rw [drift, hadded] at hzero
  simp only [sizeOn, map_nil, sum_nil] at hzero ⊢
  omega

/-- Two requests on one client, and a third one on the next. The late answer of the first client is
not counted. -/
def reconnects : List Action :=
  [.take ⟨true, [3, 4]⟩, .add 0, .send 0, .take ⟨true, [5]⟩, .add 0, .send 0, .succeed 0, .recreate,
    .take ⟨true, [6]⟩, .add 0, .send 0, .succeed 1]

theorem reconnects_accounted : ∃ q, Runs.run step {} reconnects = some q ∧ 0 ≤ q.bytesInFlight ∧
    q.bytesInFlight = 6 ∧ q.bytesInFlight = sizeOn q.rpc q.outstanding := by
  have hobserved : (Runs.run step {} reconnects).map (fun q => (q.bytesInFlight, q.taken, q.added)) =
      some (6, [], []) := by
    decide
  have hall : Runs.AllSteps step Undisturbed {} reconnects := by decide
  obtain ⟨q, hrun, hq⟩ := map_eq_some_iff.mp hobserved
  simp only [Prod.mk.injEq] at hq
  have hacc := accounted hrun
  exact ⟨q, hrun, hacc.1, hq.1, hacc.2 hall hq.2.1 hq.2.2⟩

/-- The client is replaced between the critical section of `send_req` and its addition. -/
def overtaken : List Action := [.take ⟨true, [5]⟩, .recreate, .add 0, .send 0, .fail 0]

theorem overtaken_drifts : ∃ q, Runs.run step {} overtaken = some q ∧ q.taken = [] ∧ q.added = [] ∧
    q.outstanding = [] ∧ q.bytesInFlight = 5 ∧ sizeOn q.rpc q.outstanding = 0 :=
  ⟨_, rfl, rfl, rfl, rfl, rfl, rfl⟩

end PeerFlight
end Raft
end Xio
