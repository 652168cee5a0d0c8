import Xio.Lib.Runs
import Xio.Raft.Commit

/-!
# Raft.CommitQueue — the commit workers of the global manager

With a global thread pool a server that has entries to apply is put into `commit_queue_`, and any
worker may take it out. A worker that finds the server's `commit_lock_` taken drops the request, on
the assumption that the holder of the lock will see the new commit index.

The model has any number of servers and workers. A call of `commit` is three steps (the index, the
test, the request), and a worker's turn is one step per test, lock operation and applied entry.
Pausing and shutdown are left out.
-/

namespace Xio
namespace Raft

open List Function

variable {ι κ : Type} [DecidableEq ι]

/-- `commit_queue_` and `commit_server_set_`, which holds the same servers. -/
structure RequestQueue (ι : Type) [DecidableEq ι] where
  commitQueue : List ι
  commitServerSet : Finset ι
  nodup : commitQueue.Nodup
  set_eq : commitServerSet = commitQueue.toFinset

namespace RequestQueue

variable (q : RequestQueue ι) {s t : ι}

def empty : RequestQueue ι := ⟨[], ∅, List.nodup_nil, rfl⟩

theorem mem_set : s ∈ q.commitServerSet ↔ s ∈ q.commitQueue := by
  rw [q.set_eq, mem_toFinset]

def requestCommit (s : ι) : RequestQueue ι :=
  if h : s ∈ q.commitServerSet then q
  else
    { commitQueue := q.commitQueue ++ [s]
      commitServerSet := insert s q.commitServerSet
      nodup := by
        rw [List.nodup_append_comm]
        exact List.nodup_cons.mpr ⟨fun hmem => h (q.mem_set.mpr hmem), q.nodup⟩
      set_eq := by
        rw [q.set_eq, List.toFinset_append, Finset.union_comm]
        rfl }

/-- The front of the queue and the rest, as a worker takes it under `commit_queue_lock_`. -/
def pop : Option (ι × RequestQueue ι) :=
  match hq : q.commitQueue with
  | [] => none
  | s :: rest =>
    some (s,
      { commitQueue := rest
        commitServerSet := q.commitServerSet.erase s
        nodup := (List.nodup_cons.mp (hq ▸ q.nodup)).2
        set_eq := by
          have hs : s ∉ rest := (List.nodup_cons.mp (hq ▸ q.nodup)).1
          rw [q.set_eq, hq, List.toFinset_cons, Finset.erase_insert]
          exact fun hmem => hs (List.mem_toFinset.mp hmem) })

theorem mem_requestCommit : t ∈ (q.requestCommit s).commitQueue ↔ t ∈ q.commitQueue ∨ t = s := by
  unfold requestCommit
  split
  · next h =>
    constructor
    · exact Or.inl
    · rintro (hmem | rfl)
      · exact hmem
      · exact q.mem_set.mp h
  · simp

variable {q} {r : RequestQueue ι}

theorem pop_eq_some (h : q.pop = some (s, r)) : q.commitQueue = s :: r.commitQueue := by
  unfold pop at h
  split at h
  · cases h
  · next hq =>
    cases h
    exact hq

end RequestQueue

/-- Where a worker is with the server it took from the queue. -/
inductive WorkerPhase (ι : Type)
  | sleeping
  | popped (s : ι)
  /-- About to call `commit_in_bg_exec`. -/
  | checked (s : ι)
  /-- Inside the loop, with `commit_lock_`. -/
  | running (s : ι)
  /-- Past the loop, still with `commit_lock_`. -/
  | left (s : ι) (finishedInTime : Bool)
  | repush (s : ι)
  deriving DecidableEq, Repr

namespace WorkerPhase

def server : WorkerPhase ι → Option ι
  | .sleeping => none
  | .popped s | .checked s | .running s | .left s _ | .repush s => some s

/-- The worker will look at the server's indices again, or put it back into the queue. -/
def WillServe (s : ι) : WorkerPhase ι → Prop
  | .popped t | .checked t | .running t | .left t false | .repush t => t = s
  | _ => False

def Holds (s : ι) : WorkerPhase ι → Prop
  | .running t | .left t _ => t = s
  | _ => False

end WorkerPhase

structure CommitPool (κ ι : Type) [DecidableEq ι] where
  srv : ι → RaftServer
  requests : RequestQueue ι := RequestQueue.empty
  worker : κ → WorkerPhase ι := fun _ => .sleeping
  commitLock : ι → Bool := fun _ => false
  /-- Calls of `commit` that have set the index; the flag says that the test found work. -/
  calls : List (ι × Bool) := []

namespace CommitPool

variable {p : WorkerPhase ι}

inductive Action (κ ι : Type)
  | commit (s : ι) (target : Nat)
  | testCall (s : ι)
  | requestCall (s : ι)
  | requestCommit (s : ι)
  | append (s : ι) (e : LogEntry)
  | pop (u : κ)
  | check (u : κ)
  | tryLock (u : κ)
  | commitNext (u : κ)
  | leave (u : κ) (timedOut : Bool)
  | unlock (u : κ)
  | repush (u : κ)

section
variable (v : CommitPool κ ι)

def setServer (s : ι) (t : RaftServer) : CommitPool κ ι :=
  { v with srv := Function.update v.srv s t }

def setLock (s : ι) (b : Bool) : CommitPool κ ι :=
  { v with commitLock := Function.update v.commitLock s b }

def request (s : ι) : CommitPool κ ι := { v with requests := v.requests.requestCommit s }

/-- Someone will look at the server's indices again. -/
def Served (s : ι) : Prop :=
  s ∈ v.requests.commitQueue ∨ (∃ u, (v.worker u).WillServe s) ∨ ∃ b, (s, b) ∈ v.calls

structure Inv : Prop where
  served : ∀ s, (v.srv s).hasWork → v.Served s
  held : ∀ s, v.commitLock s → ∃ u, (v.worker u).Holds s

/-- A worker that fails to take the lock finds its holder still in the loop, or on the way to put
the server back into the queue. -/
def Safe : Action κ ι → Prop
  | .tryLock u => ∀ s, v.worker u = .checked s → ∀ x, v.worker x ≠ .left s true
  | _ => True

instance [Fintype κ] [Fintype ι] (a : Action κ ι) : Decidable (v.Safe a) := by
  cases a <;> (dsimp only [Safe]; infer_instance)

end

section
variable [DecidableEq κ] (v : CommitPool κ ι)

def setWorker (u : κ) (p : WorkerPhase ι) : CommitPool κ ι :=
  { v with worker := Function.update v.worker u p }

/-- `commit_in_bg_exec` up to its loop: `try_to_lock`, then the start-index adjustment. A worker
that does not get the lock returns as if it had finished. -/
def tryLock (u : κ) (s : ι) : CommitPool κ ι :=
  if v.commitLock s then v.setWorker u .sleeping
  else ((v.setServer s (v.srv s).adjustSmCommitIndex).setLock s true).setWorker u (.running s)

def step : Action κ ι → Option (CommitPool κ ι)
  | .commit s target =>
    some { v.setServer s ((v.srv s).commit target) with calls := (s, false) :: v.calls }
  | .testCall s =>
    if (s, false) ∈ v.calls then
      let rest := v.calls.erase (s, false)
      some { v with calls := if (v.srv s).hasWork then (s, true) :: rest else rest }
    else none
  | .requestCall s =>
    if (s, true) ∈ v.calls then some { v.request s with calls := v.calls.erase (s, true) }
    else none
  | .requestCommit s => some (v.request s)
  -- a commit index above the end of the log would make this an entry to apply at once
  | .append s e =>
    if (v.srv s).quickCommitIndex < (v.srv s).log.nextSlot then
      some (v.setServer s { v.srv s with log := (v.srv s).log.append e })
    else none
  | .pop u =>
    match v.worker u, v.requests.pop with
    | .sleeping, some (s, rest) => some ({ v with requests := rest }.setWorker u (.popped s))
    | _, _ => none
  | .check u =>
    match v.worker u with
    | .popped s => some (v.setWorker u (if (v.srv s).hasWork then .checked s else .sleeping))
    | _ => none
  | .tryLock u =>
    match v.worker u with
    | .checked s => some (v.tryLock u s)
    | _ => none
  | .commitNext u =>
    match v.worker u with
    | .running s => (v.srv s).commitNext.map (v.setServer s)
    | _ => none
  | .leave u timedOut =>
    match v.worker u with
    | .running s =>
      if (v.srv s).hasWork then
        if timedOut then some (v.setWorker u (.left s false)) else none
      else some (v.setWorker u (.left s true))
    | _ => none
  | .unlock u =>
    match v.worker u with
    | .left s finished =>
      some ((v.setLock s false).setWorker u (if finished then .sleeping else .repush s))
    | _ => none
  | .repush u =>
    match v.worker u with
    | .repush s => some ((v.request s).setWorker u .sleeping)
    | _ => none

end

variable {v w : CommitPool κ ι} {s : ι} {u : κ}

theorem Inv.setServer (hv : v.Inv) {t : RaftServer}
    (hwork : t.hasWork → (v.srv s).hasWork ∨ v.Served s) : (v.setServer s t).Inv where
  served x hx := by
    by_cases hxs : x = s
    · subst hxs
      have ht : t.hasWork := by
        have hsame : (v.setServer x t).srv x = t := update_self ..
        rwa [hsame] at hx
      rcases hwork ht with hold | hserved
      · exact hv.served x hold
      · exact hserved
    · have hsame : (v.setServer s t).srv x = v.srv x := update_of_ne hxs ..
      rw [hsame] at hx
      exact hv.served x hx
  held := hv.held

theorem Served.request (h : v.Served s) (t : ι) : (v.request t).Served s := by
  rcases h with hqueue | hrest
  · exact .inl ((RequestQueue.mem_requestCommit _).mpr (.inl hqueue))
  · exact .inr hrest

theorem Inv.request (hv : v.Inv) (t : ι) : (v.request t).Inv where
  served s hs := (hv.served s hs).request t
  held := hv.held

theorem Inv.withCalls (hv : v.Inv) {calls : List (ι × Bool)}
    (h : ∀ s, (v.srv s).hasWork → ∀ b, (s, b) ∈ v.calls →
      Served { v with calls := calls } s) : Inv { v with calls := calls } where
  served s hs := by
    rcases hv.served s hs with hqueue | hworker | ⟨b, hcall⟩
    · exact .inl hqueue
    · exact .inr (.inl hworker)
    · exact h s hs b hcall
  held := hv.held

theorem served_erase {c : ι × Bool} {calls : List (ι × Bool)} {b : Bool} (hne : s ≠ c.1)
    (hcall : (s, b) ∈ v.calls) (hsub : v.calls.erase c ⊆ calls) :
    Served { v with calls := calls } s := by
  refine .inr (.inr ⟨b, hsub ?_⟩)
  refine (mem_erase_of_ne ?_).mpr hcall
  intro heq
  exact hne (congrArg Prod.fst heq)

/-! ## Calls of `commit` -/

theorem commit_inv (hv : v.Inv) (s : ι) (target : Nat) :
    Inv { v.setServer s ((v.srv s).commit target) with calls := (s, false) :: v.calls } := by
  -- the call itself keeps the server served until its test
  have hcalled : Inv { v with calls := (s, false) :: v.calls } :=
    hv.withCalls (fun x _ b hcall => .inr (.inr ⟨b, .tail _ hcall⟩))
  exact hcalled.setServer (fun _ => .inr (.inr (.inr ⟨false, mem_cons_self⟩)))

theorem testCall_inv (hv : v.Inv) (s : ι) : Inv { v with
      calls := if (v.srv s).hasWork then (s, true) :: v.calls.erase (s, false)
        else v.calls.erase (s, false) } := by
  apply hv.withCalls
  intro x hx b hcall
  by_cases hxs : x = s
  · subst hxs
    rw [if_pos hx]
    exact .inr (.inr ⟨true, mem_cons_self⟩)
  · refine served_erase (c := (s, false)) hxs hcall ?_
    split
    · exact subset_cons_self _ _
    · exact Subset.refl _

theorem requestCall_inv (hv : v.Inv) (s : ι) :
    Inv { v.request s with calls := v.calls.erase (s, true) } := by
  apply (hv.request s).withCalls
  intro x _ b hcall
  by_cases hxs : x = s
  · subst hxs
    exact .inl ((RequestQueue.mem_requestCommit _).mpr (.inr rfl))
  · exact served_erase (c := (s, true)) hxs hcall (Subset.refl _)

theorem append_inv (hv : v.Inv) {s : ι} (e : LogEntry)
    (hquick : (v.srv s).quickCommitIndex < (v.srv s).log.nextSlot) :
    (v.setServer s { v.srv s with log := (v.srv s).log.append e }).Inv := by
  apply hv.setServer
  intro hwork
  left
  simp only [RaftServer.hasWork, LogStore.append_nextSlot, Bool.and_eq_true, decide_eq_true_eq]
    at hwork ⊢
  omega

/-! ## Steps of a worker -/

theorem commitNext_inv (hv : v.Inv) {s : ι} (hu : v.worker u = .running s) (t : RaftServer) :
    (v.setServer s t).Inv := by
  apply hv.setServer
  intro _
  exact .inr (.inr (.inl ⟨u, hu ▸ rfl⟩))

variable [DecidableEq κ]

@[simp] theorem setWorker_same (p : WorkerPhase ι) : (v.setWorker u p).worker u = p :=
  update_self ..

theorem Served.setWorker (h : v.Served s)
    (hp : (v.worker u).WillServe s → p.WillServe s) : (v.setWorker u p).Served s := by
  rcases h with hqueue | ⟨x, hx⟩ | hcall
  · exact .inl hqueue
  · refine .inr (.inl ⟨x, ?_⟩)
    by_cases hxu : x = u
    · subst hxu
      rw [setWorker_same]
      exact hp hx
    · show (update v.worker u p x).WillServe s
      rwa [update_of_ne hxu]
  · exact .inr (.inr hcall)

theorem holds_setWorker (h : ∀ s, v.commitLock s → ∃ u, (v.worker u).Holds s)
    (hp : ∀ s, (v.worker u).Holds s → p.Holds s) :
    ∀ s, v.commitLock s → ∃ x, ((v.setWorker u p).worker x).Holds s := by
  intro s hs
  obtain ⟨x, hx⟩ := h s hs
  refine ⟨x, ?_⟩
  by_cases hxu : x = u
  · subst hxu
    rw [setWorker_same]
    exact hp s hx
  · show (update v.worker u p x).Holds s
    rwa [update_of_ne hxu]

theorem Inv.setWorker (hv : v.Inv) (hserve : ∀ s, (v.srv s).hasWork → (v.worker u).WillServe s →
      p.WillServe s ∨ (v.setWorker u p).Served s)
    (hhold : ∀ s, (v.worker u).Holds s → p.Holds s) : (v.setWorker u p).Inv where
  served s hs := by
    by_cases hu : (v.worker u).WillServe s
    · rcases hserve s hs hu with hp | hserved
      · exact .inr (.inl ⟨u, by rw [setWorker_same]; exact hp⟩)
      · exact hserved
    · exact (hv.served s hs).setWorker (fun h => absurd h hu)
  held := holds_setWorker hv.held hhold

theorem pop_inv (hv : v.Inv) {s : ι} {rest : RequestQueue ι} (hu : v.worker u = .sleeping)
    (hpop : v.requests.pop = some (s, rest)) :
    ({ v with requests := rest }.setWorker u (.popped s)).Inv where
  served x hx := by
    have hqueue := RequestQueue.pop_eq_some hpop
    rcases hv.served x hx with hmem | ⟨y, hy⟩ | hcall
    · rw [hqueue] at hmem
      rcases mem_cons.mp hmem with rfl | hrest
      · exact .inr (.inl ⟨u, by rw [setWorker_same]; rfl⟩)
      · exact .inl hrest
    · have hserved : Served { v with requests := rest } x := .inr (.inl ⟨y, hy⟩)
      apply hserved.setWorker
      intro h
      cases hu ▸ h
    · exact .inr (.inr hcall)
  held := by
    apply holds_setWorker hv.held
    intro x h
    cases hu ▸ h

theorem check_inv (hv : v.Inv) {s : ι} (hu : v.worker u = .popped s) :
    (v.setWorker u (if (v.srv s).hasWork then .checked s else .sleeping)).Inv := by
  apply hv.setWorker
  · intro x hx hserve
    cases hu ▸ hserve
    rw [if_pos hx]
    exact .inl rfl
  · intro x h
    cases hu ▸ h

/-- The one place where a request is dropped: its server is served by the holder of the lock. -/
theorem tryLock_inv (hv : v.Inv) {s : ι} (hu : v.worker u = .checked s)
    (hsafe : ∀ x, v.worker x ≠ .left s true) : (v.tryLock u s).Inv := by
  unfold tryLock
  split
  · next hlock =>
    obtain ⟨x, hx⟩ := hv.held s hlock
    have hserve : (v.worker x).WillServe s := by
      have hne := hsafe x
      cases hphase : v.worker x with
      | running t =>
        rwa [hphase] at hx
      | left t finished =>
        rw [hphase] at hx hne
        cases hx
        cases finished with
        | true => exact absurd rfl hne
        | false => rfl
      | _ =>
        cases hphase ▸ hx
    have hxu : x ≠ u := by
      rintro rfl
      cases hu ▸ hx
    apply hv.setWorker
    · intro y _ hy
      cases hu ▸ hy
      refine .inr (.inr (.inl ⟨x, ?_⟩))
      show (update v.worker u .sleeping x).WillServe s
      rwa [update_of_ne hxu]
    · intro y h
      cases hu ▸ h
  · exact
      { served := by
          intro y hy
          have hadjusted : (v.setServer s (v.srv s).adjustSmCommitIndex).Inv := by
            apply hv.setServer
            intro _
            exact .inr (.inr (.inl ⟨u, hu ▸ rfl⟩))
          refine Served.setWorker (hadjusted.served y hy) ?_
          intro h
          have hsame : (v.worker u).WillServe y := h
          rwa [hu] at hsame
        held := by
          intro y hy
          by_cases hys : y = s
          · subst hys
            exact ⟨u, by rw [setWorker_same]; rfl⟩
          · have hold : v.commitLock y := by
              have hsame : update v.commitLock s true y = v.commitLock y :=
                update_of_ne hys ..
              exact hsame ▸ hy
            refine holds_setWorker hv.held ?_ y hold
            intro z h
            rw [hu] at h
            cases h }

/-- A worker leaves the loop when there is nothing to do, or with the promise to come back. -/
theorem leave_inv (hv : v.Inv) {s : ι} (hu : v.worker u = .running s) (finished : Bool)
    (hdone : finished = true → (v.srv s).hasWork = false) :
    (v.setWorker u (.left s finished)).Inv := by
  apply hv.setWorker
  · intro x hx hserve
    cases hu ▸ hserve
    left
    cases finished with
    | true => exact absurd hx (by simp [hdone rfl])
    | false => rfl
  · intro x h
    rwa [hu] at h

theorem unlock_inv (hv : v.Inv) {s : ι} {finished : Bool} (hu : v.worker u = .left s finished) :
    ((v.setLock s false).setWorker u (if finished then .sleeping else .repush s)).Inv where
  served x hx := by
    have hserved : (v.setLock s false).Served x := hv.served x hx
    apply hserved.setWorker
    intro h
    have hsame : (v.worker u).WillServe x := h
    rw [hu] at hsame
    cases finished with
    | true => cases hsame
    | false => exact hsame
  held x hx := by
    by_cases hxs : x = s
    · subst hxs
      exact absurd hx (by simp [CommitPool.setWorker, CommitPool.setLock])
    · have hold : v.commitLock x := by
        have hsame : update v.commitLock s false x = v.commitLock x :=
          update_of_ne hxs ..
        exact hsame ▸ hx
      -- the holder is another worker: this one holds the lock of `s` only
      obtain ⟨y, hy⟩ := hv.held x hold
      refine ⟨y, ?_⟩
      have hyu : y ≠ u := by
        rintro rfl
        rw [hu] at hy
        exact hxs hy.symm
      show (update v.worker u _ y).Holds x
      rwa [update_of_ne hyu]

theorem repush_inv (hv : v.Inv) {s : ι} (hu : v.worker u = .repush s) :
    ((v.request s).setWorker u .sleeping).Inv := by
  apply (hv.request s).setWorker
  · intro x _ hserve
    have hsame : (v.worker u).WillServe x := hserve
    cases hu ▸ hsame
    exact .inr (.inl ((RequestQueue.mem_requestCommit _).mpr (.inr rfl)))
  · intro x h
    have hsame : (v.worker u).Holds x := h
    cases hu ▸ hsame

theorem step_inv (a : Action κ ι) (hv : v.Inv) (hsafe : v.Safe a) (h : v.step a = some w) :
    w.Inv := by
  cases a with
  | commit s target =>
    cases h
    exact commit_inv hv s target
  | testCall s =>
    simp only [step] at h
    split at h
    · cases h
      exact testCall_inv hv s
    · cases h
  | requestCall s =>
    simp only [step] at h
    split at h
    · cases h
      exact requestCall_inv hv s
    · cases h
  | requestCommit s =>
    cases h
    exact hv.request s
  | append s e =>
    simp only [step] at h
    split at h
    · next hquick =>
      cases h
      exact append_inv hv e hquick
    · cases h
  | pop u =>
    simp only [step] at h
    split at h
    · next hu hpop =>
      cases h
      exact pop_inv hv hu hpop
    · cases h
  | check u =>
    simp only [step] at h
    split at h
    · next hu =>
      cases h
      exact check_inv hv hu
    · cases h
  | tryLock u =>
    simp only [step] at h
    split at h
    · next s hu =>
      cases h
      exact tryLock_inv hv hu (hsafe s hu)
    · cases h
  | commitNext u =>
    simp only [step] at h
    split at h
    · next hu =>
      obtain ⟨t, -, rfl⟩ := Option.map_eq_some_iff.mp h
      exact commitNext_inv hv hu t
    · cases h
  | leave u timedOut =>
    simp only [step] at h
    split at h
    · next hu =>
      split at h
      · split at h
        · cases h
          exact leave_inv hv hu false nofun
        · cases h
      · next hdone =>
        cases h
        exact leave_inv hv hu true (fun _ => by simpa using hdone)
    · cases h
  | unlock u =>
    simp only [step] at h
    split at h
    · next hu =>
      cases h
      exact unlock_inv hv hu
    · cases h
  | repush u =>
    simp only [step] at h
    split at h
    · next hu =>
      cases h
      exact repush_inv hv hu
    · cases h

/-- Servers as they are constructed: nothing to apply, no request, no worker at work. -/
def init (srv : ι → RaftServer) : CommitPool κ ι := { srv := srv }

/-- No commit is lost as long as no worker drops a request behind the back of one that has already
left the loop; the queue and its set agree in every state. -/
theorem no_lost_commit {srv : ι → RaftServer} (hsrv : ∀ s, (srv s).hasWork = false)
    {as : List (Action κ ι)} {v : CommitPool κ ι}
    (hsafe : Runs.AllSteps step Safe (init srv) as)
    (hrun : Runs.run step (init srv) as = some v) :
    (∀ s, s ∉ v.requests.commitQueue → (∀ u, (v.worker u).server ≠ some s) →
      (∀ b, (s, b) ∉ v.calls) →
      min (v.srv s).quickCommitIndex ((v.srv s).log.nextSlot - 1) ≤ (v.srv s).smCommitIndex) ∧
    v.requests.commitServerSet = v.requests.commitQueue.toFinset ∧
    v.requests.commitQueue.Nodup := by
  have hstart : (init srv : CommitPool κ ι).Inv :=
    ⟨fun s hs => absurd hs (by simp [init, hsrv s]), fun s hs => nomatch hs⟩
  have hv : v.Inv :=
    Runs.invariant_of_allSteps (P := Safe) (I := Inv)
      (fun _ a _ hi hs h => step_inv a hi hs h) hstart hsafe hrun
  refine ⟨?_, v.requests.set_eq, v.requests.nodup⟩
  intro s hqueue hworker hcalls
  by_contra hlost
  have hwork : (v.srv s).hasWork := by
    simp only [RaftServer.hasWork, Bool.and_eq_true, decide_eq_true_eq]
    omega
  rcases hv.served s hwork with hmem | ⟨u, hu⟩ | ⟨b, hb⟩
  · exact hqueue hmem
  · apply hworker u
    cases hphase : v.worker u with
    | sleeping =>
      cases hphase ▸ hu
    | left t finished =>
      rw [hphase] at hu
      cases finished with
      | true => cases hu
      | false => exact congrArg some hu
    | popped t | checked t | running t | repush t =>
      rw [hphase] at hu
      exact congrArg some hu
  · exact hcalls b hb

end CommitPool

/-- A follower with two entries, none of them committed. -/
def followerOfTwoEntries : RaftServer :=
  { id := 1
    config := { servers := [{ id := 1 }, { id := 2 }] }
    log := ⟨1, [⟨1, .appLog []⟩, ⟨1, .appLog []⟩], by decide⟩
    precommitIndex := 2 }

def idlePool : CommitPool (Fin 2) Unit := .init (fun _ => followerOfTwoEntries)

/-- A call of `commit` from beginning to end. -/
def commitCall (target : Nat) : List (CommitPool.Action (Fin 2) Unit) :=
  [.commit () target, .testCall (), .requestCall ()]

/-- Worker `0` applies the first entry and has left the loop when the second one is committed. -/
def secondCommitLate : List (CommitPool.Action (Fin 2) Unit) :=
  commitCall 1 ++ [.pop 0, .check 0, .tryLock 0, .commitNext 0, .leave 0 false] ++ commitCall 2 ++
    [.pop 1, .check 1]

/-- Worker `1` drops the request, and nobody applies the second entry. -/
theorem second_commit_lost :
    (Runs.run CommitPool.step idlePool (secondCommitLate ++ [.tryLock 1, .unlock 0])).map
        (fun v => (v.requests.commitQueue, v.worker 0, v.worker 1, v.calls)) =
      some ([], .sleeping, .sleeping, []) ∧
    (Runs.run CommitPool.step idlePool (secondCommitLate ++ [.tryLock 1, .unlock 0])).map
        (fun v => ((v.srv ()).quickCommitIndex, (v.srv ()).log.nextSlot - 1,
          (v.srv ()).smCommitIndex)) = some (2, 2, 1) := by
  decide +kernel

/-- With the lock released first, worker `1` applies it. -/
theorem second_commit_applied :
    ∃ v, Runs.run CommitPool.step idlePool
        (secondCommitLate ++ [.unlock 0, .tryLock 1, .commitNext 1, .leave 1 false, .unlock 1]) =
          some v ∧
      min (v.srv ()).quickCommitIndex ((v.srv ()).log.nextSlot - 1) ≤ (v.srv ()).smCommitIndex := by
  have hobserved : (Runs.run CommitPool.step idlePool
      (secondCommitLate ++ [.unlock 0, .tryLock 1, .commitNext 1, .leave 1 false, .unlock 1])).map
        (fun v => (v.requests.commitQueue, v.worker 0, v.worker 1, v.calls)) =
      some ([], .sleeping, .sleeping, []) := by decide +kernel
  have hsafe : Runs.AllSteps CommitPool.step CommitPool.Safe idlePool
      (secondCommitLate ++ [.unlock 0, .tryLock 1, .commitNext 1, .leave 1 false, .unlock 1]) := by
    decide +kernel
  obtain ⟨v, hrun, hv⟩ := Option.map_eq_some_iff.mp hobserved
  simp only [Prod.mk.injEq] at hv
  obtain ⟨hqueue, hzero, hone, hcalls⟩ := hv
  have hidle : ∀ u, (v.worker u).server ≠ some () := by
    intro u
    match u with
    | 0 => simp [hzero, WorkerPhase.server]
    | 1 => simp [hone, WorkerPhase.server]
  have hsound := CommitPool.no_lost_commit (fun _ => by decide) hsafe hrun
  exact ⟨v, hrun, hsound.1 () (by simp [hqueue]) hidle (by simp [hcalls])⟩

end Raft
end Xio
