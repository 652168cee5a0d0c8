import Xio.Lib.Runs

/-!
# Detail.SignalFork — signal services around a fork

All services of a process wait for the read end of one pipe. They give it up before a fork, and take
it back afterwards when they find `fork_prepared_` set; but there is one flag for all of them, and
whoever is notified first clears it.

- `fork_registered`: after a fork, exactly the service that is notified first is registered
- `run_registered`: the runs in which that is enough
-/

namespace Xio
namespace Detail
namespace SignalFork

open Option

inductive ForkEvent
  | prepare
  | parent
  | child
deriving DecidableEq

/-- `pipe` is the number of the pipe `read_descriptor_` belongs to, and `registered` is the pipe for
which a service has been registered with its reactor. -/
structure SignalState (S : Type) where
  pipe : Nat
  forkPrepared : Bool
  services : List S
  registered : S → Option Nat

section

variable {S : Type} [DecidableEq S]

def SignalState.init : SignalState S :=
  { pipe := 0, forkPrepared := false, services := [], registered := fun _ => none }

def openDescriptors (s : SignalState S) : SignalState S := { s with pipe := s.pipe + 1 }

def register (s : SignalState S) (t : S) : SignalState S :=
  { s with registered := Function.update s.registered t (some s.pipe) }

def deregister (s : SignalState S) (t : S) : SignalState S :=
  { s with registered := Function.update s.registered t none }

def addService (s : SignalState S) (t : S) : SignalState S :=
  let s := if s.services = [] then openDescriptors s else s
  register { s with services := t :: s.services } t

/-- Nobody is left to wait for the pipe that is closed with the last service. -/
def removeService (s : SignalState S) (t : S) : SignalState S :=
  if t ∈ s.services then { deregister s t with services := s.services.erase t } else s

def notifyFork (ev : ForkEvent) (s : SignalState S) (t : S) : SignalState S :=
  match ev with
  | .prepare => deregister { s with forkPrepared := true } t
  | .parent => if s.forkPrepared then register { s with forkPrepared := false } t else s
  | .child =>
    if s.forkPrepared then register { openDescriptors s with forkPrepared := false } t else s

/-- One process's side of a fork: `ev` is what it is told afterwards. -/
def fork (s : SignalState S) (ev : ForkEvent) (before after : List S) : SignalState S :=
  after.foldl (notifyFork ev) (before.foldl (notifyFork .prepare) s)

inductive Action (S : Type)
  | add (t : S)
  | remove (t : S)
  | fork (child : Bool) (before after : List S)

/-- Services are created once, and the notifications of a fork reach all of them in any order. -/
def step (s : SignalState S) : Action S → Option (SignalState S)
  | .add t => if t ∈ s.services then none else some (addService s t)
  | .remove t => some (removeService s t)
  | .fork child before after =>
    if before.Perm s.services ∧ after.Perm s.services then
      some (fork s (if child then .child else .parent) before after)
    else none

/-- Every live service waits for the current pipe. -/
def Registered (s : SignalState S) : Prop := ∀ t ∈ s.services, s.registered t = some s.pipe

/-! ## One fork -/

variable {s : SignalState S} {ev : ForkEvent} {before after : List S}

theorem foldl_prepare (t : S) (ts : List S) (s : SignalState S) :
    (t :: ts).foldl (notifyFork .prepare) s = { s with
        forkPrepared := true
        registered := fun u => if u ∈ t :: ts then none else s.registered u } := by
  induction ts generalizing t s with
  | nil => simp [notifyFork, deregister, Function.update_apply, funext_iff]
  | cons t' ts ih =>
    rw [List.foldl_cons, ih]
    simp only [notifyFork, deregister, Function.update_apply, SignalState.mk.injEq, true_and]
    funext u
    by_cases hu : u = t <;> simp [hu]

theorem foldl_cleared (hev : ev ≠ .prepare) (hs : s.forkPrepared = false) (ts : List S) :
    ts.foldl (notifyFork ev) s = s := by
  induction ts with
  | nil => rfl
  | cons t ts ih => cases ev <;> simp_all [notifyFork]

/-- Only the first service that is notified after the fork finds the flag set. -/
theorem fork_registered (hev : ev ≠ .prepare) (hbefore : before.Perm s.services) {t : S} {ts : List S}
    (hafter : (t :: ts).Perm s.services) :
    (fork s ev before (t :: ts)).services = s.services ∧
      ∀ u ∈ s.services, (fork s ev before (t :: ts)).registered u =
        if u = t then some (fork s ev before (t :: ts)).pipe else none := by
  obtain ⟨b, bs, rfl⟩ : ∃ b bs, before = b :: bs := by
    cases before with
    | nil => exact absurd (hafter.trans hbefore.symm) (by simp)
    | cons b bs => exact ⟨b, bs, rfl⟩
  have hmem (u : S) (hu : u ∈ s.services) : u ∈ b :: bs := hbefore.symm.subset hu
  rw [fork, foldl_prepare, List.foldl_cons]
  cases ev with
  | prepare => exact absurd rfl hev
  | parent | child =>
    rw [foldl_cleared hev (by simp [notifyFork, register])]
    refine ⟨by simp [notifyFork, register, openDescriptors], fun u hu => ?_⟩
    simp [notifyFork, register, openDescriptors, Function.update_apply,
      List.mem_cons.mp (hmem u hu)]

/-! ## Runs -/

theorem step_registered {a : Action S} {s' : SignalState S} (h : Registered s ∧ s.services.Nodup)
    (hone : ∀ child before after, a = .fork child before after → s.services.length ≤ 1)
    (hs : step s a = some s') : Registered s' ∧ s'.services.Nodup := by
  obtain ⟨h, hnd⟩ := h
  cases a with
  | add t =>
    simp only [step, ite_none_left_eq_some, some.injEq] at hs
    obtain ⟨ht, rfl⟩ := hs
    by_cases hnil : s.services = []
    · simp [addService, openDescriptors, register, Registered, hnil]
    · refine ⟨fun u hu => ?_, ?_⟩
      · simp only [addService, register, hnil, if_false, List.mem_cons] at hu ⊢
        by_cases hut : u = t
        · simp [hut]
        · simpa [hut] using h u (hu.resolve_left hut)
      · simpa [addService, register, hnil] using ⟨ht, hnd⟩
  | remove t =>
    obtain rfl := some.inj hs
    by_cases ht : t ∈ s.services
    · simp only [removeService, ht, if_true, deregister]
      refine ⟨fun u hu => ?_, hnd.erase t⟩
      obtain ⟨hut, hu⟩ := hnd.mem_erase_iff.mp hu
      simpa [hut] using h u hu
    · simpa [removeService, ht] using ⟨h, hnd⟩
  | fork child before after =>
    simp only [step, ite_none_right_eq_some, some.injEq] at hs
    obtain ⟨⟨hbefore, hafter⟩, rfl⟩ := hs
    cases after with
    | nil =>
      have hnil : s.services = [] := hafter.symm.eq_nil
      have hfork : before = [] := (hnil ▸ hbefore).eq_nil
      simpa [fork, hfork] using ⟨h, hnd⟩
    | cons t ts =>
      have hlen := hone child before _ rfl
      have hev : (if child then ForkEvent.child else .parent) ≠ .prepare := by cases child <;> simp
      obtain ⟨hsv, hreg⟩ := fork_registered hev hbefore hafter
      refine ⟨fun u hu => ?_, hsv ▸ hnd⟩
      rw [hsv] at hu
      have hts : ts = [] := by
        have := hafter.length_eq
        exact List.length_eq_zero_iff.mp (by simp at this; omega)
      rw [hreg u hu, if_pos (by simpa [hts] using hafter.symm.subset hu)]

/-- As long as no more than one service is alive at a fork, every live service is registered for the
current pipe, in whatever order services come and go and are notified. -/
theorem run_registered (as : List (Action S))
    (hone : Runs.AllSteps step (fun s a => ∀ child before after, a = .fork child before after →
      s.services.length ≤ 1) SignalState.init as)
    (hr : Runs.run step SignalState.init as = some s) : Registered s :=
  (Runs.invariant_of_allSteps (I := fun s => Registered s ∧ s.services.Nodup)
    (fun _ _ _ => step_registered) (by simp [Registered, SignalState.init]) hone hr).1

theorem one_registered : ∃ s, Runs.run step SignalState.init
      [.add 0, .fork false [0] [0], .fork true [0] [0], .add 1] = some s ∧
    s.services = [1, 0] ∧ Registered s :=
  ⟨_, rfl, rfl, run_registered [.add 0, .fork false [0] [0], .fork true [0] [0], .add 1]
    (by simp [Runs.AllSteps, step, SignalState.init, addService, register, openDescriptors, fork,
      notifyFork, deregister]) rfl⟩

/-- Two contexts: the second one notified in the parent is left without a registration. -/
theorem two_deregistered :
    (Runs.run step SignalState.init [.add 0, .add 1, .fork false [0, 1] [0, 1]]).map
      (fun s => (s.services, s.registered 0, s.registered 1)) = some ([1, 0], some 1, none) := by
  decide

end

end SignalFork
end Detail
end Xio
