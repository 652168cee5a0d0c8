import Xio.Lib.Runs

/-!
# Raft.EventAwaiter — the background append thread is woken up

`append_entries_in_bg` waits on an `EventAwaiter`, resets it and sends what is in the log. Any number
of threads store entries and then call `invoke()`. The first exchange of either call takes no lock;
what follows takes it and is one step here.
-/

namespace Xio
namespace Raft

inductive AwaiterStatus
  | idle | ready | waiting | done
  deriving DecidableEq

/-- What the background thread does next; `lock` is the critical section of `wait()`. -/
inductive BgPhase
  | wait | lock | asleep | woken | reset | exec
  deriving DecidableEq

/-- How far a thread is; `lock` is the critical section of `invoke()`. -/
inductive CallPhase
  | returned | stored | lock
  deriving DecidableEq

/-- The threads `ι` and their entries that were not sent yet. -/
structure BgAppend (ι : Type) where
  status : AwaiterStatus := .idle
  bg : BgPhase := .wait
  call : ι → CallPhase := fun _ => .returned
  unsent : ι → Bool := fun _ => false

namespace BgAppend

open Function

variable {ι : Type} [DecidableEq ι] {x y : BgAppend ι}

inductive Action (ι : Type)
  | store (n : ι)
  | invoke (n : ι)
  | invokeLocked (n : ι)
  | background
  /-- a wake-up that nobody asked for -/
  | spurious

def step (x : BgAppend ι) : Action ι → Option (BgAppend ι)
  | .store n =>
    if x.call n = .returned then
      some { x with call := update x.call n .stored, unsent := update x.unsent n true }
    else none
  | .invoke n =>
    if x.call n ≠ .stored then none
    else if x.status = .idle then
      some { x with status := .done, call := update x.call n .returned }
    else some { x with call := update x.call n .lock }
  | .invokeLocked n =>
    if x.call n ≠ .lock then none
    else if x.status = .ready then
      some { x with status := .done, call := update x.call n .returned }
    else
      let bg := if x.bg = .asleep then .woken else x.bg
      some { x with bg := bg, call := update x.call n .returned }
  | .background =>
    match x.bg with
    | .wait =>
      if x.status = .idle then some { x with status := .ready, bg := .lock }
      else some { x with bg := .reset }
    | .lock =>
      if x.status = .ready then some { x with status := .waiting, bg := .asleep }
      else some { x with bg := .reset }
    | .asleep => none
    | .woken => some { x with status := .done, bg := .reset }
    | .reset => some { x with status := .idle, bg := .exec }
    | .exec => some { x with bg := .wait, unsent := fun _ => false }
  | .spurious => if x.bg = .asleep then some { x with bg := .woken } else none

/-- The statuses that go with what the background thread does. -/
def Fits : BgPhase → AwaiterStatus → Prop
  | .wait, s | .exec, s => s = .idle ∨ s = .done
  | .lock, s => s = .ready ∨ s = .done
  | .asleep, s | .woken, s => s = .waiting
  | .reset, s => s = .done

/-- The background thread does not fall asleep before it sends. -/
def Awake : BgPhase → AwaiterStatus → Prop
  | .wait, s | .lock, s => s = .done
  | .asleep, _ => False
  | _, _ => True

/-- Entries of a call that has returned are about to be sent. A call that found the awaiter in use
does not see the background thread come back to an idle one, as that has sent its entries. -/
structure Inv (x : BgAppend ι) : Prop where
  fits : Fits x.bg x.status
  returned : ∀ n, x.unsent n = true → x.call n = .returned → Awake x.bg x.status
  locked : ∀ n, x.unsent n = true → x.call n = .lock → x.bg = .wait → x.status = .done

theorem background_inv (h : x.Inv) (hstep : x.step .background = some y) : y.Inv := by
  obtain ⟨status, bg, call, unsent⟩ := x
  obtain ⟨hfits, hreturned, hlocked⟩ := h
  dsimp only [step] at hfits hreturned hlocked hstep
  cases bg <;> dsimp only at hstep <;> (try split at hstep) <;> cases hstep <;>
    constructor <;> grind [Fits, Awake]

theorem step_inv {a : Action ι} (h : x.Inv) (hstep : x.step a = some y) : y.Inv := by
  obtain ⟨status, bg, call, unsent⟩ := x
  obtain ⟨hfits, hreturned, hlocked⟩ := h
  dsimp only at hfits hreturned hlocked
  cases a with dsimp only [step] at hstep
  | store n =>
    split at hstep <;> cases hstep
    constructor <;> grind [update_apply]
  | invoke n =>
    split_ifs at hstep <;> cases hstep
    · -- an idle awaiter is done before the background thread comes to wait for it
      cases bg <;> constructor <;> grind [Fits, Awake, update_apply]
    · cases bg <;> constructor <;> grind [Fits, update_apply]
  | invokeLocked n =>
    -- nobody sleeps through it, and an idle awaiter was reset after the entries were stored
    split_ifs at hstep <;> cases hstep <;> cases bg <;> constructor <;>
      grind [Fits, Awake, update_apply]
  | background =>
    exact background_inv (x := ⟨status, bg, call, unsent⟩) ⟨hfits, hreturned, hlocked⟩ hstep
  | spurious =>
    split at hstep <;> cases hstep
    constructor <;> grind [Fits, Awake]

/-- In every run, entries whose thread has returned from `invoke()` are sent within three further
steps of the background thread alone. -/
theorem stored_entries_sent {as : List (Action ι)} (hrun : Runs.run step {} as = some x) {n : ι}
    (hunsent : x.unsent n = true) (hcall : x.call n = .returned) :
    ∃ k ≤ 3, ∃ y, Runs.run step x (List.replicate k .background) = some y ∧ y.unsent n = false := by
  have hstart : ({} : BgAppend ι).Inv := ⟨Or.inl rfl, by simp, by simp⟩
  have hinv : x.Inv := Runs.invariant (fun _ _ _ => step_inv) hstart hrun
  have hawake := hinv.returned n hunsent hcall
  obtain ⟨status, bg, call, unsent⟩ := x
  cases bg with
  | wait | lock =>
    obtain rfl : status = .done := hawake
    exact ⟨3, le_rfl, _, rfl, rfl⟩
  | asleep => exact hawake.elim
  | woken => exact ⟨3, le_rfl, _, rfl, rfl⟩
  | reset => exact ⟨2, by decide, _, rfl, rfl⟩
  | exec => exact ⟨1, by decide, _, rfl, rfl⟩

/-- The second call finds the awaiter reset after the first one. -/
def twoCalls : List (Action Nat) :=
  [.store 0, .background, .invoke 0, .invokeLocked 0, .background, .background, .store 1, .invoke 1]

theorem twoCalls_sent : ∃ x ∈ Runs.run step {} twoCalls,
    ∃ k ≤ 3, ∃ y, Runs.run step x (List.replicate k .background) = some y ∧ y.unsent 1 = false := by
  obtain ⟨x, hrun, hunsent, hcall⟩ : ∃ x ∈ Runs.run step {} twoCalls,
    x.unsent 1 = true ∧ x.call 1 = .returned := ⟨_, rfl, rfl, rfl⟩
  exact ⟨x, hrun, stored_entries_sent hrun hunsent hcall⟩

end BgAppend
end Raft
end Xio
