import Mathlib

/-!
# Runs — executions of a partial step function

A deterministic system is a partial function `step : σ → α → Option σ`, where an action carries
every choice of its environment. `run` folds it over a list of actions, and the rules below turn
facts about one step into facts about every state that a run passes through.
-/

namespace Runs

open List

variable {σ α : Type*} (step : σ → α → Option σ)
variable {P : σ → α → Prop} {as : List α} {I : σ → Prop} {s t : σ}

def run : σ → List α → Option σ
  | s, [] => some s
  | s, a :: as => (step s a).bind (fun t => run t as)

@[simp] theorem run_nil (s : σ) : run step s [] = some s := rfl

theorem run_cons (s : σ) (a : α) (as : List α) :
    run step s (a :: as) = (step s a).bind (fun t => run step t as) := rfl

variable {step}

theorem run_cons_eq_some {s u : σ} {a : α} :
    run step s (a :: as) = some u ↔ ∃ t, step s a = some t ∧ run step t as = some u := by
  rw [run_cons, Option.bind_eq_some_iff]

theorem run_append (s : σ) (as bs : List α) :
    run step s (as ++ bs) = (run step s as).bind (fun t => run step t bs) := by
  induction as generalizing s with
  | nil => rfl
  | cons a as ih =>
    rw [cons_append, run_cons, run_cons, Option.bind_assoc]
    exact congrArg (Option.bind (step s a)) (funext ih)

theorem run_append_eq_some {s u : σ} {as bs : List α} :
    run step s (as ++ bs) = some u ↔ ∃ t, run step s as = some t ∧ run step t bs = some u := by
  rw [run_append, Option.bind_eq_some_iff]

/-- The steps of a run all satisfy `P`, a condition on the state before the step and the action. -/
def AllSteps (step : σ → α → Option σ) (P : σ → α → Prop) : σ → List α → Prop
  | _, [] => True
  | s, a :: as => P s a ∧ ∀ t, step s a = some t → AllSteps step P t as

instance AllSteps.decidable {P : σ → α → Prop} [∀ s a, Decidable (P s a)] :
    ∀ s as, Decidable (AllSteps step P s as)
  | _, [] => isTrue trivial
  | s, a :: as =>
    match h : step s a with
    | none => decidable_of_iff (P s a)
        ⟨fun hp => ⟨hp, fun t ht => absurd (h.symm.trans ht) (by simp)⟩, fun hp => hp.1⟩
    | some t =>
      have := AllSteps.decidable (P := P) t as
      decidable_of_iff (P s a ∧ AllSteps step P t as)
        ⟨fun hp => ⟨hp.1, fun u hu => Option.some.inj (h.symm.trans hu) ▸ hp.2⟩,
          fun hp => ⟨hp.1, hp.2 t h⟩⟩

theorem AllSteps.left {as bs : List α}
    (h : AllSteps step P s (as ++ bs)) : AllSteps step P s as := by
  induction as generalizing s with
  | nil => trivial
  | cons a as ih => exact ⟨h.1, fun t ht => ih (h.2 t ht)⟩

theorem AllSteps.suffix {as bs : List α}
    (h : AllSteps step P s (as ++ bs)) (hr : run step s as = some t) : AllSteps step P t bs := by
  induction as generalizing s with
  | nil =>
    cases hr
    exact h
  | cons a as ih =>
    obtain ⟨u, hu, hut⟩ := run_cons_eq_some.mp hr
    exact ih (h.2 u hu) hut

theorem AllSteps.and {P Q : σ → α → Prop} (h : AllSteps step P s as)
    (h' : AllSteps step Q s as) : AllSteps step (fun t a => P t a ∧ Q t a) s as := by
  induction as generalizing s with
  | nil => trivial
  | cons a as ih => exact ⟨⟨h.1, h'.1⟩, fun t ht => ih (h.2 t ht) (h'.2 t ht)⟩

theorem AllSteps.imp {P Q : σ → α → Prop} (h : AllSteps step P s as)
    (hpq : ∀ t a, P t a → Q t a) : AllSteps step Q s as := by
  induction as generalizing s with
  | nil => trivial
  | cons a as ih => exact ⟨hpq s a h.1, fun t ht => ih (h.2 t ht)⟩

theorem AllSteps.of_forall (h : ∀ s a, P s a) (s : σ) (as : List α) : AllSteps step P s as := by
  induction as generalizing s with
  | nil => trivial
  | cons a as ih => exact ⟨h s a, fun t _ => ih t⟩

theorem AllSteps.of_mem (h : ∀ t, ∀ a ∈ as, P t a) : AllSteps step P s as := by
  induction as generalizing s with
  | nil => trivial
  | cons a as ih =>
    exact ⟨h s a mem_cons_self, fun t _ => ih (fun u b hb => h u b (mem_cons_of_mem a hb))⟩

theorem invariant_of_allSteps (hstep : ∀ s a t, I s → P s a → step s a = some t → I t)
    (hs : I s) (hP : AllSteps step P s as) (hr : run step s as = some t) : I t := by
  induction as generalizing s with
  | nil =>
    cases hr
    exact hs
  | cons a as ih =>
    obtain ⟨u, hu, hut⟩ := run_cons_eq_some.mp hr
    exact ih (hstep s a u hs hP.1 hu) (hP.2 u hu) hut

theorem allSteps_of_invariant (hstep : ∀ s a t, I s → P s a → step s a = some t → I t)
    (hs : I s) (hP : AllSteps step P s as) : AllSteps step (fun t _ => I t) s as := by
  induction as generalizing s with
  | nil => trivial
  | cons a as ih => exact ⟨hs, fun t ht => ih (hstep s a t hs hP.1 ht) (hP.2 t ht)⟩

/-- What each step relates, the two ends of a run are related by, if the relation composes. -/
theorem related_of_allSteps {R : σ → σ → Prop}
    (hrefl : ∀ s, R s s) (htrans : ∀ {s t u}, R s t → R t u → R s u)
    (hstep : ∀ s a t, I s → P s a → step s a = some t → I t ∧ R s t)
    (hs : I s) (hP : AllSteps step P s as) (hr : run step s as = some t) : R s t := by
  induction as generalizing s with
  | nil =>
    cases hr
    exact hrefl _
  | cons a as ih =>
    obtain ⟨u, hu, hut⟩ := run_cons_eq_some.mp hr
    obtain ⟨hI, hR⟩ := hstep s a u hs hP.1 hu
    exact htrans hR (ih hI (hP.2 u hu) hut)

theorem invariant (hstep : ∀ s a t, I s → step s a = some t → I t)
    (hs : I s) (hr : run step s as = some t) : I t := by
  induction as generalizing s with
  | nil =>
    cases hr
    exact hs
  | cons a as ih =>
    obtain ⟨u, hu, hut⟩ := run_cons_eq_some.mp hr
    exact ih (hstep s a u hs hu) hut

/-- A system that is never stuck and takes one off a bound with each step. -/
theorem run_countdown {W : Nat → σ → Prop} {P : α → Prop}
    (hstep : ∀ n s a, W n s → P a → ∃ t, step s a = some t ∧ W (n - 1) t)
    {n : Nat} (hs : W n s) (has : ∀ a ∈ as, P a) :
    ∃ t, run step s as = some t ∧ W (n - as.length) t := by
  induction as generalizing n s with
  | nil => exact ⟨s, rfl, hs⟩
  | cons a as ih =>
    obtain ⟨t, ht, hw⟩ := hstep n s a hs (has a mem_cons_self)
    obtain ⟨u, hu, hw'⟩ := ih hw (fun b hb => has b (mem_cons_of_mem a hb))
    refine ⟨u, run_cons_eq_some.mpr ⟨t, ht, hu⟩, ?_⟩
    rwa [length_cons, Nat.add_comm, ← Nat.sub_sub]

/-- Forward simulation: each step that meets the condition is matched by a sequence of abstract
steps, so each run is matched by an abstract execution. -/
theorem simulation {τ : Type*} {R : σ → τ → Prop} {A : τ → τ → Prop}
    (hstep : ∀ s a t x, R s x → P s a → step s a = some t →
      ∃ y, Relation.ReflTransGen A x y ∧ R t y) {x : τ} (hs : R s x) (hP : AllSteps step P s as)
    (hr : run step s as = some t) : ∃ y, Relation.ReflTransGen A x y ∧ R t y := by
  induction as generalizing s x with
  | nil =>
    cases hr
    exact ⟨x, Relation.ReflTransGen.refl, hs⟩
  | cons a as ih =>
    obtain ⟨u, hu, hut⟩ := run_cons_eq_some.mp hr
    obtain ⟨y, hxy, hy⟩ := hstep s a u x hs hP.1 hu
    obtain ⟨z, hyz, hz⟩ := ih hy (hP.2 u hu) hut
    exact ⟨z, hxy.trans hyz, hz⟩

end Runs
