import Xio.Raft.BlockingClients
import Xio.Raft.ClientCompletion

/-!
# Raft.BlockingCompletion — what blocking requests return

The commit thread completes the elements that the blocking requests wait for. This module has its
steps, and what holds in every run of all threads.

A request returns `OK` exactly for an entry that was applied in time if the threads keep to an
order, `BlockingClients.Safe`. Nothing in the server makes them; the last section has a run for each
way in which the threads get into each other's way.

- `BlockingClients.step_inv`: one step of any thread
- `BlockingClients.blocking_sound`: every run
- `threads_collide`: values that are lost, and results that do not fit the entry
-/

namespace Xio
namespace Raft
namespace BlockingClients

open List Function Option

open ClientCompletion (Done HasEntry AtNext PhaseSound)

variable {v w : BlockingClients}
variable {value : Option Bytes} {q : BlockingRequest} {e : LogEntry} {c : ClientCompletion} {r : Nat}
variable {a : Action} {b : Bool}

/-! ## The commit thread -/

theorem evolves_led (c : ClientCompletion) (ls : List (Nat × Nat × Option Bytes)) :
    Evolves v { v.withCore c with led := ls } :=
  ⟨fun _ q hq => ⟨q, hq, .refl q⟩, rfl, rfl, fun _ => rfl, Subset.refl _⟩

/-- The state machine returns for the entry of a leader, or for one that no request waits for. -/
theorem apply_inv (hv : v.Inv) {k : Nat}
    (hexec : v.core.exec = .picked b k e) (hconf : e.isConf = false) (hsafe : v.SafeApply)
    (value : Option Bytes) : Inv { v.withCore { v.core with
        exec := .returned b k e v.core.srv.precommitIndex value
        applied := v.core.applied ++ [(k, e.term, value)] } with
      led := v.led ++ v.ledCall value } := by
  have hthreads := hv.threads.apply hexec value
  have hdone := ClientCompletion.done_apply hexec value
  have hled : v.led ⊆ v.led ++ v.ledCall value := subset_append_left _ _
  have hcall : v.ledCall value =
      if v.core.srv.role = .leader then [(k, e.term, value)] else [] := by
    rw [ledCall, hexec]
    simp [hconf]
  exact
    { threads := hthreads
      shape := (evolves_led _ _).shape hv.shape
      elems := fun j el hel => (hv.elems j el hel).mono le_rfl rfl rfl rfl (hdone j)
        (fun _ _ _ => id) id (fun _ => id) hled (evolves_led _ _).owner
      standing := fun r q hq => (hv.standing r q hq).mono (fun _ => rfl) (fun _ _ => Iff.rfl)
        (fun _ _ => id) hled
      late := by
        intro r q hq hl
        have happlied := hv.late r q hq hl
        unfold wasApplied at happlied ⊢
        exact any_append.trans (by rw [happlied, Bool.true_or])
      early := fun j term hc hd => hv.early j term hc ((hdone j).mp hd)
      reserved := (evolves_led _ _).reserved hv (fun _ _ => id)
      ledApplied := by
        intro x hx
        rcases mem_append.mp hx with hold | hnew
        · exact mem_append_left _ (hv.ledApplied hold)
        · rw [hcall] at hnew
          split at hnew
          · exact mem_append_right _ hnew
          · cases hnew
      returned := by
        rintro _ _ _ _ _ ⟨⟩
        by_cases hlead : v.core.srv.role = .leader
        · rw [hcall, if_pos hlead]
          exact .inl (mem_append_right _ (mem_singleton_self _))
        · have hnone := (hsafe k (hexec ▸ rfl)).resolve_left hlead
          refine .inr ⟨findElem_eq_none.mp hnone, fun hidx => hlead ?_⟩
          obtain ⟨term, hc⟩ := clientIdx_eq_some.mp hidx
          exact (hv.threads.client k term hc).1 }

/-- The completion of index `k`, which exchanges or removes the element of that index only. -/
structure Completes (v w : BlockingClients) (b : Bool) (k : Nat) : Prop where
  core : w.core = { v.core with exec := .notifying b k [] }
  led : w.led = v.led
  requests : w.requests = v.requests
  nextRequest : w.nextRequest = v.nextRequest
  nextElem : v.nextElem ≤ w.nextElem
  idx : ∀ e < v.nextElem, (w.elems e).idx = (v.elems e).idx
  elems : ∀ e < v.nextElem, (k, e) ∉ v.table → w.elems e = v.elems e
  table : ∀ j e, j ≠ k → ((j, e) ∈ w.table ↔ (j, e) ∈ v.table)
  keys : ∀ e e', (k, e) ∈ w.table → (k, e') ∈ w.table → e = e'
  new : ∀ e < v.nextElem, (k, e) ∈ w.table → (k, e) ∈ v.table
  sound : ∀ e, (k, e) ∈ w.table → w.ElemSound k e
  standing : ∀ r q, v.requests r = some q → q.phase.unreturned = true → (k, q.elem) ∈ v.table →
    w.Standing q
  client : v.core.clientIdx = some k → ∃ e, (k, e) ∈ w.table

namespace Completes

variable {b : Bool} {k : Nat} (h : Completes v w b k)
include h

theorem listed {j e : Nat} (he : e < v.nextElem) (hlisted : (j, e) ∈ w.table) :
    (j, e) ∈ v.table := by
  by_cases hj : j = k
  · rw [hj] at hlisted ⊢
    exact h.new e he hlisted
  · exact (h.table j e hj).mp hlisted

theorem shape (hv : v.Shape) : w.Shape where
  keys j e e' he he' := by
    by_cases hj : j = k
    · rw [hj] at he he'
      exact h.keys e e' he he'
    · exact hv.keys j e e' ((h.table j e hj).mp he) ((h.table j e' hj).mp he')
  made r q hq := by
    rw [h.nextRequest]
    exact hv.made r q (h.requests ▸ hq)
  owns r q hq hopen := by
    obtain ⟨hmade, hidx⟩ := hv.owns r q (h.requests ▸ hq) hopen
    exact ⟨hmade.trans_le h.nextElem, (h.idx q.elem hmade).trans hidx⟩
  distinct := h.requests ▸ hv.distinct
  apart r q r' q' hq hq' hopen hopen' hlisted := by
    rw [h.requests] at hq hq'
    have hmade := (hv.owns r' q' hq' hopen').1
    exact hv.apart r q r' q' hq hq' hopen hopen' (h.listed hmade hlisted)

theorem inv (hc : v.core.Completing k e) (hv : v.Inv) : w.Inv := by
  have hdone : ∀ j, w.core.Done j ↔ v.core.Done j ∨ j = k := by
    intro j
    rw [h.core]
    exact hc.done_iff (w := { v.core with exec := .notifying b k [] }) rfl rfl
  exact
    { threads := h.core ▸ hv.threads.pass b hc (fun _ hr => by cases hr)
      shape := h.shape hv.shape
      elems := by
        intro j el hel
        by_cases hj : j = k
        · rw [hj] at hel ⊢
          exact h.sound el hel
        · have hs := hv.elems j el ((h.table j el hj).mp hel)
          have hsame : w.elems el = v.elems el :=
            h.elems el hs.made (fun hk => hj (hs.idx.symm.trans (hv.elems k el hk).idx))
          refine hs.mono h.nextElem (by rw [hsame]) (by rw [hsame]) (by rw [hsame])
            ((hdone j).trans (or_iff_left hj)) ?_ ?_ ?_ ?_ ?_
          · rw [h.core]
            exact fun _ _ _ => id
          · rw [h.core]
            exact fun hg => hg
          · rw [h.core]
            exact fun _ => id
          · rw [h.led]
            exact Subset.refl _
          · rw [h.requests]
            exact fun r q hq hopen heq => ⟨q, hq, hopen, heq⟩
      standing := by
        intro r q hq
        rw [h.requests] at hq
        by_cases hk : q.phase.unreturned = true ∧ (k, q.elem) ∈ v.table
        · exact h.standing r q hq hk.1 hk.2
        · -- nobody has touched the element
          have hother : q.phase.unreturned = true → q.elem < v.nextElem ∧ (k, q.elem) ∉ v.table :=
            fun hopen => ⟨(hv.shape.owns r q hq hopen).1, fun hin => hk ⟨hopen, hin⟩⟩
          refine (hv.standing r q hq).mono ?_ ?_ ?_ ?_
          · intro hopen
            exact h.elems q.elem (hother hopen).1 (hother hopen).2
          · intro hopen j
            refine ⟨h.listed (hother hopen).1, fun hin => (h.table j q.elem ?_).mpr hin⟩
            rintro rfl
            exact (hother hopen).2 hin
          · rw [h.core]
            exact fun _ _ => id
          · rw [h.led]
            exact Subset.refl _
      late := by
        intro r q hq hl
        rw [wasApplied, h.core]
        exact hv.late r q (h.requests ▸ hq) hl
      early := by
        intro j term hclient hd
        rw [h.core] at hclient
        rcases (hdone j).mp hd with hold | rfl
        · obtain ⟨el, hel⟩ := hv.early j term hclient hold
          have hj : j ≠ k := fun heq => hc.not_done (heq ▸ hold)
          exact ⟨el, (h.table j el hj).mpr hel⟩
        · exact h.client (clientIdx_eq_some.mpr ⟨term, hclient⟩)
      reserved := by
        rw [h.core, h.requests]
        exact hv.reserved
      ledApplied := by
        rw [h.led, h.core]
        exact hv.ledApplied
      returned := by
        rw [h.core]
        intro _ _ _ _ _ hexec
        cases hexec }

end Completes

theorem completes_unseen (hv : v.Inv) (b : Bool) {k : Nat} (hnone : ∀ e, (k, e) ∉ v.table)
    (hfree : v.core.clientIdx ≠ some k) :
    Completes v (v.withCore { v.core with exec := .notifying b k [] }) b k where
  core := rfl
  led := rfl
  requests := rfl
  nextRequest := rfl
  nextElem := le_rfl
  idx _ _ := rfl
  elems _ _ _ := rfl
  table _ _ _ := Iff.rfl
  keys := hv.shape.keys k
  new _ _ h := h
  sound e he := absurd he (hnone e)
  standing _ q _ _ hlisted := absurd hlisted (hnone q.elem)
  client h := absurd h hfree

theorem applyConf_inv (hv : v.Inv) {k : Nat}
    (hexec : v.core.exec = .picked b k e) (hconf : e.isConf = true) : (v.withCore { v.core with
      srv := v.core.srv.executeEntry e, exec := .notifying b k [] }).Inv := by
  have hat : v.core.AtNext k e := by
    have h := hv.threads.phase
    rwa [hexec] at h
  have hc : v.core.Completing k e := ⟨hat, hexec ▸ rfl, hexec ▸ rfl,
    fun r hr => by rw [hexec] at hr; cases hr⟩
  have hnone : ∀ el, (k, el) ∉ v.table := by
    intro el hel
    have hs := hv.elems k el hel
    by_cases hcode : (v.elems el).code = .timeout
    · obtain ⟨term, hentry⟩ := (hs.waits hcode).2.2.1
      cases hconf.symm.trans (hat.term_eq hentry).2
    · exact hc.not_done (hs.done hcode).2
  have hfree : v.core.clientIdx ≠ some k := by
    intro hidx
    obtain ⟨term, -, hentry⟩ := hv.threads.clientEntry hidx hc.not_done
    cases hconf.symm.trans (hat.term_eq hentry).2
  have hpass := (completes_unseen hv b hnone hfree).inv hc hv
  refine hpass.withServer (RaftServer.executeEntry_smCommitIndex _ _)
    ClientCompletion.executeEntry_keeps ?_ hpass.threads.executeEntry
  rintro - (hlead | hstep)
  · exact .inl ((v.core.srv.executeEntry_frame e).2.1.trans hlead)
  · exact .inr hstep

theorem completing_of_returned (hc : c.Threads) {k pc : Nat}
    (hexec : c.exec = .returned b k e pc value) :
    c.Completing k e ∧ (c.clientIdx = some k → pc = k) := by
  have h := hc.phase
  rw [hexec] at h
  refine ⟨⟨h.1, hexec ▸ rfl, hexec ▸ rfl, ?_⟩, h.2.2⟩
  intro r hr
  cases hexec ▸ hr
  rfl

theorem Inv.found (hv : v.Inv) {k pc el : Nat}
    (hexec : v.core.exec = .returned b k e pc value) (hlisted : (k, el) ∈ v.table) :
    (v.elems el).code = .timeout ∧ v.core.clientIdx ≠ some k ∧ (k, e.term, value) ∈ v.led := by
  have hs := hv.elems k el hlisted
  have hnot := (completing_of_returned hv.threads hexec).1.not_done
  have hcode : (v.elems el).code = .timeout := by
    by_contra hne
    exact hnot (hs.done hne).2
  refine ⟨hcode, (hs.waits hcode).2.2.2, ?_⟩
  rcases hv.returned b k e pc value hexec with hled | ⟨hunlisted, -⟩
  · exact hled
  · exact absurd hlisted (hunlisted el)

/-- Whose element the commit thread finds, with its thread not between its two parts. -/
theorem Inv.owner_pending (hv : v.Inv) {k pc el : Nat}
    (hexec : v.core.exec = .returned true k e pc value) (hfind : v.findElem k = some el)
    (hsafe : v.SafeComplete) (hq : v.requests r = some q)
    (hopen : q.phase.unreturned = true) (hlisted : (k, q.elem) ∈ v.table) :
    q.elem = el ∧ q.idx = k ∧ q.phase.uncollected = true ∧
      (v.elems el).callbackInvoked = false ∧ (k, q.term, value) ∈ v.led := by
  have hin := findElem_eq_some hfind
  obtain rfl : q.elem = el := hv.shape.keys k _ _ hlisted hin
  obtain ⟨hcode, -, hled⟩ := hv.found hexec hin
  have hidx : q.idx = k := (hv.shape.owns r q hq hopen).2.symm.trans (hv.elems k _ hin).idx
  have huncollected : q.phase.uncollected = true := by
    have hparts := (hsafe (true, k, pc) (hexec ▸ rfl)).1 rfl
    rcases hparts q.elem hfind r (hv.shape.made r q hq) q hq rfl with hun | hret
    · exact hun
    · cases hopen.symm.trans hret
  have hat := (completing_of_returned hv.threads hexec).1.next
  cases hv.standing r q hq with
  | pending phase code listed entry callback event late =>
    rw [(hat.term_eq (hidx ▸ entry)).1] at hled
    exact ⟨rfl, hidx, phase, callback, hled⟩
  | ready phase code | dropped phase code => cases hcode.symm.trans code
  | gaveUp phase | taken phase | lost phase | answered phase =>
    cases phase ▸ huncollected

section Complete

variable {k pc el : Nat} {e : LogEntry} {value : Option Bytes}

section

variable (hv : v.Inv) (hexec : v.core.exec = .returned true k e pc value)
include hv hexec

theorem completes_found (hfind : v.findElem k = some el) (hsafe : v.SafeComplete) :
    Completes v { v.withCore { v.core with exec := .notifying true k [] } with
        elems := update v.elems el
          { v.elems el with code := .ok, value := value, invoked := true } } true k := by
  have hin := findElem_eq_some hfind
  have hs := hv.elems k el hin
  obtain ⟨-, hfree, -⟩ := hv.found hexec hin
  have hother : ∀ e', e' ≠ el → update v.elems el
      { v.elems el with code := .ok, value := value, invoked := true } e' = v.elems e' :=
    fun _ hne => update_of_ne hne _ _
  have hself : update v.elems el
      { v.elems el with code := .ok, value := value, invoked := true } el =
        { v.elems el with code := .ok, value := value, invoked := true } :=
    update_self _ _ _
  exact
    { core := rfl
      led := rfl
      requests := rfl
      nextRequest := rfl
      nextElem := le_rfl
      idx := by
        intro e' _
        dsimp only
        by_cases he : e' = el
        · rw [he, hself]
        · rw [hother e' he]
      elems := fun e' _ hunlisted => hother e' (fun he => hunlisted (he ▸ hin))
      table := fun _ _ _ => Iff.rfl
      keys := hv.shape.keys k
      new := fun _ _ => id
      sound := by
        intro e' he'
        obtain rfl : e' = el := hv.shape.keys k _ _ he' hin
        exact
          { idx := by
              dsimp only
              rw [hself]
              exact hs.idx
            made := hs.made
            waits := fun hcode => by
              dsimp only at hcode
              cases hself ▸ hcode
            done := fun _ => ⟨by dsimp only; rw [hself], .inr rfl⟩
            unclaimed := fun term hc => absurd (clientIdx_eq_some.mpr ⟨term, hc⟩) hfree }
      standing := by
        intro r q hq hopen hlisted
        obtain ⟨rfl, rfl, hphase, -, hled⟩ := hv.owner_pending hexec hfind hsafe hq hopen hlisted
        refine .ready hphase ?_ hin ?_
        · dsimp only
          rw [hself]
        · dsimp only
          rwa [hself]
      client := fun h => absurd h hfree }

theorem completes_gone (hfind : v.findElem k = some el) (hsafe : v.SafeComplete)
    (hcallback : (v.elems el).callbackInvoked = true) :
    Completes v { v.withCore { v.core with exec := .notifying true k [] } with
        elems := update v.elems el { v.elems el with code := .ok, value := value }
        table := v.eraseElem k } true k := by
  have hin := findElem_eq_some hfind
  obtain ⟨-, hfree, -⟩ := hv.found hexec hin
  have hgone : ∀ e', (k, e') ∉ v.eraseElem k := fun _ h => (mem_eraseElem.mp h).2 rfl
  exact
    { core := rfl
      led := rfl
      requests := rfl
      nextRequest := rfl
      nextElem := le_rfl
      idx := by
        intro e' _
        dsimp only
        by_cases he : e' = el
        · rw [he, update_self]
        · rw [update_of_ne he]
      elems := by
        intro e' _ hunlisted
        have hne : e' ≠ el := fun he => hunlisted (he ▸ hin)
        exact update_of_ne hne _ _
      table := fun _ _ hj => mem_eraseElem.trans (and_iff_left hj)
      keys := fun e' _ he' => absurd he' (hgone e')
      new := fun e' _ he' => absurd he' (hgone e')
      sound := fun e' he' => absurd he' (hgone e')
      standing := by
        intro r q hq hopen hlisted
        have hcb := (hv.owner_pending hexec hfind hsafe hq hopen hlisted).2.2.2.1
        cases hcallback.symm.trans hcb
      client := fun h => absurd h hfree }

theorem completes_new (hnone : ∀ e', (k, e') ∉ v.table) :
    Completes v ((v.withCore { v.core with exec := .notifying true k [] }).insertElem
        { idx := k, code := .ok, value := value, invoked := true }) true k := by
  have hc := (completing_of_returned hv.threads hexec).1
  have hother : ∀ e' < v.nextElem, ((v.withCore { v.core with exec := .notifying true k [] }).insertElem
      { idx := k, code := .ok, value := value, invoked := true }).elems e' = v.elems e' :=
    fun e' he' => update_of_ne (Nat.ne_of_lt he') _ _
  have hnew : ((v.withCore { v.core with exec := .notifying true k [] }).insertElem
      { idx := k, code := .ok, value := value, invoked := true }).elems v.nextElem =
        { idx := k, code := .ok, value := value, invoked := true } := update_self _ _ _
  have hlisted : ∀ e', (k, e') ∈ ((k, v.nextElem) :: v.table) → e' = v.nextElem := by
    intro e' he'
    rcases mem_cons.mp he' with heq | hold
    · cases heq
      rfl
    · exact absurd hold (hnone e')
  exact
    { core := rfl
      led := rfl
      requests := rfl
      nextRequest := rfl
      nextElem := Nat.le_succ _
      idx := fun e' he' => by rw [hother e' he']
      elems := fun e' he' _ => hother e' he'
      table := by
        intro j e' hj
        refine mem_cons.trans (or_iff_right fun heq => hj ?_)
        cases heq
        rfl
      keys := fun e' e'' he' he'' => (hlisted e' he').trans (hlisted e'' he'').symm
      new := fun e' hlt he' => absurd (hlisted e' he') (Nat.ne_of_lt hlt)
      sound := by
        intro e' he'
        rw [hlisted e' he']
        exact
          { idx := by rw [hnew]
            made := Nat.lt_succ_self _
            waits := fun hcode => by
              cases hnew ▸ hcode
            done := fun _ => ⟨by rw [hnew], .inr rfl⟩
            unclaimed := by
              intro term hclient
              have hidx : v.core.clientIdx = some k := clientIdx_eq_some.mpr ⟨term, hclient⟩
              have hentry := (hv.threads.client k term hclient).2.2 hc.not_done
              rcases hv.returned _ k e pc value hexec with hled | ⟨-, hfree⟩
              · rw [hnew]
                rw [(hc.next.term_eq hentry).1] at hled
                exact ⟨hled, fun r q hq hopen => Nat.ne_of_lt (hv.shape.owns r q hq hopen).1⟩
              · exact absurd hidx hfree }
      standing := fun _ q _ _ h => absurd h (hnone q.elem)
      client := fun _ => ⟨v.nextElem, mem_cons_self⟩ }

theorem complete_inv (hsafe : v.SafeComplete) : (v.complete k pc value).Inv := by
  obtain ⟨hc, hpc⟩ := completing_of_returned hv.threads hexec
  unfold complete
  cases hfind : v.findElem k with
  | some el =>
    dsimp only
    split
    · next hcallback => exact (completes_gone hv hexec hfind hsafe hcallback).inv hc hv
    · exact (completes_found hv hexec hfind hsafe).inv hc hv
  | none =>
    have hnone := findElem_eq_none.mp hfind
    dsimp only
    split
    · exact (completes_new hv hexec hnone).inv hc hv
    · next hk =>
      exact (completes_unseen hv true hnone (fun hidx => hk (hpc hidx).symm)).inv hc hv

end

end Complete

/-! ## Runs -/

theorem stepExec_inv (hv : v.Inv) {a : ClientCompletion.Action}
    (ha : a = .enterExec ∨ a = .pick ∨ a = .notify ∨ a = .exit) (h : v.core.stepExec a = some c) :
    (v.withCore c).Inv := by
  unfold ClientCompletion.stepExec at h
  split at h
  case h_1 hexec =>
    cases h
    exact hv.withPhase (hexec ▸ rfl) (hexec ▸ rfl) trivial
      (fun _ _ _ _ _ h => by cases h)
  case h_2 b hexec =>
    split at h
    · next hwork =>
      obtain ⟨e, he, rfl⟩ := map_eq_some_iff.mp h
      have hquick : v.core.srv.smCommitIndex < v.core.srv.quickCommitIndex := by
        simp only [RaftServer.hasWork, Bool.and_eq_true, decide_eq_true_eq] at hwork
        exact hwork.1
      exact hv.withPhase (hexec ▸ rfl) (hexec ▸ rfl) ⟨rfl, hquick, he⟩
        (fun _ _ _ _ _ h => by cases h)
    · cases h
  case h_3 | h_4 => simp at ha
  case h_5 b k r rs hexec =>
    cases h
    have hphase := hv.threads.phase
    rw [hexec] at hphase
    refine Unnoticed.inv ?_ hv
    have hthreads := hv.threads.withPhase (p := .notifying b k rs) (hexec ▸ rfl)
      (hexec ▸ rfl) ⟨hphase.1, fun r' hr' => hphase.2 r' (.tail _ hr')⟩
    refine ⟨{ hthreads with },
      ?_, fun _ _ _ _ => id, fun _ => id, rfl, rfl, fun _ _ _ _ _ h => by cases h⟩
    intro j
    unfold ClientCompletion.Done
    rw [hexec]
    rfl
  case h_6 b k hexec =>
    cases h
    exact advance_inv hv hexec
  case h_7 b hexec =>
    cases h
    exact hv.withPhase (hexec ▸ rfl) (hexec ▸ rfl) trivial
      (fun _ _ _ _ _ h => by cases h)
  case h_8 => cases h

theorem store_step_inv (hv : v.Inv) {bufs : List Bytes} (hsafe : v.SafeStore bufs)
    (h : v.core.step (.store bufs) = some c) : (v.withCore c).Inv := by
  simp only [ClientCompletion.step] at h
  split at h
  · cases h
  · next hfree =>
    rw [not_or, not_or, not_isSome_iff_eq_none] at hfree
    split at h
    · cases h
      exact hv
    · next hrole =>
      cases h
      have hlead : v.core.srv.role = .leader := by
        by_contra hne
        exact hrole (.inl hne)
      exact store_inv hv hfree.1 hlead hfree.2.2 hsafe

theorem apply_step_inv (hv : v.Inv) (hsafe : v.SafeApply)
    (h : v.core.step (.apply value) = some c) :
    Inv { v.withCore c with led := v.led ++ v.ledCall value } := by
  simp only [ClientCompletion.step, ClientCompletion.stepExec] at h
  split at h
  case h_3 x b k e ha hexec =>
    cases ha
    split at h
    · next hconf =>
      cases h
      have hcall : v.ledCall value = [] := by
        rw [ledCall, hexec]
        simp [hconf]
      rw [hcall, append_nil]
      exact applyConf_inv hv hexec hconf
    · next hconf =>
      split at h
      · cases h
      · cases h
        exact apply_inv hv hexec (by simpa using hconf) hsafe value
  case h_8 => cases h
  all_goals contradiction

theorem complete_step_inv (hv : v.Inv) (hsafe : v.SafeComplete) (h : v.step .complete = some w) :
    w.Inv := by
  simp only [step] at h
  split at h
  · next k e pc value hexec =>
    cases h
    exact complete_inv hv hexec hsafe
  · next k e pc value hexec =>
    cases h
    rcases (hsafe (false, k, pc) (hexec ▸ rfl)).2 rfl with ⟨hnone, hfree⟩
    exact (completes_unseen hv false (findElem_eq_none.mp hnone) hfree).inv
      (completing_of_returned hv.threads hexec).1 hv
  · cases h

theorem request_step_inv (hv : v.Inv) (hsafe : v.Safe a)
    (hq : v.requests r = some q) (ha : ∀ s, a = .collect s → s = r)
    (h : v.stepRequest r q a = some w) : w.Inv := by
  unfold stepRequest at h
  split at h
  · next hphase =>
    split at h
    · cases h
    · cases h
      exact timeout_inv hv hq hphase
  · next hphase =>
    split at h
    · next hinvoked =>
      cases h
      exact wake_inv hv hq hphase hinvoked
    · cases h
  · next s hphase =>
    cases h
    cases ha s rfl
    exact collect_inv hv hq hphase hsafe
  · next value hphase =>
    cases h
    exact answer_inv hv hq hphase
  · cases h

theorem step_inv (hv : v.Inv) (hsafe : v.Safe a) (h : v.step a = some w) : w.Inv := by
  cases a with
  | store bufs =>
    obtain ⟨c, hc, rfl⟩ := map_eq_some_iff.mp h
    exact store_step_inv hv hsafe hc
  | register =>
    obtain ⟨⟨k, term⟩, hc, rfl⟩ := map_eq_some_iff.mp h
    exact register_inv hv hc
  | enterExec =>
    obtain ⟨c, hc, rfl⟩ := map_eq_some_iff.mp h
    exact stepExec_inv hv (.inl rfl) hc
  | pick =>
    obtain ⟨c, hc, rfl⟩ := map_eq_some_iff.mp h
    exact stepExec_inv hv (.inr (.inl rfl)) hc
  | apply value =>
    obtain ⟨c, hc, rfl⟩ := map_eq_some_iff.mp h
    exact apply_step_inv hv hsafe hc
  | complete => exact complete_step_inv hv hsafe h
  | notify =>
    obtain ⟨c, hc, rfl⟩ := map_eq_some_iff.mp h
    exact stepExec_inv hv (.inr (.inr (.inl rfl))) hc
  | exit =>
    obtain ⟨c, hc, rfl⟩ := map_eq_some_iff.mp h
    exact stepExec_inv hv (.inr (.inr (.inr rfl))) hc
  | timeout r | wake r | collect r | answer r =>
    obtain ⟨q, hq, hstep⟩ := bind_eq_some_iff.mp h
    exact request_step_inv hv hsafe hq (by rintro s ⟨⟩ <;> rfl) hstep
  | loseRole term =>
    obtain ⟨c, hc, rfl⟩ := map_eq_some_iff.mp h
    simp only [ClientCompletion.step] at hc
    split at hc
    · cases hc
    · next hfree =>
      rw [not_or, not_isSome_iff_eq_none] at hfree
      cases hc
      exact loseRole_inv hv hfree.1 term
  | drain =>
    simp only [step] at h
    split at h
    · cases h
    · next hfree =>
      cases h
      exact drain_inv hv (not_isSome_iff_eq_none.mp hfree) hsafe
  | becomeLeader =>
    obtain ⟨c, hc, rfl⟩ := map_eq_some_iff.mp h
    simp only [ClientCompletion.step] at hc
    split at hc
    · cases hc
    · next hfree =>
      rw [not_or, not_isSome_iff_eq_none] at hfree
      cases hc
      exact becomeLeader_inv hv hfree.1
  | other t =>
    obtain ⟨c, hc, rfl⟩ := map_eq_some_iff.mp h
    simp only [ClientCompletion.step] at hc
    split at hc
    · next ht =>
      cases hc
      exact other_inv hv ht
    · cases hc

/-- Only a step-down and its own thread take the element of a request out of the table. -/
def KeepsOthers (v : BlockingClients) (a : Action) : Prop :=
  ∀ w, v.step a = some w → ∀ r q, v.requests r = some q → q.phase.unreturned = true →
    a ≠ .drain → a ≠ .collect r → (q.idx, q.elem) ∈ v.table → (q.idx, q.elem) ∈ w.table

theorem complete_keeps (hv : v.Inv) {k pc : Nat}
    (hexec : v.core.exec = .returned true k e pc value) (hsafe : v.SafeComplete)
    (hq : v.requests r = some q) (hopen : q.phase.unreturned = true)
    (hlisted : (q.idx, q.elem) ∈ v.table) : (q.idx, q.elem) ∈ (v.complete k pc value).table := by
  unfold complete
  cases hfind : v.findElem k with
  | some el =>
    dsimp only
    split
    · next hcallback =>
      refine mem_eraseElem.mpr ⟨hlisted, fun hk => ?_⟩
      have hcb := (hv.owner_pending hexec hfind hsafe hq hopen (hk ▸ hlisted)).2.2.2.1
      cases hcallback.symm.trans hcb
    · exact hlisted
  | none =>
    dsimp only
    split
    · exact .tail _ hlisted
    · exact hlisted

theorem register_table (k term : Nat) : v.table ⊆ (v.register k term).table := by
  unfold register
  cases v.findElem k with
  | some e => exact Subset.refl _
  | none => exact subset_cons_self _ _

theorem step_keepsOthers (hv : v.Inv) (hsafe : v.Safe a) : v.KeepsOthers a := by
  intro w h r q hq hopen hdrain hcollect hlisted
  cases a with
  | store | enterExec | pick | apply | notify | exit | loseRole | becomeLeader | other =>
    obtain ⟨c, -, rfl⟩ := map_eq_some_iff.mp h
    exact hlisted
  | register =>
    obtain ⟨⟨k, term⟩, -, rfl⟩ := map_eq_some_iff.mp h
    exact register_table k term hlisted
  | complete =>
    simp only [step] at h
    split at h
    · next k e pc value hexec =>
      cases h
      exact complete_keeps hv hexec hsafe hq hopen hlisted
    · cases h
      exact hlisted
    · cases h
  | drain => exact absurd rfl hdrain
  | timeout s | wake s | answer s =>
    obtain ⟨p, -, hstep⟩ := bind_eq_some_iff.mp h
    unfold stepRequest at hstep
    split at hstep
    all_goals first
      | contradiction
      | cases hstep; exact hlisted
      | split at hstep <;> first | contradiction | cases hstep; exact hlisted
  | collect s =>
    obtain ⟨p, hp, hstep⟩ := bind_eq_some_iff.mp h
    unfold stepRequest at hstep
    split at hstep
    case h_3 ha hphase =>
      cases hstep
      exact collect_keeps hv hp hphase hq (fun hrs => hcollect (by rw [hrs])) hopen hlisted
    all_goals contradiction

def Action.thread : Action → Option Nat
  | .timeout r | .wake r | .collect r | .answer r => some r
  | _ => none

/-- The thread of a request returns by steps of its own. -/
def Returns (v : BlockingClients) (r : Nat) : Prop :=
  ∃ as w code value, (∀ a ∈ as, Action.thread a = some r) ∧ Runs.run step v as = some w ∧
    (w.requests r).map BlockingRequest.phase = some (.returned code value)

theorem Returns.cons (ha : a.thread = some r) (h : v.step a = some w)
    (hw : w.Returns r) : v.Returns r := by
  obtain ⟨as, u, code, value, hall, hrun, hphase⟩ := hw
  refine ⟨a :: as, u, code, value, ?_, ?_, hphase⟩
  · exact forall_mem_cons.mpr ⟨ha, hall⟩
  · exact Runs.run_cons_eq_some.mpr ⟨w, h, hrun⟩

theorem setRequest_self (r : Nat) (q : BlockingRequest) :
    (v.setRequest r q).requests r = some q := update_self _ _ _

/-- A thread that is past the wait needs nobody else. -/
theorem returns_of_collected (hq : v.requests r = some q)
    (hphase : q.phase = .collected value) : v.Returns r := by
  have hstep : v.step (.answer r) =
      some (v.setRequest r { q with phase := .returned (v.elems q.elem).code value }) := by
    simp only [step, hq, bind_some, stepRequest, hphase]
  refine Returns.cons rfl hstep ⟨[], _, (v.elems q.elem).code, value, ?_, rfl, ?_⟩
  · exact fun _ h => nomatch h
  · rw [setRequest_self]
    rfl

theorem returns_of_awake (hq : v.requests r = some q)
    (hphase : q.phase = .awake) : v.Returns r := by
  have hstep : v.step (.collect r) = some (v.collect r q) := by
    simp only [step, hq, bind_some, stepRequest, hphase]
  have hself : (v.collect r q).requests r =
      some { q with phase := .collected (v.elems q.elem).value } := setRequest_self r _
  exact Returns.cons rfl hstep (returns_of_collected hself rfl)

theorem returns_of_unreturned (hq : v.requests r = some q)
    (hopen : q.phase.unreturned = true) : v.Returns r := by
  cases hphase : q.phase with
  | waiting =>
    by_cases hinvoked : (v.elems q.elem).invoked = true
    · have hstep : v.step (.wake r) = some (v.setRequest r { q with phase := .awake }) := by
        simp only [step, hq, bind_some, stepRequest, hphase, hinvoked, if_true]
      exact Returns.cons rfl hstep (returns_of_awake (setRequest_self r _) rfl)
    · have hstep : v.step (.timeout r) = some (v.setRequest r
          { q with phase := .awake, late := q.late.or (some (v.wasApplied q)) }) := by
        simp only [step, hq, bind_some, stepRequest, hphase, hinvoked]
        rfl
      exact Returns.cons rfl hstep (returns_of_awake (setRequest_self r _) rfl)
  | awake => exact returns_of_awake hq hphase
  | collected value => exact returns_of_collected hq hphase
  | returned code value =>
    cases hphase ▸ hopen

/-- Where the threads keep out of each other's way, a request returns `OK` only with the value that
the state machine returned to this server, as a leader, for its entry. A request that returns
anything else was not applied when its wait ran out or the server stepped down, whichever came
first. Every request can return, and takes no element of another one out of the table. -/
theorem blocking_sound {s : RaftServer} {as : List Action} {v : BlockingClients}
    (hrole : s.role ≠ .leader) (hlog : s.smCommitIndex < s.log.nextSlot)
    (hsafe : Runs.AllSteps step Safe (start s) as) (hrun : Runs.run step (start s) as = some v) :
    (∀ r q value, v.requests r = some q → q.phase = .returned .ok value →
      (q.idx, q.term, value) ∈ v.led) ∧
    (∀ r q code value, v.requests r = some q → q.phase = .returned code value → code ≠ .ok →
      q.late = some false) ∧
    (∀ r q, v.requests r = some q → q.phase.unreturned = true → v.Returns r) ∧
    Runs.AllSteps step KeepsOthers (start s) as := by
  have hv : v.Inv :=
    Runs.invariant_of_allSteps (P := Safe) (I := Inv)
      (fun _ _ _ hi hs h => step_inv hi hs h) (start_inv hrole hlog) hsafe hrun
  refine ⟨?_, ?_, fun r q hq hopen => returns_of_unreturned hq hopen, ?_⟩
  · intro r q value hq hphase
    cases hv.standing r q hq with
    | answered phase ok =>
      cases hphase.symm.trans phase
      exact ok rfl
    | pending phase | ready phase | dropped phase =>
      cases hphase ▸ phase
    | gaveUp phase | taken phase | lost phase => cases hphase.symm.trans phase
  · intro r q code value hq hphase hcode
    cases hv.standing r q hq with
    | answered phase ok late =>
      cases hphase.symm.trans phase
      exact late hcode
    | pending phase | ready phase | dropped phase =>
      cases hphase ▸ phase
    | gaveUp phase | taken phase | lost phase => cases hphase.symm.trans phase
  · have hinv : Runs.AllSteps step (fun t _ => t.Inv) (start s) as :=
      Runs.allSteps_of_invariant (P := Safe) (fun _ _ _ hi hs h => step_inv hi hs h)
        (start_inv hrole hlog) hsafe
    exact (hinv.and hsafe).imp (fun _ _ h => step_keepsOthers h.1 h.2)

end BlockingClients

/-! ## Runs in which the threads collide -/

open BlockingClients (start step)

/-- A cluster of two, not elected yet. -/
def pairServer : RaftServer := { id := 1, config := { servers := [{ id := 1 }, { id := 2 }] } }

def serverAfter (s : RaftServer) (as : List BlockingClients.Action) : RaftServer :=
  ((Runs.run step (start s) as).map (fun v => v.core.srv)).getD s

/-- The entries up to an index are committed after a run. -/
def thenCommit (s : RaftServer) (as : List BlockingClients.Action) (idx : Nat) :
    List BlockingClients.Action :=
  as ++ [.other { serverAfter s as with quickCommitIndex := idx }]

/-- What a request returned, what was noted of it, and the calls of a leader. -/
structure Outcome where
  phase : RequestPhase
  late : Option Bool
  led : List (Nat × Nat × Option Bytes)
  deriving DecidableEq

def outcome (s : RaftServer) (as : List BlockingClients.Action) (r : Nat) : Option Outcome :=
  (Runs.run step (start s) as).bind fun v => (v.requests r).map fun q => ⟨q.phase, q.late, v.led⟩

/-- The commit thread goes over configuration entries and applies the one after them. -/
def applyAfter (confs : Nat) : List BlockingClients.Action :=
  (List.replicate confs [BlockingClients.Action.pick, .apply none, .notify]).flatten ++
    [.pick, .apply (some [9])]

def oneRequest : List BlockingClients.Action := [.becomeLeader, .store [[7]], .register]

def oneCommitted : List BlockingClients.Action := thenCommit soleServer oneRequest 2

/-- The request gives up, and is completed before it reads its result again. -/
def completedWhileLeaving : List BlockingClients.Action :=
  List.flatten [oneCommitted, [.timeout 0, .collect 0, .enterExec], applyAfter 1,
    [.complete, .answer 0]]

/-- A server that has cancelled a request, and then lost the entries of its time as a leader. -/
def rolledBack : List BlockingClients.Action :=
  let cancelled : List BlockingClients.Action :=
    [.becomeLeader, .store [[7], [8]], .register, .loseRole 1, .drain]
  cancelled ++ [.other { serverAfter pairServer cancelled with
    log := pairServer.takeLeadership.log }]

/-- The thread of the cancelled request is on its way to the table until the server leads again and
has another request at the same index. -/
def indexReused : List BlockingClients.Action :=
  let reused : List BlockingClients.Action := List.flatten
    [rolledBack, [.becomeLeader, .store [[5]], .register, .wake 0, .collect 0]]
  List.flatten [thenCommit pairServer reused 3, [.enterExec], applyAfter 2,
    [.complete, .timeout 1, .collect 1, .answer 1]]

/-- The commit thread has begun its run before the election. -/
def electedInRun : List BlockingClients.Action :=
  List.flatten [thenCommit soleServer (.enterExec :: oneRequest) 2, applyAfter 1,
    [.complete, .timeout 0, .collect 0, .answer 0]]

/-- The server steps down before a completed request has taken its value. -/
def droppedAfterCompletion : List BlockingClients.Action :=
  List.flatten [oneCommitted, [.enterExec], applyAfter 1,
    [.complete, .drain, .wake 0, .collect 0, .answer 0]]

/-- The request gives up after the state machine has returned. -/
def gaveUpBeforeCompletion : List BlockingClients.Action :=
  List.flatten [oneCommitted, [.enterExec], applyAfter 1, [.timeout 0, .collect 0, .answer 0]]

/-- The entry is applied after the role and before the table is gone. -/
def appliedWhileSteppingDown : List BlockingClients.Action :=
  List.flatten [oneCommitted, [.enterExec, .loseRole 1], applyAfter 1,
    [.complete, .wake 0, .collect 0, .answer 0]]

/-- In the first run the value is lost. In the second one the end of a request removes the element
of another one, whose entry is applied in time and which returns `TIMEOUT`. In the next three an
entry is applied in time as well, and in the last one it is applied by a server that does not lead. -/
theorem threads_collide : outcome soleServer completedWhileLeaving 0 =
      some ⟨.returned .ok none, some false, [(2, 0, some [9])]⟩ ∧
    outcome pairServer indexReused 1 =
      some ⟨.returned .timeout none, some true, [(3, 1, some [9])]⟩ ∧
    outcome soleServer electedInRun 0 =
      some ⟨.returned .timeout none, some true, [(2, 0, some [9])]⟩ ∧
    outcome soleServer droppedAfterCompletion 0 =
      some ⟨.returned .cancelled none, some true, [(2, 0, some [9])]⟩ ∧
    outcome soleServer gaveUpBeforeCompletion 0 =
      some ⟨.returned .timeout none, some true, [(2, 0, some [9])]⟩ ∧
    outcome soleServer appliedWhileSteppingDown 0 =
      some ⟨.returned .ok (some [9]), some false, []⟩ := by
  refine ⟨?_, ?_, ?_, ?_, ?_, ?_⟩ <;> decide +kernel

/-- Two requests, of which the first one is applied and the second one is cancelled. -/
def appliedAndCancelled : List BlockingClients.Action :=
  List.flatten [thenCommit soleServer (oneRequest ++ [.store [[8]], .register]) 2, [.enterExec],
    applyAfter 1, [.complete, .notify, .wake 0, .collect 0, .answer 0],
    [.loseRole 1, .drain, .wake 1, .collect 1, .answer 1]]

theorem appliedAndCancelled_returned :
    ∃ v q, Runs.run step (start soleServer) appliedAndCancelled = some v ∧
      v.requests 0 = some q ∧ q.phase = .returned .ok (some [9]) ∧
      (q.idx, q.term, some [9]) ∈ v.led := by
  have hobserved : (Runs.run step (start soleServer) appliedAndCancelled).bind (fun v =>
      (v.requests 0).map BlockingRequest.phase) = some (.returned .ok (some [9])) := by
    decide +kernel
  obtain ⟨v, hrun, hphase⟩ := Option.bind_eq_some_iff.mp hobserved
  obtain ⟨q, hq, hreturned⟩ := Option.map_eq_some_iff.mp hphase
  have hsafe : Runs.AllSteps step BlockingClients.Safe (start soleServer) appliedAndCancelled := by
    decide +kernel
  have hsound := BlockingClients.blocking_sound (by decide) (by decide) hsafe hrun
  exact ⟨v, q, hrun, hq, hreturned, hsound.1 0 q _ hq hreturned⟩

end Raft
end Xio
