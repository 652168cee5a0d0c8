import Xio.Lib.Conservation
import Xio.Lib.Runs
import Xio.Raft.ClientThreads

/-!
# Raft.ClientCompletion — completing client requests

Every result that `handle_cli_req` hands out is in one place at a time: in the table, in the hands
of the commit thread or of a step-down, or set. The invariant says where, and what is known of its
entry there.

- `ClientCompletion.step_inv`: one step of any thread
- `ClientCompletion.completions_sound`: every run
-/

namespace Xio
namespace Raft

open Conservation List Option

namespace ClientCompletion

variable (v : ClientCompletion)

/-- The commit thread, back from the state machine, misses no element of a request, and creates one
only for a client that waits for it while the peers are tracked. -/
def SafeComplete : Prop :=
  ∀ r ∈ v.exec.returning, (r.1 = true → v.findElem r.2.1 = none → r.2.1 = r.2.2 →
      v.trackPeersSmCommitIdx = true ∧ v.clientIdx = some r.2.1) ∧
    (r.1 = false → v.findElem r.2.1 = none ∧ v.clientIdx ≠ some r.2.1)

/-- A step-down does not come between the state machine's answer and the completion. -/
def SafeDrain : Prop :=
  ∀ r ∈ v.exec.returning, v.trackPeersSmCommitIdx = true ∨ v.findElem r.2.1 = none

/-- A scan stays within what is applied and passes over no element whose client is not done. -/
def SafeScan (upto : Nat) : Prop :=
  upto ≤ v.srv.smCommitIndex ∧ ∀ x ∈ v.commitRetElems, x.idx ≤ upto → x.asyncResult.isSome

def Safe : Action → Prop
  | .complete => v.SafeComplete
  | .drain => v.SafeDrain
  | .scan upto => v.trackPeersSmCommitIdx = true → v.SafeScan upto
  | _ => True

instance : Decidable v.SafeComplete :=
  inferInstanceAs (Decidable (∀ r ∈ v.exec.returning, _ ∧ _))

instance : Decidable v.SafeDrain :=
  inferInstanceAs (Decidable (∀ r ∈ v.exec.returning, _ ∨ _))

instance (upto : Nat) : Decidable (v.SafeScan upto) := inferInstanceAs (Decidable (_ ∧ _))

instance (v : ClientCompletion) (a : Action) : Decidable (v.Safe a) := by
  cases a <;> (dsimp only [Safe]; infer_instance)

/-! ## Invariant -/

/-- The results of the elements of a table. -/
def resultIds (xs : List CommitRetElem) : List Nat :=
  xs.filterMap (fun x => x.asyncResult.map CmdResult.id)

/-- Where the results handed out so far are. -/
def places : List Nat :=
  v.sets.map (fun d => d.1.id) ++ (resultIds v.commitRetElems ++
      (v.exec.held.map CmdResult.id ++ v.draining.map (fun d => d.1.id)))

/-- A result is set to a value that the state machine returned for its entry, or cancelled before
that was due. -/
def Sound (d : CmdResult × Completion) : Prop :=
  match d.2 with
  | .ok value => (d.1.idx, d.1.term, value) ∈ v.applied
  | .cancelled wasApplied wasNotified =>
    (wasApplied = true → v.trackPeersSmCommitIdx = true) ∧ wasNotified = false

/-- An element of the table. Before the completion of its index it waits for an entry that is in
the log; after it the peers are tracked and the value is there. An element without a result is one
that the commit thread made for a client that is about to take it. -/
structure ElemSound (x : CommitRetElem) : Prop where
  fresh : v.notifiedIdx < x.idx
  tracked : v.Done x.idx → v.trackPeersSmCommitIdx = true
  result : ∀ r, x.asyncResult = some r → r.idx = x.idx ∧
    (¬ v.Done x.idx → v.HasEntry x.idx r.term) ∧
    (v.Done x.idx → (x.idx, r.term, x.retValue) ∈ v.applied)
  unclaimed : x.asyncResult = none → v.Done x.idx ∧
    ∃ term, v.client = some (x.idx, term) ∧ (x.idx, term, x.retValue) ∈ v.applied

/-- A client thread between its pre-commit and its registration. -/
structure ClientSound (k term : Nat) : Prop where
  leads : v.srv.role = .leader
  index : v.srv.precommitIndex = k
  entry : ¬ v.Done k → v.HasEntry k term
  unregistered : ∀ x ∈ v.commitRetElems, x.idx = k → x.asyncResult = none
  early : v.Done k → ∃ x ∈ v.commitRetElems, x.idx = k

structure Inv : Prop where
  conserved : Conserved v.places v.nextResult
  nodup : (v.commitRetElems.map CommitRetElem.idx).Nodup
  elems : ∀ x ∈ v.commitRetElems, v.ElemSound x
  client : ∀ k term, v.client = some (k, term) → v.ClientSound k term
  phase : v.PhaseSound v.exec
  applied : ∀ a ∈ v.applied, v.Done a.1 ∨ ∃ b pc, v.exec.returning = some (b, a.1, pc)
  sets : ∀ d ∈ v.sets ++ v.draining, v.Sound d
  notified : v.notifiedIdx ≤ v.srv.smCommitIndex
  inLog : v.srv.smCommitIndex < v.srv.log.nextSlot
  follower : v.srv.role ≠ .leader → v.steppingDown = false → v.commitRetElems = []
  leader : v.srv.role = .leader → v.srv.precommitIndex < v.srv.log.nextSlot

variable {v} {w : ClientCompletion}

theorem start_inv {s : RaftServer} (track : Bool) (hrole : s.role ≠ .leader)
    (hlog : s.smCommitIndex < s.log.nextSlot) :
    Inv { srv := s, trackPeersSmCommitIdx := track } where
  conserved := conserved_nil
  nodup := nodup_nil
  elems _ hx := nomatch hx
  client _ _ h := nomatch h
  phase := trivial
  applied _ ha := nomatch ha
  sets _ hd := nomatch hd
  notified := Nat.zero_le _
  inLog := hlog
  follower _ _ := rfl
  leader h := absurd h hrole

theorem Inv.threads (hv : v.Inv) : v.Threads :=
  { hv with
    client k term hc := ⟨(hv.client k term hc).leads, (hv.client k term hc).index,
      (hv.client k term hc).entry⟩ }

theorem Inv.waiting (hv : v.Inv) {x : CommitRetElem} (hx : x ∈ v.commitRetElems)
    (hnot : ¬ v.Done x.idx) :
    ∃ r, x.asyncResult = some r ∧ r.idx = x.idx ∧ v.HasEntry x.idx r.term := by
  have hs := hv.elems x hx
  cases hr : x.asyncResult with
  | none => exact absurd (hs.unclaimed hr).1 hnot
  | some r =>
    obtain ⟨hidx, hwaits, -⟩ := hs.result r hr
    exact ⟨r, rfl, hidx, hwaits hnot⟩

theorem Inv.elem_lt (hv : v.Inv) {x : CommitRetElem} (hx : x ∈ v.commitRetElems) :
    x.idx < v.srv.log.nextSlot := by
  by_cases hdone : v.Done x.idx
  · exact hv.threads.lt_of_done hdone
  · obtain ⟨r, -, -, e, he, -⟩ := hv.waiting hx hdone
    exact LogStore.entryAt_lt_nextSlot he

theorem Inv.leads_of_mem (hv : v.Inv) {x : CommitRetElem} (hx : x ∈ v.commitRetElems) :
    v.Guarded := by
  by_contra h
  rw [Guarded, not_or] at h
  have hnil := hv.follower h.1 (by simpa using h.2)
  cases hnil ▸ hx

theorem ElemSound.mono {x : CommitRetElem} (h : v.ElemSound x) (hfresh : w.notifiedIdx < x.idx)
    (hdone : w.Done x.idx ↔ v.Done x.idx)
    (htrack : w.trackPeersSmCommitIdx = v.trackPeersSmCommitIdx)
    (hentry : ∀ term, ¬ v.Done x.idx → v.HasEntry x.idx term → w.HasEntry x.idx term)
    (happlied : v.applied ⊆ w.applied) (hclient : x.asyncResult = none → w.client = v.client) :
    w.ElemSound x where
  fresh := hfresh
  tracked hd := htrack.trans (h.tracked (hdone.mp hd))
  result r hr := by
    obtain ⟨hidx, hwaits, hready⟩ := h.result r hr
    refine ⟨hidx, fun hnot => ?_, fun hd => happlied (hready (hdone.mp hd))⟩
    have hnot' : ¬ v.Done x.idx := fun hd => hnot (hdone.mpr hd)
    exact hentry r.term hnot' (hwaits hnot')
  unclaimed hr := by
    obtain ⟨hd, term, hterm, hval⟩ := h.unclaimed hr
    exact ⟨hdone.mpr hd, term, (hclient hr).trans hterm, happlied hval⟩

/-! ## The server -/

theorem Inv.withServer (hv : v.Inv) {t : RaftServer} (hsm : t.smCommitIndex = v.srv.smCommitIndex)
    (hfollower : t.role ≠ .leader → v.steppingDown = false → v.commitRetElems = [])
    (hkeep : v.Keeps t) (ht : Threads { v with srv := t }) : Inv { v with srv := t } :=
  { ht with
    conserved := hv.conserved
    nodup := hv.nodup
    elems x hx := by
      have hs := hv.elems x hx
      exact hs.mono hs.fresh (done_withServer hsm x.idx) rfl
        (fun _ hnot h => h.withServer hkeep (hv.leads_of_mem hx) hnot) (Subset.refl _)
        (fun _ => rfl)
    client k term hc := by
      have hs := hv.client k term hc
      obtain ⟨hlead, hindex, hentry⟩ := ht.client k term hc
      exact ⟨hlead, hindex, hentry, hs.unregistered,
        fun h => hs.early ((done_withServer hsm k).mp h)⟩
    sets := hv.sets
    notified := hsm ▸ hv.notified
    follower := hfollower }

theorem other_inv (hv : v.Inv) {t : RaftServer} (ht : v.Undisturbed t) : Inv { v with srv := t } :=
  hv.withServer ht.2.1 (fun hne => hv.follower (ht.1 ▸ hne)) ht.keeps (hv.threads.other ht)

theorem becomeLeader_inv (hv : v.Inv) (hclient : v.client = none) (hstep : v.steppingDown = false)
    (hrole : v.srv.role ≠ .leader) : Inv { v with srv := v.srv.takeLeadership } :=
  hv.withServer rfl (fun _ _ => hv.follower hrole hstep) takeLeadership_keeps
    (hv.threads.becomeLeader hclient)

theorem Inv.steppingDown (hv : v.Inv) : Inv { v with steppingDown := true } :=
  { hv with
    elems x hx := by
      have hs := hv.elems x hx
      exact hs.mono hs.fresh Iff.rfl rfl (fun _ _ => id) (Subset.refl _) (fun _ => rfl)
    client k term hc := by
      have hs := hv.client k term hc
      exact { hs with }
    follower _ h := nomatch h }

theorem loseRole_inv (hv : v.Inv) (hclient : v.client = none) (term : Nat) : Inv { v with
      srv := { v.srv with role := .follower, state := { v.srv.state with term := term } }
      steppingDown := true } := by
  have hdown := hv.steppingDown
  exact hdown.withServer rfl nofun (fun _ _ he _ _ => he)
    (hdown.threads.notLeading hclient nofun rfl rfl rfl)

theorem findElem_eq_none {k : Nat} : v.findElem k = none ↔ ∀ x ∈ v.commitRetElems, x.idx ≠ k := by
  simp [findElem, find?_eq_none]

theorem findElem_eq_some {k : Nat} {x : CommitRetElem} (h : v.findElem k = some x) :
    x ∈ v.commitRetElems ∧ x.idx = k := by
  refine ⟨mem_of_find?_eq_some h, ?_⟩
  simpa using find?_some h

theorem map_id_filterMap (xs : List CommitRetElem) {f : CommitRetElem → CmdResult → Completion} :
    (xs.filterMap (fun x => x.asyncResult.map (fun r => (r, f x r)))).map (fun d => d.1.id) =
      resultIds xs := by
  rw [map_filterMap]
  congr 1
  funext x
  cases x.asyncResult <;> rfl

/-- What a step-down drops was either not applied, or the peers are tracked. -/
theorem dropped_sound (hv : v.Inv) (hsafe : v.SafeDrain) {x : CommitRetElem} {r : CmdResult}
    (hx : x ∈ v.commitRetElems) (hr : x.asyncResult = some r) : v.Sound (v.dropped r) := by
  have hs := hv.elems x hx
  have hidx := (hs.result r hr).1
  refine ⟨?_, ?_⟩
  · intro happlied
    simp only [List.any_eq_true, Bool.and_eq_true, beq_iff_eq] at happlied
    obtain ⟨a, ha, hai, -⟩ := happlied
    rw [hidx] at hai
    rcases hv.applied a ha with hdone | ⟨b, pc, hreturning⟩
    · exact hs.tracked (hai ▸ hdone)
    · rcases hsafe _ hreturning with htrack | hnone
      · exact htrack
      · exact absurd hai.symm (findElem_eq_none.mp hnone x hx)
  · have hfresh := hs.fresh
    simp only [decide_eq_false_iff_not]
    omega

theorem Inv.drop (hv : v.Inv) (hclient : v.client = none) (hdraining : v.draining = [])
    (hsafe : v.SafeDrain) :
    Inv { v with
      draining := v.commitRetElems.filterMap (fun x => x.asyncResult.map v.dropped)
      commitRetElems := [] } :=
  { hv with
    conserved := by
      apply hv.conserved.move
      unfold places dropped
      rw [map_id_filterMap, hdraining]
      simp only [resultIds, filterMap_nil, nil_append, map_nil, append_nil]
      exact Perm.append_left _ perm_append_comm
    nodup := nodup_nil
    elems _ hx := nomatch hx
    client _ _ hc := nomatch hclient.symm.trans hc
    sets d hd := by
      rcases mem_append.mp hd with hold | hnew
      · exact hv.sets d (mem_append_left _ hold)
      · obtain ⟨x, hx, hxd⟩ := mem_filterMap.mp hnew
        obtain ⟨r, hr, rfl⟩ := map_eq_some_iff.mp hxd
        exact dropped_sound hv hsafe hx hr
    follower _ _ := rfl }

theorem drain_inv (hv : v.Inv) (hclient : v.client = none) (hdraining : v.draining = [])
    (hsafe : v.SafeDrain) (h : v.drain = some w) : w.Inv := by
  unfold drain at h
  split at h
  · cases h
  · cases h
    have hdown := hv.steppingDown
    have hfollower : Inv { v with srv := v.srv.becomeFollower, steppingDown := true } := by
      refine hdown.withServer (by simp) nofun ?_ ?_
      · intro i e he _ _
        simpa using he
      · exact hdown.threads.notLeading hclient (by simp) (by simp) (by simp) (by simp)
    exact hfollower.drop hclient hdraining hsafe

theorem Inv.withResults (hv : v.Inv) {p : CommitPhase} {ds ss : List (CmdResult × Completion)}
    (hpast : p.past = v.exec.past) (hreturning : p.returning = v.exec.returning)
    (hplaces : (places { v with exec := p, draining := ds, sets := ss }).Perm v.places)
    (hsound : v.PhaseSound p) (hsets : ∀ d ∈ ss ++ ds, v.Sound d) :
    Inv { v with exec := p, draining := ds, sets := ss } := by
  have hdone : ∀ j, Done { v with exec := p, draining := ds, sets := ss } j ↔ v.Done j := by
    intro j
    unfold Done
    rw [← hpast]
  have hthreads := hv.threads.withPhase hpast hreturning hsound
  exact
    { hv with
      conserved := hv.conserved.move hplaces
      elems := by
        intro x hx
        have hs := hv.elems x hx
        exact hs.mono hs.fresh (hdone x.idx) rfl (fun _ _ => id) (Subset.refl _) (fun _ => rfl)
      client := by
        intro k term hc
        have hs := hv.client k term hc
        exact { hs with
          entry := (hthreads.client k term hc).2.2
          early := fun h => hs.early ((hdone k).mp h) }
      phase := hsound
      applied := hthreads.applied
      sets := hsets }

theorem cancel_inv (hv : v.Inv) {d : CmdResult × Completion} {ds : List (CmdResult × Completion)}
    (hd : v.draining = d :: ds) : Inv { v with draining := ds, sets := v.sets ++ [d] } := by
  refine hv.withResults rfl rfl ?_ hv.phase ?_
  · unfold places
    rw [hd, map_append, append_assoc]
    apply Perm.append_left
    simp only [map_cons, map_nil, singleton_append, ← append_assoc]
    exact perm_middle.symm
  · intro x hx
    have hall := hv.sets x
    rw [hd] at hall
    exact hall (by simpa using hx)

theorem drained_inv (hv : v.Inv) (hempty : v.commitRetElems = []) :
    Inv { v with steppingDown := false } :=
  { hv with
    elems x hx := by
      cases hempty ▸ hx
    client k term hc := by
      have hs := hv.client k term hc
      exact { hs with }
    follower _ _ := hempty }

/-! ## The scan -/

theorem scan_inv (hv : v.Inv) (upto : Nat)
    (hsafe : v.trackPeersSmCommitIdx = true → v.SafeScan upto) : (v.scan upto).Inv := by
  unfold scan
  split
  · next htrack =>
    obtain ⟨hupto, hclaimed⟩ := hsafe htrack
    exact
      { hv with
        conserved := by
          apply hv.conserved.move
          rw [places, map_append, append_assoc]
          apply Perm.append_left
          rw [← append_assoc]
          apply Perm.append_right
          -- the elements up to the index and those above it make up the table
          have hsplit := filter_append_perm (fun x : CommitRetElem => decide (x.idx ≤ upto))
            v.commitRetElems
          have habove : (fun x : CommitRetElem => decide (upto < x.idx)) =
              (fun x => !decide (x.idx ≤ upto)) := by
            funext x
            simp [← decide_not]
          rw [map_id_filterMap, habove]
          unfold resultIds
          rw [← filterMap_append]
          exact hsplit.filterMap _
        nodup := hv.nodup.sublist (filter_sublist.map _)
        elems := by
          intro x hx
          obtain ⟨hmem, hlt⟩ := mem_filter.mp hx
          have hs := hv.elems x hmem
          exact hs.mono (of_decide_eq_true hlt) Iff.rfl rfl (fun _ _ => id) (Subset.refl _)
            (fun _ => rfl)
        client := by
          intro k term hc
          have hs := hv.client k term hc
          refine ⟨hs.leads, hs.index, hs.entry, ?_, ?_⟩
          · intro x hx
            exact hs.unregistered x (mem_filter.mp hx).1
          · intro hdone
            obtain ⟨x, hx, hxk⟩ := hs.early hdone
            refine ⟨x, mem_filter.mpr ⟨hx, ?_⟩, hxk⟩
            rw [decide_eq_true_eq]
            by_contra hle
            have hclaim := hclaimed x hx (Nat.le_of_not_lt hle)
            rw [hs.unregistered x hx hxk] at hclaim
            cases hclaim
        sets := by
          intro d hd
          rcases mem_append.mp hd with hset | hdrain
          · rcases mem_append.mp hset with hold | hnew
            · exact hv.sets d (mem_append_left _ hold)
            · obtain ⟨x, hx, hxd⟩ := mem_filterMap.mp hnew
              obtain ⟨r, hr, rfl⟩ := map_eq_some_iff.mp hxd
              obtain ⟨hmem, hle⟩ := mem_filter.mp hx
              obtain ⟨hidx, -, hready⟩ := (hv.elems x hmem).result r hr
              have happlied := hready (.inl ((of_decide_eq_true hle).trans hupto))
              rwa [← hidx] at happlied
          · exact hv.sets d (mem_append_right _ hdrain)
        notified := hupto
        follower := by
          intro hrole hstep
          rw [hv.follower hrole hstep]
          rfl }
  · exact hv

/-! ## The client -/

theorem Inv.withClient (hv : v.Inv) (hclient : v.client = none) {k term : Nat}
    (hlead : v.srv.role = .leader) (hindex : v.srv.precommitIndex = k) (hentry : v.HasEntry k term)
    (hdone : ¬ v.Done k) (hnew : ∀ x ∈ v.commitRetElems, x.idx ≠ k)
    (hphase : ∀ r ∈ v.exec.returning, r.2.1 ≠ k) : Inv { v with client := some (k, term) } :=
  { hv with
    elems x hx := by
      have hs := hv.elems x hx
      refine hs.mono hs.fresh Iff.rfl rfl (fun _ _ => id) (Subset.refl _) ?_
      intro hr
      obtain ⟨-, t, hc, -⟩ := hs.unclaimed hr
      cases hclient.symm.trans hc
    client k' term' hc := by
      cases hc
      exact ⟨hlead, hindex, fun _ => hentry, fun x hx hxk => absurd hxk (hnew x hx),
        fun hd => absurd hd hdone⟩
    phase := (hv.threads.withClient hlead hindex hentry hphase).phase }

theorem store_inv (hv : v.Inv) (hclient : v.client = none) (hlead : v.srv.role = .leader)
    {bufs : List Bytes} (hbufs : bufs ≠ []) : (v.store bufs).Inv := by
  have hpos : 0 < bufs.length := length_pos_of_ne_nil hbufs
  have hserver : Inv { v with srv := (v.store bufs).srv } :=
    hv.withServer rfl hv.follower (store_keeps bufs) (hv.threads.store_server hclient bufs)
  have hstored := hserver.withClient hclient hlead
    (hv.threads.store_index hlead bufs) (store_entry hbufs) ?_ ?_ ?_
  · rwa [← store_client] at hstored
  · intro hdone
    have hlt := hv.threads.lt_of_done hdone
    omega
  · intro x hx
    have hlt := hv.elem_lt hx
    omega
  · intro r hr
    have hlt := hv.threads.phase_lt.2 r hr
    omega

/-! ## The table -/

theorem resultIds_cons (x : CommitRetElem) (xs : List CommitRetElem) :
    resultIds (x :: xs) = (x.asyncResult.map CmdResult.id).toList ++ resultIds xs := by
  unfold resultIds
  cases hr : x.asyncResult <;> simp [hr]

theorem mem_eraseElem {k : Nat} {x : CommitRetElem} :
    x ∈ v.eraseElem k ↔ x ∈ v.commitRetElems ∧ x.idx ≠ k := by
  simp [eraseElem]

theorem eraseElem_of_none {k : Nat} (h : v.findElem k = none) : v.eraseElem k = v.commitRetElems := by
  rw [eraseElem, filter_eq_self]
  intro x hx
  simpa using findElem_eq_none.mp h x hx

section

variable (hnodup : (v.commitRetElems.map CommitRetElem.idx).Nodup)
include hnodup

theorem perm_eraseElem {k : Nat} {x : CommitRetElem} (h : v.findElem k = some x) :
    (x :: v.eraseElem k).Perm v.commitRetElems := by
  obtain ⟨hmem, rfl⟩ := findElem_eq_some h
  have herase : v.commitRetElems.erase x = v.eraseElem x.idx := by
    rw [(Nodup.of_map _ hnodup).erase_eq_filter]
    apply filter_congr
    intro y hy
    -- an index occurs once, so the same index means the same element
    have hinj := inj_on_of_nodup_map hnodup hy hmem
    by_cases hyx : y = x
    · subst hyx
      rw [bne_self_eq_false, bne_self_eq_false]
    · have hne : y.idx ≠ x.idx := fun heq => hyx (hinj heq)
      rw [bne_iff_ne.mpr hyx, bne_iff_ne.mpr hne]
  rw [← herase]
  exact (perm_cons_erase hmem).symm

theorem resultIds_eraseElem {k : Nat} {x : CommitRetElem} (h : v.findElem k = some x) :
    ((x.asyncResult.map CmdResult.id).toList ++ resultIds (v.eraseElem k)).Perm
      (resultIds v.commitRetElems) := by
  rw [← resultIds_cons]
  exact (perm_eraseElem hnodup h).filterMap _

theorem nodup_putElem (x : CommitRetElem) : ((v.putElem x).map CommitRetElem.idx).Nodup := by
  rw [putElem, map_cons, nodup_cons]
  refine ⟨?_, hnodup.sublist (filter_sublist.map _)⟩
  intro hmem
  obtain ⟨y, hy, hyx⟩ := mem_map.mp hmem
  exact (mem_eraseElem.mp hy).2 hyx

end

theorem register_inv (hv : v.Inv) {k term : Nat} (hclient : v.client = some (k, term)) :
    (v.register k term).Inv := by
  have hs := hv.client k term hclient
  have hidx : ((v.findElem k).getD { idx := k }).idx = k := by
    cases hfind : v.findElem k with
    | none => rfl
    | some x => exact (findElem_eq_some hfind).2
  have hnone : ((v.findElem k).getD { idx := k }).asyncResult = none := by
    cases hfind : v.findElem k with
    | none => rfl
    | some x =>
      obtain ⟨hmem, hxk⟩ := findElem_eq_some hfind
      exact hs.unregistered x hmem hxk
  have hvalue : v.Done k → (k, term, ((v.findElem k).getD { idx := k }).retValue) ∈ v.applied ∧
        v.trackPeersSmCommitIdx = true ∧ v.notifiedIdx < k := by
    intro hdone
    cases hfind : v.findElem k with
    | none =>
      obtain ⟨x, hx, hxk⟩ := hs.early hdone
      exact absurd hxk (findElem_eq_none.mp hfind x hx)
    | some x =>
      obtain ⟨hmem, rfl⟩ := findElem_eq_some hfind
      have hsound := hv.elems x hmem
      obtain ⟨-, t, ht, hval⟩ := hsound.unclaimed (hs.unregistered x hmem rfl)
      cases hclient.symm.trans ht
      exact ⟨hval, hsound.tracked hdone, hsound.fresh⟩
  have hfresh : v.notifiedIdx < k := by
    by_cases hdone : v.Done k
    · exact (hvalue hdone).2.2
    · have hlt : v.srv.smCommitIndex < k := Nat.lt_of_not_le (fun hle => hdone (.inl hle))
      exact hv.notified.trans_lt hlt
  have hids : (resultIds (v.eraseElem k)).Perm (resultIds v.commitRetElems) := by
    cases hfind : v.findElem k with
    | none => rw [eraseElem_of_none hfind]
    | some x =>
      have hperm := resultIds_eraseElem hv.nodup hfind
      rw [hfind] at hnone
      have hxnone : x.asyncResult = none := hnone
      rwa [hxnone] at hperm
  dsimp only [register]
  rw [hnone]
  generalize hx : (v.findElem k).getD { idx := k } = x at hidx hvalue
  have hput : v.putElem { x with asyncResult := some ⟨v.nextResult, k, term⟩ } =
      { x with asyncResult := some ⟨v.nextResult, k, term⟩ } :: v.eraseElem k := by
    rw [putElem, hidx]
  exact
    { hv with
      conserved := by
        apply hv.conserved.issue
        rw [places, hput, resultIds_cons]
        -- the fresh result goes into the table, which holds the same ones otherwise
        have htable := hids.append_right
          (v.exec.held.map CmdResult.id ++ v.draining.map (fun d => d.1.id))
        exact (perm_middle).trans (Perm.cons _ (Perm.append_left _ htable))
      nodup := nodup_putElem hv.nodup _
      elems := by
        intro y hy
        rw [hput] at hy
        rcases mem_cons.mp hy with rfl | hold
        · refine ⟨?_, ?_, ?_, ?_⟩
          · exact hidx.symm ▸ hfresh
          · intro hdone
            exact (hvalue (hidx ▸ hdone)).2.1
          · intro r hr
            cases hr
            refine ⟨hidx.symm, fun hnot => ?_, fun hdone => ?_⟩
            · rw [hidx] at hnot ⊢
              exact hs.entry hnot
            · rw [hidx] at hdone ⊢
              exact (hvalue hdone).1
          · intro hr
            cases hr
        · obtain ⟨hmem, hne⟩ := mem_eraseElem.mp hold
          have hsound := hv.elems y hmem
          refine hsound.mono hsound.fresh Iff.rfl rfl (fun _ _ => id) (Subset.refl _) ?_
          intro hr
          obtain ⟨-, t, hc, -⟩ := hsound.unclaimed hr
          cases hclient.symm.trans hc
          exact absurd rfl hne
      client := nofun
      phase := by
        have h := hv.phase
        cases hexec : v.exec with
        | returned b k' e pc value =>
          rw [hexec] at h
          exact ⟨h.1, h.2.1, nofun⟩
        | idle | looping | picked | notifying =>
          rwa [hexec] at h
      follower := fun hrole => absurd hs.leads hrole }

/-! ## The commit thread -/

theorem Sound.mono {d : CmdResult × Completion} (h : v.Sound d)
    (htrack : w.trackPeersSmCommitIdx = v.trackPeersSmCommitIdx) (happlied : v.applied ⊆ w.applied) :
    w.Sound d := by
  obtain ⟨r, c⟩ := d
  cases c with
  | ok value => exact happlied h
  | cancelled wasApplied wasNotified => exact ⟨fun ha => htrack.trans (h.1 ha), h.2⟩

theorem Inv.withPhase (hv : v.Inv) {p : CommitPhase} (hpast : p.past = v.exec.past)
    (hreturning : p.returning = v.exec.returning) (hheld : p.held = v.exec.held)
    (hsound : v.PhaseSound p) : Inv { v with exec := p } := by
  refine hv.withResults hpast hreturning ?_ hsound hv.sets
  unfold places
  rw [hheld]

theorem Inv.apply (hv : v.Inv) {b : Bool} {k : Nat} {e : LogEntry} (hexec : v.exec = .picked b k e)
    (value : Option Bytes) : Inv { v with
      exec := .returned b k e v.srv.precommitIndex value
      applied := v.applied ++ [(k, e.term, value)] } := by
  have hthreads := hv.threads.apply hexec value
  have hsub : v.applied ⊆ v.applied ++ [(k, e.term, value)] := subset_append_left _ _
  have hdone := done_apply hexec value
  exact
    { hv with
      conserved := by
        have h := hv.conserved
        unfold places at h ⊢
        rwa [hexec] at h
      elems := by
        intro x hx
        have hs := hv.elems x hx
        exact hs.mono hs.fresh (hdone _) rfl (fun _ _ => id) hsub (fun _ => rfl)
      client := by
        intro j term hc
        have hs := hv.client j term hc
        exact { hs with
          entry := (hthreads.client j term hc).2.2
          early := fun h => hs.early ((hdone j).mp h) }
      phase := hthreads.phase
      applied := hthreads.applied
      sets := fun d hd => (hv.sets d hd).mono rfl hsub }

/-- The completion of index `k`: its element, if there was one, is exchanged for `new`, and `rs`
is what the thread takes out. -/
theorem Inv.pass (hv : v.Inv) {b : Bool} {k : Nat} {e : LogEntry} (hc : v.Completing k e)
    {new : Option CommitRetElem} {rs : List (CmdResult × Option Bytes)}
    (hids : (resultIds new.toList ++ (rs.map (fun r => r.1.id) ++ resultIds (v.eraseElem k))).Perm
      (resultIds v.commitRetElems))
    (hrs : ∀ r ∈ rs, (r.1.idx, r.1.term, r.2) ∈ v.applied)
    (hnew : ∀ x ∈ new, x.idx = k ∧ (v.srv.role = .leader ∨ v.steppingDown) ∧
      ElemSound { v with exec := .notifying b k rs } x)
    (hclient : v.clientIdx = some k → ∃ x ∈ new, x.asyncResult = none) :
    Inv { v with
      exec := .notifying b k rs
      commitRetElems := new.toList ++ v.eraseElem k } := by
  have hdone : ∀ j, Done { v with exec := .notifying b k rs } j ↔ v.Done j ∨ j = k :=
    fun j => hc.done_iff (w := { v with exec := .notifying b k rs }) rfl rfl
  have hthreads := hv.threads.pass b hc hrs
  have hmem : ∀ x ∈ new.toList ++ v.eraseElem k, x ∈ new ∨ x ∈ v.commitRetElems ∧ x.idx ≠ k := by
    intro x hx
    rcases mem_append.mp hx with h | h
    · exact .inl (mem_toList.mp h)
    · exact .inr (mem_eraseElem.mp h)
  exact
    { hv with
      conserved := by
        apply hv.conserved.move
        unfold places
        rw [hc.held]
        apply Perm.append_left
        have hsplit : resultIds (new.toList ++ v.eraseElem k) =
            resultIds new.toList ++ resultIds (v.eraseElem k) := filterMap_append
        have htaken := hids.append_right (v.draining.map (fun d => d.1.id))
        refine Perm.trans ?_ htaken
        simp only [hsplit, CommitPhase.held, List.map_map, append_assoc]
        exact Perm.append_left _ (perm_append_comm_assoc _ _ _)
      nodup := by
        have hrest : ((v.eraseElem k).map CommitRetElem.idx).Nodup :=
          hv.nodup.sublist (filter_sublist.map _)
        cases hn : new with
        | none => exact hrest
        | some x =>
          refine nodup_cons.mpr ⟨?_, hrest⟩
          intro h
          obtain ⟨y, hy, hyx⟩ := mem_map.mp h
          exact (mem_eraseElem.mp hy).2 (hyx.trans (hnew x hn).1)
      elems := by
        intro x hx
        rcases hmem x hx with h | ⟨hold, hne⟩
        · have hs := (hnew x h).2.2
          exact hs.mono hs.fresh Iff.rfl rfl (fun _ _ => id) (Subset.refl _) (fun _ => rfl)
        · have hs := hv.elems x hold
          refine hs.mono hs.fresh ?_ rfl (fun _ _ => id) (Subset.refl _) (fun _ => rfl)
          exact (hdone x.idx).trans (or_iff_left hne)
      client := by
        intro j term hj
        have hs := hv.client j term hj
        refine ⟨hs.leads, hs.index, (hthreads.client j term hj).2.2, ?_, ?_⟩
        · intro x hx hxj
          rcases hmem x hx with h | ⟨hold, -⟩
          · have hidx : v.clientIdx = some k := by
              rw [← (hnew x h).1, hxj]
              rw [clientIdx, hj]
              rfl
            obtain ⟨y, hy, hynone⟩ := hclient hidx
            cases mem_unique h hy
            exact hynone
          · exact hs.unregistered x hold hxj
        · intro hd
          rcases (hdone j).mp hd with hold | rfl
          · obtain ⟨x, hx, rfl⟩ := hs.early hold
            have hne : x.idx ≠ k := fun heq => hc.not_done (heq ▸ hold)
            exact ⟨x, mem_append_right _ (mem_eraseElem.mpr ⟨hx, hne⟩), rfl⟩
          · have hidx : v.clientIdx = some j := by
              rw [clientIdx, hj]
              rfl
            obtain ⟨x, hx, -⟩ := hclient hidx
            exact ⟨x, mem_append_left _ (mem_toList.mpr hx), (hnew x hx).1⟩
      phase := hthreads.phase
      applied := hthreads.applied
      follower := by
        intro hrole hstep
        have hempty := hv.follower hrole hstep
        have hnone : new = none := by
          cases hn : new with
          | none => rfl
          | some x =>
            rcases (hnew x hn).2.1 with hlead | hstepping
            · exact absurd hlead hrole
            · cases hstep ▸ hstepping
        rw [hnone]
        rw [eraseElem, hempty]
        rfl }

theorem Inv.passUnseen (hv : v.Inv) (b : Bool) {k : Nat} {e : LogEntry} (hc : v.Completing k e)
    (hnone : v.findElem k = none) (hclient : v.clientIdx ≠ some k) :
    Inv { v with exec := .notifying b k [] } := by
  have hpass : Inv { v with
      exec := .notifying b k []
      commitRetElems := (none : Option CommitRetElem).toList ++ v.eraseElem k } := by
    refine hv.pass hc ?_ (fun _ hr => nomatch hr) nofun
      (fun h => absurd h hclient)
    rw [eraseElem_of_none hnone]
    exact Perm.refl _
  rwa [eraseElem_of_none hnone] at hpass

theorem applyConf_inv (hv : v.Inv) {b : Bool} {k : Nat} {e : LogEntry}
    (hexec : v.exec = .picked b k e) (hconf : e.isConf = true) :
    Inv { v with srv := v.srv.executeEntry e, exec := .notifying b k [] } := by
  have hat : v.AtNext k e := by
    have h := hv.phase
    rwa [hexec] at h
  have hcompleting : v.Completing k e := ⟨hat, hexec ▸ rfl, hexec ▸ rfl,
    fun r hr => by rw [hexec] at hr; cases hr⟩
  have hnot := hcompleting.not_done
  have hnone : v.findElem k = none := by
    rw [findElem_eq_none]
    rintro x hx rfl
    obtain ⟨r, -, -, hentry⟩ := hv.waiting hx hnot
    cases hconf.symm.trans (hat.term_eq hentry).2
  have hclient : v.clientIdx ≠ some k := by
    intro hc
    obtain ⟨term, -, hentry⟩ := hv.threads.clientEntry hc hnot
    cases hconf.symm.trans (hat.term_eq hentry).2
  have hpass := hv.passUnseen b hcompleting hnone hclient
  have hrole := (v.srv.executeEntry_frame e).2.1
  exact hpass.withServer (RaftServer.executeEntry_smCommitIndex _ _)
    (fun hne => hv.follower (hrole ▸ hne)) executeEntry_keeps hpass.threads.executeEntry

theorem Inv.found (hv : v.Inv) {k : Nat} {e : LogEntry} {value : Option Bytes}
    (hc : v.Completing k e) (happlied : (k, e.term, value) ∈ v.applied) {x : CommitRetElem}
    (hfind : v.findElem k = some x) :
    ∃ r, x.asyncResult = some r ∧ r.idx = k ∧ (k, r.term, value) ∈ v.applied := by
  obtain ⟨hmem, rfl⟩ := findElem_eq_some hfind
  obtain ⟨r, hr, hidx, hentry⟩ := hv.waiting hmem hc.not_done
  refine ⟨r, hr, hidx, ?_⟩
  rwa [(hc.next.term_eq hentry).1] at happlied

theorem Inv.clientIdx_of_found (hv : v.Inv) {k : Nat} {x : CommitRetElem} {r : CmdResult}
    (hfind : v.findElem k = some x) (hr : x.asyncResult = some r) : v.clientIdx ≠ some k := by
  intro hidx
  obtain ⟨⟨j, term⟩, hc, rfl⟩ := map_eq_some_iff.mp hidx
  obtain ⟨hmem, hxj⟩ := findElem_eq_some hfind
  cases hr.symm.trans ((hv.client j term hc).unregistered x hmem hxj)

theorem fillElem_inv (hv : v.Inv) {k : Nat} {e : LogEntry} {value : Option Bytes}
    (hc : v.Completing k e) (happlied : (k, e.term, value) ∈ v.applied) {x : CommitRetElem}
    (hfind : v.findElem k = some x) (htrack : v.trackPeersSmCommitIdx = true) :
    Inv { v with
      exec := .notifying true k []
      commitRetElems := v.putElem { x with retValue := value } } := by
  obtain ⟨hmem, hxk⟩ := findElem_eq_some hfind
  obtain ⟨r, hr, hidx, hval⟩ := hv.found hc happlied hfind
  have hput : v.putElem { x with retValue := value } =
      (some { x with retValue := value }).toList ++ v.eraseElem k := by
    rw [← hxk]
    rfl
  rw [hput]
  refine hv.pass hc ?_ nofun ?_ ?_
  · have hperm := resultIds_eraseElem hv.nodup hfind
    exact hperm
  · rintro y ⟨⟩
    refine ⟨hxk, hv.leads_of_mem hmem, (hv.elems x hmem).fresh, fun _ => htrack, ?_, ?_⟩
    · intro r' hr'
      cases hr.symm.trans hr'
      refine ⟨hidx.trans hxk.symm, fun hnot => absurd (Or.inr ?_) hnot, fun _ => ?_⟩
      · exact congrArg some hxk.symm
      · exact hxk.symm ▸ hval
    · intro hnone
      cases hr.symm.trans hnone
  · intro hclient
    exact absurd hclient (hv.clientIdx_of_found hfind hr)

theorem takeElem_inv (hv : v.Inv) {k : Nat} {e : LogEntry} {value : Option Bytes}
    (hc : v.Completing k e) (happlied : (k, e.term, value) ∈ v.applied) {x : CommitRetElem}
    (hfind : v.findElem k = some x) :
    Inv { v with
      exec := .notifying true k (x.asyncResult.toList.map (fun r => (r, value)))
      commitRetElems := v.eraseElem k } := by
  obtain ⟨r, hr, rfl, hval⟩ := hv.found hc happlied hfind
  have hpass : Inv { v with
      exec := .notifying true r.idx [(r, value)]
      commitRetElems := (none : Option CommitRetElem).toList ++ v.eraseElem r.idx } := by
    refine hv.pass hc ?_ ?_ nofun ?_
    · have hperm := resultIds_eraseElem hv.nodup hfind
      rwa [hr] at hperm
    · intro d hd
      cases mem_singleton.mp hd
      exact hval
    · intro hclient
      exact absurd hclient (hv.clientIdx_of_found hfind hr)
  rwa [hr]

theorem leaveElem_inv (hv : v.Inv) {k : Nat} {e : LogEntry} {value : Option Bytes}
    (hc : v.Completing k e) (happlied : (k, e.term, value) ∈ v.applied)
    (hnone : v.findElem k = none) (htrack : v.trackPeersSmCommitIdx = true)
    (hclient : v.clientIdx = some k) :
    Inv { v with
      exec := .notifying true k []
      commitRetElems := v.putElem { idx := k, retValue := value } } := by
  obtain ⟨term, hclient', hentry⟩ := hv.threads.clientEntry hclient hc.not_done
  have hlead := (hv.client k term hclient').leads
  have hput : v.putElem { idx := k, retValue := value } =
      (some { idx := k, retValue := value }).toList ++ v.eraseElem k := rfl
  rw [hput]
  refine hv.pass hc ?_ nofun ?_ ?_
  · rw [eraseElem_of_none hnone]
    exact Perm.refl _
  · rintro y ⟨⟩
    refine ⟨rfl, .inl hlead, ?_, fun _ => htrack, fun r hr => (nomatch hr), fun _ => ?_⟩
    · have hk := hc.next.1
      have hnotified := hv.notified
      dsimp only
      omega
    · refine ⟨.inr rfl, term, hclient', ?_⟩
      rwa [(hc.next.term_eq hentry).1] at happlied
  · intro _
    exact ⟨_, rfl, rfl⟩

theorem complete_inv (hv : v.Inv) (hsafe : v.SafeComplete) {b : Bool} {k pc : Nat} {e : LogEntry}
    {value : Option Bytes} (hexec : v.exec = .returned b k e pc value) :
    Inv (if b then v.complete k e pc value else { v with exec := .notifying b k [] }) := by
  have hphase := hv.phase
  rw [hexec] at hphase
  obtain ⟨hat, happlied, hpc⟩ := hphase
  have hreturning : v.exec.returning = some (b, k, pc) := hexec ▸ rfl
  have hc : v.Completing k e := by
    refine ⟨hat, hexec ▸ rfl, hexec ▸ rfl, fun r hr => ?_⟩
    cases hreturning.symm.trans hr
    rfl
  obtain ⟨hsafe, hunseen⟩ := hsafe _ hreturning
  cases b with
  | false =>
    obtain ⟨hnone, hclient⟩ := hunseen rfl
    exact hv.passUnseen false hc hnone hclient
  | true =>
    rw [if_pos rfl]
    unfold complete
    split
    · next x hfind =>
      split
      · next htrack => exact fillElem_inv hv hc happlied hfind htrack
      · exact takeElem_inv hv hc happlied hfind
    · next hnone =>
      by_cases hk : k = pc
      · -- the branch "commit thread is invoked earlier"
        obtain ⟨htrack, hclient⟩ := hsafe rfl hnone hk
        rw [if_neg (not_not_intro hk), if_pos htrack]
        exact leaveElem_inv hv hc happlied hnone htrack hclient
      · rw [if_pos hk]
        exact hv.passUnseen true hc hnone (fun hclient => hk (hpc hclient).symm)

theorem notify_inv (hv : v.Inv) {b : Bool} {k : Nat} {r : CmdResult × Option Bytes}
    {rs : List (CmdResult × Option Bytes)} (hexec : v.exec = .notifying b k (r :: rs)) :
    Inv { v with exec := .notifying b k rs, sets := v.sets ++ [(r.1, .ok r.2)] } := by
  have hphase := hv.phase
  rw [hexec] at hphase
  refine hv.withResults (hexec ▸ rfl) (hexec ▸ rfl) ?_ ?_ ?_
  · unfold places
    rw [hexec, map_append, append_assoc]
    apply Perm.append_left
    simp only [CommitPhase.held, map_cons, map_nil, cons_append, nil_append]
    exact perm_middle.symm
  · exact ⟨hphase.1, fun r' hr' => hphase.2 r' (.tail _ hr')⟩
  · intro d hd
    rcases mem_append.mp hd with hset | hdrain
    · rcases mem_append.mp hset with hold | hnew
      · exact hv.sets d (mem_append_left _ hold)
      · cases mem_singleton.mp hnew
        exact hphase.2 r mem_cons_self
    · exact hv.sets d (mem_append_right _ hdrain)

theorem advance_inv (hv : v.Inv) {b : Bool} {k : Nat} (hexec : v.exec = .notifying b k []) :
    Inv { v with srv := v.srv.applied k, exec := .looping b } := by
  have hthreads := hv.threads.advance hexec
  have hdone := hv.threads.done_advance hexec
  obtain ⟨⟨e, hk, -, -⟩, -⟩ : v.PhaseSound (.notifying b k []) := hexec ▸ hv.phase
  exact
    { hthreads with
      conserved := by
        have h := hv.conserved
        rw [places, hexec] at h
        exact h
      nodup := hv.nodup
      elems := by
        intro x hx
        have hs := hv.elems x hx
        exact hs.mono hs.fresh (hdone x.idx) rfl (fun _ _ => id) (Subset.refl _) (fun _ => rfl)
      client := by
        intro j term hc
        have hs := hv.client j term hc
        exact { hs with
          entry := (hthreads.client j term hc).2.2
          early := fun h => hs.early ((hdone j).mp h) }
      sets := hv.sets
      notified := by
        have hnotified := hv.notified
        show v.notifiedIdx ≤ k
        omega
      follower := hv.follower }

theorem stepExec_inv (hv : v.Inv) {a : Action} (hsafe : v.Safe a) (h : v.stepExec a = some w) :
    w.Inv := by
  unfold stepExec at h
  split at h
  case h_1 hexec =>
    cases h
    exact hv.withPhase (hexec ▸ rfl) (hexec ▸ rfl) (hexec ▸ rfl) trivial
  case h_2 b hexec =>
    split at h
    · next hwork =>
      obtain ⟨e, he, rfl⟩ := map_eq_some_iff.mp h
      have hquick : v.srv.smCommitIndex < v.srv.quickCommitIndex := by
        simp only [RaftServer.hasWork, Bool.and_eq_true, decide_eq_true_eq] at hwork
        exact hwork.1
      exact hv.withPhase (hexec ▸ rfl) (hexec ▸ rfl) (hexec ▸ rfl)
        ⟨rfl, hquick, he⟩
    · cases h
  case h_3 value b k e hexec =>
    split at h
    · next hconf =>
      cases h
      exact applyConf_inv hv hexec hconf
    · split at h
      · cases h
      · cases h
        exact hv.apply hexec value
  case h_4 b k e pc value hexec =>
    rw [← apply_ite some] at h
    cases h
    exact complete_inv hv hsafe hexec
  case h_5 b k r rs hexec =>
    cases h
    exact notify_inv hv hexec
  case h_6 b k hexec =>
    cases h
    exact advance_inv hv hexec
  case h_7 b hexec =>
    cases h
    exact hv.withPhase (hexec ▸ rfl) (hexec ▸ rfl) (hexec ▸ rfl) trivial
  case h_8 => cases h

theorem step_inv (hv : v.Inv) {a : Action} (hsafe : v.Safe a) (h : v.step a = some w) : w.Inv := by
  cases a with
  | store bufs =>
    simp only [step] at h
    split at h
    · cases h
    · next hfree =>
      rw [not_or, not_or, not_isSome_iff_eq_none] at hfree
      split at h
      · cases h
        exact hv
      · next hrole =>
        cases h
        have hlead : v.srv.role = .leader := by
          by_contra hne
          exact hrole (.inl hne)
        exact store_inv hv hfree.1 hlead hfree.2.2
  | register =>
    obtain ⟨⟨k, term⟩, hc, rfl⟩ := map_eq_some_iff.mp h
    exact register_inv hv hc
  | scan upto =>
    cases h
    exact scan_inv hv upto hsafe
  | loseRole term =>
    simp only [step] at h
    split at h
    · cases h
    · next hfree =>
      rw [not_or, not_isSome_iff_eq_none] at hfree
      cases h
      exact loseRole_inv hv hfree.1 term
  | drain =>
    simp only [step] at h
    split at h
    · cases h
    · next hfree =>
      rw [not_or, not_isSome_iff_eq_none, not_not] at hfree
      exact drain_inv hv hfree.1 hfree.2 hsafe h
  | cancel =>
    simp only [step] at h
    split at h
    · next d ds hd =>
      cases h
      exact cancel_inv hv hd
    · split at h
      · next hstep =>
        cases h
        exact drained_inv hv hstep.2
      · cases h
  | becomeLeader =>
    simp only [step] at h
    split at h
    · cases h
    · next hfree =>
      rw [not_or, not_or, not_isSome_iff_eq_none, Bool.not_eq_true] at hfree
      cases h
      exact becomeLeader_inv hv hfree.1 hfree.2.1 hfree.2.2
  | other t =>
    simp only [step] at h
    split at h
    · next ht =>
      cases h
      exact other_inv hv ht
    · cases h
  | _ => exact stepExec_inv hv hsafe h

/-- Where neither the commit thread nor a step-down nor a scan gets ahead of a client, every result
is set at most once, with the value of its own entry or `CANCELLED`. A result of an applied entry is
cancelled only with the peers tracked and before a scan has reached it. No element stays behind. -/
theorem completions_sound {s : RaftServer} {track : Bool} {as : List Action} {v : ClientCompletion}
    (hrole : s.role ≠ .leader) (hlog : s.smCommitIndex < s.log.nextSlot)
    (hsafe : Runs.AllSteps step Safe { srv := s, trackPeersSmCommitIdx := track } as)
    (hrun : Runs.run step { srv := s, trackPeersSmCommitIdx := track } as = some v) :
    (v.sets.map (fun d => d.1.id)).Nodup ∧ (∀ d ∈ v.sets, v.Sound d) ∧
    (∀ x ∈ v.commitRetElems, v.notifiedIdx < x.idx ∧
      (v.trackPeersSmCommitIdx = false → v.srv.smCommitIndex < x.idx)) ∧
    (v.srv.role ≠ .leader → v.steppingDown = false → v.commitRetElems = []) := by
  have hv : v.Inv :=
    Runs.invariant_of_allSteps (P := Safe) (I := Inv)
      (fun _ _ _ hi hs h => step_inv hi hs h) (start_inv track hrole hlog) hsafe hrun
  refine ⟨hv.conserved.nodup_left, ?_, ?_, hv.follower⟩
  · intro d hd
    exact hv.sets d (mem_append_left _ hd)
  · intro x hx
    have hs := hv.elems x hx
    refine ⟨hs.fresh, fun htrack => ?_⟩
    by_contra hle
    cases htrack.symm.trans (hs.tracked (.inl (Nat.le_of_not_lt hle)))

end ClientCompletion

/-- A cluster of one, not elected yet. -/
def soleServer : RaftServer := { id := 1, config := { servers := [{ id := 1 }] } }

/-- The leader with entries stored behind its configuration, committed up to index `2`. -/
def committedServer (bufs : List Bytes) : RaftServer :=
  let leader : ClientCompletion :=
    { srv := soleServer.takeLeadership, trackPeersSmCommitIdx := false }
  { (leader.store bufs).srv with quickCommitIndex := 2 }

/-- The commit thread from its wake-up until the state machine returns for index `2`. -/
def applySecond : List ClientCompletion.Action :=
  [.enterExec, .pick, .apply none, .notify, .pick, .apply (some [9])]

/-- A request is registered, committed and applied; then the server steps down. -/
def appliedThenDropped : List ClientCompletion.Action :=
  [.becomeLeader, .store [[7]], .register, .other (committedServer [[7]])] ++ applySecond ++
    [.complete, .notify]

/-- The commit thread completes the entry before the request is registered. -/
def committedFirst : List ClientCompletion.Action :=
  [.becomeLeader, .store [[7]], .other (committedServer [[7]])] ++ applySecond ++
    [.complete, .register, .notify, .drain, .cancel]

/-- With the peers tracked, the element of an applied entry stays, and a step-down cancels its
result. Without it, a commit thread that is faster than the request leaves an element whose result
is set, and the step-down sets it again. -/
theorem applied_and_cancelled :
    (Runs.run ClientCompletion.step { srv := soleServer, trackPeersSmCommitIdx := true }
        appliedThenDropped).map (fun v => (v.srv.smCommitIndex, v.commitRetElems, v.sets)) =
      some (2, [⟨2, some [9], some ⟨0, 2, 0⟩⟩], []) ∧
    (Runs.run ClientCompletion.step { srv := soleServer, trackPeersSmCommitIdx := true }
        (appliedThenDropped ++ [.drain, .cancel])).map (fun v => v.sets) =
      some [(⟨0, 2, 0⟩, .cancelled true false)] ∧
    (Runs.run ClientCompletion.step { srv := soleServer, trackPeersSmCommitIdx := false }
        committedFirst).map (fun v => v.sets) =
      some [(⟨0, 2, 0⟩, .ok (some [9])), (⟨0, 2, 0⟩, .cancelled true false)] := by
  decide +kernel

/-- Two requests, of which the first is applied and the second one is dropped. -/
def oneApplied : List ClientCompletion.Action :=
  [.becomeLeader, .store [[7]], .register, .store [[8]], .register,
    .other (committedServer [[7], [8]])] ++ applySecond ++
    [.complete, .notify, .notify, .drain, .cancel, .cancel]

theorem oneApplied_completed :
    ∃ v, Runs.run ClientCompletion.step { srv := soleServer, trackPeersSmCommitIdx := false }
        oneApplied = some v ∧
      v.sets = [(⟨0, 2, 0⟩, .ok (some [9])), (⟨1, 3, 0⟩, .cancelled false false)] ∧
      v.commitRetElems = [] := by
  have hobserved : (Runs.run ClientCompletion.step
      { srv := soleServer, trackPeersSmCommitIdx := false } oneApplied).map
        (fun v => (v.sets, v.srv.role, v.steppingDown)) =
      some ([(⟨0, 2, 0⟩, .ok (some [9])), (⟨1, 3, 0⟩, .cancelled false false)], .follower, false) := by
    decide +kernel
  obtain ⟨v, hrun, hv⟩ := map_eq_some_iff.mp hobserved
  simp only [Prod.mk.injEq] at hv
  have hsafe : Runs.AllSteps ClientCompletion.step ClientCompletion.Safe
      { srv := soleServer, trackPeersSmCommitIdx := false } oneApplied := by decide +kernel
  have hsound := ClientCompletion.completions_sound (by decide) (by decide) hsafe hrun
  refine ⟨v, hrun, hv.1, hsound.2.2.2 ?_ hv.2.2⟩
  rw [hv.2.1]
  decide

end Raft
end Xio
