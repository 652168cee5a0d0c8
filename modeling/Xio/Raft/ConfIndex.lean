import Xio.Raft.ConfUpdate

/-!
# Raft.ConfIndex — the index that a configuration entry carries

An operation that appends a configuration clones one, writes `next_slot()` into the clone and appends
the serialized clone to the log store. The three are separate steps. Most operations hold `lock_`
for all of them, `become_leader` holds `cli_lock_` as well, and `set_user_ctx`,
`update_srv_config` and `flip_learner_flag` hold nothing. A client's append holds `cli_lock_` only,
so it may come between the second step and the third, and then the entry lands behind the index that
it carries.

`ConfThreads` cuts the operations of `ConfOp` into these steps. A server's own step, taken alone, is a
run of the steps that its input stands for (`step_threads`).
-/

namespace Xio
namespace Raft

open List

/-- The operation takes no lock. -/
def ConfOp.unlocked : ConfOp → Bool
  | setUserCtx _ | updateSrvConfig _ | flipLearnerFlag _ _ => true
  | _ => false

/-- A thread between the clone of a configuration and the append of its entry. -/
structure ConfWriter where
  op : ConfOp
  conf : ClusterConfig
  /-- The clone carries the index that `next_slot()` returned, and the edit is made. -/
  numbered : Bool := false
  deriving DecidableEq, Repr

/-- `set_log_idx(log_store_->next_slot())`, with the edit of the operation. -/
def ConfWriter.number (w : ConfWriter) (slot : Nat) : ConfWriter :=
  { w with conf := w.op.edit (w.conf.setLogIdx slot), numbered := true }

namespace ConfView

variable (v : ConfView)

/-- `store_log_entry` of the clone, with what the operation records. -/
def store (w : ConfWriter) (term : Nat) : ConfView :=
  { v with
    log := v.log.append ⟨term, .conf w.conf⟩
    uncommitted := if w.op.records then some w.conf else v.uncommitted
    changing := v.changing || w.op.records || w.op == .becomeLeader }

/-- `commit_conf`: an older configuration does not replace a newer one. -/
def commitConf (c : ClusterConfig) : ConfView :=
  { v with
    applied := v.applied + 1
    config := if v.config.logIdx < c.logIdx then c else v.config
    uncommitted := if v.config.logIdx < c.logIdx then
        v.uncommitted.filter (fun u => u.logIdx != c.logIdx)
      else v.uncommitted
    changing := false }

/-- Every configuration that the server has: the current one, the recorded one, those of the log. -/
def confs : List ClusterConfig :=
  v.config :: v.uncommitted.toList ++ v.log.entries.filterMap LogEntry.conf?

/-- The indices that the configurations carry are inside the log. -/
def Inside : Prop := ∀ c ∈ v.confs, c.logIdx < v.log.nextSlot

instance : Decidable v.Inside := by
  unfold Inside
  infer_instance

end ConfView

/-- The log and the configurations of a server, and the threads that work on them. -/
structure ConfThreads where
  view : ConfView
  leads : Bool := false
  /-- The thread that holds `lock_`. -/
  locked : Option ConfWriter := none
  /-- Threads inside `set_user_ctx`, `update_srv_config` and `flip_learner_flag`. -/
  free : List ConfWriter := []

namespace ConfThreads

inductive Action
  /-- An operation takes `lock_` and clones its configuration; `become_leader` has set the role. -/
  | lock (op : ConfOp)
  | numberLocked
  | storeLocked (term : Nat)
  /-- A call of an operation that takes no lock. -/
  | call (op : ConfOp)
  | number (k : Nat)
  | store (k : Nat) (term : Nat)
  /-- `handle_cli_req` stores one entry, under `cli_lock_`. -/
  | client (term : Nat) (buf : Bytes)
  | commitNext
  | adjustCommit
  | compact (k : Nat)
  | editPriority (id priority : Int)
  | joinFailed
  | stepDown
  /-- Whatever becomes of log and configurations while the server does not lead. -/
  | follow (v : ConfView)

variable (x : ConfThreads)

/-- `become_leader` holds `cli_lock_` from the clone to the append. -/
def cliLocked : Bool := x.locked.any (fun w => w.op == .becomeLeader)

def setView (v : ConfView) : ConfThreads := { x with view := v }

def next : Action → Option ConfThreads
  | .lock op =>
    if x.locked.isNone ∧ op.unlocked = false then
      some { x with
        leads := x.leads || op == .becomeLeader
        locked := some { op := op, conf := op.base x.view } }
    else none
  | .numberLocked =>
    match x.locked with
    | some w =>
      if w.numbered then none else some { x with locked := some (w.number x.view.log.nextSlot) }
    | none => none
  | .storeLocked term =>
    match x.locked with
    | some w =>
      if w.numbered then some { x with view := x.view.store w term, locked := none } else none
    | none => none
  | .call op =>
    if op.unlocked then
      some { x with free := x.free ++ [{ op := op, conf := op.base x.view }] }
    else none
  | .number k =>
    match x.free[k]? with
    | some w =>
      if w.numbered then none else some { x with free := x.free.set k (w.number x.view.log.nextSlot) }
    | none => none
  | .store k term =>
    match x.free[k]? with
    | some w =>
      if w.numbered then some { x with view := x.view.store w term, free := x.free.eraseIdx k }
      else none
    | none => none
  | .client term buf =>
    if x.leads = true ∧ x.cliLocked = false then
      some (x.setView { x.view with log := x.view.log.append ⟨term, .appLog buf⟩ })
    else none
  | .commitNext =>
    match x.view.log.entryAt (x.view.applied + 1) with
    | none => none
    | some e =>
      match e.conf? with
      | none => some (x.setView { x.view with applied := x.view.applied + 1 })
      -- `commit_conf` takes `lock_`
      | some c => if x.locked.isNone then some (x.setView (x.view.commitConf c)) else none
  | .adjustCommit =>
    some (x.setView { x.view with applied := max x.view.applied (x.view.log.startIndex - 1) })
  | .compact k => some (x.setView { x.view with log := x.view.log.compact k })
  | .editPriority id priority =>
    if x.locked.isNone then
      some (x.setView { x.view with
        config := x.view.config.mapServer id (fun sc => { sc with priority := priority }) })
    else none
  | .joinFailed =>
    if x.locked.isNone then some (x.setView { x.view with changing := false }) else none
  | .stepDown => if x.locked.isNone then some { x with leads := false } else none
  | .follow v => if x.locked.isNone ∧ x.leads = false then some (x.setView v) else none

/-! ## When no thread is overtaken -/

/-- The threads that the action would overtake: all but the acting one, if the end of the log may
move. -/
def others : Action → List ConfWriter
  | .storeLocked _ => x.free
  | .store k _ => x.locked.toList ++ x.free.eraseIdx k
  | .client _ _ | .follow _ => x.locked.toList ++ x.free
  | .compact k => if k < x.view.log.nextSlot then [] else x.locked.toList ++ x.free
  | _ => []

/-- What a server comes to hold while it does not lead ends behind its configurations, and behind
those that its threads have cloned. -/
def ReceivesInside : Action → Prop
  | .follow v => v.Inside ∧ ∀ w ∈ x.free, w.conf.logIdx < v.log.nextSlot
  | _ => True

instance (a : Action) : Decidable (x.ReceivesInside a) := by
  cases a <;> (dsimp only [ReceivesInside]; infer_instance)

/-- The end of the log does not move between `next_slot()` and the append of another thread. -/
@[mk_iff] structure Undisturbed (a : Action) : Prop where
  alone : ∀ w ∈ x.others a, w.numbered = false
  received : x.ReceivesInside a

instance (a : Action) : Decidable (x.Undisturbed a) :=
  decidable_of_iff' _ (undisturbed_iff x a)

end ConfThreads

/-! ## What the threads hold -/

@[simp] theorem ConfOp.edit_logIdx (op : ConfOp) (c : ClusterConfig) :
    (op.edit c).logIdx = c.logIdx := by
  cases op <;> rfl

@[simp] theorem ConfOp.edit_prevLogIdx (op : ConfOp) (c : ClusterConfig) :
    (op.edit c).prevLogIdx = c.prevLogIdx := by
  cases op <;> rfl

/-- A numbered clone carries the next index and points back into the log, any other clone carries an
index of the log. -/
def ConfWriter.Fits (w : ConfWriter) (slot : Nat) : Prop :=
  if w.numbered then w.conf.logIdx = slot ∧ w.conf.prevLogIdx < slot else w.conf.logIdx < slot

namespace ConfWriter

variable {w : ConfWriter} {slot slot' : Nat}

theorem Fits.of_numbered (h : w.Fits slot) (hw : w.numbered = true) :
    w.conf.logIdx = slot ∧ w.conf.prevLogIdx < slot := by
  rwa [Fits, if_pos hw] at h

theorem Fits.of_cloned (h : w.Fits slot) (hw : w.numbered = false) : w.conf.logIdx < slot := by
  unfold Fits at h
  rwa [if_neg (by simp [hw])] at h

theorem fits_of_cloned (hw : w.numbered = false) (h : w.conf.logIdx < slot) : w.Fits slot := by
  rwa [Fits, if_neg (by simp [hw])]

theorem Fits.mono (h : w.Fits slot) (hw : w.numbered = false) (hle : slot ≤ slot') :
    w.Fits slot' := fits_of_cloned hw (Nat.lt_of_lt_of_le (h.of_cloned hw) hle)

theorem number_fits (h : w.Fits slot) (hw : w.numbered = false) : (w.number slot).Fits slot := by
  have hlt := h.of_cloned hw
  simp only [Fits, number, ConfOp.edit_logIdx, ConfOp.edit_prevLogIdx]
  exact ⟨rfl, hlt⟩

end ConfWriter

namespace ConfView

variable {v u : ConfView} {op : ConfOp}

theorem mem_confs {c : ClusterConfig} : c ∈ v.confs ↔
    c = v.config ∨ v.uncommitted = some c ∨ ∃ e ∈ v.log.entries, e.conf? = some c := by
  simp [confs]

theorem Inside.base (h : v.Inside) (op : ConfOp) : (op.base v).logIdx < v.log.nextSlot := by
  have hrecorded : (v.uncommitted.getD v.config).logIdx < v.log.nextSlot := by
    cases hunc : v.uncommitted with
    | none => exact h _ (mem_confs.mpr (.inl rfl))
    | some c => exact h c (mem_confs.mpr (.inr (.inl hunc)))
  cases op with
  | addServer | removeServer | setPriority => exact hrecorded
  | becomeLeader =>
    refine h _ (mem_confs.mpr ?_)
    -- the last pending configuration is one of the log's, if there is one
    have hlastD (cs : List ClusterConfig) : cs.getLastD v.config = v.config ∨
        cs.getLastD v.config ∈ cs := mem_cons.mp getLastD_mem_cons
    rcases hlastD _ with hnone | hlast
    · exact .inl hnone
    · obtain ⟨e, he, hc⟩ := mem_filterMap.mp hlast
      exact .inr (.inr ⟨e, mem_of_mem_drop he, hc⟩)
  | _ => exact h _ (mem_confs.mpr (.inl rfl))

theorem Inside.of_confs (h : v.Inside) (hslot : v.log.nextSlot ≤ u.log.nextSlot)
    (hnew : ∀ c ∈ u.confs, c ∈ v.confs ∨ c.logIdx < u.log.nextSlot) : u.Inside := by
  intro c hc
  rcases hnew c hc with hold | hlt
  · exact Nat.lt_of_lt_of_le (h c hold) hslot
  · exact hlt

theorem Inside.append (h : v.Inside) (term : Nat) (buf : Bytes) :
    Inside { v with log := v.log.append ⟨term, .appLog buf⟩ } := by
  refine h.of_confs (by simp) ?_
  intro c hc
  rcases mem_confs.mp hc with hcur | hrec | ⟨e, he, hconf⟩
  · exact .inl (mem_confs.mpr (.inl hcur))
  · exact .inl (mem_confs.mpr (.inr (.inl hrec)))
  · rcases mem_append.mp he with hold | hnew
    · exact .inl (mem_confs.mpr (.inr (.inr ⟨e, hold, hconf⟩)))
    · rw [mem_singleton.mp hnew] at hconf
      cases hconf

theorem Inside.store (h : v.Inside) {w : ConfWriter} (hw : w.conf.logIdx = v.log.nextSlot)
    (term : Nat) : (v.store w term).Inside := by
  have hslot : (v.store w term).log.nextSlot = v.log.nextSlot + 1 := LogStore.append_nextSlot _ _
  have hnew : w.conf.logIdx < (v.store w term).log.nextSlot := by omega
  refine h.of_confs (by omega) ?_
  intro c hc
  rcases mem_confs.mp hc with hcur | hrec | ⟨e, he, hconf⟩
  · exact .inl (mem_confs.mpr (.inl hcur))
  · unfold ConfView.store at hrec
    split at hrec
    · cases hrec
      exact .inr hnew
    · exact .inl (mem_confs.mpr (.inr (.inl hrec)))
  · rcases mem_append.mp he with hold | hlast
    · exact .inl (mem_confs.mpr (.inr (.inr ⟨e, hold, hconf⟩)))
    · rw [mem_singleton.mp hlast] at hconf
      cases hconf
      exact .inr hnew

theorem Inside.commitConf (h : v.Inside) {i : Nat} {e : LogEntry} {c : ClusterConfig}
    (he : v.log.entryAt i = some e) (hc : e.conf? = some c) : (v.commitConf c).Inside := by
  have hmem : e ∈ v.log.entries := by
    rw [LogStore.entryAt_eq_some_iff] at he
    exact mem_of_getElem? he.2
  refine h.of_confs le_rfl ?_
  intro d hd
  refine .inl ?_
  rcases mem_confs.mp hd with hcur | hrec | hlog
  · unfold ConfView.commitConf at hcur
    split at hcur
    · exact mem_confs.mpr (.inr (.inr ⟨e, hmem, hcur ▸ hc⟩))
    · exact mem_confs.mpr (.inl hcur)
  · refine mem_confs.mpr (.inr (.inl ?_))
    unfold ConfView.commitConf at hrec
    split at hrec
    · exact (Option.filter_eq_some_iff.mp hrec).1
    · exact hrec
  · exact mem_confs.mpr (.inr (.inr hlog))

theorem Inside.compact (h : v.Inside) (k : Nat) : Inside { v with log := v.log.compact k } := by
  refine h.of_confs (LogStore.compact_nextSlot_ge _ _) ?_
  intro c hc
  rcases mem_confs.mp hc with hcur | hrec | ⟨e, he, hconf⟩
  · exact .inl (mem_confs.mpr (.inl hcur))
  · exact .inl (mem_confs.mpr (.inr (.inl hrec)))
  · exact .inl (mem_confs.mpr (.inr (.inr ⟨e, LogStore.mem_compact he, hconf⟩)))

theorem Inside.editPriority (h : v.Inside) (id priority : Int) : Inside { v with
      config := v.config.mapServer id (fun sc => { sc with priority := priority }) } := by
  intro c hc
  rcases mem_confs.mp hc with hcur | hrec | hlog
  · rw [hcur]
    exact h v.config (mem_confs.mpr (.inl rfl))
  · exact h c (mem_confs.mpr (.inr (.inl hrec)))
  · exact h c (mem_confs.mpr (.inr (.inr hlog)))

end ConfView

namespace ConfThreads

variable {x y : ConfThreads} {a : Action}

structure Inv (x : ConfThreads) : Prop where
  inside : x.view.Inside
  locked : ∀ w ∈ x.locked, w.Fits x.view.log.nextSlot
  free : ∀ w ∈ x.free, w.Fits x.view.log.nextSlot

theorem Inv.setView (hx : x.Inv) {v : ConfView} (hv : v.Inside)
    (hslot : v.log.nextSlot = x.view.log.nextSlot) : (x.setView v).Inv := by
  refine ⟨hv, ?_, ?_⟩
  · intro w hw
    show w.Fits v.log.nextSlot
    rw [hslot]
    exact hx.locked w hw
  · intro w hw
    show w.Fits v.log.nextSlot
    rw [hslot]
    exact hx.free w hw

theorem Inv.grow (hx : x.Inv) {v : ConfView} {l : Option ConfWriter} {ws : List ConfWriter}
    (hv : v.Inside) (hslot : x.view.log.nextSlot ≤ v.log.nextSlot)
    (hl : ∀ w ∈ l, w ∈ x.locked ∧ w.numbered = false)
    (hws : ∀ w ∈ ws, w ∈ x.free ∧ w.numbered = false) :
    Inv { x with view := v, locked := l, free := ws } := by
  refine ⟨hv, ?_, ?_⟩
  · intro w hw
    obtain ⟨hmem, hnum⟩ := hl w hw
    exact (hx.locked w hmem).mono hnum hslot
  · intro w hw
    obtain ⟨hmem, hnum⟩ := hws w hw
    exact (hx.free w hmem).mono hnum hslot

/-! ### One step of a thread -/

theorem Inv.clone (hx : x.Inv) (op : ConfOp) :
    ConfWriter.Fits { op := op, conf := op.base x.view } x.view.log.nextSlot :=
  ConfWriter.fits_of_cloned rfl (hx.inside.base op)

theorem Inv.numberFree (hx : x.Inv) {k : Nat} {w : ConfWriter} (hw : x.free[k]? = some w)
    (hnum : w.numbered = false) :
    Inv { x with free := x.free.set k (w.number x.view.log.nextSlot) } := by
  refine ⟨hx.inside, hx.locked, ?_⟩
  intro w' hw'
  rcases mem_or_eq_of_mem_set hw' with hold | rfl
  · exact hx.free w' hold
  · exact ConfWriter.number_fits (hx.free w (mem_of_getElem? hw)) hnum

theorem Inv.appended (hx : x.Inv) {v : ConfView} {e : LogEntry} {l : Option ConfWriter}
    {ws : List ConfWriter} (hv : v.Inside) (hlog : v.log = x.view.log.append e)
    (hl : ∀ w ∈ l, w ∈ x.locked ∧ w.numbered = false)
    (hws : ∀ w ∈ ws, w ∈ x.free ∧ w.numbered = false) :
    Inv { x with view := v, locked := l, free := ws } := by
  refine hx.grow hv ?_ hl hws
  rw [hlog, LogStore.append_nextSlot]
  exact Nat.le_succ _

theorem Inv.storeLocked (hx : x.Inv) {w : ConfWriter} (hw : w ∈ x.locked) (hnum : w.numbered = true)
    (halone : ∀ w ∈ x.free, w.numbered = false) (term : Nat) :
    Inv { x with view := x.view.store w term, locked := none } :=
  hx.appended (hx.inside.store ((hx.locked w hw).of_numbered hnum).1 term) rfl
    (fun _ hw' => nomatch hw') (fun w' hw' => ⟨hw', halone w' hw'⟩)

theorem Inv.storeFree (hx : x.Inv) {k : Nat} {w : ConfWriter} (hw : x.free[k]? = some w)
    (hnum : w.numbered = true)
    (halone : ∀ w ∈ x.locked.toList ++ x.free.eraseIdx k, w.numbered = false) (term : Nat) :
    Inv { x with view := x.view.store w term, free := x.free.eraseIdx k } := by
  have hfits := (hx.free w (mem_of_getElem? hw)).of_numbered hnum
  refine hx.appended (hx.inside.store hfits.1 term) rfl ?_ ?_
  · intro w' hw'
    exact ⟨hw', halone w' (mem_append_left _ (Option.mem_toList.mpr hw'))⟩
  · intro w' hw'
    exact ⟨mem_of_mem_eraseIdx hw', halone w' (mem_append_right _ hw')⟩

theorem Inv.moveEnd (hx : x.Inv) {v : ConfView} (hv : v.Inside)
    (hslot : x.view.log.nextSlot ≤ v.log.nextSlot)
    (halone : ∀ w ∈ x.locked.toList ++ x.free, w.numbered = false) : (x.setView v).Inv := by
  refine hx.grow hv hslot ?_ ?_
  · intro w hw
    exact ⟨hw, halone w (mem_append_left _ (Option.mem_toList.mpr hw))⟩
  · intro w hw
    exact ⟨hw, halone w (mem_append_right _ hw)⟩

theorem Inv.compact (hx : x.Inv) {k : Nat}
    (halone : ∀ w ∈ x.others (.compact k), w.numbered = false) :
    (x.setView { x.view with log := x.view.log.compact k }).Inv := by
  by_cases hk : k < x.view.log.nextSlot
  · exact hx.setView (hx.inside.compact k) (LogStore.compact_nextSlot hk)
  · -- the whole log is gone, and the next entry comes after the snapshot
    rw [others, if_neg hk] at halone
    exact hx.moveEnd (hx.inside.compact k) (LogStore.compact_nextSlot_ge _ _) halone

theorem follow_inv {v : ConfView} (hnone : x.locked = none)
    (hcond : x.Undisturbed (.follow v)) : (x.setView v).Inv := by
  obtain ⟨hinside, hfree⟩ := hcond.received
  refine ⟨hinside, (fun w hw => nomatch hnone.symm.trans hw), ?_⟩
  intro w hw
  have hnum := hcond.alone w (mem_append_right _ hw)
  exact ConfWriter.fits_of_cloned hnum (hfree w hw)

theorem next_inv (hx : x.Inv) (hcond : x.Undisturbed a) (h : x.next a = some y) : y.Inv := by
  have hlog (v : ConfView) (hconfs : v.confs = x.view.confs) (hsame : v.log = x.view.log) :
      (x.setView v).Inv := by
    refine hx.setView ?_ (by rw [hsame])
    rw [ConfView.Inside, hconfs, hsame]
    exact hx.inside
  have halone := hcond.alone
  cases a with
  | lock op =>
    obtain ⟨-, ⟨⟩⟩ := Option.ite_none_right_eq_some.mp h
    refine ⟨hx.inside, ?_, hx.free⟩
    rintro w ⟨⟩
    exact hx.clone op
  | numberLocked =>
    simp only [next] at h
    split at h
    · next w hw =>
      obtain ⟨hnum, ⟨⟩⟩ := Option.ite_none_left_eq_some.mp h
      refine ⟨hx.inside, ?_, hx.free⟩
      rintro w' ⟨⟩
      exact ConfWriter.number_fits (hx.locked w hw) (by simpa using hnum)
    · cases h
  | storeLocked term =>
    simp only [next] at h
    split at h
    · next w hw =>
      obtain ⟨hnum, ⟨⟩⟩ := Option.ite_none_right_eq_some.mp h
      exact hx.storeLocked hw hnum halone term
    · cases h
  | call op =>
    obtain ⟨-, ⟨⟩⟩ := Option.ite_none_right_eq_some.mp h
    refine ⟨hx.inside, hx.locked, ?_⟩
    intro w hw
    rcases mem_append.mp hw with hold | hnew
    · exact hx.free w hold
    · exact mem_singleton.mp hnew ▸ hx.clone op
  | number k =>
    simp only [next] at h
    split at h
    · next w hw =>
      obtain ⟨hnum, ⟨⟩⟩ := Option.ite_none_left_eq_some.mp h
      exact hx.numberFree hw (by simpa using hnum)
    · cases h
  | store k term =>
    simp only [next] at h
    split at h
    · next w hw =>
      obtain ⟨hnum, ⟨⟩⟩ := Option.ite_none_right_eq_some.mp h
      exact hx.storeFree hw hnum halone term
    · cases h
  | client term buf =>
    obtain ⟨-, ⟨⟩⟩ := Option.ite_none_right_eq_some.mp h
    refine hx.moveEnd (hx.inside.append term buf) ?_ halone
    exact Nat.le_of_lt (LogStore.append_nextSlot _ _ ▸ Nat.lt_succ_self _)
  | commitNext =>
    simp only [next] at h
    split at h
    · cases h
    next e he =>
    split at h
    · cases h
      exact hlog _ rfl rfl
    next c hc =>
    obtain ⟨-, ⟨⟩⟩ := Option.ite_none_right_eq_some.mp h
    exact hx.setView (hx.inside.commitConf he hc) rfl
  | adjustCommit =>
    cases h
    exact hlog _ rfl rfl
  | compact k =>
    cases h
    exact hx.compact halone
  | editPriority id priority =>
    obtain ⟨-, ⟨⟩⟩ := Option.ite_none_right_eq_some.mp h
    exact hx.setView (hx.inside.editPriority id priority) rfl
  | joinFailed =>
    obtain ⟨-, ⟨⟩⟩ := Option.ite_none_right_eq_some.mp h
    exact hlog _ rfl rfl
  | stepDown =>
    obtain ⟨-, ⟨⟩⟩ := Option.ite_none_right_eq_some.mp h
    exact { hx with }
  | follow v =>
    obtain ⟨hguard, ⟨⟩⟩ := Option.ite_none_right_eq_some.mp h
    exact follow_inv (Option.isNone_iff_eq_none.mp hguard.1) hcond

/-! ## Every run -/

/-- A configuration that the step puts behind the log carries the index of its place and points
back. -/
def StoresOwnIndex (x y : ConfThreads) : Prop :=
  ∀ e c, y.view.log.entryAt x.view.log.nextSlot = some e → e.conf? = some c →
    c.logIdx = x.view.log.nextSlot ∧ c.prevLogIdx < x.view.log.nextSlot

theorem storesOwnIndex_of_log (h : y.view.log = x.view.log) : x.StoresOwnIndex y := by
  intro e c he
  rw [h] at he
  exact absurd (LogStore.entryAt_lt_nextSlot he) (Nat.lt_irrefl _)

theorem storesOwnIndex_of_store {w : ConfWriter} {term : Nat} (hw : w.Fits x.view.log.nextSlot)
    (hnum : w.numbered = true) (h : y.view = x.view.store w term) : x.StoresOwnIndex y := by
  intro e c he hc
  rw [h] at he
  have hnew : (x.view.store w term).log.entryAt x.view.log.nextSlot = some ⟨term, .conf w.conf⟩ :=
    LogStore.append_entryAt_nextSlot _ _
  cases hnew ▸ he
  cases hc
  exact hw.of_numbered hnum

theorem next_storesOwnIndex (hx : x.Inv) (hlead : x.leads = true) (h : x.next a = some y) :
    x.StoresOwnIndex y := by
  cases a with
  | storeLocked term =>
    simp only [next] at h
    split at h
    · next w hw =>
      split at h
      · next hnum =>
        cases h
        exact storesOwnIndex_of_store (hx.locked w hw) hnum rfl
      · cases h
    · cases h
  | store k term =>
    simp only [next] at h
    split at h
    · next w hw =>
      split at h
      · next hnum =>
        cases h
        exact storesOwnIndex_of_store (hx.free w (mem_of_getElem? hw)) hnum rfl
      · cases h
    · cases h
  | client term buf =>
    simp only [next] at h
    split at h
    · cases h
      intro e c he hc
      have hnew : (x.view.log.append ⟨term, .appLog buf⟩).entryAt x.view.log.nextSlot =
          some ⟨term, .appLog buf⟩ := LogStore.append_entryAt_nextSlot _ _
      cases hnew.symm.trans he
      cases hc
    · cases h
  | compact k =>
    cases h
    intro e c he
    have hcompact : (x.view.log.compact k).entryAt x.view.log.nextSlot = some e := he
    rw [LogStore.compact_entryAt] at hcompact
    split at hcompact
    · cases hcompact
    · exact absurd (LogStore.entryAt_lt_nextSlot hcompact) (Nat.lt_irrefl _)
  | follow v =>
    -- a leader does not follow
    simp [next, hlead] at h
  | commitNext =>
    simp only [next] at h
    split at h
    · cases h
    split at h
    · cases h
      exact storesOwnIndex_of_log rfl
    split at h
    · cases h
      exact storesOwnIndex_of_log rfl
    · cases h
  | numberLocked =>
    simp only [next] at h
    split at h
    · split at h
      · cases h
      · cases h
        exact storesOwnIndex_of_log rfl
    · cases h
  | number k =>
    simp only [next] at h
    split at h
    · split at h
      · cases h
      · cases h
        exact storesOwnIndex_of_log rfl
    · cases h
  | adjustCommit =>
    cases h
    exact storesOwnIndex_of_log rfl
  | _ =>
    simp only [next] at h
    split at h
    · cases h
      exact storesOwnIndex_of_log rfl
    · cases h

/-- A server on its own, with no thread inside an operation. -/
def alone (s : RaftServer) : ConfThreads :=
  { view := s.confView, leads := s.role == .leader }

theorem alone_fresh_inv (id : Int) (params : RaftParams) {config : ClusterConfig}
    (hidx : config.logIdx = 0) : (alone (RaftServer.fresh id params config)).Inv := by
  refine ⟨?_, (fun w hw => nomatch hw), (fun w hw => nomatch hw)⟩
  intro c hc
  rcases ConfView.mem_confs.mp hc with hcur | hrec | ⟨e, he, _⟩
  · have hzero : c.logIdx = 0 := (congrArg ClusterConfig.logIdx hcur).trans hidx
    rw [hzero]
    exact LogStore.nextSlot_pos _
  · cases hrec
  · exact nomatch he

/-- In every run of a server's threads, from its first start with a configuration that no log holds,
in which no thread is overtaken between `next_slot()` and its append. -/
theorem confs_carry_own_index {id : Int} {params : RaftParams} {config : ClusterConfig}
    (hidx : config.logIdx = 0) {as : List Action}
    (hcond : Runs.AllSteps next Undisturbed (alone (RaftServer.fresh id params config)) as) :
    Runs.AllSteps next (fun x a => ∀ y, x.next a = some y → x.leads = true → x.StoresOwnIndex y)
      (alone (RaftServer.fresh id params config)) as := by
  have hinv := Runs.allSteps_of_invariant (I := Inv)
    (fun x a y hx hstep hy => next_inv hx hstep hy) (alone_fresh_inv id params hidx) hcond
  exact hinv.imp (fun x a hx y hy hlead => next_storesOwnIndex hx hlead hy)

/-! ## A server's own steps -/

/-- The actions that an input stands for, on a server that stays in office or gets there. -/
def PerformedBy (s : RaftServer) (input : RaftServer.Input) : Action → Prop
  | .lock op | .call op => RaftServer.IssuedBy s input op
  | .numberLocked | .storeLocked _ | .number _ | .store _ _ => True
  | .client term buf => term = s.state.term ∧
    ∃ req bufs, input = .request req ∧ req.body = .clientRequest bufs ∧ buf ∈ bufs
  | .commitNext => input = .commitNext
  | .adjustCommit => input = .adjustCommit
  | .compact _ => ∃ ok, input = .snapshotCompleted ok
  | .editPriority _ _ => RaftServer.EditsInPlace s input
  | .joinFailed => ∃ dst, input = .extError dst false
  | .stepDown | .follow _ => False

/-- Actions that the input stands for lead from `x` to `y`, and no thread is overtaken. -/
def Performs (s : RaftServer) (input : RaftServer.Input) (x y : ConfThreads) : Prop :=
  ∃ as, (∀ a ∈ as, PerformedBy s input a) ∧ Runs.run next x as = some y ∧
    Runs.AllSteps next Undisturbed x as

/-- The server's step is a run of actions that its input stands for, and none is overtaken. -/
def Follows (s : RaftServer) (input : RaftServer.Input) (t : RaftServer) : Prop :=
  Performs s input (alone s) (alone t)

variable {s t : RaftServer} {input : RaftServer.Input}

theorem Performs.nil {x : ConfThreads} : Performs s input x x :=
  ⟨[], forall_mem_nil _, rfl, trivial⟩

theorem Performs.cons {x y z : ConfThreads} (ha : PerformedBy s input a) (hund : x.Undisturbed a)
    (h : x.next a = some y) (hrest : Performs s input y z) : Performs s input x z := by
  obtain ⟨as, hin, hrun, hall⟩ := hrest
  refine ⟨a :: as, forall_mem_cons.mpr ⟨ha, hin⟩, ?_, hund, fun u hu => ?_⟩
  · rwa [Runs.run_cons, h]
  · cases h.symm.trans hu
    exact hall

theorem undisturbed_of_others {x : ConfThreads} (hothers : x.others a = [])
    (hrec : x.ReceivesInside a) : x.Undisturbed a :=
  ⟨hothers ▸ forall_mem_nil _, hrec⟩

theorem undisturbed_alone (x : ConfThreads) (hlocked : x.locked = none) (hfree : x.free = [])
    (hrec : x.ReceivesInside a) : x.Undisturbed a := by
  refine undisturbed_of_others ?_ hrec
  cases a <;> simp [others, hlocked, hfree]

theorem follows_of_action (ha : PerformedBy s input a) (h : (alone s).next a = some (alone t)) :
    Follows s input t := by
  refine .cons ha (undisturbed_alone _ rfl rfl ?_) h .nil
  cases a with
  | follow v => exact ha.elim
  | _ => trivial

theorem follows_of_operation {op : ConfOp} {term : Nat} (hop : RaftServer.IssuedBy s input op)
    (hlead : (alone t).leads = ((alone s).leads || op == .becomeLeader))
    (h : t.confView = op.apply term s.confView) : Follows s input t := by
  have hend : alone t = { view := op.apply term s.confView, leads := (alone t).leads } := by
    rw [← h]
    rfl
  rw [Follows, hend, hlead]
  cases hlock : op.unlocked with
  | false =>
    refine .cons (a := .lock op) hop (undisturbed_of_others rfl trivial) (if_pos ⟨rfl, hlock⟩) ?_
    refine .cons (a := .numberLocked) trivial (undisturbed_of_others rfl trivial) rfl ?_
    exact .cons (a := .storeLocked term) trivial (undisturbed_of_others rfl trivial) rfl .nil
  | true =>
    have hne : (op == .becomeLeader) = false := by
      cases op with
      | becomeLeader => cases hlock
      | _ => rfl
    rw [hne, Bool.or_false]
    refine .cons (a := .call op) hop (undisturbed_of_others rfl trivial) (if_pos hlock) ?_
    refine .cons (a := .number 0) trivial (undisturbed_of_others rfl trivial) rfl ?_
    exact .cons (a := .store 0 term) trivial (undisturbed_of_others rfl trivial) rfl .nil

theorem follows_of_stored {req : ReqMsg} {bufs : List Bytes} (hs : s.role = .leader)
    (ht : t.role = .leader) (hin : input = .request req) (hbody : req.body = .clientRequest bufs)
    (h : t.confView = { s.confView with log := s.log.appendLoop (s.clientEntries bufs) }) :
    Follows s input t := by
  have hend : alone t = (alone s).setView
      { s.confView with log := s.log.appendLoop (s.clientEntries bufs) } := by
    rw [← h]
    simp [alone, setView, hs, ht]
  have hrun (bs : List Bytes) (hbs : bs ⊆ bufs) (x : ConfThreads) (hlocked : x.locked = none)
      (hfree : x.free = []) (hleads : x.leads = true) : Performs s input x
        (x.setView { x.view with log := x.view.log.appendLoop (s.clientEntries bs) }) := by
    induction bs generalizing x with
    | nil => exact .nil
    | cons b bs ih =>
      obtain ⟨hb, hbs⟩ := cons_subset.mp hbs
      refine .cons (a := .client s.state.term b) ⟨rfl, req, bufs, hin, hbody, hb⟩
        (undisturbed_alone x hlocked hfree trivial) ?_ (ih hbs (x.setView { x.view with
          log := x.view.log.append ⟨s.state.term, .appLog b⟩ }) hlocked hfree hleads)
      simp [next, hleads, cliLocked, hlocked]
  rw [Follows, hend]
  exact hrun bufs (Subset.refl bufs) (alone s) rfl rfl (by simp [alone, hs])

/-- Every step that leaves a server in office, of a server that is not catching up. -/
theorem step_threads {env : Env} {o : Output} (h : s.step env input = some (t, o))
    (hlead : t.role = .leader) (hcatch : s.state.catchingUp = false) : Follows s input t := by
  have hend {v : ConfView} (hr : t.role = s.role) (hview : t.confView = v) :
      alone t = (alone s).setView v := by
    simp [alone, setView, hr, hview]
  cases RaftServer.step_confStep h with
  | kept hkept =>
    obtain ⟨hs, hview⟩ := hkept hlead
    have hsame : alone t = alone s := by simp [alone, hview, hs, hlead]
    rw [Follows, hsame]
    exact .nil
  | stored req bufs hin hbody hs hview => exact follows_of_stored hs hlead hin hbody hview
  | operation op term hop hr hview =>
    refine follows_of_operation hop ?_ hview
    simp [alone, hr hlead, hlead]
  | elected term hop hview =>
    refine follows_of_operation hop ?_ hview
    simp [alone, hlead]
  | applied e hin hr he hconf hview =>
    refine follows_of_action (a := .commitNext) hin ?_
    have he' : (alone s).view.log.entryAt ((alone s).view.applied + 1) = some e := he
    simp only [next, he', hconf]
    rw [hend hr hview]
    rfl
  | appliedConf e c hin hr he hconf hview =>
    refine follows_of_action (a := .commitNext) hin ?_
    have he' : (alone s).view.log.entryAt ((alone s).view.applied + 1) = some e := he
    simp only [next, he', hconf]
    rw [hend hr hview]
    rfl
  | skipped hin hr hview =>
    refine follows_of_action (a := .adjustCommit) hin ?_
    rw [hend hr hview]
    rfl
  | compacted ok k hin hr hview =>
    refine follows_of_action (a := .compact k) ⟨ok, hin⟩ ?_
    rw [hend hr hview]
    rfl
  | editedInPlace id priority hin hr hview =>
    refine follows_of_action (a := .editPriority id priority) hin ?_
    rw [hend hr hview]
    rfl
  | joinFailed dst hin hr hview =>
    refine follows_of_action (a := .joinFailed) ⟨dst, hin⟩ ?_
    rw [hend hr hview]
    rfl
  | synced _ _ _ _ _ hc =>
    cases hcatch ▸ hc

theorem election_threads :
    ∃ r ∈ (RaftServer.fresh 1 {} { servers := [{ id := 1 }] }).step {} .electionTimeout,
      Follows (RaftServer.fresh 1 {} { servers := [{ id := 1 }] }) .electionTimeout r.1 := by
  obtain ⟨r, hstep, hlead⟩ : ∃ r ∈ (RaftServer.fresh 1 {} { servers := [{ id := 1 }] }).step {}
    .electionTimeout, r.1.role = .leader := by decide +kernel
  exact ⟨r, hstep, step_threads hstep hlead rfl⟩

end ConfThreads

/-! ## A run that meets the condition -/

/-- The server is elected; a client's entry is stored while a user context is being set, before the
thread asks for the next index, and a priority is set after that. -/
def writersTakeTurns : List ConfThreads.Action :=
  [.lock .becomeLeader, .numberLocked, .storeLocked 1, .commitNext,
    .call (.setUserCtx [7]), .client 1 [8], .number 0, .store 0 1,
    .lock (.setPriority 2 5), .numberLocked, .storeLocked 1]

theorem writersTakeTurns_carry_own_index :
    ((Runs.run ConfThreads.next (.alone (RaftServer.fresh 1 {} threeServers))
      writersTakeTurns).map (fun x => x.view.log.entries.map (fun e =>
        e.conf?.map (fun c => (c.logIdx, c.prevLogIdx))))) =
      some [some (1, 0), none, some (3, 1), some (4, 1)] ∧
    Runs.AllSteps ConfThreads.next
      (fun x a => ∀ y, x.next a = some y → x.leads = true → x.StoresOwnIndex y)
      (.alone (RaftServer.fresh 1 {} threeServers)) writersTakeTurns :=
  ⟨by decide +kernel, ConfThreads.confs_carry_own_index rfl (by decide +kernel)⟩

/-! ## Entries behind their index -/

/-- A client's entry is stored between `next_slot()` and the append of `set_priority`, which holds
`lock_`. -/
def clientComesBetween : List ConfThreads.Action :=
  writersTakeTurns.take 4 ++
    [.lock (.setPriority 2 5), .numberLocked, .client 1 [8], .storeLocked 1]

/-- Two user contexts are set at once, while nothing is locked. -/
def contextsAtOnce : List ConfThreads.Action :=
  writersTakeTurns.take 4 ++
    [.call (.setUserCtx [7]), .call (.setUserCtx [8]), .number 0, .number 1, .store 0 1, .store 0 1]

/-- The leader stores a configuration at index `3` that carries index `2`. -/
theorem conf_stored_behind_index :
    ((Runs.run ConfThreads.next (.alone (RaftServer.fresh 1 {} threeServers))
      clientComesBetween).map (fun x => (x.leads, (x.view.log.entryAt 3).bind (fun e =>
        e.conf?.map ClusterConfig.logIdx)))) = some (true, some 2) ∧
    ((Runs.run ConfThreads.next (.alone (RaftServer.fresh 1 {} threeServers))
      contextsAtOnce).map (fun x => (x.leads, (x.view.log.entryAt 3).bind (fun e =>
        e.conf?.map ClusterConfig.logIdx)))) = some (true, some 2) := by
  decide +kernel

end Raft
end Xio
