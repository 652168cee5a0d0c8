import Xio.Raft.Cluster
import Xio.Raft.ConfStep

/-!
# Raft.ConfUpdate — configuration updates that are not lost

An update is not lost if the entry that an operation appends is the operation's edit of the latest
configuration in the log. The operations start from three different places instead: the
committed configuration, the recorded uncommitted one, or the log. The first two are the latest
configuration only while nothing else is pending. `ConfInv` ties the three to the log, and
`ConfOp.base_eq_latest` says when they agree.
-/

namespace Xio
namespace Raft

open List Option RaftServer LogStore

namespace ConfView

variable {v : ConfView}

/-- The configuration that precedes the next entry: the last one in the log, applied or not. -/
def latest (v : ConfView) : ClusterConfig :=
  (v.log.entries.filterMap LogEntry.conf?).getLastD v.config

/-- No configuration entry waits to be applied. -/
def NoPending (v : ConfView) : Bool :=
  (v.log.entries.drop (v.applied + 1 - v.log.startIndex)).all (fun e => !e.isConf)

/-- The recorded configuration is the one that was appended last. -/
def RecordedLast (v : ConfView) : Bool :=
  v.uncommitted.any (fun c => c.logIdx == v.latest.logIdx)

/-- The log and the two configurations agree. -/
structure ConfInv (v : ConfView) : Prop where
  start : v.log.startIndex ≤ v.applied + 1
  next : v.applied < v.log.nextSlot
  /-- A configuration entry carries its own index. -/
  own : ∀ i e c, v.log.entryAt i = some e → e.conf? = some c → c.logIdx = i
  /-- The current configuration is applied, and it is the last applied one. -/
  config_le : v.config.logIdx ≤ v.applied
  config_last : ∀ i e c, v.log.entryAt i = some e → e.conf? = some c → i ≤ v.applied →
    i ≤ v.config.logIdx
  config_held : v.log.startIndex ≤ v.config.logIdx →
    ∃ e, v.log.entryAt v.config.logIdx = some e ∧ e.conf? = some v.config
  /-- The recorded configuration is a pending entry of the log. -/
  recorded : ∀ c, v.uncommitted = some c → v.applied < c.logIdx ∧
    ∃ e, v.log.entryAt c.logIdx = some e ∧ e.conf? = some c

/-! ## The latest configuration by index -/

theorem latest_cases (v : ConfView) :
    ((∀ i e, v.log.entryAt i = some e → e.conf? = none) ∧ v.latest = v.config) ∨
    ∃ i e, v.log.entryAt i = some e ∧ e.conf? = some v.latest ∧
      ∀ j e', i < j → v.log.entryAt j = some e' → e'.conf? = none := by
  obtain ⟨⟨start, entries, hpos⟩, applied, config, uncommitted, changing⟩ := v
  unfold latest
  induction entries using reverseRecOn with
  | nil =>
    refine .inl ⟨?_, rfl⟩
    intro i e he
    have hi := entryAt_eq_some_iff.mp he
    simp at hi
  | append_singleton es e ih =>
    let l : LogStore := ⟨start, es, hpos⟩
    have hlog : (⟨start, es ++ [e], hpos⟩ : LogStore) = l.append e := rfl
    simp only [hlog] at ih ⊢
    cases hconf : e.conf? with
    | some c =>
      refine .inr ⟨l.nextSlot, e, append_entryAt_nextSlot l e, ?_, ?_⟩
      · simp [hconf]
      · intro j e' hj he'
        have hlt := entryAt_lt_nextSlot he'
        rw [append_nextSlot] at hlt
        omega
    | none =>
      have hsame : ((es ++ [e]).filterMap LogEntry.conf?).getLastD config =
          (es.filterMap LogEntry.conf?).getLastD config := by
        simp [hconf]
      rw [hsame]
      rcases ih with ⟨hnone, heq⟩ | ⟨i, e₀, he₀, hc₀, hlast⟩
      · refine .inl ⟨?_, heq⟩
        intro j e' he'
        rcases append_entryAt_cases he' with h | ⟨_, rfl⟩
        · exact hnone j e' h
        · exact hconf
      · refine .inr ⟨i, e₀, ?_, hc₀, ?_⟩
        · rwa [append_entryAt_of_lt e (entryAt_lt_nextSlot he₀)]
        · intro j e' hj he'
          rcases append_entryAt_cases he' with h | ⟨_, rfl⟩
          · exact hlast j e' hj h
          · exact hconf

theorem ConfInv.eq_latest (hv : ConfInv v) {i : Nat} {e : LogEntry} {c : ClusterConfig}
    (he : v.log.entryAt i = some e) (hc : e.conf? = some c) (hidx : c.logIdx = v.latest.logIdx) :
    c = v.latest := by
  rcases latest_cases v with ⟨hnone, _⟩ | ⟨j, e', he', hc', _⟩
  · rw [hnone i e he] at hc
    cases hc
  · have hi := hv.own i e c he hc
    have hj := hv.own j e' _ he' hc'
    have hij : i = j := by omega
    rw [hij, he'] at he
    cases he
    exact some.inj (hc.symm.trans hc')

theorem ConfInv.latest_of_applied (hv : ConfInv v)
    (h : ∀ i e, v.log.entryAt i = some e → v.applied < i → e.conf? = none) :
    v.latest = v.config := by
  rcases latest_cases v with ⟨_, heq⟩ | ⟨i, e, he, hc, hlast⟩
  · exact heq
  · have hle : i ≤ v.applied := by
      by_contra hgt
      rw [h i e he (by omega)] at hc
      cases hc
    have hcfg := hv.config_last i e _ he hc hle
    have hstart := (entryAt_eq_some_iff.mp he).1
    obtain ⟨e', he', hc'⟩ := hv.config_held (hstart.trans hcfg)
    -- nothing configures after the last entry, so the current one is that entry
    rcases Nat.lt_or_eq_of_le hcfg with hlt | heq
    · rw [hlast _ e' hlt he'] at hc'
      cases hc'
    · rw [← heq, he] at he'
      cases he'
      exact some.inj (hc.symm.trans hc')

theorem entry_not_conf_of_noPending (hv : ConfInv v) (h : v.NoPending = true) {i : Nat}
    {e : LogEntry} (he : v.log.entryAt i = some e) (hi : v.applied < i) : e.conf? = none := by
  have hstart := hv.start
  obtain ⟨hle, hget⟩ := entryAt_eq_some_iff.mp he
  have hmem : e ∈ v.log.entries.drop (v.applied + 1 - v.log.startIndex) := by
    refine mem_of_getElem? (i := i - (v.applied + 1)) ?_
    rw [getElem?_drop]
    have hidx : v.applied + 1 - v.log.startIndex + (i - (v.applied + 1)) = i - v.log.startIndex := by
      omega
    rwa [hidx]
  have hall := all_eq_true.mp h e hmem
  simpa [LogEntry.isConf] using hall

theorem ConfInv.latest_of_noPending (hv : ConfInv v) (h : v.NoPending = true) :
    v.latest = v.config :=
  hv.latest_of_applied (fun _ _ he hi => entry_not_conf_of_noPending hv h he hi)

theorem ConfInv.lastConfigInLog_eq (hv : ConfInv v) : v.lastConfigInLog = v.latest := by
  have hstart := hv.start
  let k := v.applied + 1 - v.log.startIndex
  have hk : max (v.applied + 1) v.log.startIndex - v.log.startIndex = k := by omega
  have hlast : v.lastConfigInLog =
      ((v.log.entries.drop k).filterMap LogEntry.conf?).getLastD v.config := by
    simp only [lastConfigInLog, hk]
  by_cases hnil : (v.log.entries.drop k).filterMap LogEntry.conf? = []
  · rw [hlast, hnil]
    symm
    refine hv.latest_of_applied ?_
    intro i e he hi
    obtain ⟨hle, hget⟩ := entryAt_eq_some_iff.mp he
    refine filterMap_eq_nil_iff.mp hnil e ?_
    refine mem_of_getElem? (i := i - (v.applied + 1)) ?_
    rw [getElem?_drop]
    have hidx : k + (i - (v.applied + 1)) = i - v.log.startIndex := by omega
    rwa [hidx]
  · -- a pending configuration is the last one of the whole log
    have hsplit : v.log.entries.filterMap LogEntry.conf? =
        (v.log.entries.take k).filterMap LogEntry.conf? ++
          (v.log.entries.drop k).filterMap LogEntry.conf? := by
      rw [← filterMap_append, take_append_drop]
    rw [hlast]
    rw [latest, hsplit, getLastD_eq_getLast?, getLastD_eq_getLast?,
      getLast?_append_of_ne_nil _ hnil]

/-! ## The invariant along a tenure -/

theorem ConfInv.append {e : LogEntry} (hv : ConfInv v)
    (he : ∀ c, e.conf? = some c → c.logIdx = v.log.nextSlot) :
    ConfInv { v with log := v.log.append e } where
  start := hv.start
  next := by
    have hnext := hv.next
    simp only [append_nextSlot]
    omega
  own := by
    intro i e' c he' hc
    rcases append_entryAt_cases he' with h | ⟨rfl, rfl⟩
    · exact hv.own i e' c h hc
    · exact he c hc
  config_le := hv.config_le
  config_last := by
    intro i e' c he' hc hi
    rcases append_entryAt_cases he' with h | ⟨rfl, rfl⟩
    · exact hv.config_last i e' c h hc hi
    · exact absurd hi (Nat.not_le.mpr hv.next)
  config_held := by
    intro hstart
    obtain ⟨e', he', hc'⟩ := hv.config_held hstart
    refine ⟨e', ?_, hc'⟩
    simp only [append_entryAt_of_lt e (entryAt_lt_nextSlot he'), he']
  recorded := by
    intro c hc
    obtain ⟨hlt, e', he', hc'⟩ := hv.recorded c hc
    refine ⟨hlt, e', ?_, hc'⟩
    simp only [append_entryAt_of_lt e (entryAt_lt_nextSlot he'), he']

theorem ConfInv.appendLoop {es : List LogEntry} (hv : ConfInv v)
    (hes : ∀ e ∈ es, e.isConf = false) :
    ConfInv { v with log := v.log.appendLoop es } := by
  induction es generalizing v with
  | nil => exact hv
  | cons e es ih =>
    have hnone : e.conf? = none := by
      simpa [LogEntry.isConf] using hes e mem_cons_self
    have hv' : ConfInv { v with log := v.log.append e } :=
      hv.append (fun c hc => by rw [hnone] at hc; cases hc)
    exact ih hv' (fun e' he' => hes e' (mem_cons_of_mem e he'))

theorem ConfInv.applied {e : LogEntry} (hv : ConfInv v)
    (he : v.log.entryAt (v.applied + 1) = some e) (hconf : e.conf? = none) :
    ConfInv { v with applied := v.applied + 1 } where
  start := Nat.le_succ_of_le hv.start
  next := entryAt_lt_nextSlot he
  own := hv.own
  config_le := Nat.le_succ_of_le hv.config_le
  config_last := by
    intro i e' c he' hc hi
    rcases Nat.lt_or_eq_of_le hi with hlt | heq
    · exact hv.config_last i e' c he' hc (Nat.le_of_lt_succ hlt)
    · rw [heq, he] at he'
      cases he'
      cases hconf ▸ hc
  config_held := hv.config_held
  recorded := by
    intro c hc
    obtain ⟨hlt, e', he', hc'⟩ := hv.recorded c hc
    refine ⟨?_, e', he', hc'⟩
    rcases Nat.lt_or_eq_of_le (Nat.succ_le_of_lt hlt) with hlt' | heq
    · exact hlt'
    · -- the applied entry is no configuration
      rw [← heq, he] at he'
      cases he'
      cases hconf ▸ hc'

theorem ConfInv.appliedConf {e : LogEntry} {c : ClusterConfig} (hv : ConfInv v)
    (he : v.log.entryAt (v.applied + 1) = some e) (hconf : e.conf? = some c) :
    ConfInv { v with
      applied := v.applied + 1
      config := c
      uncommitted := v.uncommitted.filter (fun u => u.logIdx != c.logIdx)
      changing := false } := by
  have hidx := hv.own _ e c he hconf
  refine ⟨Nat.le_succ_of_le hv.start, entryAt_lt_nextSlot he, hv.own, hidx.le, ?_, ?_, ?_⟩
  · intro i _ _ _ _ hi
    exact hidx ▸ hi
  · intro _
    exact ⟨e, by simpa only [hidx] using he, hconf⟩
  · intro u hu
    obtain ⟨hu', hne⟩ := filter_eq_some_iff.mp hu
    obtain ⟨hlt, e', he', hc'⟩ := hv.recorded u hu'
    refine ⟨?_, e', he', hc'⟩
    have hne' : u.logIdx ≠ c.logIdx := by simpa using hne
    simp only
    omega

end ConfView

namespace ConfOp

variable {v : ConfView}

@[simp] theorem newConf_logIdx (op : ConfOp) (v : ConfView) :
    (op.newConf v).logIdx = v.log.nextSlot := by
  cases op <;> rfl

theorem newConf_prevLogIdx (op : ConfOp) (v : ConfView) :
    (op.newConf v).prevLogIdx = (op.base v).logIdx := by
  cases op <;> rfl

theorem apply_confInv (op : ConfOp) (term : Nat) (hv : v.ConfInv) : (op.apply term v).ConfInv := by
  have happ : ConfView.ConfInv { v with log := v.log.append ⟨term, .conf (op.newConf v)⟩ } := by
    refine hv.append ?_
    intro c hc
    cases hc
    exact newConf_logIdx op v
  refine { happ with recorded := ?_ }
  intro c hc
  unfold apply at hc ⊢
  split at hc
  · cases hc
    rw [newConf_logIdx]
    exact ⟨hv.next, _, append_entryAt_nextSlot _ _, rfl⟩
  · exact happ.recorded c hc

/-- The operation starts from the recorded configuration if there is one. -/
def startsFromRecorded : ConfOp → Bool
  | addServer _ | removeServer _ | setPriority _ _ => true
  | _ => false

/-- When the configuration that the code starts from is the latest one. -/
theorem base_eq_latest (op : ConfOp) (hv : v.ConfInv) (h : op = becomeLeader ∨ v.NoPending = true ∨
      op.startsFromRecorded = true ∧ v.RecordedLast = true) : op.base v = v.latest := by
  rcases h with rfl | hno | ⟨hstarts, hlast⟩
  · exact hv.lastConfigInLog_eq
  · have hconfig := hv.latest_of_noPending hno
    have hnone : v.uncommitted = none := by
      cases hunc : v.uncommitted with
      | none => rfl
      | some c =>
        -- a recorded configuration would be pending
        obtain ⟨hlt, e, he, hc⟩ := hv.recorded c hunc
        rw [ConfView.entry_not_conf_of_noPending hv hno he hlt] at hc
        cases hc
    cases op with
    | becomeLeader => exact hv.lastConfigInLog_eq
    | _ => simp [base, hnone, hconfig]
  · unfold ConfView.RecordedLast at hlast
    have hbase : op.base v = v.uncommitted.getD v.config := by
      cases op with
      | addServer | removeServer | setPriority => rfl
      | _ => cases hstarts
    cases hunc : v.uncommitted with
    | none =>
      cases hunc ▸ hlast
    | some u =>
      obtain ⟨_, e, he, hc⟩ := hv.recorded u hunc
      rw [hunc] at hlast
      rw [hbase, hunc, getD_some]
      exact hv.eq_latest he hc (by simpa using hlast)

end ConfOp

namespace RaftServer

variable {s t u : RaftServer} {input : Input}

/-- A configuration that the step appends is the edit, by the operation that the input stands for,
of the latest configuration in the log, and it points back to it. -/
def AppendsLatest (s t : RaftServer) (input : Input) : Prop :=
  t.role = .leader → ∀ e c, t.log.entryAt s.log.nextSlot = some e → e.conf? = some c →
    (∃ op, IssuedBy s input op ∧ c = op.edit (s.confView.latest.setLogIdx s.log.nextSlot)) ∧
      c.prevLogIdx = s.confView.latest.logIdx

/-- Configuration operations, elections, client requests and commits: everything but snapshots and
log packs. -/
def TenureInput : Input → Bool
  | .snapshotCompleted _ => false
  | .request req =>
    match req.body with
    | .syncLog _ => false
    | _ => true
  | _ => true

/-- The operation that a leader has appended was issued when all configurations were applied, or it
starts from a record and that was of the last one. No priority was written in place. -/
structure NothingElsePending (s t : RaftServer) (input : Input) : Prop where
  issued : ∀ op term, IssuedBy s input op → t.confView = op.apply term s.confView →
    op = .becomeLeader ∨ s.confView.NoPending = true ∨
      op.startsFromRecorded = true ∧ s.confView.RecordedLast = true
  inPlace : EditsInPlace s input → t.config = s.config

theorem appendsLatest_of_log (h : t.role = .leader → t.log = s.log) (input : Input) :
    AppendsLatest s t input := by
  intro hl e c he
  rw [h hl] at he
  exact absurd (entryAt_lt_nextSlot he) (Nat.lt_irrefl _)

theorem appendsLatest_of_apply {op : ConfOp} {term : Nat}
    (hv : s.confView.ConfInv) (hiss : IssuedBy s input op)
    (hok : t.role = .leader → NothingElsePending s t input)
    (h : t.confView = op.apply term s.confView) : AppendsLatest s t input := by
  have hlog : t.log = s.log.append ⟨term, .conf (op.newConf s.confView)⟩ :=
    congrArg ConfView.log h
  intro hlead e c he hc
  have hbase := op.base_eq_latest hv ((hok hlead).issued op term hiss h)
  rw [hlog, append_entryAt_nextSlot] at he
  cases he
  cases hc
  refine ⟨⟨op, hiss, ?_⟩, ?_⟩
  · rw [← hbase]
    rfl
  · rw [ConfOp.newConf_prevLogIdx, hbase]

theorem step_appendsLatest {env : Env} {o : Output} (hv : s.confView.ConfInv)
    (hin : TenureInput input = true) (hok : t.role = .leader → NothingElsePending s t input)
    (hstep : s.step env input = some (t, o)) :
    (t.role = .leader → t.confView.ConfInv) ∧ AppendsLatest s t input := by
  have hsame {v : ConfView} (hlog : v.log = s.log) (h : t.confView = v) : AppendsLatest s t input :=
    appendsLatest_of_log (fun _ => (congrArg ConfView.log h).trans hlog) input
  cases step_confStep hstep with
  | kept h =>
    refine ⟨fun hl => ?_, appendsLatest_of_log (fun hl => ?_) input⟩
    · rwa [(h hl).2]
    · exact congrArg ConfView.log (h hl).2
  | stored _ bufs _ _ _ h =>
    refine ⟨fun _ => ?_, ?_⟩
    · rw [h]
      exact hv.appendLoop (fun _ => isConf_of_mem_clientEntries)
    · -- what was stored is no configuration
      intro _ e c he hc
      have hlog : t.log = s.log.appendLoop (s.clientEntries bufs) := congrArg ConfView.log h
      rw [hlog] at he
      rcases appendLoop_entryAt_cases he with hold | hmem
      · exact absurd (entryAt_lt_nextSlot hold) (Nat.lt_irrefl _)
      · have hno := isConf_of_mem_clientEntries hmem
        rw [LogEntry.isConf, hc] at hno
        cases hno
  | operation op term hiss _ h =>
    refine ⟨fun _ => ?_, appendsLatest_of_apply hv hiss hok h⟩
    rw [h]
    exact op.apply_confInv term hv
  | elected term hiss h =>
    refine ⟨fun _ => ?_, appendsLatest_of_apply hv hiss hok h⟩
    rw [h]
    exact ConfOp.becomeLeader.apply_confInv term hv
  | applied e _ _ he hconf h =>
    refine ⟨fun _ => ?_, hsame rfl h⟩
    rw [h]
    exact hv.applied he hconf
  | appliedConf e c _ _ he hconf h =>
    refine ⟨fun _ => ?_, hsame rfl h⟩
    -- the configuration is newer than the current one
    have hidx := hv.own _ e c he hconf
    have hle : s.config.logIdx ≤ s.smCommitIndex := hv.config_le
    have hlt : s.config.logIdx < c.logIdx := by
      rw [hidx]
      exact Nat.lt_succ_of_le hle
    rw [h, if_pos hlt, if_pos hlt]
    exact hv.appliedConf he hconf
  | skipped _ _ h =>
    refine ⟨fun _ => ?_, hsame rfl h⟩
    have hstart : s.log.startIndex ≤ s.smCommitIndex + 1 := hv.start
    rwa [h, Nat.max_eq_left (by omega)]
  | compacted ok k hsnp _ h =>
    cases hsnp ▸ hin
  | editedInPlace id priority hedit _ h =>
    refine ⟨fun hlead => ?_, hsame rfl h⟩
    have hconf : s.config.mapServer id (fun sc => { sc with priority := priority }) = s.config :=
      (congrArg ConfView.config h).symm.trans ((hok hlead).inPlace hedit)
    rw [h, hconf]
    exact hv
  | joinFailed dst _ _ h =>
    refine ⟨fun _ => ?_, hsame rfl h⟩
    rw [h]
    exact { hv with }
  | synced req pack hreq hbody _ _ =>
    rw [hreq] at hin
    simp [TenureInput, hbody] at hin

/-- While the server does not lead, its log and configurations are taken to agree; what it does
then is not configuration work of its own. -/
def TenureStep (s : RaftServer) (input : Input) : Prop :=
  TenureInput input = true ∧ (s.role ≠ .leader → s.confView.ConfInv)

/-- In every run of configuration operations, elections and commits in which nothing else is
pending when an operation is issued, no update is lost. -/
theorem confUpdates_not_lost {as : List (Env × Input)} {a : Env × Input} {o : Output}
    (hs : s.confView.ConfInv)
    (hrun : Runs.AllSteps next (fun v b => TenureStep v b.2) s (as ++ [a]))
    (hok : Runs.AllSteps next (fun v b => ∀ w, v.next b = some w → w.role = .leader →
      NothingElsePending v w b.2) s (as ++ [a]))
    (hu : Runs.run next s as = some u) (hstep : u.step a.1 a.2 = some (t, o)) :
    AppendsLatest u t a.2 := by
  have hcond := hrun.and hok
  have hview : ∀ (v : RaftServer) (b : Env × Input), TenureStep v b.2 →
      (v.role = .leader → v.confView.ConfInv) → v.confView.ConfInv := by
    intro v b htenure hv
    by_cases hl : v.role = .leader
    · exact hv hl
    · exact htenure.2 hl
  have hinv : u.role = .leader → u.confView.ConfInv := by
    refine Runs.invariant_of_allSteps (I := fun v => v.role = .leader → v.confView.ConfInv) ?_
      (fun _ => hs) hcond.left hu
    intro v b w hv hP hw
    obtain ⟨o', ho'⟩ := next_eq_some.mp hw
    exact (step_appendsLatest (hview v b hP.1 hv) hP.1.1 (hP.2 w hw) ho').1
  have hlast := (hcond.suffix hu).1
  exact (step_appendsLatest (hview u a hlast.1 hinv) hlast.1.1
    (hlast.2 t (next_eq_some.mpr ⟨o, hstep⟩)) hstep).2

end RaftServer

/-! ## A lost user context -/

def threeServers : ClusterConfig := { servers := [{ id := 1 }, { id := 2 }, { id := 3 }] }

def grantFromTwo (term : Nat) (type : RespType) (nextIdx : Nat) : Env × RaftServer.Input :=
  ({}, .response
    { term := term, type := type, src := 2, dst := 1, nextIdx := nextIdx, accepted := true })

/-- Server `1` is elected with the votes of server `2`, commits its first entry and applies it. -/
def firstTenure : List (Env × RaftServer.Input) :=
  [({}, .electionTimeout), grantFromTwo 0 .preVote 0, grantFromTwo 1 .requestVote 0,
   grantFromTwo 1 .appendEntries 2, ({}, .commitNext)]

/-- A user context and a priority are set, and the first is not committed in between. -/
def contextThenPriority : List (Env × RaftServer.Input) :=
  [({}, .setUserCtx [7]), ({}, .setPriority 2 5 false)]

/-- The priority change starts from the committed configuration: the new user context is gone, and
the entry points back over the one that set it. -/
theorem userCtx_lost : (Runs.run RaftServer.next (RaftServer.fresh 1 {} threeServers)
        (firstTenure ++ contextThenPriority.take 1)).map (fun s =>
          (s.role, s.confView.latest.logIdx, s.confView.latest.userCtx)) =
      some (.leader, 2, [7]) ∧
    (Runs.run RaftServer.next (RaftServer.fresh 1 {} threeServers)
        (firstTenure ++ contextThenPriority)).map (fun s => s.log.entries.map (fun e =>
          e.conf?.map (fun c => (c.logIdx, c.prevLogIdx, c.userCtx)))) =
      some [some (1, 0, []), some (2, 1, [7]), some (3, 1, [])] := by
  decide +kernel

/-- The view of server `1` before its tenure, after its first entry and after applying it. -/
def freshView : ConfView := ⟨LogStore.empty, 0, threeServers, none, false⟩

theorem freshView_confInv : freshView.ConfInv := by
  have hnone : ∀ i, freshView.log.entryAt i = none := by
    intro i
    simp [freshView, entryAt, empty]
  refine ⟨by decide, by decide, ?_, by decide, ?_, by decide, ?_⟩
  · intro i e c he
    rw [hnone i] at he
    cases he
  · intro i e c he
    rw [hnone i] at he
    cases he
  · intro c hc
    cases hc

def appliedView : ConfView :=
  { ConfOp.becomeLeader.apply 1 freshView with
    applied := 1, config := ConfOp.becomeLeader.newConf freshView, changing := false }

theorem appliedView_confInv : appliedView.ConfInv :=
  (ConfOp.becomeLeader.apply_confInv 1 freshView_confInv).appliedConf
    (append_entryAt_nextSlot _ _) rfl

def setPriorityInput : Env × RaftServer.Input := ({}, .setPriority 2 5 false)

/-- With its first entry applied, the leader's next configuration is an edit of it. -/
theorem firstTenure_appendsLatest :
    ∃ u t o, Runs.run RaftServer.next (RaftServer.fresh 1 {} threeServers) firstTenure = some u ∧
      u.role = .leader ∧ u.step {} (.setPriority 2 5 false) = some (t, o) ∧
      u.AppendsLatest t (.setPriority 2 5 false) := by
  have hobs : (Runs.run next (fresh 1 {} threeServers) firstTenure).map
      (fun u => (u.role, u.confView, u.id, u.leader)) = some (.leader, appliedView, 1, 1) := by
    decide +kernel
  obtain ⟨u, hu, heq⟩ := map_eq_some_iff.mp hobs
  simp only [Prod.mk.injEq] at heq
  obtain ⟨hrole, hview, hid, hleader⟩ := heq
  have hstep : u.step {} (.setPriority 2 5 false) =
      some ((u.setPriority {} 2 5 false).1, { sent := (u.setPriority {} 2 5 false).2.1 }) := rfl
  have htenure : TenureStep u (.setPriority 2 5 false) :=
    ⟨rfl, fun hne => absurd hrole hne⟩
  have hinv : u.confView.ConfInv := hview ▸ appliedView_confInv
  have hrun : Runs.AllSteps next (fun v b => v.TenureStep b.2) u
      ([] ++ [setPriorityInput]) := ⟨htenure, fun _ _ => trivial⟩
  have hno : u.confView.NoPending = true := by
    rw [hview]
    decide
  have hall : Runs.AllSteps next (fun v b => ∀ w, v.next b = some w → w.role = .leader →
      NothingElsePending v w b.2) u ([] ++ [setPriorityInput]) := by
    refine ⟨fun w _ _ => ⟨fun op term _ _ => .inr (.inl hno), ?_⟩, fun _ _ => trivial⟩
    rintro (hne | ⟨_, hzero⟩)
    · exact absurd (hid.trans hleader.symm) hne
    · cases hzero
  exact ⟨u, _, _, hu, hrole, hstep, confUpdates_not_lost hinv hrun hall rfl hstep⟩

end Raft
end Xio
