import Xio.Lib.UndoStack
import Xio.Raft.FollowerAppend

/-!
# Raft.FollowerCalls — the state machine's view of received entries

While `handle_append_entries` walks through the received entries it tells the state machine which
entries it takes back (`rollback`, `rollback_config`) and which it adds (`pre_commit`). On a member
that has dropped nothing from its log, the entries that were announced and not taken back form a
stack: they are the application entries of the log, the last one on top.

- `LogStore.receiveCalls_replay`: what the calls of one request do to the stack
- `FollowerRun.replays`: what all calls do
-/

namespace Xio
namespace Raft

open List Option RaftServer

/-- What the append handler tells the state machine. -/
inductive SmCall
  | preCommit (i : Nat) (buf : Bytes)
  | rollback (i : Nat) (buf : Bytes)
  | rollbackConfig (i : Nat) (c : ClusterConfig)
  deriving DecidableEq

namespace SmCall

/-- What the call does to the stack of announced entries. -/
def op? : SmCall → Option (UndoStack.Op (Nat × Bytes))
  | .preCommit i buf => some (.push (i, buf))
  | .rollback i buf => some (.pop (i, buf))
  | .rollbackConfig _ _ => none

def index : SmCall → Nat
  | .preCommit i _ | .rollback i _ | .rollbackConfig i _ => i

def isPreCommit : SmCall → Bool
  | .preCommit _ _ => true
  | _ => false

end SmCall

/-! ## The calls of the loops -/

/-- An entry that is taken back. -/
def LogEntry.rollbackCall (i : Nat) (e : LogEntry) : SmCall :=
  match e.val with
  | .appLog buf => .rollback i buf
  | .conf c => .rollbackConfig i c

/-- An entry that is added; configurations are not announced. -/
def LogEntry.preCommitCall (i : Nat) (e : LogEntry) : List SmCall :=
  match e.val with
  | .appLog buf => [.preCommit i buf]
  | .conf _ => []

def LogEntry.app (i : Nat) (e : LogEntry) : List (Nat × Bytes) :=
  match e.val with
  | .appLog buf => [(i, buf)]
  | .conf _ => []

/-- The application entries of a part of the log that starts at index `i`. -/
def appEntries : Nat → List LogEntry → List (Nat × Bytes)
  | _, [] => []
  | i, e :: es => e.app i ++ appEntries (i + 1) es

namespace LogStore

/-- The rollback loop: from the end of the log down to index `i`, here over the `n` indices from
`i` on. -/
def rollbackLoop (l : LogStore) (i : Nat) : Nat → List SmCall
  | 0 => []
  | n + 1 => ((l.entryAt (i + n)).map (LogEntry.rollbackCall (i + n))).toList ++ l.rollbackLoop i n

def overwriteCalls : LogStore → Nat → List LogEntry → List SmCall
  | _, _, [] => []
  | l, i, e :: es =>
    if i < l.nextSlot then e.preCommitCall i ++ overwriteCalls (l.writeAt i e) (i + 1) es else []

/-- The calls of the append loop; the store says which index an entry was given. -/
def appendCalls : LogStore → List LogEntry → List SmCall
  | _, [] => []
  | l, e :: es => e.preCommitCall l.nextSlot ++ appendCalls (l.append e) es

/-- The calls of the three loops after the skip. -/
def receiveCalls (l : LogStore) (first : Nat) (es : List LogEntry) : List SmCall :=
  let r := l.skipLoop first es
  let w := l.overwriteLoop r.1 r.2
  (if r.1 < l.nextSlot ∧ r.2 ≠ [] then l.rollbackLoop r.1 (l.nextSlot - r.1) else []) ++
    (l.overwriteCalls r.1 r.2 ++ w.1.appendCalls w.2)

def apps (l : LogStore) : List (Nat × Bytes) := appEntries l.startIndex l.entries

end LogStore

theorem appEntries_append (i : Nat) (xs ys : List LogEntry) :
    appEntries i (xs ++ ys) = appEntries i xs ++ appEntries (i + xs.length) ys := by
  induction xs generalizing i with
  | nil => rfl
  | cons x xs ih =>
    have hidx : i + 1 + xs.length = i + (x :: xs).length := by
      rw [length_cons]
      omega
    rw [cons_append, appEntries, appEntries, ih, hidx, append_assoc]

/-- The calls for entries that are added one after the other. -/
def preCommits : Nat → List LogEntry → List SmCall
  | _, [] => []
  | i, e :: es => e.preCommitCall i ++ preCommits (i + 1) es

theorem preCommits_ops (i : Nat) (es : List LogEntry) :
    (preCommits i es).filterMap SmCall.op? = (appEntries i es).map .push := by
  induction es generalizing i with
  | nil => rfl
  | cons e es ih =>
    have hhead : (e.preCommitCall i).filterMap SmCall.op? = (e.app i).map .push := by
      unfold LogEntry.preCommitCall LogEntry.app
      cases e.val <;> rfl
    rw [preCommits, appEntries, filterMap_append, ih, hhead, map_append]

theorem preCommits_isPreCommit (i : Nat) (es : List LogEntry) :
    ∀ c ∈ preCommits i es, c.isPreCommit = true := by
  induction es generalizing i with
  | nil => exact fun c hc => absurd hc not_mem_nil
  | cons e es ih =>
    intro c hc
    rcases mem_append.mp hc with hhead | htail
    · unfold LogEntry.preCommitCall at hhead
      cases hval : e.val with
      | appLog buf =>
        rw [hval] at hhead
        rw [mem_singleton.mp hhead]
        rfl
      | conf c' =>
        cases hval ▸ hhead
    · exact ih (i + 1) c htail

namespace LogStore

variable {l : LogStore} {i : Nat} {es : List LogEntry} {first : Nat}

/-! ## Rolling back -/

theorem rollbackCall_ops (i : Nat) (e : LogEntry) :
    [e.rollbackCall i].filterMap SmCall.op? = (e.app i).map .pop := by
  unfold LogEntry.rollbackCall LogEntry.app
  cases e.val <;> rfl

theorem rollbackLoop_ops (hs : l.startIndex ≤ i) (n : Nat) :
    (l.rollbackLoop i n).filterMap SmCall.op? =
      (appEntries i (l.logEntries i (i + n))).reverse.map .pop := by
  induction n with
  | zero => simp [rollbackLoop, logEntries, appEntries]
  | succ n ih =>
    have hentry : l.entryAt (i + n) = (l.entries.drop (i - l.startIndex))[n]? := by
      rw [entryAt, if_neg (by omega), getElem?_drop]
      congr 1
      omega
    have hslice : l.logEntries i (i + (n + 1)) =
        l.logEntries i (i + n) ++ (l.entryAt (i + n)).toList := by
      rw [logEntries, logEntries, hentry, Nat.add_sub_cancel_left, Nat.add_sub_cancel_left,
        take_add_one]
    rw [rollbackLoop, filterMap_append, ih, hslice, appEntries_append]
    cases he : l.entryAt (i + n) with
    | none => simp [appEntries]
    | some e =>
      have hlen : (l.logEntries i (i + n)).length = n := by
        have hn := (List.getElem?_eq_some_iff.mp (hentry.symm.trans he)).1
        rw [logEntries, Nat.add_sub_cancel_left, length_take]
        omega
      have happ : (e.app (i + n)).reverse = e.app (i + n) := by
        unfold LogEntry.app
        cases e.val <;> rfl
      rw [map_some, toList_some, rollbackCall_ops, toList_some, hlen,
        appEntries, appEntries, append_nil, reverse_append, map_append, happ]

theorem rollbackLoop_isPreCommit (l : LogStore) (i n : Nat) :
    ∀ c ∈ l.rollbackLoop i n, c.isPreCommit = false ∧ i ≤ c.index ∧ c.index < i + n := by
  induction n with
  | zero => exact fun c hc => absurd hc not_mem_nil
  | succ n ih =>
    intro c hc
    rcases mem_append.mp hc with hhead | htail
    · obtain ⟨e, _, rfl⟩ := map_eq_some_iff.mp (mem_toList.mp hhead)
      unfold LogEntry.rollbackCall
      cases e.val with
      | appLog buf => exact ⟨rfl, Nat.le_add_right i n, Nat.lt_succ_self (i + n)⟩
      | conf c' => exact ⟨rfl, Nat.le_add_right i n, Nat.lt_succ_self (i + n)⟩
    · obtain ⟨hroll, hlow, hhigh⟩ := ih c htail
      exact ⟨hroll, hlow, Nat.lt_succ_of_lt hhigh⟩

theorem rollbackLoop_decreasing (l : LogStore) (i n : Nat) :
    (l.rollbackLoop i n).Pairwise (fun c d => d.index < c.index) := by
  induction n with
  | zero => exact Pairwise.nil
  | succ n ih =>
    refine pairwise_append.mpr ⟨?_, ih, ?_⟩
    · cases l.entryAt (i + n) with
      | none => exact Pairwise.nil
      | some e => exact pairwise_singleton _ _
    · intro c hc d hd
      obtain ⟨e, _, rfl⟩ := map_eq_some_iff.mp (mem_toList.mp hc)
      have hidx : (e.rollbackCall (i + n)).index = i + n := by
        unfold LogEntry.rollbackCall
        cases e.val <;> rfl
      rw [hidx]
      exact (l.rollbackLoop_isPreCommit i n d hd).2.2

/-! ## Overwriting and appending -/

theorem appendCalls_eq (l : LogStore) (es : List LogEntry) :
    l.appendCalls es = preCommits l.nextSlot es := by
  induction es generalizing l with
  | nil => rfl
  | cons e es ih => rw [appendCalls, preCommits, ih, append_nextSlot]

theorem overwriteCalls_of_nextSlot_le (h : l.nextSlot ≤ i) (es : List LogEntry) :
    l.overwriteCalls i es = [] := by
  cases es with
  | nil => rfl
  | cons e es => exact if_neg (Nat.not_lt.mpr h)

/-- Inside the log at most one entry is overwritten, and the calls go through the indices from
there on without a gap. -/
theorem writeCalls_eq (hs : l.startIndex ≤ i) (hn : i ≤ l.nextSlot) (es : List LogEntry) :
    l.overwriteCalls i es ++
      (l.overwriteLoop i es).1.appendCalls (l.overwriteLoop i es).2 = preCommits i es := by
  rcases Nat.lt_or_eq_of_le hn with hlt | heq
  · cases es with
    | nil => rfl
    | cons e es =>
      have hnext : (l.writeAt i e).nextSlot = i + 1 := by
        rw [writeAt_of_le e hs]
        unfold nextSlot at hlt ⊢
        simp only [length_append, length_take, length_singleton]
        omega
      rw [overwriteLoop_cons hs hlt, overwriteCalls, if_pos hlt, appendCalls_eq,
        overwriteCalls_of_nextSlot_le hnext.le, append_nil, hnext, preCommits]
  · rw [overwriteCalls_of_nextSlot_le heq.symm.le,
      overwriteLoop_of_nextSlot_le heq.symm.le, appendCalls_eq, heq, nil_append]

theorem writeFrom_of_nextSlot_le (h : l.nextSlot ≤ i) (es : List LogEntry) :
    l.writeFrom i es = l.appendLoop es := by
  rw [writeFrom, overwriteLoop_of_nextSlot_le h]

/-! ## One request -/

section

variable (l : LogStore) (hs : l.startIndex ≤ first) (es : List LogEntry)
include hs

theorem receive_cases :
    (∃ i rest, l.startIndex ≤ i ∧ i < l.nextSlot ∧ rest ≠ [] ∧
      l.receiveCalls first es = l.rollbackLoop i (l.nextSlot - i) ++ preCommits i rest ∧
      (l.receive first es).startIndex = l.startIndex ∧
      (l.receive first es).entries = l.entries.take (i - l.startIndex) ++ rest) ∨
    ∃ rest, l.receiveCalls first es = preCommits l.nextSlot rest ∧
      l.receive first es = l.appendLoop rest := by
  obtain ⟨k, _, hskip, _, _⟩ := skipLoop_spec l first es
  rw [receiveCalls, receive, hskip]
  dsimp only
  by_cases hroll : first + k < l.nextSlot ∧ es.drop k ≠ []
  · have hstart : l.startIndex ≤ first + k := by omega
    refine .inl ⟨first + k, es.drop k, hstart, hroll.1, hroll.2, ?_, ?_, ?_⟩
    · rw [if_pos hroll, writeCalls_eq hstart hroll.1.le]
    · exact writeFrom_startIndex hstart _
    · exact writeFrom_entries hstart hroll.1.le hroll.2
  · rw [if_neg hroll, nil_append]
    by_cases hrest : es.drop k = []
    · refine .inr ⟨[], ?_, ?_⟩
      · rw [hrest]
        rfl
      · rw [hrest]
        rfl
    · have hend : l.nextSlot ≤ first + k := Nat.le_of_not_lt fun h => hroll ⟨h, hrest⟩
      refine .inr ⟨es.drop k, ?_, writeFrom_of_nextSlot_le hend _⟩
      rw [overwriteCalls_of_nextSlot_le hend, overwriteLoop_of_nextSlot_le hend, appendCalls_eq,
        nil_append]

/-- Entries are taken back before any is added, from the highest index down. -/
theorem receiveCalls_order :
    ∃ rolls pres, l.receiveCalls first es = rolls ++ pres ∧
      (∀ c ∈ rolls, c.isPreCommit = false) ∧ (∀ c ∈ pres, c.isPreCommit = true) ∧
      rolls.Pairwise (fun c d => d.index < c.index) := by
  rcases l.receive_cases hs es with ⟨i, rest, _, _, _, hcalls, _⟩ | ⟨rest, hcalls, _⟩
  · exact ⟨_, _, hcalls, fun c hc => (l.rollbackLoop_isPreCommit _ _ c hc).1,
      preCommits_isPreCommit i rest, l.rollbackLoop_decreasing _ _⟩
  · exact ⟨[], _, hcalls, fun c hc => absurd hc not_mem_nil,
      preCommits_isPreCommit _ rest, Pairwise.nil⟩

/-- The calls of one request turn the stack of the old log into that of the new one. -/
theorem receiveCalls_replay :
    UndoStack.replay l.apps.reverse ((l.receiveCalls first es).filterMap SmCall.op?) =
      some (l.receive first es).apps.reverse := by
  rcases l.receive_cases hs es with
    ⟨i, rest, hstart, hlt, _, hcalls, hstart', hentries⟩ | ⟨rest, hcalls, hnew⟩
  · have hlen : (l.entries.take (i - l.startIndex)).length = i - l.startIndex := by
      unfold nextSlot at hlt
      rw [length_take]
      omega
    have hidx : l.startIndex + (i - l.startIndex) = i := by omega
    have hold : l.apps = appEntries l.startIndex (l.entries.take (i - l.startIndex)) ++
        appEntries i (l.entries.drop (i - l.startIndex)) := by
      calc l.apps = appEntries l.startIndex
              (l.entries.take (i - l.startIndex) ++ l.entries.drop (i - l.startIndex)) := by
            rw [take_append_drop]
            rfl
        _ = _ := by rw [appEntries_append, hlen, hidx]
    have hrolled : l.logEntries i (i + (l.nextSlot - i)) = l.entries.drop (i - l.startIndex) := by
      unfold nextSlot at hlt ⊢
      rw [logEntries, take_of_length_le]
      rw [length_drop]
      omega
    have hnew : (l.receive first es).apps =
        appEntries l.startIndex (l.entries.take (i - l.startIndex)) ++ appEntries i rest := by
      rw [apps, hstart', hentries, appEntries_append, hlen, hidx]
    rw [hcalls, filterMap_append, rollbackLoop_ops hstart, hrolled, preCommits_ops, hold, hnew]
    exact UndoStack.replay_undo _ _ _
  · have happs : (l.appendLoop rest).apps = l.apps ++ appEntries l.nextSlot rest := by
      rw [apps, appendLoop_startIndex, appendLoop_entries, appEntries_append]
      rfl
    rw [hcalls, hnew, preCommits_ops, happs, reverse_append]
    exact UndoStack.replay_push _ _

theorem receive_startIndex : (l.receive first es).startIndex = l.startIndex := by
  rcases l.receive_cases hs es with ⟨_, _, _, _, _, _, hstart, _⟩ | ⟨rest, _, hnew⟩
  · exact hstart
  · rw [hnew, appendLoop_startIndex]

end

end LogStore

/-! ## The stack of a log -/

theorem index_of_mem_appEntries {i : Nat} {es : List LogEntry} {x : Nat × Bytes}
    (h : x ∈ appEntries i es) : i ≤ x.1 := by
  induction es generalizing i with
  | nil => cases h
  | cons e es ih =>
    rcases mem_append.mp h with hhead | htail
    · unfold LogEntry.app at hhead
      cases hval : e.val with
      | appLog buf =>
        rw [hval] at hhead
        exact Nat.le_of_eq (congrArg Prod.fst (mem_singleton.mp hhead)).symm
      | conf c =>
        cases hval ▸ hhead
    · exact Nat.le_of_succ_le (ih htail)

theorem appEntries_increasing (i : Nat) (es : List LogEntry) :
    (appEntries i es).Pairwise (fun x y => x.1 < y.1) := by
  induction es generalizing i with
  | nil => exact Pairwise.nil
  | cons e es ih =>
    refine pairwise_append.mpr ⟨?_, ih (i + 1), ?_⟩
    · unfold LogEntry.app
      cases e.val with
      | appLog buf => exact pairwise_singleton _ _
      | conf c => exact Pairwise.nil
    · intro x hx y hy
      have hi : x.1 = i := by
        unfold LogEntry.app at hx
        cases hval : e.val with
        | appLog buf =>
          rw [hval] at hx
          exact congrArg Prod.fst (mem_singleton.mp hx)
        | conf c =>
          cases hval ▸ hx
      have := index_of_mem_appEntries hy
      omega

theorem mem_appEntries {i j : Nat} {es : List LogEntry} {buf : Bytes} :
    (j, buf) ∈ appEntries i es ↔ i ≤ j ∧ ∃ e, es[j - i]? = some e ∧ e.val = .appLog buf := by
  induction es generalizing i with
  | nil => simp [appEntries]
  | cons e es ih =>
    have hhead : (j, buf) ∈ e.app i ↔ j = i ∧ e.val = .appLog buf := by
      unfold LogEntry.app
      cases e.val <;> simp
      exact fun _ => eq_comm
    rw [appEntries, mem_append, hhead, ih]
    rcases Nat.lt_trichotomy j i with hlt | heq | hgt
    · constructor
      · rintro (⟨rfl, _⟩ | ⟨hle, _⟩) <;> omega
      · rintro ⟨hle, _⟩
        omega
    · subst heq
      simp
    · obtain ⟨d, rfl⟩ : ∃ d, j = i + 1 + d := ⟨j - (i + 1), by omega⟩
      have h₁ : i + 1 + d - (i + 1) = d := by omega
      have h₂ : i + 1 + d - i = d + 1 := by omega
      rw [h₁, h₂, getElem?_cons_succ]
      constructor
      · rintro (⟨heq, _⟩ | ⟨_, hmem⟩)
        · omega
        · exact ⟨by omega, hmem⟩
      · rintro ⟨_, hmem⟩
        exact .inr ⟨by omega, hmem⟩

theorem LogStore.mem_apps {l : LogStore} {i : Nat} {buf : Bytes} :
    (i, buf) ∈ l.apps ↔ ∃ e, l.entryAt i = some e ∧ e.val = .appLog buf := by
  rw [apps, mem_appEntries]
  constructor
  · rintro ⟨hstart, e, he, hval⟩
    exact ⟨e, entryAt_eq_some_iff.mpr ⟨hstart, he⟩, hval⟩
  · rintro ⟨e, he, hval⟩
    obtain ⟨hstart, he'⟩ := entryAt_eq_some_iff.mp he
    exact ⟨hstart, e, he', hval⟩

/-! ## Any number of requests -/

namespace RaftServer

/-- The calls that the handler makes while it deals with a request. -/
def appendEntriesCalls (s : RaftServer) (env : Env) (req : ReqMsg) (es : List LogEntry) :
    List SmCall :=
  if (s.handleAppendEntries env req es).2.any RespMsg.accepted then
    s.log.receiveCalls (req.lastLogIdx + 1) es
  else []

theorem handleAppendEntries_receive (s : RaftServer) (env : Env) (req : ReqMsg)
    (es : List LogEntry) :
    (s.handleAppendEntries env req es).1.log =
      if (s.handleAppendEntries env req es).2.any RespMsg.accepted then
        s.log.receive (req.lastLogIdx + 1) es
      else s.log := by
  rcases s.handleAppendEntries_log env req es with ⟨hview, hsilent⟩ | ⟨_, _, _, hview, hresp⟩
  · have hquiet : (s.handleAppendEntries env req es).2.any RespMsg.accepted = false := by
      cases hresp : (s.handleAppendEntries env req es).2 with
      | none => rfl
      | some resp =>
        have hconf := hsilent.resp resp hresp
        rw [RespMsg.confirms, handleAppendEntries_resp_type hresp] at hconf
        simpa using hconf
    rw [hquiet]
    exact congrArg LogView.log hview
  · rw [acceptEntries_logView] at hview
    rw [hresp]
    exact (congrArg LogView.log hview).trans (s.writeEntries_log _ es)

end RaftServer

/-- A member handles append requests of any leaders. Whatever it does in between leaves its log
alone. The calls of each request are recorded. -/
inductive FollowerRun (s : RaftServer) : List (List SmCall) → RaftServer → Prop
  | start : FollowerRun s [] s
  | request {u : RaftServer} {calls : List (List SmCall)} (env : Env) (req : ReqMsg)
      (es : List LogEntry) (h : FollowerRun s calls u) :
      FollowerRun s (calls ++ [(u.updateTermOnReq req).appendEntriesCalls env req es])
        ((u.updateTermOnReq req).handleAppendEntries env req es).1
  | other {u t : RaftServer} {calls : List (List SmCall)} (h : FollowerRun s calls u)
      (hlog : t.log = u.log) : FollowerRun s calls t

/-- Within one request: entries are taken back, from the highest index down, before any is
announced. -/
def RollbackFirst (calls : List SmCall) : Prop :=
  ∃ rolls pres, calls = rolls ++ pres ∧ (∀ c ∈ rolls, c.isPreCommit = false) ∧
    (∀ c ∈ pres, c.isPreCommit = true) ∧ rolls.Pairwise (fun c d => d.index < c.index)

theorem RollbackFirst.nil : RollbackFirst [] :=
  ⟨[], [], rfl, fun _ h => absurd h not_mem_nil, fun _ h => absurd h not_mem_nil, Pairwise.nil⟩

/-- What one request does: its calls are in order and turn the old stack into the new one. -/
theorem RaftServer.appendEntriesCalls_spec (s : RaftServer) (env : Env) (req : ReqMsg)
    (es : List LogEntry) (hstart : s.log.startIndex = 1) :
    RollbackFirst (s.appendEntriesCalls env req es) ∧
      (s.handleAppendEntries env req es).1.log.startIndex = 1 ∧
      UndoStack.replay s.log.apps.reverse ((s.appendEntriesCalls env req es).filterMap SmCall.op?) =
        some (s.handleAppendEntries env req es).1.log.apps.reverse := by
  have hs : s.log.startIndex ≤ req.lastLogIdx + 1 := by omega
  rw [handleAppendEntries_receive, appendEntriesCalls]
  cases (s.handleAppendEntries env req es).2.any RespMsg.accepted with
  | true =>
    exact ⟨s.log.receiveCalls_order hs es, (s.log.receive_startIndex hs es).trans hstart,
      s.log.receiveCalls_replay hs es⟩
  | false => exact ⟨RollbackFirst.nil, hstart, rfl⟩

/-- **The calls of all requests form a stack.** On a member that has dropped nothing, replaying
them never finds the wrong entry on top, and what is left are the application entries of the log,
the one of the highest index on top. -/
theorem FollowerRun.replays {s t : RaftServer} {calls : List (List SmCall)}
    (hrun : FollowerRun s calls t) (hstart : s.log.startIndex = 1) :
    (∀ cs ∈ calls, RollbackFirst cs) ∧
      ∃ stack, UndoStack.replay s.log.apps.reverse (calls.flatten.filterMap SmCall.op?) =
          some stack ∧
        stack.Pairwise (fun x y => y.1 < x.1) ∧
        ∀ i buf, (i, buf) ∈ stack ↔ ∃ e, t.log.entryAt i = some e ∧ e.val = .appLog buf := by
  suffices h : t.log.startIndex = 1 ∧ (∀ cs ∈ calls, RollbackFirst cs) ∧
      UndoStack.replay s.log.apps.reverse (calls.flatten.filterMap SmCall.op?) =
        some t.log.apps.reverse by
    refine ⟨h.2.1, _, h.2.2, pairwise_reverse.mpr (appEntries_increasing _ _), ?_⟩
    intro i buf
    rw [mem_reverse]
    exact LogStore.mem_apps
  induction hrun with
  | start => exact ⟨hstart, fun _ h => absurd h not_mem_nil, rfl⟩
  | @request u calls env req es _ ih =>
    obtain ⟨hu, hcalls, hreplay⟩ := ih
    have hlog : (u.updateTermOnReq req).log = u.log :=
      congrArg LogView.log (logView_updateTermOnReq u req)
    rw [← hlog] at hu hreplay
    obtain ⟨horder, hnew, hstep⟩ := appendEntriesCalls_spec _ env req es hu
    refine ⟨hnew, ?_, ?_⟩
    · intro cs hcs
      rcases mem_append.mp hcs with hold | hlast
      · exact hcalls cs hold
      · rwa [mem_singleton.mp hlast]
    · rw [flatten_append, filterMap_append]
      refine UndoStack.replay_append hreplay ?_
      simpa using hstep
  | other _ hlog ih =>
    rwa [hlog]

/-! ## Two leaders -/

def emptyMember : RaftServer :=
  { id := 2, config := { servers := [{ id := 1 }, { id := 2 }, { id := 3 }] } }

def confEntry : LogEntry :=
  ⟨1, .conf { logIdx := 2, servers := [{ id := 1 }, { id := 2 }, { id := 3 }] }⟩

def appendReq (term : Nat) (src : Int) (lastTerm last : Nat) (es : List LogEntry) : ReqMsg :=
  { term := term, src := src, dst := 2, lastLogTerm := lastTerm, lastLogIdx := last
    commitIdx := 0, body := .appendEntries es }

def firstBatch : List LogEntry := [entryOf 1 10, confEntry, entryOf 1 11]

/-- The second leader has another entry at the third index. -/
def secondBatch : List LogEntry := [confEntry, entryOf 2 12]

def afterFirst : RaftServer :=
  ((emptyMember.updateTermOnReq (appendReq 1 1 0 0 firstBatch)).handleAppendEntries {}
    (appendReq 1 1 0 0 firstBatch) firstBatch).1

def afterSecond : RaftServer :=
  ((afterFirst.updateTermOnReq (appendReq 2 3 1 1 secondBatch)).handleAppendEntries {}
    (appendReq 2 3 1 1 secondBatch) secondBatch).1

theorem twoLeaders_replayed : FollowerRun emptyMember
        [[.preCommit 1 [10], .preCommit 3 [11]], [.rollback 3 [11], .preCommit 3 [12]]]
        afterSecond ∧
      ∀ i buf, (i, buf) ∈ ([(3, [12]), (1, [10])] : List (Nat × Bytes)) ↔
        ∃ e, afterSecond.log.entryAt i = some e ∧ e.val = .appLog buf := by
  have hrun := (FollowerRun.start (s := emptyMember)).request {} (appendReq 1 1 0 0 firstBatch)
    firstBatch |>.request {} (appendReq 2 3 1 1 secondBatch) secondBatch
  have hcalls : [(emptyMember.updateTermOnReq (appendReq 1 1 0 0 firstBatch)).appendEntriesCalls {}
        (appendReq 1 1 0 0 firstBatch) firstBatch,
      (afterFirst.updateTermOnReq (appendReq 2 3 1 1 secondBatch)).appendEntriesCalls {}
        (appendReq 2 3 1 1 secondBatch) secondBatch] =
      [[.preCommit 1 [10], .preCommit 3 [11]], [.rollback 3 [11], .preCommit 3 [12]]] := by
    decide
  have hrun' : FollowerRun emptyMember
      [[.preCommit 1 [10], .preCommit 3 [11]], [.rollback 3 [11], .preCommit 3 [12]]]
      afterSecond := hcalls ▸ hrun
  obtain ⟨_, stack, hreplay, _, hstack⟩ := FollowerRun.replays hrun' rfl
  have hfinal : some stack = some [(3, [12]), (1, [10])] := hreplay.symm.trans (by decide)
  rw [← some.inj hfinal]
  exact ⟨hrun', hstack⟩

end Raft
end Xio
