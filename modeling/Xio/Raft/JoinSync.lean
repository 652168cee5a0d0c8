import Xio.Lib.Runs
import Xio.Raft.Membership

/-!
# Raft.JoinSync — sending the log to a server that joins

A server that accepts an invitation keeps the log that it has. It names the index after its commit
index, the leader sends packs of entries from there on, and after each pack the joiner commits
everything that its log store holds. The packs replace entries at their own indices only, so what
the joiner had beyond the end of a pack is committed with it.

The joiner's store is the in-memory one: a map from indices to entries, whose next slot is computed
from its size. `Represents` ties it to the contiguous log of the store's contract.
-/

namespace Xio
namespace Raft

open List RaftServer LogStore

variable {es : List LogEntry} {i : Nat} {req : ReqMsg}

/-! ## The in-memory store -/

abbrev LogMap := AList (fun _ : Nat => LogEntry)

/-- `inmem_log_store` without its dummy entry. -/
structure InmemLogStore where
  startIdx : Nat
  logs : LogMap

namespace InmemLogStore

def entryAt (l : InmemLogStore) (i : Nat) : Option LogEntry := l.logs.lookup i

def nextSlot (l : InmemLogStore) : Nat := l.startIdx + l.logs.keys.length

/-- The loop of `apply_pack`. -/
def putAll : LogMap → Nat → List LogEntry → LogMap
  | m, _, [] => m
  | m, i, e :: es => putAll (m.insert i e) (i + 1) es

/-- `apply_pack`: the start index is the smallest key, `1` without one. -/
def applyPack (l : InmemLogStore) (i : Nat) (es : List LogEntry) : InmemLogStore where
  startIdx := (putAll l.logs i es).keys.min?.getD 1
  logs := putAll l.logs i es

theorem lookup_insert (m : LogMap) (i j : Nat) (e : LogEntry) :
    (m.insert i e).lookup j = if j = i then some e else m.lookup j := by
  split
  · rename_i h
    subst h
    exact AList.lookup_insert m
  · rename_i h
    exact AList.lookup_insert_ne h

theorem lookup_putAll (m : LogMap) (i : Nat) (es : List LogEntry) (j : Nat) :
    (putAll m i es).lookup j = if i ≤ j ∧ j < i + es.length then es[j - i]? else m.lookup j := by
  induction es generalizing m i with
  | nil =>
    rw [if_neg (by simp)]
    rfl
  | cons e es ih =>
    rw [putAll, ih, lookup_insert]
    rcases Nat.lt_trichotomy j i with hlt | heq | hgt
    · rw [if_neg (by omega), if_neg (by omega), if_neg (by omega)]
    · subst heq
      simp
    · have hidx : j - i = (j - (i + 1)) + 1 := by omega
      by_cases hin : j < i + (e :: es).length
      · rw [length_cons] at hin
        rw [if_pos (by omega), if_pos (by rw [length_cons]; omega), hidx, getElem?_cons_succ]
      · rw [length_cons] at hin
        rw [if_neg (by omega), if_neg (by omega), if_neg (by rw [length_cons]; omega)]

theorem applyPack_entryAt (l : InmemLogStore) (i : Nat) (es : List LogEntry) (j : Nat) :
    (l.applyPack i es).entryAt j = if i ≤ j ∧ j < i + es.length then es[j - i]? else l.entryAt j :=
  lookup_putAll l.logs i es j

theorem applyPack_nextSlot_pos (l : InmemLogStore) (i : Nat) (es : List LogEntry) :
    0 < (l.applyPack i es).nextSlot := by
  unfold nextSlot applyPack
  cases (putAll l.logs i es).keys with
  | nil => exact Nat.one_pos
  | cons k ks => exact Nat.add_pos_right _ (Nat.succ_pos _)

/-! ### The contract of the store -/

/-- The store holds exactly the entries of a contiguous log. -/
structure Represents (l : InmemLogStore) (c : LogStore) : Prop where
  start : l.startIdx = c.startIndex
  entries : ∀ i, l.entryAt i = c.entryAt i

theorem mem_keys_iff {m : LogMap} : i ∈ m.keys ↔ (m.lookup i).isSome :=
  AList.mem_keys.symm.trans AList.lookup_isSome.symm

variable {l : InmemLogStore} {c : LogStore}

theorem Represents.mem_keys (h : Represents l c) :
    i ∈ l.logs.keys ↔ c.startIndex ≤ i ∧ i < c.nextSlot := by
  rw [mem_keys_iff, ← entryAt_isSome_iff, ← h.entries i]
  rfl

theorem Represents.nextSlot (h : Represents l c) : l.nextSlot = c.nextSlot := by
  have hset : l.logs.keys.toFinset = Finset.Ico c.startIndex c.nextSlot := by
    ext i
    rw [mem_toFinset, Finset.mem_Ico]
    exact h.mem_keys
  have hcard : l.logs.keys.length = c.entries.length := by
    rw [← toFinset_card_of_nodup l.logs.keys_nodup, hset, Nat.card_Ico]
    exact Nat.add_sub_cancel_left _ _
  rw [InmemLogStore.nextSlot, LogStore.nextSlot, h.start, hcard]

end InmemLogStore

namespace LogStore

theorem applyPack_entryAt {l : LogStore} (hi : 0 < i) (hes : es ≠ [])
    (hbelow : i ≤ l.nextSlot ∨ l.entries = []) (habove : l.startIndex ≤ i + es.length) (j : Nat) :
    (l.applyPack i es).entryAt j =
      if i ≤ j ∧ j < i + es.length then es[j - i]? else l.entryAt j := by
  rw [applyPack, if_neg hes]
  split
  · -- the pack is the new start of the log
    rename_i hnew
    have hstart : l.entries = [] ∨ i < l.startIndex := by
      rcases hnew.2 with h | h | h
      · exact .inr h
      · rcases hbelow with hb | hb
        · omega
        · exact .inl hb
      · exact .inl h
    dsimp only [entryAt]
    by_cases hlt : j < i
    · rw [if_pos hlt, if_neg (by omega)]
      rcases hstart with h | h
      · simp [h]
      · rw [if_pos (by omega)]
    · rw [if_neg hlt]
      by_cases hin : j < i + es.length
      · rw [if_pos ⟨by omega, hin⟩, getElem?_append_left (by omega)]
      · rw [if_neg (fun h => hin h.2), if_neg (by omega), getElem?_append_right (by omega),
          getElem?_drop]
        congr 1
        omega
  · -- the pack starts inside the log or right behind it
    rename_i hold
    have hinside : l.startIndex ≤ i ∧ i ≤ l.startIndex + l.entries.length := by
      unfold nextSlot at hold hbelow
      rcases hbelow with h | h
      · omega
      · exact absurd ⟨hi, .inr (.inr h)⟩ hold
    dsimp only [entryAt]
    by_cases hlt : j < l.startIndex
    · rw [if_pos hlt, if_neg (by omega), if_pos hlt]
    · have hlen : (l.entries.take (i - l.startIndex)).length = i - l.startIndex := by
        rw [length_take]
        omega
      rw [if_neg hlt, append_assoc]
      by_cases hbefore : j < i
      · rw [if_neg (fun h => absurd h.1 (by omega)), if_neg hlt,
          getElem?_append_left (by omega), getElem?_take, if_pos (by omega)]
      · rw [getElem?_append_right (by omega), hlen]
        by_cases hin : j < i + es.length
        · rw [if_pos ⟨by omega, hin⟩, getElem?_append_left (by omega)]
          congr 1
          omega
        · rw [if_neg (fun h => hin h.2), if_neg hlt, getElem?_append_right (by omega),
            getElem?_drop]
          congr 1
          omega

theorem applyPack_startIndex {l : LogStore} (hi : 0 < i)
    (hes : es ≠ []) : (l.applyPack i es).startIndex ≤ i ∧ (l.applyPack i es).entries ≠ [] := by
  rw [applyPack, if_neg hes]
  split
  · exact ⟨le_rfl, by simp [hes]⟩
  · refine ⟨?_, by simp [hes]⟩
    dsimp only
    omega

end LogStore

/-- The in-memory store keeps the contract as long as a pack leaves no gap. -/
theorem InmemLogStore.Represents.applyPack {l : InmemLogStore} {c : LogStore} (h : Represents l c)
    (hi : 0 < i) (hes : es ≠ [])
    (hbelow : i ≤ c.nextSlot ∨ c.entries = []) (habove : c.startIndex ≤ i + es.length) :
    Represents (l.applyPack i es) (c.applyPack i es) := by
  have hentries : ∀ j, (l.applyPack i es).entryAt j = (c.applyPack i es).entryAt j := by
    intro j
    rw [InmemLogStore.applyPack_entryAt, LogStore.applyPack_entryAt hi hes hbelow habove,
      h.entries j]
  refine ⟨?_, hentries⟩
  obtain ⟨-, hne⟩ := applyPack_startIndex (l := c) hi hes
  have hmem (j : Nat) : j ∈ (putAll l.logs i es).keys ↔
      (c.applyPack i es).startIndex ≤ j ∧ j < (c.applyPack i es).nextSlot := by
    rw [mem_keys_iff, ← entryAt_isSome_iff, ← hentries j]
    rfl
  have hmin : (putAll l.logs i es).keys.min? = some (c.applyPack i es).startIndex := by
    rw [min?_eq_some_iff]
    refine ⟨(hmem _).mpr ⟨le_rfl, ?_⟩, fun j hj => ((hmem j).mp hj).1⟩
    exact Nat.lt_add_of_pos_right (length_pos_iff.mpr hne)
  change (putAll l.logs i es).keys.min?.getD 1 = _
  rw [hmin]
  rfl

/-! ## The joining server -/

/-- A server with an in-memory store in the place of its log. -/
structure Joiner where
  srv : RaftServer
  store : InmemLogStore

namespace Joiner

def handleLogSyncReq (j : Joiner) (req : ReqMsg) (pack : Option (List LogEntry)) :
    Joiner × RespMsg :=
  let resp : RespMsg :=
    { term := j.srv.state.term
      type := .syncLog
      src := j.srv.id
      dst := req.src
      nextIdx := j.store.nextSlot }
  match pack with
  | none => (j, resp)
  | some es =>
    if j.srv.state.catchingUp = false then (j, resp)
    else
      let l := j.store.applyPack (req.lastLogIdx + 1) es
      let s₁ : RaftServer := { j.srv with precommitIndex := l.nextSlot - 1 }
      (⟨s₁.commit (l.nextSlot - 1), l⟩, resp.accept l.nextSlot)

/-- On a contiguous log and a pack without a gap this is the handler of the server model. -/
theorem handleLogSyncReq_represents {j : Joiner} (h : j.store.Represents j.srv.log) (hes : es ≠ [])
    (hbelow : req.lastLogIdx + 1 ≤ j.srv.log.nextSlot ∨ j.srv.log.entries = [])
    (habove : j.srv.log.startIndex ≤ req.lastLogIdx + 1 + es.length) :
    (j.handleLogSyncReq req (some es)).2 = (j.srv.handleLogSyncReq req (some es)).2 ∧
      (j.handleLogSyncReq req (some es)).1.srv =
        { (j.srv.handleLogSyncReq req (some es)).1 with log := j.srv.log } ∧
      (j.handleLogSyncReq req (some es)).1.store.Represents
        (j.srv.handleLogSyncReq req (some es)).1.log := by
  have hpack := h.applyPack (Nat.succ_pos req.lastLogIdx) hes hbelow habove
  dsimp only [handleLogSyncReq, RaftServer.handleLogSyncReq]
  rw [h.nextSlot]
  split
  · exact ⟨rfl, rfl, h⟩
  · rw [hpack.nextSlot]
    exact ⟨rfl, rfl, hpack⟩

end Joiner

theorem RaftServer.handleJoinClusterReq_accepted {s : RaftServer}
    {conf : Option ClusterConfig} (h : (s.handleJoinClusterReq req conf).2.accepted = true) :
    (s.handleJoinClusterReq req conf).2.nextIdx =
      (s.handleJoinClusterReq req conf).1.quickCommitIndex + 1 := by
  unfold handleJoinClusterReq at h ⊢
  cases conf with
  | none => cases h
  | some c =>
    dsimp only at h ⊢
    split at h
    · split at h
      · rename_i hlen hsame
        rw [if_pos hlen, if_pos hsame]
        rfl
      · cases h
    · rename_i hlen
      split at h
      · cases h
      · rename_i hfree
        rw [if_neg hlen, if_neg hfree]
        rfl

/-! ## Rounds of log sync -/

/-- The leader, all entries that its log has held, the joiner, the requests sent to it and the
indices that it has asked for. -/
structure JoinSync where
  leader : RaftServer
  hist : List LogEntry
  joiner : Joiner
  requests : List ReqMsg := []
  replies : List Nat

namespace JoinSync

variable (v : JoinSync)

/-- The log holds the entries of a history from its start index on. -/
def Window (hist : List LogEntry) (l : LogStore) : Prop := l.entries = hist.drop (l.startIndex - 1)

instance (hist : List LogEntry) (l : LogStore) : Decidable (Window hist l) :=
  inferInstanceAs (Decidable (_ = _))

def entryOf (hist : List LogEntry) (i : Nat) : Option LogEntry :=
  if i = 0 then none else hist[i - 1]?

inductive Action
  /-- The leader appends entries, compacts its log or moves its indices. -/
  | lead (t : RaftServer) (more : List LogEntry)
  /-- `sync_log_to_new_srv` from an index that the joiner has asked for. -/
  | sync (env : Env) (idx : Nat)
  /-- The joiner handles a request, possibly again. -/
  | deliver (req : ReqMsg) (pack : List LogEntry)
  /-- The joiner's catch-up phase ends. -/
  | caughtUp

def isSyncLog (m : ReqMsg) : Bool :=
  match m.body with
  | .syncLog _ => true
  | _ => false

def step : Action → Option JoinSync
  | .lead t more =>
    if Window (v.hist ++ more) t.log then some { v with leader := t, hist := v.hist ++ more }
    else none
  | .sync env idx =>
    if idx ∈ v.replies then
      some { v with requests := v.requests ++ (v.leader.syncLogToNewSrv env idx).2.filter isSyncLog }
    else none
  | .deliver req pack =>
    if req ∈ v.requests ∧ req.body = .syncLog (some pack) then
      let r := v.joiner.handleLogSyncReq req (some pack)
      some { v with
        joiner := r.1
        replies := if r.2.accepted then r.2.nextIdx :: v.replies else v.replies }
    else none
  | .caughtUp =>
    some { v with joiner := { v.joiner with
      srv := { v.joiner.srv with state := { v.joiner.srv.state with catchingUp := false } } } }

/-- What the joiner holds beyond the end of a pack is the leader's. -/
def Reaches : Action → Prop
  | .deliver req pack => ∀ i e, req.lastLogIdx + pack.length < i →
      v.joiner.store.entryAt i = some e → entryOf v.hist i = some e
  | _ => True

structure Inv : Prop where
  window : Window v.hist v.leader.log
  replies : ∀ k ∈ v.replies, 1 ≤ k ∧ k ≤ v.joiner.srv.quickCommitIndex + 1
  requests : ∀ m ∈ v.requests, m.lastLogIdx ≤ v.joiner.srv.quickCommitIndex ∧
    ∀ pack, m.body = .syncLog (some pack) → pack <+: v.hist.drop m.lastLogIdx
  held : ∀ i e, i ≤ v.joiner.srv.quickCommitIndex → v.joiner.store.entryAt i = some e →
    entryOf v.hist i = some e

variable {v} {w : JoinSync}

theorem entryOf_append {hist : List LogEntry} {e : LogEntry}
    (h : entryOf hist i = some e) (more : List LogEntry) : entryOf (hist ++ more) i = some e := by
  unfold entryOf at h ⊢
  split at h
  · cases h
  · rename_i hi
    rw [if_neg hi]
    obtain ⟨hlt, -⟩ := List.getElem?_eq_some_iff.mp h
    rwa [getElem?_append_left hlt]

theorem entryOf_of_pack {hist pack : List LogEntry} {last i : Nat} {e : LogEntry}
    (hpack : pack <+: hist.drop last) (hlast : last < i) (h : pack[i - (last + 1)]? = some e) :
    entryOf hist i = some e := by
  obtain ⟨rest, hrest⟩ := hpack
  have hpos : i ≠ 0 := by omega
  have hget : (hist.drop last)[i - (last + 1)]? = some e := by
    obtain ⟨hlt, -⟩ := List.getElem?_eq_some_iff.mp h
    rwa [← hrest, getElem?_append_left hlt]
  rw [getElem?_drop] at hget
  rw [entryOf, if_neg hpos, ← hget]
  congr 1
  omega

theorem syncLog_of_sent {leader : RaftServer} {env : Env} {k : Nat} {m : ReqMsg}
    (hm : m ∈ (leader.syncLogToNewSrv env k).2) (hsync : isSyncLog m = true) :
    leader.log.startIndex ≤ k ∧ m.lastLogIdx = k - 1 ∧
      ∃ n, m.body = .syncLog (some (leader.log.logEntries k n)) := by
  unfold syncLogToNewSrv at hm
  split at hm
  · dsimp only at hm
    split at hm
    · cases hm
    split at hm
    · split at hm
      · rename_i hreq
        rcases mem_singleton.mp hm with rfl
        unfold createSyncSnapshotReq at hreq
        split at hreq
        · cases hreq
        · cases hreq
          cases hsync
      · cases hm
    · rename_i hheld
      rcases mem_singleton.mp hm with rfl
      exact ⟨Nat.le_of_not_lt hheld, rfl, _, rfl⟩
  · cases hm

theorem Window.logEntries {hist : List LogEntry} {l : LogStore} (h : Window hist l) {k : Nat}
    (hk : l.startIndex ≤ k) (n : Nat) : l.logEntries k n <+: hist.drop (k - 1) := by
  have hstart := l.start_pos
  have hdrop : l.entries.drop (k - l.startIndex) = hist.drop (k - 1) := by
    rw [show l.entries = hist.drop (l.startIndex - 1) from h, drop_drop]
    congr 1
    omega
  rw [LogStore.logEntries, hdrop]
  exact take_prefix _ _

theorem entryOf_of_applyPack (hv : v.Inv) {pack : List LogEntry}
    (hreq : req ∈ v.requests) (hbody : req.body = .syncLog (some pack))
    (hreach : v.Reaches (.deliver req pack)) {e : LogEntry}
    (h : (v.joiner.store.applyPack (req.lastLogIdx + 1) pack).entryAt i = some e) :
    entryOf v.hist i = some e := by
  obtain ⟨hlast, hpack⟩ := hv.requests req hreq
  rw [InmemLogStore.applyPack_entryAt] at h
  split at h
  · rename_i hin
    exact entryOf_of_pack (hpack pack hbody) (by omega) h
  · rename_i hout
    rcases Nat.lt_or_ge req.lastLogIdx i with hlt | hge
    · exact hreach i e (by omega) h
    · exact hv.held i e (by omega) h

theorem commit_quickCommitIndex_eq (s : RaftServer) (k : Nat) :
    (s.commit k).quickCommitIndex = max s.quickCommitIndex k := by
  rw [commit_quickCommitIndex]
  split <;> omega

theorem Inv.deliver (hv : v.Inv) {pack : List LogEntry}
    (hreach : v.Reaches (.deliver req pack)) (h : v.step (.deliver req pack) = some w) : w.Inv := by
  simp only [step] at h
  split at h
  · rename_i hguard
    cases h
    dsimp only [Joiner.handleLogSyncReq]
    split
    · exact hv
    · -- the pack is applied and all of the store is committed
      have hle : v.joiner.srv.quickCommitIndex ≤ max v.joiner.srv.quickCommitIndex
          ((v.joiner.store.applyPack (req.lastLogIdx + 1) pack).nextSlot - 1) := Nat.le_max_left _ _
      refine ⟨hv.window, ?_, ?_, ?_⟩
      · intro k hk
        rw [commit_quickCommitIndex_eq]
        rcases mem_cons.mp hk with rfl | hk
        · have hpos := v.joiner.store.applyPack_nextSlot_pos (req.lastLogIdx + 1) pack
          change 1 ≤ (v.joiner.store.applyPack (req.lastLogIdx + 1) pack).nextSlot ∧
            (v.joiner.store.applyPack (req.lastLogIdx + 1) pack).nextSlot ≤ _
          omega
        · exact ⟨(hv.replies k hk).1, (hv.replies k hk).2.trans (Nat.succ_le_succ hle)⟩
      · intro m hm
        rw [commit_quickCommitIndex_eq]
        exact ⟨(hv.requests m hm).1.trans hle, (hv.requests m hm).2⟩
      · intro i e _ he
        exact entryOf_of_applyPack hv hguard.1 hguard.2 hreach he
  · cases h

theorem step_inv {a : Action} (hv : v.Inv) (hreach : v.Reaches a) (h : v.step a = some w) :
    w.Inv := by
  cases a with
  | lead t more =>
    simp only [step] at h
    split at h
    · rename_i hwindow
      cases h
      refine ⟨hwindow, hv.replies, ?_, ?_⟩
      · intro m hm
        obtain ⟨hlast, hpack⟩ := hv.requests m hm
        refine ⟨hlast, ?_⟩
        intro pack hbody
        have hmore : v.hist.drop m.lastLogIdx <+: (v.hist ++ more).drop m.lastLogIdx :=
          (prefix_append v.hist more).drop m.lastLogIdx
        exact (hpack pack hbody).trans hmore
      · intro i e hi he
        exact entryOf_append (hv.held i e hi he) more
    · cases h
  | sync env idx =>
    simp only [step] at h
    split at h
    · rename_i hidx
      cases h
      refine ⟨hv.window, hv.replies, ?_, hv.held⟩
      intro m hm
      rcases mem_append.mp hm with hold | hnew
      · exact hv.requests m hold
      · rw [mem_filter] at hnew
        obtain ⟨hstart, hlast, n, hbody⟩ := syncLog_of_sent hnew.1 hnew.2
        obtain ⟨-, hle⟩ := hv.replies idx hidx
        refine ⟨?_, ?_⟩
        · change m.lastLogIdx ≤ v.joiner.srv.quickCommitIndex
          omega
        · intro pack hpack
          cases hbody ▸ hpack
          rw [hlast]
          exact hv.window.logEntries hstart n
    · cases h
  | deliver req pack => exact hv.deliver hreach h
  | caughtUp =>
    cases h
    exact { hv with }

/-- The system when a server has accepted the invitation of a leader. -/
def start (leader : RaftServer) (hist : List LogEntry) (s : RaftServer) (store : InmemLogStore)
    (req : ReqMsg) (conf : Option ClusterConfig) : JoinSync where
  leader := leader
  hist := hist
  joiner := ⟨(s.handleJoinClusterReq req conf).1, store⟩
  replies := [(s.handleJoinClusterReq req conf).2.nextIdx]

/-- After an accepted invitation and any number of rounds, every index up to the joiner's commit
index that its store holds has the leader's entry, provided that this was so of the store that the
server came with, and that each pack leaves nothing but the leader's entries behind its end. -/
theorem joiner_commits_leader_entries {leader s : RaftServer} {hist : List LogEntry}
    {store : InmemLogStore} {req : ReqMsg} {conf : Option ClusterConfig} {as : List Action}
    (hlog : Window hist leader.log)
    (hjoin : (s.handleJoinClusterReq req conf).2.accepted = true)
    (hprior : ∀ i e, i ≤ (s.handleJoinClusterReq req conf).1.quickCommitIndex →
      store.entryAt i = some e → entryOf hist i = some e)
    (hreach : Runs.AllSteps step Reaches (start leader hist s store req conf) as)
    (hrun : Runs.run step (start leader hist s store req conf) as = some v) :
    ∀ i e, i ≤ v.joiner.srv.quickCommitIndex → v.joiner.store.entryAt i = some e →
      entryOf v.hist i = some e := by
  have hstart : (start leader hist s store req conf).Inv := by
    refine ⟨hlog, ?_, forall_mem_nil _, hprior⟩
    intro k hk
    rcases mem_singleton.mp hk with rfl
    rw [handleJoinClusterReq_accepted hjoin]
    exact ⟨Nat.succ_pos _, le_rfl⟩
  have hv : v.Inv := Runs.invariant_of_allSteps (P := Reaches) (I := Inv)
    (fun _ _ _ hu hr hw => step_inv hu hr hw) hstart hreach hrun
  exact hv.held

end JoinSync

/-! ## A joiner with a log of its own -/

def appEntry (term : Nat) (b : UInt8) : LogEntry := ⟨term, .appLog [b]⟩

def leaderHist : List LogEntry := [appEntry 1 10, appEntry 1 20, appEntry 1 30, appEntry 1 40, appEntry 1 50]

/-- A leader of one server that adds server `4` and sends one entry at a time. -/
def addingLeader : RaftServer :=
  { id := 1
    params := { logSyncStopGap := 1, logSyncBatchSize := 1 }
    role := .leader
    leader := 1
    log := ⟨1, leaderHist, Nat.one_pos⟩
    quickCommitIndex := 5
    srvToJoin := some { config := { id := 4 } }
    confToAdd := some { id := 4 }
    config := { servers := [{ id := 1 }] } }

/-- Server `4` of a cluster of its own, whose state machine was at the given index when it started. -/
def loneServer (initial : Nat) : RaftServer :=
  { id := 4, initialCommitIndex := initial, config := { servers := [{ id := 4 }] } }

def invitation : ReqMsg := addingLeader.inviteSrvToJoinCluster { config := { id := 4 } }

def storeOf (es : List LogEntry) : InmemLogStore := InmemLogStore.applyPack ⟨1, ∅⟩ 1 es

def ownLog : InmemLogStore := storeOf [appEntry 9 1, appEntry 9 2, appEntry 9 3]

def onePack (last : Nat) (e : LogEntry) : ReqMsg :=
  { term := 0
    src := 1
    dst := 4
    lastLogTerm := 0
    lastLogIdx := last
    commitIdx := 5
    body := .syncLog (some [e]) }

def firstRound : List JoinSync.Action :=
  [.sync {} 1, .deliver (onePack 0 (appEntry 1 10)) [appEntry 1 10]]

/-- One pack of one entry makes the joiner commit two entries of its own behind it; a server that
had applied entries of its own keeps them below its commit index from the start. -/
theorem joiner_commits_stale_tail :
    (Runs.run JoinSync.step (JoinSync.start addingLeader leaderHist (loneServer 0) ownLog invitation
        (some addingLeader.config)) firstRound).map
        (fun v => (v.joiner.srv.quickCommitIndex, v.joiner.store.entryAt 2,
          JoinSync.entryOf v.hist 2)) =
      some (3, some (appEntry 9 2), some (appEntry 1 20)) ∧
    ((loneServer 2).handleJoinClusterReq invitation (some addingLeader.config)).2.accepted = true ∧
    ((loneServer 2).handleJoinClusterReq invitation (some addingLeader.config)).1.quickCommitIndex
      = 2 ∧ ownLog.entryAt 1 = some (appEntry 9 1) ∧
      JoinSync.entryOf leaderHist 1 = some (appEntry 1 10) := by
  decide +kernel

/-- Two entries of the leader, which the server has applied, and one of its own. -/
def priorEntries : List LogEntry := [appEntry 1 10, appEntry 1 20, appEntry 9 3]

def returningServer : RaftServer :=
  { loneServer 2 with log := ⟨1, priorEntries, Nat.one_pos⟩ }

/-- The leader's entry at index `3` replaces the server's own. -/
def thirdRound : List JoinSync.Action :=
  [.sync {} 3, .deliver (onePack 2 (appEntry 1 30)) [appEntry 1 30]]

theorem returningServer_commits_leader_entries :
    ∃ v, Runs.run JoinSync.step (JoinSync.start addingLeader leaderHist returningServer
        (storeOf priorEntries) invitation (some addingLeader.config)) thirdRound = some v ∧
      v.joiner.srv.quickCommitIndex = 3 ∧ v.joiner.store.entryAt 3 = some (appEntry 1 30) ∧
      ∀ i e, i ≤ v.joiner.srv.quickCommitIndex → v.joiner.store.entryAt i = some e →
        JoinSync.entryOf v.hist i = some e := by
  have hseen : (Runs.run JoinSync.step (JoinSync.start addingLeader leaderHist returningServer
      (storeOf priorEntries) invitation (some addingLeader.config)) thirdRound).map
        (fun v => (v.joiner.srv.quickCommitIndex, v.joiner.store.entryAt 3)) =
        some (3, some (appEntry 1 30)) := by decide +kernel
  have hprior : ∀ i e, i ≤ (returningServer.handleJoinClusterReq invitation
      (some addingLeader.config)).1.quickCommitIndex → (storeOf priorEntries).entryAt i = some e →
      JoinSync.entryOf leaderHist i = some e := by
    have hlow : ∀ i < 3, ∀ e ∈ (storeOf priorEntries).entryAt i,
        JoinSync.entryOf leaderHist i = some e := by decide +kernel
    intro i e hi he
    exact hlow i (Nat.lt_succ_of_le hi) e he
  have hreach : Runs.AllSteps JoinSync.step JoinSync.Reaches (JoinSync.start addingLeader leaderHist
      returningServer (storeOf priorEntries) invitation (some addingLeader.config)) thirdRound := by
    refine ⟨trivial, fun t ht => ⟨?_, fun _ _ => trivial⟩⟩
    intro i e hi he
    simp only [JoinSync.step] at ht
    split at ht
    · cases ht
      -- the store holds nothing behind index `3`
      have hlt : ¬ (1 ≤ i ∧ i < 1 + priorEntries.length) := fun h => Nat.not_lt.mpr
        (Nat.succ_le_succ_iff.mp h.2) hi
      change (InmemLogStore.applyPack _ 1 priorEntries).entryAt i = some e at he
      rw [InmemLogStore.applyPack_entryAt, if_neg hlt] at he
      cases he
    · cases ht
  obtain ⟨v, hrun, hv⟩ := Option.map_eq_some_iff.mp hseen
  obtain ⟨hquick, hthree⟩ := Prod.mk.inj hv
  have hlog : JoinSync.Window leaderHist addingLeader.log := by decide
  exact ⟨v, hrun, hquick, hthree, JoinSync.joiner_commits_leader_entries hlog (by decide)
    hprior hreach hrun⟩

def invited : Joiner :=
  ⟨(returningServer.handleJoinClusterReq invitation (some addingLeader.config)).1,
    storeOf priorEntries⟩

theorem thirdPack_represents :
    (invited.handleLogSyncReq (onePack 2 (appEntry 1 30)) (some [appEntry 1 30])).1.store.Represents
      (invited.srv.handleLogSyncReq (onePack 2 (appEntry 1 30)) (some [appEntry 1 30])).1.log := by
  have hempty : InmemLogStore.Represents ⟨1, ∅⟩ LogStore.empty := by
    refine ⟨rfl, fun i => ?_⟩
    change none = if i < 1 then none else [][i - 1]?
    simp
  have hprior : invited.store.Represents invited.srv.log :=
    hempty.applyPack Nat.one_pos (cons_ne_nil _ _) (.inr rfl) (by decide)
  exact (Joiner.handleLogSyncReq_represents hprior (cons_ne_nil _ _) (.inl (by decide))
    (by decide)).2.2

end Raft
end Xio
