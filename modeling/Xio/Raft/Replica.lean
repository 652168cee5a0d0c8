import Xio.Lib.ReplicatedLog
import Xio.Raft.LogStep

/-!
# Raft.Replica — the part of a log that a server still has

A log grows from index `1` on, and compaction takes its beginning away. `Holds V w` says that a
server has the log `V`, from its start index on, and that its snapshots describe positions of `V`.
The lemmas say what the operations of a replica mean for `V`: appending extends it, a received
request replaces it by a prefix of the leader's log or leaves it alone, and compaction does nothing
to it.
-/

namespace Xio
namespace Raft

open ReplicatedLog List RaftServer LogStore

/-- The snapshot is taken at a position of the log. -/
def Snapshot.On (snp : Snapshot) (V : List LogEntry) : Prop :=
  At LogEntry.term V snp.lastLogIdx snp.lastLogTerm

namespace LogView

/-- Index of the last snapshot, `0` before the first one. -/
def snapshotIdx (w : LogView) : Nat := w.lastSnapshot.elim 0 Snapshot.lastLogIdx

/-- The last index that a snapshot covers, or will cover once it is created. -/
def coveredIdx (w : LogView) : Nat :=
  max w.snapshotIdx (w.snpInProgress.elim 0 Snapshot.lastLogIdx)

end LogView

structure Holds (V : List LogEntry) (w : LogView) : Prop where
  start : w.log.startIndex ≤ V.length + 1
  entries : w.log.entries = V.drop (w.log.startIndex - 1)
  last : ∀ snp, w.lastSnapshot = some snp → snp.On V
  kept : w.log.startIndex ≤ w.snapshotIdx + 1
  creating : ∀ snp, w.snpInProgress = some snp →
    0 < snp.lastLogIdx ∧ (snp.On V ∨ snp.lastLogIdx ≤ w.snapshotIdx)
  applied : w.smCommitIndex ≤ V.length

namespace Holds

variable {V V' L : List LogEntry} {w : LogView} {s : RaftServer} {i : Nat}

theorem congr {w' : LogView} (h : Holds V w) (hlog : w'.log = w.log)
    (hlast : w'.lastSnapshot = w.lastSnapshot) (hcreate : w'.snpInProgress = w.snpInProgress)
    (hsm : w'.smCommitIndex = w.smCommitIndex) : Holds V w' := by
  have hidx : w'.snapshotIdx = w.snapshotIdx := by
    unfold LogView.snapshotIdx
    rw [hlast]
  refine ⟨?_, ?_, ?_, ?_, ?_, ?_⟩
  · rw [hlog]
    exact h.start
  · rw [hlog]
    exact h.entries
  · rw [hlast]
    exact h.last
  · rw [hlog, hidx]
    exact h.kept
  · rw [hcreate, hidx]
    exact h.creating
  · rw [hsm]
    exact h.applied

theorem nextSlot (h : Holds V w) : w.log.nextSlot = V.length + 1 := by
  have hstart := h.start
  have hpos := w.log.start_pos
  rw [LogStore.nextSlot, h.entries, length_drop]
  omega

theorem entryAt_of_le (h : Holds V w) (hi : w.log.startIndex ≤ i) :
    w.log.entryAt i = V[i - 1]? := by
  have hpos := w.log.start_pos
  rw [entryAt, if_neg (Nat.not_lt.mpr hi), h.entries, getElem?_drop]
  congr 1
  omega

theorem of_entryAt (h : Holds V w) {e : LogEntry} (he : w.log.entryAt i = some e) :
    0 < i ∧ V[i - 1]? = some e := by
  have hle := (entryAt_eq_some_iff.mp he).1
  exact ⟨w.log.start_pos.trans_le hle, (h.entryAt_of_le hle).symm.trans he⟩

theorem at_of_termAt (h : Holds V w) (hne : w.log.termAt i ≠ 0) :
    At LogEntry.term V i (w.log.termAt i) := by
  obtain ⟨e, he, hterm⟩ := exists_entryAt_of_termAt_ne_zero hne
  obtain ⟨hpos, hget⟩ := h.of_entryAt he
  exact ⟨e, hpos, hget, hterm⟩

theorem snapshotIdx_le (h : Holds V w) : w.snapshotIdx ≤ V.length := by
  unfold LogView.snapshotIdx
  cases hlast : w.lastSnapshot with
  | none => exact Nat.zero_le _
  | some snp => exact (h.last snp hlast).le_length

theorem coveredIdx_le (h : Holds V w) : w.coveredIdx ≤ V.length := by
  refine Nat.max_le.mpr ⟨h.snapshotIdx_le, ?_⟩
  cases hcreate : w.snpInProgress with
  | none => exact Nat.zero_le _
  | some snp =>
    rcases (h.creating snp hcreate).2 with hon | hle
    · exact hon.le_length
    · exact hle.trans h.snapshotIdx_le

theorem at_of_termForLog (h : Holds V s.logView) (hne : s.termForLog i ≠ 0) :
    At LogEntry.term V i (s.termForLog i) := by
  unfold termForLog at hne ⊢
  split at hne
  · exact absurd rfl hne
  next hi =>
  rw [if_neg hi]
  split at hne
  · next hle =>
    rw [if_pos hle]
    exact h.at_of_termAt hne
  next hle =>
  rw [if_neg hle]
  cases hlast : s.lastSnapshot with
  | none =>
    rw [hlast] at hne
    exact absurd rfl hne
  | some snp =>
    rw [hlast] at hne
    dsimp only at hne ⊢
    split at hne
    · next heq =>
      rw [if_pos heq, heq]
      exact h.last snp hlast
    · exact absurd rfl hne

/-- The position that a candidate sends is the end of its log, even if all of it is compacted. -/
theorem termForLog_last (h : Holds V s.logView) :
    s.termForLog (s.log.nextSlot - 1) = lastTerm LogEntry.term V := by
  have hnext : s.log.nextSlot - 1 = V.length := by
    have := h.nextSlot
    simp only [logView] at this
    omega
  rw [hnext]
  rcases eq_nil_or_concat' V with rfl | ⟨p, e, rfl⟩
  · rfl
  have hlast : lastTerm LogEntry.term (p ++ [e]) = e.term := by simp [lastTerm]
  have hget : (p ++ [e])[(p ++ [e]).length - 1]? = some e := by simp
  have hlen : 0 < (p ++ [e]).length := by simp
  generalize hV : p ++ [e] = V at *
  rw [hlast]
  rw [termForLog, if_neg (by omega)]
  by_cases hle : s.log.startIndex ≤ V.length
  · rw [if_pos hle]
    refine termAt_of_entryAt ?_
    exact (h.entryAt_of_le hle).trans hget
  · -- the last entry is the one of the last snapshot
    rw [if_neg hle]
    have hkept : s.log.startIndex ≤ s.logView.snapshotIdx + 1 := h.kept
    have hsnp := h.snapshotIdx_le
    cases hsome : s.lastSnapshot with
    | none =>
      have hzero : s.logView.snapshotIdx = 0 := by
        rw [LogView.snapshotIdx, logView, hsome]
        rfl
      omega
    | some snp =>
      have hidx : s.logView.snapshotIdx = snp.lastLogIdx := by
        rw [LogView.snapshotIdx, logView, hsome]
        rfl
      have heq : V.length = snp.lastLogIdx := by omega
      dsimp only
      rw [if_pos heq]
      obtain ⟨e', -, he', hterm⟩ := h.last snp hsome
      rw [← heq, hget] at he'
      cases he'
      exact hterm.symm

/-! ## Operations -/

theorem append (h : Holds V w) (es : List LogEntry) :
    Holds (V ++ es) { w with log := w.log.appendLoop es } where
  start := by
    have hstart := h.start
    simp only [appendLoop_startIndex, length_append]
    omega
  entries := by
    have hstart := h.start
    simp only [appendLoop_startIndex, appendLoop_entries]
    rw [h.entries, drop_append_of_le_length (by omega)]
  last snp hsnp := (h.last snp hsnp).mono (prefix_append _ _)
  kept := by
    rw [appendLoop_startIndex]
    exact h.kept
  creating snp hsnp := by
    obtain ⟨hpos, hon⟩ := h.creating snp hsnp
    exact ⟨hpos, hon.imp_left (fun hon => hon.mono (prefix_append _ _))⟩
  applied := by
    have happlied := h.applied
    rw [length_append]
    exact happlied.trans (Nat.le_add_right _ _)

theorem replace (h : Holds V w) {k : Nat} (hk : k ≤ V.length) (hcovered : w.coveredIdx ≤ k)
    {l : LogStore} {rest : List LogEntry} {sm : Nat} (hstart : l.startIndex = w.log.startIndex)
    (hentries : l.entries = w.log.entries.take (k + 1 - w.log.startIndex) ++ rest)
    (hsm : sm ≤ w.smCommitIndex ∧ (k < sm → sm ≤ k + rest.length)) :
    Holds (V.take k ++ rest) { w with log := l, smCommitIndex := sm } := by
  have hpos := w.log.start_pos
  have hidx : w.snapshotIdx ≤ k := (Nat.le_max_left _ _).trans hcovered
  have hkept := h.kept
  have hlen : (V.take k ++ rest).length = k + rest.length := by
    rw [length_append, length_take, Nat.min_eq_left hk]
  have hpre : (V.take k ++ rest).take k = V.take k := by
    rw [take_append_of_le_length (by rw [length_take]; omega), take_take, Nat.min_self]
  -- positions up to `k` are the same in both logs
  have hon {snp : Snapshot} (hsnp : snp.On V) (hle : snp.lastLogIdx ≤ k) :
      snp.On (V.take k ++ rest) := by
    refine hsnp.congr ?_
    have := congrArg (take snp.lastLogIdx) hpre
    rw [take_take, take_take, Nat.min_eq_left hle] at this
    exact this.symm
  refine ⟨?_, ?_, ?_, ?_, ?_, ?_⟩
  · dsimp only
    omega
  · rw [hentries, hstart, h.entries, drop_append_of_le_length
      (by rw [length_take]; omega), drop_take]
    congr 2
    omega
  · intro snp hsnp
    refine hon (h.last snp hsnp) (Nat.le_trans (Nat.le_of_eq ?_) hidx)
    rw [LogView.snapshotIdx, show w.lastSnapshot = some snp from hsnp]
    rfl
  · rwa [hstart]
  · intro snp hsnp
    obtain ⟨hp, hor⟩ := h.creating snp hsnp
    refine ⟨hp, hor.imp_left (fun hsnp' => hon hsnp' (Nat.le_trans ?_ hcovered))⟩
    rw [LogView.coveredIdx, show w.snpInProgress = some snp from hsnp]
    exact Nat.le_max_right _ _
  · rw [hlen]
    dsimp only
    by_cases hlt : k < sm
    · exact hsm.2 hlt
    · omega

/-! ## Received entries -/

section Write

variable {last : Nat} {es : List LogEntry}

theorem getElem?_of_drop (hes : es <+: L.drop last) {j : Nat} {e : LogEntry}
    (he : es[j]? = some e) : L[last + j]? = some e := by
  obtain ⟨m, hm⟩ := hes
  rwa [← getElem?_drop, ← hm, getElem?_append_left (List.getElem?_eq_some_iff.mp he).1]

theorem take_add_of_drop (hes : es <+: L.drop last) :
    L.take (last + es.length) = L.take last ++ es := by
  rw [take_add]
  congr 1
  exact (prefix_iff_eq_take.mp hes).symm

theorem take_eq_of_skipped (h : Holds V w) (hagree : V.take last = L.take last)
    (hes : es <+: L.drop last) (hpos : ∀ e ∈ L, 0 < e.term)
    (hmatch : ∀ i t, At LogEntry.term V i t → At LogEntry.term L i t → V.take i = L.take i)
    {k : Nat} (hskip : ∀ j, j < k → last + 1 + j < w.log.nextSlot ∧
      ∃ e, es[j]? = some e ∧ w.log.termAt (last + 1 + j) = e.term) :
    V.take (last + k) = L.take (last + k) := by
  cases k with
  | zero => exact hagree
  | succ k =>
    obtain ⟨-, e, he, hterm⟩ := hskip k (Nat.lt_succ_self k)
    have hget := getElem?_of_drop hes he
    have hidx : last + 1 + k = last + (k + 1) := by omega
    have hne : w.log.termAt (last + (k + 1)) ≠ 0 := by
      have := hpos e (mem_of_getElem? hget)
      rw [← hidx, hterm]
      omega
    refine hmatch _ _ (h.at_of_termAt hne) ⟨e, by omega, hget, ?_⟩
    rw [← hidx, hterm]

theorem write (h : Holds V s.logView) (hlast : last ≤ V.length)
    (hagree : V.take last = L.take last) (hes : es <+: L.drop last) (hpos : ∀ e ∈ L, 0 < e.term)
    (hmatch : ∀ i t, At LogEntry.term V i t → At LogEntry.term L i t → V.take i = L.take i)
    (hspare : ∀ j e, es[j]? = some e → last + 1 + j ≤ s.logView.coveredIdx →
      s.log.termAt (last + 1 + j) = e.term) :
    Holds (follow L (last + es.length) V) (s.writeEntries (last + 1) es).logView := by
  obtain ⟨k, hk, heq, hskip, hstop⟩ := skipLoop_spec s.log (last + 1) es
  have hsame := take_eq_of_skipped h hagree hes hpos hmatch hskip
  have hnext : s.log.nextSlot = V.length + 1 := h.nextSlot
  have hle : last + k ≤ V.length := by
    cases k with
    | zero => exact hlast
    | succ k =>
      have := (hskip k (Nat.lt_succ_self k)).1
      omega
  rw [writeEntries, heq]
  dsimp only
  rcases Nat.lt_or_eq_of_le hk with hlt | hall
  · -- the entry at position `k` is the first one that differs
    obtain ⟨e, he⟩ : ∃ e, es[k]? = some e := ⟨_, getElem?_eq_getElem hlt⟩
    have hget := getElem?_of_drop hes he
    have hne : es.drop k ≠ [] := by
      intro hnil
      have := drop_eq_nil_iff.mp hnil
      omega
    have hcovered : s.logView.coveredIdx ≤ last + k := by
      by_contra hcov
      have hbound := h.coveredIdx_le
      exact hstop e he (by omega) (hspare k e he (by omega))
    have hstart : s.log.startIndex ≤ last + 1 + k := by
      have hkept : s.log.startIndex ≤ s.logView.snapshotIdx + 1 := h.kept
      have := (Nat.le_max_left _ _).trans hcovered
      omega
    have hfollow : follow L (last + es.length) V = V.take (last + k) ++ es.drop k := by
      have htake : L.take (last + es.length) = V.take (last + k) ++ es.drop k := by
        rw [hsame, take_add_of_drop hes, take_add, append_assoc]
        congr 1
        obtain ⟨m, hm⟩ := hes
        rw [← hm, take_append_of_le_length hk, take_append_drop]
      rw [follow, if_neg, htake]
      intro hpre
      have hin : V[last + k]? = some e := by
        obtain ⟨m, hm⟩ := hpre
        have hlen := (List.getElem?_eq_some_iff.mp hget).1
        rw [← hm, getElem?_append_left (by rw [length_take]; omega), getElem?_take_of_lt (by omega)]
        exact hget
      have hin' : s.log.entryAt (last + 1 + k) = some e := by
        refine (h.entryAt_of_le hstart).trans ?_
        rwa [show last + 1 + k - 1 = last + k by omega]
      exact hstop e he (entryAt_lt_nextSlot hin') (termAt_of_entryAt hin')
    have hwrite : (s.log.writeFrom (last + 1 + k) (es.drop k)).entries =
        s.log.entries.take (last + k + 1 - s.log.startIndex) ++ es.drop k := by
      rw [writeFrom_entries hstart (by omega) hne]
      congr 3
      omega
    have hwstart := writeFrom_startIndex hstart (es.drop k)
    have happlied : s.smCommitIndex ≤ V.length := h.applied
    rw [hfollow]
    split
    · have hsm : (if last + 1 + k ≤ s.smCommitIndex then last + 1 + k - 1 else s.smCommitIndex) ≤
          s.logView.smCommitIndex ∧ (last + k <
            (if last + 1 + k ≤ s.smCommitIndex then last + 1 + k - 1 else s.smCommitIndex) →
          (if last + 1 + k ≤ s.smCommitIndex then last + 1 + k - 1 else s.smCommitIndex) ≤
            last + k + (es.drop k).length) := by
        have hview : s.logView.smCommitIndex = s.smCommitIndex := rfl
        split <;> omega
      have hroll := h.replace hle hcovered hwstart hwrite hsm
      exact { hroll with }
    · next hnot =>
      have hend : last + k = V.length := by
        by_contra hmid
        exact hnot ⟨by omega, hne⟩
      have hsm : s.smCommitIndex ≤ s.logView.smCommitIndex ∧
          (last + k < s.smCommitIndex → s.smCommitIndex ≤ last + k + (es.drop k).length) :=
        ⟨le_rfl, fun _ => by omega⟩
      exact h.replace hle hcovered hwstart hwrite hsm
  · -- everything is there already
    have hnil : es.drop k = [] := by rw [hall, drop_length]
    have hfollow : follow L (last + es.length) V = V := by
      rw [follow, if_pos]
      rw [← hall, ← hsame]
      exact take_prefix _ _
    rwa [hfollow, hnil, if_neg (by simp)]

end Write

/-! ## Snapshots -/

theorem move (h : Holds V w) {k : Nat} (hk : k ≤ V.length) :
    Holds V { w with smCommitIndex := k } :=
  { h with applied := hk }

theorem drop (h : Holds V w) : Holds V { w with snpInProgress := none } :=
  { h with creating := nofun }

theorem create (h : Holds V w) {snp : Snapshot} (hidx : snp.lastLogIdx = w.smCommitIndex)
    (hterm : snp.lastLogTerm = w.log.termAt w.smCommitIndex)
    (hlt : w.snapshotIdx < w.smCommitIndex) : Holds V { w with snpInProgress := some snp } := by
  refine { h with creating := ?_ }
  rintro snp' ⟨⟩
  have hkept := h.kept
  have happlied := h.applied
  have hpos : 0 < w.smCommitIndex := by omega
  obtain ⟨e, he⟩ : ∃ e, V[w.smCommitIndex - 1]? = some e := ⟨_, getElem?_eq_getElem (by omega)⟩
  have hentry := (h.entryAt_of_le (i := w.smCommitIndex) (by omega)).trans he
  refine ⟨hidx ▸ hpos, .inl ⟨e, hidx ▸ hpos, hidx ▸ he, ?_⟩⟩
  rw [hterm]
  exact (termAt_of_entryAt hentry).symm

theorem compact (h : Holds V w) {snp : Snapshot} (hon : snp.On V)
    (hle : w.snapshotIdx ≤ snp.lastLogIdx) {k : Nat} (hk : k ≤ snp.lastLogIdx) :
    Holds V { w with log := w.log.compact k, lastSnapshot := some snp } := by
  have hlen := hon.le_length
  have hkept := h.kept
  have hpos := w.log.start_pos
  refine ⟨?_, ?_, ?_, ?_, ?_, h.applied⟩
  · rw [compact_startIndex]
    omega
  · unfold LogStore.compact
    split
    · dsimp only
      rw [h.entries, drop_drop]
      congr 1
      omega
    · exact h.entries
  · rintro snp' ⟨⟩
    exact hon
  · have hnew : LogView.snapshotIdx { w with log := w.log.compact k, lastSnapshot := some snp } =
        snp.lastLogIdx := rfl
    rw [compact_startIndex]
    omega
  · intro snp' hsnp'
    obtain ⟨hp, hor⟩ := h.creating snp' hsnp'
    exact ⟨hp, hor.imp_right (fun hidx => hidx.trans hle)⟩

theorem latest (h : Holds V s.logView) {snp : Snapshot} (hsnp : s.snpInProgress = some snp) :
    (s.latestSnapshot snp).On V ∧ s.logView.snapshotIdx ≤ (s.latestSnapshot snp).lastLogIdx := by
  obtain ⟨hpos, hor⟩ := h.creating snp hsnp
  unfold latestSnapshot
  cases hlast : s.lastSnapshot with
  | none =>
    have hzero : s.logView.snapshotIdx = 0 := by
      rw [LogView.snapshotIdx, logView, hlast]
      rfl
    exact ⟨hor.resolve_right (by omega), by omega⟩
  | some old =>
    have hidx : s.logView.snapshotIdx = old.lastLogIdx := by
      rw [LogView.snapshotIdx, logView, hlast]
      rfl
    dsimp only
    split
    · exact ⟨h.last old hlast, hidx.le⟩
    · exact ⟨hor.resolve_right (by omega), by omega⟩

theorem adopt (h : Holds V s.logView) {snp : Snapshot} (hsnp : s.snpInProgress = some snp) :
    Holds V { s.logView with
      lastSnapshot := some (s.latestSnapshot snp)
      log := s.compactedLog (s.latestSnapshot snp)
      snpInProgress := none } := by
  obtain ⟨hon, hle⟩ := h.latest hsnp
  have hlog : s.compactedLog (s.latestSnapshot snp) =
      s.log.compact ((s.latestSnapshot snp).lastLogIdx - s.params.reservedLogItems) := by
    have hpos := s.log.start_pos
    unfold compactedLog
    split
    · rfl
    · rw [LogStore.compact, if_neg (by omega)]
  rw [hlog]
  exact (h.compact hon hle (Nat.sub_le _ _)).drop

theorem installKnown (h : Holds V w) {pending : PendingInstall} {conf : ClusterConfig}
    (hon : pending.snapshot.On V) (hle : w.snapshotIdx ≤ pending.snapshot.lastLogIdx) :
    Holds V (w.install pending conf) := by
  have hon' : Snapshot.On { pending.snapshot with lastConfig := conf } V := hon
  have hcompact := (h.compact hon' hle le_rfl).move hon.le_length
  exact { hcompact with }

theorem installAhead (h : Holds V w) {pending : PendingInstall} {conf : ClusterConfig}
    (hon : pending.snapshot.On L) (hle : V.length ≤ pending.snapshot.lastLogIdx) :
    Holds (L.take pending.snapshot.lastLogIdx) (w.install pending conf) := by
  have hlen : (L.take pending.snapshot.lastLogIdx).length = pending.snapshot.lastLogIdx := by
    rw [length_take, Nat.min_eq_left hon.le_length]
  have hstart := h.start
  have hlog : (w.log.compact pending.snapshot.lastLogIdx).startIndex =
      pending.snapshot.lastLogIdx + 1 := by
    rw [compact_startIndex]
    omega
  have hnone : (w.log.compact pending.snapshot.lastLogIdx).entries = [] := by
    have hnext := h.nextSlot
    unfold LogStore.nextSlot at hnext
    apply eq_nil_of_length_eq_zero
    unfold LogStore.compact
    split
    · rw [length_drop]
      omega
    · omega
  refine ⟨?_, ?_, ?_, ?_, ?_, hlen.ge⟩
  · rw [hlen]
    exact hlog.le
  · show (w.log.compact pending.snapshot.lastLogIdx).entries =
      (L.take pending.snapshot.lastLogIdx).drop
        ((w.log.compact pending.snapshot.lastLogIdx).startIndex - 1)
    rw [hnone, hlog, drop_eq_nil_of_le (by omega)]
  · rintro snp ⟨⟩
    refine At.congr hon ?_
    rw [take_take, Nat.min_self]
  · exact hlog.le
  · intro snp hsnp
    obtain ⟨hpos, hor⟩ := h.creating snp hsnp
    refine ⟨hpos, .inr (Nat.le_trans ?_ hle)⟩
    rcases hor with hon' | hidx
    · exact hon'.le_length
    · exact hidx.trans h.snapshotIdx_le

theorem restart (h : Holds V w) {applied : Nat} (hle : applied ≤ w.smCommitIndex) :
    Holds V (w.restart applied) :=
  ⟨h.start, h.entries, h.last, h.kept, nofun, hle.trans h.applied⟩

end Holds

end Raft
end Xio
