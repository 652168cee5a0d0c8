import Xio.Raft.AppendEntries

/-!
# Raft.LogWrite — what the write loops of the append handler do to a log

The handler walks through the received entries three times: it skips those whose terms it has, it
overwrites, and it appends. Since a write drops everything behind it, at most one entry is
overwritten, and the three loops together replace the log from the first difference on.
-/

namespace Xio
namespace Raft
namespace LogStore

open List

variable {l : LogStore} {i : Nat} {es : List LogEntry} {e : LogEntry}

/-! ## Skipping -/

/-- `k` entries are skipped: each has its term in the log, and the next one has not. -/
theorem skipLoop_spec (l : LogStore) (i : Nat) (es : List LogEntry) :
    ∃ k, k ≤ es.length ∧ l.skipLoop i es = (i + k, es.drop k) ∧
      (∀ j, j < k → i + j < l.nextSlot ∧ ∃ e, es[j]? = some e ∧ l.termAt (i + j) = e.term) ∧
      (∀ e, es[k]? = some e → i + k < l.nextSlot → l.termAt (i + k) ≠ e.term) := by
  induction es generalizing i with
  | nil => exact ⟨0, le_rfl, rfl, by simp, by simp⟩
  | cons e es ih =>
    by_cases h : i < l.nextSlot ∧ l.termAt i = e.term
    · obtain ⟨k, hk, heq, hskip, hstop⟩ := ih (i + 1)
      have hstep : l.skipLoop i (e :: es) = l.skipLoop (i + 1) es := if_pos h
      refine ⟨k + 1, Nat.succ_le_succ hk, ?_, ?_, ?_⟩
      · rw [hstep, heq, drop_succ_cons, Nat.add_right_comm, Nat.add_assoc]
      · intro j hj
        cases j with
        | zero => exact ⟨h.1, e, rfl, h.2⟩
        | succ j =>
          have hidx : i + (j + 1) = i + 1 + j := by omega
          rw [hidx]
          exact hskip j (Nat.lt_of_succ_lt_succ hj)
      · intro e' he'
        have hidx : i + (k + 1) = i + 1 + k := by omega
        rw [hidx]
        exact hstop e' he'
    · refine ⟨0, Nat.zero_le _, if_neg h, by simp, ?_⟩
      intro e' he' hlt hterm
      cases he'
      exact h ⟨hlt, hterm⟩

/-! ## Overwriting and appending -/

@[simp] theorem appendLoop_entries (l : LogStore) (es : List LogEntry) :
    (l.appendLoop es).entries = l.entries ++ es := by
  unfold appendLoop
  induction es generalizing l with
  | nil => simp
  | cons e es ih =>
    rw [foldl_cons, ih]
    simp

@[simp] theorem appendLoop_startIndex (l : LogStore) (es : List LogEntry) :
    (l.appendLoop es).startIndex = l.startIndex := by
  unfold appendLoop
  induction es generalizing l with
  | nil => rfl
  | cons e es ih =>
    rw [foldl_cons, ih]
    rfl

@[simp] theorem appendLoop_nextSlot (l : LogStore) (es : List LogEntry) :
    (l.appendLoop es).nextSlot = l.nextSlot + es.length := by
  simp [nextSlot, Nat.add_assoc]

theorem appendLoop_entryAt_of_lt (es : List LogEntry) (h : i < l.nextSlot) :
    (l.appendLoop es).entryAt i = l.entryAt i := by
  unfold entryAt
  rw [appendLoop_startIndex, appendLoop_entries]
  split
  · rfl
  · unfold nextSlot at h
    rw [getElem?_append_left (by omega)]

theorem appendLoop_entryAt_add (l : LogStore) (es : List LogEntry) (j : Nat) :
    (l.appendLoop es).entryAt (l.nextSlot + j) = es[j]? := by
  rw [entryAt, nextSlot, appendLoop_startIndex, appendLoop_entries, if_neg (by omega),
    getElem?_append_right (by omega)]
  congr 1
  omega

theorem appendLoop_entryAt_cases (h : (l.appendLoop es).entryAt i = some e) :
    l.entryAt i = some e ∨ e ∈ es := by
  induction es generalizing l with
  | nil => exact .inl h
  | cons e' es ih =>
    rcases ih h with h' | hmem
    · rcases append_entryAt_cases h' with hold | ⟨_, rfl⟩
      · exact .inl hold
      · exact .inr mem_cons_self
    · exact .inr (mem_cons_of_mem e' hmem)

theorem overwriteLoop_of_nextSlot_le (h : l.nextSlot ≤ i) (es : List LogEntry) :
    l.overwriteLoop i es = (l, es) := by
  cases es with
  | nil => rfl
  | cons e es => exact if_neg (Nat.not_lt.mpr h)

theorem overwriteLoop_cons (hs : l.startIndex ≤ i) (hn : i < l.nextSlot) (e : LogEntry)
    (es : List LogEntry) : l.overwriteLoop i (e :: es) = (l.writeAt i e, es) := by
  have hnext : (l.writeAt i e).nextSlot ≤ i + 1 := by
    rw [writeAt_of_le e hs]
    simp only [nextSlot, length_append, length_take, length_singleton]
    omega
  have hstep : l.overwriteLoop i (e :: es) = (l.writeAt i e).overwriteLoop (i + 1) es := if_pos hn
  rw [hstep, overwriteLoop_of_nextSlot_le hnext]

theorem writeFrom_entries (hs : l.startIndex ≤ i) (hn : i ≤ l.nextSlot) (hne : es ≠ []) :
    (l.writeFrom i es).entries = l.entries.take (i - l.startIndex) ++ es := by
  unfold writeFrom
  cases es with
  | nil => exact absurd rfl hne
  | cons e es =>
    rcases Nat.lt_or_eq_of_le hn with hlt | heq
    · rw [overwriteLoop_cons hs hlt, appendLoop_entries, writeAt_of_le e hs]
      simp
    · have hall : l.entries.take (i - l.startIndex) = l.entries := by
        rw [heq]
        rw [nextSlot, Nat.add_sub_cancel_left, take_length]
      rw [overwriteLoop_of_nextSlot_le heq.symm.le, appendLoop_entries, hall]

theorem writeFrom_startIndex (hs : l.startIndex ≤ i) (es : List LogEntry) :
    (l.writeFrom i es).startIndex = l.startIndex := by
  rw [writeFrom, appendLoop_startIndex]
  cases es with
  | nil => rfl
  | cons e es =>
    rcases Nat.lt_or_ge i l.nextSlot with hlt | hge
    · rw [overwriteLoop_cons hs hlt, writeAt_of_le e hs]
    · rw [overwriteLoop_of_nextSlot_le hge]

@[simp] theorem writeFrom_nil (l : LogStore) (i : Nat) : l.writeFrom i [] = l := rfl

theorem mem_writeAt {e e' : LogEntry} (h : e' ∈ (l.writeAt i e).entries) :
    e' ∈ l.entries ∨ e' = e := by
  unfold writeAt at h
  split at h
  · exact .inr (mem_singleton.mp h)
  · rcases mem_append.mp h with hold | hnew
    · exact .inl (mem_of_mem_take hold)
    · exact .inr (mem_singleton.mp hnew)

theorem mem_overwriteLoop
    (h : e ∈ (l.overwriteLoop i es).1.entries ∨ e ∈ (l.overwriteLoop i es).2) :
    e ∈ l.entries ∨ e ∈ es := by
  induction es generalizing l i with
  | nil => exact h
  | cons e' es ih =>
    unfold overwriteLoop at h
    split at h
    · rcases ih h with hlog | hes
      · rcases mem_writeAt hlog with hold | rfl
        · exact .inl hold
        · exact .inr mem_cons_self
      · exact .inr (mem_cons_of_mem e' hes)
    · exact h

theorem mem_writeFrom (h : e ∈ (l.writeFrom i es).entries) : e ∈ l.entries ∨ e ∈ es := by
  rw [writeFrom, appendLoop_entries] at h
  exact mem_overwriteLoop (mem_append.mp h)

/-! ## Compaction -/

theorem mem_compact {k : Nat} (h : e ∈ (l.compact k).entries) : e ∈ l.entries := by
  unfold compact at h
  split at h
  · exact mem_of_mem_drop h
  · exact h

theorem compact_startIndex (l : LogStore) (k : Nat) :
    (l.compact k).startIndex = max l.startIndex (k + 1) := by
  unfold compact
  split
  · simp only
    omega
  · omega

end LogStore
end Raft
end Xio
