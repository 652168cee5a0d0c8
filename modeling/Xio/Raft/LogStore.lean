import Xio.Raft.Types

/-!
# Raft.LogStore — the log store contract

`log_store.h` describes a log as a start index and a run of consecutive entries. The model is
that pair. An index outside the run reads as the dummy entry of term `0`, as in the in-memory
store.

- `writeAt` drops every entry at or after the written index
- `compact` moves the start index even where the log holds fewer entries
-/

namespace Xio
namespace Raft

/-- A start index (at least `1`) and the entries from there on. -/
structure LogStore where
  startIndex : Nat
  entries : List LogEntry
  start_pos : 0 < startIndex
  deriving DecidableEq, Repr

namespace LogStore

variable {l : LogStore} {i : Nat}

def empty : LogStore := ⟨1, [], Nat.one_pos⟩

def nextSlot (l : LogStore) : Nat := l.startIndex + l.entries.length

/-- `entry_at`: `none` is the dummy entry that the store returns outside its range. -/
def entryAt (l : LogStore) (i : Nat) : Option LogEntry :=
  if i < l.startIndex then none else l.entries[i - l.startIndex]?

def termAt (l : LogStore) (i : Nat) : Nat :=
  (l.entryAt i).elim 0 LogEntry.term

def lastEntry (l : LogStore) : Option LogEntry := l.entryAt (l.nextSlot - 1)

/-- Term of `last_entry()`: the dummy entry of an empty store has term `0`. -/
def lastEntryTerm (l : LogStore) : Nat := l.lastEntry.elim 0 LogEntry.term

def append (l : LogStore) (e : LogEntry) : LogStore :=
  { l with entries := l.entries ++ [e] }

/-- The contract does not say what a write below the start index leaves. Here that entry is the only
one; `inmem_log_store` keeps its start index and has a gap behind the entry. -/
def writeAt (l : LogStore) (i : Nat) (e : LogEntry) : LogStore :=
  if h : 0 < i ∧ i < l.startIndex then ⟨i, [e], h.1⟩
  else { l with entries := l.entries.take (i - l.startIndex) ++ [e] }

def logEntries (l : LogStore) (start stop : Nat) : List LogEntry :=
  (l.entries.drop (start - l.startIndex)).take (stop - start)

/-- `apply_pack`: the packed entries replace or extend the stored ones from index `i` on. A pack that
leaves a gap is outside of the contract, too: here the entries below the gap are dropped. -/
def applyPack (l : LogStore) (i : Nat) (es : List LogEntry) : LogStore :=
  if es = [] then if l.entries = [] then empty else l
  else if h : 0 < i ∧ (i < l.startIndex ∨ l.nextSlot < i ∨ l.entries = []) then
    ⟨i, es ++ l.entries.drop (i + es.length - l.startIndex), h.1⟩
  else
    { l with
      entries := l.entries.take (i - l.startIndex) ++ es
        ++ l.entries.drop (i - l.startIndex + es.length) }

def compact (l : LogStore) (last : Nat) : LogStore :=
  if l.startIndex ≤ last then
    ⟨last + 1, l.entries.drop (last + 1 - l.startIndex), Nat.succ_pos _⟩
  else l

/-! ## Reading -/

theorem entryAt_eq_some_iff {e : LogEntry} :
    l.entryAt i = some e ↔ l.startIndex ≤ i ∧ l.entries[i - l.startIndex]? = some e := by
  unfold entryAt
  split
  · constructor
    · intro h; cases h
    · intro h; omega
  · constructor
    · intro h; exact ⟨by omega, h⟩
    · intro h; exact h.2

theorem entryAt_isSome_iff : (l.entryAt i).isSome ↔ l.startIndex ≤ i ∧ i < l.nextSlot := by
  unfold entryAt nextSlot
  split
  · constructor
    · intro h; simp at h
    · intro h; omega
  · rw [isSome_getElem?]
    omega

theorem entryAt_lt_nextSlot {e : LogEntry} (h : l.entryAt i = some e) : i < l.nextSlot :=
  (entryAt_isSome_iff.mp (h ▸ rfl)).2

theorem termAt_of_entryAt {e : LogEntry} (h : l.entryAt i = some e) : l.termAt i = e.term := by
  simp [termAt, h]

theorem exists_entryAt_of_termAt_ne_zero (h : l.termAt i ≠ 0) :
    ∃ e, l.entryAt i = some e ∧ e.term = l.termAt i := by
  unfold termAt at h ⊢
  cases he : l.entryAt i with
  | none => simp [he] at h
  | some e => exact ⟨e, rfl, rfl⟩

/-! ## Writing -/

@[simp] theorem append_startIndex (l : LogStore) (e : LogEntry) :
    (l.append e).startIndex = l.startIndex := rfl

@[simp] theorem append_entries (l : LogStore) (e : LogEntry) :
    (l.append e).entries = l.entries ++ [e] := rfl

@[simp] theorem append_nextSlot (l : LogStore) (e : LogEntry) :
    (l.append e).nextSlot = l.nextSlot + 1 := by
  simp [nextSlot]
  omega

theorem append_entryAt_of_lt (e : LogEntry) (h : i < l.nextSlot) :
    (l.append e).entryAt i = l.entryAt i := by
  unfold entryAt
  rw [append_startIndex, append_entries]
  split
  · rfl
  · unfold nextSlot at h
    rw [List.getElem?_append_left (by omega)]

@[simp] theorem append_entryAt_nextSlot (l : LogStore) (e : LogEntry) :
    (l.append e).entryAt l.nextSlot = some e := by
  simp [entryAt, nextSlot]

theorem append_entryAt_cases {e e' : LogEntry} (h : (l.append e).entryAt i = some e') :
    l.entryAt i = some e' ∨ i = l.nextSlot ∧ e' = e := by
  have hlt := entryAt_lt_nextSlot h
  rw [append_nextSlot] at hlt
  rcases Nat.lt_or_eq_of_le (Nat.le_of_lt_succ hlt) with hlt' | heq
  · rw [append_entryAt_of_lt e hlt'] at h
    exact .inl h
  · rw [heq, append_entryAt_nextSlot] at h
    cases h
    exact .inr ⟨heq, rfl⟩

theorem writeAt_of_le (e : LogEntry) (h : l.startIndex ≤ i) :
    l.writeAt i e = { l with entries := l.entries.take (i - l.startIndex) ++ [e] } := by
  rw [writeAt, dif_neg (by omega)]

theorem nextSlot_pos (l : LogStore) : 0 < l.nextSlot :=
  Nat.lt_of_lt_of_le l.start_pos (Nat.le_add_right _ _)

theorem compact_entryAt (l : LogStore) (k j : Nat) :
    (l.compact k).entryAt j = if j ≤ k then none else l.entryAt j := by
  unfold compact entryAt
  by_cases hstart : l.startIndex ≤ k
  · rw [if_pos hstart]
    dsimp only
    by_cases hj : j ≤ k
    · rw [if_pos hj, if_pos (by omega)]
    · rw [if_neg hj, if_neg (by omega), if_neg (by omega), List.getElem?_drop]
      congr 1
      omega
  · rw [if_neg hstart]
    split
    · split <;> rfl
    · rw [if_neg (by omega)]

theorem compact_nextSlot {k : Nat} (h : k < l.nextSlot) : (l.compact k).nextSlot = l.nextSlot := by
  unfold compact nextSlot at *
  split
  · simp only [List.length_drop]
    omega
  · rfl

theorem compact_nextSlot_ge (l : LogStore) (k : Nat) : l.nextSlot ≤ (l.compact k).nextSlot := by
  unfold compact nextSlot
  split
  · simp only [List.length_drop]
    omega
  · exact Nat.le_refl _

end LogStore

end Raft
end Xio
