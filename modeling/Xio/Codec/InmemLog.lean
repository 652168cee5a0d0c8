import Xio.Lib.Runs
import Xio.Rpc.Request

/-!
# Codec.InmemLog — the in-memory log store as a list

`inmem_log_store` keeps its entries in a map from indices to entries, with a dummy entry at index
`0`. The next slot is not stored: it is the start index plus the number of keys, less the dummy, so
it is right only as long as the keys behind the dummy have no gap. Packs carry entries from one store
to another as bytes.

- `Represents`: the map has no gap, and holds the entries of a list from a start index on
- `step_represents`: every operation keeps it, and does to the list what it is for
- `refines_list`: the same over every sequence of operations

Buffers are given by their bytes, and indices by numbers. The source keeps them in 64 bits: a store
whose next slot would reach `2^64` is left out. An operation that throws, or that ends the process
because an entry is missing, has no result.
-/

namespace Xio
namespace Codec

open ByteCodec Rpc List Function Option

variable {es : List LogEntry}

/-! ## Entries in a pack -/

/-- `log_entry::serialize`, which throws when no buffer is large enough. -/
def serializeEntry (e : LogEntry) : Option Bytes :=
  if 8 + 1 + e.buf.length ≥ 0x80000000 then none
  else some (putU64 e.term ++ putU8 e.valType ++ e.buf)

/-- `log_entry::deserialize`. The constructor computes the checksum. -/
def deserializeEntry (buf : Bytes) : Option LogEntry := do
  let (term, rest) ← getU64 buf
  let (valType, data) ← getU8 rest
  return ⟨term, valType, data, 0, true, crc32_8 data 0⟩

/-- What a pack says about an entry. -/
def entryBytes (e : LogEntry) : Bytes := putU64 e.term ++ putU8 e.valType ++ e.buf

/-- The entry that is read from a pack. -/
def unpacked (e : LogEntry) : LogEntry := ⟨e.term, e.valType, e.buf, 0, true, crc32_8 e.buf 0⟩

def packBytes (es : List LogEntry) : Bytes :=
  putI32 (Int32.ofNat es.length) ++
    es.flatMap (fun e => putI32 (Int32.ofNat (entryBytes e).length) ++ entryBytes e)

theorem deserializeEntry_bytes (e : LogEntry) : deserializeEntry (entryBytes e) = some (unpacked e) := by
  simp only [deserializeEntry, entryBytes, append_assoc, getU64_put, bind_eq_bind,
    bind_some, getU8_put]
  rfl

theorem length_entryBytes (e : LogEntry) : (entryBytes e).length = 8 + 1 + e.buf.length := by
  simp only [entryBytes, length_append, length_putU64, length_putU8]

theorem length_packBytes (es : List LogEntry) :
    (packBytes es).length = 4 + es.length * 4 + (es.map fun e => (entryBytes e).length).sum := by
  rw [packBytes, length_append, length_putI32]
  induction es with
  | nil => rfl
  | cons e es ih =>
    simp only [flatMap_cons, length_append, length_cons, map_cons, sum_cons, length_putI32] at ih ⊢
    omega

theorem length_entryBytes_le {e : LogEntry} (he : e ∈ es) :
    (entryBytes e).length ≤ (es.map fun e => (entryBytes e).length).sum := by
  induction es with
  | nil => cases he
  | cons e' es ih =>
    rcases mem_cons.mp he with rfl | hmem
    · exact Nat.le_add_right _ _
    · exact (ih hmem).trans (Nat.le_add_left _ _)

/-! ## The store -/

/-- `start_idx_` and the map `logs_`, as its keys and the entries at them. -/
structure InmemLogStore where
  startIdx : Nat
  keys : Finset Nat
  logs : Nat → LogEntry

namespace InmemLogStore

/-- The constructor; the dummy entry is of a buffer that is not written to. -/
def init (junk : Bytes) : InmemLogStore :=
  { startIdx := 1, keys := {0}, logs := fun _ => ⟨0, 1, junk, 0, true, crc32_8 junk 0⟩ }

variable (s : InmemLogStore)

/-- `logs_[i] = e` -/
def assign (i : Nat) (e : LogEntry) : InmemLogStore :=
  { s with keys := insert i s.keys, logs := Function.update s.logs i e }

def nextSlot : Nat := s.startIdx + s.keys.card - 1

/-- A clone has all fields of the entry. -/
def append (e : LogEntry) : InmemLogStore := s.assign s.nextSlot e

def writeAt (index : Nat) (e : LogEntry) : InmemLogStore :=
  -- everything from `lower_bound(index)` on is erased
  { s with keys := s.keys.filter (· < index) }.assign index e

def pack (index cnt : Nat) : Option Bytes := do
  let bufs ← (List.range' index cnt).mapM fun ii =>
    -- `logs_[ii]` makes a null entry where there is none, and the assertion ends the process
    if ii ∈ s.keys then serializeEntry (s.logs ii) else none
  if 4 + cnt * 4 + (bufs.map List.length).sum ≥ 0x80000000 then none
  else some (putI32 (Int32.ofNat cnt) ++ bufs.flatMap fun b => putI32 (Int32.ofNat b.length) ++ b)

def applyLoop (s : InmemLogStore) (curIdx : Nat) : Nat → Bytes → Option InmemLogStore
  | 0, _ => some s
  | n + 1, bs => do
    let (bufSize, bs) ← getI32 bs
    let (bufLocal, bs) ← raw bufSize.toInt64.toUInt64.toNat bs
    let le ← deserializeEntry bufLocal
    applyLoop (s.assign curIdx le) (curIdx + 1) n bs

/-- `upper_bound(0)`, and `1` at the end of the map. -/
def firstKey : Nat := (s.keys.filter (0 < ·)).min.untopD 1

def applyPack (index : Nat) (pack : Bytes) : Option InmemLogStore := do
  let (numLogs, bs) ← getI32 pack
  let s ← s.applyLoop index numLogs.toInt.toNat bs
  return { s with startIdx := s.firstKey }

def compact (lastLogIndex : Nat) : InmemLogStore :=
  { s with
    keys := (List.range' s.startIdx (lastLogIndex + 1 - s.startIdx)).foldl Finset.erase s.keys
    startIdx := if s.startIdx ≤ lastLogIndex then lastLogIndex + 1 else s.startIdx }

end InmemLogStore

/-! ## What it is for -/

/-- A start index, and the entries from there on. -/
structure ListLog where
  start : Nat
  entries : List LogEntry

/-- A call. `applyPack` is given the entries that are in the pack. -/
inductive StoreOp
  | append (e : LogEntry)
  | writeAt (index : Nat) (e : LogEntry)
  | compact (lastLogIndex : Nat)
  | pack (index cnt : Nat)
  | applyPack (index : Nat) (es : List LogEntry)

namespace ListLog

def nextSlot (l : ListLog) : Nat := l.start + l.entries.length

/-- What a call does to the list. A pack for an empty store decides where it starts; what it has for
index `0` is behind the list. -/
def step (l : ListLog) : StoreOp → ListLog
  | .append e => { l with entries := l.entries ++ [e] }
  | .writeAt i e => { l with entries := l.entries.take (i - l.start) ++ [e] }
  | .compact j => ⟨max l.start (j + 1), l.entries.drop (j + 1 - l.start)⟩
  | .pack _ _ => l
  | .applyPack i es =>
    if l.entries = [] then ⟨max 1 i, (es.drop (1 - i)).map unpacked⟩
    else { l with
      entries := l.entries.take (i - l.start) ++ es.map unpacked ++
        l.entries.drop (i - l.start + es.length) }

end ListLog

namespace InmemLogStore

def next (s : InmemLogStore) : StoreOp → Option InmemLogStore
  | .append e => some (s.append e)
  | .writeAt i e => some (s.writeAt i e)
  | .compact j => some (s.compact j)
  | .pack k c => (s.pack k c).map fun _ => s
  | .applyPack i es => s.applyPack i (packBytes es)

/-- The index is inside the log or right behind it. -/
def InRange (s : InmemLogStore) (i : Nat) : Prop := s.startIdx ≤ i ∧ i ≤ s.nextSlot

/-- Entries are written without leaving a gap, and a pack is one that a buffer can hold. -/
def Allowed (s : InmemLogStore) : StoreOp → Prop
  | .writeAt i _ => s.InRange i
  | .applyPack i es => es ≠ [] ∧ (packBytes es).length < 0x80000000 ∧
      (s.InRange i ∨ s.nextSlot = s.startIdx)
  | _ => True

instance (s : InmemLogStore) (op : StoreOp) : Decidable (s.Allowed op) := by
  cases op <;> (dsimp only [Allowed, InRange]; infer_instance)

/-- The keys are the dummy and the indices of the list, and the entries are those of the list. -/
structure Represents (s : InmemLogStore) (l : ListLog) : Prop where
  start : s.startIdx = l.start
  pos : 0 < l.start
  keys : s.keys = insert 0 (Finset.Ico l.start l.nextSlot)
  entries : ∀ n < l.entries.length, l.entries[n]? = some (s.logs (l.start + n))

variable {s t : InmemLogStore} {l : ListLog}

theorem Represents.nextSlot_eq (h : s.Represents l) : s.nextSlot = l.nextSlot := by
  have hpos := h.pos
  have hdummy : 0 ∉ Finset.Ico l.start l.nextSlot := by
    rw [Finset.mem_Ico]
    omega
  rw [nextSlot, h.keys, Finset.card_insert_of_notMem hdummy, Nat.card_Ico, h.start, ListLog.nextSlot]
  omega

theorem init_represents (junk : Bytes) : (init junk).Represents ⟨1, []⟩ := by
  refine ⟨rfl, Nat.one_pos, ?_, fun n hn => nomatch hn⟩
  simp [init, ListLog.nextSlot]

/-! ### Writing -/

theorem assign_represents (h : s.Represents l) (e : LogEntry) :
    (s.assign l.nextSlot e).Represents { l with entries := l.entries ++ [e] } := by
  refine ⟨h.start, h.pos, ?_, ?_⟩
  · ext k
    simp only [assign, h.keys, Finset.mem_insert, Finset.mem_Ico, ListLog.nextSlot,
      length_append, length_singleton]
    omega
  · intro n hn
    simp only [assign]
    rw [length_append, length_singleton] at hn
    rcases Nat.lt_succ_iff_lt_or_eq.mp hn with hlt | rfl
    · have hne : l.start + n ≠ l.nextSlot := by
        rw [ListLog.nextSlot]
        omega
      rw [getElem?_append_left hlt, update_of_ne hne]
      exact h.entries n hlt
    · have hat : l.start + l.entries.length = l.nextSlot := rfl
      rw [getElem?_concat_length, hat, update_self]

theorem append_represents (h : s.Represents l) (e : LogEntry) :
    (s.append e).Represents (l.step (.append e)) := by
  rw [append, h.nextSlot_eq]
  exact assign_represents h e

theorem writeAt_represents (h : s.Represents l) {i : Nat} (hi : s.InRange i) (e : LogEntry) :
    (s.writeAt i e).Represents (l.step (.writeAt i e)) := by
  rw [InRange, h.start, h.nextSlot_eq, ListLog.nextSlot] at hi
  -- without the entries from `i` on, the list ends at `i`
  have hlen : (l.entries.take (i - l.start)).length = i - l.start := length_take_of_le (by omega)
  have hcut : { s with keys := s.keys.filter (· < i) }.Represents
      { l with entries := l.entries.take (i - l.start) } := by
    refine ⟨h.start, h.pos, ?_, ?_⟩
    · ext k
      have hpos := h.pos
      simp only [h.keys, Finset.mem_filter, Finset.mem_insert, Finset.mem_Ico, ListLog.nextSlot, hlen]
      omega
    · intro n hn
      rw [hlen] at hn
      rw [getElem?_take_of_lt hn]
      exact h.entries n (by omega)
  have hend : ListLog.nextSlot { l with entries := l.entries.take (i - l.start) } = i := by
    have hcount : l.start + (l.entries.take (i - l.start)).length = i := by omega
    exact hcount
  have hwrite := assign_represents hcut e
  rwa [hend] at hwrite

/-! ### Compaction -/

theorem mem_foldl_erase {ks : Finset Nat} {is : List Nat} {k : Nat} :
    k ∈ is.foldl Finset.erase ks ↔ k ∈ ks ∧ k ∉ is := by
  induction is generalizing ks with
  | nil => simp
  | cons i is ih =>
    rw [foldl_cons, ih, Finset.mem_erase, mem_cons]
    tauto

theorem compact_represents (h : s.Represents l) (j : Nat) :
    (s.compact j).Represents (l.step (.compact j)) := by
  have hstart := h.start
  have hpos := h.pos
  refine ⟨?_, ?_, ?_, ?_⟩
  · simp only [compact, ListLog.step, hstart]
    split <;> omega
  · simp only [ListLog.step]
    omega
  · ext k
    simp only [compact, ListLog.step, mem_foldl_erase, h.keys, hstart, Finset.mem_insert,
      Finset.mem_Ico, mem_range'_1, ListLog.nextSlot, length_drop]
    omega
  · intro n hn
    simp only [ListLog.step, length_drop, getElem?_drop] at hn ⊢
    have hat : max l.start (j + 1) + n = l.start + (j + 1 - l.start + n) := by omega
    rw [hat]
    exact h.entries _ (by omega)

/-! ### Packs -/

def assignAll (s : InmemLogStore) (i : Nat) : List LogEntry → InmemLogStore
  | [] => s
  | e :: es => (s.assign i (unpacked e)).assignAll (i + 1) es

theorem assignAll_keys (s : InmemLogStore) (i : Nat) (es : List LogEntry) :
    (s.assignAll i es).keys = s.keys ∪ Finset.Ico i (i + es.length) := by
  induction es generalizing s i with
  | nil => simp [assignAll]
  | cons e es ih =>
    ext k
    have hnew : k = i ∨ i + 1 ≤ k ∧ k < i + 1 + es.length ↔ i ≤ k ∧ k < i + (es.length + 1) := by
      omega
    simp only [assignAll, ih, assign, Finset.mem_union, Finset.mem_insert, Finset.mem_Ico,
      length_cons, ← hnew]
    tauto

theorem assignAll_logs_of_notMem (s : InmemLogStore) {i k : Nat}
    (hk : k < i ∨ i + es.length ≤ k) : (s.assignAll i es).logs k = s.logs k := by
  induction es generalizing s i with
  | nil => rfl
  | cons e es ih =>
    rw [length_cons] at hk
    rw [assignAll, ih _ (by omega)]
    exact update_of_ne (by omega) _ _

theorem assignAll_logs (s : InmemLogStore) {i n : Nat} {e : LogEntry}
    (he : es[n]? = some e) : (s.assignAll i es).logs (i + n) = unpacked e := by
  induction es generalizing s i n with
  | nil => cases he
  | cons e' es ih =>
    cases n with
    | zero =>
      cases he
      rw [assignAll, assignAll_logs_of_notMem _ (.inl (by omega))]
      exact update_self _ _ _
    | succ n =>
      have hat : i + (n + 1) = i + 1 + n := by omega
      rw [assignAll, hat]
      exact ih _ he

theorem getI32_size {n : Nat} (h : n < 0x80000000) (rest : Bytes) :
    getI32 (putI32 (Int32.ofNat n) ++ rest) = some (Int32.ofNat n, rest) ∧
      (Int32.ofNat n).toInt64.toUInt64.toNat = n ∧ (Int32.ofNat n).toInt.toNat = n := by
  refine ⟨getI32_put rest _, SendOpts.valSize_eq h, ?_⟩
  rw [Int32.toInt_ofNat_of_lt h]
  rfl

theorem applyLoop_eq (s : InmemLogStore) (i : Nat)
    (hlen : ∀ e ∈ es, (entryBytes e).length < 0x80000000) : s.applyLoop i es.length
        (es.flatMap fun e => putI32 (Int32.ofNat (entryBytes e).length) ++ entryBytes e) =
      some (s.assignAll i es) := by
  induction es generalizing s i with
  | nil => rfl
  | cons e es ih =>
    rcases getI32_size (hlen e mem_cons_self)
      (entryBytes e ++ es.flatMap fun e => putI32 (Int32.ofNat (entryBytes e).length) ++ entryBytes e)
      with ⟨hget, hsize, -⟩
    have hrest := ih (s.assign i (unpacked e)) (i + 1) fun e' he' =>
      hlen e' (mem_cons_of_mem e he')
    rw [length_cons, flatMap_cons, append_assoc, applyLoop]
    simp only [hget, hsize, raw_append, bind_eq_bind, bind_some,
      deserializeEntry_bytes, hrest, assignAll]

theorem applyPack_eq (s : InmemLogStore) (i : Nat) (hlen : (packBytes es).length < 0x80000000) :
    s.applyPack i (packBytes es) =
      some { s.assignAll i es with startIdx := (s.assignAll i es).firstKey } := by
  rw [length_packBytes] at hlen
  have hcount : es.length < 0x80000000 := by omega
  rcases getI32_size hcount
    (es.flatMap fun e => putI32 (Int32.ofNat (entryBytes e).length) ++ entryBytes e)
    with ⟨hget, -, hnum⟩
  have hfits : ∀ e ∈ es, (entryBytes e).length < 0x80000000 := by
    intro e he
    have hle := length_entryBytes_le he
    omega
  have hloop := applyLoop_eq s i hfits
  simp only [applyPack, packBytes, hget, hnum, hloop, bind_eq_bind, bind_some]
  rfl

theorem firstKey_eq {a b : Nat} (ha : 0 < a) (hkeys : s.keys = insert 0 (Finset.Ico a b)) :
    s.firstKey = if a < b then a else 1 := by
  have hfilter : s.keys.filter (0 < ·) = Finset.Ico a b := by
    ext k
    simp only [hkeys, Finset.mem_filter, Finset.mem_insert, Finset.mem_Ico]
    omega
  rw [firstKey, hfilter]
  split
  · next hlt =>
    have hmem : a ∈ Finset.Ico a b := Finset.left_mem_Ico.mpr hlt
    have hmin : (Finset.Ico a b).min = a :=
      le_antisymm (Finset.min_le hmem)
        (Finset.le_min fun k hk => WithTop.coe_le_coe.mpr (Finset.mem_Ico.mp hk).1)
    rw [hmin]
    rfl
  · next hge =>
    rw [Finset.Ico_eq_empty hge]
    rfl

theorem applyPack_startIdx {a b : Nat} (ha : 0 < a) {i : Nat}
    (hkeys : s.keys ∪ Finset.Ico i (i + es.length) = insert 0 (Finset.Ico a b)) (hab : a < b ∨ a = 1) :
    (s.assignAll i es).firstKey = a := by
  rw [firstKey_eq ha ((assignAll_keys s i es).trans hkeys)]
  split <;> omega

theorem applyPack_empty (h : s.Represents l) (hnil : l.entries = []) {i : Nat} (hne : es ≠ []) :
    { s.assignAll i es with startIdx := (s.assignAll i es).firstKey }.Represents
      ⟨max 1 i, (es.drop (1 - i)).map unpacked⟩ := by
  have hcount := length_pos_iff.mpr hne
  have hkeys : s.keys ∪ Finset.Ico i (i + es.length) =
      insert 0 (Finset.Ico (max 1 i) (i + es.length)) := by
    ext k
    rw [h.keys, ListLog.nextSlot, hnil]
    simp only [Finset.mem_union, Finset.mem_insert, Finset.mem_Ico, length_nil]
    omega
  have hend : max 1 i + (es.length - (1 - i)) = max 1 (i + es.length) := by omega
  refine ⟨applyPack_startIdx (Nat.one_pos.trans_le (Nat.le_max_left 1 i)) hkeys (by omega),
    Nat.one_pos.trans_le (Nat.le_max_left 1 i), ?_, ?_⟩
  · refine (assignAll_keys s i es).trans (hkeys.trans ?_)
    ext k
    simp only [ListLog.nextSlot, length_map, length_drop, hend, Finset.mem_insert, Finset.mem_Ico]
    omega
  · intro n hn
    rw [length_map, length_drop] at hn
    have hat : max 1 i + n = i + (1 - i + n) := by omega
    have hentry : es[1 - i + n]? = some es[1 - i + n] := getElem?_eq_getElem (by omega)
    simp only [getElem?_map, getElem?_drop, hat]
    rw [assignAll_logs s hentry, hentry]
    rfl

theorem applyPack_overlap (h : s.Represents l) (hne : l.entries ≠ []) {i : Nat} (hi : s.InRange i) :
    { s.assignAll i es with startIdx := (s.assignAll i es).firstKey }.Represents
      { l with entries := l.entries.take (i - l.start) ++ es.map unpacked ++
          l.entries.drop (i - l.start + es.length) } := by
  rw [InRange, h.start, h.nextSlot_eq, ListLog.nextSlot] at hi
  have hpos := h.pos
  have hcount := length_pos_iff.mpr hne
  have hlen : (l.entries.take (i - l.start) ++ es.map unpacked ++
      l.entries.drop (i - l.start + es.length)).length =
        max l.entries.length (i - l.start + es.length) := by
    simp only [length_append, length_take, length_map, length_drop]
    omega
  have hkeys : s.keys ∪ Finset.Ico i (i + es.length) =
      insert 0 (Finset.Ico l.start (l.start + max l.entries.length (i - l.start + es.length))) := by
    ext k
    rw [h.keys, ListLog.nextSlot]
    simp only [Finset.mem_union, Finset.mem_insert, Finset.mem_Ico]
    omega
  refine ⟨applyPack_startIdx hpos hkeys (by omega), hpos, ?_, ?_⟩
  · refine (assignAll_keys s i es).trans (hkeys.trans ?_)
    rw [ListLog.nextSlot, hlen]
  · intro n hn
    rw [hlen] at hn
    have htake : (l.entries.take (i - l.start)).length = i - l.start :=
      length_take_of_le (by omega)
    -- before the pack, in it, and behind it
    rcases Nat.lt_or_ge n (i - l.start) with hbefore | hfrom
    · rw [append_assoc, getElem?_append_left (by omega), getElem?_take_of_lt hbefore,
        h.entries n (by omega)]
      exact congrArg some (assignAll_logs_of_notMem s (.inl (by omega))).symm
    rcases Nat.lt_or_ge n (i - l.start + es.length) with hin | hbehind
    · have hat : l.start + n = i + (n - (i - l.start)) := by omega
      have hentry : es[n - (i - l.start)]? = some es[n - (i - l.start)] :=
        getElem?_eq_getElem (by omega)
      rw [append_assoc, getElem?_append_right (by omega), htake,
        getElem?_append_left (by rw [length_map]; omega), getElem?_map, hentry]
      exact congrArg some (((congrArg _ hat).trans (assignAll_logs s hentry)).symm)
    · have hat : i - l.start + es.length + (n - (i - l.start + es.length)) = n := by omega
      rw [getElem?_append_right (by
          rw [length_append, htake, length_map]
          exact hbehind), length_append, htake, length_map, getElem?_drop, hat,
        h.entries n (by omega)]
      exact congrArg some (assignAll_logs_of_notMem s (.inr (by omega))).symm

theorem applyPack_represents (h : s.Represents l) {i : Nat} (hop : s.Allowed (.applyPack i es)) :
    ∃ u, s.applyPack i (packBytes es) = some u ∧ u.Represents (l.step (.applyPack i es)) := by
  obtain ⟨hne, hlen, hi⟩ := hop
  refine ⟨_, applyPack_eq s i hlen, ?_⟩
  rw [ListLog.step]
  split
  · next hnil => exact applyPack_empty h hnil hne
  · next hcons =>
    refine applyPack_overlap h hcons (hi.resolve_right fun hempty => hcons ?_)
    rw [h.nextSlot_eq, h.start, ListLog.nextSlot] at hempty
    exact eq_nil_of_length_eq_zero (by omega)

theorem mapM_serialize_eq_some {is : List Nat} {bufs : List Bytes} :
    (is.mapM fun ii => if ii ∈ s.keys then serializeEntry (s.logs ii) else none) = some bufs ↔
      (∀ i ∈ is, i ∈ s.keys ∧ (entryBytes (s.logs i)).length < 0x80000000) ∧
        bufs = is.map fun i => entryBytes (s.logs i) := by
  induction is generalizing bufs with
  | nil => simp [eq_comm]
  | cons i is ih =>
    have hone : ∀ b, (if i ∈ s.keys then serializeEntry (s.logs i) else none) = some b ↔
        (i ∈ s.keys ∧ (entryBytes (s.logs i)).length < 0x80000000) ∧ b = entryBytes (s.logs i) := by
      intro b
      rw [length_entryBytes, serializeEntry, entryBytes]
      grind
    simp only [mapM_cons, bind_eq_bind, bind_eq_some_iff, hone, ih, forall_mem_cons, map_cons]
    grind

theorem pack_eq_some_iff {k c : Nat} {p : Bytes} :
    s.pack k c = some p ↔ (∀ n < c, k + n ∈ s.keys) ∧ p.length < 0x80000000 ∧
      p = packBytes ((range' k c).map s.logs) := by
  have hbytes : packBytes ((range' k c).map s.logs) = putI32 (Int32.ofNat c) ++
      ((range' k c).map fun i => entryBytes (s.logs i)).flatMap
        fun b => putI32 (Int32.ofNat b.length) ++ b := by
    rw [packBytes, flatMap_map, flatMap_map, length_map, length_range']
  have hsize : 4 + c * 4 + (((range' k c).map fun i => entryBytes (s.logs i)).map length).sum =
        (packBytes ((range' k c).map s.logs)).length := by
    rw [length_packBytes, List.map_map, List.map_map, length_map, length_range']
    rfl
  have hrange : (∀ n < c, k + n ∈ s.keys) ↔ ∀ i ∈ range' k c, i ∈ s.keys := by
    simp only [mem_range'_1]
    refine ⟨fun h i hi => ?_, fun h n hn => h (k + n) (by omega)⟩
    have hat : k + (i - k) = i := by omega
    exact hat ▸ h (i - k) (by omega)
  rw [pack, hrange]
  simp only [bind_eq_bind, bind_eq_some_iff, mapM_serialize_eq_some]
  constructor
  · rintro ⟨bufs, ⟨hmem, rfl⟩, hput⟩
    rw [hsize, ← hbytes] at hput
    split at hput
    · cases hput
    · next hfits =>
      cases hput
      exact ⟨fun i hi => (hmem i hi).1, by omega, rfl⟩
  · rintro ⟨hmem, hfits, rfl⟩
    refine ⟨_, ⟨fun i hi => ⟨hmem i hi, ?_⟩, rfl⟩, ?_⟩
    · have hle := length_entryBytes_le (mem_map_of_mem (f := s.logs) hi)
      rw [length_packBytes] at hfits
      omega
    · rw [hsize, ← hbytes, if_neg (by omega)]

theorem step_represents (h : s.Represents l) {op : StoreOp} (hop : s.Allowed op)
    (hstep : s.next op = some t) : t.Represents (l.step op) := by
  cases op with
  | append e =>
    cases hstep
    exact append_represents h e
  | writeAt i e =>
    cases hstep
    exact writeAt_represents h hop e
  | compact j =>
    cases hstep
    exact compact_represents h j
  | pack k c =>
    obtain ⟨p, -, rfl⟩ := map_eq_some_iff.mp hstep
    exact h
  | applyPack i es =>
    obtain ⟨u, hu, hrep⟩ := applyPack_represents h hop
    cases hu.symm.trans hstep
    exact hrep

theorem run_represents {s : InmemLogStore} {l : ListLog} {ops : List StoreOp} (h : s.Represents l)
    (hops : Runs.AllSteps next Allowed s ops) (hrun : Runs.run next s ops = some t) :
    t.Represents (ops.foldl ListLog.step l) := by
  induction ops generalizing s l with
  | nil =>
    cases hrun
    exact h
  | cons op ops ih =>
    obtain ⟨u, hu, hut⟩ := Runs.run_cons_eq_some.mp hrun
    exact ih (step_represents h hops.1 hu) (hops.2 u hu) hut

/-- A pack carries the term, the type and the payload of its entries, and nothing else changes. -/
theorem applyPack_pack (s : InmemLogStore) {k c : Nat} {p : Bytes} (hpack : t.pack k c = some p)
    (i : Nat) :
    ∃ u, s.applyPack i p = some u ∧
      (∀ n < c, i + n ∈ u.keys ∧ (u.logs (i + n)).term = (t.logs (k + n)).term ∧
        (u.logs (i + n)).valType = (t.logs (k + n)).valType ∧
        (u.logs (i + n)).buf = (t.logs (k + n)).buf) ∧
      ∀ n, n < i ∨ i + c ≤ n → (n ∈ u.keys ↔ n ∈ s.keys) ∧ u.logs n = s.logs n := by
  obtain ⟨-, hlen, rfl⟩ := pack_eq_some_iff.mp hpack
  have hcount : ((range' k c).map t.logs).length = c := by
    rw [length_map, length_range']
  refine ⟨_, applyPack_eq s i hlen, fun n hn => ?_, fun n hn => ⟨?_, ?_⟩⟩
  · have hentry : ((range' k c).map t.logs)[n]? = some (t.logs (k + n)) := by
      rw [getElem?_map, getElem?_range' hn, Nat.one_mul]
      rfl
    have hmem : i + n ∈ (s.assignAll i ((range' k c).map t.logs)).keys := by
      rw [assignAll_keys, hcount, Finset.mem_union, Finset.mem_Ico]
      omega
    have hlog := assignAll_logs s (i := i) hentry
    refine ⟨hmem, ?_⟩
    simp only [hlog, unpacked, and_self]
  · have hnot : ¬(i ≤ n ∧ n < i + c) := by omega
    simp only [assignAll_keys, hcount, Finset.mem_union, Finset.mem_Ico, hnot, or_false]
  · exact assignAll_logs_of_notMem s (hcount.symm ▸ hn)

/-- All the entries are there, and together fit in a buffer. -/
def Packable (s : InmemLogStore) (k c : Nat) : Prop :=
  (∀ n < c, k + n ∈ s.keys) ∧ (packBytes ((List.range' k c).map s.logs)).length < 0x80000000

theorem next_isSome (h : s.Represents l) {op : StoreOp} (hop : s.Allowed op)
    (hpack : ∀ k c, op = .pack k c → s.Packable k c) : (s.next op).isSome := by
  cases op with
  | append e => rfl
  | writeAt i e => rfl
  | compact j => rfl
  | pack k c =>
    obtain ⟨hkeys, hlen⟩ := hpack k c rfl
    rw [next, isSome_map, pack_eq_some_iff.mpr ⟨hkeys, hlen, rfl⟩]
    rfl
  | applyPack i es =>
    obtain ⟨u, hu, -⟩ := applyPack_represents h hop
    rw [next, hu]
    rfl

/-- Over every sequence of operations the store is the list that the same sequence gives: its keys
are the dummy and the indices of the list, which `next_slot` counts, its entries are those of the
list, and a pack of any store can be added to it. -/
theorem refines_list {junk : Bytes} {ops : List StoreOp}
    (hops : Runs.AllSteps next Allowed (init junk) ops) (hrun : Runs.run next (init junk) ops = some s) :
    s.keys = insert 0 (Finset.Ico s.startIdx s.nextSlot) ∧
    s.nextSlot - s.startIdx = (ops.foldl ListLog.step ⟨1, []⟩).entries.length ∧
    s.Represents (ops.foldl ListLog.step ⟨1, []⟩) ∧
    (∀ op, s.Allowed op → (∀ k c, op = .pack k c → s.Packable k c) → (s.next op).isSome) ∧
    ∀ (t : InmemLogStore) (k c : Nat) (p : Bytes), t.pack k c = some p →
      ∀ i, ∃ u, s.applyPack i p = some u ∧
        (∀ n < c, i + n ∈ u.keys ∧ (u.logs (i + n)).term = (t.logs (k + n)).term ∧
          (u.logs (i + n)).valType = (t.logs (k + n)).valType ∧
          (u.logs (i + n)).buf = (t.logs (k + n)).buf) ∧
        ∀ n, n < i ∨ i + c ≤ n → (n ∈ u.keys ↔ n ∈ s.keys) ∧ u.logs n = s.logs n := by
  have h := run_represents (init_represents junk) hops hrun
  refine ⟨?_, ?_, h, fun op hop hpack => next_isSome h hop hpack,
    fun t k c p hp i => applyPack_pack s hp i⟩
  · rw [h.nextSlot_eq, h.start]
    exact h.keys
  · rw [h.nextSlot_eq, h.start, ListLog.nextSlot, Nat.add_sub_cancel_left]

/-- A log that is compacted past its end and filled again from a pack with an overlap. -/
theorem refines_list_refilled : ∃ s, Runs.run next (init [])
        [.append ⟨1, 1, [5], 0, false, 0⟩, .append ⟨1, 1, [6], 0, false, 0⟩,
          .writeAt 2 ⟨2, 1, [7], 0, false, 0⟩, .pack 1 2, .compact 8,
          .applyPack 4 [⟨2, 1, [8], 0, false, 0⟩, ⟨2, 1, [9], 0, false, 0⟩],
          .applyPack 5 [⟨3, 1, [], 0, false, 0⟩, ⟨3, 1, [1], 0, false, 0⟩]] = some s ∧
      s.startIdx = 4 ∧ s.keys = insert 0 (Finset.Ico s.startIdx s.nextSlot) := by
  refine (isSome_iff_exists.mp (by decide +kernel)).imp fun s hrun =>
    ⟨hrun, ?_, (refines_list (by decide +kernel) hrun).1⟩
  have hstart := congrArg (Option.map InmemLogStore.startIdx) hrun
  exact some.inj (hstart.symm.trans (by decide +kernel))

end InmemLogStore

end Codec
end Xio
