import Xio.Lib.CursorScan
import Xio.Rpc.Request

/-!
# Rpc.PayloadScan — decoding the payload of a request

`read_complete` reads the payload of a request through a `buffer_serializer`: an offset, and getters
that test the size of the buffer before they read. The bytes come from the network, so every length
in them is whatever the other side wrote. The reading is modelled here with its offsets and its
tests, with sums of `size_t` that wrap around, and with a record of the memory that is read.

- `scanEntry_follows`: one round of the loop stays in the payload, and takes an entry from its front
- `scanPayload_eq`: the loop ends, and finds what `getPayload` finds
- `getEntry_eq_some`: what is read as an entry is the encoding of that entry, with some non-zero
  byte where `true` is encoded as `1`
-/

namespace Xio
namespace Rpc

open ByteCodec CursorScan List SendOpts
open Option hiding bind_apply bind_assoc

variable {bs rest : Bytes}

/-! ## The getters -/

/-- A test of `read_complete` failed, or an exception was thrown. Both end the session. -/
inductive Reject
  | stopped
  | thrown
  deriving DecidableEq, Repr

def sizeAdd (a b : Nat) : Nat := (a + b) % 2 ^ 64

def sizeOfInt (v : Int32) : Nat := v.toInt64.toUInt64.toNat

/-- A field that is in the message only with a flag. -/
def flagged {m : Type → Type} [Monad m] {α : Type} (flag : Bool) (get : m α) (default : α) : m α :=
  if flag then get else pure default

section Getters

variable (buf : Bytes)

/-- `pos(new_pos)` -/
def seek (newPos : Nat) : Scan Reject Unit :=
  fun c => if buf.length < newPos then (.error .thrown, c) else (.ok (), { c with pos := newPos })

/-- `is_valid(len)`, with the exception of its callers -/
def chkLength (len : Nat) : Scan Reject Unit :=
  fun c => if buf.length < sizeAdd c.pos len then (.error .thrown, c) else (.ok (), c)

/-- `get_u8`, `get_u32`, `get_u64` and `get_i32` -/
def getWord (k : Nat) : Scan Reject Nat := do
  chkLength buf k
  let c ← get
  let bs ← load buf c.pos k
  seek buf (sizeAdd c.pos k)
  return getLE bs

/-- `get_raw`: the offset of the bytes, which are not read yet. -/
def getRaw (len : Nat) : Scan Reject Nat := do
  let c ← get
  seek buf (sizeAdd c.pos len)
  return c.pos

/-- `get_buffer`, with a buffer of `len` bytes -/
def getBuffer (len : Nat) : Scan Reject Bytes := do
  let ptr ← getRaw buf len
  load buf ptr len

/-! ## The payload -/

/-- The meta string: `get_bytes`, and a copy if it is not empty -/
def scanMeta (flags : BitVec 32) : Scan Reject Bytes :=
  if has flags Flag.includeMeta then do
    let metaLen ← getWord buf 4
    chkLength buf metaLen
    let metaRaw ← getRaw buf metaLen
    if metaLen = 0 then return [] else load buf metaRaw metaLen
  else
    return []

/-- One round of the loop over the entries. -/
def scanEntry (flags : BitVec 32) : Scan Reject LogEntry := do
  need buf (logEntrySize flags) .stopped
  let term ← UInt64.ofNat <$> getWord buf 8
  let valType ← UInt8.ofNat <$> getWord buf 1
  let timestamp ← flagged (has flags Flag.includeLogTimestamp) (UInt64.ofNat <$> getWord buf 8) 0
  let hasCrc32 ←
    flagged (has flags Flag.crcOnPayload) ((· != 0) <$> (UInt8.ofNat <$> getWord buf 1)) false
  let crc32 ← flagged (has flags Flag.crcOnPayload) (BitVec.ofNat 32 <$> getWord buf 4) 0#32
  let valSize ← (fun n => (UInt32.ofNat n).toInt32) <$> getWord buf 4
  need buf (sizeOfInt valSize) .stopped
  -- `buffer::alloc`
  if 0x80000000 ≤ sizeOfInt valSize then throw .thrown
  let data ← getBuffer buf (sizeOfInt valSize)
  if has flags Flag.crcOnPayload && hasCrc32 && crc32_8 data 0 != crc32 then throw .stopped
  return ⟨term, valType, data, timestamp, hasCrc32, crc32⟩

/-- The loop over the entries. It has no result if it has not ended after so many rounds. -/
def scanEntries (flags : BitVec 32) (rounds : Nat) (c : Cursor) :
    Option (Except Reject (List LogEntry) × Cursor) :=
  if buf.length ≤ c.pos then
    some (.ok [], c)
  else
    match rounds with
    | 0 => none
    | rounds + 1 =>
      match scanEntry buf flags c with
      | (.error r, c) => some (.error r, c)
      | (.ok e, c) => (scanEntries flags rounds c).map fun x => (x.1.map (e :: ·), x.2)

/-- The meta string and the entries of a payload. Without a payload nothing is read. -/
def scanPayload (flags : BitVec 32) (rounds : Nat) :
    Option (Except Reject (Bytes × List LogEntry) × Cursor) :=
  if buf.length = 0 then
    some (.ok ([], []), ⟨0, []⟩)
  else
    match scanMeta buf flags ⟨0, []⟩ with
    | (.error r, c) => some (.error r, c)
    | (.ok m, c) => (scanEntries buf flags rounds c).map fun x => (x.1.map (m, ·), x.2)

end Getters

/-! ## What is read as an entry -/

/-- The encoding of an entry, with the given byte for its flag. -/
def putEntryAs (flags : BitVec 32) (mark : UInt8) (e : LogEntry) : Bytes :=
  putU64 e.term ++ putU8 e.valType ++
    (if has flags Flag.includeLogTimestamp then putU64 e.timestamp else []) ++
    (if has flags Flag.crcOnPayload then putU8 mark ++ putU32 e.crc32 else []) ++
    putI32 (Int32.ofNat e.buf.length) ++ e.buf

theorem length_putEntryAs (flags : BitVec 32) (mark : UInt8) (e : LogEntry) :
    (putEntryAs flags mark e).length = logEntrySize flags + e.buf.length := by
  cases h1 : has flags Flag.includeLogTimestamp <;> cases h2 : has flags Flag.crcOnPayload <;>
    simp [putEntryAs, logEntrySize, h1, h2] <;> omega

theorem eq_ofNat_of_sizeOfInt {v : Int32} {n : Nat} (hv : sizeOfInt v = n) (hn : n < 2 ^ 31) :
    v = Int32.ofNat n := by
  have hnat : v.toInt64.toUInt64 = (Int32.ofNat n).toInt64.toUInt64 :=
    UInt64.toNat_inj.mp (hv.trans (valSize_eq hn).symm)
  have h64 : v.toInt64 = (Int32.ofNat n).toInt64 := congrArg UInt64.toInt64 hnat
  rw [← Int32.toInt32_toInt64 v, h64, Int32.toInt32_toInt64]

theorem getEntry_eq (flags : BitVec 32) :
    getEntry flags = getU64 >>= fun term => getU8 >>= fun valType =>
      flagged (has flags Flag.includeLogTimestamp) getU64 0 >>= fun timestamp =>
      flagged (has flags Flag.crcOnPayload) ((· != 0) <$> getU8) false >>= fun hasCrc32 =>
      flagged (has flags Flag.crcOnPayload) getU32 0#32 >>= fun crc32 =>
      getI32 >>= fun valSize => raw (sizeOfInt valSize) >>= fun buf =>
      pure ⟨term, valType, buf, timestamp, hasCrc32, crc32⟩ := by
  unfold getEntry flagged
  cases has flags Flag.includeLogTimestamp <;> cases has flags Flag.crcOnPayload <;> rfl

/-- What is read as an entry encodes it. Every byte but `0` says that there is a checksum. -/
theorem getEntry_eq_some {flags : BitVec 32} {e : LogEntry}
    (hlen : bs.length < 2 ^ 31) (h : getEntry flags bs = some (e, rest)) :
    ∃ mark, bs = putEntryAs flags mark e ++ rest ∧
      e.hasCrc32 = (has flags Flag.crcOnPayload && mark != 0) := by
  rw [getEntry_eq] at h
  obtain ⟨term, bs1, hterm, h⟩ := bind_eq_some h
  obtain ⟨valType, bs2, hvalType, h⟩ := bind_eq_some h
  obtain ⟨timestamp, bs3, htimestamp, h⟩ := bind_eq_some h
  obtain ⟨hasCrc32, bs4, hhas, h⟩ := bind_eq_some h
  obtain ⟨crc32, bs5, hcrc, h⟩ := bind_eq_some h
  obtain ⟨valSize, bs6, hvalSize, h⟩ := bind_eq_some h
  obtain ⟨buf, bs7, hbuf, h⟩ := bind_eq_some h
  cases h
  have htime : bs2 = (if has flags Flag.includeLogTimestamp then putU64 timestamp else []) ++ bs3 := by
    cases hflag : has flags Flag.includeLogTimestamp <;> rw [hflag, flagged] at htimestamp
    · cases htimestamp
      rfl
    · exact getU64_eq_some htimestamp
  have hmark : ∃ mark, bs3 =
      (if has flags Flag.crcOnPayload then putU8 mark ++ putU32 crc32 else []) ++ bs5 ∧
        hasCrc32 = (has flags Flag.crcOnPayload && mark != 0) := by
    cases hflag : has flags Flag.crcOnPayload <;> rw [hflag, flagged] at hhas hcrc
    · cases hhas
      cases hcrc
      exact ⟨0, rfl, rfl⟩
    · obtain ⟨mark, mid, hread, hpure⟩ := bind_eq_some (map_eq_pure_bind (f := (· != 0)) getU8 ▸ hhas)
      cases hpure
      refine ⟨mark, ?_, rfl⟩
      rw [getU8_eq_some hread, getU32_eq_some hcrc, if_pos rfl, append_assoc]
  obtain ⟨mark, hcrcs, hhasCrc⟩ := hmark
  obtain ⟨hbuflen, hrest⟩ := raw_eq_some hbuf
  have hbytes : bs = putU64 term ++ (putU8 valType ++
      ((if has flags Flag.includeLogTimestamp then putU64 timestamp else []) ++
        ((if has flags Flag.crcOnPayload then putU8 mark ++ putU32 crc32 else []) ++
          (putI32 valSize ++ (buf ++ rest))))) := by
    rw [getU64_eq_some hterm, getU8_eq_some hvalType, htime, hcrcs, getI32_eq_some hvalSize, hrest]
  have hsize : valSize = Int32.ofNat buf.length := by
    refine eq_ofNat_of_sizeOfInt hbuflen.symm ?_
    have hle := congrArg length hbytes
    simp only [length_append] at hle
    omega
  refine ⟨mark, ?_, hhasCrc⟩
  rw [hbytes, hsize]
  simp only [putEntryAs, append_assoc]

theorem getEntry_eq_none {flags : BitVec 32} {bs : Bytes} (hlen : bs.length < logEntrySize flags) :
    getEntry flags bs = none := by
  cases h : getEntry flags bs with
  | none => rfl
  | some x =>
    have hfixed : logEntrySize flags ≤ 26 := by
      rw [logEntrySize]
      split <;> split <;> omega
    obtain ⟨mark, hbs, -⟩ := getEntry_eq_some (e := x.1) (by omega) h
    rw [hbs, length_append, length_putEntryAs] at hlen
    omega

/-! ## Reading stays inside -/

section Follows

variable {buf : Bytes} {flags : BitVec 32}

/-- A getter that tests the end of what it takes, by a sum that does not wrap around. -/
theorem follows_raw {m : Scan Reject Bytes} {len : Nat} {reads : Cursor → List (Nat × Nat)}
    (hlen : buf.length + len < 2 ^ 64) (hreads : ∀ c, reads c ⊆ (c.pos, len) :: c.reads)
    (hm : ∀ c, m c = if buf.length < sizeAdd c.pos len then (.error .thrown, c)
      else (.ok ((buf.drop c.pos).take len), ⟨sizeAdd c.pos len, reads c⟩)) :
    Follows buf m (raw len) := by
  have hsum : ∀ c, Valid buf c → sizeAdd c.pos len = c.pos + len := fun c hc =>
    Nat.mod_eq_of_lt (by have := hc.pos; omega)
  refine ⟨fun c hc => ?_, fun c hc => ?_⟩
  · rw [hm, hsum c hc]
    split
    · exact hc
    · next hin =>
      refine ⟨Nat.le_of_not_lt hin, fun r hr => ?_⟩
      rcases mem_cons.mp (hreads c hr) with rfl | hr
      · exact Nat.le_of_not_lt hin
      · exact hc.reads r hr
  · have hpos := hc.pos
    rw [hm, hsum c hc, raw, length_drop]
    by_cases hin : buf.length < c.pos + len
    · rw [if_pos hin, if_neg (by omega)]
      rfl
    · rw [if_neg hin, if_pos (by omega), drop_drop]
      rfl

theorem getBuffer_follows {len : Nat} (hlen : buf.length + len < 2 ^ 64) :
    Follows buf (getBuffer buf len) (raw len) := by
  refine follows_raw hlen (fun c => Subset.refl _) fun c => ?_
  by_cases hin : buf.length < sizeAdd c.pos len
  · simp only [getBuffer, getRaw, scan_bind, scan_get, seek, if_pos hin]
  · simp only [getBuffer, getRaw, scan_bind, scan_get, load, seek, scan_pure, if_neg hin]

/-- The test of the meta string's length, and the copy that is made if it is not empty. -/
theorem metaStr_follows {len : Nat} (hlen : buf.length + len < 2 ^ 64) : Follows buf (do
      chkLength buf len
      let metaRaw ← getRaw buf len
      if len = 0 then return [] else load buf metaRaw len) (raw len) := by
  by_cases hzero : len = 0
  · subst hzero
    refine follows_raw hlen (fun c => subset_cons_self _ _) fun c => ?_
    by_cases hin : buf.length < sizeAdd c.pos 0
    · simp only [chkLength, scan_bind, if_pos hin]
    · simp only [chkLength, getRaw, scan_bind, scan_get, seek, scan_pure, if_neg hin, if_true,
        take_zero]
  · refine follows_raw hlen (fun c => Subset.refl _) fun c => ?_
    by_cases hin : buf.length < sizeAdd c.pos len
    · simp only [chkLength, scan_bind, if_pos hin]
    · simp only [chkLength, getRaw, scan_bind, scan_get, seek, scan_pure, load, if_neg hin,
        if_neg hzero]

theorem getWord_follows {k : Nat} (hlen : buf.length + k < 2 ^ 64) :
    Follows buf (getWord buf k) (word k) := by
  have heq : getWord buf k = getLE <$> getBuffer buf k := by
    funext c
    rw [map_eq_pure_bind]
    by_cases hin : buf.length < sizeAdd c.pos k
    · simp only [getWord, getBuffer, getRaw, chkLength, scan_bind, scan_get, seek, if_pos hin]
    · simp only [getWord, getBuffer, getRaw, chkLength, scan_bind, scan_get, load, seek, scan_pure,
        if_neg hin]
  rw [heq, word, ← map_eq_pure_bind]
  exact (getBuffer_follows hlen).map getLE

theorem scanMeta_follows (flags : BitVec 32) (hsize : buf.length ≤ 0x40000000) :
    Follows buf (scanMeta buf flags) (getMeta flags) := by
  rw [scanMeta]
  cases hflag : has flags Flag.includeMeta with
  | false =>
    have hnone : getMeta flags = (pure [] : Reader Bytes) := by
      funext bs
      rw [getMeta, hflag]
      rfl
    rw [hnone]
    exact Follows.pure []
  | true =>
    have hread : getMeta flags = word 4 >>= raw := by
      funext bs
      rw [getMeta, hflag]
      rfl
    rw [hread]
    refine (getWord_follows (by omega)).bind_of fun len bs rest hword => metaStr_follows ?_
    have hlt := (word_eq_some hword).2
    omega

/-- The entry, if its checksum is right. -/
def checkEntry (flags : BitVec 32) (e : LogEntry) : Reader LogEntry :=
  if has flags Flag.crcOnPayload && e.hasCrc32 && crc32_8 e.buf 0 != e.crc32 then failure else pure e

theorem flagged_follows {α : Type} {flag : Bool} {m : Scan Reject α} {r : Reader α} {d : α}
    (h : Follows buf m r) : Follows buf (flagged flag m d) (flagged flag r d) :=
  h.ite (Follows.pure d)

/-- The value of an entry: its size is tested, as a `size_t`, before a buffer is allocated. -/
theorem value_follows (hsize : buf.length ≤ 0x40000000) {len : Nat} {α : Type}
    {f : Bytes → Scan Reject α} {g : Bytes → Reader α} (hf : ∀ bs, Follows buf (f bs) (g bs)) :
    Follows buf (need buf len .stopped >>= fun _ =>
      if 0x80000000 ≤ len then throw .thrown >>= fun _ : PUnit => getBuffer buf len >>= f
      else getBuffer buf len >>= f) (raw len >>= g) := by
  have hshort : ∀ bs : Bytes, bs.length < len → (raw len >>= g) bs = none := by
    intro bs hbs
    rw [bind_apply, raw, if_neg (by omega)]
    rfl
  refine Follows.need hshort ?_
  split
  · next hlarge =>
    refine Follows.throw _ fun bs hbs => hshort bs ?_
    omega
  · exact (getBuffer_follows (by omega)).bind hf

theorem scanEntry_follows (flags : BitVec 32) (hsize : buf.length ≤ 0x40000000) :
    Follows buf (scanEntry buf flags) (getEntry flags >>= checkEntry flags) := by
  refine Follows.need (fun bs hbs => ?_) ?_
  · rw [bind_apply, getEntry_eq_none hbs]
    rfl
  · rw [getEntry_eq]
    simp only [bind_assoc, pure_bind]
    have hword : ∀ k ≤ 8, Follows buf (getWord buf k) (word k) := fun k hk =>
      getWord_follows (by omega)
    refine ((hword 8 (by omega)).map _).bind fun term => ?_
    refine ((hword 1 (by omega)).map _).bind fun valType => ?_
    refine (flagged_follows ((hword 8 (by omega)).map _)).bind fun timestamp => ?_
    refine (flagged_follows (((hword 1 (by omega)).map _).map _)).bind fun hasCrc32 => ?_
    refine (flagged_follows ((hword 4 (by omega)).map _)).bind fun crc32 => ?_
    refine ((hword 4 (by omega)).map _).bind fun valSize => ?_
    refine value_follows hsize fun data => ?_
    rw [checkEntry]
    split
    · exact Follows.throw _ fun _ _ => rfl
    · exact Follows.pure _

/-! ## The loop -/

theorem checkEntry_eq_some {e e' : LogEntry}
    (h : checkEntry flags e bs = some (e', rest)) : e' = e ∧ rest = bs := by
  rw [checkEntry] at h
  split at h
  · cases h
  · cases h
    exact ⟨rfl, rfl⟩

theorem length_of_getEntry {e : LogEntry} (hlen : bs.length < 2 ^ 31)
    (h : (getEntry flags >>= checkEntry flags) bs = some (e, rest)) : rest.length < bs.length := by
  obtain ⟨e', mid, hget, hcheck⟩ := bind_eq_some h
  obtain ⟨rfl, rfl⟩ := checkEntry_eq_some hcheck
  obtain ⟨mark, rfl, -⟩ := getEntry_eq_some hlen hget
  rw [length_append, length_putEntryAs, logEntrySize]
  omega

theorem getEntries_succ {rounds : Nat} {bs : Bytes} (hne : bs ≠ []) :
    getEntries flags (rounds + 1) bs = ((getEntry flags >>= checkEntry flags) bs).bind fun x =>
        (getEntries flags rounds x.2).map (x.1 :: ·) := by
  rw [getEntries_round hne, bind_apply]
  by_cases hshort : bs.length < logEntrySize flags
  · rw [if_pos hshort, getEntry_eq_none hshort]
    rfl
  · rw [if_neg hshort]
    cases getEntry flags bs with
    | none => rfl
    | some x =>
      rw [bind_some, bind_some, checkEntry]
      split
      · rfl
      · exact map_eq_bind.symm

theorem scanEntries_end {n m : Nat} {c : Cursor} (hc : Valid buf c) (hend : buf.length ≤ c.pos) :
    ∃ res c', scanEntries buf flags n c = some (res, c') ∧ Valid buf c' ∧
      res.toOption = getEntries flags m (buf.drop c.pos) := by
  refine ⟨.ok [], c, ?_, hc, ?_⟩
  · rw [scanEntries.eq_def, if_pos hend]
  · rw [drop_of_length_le hend, getEntries]
    rfl

/-- A round per byte is enough for the loop, and it finds the same entries. -/
theorem scanEntries_eq (flags : BitVec 32) (hsize : buf.length ≤ 0x40000000) {n m : Nat} {c : Cursor}
    (hc : Valid buf c) (hn : buf.length - c.pos ≤ n) (hm : buf.length - c.pos ≤ m) :
    ∃ res c', scanEntries buf flags n c = some (res, c') ∧ Valid buf c' ∧
      res.toOption = getEntries flags m (buf.drop c.pos) := by
  induction n generalizing m c with
  | zero => exact scanEntries_end hc (by omega)
  | succ n ih =>
    by_cases hend : buf.length ≤ c.pos
    · exact scanEntries_end hc hend
    obtain ⟨m, rfl⟩ : ∃ k, m = k + 1 := Nat.exists_eq_succ_of_ne_zero (by omega)
    have hne : buf.drop c.pos ≠ [] := fun hnil => hend (drop_eq_nil_iff.mp hnil)
    have hvalid := (scanEntry_follows flags hsize).valid c hc
    have hentry := (scanEntry_follows flags hsize).result c hc
    rw [scanEntries, if_neg hend, getEntries_succ hne, ← hentry]
    rcases hscan : scanEntry buf flags c with ⟨r | e, c'⟩ <;> rw [hscan] at hvalid hentry
    · exact ⟨.error r, c', rfl, hvalid, rfl⟩
    · -- the entry took bytes, so fewer rounds are enough for the rest
      have hless := length_of_getEntry (by rw [length_drop]; omega) hentry.symm
      rw [length_drop, length_drop] at hless
      obtain ⟨res, c'', hloop, hvalid', hres⟩ := ih hvalid (m := m) (by omega) (by omega)
      refine ⟨res.map (e :: ·), c'', ?_, hvalid', ?_⟩
      · simp only [hloop, map_some]
      · simp only [Except.toOption, map_some, bind_some, ← hres]
        cases res <;> rfl

theorem scanPayload_eq (flags : BitVec 32) (hsize : buf.length ≤ 0x40000000) {rounds : Nat}
    (hrounds : buf.length ≤ rounds) :
    ∃ res c, scanPayload buf flags rounds = some (res, c) ∧ Valid buf c ∧
      res.toOption = if buf.length = 0 then some ([], []) else getPayload flags buf := by
  have hstart : Valid buf ⟨0, []⟩ := ⟨Nat.zero_le _, fun r hr => nomatch hr⟩
  rw [scanPayload]
  split
  · exact ⟨.ok ([], []), ⟨0, []⟩, rfl, hstart, rfl⟩
  · have hvalid := (scanMeta_follows flags hsize).valid _ hstart
    have hmeta := (scanMeta_follows flags hsize).result _ hstart
    have hpayload : getPayload flags buf = (getMeta flags buf).bind fun x =>
        (getEntries flags x.2.length x.2).map (x.1, ·) := by
      simp only [map_eq_bind]
      rfl
    rw [drop_zero] at hmeta
    rw [hpayload, ← hmeta]
    rcases hscan : scanMeta buf flags ⟨0, []⟩ with ⟨r | m, c⟩ <;> rw [hscan] at hvalid
    · exact ⟨.error r, c, rfl, hvalid, rfl⟩
    · have hleft : buf.length - c.pos ≤ (buf.drop c.pos).length :=
        Nat.le_of_eq length_drop.symm
      have hround : buf.length - c.pos ≤ rounds := by omega
      rcases scanEntries_eq flags hsize hvalid hround hleft with ⟨res, c', hloop, hvalid', hres⟩
      refine ⟨res.map (m, ·), c', ?_, hvalid', ?_⟩
      · simp only [hloop, map_some]
      · simp only [Except.toOption, map_some, bind_some, ← hres]
        cases res <;> rfl

end Follows

/-! ## Encoding what was read -/

/-- The options of a sender that sets these flags. -/
def SendOpts.ofFlags (flags : BitVec 32) : SendOpts :=
  { replicateLogTimestamp := has flags Flag.includeLogTimestamp
    crcOnPayload := has flags Flag.crcOnPayload }

def putMeta (flags : BitVec 32) (m : Bytes) : Bytes :=
  if has flags Flag.includeMeta then putBytes m else []

/-- The payload that a sender with these flags makes of a meta string and entries. -/
def reencode (flags : BitVec 32) (m : Bytes) (es : List LogEntry) : Bytes :=
  putMeta flags m ++ es.flatMap (SendOpts.ofFlags flags).putEntry

/-- The entries and the bytes that they were read with, one for the flag of each. -/
structure Marked (flags : BitVec 32) (marked : List (UInt8 × LogEntry)) (es : List LogEntry) : Prop where
  entries : marked.map Prod.snd = es
  hasCrc : ∀ p ∈ marked, p.2.hasCrc32 = (has flags Flag.crcOnPayload && p.1 != 0)

section Reencode

variable {flags : BitVec 32} {marked : List (UInt8 × LogEntry)} {es : List LogEntry}

theorem Marked.putEntry (h : Marked flags marked es)
    (hone : ∀ p ∈ marked, has flags Flag.crcOnPayload = true → p.1 ≤ 1) :
    marked.flatMap (fun p => putEntryAs flags p.1 p.2) = es.flatMap (ofFlags flags).putEntry := by
  rw [← h.entries, flatMap_map]
  refine flatMap_congr fun p hp => ?_
  have hmark : has flags Flag.crcOnPayload = true → p.1 = if p.2.hasCrc32 then 1 else 0 := by
    intro hflag
    rw [h.hasCrc p hp, hflag, Bool.true_and]
    grind
  cases hflag : has flags Flag.crcOnPayload
  · simp only [putEntryAs, SendOpts.putEntry, SendOpts.ofFlags, hflag, Bool.false_eq_true, if_false]
  · simp only [putEntryAs, SendOpts.putEntry, SendOpts.ofFlags, hflag, if_true, hmark hflag]

theorem getEntries_eq_some {rounds : Nat} {bs : Bytes} (hlen : bs.length < 2 ^ 31)
    (h : getEntries flags rounds bs = some es) :
    ∃ marked, Marked flags marked es ∧ bs = marked.flatMap fun p => putEntryAs flags p.1 p.2 := by
  induction rounds generalizing bs es with
  | zero =>
    cases bs with
    | nil =>
      cases h
      exact ⟨[], ⟨rfl, fun p hp => nomatch hp⟩, rfl⟩
    | cons b bs => cases h
  | succ rounds ih =>
    cases bs with
    | nil =>
      cases h
      exact ⟨[], ⟨rfl, fun p hp => nomatch hp⟩, rfl⟩
    | cons b bs =>
      rw [getEntries_succ (cons_ne_nil b bs)] at h
      obtain ⟨⟨e, rest⟩, hread, hmap⟩ := bind_eq_some_iff.mp h
      obtain ⟨es', hloop, rfl⟩ := map_eq_some_iff.mp hmap
      obtain ⟨e', mid, hget, hcheck⟩ := bind_eq_some hread
      obtain ⟨rfl, rfl⟩ := checkEntry_eq_some hcheck
      have hless := length_of_getEntry hlen hread
      obtain ⟨mark, hbs, hhas⟩ := getEntry_eq_some hlen hget
      obtain ⟨marked, hmarked, rfl⟩ := ih (Nat.lt_trans hless hlen) hloop
      refine ⟨(mark, e) :: marked, ⟨?_, ?_⟩, hbs⟩
      · rw [map_cons, hmarked.entries]
      · rintro p (_ | ⟨_, hp⟩)
        · exact hhas
        · exact hmarked.hasCrc p hp

theorem getPayload_eq_some {ctx m : Bytes} (hlen : ctx.length < 2 ^ 31)
    (h : getPayload flags ctx = some (m, es)) :
    ∃ marked, Marked flags marked es ∧
      ctx = putMeta flags m ++ marked.flatMap fun p => putEntryAs flags p.1 p.2 := by
  obtain ⟨⟨m', bs⟩, hmeta, hbind⟩ := bind_eq_some_iff.mp h
  obtain ⟨es', hes, hpure⟩ := bind_eq_some_iff.mp hbind
  cases hpure
  have hctx : ctx = putMeta flags m ++ bs := by
    cases hflag : has flags Flag.includeMeta <;> rw [getMeta, hflag] at hmeta <;> rw [putMeta, hflag]
    · cases hmeta
      rfl
    · exact getBytes_eq_some hmeta
  rw [hctx, length_append] at hlen
  obtain ⟨marked, hmarked, hbs⟩ := getEntries_eq_some (by omega) hes
  exact ⟨marked, hmarked, by rw [hctx, hbs]⟩

end Reencode

/-! ## Every accepted header -/

/-- The flags and the size of the payload, if `start` accepts the header. -/
def announced (header : Bytes) : Option (BitVec 32 × Nat) := do
  let word ← readAt (reqHeaderSize - crcFlagsLen) getU64 header
  let marker ← readAt 0 getU8 header
  let t ← readAt 1 getU8 header
  let dataSize ← readAt (reqHeaderSize - crcFlagsLen - dataSizeLen) getI32 header
  if !has (flagsOf word) Flag.crcOnEntireMessage &&
      crc32_8 (header.take (reqHeaderSize - crcFlagsLen)) 0 != crcOf word then
    none
  else if marker != 0x0 || !isValidMsg ⟨t⟩ || decide (dataSize < 0) ||
      decide (0x40000000 < dataSize) then
    none
  else
    some (flagsOf word, dataSize.toNatClampNeg)

section Header

variable {header : Bytes} {flags : BitVec 32} {size : Nat}

/-- `read_complete` reads the size again, and starts with no entries. -/
theorem getReqHeader_dataSize {req : ReqMsg} {dataSize : Int32}
    (h : readAt 1 getReqHeader header = some (req, dataSize)) :
    req.logEntries = [] ∧
      readAt (reqHeaderSize - crcFlagsLen - dataSizeLen) getI32 header = some dataSize := by
  obtain ⟨⟨x, rest⟩, hread, hx⟩ := map_eq_some_iff.mp h
  cases hx
  obtain ⟨t, bs1, ht, hread⟩ := bind_eq_some hread
  obtain ⟨src, bs2, hsrc, hread⟩ := bind_eq_some hread
  obtain ⟨dst, bs3, hdst, hread⟩ := bind_eq_some hread
  obtain ⟨term, bs4, hterm, hread⟩ := bind_eq_some hread
  obtain ⟨lastTerm, bs5, hlastTerm, hread⟩ := bind_eq_some hread
  obtain ⟨lastIdx, bs6, hlastIdx, hread⟩ := bind_eq_some hread
  obtain ⟨commitIdx, bs7, hcommitIdx, hread⟩ := bind_eq_some hread
  obtain ⟨size, bs8, hsize, hread⟩ := bind_eq_some hread
  cases hread
  have hheader : header.drop 1 = (putU8 t ++ putI32 src ++ putI32 dst ++ putU64 term ++
      putU64 lastTerm ++ putU64 lastIdx ++ putU64 commitIdx) ++ (putI32 dataSize ++ rest) := by
    rw [getU8_eq_some ht, getI32_eq_some hsrc, getI32_eq_some hdst, getU64_eq_some hterm,
      getU64_eq_some hlastTerm, getU64_eq_some hlastIdx, getU64_eq_some hcommitIdx,
      getI32_eq_some hsize]
    simp only [append_assoc]
  have hdrop : header.drop (reqHeaderSize - crcFlagsLen - dataSizeLen) = putI32 dataSize ++ rest := by
    calc header.drop (reqHeaderSize - crcFlagsLen - dataSizeLen)
        = (header.drop 1).drop 41 := drop_drop ▸ rfl
      _ = putI32 dataSize ++ rest := by
          rw [hheader]
          exact drop_left' (by simp)
  refine ⟨rfl, ?_⟩
  rw [readAt, hdrop, getI32_put]
  rfl

theorem headerRead_of_announced (o : ReadOpts) (h : announced header = some (flags, size))
    {ctx : Bytes} (hctx : ctx.length = size) (rest : Bytes) :
    size ≤ 0x40000000 ∧ ∃ dataSize crcHeader crcFromMsg,
      readAt (reqHeaderSize - crcFlagsLen - dataSizeLen) getI32 header = some dataSize ∧
      dataSize.toNatClampNeg = size ∧
      o.headerRead header (ctx ++ rest) = o.readComplete header crcHeader crcFromMsg flags
        (if size = 0 then none else some ctx) rest := by
  obtain ⟨word, hword, h⟩ := bind_eq_some_iff.mp h
  obtain ⟨marker, hmarker, h⟩ := bind_eq_some_iff.mp h
  obtain ⟨t, ht, h⟩ := bind_eq_some_iff.mp h
  obtain ⟨dataSize, hdataSize, h⟩ := bind_eq_some_iff.mp h
  split at h
  · cases h
  next hcrc =>
  split at h
  · cases h
  next hbad =>
  cases h
  have hrange : 0 ≤ dataSize.toInt ∧ dataSize.toInt ≤ 0x40000000 := by
    simp only [Bool.or_eq_true, decide_eq_true_eq, not_or, Int32.lt_iff_toInt_lt] at hbad
    have hzero : (0 : Int32).toInt = 0 := rfl
    have hmax : (0x40000000 : Int32).toInt = 0x40000000 := rfl
    omega
  have hclamp : dataSize.toNatClampNeg = dataSize.toInt.toNat := rfl
  refine ⟨by omega, dataSize, crc32_8 (header.take (reqHeaderSize - crcFlagsLen)) 0, crcOf word,
    hdataSize, rfl, ?_⟩
  simp only [ReadOpts.headerRead, hword, hmarker, ht, hdataSize, bind_eq_bind,
    bind_some, if_neg hcrc, if_neg hbad]
  by_cases hzero : dataSize = 0
  · have hnone : dataSize.toNatClampNeg = 0 := hzero ▸ rfl
    have hnil : ctx = [] := eq_nil_of_length_eq_zero (hctx.trans hnone)
    rw [if_pos hzero, if_pos hnone, hnil, nil_append]
  · have hne : dataSize.toNatClampNeg ≠ 0 := by
      have hint : dataSize.toInt ≠ 0 := fun h0 => hzero (Int32.toInt_inj.mp h0)
      omega
    rw [if_neg hzero, if_neg hne, length_append, hctx, if_neg (by omega)]
    rw [take_left' hctx, drop_left' hctx]

/-- What an accepted header and its payload lead to is decided by the decoded payload. -/
theorem start_of_announced (o : ReadOpts) (hheader : header.length = reqHeaderSize)
    (h : announced header = some (flags, size)) {ctx : Bytes} (hctx : ctx.length = size)
    (rest : Bytes) :
    o.start (header ++ (ctx ++ rest)) = .stopped ∨
      ∃ req m, (if ctx.length = 0 then some ([], []) else getPayload flags ctx) =
          some (m, req.logEntries) ∧
        o.start (header ++ (ctx ++ rest)) = o.verifyMeta req m rest := by
  obtain ⟨-, dataSize, crcHeader, crcFromMsg, hsize, hclamp, hread⟩ :=
    headerRead_of_announced o h hctx rest
  have hstart : o.start (header ++ (ctx ++ rest)) =
      (o.readComplete header crcHeader crcFromMsg flags (if size = 0 then none else some ctx)
        rest).getD .stopped := by
    rw [ReadOpts.start, length_append, hheader, if_neg (by omega), take_left' hheader,
      drop_left' hheader, hread]
  rw [hstart, ReadOpts.readComplete, hctx]
  cases hreq : readAt 1 getReqHeader header with
  | none => exact .inl rfl
  | some x =>
    obtain ⟨req, dataSize'⟩ := x
    obtain ⟨hnone, hsize'⟩ := getReqHeader_dataSize hreq
    cases hsize.symm.trans hsize'
    simp only [bind_eq_bind, bind_some]
    by_cases hcrc : (has flags Flag.crcOnEntireMessage &&
        crcPayload (if size = 0 then none else some ctx) crcHeader != crcFromMsg) = true
    · rw [if_pos hcrc]
      exact .inl rfl
    rw [if_neg hcrc]
    by_cases hzero : size = 0
    · rw [if_pos hzero, if_pos hzero]
      exact .inr ⟨{ req with extraFlags := _ }, [], by rw [hnone], rfl⟩
    · have hpos : decide (0 < dataSize) = true := by
        have hclamp' : dataSize.toNatClampNeg = dataSize.toInt.toNat := rfl
        have hint : (0 : Int32).toInt < dataSize.toInt := by
          change 0 < dataSize.toInt
          omega
        exact decide_eq_true (Int32.lt_iff_toInt_lt.mpr hint)
      rw [if_neg hzero, if_neg hzero, hpos]
      dsimp only
      cases hpayload : getPayload flags ctx with
      | none => exact .inl rfl
      | some x => exact .inr ⟨{ req with extraFlags := _, logEntries := x.2 }, x.1, rfl, rfl⟩

/-- The payload that an accepted header announces is decoded in no more rounds than it has bytes,
without a read outside of it, and the session goes on with what was decoded or stops. A payload that
is not empty is the meta string and the entries as a sender with the same flags encodes them, but for
the bytes that say that an entry has a checksum, which need not be `1`. -/
theorem payload_decoded (o : ReadOpts) (hheader : header.length = reqHeaderSize)
    (h : announced header = some (flags, size)) {ctx : Bytes} (hctx : ctx.length = size)
    (rest : Bytes) {rounds : Nat} (hrounds : size ≤ rounds) :
    ∃ res c, scanPayload ctx flags rounds = some (res, c) ∧
      (∀ r ∈ c.reads, r.1 + r.2 ≤ ctx.length) ∧
      (o.start (header ++ (ctx ++ rest)) = .stopped ∨ ∃ req m, res = .ok (m, req.logEntries) ∧
          o.start (header ++ (ctx ++ rest)) = o.verifyMeta req m rest) ∧
      ∀ m es, res = .ok (m, es) → (ctx = [] → m = [] ∧ es = []) ∧
        (ctx ≠ [] ∨ has flags Flag.includeMeta = false → ∃ marked, Marked flags marked es ∧
            ctx = putMeta flags m ++ marked.flatMap (fun p => putEntryAs flags p.1 p.2) ∧
            ((∀ p ∈ marked, has flags Flag.crcOnPayload = true → p.1 ≤ 1) →
              ctx = reencode flags m es)) := by
  have hsize := (headerRead_of_announced o h hctx rest).1
  obtain ⟨res, c, hscan, hvalid, hres⟩ :=
    scanPayload_eq flags (hctx ▸ hsize) (hctx ▸ hrounds)
  refine ⟨res, c, hscan, hvalid.reads, ?_, fun m es hok => ⟨fun hnil => ?_, fun hcase => ?_⟩⟩
  · refine (start_of_announced o hheader h hctx rest).imp_right ?_
    rintro ⟨req, m, hparse, hstart⟩
    refine ⟨req, m, ?_, hstart⟩
    rw [← hres] at hparse
    cases res with
    | error r => cases hparse
    | ok x => exact congrArg Except.ok (some.inj hparse)
  · subst hnil hok
    cases hres
    exact ⟨rfl, rfl⟩
  · subst hok
    have hread : ∃ marked, Marked flags marked es ∧
        ctx = putMeta flags m ++ marked.flatMap fun p => putEntryAs flags p.1 p.2 := by
      by_cases hnil : ctx = []
      · subst hnil
        cases hres
        refine ⟨[], ⟨rfl, fun p hp => nomatch hp⟩, ?_⟩
        rw [putMeta, hcase.resolve_left fun hne => hne rfl]
        rfl
      · rw [if_neg fun hzero => hnil (eq_nil_of_length_eq_zero hzero)] at hres
        exact getPayload_eq_some (by omega) hres.symm
    obtain ⟨marked, hmarked, hbytes⟩ := hread
    refine ⟨marked, hmarked, hbytes, fun hone => ?_⟩
    rwa [reencode, ← hmarked.putEntry hone]

end Header

/-- A header with a right checksum. -/
def sampleHeader (flags : BitVec 32) (dataSize : Int32) : Bytes :=
  putReqHeader sampleReq dataSize ++
    putU64 (flagsAndCrc flags (crc32_8 (putReqHeader sampleReq dataSize) 0))

/-- An entry with a checksum, which is announced by the byte `2`. -/
def lenientCtx : Bytes :=
  putEntryAs Flag.crcOnPayload 2 ⟨7, 1, [5], 0, true, crc32_8 [5] 0⟩

/-- Not every payload is what its contents are encoded to: the byte that announces a checksum is
encoded as `1`, and an empty meta string is encoded although there is no payload. -/
theorem reencode_differs :
    (announced (sampleHeader Flag.crcOnPayload 19) = some (Flag.crcOnPayload, 19) ∧
      lenientCtx.length = 19 ∧
      ∃ m es, (scanPayload lenientCtx Flag.crcOnPayload 19).map Prod.fst = some (.ok (m, es)) ∧
        reencode Flag.crcOnPayload m es ≠ lenientCtx) ∧
    (announced (sampleHeader Flag.includeMeta 0) = some (Flag.includeMeta, 0) ∧
      ∃ m es, (scanPayload [] Flag.includeMeta 0).map Prod.fst = some (.ok (m, es)) ∧
        reencode Flag.includeMeta m es ≠ []) := by
  refine ⟨⟨by decide +kernel, by decide +kernel, [], [⟨7, 1, [5], 0, true, crc32_8 [5] 0⟩], ?_, ?_⟩,
    by decide +kernel, [], [], rfl, by decide +kernel⟩
  · decide +kernel
  · decide +kernel

theorem lenientCtx_decoded : (sampleHeader Flag.crcOnPayload 19).length = reqHeaderSize ∧
      announced (sampleHeader Flag.crcOnPayload 19) = some (Flag.crcOnPayload, 19) ∧
      ∃ res c, scanPayload lenientCtx Flag.crcOnPayload 19 = some (res, c) ∧
        ∀ r ∈ c.reads, r.1 + r.2 ≤ lenientCtx.length := by
  have hlen : (sampleHeader Flag.crcOnPayload 19).length = reqHeaderSize := by decide +kernel
  have hacc : announced (sampleHeader Flag.crcOnPayload 19) = some (Flag.crcOnPayload, 19) := by
    decide +kernel
  have hctx : lenientCtx.length = 19 := by decide +kernel
  obtain ⟨res, c, hscan, hreads, -⟩ := payload_decoded {} hlen hacc hctx [] (Nat.le_refl 19)
  exact ⟨hlen, hacc, res, c, hscan, hreads⟩

end Rpc
end Xio
