import Xio.Lib.Runs
import Xio.Rpc.Serializer

/-!
# Codec.Buffer — a buffer as the memory behind it

`buffer` is a view of raw memory. A small block has its size and its cursor in the two halves of
one word; from `0x8000` bytes on a block is big, with the top bit of the first word set and the
cursor in a word of its own. The macros of `buffer.cc` tell the two apart by that bit, which in a
small block is the top bit of the cursor.

- `pack`: the memory of a buffer with the given bytes and cursor
- `pack_size`, `pack_pos`, `pack_setBlockPos`, `pack_store`: the macros on such memory
- `fill_writes`: a buffer of the exact size holds what was put, whatever the allocator handed out
- `calls_in_bounds`: any sequence of calls stays inside the block
-/

namespace Xio
namespace Codec

open ByteCodec Rpc List

/-- The first word of a block, and the rest of its memory. -/
structure Buffer where
  head : BitVec 32
  tail : Bytes
  deriving DecidableEq, Repr

namespace Buffer

variable {bs : Bytes}

/-! ## The macros of `buffer.cc` -/

def bigFlag : BitVec 32 := 0x80000000#32

/-- `__is_big_block` -/
def isBig (b : Buffer) : Bool := (b.head &&& bigFlag) != 0#32

/-- `__size_of_block` -/
def size (b : Buffer) : Nat :=
  if b.isBig then (b.head ^^^ bigFlag).toNat else (b.head.extractLsb' 0 16).toNat

/-- `__pos_of_block` -/
def pos (b : Buffer) : Nat :=
  if b.isBig then getLE (b.tail.take 4) else (b.head.extractLsb' 16 16).toNat

/-- `__set_block_pos`; the cursor is cut to the width of its field. -/
def setBlockPos (b : Buffer) (p : Nat) : Buffer :=
  if b.isBig then { b with tail := putLE 4 p ++ b.tail.drop 4 }
  else { b with head := BitVec.ofNat 16 p ++ b.head.extractLsb' 0 16 }

/-- `__mv_fw_block` -/
def moveForward (b : Buffer) (delta : Nat) : Buffer := b.setBlockPos (b.pos + delta)

/-- `__entire_data_of_block`: the memory from the first byte of the data on. -/
def dataBegin (b : Buffer) : Bytes := if b.isBig then b.tail.drop 4 else b.tail

/-- Bytes stored from an offset of the data on. -/
def store (b : Buffer) (off : Nat) (bs : Bytes) : Buffer :=
  let at_ := if b.isBig then 4 + off else off
  { b with tail := b.tail.take at_ ++ bs ++ b.tail.drop (at_ + bs.length) }

/-! ## The class -/

/-- What the allocator hands out next; nothing is known of its bytes. -/
abbrev Heap := Nat → Nat → UInt8

/-- Code that allocates and may throw. -/
abbrev Alloc := StateT Heap Option

/-- `__init_b_block`, `__init_s_block` -/
def initBlock (size : Nat) (memory : Bytes) : Buffer :=
  if size ≥ 0x8000 then ⟨BitVec.ofNat 32 size ||| bigFlag, putLE 4 0 ++ memory⟩
  else ⟨BitVec.ofNat 16 0 ++ BitVec.ofNat 16 size, memory⟩

def alloc (size : Nat) : Alloc Buffer := fun heap =>
  if size ≥ 0x80000000 then none
  else some (initBlock size ((List.range size).map (heap 0)), fun k => heap (k + 1))

/-- `pos(size_t)` -/
def setPos (b : Buffer) (p : Nat) : Buffer := b.setBlockPos (if p > b.size then b.size else p)

def contents (b : Buffer) : Bytes := b.dataBegin.take b.size

/-- The bytes from the cursor on: what `data()` points to and `size() - pos()` counts. -/
def unread (b : Buffer) : Bytes := b.contents.drop b.pos

/-- The arguments of the overloads of `put`. -/
inductive Put
  | byte (b : UInt8)
  | int (val : Int32)
  | ulong (val : UInt64)
  | str (s : Bytes)
  | bytes (ba : Bytes)
  | buffer (src : Buffer)

def Put.encoding : Put → Bytes
  | .byte b => putU8 b
  | .int val => putI32 val
  | .ulong val => putU64 val
  | .str s => putCstr s
  | .bytes ba => putBytes ba
  | .buffer src => src.unread

/-- `put_raw`, which throws when the rest of the buffer is too short. -/
def putRaw (b : Buffer) (bs : Bytes) : Option Buffer :=
  if b.size - b.pos < bs.length then none
  else some ((b.store b.pos bs).moveForward bs.length)

/-- `put`; every overload has the check of `put_raw` and moves the cursor over what it stored. -/
def put (b : Buffer) (x : Put) : Option Buffer := b.putRaw x.encoding

/-- A buffer is allocated, filled by calls of `put`, and rewound. -/
def fill (size : Nat) (puts : List Put) : Alloc Buffer := do
  let buf ← alloc size
  let buf ← (puts.foldlM put buf : Option Buffer)
  return buf.setPos 0

def getUlong (b : Buffer) : Option (UInt64 × Buffer) :=
  (getU64 b.unread).map fun x => (x.1, b.moveForward 8)

def getInt (b : Buffer) : Option (Int32 × Buffer) :=
  (getI32 b.unread).map fun x => (x.1, b.moveForward 4)

/-- A `buffer_serializer` reads from the first byte on, whatever the cursor of the buffer. -/
def deserializeWith {α : Type} (r : Reader α) (b : Buffer) : Option α :=
  (r b.contents).map Prod.fst

/-- A `buffer_serializer` that writes: a cursor of its own over the memory of a buffer. -/
structure Writer where
  buf : Buffer
  pos : Nat := 0

/-- The `put_` functions of `buffer_serializer`. -/
def Writer.put (bs : Writer) (encoding : Bytes) : Option Writer :=
  if bs.pos + encoding.length > bs.buf.size then none
  else some ⟨bs.buf.store bs.pos encoding, bs.pos + encoding.length⟩

/-- A buffer is allocated and filled through a `buffer_serializer`. -/
def fillWith (size : Nat) (encodings : List Bytes) : Alloc Buffer := do
  let buf ← alloc size
  let bs ← (encodings.foldlM Writer.put ⟨buf, 0⟩ : Option Writer)
  return bs.buf

/-! ## The layout -/

/-- The memory of a buffer that holds `data` and whose cursor is at `p`. -/
def pack (data : Bytes) (p : Nat) : Buffer :=
  if data.length ≥ 0x8000 then ⟨BitVec.ofNat 32 data.length ||| bigFlag, putLE 4 p ++ data⟩
  else ⟨BitVec.ofNat 16 p ++ BitVec.ofNat 16 data.length, data⟩

/-- Memory that `alloc`, `put` and `pos` can leave behind. -/
def Valid (b : Buffer) : Prop :=
  ∃ data p, p ≤ data.length ∧ data.length < 0x80000000 ∧ b = pack data p

theorem pack_big {data : Bytes} (h : data.length ≥ 0x8000) (p : Nat) :
    pack data p = ⟨BitVec.ofNat 32 data.length ||| bigFlag, putLE 4 p ++ data⟩ := if_pos h

theorem pack_small {data : Bytes} (h : ¬ data.length ≥ 0x8000) (p : Nat) :
    pack data p = ⟨BitVec.ofNat 16 p ++ BitVec.ofNat 16 data.length, data⟩ := if_neg h

theorem bigFlag_eq : bigFlag = BitVec.twoPow 32 31 := by decide

theorem or_bigFlag_xor {x : BitVec 32} (h : x.msb = false) : (x ||| bigFlag) ^^^ bigFlag = x := by
  apply BitVec.eq_of_getLsbD_eq
  intro i hi
  rw [BitVec.msb_eq_getLsbD_last] at h
  rw [bigFlag_eq, BitVec.getLsbD_xor, BitVec.getLsbD_or, BitVec.getLsbD_twoPow]
  by_cases hlast : i = 31
  · subst hlast
    simpa using h
  · simp [Ne.symm hlast]

theorem isBig_eq_msb (b : Buffer) : b.isBig = b.head.msb := by
  have hmsb : b.head.msb = b.head.getLsbD 31 := BitVec.msb_eq_getLsbD_last b.head
  rw [isBig, bigFlag_eq, BitVec.and_twoPow, hmsb]
  cases b.head.getLsbD 31 <;> decide

section Layout

variable {data : Bytes} {p : Nat}

section

variable (hp : p ≤ data.length)
include hp

theorem pack_isBig : (pack data p).isBig = decide (data.length ≥ 0x8000) := by
  rw [isBig_eq_msb]
  by_cases hbig : data.length ≥ 0x8000
  · rw [pack_big hbig, decide_eq_true hbig, BitVec.msb_or]
    exact Bool.or_eq_true_iff.mpr (.inr (by decide))
  · -- the cursor of a small block never reaches the top bit of its half
    have hmsb : (BitVec.ofNat 16 p).msb = false := by
      rw [BitVec.msb_eq_decide, decide_eq_false_iff_not, BitVec.toNat_ofNat]
      omega
    rw [pack_small hbig, decide_eq_false hbig]
    exact (BitVec.msb_append (x := BitVec.ofNat 16 p)).trans hmsb

theorem pack_size (hlen : data.length < 0x80000000) : (pack data p).size = data.length := by
  rw [size, pack_isBig hp]
  by_cases hbig : data.length ≥ 0x8000
  · have hmsb : (BitVec.ofNat 32 data.length).msb = false := by
      rw [BitVec.msb_eq_decide, decide_eq_false_iff_not, BitVec.toNat_ofNat]
      omega
    rw [if_pos (decide_eq_true hbig), pack_big hbig, or_bigFlag_xor hmsb, BitVec.toNat_ofNat]
    exact Nat.mod_eq_of_lt (by omega)
  · rw [if_neg (by simpa using hbig), pack_small hbig]
    rw [BitVec.extractLsb'_append_eq_right, BitVec.toNat_ofNat]
    exact Nat.mod_eq_of_lt (by omega)

theorem pack_pos (hlen : data.length < 0x80000000) : (pack data p).pos = p := by
  rw [pos, pack_isBig hp]
  by_cases hbig : data.length ≥ 0x8000
  · rw [if_pos (decide_eq_true hbig), pack_big hbig, take_left' (length_putLE 4 p)]
    exact getLE_putLE_of_lt (by omega)
  · rw [if_neg (by simpa using hbig), pack_small hbig]
    rw [BitVec.extractLsb'_append_eq_left, BitVec.toNat_ofNat]
    exact Nat.mod_eq_of_lt (by omega)

theorem pack_dataBegin : (pack data p).dataBegin = data := by
  rw [dataBegin, pack_isBig hp]
  by_cases hbig : data.length ≥ 0x8000
  · rw [if_pos (decide_eq_true hbig), pack_big hbig, drop_left' (length_putLE 4 p)]
  · rw [if_neg (by simpa using hbig), pack_small hbig]

theorem pack_contents (hlen : data.length < 0x80000000) : (pack data p).contents = data := by
  rw [contents, pack_dataBegin hp, pack_size hp hlen, take_length]

theorem pack_unread (hlen : data.length < 0x80000000) : (pack data p).unread = data.drop p := by
  rw [unread, pack_contents hp hlen, pack_pos hp hlen]

theorem pack_setBlockPos (q : Nat) : (pack data p).setBlockPos q = pack data q := by
  rw [setBlockPos, pack_isBig hp]
  by_cases hbig : data.length ≥ 0x8000
  · rw [if_pos (decide_eq_true hbig), pack_big hbig, pack_big hbig,
      drop_left' (length_putLE 4 p)]
  · rw [if_neg (by simpa using hbig), pack_small hbig, pack_small hbig,
      BitVec.extractLsb'_append_eq_right]

theorem pack_setPos_zero : (pack data p).setPos 0 = pack data 0 := by
  rw [setPos, if_neg (Nat.not_lt_zero _), pack_setBlockPos hp]

end

theorem pack_store {w j bs : Bytes} (hp : p ≤ (w ++ j).length) (hbs : bs.length ≤ j.length) :
    (pack (w ++ j) p).store w.length bs = pack (w ++ bs ++ j.drop bs.length) p := by
  have hlen : (w ++ bs ++ j.drop bs.length).length = (w ++ j).length := by
    simp only [length_append, length_drop]
    omega
  have hkeep : (w ++ j).take w.length ++ bs ++ (w ++ j).drop (w.length + bs.length) =
      w ++ bs ++ j.drop bs.length := by
    rw [take_left, ← drop_drop, drop_left]
  rw [store, pack_isBig hp]
  by_cases hbig : (w ++ j).length ≥ 0x8000
  · -- the cursor's word comes before the data
    have htake (n : Nat) : (putLE 4 p ++ (w ++ j)).take (4 + n) = putLE 4 p ++ (w ++ j).take n := by
      rw [take_append, length_putLE, take_of_length_le (by simp), Nat.add_sub_cancel_left]
    have hdrop (n : Nat) : (putLE 4 p ++ (w ++ j)).drop (4 + n) = (w ++ j).drop n := by
      rw [← drop_drop, drop_left' (length_putLE 4 p)]
    rw [if_pos (decide_eq_true hbig), pack_big hbig, pack_big (hlen ▸ hbig), hlen, ← hkeep]
    simp only [htake, Nat.add_assoc, hdrop, append_assoc]
  · rw [if_neg (by simpa using hbig), pack_small hbig, pack_small (hlen ▸ hbig), hlen, ← hkeep]

end Layout

/-! ## What writers leave behind -/

/-- The code returns this value, whatever the allocator hands out. -/
def Yields {α : Type} (m : Alloc α) (x : α) : Prop := ∀ heap, ∃ heap', m heap = some (x, heap')

/-- The code throws, whatever the allocator hands out. -/
def Throws {α : Type} (m : Alloc α) : Prop := ∀ heap, m heap = none

section Writers

variable {α β : Type} {f : α → Alloc β} {size : Nat}

theorem run_bind (m : Alloc α) (f : α → Alloc β) (heap : Heap) :
    (m >>= f) heap = (m heap).bind fun r => f r.1 r.2 := rfl

theorem run_lift (o : Option α) (heap : Heap) :
    (liftM o : Alloc α) heap = o.map fun x => (x, heap) := by
  cases o <;> rfl

theorem Yields.bind {m : Alloc α} {x : α} {y : β} (hm : Yields m x)
    (hf : Yields (f x) y) : Yields (m >>= f) y := by
  intro heap
  obtain ⟨heap₁, h₁⟩ := hm heap
  obtain ⟨heap₂, h₂⟩ := hf heap₁
  exact ⟨heap₂, by rw [run_bind, h₁]; exact h₂⟩

theorem Yields.bind_throws {m : Alloc α} {x : α} (hm : Yields m x)
    (hf : Throws (f x)) : Throws (m >>= f) := by
  intro heap
  obtain ⟨heap₁, h₁⟩ := hm heap
  rw [run_bind, h₁]
  exact hf heap₁

theorem Throws.bind {m : Alloc α} (hm : Throws m) (f : α → Alloc β) : Throws (m >>= f) := by
  intro heap
  rw [run_bind, hm heap]
  rfl

theorem Yields.mapM {g : α → β} {xs : List α}
    (h : ∀ x ∈ xs, Yields (f x) (g x)) : Yields (xs.mapM f) (xs.map g) := by
  induction xs with
  | nil => exact fun heap => ⟨heap, rfl⟩
  | cons x xs ih =>
    rw [mapM_cons, map_cons]
    have hrest := ih fun y hy => h y (mem_cons_of_mem x hy)
    exact (h x mem_cons_self).bind (hrest.bind fun heap => ⟨heap, rfl⟩)

theorem Throws.mapM {xs : List α} {x : α} (hx : x ∈ xs) (h : Throws (f x)) :
    Throws (xs.mapM f) := by
  induction xs with
  | nil => cases hx
  | cons y ys ih =>
    rw [mapM_cons]
    rcases mem_cons.mp hx with rfl | hys
    · exact h.bind _
    · intro heap
      rw [run_bind]
      cases f y heap with
      | none => rfl
      | some r => exact (ih hys).bind _ r.2

/-- The code writes these bytes to a buffer of their length and rewinds it, unless they are more
than a buffer can hold. -/
structure Writes (m : Alloc Buffer) (bs : Bytes) : Prop where
  yields : bs.length < 0x80000000 → Yields m (pack bs 0)
  throws : ¬ bs.length < 0x80000000 → Throws m

theorem Writes.bind {m : Alloc Buffer} {f : Buffer → Alloc Buffer} {part bs : Bytes}
    (hm : Writes m part) (hle : part.length ≤ bs.length)
    (hf : part.length < 0x80000000 → Writes (f (pack part 0)) bs) : Writes (m >>= f) bs := by
  constructor
  · intro hlen
    have hpart := Nat.lt_of_le_of_lt hle hlen
    exact (hm.yields hpart).bind ((hf hpart).yields hlen)
  · intro hlen
    by_cases hpart : part.length < 0x80000000
    · exact (hm.yields hpart).bind_throws ((hf hpart).throws hlen)
    · exact (hm.throws hpart).bind f

theorem alloc_eq_pack (h : size < 0x80000000) (heap : Heap) :
    ∃ j : Bytes, j.length = size ∧ ∃ heap', alloc size heap = some (pack j 0, heap') := by
  refine ⟨(range size).map (heap 0), by simp, fun k => heap (k + 1), ?_⟩
  rw [alloc, if_neg (Nat.not_le.mpr h), pack, length_map, length_range]
  rfl

theorem alloc_throws (h : ¬ size < 0x80000000) : Throws (alloc size) :=
  fun _ => if_pos (Nat.not_lt.mp h)

theorem foldlM_fills {σ : Type} {store : σ → Bytes → Option σ} {rep : Bytes → Bytes → σ}
    (hstore : ∀ w j bs : Bytes, (w ++ j).length < 0x80000000 → bs.length ≤ j.length →
      store (rep w j) bs = some (rep (w ++ bs) (j.drop bs.length)))
    (encodings : List Bytes) (w j : Bytes) (hlen : (w ++ j).length < 0x80000000)
    (hroom : j.length = encodings.flatten.length) :
    encodings.foldlM store (rep w j) = some (rep (w ++ encodings.flatten) []) := by
  induction encodings generalizing w j with
  | nil =>
    have hj : j = [] := length_eq_zero_iff.mp hroom
    simp [hj]
  | cons bs encodings ih =>
    rw [flatten_cons, length_append] at hroom
    have hbs : bs.length ≤ j.length := by omega
    rw [foldlM_cons, hstore w j bs hlen hbs, flatten_cons, ← append_assoc]
    -- what is left of the room is what the rest needs
    refine ih (w ++ bs) (j.drop bs.length) ?_ ?_
    · simp only [length_append, length_drop] at hlen ⊢
      omega
    · rw [length_drop]
      omega

theorem putRaw_pack (w j bs : Bytes) (hlen : (w ++ j).length < 0x80000000)
    (hroom : bs.length ≤ j.length) :
    (pack (w ++ j) w.length).putRaw bs =
      some (pack (w ++ bs ++ j.drop bs.length) (w ++ bs).length) := by
  have hw : w.length ≤ (w ++ j).length := by simp
  have hstored : (w ++ bs ++ j.drop bs.length).length = (w ++ j).length := by
    simp only [length_append, length_drop]
    omega
  have hw' : w.length ≤ (w ++ bs ++ j.drop bs.length).length := hstored ▸ hw
  rw [putRaw, pack_size hw hlen, pack_pos hw hlen, if_neg (by simpa using hroom),
    pack_store hw hroom, moveForward, pack_pos hw' (hstored ▸ hlen), pack_setBlockPos hw',
    length_append]

theorem fill_writes {puts : List Put}
    (hbs : puts.flatMap Put.encoding = bs) (hsize : size = bs.length) :
    Writes (fill size puts) bs := by
  subst hsize
  constructor
  · intro hlen heap
    obtain ⟨j, hj, heap', halloc⟩ := alloc_eq_pack hlen heap
    have hputs : puts.foldlM put (pack j 0) = some (pack bs bs.length) := by
      have h := foldlM_fills putRaw_pack (puts.map Put.encoding) [] j (by simpa [hj] using hlen)
        (by rw [← flatMap_def, hbs, hj])
      rw [foldlM_map, ← flatMap_def, hbs] at h
      simp only [nil_append, append_nil, length_nil] at h
      exact h
    refine ⟨heap', ?_⟩
    calc fill bs.length puts heap = some ((pack bs bs.length).setPos 0, heap') := by
          rw [fill, run_bind, halloc, Option.bind_some, run_bind, run_lift, hputs]
          rfl
      _ = some (pack bs 0, heap') := by rw [pack_setPos_zero (Nat.le_refl _)]
  · exact fun hlen => (alloc_throws hlen).bind _

theorem writer_put_pack (w j bs : Bytes) (hlen : (w ++ j).length < 0x80000000)
    (hroom : bs.length ≤ j.length) :
    Writer.put ⟨pack (w ++ j) 0, w.length⟩ bs =
      some ⟨pack (w ++ bs ++ j.drop bs.length) 0, (w ++ bs).length⟩ := by
  have hsize : (pack (w ++ j) 0).size = (w ++ j).length := pack_size (Nat.zero_le _) hlen
  have hfits : ¬ w.length + bs.length > (w ++ j).length := by
    rw [length_append]
    omega
  rw [Writer.put, hsize, if_neg hfits, pack_store (Nat.zero_le _) hroom, length_append]

theorem fillWith_writes {encodings : List Bytes}
    (hbs : encodings.flatten = bs) (hsize : size = bs.length) :
    Writes (fillWith size encodings) bs := by
  subst hsize
  constructor
  · intro hlen heap
    obtain ⟨j, hj, heap', halloc⟩ := alloc_eq_pack hlen heap
    have hputs : encodings.foldlM Writer.put ⟨pack j 0, 0⟩ = some ⟨pack bs 0, bs.length⟩ := by
      have h := foldlM_fills writer_put_pack encodings [] j (by simpa [hj] using hlen)
        (by rw [hbs, hj])
      simpa [hbs] using h
    refine ⟨heap', ?_⟩
    rw [fillWith, run_bind, halloc, Option.bind_some, run_bind, run_lift, hputs]
    rfl
  · exact fun hlen => (alloc_throws hlen).bind _

theorem Writes.of_eq_some {m : Alloc Buffer} (h : Writes m bs) {heap heap' : Heap}
    {buf : Buffer} (hm : m heap = some (buf, heap')) :
    bs.length < 0x80000000 ∧ buf = pack bs 0 := by
  by_cases hlen : bs.length < 0x80000000
  · obtain ⟨heap₁, h₁⟩ := h.yields hlen heap
    cases hm.symm.trans h₁
    exact ⟨hlen, rfl⟩
  · rw [h.throws hlen heap] at hm
    cases hm

end Writers

/-! ## Any sequence of calls

The functions that read check `size() - pos()` first, except for two: `get_str` takes the end of the
buffer for an empty string and steps over it, and `get` copies as much as its target has room for.
A cursor behind the end of a block of `0x7fff` bytes makes it a big one. -/

/-- The calls of a buffer. Of the target of `get` only the room behind its cursor matters. -/
inductive Call
  | put (x : Put)
  | putRaw (bs : Bytes)
  | getByte
  | getInt
  | getUlong
  | getBytes
  | getStr
  | getRaw (len : Nat)
  | get (room : Nat)
  | pos (p : Nat)

/-- What a call leaves behind, by its return or by a throw: the buffer, and the offsets of the data
that were read or written. -/
structure Effect where
  buf : Buffer
  touched : List Nat

def Effect.andThen (e : Effect) (f : Buffer → Effect) : Effect :=
  ⟨(f e.buf).buf, e.touched ++ (f e.buf).touched⟩

/-- `size() - pos()` as a `size_t`. -/
def avail (b : Buffer) : Nat := (b.size + 2 ^ 64 - b.pos) % 2 ^ 64

/-- Stores bytes at the cursor, or throws. -/
def write (b : Buffer) (bs : Bytes) : Effect :=
  if b.avail < bs.length then ⟨b, []⟩
  else ⟨(b.store b.pos bs).moveForward bs.length, List.range' b.pos bs.length⟩

/-- Moves over `n` bytes that the caller gets, or throws. -/
def read (b : Buffer) (n : Nat) : Effect :=
  if b.avail < n then ⟨b, []⟩ else ⟨b.moveForward n, List.range' b.pos n⟩

/-- The length in front of a byte array: an `int32` that becomes a `size_t`. -/
def lenAtPos (b : Buffer) : Nat :=
  (getI32 (b.dataBegin.drop b.pos)).elim 0 fun x => (x.1.toInt % 2 ^ 64).toNat

/-- `get_bytes`; the cursor is behind the length when the array is too long. -/
def callGetBytes (b : Buffer) : Effect :=
  if b.avail < 4 then ⟨b, []⟩ else (b.read 4).andThen fun b' => b'.read b.lenAtPos

/-- `put(const byte*, size_t)`; the length is stored when the array does not fit. -/
def callPutBytes (b : Buffer) (ba : Bytes) : Effect :=
  if b.avail < 4 then ⟨b, []⟩
  else (b.write (putLE 4 ba.length)).andThen fun b' => b'.write ba

def callGetStr (b : Buffer) : Effect :=
  let i := (((b.dataBegin.drop b.pos).take (b.size - b.pos)).takeWhile (fun c => c != 0)).length
  let b₁ := if i = 0 then b.moveForward (i + 1) else b
  ⟨if b.pos + i ≥ b.size ∨ i = 0 then b₁ else b₁.moveForward (i + 1),
    List.range' b.pos (min (i + 1) (b.size - b.pos))⟩

def call (b : Buffer) : Call → Effect
  | .put (.bytes ba) => b.callPutBytes ba
  | .put x => b.write x.encoding
  | .putRaw bs => b.write bs
  | .getByte => b.read 1
  | .getInt => b.read 4
  | .getUlong => b.read 8
  | .getBytes => b.callGetBytes
  | .getStr => b.callGetStr
  | .getRaw len => b.read len
  | .get room => ⟨b.moveForward room, List.range' b.pos room⟩
  | .pos p => ⟨b.setPos p, []⟩

/-- The two calls without a check get what they need. -/
def Fits (b : Buffer) : Call → Prop
  | .getStr => b.pos < b.size
  | .get room => room ≤ b.size - b.pos
  | _ => True

instance (b : Buffer) : (c : Call) → Decidable (b.Fits c)
  | .getStr => inferInstanceAs (Decidable (_ < _))
  | .get _ => inferInstanceAs (Decidable (_ ≤ _))
  | .put _ | .putRaw _ | .getByte | .getInt | .getUlong | .getBytes | .getRaw _ | .pos _ =>
    isTrue trivial

/-- What a block of `n` bytes is for good. -/
structure Keeps (n : Nat) (b : Buffer) : Prop where
  size : b.size = n
  kind : b.isBig = decide (n ≥ 0x8000)
  pos : b.pos ≤ b.size

section Calls

variable {n : Nat} {b : Buffer} {e : Effect}

/-- The memory of a block of `n` bytes with the cursor inside. -/
def Block (n : Nat) (b : Buffer) : Prop :=
  ∃ data p, data.length = n ∧ p ≤ data.length ∧ b = pack data p

structure Effect.Sound (n : Nat) (e : Effect) : Prop where
  block : Block n e.buf
  touched : ∀ i ∈ e.touched, i < n

theorem Block.keeps (h : Block n b) (hn : n < 0x80000000) : Keeps n b := by
  obtain ⟨data, p, rfl, hp, rfl⟩ := h
  refine ⟨pack_size hp hn, pack_isBig hp, ?_⟩
  rwa [pack_size hp hn, pack_pos hp hn]

theorem Block.avail (h : Block n b) (hn : n < 0x80000000) : b.avail = n - b.pos := by
  have hsize := (h.keeps hn).size
  have hpos := (h.keeps hn).pos
  rw [Buffer.avail, hsize]
  omega

theorem Block.setBlockPos (h : Block n b) {q : Nat} (hq : q ≤ n) : Block n (b.setBlockPos q) := by
  obtain ⟨data, p, rfl, hp, rfl⟩ := h
  exact ⟨data, q, rfl, hq, pack_setBlockPos hp q⟩

theorem Block.store (h : Block n b) (hn : n < 0x80000000) (hfits : b.pos + bs.length ≤ n) :
    Block n (b.store b.pos bs) ∧ (b.store b.pos bs).pos = b.pos := by
  obtain ⟨data, p, rfl, hp, rfl⟩ := h
  rw [pack_pos hp hn] at hfits ⊢
  have hw : (data.take p).length = p := length_take_of_le hp
  have hdata : data.take p ++ data.drop p = data := take_append_drop p data
  have hroom : bs.length ≤ (data.drop p).length := by
    rw [length_drop]
    omega
  have hstore := pack_store (p := p) (w := data.take p) (by rw [hdata]; exact hp) hroom
  rw [hdata, hw] at hstore
  have hlen : (data.take p ++ bs ++ (data.drop p).drop bs.length).length = data.length := by
    simp only [length_append, length_drop, hw]
    omega
  rw [hstore]
  exact ⟨⟨_, p, hlen, hlen ▸ hp, rfl⟩, pack_pos (hlen ▸ hp) (hlen ▸ hn)⟩

theorem Effect.Sound.nothing (h : Block n b) : Sound n ⟨b, []⟩ := ⟨h, nofun⟩

theorem Effect.Sound.andThen {f : Buffer → Effect} (h : e.Sound n)
    (hf : ∀ b', Block n b' → (f b').Sound n) : (e.andThen f).Sound n := by
  refine ⟨(hf e.buf h.block).block, fun i hi => ?_⟩
  rcases mem_append.mp hi with hi | hi
  · exact h.touched i hi
  · exact (hf e.buf h.block).touched i hi

section

variable (h : Block n b) (hn : n < 0x80000000)
include h hn

theorem write_sound (bs : Bytes) : (b.write bs).Sound n := by
  have hkeeps := h.keeps hn
  have havail := h.avail hn
  unfold write
  split
  · exact .nothing h
  next hroom =>
  have hfits : b.pos + bs.length ≤ n := by
    have := hkeeps.pos
    rw [hkeeps.size] at this
    omega
  obtain ⟨hblock, hpos⟩ := h.store hn hfits
  refine ⟨hblock.setBlockPos (by rw [hpos]; exact hfits), fun i hi => ?_⟩
  have := mem_range'_1.mp hi
  omega

theorem read_sound (k : Nat) : (b.read k).Sound n := by
  have hkeeps := h.keeps hn
  have havail := h.avail hn
  unfold read
  split
  · exact .nothing h
  next hroom =>
  have hfits : b.pos + k ≤ n := by
    have := hkeeps.pos
    rw [hkeeps.size] at this
    omega
  refine ⟨h.setBlockPos hfits, fun i hi => ?_⟩
  have := mem_range'_1.mp hi
  omega

theorem getStr_sound (hin : b.pos < b.size) : b.callGetStr.Sound n := by
  have hsize := (h.keeps hn).size
  have hmove {k : Nat} (hk : b.pos + k ≤ n) : Block n (b.moveForward k) := h.setBlockPos hk
  unfold callGetStr
  generalize (takeWhile (fun c => c != 0) _).length = i
  refine ⟨?_, fun j hj => ?_⟩
  · dsimp only
    split
    · split
      · exact hmove (by omega)
      · exact h
    · next hinside =>
      rw [if_neg (by omega)]
      exact hmove (by omega)
  · have := mem_range'_1.mp hj
    omega

theorem call_sound {c : Call} (hfits : b.Fits c) : (b.call c).Sound n := by
  have hsize := (h.keeps hn).size
  have hpos := (h.keeps hn).pos
  cases c with
  | put x =>
    cases x with
    | bytes ba =>
      show (b.callPutBytes ba).Sound n
      unfold callPutBytes
      split
      · exact .nothing h
      · exact (write_sound h hn _).andThen fun b' hb' => write_sound hb' hn ba
    | _ => exact write_sound h hn _
  | putRaw bs => exact write_sound h hn bs
  | getBytes =>
    show b.callGetBytes.Sound n
    unfold callGetBytes
    split
    · exact .nothing h
    · exact (read_sound h hn 4).andThen fun b' hb' => read_sound hb' hn _
  | getStr => exact getStr_sound h hn hfits
  | get room =>
    have hroom : room ≤ b.size - b.pos := hfits
    refine ⟨h.setBlockPos (by omega), fun i hi => ?_⟩
    have := mem_range'_1.mp hi
    omega
  | pos p =>
    refine .nothing (h.setBlockPos ?_)
    split <;> omega
  | _ => exact read_sound h hn _

end

/-- The buffer after a call, whether the call returns or throws. -/
def next (b : Buffer) (c : Call) : Option Buffer := some (b.call c).buf

/-- Whatever the sequence of calls, a block keeps its size and its kind, the cursor stays inside,
and so does everything that is read or written, provided that the calls without a check fit. -/
theorem calls_in_bounds {heap heap' : Heap} {calls : List Call}
    (halloc : alloc n heap = some (b, heap')) (hfits : Runs.AllSteps next Fits b calls) :
    (∀ t, Runs.run next b calls = some t → Keeps n t) ∧
      Runs.AllSteps next (fun t c => ∀ i ∈ (t.call c).touched, i < t.size) b calls := by
  have hn : n < 0x80000000 := by
    by_contra hlarge
    rw [alloc_throws hlarge heap] at halloc
    cases halloc
  have hblock : Block n b := by
    obtain ⟨j, hj, heap₁, h₁⟩ := alloc_eq_pack hn heap
    cases halloc.symm.trans h₁
    exact ⟨j, 0, hj, Nat.zero_le _, rfl⟩
  have hstep (s : Buffer) (c : Call) (t : Buffer) (hs : Block n s) (hc : s.Fits c)
      (ht : next s c = some t) : Block n t := Option.some.inj ht ▸ (call_sound hs hn hc).block
  refine ⟨fun t ht => (Runs.invariant_of_allSteps hstep hblock hfits ht).keeps hn, ?_⟩
  refine ((Runs.allSteps_of_invariant hstep hblock hfits).and hfits).imp ?_
  rintro t c ⟨ht, hc⟩ i hi
  rw [(ht.keeps hn).size]
  exact (call_sound ht hn hc).touched i hi

end Calls

/-- A string is put, read back, and its beginning copied to a buffer of two bytes. -/
def putAndGet : List Call := [.put (.str [104, 105]), .pos 0, .getStr, .pos 0, .get 2]

theorem putAndGet_in_bounds :
    ∃ t, Runs.run next (initBlock 8 (List.replicate 8 65)) putAndGet = some t ∧ t.pos = 2 ∧
      Keeps 8 t := by
  have halloc : alloc 8 (fun _ _ => 65) = some (initBlock 8 (replicate 8 65), fun _ _ => 65) := rfl
  have hfits : Runs.AllSteps next Fits (initBlock 8 (replicate 8 65)) putAndGet := by
    decide +kernel
  have hend : (Runs.run next (initBlock 8 (replicate 8 65)) putAndGet).map pos = some 2 := by
    decide +kernel
  obtain ⟨t, hrun, hpos⟩ := Option.map_eq_some_iff.mp hend
  exact ⟨t, hrun, hpos, (calls_in_bounds halloc hfits).1 t hrun⟩

/-- At the end of a buffer `get_str` moves the cursor over the end, which turns a block of `0x7fff`
bytes into a big one, and `get` reads behind the end of the source. -/
theorem unchecked_calls_overrun : (alloc 1 fun _ _ => 7).map Prod.fst = some (initBlock 1 [7]) ∧
    (Runs.run next (initBlock 1 [7]) [.pos 1, .getStr]).map (fun b => (b.pos, b.size)) =
      some (2, 1) ∧
    ((initBlock 1 [7]).call (.get 3)).touched = [0, 1, 2] ∧
    (Runs.run next (initBlock 0x7fff (List.replicate 0x7fff 7)) [.pos 0x7fff, .getStr]).map isBig =
      some true := by
  decide +kernel

end Buffer
end Codec
end Xio
