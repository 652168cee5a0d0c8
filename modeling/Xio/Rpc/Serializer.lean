import Xio.Lib.Crc32

/-!
# Rpc.Serializer — fields of a message as bytes

`buffer_serializer` in its little-endian form, the checksum `crc32_8`, and the last word of a
header, which holds the flags of the message above its checksum. A `get` that would run over the
end of the buffer throws, which is `none` here.

The tables of `crc32.cc` are given as the loops that its comment gives for them.
-/

namespace Xio
namespace Rpc

open ByteCodec

abbrev Bytes := List UInt8

/-! ## buffer_serializer -/

def putU8 (v : UInt8) : Bytes := [v]
def putU16 (v : UInt16) : Bytes := putLE 2 v.toNat
def putU32 (v : BitVec 32) : Bytes := putLE 4 v.toNat
def putU64 (v : UInt64) : Bytes := putLE 8 v.toNat
def putI32 (v : Int32) : Bytes := putLE 4 v.toUInt32.toNat
def putI64 (v : Int64) : Bytes := putLE 8 v.toUInt64.toNat

/-- `put_bytes`, also `put_str`: the length in front. -/
def putBytes (bs : Bytes) : Bytes := putLE 4 bs.length ++ bs

def getU8 : Reader UInt8 := UInt8.ofNat <$> word 1
def getU16 : Reader UInt16 := UInt16.ofNat <$> word 2
def getU32 : Reader (BitVec 32) := BitVec.ofNat 32 <$> word 4
def getU64 : Reader UInt64 := UInt64.ofNat <$> word 8
def getI32 : Reader Int32 := (fun n => (UInt32.ofNat n).toInt32) <$> word 4
def getI64 : Reader Int64 := (fun n => (UInt64.ofNat n).toInt64) <$> word 8

def getBytes : Reader Bytes := do
  let len ← word 4
  raw len

/-- What a reader finds at a position of the buffer. -/
def readAt {α : Type} (pos : Nat) (r : Reader α) (buf : Bytes) : Option α :=
  (r (buf.drop pos)).map Prod.fst

theorem map_apply {α β : Type} (f : α → β) (r : Reader α) (bs : Bytes) :
    (f <$> r) bs = (r bs).map (fun x => (f x.1, x.2)) := by
  cases h : r bs <;> simp [Functor.map, StateT.map, h]

section RoundTrip

variable (rest : Bytes)

@[simp] theorem getU8_put (v : UInt8) : getU8 (putU8 v ++ rest) = some (v, rest) := by
  simp [getU8, putU8, map_apply, word, raw, getLE]

@[simp] theorem getU16_put (v : UInt16) : getU16 (putU16 v ++ rest) = some (v, rest) := by
  simp [getU16, putU16, map_apply, word_putLE (k := 2) v.toNat_lt]

@[simp] theorem getU32_put (v : BitVec 32) : getU32 (putU32 v ++ rest) = some (v, rest) := by
  simp [getU32, putU32, map_apply, word_putLE (k := 4) v.isLt]

@[simp] theorem getU64_put (v : UInt64) : getU64 (putU64 v ++ rest) = some (v, rest) := by
  simp [getU64, putU64, map_apply, word_putLE (k := 8) v.toNat_lt]

@[simp] theorem getI32_put (v : Int32) : getI32 (putI32 v ++ rest) = some (v, rest) := by
  rw [getI32, putI32, map_apply, word_putLE (k := 4) v.toUInt32.toNat_lt]
  simp only [Option.map_some, UInt32.ofNat_toNat, Int32.toInt32_toUInt32]

@[simp] theorem getI64_put (v : Int64) : getI64 (putI64 v ++ rest) = some (v, rest) := by
  rw [getI64, putI64, map_apply, word_putLE (k := 8) v.toUInt64.toNat_lt]
  simp only [Option.map_some, UInt64.ofNat_toNat, Int64.toInt64_toUInt64]

theorem getBytes_put {bs : Bytes} (h : bs.length < 2 ^ 32) :
    getBytes (putBytes bs ++ rest) = some (bs, rest) := by
  simp [getBytes, putBytes, bind_apply, word_putLE (k := 4) h, raw_append]

end RoundTrip

/-! What a reader returns is what stands in the buffer. -/

section ReadBack

variable {bs rest : Bytes}

theorem map_word_eq_some {α : Type} {f : Nat → α} {k : Nat} {v : α}
    (h : (f <$> word k) bs = some (v, rest)) :
    ∃ n, n < 256 ^ k ∧ v = f n ∧ bs = putLE k n ++ rest := by
  rw [map_apply] at h
  obtain ⟨⟨n, mid⟩, hword, hv⟩ := Option.map_eq_some_iff.mp h
  cases hv
  obtain ⟨hbs, hlt⟩ := word_eq_some hword
  exact ⟨n, hlt, rfl, hbs⟩

theorem getU8_eq_some {v : UInt8} (h : getU8 bs = some (v, rest)) : bs = putU8 v ++ rest := by
  obtain ⟨n, _, rfl, rfl⟩ := map_word_eq_some h
  rfl

theorem getU16_eq_some {v : UInt16} (h : getU16 bs = some (v, rest)) : bs = putU16 v ++ rest := by
  obtain ⟨n, hlt, rfl, rfl⟩ := map_word_eq_some h
  rw [putU16, UInt16.toNat_ofNat_of_lt' hlt]

theorem getU32_eq_some {v : BitVec 32} (h : getU32 bs = some (v, rest)) :
    bs = putU32 v ++ rest := by
  obtain ⟨n, hlt, rfl, rfl⟩ := map_word_eq_some h
  have hmod : n % 2 ^ 32 = n := Nat.mod_eq_of_lt hlt
  rw [putU32, BitVec.toNat_ofNat, hmod]

theorem getU64_eq_some {v : UInt64} (h : getU64 bs = some (v, rest)) : bs = putU64 v ++ rest := by
  obtain ⟨n, hlt, rfl, rfl⟩ := map_word_eq_some h
  rw [putU64, UInt64.toNat_ofNat_of_lt' hlt]

theorem getI32_eq_some {v : Int32} (h : getI32 bs = some (v, rest)) : bs = putI32 v ++ rest := by
  obtain ⟨n, hlt, rfl, rfl⟩ := map_word_eq_some h
  rw [putI32, UInt32.toUInt32_toInt32, UInt32.toNat_ofNat_of_lt' hlt]

theorem getI64_eq_some {v : Int64} (h : getI64 bs = some (v, rest)) : bs = putI64 v ++ rest := by
  obtain ⟨n, hlt, rfl, rfl⟩ := map_word_eq_some h
  rw [putI64, UInt64.toUInt64_toInt64, UInt64.toNat_ofNat_of_lt' hlt]

theorem getBytes_eq_some {v : Bytes} (h : getBytes bs = some (v, rest)) :
    bs = putBytes v ++ rest := by
  obtain ⟨n, mid, hword, hraw⟩ := bind_eq_some h
  obtain ⟨rfl, -⟩ := word_eq_some hword
  obtain ⟨hlen, rfl⟩ := raw_eq_some hraw
  rw [putBytes, hlen, List.append_assoc]

end ReadBack

@[simp] theorem length_putU8 (v : UInt8) : (putU8 v).length = 1 := rfl
@[simp] theorem length_putU16 (v : UInt16) : (putU16 v).length = 2 := length_putLE ..
@[simp] theorem length_putU32 (v : BitVec 32) : (putU32 v).length = 4 := length_putLE ..
@[simp] theorem length_putU64 (v : UInt64) : (putU64 v).length = 8 := length_putLE ..
@[simp] theorem length_putI32 (v : Int32) : (putI32 v).length = 4 := length_putLE ..
@[simp] theorem length_putI64 (v : Int64) : (putI64 v).length = 8 := length_putLE ..

@[simp] theorem length_putBytes (bs : Bytes) : (putBytes bs).length = 4 + bs.length := by
  simp [putBytes]

/-! ## Checksums -/

/-- The polynomial of the lookup tables. -/
def polynomial : BitVec 32 := 0xEDB88320#32

def crcLookup (k : Nat) (i : BitVec 32) : BitVec 32 := Crc32.table polynomial k i

-- the ends of some rows in `crc32.cc`
example : crcLookup 0 1 = 0x77073096#32 ∧ crcLookup 0 255 = 0x2D02EF8D#32 ∧
    crcLookup 7 248 = 0x2C8E0FFF#32 ∧ crcLookup 7 255 = 0x264B06E6#32 := by decide

/-- `crc32_8`: eight bytes at a time while there are eight, then one by one. -/
def crc32_8 (data : Bytes) (prevValue : BitVec 32) : BitVec 32 :=
  Crc32.crc polynomial data prevValue

example : crc32_8 [49, 50, 51, 52, 53, 54, 55, 56, 57] 0 = 0xCBF43926#32 := by decide

theorem crc32_8_seed_injective (data : Bytes) : Function.Injective (crc32_8 data) :=
  Crc32.crc_seed_injective (by decide) data

theorem crc32_8_set_ne {data : Bytes} {i : Nat} {b : UInt8} (hne : data.set i b ≠ data)
    (prevValue : BitVec 32) : crc32_8 (data.set i b) prevValue ≠ crc32_8 data prevValue :=
  Crc32.crc_set_ne (by decide) hne prevValue

/-! ## Flags and checksum in one word -/

namespace Flag

def includeMeta : BitVec 32 := 0x1#32
def includeHint : BitVec 32 := 0x2#32
def includeLogTimestamp : BitVec 32 := 0x4#32
def crcOnEntireMessage : BitVec 32 := 0x8#32
def crcOnPayload : BitVec 32 := 0x10#32
def includeResultCode : BitVec 32 := 0x20#32
def markDown : BitVec 32 := 0x40#32

end Flag

/-- `flags & mask`, as a condition. -/
def has (flags mask : BitVec 32) : Bool := flags &&& mask != 0#32

/-- `flags |= mask` under a condition. -/
def flagIf (b : Bool) (mask : BitVec 32) : BitVec 32 := if b then mask else 0#32

/-- `((uint64_t) flags << 32) | crc` -/
def flagsAndCrc (flags crc : BitVec 32) : UInt64 :=
  ⟨(flags.setWidth 64 <<< 32) ||| crc.setWidth 64⟩

def crcOf (w : UInt64) : BitVec 32 := (w.toBitVec &&& 0xffffffff#64).setWidth 32
def flagsOf (w : UInt64) : BitVec 32 := (w.toBitVec >>> 32).setWidth 32

@[simp] theorem crcOf_flagsAndCrc (flags crc : BitVec 32) :
    crcOf (flagsAndCrc flags crc) = crc := by
  apply BitVec.eq_of_getLsbD_eq
  intro i hi
  have hmask : (0xffffffff#64).getLsbD i = true := by
    revert i
    decide
  simp only [crcOf, flagsAndCrc, BitVec.getLsbD_setWidth, BitVec.getLsbD_and, hmask,
    BitVec.getLsbD_or, BitVec.getLsbD_shiftLeft]
  simp [hi]
  omega

@[simp] theorem flagsOf_flagsAndCrc (flags crc : BitVec 32) :
    flagsOf (flagsAndCrc flags crc) = flags := by
  apply BitVec.eq_of_getLsbD_eq
  intro i hi
  have hcrc : crc.getLsbD (32 + i) = false := BitVec.getLsbD_of_ge _ _ (by omega)
  simp only [flagsOf, flagsAndCrc, BitVec.getLsbD_setWidth, BitVec.getLsbD_ushiftRight,
    BitVec.getLsbD_or, BitVec.getLsbD_shiftLeft, hcrc]
  have hlt : 32 + i < 64 := by omega
  have hlt' : i < 64 := by omega
  simp [hi, hlt, hlt']

theorem flagsAndCrc_of (w : UInt64) : flagsAndCrc (flagsOf w) (crcOf w) = w := by
  apply UInt64.toBitVec_inj.mp
  apply BitVec.eq_of_getLsbD_eq
  intro i hi
  have hmask : (0xffffffff#64).getLsbD i = decide (i < 32) := by
    revert i
    decide
  simp only [flagsOf, crcOf, flagsAndCrc, BitVec.getLsbD_setWidth, BitVec.getLsbD_ushiftRight,
    BitVec.getLsbD_or, BitVec.getLsbD_shiftLeft, BitVec.getLsbD_and, hmask]
  by_cases h : i < 32
  · simp [h, hi]
  · have hback : 32 + (i - 32) = i := by omega
    have hsub : i - 32 < 32 := by omega
    simp [h, hi, hback, hsub]
    omega

end Rpc
end Xio
