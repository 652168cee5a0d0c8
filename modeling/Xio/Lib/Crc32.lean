import Xio.Lib.ByteCodec

/-!
# Crc32 — reflected 32-bit checksums by table lookup

A checksum register takes a byte at a time: the byte is added to the low bits and the register
is shifted down eight times, where every bit that falls out adds the polynomial. The shift is
linear in exclusive or, so eight of them can be looked up in a table, and eight bytes at once in
eight tables.

- `table_eq_iterate`: the entry of the `k`th table is `k + 1` bytes of shifting
- `sliced_eq_foldl`: eight lookups in eight tables are eight bytes, one after the other
- `crc_seed_injective`, `crc_set_ne`: where the polynomial has its top bit, neither another
  seed nor another byte in one place leaves the checksum as it is
-/

namespace Xio
namespace Crc32

open List Function

open ByteCodec (getLE)

variable (poly : BitVec 32) {bs : List UInt8}

def bitStep (c : BitVec 32) : BitVec 32 :=
  (c >>> 1) ^^^ (if c.getLsbD 0 then poly else 0#32)

def byteStep (c : BitVec 32) : BitVec 32 := (bitStep poly)^[8] c

/-- The lookup tables: the first one shifts an octet out, each further one shifts the entry of
the one before by another octet. -/
def table : Nat → BitVec 32 → BitVec 32
  | 0, i => byteStep poly i
  | k + 1, i => (table k i >>> 8) ^^^ byteStep poly (table k i &&& 0xff#32)

/-- A byte as the register sees it. -/
def octet (b : UInt8) : BitVec 32 := BitVec.ofNat 32 b.toNat

def update (c : BitVec 32) (b : UInt8) : BitVec 32 :=
  (c >>> 8) ^^^ table poly 0 ((c &&& 0xff#32) ^^^ octet b)

/-- Four bytes as the machine loads them. -/
def load (bs : List UInt8) : BitVec 32 := BitVec.ofNat 32 (getLE bs)

/-- The register after eight bytes that were loaded as two words. -/
def sliced (c : BitVec 32) (fst snd : BitVec 32) : BitVec 32 :=
  table poly 7 ((fst ^^^ c) &&& 0xff#32) ^^^ table poly 6 (((fst ^^^ c) >>> 8) &&& 0xff#32) ^^^
    table poly 5 (((fst ^^^ c) >>> 16) &&& 0xff#32) ^^^
    table poly 4 (((fst ^^^ c) >>> 24) &&& 0xff#32) ^^^
    table poly 3 (snd &&& 0xff#32) ^^^
    table poly 2 ((snd >>> 8) &&& 0xff#32) ^^^
    table poly 1 ((snd >>> 16) &&& 0xff#32) ^^^
    table poly 0 ((snd >>> 24) &&& 0xff#32)

/-- The register after all bytes, eight at a time while there are eight. -/
def updates (c : BitVec 32) : List UInt8 → BitVec 32
  | b0 :: b1 :: b2 :: b3 :: b4 :: b5 :: b6 :: b7 :: rest =>
    updates (sliced poly c (load [b0, b1, b2, b3]) (load [b4, b5, b6, b7])) rest
  | rest => rest.foldl (update poly) c

/-- The checksum of the bytes, continued from a former checksum. -/
def crc (bs : List UInt8) (seed : BitVec 32) : BitVec 32 := ~~~ updates poly (~~~ seed) bs

/-! ## Shifting is linear -/

theorem bitStep_xor (x y : BitVec 32) :
    bitStep poly (x ^^^ y) = bitStep poly x ^^^ bitStep poly y := by
  simp only [bitStep, BitVec.getLsbD_xor, BitVec.ushiftRight_xor_distrib]
  cases x.getLsbD 0 <;> cases y.getLsbD 0
  · simp
  · simp [BitVec.xor_assoc]
  · simp [BitVec.xor_assoc, BitVec.xor_comm poly]
  · -- the two polynomials cancel
    have hcancel : (x >>> 1 ^^^ poly) ^^^ (y >>> 1 ^^^ poly) = x >>> 1 ^^^ y >>> 1 := by
      rw [BitVec.xor_comm (y >>> 1), BitVec.xor_assoc, ← BitVec.xor_assoc poly, BitVec.xor_self,
        BitVec.zero_xor]
    simpa using hcancel.symm

theorem iterate_xor {f : BitVec 32 → BitVec 32} (h : ∀ x y, f (x ^^^ y) = f x ^^^ f y) (n : Nat)
    (x y : BitVec 32) : f^[n] (x ^^^ y) = f^[n] x ^^^ f^[n] y := by
  induction n generalizing x y with
  | zero => rfl
  | succ n ih => simp only [iterate_succ_apply, h, ih]

theorem byteStep_xor (x y : BitVec 32) :
    byteStep poly (x ^^^ y) = byteStep poly x ^^^ byteStep poly y :=
  iterate_xor (bitStep_xor poly) 8 x y

/-- Bits above the ones that are shifted out only move down. -/
theorem iterate_bitStep_high {x : BitVec 32} (hx : ∀ i < 8, x.getLsbD i = false) {n : Nat}
    (hn : n ≤ 8) : (bitStep poly)^[n] x = x >>> n := by
  induction n with
  | zero => simp
  | succ n ih =>
    have hlow : (x >>> n).getLsbD 0 = false := by simpa using hx n (by omega)
    rw [iterate_succ_apply', ih (by omega), bitStep, hlow]
    simp [BitVec.shiftRight_add]

theorem byteStep_shiftLeft {x : BitVec 32} (hx : x.toNat < 2 ^ 24) :
    byteStep poly (x <<< 8) = x := by
  rw [byteStep, iterate_bitStep_high poly (by intro i hi; simp [hi]) (Nat.le_refl 8)]
  apply BitVec.eq_of_toNat_eq
  simp only [BitVec.toNat_ushiftRight, BitVec.toNat_shiftLeft, Nat.shiftRight_eq_div_pow,
    Nat.shiftLeft_eq]
  omega

theorem octet_split (x : BitVec 32) : x = (x &&& 0xff#32) ^^^ ((x >>> 8) <<< 8) := by
  apply BitVec.eq_of_getLsbD_eq
  intro i hi
  have hmask : (0xff#32).getLsbD i = decide (i < 8) := by
    revert i
    decide
  simp only [BitVec.getLsbD_xor, BitVec.getLsbD_and, hmask, BitVec.getLsbD_shiftLeft,
    BitVec.getLsbD_ushiftRight]
  by_cases h : i < 8
  · simp [h]
  · have hi8 : 8 + (i - 8) = i := by omega
    simp [h, hi, hi8]

theorem byteStep_split (x : BitVec 32) :
    byteStep poly x = byteStep poly (x &&& 0xff#32) ^^^ (x >>> 8) := by
  have hhigh : (x >>> 8).toNat < 2 ^ 24 := by
    simp only [BitVec.toNat_ushiftRight, Nat.shiftRight_eq_div_pow]
    omega
  conv_lhs => rw [octet_split x]
  rw [byteStep_xor, byteStep_shiftLeft poly hhigh]

/-! ## The tables -/

theorem table_eq_iterate (k : Nat) (i : BitVec 32) :
    table poly k i = (byteStep poly)^[k + 1] i := by
  induction k with
  | zero => rfl
  | succ k ih =>
    rw [iterate_succ_apply', ← ih, byteStep_split poly (table poly k i), table, BitVec.xor_comm]

theorem update_eq (c : BitVec 32) (b : UInt8) : update poly c b = byteStep poly (c ^^^ octet b) := by
  rw [update, table, byteStep_xor, byteStep_xor, byteStep_split poly c]
  ac_rfl

/-- Shifting out `n + 1` octets, the lowest of them looked up. -/
theorem iterate_byteStep_split (n : Nat) (x : BitVec 32) :
    (byteStep poly)^[n + 1] x = table poly n (x &&& 0xff#32) ^^^ (byteStep poly)^[n] (x >>> 8) := by
  calc (byteStep poly)^[n + 1] x
      = (byteStep poly)^[n] (byteStep poly (x &&& 0xff#32) ^^^ (x >>> 8)) := by
        rw [iterate_succ_apply, byteStep_split poly x]
    _ = (byteStep poly)^[n + 1] (x &&& 0xff#32) ^^^ (byteStep poly)^[n] (x >>> 8) := by
        rw [iterate_xor (byteStep_xor poly), iterate_succ_apply]
    _ = _ := by rw [table_eq_iterate]

theorem iterate_byteStep_zero (n : Nat) : (byteStep poly)^[n] 0#32 = 0#32 := by
  have h := iterate_xor (byteStep_xor poly) n 0#32 0#32
  simpa using h

theorem iterate_byteStep_word (n : Nat) (x : BitVec 32) : (byteStep poly)^[n + 4] x =
      table poly (n + 3) (x &&& 0xff#32) ^^^ table poly (n + 2) ((x >>> 8) &&& 0xff#32) ^^^
        table poly (n + 1) ((x >>> 16) &&& 0xff#32) ^^^ table poly n ((x >>> 24) &&& 0xff#32) := by
  have hgone : x >>> 24 >>> 8 = 0#32 := by
    rw [← BitVec.shiftRight_add]
    exact BitVec.ushiftRight_eq_zero (Nat.le_refl 32)
  rw [iterate_byteStep_split poly (n + 3), iterate_byteStep_split poly (n + 2),
    iterate_byteStep_split poly (n + 1), iterate_byteStep_split poly n]
  simp only [← BitVec.shiftRight_add] at hgone ⊢
  rw [hgone, iterate_byteStep_zero, BitVec.xor_zero]
  ac_rfl

theorem load_cons {b : UInt8} (h : bs.length ≤ 3) :
    load (b :: bs) = octet b ^^^ (load bs <<< 8) ∧ (load bs).toNat < 2 ^ 24 := by
  have hb : b.toNat < 256 := b.toNat_lt
  have hlt : getLE bs < 2 ^ 24 := by
    refine Nat.lt_of_lt_of_le (ByteCodec.getLE_lt bs) ?_
    have hle : 256 ^ bs.length ≤ 256 ^ 3 := Nat.pow_le_pow_right (by decide) h
    simpa using hle
  have hlow : load (b :: bs) &&& 0xff#32 = octet b := by
    apply BitVec.eq_of_toNat_eq
    change _ &&& (2 ^ 8 - 1) = _
    rw [Nat.and_two_pow_sub_one_eq_mod]
    simp only [load, getLE, octet, BitVec.toNat_ofNat]
    omega
  have hhigh : load (b :: bs) >>> 8 = load bs := by
    apply BitVec.eq_of_toNat_eq
    simp only [load, getLE, BitVec.toNat_ushiftRight, BitVec.toNat_ofNat, Nat.shiftRight_eq_div_pow]
    omega
  refine ⟨?_, ?_⟩
  · rw [octet_split (load (b :: bs)), hlow, hhigh]
  · simp only [load, BitVec.toNat_ofNat]
    omega

/-- Up to four bytes may be added to the register at once and then shifted out. -/
theorem foldl_update_eq_iterate (h : bs.length ≤ 4) (c : BitVec 32) :
    bs.foldl (update poly) c = (byteStep poly)^[bs.length] (c ^^^ load bs) := by
  induction bs generalizing c with
  | nil => simp [load, getLE]
  | cons b bs ih =>
    have hbs : bs.length ≤ 3 := by
      rw [length_cons] at h
      omega
    obtain ⟨hload, hlt⟩ := load_cons (b := b) hbs
    have hstep : byteStep poly (c ^^^ load (b :: bs)) = update poly c b ^^^ load bs := by
      rw [hload, ← BitVec.xor_assoc, byteStep_xor, byteStep_shiftLeft poly hlt, update_eq]
    rw [foldl_cons, ih (Nat.le_of_succ_le h), length_cons, iterate_succ_apply, hstep]

/-- Eight lookups in eight tables are eight bytes, one after the other. -/
theorem sliced_eq_foldl {bs cs : List UInt8} (hb : bs.length = 4) (hc : cs.length = 4)
    (c : BitVec 32) : sliced poly c (load bs) (load cs) = (bs ++ cs).foldl (update poly) c := by
  calc sliced poly c (load bs) (load cs)
      = (byteStep poly)^[8] (load bs ^^^ c) ^^^ (byteStep poly)^[4] (load cs) := by
        rw [iterate_byteStep_word poly 4, iterate_byteStep_word poly 0, sliced]
        ac_rfl
    _ = (byteStep poly)^[4] ((byteStep poly)^[4] (c ^^^ load bs) ^^^ load cs) := by
        rw [iterate_xor (byteStep_xor poly) 4, BitVec.xor_comm c,
          ← iterate_add_apply (byteStep poly) 4 4]
    _ = (bs ++ cs).foldl (update poly) c := by
        rw [foldl_append, foldl_update_eq_iterate poly (Nat.le_of_eq hb),
          foldl_update_eq_iterate poly (Nat.le_of_eq hc), hb, hc]

theorem updates_eq_foldl (c : BitVec 32) (bs : List UInt8) :
    updates poly c bs = bs.foldl (update poly) c := by
  fun_induction updates poly c bs with
  | case1 c b0 b1 b2 b3 b4 b5 b6 b7 rest ih =>
    rw [ih, sliced_eq_foldl poly rfl rfl]
    rfl
  | case2 c rest _ => rfl

/-! ## No change of one byte goes unnoticed -/

section Injective

variable {poly}
variable (hpoly : poly.getLsbD 31 = true)

include hpoly

/-- The top bit says whether the polynomial was added, so the step can be undone. -/
theorem bitStep_injective : Injective (bitStep poly) := by
  intro x y h
  have htop : ∀ z, (bitStep poly z).getLsbD 31 = z.getLsbD 0 := by
    intro z
    unfold bitStep
    cases z.getLsbD 0 <;> simp [hpoly]
  have hlow : x.getLsbD 0 = y.getLsbD 0 := by rw [← htop x, ← htop y, h]
  have hhigh : x >>> 1 = y >>> 1 := by
    rw [bitStep, hlow] at h
    exact (BitVec.xor_left_inj _).mp h
  apply BitVec.eq_of_getLsbD_eq
  intro i _
  cases i with
  | zero => exact hlow
  | succ i =>
    have hbit := congrArg (fun z => BitVec.getLsbD z i) hhigh
    simpa [Nat.add_comm] using hbit

theorem byteStep_injective : Injective (byteStep poly) :=
  (bitStep_injective hpoly).iterate 8

theorem update_injective (b : UInt8) : Injective (fun c => update poly c b) := by
  intro c d h
  simp only [update_eq] at h
  exact (BitVec.xor_left_inj _).mp (byteStep_injective hpoly h)

theorem update_byte_injective (c : BitVec 32) : Injective (update poly c) := by
  intro a b h
  rw [update_eq, update_eq] at h
  have hoctet := congrArg BitVec.toNat ((BitVec.xor_right_inj _).mp (byteStep_injective hpoly h))
  have ha : a.toNat < 256 := a.toNat_lt
  have hb : b.toNat < 256 := b.toNat_lt
  simp only [octet, BitVec.toNat_ofNat] at hoctet
  exact UInt8.toNat_inj.mp (by omega)

theorem foldl_update_injective (bs : List UInt8) :
    Injective (fun c => bs.foldl (update poly) c) := by
  induction bs with
  | nil => exact injective_id
  | cons b bs ih => exact ih.comp (update_injective hpoly b)

theorem crc_seed_injective (bs : List UInt8) : Injective (crc poly bs) := by
  intro s t h
  simp only [crc, updates_eq_foldl] at h
  exact BitVec.not_inj.mp (foldl_update_injective hpoly bs (BitVec.not_inj.mp h))

theorem crc_set_ne {i : Nat} {b : UInt8} (hne : bs.set i b ≠ bs)
    (seed : BitVec 32) : crc poly (bs.set i b) seed ≠ crc poly bs seed := by
  intro h
  have hi : i < bs.length := by
    by_contra hle
    exact hne (set_eq_of_length_le (Nat.le_of_not_lt hle))
  have hsplit : bs = bs.take i ++ bs[i] :: bs.drop (i + 1) := by simp
  have hset : bs.set i b = bs.take i ++ b :: bs.drop (i + 1) := by
    rw [set_eq_take_append_cons_drop, if_pos hi]
  rw [hset] at h
  conv_rhs at h => rw [hsplit]
  simp only [crc, updates_eq_foldl, foldl_append, foldl_cons] at h
  -- the register is the same before the byte, and after it only if the byte is
  have hafter := foldl_update_injective hpoly _ (BitVec.not_inj.mp h)
  have hsame : b = bs[i] := update_byte_injective hpoly _ hafter
  rw [hsame, set_getElem_self] at hne
  exact hne rfl

end Injective

end Crc32
end Xio
