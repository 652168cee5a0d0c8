import Mathlib

/-!
# ByteCodec — little-endian words and exact reads

Numbers of a fixed width as bytes, least significant first, and readers that take what they
need from the front of a byte string and leave the rest. A reader that runs out of bytes fails.

- `getLE_putLE`: a word is read back modulo its width
- `getLE_injective`: words of one width are determined by their value
- `word_putLE`, `raw_append`, `cstr_append`: a reader finds what was written, whatever follows
-/

namespace Xio
namespace ByteCodec

open List

/-- The `k` low bytes of `v`, least significant first. -/
def putLE : Nat → Nat → List UInt8
  | 0, _ => []
  | k + 1, v => UInt8.ofNat v :: putLE k (v / 256)

/-- The number that the bytes stand for, least significant first. -/
def getLE : List UInt8 → Nat
  | [] => 0
  | b :: bs => b.toNat + 256 * getLE bs

@[simp] theorem length_putLE (k v : Nat) : (putLE k v).length = k := by
  induction k generalizing v with
  | zero => rfl
  | succ k ih => simp [putLE, ih]

theorem getLE_putLE (k v : Nat) : getLE (putLE k v) = v % 256 ^ k := by
  induction k generalizing v with
  | zero => simp [putLE, getLE, Nat.mod_one]
  | succ k ih =>
    calc getLE (putLE (k + 1) v) = v % 256 + 256 * (v / 256 % 256 ^ k) := by simp [putLE, getLE, ih]
      _ = v % (256 * 256 ^ k) := (Nat.mod_mul).symm
      _ = v % 256 ^ (k + 1) := by rw [Nat.pow_succ, Nat.mul_comm]

theorem getLE_putLE_of_lt {k v : Nat} (h : v < 256 ^ k) : getLE (putLE k v) = v := by
  rw [getLE_putLE, Nat.mod_eq_of_lt h]

theorem getLE_lt (bs : List UInt8) : getLE bs < 256 ^ bs.length := by
  induction bs with
  | nil => simp [getLE]
  | cons b bs ih =>
    have hb : b.toNat < 256 := b.toNat_lt
    simp only [getLE, length_cons, Nat.pow_succ]
    omega

theorem getLE_append (bs cs : List UInt8) :
    getLE (bs ++ cs) = getLE bs + 256 ^ bs.length * getLE cs := by
  induction bs with
  | nil => simp [getLE]
  | cons b bs ih =>
    calc getLE (b :: bs ++ cs) = b.toNat + 256 * (getLE bs + 256 ^ bs.length * getLE cs) := by
          rw [cons_append, getLE, ih]
      _ = getLE (b :: bs) + 256 ^ (b :: bs).length * getLE cs := by
          rw [getLE, length_cons, Nat.pow_succ, Nat.mul_add, Nat.mul_comm _ 256,
            Nat.mul_assoc, Nat.add_assoc]

theorem getLE_injective {bs cs : List UInt8} (hlen : bs.length = cs.length)
    (h : getLE bs = getLE cs) : bs = cs := by
  induction bs generalizing cs with
  | nil => exact (length_eq_zero_iff.mp hlen.symm).symm
  | cons b bs ih =>
    cases cs with
    | nil => cases hlen
    | cons c cs =>
      have hb : b.toNat < 256 := b.toNat_lt
      have hc : c.toNat < 256 := c.toNat_lt
      simp only [getLE] at h
      have hhead : b = c := UInt8.toNat_inj.mp (by omega)
      have htail : getLE bs = getLE cs := by omega
      rw [hhead, ih (Nat.succ.inj hlen) htail]

/-! ## Readers -/

/-- A reader takes its value from the front of the bytes, or fails. -/
abbrev Reader := StateT (List UInt8) Option

def raw (n : Nat) : Reader (List UInt8) :=
  fun bs => if n ≤ bs.length then some (bs.take n, bs.drop n) else none

def word (k : Nat) : Reader Nat := do
  let bs ← raw k
  return getLE bs

/-- The bytes before the next zero, which is read too. -/
def cstr : Reader (List UInt8) :=
  fun bs => match bs.dropWhile (· != 0) with
    | [] => none
    | _ :: rest => some (bs.takeWhile (· != 0), rest)

def putCstr (bs : List UInt8) : List UInt8 := bs ++ [0]

theorem raw_append {n : Nat} {bs rest : List UInt8} (h : bs.length = n) :
    raw n (bs ++ rest) = some (bs, rest) := by
  simp [raw, ← h]

theorem raw_eq_some {n : Nat} {input bs rest : List UInt8} (h : raw n input = some (bs, rest)) :
    bs.length = n ∧ input = bs ++ rest := by
  unfold raw at h
  split at h
  · rename_i hle
    cases h
    exact ⟨length_take_of_le hle, (take_append_drop n input).symm⟩
  · cases h

theorem bind_apply {α β : Type} (r : Reader α) (f : α → Reader β) (bs : List UInt8) :
    (r >>= f) bs = (r bs).bind (fun x => f x.1 x.2) := rfl

theorem pure_apply {α : Type} (x : α) (bs : List UInt8) :
    (pure x : Reader α) bs = some (x, bs) := rfl

theorem bind_eq_some {α β : Type} {r : Reader α} {f : α → Reader β} {bs rest : List UInt8} {y : β}
    (h : (r >>= f) bs = some (y, rest)) :
    ∃ x mid, r bs = some (x, mid) ∧ f x mid = some (y, rest) := by
  obtain ⟨⟨x, mid⟩, hr, hf⟩ := Option.bind_eq_some_iff.mp h
  exact ⟨x, mid, hr, hf⟩

theorem word_putLE {k v : Nat} (h : v < 256 ^ k) (rest : List UInt8) :
    word k (putLE k v ++ rest) = some (v, rest) := by
  simp [word, bind_apply, pure_apply, raw_append (length_putLE k v), getLE_putLE_of_lt h]

theorem cstr_append {bs : List UInt8} (h : 0 ∉ bs) (rest : List UInt8) :
    cstr (putCstr bs ++ rest) = some (bs, rest) := by
  have hall : ∀ b ∈ bs, (b != 0) = true := fun b hb => bne_iff_ne.mpr fun h0 => h (h0 ▸ hb)
  have htake : (putCstr bs ++ rest).takeWhile (· != 0) = bs := by
    rw [putCstr, append_assoc, takeWhile_append_of_pos hall]
    simp
  have hdrop : (putCstr bs ++ rest).dropWhile (· != 0) = 0 :: rest := by
    rw [putCstr, append_assoc, dropWhile_append_of_pos hall]
    simp
  simp only [cstr, hdrop, htake]

theorem word_eq_some {k v : Nat} {input rest : List UInt8} (h : word k input = some (v, rest)) :
    input = putLE k v ++ rest ∧ v < 256 ^ k := by
  obtain ⟨bs, mid, hraw, hv⟩ := bind_eq_some h
  cases hv
  obtain ⟨hlen, hin⟩ := raw_eq_some hraw
  have hlt : getLE bs < 256 ^ k := hlen ▸ getLE_lt bs
  have hbs : putLE k (getLE bs) = bs :=
    getLE_injective (by simp [hlen]) (getLE_putLE_of_lt hlt)
  rw [hbs]
  exact ⟨hin, hlt⟩

end ByteCodec
end Xio
