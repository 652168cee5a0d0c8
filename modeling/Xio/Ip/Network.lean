import Xio.Lib.ByteCodec

/-!
# Ip.Network — networks of addresses

A network is an address with a prefix length. It stands for the addresses of its scope that start
with the same bits. The two families of addresses clear the other bits in their own ways: IPv4 with
a mask for the word, IPv6 byte by byte.

- `Family`: what both families have, and all that the laws of networks need
- `network_laws`: masks, canonical forms and `is_subnet_of`
-/

namespace Xio
namespace Ip

open ByteCodec

/-! ## Networks of either family -/

/-- Addresses by their bits, the most significant one first, and the `network()` of a prefix. -/
structure Family (α : Type) where
  width : Nat
  bit : α → Nat → Bool
  scope : α → Nat
  network : α → Nat → α
  scope_network : ∀ a p, scope (network a p) = scope a
  bit_network : ∀ a p, ∀ i < width, bit (network a p) i = (decide (i < p) && bit a i)
  ext : ∀ a b, scope a = scope b → (∀ i < width, bit a i = bit b i) → a = b
  flip : ∀ a, ∀ p < width, ∃ b, scope b = scope a ∧ (∀ i < p, bit b i = bit a i) ∧
    bit b p ≠ bit a p

inductive NetworkError
  | outOfRange (what : String)
  | invalidArgument (what : String)
deriving DecidableEq

structure Network {α : Type} (F : Family α) where
  address : α
  prefixLength : Nat
  valid : prefixLength ≤ F.width
deriving DecidableEq

namespace Network

variable {α : Type} {F : Family α}

def ofPrefix (addr : α) (len : Nat) : Except NetworkError (Network F) :=
  if h : len ≤ F.width then .ok ⟨addr, len, h⟩ else .error (.outOfRange "prefix length too large")

def canonical (n : Network F) : Network F := { n with address := F.network n.address n.prefixLength }

def isSubnetOf [DecidableEq α] (n other : Network F) : Bool :=
  if other.prefixLength ≥ n.prefixLength then false
  else other.canonical == { other with address := n.address }.canonical

/-- The addresses of the scope of the network that start with its bits. -/
def addresses (n : Network F) : Set α :=
  {a | F.scope a = F.scope n.address ∧ ∀ i < n.prefixLength, F.bit a i = F.bit n.address i}

theorem ofPrefix_eq_ok {a : α} {p : Nat} {n : Network F} :
    ofPrefix a p = .ok n ↔ n.address = a ∧ n.prefixLength = p := by
  unfold ofPrefix
  constructor
  · intro h
    split_ifs at h
    cases h
    exact ⟨rfl, rfl⟩
  · rintro ⟨rfl, rfl⟩
    exact dif_pos n.valid

variable {n m : Network F}

theorem address_mem (n : Network F) : n.address ∈ n.addresses := ⟨rfl, fun _ _ => rfl⟩

theorem canonical_eq_iff :
    n.canonical = m.canonical ↔ n.prefixLength = m.prefixLength ∧ n.address ∈ m.addresses := by
  simp only [canonical, Network.mk.injEq]
  constructor
  · rintro ⟨ha, hp⟩
    have hscope := congrArg F.scope ha
    rw [F.scope_network, F.scope_network] at hscope
    refine ⟨hp, hscope, fun i hi => ?_⟩
    have hw := hi.trans_le m.valid
    have hbit := congrArg (F.bit · i) ha
    simpa [F.bit_network _ _ i hw, hp, hi] using hbit
  · rintro ⟨hp, hscope, hbits⟩
    refine ⟨F.ext _ _ (by rw [F.scope_network, F.scope_network, hscope]) fun i hw => ?_, hp⟩
    rw [F.bit_network _ _ i hw, F.bit_network _ _ i hw, hp]
    by_cases hi : i < m.prefixLength
    · rw [hbits i hi]
    · simp [hi]

theorem subset_iff :
    n.addresses ⊆ m.addresses ↔ m.prefixLength ≤ n.prefixLength ∧ n.address ∈ m.addresses := by
  constructor
  · intro h
    have hin := h n.address_mem
    refine ⟨Nat.le_of_not_lt fun hlt => ?_, hin⟩
    -- the first bit behind the shorter prefix is not fixed by it
    obtain ⟨a, hscope, hbits, hne⟩ := F.flip n.address n.prefixLength (hlt.trans_le m.valid)
    exact hne (((h ⟨hscope, hbits⟩).2 _ hlt).trans (hin.2 _ hlt).symm)
  · rintro ⟨hp, hscope, hbits⟩ a ⟨ha, hown⟩
    exact ⟨ha.trans hscope, fun i hi => (hown i (hi.trans_le hp)).trans (hbits i hi)⟩

theorem mem_comm (hp : n.prefixLength = m.prefixLength) (h : n.address ∈ m.addresses) :
    m.address ∈ n.addresses :=
  ⟨h.1.symm, fun i hi => (h.2 i (hp ▸ hi)).symm⟩

theorem isSubnetOf_iff [DecidableEq α] : n.isSubnetOf m = true ↔ n.addresses ⊂ m.addresses := by
  rw [Set.ssubset_def, subset_iff, subset_iff]
  unfold isSubnetOf
  split_ifs with h
  · refine iff_of_false id fun hsub => hsub.2 ⟨h, ?_⟩
    exact mem_comm (Nat.le_antisymm h hsub.1.1) hsub.1.2
  · rw [beq_iff_eq, eq_comm, canonical_eq_iff]
    exact ⟨fun hin => ⟨⟨by omega, hin.2⟩, fun hsub => h hsub.1⟩, fun hsub => ⟨rfl, hsub.1.2⟩⟩

theorem canonical_canonical (n : Network F) : n.canonical.canonical = n.canonical := by
  refine canonical_eq_iff.mpr ⟨rfl, F.scope_network _ _, fun i hi => ?_⟩
  simpa [canonical, hi] using F.bit_network n.address n.prefixLength i (hi.trans_le n.valid)

theorem canonical_eq_iff_addresses : n.canonical = m.canonical ↔
    n.addresses = m.addresses ∧ n.prefixLength = m.prefixLength := by
  rw [canonical_eq_iff, Set.Subset.antisymm_iff, subset_iff, subset_iff]
  constructor
  · rintro ⟨hp, hin⟩
    exact ⟨⟨⟨hp.ge, hin⟩, hp.le, mem_comm hp hin⟩, hp⟩
  · rintro ⟨⟨⟨-, hin⟩, -⟩, hp⟩
    exact ⟨hp, hin⟩

end Network

/-- How the networks of a family compare. -/
structure NetworkLaws {α : Type} [DecidableEq α] (F : Family α) : Prop where
  canonical_canonical : ∀ n : Network F, n.canonical.canonical = n.canonical
  canonical_eq_iff : ∀ n m : Network F, n.canonical = m.canonical ↔
    n.addresses = m.addresses ∧ n.prefixLength = m.prefixLength
  isSubnetOf_iff : ∀ n m : Network F, n.isSubnetOf m = true ↔ n.addresses ⊂ m.addresses
  irrefl : ∀ n : Network F, n.isSubnetOf n = false
  trans : ∀ l m n : Network F, l.isSubnetOf m = true → m.isSubnetOf n = true →
    l.isSubnetOf n = true
  canonical_left : ∀ n m : Network F, n.canonical.isSubnetOf m = n.isSubnetOf m
  canonical_right : ∀ n m : Network F, n.isSubnetOf m.canonical = n.isSubnetOf m

theorem Family.laws {α : Type} [DecidableEq α] (F : Family α) : NetworkLaws F := by
  have hsame (n : Network F) : n.canonical.addresses = n.addresses :=
    (Network.canonical_eq_iff_addresses.mp n.canonical_canonical).1
  refine ⟨Network.canonical_canonical, fun n m => Network.canonical_eq_iff_addresses,
    fun n m => Network.isSubnetOf_iff, fun n => ?_, fun l m n => ?_, fun n m => ?_, fun n m => ?_⟩
  · rw [← Bool.not_eq_true, Network.isSubnetOf_iff]
    exact ssubset_irrefl _
  · simp only [Network.isSubnetOf_iff]
    exact fun h h' => h.trans h'
  · rw [Bool.eq_iff_iff, Network.isSubnetOf_iff, Network.isSubnetOf_iff, hsame]
  · rw [Bool.eq_iff_iff, Network.isSubnetOf_iff, Network.isSubnetOf_iff, hsame]

/-! ## IPv4 -/

/-- An address by its `to_uint()`. -/
abbrev AddressV4 := BitVec 32

/-- `netmask()` of a network with this prefix length. -/
def netmask (len : Nat) : AddressV4 := if len = 0 then 0 else 0xffffffff#32 <<< (32 - len)

theorem netmask_bit (p : Nat) {i : Nat} (hi : i < 32) : (netmask p).getMsbD i = decide (i < p) := by
  unfold netmask
  split_ifs with hp
  · simp [hp]
  · rw [show 0xffffffff#32 = BitVec.allOnes 32 from rfl, BitVec.getMsbD_shiftLeft,
      BitVec.getMsbD_allOnes, decide_eq_decide]
    omega

def v4 : Family AddressV4 where
  width := 32
  bit := BitVec.getMsbD
  scope _ := 0
  network a p := a &&& netmask p
  scope_network _ _ := rfl
  bit_network a p i hi := by rw [BitVec.getMsbD_and, netmask_bit p hi, Bool.and_comm]
  ext a b _ h := BitVec.eq_of_getMsbD_eq h
  flip a p hp := by
    have hflip (i : Nat) (hi : i ≤ p) : (a ^^^ BitVec.twoPow 32 (31 - p)).getMsbD i =
        (a.getMsbD i ^^ decide (i = p)) := by
      simp [BitVec.getMsbD, BitVec.getLsbD_twoPow]
      grind
    refine ⟨_, rfl, fun i hi => (hflip i hi.le).trans ?_, (hflip p le_rfl).trans_ne ?_⟩
    · simp [hi.ne]
    · simp

abbrev NetworkV4 := Network v4

/-! ## IPv6 -/

structure AddressV6 where
  bytes : Vector UInt8 16
  scopeId : Nat
deriving DecidableEq

def byteBit (b : UInt8) (i : Nat) : Bool := b.toBitVec.getMsbD i

def AddressV6.bit (a : AddressV6) (i : Nat) : Bool := byteBit (a.bytes[i / 8]?.getD 0) (i % 8)

def networkByte (len i : Nat) (b : UInt8) : UInt8 :=
  if len ≤ i * 8 then 0
  else if len < (i + 1) * 8 then UInt8.ofNat (b.toNat &&& (0xFF00 >>> (len % 8)))
  else b

theorem networkByte_bit (len i : Nat) (b : UInt8) {r : Nat} (hr : r < 8) :
    byteBit (networkByte len i b) r = (decide (i * 8 + r < len) && byteBit b r) := by
  have hcut : ∀ k < 8, ∀ b < 256, ∀ r < 8, byteBit (UInt8.ofNat (b &&& (0xFF00 >>> k))) r =
      (decide (r < k) && byteBit (UInt8.ofNat b) r) := by
    decide +kernel
  unfold networkByte
  split_ifs with hlow hcur
  · simp [byteBit, show ¬ i * 8 + r < len by omega]
  · rw [hcut _ (Nat.mod_lt _ (by decide)) _ b.toNat_lt _ hr, UInt8.ofNat_toNat]
    simp [show r < len % 8 ↔ i * 8 + r < len by omega]
  · simp [show i * 8 + r < len by omega]

def v6 : Family AddressV6 where
  width := 128
  bit := AddressV6.bit
  scope := AddressV6.scopeId
  network a p := { a with bytes := a.bytes.mapIdx (networkByte p) }
  scope_network _ _ := rfl
  bit_network a p i hi := by
    have hj : i / 8 < 16 := by omega
    simp [AddressV6.bit, hj, networkByte_bit p _ _ (Nat.mod_lt i (by decide : 0 < 8)),
      Nat.div_add_mod']
  ext a b hs h := by
    obtain ⟨bs, s⟩ := a
    obtain ⟨cs, t⟩ := b
    obtain rfl : s = t := hs
    congr 1
    refine Vector.ext fun j hj => UInt8.toBitVec_inj.mp (BitVec.eq_of_getMsbD_eq fun r hr => ?_)
    simpa [AddressV6.bit, byteBit, hj, show (8 * j + r) / 8 = j by omega, Nat.mod_eq_of_lt hr]
      using h (8 * j + r) (by omega)
  flip a p hp := by
    have hbyte : ∀ k < 8, ∀ b < 256, ∀ r < 8, byteBit (UInt8.ofNat b ^^^ UInt8.ofNat (0x80 >>> k)) r =
        (byteBit (UInt8.ofNat b) r ^^ decide (r = k)) := by
      decide +kernel
    have hj : p / 8 < 16 := by omega
    let b : AddressV6 := { a with
      bytes := a.bytes.set (p / 8) (a.bytes[p / 8] ^^^ UInt8.ofNat (0x80 >>> (p % 8))) }
    have hflip (i : Nat) (hi : i ≤ p) : b.bit i = (a.bit i ^^ decide (i = p)) := by
      have hr := Nat.mod_lt i (by decide : 0 < 8)
      by_cases heq : i / 8 = p / 8
      · have hb := hbyte _ (Nat.mod_lt p (by decide)) _ a.bytes[p / 8].toNat_lt _ hr
        simp only [UInt8.ofNat_toNat] at hb
        simp [AddressV6.bit, b, heq, hj, hb, show i = p ↔ i % 8 = p % 8 by omega]
      · have hne : i ≠ p := by rintro rfl; exact heq rfl
        simp [AddressV6.bit, b, Ne.symm heq, hne]
    refine ⟨b, rfl, fun i hi => (hflip i hi.le).trans ?_, (hflip p le_rfl).trans_ne ?_⟩
    · simp [hi.ne]
    · simp

abbrev NetworkV6 := Network v6

/-! ## Masks -/

def AddressV4.toBytes (a : AddressV4) : List UInt8 := (putLE 4 a.toNat).reverse

/-- The `switch` over a byte of a mask, with the increments that it falls through. -/
def maskBits (b : UInt8) : Option Nat :=
  match b.toNat with
  | 255 => some 8
  | 254 => some 7
  | 252 => some 6
  | 248 => some 5
  | 240 => some 4
  | 224 => some 3
  | 192 => some 2
  | 128 => some 1
  | 0 => some 0
  | _ => none

/-- The loop over the bytes of a mask, with `finished` and `prefix_length_`. -/
def maskLoop : Bool → Nat → List UInt8 → Except NetworkError Nat
  | _, len, [] => .ok len
  | true, len, b :: bs =>
    if b ≠ 0 then .error (.invalidArgument "non-contiguous netmask") else maskLoop true len bs
  | false, len, b :: bs =>
    match maskBits b with
    | none => .error (.outOfRange "non-contiguous netmask")
    | some bits => maskLoop (bits != 8) (len + bits) bs

/-- The loop does not check the length that it finds; four bytes have no more than 32 bits. -/
def ofMask (addr mask : AddressV4) : Except NetworkError NetworkV4 :=
  (maskLoop false 0 mask.toBytes).bind (Network.ofPrefix addr)

/-- As many bytes that start with `p` one bits and have no other ones. -/
def onesBytes : Nat → Nat → List UInt8
  | _, 0 => []
  | p, n + 1 => UInt8.ofNat (0xFF00 >>> min p 8) :: onesBytes (p - 8) n

theorem maskLoop_ok {finished : Bool} {len r : Nat} {bs : List UInt8}
    (h : maskLoop finished len bs = .ok r) :
    ∃ p, r = len + p ∧ (finished = true → p = 0) ∧ bs = onesBytes p bs.length := by
  have hbyte : ∀ b < 256, ∀ k ∈ maskBits (UInt8.ofNat b),
      k ≤ 8 ∧ UInt8.ofNat b = UInt8.ofNat (0xFF00 >>> k) := by
    decide +kernel
  induction bs generalizing finished len with
  | nil =>
    simp only [maskLoop, Except.ok.injEq] at h
    exact ⟨0, h.symm, fun _ => rfl, rfl⟩
  | cons b bs ih =>
    cases finished with
    | true =>
      rw [maskLoop, ite_not] at h
      split_ifs at h with hb
      obtain ⟨p, rfl, hp, hbs⟩ := ih h
      obtain rfl := hp rfl
      exact ⟨0, rfl, fun _ => rfl, by simpa [onesBytes, hb] using hbs⟩
    | false =>
      rw [maskLoop] at h
      cases hk : maskBits b with
      | none => simp [hk] at h
      | some k =>
        rw [hk] at h
        obtain ⟨p, rfl, hp, hbs⟩ := ih h
        obtain ⟨hle, hb⟩ := hbyte b.toNat b.toNat_lt k (by simpa using hk)
        rw [UInt8.ofNat_toNat] at hb
        refine ⟨k + p, Nat.add_assoc _ _ _, nofun, ?_⟩
        rw [List.length_cons, onesBytes, hb]
        by_cases h8 : k = 8
        · simpa [h8] using hbs
        · obtain rfl := hp (by simpa using h8)
          simpa [Nat.min_eq_left hle, Nat.sub_eq_zero_of_le hle] using hbs

theorem ofMask_iff {addr mask : AddressV4} {n : NetworkV4} :
    ofMask addr mask = .ok n ↔ n.address = addr ∧ mask = netmask n.prefixLength := by
  have hones : ∀ p ≤ 32, (netmask p).toBytes = onesBytes p 4 ∧
      maskLoop false 0 (netmask p).toBytes = .ok p := by
    decide +kernel
  constructor
  · intro h
    cases hp : maskLoop false 0 mask.toBytes with
    | error e => simp [ofMask, hp, Except.bind] at h
    | ok p =>
      obtain ⟨rfl, rfl⟩ := Network.ofPrefix_eq_ok.mp (by simpa [ofMask, hp, Except.bind] using h)
      obtain ⟨q, hq, -, hbytes⟩ := maskLoop_ok hp
      rw [Nat.zero_add] at hq
      rw [← hq, show mask.toBytes.length = 4 by simp [AddressV4.toBytes],
        ← (hones _ n.valid).1] at hbytes
      have hvalue := congrArg getLE (List.reverse_injective hbytes)
      rw [getLE_putLE_of_lt mask.isLt, getLE_putLE_of_lt (BitVec.isLt _)] at hvalue
      exact ⟨rfl, BitVec.eq_of_toNat_eq hvalue⟩
  · rintro ⟨rfl, rfl⟩
    rw [ofMask, (hones _ n.valid).2]
    exact Network.ofPrefix_eq_ok.mpr ⟨rfl, rfl⟩

/-- Masks are accepted exactly if they are contiguous, and networks compare as the addresses that
they contain. -/
theorem network_laws (addr mask : AddressV4) :
    (∀ n, ofMask addr mask = .ok n → netmask n.prefixLength = mask) ∧
    (∀ p ≤ 32, (∃ n, ofMask addr mask = .ok n ∧ n.prefixLength = p) ↔
      ∀ i < 32, mask.getMsbD i = decide (i < p)) ∧
    NetworkLaws v4 ∧ NetworkLaws v6 := by
  refine ⟨fun n hn => (ofMask_iff.mp hn).2.symm, fun p hp => ⟨?_, fun h => ?_⟩, v4.laws, v6.laws⟩
  · rintro ⟨n, hn, rfl⟩ i hi
    rw [(ofMask_iff.mp hn).2, netmask_bit _ hi]
  · refine ⟨⟨addr, p, hp⟩, ofMask_iff.mpr ⟨rfl, BitVec.eq_of_getMsbD_eq fun i hi => ?_⟩, rfl⟩
    rw [h i hi, netmask_bit _ hi]

end Ip
end Xio
