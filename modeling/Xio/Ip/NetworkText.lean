import Xio.Ip.Network

/-!
# Ip.NetworkText — networks as text

A network is written as its address, a slash and its prefix length. The conversions of addresses are
those of the operating system and stand here as parameters.

- `makeNetwork_exact`: the parser reads what the text says unless `atoi` cuts the number to a prefix
  length, and networks are read back from their text
- `makeNetworkV4_truncates`: such a number
-/

namespace Xio
namespace Ip

/-- The number that a string of digits denotes. -/
def decimal (ds : List Char) : Nat := Nat.ofDigitChars 10 ds 0

/-- `strtol` saturates at 64 bits, and its result is cut to 32. -/
def atoi (ds : List Char) : Int := (BitVec.ofNat 32 (min (decimal ds) (2 ^ 63 - 1))).toInt

section Family

variable {α : Type} {F : Family α}

/-- The parser of either family. -/
def makeNetwork (F : Family α) (makeAddress : List Char → Option α) (str : List Char) :
    Option (Network F) :=
  let pos := str.idxOf '/'
  if pos = str.length then none
  else if pos = str.length - 1 then none
  else if (str.drop (pos + 1)).any (fun c => !c.isDigit) then none
  else (makeAddress (str.take pos)).bind fun addr =>
    let prefixLen := atoi (str.drop (pos + 1))
    if prefixLen < 0 ∨ prefixLen > F.width then none
    else (Network.ofPrefix addr prefixLen.toNat).toOption

/-- The address, a slash and the digits of the prefix length. -/
def networkToString (toString : α → List Char) (n : Network F) : List Char :=
  toString n.address ++ '/' :: Nat.toDigits 10 n.prefixLength

/-- `str` is an address, a slash and a number. -/
def Reads (makeAddress : List Char → Option α) (str : List Char) (addr : α) (len : Nat) : Prop :=
  ∃ s ds, str = s ++ '/' :: ds ∧ '/' ∉ s ∧ makeAddress s = some addr ∧ ds ≠ [] ∧
    (∀ c ∈ ds, c.isDigit = true) ∧ decimal ds = len

/-- An accepted address with a number of more than 32 bits that `strtol` still returns and whose low
32 bits are a prefix length. -/
def Truncates (F : Family α) (makeAddress : List Char → Option α) (str : List Char) : Prop :=
  ∃ addr len, Reads makeAddress str addr len ∧
    2 ^ 32 ≤ len ∧ len < 2 ^ 63 ∧ len % 2 ^ 32 ≤ F.width

theorem idxOf_slash {s ds : List Char} (hs : '/' ∉ s) : (s ++ '/' :: ds).idxOf '/' = s.length := by
  rw [List.idxOf_append_of_notMem hs, List.idxOf_cons_self, Nat.add_zero]

theorem Reads.decimal_eq {makeAddress : List Char → Option α} {str : List Char} {addr : α} {len : Nat}
    (h : Reads makeAddress str addr len) : decimal (str.drop (str.idxOf '/' + 1)) = len := by
  obtain ⟨s, ds, rfl, hs, -, -, -, hlen⟩ := h
  rw [idxOf_slash hs, show (s ++ '/' :: ds).drop (s.length + 1) = ds by simp, hlen]

/-- The numbers that pass the check of the range, and what becomes of them. -/
theorem atoi_eq {ds : List Char} {limit len : Nat} (hlimit : limit < 2 ^ 31) (hlen : len ≤ limit) :
    ¬ (atoi ds < 0 ∨ atoi ds > limit) ∧ (atoi ds).toNat = len ↔ decimal ds = len ∨
      2 ^ 32 ≤ decimal ds ∧ decimal ds < 2 ^ 63 ∧ decimal ds % 2 ^ 32 = len := by
  rw [atoi, BitVec.toInt_ofNat', Int.bmod_def]
  omega

theorem makeNetwork_append {makeAddress : List Char → Option α} {s ds : List Char}
    (hs : '/' ∉ s) : makeNetwork F makeAddress (s ++ '/' :: ds) =
      if ds = [] ∨ ds.any (fun c => !c.isDigit) then none
      else (makeAddress s).bind fun addr =>
        if atoi ds < 0 ∨ atoi ds > F.width then none
        else (Network.ofPrefix addr (atoi ds).toNat).toOption := by
  have hdrop : (s ++ '/' :: ds).drop (s.length + 1) = ds := by simp
  have hlast : s.length = (s ++ '/' :: ds).length - 1 ↔ ds = [] := by
    rw [← List.length_eq_zero_iff, List.length_append, List.length_cons]
    omega
  unfold makeNetwork
  rw [idxOf_slash hs, if_neg (by simp), hdrop, List.take_left]
  by_cases hnil : ds = []
  · rw [if_pos (hlast.mpr hnil), if_pos (.inl hnil)]
  · rw [if_neg (hlast.not.mpr hnil)]
    simp only [hnil, false_or]

theorem ofPrefix_toOption {a : α} {p : Nat} {n : Network F} :
    (Network.ofPrefix a p).toOption = some n ↔ n.address = a ∧ n.prefixLength = p := by
  rw [← Network.ofPrefix_eq_ok]
  cases (Network.ofPrefix a p : Except NetworkError (Network F)) <;> simp [Except.toOption]

theorem makeNetwork_eq_some (hwidth : F.width < 2 ^ 31) {makeAddress : List Char → Option α}
    {str : List Char} {n : Network F} : makeNetwork F makeAddress str = some n ↔
      ∃ len, Reads makeAddress str n.address len ∧ (len = n.prefixLength ∨
        2 ^ 32 ≤ len ∧ len < 2 ^ 63 ∧ len % 2 ^ 32 = n.prefixLength) := by
  constructor
  · intro h
    by_cases hslash : '/' ∈ str
    · obtain ⟨s, ds, rfl, hs⟩ := List.eq_append_cons_of_mem hslash
      rw [makeNetwork_append hs, Option.ite_none_left_eq_some, Option.bind_eq_some_iff] at h
      obtain ⟨hds, a, ha, h⟩ := h
      rw [Option.ite_none_left_eq_some, ofPrefix_toOption] at h
      obtain ⟨hrange, rfl, hlen⟩ := h
      have hdigits : ∀ c ∈ ds, c.isDigit = true := by simpa using (not_or.mp hds).2
      exact ⟨decimal ds, ⟨s, ds, rfl, hs, ha, (not_or.mp hds).1, hdigits, rfl⟩,
        (atoi_eq hwidth n.valid).mp ⟨hrange, hlen.symm⟩⟩
    · rw [makeNetwork, List.idxOf_eq_length hslash] at h
      simp at h
  · rintro ⟨len, ⟨s, ds, rfl, hs, ha, hne, hdigits, rfl⟩, hlen⟩
    obtain ⟨hrange, hval⟩ := (atoi_eq hwidth n.valid).mpr hlen
    rw [makeNetwork_append hs, if_neg (by simpa [hne] using hdigits), ha, Option.bind_some,
      if_neg hrange, ofPrefix_toOption]
    exact ⟨rfl, hval.symm⟩

theorem makeNetwork_reads_iff (hwidth : F.width < 2 ^ 31) {makeAddress : List Char → Option α}
    {str : List Char} : (∀ n, makeNetwork F makeAddress str = some n ↔
      Reads makeAddress str n.address n.prefixLength) ↔ ¬ Truncates F makeAddress str := by
  constructor
  · rintro hexact ⟨addr, len, hreads, hlow, hhigh, hcut⟩
    -- the network that the truncated number stands for is not what the text says
    have hmade := (makeNetwork_eq_some hwidth (n := ⟨addr, len % 2 ^ 32, hcut⟩)).mpr
      ⟨len, hreads, .inr ⟨hlow, hhigh, rfl⟩⟩
    have hcutlen := ((hexact _).mp hmade).decimal_eq.symm.trans hreads.decimal_eq
    dsimp only at hcutlen
    omega
  · intro hnot n
    rw [makeNetwork_eq_some hwidth]
    constructor
    · rintro ⟨len, hreads, rfl | ⟨hlow, hhigh, hcut⟩⟩
      · exact hreads
      · exact absurd ⟨n.address, len, hreads, hlow, hhigh, hcut ▸ n.valid⟩ hnot
    · exact fun hreads => ⟨_, hreads, .inl rfl⟩

theorem makeNetwork_networkToString (hwidth : F.width < 2 ^ 31)
    {makeAddress : List Char → Option α} {toString : α → List Char} {n : Network F}
    (haddr : makeAddress (toString n.address) = some n.address) (hslash : '/' ∉ toString n.address) :
    makeNetwork F makeAddress (networkToString toString n) = some n :=
  (makeNetwork_eq_some hwidth).mpr ⟨n.prefixLength, ⟨_, _, rfl, hslash, haddr, Nat.toDigits_ne_nil,
    fun c => Nat.isDigit_of_mem_toDigits (by decide) (by decide), Nat.ofDigitChars_ten_toDigits⟩,
    .inl rfl⟩

end Family

def makeNetworkV4 (makeAddress : List Char → Option AddressV4) (str : List Char) :
    Option NetworkV4 :=
  makeNetwork v4 makeAddress str

def makeNetworkV6 (makeAddress : List Char → Option AddressV6) (str : List Char) :
    Option NetworkV6 :=
  makeNetwork v6 makeAddress str

/-- Both parsers read what a text says exactly if the number in it is not cut to a prefix length, and
read a network back from its text if its address is read back. -/
theorem makeNetwork_exact (makeV4 : List Char → Option AddressV4) (toStringV4 : AddressV4 → List Char)
    (makeV6 : List Char → Option AddressV6) (toStringV6 : AddressV6 → List Char) :
    (∀ str, (∀ n, makeNetworkV4 makeV4 str = some n ↔ Reads makeV4 str n.address n.prefixLength) ↔
      ¬ Truncates v4 makeV4 str) ∧
    (∀ n : NetworkV4, makeV4 (toStringV4 n.address) = some n.address →
      '/' ∉ toStringV4 n.address → makeNetworkV4 makeV4 (networkToString toStringV4 n) = some n) ∧
    (∀ str, (∀ n, makeNetworkV6 makeV6 str = some n ↔ Reads makeV6 str n.address n.prefixLength) ↔
      ¬ Truncates v6 makeV6 str) ∧
    ∀ n : NetworkV6, makeV6 (toStringV6 n.address) = some n.address →
      '/' ∉ toStringV6 n.address → makeNetworkV6 makeV6 (networkToString toStringV6 n) = some n :=
  ⟨fun _ => makeNetwork_reads_iff (by decide),
    fun _ => makeNetwork_networkToString (by decide),
    fun _ => makeNetwork_reads_iff (by decide),
    fun _ => makeNetwork_networkToString (by decide)⟩

/-- One text each that the conversions accept. -/
theorem makeNetwork_reads_back :
    makeNetworkV4 (fun s => if s = "10.0.0.0".toList then some 0x0a000000 else none)
      "10.0.0.0/8".toList = some ⟨0x0a000000, 8, by decide⟩ ∧
    makeNetworkV6 (fun s => if s = "::".toList then some ⟨.replicate 16 0, 0⟩ else none)
      "::/64".toList = some ⟨⟨.replicate 16 0, 0⟩, 64, by decide⟩ :=
  have hexact := makeNetwork_exact _ (fun _ => "10.0.0.0".toList) _ (fun _ => "::".toList)
  ⟨hexact.2.1 ⟨0x0a000000, 8, by decide⟩ (if_pos rfl) (by decide),
    hexact.2.2.2 ⟨⟨.replicate 16 0, 0⟩, 64, by decide⟩ (if_pos rfl) (by decide)⟩

/-- `4294967296` is cut to a prefix length of zero. -/
theorem makeNetworkV4_truncates :
    makeNetworkV4 (fun s => if s = "0.0.0.0".toList then some 0 else none)
      "0.0.0.0/4294967296".toList = some ⟨0, 0, by decide⟩ := by
  decide +kernel

end Ip
end Xio
