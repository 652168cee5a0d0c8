import Xio.Codec.Buffer

/-!
# Codec.Records — the records that are stored and sent

`srv_config`, `cluster_config`, `snapshot`, `snapshot_sync_req` and `srv_state` to and from
buffers. A record is written with `buffer::put` into a buffer whose size was computed first, and
read back through a `buffer_serializer`; one record is put into the next without a length in
front, so a reader has to stop where the writer did.

- `SrvConfig.read_encoding`, `ClusterConfig.read_encoding`, `Snapshot.read_encoding`: the nested
  readers take what the nested writers put, whatever follows
- `SrvConfig.serialize_writes` and its companions: the computed sizes are exact
- `records_round_trip`: `deserialize` after `serialize`, for every record
-/

namespace Xio
namespace Codec

open ByteCodec Rpc Buffer List
open Option hiding bind_apply map_apply pure_apply

/-! ## srv_config -/

structure SrvConfig where
  id : Int32
  dcId : Int32
  endpoint : Bytes
  aux : Bytes
  learner : Bool
  newJoiner : Bool
  priority : Int32
  deriving DecidableEq

namespace SrvConfig

def learnerFlag : UInt8 := 0x1
def newJoinerFlag : UInt8 := 0x2

def srvType (s : SrvConfig) : UInt8 :=
  (if s.learner then learnerFlag else 0) ||| (if s.newJoiner then newJoinerFlag else 0)

def serialize (s : SrvConfig) : Alloc Buffer :=
  fill (4 + 4 + (s.endpoint.length + 1) + (s.aux.length + 1) + 1 + 4)
    [.int s.id, .int s.dcId, .str s.endpoint, .str s.aux, .byte s.srvType, .int s.priority]

/-- `deserialize` from a serializer that is in the middle of a buffer. -/
def read : Reader SrvConfig := do
  let id ← getI32
  let dcId ← getI32
  let endpoint ← cstr
  let aux ← cstr
  let srvType ← getU8
  let priority ← getI32
  return { id, dcId, endpoint, aux, learner := srvType &&& learnerFlag != 0
           newJoiner := srvType &&& newJoinerFlag != 0, priority }

def deserialize (buf : Buffer) : Option SrvConfig := buf.deserializeWith read

/-- The strings can be written with a zero at the end. -/
def NoNul (s : SrvConfig) : Prop := 0 ∉ s.endpoint ∧ 0 ∉ s.aux

instance (s : SrvConfig) : Decidable s.NoNul := inferInstanceAs (Decidable (_ ∧ _))

def encoding (s : SrvConfig) : Bytes :=
  putI32 s.id ++ putI32 s.dcId ++ putCstr s.endpoint ++ putCstr s.aux ++ putU8 s.srvType ++
    putI32 s.priority

theorem serialize_writes (s : SrvConfig) : Writes s.serialize s.encoding := by
  refine fill_writes ?_ ?_
  · simp [Put.encoding, encoding]
  · simp [encoding, putCstr]
    omega

theorem learner_srvType (s : SrvConfig) : (s.srvType &&& learnerFlag != 0) = s.learner := by
  unfold srvType
  cases s.learner <;> cases s.newJoiner <;> decide

theorem newJoiner_srvType (s : SrvConfig) : (s.srvType &&& newJoinerFlag != 0) = s.newJoiner := by
  unfold srvType
  cases s.learner <;> cases s.newJoiner <;> decide

theorem read_encoding {s : SrvConfig} (h : s.NoNul) (rest : Bytes) :
    read (s.encoding ++ rest) = some (s, rest) := by
  simp only [read, encoding, append_assoc, bind_apply, pure_apply, getI32_put, getU8_put,
    cstr_append h.1, cstr_append h.2, bind_some, learner_srvType, newJoiner_srvType]

end SrvConfig

/-! ## cluster_config -/

structure ClusterConfig where
  logIdx : UInt64
  prevLogIdx : UInt64
  asyncReplication : Bool
  userCtx : Bytes
  servers : List SrvConfig
  deriving DecidableEq

namespace ClusterConfig

def serialize (c : ClusterConfig) : Alloc Buffer := do
  let srvBuffs ← c.servers.mapM SrvConfig.serialize
  let sz := 2 * 8 + 4 + 1 + (srvBuffs.map Buffer.size).sum + 4 + c.userCtx.length
  fill sz ([.ulong c.logIdx, .ulong c.prevLogIdx, .byte (if c.asyncReplication then 1 else 0),
    .bytes c.userCtx, .int (Int32.ofNat c.servers.length)] ++ srvBuffs.map .buffer)

/-- `while (cnt-- > 0)` -/
def readServers : Nat → Reader (List SrvConfig)
  | 0 => return []
  | cnt + 1 => do
      let s ← SrvConfig.read
      let servers ← readServers cnt
      return s :: servers

def read : Reader ClusterConfig := do
  let logIdx ← getU64
  let prevLogIdx ← getU64
  let ec ← getU8
  let userCtx ← getBytes
  let cnt ← getI32
  -- a count below zero reads no server
  let servers ← readServers cnt.toInt.toNat
  return { logIdx, prevLogIdx, asyncReplication := ec != 0, userCtx, servers }

def deserialize (buf : Buffer) : Option ClusterConfig := buf.deserializeWith read

def NoNul (c : ClusterConfig) : Prop := ∀ s ∈ c.servers, s.NoNul

instance (c : ClusterConfig) : Decidable c.NoNul := inferInstanceAs (Decidable (∀ _ ∈ _, _))

def encoding (c : ClusterConfig) : Bytes :=
  putU64 c.logIdx ++ putU64 c.prevLogIdx ++ putU8 (if c.asyncReplication then 1 else 0) ++
    putBytes c.userCtx ++ putI32 (Int32.ofNat c.servers.length) ++
    c.servers.flatMap SrvConfig.encoding

theorem readServers_encoding {servers : List SrvConfig} (h : ∀ s ∈ servers, s.NoNul)
    (rest : Bytes) :
    readServers servers.length (servers.flatMap SrvConfig.encoding ++ rest) =
      some (servers, rest) := by
  induction servers with
  | nil => rfl
  | cons s servers ih =>
    have hs := SrvConfig.read_encoding (h s mem_cons_self)
    have hrest := ih fun t ht => h t (mem_cons_of_mem s ht)
    simp only [length_cons, readServers, flatMap_cons, append_assoc, bind_apply,
      hs, hrest, bind_some, pure_apply]

theorem length_le_encoding {c : ClusterConfig} {s : SrvConfig} (hs : s ∈ c.servers) :
    s.encoding.length ≤ c.encoding.length := by
  have hle : s.encoding.length ≤ (c.servers.flatMap SrvConfig.encoding).length :=
    (sublist_flatten_of_mem (mem_map_of_mem hs)).length_le
  rw [encoding, length_append]
  omega

theorem length_le_flatMap_encoding (servers : List SrvConfig) :
    servers.length ≤ (servers.flatMap SrvConfig.encoding).length := by
  induction servers with
  | nil => exact Nat.le_refl _
  | cons s servers ih =>
    have hpos : 1 ≤ s.encoding.length := by
      simp [SrvConfig.encoding]
      omega
    rw [flatMap_cons, length_append, length_cons]
    omega

/-- No server takes less than a byte, so the count of a record that fits is not cut. -/
theorem length_servers_le (c : ClusterConfig) : c.servers.length ≤ c.encoding.length := by
  have hle := length_le_flatMap_encoding c.servers
  rw [encoding, length_append]
  omega

theorem fill_servers_writes (c : ClusterConfig)
    (h : ∀ s ∈ c.servers, s.encoding.length < 0x80000000) :
    let srvBuffs := c.servers.map fun s => pack s.encoding 0
    Writes (fill (2 * 8 + 4 + 1 + (srvBuffs.map Buffer.size).sum + 4 + c.userCtx.length)
      ([.ulong c.logIdx, .ulong c.prevLogIdx, .byte (if c.asyncReplication then 1 else 0),
        .bytes c.userCtx, .int (Int32.ofNat c.servers.length)] ++ srvBuffs.map .buffer))
      c.encoding := by
  intro srvBuffs
  have hsizes : (srvBuffs.map Buffer.size).sum = (c.servers.flatMap SrvConfig.encoding).length := by
    rw [length_flatMap, List.map_map]
    refine congrArg sum (map_congr_left fun s hs => ?_)
    exact pack_size (Nat.zero_le _) (h s hs)
  have hputs : (srvBuffs.map Put.buffer).flatMap Put.encoding =
      c.servers.flatMap SrvConfig.encoding := by
    rw [List.map_map, flatMap_map]
    refine flatMap_congr fun s hs => ?_
    exact (pack_unread (Nat.zero_le _) (h s hs)).trans drop_zero
  refine fill_writes ?_ ?_
  · rw [flatMap_append, hputs]
    simp [Put.encoding, encoding]
  · rw [hsizes]
    simp [encoding]
    omega

theorem serialize_writes (c : ClusterConfig) : Writes c.serialize c.encoding := by
  have hservers (h : ∀ s ∈ c.servers, s.encoding.length < 0x80000000) :
      Yields (c.servers.mapM SrvConfig.serialize) (c.servers.map fun s => pack s.encoding 0) :=
    Yields.mapM fun s hs => s.serialize_writes.yields (h s hs)
  constructor
  · intro hlen
    have h : ∀ s ∈ c.servers, s.encoding.length < 0x80000000 :=
      fun s hs => Nat.lt_of_le_of_lt (length_le_encoding hs) hlen
    exact (hservers h).bind ((c.fill_servers_writes h).yields hlen)
  · intro hlen
    by_cases h : ∀ s ∈ c.servers, s.encoding.length < 0x80000000
    · exact (hservers h).bind_throws ((c.fill_servers_writes h).throws hlen)
    · -- a server that has no buffer of its own
      push Not at h
      obtain ⟨s, hs, hlong⟩ := h
      have hno : ¬ s.encoding.length < 0x80000000 := by omega
      exact (Throws.mapM hs (s.serialize_writes.throws hno)).bind _

theorem read_encoding {c : ClusterConfig} (h : c.NoNul) (hlen : c.encoding.length < 0x80000000)
    (rest : Bytes) : read (c.encoding ++ rest) = some (c, rest) := by
  have hctx : c.userCtx.length < 2 ^ 32 := by
    have : c.userCtx.length ≤ c.encoding.length := by
      simp [encoding]
      omega
    omega
  have hcnt : (Int32.ofNat c.servers.length).toInt.toNat = c.servers.length := by
    have := c.length_servers_le
    rw [Int32.toInt_ofNat_of_lt (by omega), Int.toNat_natCast]
  have hec : ((if c.asyncReplication then 1 else 0 : UInt8) != 0) = c.asyncReplication := by
    cases c.asyncReplication <;> decide
  simp only [read, encoding, append_assoc, bind_apply, pure_apply, getU64_put, getU8_put,
    getBytes_put _ hctx, getI32_put, bind_some, hcnt, readServers_encoding h, hec]

end ClusterConfig

/-! ## snapshot -/

/-- `snapshot::type`, an enumeration over a byte; a cast from a byte keeps any value. -/
abbrev SnapshotType := UInt8

def SnapshotType.rawBinary : SnapshotType := 0x1
def SnapshotType.logicalObject : SnapshotType := 0x2

structure Snapshot where
  lastLogIdx : UInt64
  lastLogTerm : UInt64
  size : UInt64
  lastConfig : ClusterConfig
  type : SnapshotType
  deriving DecidableEq

namespace Snapshot

def serialize (s : Snapshot) : Alloc Buffer := do
  let confBuf ← s.lastConfig.serialize
  fill (confBuf.size + 8 * 3 + 1)
    [.byte s.type, .ulong s.lastLogIdx, .ulong s.lastLogTerm, .ulong s.size, .buffer confBuf]

def read : Reader Snapshot := do
  let type ← getU8
  let lastLogIdx ← getU64
  let lastLogTerm ← getU64
  let size ← getU64
  let lastConfig ← ClusterConfig.read
  return { lastLogIdx, lastLogTerm, size, lastConfig, type }

def deserialize (buf : Buffer) : Option Snapshot := buf.deserializeWith read

def encoding (s : Snapshot) : Bytes :=
  putU8 s.type ++ putU64 s.lastLogIdx ++ putU64 s.lastLogTerm ++ putU64 s.size ++
    s.lastConfig.encoding

theorem serialize_writes (s : Snapshot) : Writes s.serialize s.encoding := by
  refine s.lastConfig.serialize_writes.bind ?_ ?_
  · rw [encoding, length_append]
    omega
  · intro hlen
    refine fill_writes ?_ ?_
    · simp [Put.encoding, encoding, pack_unread (Nat.zero_le _) hlen]
    · rw [pack_size (Nat.zero_le _) hlen]
      simp [encoding]
      omega

theorem read_encoding {s : Snapshot} (h : s.lastConfig.NoNul)
    (hlen : s.encoding.length < 0x80000000) (rest : Bytes) :
    read (s.encoding ++ rest) = some (s, rest) := by
  have hconf : s.lastConfig.encoding.length < 0x80000000 := by
    rw [encoding, length_append] at hlen
    omega
  simp only [read, encoding, append_assoc, bind_apply, pure_apply, getU64_put, getU8_put,
    ClusterConfig.read_encoding h hconf, bind_some]

end Snapshot

/-! ## snapshot_sync_req -/

structure SnapshotSyncReq where
  snapshot : Snapshot
  offset : UInt64
  data : Buffer
  done : Bool
  deriving DecidableEq

namespace SnapshotSyncReq

variable {r : SnapshotSyncReq}

def serialize (r : SnapshotSyncReq) : Alloc Buffer := do
  let snpBuf ← r.snapshot.serialize
  fill (snpBuf.size + 8 + 1 + (r.data.size - r.data.pos))
    [.buffer snpBuf, .ulong r.offset, .byte (if r.done then 1 else 0), .buffer r.data]

/-- The fields in front of the data. -/
def readHeader : Reader (Snapshot × UInt64 × Bool) := do
  let snp ← Snapshot.read
  let offset ← getU64
  let done ← getU8
  return (snp, offset, done == 1)

/-- What follows the header is copied to a buffer of its own. -/
def copyRest (rest : Bytes) : Alloc Buffer := do
  if 0 < rest.length then
    let b ← alloc rest.length
    return b.store b.pos rest
  else alloc 0

def deserialize (buf : Buffer) : Alloc SnapshotSyncReq := do
  let (header, rest) ← (readHeader buf.contents : Option _)
  let b ← copyRest rest
  return { snapshot := header.1, offset := header.2.1, data := b, done := header.2.2 }

def encoding (r : SnapshotSyncReq) : Bytes :=
  r.snapshot.encoding ++ putU64 r.offset ++ putU8 (if r.done then 1 else 0) ++ r.data.unread

theorem serialize_writes (hdata : r.data.Valid) : Writes r.serialize r.encoding := by
  refine r.snapshot.serialize_writes.bind ?_ ?_
  · simp only [encoding, length_append]
    omega
  · intro hlen
    have hunread : r.data.unread.length = r.data.size - r.data.pos := by
      obtain ⟨data, p, hp, hdlen, hpack⟩ := hdata
      rw [hpack, pack_unread hp hdlen, pack_size hp hdlen, pack_pos hp hdlen, length_drop]
    refine fill_writes ?_ ?_
    · simp [Put.encoding, encoding, pack_unread (Nat.zero_le _) hlen]
    · rw [pack_size (Nat.zero_le _) hlen, ← hunread]
      simp [encoding]
      omega

theorem readHeader_encoding (h : r.snapshot.lastConfig.NoNul)
    (hlen : r.encoding.length < 0x80000000) :
    readHeader r.encoding = some ((r.snapshot, r.offset, r.done), r.data.unread) := by
  have hsnp : r.snapshot.encoding.length < 0x80000000 := by
    simp only [encoding, length_append] at hlen
    omega
  have hdone : ((if r.done then 1 else 0 : UInt8) == 1) = r.done := by
    cases r.done <;> decide
  simp only [readHeader, encoding, append_assoc, bind_apply, pure_apply,
    Snapshot.read_encoding h hsnp, getU64_put, getU8_put, bind_some, hdone]

theorem copyRest_yields {rest : Bytes} (hlen : rest.length < 0x80000000) :
    Yields (copyRest rest) (pack rest 0) := by
  intro heap
  obtain ⟨j, hj, heap', halloc⟩ := alloc_eq_pack hlen heap
  refine ⟨heap', ?_⟩
  by_cases hpos : 0 < rest.length
  · have hstore : (pack ([] ++ j) 0).store ([] : Bytes).length rest =
        pack ([] ++ rest ++ j.drop rest.length) 0 :=
      pack_store (Nat.zero_le _) (Nat.le_of_eq hj.symm)
    have hdrop : j.drop rest.length = [] := drop_of_length_le (Nat.le_of_eq hj)
    have hzero : (pack j 0).pos = 0 := pack_pos (Nat.zero_le _) (hj ▸ hlen)
    rw [hdrop, nil_append, append_nil, length_nil] at hstore
    calc copyRest rest heap = some ((pack j 0).store (pack j 0).pos rest, heap') := by
          rw [copyRest, if_pos hpos, run_bind, halloc]
          rfl
      _ = some (pack rest 0, heap') := by rw [hzero, hstore]; rfl
  · have hrest : rest = [] := length_eq_zero_iff.mp (Nat.eq_zero_of_not_pos hpos)
    subst hrest
    have hnil : j = [] := length_eq_zero_iff.mp hj
    rwa [copyRest, if_neg hpos, ← hnil]

theorem deserialize_encoding (h : r.snapshot.lastConfig.NoNul)
    (hlen : r.encoding.length < 0x80000000) :
    Yields (deserialize (pack r.encoding 0)) { r with data := pack r.data.unread 0 } := by
  have hdata : r.data.unread.length < 0x80000000 := by
    simp only [encoding, length_append] at hlen
    omega
  have hheader : Yields (liftM (readHeader (pack r.encoding 0).contents) : Alloc _)
      ((r.snapshot, r.offset, r.done), r.data.unread) := by
    intro heap
    rw [pack_contents (Nat.zero_le _) hlen, readHeader_encoding h hlen, run_lift]
    exact ⟨heap, rfl⟩
  exact hheader.bind ((copyRest_yields hdata).bind fun heap => ⟨heap, rfl⟩)

end SnapshotSyncReq

/-! ## srv_state -/

structure SrvState where
  term : UInt64
  votedFor : Int32
  electionTimerAllowed : Bool := true
  catchingUp : Bool := false
  receivingSnapshot : Bool := false
  deriving DecidableEq

namespace SrvState

def serializeV0 (s : SrvState) : Alloc Buffer := fill (8 + 4) [.ulong s.term, .int s.votedFor]

def serializeV1p (s : SrvState) (version : UInt8) : Alloc Buffer :=
  fillWith (1 + 8 + 4 + 1 + (if version ≥ 2 then 1 + 1 else 0))
    ([putU8 version, putU64 s.term, putI32 s.votedFor,
        putU8 (if s.electionTimerAllowed then 1 else 0)] ++
      if version ≥ 2 then
        [putU8 (if s.catchingUp then 1 else 0), putU8 (if s.receivingSnapshot then 1 else 0)]
      else [])

def currentVersion : UInt8 := 2

def serialize (s : SrvState) : Alloc Buffer := s.serializeV1p currentVersion

def deserializeV0 (buf : Buffer) : Option SrvState := do
  let (term, buf) ← buf.getUlong
  let (votedFor, _) ← buf.getInt
  return { term, votedFor, electionTimerAllowed := true, catchingUp := false
           receivingSnapshot := false }

/-- A flag that only newer versions have, and only while there are bytes left. -/
def flagSince (ver : UInt8) : Reader Bool := fun bs =>
  if ver ≥ 2 ∧ bs ≠ [] then ((· == 1) <$> getU8) bs else some (false, bs)

def readV1p : Reader SrvState := do
  let ver ← getU8
  let term ← getU64
  let votedFor ← getI32
  let etAllowed ← getU8
  let catchingUp ← flagSince ver
  let receivingSnapshot ← flagSince ver
  return { term, votedFor, electionTimerAllowed := etAllowed == 1, catchingUp, receivingSnapshot }

def deserializeV1p (buf : Buffer) : Option SrvState := buf.deserializeWith readV1p

def deserialize (buf : Buffer) : Option SrvState :=
  if buf.size > 8 + 4 then deserializeV1p buf else deserializeV0 buf

def encodingV0 (s : SrvState) : Bytes := putU64 s.term ++ putI32 s.votedFor

def encodingV1p (s : SrvState) (version : UInt8) : Bytes :=
  putU8 version ++ putU64 s.term ++ putI32 s.votedFor ++
    putU8 (if s.electionTimerAllowed then 1 else 0) ++
    if version ≥ 2 then
      putU8 (if s.catchingUp then 1 else 0) ++ putU8 (if s.receivingSnapshot then 1 else 0)
    else []

/-- What the first format stores; the other fields have their defaults. -/
def storedV0 (s : SrvState) : SrvState := { term := s.term, votedFor := s.votedFor }

/-- What a version from the second format on stores. -/
def storedV1p (s : SrvState) (version : UInt8) : SrvState :=
  if version ≥ 2 then s else { s with catchingUp := false, receivingSnapshot := false }

theorem length_encodingV0 (s : SrvState) : s.encodingV0.length = 12 := by
  simp [encodingV0]

theorem length_encodingV1p (s : SrvState) (version : UInt8) :
    (s.encodingV1p version).length = 14 + if version ≥ 2 then 2 else 0 := by
  unfold encodingV1p
  by_cases hver : version ≥ 2 <;> simp [hver]

theorem serializeV0_writes (s : SrvState) : Writes s.serializeV0 s.encodingV0 :=
  fill_writes (by simp [Put.encoding, encodingV0]) (by rw [length_encodingV0])

theorem serializeV1p_writes (s : SrvState) (version : UInt8) :
    Writes (s.serializeV1p version) (s.encodingV1p version) := by
  refine fillWith_writes ?_ ?_
  · unfold encodingV1p
    by_cases hver : version ≥ 2 <;> simp [hver]
  · rw [length_encodingV1p]

theorem deserialize_encodingV0 (s : SrvState) :
    deserialize (pack s.encodingV0 0) = some s.storedV0 := by
  have hlen : s.encodingV0.length < 0x80000000 := by
    rw [length_encodingV0]
    decide
  have hsize : (pack s.encodingV0 0).size = 12 := by
    rw [pack_size (Nat.zero_le _) hlen, length_encodingV0]
  have hterm : (pack s.encodingV0 0).getUlong = some (s.term, pack s.encodingV0 8) := by
    rw [getUlong, pack_unread (Nat.zero_le _) hlen, moveForward, pack_pos (Nat.zero_le _) hlen,
      pack_setBlockPos (Nat.zero_le _), drop_zero, encodingV0, getU64_put]
    rfl
  have hvoted : ∃ b, (pack s.encodingV0 8).getInt = some (s.votedFor, b) := by
    have h8 : 8 ≤ s.encodingV0.length := by
      rw [length_encodingV0]
      decide
    have hrest : s.encodingV0.drop 8 = putI32 s.votedFor ++ [] := by
      rw [encodingV0, drop_left' (length_putU64 s.term), append_nil]
    rw [getInt, pack_unread h8 hlen, hrest, getI32_put]
    exact ⟨_, rfl⟩
  obtain ⟨b, hb⟩ := hvoted
  rw [deserialize, hsize, if_neg (by decide), deserializeV0, hterm, bind_eq_bind, bind_some]
  simp only [hb, bind_eq_bind, bind_some]
  rfl

theorem flagSince_put {ver : UInt8} (hver : ver ≥ 2) (b : Bool) (rest : Bytes) :
    flagSince ver (putU8 (if b then 1 else 0) ++ rest) = some (b, rest) := by
  have hne : putU8 (if b then 1 else 0) ++ rest ≠ [] := by simp [putU8]
  rw [flagSince, if_pos ⟨hver, hne⟩, map_apply, getU8_put]
  cases b <;> rfl

theorem readV1p_encoding (s : SrvState) (version : UInt8) :
    readV1p (s.encodingV1p version) = some (s.storedV1p version, []) := by
  have het : ((if s.electionTimerAllowed then 1 else 0 : UInt8) == 1) = s.electionTimerAllowed := by
    cases s.electionTimerAllowed <;> decide
  unfold encodingV1p storedV1p
  by_cases hver : version ≥ 2
  · have hlast := flagSince_put hver s.receivingSnapshot []
    rw [append_nil] at hlast
    simp only [if_pos hver, readV1p, append_assoc, bind_apply, pure_apply, getU8_put,
      getU64_put, getI32_put, bind_some, flagSince_put hver, hlast, het]
  · have hnone : flagSince version [] = some (false, []) := if_neg fun h => hver h.1
    simp only [if_neg hver, readV1p, append_assoc, bind_apply, pure_apply, getU8_put,
      getU64_put, getI32_put, bind_some, hnone, het]

theorem deserialize_encodingV1p (s : SrvState) (version : UInt8) :
    deserialize (pack (s.encodingV1p version) 0) = some (s.storedV1p version) := by
  have hlong : (s.encodingV1p version).length > 8 + 4 := by
    rw [length_encodingV1p]
    omega
  have hlen : (s.encodingV1p version).length < 0x80000000 := by
    rw [length_encodingV1p]
    split <;> decide
  rw [deserialize, pack_size (Nat.zero_le _) hlen, if_pos hlong, deserializeV1p, deserializeWith,
    pack_contents (Nat.zero_le _) hlen, readV1p_encoding]
  rfl

end SrvState

/-! ## All records -/

/-- A record that fits into a buffer is serialized, one that does not is refused, and every buffer
that the code returns has the property. -/
structure Saved (write : Alloc Buffer) (length : Nat) (P : Buffer → Prop) : Prop where
  returns : length < 0x80000000 → ∀ heap, ∃ buf heap', write heap = some (buf, heap')
  refuses : ¬ length < 0x80000000 → ∀ heap, write heap = none
  restores : ∀ heap buf heap', write heap = some (buf, heap') → P buf

theorem Buffer.Writes.saved {m : Alloc Buffer} {bs : Bytes} (h : Writes m bs) {P : Buffer → Prop}
    (hP : bs.length < 0x80000000 → P (pack bs 0)) : Saved m bs.length P where
  returns hlen heap := ⟨_, h.yields hlen heap⟩
  refuses hlen := h.throws hlen
  restores heap buf heap' hm := by
    obtain ⟨hlen, rfl⟩ := h.of_eq_some hm
    exact hP hlen

/-- The buffer gives the record back, and inside a longer buffer the reader stops at its end. -/
structure Restores {α : Type} (deserialize : Buffer → Option α) (read : Reader α) (x : α)
    (buf : Buffer) : Prop where
  whole : deserialize buf = some x
  nested : ∀ rest, read (buf.contents ++ rest) = some (x, rest)

theorem restores_pack {α : Type} {read : Reader α} {x : α} {bs : Bytes}
    (hlen : bs.length < 0x80000000) (h : ∀ rest, read (bs ++ rest) = some (x, rest)) :
    Restores (deserializeWith read) read x (pack bs 0) := by
  have hnil := h []
  rw [append_nil] at hnil
  constructor
  · rw [deserializeWith, pack_contents (Nat.zero_le _) hlen, hnil]
    rfl
  · rwa [pack_contents (Nat.zero_le _) hlen]

theorem pack_unread_eq {b : Buffer} (h : b.Valid) (hpos : b.pos = 0) : pack b.unread 0 = b := by
  obtain ⟨data, p, hp, hlen, rfl⟩ := h
  rw [pack_pos hp hlen] at hpos
  subst hpos
  rw [pack_unread hp hlen, drop_zero]

/-- **`deserialize` undoes `serialize`.** A record comes back from the buffer that was made of it,
of whichever kind of block, and the readers of nested records stop where the writers did. The data
of a sync request is what was unread of it, and the formats of the server state give back what they
store. -/
theorem records_round_trip : (∀ s : SrvConfig, s.NoNul →
      Saved s.serialize s.encoding.length (Restores SrvConfig.deserialize SrvConfig.read s)) ∧
    (∀ c : ClusterConfig, c.NoNul → Saved c.serialize c.encoding.length
        (Restores ClusterConfig.deserialize ClusterConfig.read c)) ∧
    (∀ s : Snapshot, s.lastConfig.NoNul →
      Saved s.serialize s.encoding.length (Restores Snapshot.deserialize Snapshot.read s)) ∧
    (∀ r : SnapshotSyncReq, r.snapshot.lastConfig.NoNul → r.data.Valid →
      Saved r.serialize r.encoding.length fun buf =>
        ∃ r' : SnapshotSyncReq,
          (∀ heap, ∃ heap', SnapshotSyncReq.deserialize buf heap = some (r', heap')) ∧
          r' = { r with data := pack r.data.unread 0 } ∧ (r.data.pos = 0 → r' = r)) ∧
    (∀ s : SrvState, Saved s.serializeV0 s.encodingV0.length fun buf =>
      SrvState.deserialize buf = some { term := s.term, votedFor := s.votedFor }) ∧
    (∀ (s : SrvState) (version : UInt8),
      Saved (s.serializeV1p version) (s.encodingV1p version).length fun buf =>
        SrvState.deserialize buf = some (if version ≥ 2 then s
            else { s with catchingUp := false, receivingSnapshot := false })) := by
  refine ⟨?_, ?_, ?_, ?_, ?_, ?_⟩
  · intro s h
    exact s.serialize_writes.saved fun hlen => restores_pack hlen (SrvConfig.read_encoding h)
  · intro c h
    exact c.serialize_writes.saved fun hlen =>
      restores_pack hlen (ClusterConfig.read_encoding h hlen)
  · intro s h
    exact s.serialize_writes.saved fun hlen => restores_pack hlen (Snapshot.read_encoding h hlen)
  · intro r h hdata
    refine (SnapshotSyncReq.serialize_writes hdata).saved fun hlen => ?_
    refine ⟨_, SnapshotSyncReq.deserialize_encoding h hlen, rfl, fun hpos => ?_⟩
    rw [pack_unread_eq hdata hpos]
  · intro s
    exact s.serializeV0_writes.saved fun _ => s.deserialize_encodingV0
  · intro s version
    exact (s.serializeV1p_writes version).saved fun _ => s.deserialize_encodingV1p version

def twoServers : ClusterConfig where
  logIdx := 7
  prevLogIdx := 3
  asyncReplication := true
  userCtx := [0, 255]
  servers :=
    [{ id := 1, dcId := 0, endpoint := [104, 58, 49], aux := [97], learner := false
       newJoiner := false, priority := 100 },
     { id := -2, dcId := 1, endpoint := [104, 58, 50], aux := [], learner := true
       newJoiner := true, priority := 0 }]

theorem twoServers_round_trip : twoServers.NoNul ∧ twoServers.encoding.length = 64 ∧
    ∃ buf heap', twoServers.serialize (fun _ _ => 170) = some (buf, heap') ∧
      ClusterConfig.deserialize buf = some twoServers := by
  have hnul : twoServers.NoNul := by decide
  have hsaved := records_round_trip.2.1 twoServers hnul
  obtain ⟨buf, heap', hbuf⟩ := hsaved.returns (by decide) (fun _ _ => 170)
  exact ⟨hnul, by decide, buf, heap', hbuf, (hsaved.restores _ _ _ hbuf).whole⟩

end Codec
end Xio
