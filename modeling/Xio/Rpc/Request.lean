import Xio.Rpc.Serializer

/-!
# Rpc.Request — a request on the wire

`xio_rpc_client::register_req_send` writes a request as a header of 54 bytes and a payload, and
`rpc_session` reads the two back. What the payload of an entry looks like depends on options of
the sender, which the flags of the header tell the receiver.

A session reads what has arrived of the byte stream. It may have to wait for more bytes, it may
stop (close the connection), or it hands a request to the raft server and goes on with the rest
of the stream. An exception in the handler stops the session as well.

- `start_registerReqSend`: what the session makes of the bytes of a request
- `request_round_trip`: it hands on the request that was sent

Left out are the events for connections and leaders that `read_complete` reports, and the
handler for corrupted messages.
-/

namespace Xio
namespace Rpc

open ByteCodec List
open Option hiding bind_apply pure_apply

/-- `msg_type`. The cast from a byte keeps any value. -/
structure MsgType where
  val : UInt8
  deriving DecidableEq, Repr

namespace MsgType

def requestVoteRequest : MsgType := ⟨1⟩
def appendEntriesRequest : MsgType := ⟨3⟩
def clientRequest : MsgType := ⟨5⟩
def addServerRequest : MsgType := ⟨6⟩
def removeServerRequest : MsgType := ⟨8⟩
def customNotificationResponse : MsgType := ⟨29⟩

end MsgType

def isValidMsg (t : MsgType) : Bool :=
  decide (MsgType.requestVoteRequest.val ≤ t.val) &&
    decide (t.val ≤ MsgType.customNotificationResponse.val)

structure LogEntry where
  term : UInt64
  valType : UInt8
  buf : Bytes
  timestamp : UInt64
  hasCrc32 : Bool
  crc32 : BitVec 32
  deriving DecidableEq, Repr

structure ReqMsg where
  term : UInt64
  type : MsgType
  src : Int32
  dst : Int32
  lastLogTerm : UInt64
  lastLogIdx : UInt64
  commitIdx : UInt64
  logEntries : List LogEntry := []
  extraFlags : UInt64 := 0
  deriving DecidableEq, Repr

def excludedFromTheQuorum : UInt64 := 0x1

def reqHeaderSize : Nat := 54
def crcFlagsLen : Nat := 8
def dataSizeLen : Nat := 4

/-! ## Sending -/

structure SendOpts where
  replicateLogTimestamp : Bool := false
  crcOnPayload : Bool := false
  crcOnEntireMessage : Bool := false
  writeReqMeta : Option (ReqMsg → Bytes) := none

namespace SendOpts

variable (o : SendOpts)

def metaStr (req : ReqMsg) : Bytes :=
  match o.writeReqMeta with
  | some write => write req
  | none => []

def putEntry (e : LogEntry) : Bytes :=
  putU64 e.term ++ putU8 e.valType ++
    (if o.replicateLogTimestamp then putU64 e.timestamp else []) ++
    (if o.crcOnPayload then putU8 (if e.hasCrc32 then 1 else 0) ++ putU32 e.crc32 else []) ++
    putI32 (Int32.ofNat e.buf.length) ++ e.buf

/-- What follows the header: the meta string, unless it is empty, and the entries. -/
def payload (req : ReqMsg) : Bytes :=
  (if o.metaStr req = [] then [] else putBytes (o.metaStr req)) ++ req.logEntries.flatMap o.putEntry

def flags (req : ReqMsg) : BitVec 32 :=
  flagIf o.replicateLogTimestamp Flag.includeLogTimestamp |||
    flagIf o.crcOnPayload Flag.crcOnPayload |||
    flagIf (req.extraFlags &&& excludedFromTheQuorum != 0) Flag.markDown |||
    flagIf (o.metaStr req != []) Flag.includeMeta |||
    flagIf o.crcOnEntireMessage Flag.crcOnEntireMessage

end SendOpts

/-- The header up to the size of the payload. -/
def putReqFields (req : ReqMsg) : Bytes :=
  putU8 0x0 ++ putU8 req.type.val ++ putI32 req.src ++ putI32 req.dst ++ putU64 req.term ++
    putU64 req.lastLogTerm ++ putU64 req.lastLogIdx ++ putU64 req.commitIdx

/-- The header up to the word with the checksum. -/
def putReqHeader (req : ReqMsg) (dataSize : Int32) : Bytes := putReqFields req ++ putI32 dataSize

namespace SendOpts

variable (o : SendOpts)

def header (req : ReqMsg) : Bytes := putReqHeader req (Int32.ofNat (o.payload req).length)

/-- The checksum of the header, continued over the payload where the option says so. -/
def checksum (req : ReqMsg) : BitVec 32 :=
  let crcHeader := crc32_8 (o.header req) 0
  if o.crcOnEntireMessage then crc32_8 (o.payload req) crcHeader else crcHeader

/-- `register_req_send`: the bytes that are written. A buffer of 2 GiB cannot be allocated; an
entry's own buffer is no larger than the one of the message. -/
def registerReqSend (req : ReqMsg) : Option Bytes :=
  if reqHeaderSize + (o.payload req).length < 0x80000000 then
    some (o.header req ++ (putU64 (flagsAndCrc (o.flags req) (o.checksum req)) ++ o.payload req))
  else
    none

end SendOpts

/-! ## Receiving -/

structure ReadOpts where
  readReqMeta : Option (ReqMsg → Bytes → Bool) := none
  invokeReqCbOnEmptyMeta : Bool := false

inductive SessionResult
  | waiting
  | stopped
  /-- `read_req_meta_` returned false for the meta string, and the session stops. -/
  | refused (req : ReqMsg) (metaStr : Bytes)
  /-- The raft server processes the request. The meta string was shown to `read_req_meta_`. -/
  | handed (req : ReqMsg) (metaStr : Option Bytes) (rest : Bytes)
  deriving DecidableEq, Repr

/-- The last part of `read_complete`. -/
def ReadOpts.verifyMeta (o : ReadOpts) (req : ReqMsg) (metaStr rest : Bytes) : SessionResult :=
  match o.readReqMeta with
  | some read =>
    if metaStr != [] || o.invokeReqCbOnEmptyMeta then
      if read req metaStr then .handed req (some metaStr) rest else .refused req metaStr
    else
      .handed req none rest
  | none => .handed req none rest

/-- `LOG_ENTRY_SIZE` -/
def logEntrySize (flags : BitVec 32) : Nat :=
  8 + 1 + 4 + (if has flags Flag.includeLogTimestamp then 8 else 0) +
    (if has flags Flag.crcOnPayload then 5 else 0)

def getEntry (flags : BitVec 32) : Reader LogEntry := do
  let term ← getU64
  let valType ← getU8
  let timestamp ← if has flags Flag.includeLogTimestamp then getU64 else pure 0
  let hasCrc32 ← if has flags Flag.crcOnPayload then (· != 0) <$> getU8 else pure false
  let crc32 ← if has flags Flag.crcOnPayload then getU32 else pure 0#32
  let valSize ← getI32
  -- as `size_t` a negative size is larger than any buffer
  let buf ← raw valSize.toInt64.toUInt64.toNat
  return ⟨term, valType, buf, timestamp, hasCrc32, crc32⟩

/-- The loop over the entries. Every round takes at least one byte, which bounds the rounds by
the size of the buffer. -/
def getEntries (flags : BitVec 32) : Nat → Bytes → Option (List LogEntry)
  | _, [] => some []
  | 0, _ => none
  | rounds + 1, bs =>
    if bs.length < logEntrySize flags then
      none
    else do
      let (e, bs) ← getEntry flags bs
      if has flags Flag.crcOnPayload && e.hasCrc32 && crc32_8 e.buf 0 != e.crc32 then
        none
      else
        let es ← getEntries flags rounds bs
        return e :: es

/-- The meta string in front of the entries, if the flag is set. -/
def getMeta (flags : BitVec 32) (logCtx : Bytes) : Option (Bytes × Bytes) :=
  if has flags Flag.includeMeta then getBytes logCtx else some ([], logCtx)

/-- The meta string and the entries that the payload holds. -/
def getPayload (flags : BitVec 32) (logCtx : Bytes) : Option (Bytes × List LogEntry) := do
  let (metaStr, bs) ← getMeta flags logCtx
  let entries ← getEntries flags bs.length bs
  return (metaStr, entries)

/-- The fields of the header that a request is made of, from the second byte on. -/
def getReqHeader : Reader (ReqMsg × Int32) := do
  let t ← getU8
  let src ← getI32
  let dst ← getI32
  let term ← getU64
  let lastTerm ← getU64
  let lastIdx ← getU64
  let commitIdx ← getU64
  let logDataSize ← getI32
  return (⟨term, ⟨t⟩, src, dst, lastTerm, lastIdx, commitIdx, [], 0⟩, logDataSize)

/-- The checksum of the header, continued over the payload if there is one. -/
def crcPayload (logCtx : Option Bytes) (crcHeader : BitVec 32) : BitVec 32 :=
  match logCtx with
  | some ctx => crc32_8 ctx crcHeader
  | none => crcHeader

namespace ReadOpts

variable (o : ReadOpts)

/-- `read_complete`. The session has the checksum of the header and the header's last word. -/
def readComplete (header : Bytes) (crcHeader crcFromMsg flags : BitVec 32)
    (logCtx : Option Bytes) (rest : Bytes) : Option SessionResult := do
  let (req, logDataSize) ← readAt 1 getReqHeader header
  if has flags Flag.crcOnEntireMessage && crcPayload logCtx crcHeader != crcFromMsg then
    return .stopped
  else
    let req := { req with extraFlags := if has flags Flag.markDown then excludedFromTheQuorum else 0 }
    match logCtx, decide (0 < logDataSize) with
    | some ctx, true =>
      let (metaStr, entries) ← getPayload flags ctx
      return o.verifyMeta { req with logEntries := entries } metaStr rest
    | _, _ => return o.verifyMeta req [] rest

/-- What `start` does once the header was read. -/
def headerRead (header rest : Bytes) : Option SessionResult := do
  let crcHeader := crc32_8 (header.take (reqHeaderSize - crcFlagsLen)) 0
  let word ← readAt (reqHeaderSize - crcFlagsLen) getU64 header
  if !has (flagsOf word) Flag.crcOnEntireMessage && crcHeader != crcOf word then
    return .stopped
  else
    let marker ← readAt 0 getU8 header
    let t ← readAt 1 getU8 header
    let dataSize ← readAt (reqHeaderSize - crcFlagsLen - dataSizeLen) getI32 header
    if marker != 0x0 || !isValidMsg ⟨t⟩ || decide (dataSize < 0) ||
        decide (0x40000000 < dataSize) then
      return .stopped
    else if dataSize = 0 then
      o.readComplete header crcHeader (crcOf word) (flagsOf word) none rest
    else if rest.length < dataSize.toNatClampNeg then
      return .waiting
    else
      o.readComplete header crcHeader (crcOf word) (flagsOf word)
        (some (rest.take dataSize.toNatClampNeg)) (rest.drop dataSize.toNatClampNeg)

/-- `rpc_session::start` on what has arrived. -/
def start (input : Bytes) : SessionResult :=
  if input.length < reqHeaderSize then
    .waiting
  else
    (o.headerRead (input.take reqHeaderSize) (input.drop reqHeaderSize)).getD .stopped

end ReadOpts

/-! ## The header -/

theorem length_putReqFields (req : ReqMsg) : (putReqFields req).length = 42 := by
  simp [putReqFields]

theorem length_putReqHeader (req : ReqMsg) (dataSize : Int32) :
    (putReqHeader req dataSize).length = 46 := by
  simp [putReqHeader, length_putReqFields]

section Header

variable (req : ReqMsg) (dataSize : Int32) (word : UInt64)

theorem readAt_word : readAt 46 getU64 (putReqHeader req dataSize ++ putU64 word) = some word := by
  rw [readAt, drop_left' (length_putReqHeader req dataSize)]
  simpa using congrArg (Option.map Prod.fst) (getU64_put [] word)

theorem readAt_dataSize :
    readAt 42 getI32 (putReqHeader req dataSize ++ putU64 word) = some dataSize := by
  rw [readAt, putReqHeader, append_assoc, drop_left' (length_putReqFields req), getI32_put]
  rfl

theorem readAt_marker : readAt 0 getU8 (putReqHeader req dataSize ++ putU64 word) = some 0 := by
  simp only [readAt, drop_zero, putReqHeader, putReqFields, append_assoc, getU8_put]
  rfl

theorem drop_marker : (putReqHeader req dataSize ++ putU64 word).drop 1 =
    putU8 req.type.val ++ (putI32 req.src ++ (putI32 req.dst ++ (putU64 req.term ++
      (putU64 req.lastLogTerm ++ (putU64 req.lastLogIdx ++ (putU64 req.commitIdx ++
        (putI32 dataSize ++ putU64 word))))))) := by
  simp only [putReqHeader, putReqFields, append_assoc]
  rfl

theorem readAt_type :
    readAt 1 getU8 (putReqHeader req dataSize ++ putU64 word) = some req.type.val := by
  rw [readAt, drop_marker, getU8_put]
  rfl

theorem readAt_reqHeader : readAt 1 getReqHeader (putReqHeader req dataSize ++ putU64 word) =
      some ({ req with logEntries := [], extraFlags := 0 }, dataSize) := by
  rw [readAt, drop_marker]
  simp only [getReqHeader, bind_apply, getU8_put, getI32_put, getU64_put, bind_some]
  rfl

end Header

/-! ## The entries -/

namespace SendOpts

variable (o : SendOpts) {flags : BitVec 32}

/-- What an entry is for the receiver: without the option it comes with no time, or no checksum. -/
def sentEntry (e : LogEntry) : LogEntry :=
  { e with
    timestamp := if o.replicateLogTimestamp then e.timestamp else 0
    hasCrc32 := o.crcOnPayload && e.hasCrc32
    crc32 := if o.crcOnPayload then e.crc32 else 0#32 }

/-- The checksum that goes with an entry is the one of its buffer. -/
def entryPasses (e : LogEntry) : Bool := !(o.crcOnPayload && e.hasCrc32 && crc32_8 e.buf 0 != e.crc32)

/-- The flags tell how the entries are laid out. -/
structure Describes (flags : BitVec 32) : Prop where
  timestamp : has flags Flag.includeLogTimestamp = o.replicateLogTimestamp
  crc : has flags Flag.crcOnPayload = o.crcOnPayload

theorem length_putEntry (e : LogEntry) :
    (o.putEntry e).length = 8 + 1 + 4 + (if o.replicateLogTimestamp then 8 else 0) +
      (if o.crcOnPayload then 5 else 0) + e.buf.length := by
  cases h1 : o.replicateLogTimestamp <;> cases h2 : o.crcOnPayload <;>
    simp [putEntry, h1, h2] <;> omega

theorem valSize_eq {n : Nat} (h : n < 2 ^ 31) : (Int32.ofNat n).toInt64.toUInt64.toNat = n := by
  have hint : (Int32.ofNat n).toInt = n := Int32.toInt_ofNat_of_lt h
  have hpos : 0 ≤ (Int32.ofNat n).toInt64 := by
    rw [Int64.le_iff_toInt_le]
    simp [hint]
  rw [Int64.toNat_toUInt64_of_le hpos, Int32.toNatClampNeg_toInt64,
    Int32.toNatClampNeg_ofNat_of_lt h]

variable {o}

theorem getEntry_put (hflags : o.Describes flags) {e : LogEntry}
    (hlen : e.buf.length < 2 ^ 31) (rest : Bytes) :
    getEntry flags (o.putEntry e ++ rest) = some (o.sentEntry e, rest) := by
  have hbuf : raw (Int32.ofNat e.buf.length).toInt64.toUInt64.toNat (e.buf ++ rest) =
      some (e.buf, rest) := raw_append (valSize_eq hlen).symm
  have hone : ((if e.hasCrc32 then 1 else 0 : UInt8) != 0) = e.hasCrc32 := by
    cases e.hasCrc32 <;> rfl
  simp only [getEntry, bind_apply, putEntry, append_assoc, getU64_put, getU8_put,
    bind_some, hflags.timestamp, hflags.crc]
  -- the four layouts of an entry
  cases h1 : o.replicateLogTimestamp <;> cases h2 : o.crcOnPayload <;>
    simp [bind_apply, pure_apply, map_apply, hbuf, hone, sentEntry, h1, h2]

theorem getEntries_round {rounds : Nat} {bs : Bytes} (h : bs ≠ []) :
    getEntries flags (rounds + 1) bs = if bs.length < logEntrySize flags then none
      else (getEntry flags bs).bind fun x =>
        if has flags Flag.crcOnPayload && x.1.hasCrc32 && crc32_8 x.1.buf 0 != x.1.crc32 then none
        else (getEntries flags rounds x.2).bind fun es => some (x.1 :: es) := by
  cases bs with
  | nil => exact absurd rfl h
  | cons b bs => rfl

theorem sentEntry_passes (e : LogEntry) : (o.crcOnPayload && (o.sentEntry e).hasCrc32 &&
      crc32_8 (o.sentEntry e).buf 0 != (o.sentEntry e).crc32) = !o.entryPasses e := by
  cases h : o.crcOnPayload <;> simp [sentEntry, entryPasses, h]

theorem getEntries_put (hflags : o.Describes flags) {es : List LogEntry}
    (hlen : ∀ e ∈ es, e.buf.length < 2 ^ 31) {rounds : Nat}
    (hrounds : (es.flatMap o.putEntry).length ≤ rounds) :
    getEntries flags rounds (es.flatMap o.putEntry) =
      if es.all o.entryPasses then some (es.map o.sentEntry) else none := by
  induction es generalizing rounds with
  | nil => simp [getEntries]
  | cons e es ih =>
    have hentry := o.length_putEntry e
    rw [flatMap_cons] at hrounds ⊢
    rw [length_append] at hrounds
    obtain ⟨rounds, rfl⟩ : ∃ n, rounds = n + 1 := ⟨rounds - 1, by omega⟩
    have hne : o.putEntry e ++ es.flatMap o.putEntry ≠ [] := by
      intro hnil
      have := congrArg length hnil
      simp only [length_append, length_nil] at this
      omega
    have hsize : ¬ (o.putEntry e ++ es.flatMap o.putEntry).length < logEntrySize flags := by
      rw [length_append, hentry, logEntrySize, hflags.timestamp, hflags.crc]
      omega
    have hfits : (es.flatMap o.putEntry).length ≤ rounds := by omega
    have hrest := ih (fun x hx => hlen x (by simp [hx])) hfits
    rw [getEntries_round hne, if_neg hsize, getEntry_put hflags (hlen e (by simp)),
      bind_some, hflags.crc, sentEntry_passes, hrest, all_cons]
    cases o.entryPasses e <;> cases es.all o.entryPasses <;> rfl

/-! ## A whole message -/

theorem has_flagIf : ∀ a b c d e : Bool,
    let flags := flagIf a Flag.includeLogTimestamp ||| flagIf b Flag.crcOnPayload |||
      flagIf c Flag.markDown ||| flagIf d Flag.includeMeta ||| flagIf e Flag.crcOnEntireMessage
    has flags Flag.includeLogTimestamp = a ∧ has flags Flag.crcOnPayload = b ∧
      has flags Flag.markDown = c ∧ has flags Flag.includeMeta = d ∧
      has flags Flag.crcOnEntireMessage = e := by decide

theorem flags_describe (req : ReqMsg) : o.Describes (o.flags req) :=
  ⟨(has_flagIf _ _ _ _ _).1, (has_flagIf _ _ _ _ _).2.1⟩

theorem flags_markDown (req : ReqMsg) :
    has (o.flags req) Flag.markDown = (req.extraFlags &&& excludedFromTheQuorum != 0) :=
  (has_flagIf _ _ _ _ _).2.2.1

theorem flags_includeMeta (req : ReqMsg) :
    has (o.flags req) Flag.includeMeta = (o.metaStr req != []) :=
  (has_flagIf _ _ _ _ _).2.2.2.1

theorem flags_crcOnEntireMessage (req : ReqMsg) :
    has (o.flags req) Flag.crcOnEntireMessage = o.crcOnEntireMessage :=
  (has_flagIf _ _ _ _ _).2.2.2.2

variable (o) in
/-- The request as the receiver gets it: the one flag that travels, and the entries as sent. -/
def received (req : ReqMsg) : ReqMsg :=
  { req with
    logEntries := req.logEntries.map o.sentEntry
    extraFlags := req.extraFlags &&& excludedFromTheQuorum }

theorem extraFlags_received (x : UInt64) :
    (if (x &&& excludedFromTheQuorum != 0) = true then excludedFromTheQuorum else 0) =
      x &&& excludedFromTheQuorum := by
  have hbit : (x &&& excludedFromTheQuorum).toNat = x.toNat % 2 := by
    exact Nat.and_one_is_mod _
  rcases Nat.mod_two_eq_zero_or_one x.toNat with h | h
  · have hzero : x &&& excludedFromTheQuorum = 0 := UInt64.toNat_inj.mp (hbit.trans h)
    rw [hzero]
    rfl
  · have hone : x &&& excludedFromTheQuorum = excludedFromTheQuorum :=
      UInt64.toNat_inj.mp (hbit.trans h)
    rw [hone]
    rfl

theorem length_putEntry_le {req : ReqMsg} {e : LogEntry} (he : e ∈ req.logEntries) :
    (o.putEntry e).length ≤ (req.logEntries.flatMap o.putEntry).length := by
  obtain ⟨before, after, hes⟩ := append_of_mem he
  rw [hes, flatMap_append, flatMap_cons, length_append, length_append]
  omega

theorem length_payload (req : ReqMsg) :
    (o.payload req).length = (if o.metaStr req = [] then 0 else 4 + (o.metaStr req).length) +
      (req.logEntries.flatMap o.putEntry).length := by
  rw [payload, length_append]
  split <;> simp

theorem getPayload_payload {req : ReqMsg} (h : (o.payload req).length < 2 ^ 31) :
    getPayload (o.flags req) (o.payload req) = if req.logEntries.all o.entryPasses then
        some (o.metaStr req, req.logEntries.map o.sentEntry)
      else none := by
  rw [length_payload] at h
  have hlen : ∀ e ∈ req.logEntries, e.buf.length < 2 ^ 31 := by
    intro e he
    have hle := length_putEntry_le (o := o) he
    rw [o.length_putEntry e] at hle
    omega
  have hentries := getEntries_put (flags_describe (o := o) req) hlen (Nat.le_refl _)
  -- the meta string is there unless it is empty
  have hsplit : getMeta (o.flags req) (o.payload req) =
      some (o.metaStr req, req.logEntries.flatMap o.putEntry) := by
    rw [getMeta, flags_includeMeta, payload]
    by_cases hmeta : o.metaStr req = []
    · simp [hmeta]
    · rw [if_neg hmeta] at h
      have hbne : (o.metaStr req != []) = true := by simpa using hmeta
      rw [if_neg hmeta, hbne, if_pos rfl, getBytes_put _ (by omega)]
  simp only [getPayload, hsplit, bind_eq_bind, bind_some, hentries]
  split <;> rfl

theorem payload_eq_nil {req : ReqMsg} (h : o.payload req = []) :
    o.metaStr req = [] ∧ req.logEntries = [] := by
  have hlen := congrArg length h
  rw [length_payload, length_nil] at hlen
  refine ⟨?_, ?_⟩
  · by_contra hmeta
    rw [if_neg hmeta] at hlen
    omega
  · cases hes : req.logEntries with
    | nil => rfl
    | cons e es =>
      have hmem : e ∈ req.logEntries := by simp [hes]
      have hle := length_putEntry_le (o := o) hmem
      rw [o.length_putEntry e] at hle
      omega

end SendOpts

theorem crcPayload_ite (ctx : Bytes) (crcHeader : BitVec 32) :
    crcPayload (if ctx = [] then none else some ctx) crcHeader = crc32_8 ctx crcHeader := by
  split
  · rename_i h
    rw [h]
    exact (BitVec.not_not).symm
  · rfl

theorem readComplete_payload (rcv : ReadOpts) (snd : SendOpts) {req : ReqMsg}
    (hlen : (snd.payload req).length < 2 ^ 31) {crcHeader crcFromMsg : BitVec 32}
    (hcrc : snd.crcOnEntireMessage = true → crc32_8 (snd.payload req) crcHeader = crcFromMsg)
    (word : UInt64) (rest : Bytes) :
    (rcv.readComplete (snd.header req ++ putU64 word) crcHeader crcFromMsg (snd.flags req)
        (if snd.payload req = [] then none else some (snd.payload req)) rest).getD .stopped =
      if req.logEntries.all snd.entryPasses then
        rcv.verifyMeta (snd.received req) (snd.metaStr req) rest
      else .stopped := by
  have hpass : ¬ (has (snd.flags req) Flag.crcOnEntireMessage &&
      crcPayload (if snd.payload req = [] then none else some (snd.payload req)) crcHeader !=
        crcFromMsg) = true := by
    rw [SendOpts.flags_crcOnEntireMessage, crcPayload_ite]
    intro h
    rw [Bool.and_eq_true, bne_iff_ne] at h
    exact h.2 (hcrc h.1)
  rw [ReadOpts.readComplete, SendOpts.header, readAt_reqHeader]
  simp only [bind_eq_bind, bind_some, if_neg hpass, SendOpts.flags_markDown,
    SendOpts.extraFlags_received]
  by_cases hnil : snd.payload req = []
  · obtain ⟨hmeta, hes⟩ := SendOpts.payload_eq_nil hnil
    simp [hnil, hmeta, hes, SendOpts.received]
  · have hpos : decide (0 < Int32.ofNat (snd.payload req).length) = true := by
      have hint : (Int32.ofNat (snd.payload req).length).toInt = (snd.payload req).length :=
        Int32.toInt_ofNat_of_lt hlen
      have := length_pos_iff.mpr hnil
      rw [decide_eq_true_eq, Int32.lt_iff_toInt_lt, hint]
      simpa using this
    simp only [if_neg hnil, hpos, SendOpts.getPayload_payload hlen]
    split <;> rfl

section Start

variable (rcv : ReadOpts) {snd : SendOpts} {req : ReqMsg}

/-- The header of a request passes the checks of `start`, unless its type or size does not. -/
theorem headerRead_header (hlen : (snd.payload req).length < 2 ^ 31) {word : UInt64}
    (hcrc : has (flagsOf word) Flag.crcOnEntireMessage = false →
      crc32_8 (snd.header req) 0 = crcOf word) (tail : Bytes) :
    rcv.headerRead (snd.header req ++ putU64 word) (snd.payload req ++ tail) =
      if isValidMsg req.type && decide ((snd.payload req).length ≤ 0x40000000) then
        rcv.readComplete (snd.header req ++ putU64 word) (crc32_8 (snd.header req) 0) (crcOf word)
          (flagsOf word) (if snd.payload req = [] then none else some (snd.payload req)) tail
      else some .stopped := by
  have hint : (Int32.ofNat (snd.payload req).length).toInt = (snd.payload req).length :=
    Int32.toInt_ofNat_of_lt hlen
  have htake : (snd.header req ++ putU64 word).take 46 = snd.header req :=
    take_left' (length_putReqHeader req _)
  have hpass : ¬ (!has (flagsOf word) Flag.crcOnEntireMessage &&
      crc32_8 (snd.header req) 0 != crcOf word) = true := by
    intro h
    rw [Bool.and_eq_true, Bool.not_eq_true', bne_iff_ne] at h
    exact h.2 (hcrc h.1)
  have hneg : decide (Int32.ofNat (snd.payload req).length < 0) = false := by
    rw [decide_eq_false_iff_not, Int32.lt_iff_toInt_lt, hint]
    simp
  have hlimit : decide (0x40000000 < Int32.ofNat (snd.payload req).length) =
      !decide ((snd.payload req).length ≤ 0x40000000) := by
    rw [← decide_not, decide_eq_decide, Int32.lt_iff_toInt_lt, hint, Nat.not_le]
    have hbound : (0x40000000 : Int32).toInt = 1073741824 := by decide
    omega
  have hzero : Int32.ofNat (snd.payload req).length = 0 ↔ snd.payload req = [] := by
    rw [← Int32.toInt_inj, hint]
    simp
  have hclamp : (Int32.ofNat (snd.payload req).length).toNatClampNeg = (snd.payload req).length :=
    Int32.toNatClampNeg_ofNat_of_lt hlen
  simp only [ReadOpts.headerRead, reqHeaderSize, crcFlagsLen, dataSizeLen, Nat.reduceSub, htake]
  simp only [SendOpts.header, readAt_word, readAt_marker, readAt_type, readAt_dataSize] at hpass ⊢
  have hthere : ¬ (snd.payload req ++ tail).length < (snd.payload req).length := by simp
  simp only [bind_eq_bind, bind_some, if_neg hpass, hneg, hlimit, hclamp, hzero, if_neg hthere]
  cases isValidMsg req.type <;> cases decide ((snd.payload req).length ≤ 0x40000000)
  · rfl
  · rfl
  · rfl
  · by_cases hnil : snd.payload req = []
    · simp [hnil]
    · simp [hnil]

theorem start_registerReqSend {msg : Bytes} (hsend : snd.registerReqSend req = some msg)
    (tail : Bytes) :
    rcv.start (msg ++ tail) =
      if isValidMsg req.type && decide ((snd.payload req).length ≤ 0x40000000) &&
          req.logEntries.all snd.entryPasses then
        rcv.verifyMeta (snd.received req) (snd.metaStr req) tail
      else .stopped := by
  unfold SendOpts.registerReqSend at hsend
  split at hsend
  · rename_i hfits
    cases hsend
    have hlen : (snd.payload req).length < 2 ^ 31 := by
      omega
    let word := flagsAndCrc (snd.flags req) (snd.checksum req)
    have hhdr : (snd.header req ++ putU64 word).length = reqHeaderSize := by
      simp [SendOpts.header, length_putReqHeader, reqHeaderSize]
    have hinput : snd.header req ++ (putU64 word ++ snd.payload req) ++ tail =
        (snd.header req ++ putU64 word) ++ (snd.payload req ++ tail) := by
      simp only [append_assoc]
    have hshort : ¬ (snd.header req ++ putU64 word ++ (snd.payload req ++ tail)).length <
        reqHeaderSize := by
      rw [length_append, hhdr]
      omega
    have hcrcHeader : has (flagsOf word) Flag.crcOnEntireMessage = false →
        crc32_8 (snd.header req) 0 = crcOf word := by
      rw [flagsOf_flagsAndCrc, SendOpts.flags_crcOnEntireMessage, crcOf_flagsAndCrc]
      intro hoff
      simp [SendOpts.checksum, hoff]
    have hcrcPayload : snd.crcOnEntireMessage = true →
        crc32_8 (snd.payload req) (crc32_8 (snd.header req) 0) = crcOf word := by
      rw [crcOf_flagsAndCrc]
      intro hon
      simp [SendOpts.checksum, hon]
    rw [hinput, ReadOpts.start, if_neg hshort, take_left' hhdr, drop_left' hhdr,
      headerRead_header rcv hlen hcrcHeader]
    have hbody := readComplete_payload rcv snd hlen hcrcPayload word tail
    rw [flagsOf_flagsAndCrc]
    cases isValidMsg req.type && decide ((snd.payload req).length ≤ 0x40000000)
    · rfl
    · exact hbody
  · cases hsend

/-- The session hands the request that was sent to the raft server, with the meta string that
was sent, whatever options the sender has. -/
theorem request_round_trip (hvalid : isValidMsg req.type = true)
    (hcrc : ∀ e ∈ req.logEntries, e.hasCrc32 = true → e.crc32 = crc32_8 e.buf 0)
    (hsize : (snd.payload req).length ≤ 0x40000000) (tail : Bytes) :
    ∃ msg, snd.registerReqSend req = some msg ∧
      rcv.start (msg ++ tail) = rcv.verifyMeta (snd.received req) (snd.metaStr req) tail := by
  have hsend : ∃ msg, snd.registerReqSend req = some msg := by
    refine ⟨_, if_pos ?_⟩
    simp only [reqHeaderSize]
    omega
  obtain ⟨msg, hmsg⟩ := hsend
  have hpass : req.logEntries.all snd.entryPasses = true := by
    rw [List.all_eq_true]
    intro e he
    simp only [SendOpts.entryPasses, Bool.not_eq_true', Bool.and_eq_false_iff, bne_eq_false_iff_eq]
    cases hhas : e.hasCrc32
    · exact .inl (.inr rfl)
    · exact .inr (hcrc e he hhas).symm
  refine ⟨msg, hmsg, ?_⟩
  rw [start_registerReqSend rcv hmsg tail, hvalid, hpass, decide_eq_true hsize]
  rfl

end Start

/-- A client's request with a meta string and two entries, one of them with its checksum. -/
def sampleReq : ReqMsg :=
  { term := 7
    type := .clientRequest
    src := -1
    dst := 2
    lastLogTerm := 6
    lastLogIdx := 40
    commitIdx := 39
    logEntries := [⟨7, 1, [1, 2, 3], 12345, true, 0x55BC801D#32⟩, ⟨6, 2, [], 0, false, 0#32⟩]
    extraFlags := 1 }

def sampleOpts : SendOpts :=
  { replicateLogTimestamp := true
    crcOnPayload := true
    crcOnEntireMessage := true
    writeReqMeta := some (fun _ => [109, 101, 116, 97]) }

theorem sampleReq_round_trip :
    isValidMsg sampleReq.type = true ∧ (sampleOpts.payload sampleReq).length ≤ 0x40000000 ∧
      ∃ msg, sampleOpts.registerReqSend sampleReq = some msg ∧
        ReadOpts.start { readReqMeta := some (fun _ _ => true) } (msg ++ [9]) =
          .handed (sampleOpts.received sampleReq) (some [109, 101, 116, 97]) [9] := by
  have hcrc : ∀ e ∈ sampleReq.logEntries, e.hasCrc32 = true → e.crc32 = crc32_8 e.buf 0 := by
    decide
  refine ⟨by decide, by decide, ?_⟩
  have hvalid : isValidMsg sampleReq.type = true := by decide
  have hsize : (sampleOpts.payload sampleReq).length ≤ 0x40000000 := by decide
  exact request_round_trip { readReqMeta := some (fun _ _ => true) } hvalid hcrc hsize [9]

end Rpc
end Xio
