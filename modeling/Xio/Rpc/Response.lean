import Xio.Rpc.Request

/-!
# Rpc.Response — a response on the wire

`rpc_session::on_resp_ready` writes a response as a header of 39 bytes and the data it carries:
a meta string, a hint, the context and a result code, each of them only if there is something to
say. `xio_rpc_client` reads the header in `response_read` and the data in `ctx_read`, and finds
the parts again by the flags of the header and by their lengths.

Both reads are asynchronous. What they leave in the buffer is `ReadResult`, and the buffer has
its size whether or not the read failed.

`RespFrame` says what the bytes of a response hold, and `responseRead_frame` what the client makes
of a response that it read from such bytes.
-/

namespace Xio
namespace Rpc

open ByteCodec List
open Option hiding bind_apply pure_apply

structure RespMsg where
  term : UInt64
  type : MsgType
  src : Int32
  dst : Int32
  nextIdx : UInt64
  accepted : Bool
  nextBatchSizeHintInBytes : Int64 := 0
  ctx : Option Bytes := none
  -- `cmd_result_code::OK`
  resultCode : Int32 := 0
  extraFlags : UInt64 := 0
  deriving DecidableEq, Repr

/-- A response without what it carries as data. -/
def RespMsg.bare (rsp : RespMsg) : RespMsg :=
  { rsp with nextBatchSizeHintInBytes := 0, ctx := none, resultCode := 0 }

def RespMsg.setExtraFlags (rsp : RespMsg) (flags : UInt64) : RespMsg :=
  { rsp with extraFlags := flags }

def selfMarkDown : UInt64 := 0x1

def respHeaderSize : Nat := 39

/-! ## Sending -/

structure RespOpts where
  writeRespMeta : Option (ReqMsg → RespMsg → Bytes) := none

/-- The requests whose response carries a result code. -/
def carriesResultCode (t : MsgType) : Bool :=
  t = .clientRequest || t = .addServerRequest || t = .removeServerRequest

/-- The header of a response up to the word with the checksum. -/
def putRespHeader (marker : UInt8) (rsp : RespMsg) (accepted : UInt8) (dataSize : Int32) : Bytes :=
  putU8 marker ++ putU8 rsp.type.val ++ putI32 rsp.src ++ putI32 rsp.dst ++ putU64 rsp.term ++
    putU64 rsp.nextIdx ++ putU8 accepted ++ putI32 dataSize

/-- The hint, after its version and its length. -/
def putHint (version len : UInt16) (hint : Int64) : Bytes :=
  putU16 version ++ putU16 len ++ putI64 hint

namespace RespOpts

variable (o : RespOpts)

def metaStr (req : ReqMsg) (resp : RespMsg) : Bytes :=
  match o.writeRespMeta with
  | some write => write req resp
  | none => []

def flags (req : ReqMsg) (resp : RespMsg) : BitVec 32 :=
  flagIf (o.metaStr req resp != []) Flag.includeMeta |||
    flagIf (resp.nextBatchSizeHintInBytes != 0) Flag.includeHint |||
    flagIf (resp.extraFlags &&& selfMarkDown != 0) Flag.markDown |||
    flagIf (carriesResultCode req.type) Flag.includeResultCode

/-- The carried data, with the result code at the end. -/
def carried (req : ReqMsg) (resp : RespMsg) : Bytes :=
  (if o.metaStr req resp = [] then [] else putBytes (o.metaStr req resp)) ++
    (if resp.nextBatchSizeHintInBytes = 0 then [] else putHint 0 8 resp.nextBatchSizeHintInBytes) ++
    resp.ctx.getD [] ++
    (if carriesResultCode req.type then putI32 resp.resultCode else [])

/-- `on_resp_ready`: the bytes that are written, unless they are too many for a buffer. -/
def onRespReady (req : ReqMsg) (resp : RespMsg) : Option Bytes :=
  if respHeaderSize + (o.carried req resp).length < 0x80000000 then
    let header := putRespHeader 0x1 resp (if resp.accepted then 1 else 0)
      (Int32.ofNat (o.carried req resp).length)
    some (header ++ putU64 (flagsAndCrc (o.flags req resp) (crc32_8 header 0)) ++
      o.carried req resp)
  else
    none

end RespOpts

/-! ## Receiving -/

structure ClientOpts where
  readRespMeta : Option (ReqMsg → RespMsg → Bytes → Bool) := none
  invokeRespCbOnEmptyMeta : Bool := false

/-- A read into a buffer of `n` bytes. -/
structure ReadResult (n : Nat) where
  failed : Bool
  data : Bytes
  size : data.length = n

inductive RpcError
  | readFailed
  | crcMismatch
  | metaRefused (metaStr : Bytes)
  deriving DecidableEq, Repr

/-- What comes of a response. -/
inductive Completion
  /-- `handle_error`: `when_done` is called with an exception. -/
  | exception (e : RpcError)
  /-- `when_done` is called without one. The meta string was shown to `read_resp_meta_`. -/
  | delivered (rsp : RespMsg) (metaStr : Option Bytes)
  /-- An exception leaves the handler, or an assertion fails, and `when_done` is not called. -/
  | thrown
  deriving DecidableEq, Repr

def getRespHeader : Reader (RespMsg × Int32) := do
  let msgTypeVal ← getU8
  let src ← getI32
  let dst ← getI32
  let term ← getU64
  let nxtIdx ← getU64
  let acceptedVal ← getU8
  let carriedDataSize ← getI32
  return (⟨term, ⟨msgTypeVal⟩, src, dst, nxtIdx, acceptedVal == 1, 0, none, 0, 0⟩, carriedDataSize)

/-- The hint and its length on the wire. -/
def getHint (flags : BitVec 32) : Reader (Int64 × Nat) :=
  if has flags Flag.includeHint then do
    let _ ← getU16
    let hintLen ← getU16
    let hint ← getI64
    return (hint, 2 * 2 + hintLen.toNat)
  else
    return (0, 0)

/-- The context takes what is left before the result code. -/
def getCtx (len : Nat) : Reader (Option Bytes) :=
  if len = 0 then return none else some <$> raw len

def getResultCode (flags : BitVec 32) : Reader Int32 :=
  if has flags Flag.includeResultCode then getI32 else return 0

namespace ClientOpts

variable (o : ClientOpts)

/-- `handle_custom_resp_meta`, where it is called at all: the verdict of the callback. -/
def accepts (req : ReqMsg) (rsp : RespMsg) (metaStr : Option Bytes) : Bool :=
  match o.readRespMeta, metaStr with
  | some read, some metaStr => read req rsp metaStr
  | _, _ => true

/-- The meta string as `read_resp_meta_` sees it, if it is called. -/
def shown (metaStr : Bytes) : Option Bytes :=
  if o.readRespMeta.isSome && (metaStr != [] || o.invokeRespCbOnEmptyMeta) then some metaStr
  else none

/-- `ctx_read` on composite data, after the meta string. -/
def ctxParts (rsp : RespMsg) (flags : BitVec 32) (remaining : Int) (bs : Bytes) :
    Option RespMsg := do
  let ((hint, hintSize), bs) ← getHint flags bs
  let remaining := remaining - hintSize
  let ctxLen := remaining - (if has flags Flag.includeResultCode then 4 else 0)
  -- an assertion, or a length that is no buffer's as `size_t`
  if remaining < 0 || ctxLen < 0 then
    none
  else
    let (ctx, bs) ← getCtx ctxLen.toNat bs
    let (resultCode, _) ← getResultCode flags bs
    return { rsp with nextBatchSizeHintInBytes := hint, ctx := ctx, resultCode := resultCode }

/-- `ctx_read`. It does not look at the error of the read. -/
def ctxRead (req : ReqMsg) (rsp : RespMsg) (flags : BitVec 32) (metaStr : Option Bytes) {n : Nat}
    (read : ReadResult n) : Option Completion :=
  if !has flags Flag.includeMeta && !has flags Flag.includeHint &&
      !has flags Flag.includeResultCode then
    some (.delivered { rsp with ctx := some read.data } metaStr)
  else do
    let (respMeta, bs) ← getMeta flags read.data
    let metaStr := if has flags Flag.includeMeta then o.shown respMeta else metaStr
    if has flags Flag.includeMeta && !o.accepts req rsp metaStr then
      return .exception (.metaRefused respMeta)
    else
      let remaining := n - (if has flags Flag.includeMeta then 4 + respMeta.length else 0 : Int)
      let rsp ← ctxParts rsp flags remaining bs
      return .delivered rsp metaStr

/-- `response_read` once the header is there. -/
def headerRead (req : ReqMsg) (header : Bytes) (carried : (n : Nat) → ReadResult n) :
    Option Completion := do
  let word ← readAt (respHeaderSize - crcFlagsLen) getU64 header
  if crc32_8 (header.take (respHeaderSize - crcFlagsLen)) 0 != crcOf word then
    return .exception .crcMismatch
  else
    let (rsp, carriedDataSize) ← readAt 1 getRespHeader header
    -- without a meta string the callback is called only if it asked for that
    let metaStr := if has (flagsOf word) Flag.includeMeta then none else o.shown []
    if !o.accepts req rsp metaStr then
      return .exception (.metaRefused [])
    else
      let rsp := if has (flagsOf word) Flag.markDown then rsp.setExtraFlags selfMarkDown else rsp
      if carriedDataSize = 0 then
        return .delivered rsp metaStr
      else if carriedDataSize < 0 then
        none
      else
        o.ctxRead req rsp (flagsOf word) metaStr (carried carriedDataSize.toNatClampNeg)

/-- `response_read`, and `ctx_read` on the data that the header announces. -/
def responseRead (req : ReqMsg) (header : ReadResult respHeaderSize)
    (carried : (n : Nat) → ReadResult n) : Completion :=
  if header.failed then
    .exception .readFailed
  else
    (o.headerRead req header.data carried).getD .thrown

end ClientOpts

/-! ## What the bytes of a response say -/

/-- What stands in the bytes of a response besides its own fields. -/
structure RespFrame where
  marker : UInt8
  acceptedVal : UInt8
  dataSize : Int32
  flags : BitVec 32
  crc : BitVec 32
  metaStr : Bytes
  hintVersion : UInt16
  hintLen : UInt16
  ctx : Bytes
  -- a hint may announce more than its eight bytes
  pad : Bytes

namespace RespFrame

variable (f : RespFrame) (rsp : RespMsg)

def header : Bytes :=
  putRespHeader f.marker rsp f.acceptedVal f.dataSize ++ putU64 (flagsAndCrc f.flags f.crc)

/-- The flags as far as they are looked at: a response without data has no parts. -/
def parts : BitVec 32 := if f.dataSize = 0 then 0#32 else f.flags

def metaPart : Bytes := if has f.parts Flag.includeMeta then putBytes f.metaStr else []

def hintPart : Bytes :=
  if has f.parts Flag.includeHint then
    putHint f.hintVersion f.hintLen rsp.nextBatchSizeHintInBytes
  else []

def codePart : Bytes := if has f.parts Flag.includeResultCode then putI32 rsp.resultCode else []

def data : Bytes := f.metaPart ++ (f.hintPart rsp ++ (f.ctx ++ (f.codePart rsp ++ f.pad)))

/-- The response is the one that the bytes describe. A part that is not there has its default. -/
structure Describes : Prop where
  accepted : rsp.accepted = (f.acceptedVal == 1)
  extraFlags : rsp.extraFlags = if has f.flags Flag.markDown then selfMarkDown else 0
  noMeta : has f.parts Flag.includeMeta = false → f.metaStr = []
  hint : if has f.parts Flag.includeHint then f.hintLen.toNat = 8 + f.pad.length
    else rsp.nextBatchSizeHintInBytes = 0 ∧ f.pad = []
  ctx : rsp.ctx = if f.ctx = [] then none else some f.ctx
  noCode : has f.parts Flag.includeResultCode = false → rsp.resultCode = 0
  crc : crc32_8 (putRespHeader f.marker rsp f.acceptedVal f.dataSize) 0 = f.crc
  dataSize : f.dataSize.toInt = (f.data rsp).length

/-- The response as `read_resp_meta_` sees it: the data is not read, and `response_read` shows an
empty meta string before it looks at the flag of the response. -/
def asked : RespMsg :=
  rsp.bare.setExtraFlags (if has f.flags Flag.includeMeta then rsp.extraFlags else 0)

/-- The meta string that `read_resp_meta_` was shown. Where the flag promises one and there is no
data, the callback is not called at all. -/
def shownTo (o : ClientOpts) : Option Bytes :=
  if has f.flags Flag.includeMeta && f.dataSize = 0 then none else o.shown f.metaStr

end RespFrame

theorem length_putRespHeader (marker : UInt8) (rsp : RespMsg) (accepted : UInt8)
    (dataSize : Int32) : (putRespHeader marker rsp accepted dataSize).length = 31 := by
  simp [putRespHeader]

theorem length_putHint (version len : UInt16) (hint : Int64) :
    (putHint version len hint).length = 12 := by
  simp [putHint]

section Forward

variable {f : RespFrame} {rsp : RespMsg} (rest : Bytes)

theorem getMeta_metaPart (hd : f.Describes rsp) (hlen : f.metaStr.length < 2 ^ 32) :
    getMeta f.parts (f.metaPart ++ rest) = some (f.metaStr, rest) := by
  unfold getMeta RespFrame.metaPart
  cases h : has f.parts Flag.includeMeta
  · simp [hd.noMeta h]
  · simp [getBytes_put rest hlen]

theorem getHint_hintPart (hd : f.Describes rsp) :
    getHint f.parts (f.hintPart rsp ++ rest) = some ((rsp.nextBatchSizeHintInBytes,
      (f.hintPart rsp).length + f.pad.length), rest) := by
  have hhint := hd.hint
  unfold getHint RespFrame.hintPart
  cases h : has f.parts Flag.includeHint
  · rw [h] at hhint
    simp [hhint.1, hhint.2, pure_apply]
  · rw [h] at hhint
    simp only [if_true] at hhint ⊢
    simp only [putHint, append_assoc, bind_apply, getU16_put, getI64_put, bind_some,
      pure_apply, length_append, length_putU16, length_putI64, hhint]
    simp only [some.injEq, Prod.mk.injEq, and_true, true_and]
    omega

theorem getCtx_append (ctx : Bytes) :
    getCtx ctx.length (ctx ++ rest) = some (if ctx = [] then none else some ctx, rest) := by
  unfold getCtx
  by_cases h : ctx = []
  · simp [h, pure_apply]
  · simp [h, map_apply, raw_append]

theorem getResultCode_codePart (hd : f.Describes rsp) :
    getResultCode f.parts (f.codePart rsp ++ rest) = some (rsp.resultCode, rest) := by
  unfold getResultCode RespFrame.codePart
  cases h : has f.parts Flag.includeResultCode
  · simp [hd.noCode h, pure_apply]
  · simp

variable (f rsp) in
theorem length_codePart : ((f.codePart rsp).length : Int) =
    if has f.parts Flag.includeResultCode then 4 else 0 := by
  unfold RespFrame.codePart
  split <;> simp

theorem ctxParts_frame (hd : f.Describes rsp) (rsp' : RespMsg) {remaining : Int}
    (hremaining : remaining = (f.hintPart rsp ++ (f.ctx ++ (f.codePart rsp ++ f.pad))).length) :
    ClientOpts.ctxParts rsp' f.parts remaining
        (f.hintPart rsp ++ (f.ctx ++ (f.codePart rsp ++ f.pad))) =
      some { rsp' with
        nextBatchSizeHintInBytes := rsp.nextBatchSizeHintInBytes
        ctx := rsp.ctx
        resultCode := rsp.resultCode } := by
  have hcode := length_codePart f rsp
  -- what is left for the context is its length
  have hleft : remaining - ((f.hintPart rsp).length + f.pad.length : Nat) =
      f.ctx.length + (f.codePart rsp).length := by
    rw [hremaining]
    simp only [length_append]
    omega
  have hctxLen : (f.ctx.length + (f.codePart rsp).length : Int) -
      (if has f.parts Flag.includeResultCode then 4 else 0) = f.ctx.length := by
    omega
  have hok : ¬ (decide ((f.ctx.length + (f.codePart rsp).length : Int) < 0) ||
      decide ((f.ctx.length : Int) < 0)) = true := by
    simp
    omega
  simp only [ClientOpts.ctxParts, getHint_hintPart _ hd, bind_eq_bind, bind_some,
    hleft, hctxLen, if_neg hok, Int.toNat_natCast, getCtx_append, getResultCode_codePart _ hd, hd.ctx]
  rfl

theorem data_eq_ctx (hd : f.Describes rsp) (hmeta : has f.parts Flag.includeMeta = false)
    (hhint : has f.parts Flag.includeHint = false)
    (hcode : has f.parts Flag.includeResultCode = false) : f.data rsp = f.ctx := by
  have hpad := hd.hint
  rw [hhint] at hpad
  simp [RespFrame.data, RespFrame.metaPart, RespFrame.hintPart, RespFrame.codePart, hmeta, hhint,
    hcode, hpad.2]

variable (o : ClientOpts) (req : ReqMsg)

theorem ctxRead_frame (hd : f.Describes rsp) (hlen : f.metaStr.length < 2 ^ 32)
    (hne : f.data rsp ≠ []) {m : Option Bytes}
    (hm : has f.parts Flag.includeMeta = false → m = o.shown []) {n : Nat} (read : ReadResult n)
    (hread : read.data = f.data rsp) :
    o.ctxRead req rsp.bare f.parts m read =
      some (if has f.parts Flag.includeMeta && !o.accepts req rsp.bare (o.shown f.metaStr) then
        .exception (.metaRefused f.metaStr)
      else .delivered rsp (o.shown f.metaStr)) := by
  have hsize : n = (f.data rsp).length := by rw [← read.size, hread]
  have hshown : (if has f.parts Flag.includeMeta then o.shown f.metaStr else m) =
      o.shown f.metaStr := by
    cases h : has f.parts Flag.includeMeta
    · rw [hm h, hd.noMeta h]
      rfl
    · rfl
  unfold ClientOpts.ctxRead
  split
  · -- the data is the context
    rename_i hnone
    simp only [Bool.and_eq_true, Bool.not_eq_true'] at hnone
    obtain ⟨⟨hmeta, hhint⟩, hcode⟩ := hnone
    have hctx := data_eq_ctx hd hmeta hhint hcode
    have hhint' := hd.hint
    rw [hhint] at hhint'
    have hrsp : { rsp.bare with ctx := some (f.data rsp) } = rsp := by
      have hsome : rsp.ctx = some (f.data rsp) := by
        rw [hd.ctx, if_neg (hctx ▸ hne), hctx]
      rw [RespMsg.bare, ← hhint'.1, ← hd.noCode hcode, ← hsome]
    rw [hread, hrsp, hmeta, hm hmeta, hd.noMeta hmeta]
    rfl
  · rw [hread]
    have hgetMeta : getMeta f.parts (f.data rsp) = some (f.metaStr, _) :=
      getMeta_metaPart _ hd hlen
    have hremaining : (n : Int) -
        (if has f.parts Flag.includeMeta then 4 + f.metaStr.length else 0 : Int) =
        (f.hintPart rsp ++ (f.ctx ++ (f.codePart rsp ++ f.pad))).length := by
      rw [hsize, RespFrame.data, length_append, RespFrame.metaPart]
      split
      · simp only [length_putBytes]
        omega
      · simp
    simp only [hgetMeta, bind_eq_bind, bind_some, hshown, ctxParts_frame hd rsp.bare hremaining]
    split <;> rfl

theorem readAt_respWord : readAt 31 getU64 (f.header rsp) = some (flagsAndCrc f.flags f.crc) := by
  rw [readAt, RespFrame.header, drop_left' (length_putRespHeader ..)]
  simpa using congrArg (Option.map Prod.fst) (getU64_put [] (flagsAndCrc f.flags f.crc))

theorem readAt_respHeader (hd : f.Describes rsp) : readAt 1 getRespHeader (f.header rsp) =
      some (rsp.bare.setExtraFlags 0, f.dataSize) := by
  have hdrop : (f.header rsp).drop 1 = putU8 rsp.type.val ++ (putI32 rsp.src ++ (putI32 rsp.dst ++
      (putU64 rsp.term ++ (putU64 rsp.nextIdx ++ (putU8 f.acceptedVal ++ (putI32 f.dataSize ++
        putU64 (flagsAndCrc f.flags f.crc))))))) := by
    rfl
  rw [readAt, hdrop]
  simp only [getRespHeader, bind_apply, getU8_put, getI32_put, getU64_put, bind_some, ← hd.accepted]
  rfl

theorem bare_of_data_eq_nil (hd : f.Describes rsp) (h : f.data rsp = []) : rsp.bare = rsp := by
  simp only [RespFrame.data, append_eq_nil_iff] at h
  obtain ⟨-, hhint, hctx, hcode, -⟩ := h
  have hnoHint : has f.parts Flag.includeHint = false := by
    cases hflag : has f.parts Flag.includeHint
    · rfl
    · have := congrArg length hhint
      simp [RespFrame.hintPart, hflag, length_putHint] at this
  have hnoCode : has f.parts Flag.includeResultCode = false := by
    cases hflag : has f.parts Flag.includeResultCode
    · rfl
    · have := congrArg length hcode
      simp [RespFrame.codePart, hflag] at this
  have hzero := hd.hint
  rw [hnoHint] at hzero
  have hnone : rsp.ctx = none := by rw [hd.ctx, if_pos hctx]
  rw [RespMsg.bare, ← hzero.1, ← hd.noCode hnoCode, ← hnone]

theorem responseRead_frame (hd : f.Describes rsp) (hlen : f.metaStr.length < 2 ^ 32)
    (hflag : f.dataSize = 0 → has f.flags Flag.includeMeta = false)
    (header : ReadResult respHeaderSize) (hok : header.failed = false)
    (hheader : header.data = f.header rsp) (carried : (n : Nat) → ReadResult n)
    (hcarried : f.data rsp ≠ [] → (carried f.dataSize.toNatClampNeg).data = f.data rsp) :
    o.responseRead req header carried =
      if o.accepts req (f.asked rsp) (o.shown f.metaStr) then .delivered rsp (o.shown f.metaStr)
      else .exception (.metaRefused f.metaStr) := by
  have htake : (f.header rsp).take 31 = putRespHeader f.marker rsp f.acceptedVal f.dataSize :=
    take_left' (length_putRespHeader ..)
  have hcrc : ¬ (crc32_8 ((f.header rsp).take 31) 0 != f.crc) = true := by
    rw [htake, hd.crc]
    simp
  rw [ClientOpts.responseRead, hok, hheader, ClientOpts.headerRead]
  simp only [respHeaderSize, crcFlagsLen, Nat.reduceSub, readAt_respWord, bind_eq_bind,
    bind_some, crcOf_flagsAndCrc, flagsOf_flagsAndCrc, if_neg hcrc, readAt_respHeader hd,
    Bool.false_eq_true, if_false]
  have hflags : (if has f.flags Flag.markDown then
      (rsp.bare.setExtraFlags 0).setExtraFlags selfMarkDown else rsp.bare.setExtraFlags 0) =
      rsp.bare := by
    have hset : rsp.bare = rsp.bare.setExtraFlags rsp.extraFlags := rfl
    rw [hset, hd.extraFlags]
    split <;> rfl
  have hzero : f.dataSize = 0 ↔ f.data rsp = [] := by
    rw [← Int32.toInt_inj, hd.dataSize]
    simp
  have hneg : ¬ f.dataSize < 0 := by
    rw [Int32.lt_iff_toInt_lt, hd.dataSize]
    simp
  have hparts : f.data rsp ≠ [] → f.parts = f.flags := by
    intro hne
    exact if_neg (fun h => hne (hzero.mp h))
  have hpartsMeta : has f.parts Flag.includeMeta = has f.flags Flag.includeMeta := by
    by_cases h : f.dataSize = 0
    · rw [RespFrame.parts, if_pos h, hflag h]
      rfl
    · rw [RespFrame.parts, if_neg h]
  have hnoMeta := hd.noMeta
  rw [hpartsMeta] at hnoMeta
  simp only [hflags, if_neg hneg, hzero]
  cases hmeta : has f.flags Flag.includeMeta
  · -- the callback is asked before the data is read
    have hasked : f.asked rsp = rsp.bare.setExtraFlags 0 := by
      simp [RespFrame.asked, hmeta]
    simp only [hasked, hnoMeta hmeta, Bool.false_eq_true, if_false]
    cases o.accepts req (rsp.bare.setExtraFlags 0) (o.shown [])
    · rfl
    · by_cases hnil : f.data rsp = []
      · simp [hnil, bare_of_data_eq_nil hd hnil]
      · have hctx := ctxRead_frame o req hd hlen hnil (fun _ => rfl) _ (hcarried hnil)
        rw [hparts hnil] at hctx
        simp only [hmeta, Bool.false_and, Bool.false_eq_true, if_false, hnoMeta hmeta] at hctx
        simp [hnil, hctx]
  · have hasked : f.asked rsp = rsp.bare := by
      rw [RespFrame.asked, hmeta]
      rfl
    have hnil : f.data rsp ≠ [] := by
      intro hnil
      have := hflag (hzero.mpr hnil)
      cases hmeta ▸ this
    have hnone : has f.parts Flag.includeMeta = false → none = o.shown [] := by
      rw [hpartsMeta, hmeta]
      intro h
      cases h
    have hctx := ctxRead_frame o req hd hlen hnil hnone _ (hcarried hnil)
    have htrue : o.accepts req (rsp.bare.setExtraFlags 0) none = true := by
      unfold ClientOpts.accepts
      split <;> simp_all
    rw [hparts hnil] at hctx
    simp only [hmeta, Bool.true_and] at hctx
    simp only [hasked, if_true, htrue, Bool.not_true, Bool.false_eq_true, hnil, if_false, hctx]
    cases o.accepts req rsp.bare (o.shown f.metaStr) <;> rfl

end Forward

end Rpc
end Xio
