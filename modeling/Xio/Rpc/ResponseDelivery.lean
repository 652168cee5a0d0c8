import Xio.Rpc.Response

/-!
# Rpc.ResponseDelivery — what the client delivers

Both directions between the bytes of a response and the response that `when_done` gets.

- `response_round_trip`: what the client delivers for the bytes that `on_resp_ready` wrote
- `delivered_frame`: whatever the client delivers is in the bytes that it read
- `response_delivery`: the two together
-/

namespace Xio
namespace Rpc

open ByteCodec List Option RespFrame

variable {carried : (n : Nat) → ReadResult n}

section Backward

variable {flags : BitVec 32} {bs rest : Bytes}

theorem getMeta_eq_some {m : Bytes} (h : getMeta flags bs = some (m, rest)) :
    bs = (if has flags Flag.includeMeta then putBytes m else []) ++ rest ∧
      (has flags Flag.includeMeta = false → m = []) := by
  unfold getMeta at h
  cases hflag : has flags Flag.includeMeta <;> rw [hflag] at h
  · cases h
    exact ⟨rfl, fun _ => rfl⟩
  · exact ⟨getBytes_eq_some h, fun hf => by cases hf⟩

theorem getHint_eq_some {hint : Int64} {size : Nat}
    (h : getHint flags bs = some ((hint, size), rest)) :
    ∃ version len, bs = (if has flags Flag.includeHint then putHint version len hint else []) ++ rest ∧
      if has flags Flag.includeHint then size = 4 + len.toNat else hint = 0 ∧ size = 0 := by
  unfold getHint at h
  cases hflag : has flags Flag.includeHint <;> rw [hflag] at h
  · cases h
    exact ⟨0, 0, rfl, rfl, rfl⟩
  · obtain ⟨version, bs1, h1, h⟩ := bind_eq_some h
    obtain ⟨len, bs2, h2, h⟩ := bind_eq_some h
    obtain ⟨hint', bs3, h3, h⟩ := bind_eq_some h
    cases h
    refine ⟨version, len, ?_, rfl⟩
    rw [getU16_eq_some h1, getU16_eq_some h2, getI64_eq_some h3]
    simp [putHint]

theorem getCtx_eq_some {n : Nat} {c : Option Bytes} (h : getCtx n bs = some (c, rest)) :
    ∃ ctx : Bytes, bs = ctx ++ rest ∧ ctx.length = n ∧ c = if ctx = [] then none else some ctx := by
  unfold getCtx at h
  split at h
  · rename_i hn
    cases h
    exact ⟨[], rfl, hn.symm, rfl⟩
  · rename_i hn
    rw [map_apply] at h
    obtain ⟨⟨ctx, mid⟩, hraw, hc⟩ := map_eq_some_iff.mp h
    cases hc
    obtain ⟨hlen, hbs⟩ := raw_eq_some hraw
    have hne : ctx ≠ [] := by
      intro hnil
      rw [hnil] at hlen
      exact hn hlen.symm
    exact ⟨ctx, hbs, hlen, by rw [if_neg hne]⟩

theorem getResultCode_eq_some {code : Int32} (h : getResultCode flags bs = some (code, rest)) :
    bs = (if has flags Flag.includeResultCode then putI32 code else []) ++ rest ∧
      (has flags Flag.includeResultCode = false → code = 0) := by
  unfold getResultCode at h
  cases hflag : has flags Flag.includeResultCode <;> rw [hflag] at h
  · cases h
    exact ⟨rfl, fun _ => rfl⟩
  · exact ⟨getI32_eq_some h, fun hf => by cases hf⟩

/-- The parts after the meta string take up the data, but for what the length of the hint says
beyond its eight bytes. -/
theorem ctxParts_eq_some {rsp rsp' : RespMsg}
    (h : ClientOpts.ctxParts rsp' flags bs.length bs = some rsp) :
    ∃ version len ctx pad,
      bs = (if has flags Flag.includeHint then putHint version len rsp.nextBatchSizeHintInBytes
          else []) ++ (ctx ++
        ((if has flags Flag.includeResultCode then putI32 rsp.resultCode else []) ++ pad)) ∧
      (if has flags Flag.includeHint then len.toNat = 8 + pad.length
        else rsp.nextBatchSizeHintInBytes = 0 ∧ pad = []) ∧
      (has flags Flag.includeResultCode = false → rsp.resultCode = 0) ∧
      rsp = { rsp' with
        nextBatchSizeHintInBytes := rsp.nextBatchSizeHintInBytes
        ctx := if ctx = [] then none else some ctx
        resultCode := rsp.resultCode } := by
  obtain ⟨⟨⟨hint, hintSize⟩, bs1⟩, hhint, h⟩ := bind_eq_some_iff.mp h
  obtain ⟨hok, h⟩ := ite_none_left_eq_some.mp h
  obtain ⟨⟨c, bs2⟩, hctx, h⟩ := bind_eq_some_iff.mp h
  obtain ⟨⟨code, pad⟩, hcode, h⟩ := bind_eq_some_iff.mp h
  cases h
  obtain ⟨version, len, hbs, hsize⟩ := getHint_eq_some hhint
  obtain ⟨ctx, hbs1, hctxLen, hc⟩ := getCtx_eq_some hctx
  obtain ⟨hbs2, hnoCode⟩ := getResultCode_eq_some hcode
  subst hbs2 hbs1
  refine ⟨version, len, ctx, pad, hbs, ?_, hnoCode, by rw [hc]⟩
  have hlen := congrArg length hbs
  simp only [Bool.or_eq_true, decide_eq_true_eq, not_or, Int.not_lt] at hok
  have hcodeLen : (if has flags Flag.includeResultCode then (4 : Int) else 0) =
      (if has flags Flag.includeResultCode then putI32 code else []).length := by
    split <;> simp
  simp only [length_append] at hlen
  cases hflag : has flags Flag.includeHint
  · simp only [hflag, Bool.false_eq_true, if_false, length_nil] at hsize hlen ⊢
    refine ⟨hsize.1, length_eq_zero_iff.mp ?_⟩
    omega
  · simp only [hflag, if_true, length_putHint] at hsize hlen ⊢
    omega

theorem ctxRead_eq_delivered {o : ClientOpts} {req : ReqMsg} {rsp rsp' : RespMsg}
    (hbare : rsp'.bare = rsp') {m m' : Option Bytes} {n : Nat} {read : ReadResult n} (hn : n ≠ 0)
    (h : o.ctxRead req rsp' flags m read = some (.delivered rsp m')) :
    ∃ metaStr version len ctx pad,
      read.data = (if has flags Flag.includeMeta then putBytes metaStr else []) ++
        ((if has flags Flag.includeHint then putHint version len rsp.nextBatchSizeHintInBytes
          else []) ++ (ctx ++
        ((if has flags Flag.includeResultCode then putI32 rsp.resultCode else []) ++ pad))) ∧
      (if has flags Flag.includeHint then len.toNat = 8 + pad.length
        else rsp.nextBatchSizeHintInBytes = 0 ∧ pad = []) ∧
      (has flags Flag.includeResultCode = false → rsp.resultCode = 0) ∧
      (has flags Flag.includeMeta = false → metaStr = []) ∧
      m' = (if has flags Flag.includeMeta then o.shown metaStr else m) ∧
      rsp = { rsp' with
        nextBatchSizeHintInBytes := rsp.nextBatchSizeHintInBytes
        ctx := if ctx = [] then none else some ctx
        resultCode := rsp.resultCode } := by
  unfold ClientOpts.ctxRead at h
  split at h
  · rename_i hnone
    simp only [Bool.and_eq_true, Bool.not_eq_true'] at hnone
    obtain ⟨⟨hmeta, hhint⟩, hcode⟩ := hnone
    cases h
    have hdata : read.data ≠ [] := by
      intro hnil
      exact hn (by rw [← read.size, hnil]; rfl)
    have hzero : rsp'.nextBatchSizeHintInBytes = 0 ∧ rsp'.resultCode = 0 := by
      rw [← hbare]
      exact ⟨rfl, rfl⟩
    simp [hmeta, hhint, hcode, hdata, hzero]
  · obtain ⟨⟨metaStr, bs⟩, hgetMeta, h⟩ := bind_eq_some_iff.mp h
    simp only at h
    by_cases hrefused : (has flags Flag.includeMeta &&
        !o.accepts req rsp' (if has flags Flag.includeMeta then o.shown metaStr else m)) = true
    · rw [if_pos hrefused] at h
      cases h
    · rw [if_neg hrefused] at h
      obtain ⟨rsp₁, hparts, h⟩ := bind_eq_some_iff.mp h
      cases h
      obtain ⟨hdata, hnoMeta⟩ := getMeta_eq_some hgetMeta
      have hremaining : (n : Int) -
          (if has flags Flag.includeMeta then 4 + metaStr.length else 0 : Int) = bs.length := by
        rw [← read.size, hdata, length_append]
        split
        · simp only [length_putBytes]
          omega
        · simp
      rw [hremaining] at hparts
      obtain ⟨version, len, ctx, pad, hbs, hhint, hnoCode, hrsp⟩ := ctxParts_eq_some hparts
      exact ⟨metaStr, version, len, ctx, pad, by rw [hdata, ← hbs], hhint, hnoCode, hnoMeta, rfl,
        hrsp⟩

theorem readAt_eq_some {α : Type} {pos : Nat} {r : Reader α} {buf : Bytes} {v : α}
    (h : readAt pos r buf = some v) : ∃ rest, r (buf.drop pos) = some (v, rest) := by
  obtain ⟨⟨x, rest⟩, hr, hx⟩ := map_eq_some_iff.mp h
  cases hx
  exact ⟨rest, hr⟩

theorem header_eq {header : Bytes} (hlen : header.length = respHeaderSize) {word : UInt64}
    (hword : readAt 31 getU64 header = some word) {rsp : RespMsg} {dataSize : Int32}
    (hrsp : readAt 1 getRespHeader header = some (rsp, dataSize)) :
    ∃ marker acceptedVal, header = putRespHeader marker rsp acceptedVal dataSize ++ putU64 word ∧
      rsp.accepted = (acceptedVal == 1) ∧ rsp.bare = rsp ∧ rsp.extraFlags = 0 := by
  obtain ⟨rest, hword⟩ := readAt_eq_some hword
  obtain ⟨rest', hrsp⟩ := readAt_eq_some hrsp
  obtain ⟨t, bs1, h1, hrsp⟩ := bind_eq_some hrsp
  obtain ⟨src, bs2, h2, hrsp⟩ := bind_eq_some hrsp
  obtain ⟨dst, bs3, h3, hrsp⟩ := bind_eq_some hrsp
  obtain ⟨term, bs4, h4, hrsp⟩ := bind_eq_some hrsp
  obtain ⟨nxtIdx, bs5, h5, hrsp⟩ := bind_eq_some hrsp
  obtain ⟨acceptedVal, bs6, h6, hrsp⟩ := bind_eq_some hrsp
  obtain ⟨size, bs7, h7, hrsp⟩ := bind_eq_some hrsp
  cases hrsp
  cases header with
  | nil => cases hlen
  | cons marker tail =>
    refine ⟨marker, acceptedVal, ?_, rfl, rfl, rfl⟩
    have htail : marker :: tail = putRespHeader marker ⟨term, ⟨t⟩, src, dst, nxtIdx,
        acceptedVal == 1, 0, none, 0, 0⟩ acceptedVal dataSize ++ rest' := by
      have := getU8_eq_some h1
      rw [drop_one, tail_cons] at this
      rw [this, getI32_eq_some h2, getI32_eq_some h3, getU64_eq_some h4, getU64_eq_some h5,
        getU8_eq_some h6, getI32_eq_some h7]
      simp [putRespHeader, putU8]
    rw [htail] at hword hlen ⊢
    rw [drop_left' (length_putRespHeader ..)] at hword
    have hrest' := getU64_eq_some hword
    -- nothing is left of a header after its last word
    have hrest : rest = [] := by
      rw [hrest', length_append, length_append, length_putRespHeader, length_putU64,
        respHeaderSize] at hlen
      exact length_eq_zero_iff.mp (by omega)
    rw [hrest', hrest, append_nil]

/-- The header as it is when the data is read. -/
def markedDown (rsp : RespMsg) (flags : BitVec 32) : RespMsg :=
  if has flags Flag.markDown then rsp.setExtraFlags selfMarkDown else rsp

theorem markedDown_fields (rsp : RespMsg) (flags : BitVec 32) :
    (markedDown rsp flags).accepted = rsp.accepted ∧ (markedDown rsp flags).extraFlags =
        (if has flags Flag.markDown then selfMarkDown else rsp.extraFlags) ∧
      (rsp.bare = rsp → (markedDown rsp flags).bare = markedDown rsp flags) ∧
      ∀ marker acceptedVal dataSize, putRespHeader marker (markedDown rsp flags) acceptedVal dataSize =
        putRespHeader marker rsp acceptedVal dataSize := by
  unfold markedDown
  split
  · refine ⟨rfl, rfl, fun h => ?_, fun _ _ _ => rfl⟩
    rw [← h]
    rfl
  · exact ⟨rfl, rfl, fun h => h, fun _ _ _ => rfl⟩

/-- The way from a header to `when_done` without an exception. -/
theorem headerRead_eq_delivered {o : ClientOpts} {req : ReqMsg} {header : Bytes}
    {rsp : RespMsg} {m : Option Bytes}
    (h : o.headerRead req header carried = some (.delivered rsp m)) :
    ∃ word rsp' dataSize, readAt 31 getU64 header = some word ∧
      crc32_8 (header.take 31) 0 = crcOf word ∧
      readAt 1 getRespHeader header = some (rsp', dataSize) ∧
      (dataSize = 0 ∧ rsp = markedDown rsp' (flagsOf word) ∧
          m = (if has (flagsOf word) Flag.includeMeta then none else o.shown []) ∨
        dataSize ≠ 0 ∧ ¬ dataSize < 0 ∧
          o.ctxRead req (markedDown rsp' (flagsOf word)) (flagsOf word)
            (if has (flagsOf word) Flag.includeMeta then none else o.shown [])
            (carried dataSize.toNatClampNeg) = some (.delivered rsp m)) := by
  obtain ⟨word, hword, h⟩ := bind_eq_some_iff.mp h
  by_cases hcrc : (crc32_8 (header.take (respHeaderSize - crcFlagsLen)) 0 != crcOf word) = true
  · rw [if_pos hcrc] at h
    cases h
  · rw [if_neg hcrc] at h
    obtain ⟨⟨rsp', dataSize⟩, hrsp, h⟩ := bind_eq_some_iff.mp h
    refine ⟨word, rsp', dataSize, hword, by simpa [respHeaderSize, crcFlagsLen] using hcrc, hrsp, ?_⟩
    simp only at h
    generalize (if has (flagsOf word) Flag.includeMeta then none else o.shown []) = shown at h ⊢
    by_cases hrefused : (!o.accepts req rsp' shown) = true
    · rw [if_pos hrefused] at h
      cases h
    · rw [if_neg hrefused] at h
      by_cases hzero : dataSize = 0
      · rw [if_pos hzero] at h
        cases h
        exact .inl ⟨hzero, rfl, rfl⟩
      · rw [if_neg hzero] at h
        obtain ⟨hneg, hctx⟩ := ite_none_left_eq_some.mp h
        exact .inr ⟨hzero, hneg, hctx⟩

/-- The bytes of a header, with the response that they describe so far. -/
structure HeaderOf (header : Bytes) (word : UInt64) (marker acceptedVal : UInt8) (rsp : RespMsg)
    (dataSize : Int32) : Prop where
  bytes : header = putRespHeader marker rsp acceptedVal dataSize ++ putU64 word
  crc : crc32_8 (putRespHeader marker rsp acceptedVal dataSize) 0 = crcOf word
  accepted : rsp.accepted = (acceptedVal == 1)
  extraFlags : rsp.extraFlags = if has (flagsOf word) Flag.markDown then selfMarkDown else 0
  bare : rsp.bare = rsp

variable {header : Bytes} {word : UInt64} {marker acceptedVal : UInt8} {rsp : RespMsg}
  {dataSize : Int32}

theorem HeaderOf.frame (hh : HeaderOf header word marker acceptedVal rsp 0) :
    ∃ f : RespFrame, f.Describes rsp ∧ header = f.header rsp ∧ f.dataSize = 0 ∧
      f.flags = flagsOf word ∧ f.metaStr = [] := by
  let f : RespFrame := ⟨marker, acceptedVal, 0, flagsOf word, crcOf word, [], 0, 0, [], []⟩
  have hparts : ∀ mask, has f.parts mask = false := by
    intro mask
    rw [parts, if_pos rfl]
    simp [has]
  have hdata : f.data rsp = [] := by
    simp [data, metaPart, hintPart, codePart, hparts, f]
  refine ⟨f, ⟨hh.accepted, hh.extraFlags, fun _ => rfl, ?_, ?_, fun _ => ?_, hh.crc, ?_⟩, ?_, rfl,
    rfl, rfl⟩
  · rw [hparts, ← hh.bare]
    exact ⟨rfl, rfl⟩
  · rw [← hh.bare]
    rfl
  · rw [← hh.bare]
    rfl
  · rw [hdata]
    rfl
  · rw [hh.bytes, RespFrame.header, flagsAndCrc_of]

theorem HeaderOf.frame_of_ctxRead {rsp' : RespMsg}
    (hh : HeaderOf header word marker acceptedVal rsp' dataSize) {o : ClientOpts} {req : ReqMsg}
    {m m' : Option Bytes} {read : ReadResult dataSize.toNatClampNeg} (hzero : dataSize ≠ 0)
    (hneg : ¬ dataSize < 0)
    (h : o.ctxRead req rsp' (flagsOf word) m read = some (.delivered rsp m')) :
    ∃ f : RespFrame, f.Describes rsp ∧ header = f.header rsp ∧ f.dataSize = dataSize ∧
      f.flags = flagsOf word ∧ read.data = f.data rsp ∧
      (has (flagsOf word) Flag.includeMeta = false → f.metaStr = []) ∧
      m' = if has (flagsOf word) Flag.includeMeta then o.shown f.metaStr else m := by
  have hint : (dataSize.toNatClampNeg : Int) = dataSize.toInt := by
    rw [Int32.lt_iff_toInt_lt, Int32.toInt_zero, Int.not_lt] at hneg
    rw [← Int32.toNat_toInt]
    omega
  have hn : dataSize.toNatClampNeg ≠ 0 := by
    intro h
    rw [h] at hint
    exact hzero (Int32.toInt_inj.mp hint.symm)
  obtain ⟨metaStr, version, len, ctx, pad, hdata, hhint, hnoCode, hnoMeta, hm, hrsp⟩ :=
    ctxRead_eq_delivered hh.bare hn h
  let f : RespFrame :=
    ⟨marker, acceptedVal, dataSize, flagsOf word, crcOf word, metaStr, version, len, ctx, pad⟩
  have hparts : f.parts = flagsOf word := if_neg hzero
  have hdata' : read.data = f.data rsp := by
    rw [hdata, data, metaPart, hintPart, codePart, hparts]
  -- the data changes none of the fields of the header
  have hputs : putRespHeader marker rsp' acceptedVal dataSize =
      putRespHeader marker rsp acceptedVal dataSize := by
    rw [hrsp]
    rfl
  have hbytes := hh.bytes
  have hcrc := hh.crc
  rw [hputs] at hbytes hcrc
  refine ⟨f, ⟨?_, ?_, ?_, ?_, ?_, ?_, hcrc, ?_⟩, ?_, rfl, rfl, hdata', hnoMeta, hm⟩
  · rw [hrsp]
    exact hh.accepted
  · rw [hrsp]
    exact hh.extraFlags
  · rwa [hparts]
  · rwa [hparts]
  · rw [hrsp]
  · rwa [hparts]
  · rw [← hdata', read.size]
    exact hint.symm
  · rw [hbytes, RespFrame.header, flagsAndCrc_of]

/-- Whatever the client delivers is in the bytes that it read: the header, whose checksum is right,
and the data. -/
theorem delivered_frame {o : ClientOpts} {req : ReqMsg} {header : ReadResult respHeaderSize}
    {m : Option Bytes} (h : o.responseRead req header carried = .delivered rsp m) :
    header.failed = false ∧ ∃ f : RespFrame, f.Describes rsp ∧ header.data = f.header rsp ∧
      (f.dataSize ≠ 0 → (carried f.dataSize.toNatClampNeg).data = f.data rsp) ∧
      m = f.shownTo o := by
  unfold ClientOpts.responseRead at h
  split at h
  · cases h
  · rename_i hok
    refine ⟨by simpa using hok, ?_⟩
    have hsome : o.headerRead req header.data carried = some (.delivered rsp m) := by
      cases hread : o.headerRead req header.data carried with
      | none =>
        cases hread ▸ h
      | some c =>
        rw [hread] at h
        exact congrArg some h
    obtain ⟨word, rsp', dataSize, hword, hcrc, hrsp, hrest⟩ := headerRead_eq_delivered hsome
    obtain ⟨marker, acceptedVal, hheader, haccepted, hbare, hflags⟩ :=
      header_eq header.size hword hrsp
    rw [hheader, take_left' (length_putRespHeader ..)] at hcrc
    have hh : HeaderOf header.data word marker acceptedVal (markedDown rsp' (flagsOf word))
        dataSize := by
      obtain ⟨haccepted', hflags', hbare', hputs⟩ := markedDown_fields rsp' (flagsOf word)
      rw [haccepted] at haccepted'
      rw [hflags] at hflags'
      rw [← hputs] at hheader hcrc
      exact ⟨hheader, hcrc, haccepted', hflags', hbare' hbare⟩
    rcases hrest with ⟨rfl, rfl, rfl⟩ | ⟨hzero, hneg, hctx⟩
    · obtain ⟨f, hd, hf, hsize, hfl, hmeta⟩ := hh.frame
      refine ⟨f, hd, hf, fun hne => absurd hsize hne, ?_⟩
      simp [shownTo, hsize, hfl, hmeta]
    · obtain ⟨f, hd, hf, hsize, hfl, hdata, hnoMeta, hm⟩ := hh.frame_of_ctxRead hzero hneg hctx
      refine ⟨f, hd, hf, fun _ => ?_, ?_⟩
      · rwa [hsize]
      · rw [hm]
        cases hflag : has (flagsOf word) Flag.includeMeta
        · simp [shownTo, hfl, hflag, hnoMeta hflag]
        · simp [shownTo, hsize, hzero]

end Backward

/-! ## The round trip -/

theorem has_respFlagIf : ∀ a b c d : Bool,
    let flags := flagIf a Flag.includeMeta ||| flagIf b Flag.includeHint |||
      flagIf c Flag.markDown ||| flagIf d Flag.includeResultCode
    has flags Flag.includeMeta = a ∧ has flags Flag.includeHint = b ∧
      has flags Flag.markDown = c ∧ has flags Flag.includeResultCode = d := by decide

namespace RespOpts

variable (o : RespOpts) (req : ReqMsg) (resp : RespMsg)

/-- The response as the client gets it: the one flag that travels, and the result code if the
request is of a kind that has one. -/
def received : RespMsg :=
  { resp with
    resultCode := if carriesResultCode req.type then resp.resultCode else 0
    extraFlags := resp.extraFlags &&& selfMarkDown }

def frame : RespFrame :=
  { marker := 0x1
    acceptedVal := if resp.accepted then 1 else 0
    dataSize := Int32.ofNat (o.carried req resp).length
    flags := o.flags req resp
    crc := crc32_8 (putRespHeader 0x1 resp (if resp.accepted then 1 else 0)
      (Int32.ofNat (o.carried req resp).length)) 0
    metaStr := o.metaStr req resp
    hintVersion := 0
    hintLen := 8
    ctx := resp.ctx.getD []
    pad := [] }

variable {o req resp}

theorem has_parts (hlen : (o.carried req resp).length < 2 ^ 31) :
    has (o.frame req resp).parts Flag.includeMeta = (o.metaStr req resp != []) ∧
      has (o.frame req resp).parts Flag.includeHint = (resp.nextBatchSizeHintInBytes != 0) ∧
      has (o.frame req resp).parts Flag.includeResultCode = carriesResultCode req.type := by
  have hzero : (o.frame req resp).dataSize = 0 ↔ o.carried req resp = [] := by
    have hint : (o.frame req resp).dataSize.toInt = (o.carried req resp).length :=
      Int32.toInt_ofNat_of_lt hlen
    rw [← Int32.toInt_inj, hint]
    simp
  by_cases hnil : o.carried req resp = []
  · rw [parts, if_pos (hzero.mpr hnil)]
    simp only [carried, append_eq_nil_iff] at hnil
    obtain ⟨⟨⟨hmeta, hhint⟩, -⟩, hcode⟩ := hnil
    refine ⟨?_, ?_, ?_⟩
    · by_cases h : o.metaStr req resp = []
      · rw [h]
        rfl
      · rw [if_neg h] at hmeta
        have := congrArg length hmeta
        simp at this
    · by_cases h : resp.nextBatchSizeHintInBytes = 0
      · rw [h]
        rfl
      · rw [if_neg h] at hhint
        have := congrArg length hhint
        simp [length_putHint] at this
    · cases h : carriesResultCode req.type
      · rfl
      · rw [h, if_pos rfl] at hcode
        have := congrArg length hcode
        simp at this
  · rw [parts, if_neg (fun h => hnil (hzero.mp h))]
    obtain ⟨hmeta, hhint, -, hcode⟩ := has_respFlagIf (o.metaStr req resp != [])
      (resp.nextBatchSizeHintInBytes != 0) (resp.extraFlags &&& selfMarkDown != 0)
      (carriesResultCode req.type)
    exact ⟨hmeta, hhint, hcode⟩

theorem data_frame (hlen : (o.carried req resp).length < 2 ^ 31) :
    (o.frame req resp).data (received req resp) = o.carried req resp := by
  obtain ⟨hmeta, hhint, hcode⟩ := has_parts hlen
  have hmetaPart : (o.frame req resp).metaPart =
      if o.metaStr req resp = [] then [] else putBytes (o.metaStr req resp) := by
    rw [metaPart, hmeta]
    by_cases h : o.metaStr req resp = [] <;> simp [h, frame]
  have hhintPart : (o.frame req resp).hintPart (received req resp) =
      if resp.nextBatchSizeHintInBytes = 0 then []
      else putHint 0 8 resp.nextBatchSizeHintInBytes := by
    rw [hintPart, hhint]
    by_cases h : resp.nextBatchSizeHintInBytes = 0 <;> simp [h, received, frame]
  have hcodePart : (o.frame req resp).codePart (received req resp) =
      if carriesResultCode req.type then putI32 resp.resultCode else [] := by
    rw [codePart, hcode]
    cases h : carriesResultCode req.type <;> simp [h, received]
  rw [data, hmetaPart, hhintPart, hcodePart, carried]
  simp [frame]

theorem length_metaStr_lt (hlen : (o.carried req resp).length < 2 ^ 31) :
    (o.metaStr req resp).length < 2 ^ 32 := by
  by_cases h : o.metaStr req resp = []
  · simp [h]
  · simp only [carried, if_neg h, length_append, length_putBytes] at hlen
    omega

theorem frame_describes (hctx : resp.ctx ≠ some []) (hlen : (o.carried req resp).length < 2 ^ 31) :
    (o.frame req resp).Describes (received req resp) := by
  obtain ⟨hmeta, hhint, hcode⟩ := has_parts hlen
  constructor
  case accepted => cases h : resp.accepted <;> simp [received, frame, h]
  case extraFlags =>
    have hdown : has (o.frame req resp).flags Flag.markDown =
        (resp.extraFlags &&& selfMarkDown != 0) := (has_respFlagIf _ _ _ _).2.2.1
    rw [hdown]
    exact (SendOpts.extraFlags_received resp.extraFlags).symm
  case noMeta =>
    rw [hmeta]
    intro h
    have hnil : o.metaStr req resp = [] := by simpa using h
    exact hnil
  case hint =>
    rw [hhint]
    by_cases h : resp.nextBatchSizeHintInBytes = 0 <;> simp [h, received, frame]
  case ctx =>
    cases h : resp.ctx with
    | none => simp [received, frame, h]
    | some ctx =>
      have hne : ctx ≠ [] := by
        intro hnil
        exact hctx (by rw [h, hnil])
      simp [received, frame, h, hne]
  case noCode =>
    rw [hcode]
    intro h
    simp [received, h]
  case crc => rfl
  case dataSize =>
    rw [data_frame hlen]
    exact Int32.toInt_ofNat_of_lt hlen

end RespOpts

theorem response_round_trip (o : ClientOpts) (req : ReqMsg) {srv : RespOpts} {srvReq : ReqMsg}
    {resp : RespMsg} {bytes : Bytes} (hctx : resp.ctx ≠ some [])
    (hbytes : srv.onRespReady srvReq resp = some bytes) {header : ReadResult respHeaderSize}
    (hok : header.failed = false)
    (hread : header.data ++ (carried (bytes.length - respHeaderSize)).data = bytes) :
    o.responseRead req header carried =
      if o.accepts req ((srv.frame srvReq resp).asked (RespOpts.received srvReq resp))
          (o.shown (srv.metaStr srvReq resp)) then
        .delivered (RespOpts.received srvReq resp) (o.shown (srv.metaStr srvReq resp))
      else .exception (.metaRefused (srv.metaStr srvReq resp)) := by
  unfold RespOpts.onRespReady at hbytes
  split at hbytes
  · rename_i hfits
    have hlen : (srv.carried srvReq resp).length < 2 ^ 31 := by
      omega
    have hd := RespOpts.frame_describes hctx hlen
    have hframe : bytes = (srv.frame srvReq resp).header (RespOpts.received srvReq resp) ++
        srv.carried srvReq resp := by
      cases hbytes
      rfl
    have hheaderLen : ((srv.frame srvReq resp).header (RespOpts.received srvReq resp)).length =
        respHeaderSize := by
      simp [RespFrame.header, length_putRespHeader, respHeaderSize]
    have hsplit := append_inj (hread.trans hframe) (header.size.trans hheaderLen.symm)
    have hsize : (srv.frame srvReq resp).dataSize.toNatClampNeg =
        bytes.length - respHeaderSize := by
      rw [hframe, length_append, hheaderLen, Nat.add_sub_cancel_left]
      exact Int32.toNatClampNeg_ofNat_of_lt hlen
    refine responseRead_frame o req hd (RespOpts.length_metaStr_lt hlen) ?_ header hok hsplit.1
      carried ?_
    · intro hzero
      have hparts := (RespOpts.has_parts hlen).1
      have hflags := (has_respFlagIf (srv.metaStr srvReq resp != [])
        (resp.nextBatchSizeHintInBytes != 0) (resp.extraFlags &&& selfMarkDown != 0)
        (carriesResultCode srvReq.type)).1
      rw [parts, if_pos hzero] at hparts
      exact hflags.trans hparts.symm
    · intro _
      rw [RespOpts.data_frame hlen, hsize]
      exact hsplit.2
  · cases hbytes

/-- What the client makes of the bytes of a response, and of any bytes. When both reads complete,
the response is delivered as it was sent, with the result code if the request is of a kind that
has one; only the callback for the meta string can refuse it. And a response is delivered only if
the header was read, with a checksum that is right, and if it is the one that the header and the
data describe, where the data was read. -/
theorem response_delivery (o : ClientOpts) (req : ReqMsg) :
    (∀ (srv : RespOpts) (srvReq : ReqMsg) (resp : RespMsg) (bytes : Bytes), resp.ctx ≠ some [] →
      srv.onRespReady srvReq resp = some bytes →
      ∀ (header : ReadResult respHeaderSize) (carried : (n : Nat) → ReadResult n),
        header.failed = false → (carried (bytes.length - respHeaderSize)).failed = false →
        header.data ++ (carried (bytes.length - respHeaderSize)).data = bytes →
        o.responseRead req header carried =
          if o.accepts req ((srv.frame srvReq resp).asked (RespOpts.received srvReq resp))
              (o.shown (srv.metaStr srvReq resp)) then
            .delivered (RespOpts.received srvReq resp) (o.shown (srv.metaStr srvReq resp))
          else .exception (.metaRefused (srv.metaStr srvReq resp))) ∧
    ∀ (header : ReadResult respHeaderSize) (carried : (n : Nat) → ReadResult n) (rsp : RespMsg)
      (m : Option Bytes), o.responseRead req header carried = .delivered rsp m →
        header.failed = false ∧ ∃ f : RespFrame, f.Describes rsp ∧ header.data = f.header rsp ∧
          m = f.shownTo o ∧
          (f.dataSize ≠ 0 → (carried f.dataSize.toNatClampNeg).failed = false →
            (carried f.dataSize.toNatClampNeg).data = f.data rsp) := by
  refine ⟨?_, ?_⟩
  · intro srv srvReq resp bytes hctx hbytes header carried hok _ hread
    exact response_round_trip o req hctx hbytes hok hread
  · intro header carried rsp m hdelivered
    obtain ⟨hok, f, hd, hheader, hdata, hm⟩ := delivered_frame hdelivered
    exact ⟨hok, f, hd, hheader, hm, fun hsize _ => hdata hsize⟩

/-- A read of `n` bytes that got some of them. The buffer is empty at first. -/
def ReadResult.ofBytes (failed : Bool) (bs : Bytes) (n : Nat) : ReadResult n :=
  ⟨failed, (bs ++ List.replicate n 0).take n, by simp⟩

def reqOfType (t : MsgType) : ReqMsg :=
  { term := 3, type := t, src := 1, dst := 2, lastLogTerm := 3, lastLogIdx := 9, commitIdx := 9 }

def sampleResp : RespMsg :=
  { term := 3
    type := ⟨4⟩
    src := 2
    dst := 1
    nextIdx := 10
    accepted := true
    ctx := some [1, 2, 3]
    resultCode := -3
    extraFlags := 1 }

/-- The bytes of the sample response to a request of the given type. -/
def sampleBytes (t : MsgType) : Bytes :=
  (RespOpts.onRespReady {} (reqOfType t) sampleResp).getD []

/-- The response to an append request loses its result code. And when the read of the data fails,
before any of it arrived, the client delivers what the empty buffer says. -/
theorem result_code_lost_and_failed_read_delivered :
    ClientOpts.responseRead {} (reqOfType .appendEntriesRequest)
        (.ofBytes false (sampleBytes .appendEntriesRequest) respHeaderSize)
        (.ofBytes false ((sampleBytes .appendEntriesRequest).drop respHeaderSize)) =
      .delivered { sampleResp with resultCode := 0 } none ∧
    ClientOpts.responseRead {} (reqOfType .clientRequest)
        (.ofBytes false (sampleBytes .clientRequest) respHeaderSize) (.ofBytes true []) =
      .delivered { sampleResp with ctx := some [0, 0, 0], resultCode := 0 } none := by
  decide +kernel

theorem sampleResp_delivered : ClientOpts.responseRead {} (reqOfType .clientRequest)
        (.ofBytes false (sampleBytes .clientRequest) respHeaderSize)
        (.ofBytes false ((sampleBytes .clientRequest).drop respHeaderSize)) =
      .delivered sampleResp none := by
  have hctx : sampleResp.ctx ≠ some [] := by decide
  have hbytes : RespOpts.onRespReady {} (reqOfType .clientRequest) sampleResp =
      some (sampleBytes .clientRequest) := rfl
  exact (response_delivery {} (reqOfType .clientRequest)).1 {} _ _ _ hctx hbytes _ _ rfl rfl
    (by decide +kernel)

end Rpc
end Xio
