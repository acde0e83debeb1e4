import PythonLz4.Frame.DecompressionContext

/-!
# The decoder without its buffers

The state of a frame decoder as far as it matters for what it does next: the phase with the bytes
collected in it, the size still expected, and the last 64 KB of the content for linked blocks. Of
the buffers only three numbers are left. They decide whether a block is decoded into the destination
or into `tmpOut`, that is, whether its history lies in front of it.
`PythonLz4.Frame.DecoderRefinement` shows that `LZ4F_decompress` is an implementation.
-/

set_option autoImplicit false

namespace PythonLz4.Frame.AbstractDecoder

open PythonLz4.Lib.HistoryWindow
open PythonLz4.Lib.LittleEndian
open PythonLz4.Block.DecompressGeneric
open PythonLz4.Frame.XXHash
open PythonLz4.Frame.Header
open PythonLz4.Frame.DecompressionContext (Iteration runStages stagesFuel Progress)

/-! ## The history of a frame -/

/-- Where the dictionary lies. -/
inductive Site where
  | nowhere
  | tmpOutBuffer
  | dst
  | elsewhere
  deriving DecidableEq, Repr

/-- The last 64 KB of the content, and the numbers that decide where they are kept. -/
structure History where
  site : Site
  dictSize : Nat
  tmpOut : Nat
  bytes : List UInt8
  deriving DecidableEq, Repr

def History.empty : History := ⟨.nowhere, 0, 0, []⟩

/-- The window moves on. -/
def History.extend (h : History) (piece : List UInt8) : History :=
  { h with bytes := window KB64 (h.bytes ++ piece) }

/-- An empty dictionary starts at the destination. -/
def History.startSite (h : History) : Site := if h.dictSize = 0 then .dst else h.site

/-- The dictionary after `n` bytes were written behind the `dstLen` bytes of the destination. -/
def History.follow (h : History) (bufferSize dstLen n : Nat) : History :=
  if h.startSite = .dst then { h with site := .dst, dictSize := h.dictSize + n }
  else if KB64 ≤ dstLen + n then { h with site := .dst, dictSize := dstLen + n }
  else if h.startSite = .tmpOutBuffer then
    { h with dictSize := if bufferSize < h.dictSize + n then KB64 else h.dictSize + n }
  else { h with site := .tmpOutBuffer, dictSize := min (KB64 - n) h.dictSize + n }

/-- The dictionary after `n` more bytes of the block in `tmpOut` were flushed, `start` before. -/
def History.followFlush (h : History) (start dstLen n : Nat) : History :=
  if h.startSite = .dst then { h with site := .dst, dictSize := h.dictSize + n }
  else if KB64 ≤ dstLen + n then { h with site := .dst, dictSize := dstLen + n }
  else if h.startSite = .tmpOutBuffer then { h with dictSize := h.dictSize + n }
  else { h with site := .tmpOutBuffer, dictSize := h.tmpOut + start + n }

/-- The place of the next block in `tmpOutBuffer`. -/
def History.placeTmpOut (h : History) : History :=
  if h.site = .tmpOutBuffer then
    let dictSize := if 128 * 1024 < h.dictSize then KB64 else h.dictSize
    { h with dictSize, tmpOut := dictSize }
  else { h with tmpOut := min h.dictSize KB64 }

/-- The dictionary ends where a block in `tmpOut` starts. -/
def History.endsAtTmpOut (h : History) : Bool :=
  decide (h.site = .tmpOutBuffer ∧ h.dictSize = h.tmpOut)

/-- What the end of a call does to a dictionary in the destination; `flushed` is the part of the
block in `tmpOut` that was flushed. -/
def History.leave (h : History) (flushed : Option Nat) : History :=
  if h.site = .tmpOutBuffer ∨ h.site = .nowhere then h
  else
    match flushed with
    | some start => { h with site := .tmpOutBuffer, dictSize := h.tmpOut + start }
    | none =>
      { h with
        site := .tmpOutBuffer, dictSize := min h.dictSize KB64, tmpOut := min h.dictSize KB64 }

/-- What an error does to a dictionary in the destination. -/
def History.abandon (h : History) : History :=
  if h.site = .dst then { h with site := .elsewhere } else h

/-! ## The state -/

/-- What is fixed by the header and what has been decoded of a frame. -/
structure Body where
  frameInfo : LZ4F_frameInfo
  hashed : List UInt8
  history : History
  deriving DecidableEq, Repr

def Body.linked (b : Body) : Prop := b.frameInfo.blockMode = .blockLinked

instance (b : Body) : Decidable b.linked := inferInstanceAs (Decidable (_ = _))

def Body.maxBlockSize (b : Body) : Nat := LZ4F_getBlockSize b.frameInfo.blockSizeID

/-- The stages between the header of a data frame and its suffix. -/
inductive BlockPhase where
  | getBlockHeader
  | storeBlockHeader (got : List UInt8)
  | copyDirect (target : Nat) (summed : List UInt8)
  | getBlockChecksum (summed got : List UInt8)
  | getCBlock (target : Nat)
  | storeCBlock (target : Nat) (got : List UInt8)
  | flushOut (start : Nat) (pending : List UInt8)
  deriving DecidableEq, Repr

inductive Phase where
  | getFrameHeader
  | storeFrameHeader (target : Nat) (got : List UInt8)
  | init (frameInfo : LZ4F_frameInfo)
  | block (b : Body) (p : BlockPhase)
  | getSuffix (contentChecksumFlag : Bool) (hashed : List UInt8)
  | storeSuffix (hashed got : List UInt8)
  | getSFrameSize
  | storeSFrameSize (got : List UInt8)
  | skipSkippable (target : Nat)
  deriving DecidableEq, Repr

/-- `remaining` is the declared size that is still to come, also from a frame that was left; of
the size of the buffers only more than 192 KB is known. -/
structure Decoder where
  remaining : Nat
  bufferSize : Nat
  phase : Phase
  deriving DecidableEq, Repr

/-- The smallest buffer of a frame with linked blocks. -/
def minBufferSize : Nat := 192 * 1024

def Decoder.new : Decoder := ⟨0, minBufferSize, .getFrameHeader⟩

/-- A decoder in a running call: the input left and the output so far. -/
structure Run where
  decoder : Decoder
  src : List UInt8
  dst : List UInt8

/-- The call goes on in `phase`. -/
def Run.goTo (r : Run) (phase : Phase) : Run := { r with decoder := { r.decoder with phase } }

/-- `n` bytes of the input are read. -/
def Run.read (r : Run) (n : Nat) : Run := { r with src := r.src.drop n }

/-- The frame ends. -/
def Run.finish (r : Run) : Run := r.goTo .getFrameHeader

/-! ## The stages -/

/-- The frame header in `src` is decoded; `fromHeader` when it was collected over several calls. -/
def Run.header (r : Run) (src : List UInt8) (fromHeader : Bool) :
    Except LZ4F_errorCode Run :=
  if src.length < minFHSize then .error .ERROR_frameHeader_incomplete
  else
    match readFrameHeader src with
    | .error e => .error e
    | .ok .skippable =>
      if fromHeader then .ok (r.goTo (.storeSFrameSize (src.drop 4)))
      else .ok ((r.goTo .getSFrameSize).read 4)
    | .ok (.incomplete frameHeaderSize) =>
      let r' := r.goTo (.storeFrameHeader frameHeaderSize src)
      .ok (if fromHeader then r' else r'.read src.length)
    | .ok (.complete frameHeaderSize frameInfo contentSizeFlag) =>
      let remaining := if contentSizeFlag then frameInfo.contentSize else r.decoder.remaining
      let r' : Run := { r with decoder := { r.decoder with remaining, phase := .init frameInfo } }
      .ok (if fromHeader then r' else r'.read frameHeaderSize)

def Body.hash (b : Body) (piece : List UInt8) : Body :=
  { b with hashed := if b.frameInfo.contentChecksumFlag then b.hashed ++ piece else b.hashed }

/-- The declared size after `n` bytes of content. -/
def Body.remainingAfter (b : Body) (remaining n : Nat) : Nat :=
  if b.frameInfo.contentSize ≠ 0 then sizeSub remaining n else remaining

/-- `piece` was decoded into the destination. -/
def Body.write (b : Body) (bufferSize dstLen : Nat) (piece : List UInt8) : Body :=
  if b.linked then
    { b.hash piece with
      history := (b.history.extend piece).follow bufferSize dstLen piece.length }
  else b.hash piece

/-- `piece` was decoded into `tmpOut`. -/
def Body.writeTmpOut (b : Body) (piece : List UInt8) : Body :=
  if b.linked then { b.hash piece with history := b.history.extend piece } else b.hash piece

/-- `n` bytes were flushed from `tmpOut`. -/
def Body.flush (b : Body) (start dstLen n : Nat) : Body :=
  if b.linked then { b with history := b.history.followFlush start dstLen n } else b

section Stages

variable (fastLoop : Bool) (dstCapacity : Nat)

def Run.room (r : Run) : Nat := dstCapacity - r.dst.length

/-- `piece` of the content is written, with `b` and `phase` to go on. -/
def Run.emit (r : Run) (b : Body) (piece : List UInt8) (phase : BlockPhase) : Run where
  decoder :=
    { r.decoder with
      remaining := b.remainingAfter r.decoder.remaining piece.length
      phase := .block (b.write r.decoder.bufferSize r.dst.length piece) phase }
  src := r.src
  dst := r.dst ++ piece

/-- `piece` of the content is decoded into `tmpOut`. -/
def Run.stage (r : Run) (b : Body) (piece : List UInt8) : Run where
  decoder :=
    { r.decoder with
      remaining := b.remainingAfter r.decoder.remaining piece.length
      phase := .block (b.writeTmpOut piece) (.flushOut 0 piece) }
  src := r.src
  dst := r.dst

def getFrameHeader (r : Run) : Iteration Run :=
  if maxFHSize ≤ r.src.length then
    match r.header r.src false with
    | .error e => .fail r e
    | .ok r' => .again r'
  else if r.src.length = 0 then .stop r minFHSize
  else .again (r.goTo (.storeFrameHeader minFHSize []))

def storeFrameHeader (r : Run) (target : Nat) (got : List UInt8) : Iteration Run :=
  let n := min (sizeSub target got.length) r.src.length
  let got' := got ++ r.src.take n
  let r' := (r.goTo (.storeFrameHeader target got')).read n
  if got'.length < target then .stop r' (target - got'.length + BHSize)
  else
    match r'.header (got'.take target) true with
    | .error e => .fail r' e
    | .ok r'' => .again r''

def init (r : Run) (frameInfo : LZ4F_frameInfo) : Iteration Run :=
  let bufferNeeded :=
    LZ4F_getBlockSize frameInfo.blockSizeID +
      if frameInfo.blockMode = .blockLinked then 128 * 1024 else 0
  .again { r with
    decoder := { r.decoder with
      bufferSize := max r.decoder.bufferSize bufferNeeded
      phase := .block ⟨frameInfo, [], .empty⟩ .getBlockHeader } }

/-- `stored` is the phase in which an error leaves the decoder. -/
def blockHeader (r : Run) (b : Body) (stored : BlockPhase) (selectedIn : List UInt8) :
    Iteration Run :=
  let blockHeader := leNat (selectedIn.take 4)
  let nextCBlockSize := blockHeader % 0x80000000
  let crcSize := if b.frameInfo.blockChecksumFlag then BFSize else 0
  if blockHeader = 0 then .again (r.goTo (.getSuffix b.frameInfo.contentChecksumFlag b.hashed))
  else if b.maxBlockSize < nextCBlockSize then
    .fail (r.goTo (.block b stored)) .ERROR_maxBlockSize_invalid
  else if LZ4F_BLOCKUNCOMPRESSED_FLAG ≤ blockHeader then
    .again (r.goTo (.block b (.copyDirect nextCBlockSize [])))
  else
    let r' := r.goTo (.block b (.getCBlock (nextCBlockSize + crcSize)))
    if r.room dstCapacity = 0 ∨ r.src = [] then .stop r' (BHSize + nextCBlockSize + crcSize)
    else .again r'

def getBlockHeader (r : Run) (b : Body) : Iteration Run :=
  if BHSize ≤ r.src.length then
    blockHeader dstCapacity (r.read BHSize) b .getBlockHeader (r.src.take BHSize)
  else .again (r.goTo (.block b (.storeBlockHeader [])))

def storeBlockHeader (r : Run) (b : Body) (got : List UInt8) : Iteration Run :=
  let n := min (sizeSub BHSize got.length) r.src.length
  let got' := got ++ r.src.take n
  if got'.length < BHSize then
    .stop ((r.goTo (.block b (.storeBlockHeader got'))).read n) (BHSize - got'.length)
  else blockHeader dstCapacity (r.read n) b (.storeBlockHeader got') got'

def copyDirect (r : Run) (b : Body) (target : Nat) (summed : List UInt8) : Iteration Run :=
  let n := min target (min r.src.length (r.room dstCapacity))
  let piece := r.src.take n
  let summed' := if b.frameInfo.blockChecksumFlag then summed ++ piece else summed
  let r' := r.read n
  if n = target then
    if b.frameInfo.blockChecksumFlag then .again (r'.emit b piece (.getBlockChecksum summed' []))
    else .again (r'.emit b piece .getBlockHeader)
  else
    .stop (r'.emit b piece (.copyDirect (target - n) summed'))
      (target - n + (if b.frameInfo.blockChecksumFlag then BFSize else 0) + BHSize)

def checkBlockChecksum (r : Run) (b : Body) (summed got crcSrc : List UInt8) : Iteration Run :=
  if leNat (crcSrc.take 4) ≠ XXH32_digest summed then
    .fail (r.goTo (.block b (.getBlockChecksum summed got))) .ERROR_blockChecksum_invalid
  else .again (r.goTo (.block b .getBlockHeader))

def getBlockChecksum (r : Run) (b : Body) (summed got : List UInt8) : Iteration Run :=
  if 4 ≤ r.src.length ∧ got.length = 0 then
    checkBlockChecksum (r.read 4) b summed got (r.src.take 4)
  else
    let n := min (sizeSub 4 got.length) r.src.length
    let got' := got ++ r.src.take n
    if got'.length < 4 then
      .stop ((r.goTo (.block b (.getBlockChecksum summed got'))).read n) 1
    else checkBlockChecksum (r.read n) b summed got' got'

/-- The block in `selectedIn` is decoded into the destination. -/
def decodeIntoDst (r : Run) (b : Body) (stored : BlockPhase) (selectedIn : List UInt8) :
    Iteration Run :=
  match LZ4_decompress_safe_usingDict fastLoop selectedIn b.maxBlockSize b.history.bytes
      (decide (b.history.site = .dst)) with
  | .error _ => .fail (r.goTo (.block b stored)) .ERROR_decompressionFailed
  | .ok decoded => .again (r.emit b decoded .getBlockHeader)

/-- The block in `selectedIn` is decoded into `tmpOut`. -/
def decodeIntoTmpOut (r : Run) (b : Body) (stored : BlockPhase) (selectedIn : List UInt8) :
    Iteration Run :=
  let b := if b.linked then { b with history := b.history.placeTmpOut } else b
  match LZ4_decompress_safe_usingDict fastLoop selectedIn b.maxBlockSize b.history.bytes
      b.history.endsAtTmpOut with
  | .error _ => .fail (r.goTo (.block b stored)) .ERROR_decompressionFailed
  | .ok decoded => .again (r.stage b decoded)

/-- `stored` makes the phase in which an error leaves the decoder, with the target that is left. -/
def decodeCBlock (r : Run) (b : Body) (stored : Nat → BlockPhase) (target : Nat)
    (selectedIn : List UInt8) : Iteration Run :=
  let target' := if b.frameInfo.blockChecksumFlag then sizeSub target 4 else target
  if b.frameInfo.blockChecksumFlag ∧
      leNat ((selectedIn.drop target').take 4) ≠ XXH32_digest (selectedIn.take target') then
    .fail (r.goTo (.block b (stored target'))) .ERROR_blockChecksum_invalid
  else if b.maxBlockSize ≤ r.room dstCapacity ∧ b.history.endsAtTmpOut = false then
    decodeIntoDst fastLoop r b (stored target') (selectedIn.take target')
  else decodeIntoTmpOut fastLoop r b (stored target') (selectedIn.take target')

def getCBlock (r : Run) (b : Body) (target : Nat) : Iteration Run :=
  if r.src.length < target then .again (r.goTo (.block b (.storeCBlock target [])))
  else decodeCBlock fastLoop dstCapacity (r.read target) b .getCBlock target (r.src.take target)

def storeCBlock (r : Run) (b : Body) (target : Nat) (got : List UInt8) : Iteration Run :=
  let n := min (sizeSub target got.length) r.src.length
  let got' := got ++ r.src.take n
  if got'.length < target then
    .stop ((r.goTo (.block b (.storeCBlock target got'))).read n)
      (target - got'.length + (if b.frameInfo.blockChecksumFlag then BFSize else 0) + BHSize)
  else
    decodeCBlock fastLoop dstCapacity (r.read n) b (fun target' => .storeCBlock target' got')
      target got'

def flushOut (r : Run) (b : Body) (start : Nat) (pending : List UInt8) : Iteration Run :=
  let n := min pending.length (r.room dstCapacity)
  let b' := b.flush start r.dst.length n
  let r' : Run := { r with dst := r.dst ++ pending.take n }
  if n = pending.length then .again (r'.goTo (.block b' .getBlockHeader))
  else .stop (r'.goTo (.block b' (.flushOut (start + n) (pending.drop n)))) BHSize

end Stages

def checkSuffix (r : Run) (stored : Phase) (hashed selectedIn : List UInt8) : Iteration Run :=
  if leNat (selectedIn.take 4) ≠ XXH32_digest hashed then
    .fail (r.goTo stored) .ERROR_contentChecksum_invalid
  else .stop r.finish 0

def getSuffix (r : Run) (contentChecksumFlag : Bool) (hashed : List UInt8) : Iteration Run :=
  if r.decoder.remaining ≠ 0 then .fail r .ERROR_frameSize_wrong
  else if contentChecksumFlag = false then .stop r.finish 0
  else if r.src.length < 4 then .again (r.goTo (.storeSuffix hashed []))
  else checkSuffix (r.read 4) (.getSuffix contentChecksumFlag hashed) hashed (r.src.take 4)

def storeSuffix (r : Run) (hashed got : List UInt8) : Iteration Run :=
  let n := min (sizeSub 4 got.length) r.src.length
  let got' := got ++ r.src.take n
  if got'.length < 4 then .stop ((r.goTo (.storeSuffix hashed got')).read n) (4 - got'.length)
  else checkSuffix (r.read n) (.storeSuffix hashed got') hashed got'

def decodeSFrameSize (r : Run) (selectedIn : List UInt8) : Iteration Run :=
  .again (r.goTo (.skipSkippable (leNat (selectedIn.take 4))))

def getSFrameSize (r : Run) : Iteration Run :=
  if 4 ≤ r.src.length then decodeSFrameSize (r.read 4) (r.src.take 4)
  else .again (r.goTo (.storeSFrameSize []))

def storeSFrameSize (r : Run) (got : List UInt8) : Iteration Run :=
  let n := min (sizeSub 8 (4 + got.length)) r.src.length
  let got' := got ++ r.src.take n
  if 4 + got'.length < 8 then
    .stop ((r.goTo (.storeSFrameSize got')).read n) (8 - (4 + got'.length))
  else decodeSFrameSize (r.read n) got'

def skipSkippable (r : Run) (target : Nat) : Iteration Run :=
  let n := min target r.src.length
  if target - n ≠ 0 then .stop ((r.goTo (.skipSkippable (target - n))).read n) (target - n)
  else .stop (r.finish.read n) 0

/-- One iteration. -/
def step (fastLoop : Bool) (dstCapacity : Nat) (r : Run) : Iteration Run :=
  match r.decoder.phase with
  | .getFrameHeader => getFrameHeader r
  | .storeFrameHeader target got => storeFrameHeader r target got
  | .init frameInfo => init r frameInfo
  | .block b .getBlockHeader => getBlockHeader dstCapacity r b
  | .block b (.storeBlockHeader got) => storeBlockHeader dstCapacity r b got
  | .block b (.copyDirect target summed) => copyDirect dstCapacity r b target summed
  | .block b (.getBlockChecksum summed got) => getBlockChecksum r b summed got
  | .block b (.getCBlock target) => getCBlock fastLoop dstCapacity r b target
  | .block b (.storeCBlock target got) => storeCBlock fastLoop dstCapacity r b target got
  | .block b (.flushOut start pending) => flushOut dstCapacity r b start pending
  | .getSuffix contentChecksumFlag hashed => getSuffix r contentChecksumFlag hashed
  | .storeSuffix hashed got => storeSuffix r hashed got
  | .getSFrameSize => getSFrameSize r
  | .storeSFrameSize got => storeSFrameSize r got
  | .skipSkippable target => skipSkippable r target

/-! ## The call -/

/-- The history that is carried to the next call. -/
def Phase.leave : Phase → Phase
  | .block b (.flushOut start pending) =>
    .block { b with history := b.history.leave (some start) } (.flushOut start pending)
  | .block b p => .block { b with history := b.history.leave none } p
  | p => p

/-- The history that is left after an error. -/
def Phase.abandon : Phase → Phase
  | .block b p => .block { b with history := b.history.abandon } p
  | p => p

/-- `LZ4F_decompress` without the buffers. -/
def decompress (fastLoop : Bool) (d : Decoder) (dstCapacity : Nat) (src : List UInt8) :
    Decoder × Except LZ4F_errorCode Progress :=
  match runStages (step fastLoop dstCapacity) (stagesFuel src.length) ⟨d, src, []⟩ with
  | some (.stop r hint) =>
    ({ r.decoder with phase := r.decoder.phase.leave },
      .ok ⟨src.length - r.src.length, r.dst, hint⟩)
  | some (.fail r e) => ({ r.decoder with phase := r.decoder.phase.abandon }, .error e)
  | _ => (d, .error .ERROR_GENERIC)

/-- `LZ4F_resetDecompressionContext` without the buffers. -/
def Decoder.reset (d : Decoder) : Decoder := { d with phase := .getFrameHeader }

/-- `LZ4F_getFrameInfo` on a new decoder. -/
def getFrameInfo (d : Decoder) (src : List UInt8) :
    Except LZ4F_errorCode (Decoder × LZ4F_frameInfo × Nat) :=
  match LZ4F_headerSize src with
  | .error e => .error e
  | .ok hSize =>
    if src.length < hSize then .error .ERROR_frameHeader_incomplete
    else
      match Run.header ⟨d, src.take hSize, []⟩ (src.take hSize) false with
      | .error e => .error e
      | .ok r =>
        match r.decoder.phase with
        | .init frameInfo => .ok (r.decoder, frameInfo, hSize - r.src.length)
        | _ => .ok (r.decoder, LZ4F_INIT_FRAMEINFO, hSize - r.src.length)

end PythonLz4.Frame.AbstractDecoder
