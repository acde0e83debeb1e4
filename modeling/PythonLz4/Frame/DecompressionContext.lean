import PythonLz4.Block.DecodeBlock
import PythonLz4.Lib.ByteMemory
import PythonLz4.Frame.Header

/-!
# `LZ4F_decompress`

The decompression context of `lz4frame.c` with all the fields the library keeps in it, and
`LZ4F_decompress` as a machine over its stages. A case of the `switch` that falls through is an
iteration that goes on in the stage it has set.

Three things are left open by the source. The bytes of a new buffer are not specified: the model
keeps the old ones. A destination that a call has left behind (it was freed, or moved) keeps its
bytes in `DictPtr.elsewhere`, and no later address is equal to one of its own. The decoder may
write beyond the bytes it returns, inside the room it was given: nothing reads them. The option
`stableDst` is set by no caller, and `skipChecksums` neither.
-/

set_option autoImplicit false

namespace PythonLz4.Frame.DecompressionContext

open PythonLz4.Lib.HistoryWindow
open PythonLz4.Lib.LittleEndian
open PythonLz4.Lib.ByteMemory
open PythonLz4.Block.DecompressGeneric
open PythonLz4.Frame.XXHash
open PythonLz4.Frame.Header

/-! ## The context -/

inductive dStage where
  | getFrameHeader
  | storeFrameHeader
  | init
  | getBlockHeader
  | storeBlockHeader
  | copyDirect
  | getBlockChecksum
  | getCBlock
  | storeCBlock
  | flushOut
  | getSuffix
  | storeSuffix
  | getSFrameSize
  | storeSFrameSize
  | skipSkippable
  deriving DecidableEq, Repr

/-- `dctx->dict`: `NULL`, the start of `tmpOutBuffer`, an offset in the destination of the running
call, or the bytes in a destination of an earlier call. -/
inductive DictPtr where
  | null
  | tmpOutBuffer
  | dst (offset : Nat)
  | elsewhere (bytes : List UInt8)
  deriving DecidableEq, Repr

/-- `LZ4F_dctx`. `tmpOut` is an offset in `tmpOutBuffer`; the two hash states are the bytes hashed
so far. -/
structure LZ4F_dctx where
  frameInfo : LZ4F_frameInfo
  dStage : dStage
  frameRemainingSize : Nat
  maxBlockSize : Nat
  maxBufferSize : Nat
  tmpIn : Memory
  tmpInSize : Nat
  tmpInTarget : Nat
  tmpOutBuffer : Memory
  dict : DictPtr
  dictSize : Nat
  tmpOut : Nat
  tmpOutSize : Nat
  tmpOutStart : Nat
  xxh : List UInt8
  blockChecksum : List UInt8
  skipChecksum : Bool
  header : Memory

/-- `LZ4F_createDecompressionContext`: everything is zero. -/
def LZ4F_createDecompressionContext : LZ4F_dctx where
  frameInfo := LZ4F_INIT_FRAMEINFO
  dStage := .getFrameHeader
  frameRemainingSize := 0
  maxBlockSize := 0
  maxBufferSize := 0
  tmpIn := fun _ => 0
  tmpInSize := 0
  tmpInTarget := 0
  tmpOutBuffer := fun _ => 0
  dict := .null
  dictSize := 0
  tmpOut := 0
  tmpOutSize := 0
  tmpOutStart := 0
  xxh := []
  blockChecksum := []
  skipChecksum := false
  header := fun _ => 0

def LZ4F_resetDecompressionContext (dctx : LZ4F_dctx) : LZ4F_dctx :=
  { dctx with dStage := .getFrameHeader, dict := .null, dictSize := 0, skipChecksum := false }

/-! ## The history of linked blocks -/

/-- The bytes `[dict, dict + dictSize)`, with `dst` the bytes written by the running call. -/
def LZ4F_dctx.dictBytes (dctx : LZ4F_dctx) (dst : List UInt8) : List UInt8 :=
  match dctx.dict with
  | .null => []
  | .tmpOutBuffer => load dctx.tmpOutBuffer 0 dctx.dictSize
  | .dst offset => (dst.drop offset).take dctx.dictSize
  | .elsewhere bytes => bytes

/-- "dict + dictSize == dstPtr". -/
def LZ4F_dctx.dictEndsAt (dctx : LZ4F_dctx) (dst : List UInt8) : Bool :=
  match dctx.dict with
  | .dst offset => decide (offset + dctx.dictSize = dst.length)
  | _ => false

/-- The part of the history that is moved in front of the block in `tmpOut`. -/
def LZ4F_dctx.copySize (dctx : LZ4F_dctx) : Nat :=
  min (if KB64 < dctx.tmpOutSize then 0 else KB64 - dctx.tmpOutSize) dctx.tmpOut

/-- "copy relevant dict portion in front of tmpOut within tmpOutBuffer". -/
def LZ4F_dctx.dictBeforeTmpOut (dctx : LZ4F_dctx) (dst : List UInt8) : Memory :=
  store dctx.tmpOutBuffer (dctx.tmpOut - dctx.copySize)
    (window dctx.copySize ((dctx.dictBytes dst).take (dctx.dictSize - dctx.tmpOutStart)))

/-- `LZ4F_updateDict` for the `piece` written behind `dst`. -/
def LZ4F_updateDict (dctx : LZ4F_dctx) (dst piece : List UInt8) (withinTmp : Bool) : LZ4F_dctx :=
  let dstSize := piece.length
  let dctx := if dctx.dictSize = 0 then { dctx with dict := .dst dst.length } else dctx
  if dctx.dictEndsAt dst then
    -- prefix mode, everything within dstBuffer
    { dctx with dictSize := dctx.dictSize + dstSize }
  else if KB64 ≤ dst.length + dstSize then
    -- history in dstBuffer becomes large enough to become dictionary
    { dctx with dict := .dst 0, dictSize := dst.length + dstSize }
  else if withinTmp ∧ dctx.dict = .tmpOutBuffer then
    -- continue history within tmpOutBuffer
    { dctx with dictSize := dctx.dictSize + dstSize }
  else if withinTmp then
    { dctx with
      tmpOutBuffer := dctx.dictBeforeTmpOut dst
      dict := .tmpOutBuffer
      dictSize := dctx.tmpOut + dctx.tmpOutStart + dstSize }
  else if dctx.dict = .tmpOutBuffer then
    -- copy dst into tmp to complete dict
    let dctx :=
      if dctx.maxBufferSize < dctx.dictSize + dstSize then
        { dctx with
          tmpOutBuffer :=
            store dctx.tmpOutBuffer 0 (window (KB64 - dstSize) (dctx.dictBytes dst))
          dictSize := KB64 - dstSize }
      else dctx
    { dctx with
      tmpOutBuffer := store dctx.tmpOutBuffer dctx.dictSize piece
      dictSize := dctx.dictSize + dstSize }
  else
    -- join dict & dest into tmp
    let preserveSize := min (KB64 - dstSize) dctx.dictSize
    { dctx with
      tmpOutBuffer :=
        store (store dctx.tmpOutBuffer 0 (window preserveSize (dctx.dictBytes dst)))
          preserveSize piece
      dict := .tmpOutBuffer
      dictSize := preserveSize + dstSize }

/-! ## The frame header -/

/-- `LZ4F_decodeHeader`; `fromHeader` is the comparison `src == dctx->header`. -/
def LZ4F_decodeHeader (dctx : LZ4F_dctx) (src : List UInt8) (fromHeader : Bool) :
    LZ4F_dctx × Except LZ4F_errorCode Nat :=
  if src.length < minFHSize then (dctx, .error .ERROR_frameHeader_incomplete)
  else
    let dctx := { dctx with frameInfo := LZ4F_INIT_FRAMEINFO }
    match readFrameHeader src with
    | .error e => (dctx, .error e)
    | .ok .skippable =>
      let frameInfo := { dctx.frameInfo with frameType := .skippableFrame }
      if fromHeader then
        ({ dctx with
            frameInfo, tmpInSize := src.length, tmpInTarget := 8, dStage := .storeSFrameSize },
          .ok src.length)
      else ({ dctx with frameInfo, dStage := .getSFrameSize }, .ok 4)
    | .ok (.incomplete frameHeaderSize) =>
      -- not enough input to fully decode frame header
      ({ dctx with
          header := if fromHeader then dctx.header else store dctx.header 0 src
          tmpInSize := src.length
          tmpInTarget := frameHeaderSize
          dStage := .storeFrameHeader },
        .ok src.length)
    | .ok (.complete frameHeaderSize frameInfo contentSizeFlag) =>
      ({ dctx with
          frameInfo
          maxBlockSize := LZ4F_getBlockSize frameInfo.blockSizeID
          frameRemainingSize :=
            if contentSizeFlag then frameInfo.contentSize else dctx.frameRemainingSize
          dStage := .init },
        .ok frameHeaderSize)

/-! ## The stages -/

/-- The local state of `LZ4F_decompress`: the context, the input from `srcPtr` on and the bytes
from `dstStart` to `dstPtr`. -/
structure Call where
  dctx : LZ4F_dctx
  src : List UInt8
  dst : List UInt8

/-- How an iteration ends: the next one starts, `doAnotherStage` is 0 with a hint for the next
`srcSize`, or an error is returned. -/
inductive Iteration (σ : Type) where
  | again (c : σ)
  | stop (c : σ) (nextSrcSizeHint : Nat)
  | fail (c : σ) (error : LZ4F_errorCode)

section Stages

variable (fastLoop : Bool) (dstCapacity : Option Nat)

/-- `dstEnd - dstPtr`. -/
def room (c : Call) : Nat := dstCapacity.getD 0 - c.dst.length

def dstage_getFrameHeader (c : Call) : Iteration Call :=
  if maxFHSize ≤ c.src.length then
    -- enough to decode: shortcut
    match LZ4F_decodeHeader c.dctx c.src false with
    | (dctx, .error e) => .fail { c with dctx } e
    | (dctx, .ok hSize) => .again { c with dctx, src := c.src.drop hSize }
  else if c.src.length = 0 then .stop { c with dctx := { c.dctx with tmpInSize := 0 } } minFHSize
  else
    .again { c with
      dctx := { c.dctx with tmpInSize := 0, tmpInTarget := minFHSize, dStage := .storeFrameHeader } }

def dstage_storeFrameHeader (c : Call) : Iteration Call :=
  let sizeToCopy := min (sizeSub c.dctx.tmpInTarget c.dctx.tmpInSize) c.src.length
  let dctx : LZ4F_dctx := { c.dctx with
    header := store c.dctx.header c.dctx.tmpInSize (c.src.take sizeToCopy)
    tmpInSize := c.dctx.tmpInSize + sizeToCopy }
  let src := c.src.drop sizeToCopy
  if dctx.tmpInSize < dctx.tmpInTarget then
    -- not enough src data, ask for some more
    .stop { c with dctx, src } (dctx.tmpInTarget - dctx.tmpInSize + BHSize)
  else
    match LZ4F_decodeHeader dctx (load dctx.header 0 dctx.tmpInTarget) true with
    | (dctx, .error e) => .fail { c with dctx, src } e
    | (dctx, .ok _) => .again { c with dctx, src }

def dstage_init (c : Call) : Iteration Call :=
  let dctx := c.dctx
  let bufferNeeded :=
    dctx.maxBlockSize + if dctx.frameInfo.blockMode = .blockLinked then 128 * 1024 else 0
  .again { c with
    dctx := { dctx with
      xxh := if dctx.frameInfo.contentChecksumFlag then [] else dctx.xxh
      maxBufferSize :=
        if dctx.maxBufferSize < bufferNeeded then bufferNeeded else dctx.maxBufferSize
      tmpInSize := 0
      tmpInTarget := 0
      tmpOut := 0
      tmpOutStart := 0
      tmpOutSize := 0
      dStage := .getBlockHeader } }

/-- The end of `dstage_getBlockHeader` and `dstage_storeBlockHeader`: decode the block header. -/
def decodeBlockHeader (c : Call) (selectedIn : List UInt8) : Iteration Call :=
  let dctx := c.dctx
  let blockHeader := leNat (selectedIn.take 4)
  let nextCBlockSize := blockHeader % 0x80000000
  let crcSize := if dctx.frameInfo.blockChecksumFlag then BFSize else 0
  if blockHeader = 0 then
    -- frameEnd signal, no more block
    .again { c with dctx := { dctx with dStage := .getSuffix } }
  else if dctx.maxBlockSize < nextCBlockSize then .fail c .ERROR_maxBlockSize_invalid
  else if LZ4F_BLOCKUNCOMPRESSED_FLAG ≤ blockHeader then
    -- next block is uncompressed
    .again { c with
      dctx := { dctx with
        tmpInTarget := nextCBlockSize
        blockChecksum := if dctx.frameInfo.blockChecksumFlag then [] else dctx.blockChecksum
        dStage := .copyDirect } }
  else
    let c : Call := { c with
      dctx := { dctx with tmpInTarget := nextCBlockSize + crcSize, dStage := .getCBlock } }
    if room dstCapacity c = 0 ∨ c.src = [] then .stop c (BHSize + nextCBlockSize + crcSize)
    else .again c

def dstage_getBlockHeader (c : Call) : Iteration Call :=
  if BHSize ≤ c.src.length then
    decodeBlockHeader dstCapacity { c with src := c.src.drop BHSize } (c.src.take BHSize)
  else .again { c with dctx := { c.dctx with tmpInSize := 0, dStage := .storeBlockHeader } }

def dstage_storeBlockHeader (c : Call) : Iteration Call :=
  let sizeToCopy := min (sizeSub BHSize c.dctx.tmpInSize) c.src.length
  let dctx : LZ4F_dctx := { c.dctx with
    tmpIn := store c.dctx.tmpIn c.dctx.tmpInSize (c.src.take sizeToCopy)
    tmpInSize := c.dctx.tmpInSize + sizeToCopy }
  let c : Call := { c with dctx, src := c.src.drop sizeToCopy }
  if dctx.tmpInSize < BHSize then .stop c (BHSize - dctx.tmpInSize)
  else decodeBlockHeader dstCapacity c (load dctx.tmpIn 0 dctx.tmpInSize)

/-- The updates for decoded bytes other than those of the dictionary. -/
def LZ4F_dctx.account (dctx : LZ4F_dctx) (piece : List UInt8) : LZ4F_dctx :=
  { dctx with
    xxh :=
      if dctx.frameInfo.contentChecksumFlag ∧ dctx.skipChecksum = false then dctx.xxh ++ piece
      else dctx.xxh
    frameRemainingSize :=
      if dctx.frameInfo.contentSize ≠ 0 then sizeSub dctx.frameRemainingSize piece.length
      else dctx.frameRemainingSize }

/-- `LZ4F_updateDict` where the source calls it, for linked blocks only. -/
def LZ4F_dctx.updateDictIfLinked (dctx : LZ4F_dctx) (dst piece : List UInt8) (withinTmp : Bool) :
    LZ4F_dctx :=
  if dctx.frameInfo.blockMode = .blockLinked then LZ4F_updateDict dctx dst piece withinTmp else dctx

def dstage_copyDirect (c : Call) : Iteration Call :=
  let sizeToCopy :=
    if dstCapacity = none then 0
    else min c.dctx.tmpInTarget (min c.src.length (room dstCapacity c))
  let piece := c.src.take sizeToCopy
  let dctx :=
    if dstCapacity = none then c.dctx
    else
      ({ c.dctx with
          blockChecksum :=
            if c.dctx.skipChecksum = false ∧ c.dctx.frameInfo.blockChecksumFlag then
              c.dctx.blockChecksum ++ piece
            else c.dctx.blockChecksum }.account piece).updateDictIfLinked c.dst piece false
  let src := c.src.drop sizeToCopy
  let dst := c.dst ++ piece
  if sizeToCopy = dctx.tmpInTarget then
    -- all done
    if dctx.frameInfo.blockChecksumFlag then
      .again ⟨{ dctx with tmpInSize := 0, dStage := .getBlockChecksum }, src, dst⟩
    else .again ⟨{ dctx with dStage := .getBlockHeader }, src, dst⟩
  else
    let tmpInTarget := dctx.tmpInTarget - sizeToCopy
    .stop ⟨{ dctx with tmpInTarget }, src, dst⟩
      (tmpInTarget + (if dctx.frameInfo.blockChecksumFlag then BFSize else 0) + BHSize)

/-- The comparison at the end of `dstage_getBlockChecksum`. -/
def checkBlockChecksum (c : Call) (crcSrc : List UInt8) : Iteration Call :=
  if c.dctx.skipChecksum = false ∧
      leNat (crcSrc.take 4) ≠ XXH32_digest c.dctx.blockChecksum then
    .fail c .ERROR_blockChecksum_invalid
  else .again { c with dctx := { c.dctx with dStage := .getBlockHeader } }

def dstage_getBlockChecksum (c : Call) : Iteration Call :=
  if 4 ≤ c.src.length ∧ c.dctx.tmpInSize = 0 then
    checkBlockChecksum { c with src := c.src.drop 4 } (c.src.take 4)
  else
    let sizeToCopy := min (sizeSub 4 c.dctx.tmpInSize) c.src.length
    let dctx : LZ4F_dctx := { c.dctx with
      header := store c.dctx.header c.dctx.tmpInSize (c.src.take sizeToCopy)
      tmpInSize := c.dctx.tmpInSize + sizeToCopy }
    let c : Call := { c with dctx, src := c.src.drop sizeToCopy }
    if dctx.tmpInSize < 4 then .stop c 1
    else checkBlockChecksum c (load dctx.header 0 dctx.tmpInSize)

/-- "truncate dictionary to 64 KB if too big". -/
def LZ4F_dctx.truncateDict (dctx : LZ4F_dctx) (dst : List UInt8) : LZ4F_dctx :=
  if 128 * 1024 < dctx.dictSize then
    { dctx with
      tmpOutBuffer := store dctx.tmpOutBuffer 0 (window KB64 (dctx.dictBytes dst))
      dictSize := KB64 }
  else dctx

/-- "manage dictionary", before a block is decoded into `tmpOut`. -/
def LZ4F_dctx.placeTmpOut (dctx : LZ4F_dctx) (dst : List UInt8) : LZ4F_dctx :=
  if dctx.frameInfo.blockMode = .blockLinked then
    if dctx.dict = .tmpOutBuffer then
      let dctx := dctx.truncateDict dst
      { dctx with tmpOut := dctx.dictSize }
    else { dctx with tmpOut := min dctx.dictSize KB64 }
  else dctx

/-- The dictionary handed to the block decoder: its size is an `int`. -/
def LZ4F_dctx.decoderDict (dctx : LZ4F_dctx) (dst : List UInt8) : List UInt8 :=
  if 1024 * 1024 * 1024 < dctx.dictSize then window KB64 (dctx.dictBytes dst)
  else dctx.dictBytes dst

/-- "dict + dictSize == tmpOut". -/
def LZ4F_dctx.dictEndsAtTmpOut (dctx : LZ4F_dctx) : Bool :=
  decide (dctx.dict = .tmpOutBuffer ∧ dctx.dictSize = dctx.tmpOut)

/-- Decode a block directly into the destination. -/
def decodeIntoDst (c : Call) (selectedIn : List UInt8) : Iteration Call :=
  let dctx := c.dctx
  match LZ4_decompress_safe_usingDict fastLoop (selectedIn.take dctx.tmpInTarget) dctx.maxBlockSize
      (dctx.decoderDict c.dst) (dctx.dictEndsAt c.dst) with
  | .error _ => .fail c .ERROR_decompressionFailed
  | .ok decoded =>
    let dctx := (dctx.account decoded).updateDictIfLinked c.dst decoded false
    .again { c with dctx := { dctx with dStage := .getBlockHeader }, dst := c.dst ++ decoded }

/-- Decode a block into `tmpOut`. -/
def decodeIntoTmpOut (c : Call) (selectedIn : List UInt8) : Iteration Call :=
  let dctx := c.dctx.placeTmpOut c.dst
  match LZ4_decompress_safe_usingDict fastLoop (selectedIn.take dctx.tmpInTarget) dctx.maxBlockSize
      (dctx.decoderDict c.dst) dctx.dictEndsAtTmpOut with
  | .error _ => .fail { c with dctx } .ERROR_decompressionFailed
  | .ok decoded =>
    .again { c with
      dctx := { dctx.account decoded with
        tmpOutBuffer := store dctx.tmpOutBuffer dctx.tmpOut decoded
        tmpOutSize := decoded.length
        tmpOutStart := 0
        dStage := .flushOut } }

/-- The end of `dstage_getCBlock` and `dstage_storeCBlock`: input is large enough to decode a
block. -/
def decodeCBlock (c : Call) (selectedIn : List UInt8) : Iteration Call :=
  let dctx := c.dctx
  let tmpInTarget :=
    if dctx.frameInfo.blockChecksumFlag then sizeSub dctx.tmpInTarget 4 else dctx.tmpInTarget
  let c : Call := { c with dctx := { dctx with tmpInTarget } }
  if dctx.frameInfo.blockChecksumFlag ∧
      leNat ((selectedIn.drop tmpInTarget).take 4) ≠ XXH32_digest (selectedIn.take tmpInTarget) then
    .fail c .ERROR_blockChecksum_invalid
  else if dctx.maxBlockSize ≤ room dstCapacity c ∧ dctx.dictEndsAtTmpOut = false then
    decodeIntoDst fastLoop c selectedIn
  else decodeIntoTmpOut fastLoop c selectedIn

def dstage_getCBlock (c : Call) : Iteration Call :=
  if c.src.length < c.dctx.tmpInTarget then
    .again { c with dctx := { c.dctx with tmpInSize := 0, dStage := .storeCBlock } }
  else
    decodeCBlock fastLoop dstCapacity { c with src := c.src.drop c.dctx.tmpInTarget }
      (c.src.take c.dctx.tmpInTarget)

def dstage_storeCBlock (c : Call) : Iteration Call :=
  let sizeToCopy := min (sizeSub c.dctx.tmpInTarget c.dctx.tmpInSize) c.src.length
  let dctx : LZ4F_dctx := { c.dctx with
    tmpIn := store c.dctx.tmpIn c.dctx.tmpInSize (c.src.take sizeToCopy)
    tmpInSize := c.dctx.tmpInSize + sizeToCopy }
  let c : Call := { c with dctx, src := c.src.drop sizeToCopy }
  if dctx.tmpInSize < dctx.tmpInTarget then
    -- need more input
    .stop c (dctx.tmpInTarget - dctx.tmpInSize +
      (if dctx.frameInfo.blockChecksumFlag then BFSize else 0) + BHSize)
  else decodeCBlock fastLoop dstCapacity c (load dctx.tmpIn 0 dctx.tmpInSize)

def dstage_flushOut (c : Call) : Iteration Call :=
  let sizeToCopy :=
    if dstCapacity = none then 0
    else min (c.dctx.tmpOutSize - c.dctx.tmpOutStart) (room dstCapacity c)
  let piece := load c.dctx.tmpOutBuffer (c.dctx.tmpOut + c.dctx.tmpOutStart) sizeToCopy
  let dctx :=
    if dstCapacity = none then c.dctx
    else
      let dctx := c.dctx.updateDictIfLinked c.dst piece true
      { dctx with tmpOutStart := dctx.tmpOutStart + sizeToCopy }
  let dst := c.dst ++ piece
  if dctx.tmpOutStart = dctx.tmpOutSize then
    -- all flushed
    .again { c with dctx := { dctx with dStage := .getBlockHeader }, dst }
  else .stop { c with dctx, dst } BHSize

/-- "checkSuffix". -/
def checkSuffix (c : Call) (selectedIn : List UInt8) : Iteration Call :=
  if c.dctx.skipChecksum = false ∧
      leNat (selectedIn.take 4) ≠ XXH32_digest c.dctx.xxh then
    .fail c .ERROR_contentChecksum_invalid
  else .stop { c with dctx := LZ4F_resetDecompressionContext c.dctx } 0

def dstage_getSuffix (c : Call) : Iteration Call :=
  if c.dctx.frameRemainingSize ≠ 0 then .fail c .ERROR_frameSize_wrong
  else if c.dctx.frameInfo.contentChecksumFlag = false then
    -- no checksum, frame is completed
    .stop { c with dctx := LZ4F_resetDecompressionContext c.dctx } 0
  else if c.src.length < 4 then
    -- not enough size for entire CRC
    .again { c with dctx := { c.dctx with tmpInSize := 0, dStage := .storeSuffix } }
  else checkSuffix { c with src := c.src.drop 4 } (c.src.take 4)

def dstage_storeSuffix (c : Call) : Iteration Call :=
  let sizeToCopy := min (sizeSub 4 c.dctx.tmpInSize) c.src.length
  let dctx : LZ4F_dctx := { c.dctx with
    tmpIn := store c.dctx.tmpIn c.dctx.tmpInSize (c.src.take sizeToCopy)
    tmpInSize := c.dctx.tmpInSize + sizeToCopy }
  let c : Call := { c with dctx, src := c.src.drop sizeToCopy }
  if dctx.tmpInSize < 4 then .stop c (4 - dctx.tmpInSize)
  else checkSuffix c (load dctx.tmpIn 0 dctx.tmpInSize)

/-- "decodeSFrameSize". -/
def decodeSFrameSize (c : Call) (selectedIn : List UInt8) : Iteration Call :=
  let SFrameSize := leNat (selectedIn.take 4)
  .again { c with
    dctx := { c.dctx with
      frameInfo := { c.dctx.frameInfo with contentSize := SFrameSize }
      tmpInTarget := SFrameSize
      dStage := .skipSkippable } }

def dstage_getSFrameSize (c : Call) : Iteration Call :=
  if 4 ≤ c.src.length then decodeSFrameSize { c with src := c.src.drop 4 } (c.src.take 4)
  else
    .again { c with
      dctx := { c.dctx with tmpInSize := 4, tmpInTarget := 8, dStage := .storeSFrameSize } }

def dstage_storeSFrameSize (c : Call) : Iteration Call :=
  let sizeToCopy := min (sizeSub c.dctx.tmpInTarget c.dctx.tmpInSize) c.src.length
  let dctx : LZ4F_dctx := { c.dctx with
    header := store c.dctx.header c.dctx.tmpInSize (c.src.take sizeToCopy)
    tmpInSize := c.dctx.tmpInSize + sizeToCopy }
  let c : Call := { c with dctx, src := c.src.drop sizeToCopy }
  if dctx.tmpInSize < dctx.tmpInTarget then .stop c (dctx.tmpInTarget - dctx.tmpInSize)
  else decodeSFrameSize c (load dctx.header 4 (dctx.tmpInSize - 4))

def dstage_skipSkippable (c : Call) : Iteration Call :=
  let skipSize := min c.dctx.tmpInTarget c.src.length
  let dctx : LZ4F_dctx := { c.dctx with tmpInTarget := c.dctx.tmpInTarget - skipSize }
  let c : Call := { c with dctx, src := c.src.drop skipSize }
  if dctx.tmpInTarget ≠ 0 then .stop c dctx.tmpInTarget
  else .stop { c with dctx := LZ4F_resetDecompressionContext dctx } 0

/-- One iteration of "while (doAnotherStage)". -/
def iteration (c : Call) : Iteration Call :=
  match c.dctx.dStage with
  | .getFrameHeader => dstage_getFrameHeader c
  | .storeFrameHeader => dstage_storeFrameHeader c
  | .init => dstage_init c
  | .getBlockHeader => dstage_getBlockHeader dstCapacity c
  | .storeBlockHeader => dstage_storeBlockHeader dstCapacity c
  | .copyDirect => dstage_copyDirect dstCapacity c
  | .getBlockChecksum => dstage_getBlockChecksum c
  | .getCBlock => dstage_getCBlock fastLoop dstCapacity c
  | .storeCBlock => dstage_storeCBlock fastLoop dstCapacity c
  | .flushOut => dstage_flushOut dstCapacity c
  | .getSuffix => dstage_getSuffix c
  | .storeSuffix => dstage_storeSuffix c
  | .getSFrameSize => dstage_getSFrameSize c
  | .storeSFrameSize => dstage_storeSFrameSize c
  | .skipSkippable => dstage_skipSkippable c

end Stages

/-! ## The call -/

/-- Stages in which the next block refers to the history: `[init, getSuffix[`. -/
def dStage.usesHistory : dStage → Bool
  | .init | .getBlockHeader | .storeBlockHeader | .copyDirect | .getBlockChecksum | .getCBlock
  | .storeCBlock | .flushOut => true
  | _ => false

/-- "preserve history within tmpOut whenever necessary". -/
def preserveHistory (c : Call) : LZ4F_dctx :=
  let dctx := c.dctx
  if dctx.frameInfo.blockMode = .blockLinked ∧ dctx.dict ≠ .tmpOutBuffer ∧ dctx.dict ≠ .null ∧
      dctx.dStage.usesHistory then
    if dctx.dStage = .flushOut then
      { dctx with
        tmpOutBuffer := dctx.dictBeforeTmpOut c.dst
        dict := .tmpOutBuffer
        dictSize := dctx.tmpOut + dctx.tmpOutStart }
    else
      let newDictSize := min dctx.dictSize KB64
      { dctx with
        tmpOutBuffer := store dctx.tmpOutBuffer 0 (window newDictSize (dctx.dictBytes c.dst))
        dict := .tmpOutBuffer
        dictSize := newDictSize
        tmpOut := newDictSize }
  else dctx

/-- The context when the call has returned: a dictionary in the destination is elsewhere now. -/
def leaveDestination (dctx : LZ4F_dctx) (dst : List UInt8) : LZ4F_dctx :=
  match dctx.dict with
  | .dst _ => { dctx with dict := .elsewhere (dctx.dictBytes dst) }
  | _ => dctx

/-- What a successful call reports: bytes read, bytes written and the return value. -/
structure Progress where
  srcSize : Nat
  dst : List UInt8
  nextSrcSizeHint : Nat
  deriving DecidableEq, Repr

/-- The loop over the stages: `fuel` iterations at most. -/
def runStages {σ : Type} (step : σ → Iteration σ) : Nat → σ → Option (Iteration σ)
  | 0, _ => none
  | fuel + 1, c =>
    match step c with
    | .again c => runStages step fuel c
    | .stop c hint => some (.stop c hint)
    | .fail c e => some (.fail c e)

/-- Iterations that are enough for `n` bytes of input. -/
def stagesFuel (n : Nat) : Nat := 64 * n + 64

/-- `LZ4F_decompress`. -/
def LZ4F_decompress (fastLoop : Bool) (dctx : LZ4F_dctx) (dstCapacity : Option Nat)
    (src : List UInt8) : LZ4F_dctx × Except LZ4F_errorCode Progress :=
  match runStages (iteration fastLoop dstCapacity) (stagesFuel src.length) ⟨dctx, src, []⟩ with
  | some (.stop c hint) =>
    (leaveDestination (preserveHistory c) c.dst, .ok ⟨src.length - c.src.length, c.dst, hint⟩)
  | some (.fail c e) => (leaveDestination c.dctx c.dst, .error e)
  | _ => (dctx, .error .ERROR_GENERIC)

/-- `LZ4F_getFrameInfo`: the context, the descriptor and the bytes read. -/
def LZ4F_getFrameInfo (fastLoop : Bool) (dctx : LZ4F_dctx) (src : List UInt8) :
    LZ4F_dctx × Except LZ4F_errorCode (LZ4F_frameInfo × Nat) :=
  match dctx.dStage with
  | .getFrameHeader =>
    match LZ4F_headerSize src with
    | .error e => (dctx, .error e)
    | .ok hSize =>
      if src.length < hSize then (dctx, .error .ERROR_frameHeader_incomplete)
      else
        match LZ4F_decodeHeader dctx (src.take hSize) false with
        | (dctx, .error e) => (dctx, .error e)
        | (dctx, .ok n) => (dctx, .ok (dctx.frameInfo, n))
  | .storeFrameHeader => (dctx, .error .ERROR_frameDecoding_alreadyStarted)
  | _ =>
    -- frameInfo already decoded
    match LZ4F_decompress fastLoop dctx none [] with
    | (dctx', .error e) => (dctx', .error e)
    | (dctx', .ok _) => (dctx', .ok (dctx.frameInfo, 0))

end PythonLz4.Frame.DecompressionContext
