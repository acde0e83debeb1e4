import PythonLz4.Frame.Header
import PythonLz4.Runtime
import PythonLz4.Stream.Continue

/-!
# The compression context of `lz4frame.c`

`LZ4F_compressBegin`, `LZ4F_compressUpdate`, `LZ4F_flush` and `LZ4F_compressEnd` on a context with
all the fields the library keeps in it. Addresses and memory are those of
`PythonLz4.Stream.Continue`; pointers and sizes have 64 bits.

The encoders are parameters. What an encoder finds depends on its hash table, so on everything the
context has compressed before: `encode n` is the encoder at the block number `n` of the context, and
an empty block stands for the result 0. No dictionary is attached, and `LZ4F_uncompressedUpdate` is
called by nobody, so `blockCompression` stays `LZ4B_COMPRESSED`. What an allocation returns is up to
the `Heap` of the call.
-/

set_option autoImplicit false

namespace PythonLz4.Frame.CompressionContext

open PythonLz4.Runtime
open PythonLz4.Lib.HistoryWindow
open PythonLz4.Lib.LittleEndian
open PythonLz4.Lib.ByteMemory
open PythonLz4.Block.DecompressGeneric
open PythonLz4.Stream.Continue
open PythonLz4.Frame.XXHash
open PythonLz4.Frame.Header

/-! ## Preferences and bounds -/

structure LZ4F_preferences_t where
  frameInfo : LZ4F_frameInfo
  compressionLevel : Int
  autoFlush : Bool
  deriving DecidableEq, Repr

def LZ4F_BLOCKSIZEID_DEFAULT : Nat := 4

/-- `LZ4HC_CLEVEL_MIN`. -/
def LZ4HC_CLEVEL_MIN : Int := 3

/-- An `unsigned`. -/
def toU32 (n : Nat) : Nat := n % 2 ^ 32

/-- The largest `size_t`, "(size_t)-1". -/
def SIZE_MAX : Nat := SIZE_T - 1

def LZ4F_compressBound_internal (srcSize : Nat) (preferences : LZ4F_preferences_t)
    (alreadyBuffered : Nat) : Nat :=
  let flush := preferences.autoFlush ∨ srcSize = 0
  let blockSize := LZ4F_getBlockSize preferences.frameInfo.blockSizeID
  let maxBuffered := blockSize - 1
  let bufferedSize := min alreadyBuffered maxBuffered
  let maxSrcSize := (srcSize + bufferedSize) % SIZE_T
  let nbFullBlocks := toU32 (maxSrcSize / blockSize)
  let partialBlockSize := maxSrcSize &&& (blockSize - 1)
  let lastBlockSize := if flush then partialBlockSize else 0
  let nbBlocks := toU32 (nbFullBlocks + if 0 < lastBlockSize then 1 else 0)
  let blockCRCSize := if preferences.frameInfo.blockChecksumFlag then BFSize else 0
  let frameEnd := BHSize + if preferences.frameInfo.contentChecksumFlag then BFSize else 0
  ((BHSize + blockCRCSize) * nbBlocks + blockSize * nbFullBlocks + lastBlockSize + frameEnd) %
    SIZE_T

def LZ4F_compressFrameBound (srcSize : Nat) (preferences : LZ4F_preferences_t) : Nat :=
  let headerSize := maxFHSize
  (headerSize + LZ4F_compressBound_internal srcSize { preferences with autoFlush := true } 0) %
    SIZE_T

def LZ4F_compressBound (srcSize : Nat) (preferences : LZ4F_preferences_t) : Nat :=
  if preferences.autoFlush then LZ4F_compressBound_internal srcSize preferences 0
  else LZ4F_compressBound_internal srcSize preferences SIZE_MAX

/-! ## The LZ4 stream inside the context -/

/-- `tableType_t`; `byPtr` is for 32-bit pointers. -/
inductive tableType_t where
  | clearedTable
  | byU32
  | byU16
  deriving DecidableEq, Repr

/-- `*lz4CtxPtr`. One piece of memory holds either stream: a switch to the other one initialises it.
-/
structure LZ4F_lz4Ctx where
  stream : LZ4_stream_t
  tableType : tableType_t
  streamHC : LZ4_streamHC_t
  dirty : Bool
  deriving DecidableEq, Repr

/-- `LZ4_initStream`. -/
def LZ4F_lz4Ctx.initStream (ctx : LZ4F_lz4Ctx) : LZ4F_lz4Ctx :=
  { ctx with stream := LZ4_createStream, tableType := .clearedTable }

/-- `LZ4_initStreamHC`. -/
def LZ4F_lz4Ctx.initStreamHC (ctx : LZ4F_lz4Ctx) : LZ4F_lz4Ctx :=
  { ctx with streamHC := LZ4_createStreamHC, dirty := false }

def LZ4_prepareTable (ctx : LZ4F_lz4Ctx) (inputSize : Nat) (tableType : tableType_t) :
    LZ4F_lz4Ctx :=
  let reset :=
    ctx.tableType ≠ .clearedTable ∧
      (ctx.tableType ≠ tableType ∨
        (tableType = .byU16 ∧ 0xFFFF ≤ ctx.stream.currentOffset + inputSize) ∨
        (tableType = .byU32 ∧ KB * KB * KB < ctx.stream.currentOffset) ∨
        4 * KB ≤ inputSize)
  let currentOffset := if reset then 0 else ctx.stream.currentOffset
  -- adding a gap, so all previous entries are too far back
  let currentOffset :=
    if currentOffset ≠ 0 ∧ tableType = .byU32 then currentOffset + KB64 else currentOffset
  { ctx with
    tableType := if reset then .clearedTable else ctx.tableType
    stream := ⟨0, 0, currentOffset⟩ }

def LZ4_resetStream_fast (ctx : LZ4F_lz4Ctx) : LZ4F_lz4Ctx := LZ4_prepareTable ctx 0 .byU32

def LZ4_64Klimit : Nat := KB64 + (12 - 1)

/-- `LZ4_compress_fast_extState_fastReset` for a block that is not empty. -/
def LZ4_compress_fast_extState_fastReset (encode : Encoder) (mem : Memory) (ctx : LZ4F_lz4Ctx)
    (src srcSize dstCapacity : Nat) (acceleration : Int) : List UInt8 × LZ4F_lz4Ctx :=
  let tableType := if srcSize < LZ4_64Klimit then tableType_t.byU16 else .byU32
  let ctx := LZ4_prepareTable ctx srcSize tableType
  (encode [] (load mem src srcSize) dstCapacity acceleration,
    { ctx with stream := LZ4_compress_generic ctx.stream srcSize, tableType })

def LZ4_resetStreamHC_fast (ctx : LZ4F_lz4Ctx) : LZ4F_lz4Ctx :=
  if ctx.dirty then ctx.initStreamHC
  else
    -- preserve end - prefixStart : can trigger clearTable's threshold
    { ctx with
      streamHC := { ctx.streamHC with
        bufEnd :=
          if ctx.streamHC.bufEnd ≠ 0 then ctx.streamHC.bufEnd - ctx.streamHC.prefixStart else 0
        prefixStart := 0 } }

def LZ4_compress_HC_extStateHC_fastReset (encode : Encoder) (mem : Memory) (ctx : LZ4F_lz4Ctx)
    (src srcSize dstCapacity : Nat) (compressionLevel : Int) : List UInt8 × LZ4F_lz4Ctx :=
  let ctx := LZ4_resetStreamHC_fast ctx
  let streamHC := LZ4HC_init_internal ctx.streamHC src
  let block := encode [] (load mem src srcSize) dstCapacity compressionLevel
  (block,
    { ctx with
      streamHC := { streamHC with bufEnd := src + srcSize }
      dirty := ctx.dirty || block.isEmpty })

/-- A pointer moved by `n`. -/
def ptrAdd (p : Nat) (n : Int) : Nat := (((p : Int) + n) % SIZE_T).toNat

def LZ4_saveDict (mem : Memory) (dict : LZ4_stream_t) (safeBuffer dictSize : Nat) :
    Memory × LZ4_stream_t × Int :=
  let dictSize := if KB64 < dictSize then KB64 else dictSize
  let dictSize := if dict.dictSize < dictSize then dict.dictSize else dictSize
  let previousDictEnd := dict.dictionary + dict.dictSize
  (store mem safeBuffer (load mem (previousDictEnd - dictSize) dictSize),
    { dict with dictionary := safeBuffer, dictSize }, dictSize)

/-- The size of the prefix is converted to an `int`, which goes wrong from `2 ^ 31` on. -/
def LZ4_saveDictHC (mem : Memory) (stream : LZ4_streamHC_t) (safeBuffer : Nat) (dictSize : Int) :
    Memory × LZ4_streamHC_t × Int :=
  let prefixSize := Int.bmod ((stream.bufEnd : Int) - stream.prefixStart) (2 ^ 32)
  let dictSize := if KB64 < dictSize then (KB64 : Int) else dictSize
  let dictSize := if dictSize < 4 then 0 else dictSize
  let dictSize := if prefixSize < dictSize then prefixSize else dictSize
  let endIndex := toU32 (stream.bufEnd - stream.prefixStart + stream.dictLimit)
  let limit := (((endIndex : Int) - dictSize) % 2 ^ 32).toNat
  (if 0 < dictSize then
      store mem safeBuffer (load mem (stream.bufEnd - dictSize.toNat) dictSize.toNat)
    else mem,
    { bufEnd := ptrAdd safeBuffer dictSize
      prefixStart := safeBuffer
      dictStart := safeBuffer
      dictLimit := limit
      lowLimit := limit },
    dictSize)

/-! ## The context -/

/-- `LZ4F_cctx`, with the memory the library works in. `xxh` are the bytes hashed so far and
`blocks` counts the blocks the context has compressed. -/
structure LZ4F_cctx where
  prefs : LZ4F_preferences_t
  cStage : Nat
  maxBlockSize : Nat
  maxBufferSize : Nat
  tmpBuff : Nat
  tmpIn : Nat
  tmpInSize : Nat
  totalInSize : Nat
  xxh : List UInt8
  lz4Ctx : LZ4F_lz4Ctx
  lz4CtxAlloc : Nat
  lz4CtxState : Nat
  mem : Memory
  blocks : Nat

def LZ4F_INIT_PREFERENCES : LZ4F_preferences_t := ⟨LZ4F_INIT_FRAMEINFO, 0, false⟩

/-- `LZ4F_createCompressionContext`: everything is zero. -/
def LZ4F_createCompressionContext (mem : Memory) : LZ4F_cctx where
  prefs := LZ4F_INIT_PREFERENCES
  cStage := 0
  maxBlockSize := 0
  maxBufferSize := 0
  tmpBuff := 0
  tmpIn := 0
  tmpInSize := 0
  totalInSize := 0
  xxh := []
  lz4Ctx := ⟨LZ4_createStream, .clearedTable, LZ4_createStreamHC, false⟩
  lz4CtxAlloc := 0
  lz4CtxState := 0
  mem
  blocks := 0

/-- What the allocator answers during a call. -/
structure Heap where
  malloc : Nat → Bool
  calloc : Nat → Option Nat

/-- The allocator has what is asked for. -/
def Heap.Provides (heap : Heap) : Prop :=
  (∀ n, heap.malloc n = true) ∧ ∀ n, (heap.calloc n).isSome

/-- New objects lie within the address space, and not at `NULL`. -/
def Heap.Sane (heap : Heap) : Prop :=
  ∀ n p, heap.calloc n = some p → 0 < p ∧ p + n ≤ ADDRESS_SPACE

/-- `LZ4F_initStream` for linked blocks, at the beginning of a frame. -/
def LZ4F_initStream (ctx : LZ4F_lz4Ctx) (level : Int) : LZ4F_lz4Ctx :=
  if level < LZ4HC_CLEVEL_MIN then LZ4_resetStream_fast ctx else LZ4_resetStreamHC_fast ctx

/-- `LZ4F_localSaveDict`: save history (up to 64KB) into `tmpBuff`. -/
def LZ4F_localSaveDict (cctx : LZ4F_cctx) : LZ4F_cctx × Int :=
  if cctx.prefs.compressionLevel < LZ4HC_CLEVEL_MIN then
    let r := LZ4_saveDict cctx.mem cctx.lz4Ctx.stream cctx.tmpBuff KB64
    ({ cctx with mem := r.1, lz4Ctx := { cctx.lz4Ctx with stream := r.2.1 } }, r.2.2)
  else
    let r := LZ4_saveDictHC cctx.mem cctx.lz4Ctx.streamHC cctx.tmpBuff KB64
    ({ cctx with mem := r.1, lz4Ctx := { cctx.lz4Ctx with streamHC := r.2.1 } }, r.2.2)

/-- The history is saved and `tmpIn` follows it. -/
def LZ4F_cctx.rewind (cctx : LZ4F_cctx) : LZ4F_cctx :=
  let r := LZ4F_localSaveDict cctx
  { r.1 with tmpIn := ptrAdd r.1.tmpBuff r.2 }

/-! ## `LZ4F_compressBegin` -/

def ctxTypeID_to_size (ctxTypeID : Nat) : Nat :=
  match ctxTypeID with
  | 1 => 16416
  | 2 => 262200
  | _ => 0

/-- "cctx Management". -/
def manageCtx (heap : Heap) (cctx : LZ4F_cctx) : LZ4F_cctx × Option LZ4F_errorCode :=
  let fast := cctx.prefs.compressionLevel < LZ4HC_CLEVEL_MIN
  let ctxTypeID := if fast then 1 else 2
  let requiredSize := ctxTypeID_to_size ctxTypeID
  let allocatedSize := ctxTypeID_to_size cctx.lz4CtxAlloc
  let lz4Ctx := if fast then cctx.lz4Ctx.initStream else cctx.lz4Ctx.initStreamHC
  if allocatedSize < requiredSize then
    -- not enough space allocated
    if heap.malloc requiredSize then
      ({ cctx with lz4Ctx, lz4CtxAlloc := ctxTypeID, lz4CtxState := ctxTypeID }, none)
    else (cctx, some .ERROR_allocation_failed)
  else if cctx.lz4CtxState ≠ ctxTypeID then
    ({ cctx with lz4Ctx, lz4CtxState := ctxTypeID }, none)
  else (cctx, none)

def requiredBuffSize (preferences : LZ4F_preferences_t) (maxBlockSize : Nat) : Nat :=
  if preferences.autoFlush then
    -- only needs past data up to window size
    if preferences.frameInfo.blockMode = .blockLinked then KB64 else 0
  else
    (maxBlockSize + if preferences.frameInfo.blockMode = .blockLinked then 128 * KB else 0) %
      SIZE_T

/-- "Buffer Management". -/
def manageBuffer (heap : Heap) (cctx : LZ4F_cctx) : LZ4F_cctx × Option LZ4F_errorCode :=
  let required := requiredBuffSize cctx.prefs cctx.maxBlockSize
  if cctx.maxBufferSize < required then
    match heap.calloc required with
    | none =>
      ({ cctx with maxBufferSize := 0, tmpBuff := 0 }, some .ERROR_allocation_failed)
    | some tmpBuff =>
      ({ cctx with
          tmpBuff
          maxBufferSize := required
          mem := clobber cctx.mem tmpBuff required fun _ => 0 },
        none)
  else (cctx, none)

/-- The FLG byte. -/
def flagByteOf (frameInfo : LZ4F_frameInfo) : Nat :=
  64 + (if frameInfo.blockMode = .blockIndependent then 32 else 0) +
    (if frameInfo.blockChecksumFlag then 16 else 0) +
    (if 0 < frameInfo.contentSize then 8 else 0) +
    (if frameInfo.contentChecksumFlag then 4 else 0) +
    (if 0 < frameInfo.dictID then 1 else 0)

/-- The bytes from FLG to the optional fields. -/
def frameDescriptor (frameInfo : LZ4F_frameInfo) : List UInt8 :=
  UInt8.ofNat (flagByteOf frameInfo) :: UInt8.ofNat (frameInfo.blockSizeID % 8 * 16) ::
    ((if frameInfo.contentSize ≠ 0 then leBytes 8 frameInfo.contentSize else []) ++
      (if frameInfo.dictID ≠ 0 then leBytes 4 frameInfo.dictID else []))

/-- The frame header. -/
def frameHeader (frameInfo : LZ4F_frameInfo) : List UInt8 :=
  leBytes 4 LZ4F_MAGICNUMBER ++ frameDescriptor frameInfo ++
    [LZ4F_headerChecksum (frameDescriptor frameInfo)]

/-- The fields a new frame sets once its buffers are there. -/
def LZ4F_cctx.openFrame (cctx : LZ4F_cctx) : LZ4F_cctx :=
  { cctx with
    tmpIn := cctx.tmpBuff
    tmpInSize := 0
    xxh := []
    lz4Ctx :=
      if cctx.prefs.frameInfo.blockMode = .blockLinked then
        LZ4F_initStream cctx.lz4Ctx cctx.prefs.compressionLevel
      else cctx.lz4Ctx
    totalInSize := if cctx.prefs.frameInfo.contentSize ≠ 0 then 0 else cctx.totalInSize
    cStage := 1 }

def LZ4F_compressBegin (heap : Heap) (cctx : LZ4F_cctx) (dstCapacity : Nat)
    (preferences : LZ4F_preferences_t) : LZ4F_cctx × Except LZ4F_errorCode (List UInt8) :=
  if dstCapacity < maxFHSize then (cctx, .error .ERROR_dstMaxSize_tooSmall)
  else
    match manageCtx heap { cctx with prefs := preferences } with
    | (cctx, some e) => (cctx, .error e)
    | (cctx, none) =>
      let blockSizeID :=
        if cctx.prefs.frameInfo.blockSizeID = 0 then LZ4F_BLOCKSIZEID_DEFAULT
        else cctx.prefs.frameInfo.blockSizeID
      let prefs : LZ4F_preferences_t :=
        { cctx.prefs with frameInfo := { cctx.prefs.frameInfo with blockSizeID } }
      match manageBuffer heap
          { cctx with prefs, maxBlockSize := LZ4F_getBlockSize blockSizeID } with
      | (cctx, some e) => (cctx, .error e)
      | (cctx, none) => (cctx.openFrame, .ok (frameHeader cctx.prefs.frameInfo))

/-! ## Blocks -/

section Blocks

variable (encode : Nat → Encoder)

/-- The acceleration of a level below `LZ4HC_CLEVEL_MIN`. -/
def accelerationOf (level : Int) : Int := if level < 0 then -level + 1 else 1

def LZ4F_compressBlock (cctx : LZ4F_cctx) (src srcSize dstCapacity : Nat) :
    List UInt8 × LZ4F_lz4Ctx :=
  LZ4_compress_fast_extState_fastReset (encode cctx.blocks) cctx.mem cctx.lz4Ctx src srcSize
    dstCapacity (accelerationOf cctx.prefs.compressionLevel)

def LZ4F_compressBlock_continue (cctx : LZ4F_cctx) (src srcSize dstCapacity : Nat) :
    List UInt8 × LZ4F_lz4Ctx :=
  let r := LZ4_compress_fast_continue (encode cctx.blocks) cctx.mem cctx.lz4Ctx.stream src srcSize
    dstCapacity (accelerationOf cctx.prefs.compressionLevel)
  (r.1, { cctx.lz4Ctx with stream := r.2, tableType := .byU32 })

def LZ4F_compressBlockHC (cctx : LZ4F_cctx) (src srcSize dstCapacity : Nat) :
    List UInt8 × LZ4F_lz4Ctx :=
  LZ4_compress_HC_extStateHC_fastReset (encode cctx.blocks) cctx.mem
    (LZ4_resetStreamHC_fast cctx.lz4Ctx) src srcSize dstCapacity cctx.prefs.compressionLevel

def LZ4F_compressBlockHC_continue (cctx : LZ4F_cctx) (src srcSize dstCapacity : Nat) :
    List UInt8 × LZ4F_lz4Ctx :=
  let r := LZ4_compress_HC_continue (encode cctx.blocks) cctx.mem cctx.lz4Ctx.streamHC src srcSize
    dstCapacity cctx.prefs.compressionLevel
  (r.1, { cctx.lz4Ctx with streamHC := r.2, dirty := cctx.lz4Ctx.dirty || r.1.isEmpty })

/-- The call of the function that `LZ4F_selectCompression` returns. -/
def LZ4F_selectCompression (cctx : LZ4F_cctx) (src srcSize dstCapacity : Nat) :
    List UInt8 × LZ4F_lz4Ctx :=
  if cctx.prefs.compressionLevel < LZ4HC_CLEVEL_MIN then
    if cctx.prefs.frameInfo.blockMode = .blockIndependent then
      LZ4F_compressBlock encode cctx src srcSize dstCapacity
    else LZ4F_compressBlock_continue encode cctx src srcSize dstCapacity
  else if cctx.prefs.frameInfo.blockMode = .blockIndependent then
    LZ4F_compressBlockHC encode cctx src srcSize dstCapacity
  else LZ4F_compressBlockHC_continue encode cctx src srcSize dstCapacity

/-- The block header and the data of a block whose compression gave `compressed`. -/
def blockBytes (compressed source : List UInt8) : List UInt8 × List UInt8 :=
  if compressed.length = 0 ∨ source.length ≤ compressed.length then
    (leBytes 4 (toU32 source.length ||| LZ4F_BLOCKUNCOMPRESSED_FLAG), source)
  else (leBytes 4 compressed.length, compressed)

/-- The bytes `LZ4F_makeBlock` writes. -/
def encodeBlock (crcFlag : Bool) (compressed source : List UInt8) : List UInt8 :=
  let b := blockBytes compressed source
  b.1 ++ b.2 ++ if crcFlag then checksumBytes b.2 else []

def LZ4F_makeBlock (cctx : LZ4F_cctx) (src srcSize : Nat) : List UInt8 × LZ4F_cctx :=
  let r := LZ4F_selectCompression encode cctx src srcSize (srcSize - 1)
  (encodeBlock cctx.prefs.frameInfo.blockChecksumFlag r.1 (load cctx.mem src srcSize),
    { cctx with lz4Ctx := r.2, blocks := cctx.blocks + 1 })

/-! ## `LZ4F_flush` -/

/-- "keep tmpIn within limits". -/
def LZ4F_cctx.keepWithinLimits (cctx : LZ4F_cctx) : LZ4F_cctx :=
  if ptrAdd cctx.tmpBuff cctx.maxBufferSize < ptrAdd cctx.tmpIn cctx.maxBlockSize then cctx.rewind
  else cctx

/-- A block of `size` bytes has been taken out of the buffer. -/
def LZ4F_cctx.takeTmp (cctx : LZ4F_cctx) (size : Nat) : LZ4F_cctx :=
  { cctx with
    tmpIn :=
      if cctx.prefs.frameInfo.blockMode = .blockLinked then ptrAdd cctx.tmpIn size else cctx.tmpIn
    tmpInSize := 0 }

def LZ4F_flush (cctx : LZ4F_cctx) (dstCapacity : Nat) :
    LZ4F_cctx × Except LZ4F_errorCode (List UInt8) :=
  if cctx.tmpInSize = 0 then (cctx, .ok [])
  else if cctx.cStage ≠ 1 then (cctx, .error .ERROR_compressionState_uninitialized)
  else if dstCapacity < cctx.tmpInSize + BHSize + BFSize then
    (cctx, .error .ERROR_dstMaxSize_tooSmall)
  else
    let r := LZ4F_makeBlock encode cctx cctx.tmpIn cctx.tmpInSize
    ((r.2.takeTmp cctx.tmpInSize).keepWithinLimits, .ok r.1)

/-! ## `LZ4F_compressUpdate` -/

/-- `LZ4F_lastBlockStatus`. -/
inductive LZ4F_lastBlockStatus where
  | notDone
  | fromTmpBuffer
  | fromSrcBuffer
  deriving DecidableEq, Repr

/-- The local state of `LZ4F_compressUpdate`: `srcSize` bytes are left from `srcPtr` on, and `dst`
are the bytes written. -/
structure Update where
  cctx : LZ4F_cctx
  srcPtr : Nat
  srcSize : Nat
  dst : List UInt8
  lastBlockCompressed : LZ4F_lastBlockStatus

/-- "complete tmp buffer". -/
def Update.completeTmp (u : Update) : Update :=
  let cctx := u.cctx
  if cctx.tmpInSize = 0 then u
  else
    let sizeToCopy := sizeSub cctx.maxBlockSize cctx.tmpInSize
    if u.srcSize < sizeToCopy then
      -- add src to tmpIn buffer
      { u with
        cctx := { cctx with
          mem := store cctx.mem (ptrAdd cctx.tmpIn cctx.tmpInSize) (load cctx.mem u.srcPtr u.srcSize)
          tmpInSize := cctx.tmpInSize + u.srcSize }
        srcPtr := u.srcPtr + u.srcSize
        srcSize := 0 }
    else
      -- complete tmpIn block and then compress it
      let cctx := { cctx with
        mem := store cctx.mem (ptrAdd cctx.tmpIn cctx.tmpInSize) (load cctx.mem u.srcPtr sizeToCopy) }
      let r := LZ4F_makeBlock encode cctx cctx.tmpIn cctx.maxBlockSize
      { cctx := r.2.takeTmp cctx.maxBlockSize
        srcPtr := u.srcPtr + sizeToCopy
        srcSize := u.srcSize - sizeToCopy
        dst := u.dst ++ r.1
        lastBlockCompressed := .fromTmpBuffer }

/-- A block of `size` bytes is compressed straight from the source. -/
def Update.blockFromSrc (u : Update) (size : Nat) : Update :=
  let r := LZ4F_makeBlock encode u.cctx u.srcPtr size
  { cctx := r.2
    srcPtr := u.srcPtr + size
    srcSize := u.srcSize - size
    dst := u.dst ++ r.1
    lastBlockCompressed := .fromSrcBuffer }

/-- "compress full blocks", `n` times. -/
def Update.fullBlocks : Nat → Update → Update
  | 0, u => u
  | n + 1, u => Update.fullBlocks n (u.blockFromSrc encode u.cctx.maxBlockSize)

/-- "autoFlush : remaining input (< blockSize) is compressed". -/
def Update.flushRest (u : Update) : Update :=
  if u.cctx.prefs.autoFlush ∧ 0 < u.srcSize then u.blockFromSrc encode u.srcSize else u

/-- "preserve dictionary within tmpBuff whenever necessary". -/
def Update.preserveDict (stableSrc : Bool) (u : Update) : Update :=
  if u.cctx.prefs.frameInfo.blockMode = .blockLinked ∧ u.lastBlockCompressed = .fromSrcBuffer then
    if stableSrc then { u with cctx := { u.cctx with tmpIn := u.cctx.tmpBuff } }
    else { u with cctx := u.cctx.rewind }
  else u

/-- "keep tmpIn within limits" for the next block, when there can be one. -/
def Update.keepWithinLimits (u : Update) : Update :=
  if u.cctx.prefs.autoFlush then u else { u with cctx := u.cctx.keepWithinLimits }

/-- "fill tmp buffer". -/
def Update.fillTmp (u : Update) : Update :=
  if 0 < u.srcSize then
    { u with
      cctx := { u.cctx with
        mem := store u.cctx.mem u.cctx.tmpIn (load u.cctx.mem u.srcPtr u.srcSize)
        tmpInSize := u.srcSize } }
  else u

/-- The body of `LZ4F_compressUpdate` behind its checks. -/
def Update.run (stableSrc : Bool) (u : Update) : Update :=
  let u := u.completeTmp encode
  let u := u.fullBlocks encode (u.srcSize / u.cctx.maxBlockSize)
  let u := u.flushRest encode
  let u := u.preserveDict stableSrc
  let u := u.keepWithinLimits
  u.fillTmp

/-- The hash and the total are brought up to date. -/
def Update.account (u : Update) (srcBuffer srcSize : Nat) : LZ4F_cctx :=
  { u.cctx with
    xxh :=
      if u.cctx.prefs.frameInfo.contentChecksumFlag then
        u.cctx.xxh ++ load u.cctx.mem srcBuffer srcSize
      else u.cctx.xxh
    totalInSize := (u.cctx.totalInSize + srcSize) % SIZE_T }

def LZ4F_compressUpdate (cctx : LZ4F_cctx) (dstCapacity srcBuffer srcSize : Nat)
    (stableSrc : Bool) : LZ4F_cctx × Except LZ4F_errorCode (List UInt8) :=
  if cctx.cStage ≠ 1 then (cctx, .error .ERROR_compressionState_uninitialized)
  else if dstCapacity < LZ4F_compressBound_internal srcSize cctx.prefs cctx.tmpInSize then
    (cctx, .error .ERROR_dstMaxSize_tooSmall)
  else
    let u := Update.run encode stableSrc ⟨cctx, srcBuffer, srcSize, [], .notDone⟩
    (u.account srcBuffer srcSize, .ok u.dst)

/-! ## `LZ4F_compressEnd` -/

/-- The end mark and the content checksum. -/
def frameEnd (cctx : LZ4F_cctx) : List UInt8 :=
  leBytes 4 0 ++ if cctx.prefs.frameInfo.contentChecksumFlag then checksumBytes cctx.xxh else []

def LZ4F_compressEnd (cctx : LZ4F_cctx) (dstCapacity : Nat) :
    LZ4F_cctx × Except LZ4F_errorCode (List UInt8) :=
  match LZ4F_flush encode cctx dstCapacity with
  | (cctx, .error e) => (cctx, .error e)
  | (cctx, .ok flushed) =>
    let dstCapacity := sizeSub dstCapacity flushed.length
    if dstCapacity < 4 then (cctx, .error .ERROR_dstMaxSize_tooSmall)
    else if cctx.prefs.frameInfo.contentChecksumFlag ∧ dstCapacity < 8 then
      (cctx, .error .ERROR_dstMaxSize_tooSmall)
    else
      let closed := { cctx with cStage := 0, maxBufferSize := 0 }
      if cctx.prefs.frameInfo.contentSize ≠ 0 ∧
          cctx.prefs.frameInfo.contentSize ≠ cctx.totalInSize then
        (closed, .error .ERROR_frameSize_wrong)
      else (closed, .ok (flushed ++ frameEnd cctx))

end Blocks

end PythonLz4.Frame.CompressionContext
