import PythonLz4.Block.DecodeBlock
import PythonLz4.Lib.ByteMemory

/-!
# The streaming calls of the library

`LZ4_compress_fast_continue`, `LZ4_compress_HC_continue` and `LZ4_decompress_safe_continue` with
the bookkeeping of `lz4.c` and `lz4hc.c`: where in memory the history of a block lies. Addresses
are natural numbers with `NULL = 0`, memory is a function of the address. The encoders proper are
parameters that are given the bytes of the recorded window and of the source. The decoder may write
anywhere in its destination while it decodes: the bytes it finds and leaves there are a parameter
(`Scratch`).
-/

set_option autoImplicit false

namespace PythonLz4.Stream.Continue

open PythonLz4.Lib.HistoryWindow
open PythonLz4.Lib.ByteMemory
open PythonLz4.Block.DecompressGeneric

/-! ## `LZ4_compress_fast_continue` -/

def KB : Nat := 1024

/-- `HASH_UNIT`. -/
def HASH_UNIT : Nat := 8

/-- The fields of `LZ4_stream_t` that say where the history lies. -/
structure LZ4_stream_t where
  dictionary : Nat
  dictSize : Nat
  currentOffset : Nat
  deriving DecidableEq, Repr

/-- `LZ4_createStream` and `LZ4_resetStream_fast`. -/
def LZ4_createStream : LZ4_stream_t := ⟨0, 0, 0⟩

/-- `LZ4_loadDict` on a new stream. -/
def LZ4_loadDict (dictionary dictSize : Nat) : LZ4_stream_t :=
  if dictSize < HASH_UNIT then { LZ4_createStream with currentOffset := KB64 }
  else
    let dictEnd := dictionary + dictSize
    let p := if KB64 < dictSize then dictEnd - KB64 else dictionary
    ⟨p, dictEnd - p, KB64⟩

def LZ4_renormDictT (st : LZ4_stream_t) (nextSize : Nat) : LZ4_stream_t :=
  if 0x80000000 < st.currentOffset + nextSize then
    let dictEnd := st.dictionary + st.dictSize
    let dictSize := min st.dictSize KB64
    ⟨dictEnd - dictSize, dictSize, KB64⟩
  else st

/-- `dictEnd` as it is computed on entry. -/
def LZ4_stream_t.dictEnd (st : LZ4_stream_t) : Nat :=
  if st.dictSize ≠ 0 then st.dictionary + st.dictSize else 0

/-- "invalidate tiny dictionaries", with the new `dictEnd`. -/
def invalidateTiny (st : LZ4_stream_t) (dictEnd source inputSize : Nat) : LZ4_stream_t × Nat :=
  if st.dictSize < 4 ∧ dictEnd ≠ source ∧ 0 < inputSize then
    ({ st with dictSize := 0, dictionary := source }, source)
  else (st, dictEnd)

/-- "Check overlapping input/dictionary space". -/
def trimOverlap (st : LZ4_stream_t) (dictEnd source inputSize : Nat) : LZ4_stream_t :=
  let sourceEnd := source + inputSize
  if st.dictionary < sourceEnd ∧ sourceEnd < dictEnd then
    let dictSize := min (dictEnd - sourceEnd) KB64
    let dictSize := if dictSize < 4 then 0 else dictSize
    { st with dictSize, dictionary := dictEnd - dictSize }
  else st

/-- The window recorded when the encoder proper is called, and `dictEnd`. -/
def fastWindow (st : LZ4_stream_t) (source inputSize : Nat) : LZ4_stream_t × Nat :=
  let r := invalidateTiny (LZ4_renormDictT st inputSize) st.dictEnd source inputSize
  (trimOverlap r.1 r.2 source inputSize, r.2)

/-- The bookkeeping of `LZ4_compress_generic`: an empty source leaves the stream as it is. -/
def LZ4_compress_generic (st : LZ4_stream_t) (inputSize : Nat) : LZ4_stream_t :=
  if inputSize = 0 then st
  else
    { st with
      dictSize := st.dictSize + inputSize
      currentOffset := st.currentOffset + inputSize }

/-- An encoder: the bytes of the window, the source, the capacity, and the acceleration or level. -/
abbrev Encoder := List UInt8 → List UInt8 → Nat → Int → List UInt8

def LZ4_compress_fast_continue (encode : Encoder) (mem : Memory) (st : LZ4_stream_t)
    (source inputSize maxOutputSize : Nat) (acceleration : Int) : List UInt8 × LZ4_stream_t :=
  let r := fastWindow st source inputSize
  let block := encode (load mem r.1.dictionary r.1.dictSize) (load mem source inputSize)
    maxOutputSize acceleration
  let st' := LZ4_compress_generic r.1 inputSize
  if r.2 = source then
    -- prefix mode
    (block, st')
  else
    -- external dictionary mode
    (block, { st' with dictionary := source, dictSize := inputSize })

/-! ## `LZ4_compress_HC_continue` -/

/-- The fields of `LZ4_streamHC_t` that say where the history lies. The field `end` of the source
is `bufEnd`. -/
structure LZ4_streamHC_t where
  bufEnd : Nat
  prefixStart : Nat
  dictStart : Nat
  dictLimit : Nat
  lowLimit : Nat
  deriving DecidableEq, Repr

/-- `LZ4_createStreamHC` and `LZ4_resetStreamHC_fast`. -/
def LZ4_createStreamHC : LZ4_streamHC_t := ⟨0, 0, 0, 0, 0⟩

def LZ4HC_init_internal (hc4 : LZ4_streamHC_t) (start : Nat) : LZ4_streamHC_t :=
  let bufferSize := hc4.bufEnd - hc4.prefixStart
  let newStartingOffset := bufferSize + hc4.dictLimit
  let newStartingOffset := if KB * KB * KB < newStartingOffset then 0 else newStartingOffset
  let newStartingOffset := newStartingOffset + KB64
  ⟨start, start, start, newStartingOffset, newStartingOffset⟩

/-- `LZ4_loadDictHC`. -/
def LZ4_loadDictHC (dictionary dictSize : Nat) : LZ4_streamHC_t :=
  let start := if KB64 < dictSize then dictionary + (dictSize - KB64) else dictionary
  let size := if KB64 < dictSize then KB64 else dictSize
  { LZ4HC_init_internal LZ4_createStreamHC start with bufEnd := start + size }

def LZ4HC_setExternalDict (ctx : LZ4_streamHC_t) (newBlock : Nat) : LZ4_streamHC_t :=
  { lowLimit := ctx.dictLimit
    dictStart := ctx.prefixStart
    dictLimit := ctx.dictLimit + (ctx.bufEnd - ctx.prefixStart)
    prefixStart := newBlock
    bufEnd := newBlock }

/-- The size of the external dictionary. -/
def LZ4_streamHC_t.extSize (ctx : LZ4_streamHC_t) : Nat := ctx.dictLimit - ctx.lowLimit

/-- "auto-init if forgotten" and "Check overflow". -/
def hcInit (ctx : LZ4_streamHC_t) (src : Nat) : LZ4_streamHC_t :=
  let ctx := if ctx.prefixStart = 0 then LZ4HC_init_internal ctx src else ctx
  if 2 * KB * KB * KB < (ctx.bufEnd - ctx.prefixStart) + ctx.dictLimit then
    let dictSize := min (ctx.bufEnd - ctx.prefixStart) KB64
    LZ4_loadDictHC (ctx.bufEnd - dictSize) dictSize
  else ctx

/-- "Check overlapping input/dictionary space". -/
def hcTrimOverlap (ctx : LZ4_streamHC_t) (src srcSize : Nat) : LZ4_streamHC_t :=
  let sourceEnd := src + srcSize
  let dictBegin := ctx.dictStart
  let dictEnd := ctx.dictStart + ctx.extSize
  if dictBegin < sourceEnd ∧ src < dictEnd then
    let sourceEnd := min sourceEnd dictEnd
    let trimmed :=
      { ctx with
        lowLimit := ctx.lowLimit + (sourceEnd - ctx.dictStart)
        dictStart := sourceEnd }
    if trimmed.extSize < 4 then
      { trimmed with lowLimit := trimmed.dictLimit, dictStart := trimmed.prefixStart }
    else trimmed
  else ctx

/-- The window recorded when the encoder proper is called. -/
def hcWindow (ctx : LZ4_streamHC_t) (src srcSize : Nat) : LZ4_streamHC_t :=
  let ctx := hcInit ctx src
  let ctx := if src ≠ ctx.bufEnd then LZ4HC_setExternalDict ctx src else ctx
  hcTrimOverlap ctx src srcSize

/-- The bytes of the window: the external dictionary, then the prefix. -/
def hcHistory (mem : Memory) (ctx : LZ4_streamHC_t) : List UInt8 :=
  load mem ctx.dictStart ctx.extSize ++ load mem ctx.prefixStart (ctx.bufEnd - ctx.prefixStart)

def LZ4_compress_HC_continue (encode : Encoder) (mem : Memory) (ctx : LZ4_streamHC_t)
    (src srcSize dstCapacity : Nat) (compressionLevel : Int) : List UInt8 × LZ4_streamHC_t :=
  let ctx := hcWindow ctx src srcSize
  let block := encode (hcHistory mem ctx) (load mem src srcSize) dstCapacity compressionLevel
  (block, { ctx with bufEnd := ctx.bufEnd + srcSize })

/-! ## `LZ4_decompress_safe_continue` -/

structure LZ4_streamDecode_t where
  prefixEnd : Nat
  prefixSize : Nat
  externalDict : Nat
  extDictSize : Nat
  deriving DecidableEq, Repr

/-- `LZ4_setStreamDecode`. -/
def LZ4_setStreamDecode (dictionary dictSize : Nat) : LZ4_streamDecode_t :=
  ⟨dictionary + dictSize, dictSize, 0, 0⟩

/-- `LZ4_decompress_safe_doubleDict`: `before` lies in front of `dest`. -/
def LZ4_decompress_safe_doubleDict (fastLoop : Bool) (source : List UInt8) (maxOutputSize : Nat)
    (before dictStart : List UInt8) : Except Nat (List UInt8) :=
  LZ4_decompress_generic fastLoop ⟨.usingExtDict, before, dictStart, maxOutputSize⟩ source

/-- What one call of the decoder finds in its destination while it decodes, and what it leaves
there behind its output. -/
structure Scratch where
  during : Memory
  after : Memory

/-- The result is the output with the memory after the call, or the absolute value of the error
code. -/
def LZ4_decompress_safe_continue (fastLoop : Bool) (scratch : Scratch) (mem : Memory)
    (lz4sd : LZ4_streamDecode_t) (source : List UInt8) (dest maxOutputSize : Nat) :
    Except Nat (List UInt8 × Memory) × LZ4_streamDecode_t :=
  let found := clobber mem dest maxOutputSize scratch.during
  let leave := fun (out : List UInt8) =>
    store (clobber mem dest maxOutputSize scratch.after) dest out
  if lz4sd.prefixSize = 0 then
    -- the first call, no dictionary yet
    match LZ4_decompress_safe fastLoop source maxOutputSize with
    | .error e => (.error e, lz4sd)
    | .ok out =>
      if out.length = 0 then (.ok (out, leave out), lz4sd)
      else (.ok (out, leave out),
        { lz4sd with prefixSize := out.length, prefixEnd := dest + out.length })
  else if lz4sd.prefixEnd = dest then
    -- rolling the current segment
    let before := load found (dest - lz4sd.prefixSize) lz4sd.prefixSize
    let result :=
      if KB64 - 1 ≤ lz4sd.prefixSize then
        LZ4_decompress_safe_withPrefix64k fastLoop source maxOutputSize before
      else if lz4sd.extDictSize = 0 then
        LZ4_decompress_safe_withSmallPrefix fastLoop source maxOutputSize before
      else
        LZ4_decompress_safe_doubleDict fastLoop source maxOutputSize before
          (load found lz4sd.externalDict lz4sd.extDictSize)
    match result with
    | .error e => (.error e, lz4sd)
    | .ok out =>
      if out.length = 0 then (.ok (out, leave out), lz4sd)
      else (.ok (out, leave out),
        { lz4sd with
          prefixSize := lz4sd.prefixSize + out.length
          prefixEnd := lz4sd.prefixEnd + out.length })
  else
    -- the buffer wraps around, or another buffer is in use
    let lz4sd :=
      { lz4sd with
        extDictSize := lz4sd.prefixSize
        externalDict := lz4sd.prefixEnd - lz4sd.prefixSize }
    match LZ4_decompress_safe_forceExtDict fastLoop source maxOutputSize
        (load found lz4sd.externalDict lz4sd.extDictSize) with
    | .error e => (.error e, lz4sd)
    | .ok out =>
      if out.length = 0 then (.ok (out, leave out), lz4sd)
      else (.ok (out, leave out),
        { lz4sd with prefixSize := out.length, prefixEnd := dest + out.length })

end PythonLz4.Stream.Continue
