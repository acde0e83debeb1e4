import PythonLz4.Frame.CompressionContext

/-!
# `compress_begin`, `compress_chunk` and `compress_flush`

The wrappers of `_frame.c` around the compression context. They keep a second copy of the
preferences, from which they compute the size of the destination. `step` is one of the three calls
and `run` a sequence of them, with what the allocator answers and where the source lies given with
each call.
-/

set_option autoImplicit false

namespace PythonLz4.Frame.CompressChunk

open PythonLz4.Runtime
open PythonLz4.Lib.ByteMemory
open PythonLz4.Stream.Continue
open PythonLz4.Frame.Header
open PythonLz4.Frame.CompressionContext

/-- `PY_SSIZE_T_MAX`. -/
def PY_SSIZE_T_MAX : Nat := 2 ^ 63 - 1

/-- `struct compression_context`. -/
structure compression_context where
  context : LZ4F_cctx
  preferences : LZ4F_preferences_t

/-- `create_compression_context`. The preferences are not initialised. -/
def create_compression_context (mem : Memory) (preferences : LZ4F_preferences_t) :
    compression_context :=
  ⟨LZ4F_createCompressionContext mem, preferences⟩

/-- The format unit `i`: a C `int`. -/
def parseInt (v : Int) : Except PyErr Int :=
  if 2 ^ 31 ≤ v then .error ⟨.OverflowError, "signed integer is greater than maximum"⟩
  else if v < -2 ^ 31 then .error ⟨.OverflowError, "signed integer is less than minimum"⟩
  else .ok v

/-- The format unit `k`: an `unsigned long` without overflow checking. -/
def parseULong (v : Int) : Nat := (v % SIZE_T).toNat

/-- A C `int` stored into the enumeration `LZ4F_blockSizeID_t`. -/
def blockSizeIDOf (block_size : Int) : Nat := (block_size % 2 ^ 32).toNat

/-- The keyword arguments of `compress_begin`. -/
structure BeginArgs where
  source_size : Int
  compression_level : Int
  block_size : Int
  content_checksum : Bool
  block_checksum : Bool
  block_linked : Bool
  auto_flush : Bool
  return_bytearray : Bool
  deriving DecidableEq, Repr

/-- The preferences `compress_begin` fills in. -/
def BeginArgs.preferences (args : BeginArgs) : LZ4F_preferences_t where
  frameInfo :=
    { blockSizeID := blockSizeIDOf args.block_size
      blockMode := if args.block_linked then .blockLinked else .blockIndependent
      contentChecksumFlag := args.content_checksum
      frameType := .frame
      contentSize := parseULong args.source_size
      dictID := 0
      blockChecksumFlag := args.block_checksum }
  compressionLevel := args.compression_level
  autoFlush := args.auto_flush

/-- The size of the destination of `compress_begin`. -/
def header_size : Nat := 32

/-- A failed library call raises with the name of the error. -/
def libraryError (call : String) (e : LZ4F_errorCode) : PyErr :=
  ⟨.RuntimeError, call ++ " failed with code: " ++ LZ4F_getErrorName e⟩

def compress_begin (heap : Heap) (context : compression_context) (args : BeginArgs) :
    compression_context × Except PyErr PyBytes :=
  match parseInt args.compression_level, parseInt args.block_size with
  | .error e, _ => (context, .error e)
  | .ok _, .error e => (context, .error e)
  | .ok _, .ok _ =>
    let preferences := args.preferences
    if heap.malloc header_size then
      match LZ4F_compressBegin heap context.context header_size preferences with
      | (cctx, .error e) => (⟨cctx, preferences⟩, .error (libraryError "LZ4F_compressBegin" e))
      | (cctx, .ok header) => (⟨cctx, preferences⟩, .ok ⟨args.return_bytearray, header⟩)
    else ({ context with preferences }, .error PyErr_NoMemory)

/-- The size of the destination of `compress_chunk`. -/
def compressed_bound (preferences : LZ4F_preferences_t) (source_size : Nat) : Nat :=
  if preferences.autoFlush then LZ4F_compressFrameBound source_size preferences
  else LZ4F_compressBound source_size preferences

/-- The error for data whose bound does not fit a `Py_ssize_t`. -/
def boundError (bound : Nat) : PyErr :=
  ⟨.ValueError,
    "input data could require " ++ toString bound ++
      " bytes, which is larger than the maximum supported size of " ++
      toString PY_SSIZE_T_MAX ++ " bytes"⟩

section Calls

variable (encode : Nat → Encoder)

/-- The data lies at `source`. -/
def compress_chunk (heap : Heap) (context : compression_context) (source : Nat)
    (data : List UInt8) (return_bytearray : Bool) :
    compression_context × Except PyErr PyBytes :=
  let bound := compressed_bound context.preferences data.length
  if PY_SSIZE_T_MAX < bound then (context, .error (boundError bound))
  else if heap.malloc bound then
    let cctx := { context.context with mem := store context.context.mem source data }
    match LZ4F_compressUpdate encode cctx bound source data.length false with
    | (cctx, .error e) =>
      ({ context with context := cctx }, .error (libraryError "LZ4F_compressUpdate" e))
    | (cctx, .ok dst) => ({ context with context := cctx }, .ok ⟨return_bytearray, dst⟩)
  else (context, .error PyErr_NoMemory)

/-- The size of the destination of `compress_flush`. -/
def flush_size (preferences : LZ4F_preferences_t) : Nat := LZ4F_compressBound 0 preferences

def compress_flush (heap : Heap) (context : compression_context) (end_frame return_bytearray : Bool) :
    compression_context × Except PyErr PyBytes :=
  let destination_size := flush_size context.preferences
  if heap.malloc destination_size then
    match if end_frame then LZ4F_compressEnd encode context.context destination_size
      else LZ4F_flush encode context.context destination_size with
    | (cctx, .error e) =>
      ({ context with context := cctx }, .error (libraryError "LZ4F_compressEnd" e))
    | (cctx, .ok dst) => ({ context with context := cctx }, .ok ⟨return_bytearray, dst⟩)
  else (context, .error PyErr_NoMemory)

/-! ## Runs -/

/-- A call on a context. -/
inductive Call where
  | begin (heap : Heap) (args : BeginArgs)
  | chunk (heap : Heap) (source : Nat) (data : List UInt8) (return_bytearray : Bool)
  | flush (heap : Heap) (end_frame return_bytearray : Bool)

def step (context : compression_context) : Call → compression_context × Except PyErr PyBytes
  | .begin heap args => compress_begin heap context args
  | .chunk heap source data return_bytearray =>
    compress_chunk encode heap context source data return_bytearray
  | .flush heap end_frame return_bytearray =>
    compress_flush encode heap context end_frame return_bytearray

/-- The context after the calls. -/
def run (context : compression_context) (calls : List Call) : compression_context :=
  calls.foldl (fun context call => (step encode context call).1) context

end Calls

end PythonLz4.Frame.CompressChunk
