import PythonLz4.Runtime
import PythonLz4.Block.Container
import PythonLz4.Stream.Continue

/-!
# Stream contexts

`_stream.c`: contexts with a double buffer, `_compress`, `_get_block` and `_decompress`. The two
pages lie one behind the other in one allocation. Allocation succeeds, and the dictionary object
stays where it is and does not touch the allocation (`Placement`).
-/

set_option autoImplicit false

namespace PythonLz4.Stream.Context

open PythonLz4.Runtime
open PythonLz4.Lib.LittleEndian
open PythonLz4.Lib.ByteMemory
open PythonLz4.Block.DecompressGeneric
open PythonLz4.Block.Container (LZ4_MAX_INPUT_SIZE LZ4_compressBound compression_type)
open PythonLz4.Stream.Continue

/-! ## Sizes -/

/-- `_GET_MAX_UINT32`. -/
def GET_MAX_UINT32 (byte_depth : Nat) : Nat := 2 ^ (8 * byte_depth) - 1

def get_compress_bound (input_size : Nat) : Nat := LZ4_compressBound input_size

def get_input_bound (compress_max_size : Nat) : Nat :=
  let csize := if compress_max_size < 16 then 17 else compress_max_size
  if csize ≤ get_compress_bound LZ4_MAX_INPUT_SIZE then
    let isize := (csize * 256 - csize - 4080) / 256
    if LZ4_MAX_INPUT_SIZE < isize then 0 else isize + 1
  else 0

def load_block_length (block_length_size : Nat) (buf : List UInt8) : Nat :=
  leNat (buf.take block_length_size)

/-- `store_block_length`; `none` is the failure status. -/
def store_block_length (block_length block_length_size : Nat) : Option (List UInt8) :=
  match block_length_size with
  | 0 => some []
  | 1 => if 255 < block_length then none else some (leBytes 1 block_length)
  | 2 => if 65535 < block_length then none else some (leBytes 2 block_length)
  | 4 => if INT_MAX < block_length then none else some (leBytes 4 block_length)
  | _ => none

/-! ## Contexts -/

/-- Where the dictionary and the double buffer of a context lie. -/
structure Placement (dictLen page_size : Nat) where
  dict : Nat
  buf : Nat
  buf_ne_null : 0 < buf
  dict_ne_null : 0 < dict
  apart : dict + dictLen < buf ∨ buf + 2 * page_size ≤ dict

/-- The two pages. -/
structure double_buffer where
  buf : Nat
  page_size : Nat
  index : Nat
  deriving DecidableEq, Repr

/-- `double_buffer_get_compression_page`. -/
def double_buffer.page (d : double_buffer) : Nat := d.buf + d.index * d.page_size

def double_buffer_update_index (d : double_buffer) : double_buffer :=
  { d with index := (d.index + 1) % 2 }

/-- `lz4_state.compress` of the context. -/
inductive CompressState where
  | fast (st : LZ4_stream_t)
  | hc (ctx : LZ4_streamHC_t)
  deriving DecidableEq, Repr

/-- `stream_context_t` with `direction = COMPRESS`. -/
structure CompressContext where
  mem : Memory
  double_buffer : double_buffer
  output_len : Nat
  lz4_state : CompressState
  acceleration : Int
  compression_level : Int
  store_comp_size : Nat
  return_bytearray : Bool
  comp : compression_type

/-- `stream_context_t` with `direction = DECOMPRESS`. -/
structure DecompressContext where
  mem : Memory
  double_buffer : double_buffer
  output_len : Nat
  lz4_state : LZ4_streamDecode_t
  store_comp_size : Nat
  return_bytearray : Bool

/-- `stream_context_t`; which member of its unions is used follows from the direction. -/
inductive stream_context_t where
  | compress (context : CompressContext)
  | decompress (context : DecompressContext)

/-- The arguments of `_create_context`. -/
structure CreateArgs where
  strategy : String
  direction : String
  buffer_size : Nat
  mode : String := "default"
  acceleration : Int := 1
  compression_level : Int := 9
  return_bytearray : Bool := false
  store_comp_size : Nat := 4
  dictionary : List UInt8 := []

/-- The `mode` argument, compared with its terminating NUL. -/
def parseMode (mode : String) : Option compression_type :=
  if mode = "default" then some .DEFAULT
  else if mode = "fast" then some .FAST
  else if mode = "high_compression" then some .HIGH_COMPRESSION
  else none

/-- The largest block length the header can hold. -/
def store_max_size (store_comp_size : Nat) : Nat :=
  if store_comp_size = 0 then GET_MAX_UINT32 4 else GET_MAX_UINT32 store_comp_size

/-- The state of the compression side after the dictionary has been loaded. -/
def createState (comp : compression_type) (dict dictLen : Nat) : CompressState :=
  if comp = .HIGH_COMPRESSION then
    .hc (if 0 < dictLen then LZ4_loadDictHC dict dictLen else LZ4_createStreamHC)
  else .fast (if 0 < dictLen then LZ4_loadDict dict dictLen else LZ4_createStream)

/-- `_create_context`; `mem` is what the memory holds when the buffers have been allocated, the
dictionary apart. -/
def create_context (args : CreateArgs)
    (place : Placement args.dictionary.length args.buffer_size) (mem : Memory) :
    Except PyErr stream_context_t :=
  if INT_MAX < args.dictionary.length then
    .error ⟨.OverflowError, "Dictionary too large for LZ4 API"⟩
  else if args.store_comp_size ∉ [0, 1, 2, 4] then
    .error ⟨.ValueError, "Invalid store_comp_size, valid values: 0, 1, 2 or 4"⟩
  else if args.strategy ∉ ["double_buffer", "ring_buffer"] then
    .error ⟨.ValueError, "Invalid strategy argument: " ++ args.strategy ++
      ". Must be one of: double_buffer, ring_buffer"⟩
  else if args.direction ∉ ["compress", "decompress"] then
    .error ⟨.ValueError, "Invalid direction argument: " ++ args.direction ++
      ". Must be one of: compress, decompress"⟩
  else
    match parseMode args.mode with
    | none => .error ⟨.ValueError, "Invalid mode argument: " ++ args.mode ++
        ". Must be one of: default, fast, high_compression"⟩
    | some comp =>
      let mem := store mem place.dict args.dictionary
      let buffer : double_buffer := ⟨place.buf, args.buffer_size, 0⟩
      if args.direction = "compress" then
        let output_len := get_compress_bound args.buffer_size
        if output_len = 0 then
          .error ⟨.ValueError, "Invalid buffer_size argument: " ++ toString args.buffer_size ++
            ". Cannot define output buffer size. Must be lesser or equal to " ++
            toString LZ4_MAX_INPUT_SIZE⟩
        else if store_max_size args.store_comp_size < output_len then
          .error ⟨.LZ4StreamError, "Inconsistent buffer_size/store_comp_size values. " ++
            "Maximal compressed length (" ++ toString args.buffer_size ++
            ") cannot fit in a " ++ toString args.store_comp_size ++ " byte-long integer"⟩
        else if args.strategy = "ring_buffer" then
          .error ⟨.NotImplementedError, "Buffer strategy not implemented: ring_buffer"⟩
        else
          .ok (.compress
            { mem
              double_buffer := buffer
              output_len
              lz4_state := createState comp place.dict args.dictionary.length
              acceleration := args.acceleration
              compression_level := args.compression_level
              store_comp_size := args.store_comp_size
              return_bytearray := args.return_bytearray
              comp })
      else if args.strategy = "ring_buffer" then
        .error ⟨.NotImplementedError, "Buffer strategy not implemented: ring_buffer"⟩
      else
        .ok (.decompress
          { mem
            double_buffer := buffer
            output_len := args.buffer_size
            lz4_state := LZ4_setStreamDecode place.dict args.dictionary.length
            store_comp_size := args.store_comp_size
            return_bytearray := args.return_bytearray })

/-! ## Compressing and decompressing -/

/-- The two encoders proper. -/
structure StreamCoder where
  fast : Encoder
  hc : Encoder

/-- `_compress_generic` on the source that has been copied to the current page. -/
def compress_generic (coder : StreamCoder) (context : CompressContext) (source_size : Nat) :
    List UInt8 × CompressState :=
  let source := context.double_buffer.page
  match context.lz4_state with
  | .hc ctx =>
    let r := LZ4_compress_HC_continue coder.hc context.mem ctx source source_size
      context.output_len context.compression_level
    (r.1, .hc r.2)
  | .fast st =>
    let acceleration := if context.comp ≠ .FAST then 1 else context.acceleration
    let r := LZ4_compress_fast_continue coder.fast context.mem st source source_size
      context.output_len acceleration
    (r.1, .fast r.2)

/-- `_compress`. -/
def compress (coder : StreamCoder) (context : CompressContext) (source : List UInt8) :
    Except PyErr (PyBytes × CompressContext) :=
  if context.double_buffer.page_size < source.length then
    .error ⟨.OverflowError, "Input too large for LZ4 API"⟩
  else
    let context := { context with mem := store context.mem context.double_buffer.page source }
    let r := compress_generic coder context source.length
    if r.1.length = 0 then .error ⟨.LZ4StreamError, "Compression failed"⟩
    else
      match store_block_length r.1.length context.store_comp_size with
      | none => .error ⟨.LZ4StreamError, "Compressed stream size too large"⟩
      | some header =>
        .ok (⟨context.return_bytearray, header ++ r.1⟩,
          { context with
            lz4_state := r.2
            double_buffer := double_buffer_update_index context.double_buffer })

/-- `_get_block`. -/
def get_block (context : DecompressContext) (source : List UInt8) : Except PyErr PyBytes :=
  if INT_MAX < source.length then .error ⟨.OverflowError, "Input too large for LZ4 API"⟩
  else if context.store_comp_size = 0 then
    .error ⟨.LZ4StreamError, "LZ4 context is configured for storing block size out-of-band"⟩
  else if source.length < context.store_comp_size then
    .error ⟨.LZ4StreamError, "Invalid source, too small for holding any block"⟩
  else
    let block_len := load_block_length context.store_comp_size source
    if source.length - context.store_comp_size < block_len then
      .error ⟨.LZ4StreamError, "Requested input size (" ++ toString block_len ++
        ") larger than source size (" ++
        toString (source.length - context.store_comp_size) ++ ")"⟩
    else
      .ok ⟨context.return_bytearray, (source.drop context.store_comp_size).take block_len⟩

/-- `_decompress`. -/
def decompress (fastLoop : Bool) (scratch : Scratch) (context : DecompressContext)
    (source : List UInt8) : Except PyErr (PyBytes × DecompressContext) :=
  if store_max_size context.store_comp_size < source.length then
    .error ⟨.OverflowError, "Source length (" ++ toString source.length ++
      ") too large for LZ4 store_comp_size (" ++ toString context.store_comp_size ++ ") value"⟩
  else if get_input_bound source.length = 0 ∨
      context.double_buffer.page_size < get_input_bound source.length then
    .error ⟨.LZ4StreamError, "Maximal decompressed data (" ++
      toString (get_input_bound source.length) ++ ") cannot fit in LZ4 internal buffer (" ++
      toString context.double_buffer.page_size ++ ")"⟩
  else
    let r := LZ4_decompress_safe_continue fastLoop scratch context.mem context.lz4_state source
      context.double_buffer.page context.double_buffer.page_size
    match r.1 with
    | .error code =>
      .error ⟨.LZ4StreamError, "Decompression failed. error: " ++ toString code⟩
    | .ok (output, mem) =>
      if context.output_len < output.length then
        .error ⟨.OverflowError, "Decompressed stream too large for LZ4 API"⟩
      else
        .ok (⟨context.return_bytearray, output⟩,
          { context with
            mem
            lz4_state := r.2
            double_buffer := double_buffer_update_index context.double_buffer })

/-! ## One compressor, one decompressor -/

/-- The block inside what `_compress` returned, as a caller of the decompression context gets it:
with the sizes stored out of band there is no header to strip. -/
def blockOf (context : DecompressContext) (stream : List UInt8) : Except PyErr (List UInt8) :=
  if context.store_comp_size = 0 then .ok stream
  else
    match get_block context stream with
    | .error e => .error e
    | .ok block => .ok block.data

/-- The chunks go through the compression context one by one, and every block through the
decompression context. `scratch` says what the decoder does to its destination in each call. -/
def session (coder : StreamCoder) (fastLoop : Bool) (scratch : Nat → Scratch) :
    Nat → CompressContext → DecompressContext → List (List UInt8) →
      Except PyErr (List (List UInt8))
  | _, _, _, [] => .ok []
  | k, c, d, chunk :: chunks =>
    match compress coder c chunk with
    | .error e => .error e
    | .ok (stream, c') =>
      match blockOf d stream.data with
      | .error e => .error e
      | .ok block =>
        match decompress fastLoop (scratch k) d block with
        | .error e => .error e
        | .ok (out, d') =>
          match session coder fastLoop scratch (k + 1) c' d' chunks with
          | .error e => .error e
          | .ok outs => .ok (out.data :: outs)

end PythonLz4.Stream.Context
