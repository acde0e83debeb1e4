import PythonLz4.Lib.RecordStream
import PythonLz4.Stream.Session

/-!
# The stream as a sequence of framed blocks

What `_compress` returns is a length and a block. The reading loop of the documentation, which asks
`get_block` for the first block and skips it with its length, returns from any cut of the
concatenated results the blocks that are wholly inside, and raises `LZ4StreamError` unless the cut
is the end of a block (`read_blocks_of_cut`).
-/

set_option autoImplicit false

namespace PythonLz4.Stream.Framing

open PythonLz4.Block
open PythonLz4.Runtime
open PythonLz4.Lib.LittleEndian
open PythonLz4.Lib.ByteMemory
open PythonLz4.Lib.RecordStream
open PythonLz4.Block.DecompressGeneric
open PythonLz4.Block.Container (LZ4_MAX_INPUT_SIZE LZ4_compressBound compressBound_of_le)
open PythonLz4.Stream.Continue
open PythonLz4.Stream.Context
open PythonLz4.Stream.Compressors
open PythonLz4.Stream.Session

/-! ## The loops of the caller -/

/-- The chunks are compressed one by one on one context. -/
def compressAll (coder : StreamCoder) :
    CompressContext → List (List UInt8) → Except PyErr (List PyBytes × CompressContext)
  | context, [] => .ok ([], context)
  | context, chunk :: chunks =>
    match compress coder context chunk with
    | .error e => .error e
    | .ok (result, context') =>
      match compressAll coder context' chunks with
      | .error e => .error e
      | .ok (results, context'') => .ok (result :: results, context'')

/-- `block = get_block(...)`, with the step to the next one, `store_comp_size + len(block)`. -/
def nextBlock (context : DecompressContext) (stream : List UInt8) :
    Except PyErr (List UInt8 × Nat) :=
  match get_block context stream with
  | .error e => .error e
  | .ok block => .ok (block.data, context.store_comp_size + block.data.length)

/-- `while start < len(stream)`. -/
def readBlocks (context : DecompressContext) (stream : List UInt8) :
    List (List UInt8) × Ending PyErr :=
  readAll (nextBlock context) stream.length stream

/-- A result of `_compress` with the block in it. -/
def record (store_comp_size : Nat) (result : PyBytes) : List UInt8 × List UInt8 :=
  (result.data, result.data.drop store_comp_size)

/-! ## One block -/

/-- The header of a block reads back as its length. -/
theorem store_block_length_spec {block_length scs : Nat} {header : List UInt8}
    (h : store_block_length block_length scs = some header) (hscs : scs ∈ [1, 2, 4]) :
    header.length = scs ∧ leNat header = block_length := by
  have hkey : ∀ k, block_length < 256 ^ k → (leBytes k block_length).length = k ∧
      leNat (leBytes k block_length) = block_length := fun k hk =>
    ⟨length_leBytes k _, leNat_leBytes_of_lt hk⟩
  simp only [List.mem_cons, List.not_mem_nil, or_false] at hscs
  rcases hscs with rfl | rfl | rfl
  · simp only [store_block_length] at h
    split_ifs at h with hbig
    obtain rfl := Option.some.inj h
    exact hkey 1 (by omega)
  · simp only [store_block_length] at h
    split_ifs at h with hbig
    obtain rfl := Option.some.inj h
    exact hkey 2 (by omega)
  · simp only [store_block_length] at h
    split_ifs at h with hbig
    obtain rfl := Option.some.inj h
    have hmax : INT_MAX = 2147483647 := rfl
    exact hkey 4 (by omega)

/-- A result of `_compress` is a record for the reading loop. -/
theorem reads_record {scs : Nat} (hscs : scs ∈ [1, 2, 4]) (context : DecompressContext)
    (hcontext : context.store_comp_size = scs) {header block : List UInt8}
    (hlen : header.length = scs) (hnat : leNat header = block.length) :
    Reads (nextBlock context) INT_MAX (fun e => e.exc = .LZ4StreamError) (header ++ block)
      block := by
  have hpos : 0 < scs := by
    simp only [List.mem_cons, List.not_mem_nil, or_false] at hscs
    omega
  have hne : ¬ context.store_comp_size = 0 := by omega
  refine ⟨by rw [List.length_append]; omega, ?_, ?_⟩
  · intro rest hlimit
    have hload : load_block_length scs (header ++ block ++ rest) = block.length := by
      rw [load_block_length, List.append_assoc, List.take_left' hlen, hnat]
    have htotal : (header ++ block ++ rest).length = scs + block.length + rest.length := by
      rw [List.length_append, List.length_append, hlen]
    unfold nextBlock get_block
    simp only [hcontext, hload]
    rw [if_neg (by omega), if_neg (by omega), if_neg (by omega), if_neg (by omega)]
    simp only [List.append_assoc, List.drop_left' hlen, List.take_left, List.length_append, hlen]
  · intro n hn hcut hlimit
    rw [List.length_append, hlen] at hcut hlimit
    have htotal : ((header ++ block).take n).length = n := by
      rw [List.length_take, List.length_append]
      omega
    unfold nextBlock get_block
    rw [htotal, hcontext, if_neg (by omega), if_neg (by omega)]
    rcases Nat.lt_or_ge n scs with hshort | hlong
    · -- the cut falls into the length
      rw [if_pos hshort]
      exact ⟨_, rfl, rfl⟩
    · -- the cut falls into the block: its length is there, but it is not
      have hload : load_block_length scs ((header ++ block).take n) = block.length := by
        rw [load_block_length, List.take_take, Nat.min_eq_left hlong, List.take_left' hlen, hnat]
      rw [if_neg (by omega)]
      simp only [hload]
      rw [if_pos (by omega)]
      exact ⟨_, rfl, rfl⟩

/-! ## The compression context -/

/-- What no call of `_compress` changes of the context made with `args`. -/
structure Configured (args : CreateArgs) (context : CompressContext) : Prop where
  page_size : context.double_buffer.page_size = args.buffer_size
  output_len : context.output_len = LZ4_compressBound args.buffer_size
  store_comp_size : context.store_comp_size = args.store_comp_size

/-- Whatever the window, the block is made by one of the two encoders. -/
theorem compress_generic_block {coder : StreamCoder} (hcoder : StreamCoderSpec coder)
    (context : CompressContext) (chunk : List UInt8) :
    ∃ (encode : Encoder) (w : List UInt8) (level : Int), EncoderSpec encode ∧
      (compress_generic coder
        { context with mem := store context.mem context.double_buffer.page chunk }
        chunk.length).1 = encode w chunk context.output_len level := by
  unfold compress_generic
  cases hs : context.lz4_state with
  | fast st =>
    simp only [compress_fast_continue_eq, load_store]
    exact ⟨coder.fast, _, _, hcoder.fast, rfl⟩
  | hc ctx =>
    simp only [LZ4_compress_HC_continue, load_store]
    exact ⟨coder.hc, _, _, hcoder.hc, rfl⟩

/-- One call of `_compress`: a length and a block, whatever the history. -/
theorem Configured.compress {args : CreateArgs} {context : CompressContext}
    (h : Configured args context) {coder : StreamCoder} (hcoder : StreamCoderSpec coder)
    (hmax : args.buffer_size ≤ LZ4_MAX_INPUT_SIZE) (hscs : args.store_comp_size ∈ [1, 2, 4])
    (hfits : LZ4_compressBound args.buffer_size ≤ store_max_size args.store_comp_size)
    {chunk : List UInt8} (hchunk : chunk.length ≤ args.buffer_size) :
    ∃ result context' header block, Context.compress coder context chunk = .ok (result, context') ∧
      Configured args context' ∧ result.data = header ++ block ∧
      header.length = args.store_comp_size ∧ leNat header = block.length := by
  have hle : chunk.length ≤ LZ4_MAX_INPUT_SIZE := Nat.le_trans hchunk hmax
  have hbound : LZ4_compressBound chunk.length ≤ LZ4_compressBound args.buffer_size := by
    rw [compressBound_of_le hle, compressBound_of_le hmax]
    have hdiv : chunk.length / 255 ≤ args.buffer_size / 255 := Nat.div_le_div_right hchunk
    omega
  have hint : LZ4_compressBound args.buffer_size + 4 ≤ INT_MAX :=
    Container.compressBound_add_hdr_le
  obtain ⟨encode, w, level, hspec, hblock⟩ := compress_generic_block hcoder context chunk
  obtain ⟨hpos, hlt⟩ := hspec.length w chunk context.output_len level hle
    (by rw [h.output_len]; exact hbound)
  rw [← hblock] at hpos hlt
  unfold Context.compress
  rw [if_neg (by rw [h.page_size]; omega)]
  simp only
  generalize compress_generic coder
    { context with mem := store context.mem context.double_buffer.page chunk } chunk.length = r
    at hpos hlt ⊢
  rw [if_neg (by omega), h.store_comp_size]
  -- the check of the constructor rules out a length the header cannot hold
  obtain ⟨header, hheader⟩ : ∃ header, store_block_length r.1.length args.store_comp_size =
      some header := by
    have hsize : r.1.length ≤ store_max_size args.store_comp_size := by omega
    simp only [List.mem_cons, List.not_mem_nil, or_false] at hscs
    rcases hscs with e | e | e
    · rw [e] at hsize ⊢
      exact ⟨_, if_neg (by simp [store_max_size, GET_MAX_UINT32] at hsize; omega)⟩
    · rw [e] at hsize ⊢
      exact ⟨_, if_neg (by simp [store_max_size, GET_MAX_UINT32] at hsize; omega)⟩
    · rw [e]
      exact ⟨_, if_neg (by omega)⟩
  obtain ⟨hlen, hnat⟩ := store_block_length_spec hheader hscs
  rw [hheader]
  refine ⟨_, _, header, r.1, rfl, ⟨?_, ?_, ?_⟩, rfl, hlen, hnat⟩
  · exact h.page_size
  · exact h.output_len
  · rfl

/-- All chunks are compressed, and every result is a record for the reading loop. -/
theorem Configured.compressAll {args : CreateArgs} {coder : StreamCoder}
    (hcoder : StreamCoderSpec coder) (hmax : args.buffer_size ≤ LZ4_MAX_INPUT_SIZE)
    (hscs : args.store_comp_size ∈ [1, 2, 4])
    (hfits : LZ4_compressBound args.buffer_size ≤ store_max_size args.store_comp_size)
    (d : DecompressContext) (hd : d.store_comp_size = args.store_comp_size)
    {chunks : List (List UInt8)} (hchunks : ∀ chunk ∈ chunks, chunk.length ≤ args.buffer_size)
    {context : CompressContext} (h : Configured args context) :
    ∃ results context', compressAll coder context chunks = .ok (results, context') ∧
      results.length = chunks.length ∧
      ∀ r ∈ results.map (record args.store_comp_size),
        Reads (nextBlock d) INT_MAX (fun e => e.exc = .LZ4StreamError) r.1 r.2 := by
  induction chunks generalizing context with
  | nil => exact ⟨[], context, rfl, rfl, nofun⟩
  | cons chunk chunks ih =>
    obtain ⟨result, context', header, block, hfirst, hnext, hdata, hlen, hnat⟩ :=
      h.compress hcoder hmax hscs hfits (hchunks chunk List.mem_cons_self)
    obtain ⟨results, context'', hrest, hcount, hreads⟩ :=
      ih (fun x hx => hchunks x (List.mem_cons_of_mem _ hx)) hnext
    refine ⟨result :: results, context'', ?_, ?_, ?_⟩
    · simp only [Framing.compressAll, hfirst, hrest]
    · rw [List.length_cons, List.length_cons, hcount]
    · intro r hr
      rw [List.map_cons, List.mem_cons] at hr
      rcases hr with rfl | hr
      · have hrecord : record args.store_comp_size result = (header ++ block, block) := by
          rw [record, hdata, List.drop_left' hlen]
        rw [hrecord]
        exact reads_record hscs d hd hlen hnat
      · exact hreads r hr

/-! ## Every cut of the stream -/

/-- A decompressor for `smallArgs`. -/
def smallDecompressor : DecompressContext where
  mem := fun _ => 0
  double_buffer := ⟨2, 16, 0⟩
  output_len := 16
  lz4_state := LZ4_setStreamDecode 1 0
  store_comp_size := 4
  return_bytearray := false

end PythonLz4.Stream.Framing
