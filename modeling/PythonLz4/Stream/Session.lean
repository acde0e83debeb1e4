import PythonLz4.Stream.Compressors

/-!
# Streams of blocks

Any sequence of chunks through a compression context and a decompression context with the same
buffer size, header size and dictionary comes out unchanged as long as no chunk is a `conflict`
(`stream_roundtrip`), whatever the decoder does to its destination while it decodes.
-/

set_option autoImplicit false

namespace PythonLz4.Stream.Session

open PythonLz4.Block
open PythonLz4.Runtime
open PythonLz4.Lib.HistoryWindow
open PythonLz4.Lib.ByteMemory
open PythonLz4.Lib.LittleEndian
open PythonLz4.Block.DecompressGeneric
open PythonLz4.Block.LastLiterals
open PythonLz4.Block.Container (LZ4_MAX_INPUT_SIZE LZ4_compressBound compressBound_of_le)
open PythonLz4.Stream.Continue
open PythonLz4.Stream.Context
open PythonLz4.Stream.Mirror
open PythonLz4.Stream.Compressors

/-- What the wrapper needs of an encoder: given room for `LZ4_compressBound` bytes it makes a block,
which stays below that bound and decodes to the source with the window as history, wherever the
history lies. -/
structure EncoderSpec (encode : Encoder) : Prop where
  length : ∀ w source n level, source.length ≤ LZ4_MAX_INPUT_SIZE →
    LZ4_compressBound source.length ≤ n → 0 < (encode w source n level).length ∧
      (encode w source n level).length < LZ4_compressBound source.length
  decodes : ∀ w source n level, encode w source n level ≠ [] → ∀ (fastLoop : Bool) (cap : Nat),
    source.length ≤ cap →
      LZ4_decompress_generic fastLoop (callOf false w cap) (encode w source n level) = .ok source

structure StreamCoderSpec (coder : StreamCoder) : Prop where
  fast : EncoderSpec coder.fast
  hc : EncoderSpec coder.hc

/-! ## Sizes and headers -/

/-- The bound `_decompress` derives from the size of a block never exceeds the page, for a block
that stays below `LZ4_compressBound`. -/
theorem get_input_bound_le {n B c : Nat} (hn : n ≤ B) (hB : 1 ≤ B) (hmax : B ≤ LZ4_MAX_INPUT_SIZE)
    (hc : c < LZ4_compressBound n) : get_input_bound c ≠ 0 ∧ get_input_bound c ≤ B := by
  rw [compressBound_of_le (Nat.le_trans hn hmax)] at hc
  have hlimit : get_compress_bound LZ4_MAX_INPUT_SIZE = 2122219150 := by decide
  have hM : LZ4_MAX_INPUT_SIZE = 2113929216 := rfl
  unfold get_input_bound
  simp only [hlimit]
  by_cases hsmall : c < 16
  · rw [if_pos hsmall, if_pos (by omega), if_neg (by omega)]
    omega
  · rw [if_neg hsmall, if_pos (by omega), if_neg (by omega)]
    omega

/-- The header of a block, and the block behind it. -/
theorem blockOf_header (d : DecompressContext) (block : List UInt8) {scs : Nat}
    (hd : d.store_comp_size = scs) (hscs : scs ∈ [0, 1, 2, 4])
    (hlen : block.length ≤ store_max_size scs) (hint : block.length + 4 ≤ INT_MAX) :
    ∃ header, store_block_length block.length scs = some header ∧
      blockOf d (header ++ block) = .ok block := by
  have hkey : ∀ k, k ≠ 0 → k ≤ 4 → d.store_comp_size = k → block.length < 256 ^ k →
      blockOf d (leBytes k block.length ++ block) = .ok block := by
    intro k hk0 hk4 hdk hlt
    have hlk : (leBytes k block.length).length = k := length_leBytes k _
    have hload : load_block_length k (leBytes k block.length ++ block) = block.length := by
      rw [load_block_length, List.take_left' hlk, leNat_leBytes_of_lt hlt]
    have htotal : (leBytes k block.length ++ block).length = k + block.length := by
      rw [List.length_append, hlk]
    simp only [blockOf, get_block, hdk, hload, htotal, if_neg hk0]
    rw [if_neg (by omega), if_neg (by omega), if_neg (by omega), List.drop_left' hlk,
      List.take_of_length_le (Nat.le_refl _)]
  simp only [List.mem_cons, List.not_mem_nil, or_false] at hscs
  simp only [store_max_size, GET_MAX_UINT32] at hlen
  rcases hscs with rfl | rfl | rfl | rfl
  · refine ⟨[], rfl, ?_⟩
    rw [blockOf, if_pos hd, List.nil_append]
  · refine ⟨_, if_neg ?_, hkey 1 (by decide) (by decide) hd ?_⟩
    · simp at hlen
      omega
    · simp at hlen
      omega
  · refine ⟨_, if_neg ?_, hkey 2 (by decide) (by decide) hd ?_⟩
    · simp at hlen
      omega
    · simp at hlen
      omega
  · refine ⟨_, if_neg (by omega), hkey 4 (by decide) (by decide) hd ?_⟩
    simp at hlen
    omega

/-- What becomes of one chunk, with the output buffer of the context. -/
theorem EncoderSpec.block {encode : Encoder} (hspec : EncoderSpec encode) {chunk : List UInt8}
    {B : Nat} (hchunk : chunk.length ≤ B) (hB : B ≤ LZ4_MAX_INPUT_SIZE) (w : List UInt8)
    (level : Int) :
    0 < (encode w chunk (LZ4_compressBound B) level).length ∧
      (encode w chunk (LZ4_compressBound B) level).length < LZ4_compressBound chunk.length ∧
      ∀ (fastLoop : Bool) (cap : Nat), chunk.length ≤ cap →
        LZ4_decompress_generic fastLoop (callOf false w cap)
          (encode w chunk (LZ4_compressBound B) level) = .ok chunk := by
  have hmax : chunk.length ≤ LZ4_MAX_INPUT_SIZE := Nat.le_trans hchunk hB
  have hbound : LZ4_compressBound chunk.length ≤ LZ4_compressBound B := by
    rw [compressBound_of_le hmax, compressBound_of_le hB]
    have hdiv : chunk.length / 255 ≤ B / 255 := Nat.div_le_div_right hchunk
    omega
  obtain ⟨hpos, hlt⟩ := hspec.length w chunk _ level hmax hbound
  exact ⟨hpos, hlt, hspec.decodes w chunk _ level (List.ne_nil_of_length_pos hpos)⟩

/-! ## One chunk -/

/-- The compressor is the one of the high compression mode. -/
def isHC : CompressState → Bool
  | .fast _ => false
  | .hc _ => true

/-- The compressor's record against the decoder's, in either mode. -/
def StateSynced {L B : Nat} (cp dp : Placement L B) (index prev2 prev1 : Nat) (cm dm : Memory)
    (st : LZ4_streamDecode_t) : CompressState → Prop
  | .fast fst => FastSynced cp dp index prev2 prev1 cm dm fst st
  | .hc ctx => HCSynced cp dp index prev2 prev1 cm dm ctx st

/-- Two contexts with the same pages, header size and dictionary, between two chunks; the last two
chunks had `prev2` and `prev1` bytes. -/
structure Synced {L B : Nat} (cp dp : Placement L B) (hc : Bool) (index prev2 prev1 : Nat)
    (c : CompressContext) (d : DecompressContext) : Prop where
  c_buffer : c.double_buffer = ⟨cp.buf, B, index⟩
  d_buffer : d.double_buffer = ⟨dp.buf, B, index⟩
  index_le : index ≤ 1
  prev1_le : prev1 ≤ B
  size_pos : 1 ≤ B
  size_le : B ≤ LZ4_MAX_INPUT_SIZE
  c_output : c.output_len = LZ4_compressBound B
  d_output : d.output_len = B
  header : d.store_comp_size = c.store_comp_size
  header_mem : c.store_comp_size ∈ [0, 1, 2, 4]
  header_fits : LZ4_compressBound B ≤ store_max_size c.store_comp_size
  mode : isHC c.lz4_state = hc
  state : StateSynced cp dp index prev2 prev1 c.mem d.mem d.lz4_state c.lz4_state

variable {L B : Nat} {cp dp : Placement L B} {hc : Bool} {index prev2 prev1 : Nat}
  {c : CompressContext} {d : DecompressContext} {coder : StreamCoder}

/-- Either compressor hands its encoder a window the decoder agrees with, and stays together with
the decoder, on memories that may change in the first `M` bytes of the page. -/
theorem StateSynced.step_within (coder : StreamCoder)
    (h : Synced cp dp hc index prev2 prev1 c d) {chunk : List UInt8} {M : Nat} (hM : M ≤ B)
    (hok : ¬ conflictWithin hc B M index prev2 prev1 chunk.length) {cm' dm' found : Memory}
    (hcm : Written c.mem cm' (cp.buf + index * B) M chunk)
    (hdm : Written d.mem dm' (dp.buf + index * B) M chunk)
    (hfound : SameOutside d.mem found (dp.buf + index * B) M) :
    ∃ (encode : Encoder) (w : List UInt8) (level : Int) (state : CompressState),
      (encode = coder.fast ∨ encode = coder.hc) ∧
      compress_generic coder { c with mem := cm' } chunk.length =
        (encode w chunk (LZ4_compressBound B) level, state) ∧
      isHC state = hc ∧
      (chunk = [] ∨ AgreeBack (KB64 - 1) w
        (decodeHistory found d.lz4_state (dp.buf + index * B))) ∧
      StateSynced cp dp ((index + 1) % 2) prev1 chunk.length cm' dm'
        (advance d.lz4_state (dp.buf + index * B) chunk.length) state := by
  have hstate := h.state
  have hmode := h.mode
  have hload := hcm.load_eq
  unfold compress_generic
  simp only [h.c_buffer, double_buffer.page, h.c_output]
  cases hs : c.lz4_state with
  | fast fst =>
    rw [hs] at hstate hmode
    obtain rfl := hmode
    obtain ⟨hagree, hnext⟩ := FastSynced.step_within hstate h.index_le h.prev1_le hM hok rfl rfl hcm
      hdm hfound rfl
    simp only [compress_fast_continue_eq, hload]
    exact ⟨coder.fast, _, _, _, Or.inl rfl, rfl, rfl, hagree, hnext⟩
  | hc ctx =>
    rw [hs] at hstate hmode
    obtain rfl := hmode
    obtain ⟨hagree, hnext⟩ := HCSynced.step_within hstate h.size_pos h.index_le h.prev1_le hM hok hcm
      hdm hfound
    simp only [LZ4_compress_HC_continue, hload]
    exact ⟨coder.hc, _, _, _, Or.inr rfl, rfl, rfl, hagree, hnext⟩

/-- One chunk through either compressor, when the decoder may write anywhere in its page. -/
theorem StateSynced.step (hcoder : StreamCoderSpec coder) (h : Synced cp dp hc index prev2 prev1 c d)
    {chunk : List UInt8} (hchunk : chunk.length ≤ B)
    (hok : ¬ conflict hc B index prev2 prev1 chunk.length) (during after : Memory) :
    ∃ (w block : List UInt8) (state : CompressState),
      compress_generic coder
          { c with mem := store c.mem (cp.buf + index * B) chunk } chunk.length =
        (block, state) ∧
      isHC state = hc ∧ 0 < block.length ∧ block.length < LZ4_compressBound chunk.length ∧
      (∀ (fastLoop : Bool) (cap : Nat), chunk.length ≤ cap →
        LZ4_decompress_generic fastLoop (callOf false w cap) block = .ok chunk) ∧
      (chunk = [] ∨ AgreeBack (KB64 - 1) w
        (decodeHistory (clobber d.mem (dp.buf + index * B) B during) d.lz4_state
          (dp.buf + index * B))) ∧
      StateSynced cp dp ((index + 1) % 2) prev1 chunk.length
        (store c.mem (cp.buf + index * B) chunk)
        (store (clobber d.mem (dp.buf + index * B) B after) (dp.buf + index * B) chunk)
        (advance d.lz4_state (dp.buf + index * B) chunk.length) state := by
  obtain ⟨encode, w, level, state, hencode, hgeneric, hmode, hagree, hnext⟩ :=
    StateSynced.step_within coder h (Nat.le_refl B) (not_conflictWithin_page hok)
      (written_store c.mem _ hchunk) ((sameOutside_clobber d.mem after _ B).store hchunk)
      (sameOutside_clobber d.mem during _ B)
  have hspec : EncoderSpec encode := by
    rcases hencode with rfl | rfl
    · exact hcoder.fast
    · exact hcoder.hc
  obtain ⟨hpos, hlt, hdecodes⟩ := hspec.block hchunk h.size_le w level
  exact ⟨w, _, state, hgeneric, hmode, hpos, hlt, hdecodes, hagree, hnext⟩

/-- A block the decoder can decode gets through the checks of both contexts. -/
theorem chunk_through {c : CompressContext} {d : DecompressContext} {cbuf dbuf Bc Bd ci di : Nat}
    (hcbuf : c.double_buffer = ⟨cbuf, Bc, ci⟩) (hdbuf : d.double_buffer = ⟨dbuf, Bd, di⟩)
    (hpos : 1 ≤ Bc) (hle : Bc ≤ Bd) (hmax : Bc ≤ LZ4_MAX_INPUT_SIZE) (houtput : d.output_len = Bd)
    (hheader : d.store_comp_size = c.store_comp_size) (hmem : c.store_comp_size ∈ [0, 1, 2, 4])
    (hfits : LZ4_compressBound Bc ≤ store_max_size c.store_comp_size) {chunk : List UInt8}
    (hchunk : chunk.length ≤ Bc) {w block : List UInt8} {state : CompressState}
    (hcomp : compress_generic coder { c with mem := store c.mem (cbuf + ci * Bc) chunk }
      chunk.length = (block, state))
    (hblock : 0 < block.length) (hlt : block.length < LZ4_compressBound chunk.length)
    {fastLoop : Bool} {scratch : Scratch}
    (hdecodes : LZ4_decompress_generic fastLoop (callOf false w Bd) block = .ok chunk)
    (hagree : chunk = [] ∨ AgreeBack (KB64 - 1) w
      (decodeHistory (clobber d.mem (dbuf + di * Bd) Bd scratch.during) d.lz4_state
        (dbuf + di * Bd))) :
    ∃ stream, compress coder c chunk = .ok (stream,
        { c with
          mem := store c.mem (cbuf + ci * Bc) chunk
          lz4_state := state
          double_buffer := double_buffer_update_index c.double_buffer }) ∧
      blockOf d stream.data = .ok block ∧
      decompress fastLoop scratch d block = .ok (⟨d.return_bytearray, chunk⟩,
        { d with
          mem := store (clobber d.mem (dbuf + di * Bd) Bd scratch.after) (dbuf + di * Bd) chunk
          lz4_state := advance d.lz4_state (dbuf + di * Bd) chunk.length
          double_buffer := double_buffer_update_index d.double_buffer }) := by
  have hbound : LZ4_compressBound chunk.length ≤ LZ4_compressBound Bc := by
    rw [compressBound_of_le (Nat.le_trans hchunk hmax), compressBound_of_le hmax]
    have hdiv : chunk.length / 255 ≤ Bc / 255 := Nat.div_le_div_right hchunk
    omega
  have hint : LZ4_compressBound Bc + 4 ≤ INT_MAX := Container.compressBound_add_hdr_le
  obtain ⟨header, hstore, hstrip⟩ := blockOf_header d block hheader hmem (by omega) (by omega)
  obtain ⟨hib0, hib⟩ := get_input_bound_le hchunk hpos hmax hlt
  have hdec := decompress_safe_continue_ok scratch d.mem d.lz4_state (dbuf + di * Bd) hdecodes
    hagree
  refine ⟨⟨c.return_bytearray, header ++ block⟩, ?_, hstrip, ?_⟩
  · have hpage : c.double_buffer.page = cbuf + ci * Bc := by rw [hcbuf]; rfl
    have hsize : c.double_buffer.page_size = Bc := by rw [hcbuf]
    unfold compress
    rw [if_neg (by omega)]
    simp only [hpage, hcomp, hstore]
    rw [if_neg (by omega)]
  · have hpage : d.double_buffer.page = dbuf + di * Bd := by rw [hdbuf]; rfl
    have hsize : d.double_buffer.page_size = Bd := by rw [hdbuf]
    unfold decompress
    rw [if_neg (by rw [hheader]; omega), if_neg (by omega)]
    simp only [hpage, hsize, hdec]
    rw [if_neg (by rw [houtput]; omega)]

/-- Both contexts go on to their other page. -/
theorem Synced.next (h : Synced cp dp hc index prev2 prev1 c d) {n : Nat} (hn : n ≤ B)
    {cm dm : Memory} {state : CompressState} {st : LZ4_streamDecode_t} (hmode : isHC state = hc)
    (hnext : StateSynced cp dp ((index + 1) % 2) prev1 n cm dm st state) :
    Synced cp dp hc ((index + 1) % 2) prev1 n
      { c with
        mem := cm
        lz4_state := state
        double_buffer := double_buffer_update_index c.double_buffer }
      { d with
        mem := dm
        lz4_state := st
        double_buffer := double_buffer_update_index d.double_buffer } where
  c_buffer := by simp only [h.c_buffer, double_buffer_update_index]
  d_buffer := by simp only [h.d_buffer, double_buffer_update_index]
  index_le := by omega
  prev1_le := hn
  size_pos := h.size_pos
  size_le := h.size_le
  c_output := h.c_output
  d_output := h.d_output
  header := h.header
  header_mem := h.header_mem
  header_fits := h.header_fits
  mode := hmode
  state := hnext

/-- One chunk through both contexts. -/
theorem Synced.step (hcoder : StreamCoderSpec coder) (h : Synced cp dp hc index prev2 prev1 c d)
    {chunk : List UInt8} (hchunk : chunk.length ≤ B)
    (hok : ¬ conflict hc B index prev2 prev1 chunk.length) (fastLoop : Bool) (scratch : Scratch) :
    ∃ stream block c' d', compress coder c chunk = .ok (stream, c') ∧
      blockOf d stream.data = .ok block ∧
      decompress fastLoop scratch d block = .ok (⟨d.return_bytearray, chunk⟩, d') ∧
      Synced cp dp hc ((index + 1) % 2) prev1 chunk.length c' d' := by
  obtain ⟨w, block, state, hcomp, hmode, hpos, hlt, hdecodes, hagree, hnext⟩ :=
    StateSynced.step hcoder h hchunk hok scratch.during scratch.after
  obtain ⟨stream, hcompress, hblock, hdecompress⟩ := chunk_through h.c_buffer h.d_buffer h.size_pos
    (Nat.le_refl B) h.size_le h.d_output h.header h.header_mem h.header_fits hchunk hcomp hpos hlt
    (hdecodes fastLoop B hchunk) hagree
  exact ⟨stream, block, _, _, hcompress, hblock, hdecompress, h.next hchunk hmode hnext⟩

/-! ## Whole streams -/

/-- No chunk of the stream is a `conflict`. -/
def NoConflict (hc : Bool) (B : Nat) : Nat → Nat → Nat → List Nat → Prop
  | _, _, _, [] => True
  | index, prev2, prev1, n :: ns =>
    ¬ conflict hc B index prev2 prev1 n ∧ NoConflict hc B ((index + 1) % 2) prev1 n ns

theorem Synced.session (hcoder : StreamCoderSpec coder) (fastLoop : Bool)
    (scratch : Nat → Scratch) {chunks : List (List UInt8)} (k : Nat)
    (h : Synced cp dp hc index prev2 prev1 c d) (hchunks : ∀ chunk ∈ chunks, chunk.length ≤ B)
    (hok : NoConflict hc B index prev2 prev1 (chunks.map List.length)) :
    session coder fastLoop scratch k c d chunks = .ok chunks := by
  induction chunks generalizing k index prev2 prev1 c d with
  | nil => rfl
  | cons chunk chunks ih =>
    obtain ⟨hfirst, hrest⟩ := hok
    obtain ⟨stream, block, c', d', hcompress, hblock, hdecompress, hnext⟩ :=
      h.step hcoder (hchunks chunk List.mem_cons_self) hfirst fastLoop (scratch k)
    have htail := ih (k + 1) hnext (fun x hx => hchunks x (List.mem_cons_of_mem _ hx)) hrest
    simp only [Context.session, hcompress, hblock, hdecompress, htail]

/-- The arguments `LZ4StreamDecompressor` passes on, for the buffer size, header size and
dictionary of a compressor. -/
def decompressArgs (args : CreateArgs) (return_bytearray : Bool) : CreateArgs where
  strategy := args.strategy
  direction := "decompress"
  buffer_size := args.buffer_size
  return_bytearray := return_bytearray
  store_comp_size := args.store_comp_size
  dictionary := args.dictionary

/-- A new decompressor's record is placed with the dictionary. -/
theorem decoderPlaced_init (dp : Placement L B) :
    DecoderPlaced dp (LZ4_setStreamDecode dp.dict L) where
  size_le := Nat.le_add_left _ _
  ne_page hne := by
    have ha := dp.apart
    simp only [LZ4_setStreamDecode] at hne ⊢
    omega

/-- The bytes of the dictionary as both sides hold them. -/
theorem mirrored_dictionary (cm dm : Memory) (p q : Nat) (dict : List UInt8) {s : Nat}
    (hs : s ≤ dict.length) :
    Mirrored (store cm p dict) (p + dict.length) (store dm q dict) (q + dict.length) s :=
  fun i h0 hi => mirrored_chunk cm dm p q dict i h0 (Nat.le_trans hi hs)

theorem dictionary_segment {dict : List UInt8} (cp dp : Placement dict.length B) (cm dm : Memory)
    {s : Nat} (hs : s ≤ dict.length) :
    Segment cp dp 0 0 0 (store cm cp.dict dict) (store dm dp.dict dict) (cp.dict + dict.length) s
      (LZ4_setStreamDecode dp.dict dict.length) where
  size_le := hs
  mirrored := mirrored_dictionary cm dm _ _ dict hs
  place := .dictionary rfl rfl rfl hs

theorem createState_synced {dict : List UInt8} (cp dp : Placement dict.length B)
    (cm dm : Memory) (comp : Container.compression_type) :
    StateSynced cp dp 0 0 0 (store cm cp.dict dict) (store dm dp.dict dict)
      (LZ4_setStreamDecode dp.dict dict.length) (createState comp cp.dict dict.length) := by
  have h64 : KB64 = 65536 := rfl
  have hplaced := decoderPlaced_init dp
  have hseg := fun s => dictionary_segment cp dp cm dm (s := s)
  unfold createState
  by_cases hcomp : comp = .HIGH_COMPRESSION
  · rw [if_pos hcomp]
    by_cases hpos : 0 < dict.length
    · rw [if_pos hpos]
      have ha := cp.apart
      have hend : (LZ4_loadDictHC cp.dict dict.length).bufEnd = cp.dict + dict.length := by
        simp only [LZ4_loadDictHC]
        split_ifs <;> omega
      have hstart : (LZ4_loadDictHC cp.dict dict.length).prefixStart =
          cp.dict + dict.length - min dict.length KB64 := by
        simp only [LZ4_loadDictHC, LZ4HC_init_internal]
        split_ifs <;> omega
      have hsize : (LZ4_loadDictHC cp.dict dict.length).bufEnd -
          (LZ4_loadDictHC cp.dict dict.length).prefixStart = min dict.length KB64 := by omega
      exact
        { placed := hplaced
          start_le := by omega
          page0 := fun _ => Or.inr (by omega)
          page1 := fun h => absurd rfl h
          segment := Or.inr (by
            rw [hsize, hend]
            exact hseg _ (Nat.min_le_left _ _))
          full := fun h => absurd rfl h }
    · rw [if_neg hpos]
      exact
        { placed := hplaced
          start_le := Nat.le_refl _
          page0 := fun _ => Or.inl rfl
          page1 := fun h => absurd rfl h
          segment := Or.inl rfl
          full := fun h => absurd rfl h }
  · rw [if_neg hcomp]
    refine ⟨hplaced, ?_⟩
    by_cases hpos : 0 < dict.length
    · rw [if_pos hpos, LZ4_loadDict]
      by_cases hunit : dict.length < HASH_UNIT
      · rw [if_pos hunit]
        exact Or.inl rfl
      · rw [if_neg hunit]
        refine Or.inr ?_
        by_cases hlong : KB64 < dict.length
        · have hs := hseg KB64 (by omega)
          have e1 : cp.dict + dict.length - KB64 + KB64 = cp.dict + dict.length := by omega
          have e2 : cp.dict + dict.length - (cp.dict + dict.length - KB64) = KB64 := by omega
          simp only [if_pos hlong, e2, e1]
          exact hs
        · have hs := hseg dict.length (Nat.le_refl _)
          simp only [if_neg hlong, Nat.add_sub_cancel_left]
          exact hs
    · rw [if_neg hpos]
      exact Or.inl rfl

/-- The compression context `_create_context` makes. -/
def compressContext (args : CreateArgs)
    (place : Placement args.dictionary.length args.buffer_size) (mem : Memory)
    (comp : Container.compression_type) : CompressContext where
  mem := store mem place.dict args.dictionary
  double_buffer := ⟨place.buf, args.buffer_size, 0⟩
  output_len := get_compress_bound args.buffer_size
  lz4_state := createState comp place.dict args.dictionary.length
  acceleration := args.acceleration
  compression_level := args.compression_level
  store_comp_size := args.store_comp_size
  return_bytearray := args.return_bytearray
  comp := comp

/-- The decompression context `_create_context` makes. -/
def decompressContext (args : CreateArgs)
    (place : Placement args.dictionary.length args.buffer_size) (mem : Memory) :
    DecompressContext where
  mem := store mem place.dict args.dictionary
  double_buffer := ⟨place.buf, args.buffer_size, 0⟩
  output_len := args.buffer_size
  lz4_state := LZ4_setStreamDecode place.dict args.dictionary.length
  store_comp_size := args.store_comp_size
  return_bytearray := args.return_bytearray

/-- What `_create_context` has checked when it succeeds, and what it has made. -/
theorem create_context_cases {args : CreateArgs}
    {place : Placement args.dictionary.length args.buffer_size} {mem : Memory}
    {context : stream_context_t} (h : create_context args place mem = .ok context) :
    args.dictionary.length ≤ INT_MAX ∧ args.store_comp_size ∈ [0, 1, 2, 4] ∧
      args.strategy = "double_buffer" ∧ ∃ comp, parseMode args.mode = some comp ∧
      ((args.direction = "compress" ∧ get_compress_bound args.buffer_size ≠ 0 ∧
          get_compress_bound args.buffer_size ≤ store_max_size args.store_comp_size ∧
          context = .compress (compressContext args place mem comp)) ∨
        (args.direction = "decompress" ∧
          context = .decompress (decompressContext args place mem))) := by
  unfold create_context at h
  by_cases h1 : INT_MAX < args.dictionary.length
  · rw [if_pos h1] at h
    cases h
  rw [if_neg h1] at h
  by_cases h2 : args.store_comp_size ∉ [0, 1, 2, 4]
  · rw [if_pos h2] at h
    cases h
  rw [if_neg h2] at h
  by_cases h3 : args.strategy ∉ ["double_buffer", "ring_buffer"]
  · rw [if_pos h3] at h
    cases h
  rw [if_neg h3] at h
  by_cases h4 : args.direction ∉ ["compress", "decompress"]
  · rw [if_pos h4] at h
    cases h
  rw [if_neg h4] at h
  rw [not_not] at h2 h3 h4
  refine ⟨Nat.le_of_not_lt h1, h2, ?_⟩
  cases hmode : parseMode args.mode with
  | none => simp [hmode] at h
  | some comp =>
    simp only [hmode] at h
    simp only [List.mem_cons, List.not_mem_nil, or_false] at h3 h4
    by_cases hdir : args.direction = "compress"
    · simp only [if_pos hdir] at h
      split_ifs at h with h5 h6 h7
      have hcontext := (Except.ok.inj h).symm
      exact ⟨h3.resolve_right h7, comp, rfl, .inl ⟨hdir, h5, Nat.le_of_not_lt h6, hcontext⟩⟩
    · simp only [if_neg hdir] at h
      split_ifs at h with h7
      have hcontext := (Except.ok.inj h).symm
      exact ⟨h3.resolve_right h7, comp, rfl, .inr ⟨h4.resolve_left hdir, hcontext⟩⟩

/-- What a compression context was created from. -/
theorem create_context_compress {args : CreateArgs}
    {cp : Placement args.dictionary.length args.buffer_size} {cmem : Memory}
    {c : CompressContext} (h : create_context args cp cmem = .ok (.compress c)) :
    args.dictionary.length ≤ INT_MAX ∧ args.store_comp_size ∈ [0, 1, 2, 4] ∧
      args.strategy = "double_buffer" ∧ get_compress_bound args.buffer_size ≠ 0 ∧
      get_compress_bound args.buffer_size ≤ store_max_size args.store_comp_size ∧
      ∃ comp, parseMode args.mode = some comp ∧ c =
        { mem := store cmem cp.dict args.dictionary
          double_buffer := ⟨cp.buf, args.buffer_size, 0⟩
          output_len := get_compress_bound args.buffer_size
          lz4_state := createState comp cp.dict args.dictionary.length
          acceleration := args.acceleration
          compression_level := args.compression_level
          store_comp_size := args.store_comp_size
          return_bytearray := args.return_bytearray
          comp } := by
  obtain ⟨hdict, hscs, hstrategy, comp, hmode, ⟨-, hbound, hfits, hc⟩ | ⟨-, hd⟩⟩ :=
    create_context_cases h
  · exact ⟨hdict, hscs, hstrategy, hbound, hfits, comp, hmode, stream_context_t.compress.inj hc⟩
  · cases hd

/-- A decompression context is the one its arguments describe. -/
theorem create_context_decompress_eq {args : CreateArgs}
    {dp : Placement args.dictionary.length args.buffer_size} {dmem : Memory}
    {d : DecompressContext} (h : create_context args dp dmem = .ok (.decompress d)) :
    d = decompressContext args dp dmem := by
  obtain ⟨-, -, -, comp, -, ⟨-, -, -, hc⟩ | ⟨-, hd⟩⟩ := create_context_cases h
  · cases hc
  · exact stream_context_t.decompress.inj hd

/-- A decompression context for the same streams, with pages of a size of its own. -/
theorem create_context_decompress_size {args : CreateArgs}
    (hdict : args.dictionary.length ≤ INT_MAX) (hscs : args.store_comp_size ∈ [0, 1, 2, 4])
    (hstrategy : args.strategy = "double_buffer") (return_bytearray : Bool) (buffer_size : Nat)
    (dp : Placement args.dictionary.length buffer_size) (dmem : Memory) :
    create_context { decompressArgs args return_bytearray with buffer_size } dp dmem =
      .ok (.decompress
        { mem := store dmem dp.dict args.dictionary
          double_buffer := ⟨dp.buf, buffer_size, 0⟩
          output_len := buffer_size
          lz4_state := LZ4_setStreamDecode dp.dict args.dictionary.length
          store_comp_size := args.store_comp_size
          return_bytearray }) := by
  have h1 : ¬ INT_MAX < (decompressArgs args return_bytearray).dictionary.length :=
    Nat.not_lt.2 hdict
  have h2 : ¬ (decompressArgs args return_bytearray).store_comp_size ∉ [0, 1, 2, 4] :=
    not_not.2 hscs
  have h3 : ¬ (decompressArgs args return_bytearray).strategy ∉
      ["double_buffer", "ring_buffer"] := by
    rw [decompressArgs, hstrategy]
    decide
  have h4 : ¬ (decompressArgs args return_bytearray).direction ∉ ["compress", "decompress"] := by
    simp [decompressArgs]
  have hmode : parseMode (decompressArgs args return_bytearray).mode = some .DEFAULT := rfl
  have hdir : (decompressArgs args return_bytearray).direction ≠ "compress" := by
    simp [decompressArgs]
  have hring : (decompressArgs args return_bytearray).strategy ≠ "ring_buffer" := by
    rw [decompressArgs, hstrategy]
    decide
  unfold create_context
  rw [if_neg h1, if_neg h2, if_neg h3, if_neg h4]
  simp only [hmode, if_neg hdir, if_neg hring]
  rfl

theorem create_context_decompress {args : CreateArgs}
    (hdict : args.dictionary.length ≤ INT_MAX) (hscs : args.store_comp_size ∈ [0, 1, 2, 4])
    (hstrategy : args.strategy = "double_buffer") (return_bytearray : Bool)
    (dp : Placement args.dictionary.length args.buffer_size) (dmem : Memory) :
    create_context (decompressArgs args return_bytearray) dp dmem =
      .ok (.decompress
        { mem := store dmem dp.dict args.dictionary
          double_buffer := ⟨dp.buf, args.buffer_size, 0⟩
          output_len := args.buffer_size
          lz4_state := LZ4_setStreamDecode dp.dict args.dictionary.length
          store_comp_size := args.store_comp_size
          return_bytearray }) :=
  create_context_decompress_size hdict hscs hstrategy return_bytearray args.buffer_size dp dmem

theorem isHC_createState {mode : String} {comp : Container.compression_type}
    (h : parseMode mode = some comp) (dict dictLen : Nat) :
    isHC (createState comp dict dictLen) = decide (mode = "high_compression") := by
  unfold parseMode at h
  split_ifs at h with h1 h2 h3
  · obtain rfl := Option.some.inj h
    rw [h1]
    rfl
  · obtain rfl := Option.some.inj h
    rw [h2]
    rfl
  · obtain rfl := Option.some.inj h
    rw [h3]
    rfl

/-- A compression context, and the decompression context made with the same buffer size, header
size and dictionary. -/
theorem create_context_synced {args : CreateArgs} (hB : 1 ≤ args.buffer_size)
    (cp dp : Placement args.dictionary.length args.buffer_size) {cmem : Memory}
    {c : CompressContext} (hcreate : create_context args cp cmem = .ok (.compress c))
    (return_bytearray : Bool) (dmem : Memory) :
    ∃ d, create_context (decompressArgs args return_bytearray) dp dmem = .ok (.decompress d) ∧
      Synced cp dp (decide (args.mode = "high_compression")) 0 0 0 c d := by
  obtain ⟨hdict, hscs, hstrategy, hbound, hfits, comp, hmode, rfl⟩ :=
    create_context_compress hcreate
  refine ⟨_, create_context_decompress hdict hscs hstrategy return_bytearray dp dmem, ?_⟩
  have hmax : args.buffer_size ≤ LZ4_MAX_INPUT_SIZE := by
    by_contra hbig
    exact hbound (if_pos (Nat.lt_of_not_le hbig))
  exact
    { c_buffer := rfl
      d_buffer := rfl
      index_le := Nat.zero_le 1
      prev1_le := Nat.zero_le _
      size_pos := hB
      size_le := hmax
      c_output := rfl
      d_output := rfl
      header := rfl
      header_mem := hscs
      header_fits := hfits
      mode := isHC_createState hmode _ _
      state := createState_synced cp dp cmem dmem comp }

/-- The encoder that finds no match, as the library does on short sources. -/
def literalEncoder : Encoder := fun _ source _ _ => lastLiterals source

theorem literalEncoder_spec : EncoderSpec literalEncoder where
  length _ source n _ hsource _ := by
    obtain ⟨hlt, hpos⟩ := length_lastLiterals source
    rw [compressBound_of_le hsource]
    exact ⟨hpos, hlt⟩
  decodes w source _ _ _ fastLoop cap hcap := by
    rw [← LZ4_decompress_safe_usingDict_ok_iff]
    exact usingDict_lastLiterals fastLoop false source w hcap

/-- The lowest addresses the two objects can have: no dictionary, and pages of 16 bytes. -/
def lowPlacement : Placement 0 16 where
  dict := 1
  buf := 2
  buf_ne_null := by decide
  dict_ne_null := by decide
  apart := by decide

/-- A compressor with pages of 16 bytes and no dictionary. -/
def smallArgs : CreateArgs where
  strategy := "double_buffer"
  direction := "compress"
  buffer_size := 16

theorem smallArgs_created :
    ∃ c, create_context smallArgs lowPlacement (fun _ => 0) = .ok (.compress c) := ⟨_, rfl⟩

/-- The chunk that fills page 0. -/
def fullPage : List UInt8 := [10, 11, 12, 13, 14, 15, 16, 17, 18, 19, 20, 21, 22, 23, 24, 25]

/-- A chunk that starts like the end of page 0 and the start of page 1. -/
def shortPage : List UInt8 := [23, 24, 25, 1, 5, 5, 5, 5, 5, 5, 5, 5, 5]

/-- The window behind `shortPage`: the end of page 0 and the four bytes on page 1. -/
def keptWindow : List UInt8 := [23, 24, 25, 1, 2, 3, 4]

/-- A match of four bytes at distance seven, and nine literals. -/
def matchBlock : List UInt8 := [0, 7, 0, 0x90, 5, 5, 5, 5, 5, 5, 5, 5, 5]

/-- An encoder that finds this one match. -/
def matchEncoder : Encoder := fun w source _ _ =>
  if w = keptWindow ∧ source = shortPage then matchBlock else lastLiterals source

/-- A match of the first four bytes of the window, and nine literals. -/
theorem decodes_oneMatch {w rest : List UInt8} {a b c d offset : UInt8}
    (hw : w = a :: b :: c :: d :: rest) (hoffset : offset.toNat = w.length) {cap : Nat}
    (hcap : 13 ≤ cap) :
    Decodes (callOf false w cap) [0, offset, 0, 0x90, 5, 5, 5, 5, 5, 5, 5, 5, 5] []
      [a, b, c, d, 5, 5, 5, 5, 5, 5, 5, 5, 5] := by
  have hcapP : (callOf false w cap).outputSize = cap := callOf_outputSize _ _ _
  have hnat : leNat [offset, 0] = w.length := by
    rw [← hoffset]
    simp [leNat]
  have hmatch : matchBytes (w ++ []) w.length 4 = [a, b, c, d] := by
    subst hw
    simp [matchBytes]
  have hliterals : (0 : UInt8).toNat / 16 ≠ RUN_MASK := by decide
  have hlength : (0 : UInt8).toNat % 16 ≠ ML_MASK := by decide
  have hat : Sequence.At ⟨0, [offset, 0, 0x90, 5, 5, 5, 5, 5, 5, 5, 5, 5], [], offset, 0,
      [0x90, 5, 5, 5, 5, 5, 5, 5, 5, 5], 4, [0x90, 5, 5, 5, 5, 5, 5, 5, 5, 5]⟩
      [0, offset, 0, 0x90, 5, 5, 5, 5, 5, 5, 5, 5, 5] :=
    ⟨rfl, literalLength_of_ne hliterals _, matchLength_of_ne hlength _⟩
  refine .sequence hat (Or.inr ⟨Or.inr ⟨?_, Nat.le_of_ble_eq_true rfl⟩, fun _ => ?_, ?_⟩) ?_
  · rw [hcapP]
    simp only [List.length_nil, MFLIMIT]
    omega
  · show leNat [offset, 0] ≤ _
    rw [hnat]
    exact Nat.le_add_left _ _
  · rw [hcapP]
    simp only [List.append_nil, List.length_nil, LASTLITERALS]
    omega
  · have happly : Sequence.apply (callOf false w cap)
        ⟨0, [offset, 0, 0x90, 5, 5, 5, 5, 5, 5, 5, 5, 5], [], offset, 0,
          [0x90, 5, 5, 5, 5, 5, 5, 5, 5, 5], 4, [0x90, 5, 5, 5, 5, 5, 5, 5, 5, 5]⟩ [] =
        [a, b, c, d] := by
      simp only [Sequence.apply, Sequence.offset, hnat, callOf_history, List.append_nil,
        List.nil_append] at hmatch ⊢
      exact hmatch
    rw [happly]
    exact @Decodes.lastLiterals _ _ [a, b, c, d] _ [5, 5, 5, 5, 5, 5, 5, 5, 5] _ rfl rfl
      (by rw [hcapP]; simpa using hcap)

/-- An encoder that has a block of its own for one window and one source. -/
def blockEncoder (w source block : List UInt8) : Encoder := fun w' source' _ _ =>
  if w' = w ∧ source' = source then block else lastLiterals source'

theorem blockEncoder_spec {w source block : List UInt8}
    (hpos : 0 < block.length) (hlt : block.length < LZ4_compressBound source.length)
    (hblock : ∀ cap, source.length ≤ cap → cap ≠ 0 ∧ Decodes (callOf false w cap) block [] source) :
    EncoderSpec (blockEncoder w source block) where
  length w' source' n level hsource hn := by
    unfold blockEncoder
    split_ifs with h
    · rw [h.2]
      exact ⟨hpos, hlt⟩
    · exact literalEncoder_spec.length w' source' n level hsource hn
  decodes w' source' n level _ fastLoop cap hcap := by
    unfold blockEncoder
    split_ifs with h
    · obtain ⟨rfl, rfl⟩ := h
      obtain ⟨h0, hdecodes⟩ := hblock cap hcap
      exact callOf_ok_iff.2 ⟨fun h => absurd h h0, hdecodes⟩
    · rw [← LZ4_decompress_safe_usingDict_ok_iff]
      exact usingDict_lastLiterals fastLoop false source' w' hcap

theorem matchEncoder_spec : EncoderSpec matchEncoder :=
  @blockEncoder_spec keptWindow shortPage matchBlock (by decide) (by decide) fun cap hcap => by
    have h13 : 13 ≤ cap := hcap
    exact ⟨by omega, @decodes_oneMatch keptWindow [2, 3, 4] 23 24 25 1 7 rfl rfl cap h13⟩

end PythonLz4.Stream.Session
