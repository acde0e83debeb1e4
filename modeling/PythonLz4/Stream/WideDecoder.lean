import PythonLz4.Stream.FailedCalls

/-!
# A decompressor with larger pages

With larger pages on its side the decoder never finds two chunks next to each other: it has the last
chunk as history and nothing else. The compressor keeps a full page 0 in its window while it
compresses to page 0 again, so the chunks that cannot be decoded are those of the same size
(`conflict`), for another reason (`stream_roundtrip_sizes`).
-/

set_option autoImplicit false

namespace PythonLz4.Stream.WideDecoder

open PythonLz4.Block
open PythonLz4.Runtime
open PythonLz4.Lib.HistoryWindow
open PythonLz4.Lib.ByteMemory
open PythonLz4.Block.DecompressGeneric
open PythonLz4.Block.Container (LZ4_MAX_INPUT_SIZE LZ4_compressBound compressBound_of_le)
open PythonLz4.Stream.Continue
open PythonLz4.Stream.Context
open PythonLz4.Stream.Mirror
open PythonLz4.Stream.Compressors
open PythonLz4.Stream.Session
open PythonLz4.Stream.FailedCalls

section Sides

variable {L B₁ B₂ : Nat}

/-- The decoder has the last `prev1` bytes in front of `dEnd`, the compressor `s` bytes in front of
`cEnd`: both end with the dictionary, before any chunk, or with the last chunk. On page 1 the
compressor may have a full page 0 in front of that chunk. -/
inductive WidePlace (cp : Placement L B₁) (dp : Placement L B₂) (index prev2 prev1 : Nat)
    (cEnd dEnd s m : Nat) : Prop where
  | dictionary (first : index = 0) (cEnd_eq : cEnd = cp.dict + L) (dEnd_eq : dEnd = dp.dict + L)
      (size_eq : m = L) (le : s ≤ L)
  | chunk (pos : 0 < prev1)
      (cEnd_eq : cEnd = cp.buf + pageEnd B₁ index prev1)
      (dEnd_eq : dEnd = dp.buf + pageEnd B₂ index prev1) (size_eq : m = prev1)
      (le : s = prev1 ∨ (index = 0 ∧ prev2 = B₁ ∧ s ≤ B₁ + prev1))

/-- The compressor's window against the decoder's. -/
structure WideSynced (cp : Placement L B₁) (dp : Placement L B₂) (index prev2 prev1 : Nat)
    (cm dm : Memory) (fst : LZ4_stream_t) (st : LZ4_streamDecode_t) : Prop where
  size_le : st.prefixSize ≤ st.prefixEnd
  segment : (fst.dictSize = 0 ∧ index = 0 ∧ st.prefixEnd = dp.dict + L ∧ st.prefixSize = L) ∨
    (WidePlace cp dp index prev2 prev1 (fst.dictionary + fst.dictSize) st.prefixEnd fst.dictSize
        st.prefixSize ∧
      Mirrored cm (fst.dictionary + fst.dictSize) dm st.prefixEnd
        (min fst.dictSize st.prefixSize))

variable {cp : Placement L B₁} {dp : Placement L B₂} {index prev2 prev1 : Nat} {cm dm : Memory}
  {fst : LZ4_stream_t} {st : LZ4_streamDecode_t}

/-- Larger pages are never full, so the decoder never rolls on. -/
theorem WideSynced.ne_dest (h : WideSynced cp dp index prev2 prev1 cm dm fst st)
    (hlt : B₁ < B₂) (hindex : index ≤ 1) (hprev : prev1 ≤ B₁) (_ : st.prefixSize ≠ 0) :
    st.prefixEnd ≠ dp.buf + index * B₂ := by
  have ha := dp.apart
  have hdict : index = 0 → st.prefixEnd = dp.dict + L → st.prefixSize = L →
      st.prefixEnd ≠ dp.buf + index * B₂ := by
    intro h0 hend hsize
    subst h0
    omega
  rcases h.segment with ⟨-, h0, hend, hsize⟩ | ⟨hplace, -⟩
  · exact hdict h0 hend hsize
  · cases hplace with
    | dictionary first _ hd hs => exact hdict first hd hs
    | chunk hpos _ hd _ _ =>
      obtain rfl | rfl : index = 0 ∨ index = 1 := by omega
      · simp only [pageEnd, if_true] at hd
        omega
      · simp only [pageEnd, Nat.one_ne_zero, if_false] at hd
        omega

/-- The decoder's record after a chunk is the chunk. -/
theorem advance_wide {dest n : Nat} (hn : 0 < n)
    (hne : st.prefixSize ≠ 0 → st.prefixEnd ≠ dest) :
    (advance st dest n).prefixSize = n ∧ (advance st dest n).prefixEnd = dest + n := by
  have hn0 : n ≠ 0 := Nat.ne_of_gt hn
  unfold advance
  by_cases h1 : st.prefixSize = 0
  · rw [if_pos h1, if_neg hn0]
    exact ⟨rfl, rfl⟩
  · rw [if_neg h1, if_neg (hne h1), if_neg hn0]
    exact ⟨rfl, rfl⟩

/-- The decoder finds what the encoder saw. -/
theorem WideSynced.agree (h : WideSynced cp dp index prev2 prev1 cm dm fst st) (hlt : B₁ < B₂)
    (hindex : index ≤ 1) (hprev : prev1 ≤ B₁) {chunk : List UInt8} (hchunk : chunk.length ≤ B₁)
    {w : Nat} (hw : w ≤ fst.dictSize) (hpos : 0 < w)
    (hclear : w ≤ st.prefixSize ∨ KB64 - 1 ≤ st.prefixSize) (scratch : Memory) :
    AgreeBack (KB64 - 1)
      (load (store cm (cp.buf + index * B₁) chunk) (fst.dictionary + fst.dictSize - w) w)
      (decodeHistory (clobber dm (dp.buf + index * B₂) B₂ scratch) st (dp.buf + index * B₂)) := by
  have hsize := h.size_le
  have hne := h.ne_dest hlt hindex hprev
  have h64 : KB64 = 65536 := rfl
  rcases h.segment with ⟨hzero, -, -, -⟩ | ⟨hplace, hmirror⟩
  · omega
  have hpos' : st.prefixSize ≠ 0 := by omega
  rw [decodeHistory, if_neg hpos', if_neg (hne hpos')]
  -- neither the chunk nor the decoder's page covers a byte in reach
  have hw' : w ≤ fst.dictionary + fst.dictSize := Nat.le_trans hw (Nat.le_add_left _ _)
  refine agree_load hw' hsize (by omega) fun i h0 hi hk => ?_
  have hm := hmirror i h0 (by omega)
  have hca := cp.apart
  have hda := dp.apart
  cases hplace with
  | dictionary first hc hd hs hle =>
    subst first
    rw [store_of_not_mem (by omega), clobber_of_not_mem (by omega)]
    exact hm
  | chunk hpos hc hd hs hle =>
    obtain rfl | rfl : index = 0 ∨ index = 1 := by omega
    · simp only [pageEnd, if_true] at hc hd
      rw [store_of_not_mem (by omega), clobber_of_not_mem (by omega)]
      exact hm
    · simp only [pageEnd, Nat.one_ne_zero, if_false] at hc hd
      rw [store_of_not_mem (by omega), clobber_of_not_mem (by omega)]
      exact hm

/-- The record after a chunk. -/
theorem WideSynced.next (h : WideSynced cp dp index prev2 prev1 cm dm fst st) (hlt : B₁ < B₂)
    (hindex : index ≤ 1) (hprev : prev1 ≤ B₁) {chunk : List UInt8} (hpos : 0 < chunk.length)
    (scratch : Memory) {q : LZ4_stream_t}
    (hend : q.dictionary + q.dictSize = cp.buf + index * B₁ + chunk.length)
    (hsize : q.dictSize = chunk.length ∨
      (index = 1 ∧ prev1 = B₁ ∧ chunk.length ≤ q.dictSize ∧
        q.dictSize ≤ B₁ + chunk.length)) :
    WideSynced cp dp ((index + 1) % 2) prev1 chunk.length
      (store cm (cp.buf + index * B₁) chunk)
      (store (clobber dm (dp.buf + index * B₂) B₂ scratch) (dp.buf + index * B₂) chunk) q
      (advance st (dp.buf + index * B₂) chunk.length) := by
  obtain ⟨hasize, haend⟩ := advance_wide hpos (h.ne_dest hlt hindex hprev)
  have hmin : min q.dictSize chunk.length = chunk.length := by omega
  refine ⟨by omega, Or.inr ⟨?_, ?_⟩⟩
  · rw [hend, haend, hasize]
    obtain rfl | rfl : index = 0 ∨ index = 1 := by omega
    · refine .chunk hpos ?_ ?_ rfl (by omega)
      · simp [pageEnd]
      · simp [pageEnd]
    · refine .chunk hpos ?_ ?_ rfl (by omega)
      · simp [pageEnd, Nat.add_assoc]
      · simp [pageEnd, Nat.add_assoc]
  · rw [hend, haend, hasize, hmin]
    exact mirrored_chunk cm _ _ _ chunk

/-- One chunk keeps the two records together. -/
theorem WideSynced.step (h : WideSynced cp dp index prev2 prev1 cm dm fst st) (hlt : B₁ < B₂)
    (hindex : index ≤ 1) (hprev : prev1 ≤ B₁) {chunk : List UInt8} (hpos : 0 < chunk.length)
    (hchunk : chunk.length ≤ B₁) (hok : ¬ conflict false B₁ index prev2 prev1 chunk.length)
    (during after : Memory) :
    AgreeBack (KB64 - 1)
        (load (store cm (cp.buf + index * B₁) chunk)
          (fastWindow fst (cp.buf + index * B₁) chunk.length).1.dictionary
          (fastWindow fst (cp.buf + index * B₁) chunk.length).1.dictSize)
        (decodeHistory (clobber dm (dp.buf + index * B₂) B₂ during) st (dp.buf + index * B₂)) ∧
      WideSynced cp dp ((index + 1) % 2) prev1 chunk.length
        (store cm (cp.buf + index * B₁) chunk)
        (store (clobber dm (dp.buf + index * B₂) B₂ after) (dp.buf + index * B₂) chunk)
        (fastNext (fastWindow fst (cp.buf + index * B₁) chunk.length) (cp.buf + index * B₁)
          chunk.length)
        (advance st (dp.buf + index * B₂) chunk.length) := by
  have hnull : 0 < cp.buf + index * B₁ := Nat.add_pos_left cp.buf_ne_null _
  have h64 : KB64 = 65536 := rfl
  have hcases := fastWindow_cases fst hnull chunk.length
  have heq := fun e => @fastNext_of_eq (fastWindow fst (cp.buf + index * B₁) chunk.length)
    (cp.buf + index * B₁) chunk.length e
  have hne := fun e => @fastNext_of_ne (fastWindow fst (cp.buf + index * B₁) chunk.length)
    (cp.buf + index * B₁) chunk.length e
  generalize fastWindow fst (cp.buf + index * B₁) chunk.length = r at hcases heq hne ⊢
  rcases hcases with
    ⟨hend, hzero, hdict, -⟩ | ⟨-, -, hn⟩ | ⟨hs0, hend, hwin, hle, htrim, hsmall, hroll⟩
  · -- no window: the chunk alone is the new segment
    obtain ⟨hd, hs⟩ := heq hend
    refine ⟨?_, h.next hlt hindex hprev hpos after (by omega) (Or.inl (by omega))⟩
    rw [hzero]
    exact .nil _ _
  · omega
  · rcases h.segment with ⟨hbad, -, -, -⟩ | ⟨hplace, -⟩
    · exact absurd hbad hs0
    have hagree : AgreeBack (KB64 - 1)
        (load (store cm (cp.buf + index * B₁) chunk) r.1.dictionary r.1.dictSize)
        (decodeHistory (clobber dm (dp.buf + index * B₂) B₂ during) st
          (dp.buf + index * B₂)) := by
      rcases Nat.eq_zero_or_pos r.1.dictSize with hz | hwpos
      · rw [hz]
        exact .nil _ _
      have hstart : r.1.dictionary = fst.dictionary + fst.dictSize - r.1.dictSize := by omega
      rw [hstart]
      refine h.agree hlt hindex hprev hchunk hle hwpos ?_ during
      cases hplace with
      | dictionary _ _ _ hs hsL => exact Or.inl (by omega)
      | chunk hp1 hc hd hs hfull =>
        rcases hfull with hsame | ⟨h0, hp2, hmax⟩
        · exact Or.inl (by omega)
        · -- a full page 0 in front: the overlap check leaves page 1, unless it is a conflict
          subst h0
          simp only [conflict, if_true, true_and] at hok
          simp only [pageEnd, if_true] at hc
          omega
    refine ⟨hagree, ?_⟩
    by_cases hprefix : r.2 = cp.buf + index * B₁
    · -- prefix mode: a full page 0 goes on into page 1
      obtain ⟨hd, hs⟩ := heq hprefix
      have hpage : index = 1 ∧ prev1 = B₁ ∧ fst.dictSize = prev1 := by
        have hca := cp.apart
        cases hplace with
        | dictionary hfirst hc hd hs hsL =>
          subst hfirst
          omega
        | chunk hp1 hc hd hs hfull =>
          obtain rfl | rfl : index = 0 ∨ index = 1 := by omega
          · simp only [pageEnd, if_true] at hc
            omega
          · simp only [pageEnd, Nat.one_ne_zero, if_false] at hc
            omega
      have hr := hroll hprefix
      exact h.next hlt hindex hprev hpos after (by omega) (by omega)
    · obtain ⟨hd, hs⟩ := hne hprefix
      exact h.next hlt hindex hprev hpos after (by omega) (Or.inl hs)

end Sides

/-! ## Whole streams -/

/-- Two contexts for the same streams in one of the fast modes, the decompressor with the larger
pages. -/
structure WideContexts {L B₁ B₂ : Nat} (cp : Placement L B₁) (dp : Placement L B₂)
    (index prev2 prev1 : Nat) (c : CompressContext) (d : DecompressContext) : Prop where
  c_buffer : c.double_buffer = ⟨cp.buf, B₁, index⟩
  d_buffer : d.double_buffer = ⟨dp.buf, B₂, index⟩
  index_le : index ≤ 1
  prev1_le : prev1 ≤ B₁
  size_pos : 1 ≤ B₁
  size_lt : B₁ < B₂
  size_le : B₁ ≤ LZ4_MAX_INPUT_SIZE
  c_output : c.output_len = LZ4_compressBound B₁
  d_output : d.output_len = B₂
  header : d.store_comp_size = c.store_comp_size
  header_mem : c.store_comp_size ∈ [0, 1, 2, 4]
  header_fits : LZ4_compressBound B₁ ≤ store_max_size c.store_comp_size
  state : ∃ fst, c.lz4_state = .fast fst ∧
    WideSynced cp dp index prev2 prev1 c.mem d.mem fst d.lz4_state

variable {L B₁ B₂ : Nat} {cp : Placement L B₁} {dp : Placement L B₂} {index prev2 prev1 : Nat}
  {c : CompressContext} {d : DecompressContext} {coder : StreamCoder}

/-- One chunk through both contexts. -/
theorem WideContexts.step (hcoder : StreamCoderSpec coder)
    (h : WideContexts cp dp index prev2 prev1 c d) {chunk : List UInt8} (hpos : 0 < chunk.length)
    (hchunk : chunk.length ≤ B₁) (hok : ¬ conflict false B₁ index prev2 prev1 chunk.length)
    (fastLoop : Bool) (scratch : Scratch) :
    ∃ stream block c' d', compress coder c chunk = .ok (stream, c') ∧
      blockOf d stream.data = .ok block ∧
      decompress fastLoop scratch d block = .ok (⟨d.return_bytearray, chunk⟩, d') ∧
      WideContexts cp dp ((index + 1) % 2) prev1 chunk.length c' d' := by
  have hlt := h.size_lt
  obtain ⟨fst, hfst, hsynced⟩ := h.state
  obtain ⟨hagree, hnext⟩ := hsynced.step hlt h.index_le h.prev1_le hpos hchunk hok scratch.during
    scratch.after
  obtain ⟨w, block, hcomp, hagree, hblock, hshort, hdecodes⟩ :
      ∃ w block, compress_generic coder
          { c with mem := store c.mem (cp.buf + index * B₁) chunk } chunk.length =
        (block, .fast (fastNext (fastWindow fst (cp.buf + index * B₁) chunk.length)
          (cp.buf + index * B₁) chunk.length)) ∧
      AgreeBack (KB64 - 1) w
        (decodeHistory (clobber d.mem (dp.buf + index * B₂) B₂ scratch.during) d.lz4_state
          (dp.buf + index * B₂)) ∧
      0 < block.length ∧ block.length < LZ4_compressBound chunk.length ∧
      ∀ (fastLoop : Bool) (cap : Nat), chunk.length ≤ cap →
        LZ4_decompress_generic fastLoop (callOf false w cap) block = .ok chunk := by
    refine ⟨_, _, ?_, hagree, hcoder.fast.block hchunk h.size_le _
      (if c.comp ≠ .FAST then 1 else c.acceleration)⟩
    simp only [compress_generic, hfst, h.c_buffer, double_buffer.page, h.c_output,
      compress_fast_continue_eq, load_store]
  obtain ⟨stream, hcompress, hstrip, hdecompress⟩ := chunk_through h.c_buffer h.d_buffer h.size_pos
    (Nat.le_of_lt hlt) h.size_le h.d_output h.header h.header_mem h.header_fits hchunk hcomp hblock
    hshort (hdecodes fastLoop B₂ (by omega)) (Or.inr hagree)
  refine ⟨stream, _, _, _, hcompress, hstrip, hdecompress, ?_⟩
  exact
    { c_buffer := by simp only [h.c_buffer, double_buffer_update_index]
      d_buffer := by simp only [h.d_buffer, double_buffer_update_index]
      index_le := by omega
      prev1_le := hchunk
      size_pos := h.size_pos
      size_lt := hlt
      size_le := h.size_le
      c_output := h.c_output
      d_output := h.d_output
      header := h.header
      header_mem := h.header_mem
      header_fits := h.header_fits
      state := ⟨_, rfl, hnext⟩ }

theorem WideContexts.session (hcoder : StreamCoderSpec coder) (fastLoop : Bool)
    (scratch : Nat → Scratch) {chunks : List (List UInt8)} (k : Nat)
    (h : WideContexts cp dp index prev2 prev1 c d)
    (hchunks : ∀ chunk ∈ chunks, chunk ≠ [] ∧ chunk.length ≤ B₁)
    (hok : NoConflict false B₁ index prev2 prev1 (chunks.map List.length)) :
    session coder fastLoop scratch k c d chunks = .ok chunks := by
  induction chunks generalizing k index prev2 prev1 c d with
  | nil => rfl
  | cons chunk chunks ih =>
    obtain ⟨hfirst, hrest⟩ := hok
    obtain ⟨hne, hlen⟩ := hchunks chunk List.mem_cons_self
    obtain ⟨stream, block, c', d', hcompress, hblock, hdecompress, hnext⟩ :=
      h.step hcoder (List.length_pos_of_ne_nil hne) hlen hfirst fastLoop (scratch k)
    have htail := ih (k + 1) hnext (fun x hx => hchunks x (List.mem_cons_of_mem _ hx)) hrest
    simp only [Context.session, hcompress, hblock, hdecompress, htail]

/-- A new stream of the fast modes, which ends with the dictionary when it has one. -/
theorem createState_wide {dict : List UInt8} (cp : Placement dict.length B₁)
    (dp : Placement dict.length B₂) (cm dm : Memory) {comp : Container.compression_type}
    (hcomp : comp ≠ .HIGH_COMPRESSION) :
    ∃ fst, createState comp cp.dict dict.length = .fast fst ∧
      WideSynced cp dp 0 0 0 (store cm cp.dict dict) (store dm dp.dict dict) fst
        (LZ4_setStreamDecode dp.dict dict.length) := by
  have hsize : (LZ4_setStreamDecode dp.dict dict.length).prefixSize ≤
      (LZ4_setStreamDecode dp.dict dict.length).prefixEnd := Nat.le_add_left _ _
  have hseg : ∀ s, s ≤ dict.length →
      WidePlace cp dp 0 0 0 (cp.dict + dict.length) (dp.dict + dict.length) s dict.length ∧
        Mirrored (store cm cp.dict dict) (cp.dict + dict.length) (store dm dp.dict dict)
          (dp.dict + dict.length) (min s dict.length) := fun s hs =>
    ⟨.dictionary rfl rfl rfl rfl hs, mirrored_dictionary cm dm _ _ dict (Nat.min_le_right _ _)⟩
  unfold createState
  rw [if_neg hcomp]
  by_cases hpos : 0 < dict.length
  · rw [if_pos hpos, LZ4_loadDict]
    refine ⟨_, rfl, hsize, ?_⟩
    by_cases hunit : dict.length < HASH_UNIT
    · rw [if_pos hunit]
      exact Or.inl ⟨rfl, rfl, rfl, rfl⟩
    · rw [if_neg hunit]
      refine Or.inr ?_
      by_cases hlong : KB64 < dict.length
      · have hs := hseg KB64 (by omega)
        have e1 : cp.dict + dict.length - KB64 + KB64 = cp.dict + dict.length := by omega
        have e2 : cp.dict + dict.length - (cp.dict + dict.length - KB64) = KB64 := by omega
        simp only [if_pos hlong, e2, e1]
        exact hs
      · have hs := hseg dict.length (Nat.le_refl _)
        simp only [if_neg hlong, Nat.add_sub_cancel_left]
        exact hs
  · rw [if_neg hpos]
    exact ⟨_, rfl, hsize, Or.inl ⟨rfl, rfl, rfl, rfl⟩⟩

/-- A compression context in one of the fast modes, and a decompression context made with larger
pages. -/
theorem create_context_wide {args : CreateArgs} (hB : 1 ≤ args.buffer_size)
    (hmode : args.mode ≠ "high_compression") (hlt : args.buffer_size < B₂)
    (cp : Placement args.dictionary.length args.buffer_size)
    (dp : Placement args.dictionary.length B₂) {cmem : Memory} {c : CompressContext}
    (hcreate : create_context args cp cmem = .ok (.compress c)) (return_bytearray : Bool)
    (dmem : Memory) :
    ∃ d, create_context { decompressArgs args return_bytearray with buffer_size := B₂ } dp dmem =
        .ok (.decompress d) ∧
      WideContexts cp dp 0 0 0 c d := by
  obtain ⟨hdict, hscs, hstrategy, hbound, hfits, comp, hparse, rfl⟩ :=
    create_context_compress hcreate
  refine ⟨_, create_context_decompress_size hdict hscs hstrategy return_bytearray B₂ dp dmem, ?_⟩
  have hmax : args.buffer_size ≤ LZ4_MAX_INPUT_SIZE := by
    by_contra hbig
    exact hbound (if_pos (Nat.lt_of_not_le hbig))
  have hcomp : comp ≠ .HIGH_COMPRESSION := by
    have hhc := isHC_createState hparse cp.dict args.dictionary.length
    rw [decide_eq_false hmode] at hhc
    rintro rfl
    simp [createState, isHC] at hhc
  exact
    { c_buffer := rfl
      d_buffer := rfl
      index_le := Nat.zero_le 1
      prev1_le := Nat.zero_le _
      size_pos := hB
      size_lt := hlt
      size_le := hmax
      c_output := rfl
      d_output := rfl
      header := rfl
      header_mem := hscs
      header_fits := hfits
      state := createState_wide cp dp cmem dmem hcomp }

end PythonLz4.Stream.WideDecoder
