import PythonLz4.Frame.CompressBounds

/-!
# The internal buffer of the compression context

Without `autoFlush` the library buffers up to a block at `tmpIn`, behind up to 64 KB of history for
linked blocks. `compress_begin` does not look at `block_size`, and for a value that is none of the
five identifiers the library takes its error code for the size of a block. For the others there is
room for a block at `tmpIn` after every call (`buffer_room`), as long as no chunk makes the prefix of
the high compression stream as long as `2 ^ 31` bytes: `LZ4_saveDictHC` takes its size for an `int`.
-/

set_option autoImplicit false

namespace PythonLz4.Frame.BufferRoom

open PythonLz4.Runtime
open PythonLz4.Lib.ByteMemory
open PythonLz4.Lib.HistoryWindow
open PythonLz4.Block.DecompressGeneric
open PythonLz4.Stream.Continue
open PythonLz4.Frame.Header
open PythonLz4.Frame.CompressionContext
open PythonLz4.Frame.CompressChunk
open PythonLz4.Frame.CompressBounds

/-! ## The window of the high compression stream -/

/-- How long the prefix is, and the index it starts at. -/
structure Window where
  size : Nat
  limit : Nat
  deriving DecidableEq, Repr

/-- "Check overflow": the last 64 KB are loaded into a new stream. -/
def Window.renew (w : Window) : Window :=
  if 2 * KB * KB * KB < w.size + w.limit then ⟨min w.size KB64, KB64⟩ else w

/-- A block that continues the prefix. -/
def Window.extend (n : Nat) (w : Window) : Window := ⟨w.renew.size + n, w.renew.limit⟩

/-- A block somewhere else. -/
def Window.restart (n : Nat) (w : Window) : Window := ⟨n, w.renew.limit + w.renew.size⟩

/-- The window of a stream; a stream that was reset continues the index at its next block. -/
def windowOf (st : LZ4_streamHC_t) : Window :=
  if st.prefixStart = 0 then
    ⟨0, (if KB * KB * KB < st.bufEnd + st.dictLimit then 0 else st.bufEnd + st.dictLimit) + KB64⟩
  else ⟨st.bufEnd - st.prefixStart, st.dictLimit⟩

/-- The stream behind a block of `n` bytes at `src`. -/
def hcAdvance (st : LZ4_streamHC_t) (src n : Nat) : LZ4_streamHC_t :=
  { hcWindow st src n with bufEnd := (hcWindow st src n).bufEnd + n }

theorem hcTrimOverlap_eq (st : LZ4_streamHC_t) (src n : Nat) :
    (hcTrimOverlap st src n).bufEnd = st.bufEnd ∧
    (hcTrimOverlap st src n).prefixStart = st.prefixStart ∧
    (hcTrimOverlap st src n).dictLimit = st.dictLimit := by
  unfold hcTrimOverlap
  simp only
  split_ifs <;> exact ⟨rfl, rfl, rfl⟩

/-- The stream when the positions are compared, with the window renewed. -/
theorem hcInit_eq {st : LZ4_streamHC_t} (src : Nat)
    (hst : st.prefixStart ≤ st.bufEnd) :
    (hcInit st src).bufEnd = (if st.prefixStart = 0 then src else st.bufEnd) ∧
    (hcInit st src).prefixStart + (windowOf st).renew.size = (hcInit st src).bufEnd ∧
    (hcInit st src).dictLimit = (windowOf st).renew.limit ∧
    (if st.prefixStart = 0 then src else st.prefixStart) ≤ (hcInit st src).prefixStart := by
  have h64 : KB64 = 65536 := rfl
  have hG : KB * KB * KB = 1073741824 := rfl
  have h2G : 2 * KB * KB * KB = 2147483648 := rfl
  unfold hcInit windowOf Window.renew
  by_cases hnew : st.prefixStart = 0
  · -- a stream that was reset
    simp only [LZ4HC_init_internal, hnew, Nat.sub_zero, Nat.sub_self, Nat.zero_add, if_true]
    generalize (if KB * KB * KB < st.bufEnd + st.dictLimit then 0 else st.bufEnd + st.dictLimit) +
      KB64 = limit at *
    by_cases hover : 2 * KB * KB * KB < limit
    · simp [hover, LZ4_loadDictHC, LZ4HC_init_internal, LZ4_createStreamHC, hG]
    · simp [hover]
  · simp only [if_neg hnew]
    by_cases hover : 2 * KB * KB * KB < st.bufEnd - st.prefixStart + st.dictLimit
    · simp only [if_pos hover, LZ4_loadDictHC, LZ4HC_init_internal, LZ4_createStreamHC]
      have hle : ¬ KB64 < min (st.bufEnd - st.prefixStart) KB64 := by omega
      rw [if_neg hle, if_neg hle]
      refine ⟨?_, ?_, rfl, ?_⟩
      · show st.bufEnd - _ + _ = _
        omega
      · show st.bufEnd - _ + _ = st.bufEnd - _ + _
        rfl
      · show st.prefixStart ≤ st.bufEnd - _
        omega
    · simp only [if_neg hover]
      refine ⟨trivial, ?_, trivial, Nat.le_refl _⟩
      omega

/-- What a block does to the stream: its prefix ends behind the block, and starts no earlier than the
old one, or at the block. -/
theorem hcAdvance_spec (st : LZ4_streamHC_t) (src n : Nat) (hsrc : 0 < src)
    (hst : st.prefixStart ≤ st.bufEnd) :
    (hcAdvance st src n).bufEnd = src + n ∧
    (if st.prefixStart = 0 ∨ src ≠ st.bufEnd then src else st.prefixStart) ≤
      (hcAdvance st src n).prefixStart ∧
    (hcAdvance st src n).prefixStart ≤ src ∧
    windowOf (hcAdvance st src n) =
      if st.prefixStart = 0 ∨ src = st.bufEnd then (windowOf st).extend n
      else (windowOf st).restart n := by
  obtain ⟨hend, hsize, hlimit, hstart⟩ := hcInit_eq src hst
  unfold hcAdvance hcWindow
  simp only
  by_cases hcont : src = (hcInit st src).bufEnd
  · -- the block continues the prefix
    have hcase : st.prefixStart = 0 ∨ src = st.bufEnd := by
      by_cases hnew : st.prefixStart = 0
      · exact .inl hnew
      · rw [if_neg hnew] at hend
        exact .inr (hcont.trans hend)
    rw [if_neg (not_not_intro hcont), if_pos hcase]
    obtain ⟨hbuf, hpre, hdict⟩ := hcTrimOverlap_eq (hcInit st src) src n
    generalize hcTrimOverlap (hcInit st src) src n = r at *
    have hstart' : (if st.prefixStart = 0 ∨ src ≠ st.bufEnd then src else st.prefixStart) ≤
        (hcInit st src).prefixStart := by
      by_cases hnew : st.prefixStart = 0
      · rw [if_pos hnew] at hstart
        rwa [if_pos (.inl hnew)]
      · rw [if_neg hnew] at hstart
        rwa [if_neg (by rintro (h | h) <;> [exact hnew h; exact h (hcase.resolve_left hnew)])]
    have hpos : r.prefixStart ≠ 0 := by
      rw [hpre]
      by_cases hnew : st.prefixStart = 0
      · rw [if_pos hnew] at hstart
        omega
      · rw [if_neg hnew] at hstart
        omega
    refine ⟨by rw [hbuf, ← hcont], by rwa [hpre], by omega, ?_⟩
    rw [windowOf, if_neg hpos, Window.extend]
    congr 1
    · show r.bufEnd + n - r.prefixStart = _
      omega
    · exact hdict.trans hlimit
  · -- the prefix becomes the external dictionary
    have hcase : ¬ (st.prefixStart = 0 ∨ src = st.bufEnd) := by
      rintro (hnew | hsame)
      · rw [if_pos hnew] at hend
        exact hcont hend.symm
      · by_cases hnew : st.prefixStart = 0
        · rw [if_pos hnew] at hend
          exact hcont hend.symm
        · rw [if_neg hnew] at hend
          exact hcont (hsame.trans hend.symm)
    rw [if_pos hcont, if_neg hcase, if_pos (.inr fun h => hcase (.inr h))]
    obtain ⟨hbuf, hpre, hdict⟩ := hcTrimOverlap_eq (LZ4HC_setExternalDict (hcInit st src) src) src n
    generalize hcTrimOverlap (LZ4HC_setExternalDict (hcInit st src) src) src n = r at *
    have hpre' : r.prefixStart = src := hpre
    have hbuf' : r.bufEnd = src := hbuf
    have hdict' : r.dictLimit = (hcInit st src).dictLimit +
      ((hcInit st src).bufEnd - (hcInit st src).prefixStart) := hdict
    refine ⟨by rw [hbuf'], by rw [hpre'], by rw [hpre'], ?_⟩
    rw [windowOf, if_neg (by rw [hpre']; omega), Window.restart]
    congr 1
    · show r.bufEnd + n - r.prefixStart = n
      omega
    · show r.dictLimit = _
      omega

/-! ## The history in the buffer -/

/-- The blocks go through `LZ4_compress_HC_continue`. -/
def HCLinked (c : LZ4F_cctx) : Prop :=
  c.prefs.frameInfo.blockMode = .blockLinked ∧ ¬ c.prefs.compressionLevel < LZ4HC_CLEVEL_MIN

instance (c : LZ4F_cctx) : Decidable (HCLinked c) := inferInstanceAs (Decidable (_ ∧ _))

theorem hcLinked_congr {c d : LZ4F_cctx} (h : SameFrame c d) : HCLinked d ↔ HCLinked c := by
  unfold HCLinked
  rw [h.prefs]

section Stream

variable (encode : Nat → Encoder)

theorem makeBlock_streamHC {c : LZ4F_cctx} (h : HCLinked c) (src n : Nat) :
    (LZ4F_makeBlock encode c src n).2.lz4Ctx.streamHC = hcAdvance c.lz4Ctx.streamHC src n := by
  have hlinked : ¬ c.prefs.frameInfo.blockMode = .blockIndependent := by
    rw [h.1]
    decide
  unfold LZ4F_makeBlock LZ4F_selectCompression
  simp only
  rw [if_neg h.2, if_neg hlinked]
  rfl

end Stream

/-- The sizes and addresses of the buffer, while a frame is written without `autoFlush`. -/
structure Placed (c : LZ4F_cctx) : Prop where
  autoFlush : c.prefs.autoFlush = false
  valid : ValidBlockSizeID c.prefs.frameInfo.blockSizeID
  maxBlockSize : c.maxBlockSize = LZ4F_getBlockSize c.prefs.frameInfo.blockSizeID
  pos : 0 < c.tmpBuff
  end_le : c.tmpBuff + c.maxBufferSize ≤ ADDRESS_SPACE
  small : c.maxBufferSize ≤ 4325376
  linked : c.prefs.frameInfo.blockMode = .blockLinked → c.maxBlockSize + 131072 ≤ c.maxBufferSize
  independent : c.prefs.frameInfo.blockMode ≠ .blockLinked →
    c.tmpIn = c.tmpBuff ∧ c.maxBlockSize ≤ c.maxBufferSize
  tmpIn_ge : c.tmpBuff ≤ c.tmpIn
  tmpIn_le : c.tmpIn ≤ c.tmpBuff + c.maxBufferSize

/-- The prefix of the high compression stream lies in the buffer and ends at `tmpIn`. -/
structure Contiguous (c : LZ4F_cctx) : Prop where
  start : c.tmpBuff ≤ c.lz4Ctx.streamHC.prefixStart
  le : c.lz4Ctx.streamHC.prefixStart ≤ c.lz4Ctx.streamHC.bufEnd
  bufEnd : c.lz4Ctx.streamHC.bufEnd = c.tmpIn

/-- There is room for the next block. -/
structure Room (c : LZ4F_cctx) : Prop extends Placed c where
  room : c.tmpIn + c.maxBlockSize ≤ c.tmpBuff + c.maxBufferSize
  lt : c.tmpInSize < c.maxBlockSize
  history : HCLinked c → c.lz4Ctx.streamHC.prefixStart = 0 ∨ Contiguous c

theorem ptrAdd_of_le {p n : Nat} (h : p + n ≤ 2 * ADDRESS_SPACE) : ptrAdd p (n : Int) = p + n := by
  have hlt : p + n < SIZE_T := Nat.lt_of_le_of_lt h (by decide)
  have hsum : (p : Int) + n = ((p + n : Nat) : Int) := (Int.natCast_add p n).symm
  rw [ptrAdd, hsum, ← Int.natCast_mod, Nat.mod_eq_of_lt hlt, Int.toNat_natCast]

/-- The number of bytes that are saved, and where the stream then lies. -/
theorem localSaveDict_spec {c : LZ4F_cctx} (hplace : c.tmpBuff + KB64 ≤ ADDRESS_SPACE)
    (hshort : ¬ c.prefs.compressionLevel < LZ4HC_CLEVEL_MIN →
      c.lz4Ctx.streamHC.prefixStart ≤ c.lz4Ctx.streamHC.bufEnd ∧
      c.lz4Ctx.streamHC.bufEnd < c.lz4Ctx.streamHC.prefixStart + 2 ^ 31) :
    ∃ saved : Nat, (LZ4F_localSaveDict c).2 = saved ∧ saved ≤ KB64 ∧
      (¬ c.prefs.compressionLevel < LZ4HC_CLEVEL_MIN →
        (LZ4F_localSaveDict c).1.lz4Ctx.streamHC.prefixStart = c.tmpBuff ∧
        (LZ4F_localSaveDict c).1.lz4Ctx.streamHC.bufEnd = c.tmpBuff + saved) := by
  unfold LZ4F_localSaveDict
  by_cases hfast : c.prefs.compressionLevel < LZ4HC_CLEVEL_MIN
  · rw [if_pos hfast]
    refine ⟨_, rfl, ?_, fun h => absurd hfast h⟩
    simp only [Nat.lt_irrefl, if_false]
    split <;> omega
  · rw [if_neg hfast]
    obtain ⟨hle, hlt⟩ := hshort hfast
    have h64 : KB64 = 65536 := rfl
    obtain ⟨size, hsize⟩ := Nat.exists_eq_add_of_le hle
    have hmod : Int.bmod ((c.lz4Ctx.streamHC.bufEnd : Int) - c.lz4Ctx.streamHC.prefixStart)
        (2 ^ 32) = size := by
      rw [hsize, Int.bmod_def]
      omega
    have hsaved : (LZ4_saveDictHC c.mem c.lz4Ctx.streamHC c.tmpBuff KB64).2.2 =
        (min KB64 size : Nat) := by
      unfold LZ4_saveDictHC
      simp only [hmod]
      split_ifs <;> omega
    have hend : (LZ4_saveDictHC c.mem c.lz4Ctx.streamHC c.tmpBuff KB64).2.1.bufEnd =
        ptrAdd c.tmpBuff (LZ4_saveDictHC c.mem c.lz4Ctx.streamHC c.tmpBuff KB64).2.2 := rfl
    refine ⟨min KB64 size, hsaved, Nat.min_le_left _ _, fun _ => ⟨rfl, ?_⟩⟩
    show (LZ4_saveDictHC c.mem c.lz4Ctx.streamHC c.tmpBuff KB64).2.1.bufEnd = _
    rw [hend, hsaved]
    exact ptrAdd_of_le (by omega)

/-- The geometry does not change with what is written. -/
theorem Placed.of_same {c d : LZ4F_cctx} (h : Placed c) (hsame : SameFrame c d)
    (hge : d.tmpBuff ≤ d.tmpIn) (hle : d.tmpIn ≤ d.tmpBuff + d.maxBufferSize)
    (hind : d.prefs.frameInfo.blockMode ≠ .blockLinked → d.tmpIn = d.tmpBuff) : Placed d where
  autoFlush := by rw [hsame.prefs]; exact h.autoFlush
  valid := by rw [hsame.prefs]; exact h.valid
  maxBlockSize := by rw [hsame.prefs, hsame.maxBlockSize]; exact h.maxBlockSize
  pos := by rw [hsame.tmpBuff]; exact h.pos
  end_le := by rw [hsame.tmpBuff, hsame.maxBufferSize]; exact h.end_le
  small := by rw [hsame.maxBufferSize]; exact h.small
  linked := by rw [hsame.prefs, hsame.maxBlockSize, hsame.maxBufferSize]; exact h.linked
  independent := by
    intro hmode
    refine ⟨hind hmode, ?_⟩
    rw [hsame.prefs] at hmode
    rw [hsame.maxBlockSize, hsame.maxBufferSize]
    exact (h.independent hmode).2
  tmpIn_ge := hge
  tmpIn_le := hle

theorem Placed.maxBlockSize_pos {c : LZ4F_cctx} (h : Placed c) :
    0 < c.maxBlockSize ∧ c.maxBlockSize ≤ 4194304 := by
  obtain ⟨hlow, hhigh⟩ := getBlockSize_bounds h.valid
  rw [h.maxBlockSize]
  exact ⟨by omega, hhigh⟩

/-- Saving the history makes room, if its prefix is shorter than `2 ^ 31` bytes. -/
theorem rewind_room {c : LZ4F_cctx} (h : Placed c) (hempty : c.tmpInSize = 0)
    (hmode : c.prefs.frameInfo.blockMode = .blockLinked)
    (hshort : HCLinked c → c.lz4Ctx.streamHC.prefixStart ≤ c.lz4Ctx.streamHC.bufEnd ∧
      c.lz4Ctx.streamHC.bufEnd < c.lz4Ctx.streamHC.prefixStart + 2 ^ 31) : Room c.rewind := by
  have h64 : KB64 = 65536 := rfl
  have hsize := h.linked hmode
  have hend := h.end_le
  obtain ⟨hsame, hsameSize⟩ := rewind_same c
  obtain ⟨saved, hsaved, hle, hstream⟩ := localSaveDict_spec (c := c) (by omega)
    fun hslow => hshort ⟨hmode, hslow⟩
  have htmpIn : c.rewind.tmpIn = c.tmpBuff + saved := by
    show ptrAdd (LZ4F_localSaveDict c).1.tmpBuff (LZ4F_localSaveDict c).2 = _
    rw [hsaved, (localSaveDict_same c).1.tmpBuff]
    exact ptrAdd_of_le (by omega)
  have hplaced : Placed c.rewind := by
    apply h.of_same hsame
    · rw [hsame.tmpBuff, htmpIn]
      exact Nat.le_add_right _ _
    · rw [hsame.tmpBuff, hsame.maxBufferSize, htmpIn]
      omega
    · rw [hsame.prefs]
      exact fun hind => absurd hmode hind
  refine { hplaced with room := ?_, lt := ?_, history := ?_ }
  · rw [hsame.tmpBuff, hsame.maxBufferSize, hsame.maxBlockSize, htmpIn]
    omega
  · rw [hsameSize, hsame.maxBlockSize, hempty]
    exact h.maxBlockSize_pos.1
  · intro hhc
    have hslow : ¬ c.prefs.compressionLevel < LZ4HC_CLEVEL_MIN := ((hcLinked_congr hsame).1 hhc).2
    obtain ⟨hstart, hbufEnd⟩ := hstream hslow
    have hstart' : c.rewind.lz4Ctx.streamHC.prefixStart = c.tmpBuff := hstart
    have hbufEnd' : c.rewind.lz4Ctx.streamHC.bufEnd = c.tmpBuff + saved := hbufEnd
    refine .inr ⟨?_, ?_, ?_⟩
    · rw [hsame.tmpBuff, hstart']
    · rw [hstart', hbufEnd']
      exact Nat.le_add_right _ _
    · rw [hbufEnd', htmpIn]

/-- A prefix within the buffer is short. -/
theorem Contiguous.short {c : LZ4F_cctx} (h : Contiguous c) (hplaced : Placed c) :
    c.lz4Ctx.streamHC.prefixStart ≤ c.lz4Ctx.streamHC.bufEnd ∧
      c.lz4Ctx.streamHC.bufEnd < c.lz4Ctx.streamHC.prefixStart + 2 ^ 31 := by
  have hstart := h.start
  have hbuf := h.bufEnd
  have hle := hplaced.tmpIn_le
  have hsmall := hplaced.small
  exact ⟨h.le, by omega⟩

/-- Behind a block from the buffer: `tmpIn` is within the buffer, and when there is no room for the
next block the history is in the buffer. -/
structure Behind (c : LZ4F_cctx) : Prop extends Placed c where
  empty : c.tmpInSize = 0
  history : HCLinked c → Contiguous c

theorem Behind.keepWithinLimits {c : LZ4F_cctx} (h : Behind c) : Room c.keepWithinLimits := by
  obtain ⟨hpos, hbound⟩ := h.maxBlockSize_pos
  have hend := h.end_le
  have hle := h.tmpIn_le
  have hspace : 4194304 ≤ ADDRESS_SPACE := by decide
  have hbuff : ptrAdd c.tmpBuff c.maxBufferSize = c.tmpBuff + c.maxBufferSize :=
    ptrAdd_of_le (by omega)
  have hnext : ptrAdd c.tmpIn c.maxBlockSize = c.tmpIn + c.maxBlockSize := ptrAdd_of_le (by omega)
  unfold LZ4F_cctx.keepWithinLimits
  rw [hbuff, hnext]
  by_cases hlinked : c.prefs.frameInfo.blockMode = .blockLinked
  · split
    · exact rewind_room h.toPlaced h.empty hlinked fun hhc => (h.history hhc).short h.toPlaced
    · next hroom =>
      exact { h.toPlaced with
        room := Nat.le_of_not_lt hroom
        lt := by rw [h.empty]; exact hpos
        history := fun hhc => .inr (h.history hhc) }
  · -- independent blocks are buffered at the start
    obtain ⟨htmp, hsize⟩ := h.independent hlinked
    have hroom : c.tmpIn + c.maxBlockSize ≤ c.tmpBuff + c.maxBufferSize := by
      rw [htmp]
      exact Nat.add_le_add_left hsize _
    rw [if_neg (Nat.not_lt.2 hroom)]
    exact { h.toPlaced with
      room := hroom
      lt := by rw [h.empty]; exact hpos
      history := fun hhc => absurd hhc.1 hlinked }

theorem Room.keepWithinLimits {c : LZ4F_cctx} (h : Room c) : c.keepWithinLimits = c := by
  have hend := h.end_le
  have hroom := h.room
  have hbuff : ptrAdd c.tmpBuff c.maxBufferSize = c.tmpBuff + c.maxBufferSize :=
    ptrAdd_of_le (by omega)
  have hnext : ptrAdd c.tmpIn c.maxBlockSize = c.tmpIn + c.maxBlockSize := ptrAdd_of_le (by omega)
  unfold LZ4F_cctx.keepWithinLimits
  rw [hbuff, hnext, if_neg (Nat.not_lt.2 hroom)]

theorem Placed.room_of_independent {c : LZ4F_cctx} (h : Placed c) (hempty : c.tmpInSize = 0)
    (hmode : c.prefs.frameInfo.blockMode ≠ .blockLinked) : Room c := by
  obtain ⟨htmp, hsize⟩ := h.independent hmode
  refine { h with room := ?_, lt := ?_, history := fun hhc => absurd hhc.1 hmode }
  · rw [htmp]
    exact Nat.add_le_add_left hsize _
  · rw [hempty]
    exact h.maxBlockSize_pos.1

/-- A stream that was reset restarts its window with either kind of block. -/
theorem hcAdvance_restart {st : LZ4_streamHC_t} {src : Nat} (n : Nat) (hsrc : 0 < src)
    (hst : st.prefixStart ≤ st.bufEnd) (hapart : st.prefixStart = 0 ∨ src ≠ st.bufEnd) :
    windowOf (hcAdvance st src n) = (windowOf st).restart n := by
  have hwindow := (hcAdvance_spec st src n hsrc hst).2.2.2
  rw [hwindow]
  split
  · next hcase =>
    have hnew : st.prefixStart = 0 := by
      rcases hcase with h | h
      · exact h
      · exact hapart.resolve_right (not_not_intro h)
    have hsize : (windowOf st).size = 0 := by
      rw [windowOf, if_pos hnew]
    have hrenew : (windowOf st).renew.size = 0 := by
      unfold Window.renew
      split <;> simp [hsize]
    unfold Window.extend Window.restart
    rw [hrenew, Nat.zero_add, Nat.add_zero]
  · rfl

/-! ## Chunks -/

/-- How many blocks of a chunk of `n` bytes are compressed straight from the source. -/
def sourceBlocks (c : LZ4F_cctx) (n : Nat) : Nat :=
  (c.tmpInSize + n) / c.maxBlockSize - if c.tmpInSize = 0 then 0 else 1

/-- The window when the first of them is compressed: a buffered block may have been completed. -/
def firstWindow (c : LZ4F_cctx) (n : Nat) : Window :=
  if c.tmpInSize ≠ 0 ∧ c.maxBlockSize ≤ c.tmpInSize + n then
    (windowOf c.lz4Ctx.streamHC).extend c.maxBlockSize
  else windowOf c.lz4Ctx.streamHC

/-- In a linked high compression frame the chunk leaves a prefix that an `int` can count. -/
def ChunkFits (c : LZ4F_cctx) (n : Nat) : Prop :=
  HCLinked c → ∀ k, sourceBlocks c n = k + 1 →
    ((Window.extend c.maxBlockSize)^[k] ((firstWindow c n).restart c.maxBlockSize)).size < 2 ^ 31

/-- The source is not in the buffer. -/
def Apart (c : LZ4F_cctx) (source n : Nat) : Prop :=
  0 < source ∧ (source + n ≤ c.tmpBuff ∨ c.tmpBuff + c.maxBufferSize ≤ source)

section Chunks

variable (encode : Nat → Encoder)

/-- Blocks that follow each other extend the prefix. -/
theorem fullBlocks_window (n : Nat) {u : Update} (hhc : HCLinked u.cctx)
    (hpos : 0 < u.cctx.lz4Ctx.streamHC.prefixStart)
    (hle : u.cctx.lz4Ctx.streamHC.prefixStart ≤ u.cctx.lz4Ctx.streamHC.bufEnd)
    (hnext : u.cctx.lz4Ctx.streamHC.bufEnd = u.srcPtr) :
    0 < (u.fullBlocks encode n).cctx.lz4Ctx.streamHC.prefixStart ∧
    (u.fullBlocks encode n).cctx.lz4Ctx.streamHC.prefixStart ≤
      (u.fullBlocks encode n).cctx.lz4Ctx.streamHC.bufEnd ∧
    windowOf (u.fullBlocks encode n).cctx.lz4Ctx.streamHC =
      (Window.extend u.cctx.maxBlockSize)^[n] (windowOf u.cctx.lz4Ctx.streamHC) := by
  induction n generalizing u with
  | zero => exact ⟨hpos, hle, rfl⟩
  | succ n ih =>
    have hstream : (u.blockFromSrc encode u.cctx.maxBlockSize).cctx.lz4Ctx.streamHC =
        hcAdvance u.cctx.lz4Ctx.streamHC u.srcPtr u.cctx.maxBlockSize :=
      makeBlock_streamHC encode hhc u.srcPtr u.cctx.maxBlockSize
    obtain ⟨hbuf, hstart, hstart', hwindow⟩ := hcAdvance_spec u.cctx.lz4Ctx.streamHC u.srcPtr
      u.cctx.maxBlockSize (by omega) hle
    rw [if_neg (by rintro (h | h) <;> [omega; exact h hnext.symm])] at hstart
    rw [if_pos (.inr hnext.symm)] at hwindow
    obtain ⟨hsame, -⟩ := blockFromSrc_same encode u u.cctx.maxBlockSize
    have hsrc : (u.blockFromSrc encode u.cctx.maxBlockSize).srcPtr =
        u.srcPtr + u.cctx.maxBlockSize := rfl
    have hrest := ih (u := u.blockFromSrc encode u.cctx.maxBlockSize)
      ((hcLinked_congr hsame).2 hhc) (by rw [hstream]; omega) (by rw [hstream]; omega)
      (by rw [hstream, hbuf, hsrc])
    rw [hsame.maxBlockSize, hstream, hwindow] at hrest
    exact hrest

/-- The blocks from the source leave `tmpIn` where it is. -/
theorem fullBlocks_tmpIn (n : Nat) (u : Update) :
    (u.fullBlocks encode n).cctx.tmpIn = u.cctx.tmpIn ∧
    (u.fullBlocks encode (n + 1)).lastBlockCompressed = .fromSrcBuffer := by
  induction n generalizing u with
  | zero => exact ⟨rfl, rfl⟩
  | succ n ih => exact ih (u.blockFromSrc encode u.cctx.maxBlockSize)

/-- The buffer is empty, and the history is where the last block has left it. -/
structure Ready (c : LZ4F_cctx) : Prop extends Placed c where
  empty : c.tmpInSize = 0
  history : HCLinked c → c.lz4Ctx.streamHC.prefixStart = 0 ∨ Contiguous c

/-- Behind at least one block from the source the history has to be saved, which makes room. -/
theorem fullBlocks_room {u : Update} (h : Ready u.cctx) (k : Nat) (hsrc : 0 < u.srcPtr)
    (hapart : u.srcPtr ≠ u.cctx.tmpIn)
    (hfits : HCLinked u.cctx →
      ((Window.extend u.cctx.maxBlockSize)^[k]
        ((windowOf u.cctx.lz4Ctx.streamHC).restart u.cctx.maxBlockSize)).size < 2 ^ 31) :
    Room ((u.fullBlocks encode (k + 1)).preserveDict false).cctx := by
  obtain ⟨hsame, hempty, -, -⟩ := fullBlocks_spec encode (k + 1) u
  have htmp := (fullBlocks_tmpIn encode (k + 1) u).1
  have hlast := (fullBlocks_tmpIn encode k u).2
  have hplaced : Placed (u.fullBlocks encode (k + 1)).cctx := by
    apply h.toPlaced.of_same hsame
    · rw [htmp, hsame.tmpBuff]
      exact h.tmpIn_ge
    · rw [htmp, hsame.tmpBuff, hsame.maxBufferSize]
      exact h.tmpIn_le
    · rw [hsame.prefs, htmp, hsame.tmpBuff]
      exact fun hind => (h.independent hind).1
  have hempty' := hempty.trans h.empty
  unfold Update.preserveDict
  by_cases hmode : u.cctx.prefs.frameInfo.blockMode = .blockLinked
  · rw [if_pos ⟨by rw [hsame.prefs]; exact hmode, hlast⟩, if_neg Bool.false_ne_true]
    apply rewind_room hplaced hempty' (by rw [hsame.prefs]; exact hmode)
    intro hhc
    have hhc' := (hcLinked_congr hsame).1 hhc
    -- the first block starts a new prefix
    have hstream : (u.blockFromSrc encode u.cctx.maxBlockSize).cctx.lz4Ctx.streamHC =
        hcAdvance u.cctx.lz4Ctx.streamHC u.srcPtr u.cctx.maxBlockSize :=
      makeBlock_streamHC encode hhc' u.srcPtr u.cctx.maxBlockSize
    obtain ⟨hsame₁, -⟩ := blockFromSrc_same encode u u.cctx.maxBlockSize
    have hold : u.cctx.lz4Ctx.streamHC.prefixStart ≤ u.cctx.lz4Ctx.streamHC.bufEnd := by
      rcases h.history hhc' with hnew | hcont
      · rw [hnew]
        exact Nat.zero_le _
      · exact hcont.le
    have hapart' : u.cctx.lz4Ctx.streamHC.prefixStart = 0 ∨
        u.srcPtr ≠ u.cctx.lz4Ctx.streamHC.bufEnd := by
      rcases h.history hhc' with hnew | hcont
      · exact .inl hnew
      · exact .inr fun heq => hapart (heq.trans hcont.bufEnd)
    obtain ⟨hbuf, hstart, hstart', -⟩ := hcAdvance_spec u.cctx.lz4Ctx.streamHC u.srcPtr
      u.cctx.maxBlockSize hsrc hold
    have hwindow := hcAdvance_restart u.cctx.maxBlockSize hsrc hold hapart'
    rw [if_pos hapart'] at hstart
    obtain ⟨hpos, hle, hrest⟩ := fullBlocks_window encode k
      (u := u.blockFromSrc encode u.cctx.maxBlockSize) ((hcLinked_congr hsame₁).2 hhc')
      (by rw [hstream]; omega) (by rw [hstream]; omega) (by rw [hstream, hbuf]; rfl)
    rw [hsame₁.maxBlockSize, hstream, hwindow] at hrest
    refine ⟨hle, ?_⟩
    have hsize := hfits hhc'
    rw [← hrest, windowOf, if_neg (Nat.ne_of_gt hpos)] at hsize
    have hsize' : (u.fullBlocks encode (k + 1)).cctx.lz4Ctx.streamHC.bufEnd -
        (u.fullBlocks encode (k + 1)).cctx.lz4Ctx.streamHC.prefixStart < 2 ^ 31 := hsize
    have hle' : (u.fullBlocks encode (k + 1)).cctx.lz4Ctx.streamHC.prefixStart ≤
        (u.fullBlocks encode (k + 1)).cctx.lz4Ctx.streamHC.bufEnd := hle
    omega
  · rw [if_neg fun hboth => hmode (by rw [← hsame.prefs]; exact hboth.1)]
    exact hplaced.room_of_independent hempty' (by rw [hsame.prefs]; exact hmode)

/-- A block from the buffer leaves `tmpIn` behind it, and the window extended. -/
theorem takeTmp_behind {c : LZ4F_cctx} (h : Room c) {n : Nat} (hn : n ≤ c.maxBlockSize) :
    Behind ((LZ4F_makeBlock encode c c.tmpIn n).2.takeTmp n) ∧
    (HCLinked c →
      windowOf ((LZ4F_makeBlock encode c c.tmpIn n).2.takeTmp n).lz4Ctx.streamHC =
        (windowOf c.lz4Ctx.streamHC).extend n) := by
  have hend := h.end_le
  have hroom := h.room
  have hpos := h.pos
  have hge := h.tmpIn_ge
  have hmoved : ptrAdd c.tmpIn n = c.tmpIn + n := ptrAdd_of_le (by omega)
  have hsame : SameFrame c ((LZ4F_makeBlock encode c c.tmpIn n).2.takeTmp n) :=
    ⟨rfl, rfl, rfl, rfl, rfl, rfl, rfl⟩
  have htmp : ((LZ4F_makeBlock encode c c.tmpIn n).2.takeTmp n).tmpIn =
      if c.prefs.frameInfo.blockMode = .blockLinked then c.tmpIn + n else c.tmpIn := by
    rw [← hmoved]
    rfl
  have hstream : HCLinked c →
      ((LZ4F_makeBlock encode c c.tmpIn n).2.takeTmp n).lz4Ctx.streamHC =
        hcAdvance c.lz4Ctx.streamHC c.tmpIn n := fun hhc => makeBlock_streamHC encode hhc c.tmpIn n
  have hold : HCLinked c → c.lz4Ctx.streamHC.prefixStart ≤ c.lz4Ctx.streamHC.bufEnd := by
    intro hhc
    rcases h.history hhc with hnew | hcont
    · rw [hnew]
      exact Nat.zero_le _
    · exact hcont.le
  have hempty : ((LZ4F_makeBlock encode c c.tmpIn n).2.takeTmp n).tmpInSize = 0 := rfl
  generalize (LZ4F_makeBlock encode c c.tmpIn n).2.takeTmp n = d at *
  refine ⟨{ h.toPlaced.of_same hsame ?_ ?_ ?_ with empty := hempty, history := ?_ }, ?_⟩
  · rw [htmp, hsame.tmpBuff]
    split <;> omega
  · rw [htmp, hsame.tmpBuff, hsame.maxBufferSize]
    split <;> omega
  · rw [hsame.prefs, hsame.tmpBuff, htmp]
    intro hind
    rw [if_neg hind]
    exact (h.independent hind).1
  · intro hhc
    have hhc' := (hcLinked_congr hsame).1 hhc
    obtain ⟨hbuf, hstart, hstart', -⟩ :=
      hcAdvance_spec c.lz4Ctx.streamHC c.tmpIn n (by omega) (hold hhc')
    have hlow : c.tmpBuff ≤ (hcAdvance c.lz4Ctx.streamHC c.tmpIn n).prefixStart := by
      refine Nat.le_trans ?_ hstart
      rcases h.history hhc' with hnew | hcont
      · rw [if_pos (.inl hnew)]
        exact hge
      · split
        · exact hge
        · exact hcont.start
    refine ⟨?_, ?_, ?_⟩
    · rw [hstream hhc', hsame.tmpBuff]
      exact hlow
    · rw [hstream hhc', hbuf]
      omega
    · rw [hstream hhc', hbuf, htmp, if_pos hhc'.1]
  · intro hhc
    have hwindow := (hcAdvance_spec c.lz4Ctx.streamHC c.tmpIn n (by omega) (hold hhc)).2.2.2
    rw [hstream hhc, hwindow, if_pos]
    rcases h.history hhc with hnew | hcont
    · exact .inl hnew
    · exact .inr hcont.bufEnd.symm

theorem Room.of_mem {c : LZ4F_cctx} (h : Room c) (mem : Memory) : Room { c with mem } :=
  { h with
    toPlaced := h.toPlaced.of_same ⟨rfl, rfl, rfl, rfl, rfl, rfl, rfl⟩ h.tmpIn_ge h.tmpIn_le
      fun hind => (h.independent hind).1
    history := fun hhc => (h.history hhc).imp id fun hcont =>
      ⟨hcont.start, hcont.le, hcont.bufEnd⟩ }

theorem Room.account {u : Update} (h : Room u.cctx) (source n : Nat) : Room (u.account source n) :=
  ⟨⟨h.autoFlush, h.valid, h.maxBlockSize, h.pos, h.end_le, h.small, h.linked, h.independent,
    h.tmpIn_ge, h.tmpIn_le⟩, h.room, h.lt, fun hhc => (h.history hhc).imp id fun hcont =>
      ⟨hcont.start, hcont.le, hcont.bufEnd⟩⟩

/-- The source completes the buffered block. -/
theorem completeTmp_behind {u : Update} (h : Room u.cctx) (hsome : u.cctx.tmpInSize ≠ 0)
    (hfull : u.cctx.maxBlockSize ≤ u.cctx.tmpInSize + u.srcSize) :
    Behind (u.completeTmp encode).cctx ∧
    (u.completeTmp encode).srcPtr = u.srcPtr + (u.cctx.maxBlockSize - u.cctx.tmpInSize) ∧
    (u.completeTmp encode).lastBlockCompressed = .fromTmpBuffer ∧
    (HCLinked u.cctx → windowOf (u.completeTmp encode).cctx.lz4Ctx.streamHC =
      (windowOf u.cctx.lz4Ctx.streamHC).extend u.cctx.maxBlockSize) := by
  have hS : u.cctx.maxBlockSize < SIZE_T :=
    Nat.lt_of_le_of_lt h.maxBlockSize_pos.2 (by decide)
  have hshort : ¬ u.srcSize < u.cctx.maxBlockSize - u.cctx.tmpInSize := by omega
  unfold Update.completeTmp
  simp only
  rw [if_neg hsome, sizeSub_of_le (Nat.le_of_lt h.lt) hS, if_neg hshort]
  obtain ⟨hbehind, hwindow⟩ := takeTmp_behind encode
    (h.of_mem (store u.cctx.mem (ptrAdd u.cctx.tmpIn u.cctx.tmpInSize)
      (load u.cctx.mem u.srcPtr (u.cctx.maxBlockSize - u.cctx.tmpInSize)))) (Nat.le_refl _)
  exact ⟨hbehind, rfl, rfl, hwindow⟩

/-- Filling the buffer leaves all but the number of buffered bytes as it is. -/
theorem fillTmp_room {u : Update} (h : Room u.cctx)
    (hlt : u.fillTmp.cctx.tmpInSize < u.cctx.maxBlockSize) : Room u.fillTmp.cctx := by
  obtain ⟨hsame, -, -⟩ := fillTmp_same u
  have htmp : u.fillTmp.cctx.tmpIn = u.cctx.tmpIn ∧ u.fillTmp.cctx.lz4Ctx = u.cctx.lz4Ctx := by
    unfold Update.fillTmp
    split <;> exact ⟨rfl, rfl⟩
  refine { h.toPlaced.of_same hsame ?_ ?_ ?_ with room := ?_, lt := ?_, history := ?_ }
  · rw [htmp.1, hsame.tmpBuff]
    exact h.tmpIn_ge
  · rw [htmp.1, hsame.tmpBuff, hsame.maxBufferSize]
    exact h.tmpIn_le
  · rw [htmp.1, hsame.prefs, hsame.tmpBuff]
    exact fun hind => (h.independent hind).1
  · rw [htmp.1, hsame.tmpBuff, hsame.maxBufferSize, hsame.maxBlockSize]
    exact h.room
  · rw [hsame.maxBlockSize]
    exact hlt
  · intro hhc
    rw [htmp.2]
    rcases h.history ((hcLinked_congr hsame).1 hhc) with hnew | hcont
    · exact .inl hnew
    · exact .inr ⟨by rw [htmp.2, hsame.tmpBuff]; exact hcont.start, by rw [htmp.2]; exact hcont.le,
        by rw [htmp.2, htmp.1]; exact hcont.bufEnd⟩

/-- The end of `LZ4F_compressUpdate`, when some of the source is compressed straight away or a
block was completed: there is room for the next block before the rest is buffered. -/
theorem finish_room {u : Update} (h : Ready u.cctx)
    (hbehind : u.lastBlockCompressed ≠ .fromSrcBuffer ∧ (Room u.cctx ∨ Behind u.cctx))
    (hsrc : 0 < u.srcPtr) (hapart : 0 < u.srcSize / u.cctx.maxBlockSize → u.srcPtr ≠ u.cctx.tmpIn)
    (hfits : HCLinked u.cctx → ∀ k, u.srcSize / u.cctx.maxBlockSize = k + 1 →
      ((Window.extend u.cctx.maxBlockSize)^[k]
        ((windowOf u.cctx.lz4Ctx.streamHC).restart u.cctx.maxBlockSize)).size < 2 ^ 31) :
    Room (Update.finish encode false u).cctx := by
  obtain ⟨hsame, hleft, -⟩ := finish_spec encode false u h.empty
  have hlt : (Update.finish encode false u).cctx.tmpInSize < u.cctx.maxBlockSize := by
    rw [hleft]
    split
    · exact h.maxBlockSize_pos.1
    · exact Nat.mod_lt _ h.maxBlockSize_pos.1
  unfold Update.finish at hlt ⊢
  simp only at hlt ⊢
  have hnoflush : ∀ n, (u.fullBlocks encode n).flushRest encode = u.fullBlocks encode n := by
    intro n
    unfold Update.flushRest
    rw [if_neg]
    rw [(fullBlocks_spec encode n u).1.prefs, h.autoFlush]
    exact fun hboth => Bool.false_ne_true hboth.1
  rw [hnoflush] at hlt ⊢
  have hkeep : ∀ v : Update, SameFrame u.cctx v.cctx →
      v.keepWithinLimits.cctx = v.cctx.keepWithinLimits := by
    intro v hv
    unfold Update.keepWithinLimits
    rw [if_neg]
    rw [hv.prefs, h.autoFlush]
    exact Bool.false_ne_true
  have hroom : Room ((u.fullBlocks encode (u.srcSize / u.cctx.maxBlockSize)).preserveDict
        false).keepWithinLimits.cctx := by
    cases hblocks : u.srcSize / u.cctx.maxBlockSize with
    | zero =>
      have hid : (u.fullBlocks encode 0).preserveDict false = u := by
        unfold Update.preserveDict
        rw [if_neg fun hboth => hbehind.1 hboth.2]
        rfl
      rw [hid, hkeep u (SameFrame.refl _)]
      rcases hbehind.2 with hroom | hbehind
      · rw [hroom.keepWithinLimits]
        exact hroom
      · exact hbehind.keepWithinLimits
    | succ k =>
      rw [hblocks] at hapart
      have hroom := fullBlocks_room encode h k hsrc (hapart (Nat.succ_pos k))
        fun hhc => hfits hhc k hblocks
      rw [hkeep _ ((fullBlocks_spec encode (k + 1) u).1.trans
        (preserveDict_same false (u.fullBlocks encode (k + 1))).1), hroom.keepWithinLimits]
      exact hroom
  apply fillTmp_room hroom
  refine Nat.lt_of_lt_of_eq hlt ?_
  have hsame₁ := (fullBlocks_spec encode (u.srcSize / u.cctx.maxBlockSize) u).1
  have hsame₂ := (preserveDict_same false
    (u.fullBlocks encode (u.srcSize / u.cctx.maxBlockSize))).1
  have hsame₃ := (update_keepWithinLimits_same
    ((u.fullBlocks encode (u.srcSize / u.cctx.maxBlockSize)).preserveDict false)).1
  exact ((hsame₁.trans hsame₂).trans hsame₃).maxBlockSize.symm

/-- After `LZ4F_compressUpdate` there is room for the next block. -/
theorem update_room {c : LZ4F_cctx} (h : Room c) {source n : Nat} (hapart : Apart c source n)
    (hfits : ChunkFits c n) :
    Room (Update.run encode false ⟨c, source, n, [], .notDone⟩).cctx := by
  obtain ⟨hpos, hbound⟩ := h.maxBlockSize_pos
  have hS : c.maxBlockSize < SIZE_T := Nat.lt_of_le_of_lt hbound (by decide)
  have hge := h.tmpIn_ge
  have hroom := h.room
  obtain ⟨hsrc, houtside⟩ := hapart
  have hrun : ∀ u, Update.run encode false u =
      Update.finish encode false (u.completeTmp encode) := fun _ => rfl
  rw [hrun]
  by_cases hempty : c.tmpInSize = 0
  · -- nothing is buffered
    have hid : (⟨c, source, n, [], .notDone⟩ : Update).completeTmp encode =
        ⟨c, source, n, [], .notDone⟩ := if_pos hempty
    rw [hid]
    refine finish_room encode (u := ⟨c, source, n, [], .notDone⟩)
      { h.toPlaced with empty := hempty, history := h.history }
      ⟨by rintro ⟨⟩, .inl h⟩ hsrc ?_ ?_
    · intro hblocks heq
      have hn : c.maxBlockSize ≤ n := by
        by_contra hlt
        exact Nat.ne_of_gt hblocks (Nat.div_eq_of_lt (Nat.lt_of_not_le hlt))
      have heq' : source = c.tmpIn := heq
      omega
    · intro hhc k hk
      have hsize := hfits hhc k (by rw [sourceBlocks, if_pos hempty, hempty, Nat.zero_add]; exact hk)
      rw [firstWindow, if_neg fun hboth => hboth.1 hempty] at hsize
      exact hsize
  by_cases hshort : c.tmpInSize + n < c.maxBlockSize
  · -- the buffer stays short of a block
    obtain ⟨hsame, hbuffered, hleft, hdst, hlast⟩ :=
      completeTmp_short encode ⟨c, source, n, [], .notDone⟩ h.lt hS hempty hshort
    have hroom' : Room ((⟨c, source, n, [], .notDone⟩ : Update).completeTmp encode).cctx := by
      unfold Update.completeTmp
      simp only
      rw [if_neg hempty, sizeSub_of_le (Nat.le_of_lt h.lt) hS, if_pos (by omega)]
      have hstored := h.of_mem
        (store c.mem (ptrAdd c.tmpIn c.tmpInSize) (load c.mem source n))
      exact { hstored with
        toPlaced := hstored.toPlaced.of_same ⟨rfl, rfl, rfl, rfl, rfl, rfl, rfl⟩ hstored.tmpIn_ge
          hstored.tmpIn_le fun hind => (hstored.independent hind).1
        lt := hshort
        history := fun hhc => (hstored.history hhc).imp id fun hcont =>
          ⟨hcont.start, hcont.le, hcont.bufEnd⟩ }
    generalize (⟨c, source, n, [], .notDone⟩ : Update).completeTmp encode = v at *
    have hfinish : (Update.finish encode false v).cctx = v.cctx := by
      have hauto : ¬ v.cctx.prefs.autoFlush := by
        rw [hroom'.autoFlush]
        exact Bool.false_ne_true
      unfold Update.finish Update.flushRest Update.preserveDict Update.keepWithinLimits
        Update.fillTmp
      simp only [hleft, hlast, Nat.zero_div, Update.fullBlocks, Nat.lt_irrefl, and_false, if_false,
        reduceCtorEq, hauto, Bool.false_eq_true, hroom'.keepWithinLimits]
    rw [hfinish]
    exact hroom'
  · -- the block in the buffer is completed
    have hfull := Nat.le_of_not_lt hshort
    obtain ⟨hbehind, hptr, hlast, hwindow⟩ :=
      completeTmp_behind encode (u := ⟨c, source, n, [], .notDone⟩) h hempty hfull
    obtain ⟨hsame, -, hleft, -⟩ := completeTmp_full encode
      ⟨c, source, n, [], .notDone⟩ h.lt hS hempty hfull
    generalize (⟨c, source, n, [], .notDone⟩ : Update).completeTmp encode = v at *
    have hptr' : v.srcPtr = source + (c.maxBlockSize - c.tmpInSize) := hptr
    have hleft' : v.srcSize = c.tmpInSize + n - c.maxBlockSize := hleft
    have hsame' : SameFrame c v.cctx := hsame
    have hvge := hbehind.tmpIn_ge
    have hvle := hbehind.tmpIn_le
    rw [hsame'.tmpBuff] at hvge hvle
    rw [hsame'.maxBufferSize] at hvle
    have hlt := h.lt
    refine finish_room encode { hbehind.toPlaced with
        empty := hbehind.empty, history := fun hhc => .inr (hbehind.history hhc) }
      ⟨by rw [hlast]; rintro ⟨⟩, .inr hbehind⟩ (by omega) ?_ ?_
    · intro hblocks heq
      have hn : 0 < v.srcSize := by
        by_contra hzero
        rw [Nat.eq_zero_of_not_pos hzero, Nat.zero_div] at hblocks
        exact Nat.lt_irrefl 0 hblocks
      omega
    · intro hhc k hk
      have hhc' : HCLinked c := (hcLinked_congr hsame').1 hhc
      have hcount : sourceBlocks c n = k + 1 := by
        rw [sourceBlocks, if_neg hempty, ← hk, hsame'.maxBlockSize, hleft',
          Nat.div_eq_sub_div hpos hfull, Nat.add_sub_cancel]
      have hsize := hfits hhc' k hcount
      rw [firstWindow, if_pos ⟨hempty, hfull⟩] at hsize
      rw [hsame'.maxBlockSize, hwindow hhc']
      exact hsize

/-- After `LZ4F_flush` there is room for the next block. -/
theorem flush_room {c : LZ4F_cctx} (h : Room c) (dstCapacity : Nat) :
    Room (LZ4F_flush encode c dstCapacity).1 := by
  unfold LZ4F_flush
  split
  · exact h
  split
  · exact h
  split
  · exact h
  · exact (takeTmp_behind encode h (Nat.le_of_lt h.lt)).1.keepWithinLimits

end Chunks

/-! ## Runs -/

/-- What the library knows about its buffer, whatever the block size. -/
structure Allocated (c : LZ4F_cctx) : Prop where
  small : c.maxBufferSize ≤ 4325376
  end_le : c.tmpBuff + c.maxBufferSize ≤ ADDRESS_SPACE
  pos : 0 < c.maxBufferSize → 0 < c.tmpBuff

theorem Allocated.of_eq {c d : LZ4F_cctx} (h : Allocated c) (hbuff : d.tmpBuff = c.tmpBuff)
    (hsize : d.maxBufferSize = c.maxBufferSize) : Allocated d where
  small := by rw [hsize]; exact h.small
  end_le := by rw [hbuff, hsize]; exact h.end_le
  pos := by rw [hbuff, hsize]; exact h.pos

/-- The size asked for is small, unless the block size is an error code. -/
theorem requiredBuffSize_le (preferences : LZ4F_preferences_t) (blockSizeID : Nat) :
    requiredBuffSize preferences (LZ4F_getBlockSize blockSizeID) ≤ 4325376 ∨
      requiredBuffSize preferences (LZ4F_getBlockSize blockSizeID) = SIZE_T - 2 := by
  unfold requiredBuffSize
  split
  · left
    split <;> decide
  · unfold LZ4F_getBlockSize
    split_ifs <;> decide

theorem manageBuffer_allocated {heap : Heap} (hheap : heap.Sane) (blockSizeID : Nat)
    {c : LZ4F_cctx} (h : Allocated c) (hsize : c.maxBlockSize = LZ4F_getBlockSize blockSizeID) :
    Allocated (manageBuffer heap c).1 := by
  unfold manageBuffer
  rw [hsize]
  simp only
  split
  · cases hcalloc : heap.calloc
        (requiredBuffSize c.prefs (LZ4F_getBlockSize blockSizeID)) with
    | none => exact ⟨Nat.zero_le _, Nat.zero_le _, fun hpos => absurd hpos (Nat.lt_irrefl 0)⟩
    | some tmpBuff =>
      obtain ⟨hpos, hle⟩ := hheap _ _ hcalloc
      refine ⟨?_, hle, fun _ => hpos⟩
      rcases requiredBuffSize_le c.prefs blockSizeID with hsmall | hhuge
      · exact hsmall
      · -- no object is as large as that
        rw [hhuge] at hle
        have hspace : ADDRESS_SPACE < SIZE_T - 2 := by decide
        omega
  · exact h

theorem compressBegin_allocated {heap : Heap} (hheap : heap.Sane) {c : LZ4F_cctx}
    (h : Allocated c) (dstCapacity : Nat) (preferences : LZ4F_preferences_t) :
    Allocated (LZ4F_compressBegin heap c dstCapacity preferences).1 := by
  unfold LZ4F_compressBegin
  split
  · exact h
  obtain ⟨ctx, alloc, state, hctx⟩ := manageCtx_eq heap { c with prefs := preferences }
  generalize manageCtx heap { c with prefs := preferences } = managed at hctx
  obtain ⟨c₁, e₁⟩ := managed
  simp only at hctx
  subst hctx
  cases e₁ with
  | some e => exact h.of_eq rfl rfl
  | none =>
    simp only
    generalize (if preferences.frameInfo.blockSizeID = 0 then LZ4F_BLOCKSIZEID_DEFAULT
      else preferences.frameInfo.blockSizeID) = blockSizeID
    have hbuffer := manageBuffer_allocated hheap blockSizeID
      (c := { c with
        prefs := { preferences with frameInfo := { preferences.frameInfo with blockSizeID } }
        lz4Ctx := ctx, lz4CtxAlloc := alloc, lz4CtxState := state
        maxBlockSize := LZ4F_getBlockSize blockSizeID })
      (h.of_eq rfl rfl) rfl
    generalize manageBuffer heap _ = buffered at hbuffer ⊢
    obtain ⟨c₂, e₂⟩ := buffered
    cases e₂ with
    | some e => exact hbuffer
    | none => exact hbuffer.of_eq rfl rfl

section Runs

variable (encode : Nat → Encoder)

/-- The allocator of a call does what allocators do. -/
def SaneCall : Call → Prop
  | .begin heap _ => heap.Sane
  | .chunk heap _ _ _ => heap.Sane
  | .flush heap _ _ => heap.Sane

theorem flush_same (c : LZ4F_cctx) (dstCapacity : Nat) :
    SameFrame c (LZ4F_flush encode c dstCapacity).1 := by
  unfold LZ4F_flush
  split_ifs
  · exact SameFrame.refl c
  · exact SameFrame.refl c
  · exact SameFrame.refl c
  · obtain ⟨hsame, -⟩ := keepWithinLimits_same
      ((LZ4F_makeBlock encode c c.tmpIn c.tmpInSize).2.takeTmp c.tmpInSize)
    exact ⟨hsame.prefs, hsame.cStage, hsame.maxBlockSize, hsame.maxBufferSize, hsame.tmpBuff,
      hsame.totalInSize, hsame.xxh⟩

theorem compressEnd_allocated {c : LZ4F_cctx} (h : Allocated c) (dstCapacity : Nat) :
    Allocated (LZ4F_compressEnd encode c dstCapacity).1 := by
  have hsame := flush_same encode c dstCapacity
  unfold LZ4F_compressEnd
  generalize LZ4F_flush encode c dstCapacity = r at hsame
  obtain ⟨d, result⟩ := r
  have hflushed : Allocated d := h.of_eq hsame.tmpBuff hsame.maxBufferSize
  have hspace := hflushed.end_le
  cases result with
  | error e => exact hflushed
  | ok flushed =>
    have hclosed : Allocated { d with cStage := 0, maxBufferSize := 0 } :=
      ⟨Nat.zero_le _, (Nat.le_add_right _ _).trans hspace,
        fun hpos => absurd hpos (Nat.lt_irrefl 0)⟩
    simp only
    split_ifs
    · exact hflushed
    · exact hflushed
    · exact hclosed
    · exact hclosed

/-- What `compress_chunk` does to the context of the library: nothing but the data in memory, or
`LZ4F_compressUpdate`. -/
theorem compress_chunk_cases (heap : Heap) (context : compression_context) (source : Nat)
    (data : List UInt8) (return_bytearray : Bool) :
    (compress_chunk encode heap context source data return_bytearray).1.preferences =
      context.preferences ∧
    ((∃ mem, (compress_chunk encode heap context source data return_bytearray).1.context =
        { context.context with mem }) ∨
      (compress_chunk encode heap context source data return_bytearray).1.context =
        (Update.run encode false
          ⟨{ context.context with mem := store context.context.mem source data }, source,
            data.length, [], .notDone⟩).account source data.length) := by
  have hunchanged : context.context = { context.context with mem := context.context.mem } := rfl
  unfold compress_chunk LZ4F_compressUpdate
  simp only
  split
  · exact ⟨rfl, .inl ⟨_, hunchanged⟩⟩
  split
  · split_ifs
    · exact ⟨rfl, .inl ⟨_, rfl⟩⟩
    · exact ⟨rfl, .inl ⟨_, rfl⟩⟩
    · exact ⟨rfl, .inr rfl⟩
  · exact ⟨rfl, .inl ⟨_, hunchanged⟩⟩

theorem Allocated.step {context : compression_context} (h : Allocated context.context) (call : Call)
    (hcall : SaneCall call) : Allocated (step encode context call).1.context := by
  cases call with
  | begin heap args =>
    show Allocated (compress_begin heap context args).1.context
    unfold compress_begin
    cases parseInt args.compression_level with
    | error e => exact h
    | ok level =>
      cases parseInt args.block_size with
      | error e => exact h
      | ok block_size =>
        simp only
        split
        · have hbegin := compressBegin_allocated hcall h header_size args.preferences
          generalize LZ4F_compressBegin heap context.context header_size args.preferences = r at *
          obtain ⟨d, result⟩ := r
          cases result with
          | error e => exact hbegin
          | ok header => exact hbegin
        · exact h
  | chunk heap source data return_bytearray =>
    rcases (compress_chunk_cases encode heap context source data return_bytearray).2 with
      ⟨mem, hsame⟩ | hrun
    · show Allocated (compress_chunk encode heap context source data return_bytearray).1.context
      rw [hsame]
      exact h.of_eq rfl rfl
    · show Allocated (compress_chunk encode heap context source data return_bytearray).1.context
      have hsame := run_same encode false
        ⟨{ context.context with mem := store context.context.mem source data }, source,
          data.length, [], .notDone⟩
      rw [hrun]
      exact h.of_eq hsame.tmpBuff hsame.maxBufferSize
  | flush heap end_frame return_bytearray =>
    show Allocated (compress_flush encode heap context end_frame return_bytearray).1.context
    have hlib : ∀ capacity, Allocated (if end_frame then
          LZ4F_compressEnd encode context.context capacity
        else LZ4F_flush encode context.context capacity).1 := by
      intro capacity
      split
      · exact compressEnd_allocated encode h capacity
      · have hsame := flush_same encode context.context capacity
        exact h.of_eq hsame.tmpBuff hsame.maxBufferSize
    unfold compress_flush
    simp only
    split
    · have hflush := hlib (flush_size context.preferences)
      generalize (if end_frame then
          LZ4F_compressEnd encode context.context (flush_size context.preferences)
        else LZ4F_flush encode context.context (flush_size context.preferences)) = r at hflush ⊢
      obtain ⟨d, result⟩ := r
      cases result with
      | error e => exact hflush
      | ok dst => exact hflush
    · exact h

theorem Allocated.run {context : compression_context} (h : Allocated context.context)
    (calls : List Call) (hcalls : ∀ call ∈ calls, SaneCall call) :
    Allocated (run encode context calls).context := by
  induction calls generalizing context with
  | nil => exact h
  | cons call calls ih =>
    exact ih (h.step encode call (hcalls call List.mem_cons_self)) fun c hc =>
      hcalls c (List.mem_cons_of_mem _ hc)

/-- The calls that follow `compress_begin`: chunks, whose data is not in the buffer, and flushes that
do not end the frame. -/
def LaterCall (context : compression_context) : Call → Prop
  | .begin _ _ => False
  | .chunk _ source data _ =>
    Apart context.context source data.length ∧ ChunkFits context.context data.length
  | .flush _ end_frame _ => end_frame = false

/-- Each of the calls is one when its turn comes. -/
def Later : compression_context → List Call → Prop
  | _, [] => True
  | context, call :: calls => LaterCall context call ∧ Later (step encode context call).1 calls

/-- The buffer is not overrun. -/
structure BufferSafe (c : LZ4F_cctx) : Prop where
  maxBlockSize : c.maxBlockSize ≤ 4096 * KB
  tmpInSize : c.tmpInSize < c.maxBlockSize
  tmpIn : c.tmpBuff ≤ c.tmpIn
  room : c.tmpIn - c.tmpBuff + c.tmpInSize ≤ c.maxBufferSize

theorem Room.bufferSafe {c : LZ4F_cctx} (h : Room c) : BufferSafe c := by
  have hroom := h.room
  have hlt := h.lt
  have hge := h.tmpIn_ge
  exact ⟨h.maxBlockSize_pos.2, hlt, hge, by omega⟩

theorem Room.step {context : compression_context} (h : Room context.context) (call : Call)
    (hcall : LaterCall context call) : Room (step encode context call).1.context := by
  cases call with
  | begin heap args => exact hcall.elim
  | chunk heap source data return_bytearray =>
    obtain ⟨hapart, hfits⟩ := hcall
    rcases (compress_chunk_cases encode heap context source data return_bytearray).2 with
      ⟨mem, hsame⟩ | hrun
    · show Room (compress_chunk encode heap context source data return_bytearray).1.context
      rw [hsame]
      exact h.of_mem mem
    · show Room (compress_chunk encode heap context source data return_bytearray).1.context
      have hroom := update_room encode (h.of_mem (store context.context.mem source data)) hapart
        hfits
      rw [hrun]
      exact hroom.account source data.length
  | flush heap end_frame return_bytearray =>
    obtain rfl : end_frame = false := hcall
    show Room (compress_flush encode heap context false return_bytearray).1.context
    have hflush := flush_room encode h (flush_size context.preferences)
    unfold compress_flush
    simp only [Bool.false_eq_true, if_false]
    split
    · generalize LZ4F_flush encode context.context (flush_size context.preferences) = r at *
      obtain ⟨d, result⟩ := r
      cases result with
      | error e => exact hflush
      | ok dst => exact hflush
    · exact h

theorem Room.run {context : compression_context} (h : Room context.context) (calls : List Call)
    (hlater : Later encode context calls) : Room (run encode context calls).context := by
  induction calls generalizing context with
  | nil => exact h
  | cons call calls ih => exact ih (h.step encode call hlater.1) hlater.2

end Runs

/-- A begun frame has room for its first block. -/
theorem begun_room {heap : Heap} {c d : LZ4F_cctx} {preferences : LZ4F_preferences_t}
    (hbegun : Begun heap c preferences d) (h : Allocated d)
    (hauto : preferences.autoFlush = false)
    (hid : ValidBlockSizeID preferences.frameInfo.blockSizeID) : Room d := by
  obtain ⟨hlow, hhigh⟩ := getBlockSize_bounds hid
  have hflag : d.prefs.autoFlush = false := by
    rw [hbegun.prefs]
    exact hauto
  have hmode : d.prefs.frameInfo.blockMode = preferences.frameInfo.blockMode := by
    rw [hbegun.prefs]
    rfl
  have hvalid : ValidBlockSizeID d.prefs.frameInfo.blockSizeID := by
    rw [hbegun.prefs, withDefaultBlockSize]
    simp only
    split
    · exact .inr ⟨by decide, by decide⟩
    · exact hid
  have hrequired := hbegun.required
  have hblock := hbegun.maxBlockSize
  have hS : SIZE_T = 2 ^ 64 := rfl
  have hKB : KB = 1024 := rfl
  have hsize : d.maxBlockSize +
      (if preferences.frameInfo.blockMode = .blockLinked then 131072 else 0) ≤ d.maxBufferSize := by
    refine Nat.le_trans (Nat.le_of_eq ?_) hrequired
    unfold requiredBuffSize
    rw [hauto, if_neg Bool.false_ne_true, Nat.mod_eq_of_lt]
    · rfl
    · split <;> omega
  have hplaced : Placed d := by
    refine ⟨hflag, hvalid, ?_, h.pos (by omega), h.end_le, h.small, ?_, ?_, ?_, ?_⟩
    · rw [hbegun.prefs, getBlockSize_default, hblock]
    · rw [hmode]
      intro hlinked
      rwa [if_pos hlinked] at hsize
    · rw [hmode]
      intro hind
      rw [if_neg hind] at hsize
      exact ⟨hbegun.tmpIn, hsize⟩
    · rw [hbegun.tmpIn]
    · rw [hbegun.tmpIn]
      exact Nat.le_add_right _ _
  refine { hplaced with room := ?_, lt := ?_, history := fun hhc => .inl (hbegun.history hhc.1 hhc.2) }
  · rw [hbegun.tmpIn]
    omega
  · rw [hbegun.tmpInSize]
    exact hplaced.maxBlockSize_pos.1

/-- A C `int` gives a known identifier only if it is one. -/
theorem validBlockSize_of_id {block_size parsed : Int} (hparse : parseInt block_size = .ok parsed)
    (h : ValidBlockSizeID (blockSizeIDOf block_size)) : ValidBlockSize block_size := by
  unfold parseInt at hparse
  unfold ValidBlockSizeID blockSizeIDOf at h
  unfold ValidBlockSize
  split at hparse
  · simp at hparse
  split at hparse
  · simp at hparse
  omega

theorem getBlockSize_le_of_valid {blockSizeID : Nat}
    (h : LZ4F_getBlockSize blockSizeID ≤ 4096 * KB) : ValidBlockSizeID blockSizeID := by
  unfold LZ4F_getBlockSize at h
  unfold ValidBlockSizeID
  split_ifs at h with h0 h5 h6 h7
  · omega
  · omega
  · omega
  · omega
  · exact absurd h (by decide)

/-- `compress_begin` without `auto_flush`, on whatever context, gives a buffer that no sequence of
chunks and flushes overruns if and only if `block_size` is one of the five identifiers. Each chunk
leaves the high compression stream with a prefix that an `int` can count. -/
theorem buffer_room (encode : Nat → Encoder) (mem : Memory) (preferences : LZ4F_preferences_t)
    (history : List Call) (hhistory : ∀ call ∈ history, SaneCall call) (heap : Heap)
    (hheap : heap.Sane) (args : BeginArgs) (hauto : args.auto_flush = false)
    (context : compression_context) (header : PyBytes)
    (hbegin : compress_begin heap
      (run encode (create_compression_context mem preferences) history) args =
        (context, .ok header)) :
    (∀ calls, Later encode context calls → BufferSafe (run encode context calls).context) ↔
      ValidBlockSize args.block_size := by
  have hfresh : Allocated (create_compression_context mem preferences).context :=
    ⟨Nat.zero_le _, Nat.zero_le _, fun hpos => absurd hpos (Nat.lt_irrefl 0)⟩
  have hbefore := hfresh.run encode history hhistory
  have hafter := hbefore.step encode (.begin heap args) hheap
  have hcontext : (step encode (run encode (create_compression_context mem preferences) history)
      (.begin heap args)).1 = context := congrArg Prod.fst hbegin
  rw [hcontext] at hafter
  -- what the call has returned comes from the library
  generalize run encode (create_compression_context mem preferences) history = before at *
  unfold compress_begin at hbegin
  cases hlevel : parseInt args.compression_level with
  | error e => simp [hlevel] at hbegin
  | ok level =>
    cases hparse : parseInt args.block_size with
    | error e => simp [hlevel, hparse] at hbegin
    | ok parsed =>
      simp only [hlevel, hparse] at hbegin
      split at hbegin
      · cases hlib : LZ4F_compressBegin heap before.context header_size args.preferences with
        | mk d result =>
          cases result with
          | error e => simp [hlib] at hbegin
          | ok bytes =>
            simp only [hlib, Prod.mk.injEq, Except.ok.injEq] at hbegin
            obtain ⟨rfl, -⟩ := hbegin
            have hbegun := (compressBegin_begun hlib).1
            constructor
            · intro hall
              have hsafe := (hall [] trivial).maxBlockSize
              have hsize : d.maxBlockSize = LZ4F_getBlockSize (blockSizeIDOf args.block_size) :=
                hbegun.maxBlockSize
              have hsafe' : d.maxBlockSize ≤ 4096 * KB := hsafe
              rw [hsize] at hsafe'
              exact validBlockSize_of_id hparse (getBlockSize_le_of_valid hsafe')
            · intro hvalid calls hlater
              have hroom : Room (compression_context.mk d args.preferences).context :=
                begun_room hbegun hafter hauto (blockSizeIDOf_valid hvalid)
              exact (hroom.run encode calls hlater).bufferSafe
      · simp at hbegin

/-! ## When a chunk fits -/

theorem Window.renew_size (w : Window) : w.renew.size ≤ w.size := by
  unfold Window.renew
  split
  · exact Nat.min_le_left _ _
  · exact Nat.le_refl _

theorem extend_iterate_size (blockSize k : Nat) (w : Window) :
    ((Window.extend blockSize)^[k] w).size ≤ w.size + k * blockSize := by
  induction k generalizing w with
  | zero => exact Nat.le_add_right _ _
  | succ k ih =>
    have hfirst : (w.extend blockSize).size ≤ w.size + blockSize :=
      Nat.add_le_add_right w.renew_size blockSize
    rw [Function.iterate_succ_apply, Nat.succ_mul]
    have hrest := ih (w.extend blockSize)
    omega

/-- Only a chunk of 2 GB can make the prefix too long. -/
theorem chunkFits_of_short {c : LZ4F_cctx} {n : Nat} (hlt : c.tmpInSize < c.maxBlockSize)
    (hn : n < 2 ^ 31) : ChunkFits c n := by
  intro _ k hk
  have hsize := extend_iterate_size c.maxBlockSize k ((firstWindow c n).restart c.maxBlockSize)
  have hfirst : ((firstWindow c n).restart c.maxBlockSize).size = c.maxBlockSize := rfl
  have hblocks : (c.tmpInSize + n) / c.maxBlockSize * c.maxBlockSize ≤ c.tmpInSize + n :=
    Nat.div_mul_le_self _ _
  rw [hfirst] at hsize
  unfold sourceBlocks at hk
  have htotal : (k + 1) * c.maxBlockSize ≤ n := by
    by_cases hempty : c.tmpInSize = 0
    · rw [if_pos hempty, Nat.sub_zero] at hk
      rw [hk] at hblocks
      omega
    · rw [if_neg hempty] at hk
      have hk' : (c.tmpInSize + n) / c.maxBlockSize = k + 1 + 1 := by omega
      rw [hk', Nat.succ_mul (k + 1)] at hblocks
      omega
  rw [Nat.succ_mul] at htotal
  omega

/-- A longer prefix gives a negative size, and `tmpIn` is no longer in the buffer. -/
theorem rewind_overflow {c : LZ4F_cctx} (hslow : ¬ c.prefs.compressionLevel < LZ4HC_CLEVEL_MIN)
    (hlong : c.lz4Ctx.streamHC.prefixStart + 2 ^ 31 ≤ c.lz4Ctx.streamHC.bufEnd)
    (hwrap : c.lz4Ctx.streamHC.bufEnd < c.lz4Ctx.streamHC.prefixStart + 2 ^ 32)
    (hend : c.tmpBuff + c.maxBufferSize ≤ ADDRESS_SPACE) : ¬ BufferSafe c.rewind := by
  intro hsafe
  obtain ⟨hsame, -⟩ := rewind_same c
  obtain ⟨excess, hexcess⟩ := Nat.exists_eq_add_of_le hlong
  have hmod : Int.bmod ((c.lz4Ctx.streamHC.bufEnd : Int) - c.lz4Ctx.streamHC.prefixStart)
      (2 ^ 32) = (excess : Int) - 2 ^ 31 := by
    rw [hexcess, Int.bmod_def]
    omega
  have hsaved : (LZ4_saveDictHC c.mem c.lz4Ctx.streamHC c.tmpBuff KB64).2.2 =
      (excess : Int) - 2 ^ 31 := by
    have h64 : KB64 = 65536 := rfl
    unfold LZ4_saveDictHC
    simp only [hmod]
    split_ifs <;> omega
  have htmp : c.rewind.tmpIn = ptrAdd c.tmpBuff ((excess : Int) - 2 ^ 31) := by
    have hlocal : (LZ4F_localSaveDict c).2 = (excess : Int) - 2 ^ 31 := by
      unfold LZ4F_localSaveDict
      rw [if_neg hslow]
      exact hsaved
    show ptrAdd (LZ4F_localSaveDict c).1.tmpBuff (LZ4F_localSaveDict c).2 = _
    rw [hlocal, (localSaveDict_same c).1.tmpBuff]
  have hge := hsafe.tmpIn
  have hroom := hsafe.room
  rw [hsame.tmpBuff, htmp] at hge hroom
  rw [hsame.maxBufferSize] at hroom
  have hS : (SIZE_T : Int) = 2 ^ 64 := rfl
  have hspace : ADDRESS_SPACE = 2 ^ 48 := rfl
  unfold ptrAdd at hge hroom
  rw [hS] at hge hroom
  omega

/-- A new context. -/
def freshContext : compression_context :=
  create_compression_context (fun _ => 0) LZ4F_INIT_PREFERENCES

/-- An allocator with half of the address space. -/
def halfHeap : Heap := ⟨fun _ => true, fun n => if n ≤ 2 ^ 47 then some 4096 else none⟩

theorem halfHeap_sane : halfHeap.Sane := by
  intro n p hp
  have hspace : ADDRESS_SPACE = 2 ^ 48 := rfl
  simp only [halfHeap, Option.ite_none_right_eq_some, Option.some.injEq] at hp
  obtain ⟨hle, rfl⟩ := hp
  omega

theorem buffer_room_max64KB :
    (∀ calls, Later (fun _ _ _ _ _ => [])
        (compress_begin halfHeap freshContext ⟨0, 9, 4, false, false, true, false, false⟩).1 calls →
      BufferSafe (run (fun _ _ _ _ _ => [])
        (compress_begin halfHeap freshContext ⟨0, 9, 4, false, false, true, false, false⟩).1
        calls).context) ↔ ValidBlockSize 4 := by
  refine buffer_room (fun _ _ _ _ _ => []) (fun _ => 0) LZ4F_INIT_PREFERENCES [] (by simp) halfHeap
    halfHeap_sane ⟨0, 9, 4, false, false, true, false, false⟩ rfl _
    ⟨false, [4, 34, 77, 24, 64, 64, 192]⟩ ?_
  exact Prod.ext rfl (by decide +kernel)

/-- A chunk that is shorter than a block goes to the buffer as a whole, if the buffer is empty. -/
theorem compress_chunk_buffers (encode : Nat → Encoder) (heap : Heap) (context : compression_context)
    (source : Nat) (data : List UInt8) (hstage : context.context.cStage = 1) (hempty : context.context.tmpInSize = 0)
    (hauto : context.context.prefs.autoFlush = false)
    (hsize : context.context.maxBlockSize < SIZE_T)
    (hshort : data.length < context.context.maxBlockSize)
    (hbound : compressed_bound context.preferences data.length ≤ PY_SSIZE_T_MAX)
    (hheap : heap.malloc (compressed_bound context.preferences data.length) = true)
    (hcheck : LZ4F_compressBound_internal data.length context.context.prefs 0 ≤
      compressed_bound context.preferences data.length) :
    (compress_chunk encode heap context source data false).1.context.maxBufferSize =
      context.context.maxBufferSize ∧
    (compress_chunk encode heap context source data false).1.context.tmpInSize = data.length := by
  have hspec : ∀ c : LZ4F_cctx, c = { context.context with
      mem := store context.context.mem source data } →
      (LZ4F_compressUpdate encode c (compressed_bound context.preferences data.length) source
        data.length false).1.maxBufferSize = context.context.maxBufferSize ∧
      (LZ4F_compressUpdate encode c (compressed_bound context.preferences data.length) source
        data.length false).1.tmpInSize = data.length := by
    intro c hc
    obtain ⟨hsame, hleft, -⟩ := update_spec encode false c source data.length
      ⟨by rw [hc]; show context.context.tmpInSize < _; rw [hempty]; exact Nat.zero_lt_of_lt hshort,
        fun _ => by rw [hc]; exact hempty⟩ (by rw [hc]; exact hsize)
    have hzero : c.tmpInSize = 0 := by rw [hc]; exact hempty
    have hopen : c.cStage = 1 := by rw [hc]; exact hstage
    have hprefs : c.prefs = context.context.prefs := by rw [hc]
    unfold LZ4F_compressUpdate
    rw [if_neg (not_not_intro hopen), hzero, hprefs, if_neg (Nat.not_lt.2 hcheck)]
    refine ⟨hsame.maxBufferSize.trans (by rw [hc]), hleft.trans ?_⟩
    rw [hprefs, hauto, if_neg Bool.false_ne_true, hzero, Nat.zero_add, hc]
    exact Nat.mod_eq_of_lt hshort
  unfold compress_chunk
  simp only
  rw [if_neg (Nat.not_lt.2 hbound), if_pos hheap]
  have hupdate := hspec _ rfl
  generalize LZ4F_compressUpdate encode _ _ source data.length false = r at hupdate ⊢
  obtain ⟨d, result⟩ := r
  cases result with
  | error e => exact hupdate
  | ok dst => exact hupdate

/-- The context after `compress_begin` with `block_size` 1, `block_linked` and without `auto_flush`. -/
def errorSizedContext : compression_context :=
  (compress_begin halfHeap freshContext ⟨0, 0, 1, false, false, true, false, false⟩).1

theorem halfHeap_malloc (n : Nat) : halfHeap.malloc n = true := rfl

theorem run_chunk (encode : Nat → Encoder) (context : compression_context) (heap : Heap)
    (source : Nat) (data : List UInt8) (return_bytearray : Bool) :
    run encode context [.chunk heap source data return_bytearray] =
      (compress_chunk encode heap context source data return_bytearray).1 := rfl

/-- A buffer of 131070 bytes for blocks of `2 ^ 64 - 2` takes any number of bytes. -/
theorem errorSized_overrun (encode : Nat → Encoder) (data : List UInt8)
    (hlen : data.length = 131071) :
    (run encode errorSizedContext [.chunk halfHeap 1000000 data false]).context.maxBufferSize =
      131070 ∧
    (run encode errorSizedContext [.chunk halfHeap 1000000 data false]).context.tmpInSize =
      131071 := by
  have hchunk := compress_chunk_buffers encode halfHeap errorSizedContext 1000000 data
    (by decide +kernel) (by decide +kernel) (by decide +kernel) (by decide +kernel)
    (by rw [hlen]; decide +kernel) (by rw [hlen]; decide +kernel) (halfHeap_malloc _)
    (by rw [hlen]; decide +kernel)
  have hbuffer : errorSizedContext.context.maxBufferSize = 131070 := by decide +kernel
  rw [run_chunk]
  exact ⟨hchunk.1.trans hbuffer, hchunk.2.trans hlen⟩

/-- `block_size` 1 is accepted, and a chunk of 131071 bytes is copied into a smaller buffer. -/
theorem buffer_room_fails :
    (compress_begin halfHeap freshContext ⟨0, 0, 1, false, false, true, false, false⟩).2 =
      .ok ⟨false, [4, 34, 77, 24, 64, 16, 104]⟩ ∧
    ¬ BufferSafe (run (fun _ _ _ _ _ => []) errorSizedContext
      [.chunk halfHeap 1000000 (List.replicate 131071 0) false]).context := by
  obtain ⟨hbuffer, hsize⟩ := errorSized_overrun (fun _ _ _ _ _ => []) (List.replicate 131071 0)
    List.length_replicate
  refine ⟨by decide +kernel, fun hsafe => ?_⟩
  have hroom := (Nat.le_add_left _ _).trans hsafe.room
  rw [hbuffer, hsize] at hroom
  exact absurd hroom (by decide)

end PythonLz4.Frame.BufferRoom
