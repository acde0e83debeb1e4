import PythonLz4.Frame.CompressChunk
import Mathlib.Tactic

/-!
# The destinations of the compression wrappers are large enough

The wrappers size their destinations from their own copy of the preferences and without knowing how
much input the library has buffered. While a frame is open the buffer holds less than a block, and
nothing at all with `auto_flush`; so the bound for a full buffer covers the check the library makes
for the real one, and what it then writes (`destination_suffices`).
-/

set_option autoImplicit false

namespace PythonLz4.Frame.CompressBounds

open PythonLz4.Runtime
open PythonLz4.Lib.LittleEndian
open PythonLz4.Lib.ByteMemory
open PythonLz4.Stream.Continue
open PythonLz4.Frame.XXHash
open PythonLz4.Frame.Header
open PythonLz4.Frame.CompressionContext
open PythonLz4.Frame.CompressChunk

/-! ## What stays while a frame is written -/

/-- The two contexts differ at most in the buffered input, the history and the memory. -/
structure SameFrame (c d : LZ4F_cctx) : Prop where
  prefs : d.prefs = c.prefs
  cStage : d.cStage = c.cStage
  maxBlockSize : d.maxBlockSize = c.maxBlockSize
  maxBufferSize : d.maxBufferSize = c.maxBufferSize
  tmpBuff : d.tmpBuff = c.tmpBuff
  totalInSize : d.totalInSize = c.totalInSize
  xxh : d.xxh = c.xxh

theorem SameFrame.refl (c : LZ4F_cctx) : SameFrame c c := ⟨rfl, rfl, rfl, rfl, rfl, rfl, rfl⟩

theorem SameFrame.trans {c d e : LZ4F_cctx} (h : SameFrame c d) (h' : SameFrame d e) :
    SameFrame c e where
  prefs := h'.prefs.trans h.prefs
  cStage := h'.cStage.trans h.cStage
  maxBlockSize := h'.maxBlockSize.trans h.maxBlockSize
  maxBufferSize := h'.maxBufferSize.trans h.maxBufferSize
  tmpBuff := h'.tmpBuff.trans h.tmpBuff
  totalInSize := h'.totalInSize.trans h.totalInSize
  xxh := h'.xxh.trans h.xxh

theorem localSaveDict_same (c : LZ4F_cctx) :
    SameFrame c (LZ4F_localSaveDict c).1 ∧ (LZ4F_localSaveDict c).1.tmpInSize = c.tmpInSize := by
  unfold LZ4F_localSaveDict
  by_cases hfast : c.prefs.compressionLevel < LZ4HC_CLEVEL_MIN
  · rw [if_pos hfast]
    exact ⟨⟨rfl, rfl, rfl, rfl, rfl, rfl, rfl⟩, rfl⟩
  · rw [if_neg hfast]
    exact ⟨⟨rfl, rfl, rfl, rfl, rfl, rfl, rfl⟩, rfl⟩

theorem rewind_same (c : LZ4F_cctx) :
    SameFrame c c.rewind ∧ c.rewind.tmpInSize = c.tmpInSize := by
  obtain ⟨hsame, hsize⟩ := localSaveDict_same c
  exact ⟨⟨hsame.prefs, hsame.cStage, hsame.maxBlockSize, hsame.maxBufferSize, hsame.tmpBuff,
    hsame.totalInSize, hsame.xxh⟩, hsize⟩

theorem keepWithinLimits_same (c : LZ4F_cctx) :
    SameFrame c c.keepWithinLimits ∧ c.keepWithinLimits.tmpInSize = c.tmpInSize := by
  unfold LZ4F_cctx.keepWithinLimits
  split
  · exact rewind_same c
  · exact ⟨SameFrame.refl c, rfl⟩

section Blocks

variable (encode : Nat → Encoder)

theorem makeBlock_same (c : LZ4F_cctx) (src srcSize : Nat) :
    SameFrame c (LZ4F_makeBlock encode c src srcSize).2 ∧
      (LZ4F_makeBlock encode c src srcSize).2.tmpInSize = c.tmpInSize :=
  ⟨⟨rfl, rfl, rfl, rfl, rfl, rfl, rfl⟩, rfl⟩

/-! ## The size of a block -/

/-- The bytes a block has beside its data. -/
def blockOverhead (prefs : LZ4F_preferences_t) : Nat :=
  BHSize + if prefs.frameInfo.blockChecksumFlag then BFSize else 0

theorem length_encodeBlock (crcFlag : Bool) (compressed source : List UInt8) :
    (encodeBlock crcFlag compressed source).length ≤
      BHSize + source.length + if crcFlag then BFSize else 0 := by
  have hdata : (blockBytes compressed source).1.length = BHSize ∧
      (blockBytes compressed source).2.length ≤ source.length := by
    unfold blockBytes
    split
    · exact ⟨length_leBytes _ _, Nat.le_refl _⟩
    · exact ⟨length_leBytes _ _, by simp only; omega⟩
  unfold encodeBlock
  cases crcFlag
  · simp only [List.length_append, hdata.1]
    have := hdata.2
    simp
    omega
  · simp only [List.length_append, hdata.1, if_true, length_checksumBytes, BFSize]
    have := hdata.2
    omega

theorem length_makeBlock (c : LZ4F_cctx) (src srcSize : Nat) :
    (LZ4F_makeBlock encode c src srcSize).1.length ≤ blockOverhead c.prefs + srcSize := by
  have hlen := length_encodeBlock c.prefs.frameInfo.blockChecksumFlag
    (LZ4F_selectCompression encode c src srcSize (srcSize - 1)).1 (load c.mem src srcSize)
  rw [length_load] at hlen
  unfold blockOverhead
  calc (LZ4F_makeBlock encode c src srcSize).1.length
      ≤ BHSize + srcSize + (if c.prefs.frameInfo.blockChecksumFlag then BFSize else 0) := hlen
    _ = _ := by omega

/-! ## `LZ4F_compressUpdate` -/

theorem blockFromSrc_same (u : Update) (size : Nat) :
    SameFrame u.cctx (u.blockFromSrc encode size).cctx ∧
      (u.blockFromSrc encode size).cctx.tmpInSize = u.cctx.tmpInSize :=
  makeBlock_same encode u.cctx u.srcPtr size

theorem length_blockFromSrc (u : Update) (size : Nat) :
    (u.blockFromSrc encode size).dst.length ≤
      u.dst.length + (blockOverhead u.cctx.prefs + size) := by
  have hlen := length_makeBlock encode u.cctx u.srcPtr size
  calc (u.blockFromSrc encode size).dst.length
      = u.dst.length + (LZ4F_makeBlock encode u.cctx u.srcPtr size).1.length :=
        List.length_append
    _ ≤ _ := Nat.add_le_add_left hlen _

/-- `n` whole blocks from the source. -/
theorem fullBlocks_spec (n : Nat) (u : Update) :
    SameFrame u.cctx (u.fullBlocks encode n).cctx ∧
    (u.fullBlocks encode n).cctx.tmpInSize = u.cctx.tmpInSize ∧
    (u.fullBlocks encode n).srcSize = u.srcSize - n * u.cctx.maxBlockSize ∧
    (u.fullBlocks encode n).dst.length ≤
      u.dst.length + n * (blockOverhead u.cctx.prefs + u.cctx.maxBlockSize) := by
  induction n generalizing u with
  | zero => exact ⟨SameFrame.refl _, rfl, by simp [Update.fullBlocks], by simp [Update.fullBlocks]⟩
  | succ n ih =>
    obtain ⟨hsame, hsize⟩ := blockFromSrc_same encode u u.cctx.maxBlockSize
    have hlen := length_blockFromSrc encode u u.cctx.maxBlockSize
    have hsrc : (u.blockFromSrc encode u.cctx.maxBlockSize).srcSize =
        u.srcSize - u.cctx.maxBlockSize := rfl
    obtain ⟨hsame', hsize', hsrc', hlen'⟩ := ih (u.blockFromSrc encode u.cctx.maxBlockSize)
    rw [hsame.prefs, hsame.maxBlockSize] at hlen'
    rw [hsame.maxBlockSize, hsrc] at hsrc'
    refine ⟨hsame.trans hsame', hsize'.trans hsize, ?_, ?_⟩
    · show (Update.fullBlocks encode n _).srcSize = _
      rw [hsrc', Nat.succ_mul]
      omega
    · show (Update.fullBlocks encode n _).dst.length ≤ _
      rw [Nat.succ_mul]
      omega

theorem preserveDict_same (stableSrc : Bool) (u : Update) :
    SameFrame u.cctx (u.preserveDict stableSrc).cctx ∧
    (u.preserveDict stableSrc).cctx.tmpInSize = u.cctx.tmpInSize ∧
    (u.preserveDict stableSrc).srcSize = u.srcSize ∧ (u.preserveDict stableSrc).dst = u.dst := by
  unfold Update.preserveDict
  split
  · cases stableSrc
    · obtain ⟨hsame, hsize⟩ := rewind_same u.cctx
      exact ⟨hsame, hsize, rfl, rfl⟩
    · exact ⟨⟨rfl, rfl, rfl, rfl, rfl, rfl, rfl⟩, rfl, rfl, rfl⟩
  · exact ⟨SameFrame.refl _, rfl, rfl, rfl⟩

theorem update_keepWithinLimits_same (u : Update) :
    SameFrame u.cctx u.keepWithinLimits.cctx ∧
    u.keepWithinLimits.cctx.tmpInSize = u.cctx.tmpInSize ∧
    u.keepWithinLimits.srcSize = u.srcSize ∧ u.keepWithinLimits.dst = u.dst := by
  unfold Update.keepWithinLimits
  split
  · exact ⟨SameFrame.refl _, rfl, rfl, rfl⟩
  · obtain ⟨hsame, hsize⟩ := keepWithinLimits_same u.cctx
    exact ⟨hsame, hsize, rfl, rfl⟩

/-- The rest of the source is buffered. -/
theorem fillTmp_same (u : Update) :
    SameFrame u.cctx u.fillTmp.cctx ∧
    u.fillTmp.cctx.tmpInSize = (if 0 < u.srcSize then u.srcSize else u.cctx.tmpInSize) ∧
    u.fillTmp.dst = u.dst := by
  unfold Update.fillTmp
  split
  · exact ⟨⟨rfl, rfl, rfl, rfl, rfl, rfl, rfl⟩, rfl, rfl⟩
  · exact ⟨SameFrame.refl _, rfl, rfl⟩

theorem completeTmp_same (u : Update) : SameFrame u.cctx (u.completeTmp encode).cctx := by
  unfold Update.completeTmp
  simp only
  split_ifs <;> exact ⟨rfl, rfl, rfl, rfl, rfl, rfl, rfl⟩

theorem flushRest_same (u : Update) : SameFrame u.cctx (u.flushRest encode).cctx := by
  unfold Update.flushRest
  split
  · exact (blockFromSrc_same encode u u.srcSize).1
  · exact SameFrame.refl _

/-- `LZ4F_compressUpdate` stays in its frame, whatever the sizes. -/
theorem run_same (stableSrc : Bool) (u : Update) :
    SameFrame u.cctx (Update.run encode stableSrc u).cctx := by
  have h₁ := completeTmp_same encode u
  generalize hv₁ : u.completeTmp encode = v₁ at h₁
  have h₂ := (fullBlocks_spec encode (v₁.srcSize / v₁.cctx.maxBlockSize) v₁).1
  generalize hv₂ : v₁.fullBlocks encode (v₁.srcSize / v₁.cctx.maxBlockSize) = v₂ at h₂
  have h₃ := flushRest_same encode v₂
  have h₄ := (preserveDict_same stableSrc (v₂.flushRest encode)).1
  have h₅ := (update_keepWithinLimits_same ((v₂.flushRest encode).preserveDict stableSrc)).1
  have h₆ := (fillTmp_same ((v₂.flushRest encode).preserveDict stableSrc).keepWithinLimits).1
  subst hv₁ hv₂
  exact ((((h₁.trans h₂).trans h₃).trans h₄).trans h₅).trans h₆

/-- The buffer holds less than a block, and nothing with `autoFlush`. -/
structure Buffered (c : LZ4F_cctx) : Prop where
  lt : c.tmpInSize < c.maxBlockSize
  autoFlush : c.prefs.autoFlush → c.tmpInSize = 0

/-- What the blocks of `input` bytes take at most: whole blocks, and one with the rest if it is
flushed. -/
def roomFor (overhead blockSize : Nat) (flush : Bool) (input : Nat) : Nat :=
  input / blockSize * (overhead + blockSize) +
    if flush ∧ 0 < input % blockSize then overhead + input % blockSize else 0

/-- The end of `LZ4F_compressUpdate`, from an empty buffer on. -/
def Update.finish (stableSrc : Bool) (u : Update) : Update :=
  let u := u.fullBlocks encode (u.srcSize / u.cctx.maxBlockSize)
  let u := u.flushRest encode
  let u := u.preserveDict stableSrc
  let u := u.keepWithinLimits
  u.fillTmp

theorem finish_spec (stableSrc : Bool) (u : Update) (hempty : u.cctx.tmpInSize = 0) :
    SameFrame u.cctx (Update.finish encode stableSrc u).cctx ∧
    (Update.finish encode stableSrc u).cctx.tmpInSize =
      (if u.cctx.prefs.autoFlush then 0 else u.srcSize % u.cctx.maxBlockSize) ∧
    (Update.finish encode stableSrc u).dst.length ≤
      u.dst.length + roomFor (blockOverhead u.cctx.prefs) u.cctx.maxBlockSize
        u.cctx.prefs.autoFlush u.srcSize := by
  unfold Update.finish roomFor
  simp only
  obtain ⟨hsame₁, hsize₁, hsrc₁, hlen₁⟩ :=
    fullBlocks_spec encode (u.srcSize / u.cctx.maxBlockSize) u
  generalize u.fullBlocks encode (u.srcSize / u.cctx.maxBlockSize) = v₁ at *
  have hrest : v₁.srcSize = u.srcSize % u.cctx.maxBlockSize := by
    rw [hsrc₁, Nat.mul_comm]
    have := Nat.div_add_mod u.srcSize u.cctx.maxBlockSize
    omega
  -- with `autoFlush` the rest becomes a block, else it is buffered
  have hflush : SameFrame u.cctx (v₁.flushRest encode).cctx ∧
      (v₁.flushRest encode).cctx.tmpInSize = 0 ∧
      (v₁.flushRest encode).srcSize =
        (if u.cctx.prefs.autoFlush then 0 else u.srcSize % u.cctx.maxBlockSize) ∧
      (v₁.flushRest encode).dst.length ≤ v₁.dst.length +
        if u.cctx.prefs.autoFlush ∧ 0 < u.srcSize % u.cctx.maxBlockSize then
          blockOverhead u.cctx.prefs + u.srcSize % u.cctx.maxBlockSize else 0 := by
    unfold Update.flushRest
    rw [hsame₁.prefs, hrest]
    by_cases hauto : u.cctx.prefs.autoFlush
    · by_cases hpos : 0 < u.srcSize % u.cctx.maxBlockSize
      · rw [if_pos ⟨hauto, hpos⟩, if_pos hauto, if_pos ⟨hauto, hpos⟩]
        obtain ⟨hsame, hsize⟩ := blockFromSrc_same encode v₁ (u.srcSize % u.cctx.maxBlockSize)
        have hlen := length_blockFromSrc encode v₁ (u.srcSize % u.cctx.maxBlockSize)
        rw [hsame₁.prefs] at hlen
        refine ⟨hsame₁.trans hsame, ?_, ?_, hlen⟩
        · rw [hsize, hsize₁, hempty]
        · show v₁.srcSize - _ = 0
          rw [hrest, Nat.sub_self]
      · rw [if_neg fun h => hpos h.2, if_pos hauto, if_neg fun h => hpos h.2]
        exact ⟨hsame₁, hsize₁.trans hempty, hrest.trans (by omega), Nat.le_refl _⟩
    · rw [if_neg fun h => hauto h.1, if_neg hauto, if_neg fun h => hauto h.1]
      exact ⟨hsame₁, hsize₁.trans hempty, hrest, Nat.le_refl _⟩
  generalize v₁.flushRest encode = v₂ at *
  obtain ⟨hsame₂, hsize₂, hsrc₂, hlen₂⟩ := hflush
  obtain ⟨hsame₃, hsize₃, hsrc₃, hdst₃⟩ := preserveDict_same stableSrc v₂
  generalize v₂.preserveDict stableSrc = v₃ at *
  obtain ⟨hsame₄, hsize₄, hsrc₄, hdst₄⟩ := update_keepWithinLimits_same v₃
  generalize v₃.keepWithinLimits = v₄ at *
  obtain ⟨hsame₅, hsize₅, hdst₅⟩ := fillTmp_same v₄
  refine ⟨((hsame₂.trans hsame₃).trans hsame₄).trans hsame₅, ?_, ?_⟩
  · rw [hsize₅, hsize₄, hsize₃, hsize₂, hsrc₄, hsrc₃, hsrc₂]
    by_cases hauto : u.cctx.prefs.autoFlush
    · rw [if_pos hauto, if_neg (Nat.lt_irrefl 0)]
    · rw [if_neg hauto]
      split <;> omega
  · rw [hdst₅, hdst₄, hdst₃]
    omega

/-- The source does not complete the buffered block. -/
theorem completeTmp_short (u : Update) (hlt : u.cctx.tmpInSize < u.cctx.maxBlockSize)
    (hsize : u.cctx.maxBlockSize < SIZE_T) (hsome : u.cctx.tmpInSize ≠ 0)
    (hshort : u.cctx.tmpInSize + u.srcSize < u.cctx.maxBlockSize) :
    SameFrame u.cctx (u.completeTmp encode).cctx ∧
    (u.completeTmp encode).cctx.tmpInSize = u.cctx.tmpInSize + u.srcSize ∧
    (u.completeTmp encode).srcSize = 0 ∧ (u.completeTmp encode).dst = u.dst ∧
    (u.completeTmp encode).lastBlockCompressed = u.lastBlockCompressed := by
  unfold Update.completeTmp
  simp only
  rw [if_neg hsome, sizeSub_of_le (Nat.le_of_lt hlt) hsize, if_pos (by omega)]
  exact ⟨⟨rfl, rfl, rfl, rfl, rfl, rfl, rfl⟩, rfl, rfl, rfl, rfl⟩

/-- The source completes the buffered block, and it is compressed. -/
theorem completeTmp_full (u : Update) (hlt : u.cctx.tmpInSize < u.cctx.maxBlockSize)
    (hsize : u.cctx.maxBlockSize < SIZE_T) (hsome : u.cctx.tmpInSize ≠ 0)
    (hfull : u.cctx.maxBlockSize ≤ u.cctx.tmpInSize + u.srcSize) :
    SameFrame u.cctx (u.completeTmp encode).cctx ∧
    (u.completeTmp encode).cctx.tmpInSize = 0 ∧
    (u.completeTmp encode).srcSize = u.cctx.tmpInSize + u.srcSize - u.cctx.maxBlockSize ∧
    (u.completeTmp encode).dst.length ≤
      u.dst.length + (blockOverhead u.cctx.prefs + u.cctx.maxBlockSize) := by
  unfold Update.completeTmp
  simp only
  rw [if_neg hsome, sizeSub_of_le (Nat.le_of_lt hlt) hsize, if_neg (by omega)]
  refine ⟨⟨rfl, rfl, rfl, rfl, rfl, rfl, rfl⟩, rfl, ?_, ?_⟩
  · show u.srcSize - (u.cctx.maxBlockSize - u.cctx.tmpInSize) = _
    omega
  · rw [List.length_append]
    exact Nat.add_le_add_left (length_makeBlock encode _ _ _) _

/-- `LZ4F_compressUpdate` behind its checks: what is buffered afterwards, and a bound for what is
written. -/
theorem update_spec (stableSrc : Bool) (c : LZ4F_cctx) (srcPtr srcSize : Nat) (hbuf : Buffered c)
    (hsize : c.maxBlockSize < SIZE_T) :
    SameFrame c (Update.run encode stableSrc ⟨c, srcPtr, srcSize, [], .notDone⟩).cctx ∧
    (Update.run encode stableSrc ⟨c, srcPtr, srcSize, [], .notDone⟩).cctx.tmpInSize =
      (if c.prefs.autoFlush then 0 else (c.tmpInSize + srcSize) % c.maxBlockSize) ∧
    (Update.run encode stableSrc ⟨c, srcPtr, srcSize, [], .notDone⟩).dst.length ≤
      roomFor (blockOverhead c.prefs) c.maxBlockSize c.prefs.autoFlush (c.tmpInSize + srcSize) := by
  have hrun : ∀ u, Update.run encode stableSrc u =
      Update.finish encode stableSrc (u.completeTmp encode) := fun _ => rfl
  rw [hrun]
  by_cases hempty : c.tmpInSize = 0
  · -- nothing is buffered
    have hid : (⟨c, srcPtr, srcSize, [], .notDone⟩ : Update).completeTmp encode =
        ⟨c, srcPtr, srcSize, [], .notDone⟩ := if_pos hempty
    rw [hid, hempty, Nat.zero_add]
    obtain ⟨hsame, hleft, hlen⟩ := finish_spec encode stableSrc ⟨c, srcPtr, srcSize, [], .notDone⟩
      hempty
    exact ⟨hsame, hleft, by simpa using hlen⟩
  have hnoflush : ¬ c.prefs.autoFlush := fun h => hempty (hbuf.autoFlush h)
  rw [if_neg hnoflush]
  by_cases hshort : c.tmpInSize + srcSize < c.maxBlockSize
  · -- the buffer stays short of a block
    obtain ⟨hsame, hbuffered, hsrc, hdst, hlast⟩ :=
      completeTmp_short encode ⟨c, srcPtr, srcSize, [], .notDone⟩ hbuf.lt hsize hempty hshort
    generalize (⟨c, srcPtr, srcSize, [], .notDone⟩ : Update).completeTmp encode = v at *
    have hfinish : Update.finish encode stableSrc v = v.keepWithinLimits.fillTmp := by
      unfold Update.finish Update.flushRest Update.preserveDict
      simp only [hsrc, hlast, Nat.zero_div, Update.fullBlocks, Nat.lt_irrefl, and_false, if_false,
        reduceCtorEq]
    obtain ⟨hsame₂, hsize₂, hsrc₂, hdst₂⟩ := update_keepWithinLimits_same v
    obtain ⟨hsame₃, hsize₃, hdst₃⟩ := fillTmp_same v.keepWithinLimits
    rw [hfinish]
    refine ⟨(hsame.trans hsame₂).trans hsame₃, ?_, ?_⟩
    · rw [hsize₃, hsrc₂, hsrc, if_neg (Nat.lt_irrefl 0), hsize₂, hbuffered,
        Nat.mod_eq_of_lt hshort]
    · rw [hdst₃, hdst₂, hdst]
      exact Nat.zero_le _
  · -- the block in the buffer is completed
    obtain ⟨hsame, hbuffered, hsrc, hdst⟩ := completeTmp_full encode
      ⟨c, srcPtr, srcSize, [], .notDone⟩ hbuf.lt hsize hempty (Nat.le_of_not_lt hshort)
    generalize (⟨c, srcPtr, srcSize, [], .notDone⟩ : Update).completeTmp encode = v at *
    obtain ⟨hsame₂, hleft, hlen⟩ := finish_spec encode stableSrc v hbuffered
    rw [hsame.prefs, hsame.maxBlockSize, hsrc] at hlen
    rw [hsame.prefs, hsame.maxBlockSize, hsrc, if_neg hnoflush] at hleft
    have hpos : 0 < c.maxBlockSize := Nat.lt_of_le_of_lt (Nat.zero_le _) hbuf.lt
    have hsum : c.tmpInSize + srcSize =
        c.tmpInSize + srcSize - c.maxBlockSize + c.maxBlockSize := by omega
    refine ⟨hsame.trans hsame₂, ?_, ?_⟩
    · rw [hleft, hsum, Nat.add_mod_right, ← hsum]
    · have hroom : roomFor (blockOverhead c.prefs) c.maxBlockSize c.prefs.autoFlush
            (c.tmpInSize + srcSize) =
          blockOverhead c.prefs + c.maxBlockSize +
            roomFor (blockOverhead c.prefs) c.maxBlockSize c.prefs.autoFlush
              (c.tmpInSize + srcSize - c.maxBlockSize) := by
        generalize c.tmpInSize + srcSize - c.maxBlockSize = rest at hsum
        rw [hsum]
        simp only [roomFor, Nat.add_mod_right, Nat.add_div_right _ hpos, Nat.succ_mul]
        omega
      rw [hroom]
      have hfirst : v.dst.length ≤ blockOverhead c.prefs + c.maxBlockSize := by simpa using hdst
      exact hlen.trans (Nat.add_le_add_right hfirst _)

end Blocks

/-! ## The bounds -/

/-- The identifiers `LZ4F_getBlockSize` knows. -/
def ValidBlockSizeID (blockSizeID : Nat) : Prop :=
  blockSizeID = 0 ∨ (4 ≤ blockSizeID ∧ blockSizeID ≤ 7)

instance (blockSizeID : Nat) : Decidable (ValidBlockSizeID blockSizeID) :=
  inferInstanceAs (Decidable (_ ∨ _))

/-- A block size is a power of two from 64 KB to 4 MB. -/
theorem getBlockSize_eq_two_pow {blockSizeID : Nat} (hid : ValidBlockSizeID blockSizeID) :
    ∃ k, 16 ≤ k ∧ k ≤ 22 ∧ LZ4F_getBlockSize blockSizeID = 2 ^ k := by
  have hcases : blockSizeID = 0 ∨ blockSizeID = 4 ∨ blockSizeID = 5 ∨ blockSizeID = 6 ∨
      blockSizeID = 7 := by
    rcases hid with h | ⟨h4, h7⟩ <;> omega
  rcases hcases with rfl | rfl | rfl | rfl | rfl
  · exact ⟨16, by decide, by decide, rfl⟩
  · exact ⟨16, by decide, by decide, rfl⟩
  · exact ⟨18, by decide, by decide, rfl⟩
  · exact ⟨20, by decide, by decide, rfl⟩
  · exact ⟨22, by decide, by decide, rfl⟩

theorem getBlockSize_bounds {blockSizeID : Nat} (hid : ValidBlockSizeID blockSizeID) :
    65536 ≤ LZ4F_getBlockSize blockSizeID ∧ LZ4F_getBlockSize blockSizeID ≤ 4194304 := by
  obtain ⟨k, hk, hk', hsize⟩ := getBlockSize_eq_two_pow hid
  rw [hsize]
  exact ⟨Nat.pow_le_pow_right (n := 2) (by decide) hk, Nat.pow_le_pow_right (n := 2) (by decide) hk'⟩

/-- The size of the end mark and the content checksum. -/
def frameEndSize (prefs : LZ4F_preferences_t) : Nat :=
  BHSize + if prefs.frameInfo.contentChecksumFlag then BFSize else 0

theorem length_frameEnd (c : LZ4F_cctx) : (frameEnd c).length = frameEndSize c.prefs := by
  unfold frameEnd frameEndSize
  rw [List.length_append, length_leBytes]
  split
  · rw [length_checksumBytes]
    rfl
  · rfl

/-- What a bound is: room for the blocks, the last one only if it is flushed, and the frame end. -/
theorem compressBound_internal_eq (srcSize alreadyBuffered : Nat) (prefs : LZ4F_preferences_t)
    (hid : ValidBlockSizeID prefs.frameInfo.blockSizeID) (hsrc : srcSize < 2 ^ 47) :
    LZ4F_compressBound_internal srcSize prefs alreadyBuffered =
      roomFor (blockOverhead prefs) (LZ4F_getBlockSize prefs.frameInfo.blockSizeID)
        (prefs.autoFlush || decide (srcSize = 0))
        (srcSize + min alreadyBuffered (LZ4F_getBlockSize prefs.frameInfo.blockSizeID - 1)) +
      frameEndSize prefs := by
  obtain ⟨k, hk, hk', hsize⟩ := getBlockSize_eq_two_pow hid
  obtain ⟨hlow, hhigh⟩ := getBlockSize_bounds hid
  have hS : SIZE_T = 2 ^ 64 := rfl
  unfold LZ4F_compressBound_internal roomFor frameEndSize toU32
  simp only
  rw [hsize, Nat.and_two_pow_sub_one_eq_mod, ← hsize]
  generalize LZ4F_getBlockSize prefs.frameInfo.blockSizeID = blockSize at *
  have hinput : srcSize + min alreadyBuffered (blockSize - 1) < 2 ^ 47 + 4194304 := by omega
  generalize srcSize + min alreadyBuffered (blockSize - 1) = input at *
  rw [Nat.mod_eq_of_lt (show input < SIZE_T by omega)]
  have hfull : input / blockSize ≤ input / 65536 := Nat.div_le_div_left hlow (by decide)
  have hsmall : input / blockSize < 2 ^ 31 + 65 := by omega
  have hdata : blockSize * (input / blockSize) ≤ input := Nat.mul_div_le input blockSize
  have hrest : input % blockSize < blockSize := Nat.mod_lt _ (by omega)
  rw [Nat.mod_eq_of_lt (show input / blockSize < 2 ^ 32 by omega)]
  have hflush : ((prefs.autoFlush || decide (srcSize = 0)) = true) ↔
      (prefs.autoFlush = true ∨ srcSize = 0) := by
    rw [Bool.or_eq_true, decide_eq_true_iff]
  simp only [hflush]
  generalize hover : blockOverhead prefs = overhead
  have hoverhead : BHSize + (if prefs.frameInfo.blockChecksumFlag = true then BFSize else 0) =
      overhead := hover
  have hle : overhead ≤ 8 := by
    rw [← hoverhead]
    split <;> decide
  have hend : (BHSize + if prefs.frameInfo.contentChecksumFlag = true then BFSize else 0) ≤ 8 := by
    split <;> decide
  rw [hoverhead]
  generalize (BHSize + if prefs.frameInfo.contentChecksumFlag = true then BFSize else 0) = frameEnd
    at *
  generalize input / blockSize = full at *
  generalize input % blockSize = last at *
  have hblocks : overhead * full ≤ 8 * full := Nat.mul_le_mul_right _ hle
  have hexpand : full * (overhead + blockSize) = overhead * full + blockSize * full := by ring
  by_cases hlast : (prefs.autoFlush = true ∨ srcSize = 0) ∧ 0 < last
  · rw [if_pos hlast.1, if_pos hlast.2, if_pos hlast,
      Nat.mod_eq_of_lt (show full + 1 < 2 ^ 32 by omega), Nat.mul_add,
      Nat.mod_eq_of_lt (by omega), hexpand]
    omega
  · rw [if_neg hlast]
    have hzero : (if prefs.autoFlush = true ∨ srcSize = 0 then last else 0) = 0 := by
      split
      · next hflushes => exact Nat.eq_zero_of_not_pos fun h => hlast ⟨hflushes, h⟩
      · rfl
    rw [hzero, if_neg (Nat.lt_irrefl 0), Nat.add_zero, Nat.add_zero full,
      Nat.mod_eq_of_lt (show full < 2 ^ 32 by omega), Nat.mod_eq_of_lt (by omega), hexpand]
    omega

/-- More input needs more room. -/
theorem roomFor_mono (overhead blockSize : Nat) (flush : Bool) {input input' : Nat}
    (hpos : 0 < blockSize) (h : input ≤ input') :
    roomFor overhead blockSize flush input ≤ roomFor overhead blockSize flush input' := by
  unfold roomFor
  have hdiv : input / blockSize ≤ input' / blockSize := Nat.div_le_div_right h
  have hrest : input % blockSize < blockSize := Nat.mod_lt _ hpos
  have hin := Nat.div_add_mod input blockSize
  have hin' := Nat.div_add_mod input' blockSize
  rcases Nat.eq_or_lt_of_le hdiv with heq | hlt
  · -- the same whole blocks
    rw [heq] at hin ⊢
    have hle : input % blockSize ≤ input' % blockSize := by omega
    apply Nat.add_le_add_left
    split
    · next hflush =>
      rw [if_pos ⟨hflush.1, Nat.lt_of_lt_of_le hflush.2 hle⟩]
      exact Nat.add_le_add_left hle overhead
    · exact Nat.zero_le _
  · -- the rest is less than the next whole block
    have hlast : (if flush ∧ 0 < input % blockSize then overhead + input % blockSize else 0) ≤
        overhead + blockSize := by
      split <;> omega
    have hstep : (input / blockSize + 1) * (overhead + blockSize) ≤
        input' / blockSize * (overhead + blockSize) := Nat.mul_le_mul_right _ hlt
    rw [Nat.succ_mul] at hstep
    omega

theorem roomFor_flush (overhead blockSize input : Nat) (flush flush' : Bool)
    (h : flush = true → flush' = true) :
    roomFor overhead blockSize flush input ≤ roomFor overhead blockSize flush' input := by
  unfold roomFor
  apply Nat.add_le_add_left
  split
  · next hflush => rw [if_pos ⟨h hflush.1, hflush.2⟩]
  · exact Nat.zero_le _

theorem roomFor_le {overhead blockSize : Nat} (flush : Bool) (input : Nat) (hover : overhead ≤ 8)
    (hblock : 8 ≤ blockSize) : roomFor overhead blockSize flush input ≤ 2 * input + 8 := by
  unfold roomFor
  have hin := Nat.div_add_mod input blockSize
  have hmul : input / blockSize * overhead ≤ input / blockSize * blockSize :=
    Nat.mul_le_mul_left _ (hover.trans hblock)
  rw [Nat.mul_add]
  have hcomm : input / blockSize * blockSize = blockSize * (input / blockSize) := Nat.mul_comm _ _
  split <;> omega

theorem blockOverhead_le (prefs : LZ4F_preferences_t) : blockOverhead prefs ≤ 8 := by
  unfold blockOverhead
  split <;> decide

theorem frameEndSize_le (prefs : LZ4F_preferences_t) : frameEndSize prefs ≤ 8 := by
  unfold frameEndSize
  split <;> decide

/-- A larger buffer has the larger bound. -/
theorem compressBound_internal_mono {srcSize buffered buffered' : Nat} {prefs : LZ4F_preferences_t}
    (hid : ValidBlockSizeID prefs.frameInfo.blockSizeID) (hsrc : srcSize < 2 ^ 47)
    (h : min buffered (LZ4F_getBlockSize prefs.frameInfo.blockSizeID - 1) ≤
      min buffered' (LZ4F_getBlockSize prefs.frameInfo.blockSizeID - 1)) :
    LZ4F_compressBound_internal srcSize prefs buffered ≤
      LZ4F_compressBound_internal srcSize prefs buffered' := by
  have hlow := (getBlockSize_bounds hid).1
  rw [compressBound_internal_eq _ _ _ hid hsrc, compressBound_internal_eq _ _ _ hid hsrc]
  apply Nat.add_le_add_right
  exact roomFor_mono _ _ _ (by omega) (Nat.add_le_add_left h _)

/-! ## The two copies of the preferences -/

/-- The preferences as the library keeps them. -/
def withDefaultBlockSize (prefs : LZ4F_preferences_t) : LZ4F_preferences_t :=
  { prefs with
    frameInfo := { prefs.frameInfo with
      blockSizeID :=
        if prefs.frameInfo.blockSizeID = 0 then LZ4F_BLOCKSIZEID_DEFAULT
        else prefs.frameInfo.blockSizeID } }

theorem getBlockSize_default (prefs : LZ4F_preferences_t) :
    LZ4F_getBlockSize (withDefaultBlockSize prefs).frameInfo.blockSizeID =
      LZ4F_getBlockSize prefs.frameInfo.blockSizeID := by
  unfold withDefaultBlockSize
  simp only
  split
  · next h => rw [h]; rfl
  · rfl

theorem compressBound_internal_default (srcSize buffered : Nat) (prefs : LZ4F_preferences_t) :
    LZ4F_compressBound_internal srcSize (withDefaultBlockSize prefs) buffered =
      LZ4F_compressBound_internal srcSize prefs buffered := by
  unfold LZ4F_compressBound_internal
  rw [getBlockSize_default]
  rfl

/-- With `i` bytes buffered the library checks no more than what the wrapper has allocated. -/
theorem check_le_compressed_bound {prefs : LZ4F_preferences_t} {srcSize buffered : Nat}
    (hid : ValidBlockSizeID prefs.frameInfo.blockSizeID) (hsrc : srcSize < 2 ^ 47)
    (hlt : buffered < LZ4F_getBlockSize prefs.frameInfo.blockSizeID)
    (hauto : prefs.autoFlush → buffered = 0) :
    LZ4F_compressBound_internal srcSize prefs buffered ≤ compressed_bound prefs srcSize := by
  obtain ⟨hlow, hhigh⟩ := getBlockSize_bounds hid
  unfold compressed_bound
  split
  · next hflush =>
    have hsame : ({ prefs with autoFlush := true } : LZ4F_preferences_t) = prefs := by
      cases prefs
      simp_all
    rw [LZ4F_compressFrameBound, hsame, hauto hflush]
    have hle : LZ4F_compressBound_internal srcSize prefs 0 ≤ 2 * srcSize + 8 + 8 := by
      rw [compressBound_internal_eq _ _ _ hid hsrc, Nat.zero_min]
      exact Nat.add_le_add
        (roomFor_le _ srcSize (blockOverhead_le prefs) ((by decide : 8 ≤ 65536).trans hlow))
        (frameEndSize_le prefs)
    have hS : SIZE_T = 2 ^ 64 := rfl
    have h19 : maxFHSize = 19 := rfl
    rw [Nat.mod_eq_of_lt (by omega)]
    exact Nat.le_add_left _ _
  · next hflush =>
    rw [LZ4F_compressBound, if_neg hflush]
    apply compressBound_internal_mono hid hsrc
    have hS : SIZE_MAX = 2 ^ 64 - 1 := rfl
    omega

/-! ## The library calls -/

/-- A frame is open: less than a block of a known size is buffered. -/
structure OpenFrame (c : LZ4F_cctx) : Prop where
  cStage : c.cStage = 1
  valid : ValidBlockSizeID c.prefs.frameInfo.blockSizeID
  maxBlockSize : c.maxBlockSize = LZ4F_getBlockSize c.prefs.frameInfo.blockSizeID
  buffered : Buffered c

theorem OpenFrame.maxBlockSize_lt {c : LZ4F_cctx} (h : OpenFrame c) :
    0 < c.maxBlockSize ∧ c.maxBlockSize < SIZE_T := by
  obtain ⟨hlow, hhigh⟩ := getBlockSize_bounds h.valid
  have hS : SIZE_T = 2 ^ 64 := rfl
  rw [h.maxBlockSize]
  omega

/-- What is written is within what the library has checked for. -/
theorem compressUpdate_spec (encode : Nat → Encoder) {c : LZ4F_cctx} (h : OpenFrame c)
    {dstCapacity srcSize : Nat} (srcBuffer : Nat) (stableSrc : Bool) (hsrc : srcSize < 2 ^ 47)
    (hcap : LZ4F_compressBound_internal srcSize c.prefs c.tmpInSize ≤ dstCapacity) :
    ∃ d dst, LZ4F_compressUpdate encode c dstCapacity srcBuffer srcSize stableSrc = (d, .ok dst) ∧
      dst.length ≤ dstCapacity ∧ OpenFrame d ∧ d.prefs = c.prefs := by
  obtain ⟨hpos, hS⟩ := h.maxBlockSize_lt
  have hlt := h.buffered.lt
  obtain ⟨hsame, hleft, hlen⟩ := update_spec encode stableSrc c srcBuffer srcSize h.buffered hS
  have hrun : LZ4F_compressUpdate encode c dstCapacity srcBuffer srcSize stableSrc =
      ((Update.run encode stableSrc ⟨c, srcBuffer, srcSize, [], .notDone⟩).account srcBuffer srcSize,
        .ok (Update.run encode stableSrc ⟨c, srcBuffer, srcSize, [], .notDone⟩).dst) := by
    unfold LZ4F_compressUpdate
    rw [if_neg fun hne => hne h.cStage, if_neg (Nat.not_lt.2 hcap)]
  rw [hrun]
  generalize Update.run encode stableSrc ⟨c, srcBuffer, srcSize, [], .notDone⟩ = u at *
  refine ⟨u.account srcBuffer srcSize, u.dst, rfl, ?_, ⟨?_, ?_, ?_, ?_, ?_⟩, hsame.prefs⟩
  · refine (hlen.trans ?_).trans hcap
    rw [compressBound_internal_eq _ _ _ h.valid hsrc, ← h.maxBlockSize,
      Nat.min_eq_left (Nat.le_sub_one_of_lt hlt), Nat.add_comm srcSize]
    refine (roomFor_flush _ _ _ _ (c.prefs.autoFlush || decide (srcSize = 0)) ?_).trans
      (Nat.le_add_right _ _)
    intro hauto
    rw [hauto, Bool.true_or]
  · exact hsame.cStage.trans h.cStage
  · show ValidBlockSizeID u.cctx.prefs.frameInfo.blockSizeID
    rw [hsame.prefs]
    exact h.valid
  · show u.cctx.maxBlockSize = LZ4F_getBlockSize u.cctx.prefs.frameInfo.blockSizeID
    rw [hsame.prefs, hsame.maxBlockSize]
    exact h.maxBlockSize
  · show u.cctx.tmpInSize < u.cctx.maxBlockSize
    rw [hsame.maxBlockSize, hleft]
    split
    · exact hpos
    · exact Nat.mod_lt _ hpos
  · intro hauto
    have hauto' : c.prefs.autoFlush = true := by
      rw [← hsame.prefs]
      exact hauto
    show u.cctx.tmpInSize = 0
    rw [hleft, if_pos hauto']

theorem flush_spec (encode : Nat → Encoder) {c : LZ4F_cctx} (h : OpenFrame c) {dstCapacity : Nat}
    (hcap : c.tmpInSize ≠ 0 → c.tmpInSize + BHSize + BFSize ≤ dstCapacity) :
    ∃ d dst, LZ4F_flush encode c dstCapacity = (d, .ok dst) ∧ SameFrame c d ∧ d.tmpInSize = 0 ∧
      dst.length ≤ (if c.tmpInSize = 0 then 0 else blockOverhead c.prefs + c.tmpInSize) := by
  unfold LZ4F_flush
  by_cases hempty : c.tmpInSize = 0
  · rw [if_pos hempty, if_pos hempty]
    exact ⟨c, [], rfl, SameFrame.refl c, hempty, Nat.le_refl _⟩
  · rw [if_neg hempty, if_neg fun hne => hne h.cStage, if_neg (Nat.not_lt.2 (hcap hempty)),
      if_neg hempty]
    obtain ⟨hsame, hsize⟩ := keepWithinLimits_same
      ((LZ4F_makeBlock encode c c.tmpIn c.tmpInSize).2.takeTmp c.tmpInSize)
    refine ⟨_, _, rfl, ?_, hsize, length_makeBlock encode c c.tmpIn c.tmpInSize⟩
    exact ⟨hsame.prefs, hsame.cStage, hsame.maxBlockSize, hsame.maxBufferSize, hsame.tmpBuff,
      hsame.totalInSize, hsame.xxh⟩

theorem OpenFrame.of_flushed {c d : LZ4F_cctx} (h : OpenFrame c) (hsame : SameFrame c d)
    (hempty : d.tmpInSize = 0) : OpenFrame d where
  cStage := hsame.cStage.trans h.cStage
  valid := by rw [hsame.prefs]; exact h.valid
  maxBlockSize := by rw [hsame.prefs, hsame.maxBlockSize]; exact h.maxBlockSize
  buffered := ⟨by rw [hsame.maxBlockSize, hempty]; exact h.maxBlockSize_lt.1, fun _ => hempty⟩

/-- The destination of a flush, to the byte. -/
theorem flush_size_eq {prefs : LZ4F_preferences_t}
    (hid : ValidBlockSizeID prefs.frameInfo.blockSizeID) :
    flush_size prefs = frameEndSize prefs + if prefs.autoFlush then 0
      else blockOverhead prefs + (LZ4F_getBlockSize prefs.frameInfo.blockSizeID - 1) := by
  obtain ⟨hlow, hhigh⟩ := getBlockSize_bounds hid
  have hS : SIZE_MAX = 2 ^ 64 - 1 := rfl
  unfold flush_size LZ4F_compressBound
  split
  · rw [compressBound_internal_eq _ _ _ hid (by decide)]
    simp [roomFor]
  · rw [compressBound_internal_eq _ _ _ hid (by decide), Nat.zero_add, Nat.min_eq_right (by omega),
      decide_eq_true rfl, Bool.or_true, roomFor]
    generalize LZ4F_getBlockSize prefs.frameInfo.blockSizeID = blockSize at *
    rw [Nat.div_eq_of_lt (by omega), Nat.mod_eq_of_lt (by omega), if_pos ⟨rfl, by omega⟩]
    omega

theorem flush_size_lt {prefs : LZ4F_preferences_t}
    (hid : ValidBlockSizeID prefs.frameInfo.blockSizeID) : flush_size prefs < SIZE_T := by
  have hhigh := (getBlockSize_bounds hid).2
  have hover := blockOverhead_le prefs
  have hend := frameEndSize_le prefs
  have hS : SIZE_T = 2 ^ 64 := rfl
  rw [flush_size_eq hid]
  split <;> omega

/-! ## `LZ4F_compressBegin` -/

/-- The LZ4 stream is allocated or initialised anew, nothing else. -/
theorem manageCtx_eq (heap : Heap) (c : LZ4F_cctx) :
    ∃ ctx alloc state, (manageCtx heap c).1 =
      { c with lz4Ctx := ctx, lz4CtxAlloc := alloc, lz4CtxState := state } := by
  have hunchanged : c = { c with
    lz4Ctx := c.lz4Ctx, lz4CtxAlloc := c.lz4CtxAlloc, lz4CtxState := c.lz4CtxState } := rfl
  unfold manageCtx
  simp only
  generalize (if c.prefs.compressionLevel < LZ4HC_CLEVEL_MIN then 1 else 2) = ctxTypeID
  generalize (if c.prefs.compressionLevel < LZ4HC_CLEVEL_MIN then c.lz4Ctx.initStream
    else c.lz4Ctx.initStreamHC) = ctx
  split
  · split
    · exact ⟨_, _, _, rfl⟩
    · exact ⟨_, _, _, hunchanged⟩
  · split
    · exact ⟨_, c.lz4CtxAlloc, _, rfl⟩
    · exact ⟨_, _, _, hunchanged⟩

/-- The buffer is the old one if that is large enough, else one the allocator has returned. -/
theorem manageBuffer_eq {heap : Heap} {c d : LZ4F_cctx} (h : manageBuffer heap c = (d, none)) :
    (d = c ∧ requiredBuffSize c.prefs c.maxBlockSize ≤ c.maxBufferSize) ∨
    ∃ tmpBuff mem, heap.calloc (requiredBuffSize c.prefs c.maxBlockSize) = some tmpBuff ∧
      d = { c with
        tmpBuff, maxBufferSize := requiredBuffSize c.prefs c.maxBlockSize, mem } := by
  unfold manageBuffer at h
  simp only at h
  split at h
  · next hsmall =>
    cases hcalloc : heap.calloc (requiredBuffSize c.prefs c.maxBlockSize) with
    | none =>
      rw [hcalloc] at h
      simp at h
    | some tmpBuff =>
      rw [hcalloc] at h
      simp only [Prod.mk.injEq, and_true] at h
      exact .inr ⟨tmpBuff, _, rfl, h.symm⟩
  · next hlarge =>
    simp only [Prod.mk.injEq, and_true] at h
    exact .inl ⟨h.symm, Nat.le_of_not_lt hlarge⟩

/-- What a call that returns a header has made of the context `c`. -/
structure Begun (heap : Heap) (c : LZ4F_cctx) (preferences : LZ4F_preferences_t) (d : LZ4F_cctx) :
    Prop where
  prefs : d.prefs = withDefaultBlockSize preferences
  maxBlockSize : d.maxBlockSize = LZ4F_getBlockSize preferences.frameInfo.blockSizeID
  cStage : d.cStage = 1
  tmpIn : d.tmpIn = d.tmpBuff
  tmpInSize : d.tmpInSize = 0
  xxh : d.xxh = []
  totalInSize : d.totalInSize =
    if preferences.frameInfo.contentSize ≠ 0 then 0 else c.totalInSize
  required : requiredBuffSize preferences d.maxBlockSize ≤ d.maxBufferSize
  buffer : (d.tmpBuff = c.tmpBuff ∧ d.maxBufferSize = c.maxBufferSize) ∨
    heap.calloc d.maxBufferSize = some d.tmpBuff
  history : d.prefs.frameInfo.blockMode = .blockLinked →
    ¬ d.prefs.compressionLevel < LZ4HC_CLEVEL_MIN → d.lz4Ctx.streamHC.prefixStart = 0

/-- The high compression stream of a new frame has no prefix. -/
theorem openFrame_history (c : LZ4F_cctx) :
    c.openFrame.prefs.frameInfo.blockMode = .blockLinked →
      ¬ c.openFrame.prefs.compressionLevel < LZ4HC_CLEVEL_MIN →
      c.openFrame.lz4Ctx.streamHC.prefixStart = 0 := by
  intro hmode hslow
  have hmode' : c.prefs.frameInfo.blockMode = .blockLinked := hmode
  have hslow' : ¬ c.prefs.compressionLevel < LZ4HC_CLEVEL_MIN := hslow
  have hstream : c.openFrame.lz4Ctx = LZ4_resetStreamHC_fast c.lz4Ctx := by
    show (if c.prefs.frameInfo.blockMode = .blockLinked then
      LZ4F_initStream c.lz4Ctx c.prefs.compressionLevel else c.lz4Ctx) = _
    rw [if_pos hmode', LZ4F_initStream, if_neg hslow']
  rw [hstream, LZ4_resetStreamHC_fast]
  split <;> rfl

theorem compressBegin_begun {heap : Heap} {c d : LZ4F_cctx} {prefs : LZ4F_preferences_t}
    {dstCapacity : Nat} {header : List UInt8}
    (h : LZ4F_compressBegin heap c dstCapacity prefs = (d, .ok header)) :
    Begun heap c prefs d ∧ header = frameHeader (withDefaultBlockSize prefs).frameInfo := by
  unfold LZ4F_compressBegin at h
  split at h
  · simp at h
  obtain ⟨ctx, alloc, state, hctx⟩ := manageCtx_eq heap { c with prefs }
  generalize manageCtx heap { c with prefs } = managed at h hctx
  obtain ⟨c₁, e₁⟩ := managed
  simp only at hctx
  subst hctx
  cases e₁ with
  | some e => simp at h
  | none =>
    simp only at h
    split at h
    · simp at h
    · next c₂ hbuffer =>
      simp only [Prod.mk.injEq, Except.ok.injEq] at h
      obtain ⟨rfl, rfl⟩ := h
      rcases manageBuffer_eq hbuffer with ⟨rfl, hrequired⟩ | ⟨tmpBuff, mem, hcalloc, rfl⟩
      · exact ⟨⟨rfl, getBlockSize_default prefs, rfl, rfl, rfl, rfl, rfl, hrequired, .inl ⟨rfl, rfl⟩,
          openFrame_history _⟩, rfl⟩
      · exact ⟨⟨rfl, getBlockSize_default prefs, rfl, rfl, rfl, rfl, rfl, Nat.le_refl _,
          .inr hcalloc, openFrame_history _⟩, rfl⟩

/-- With memory at hand the call returns a header, for every block size identifier. -/
theorem compressBegin_returns {heap : Heap} (hheap : heap.Provides) (c : LZ4F_cctx)
    {dstCapacity : Nat} (prefs : LZ4F_preferences_t) (hcap : maxFHSize ≤ dstCapacity) :
    ∃ d header, LZ4F_compressBegin heap c dstCapacity prefs = (d, .ok header) := by
  have hctx : ∀ c : LZ4F_cctx, (manageCtx heap c).2 = none := by
    intro c
    unfold manageCtx
    simp only [hheap.1, if_true]
    split_ifs <;> rfl
  have hbuffer : ∀ c : LZ4F_cctx, (manageBuffer heap c).2 = none := by
    intro c
    obtain ⟨tmpBuff, hcalloc⟩ := Option.isSome_iff_exists.1
      (hheap.2 (requiredBuffSize c.prefs c.maxBlockSize))
    unfold manageBuffer
    simp only [hcalloc]
    split <;> rfl
  unfold LZ4F_compressBegin
  rw [if_neg (Nat.not_lt.2 hcap)]
  have hfirst := hctx { c with prefs }
  generalize manageCtx heap { c with prefs } = managed at hfirst
  obtain ⟨c₁, e₁⟩ := managed
  obtain rfl : e₁ = none := hfirst
  simp only
  generalize hsecond : manageBuffer heap _ = buffered
  obtain ⟨c₂, e₂⟩ := buffered
  obtain rfl : e₂ = none := (congrArg Prod.snd hsecond).symm.trans (hbuffer _)
  exact ⟨_, _, rfl⟩

/-! ## Runs -/

/-- While a frame is open the two copies of the preferences agree and the library is ready for the
next block. -/
def Sound (context : compression_context) : Prop :=
  context.context.cStage = 1 →
    OpenFrame context.context ∧
    context.context.prefs = withDefaultBlockSize context.preferences ∧
    ValidBlockSizeID context.preferences.frameInfo.blockSizeID

/-- The identifiers among the values of `block_size`. -/
def ValidBlockSize (block_size : Int) : Prop :=
  block_size = 0 ∨ (4 ≤ block_size ∧ block_size ≤ 7)

instance (block_size : Int) : Decidable (ValidBlockSize block_size) :=
  inferInstanceAs (Decidable (_ ∨ _))

theorem blockSizeIDOf_valid {block_size : Int} (h : ValidBlockSize block_size) :
    ValidBlockSizeID (blockSizeIDOf block_size) := by
  unfold ValidBlockSizeID blockSizeIDOf
  rcases h with rfl | ⟨h4, h7⟩
  · exact .inl rfl
  · right
    omega

/-- The calls of a run: block sizes the library knows, data below 128 TB, memory at hand. -/
def Allowed : Call → Prop
  | .begin heap args => heap.Provides ∧ ValidBlockSize args.block_size
  | .chunk heap _ data _ => heap.Provides ∧ data.length < 2 ^ 47
  | .flush heap _ _ => heap.Provides

theorem Sound.of_begun {heap : Heap} {c d : LZ4F_cctx} {prefs : LZ4F_preferences_t}
    (h : Begun heap c prefs d) (hid : ValidBlockSizeID prefs.frameInfo.blockSizeID) :
    Sound ⟨d, prefs⟩ := by
  intro _
  have hid' : ValidBlockSizeID (withDefaultBlockSize prefs).frameInfo.blockSizeID := by
    unfold withDefaultBlockSize
    simp only
    split
    · exact .inr ⟨by decide, by decide⟩
    · exact hid
  refine ⟨⟨h.cStage, ?_, ?_, ?_, fun _ => h.tmpInSize⟩, h.prefs, hid⟩
  · show ValidBlockSizeID d.prefs.frameInfo.blockSizeID
    rw [h.prefs]
    exact hid'
  · show d.maxBlockSize = LZ4F_getBlockSize d.prefs.frameInfo.blockSizeID
    rw [h.prefs, h.maxBlockSize, getBlockSize_default]
  · show d.tmpInSize < d.maxBlockSize
    have := (getBlockSize_bounds hid).1
    rw [h.tmpInSize, h.maxBlockSize]
    omega

section Runs

variable (encode : Nat → Encoder)

/-- The check of `LZ4F_compressUpdate` passes in the destination of `compress_chunk`. -/
theorem Sound.chunk {context : compression_context} (h : Sound context)
    (hopen : context.context.cStage = 1) {srcSize : Nat} (hsrc : srcSize < 2 ^ 47) :
    LZ4F_compressBound_internal srcSize context.context.prefs context.context.tmpInSize ≤
      compressed_bound context.preferences srcSize := by
  obtain ⟨hframe, hprefs, hid⟩ := h hopen
  have hlt := hframe.buffered.lt
  rw [hframe.maxBlockSize, hprefs, getBlockSize_default] at hlt
  rw [hprefs, compressBound_internal_default]
  apply check_le_compressed_bound hid hsrc hlt
  intro hauto
  apply hframe.buffered.autoFlush
  rw [hprefs]
  exact hauto

/-- The check of `LZ4F_flush` passes in the destination of `compress_flush`, with room for the frame
end. -/
theorem Sound.flush {context : compression_context} (h : Sound context)
    (hopen : context.context.cStage = 1) :
    (context.context.tmpInSize ≠ 0 →
      context.context.tmpInSize + BHSize + BFSize ≤ flush_size context.preferences) ∧
    (if context.context.tmpInSize = 0 then 0
      else blockOverhead context.context.prefs + context.context.tmpInSize) +
        frameEndSize context.context.prefs ≤ flush_size context.preferences := by
  obtain ⟨hframe, hprefs, hid⟩ := h hopen
  have hlt := hframe.buffered.lt
  have hauto := hframe.buffered.autoFlush
  rw [hframe.maxBlockSize, hprefs, getBlockSize_default] at hlt
  have hover : blockOverhead context.context.prefs = blockOverhead context.preferences := by
    rw [hprefs]
    rfl
  have hend : frameEndSize context.context.prefs = frameEndSize context.preferences := by
    rw [hprefs]
    rfl
  have hflag : context.context.prefs.autoFlush = context.preferences.autoFlush := by
    rw [hprefs]
    rfl
  rw [flush_size_eq hid, hover, hend]
  rw [hflag] at hauto
  have hlow : 4 ≤ blockOverhead context.preferences := Nat.le_add_right _ _
  have hlow' : 4 ≤ frameEndSize context.preferences := Nat.le_add_right _ _
  have h4 : BHSize = 4 := rfl
  have h4' : BFSize = 4 := rfl
  by_cases hflush : context.preferences.autoFlush
  · rw [if_pos hflush, if_pos (hauto hflush)]
    exact ⟨fun h => absurd (hauto hflush) h, by omega⟩
  · rw [if_neg hflush]
    exact ⟨fun _ => by omega, by split <;> omega⟩

theorem compressEnd_spec {c : LZ4F_cctx} (h : OpenFrame c) {dstCapacity : Nat}
    (hflush : c.tmpInSize ≠ 0 → c.tmpInSize + BHSize + BFSize ≤ dstCapacity)
    (hcap : (if c.tmpInSize = 0 then 0 else blockOverhead c.prefs + c.tmpInSize) +
      frameEndSize c.prefs ≤ dstCapacity) (hS : dstCapacity < SIZE_T) :
    ∃ d flushed, LZ4F_flush encode c dstCapacity = (d, .ok flushed) ∧
      (flushed ++ frameEnd d).length ≤ dstCapacity ∧
      LZ4F_compressEnd encode c dstCapacity =
        ({ d with cStage := 0, maxBufferSize := 0 },
          if c.prefs.frameInfo.contentSize ≠ 0 ∧ c.prefs.frameInfo.contentSize ≠ c.totalInSize then
            .error .ERROR_frameSize_wrong
          else .ok (flushed ++ frameEnd d)) := by
  obtain ⟨d, flushed, hrun, hsame, hempty, hlen⟩ := flush_spec encode h hflush
  have hfit : flushed.length + frameEndSize c.prefs ≤ dstCapacity :=
    (Nat.add_le_add_right hlen _).trans hcap
  refine ⟨d, flushed, hrun, ?_, ?_⟩
  · rw [List.length_append, length_frameEnd, hsame.prefs]
    exact hfit
  · have hlow : 4 ≤ frameEndSize c.prefs := Nat.le_add_right _ _
    unfold LZ4F_compressEnd
    rw [hrun]
    simp only
    rw [sizeSub_of_le (by omega) hS, hsame.prefs, hsame.totalInSize, if_neg (by omega)]
    rw [if_neg]
    · split <;> rfl
    · rintro ⟨hchecksum, hshort⟩
      have hsize : frameEndSize c.prefs = 8 := by
        unfold frameEndSize
        rw [if_pos hchecksum]
        rfl
      omega

/-- Without an open frame there is nothing to flush. -/
theorem flush_closed {c : LZ4F_cctx} (hclosed : c.cStage ≠ 1) (dstCapacity : Nat) :
    (LZ4F_flush encode c dstCapacity).1 = c := by
  unfold LZ4F_flush
  simp only [if_pos hclosed]
  split <;> rfl

theorem compressEnd_closed {c : LZ4F_cctx} (hclosed : c.cStage ≠ 1) (dstCapacity : Nat) :
    (LZ4F_compressEnd encode c dstCapacity).1.cStage ≠ 1 := by
  have hflush := flush_closed encode hclosed dstCapacity
  unfold LZ4F_compressEnd
  generalize LZ4F_flush encode c dstCapacity = r at hflush
  obtain ⟨d, result⟩ := r
  obtain rfl : d = c := hflush
  cases result with
  | error e => exact hclosed
  | ok flushed =>
    simp only
    split_ifs
    · exact hclosed
    · exact hclosed
    · show (0 : Nat) ≠ 1
      decide
    · show (0 : Nat) ≠ 1
      decide

end Runs

/-! ## The wrappers -/

section Wrappers

variable (encode : Nat → Encoder)

theorem Sound.step {context : compression_context} (h : Sound context) (call : Call)
    (hcall : Allowed call) : Sound (step encode context call).1 := by
  cases call with
  | begin heap args =>
    obtain ⟨hheap, hvalid⟩ := hcall
    show Sound (compress_begin heap context args).1
    unfold compress_begin
    cases parseInt args.compression_level with
    | error e => exact h
    | ok level =>
      cases parseInt args.block_size with
      | error e => exact h
      | ok block_size =>
        obtain ⟨d, header, hrun⟩ := compressBegin_returns hheap context.context args.preferences
          (by decide : maxFHSize ≤ header_size)
        simp only [hheap.1, if_true, hrun]
        exact Sound.of_begun (compressBegin_begun hrun).1 (blockSizeIDOf_valid hvalid)
  | chunk heap source data return_bytearray =>
    obtain ⟨hheap, hdata⟩ := hcall
    show Sound (compress_chunk encode heap context source data return_bytearray).1
    unfold compress_chunk
    simp only [hheap.1, if_true]
    split
    · exact h
    by_cases hopen : context.context.cStage = 1
    · obtain ⟨hframe, hprefs, hid⟩ := h hopen
      have hready : OpenFrame { context.context with
          mem := store context.context.mem source data } :=
        ⟨hframe.cStage, hframe.valid, hframe.maxBlockSize, hframe.buffered.lt,
          hframe.buffered.autoFlush⟩
      obtain ⟨d, dst, hrun, -, hd, hdprefs⟩ := compressUpdate_spec encode hready source false hdata
        (h.chunk hopen hdata)
      simp only [hrun]
      exact fun _ => ⟨hd, hdprefs.trans hprefs, hid⟩
    · -- no frame is open: the call fails and changes nothing else
      rw [LZ4F_compressUpdate, if_pos hopen]
      exact fun hstage => absurd hstage hopen
  | flush heap end_frame return_bytearray =>
    show Sound (compress_flush encode heap context end_frame return_bytearray).1
    unfold compress_flush
    simp only [hcall.1, if_true]
    by_cases hopen : context.context.cStage = 1
    · obtain ⟨hframe, hprefs, hid⟩ := h hopen
      obtain ⟨hcheck, hroom⟩ := h.flush hopen
      cases end_frame with
      | true =>
        obtain ⟨d, flushed, -, -, hrun⟩ := compressEnd_spec encode hframe hcheck hroom
          (flush_size_lt hid)
        simp only [if_true, hrun]
        have hclosed : ∀ hstage : (0 : Nat) = 1, False := by decide
        by_cases hwrong : context.context.prefs.frameInfo.contentSize ≠ 0 ∧
            context.context.prefs.frameInfo.contentSize ≠ context.context.totalInSize
        · rw [if_pos hwrong]
          exact fun hstage => (hclosed hstage).elim
        · rw [if_neg hwrong]
          exact fun hstage => (hclosed hstage).elim
      | false =>
        obtain ⟨d, dst, hrun, hsame, hempty, -⟩ := flush_spec encode hframe hcheck
        simp only [Bool.false_eq_true, if_false, hrun]
        exact fun _ => ⟨hframe.of_flushed hsame hempty, hsame.prefs.trans hprefs, hid⟩
    · -- no frame is open: none is afterwards
      have hclosed : (if end_frame then
            LZ4F_compressEnd encode context.context (flush_size context.preferences)
          else LZ4F_flush encode context.context (flush_size context.preferences)).1.cStage ≠ 1 := by
        cases end_frame with
        | true => exact compressEnd_closed encode hopen _
        | false =>
          have hsame := flush_closed encode hopen (flush_size context.preferences)
          simp only [Bool.false_eq_true, if_false, hsame]
          exact hopen
      generalize (if end_frame then
          LZ4F_compressEnd encode context.context (flush_size context.preferences)
        else LZ4F_flush encode context.context (flush_size context.preferences)) = r at hclosed ⊢
      obtain ⟨d, result⟩ := r
      cases result with
      | error e => exact fun hstage => absurd hstage hclosed
      | ok dst => exact fun hstage => absurd hstage hclosed

/-- Along a run. -/
theorem Sound.run {context : compression_context} (h : Sound context) (calls : List Call)
    (hcalls : ∀ call ∈ calls, Allowed call) : Sound (run encode context calls) := by
  induction calls generalizing context with
  | nil => exact h
  | cons call calls ih =>
    exact ih (h.step encode call (hcalls call List.mem_cons_self)) fun c hc =>
      hcalls c (List.mem_cons_of_mem _ hc)

/-- The destinations the wrappers allocate pass the checks of the library for what is really
buffered, and hold what is written. `LZ4F_compressEnd` has written the frame end when it finds that
the content size is wrong. -/
structure DestinationSuffices (context : compression_context) : Prop where
  update : ∀ (source : Nat) (data : List UInt8), data.length < 2 ^ 47 →
    LZ4F_compressBound_internal data.length context.context.prefs context.context.tmpInSize ≤
      compressed_bound context.preferences data.length ∧
    ∃ d dst,
      LZ4F_compressUpdate encode { context.context with mem := store context.context.mem source data }
        (compressed_bound context.preferences data.length) source data.length false = (d, .ok dst) ∧
      dst.length ≤ compressed_bound context.preferences data.length
  flush_check : context.context.tmpInSize ≠ 0 →
    context.context.tmpInSize + BHSize + BFSize ≤ flush_size context.preferences
  flush : ∃ d flushed,
    LZ4F_flush encode context.context (flush_size context.preferences) = (d, .ok flushed) ∧
    flushed.length ≤ flush_size context.preferences ∧
    (flushed ++ frameEnd d).length ≤ flush_size context.preferences ∧
    (LZ4F_compressEnd encode context.context (flush_size context.preferences)).2 =
      if context.context.prefs.frameInfo.contentSize ≠ 0 ∧
          context.context.prefs.frameInfo.contentSize ≠ context.context.totalInSize then
        .error .ERROR_frameSize_wrong
      else .ok (flushed ++ frameEnd d)

/-- In every run, whatever the sizes of the data, the destinations are large enough while a frame is
open. -/
theorem destination_suffices (mem : Memory) (preferences : LZ4F_preferences_t) (calls : List Call)
    (hcalls : ∀ call ∈ calls, Allowed call)
    (hopen : (run encode (create_compression_context mem preferences) calls).context.cStage = 1) :
    DestinationSuffices encode (run encode (create_compression_context mem preferences) calls) := by
  have hfresh : Sound (create_compression_context mem preferences) :=
    fun hstage => absurd hstage (by decide : ¬ (0 : Nat) = 1)
  have hsound := hfresh.run encode calls hcalls
  generalize run encode (create_compression_context mem preferences) calls = context at *
  obtain ⟨hframe, hprefs, hid⟩ := hsound hopen
  obtain ⟨hcheck, hroom⟩ := hsound.flush hopen
  refine ⟨fun source data hdata => ?_, hcheck, ?_⟩
  · have hready : OpenFrame { context.context with mem := store context.context.mem source data } :=
      ⟨hframe.cStage, hframe.valid, hframe.maxBlockSize, hframe.buffered.lt,
        hframe.buffered.autoFlush⟩
    have hbound := hsound.chunk hopen hdata
    obtain ⟨d, dst, hrun, hlen, -, -⟩ := compressUpdate_spec encode hready source false hdata hbound
    exact ⟨hbound, d, dst, hrun, hlen⟩
  · obtain ⟨d, flushed, hrun, hlen, hend⟩ := compressEnd_spec encode hframe hcheck hroom
      (flush_size_lt hid)
    refine ⟨d, flushed, hrun, ?_, hlen, congrArg Prod.snd hend⟩
    rw [List.length_append] at hlen
    omega

/-- An allocator that always finds memory, at the address 4096. -/
def ampleHeap : Heap := ⟨fun _ => true, fun _ => some 4096⟩

theorem destination_suffices_three : DestinationSuffices (fun _ _ _ _ _ => [])
    (run (fun _ _ _ _ _ => []) (create_compression_context (fun _ => 0) LZ4F_INIT_PREFERENCES)
      [.begin ampleHeap ⟨0, 0, 4, true, true, true, false, false⟩,
        .chunk ampleHeap 100 [1, 2, 3] false]) := by
  refine destination_suffices (fun _ _ _ _ _ => []) (fun _ => 0) LZ4F_INIT_PREFERENCES
    [.begin ampleHeap ⟨0, 0, 4, true, true, true, false, false⟩,
      .chunk ampleHeap 100 [1, 2, 3] false] ?_ (by decide +kernel)
  have hheap : ampleHeap.Provides := ⟨fun _ => rfl, fun _ => rfl⟩
  intro call hcall
  rcases List.mem_cons.1 hcall with rfl | hcall
  · exact ⟨hheap, by decide⟩
  · obtain rfl := List.mem_singleton.1 hcall
    exact ⟨hheap, by decide⟩

end Wrappers

end PythonLz4.Frame.CompressBounds
