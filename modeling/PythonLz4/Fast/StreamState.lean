import PythonLz4.Stream.Compressors
import PythonLz4.Fast.CompressRun

/-!
# Streams of the fast compressor

`LZ4_stream_t` with its hash table, and the functions of `lz4.c` that work on one: `LZ4_initStream`,
`LZ4_resetStream_fast`, `LZ4_loadDict`, `LZ4_saveDict`, `LZ4_compress_fast_continue` and
`LZ4_compress_fast_extState_fastReset`. The table survives a call: what the next one may find in it
is the invariant `StreamOk`, which every function keeps, and which is all a call needs to return a
good block. Nothing is asked of the memory between two calls.
-/

set_option autoImplicit false

namespace PythonLz4.Fast.StreamState

open PythonLz4.Lib.ByteMemory
open PythonLz4.Block.DecompressGeneric
open PythonLz4.Block.Container (LZ4_MAX_INPUT_SIZE LZ4_compressBound compressBound_of_le)
open PythonLz4.Stream.Continue (LZ4_stream_t LZ4_createStream HASH_UNIT KB fastWindow)
open PythonLz4.Stream.Compressors
open PythonLz4.Frame.CompressionContext (tableType_t LZ4_64Klimit)
open PythonLz4.Fast.CompressGeneric
open PythonLz4.Fast.Matches
open PythonLz4.Fast.CompressRun

/-! ## The stream -/

structure LZ4_stream_t_internal where
  hashTable : HashTable
  tableType : tableType_t
  stream : LZ4_stream_t

/-- A table that has been zeroed. -/
def zeroTable : HashTable := fun _ => 0

/-- `LZ4_initStream` and `LZ4_resetStream`. -/
def LZ4_initStream : LZ4_stream_t_internal := ⟨zeroTable, .clearedTable, LZ4_createStream⟩

def LZ4_prepareTable (cctx : LZ4_stream_t_internal) (inputSize : Nat) (tableType : tableType_t) :
    LZ4_stream_t_internal :=
  let reset :=
    cctx.tableType ≠ .clearedTable ∧
      (cctx.tableType ≠ tableType ∨
        (tableType = .byU16 ∧ 0xFFFF ≤ cctx.stream.currentOffset + inputSize) ∨
        (tableType = .byU32 ∧ KB * KB * KB < cctx.stream.currentOffset) ∨
        4 * KB ≤ inputSize)
  let currentOffset := if reset then 0 else cctx.stream.currentOffset
  { hashTable := if reset then zeroTable else cctx.hashTable
    tableType := if reset then .clearedTable else cctx.tableType
    stream :=
      { dictionary := 0
        dictSize := 0
        currentOffset :=
          if currentOffset ≠ 0 ∧ tableType = .byU32 then currentOffset + KB64
          else currentOffset } }

def LZ4_resetStream_fast (ctx : LZ4_stream_t_internal) : LZ4_stream_t_internal :=
  LZ4_prepareTable ctx 0 .byU32

/-- The loop of `LZ4_loadDict`: every third position of the dictionary. A round takes a byte of
`fuel`, and three of the dictionary. -/
def loadPositions (mem : Memory) (dictEnd currentOffset : Nat) : Nat → Nat → HashTable → HashTable
  | 0, _, hashTable => hashTable
  | fuel + 1, p, hashTable =>
    if p + HASH_UNIT ≤ dictEnd then
      loadPositions mem dictEnd currentOffset fuel (p + 3)
        (LZ4_putIndexOnHash ((p + currentOffset - dictEnd) % 2 ^ 32)
          (LZ4_hashPosition mem p .byU32) hashTable .byU32)
    else hashTable

/-- `LZ4_loadDict`, which resets the stream first. -/
def LZ4_loadDict (mem : Memory) (dictionary dictSize : Nat) : LZ4_stream_t_internal :=
  let stream := PythonLz4.Stream.Continue.LZ4_loadDict dictionary dictSize
  if dictSize < HASH_UNIT then { LZ4_initStream with stream }
  else
    { hashTable := loadPositions mem (dictionary + dictSize) stream.currentOffset dictSize
        stream.dictionary zeroTable
      tableType := .byU32
      stream }

/-- `LZ4_saveDict`, as far as it concerns the stream. -/
def LZ4_saveDict (dict : LZ4_stream_t_internal) (safeBuffer dictSize : Nat) :
    LZ4_stream_t_internal :=
  let dictSize := if KB64 < dictSize then KB64 else dictSize
  let dictSize := if dict.stream.dictSize < dictSize then dict.stream.dictSize else dictSize
  { dict with stream := { dict.stream with dictionary := safeBuffer, dictSize } }

/-- The table part of `LZ4_renormDictT`. -/
def renormTable (st : LZ4_stream_t_internal) (nextSize : Nat) : HashTable :=
  if 0x80000000 < st.stream.currentOffset + nextSize then
    let delta := st.stream.currentOffset - KB64
    fun h => if st.hashTable h < delta then 0 else st.hashTable h - delta
  else st.hashTable

def LZ4_ACCELERATION_DEFAULT : Nat := 1
def LZ4_ACCELERATION_MAX : Nat := 65537

/-- The acceleration as it is used. -/
def clampAcceleration (acceleration : Int) : Nat :=
  if acceleration < 1 then LZ4_ACCELERATION_DEFAULT
  else if LZ4_ACCELERATION_MAX < acceleration then LZ4_ACCELERATION_MAX
  else acceleration.toNat

/-- `LZ4_compress_generic` on a context: "Update context state" is not reached for an empty source
or one that is refused. -/
def compressGeneric (C : CompressCall) (cctx : LZ4_stream_t_internal) :
    Compressed × LZ4_stream_t_internal :=
  let r := LZ4_compress_generic C cctx.hashTable
  if C.inputSize = 0 ∨ LZ4_MAX_INPUT_SIZE < C.inputSize ∨
      (C.tableType = .byU16 ∧ LZ4_64Klimit ≤ C.inputSize) then (r, cctx)
  else
    (r,
      { hashTable := r.hashTable
        tableType := C.tableType
        stream :=
          { cctx.stream with
            dictSize := cctx.stream.dictSize + C.inputSize
            currentOffset := cctx.stream.currentOffset + C.inputSize } })

/-- The stream when `LZ4_compress_fast_continue` calls the compressor proper. -/
def continueStream (st : LZ4_stream_t_internal) (source inputSize : Nat) : LZ4_stream_t_internal :=
  { st with
    hashTable := renormTable st inputSize
    stream := (fastWindow st.stream source inputSize).1 }

/-- The call `LZ4_compress_fast_continue` makes: in prefix mode when the source follows the
dictionary, in external dictionary mode otherwise. -/
def continueCall (mem : Memory) (st : LZ4_stream_t_internal) (source inputSize maxOutputSize : Nat)
    (acceleration : Int) : CompressCall :=
  let r := fastWindow st.stream source inputSize
  { mem, source, inputSize, maxOutputSize
    limitedOutput := true
    tableType := .byU32
    dictDirective := if r.2 = source then .withPrefix64k else .usingExtDict
    dictSmall := decide (r.1.dictSize < KB64 ∧ r.1.dictSize < r.1.currentOffset)
    acceleration := clampAcceleration acceleration
    startIndex := r.1.currentOffset
    dictionary := r.1.dictionary
    dictSize := r.1.dictSize }

def LZ4_compress_fast_continue (mem : Memory) (st : LZ4_stream_t_internal)
    (source inputSize maxOutputSize : Nat) (acceleration : Int) :
    Compressed × LZ4_stream_t_internal :=
  let r := compressGeneric (continueCall mem st source inputSize maxOutputSize acceleration)
    (continueStream st source inputSize)
  if (fastWindow st.stream source inputSize).2 = source then r
  else
    (r.1, { r.2 with stream := { r.2.stream with dictionary := source, dictSize := inputSize } })

/-- The call `LZ4_compress_fast_extState_fastReset` makes on the prepared context. -/
def fastResetCall (mem : Memory) (ctx : LZ4_stream_t_internal) (tableType : tableType_t)
    (src srcSize dstCapacity : Nat) (acceleration : Int) : CompressCall where
  mem
  source := src
  inputSize := srcSize
  maxOutputSize := if LZ4_compressBound srcSize ≤ dstCapacity then 0 else dstCapacity
  limitedOutput := decide (¬ LZ4_compressBound srcSize ≤ dstCapacity)
  tableType
  dictDirective := .noDict
  dictSmall := decide (tableType = .byU16 ∧ ctx.stream.currentOffset ≠ 0)
  acceleration := clampAcceleration acceleration
  startIndex := ctx.stream.currentOffset
  dictionary := ctx.stream.dictionary
  dictSize := ctx.stream.dictSize

def LZ4_compress_fast_extState_fastReset (mem : Memory) (ctx : LZ4_stream_t_internal)
    (src srcSize dstCapacity : Nat) (acceleration : Int) :
    Compressed × LZ4_stream_t_internal :=
  let tableType := if srcSize < LZ4_64Klimit then tableType_t.byU16 else .byU32
  let ctx := LZ4_prepareTable ctx srcSize tableType
  compressGeneric (fastResetCall mem ctx tableType src srcSize dstCapacity acceleration) ctx

/-! ## The invariant -/

/-- What every function keeps: a table holds zeros and positions with eight bytes behind them, and
it is all zeros as long as it has no type. -/
structure StreamOk (st : LZ4_stream_t_internal) : Prop where
  currentOffset_le : st.stream.currentOffset ≤ 0x80000000
  dictSize_le : st.stream.dictSize ≤ st.stream.currentOffset
  entry : ∀ h, st.hashTable h = 0 ∨ st.hashTable h + HASH_UNIT ≤ st.stream.currentOffset
  cleared : st.tableType = .clearedTable → ∀ h, st.hashTable h = 0
  byU16_lt : st.tableType = .byU16 → st.stream.currentOffset < LZ4_64Klimit

theorem initStream_ok : StreamOk LZ4_initStream :=
  ⟨Nat.zero_le _, Nat.le_refl _, fun _ => Or.inl rfl, fun _ _ => rfl, nofun⟩

theorem saveDict_ok {st : LZ4_stream_t_internal} (h : StreamOk st) (safeBuffer dictSize : Nat) :
    StreamOk (LZ4_saveDict st safeBuffer dictSize) := by
  refine ⟨h.currentOffset_le, ?_, h.entry, h.cleared, h.byU16_lt⟩
  have hle := h.dictSize_le
  simp only [LZ4_saveDict]
  split_ifs <;> omega

/-- Loading puts positions of the dictionary with eight bytes behind them into the table. -/
theorem loadPositions_entry (mem : Memory) {dictEnd currentOffset : Nat}
    (hoff : currentOffset < 2 ^ 32) {fuel p : Nat} {hashTable : HashTable}
    (hstart : dictEnd ≤ p + currentOffset)
    (hentry : ∀ h, hashTable h = 0 ∨ hashTable h + HASH_UNIT ≤ currentOffset) (h : Nat) :
    loadPositions mem dictEnd currentOffset fuel p hashTable h = 0 ∨
      loadPositions mem dictEnd currentOffset fuel p hashTable h + HASH_UNIT ≤ currentOffset := by
  induction fuel generalizing p hashTable with
  | zero => exact hentry h
  | succ fuel ih =>
    rw [loadPositions]
    by_cases hp : p + HASH_UNIT ≤ dictEnd
    · rw [if_pos hp]
      apply ih (by omega)
      intro i
      rw [LZ4_putIndexOnHash]
      by_cases hi : i = LZ4_hashPosition mem p .byU32
      · subst hi
        have hunit : HASH_UNIT = 8 := rfl
        rw [Function.update_self, stored, if_neg (by decide), Nat.mod_mod,
          Nat.mod_eq_of_lt (by omega)]
        right
        omega
      · rw [Function.update_of_ne hi]
        exact hentry i
    · rw [if_neg hp]
      exact hentry h

theorem loadDict_ok (mem : Memory) (dictionary dictSize : Nat) :
    StreamOk (LZ4_loadDict mem dictionary dictSize) := by
  have h64 : KB64 = 65536 := rfl
  have hunit : HASH_UNIT = 8 := rfl
  rw [LZ4_loadDict, PythonLz4.Stream.Continue.LZ4_loadDict]
  by_cases hsmall : dictSize < HASH_UNIT
  · simp only [if_pos hsmall]
    refine ⟨by decide, Nat.zero_le _, fun _ => Or.inl rfl, fun _ _ => rfl, nofun⟩
  · simp only [if_neg hsmall]
    refine ⟨show KB64 ≤ 0x80000000 by decide, ?_, ?_, nofun, nofun⟩
    · simp only
      split_ifs <;> omega
    · intro h
      apply loadPositions_entry mem (by decide)
      · split_ifs <;> omega
      · exact fun _ => Or.inl rfl

/-- A stream without a type has not been given an offset. -/
def Fresh (st : LZ4_stream_t_internal) : Prop :=
  st.tableType = .clearedTable → st.stream.currentOffset = 0

theorem prepareTable_ok {st : LZ4_stream_t_internal} (h : StreamOk st) (hfresh : Fresh st)
    (inputSize : Nat) (tableType : tableType_t) :
    StreamOk (LZ4_prepareTable st inputSize tableType) := by
  have h64 : KB64 = 65536 := rfl
  have hkb : KB = 1024 := rfl
  have hoff := h.currentOffset_le
  simp only [LZ4_prepareTable]
  split_ifs with hreset hgap hgap
  · exact absurd rfl hgap.1
  · exact ⟨Nat.zero_le _, Nat.le_refl _, fun _ => Or.inl rfl, fun _ _ => rfl, nofun⟩
  · rw [not_and, not_or, not_or, not_or] at hreset
    refine ⟨?_, Nat.zero_le _, ?_, h.cleared, ?_⟩
    · by_cases hclear : st.tableType = .clearedTable
      · exact absurd (hfresh hclear) hgap.1
      · have hle := not_and.1 (hreset hclear).2.2.1 hgap.2
        have hgb : KB * KB * KB = 1073741824 := rfl
        simp only
        omega
    · intro i
      rcases h.entry i with h0 | hle
      · exact Or.inl h0
      · exact Or.inr (Nat.le_add_right_of_le hle)
    · intro h16
      have hsame := (hreset (by simp only at h16; rw [h16]; exact nofun)).1
      rw [not_not, hgap.2] at hsame
      exact absurd (h16.symm.trans hsame) nofun
  · exact ⟨hoff, Nat.zero_le _, h.entry, h.cleared, h.byU16_lt⟩

/-! ## One call -/

/-- The entries of the table. -/
def entryOf (hashTable : HashTable) (e : Nat) : Prop := ∃ h, hashTable h = e

theorem StreamOk.finds {C : CompressCall} {st : LZ4_stream_t_internal} (h : StreamOk st)
    (hstart : C.startIndex = st.stream.currentOffset) :
    Finds C (entryOf st.hashTable) st.hashTable := by
  intro i
  refine ⟨⟨i, rfl⟩, ?_⟩
  have hunit : HASH_UNIT = 8 := rfl
  rcases h.entry i with h0 | hle
  · omega
  · omega

/-- The compressor proper on a stream. -/
theorem compressGeneric_spec {C : CompressCall} {st : LZ4_stream_t_internal} (h : StreamOk st)
    (hstart : C.startIndex = st.stream.currentOffset) (htype : C.tableType ≠ .clearedTable)
    (hmax : C.inputSize ≤ LZ4_MAX_INPUT_SIZE)
    (hroom : st.stream.currentOffset + C.inputSize ≤ 0x80000000)
    (hvalid : 0 < C.inputSize → Valid C ∧ ∀ e, entryOf st.hashTable e → e < C.startIndex → Fits C e) :
    Compresses C (entryOf st.hashTable) (compressGeneric C st).1 ∧
      StreamOk (compressGeneric C st).2 ∧
      (compressGeneric C st).2.stream.currentOffset = st.stream.currentOffset + C.inputSize := by
  have hfinds := h.finds hstart
  by_cases hzero : C.inputSize = 0
  · rw [compressGeneric, if_pos (Or.inl hzero), hzero]
    exact ⟨empty_compresses hzero hfinds.leaves, h, rfl⟩
  · obtain ⟨hv, hfits⟩ := hvalid (Nat.pos_of_ne_zero hzero)
    have hcompresses := LZ4_compress_generic_compresses hv hfits hmax hfinds
    have hrefused : ¬ (C.inputSize = 0 ∨ LZ4_MAX_INPUT_SIZE < C.inputSize ∨
        (C.tableType = .byU16 ∧ LZ4_64Klimit ≤ C.inputSize)) := by
      rintro (h0 | hlt | ⟨h16, hle⟩)
      · exact hzero h0
      · exact absurd hmax (Nat.not_le.2 hlt)
      · have hlt := hv.byU16_lt h16
        omega
    rw [compressGeneric, if_neg hrefused]
    refine ⟨hcompresses, ⟨hroom, ?_, ?_, ?_, ?_⟩, rfl⟩
    · exact Nat.add_le_add_right h.dictSize_le _
    · intro i
      have hunit : HASH_UNIT = 8 := rfl
      have h12 : MFLIMIT = 12 := rfl
      rcases hcompresses.leaves i with ⟨j, hj⟩ | ⟨q, hq, hend, heq⟩
      · rcases h.entry j with h0 | hle
        · exact Or.inl (hj.symm.trans h0)
        · right
          simp only
          omega
      · right
        rw [CompressCall.iend] at hend
        simp only
        omega
    · intro hclear
      exact absurd hclear htype
    · intro h16
      have hlt := hv.byU16_lt h16
      simp only
      omega

/-! ## `LZ4_compress_fast_continue` -/

section Continue

variable {st : LZ4_stream_t_internal} {source inputSize : Nat}

theorem fastWindow_currentOffset (s : LZ4_stream_t) (source n : Nat) :
    (fastWindow s source n).1.currentOffset =
      (PythonLz4.Stream.Continue.LZ4_renormDictT s n).currentOffset := by
  simp only [fastWindow, PythonLz4.Stream.Continue.invalidateTiny,
    PythonLz4.Stream.Continue.trimOverlap]
  split_ifs <;> rfl

theorem fastWindow_dictSize_le (s : LZ4_stream_t) (source n : Nat) :
    (fastWindow s source n).1.dictSize ≤
      (PythonLz4.Stream.Continue.LZ4_renormDictT s n).dictSize := by
  obtain ⟨hend, -⟩ := renormDictT_spec s n
  have hdictEnd : s.dictEnd = if s.dictSize ≠ 0 then s.dictionary + s.dictSize else 0 := rfl
  simp only [fastWindow]
  generalize PythonLz4.Stream.Continue.LZ4_renormDictT s n = q at hend ⊢
  generalize s.dictEnd = dictEnd at hdictEnd ⊢
  have hreach : dictEnd ≤ q.dictionary + q.dictSize := by
    rw [hdictEnd, hend]
    split_ifs
    · exact Nat.le_refl _
    · exact Nat.zero_le _
  by_cases htiny : q.dictSize < 4 ∧ dictEnd ≠ source ∧ 0 < n
  · simp only [PythonLz4.Stream.Continue.invalidateTiny, if_pos htiny,
      PythonLz4.Stream.Continue.trimOverlap]
    rw [if_neg (by omega)]
    exact Nat.zero_le _
  · simp only [PythonLz4.Stream.Continue.invalidateTiny, if_neg htiny,
      PythonLz4.Stream.Continue.trimOverlap]
    split_ifs with hover hsmall
    · exact Nat.zero_le _
    · simp only
      omega
    · exact Nat.le_refl _

/-- The stream is still good when the compressor proper is called, and the indexes of the source
fit. -/
theorem continueStream_ok (h : StreamOk st) (hmax : inputSize ≤ LZ4_MAX_INPUT_SIZE)
    (htype : st.tableType ≠ .byU16) :
    StreamOk (continueStream st source inputSize) ∧
      (continueStream st source inputSize).stream.currentOffset + inputSize ≤ 0x80000000 := by
  have h64 : KB64 = 65536 := rfl
  have hunit : HASH_UNIT = 8 := rfl
  have hM : LZ4_MAX_INPUT_SIZE = 2113929216 := rfl
  have hoff := h.currentOffset_le
  have hwindow := fastWindow_currentOffset st.stream source inputSize
  have hsize := fastWindow_dictSize_le st.stream source inputSize
  have hdict := h.dictSize_le
  by_cases hover : 0x80000000 < st.stream.currentOffset + inputSize
  · have hrenorm : (PythonLz4.Stream.Continue.LZ4_renormDictT st.stream inputSize).currentOffset =
          KB64 ∧
        (PythonLz4.Stream.Continue.LZ4_renormDictT st.stream inputSize).dictSize ≤ KB64 := by
      rw [PythonLz4.Stream.Continue.LZ4_renormDictT, if_pos hover]
      exact ⟨rfl, Nat.min_le_right _ _⟩
    have htable : renormTable st inputSize = fun h =>
        if st.hashTable h < st.stream.currentOffset - KB64 then 0
        else st.hashTable h - (st.stream.currentOffset - KB64) := if_pos hover
    simp only [continueStream, hwindow, hrenorm.1, htable]
    refine ⟨⟨?_, ?_, ?_, ?_, fun h16 => absurd h16 htype⟩, by omega⟩
    · simp only [hwindow, hrenorm.1]
      decide
    · simp only [hwindow, hrenorm.1]
      exact Nat.le_trans hsize hrenorm.2
    · intro i
      simp only [hwindow, hrenorm.1]
      rcases h.entry i with h0 | hle
      · left
        split_ifs <;> omega
      · split_ifs
        · exact Or.inl rfl
        · right
          omega
    · intro hclear i
      have h0 := h.cleared hclear i
      simp only [h0]
      split_ifs <;> omega
  · have hrenorm : PythonLz4.Stream.Continue.LZ4_renormDictT st.stream inputSize = st.stream :=
      if_neg hover
    have htable : renormTable st inputSize = st.hashTable := if_neg hover
    rw [hrenorm] at hwindow hsize
    simp only [continueStream, hwindow, htable]
    refine ⟨⟨?_, ?_, ?_, h.cleared, fun h16 => absurd h16 htype⟩, by omega⟩
    · rw [hwindow]
      exact hoff
    · rw [hwindow]
      exact Nat.le_trans hsize hdict
    · intro i
      rw [hwindow]
      exact h.entry i

/-- An external dictionary does not begin where the source does, or is as long as the source. -/
def Apart (st : LZ4_stream_t_internal) (source inputSize : Nat) : Prop :=
  (fastWindow st.stream source inputSize).2 ≠ source →
    (fastWindow st.stream source inputSize).1.dictionary ≠ source ∨
      inputSize ≤ (fastWindow st.stream source inputSize).1.dictSize

instance (st : LZ4_stream_t_internal) (source inputSize : Nat) :
    Decidable (Apart st source inputSize) :=
  inferInstanceAs (Decidable ((fastWindow st.stream source inputSize).2 ≠ source →
    (fastWindow st.stream source inputSize).1.dictionary ≠ source ∨
      inputSize ≤ (fastWindow st.stream source inputSize).1.dictSize))

theorem clampAcceleration_pos (acceleration : Int) : 0 < clampAcceleration acceleration := by
  rw [clampAcceleration]
  split_ifs
  · decide
  · decide
  · omega

/-- An entry that passes the two checks of a call that continues a stream lies in its history. -/
theorem entry_fits {C : CompressCall} {e : Nat} (hsmall : C.dictSmall =
      decide (C.dictSize < KB64 ∧ C.dictSize < C.startIndex))
    (htype : C.tableType = .byU32) (hle : C.dictSize ≤ C.startIndex)
    (hstart : C.startIndex ≤ 0x80000000) (hentry : e = 0 ∨ e + HASH_UNIT ≤ C.startIndex)
    (hext : C.dictDirective = .usingExtDict → 4 ≤ C.dictSize ∨ C.dictSize = 0)
    (he : e < C.startIndex) : Fits C e := by
  have h64 : KB64 = 65536 := rfl
  have hunit : HASH_UNIT = 8 := rfl
  have h4 : MINMATCH = 4 := rfl
  have hmax : LZ4_DISTANCE_MAX = 65535 := rfl
  intro hvalid hfar
  rw [hsmall, decide_eq_true_eq, CompressCall.prefixIdxLimit] at hvalid
  have hnear : C.startIndex ≤ e + LZ4_DISTANCE_MAX := by
    by_contra hcon
    apply hfar
    refine ⟨by rw [htype]; exact nofun, ?_⟩
    rw [Nat.mod_eq_of_lt (by omega)]
    exact Nat.lt_of_not_le hcon
  constructor
  · omega
  · intro hd
    have hfour := hext hd
    omega

theorem continueCall_valid (h : StreamOk st) (hmax : inputSize ≤ LZ4_MAX_INPUT_SIZE)
    (htype : st.tableType ≠ .byU16) (hsource : 0 < source) (hapart : Apart st source inputSize)
    (hpos : 0 < inputSize) (mem : Memory) (maxOutputSize : Nat) (acceleration : Int) :
    Valid (continueCall mem st source inputSize maxOutputSize acceleration) ∧
      ∀ e, entryOf (renormTable st inputSize) e →
        e < (continueCall mem st source inputSize maxOutputSize acceleration).startIndex →
          Fits (continueCall mem st source inputSize maxOutputSize acceleration) e := by
  obtain ⟨hok, hroom⟩ := @continueStream_ok st source inputSize h hmax htype
  have hle := hok.dictSize_le
  have hcases := fastWindow_cases st.stream hsource inputSize
  simp only [continueStream] at hok hroom hle
  simp only [continueCall]
  constructor
  · constructor
    · simp only
      omega
    · exact nofun
    · exact hle
    · simp only
      split_ifs <;> exact nofun
    · simp only
      split_ifs with hprefix
      · intro _
        rcases hcases with ⟨-, h0, -⟩ | ⟨-, h0, -⟩ | ⟨-, hend, hsum, -⟩
        · omega
        · omega
        · omega
      · exact nofun
    · simp only
      split_ifs with hprefix
      · exact nofun
      · exact fun _ => hapart hprefix
    · exact clampAcceleration_pos acceleration
  · rintro e ⟨i, rfl⟩ he
    refine entry_fits rfl rfl hle hok.currentOffset_le (hok.entry i) ?_ he
    simp only
    split_ifs with hprefix
    · exact nofun
    · intro _
      rcases hcases with ⟨-, h0, -⟩ | ⟨-, h0, -⟩ | ⟨-, -, -, -, -, hfour, -⟩
      · exact Or.inr h0
      · exact Or.inr h0
      · exact hfour hprefix hpos

/-- What the compressor proper sees as history is the window of the stream. -/
theorem history_continueCall (hsource : 0 < source) (mem : Memory) (maxOutputSize : Nat)
    (acceleration : Int) :
    history (continueCall mem st source inputSize maxOutputSize acceleration) =
      load mem (fastWindow st.stream source inputSize).1.dictionary
        (fastWindow st.stream source inputSize).1.dictSize := by
  by_cases hprefix : (fastWindow st.stream source inputSize).2 = source
  · have hdir : dict_directive.withPrefix64k ≠ .usingExtDict := nofun
    simp only [history, dictStart, continueCall, if_pos hprefix, if_neg hdir]
    rcases fastWindow_cases st.stream hsource inputSize with ⟨-, h0, -⟩ | ⟨-, h0, -⟩ |
      ⟨-, hend, hsum, -⟩
    · rw [h0]
      rfl
    · rw [h0]
      rfl
    · congr 1
      omega
  · simp only [history, dictStart, continueCall, if_neg hprefix, if_pos]

/-- `LZ4_compress_fast_continue` on a good stream: the block decodes to the source with the window
as history, and the stream stays good. -/
theorem continue_spec (h : StreamOk st) (hmax : inputSize ≤ LZ4_MAX_INPUT_SIZE)
    (htype : st.tableType ≠ .byU16) (hsource : 0 < source) (hapart : Apart st source inputSize)
    (mem : Memory) (maxOutputSize : Nat) (acceleration : Int) :
    Compresses (continueCall mem st source inputSize maxOutputSize acceleration)
        (entryOf (renormTable st inputSize))
        (LZ4_compress_fast_continue mem st source inputSize maxOutputSize acceleration).1 ∧
      StreamOk (LZ4_compress_fast_continue mem st source inputSize maxOutputSize acceleration).2 ∧
      (LZ4_compress_fast_continue mem st source inputSize maxOutputSize acceleration).2.tableType ≠
        .byU16 := by
  obtain ⟨hok, hroom⟩ := @continueStream_ok st source inputSize h hmax htype
  have hspec := @compressGeneric_spec
    (continueCall mem st source inputSize maxOutputSize acceleration) _ hok rfl nofun hmax hroom
    (fun hpos => continueCall_valid h hmax htype hsource hapart hpos mem maxOutputSize acceleration)
  have htype' : (compressGeneric (continueCall mem st source inputSize maxOutputSize acceleration)
      (continueStream st source inputSize)).2.tableType ≠ .byU16 := by
    rw [compressGeneric]
    split_ifs
    · exact htype
    · exact nofun
  obtain ⟨hcompresses, hok', hoff⟩ := hspec
  rw [LZ4_compress_fast_continue]
  split_ifs with hprefix
  · exact ⟨hcompresses, hok', htype'⟩
  · refine ⟨hcompresses, ⟨hok'.currentOffset_le, ?_, hok'.entry, hok'.cleared, hok'.byU16_lt⟩, htype'⟩
    simp only
    rw [hoff]
    exact Nat.le_add_left _ _

end Continue

/-! ## `LZ4_compress_fast_extState_fastReset` -/

/-- A prepared table is used from index zero on, or goes on with a table of its type for a source
that is small enough. -/
theorem prepareTable_cases {st : LZ4_stream_t_internal} (hfresh : Fresh st) (inputSize : Nat)
    (tableType : tableType_t) :
    (LZ4_prepareTable st inputSize tableType).stream.currentOffset = 0 ∨
      (LZ4_prepareTable st inputSize tableType).tableType = tableType ∧ inputSize < 4 * KB ∧
        (tableType = .byU16 →
          (LZ4_prepareTable st inputSize tableType).stream.currentOffset + inputSize < 0xFFFF) := by
  simp only [LZ4_prepareTable]
  by_cases hclear : st.tableType = .clearedTable
  · left
    have hoff := hfresh hclear
    simp [hclear, hoff]
  · split_ifs with hreset hgap hgap
    · exact absurd rfl hgap.1
    · exact Or.inl rfl
    all_goals
      rw [not_and, not_or, not_or, not_or, not_not] at hreset
      obtain ⟨htype, h16, -, hsize⟩ := hreset hclear
      refine Or.inr ⟨htype, Nat.lt_of_not_le hsize, ?_⟩
      intro h
      have hlt := not_and.1 h16 h
    · exact absurd (h.symm.trans hgap.2) nofun
    · exact Nat.lt_of_not_le hlt

theorem fresh_prepareTable {st : LZ4_stream_t_internal} (hfresh : Fresh st) (inputSize : Nat)
    {tableType : tableType_t} (htype : tableType ≠ .clearedTable) :
    Fresh (LZ4_prepareTable st inputSize tableType) := by
  intro hclear
  rcases prepareTable_cases hfresh inputSize tableType with h0 | ⟨hsame, -⟩
  · exact h0
  · exact absurd (hsame.symm.trans hclear) htype

/-- The type of table for a source. -/
def resetType (srcSize : Nat) : tableType_t :=
  if srcSize < LZ4_64Klimit then .byU16 else .byU32

theorem resetType_ne (srcSize : Nat) : resetType srcSize ≠ .clearedTable := by
  rw [resetType]
  split_ifs <;> exact nofun

/-- `LZ4_compress_fast_extState_fastReset` on a good context: the table of the last call may be
taken over as it is. -/
theorem fastReset_spec {st : LZ4_stream_t_internal} (h : StreamOk st) (hfresh : Fresh st)
    {srcSize : Nat} (hmax : srcSize ≤ LZ4_MAX_INPUT_SIZE) (mem : Memory) (src dstCapacity : Nat)
    (acceleration : Int) :
    Compresses (fastResetCall mem (LZ4_prepareTable st srcSize (resetType srcSize))
        (resetType srcSize) src srcSize dstCapacity acceleration)
        (entryOf (LZ4_prepareTable st srcSize (resetType srcSize)).hashTable)
        (LZ4_compress_fast_extState_fastReset mem st src srcSize dstCapacity acceleration).1 ∧
      StreamOk
        (LZ4_compress_fast_extState_fastReset mem st src srcSize dstCapacity acceleration).2 ∧
      Fresh (LZ4_compress_fast_extState_fastReset mem st src srcSize dstCapacity acceleration).2 := by
  have hM : LZ4_MAX_INPUT_SIZE = 2113929216 := rfl
  have h64 : LZ4_64Klimit = 65547 := rfl
  have hkb : KB = 1024 := rfl
  have hok := prepareTable_ok h hfresh srcSize (resetType srcSize)
  have hcases := prepareTable_cases hfresh srcSize (resetType srcSize)
  have hfresh' := fresh_prepareTable hfresh srcSize (resetType_ne srcSize)
  have hdict : (LZ4_prepareTable st srcSize (resetType srcSize)).stream.dictSize = 0 := rfl
  have hrun : LZ4_compress_fast_extState_fastReset mem st src srcSize dstCapacity acceleration =
      compressGeneric (fastResetCall mem (LZ4_prepareTable st srcSize (resetType srcSize))
        (resetType srcSize) src srcSize dstCapacity acceleration)
        (LZ4_prepareTable st srcSize (resetType srcSize)) := rfl
  rw [hrun]
  generalize LZ4_prepareTable st srcSize (resetType srcSize) = ctx at hok hcases hfresh' hdict ⊢
  have h16 : resetType srcSize = .byU16 → srcSize < LZ4_64Klimit := by
    rw [resetType]
    split_ifs with hlt
    · exact fun _ => hlt
    · exact nofun
  have h32 : resetType srcSize ≠ .byU16 → LZ4_64Klimit ≤ srcSize := by
    rw [resetType]
    split_ifs with hlt
    · exact fun hne => absurd rfl hne
    · exact fun _ => Nat.le_of_not_lt hlt
  -- only a `U16` table is ever taken over
  have hzero : resetType srcSize ≠ .byU16 → ctx.stream.currentOffset = 0 := by
    intro hne
    have hle := h32 hne
    rcases hcases with h0 | ⟨-, hsize, -⟩
    · exact h0
    · omega
  have hsmall : resetType srcSize = .byU16 → ctx.stream.currentOffset + srcSize < LZ4_64Klimit := by
    intro heq
    have hlt := h16 heq
    rcases hcases with h0 | ⟨-, -, hsum⟩
    · omega
    · have hlt' := hsum heq
      omega
  have hroom : ctx.stream.currentOffset + srcSize ≤ 0x80000000 := by
    by_cases heq : resetType srcSize = .byU16
    · have hlt := hsmall heq
      omega
    · have h0 := hzero heq
      omega
  obtain ⟨hcompresses, hok', -⟩ := @compressGeneric_spec
    (fastResetCall mem ctx (resetType srcSize) src srcSize dstCapacity acceleration) ctx hok rfl
    (resetType_ne srcSize) hmax hroom (by
      intro hpos
      constructor
      · refine ⟨?_, hsmall, hok.dictSize_le, fun _ => hdict, nofun, nofun,
          clampAcceleration_pos acceleration⟩
        simp only [fastResetCall]
        omega
      · intro e _ he hvalid
        exfalso
        apply hvalid
        simp only [fastResetCall, CompressCall.prefixIdxLimit, hdict] at he ⊢
        rw [decide_eq_true_eq]
        refine ⟨⟨?_, by omega⟩, he⟩
        by_contra hne
        have h0 := hzero hne
        omega)
  refine ⟨hcompresses, hok', ?_⟩
  rw [compressGeneric]
  split_ifs
  · exact hfresh'
  · intro hclear
    exact absurd hclear (resetType_ne srcSize)

end PythonLz4.Fast.StreamState
