import PythonLz4.Frame.XXHash

/-!
# Frame headers

Constants, error codes and the frame descriptor of `lz4frame.c`, and the reading of a frame header.
`readFrameHeader` makes the checks of `LZ4F_decodeHeader` in their order; what the context does
with the result is in `PythonLz4.Frame.DecompressionContext`.
-/

set_option autoImplicit false

namespace PythonLz4.Frame.Header

open PythonLz4.Lib.LittleEndian
open PythonLz4.Frame.XXHash

/-! ## Error codes -/

/-- `LZ4F_LIST_ERRORS`. -/
inductive LZ4F_errorCode where
  | ERROR_GENERIC
  | ERROR_maxBlockSize_invalid
  | ERROR_blockMode_invalid
  | ERROR_contentChecksumFlag_invalid
  | ERROR_compressionLevel_invalid
  | ERROR_headerVersion_wrong
  | ERROR_blockChecksum_invalid
  | ERROR_reservedFlag_set
  | ERROR_allocation_failed
  | ERROR_srcSize_tooLarge
  | ERROR_dstMaxSize_tooSmall
  | ERROR_frameHeader_incomplete
  | ERROR_frameType_unknown
  | ERROR_frameSize_wrong
  | ERROR_srcPtr_wrong
  | ERROR_decompressionFailed
  | ERROR_headerChecksum_invalid
  | ERROR_contentChecksum_invalid
  | ERROR_frameDecoding_alreadyStarted
  | ERROR_compressionState_uninitialized
  | ERROR_parameter_null
  deriving DecidableEq, Repr

/-- `LZ4F_getErrorName` of an error. -/
def LZ4F_getErrorName : LZ4F_errorCode → String
  | .ERROR_GENERIC => "ERROR_GENERIC"
  | .ERROR_maxBlockSize_invalid => "ERROR_maxBlockSize_invalid"
  | .ERROR_blockMode_invalid => "ERROR_blockMode_invalid"
  | .ERROR_contentChecksumFlag_invalid => "ERROR_contentChecksumFlag_invalid"
  | .ERROR_compressionLevel_invalid => "ERROR_compressionLevel_invalid"
  | .ERROR_headerVersion_wrong => "ERROR_headerVersion_wrong"
  | .ERROR_blockChecksum_invalid => "ERROR_blockChecksum_invalid"
  | .ERROR_reservedFlag_set => "ERROR_reservedFlag_set"
  | .ERROR_allocation_failed => "ERROR_allocation_failed"
  | .ERROR_srcSize_tooLarge => "ERROR_srcSize_tooLarge"
  | .ERROR_dstMaxSize_tooSmall => "ERROR_dstMaxSize_tooSmall"
  | .ERROR_frameHeader_incomplete => "ERROR_frameHeader_incomplete"
  | .ERROR_frameType_unknown => "ERROR_frameType_unknown"
  | .ERROR_frameSize_wrong => "ERROR_frameSize_wrong"
  | .ERROR_srcPtr_wrong => "ERROR_srcPtr_wrong"
  | .ERROR_decompressionFailed => "ERROR_decompressionFailed"
  | .ERROR_headerChecksum_invalid => "ERROR_headerChecksum_invalid"
  | .ERROR_contentChecksum_invalid => "ERROR_contentChecksum_invalid"
  | .ERROR_frameDecoding_alreadyStarted => "ERROR_frameDecoding_alreadyStarted"
  | .ERROR_compressionState_uninitialized => "ERROR_compressionState_uninitialized"
  | .ERROR_parameter_null => "ERROR_parameter_null"

/-- The number of values of a `size_t`. -/
def SIZE_T : Nat := 2 ^ 64

/-- A difference of two `size_t`. -/
def sizeSub (a b : Nat) : Nat := (a + SIZE_T - b) % SIZE_T

theorem sizeSub_of_le {a b : Nat} (hab : b ≤ a) (ha : a < SIZE_T) : sizeSub a b = a - b := by
  have e : a + SIZE_T - b = a - b + SIZE_T := by omega
  rw [sizeSub, e, Nat.add_mod_right, Nat.mod_eq_of_lt (by omega)]

/-! ## Constants -/

def minFHSize : Nat := 7
def maxFHSize : Nat := 19
def BHSize : Nat := 4
def BFSize : Nat := 4
def LZ4F_MAGICNUMBER : Nat := 0x184D2204
def LZ4F_MAGIC_SKIPPABLE_START : Nat := 0x184D2A50
def LZ4F_MIN_SIZE_TO_KNOW_HEADER_LENGTH : Nat := 5
def LZ4F_BLOCKUNCOMPRESSED_FLAG : Nat := 0x80000000

/-- `LZ4F_getBlockSize`, a `size_t` that also carries the error
`ERROR_maxBlockSize_invalid = 2`. -/
def LZ4F_getBlockSize (blockSizeID : Nat) : Nat :=
  if blockSizeID = 0 ∨ blockSizeID = 4 then 64 * 1024
  else if blockSizeID = 5 then 256 * 1024
  else if blockSizeID = 6 then 1024 * 1024
  else if blockSizeID = 7 then 4096 * 1024
  else SIZE_T - 2

/-! ## The frame descriptor -/

inductive LZ4F_blockMode where
  | blockLinked
  | blockIndependent
  deriving DecidableEq, Repr

inductive LZ4F_frameType where
  | frame
  | skippableFrame
  deriving DecidableEq, Repr

structure LZ4F_frameInfo where
  blockSizeID : Nat
  blockMode : LZ4F_blockMode
  contentChecksumFlag : Bool
  frameType : LZ4F_frameType
  contentSize : Nat
  dictID : Nat
  blockChecksumFlag : Bool
  deriving DecidableEq, Repr

def LZ4F_INIT_FRAMEINFO : LZ4F_frameInfo :=
  ⟨0, .blockLinked, false, .frame, 0, 0, false⟩

def LZ4F_headerChecksum (header : List UInt8) : UInt8 := UInt8.ofNat (XXH32_digest header / 256)

/-! ## Reading a header -/

/-- What a header says. -/
inductive HeaderRead where
  | skippable
  | incomplete (frameHeaderSize : Nat)
  | complete (frameHeaderSize : Nat) (frameInfo : LZ4F_frameInfo) (contentSizeFlag : Bool)
  deriving DecidableEq, Repr

/-- "special case : skippable frames". -/
def isSkippable (src : List UInt8) : Prop :=
  leNat (src.take 4) / 16 * 16 = LZ4F_MAGIC_SKIPPABLE_START

instance (src : List UInt8) : Decidable (isSkippable src) :=
  inferInstanceAs (Decidable (_ = _))

/-- The flag byte of a header. -/
def flagByte (src : List UInt8) : Nat := (src.getD 4 0).toNat

/-- The block descriptor byte of a header. -/
def descriptorByte (src : List UInt8) : Nat := (src.getD 5 0).toNat

/-- The size of a header with the flag byte `FLG`. -/
def frameHeaderSizeOf (FLG : Nat) : Nat :=
  minFHSize + (if FLG / 8 % 2 = 1 then 8 else 0) + (if FLG % 2 = 1 then 4 else 0)

/-- The descriptor in a header of `frameHeaderSize` bytes. -/
def frameInfoOf (src : List UInt8) (frameHeaderSize : Nat) : LZ4F_frameInfo :=
  let FLG := flagByte src
  { blockSizeID := descriptorByte src / 16 % 8
    blockMode := if FLG / 32 % 2 = 1 then .blockIndependent else .blockLinked
    contentChecksumFlag := decide (FLG / 4 % 2 = 1)
    frameType := .frame
    contentSize := if FLG / 8 % 2 = 1 then leNat ((src.drop 6).take 8) else 0
    dictID := if FLG % 2 = 1 then leNat ((src.drop (frameHeaderSize - 5)).take 4) else 0
    blockChecksumFlag := decide (FLG / 16 % 2 = 1) }

/-- The checks of `LZ4F_decodeHeader` on at least `minFHSize` bytes. -/
def readFrameHeader (src : List UInt8) : Except LZ4F_errorCode HeaderRead :=
  if isSkippable src then .ok .skippable
  else if leNat (src.take 4) ≠ LZ4F_MAGICNUMBER then .error .ERROR_frameType_unknown
  else
    let FLG := flagByte src
    -- reserved bit, then version number
    if FLG / 2 % 2 ≠ 0 then .error .ERROR_reservedFlag_set
    else if FLG / 64 % 4 ≠ 1 then .error .ERROR_headerVersion_wrong
    else
      let frameHeaderSize := frameHeaderSizeOf FLG
      if src.length < frameHeaderSize then .ok (.incomplete frameHeaderSize)
      else
        let BD := descriptorByte src
        if BD / 128 % 2 ≠ 0 then .error .ERROR_reservedFlag_set
        else if BD / 16 % 8 < 4 then .error .ERROR_maxBlockSize_invalid
        else if BD % 16 ≠ 0 then .error .ERROR_reservedFlag_set
        else if LZ4F_headerChecksum ((src.drop 4).take (frameHeaderSize - 5)) ≠
            src.getD (frameHeaderSize - 1) 0 then .error .ERROR_headerChecksum_invalid
        else .ok (.complete frameHeaderSize (frameInfoOf src frameHeaderSize)
          (decide (FLG / 8 % 2 = 1)))

/-- `src` starts with a frame header of `n` bytes. -/
structure ValidHeader (src : List UInt8) (n : Nat) : Prop where
  not_skippable : ¬ isSkippable src
  magic : leNat (src.take 4) = LZ4F_MAGICNUMBER
  reserved : flagByte src / 2 % 2 = 0
  version : flagByte src / 64 % 4 = 1
  size_eq : n = frameHeaderSizeOf (flagByte src)
  size_le : n ≤ src.length
  descriptor_high : descriptorByte src / 128 % 2 = 0
  blockSizeID_ge : 4 ≤ descriptorByte src / 16 % 8
  descriptor_low : descriptorByte src % 16 = 0
  checksum : LZ4F_headerChecksum ((src.drop 4).take (n - 5)) = src.getD (n - 1) 0

/-- `readFrameHeader` accepts the valid headers. -/
theorem readFrameHeader_complete_iff {src : List UInt8} {n : Nat} {frameInfo : LZ4F_frameInfo}
    {contentSizeFlag : Bool} :
    readFrameHeader src = .ok (.complete n frameInfo contentSizeFlag) ↔
      ValidHeader src n ∧ frameInfo = frameInfoOf src n ∧
        contentSizeFlag = decide (flagByte src / 8 % 2 = 1) := by
  constructor
  · intro h
    unfold readFrameHeader at h
    simp only at h
    split_ifs at h with hskip hmagic hreserved hversion hsize hhigh hid hlow hsum
    · exact absurd (Except.ok.inj h) nofun
    · exact absurd (Except.ok.inj h) nofun
    · simp only [Except.ok.injEq, HeaderRead.complete.injEq] at h
      obtain ⟨rfl, rfl, rfl⟩ := h
      exact ⟨⟨hskip, not_not.1 hmagic, not_not.1 hreserved, not_not.1 hversion, rfl,
        Nat.not_lt.1 hsize, not_not.1 hhigh, Nat.not_lt.1 hid, not_not.1 hlow, not_not.1 hsum⟩,
        rfl, rfl⟩
  · rintro ⟨h, rfl, rfl⟩
    have hn := h.size_eq
    have hle := h.size_le
    have hsum := h.checksum
    rw [hn] at hle hsum
    unfold readFrameHeader
    simp only [if_neg h.not_skippable, h.magic, ne_eq, not_true_eq_false, if_false]
    rw [if_neg (not_not.2 h.reserved), if_neg (not_not.2 h.version), if_neg (Nat.not_lt.2 hle),
      if_neg (not_not.2 h.descriptor_high), if_neg (Nat.not_lt.2 h.blockSizeID_ge),
      if_neg (not_not.2 h.descriptor_low), if_neg (not_not.2 hsum), hn]

theorem readFrameHeader_skippable_iff {src : List UInt8} :
    readFrameHeader src = .ok .skippable ↔ isSkippable src := by
  constructor
  · intro h
    by_contra hskip
    unfold readFrameHeader at h
    simp only [if_neg hskip] at h
    split_ifs at h <;> cases h
  · intro h
    unfold readFrameHeader
    rw [if_pos h]

theorem frameHeaderSizeOf_ge (FLG : Nat) : minFHSize ≤ frameHeaderSizeOf FLG := by
  unfold frameHeaderSizeOf
  omega

theorem frameHeaderSizeOf_le (FLG : Nat) : frameHeaderSizeOf FLG ≤ maxFHSize := by
  unfold frameHeaderSizeOf minFHSize maxFHSize
  split_ifs <;> omega

/-- More of a header is asked for only as far as a header can go. -/
theorem readFrameHeader_incomplete {src : List UInt8} {n : Nat}
    (h : readFrameHeader src = .ok (.incomplete n)) : src.length < n ∧ n ≤ maxFHSize := by
  unfold readFrameHeader at h
  simp only at h
  split_ifs at h with hskip hmagic hreserved hversion hsize
  · exact absurd (Except.ok.inj h) nofun
  · obtain rfl := HeaderRead.incomplete.inj (Except.ok.inj h)
    exact ⟨hsize, frameHeaderSizeOf_le _⟩
  · exact absurd (Except.ok.inj h) nofun

/-- The block sizes a header can name. -/
theorem ValidHeader.blockSize_ge {src : List UInt8} {n : Nat} (h : ValidHeader src n) :
    64 * 1024 ≤ LZ4F_getBlockSize (frameInfoOf src n).blockSizeID := by
  have hid := h.blockSizeID_ge
  have hlt : descriptorByte src / 16 % 8 < 8 := Nat.mod_lt _ (by decide)
  have hinfo : (frameInfoOf src n).blockSizeID = descriptorByte src / 16 % 8 := rfl
  rw [hinfo]
  generalize descriptorByte src / 16 % 8 = k at *
  have hk : k = 4 ∨ k = 5 ∨ k = 6 ∨ k = 7 := by omega
  rcases hk with rfl | rfl | rfl | rfl <;> decide

/-! ## Reading the start of a header -/

theorem take_drop_take {src : List UInt8} {i j k : Nat} (hk : i + j ≤ k) :
    ((src.take k).drop i).take j = (src.drop i).take j := by
  rw [List.drop_take, List.take_take, Nat.min_eq_left (by omega)]

theorem getD_take {src : List UInt8} {i k : Nat} (hk : i < k) :
    (src.take k).getD i 0 = src.getD i 0 := by
  rw [List.getD_eq_getElem?_getD, List.getD_eq_getElem?_getD, List.getElem?_take_of_lt hk]

theorem isSkippable_take {src : List UInt8} {k : Nat} (hk : 4 ≤ k) :
    isSkippable (src.take k) ↔ isSkippable src := by
  unfold isSkippable
  rw [List.take_take, Nat.min_eq_left hk]

theorem flagByte_take {src : List UInt8} {k : Nat} (hk : minFHSize ≤ k) :
    flagByte (src.take k) = flagByte src := by
  rw [flagByte, getD_take (by unfold minFHSize at hk; omega), flagByte]

theorem descriptorByte_take {src : List UInt8} {k : Nat} (hk : minFHSize ≤ k) :
    descriptorByte (src.take k) = descriptorByte src := by
  rw [descriptorByte, getD_take (by unfold minFHSize at hk; omega), descriptorByte]

/-- The descriptor is in the bytes of the header. -/
theorem frameInfoOf_take {src : List UInt8} {k : Nat} (hk : frameHeaderSizeOf (flagByte src) ≤ k) :
    frameInfoOf (src.take k) (frameHeaderSizeOf (flagByte src)) =
      frameInfoOf src (frameHeaderSizeOf (flagByte src)) := by
  have hmin := Nat.le_trans (frameHeaderSizeOf_ge (flagByte src)) hk
  unfold frameInfoOf
  rw [flagByte_take hmin, descriptorByte_take hmin]
  have hsize : flagByte src / 8 % 2 = 1 →
      ((src.take k).drop 6).take 8 = (src.drop 6).take 8 := by
    intro hflag
    refine take_drop_take ?_
    unfold frameHeaderSizeOf minFHSize at hk
    rw [if_pos hflag] at hk
    omega
  have hdict : ((src.take k).drop (frameHeaderSizeOf (flagByte src) - 5)).take 4 =
      (src.drop (frameHeaderSizeOf (flagByte src) - 5)).take 4 := by
    refine take_drop_take ?_
    have := frameHeaderSizeOf_ge (flagByte src)
    unfold minFHSize at this
    omega
  rw [hdict]
  by_cases hflag : flagByte src / 8 % 2 = 1
  · rw [hsize hflag]
  · simp only [if_neg hflag]

/-- A header is read from its own bytes. -/
theorem readFrameHeader_take {src : List UInt8} {k : Nat} (hle : k ≤ src.length)
    (hk : frameHeaderSizeOf (flagByte src) ≤ k) :
    readFrameHeader (src.take k) = readFrameHeader src := by
  have hge := frameHeaderSizeOf_ge (flagByte src)
  have hmin := Nat.le_trans hge hk
  have hfour : 4 ≤ k := Nat.le_trans (by decide) hmin
  unfold minFHSize at hge
  unfold readFrameHeader
  simp only [isSkippable_take hfour, flagByte_take hmin, descriptorByte_take hmin,
    frameInfoOf_take hk, List.take_take, Nat.min_eq_left hfour, List.length_take,
    Nat.min_eq_left hle]
  rw [take_drop_take (by omega), getD_take (by omega)]
  simp only [if_neg (Nat.not_lt.2 hk), if_neg (Nat.not_lt.2 (Nat.le_trans hk hle))]

/-- What the first bytes of a header say, when the header is longer. -/
theorem readFrameHeader_take_short {src : List UInt8} {k : Nat} (hmin : minFHSize ≤ k)
    (hk : k < frameHeaderSizeOf (flagByte src)) :
    readFrameHeader (src.take k) = readFrameHeader src ∨
      readFrameHeader (src.take k) = .ok (.incomplete (frameHeaderSizeOf (flagByte src))) := by
  have hfour : 4 ≤ k := Nat.le_trans (by decide) hmin
  have hshort : (src.take k).length < frameHeaderSizeOf (flagByte src) :=
    Nat.lt_of_le_of_lt (List.length_take_le k src) hk
  unfold readFrameHeader
  simp only [isSkippable_take hfour, flagByte_take hmin, List.take_take, Nat.min_eq_left hfour,
    if_pos hshort]
  split_ifs
  all_goals first
    | exact Or.inl rfl
    | exact Or.inr rfl

/-! ## The size of a header -/

/-- `LZ4F_headerSize`. -/
def LZ4F_headerSize (src : List UInt8) : Except LZ4F_errorCode Nat :=
  if src.length < LZ4F_MIN_SIZE_TO_KNOW_HEADER_LENGTH then .error .ERROR_frameHeader_incomplete
  else if isSkippable src then .ok 8
  else if leNat (src.take 4) ≠ LZ4F_MAGICNUMBER then .error .ERROR_frameType_unknown
  else .ok (frameHeaderSizeOf (flagByte src))

end PythonLz4.Frame.Header
