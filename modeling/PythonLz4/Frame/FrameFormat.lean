import PythonLz4.Frame.Feeding

/-!
# The frame format

What a complete frame is, as a grammar (`IsFrame`): a header, blocks with the content so far as
history, the end mark and the checksum of the content, or a skippable frame. The decoder that takes
one byte at a time reads exactly these (`feed_finish_iff`): it finishes behind a frame with its
content, and on nothing else.
-/

set_option autoImplicit false

namespace PythonLz4.Frame.FrameFormat

open PythonLz4.Lib.HistoryWindow
open PythonLz4.Lib.LittleEndian
open PythonLz4.Block.DecompressGeneric
open PythonLz4.Frame.XXHash
open PythonLz4.Frame.Header
open PythonLz4.Frame.BytewiseDecoder

/-! ## The grammar -/

/-- The checksum behind the data of a block. -/
def blockChecksum (c : Content) (data : List UInt8) : List UInt8 :=
  if c.frameInfo.blockChecksumFlag then checksumBytes data else []

/-- The bytes of one block and what they decode to behind `c`. -/
inductive Block (adjacent : Bool) (c : Content) : List UInt8 → List UInt8 → Prop
  | compressed {block piece : List UInt8} (hne : block ≠ []) (hsize : block.length ≤ c.maxBlockSize)
      (hdecodes : Decodes (callOf adjacent c.history c.maxBlockSize) block [] piece) :
      Block adjacent c (leBytes 4 block.length ++ (block ++ blockChecksum c block)) piece
  | uncompressed {piece : List UInt8} (hsize : piece.length ≤ c.maxBlockSize) :
      Block adjacent c
        (leBytes 4 (piece.length + LZ4F_BLOCKUNCOMPRESSED_FLAG) ++ (piece ++ blockChecksum c piece))
        piece

/-- The bytes of many blocks and what they decode to. -/
inductive Blocks (adjacent : Bool) : Content → List UInt8 → List UInt8 → Prop
  | nil (c : Content) : Blocks adjacent c [] []
  | cons {c : Content} {block blocks piece content : List UInt8} (h : Block adjacent c block piece)
      (hs : Blocks adjacent (c.add piece) blocks content) :
      Blocks adjacent c (block ++ blocks) (piece ++ content)

/-- The end mark and the checksum of the content. -/
def frameSuffix (contentChecksumFlag : Bool) (content : List UInt8) : List UInt8 :=
  leBytes 4 0 ++ if contentChecksumFlag then checksumBytes content else []

/-- A complete frame and its content. -/
inductive IsFrame (adjacent : Bool) : List UInt8 → List UInt8 → Prop
  | data {header blocks content : List UInt8} {frameInfo : LZ4F_frameInfo} {contentSizeFlag : Bool}
      (hheader : readFrameHeader header = .ok (.complete header.length frameInfo contentSizeFlag))
      (hblocks : Blocks adjacent ⟨frameInfo, [], []⟩ blocks content)
      (hsize : frameInfo.contentSize ≠ 0 → content.length % SIZE_T = frameInfo.contentSize) :
      IsFrame adjacent
        (header ++ (blocks ++ frameSuffix frameInfo.contentChecksumFlag content)) content
  | skippable {magic data : List UInt8} (hmagic : magic.length = 4) (hskippable : isSkippable magic)
      (hsize : data.length < 2 ^ 32) :
      IsFrame adjacent (magic ++ (leBytes 4 data.length ++ data)) []

/-! ## Fields -/

section Fields

variable {fastLoop adjacent : Bool} {s : Reader} {c : Content} {remaining target : Nat}

theorem feed_cons_event (x : UInt8) (xs : List UInt8) :
    feed fastLoop adjacent s (x :: xs) =
      (absorb fastLoop adjacent s x).feed fastLoop adjacent xs := by
  rw [feed]
  cases absorb fastLoop adjacent s x <;> rfl

theorem Event.feed_next (s : Reader) (bytes : List UInt8) :
    (Event.next s []).feed fastLoop adjacent bytes = feed fastLoop adjacent s bytes := emit_nil _

/-- A field that is short of bytes. -/
theorem feed_gathers_short (h : s.field.gathers = true) {bytes : List UInt8}
    (hlt : bytes.length < s.field.missing) :
    feed fastLoop adjacent s bytes = .next ⟨s.remaining, s.field.append bytes⟩ [] := by
  induction bytes generalizing s with
  | nil => rw [append_nil]; rfl
  | cons x bytes ih =>
    rw [List.length_cons] at hlt
    have hmore : ¬ s.field.missing ≤ 1 := by omega
    rw [feed_cons_event, absorb_gathers h, if_neg hmore, Event.feed_next,
      ih (by rw [gathers_append]; exact h) (by
        rw [missing_append h, List.length_singleton]
        omega)]
    simp only [append_append, List.singleton_append]

/-- A field that is there. -/
theorem feed_gathered (h : s.field.gathers = true) (hpos : 0 < s.field.missing)
    {bytes : List UInt8} (hle : s.field.missing ≤ bytes.length) :
    feed fastLoop adjacent s bytes =
      (readField fastLoop adjacent s.remaining
        (s.field.append (bytes.take s.field.missing))).feed fastLoop adjacent
          (bytes.drop s.field.missing) := by
  induction bytes generalizing s with
  | nil => exact absurd (Nat.lt_of_lt_of_le hpos hle) (Nat.lt_irrefl 0)
  | cons x bytes ih =>
    rw [feed_cons_event, absorb_gathers h]
    split_ifs with hlast
    · have hone : s.field.missing = 1 := Nat.le_antisymm hlast hpos
      rw [hone]
      rfl
    · have hmissing : (s.field.append [x]).missing + 1 = s.field.missing := by
        rw [missing_append h, List.length_singleton]
        omega
      rw [List.length_cons] at hle
      rw [Event.feed_next, ih (by rw [gathers_append]; exact h) (by simp only; omega)
        (by simp only; omega)]
      simp only [append_append, List.singleton_append, ← hmissing, List.take_succ_cons,
        List.drop_succ_cons]

theorem feed_field (f : Field) (n : Nat) {bytes : List UInt8} (h : f.gathers = true)
    (hmissing : f.missing = n) (hpos : 0 < n) (hle : n ≤ bytes.length) :
    feed fastLoop adjacent ⟨remaining, f⟩ bytes =
      (readField fastLoop adjacent remaining (f.append (bytes.take n))).feed fastLoop adjacent
        (bytes.drop n) := by
  subst hmissing
  exact @feed_gathered fastLoop adjacent ⟨remaining, f⟩ h hpos bytes hle

theorem feed_emit_copyFrom (summed piece bytes : List UInt8) :
    ((copyFrom remaining c target summed).emit piece).feed fastLoop adjacent bytes =
      ((copyFrom remaining c target summed).feed fastLoop adjacent bytes).emit piece := by
  unfold copyFrom
  split_ifs <;> exact (emit_emit _ _ _).symm

/-- Bytes of an uncompressed block. -/
theorem feed_copy (hc : c.Windowed) (hr : remaining < SIZE_T) (ht : target ≤ SIZE_T)
    (summed : List UInt8) {piece : List UInt8} (hle : piece.length ≤ target) (rest : List UInt8) :
    (copyFrom remaining c target summed).feed fastLoop adjacent (piece ++ rest) =
      ((copyFrom (c.remainingAfter remaining piece.length) (c.add piece) (target - piece.length)
        (c.sum summed piece)).feed fastLoop adjacent rest).emit piece := by
  induction piece generalizing c remaining target summed with
  | nil =>
    rw [List.length_nil, remainingAfter_zero c hr, hc.add_nil, sum_nil, emit_nil, List.nil_append,
      Nat.sub_zero]
  | cons x piece ih =>
    rw [List.length_cons] at hle
    have hsplit := @remainingAfter_add c remaining 1 piece.length hr (by omega) [x]
    have hstep : (copyFrom remaining c target summed).feed fastLoop adjacent
        (x :: (piece ++ rest)) =
        ((copyFrom (c.remainingAfter remaining 1) (c.add [x]) (target - 1)
          (c.sum summed [x])).feed fastLoop adjacent (piece ++ rest)).emit [x] := by
      rw [copyFrom_pos (by omega), Event.feed_next, feed_cons_event, ← feed_emit_copyFrom]
      rfl
    rw [List.cons_append, hstep,
      ih (hc.add [x]) (remainingAfter_lt c hr 1) (by omega) _ (by omega), hsplit, add_append,
      sum_append, emit_emit, List.singleton_append, List.length_cons, Nat.add_comm 1, Nat.sub_sub,
      Nat.add_comm 1]

/-- Bytes of a skippable frame. -/
theorem feed_skip {piece : List UInt8} (hle : piece.length ≤ target) (rest : List UInt8) :
    (skipFrom remaining target).feed fastLoop adjacent (piece ++ rest) =
      (skipFrom remaining (target - piece.length)).feed fastLoop adjacent rest := by
  induction piece generalizing target with
  | nil => rfl
  | cons x piece ih =>
    rw [List.length_cons] at hle
    have hstep : (skipFrom remaining target).feed fastLoop adjacent (x :: (piece ++ rest)) =
        (skipFrom remaining (target - 1)).feed fastLoop adjacent (piece ++ rest) := by
      rw [skipFrom, if_neg (by omega), Event.feed_next, feed_cons_event]
      rfl
    rw [List.cons_append, hstep, ih (by omega), List.length_cons, Nat.sub_sub, Nat.add_comm 1]

end Fields

/-! ## Blocks -/

section Blocks

variable {fastLoop adjacent : Bool} {c : Content} {remaining : Nat}

theorem maxBlockSize_pos (c : Content) : 0 < c.maxBlockSize := by
  unfold Content.maxBlockSize LZ4F_getBlockSize
  split_ifs <;> decide

/-- Which decoding loop is used makes no difference. -/
theorem usingDict_eq_ok_iff {block piece : List UInt8} :
    LZ4_decompress_safe_usingDict fastLoop block c.maxBlockSize c.history adjacent = .ok piece ↔
      Decodes (callOf adjacent c.history c.maxBlockSize) block [] piece := by
  rw [LZ4_decompress_safe_usingDict_ok_iff, callOf_ok_iff]
  constructor
  · exact And.right
  · intro h
    exact ⟨fun h0 => absurd h0 (Nat.ne_of_gt (maxBlockSize_pos c)), h⟩

/-- The field behind the data of an uncompressed block. -/
theorem feed_blockHeader {bytes : List UInt8} (hle : 4 ≤ bytes.length) :
    feed fastLoop adjacent ⟨remaining, .blockHeader c []⟩ bytes =
      (readBlockHeader remaining c (bytes.take 4)).feed fastLoop adjacent (bytes.drop 4) :=
  feed_field (.blockHeader c []) 4 rfl rfl (Nat.succ_pos 3) hle

theorem length_blockChecksum (c : Content) (data : List UInt8) :
    (blockChecksum c data).length = if c.frameInfo.blockChecksumFlag then 4 else 0 := by
  unfold blockChecksum
  split_ifs
  · exact length_checksumBytes data
  · rfl

/-- The checksum of an uncompressed block. -/
theorem feed_blockChecksum (summed rest : List UInt8) :
    feed fastLoop adjacent ⟨remaining, .blockChecksum c summed []⟩ (checksumBytes summed ++ rest) =
      feed fastLoop adjacent ⟨remaining, .blockHeader c []⟩ rest := by
  have hlen : (checksumBytes summed).length = 4 := length_checksumBytes summed
  have hread : readField fastLoop adjacent remaining
      ((Field.blockChecksum c summed []).append (checksumBytes summed)) =
        .next ⟨remaining, .blockHeader c []⟩ [] := by
    have htake : ([] ++ checksumBytes summed).take 4 = checksumBytes summed := by
      rw [List.nil_append, List.take_of_length_le (Nat.le_of_eq hlen)]
    simp only [Field.append, readField, htake, leNat_checksumBytes, ne_eq, not_true_eq_false,
      if_false]
  rw [feed_field (.blockChecksum c summed []) 4 rfl rfl (Nat.succ_pos 3)
    (by rw [List.length_append, hlen]; exact Nat.le_add_right _ _),
    List.take_left' hlen, List.drop_left' hlen, hread, Event.feed_next]

/-- The bytes of a compressed block are what `LZ4F_decompress` collects for it. -/
def cBlockSize (c : Content) (blockSize : Nat) : Nat :=
  blockSize + if c.frameInfo.blockChecksumFlag then BFSize else 0

theorem length_cBlock (c : Content) (block : List UInt8) :
    (block ++ blockChecksum c block).length = cBlockSize c block.length := by
  rw [List.length_append, length_blockChecksum]
  rfl

theorem readBlockHeader_eq {got : List UInt8} {header : Nat} (h : leNat (got.take 4) = header) :
    readBlockHeader remaining c got =
      if header = 0 then suffixFrom remaining c.frameInfo.contentChecksumFlag c.hashed
      else if c.maxBlockSize < header % 0x80000000 then .fail
      else if LZ4F_BLOCKUNCOMPRESSED_FLAG ≤ header then
        copyFrom remaining c (header % 0x80000000) []
      else .next ⟨remaining, .cBlock c (cBlockSize c (header % 0x80000000)) []⟩ [] := by
  subst h
  rfl

theorem readBlockHeader_compressed {block : List UInt8} (hne : block ≠ [])
    (hsize : block.length ≤ c.maxBlockSize) (hsmall : c.maxBlockSize < LZ4F_BLOCKUNCOMPRESSED_FLAG) :
    readBlockHeader remaining c (leBytes 4 block.length) =
      .next ⟨remaining, .cBlock c (cBlockSize c block.length) []⟩ [] := by
  have hflag : LZ4F_BLOCKUNCOMPRESSED_FLAG = 2147483648 := rfl
  have hpos := List.length_pos_iff.2 hne
  have hread : leNat ((leBytes 4 block.length).take 4) = block.length := by
    rw [List.take_of_length_le (by rw [length_leBytes]), leNat_leBytes_of_lt (by omega)]
  rw [readBlockHeader_eq hread, if_neg (by omega), Nat.mod_eq_of_lt (by omega), if_neg (by omega),
    if_neg (by omega)]

theorem readBlockHeader_uncompressed {n : Nat} (hsize : n ≤ c.maxBlockSize)
    (hsmall : c.maxBlockSize < LZ4F_BLOCKUNCOMPRESSED_FLAG) :
    readBlockHeader remaining c (leBytes 4 (n + LZ4F_BLOCKUNCOMPRESSED_FLAG)) =
      copyFrom remaining c n [] := by
  have hflag : LZ4F_BLOCKUNCOMPRESSED_FLAG = 2147483648 := rfl
  have hread : leNat ((leBytes 4 (n + LZ4F_BLOCKUNCOMPRESSED_FLAG)).take 4) =
      n + LZ4F_BLOCKUNCOMPRESSED_FLAG := by
    rw [List.take_of_length_le (by rw [length_leBytes]), leNat_leBytes_of_lt (by omega)]
  have hmod : (n + LZ4F_BLOCKUNCOMPRESSED_FLAG) % 0x80000000 = n := by omega
  rw [readBlockHeader_eq hread, if_neg (by omega), hmod, if_neg (by omega), if_pos (Nat.le_add_left _ _)]

/-- The checksum of a compressed block is right, and the block decodes. -/
theorem readCBlock_good {block piece : List UInt8} (hsize : block.length ≤ c.maxBlockSize)
    (hsmall : c.maxBlockSize < LZ4F_BLOCKUNCOMPRESSED_FLAG)
    (hdecodes : Decodes (callOf adjacent c.history c.maxBlockSize) block [] piece) :
    readCBlock fastLoop adjacent remaining c (cBlockSize c block.length)
        (block ++ blockChecksum c block) =
      .next ⟨c.remainingAfter remaining piece.length, .blockHeader (c.add piece) []⟩ piece := by
  have hflag : LZ4F_BLOCKUNCOMPRESSED_FLAG = 2147483648 := rfl
  have htarget : (if c.frameInfo.blockChecksumFlag then sizeSub (cBlockSize c block.length) 4
      else cBlockSize c block.length) = block.length := by
    unfold cBlockSize
    split_ifs
    · have hB : BFSize = 4 := rfl
      have hS : SIZE_T = 2 ^ 64 := rfl
      rw [sizeSub_of_le (by omega) (by omega)]
      omega
    · rfl
  have hdata : (block ++ blockChecksum c block).take block.length = block := List.take_left' rfl
  have hsum : ¬ (c.frameInfo.blockChecksumFlag = true ∧
      leNat (((block ++ blockChecksum c block).drop block.length).take 4) ≠ XXH32_digest block) := by
    rintro ⟨hchecked, hne⟩
    apply hne
    rw [List.drop_left' rfl, blockChecksum, if_pos hchecked,
      List.take_of_length_le (by rw [length_checksumBytes]), leNat_checksumBytes]
  rw [readCBlock]
  simp only [htarget, hdata]
  rw [if_neg hsum, usingDict_eq_ok_iff.2 hdecodes]

/-- The data of a compressed block. -/
theorem feed_cBlock {target : Nat} (hpos : 0 < target) {bytes : List UInt8}
    (hle : target ≤ bytes.length) :
    feed fastLoop adjacent ⟨remaining, .cBlock c target []⟩ bytes =
      (readCBlock fastLoop adjacent remaining c target (bytes.take target)).feed fastLoop adjacent
        (bytes.drop target) :=
  feed_field (.cBlock c target []) target rfl rfl hpos hle

/-- One block is read. -/
theorem Block.feed_eq {block piece : List UInt8} (h : Block adjacent c block piece)
    (hc : c.Windowed) (hr : remaining < SIZE_T) (hsmall : c.maxBlockSize < LZ4F_BLOCKUNCOMPRESSED_FLAG)
    (rest : List UInt8) :
    feed fastLoop adjacent ⟨remaining, .blockHeader c []⟩ (block ++ rest) =
      (feed fastLoop adjacent ⟨c.remainingAfter remaining piece.length, .blockHeader (c.add piece) []⟩
        rest).emit piece := by
  cases h with
  | @compressed block piece hne hsize hdecodes =>
    have hpos := List.length_pos_iff.2 hne
    have hwhole := length_cBlock c block
    have hsizepos : 0 < cBlockSize c block.length := Nat.lt_of_lt_of_le hpos (Nat.le_add_right _ _)
    rw [List.append_assoc, feed_blockHeader (by
      rw [List.length_append, length_leBytes]
      exact Nat.le_add_right _ _),
      List.take_left' (length_leBytes 4 _), List.drop_left' (length_leBytes 4 _),
      readBlockHeader_compressed hne hsize hsmall, Event.feed_next, feed_cBlock hsizepos (by
      rw [List.length_append, hwhole]
      exact Nat.le_add_right _ _),
      List.take_left' hwhole, List.drop_left' hwhole, readCBlock_good hsize hsmall hdecodes]
    rfl
  | uncompressed hsize =>
    have hS : SIZE_T = 2 ^ 64 := rfl
    have hflag : LZ4F_BLOCKUNCOMPRESSED_FLAG = 2147483648 := rfl
    rw [List.append_assoc, feed_blockHeader (by
      rw [List.length_append, length_leBytes]
      exact Nat.le_add_right _ _),
      List.take_left' (length_leBytes 4 _), List.drop_left' (length_leBytes 4 _),
      readBlockHeader_uncompressed hsize hsmall, List.append_assoc,
      feed_copy hc hr (by omega) [] (Nat.le_refl _), Nat.sub_self, copyFrom, if_pos rfl, add_frameInfo]
    congr 1
    by_cases hchecked : c.frameInfo.blockChecksumFlag = true
    · have hsum : c.sum [] piece = piece := by
        rw [Content.sum, if_pos hchecked, List.nil_append]
      rw [if_pos hchecked, Event.feed_next, hsum, blockChecksum, if_pos hchecked,
        feed_blockChecksum]
    · rw [if_neg hchecked, Event.feed_next, blockChecksum, if_neg hchecked, List.nil_append]

/-! ## What the decoder has read -/

/-- Four bytes are the number they stand for. -/
theorem take_four {bytes : List UInt8} (hle : 4 ≤ bytes.length) :
    bytes.take 4 = leBytes 4 (leNat (bytes.take 4)) := by
  have hlen : (bytes.take 4).length = 4 := by
    rw [List.length_take]
    omega
  have h := leBytes_leNat (bytes.take 4)
  rw [hlen] at h
  exact h.symm

/-- A field that is short of bytes does not end the frame. -/
theorem gathered_of_finish {s : Reader} (h : s.field.gathers = true) {bytes out rest : List UInt8}
    {remaining' : Nat} (hfeed : feed fastLoop adjacent s bytes = .finish remaining' out rest) :
    s.field.missing ≤ bytes.length := by
  by_contra hlt
  rw [feed_gathers_short h (Nat.lt_of_not_le hlt)] at hfeed
  cases hfeed

/-- The end mark. -/
theorem suffix_of_finish {hashed bytes out rest : List UInt8} {remaining' : Nat}
    {contentChecksumFlag : Bool}
    (h : (suffixFrom remaining contentChecksumFlag hashed).feed fastLoop adjacent bytes =
      .finish remaining' out rest) :
    remaining = 0 ∧ remaining' = 0 ∧ out = [] ∧
      bytes = (if contentChecksumFlag then checksumBytes hashed else []) ++ rest := by
  unfold suffixFrom at h
  split_ifs at h with hremaining hflag
  · cases h
  · obtain ⟨rfl, rfl, rfl⟩ := Fed.finish.inj h
    rw [if_neg (by rw [hflag]; exact Bool.false_ne_true)]
    exact ⟨not_not.1 hremaining, not_not.1 hremaining, rfl, rfl⟩
  · rw [Event.feed_next] at h
    have hle : 4 ≤ bytes.length := gathered_of_finish rfl h
    rw [feed_field (.suffix hashed []) 4 rfl rfl (Nat.succ_pos 3) hle] at h
    simp only [Field.append, List.nil_append, readField, List.take_take, Nat.min_self] at h
    split_ifs at h with hsum
    · cases h
    · obtain ⟨rfl, rfl, hrest⟩ := Fed.finish.inj h
      rw [if_pos (by simpa using hflag),
        ← eq_checksumBytes (by rw [List.length_take]; omega) (not_not.1 hsum), ← hrest,
        List.take_append_drop]
      exact ⟨not_not.1 hremaining, not_not.1 hremaining, rfl, rfl⟩

/-- The data of an uncompressed block, with its checksum. -/
theorem copy_of_finish {n : Nat} {bytes out rest : List UInt8} {remaining' : Nat}
    (hc : c.Windowed) (hr : remaining < SIZE_T) (hn : n ≤ SIZE_T)
    (h : (copyFrom remaining c n []).feed fastLoop adjacent bytes = .finish remaining' out rest) :
    ∃ piece tail out', piece.length = n ∧ bytes = (piece ++ blockChecksum c piece) ++ tail ∧
      out = piece ++ out' ∧
      feed fastLoop adjacent ⟨c.remainingAfter remaining piece.length, .blockHeader (c.add piece) []⟩
        tail = .finish remaining' out' rest := by
  have hle : n ≤ bytes.length := by
    by_contra hlt
    have hshort := @feed_copy fastLoop adjacent c remaining n hc hr hn [] bytes (by omega) []
    rw [List.append_nil, h, copyFrom_pos (by omega), Event.feed_next] at hshort
    cases hshort
  have hlen : (bytes.take n).length = n := by
    rw [List.length_take]
    omega
  have hcopy := @feed_copy fastLoop adjacent c remaining n hc hr hn [] (bytes.take n)
    (Nat.le_of_eq hlen) (bytes.drop n)
  rw [List.take_append_drop, h, hlen, Nat.sub_self, copyFrom, if_pos rfl, add_frameInfo] at hcopy
  obtain ⟨out', hfeed, rfl⟩ := emit_eq_finish hcopy.symm
  by_cases hchecked : c.frameInfo.blockChecksumFlag = true
  · have hsum : c.sum [] (bytes.take n) = bytes.take n := by
      rw [Content.sum, if_pos hchecked, List.nil_append]
    rw [if_pos hchecked, Event.feed_next, hsum] at hfeed
    have hfour : 4 ≤ (bytes.drop n).length := gathered_of_finish rfl hfeed
    rw [feed_field (.blockChecksum (c.add (bytes.take n)) (bytes.take n) []) 4 rfl rfl
      (Nat.succ_pos 3) hfour] at hfeed
    simp only [Field.append, List.nil_append, readField, List.take_take, Nat.min_self] at hfeed
    split_ifs at hfeed with hdigest
    · cases hfeed
    · rw [Event.feed_next] at hfeed
      refine ⟨bytes.take n, (bytes.drop n).drop 4, out', hlen, ?_, rfl, by rw [hlen]; exact hfeed⟩
      rw [blockChecksum, if_pos hchecked,
        ← eq_checksumBytes (by rw [List.length_take]; omega) (not_not.1 hdigest), List.append_assoc,
        List.take_append_drop, List.take_append_drop]
  · rw [if_neg hchecked, Event.feed_next] at hfeed
    refine ⟨bytes.take n, bytes.drop n, out', hlen, ?_, rfl, by rw [hlen]; exact hfeed⟩
    rw [blockChecksum, if_neg hchecked, List.append_nil, List.take_append_drop]

/-- The data of a compressed block, with its checksum. -/
theorem cBlock_of_finish {n : Nat} {bytes out rest : List UInt8} {remaining' : Nat} (hpos : 0 < n)
    (hn : n < LZ4F_BLOCKUNCOMPRESSED_FLAG)
    (h : feed fastLoop adjacent ⟨remaining, .cBlock c (cBlockSize c n) []⟩ bytes =
      .finish remaining' out rest) :
    ∃ block piece tail out', block.length = n ∧
      bytes = (block ++ blockChecksum c block) ++ tail ∧ out = piece ++ out' ∧
      Decodes (callOf adjacent c.history c.maxBlockSize) block [] piece ∧
      feed fastLoop adjacent ⟨c.remainingAfter remaining piece.length, .blockHeader (c.add piece) []⟩
        tail = .finish remaining' out' rest := by
  have hflag : LZ4F_BLOCKUNCOMPRESSED_FLAG = 2147483648 := rfl
  have hle : cBlockSize c n ≤ bytes.length := gathered_of_finish rfl h
  have hge : n ≤ cBlockSize c n := Nat.le_add_right _ _
  have htarget : (if c.frameInfo.blockChecksumFlag then sizeSub (cBlockSize c n) 4
      else cBlockSize c n) = n := by
    unfold cBlockSize
    split_ifs
    · have hB : BFSize = 4 := rfl
      have hS : SIZE_T = 2 ^ 64 := rfl
      rw [sizeSub_of_le (by omega) (by omega)]
      omega
    · rfl
  have hlen : (bytes.take n).length = n := by
    rw [List.length_take]
    omega
  rw [feed_cBlock (Nat.lt_of_lt_of_le hpos hge) hle, readCBlock] at h
  simp only [htarget, List.take_take, Nat.min_eq_left hge] at h
  split_ifs at h with hsum
  · cases h
  · cases hd : LZ4_decompress_safe_usingDict fastLoop (bytes.take n) c.maxBlockSize c.history
        adjacent with
    | error e =>
      rw [hd] at h
      cases h
    | ok piece =>
      rw [hd] at h
      obtain ⟨out', hfeed, rfl⟩ := emit_eq_finish h
      refine ⟨bytes.take n, piece, bytes.drop (cBlockSize c n), out', hlen, ?_, rfl,
        usingDict_eq_ok_iff.1 hd, hfeed⟩
      -- the bytes between the block and the next header are its checksum
      have hsplit : bytes = bytes.take n ++ ((bytes.drop n).take (cBlockSize c n - n) ++
          bytes.drop (cBlockSize c n)) := by
        have hdrop : bytes.drop (cBlockSize c n) = (bytes.drop n).drop (cBlockSize c n - n) := by
          rw [List.drop_drop]
          congr 1
          omega
        rw [hdrop, List.take_append_drop, List.take_append_drop]
      have hbetween : (bytes.drop n).take (cBlockSize c n - n) = blockChecksum c (bytes.take n) := by
        rw [not_and, not_not] at hsum
        have hB : BFSize = 4 := rfl
        unfold cBlockSize at hle ⊢
        unfold blockChecksum
        by_cases hchecked : c.frameInfo.blockChecksumFlag = true
        · have hdigest := hsum hchecked
          rw [if_pos hchecked] at hle ⊢
          rw [Nat.add_sub_cancel_left, if_pos hchecked]
          apply eq_checksumBytes
          · rw [List.length_take, List.length_drop]
            omega
          · rw [← hdigest, List.drop_take, List.take_take, cBlockSize, if_pos hchecked,
              Nat.add_sub_cancel_left, hB, Nat.min_self]
        · rw [if_neg hchecked, if_neg hchecked, Nat.add_zero, Nat.sub_self, List.take_zero]
      rw [List.append_assoc, ← hbetween]
      exact hsplit

/-- Behind a block header either the frame ends, or there is a block. -/
theorem blockHeader_of_finish {bytes out rest : List UInt8} {remaining' : Nat}
    (hc : c.Windowed) (hr : remaining < SIZE_T)
    (h : feed fastLoop adjacent ⟨remaining, .blockHeader c []⟩ bytes = .finish remaining' out rest) :
    (remaining = 0 ∧ remaining' = 0 ∧ out = [] ∧
      bytes = frameSuffix c.frameInfo.contentChecksumFlag c.hashed ++ rest) ∨
    ∃ block piece tail out', Block adjacent c block piece ∧ block ≠ [] ∧ bytes = block ++ tail ∧
      out = piece ++ out' ∧
      feed fastLoop adjacent ⟨c.remainingAfter remaining piece.length, .blockHeader (c.add piece) []⟩
        tail = .finish remaining' out' rest := by
  have hS : SIZE_T = 2 ^ 64 := rfl
  have hflag : LZ4F_BLOCKUNCOMPRESSED_FLAG = 2147483648 := rfl
  have hle : 4 ≤ bytes.length := gathered_of_finish rfl h
  have hsplit := List.take_append_drop 4 bytes
  rw [take_four hle] at hsplit
  have hlt : leNat (bytes.take 4) < 4294967296 := by
    have hbound := leNat_lt (bytes.take 4)
    rw [List.length_take, Nat.min_eq_left hle] at hbound
    exact hbound
  obtain ⟨header, hnumber⟩ : ∃ n, leNat (bytes.take 4) = n := ⟨_, rfl⟩
  have hread : leNat ((bytes.take 4).take 4) = header := by
    rw [List.take_take, Nat.min_self]
    exact hnumber
  rw [feed_blockHeader hle, readBlockHeader_eq hread] at h
  rw [hnumber] at hsplit hlt
  generalize bytes.drop 4 = body at h hsplit
  have hheader : ∀ n : Nat, leBytes 4 n ≠ [] := by
    intro n hnil
    have hlen := congrArg List.length hnil
    rw [length_leBytes] at hlen
    cases hlen
  split_ifs at h with hzero hlarge hraw
  · left
    obtain ⟨h0, h0', hout, rfl⟩ := suffix_of_finish h
    refine ⟨h0, h0', hout, ?_⟩
    rw [← hsplit, hzero, frameSuffix, List.append_assoc]
  · cases h
  · right
    obtain ⟨piece, tail, out', hlen, rfl, rfl, hfeed⟩ := copy_of_finish hc hr (by omega) h
    have hsum : header = piece.length + LZ4F_BLOCKUNCOMPRESSED_FLAG := by omega
    refine ⟨leBytes 4 header ++ (piece ++ blockChecksum c piece), piece, tail, out', ?_, ?_, ?_, rfl,
      hfeed⟩
    · rw [hsum]
      exact .uncompressed (by omega)
    · exact List.append_ne_nil_of_left_ne_nil (hheader _) _
    · rw [← hsplit, List.append_assoc (leBytes 4 header)]
  · right
    rw [Event.feed_next] at h
    rw [Nat.mod_eq_of_lt (by omega)] at h hlarge
    obtain ⟨block, piece, tail, out', hlen, rfl, rfl, hdecodes, hfeed⟩ :=
      @cBlock_of_finish fastLoop adjacent c remaining header _ _ _ _ (Nat.pos_of_ne_zero hzero)
        (by omega) h
    refine ⟨leBytes 4 header ++ (block ++ blockChecksum c block), piece, tail, out', ?_, ?_, ?_, rfl,
      hfeed⟩
    · rw [← hlen]
      apply Block.compressed
      · intro hnil
        rw [hnil] at hlen
        exact hzero hlen.symm
      · omega
      · exact hdecodes
    · exact List.append_ne_nil_of_left_ne_nil (hheader _) _
    · rw [← hsplit, List.append_assoc (leBytes 4 header)]

/-! ## Many blocks -/

/-- The declared size that is still to come after any amount of content. -/
def leftAfter (c : Content) (remaining n : Nat) : Nat :=
  if c.frameInfo.contentSize ≠ 0 then sizeSub remaining (n % SIZE_T) else remaining

theorem leftAfter_zero (hr : remaining < SIZE_T) : leftAfter c remaining 0 = remaining := by
  unfold leftAfter
  rw [Nat.zero_mod, sizeSub_zero hr, ite_self]

theorem leftAfter_add (m n : Nat) (piece : List UInt8) :
    leftAfter (c.add piece) (leftAfter c remaining m) n = leftAfter c remaining (m + n) := by
  unfold leftAfter
  rw [add_frameInfo]
  split_ifs
  · unfold sizeSub SIZE_T
    omega
  · rfl

theorem leftAfter_of_lt {n : Nat} (hn : n < SIZE_T) :
    leftAfter c remaining n = c.remainingAfter remaining n := by
  unfold leftAfter Content.remainingAfter
  rw [Nat.mod_eq_of_lt hn]

theorem leftAfter_lt (hr : remaining < SIZE_T) (n : Nat) : leftAfter c remaining n < SIZE_T := by
  unfold leftAfter
  split_ifs
  · exact sizeSub_lt _ _
  · exact hr

theorem Block.length_le {block piece : List UInt8} (h : Block adjacent c block piece) :
    piece.length ≤ c.maxBlockSize := by
  cases h with
  | compressed hne hsize hdecodes => simpa using hdecodes.length_le
  | uncompressed hsize => exact hsize

theorem Block.append_ne_nil {block piece : List UInt8} (h : Block adjacent c block piece) :
    block ≠ [] := by
  cases h <;>
    exact List.append_ne_nil_of_left_ne_nil (List.ne_nil_of_length_pos (by
      rw [length_leBytes]
      exact Nat.succ_pos 3)) _

/-- Many blocks are read. -/
theorem Blocks.feed_eq {blocks content : List UInt8} (h : Blocks adjacent c blocks content)
    (hc : c.Windowed) (hr : remaining < SIZE_T) (hsmall : c.maxBlockSize < LZ4F_BLOCKUNCOMPRESSED_FLAG)
    (rest : List UInt8) :
    feed fastLoop adjacent ⟨remaining, .blockHeader c []⟩ (blocks ++ rest) =
      (feed fastLoop adjacent ⟨leftAfter c remaining content.length, .blockHeader (c.add content) []⟩
        rest).emit content := by
  induction h generalizing remaining with
  | nil c =>
    rw [List.length_nil, leftAfter_zero hr, hc.add_nil, emit_nil, List.nil_append]
  | @cons c block blocks piece content h hs ih =>
    have hlt : piece.length < SIZE_T :=
      Nat.lt_trans (Nat.lt_of_le_of_lt h.length_le hsmall) (by decide)
    rw [List.append_assoc, h.feed_eq hc hr hsmall,
      ih (hc.add piece) (remainingAfter_lt c hr _) hsmall, emit_emit, ← leftAfter_of_lt hlt,
      leftAfter_add, add_append, List.length_append]

/-- A block more at the end. -/
theorem Blocks.snoc {blocks content block piece : List UInt8} (h : Blocks adjacent c blocks content)
    (hc : c.Windowed) (hlast : Block adjacent (c.add content) block piece) :
    Blocks adjacent c (blocks ++ block) (content ++ piece) := by
  induction h with
  | nil c =>
    rw [hc.add_nil] at hlast
    have hone := Blocks.cons hlast (Blocks.nil _)
    rwa [List.append_nil, List.append_nil] at hone
  | @cons c first blocks piece' content hfirst hs ih =>
    rw [← add_append] at hlast
    rw [List.append_assoc, List.append_assoc]
    exact Blocks.cons hfirst (ih (hc.add piece') hlast)

/-- The end of a frame is read. -/
theorem feed_frameSuffix (rest : List UInt8) :
    feed fastLoop adjacent ⟨0, .blockHeader c []⟩
        (frameSuffix c.frameInfo.contentChecksumFlag c.hashed ++ rest) = .finish 0 [] rest := by
  have hhead : (leBytes 4 0).length = 4 := length_leBytes 4 0
  have hread : leNat ((leBytes 4 0).take 4) = 0 := by decide
  rw [frameSuffix, List.append_assoc, feed_blockHeader (by
    rw [List.length_append, hhead]
    exact Nat.le_add_right _ _), List.take_left' hhead, List.drop_left' hhead,
    readBlockHeader_eq hread, if_pos rfl, suffixFrom, if_neg (not_not.2 rfl)]
  cases c.frameInfo.contentChecksumFlag with
  | false => rfl
  | true =>
    have hlen : (checksumBytes c.hashed).length = 4 := length_checksumBytes _
    simp only [Bool.true_eq_false, if_false, if_true]
    rw [Event.feed_next, feed_field (.suffix c.hashed []) 4 rfl rfl (Nat.succ_pos 3) (by
      rw [List.length_append, hlen]
      exact Nat.le_add_right _ _), List.take_left' hlen, List.drop_left' hlen]
    simp only [Field.append, List.nil_append, readField]
    rw [List.take_of_length_le (Nat.le_of_eq hlen), leNat_checksumBytes, if_neg (not_not.2 rfl)]
    rfl

/-- What was read when a frame ends behind its blocks. -/
theorem blocks_of_finish {bytes out rest : List UInt8} {remaining' : Nat} (hc : c.Windowed)
    (hr : remaining < SIZE_T) (hsmall : c.maxBlockSize < LZ4F_BLOCKUNCOMPRESSED_FLAG)
    (h : feed fastLoop adjacent ⟨remaining, .blockHeader c []⟩ bytes = .finish remaining' out rest) :
    ∃ blocks, Blocks adjacent c blocks out ∧ leftAfter c remaining out.length = 0 ∧ remaining' = 0 ∧
      bytes = blocks ++ (frameSuffix c.frameInfo.contentChecksumFlag (c.add out).hashed ++ rest) := by
  -- a block takes at least its header
  obtain ⟨n, hn⟩ : ∃ n, bytes.length ≤ n := ⟨_, Nat.le_refl _⟩
  induction n generalizing c remaining bytes out with
  | zero =>
    obtain rfl := List.eq_nil_of_length_eq_zero (Nat.le_zero.1 hn)
    cases h
  | succ n ih =>
    rcases blockHeader_of_finish hc hr h with ⟨rfl, rfl, rfl, rfl⟩ |
      ⟨block, piece, tail, out', hblock, hne, rfl, rfl, hfeed⟩
    · refine ⟨[], .nil c, ?_, rfl, ?_⟩
      · rw [List.length_nil, leftAfter_zero hr]
      · rw [hc.add_nil, List.nil_append]
    · have hpos := List.length_pos_iff.2 hne
      rw [List.length_append] at hn
      have hlt : piece.length < SIZE_T :=
        Nat.lt_trans (Nat.lt_of_le_of_lt hblock.length_le hsmall) (by decide)
      obtain ⟨blocks, hblocks, hleft, hzero, rfl⟩ :=
        ih (hc.add piece) (remainingAfter_lt c hr _) hsmall hfeed (by omega)
      refine ⟨block ++ blocks, .cons hblock hblocks, ?_, hzero, ?_⟩
      · rw [← leftAfter_of_lt hlt, leftAfter_add] at hleft
        rw [List.length_append]
        exact hleft
      · rw [add_append, List.append_assoc]
        rfl

end Blocks

/-! ## Headers -/

section Headers

variable {fastLoop adjacent : Bool} {remaining : Nat}

theorem feed_start {bytes : List UInt8} (hle : 7 ≤ bytes.length) :
    feed fastLoop adjacent (Reader.start remaining) bytes =
      (readHeader remaining 7 (bytes.take 7)).feed fastLoop adjacent (bytes.drop 7) :=
  feed_field (.header 7 []) 7 rfl rfl (by decide) hle

/-- The rest of a header of which seven bytes have been looked at. -/
theorem feed_restOfHeader {bytes : List UInt8} {n : Nat} (hlt : 7 < n) (hle : n ≤ bytes.length) :
    feed fastLoop adjacent ⟨remaining, .header n (bytes.take 7)⟩ (bytes.drop 7) =
      (readHeader remaining n (bytes.take n)).feed fastLoop adjacent (bytes.drop n) := by
  have hmissing : (Field.header n (bytes.take 7)).missing = n - 7 := by
    rw [Field.missing, List.length_take]
    omega
  have hsum : n = 7 + (n - 7) := by omega
  have htake : bytes.take 7 ++ (bytes.drop 7).take (n - 7) = bytes.take n := by
    rw [← List.take_add, ← hsum]
  have hdrop : (bytes.drop 7).drop (n - 7) = bytes.drop n := by
    rw [List.drop_drop, ← hsum]
  rw [feed_field _ (n - 7) rfl hmissing (by omega) (by rw [List.length_drop]; omega), Field.append,
    htake, hdrop, readField]

theorem readHeader_complete {got : List UInt8} {frameInfo : LZ4F_frameInfo} {contentSizeFlag : Bool}
    {n m : Nat} (h : readFrameHeader (got.take n) = .ok (.complete m frameInfo contentSizeFlag)) :
    readHeader remaining n got =
      .next ⟨if contentSizeFlag then frameInfo.contentSize else remaining,
        .blockHeader ⟨frameInfo, [], []⟩ []⟩ [] := by
  rw [readHeader, h]

/-- More is asked for when the header is longer than what is there. -/
theorem incomplete_size {src : List UInt8} {n : Nat}
    (h : readFrameHeader src = .ok (.incomplete n)) : n = frameHeaderSizeOf (flagByte src) := by
  unfold readFrameHeader at h
  simp only at h
  split_ifs at h
  · exact absurd (Except.ok.inj h) nofun
  · exact (HeaderRead.incomplete.inj (Except.ok.inj h)).symm
  · exact absurd (Except.ok.inj h) nofun

/-- A header is read. -/
theorem feed_header {header : List UInt8} {frameInfo : LZ4F_frameInfo} {contentSizeFlag : Bool}
    (h : readFrameHeader header = .ok (.complete header.length frameInfo contentSizeFlag))
    (remaining : Nat) (rest : List UInt8) :
    feed fastLoop adjacent (Reader.start remaining) (header ++ rest) =
      feed fastLoop adjacent ⟨if contentSizeFlag then frameInfo.contentSize else remaining,
        .blockHeader ⟨frameInfo, [], []⟩ []⟩ rest := by
  have hsize := (readFrameHeader_complete_iff.1 h).1.size_eq
  have hmin : 7 ≤ header.length := by
    rw [hsize]
    exact frameHeaderSizeOf_ge _
  have hlong : 7 ≤ (header ++ rest).length := by
    rw [List.length_append]
    exact Nat.le_trans hmin (Nat.le_add_right _ _)
  have hseven : (header ++ rest).take 7 = header.take 7 := List.take_append_of_le_length hmin
  have hwhole : (header ++ rest).take header.length = header := List.take_left' rfl
  have hrest : (header ++ rest).drop header.length = rest := List.drop_left' rfl
  have hread : ∀ got : List UInt8, got = header → readHeader remaining header.length got =
      .next ⟨if contentSizeFlag then frameInfo.contentSize else remaining,
        .blockHeader ⟨frameInfo, [], []⟩ []⟩ [] := by
    rintro got rfl
    apply readHeader_complete
    rw [List.take_of_length_le (Nat.le_refl _)]
    exact h
  rw [feed_start hlong]
  rcases Nat.eq_or_lt_of_le hmin with heq | hlt
  · rw [heq, hwhole, hrest, hread header rfl, Event.feed_next]
  · -- the first seven bytes ask for the rest of the header
    have hmore : readFrameHeader (header.take 7) = .ok (.incomplete header.length) := by
      rw [hsize] at hlt ⊢
      rcases @readFrameHeader_take_short header 7 (Nat.le_refl 7) hlt with hsame | hshort
      · rw [h] at hsame
        have hle := (readFrameHeader_complete_iff.1 hsame).1.size_le
        rw [List.length_take] at hle
        omega
      · exact hshort
    have hfirst : readHeader remaining 7 ((header ++ rest).take 7) =
        .next ⟨remaining, .header header.length ((header ++ rest).take 7)⟩ [] := by
      rw [hseven, readHeader, List.take_take, Nat.min_self, hmore]
    rw [hfirst, Event.feed_next, feed_restOfHeader hlt (by
      rw [List.length_append]
      exact Nat.le_add_right _ _), hwhole, hrest, hread header rfl, Event.feed_next]

/-- What is read of a header that is longer than seven bytes. -/
theorem restOfHeader_read {bytes : List UInt8} {n : Nat}
    (hfirst : readFrameHeader (bytes.take 7) = .ok (.incomplete n)) (hle : n ≤ bytes.length)
    {r : HeaderRead} (h : readFrameHeader (bytes.take n) = .ok r) :
    ∃ frameInfo contentSizeFlag, r = .complete (bytes.take n).length frameInfo contentSizeFlag := by
  have hlt := (readFrameHeader_incomplete hfirst).1
  have hn := incomplete_size hfirst
  have hseven : (bytes.take 7).length = min 7 bytes.length := List.length_take
  have hlen : (bytes.take n).length = n := by
    rw [List.length_take]
    exact Nat.min_eq_left hle
  have hge : 7 ≤ n := by
    rw [hn]
    exact frameHeaderSizeOf_ge _
  have hagain : (bytes.take n).take 7 = bytes.take 7 := by
    rw [List.take_take, Nat.min_eq_left hge]
  have hflag : flagByte (bytes.take n) = flagByte (bytes.take 7) := by
    rw [← hagain, flagByte_take (Nat.le_refl 7)]
  cases r with
  | skippable =>
    -- the first four bytes have been looked at before
    have hskip := readFrameHeader_skippable_iff.1 h
    rw [← @isSkippable_take (bytes.take n) 7 (by decide), hagain] at hskip
    rw [readFrameHeader_skippable_iff.2 hskip] at hfirst
    cases hfirst
  | incomplete m =>
    have hm := incomplete_size h
    have hshort := (readFrameHeader_incomplete h).1
    rw [hlen, hm, hflag, ← hn] at hshort
    exact absurd hshort (Nat.lt_irrefl n)
  | complete m frameInfo contentSizeFlag =>
    have hm := (readFrameHeader_complete_iff.1 h).1.size_eq
    rw [hflag, ← hn] at hm
    exact ⟨frameInfo, contentSizeFlag, by rw [hm, hlen]⟩

/-- The magic number of a skippable frame is seen with the first seven bytes. -/
theorem feed_skippable {bytes : List UInt8} (hle : 7 ≤ bytes.length) (hskip : isSkippable bytes) :
    feed fastLoop adjacent (Reader.start remaining) bytes =
      feed fastLoop adjacent ⟨remaining, .skippableSize []⟩ (bytes.drop 4) := by
  have hread : readFrameHeader ((bytes.take 7).take 7) = .ok .skippable := by
    rw [List.take_take, Nat.min_self]
    exact readFrameHeader_skippable_iff.2 ((isSkippable_take (by decide)).2 hskip)
  have hgot : ((bytes.take 7).drop 4).length = 3 := by
    rw [List.length_drop, List.length_take]
    omega
  have hgather : feed fastLoop adjacent ⟨remaining, .skippableSize []⟩ ((bytes.take 7).drop 4) =
      .next ⟨remaining, .skippableSize ((bytes.take 7).drop 4)⟩ [] :=
    feed_gathers_short rfl (Nat.lt_of_le_of_lt (Nat.le_of_eq hgot) (Nat.lt_succ_self 3))
  have hsplit : bytes.drop 4 = (bytes.take 7).drop 4 ++ bytes.drop 7 := by
    have hfour : bytes.drop 7 = (bytes.drop 4).drop 3 := by rw [List.drop_drop]
    rw [hfour, List.drop_take, List.take_append_drop]
  rw [feed_start hle, readHeader, hread, Event.feed_next, hsplit, feed_append hgather, emit_nil,
    List.take_take, Nat.min_self]

/-- What was read when a frame ends behind its header. -/
theorem header_of_finish {bytes out rest : List UInt8} {remaining' : Nat}
    (h : feed fastLoop adjacent (Reader.start remaining) bytes = .finish remaining' out rest) :
    (∃ header tail frameInfo contentSizeFlag, bytes = header ++ tail ∧
      readFrameHeader header = .ok (.complete header.length frameInfo contentSizeFlag) ∧
      feed fastLoop adjacent ⟨if contentSizeFlag then frameInfo.contentSize else remaining,
        .blockHeader ⟨frameInfo, [], []⟩ []⟩ tail = .finish remaining' out rest) ∨
    7 ≤ bytes.length ∧ isSkippable bytes ∧
      feed fastLoop adjacent ⟨remaining, .skippableSize []⟩ (bytes.drop 4) =
        .finish remaining' out rest := by
  have hle : 7 ≤ bytes.length := gathered_of_finish rfl h
  have hlen : (bytes.take 7).length = 7 := by
    rw [List.length_take]
    exact Nat.min_eq_left hle
  have hstart := @feed_start fastLoop adjacent remaining bytes hle
  rw [readHeader, List.take_take, Nat.min_self] at hstart
  cases hread : readFrameHeader (bytes.take 7) with
  | error e =>
    rw [hread, h] at hstart
    cases hstart
  | ok r =>
    cases r with
    | skippable =>
      have hskip := (isSkippable_take (by decide)).1 (readFrameHeader_skippable_iff.1 hread)
      right
      rw [feed_skippable hle hskip] at h
      exact ⟨hle, hskip, h⟩
    | incomplete n =>
      obtain ⟨hlt, -⟩ := readFrameHeader_incomplete hread
      rw [hlen] at hlt
      rw [hread] at hstart
      simp only at hstart
      rw [Event.feed_next] at hstart
      have hmore : n ≤ bytes.length := by
        have hgathered := gathered_of_finish rfl (hstart.symm.trans h)
        simp only [Field.missing, hlen, List.length_drop] at hgathered
        omega
      rw [feed_restOfHeader hlt hmore, readHeader, List.take_take, Nat.min_self] at hstart
      cases hagain : readFrameHeader (bytes.take n) with
      | error e =>
        rw [hagain, h] at hstart
        cases hstart
      | ok r =>
        obtain ⟨frameInfo, contentSizeFlag, rfl⟩ := restOfHeader_read hread hmore hagain
        rw [hagain] at hstart
        simp only at hstart
        rw [Event.feed_next] at hstart
        exact Or.inl ⟨bytes.take n, bytes.drop n, frameInfo, contentSizeFlag,
          (List.take_append_drop n bytes).symm, hagain, hstart.symm.trans h⟩
    | complete n frameInfo contentSizeFlag =>
      have hvalid := (readFrameHeader_complete_iff.1 hread).1
      have hn : n = (bytes.take 7).length := by
        apply Nat.le_antisymm hvalid.size_le
        rw [hlen, hvalid.size_eq]
        exact frameHeaderSizeOf_ge _
      rw [hread] at hstart
      simp only at hstart
      rw [Event.feed_next] at hstart
      rw [hn] at hread
      exact Or.inl ⟨bytes.take 7, bytes.drop 7, frameInfo, contentSizeFlag,
        (List.take_append_drop 7 bytes).symm, hread, hstart.symm.trans h⟩

/-! ## Frames -/

/-- A skippable frame is read. -/
theorem feed_skippableSize {bytes : List UInt8} (hle : 4 ≤ bytes.length) :
    feed fastLoop adjacent ⟨remaining, .skippableSize []⟩ bytes =
      (skipFrom remaining (leNat (bytes.take 4))).feed fastLoop adjacent (bytes.drop 4) := by
  rw [feed_field (.skippableSize []) 4 rfl rfl (Nat.succ_pos 3) hle, Field.append, List.nil_append,
    readField, List.take_take, Nat.min_self]

theorem skip_of_finish {n : Nat} {bytes out rest : List UInt8} {remaining' : Nat}
    (h : (skipFrom remaining n).feed fastLoop adjacent bytes = .finish remaining' out rest) :
    n ≤ bytes.length ∧ out = [] ∧ rest = bytes.drop n := by
  have hle : n ≤ bytes.length := by
    by_contra hlt
    have hshort := @feed_skip fastLoop adjacent remaining n bytes (by omega) []
    rw [List.append_nil, h, skipFrom, if_neg (by omega), Event.feed_next] at hshort
    cases hshort
  have hlen : (bytes.take n).length = n := by
    rw [List.length_take]
    exact Nat.min_eq_left hle
  have hskip := @feed_skip fastLoop adjacent remaining n (bytes.take n) (Nat.le_of_eq hlen)
    (bytes.drop n)
  rw [List.take_append_drop, h, hlen, Nat.sub_self, skipFrom, if_pos rfl] at hskip
  obtain ⟨-, rfl, rfl⟩ := Fed.finish.inj hskip
  exact ⟨hle, rfl, rfl⟩

/-- The sizes of the blocks a header can name. -/
theorem maxBlockSize_lt {header : List UInt8} {n : Nat} {frameInfo : LZ4F_frameInfo}
    {contentSizeFlag : Bool}
    (h : readFrameHeader header = .ok (.complete n frameInfo contentSizeFlag))
    (hashed history : List UInt8) :
    (Content.mk frameInfo hashed history).maxBlockSize < LZ4F_BLOCKUNCOMPRESSED_FLAG := by
  obtain ⟨hvalid, rfl, -⟩ := readFrameHeader_complete_iff.1 h
  have hid := hvalid.blockSizeID_ge
  have hlt : descriptorByte header / 16 % 8 < 8 := Nat.mod_lt _ (by decide)
  have hinfo : (frameInfoOf header n).blockSizeID = descriptorByte header / 16 % 8 := rfl
  rw [Content.maxBlockSize, hinfo]
  generalize descriptorByte header / 16 % 8 = k at hid hlt
  have hk : k = 4 ∨ k = 5 ∨ k = 6 ∨ k = 7 := by omega
  rcases hk with rfl | rfl | rfl | rfl <;> decide

/-- The declared size of the content. -/
theorem contentSize_spec {header : List UInt8} {n : Nat} {frameInfo : LZ4F_frameInfo}
    {contentSizeFlag : Bool}
    (h : readFrameHeader header = .ok (.complete n frameInfo contentSizeFlag)) :
    frameInfo.contentSize < SIZE_T ∧ (contentSizeFlag = false → frameInfo.contentSize = 0) := by
  obtain ⟨-, rfl, rfl⟩ := readFrameHeader_complete_iff.1 h
  constructor
  · rw [frameInfoOf]
    simp only
    split_ifs
    · have hlt := leNat_lt ((header.drop 6).take 8)
      have hpow : 256 ^ ((header.drop 6).take 8).length ≤ 256 ^ 8 :=
        Nat.pow_le_pow_right (by decide) (List.length_take_le _ _)
      exact Nat.lt_of_lt_of_le hlt hpow
    · decide
  · intro hflag
    rw [decide_eq_false_iff_not] at hflag
    exact if_neg hflag

/-- The size that is left at the end is zero just when the content has the declared size. -/
theorem leftAfter_eq_zero_iff {c : Content} {n : Nat} (hlt : c.frameInfo.contentSize < SIZE_T) :
    leftAfter c c.frameInfo.contentSize n = 0 ↔
      (c.frameInfo.contentSize ≠ 0 → n % SIZE_T = c.frameInfo.contentSize) := by
  unfold leftAfter
  split_ifs with hzero
  · unfold sizeSub SIZE_T at *
    constructor
    · intro h _
      omega
    · intro h
      have heq := h hzero
      omega
  · rw [not_not] at hzero
    exact ⟨fun _ hne => absurd hzero hne, fun _ => hzero⟩

/-- A frame is read from its first byte to its last, and no further. -/
theorem IsFrame.feed_eq {frame content : List UInt8} (h : IsFrame adjacent frame content)
    (rest : List UInt8) :
    feed fastLoop adjacent (Reader.start 0) (frame ++ rest) = .finish 0 content rest := by
  cases h with
  | @data header blocks content frameInfo contentSizeFlag hheader hblocks hsize =>
    obtain ⟨hlt, hflag⟩ := contentSize_spec hheader
    have hwindowed : (Content.mk frameInfo [] []).Windowed := Nat.zero_le _
    have hstart : (if contentSizeFlag then frameInfo.contentSize else 0) = frameInfo.contentSize := by
      cases contentSizeFlag with
      | false => exact (hflag rfl).symm
      | true => rfl
    have hend := (@leftAfter_eq_zero_iff ⟨frameInfo, [], []⟩ content.length hlt).2 hsize
    have hhashed : (if frameInfo.contentChecksumFlag then
        checksumBytes ((Content.mk frameInfo [] []).add content).hashed else []) =
        if frameInfo.contentChecksumFlag then checksumBytes content else [] := by
      simp only [Content.add, List.nil_append]
      split_ifs <;> rfl
    have hsuffix := @feed_frameSuffix fastLoop adjacent ((Content.mk frameInfo [] []).add content) rest
    rw [add_frameInfo, frameSuffix, hhashed, ← frameSuffix] at hsuffix
    rw [List.append_assoc, feed_header hheader, hstart, List.append_assoc,
      hblocks.feed_eq hwindowed hlt (maxBlockSize_lt hheader [] []), hend, hsuffix]
    simp only [Fed.emit, List.append_nil]
  | @skippable magic data hmagic hskippable hsize =>
    have hnumber : leNat (leBytes 4 data.length) = data.length := leNat_leBytes_of_lt hsize
    have hlen := length_leBytes 4 data.length
    have hskip : isSkippable (magic ++ (leBytes 4 data.length ++ data) ++ rest) := by
      rw [← isSkippable_take (Nat.le_refl 4), List.append_assoc, List.take_left' hmagic]
      exact hskippable
    rw [feed_skippable (by simp only [List.length_append, hmagic, hlen]; omega) hskip,
      List.append_assoc, List.drop_left' hmagic, List.append_assoc,
      feed_skippableSize (by simp only [List.length_append, hlen]; omega), List.take_left' hlen,
      List.drop_left' hlen, hnumber, feed_skip (Nat.le_refl _), Nat.sub_self, skipFrom, if_pos rfl]
    rfl

/-- The decoder finishes behind a frame, with its content, and behind nothing else. -/
theorem feed_finish_iff {bytes out rest : List UInt8} :
    (∃ remaining', feed fastLoop adjacent (Reader.start 0) bytes = .finish remaining' out rest) ↔
      ∃ frame, bytes = frame ++ rest ∧ IsFrame adjacent frame out := by
  constructor
  · rintro ⟨remaining', h⟩
    rcases header_of_finish h with
      ⟨header, tail, frameInfo, contentSizeFlag, rfl, hheader, hfeed⟩ | ⟨hle, hskip, hfeed⟩
    · obtain ⟨hlt, hflag⟩ := contentSize_spec hheader
      have hstart : (if contentSizeFlag then frameInfo.contentSize else 0) =
          frameInfo.contentSize := by
        cases contentSizeFlag with
        | false => exact (hflag rfl).symm
        | true => rfl
      rw [hstart] at hfeed
      obtain ⟨blocks, hblocks, hleft, -, rfl⟩ := blocks_of_finish (Nat.zero_le _) hlt
        (maxBlockSize_lt hheader [] []) hfeed
      have hhashed : frameSuffix frameInfo.contentChecksumFlag
          ((Content.mk frameInfo [] []).add out).hashed =
          frameSuffix frameInfo.contentChecksumFlag out := by
        simp only [frameSuffix, Content.add, List.nil_append]
        split_ifs <;> rfl
      refine ⟨_, ?_, .data hheader hblocks ((leftAfter_eq_zero_iff hlt).1 hleft)⟩
      rw [hhashed]
      simp only [List.append_assoc]
    · have hmagic : (bytes.take 4).length = 4 := by
        rw [List.length_take]
        omega
      have hfour : 4 ≤ (bytes.drop 4).length := gathered_of_finish rfl hfeed
      rw [feed_skippableSize hfour] at hfeed
      obtain ⟨hn, rfl, rfl⟩ := skip_of_finish hfeed
      have hdata : (((bytes.drop 4).drop 4).take (leNat ((bytes.drop 4).take 4))).length =
          leNat ((bytes.drop 4).take 4) := by
        rw [List.length_take]
        exact Nat.min_eq_left hn
      have hsmall : leNat ((bytes.drop 4).take 4) < 2 ^ 32 := by
        have hlt := leNat_lt ((bytes.drop 4).take 4)
        rwa [List.length_take, Nat.min_eq_left hfour] at hlt
      refine ⟨bytes.take 4 ++ (leBytes 4 (leNat ((bytes.drop 4).take 4)) ++
        ((bytes.drop 4).drop 4).take (leNat ((bytes.drop 4).take 4))), ?_, ?_⟩
      · rw [← take_four hfour, List.append_assoc, List.append_assoc, List.take_append_drop,
          List.take_append_drop, List.take_append_drop]
      · have hframe := @IsFrame.skippable adjacent (bytes.take 4)
          (((bytes.drop 4).drop 4).take (leNat ((bytes.drop 4).take 4))) hmagic
          ((isSkippable_take (Nat.le_refl 4)).2 hskip) (by rw [hdata]; exact hsmall)
        rwa [hdata] at hframe
  · rintro ⟨frame, rfl, h⟩
    exact ⟨0, h.feed_eq rest⟩

/-- Bytes start with one frame at most. -/
theorem IsFrame.unique {frame frame' content content' rest rest' : List UInt8}
    (h : IsFrame adjacent frame content) (h' : IsFrame adjacent frame' content')
    (hbytes : frame ++ rest = frame' ++ rest') :
    frame = frame' ∧ content = content' ∧ rest = rest' := by
  have hfeed := @IsFrame.feed_eq true adjacent frame content h rest
  rw [hbytes, h'.feed_eq] at hfeed
  obtain ⟨-, rfl, rfl⟩ := Fed.finish.inj hfeed
  exact ⟨List.append_cancel_right hbytes, rfl, rfl⟩

end Headers

end PythonLz4.Frame.FrameFormat
