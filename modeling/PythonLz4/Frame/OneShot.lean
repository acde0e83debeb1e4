import PythonLz4.Frame.ChunkRuns
import PythonLz4.Frame.FrameFormat

/-!
# `lz4.frame.decompress`

The whole of a frame in one call. `LZ4F_getFrameInfo` reads the header, the destination gets the
declared size of the content or twice the length of the data, and the loop goes on until a frame has
ended or the data is read. What is returned is the content of the frame that the data starts with,
and a part of a frame is never returned (`decompress_spec`).
-/

set_option autoImplicit false

namespace PythonLz4.Frame.OneShot

open PythonLz4.Runtime
open PythonLz4.Lib.LittleEndian
open PythonLz4.Frame.Header
open PythonLz4.Frame.DecompressionContext
open PythonLz4.Frame.AbstractDecoder (Decoder Run)
open PythonLz4.Frame.DecoderRefinement
open PythonLz4.Frame.CallBounds
open PythonLz4.Frame.BytewiseDecoder
open PythonLz4.Frame.BytewiseRefinement
open PythonLz4.Frame.DecompressChunk
open PythonLz4.Frame.Delivery
open PythonLz4.Frame.ChunkRuns
open PythonLz4.Frame.FrameFormat

/-! ## The header -/

/-- A context between the first field of a frame and the next, with nothing decoded. -/
structure Begins (context : LZ4F_dctx) (d : Decoder) (s : Reader) : Prop where
  implements : Implements context d
  sound : Sound d
  view_eq : view d = .next s []

section Headers

variable {fastLoop : Bool} {data header rest : List UInt8} {frameInfo : LZ4F_frameInfo}
  {contentSizeFlag : Bool}

theorem create_atHeader : AtHeader LZ4F_createDecompressionContext Decoder.new :=
  ⟨rfl, rfl, rfl, rfl, rfl⟩

/-- The declared size is what a new context has left of it. -/
theorem remaining_create {src : List UInt8} {n : Nat}
    (h : readFrameHeader src = .ok (.complete n frameInfo contentSizeFlag)) :
    (if contentSizeFlag then frameInfo.contentSize else 0) = frameInfo.contentSize := by
  cases contentSizeFlag with
  | false => exact ((contentSize_spec h).2 rfl).symm
  | true => rfl

/-- A new context reads the header of a data frame. -/
theorem decodeHeader_complete {src : List UInt8} {n : Nat}
    (h : readFrameHeader src = .ok (.complete n frameInfo contentSizeFlag)) :
    ∃ context d, LZ4F_decodeHeader LZ4F_createDecompressionContext src false = (context, .ok n) ∧
      context.frameInfo = frameInfo ∧
      Begins context d ⟨frameInfo.contentSize, .blockHeader ⟨frameInfo, [], []⟩ []⟩ := by
  obtain ⟨hvalid, -, -⟩ := readFrameHeader_complete_iff.1 h
  have hmin : ¬ src.length < minFHSize := by
    have hsize := hvalid.size_le
    have hge := frameHeaderSizeOf_ge (flagByte src)
    rw [hvalid.size_eq] at hsize
    exact Nat.not_lt.2 (Nat.le_trans hge hsize)
  have hrefines := decodeHeader_refines create_atHeader src src false (by rintro ⟨⟩)
  have hbounds := (decodeHeader_bounds (lz4frame_lawful true).create src false).1
  unfold LZ4F_decodeHeader Run.header at hrefines
  unfold LZ4F_decodeHeader at hbounds ⊢
  rw [if_neg hmin, if_neg hmin, h] at hrefines
  rw [if_neg hmin, h] at hbounds ⊢
  cases hrefines with
  | ok hrun =>
    have hlt := (contentSize_spec h).1
    have hremaining := remaining_create h
    refine ⟨_, _, rfl, rfl, ⟨hrun.decoder, Or.inl ⟨?_, trivial⟩, hbounds⟩, ⟨?_, trivial⟩, ?_⟩
    · show (if contentSizeFlag then frameInfo.contentSize else 0) < SIZE_T
      rwa [hremaining]
    · show (if contentSizeFlag then frameInfo.contentSize else 0) < SIZE_T
      rwa [hremaining]
    · show Event.next ⟨if contentSizeFlag then frameInfo.contentSize else 0,
        .blockHeader ⟨frameInfo, [], []⟩ []⟩ [] = _
      rw [hremaining]

/-- A new context reads the magic number of a skippable frame. -/
theorem decodeHeader_skippable {src : List UInt8} (hle : minFHSize ≤ src.length)
    (hskip : isSkippable src) :
    ∃ context d, LZ4F_decodeHeader LZ4F_createDecompressionContext src false = (context, .ok 4) ∧
      context.frameInfo.contentSize = 0 ∧ Begins context d ⟨0, .skippableSize []⟩ := by
  have hread := readFrameHeader_skippable_iff.2 hskip
  have hrefines := decodeHeader_refines create_atHeader src src false (by rintro ⟨⟩)
  have hbounds := (decodeHeader_bounds (lz4frame_lawful true).create src false).1
  unfold LZ4F_decodeHeader Run.header at hrefines
  unfold LZ4F_decodeHeader at hbounds ⊢
  rw [if_neg (Nat.not_lt.2 hle), if_neg (Nat.not_lt.2 hle), hread] at hrefines
  rw [if_neg (Nat.not_lt.2 hle), hread] at hbounds ⊢
  cases hrefines with
  | ok hrun =>
    have hsound : Sound (Decoder.mk 0 Decoder.new.bufferSize .getSFrameSize) :=
      ⟨Nat.two_pow_pos 64, trivial⟩
    exact ⟨_, _, rfl, rfl, ⟨hrun.decoder, Or.inl hsound, hbounds⟩, hsound, rfl⟩

/-- `LZ4F_getFrameInfo` on a new context decodes the header in its own bytes. -/
theorem getFrameInfo_create {hSize : Nat} (hsize : LZ4F_headerSize data = .ok hSize)
    (hle : hSize ≤ data.length) {context : LZ4F_dctx} {n : Nat}
    (h : LZ4F_decodeHeader LZ4F_createDecompressionContext (data.take hSize) false =
      (context, .ok n)) :
    LZ4F_getFrameInfo fastLoop LZ4F_createDecompressionContext data =
      (context, .ok (context.frameInfo, n)) := by
  have hstage : LZ4F_createDecompressionContext.dStage = .getFrameHeader := rfl
  simp only [LZ4F_getFrameInfo, hstage, hsize, if_neg (Nat.not_lt.2 hle), h]

theorem getFrameInfo_header
    (h : readFrameHeader header = .ok (.complete header.length frameInfo contentSizeFlag))
    (fastLoop : Bool) (rest : List UInt8) :
    ∃ context d, LZ4F_getFrameInfo fastLoop LZ4F_createDecompressionContext (header ++ rest) =
        (context, .ok (frameInfo, header.length)) ∧
      Begins context d ⟨frameInfo.contentSize, .blockHeader ⟨frameInfo, [], []⟩ []⟩ := by
  obtain ⟨hvalid, -, -⟩ := readFrameHeader_complete_iff.1 h
  have hle : header.length ≤ (header ++ rest).length := by
    rw [List.length_append]
    exact Nat.le_add_right _ _
  have hmin : minFHSize ≤ header.length := by
    rw [hvalid.size_eq]
    exact frameHeaderSizeOf_ge _
  have hfour : 4 ≤ header.length := Nat.le_trans (by decide) hmin
  have hwhole : (header ++ rest).take header.length = header := List.take_left' rfl
  have hsize : LZ4F_headerSize (header ++ rest) = .ok header.length := by
    have hskip : ¬ isSkippable (header ++ rest) := by
      rw [← isSkippable_take hfour, hwhole]
      exact hvalid.not_skippable
    have hmagic : leNat ((header ++ rest).take 4) = LZ4F_MAGICNUMBER := by
      rw [List.take_append_of_le_length hfour]
      exact hvalid.magic
    have hflag : flagByte (header ++ rest) = flagByte header := by
      rw [← flagByte_take hmin, hwhole]
    have hlong : ¬ (header ++ rest).length < LZ4F_MIN_SIZE_TO_KNOW_HEADER_LENGTH :=
      Nat.not_lt.2 (Nat.le_trans (by decide) (Nat.le_trans hmin hle))
    rw [LZ4F_headerSize, if_neg hlong, if_neg hskip, if_neg (not_not.2 hmagic), hflag,
      ← hvalid.size_eq]
  obtain ⟨context, d, hdecode, hinfo, hbegins⟩ := decodeHeader_complete h
  refine ⟨context, d, ?_, hbegins⟩
  rw [getFrameInfo_create hsize hle (by rw [hwhole]; exact hdecode), hinfo]

theorem getFrameInfo_skippable (hle : 8 ≤ data.length) (hskip : isSkippable data)
    (fastLoop : Bool) :
    ∃ context d frame_info, LZ4F_getFrameInfo fastLoop LZ4F_createDecompressionContext data =
        (context, .ok (frame_info, 4)) ∧
      frame_info.contentSize = 0 ∧ Begins context d ⟨0, .skippableSize []⟩ := by
  have hsize : LZ4F_headerSize data = .ok 8 := by
    have hlong : ¬ data.length < LZ4F_MIN_SIZE_TO_KNOW_HEADER_LENGTH :=
      Nat.not_lt.2 (Nat.le_trans (by decide) hle)
    rw [LZ4F_headerSize, if_neg hlong, if_pos hskip]
  have height : minFHSize ≤ (data.take 8).length := by
    rw [List.length_take, Nat.min_eq_left hle]
    decide
  obtain ⟨context, d, hdecode, hinfo, hbegins⟩ :=
    decodeHeader_skippable height ((isSkippable_take (by decide)).2 hskip)
  exact ⟨context, d, _, getFrameInfo_create hsize hle hdecode, hinfo, hbegins⟩

/-- What there is when `LZ4F_getFrameInfo` succeeds on a new context. -/
theorem getFrameInfo_ok {context : LZ4F_dctx} {frame_info : LZ4F_frameInfo} {n : Nat}
    (h : LZ4F_getFrameInfo fastLoop LZ4F_createDecompressionContext data =
      (context, .ok (frame_info, n))) :
    (8 ≤ data.length ∧ isSkippable data) ∨
      ∃ header rest frameInfo contentSizeFlag, data = header ++ rest ∧
        readFrameHeader header = .ok (.complete header.length frameInfo contentSizeFlag) := by
  have hstage : LZ4F_createDecompressionContext.dStage = .getFrameHeader := rfl
  simp only [LZ4F_getFrameInfo, hstage] at h
  cases hsize : LZ4F_headerSize data with
  | error e =>
    rw [hsize] at h
    cases h
  | ok hSize =>
    rw [hsize] at h
    simp only at h
    by_cases hshort : data.length < hSize
    · rw [if_pos hshort] at h
      cases h
    rw [if_neg hshort] at h
    have hlen : (data.take hSize).length = hSize := by
      rw [List.length_take]
      exact Nat.min_eq_left (Nat.not_lt.1 hshort)
    unfold LZ4F_headerSize at hsize
    split_ifs at hsize with hfive hskip hmagic
    · obtain rfl := Except.ok.inj hsize
      exact Or.inl ⟨Nat.not_lt.1 hshort, hskip⟩
    · obtain rfl := Except.ok.inj hsize
      refine Or.inr ?_
      have hmin := frameHeaderSizeOf_ge (flagByte data)
      have hflag : flagByte (data.take (frameHeaderSizeOf (flagByte data))) = flagByte data :=
        flagByte_take hmin
      cases hread : readFrameHeader (data.take (frameHeaderSizeOf (flagByte data))) with
      | error e =>
        rw [LZ4F_decodeHeader, if_neg (by rw [hlen]; exact Nat.not_lt.2 hmin), hread] at h
        cases h
      | ok r =>
        cases r with
        | skippable =>
          have hfour := Nat.le_trans (show 4 ≤ minFHSize by decide) hmin
          exact absurd ((isSkippable_take hfour).1 (readFrameHeader_skippable_iff.1 hread)) hskip
        | incomplete m =>
          have hm := incomplete_size hread
          have hlt := (readFrameHeader_incomplete hread).1
          rw [hlen, hm, hflag] at hlt
          exact absurd hlt (Nat.lt_irrefl _)
        | complete m frameInfo contentSizeFlag =>
          have hm := (readFrameHeader_complete_iff.1 hread).1.size_eq
          rw [hflag, ← hlen] at hm
          rw [hm] at hread
          exact ⟨_, _, frameInfo, contentSizeFlag, (List.take_append_drop _ data).symm, hread⟩

/-- The header is read, and the bytes behind it are decoded as the data is. -/
theorem getFrameInfo_begins {context : LZ4F_dctx} {frame_info : LZ4F_frameInfo} {n : Nat}
    (h : LZ4F_getFrameInfo fastLoop LZ4F_createDecompressionContext data =
      (context, .ok (frame_info, n))) :
    n ≤ data.length ∧ ∃ d s, Begins context d s ∧
      ∀ adjacent, feed fastLoop adjacent (Reader.start 0) data =
        feed fastLoop adjacent s (data.drop n) := by
  rcases getFrameInfo_ok h with ⟨hle, hskip⟩ | ⟨header, rest, frameInfo, flag, rfl, hheader⟩
  · obtain ⟨context', d, info, hcall, -, hbegins⟩ := getFrameInfo_skippable hle hskip fastLoop
    obtain ⟨rfl, hr⟩ := Prod.mk.inj (h.symm.trans hcall)
    obtain ⟨-, rfl⟩ := Prod.mk.inj (Except.ok.inj hr)
    exact ⟨by omega, d, _, hbegins, fun _ => feed_skippable (by omega) hskip⟩
  · obtain ⟨context', d, hcall, hbegins⟩ := getFrameInfo_header hheader fastLoop rest
    obtain ⟨rfl, hr⟩ := Prod.mk.inj (h.symm.trans hcall)
    obtain ⟨-, rfl⟩ := Prod.mk.inj (Except.ok.inj hr)
    refine ⟨by rw [List.length_append]; exact Nat.le_add_right _ _, d, _, hbegins, fun _ => ?_⟩
    rw [feed_header hheader, remaining_create hheader, List.drop_left' rfl]

/-- In front of a frame `LZ4F_getFrameInfo` succeeds. -/
theorem getFrameInfo_of_finish {adjacent : Bool} {remaining : Nat} {content tail : List UInt8}
    (h : feed fastLoop adjacent (Reader.start 0) data = .finish remaining content tail) :
    ∃ context r, LZ4F_getFrameInfo fastLoop LZ4F_createDecompressionContext data =
      (context, .ok r) := by
  obtain ⟨frame, rfl, hframe⟩ := feed_finish_iff.1 ⟨remaining, h⟩
  cases hframe with
  | data hheader =>
    rw [List.append_assoc]
    obtain ⟨context, d, hcall, -⟩ := getFrameInfo_header hheader fastLoop _
    exact ⟨context, _, hcall⟩
  | @skippable magic bytes hmagic hskippable hsize =>
    have hlen := length_leBytes 4 bytes.length
    have hskip : isSkippable (magic ++ (leBytes 4 bytes.length ++ bytes) ++ tail) := by
      rw [← isSkippable_take (Nat.le_refl 4), List.append_assoc, List.take_left' hmagic]
      exact hskippable
    obtain ⟨context, d, info, hcall, -⟩ := getFrameInfo_skippable
      (by simp only [List.length_append, hmagic, hlen]; omega) hskip fastLoop
    exact ⟨context, _, hcall⟩

/-- The size that is declared in a frame, or in a part of it, is at most that of the content. -/
theorem contentSize_le {context : LZ4F_dctx} {frame_info : LZ4F_frameInfo} {n : Nat}
    (h : LZ4F_getFrameInfo fastLoop LZ4F_createDecompressionContext data =
      (context, .ok (frame_info, n))) {adjacent : Bool} {remaining : Nat}
    {more content tail : List UInt8}
    (hframe : feed fastLoop adjacent (Reader.start 0) (data ++ more) =
      .finish remaining content tail) : frame_info.contentSize ≤ content.length := by
  rcases getFrameInfo_ok h with ⟨hle, hskip⟩ | ⟨header, rest, frameInfo, flag, rfl, hheader⟩
  · obtain ⟨_, _, info, hcall, hzero, -⟩ := getFrameInfo_skippable hle hskip fastLoop
    obtain ⟨-, hr⟩ := Prod.mk.inj (h.symm.trans hcall)
    obtain ⟨rfl, -⟩ := Prod.mk.inj (Except.ok.inj hr)
    rw [hzero]
    exact Nat.zero_le _
  · obtain ⟨_, _, hcall, -⟩ := getFrameInfo_header hheader fastLoop rest
    obtain ⟨-, hr⟩ := Prod.mk.inj (h.symm.trans hcall)
    obtain ⟨rfl, -⟩ := Prod.mk.inj (Except.ok.inj hr)
    have hlt := (contentSize_spec hheader).1
    rw [List.append_assoc, feed_header hheader, remaining_create hheader] at hframe
    obtain ⟨-, -, hleft, -⟩ := blocks_of_finish (Nat.zero_le _) hlt
      (maxBlockSize_lt hheader [] []) hframe
    have hsize := (leftAfter_eq_zero_iff hlt).1 hleft
    by_cases hzero : frame_info.contentSize = 0
    · rw [hzero]
      exact Nat.zero_le _
    · rw [← hsize hzero]
      exact Nat.mod_le _ _

end Headers

/-! ## The loop -/

section Loops

variable {fastLoop : Bool} {available : Nat → Bool} {source src taken : List UInt8} {e : Event}
  {l : Loop LZ4F_dctx} {d : Decoder} {max_length : Int}

/-- The loop goes on with a larger destination. -/
theorem reading_again {context₁ : LZ4F_dctx} {p : Progress} {d₁ : Decoder} {s : Reader}
    {pending rest : List UInt8}
    (hstopped : Stopped fastLoop e src context₁ d₁ (l.after context₁ p).destination s pending rest)
    (hdrop : source.drop (l.after context₁ p).source_cursor = rest)
    (hrest : (l.after context₁ p).source_cursor + rest.length = source.length)
    (resize_factor destination_size : Nat) :
    ∃ taken₁, Reading fastLoop source e src
      { l.after context₁ p with resize_factor, destination_size } d₁ taken₁ := by
  obtain ⟨taken₁, hsrc, hfeed⟩ := hstopped.feed_eq
  have hentry : entry fastLoop true d₁ (source.drop (l.after context₁ p).source_cursor) =
      (.next s pending, rest) := by
    rw [hdrop, entry_of_sound hstopped.sound, hstopped.view_eq]
  refine ⟨taken₁, ⟨?_, hstopped.implements, ?_, ?_⟩⟩
  · show (l.after context₁ p).source_cursor ≤ source.length
    omega
  · show src = taken₁ ++
      (entry fastLoop true d₁ (source.drop (l.after context₁ p).source_cursor)).2
    rw [hentry]
    exact hsrc
  · intro bytes
    show e.feed fastLoop true (taken₁ ++ bytes) =
      ((entry fastLoop true d₁ (source.drop (l.after context₁ p).source_cursor)).1.feed
        fastLoop true bytes).emit (l.after context₁ p).destination
    rw [hentry, Event.feed_append hfeed, ← emit_emit]
    rfl

/-- The destination after `k` resizes. There is room unless the input was read before the first
call. -/
structure Sized (source : List UInt8) (k : Nat) (l : Loop LZ4F_dctx) : Prop where
  factor_eq : l.resize_factor = 2 ^ k
  size_le : l.destination_size ≤ ADDRESS_SPACE
  written_le : l.destination.length ≤ l.destination_size
  size_ge : l.source_cursor = source.length ∨ 2 ^ (k * (k + 1) / 2) ≤ l.destination_size

variable {k : Nat}

theorem Sized.ge (h : Sized source k l) {context₁ : LZ4F_dctx} {p : Progress}
    (hle : (l.after context₁ p).source_cursor ≤ source.length)
    (hused : (l.after context₁ p).source_cursor ≠ source.length) :
    2 ^ (k * (k + 1) / 2) ≤ l.destination_size := by
  refine h.size_ge.resolve_left ?_
  intro hall
  have hcursor : (l.after context₁ p).source_cursor = l.source_cursor + p.srcSize := rfl
  omega

/-- A resize multiplies the size by 1024 at most. -/
theorem Sized.grown_le (h : Sized source k l)
    (hge : 2 ^ (k * (k + 1) / 2) ≤ l.destination_size) :
    l.destination_size * (l.resize_factor * 2) % SIZE_T ≤ 1024 * l.destination_size := by
  have hk := resizes_le hge h.size_le
  have hpow : 2 ^ (k + 1) ≤ 2 ^ 10 := Nat.pow_le_pow_right (by decide) (by omega)
  rw [h.factor_eq, resize_eq hge h.size_le, Nat.mul_comm 1024]
  exact Nat.mul_le_mul_left _ hpow

theorem Sized.again (h : Sized source k l) {context₁ : LZ4F_dctx} {p : Progress}
    (hge : 2 ^ (k * (k + 1) / 2) ≤ l.destination_size)
    (hfull : (l.after context₁ p).destination.length = l.destination_size)
    (halloc : allocates available (l.destination_size * (l.resize_factor * 2) % SIZE_T)) :
    Sized source (k + 1) { l.after context₁ p with
      resize_factor := l.resize_factor * 2
      destination_size := l.destination_size * (l.resize_factor * 2) % SIZE_T } := by
  have hgrown : l.destination_size * (l.resize_factor * 2) % SIZE_T =
      l.destination_size * 2 ^ (k + 1) := by
    rw [h.factor_eq, resize_eq hge h.size_le]
  refine ⟨?_, halloc.1, ?_, Or.inr ?_⟩
  · show l.resize_factor * 2 = 2 ^ (k + 1)
    rw [h.factor_eq, Nat.pow_succ]
  · show (l.after context₁ p).destination.length ≤
      l.destination_size * (l.resize_factor * 2) % SIZE_T
    rw [hgrown, hfull]
    exact Nat.le_mul_of_pos_right _ (Nat.two_pow_pos _)
  · show 2 ^ ((k + 1) * (k + 1 + 1) / 2) ≤
      l.destination_size * (l.resize_factor * 2) % SIZE_T
    rw [hgrown, triangular_succ, Nat.pow_add]
    exact Nat.mul_le_mul_right _ hge

/-- How the loop is left: behind a frame, or in the middle of one with the input read. -/
theorem decompressLoop_left {fuel : Nat} {context' : LZ4F_dctx} {r : LoopEnd}
    (hmax : max_length < 0) (hl : Reading fastLoop source e src l d taken)
    (hsized : Sized source k l)
    (h : decompressLoop (lz4frame fastLoop) available source max_length fuel l =
      some (context', .ok r)) :
    (r.result = 0 ∧ ∃ d' rest, Finished fastLoop e src context' d' r.destination rest ∧
      r.source_cursor + rest.length = source.length) ∨
    (0 < r.result ∧ ∃ s out, e.feed fastLoop true src = .next s out) := by
  induction fuel generalizing k l d taken with
  | zero => cases h
  | succ fuel ih =>
    obtain ⟨context₁, p, hcall, hcases⟩ := decompressLoop_ok h
    rcases hcases with ⟨hhint, rfl, rfl⟩ | ⟨hhint, -, rfl, hused | hneg⟩ |
      ⟨hhint, hused, hfull, -, halloc, hnext⟩ | ⟨hhint, hused, hfull⟩
    · obtain ⟨d₁, rest, hfinished, hcursor⟩ := hl.finish hcall hhint
      exact Or.inl ⟨hhint, d₁, rest, hfinished, hcursor⟩
    · obtain ⟨d₁, s, pending, rest, hstopped, -, hrest, -⟩ := hl.call hcall hhint
      have hnil : rest = [] := List.eq_nil_of_length_eq_zero (by omega)
      obtain ⟨taken₁, hsrc, hfeed⟩ := hstopped.feed_eq
      rw [hnil, List.append_nil] at hsrc
      rw [← hsrc] at hfeed
      exact Or.inr ⟨Nat.pos_of_ne_zero hhint, s, _, hfeed⟩
    · exact absurd hneg (Int.not_le.2 hmax)
    · obtain ⟨d₁, s, pending, rest, hstopped, hdrop, hrest, -⟩ := hl.call hcall hhint
      obtain ⟨taken₁, hnew⟩ := reading_again hstopped hdrop hrest (l.resize_factor * 2)
        (l.destination_size * (l.resize_factor * 2) % SIZE_T)
      have hge := hsized.ge (by omega) hused
      exact ih hnew (hsized.again hge hfull halloc) hnext
    · exact absurd
        (after_full hl.implements.bounds hsized.written_le hl.cursor_le hcall hhint hused) hfull

/-- What the loop raises. -/
theorem decompressLoop_exc {fuel : Nat} {context' : LZ4F_dctx} {err : PyErr}
    (h : decompressLoop (lz4frame fastLoop) available source max_length fuel l =
      some (context', .error err)) : err.exc = .RuntimeError := by
  induction fuel generalizing l with
  | zero => cases h
  | succ fuel ih =>
    rw [decompressLoop] at h
    generalize (lz4frame fastLoop).decompress l.context (l.destination_size - l.destination.length)
      (source.drop l.source_cursor) = q at h
    obtain ⟨context₁, e | p⟩ := q
    · cases h
      rfl
    · dsimp only at h
      split_ifs at h with hend hused hfull hmax halloc
      · cases h
      · cases h
      · cases h
      · exact ih h
      · cases h
        rfl
      · exact ih h

/-- The bytes that are written are the start of the content. -/
theorem destination_le {context' : LZ4F_dctx} {destination pending rest : List UInt8}
    {s : Reader} (h : Stopped fastLoop e src context' d destination s pending rest) {remaining : Nat}
    {content tail : List UInt8}
    (hframe : e.feed fastLoop true src = .finish remaining content tail) :
    destination.length ≤ content.length := by
  obtain ⟨taken, rfl, hfeed⟩ := h.feed_eq
  rw [Event.feed_append hfeed] at hframe
  obtain ⟨out, -, rfl⟩ := emit_eq_finish hframe
  rw [List.append_assoc, List.length_append]
  exact Nat.le_add_right _ _

/-- In front of a frame the loop fails only when there is no memory for 1024 times its content. -/
theorem decompressLoop_memory {fuel : Nat} {context' : LZ4F_dctx} {err : PyErr} {s₀ s : Reader}
    {pending : List UInt8} {remaining : Nat} {content tail : List UInt8}
    (hl : Reading fastLoop source (.next s₀ []) src l d taken) (hsized : Sized source k l)
    (hreadable : Readable fastLoop l.context (source.drop l.source_cursor) d s pending)
    (hframe : feed fastLoop false s₀ src = .finish remaining content tail)
    (h : decompressLoop (lz4frame fastLoop) available source max_length fuel l =
      some (context', .error err)) :
    ∃ size, size ≤ 1024 * content.length ∧ ¬ allocates available size := by
  induction fuel generalizing k l d taken s pending with
  | zero => cases h
  | succ fuel ih =>
    obtain ⟨context₁, p, hcall, -⟩ := hreadable.call (l.destination_size - l.destination.length)
    rw [decompressLoop] at h
    dsimp only [lz4frame] at h
    rw [hcall] at h
    dsimp only at h
    by_cases hhint : p.nextSrcSizeHint = 0
    · rw [if_pos hhint] at h
      cases h
    rw [if_neg hhint] at h
    by_cases hused : (l.after context₁ p).source_cursor = source.length
    · rw [if_pos (show l.source_cursor + p.srcSize = _ from hused)] at h
      cases h
    rw [if_neg (show ¬ l.source_cursor + p.srcSize = _ from hused)] at h
    have hfull := after_full hl.implements.bounds hsized.written_le hl.cursor_le hcall hhint hused
    rw [if_pos (show (l.destination ++ p.dst).length = _ from hfull)] at h
    obtain ⟨d₁, s₁, pending₁, rest, hstopped, hdrop, hrest, -⟩ := hl.call hcall hhint
    have hge := hsized.ge (by omega) hused
    split_ifs at h with hmax halloc
    · cases h
    · obtain ⟨taken₁, hnew⟩ := reading_again hstopped hdrop hrest (l.resize_factor * 2)
        (l.destination_size * (l.resize_factor * 2) % SIZE_T)
      have hreadable₁ : Readable fastLoop context₁ rest d₁ s₁ pending₁ := by
        obtain ⟨given, rfl, hfeed⟩ := hstopped.feed_eq
        refine readable_of_stopped ⟨hstopped.implements, hstopped.sound, hstopped.flushes,
          hstopped.view_eq, given, (List.append_nil given).symm, hfeed⟩ ?_
        rw [hframe]
        rintro ⟨⟩
      rw [← hdrop] at hreadable₁
      exact ih hnew (hsized.again hge hfull halloc) hreadable₁ h
    · have hle := destination_le hstopped (feed_finish_adjacent hframe)
      rw [hfull] at hle
      exact ⟨_, Nat.le_trans (hsized.grown_le hge) (Nat.mul_le_mul_left _ hle), halloc⟩

end Loops

/-! ## The call -/

section Call

variable {fastLoop : Bool} {available : Nat → Bool} {data : List UInt8} {context : LZ4F_dctx}
  {d : Decoder} {s : Reader} {n size : Nat}

/-- The loop starts behind the header. -/
theorem Begins.reading (h : Begins context d s) (hle : n ≤ data.length) :
    Reading fastLoop data (.next s []) (data.drop n) ⟨context, n, [], size, 1, [n]⟩ d [] := by
  have hentry : entry fastLoop true d (data.drop n) = (.next s [], data.drop n) := by
    rw [entry_of_sound h.sound, h.view_eq]
  refine ⟨hle, h.implements, ?_, fun bytes => ?_⟩
  · rw [hentry]
    rfl
  · rw [hentry, emit_nil]
    rfl

theorem Begins.readable (h : Begins context d s)
    (hfeeds : feed fastLoop false s (data.drop n) ≠ .fail) :
    Readable fastLoop context (data.drop n) d s [] :=
  ⟨h.implements, h.sound, h.view_eq, hfeeds⟩

/-- The destination that is allocated first. -/
def firstSize (frame_info : LZ4F_frameInfo) (data : List UInt8) (n : Nat) : Nat :=
  if 0 < frame_info.contentSize then frame_info.contentSize else 2 * (data.length - n)

theorem sized_start {frame_info : LZ4F_frameInfo} (hle : n ≤ data.length)
    (halloc : allocates available (firstSize frame_info data n)) (context : LZ4F_dctx) :
    Sized data 0 ⟨context, n, [], firstSize frame_info data n, 1, [n]⟩ := by
  refine ⟨rfl, halloc.1, Nat.zero_le _, ?_⟩
  show n = data.length ∨ 1 ≤ firstSize frame_info data n
  unfold firstSize
  split_ifs <;> omega

theorem firstSize_le {frame_info : LZ4F_frameInfo} {content : List UInt8}
    (h : frame_info.contentSize ≤ content.length) :
    firstSize frame_info data n ≤ max (2 * data.length) (1024 * content.length) := by
  unfold firstSize
  split_ifs <;> omega

theorem finished_feed {e : Event} {src destination rest : List UInt8} {context' : LZ4F_dctx}
    {d' : Decoder} (h : Finished fastLoop e src context' d' destination rest) :
    e.feed fastLoop true src = .finish d'.remaining destination rest := by
  obtain ⟨taken, hsrc, hfeed⟩ := h.feed_eq
  have hall := Event.feed_finish_append hfeed rest
  rwa [← hsrc, List.nil_append] at hall

/-- A loop behind the header that finds the end of a frame. -/
theorem frame_of_finished (hsame : ∀ adjacent, feed fastLoop adjacent (Reader.start 0) data =
      feed fastLoop adjacent s (data.drop n)) {context' : LZ4F_dctx} {d' : Decoder}
    {destination rest : List UInt8}
    (h : Finished fastLoop (.next s []) (data.drop n) context' d' destination rest) :
    ∃ frame, data = frame ++ rest ∧ IsFrame true frame destination := by
  have hframe : feed fastLoop true (Reader.start 0) data =
      .finish d'.remaining destination rest := by
    rw [hsame, ← emit_nil (feed fastLoop true s _)]
    exact finished_feed h
  exact feed_finish_iff.1 ⟨_, hframe⟩

/-- A call goes on behind the header, or has found none. -/
theorem decompress_cases {r : LZ4F_dctx × Except PyErr LoopEnd}
    (h : __decompress (lz4frame fastLoop) available LZ4F_createDecompressionContext data (-1) true =
      some r) :
    (∃ err, r.2 = .error err ∧ err.exc = .RuntimeError ∧
      ∀ context q, LZ4F_getFrameInfo fastLoop LZ4F_createDecompressionContext data ≠
        (context, .ok q)) ∨
    ∃ context frame_info n, LZ4F_getFrameInfo fastLoop LZ4F_createDecompressionContext data =
        (context, .ok (frame_info, n)) ∧
      decompressFrom (lz4frame fastLoop) available data (-1) true context n
        (firstSize frame_info data n) [n] = some r := by
  unfold __decompress at h
  rw [if_pos rfl] at h
  dsimp only [lz4frame] at h
  cases hinfo : LZ4F_getFrameInfo fastLoop LZ4F_createDecompressionContext data with
  | mk context q =>
    rw [hinfo] at h
    cases q with
    | error err =>
      cases h
      refine Or.inl ⟨_, rfl, rfl, fun _ _ hok => ?_⟩
      cases hok
    | ok q => exact Or.inr ⟨context, q.1, q.2, rfl, h⟩

/-- What a call that returns has read and made of it. -/
theorem decompress_returned {context' : LZ4F_dctx} {e : LoopEnd}
    (h : __decompress (lz4frame fastLoop) available LZ4F_createDecompressionContext data (-1) true =
      some (context', .ok e)) :
    ∃ frame tail, data = frame ++ tail ∧ IsFrame true frame e.destination ∧
      e.source_cursor = frame.length := by
  rcases decompress_cases h with ⟨err, herr, -⟩ | ⟨context, frame_info, n, hinfo, hfrom⟩
  · cases herr
  obtain ⟨hle, d, s, hbegins, hsame⟩ := getFrameInfo_begins hinfo
  obtain ⟨halloc, hloop, hresult⟩ := decompressFrom_ok hfrom
  rcases decompressLoop_left (by decide) (hbegins.reading hle) (sized_start hle halloc context)
    hloop with ⟨-, d', rest, hfinished, hcursor⟩ | ⟨hmore, -⟩
  · obtain ⟨frame, hdata, hframe⟩ := frame_of_finished hsame hfinished
    refine ⟨frame, rest, hdata, hframe, ?_⟩
    rw [hdata, List.length_append] at hcursor
    omega
  · rw [hresult rfl] at hmore
    exact absurd hmore (Nat.lt_irrefl 0)

/-- How a call fails behind the header. -/
theorem decompressFrom_raised {context' : LZ4F_dctx} {err : PyErr}
    (h : decompressFrom (lz4frame fastLoop) available data (-1) true context n size [n] =
      some (context', .error err)) :
    (¬ allocates available size ∧ err = PyErr_NoMemory) ∨
    allocates available size ∧ ∃ q,
      decompressLoop (lz4frame fastLoop) available data (-1) loopFuel ⟨context, n, [], size, 1, [n]⟩ =
        some (context', q) ∧
      (q = .error err ∨ ∃ e, q = .ok e ∧ ((0 < e.result ∧ err.exc = .RuntimeError) ∨
        (e.result = 0 ∧ ¬ allocates available e.destination.length ∧ err = PyErr_NoMemory))) := by
  unfold decompressFrom at h
  by_cases halloc : allocates available size
  · rw [if_pos halloc] at h
    refine Or.inr ⟨halloc, ?_⟩
    generalize decompressLoop (lz4frame fastLoop) available data (-1) loopFuel
      ⟨context, n, [], size, 1, [n]⟩ = q at h ⊢
    rcases q with _ | ⟨context₀, err₀ | e⟩
    · cases h
    · cases h
      exact ⟨_, rfl, Or.inl rfl⟩
    · dsimp only at h
      by_cases hmore : 0 < e.result
      · rw [if_pos ⟨rfl, hmore⟩] at h
        cases h
        exact ⟨_, rfl, Or.inr ⟨e, rfl, Or.inl ⟨hmore, rfl⟩⟩⟩
      · rw [if_neg fun hframe => hmore hframe.2] at h
        split_ifs at h with hsize
        · cases h
        · cases h
          exact ⟨_, rfl, Or.inr ⟨e, rfl, Or.inr ⟨Nat.eq_zero_of_not_pos hmore, hsize, rfl⟩⟩⟩
  · rw [if_neg halloc] at h
    cases h
    exact Or.inl ⟨halloc, rfl⟩

/-- In front of a frame a call fails only for want of memory. -/
theorem decompress_raised {context' : LZ4F_dctx} {err : PyErr} {remaining : Nat}
    {content tail : List UInt8}
    (hframe : feed fastLoop false (Reader.start 0) data = .finish remaining content tail)
    (h : __decompress (lz4frame fastLoop) available LZ4F_createDecompressionContext data (-1) true =
      some (context', .error err)) :
    OutOfMemory err ∧ ∃ size, size ≤ max (2 * data.length) (1024 * content.length) ∧
      ¬ allocates available size := by
  rcases decompress_cases h with ⟨_, -, -, hnone⟩ | ⟨context, frame_info, n, hinfo, hfrom⟩
  · obtain ⟨context, q, hinfo⟩ := getFrameInfo_of_finish hframe
    exact absurd hinfo (hnone context q)
  obtain ⟨hle, d, s, hbegins, hsame⟩ := getFrameInfo_begins hinfo
  have hcontent : frame_info.contentSize ≤ content.length :=
    contentSize_le hinfo (show feed fastLoop false (Reader.start 0) (data ++ []) = _ by
      rw [List.append_nil]
      exact hframe)
  rw [hsame] at hframe
  have hreadable := hbegins.readable (show feed fastLoop false s (data.drop n) ≠ .fail by
    rw [hframe]
    rintro ⟨⟩)
  rcases decompressFrom_raised hfrom with ⟨hnone, rfl⟩ | ⟨halloc, q, hloop, rfl | ⟨e, rfl, hcases⟩⟩
  · exact ⟨Or.inl rfl, _, firstSize_le hcontent, hnone⟩
  · obtain ⟨size, hsize, hnone⟩ := decompressLoop_memory (hbegins.reading hle)
      (sized_start hle halloc context) hreadable hframe hloop
    exact ⟨decompressLoop_error ⟨d, s, [], hreadable⟩ hloop, size, by omega, hnone⟩
  · rcases decompressLoop_left (by decide) (hbegins.reading hle) (sized_start hle halloc context)
      hloop with ⟨hzero, d', rest, hfinished, -⟩ | ⟨hmore, s', out, hfeed⟩
    · rcases hcases with ⟨hmore, -⟩ | ⟨-, hnone, rfl⟩
      · rw [hzero] at hmore
        exact absurd hmore (Nat.lt_irrefl 0)
      · have hsize := (finished_feed hfinished).symm.trans (feed_finish_adjacent hframe)
        obtain ⟨-, rfl, -⟩ := Fed.finish.inj hsize
        exact ⟨Or.inl rfl, _, by omega, hnone⟩
    · rw [feed_finish_adjacent hframe] at hfeed
      cases hfeed

/-- In front of a part of a frame a call fails, with a `RuntimeError` if there is memory. -/
theorem decompress_part {r : LZ4F_dctx × Except PyErr LoopEnd} {content more : List UInt8}
    (hframe : IsFrame true (data ++ more) content) (hmore : more ≠ [])
    (h : __decompress (lz4frame fastLoop) available LZ4F_createDecompressionContext data (-1) true =
      some r) :
    ∃ err, r.2 = .error err ∧ (err.exc = .RuntimeError ∨
      ∃ size, size ≤ max (2 * data.length) (1024 * content.length) ∧
        ¬ allocates available size) := by
  -- no frame lies in the part
  have hpart : ∀ frame tail content', data = frame ++ tail → ¬ IsFrame true frame content' := by
    rintro frame tail content' rfl hframe'
    have hunique := hframe'.unique hframe
      (show frame ++ (tail ++ more) = frame ++ tail ++ more ++ [] by
        rw [List.append_nil, List.append_assoc])
    exact hmore (List.append_eq_nil_iff.1 hunique.2.2).2
  obtain ⟨context', q⟩ := r
  cases q with
  | ok e =>
    obtain ⟨frame, tail, hdata, hframe', -⟩ := decompress_returned h
    exact absurd hframe' (hpart frame tail _ hdata)
  | error err =>
    refine ⟨err, rfl, ?_⟩
    rcases decompress_cases h with ⟨err', herr, hexc, -⟩ | ⟨context, frame_info, n, hinfo, hfrom⟩
    · cases herr
      exact Or.inl hexc
    obtain ⟨hle, d, s, hbegins, hsame⟩ := getFrameInfo_begins hinfo
    have hcontent : frame_info.contentSize ≤ content.length := by
      have hfeed := @IsFrame.feed_eq fastLoop true _ _ hframe []
      rw [List.append_nil] at hfeed
      exact contentSize_le hinfo hfeed
    rcases decompressFrom_raised hfrom with ⟨hnone, -⟩ | ⟨halloc, q, hloop, rfl | ⟨e, rfl, hcases⟩⟩
    · exact Or.inr ⟨_, firstSize_le hcontent, hnone⟩
    · exact Or.inl (decompressLoop_exc hloop)
    · rcases hcases with ⟨-, hexc⟩ | ⟨hzero, -, -⟩
      · exact Or.inl hexc
      · rcases decompressLoop_left (by decide) (hbegins.reading hle)
          (sized_start hle halloc context) hloop with ⟨-, d', rest, hfinished, -⟩ | ⟨hpos, -⟩
        · obtain ⟨frame, hdata, hframe'⟩ := frame_of_finished hsame hfinished
          exact absurd hframe' (hpart frame rest _ hdata)
        · rw [hzero] at hpos
          exact absurd hpos (Nat.lt_irrefl 0)

end Call

end PythonLz4.Frame.OneShot
