import PythonLz4.Frame.HistoryRefinement

/-!
# `LZ4F_decompress` implements the decoder

`DecoderRefines` relates a decompression context to a decoder: the fields that are live in the stage
of the context are those of the decoder, and the dictionary holds its history. Every iteration of
`LZ4F_decompress` keeps the relation and ends as the iteration of the decoder does, so a whole call
does (`LZ4F_decompress_refines`), whatever stage the context was left in.
-/

set_option autoImplicit false

namespace PythonLz4.Frame.DecoderRefinement

open PythonLz4.Lib.HistoryWindow
open PythonLz4.Lib.LittleEndian
open PythonLz4.Lib.ByteMemory
open PythonLz4.Block.DecompressGeneric
open PythonLz4.Frame.XXHash
open PythonLz4.Frame.Header
open PythonLz4.Frame.DecompressionContext
open PythonLz4.Frame.AbstractDecoder (Site History Body BlockPhase Phase Decoder Run minBufferSize)
open PythonLz4.Frame.HistoryRefinement

/-! ## The relation -/

/-- What is fixed by the header and what has been decoded. -/
structure BodyRefines (dctx : LZ4F_dctx) (dst : List UInt8) (b : Body) : Prop where
  frameInfo_eq : dctx.frameInfo = b.frameInfo
  maxBlockSize_eq : dctx.maxBlockSize = b.maxBlockSize
  hashed_eq : b.frameInfo.contentChecksumFlag = true → dctx.xxh = b.hashed
  linked_buffer : b.linked → minBufferSize ≤ dctx.maxBufferSize
  unlinked_history : ¬ b.linked → b.history = .empty
  place : PlaceRefines dctx dst b.history

/-- The live fields of a context between the header of a data frame and its suffix. -/
def BlockRefines (dctx : LZ4F_dctx) (dst : List UInt8) (b : Body) : BlockPhase → Prop
  | .getBlockHeader => dctx.dStage = .getBlockHeader
  | .storeBlockHeader got => dctx.dStage = .storeBlockHeader ∧ load dctx.tmpIn 0 dctx.tmpInSize = got
  | .copyDirect target summed =>
    dctx.dStage = .copyDirect ∧ dctx.tmpInTarget = target ∧
      (b.frameInfo.blockChecksumFlag = true → dctx.blockChecksum = summed)
  | .getBlockChecksum summed got =>
    dctx.dStage = .getBlockChecksum ∧ dctx.blockChecksum = summed ∧
      load dctx.header 0 dctx.tmpInSize = got
  | .getCBlock target => dctx.dStage = .getCBlock ∧ dctx.tmpInTarget = target
  | .storeCBlock target got =>
    dctx.dStage = .storeCBlock ∧ dctx.tmpInTarget = target ∧
      load dctx.tmpIn 0 dctx.tmpInSize = got
  | .flushOut start pending =>
    dctx.dStage = .flushOut ∧ PendingHeld dctx start pending ∧
      (b.linked → ∃ before, FlushHeld dctx dst b.history before start pending)

/-- The dictionary of linked blocks, when no block waits in `tmpOut`. -/
def HistoryRefines (dctx : LZ4F_dctx) (dst : List UInt8) (b : Body) : BlockPhase → Prop
  | .flushOut _ _ => True
  | _ => b.linked → ∃ full, HistoryHeld dctx dst b.history full

/-- The live fields of a context. -/
def PhaseRefines (dctx : LZ4F_dctx) (dst : List UInt8) : Phase → Prop
  | .getFrameHeader => dctx.dStage = .getFrameHeader ∧ dctx.dict = .null ∧ dctx.dictSize = 0
  | .storeFrameHeader target got =>
    dctx.dStage = .storeFrameHeader ∧ dctx.dict = .null ∧ dctx.dictSize = 0 ∧ dst = [] ∧
      dctx.tmpInTarget = target ∧ load dctx.header 0 dctx.tmpInSize = got
  | .init frameInfo =>
    dctx.dStage = .init ∧ dctx.dict = .null ∧ dctx.dictSize = 0 ∧ dst = [] ∧
      dctx.frameInfo = frameInfo ∧ dctx.maxBlockSize = LZ4F_getBlockSize frameInfo.blockSizeID ∧
      KB64 ≤ LZ4F_getBlockSize frameInfo.blockSizeID
  | .block b p => BodyRefines dctx dst b ∧ BlockRefines dctx dst b p ∧ HistoryRefines dctx dst b p
  | .getSuffix contentChecksumFlag hashed =>
    dctx.dStage = .getSuffix ∧ dctx.frameInfo.contentChecksumFlag = contentChecksumFlag ∧
      (contentChecksumFlag = true → dctx.xxh = hashed)
  | .storeSuffix hashed got =>
    dctx.dStage = .storeSuffix ∧ dctx.xxh = hashed ∧ load dctx.tmpIn 0 dctx.tmpInSize = got
  | .getSFrameSize =>
    dctx.dStage = .getSFrameSize ∧ dctx.dict = .null ∧ dctx.dictSize = 0
  | .storeSFrameSize got =>
    dctx.dStage = .storeSFrameSize ∧ dctx.dict = .null ∧ dctx.dictSize = 0 ∧
      dctx.tmpInTarget = 8 ∧ dctx.tmpInSize = 4 + got.length ∧
      load dctx.header 4 got.length = got
  | .skipSkippable target =>
    dctx.dStage = .skipSkippable ∧ dctx.dict = .null ∧ dctx.dictSize = 0 ∧
      dctx.tmpInTarget = target

/-- `dctx` is a state of the decoder `d`, with `dst` the output of the running call. -/
structure DecoderRefines (dctx : LZ4F_dctx) (dst : List UInt8) (d : Decoder) : Prop where
  remaining_eq : dctx.frameRemainingSize = d.remaining
  bufferSize_eq : max dctx.maxBufferSize minBufferSize = d.bufferSize
  skipChecksum_eq : dctx.skipChecksum = false
  phase : PhaseRefines dctx dst d.phase

/-- The state of a running call: no frame starts behind output. -/
structure RunRefines (c : Call) (r : Run) : Prop where
  src_eq : c.src = r.src
  dst_eq : c.dst = r.dst
  decoder : DecoderRefines c.dctx c.dst r.decoder
  start : r.decoder.phase = .getFrameHeader → c.dst = []

/-- The state when a call stops. -/
structure StopRefines (c : Call) (r : Run) : Prop where
  src_eq : c.src = r.src
  dst_eq : c.dst = r.dst
  decoder : DecoderRefines c.dctx c.dst r.decoder

/-- The state when a call fails. -/
structure FailRefines (c : Call) (r : Run) : Prop where
  decoder : DecoderRefines (leaveDestination c.dctx c.dst) []
    { r.decoder with phase := r.decoder.phase.abandon }

inductive IterationRefines : Iteration Call → Iteration Run → Prop where
  | again {c : Call} {r : Run} (h : RunRefines c r) : IterationRefines (.again c) (.again r)
  | stop {c : Call} {r : Run} {hint : Nat} (h : StopRefines c r) :
      IterationRefines (.stop c hint) (.stop r hint)
  | fail {c : Call} {r : Run} {e : LZ4F_errorCode} (h : FailRefines c r) :
      IterationRefines (.fail c e) (.fail r e)

/-- Both sides take the same branch. -/
theorem IterationRefines.ite {p q : Prop} [Decidable p] [Decidable q]
    {x x' : Iteration Call} {y y' : Iteration Run} (h : p ↔ q) (hpos : p → IterationRefines x y)
    (hneg : ¬ p → IterationRefines x' y') :
    IterationRefines (if p then x else x') (if q then y else y') := by
  by_cases hp : p
  · rw [if_pos hp, if_pos (h.1 hp)]
    exact hpos hp
  · rw [if_neg hp, if_neg fun hq => hp (h.2 hq)]
    exact hneg hp

/-- A phase that is not the start of a frame. -/
theorem RunRefines.of_phase {c : Call} {r : Run} (hsrc : c.src = r.src) (hdst : c.dst = r.dst)
    (hd : DecoderRefines c.dctx c.dst r.decoder) (hp : r.decoder.phase ≠ .getFrameHeader) :
    RunRefines c r := ⟨hsrc, hdst, hd, fun h => absurd h hp⟩

/-! ## Inside a data frame -/

/-- The part of the relation that is the same in all stages of a data frame in which no block waits
in `tmpOut`. -/
structure InFrame (dctx : LZ4F_dctx) (dst : List UInt8) (d : Decoder) (b : Body) : Prop where
  remaining_eq : dctx.frameRemainingSize = d.remaining
  bufferSize_eq : max dctx.maxBufferSize minBufferSize = d.bufferSize
  skipChecksum_eq : dctx.skipChecksum = false
  body : BodyRefines dctx dst b
  history : b.linked → ∃ full, HistoryHeld dctx dst b.history full

/-- The stages in which no block waits in `tmpOut`. -/
def isFlush : BlockPhase → Bool
  | .flushOut _ _ => true
  | _ => false

theorem HistoryRefines.iff {dctx : LZ4F_dctx} {dst : List UInt8} {b : Body} {p : BlockPhase}
    (hp : isFlush p = false) :
    HistoryRefines dctx dst b p ↔ (b.linked → ∃ full, HistoryHeld dctx dst b.history full) := by
  cases p with
  | flushOut start pending => exact absurd hp nofun
  | _ => exact Iff.rfl

theorem DecoderRefines.inFrame {dctx : LZ4F_dctx} {dst : List UInt8} {d : Decoder} {b : Body}
    {p : BlockPhase} (h : DecoderRefines dctx dst d) (hphase : d.phase = .block b p)
    (hp : isFlush p = false) : InFrame dctx dst d b ∧ BlockRefines dctx dst b p := by
  have hd := h.phase
  rw [hphase] at hd
  obtain ⟨hbody, hblock, hhistory⟩ := hd
  exact ⟨⟨h.remaining_eq, h.bufferSize_eq, h.skipChecksum_eq, hbody,
    (HistoryRefines.iff hp).1 hhistory⟩, hblock⟩

theorem InFrame.decoder {dctx : LZ4F_dctx} {dst : List UInt8} {d a : Decoder} {b : Body}
    {p : BlockPhase} (h : InFrame dctx dst d b) (hp : isFlush p = false)
    (hblock : BlockRefines dctx dst b p) (hremaining : a.remaining = d.remaining)
    (hbuffer : a.bufferSize = d.bufferSize) (hphase : a.phase = .block b p) :
    DecoderRefines dctx dst a where
  remaining_eq := h.remaining_eq.trans hremaining.symm
  bufferSize_eq := h.bufferSize_eq.trans hbuffer.symm
  skipChecksum_eq := h.skipChecksum_eq
  phase := by
    rw [hphase]
    exact ⟨h.body, hblock, (HistoryRefines.iff hp).2 h.history⟩

/-- The fields of a context that matter in every stage of a data frame stay. -/
structure Keeps (d d' : LZ4F_dctx) : Prop where
  frameInfo : d'.frameInfo = d.frameInfo
  frameRemainingSize : d'.frameRemainingSize = d.frameRemainingSize
  maxBlockSize : d'.maxBlockSize = d.maxBlockSize
  maxBufferSize : d'.maxBufferSize = d.maxBufferSize
  tmpOutBuffer : d'.tmpOutBuffer = d.tmpOutBuffer
  dict : d'.dict = d.dict
  dictSize : d'.dictSize = d.dictSize
  tmpOut : d'.tmpOut = d.tmpOut
  xxh : d'.xxh = d.xxh
  skipChecksum : d'.skipChecksum = d.skipChecksum

theorem Keeps.place {d d' : LZ4F_dctx} (k : Keeps d d') {dst : List UInt8} {h : History}
    (hp : PlaceRefines d dst h) : PlaceRefines d' dst h :=
  ⟨hp.site.congr k.dict k.dictSize, k.dictSize.trans hp.dictSize_eq, k.tmpOut.trans hp.tmpOut_eq⟩

theorem Keeps.held {d d' : LZ4F_dctx} (k : Keeps d d') {dst full : List UInt8} {h : History}
    (hh : HistoryHeld d dst h full) : HistoryHeld d' dst h full := by
  have hbytes : d'.dictBytes dst = d.dictBytes dst :=
    dictBytes_congr dst k.dict k.dictSize fun _ => k.tmpOutBuffer
  refine ⟨k.place hh.place, hh.written, hh.window_full, ?_, ?_⟩
  · rw [hbytes]
    exact hh.window_dict
  · rw [hbytes]
    exact hh.suffix

theorem InFrame.keep {d : LZ4F_dctx} {dst : List UInt8} {a : Decoder} {b : Body}
    (h : InFrame d dst a b) (d' : LZ4F_dctx) (k : Keeps d d') : InFrame d' dst a b where
  remaining_eq := k.frameRemainingSize.trans h.remaining_eq
  bufferSize_eq := by rw [k.maxBufferSize, h.bufferSize_eq]
  skipChecksum_eq := k.skipChecksum.trans h.skipChecksum_eq
  body :=
    { frameInfo_eq := k.frameInfo.trans h.body.frameInfo_eq
      maxBlockSize_eq := k.maxBlockSize.trans h.body.maxBlockSize_eq
      hashed_eq := fun hc => k.xxh.trans (h.body.hashed_eq hc)
      linked_buffer := fun hl => by
        rw [k.maxBufferSize]
        exact h.body.linked_buffer hl
      unlinked_history := h.body.unlinked_history
      place := k.place h.body.place }
  history hl := by
    obtain ⟨full, hh⟩ := h.history hl
    exact ⟨full, k.held hh⟩

/-- An error leaves the history where it is. -/
theorem InFrame.abandon {d : LZ4F_dctx} {dst : List UInt8} {a : Decoder} {b : Body}
    {p : BlockPhase} (h : InFrame d dst a b) (hp : isFlush p = false)
    (hblock : BlockRefines d dst b p) :
    DecoderRefines (leaveDestination d dst) []
      { a with phase := .block { b with history := b.history.abandon } p } := by
  obtain ⟨hplace, -⟩ := h.body.place.abandon
  have hhistory : b.linked →
      ∃ full, HistoryHeld (leaveDestination d dst) [] b.history.abandon full := fun hl => by
    obtain ⟨full, hh⟩ := h.history hl
    exact ⟨full, hh.abandon⟩
  obtain ⟨dict, he⟩ := leaveDestination_eq d dst
  rw [he] at hplace hhistory ⊢
  have hblock' : BlockRefines { d with dict } []
      { b with history := b.history.abandon } p := by
    cases p with
    | flushOut start pending => exact absurd hp nofun
    | _ => exact hblock
  exact
    { remaining_eq := h.remaining_eq
      bufferSize_eq := h.bufferSize_eq
      skipChecksum_eq := h.skipChecksum_eq
      phase :=
        ⟨{ frameInfo_eq := h.body.frameInfo_eq
           maxBlockSize_eq := h.body.maxBlockSize_eq
           hashed_eq := h.body.hashed_eq
           linked_buffer := h.body.linked_buffer
           unlinked_history := fun hl => by
             show b.history.abandon = .empty
             rw [h.body.unlinked_history hl]
             rfl
           place := hplace }, hblock', (HistoryRefines.iff hp).2 hhistory⟩ }

/-! ## The end of a call -/

theorem preserveHistory_eq (d : LZ4F_dctx) (src dst : List UInt8) :
    ∃ tmpOutBuffer dict dictSize tmpOut,
      leaveDestination (preserveHistory ⟨d, src, dst⟩) dst =
        { d with tmpOutBuffer, dict, dictSize, tmpOut } := by
  obtain ⟨dict, he⟩ := leaveDestination_eq (preserveHistory ⟨d, src, dst⟩) dst
  rw [he]
  unfold preserveHistory
  simp only
  split_ifs
  · exact ⟨_, dict, _, _, rfl⟩
  · exact ⟨_, dict, _, _, rfl⟩
  · exact ⟨_, dict, _, _, rfl⟩

theorem leave_empty (flushed : Option Nat) : History.empty.leave flushed = History.empty := rfl

/-- Without linked blocks nothing is carried over. -/
theorem BodyRefines.dict_null {d : LZ4F_dctx} {dst : List UInt8} {b : Body}
    (h : BodyRefines d dst b) (hl : ¬ b.linked) :
    d.dict = .null ∧ d.dictSize = 0 ∧ d.tmpOut = 0 := by
  have hp := h.place
  rw [h.unlinked_history hl] at hp
  exact ⟨hp.site.1, hp.site.2, hp.tmpOut_eq⟩

/-- The body after a call. -/
theorem BodyRefines.leave {d d' : LZ4F_dctx} {dst : List UInt8} {b : Body}
    (h : BodyRefines d dst b) (flushed : Option Nat)
    (he : ∃ tmpOutBuffer dict dictSize tmpOut,
      d' = { d with tmpOutBuffer, dict, dictSize, tmpOut })
    (hplace : PlaceRefines d' [] (b.history.leave flushed)) :
    BodyRefines d' [] { b with history := b.history.leave flushed } := by
  obtain ⟨tmpOutBuffer, dict, dictSize, tmpOut, rfl⟩ := he
  exact
    { frameInfo_eq := h.frameInfo_eq
      maxBlockSize_eq := h.maxBlockSize_eq
      hashed_eq := h.hashed_eq
      linked_buffer := h.linked_buffer
      unlinked_history := fun hl => by
        show b.history.leave flushed = .empty
        rw [h.unlinked_history hl, leave_empty]
      place := hplace }

/-- The end of a call between blocks. -/
theorem InFrame.leave {d : LZ4F_dctx} {dst : List UInt8} {a : Decoder} {b : Body}
    {p : BlockPhase} (h : InFrame d dst a b) (hp : isFlush p = false)
    (hblock : BlockRefines d dst b p) (src : List UInt8) :
    DecoderRefines (leaveDestination (preserveHistory ⟨d, src, dst⟩) dst) []
      { a with phase := .block { b with history := b.history.leave none } p } := by
  have hstages : d.dStage.usesHistory = true ∧ d.dStage ≠ .flushOut := by
    cases p with
    | flushOut start pending => exact absurd hp nofun
    | getBlockHeader =>
      have hs : d.dStage = .getBlockHeader := hblock
      rw [hs]
      exact ⟨rfl, nofun⟩
    | _ =>
      have hs := hblock.1
      rw [hs]
      exact ⟨rfl, nofun⟩
  -- linked blocks keep their history, others have none
  have hkept : PlaceRefines (leaveDestination (preserveHistory ⟨d, src, dst⟩) dst) []
      (b.history.leave none) ∧ (b.linked → ∃ full,
        HistoryHeld (leaveDestination (preserveHistory ⟨d, src, dst⟩) dst) []
          (b.history.leave none) full) := by
    by_cases hl : b.linked
    · obtain ⟨full, hh⟩ := h.history hl
      have hmode : d.frameInfo.blockMode = .blockLinked := by
        rw [h.body.frameInfo_eq]
        exact hl
      have hleave := hh.leave hmode hstages.1 hstages.2 src
      exact ⟨hleave.place, fun _ => ⟨full, hleave⟩⟩
    · obtain ⟨hnull, hzero, htmpOut⟩ := h.body.dict_null hl
      rw [leaveDestination_of_inside dst src (Or.inr hnull), h.body.unlinked_history hl, leave_empty]
      exact ⟨⟨⟨hnull, hzero⟩, hzero, htmpOut⟩, fun hl' => absurd hl' hl⟩
  have hbody := h.body.leave none (preserveHistory_eq d src dst) hkept.1
  have hhistory := hkept.2
  obtain ⟨tmpOutBuffer, dict, dictSize, tmpOut, he⟩ := preserveHistory_eq d src dst
  rw [he] at hbody hhistory ⊢
  have hblock' : BlockRefines { d with tmpOutBuffer, dict, dictSize, tmpOut } []
      { b with history := b.history.leave none } p := by
    cases p with
    | flushOut start pending => exact absurd hp nofun
    | _ => exact hblock
  exact ⟨h.remaining_eq, h.bufferSize_eq, h.skipChecksum_eq, hbody, hblock',
    (HistoryRefines.iff hp).2 hhistory⟩

/-- The end of a call while a block waits in `tmpOut`. -/
theorem DecoderRefines.leave_flush {d : LZ4F_dctx} {dst : List UInt8} {a : Decoder} {b : Body}
    {start : Nat} {pending : List UInt8} (h : DecoderRefines d dst a)
    (hphase : a.phase = .block b (.flushOut start pending)) (src : List UInt8) :
    DecoderRefines (leaveDestination (preserveHistory ⟨d, src, dst⟩) dst) []
      { a with
        phase := .block { b with history := b.history.leave (some start) }
          (.flushOut start pending) } := by
  have hd := h.phase
  rw [hphase] at hd
  obtain ⟨hbody, ⟨hstage, hpending, hflush⟩, -⟩ := hd
  have hkept : PlaceRefines (leaveDestination (preserveHistory ⟨d, src, dst⟩) dst) []
      (b.history.leave (some start)) ∧
      PendingHeld (leaveDestination (preserveHistory ⟨d, src, dst⟩) dst) start pending ∧
      (b.linked → ∃ before, FlushHeld (leaveDestination (preserveHistory ⟨d, src, dst⟩) dst) []
        (b.history.leave (some start)) before start pending) := by
    by_cases hl : b.linked
    · obtain ⟨before, hf⟩ := hflush hl
      have hmode : d.frameInfo.blockMode = .blockLinked := by
        rw [hbody.frameInfo_eq]
        exact hl
      have hleave := hf.leave hmode hstage src
      exact ⟨hleave.place, hleave.block, fun _ => ⟨before, hleave⟩⟩
    · obtain ⟨hnull, hzero, htmpOut⟩ := hbody.dict_null hl
      rw [leaveDestination_of_inside dst src (Or.inr hnull), hbody.unlinked_history hl, leave_empty]
      exact ⟨⟨⟨hnull, hzero⟩, hzero, htmpOut⟩, hpending, fun hl' => absurd hl' hl⟩
  have hbody' := hbody.leave (some start) (preserveHistory_eq d src dst) hkept.1
  have hpending' := hkept.2.1
  have hflush' := hkept.2.2
  obtain ⟨tmpOutBuffer, dict, dictSize, tmpOut, he⟩ := preserveHistory_eq d src dst
  rw [he] at hbody' hpending' hflush' ⊢
  exact ⟨h.remaining_eq, h.bufferSize_eq, h.skipChecksum_eq, hbody', ⟨hstage, hpending', hflush'⟩,
    trivial⟩

/-- The end of a call. -/
theorem DecoderRefines.leave {d : LZ4F_dctx} {dst : List UInt8} {a : Decoder}
    (h : DecoderRefines d dst a) (src : List UInt8) :
    DecoderRefines (leaveDestination (preserveHistory ⟨d, src, dst⟩) dst) []
      { a with phase := a.phase.leave } := by
  have hd := h.phase
  cases hphase : a.phase with
  | block b p =>
    cases p with
    | flushOut start pending => exact h.leave_flush hphase src
    | _ =>
      obtain ⟨hin, hblock⟩ := h.inFrame hphase rfl
      exact hin.leave rfl hblock src
  | getFrameHeader =>
    rw [hphase] at hd
    rw [leaveDestination_of_inside dst src (Or.inr hd.2.1)]
    exact ⟨h.remaining_eq, h.bufferSize_eq, h.skipChecksum_eq, hd⟩
  | storeFrameHeader target got =>
    rw [hphase] at hd
    obtain ⟨hstage, hnull, hzero, -, hrest⟩ := hd
    rw [leaveDestination_of_inside dst src (Or.inr hnull)]
    exact ⟨h.remaining_eq, h.bufferSize_eq, h.skipChecksum_eq, hstage, hnull, hzero, rfl, hrest⟩
  | init frameInfo =>
    rw [hphase] at hd
    obtain ⟨hstage, hnull, hzero, -, hrest⟩ := hd
    rw [leaveDestination_of_inside dst src (Or.inr hnull)]
    exact ⟨h.remaining_eq, h.bufferSize_eq, h.skipChecksum_eq, hstage, hnull, hzero, rfl, hrest⟩
  | getSFrameSize =>
    rw [hphase] at hd
    rw [leaveDestination_of_inside dst src (Or.inr hd.2.1)]
    exact ⟨h.remaining_eq, h.bufferSize_eq, h.skipChecksum_eq, hd⟩
  | storeSFrameSize got =>
    rw [hphase] at hd
    rw [leaveDestination_of_inside dst src (Or.inr hd.2.1)]
    exact ⟨h.remaining_eq, h.bufferSize_eq, h.skipChecksum_eq, hd⟩
  | skipSkippable target =>
    rw [hphase] at hd
    rw [leaveDestination_of_inside dst src (Or.inr hd.2.1)]
    exact ⟨h.remaining_eq, h.bufferSize_eq, h.skipChecksum_eq, hd⟩
  | getSuffix contentChecksumFlag hashed =>
    rw [hphase] at hd
    obtain ⟨tmpOutBuffer, dict, dictSize, tmpOut, he⟩ := preserveHistory_eq d src dst
    rw [he]
    exact ⟨h.remaining_eq, h.bufferSize_eq, h.skipChecksum_eq, hd⟩
  | storeSuffix hashed got =>
    rw [hphase] at hd
    obtain ⟨tmpOutBuffer, dict, dictSize, tmpOut, he⟩ := preserveHistory_eq d src dst
    rw [he]
    exact ⟨h.remaining_eq, h.bufferSize_eq, h.skipChecksum_eq, hd⟩

/-! ## The stages of the header -/

/-- `n` more bytes are collected behind those of a field. -/
theorem load_collect {mem : Memory} {k n : Nat} {got src : List UInt8}
    (hgot : load mem 0 k = got) (hn : n ≤ src.length) :
    k = got.length ∧ load (store mem k (src.take n)) 0 (k + n) = got ++ src.take n := by
  have hlen : (src.take n).length = n := by rw [List.length_take, Nat.min_eq_left hn]
  have happ := load_store_append mem 0 k (src.take n)
  rw [Nat.zero_add, hgot, hlen] at happ
  exact ⟨by rw [← hgot, length_load], happ⟩

theorem length_append_take {got src : List UInt8} {n : Nat} (hn : n ≤ src.length) :
    (got ++ src.take n).length = got.length + n := by
  rw [List.length_append, List.length_take, Nat.min_eq_left hn]

/-- The part of the relation that is the same in all stages of a header. -/
structure AtHeader (dctx : LZ4F_dctx) (d : Decoder) : Prop where
  remaining_eq : dctx.frameRemainingSize = d.remaining
  bufferSize_eq : max dctx.maxBufferSize minBufferSize = d.bufferSize
  skipChecksum_eq : dctx.skipChecksum = false
  dict_null : dctx.dict = .null
  dictSize_zero : dctx.dictSize = 0

theorem leaveDestination_null {d : LZ4F_dctx} (hd : d.dict = .null) (dst : List UInt8) :
    leaveDestination d dst = d := by
  simp [leaveDestination, hd]

theorem FailRefines.of_null {c : Call} {r : Run} (hnull : c.dctx.dict = .null)
    (hd : DecoderRefines c.dctx [] { r.decoder with phase := r.decoder.phase.abandon }) :
    FailRefines c r := by
  refine ⟨?_⟩
  rw [leaveDestination_null hnull]
  exact hd

/-- What `LZ4F_decodeHeader` and `Run.header` have to do with each other. -/
inductive HeaderRefines (d : LZ4F_dctx) (input : List UInt8) (fromHeader : Bool) :
    LZ4F_dctx × Except LZ4F_errorCode Nat → Except LZ4F_errorCode Run → Prop where
  | error (frameInfo : LZ4F_frameInfo) (e : LZ4F_errorCode) :
      HeaderRefines d input fromHeader ({ d with frameInfo }, .error e) (.error e)
  | ok {d' : LZ4F_dctx} {n : Nat} {r : Run}
      (h : RunRefines ⟨d', if fromHeader then input else input.drop n, []⟩ r) :
      HeaderRefines d input fromHeader (d', .ok n) (.ok r)

theorem decodeHeader_refines {d : LZ4F_dctx} {a : Decoder} (h : AtHeader d a)
    (src input : List UInt8) (fromHeader : Bool)
    (hload : fromHeader = true → load d.header 0 src.length = src) :
    HeaderRefines d input fromHeader (LZ4F_decodeHeader d src fromHeader)
      (Run.header ⟨a, input, []⟩ src fromHeader) := by
  unfold LZ4F_decodeHeader Run.header
  by_cases hshort : src.length < minFHSize
  · rw [if_pos hshort, if_pos hshort]
    exact HeaderRefines.error d.frameInfo _
  rw [if_neg hshort, if_neg hshort]
  have hmin : minFHSize = 7 := rfl
  cases hread : readFrameHeader src with
  | error e => exact HeaderRefines.error _ e
  | ok read =>
    cases read with
    | skippable =>
      cases fromHeader with
      | false =>
        refine HeaderRefines.ok (.of_phase rfl rfl ⟨h.remaining_eq, h.bufferSize_eq,
          h.skipChecksum_eq, rfl, h.dict_null, h.dictSize_zero⟩ nofun)
      | true =>
        have hsize : (src.drop 4).length = src.length - 4 := List.length_drop
        have hgot : load d.header 4 (src.drop 4).length = src.drop 4 := by
          conv_rhs => rw [← hload rfl, drop_load]
          rw [hsize, Nat.zero_add]
        refine HeaderRefines.ok (.of_phase rfl rfl ⟨h.remaining_eq, h.bufferSize_eq,
          h.skipChecksum_eq, rfl, h.dict_null, h.dictSize_zero, rfl, ?_, hgot⟩ nofun)
        simp only
        omega
    | incomplete frameHeaderSize =>
      cases fromHeader with
      | false =>
        refine HeaderRefines.ok (.of_phase rfl rfl ⟨h.remaining_eq, h.bufferSize_eq,
          h.skipChecksum_eq, rfl, h.dict_null, h.dictSize_zero, rfl, rfl, ?_⟩ nofun)
        exact load_store d.header 0 src
      | true =>
        exact HeaderRefines.ok (.of_phase rfl rfl ⟨h.remaining_eq, h.bufferSize_eq,
          h.skipChecksum_eq, rfl, h.dict_null, h.dictSize_zero, rfl, rfl, hload rfl⟩ nofun)
    | complete frameHeaderSize frameInfo contentSizeFlag =>
      obtain ⟨hvalid, hinfo, -⟩ := readFrameHeader_complete_iff.1 hread
      have hblock : KB64 ≤ LZ4F_getBlockSize frameInfo.blockSizeID := by
        rw [hinfo]
        exact hvalid.blockSize_ge
      have hremaining : (if contentSizeFlag then frameInfo.contentSize else d.frameRemainingSize) =
          if contentSizeFlag then frameInfo.contentSize else a.remaining := by
        rw [h.remaining_eq]
      cases fromHeader with
      | false =>
        exact HeaderRefines.ok (.of_phase rfl rfl ⟨hremaining, h.bufferSize_eq,
          h.skipChecksum_eq, rfl, h.dict_null, h.dictSize_zero, rfl, rfl, rfl, hblock⟩ nofun)
      | true =>
        exact HeaderRefines.ok (.of_phase rfl rfl ⟨hremaining, h.bufferSize_eq,
          h.skipChecksum_eq, rfl, h.dict_null, h.dictSize_zero, rfl, rfl, rfl, hblock⟩ nofun)

section Stages

variable {d : LZ4F_dctx} {a : Decoder}

theorem getFrameHeader_refines {src : List UInt8} (hd : DecoderRefines d [] a)
    (hphase : a.phase = .getFrameHeader) :
    IterationRefines (dstage_getFrameHeader ⟨d, src, []⟩)
      (AbstractDecoder.getFrameHeader ⟨a, src, []⟩) := by
  have hp := hd.phase
  rw [hphase] at hp
  obtain ⟨hstage, hnull, hzero⟩ := hp
  have hat : AtHeader d a :=
    ⟨hd.remaining_eq, hd.bufferSize_eq, hd.skipChecksum_eq, hnull, hzero⟩
  unfold dstage_getFrameHeader AbstractDecoder.getFrameHeader
  simp only
  by_cases hlong : maxFHSize ≤ src.length
  · rw [if_pos hlong, if_pos hlong]
    have hheader := @decodeHeader_refines d a hat src src false nofun
    generalize LZ4F_decodeHeader d src false = x at hheader ⊢
    generalize Run.header ⟨a, src, []⟩ src false = y at hheader ⊢
    cases hheader with
    | error frameInfo e =>
      refine .fail (.of_null hnull ⟨hat.remaining_eq, hat.bufferSize_eq, hat.skipChecksum_eq, ?_⟩)
      simp only
      rw [hphase]
      exact ⟨hstage, hnull, hzero⟩
    | ok hr => exact .again hr
  · rw [if_neg hlong, if_neg hlong]
    by_cases hempty : src.length = 0
    · rw [if_pos hempty, if_pos hempty]
      refine .stop ⟨rfl, rfl, hd.remaining_eq, hd.bufferSize_eq, hd.skipChecksum_eq, ?_⟩
      simp only
      rw [hphase]
      exact ⟨hstage, hnull, hzero⟩
    · rw [if_neg hempty, if_neg hempty]
      exact .again (.of_phase rfl rfl ⟨hd.remaining_eq, hd.bufferSize_eq, hd.skipChecksum_eq,
        rfl, hnull, hzero, rfl, rfl, rfl⟩ nofun)

theorem storeFrameHeader_refines {src dst : List UInt8} (hd : DecoderRefines d dst a)
    {target : Nat} {got : List UInt8} (hphase : a.phase = .storeFrameHeader target got) :
    IterationRefines (dstage_storeFrameHeader ⟨d, src, dst⟩)
      (AbstractDecoder.storeFrameHeader ⟨a, src, dst⟩ target got) := by
  have hp := hd.phase
  rw [hphase] at hp
  obtain ⟨hstage, hnull, hzero, rfl, rfl, hgot⟩ := hp
  have hlen : d.tmpInSize = got.length := by rw [← hgot, length_load]
  obtain ⟨n, hn⟩ : ∃ n, n = min (sizeSub d.tmpInTarget got.length) src.length := ⟨_, rfl⟩
  have hle : n ≤ src.length := hn ▸ Nat.min_le_right _ _
  obtain ⟨-, hcollect⟩ := load_collect hgot hle
  rw [hlen] at hcollect
  have hlength := @length_append_take got src n hle
  unfold dstage_storeFrameHeader AbstractDecoder.storeFrameHeader
  simp only [hlen, ← hn, hlength]
  by_cases hmore : got.length + n < d.tmpInTarget
  · rw [if_pos hmore, if_pos hmore]
    exact .stop ⟨rfl, rfl, hd.remaining_eq, hd.bufferSize_eq, hd.skipChecksum_eq,
      hstage, hnull, hzero, rfl, rfl, hcollect⟩
  · rw [if_neg hmore, if_neg hmore]
    have htake : load (store d.header got.length (src.take n)) 0 d.tmpInTarget =
        (got ++ src.take n).take d.tmpInTarget := by
      rw [← hcollect, take_load, Nat.min_eq_left (Nat.not_lt.1 hmore)]
    have htakeLen : ((got ++ src.take n).take d.tmpInTarget).length = d.tmpInTarget := by
      rw [List.length_take, hlength, Nat.min_eq_left (Nat.not_lt.1 hmore)]
    rw [htake]
    obtain ⟨d', hd'⟩ : ∃ d' : LZ4F_dctx, d' = { d with
      header := store d.header got.length (src.take n), tmpInSize := got.length + n } := ⟨_, rfl⟩
    rw [← hd']
    have hstage' : d'.dStage = .storeFrameHeader ∧ d'.dict = .null ∧ d'.dictSize = 0 ∧
        d'.header = store d.header got.length (src.take n) ∧ d'.tmpInTarget = d.tmpInTarget ∧
        d'.tmpInSize = got.length + n := by
      rw [hd']
      exact ⟨hstage, hnull, hzero, rfl, rfl, rfl⟩
    have hat : AtHeader d' { a with phase := .storeFrameHeader d.tmpInTarget (got ++ src.take n) } := by
      rw [hd']
      exact ⟨hd.remaining_eq, hd.bufferSize_eq, hd.skipChecksum_eq, hnull, hzero⟩
    obtain ⟨hs', hnull', hzero', hheader', htarget', hsize'⟩ := hstage'
    have hheader := decodeHeader_refines hat ((got ++ src.take n).take d.tmpInTarget)
      (src.drop n) true fun _ => by rw [htakeLen, hheader', htake]
    have hrun : ((⟨a, src, []⟩ : Run).goTo
        (.storeFrameHeader d.tmpInTarget (got ++ src.take n))).read n =
        ⟨{ a with phase := .storeFrameHeader d.tmpInTarget (got ++ src.take n) }, src.drop n, []⟩ :=
      rfl
    rw [hrun]
    generalize LZ4F_decodeHeader d' _ true = x at hheader ⊢
    generalize Run.header _ _ true = y at hheader ⊢
    cases hheader with
    | error frameInfo e =>
      refine .fail (.of_null hnull' ⟨hat.remaining_eq, hat.bufferSize_eq, hat.skipChecksum_eq,
        hs', hnull', hzero', rfl, htarget', ?_⟩)
      simp only
      rw [hheader', hsize', hcollect]
    | ok hr => exact .again hr

theorem init_refines {src dst : List UInt8} (hd : DecoderRefines d dst a)
    {frameInfo : LZ4F_frameInfo} (hphase : a.phase = .init frameInfo) :
    IterationRefines (dstage_init ⟨d, src, dst⟩) (AbstractDecoder.init ⟨a, src, dst⟩ frameInfo) := by
  have hp := hd.phase
  rw [hphase] at hp
  obtain ⟨-, hnull, hzero, rfl, rfl, hmax, hblock⟩ := hp
  have hbuffer := hd.bufferSize_eq
  have hmin : minBufferSize = 196608 := rfl
  have hKB : KB64 = 65536 := rfl
  unfold dstage_init AbstractDecoder.init
  simp only
  refine .again (.of_phase rfl rfl ⟨hd.remaining_eq, ?_, hd.skipChecksum_eq, ?_⟩ nofun)
  · -- the buffers only grow
    simp only
    rw [← hbuffer, hmax]
    split_ifs <;> omega
  · refine ⟨⟨rfl, hmax, ?_, ?_, fun _ => rfl, ⟨hnull, hzero⟩, hzero, rfl⟩, rfl, ?_⟩
    · intro hc
      exact if_pos hc
    · intro hl
      have hmode : d.frameInfo.blockMode = .blockLinked := hl
      simp only [if_pos hmode, hmax]
      split_ifs <;> omega
    · -- nothing of the frame has been decoded
      intro _
      refine ⟨[], ⟨⟨⟨hnull, hzero⟩, hzero, rfl⟩, List.nil_suffix, window_nil _, ?_, fun _ => ?_⟩⟩
      · simp [LZ4F_dctx.dictBytes, hnull]
      · simp [LZ4F_dctx.dictBytes, hnull]

/-! ## The header of a block -/

theorem room_some (cap : Nat) (c : Call) : room (some cap) c = cap - c.dst.length := rfl

theorem blockHeader_refines {src dst : List UInt8} {b : Body} {stored : BlockPhase} (cap : Nat)
    (h : InFrame d dst a b) (hp : isFlush stored = false) (hstored : BlockRefines d dst b stored)
    (selectedIn : List UInt8) :
    IterationRefines (decodeBlockHeader (some cap) ⟨d, src, dst⟩ selectedIn)
      (AbstractDecoder.blockHeader cap ⟨a, src, dst⟩ b stored selectedIn) := by
  have hmax := h.body.maxBlockSize_eq
  obtain ⟨frameInfo, hashed, history⟩ := b
  obtain rfl : d.frameInfo = frameInfo := h.body.frameInfo_eq
  unfold decodeBlockHeader AbstractDecoder.blockHeader
  simp only
  by_cases hend : leNat (selectedIn.take 4) = 0
  · rw [if_pos hend, if_pos hend]
    exact .again (.of_phase rfl rfl ⟨h.remaining_eq, h.bufferSize_eq, h.skipChecksum_eq, rfl,
      rfl, h.body.hashed_eq⟩ nofun)
  rw [if_neg hend, if_neg hend, ← hmax]
  by_cases hbig : d.maxBlockSize < leNat (selectedIn.take 4) % 0x80000000
  · rw [if_pos hbig, if_pos hbig]
    exact .fail ⟨h.abandon hp hstored⟩
  rw [if_neg hbig, if_neg hbig]
  by_cases hraw : LZ4F_BLOCKUNCOMPRESSED_FLAG ≤ leNat (selectedIn.take 4)
  · rw [if_pos hraw, if_pos hraw]
    have hkeep := h.keep { d with
      tmpInTarget := leNat (selectedIn.take 4) % 0x80000000
      blockChecksum := if d.frameInfo.blockChecksumFlag then [] else d.blockChecksum
      dStage := .copyDirect } ⟨rfl, rfl, rfl, rfl, rfl, rfl, rfl, rfl, rfl, rfl⟩
    refine .again (.of_phase rfl rfl (hkeep.decoder (p := .copyDirect _ []) rfl
      ⟨rfl, rfl, fun hc => if_pos hc⟩ rfl rfl rfl) nofun)
  rw [if_neg hraw, if_neg hraw]
  obtain ⟨target, ht⟩ : ∃ target, target = leNat (selectedIn.take 4) % 0x80000000 +
    (if d.frameInfo.blockChecksumFlag then BFSize else 0) := ⟨_, rfl⟩
  rw [← ht]
  have hkeep := h.keep { d with tmpInTarget := target, dStage := .getCBlock }
    ⟨rfl, rfl, rfl, rfl, rfl, rfl, rfl, rfl, rfl, rfl⟩
  have hnext := hkeep.decoder (p := .getCBlock target)
    (a := { a with phase := .block _ (.getCBlock target) }) rfl ⟨rfl, rfl⟩ rfl rfl rfl
  rw [room_some, Run.room]
  by_cases hstop : cap - dst.length = 0 ∨ src = []
  · rw [if_pos hstop, if_pos hstop]
    exact .stop ⟨rfl, rfl, hnext⟩
  · rw [if_neg hstop, if_neg hstop]
    exact .again (.of_phase rfl rfl hnext nofun)

theorem getBlockHeader_refines {src dst : List UInt8} {b : Body} (cap : Nat)
    (hd : DecoderRefines d dst a) (hphase : a.phase = .block b .getBlockHeader) :
    IterationRefines (dstage_getBlockHeader (some cap) ⟨d, src, dst⟩)
      (AbstractDecoder.getBlockHeader cap ⟨a, src, dst⟩ b) := by
  obtain ⟨hin, hblock⟩ := hd.inFrame hphase rfl
  unfold dstage_getBlockHeader AbstractDecoder.getBlockHeader
  simp only
  by_cases hlong : BHSize ≤ src.length
  · rw [if_pos hlong, if_pos hlong]
    exact blockHeader_refines cap hin rfl hblock _
  · rw [if_neg hlong, if_neg hlong]
    have hkeep := hin.keep { d with tmpInSize := 0, dStage := .storeBlockHeader }
      ⟨rfl, rfl, rfl, rfl, rfl, rfl, rfl, rfl, rfl, rfl⟩
    exact .again (.of_phase rfl rfl (hkeep.decoder (p := .storeBlockHeader []) rfl ⟨rfl, rfl⟩
      rfl rfl rfl) nofun)

theorem storeBlockHeader_refines {src dst got : List UInt8} {b : Body} (cap : Nat)
    (hd : DecoderRefines d dst a) (hphase : a.phase = .block b (.storeBlockHeader got)) :
    IterationRefines (dstage_storeBlockHeader (some cap) ⟨d, src, dst⟩)
      (AbstractDecoder.storeBlockHeader cap ⟨a, src, dst⟩ b got) := by
  obtain ⟨hin, hstage, hgot⟩ := hd.inFrame hphase rfl
  have hlen : d.tmpInSize = got.length := by rw [← hgot, length_load]
  obtain ⟨n, hn⟩ : ∃ n, n = min (sizeSub BHSize got.length) src.length := ⟨_, rfl⟩
  have hle : n ≤ src.length := hn ▸ Nat.min_le_right _ _
  obtain ⟨-, hcollect⟩ := load_collect hgot hle
  rw [hlen] at hcollect
  have hlength := @length_append_take got src n hle
  have hkeep := hin.keep { d with
    tmpIn := store d.tmpIn got.length (src.take n), tmpInSize := got.length + n }
    ⟨rfl, rfl, rfl, rfl, rfl, rfl, rfl, rfl, rfl, rfl⟩
  have hblock : BlockRefines { d with
      tmpIn := store d.tmpIn got.length (src.take n), tmpInSize := got.length + n } dst b
      (.storeBlockHeader (got ++ src.take n)) := ⟨hstage, hcollect⟩
  unfold dstage_storeBlockHeader AbstractDecoder.storeBlockHeader
  simp only [hlen, ← hn, hlength]
  by_cases hmore : got.length + n < BHSize
  · rw [if_pos hmore, if_pos hmore]
    exact .stop ⟨rfl, rfl, hkeep.decoder rfl hblock rfl rfl rfl⟩
  · rw [if_neg hmore, if_neg hmore, hcollect]
    exact blockHeader_refines cap hkeep rfl hblock _

/-! ## Decoded bytes -/

/-- The context after `piece` was decoded into the destination. -/
def written (d : LZ4F_dctx) (dst piece : List UInt8) : LZ4F_dctx :=
  (d.account piece).updateDictIfLinked dst piece false

theorem written_sameFrame (d : LZ4F_dctx) (dst piece : List UInt8) :
    SameFrame (d.account piece) (written d dst piece) := by
  unfold written LZ4F_dctx.updateDictIfLinked
  split_ifs
  · exact updateDict_sameFrame _ _ _ _
  · exact SameFrame.refl _

/-- The hash of the content goes on. -/
theorem InFrame.hashed {dst : List UInt8} {b : Body} (h : InFrame d dst a b) (piece : List UInt8)
    (hc : b.frameInfo.contentChecksumFlag = true) :
    (d.account piece).xxh = (b.hash piece).hashed := by
  have hcond : d.frameInfo.contentChecksumFlag = true ∧ d.skipChecksum = false :=
    ⟨by rw [h.body.frameInfo_eq, hc], h.skipChecksum_eq⟩
  simp only [LZ4F_dctx.account, Body.hash, if_pos hcond, if_pos hc, h.body.hashed_eq hc]

theorem InFrame.remaining {dst : List UInt8} {b : Body} (h : InFrame d dst a b)
    (piece : List UInt8) :
    (d.account piece).frameRemainingSize = b.remainingAfter a.remaining piece.length := by
  simp only [LZ4F_dctx.account, Body.remainingAfter, h.body.frameInfo_eq, h.remaining_eq]

/-- `bufferSize` is the size of the buffers when blocks are linked. -/
theorem InFrame.bufferSize {dst : List UInt8} {b : Body} (h : InFrame d dst a b) (hl : b.linked) :
    a.bufferSize = d.maxBufferSize := by
  rw [← h.bufferSize_eq, Nat.max_eq_left (h.body.linked_buffer hl)]

theorem write_frameInfo (b : Body) (bufferSize dstLen : Nat) (piece : List UInt8) :
    (b.write bufferSize dstLen piece).frameInfo = b.frameInfo := by
  unfold Body.write
  split_ifs <;> rfl

/-- `piece` is decoded into the destination. -/
theorem InFrame.write {dst : List UInt8} {b : Body} (h : InFrame d dst a b) (piece : List UInt8) :
    InFrame (written d dst piece) (dst ++ piece)
      { a with remaining := b.remainingAfter a.remaining piece.length }
      (b.write a.bufferSize dst.length piece) := by
  have hsame := written_sameFrame d dst piece
  have hinfo := h.body.frameInfo_eq
  have hframe := write_frameInfo b a.bufferSize dst.length piece
  have hhash : (b.write a.bufferSize dst.length piece).hashed = (b.hash piece).hashed := by
    unfold Body.write
    split_ifs <;> rfl
  have hlinked : (b.write a.bufferSize dst.length piece).linked ↔ b.linked := by
    rw [Body.linked, hframe, Body.linked]
  -- the dictionary, with and without linked blocks
  have hdict : PlaceRefines (written d dst piece) (dst ++ piece)
      (b.write a.bufferSize dst.length piece).history ∧
      (b.linked → ∃ full, HistoryHeld (written d dst piece) (dst ++ piece)
        (b.write a.bufferSize dst.length piece).history full) ∧
      (¬ b.linked → (b.write a.bufferSize dst.length piece).history = .empty) := by
    unfold Body.write
    by_cases hl : b.linked
    · obtain ⟨full, hh⟩ := h.history hl
      have hmode : (d.account piece).frameInfo.blockMode = .blockLinked := by
        show d.frameInfo.blockMode = _
        rw [hinfo]
        exact hl
      have haccount : HistoryHeld (d.account piece) dst b.history full :=
        ⟨⟨hh.place.site.congr rfl rfl, hh.place.dictSize_eq, hh.place.tmpOut_eq⟩, hh.written,
          hh.window_full, hh.window_dict, hh.suffix⟩
      have hupdate := haccount.update (h.body.linked_buffer hl) piece
      have hwritten : written d dst piece = LZ4F_updateDict (d.account piece) dst piece false :=
        if_pos hmode
      rw [if_pos hl, hwritten, h.bufferSize hl]
      exact ⟨hupdate.place, fun _ => ⟨_, hupdate⟩, fun hn => absurd hl hn⟩
    · have hmode : (d.account piece).frameInfo.blockMode ≠ .blockLinked := by
        show d.frameInfo.blockMode ≠ _
        rw [hinfo]
        exact hl
      have hwritten : written d dst piece = d.account piece := if_neg hmode
      have hempty : (b.hash piece).history = .empty := h.body.unlinked_history hl
      obtain ⟨hnull, hzero, htmpOut⟩ := h.body.dict_null hl
      rw [if_neg hl, hwritten, hempty]
      exact ⟨⟨⟨hnull, hzero⟩, hzero, htmpOut⟩, fun hl' => absurd hl' hl, fun _ => rfl⟩
  exact
    { remaining_eq := hsame.frameRemainingSize.trans (h.remaining piece)
      bufferSize_eq := by rw [hsame.maxBufferSize]; exact h.bufferSize_eq
      skipChecksum_eq := hsame.skipChecksum.trans h.skipChecksum_eq
      body :=
        { frameInfo_eq := (hsame.frameInfo.trans hinfo).trans hframe.symm
          maxBlockSize_eq := by
            rw [hsame.maxBlockSize, Body.maxBlockSize, hframe]
            exact h.body.maxBlockSize_eq
          hashed_eq := fun hc => by
            rw [hframe] at hc
            rw [hsame.xxh, hhash]
            exact h.hashed piece hc
          linked_buffer := fun hl => by
            rw [hsame.maxBufferSize]
            exact h.body.linked_buffer (hlinked.1 hl)
          unlinked_history := fun hl => hdict.2.2 fun hl' => hl (hlinked.2 hl')
          place := hdict.1 }
      history := fun hl => hdict.2.1 (hlinked.1 hl) }

theorem copyDirect_refines {src dst summed : List UInt8} {b : Body} {target : Nat} (cap : Nat)
    (hd : DecoderRefines d dst a) (hphase : a.phase = .block b (.copyDirect target summed)) :
    IterationRefines (dstage_copyDirect (some cap) ⟨d, src, dst⟩)
      (AbstractDecoder.copyDirect cap ⟨a, src, dst⟩ b target summed) := by
  obtain ⟨hin, hstage, rfl, hsummed⟩ := hd.inFrame hphase rfl
  have hinfo := hin.body.frameInfo_eq
  obtain ⟨n, hn⟩ : ∃ n, n = min d.tmpInTarget (min src.length (cap - dst.length)) := ⟨_, rfl⟩
  -- the checksum of the block goes on, then the content
  obtain ⟨d₁, hd₁⟩ : ∃ d₁ : LZ4F_dctx, d₁ = { d with
    blockChecksum :=
      if d.skipChecksum = false ∧ d.frameInfo.blockChecksumFlag then
        d.blockChecksum ++ src.take n
      else d.blockChecksum } := ⟨_, rfl⟩
  have hin₁ : InFrame d₁ dst a b := by
    rw [hd₁]
    exact hin.keep _ ⟨rfl, rfl, rfl, rfl, rfl, rfl, rfl, rfl, rfl, rfl⟩
  have hwrite := hin₁.write (src.take n)
  have hsame := written_sameFrame d₁ dst (src.take n)
  have hstage₂ : (written d₁ dst (src.take n)).dStage = .copyDirect := by
    rw [hsame.dStage, hd₁]
    exact hstage
  have htarget : (written d₁ dst (src.take n)).tmpInTarget = d.tmpInTarget := by
    rw [hsame.tmpInTarget, hd₁]
    rfl
  have hflag : (written d₁ dst (src.take n)).frameInfo.blockChecksumFlag =
      b.frameInfo.blockChecksumFlag := by
    rw [hsame.frameInfo, hd₁, ← hinfo]
    rfl
  have hsum : b.frameInfo.blockChecksumFlag = true →
      (written d₁ dst (src.take n)).blockChecksum = summed ++ src.take n := fun hc => by
    have hcond : d.skipChecksum = false ∧ d.frameInfo.blockChecksumFlag = true :=
      ⟨hin.skipChecksum_eq, by rw [hinfo, hc]⟩
    rw [hsame.blockChecksum, hd₁, ← hsummed hc]
    exact if_pos hcond
  unfold dstage_copyDirect AbstractDecoder.copyDirect
  simp only [reduceCtorEq, if_false, room_some, Run.room, ← hn, ← hd₁]
  obtain ⟨d₂, hd₂⟩ : ∃ d₂, d₂ = written d₁ dst (src.take n) := ⟨_, rfl⟩
  rw [← hd₂] at hwrite hstage₂ htarget hflag hsum
  change IterationRefines
    (if n = (written d₁ dst (src.take n)).tmpInTarget then
      if (written d₁ dst (src.take n)).frameInfo.blockChecksumFlag then
        .again ⟨{ (written d₁ dst (src.take n)) with
          tmpInSize := 0, dStage := .getBlockChecksum }, src.drop n, dst ++ src.take n⟩
      else .again ⟨{ (written d₁ dst (src.take n)) with dStage := .getBlockHeader },
        src.drop n, dst ++ src.take n⟩
    else .stop ⟨{ (written d₁ dst (src.take n)) with
      tmpInTarget := (written d₁ dst (src.take n)).tmpInTarget - n }, src.drop n,
        dst ++ src.take n⟩
      ((written d₁ dst (src.take n)).tmpInTarget - n +
        (if (written d₁ dst (src.take n)).frameInfo.blockChecksumFlag then BFSize else 0) +
        BHSize)) _
  rw [← hd₂, hflag, htarget]
  by_cases hdone : n = d.tmpInTarget
  · rw [if_pos hdone, if_pos hdone]
    by_cases hc : b.frameInfo.blockChecksumFlag = true
    · rw [if_pos hc, if_pos hc, if_pos hc]
      have hkeep := hwrite.keep { d₂ with tmpInSize := 0, dStage := .getBlockChecksum }
        ⟨rfl, rfl, rfl, rfl, rfl, rfl, rfl, rfl, rfl, rfl⟩
      exact .again (.of_phase rfl rfl (hkeep.decoder
        (p := .getBlockChecksum (summed ++ src.take n) []) rfl ⟨rfl, hsum hc, rfl⟩ rfl rfl rfl)
        nofun)
    · rw [if_neg hc, if_neg hc]
      have hkeep := hwrite.keep { d₂ with dStage := .getBlockHeader }
        ⟨rfl, rfl, rfl, rfl, rfl, rfl, rfl, rfl, rfl, rfl⟩
      exact .again (.of_phase rfl rfl (hkeep.decoder (p := .getBlockHeader) rfl rfl rfl rfl rfl)
        nofun)
  · rw [if_neg hdone, if_neg hdone]
    have hkeep := hwrite.keep { d₂ with tmpInTarget := d.tmpInTarget - n }
      ⟨rfl, rfl, rfl, rfl, rfl, rfl, rfl, rfl, rfl, rfl⟩
    refine .stop ⟨rfl, rfl, hkeep.decoder (p := .copyDirect _ _) rfl
      ⟨hstage₂, rfl, fun hc => ?_⟩ rfl rfl rfl⟩
    rw [write_frameInfo] at hc
    exact (hsum hc).trans (if_pos hc).symm

theorem checkBlockChecksum_refines {src dst summed got crcSrc : List UInt8} {b : Body}
    (h : InFrame d dst a b) (hblock : BlockRefines d dst b (.getBlockChecksum summed got)) :
    IterationRefines (DecompressionContext.checkBlockChecksum ⟨d, src, dst⟩ crcSrc)
      (AbstractDecoder.checkBlockChecksum ⟨a, src, dst⟩ b summed got crcSrc) := by
  unfold DecompressionContext.checkBlockChecksum AbstractDecoder.checkBlockChecksum
  have hcond : (d.skipChecksum = false ∧ leNat (crcSrc.take 4) ≠ XXH32_digest d.blockChecksum) ↔
      leNat (crcSrc.take 4) ≠ XXH32_digest summed := by
    rw [h.skipChecksum_eq, hblock.2.1]
    exact ⟨fun hs => hs.2, fun hs => ⟨rfl, hs⟩⟩
  simp only
  by_cases hsum : leNat (crcSrc.take 4) ≠ XXH32_digest summed
  · rw [if_pos (hcond.2 hsum), if_pos hsum]
    exact .fail ⟨h.abandon rfl hblock⟩
  · rw [if_neg fun hs => hsum (hcond.1 hs), if_neg hsum]
    have hkeep := h.keep { d with dStage := .getBlockHeader }
      ⟨rfl, rfl, rfl, rfl, rfl, rfl, rfl, rfl, rfl, rfl⟩
    exact .again (.of_phase rfl rfl (hkeep.decoder (p := .getBlockHeader) rfl rfl rfl rfl rfl)
      nofun)

theorem getBlockChecksum_refines {src dst summed got : List UInt8} {b : Body}
    (hd : DecoderRefines d dst a) (hphase : a.phase = .block b (.getBlockChecksum summed got)) :
    IterationRefines (dstage_getBlockChecksum ⟨d, src, dst⟩)
      (AbstractDecoder.getBlockChecksum ⟨a, src, dst⟩ b summed got) := by
  obtain ⟨hin, hblock⟩ := hd.inFrame hphase rfl
  obtain ⟨hstage, hsummed, hgot⟩ := hblock
  have hlen : d.tmpInSize = got.length := by rw [← hgot, length_load]
  obtain ⟨n, hn⟩ : ∃ n, n = min (sizeSub 4 got.length) src.length := ⟨_, rfl⟩
  have hle : n ≤ src.length := hn ▸ Nat.min_le_right _ _
  obtain ⟨-, hcollect⟩ := load_collect hgot hle
  rw [hlen] at hcollect
  have hlength := @length_append_take got src n hle
  have hkeep := hin.keep { d with
    header := store d.header got.length (src.take n), tmpInSize := got.length + n }
    ⟨rfl, rfl, rfl, rfl, rfl, rfl, rfl, rfl, rfl, rfl⟩
  have hblock' : BlockRefines { d with
      header := store d.header got.length (src.take n), tmpInSize := got.length + n } dst b
      (.getBlockChecksum summed (got ++ src.take n)) := ⟨hstage, hsummed, hcollect⟩
  unfold dstage_getBlockChecksum AbstractDecoder.getBlockChecksum
  simp only [hlen, ← hn, hlength]
  by_cases hshort : 4 ≤ src.length ∧ got.length = 0
  · rw [if_pos hshort, if_pos hshort]
    exact checkBlockChecksum_refines hin ⟨hstage, hsummed, hgot⟩
  rw [if_neg hshort, if_neg hshort]
  by_cases hmore : got.length + n < 4
  · rw [if_pos hmore, if_pos hmore]
    exact .stop ⟨rfl, rfl, hkeep.decoder rfl hblock' rfl rfl rfl⟩
  · rw [if_neg hmore, if_neg hmore, hcollect]
    exact checkBlockChecksum_refines hkeep hblock'

/-! ## The blocks -/

/-- The dictionary as the block decoder sees it. -/
theorem InFrame.usingDict {dst : List UInt8} {b : Body} (h : InFrame d dst a b)
    (fastLoop adjacent : Bool) (source : List UInt8) (n : Nat) (out : List UInt8) :
    LZ4_decompress_safe_usingDict fastLoop source n (d.decoderDict dst) adjacent = .ok out ↔
      LZ4_decompress_safe_usingDict fastLoop source n b.history.bytes adjacent = .ok out := by
  apply usingDict_congr_window
  have hdict : window KB64 (d.decoderDict dst) = window KB64 (d.dictBytes dst) := by
    unfold LZ4F_dctx.decoderDict
    split_ifs
    · exact window_window _ _
    · rfl
  rw [hdict]
  by_cases hl : b.linked
  · obtain ⟨full, hh⟩ := h.history hl
    rw [hh.window_dict, ← hh.window_full, window_window]
  · obtain ⟨hnull, -, -⟩ := h.body.dict_null hl
    rw [h.body.unlinked_history hl]
    simp [LZ4F_dctx.dictBytes, hnull, History.empty]

theorem decodeIntoDst_refines (fastLoop : Bool) {src dst : List UInt8} {b : Body}
    {stored : BlockPhase} (h : InFrame d dst a b) (hp : isFlush stored = false)
    (hstored : BlockRefines d dst b stored) (selectedIn : List UInt8) :
    IterationRefines (DecompressionContext.decodeIntoDst fastLoop ⟨d, src, dst⟩ selectedIn)
      (AbstractDecoder.decodeIntoDst fastLoop ⟨a, src, dst⟩ b stored
        (selectedIn.take d.tmpInTarget)) := by
  unfold DecompressionContext.decodeIntoDst AbstractDecoder.decodeIntoDst
  simp only
  rw [← h.body.place.site.dictEndsAt, ← h.body.maxBlockSize_eq]
  have hiff := h.usingDict fastLoop (d.dictEndsAt dst) (selectedIn.take d.tmpInTarget)
    d.maxBlockSize
  cases hdec : LZ4_decompress_safe_usingDict fastLoop (selectedIn.take d.tmpInTarget)
      d.maxBlockSize b.history.bytes (d.dictEndsAt dst) with
  | error e =>
    cases hdec' : LZ4_decompress_safe_usingDict fastLoop (selectedIn.take d.tmpInTarget)
        d.maxBlockSize (d.decoderDict dst) (d.dictEndsAt dst) with
    | error e' => exact .fail ⟨h.abandon hp hstored⟩
    | ok out =>
      have hok := (hiff out).1 hdec'
      rw [hdec] at hok
      cases hok
  | ok decoded =>
    rw [(hiff decoded).2 hdec]
    have hkeep := (h.write decoded).keep { written d dst decoded with dStage := .getBlockHeader }
      ⟨rfl, rfl, rfl, rfl, rfl, rfl, rfl, rfl, rfl, rfl⟩
    exact .again (.of_phase rfl rfl (hkeep.decoder (p := .getBlockHeader) rfl rfl rfl rfl rfl)
      (by rintro ⟨⟩))

theorem placeTmpOut_eq (d : LZ4F_dctx) (dst : List UInt8) :
    ∃ tmpOutBuffer dictSize tmpOut,
      d.placeTmpOut dst = { d with tmpOutBuffer, dictSize, tmpOut } := by
  unfold LZ4F_dctx.placeTmpOut LZ4F_dctx.truncateDict
  simp only
  split_ifs
  · exact ⟨_, _, _, rfl⟩
  · exact ⟨_, _, _, rfl⟩
  · exact ⟨_, _, _, rfl⟩
  · exact ⟨_, _, _, rfl⟩

/-- The decoder with the history moved for a block in `tmpOut`. -/
def placed (b : Body) : Body :=
  if b.linked then { b with history := b.history.placeTmpOut } else b

theorem placed_frameInfo (b : Body) : (placed b).frameInfo = b.frameInfo := by
  unfold placed
  split_ifs <;> rfl

theorem placed_hashed (b : Body) : (placed b).hashed = b.hashed := by
  unfold placed
  split_ifs <;> rfl

theorem placed_linked (b : Body) : (placed b).linked ↔ b.linked := by
  rw [Body.linked, placed_frameInfo, Body.linked]

/-- Where the block goes in `tmpOutBuffer`. -/
def PlacedAt (d : LZ4F_dctx) (h : History) : Prop :=
  (h.site = .tmpOutBuffer ∧ d.tmpOut = d.dictSize) ∨
    (h.site ≠ .tmpOutBuffer ∧ d.tmpOut = min d.dictSize KB64)

/-- "manage dictionary". -/
theorem InFrame.placeTmpOut {dst : List UInt8} {b : Body} (h : InFrame d dst a b) :
    InFrame (d.placeTmpOut dst) dst a (placed b) ∧
      (b.linked → PlacedAt (d.placeTmpOut dst) (placed b).history) := by
  have hinfo := h.body.frameInfo_eq
  have hframe := placed_frameInfo b
  -- the dictionary, with and without linked blocks
  have hdict : PlaceRefines (d.placeTmpOut dst) dst (placed b).history ∧
      (b.linked → ∃ full, HistoryHeld (d.placeTmpOut dst) dst (placed b).history full) ∧
      (b.linked → PlacedAt (d.placeTmpOut dst) (placed b).history) ∧
      (¬ b.linked → (placed b).history = .empty) := by
    unfold placed
    by_cases hl : b.linked
    · obtain ⟨full, hh⟩ := h.history hl
      have hmode : d.frameInfo.blockMode = .blockLinked := by
        rw [hinfo]
        exact hl
      obtain ⟨hheld, hplaced⟩ := hh.placeTmpOut hmode
      rw [if_pos hl]
      exact ⟨hheld.place, fun _ => ⟨full, hheld⟩, fun _ => hplaced, fun hn => absurd hl hn⟩
    · have hmode : d.frameInfo.blockMode ≠ .blockLinked := by
        rw [hinfo]
        exact hl
      have hplace : d.placeTmpOut dst = d := if_neg hmode
      rw [if_neg hl, hplace]
      exact ⟨h.body.place, fun hl' => absurd hl' hl, fun hl' => absurd hl' hl,
        h.body.unlinked_history⟩
  obtain ⟨hplace, hhistory, hplaced, hempty⟩ := hdict
  obtain ⟨tmpOutBuffer, dictSize, tmpOut, he⟩ := placeTmpOut_eq d dst
  rw [he] at hplace hhistory hplaced ⊢
  refine ⟨⟨h.remaining_eq, h.bufferSize_eq, h.skipChecksum_eq, ⟨hinfo.trans hframe.symm, ?_, ?_, ?_,
    fun hl => hempty fun hl' => hl ((placed_linked b).2 hl'), hplace⟩,
    fun hl => hhistory ((placed_linked b).1 hl)⟩, hplaced⟩
  · rw [Body.maxBlockSize, hframe]
    exact h.body.maxBlockSize_eq
  · intro hc
    rw [hframe] at hc
    rw [placed_hashed]
    exact h.body.hashed_eq hc
  · intro hl
    exact h.body.linked_buffer ((placed_linked b).1 hl)

/-- A block is decoded into `tmpOut`. -/
theorem InFrame.stage {src dst decoded : List UInt8} {b : Body} (h : InFrame d dst a b)
    (hplaced : b.linked → PlacedAt d b.history) :
    DecoderRefines
      { d.account decoded with
        tmpOutBuffer := store d.tmpOutBuffer d.tmpOut decoded
        tmpOutSize := decoded.length
        tmpOutStart := 0
        dStage := .flushOut } dst (Run.stage ⟨a, src, dst⟩ b decoded).decoder := by
  have hframe : (b.writeTmpOut decoded).frameInfo = b.frameInfo := by
    unfold Body.writeTmpOut
    split_ifs <;> rfl
  have hhash : (b.writeTmpOut decoded).hashed = (b.hash decoded).hashed := by
    unfold Body.writeTmpOut
    split_ifs <;> rfl
  have hlinked : (b.writeTmpOut decoded).linked ↔ b.linked := by
    rw [Body.linked, hframe, Body.linked]
  have hblock : load (store d.tmpOutBuffer d.tmpOut decoded) (d.tmpOut + 0) decoded.length =
      decoded := load_store _ _ _
  have hhistory : (b.writeTmpOut decoded).history =
      if b.linked then b.history.extend decoded else b.history := by
    unfold Body.writeTmpOut
    split_ifs <;> rfl
  have hsites : (b.writeTmpOut decoded).history.site = b.history.site ∧
      (b.writeTmpOut decoded).history.dictSize = b.history.dictSize ∧
      (b.writeTmpOut decoded).history.tmpOut = b.history.tmpOut := by
    rw [hhistory]
    split_ifs <;> exact ⟨rfl, rfl, rfl⟩
  obtain ⟨hsite, hdictSize, htmpOut⟩ := hsites
  refine ⟨h.remaining decoded, h.bufferSize_eq, h.skipChecksum_eq,
    ⟨h.body.frameInfo_eq.trans hframe.symm, ?_, ?_, ?_, ?_, ?_⟩,
    ⟨rfl, ⟨rfl, (Nat.zero_add _).symm, hblock⟩, ?_⟩, trivial⟩
  · rw [Body.maxBlockSize, hframe]
    exact h.body.maxBlockSize_eq
  · intro hc
    rw [hframe] at hc
    rw [hhash]
    exact h.hashed decoded hc
  · intro hl
    exact h.body.linked_buffer (hlinked.1 hl)
  · intro hl
    have hn : ¬ b.linked := fun hl' => hl (hlinked.2 hl')
    rw [hhistory, if_neg hn]
    exact h.body.unlinked_history hn
  · refine ⟨?_, h.body.place.dictSize_eq.trans hdictSize.symm,
      h.body.place.tmpOut_eq.trans htmpOut.symm⟩
    rw [hsite]
    exact h.body.place.site.congr rfl rfl
  · intro hl
    have hl' := hlinked.1 hl
    obtain ⟨full, hh⟩ := h.history hl'
    refine ⟨full, hh.decoded (hplaced hl') rfl rfl rfl rfl rfl rfl hsite hdictSize htmpOut ?_⟩
    rw [hhistory, if_pos hl']
    rfl

theorem decodeIntoTmpOut_refines (fastLoop : Bool) {src dst : List UInt8} {b : Body}
    {stored : BlockPhase} (h : InFrame d dst a b) (hp : isFlush stored = false)
    (hstored : BlockRefines d dst b stored) (selectedIn : List UInt8) :
    IterationRefines (DecompressionContext.decodeIntoTmpOut fastLoop ⟨d, src, dst⟩ selectedIn)
      (AbstractDecoder.decodeIntoTmpOut fastLoop ⟨a, src, dst⟩ b stored
        (selectedIn.take d.tmpInTarget)) := by
  obtain ⟨hin, hplaced⟩ := h.placeTmpOut
  have hstored' : BlockRefines (d.placeTmpOut dst) dst (placed b) stored := by
    obtain ⟨tmpOutBuffer, dictSize, tmpOut, he⟩ := placeTmpOut_eq d dst
    rw [he]
    cases stored with
    | flushOut start pending => cases hp
    | copyDirect target summed =>
      refine ⟨hstored.1, hstored.2.1, fun hc => hstored.2.2 ?_⟩
      rwa [placed_frameInfo] at hc
    | _ => exact hstored
  have htarget : (d.placeTmpOut dst).tmpInTarget = d.tmpInTarget := by
    obtain ⟨tmpOutBuffer, dictSize, tmpOut, he⟩ := placeTmpOut_eq d dst
    rw [he]
  have hmax : (d.placeTmpOut dst).maxBlockSize = (placed b).maxBlockSize := hin.body.maxBlockSize_eq
  have hends := hin.body.place.dictEndsAtTmpOut
  unfold DecompressionContext.decodeIntoTmpOut AbstractDecoder.decodeIntoTmpOut
  simp only
  have hb : (if b.linked then { b with history := b.history.placeTmpOut } else b) = placed b := rfl
  rw [hb]
  rw [htarget, ← hends, ← hmax]
  have hiff := hin.usingDict fastLoop (d.placeTmpOut dst).dictEndsAtTmpOut
    (selectedIn.take d.tmpInTarget) (d.placeTmpOut dst).maxBlockSize
  cases hdec : LZ4_decompress_safe_usingDict fastLoop (selectedIn.take d.tmpInTarget)
      (d.placeTmpOut dst).maxBlockSize (placed b).history.bytes
      (d.placeTmpOut dst).dictEndsAtTmpOut with
  | error e =>
    cases hdec' : LZ4_decompress_safe_usingDict fastLoop (selectedIn.take d.tmpInTarget)
        (d.placeTmpOut dst).maxBlockSize ((d.placeTmpOut dst).decoderDict dst)
        (d.placeTmpOut dst).dictEndsAtTmpOut with
    | error e' => exact .fail ⟨hin.abandon hp hstored'⟩
    | ok out =>
      have hok := (hiff out).1 hdec'
      rw [hdec] at hok
      cases hok
  | ok decoded =>
    rw [(hiff decoded).2 hdec]
    exact .again (.of_phase rfl rfl
      (hin.stage fun hl => hplaced ((placed_linked b).1 hl)) (by rintro ⟨⟩))

/-- `stored` makes the phase an error leaves behind, from the target that is left. -/
theorem decodeCBlock_refines (fastLoop : Bool) (cap : Nat) {src dst : List UInt8} {b : Body}
    (stored : Nat → BlockPhase) (h : InFrame d dst a b) (hp : ∀ t, isFlush (stored t) = false)
    (hstored : ∀ t, BlockRefines { d with tmpInTarget := t } dst b (stored t))
    (selectedIn : List UInt8) :
    IterationRefines (DecompressionContext.decodeCBlock fastLoop (some cap) ⟨d, src, dst⟩ selectedIn)
      (AbstractDecoder.decodeCBlock fastLoop cap ⟨a, src, dst⟩ b stored d.tmpInTarget
        selectedIn) := by
  have hmax := h.body.maxBlockSize_eq
  have hends := h.body.place.dictEndsAtTmpOut
  obtain ⟨frameInfo, hashed, history⟩ := b
  obtain rfl : d.frameInfo = frameInfo := h.body.frameInfo_eq
  obtain ⟨t, ht⟩ : ∃ t, t =
    if d.frameInfo.blockChecksumFlag then sizeSub d.tmpInTarget 4 else d.tmpInTarget := ⟨_, rfl⟩
  unfold DecompressionContext.decodeCBlock AbstractDecoder.decodeCBlock
  simp only
  rw [← ht]
  have hkeep := h.keep { d with tmpInTarget := t } ⟨rfl, rfl, rfl, rfl, rfl, rfl, rfl, rfl, rfl, rfl⟩
  by_cases hsum : d.frameInfo.blockChecksumFlag = true ∧
      leNat ((selectedIn.drop t).take 4) ≠ XXH32_digest (selectedIn.take t)
  · rw [if_pos hsum, if_pos hsum]
    exact .fail ⟨hkeep.abandon (hp t) (hstored t)⟩
  rw [if_neg hsum, if_neg hsum]
  simp only [room_some, Run.room]
  have hcond : (d.maxBlockSize ≤ cap - dst.length ∧ d.dictEndsAtTmpOut = false) ↔
      (Body.maxBlockSize ⟨d.frameInfo, hashed, history⟩ ≤ cap - dst.length ∧
        history.endsAtTmpOut = false) := by
    rw [hmax, hends]
  exact .ite hcond
    (fun _ => decodeIntoDst_refines fastLoop hkeep (hp t) (hstored t) selectedIn)
    (fun _ => decodeIntoTmpOut_refines fastLoop hkeep (hp t) (hstored t) selectedIn)

theorem getCBlock_refines (fastLoop : Bool) (cap : Nat) {src dst : List UInt8} {b : Body}
    {target : Nat} (hd : DecoderRefines d dst a) (hphase : a.phase = .block b (.getCBlock target)) :
    IterationRefines (dstage_getCBlock fastLoop (some cap) ⟨d, src, dst⟩)
      (AbstractDecoder.getCBlock fastLoop cap ⟨a, src, dst⟩ b target) := by
  obtain ⟨hin, hstage, rfl⟩ := hd.inFrame hphase rfl
  unfold dstage_getCBlock AbstractDecoder.getCBlock
  simp only
  by_cases hshort : src.length < d.tmpInTarget
  · rw [if_pos hshort, if_pos hshort]
    have hkeep := hin.keep { d with tmpInSize := 0, dStage := .storeCBlock }
      ⟨rfl, rfl, rfl, rfl, rfl, rfl, rfl, rfl, rfl, rfl⟩
    exact .again (.of_phase rfl rfl (hkeep.decoder (p := .storeCBlock _ []) rfl ⟨rfl, rfl, rfl⟩
      rfl rfl rfl) nofun)
  · rw [if_neg hshort, if_neg hshort]
    exact decodeCBlock_refines fastLoop cap .getCBlock hin (fun _ => rfl) (fun _ => ⟨hstage, rfl⟩) _

theorem storeCBlock_refines (fastLoop : Bool) (cap : Nat) {src dst got : List UInt8} {b : Body}
    {target : Nat} (hd : DecoderRefines d dst a)
    (hphase : a.phase = .block b (.storeCBlock target got)) :
    IterationRefines (dstage_storeCBlock fastLoop (some cap) ⟨d, src, dst⟩)
      (AbstractDecoder.storeCBlock fastLoop cap ⟨a, src, dst⟩ b target got) := by
  obtain ⟨hin, hstage, rfl, hgot⟩ := hd.inFrame hphase rfl
  have hinfo := hin.body.frameInfo_eq
  have hlen : d.tmpInSize = got.length := by rw [← hgot, length_load]
  obtain ⟨n, hn⟩ : ∃ n, n = min (sizeSub d.tmpInTarget got.length) src.length := ⟨_, rfl⟩
  have hle : n ≤ src.length := hn ▸ Nat.min_le_right _ _
  obtain ⟨-, hcollect⟩ := load_collect hgot hle
  rw [hlen] at hcollect
  have hlength := @length_append_take got src n hle
  have hkeep := hin.keep { d with
    tmpIn := store d.tmpIn got.length (src.take n), tmpInSize := got.length + n }
    ⟨rfl, rfl, rfl, rfl, rfl, rfl, rfl, rfl, rfl, rfl⟩
  unfold dstage_storeCBlock AbstractDecoder.storeCBlock
  simp only [hlen, ← hn, hlength]
  by_cases hmore : got.length + n < d.tmpInTarget
  · rw [if_pos hmore, if_pos hmore, ← hinfo]
    exact .stop ⟨rfl, rfl, hkeep.decoder (p := .storeCBlock _ (got ++ src.take n)) rfl
      ⟨hstage, rfl, hcollect⟩ rfl rfl rfl⟩
  · rw [if_neg hmore, if_neg hmore, hcollect]
    exact decodeCBlock_refines fastLoop cap (fun t => .storeCBlock t (got ++ src.take n)) hkeep
      (fun _ => rfl) (fun _ => ⟨hstage, rfl, hcollect⟩) _

/-! ## The block in `tmpOut` -/

theorem flush_frameInfo (b : Body) (start dstLen n : Nat) :
    (b.flush start dstLen n).frameInfo = b.frameInfo := by
  unfold Body.flush
  split_ifs <;> rfl

theorem flush_hashed (b : Body) (start dstLen n : Nat) :
    (b.flush start dstLen n).hashed = b.hashed := by
  unfold Body.flush
  split_ifs <;> rfl

theorem flush_linked (b : Body) (start dstLen n : Nat) :
    (b.flush start dstLen n).linked ↔ b.linked := by
  rw [Body.linked, flush_frameInfo, Body.linked]

/-- The body while `n` more bytes of the block in `tmpOut` are flushed. -/
theorem flush_body {dst pending : List UInt8} {b : Body} {start n : Nat}
    (hd : DecoderRefines d dst a) (hphase : a.phase = .block b (.flushOut start pending))
    (hn : n ≤ pending.length) :
    ∃ d', d' = flushed (d.updateDictIfLinked dst (pending.take n) true) n ∧
      BodyRefines d' (dst ++ pending.take n) (b.flush start dst.length n) ∧
      PendingHeld d' (start + n) (pending.drop n) ∧
      (b.linked → ∃ before, FlushHeld d' (dst ++ pending.take n)
        (b.history.followFlush start dst.length n) before (start + n) (pending.drop n)) ∧
      d'.dStage = .flushOut ∧ d'.frameRemainingSize = d.frameRemainingSize ∧
      d'.maxBufferSize = d.maxBufferSize ∧ d'.skipChecksum = d.skipChecksum := by
  have hp := hd.phase
  rw [hphase] at hp
  obtain ⟨hbody, ⟨hstage, hpending, hflush⟩, -⟩ := hp
  have hinfo := hbody.frameInfo_eq
  refine ⟨_, rfl, ?_⟩
  by_cases hl : b.linked
  · obtain ⟨before, hf⟩ := hflush hl
    have hmode : d.frameInfo.blockMode = .blockLinked := by
      rw [hinfo]
      exact hl
    have hupdate : d.updateDictIfLinked dst (pending.take n) true =
        LZ4F_updateDict d dst (pending.take n) true := if_pos hmode
    have hsame := updateDict_sameFrame d dst (pending.take n) true
    have hfl := hf.flush hn
    have hb : b.flush start dst.length n =
      { b with history := b.history.followFlush start dst.length n } := if_pos hl
    rw [hupdate, hb]
    exact ⟨⟨hsame.frameInfo.trans hinfo, hsame.maxBlockSize.trans hbody.maxBlockSize_eq,
      fun hc => hsame.xxh.trans (hbody.hashed_eq hc),
      fun _ => (hbody.linked_buffer hl).trans_eq hsame.maxBufferSize.symm,
      fun hn' => absurd hl hn', hfl.place⟩, hfl.block, fun _ => ⟨before, hfl⟩,
      hsame.dStage.trans hstage, hsame.frameRemainingSize, hsame.maxBufferSize,
      hsame.skipChecksum⟩
  · have hmode : d.frameInfo.blockMode ≠ .blockLinked := by
      rw [hinfo]
      exact hl
    have hupdate : d.updateDictIfLinked dst (pending.take n) true = d := if_neg hmode
    have hb : b.flush start dst.length n = b := if_neg hl
    obtain ⟨hnull, hzero, htmpOut⟩ := hbody.dict_null hl
    rw [hupdate, hb]
    refine ⟨⟨hinfo, hbody.maxBlockSize_eq, hbody.hashed_eq, hbody.linked_buffer,
      hbody.unlinked_history, ?_⟩, hpending.flushed hn rfl rfl fun _ _ => rfl,
      fun hl' => absurd hl' hl, hstage, rfl, rfl, rfl⟩
    rw [hbody.unlinked_history hl]
    exact ⟨⟨hnull, hzero⟩, hzero, htmpOut⟩

theorem flushOut_refines (cap : Nat) {src dst pending : List UInt8} {b : Body} {start : Nat}
    (hd : DecoderRefines d dst a) (hphase : a.phase = .block b (.flushOut start pending)) :
    IterationRefines (dstage_flushOut (some cap) ⟨d, src, dst⟩)
      (AbstractDecoder.flushOut cap ⟨a, src, dst⟩ b start pending) := by
  have hp := hd.phase
  rw [hphase] at hp
  obtain ⟨-, ⟨-, hpending, -⟩, -⟩ := hp
  have hleft : d.tmpOutSize - start = pending.length := by
    rw [hpending.size_eq, Nat.add_sub_cancel_left]
  obtain ⟨n, hn⟩ : ∃ n, n = min pending.length (cap - dst.length) := ⟨_, rfl⟩
  have hle : n ≤ pending.length := hn ▸ Nat.min_le_left _ _
  have hpiece : load d.tmpOutBuffer (d.tmpOut + start) n = pending.take n := by
    conv_rhs => rw [← hpending.pending_eq, take_load, Nat.min_eq_left hle]
  obtain ⟨d', hd', hbody, hblock, hheld, hstage, hremaining, hbuffer, hskip⟩ :=
    flush_body hd hphase hle
  have hdone : d'.tmpOutStart = d'.tmpOutSize ↔ n = pending.length := by
    rw [hblock.start_eq, hblock.size_eq, List.length_drop]
    omega
  unfold dstage_flushOut AbstractDecoder.flushOut
  simp only [reduceCtorEq, if_false, room_some, Run.room, hleft, ← hn, hpending.start_eq, hpiece]
  change IterationRefines
    (if (flushed (d.updateDictIfLinked dst (pending.take n) true) n).tmpOutStart =
        (flushed (d.updateDictIfLinked dst (pending.take n) true) n).tmpOutSize then
      .again ⟨{ flushed (d.updateDictIfLinked dst (pending.take n) true) n with
        dStage := .getBlockHeader }, src, dst ++ pending.take n⟩
    else .stop ⟨flushed (d.updateDictIfLinked dst (pending.take n) true) n, src,
      dst ++ pending.take n⟩ BHSize) _
  rw [← hd']
  by_cases hall : n = pending.length
  · rw [if_pos (hdone.2 hall), if_pos hall]
    refine .again (.of_phase rfl rfl ⟨hremaining.trans hd.remaining_eq, ?_,
      hskip.trans hd.skipChecksum_eq, ⟨hbody.frameInfo_eq, hbody.maxBlockSize_eq, hbody.hashed_eq,
        hbody.linked_buffer, hbody.unlinked_history, hbody.place.site.congr rfl rfl,
        hbody.place.dictSize_eq, hbody.place.tmpOut_eq⟩, rfl, ?_⟩ nofun)
    · show max d'.maxBufferSize minBufferSize = a.bufferSize
      rw [hbuffer, hd.bufferSize_eq]
    · -- the dictionary holds all of the block
      intro hl
      have hl' := (flush_linked b start dst.length n).1 hl
      obtain ⟨before, hf⟩ := hheld hl'
      have hb : (b.flush start dst.length n).history = b.history.followFlush start dst.length n := by
        rw [Body.flush, if_pos hl']
      rw [hall, List.drop_length, ← hall] at hf
      have hh := hf.done
      refine ⟨_, ⟨⟨?_, ?_, ?_⟩, hh.written, ?_, hh.window_dict, ?_⟩⟩
      · rw [hb]
        exact hh.place.site
      · rw [hb]
        exact hh.place.dictSize_eq
      · rw [hb]
        exact hh.place.tmpOut_eq
      · rw [hb]
        exact hh.window_full
      · rw [hb]
        exact hh.suffix
  · rw [if_neg fun he => hall (hdone.1 he), if_neg hall]
    refine .stop ⟨rfl, rfl, hremaining.trans hd.remaining_eq, ?_, hskip.trans hd.skipChecksum_eq,
      hbody, ⟨hstage, hblock, fun hl => ?_⟩, trivial⟩
    · rw [hbuffer]
      exact hd.bufferSize_eq
    · have hl' := (flush_linked b start dst.length n).1 hl
      obtain ⟨before, hf⟩ := hheld hl'
      refine ⟨before, ?_⟩
      have hb : (b.flush start dst.length n).history = b.history.followFlush start dst.length n := by
        rw [Body.flush, if_pos hl']
      rw [hb]
      exact hf

/-! ## The end of a frame -/

/-- `LZ4F_resetDecompressionContext` ends a frame. -/
theorem reset_refines (hremaining : d.frameRemainingSize = a.remaining)
    (hbuffer : max d.maxBufferSize minBufferSize = a.bufferSize) (dst : List UInt8) :
    DecoderRefines (LZ4F_resetDecompressionContext d) dst
      { a with phase := .getFrameHeader } :=
  ⟨hremaining, hbuffer, rfl, rfl, rfl, rfl⟩

/-- Behind the blocks an error leaves the decoder as it is. -/
theorem DecoderRefines.abandon_suffix {dst : List UInt8} (hd : DecoderRefines d dst a)
    (hp : (∃ c hashed, a.phase = .getSuffix c hashed) ∨ ∃ hashed got, a.phase = .storeSuffix hashed got) :
    DecoderRefines (leaveDestination d dst) [] { a with phase := a.phase.abandon } := by
  obtain ⟨dict, he⟩ := leaveDestination_eq d dst
  have hphase := hd.phase
  rw [he]
  refine ⟨hd.remaining_eq, hd.bufferSize_eq, hd.skipChecksum_eq, ?_⟩
  simp only
  rcases hp with ⟨c, hashed, hp⟩ | ⟨hashed, got, hp⟩
  · rw [hp] at hphase ⊢
    exact hphase
  · rw [hp] at hphase ⊢
    exact hphase

theorem checkSuffix_refines {src dst selectedIn hashed : List UInt8} {stored : Phase}
    (hd : DecoderRefines d dst { a with phase := stored }) (hxxh : d.xxh = hashed)
    (hp : (∃ c hashed, stored = .getSuffix c hashed) ∨
      ∃ hashed got, stored = .storeSuffix hashed got) :
    IterationRefines (DecompressionContext.checkSuffix ⟨d, src, dst⟩ selectedIn)
      (AbstractDecoder.checkSuffix ⟨a, src, dst⟩ stored hashed selectedIn) := by
  have hcond : (d.skipChecksum = false ∧ leNat (selectedIn.take 4) ≠ XXH32_digest d.xxh) ↔
      leNat (selectedIn.take 4) ≠ XXH32_digest hashed := by
    have hskip := hd.skipChecksum_eq
    rw [hskip, hxxh]
    exact ⟨fun hs => hs.2, fun hs => ⟨rfl, hs⟩⟩
  unfold DecompressionContext.checkSuffix AbstractDecoder.checkSuffix
  exact .ite hcond (fun _ => .fail ⟨hd.abandon_suffix hp⟩)
    (fun _ => .stop ⟨rfl, rfl, reset_refines hd.remaining_eq hd.bufferSize_eq dst⟩)

theorem getSuffix_refines {src dst hashed : List UInt8} {contentChecksumFlag : Bool}
    (hd : DecoderRefines d dst a) (hphase : a.phase = .getSuffix contentChecksumFlag hashed) :
    IterationRefines (dstage_getSuffix ⟨d, src, dst⟩)
      (AbstractDecoder.getSuffix ⟨a, src, dst⟩ contentChecksumFlag hashed) := by
  have hp := hd.phase
  rw [hphase] at hp
  obtain ⟨-, rfl, hxxh⟩ := hp
  unfold dstage_getSuffix AbstractDecoder.getSuffix
  refine .ite (by rw [hd.remaining_eq]) (fun _ => .fail ⟨hd.abandon_suffix (Or.inl ⟨_, _, hphase⟩)⟩)
    fun _ => ?_
  refine .ite Iff.rfl
    (fun _ => .stop ⟨rfl, rfl, reset_refines hd.remaining_eq hd.bufferSize_eq dst⟩) fun hc => ?_
  have hc' : d.frameInfo.contentChecksumFlag = true := Bool.eq_true_of_not_eq_false hc
  refine .ite Iff.rfl (fun _ => ?_) fun _ => ?_
  · -- not enough size for entire CRC
    exact .again (.of_phase rfl rfl ⟨hd.remaining_eq, hd.bufferSize_eq, hd.skipChecksum_eq, rfl,
      hxxh hc', rfl⟩ nofun)
  · refine checkSuffix_refines ?_ (hxxh hc') (Or.inl ⟨_, _, rfl⟩)
    rw [← hphase]
    exact hd

theorem storeSuffix_refines {src dst hashed got : List UInt8}
    (hd : DecoderRefines d dst a) (hphase : a.phase = .storeSuffix hashed got) :
    IterationRefines (dstage_storeSuffix ⟨d, src, dst⟩)
      (AbstractDecoder.storeSuffix ⟨a, src, dst⟩ hashed got) := by
  have hp := hd.phase
  rw [hphase] at hp
  obtain ⟨hstage, hxxh, hgot⟩ := hp
  have hlen : d.tmpInSize = got.length := by rw [← hgot, length_load]
  obtain ⟨n, hn⟩ : ∃ n, n = min (sizeSub 4 got.length) src.length := ⟨_, rfl⟩
  have hle : n ≤ src.length := hn ▸ Nat.min_le_right _ _
  obtain ⟨-, hcollect⟩ := load_collect hgot hle
  rw [hlen] at hcollect
  have hlength := @length_append_take got src n hle
  have hstored : DecoderRefines
      { d with tmpIn := store d.tmpIn got.length (src.take n), tmpInSize := got.length + n } dst
      { a with phase := .storeSuffix hashed (got ++ src.take n) } :=
    ⟨hd.remaining_eq, hd.bufferSize_eq, hd.skipChecksum_eq, hstage, hxxh, hcollect⟩
  unfold dstage_storeSuffix AbstractDecoder.storeSuffix
  simp only [hlen, ← hn, hlength, hcollect]
  exact .ite Iff.rfl (fun _ => .stop ⟨rfl, rfl, hstored⟩)
    (fun _ => checkSuffix_refines hstored hxxh (Or.inr ⟨_, _, rfl⟩))

/-! ## Skippable frames -/

theorem decodeSFrameSize_refines {src dst : List UInt8} (hremaining : d.frameRemainingSize = a.remaining)
    (hbuffer : max d.maxBufferSize minBufferSize = a.bufferSize) (hskip : d.skipChecksum = false)
    (hnull : d.dict = .null) (hzero : d.dictSize = 0) (selectedIn : List UInt8) :
    IterationRefines (DecompressionContext.decodeSFrameSize ⟨d, src, dst⟩ selectedIn)
      (AbstractDecoder.decodeSFrameSize ⟨a, src, dst⟩ selectedIn) :=
  .again (.of_phase rfl rfl ⟨hremaining, hbuffer, hskip, rfl, hnull, hzero, rfl⟩ nofun)

theorem getSFrameSize_refines {src dst : List UInt8} (hd : DecoderRefines d dst a)
    (hphase : a.phase = .getSFrameSize) :
    IterationRefines (dstage_getSFrameSize ⟨d, src, dst⟩)
      (AbstractDecoder.getSFrameSize ⟨a, src, dst⟩) := by
  have hp := hd.phase
  rw [hphase] at hp
  obtain ⟨-, hnull, hzero⟩ := hp
  unfold dstage_getSFrameSize AbstractDecoder.getSFrameSize
  exact .ite Iff.rfl
    (fun _ => decodeSFrameSize_refines hd.remaining_eq hd.bufferSize_eq hd.skipChecksum_eq hnull
      hzero _)
    (fun _ => .again (.of_phase rfl rfl ⟨hd.remaining_eq, hd.bufferSize_eq, hd.skipChecksum_eq,
      rfl, hnull, hzero, rfl, rfl, rfl⟩ nofun))

theorem storeSFrameSize_refines {src dst got : List UInt8} (hd : DecoderRefines d dst a)
    (hphase : a.phase = .storeSFrameSize got) :
    IterationRefines (dstage_storeSFrameSize ⟨d, src, dst⟩)
      (AbstractDecoder.storeSFrameSize ⟨a, src, dst⟩ got) := by
  have hp := hd.phase
  rw [hphase] at hp
  obtain ⟨hstage, hnull, hzero, htarget, hsize, hgot⟩ := hp
  obtain ⟨n, hn⟩ : ∃ n, n = min (sizeSub 8 (4 + got.length)) src.length := ⟨_, rfl⟩
  have hle : n ≤ src.length := hn ▸ Nat.min_le_right _ _
  have hlength := @length_append_take got src n hle
  have htake : (src.take n).length = n := by rw [List.length_take, Nat.min_eq_left hle]
  have hcollect : load (store d.header (4 + got.length) (src.take n)) 4 (got.length + n) =
      got ++ src.take n := by
    have happ := load_store_append d.header 4 got.length (src.take n)
    rwa [hgot, htake] at happ
  have hleft : 4 + got.length + n - 4 = got.length + n := by omega
  have hsum : 4 + (got.length + n) = 4 + got.length + n := by omega
  unfold dstage_storeSFrameSize AbstractDecoder.storeSFrameSize
  simp only [hsize, htarget, ← hn, hlength, hleft, hcollect, hsum]
  refine .ite Iff.rfl (fun _ => .stop ⟨rfl, rfl, hd.remaining_eq, hd.bufferSize_eq,
    hd.skipChecksum_eq, hstage, hnull, hzero, rfl, ?_, ?_⟩) (fun _ => ?_)
  · rw [hlength, hsum]
  · rw [hlength, hcollect]
  · apply decodeSFrameSize_refines
    · exact hd.remaining_eq
    · exact hd.bufferSize_eq
    · exact hd.skipChecksum_eq
    · exact hnull
    · exact hzero

theorem skipSkippable_refines {src dst : List UInt8} {target : Nat} (hd : DecoderRefines d dst a)
    (hphase : a.phase = .skipSkippable target) :
    IterationRefines (dstage_skipSkippable ⟨d, src, dst⟩)
      (AbstractDecoder.skipSkippable ⟨a, src, dst⟩ target) := by
  have hp := hd.phase
  rw [hphase] at hp
  obtain ⟨hstage, hnull, hzero, rfl⟩ := hp
  unfold dstage_skipSkippable AbstractDecoder.skipSkippable
  exact .ite Iff.rfl
    (fun _ => .stop ⟨rfl, rfl, hd.remaining_eq, hd.bufferSize_eq, hd.skipChecksum_eq, hstage, hnull,
      hzero, rfl⟩)
    (fun _ => .stop ⟨rfl, rfl, hd.remaining_eq, hd.bufferSize_eq, rfl, rfl, rfl, rfl⟩)

/-! ## The call -/

theorem iteration_refines (fastLoop : Bool) (cap : Nat) {c : Call} {r : Run}
    (h : RunRefines c r) :
    IterationRefines (iteration fastLoop (some cap) c) (AbstractDecoder.step fastLoop cap r) := by
  obtain ⟨d, src, dst⟩ := c
  obtain ⟨a, src', dst'⟩ := r
  obtain ⟨rfl, rfl, hd, hstart⟩ := h
  have hp := hd.phase
  unfold iteration AbstractDecoder.step
  simp only at hd hstart hp ⊢
  cases hphase : a.phase with
  | getFrameHeader =>
    rw [hphase] at hp
    obtain rfl := hstart hphase
    rw [hp.1]
    exact getFrameHeader_refines hd hphase
  | storeFrameHeader target got =>
    rw [hphase] at hp
    rw [hp.1]
    exact storeFrameHeader_refines hd hphase
  | init frameInfo =>
    rw [hphase] at hp
    rw [hp.1]
    exact init_refines hd hphase
  | block b p =>
    rw [hphase] at hp
    obtain ⟨-, hblock, -⟩ := hp
    cases p with
    | getBlockHeader =>
      have hstage : d.dStage = .getBlockHeader := hblock
      rw [hstage]
      exact getBlockHeader_refines cap hd hphase
    | storeBlockHeader got =>
      rw [hblock.1]
      exact storeBlockHeader_refines cap hd hphase
    | copyDirect target summed =>
      rw [hblock.1]
      exact copyDirect_refines cap hd hphase
    | getBlockChecksum summed got =>
      rw [hblock.1]
      exact getBlockChecksum_refines hd hphase
    | getCBlock target =>
      rw [hblock.1]
      exact getCBlock_refines fastLoop cap hd hphase
    | storeCBlock target got =>
      rw [hblock.1]
      exact storeCBlock_refines fastLoop cap hd hphase
    | flushOut start pending =>
      rw [hblock.1]
      exact flushOut_refines cap hd hphase
  | getSuffix contentChecksumFlag hashed =>
    rw [hphase] at hp
    rw [hp.1]
    exact getSuffix_refines hd hphase
  | storeSuffix hashed got =>
    rw [hphase] at hp
    rw [hp.1]
    exact storeSuffix_refines hd hphase
  | getSFrameSize =>
    rw [hphase] at hp
    rw [hp.1]
    exact getSFrameSize_refines hd hphase
  | storeSFrameSize got =>
    rw [hphase] at hp
    rw [hp.1]
    exact storeSFrameSize_refines hd hphase
  | skipSkippable target =>
    rw [hphase] at hp
    rw [hp.1]
    exact skipSkippable_refines hd hphase

end Stages

/-- Both loops end alike. -/
theorem runStages_refines (fastLoop : Bool) (cap : Nat) (fuel : Nat) {c : Call} {r : Run}
    (h : RunRefines c r) :
    Option.Rel IterationRefines (runStages (iteration fastLoop (some cap)) fuel c)
      (runStages (AbstractDecoder.step fastLoop cap) fuel r) := by
  induction fuel generalizing c r with
  | zero => exact .none
  | succ fuel ih =>
    have hstep := iteration_refines fastLoop cap h
    unfold runStages
    generalize iteration fastLoop (some cap) c = x at hstep ⊢
    generalize AbstractDecoder.step fastLoop cap r = y at hstep ⊢
    cases hstep with
    | again h' => exact ih h'
    | stop h' => exact .some (.stop h')
    | fail h' => exact .some (.fail h')

/-- `LZ4F_decompress` is a call of the decoder. -/
theorem LZ4F_decompress_refines (fastLoop : Bool) (cap : Nat) (src : List UInt8) {d : LZ4F_dctx}
    {a : Decoder} (h : DecoderRefines d [] a) :
    (LZ4F_decompress fastLoop d (some cap) src).2 =
        (AbstractDecoder.decompress fastLoop a cap src).2 ∧
      DecoderRefines (LZ4F_decompress fastLoop d (some cap) src).1 []
        (AbstractDecoder.decompress fastLoop a cap src).1 := by
  have hrun := runStages_refines fastLoop cap (stagesFuel src.length)
    (c := ⟨d, src, []⟩) (r := ⟨a, src, []⟩) ⟨rfl, rfl, h, fun _ => rfl⟩
  unfold LZ4F_decompress AbstractDecoder.decompress
  generalize runStages (iteration fastLoop (some cap)) (stagesFuel src.length) ⟨d, src, []⟩ = x
    at hrun ⊢
  generalize runStages (AbstractDecoder.step fastLoop cap) (stagesFuel src.length) ⟨a, src, []⟩ = y
    at hrun ⊢
  cases hrun with
  | none => exact ⟨rfl, h⟩
  | some hi =>
    cases hi with
    | again h' => exact ⟨rfl, h⟩
    | stop h' =>
      obtain ⟨hsrc, hdst, hd⟩ := h'
      refine ⟨?_, ?_⟩
      · simp only [hsrc, hdst]
      · exact hd.leave _
    | fail h' => exact ⟨rfl, h'.decoder⟩

/-- A new context is a new decoder. -/
theorem create_refines : DecoderRefines LZ4F_createDecompressionContext [] Decoder.new :=
  ⟨rfl, rfl, rfl, rfl, rfl, rfl⟩

/-- `LZ4F_resetDecompressionContext` resets the decoder, wherever it is. -/
theorem LZ4F_reset_refines {d : LZ4F_dctx} {a : Decoder} (h : DecoderRefines d [] a) :
    DecoderRefines (LZ4F_resetDecompressionContext d) [] a.reset :=
  reset_refines h.remaining_eq h.bufferSize_eq []

end PythonLz4.Frame.DecoderRefinement
