import PythonLz4.Frame.Feeding
import PythonLz4.Frame.DecoderRefinement
import PythonLz4.Frame.CallBounds

/-!
# Calls and bytes

A call of the decoder does what `BytewiseDecoder.run` does with the same input and the same room:
`step_simulates` for one iteration, `decompress_accepts` and `decompress_of_run` for a call. The
place of a block does not show, except in one way: a block whose matches reach beyond the window is
accepted in front of its history and refused elsewhere. So a call that succeeds does what the
decoder with adjacent histories does, and what the decoder with separate histories does, a call
does.
-/

set_option autoImplicit false

namespace PythonLz4.Frame.BytewiseRefinement

open PythonLz4.Lib.HistoryWindow
open PythonLz4.Lib.LittleEndian
open PythonLz4.Block.DecompressGeneric
open PythonLz4.Frame.XXHash
open PythonLz4.Frame.Header
open PythonLz4.Frame.DecompressionContext (Iteration runStages stagesFuel Progress)
open PythonLz4.Frame.AbstractDecoder
open PythonLz4.Frame.BytewiseDecoder

/-! ## The reader of a decoder -/

def contentOf (b : Body) : Content := ⟨b.frameInfo, b.hashed, b.history.bytes⟩

@[simp] theorem contentOf_frameInfo (b : Body) : (contentOf b).frameInfo = b.frameInfo := rfl

@[simp] theorem contentOf_maxBlockSize (b : Body) :
    (contentOf b).maxBlockSize = b.maxBlockSize := rfl

/-- A field that has all its bytes was refused in an earlier call. -/
def settle (remaining : Nat) (f : Field) : Event :=
  if f.missing = 0 then .fail else .next ⟨remaining, f⟩ []

def blockView (remaining : Nat) (c : Content) : BlockPhase → Event
  | .getBlockHeader => .next ⟨remaining, .blockHeader c []⟩ []
  | .storeBlockHeader got => settle remaining (.blockHeader c got)
  | .copyDirect target summed => copyFrom remaining c target summed
  | .getBlockChecksum summed got => settle remaining (.blockChecksum c summed got)
  | .getCBlock target => settle remaining (.cBlock c target [])
  | .storeCBlock target got => settle remaining (.cBlock c target got)
  | .flushOut _ pending => .next ⟨remaining, .blockHeader c []⟩ pending

def phaseView (remaining : Nat) : Phase → Event
  | .getFrameHeader => .next (.start remaining) []
  | .storeFrameHeader target got => settle remaining (.header target got)
  | .init frameInfo => .next ⟨remaining, .blockHeader ⟨frameInfo, [], []⟩ []⟩ []
  | .block b p => blockView remaining (contentOf b) p
  | .getSuffix contentChecksumFlag hashed => suffixFrom remaining contentChecksumFlag hashed
  | .storeSuffix hashed got => settle remaining (.suffix hashed got)
  | .getSFrameSize => .next ⟨remaining, .skippableSize []⟩ []
  | .storeSFrameSize got => settle remaining (.skippableSize got)
  | .skipSkippable target => skipFrom remaining target

/-- Where the decoder is between two bytes. -/
def view (d : Decoder) : Event := phaseView d.remaining d.phase

/-! ## Decoders between two iterations -/

/-- A field is complete only when it was refused. -/
def Refused (remaining : Nat) (f : Field) : Prop :=
  f.missing = 0 → ∀ fastLoop adjacent, readField fastLoop adjacent remaining f = .fail

def BlockSound (remaining : Nat) (c : Content) : BlockPhase → Prop
  | .getBlockHeader => True
  | .storeBlockHeader got => got.length ≤ BHSize ∧ Refused remaining (.blockHeader c got)
  | .copyDirect target _ => target < SIZE_T
  | .getBlockChecksum summed got =>
    got.length ≤ 4 ∧ Refused remaining (.blockChecksum c summed got)
  | .getCBlock target => target < SIZE_T ∧ Refused remaining (.cBlock c target [])
  | .storeCBlock target got => target < SIZE_T ∧ got.length < target
  | .flushOut _ _ => True

def PhaseSound (remaining : Nat) : Phase → Prop
  | .storeFrameHeader target got =>
    minFHSize ≤ target ∧ target ≤ maxFHSize ∧ got.length ≤ target ∧
      (target = minFHSize ∨ (minFHSize ≤ got.length ∧ ¬ isSkippable got)) ∧
      Refused remaining (.header target got)
  | .block b p => (contentOf b).Windowed ∧ BlockSound remaining (contentOf b) p
  | .storeSuffix hashed got => got.length ≤ 4 ∧ Refused remaining (.suffix hashed got)
  | .storeSFrameSize got => got.length < 4
  | .skipSkippable target => target < SIZE_T
  | _ => True

/-- A decoder that no error has left in the middle of a compressed block. -/
structure Sound (d : Decoder) : Prop where
  remaining_lt : d.remaining < SIZE_T
  phase : PhaseSound d.remaining d.phase

/-- An error has left the decoder with all of a compressed block: the next call decodes it
again. -/
structure Retries (d : Decoder) : Prop where
  remaining_lt : d.remaining < SIZE_T
  held : ∃ b target got, d.phase = .block b (.storeCBlock target got) ∧ target < SIZE_T ∧
    target ≤ got.length ∧ (contentOf b).Windowed

/-- The decoder of a running call. -/
structure RunSound (cap : Nat) (r : Run) : Prop where
  decoder : Sound r.decoder
  fits : r.dst.length ≤ cap

/-- Nothing is waiting in `tmpOut` unless the decoder is flushing it. -/
def Flushes : Phase → Prop
  | .block _ (.flushOut _ pending) => pending ≠ []
  | _ => True

section Simulation

variable (fastLoop adjacent : Bool) (cap : Nat)

/-- What is left of a call. -/
def outcome (r : Run) : Outcome :=
  resume fastLoop adjacent cap (view r.decoder) r.dst r.src

/-- An iteration goes the way of an outcome. Only a block that reaches beyond the window leads them
apart. -/
inductive Simulates (o : Outcome) : Iteration Run → Prop
  | again {r : Run} (sound : RunSound cap r) (same : o = outcome fastLoop adjacent cap r) :
      Simulates o (.again r)
  | stop {r : Run} {hint : Nat} {s : Reader} {pending : List UInt8} (hint_ne : hint ≠ 0)
      (flushes : Flushes r.decoder.phase) (sound : Sound r.decoder) (view_eq : view r.decoder = .next s pending)
      (same : o = .stop s pending r.dst r.src) : Simulates o (.stop r hint)
  | finish {r : Run} (sound : Sound r.decoder) (phase_eq : r.decoder.phase = .getFrameHeader)
      (same : o = .finish r.decoder.remaining r.dst r.src) : Simulates o (.stop r 0)
  | fail {r : Run} {e : LZ4F_errorCode} (kept : Sound r.decoder ∨ Retries r.decoder)
      (same : o = .fail) : Simulates o (.fail r e)
  | refused {r : Run} {e : LZ4F_errorCode} (kept : Sound r.decoder ∨ Retries r.decoder)
      (reaches : adjacent = true) : Simulates o (.fail r e)
  | strict {i : Iteration Run} (separate : adjacent = false) (same : o = .fail) : Simulates o i

variable {fastLoop adjacent : Bool} {cap : Nat} {r : Run}

/-! ## Small facts -/

theorem settle_pos {remaining : Nat} {f : Field} (h : 0 < f.missing) :
    settle remaining f = .next ⟨remaining, f⟩ [] := if_neg (Nat.ne_of_gt h)

theorem refused_of_pos {remaining : Nat} {f : Field} (h : 0 < f.missing) : Refused remaining f :=
  fun hzero => absurd hzero (Nat.ne_of_gt h)

/-- The last bytes of a field, if it is short of some. -/
theorem resume_settle {remaining : Nat} {f : Field} (h : f.gathers = true)
    (hrefused : Refused remaining f) {src : List UInt8} (hle : f.missing ≤ src.length)
    (dst : List UInt8) :
    resume fastLoop adjacent cap (settle remaining f) dst src =
      advance fastLoop adjacent cap
        (readField fastLoop adjacent remaining (f.append (src.take f.missing))) dst
        (src.drop f.missing) := by
  rcases Nat.eq_zero_or_pos f.missing with hzero | hpos
  · rw [settle, if_pos hzero, hzero, List.take_zero, append_nil, hrefused hzero]
    rfl
  · rw [settle_pos hpos]
    exact run_complete h hpos hle

/-- The input ends inside a field. -/
theorem resume_settle_short {remaining : Nat} {f : Field} (h : f.gathers = true)
    {src : List UInt8} (hlt : src.length < f.missing) (dst : List UInt8) :
    resume fastLoop adjacent cap (settle remaining f) dst src =
      .stop ⟨remaining, f.append src⟩ [] dst [] := by
  rw [settle_pos (Nat.zero_lt_of_lt hlt)]
  exact run_short h hlt

theorem leNat_take_lt (k : Nat) (bytes : List UInt8) : leNat (bytes.take k) < 256 ^ k :=
  Nat.lt_of_lt_of_le (leNat_lt _)
    (Nat.pow_le_pow_right (Nat.succ_pos 255) (List.length_take_le k bytes))

theorem contentSize_lt {src : List UInt8} {n : Nat} {frameInfo : LZ4F_frameInfo} {flag : Bool}
    (h : readFrameHeader src = .ok (.complete n frameInfo flag)) : frameInfo.contentSize < SIZE_T := by
  obtain ⟨-, rfl, -⟩ := readFrameHeader_complete_iff.1 h
  show (if flagByte src / 8 % 2 = 1 then leNat ((src.drop 6).take 8) else 0) < SIZE_T
  split_ifs
  · exact leNat_take_lt 8 _
  · exact Nat.two_pow_pos 64

theorem isSkippable_append {got : List UInt8} (h : minFHSize ≤ got.length) (rest : List UInt8) :
    isSkippable (got ++ rest) ↔ isSkippable got := by
  unfold isSkippable
  rw [List.take_append_of_le_length (Nat.le_trans (by decide) h)]

/-- What a stage reads of its field. -/
theorem collect_eq {target held : Nat} (hle : held ≤ target) (ht : target < SIZE_T)
    (src : List UInt8) :
    min (sizeSub target held) src.length = min (target - held) src.length := by
  rw [sizeSub_of_le hle ht]

/-- What a field has when the input ends inside of it. -/
theorem append_take_short {src : List UInt8} {target : Nat} {got : List UInt8}
    (hlt : (got ++ src.take (min (target - got.length) src.length)).length < target) :
    src.take (min (target - got.length) src.length) = src ∧
      src.drop (min (target - got.length) src.length) = [] ∧ src.length < target - got.length := by
  rw [List.length_append, List.length_take] at hlt
  have hmin : min (target - got.length) src.length = src.length := by omega
  rw [hmin, List.take_length, List.drop_length]
  exact ⟨rfl, rfl, by omega⟩

/-- What a field has when the input goes beyond it. -/
theorem append_take_complete {src : List UInt8} {target : Nat} {got : List UInt8}
    (hle : got.length ≤ target)
    (hnot : ¬ (got ++ src.take (min (target - got.length) src.length)).length < target) :
    min (target - got.length) src.length = target - got.length ∧
      target - got.length ≤ src.length ∧
      (got ++ src.take (target - got.length)).length = target := by
  rw [List.length_append, List.length_take] at hnot
  have hmin : min (target - got.length) src.length = target - got.length := by omega
  have hsrc : target - got.length ≤ src.length := by omega
  refine ⟨hmin, hsrc, ?_⟩
  rw [List.length_append, List.length_take, Nat.min_eq_left hsrc]
  omega

/-! ## Headers -/

/-- The header in `got` is read. -/
theorem header_collected_simulates {target : Nat} {got : List UInt8}
    (hr : r.decoder.remaining < SIZE_T)
    (hkept : ∀ e, readFrameHeader got = .error e → Sound r.decoder)
    (hfits : r.dst.length ≤ cap) (hmin : minFHSize ≤ target)
    (hlen : got.length = target) (hskip : target = minFHSize ∨ ¬ isSkippable got) :
    Simulates fastLoop adjacent cap
      (advance fastLoop adjacent cap (readHeader r.decoder.remaining target got) r.dst r.src)
      (match r.header got true with
        | .error e => .fail r e
        | .ok r' => .again r') := by
  have htake : got.take target = got := List.take_of_length_le (Nat.le_of_eq hlen)
  have hlong : ¬ got.length < minFHSize := by omega
  rw [advance_readHeader]
  unfold Run.header readHeader
  rw [if_neg hlong, htake]
  cases hread : readFrameHeader got with
  | error e => exact .fail (Or.inl (hkept e hread)) rfl
  | ok said =>
    cases said with
    | skippable =>
      have htarget : target = minFHSize :=
        hskip.resolve_right (not_not.2 (readFrameHeader_skippable_iff.1 hread))
      have hthree : (got.drop 4).length < 4 := by
        rw [List.length_drop, hlen, htarget]
        decide
      have hview : settle r.decoder.remaining (.skippableSize (got.drop 4)) =
          .next ⟨r.decoder.remaining, .skippableSize (got.drop 4)⟩ [] :=
        settle_pos (Nat.sub_pos_of_lt hthree)
      refine .again ⟨⟨hr, hthree⟩, hfits⟩ ?_
      unfold outcome
      show _ = resume _ _ _ (settle r.decoder.remaining (.skippableSize (got.drop 4))) r.dst r.src
      rw [hview]
    | incomplete n =>
      obtain ⟨hlt, hn⟩ := readFrameHeader_incomplete hread
      have hnot : ¬ isSkippable got := by
        intro hskip
        rw [readFrameHeader_skippable_iff.2 hskip] at hread
        cases hread
      have hpos : 0 < (Field.header n got).missing := Nat.sub_pos_of_lt hlt
      refine .again ⟨⟨hr, ?_⟩, hfits⟩ ?_
      · exact ⟨by omega, hn, Nat.le_of_lt hlt, Or.inr ⟨by omega, hnot⟩, refused_of_pos hpos⟩
      · unfold outcome
        show _ = resume _ _ _ (settle r.decoder.remaining (.header n got)) r.dst r.src
        rw [settle_pos hpos]
    | complete n frameInfo contentSizeFlag =>
      refine .again ⟨⟨?_, trivial⟩, hfits⟩ rfl
      show (if contentSizeFlag then frameInfo.contentSize else r.decoder.remaining) < SIZE_T
      split_ifs
      · exact contentSize_lt hread
      · exact hr

theorem getFrameHeader_simulates (hr : RunSound cap r)
    (hphase : r.decoder.phase = .getFrameHeader) :
    Simulates fastLoop adjacent cap (outcome fastLoop adjacent cap r) (getFrameHeader r) := by
  have hsound := hr.decoder
  have hview : outcome fastLoop adjacent cap r =
      run fastLoop adjacent cap (.start r.decoder.remaining) [] r.dst r.src := by
    unfold outcome view
    rw [hphase]
    rfl
  rw [hview]
  unfold getFrameHeader
  by_cases hlong : maxFHSize ≤ r.src.length
  · rw [if_pos hlong]
    have hmin : ¬ r.src.length < minFHSize := Nat.not_lt.2 (Nat.le_trans (by decide) hlong)
    show Simulates _ _ _ (run _ _ _ ⟨r.decoder.remaining, .header minFHSize []⟩ [] _ _) _
    rw [run_header hlong]
    unfold Run.header headerRead
    rw [if_neg hmin]
    cases hread : readFrameHeader r.src with
    | error e => exact .fail (Or.inl hsound) rfl
    | ok said =>
      cases said with
      | skippable => exact .again ⟨⟨hsound.remaining_lt, trivial⟩, hr.fits⟩ rfl
      | incomplete n =>
        obtain ⟨hlt, hmax⟩ := readFrameHeader_incomplete hread
        exact absurd (Nat.le_trans hmax hlong) (Nat.not_le.2 hlt)
      | complete n frameInfo contentSizeFlag =>
        refine .again ⟨⟨?_, trivial⟩, hr.fits⟩ rfl
        show (if contentSizeFlag then frameInfo.contentSize else r.decoder.remaining) < SIZE_T
        split_ifs
        · exact contentSize_lt hread
        · exact hsound.remaining_lt
  rw [if_neg hlong]
  by_cases hnil : r.src.length = 0
  · rw [if_pos hnil]
    have hsrc := List.eq_nil_of_length_eq_zero hnil
    have hview : view r.decoder = .next (.start r.decoder.remaining) [] := by
      rw [view, hphase]
      rfl
    refine .stop (Nat.succ_ne_zero 6) ?_ hsound hview ?_
    · rw [hphase]
      trivial
    · rw [hsrc, run_nil]
  · rw [if_neg hnil]
    refine .again ⟨⟨hsound.remaining_lt, ?_⟩, hr.fits⟩ rfl
    have hpos : 0 < (Field.header minFHSize []).missing := Nat.succ_pos 6
    exact ⟨Nat.le_refl _, by decide, Nat.zero_le _, Or.inl rfl, refused_of_pos hpos⟩

theorem storeFrameHeader_simulates {target : Nat} {got : List UInt8} (hr : RunSound cap r)
    (hphase : r.decoder.phase = .storeFrameHeader target got) :
    Simulates fastLoop adjacent cap (outcome fastLoop adjacent cap r)
      (storeFrameHeader r target got) := by
  have hsound := hr.decoder
  obtain ⟨hmin, hmax, hle, hskip, hrefused⟩ : PhaseSound r.decoder.remaining
      (.storeFrameHeader target got) := hphase ▸ hsound.phase
  have hsize : target < SIZE_T := Nat.lt_of_le_of_lt hmax (by decide)
  have hview : outcome fastLoop adjacent cap r = resume fastLoop adjacent cap
      (settle r.decoder.remaining (.header target got)) r.dst r.src := by
    unfold outcome view
    rw [hphase]
    rfl
  have hskip' : ∀ bytes, target = minFHSize ∨ ¬ isSkippable (got ++ bytes) := fun bytes =>
    hskip.imp_right fun h => fun hs => h.2 ((isSkippable_append h.1 bytes).1 hs)
  rw [hview]
  unfold storeFrameHeader
  rw [collect_eq hle hsize]
  by_cases hshort : (got ++ r.src.take (min (target - got.length) r.src.length)).length < target
  · obtain ⟨htake, hdrop, hlt⟩ := append_take_short hshort
    rw [htake] at hshort
    have hpos : 0 < (Field.header target (got ++ r.src)).missing := Nat.sub_pos_of_lt hshort
    simp only [htake, if_pos hshort]
    refine .stop (Nat.ne_of_gt (Nat.lt_of_lt_of_le (Nat.succ_pos 3) (Nat.le_add_left _ _))) trivial
      ⟨hsound.remaining_lt, hmin, hmax, Nat.le_of_lt hshort, ?_, refused_of_pos hpos⟩
      (settle_pos hpos) ?_
    · refine hskip.imp_right fun h => ⟨?_, fun hs => h.2 ((isSkippable_append h.1 _).1 hs)⟩
      rw [List.length_append]
      exact Nat.le_trans h.1 (Nat.le_add_right _ _)
    · rw [resume_settle_short rfl hlt]
      show _ = Outcome.stop _ _ _ (r.src.drop _)
      rw [hdrop]
      rfl
  · obtain ⟨hn, hsrc, hlen⟩ := append_take_complete hle hshort
    simp only [hn] at hshort ⊢
    rw [if_neg hshort, List.take_of_length_le (Nat.le_of_eq hlen)]
    rw [resume_settle rfl hrefused hsrc]
    refine @header_collected_simulates fastLoop adjacent cap
      ((r.goTo (.storeFrameHeader target (got ++ r.src.take (target - got.length)))).read
        (target - got.length)) target _
      hsound.remaining_lt (fun e he => ⟨hsound.remaining_lt, hmin, hmax, Nat.le_of_eq hlen, ?_, ?_⟩)
      hr.fits hmin hlen (hskip' _)
    · refine hskip.imp_right fun h => ⟨?_, fun hs => h.2 ((isSkippable_append h.1 _).1 hs)⟩
      rw [List.length_append]
      exact Nat.le_trans h.1 (Nat.le_add_right _ _)
    · intro _ fastLoop adjacent
      have herror : readFrameHeader (got ++ r.src.take (target - got.length)) = .error e := he
      show readHeader _ _ _ = _
      rw [readHeader, List.take_of_length_le (Nat.le_of_eq hlen), herror]

theorem init_simulates {frameInfo : LZ4F_frameInfo} (hr : RunSound cap r)
    (hphase : r.decoder.phase = .init frameInfo) :
    Simulates fastLoop adjacent cap (outcome fastLoop adjacent cap r) (init r frameInfo) := by
  refine .again ⟨⟨hr.decoder.remaining_lt, ?_⟩, hr.fits⟩ ?_
  · exact ⟨Nat.zero_le _, trivial⟩
  · unfold outcome view
    rw [hphase]
    rfl

/-! ## The end of a frame -/

theorem finish_sound (hr : r.decoder.remaining < SIZE_T) : Sound r.finish.decoder := ⟨hr, trivial⟩

theorem checkSuffix_simulates {stored : Phase} {hashed selectedIn : List UInt8}
    (hr : r.decoder.remaining < SIZE_T)
    (hkept : leNat (selectedIn.take 4) ≠ XXH32_digest hashed →
      PhaseSound r.decoder.remaining stored) :
    Simulates fastLoop adjacent cap
      (advance fastLoop adjacent cap
        (readField fastLoop adjacent r.decoder.remaining (.suffix hashed selectedIn)) r.dst r.src)
      (checkSuffix r stored hashed selectedIn) := by
  have hread : readField fastLoop adjacent r.decoder.remaining (.suffix hashed selectedIn) =
      if leNat (selectedIn.take 4) ≠ XXH32_digest hashed then .fail
      else .finish r.decoder.remaining := rfl
  unfold checkSuffix
  rw [hread]
  by_cases hwrong : leNat (selectedIn.take 4) ≠ XXH32_digest hashed
  · rw [if_pos hwrong, if_pos hwrong]
    exact .fail (Or.inl ⟨hr, hkept hwrong⟩) rfl
  · rw [if_neg hwrong, if_neg hwrong]
    exact .finish (finish_sound hr) rfl rfl

theorem getSuffix_simulates {contentChecksumFlag : Bool} {hashed : List UInt8}
    (hr : RunSound cap r) (hphase : r.decoder.phase = .getSuffix contentChecksumFlag hashed) :
    Simulates fastLoop adjacent cap (outcome fastLoop adjacent cap r)
      (getSuffix r contentChecksumFlag hashed) := by
  have hsound := hr.decoder
  have hview : outcome fastLoop adjacent cap r = resume fastLoop adjacent cap
      (suffixFrom r.decoder.remaining contentChecksumFlag hashed) r.dst r.src := by
    unfold outcome view
    rw [hphase]
    rfl
  rw [hview]
  unfold getSuffix suffixFrom
  by_cases hsize : r.decoder.remaining ≠ 0
  · rw [if_pos hsize, if_pos hsize]
    exact .fail (Or.inl hsound) rfl
  rw [if_neg hsize, if_neg hsize]
  by_cases hflag : contentChecksumFlag = false
  · rw [if_pos hflag, if_pos hflag]
    exact .finish (finish_sound hsound.remaining_lt) rfl rfl
  rw [if_neg hflag, if_neg hflag]
  by_cases hshort : r.src.length < 4
  · rw [if_pos hshort]
    have hpos : 0 < (Field.suffix hashed []).missing := Nat.succ_pos 3
    exact .again ⟨⟨hsound.remaining_lt, Nat.zero_le _, refused_of_pos hpos⟩, hr.fits⟩ rfl
  · rw [if_neg hshort]
    have hfour : (Field.suffix hashed []).missing ≤ r.src.length := Nat.not_lt.1 hshort
    show Simulates _ _ _ (run _ _ _ ⟨_, Field.suffix hashed []⟩ [] _ _) _
    rw [run_complete (s := ⟨_, Field.suffix hashed []⟩) rfl (Nat.succ_pos 3) hfour]
    exact @checkSuffix_simulates fastLoop adjacent cap (r.read 4) _ hashed _ hsound.remaining_lt
      fun _ => trivial

theorem storeSuffix_simulates {hashed got : List UInt8} (hr : RunSound cap r)
    (hphase : r.decoder.phase = .storeSuffix hashed got) :
    Simulates fastLoop adjacent cap (outcome fastLoop adjacent cap r)
      (storeSuffix r hashed got) := by
  have hsound := hr.decoder
  obtain ⟨hle, hrefused⟩ : PhaseSound r.decoder.remaining (.storeSuffix hashed got) :=
    hphase ▸ hsound.phase
  have hview : outcome fastLoop adjacent cap r = resume fastLoop adjacent cap
      (settle r.decoder.remaining (.suffix hashed got)) r.dst r.src := by
    unfold outcome view
    rw [hphase]
    rfl
  rw [hview]
  unfold storeSuffix
  rw [collect_eq hle (by decide)]
  by_cases hshort : (got ++ r.src.take (min (4 - got.length) r.src.length)).length < 4
  · obtain ⟨htake, hdrop, hlt⟩ := append_take_short hshort
    rw [htake] at hshort
    have hpos : 0 < (Field.suffix hashed (got ++ r.src)).missing := Nat.sub_pos_of_lt hshort
    simp only [htake, if_pos hshort]
    refine .stop (Nat.ne_of_gt hpos) trivial
      ⟨hsound.remaining_lt, Nat.le_of_lt hshort, refused_of_pos hpos⟩ (settle_pos hpos) ?_
    rw [resume_settle_short rfl hlt]
    show _ = Outcome.stop _ _ _ (r.src.drop _)
    rw [hdrop]
    rfl
  · obtain ⟨hn, hsrc, hlen⟩ := append_take_complete hle hshort
    simp only [hn] at hshort ⊢
    rw [if_neg hshort, resume_settle rfl hrefused hsrc]
    refine @checkSuffix_simulates fastLoop adjacent cap (r.read (4 - got.length)) _ hashed _
      hsound.remaining_lt fun hwrong => ⟨Nat.le_of_eq hlen, fun _ _ _ => if_pos hwrong⟩

/-! ## Skippable frames -/

theorem decodeSFrameSize_simulates (selectedIn : List UInt8) (hr : RunSound cap r) :
    Simulates fastLoop adjacent cap
      (advance fastLoop adjacent cap
        (readField fastLoop adjacent r.decoder.remaining (.skippableSize selectedIn)) r.dst r.src)
      (decodeSFrameSize r selectedIn) := by
  unfold readField
  rw [advance_skipFrom]
  refine .again ⟨⟨hr.decoder.remaining_lt, ?_⟩, hr.fits⟩ rfl
  exact Nat.lt_trans (leNat_take_lt 4 selectedIn) (by decide)

theorem getSFrameSize_simulates (hr : RunSound cap r)
    (hphase : r.decoder.phase = .getSFrameSize) :
    Simulates fastLoop adjacent cap (outcome fastLoop adjacent cap r) (getSFrameSize r) := by
  have hsound := hr.decoder
  have hview : outcome fastLoop adjacent cap r =
      run fastLoop adjacent cap ⟨r.decoder.remaining, .skippableSize []⟩ [] r.dst r.src := by
    unfold outcome view
    rw [hphase]
    rfl
  unfold getSFrameSize
  by_cases hfour : 4 ≤ r.src.length
  · rw [if_pos hfour, hview,
      run_complete (s := ⟨_, Field.skippableSize []⟩) rfl (Nat.succ_pos 3) hfour]
    exact @decodeSFrameSize_simulates fastLoop adjacent cap (r.read 4) _
      ⟨⟨hsound.remaining_lt, hsound.phase⟩, hr.fits⟩
  · rw [if_neg hfour, hview]
    exact .again ⟨⟨hsound.remaining_lt, Nat.succ_pos 3⟩, hr.fits⟩ rfl

theorem storeSFrameSize_simulates {got : List UInt8} (hr : RunSound cap r)
    (hphase : r.decoder.phase = .storeSFrameSize got) :
    Simulates fastLoop adjacent cap (outcome fastLoop adjacent cap r)
      (storeSFrameSize r got) := by
  have hsound := hr.decoder
  have hlt4 : got.length < 4 := by
    have hp := hsound.phase
    rw [hphase] at hp
    exact hp
  have hrefused : Refused r.decoder.remaining (.skippableSize got) :=
    refused_of_pos (Nat.sub_pos_of_lt hlt4)
  have hview : outcome fastLoop adjacent cap r = resume fastLoop adjacent cap
      (settle r.decoder.remaining (.skippableSize got)) r.dst r.src := by
    unfold outcome view
    rw [hphase]
    rfl
  have hsize : min (sizeSub 8 (4 + got.length)) r.src.length =
      min (4 - got.length) r.src.length := by
    rw [sizeSub_of_le (by omega) (by decide), Nat.sub_add_eq]
  rw [hview]
  unfold storeSFrameSize
  rw [hsize]
  by_cases hshort : (got ++ r.src.take (min (4 - got.length) r.src.length)).length < 4
  · obtain ⟨htake, hdrop, hlt⟩ := append_take_short hshort
    rw [htake] at hshort
    have hpos : 0 < (Field.skippableSize (got ++ r.src)).missing := Nat.sub_pos_of_lt hshort
    have hless : 4 + (got ++ r.src).length < 8 := Nat.add_lt_add_left hshort 4
    simp only [htake, if_pos hless]
    refine .stop (Nat.ne_of_gt (Nat.sub_pos_of_lt hless)) trivial ⟨hsound.remaining_lt, hshort⟩
      (settle_pos hpos) ?_
    rw [resume_settle_short rfl hlt]
    show _ = Outcome.stop _ _ _ (r.src.drop _)
    rw [hdrop]
    rfl
  · obtain ⟨hn, hsrc, hlen⟩ := append_take_complete (Nat.le_of_lt hlt4) hshort
    have hless : ¬ 4 + (got ++ r.src.take (4 - got.length)).length < 8 := by
      rw [hlen]
      decide
    simp only [hn]
    rw [if_neg hless, resume_settle rfl hrefused hsrc]
    exact @decodeSFrameSize_simulates fastLoop adjacent cap (r.read (4 - got.length)) _
      ⟨⟨hsound.remaining_lt, hsound.phase⟩, hr.fits⟩

theorem skipSkippable_simulates {target : Nat} (hr : RunSound cap r)
    (hphase : r.decoder.phase = .skipSkippable target) :
    Simulates fastLoop adjacent cap (outcome fastLoop adjacent cap r)
      (skipSkippable r target) := by
  have hsound := hr.decoder
  have htarget : target < SIZE_T := by
    have hp := hsound.phase
    rw [hphase] at hp
    exact hp
  have hlen : (r.src.take (min target r.src.length)).length = min target r.src.length := by
    rw [List.length_take, Nat.min_assoc, Nat.min_self]
  have hview : outcome fastLoop adjacent cap r = resume fastLoop adjacent cap
      (skipFrom r.decoder.remaining (target - min target r.src.length)) r.dst
      (r.src.drop (min target r.src.length)) := by
    have hskip := @run_skip fastLoop adjacent cap r.dst r.decoder.remaining target
      (r.src.take (min target r.src.length)) (by rw [hlen]; exact Nat.min_le_left _ _)
      (r.src.drop (min target r.src.length))
    rw [List.take_append_drop, hlen] at hskip
    rw [← hskip]
    unfold outcome view
    rw [hphase]
    rfl
  rw [hview]
  unfold skipSkippable
  by_cases hmore : target - min target r.src.length ≠ 0
  · rw [if_pos hmore]
    have hdrop : r.src.drop (min target r.src.length) = [] := by
      rw [Nat.min_eq_right (by omega), List.drop_length]
    have hevent : skipFrom r.decoder.remaining (target - min target r.src.length) =
        .next ⟨r.decoder.remaining, .skip (target - min target r.src.length)⟩ [] := if_neg hmore
    refine .stop hmore trivial
      ⟨hsound.remaining_lt, Nat.lt_of_le_of_lt (Nat.sub_le _ _) htarget⟩ hevent ?_
    rw [hevent]
    show run _ _ _ _ [] r.dst _ = Outcome.stop _ _ _ (r.src.drop _)
    rw [hdrop, run_nil]
    rfl
  · rw [if_neg hmore, not_not.1 hmore]
    exact .finish (finish_sound hsound.remaining_lt) rfl rfl

/-! ## Block headers -/

theorem advance_pending {s : Reader} (h : s.field.entersCBlock = false) {piece : List UInt8}
    {dst : List UInt8} (hfits : piece.length ≤ cap - dst.length) (src : List UInt8) :
    advance fastLoop adjacent cap (.next s piece) dst src =
      run fastLoop adjacent cap s [] (dst ++ piece) src := by
  rw [advance_next h, run_pending hfits]

/-- The block header in `selectedIn` is read. -/
theorem blockHeader_simulates {b : Body} {stored : BlockPhase} {selectedIn : List UInt8}
    (hr : r.decoder.remaining < SIZE_T) (hfits : r.dst.length ≤ cap)
    (hc : (contentOf b).Windowed)
    (hkept : readBlockHeader r.decoder.remaining (contentOf b) selectedIn = .fail →
      BlockSound r.decoder.remaining (contentOf b) stored) :
    Simulates fastLoop adjacent cap
      (advance fastLoop adjacent cap
        (readField fastLoop adjacent r.decoder.remaining (.blockHeader (contentOf b) selectedIn))
        r.dst r.src)
      (blockHeader cap r b stored selectedIn) := by
  have hread : readField fastLoop adjacent r.decoder.remaining
      (.blockHeader (contentOf b) selectedIn) =
        readBlockHeader r.decoder.remaining (contentOf b) selectedIn := rfl
  have hlt : leNat (selectedIn.take 4) < 256 ^ 4 := leNat_take_lt 4 selectedIn
  rw [hread]
  unfold blockHeader
  unfold readBlockHeader at hkept ⊢
  dsimp only at hkept ⊢
  rw [contentOf_maxBlockSize, contentOf_frameInfo] at hkept ⊢
  by_cases hend : leNat (selectedIn.take 4) = 0
  · rw [if_pos hend, if_pos hend, advance_suffixFrom]
    exact .again ⟨⟨hr, trivial⟩, hfits⟩ rfl
  rw [if_neg hend] at hkept ⊢
  rw [if_neg hend]
  by_cases hlarge : b.maxBlockSize < leNat (selectedIn.take 4) % 0x80000000
  · rw [if_pos hlarge] at hkept ⊢
    rw [if_pos hlarge]
    exact .fail (Or.inl ⟨hr, hc, hkept rfl⟩) rfl
  rw [if_neg hlarge, if_neg hlarge]
  by_cases hflag : LZ4F_BLOCKUNCOMPRESSED_FLAG ≤ leNat (selectedIn.take 4)
  · rw [if_pos hflag, if_pos hflag, advance_copyFrom]
    refine .again ⟨⟨hr, hc, ?_⟩, hfits⟩ rfl
    exact Nat.lt_of_lt_of_le (Nat.mod_lt _ (by decide)) (by decide)
  rw [if_neg hflag, if_neg hflag]
  -- a compressed block of at least one byte
  obtain ⟨target, htarget⟩ : ∃ target, target = leNat (selectedIn.take 4) % 0x80000000 +
      (if b.frameInfo.blockChecksumFlag then BFSize else 0) := ⟨_, rfl⟩
  rw [← htarget]
  have hsmall : leNat (selectedIn.take 4) % 0x80000000 = leNat (selectedIn.take 4) :=
    Nat.mod_eq_of_lt (Nat.not_le.1 hflag)
  have hpos : 0 < (Field.cBlock (contentOf b) target []).missing := by
    show 0 < target - 0
    omega
  have hsize : target < SIZE_T := by
    have hcrc : (if b.frameInfo.blockChecksumFlag then BFSize else 0) ≤ 4 := by
      split_ifs
      · exact Nat.le_refl 4
      · exact Nat.zero_le 4
    unfold SIZE_T
    omega
  have hview : blockView r.decoder.remaining (contentOf b) (.getCBlock target) =
      .next ⟨r.decoder.remaining, .cBlock (contentOf b) target []⟩ [] := settle_pos hpos
  have hhint : BHSize + leNat (selectedIn.take 4) % 0x80000000 +
      (if b.frameInfo.blockChecksumFlag then BFSize else 0) ≠ 0 := by
    unfold BHSize
    omega
  have hentered : advance fastLoop adjacent cap
      (.next ⟨r.decoder.remaining, .cBlock (contentOf b) target []⟩ []) r.dst r.src =
        if cap ≤ r.dst.length then .stop ⟨r.decoder.remaining, .cBlock (contentOf b) target []⟩ []
          r.dst r.src
        else run fastLoop adjacent cap ⟨r.decoder.remaining, .cBlock (contentOf b) target []⟩ []
          r.dst r.src := by
    simp only [advance, Field.entersCBlock, true_and]
  rw [hentered]
  by_cases hstop : Run.room cap r = 0 ∨ r.src = []
  · rw [if_pos hstop]
    refine .stop hhint trivial ⟨hr, hc, hsize, refused_of_pos hpos⟩ hview ?_
    by_cases hfull : cap ≤ r.dst.length
    · rw [if_pos hfull]
      rfl
    · have hsrc : r.src = [] := hstop.resolve_left fun h => hfull (Nat.sub_eq_zero_iff_le.1 h)
      rw [if_neg hfull, hsrc, run_nil]
      show _ = Outcome.stop _ _ _ r.src
      rw [hsrc]
      rfl
  · rw [if_neg hstop]
    have hroom : ¬ cap ≤ r.dst.length := fun h => hstop (Or.inl (Nat.sub_eq_zero_of_le h))
    rw [if_neg hroom]
    refine .again ⟨⟨hr, hc, hsize, refused_of_pos hpos⟩, hfits⟩ ?_
    show _ = resume _ _ _ (blockView r.decoder.remaining _ (.getCBlock target)) r.dst r.src
    rw [hview]
    rfl

theorem getBlockHeader_simulates {b : Body} (hr : RunSound cap r)
    (hphase : r.decoder.phase = .block b .getBlockHeader) :
    Simulates fastLoop adjacent cap (outcome fastLoop adjacent cap r)
      (getBlockHeader cap r b) := by
  have hsound := hr.decoder
  obtain ⟨hc, -⟩ : PhaseSound r.decoder.remaining (.block b .getBlockHeader) :=
    hphase ▸ hsound.phase
  have hview : outcome fastLoop adjacent cap r = run fastLoop adjacent cap
      ⟨r.decoder.remaining, .blockHeader (contentOf b) []⟩ [] r.dst r.src := by
    unfold outcome view
    rw [hphase]
    rfl
  unfold getBlockHeader
  by_cases hfour : BHSize ≤ r.src.length
  · rw [if_pos hfour, hview,
      run_complete (s := ⟨_, Field.blockHeader _ []⟩) rfl (Nat.succ_pos 3) hfour]
    exact @blockHeader_simulates fastLoop adjacent cap (r.read BHSize) b _ _ hsound.remaining_lt
      hr.fits hc fun _ => trivial
  · rw [if_neg hfour, hview]
    have hpos : 0 < (Field.blockHeader (contentOf b) []).missing := Nat.succ_pos 3
    exact .again ⟨⟨hsound.remaining_lt, hc, Nat.zero_le _, refused_of_pos hpos⟩, hr.fits⟩ rfl

theorem storeBlockHeader_simulates {b : Body} {got : List UInt8} (hr : RunSound cap r)
    (hphase : r.decoder.phase = .block b (.storeBlockHeader got)) :
    Simulates fastLoop adjacent cap (outcome fastLoop adjacent cap r)
      (storeBlockHeader cap r b got) := by
  have hsound := hr.decoder
  obtain ⟨hc, hle, hrefused⟩ : PhaseSound r.decoder.remaining (.block b (.storeBlockHeader got)) :=
    hphase ▸ hsound.phase
  have hview : outcome fastLoop adjacent cap r = resume fastLoop adjacent cap
      (settle r.decoder.remaining (.blockHeader (contentOf b) got)) r.dst r.src := by
    unfold outcome view
    rw [hphase]
    rfl
  rw [hview]
  unfold storeBlockHeader
  rw [collect_eq hle (by decide)]
  by_cases hshort : (got ++ r.src.take (min (BHSize - got.length) r.src.length)).length < BHSize
  · obtain ⟨htake, hdrop, hlt⟩ := append_take_short hshort
    rw [htake] at hshort
    have hpos : 0 < (Field.blockHeader (contentOf b) (got ++ r.src)).missing :=
      Nat.sub_pos_of_lt hshort
    simp only [htake, if_pos hshort]
    refine .stop (Nat.ne_of_gt hpos) trivial
      ⟨hsound.remaining_lt, hc, Nat.le_of_lt hshort, refused_of_pos hpos⟩ (settle_pos hpos) ?_
    rw [resume_settle_short rfl hlt]
    show _ = Outcome.stop _ _ _ (r.src.drop _)
    rw [hdrop]
    rfl
  · obtain ⟨hn, hsrc, hlen⟩ := append_take_complete hle hshort
    simp only [hn] at hshort ⊢
    rw [if_neg hshort, resume_settle rfl hrefused hsrc]
    exact @blockHeader_simulates fastLoop adjacent cap (r.read (BHSize - got.length)) b _ _
      hsound.remaining_lt hr.fits hc fun hfail => ⟨Nat.le_of_eq hlen, fun _ _ _ => hfail⟩

/-! ## Blocks -/

/-- Writing keeps in `Body` what `Content.add` keeps. -/
theorem contentOf_write (b : Body) (bufferSize dstLen : Nat) (piece : List UInt8) :
    contentOf (b.write bufferSize dstLen piece) = (contentOf b).add piece := by
  have hfollow : ∀ h : History, (h.follow bufferSize dstLen piece.length).bytes = h.bytes := by
    intro h
    unfold History.follow
    split_ifs <;> rfl
  unfold Body.write
  by_cases hl : b.linked
  · have hmode : b.frameInfo.blockMode = .blockLinked := hl
    rw [if_pos hl]
    unfold contentOf Content.add
    simp only [hfollow, hmode, if_true]
    rfl
  · have hmode : ¬ b.frameInfo.blockMode = .blockLinked := hl
    rw [if_neg hl]
    unfold contentOf Content.add
    simp only [if_neg hmode]
    rfl

theorem contentOf_writeTmpOut (b : Body) (piece : List UInt8) :
    contentOf (b.writeTmpOut piece) = (contentOf b).add piece := by
  unfold Body.writeTmpOut
  by_cases hl : b.linked
  · have hmode : b.frameInfo.blockMode = .blockLinked := hl
    rw [if_pos hl]
    unfold contentOf Content.add
    simp only [hmode, if_true]
    rfl
  · have hmode : ¬ b.frameInfo.blockMode = .blockLinked := hl
    rw [if_neg hl]
    unfold contentOf Content.add
    simp only [if_neg hmode]
    rfl

theorem contentOf_flush (b : Body) (start dstLen n : Nat) :
    contentOf (b.flush start dstLen n) = contentOf b := by
  have hfollow : (b.history.followFlush start dstLen n).bytes = b.history.bytes := by
    unfold History.followFlush
    split_ifs <;> rfl
  unfold Body.flush
  split_ifs
  · unfold contentOf
    rw [hfollow]
  · rfl

theorem remainingAfter_eq (b : Body) (remaining n : Nat) :
    b.remainingAfter remaining n = (contentOf b).remainingAfter remaining n := rfl

theorem sum_eq (b : Body) (summed piece : List UInt8) :
    (if b.frameInfo.blockChecksumFlag then summed ++ piece else summed) =
      (contentOf b).sum summed piece := rfl

theorem emit_view (r : Run) (b : Body) (piece : List UInt8) (phase : BlockPhase) :
    view (r.emit b piece phase).decoder =
      blockView ((contentOf b).remainingAfter r.decoder.remaining piece.length)
        ((contentOf b).add piece) phase := by
  rw [← contentOf_write b r.decoder.bufferSize r.dst.length]
  rfl

theorem emit_sound {b : Body} {piece : List UInt8} {phase : BlockPhase}
    (hr : r.decoder.remaining < SIZE_T) (hc : (contentOf b).Windowed)
    (hphase : BlockSound ((contentOf b).remainingAfter r.decoder.remaining piece.length)
      ((contentOf b).add piece) phase) :
    Sound (r.emit b piece phase).decoder := by
  refine ⟨remainingAfter_lt (contentOf b) hr piece.length, ?_, ?_⟩
  · rw [contentOf_write]
    exact hc.add piece
  · rw [contentOf_write]
    exact hphase

theorem copyDirect_simulates {b : Body} {target : Nat} {summed : List UInt8} (hr : RunSound cap r)
    (hphase : r.decoder.phase = .block b (.copyDirect target summed)) :
    Simulates fastLoop adjacent cap (outcome fastLoop adjacent cap r)
      (copyDirect cap r b target summed) := by
  have hsound := hr.decoder
  obtain ⟨hc, htarget⟩ : PhaseSound r.decoder.remaining (.block b (.copyDirect target summed)) :=
    hphase ▸ hsound.phase
  have htarget' : target < SIZE_T := htarget
  obtain ⟨n, hn⟩ : ∃ n, n = min target (min r.src.length (Run.room cap r)) := ⟨_, rfl⟩
  have hroom : Run.room cap r = cap - r.dst.length := rfl
  have hfits := hr.fits
  have hlen : (r.src.take n).length = n := by
    rw [List.length_take]
    omega
  obtain ⟨c', hc'⟩ : ∃ c', c' = (contentOf b).add (r.src.take n) := ⟨_, rfl⟩
  obtain ⟨rem', hrem'⟩ : ∃ m, m = (contentOf b).remainingAfter r.decoder.remaining n := ⟨_, rfl⟩
  have hrem_lt : rem' < SIZE_T := hrem' ▸ remainingAfter_lt _ hsound.remaining_lt n
  have hinfo : c'.frameInfo = b.frameInfo := hc' ▸ rfl
  have hview : outcome fastLoop adjacent cap r = resume fastLoop adjacent cap
      (copyFrom rem' c' (target - n) ((contentOf b).sum summed (r.src.take n)))
      (r.dst ++ r.src.take n) (r.src.drop n) := by
    have hcopy := @run_copy fastLoop adjacent cap r.dst _ hc r.decoder.remaining target
      hsound.remaining_lt (Nat.le_of_lt htarget') summed (r.src.take n) (by omega) (by omega)
      (r.src.drop n)
    rw [List.take_append_drop, hlen, ← hc', ← hrem'] at hcopy
    rw [← hcopy]
    unfold outcome view
    rw [hphase]
    rfl
  have hwritten : (r.dst ++ r.src.take n).length ≤ cap := by
    rw [List.length_append, hlen]
    omega
  have hrun : ∀ phase, BlockSound rem' c' phase →
      Sound ((r.read n).emit b (r.src.take n) phase).decoder := by
    intro phase hsound'
    refine emit_sound hsound.remaining_lt hc ?_
    rw [hlen, ← hc']
    exact hrem' ▸ hsound'
  have hviewAfter : ∀ phase,
      view ((r.read n).emit b (r.src.take n) phase).decoder = blockView rem' c' phase := by
    intro phase
    rw [emit_view, hlen, ← hc', hrem']
    rfl
  rw [hview]
  unfold copyDirect
  simp only [← hn]
  rw [sum_eq]
  by_cases hall : n = target
  · rw [if_pos hall, hall, Nat.sub_self, ← hall]
    unfold copyFrom
    rw [if_pos rfl, hinfo]
    by_cases hflag : b.frameInfo.blockChecksumFlag = true
    · rw [if_pos hflag, if_pos hflag]
      have hpos : 0 < (Field.blockChecksum c' ((contentOf b).sum summed (r.src.take n)) []).missing :=
        Nat.succ_pos 3
      refine .again ⟨hrun _ ⟨Nat.zero_le _, refused_of_pos hpos⟩, hwritten⟩ ?_
      unfold outcome
      rw [hviewAfter]
      rfl
    · rw [if_neg hflag, if_neg hflag]
      refine .again ⟨hrun _ trivial, hwritten⟩ ?_
      unfold outcome
      rw [hviewAfter]
      rfl
  · rw [if_neg hall]
    have hleft : target - n ≠ 0 := by omega
    have hlast : r.src.drop n = [] ∨ cap ≤ (r.dst ++ r.src.take n).length := by
      rw [List.length_append, hlen, List.drop_eq_nil_iff]
      omega
    refine .stop (by omega) trivial (hrun _ (Nat.lt_of_le_of_lt (Nat.sub_le _ _) htarget'))
      ((hviewAfter _).trans (copyFrom_pos hleft)) ?_
    rw [copyFrom_pos hleft]
    show run _ _ _ _ [] _ _ = Outcome.stop _ _ (r.dst ++ r.src.take n) (r.src.drop n)
    rcases hlast with hnil | hfull
    · rw [hnil, run_nil]
    · exact run_full rfl hfull _

theorem checkBlockChecksum_simulates {b : Body} {summed got crcSrc : List UInt8}
    (hr : r.decoder.remaining < SIZE_T) (hfits : r.dst.length ≤ cap) (hc : (contentOf b).Windowed)
    (hkept : leNat (crcSrc.take 4) ≠ XXH32_digest summed →
      BlockSound r.decoder.remaining (contentOf b) (.getBlockChecksum summed got)) :
    Simulates fastLoop adjacent cap
      (advance fastLoop adjacent cap
        (readField fastLoop adjacent r.decoder.remaining
          (.blockChecksum (contentOf b) summed crcSrc)) r.dst r.src)
      (checkBlockChecksum r b summed got crcSrc) := by
  have hread : readField fastLoop adjacent r.decoder.remaining
      (.blockChecksum (contentOf b) summed crcSrc) =
        if leNat (crcSrc.take 4) ≠ XXH32_digest summed then .fail
        else .next ⟨r.decoder.remaining, .blockHeader (contentOf b) []⟩ [] := rfl
  unfold checkBlockChecksum
  rw [hread]
  by_cases hwrong : leNat (crcSrc.take 4) ≠ XXH32_digest summed
  · rw [if_pos hwrong, if_pos hwrong]
    exact .fail (Or.inl ⟨hr, hc, hkept hwrong⟩) rfl
  · rw [if_neg hwrong, if_neg hwrong, advance_pending rfl (Nat.zero_le _), List.append_nil]
    exact .again ⟨⟨hr, hc, trivial⟩, hfits⟩ rfl

theorem getBlockChecksum_simulates {b : Body} {summed got : List UInt8} (hr : RunSound cap r)
    (hphase : r.decoder.phase = .block b (.getBlockChecksum summed got)) :
    Simulates fastLoop adjacent cap (outcome fastLoop adjacent cap r)
      (getBlockChecksum r b summed got) := by
  have hsound := hr.decoder
  obtain ⟨hc, hle, hrefused⟩ : PhaseSound r.decoder.remaining
      (.block b (.getBlockChecksum summed got)) := hphase ▸ hsound.phase
  have hview : outcome fastLoop adjacent cap r = resume fastLoop adjacent cap
      (settle r.decoder.remaining (.blockChecksum (contentOf b) summed got)) r.dst r.src := by
    unfold outcome view
    rw [hphase]
    rfl
  rw [hview]
  unfold getBlockChecksum
  by_cases hdirect : 4 ≤ r.src.length ∧ got.length = 0
  · obtain ⟨hfour, hnil⟩ := hdirect
    obtain rfl := List.eq_nil_of_length_eq_zero hnil
    rw [if_pos ⟨hfour, hnil⟩, resume_settle rfl hrefused hfour]
    exact @checkBlockChecksum_simulates fastLoop adjacent cap (r.read 4) b summed [] _
      hsound.remaining_lt hr.fits hc fun _ => ⟨hle, hrefused⟩
  rw [if_neg hdirect, collect_eq hle (by decide)]
  by_cases hshort : (got ++ r.src.take (min (4 - got.length) r.src.length)).length < 4
  · obtain ⟨htake, hdrop, hlt⟩ := append_take_short hshort
    rw [htake] at hshort
    have hpos : 0 < (Field.blockChecksum (contentOf b) summed (got ++ r.src)).missing :=
      Nat.sub_pos_of_lt hshort
    simp only [htake, if_pos hshort]
    refine .stop Nat.one_ne_zero trivial
      ⟨hsound.remaining_lt, hc, Nat.le_of_lt hshort, refused_of_pos hpos⟩ (settle_pos hpos) ?_
    rw [resume_settle_short rfl hlt]
    show _ = Outcome.stop _ _ _ (r.src.drop _)
    rw [hdrop]
    rfl
  · obtain ⟨hn, hsrc, hlen⟩ := append_take_complete hle hshort
    simp only [hn] at hshort ⊢
    rw [if_neg hshort, resume_settle rfl hrefused hsrc]
    exact @checkBlockChecksum_simulates fastLoop adjacent cap (r.read (4 - got.length)) b summed _ _
      hsound.remaining_lt hr.fits hc fun hwrong =>
        ⟨Nat.le_of_eq hlen, fun _ _ _ => if_pos hwrong⟩

/-! ## Compressed blocks -/

/-- A block decoded with the history in one of two places: decoded alike, refused in both, or
refused in the one place that is not in front of it. -/
theorem usingDict_cases (fastLoop adjacent adjacent' : Bool) (source dict : List UInt8) (n : Nat) :
    (∃ decoded, LZ4_decompress_safe_usingDict fastLoop source n dict adjacent = .ok decoded ∧
      LZ4_decompress_safe_usingDict fastLoop source n dict adjacent' = .ok decoded) ∨
    (∃ e e', LZ4_decompress_safe_usingDict fastLoop source n dict adjacent = .error e ∧
      LZ4_decompress_safe_usingDict fastLoop source n dict adjacent' = .error e') ∨
    (adjacent' = true ∧
      ∃ e, LZ4_decompress_safe_usingDict fastLoop source n dict adjacent = .error e) ∨
    (adjacent' = false ∧
      ∃ e, LZ4_decompress_safe_usingDict fastLoop source n dict adjacent' = .error e) := by
  cases adjacent' with
  | true =>
    cases h : LZ4_decompress_safe_usingDict fastLoop source n dict adjacent with
    | error e => exact Or.inr (Or.inr (Or.inl ⟨rfl, e, rfl⟩))
    | ok decoded =>
      cases adjacent with
      | true => exact Or.inl ⟨decoded, rfl, h⟩
      | false => exact Or.inl ⟨decoded, rfl, usingDict_of_external h true⟩
  | false =>
    cases h : LZ4_decompress_safe_usingDict fastLoop source n dict false with
    | error e => exact Or.inr (Or.inr (Or.inr ⟨rfl, e, rfl⟩))
    | ok decoded => exact Or.inl ⟨decoded, usingDict_of_external h adjacent, rfl⟩

/-- `b.history` with the numbers of another place. -/
theorem contentOf_placed (b : Body) :
    contentOf (if b.linked then { b with history := b.history.placeTmpOut } else b) =
      contentOf b := by
  have hplace : b.history.placeTmpOut.bytes = b.history.bytes := by
    unfold History.placeTmpOut
    split_ifs <;> rfl
  split_ifs
  · unfold contentOf
    rw [hplace]
  · rfl

section Decode

variable {b : Body} {stored : BlockPhase} {selectedIn : List UInt8}

/-- What an error may leave of a compressed block. -/
def BlockKept (remaining : Nat) (c : Content) (stored : BlockPhase) : Prop :=
  BlockSound remaining c stored ∨
    ∃ target got, stored = .storeCBlock target got ∧ target < SIZE_T ∧ target ≤ got.length

theorem kept_of_block (hr : r.decoder.remaining < SIZE_T) (hc : (contentOf b).Windowed)
    (hkept : BlockKept r.decoder.remaining (contentOf b) stored) :
    Sound (r.goTo (.block b stored)).decoder ∨ Retries (r.goTo (.block b stored)).decoder := by
  rcases hkept with hsound | ⟨target, got, rfl, hlt, hle⟩
  · exact Or.inl ⟨hr, hc, hsound⟩
  · exact Or.inr ⟨hr, b, target, got, rfl, hlt, hle, hc⟩

/-- Where the decoded block goes. -/
def decodedEvent (fastLoop adjacent : Bool) (remaining : Nat) (c : Content)
    (selectedIn : List UInt8) : Event :=
  match LZ4_decompress_safe_usingDict fastLoop selectedIn c.maxBlockSize c.history adjacent with
  | .error _ => .fail
  | .ok decoded =>
    .next ⟨c.remainingAfter remaining decoded.length, .blockHeader (c.add decoded) []⟩ decoded

/-- A block that is decoded in both ways, or in one of them. -/
theorem decoded_simulates {again : List UInt8 → Run} {adjacent' : Bool}
    (hr : r.decoder.remaining < SIZE_T) (hc : (contentOf b).Windowed)
    (hkept : BlockKept r.decoder.remaining (contentOf b) stored)
    (hsound : ∀ decoded,
      LZ4_decompress_safe_usingDict fastLoop selectedIn b.maxBlockSize b.history.bytes adjacent' =
          .ok decoded →
        RunSound cap (again decoded) ∧
        advance fastLoop adjacent cap (.next ⟨(contentOf b).remainingAfter r.decoder.remaining
            decoded.length, .blockHeader ((contentOf b).add decoded) []⟩ decoded) r.dst r.src =
          outcome fastLoop adjacent cap (again decoded)) :
    Simulates fastLoop adjacent cap
      (advance fastLoop adjacent cap
        (decodedEvent fastLoop adjacent r.decoder.remaining (contentOf b) selectedIn) r.dst r.src)
      (match LZ4_decompress_safe_usingDict fastLoop selectedIn b.maxBlockSize b.history.bytes
          adjacent' with
        | .error _ => .fail (r.goTo (.block b stored)) .ERROR_decompressionFailed
        | .ok decoded => .again (again decoded)) := by
  have hdict : LZ4_decompress_safe_usingDict fastLoop selectedIn (contentOf b).maxBlockSize
      (contentOf b).history adjacent =
        LZ4_decompress_safe_usingDict fastLoop selectedIn b.maxBlockSize b.history.bytes adjacent :=
    rfl
  unfold decodedEvent
  rw [hdict]
  rcases usingDict_cases fastLoop adjacent' adjacent selectedIn b.history.bytes b.maxBlockSize with
    ⟨decoded, h, h'⟩ | ⟨e, e', h, h'⟩ | ⟨hreaches, e, h⟩ | ⟨hseparate, e, h⟩
  · obtain ⟨hrun, hsame⟩ := hsound decoded h
    rw [h, h']
    exact .again hrun hsame
  · rw [h, h']
    exact .fail (kept_of_block hr hc hkept) rfl
  · rw [h]
    exact .refused (kept_of_block hr hc hkept) hreaches
  · rw [h]
    exact .strict hseparate rfl

/-- The block is decoded into the destination. -/
theorem decodeIntoDst_simulates (hr : r.decoder.remaining < SIZE_T) (hfits : r.dst.length ≤ cap)
    (hc : (contentOf b).Windowed) (hroom : b.maxBlockSize ≤ Run.room cap r)
    (hkept : BlockKept r.decoder.remaining (contentOf b) stored) :
    Simulates fastLoop adjacent cap
      (advance fastLoop adjacent cap
        (decodedEvent fastLoop adjacent r.decoder.remaining (contentOf b) selectedIn) r.dst r.src)
      (decodeIntoDst fastLoop r b stored selectedIn) := by
  unfold decodeIntoDst
  refine decoded_simulates hr hc hkept fun decoded hdecoded => ⟨⟨emit_sound hr hc trivial, ?_⟩, ?_⟩
  · have hlen := usingDict_length_le hdecoded
    have hroom' : b.maxBlockSize ≤ cap - r.dst.length := hroom
    show (r.dst ++ decoded).length ≤ cap
    rw [List.length_append]
    omega
  · unfold outcome
    rw [emit_view, advance_pending rfl (Nat.le_trans (usingDict_length_le hdecoded) hroom)]
    rfl

/-- The block is decoded into `tmpOut`. -/
theorem decodeIntoTmpOut_simulates (hr : r.decoder.remaining < SIZE_T)
    (hfits : r.dst.length ≤ cap) (hc : (contentOf b).Windowed)
    (hkept : BlockKept r.decoder.remaining (contentOf b) stored) :
    Simulates fastLoop adjacent cap
      (advance fastLoop adjacent cap
        (decodedEvent fastLoop adjacent r.decoder.remaining (contentOf b) selectedIn) r.dst r.src)
      (decodeIntoTmpOut fastLoop r b stored selectedIn) := by
  obtain ⟨b', hb'⟩ : ∃ b', b' =
      (if b.linked then { b with history := b.history.placeTmpOut } else b) := ⟨_, rfl⟩
  have hcontent : contentOf b' = contentOf b := hb' ▸ contentOf_placed b
  unfold decodeIntoTmpOut
  dsimp only
  rw [← hb', ← hcontent]
  rw [← hcontent] at hc hkept
  refine decoded_simulates hr hc hkept fun decoded _ => ⟨⟨⟨?_, ?_, trivial⟩, hfits⟩, ?_⟩
  · exact remainingAfter_lt (contentOf b') hr decoded.length
  · rw [contentOf_writeTmpOut]
    exact hc.add decoded
  · unfold outcome view
    show _ = resume _ _ _ (.next ⟨_, .blockHeader (contentOf (b'.writeTmpOut decoded)) []⟩ decoded)
      r.dst r.src
    rw [contentOf_writeTmpOut]
    simp [advance, resume, Field.entersCBlock]
    rfl

/-- The block in `selectedIn` is read, with its checksum if there is one. -/
theorem decodeCBlock_simulates {kept : Nat → BlockPhase} {target : Nat}
    (hr : r.decoder.remaining < SIZE_T) (hfits : r.dst.length ≤ cap) (hc : (contentOf b).Windowed)
    (hkept : BlockKept r.decoder.remaining (contentOf b)
      (kept (if b.frameInfo.blockChecksumFlag then sizeSub target 4 else target))) :
    Simulates fastLoop adjacent cap
      (advance fastLoop adjacent cap
        (readField fastLoop adjacent r.decoder.remaining (.cBlock (contentOf b) target selectedIn))
        r.dst r.src)
      (decodeCBlock fastLoop cap r b kept target selectedIn) := by
  obtain ⟨target', htarget'⟩ : ∃ t, t =
      (if b.frameInfo.blockChecksumFlag then sizeSub target 4 else target) := ⟨_, rfl⟩
  rw [← htarget'] at hkept
  have hread : readField fastLoop adjacent r.decoder.remaining
      (.cBlock (contentOf b) target selectedIn) =
        if b.frameInfo.blockChecksumFlag ∧
            leNat ((selectedIn.drop target').take 4) ≠ XXH32_digest (selectedIn.take target') then
          .fail
        else decodedEvent fastLoop adjacent r.decoder.remaining (contentOf b)
          (selectedIn.take target') := by
    rw [htarget']
    rfl
  rw [hread]
  unfold decodeCBlock
  dsimp only
  rw [← htarget']
  by_cases hwrong : b.frameInfo.blockChecksumFlag ∧
      leNat ((selectedIn.drop target').take 4) ≠ XXH32_digest (selectedIn.take target')
  · rw [if_pos hwrong, if_pos hwrong]
    exact .fail (kept_of_block hr hc hkept) rfl
  rw [if_neg hwrong, if_neg hwrong]
  by_cases hplace : b.maxBlockSize ≤ Run.room cap r ∧ b.history.endsAtTmpOut = false
  · rw [if_pos hplace]
    exact decodeIntoDst_simulates hr hfits hc hplace.1 hkept
  · rw [if_neg hplace]
    exact decodeIntoTmpOut_simulates hr hfits hc hkept

end Decode

/-- An empty field is no checksum of an empty block. -/
theorem refused_empty {remaining : Nat} {c : Content} (hflag : c.frameInfo.blockChecksumFlag = true) :
    Refused remaining (.cBlock c 0 []) := by
  intro _ fastLoop adjacent
  show readCBlock _ _ _ _ _ _ = _
  unfold readCBlock
  simp only [hflag, if_true, List.drop_nil, List.take_nil, XXH32_digest_nil, leNat]
  rfl

theorem refused_start {remaining : Nat} {c : Content} (hflag : c.frameInfo.blockChecksumFlag = true)
    (target : Nat) : Refused remaining (.cBlock c target []) := by
  cases target with
  | zero => exact refused_empty hflag
  | succ target => exact refused_of_pos (Nat.succ_pos target)

theorem getCBlock_simulates {b : Body} {target : Nat} (hr : RunSound cap r)
    (hphase : r.decoder.phase = .block b (.getCBlock target)) :
    Simulates fastLoop adjacent cap (outcome fastLoop adjacent cap r)
      (getCBlock fastLoop cap r b target) := by
  have hsound := hr.decoder
  obtain ⟨hc, htarget, hrefused⟩ : PhaseSound r.decoder.remaining (.block b (.getCBlock target)) :=
    hphase ▸ hsound.phase
  have hview : outcome fastLoop adjacent cap r = resume fastLoop adjacent cap
      (settle r.decoder.remaining (.cBlock (contentOf b) target [])) r.dst r.src := by
    unfold outcome view
    rw [hphase]
    rfl
  unfold getCBlock
  by_cases hshort : r.src.length < target
  · rw [if_pos hshort, hview]
    exact .again ⟨⟨hsound.remaining_lt, hc, htarget, Nat.zero_lt_of_lt hshort⟩, hr.fits⟩ rfl
  rw [if_neg hshort, hview, resume_settle rfl hrefused (Nat.not_lt.1 hshort)]
  refine @decodeCBlock_simulates fastLoop adjacent cap (r.read target) b _ _ target
    hsound.remaining_lt hr.fits hc (Or.inl ?_)
  by_cases hflag : b.frameInfo.blockChecksumFlag = true
  · rw [if_pos hflag]
    exact ⟨sizeSub_lt _ _, refused_start hflag _⟩
  · rw [if_neg hflag]
    exact ⟨htarget, hrefused⟩

/-- An error leaves all of the block, or asks for more than there can be. -/
theorem storeCBlock_kept {b : Body} (remaining target : Nat) (got : List UInt8)
    (htarget : target < SIZE_T) :
    BlockKept remaining (contentOf b)
      (.storeCBlock (if b.frameInfo.blockChecksumFlag then sizeSub target 4 else target) got) := by
  obtain ⟨target', he⟩ : ∃ t, t =
      (if b.frameInfo.blockChecksumFlag then sizeSub target 4 else target) := ⟨_, rfl⟩
  have hlt : target' < SIZE_T := by
    rw [he]
    split_ifs
    · exact sizeSub_lt _ _
    · exact htarget
  rw [← he]
  rcases Nat.lt_or_ge got.length target' with hless | hge
  · exact Or.inl ⟨hlt, hless⟩
  · exact Or.inr ⟨target', got, rfl, hlt, hge⟩

theorem storeCBlock_simulates {b : Body} {target : Nat} {got : List UInt8} (hr : RunSound cap r)
    (hphase : r.decoder.phase = .block b (.storeCBlock target got)) :
    Simulates fastLoop adjacent cap (outcome fastLoop adjacent cap r)
      (storeCBlock fastLoop cap r b target got) := by
  have hsound := hr.decoder
  obtain ⟨hc, htarget, hless⟩ : PhaseSound r.decoder.remaining (.block b (.storeCBlock target got)) :=
    hphase ▸ hsound.phase
  have hle := Nat.le_of_lt hless
  have hrefused : Refused r.decoder.remaining (.cBlock (contentOf b) target got) :=
    refused_of_pos (Nat.sub_pos_of_lt hless)
  have hview : outcome fastLoop adjacent cap r = resume fastLoop adjacent cap
      (settle r.decoder.remaining (.cBlock (contentOf b) target got)) r.dst r.src := by
    unfold outcome view
    rw [hphase]
    rfl
  rw [hview]
  unfold storeCBlock
  rw [collect_eq hle htarget]
  by_cases hshort : (got ++ r.src.take (min (target - got.length) r.src.length)).length < target
  · obtain ⟨htake, hdrop, hlt⟩ := append_take_short hshort
    rw [htake] at hshort
    have hpos : 0 < (Field.cBlock (contentOf b) target (got ++ r.src)).missing :=
      Nat.sub_pos_of_lt hshort
    simp only [htake, if_pos hshort]
    refine .stop (Nat.ne_of_gt (Nat.lt_of_lt_of_le (Nat.succ_pos 3) (Nat.le_add_left _ _))) trivial
      ⟨hsound.remaining_lt, hc, htarget, hshort⟩ (settle_pos hpos) ?_
    rw [resume_settle_short rfl hlt]
    show _ = Outcome.stop _ _ _ (r.src.drop _)
    rw [hdrop]
    rfl
  · obtain ⟨hn, hsrc, hlen⟩ := append_take_complete hle hshort
    simp only [hn] at hshort ⊢
    rw [if_neg hshort, resume_settle rfl hrefused hsrc]
    exact @decodeCBlock_simulates fastLoop adjacent cap (r.read (target - got.length)) b _
      (fun target' => .storeCBlock target' _) target hsound.remaining_lt hr.fits hc
      (storeCBlock_kept _ target _ htarget)

theorem flushOut_simulates {b : Body} {start : Nat} {pending : List UInt8} (hr : RunSound cap r)
    (hphase : r.decoder.phase = .block b (.flushOut start pending)) :
    Simulates fastLoop adjacent cap (outcome fastLoop adjacent cap r)
      (flushOut cap r b start pending) := by
  have hsound := hr.decoder
  obtain ⟨hc, -⟩ : PhaseSound r.decoder.remaining (.block b (.flushOut start pending)) :=
    hphase ▸ hsound.phase
  obtain ⟨n, hn⟩ : ∃ n, n = min pending.length (Run.room cap r) := ⟨_, rfl⟩
  have hroom : Run.room cap r = cap - r.dst.length := rfl
  have hfits := hr.fits
  have hview : outcome fastLoop adjacent cap r = run fastLoop adjacent cap
      ⟨r.decoder.remaining, .blockHeader (contentOf b) []⟩ pending r.dst r.src := by
    unfold outcome view
    rw [hphase]
    rfl
  rw [hview]
  unfold flushOut
  simp only [← hn]
  by_cases hall : n = pending.length
  · rw [if_pos hall, hall, List.take_length, run_pending (by omega)]
    refine .again ⟨⟨hsound.remaining_lt, ?_, trivial⟩, ?_⟩ ?_
    · rw [contentOf_flush]
      exact hc
    · show (r.dst ++ pending).length ≤ cap
      rw [List.length_append]
      omega
    · unfold outcome view
      show _ = resume _ _ _ (.next ⟨_, .blockHeader (contentOf (b.flush _ _ _)) []⟩ []) _ _
      rw [contentOf_flush]
      rfl
  · rw [if_neg hall]
    have hfull : cap - r.dst.length < pending.length := by omega
    have hn' : n = cap - r.dst.length := by omega
    rw [run_stuck hfull, ← hn']
    refine .stop (Nat.succ_ne_zero 3) ?_ ⟨hsound.remaining_lt, ?_, trivial⟩ ?_ rfl
    · show pending.drop n ≠ []
      rw [ne_eq, List.drop_eq_nil_iff]
      omega
    · rw [contentOf_flush]
      exact hc
    · show Event.next ⟨_, .blockHeader (contentOf (b.flush _ _ _)) []⟩ _ = _
      rw [contentOf_flush]
      rfl

/-! ## The call -/

theorem step_simulates (hr : RunSound cap r) :
    Simulates fastLoop adjacent cap (outcome fastLoop adjacent cap r) (step fastLoop cap r) := by
  unfold step
  cases hphase : r.decoder.phase with
  | getFrameHeader => exact getFrameHeader_simulates hr hphase
  | storeFrameHeader target got => exact storeFrameHeader_simulates hr hphase
  | init frameInfo => exact init_simulates hr hphase
  | block b p =>
    cases p with
    | getBlockHeader => exact getBlockHeader_simulates hr hphase
    | storeBlockHeader got => exact storeBlockHeader_simulates hr hphase
    | copyDirect target summed => exact copyDirect_simulates hr hphase
    | getBlockChecksum summed got => exact getBlockChecksum_simulates hr hphase
    | getCBlock target => exact getCBlock_simulates hr hphase
    | storeCBlock target got => exact storeCBlock_simulates hr hphase
    | flushOut start pending => exact flushOut_simulates hr hphase
  | getSuffix contentChecksumFlag hashed => exact getSuffix_simulates hr hphase
  | storeSuffix hashed got => exact storeSuffix_simulates hr hphase
  | getSFrameSize => exact getSFrameSize_simulates hr hphase
  | storeSFrameSize got => exact storeSFrameSize_simulates hr hphase
  | skipSkippable target => exact skipSkippable_simulates hr hphase

/-- Where a call starts: a block that an error has left is decoded once more, with all the bytes
that are asked for. -/
def entry (fastLoop adjacent : Bool) (d : Decoder) (src : List UInt8) : Event × List UInt8 :=
  match d.phase with
  | .block b (.storeCBlock target got) =>
    if target ≤ got.length then
      let n := min (sizeSub target got.length) src.length
      (readCBlock fastLoop adjacent d.remaining (contentOf b) target (got ++ src.take n), src.drop n)
    else (view d, src)
  | _ => (view d, src)

theorem entry_of_sound {d : Decoder} (hd : Sound d) (src : List UInt8) :
    entry fastLoop adjacent d src = (view d, src) := by
  have hphase := hd.phase
  unfold entry
  split
  · rename_i b target got heq
    rw [heq] at hphase
    rw [if_neg (Nat.not_le.2 hphase.2.2)]
  · rfl

/-- What a call does, byte by byte. -/
def callOutcome (fastLoop adjacent : Bool) (d : Decoder) (cap : Nat) (src : List UInt8) : Outcome :=
  resume fastLoop adjacent cap (entry fastLoop adjacent d src).1 [] (entry fastLoop adjacent d src).2

theorem advance_readCBlock (remaining target : Nat) (c : Content) (got dst src : List UInt8) :
    advance fastLoop adjacent cap (readCBlock fastLoop adjacent remaining c target got) dst src =
      resume fastLoop adjacent cap (readCBlock fastLoop adjacent remaining c target got) dst src := by
  have hstart : ∀ e : Event, (∀ s out, e = .next s out → s.field.entersCBlock = false) →
      advance fastLoop adjacent cap e dst src = resume fastLoop adjacent cap e dst src := by
    intro e he
    cases e with
    | fail => rfl
    | finish => rfl
    | next s out => simp [advance, resume, he s out rfl]
  refine hstart _ fun s out he => ?_
  unfold readCBlock at he
  dsimp only at he
  generalize (if c.frameInfo.blockChecksumFlag then sizeSub target 4 else target) = t at he
  split_ifs at he
  split at he
  · cases he
  · cases he
    rfl

theorem first_step_simulates {d : Decoder} (hd : Sound d ∨ Retries d) (src : List UInt8) :
    Simulates fastLoop adjacent cap (callOutcome fastLoop adjacent d cap src)
      (step fastLoop cap ⟨d, src, []⟩) := by
  unfold callOutcome
  rcases hd with hd | ⟨hremaining, b, target, got, hphase, htarget, hge, hc⟩
  · rw [entry_of_sound hd]
    exact @step_simulates fastLoop adjacent cap ⟨d, src, []⟩ ⟨hd, Nat.zero_le _⟩
  · have hentry : entry fastLoop adjacent d src =
        (readCBlock fastLoop adjacent d.remaining (contentOf b) target
          (got ++ src.take (min (sizeSub target got.length) src.length)),
          src.drop (min (sizeSub target got.length) src.length)) := by
      unfold entry
      rw [hphase]
      exact if_pos hge
    have hlong : ¬ (got ++ src.take (min (sizeSub target got.length) src.length)).length < target := by
      rw [List.length_append]
      omega
    rw [hentry, ← advance_readCBlock]
    unfold step
    simp only [hphase]
    unfold storeCBlock
    dsimp only
    rw [if_neg hlong]
    exact @decodeCBlock_simulates fastLoop adjacent cap
      (Run.read ⟨d, src, []⟩ (min (sizeSub target got.length) src.length)) b _
      (fun target' => .storeCBlock target' _) target hremaining (Nat.zero_le _) hc
      (storeCBlock_kept _ target _ htarget)

/-- Only the end of the stages is returned. -/
theorem runStages_ends {σ : Type} {step : σ → Iteration σ} {fuel : Nat} {c : σ} {i : Iteration σ}
    (h : runStages step fuel c = some i) : ∀ c', i ≠ .again c' := by
  induction fuel generalizing c with
  | zero => cases h
  | succ fuel ih =>
    unfold runStages at h
    cases hx : step c with
    | again c' =>
      rw [hx] at h
      exact ih h
    | stop c' hint =>
      rw [hx] at h
      cases h
      rintro c'' ⟨⟩
    | fail c' e =>
      rw [hx] at h
      cases h
      rintro c'' ⟨⟩

theorem runStages_simulates {fuel : Nat} {o : Outcome} {i : Iteration Run}
    (hfirst : Simulates fastLoop adjacent cap o (step fastLoop cap r))
    (h : runStages (step fastLoop cap) fuel r = some i) :
    Simulates fastLoop adjacent cap o i := by
  induction fuel generalizing r with
  | zero => cases h
  | succ fuel ih =>
    unfold runStages at h
    generalize step fastLoop cap r = x at hfirst h
    cases x with
    | again r' =>
      cases hfirst with
      | again hsound hsame =>
        exact ih (hsame ▸ step_simulates hsound) h
      | strict hseparate hsame => exact .strict hseparate hsame
    | stop r' hint =>
      obtain rfl := Option.some.inj h
      exact hfirst
    | fail r' e =>
      obtain rfl := Option.some.inj h
      exact hfirst
/-- The end of a call keeps the reader. -/
theorem contentOf_leave (b : Body) (flushed : Option Nat) :
    contentOf { b with history := b.history.leave flushed } = contentOf b := by
  have hleave : (b.history.leave flushed).bytes = b.history.bytes := by
    unfold History.leave
    split_ifs
    · rfl
    · cases flushed <;> rfl
  unfold contentOf
  rw [hleave]

theorem contentOf_abandon (b : Body) :
    contentOf { b with history := b.history.abandon } = contentOf b := by
  have habandon : b.history.abandon.bytes = b.history.bytes := by
    unfold History.abandon
    split_ifs <;> rfl
  unfold contentOf
  rw [habandon]

theorem leave_block (b : Body) (p : BlockPhase) :
    ∃ flushed, (Phase.block b p).leave = .block { b with history := b.history.leave flushed } p := by
  cases p <;> exact ⟨_, rfl⟩

theorem phaseView_leave (remaining : Nat) (p : Phase) :
    phaseView remaining p.leave = phaseView remaining p := by
  cases p with
  | block b p =>
    obtain ⟨flushed, h⟩ := leave_block b p
    rw [h]
    show blockView remaining (contentOf _) p = blockView remaining (contentOf b) p
    rw [contentOf_leave]
  | _ => rfl

theorem phaseSound_leave {remaining : Nat} {p : Phase} (h : PhaseSound remaining p) :
    PhaseSound remaining p.leave := by
  cases p with
  | block b p =>
    obtain ⟨flushed, he⟩ := leave_block b p
    rw [he]
    show (contentOf _).Windowed ∧ BlockSound remaining (contentOf _) p
    rw [contentOf_leave]
    exact h
  | _ => exact h

theorem flushes_leave {p : Phase} (h : Flushes p) : Flushes p.leave := by
  cases p with
  | block b p => cases p <;> exact h
  | _ => exact h

theorem kept_abandon {d : Decoder} (h : Sound d ∨ Retries d) :
    Sound { d with phase := d.phase.abandon } ∨ Retries { d with phase := d.phase.abandon } := by
  obtain ⟨remaining, bufferSize, phase⟩ := d
  rcases h with ⟨hremaining, hphase⟩ | ⟨hremaining, b, target, got, rfl, hlt, hge, hc⟩
  · refine Or.inl ⟨hremaining, ?_⟩
    cases phase with
    | block b p =>
      show (contentOf _).Windowed ∧ BlockSound remaining (contentOf _) p
      rw [contentOf_abandon]
      exact hphase
    | _ => exact hphase
  · refine Or.inr ⟨hremaining, _, target, got, rfl, hlt, hge, ?_⟩
    rw [contentOf_abandon]
    exact hc

/-- What a successful call reports, and where it leaves the decoder. -/
structure Matches (o : Outcome) (src : List UInt8) (d : Decoder) (p : Progress) : Prop where
  sound : Sound d
  flushes : Flushes d.phase
  ends : ∃ rest, p.srcSize = src.length - rest.length ∧
    ((p.nextSrcSizeHint = 0 ∧ d.phase = .getFrameHeader ∧ o = .finish d.remaining p.dst rest) ∨
      (p.nextSrcSizeHint ≠ 0 ∧ ∃ s pending, view d = .next s pending ∧ o = .stop s pending p.dst rest))

/-- A call that succeeds does what the decoder with adjacent histories does. A call that fails
leaves a decoder to go on with. -/
theorem decompress_accepts {d : Decoder} (hd : Sound d ∨ Retries d) (src : List UInt8) :
    (∀ p, (decompress fastLoop d cap src).2 = .ok p →
      Matches (callOutcome fastLoop true d cap src) src (decompress fastLoop d cap src).1 p) ∧
    (Sound (decompress fastLoop d cap src).1 ∨ Retries (decompress fastLoop d cap src).1) := by
  have hfirst := @first_step_simulates fastLoop true cap d hd src
  unfold decompress
  cases hrun : runStages (step fastLoop cap) (stagesFuel src.length) ⟨d, src, []⟩ with
  | none => exact ⟨fun p hp => (by cases hp), hd⟩
  | some i =>
    have hsim := runStages_simulates hfirst hrun
    cases i with
    | again r' => exact absurd rfl (runStages_ends hrun r')
    | fail r' e =>
      refine ⟨fun p hp => (by cases hp), kept_abandon ?_⟩
      cases hsim with
      | fail hkept => exact hkept
      | refused hkept => exact hkept
      | strict hseparate => cases hseparate
    | stop r' hint =>
      dsimp only
      cases hsim with
      | stop hhint hflushes hsound hview hsame =>
        have hsound' : Sound { r'.decoder with phase := r'.decoder.phase.leave } :=
          ⟨hsound.remaining_lt, phaseSound_leave hsound.phase⟩
        refine ⟨fun p hp => ?_, Or.inl hsound'⟩
        obtain rfl := Except.ok.inj hp
        refine ⟨hsound', flushes_leave hflushes, r'.src, rfl, Or.inr ⟨hhint, _, _, ?_, hsame⟩⟩
        rw [← hview]
        exact phaseView_leave _ _
      | finish hsound hphase hsame =>
        have hleave : r'.decoder.phase.leave = .getFrameHeader := by
          rw [hphase]
          rfl
        have hsound' : Sound { r'.decoder with phase := r'.decoder.phase.leave } :=
          ⟨hsound.remaining_lt, phaseSound_leave hsound.phase⟩
        refine ⟨fun p hp => ?_, Or.inl hsound'⟩
        obtain rfl := Except.ok.inj hp
        refine ⟨hsound', ?_, r'.src, rfl, Or.inl ⟨rfl, hleave, hsame⟩⟩
        show Flushes r'.decoder.phase.leave
        rw [hleave]
        trivial
      | strict hseparate => cases hseparate

/-- What the decoder with separate histories does, a call does. -/
theorem decompress_of_run {d : Decoder} (hd : Sound d ∨ Retries d) {src : List UInt8}
    (hends : runStages (step fastLoop cap) (stagesFuel src.length) ⟨d, src, []⟩ ≠ none)
    (hrun : callOutcome fastLoop false d cap src ≠ .fail) :
    ∃ p, (decompress fastLoop d cap src).2 = .ok p ∧
      Matches (callOutcome fastLoop false d cap src) src (decompress fastLoop d cap src).1 p := by
  have hfirst := @first_step_simulates fastLoop false cap d hd src
  unfold decompress
  cases hstages : runStages (step fastLoop cap) (stagesFuel src.length) ⟨d, src, []⟩ with
  | none => exact absurd hstages hends
  | some i =>
    have hsim := runStages_simulates hfirst hstages
    cases i with
    | again r' => exact absurd rfl (runStages_ends hstages r')
    | fail r' e =>
      cases hsim with
      | fail _ hsame => exact absurd hsame hrun
      | refused _ hreaches => cases hreaches
      | strict _ hsame => exact absurd hsame hrun
    | stop r' hint =>
      dsimp only
      refine ⟨_, rfl, ?_⟩
      cases hsim with
      | stop hhint hflushes hsound hview hsame =>
        refine ⟨⟨hsound.remaining_lt, phaseSound_leave hsound.phase⟩, flushes_leave hflushes, r'.src,
          rfl, Or.inr ⟨hhint, _, _, ?_, hsame⟩⟩
        rw [← hview]
        exact phaseView_leave _ _
      | finish hsound hphase hsame =>
        have hleave : r'.decoder.phase.leave = .getFrameHeader := by
          rw [hphase]
          rfl
        refine ⟨⟨hsound.remaining_lt, phaseSound_leave hsound.phase⟩, ?_, r'.src, rfl,
          Or.inl ⟨rfl, hleave, hsame⟩⟩
        show Flushes r'.decoder.phase.leave
        rw [hleave]
        trivial
      | strict _ hsame => exact absurd hsame hrun

end Simulation

/-! ## The library -/

open PythonLz4.Frame.DecompressionContext
open PythonLz4.Frame.DecoderRefinement
open PythonLz4.Frame.CallBounds

/-- `context` is a context of the library in the state of the decoder `d`. -/
structure Implements (context : LZ4F_dctx) (d : Decoder) : Prop where
  refines : DecoderRefines context [] d
  kept : Sound d ∨ Retries d
  bounds : FieldBounds context

theorem Implements.create : Implements LZ4F_createDecompressionContext Decoder.new :=
  ⟨create_refines, Or.inl ⟨Nat.two_pow_pos 64, trivial⟩, Nat.two_pow_pos 64, Nat.le_refl _⟩

theorem Implements.reset {context : LZ4F_dctx} {d : Decoder} (h : Implements context d) :
    Implements (LZ4F_resetDecompressionContext context) d.reset := by
  have hremaining : d.remaining < SIZE_T := by
    rcases h.kept with hd | hd
    · exact hd.remaining_lt
    · exact hd.remaining_lt
  exact ⟨LZ4F_reset_refines h.refines, Or.inl ⟨hremaining, trivial⟩, h.bounds.tmpInTarget,
    h.bounds.tmpOutStart⟩

section Calls

variable {fastLoop : Bool} {cap : Nat} {context : LZ4F_dctx} {d : Decoder}

theorem Implements.decompress (h : Implements context d) (fastLoop : Bool) (cap : Nat)
    (src : List UInt8) :
    Implements (LZ4F_decompress fastLoop context (some cap) src).1
      (AbstractDecoder.decompress fastLoop d cap src).1 :=
  ⟨(LZ4F_decompress_refines fastLoop cap src h.refines).2,
    (decompress_accepts h.kept src).2,
    (LZ4F_decompress_spec fastLoop h.bounds (some cap) src).1⟩

/-- A call that succeeds does what the decoder with adjacent histories does. -/
theorem Implements.accepts (h : Implements context d) {src : List UInt8} {context' : LZ4F_dctx}
    {p : Progress} (hcall : LZ4F_decompress fastLoop context (some cap) src = (context', .ok p)) :
    ∃ d', Implements context' d' ∧ Matches (callOutcome fastLoop true d cap src) src d' p := by
  have himplements := h.decompress fastLoop cap src
  obtain ⟨hresult, -⟩ := LZ4F_decompress_refines fastLoop cap src h.refines
  rw [hcall] at himplements hresult
  exact ⟨_, himplements, (decompress_accepts h.kept src).1 p hresult.symm⟩

/-- What the decoder with separate histories does, a call does. -/
theorem Implements.of_run (h : Implements context d) {src : List UInt8}
    (hrun : callOutcome fastLoop false d cap src ≠ .fail) :
    ∃ context' p d', LZ4F_decompress fastLoop context (some cap) src = (context', .ok p) ∧
      Implements context' d' ∧ Matches (callOutcome fastLoop false d cap src) src d' p := by
  have himplements := h.decompress fastLoop cap src
  obtain ⟨hresult, -⟩ := LZ4F_decompress_refines fastLoop cap src h.refines
  have hends : runStages (step fastLoop cap) (stagesFuel src.length) ⟨d, src, []⟩ ≠ none := by
    have hfuel : callMeasure ⟨context, src, []⟩ < stagesFuel src.length := by
      have hrank := stageRank_le context
      simp only [callMeasure, stagesFuel]
      omega
    obtain ⟨r, hr, -⟩ := @runStages_ended fastLoop (some cap) _ ⟨context, src, []⟩ h.bounds hfuel
    have hrel := runStages_refines fastLoop cap (stagesFuel src.length)
      (c := ⟨context, src, []⟩) (r := ⟨d, src, []⟩) ⟨rfl, rfl, h.refines, fun _ => rfl⟩
    intro hnone
    rw [hr, hnone] at hrel
    cases hrel
  obtain ⟨p, hp, hmatches⟩ := decompress_of_run h.kept hends hrun
  refine ⟨(LZ4F_decompress fastLoop context (some cap) src).1, p, _, ?_, himplements, hmatches⟩
  rw [hp] at hresult
  exact Prod.ext rfl hresult

end Calls

/-! ## Between two calls -/

theorem settle_ready (remaining : Nat) (f : Field) : (settle remaining f).Ready := by
  intro s pending he _
  unfold settle at he
  split_ifs at he with hzero
  obtain ⟨rfl, rfl⟩ := Event.next.inj he
  exact ⟨rfl, Nat.pos_of_ne_zero hzero⟩

/-- An event that starts no compressed block. -/
theorem ready_of_not {e : Event} (h : ∀ s pending, e = .next s pending → s.field.inCBlock = false) :
    e.Ready := by
  intro s pending he hin
  rw [h s pending he] at hin
  cases hin

theorem copyFrom_ready (remaining target : Nat) (c : Content) (summed : List UInt8) :
    (copyFrom remaining c target summed).Ready := by
  refine ready_of_not fun s pending he => ?_
  unfold copyFrom at he
  split_ifs at he
  all_goals
    cases he
    rfl

theorem suffixFrom_ready (remaining : Nat) (contentChecksumFlag : Bool) (hashed : List UInt8) :
    (suffixFrom remaining contentChecksumFlag hashed).Ready := by
  refine ready_of_not fun s pending he => ?_
  unfold suffixFrom at he
  split_ifs at he
  cases he
  rfl

theorem skipFrom_ready (remaining target : Nat) : (skipFrom remaining target).Ready := by
  refine ready_of_not fun s pending he => ?_
  unfold skipFrom at he
  split_ifs at he
  cases he
  rfl

theorem view_ready (d : Decoder) : (view d).Ready := by
  have hnext : ∀ s pending, s.field.inCBlock = false → (Event.next s pending).Ready := by
    intro s pending hs
    refine ready_of_not fun s' pending' he => ?_
    obtain ⟨rfl, -⟩ := Event.next.inj he
    exact hs
  obtain ⟨remaining, bufferSize, phase⟩ := d
  cases phase with
  | getFrameHeader => exact hnext _ _ rfl
  | storeFrameHeader target got => exact settle_ready _ _
  | init frameInfo => exact hnext _ _ rfl
  | block b p =>
    cases p with
    | getBlockHeader => exact hnext _ _ rfl
    | storeBlockHeader got => exact settle_ready _ _
    | copyDirect target summed => exact copyFrom_ready _ _ _ _
    | getBlockChecksum summed got => exact settle_ready _ _
    | getCBlock target => exact settle_ready _ _
    | storeCBlock target got => exact settle_ready _ _
    | flushOut start pending => exact hnext _ _ rfl
  | getSuffix contentChecksumFlag hashed => exact suffixFrom_ready _ _ _
  | storeSuffix hashed got => exact settle_ready _ _
  | getSFrameSize => exact hnext _ _ rfl
  | storeSFrameSize got => exact settle_ready _ _
  | skipSkippable target => exact skipFrom_ready _ _

theorem entry_ready (fastLoop adjacent : Bool) (d : Decoder) (src : List UInt8) :
    (entry fastLoop adjacent d src).1.Ready := by
  unfold entry
  split
  · split_ifs
    · exact ready_of_not fun s pending he => (readCBlock_next he).1
    · exact view_ready d
  · exact view_ready d

/-- What is entered is what is left of the input. -/
theorem entry_suffix (fastLoop adjacent : Bool) (d : Decoder) (src : List UInt8) :
    (entry fastLoop adjacent d src).2 <:+ src := by
  unfold entry
  split
  · split_ifs
    · exact List.drop_suffix _ _
    · exact List.suffix_refl src
  · exact List.suffix_refl src

/-- What the decoder holds back is in `tmpOut`. -/
theorem flushing_iff {d : Decoder} (hflushes : Flushes d.phase) {s : Reader} {pending : List UInt8}
    (hview : view d = .next s pending) :
    pending ≠ [] ↔ ∃ b start pending, d.phase = .block b (.flushOut start pending) := by
  have hsettle : ∀ f, settle d.remaining f = .next s pending → pending = [] := by
    intro f hf
    unfold settle at hf
    split_ifs at hf
    exact (Event.next.inj hf).2.symm
  obtain ⟨remaining, bufferSize, phase⟩ := d
  have hnone : ∀ {p : Prop}, pending = [] → (¬ p) → (pending ≠ [] ↔ p) := fun hnil hp =>
    ⟨fun hne => absurd hnil hne, fun h => absurd h hp⟩
  cases phase with
  | block b p =>
    cases p with
    | flushOut start pending' =>
      obtain ⟨-, rfl⟩ := Event.next.inj hview
      exact ⟨fun _ => ⟨b, start, pending', rfl⟩, fun _ => hflushes⟩
    | getBlockHeader =>
      exact hnone (Event.next.inj hview).2.symm (by rintro ⟨_, _, _, ⟨⟩⟩)
    | copyDirect target summed =>
      exact hnone ((quiet_copyFrom _ _ _ _) _ _ hview).1 (by rintro ⟨_, _, _, ⟨⟩⟩)
    | _ => exact hnone (hsettle _ hview) (by rintro ⟨_, _, _, ⟨⟩⟩)
  | getFrameHeader => exact hnone (Event.next.inj hview).2.symm (by rintro ⟨_, _, _, ⟨⟩⟩)
  | init frameInfo => exact hnone (Event.next.inj hview).2.symm (by rintro ⟨_, _, _, ⟨⟩⟩)
  | getSuffix contentChecksumFlag hashed =>
    exact hnone ((quiet_suffixFrom _ _ _) _ _ hview).1 (by rintro ⟨_, _, _, ⟨⟩⟩)
  | getSFrameSize => exact hnone (Event.next.inj hview).2.symm (by rintro ⟨_, _, _, ⟨⟩⟩)
  | skipSkippable target =>
    exact hnone ((quiet_skipFrom _ _) _ _ hview).1 (by rintro ⟨_, _, _, ⟨⟩⟩)
  | _ => exact hnone (hsettle _ hview) (by rintro ⟨_, _, _, ⟨⟩⟩)

end PythonLz4.Frame.BytewiseRefinement
