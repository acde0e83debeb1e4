import PythonLz4.Frame.HistoryRefinement

/-!
# How far a call goes

A call of `LZ4F_decompress` moves forward in its input and writes no more than its destination
holds. It stops for one of three reasons: the frame is over, the input is used up, or the
destination is full (`LZ4F_decompress_spec`). The stages come to such an end after a number of
iterations the model provides for (`runStages_spec`).
-/

set_option autoImplicit false

namespace PythonLz4.Frame.CallBounds

open PythonLz4.Lib.ByteMemory
open PythonLz4.Lib.LittleEndian
open PythonLz4.Block.DecompressGeneric
open PythonLz4.Frame.Header
open PythonLz4.Frame.DecompressionContext
open PythonLz4.Frame.HistoryRefinement

/-- What holds of the sizes in every context: one is a `size_t`, and no more is flushed of a block
than there is. -/
structure FieldBounds (dctx : LZ4F_dctx) : Prop where
  tmpInTarget : dctx.tmpInTarget < SIZE_T
  tmpOutStart : dctx.tmpOutStart ≤ dctx.tmpOutSize

/-- A later moment of the same call. -/
structure Later (cap : Nat) (c c' : Call) : Prop where
  src : ∃ n, c'.src = c.src.drop n
  dst : ∃ piece, c'.dst = c.dst ++ piece
  fits : c.dst.length ≤ cap → c'.dst.length ≤ cap

/-- The order in which stages follow each other when nothing is read in between. A stage that
collects bytes reads at least one more, unless it has them all. -/
def stageRank (dctx : LZ4F_dctx) : Nat :=
  match dctx.dStage with
  | .getFrameHeader => 14
  | .storeFrameHeader => if dctx.tmpInSize < dctx.tmpInTarget then 1 else 13
  | .storeBlockHeader => if dctx.tmpInSize < BHSize then 1 else 12
  | .getCBlock => 11
  | .storeCBlock => if dctx.tmpInSize < dctx.tmpInTarget then 1 else 10
  | .copyDirect => 9
  | .getBlockChecksum => 8
  | .flushOut => 7
  | .init => 6
  | .getBlockHeader => 5
  | .getSuffix => 4
  | .getSFrameSize => 4
  | .storeSuffix => 3
  | .storeSFrameSize => if dctx.tmpInSize < dctx.tmpInTarget then 1 else 3
  | .skipSkippable => 2

theorem stageRank_le (dctx : LZ4F_dctx) : stageRank dctx ≤ 14 := by
  unfold stageRank
  split <;> try split_ifs
  all_goals omega

/-- The measure of a call that goes on. -/
def callMeasure (c : Call) : Nat := 64 * c.src.length + stageRank c.dctx

/-- The destination is full. -/
def Full (cap : Nat) (c : Call) : Prop := cap ≤ c.dst.length

/-- What an iteration may end with. -/
inductive Paced (cap : Nat) (c : Call) : Iteration Call → Prop where
  | again {c' : Call} (later : Later cap c c') (bounds : FieldBounds c'.dctx)
      (lt : callMeasure c' < callMeasure c) : Paced cap c (.again c')
  | stop {c' : Call} {hint : Nat} (later : Later cap c c') (bounds : FieldBounds c'.dctx)
      (reason : hint = 0 ∨ c'.src = [] ∨ Full cap c') : Paced cap c (.stop c' hint)
  | fail {c' : Call} {e : LZ4F_errorCode} (later : Later cap c c')
      (bounds : FieldBounds c'.dctx) : Paced cap c (.fail c' e)

namespace Later

variable {cap : Nat} {c c' c'' : Call}

theorem refl (cap : Nat) (c : Call) : Later cap c c :=
  ⟨⟨0, rfl⟩, ⟨[], (List.append_nil _).symm⟩, id⟩

theorem trans (h : Later cap c c') (h' : Later cap c' c'') : Later cap c c'' := by
  obtain ⟨n, hn⟩ := h.src
  obtain ⟨m, hm⟩ := h'.src
  obtain ⟨p, hp⟩ := h.dst
  obtain ⟨q, hq⟩ := h'.dst
  refine ⟨⟨n + m, ?_⟩, ⟨p ++ q, ?_⟩, fun hc => h'.fits (h.fits hc)⟩
  · rw [hm, hn, List.drop_drop]
  · rw [hq, hp, List.append_assoc]

/-- Reading alone. -/
theorem read (dctx : LZ4F_dctx) (n : Nat) : Later cap c { c with dctx, src := c.src.drop n } :=
  ⟨⟨n, rfl⟩, ⟨[], (List.append_nil _).symm⟩, id⟩

/-- Only the context changes. -/
theorem stay (dctx : LZ4F_dctx) : Later cap c { c with dctx } :=
  ⟨⟨0, rfl⟩, ⟨[], (List.append_nil _).symm⟩, id⟩

theorem write (dctx : LZ4F_dctx) (n : Nat) {piece : List UInt8}
    (hfits : piece.length ≤ cap - c.dst.length) :
    Later cap c ⟨dctx, c.src.drop n, c.dst ++ piece⟩ :=
  ⟨⟨n, rfl⟩, ⟨piece, rfl⟩, fun hc => by
    show (c.dst ++ piece).length ≤ cap
    rw [List.length_append]
    omega⟩

theorem src_length_le (h : Later cap c c') : c'.src.length ≤ c.src.length := by
  obtain ⟨n, hn⟩ := h.src
  rw [hn, List.length_drop]
  exact Nat.sub_le _ _

end Later

/-- What was read is behind: only the rank of the next stage counts. -/
theorem callMeasure_lt_of_read {c c' : Call} {n : Nat} (hpos : 0 < n) (hn : n ≤ c.src.length)
    (hsrc : c'.src = c.src.drop n) : callMeasure c' < callMeasure c := by
  have hrank := stageRank_le c'.dctx
  have hlen : c'.src.length = c.src.length - n := by rw [hsrc, List.length_drop]
  unfold callMeasure
  omega

theorem callMeasure_lt_of_rank {c c' : Call} {n : Nat} (hsrc : c'.src = c.src.drop n)
    (hrank : stageRank c'.dctx < stageRank c.dctx) : callMeasure c' < callMeasure c := by
  have hlen : c'.src.length = c.src.length - n := by rw [hsrc, List.length_drop]
  unfold callMeasure
  omega

/-! ## The stages -/

section Stages

variable {cap : Nat} {c : Call}

/-- A part that is collected over several calls: either all of it is there, or the input is used
up. -/
theorem collect (held : Nat) {target : Nat} (src : List UInt8) (ht : target < SIZE_T) :
    ∃ n, min (sizeSub target held) src.length = n ∧
      ((held + n < target ∧ src.drop n = []) ∨
        (target ≤ held + n ∧ n ≤ src.length ∧ (held < target → 0 < n))) := by
  by_cases hlt : held < target
  · rw [sizeSub_of_le (Nat.le_of_lt hlt) ht]
    rcases Nat.lt_or_ge src.length (target - held) with hshort | hlong
    · rw [Nat.min_eq_right (Nat.le_of_lt hshort)]
      exact ⟨_, rfl, Or.inl ⟨by omega, List.drop_length⟩⟩
    · rw [Nat.min_eq_left hlong]
      exact ⟨_, rfl, Or.inr ⟨by omega, hlong, fun _ => by omega⟩⟩
  · exact ⟨_, rfl, Or.inr ⟨by omega, Nat.min_le_right _ _, fun h => absurd h hlt⟩⟩

/-- Decoding the header reads some of it, and goes on with a stage that cannot lead back. -/
theorem decodeHeader_bounds {dctx : LZ4F_dctx} (hb : FieldBounds dctx) (src : List UInt8)
    (fromHeader : Bool) :
    FieldBounds (LZ4F_decodeHeader dctx src fromHeader).1 ∧
      ∀ n, (LZ4F_decodeHeader dctx src fromHeader).2 = .ok n →
        0 < n ∧ n ≤ src.length ∧ stageRank (LZ4F_decodeHeader dctx src fromHeader).1 ≤ 6 := by
  unfold LZ4F_decodeHeader
  by_cases hmin : src.length < minFHSize
  · rw [if_pos hmin]
    exact ⟨hb, nofun⟩
  rw [if_neg hmin]
  have h7 : 7 ≤ src.length := Nat.not_lt.1 hmin
  cases hread : readFrameHeader src with
  | error e => exact ⟨⟨hb.tmpInTarget, hb.tmpOutStart⟩, nofun⟩
  | ok r =>
    cases r with
    | skippable =>
      cases fromHeader with
      | true =>
        refine ⟨⟨?_, hb.tmpOutStart⟩, fun n hn => ?_⟩
        · show 8 < SIZE_T
          decide
        · obtain rfl := Except.ok.inj hn
          refine ⟨by omega, Nat.le_refl _, ?_⟩
          simp only [stageRank, if_true]
          split_ifs <;> omega
      | false =>
        refine ⟨⟨hb.tmpInTarget, hb.tmpOutStart⟩, fun n hn => ?_⟩
        obtain rfl := Except.ok.inj hn
        exact ⟨by omega, by omega, by simp [stageRank]⟩
    | incomplete frameHeaderSize =>
      obtain ⟨hlt, hle⟩ := readFrameHeader_incomplete hread
      refine ⟨⟨?_, hb.tmpOutStart⟩, fun n hn => ?_⟩
      · show frameHeaderSize < SIZE_T
        exact Nat.lt_of_le_of_lt hle (by decide)
      · obtain rfl := Except.ok.inj hn
        exact ⟨by omega, Nat.le_refl _, by simp [stageRank, hlt]⟩
    | complete frameHeaderSize frameInfo contentSizeFlag =>
      obtain ⟨hvalid, -, -⟩ := readFrameHeader_complete_iff.1 hread
      refine ⟨⟨hb.tmpInTarget, hb.tmpOutStart⟩, fun n hn => ?_⟩
      obtain rfl := Except.ok.inj hn
      have hge := frameHeaderSizeOf_ge (flagByte src)
      rw [← hvalid.size_eq, minFHSize] at hge
      exact ⟨by omega, hvalid.size_le, by simp [stageRank]⟩

theorem dstage_getFrameHeader_paced (hb : FieldBounds c.dctx)
    (hs : c.dctx.dStage = .getFrameHeader) : Paced cap c (dstage_getFrameHeader c) := by
  unfold dstage_getFrameHeader
  by_cases hmax : maxFHSize ≤ c.src.length
  · rw [if_pos hmax]
    obtain ⟨hbounds, hok⟩ := decodeHeader_bounds hb c.src false
    generalize LZ4F_decodeHeader c.dctx c.src false = r at hbounds hok ⊢
    obtain ⟨dctx, _ | n⟩ := r
    · exact .fail (.stay dctx) hbounds
    · obtain ⟨hpos, hle, -⟩ := hok n rfl
      exact .again (.read dctx n) hbounds (callMeasure_lt_of_read hpos hle rfl)
  rw [if_neg hmax]
  by_cases hnil : c.src.length = 0
  · rw [if_pos hnil]
    exact .stop (.stay _) ⟨hb.tmpInTarget, hb.tmpOutStart⟩
      (Or.inr (Or.inl (List.eq_nil_of_length_eq_zero hnil)))
  · rw [if_neg hnil]
    refine .again (.stay _) ⟨?_, hb.tmpOutStart⟩ (callMeasure_lt_of_rank (n := 0) rfl ?_)
    · show minFHSize < SIZE_T
      decide
    · simp [stageRank, hs, minFHSize]

theorem dstage_storeFrameHeader_paced (hb : FieldBounds c.dctx)
    (hs : c.dctx.dStage = .storeFrameHeader) : Paced cap c (dstage_storeFrameHeader c) := by
  obtain ⟨n, hn, hcollect⟩ := collect c.dctx.tmpInSize c.src hb.tmpInTarget
  unfold dstage_storeFrameHeader
  simp only [hn]
  rcases hcollect with ⟨hshort, hnil⟩ | ⟨hall, hle, hpos⟩
  · rw [if_pos hshort]
    exact .stop (.read _ n) ⟨hb.tmpInTarget, hb.tmpOutStart⟩ (Or.inr (Or.inl hnil))
  rw [if_neg (Nat.not_lt.2 hall)]
  obtain ⟨hbounds, hok⟩ := @decodeHeader_bounds
    { c.dctx with
      header := store c.dctx.header c.dctx.tmpInSize (c.src.take n)
      tmpInSize := c.dctx.tmpInSize + n } ⟨hb.tmpInTarget, hb.tmpOutStart⟩
    (load (store c.dctx.header c.dctx.tmpInSize (c.src.take n)) 0 c.dctx.tmpInTarget) true
  generalize LZ4F_decodeHeader _ _ true = r at hbounds hok ⊢
  obtain ⟨dctx, _ | m⟩ := r
  · exact .fail (.read dctx n) hbounds
  · obtain ⟨-, -, hrank⟩ := hok m rfl
    refine .again (.read dctx n) hbounds ?_
    by_cases hlt : c.dctx.tmpInSize < c.dctx.tmpInTarget
    · exact callMeasure_lt_of_read (hpos hlt) hle rfl
    · refine callMeasure_lt_of_rank rfl (Nat.lt_of_le_of_lt hrank ?_)
      simp [stageRank, hs, hlt]

theorem dstage_init_paced (hs : c.dctx.dStage = .init) :
    Paced cap c (dstage_init c) := by
  refine .again (.stay _) ⟨?_, Nat.le_refl _⟩ (callMeasure_lt_of_rank (n := 0) rfl ?_)
  · show 0 < SIZE_T
    decide
  · simp [stageRank, hs]

theorem leNat_take_four_lt (src : List UInt8) : leNat (src.take 4) < 2 ^ 32 := by
  have h := leNat_lt (src.take 4)
  have hlen : (src.take 4).length ≤ 4 := List.length_take_le _ _
  calc leNat (src.take 4) < 256 ^ (src.take 4).length := h
    _ ≤ 256 ^ 4 := Nat.pow_le_pow_right (by decide) hlen
    _ = 2 ^ 32 := by decide

variable {dstCapacity : Option Nat} {fastLoop : Bool}

/-- After a block header: `c'` has read it, and the stages that follow rank below it. -/
theorem decodeBlockHeader_paced {c' : Call} {selectedIn : List UInt8}
    (hlater : Later (dstCapacity.getD 0) c c') (hb : FieldBounds c'.dctx)
    (hlt : ∀ d : LZ4F_dctx, stageRank d ≤ 11 → callMeasure { c' with dctx := d } < callMeasure c) :
    Paced (dstCapacity.getD 0) c (decodeBlockHeader dstCapacity c' selectedIn) := by
  have hsize : leNat (selectedIn.take 4) % 0x80000000 < 2 ^ 31 := Nat.mod_lt _ (by decide)
  have hT : SIZE_T = 2 ^ 64 := rfl
  unfold decodeBlockHeader
  simp only
  by_cases hend : leNat (selectedIn.take 4) = 0
  · rw [if_pos hend]
    exact .again (hlater.trans (.stay _)) ⟨hb.tmpInTarget, hb.tmpOutStart⟩
      (hlt _ (by simp [stageRank]))
  rw [if_neg hend]
  by_cases hbig : c'.dctx.maxBlockSize < leNat (selectedIn.take 4) % 0x80000000
  · rw [if_pos hbig]
    exact .fail hlater hb
  rw [if_neg hbig]
  by_cases hraw : LZ4F_BLOCKUNCOMPRESSED_FLAG ≤ leNat (selectedIn.take 4)
  · rw [if_pos hraw]
    refine .again (hlater.trans (.stay _)) ⟨?_, hb.tmpOutStart⟩ (hlt _ (by simp [stageRank]))
    show leNat (selectedIn.take 4) % 0x80000000 < SIZE_T
    omega
  rw [if_neg hraw]
  have hcrc : (if c'.dctx.frameInfo.blockChecksumFlag then BFSize else 0) ≤ 4 := by
    split_ifs
    · exact Nat.le_refl 4
    · exact Nat.zero_le 4
  generalize (if c'.dctx.frameInfo.blockChecksumFlag then BFSize else 0) = crcSize at hcrc ⊢
  generalize leNat (selectedIn.take 4) % 0x80000000 = size at hsize ⊢
  have hbounds : FieldBounds { c'.dctx with
      dStage := .getCBlock, tmpInTarget := size + crcSize } := by
    refine ⟨?_, hb.tmpOutStart⟩
    show size + crcSize < SIZE_T
    omega
  split_ifs with hstop
  · refine .stop (hlater.trans (.stay _)) hbounds ?_
    rcases hstop with hroom | hsrc
    · refine Or.inr (Or.inr ?_)
      show dstCapacity.getD 0 ≤ c'.dst.length
      simp only [room] at hroom
      omega
    · exact Or.inr (Or.inl hsrc)
  · exact .again (hlater.trans (.stay _)) hbounds (hlt _ (by simp [stageRank]))

theorem dstage_getBlockHeader_paced (hb : FieldBounds c.dctx)
    (hs : c.dctx.dStage = .getBlockHeader) :
    Paced (dstCapacity.getD 0) c (dstage_getBlockHeader dstCapacity c) := by
  unfold dstage_getBlockHeader
  by_cases hle : BHSize ≤ c.src.length
  · rw [if_pos hle]
    refine decodeBlockHeader_paced (.read _ BHSize) hb fun d _ => ?_
    exact callMeasure_lt_of_read (by decide) hle rfl
  · rw [if_neg hle]
    refine .again (.stay _) ⟨hb.tmpInTarget, hb.tmpOutStart⟩
      (callMeasure_lt_of_rank (n := 0) rfl ?_)
    simp [stageRank, hs, BHSize]

theorem dstage_storeBlockHeader_paced (hb : FieldBounds c.dctx)
    (hs : c.dctx.dStage = .storeBlockHeader) :
    Paced (dstCapacity.getD 0) c (dstage_storeBlockHeader dstCapacity c) := by
  obtain ⟨n, hn, hcollect⟩ := collect c.dctx.tmpInSize c.src (show BHSize < SIZE_T by decide)
  unfold dstage_storeBlockHeader
  simp only [hn]
  rcases hcollect with ⟨hshort, hnil⟩ | ⟨hall, hle, hpos⟩
  · rw [if_pos hshort]
    exact .stop (.read _ n) ⟨hb.tmpInTarget, hb.tmpOutStart⟩ (Or.inr (Or.inl hnil))
  rw [if_neg (Nat.not_lt.2 hall)]
  refine decodeBlockHeader_paced (.read _ n) ⟨hb.tmpInTarget, hb.tmpOutStart⟩ fun d hd => ?_
  by_cases hlt : c.dctx.tmpInSize < BHSize
  · exact callMeasure_lt_of_read (hpos hlt) hle rfl
  · refine callMeasure_lt_of_rank (n := n) rfl (Nat.lt_of_le_of_lt hd ?_)
    simp [stageRank, hs, hlt]

/-- The bookkeeping for decoded bytes leaves the sizes alone. -/
theorem account_updateDict_bounds {dctx : LZ4F_dctx} (hb : FieldBounds dctx)
    (dst piece : List UInt8) (withinTmp : Bool) :
    FieldBounds ((dctx.account piece).updateDictIfLinked dst piece withinTmp) := by
  have ha : FieldBounds (dctx.account piece) := ⟨hb.tmpInTarget, hb.tmpOutStart⟩
  unfold LZ4F_dctx.updateDictIfLinked
  split_ifs
  · have hsame := updateDict_sameFrame (dctx.account piece) dst piece withinTmp
    refine ⟨?_, ?_⟩
    · rw [hsame.tmpInTarget]
      exact ha.tmpInTarget
    · rw [hsame.tmpOutStart, hsame.tmpOutSize]
      exact ha.tmpOutStart
  · exact ha

theorem updateDictIfLinked_tmpInTarget (dctx : LZ4F_dctx) (dst piece : List UInt8)
    (withinTmp : Bool) :
    (dctx.updateDictIfLinked dst piece withinTmp).tmpInTarget = dctx.tmpInTarget := by
  unfold LZ4F_dctx.updateDictIfLinked
  split_ifs
  · exact (updateDict_sameFrame dctx dst piece withinTmp).tmpInTarget
  · rfl

theorem dstage_copyDirect_paced (hb : FieldBounds c.dctx) (hs : c.dctx.dStage = .copyDirect) :
    Paced (dstCapacity.getD 0) c (dstage_copyDirect dstCapacity c) := by
  obtain ⟨n, hn, hntarget, hnsrc, hnroom, hncases⟩ :
      ∃ n, (if dstCapacity = none then 0
          else min c.dctx.tmpInTarget (min c.src.length (room dstCapacity c))) = n ∧
        n ≤ c.dctx.tmpInTarget ∧ n ≤ c.src.length ∧ n ≤ dstCapacity.getD 0 - c.dst.length ∧
        (n = c.dctx.tmpInTarget ∨ n = c.src.length ∨ dstCapacity.getD 0 ≤ c.dst.length + n) := by
    refine ⟨_, rfl, ?_⟩
    unfold room
    cases dstCapacity with
    | none =>
      rw [if_pos rfl]
      refine ⟨Nat.zero_le _, Nat.zero_le _, Nat.zero_le _, Or.inr (Or.inr (Nat.zero_le _))⟩
    | some cap =>
      rw [if_neg nofun, Option.getD_some]
      omega
  have hlen : (c.src.take n).length = n := List.length_take_of_le hnsrc
  have hcopy : ∀ summed : List UInt8, ∀ d : LZ4F_dctx,
      d = { c.dctx with blockChecksum := summed } →
      FieldBounds ((d.account (c.src.take n)).updateDictIfLinked c.dst (c.src.take n) false) ∧
        ((d.account (c.src.take n)).updateDictIfLinked c.dst (c.src.take n) false).tmpInTarget =
          c.dctx.tmpInTarget := by
    rintro summed d rfl
    have hd : FieldBounds { c.dctx with blockChecksum := summed } :=
      ⟨hb.tmpInTarget, hb.tmpOutStart⟩
    exact ⟨account_updateDict_bounds hd _ _ _, updateDictIfLinked_tmpInTarget _ _ _ _⟩
  unfold dstage_copyDirect
  simp only [hn]
  obtain ⟨d, hd, hbounds, htarget⟩ :
      ∃ d, (if dstCapacity = none then c.dctx
        else
          ({ c.dctx with
              blockChecksum :=
                if c.dctx.skipChecksum = false ∧ c.dctx.frameInfo.blockChecksumFlag then
                  c.dctx.blockChecksum ++ c.src.take n
                else c.dctx.blockChecksum }.account (c.src.take n)).updateDictIfLinked c.dst
            (c.src.take n) false) = d ∧ FieldBounds d ∧ d.tmpInTarget = c.dctx.tmpInTarget := by
    refine ⟨_, rfl, ?_⟩
    split_ifs
    · exact ⟨hb, rfl⟩
    · exact hcopy _ _ rfl
    · exact hcopy _ _ rfl
  simp only [hd, htarget]
  have hpiece : (c.src.take n).length ≤ dstCapacity.getD 0 - c.dst.length := by rwa [hlen]
  by_cases hall : n = c.dctx.tmpInTarget
  · rw [if_pos hall]
    split_ifs
    · refine .again (.write _ n hpiece) ⟨hb.tmpInTarget, hbounds.tmpOutStart⟩
        (callMeasure_lt_of_rank (n := n) rfl ?_)
      simp [stageRank, hs]
    · refine .again (.write _ n hpiece) ⟨hb.tmpInTarget, hbounds.tmpOutStart⟩
        (callMeasure_lt_of_rank (n := n) rfl ?_)
      simp [stageRank, hs]
  · rw [if_neg hall]
    refine .stop (.write _ n hpiece) ⟨?_, hbounds.tmpOutStart⟩ (Or.inr ?_)
    · exact Nat.lt_of_le_of_lt (Nat.sub_le _ _) hb.tmpInTarget
    · rcases hncases with htgt | hsrc | hfull
      · exact absurd htgt hall
      · refine Or.inl ?_
        show c.src.drop n = []
        rw [hsrc, List.drop_length]
      · refine Or.inr ?_
        show dstCapacity.getD 0 ≤ (c.dst ++ c.src.take n).length
        rwa [List.length_append, hlen]

theorem checkBlockChecksum_paced {cap : Nat} {c' : Call} {crcSrc : List UInt8}
    (hlater : Later cap c c') (hb : FieldBounds c'.dctx)
    (hlt : ∀ d : LZ4F_dctx, stageRank d ≤ 5 → callMeasure { c' with dctx := d } < callMeasure c) :
    Paced cap c (checkBlockChecksum c' crcSrc) := by
  unfold checkBlockChecksum
  split_ifs
  · exact .fail hlater hb
  · exact .again (hlater.trans (.stay _)) ⟨hb.tmpInTarget, hb.tmpOutStart⟩
      (hlt _ (by simp [stageRank]))

theorem dstage_getBlockChecksum_paced (hb : FieldBounds c.dctx)
    (hs : c.dctx.dStage = .getBlockChecksum) : Paced cap c (dstage_getBlockChecksum c) := by
  have hrank : stageRank c.dctx = 8 := by simp [stageRank, hs]
  have hlt : ∀ (n : Nat) (d : LZ4F_dctx), stageRank d ≤ 5 →
      callMeasure ⟨d, c.src.drop n, c.dst⟩ < callMeasure c := fun n d hd =>
    callMeasure_lt_of_rank (n := n) rfl (by rw [hrank]; exact Nat.lt_of_le_of_lt hd (by decide))
  obtain ⟨n, hn, hcollect⟩ := collect c.dctx.tmpInSize c.src (show 4 < SIZE_T by decide)
  unfold dstage_getBlockChecksum
  simp only [hn]
  by_cases hdirect : 4 ≤ c.src.length ∧ c.dctx.tmpInSize = 0
  · rw [if_pos hdirect]
    exact checkBlockChecksum_paced (.read _ 4) hb (hlt 4)
  rw [if_neg hdirect]
  rcases hcollect with ⟨hshort, hnil⟩ | ⟨hall, -, -⟩
  · rw [if_pos hshort]
    exact .stop (.read _ n) ⟨hb.tmpInTarget, hb.tmpOutStart⟩ (Or.inr (Or.inl hnil))
  · rw [if_neg (Nat.not_lt.2 hall)]
    exact checkBlockChecksum_paced (.read _ n) ⟨hb.tmpInTarget, hb.tmpOutStart⟩ (hlt n)

theorem placeTmpOut_bounds {dctx : LZ4F_dctx} (hb : FieldBounds dctx) (dst : List UInt8) :
    FieldBounds (dctx.placeTmpOut dst) := by
  unfold LZ4F_dctx.placeTmpOut LZ4F_dctx.truncateDict
  simp only
  split_ifs
  · exact ⟨hb.tmpInTarget, hb.tmpOutStart⟩
  · exact ⟨hb.tmpInTarget, hb.tmpOutStart⟩
  · exact ⟨hb.tmpInTarget, hb.tmpOutStart⟩
  · exact hb

theorem sizeSub_lt (a b : Nat) : sizeSub a b < SIZE_T := Nat.mod_lt _ (by decide)

/-- After a compressed block: `c'` has read it. -/
theorem decodeCBlock_paced {c' : Call} {selectedIn : List UInt8}
    (hlater : Later (dstCapacity.getD 0) c c') (hb : FieldBounds c'.dctx)
    (hlt : ∀ (d : LZ4F_dctx) (dst : List UInt8), stageRank d ≤ 7 →
      callMeasure ⟨d, c'.src, dst⟩ < callMeasure c) :
    Paced (dstCapacity.getD 0) c (decodeCBlock fastLoop dstCapacity c' selectedIn) := by
  obtain ⟨target, htarget, hsize⟩ :
      ∃ target, (if c'.dctx.frameInfo.blockChecksumFlag then sizeSub c'.dctx.tmpInTarget 4
        else c'.dctx.tmpInTarget) = target ∧ target < SIZE_T := by
    refine ⟨_, rfl, ?_⟩
    split_ifs
    · exact sizeSub_lt _ _
    · exact hb.tmpInTarget
  unfold decodeCBlock
  simp only [htarget]
  obtain ⟨d, hd⟩ : ∃ d, d = { c'.dctx with tmpInTarget := target } := ⟨_, rfl⟩
  have hbd : FieldBounds d := by
    rw [hd]
    exact ⟨hsize, hb.tmpOutStart⟩
  rw [← hd]
  have hstay : Later (dstCapacity.getD 0) c { c' with dctx := d } := hlater.trans (.stay d)
  split_ifs with hsum hdirect
  · exact .fail hstay hbd
  · -- straight into the destination, which has room for a whole block
    unfold decodeIntoDst
    simp only
    cases hdec : LZ4_decompress_safe_usingDict fastLoop (selectedIn.take d.tmpInTarget)
        d.maxBlockSize (d.decoderDict c'.dst) (d.dictEndsAt c'.dst) with
    | error e => exact .fail hstay hbd
    | ok decoded =>
      have hlen := usingDict_length_le hdec
      have hroom : d.maxBlockSize ≤ dstCapacity.getD 0 - c'.dst.length := by
        rw [hd]
        exact hdirect.1
      have hacc := account_updateDict_bounds hbd c'.dst decoded false
      refine .again (hlater.trans (.write _ 0 (Nat.le_trans hlen hroom)))
        ⟨hacc.tmpInTarget, hacc.tmpOutStart⟩ (hlt _ _ ?_)
      simp [stageRank]
  · unfold decodeIntoTmpOut
    simp only
    have hplace := placeTmpOut_bounds hbd c'.dst
    generalize d.placeTmpOut c'.dst = d' at hplace ⊢
    cases hdec : LZ4_decompress_safe_usingDict fastLoop (selectedIn.take d'.tmpInTarget)
        d'.maxBlockSize (d'.decoderDict c'.dst) d'.dictEndsAtTmpOut with
    | error e => exact .fail (hlater.trans (.stay d')) hplace
    | ok decoded =>
      refine .again (hlater.trans (.stay _)) ⟨hplace.tmpInTarget, Nat.zero_le _⟩ (hlt _ _ ?_)
      simp [stageRank]

theorem dstage_getCBlock_paced (hb : FieldBounds c.dctx) (hs : c.dctx.dStage = .getCBlock) :
    Paced (dstCapacity.getD 0) c (dstage_getCBlock fastLoop dstCapacity c) := by
  have hrank : stageRank c.dctx = 11 := by simp [stageRank, hs]
  unfold dstage_getCBlock
  by_cases hlt : c.src.length < c.dctx.tmpInTarget
  · rw [if_pos hlt]
    refine .again (.stay _) ⟨hb.tmpInTarget, hb.tmpOutStart⟩
      (callMeasure_lt_of_rank (n := 0) rfl ?_)
    rw [hrank]
    simp [stageRank, Nat.zero_lt_of_lt hlt]
  · rw [if_neg hlt]
    refine decodeCBlock_paced (.read _ _) hb fun d dst hd => ?_
    refine callMeasure_lt_of_rank (n := c.dctx.tmpInTarget) rfl ?_
    rw [hrank]
    exact Nat.lt_of_le_of_lt hd (by decide)

theorem dstage_storeCBlock_paced (hb : FieldBounds c.dctx) (hs : c.dctx.dStage = .storeCBlock) :
    Paced (dstCapacity.getD 0) c (dstage_storeCBlock fastLoop dstCapacity c) := by
  obtain ⟨n, hn, hcollect⟩ := collect c.dctx.tmpInSize c.src hb.tmpInTarget
  unfold dstage_storeCBlock
  simp only [hn]
  rcases hcollect with ⟨hshort, hnil⟩ | ⟨hall, hle, hpos⟩
  · rw [if_pos hshort]
    exact .stop (.read _ n) ⟨hb.tmpInTarget, hb.tmpOutStart⟩ (Or.inr (Or.inl hnil))
  rw [if_neg (Nat.not_lt.2 hall)]
  refine decodeCBlock_paced (.read _ n) ⟨hb.tmpInTarget, hb.tmpOutStart⟩ fun d dst hd => ?_
  by_cases hlt : c.dctx.tmpInSize < c.dctx.tmpInTarget
  · exact callMeasure_lt_of_read (hpos hlt) hle rfl
  · refine callMeasure_lt_of_rank (n := n) rfl (Nat.lt_of_le_of_lt hd ?_)
    simp [stageRank, hs, hlt]

theorem dstage_flushOut_paced (hb : FieldBounds c.dctx) (hs : c.dctx.dStage = .flushOut) :
    Paced (dstCapacity.getD 0) c (dstage_flushOut dstCapacity c) := by
  have hstart := hb.tmpOutStart
  obtain ⟨n, hn, hnsize, hnroom, hncases⟩ :
      ∃ n, (if dstCapacity = none then 0
          else min (c.dctx.tmpOutSize - c.dctx.tmpOutStart) (room dstCapacity c)) = n ∧
        n ≤ c.dctx.tmpOutSize - c.dctx.tmpOutStart ∧ n ≤ dstCapacity.getD 0 - c.dst.length ∧
        (n = c.dctx.tmpOutSize - c.dctx.tmpOutStart ∨
          dstCapacity.getD 0 ≤ c.dst.length + n) := by
    refine ⟨_, rfl, ?_⟩
    unfold room
    cases dstCapacity with
    | none =>
      rw [if_pos rfl]
      exact ⟨Nat.zero_le _, Nat.zero_le _, Or.inr (Nat.zero_le _)⟩
    | some cap =>
      rw [if_neg nofun, Option.getD_some]
      omega
  unfold dstage_flushOut
  simp only [hn]
  have hlen : (load c.dctx.tmpOutBuffer (c.dctx.tmpOut + c.dctx.tmpOutStart) n).length = n :=
    length_load _ _ _
  generalize load c.dctx.tmpOutBuffer (c.dctx.tmpOut + c.dctx.tmpOutStart) n = piece at hlen ⊢
  obtain ⟨d, hd, hbounds, hflushed⟩ :
      ∃ d, (if dstCapacity = none then c.dctx
        else
          { c.dctx.updateDictIfLinked c.dst piece true with
            tmpOutStart := (c.dctx.updateDictIfLinked c.dst piece true).tmpOutStart + n }) = d ∧
        FieldBounds d ∧ (d.tmpOutStart = d.tmpOutSize ∨ dstCapacity.getD 0 ≤ c.dst.length + n) := by
    refine ⟨_, rfl, ?_⟩
    have hupdate : (c.dctx.updateDictIfLinked c.dst piece true).tmpInTarget = c.dctx.tmpInTarget ∧
        (c.dctx.updateDictIfLinked c.dst piece true).tmpOutStart = c.dctx.tmpOutStart ∧
        (c.dctx.updateDictIfLinked c.dst piece true).tmpOutSize = c.dctx.tmpOutSize := by
      unfold LZ4F_dctx.updateDictIfLinked
      split_ifs
      · have hsame := updateDict_sameFrame c.dctx c.dst piece true
        exact ⟨hsame.tmpInTarget, hsame.tmpOutStart, hsame.tmpOutSize⟩
      · exact ⟨rfl, rfl, rfl⟩
    generalize c.dctx.updateDictIfLinked c.dst piece true = d at hupdate ⊢
    obtain ⟨h1, h2, h3⟩ := hupdate
    split_ifs with hnone
    · refine ⟨hb, Or.inr ?_⟩
      rw [hnone]
      exact Nat.zero_le _
    · refine ⟨⟨?_, ?_⟩, ?_⟩
      · show d.tmpInTarget < SIZE_T
        rw [h1]
        exact hb.tmpInTarget
      · show d.tmpOutStart + n ≤ d.tmpOutSize
        omega
      · rcases hncases with hall | hfull
        · refine Or.inl ?_
          show d.tmpOutStart + n = d.tmpOutSize
          omega
        · exact Or.inr hfull
  rw [hd]
  have hpiece : piece.length ≤ dstCapacity.getD 0 - c.dst.length := by rwa [hlen]
  split_ifs with hall
  · refine .again (.write _ 0 hpiece) ⟨hbounds.tmpInTarget, hbounds.tmpOutStart⟩
      (callMeasure_lt_of_rank (n := 0) rfl ?_)
    simp [stageRank, hs]
  · refine .stop (.write _ 0 hpiece) hbounds (Or.inr (Or.inr ?_))
    show dstCapacity.getD 0 ≤ (c.dst ++ piece).length
    rw [List.length_append, hlen]
    exact hflushed.resolve_left hall

theorem reset_bounds {dctx : LZ4F_dctx} (hb : FieldBounds dctx) :
    FieldBounds (LZ4F_resetDecompressionContext dctx) := ⟨hb.tmpInTarget, hb.tmpOutStart⟩

theorem checkSuffix_paced {cap : Nat} {c' : Call} {selectedIn : List UInt8}
    (hlater : Later cap c c') (hb : FieldBounds c'.dctx) :
    Paced cap c (checkSuffix c' selectedIn) := by
  unfold checkSuffix
  split_ifs
  · exact .fail hlater hb
  · exact .stop (hlater.trans (.stay _)) (reset_bounds hb) (Or.inl rfl)

theorem dstage_getSuffix_paced (hb : FieldBounds c.dctx) (hs : c.dctx.dStage = .getSuffix) :
    Paced cap c (dstage_getSuffix c) := by
  unfold dstage_getSuffix
  split_ifs
  · exact .fail (.refl cap c) hb
  · exact .stop (.stay _) (reset_bounds hb) (Or.inl rfl)
  · refine .again (.stay _) ⟨hb.tmpInTarget, hb.tmpOutStart⟩
      (callMeasure_lt_of_rank (n := 0) rfl ?_)
    simp [stageRank, hs]
  · exact checkSuffix_paced (.read _ 4) hb

theorem dstage_storeSuffix_paced (hb : FieldBounds c.dctx) :
    Paced cap c (dstage_storeSuffix c) := by
  obtain ⟨n, hn, hcollect⟩ := collect c.dctx.tmpInSize c.src (show 4 < SIZE_T by decide)
  unfold dstage_storeSuffix
  simp only [hn]
  rcases hcollect with ⟨hshort, hnil⟩ | ⟨hall, -, -⟩
  · rw [if_pos hshort]
    exact .stop (.read _ n) ⟨hb.tmpInTarget, hb.tmpOutStart⟩ (Or.inr (Or.inl hnil))
  · rw [if_neg (Nat.not_lt.2 hall)]
    exact checkSuffix_paced (.read _ n) ⟨hb.tmpInTarget, hb.tmpOutStart⟩

theorem decodeSFrameSize_paced {cap : Nat} {c' : Call} {selectedIn : List UInt8}
    (hlater : Later cap c c') (hb : FieldBounds c'.dctx)
    (hlt : ∀ d : LZ4F_dctx, stageRank d ≤ 2 → callMeasure { c' with dctx := d } < callMeasure c) :
    Paced cap c (decodeSFrameSize c' selectedIn) := by
  refine .again (hlater.trans (.stay _)) ⟨?_, hb.tmpOutStart⟩ (hlt _ (by simp [stageRank]))
  show leNat (selectedIn.take 4) < SIZE_T
  exact Nat.lt_trans (leNat_take_four_lt selectedIn) (by decide)

theorem dstage_getSFrameSize_paced (hb : FieldBounds c.dctx)
    (hs : c.dctx.dStage = .getSFrameSize) : Paced cap c (dstage_getSFrameSize c) := by
  unfold dstage_getSFrameSize
  by_cases hle : 4 ≤ c.src.length
  · rw [if_pos hle]
    refine decodeSFrameSize_paced (.read _ 4) hb fun d _ => ?_
    exact callMeasure_lt_of_read (by decide) hle rfl
  · rw [if_neg hle]
    refine .again (.stay _) ⟨?_, hb.tmpOutStart⟩ (callMeasure_lt_of_rank (n := 0) rfl ?_)
    · show 8 < SIZE_T
      decide
    · simp [stageRank, hs]

theorem dstage_storeSFrameSize_paced (hb : FieldBounds c.dctx)
    (hs : c.dctx.dStage = .storeSFrameSize) : Paced cap c (dstage_storeSFrameSize c) := by
  obtain ⟨n, hn, hcollect⟩ := collect c.dctx.tmpInSize c.src hb.tmpInTarget
  unfold dstage_storeSFrameSize
  simp only [hn]
  rcases hcollect with ⟨hshort, hnil⟩ | ⟨hall, hle, hpos⟩
  · rw [if_pos hshort]
    exact .stop (.read _ n) ⟨hb.tmpInTarget, hb.tmpOutStart⟩ (Or.inr (Or.inl hnil))
  rw [if_neg (Nat.not_lt.2 hall)]
  refine decodeSFrameSize_paced (.read _ n) ⟨hb.tmpInTarget, hb.tmpOutStart⟩ fun d hd => ?_
  by_cases hlt : c.dctx.tmpInSize < c.dctx.tmpInTarget
  · exact callMeasure_lt_of_read (hpos hlt) hle rfl
  · refine callMeasure_lt_of_rank (n := n) rfl (Nat.lt_of_le_of_lt hd ?_)
    simp [stageRank, hs, hlt]

theorem dstage_skipSkippable_paced (hb : FieldBounds c.dctx) :
    Paced cap c (dstage_skipSkippable c) := by
  have htarget : ∀ n, c.dctx.tmpInTarget - n < SIZE_T := fun n =>
    Nat.lt_of_le_of_lt (Nat.sub_le _ _) hb.tmpInTarget
  unfold dstage_skipSkippable
  simp only
  split_ifs with hrest
  · refine .stop (.read _ _) ⟨htarget _, hb.tmpOutStart⟩ (Or.inr (Or.inl ?_))
    show c.src.drop (min c.dctx.tmpInTarget c.src.length) = []
    have hshort : c.src.length ≤ c.dctx.tmpInTarget := by omega
    rw [Nat.min_eq_right hshort, List.drop_length]
  · exact .stop (.read _ _) ⟨htarget _, hb.tmpOutStart⟩ (Or.inl rfl)

theorem iteration_paced (hb : FieldBounds c.dctx) :
    Paced (dstCapacity.getD 0) c (iteration fastLoop dstCapacity c) := by
  unfold iteration
  cases hs : c.dctx.dStage with
  | getFrameHeader => exact dstage_getFrameHeader_paced hb hs
  | storeFrameHeader => exact dstage_storeFrameHeader_paced hb hs
  | init => exact dstage_init_paced hs
  | getBlockHeader => exact dstage_getBlockHeader_paced hb hs
  | storeBlockHeader => exact dstage_storeBlockHeader_paced hb hs
  | copyDirect => exact dstage_copyDirect_paced hb hs
  | getBlockChecksum => exact dstage_getBlockChecksum_paced hb hs
  | getCBlock => exact dstage_getCBlock_paced hb hs
  | storeCBlock => exact dstage_storeCBlock_paced hb hs
  | flushOut => exact dstage_flushOut_paced hb hs
  | getSuffix => exact dstage_getSuffix_paced hb hs
  | storeSuffix => exact dstage_storeSuffix_paced hb
  | getSFrameSize => exact dstage_getSFrameSize_paced hb hs
  | storeSFrameSize => exact dstage_storeSFrameSize_paced hb hs
  | skipSkippable => exact dstage_skipSkippable_paced hb

end Stages

/-! ## The call -/

/-- How the stages end. -/
inductive Ended (cap : Nat) (c : Call) : Iteration Call → Prop where
  | stop {c' : Call} {hint : Nat} (later : Later cap c c') (bounds : FieldBounds c'.dctx)
      (reason : hint = 0 ∨ c'.src = [] ∨ Full cap c') : Ended cap c (.stop c' hint)
  | fail {c' : Call} {e : LZ4F_errorCode} (later : Later cap c c')
      (bounds : FieldBounds c'.dctx) : Ended cap c (.fail c' e)

/-- The stages end, with as many iterations as the measure of the call allows. -/
theorem runStages_ended (fastLoop : Bool) (dstCapacity : Option Nat) {fuel : Nat} {c : Call}
    (hb : FieldBounds c.dctx) (hfuel : callMeasure c < fuel) :
    ∃ r, runStages (iteration fastLoop dstCapacity) fuel c = some r ∧
      Ended (dstCapacity.getD 0) c r := by
  induction fuel generalizing c with
  | zero => exact absurd hfuel (Nat.not_lt_zero _)
  | succ fuel ih =>
    have hstep := @iteration_paced c dstCapacity fastLoop hb
    unfold runStages
    generalize iteration fastLoop dstCapacity c = r at hstep ⊢
    cases hstep with
    | again hlater hbounds hlt =>
      obtain ⟨r, hr, hended⟩ := ih hbounds (by omega)
      refine ⟨r, hr, ?_⟩
      cases hended with
      | stop hlater' hbounds' hreason => exact .stop (hlater.trans hlater') hbounds' hreason
      | fail hlater' hbounds' => exact .fail (hlater.trans hlater') hbounds'
    | stop hlater hbounds hreason => exact ⟨_, rfl, .stop hlater hbounds hreason⟩
    | fail hlater hbounds => exact ⟨_, rfl, .fail hlater hbounds⟩

theorem leaveDestination_bounds {dctx : LZ4F_dctx} (hb : FieldBounds dctx) (dst : List UInt8) :
    FieldBounds (leaveDestination dctx dst) := by
  unfold leaveDestination
  split
  · exact ⟨hb.tmpInTarget, hb.tmpOutStart⟩
  · exact hb

theorem preserveHistory_bounds {c : Call} (hb : FieldBounds c.dctx) :
    FieldBounds (preserveHistory c) := by
  unfold preserveHistory
  simp only
  split_ifs
  · exact ⟨hb.tmpInTarget, hb.tmpOutStart⟩
  · exact ⟨hb.tmpInTarget, hb.tmpOutStart⟩
  · exact hb

/-- What a successful call reports. -/
structure ProgressBounds (cap : Nat) (src : List UInt8) (p : Progress) : Prop where
  srcSize : p.srcSize ≤ src.length
  dst : p.dst.length ≤ cap
  reason : p.nextSrcSizeHint ≠ 0 → p.srcSize = src.length ∨ p.dst.length = cap

/-- A call succeeds within these bounds or fails, and leaves a context to go on with. -/
theorem LZ4F_decompress_spec (fastLoop : Bool) {dctx : LZ4F_dctx} (hb : FieldBounds dctx)
    (dstCapacity : Option Nat) (src : List UInt8) :
    FieldBounds (LZ4F_decompress fastLoop dctx dstCapacity src).1 ∧
      ∀ p, (LZ4F_decompress fastLoop dctx dstCapacity src).2 = .ok p →
        ProgressBounds (dstCapacity.getD 0) src p := by
  have hfuel : callMeasure ⟨dctx, src, []⟩ < stagesFuel src.length := by
    have hrank := stageRank_le dctx
    simp only [callMeasure, stagesFuel]
    omega
  obtain ⟨r, hr, hended⟩ := runStages_ended fastLoop dstCapacity (c := ⟨dctx, src, []⟩) hb hfuel
  unfold LZ4F_decompress
  rw [hr]
  cases hended with
  | @stop c hint hlater hbounds hreason =>
    refine ⟨leaveDestination_bounds (preserveHistory_bounds hbounds) _, fun p hp => ?_⟩
    obtain rfl := Except.ok.inj hp
    have hfits : c.dst.length ≤ dstCapacity.getD 0 := hlater.fits (Nat.zero_le _)
    refine ⟨Nat.sub_le _ _, hfits, fun hne => ?_⟩
    rcases hreason with hzero | hsrc | hfull
    · exact absurd hzero hne
    · refine Or.inl ?_
      show src.length - c.src.length = src.length
      rw [hsrc]
      rfl
    · exact Or.inr (Nat.le_antisymm hfits hfull)
  | @fail c e hlater hbounds => exact ⟨leaveDestination_bounds hbounds _, nofun⟩

end PythonLz4.Frame.CallBounds
