import PythonLz4.Stream.Mirror

/-!
# The two compressors against the decoder

One chunk keeps the compressor's window and the decoder's history together, for
`LZ4_compress_fast_continue` (`FastSynced.step_within`) and for `LZ4_compress_HC_continue`
(`HCSynced.step_within`), unless the chunk is a `conflict`: then the window holds bytes of the page the
block will be decoded to.
-/

set_option autoImplicit false

namespace PythonLz4.Stream.Compressors

open PythonLz4.Lib.HistoryWindow
open PythonLz4.Lib.ByteMemory
open PythonLz4.Block.DecompressGeneric
open PythonLz4.Stream.Continue
open PythonLz4.Stream.Context
open PythonLz4.Stream.Mirror

/-! ## The fast compressor -/

theorem renormDictT_spec (st : LZ4_stream_t) (n : Nat) :
    (LZ4_renormDictT st n).dictionary + (LZ4_renormDictT st n).dictSize =
        st.dictionary + st.dictSize ∧
      (LZ4_renormDictT st n).dictSize ≤ st.dictSize ∧
      ((LZ4_renormDictT st n).dictSize = st.dictSize ∨
        (LZ4_renormDictT st n).dictSize = KB64) := by
  unfold LZ4_renormDictT
  split_ifs
  · simp only
    omega
  · exact ⟨rfl, Nat.le_refl _, Or.inl rfl⟩

/-- The window of `LZ4_compress_fast_continue`: empty right at the source, empty elsewhere for an
empty source, or the recorded segment, shortened at its front. -/
theorem fastWindow_cases (st : LZ4_stream_t) {source : Nat} (hsource : 0 < source) (n : Nat) :
    ((fastWindow st source n).2 = source ∧ (fastWindow st source n).1.dictSize = 0 ∧
      (fastWindow st source n).1.dictionary = source ∧ 0 < n) ∨
    ((fastWindow st source n).2 ≠ source ∧ (fastWindow st source n).1.dictSize = 0 ∧ n = 0) ∨
    (st.dictSize ≠ 0 ∧ (fastWindow st source n).2 = st.dictionary + st.dictSize ∧
      (fastWindow st source n).1.dictionary + (fastWindow st source n).1.dictSize =
        st.dictionary + st.dictSize ∧
      (fastWindow st source n).1.dictSize ≤ st.dictSize ∧
      (source + n ≤ (fastWindow st source n).1.dictionary ∨
        st.dictionary + st.dictSize ≤ source + n ∨ (fastWindow st source n).1.dictSize = 0) ∧
      ((fastWindow st source n).2 ≠ source → 0 < n →
        4 ≤ (fastWindow st source n).1.dictSize ∨ (fastWindow st source n).1.dictSize = 0) ∧
      ((fastWindow st source n).2 = source →
        (fastWindow st source n).1.dictSize = st.dictSize ∨
          4 ≤ (fastWindow st source n).1.dictSize)) := by
  have h64 : KB64 = 65536 := rfl
  obtain ⟨hend, hle, hsize⟩ := renormDictT_spec st n
  have hdictEnd : st.dictEnd = if st.dictSize ≠ 0 then st.dictionary + st.dictSize else 0 := rfl
  simp only [fastWindow]
  generalize LZ4_renormDictT st n = q at hend hle hsize ⊢
  generalize st.dictEnd = dictEnd at hdictEnd ⊢
  by_cases htiny : q.dictSize < 4 ∧ dictEnd ≠ source ∧ 0 < n
  · refine Or.inl ?_
    simp only [invalidateTiny, if_pos htiny, trimOverlap]
    rw [if_neg (by omega)]
    exact ⟨trivial, rfl, rfl, htiny.2.2⟩
  · simp only [invalidateTiny, if_neg htiny]
    by_cases hzero : st.dictSize = 0
    · rw [if_neg (not_not.2 hzero)] at hdictEnd
      refine Or.inr (Or.inl ?_)
      rw [trimOverlap, if_neg (by omega)]
      omega
    · rw [if_pos hzero] at hdictEnd
      refine Or.inr (Or.inr ?_)
      simp only [trimOverlap]
      split_ifs with hover hsmall
      · simp only [or_true, implies_true, true_and]
        omega
      · simp only
        omega
      · omega

/-- The stream after a chunk, given the window recorded for it. -/
def fastNext (r : LZ4_stream_t × Nat) (source n : Nat) : LZ4_stream_t :=
  if r.2 = source then LZ4_compress_generic r.1 n
  else { LZ4_compress_generic r.1 n with dictionary := source, dictSize := n }

theorem compress_fast_continue_eq (encode : Encoder) (mem : Memory) (st : LZ4_stream_t)
    (source n cap : Nat) (acceleration : Int) :
    LZ4_compress_fast_continue encode mem st source n cap acceleration =
      (encode (load mem (fastWindow st source n).1.dictionary (fastWindow st source n).1.dictSize)
        (load mem source n) cap acceleration, fastNext (fastWindow st source n) source n) := by
  simp only [LZ4_compress_fast_continue, fastNext]
  split_ifs <;> rfl

theorem fastNext_of_ne {r : LZ4_stream_t × Nat} {source n : Nat} (h : r.2 ≠ source) :
    (fastNext r source n).dictionary = source ∧ (fastNext r source n).dictSize = n := by
  rw [fastNext, if_neg h]
  exact ⟨rfl, rfl⟩

theorem fastNext_of_eq {r : LZ4_stream_t × Nat} {source n : Nat} (h : r.2 = source) :
    (fastNext r source n).dictionary = r.1.dictionary ∧
      (fastNext r source n).dictSize = r.1.dictSize + n := by
  rw [fastNext, if_pos h, LZ4_compress_generic]
  split_ifs with h0
  · exact ⟨rfl, by omega⟩
  · exact ⟨rfl, rfl⟩

/-! ## When history lies in the page being decoded to -/

/-- A chunk of `n` bytes whose block may refer to bytes of the page it is decoded to; `prev1` and
`prev2` are the lengths of the chunk before it and of the one before that, zero when there is none.
On page 0: the previous chunks filled page 0 and went on into page 1, and the new chunk leaves a
part of page 0 in the window. In the fast modes also a full page 0, an empty chunk, a full page 0:
there the window is the source itself. On page 1, for the high compression mode: the window is the
full page 0 behind what the new chunk leaves of page 1. -/
def conflict (hc : Bool) (B index prev2 prev1 n : Nat) : Prop :=
  if index = 0 then
    prev2 = B ∧ 0 < n ∧ prev1 < KB64 - 1 ∧
      ((n < B ∧ n + 4 ≤ B + prev1) ∨ (hc = false ∧ n = B ∧ prev1 = 0 ∧ 4 ≤ B))
  else hc = true ∧ prev1 = B ∧ 0 < n ∧ n + 4 ≤ prev2 ∧ B < KB64 - 1

instance (hc : Bool) (B index prev2 prev1 n : Nat) :
    Decidable (conflict hc B index prev2 prev1 n) := by
  unfold conflict
  infer_instance

/-- As `conflict`, when what is written to the page may differ on the two sides in its first `M`
bytes, of which the chunk takes `n`, and nowhere else. -/
def conflictWithin (hc : Bool) (B M index prev2 prev1 n : Nat) : Prop :=
  if index = 0 then
    prev2 = B ∧ 0 < n ∧
      ((n < M ∧ n + 4 ≤ B + prev1 ∧ prev1 + (B - M) < KB64 - 1) ∨
        (hc = false ∧ n = B ∧ prev1 = 0 ∧ 4 ≤ B))
  else hc = true ∧ prev1 = B ∧ 0 < n ∧ n < M ∧ n + 4 ≤ prev2 ∧ B + (prev2 - M) < KB64 - 1

instance (hc : Bool) (B M index prev2 prev1 n : Nat) :
    Decidable (conflictWithin hc B M index prev2 prev1 n) := by
  unfold conflictWithin
  infer_instance

/-- A chunk that is no `conflict` is none within the whole page. -/
theorem not_conflictWithin_page {hc : Bool} {B index prev2 prev1 n : Nat}
    (h : ¬ conflict hc B index prev2 prev1 n) : ¬ conflictWithin hc B B index prev2 prev1 n := by
  have h64 : KB64 = 65536 := rfl
  intro hw
  refine h ?_
  unfold conflict
  unfold conflictWithin at hw
  split_ifs at hw ⊢ with h0
  · obtain ⟨hp2, hpos, hw⟩ := hw
    refine ⟨hp2, hpos, by omega, ?_⟩
    rcases hw with ⟨hnB, hn4, -⟩ | hself
    · exact Or.inl ⟨hnB, hn4⟩
    · exact Or.inr hself
  · obtain ⟨hhc, hp1, hpos, -, hn4, hfar⟩ := hw
    exact ⟨hhc, hp1, hpos, hn4, by omega⟩

section FastSide

variable {L B : Nat} {cp dp : Placement L B} {index prev2 prev1 : Nat} {cm dm : Memory}
  {st : LZ4_streamDecode_t}

/-- The compressor's window is what the decoder has. -/
structure FastSynced (cp dp : Placement L B) (index prev2 prev1 : Nat) (cm dm : Memory)
    (fst : LZ4_stream_t) (st : LZ4_streamDecode_t) : Prop where
  placed : DecoderPlaced dp st
  segment : fst.dictSize = 0 ∨
    Segment cp dp index prev2 prev1 cm dm (fst.dictionary + fst.dictSize) fst.dictSize st

/-- On page 0 the trimmed window of `w` bytes from `d` on leaves the first `M` bytes of page 0, or
what it keeps of them is out of reach, unless the chunk is a conflict. -/
theorem fast_clears {buf M prev2 prev1 n s d w : Nat} (hpos : 0 < n) (hnM : n ≤ M) (hM : M ≤ B)
    (hok : ¬ conflictWithin false B M 0 prev2 prev1 n) (hback : s ≤ prev1 ∨ prev2 = B)
    (hwin : d + w = buf + (B + prev1)) (hsE : s ≤ B + prev1) (hle : w ≤ s)
    (htrim : buf + n ≤ d ∨ buf + (B + prev1) ≤ buf + n ∨ w = 0) (hsmall : 4 ≤ w ∨ w = 0) :
    w ≤ prev1 + (B - M) ∨ KB64 - 1 ≤ prev1 + (B - M) := by
  simp only [conflictWithin, if_true, true_and] at hok
  rcases hback with hs | hp2
  · exact Or.inl (Nat.le_trans (Nat.le_trans hle hs) (Nat.le_add_right _ _))
  by_cases hfar : KB64 - 1 ≤ prev1 + (B - M)
  · exact Or.inr hfar
  refine Or.inl ?_
  rcases hsmall with h4 | hz
  · rcases htrim with hbehind | hcovered | hz
    · rcases Nat.lt_or_ge n M with hlt | hge
      · have hconflict : n + 4 ≤ B + prev1 := by omega
        exact absurd ⟨hp2, hpos, Or.inl ⟨hlt, hconflict, Nat.lt_of_not_le hfar⟩⟩ hok
      · omega
    · -- the source covers the window to its end: an empty chunk lies between two full pages
      have hself : n = B ∧ prev1 = 0 ∧ 4 ≤ B := by omega
      exact absurd ⟨hp2, hpos, Or.inr hself⟩ hok
    · omega
  · omega

/-- A segment that ends where the next page begins fills page 0. -/
theorem page_of_roll {cEnd s : Nat} (h : Segment cp dp index prev2 prev1 cm dm cEnd s st)
    (hindex : index ≤ 1) (hprev : prev1 ≤ B) (hpos : 0 < s) (hend : cEnd = cp.buf + index * B) :
    index = 1 ∧ prev1 = B := by
  cases h.place with
  | dictionary hfirst hcd hdd hsL =>
    have hca := cp.apart
    subst hfirst
    omega
  | buffer hce hde hsE hpage1 hpage0 =>
    obtain rfl | rfl : index = 0 ∨ index = 1 := by omega
    · simp only [pageEnd, if_true] at hce hsE
      omega
    · simp only [pageEnd, Nat.one_ne_zero, if_false] at hce
      omega

/-- One chunk, on memories that may change in the first `M` bytes of the page: `found` is what the
decoder finds while it decodes. -/
theorem FastSynced.step_within {fst : LZ4_stream_t}
    (h : FastSynced cp dp index prev2 prev1 cm dm fst st) (hindex : index ≤ 1)
    (hprev : prev1 ≤ B) {chunk : List UInt8} {M : Nat} (hM : M ≤ B)
    (hok : ¬ conflictWithin false B M index prev2 prev1 chunk.length)
    {source dest : Nat} (hsource : source = cp.buf + index * B)
    (hdest : dest = dp.buf + index * B) {cm' dm' found : Memory}
    (hcm : Written cm cm' source M chunk) (hdm : Written dm dm' dest M chunk)
    (hfound : SameOutside dm found dest M) {r : LZ4_stream_t × Nat}
    (hr : fastWindow fst source chunk.length = r) :
    (chunk = [] ∨ AgreeBack (KB64 - 1) (load cm' r.1.dictionary r.1.dictSize)
      (decodeHistory found st dest)) ∧
    FastSynced cp dp ((index + 1) % 2) prev1 chunk.length cm' dm' (fastNext r source chunk.length)
      (advance st dest chunk.length) := by
  have h64 : KB64 = 65536 := rfl
  have hchunk := hcm.length_le
  have hnull : 0 < source := by
    have := cp.buf_ne_null
    omega
  have hplaced := h.placed.advance index chunk.length
  rw [← hdest] at hplaced
  -- outside prefix mode, and right at the source, the chunk alone is the new segment
  have hfresh : ∀ q : LZ4_stream_t, q.dictionary = source → q.dictSize = chunk.length →
      FastSynced cp dp ((index + 1) % 2) prev1 chunk.length cm' dm' q
        (advance st dest chunk.length) := by
    intro q hd hs
    refine ⟨hplaced, ?_⟩
    rw [hd, hs]
    rcases Nat.eq_zero_or_pos chunk.length with h0 | hpos
    · exact Or.inl h0
    · subst hsource hdest
      exact Or.inr (Segment.fresh hindex hpos hcm hdm st)
  have hnil : ∀ p, AgreeBack (KB64 - 1) (load cm' p 0) (decodeHistory found st dest) :=
    fun p => .nil _ _
  have hcases := fastWindow_cases fst hnull chunk.length
  rw [hr] at hcases
  rcases hcases with
    ⟨heq, hzero, hdict, hpos⟩ | ⟨hne, hzero, hn⟩ | ⟨hs0, hend, hwin, hle, htrim, hsmall, hroll⟩
  · obtain ⟨hd, hs⟩ := fastNext_of_eq (n := chunk.length) heq
    refine ⟨Or.inr ?_, hfresh _ (hd.trans hdict) (by omega)⟩
    rw [hzero]
    exact hnil _
  · obtain ⟨hd, hs⟩ := fastNext_of_ne (n := chunk.length) hne
    exact ⟨Or.inl (List.eq_nil_of_length_eq_zero hn), hfresh _ hd hs⟩
  · rcases h.segment with hbad | hseg
    · exact absurd hbad hs0
    have hagree : 0 < chunk.length →
        AgreeBack (KB64 - 1) (load cm' r.1.dictionary r.1.dictSize)
          (decodeHistory found st dest) := by
      intro hpos
      rcases Nat.eq_zero_or_pos r.1.dictSize with hz | hwpos
      · rw [hz]
        exact hnil _
      · have hstart : r.1.dictionary = fst.dictionary + fst.dictSize - r.1.dictSize := by omega
        subst hsource hdest
        rw [hstart]
        refine hseg.agree h.placed hindex hprev hM hcm.outside hfound hle hwpos ?_
        -- on page 0 the trimmed window leaves what was written, unless the chunk is a conflict
        intro h0 hc
        subst h0
        cases hseg.place with
        | dictionary _ hcd hdd hsL =>
          have hca := cp.apart
          omega
        | buffer _ hde hsE _ hpage0 =>
          obtain ⟨hback, -⟩ := hpage0 rfl
          simp only [pageEnd, if_true] at hsE
          rw [Nat.zero_mul, Nat.add_zero, hc] at htrim
          rw [hc] at hwin hend
          exact fast_clears hpos hchunk hM hok hback hwin hsE hle htrim (hsmall (by omega) hpos)
    by_cases hprefix : r.2 = source
    · -- prefix mode: a full page 0 goes on into page 1
      obtain ⟨hd, hs⟩ := fastNext_of_eq (n := chunk.length) hprefix
      obtain ⟨rfl, rfl⟩ := page_of_roll hseg hindex hprev (Nat.pos_of_ne_zero hs0)
        ((hend.symm.trans hprefix).trans hsource)
      rw [Nat.one_mul] at hsource hdest
      have hwpos : 0 < r.1.dictSize := by
        rcases hroll hprefix with hw | hw
        · omega
        · omega
      refine ⟨?_, hplaced, Or.inr ?_⟩
      · rcases Nat.eq_zero_or_pos chunk.length with h0 | hpos
        · exact Or.inl (List.eq_nil_of_length_eq_zero h0)
        · exact Or.inr (hagree hpos)
      · subst hsource hdest
        have hrolled := hseg.rolled (by omega) h.placed r.1.dictSize
          ((hroll hprefix).imp id fun hw => ⟨hw, hle⟩) hwpos hM hcm hdm
        rw [hd, hs, ← Nat.add_assoc, hwin]
        exact hrolled
    · obtain ⟨hd, hs⟩ := fastNext_of_ne (n := chunk.length) hprefix
      refine ⟨?_, hfresh _ hd hs⟩
      rcases Nat.eq_zero_or_pos chunk.length with h0 | hpos
      · exact Or.inl (List.eq_nil_of_length_eq_zero h0)
      · exact Or.inr (hagree hpos)

end FastSide

/-! ## The high compression compressor -/

/-- The stream before the block is placed: started at the source, or kept, or cut down to the last
64 KB of its prefix. -/
theorem hcInit_cases (ctx : LZ4_streamHC_t) (src : Nat) :
    (ctx.prefixStart = 0 ∧ (hcInit ctx src).prefixStart = src ∧ (hcInit ctx src).bufEnd = src ∧
      (hcInit ctx src).extSize = 0) ∨
    (ctx.prefixStart ≠ 0 ∧ hcInit ctx src = ctx) ∨
    (ctx.prefixStart ≠ 0 ∧ (hcInit ctx src).extSize = 0 ∧
      (hcInit ctx src).bufEnd = ctx.bufEnd - min (ctx.bufEnd - ctx.prefixStart) KB64 +
        min (ctx.bufEnd - ctx.prefixStart) KB64 ∧
      (hcInit ctx src).prefixStart =
        ctx.bufEnd - min (ctx.bufEnd - ctx.prefixStart) KB64) := by
  unfold hcInit
  by_cases h0 : ctx.prefixStart = 0
  · have h1 : KB * KB * KB = 1073741824 := rfl
    have h2 : 2 * KB * KB * KB = 2147483648 := rfl
    have h64 : KB64 = 65536 := rfl
    have hsmall : ¬ 2 * KB * KB * KB < (LZ4HC_init_internal ctx src).bufEnd -
        (LZ4HC_init_internal ctx src).prefixStart + (LZ4HC_init_internal ctx src).dictLimit := by
      simp only [LZ4HC_init_internal]
      split_ifs <;> omega
    refine Or.inl ⟨h0, ?_⟩
    simp only [if_pos h0, if_neg hsmall]
    exact ⟨rfl, rfl, Nat.sub_self _⟩
  · simp only [if_neg h0]
    refine Or.inr ?_
    split_ifs with hover
    · refine Or.inr ⟨h0, ?_⟩
      have hle : ¬ KB64 < min (ctx.bufEnd - ctx.prefixStart) KB64 :=
        Nat.not_lt.2 (Nat.min_le_right _ _)
      simp only [LZ4_loadDictHC, if_neg hle]
      exact ⟨Nat.sub_self _, trivial, rfl⟩
    · exact Or.inl ⟨h0, rfl⟩

/-- The external dictionary loses what the source overlaps. -/
theorem hcTrimOverlap_spec (ctx : LZ4_streamHC_t) (src n : Nat) :
    (hcTrimOverlap ctx src n).prefixStart = ctx.prefixStart ∧
    (hcTrimOverlap ctx src n).bufEnd = ctx.bufEnd ∧
    ((hcTrimOverlap ctx src n).extSize = 0 ∨
      ((hcTrimOverlap ctx src n).dictStart + (hcTrimOverlap ctx src n).extSize =
          ctx.dictStart + ctx.extSize ∧
        (hcTrimOverlap ctx src n).extSize ≤ ctx.extSize ∧
        (src + n ≤ (hcTrimOverlap ctx src n).dictStart ∨ ctx.dictStart + ctx.extSize ≤ src) ∧
        ((hcTrimOverlap ctx src n).extSize = ctx.extSize ∨
          4 ≤ (hcTrimOverlap ctx src n).extSize))) := by
  generalize hr : hcTrimOverlap ctx src n = r
  simp only [hcTrimOverlap] at hr
  split_ifs at hr with hover hsmall
  · subst hr
    exact ⟨rfl, rfl, Or.inl (Nat.sub_self _)⟩
  · subst hr
    refine ⟨rfl, rfl, Or.inr ?_⟩
    simp only [LZ4_streamHC_t.extSize] at hover hsmall ⊢
    omega
  · subst hr
    exact ⟨rfl, rfl, Or.inr ⟨rfl, Nat.le_refl _, by omega, Or.inl rfl⟩⟩

/-- A block that does not follow the last one finds the last segment as external dictionary. -/
theorem setExternalDict_spec (ctx : LZ4_streamHC_t) (src : Nat) :
    (LZ4HC_setExternalDict ctx src).prefixStart = src ∧
    (LZ4HC_setExternalDict ctx src).bufEnd = src ∧
    (LZ4HC_setExternalDict ctx src).dictStart = ctx.prefixStart ∧
    (LZ4HC_setExternalDict ctx src).extSize = ctx.bufEnd - ctx.prefixStart :=
  ⟨rfl, rfl, rfl, Nat.add_sub_cancel_left _ _⟩

theorem hcHistory_of_prefix_nil {mem : Memory} {ctx : LZ4_streamHC_t}
    (h : ctx.bufEnd = ctx.prefixStart) :
    hcHistory mem ctx = load mem ctx.dictStart ctx.extSize := by
  have hzero : load mem ctx.prefixStart 0 = [] := rfl
  rw [hcHistory, h, Nat.sub_self, hzero, List.append_nil]

theorem hcHistory_of_ext_nil {mem : Memory} {ctx : LZ4_streamHC_t} (h : ctx.extSize = 0) :
    hcHistory mem ctx = load mem ctx.prefixStart (ctx.bufEnd - ctx.prefixStart) := by
  have hzero : load mem ctx.dictStart 0 = [] := rfl
  rw [hcHistory, h, hzero, List.nil_append]

section HCSide

variable {L B : Nat} {cp dp : Placement L B} {index prev2 prev1 : Nat} {cm dm : Memory}
  {st : LZ4_streamDecode_t}

/-- The compressor's external dictionary, as the decoder holds it while it rolls page 0 on into
page 1: the dictionary, or the chunk on page 1 before. -/
structure ExtSegment (cp dp : Placement L B) (prev2 : Nat) (cm dm : Memory)
    (ctx : LZ4_streamHC_t) (st : LZ4_streamDecode_t) : Prop where
  size_le : ctx.extSize ≤ st.extDictSize
  mirrored : Mirrored cm (ctx.dictStart + ctx.extSize) dm (st.externalDict + st.extDictSize)
    ctx.extSize
  place : (ctx.dictStart + ctx.extSize = cp.dict + L ∧
      st.externalDict + st.extDictSize = dp.dict + L ∧ ctx.extSize ≤ L) ∨
    (ctx.dictStart + ctx.extSize = cp.buf + B + prev2 ∧
      st.externalDict + st.extDictSize = dp.buf + B + prev2 ∧ ctx.extSize ≤ prev2 ∧
      (ctx.extSize = prev2 ∨ 4 ≤ ctx.extSize))

structure HCSynced (cp dp : Placement L B) (index prev2 prev1 : Nat) (cm dm : Memory)
    (ctx : LZ4_streamHC_t) (st : LZ4_streamDecode_t) : Prop where
  placed : DecoderPlaced dp st
  start_le : ctx.prefixStart ≤ ctx.bufEnd
  page0 : index = 0 → ctx.prefixStart = 0 ∨ ctx.bufEnd ≠ cp.buf
  page1 : index ≠ 0 → ctx.prefixStart = cp.buf ∧ ctx.bufEnd = cp.buf + prev1
  segment : ctx.bufEnd = ctx.prefixStart ∨
    Segment cp dp index prev2 prev1 cm dm ctx.bufEnd (ctx.bufEnd - ctx.prefixStart) st
  full : index ≠ 0 → prev1 = B →
    st.prefixSize = B ∧ (ctx.extSize = 0 ∨ ExtSegment cp dp prev2 cm dm ctx st)

/-- What a chunk must do for the two sides: its block can be decoded, and they stay together. `found`
is what the decoder finds while it decodes. -/
def HCStepWithin (cp dp : Placement L B) (index prev1 : Nat) (st : LZ4_streamDecode_t)
    (chunk : List UInt8) (r : LZ4_streamHC_t) (cm' dm' found : Memory) : Prop :=
  (chunk = [] ∨ AgreeBack (KB64 - 1) (hcHistory cm' r)
    (decodeHistory found st (dp.buf + index * B))) ∧
  HCSynced cp dp ((index + 1) % 2) prev1 chunk.length cm' dm'
    { r with bufEnd := r.bufEnd + chunk.length } (advance st (dp.buf + index * B) chunk.length)

/-- A chunk on page 0 is decoded behind whatever the decoder had, and becomes all of its prefix. -/
theorem advance_page0 (hst : DecoderPlaced dp st) {n : Nat} (hn : 0 < n) :
    (advance st (dp.buf + 0 * B) n).prefixSize = n := by
  have hn0 : n ≠ 0 := by omega
  unfold advance
  split_ifs with h1 h2
  · rfl
  · have hne := hst.ne_page h1
    omega
  · rfl

/-- The record with the chunk as the new prefix, on either page. -/
theorem HCSynced.fresh (hB : 0 < B) (hindex : index ≤ 1) (hst : DecoderPlaced dp st)
    {chunk : List UInt8} {r : LZ4_streamHC_t} (hstart : r.prefixStart = cp.buf + index * B)
    (hend : r.bufEnd = cp.buf + index * B) {cm' dm' : Memory} {M : Nat}
    (hcm : Written cm cm' (cp.buf + index * B) M chunk)
    (hdm : Written dm dm' (dp.buf + index * B) M chunk)
    (hext : index = 0 → chunk.length = B → r.extSize = 0 ∨
      ExtSegment cp dp prev1 cm' dm' r (advance st (dp.buf + index * B) chunk.length)) :
    HCSynced cp dp ((index + 1) % 2) prev1 chunk.length cm' dm'
      { r with bufEnd := r.bufEnd + chunk.length }
      (advance st (dp.buf + index * B) chunk.length) where
  placed := hst.advance index chunk.length
  start_le := by
    simp only
    omega
  page0 h0 := by
    obtain rfl : index = 1 := by omega
    simp only
    omega
  page1 h1 := by
    obtain rfl : index = 0 := by omega
    simp only
    omega
  segment := by
    simp only [hstart, hend]
    rcases Nat.eq_zero_or_pos chunk.length with h0 | hpos
    · exact Or.inl (by rw [h0, Nat.add_zero])
    · rw [Nat.add_sub_cancel_left]
      exact Or.inr (Segment.fresh hindex hpos hcm hdm st)
  full h1 hn := by
    obtain rfl : index = 0 := by omega
    refine ⟨(advance_page0 hst (by omega)).trans hn, ?_⟩
    exact (hext rfl hn).imp id fun h => ⟨h.size_le, h.mirrored, h.place⟩

/-- On page 0 the trimmed external dictionary of `x` bytes from `d` on leaves the first `M` bytes of
page 0, or what it keeps of them is out of reach, unless the chunk is a conflict. -/
theorem trim_clears {buf prev2 prev1 n M p e e' s x d : Nat} (hpos : 0 < n) (hnM : n ≤ M)
    (hM : M ≤ B) (hok : ¬ conflictWithin true B M 0 prev2 prev1 n) (he : e = buf + (B + prev1))
    (hend : e' = e) (hback : s ≤ prev1 ∨ prev2 = B) (hshape : s = prev1 ∨ s = B + prev1 ∨ 4 ≤ s)
    (hsE : s ≤ B + prev1) (hle : e' - p ≤ s) (hsize : e' - p = s ∨ e' - p = KB64) (hx : 0 < x)
    (htrim : x = 0 ∨ (d + x = p + (e' - p) ∧ x ≤ e' - p ∧
      (buf + n ≤ d ∨ p + (e' - p) ≤ buf) ∧ (x = e' - p ∨ 4 ≤ x))) :
    x ≤ prev1 + (B - M) ∨ KB64 - 1 ≤ prev1 + (B - M) := by
  have h64 : KB64 = 65536 := rfl
  simp only [conflictWithin, if_true, Bool.true_eq_false, false_and, or_false] at hok
  rcases hback with hs | hp2
  · exact Or.inl (by omega)
  rcases htrim with hz | ⟨hsum, hxle, hover, hx4⟩
  · omega
  by_cases hfar : KB64 - 1 ≤ prev1 + (B - M)
  · exact Or.inr hfar
  have hn : ¬ (n < M ∧ n + 4 ≤ B + prev1) :=
    fun hh => hok ⟨hp2, hpos, hh.1, hh.2, Nat.lt_of_not_le hfar⟩
  refine Or.inl ?_
  rcases hover with hov | hov
  · rcases Nat.lt_or_ge n M with hlt | hge
    · -- fewer than four bytes are left: the whole segment was that short
      have hx3 : x ≤ 3 := by omega
      have hxs : x = s := by omega
      omega
    · omega
  · omega

/-- The chunk does not follow the last one: the last segment becomes the external dictionary. -/
theorem HCSynced.step_of_switch {ctx : LZ4_streamHC_t}
    (h : HCSynced cp dp index prev2 prev1 cm dm ctx st) (hB : 0 < B) (hindex : index ≤ 1)
    (hprev : prev1 ≤ B) {chunk : List UInt8} {M : Nat} (hM : M ≤ B)
    (hok : ¬ conflictWithin true B M index prev2 prev1 chunk.length) {cm' dm' found : Memory}
    (hcm : Written cm cm' (cp.buf + index * B) M chunk)
    (hdm : Written dm dm' (dp.buf + index * B) M chunk)
    (hfound : SameOutside dm found (dp.buf + index * B) M)
    {q : LZ4_streamHC_t} (hend : q.bufEnd = ctx.bufEnd) (hstart : q.prefixStart ≤ q.bufEnd)
    (hle : q.bufEnd - q.prefixStart ≤ ctx.bufEnd - ctx.prefixStart)
    (hsize : q.bufEnd - q.prefixStart = ctx.bufEnd - ctx.prefixStart ∨
      q.bufEnd - q.prefixStart = KB64) :
    HCStepWithin cp dp index prev1 st chunk
      (hcTrimOverlap (LZ4HC_setExternalDict q (cp.buf + index * B)) (cp.buf + index * B)
        chunk.length) cm' dm' found := by
  have h64 : KB64 = 65536 := rfl
  have hchunk := hcm.length_le
  have hst := h.placed
  obtain ⟨hset1, hset2, hset3, hset4⟩ := setExternalDict_spec q (cp.buf + index * B)
  obtain ⟨ht1, ht2, htrim⟩ :=
    hcTrimOverlap_spec (LZ4HC_setExternalDict q (cp.buf + index * B)) (cp.buf + index * B)
      chunk.length
  rw [hset1] at ht1
  rw [hset2] at ht2
  rw [hset3, hset4] at htrim
  generalize hcTrimOverlap (LZ4HC_setExternalDict q (cp.buf + index * B)) (cp.buf + index * B)
    chunk.length = r at ht1 ht2 htrim ⊢
  -- what is left of the last segment, when something is
  have hlast : r.extSize = 0 ∨ (0 < r.extSize ∧ Segment cp dp index prev2 prev1 cm dm ctx.bufEnd
      (ctx.bufEnd - ctx.prefixStart) st) := by
    rcases Nat.eq_zero_or_pos r.extSize with hz | hpos
    · exact Or.inl hz
    · rcases h.segment with hnone | hseg
      · omega
      · exact Or.inr ⟨hpos, hseg⟩
  refine ⟨?_, HCSynced.fresh hB hindex hst ht1 ht2 hcm hdm ?_⟩
  · rcases Nat.eq_zero_or_pos chunk.length with h0 | hpos
    · exact Or.inl (List.eq_nil_of_length_eq_zero h0)
    refine Or.inr ?_
    rw [hcHistory_of_prefix_nil (ht2.trans ht1.symm)]
    rcases hlast with hz | ⟨hxpos, hseg⟩
    · rw [hz]
      exact .nil _ _
    · have hdict : r.dictStart = ctx.bufEnd - r.extSize := by omega
      rw [hdict]
      refine hseg.agree hst hindex hprev hM hcm.outside hfound (by omega) hxpos ?_
      intro h0 hc
      subst h0
      cases hseg.place with
      | dictionary _ hcd hdd hsL =>
        have hca := cp.apart
        omega
      | buffer _ hde hsE _ hpage0 =>
        obtain ⟨hback, hshape⟩ := hpage0 rfl
        simp only [pageEnd, if_true] at hsE
        rw [Nat.zero_mul, Nat.add_zero] at htrim
        exact trim_clears hpos hchunk hM hok hc hend hback hshape hsE hle hsize hxpos htrim
  · intro h0 hfull
    subst h0
    rcases hlast with hz | ⟨hxpos, hseg⟩
    · exact Or.inl hz
    · refine Or.inr ?_
      have hsz := hseg.size_le
      have hpre := hst.size_le
      have hadv : advance st (dp.buf + 0 * B) chunk.length =
          { prefixSize := chunk.length, prefixEnd := dp.buf + 0 * B + chunk.length,
            extDictSize := st.prefixSize, externalDict := st.prefixEnd - st.prefixSize } := by
        have hne := hst.ne_page (by omega)
        rw [advance, if_neg (by omega), if_neg (by omega), if_neg (by omega)]
      have hdictEnd : r.dictStart + r.extSize = ctx.bufEnd := by omega
      rw [hadv]
      refine ⟨by simp only; omega, ?_, ?_⟩
      · intro i hi0 hi
        rw [hdictEnd, Nat.sub_add_cancel hpre]
        have hm := hseg.mirrored i hi0 (by omega)
        cases hseg.place with
        | dictionary _ hcd hdd hsL =>
          have hca := cp.apart
          have hda := dp.apart
          rw [hcm.outside _ (by omega), hdm.outside _ (by omega), hm]
        | buffer hce hde hsE _ hpage0 =>
          simp only [pageEnd, if_true] at hce hde hsE
          rw [hcm.outside _ (by omega), hdm.outside _ (by omega), hm]
      · simp only [hdictEnd, Nat.sub_add_cancel hpre]
        cases hseg.place with
        | dictionary _ hcd hdd hsL => exact Or.inl ⟨hcd, hdd, by omega⟩
        | buffer hce hde hsE _ hpage0 =>
          obtain ⟨-, hshape⟩ := hpage0 rfl
          simp only [pageEnd, if_true] at hce hde hsE
          exact Or.inr ⟨by omega, by omega, by omega, by omega⟩

/-- A history that is long enough hides what lies in front of it. -/
theorem agree_append_of_le {k : Nat} (g g' h : List UInt8) (hk : k ≤ h.length) :
    AgreeBack k (g ++ h) (g' ++ h) :=
  .of_window_eq (by rw [window_append_of_le g h hk, window_append_of_le g' h hk]) (Nat.le_refl k)

/-- The chunk follows a full page 0, whose segment stays the prefix. -/
theorem HCSynced.step_of_roll {ctx : LZ4_streamHC_t}
    (h : HCSynced cp dp 1 prev2 B cm dm ctx st) (hB : 0 < B) {chunk : List UInt8} {M : Nat}
    (hM : M ≤ B) (hok : ¬ conflictWithin true B M 1 prev2 B chunk.length)
    {cm' dm' found : Memory} (hcm : Written cm cm' (cp.buf + 1 * B) M chunk)
    (hdm : Written dm dm' (dp.buf + 1 * B) M chunk)
    (hfound : SameOutside dm found (dp.buf + 1 * B) M)
    {q : LZ4_streamHC_t} (hend : q.bufEnd = ctx.bufEnd)
    (hstart : q.prefixStart ≤ q.bufEnd)
    (hq : q = ctx ∨ (q.extSize = 0 ∧ q.bufEnd - q.prefixStart =
      min (ctx.bufEnd - ctx.prefixStart) KB64)) :
    HCStepWithin cp dp 1 B st chunk (hcTrimOverlap q (cp.buf + 1 * B) chunk.length)
      cm' dm' found := by
  have h64 : KB64 = 65536 := rfl
  have hchunk := hcm.length_le
  have hst := h.placed
  obtain ⟨hstart1, hend1⟩ := h.page1 Nat.one_ne_zero
  obtain ⟨hpsize, hext⟩ := h.full Nat.one_ne_zero rfl
  have hseg : Segment cp dp 1 prev2 B cm dm ctx.bufEnd B st := by
    have hs : ctx.bufEnd - ctx.prefixStart = B := by omega
    rcases h.segment with hbad | hseg
    · omega
    · rwa [hs] at hseg
  have hdest : st.prefixEnd = dp.buf + 1 * B := by
    cases hseg.place with
    | dictionary hfirst => exact absurd hfirst Nat.one_ne_zero
    | buffer _ hde =>
      simp only [pageEnd, Nat.one_ne_zero, if_false] at hde
      omega
  obtain ⟨ht1, ht2, htrim⟩ := hcTrimOverlap_spec q (cp.buf + 1 * B) chunk.length
  generalize hcTrimOverlap q (cp.buf + 1 * B) chunk.length = r at ht1 ht2 htrim ⊢
  have hprefix : r.bufEnd - r.prefixStart = B ∨ (4 ≤ r.bufEnd - r.prefixStart ∧
      r.bufEnd - r.prefixStart ≤ B ∧ r.extSize = 0) := by
    rcases hq with rfl | ⟨hq0, hqs⟩
    · omega
    · omega
  have hpos : 0 < r.bufEnd - r.prefixStart := by omega
  refine ⟨?_, ?_⟩
  · rcases Nat.eq_zero_or_pos chunk.length with h0 | hcpos
    · exact Or.inl (List.eq_nil_of_length_eq_zero h0)
    refine Or.inr ?_
    have hwhole : ∀ s', s' ≤ B → 0 < s' → AgreeBack (KB64 - 1)
        (load cm' (ctx.bufEnd - s') s') (decodeHistory found st (dp.buf + 1 * B)) :=
      fun s' hs' hs0 => hseg.agree hst (Nat.le_refl 1) (Nat.le_refl B) hM hcm.outside hfound hs' hs0
        (fun h0 => absurd h0 Nat.one_ne_zero)
    have hpre : r.prefixStart = ctx.bufEnd - (r.bufEnd - r.prefixStart) := by omega
    rcases Nat.eq_zero_or_pos r.extSize with hz | hxpos
    · rw [hcHistory_of_ext_nil hz]
      have hw := hwhole (r.bufEnd - r.prefixStart) (by omega) hpos
      rwa [← hpre] at hw
    · -- the prefix is all of page 0, and so is the decoder's
      have hrB : r.bufEnd - r.prefixStart = B := by omega
      have hqctx : q = ctx := by
        rcases hq with hq | ⟨hq0, -⟩
        · exact hq
        · omega
      subst hqctx
      have hexts : ExtSegment cp dp prev2 cm dm q st := by
        rcases hext with hbad | hexts
        · omega
        · exact hexts
      have hload : load cm' r.prefixStart B = load found (dp.buf + 1 * B - B) B := by
        simp only [load, List.map_inj_left, List.mem_range]
        intro i hi
        have hm := hseg.mirrored (B - i) (by omega) (by omega)
        rw [hcm.outside _ (by omega), hfound _ (by omega)]
        have e1 : r.prefixStart + i = q.bufEnd - (B - i) := by omega
        have e2 : dp.buf + 1 * B - B + i = st.prefixEnd - (B - i) := by omega
        rw [e1, e2, hm]
      rw [hcHistory, hrB, hload, decodeHistory, if_neg (by omega), if_pos hdest, hpsize]
      by_cases hlong : KB64 - 1 ≤ B
      · exact agree_append_of_le _ _ _ (by simpa using hlong)
      · rw [if_neg hlong]
        refine AgreeBack.append_reach _ ?_
        rw [length_load]
        have hdict : r.dictStart = q.dictStart + q.extSize - r.extSize := by omega
        have hxle : r.extSize ≤ q.extSize := by omega
        have hxsize := hexts.size_le
        rw [hdict]
        have hext' : AgreeBack (KB64 - 1 - B)
            (load cm' (q.dictStart + q.extSize - r.extSize) r.extSize)
            (load found (st.externalDict + st.extDictSize - st.extDictSize) st.extDictSize) :=
          agree_load (by omega) (by omega) (by omega) (by
            intro i hi0 hi hk
            rcases hexts.place with ⟨hcd, hdd, hL⟩ | ⟨hce, hde, hle2, hshape⟩
            · have hca := cp.apart
              have hda := dp.apart
              rw [hcm.outside _ (by omega), hfound _ (by omega)]
              exact hexts.mirrored i hi0 (by omega)
            · -- what is left of page 1 lies behind what was written, or out of reach
              simp only [conflictWithin, Nat.one_ne_zero, if_false, true_and] at hok
              rw [hcm.outside _ (by omega), hfound _ (by omega)]
              exact hexts.mirrored i hi0 (by omega))
        rwa [Nat.add_sub_cancel] at hext'
  · have hcm1 := hcm
    have hdm1 := hdm
    rw [Nat.one_mul] at hcm1 hdm1
    have hrolled := hseg.rolled hB hst (r.bufEnd - r.prefixStart) (by omega) hpos hM hcm1 hdm1
    rw [Nat.one_mul]
    refine
      { placed := by
          have hadv := hst.advance 1 chunk.length
          rwa [Nat.one_mul] at hadv
        start_le := by simp only; omega
        page0 := fun _ => Or.inr (by simp only; omega)
        page1 := fun h1 => absurd rfl h1
        segment := Or.inr ?_
        full := fun h1 => absurd rfl h1 }
    have hsum : r.bufEnd + chunk.length - r.prefixStart =
        r.bufEnd - r.prefixStart + chunk.length := by omega
    have hcEnd : r.bufEnd = ctx.bufEnd := ht2.trans hend
    rw [← hsum, ← hcEnd] at hrolled
    exact hrolled

/-- A stream whose end is the page the next chunk goes to has filled page 0. -/
theorem HCSynced.page_of_end {ctx : LZ4_streamHC_t}
    (h : HCSynced cp dp index prev2 prev1 cm dm ctx st) (hindex : index ≤ 1)
    (hnew : ctx.prefixStart ≠ 0) (hend : cp.buf + index * B = ctx.bufEnd) :
    index = 1 ∧ prev1 = B := by
  rcases Nat.lt_or_ge 0 index with h1 | h1
  · obtain rfl : index = 1 := by omega
    have hp1 := h.page1 Nat.one_ne_zero
    omega
  · obtain rfl : index = 0 := by omega
    have hp0 := h.page0 rfl
    omega

/-- One chunk, on memories that may change in the first `M` bytes of the page. -/
theorem HCSynced.step_within {ctx : LZ4_streamHC_t}
    (h : HCSynced cp dp index prev2 prev1 cm dm ctx st) (hB : 0 < B) (hindex : index ≤ 1)
    (hprev : prev1 ≤ B) {chunk : List UInt8} {M : Nat} (hM : M ≤ B)
    (hok : ¬ conflictWithin true B M index prev2 prev1 chunk.length) {cm' dm' found : Memory}
    (hcm : Written cm cm' (cp.buf + index * B) M chunk)
    (hdm : Written dm dm' (dp.buf + index * B) M chunk)
    (hfound : SameOutside dm found (dp.buf + index * B) M) :
    HCStepWithin cp dp index prev1 st chunk (hcWindow ctx (cp.buf + index * B) chunk.length)
      cm' dm' found := by
  have hstart := h.start_le
  have hnull := cp.buf_ne_null
  have hinit := hcInit_cases ctx (cp.buf + index * B)
  simp only [hcWindow]
  generalize hcInit ctx (cp.buf + index * B) = q at hinit ⊢
  rcases hinit with ⟨h0, hq1, hq2, hq3⟩ | ⟨h0, rfl⟩ | ⟨h0, hq1, hq2, hq3⟩
  · -- the first chunk, without a dictionary
    rw [if_neg (fun hne => hne hq2.symm)]
    obtain ⟨ht1, ht2, htrim⟩ := hcTrimOverlap_spec q (cp.buf + index * B) chunk.length
    generalize hcTrimOverlap q (cp.buf + index * B) chunk.length = r at ht1 ht2 htrim ⊢
    have hz : r.extSize = 0 := by omega
    refine ⟨Or.inr ?_, HCSynced.fresh hB hindex h.placed (ht1.trans hq1) (ht2.trans hq2) hcm hdm
      (fun _ _ => Or.inl hz)⟩
    have hsame : r.bufEnd = r.prefixStart := by omega
    rw [hcHistory_of_prefix_nil hsame, hz]
    exact .nil _ _
  · by_cases hroll : cp.buf + index * B = q.bufEnd
    · rw [if_neg (not_not.2 hroll)]
      obtain ⟨rfl, rfl⟩ := h.page_of_end hindex h0 hroll
      exact h.step_of_roll hB hM hok hcm hdm hfound rfl hstart (Or.inl rfl)
    · rw [if_pos hroll]
      exact h.step_of_switch hB hindex hprev hM hok hcm hdm hfound rfl hstart (Nat.le_refl _)
        (Or.inl rfl)
  · have hend : q.bufEnd = ctx.bufEnd := by omega
    by_cases hroll : cp.buf + index * B = q.bufEnd
    · rw [if_neg (not_not.2 hroll)]
      obtain ⟨rfl, rfl⟩ := h.page_of_end hindex h0 (hroll.trans hend)
      exact h.step_of_roll hB hM hok hcm hdm hfound hend (by omega) (Or.inr ⟨hq1, by omega⟩)
    · rw [if_pos hroll]
      exact h.step_of_switch hB hindex hprev hM hok hcm hdm hfound hend (by omega) (by omega)
        (by omega)

end HCSide

end PythonLz4.Stream.Compressors
