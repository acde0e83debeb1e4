import PythonLz4.Stream.Context

/-!
# What the decoder of a stream finds

`LZ4_decompress_safe_continue` decodes a block whenever its history agrees, as far as a match can
reach, with the window the block was made with (`decompress_safe_continue_ok`). `Segment` relates
the compressor's most recent segment to the decoder's, at the places the two double buffers put
them; `Segment.agree` says when a block that refers to it can be decoded, `Segment.fresh` and
`Segment.rolled` how it goes on.
-/

set_option autoImplicit false

namespace PythonLz4.Stream.Mirror

open PythonLz4.Lib.HistoryWindow
open PythonLz4.Lib.ByteMemory
open PythonLz4.Block.DecompressGeneric
open PythonLz4.Stream.Continue
open PythonLz4.Stream.Context

/-! ## One call of the decoder -/

/-- The bytes a block decoded at `dest` can refer to, as the decoder finds them. -/
def decodeHistory (found : Memory) (st : LZ4_streamDecode_t) (dest : Nat) : List UInt8 :=
  if st.prefixSize = 0 then []
  else if st.prefixEnd = dest then
    (if KB64 - 1 ≤ st.prefixSize then [] else load found st.externalDict st.extDictSize) ++
      load found (dest - st.prefixSize) st.prefixSize
  else load found (st.prefixEnd - st.prefixSize) st.prefixSize

/-- The decoder's record after `n` bytes have been decoded at `dest`. -/
def advance (st : LZ4_streamDecode_t) (dest n : Nat) : LZ4_streamDecode_t :=
  if st.prefixSize = 0 then
    if n = 0 then st else { st with prefixSize := n, prefixEnd := dest + n }
  else if st.prefixEnd = dest then
    { st with prefixSize := st.prefixSize + n, prefixEnd := st.prefixEnd + n }
  else
    let st :=
      { st with
        extDictSize := st.prefixSize
        externalDict := st.prefixEnd - st.prefixSize }
    if n = 0 then st else { st with prefixSize := n, prefixEnd := dest + n }

theorem decompress_safe_continue_ok {fastLoop : Bool} (scratch : Scratch) (mem : Memory)
    (st : LZ4_streamDecode_t) (dest : Nat) {block w out : List UInt8} {cap : Nat}
    (hblock : LZ4_decompress_generic fastLoop (callOf false w cap) block = .ok out)
    (hagree : out = [] ∨
      AgreeBack (KB64 - 1) w (decodeHistory (clobber mem dest cap scratch.during) st dest)) :
    LZ4_decompress_safe_continue fastLoop scratch mem st block dest cap =
      (.ok (out, store (clobber mem dest cap scratch.after) dest out),
        advance st dest out.length) := by
  have hdec : ∀ P : DecodeCall, P.PrefixComplete → cap = P.outputSize →
      AgreeBack (KB64 - 1) (decodeHistory (clobber mem dest cap scratch.during) st dest)
        P.history → LZ4_decompress_generic fastLoop P block = .ok out := by
    intro P hP hcap hhist
    rcases hagree with rfl | hagree
    · exact decode_nil_of_decode_nil (callOf_prefixComplete _ _ _) hP (by simpa using hcap) hblock
    · exact decode_of_refined (callOf_prefixComplete _ _ _) hP
        (callOf_external_refinedBy hcap (hagree.trans hhist)) hblock
  unfold LZ4_decompress_safe_continue advance
  generalize clobber mem dest cap scratch.during = found at hdec ⊢
  by_cases hnone : st.prefixSize = 0
  · have h := hdec ⟨.noDict, [], [], cap⟩ (by rintro ⟨⟩) rfl (by
      rw [decodeHistory, if_pos hnone]
      exact .nil _ _)
    simp only [if_pos hnone, LZ4_decompress_safe, h]
    split_ifs <;> rfl
  · simp only [if_neg hnone]
    by_cases hroll : st.prefixEnd = dest
    · simp only [if_pos hroll]
      have hhist : decodeHistory found st dest = (if KB64 - 1 ≤ st.prefixSize then []
          else load found st.externalDict st.extDictSize) ++
            load found (dest - st.prefixSize) st.prefixSize := by
        rw [decodeHistory, if_neg hnone, if_pos hroll]
      by_cases hlong : KB64 - 1 ≤ st.prefixSize
      · have hcomplete := prefix64k_prefixComplete
          (h := load found (dest - st.prefixSize) st.prefixSize) (by simpa using hlong) cap
        have h := hdec _ hcomplete rfl (by
          rw [hhist, if_pos hlong, DecodeCall.history, List.nil_append, List.nil_append]
          exact .of_window_eq (window_window _ _).symm (Nat.sub_le _ _))
        simp only [if_pos hlong, LZ4_decompress_safe_withPrefix64k, h]
        split_ifs with hzero
        · simp [hzero]
        · rfl
      · rw [if_neg hlong] at hhist
        by_cases hext : st.extDictSize = 0
        · have h := hdec ⟨.noDict, load found (dest - st.prefixSize) st.prefixSize, [], cap⟩
            (by rintro ⟨⟩) rfl (by
              rw [hhist, hext, DecodeCall.history]
              exact .refl _ _)
          simp only [if_neg hlong, if_pos hext, LZ4_decompress_safe_withSmallPrefix, h]
          split_ifs with hzero
          · simp [hzero]
          · rfl
        · have h := hdec ⟨.usingExtDict, load found (dest - st.prefixSize) st.prefixSize,
            load found st.externalDict st.extDictSize, cap⟩ (by rintro ⟨⟩) rfl (by
              rw [hhist, DecodeCall.history]
              exact .refl _ _)
          simp only [if_neg hlong, if_neg hext, LZ4_decompress_safe_doubleDict, h]
          split_ifs with hzero
          · simp [hzero]
          · rfl
    · have h := hdec ⟨.usingExtDict, [], load found (st.prefixEnd - st.prefixSize)
        st.prefixSize, cap⟩ (by rintro ⟨⟩) rfl (by
          rw [decodeHistory, if_neg hnone, if_neg hroll, DecodeCall.history, List.append_nil]
          exact .refl _ _)
      simp only [if_neg hroll, LZ4_decompress_safe_forceExtDict, h]
      split_ifs <;> rfl

/-! ## Bytes that both sides hold -/

/-- The `s` bytes in front of `cEnd` on one side are those in front of `dEnd` on the other. -/
def Mirrored (cm : Memory) (cEnd : Nat) (dm : Memory) (dEnd s : Nat) : Prop :=
  ∀ i, 0 < i → i ≤ s → cm (cEnd - i) = dm (dEnd - i)

theorem getElem?_load_back (mem : Memory) (p : Nat) {n i : Nat} (h0 : 0 < i) (hi : i ≤ n) :
    (load mem p n)[n - i]? = some (mem (p + n - i)) := by
  rw [getElem?_load mem p (by omega)]
  congr 2
  omega

/-- What the encoder saw in front of `cEnd` the decoder sees in front of `dEnd`, as far as a match
can reach. -/
theorem agree_load {cm dm : Memory} {cEnd dEnd s m k : Nat} (hs : s ≤ cEnd) (hm : m ≤ dEnd)
    (hsm : min s k ≤ m)
    (hbytes : ∀ i, 0 < i → i ≤ s → i ≤ k → cm (cEnd - i) = dm (dEnd - i)) :
    AgreeBack k (load cm (cEnd - s) s) (load dm (dEnd - m) m) := by
  intro i h0 hk hi
  rw [length_load] at hi
  refine ⟨by rw [length_load]; omega, ?_⟩
  rw [length_load, length_load, getElem?_load_back cm _ h0 hi,
    getElem?_load_back dm _ h0 (by omega), Nat.sub_add_cancel hs, Nat.sub_add_cancel hm,
    hbytes i h0 hi hk]

/-- A chunk that has just been copied to one side and decoded on the other. -/
theorem mirrored_written {cm cm' dm dm' : Memory} {source dest n n' : Nat} {chunk : List UInt8}
    (hc : Written cm cm' source n chunk) (hd : Written dm dm' dest n' chunk) :
    Mirrored cm' (source + chunk.length) dm' (dest + chunk.length) chunk.length := by
  intro i h0 hi
  rw [hc.back h0 hi, hd.back h0 hi]

theorem mirrored_chunk (cm dm : Memory) (source dest : Nat) (chunk : List UInt8) :
    Mirrored (store cm source chunk) (source + chunk.length) (store dm dest chunk)
      (dest + chunk.length) chunk.length :=
  mirrored_written (written_store cm source (Nat.le_refl _)) (written_store dm dest (Nat.le_refl _))

section Sides

variable {L B : Nat} (cp dp : Placement L B)

/-- Where the last chunk ended, counted from the start of the double buffer; `index` is the page
that comes next. -/
def pageEnd (B index prev1 : Nat) : Nat := if index = 0 then B + prev1 else prev1

/-- The decoder's record never makes it roll into page 0. -/
structure DecoderPlaced (st : LZ4_streamDecode_t) : Prop where
  size_le : st.prefixSize ≤ st.prefixEnd
  ne_page : st.prefixSize ≠ 0 → st.prefixEnd ≠ dp.buf

/-- Where a recorded segment of `s > 0` bytes ends: with the dictionary, before any chunk, or with
the last chunk, `prev1` and `prev2` being the lengths of the last chunk and the one before it. On
page 1 it is that chunk alone, or it goes back into a full page 0. -/
inductive SegmentPlace (index prev2 prev1 cEnd dEnd s : Nat) : Prop where
  | dictionary (first : index = 0) (cEnd_eq : cEnd = cp.dict + L) (dEnd_eq : dEnd = dp.dict + L)
      (le : s ≤ L)
  | buffer (cEnd_eq : cEnd = cp.buf + pageEnd B index prev1)
      (dEnd_eq : dEnd = dp.buf + pageEnd B index prev1) (le : s ≤ pageEnd B index prev1)
      (page1 : index ≠ 0 → s = prev1)
      (page0 : index = 0 → (s ≤ prev1 ∨ prev2 = B) ∧ (s = prev1 ∨ s = B + prev1 ∨ 4 ≤ s))

/-- The compressor's most recent segment, as the decoder holds it in front of `prefixEnd`. -/
structure Segment (index prev2 prev1 : Nat) (cm dm : Memory) (cEnd s : Nat)
    (st : LZ4_streamDecode_t) : Prop where
  size_le : s ≤ st.prefixSize
  mirrored : Mirrored cm cEnd dm st.prefixEnd s
  place : SegmentPlace cp dp index prev2 prev1 cEnd st.prefixEnd s

variable {cp dp} {index prev2 prev1 : Nat} {cm dm : Memory} {cEnd s : Nat}
  {st : LZ4_streamDecode_t}

theorem Segment.le_cEnd (h : Segment cp dp index prev2 prev1 cm dm cEnd s st) : s ≤ cEnd := by
  cases h.place with
  | dictionary _ hc _ hle => omega
  | buffer hc _ hle => omega

/-- The decoder finds what the encoder saw, when the part of the segment in reach of a match lies
outside the `M` bytes of the page that may have changed on either side. -/
theorem Segment.agree (h : Segment cp dp index prev2 prev1 cm dm cEnd s st)
    (hst : DecoderPlaced dp st) (hindex : index ≤ 1) (hprev : prev1 ≤ B) {M : Nat} (hM : M ≤ B)
    {cm' dm' : Memory} (hcm : SameOutside cm cm' (cp.buf + index * B) M)
    (hdm : SameOutside dm dm' (dp.buf + index * B) M) {s' : Nat} (hs' : s' ≤ s) (hpos : 0 < s')
    (hclear : index = 0 → cEnd = cp.buf + (B + prev1) →
      s' ≤ prev1 + (B - M) ∨ KB64 - 1 ≤ prev1 + (B - M)) :
    AgreeBack (KB64 - 1) (load cm' (cEnd - s') s')
      (decodeHistory dm' st (dp.buf + index * B)) := by
  have hsize := h.size_le
  have hle := hst.size_le
  have hcEnd := h.le_cEnd
  -- none of the addresses that may have changed is in reach
  have hfree : ∀ i, 0 < i → i ≤ s' → i ≤ KB64 - 1 →
      ¬ (cp.buf + index * B ≤ cEnd - i ∧ cEnd - i < cp.buf + index * B + M) ∧
      ¬ (dp.buf + index * B ≤ st.prefixEnd - i ∧ st.prefixEnd - i < dp.buf + index * B + M) := by
    intro i h0 hi hk
    cases h.place with
    | dictionary hfirst hc hd hsL =>
      subst hfirst
      have hca := cp.apart
      have hda := dp.apart
      omega
    | buffer hc hd hsE hpage1 hpage0 =>
      rcases Nat.lt_or_ge 0 index with h1 | h1
      · obtain rfl : index = 1 := by omega
        simp only [pageEnd, Nat.one_ne_zero, if_false] at hc hd hsE
        omega
      · obtain rfl : index = 0 := by omega
        simp only [pageEnd, if_true] at hc hd hsE
        have hcl := hclear rfl hc
        omega
  have hbytes : ∀ i, 0 < i → i ≤ s' → i ≤ KB64 - 1 → cm' (cEnd - i) = dm' (st.prefixEnd - i) := by
    intro i h0 hi hk
    obtain ⟨hc, hd⟩ := hfree i h0 hi hk
    rw [hcm _ hc, hdm _ hd]
    exact h.mirrored i h0 (by omega)
  have hload := agree_load (m := st.prefixSize) (by omega) hle (by omega) hbytes
  rw [decodeHistory, if_neg (by omega)]
  by_cases hroll : st.prefixEnd = dp.buf + index * B
  · have hstart : dp.buf + index * B - st.prefixSize = st.prefixEnd - st.prefixSize := by
      rw [hroll]
    rw [if_pos hroll, hstart]
    exact hload.trans (.append_left _ _ _)
  · rw [if_neg hroll]
    exact hload

/-! ## The record after a chunk -/

theorem DecoderPlaced.advance (hst : DecoderPlaced dp st) (index n : Nat) : DecoderPlaced dp (advance st (dp.buf + index * B) n) := by
  have hsize := hst.size_le
  have hne := hst.ne_page
  unfold Mirror.advance
  split_ifs with h1 h2 h3 h4
  · exact hst
  · exact ⟨by simp, fun _ => by simp; omega⟩
  · refine ⟨by simp; omega, fun _ => ?_⟩
    have := hne h1
    simp only
    omega
  · exact ⟨hsize, hne⟩
  · exact ⟨by simp, fun _ => by simp; omega⟩

/-- After a chunk of some bytes the decoder's record ends with it. -/
theorem advance_of_pos (st : LZ4_streamDecode_t) (dest : Nat) {n : Nat} (hn : 0 < n) :
    n ≤ (advance st dest n).prefixSize ∧ (advance st dest n).prefixEnd = dest + n := by
  have hn0 : n ≠ 0 := by omega
  unfold advance
  split_ifs with h1 h2
  · exact ⟨Nat.le_refl _, rfl⟩
  · exact ⟨Nat.le_add_left _ _, by rw [h2]⟩
  · exact ⟨Nat.le_refl _, rfl⟩

/-- The chunk itself is a segment afterwards. -/
theorem Segment.fresh (hindex : index ≤ 1) {chunk : List UInt8} (hpos : 0 < chunk.length)
    {cm cm' dm dm' : Memory} {M : Nat} (hcm : Written cm cm' (cp.buf + index * B) M chunk)
    (hdm : Written dm dm' (dp.buf + index * B) M chunk) (st : LZ4_streamDecode_t) :
    Segment cp dp ((index + 1) % 2) prev1 chunk.length cm' dm'
      (cp.buf + index * B + chunk.length) chunk.length
      (advance st (dp.buf + index * B) chunk.length) := by
  obtain ⟨hsize, hend⟩ := advance_of_pos st (dp.buf + index * B) hpos
  refine ⟨hsize, ?_, ?_⟩
  · rw [hend]
    exact mirrored_written hcm hdm
  · rw [hend]
    obtain rfl | rfl : index = 0 ∨ index = 1 := by omega
    · refine .buffer ?_ ?_ ?_ ?_ ?_ <;> simp [pageEnd]
    · refine .buffer ?_ ?_ ?_ ?_ ?_ <;> simp [pageEnd, Nat.add_assoc]

/-- A segment that fills page 0 goes on into page 1. -/
theorem Segment.rolled (h : Segment cp dp 1 prev2 B cm dm cEnd s st) (hpos : 0 < s)
    (hst : DecoderPlaced dp st) (s' : Nat) (hs' : s' = s ∨ (4 ≤ s' ∧ s' ≤ s)) (hs0 : 0 < s')
    {chunk : List UInt8} {cm' dm' : Memory} {M : Nat} (hM : M ≤ B)
    (hcm : Written cm cm' (cp.buf + B) M chunk) (hdm : Written dm dm' (dp.buf + B) M chunk) :
    Segment cp dp 0 B chunk.length cm' dm' (cEnd + chunk.length) (s' + chunk.length)
      (advance st (dp.buf + B) chunk.length) := by
  have hsize := h.size_le
  have hle := hst.size_le
  have hchunk := hcm.length_le
  cases h.place with
  | dictionary hfirst => exact absurd hfirst Nat.one_ne_zero
  | buffer hc hd hsE hpage1 hpage0 =>
    simp only [pageEnd, Nat.one_ne_zero, if_false] at hc hd hsE
    have hsB := hpage1 Nat.one_ne_zero
    have hadv : advance st (dp.buf + B) chunk.length =
        { st with
          prefixSize := st.prefixSize + chunk.length
          prefixEnd := st.prefixEnd + chunk.length } := by
      rw [advance, if_neg (by omega), if_pos hd]
    rw [hadv]
    refine ⟨by simp only; omega, ?_, .buffer ?_ ?_ ?_ ?_ ?_⟩
    · intro i h0 hi
      simp only
      rcases Nat.lt_or_ge chunk.length i with hlt | hge
      · rw [hcm.outside _ (by omega), hdm.outside _ (by omega)]
        have hm := h.mirrored (i - chunk.length) (by omega) (by omega)
        have e1 : cEnd + chunk.length - i = cEnd - (i - chunk.length) := by omega
        have e2 : st.prefixEnd + chunk.length - i = st.prefixEnd - (i - chunk.length) := by omega
        rw [e1, e2, hm]
      · have hm := mirrored_written hcm hdm i h0 hge
        rw [hc, hd]
        exact hm
    · simp only [pageEnd, if_true]
      omega
    · simp only [pageEnd, if_true]
      omega
    · simp only [pageEnd, if_true]
      omega
    · exact fun h0 => absurd rfl h0
    · intro _
      refine ⟨Or.inr rfl, ?_⟩
      omega

end Sides

end PythonLz4.Stream.Mirror
