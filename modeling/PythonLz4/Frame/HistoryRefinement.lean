import PythonLz4.Frame.AbstractDecoder

/-!
# The dictionary in memory

What `dict`, `dictSize` and `tmpOutBuffer` hold of the content of a frame with linked blocks, and
that every way `LZ4F_updateDict` and the end of a call move the dictionary around keeps it: the last
64 KB of the content are always at hand. `HistoryHeld` is the invariant between blocks, `FlushHeld`
the one while a block in `tmpOut` waits to be flushed.
-/

set_option autoImplicit false

namespace PythonLz4.Frame.HistoryRefinement

open PythonLz4.Lib.HistoryWindow
open PythonLz4.Lib.ByteMemory
open PythonLz4.Block.DecompressGeneric
open PythonLz4.Frame.Header
open PythonLz4.Frame.DecompressionContext
open PythonLz4.Frame.AbstractDecoder (Site History Body minBufferSize)

/-! ## Where the dictionary lies -/

/-- `dict` is where `site` says, with `dst` the output of the running call. -/
def SiteRefines (dctx : LZ4F_dctx) (dst : List UInt8) : Site → Prop
  | .nowhere => dctx.dict = .null ∧ dctx.dictSize = 0
  | .tmpOutBuffer => dctx.dict = .tmpOutBuffer
  | .dst => ∃ offset, dctx.dict = .dst offset ∧ offset + dctx.dictSize = dst.length
  | .elsewhere => ∃ bytes, dctx.dict = .elsewhere bytes ∧ bytes.length = dctx.dictSize

theorem siteRefines_tmp {dctx : LZ4F_dctx} {dst : List UInt8} {site : Site}
    (hs : site = .tmpOutBuffer) (hd : dctx.dict = .tmpOutBuffer) : SiteRefines dctx dst site := by
  subst hs
  exact hd

theorem siteRefines_dst {dctx : LZ4F_dctx} {dst : List UInt8} {site : Site} (hs : site = .dst)
    (hd : SiteRefines dctx dst .dst) : SiteRefines dctx dst site := by
  subst hs
  exact hd

/-- The numbers of `h` are those of the context. -/
structure PlaceRefines (dctx : LZ4F_dctx) (dst : List UInt8) (h : History) : Prop where
  site : SiteRefines dctx dst h.site
  dictSize_eq : dctx.dictSize = h.dictSize
  tmpOut_eq : dctx.tmpOut = h.tmpOut

theorem SiteRefines.length_dictBytes {dctx : LZ4F_dctx} {dst : List UInt8} {site : Site}
    (h : SiteRefines dctx dst site) : (dctx.dictBytes dst).length = dctx.dictSize := by
  cases site with
  | nowhere => simp [LZ4F_dctx.dictBytes, h.1, h.2]
  | tmpOutBuffer =>
    have hd : dctx.dict = .tmpOutBuffer := h
    simp [LZ4F_dctx.dictBytes, hd]
  | dst =>
    obtain ⟨offset, hd, hlen⟩ := h
    simp only [LZ4F_dctx.dictBytes, hd, List.length_take, List.length_drop]
    omega
  | elsewhere =>
    obtain ⟨bytes, hd, hlen⟩ := h
    simp only [LZ4F_dctx.dictBytes, hd, hlen]

theorem SiteRefines.dictBytes_dst {dctx : LZ4F_dctx} {dst : List UInt8} {offset : Nat}
    (hd : dctx.dict = .dst offset) (hlen : offset + dctx.dictSize = dst.length) :
    dctx.dictBytes dst = dst.drop offset := by
  simp only [LZ4F_dctx.dictBytes, hd]
  apply List.take_of_length_le
  rw [List.length_drop]
  omega

theorem SiteRefines.congr {d d' : LZ4F_dctx} {dst : List UInt8} {site : Site}
    (h : SiteRefines d dst site) (hdict : d'.dict = d.dict) (hsize : d'.dictSize = d.dictSize) :
    SiteRefines d' dst site := by
  cases site with
  | nowhere => exact ⟨hdict.trans h.1, hsize.trans h.2⟩
  | tmpOutBuffer => exact hdict.trans h
  | dst =>
    obtain ⟨offset, hd, hlen⟩ := h
    exact ⟨offset, hdict.trans hd, by rw [hsize, hlen]⟩
  | elsewhere =>
    obtain ⟨bytes, hd, hlen⟩ := h
    exact ⟨bytes, hdict.trans hd, by rw [hsize, hlen]⟩

theorem dictBytes_congr {d d' : LZ4F_dctx} (dst : List UInt8) (hdict : d'.dict = d.dict)
    (hsize : d'.dictSize = d.dictSize)
    (hmem : d.dict = .tmpOutBuffer → d'.tmpOutBuffer = d.tmpOutBuffer) :
    d'.dictBytes dst = d.dictBytes dst := by
  unfold LZ4F_dctx.dictBytes
  rw [hdict, hsize]
  cases hd : d.dict with
  | null => rfl
  | tmpOutBuffer => simp only [hmem hd]
  | dst offset => rfl
  | elsewhere bytes => rfl

theorem SiteRefines.dictEndsAt {dctx : LZ4F_dctx} {dst : List UInt8} {site : Site}
    (h : SiteRefines dctx dst site) : dctx.dictEndsAt dst = decide (site = .dst) := by
  cases site with
  | nowhere => simp [LZ4F_dctx.dictEndsAt, h.1]
  | tmpOutBuffer =>
    have hd : dctx.dict = .tmpOutBuffer := h
    simp [LZ4F_dctx.dictEndsAt, hd]
  | dst =>
    obtain ⟨offset, hd, hlen⟩ := h
    simp [LZ4F_dctx.dictEndsAt, hd, hlen]
  | elsewhere =>
    obtain ⟨bytes, hd, -⟩ := h
    simp [LZ4F_dctx.dictEndsAt, hd]

theorem SiteRefines.tmpOutBuffer_iff {dctx : LZ4F_dctx} {dst : List UInt8} {site : Site}
    (h : SiteRefines dctx dst site) : dctx.dict = .tmpOutBuffer ↔ site = .tmpOutBuffer := by
  cases site with
  | nowhere => simp [h.1]
  | tmpOutBuffer =>
    have hd : dctx.dict = .tmpOutBuffer := h
    simp [hd]
  | dst =>
    obtain ⟨offset, hd, -⟩ := h
    simp [hd]
  | elsewhere =>
    obtain ⟨bytes, hd, -⟩ := h
    simp [hd]

theorem SiteRefines.null_iff {dctx : LZ4F_dctx} {dst : List UInt8} {site : Site}
    (h : SiteRefines dctx dst site) : dctx.dict = .null ↔ site = .nowhere := by
  cases site with
  | nowhere => simp [h.1]
  | tmpOutBuffer =>
    have hd : dctx.dict = .tmpOutBuffer := h
    simp [hd]
  | dst =>
    obtain ⟨offset, hd, -⟩ := h
    simp [hd]
  | elsewhere =>
    obtain ⟨bytes, hd, -⟩ := h
    simp [hd]

theorem PlaceRefines.dictEndsAtTmpOut {dctx : LZ4F_dctx} {dst : List UInt8} {h : History}
    (hp : PlaceRefines dctx dst h) : dctx.dictEndsAtTmpOut = h.endsAtTmpOut := by
  simp only [LZ4F_dctx.dictEndsAtTmpOut, History.endsAtTmpOut, hp.site.tmpOutBuffer_iff,
    hp.dictSize_eq, hp.tmpOut_eq]

/-! ## Between blocks -/

/-- The dictionary holds the end of the content `full`, of which `dst` was written by the running
call. -/
structure HistoryHeld (dctx : LZ4F_dctx) (dst : List UInt8) (h : History) (full : List UInt8) :
    Prop where
  place : PlaceRefines dctx dst h
  written : dst <:+ full
  window_full : window KB64 full = h.bytes
  window_dict : window KB64 (dctx.dictBytes dst) = window KB64 full
  -- outside of `tmpOutBuffer` the dictionary is the content itself
  suffix : h.site ≠ .tmpOutBuffer → dctx.dictBytes dst <:+ full

theorem HistoryHeld.min_dictSize {dctx : LZ4F_dctx} {dst full : List UInt8} {h : History}
    (hh : HistoryHeld dctx dst h full) : min dctx.dictSize KB64 = min full.length KB64 := by
  have hmin := min_length_of_window_eq hh.window_dict
  rwa [hh.place.site.length_dictBytes] at hmin

/-- The first line of `LZ4F_updateDict`. -/
def startDict (dctx : LZ4F_dctx) (dst : List UInt8) : LZ4F_dctx :=
  if dctx.dictSize = 0 then { dctx with dict := .dst dst.length } else dctx

theorem startDict_of_ne {dctx : LZ4F_dctx} {dst : List UInt8} (h : dctx.dictSize ≠ 0) :
    startDict dctx dst = dctx := if_neg h

@[simp] theorem startDict_dictSize (dctx : LZ4F_dctx) (dst : List UInt8) :
    (startDict dctx dst).dictSize = dctx.dictSize := by
  unfold startDict
  split_ifs <;> rfl

@[simp] theorem startDict_tmpOutBuffer (dctx : LZ4F_dctx) (dst : List UInt8) :
    (startDict dctx dst).tmpOutBuffer = dctx.tmpOutBuffer := by
  unfold startDict
  split_ifs <;> rfl

@[simp] theorem startDict_tmpOut (dctx : LZ4F_dctx) (dst : List UInt8) :
    (startDict dctx dst).tmpOut = dctx.tmpOut := by
  unfold startDict
  split_ifs <;> rfl

@[simp] theorem startDict_tmpOutStart (dctx : LZ4F_dctx) (dst : List UInt8) :
    (startDict dctx dst).tmpOutStart = dctx.tmpOutStart := by
  unfold startDict
  split_ifs <;> rfl

@[simp] theorem startDict_tmpOutSize (dctx : LZ4F_dctx) (dst : List UInt8) :
    (startDict dctx dst).tmpOutSize = dctx.tmpOutSize := by
  unfold startDict
  split_ifs <;> rfl

@[simp] theorem startDict_maxBufferSize (dctx : LZ4F_dctx) (dst : List UInt8) :
    (startDict dctx dst).maxBufferSize = dctx.maxBufferSize := by
  unfold startDict
  split_ifs <;> rfl

@[simp] theorem startDict_copySize (dctx : LZ4F_dctx) (dst : List UInt8) :
    (startDict dctx dst).copySize = dctx.copySize := by
  unfold startDict
  split_ifs <;> rfl

theorem dictBytes_of_dictSize_eq_zero {dctx : LZ4F_dctx} {dst : List UInt8} {site : Site}
    (hs : SiteRefines dctx dst site) (h0 : dctx.dictSize = 0) : dctx.dictBytes dst = [] :=
  List.eq_nil_of_length_eq_zero (hs.length_dictBytes.trans h0)

theorem startDict_dictBytes {dctx : LZ4F_dctx} {dst : List UInt8} {site : Site}
    (hs : SiteRefines dctx dst site) : (startDict dctx dst).dictBytes dst = dctx.dictBytes dst := by
  unfold startDict
  split_ifs with h0
  · rw [dictBytes_of_dictSize_eq_zero hs h0]
    simp [LZ4F_dctx.dictBytes]
  · rfl

/-- An empty dictionary is moved to the destination. -/
theorem startDict_place {dctx : LZ4F_dctx} {dst : List UInt8} {h : History}
    (hp : PlaceRefines dctx dst h) :
    PlaceRefines (startDict dctx dst) dst { h with site := h.startSite } := by
  refine ⟨?_, by simpa using hp.dictSize_eq, by simpa using hp.tmpOut_eq⟩
  unfold startDict History.startSite
  rw [← hp.dictSize_eq]
  split_ifs with h0
  · exact ⟨dst.length, rfl, by simp [h0]⟩
  · exact hp.site

/-- `LZ4F_updateDict` behind its first line. -/
def continueDict (d : LZ4F_dctx) (dst piece : List UInt8) (withinTmp : Bool) : LZ4F_dctx :=
  let n := piece.length
  if d.dictEndsAt dst then { d with dictSize := d.dictSize + n }
  else if KB64 ≤ dst.length + n then { d with dict := .dst 0, dictSize := dst.length + n }
  else if withinTmp ∧ d.dict = .tmpOutBuffer then { d with dictSize := d.dictSize + n }
  else if withinTmp then
    { d with
      tmpOutBuffer := d.dictBeforeTmpOut dst
      dict := .tmpOutBuffer
      dictSize := d.tmpOut + d.tmpOutStart + n }
  else if d.dict = .tmpOutBuffer then
    let d :=
      if d.maxBufferSize < d.dictSize + n then
        { d with
          tmpOutBuffer := store d.tmpOutBuffer 0 (window (KB64 - n) (d.dictBytes dst))
          dictSize := KB64 - n }
      else d
    { d with tmpOutBuffer := store d.tmpOutBuffer d.dictSize piece, dictSize := d.dictSize + n }
  else
    let preserveSize := min (KB64 - n) d.dictSize
    { d with
      tmpOutBuffer :=
        store (store d.tmpOutBuffer 0 (window preserveSize (d.dictBytes dst))) preserveSize piece
      dict := .tmpOutBuffer
      dictSize := preserveSize + n }

theorem updateDict_eq (dctx : LZ4F_dctx) (dst piece : List UInt8) (withinTmp : Bool) :
    LZ4F_updateDict dctx dst piece withinTmp =
      continueDict (startDict dctx dst) dst piece withinTmp := rfl

/-- The parts of a context the dictionary does not use. -/
structure SameFrame (d d' : LZ4F_dctx) : Prop where
  frameInfo : d'.frameInfo = d.frameInfo
  dStage : d'.dStage = d.dStage
  frameRemainingSize : d'.frameRemainingSize = d.frameRemainingSize
  maxBlockSize : d'.maxBlockSize = d.maxBlockSize
  maxBufferSize : d'.maxBufferSize = d.maxBufferSize
  tmpIn : d'.tmpIn = d.tmpIn
  tmpInSize : d'.tmpInSize = d.tmpInSize
  tmpInTarget : d'.tmpInTarget = d.tmpInTarget
  tmpOutSize : d'.tmpOutSize = d.tmpOutSize
  tmpOutStart : d'.tmpOutStart = d.tmpOutStart
  xxh : d'.xxh = d.xxh
  blockChecksum : d'.blockChecksum = d.blockChecksum
  skipChecksum : d'.skipChecksum = d.skipChecksum
  header : d'.header = d.header

theorem SameFrame.refl (d : LZ4F_dctx) : SameFrame d d :=
  ⟨rfl, rfl, rfl, rfl, rfl, rfl, rfl, rfl, rfl, rfl, rfl, rfl, rfl, rfl⟩

theorem updateDict_sameFrame (dctx : LZ4F_dctx) (dst piece : List UInt8) (withinTmp : Bool) :
    SameFrame dctx (LZ4F_updateDict dctx dst piece withinTmp) := by
  unfold LZ4F_updateDict
  simp only
  split_ifs <;> exact ⟨rfl, rfl, rfl, rfl, rfl, rfl, rfl, rfl, rfl, rfl, rfl, rfl, rfl, rfl⟩

theorem startSite_cases {dctx : LZ4F_dctx} {dst : List UInt8} {h : History}
    (hp : PlaceRefines dctx dst h) :
    h.startSite = .dst ∨ h.startSite = .tmpOutBuffer ∨ h.startSite = .elsewhere := by
  unfold History.startSite
  split_ifs with h0
  · exact Or.inl rfl
  · have hs := hp.site
    cases hsite : h.site with
    | nowhere =>
      rw [hsite] at hs
      exact absurd (hp.dictSize_eq.symm.trans hs.2) h0
    | tmpOutBuffer => exact Or.inr (Or.inl rfl)
    | dst => exact Or.inl rfl
    | elsewhere => exact Or.inr (Or.inr rfl)

theorem HistoryHeld.suffix_start {dctx : LZ4F_dctx} {dst full : List UInt8} {h : History}
    (hh : HistoryHeld dctx dst h full) (hs : h.startSite ≠ .tmpOutBuffer) :
    dctx.dictBytes dst <:+ full := by
  by_cases h0 : h.dictSize = 0
  · rw [dictBytes_of_dictSize_eq_zero hh.place.site (hh.place.dictSize_eq.trans h0)]
    exact List.nil_suffix
  · rw [History.startSite, if_neg h0] at hs
    exact hh.suffix hs

theorem min_add_right {a b n k : Nat} (h : min a k = min b k) : min (a + n) k = min (b + n) k := by
  omega

/-- The dictionary where `LZ4F_updateDict` finds it behind its first line. -/
def History.started (h : History) : History := { h with site := h.startSite }

theorem HistoryHeld.start {dctx : LZ4F_dctx} {dst full : List UInt8} {h : History}
    (hh : HistoryHeld dctx dst h full) :
    HistoryHeld (startDict dctx dst) dst (History.started h) full where
  place := startDict_place hh.place
  written := hh.written
  window_full := hh.window_full
  window_dict := by
    rw [startDict_dictBytes hh.place.site]
    exact hh.window_dict
  suffix hs := by
    rw [startDict_dictBytes hh.place.site]
    exact hh.suffix_start hs

theorem append_suffix_append {dst full : List UInt8} (h : dst <:+ full) (piece : List UInt8) :
    dst ++ piece <:+ full ++ piece := by
  obtain ⟨g, rfl⟩ := h
  exact ⟨g, (List.append_assoc _ _ _).symm⟩

theorem suffix_of_eq {a b c : List UInt8} (h : a = b) (hb : b <:+ c) : a <:+ c := h ▸ hb

/-- A dictionary in the destination grows with it. -/
theorem dictBytes_append_dst {d : LZ4F_dctx} (d' : LZ4F_dctx) {dst piece : List UInt8}
    (hs : SiteRefines d dst .dst) (hdict : d'.dict = d.dict)
    (hsize : d'.dictSize = d.dictSize + piece.length) :
    SiteRefines d' (dst ++ piece) .dst ∧
      d'.dictBytes (dst ++ piece) = d.dictBytes dst ++ piece := by
  obtain ⟨offset, hd, hlen⟩ := hs
  have hlen' : offset + d'.dictSize = (dst ++ piece).length := by
    rw [List.length_append, hsize]
    omega
  refine ⟨⟨offset, hdict.trans hd, hlen'⟩, ?_⟩
  rw [SiteRefines.dictBytes_dst hd hlen, SiteRefines.dictBytes_dst (hdict.trans hd) hlen',
    List.drop_append_of_le_length (by omega)]

/-- The whole destination is the dictionary. -/
theorem dictBytes_all_dst (d' : LZ4F_dctx) {dst : List UInt8} (hd : d'.dict = .dst 0)
    (hlen : d'.dictSize = dst.length) :
    SiteRefines d' dst .dst ∧ d'.dictBytes dst = dst := by
  refine ⟨⟨0, hd, by omega⟩, ?_⟩
  rw [SiteRefines.dictBytes_dst hd (by omega), List.drop_zero]

theorem dictBytes_tmpOutBuffer {d : LZ4F_dctx} (dst : List UInt8) (hd : d.dict = .tmpOutBuffer) :
    d.dictBytes dst = load d.tmpOutBuffer 0 d.dictSize := by
  simp only [LZ4F_dctx.dictBytes, hd]

/-- A dictionary that was moved to the start of `tmpOutBuffer`. -/
theorem dictBytes_kept (d' : LZ4F_dctx) (mem : Memory) (kept dst : List UInt8)
    (hd : d'.dict = .tmpOutBuffer) (hmem : d'.tmpOutBuffer = store mem 0 kept)
    (hsize : d'.dictSize = kept.length) : d'.dictBytes dst = kept := by
  rw [dictBytes_tmpOutBuffer dst hd, hmem, hsize, load_store]

/-- Moving the end of the dictionary to the start of `tmpOutBuffer` keeps the history. -/
theorem HistoryHeld.window_kept {d d' : LZ4F_dctx} {dst full : List UInt8} {h : History}
    (hh : HistoryHeld d dst h full) (dst' : List UInt8) {k : Nat}
    (hk : min KB64 (d.dictBytes dst).length ≤ k) (hd : d'.dict = .tmpOutBuffer)
    (hmem : d'.tmpOutBuffer = store d.tmpOutBuffer 0 (window k (d.dictBytes dst)))
    (hsize : d'.dictSize = (window k (d.dictBytes dst)).length) :
    window KB64 (d'.dictBytes dst') = window KB64 full := by
  rw [dictBytes_kept d' _ _ dst' hd hmem hsize, window_window_min _ _ hk]
  exact hh.window_dict

/-- A dictionary of `kept` bytes in `tmpOutBuffer` is continued by `piece`. -/
theorem dictBytes_append_tmp (d' : LZ4F_dctx) (mem : Memory) (kept : List UInt8)
    {piece : List UInt8} (dst : List UInt8) (hd : d'.dict = .tmpOutBuffer) (hload : load mem 0 kept.length = kept)
    (hmem : d'.tmpOutBuffer = store mem kept.length piece)
    (hsize : d'.dictSize = kept.length + piece.length) : d'.dictBytes dst = kept ++ piece := by
  have hbase := load_store_append mem 0 kept.length piece
  rw [Nat.zero_add, hload] at hbase
  rw [dictBytes_tmpOutBuffer dst hd, hmem, hsize, hbase]

/-- What is kept of a dictionary that has to make room for `n` bytes, and these bytes. -/
theorem window_preserve_append {dict full piece : List UInt8} {preserveSize : Nat}
    (hn : piece.length ≤ KB64) (hw : window KB64 dict = window KB64 full)
    (hp : min (KB64 - piece.length) dict.length ≤ preserveSize) :
    window KB64 (window preserveSize dict ++ piece) = window KB64 (full ++ piece) := by
  rw [window_append_of_ge _ _ hn, window_append_of_ge _ _ hn, window_window_min _ _ hp,
    window_congr_of_le (Nat.sub_le _ _) hw]

/-- The numbers of the dictionary after `n` bytes, behind the first line of `LZ4F_updateDict`. -/
def History.continued (h : History) (bufferSize dstLen n : Nat) : History :=
  if h.site = .dst then { h with dictSize := h.dictSize + n }
  else if KB64 ≤ dstLen + n then { h with site := .dst, dictSize := dstLen + n }
  else if h.site = .tmpOutBuffer then
    { h with dictSize := if bufferSize < h.dictSize + n then KB64 else h.dictSize + n }
  else { h with site := .tmpOutBuffer, dictSize := min (KB64 - n) h.dictSize + n }

theorem follow_eq (h : History) (bufferSize dstLen n : Nat) :
    h.follow bufferSize dstLen n = History.continued (History.started h) bufferSize dstLen n := by
  unfold History.follow History.continued History.started
  by_cases hd : h.startSite = .dst
  · simp only [hd, if_true]
  · rw [if_neg hd, if_neg hd]
    by_cases hk : KB64 ≤ dstLen + n
    · rw [if_pos hk, if_pos hk]
    · rw [if_neg hk, if_neg hk]
      by_cases ht : h.startSite = .tmpOutBuffer
      · have hsite : h.site = .tmpOutBuffer := by
          unfold History.startSite at ht
          split_ifs at ht
          exact ht
        simp only [ht, if_true, ← hsite]
      · rw [if_neg ht, if_neg ht]

/-- The part of `LZ4F_updateDict` that copies: neither place holds the piece. -/
theorem HistoryHeld.copy {d : LZ4F_dctx} {dst full piece : List UInt8} {h : History}
    (hh : HistoryHeld d dst h full) (hbuf : minBufferSize ≤ d.maxBufferSize)
    (hdst : h.site ≠ .dst) (hshort : dst.length + piece.length < KB64) :
    HistoryHeld (continueDict d dst piece false) (dst ++ piece)
      (History.continued (h.extend piece) d.maxBufferSize dst.length piece.length)
      (full ++ piece) := by
  have hsize := hh.place.dictSize_eq
  have hlen := hh.place.site.length_dictBytes
  have hminBuf : minBufferSize = 196608 := rfl
  have hKB : KB64 = 65536 := rfl
  have hn : piece.length ≤ KB64 := by omega
  have hfull : window KB64 (full ++ piece) = (h.extend piece).bytes := by
    rw [History.extend, ← hh.window_full, window_window_append]
  have hends : d.dictEndsAt dst = false := by
    rw [hh.place.site.dictEndsAt]
    exact decide_eq_false hdst
  have hsite : (h.extend piece).site = h.site := rfl
  have hdictSize : (h.extend piece).dictSize = d.dictSize := hsize.symm
  unfold continueDict History.continued
  simp only [hends, Bool.false_eq_true, false_and, if_false, hsite, if_neg hdst,
    if_neg (Nat.not_le.2 hshort), hdictSize]
  by_cases htmp : h.site = .tmpOutBuffer
  · have hd : d.dict = .tmpOutBuffer := hh.place.site.tmpOutBuffer_iff.2 htmp
    rw [if_pos hd, if_pos htmp]
    by_cases hover : d.maxBufferSize < d.dictSize + piece.length
    · -- tmp buffer not large enough: the front of the dictionary goes
      rw [if_pos hover, if_pos hover]
      have hkept : (window (KB64 - piece.length) (d.dictBytes dst)).length =
          KB64 - piece.length := by
        rw [length_window, hlen]
        omega
      have hbytes := dictBytes_append_tmp { d with
          tmpOutBuffer := store (store d.tmpOutBuffer 0
            (window (KB64 - piece.length) (d.dictBytes dst))) (KB64 - piece.length) piece
          dictSize := KB64 - piece.length + piece.length } _ _ (dst ++ piece) hd
        (load_store d.tmpOutBuffer 0 _) (by rw [hkept]) (by rw [hkept])
      refine ⟨⟨siteRefines_tmp htmp hd, ?_, hh.place.tmpOut_eq⟩,
        append_suffix_append hh.written piece, hfull, ?_, fun hne => absurd htmp hne⟩
      · exact Nat.sub_add_cancel hn
      · rw [hbytes]
        exact window_preserve_append hn hh.window_dict (Nat.min_le_left _ _)
    · rw [if_neg hover, if_neg hover]
      have hbytes := dictBytes_append_tmp { d with
          tmpOutBuffer := store d.tmpOutBuffer d.dictSize piece
          dictSize := d.dictSize + piece.length } d.tmpOutBuffer (d.dictBytes dst) (dst ++ piece) hd
        (by rw [hlen, ← dictBytes_tmpOutBuffer dst hd]) (by rw [hlen]) (by rw [hlen])
      refine ⟨⟨siteRefines_tmp htmp hd, rfl, hh.place.tmpOut_eq⟩,
        append_suffix_append hh.written piece, hfull, ?_, fun hne => absurd htmp hne⟩
      rw [hbytes]
      exact window_append_congr hh.window_dict piece
  · -- join dict & dest into tmp
    have hd : d.dict ≠ .tmpOutBuffer := fun e => htmp (hh.place.site.tmpOutBuffer_iff.1 e)
    rw [if_neg hd, if_neg htmp]
    have hkept : (window (min (KB64 - piece.length) d.dictSize) (d.dictBytes dst)).length =
        min (KB64 - piece.length) d.dictSize := by
      rw [length_window, hlen]
      omega
    have hbytes := dictBytes_append_tmp { d with
        tmpOutBuffer := store (store d.tmpOutBuffer 0
          (window (min (KB64 - piece.length) d.dictSize) (d.dictBytes dst)))
          (min (KB64 - piece.length) d.dictSize) piece
        dict := .tmpOutBuffer
        dictSize := min (KB64 - piece.length) d.dictSize + piece.length } _ _ (dst ++ piece) rfl
      (load_store d.tmpOutBuffer 0 _) (by rw [hkept]) (by rw [hkept])
    refine ⟨⟨rfl, rfl, hh.place.tmpOut_eq⟩, append_suffix_append hh.written piece, hfull, ?_,
      fun hne => absurd rfl hne⟩
    rw [hbytes]
    refine window_preserve_append hn hh.window_dict ?_
    rw [hlen]

/-- The parts of `LZ4F_updateDict` that need not copy. -/
theorem HistoryHeld.grow {d : LZ4F_dctx} {dst full piece : List UInt8} {h : History}
    (hh : HistoryHeld d dst h full) (hbuf : minBufferSize ≤ d.maxBufferSize) :
    HistoryHeld (continueDict d dst piece false) (dst ++ piece)
      (History.continued (h.extend piece) d.maxBufferSize dst.length piece.length)
      (full ++ piece) := by
  have hsize := hh.place.dictSize_eq
  have hlen := hh.place.site.length_dictBytes
  have hfull : window KB64 (full ++ piece) = (h.extend piece).bytes := by
    rw [History.extend, ← hh.window_full, window_window_append]
  have hsite : (h.extend piece).site = h.site := rfl
  have hwritten := append_suffix_append hh.written piece
  by_cases hdst : h.site = .dst
  · -- prefix mode, everything within dstBuffer
    have hends : d.dictEndsAt dst = true := by
      rw [hh.place.site.dictEndsAt]
      exact decide_eq_true hdst
    unfold continueDict History.continued
    simp only [hends, if_true, hsite, if_pos hdst]
    have hsite' : SiteRefines d dst .dst := hdst ▸ hh.place.site
    obtain ⟨hs, hbytes⟩ := @dictBytes_append_dst d
      { d with dictSize := d.dictSize + piece.length } dst piece hsite' rfl rfl
    have hsuffix := append_suffix_append (hh.suffix (by rw [hdst]; decide)) piece
    refine ⟨⟨siteRefines_dst hdst hs, congrArg (· + piece.length) hsize, hh.place.tmpOut_eq⟩,
      hwritten, hfull, ?_, fun _ => ?_⟩
    · rw [hbytes]
      refine window_of_suffix hsuffix ?_
      rw [List.length_append, List.length_append, hlen]
      exact min_add_right hh.min_dictSize
    · rw [hbytes]
      exact hsuffix
  · rcases Nat.lt_or_ge (dst.length + piece.length) KB64 with hshort | hlong
    · exact hh.copy hbuf hdst hshort
    · -- history in dstBuffer becomes large enough to become dictionary
      have hends : d.dictEndsAt dst = false := by
        rw [hh.place.site.dictEndsAt]
        exact decide_eq_false hdst
      unfold continueDict History.continued
      simp only [hends, Bool.false_eq_true, if_false, hsite, if_neg hdst, if_pos hlong]
      obtain ⟨hs, hbytes⟩ := dictBytes_all_dst { d with
        dict := .dst 0, dictSize := dst.length + piece.length } rfl
        (@List.length_append _ dst piece).symm
      refine ⟨⟨hs, rfl, hh.place.tmpOut_eq⟩, hwritten, hfull, ?_, fun _ => ?_⟩
      · rw [hbytes]
        have hle := hwritten.length_le
        refine window_of_suffix hwritten ?_
        rw [List.length_append] at hle ⊢
        omega
      · rw [hbytes]
        exact hwritten

/-- `LZ4F_updateDict` behind decoded bytes of the destination. -/
theorem HistoryHeld.update {dctx : LZ4F_dctx} {dst full : List UInt8} {h : History}
    (hh : HistoryHeld dctx dst h full) (hbuf : minBufferSize ≤ dctx.maxBufferSize)
    (piece : List UInt8) :
    HistoryHeld (LZ4F_updateDict dctx dst piece false) (dst ++ piece)
      ((h.extend piece).follow dctx.maxBufferSize dst.length piece.length) (full ++ piece) := by
  have hbuf' : minBufferSize ≤ (startDict dctx dst).maxBufferSize := by simpa using hbuf
  have hgrow := @HistoryHeld.grow _ _ _ piece _ hh.start hbuf'
  rw [startDict_maxBufferSize] at hgrow
  rw [updateDict_eq, follow_eq]
  exact hgrow

/-! ## While a block waits in `tmpOut` -/

/-- `pending` is left to flush of a block in `tmpOut`, of which `start` bytes were flushed. -/
structure PendingHeld (dctx : LZ4F_dctx) (start : Nat) (pending : List UInt8) : Prop where
  start_eq : dctx.tmpOutStart = start
  size_eq : dctx.tmpOutSize = start + pending.length
  pending_eq : load dctx.tmpOutBuffer (dctx.tmpOut + start) pending.length = pending

/-- The dictionary while a block waits: `before` is the content in front of the block. -/
structure FlushHeld (dctx : LZ4F_dctx) (dst : List UInt8) (h : History) (before : List UInt8)
    (start : Nat) (pending : List UInt8) : Prop where
  place : PlaceRefines dctx dst h
  block : PendingHeld dctx start pending
  written : dst <:+ before ++ load dctx.tmpOutBuffer dctx.tmpOut start
  window_full :
    window KB64 (before ++ load dctx.tmpOutBuffer dctx.tmpOut dctx.tmpOutSize) = h.bytes
  tmpOut_room : min KB64 dctx.tmpOut = min KB64 before.length
  min_dictSize : min dctx.dictSize KB64 = min (before.length + start) KB64
  inside : h.site = .tmpOutBuffer → dctx.dictSize = dctx.tmpOut + start ∧
    window KB64 (load dctx.tmpOutBuffer 0 (dctx.tmpOut + dctx.tmpOutSize)) = h.bytes
  outside : h.site ≠ .tmpOutBuffer →
    dctx.dictBytes dst <:+ before ++ load dctx.tmpOutBuffer dctx.tmpOut start ∧
      dctx.copySize ≤ dctx.dictSize - start

theorem copySize_eq (d : LZ4F_dctx) : d.copySize = min (KB64 - d.tmpOutSize) d.tmpOut := by
  unfold LZ4F_dctx.copySize
  split_ifs with h
  · rw [Nat.sub_eq_zero_of_le (Nat.le_of_lt h)]
  · rfl

/-- What `dictBeforeTmpOut` copies lies in front of the block. -/
theorem load_dictBeforeTmpOut (d : LZ4F_dctx) (dst : List UInt8) (i n : Nat) :
    load (d.dictBeforeTmpOut dst) (d.tmpOut + i) n = load d.tmpOutBuffer (d.tmpOut + i) n := by
  apply load_store_after
  have hle := length_window_le d.copySize ((d.dictBytes dst).take (d.dictSize - d.tmpOutStart))
  have hcopy : d.copySize ≤ d.tmpOut := by
    rw [copySize_eq]
    exact Nat.min_le_right _ _
  omega

/-- The end of a history that is cut to what lies in front of the block. -/
theorem suffix_take {dict before flushed : List UInt8} (hs : dict <:+ before ++ flushed) :
    dict.take (dict.length - flushed.length) <:+ before := by
  obtain ⟨g, hg⟩ := hs
  rcases Nat.le_total flushed.length dict.length with hle | hle
  · refine ⟨g, ?_⟩
    have hlen := congrArg List.length hg
    simp only [List.length_append] at hlen
    have hcut := congrArg (List.take before.length) hg
    rw [List.take_left, List.take_append] at hcut
    have e : before.length - g.length = dict.length - flushed.length := by omega
    rw [e, List.take_of_length_le (by omega)] at hcut
    exact hcut
  · rw [Nat.sub_eq_zero_of_le hle, List.take_zero]
    exact List.nil_suffix

/-- Once the end of the dictionary has been copied in front of the block, `tmpOutBuffer` holds the
history up to the end of the block. -/
theorem FlushHeld.window_moved {d : LZ4F_dctx} {dst before pending : List UInt8} {h : History}
    {start : Nat} (hf : FlushHeld d dst h before start pending) (hout : h.site ≠ .tmpOutBuffer) :
    window KB64 (load (d.dictBeforeTmpOut dst) 0 (d.tmpOut + d.tmpOutSize)) = h.bytes := by
  obtain ⟨hsuffix, hcopy⟩ := hf.outside hout
  have hcopyEq := copySize_eq d
  have hroom := hf.tmpOut_room
  have hlen := hf.place.site.length_dictBytes
  have hstart := hf.block.start_eq
  have hcut := suffix_take hsuffix
  rw [length_load, hlen, ← hstart] at hcut
  -- the copied bytes, in front of the block
  have hcopied : (window d.copySize ((d.dictBytes dst).take (d.dictSize - d.tmpOutStart))).length =
      d.copySize := by
    rw [length_window, List.length_take, hlen]
    omega
  have hwindow : window d.copySize ((d.dictBytes dst).take (d.dictSize - d.tmpOutStart)) =
      window d.copySize before := by
    refine window_of_suffix hcut ?_
    have hle := hcut.length_le
    rw [List.length_take, hlen] at hle ⊢
    omega
  have hblock : load (d.dictBeforeTmpOut dst) d.tmpOut d.tmpOutSize =
      load d.tmpOutBuffer d.tmpOut d.tmpOutSize := load_dictBeforeTmpOut d dst 0 d.tmpOutSize
  have hfront : load (d.dictBeforeTmpOut dst) 0 d.tmpOut =
      load (d.dictBeforeTmpOut dst) 0 (d.tmpOut - d.copySize) ++ window d.copySize before := by
    have e : d.tmpOut = d.tmpOut - d.copySize + d.copySize := by omega
    have hstored := load_store d.tmpOutBuffer (d.tmpOut - d.copySize)
      (window d.copySize ((d.dictBytes dst).take (d.dictSize - d.tmpOutStart)))
    rw [hcopied, hwindow] at hstored
    conv_lhs => rw [e, load_add, Nat.zero_add]
    rw [← hstored, LZ4F_dctx.dictBeforeTmpOut, hwindow]
  have hsize : (load d.tmpOutBuffer d.tmpOut d.tmpOutSize).length = d.tmpOutSize := length_load _ _ _
  have hwlen := length_window d.copySize before
  rw [← hf.window_full, load_add, Nat.zero_add, hblock, hfront]
  have hfrontLen := length_load (d.dictBeforeTmpOut dst) 0 (d.tmpOut - d.copySize)
  generalize load (d.dictBeforeTmpOut dst) 0 (d.tmpOut - d.copySize) = garbage at *
  generalize load d.tmpOutBuffer d.tmpOut d.tmpOutSize = blockBytes at *
  rcases Nat.le_total KB64 d.tmpOutSize with hbig | hsmall
  · rw [window_append_of_le _ blockBytes (by omega), window_append_of_le before blockBytes (by omega)]
  · rw [window_append_of_ge _ blockBytes (by omega), window_append_of_ge before blockBytes (by omega),
      hsize]
    congr 1
    rcases Nat.le_total (KB64 - d.tmpOutSize) d.tmpOut with hfit | hall
    · -- the copy fills the rest of the 64 KB
      have e : d.copySize = KB64 - d.tmpOutSize := by omega
      rw [← e, window_append_of_le _ _ (by omega), window_window]
    · -- all there is in front of the block is copied
      have hnil : garbage = [] := List.eq_nil_of_length_eq_zero (by omega)
      rw [hnil, List.nil_append, window_window_min _ _ (by omega)]

theorem FlushHeld.start {dctx : LZ4F_dctx} {dst before pending : List UInt8} {h : History}
    {start : Nat} (hf : FlushHeld dctx dst h before start pending) :
    FlushHeld (startDict dctx dst) dst (History.started h) before start pending where
  place := startDict_place hf.place
  block := ⟨by simpa using hf.block.start_eq, by simpa using hf.block.size_eq,
    by simpa using hf.block.pending_eq⟩
  written := by simpa using hf.written
  window_full := by
    rw [startDict_tmpOutBuffer, startDict_tmpOut, startDict_tmpOutSize]
    exact hf.window_full
  tmpOut_room := by simpa using hf.tmpOut_room
  min_dictSize := by simpa using hf.min_dictSize
  inside hs := by
    have hsite : h.site = .tmpOutBuffer := by
      by_cases h0 : h.dictSize = 0
      · rw [History.started, History.startSite, if_pos h0] at hs
        exact absurd hs nofun
      · rwa [History.started, History.startSite, if_neg h0] at hs
    rw [startDict_dictSize, startDict_tmpOutBuffer, startDict_tmpOut, startDict_tmpOutSize]
    exact hf.inside hsite
  outside hs := by
    rw [startDict_dictBytes hf.place.site]
    simp only [startDict_tmpOutBuffer, startDict_tmpOut, startDict_copySize, startDict_dictSize]
    by_cases h0 : h.dictSize = 0
    · -- no content so far: nothing to copy
      have hsize := hf.place.dictSize_eq.trans h0
      have hmin := hf.min_dictSize
      have hroom := hf.tmpOut_room
      have hcopy := copySize_eq dctx
      have hKB : KB64 = 65536 := rfl
      rw [dictBytes_of_dictSize_eq_zero hf.place.site hsize]
      exact ⟨List.nil_suffix, by omega⟩
    · rw [History.started, History.startSite, if_neg h0] at hs
      exact hf.outside hs

/-- The numbers of the dictionary after a flush of `n` bytes, behind the first line of
`LZ4F_updateDict`. -/
def History.continuedFlush (h : History) (start dstLen n : Nat) : History :=
  if h.site = .dst then { h with dictSize := h.dictSize + n }
  else if KB64 ≤ dstLen + n then { h with site := .dst, dictSize := dstLen + n }
  else if h.site = .tmpOutBuffer then { h with dictSize := h.dictSize + n }
  else { h with site := .tmpOutBuffer, dictSize := h.tmpOut + start + n }

theorem followFlush_eq (h : History) (start dstLen n : Nat) :
    h.followFlush start dstLen n =
      History.continuedFlush (History.started h) start dstLen n := by
  unfold History.followFlush History.continuedFlush History.started
  by_cases hd : h.startSite = .dst
  · simp only [hd, if_true]
  · rw [if_neg hd, if_neg hd]
    by_cases hk : KB64 ≤ dstLen + n
    · rw [if_pos hk, if_pos hk]
    · rw [if_neg hk, if_neg hk]
      by_cases ht : h.startSite = .tmpOutBuffer
      · have hsite : h.site = .tmpOutBuffer := by
          unfold History.startSite at ht
          split_ifs at ht
          exact ht
        simp only [ht, if_true, ← hsite]
      · rw [if_neg ht, if_neg ht]

/-- The context after `n` bytes were flushed: `tmpOutStart` moves on. -/
def flushed (d : LZ4F_dctx) (n : Nat) : LZ4F_dctx := { d with tmpOutStart := d.tmpOutStart + n }

/-- The block in `tmpOut` after `n` more bytes were flushed. -/
theorem PendingHeld.flushed {d d' : LZ4F_dctx} {start n : Nat} {pending : List UInt8}
    (hp : PendingHeld d start pending) (hn : n ≤ pending.length)
    (hstart : d'.tmpOutStart = d.tmpOutStart + n) (hsize : d'.tmpOutSize = d.tmpOutSize)
    (hmem : ∀ i k, load d'.tmpOutBuffer (d'.tmpOut + i) k = load d.tmpOutBuffer (d.tmpOut + i) k) :
    PendingHeld d' (start + n) (pending.drop n) where
  start_eq := by rw [hstart, hp.start_eq]
  size_eq := by
    rw [hsize, hp.size_eq, List.length_drop]
    omega
  pending_eq := by
    conv_rhs => rw [← hp.pending_eq, drop_load]
    rw [hmem, List.length_drop, Nat.add_assoc]

/-- The bytes to flush follow those flushed before. -/
theorem PendingHeld.load_start_add {d : LZ4F_dctx} {start n : Nat} {pending : List UInt8}
    (hp : PendingHeld d start pending) (hn : n ≤ pending.length) :
    load d.tmpOutBuffer d.tmpOut (start + n) =
      load d.tmpOutBuffer d.tmpOut start ++ pending.take n := by
  rw [load_add]
  conv_rhs => rw [← hp.pending_eq, take_load, Nat.min_eq_left hn]

/-- `LZ4F_updateDict` behind bytes flushed from `tmpOut`, where the dictionary need not move. -/
theorem FlushHeld.stay {d : LZ4F_dctx} {dst before pending : List UInt8} {h : History}
    {start n : Nat} (hf : FlushHeld d dst h before start pending) (hn : n ≤ pending.length)
    {d' : LZ4F_dctx} {h' : History} (hmem : d'.tmpOutBuffer = d.tmpOutBuffer)
    (htmpOut : d'.tmpOut = d.tmpOut) (hsize : d'.tmpOutSize = d.tmpOutSize)
    (hstart : d'.tmpOutStart = d.tmpOutStart + n) (hbytes : h'.bytes = h.bytes)
    (hplace : PlaceRefines d' (dst ++ pending.take n) h')
    (hmin : min d'.dictSize KB64 = min (before.length + (start + n)) KB64)
    (hinside : h'.site = .tmpOutBuffer → h.site = .tmpOutBuffer ∧ d'.dictSize = d.dictSize + n)
    (houtside : h'.site ≠ .tmpOutBuffer →
      d'.dictBytes (dst ++ pending.take n) <:+
        before ++ load d.tmpOutBuffer d.tmpOut start ++ pending.take n ∧
      d.copySize ≤ d'.dictSize - (start + n)) :
    FlushHeld d' (dst ++ pending.take n) h' before (start + n) (pending.drop n) where
  place := hplace
  block := hf.block.flushed hn hstart hsize fun i k => by rw [hmem, htmpOut]
  written := by
    rw [hmem, htmpOut, hf.block.load_start_add hn, ← List.append_assoc]
    exact append_suffix_append hf.written _
  window_full := by
    rw [hmem, htmpOut, hsize, hbytes]
    exact hf.window_full
  tmpOut_room := by
    rw [htmpOut]
    exact hf.tmpOut_room
  min_dictSize := hmin
  inside hs := by
    obtain ⟨hsite, hdict⟩ := hinside hs
    obtain ⟨hd, hw⟩ := hf.inside hsite
    rw [hmem, htmpOut, hsize, hbytes, hdict, hd, Nat.add_assoc]
    exact ⟨rfl, hw⟩
  outside hs := by
    have hcopy : d'.copySize = d.copySize := by rw [copySize_eq, copySize_eq, hsize, htmpOut]
    obtain ⟨hsuffix, hle⟩ := houtside hs
    rw [hmem, htmpOut, hf.block.load_start_add hn, ← List.append_assoc, hcopy]
    exact ⟨hsuffix, hle⟩

/-- The dictionary moves in front of the block, with `n` more bytes flushed. -/
theorem FlushHeld.move {d : LZ4F_dctx} {dst before pending : List UInt8} {h : History}
    {start n : Nat} (hf : FlushHeld d dst h before start pending) (hn : n ≤ pending.length)
    (hout : h.site ≠ .tmpOutBuffer) {d' : LZ4F_dctx} {h' : History} (dst' : List UInt8)
    (hmem : d'.tmpOutBuffer = d.dictBeforeTmpOut dst) (htmpOut : d'.tmpOut = d.tmpOut)
    (hsize : d'.tmpOutSize = d.tmpOutSize) (hstart : d'.tmpOutStart = d.tmpOutStart + n)
    (hdict : d'.dict = .tmpOutBuffer) (hdictSize : d'.dictSize = d.tmpOut + (start + n))
    (hbytes : h'.bytes = h.bytes) (hsite : h'.site = .tmpOutBuffer)
    (hdictSize' : h'.dictSize = d'.dictSize) (htmpOut' : h'.tmpOut = h.tmpOut)
    (hwritten : dst' <:+ before ++ load d.tmpOutBuffer d.tmpOut (start + n)) :
    FlushHeld d' dst' h' before (start + n) (pending.drop n) := by
  have hload : ∀ i k, load d'.tmpOutBuffer (d'.tmpOut + i) k =
      load d.tmpOutBuffer (d.tmpOut + i) k := fun i k => by
    rw [hmem, htmpOut, load_dictBeforeTmpOut]
  have hload0 : ∀ k, load d'.tmpOutBuffer d'.tmpOut k = load d.tmpOutBuffer d.tmpOut k := hload 0
  have hroom := hf.tmpOut_room
  refine
    { place := ⟨siteRefines_tmp hsite hdict, hdictSize'.symm, ?_⟩
      block := hf.block.flushed hn hstart hsize hload
      written := ?_
      window_full := ?_
      tmpOut_room := ?_
      min_dictSize := ?_
      inside := fun _ => ⟨?_, ?_⟩
      outside := fun hne => absurd hsite hne }
  · rw [htmpOut, htmpOut', hf.place.tmpOut_eq]
  · rw [hload0]
    exact hwritten
  · rw [hload0, hsize, hbytes]
    exact hf.window_full
  · rw [htmpOut]
    exact hroom
  · rw [hdictSize]
    omega
  · rw [hdictSize, htmpOut]
  · rw [hmem, htmpOut, hsize, hbytes]
    exact hf.window_moved hout

/-- `LZ4F_updateDict` behind bytes flushed from `tmpOut`, behind its first line. -/
theorem FlushHeld.continueFlush {d : LZ4F_dctx} {dst before pending : List UInt8} {h : History}
    {start n : Nat} (hf : FlushHeld d dst h before start pending) (hn : n ≤ pending.length) :
    FlushHeld (flushed (continueDict d dst (pending.take n) true) n) (dst ++ pending.take n)
      (History.continuedFlush h start dst.length n) before (start + n) (pending.drop n) := by
  have hsize := hf.place.dictSize_eq
  have hlen := hf.place.site.length_dictBytes
  have hpiece : (pending.take n).length = n := by rw [List.length_take, Nat.min_eq_left hn]
  have hends := hf.place.site.dictEndsAt
  have hmin := hf.min_dictSize
  have hcopy := copySize_eq d
  have hwritten := append_suffix_append hf.written (pending.take n)
  have hblock := hf.block.size_eq
  by_cases hdst : h.site = .dst
  · -- prefix mode, everything within dstBuffer
    have hsite : SiteRefines d dst .dst := hdst ▸ hf.place.site
    obtain ⟨hs, hbytes⟩ := @dictBytes_append_dst d
      { d with dictSize := d.dictSize + (pending.take n).length } dst (pending.take n) hsite rfl rfl
    obtain ⟨hsuffix, hle⟩ := hf.outside (by rw [hdst]; exact nofun)
    unfold continueDict History.continuedFlush
    simp only [hends, decide_eq_true hdst, if_true, if_pos hdst]
    refine hf.stay hn rfl rfl rfl rfl rfl ⟨siteRefines_dst hdst hs, ?_, hf.place.tmpOut_eq⟩ ?_
      (fun hs => absurd hs (by rw [hdst]; exact nofun)) fun _ => ⟨?_, ?_⟩
    · simp only [flushed, hpiece, hsize]
    · simp only [flushed, hpiece]
      omega
    · exact suffix_of_eq hbytes (append_suffix_append hsuffix _)
    · simp only [flushed, hpiece]
      omega
  by_cases hlong : KB64 ≤ dst.length + n
  · -- history in dstBuffer becomes large enough to become dictionary
    obtain ⟨hs, hbytes⟩ := dictBytes_all_dst { d with
      dict := .dst 0, dictSize := dst.length + (pending.take n).length } rfl
      (@List.length_append _ dst (pending.take n)).symm
    unfold continueDict History.continuedFlush
    simp only [hends, decide_eq_false hdst, Bool.false_eq_true, if_false, hpiece, if_pos hlong,
      if_neg hdst]
    rw [hpiece] at hs hbytes
    refine hf.stay hn rfl rfl rfl rfl rfl ⟨hs, rfl, hf.place.tmpOut_eq⟩ ?_
      (fun hs => absurd hs nofun) fun _ => ⟨?_, ?_⟩
    · have hle := hwritten.length_le
      simp only [List.length_append, hpiece, length_load] at hle
      simp only [flushed]
      omega
    · exact suffix_of_eq hbytes hwritten
    · -- the part of the destination in front of the block makes up for what the block lacks
      simp only [flushed]
      omega
  by_cases htmp : h.site = .tmpOutBuffer
  · -- continue history within tmpOutBuffer
    have hd : d.dict = .tmpOutBuffer := hf.place.site.tmpOutBuffer_iff.2 htmp
    unfold continueDict History.continuedFlush
    simp only [hends, decide_eq_false hdst, Bool.false_eq_true, if_false, hpiece, if_neg hlong,
      if_neg hdst, hd, and_self, if_true, if_pos htmp]
    refine hf.stay hn rfl rfl rfl rfl rfl
      ⟨siteRefines_tmp htmp rfl, congrArg (· + n) hsize, hf.place.tmpOut_eq⟩ ?_
      (fun _ => ⟨htmp, rfl⟩) (fun hne => absurd htmp hne)
    simp only [flushed]
    omega
  · -- copy relevant dict portion in front of tmpOut within tmpOutBuffer
    have hd : d.dict ≠ .tmpOutBuffer := fun e => htmp (hf.place.site.tmpOutBuffer_iff.1 e)
    unfold continueDict History.continuedFlush
    simp only [hends, decide_eq_false hdst, Bool.false_eq_true, if_false, hpiece, if_neg hlong,
      if_neg hdst, hd, and_false, if_true, if_neg htmp]
    refine hf.move hn htmp _ rfl rfl rfl rfl rfl ?_ rfl rfl ?_ rfl ?_
    · simp only [flushed, hf.block.start_eq, Nat.add_assoc]
    · simp only [flushed, hf.block.start_eq, hf.place.tmpOut_eq]
    · rw [hf.block.load_start_add hn, ← List.append_assoc]
      exact hwritten

/-- A flush of `n` bytes. -/
theorem FlushHeld.flush {dctx : LZ4F_dctx} {dst before pending : List UInt8} {h : History}
    {start n : Nat} (hf : FlushHeld dctx dst h before start pending) (hn : n ≤ pending.length) :
    FlushHeld (flushed (LZ4F_updateDict dctx dst (pending.take n) true) n) (dst ++ pending.take n)
      (h.followFlush start dst.length n) before (start + n) (pending.drop n) := by
  rw [updateDict_eq, followFlush_eq]
  exact hf.start.continueFlush hn

/-! ## A block comes and goes -/

/-- With all of the block flushed the dictionary holds it. -/
theorem FlushHeld.done {d : LZ4F_dctx} {dst before : List UInt8} {h : History} {start : Nat}
    (hf : FlushHeld d dst h before start []) :
    HistoryHeld d dst h (before ++ load d.tmpOutBuffer d.tmpOut start) := by
  have hsize : d.tmpOutSize = start := hf.block.size_eq
  have hlen := hf.place.site.length_dictBytes
  have hfull := hf.window_full
  rw [hsize] at hfull
  refine ⟨hf.place, hf.written, hfull, ?_, fun hne => (hf.outside hne).1⟩
  by_cases hs : h.site = .tmpOutBuffer
  · obtain ⟨hdict, hw⟩ := hf.inside hs
    have hd : d.dict = .tmpOutBuffer := hf.place.site.tmpOutBuffer_iff.2 hs
    rw [dictBytes_tmpOutBuffer dst hd, hdict, hfull, ← hw, hsize]
  · refine window_of_suffix (hf.outside hs).1 ?_
    rw [hlen, List.length_append, length_load]
    exact hf.min_dictSize

theorem HistoryHeld.setTmpOut {d : LZ4F_dctx} {dst full : List UInt8} {h : History}
    (hh : HistoryHeld d dst h full) (tmpOut : Nat) :
    HistoryHeld { d with tmpOut } dst { h with tmpOut } full :=
  ⟨⟨hh.place.site, hh.place.dictSize_eq, rfl⟩, hh.written, hh.window_full, hh.window_dict, hh.suffix⟩

theorem HistoryHeld.truncate {d : LZ4F_dctx} {dst full : List UInt8} {h : History}
    (hh : HistoryHeld d dst h full) (htmp : h.site = .tmpOutBuffer) :
    HistoryHeld (d.truncateDict dst) dst
      { h with dictSize := if 128 * 1024 < h.dictSize then KB64 else h.dictSize } full := by
  have hsize := hh.place.dictSize_eq
  have hlen := hh.place.site.length_dictBytes
  have hKB : KB64 = 65536 := rfl
  have hd : d.dict = .tmpOutBuffer := hh.place.site.tmpOutBuffer_iff.2 htmp
  unfold LZ4F_dctx.truncateDict
  rw [← hsize]
  by_cases hbig : 128 * 1024 < d.dictSize
  · rw [if_pos hbig, if_pos hbig]
    have hkept : (window KB64 (d.dictBytes dst)).length = KB64 := by
      rw [length_window, hlen]
      omega
    refine ⟨⟨siteRefines_tmp htmp hd, rfl, hh.place.tmpOut_eq⟩, hh.written, hh.window_full, ?_,
      fun hne => absurd htmp hne⟩
    exact hh.window_kept _ (Nat.min_le_left _ _) hd rfl hkept.symm
  · rw [if_neg hbig, if_neg hbig]
    exact ⟨⟨hh.place.site, rfl, hh.place.tmpOut_eq⟩, hh.written, hh.window_full, hh.window_dict,
      hh.suffix⟩

/-- "manage dictionary" keeps the history, and says where the block goes. -/
theorem HistoryHeld.placeTmpOut {d : LZ4F_dctx} {dst full : List UInt8} {h : History}
    (hh : HistoryHeld d dst h full) (hlinked : d.frameInfo.blockMode = .blockLinked) :
    HistoryHeld (d.placeTmpOut dst) dst h.placeTmpOut full ∧
      ((h.placeTmpOut.site = .tmpOutBuffer ∧
          (d.placeTmpOut dst).tmpOut = (d.placeTmpOut dst).dictSize) ∨
        (h.placeTmpOut.site ≠ .tmpOutBuffer ∧
          (d.placeTmpOut dst).tmpOut = min (d.placeTmpOut dst).dictSize KB64)) := by
  unfold LZ4F_dctx.placeTmpOut History.placeTmpOut
  rw [if_pos hlinked]
  by_cases htmp : h.site = .tmpOutBuffer
  · have hd : d.dict = .tmpOutBuffer := hh.place.site.tmpOutBuffer_iff.2 htmp
    have htrunc := hh.truncate htmp
    rw [if_pos hd, if_pos htmp]
    refine ⟨?_, Or.inl ⟨htmp, rfl⟩⟩
    have hset := htrunc.setTmpOut (d.truncateDict dst).dictSize
    have hsize := htrunc.place.dictSize_eq
    rw [hsize] at hset
    simp only at hset ⊢
    rw [hsize]
    exact hset
  · have hd : d.dict ≠ .tmpOutBuffer := fun e => htmp (hh.place.site.tmpOutBuffer_iff.1 e)
    rw [if_neg hd, if_neg htmp, ← hh.place.dictSize_eq]
    refine ⟨?_, Or.inr ⟨htmp, rfl⟩⟩
    have hset := hh.setTmpOut (min d.dictSize KB64)
    rwa [hh.place.dictSize_eq] at hset ⊢

/-- A block is decoded into `tmpOut`. -/
theorem HistoryHeld.decoded {d d' : LZ4F_dctx} {dst full block : List UInt8} {h h' : History}
    (hh : HistoryHeld d dst h full)
    (hplaced : (h.site = .tmpOutBuffer ∧ d.tmpOut = d.dictSize) ∨
      (h.site ≠ .tmpOutBuffer ∧ d.tmpOut = min d.dictSize KB64))
    (hmem : d'.tmpOutBuffer = store d.tmpOutBuffer d.tmpOut block) (hdict : d'.dict = d.dict)
    (hdictSize : d'.dictSize = d.dictSize) (htmpOut : d'.tmpOut = d.tmpOut)
    (hsize : d'.tmpOutSize = block.length) (hstart : d'.tmpOutStart = 0)
    (hsite' : h'.site = h.site) (hdictSize' : h'.dictSize = h.dictSize)
    (htmpOut' : h'.tmpOut = h.tmpOut) (hbytes' : h'.bytes = window KB64 (h.bytes ++ block)) :
    FlushHeld d' dst h' full 0 block := by
  have hmin := hh.min_dictSize
  have hlen := hh.place.site.length_dictBytes
  have hblock : load d'.tmpOutBuffer d.tmpOut block.length = block := by
    rw [hmem]
    exact load_store _ _ _
  have hsite : SiteRefines d' dst h'.site := by
    rw [hsite']
    exact hh.place.site.congr hdict hdictSize
  have hfull : window KB64 (full ++ block) = h'.bytes := by
    rw [hbytes', ← hh.window_full, window_window_append]
  refine
    { place := ⟨hsite, ?_, ?_⟩
      block := ⟨hstart, by rw [hsize, Nat.zero_add], by rw [htmpOut, Nat.add_zero, hblock]⟩
      written := ?_
      window_full := by rw [htmpOut, hsize, hblock, hfull]
      tmpOut_room := by rw [htmpOut]; omega
      min_dictSize := by rw [hdictSize, Nat.add_zero, hmin]
      inside := fun hs => ?_
      outside := fun hne => ?_ }
  · rw [hdictSize, hdictSize', hh.place.dictSize_eq]
  · rw [htmpOut, htmpOut', hh.place.tmpOut_eq]
  · rw [load_zero, List.append_nil]
    exact hh.written
  · rw [hsite'] at hs
    have htmp : d.tmpOut = d.dictSize := by
      rcases hplaced with ⟨-, e⟩ | ⟨hne, -⟩
      · exact e
      · exact absurd hs hne
    have hd : d.dict = .tmpOutBuffer := hh.place.site.tmpOutBuffer_iff.2 hs
    have hfront : load d'.tmpOutBuffer 0 d.tmpOut = d.dictBytes dst := by
      rw [hmem, load_store_before _ _ (Nat.le_of_eq (Nat.zero_add _)), htmp,
        dictBytes_tmpOutBuffer dst hd]
    refine ⟨by rw [hdictSize, htmpOut, htmp, Nat.add_zero], ?_⟩
    rw [htmpOut, hsize, load_add, hfront, Nat.zero_add, hblock, ← hfull]
    exact window_append_congr hh.window_dict block
  · rw [hsite'] at hne
    have htmp : d.tmpOut = min d.dictSize KB64 := by
      rcases hplaced with ⟨hs, -⟩ | ⟨-, e⟩
      · exact absurd hs hne
      · exact e
    have hbytes : d'.dictBytes dst = d.dictBytes dst :=
      dictBytes_congr dst hdict hdictSize fun e => absurd (hh.place.site.tmpOutBuffer_iff.1 e) hne
    rw [hbytes, load_zero, List.append_nil]
    refine ⟨hh.suffix hne, ?_⟩
    rw [copySize_eq, htmpOut, hdictSize]
    omega

/-! ## The end of a call -/

theorem siteRefines_nowhere {d : LZ4F_dctx} {dst dst' : List UInt8} {site : Site}
    (hs : site = .nowhere) (h : SiteRefines d dst site) : SiteRefines d dst' site := by
  subst hs
  exact h

/-- Nothing has to be moved. -/
theorem leaveDestination_of_inside {d : LZ4F_dctx} (dst src : List UInt8)
    (hd : d.dict = .tmpOutBuffer ∨ d.dict = .null) :
    leaveDestination (preserveHistory ⟨d, src, dst⟩) dst = d := by
  unfold preserveHistory
  rcases hd with hd | hd
  · simp [hd, leaveDestination]
  · simp [hd, leaveDestination]

/-- What is carried over to the next call, between blocks. -/
theorem HistoryHeld.leave {d : LZ4F_dctx} {dst full : List UInt8} {h : History}
    (hh : HistoryHeld d dst h full) (hlinked : d.frameInfo.blockMode = .blockLinked)
    (huses : d.dStage.usesHistory = true) (hstage : d.dStage ≠ .flushOut) (src : List UInt8) :
    HistoryHeld (leaveDestination (preserveHistory ⟨d, src, dst⟩) dst) [] (h.leave none) full := by
  have hsize := hh.place.dictSize_eq
  have hlen := hh.place.site.length_dictBytes
  by_cases htmp : h.site = .tmpOutBuffer
  · have hd : d.dict = .tmpOutBuffer := hh.place.site.tmpOutBuffer_iff.2 htmp
    rw [leaveDestination_of_inside dst src (Or.inl hd), History.leave, if_pos (Or.inl htmp)]
    refine ⟨⟨siteRefines_tmp htmp hd, hsize, hh.place.tmpOut_eq⟩, List.nil_suffix, hh.window_full,
      ?_, fun hne => absurd htmp hne⟩
    rw [dictBytes_tmpOutBuffer [] hd, ← dictBytes_tmpOutBuffer dst hd]
    exact hh.window_dict
  · have hd : d.dict ≠ .tmpOutBuffer := fun e => htmp (hh.place.site.tmpOutBuffer_iff.1 e)
    by_cases hnull : h.site = .nowhere
    · have hdn : d.dict = .null := hh.place.site.null_iff.2 hnull
      have hbytes : d.dictBytes [] = d.dictBytes dst := by simp [LZ4F_dctx.dictBytes, hdn]
      rw [leaveDestination_of_inside dst src (Or.inr hdn), History.leave, if_pos (Or.inr hnull)]
      refine ⟨⟨siteRefines_nowhere hnull hh.place.site, hsize, hh.place.tmpOut_eq⟩,
        List.nil_suffix, hh.window_full, ?_, fun hne => ?_⟩
      · rw [hbytes]
        exact hh.window_dict
      · rw [hbytes]
        exact hh.suffix hne
    · have hdn : d.dict ≠ .null := fun e => hnull (hh.place.site.null_iff.1 e)
      have hsites : ¬(h.site = .tmpOutBuffer ∨ h.site = .nowhere) := by
        rintro (e | e)
        · exact htmp e
        · exact hnull e
      unfold preserveHistory History.leave
      simp only [hlinked, ne_eq, hd, hdn, not_false_eq_true, huses, and_self, if_true, hstage,
        if_false, if_neg hsites, leaveDestination]
      have hkept : (window (min d.dictSize KB64) (d.dictBytes dst)).length = min d.dictSize KB64 := by
        rw [length_window, hlen]
        omega
      refine ⟨⟨rfl, ?_, ?_⟩, List.nil_suffix, hh.window_full, ?_, fun hne => absurd rfl hne⟩
      · simp only [hsize]
      · simp only [hsize]
      · exact hh.window_kept [] (by rw [hlen]; omega) rfl rfl hkept.symm

/-- What is carried over to the next call while a block waits. -/
theorem FlushHeld.leave {d : LZ4F_dctx} {dst before pending : List UInt8} {h : History}
    {start : Nat} (hf : FlushHeld d dst h before start pending)
    (hlinked : d.frameInfo.blockMode = .blockLinked) (hstage : d.dStage = .flushOut)
    (src : List UInt8) :
    FlushHeld (leaveDestination (preserveHistory ⟨d, src, dst⟩) dst) [] (h.leave (some start))
      before start pending := by
  have hsize := hf.place.dictSize_eq
  by_cases htmp : h.site = .tmpOutBuffer
  · have hd : d.dict = .tmpOutBuffer := hf.place.site.tmpOutBuffer_iff.2 htmp
    rw [leaveDestination_of_inside dst src (Or.inl hd), History.leave, if_pos (Or.inl htmp)]
    exact
      { hf with
        place := ⟨siteRefines_tmp htmp hd, hsize, hf.place.tmpOut_eq⟩
        written := List.nil_suffix
        outside := fun hne => absurd htmp hne }
  · by_cases hnull : h.site = .nowhere
    · have hdn : d.dict = .null := hf.place.site.null_iff.2 hnull
      have hbytes : d.dictBytes [] = d.dictBytes dst := by simp [LZ4F_dctx.dictBytes, hdn]
      rw [leaveDestination_of_inside dst src (Or.inr hdn), History.leave, if_pos (Or.inr hnull)]
      exact
        { hf with
          place := ⟨siteRefines_nowhere hnull hf.place.site, hsize, hf.place.tmpOut_eq⟩
          written := List.nil_suffix
          outside := fun hne => by
            rw [hbytes]
            exact hf.outside hne }
    · have hd : d.dict ≠ .tmpOutBuffer := fun e => htmp (hf.place.site.tmpOutBuffer_iff.1 e)
      have hdn : d.dict ≠ .null := fun e => hnull (hf.place.site.null_iff.1 e)
      have hsites : ¬(h.site = .tmpOutBuffer ∨ h.site = .nowhere) := by
        rintro (e | e)
        · exact htmp e
        · exact hnull e
      unfold preserveHistory History.leave
      simp only [hlinked, ne_eq, hd, hdn, hstage, dStage.usesHistory, not_false_eq_true, and_self,
        if_true, if_neg hsites, leaveDestination]
      have hmove := fun d' h' => @FlushHeld.move d dst before pending h start 0 hf (Nat.zero_le _)
        htmp d' h' []
      rw [Nat.add_zero, List.drop_zero] at hmove
      refine hmove _ _ rfl rfl rfl rfl rfl ?_ rfl rfl ?_ rfl List.nil_suffix
      · simp only [hf.block.start_eq, Nat.add_zero]
      · simp only [hf.block.start_eq, hf.place.tmpOut_eq]

/-- An error changes nothing but the name of the destination. -/
theorem PlaceRefines.abandon {d : LZ4F_dctx} {dst : List UInt8} {h : History}
    (hp : PlaceRefines d dst h) :
    PlaceRefines (leaveDestination d dst) [] h.abandon ∧
      (leaveDestination d dst).dictBytes [] = d.dictBytes dst := by
  have hlen := hp.site.length_dictBytes
  have hs := hp.site
  unfold History.abandon
  cases hsite : h.site with
  | nowhere =>
    rw [hsite] at hs
    rw [if_neg nofun]
    have hleave : leaveDestination d dst = d := by simp [leaveDestination, hs.1]
    rw [hleave]
    exact ⟨⟨siteRefines_nowhere hsite hp.site, hp.dictSize_eq, hp.tmpOut_eq⟩,
      by simp [LZ4F_dctx.dictBytes, hs.1]⟩
  | tmpOutBuffer =>
    rw [hsite] at hs
    have hd : d.dict = .tmpOutBuffer := hs
    rw [if_neg nofun]
    have hleave : leaveDestination d dst = d := by simp [leaveDestination, hd]
    rw [hleave]
    exact ⟨⟨siteRefines_tmp hsite hd, hp.dictSize_eq, hp.tmpOut_eq⟩,
      by simp [LZ4F_dctx.dictBytes, hd]⟩
  | dst =>
    rw [hsite] at hs
    obtain ⟨offset, hd, -⟩ := hs
    rw [if_pos rfl]
    simp only [leaveDestination, hd]
    exact ⟨⟨⟨_, rfl, hlen⟩, hp.dictSize_eq, hp.tmpOut_eq⟩, rfl⟩
  | elsewhere =>
    rw [hsite] at hs
    obtain ⟨bytes, hd, hl⟩ := hs
    rw [if_neg nofun]
    have hleave : leaveDestination d dst = d := by simp [leaveDestination, hd]
    rw [hleave]
    refine ⟨⟨?_, hp.dictSize_eq, hp.tmpOut_eq⟩, by simp [LZ4F_dctx.dictBytes, hd]⟩
    rw [hsite]
    exact ⟨bytes, hd, hl⟩

/-- What an error leaves behind. -/
theorem HistoryHeld.abandon {d : LZ4F_dctx} {dst full : List UInt8} {h : History}
    (hh : HistoryHeld d dst h full) :
    HistoryHeld (leaveDestination d dst) [] h.abandon full := by
  obtain ⟨hplace, hbytes⟩ := hh.place.abandon
  have hwindow : h.abandon.bytes = h.bytes := by
    unfold History.abandon
    split_ifs <;> rfl
  have hsite : h.abandon.site ≠ .tmpOutBuffer → h.site ≠ .tmpOutBuffer := by
    intro hne hs
    rw [History.abandon, if_neg (by rw [hs]; exact nofun)] at hne
    exact hne hs
  refine ⟨hplace, List.nil_suffix, hh.window_full.trans hwindow.symm, ?_, fun hne => ?_⟩
  · rw [hbytes]
    exact hh.window_dict
  · rw [hbytes]
    exact hh.suffix (hsite hne)

theorem leaveDestination_eq (d : LZ4F_dctx) (dst : List UInt8) :
    ∃ dict, leaveDestination d dst = { d with dict } := by
  unfold leaveDestination
  cases h : d.dict with
  | dst offset => exact ⟨_, rfl⟩
  | null => exact ⟨d.dict, rfl⟩
  | tmpOutBuffer => exact ⟨d.dict, rfl⟩
  | elsewhere bytes => exact ⟨d.dict, rfl⟩

end PythonLz4.Frame.HistoryRefinement
