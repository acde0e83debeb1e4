import PythonLz4.Stream.CompressRuns

/-!
# What a failed `compress ()` does to the stream

The blocks of the calls that succeed, on a fresh decompression context. A call that fails in the
library has written its source over the page the next block is made on, and leaves the history of
the LZ4 stream alone; what it has written is harmless as long as that history does not reach it. A
call that fails when the object it returns is allocated has advanced the history and not the page
index, and the blocks after it may refer to a chunk the decoder never sees.
-/

set_option autoImplicit false

namespace PythonLz4.Stream.CompressFailures

open PythonLz4.Runtime
open PythonLz4.Lib.HistoryWindow
open PythonLz4.Lib.ByteMemory
open PythonLz4.Block
open PythonLz4.Block.DecompressGeneric
open PythonLz4.Block.Container (LZ4_MAX_INPUT_SIZE LZ4_compressBound compressBound_of_le)
open PythonLz4.Stream.Continue
open PythonLz4.Stream.Context
open PythonLz4.Stream.Mirror
open PythonLz4.Stream.Compressors
open PythonLz4.Stream.Session
open PythonLz4.Stream.CompressRuns

/-! ## The decompression side -/

/-- A decoder that writes only the `n` bytes it returns. -/
def tidy (scratch : Scratch) (d : DecompressContext) (n : Nat) : Scratch where
  during := clobber d.mem d.double_buffer.page n scratch.during
  after := d.mem

/-- The blocks of the calls that succeeded, in order, on one decompression context. -/
def receive (fastLoop : Bool) (scratch : Nat → Scratch) :
    Nat → DecompressContext → List (List UInt8 × PyBytes) → Except PyErr (List (List UInt8))
  | _, _, [] => .ok []
  | k, d, (chunk, stream) :: rest =>
    match blockOf d stream.data with
    | .error e => .error e
    | .ok block =>
      match decompress fastLoop (tidy (scratch k) d chunk.length) d block with
      | .error e => .error e
      | .ok (out, d') =>
        match receive fastLoop scratch (k + 1) d' rest with
        | .error e => .error e
        | .ok outs => .ok (out.data :: outs)

/-- What the wrapper needs of an encoder that may fail: what it makes is a block below
`LZ4_compressBound`, which decodes to the source with the window as history. -/
structure FailableSpec (encode : Encoder) : Prop where
  length : ∀ w source n level, source.length ≤ LZ4_MAX_INPUT_SIZE →
    LZ4_compressBound source.length ≤ n → encode w source n level ≠ [] →
      (encode w source n level).length < LZ4_compressBound source.length
  decodes : ∀ w source n level, encode w source n level ≠ [] → ∀ (fastLoop : Bool) (cap : Nat),
    source.length ≤ cap →
      LZ4_decompress_generic fastLoop (callOf false w cap) (encode w source n level) = .ok source

theorem FailableSpec.of_spec {encode : Encoder} (h : EncoderSpec encode) : FailableSpec encode where
  length w source n level hsource hn _ := (h.length w source n level hsource hn).2
  decodes := h.decodes

/-! ## Which runs come through -/

/-- The library makes no block of the source, which has been copied to the page. -/
def LibraryFails (c : CompressContext) (call : CompressCall) : Prop :=
  (compress_generic call.coder (copied c call.source) call.source.length).1 = []

instance (c : CompressContext) (call : CompressCall) : Decidable (LibraryFails c call) := by
  unfold LibraryFails
  infer_instance

/-- No call whose source has been compressed fails, and no chunk is a conflict with what has been
written to its page: the chunk itself, and the longest of the sources the library has failed on
since the last success, of `dirty` bytes. -/
def HarmlessFailures (hc : Bool) (B : Nat) :
    Nat → Nat → Nat → Nat → CompressContext → List CompressCall → Prop
  | _, _, _, _, _, [] => True
  | dirty, index, prev2, prev1, c, call :: calls =>
    if B < call.source.length then
      HarmlessFailures hc B dirty index prev2 prev1 (compressCall c call).2 calls
    else if LibraryFails c call then
      HarmlessFailures hc B (max call.source.length dirty) index prev2 prev1
        (compressCall c call).2 calls
    else
      call.allocated = true ∧
        ¬ conflictWithin hc B (max call.source.length dirty) index prev2 prev1
          call.source.length ∧
        HarmlessFailures hc B 0 ((index + 1) % 2) prev1 call.source.length (compressCall c call).2
          calls

instance : ∀ (hc : Bool) (B dirty index prev2 prev1 : Nat) (c : CompressContext)
    (calls : List CompressCall),
    Decidable (HarmlessFailures hc B dirty index prev2 prev1 c calls)
  | _, _, _, _, _, _, _, [] => .isTrue trivial
  | hc, B, dirty, index, prev2, prev1, c, call :: calls => by
    have inst := fun dirty index prev2 prev1 =>
      instDecidableHarmlessFailures hc B dirty index prev2 prev1 (compressCall c call).2 calls
    unfold HarmlessFailures
    infer_instance

/-! ## The two contexts along a run -/

theorem compressCall_of_compress {c c' : CompressContext} {call : CompressCall} {stream : PyBytes}
    (hallocated : call.allocated = true)
    (h : compress call.coder c call.source = .ok (stream, c')) :
    compressCall c call = (.ok stream, c') := by
  rw [compress_eq_compressCall, ← hallocated] at h
  cases hcall : compressCall c call with
  | mk result next =>
    rw [hcall] at h
    cases result with
    | ok result =>
      obtain ⟨rfl, rfl⟩ := Prod.mk.inj (Except.ok.inj h)
      rfl
    | error e => cases h

theorem compressCall_of_long {c : CompressContext} {call : CompressCall}
    (h : c.double_buffer.page_size < call.source.length) :
    compressCall c call = (.error ⟨.OverflowError, "Input too large for LZ4 API"⟩, c) := by
  unfold compressCall
  rw [if_pos h]

theorem compressCall_of_library_fails {c : CompressContext} {call : CompressCall}
    (hfits : call.source.length ≤ c.double_buffer.page_size) (h : LibraryFails c call) :
    compressCall c call =
      (.error ⟨.LZ4StreamError, "Compression failed"⟩, copied c call.source) := by
  have hzero : (compress_generic call.coder (copied c call.source) call.source.length).1.length =
      0 := by
    rw [h]
    rfl
  unfold compressCall
  rw [if_neg (Nat.not_lt.2 hfits)]
  simp only [hzero]
  rfl

/-- The contexts are together, but for the first `dirty` bytes of the page the next chunk goes to:
there the failed calls have written. -/
structure DirtySynced {L B : Nat} (cp dp : Placement L B) (hc : Bool)
    (dirty index prev2 prev1 : Nat) (c : CompressContext) (d : DecompressContext) : Prop where
  dirty_le : dirty ≤ B
  clean : ∃ mem, SameOutside mem c.mem (cp.buf + index * B) dirty ∧
    Synced cp dp hc index prev2 prev1 { c with mem := mem } d

variable {L B : Nat} {cp dp : Placement L B} {hc : Bool} {dirty index prev2 prev1 : Nat}
  {c : CompressContext} {d : DecompressContext} {call : CompressCall}

theorem DirtySynced.of_synced (h : Synced cp dp hc index prev2 prev1 c d) :
    DirtySynced cp dp hc 0 index prev2 prev1 c d where
  dirty_le := Nat.zero_le B
  clean := ⟨c.mem, fun _ _ => rfl, h⟩

theorem DirtySynced.c_buffer (h : DirtySynced cp dp hc dirty index prev2 prev1 c d) :
    c.double_buffer = ⟨cp.buf, B, index⟩ := by
  obtain ⟨-, mem, -, hsynced⟩ := h
  exact hsynced.c_buffer

/-- A source the library has failed on lies on the page. -/
theorem DirtySynced.library_fails (h : DirtySynced cp dp hc dirty index prev2 prev1 c d)
    {source : List UInt8} (hfits : source.length ≤ B) :
    DirtySynced cp dp hc (max source.length dirty) index prev2 prev1 (copied c source) d := by
  have hpage : c.double_buffer.page = cp.buf + index * B := by
    rw [h.c_buffer]
    rfl
  obtain ⟨hdirty, mem, hmem, hsynced⟩ := h
  refine ⟨Nat.max_le.2 ⟨hfits, hdirty⟩, mem, ?_, hsynced⟩
  intro a ha
  show store c.mem c.double_buffer.page source a = mem a
  rw [hpage, store_of_not_mem (by omega)]
  exact hmem a (by omega)

/-- The call that succeeds, and what the decoder makes of its block. -/
theorem DirtySynced.success (h : DirtySynced cp dp hc dirty index prev2 prev1 c d)
    (hfast : FailableSpec call.coder.fast) (hhc : FailableSpec call.coder.hc)
    (hfits : call.source.length ≤ B) (hmade : ¬ LibraryFails c call)
    (hallocated : call.allocated = true)
    (hok : ¬ conflictWithin hc B (max call.source.length dirty) index prev2 prev1
      call.source.length) (fastLoop : Bool) (scratch : Scratch) :
    ∃ stream block c' d', compressCall c call = (.ok stream, c') ∧
      blockOf d stream.data = .ok block ∧
      decompress fastLoop (tidy scratch d call.source.length) d block =
        .ok (⟨d.return_bytearray, call.source⟩, d') ∧
      DirtySynced cp dp hc 0 ((index + 1) % 2) prev1 call.source.length c' d' := by
  obtain ⟨hdirty, mem, hmem, hsynced⟩ := h
  have hcbuf : c.double_buffer = ⟨cp.buf, B, index⟩ := hsynced.c_buffer
  have hpage : c.double_buffer.page = cp.buf + index * B := by
    rw [hcbuf]
    rfl
  have hdpage : d.double_buffer.page = dp.buf + index * B := by
    rw [hsynced.d_buffer]
    rfl
  have hM : max call.source.length dirty ≤ B := Nat.max_le.2 ⟨hfits, hdirty⟩
  -- the compressor's memory, against the one the contexts are together on
  have hcm : Written mem (store c.mem (cp.buf + index * B) call.source) (cp.buf + index * B)
      (max call.source.length dirty) call.source :=
    SameOutside.store (hmem.mono (Nat.le_max_right _ _)) (Nat.le_max_left _ _)
  -- the decoder's, where nothing has failed
  have hduring : SameOutside d.mem
      (clobber d.mem (dp.buf + index * B) B (tidy scratch d call.source.length).during)
      (dp.buf + index * B) (max call.source.length dirty) := by
    rw [tidy, hdpage]
    exact (sameOutside_clobber_clobber d.mem scratch.during _ _ B).mono (Nat.le_max_left _ _)
  have hdm : Written d.mem
      (store (clobber d.mem (dp.buf + index * B) B (tidy scratch d call.source.length).after)
        (dp.buf + index * B) call.source) (dp.buf + index * B)
      (max call.source.length dirty) call.source := by
    rw [tidy, clobber_self]
    exact written_store d.mem _ (Nat.le_max_left _ _)
  obtain ⟨encode, w, level, state, hencode, hgeneric, hmode, hagree, hnext⟩ :=
    StateSynced.step_within call.coder hsynced hM hok hcm hdm hduring
  have hspec : FailableSpec encode := by
    rcases hencode with rfl | rfl
    · exact hfast
    · exact hhc
  have hcopied : compress_generic call.coder (copied c call.source) call.source.length =
      (encode w call.source (LZ4_compressBound B) level, state) := by
    rw [copied, hpage]
    exact hgeneric
  have hne : encode w call.source (LZ4_compressBound B) level ≠ [] := by
    intro hempty
    refine hmade ?_
    rw [LibraryFails, hcopied]
    exact hempty
  have hmax : call.source.length ≤ LZ4_MAX_INPUT_SIZE := Nat.le_trans hfits hsynced.size_le
  have hbound : LZ4_compressBound call.source.length ≤ LZ4_compressBound B := by
    rw [compressBound_of_le hmax, compressBound_of_le hsynced.size_le]
    have hdiv : call.source.length / 255 ≤ B / 255 := Nat.div_le_div_right hfits
    omega
  have hlt := hspec.length w call.source _ level hmax hbound hne
  have hdecodes := hspec.decodes w call.source _ level hne fastLoop B hfits
  obtain ⟨stream, hcompress, hblock, hdecompress⟩ := chunk_through (c := c) hcbuf hsynced.d_buffer
    hsynced.size_pos (Nat.le_refl B) hsynced.size_le hsynced.d_output hsynced.header
    hsynced.header_mem hsynced.header_fits hfits hgeneric (List.length_pos_of_ne_nil hne) hlt
    hdecodes hagree
  exact ⟨stream, _, _, _, compressCall_of_compress hallocated hcompress, hblock, hdecompress,
    DirtySynced.of_synced (Synced.next hsynced hfits hmode hnext)⟩

/-- A run without a harmful failure is received as it was sent. -/
theorem DirtySynced.receive_runCalls {calls : List CompressCall}
    (h : DirtySynced cp dp hc dirty index prev2 prev1 c d)
    (hcoders : ∀ call ∈ calls, FailableSpec call.coder.fast ∧ FailableSpec call.coder.hc)
    (hok : HarmlessFailures hc B dirty index prev2 prev1 c calls) (fastLoop : Bool)
    (scratch : Nat → Scratch) (k : Nat) :
    receive fastLoop scratch k d (runCalls c calls).1 =
      .ok ((runCalls c calls).1.map Prod.fst) := by
  induction calls generalizing k dirty index prev2 prev1 c d with
  | nil => rfl
  | cons call calls ih =>
    have hcoders' : ∀ call' ∈ calls, FailableSpec call'.coder.fast ∧ FailableSpec call'.coder.hc :=
      fun call' hmem => hcoders call' (List.mem_cons_of_mem _ hmem)
    obtain ⟨hfast, hhc⟩ := hcoders call List.mem_cons_self
    rw [HarmlessFailures] at hok
    rw [runCalls]
    by_cases hlong : B < call.source.length
    · rw [if_pos hlong] at hok
      rw [compressCall_of_long (by rw [h.c_buffer]; exact hlong)] at hok ⊢
      exact ih h hcoders' hok k
    rw [if_neg hlong] at hok
    have hfits : call.source.length ≤ B := Nat.le_of_not_lt hlong
    by_cases hfails : LibraryFails c call
    · rw [if_pos hfails] at hok
      rw [compressCall_of_library_fails (by rw [h.c_buffer]; exact hfits) hfails] at hok ⊢
      exact ih (h.library_fails hfits) hcoders' hok k
    rw [if_neg hfails] at hok
    obtain ⟨hallocated, hconflict, hrest⟩ := hok
    obtain ⟨stream, block, c', d', hcall, hblock, hdecompress, hnext⟩ :=
      h.success hfast hhc hfits hfails hallocated hconflict fastLoop (scratch k)
    rw [hcall] at hrest ⊢
    have htail := ih hnext hcoders' hrest (k + 1)
    simp only [receive, hblock, hdecompress, htail, List.map_cons]

/-- What a run of calls that may fail sends is received on a new decompression context with the same
settings, when the pages are not empty and no failure is harmful. -/
theorem failed_calls_roundtrip {args : CreateArgs} (hB : 1 ≤ args.buffer_size)
    (cp dp : Placement args.dictionary.length args.buffer_size) {cmem : Memory}
    {c : CompressContext} (hcreate : create_context args cp cmem = .ok (.compress c))
    (return_bytearray : Bool) (dmem : Memory) {calls : List CompressCall}
    (hcoders : ∀ call ∈ calls, FailableSpec call.coder.fast ∧ FailableSpec call.coder.hc)
    (hok : HarmlessFailures (decide (args.mode = "high_compression")) args.buffer_size 0 0 0 0 c
      calls)
    (fastLoop : Bool) (scratch : Nat → Scratch) :
    ∃ d, create_context (decompressArgs args return_bytearray) dp dmem = .ok (.decompress d) ∧
      receive fastLoop scratch 0 d (runCalls c calls).1 =
        .ok ((runCalls c calls).1.map Prod.fst) := by
  obtain ⟨d, hd, hsynced⟩ := create_context_synced hB cp dp hcreate return_bytearray dmem
  exact ⟨d, hd, (DirtySynced.of_synced hsynced).receive_runCalls hcoders hok fastLoop scratch 0⟩

/-- The library failing on everything. -/
def failingEncoder : Encoder := fun _ _ _ _ => []

theorem failingEncoder_spec : FailableSpec failingEncoder where
  length _ _ _ _ _ _ hne := absurd rfl hne
  decodes _ _ _ _ hne := absurd rfl hne

/-- A source that is too long, two the library fails on, and two that are sent. -/
def failingCalls : List CompressCall :=
  [⟨⟨literalEncoder, literalEncoder⟩, List.replicate 17 0, true⟩,
    ⟨⟨failingEncoder, failingEncoder⟩, [7, 8], true⟩,
    ⟨⟨literalEncoder, literalEncoder⟩, [1, 2, 3], true⟩,
    ⟨⟨failingEncoder, failingEncoder⟩, [9], true⟩,
    ⟨⟨literalEncoder, literalEncoder⟩, [4], true⟩]

theorem failed_calls_roundtrip_five :
    ∃ c d, create_context smallArgs lowPlacement (fun _ => 0) = .ok (.compress c) ∧
      create_context (decompressArgs smallArgs false) lowPlacement (fun _ => 0) =
        .ok (.decompress d) ∧
      receive true (fun _ => ⟨fun _ => 255, fun _ => 255⟩) 0 d (runCalls c failingCalls).1 =
        .ok [[1, 2, 3], [4]] := by
  have hcreate : create_context smallArgs lowPlacement (fun _ => 0) =
      .ok (.compress (compressContext smallArgs lowPlacement (fun _ => 0) .DEFAULT)) := rfl
  have hliteral : FailableSpec literalEncoder := .of_spec literalEncoder_spec
  obtain ⟨d, hd, hreceive⟩ := @failed_calls_roundtrip smallArgs (by decide) lowPlacement
    lowPlacement (fun _ => 0) _ hcreate false (fun _ => 0) failingCalls
    (by
      simp only [failingCalls, List.forall_mem_cons]
      exact ⟨⟨hliteral, hliteral⟩, ⟨failingEncoder_spec, failingEncoder_spec⟩,
        ⟨hliteral, hliteral⟩, ⟨failingEncoder_spec, failingEncoder_spec⟩, ⟨hliteral, hliteral⟩,
        by simp⟩)
    (by decide) true (fun _ => ⟨fun _ => 255, fun _ => 255⟩)
  exact ⟨_, d, hcreate, hd, hreceive⟩

/-! ## A result that cannot be allocated -/

/-- A chunk that is sent twice. -/
def sentTwice : List UInt8 := [1, 2, 3, 4, 5, 5, 5, 5, 5, 5, 5, 5, 5]

/-- The first four bytes of the chunk before, and nine literals. -/
def repeatBlock : List UInt8 := [0, 13, 0, 0x90, 5, 5, 5, 5, 5, 5, 5, 5, 5]

/-- An encoder that finds `repeatBlock` when the window is the chunk itself. -/
def repeatEncoder : Encoder := blockEncoder sentTwice sentTwice repeatBlock

theorem repeatEncoder_spec : EncoderSpec repeatEncoder :=
  @blockEncoder_spec sentTwice sentTwice repeatBlock (by decide) (by decide) fun cap hcap => by
    have h13 : 13 ≤ cap := hcap
    exact ⟨by omega, @decodes_oneMatch sentTwice [5, 5, 5, 5, 5, 5, 5, 5, 5] 1 2 3 4 13 rfl rfl cap
      h13⟩

/-- The object the first call returns cannot be allocated, and the call is made once more. The block
of the second call refers to the first one's chunk, and the decompressor refuses it. -/
theorem failed_calls_roundtrip_fails :
    FailableSpec repeatEncoder ∧
    ∃ c d stream error, create_context smallArgs lowPlacement (fun _ => 0) = .ok (.compress c) ∧
      create_context (decompressArgs smallArgs false) lowPlacement (fun _ => 0) =
        .ok (.decompress d) ∧
      (runCalls c [⟨⟨repeatEncoder, repeatEncoder⟩, sentTwice, false⟩,
        ⟨⟨repeatEncoder, repeatEncoder⟩, sentTwice, true⟩]).1 = [(sentTwice, stream)] ∧
      receive true (fun _ => ⟨fun _ => 255, fun _ => 255⟩) 0 d [(sentTwice, stream)] = .error error :=
  ⟨.of_spec repeatEncoder_spec, _, _, ⟨false, [13, 0, 0, 0] ++ repeatBlock⟩, _, rfl, rfl,
    by decide +kernel, rfl⟩

end PythonLz4.Stream.CompressFailures
