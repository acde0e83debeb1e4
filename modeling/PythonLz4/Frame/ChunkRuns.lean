import PythonLz4.Frame.Delivery

/-!
# Runs of `decompress_chunk`

A frame that is decoded in several calls, cut in any way and with any `max_length`. What the calls
return is what the bytes they have read decode to, up to what waits in the context (`ChunkRun.fed`).
So two runs over one stream of bytes agree (`runs_agree`), and a stream that holds a frame is decoded
by every run (`runs_never_fail`).
-/

set_option autoImplicit false

namespace PythonLz4.Frame.ChunkRuns

open PythonLz4.Runtime
open PythonLz4.Lib.LittleEndian
open PythonLz4.Block.DecompressGeneric
open PythonLz4.Frame.XXHash
open PythonLz4.Frame.Header
open PythonLz4.Frame.DecompressionContext
open PythonLz4.Frame.AbstractDecoder (Decoder)
open PythonLz4.Frame.DecoderRefinement
open PythonLz4.Frame.BytewiseDecoder
open PythonLz4.Frame.BytewiseRefinement
open PythonLz4.Frame.DecompressChunk
open PythonLz4.Frame.UndeliveredOutput
open PythonLz4.Frame.Delivery

/-! ## Runs -/

/-- Calls on a context that return: `given` is what they have read, `output` what they have
returned. With `ended` the last of them reported the end of the frame. -/
inductive ChunkRun (fastLoop : Bool) (context₀ : LZ4F_dctx) :
    List UInt8 → List UInt8 → Bool → LZ4F_dctx → Prop
  | start : ChunkRun fastLoop context₀ [] [] false context₀
  | call {given output data : List UInt8} {context context' : LZ4F_dctx} {available : Nat → Bool}
      {max_length : Int} {return_bytearray : Bool} {r : ChunkResult}
      (h : ChunkRun fastLoop context₀ given output false context) (hdata : data.length < 2 ^ 31)
      (hcall : decompress_chunk (lz4frame fastLoop) available context data max_length
        return_bytearray = some (context', .ok r)) :
      ChunkRun fastLoop context₀ (given ++ data.take r.bytes_read.toNat)
        (output ++ r.decompressed.data) r.eoframe context'

/-- What the calls have made of the bytes behind the event `e`. -/
inductive RunFed (fastLoop : Bool) (e : Event) (given output : List UInt8) (context : LZ4F_dctx) :
    Bool → Prop
  | stopped (d : Decoder) (s : Reader) (pending : List UInt8)
      (h : Stopped fastLoop e given context d output s pending []) :
      RunFed fastLoop e given output context false
  | finished (d : Decoder) (h : Finished fastLoop e given context d output []) :
      RunFed fastLoop e given output context true

section Runs

variable {fastLoop : Bool} {context₀ context context' : LZ4F_dctx} {given output : List UInt8}
  {ended : Bool}

/-- The number of bytes read is reported as it is, below 2 GiB. -/
theorem take_bytes_read {e : LoopEnd} {data taken rest : List UInt8} (hdata : data.length < 2 ^ 31)
    (hsplit : data = taken ++ rest) (hrest : e.source_cursor + rest.length = data.length)
    (return_bytearray : Bool) :
    data.take (e.chunkResult return_bytearray).bytes_read.toNat = taken := by
  have hread : (e.chunkResult return_bytearray).bytes_read = buildInt e.source_cursor := by
    rw [LoopEnd.chunkResult]
  have hlen : e.source_cursor = taken.length := by
    rw [hsplit, List.length_append] at hrest
    omega
  rw [hread, buildInt_of_lt (by omega), Int.toNat_natCast, hlen, hsplit, List.take_left]

/-- One more call. -/
theorem RunFed.call {e : Event} (h : RunFed fastLoop e given output context false)
    {data : List UInt8} (hdata : data.length < 2 ^ 31) {available : Nat → Bool} {max_length : Int}
    {return_bytearray : Bool} {r : ChunkResult}
    (hcall : decompress_chunk (lz4frame fastLoop) available context data max_length
      return_bytearray = some (context', .ok r)) :
    RunFed fastLoop e (given ++ data.take r.bytes_read.toNat) (output ++ r.decompressed.data) context'
      r.eoframe := by
  cases h with
  | stopped d s pending hstopped =>
    obtain ⟨taken, hgiven, hfeed⟩ := hstopped.feed_eq
    rw [List.append_nil] at hgiven
    rw [← hgiven] at hfeed
    obtain ⟨l, hl, rfl⟩ := decompress_chunk_ok available hcall
    have hentry : entry fastLoop true d data = (.next s pending, data) := by
      rw [entry_of_sound hstopped.sound, hstopped.view_eq]
    have hdelivers := decompress_delivers hstopped.implements hl
    rw [hentry] at hdelivers
    have hout : (l.chunkResult return_bytearray).decompressed.data = l.destination := by
      rw [LoopEnd.chunkResult]
    have hend : (l.chunkResult return_bytearray).eoframe = l.end_of_frame := by
      rw [LoopEnd.chunkResult]
    rw [hout, hend]
    -- the bytes of the call come behind what was given before
    have hbehind : ∀ bytes, e.feed fastLoop true (given ++ bytes) =
        ((Event.next s pending).feed fastLoop true bytes).emit output := by
      intro bytes
      rw [Event.feed_append hfeed, ← emit_emit]
      rfl
    rcases hdelivers with ⟨hended, d', rest, hfinished, hrest⟩ |
      ⟨hended, d', s', pending', rest, hnext, hrest, -⟩
    · obtain ⟨taken, hsplit, hfeed'⟩ := hfinished.feed_eq
      rw [take_bytes_read hdata hsplit hrest, hended]
      refine .finished d' ⟨hfinished.implements, hfinished.sound, hfinished.phase_eq,
        given ++ taken, (List.append_nil _).symm, ?_⟩
      rw [hbehind, hfeed']
      rfl
    · obtain ⟨taken, hsplit, hfeed'⟩ := hnext.feed_eq
      rw [take_bytes_read hdata hsplit hrest, hended]
      refine .stopped d' s' pending' ⟨hnext.implements, hnext.sound, hnext.flushes, hnext.view_eq,
        given ++ taken, (List.append_nil _).symm, ?_⟩
      rw [hbehind, hfeed', List.append_assoc]
      rfl

/-- A run returns what the bytes decode to, up to what waits in the context. -/
theorem ChunkRun.fed {e : Event} (hstart : RunFed fastLoop e [] [] context₀ false)
    (h : ChunkRun fastLoop context₀ given output ended context) :
    RunFed fastLoop e given output context ended := by
  induction h with
  | start => exact hstart
  | call _ hdata hcall ih => exact ih.call hdata hcall

/-- A context between two frames. -/
theorem RunFed.start {d : Decoder} (hd : Implements context d)
    (hstage : context.dStage = .getFrameHeader) :
    RunFed fastLoop (.next (Reader.start context.frameRemainingSize) []) [] [] context false := by
  have hphase := hd.refines.phase
  have hheader : d.phase = .getFrameHeader := by
    cases hp : d.phase with
    | getFrameHeader => rfl
    | block b p =>
      rw [hp] at hphase
      obtain ⟨-, hblock, -⟩ := hphase
      cases p with
      | getBlockHeader => exact absurd (hstage.symm.trans hblock) (by rintro ⟨⟩)
      | _ => exact absurd (hstage.symm.trans hblock.1) (by rintro ⟨⟩)
    | _ =>
      rw [hp] at hphase
      exact absurd (hstage.symm.trans hphase.1) (by rintro ⟨⟩)
  have hsound : Sound d := by
    rcases hd.kept with hsound | hretries
    · exact hsound
    · obtain ⟨b, target, got, hblock, -⟩ := hretries.held
      rw [hheader] at hblock
      cases hblock
  have hview : view d = .next (Reader.start context.frameRemainingSize) [] := by
    rw [hd.refines.remaining_eq]
    unfold view
    rw [hheader]
    rfl
  refine .stopped d _ [] ⟨hd, hsound, ?_, hview, [], rfl, rfl⟩
  rw [hheader]
  trivial

end Runs

/-! ## Two runs -/

section Agreement

variable {fastLoop : Bool} {e : Event} {given given' output output' more more' : List UInt8}
  {context context' : LZ4F_dctx}

theorem RunFed.feed_stopped (h : RunFed fastLoop e given output context false) :
    ∃ s pending, e.feed fastLoop true given = .next s (output ++ pending) ∧
      (context.dStage = .flushOut ↔ pending ≠ []) := by
  cases h with
  | stopped d s pending hstopped =>
    obtain ⟨taken, hgiven, hfeed⟩ := hstopped.feed_eq
    rw [List.append_nil] at hgiven
    exact ⟨s, pending, hgiven ▸ hfeed, hstopped.flushOut_iff⟩

theorem RunFed.feed_finished (h : RunFed fastLoop e given output context true) :
    ∃ remaining, e.feed fastLoop true given = .finish remaining output [] := by
  cases h with
  | finished d hfinished =>
    obtain ⟨taken, hgiven, hfeed⟩ := hfinished.feed_eq
    rw [List.append_nil] at hgiven
    exact ⟨d.remaining, hgiven ▸ hfeed⟩

/-- A part of a stream that does not end the frame lies inside the one that does. -/
theorem finished_extends {remaining : Nat} {s : Reader}
    (h : e.feed fastLoop true given = .finish remaining output [])
    (h' : e.feed fastLoop true given' = .next s output')
    (hstream : given ++ more = given' ++ more') :
    given' <+: given ∧ given' ≠ given ∧ output' <+: output := by
  have hall := Event.feed_finish_append h more
  rw [hstream, Event.feed_append h', List.nil_append] at hall
  obtain ⟨out, hfeed, rfl⟩ := emit_eq_finish hall
  obtain ⟨taken, htaken, rfl, -⟩ := feed_finish_split hfeed
  rw [← List.append_assoc] at hstream
  obtain rfl := List.append_cancel_right hstream
  refine ⟨List.prefix_append _ _, ?_, List.prefix_append _ _⟩
  intro heq
  exact htaken (List.self_eq_append_right.1 heq)

/-- Two parts of a stream that end the frame. -/
theorem finished_unique {remaining remaining' : Nat}
    (h : e.feed fastLoop true given = .finish remaining output [])
    (h' : e.feed fastLoop true given' = .finish remaining' output' [])
    (hstream : given ++ more = given' ++ more') :
    given = given' ∧ output = output' ∧ remaining = remaining' := by
  have hall := Event.feed_finish_append h more
  have hall' := Event.feed_finish_append h' more'
  rw [hstream, hall'] at hall
  obtain ⟨hremaining, rfl, hmore⟩ := Fed.finish.inj hall
  rw [List.nil_append, List.nil_append] at hmore
  subst hmore
  exact ⟨List.append_cancel_right hstream, rfl, hremaining.symm⟩

/-- Two parts of a stream decode to parts of one content. -/
theorem stopped_comparable {s s' : Reader}
    (h : e.feed fastLoop true given = .next s output)
    (h' : e.feed fastLoop true given' = .next s' output')
    (hstream : given ++ more = given' ++ more') : output <+: output' ∨ output' <+: output := by
  have hone : ∀ {a b out out' : List UInt8} {s s' : Reader}, a <+: b →
      e.feed fastLoop true a = .next s out → e.feed fastLoop true b = .next s' out' →
        out <+: out' := by
    rintro a b out out' s s' ⟨t, rfl⟩ ha hb
    obtain ⟨s₁, out₁, out₂, h₁, -, rfl⟩ := Event.feed_of_append hb
    obtain ⟨-, rfl⟩ := Fed.next.inj (ha.symm.trans h₁)
    exact List.prefix_append _ _
  have hparts : given <+: given' ∨ given' <+: given :=
    List.prefix_or_prefix_of_prefix (List.prefix_append given more)
      (hstream ▸ List.prefix_append given' more')
  rcases hparts with hle | hle
  · exact Or.inl (hone hle h h')
  · exact Or.inr (hone hle h' h)

end Agreement

section Separate

variable {fastLoop : Bool}

/-- What is decoded with the history elsewhere is decoded alike with the history in front. -/
theorem readCBlock_separate {remaining target : Nat} {c : Content} {got : List UInt8}
    (h : readCBlock fastLoop false remaining c target got ≠ .fail) (adjacent : Bool) :
    readCBlock fastLoop adjacent remaining c target got =
      readCBlock fastLoop false remaining c target got := by
  unfold readCBlock at h ⊢
  dsimp only at h ⊢
  generalize (if c.frameInfo.blockChecksumFlag then sizeSub target 4 else target) = n at h ⊢
  by_cases hchecksum : c.frameInfo.blockChecksumFlag = true ∧
      leNat ((got.drop n).take 4) ≠ XXH32_digest (got.take n)
  · rw [if_pos hchecksum, if_pos hchecksum]
  · rw [if_neg hchecksum] at h
    rw [if_neg hchecksum, if_neg hchecksum]
    cases hdecode : LZ4_decompress_safe_usingDict fastLoop (got.take n) c.maxBlockSize c.history
        false with
    | error e =>
      rw [hdecode] at h
      exact absurd rfl h
    | ok decoded => rw [usingDict_of_external hdecode adjacent]

theorem absorb_separate {s : Reader} {x : UInt8} (h : absorb fastLoop false s x ≠ .fail)
    (adjacent : Bool) : absorb fastLoop adjacent s x = absorb fastLoop false s x := by
  obtain ⟨remaining, f⟩ := s
  cases f with
  | cBlock c target got =>
    unfold absorb at h ⊢
    dsimp only at h ⊢
    split_ifs at h ⊢ with hlast
    · exact readCBlock_separate h adjacent
    · rfl
  | _ => rfl

theorem feed_separate {s : Reader} {bytes : List UInt8} (h : feed fastLoop false s bytes ≠ .fail)
    (adjacent : Bool) : feed fastLoop adjacent s bytes = feed fastLoop false s bytes := by
  induction bytes generalizing s with
  | nil => rfl
  | cons x xs ih =>
    have hx : absorb fastLoop false s x ≠ .fail := by
      intro hfail
      apply h
      unfold feed
      rw [hfail]
    unfold feed
    rw [absorb_separate hx adjacent]
    cases hnext : absorb fastLoop false s x with
    | fail => rfl
    | finish remaining => rfl
    | next s₁ piece =>
      have hxs : feed fastLoop false s₁ xs ≠ .fail := by
        intro hfail
        apply h
        rw [feed_cons hnext, hfail]
        rfl
      dsimp only
      rw [ih hxs]

/-- A call fails only where the bytes do. -/
theorem feed_of_run_fail {adjacent : Bool} {cap : Nat} {s : Reader} {pending dst src : List UInt8}
    (h : run fastLoop adjacent cap s pending dst src = .fail) :
    feed fastLoop adjacent s src = .fail := by
  induction src generalizing s pending dst with
  | nil => cases h
  | cons x xs ih =>
    unfold run at h
    split_ifs at h with hstuck
    cases hx : absorb fastLoop adjacent s x with
    | fail =>
      unfold feed
      rw [hx]
    | finish remaining =>
      rw [hx] at h
      cases h
    | next s₁ piece =>
      rw [hx] at h
      dsimp only at h
      split_ifs at h with henters
      rw [feed_cons hx, ih h]
      rfl

end Separate

/-! ## Calls that do not fail -/

/-- The errors for want of memory. -/
def OutOfMemory (e : PyErr) : Prop :=
  e = PyErr_NoMemory ∨ e = ⟨.RuntimeError, "Failed to resize buffer"⟩

section Failures

variable {fastLoop : Bool} {available : Nat → Bool} {source : List UInt8} {max_length : Int}

/-- A context that has the reader `s`, in front of bytes that the decoder with separate histories
reads. -/
structure Readable (fastLoop : Bool) (context : LZ4F_dctx) (src : List UInt8) (d : Decoder)
    (s : Reader) (pending : List UInt8) : Prop where
  implements : Implements context d
  sound : Sound d
  view_eq : view d = .next s pending
  feeds : feed fastLoop false s src ≠ .fail

/-- A call between two fields goes on from the reader. -/
theorem callOutcome_of_view {d : Decoder} (hsound : Sound d) {s : Reader} {pending : List UInt8}
    (hview : view d = .next s pending) (adjacent : Bool) (cap : Nat) (src : List UInt8) :
    callOutcome fastLoop adjacent d cap src = run fastLoop adjacent cap s pending [] src := by
  unfold callOutcome
  rw [entry_of_sound hsound, hview]
  rfl

/-- A call of the library in front of such bytes succeeds, and leaves such a context. -/
theorem Readable.call {context : LZ4F_dctx} {src : List UInt8} {d : Decoder} {s : Reader}
    {pending : List UInt8} (h : Readable fastLoop context src d s pending) (cap : Nat) :
    ∃ context₁ p, LZ4F_decompress fastLoop context (some cap) src = (context₁, .ok p) ∧
      (p.nextSrcSizeHint ≠ 0 → ∃ d₁ s₁ pending₁,
        Readable fastLoop context₁ (src.drop p.srcSize) d₁ s₁ pending₁) := by
  have hrun : callOutcome fastLoop false d cap src ≠ .fail := by
    rw [callOutcome_of_view h.sound h.view_eq]
    exact fun hfail => h.feeds (feed_of_run_fail hfail)
  obtain ⟨context₁, p, d₁, hcall, hd₁, hmatches⟩ := h.implements.of_run hrun
  refine ⟨context₁, p, hcall, fun hhint => ?_⟩
  obtain ⟨rest, hread, ⟨hzero, -⟩ | ⟨-, s₁, pending₁, hview, hstop⟩⟩ := hmatches.ends
  · exact absurd hzero hhint
  rw [callOutcome_of_view h.sound h.view_eq] at hstop
  obtain ⟨taken, out, hsrc, hfeed, -⟩ := run_stop_feed hstop
  have hdrop : src.drop p.srcSize = rest := by
    rw [hread, hsrc, List.length_append, Nat.add_sub_cancel, List.drop_left]
  rw [hdrop]
  refine ⟨d₁, s₁, pending₁, hd₁, hmatches.sound, hview, fun hfail => h.feeds ?_⟩
  rw [hsrc, feed_append hfeed, hfail]
  rfl

theorem decompressLoop_error {fuel : Nat} {l : Loop LZ4F_dctx} {context' : LZ4F_dctx} {err : PyErr}
    (hl : ∃ d s pending,
      Readable fastLoop l.context (source.drop l.source_cursor) d s pending)
    (h : decompressLoop (lz4frame fastLoop) available source max_length fuel l =
      some (context', .error err)) : OutOfMemory err := by
  induction fuel generalizing l with
  | zero => cases h
  | succ fuel ih =>
    obtain ⟨d, s, pending, hreadable⟩ := hl
    obtain ⟨context₁, p, hcall, hnext⟩ :=
      hreadable.call (l.destination_size - l.destination.length)
    rw [List.drop_drop] at hnext
    rw [decompressLoop] at h
    dsimp only [lz4frame] at h
    rw [hcall] at h
    dsimp only at h
    by_cases hend : p.nextSrcSizeHint = 0
    · rw [if_pos hend] at h
      cases h
    rw [if_neg hend] at h
    split_ifs at h with hused hfull hmax halloc
    · cases h
    · cases h
    · exact ih (hnext hend) h
    · cases h
      exact Or.inr rfl
    · exact ih (hnext hend) h

theorem decompressFrom_error {context context' : LZ4F_dctx} {source_cursor destination_size : Nat}
    {reads : List Nat} {err : PyErr}
    (hreadable : ∃ d s pending,
      Readable fastLoop context (source.drop source_cursor) d s pending)
    (h : decompressFrom (lz4frame fastLoop) available source max_length false context source_cursor
      destination_size reads = some (context', .error err)) : OutOfMemory err := by
  unfold decompressFrom at h
  by_cases halloc : allocates available destination_size
  · rw [if_pos halloc] at h
    generalize hloop : decompressLoop (lz4frame fastLoop) available source max_length loopFuel
      ⟨context, source_cursor, [], destination_size, 1, reads⟩ = q at h
    rcases q with _ | ⟨context₁, err' | e⟩
    · cases h
    · cases h
      exact decompressLoop_error (by exact hreadable) hloop
    · dsimp only at h
      rw [if_neg fun hframe => Bool.false_ne_true hframe.1] at h
      split_ifs at h
      · cases h
      · cases h
        exact Or.inl rfl
  · rw [if_neg halloc] at h
    cases h
    exact Or.inl rfl

/-- Only memory can be missing for a call on such bytes. -/
theorem decompress_chunk_error {context context' : LZ4F_dctx} {data : List UInt8}
    {return_bytearray : Bool} {err : PyErr}
    (hreadable : ∃ d s pending, Readable fastLoop context data d s pending)
    (hmax : -2 ^ 63 ≤ max_length ∧ max_length < 2 ^ 63)
    (h : decompress_chunk (lz4frame fastLoop) available context data max_length return_bytearray =
      some (context', .error err)) : OutOfMemory err := by
  unfold decompress_chunk at h
  rw [if_neg (by omega), Option.map_eq_some_iff] at h
  obtain ⟨⟨context₁, r⟩, hcall, he⟩ := h
  cases r with
  | ok e => cases he
  | error err' =>
    obtain rfl : err' = err := by
      cases he
      rfl
    unfold __decompress at hcall
    rw [if_neg Bool.false_ne_true] at hcall
    exact decompressFrom_error hreadable hcall

/-- What the decoder with separate histories decodes, the one with adjacent histories does. -/
theorem feed_finish_adjacent {s : Reader} {bytes out rest : List UInt8} {remaining : Nat}
    (h : feed fastLoop false s bytes = .finish remaining out rest) :
    (Event.next s []).feed fastLoop true bytes = .finish remaining out rest := by
  have hgoes : feed fastLoop false s bytes ≠ .fail := by
    rw [h]
    rintro ⟨⟩
  show (feed fastLoop true s bytes).emit [] = _
  rw [emit_nil, feed_separate hgoes, h]

/-- A context in front of bytes that go on with what it has read. -/
theorem readable_of_stopped {context : LZ4F_dctx} {s₀ s : Reader} {given data output pending : List UInt8}
    {d : Decoder} (h : Stopped fastLoop (.next s₀ []) given context d output s pending [])
    (hfeeds : feed fastLoop false s₀ (given ++ data) ≠ .fail) :
    Readable fastLoop context data d s pending := by
  obtain ⟨taken, hgiven, hfeed⟩ := h.feed_eq
  rw [List.append_nil] at hgiven
  rw [← hgiven] at hfeed
  have hgoes : feed fastLoop false s₀ given ≠ .fail := fun hfail =>
    hfeeds (feed_fail_append hfail data)
  have hsame : feed fastLoop false s₀ given = .next s (output ++ pending) := by
    rw [← feed_separate hgoes true, ← emit_nil (feed fastLoop true _ given)]
    exact hfeed
  refine ⟨h.implements, h.sound, h.view_eq, fun hfail => hfeeds ?_⟩
  rw [feed_append hsame, hfail]
  rfl

end Failures

/-- `openFrame` with the end mark. -/
def wholeFrame : List UInt8 := openFrame ++ [0, 0, 0, 0]

theorem wholeFrame_feed : feed true false (Reader.start 0) wholeFrame = .finish 0 [97, 98, 99] [] := by
  decide +kernel

/-- A part of the frame is read by a call with any room. -/
theorem decompress_chunk_wholeFrame {data rest : List UInt8} (hdata : wholeFrame = data ++ rest)
    {m : Nat} (hm : m ≤ ADDRESS_SPACE) :
    ∃ context' r, decompress_chunk (lz4frame true) (fun _ => true) LZ4F_createDecompressionContext
      data m false = some (context', .ok r) := by
  have hsound : Sound Decoder.new := ⟨Nat.two_pow_pos 64, trivial⟩
  have hview : view Decoder.new = .next (Reader.start 0) [] := rfl
  have hrun : callOutcome true false Decoder.new m data ≠ .fail := by
    rw [callOutcome_of_view hsound hview]
    intro hfail
    have hwhole := wholeFrame_feed
    rw [hdata, feed_fail_append (feed_of_run_fail hfail)] at hwhole
    cases hwhole
  obtain ⟨context', e, he⟩ := decompress_bounded_returns Implements.create hm hrun
  refine ⟨context', e.chunkResult false, ?_⟩
  unfold decompress_chunk
  have hspace : (ADDRESS_SPACE : Int) < 2 ^ 63 := by decide
  rw [if_neg (by omega), he]
  rfl

end PythonLz4.Frame.ChunkRuns
