import PythonLz4.Frame.ChunkRuns

/-!
# A stream of frames through one `LZ4FrameDecompressor`

A caller hands on a stream in pieces, with any `max_length`, and starts the call behind the end of a
frame with `unused_data`. `ahead` is what the object and the caller hold back of the stream. A frame
that ends with data behind it, in a call that began with data held back, leaves that data in
`_unconsumed_data`, and the next call reads it again (`read_once_iff`). Up to such a call the stream
is decoded, however it is cut (`stream_decodes`).
-/

set_option autoImplicit false

namespace PythonLz4.Frame.FrameStream

open PythonLz4.Runtime
open PythonLz4.Frame.Header
open PythonLz4.Frame.DecompressionContext
open PythonLz4.Frame.AbstractDecoder (Decoder)
open PythonLz4.Frame.CallBounds
open PythonLz4.Frame.BytewiseDecoder
open PythonLz4.Frame.BytewiseRefinement
open PythonLz4.Frame.DecompressChunk
open PythonLz4.Frame.UndeliveredOutput
open PythonLz4.Frame.Delivery
open PythonLz4.Frame.ChunkRuns

/-! ## The caller -/

/-- What the caller starts the next call with. -/
def left (object : LZ4FrameDecompressor LZ4F_dctx) : List UInt8 :=
  if object.eof then object.unused_data.getD [] else []

/-- What the next call reads before the next piece. -/
def ahead (object : LZ4FrameDecompressor LZ4F_dctx) : List UInt8 :=
  object.unconsumed_data ++ left object

/-- One call of the caller, with `piece` new: `r` is the result of `decompress_chunk` in it. -/
structure Call (fastLoop : Bool) (object : LZ4FrameDecompressor LZ4F_dctx) (piece : List UInt8)
    (r : ChunkResult) (object' : LZ4FrameDecompressor LZ4F_dctx) : Prop where
  length_lt : (ahead object ++ piece).length < 2 ^ 31
  returns : ∃ available max_length,
    decompress_chunk (lz4frame fastLoop) available object.context (ahead object ++ piece) max_length
        object.return_bytearray = some (object'.context, .ok r) ∧
      object.decompress (lz4frame fastLoop) available (left object ++ piece) max_length =
        some (object', .ok r.decompressed)

/-- The frame ends with data behind it, and data was held back before. -/
def Replays (object : LZ4FrameDecompressor LZ4F_dctx) (piece : List UInt8) (r : ChunkResult) :
    Prop :=
  r.eoframe = true ∧ r.bytes_read < (ahead object ++ piece).length ∧ object.unconsumed_data ≠ []

section Calls

variable {fastLoop : Bool} {object object' : LZ4FrameDecompressor LZ4F_dctx} {piece : List UInt8}
  {r : ChunkResult}

/-- What a call reads. -/
theorem Call.bytes_read (h : Call fastLoop object piece r object') {d : Decoder}
    (hd : Implements object.context d) :
    ∃ n : Nat, r.bytes_read = n ∧ n ≤ (ahead object ++ piece).length := by
  obtain ⟨available, max_length, hchunk, -⟩ := h.returns
  obtain ⟨e, -, -, hle, hiff⟩ := decompress_chunk_bytes_read available (lz4frame_lawful fastLoop)
    hd.bounds hchunk
  exact ⟨e.totalRead, hiff.2 (Nat.lt_of_le_of_lt hle h.length_lt), hle⟩

/-- What a call makes of the object. -/
theorem Call.object_eq (h : Call fastLoop object piece r object') {n : Nat}
    (hn : r.bytes_read = n) :
    object' = { ({ object with context := object'.context }).keep (ahead object ++ piece) n r.eoframe
      with eof := r.eoframe } := by
  obtain ⟨available, max_length, hchunk, hcall⟩ := h.returns
  obtain ⟨r', hchunk', -, hobject⟩ := object_decompress_chunk hcall
  rw [← List.append_assoc] at hchunk' hobject
  obtain ⟨-, hr⟩ := Prod.mk.inj (Option.some.inj (hchunk.symm.trans hchunk'))
  obtain rfl := Except.ok.inj hr
  rw [← hn]
  exact hobject

/-- What the caller is left with. -/
theorem Call.left_eq (h : Call fastLoop object piece r object') {n : Nat} (hn : r.bytes_read = n) :
    left object' = if r.eoframe then (ahead object ++ piece).drop n else [] := by
  rw [h.object_eq hn, keep_natCast]
  generalize ahead object ++ piece = data
  unfold left
  by_cases hlt : n < data.length
  · rw [if_pos hlt]
    cases r.eoframe <;> rfl
  · have hall : data.drop n = [] := List.drop_eq_nil_iff.2 (Nat.le_of_not_lt hlt)
    rw [if_neg hlt, hall]
    cases r.eoframe <;> rfl

/-- What the object holds back. -/
theorem Call.unconsumed_eq (h : Call fastLoop object piece r object') {n : Nat}
    (hn : r.bytes_read = n) :
    object'.unconsumed_data =
      if n < (ahead object ++ piece).length then
        if r.eoframe then object.unconsumed_data else (ahead object ++ piece).drop n
      else [] := by
  rw [h.object_eq hn, keep_natCast]
  split_ifs <;> rfl

/-- What the next call begins with. -/
theorem Call.ahead_eq (h : Call fastLoop object piece r object') {n : Nat}
    (hn : r.bytes_read = n) :
    ahead object' =
      (if r.eoframe = true ∧ n < (ahead object ++ piece).length then object.unconsumed_data
        else []) ++ (ahead object ++ piece).drop n := by
  show object'.unconsumed_data ++ left object' = _
  rw [h.unconsumed_eq hn, h.left_eq hn]
  generalize ahead object ++ piece = data
  by_cases hlt : n < data.length
  · cases r.eoframe with
    | true => rw [if_pos hlt, if_pos rfl, if_pos rfl, if_pos ⟨rfl, hlt⟩]
    | false =>
      rw [if_pos hlt, if_neg Bool.false_ne_true, if_neg Bool.false_ne_true,
        if_neg fun h => Bool.false_ne_true h.1, List.append_nil, List.nil_append]
  · have hall : data.drop n = [] := List.drop_eq_nil_iff.2 (Nat.le_of_not_lt hlt)
    have hnot : ¬ (r.eoframe = true ∧ n < data.length) := fun h => hlt h.2
    rw [if_neg hlt, if_neg hnot, hall, ite_self]

/-- After a call the rest of the stream comes next, unless the frame has ended with data behind it
in a call that began with data held back: then that data comes again. -/
theorem Call.read_once (h : Call fastLoop object piece r object') {d : Decoder}
    (hd : Implements object.context d) :
    ahead object ++ piece =
        (ahead object ++ piece).take r.bytes_read.toNat ++ ahead object' ↔
      ¬ Replays object piece r := by
  obtain ⟨n, hn, -⟩ := h.bytes_read hd
  rw [h.ahead_eq hn]
  unfold Replays
  rw [hn, Int.toNat_natCast, Int.ofNat_lt]
  generalize ahead object ++ piece = data
  have hdata : data.take n ++ data.drop n = data := List.take_append_drop n data
  by_cases hend : r.eoframe = true ∧ n < data.length
  · rw [if_pos hend]
    constructor
    · rintro heq ⟨-, -, hheld⟩
      have hlen := congrArg List.length (hdata.trans heq)
      rw [List.length_append, List.length_append, List.length_append] at hlen
      have hpos := List.length_pos_of_ne_nil hheld
      omega
    · intro hnot
      have hnil : object.unconsumed_data = [] := by
        by_contra hheld
        exact hnot ⟨hend.1, hend.2, hheld⟩
      rw [hnil, List.nil_append, hdata]
  · rw [if_neg hend, List.nil_append, hdata]
    exact ⟨fun _ hreplays => hend ⟨hreplays.1, hreplays.2.1⟩, fun _ => rfl⟩

end Calls

/-! ## The stream -/

/-- The frames of a stream, each with its content, that the decoder with separate histories decodes
one after another. -/
def Frames (fastLoop : Bool) : Nat → List (List UInt8 × List UInt8) → Prop
  | _, [] => True
  | remaining, (frame, content) :: frames =>
    ∃ remaining', feed fastLoop false (Reader.start remaining) frame =
      .finish remaining' content [] ∧ Frames fastLoop remaining' frames

/-- The calls of a caller who hands on a stream in pieces: `given` are the pieces so far, `read` the
bytes that were read, `contents` the outputs of the frames that have ended, `output` that of the
current one. No call replays. -/
inductive StreamRun (fastLoop : Bool) :
    List UInt8 → List UInt8 → List (List UInt8) → List UInt8 → LZ4FrameDecompressor LZ4F_dctx → Prop
  | init (return_bytearray : Bool) : StreamRun fastLoop [] [] [] []
      (LZ4FrameDecompressor.init (lz4frame fastLoop) return_bytearray)
  | call {given read output piece : List UInt8} {contents : List (List UInt8)}
      {object object' : LZ4FrameDecompressor LZ4F_dctx} {r : ChunkResult}
      (h : StreamRun fastLoop given read contents output object)
      (hcall : Call fastLoop object piece r object') (honce : ¬ Replays object piece r) :
      StreamRun fastLoop (given ++ piece)
        (read ++ (ahead object ++ piece).take r.bytes_read.toNat)
        (if r.eoframe then contents ++ [output ++ r.decompressed.data] else contents)
        (if r.eoframe then [] else output ++ r.decompressed.data) object'

/-- The object is inside the first of `frames`, with `unread` of the stream to come. -/
def Inside (fastLoop : Bool) (context : LZ4F_dctx) (output unread : List UInt8)
    (frames : List (List UInt8 × List UInt8)) : Prop :=
  ∃ remaining current, Frames fastLoop remaining frames ∧
    RunFed fastLoop (.next (Reader.start remaining) []) current output context false ∧
    current ++ unread = (frames.map Prod.fst).flatten

section Streams

variable {fastLoop : Bool} {context context' : LZ4F_dctx} {output unread data : List UInt8}
  {frames : List (List UInt8 × List UInt8)}

/-- A call inside a frame stays there or ends the frame. -/
theorem Inside.call (h : Inside fastLoop context output (data ++ unread) frames)
    (hdata : data.length < 2 ^ 31) {available : Nat → Bool} {max_length : Int}
    {return_bytearray : Bool} {r : ChunkResult}
    (hcall : decompress_chunk (lz4frame fastLoop) available context data max_length
      return_bytearray = some (context', .ok r)) :
    (r.eoframe = false ∧ Inside fastLoop context' (output ++ r.decompressed.data)
      (data.drop r.bytes_read.toNat ++ unread) frames) ∨
    (r.eoframe = true ∧ ∃ frame rest, frames = (frame, output ++ r.decompressed.data) :: rest ∧
      Inside fastLoop context' [] (data.drop r.bytes_read.toNat ++ unread) rest) := by
  obtain ⟨remaining, current, hframes, hfed, hunread⟩ := h
  have hnext := hfed.call hdata hcall
  have hsplit : current ++ data.take r.bytes_read.toNat ++ (data.drop r.bytes_read.toNat ++ unread) =
      (frames.map Prod.fst).flatten := by
    rw [List.append_assoc, ← List.append_assoc (data.take _), List.take_append_drop, hunread]
  cases hend : r.eoframe with
  | false =>
    rw [hend] at hnext
    exact Or.inl ⟨rfl, remaining, _, hframes, hnext, hsplit⟩
  | true =>
    rw [hend] at hnext
    refine Or.inr ⟨rfl, ?_⟩
    cases hnext with
    | finished d hfinished =>
      obtain ⟨taken, hgiven, hfeed⟩ := hfinished.feed_eq
      rw [List.append_nil] at hgiven
      rw [← hgiven] at hfeed
      cases frames with
      | nil =>
        have hnil := (List.append_eq_nil_iff.1 hsplit).1
        rw [hnil] at hfeed
        cases hfeed
      | cons first rest =>
        obtain ⟨frame, content⟩ := first
        obtain ⟨remaining', hframe, hrest⟩ := hframes
        rw [List.map_cons, List.flatten_cons] at hsplit
        obtain ⟨hgiven', hcontent, hremaining⟩ :=
          finished_unique hfeed (feed_finish_adjacent hframe) hsplit
        rw [hgiven'] at hsplit
        have hphase := hfinished.implements.refines.phase
        rw [hfinished.phase_eq] at hphase
        have hstart := @RunFed.start fastLoop _ _ hfinished.implements hphase.1
        rw [hfinished.implements.refines.remaining_eq, hremaining] at hstart
        refine ⟨frame, rest, by rw [hcontent], remaining', [], hrest, hstart, ?_⟩
        exact List.append_cancel_left hsplit

/-- Inside a frame only memory can be missing. -/
theorem Inside.error (h : Inside fastLoop context output (data ++ unread) frames)
    {available : Nat → Bool} {max_length : Int} {return_bytearray : Bool} {err : PyErr}
    (hmax : -2 ^ 63 ≤ max_length ∧ max_length < 2 ^ 63)
    (hcall : decompress_chunk (lz4frame fastLoop) available context data max_length
      return_bytearray = some (context', .error err)) : OutOfMemory err := by
  obtain ⟨remaining, current, hframes, hfed, hunread⟩ := h
  cases hfed with
  | stopped d s pending hstopped =>
    have hfeeds : feed fastLoop false (Reader.start remaining) (current ++ data) ≠ .fail := by
      rw [← List.append_assoc] at hunread
      intro hfail
      cases frames with
      | nil =>
        rw [(List.append_eq_nil_iff.1 hunread).1] at hfail
        cases hfail
      | cons first rest =>
        obtain ⟨frame, content⟩ := first
        obtain ⟨remaining', hframe, -⟩ := hframes
        have hall := feed_finish_append hframe (rest.map Prod.fst).flatten
        rw [List.map_cons, List.flatten_cons] at hunread
        rw [← hunread, feed_fail_append hfail] at hall
        cases hall
    exact decompress_chunk_error ⟨d, s, pending, readable_of_stopped hstopped hfeeds⟩ hmax hcall

/-- With nothing left to read all frames have ended. -/
theorem Inside.done (h : Inside fastLoop context output [] frames) : frames = [] ∧ output = [] := by
  obtain ⟨remaining, current, hframes, hfed, hunread⟩ := h
  obtain ⟨s, pending, hfeed, -⟩ := hfed.feed_stopped
  rw [List.append_nil] at hunread
  subst hunread
  cases frames with
  | nil =>
    obtain ⟨-, hout⟩ := Fed.next.inj hfeed
    exact ⟨rfl, (List.append_eq_nil_iff.1 hout.symm).1⟩
  | cons first rest =>
    obtain ⟨frame, content⟩ := first
    obtain ⟨remaining', hframe, -⟩ := hframes
    have hall := Event.feed_finish_append (feed_finish_adjacent hframe) (rest.map Prod.fst).flatten
    rw [List.map_cons, List.flatten_cons] at hfeed
    rw [hall] at hfeed
    cases hfeed

/-- What is out of the current frame is a part of its content. -/
theorem Inside.output_prefix (h : Inside fastLoop context output unread frames) :
    output <+: (frames.map Prod.snd).head?.getD [] := by
  obtain ⟨remaining, current, hframes, hfed, hunread⟩ := h
  obtain ⟨s, pending, hfeed, -⟩ := hfed.feed_stopped
  cases frames with
  | nil =>
    rw [(List.append_eq_nil_iff.1 hunread).1] at hfeed
    obtain ⟨-, hout⟩ := Fed.next.inj hfeed
    rw [(List.append_eq_nil_iff.1 hout.symm).1]
    exact List.nil_prefix
  | cons first rest =>
    obtain ⟨frame, content⟩ := first
    obtain ⟨remaining', hframe, -⟩ := hframes
    rw [List.map_cons, List.flatten_cons] at hunread
    obtain ⟨-, -, hout⟩ := finished_extends (feed_finish_adjacent hframe) hfeed hunread.symm
    exact (List.prefix_append output pending).trans hout

theorem StreamRun.reached {given read output : List UInt8} {contents : List (List UInt8)}
    {object : LZ4FrameDecompressor LZ4F_dctx}
    (h : StreamRun fastLoop given read contents output object) : ObjectReached fastLoop object := by
  induction h with
  | init return_bytearray => exact .init return_bytearray
  | call _ hcall _ ih =>
    obtain ⟨_, _, _, hdecompress⟩ := hcall.returns
    exact .decompress ih hdecompress

/-- The bytes of the pieces are read once, in their order. -/
theorem StreamRun.given_eq {given read output : List UInt8} {contents : List (List UInt8)}
    {object : LZ4FrameDecompressor LZ4F_dctx}
    (h : StreamRun fastLoop given read contents output object) : given = read ++ ahead object := by
  induction h with
  | init return_bytearray => rfl
  | call h hcall honce ih =>
    obtain ⟨d, hd⟩ := h.reached.implements
    rw [ih, List.append_assoc, List.append_assoc]
    exact congrArg _ ((hcall.read_once hd).2 honce)

/-- The object has decoded a part of the stream. -/
theorem StreamRun.inside {given read : List UInt8} {contents : List (List UInt8)}
    {object : LZ4FrameDecompressor LZ4F_dctx} (hframes : Frames fastLoop 0 frames)
    (h : StreamRun fastLoop given read contents output object) {more : List UInt8}
    (hstream : given ++ more = (frames.map Prod.fst).flatten) :
    ∃ rest, frames.map Prod.snd = contents ++ rest.map Prod.snd ∧
      Inside fastLoop object.context output (ahead object ++ more) rest := by
  induction h generalizing more with
  | init return_bytearray =>
    have hstart := @RunFed.start fastLoop _ _ Implements.create rfl
    exact ⟨frames, rfl, 0, [], hframes, hstart, hstream⟩
  | @call given read output piece contents object object' r h hcall honce ih =>
    rw [List.append_assoc] at hstream
    obtain ⟨rest, hcontents, hinside⟩ := ih hstream
    rw [← List.append_assoc] at hinside
    obtain ⟨d, hd⟩ := h.reached.implements
    have hahead : (ahead object ++ piece).drop r.bytes_read.toNat = ahead object' := by
      have hboth := List.take_append_drop r.bytes_read.toNat (ahead object ++ piece)
      exact List.append_cancel_left (hboth.trans ((hcall.read_once hd).2 honce))
    obtain ⟨available, max_length, hchunk, -⟩ := hcall.returns
    have hnext := hinside.call hcall.length_lt hchunk
    rw [hahead] at hnext
    rcases hnext with ⟨hend, hin⟩ | ⟨hend, frame, rest', rfl, hin⟩
    · rw [hend]
      exact ⟨rest, hcontents, hin⟩
    · rw [hend]
      refine ⟨rest', ?_, hin⟩
      rw [hcontents, List.map_cons, if_pos rfl, List.append_assoc]
      rfl

end Streams

/-- A call with `max_length` does what the decoder does byte by byte. -/
theorem call_of_run {fastLoop : Bool} {object : LZ4FrameDecompressor LZ4F_dctx} {d : Decoder}
    (hd : Implements object.context d) (hsound : Sound d) {s : Reader} {pending : List UInt8}
    (hview : view d = .next s pending) (piece : List UInt8) {m : Nat} (hm : m ≤ ADDRESS_SPACE)
    (hlen : (ahead object ++ piece).length < 2 ^ 31)
    (hgoes : run fastLoop false m s pending [] (ahead object ++ piece) ≠ .fail) :
    ∃ r object', Call fastLoop object piece r object' ∧
      (∀ s' pending' dst rest,
        run fastLoop true m s pending [] (ahead object ++ piece) = .stop s' pending' dst rest →
          r.eoframe = false ∧ r.bytes_read = ((ahead object ++ piece).length - rest.length : Nat) ∧
            ∃ d', Implements object'.context d' ∧ Sound d' ∧ view d' = .next s' pending') ∧
      (∀ remaining dst rest,
        run fastLoop true m s pending [] (ahead object ++ piece) = .finish remaining dst rest →
          r.eoframe = true ∧ r.bytes_read = ((ahead object ++ piece).length - rest.length : Nat)) := by
  have hdata : object.unconsumed_data ++ (left object ++ piece) = ahead object ++ piece :=
    (List.append_assoc _ _ _).symm
  have hrun := @callOutcome_of_view fastLoop d hsound s pending hview
  obtain ⟨context', e, he⟩ := decompress_bounded_returns hd hm
    (show callOutcome fastLoop false d m (ahead object ++ piece) ≠ .fail from
      (hrun false m _).symm ▸ hgoes)
  obtain ⟨r, hchunk, hread, hend⟩ : ∃ r, decompress_chunk (lz4frame fastLoop) (fun _ => true)
      object.context (ahead object ++ piece) m object.return_bytearray = some (context', .ok r) ∧
        r.bytes_read = buildInt e.source_cursor ∧ r.eoframe = e.end_of_frame := by
    have hspace : (ADDRESS_SPACE : Int) < 2 ^ 63 := by decide
    refine ⟨e.chunkResult object.return_bytearray, ?_, ?_, ?_⟩
    · unfold decompress_chunk
      rw [if_neg (by omega), he]
      rfl
    · rw [LoopEnd.chunkResult]
    · rw [LoopEnd.chunkResult]
  have hcall := @object_decompress_of_chunk fastLoop (fun _ => true) object (left object ++ piece) m
    context' r (by rw [hdata]; exact hchunk)
  rw [hdata] at hcall
  refine ⟨r, _, ⟨hlen, fun _ => true, m, ?_, hcall⟩, ?_⟩
  · dsimp only
    rw [keep_context]
    exact hchunk
  dsimp only
  rw [keep_context]
  obtain ⟨p, hp, hcursor, -, hhint⟩ := decompress_bounded hd.bounds he
  obtain ⟨d', hd', hmatches⟩ := hd.accepts hp
  have hends := hmatches.ends
  rw [hrun] at hends
  obtain ⟨rest, hsize, hcases⟩ := hends
  rw [hread, hend, hcursor, hsize, buildInt_of_lt (by omega)]
  constructor
  · intro s' pending' dst rest' hstop
    rcases hcases with ⟨-, -, hfinish⟩ | ⟨hne, s₁, pending₁, hview₁, hstop₁⟩
    · rw [hstop] at hfinish
      cases hfinish
    · rw [hstop] at hstop₁
      obtain ⟨rfl, rfl, -, rfl⟩ := Outcome.stop.inj hstop₁
      exact ⟨Bool.eq_false_of_not_eq_true fun htrue => hne (hhint.1 htrue), rfl, d', hd',
        hmatches.sound, hview₁⟩
  · intro remaining dst rest' hfinish
    rcases hcases with ⟨hzero, -, hfinish₁⟩ | ⟨-, s₁, pending₁, -, hstop₁⟩
    · rw [hfinish] at hfinish₁
      obtain ⟨-, -, rfl⟩ := Outcome.finish.inj hfinish₁
      exact ⟨hhint.2 hzero, rfl⟩
    · rw [hfinish] at hstop₁
      cases hstop₁

/-- Two frames, one behind the other. -/
def twoFrames : List UInt8 := wholeFrame ++ wholeFrame

theorem twoFrames_first :
    ∀ adjacent, run true adjacent 1 (Reader.start 0) [] [] twoFrames =
      .stop openReader [98, 99] [97] ([0, 0, 0, 0] ++ wholeFrame) := by
  decide +kernel

theorem twoFrames_second :
    ∀ adjacent, run true adjacent 2 openReader [98, 99] [] ([0, 0, 0, 0] ++ wholeFrame) =
      .finish 0 [98, 99] wholeFrame := by
  decide +kernel

end PythonLz4.Frame.FrameStream
