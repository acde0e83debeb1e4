import PythonLz4.Frame.BytewiseRefinement
import PythonLz4.Frame.DecompressChunk

/-!
# Output that stays in the context

A call that has read all of its input may leave decoded content in the context: the library decodes
a block as soon as it is complete, and gives out as much of it as there is room for. With
`max_length` given, `LZ4FrameDecompressor` then asks for input (`needs_input_spec`); without it,
`decompress_chunk` returns before its destination is enlarged (`delivery_spec`). Both happen for
the inputs whose last byte takes the content across the room there is.
-/

set_option autoImplicit false

namespace PythonLz4.Frame.UndeliveredOutput

open PythonLz4.Runtime
open PythonLz4.Frame.Header
open PythonLz4.Frame.DecompressionContext
open PythonLz4.Frame.AbstractDecoder (Decoder)
open PythonLz4.Frame.DecoderRefinement
open PythonLz4.Frame.CallBounds
open PythonLz4.Frame.BytewiseDecoder
open PythonLz4.Frame.BytewiseRefinement
open PythonLz4.Frame.DecompressChunk

/-! ## One call of the library -/

/-- All of the input is read by a call with room for `cap` bytes, and output stays behind: there is
none to read, or the content fits without the last byte and not with it, or there is no room and
the input ends with a block that an earlier call has entered. -/
def LeavesOutput (fastLoop : Bool) (e : Event) (src : List UInt8) (cap : Nat) : Prop :=
  ∃ s out, e.feed fastLoop true src = .next s out ∧ cap < out.length ∧
    (src = [] ∨
      (∃ s₁ out₁, e.feed fastLoop true src.dropLast = .next s₁ out₁ ∧ out₁.length < cap) ∨
      (cap = 0 ∧ ∃ s₀ pending, e = .next s₀ pending ∧ s₀.field.inCBlock = true ∧
        src.length = s₀.field.missing))

section Calls

variable {fastLoop : Bool} {cap : Nat} {e : Event} {s : Reader}
  {src pending dst rest : List UInt8}

theorem leavesOutput_of_stop (he : e.Ready)
    (h : resume fastLoop true cap e [] src = .stop s pending dst []) (hpending : pending ≠ []) :
    LeavesOutput fastLoop e src cap := by
  obtain ⟨taken, out, hsrc, hfeed, hout⟩ := resume_stop_feed h
  rw [List.append_nil] at hsrc
  subst hsrc
  have hfull : dst.length = cap := (resume_stop_full h (Nat.zero_le _)).2 (Or.inr hpending)
  refine ⟨s, out, hfeed, ?_, ?_⟩
  · rw [show out = dst ++ pending from hout, List.length_append, hfull]
    exact Nat.lt_add_of_pos_right (List.length_pos_of_ne_nil hpending)
  · by_cases hnil : src = []
    · exact Or.inl hnil
    refine Or.inr ?_
    rcases Nat.eq_zero_or_pos cap with rfl | hcap
    · -- without room only a block that was entered before can be completed
      cases e with
      | fail => cases h
      | finish => cases h
      | next s₀ pending₀ =>
        by_cases hin : s₀.field.inCBlock = true
        · obtain ⟨rfl, hpos⟩ := he s₀ pending₀ rfl hin
          exact Or.inr ⟨rfl, s₀, [], rfl, hin, (run_no_room hin hpos h).1 rfl hpending⟩
        · obtain ⟨s₁, out₁, -, hlt⟩ :=
            run_leaves_output h hnil hpending fun hyes => absurd hyes hin
          exact absurd hlt (Nat.not_lt_zero _)
    · exact Or.inl (resume_leaves_output he hcap h hnil hpending)

theorem stop_of_leavesOutput (he : e.Ready)
    (h : resume fastLoop true cap e [] src = .stop s pending dst rest)
    (hleaves : LeavesOutput fastLoop e src cap) : rest = [] ∧ pending ≠ [] := by
  obtain ⟨s', out, hfeed, hlt, hcases⟩ := hleaves
  obtain ⟨taken, out', hsrc, hfeed', hout⟩ := resume_stop_feed h
  obtain ⟨hle, hfull⟩ := resume_stop_full h (Nat.zero_le _)
  have hrest : rest = [] := by
    by_contra hrest
    rcases hcases with rfl | ⟨s₁, out₁, hfeed₁, hroom⟩ | ⟨rfl, s₀, pending₀, rfl, hin, hlen⟩
    · exact hrest (List.append_eq_nil_iff.1 hsrc.symm).2
    · have hlast : src.dropLast = taken ++ rest.dropLast := by
        rw [hsrc, List.dropLast_append_of_ne_nil hrest]
      rw [hlast] at hfeed₁
      have hmono := Event.feed_length_le hfeed' hfeed₁
      have hdst : dst.length = cap := hfull (Or.inl hrest)
      rw [show out' = dst ++ pending from hout, List.length_append] at hmono
      omega
    · obtain ⟨rfl, hpos⟩ := he s₀ pending₀ rfl hin
      exact hrest ((run_no_room hin hpos h).2 hlen)
  subst hrest
  rw [List.append_nil] at hsrc
  subst hsrc
  refine ⟨rfl, ?_⟩
  rintro rfl
  obtain ⟨-, rfl⟩ := Fed.next.inj (hfeed.symm.trans hfeed')
  rw [show out = dst from hout.trans (List.append_nil dst)] at hlt
  exact absurd hle (Nat.not_le.2 hlt)

end Calls

/-! ## Contexts of a decompressor -/

section Contexts

variable {fastLoop : Bool} {available : Nat → Bool} {source : List UInt8} {max_length : Int}
  {context context' : LZ4F_dctx}

theorem decompressLoop_implements {fuel : Nat} {l : Loop LZ4F_dctx} {r : Except PyErr LoopEnd}
    (hl : ∃ d, Implements l.context d)
    (h : decompressLoop (lz4frame fastLoop) available source max_length fuel l =
      some (context', r)) : ∃ d, Implements context' d := by
  induction fuel generalizing l with
  | zero => cases h
  | succ fuel ih =>
    obtain ⟨d, hd⟩ := hl
    have hcall := hd.decompress fastLoop (l.destination_size - l.destination.length)
      (source.drop l.source_cursor)
    rw [decompressLoop] at h
    dsimp only [lz4frame] at h
    generalize LZ4F_decompress fastLoop l.context
      (some (l.destination_size - l.destination.length)) (source.drop l.source_cursor) = q
      at h hcall
    obtain ⟨context₁, err | p⟩ := q
    · cases h
      exact ⟨_, hcall⟩
    dsimp only at h hcall
    split_ifs at h
    · cases h
      exact ⟨_, hcall⟩
    · cases h
      exact ⟨_, hcall⟩
    · cases h
      exact ⟨_, hcall⟩
    · exact ih ⟨_, hcall⟩ h
    · cases h
      exact ⟨_, hcall⟩
    · exact ih ⟨_, hcall⟩ h

theorem decompress_implements {r : Except PyErr LoopEnd} (hd : ∃ d, Implements context d)
    (h : __decompress (lz4frame fastLoop) available context source max_length false =
      some (context', r)) : ∃ d, Implements context' d := by
  unfold __decompress at h
  rw [if_neg Bool.false_ne_true] at h
  rcases decompressFrom_context h with rfl | ⟨r', hloop⟩
  · exact hd
  · exact decompressLoop_implements hd hloop

theorem decompress_chunk_implements {data : List UInt8} {return_bytearray : Bool}
    {r : Except PyErr ChunkResult} (hd : ∃ d, Implements context d)
    (h : decompress_chunk (lz4frame fastLoop) available context data max_length return_bytearray =
      some (context', r)) : ∃ d, Implements context' d := by
  unfold decompress_chunk at h
  split_ifs at h with hsize
  · cases h
    exact hd
  · rw [Option.map_eq_some_iff] at h
    obtain ⟨q, hq, he⟩ := h
    obtain ⟨rfl, -⟩ := Prod.mk.inj he
    exact decompress_implements hd hq

/-- A call without data writes what is pending, as far as there is room. -/
theorem decompress_pending {d : Decoder} (hd : Implements context d) (hsound : Sound d) {s : Reader}
    {pending : List UInt8} (hview : view d = .next s pending) {m : Nat} {e : LoopEnd}
    (h : __decompress (lz4frame fastLoop) available context [] m false =
      some (context', .ok e)) : e.destination = pending.take m := by
  obtain ⟨p, hcall, -, hdst, -⟩ := decompress_bounded hd.bounds h
  obtain ⟨d', -, hmatches⟩ := hd.accepts hcall
  have hrun : callOutcome fastLoop true d m [] = .stop s (pending.drop m) (pending.take m) [] := by
    unfold callOutcome
    rw [entry_of_sound hsound, hview]
    rfl
  obtain ⟨rest, -, ⟨-, -, hfinish⟩ | ⟨-, s', pending', -, hstop⟩⟩ := hmatches.ends
  · rw [hrun] at hfinish
    cases hfinish
  · rw [hrun] at hstop
    obtain ⟨-, -, hout, -⟩ := Outcome.stop.inj hstop
    rw [hdst, hout]

/-- A loop that is left after one call of the library. -/
theorem decompressLoop_once {l : Loop LZ4F_dctx} {context₁ : LZ4F_dctx} {p : Progress} {fuel : Nat}
    (hcall : LZ4F_decompress fastLoop l.context
      (some (l.destination_size - l.destination.length)) (source.drop l.source_cursor) =
        (context₁, .ok p))
    (hleave : p.nextSrcSizeHint = 0 ∨ l.source_cursor + p.srcSize = source.length ∨
      (0 ≤ max_length ∧ (l.destination ++ p.dst).length = l.destination_size)) :
    ∃ e, decompressLoop (lz4frame fastLoop) available source max_length (fuel + 1) l =
        some (context₁, .ok e) ∧ e.destination = l.destination ++ p.dst ∧
      e.end_of_frame = decide (p.nextSrcSizeHint = 0) := by
  rw [decompressLoop]
  dsimp only [lz4frame]
  rw [hcall]
  dsimp only
  by_cases hend : p.nextSrcSizeHint = 0
  · rw [if_pos hend]
    exact ⟨_, rfl, rfl, (decide_eq_true hend).symm⟩
  rw [if_neg hend]
  by_cases hused : l.source_cursor + p.srcSize = source.length
  · rw [if_pos hused]
    exact ⟨_, rfl, rfl, (decide_eq_false hend).symm⟩
  rw [if_neg hused]
  rcases hleave with hzero | hall | ⟨hpos, hfull⟩
  · exact absurd hzero hend
  · exact absurd hall hused
  · rw [if_pos hfull, if_pos hpos]
    exact ⟨_, rfl, rfl, (decide_eq_false hend).symm⟩

/-- A loop that returns, when there is memory. -/
theorem decompressFrom_returns_of_loop {destination_size : Nat} {e : LoopEnd}
    (hsize : destination_size ≤ ADDRESS_SPACE) (hdst : e.destination.length ≤ destination_size)
    (hloop : decompressLoop (lz4frame fastLoop) (fun _ => true) source max_length loopFuel
      ⟨context, 0, [], destination_size, 1, []⟩ = some (context', .ok e)) :
    decompressFrom (lz4frame fastLoop) (fun _ => true) source max_length false context 0
      destination_size [] = some (context', .ok e) := by
  unfold decompressFrom
  rw [if_pos ⟨hsize, rfl⟩, hloop]
  dsimp only
  rw [if_neg fun h => Bool.false_ne_true h.1,
    if_pos (show allocates (fun _ => true) e.destination.length from
      ⟨Nat.le_trans hdst hsize, rfl⟩)]

/-- A call with `max_length` returns when the decoder with separate histories goes on. -/
theorem decompress_bounded_returns {d : Decoder} (hd : Implements context d) {m : Nat}
    (hm : m ≤ ADDRESS_SPACE) (hrun : callOutcome fastLoop false d m source ≠ .fail) :
    ∃ context' e, __decompress (lz4frame fastLoop) (fun _ => true) context source m false =
      some (context', .ok e) := by
  obtain ⟨context₁, p, d', hcall, -, -⟩ := hd.of_run hrun
  have hspec := (LZ4F_decompress_spec fastLoop hd.bounds (some m) source).2
  rw [hcall] at hspec
  have hp := hspec p rfl
  have hpos : (0 : Int) ≤ m := Int.natCast_nonneg m
  have hleave : p.nextSrcSizeHint = 0 ∨ 0 + p.srcSize = source.length ∨
      ((0 : Int) ≤ m ∧ (([] : List UInt8) ++ p.dst).length = m) := by
    by_cases hend : p.nextSrcSizeHint = 0
    · exact Or.inl hend
    rcases hp.reason hend with hread | hfull
    · exact Or.inr (Or.inl ((Nat.zero_add _).trans hread))
    · exact Or.inr (Or.inr ⟨hpos, hfull⟩)
  obtain ⟨e, hloop, hdst, -⟩ := @decompressLoop_once fastLoop (fun _ => true) source m
    ⟨context, 0, [], m, 1, []⟩ context₁ p 11 hcall hleave
  refine ⟨context₁, e, ?_⟩
  unfold __decompress
  rw [if_neg Bool.false_ne_true, if_pos hpos, Int.toNat_natCast]
  exact decompressFrom_returns_of_loop hm (hdst ▸ hp.dst) hloop

/-- A call without `max_length` returns when the decoder with separate histories reads the input
into the first destination. -/
theorem decompress_unbounded_returns {d : Decoder} (hd : Implements context d)
    (hmax : max_length < 0) (hsize : 2 * source.length ≤ ADDRESS_SPACE) {s : Reader}
    {pending dst : List UInt8}
    (hrun : callOutcome fastLoop false d (2 * source.length) source = .stop s pending dst []) :
    ∃ context' e, __decompress (lz4frame fastLoop) (fun _ => true) context source max_length false =
      some (context', .ok e) ∧ e.end_of_frame = false := by
  have hgoes : callOutcome fastLoop false d (2 * source.length) source ≠ .fail := by
    rw [hrun]
    rintro ⟨⟩
  obtain ⟨context₁, p, d', hcall, -, hmatches⟩ := hd.of_run hgoes
  have hspec := (LZ4F_decompress_spec fastLoop hd.bounds (some (2 * source.length)) source).2
  rw [hcall] at hspec
  obtain ⟨rest, hread, ⟨-, -, hfinish⟩ | ⟨hhint, s', pending', -, hstop⟩⟩ := hmatches.ends
  · rw [hrun] at hfinish
    cases hfinish
  rw [hrun] at hstop
  obtain ⟨-, -, -, rfl⟩ := Outcome.stop.inj hstop
  obtain ⟨e, hloop, hdst, hend⟩ := @decompressLoop_once fastLoop (fun _ => true) source max_length
    ⟨context, 0, [], 2 * source.length, 1, []⟩ context₁ p 11 hcall
    (Or.inr (Or.inl ((Nat.zero_add _).trans hread)))
  refine ⟨context₁, e, ?_, hend.trans (decide_eq_false hhint)⟩
  unfold __decompress
  rw [if_neg Bool.false_ne_true, if_neg (Int.not_le.2 hmax)]
  exact decompressFrom_returns_of_loop hsize (hdst ▸ (hspec p rfl).dst) hloop

end Contexts

/-! ## Needing input -/

/-- An object that calls have led to, also calls that raised. -/
inductive ObjectReached (fastLoop : Bool) : LZ4FrameDecompressor LZ4F_dctx → Prop
  | init (return_bytearray : Bool) :
      ObjectReached fastLoop (LZ4FrameDecompressor.init (lz4frame fastLoop) return_bytearray)
  | reset {self : LZ4FrameDecompressor LZ4F_dctx} (h : ObjectReached fastLoop self) :
      ObjectReached fastLoop (self.reset (lz4frame fastLoop))
  | decompress {self self' : LZ4FrameDecompressor LZ4F_dctx} {available : Nat → Bool}
      {data : List UInt8} {max_length : Int} {r : Except PyErr PyBytes}
      (h : ObjectReached fastLoop self)
      (hcall : self.decompress (lz4frame fastLoop) available data max_length = some (self', r)) :
      ObjectReached fastLoop self'

/-- A later call without data returns at least one byte. -/
def OutputAvailable (fastLoop : Bool) (self : LZ4FrameDecompressor LZ4F_dctx) : Prop :=
  ∃ (available : Nat → Bool) (m : Nat) (self' : LZ4FrameDecompressor LZ4F_dctx) (out : PyBytes),
    self.decompress (lz4frame fastLoop) available [] m = some (self', .ok out) ∧ out.data ≠ []

/-- `needs_input` says that no output can be had without input. -/
def NeedsInputIsRight (fastLoop : Bool) (self : LZ4FrameDecompressor LZ4F_dctx) : Prop :=
  (OutputAvailable fastLoop self → self.needs_input = false) ∧
    (self.needs_input = true → ¬ OutputAvailable fastLoop self)

section Objects

variable {fastLoop : Bool} {available : Nat → Bool} {self self' : LZ4FrameDecompressor LZ4F_dctx}
  {data : List UInt8} {max_length : Int}

theorem keep_context (data : List UInt8) (n : Int) (eoframe : Bool) :
    (self.keep data n eoframe).context = self.context := by
  unfold LZ4FrameDecompressor.keep
  split_ifs <;> rfl

theorem keep_of_lt {n : Int} (h : n < data.length) :
    (self.keep data n false).needs_input = false := by
  unfold LZ4FrameDecompressor.keep
  rw [if_pos h]
  rfl

theorem keep_of_not_lt {n : Int} (h : ¬ n < data.length) (eoframe : Bool) :
    (self.keep data n eoframe).needs_input = true ∧
      (self.keep data n eoframe).unconsumed_data = [] := by
  unfold LZ4FrameDecompressor.keep
  rw [if_neg h]
  exact ⟨rfl, rfl⟩

theorem object_decompress_context {r : Except PyErr PyBytes}
    (h : self.decompress (lz4frame fastLoop) available data max_length = some (self', r)) :
    ∃ r', decompress_chunk (lz4frame fastLoop) available self.context
      (self.unconsumed_data ++ data) max_length self.return_bytearray = some (self'.context, r') := by
  unfold LZ4FrameDecompressor.decompress at h
  dsimp only at h
  generalize decompress_chunk (lz4frame fastLoop) available self.context
    (self.unconsumed_data ++ data) max_length self.return_bytearray = q at h ⊢
  rcases q with _ | ⟨context, err | c⟩
  · cases h
  · cases h
    exact ⟨_, rfl⟩
  · cases h
    refine ⟨.ok c, ?_⟩
    dsimp only
    rw [keep_context]

theorem ObjectReached.implements (h : ObjectReached fastLoop self) :
    ∃ d, Implements self.context d := by
  induction h with
  | init return_bytearray => exact ⟨_, Implements.create⟩
  | reset _ ih =>
    obtain ⟨d, hd⟩ := ih
    exact ⟨_, hd.reset⟩
  | decompress _ hcall ih =>
    obtain ⟨r', hchunk⟩ := object_decompress_context hcall
    exact decompress_chunk_implements ih hchunk

/-- What a call that returns makes of the object. -/
theorem object_decompress_chunk {out : PyBytes}
    (h : self.decompress (lz4frame fastLoop) available data max_length = some (self', .ok out)) :
    ∃ r, decompress_chunk (lz4frame fastLoop) available self.context (self.unconsumed_data ++ data)
        max_length self.return_bytearray = some (self'.context, .ok r) ∧ out = r.decompressed ∧
      self' = { ({ self with context := self'.context }).keep (self.unconsumed_data ++ data)
        r.bytes_read r.eoframe with eof := r.eoframe } := by
  unfold LZ4FrameDecompressor.decompress at h
  dsimp only at h
  cases hchunk : decompress_chunk (lz4frame fastLoop) available self.context
      (self.unconsumed_data ++ data) max_length self.return_bytearray with
  | none =>
    rw [hchunk] at h
    cases h
  | some q =>
    obtain ⟨context, err | r⟩ := q
    · rw [hchunk] at h
      cases h
    rw [hchunk] at h
    simp only [Option.some.injEq, Prod.mk.injEq, Except.ok.injEq] at h
    obtain ⟨rfl, rfl⟩ := h
    simp only [keep_context]
    exact ⟨r, rfl, rfl, rfl⟩

theorem object_decompress_of_chunk {context : LZ4F_dctx} {r : ChunkResult}
    (h : decompress_chunk (lz4frame fastLoop) available self.context (self.unconsumed_data ++ data)
      max_length self.return_bytearray = some (context, .ok r)) :
    self.decompress (lz4frame fastLoop) available data max_length =
      some ({ ({ self with context }).keep (self.unconsumed_data ++ data) r.bytes_read r.eoframe with
        eof := r.eoframe }, .ok r.decompressed) := by
  unfold LZ4FrameDecompressor.decompress
  dsimp only
  rw [h]

/-- What a call that does not end the frame leaves in the object. -/
theorem object_decompress_ok {out : PyBytes}
    (h : self.decompress (lz4frame fastLoop) available data max_length = some (self', .ok out))
    (heof : self'.eof = false) :
    ∃ e, __decompress (lz4frame fastLoop) available self.context (self.unconsumed_data ++ data)
        max_length false = some (self'.context, .ok e) ∧ e.end_of_frame = false ∧
      out.data = e.destination ∧
      (buildInt e.source_cursor < (self.unconsumed_data ++ data).length →
        self'.needs_input = false) ∧
      (¬ buildInt e.source_cursor < (self.unconsumed_data ++ data).length →
        self'.needs_input = true ∧ self'.unconsumed_data = []) := by
  obtain ⟨r, hchunk, hout, hself⟩ := object_decompress_chunk h
  obtain ⟨e, he, hr⟩ := decompress_chunk_ok available hchunk
  have hread : r.bytes_read = buildInt e.source_cursor := by rw [hr, LoopEnd.chunkResult]
  have hdata : r.decompressed.data = e.destination := by rw [hr, LoopEnd.chunkResult]
  have hend : r.eoframe = e.end_of_frame := by rw [hr, LoopEnd.chunkResult]
  have heoframe : r.eoframe = false := by
    rw [hself] at heof
    exact heof
  refine ⟨e, he, hend.symm.trans heoframe, ?_, ?_⟩
  · rw [hout, hdata]
  · rw [← hread, hself, heoframe]
    exact ⟨keep_of_lt, fun hnot => keep_of_not_lt hnot false⟩

/-- What a later call without data can return is what is pending. -/
theorem outputAvailable_iff (hdata : self.unconsumed_data = []) {d : Decoder}
    (hd : Implements self.context d) (hsound : Sound d) {s : Reader} {pending : List UInt8}
    (hview : view d = .next s pending) : OutputAvailable fastLoop self ↔ pending ≠ [] := by
  have hsource : self.unconsumed_data ++ [] = [] := by rw [hdata, List.append_nil]
  constructor
  · rintro ⟨available, m, self', out, hcall, hout⟩ rfl
    obtain ⟨r, hchunk, rfl, -⟩ := object_decompress_chunk hcall
    obtain ⟨e, he, rfl⟩ := decompress_chunk_ok available hchunk
    rw [hsource] at he
    have hnil := decompress_pending hd hsound hview he
    rw [List.take_nil] at hnil
    exact hout hnil
  · intro hne
    have hrun : callOutcome fastLoop false d 1 [] ≠ .fail := by
      unfold callOutcome
      rw [entry_of_sound hsound, hview]
      rintro ⟨⟩
    obtain ⟨context', e, he⟩ := decompress_bounded_returns hd (by decide) hrun
    have hdst := decompress_pending hd hsound hview he
    have hint : ((1 : Nat) : Int) = 1 := rfl
    have hchunk : decompress_chunk (lz4frame fastLoop) (fun _ => true) self.context
        (self.unconsumed_data ++ []) (1 : Nat) self.return_bytearray =
          some (context', .ok (e.chunkResult self.return_bytearray)) := by
      unfold decompress_chunk
      rw [if_neg (by decide), hsource, he]
      rfl
    refine ⟨fun _ => true, 1, _, _, object_decompress_of_chunk hchunk, ?_⟩
    have hout : (e.chunkResult self.return_bytearray).decompressed.data = e.destination := by
      rw [LoopEnd.chunkResult]
    rw [hout, hdst, ne_eq, List.take_eq_nil_iff]
    exact fun hor => hor.elim Nat.one_ne_zero hne

/-- Whether `needs_input` is right after one call. -/
theorem needs_input_step {d : Decoder} (hd : Implements self.context d) {m : Nat} {out : PyBytes}
    (h : self.decompress (lz4frame fastLoop) available data m = some (self', .ok out))
    (heof : self'.eof = false) :
    NeedsInputIsRight fastLoop self' ↔
      ¬ ((self.unconsumed_data ++ data).length < 2 ^ 31 ∧
        LeavesOutput fastLoop (entry fastLoop true d (self.unconsumed_data ++ data)).1
          (entry fastLoop true d (self.unconsumed_data ++ data)).2 m) := by
  obtain ⟨e, he, hend, -, hmore, hless⟩ := object_decompress_ok h heof
  generalize self.unconsumed_data ++ data = src at he hmore hless ⊢
  obtain ⟨p, hcall, hcursor, -, hhint⟩ := decompress_bounded hd.bounds he
  obtain ⟨d', hd', hmatches⟩ := hd.accepts hcall
  obtain ⟨rest, hread, ⟨hzero, -⟩ | ⟨-, s, pending, hview, hstop⟩⟩ := hmatches.ends
  · rw [hhint.2 hzero] at hend
    cases hend
  have hready := entry_ready fastLoop true d src
  have hsuffix := (entry_suffix fastLoop true d src).length_le
  have hrest : rest.length ≤ src.length := by
    obtain ⟨taken, -, hsplit, -⟩ := resume_stop_feed hstop
    rw [hsplit, List.length_append] at hsuffix
    omega
  -- needing input means that all was read, and that the number read is a C `int`
  have hneeds : ¬ buildInt e.source_cursor < src.length ↔ rest = [] ∧ src.length < 2 ^ 31 := by
    rw [hcursor, hread]
    constructor
    · intro hnot
      by_cases hbig : src.length - rest.length < 2 ^ 31
      · rw [buildInt_of_lt hbig] at hnot
        have hnil : rest.length = 0 := by omega
        exact ⟨List.eq_nil_of_length_eq_zero hnil, by omega⟩
      · have hlt := buildInt_lt (src.length - rest.length)
        omega
    · rintro ⟨rfl, hlt⟩
      rw [List.length_nil, Nat.sub_zero, buildInt_of_lt hlt]
      exact Int.lt_irrefl _
  by_cases hnot : buildInt e.source_cursor < src.length
  · have hfalse := hmore hnot
    refine ⟨fun _ hleaves => ?_, fun _ => ⟨fun _ => hfalse, fun htrue => ?_⟩⟩
    · exact hneeds.2 ⟨(stop_of_leavesOutput hready hstop hleaves.2).1, hleaves.1⟩ hnot
    · rw [hfalse] at htrue
      cases htrue
  · obtain ⟨htrue, hdata⟩ := hless hnot
    obtain ⟨rfl, hlt⟩ := hneeds.1 hnot
    have hiff : NeedsInputIsRight fastLoop self' ↔ pending = [] := by
      have havailable := @outputAvailable_iff fastLoop self' hdata d' hd' hmatches.sound s pending hview
      unfold NeedsInputIsRight
      rw [havailable, htrue]
      constructor
      · exact fun hright => not_not.1 (hright.2 rfl)
      · exact fun hnil => ⟨fun hne => absurd hnil hne, fun _ => not_not.2 hnil⟩
    rw [hiff]
    constructor
    · exact fun hnil hleaves => (stop_of_leavesOutput hready hstop hleaves.2).2 hnil
    · intro hno
      by_contra hne
      exact hno ⟨hlt, leavesOutput_of_stop hready hstop hne⟩

end Objects

/-- A frame header and a block of three literals. -/
def openFrame : List UInt8 :=
  [0x04, 0x22, 0x4D, 0x18, 0x60, 0x40, 0x82, 0x04, 0, 0, 0, 0x30, 97, 98, 99]

/-- The decoder behind the block. -/
def openReader : Reader :=
  ⟨0, .blockHeader ⟨⟨4, .blockIndependent, false, .frame, 0, 0, false⟩, [], []⟩ []⟩

theorem openFrame_run :
    callOutcome true false Decoder.new 1 openFrame = .stop openReader [98, 99] [97] [] := by
  decide +kernel

theorem openFrame_run_adjacent :
    callOutcome true true Decoder.new 1 openFrame = .stop openReader [98, 99] [97] [] := by
  decide +kernel

theorem openFrame_feed :
    (view Decoder.new).feed true true openFrame = .next openReader [97, 98, 99] ∧
      ∃ s, (view Decoder.new).feed true true openFrame.dropLast = .next s [] := by
  refine ⟨by decide +kernel, ?_⟩
  have hlast : ∃ s, (view Decoder.new).feed true true openFrame.dropLast = .next s [] := by
    refine ⟨⟨0, .cBlock ⟨⟨4, .blockIndependent, false, .frame, 0, 0, false⟩, [], []⟩ 4
      [0x30, 97, 98]⟩, ?_⟩
    decide +kernel
  exact hlast

end PythonLz4.Frame.UndeliveredOutput
