import PythonLz4.Frame.UndeliveredOutput

/-!
# What `decompress_chunk` delivers

Without `max_length` the destination is enlarged until the input is read. A block that the last byte
of the input completes may decode to more than there is room for; then the loop is left, since it
looks at the input first, and the rest of the block stays in `tmpOut` (`delivery_spec`).
-/

set_option autoImplicit false

namespace PythonLz4.Frame.Delivery

open PythonLz4.Runtime
open PythonLz4.Frame.Header
open PythonLz4.Frame.DecompressionContext
open PythonLz4.Frame.AbstractDecoder (Decoder)
open PythonLz4.Frame.DecoderRefinement
open PythonLz4.Frame.CallBounds
open PythonLz4.Frame.BytewiseDecoder
open PythonLz4.Frame.BytewiseRefinement
open PythonLz4.Frame.DecompressChunk
open PythonLz4.Frame.UndeliveredOutput

/-! ## The size of the destination -/

/-- The destination after `k` resizes, for `n` bytes of input. -/
def destinationSize (n k : Nat) : Nat := 2 * n * 2 ^ (k * (k + 1) / 2)

theorem destinationSize_zero (n : Nat) : destinationSize n 0 = 2 * n := by
  show 2 * n * 2 ^ 0 = 2 * n
  rw [Nat.pow_zero, Nat.mul_one]

theorem destinationSize_succ (n k : Nat) :
    destinationSize n (k + 1) = destinationSize n k * 2 ^ (k + 1) := by
  unfold destinationSize
  rw [triangular_succ, Nat.pow_add, Nat.mul_assoc (2 * n)]

theorem destinationSize_mono (n : Nat) {j k : Nat} (h : j ≤ k) :
    destinationSize n j ≤ destinationSize n k := by
  induction h with
  | refl => exact Nat.le_refl _
  | step _ ih =>
    rw [destinationSize_succ]
    exact Nat.le_trans ih (Nat.le_mul_of_pos_right _ (Nat.two_pow_pos _))

theorem destinationSize_lt {n : Nat} (hn : 0 < n) (k : Nat) :
    destinationSize n k < destinationSize n (k + 1) := by
  rw [destinationSize_succ]
  have hpos : 0 < destinationSize n k :=
    Nat.mul_pos (Nat.mul_pos (by decide) hn) (Nat.two_pow_pos _)
  exact (Nat.lt_mul_iff_one_lt_right hpos).2 (Nat.one_lt_two_pow (Nat.succ_ne_zero k))

/-- The content passes a size of the destination with the last byte of the input. -/
def Outgrows (fastLoop : Bool) (n : Nat) (e : Event) (src : List UInt8) : Prop :=
  ∃ s out, e.feed fastLoop true src = .next s out ∧
    ((src = [] ∧ 2 * n < out.length) ∨
      ∃ k s₁ out₁, e.feed fastLoop true src.dropLast = .next s₁ out₁ ∧
        out₁.length < destinationSize n k ∧ destinationSize n k < out.length)

/-! ## The loop -/

/-- What holds whenever the loop calls the library: of `src` the bytes `taken` have been read behind
the event `e`. -/
structure Reading (fastLoop : Bool) (source : List UInt8) (e : Event) (src : List UInt8)
    (l : Loop LZ4F_dctx) (d : Decoder) (taken : List UInt8) : Prop where
  cursor_le : l.source_cursor ≤ source.length
  implements : Implements l.context d
  src_eq : src = taken ++ (entry fastLoop true d (source.drop l.source_cursor)).2
  feed_eq : ∀ bytes, e.feed fastLoop true (taken ++ bytes) =
    ((entry fastLoop true d (source.drop l.source_cursor)).1.feed fastLoop true bytes).emit
      l.destination

/-- With `k` resizes behind it. The last of them came with input left. -/
structure Growing (fastLoop : Bool) (source : List UInt8) (e : Event) (src : List UInt8) (k : Nat)
    (l : Loop LZ4F_dctx) (d : Decoder) (taken : List UInt8) : Prop
    extends Reading fastLoop source e src l d taken where
  size_eq : l.destination_size = destinationSize source.length k
  factor_eq : l.resize_factor = 2 ^ k
  written_le : l.destination.length ≤ l.destination_size
  passed : (k = 0 ∧ l.destination = [] ∧ taken = []) ∨
    ∃ j, k = j + 1 ∧ (entry fastLoop true d (source.drop l.source_cursor)).2 ≠ [] ∧
      l.destination.length = destinationSize source.length j

/-- What a call has made of the input `src` behind the event `e`: all but `rest` of it is read,
`destination` is written, and the frame has ended or `pending` stays in the context. -/
structure Stopped (fastLoop : Bool) (e : Event) (src : List UInt8) (context' : LZ4F_dctx)
    (d : Decoder) (destination : List UInt8) (s : Reader) (pending rest : List UInt8) : Prop where
  implements : Implements context' d
  sound : Sound d
  flushes : Flushes d.phase
  view_eq : view d = .next s pending
  feed_eq : ∃ taken, src = taken ++ rest ∧
    e.feed fastLoop true taken = .next s (destination ++ pending)

structure Finished (fastLoop : Bool) (e : Event) (src : List UInt8) (context' : LZ4F_dctx)
    (d : Decoder) (destination rest : List UInt8) : Prop where
  implements : Implements context' d
  sound : Sound d
  phase_eq : d.phase = .getFrameHeader
  feed_eq : ∃ taken, src = taken ++ rest ∧
    e.feed fastLoop true taken = .finish d.remaining destination []

section Loops

variable {fastLoop : Bool} {available : Nat → Bool} {source src taken : List UInt8} {e : Event}
  {k : Nat} {l : Loop LZ4F_dctx} {d : Decoder} {max_length : Int}

/-- What is left of the input after a call of the library. -/
theorem Reading.rest (h : Reading fastLoop source e src l d taken) {context₁ : LZ4F_dctx}
    {p : Progress} {rest : List UInt8}
    (hread : p.srcSize = (source.drop l.source_cursor).length - rest.length)
    (hrest : rest <:+ (entry fastLoop true d (source.drop l.source_cursor)).2) :
    source.drop (l.after context₁ p).source_cursor = rest ∧
      (l.after context₁ p).source_cursor + rest.length = source.length := by
  have hsuffix := hrest.trans (entry_suffix fastLoop true d (source.drop l.source_cursor))
  have hlen := hsuffix.length_le
  have hcursor := h.cursor_le
  have hafter : (l.after context₁ p).source_cursor = l.source_cursor + p.srcSize := rfl
  constructor
  · rw [hafter, ← List.drop_drop, hread]
    exact (List.suffix_iff_eq_drop.1 hsuffix).symm
  · rw [hafter, hread]
    rw [List.length_drop] at hlen ⊢
    omega

/-- One call of the library in the loop. -/
theorem Reading.call (h : Reading fastLoop source e src l d taken) {context₁ : LZ4F_dctx}
    {p : Progress}
    (hcall : LZ4F_decompress fastLoop l.context
      (some (l.destination_size - l.destination.length)) (source.drop l.source_cursor) =
        (context₁, .ok p)) (hhint : p.nextSrcSizeHint ≠ 0) :
    ∃ d₁ s pending rest,
      Stopped fastLoop e src context₁ d₁ (l.after context₁ p).destination s pending rest ∧
      source.drop (l.after context₁ p).source_cursor = rest ∧
      (l.after context₁ p).source_cursor + rest.length = source.length ∧
      resume fastLoop true (l.destination_size - l.destination.length)
        (entry fastLoop true d (source.drop l.source_cursor)).1 []
        (entry fastLoop true d (source.drop l.source_cursor)).2 = .stop s pending p.dst rest := by
  obtain ⟨d₁, hd₁, hmatches⟩ := h.implements.accepts hcall
  obtain ⟨rest, hread, ⟨hzero, -⟩ | ⟨-, s, pending, hview, hstop⟩⟩ := hmatches.ends
  · exact absurd hzero hhint
  obtain ⟨taken₁, out, hsrc, hfeed, hout⟩ := resume_stop_feed hstop
  obtain ⟨hdrop, hcursor⟩ := h.rest hread (hsrc ▸ List.suffix_append _ _)
  refine ⟨d₁, s, pending, rest, ⟨hd₁, hmatches.sound, hmatches.flushes, hview, taken ++ taken₁,
    ?_, ?_⟩, hdrop, hcursor, hstop⟩
  · rw [List.append_assoc, ← hsrc]
    exact h.src_eq
  · rw [h.feed_eq, hfeed]
    show Fed.next s (l.destination ++ out) = .next s (l.destination ++ p.dst ++ pending)
    rw [List.append_assoc, ← hout]
    rfl

/-- A call of the library that ends the frame. -/
theorem Reading.finish (h : Reading fastLoop source e src l d taken) {context₁ : LZ4F_dctx}
    {p : Progress}
    (hcall : LZ4F_decompress fastLoop l.context
      (some (l.destination_size - l.destination.length)) (source.drop l.source_cursor) =
        (context₁, .ok p)) (hhint : p.nextSrcSizeHint = 0) :
    ∃ d₁ rest, Finished fastLoop e src context₁ d₁ (l.after context₁ p).destination rest ∧
      (l.after context₁ p).source_cursor + rest.length = source.length := by
  obtain ⟨d₁, hd₁, hmatches⟩ := h.implements.accepts hcall
  obtain ⟨rest, hread, ⟨-, hphase, hfinish⟩ | ⟨hne, -⟩⟩ := hmatches.ends
  · obtain ⟨taken₁, hsrc, hfeed⟩ := resume_finish_feed hfinish
    obtain ⟨-, hcursor⟩ := h.rest hread (hsrc ▸ List.suffix_append _ _)
    refine ⟨d₁, rest, ⟨hd₁, hmatches.sound, hphase, taken ++ taken₁, ?_, ?_⟩, hcursor⟩
    · rw [List.append_assoc, ← hsrc]
      exact h.src_eq
    · rw [h.feed_eq, hfeed]
      rfl
  · exact absurd hhint hne

/-- Whether output stays behind when the input has been read. -/
theorem Growing.outgrows (h : Growing fastLoop source e src k l d taken) {s : Reader}
    {pending dst : List UInt8}
    (hstop : resume fastLoop true (l.destination_size - l.destination.length)
      (entry fastLoop true d (source.drop l.source_cursor)).1 []
      (entry fastLoop true d (source.drop l.source_cursor)).2 = .stop s pending dst [])
    (hfeed : e.feed fastLoop true src = .next s (l.destination ++ dst ++ pending)) :
    pending ≠ [] ↔ Outgrows fastLoop source.length e src := by
  have hready := entry_ready fastLoop true d (source.drop l.source_cursor)
  have hentered := (entry_suffix fastLoop true d (source.drop l.source_cursor)).length_le
  have hsrc := h.src_eq
  have hfeeds := h.feed_eq
  have hpassed := h.passed
  generalize entry fastLoop true d (source.drop l.source_cursor) = entered
    at hready hsrc hfeeds hpassed hstop hentered
  obtain ⟨now, bytes⟩ := entered
  dsimp only at hready hsrc hfeeds hpassed hstop hentered
  obtain ⟨hle, hfull⟩ := resume_stop_full hstop (Nat.zero_le _)
  have hwritten := h.written_le
  have hsize := h.size_eq
  have htotal : (l.destination ++ dst ++ pending).length =
      l.destination.length + dst.length + pending.length := by
    rw [List.length_append, List.length_append]
  have hlast : bytes ≠ [] → src.dropLast = taken ++ bytes.dropLast := fun hbytes => by
    rw [hsrc, List.dropLast_append_of_ne_nil hbytes]
  constructor
  · intro hne
    have hpos := List.length_pos_of_ne_nil hne
    have hcap := hfull (Or.inr hne)
    refine ⟨s, _, hfeed, ?_⟩
    by_cases hbytes : bytes = []
    · -- without input the loop is left after the first call
      rcases hpassed with ⟨rfl, hnil, htaken⟩ | ⟨_, _, hne', _⟩
      · rw [destinationSize_zero] at hsize
        refine Or.inl ⟨?_, by omega⟩
        rw [hsrc, htaken, hbytes]
        rfl
      · exact absurd hbytes hne'
    · have hroom : 0 < l.destination_size - l.destination.length := by
        have hsource : 0 < source.length := by
          have hbytes := List.length_pos_of_ne_nil hbytes
          rw [List.length_drop] at hentered
          omega
        rcases hpassed with ⟨rfl, hnil, -⟩ | ⟨j, rfl, -, hj⟩
        · rw [destinationSize_zero] at hsize
          rw [hnil, List.length_nil]
          omega
        · have hgrows := destinationSize_lt hsource j
          omega
      obtain ⟨s₁, out₁, hfeed₁, hlt⟩ := resume_leaves_output hready hroom hstop hbytes hne
      refine Or.inr ⟨k, s₁, l.destination ++ out₁, ?_, ?_, by omega⟩
      · rw [hlast hbytes, hfeeds, hfeed₁]
        rfl
      · rw [List.length_append]
        omega
  · rintro ⟨s', out, hfeed', hcases⟩ rfl
    obtain ⟨-, rfl⟩ := Fed.next.inj (hfeed.symm.trans hfeed')
    rw [List.length_nil] at htotal
    rcases hcases with ⟨hnil, hlt⟩ | ⟨k', s₁, out₁, hfeed₁, hlt, hlt'⟩
    · have hbytes : bytes = [] := (List.append_eq_nil_iff.1 (hsrc.symm.trans hnil)).2
      rcases hpassed with ⟨rfl, -⟩ | ⟨_, _, hne, _⟩
      · rw [destinationSize_zero] at hsize
        omega
      · exact hne hbytes
    · -- an earlier size was filled with input left
      have hsmaller : k' < k := by
        by_contra hnot
        have hmono := destinationSize_mono source.length (Nat.le_of_not_lt hnot)
        omega
      rcases hpassed with ⟨rfl, -⟩ | ⟨j, rfl, hbytes, hj⟩
      · exact absurd hsmaller (Nat.not_lt_zero _)
      · have hmono := destinationSize_mono source.length (Nat.le_of_lt_succ hsmaller)
        rw [hlast hbytes, hfeeds] at hfeed₁
        obtain ⟨out₂, -, rfl⟩ := emit_eq_next hfeed₁
        rw [List.length_append] at hlt
        omega

/-- The loop calls the library again with a larger destination. -/
theorem Growing.resize (h : Growing fastLoop source e src k l d taken)
    (hsize : l.destination_size ≤ ADDRESS_SPACE) {context₁ : LZ4F_dctx} {p : Progress}
    {d₁ : Decoder} {s : Reader} {pending rest : List UInt8}
    (hstopped : Stopped fastLoop e src context₁ d₁ (l.after context₁ p).destination s pending rest)
    (hdrop : source.drop (l.after context₁ p).source_cursor = rest)
    (hrest : (l.after context₁ p).source_cursor + rest.length = source.length)
    (hused : (l.after context₁ p).source_cursor ≠ source.length)
    (hfull : (l.after context₁ p).destination.length = l.destination_size) :
    ∃ taken₁, Growing fastLoop source e src (k + 1)
      { l.after context₁ p with
        resize_factor := l.resize_factor * 2
        destination_size := l.destination_size * (l.resize_factor * 2) % SIZE_T } d₁ taken₁ := by
  obtain ⟨taken₁, hsrc, hfeed⟩ := hstopped.feed_eq
  have hne : rest ≠ [] := by
    rintro rfl
    exact hused hrest
  have hpos := List.length_pos_of_ne_nil hne
  have hsize_eq := h.size_eq
  have hgrown : l.destination_size * (l.resize_factor * 2) % SIZE_T =
      destinationSize source.length (k + 1) := by
    have hge : 2 ^ (k * (k + 1) / 2) ≤ l.destination_size := by
      rw [hsize_eq]
      exact Nat.le_mul_of_pos_left _ (by omega)
    rw [h.factor_eq, resize_eq hge hsize, destinationSize_succ, hsize_eq]
  have hentry : entry fastLoop true d₁ (source.drop (l.after context₁ p).source_cursor) =
      (.next s pending, rest) := by
    rw [hdrop, entry_of_sound hstopped.sound, hstopped.view_eq]
  refine ⟨taken₁, ⟨?_, hstopped.implements, ?_, ?_⟩, hgrown, ?_, ?_, Or.inr ⟨k, rfl, ?_, ?_⟩⟩
  · show (l.after context₁ p).source_cursor ≤ source.length
    omega
  · show src = taken₁ ++
      (entry fastLoop true d₁ (source.drop (l.after context₁ p).source_cursor)).2
    rw [hentry]
    exact hsrc
  · intro bytes
    show e.feed fastLoop true (taken₁ ++ bytes) =
      ((entry fastLoop true d₁ (source.drop (l.after context₁ p).source_cursor)).1.feed
        fastLoop true bytes).emit (l.after context₁ p).destination
    rw [hentry, Event.feed_append hfeed, ← emit_emit]
    rfl
  · show l.resize_factor * 2 = 2 ^ (k + 1)
    rw [h.factor_eq, Nat.pow_succ]
  · show (l.after context₁ p).destination.length ≤
      l.destination_size * (l.resize_factor * 2) % SIZE_T
    rw [hgrown, hfull, hsize_eq]
    exact destinationSize_mono source.length (Nat.le_succ k)
  · show (entry fastLoop true d₁ (source.drop (l.after context₁ p).source_cursor)).2 ≠ []
    rw [hentry]
    exact hne
  · exact hfull.trans hsize_eq

/-- How the loop is left without `max_length`: at the end of the frame, or with all of the input
read. -/
theorem decompressLoop_delivers {fuel : Nat} {context' : LZ4F_dctx} {r : LoopEnd}
    (hmax : max_length < 0) (hl : Growing fastLoop source e src k l d taken)
    (hsize : l.destination_size ≤ ADDRESS_SPACE)
    (h : decompressLoop (lz4frame fastLoop) available source max_length fuel l =
      some (context', .ok r)) :
    (r.end_of_frame = true ∧ ∃ d' rest, Finished fastLoop e src context' d' r.destination rest ∧
      r.source_cursor + rest.length = source.length) ∨
    (r.end_of_frame = false ∧ r.source_cursor = source.length ∧ ∃ d' s pending,
      Stopped fastLoop e src context' d' r.destination s pending [] ∧
        (pending ≠ [] ↔ Outgrows fastLoop source.length e src)) := by
  induction fuel generalizing k l d taken with
  | zero => cases h
  | succ fuel ih =>
    obtain ⟨context₁, p, hcall, hcases⟩ := decompressLoop_ok h
    rcases hcases with ⟨hhint, rfl, rfl⟩ | ⟨hhint, rfl, rfl, hused | hneg⟩ |
      ⟨hhint, hused, hfull, -, halloc, hnext⟩ | ⟨hhint, hused, hfull⟩
    · obtain ⟨d₁, rest, hfinished, hcursor⟩ := hl.toReading.finish hcall hhint
      exact Or.inl ⟨rfl, d₁, rest, hfinished, hcursor⟩
    · obtain ⟨d₁, s, pending, rest, hstopped, -, hrest, hstop⟩ := hl.toReading.call hcall hhint
      have hnil : rest = [] := List.eq_nil_of_length_eq_zero (by omega)
      subst hnil
      obtain ⟨taken₁, hsrc, hfeed⟩ := hstopped.feed_eq
      rw [List.append_nil] at hsrc
      rw [← hsrc] at hfeed
      exact Or.inr ⟨rfl, hused, d₁, s, pending, hstopped, hl.outgrows hstop hfeed⟩
    · exact absurd hneg (Int.not_le.2 hmax)
    · obtain ⟨d₁, s, pending, rest, hstopped, hdrop, hrest, -⟩ := hl.toReading.call hcall hhint
      obtain ⟨taken₁, hnew⟩ := hl.resize hsize hstopped hdrop hrest hused hfull
      exact ih hnew halloc.1 hnext
    · exact absurd (after_full hl.implements.bounds hl.written_le hl.cursor_le hcall hhint hused)
        hfull

/-- The loop starts. -/
theorem Reading.start {context : LZ4F_dctx} (hd : Implements context d) (source : List UInt8)
    (destination_size : Nat) :
    Reading fastLoop source (entry fastLoop true d source).1 (entry fastLoop true d source).2
      ⟨context, 0, [], destination_size, 1, []⟩ d [] :=
  ⟨Nat.zero_le _, hd, rfl, fun _ => (emit_nil _).symm⟩

theorem Growing.start {context : LZ4F_dctx} (hd : Implements context d) (source : List UInt8) :
    Growing fastLoop source (entry fastLoop true d source).1 (entry fastLoop true d source).2 0
      ⟨context, 0, [], 2 * source.length, 1, []⟩ d [] :=
  ⟨Reading.start hd source _, (destinationSize_zero _).symm, rfl, Nat.zero_le _,
    Or.inl ⟨rfl, rfl, rfl⟩⟩

/-- A call on the bytes `source`. -/
theorem decompress_delivers {context context' : LZ4F_dctx} {r : LoopEnd}
    (hd : Implements context d)
    (h : __decompress (lz4frame fastLoop) available context source max_length false =
      some (context', .ok r)) :
    (r.end_of_frame = true ∧ ∃ d' rest,
      Finished fastLoop (entry fastLoop true d source).1 (entry fastLoop true d source).2 context' d'
        r.destination rest ∧ r.source_cursor + rest.length = source.length) ∨
    (r.end_of_frame = false ∧ ∃ d' s pending rest,
      Stopped fastLoop (entry fastLoop true d source).1 (entry fastLoop true d source).2 context' d'
        r.destination s pending rest ∧ r.source_cursor + rest.length = source.length ∧
      (max_length < 0 → rest = [] ∧
        (pending ≠ [] ↔ Outgrows fastLoop source.length (entry fastLoop true d source).1
          (entry fastLoop true d source).2))) := by
  rcases Int.lt_or_le max_length 0 with hneg | hpos
  · unfold __decompress at h
    rw [if_neg Bool.false_ne_true, if_neg (Int.not_le.2 hneg)] at h
    obtain ⟨halloc, hloop, -⟩ := decompressFrom_ok h
    rcases decompressLoop_delivers hneg (Growing.start hd source) halloc.1 hloop with
      hend | ⟨hend, hcursor, d', s, pending, hstopped, hiff⟩
    · exact Or.inl hend
    · exact Or.inr ⟨hend, d', s, pending, [], hstopped, hcursor, fun _ => ⟨rfl, hiff⟩⟩
  · obtain ⟨m, rfl⟩ := Int.eq_ofNat_of_zero_le hpos
    obtain ⟨p, hcall, hcursor, hdst, hhint⟩ := decompress_bounded hd.bounds h
    have hstart := @Reading.start fastLoop d context hd source m
    have hcall' : LZ4F_decompress fastLoop context (some (m - ([] : List UInt8).length))
        (source.drop 0) = (context', .ok p) := hcall
    have hcursor' : r.source_cursor = 0 + p.srcSize := hcursor.trans (Nat.zero_add _).symm
    rw [hcursor', hdst]
    by_cases hend : p.nextSrcSizeHint = 0
    · obtain ⟨d', rest, hfinished, hrest⟩ := hstart.finish hcall' hend
      exact Or.inl ⟨hhint.2 hend, d', rest, hfinished, hrest⟩
    · obtain ⟨d', s, pending, rest, hstopped, -, hrest, -⟩ := hstart.call hcall' hend
      exact Or.inr ⟨Bool.eq_false_of_not_eq_true fun htrue => hend (hhint.1 htrue), d', s, pending,
        rest, hstopped, hrest, fun hneg => absurd hneg (Int.not_lt.2 hpos)⟩

end Loops

/-! ## Contexts of a caller -/

/-- A context that calls have led to, also calls that raised. -/
inductive ContextReached (fastLoop : Bool) : LZ4F_dctx → Prop
  | create : ContextReached fastLoop LZ4F_createDecompressionContext
  | reset {context : LZ4F_dctx} (h : ContextReached fastLoop context) :
      ContextReached fastLoop (LZ4F_resetDecompressionContext context)
  | decompress_chunk {context context' : LZ4F_dctx} {available : Nat → Bool} {data : List UInt8}
      {max_length : Int} {return_bytearray : Bool} {r : Except PyErr ChunkResult}
      (h : ContextReached fastLoop context)
      (hcall : decompress_chunk (lz4frame fastLoop) available context data max_length
        return_bytearray = some (context', r)) : ContextReached fastLoop context'

theorem ContextReached.implements {fastLoop : Bool} {context : LZ4F_dctx}
    (h : ContextReached fastLoop context) : ∃ d, Implements context d := by
  induction h with
  | create => exact ⟨_, Implements.create⟩
  | reset _ ih =>
    obtain ⟨d, hd⟩ := ih
    exact ⟨_, hd.reset⟩
  | decompress_chunk _ hcall ih => exact decompress_chunk_implements ih hcall

/-- A context holds back output in the stage for it. -/
theorem Stopped.flushOut_iff {fastLoop : Bool} {e : Event} {src destination : List UInt8}
    {context' : LZ4F_dctx} {d : Decoder} {s : Reader} {pending rest : List UInt8}
    (h : Stopped fastLoop e src context' d destination s pending rest) :
    context'.dStage = .flushOut ↔ pending ≠ [] := by
  rw [flushing_iff h.flushes h.view_eq]
  have hphase := h.implements.refines.phase
  constructor
  · intro hstage
    cases hd : d.phase with
    | block b p =>
      rw [hd] at hphase
      obtain ⟨-, hblock, -⟩ := hphase
      cases p with
      | flushOut start pending' => exact ⟨b, start, pending', rfl⟩
      | getBlockHeader => exact absurd (hstage.symm.trans hblock) (by rintro ⟨⟩)
      | _ => exact absurd (hstage.symm.trans hblock.1) (by rintro ⟨⟩)
    | _ =>
      rw [hd] at hphase
      exact absurd (hstage.symm.trans hphase.1) (by rintro ⟨⟩)
  · rintro ⟨b, start, pending', hd⟩
    rw [hd] at hphase
    exact hphase.2.1.1

/-- A frame header and a block of eleven bytes that decodes to 55. -/
def longBlock : List UInt8 :=
  [0x04, 0x22, 0x4D, 0x18, 0x60, 0x40, 0x82, 0x0B, 0, 0, 0,
    0x1F, 97, 1, 0, 30, 0x50, 98, 98, 98, 98, 98]

/-- What the last byte of the block completes. -/
theorem longBlock_outgrows :
    Outgrows true longBlock.length (entry true true Decoder.new longBlock).1
      (entry true true Decoder.new longBlock).2 := by
  have hall : ∃ s out, (view Decoder.new).feed true true longBlock = .next s out ∧
      out.length = 55 := by
    refine ⟨⟨0, .blockHeader ⟨⟨4, .blockIndependent, false, .frame, 0, 0, false⟩, [], []⟩ []⟩,
      List.replicate 50 97 ++ List.replicate 5 98, ?_, List.length_append.trans ?_⟩
    · decide +kernel
    · rw [List.length_replicate, List.length_replicate]
  have hlast : ∃ s, (view Decoder.new).feed true true longBlock.dropLast = .next s [] := by
    refine ⟨⟨0, .cBlock ⟨⟨4, .blockIndependent, false, .frame, 0, 0, false⟩, [], []⟩ 11
      [0x1F, 97, 1, 0, 30, 0x50, 98, 98, 98, 98]⟩, ?_⟩
    decide +kernel
  have hsound : Sound Decoder.new := ⟨Nat.two_pow_pos 64, trivial⟩
  obtain ⟨s, out, hfeed, hlen⟩ := hall
  obtain ⟨s₁, hfeed₁⟩ := hlast
  rw [entry_of_sound hsound]
  refine ⟨s, out, hfeed, Or.inr ⟨0, s₁, [], hfeed₁, ?_, ?_⟩⟩
  · rw [destinationSize_zero]
    decide
  · rw [destinationSize_zero, hlen]
    decide

end PythonLz4.Frame.Delivery
