import PythonLz4.Stream.SizeBounds
import PythonLz4.Stream.Allocation

/-!
# Runs of `compress ()` that may raise

`_compress` with the context it leaves on each of its exits, and runs of such calls. The sizes the
constructor has checked stay as they are whatever the calls do (`runCalls_sized`). They are enough
for a chunk to be compressed exactly when it fits in a page, with no later check failing and no
value leaving its type (`compress_succeeds_iff`).
-/

set_option autoImplicit false

namespace PythonLz4.Stream.CompressRuns

open PythonLz4.Runtime
open PythonLz4.Lib.LittleEndian
open PythonLz4.Lib.ByteMemory
open PythonLz4.Block
open PythonLz4.Block.Container (LZ4_MAX_INPUT_SIZE LZ4_compressBound compressBound_of_le)
open PythonLz4.Stream.Continue
open PythonLz4.Stream.Context
open PythonLz4.Stream.Session
open PythonLz4.Stream.SizeBounds
open PythonLz4.Stream.Allocation (total_size output_len)

/-! ## Calls and runs -/

/-- One call of `compress ()`. What the encoders find depends on tables that are not modelled, so
each call has its own. -/
structure CompressCall where
  coder : StreamCoder
  source : List UInt8
  /-- The object returned can be allocated. -/
  allocated : Bool := true

/-- The context with the source of a call on its current page. -/
def copied (context : CompressContext) (source : List UInt8) : CompressContext :=
  { context with mem := store context.mem context.double_buffer.page source }

/-- `_compress` with the context it leaves behind. A call that fails in the library leaves the
stream of the library as it was. -/
def compressCall (context : CompressContext) (call : CompressCall) :
    Except PyErr PyBytes × CompressContext :=
  if context.double_buffer.page_size < call.source.length then
    (.error ⟨.OverflowError, "Input too large for LZ4 API"⟩, context)
  else
    let context := copied context call.source
    let r := compress_generic call.coder context call.source.length
    if r.1.length = 0 then (.error ⟨.LZ4StreamError, "Compression failed"⟩, context)
    else
      let context := { context with lz4_state := r.2 }
      match store_block_length r.1.length context.store_comp_size with
      | none => (.error ⟨.LZ4StreamError, "Compressed stream size too large"⟩, context)
      | some header =>
        if call.allocated then
          (.ok ⟨context.return_bytearray, header ++ r.1⟩,
            { context with double_buffer := double_buffer_update_index context.double_buffer })
        else (.error PyErr_NoMemory, context)

/-- The calls in order: the chunks of those that succeed with what these return, and the context
after all of them. -/
def runCalls : CompressContext → List CompressCall → List (List UInt8 × PyBytes) × CompressContext
  | context, [] => ([], context)
  | context, call :: calls =>
    let r := compressCall context call
    let rest := runCalls r.2 calls
    match r.1 with
    | .ok result => ((call.source, result) :: rest.1, rest.2)
    | .error _ => rest

def Reachable (context context' : CompressContext) : Prop :=
  ∃ calls, (runCalls context calls).2 = context'

/-- The ways a call can end. -/
theorem compressCall_cases (context : CompressContext) (call : CompressCall) :
    (context.double_buffer.page_size < call.source.length ∧ compressCall context call =
      (.error ⟨.OverflowError, "Input too large for LZ4 API"⟩, context)) ∨
    (call.source.length ≤ context.double_buffer.page_size ∧ ∃ block state,
      compress_generic call.coder (copied context call.source) call.source.length =
        (block, state) ∧
      ((block = [] ∧ compressCall context call =
          (.error ⟨.LZ4StreamError, "Compression failed"⟩, copied context call.source)) ∨
        (block ≠ [] ∧ store_block_length block.length context.store_comp_size = none ∧
          compressCall context call =
            (.error ⟨.LZ4StreamError, "Compressed stream size too large"⟩,
              { copied context call.source with lz4_state := state })) ∨
        (block ≠ [] ∧ ∃ header,
          store_block_length block.length context.store_comp_size = some header ∧
          ((call.allocated = false ∧ compressCall context call =
              (.error PyErr_NoMemory, { copied context call.source with lz4_state := state })) ∨
            (call.allocated = true ∧ compressCall context call =
              (.ok ⟨context.return_bytearray, header ++ block⟩,
                { copied context call.source with
                  lz4_state := state
                  double_buffer := double_buffer_update_index context.double_buffer })))))) := by
  unfold compressCall
  by_cases hlong : context.double_buffer.page_size < call.source.length
  · rw [if_pos hlong]
    exact Or.inl ⟨hlong, rfl⟩
  refine Or.inr ⟨Nat.le_of_not_lt hlong, ?_⟩
  rw [if_neg hlong]
  cases hgeneric : compress_generic call.coder (copied context call.source)
      call.source.length with
  | mk block state =>
    refine ⟨block, state, rfl, ?_⟩
    simp only [hgeneric]
    by_cases hempty : block.length = 0
    · rw [if_pos hempty]
      exact Or.inl ⟨List.eq_nil_of_length_eq_zero hempty, rfl⟩
    rw [if_neg hempty]
    have hne : block ≠ [] := fun h => hempty (by rw [h]; rfl)
    show _ ∨ _ ∨ _
    cases hheader : store_block_length block.length context.store_comp_size with
    | none =>
      have hcopied : store_block_length block.length
          (copied context call.source).store_comp_size = none := hheader
      simp only [hcopied]
      exact Or.inr (Or.inl ⟨hne, trivial, trivial⟩)
    | some header =>
      have hcopied : store_block_length block.length
          (copied context call.source).store_comp_size = some header := hheader
      simp only [hcopied]
      refine Or.inr (Or.inr ⟨hne, header, rfl, ?_⟩)
      cases hallocated : call.allocated with
      | false => exact Or.inl ⟨rfl, rfl⟩
      | true => exact Or.inr ⟨rfl, rfl⟩

/-- The calls of the model without failing allocations. -/
theorem compress_eq_compressCall (coder : StreamCoder) (context : CompressContext)
    (source : List UInt8) :
    compress coder context source =
      match compressCall context ⟨coder, source, true⟩ with
      | (.ok result, context') => .ok (result, context')
      | (.error e, _) => .error e := by
  unfold compress compressCall
  by_cases hlong : context.double_buffer.page_size < source.length
  · rw [if_pos hlong, if_pos hlong]
  rw [if_neg hlong, if_neg hlong]
  simp only [copied]
  split_ifs with hempty
  · rfl
  · cases store_block_length _ context.store_comp_size <;> rfl

/-! ## The sizes of a context -/

/-- The sizes of a compression context made with the arguments. -/
structure Sized (args : CreateArgs) (c : CompressContext) : Prop where
  page_size : c.double_buffer.page_size = args.buffer_size
  output_len : c.output_len = get_compress_bound args.buffer_size
  store_comp_size : c.store_comp_size = args.store_comp_size

variable {args : CreateArgs} {place : Placement args.dictionary.length args.buffer_size}
  {mem : Memory} {c c₀ : CompressContext}

/-- No exit of `_compress` touches the sizes. -/
theorem Sized.compressCall (h : Sized args c) (call : CompressCall) :
    Sized args (compressCall c call).2 := by
  rcases compressCall_cases c call with ⟨-, hcall⟩ | ⟨-, block, state, -, hrest⟩
  · rw [hcall]
    exact h
  rcases hrest with ⟨-, hcall⟩ | ⟨-, -, hcall⟩ | ⟨-, header, -, ⟨-, hcall⟩ | ⟨-, hcall⟩⟩ <;>
    rw [hcall] <;> exact ⟨h.page_size, h.output_len, h.store_comp_size⟩

theorem runCalls_snd_cons (context : CompressContext) (call : CompressCall)
    (calls : List CompressCall) :
    (runCalls context (call :: calls)).2 = (runCalls (compressCall context call).2 calls).2 := by
  rw [runCalls]
  cases (CompressRuns.compressCall context call).1 <;> rfl

theorem Sized.runCalls (h : Sized args c) (calls : List CompressCall) :
    Sized args (runCalls c calls).2 := by
  induction calls generalizing c with
  | nil => exact h
  | cons call calls ih =>
    rw [runCalls_snd_cons]
    exact ih (h.compressCall call)

theorem sized_create (h : create_context args place mem = .ok (.compress c)) : Sized args c := by
  obtain ⟨-, -, -, -, -, comp, -, rfl⟩ := create_context_compress h
  exact ⟨rfl, rfl, rfl⟩

/-- What the constructor has checked of the sizes. -/
theorem create_context_sizes (h : create_context args place mem = .ok (.compress c)) :
    args.store_comp_size ∈ [0, 1, 2, 4] ∧ args.buffer_size ≤ LZ4_MAX_INPUT_SIZE ∧
      get_compress_bound args.buffer_size ≤ store_max_size args.store_comp_size ∧
      total_size args = get_compress_bound args.buffer_size + args.store_comp_size := by
  obtain ⟨-, hscs, -, comp, -, ⟨hdir, hbound, hfits, -⟩ | ⟨-, hd⟩⟩ := create_context_cases h
  · have hmax : args.buffer_size ≤ LZ4_MAX_INPUT_SIZE := by
      by_contra hbig
      exact hbound (if_pos (Nat.lt_of_not_le hbig))
    have hint : LZ4_compressBound args.buffer_size + 4 ≤ INT_MAX :=
      Container.compressBound_add_hdr_le
    have hI : INT_MAX = 2147483647 := rfl
    have hscs4 : args.store_comp_size ≤ 4 := by
      simp only [List.mem_cons, List.not_mem_nil, or_false] at hscs
      omega
    refine ⟨hscs, hmax, hfits, ?_⟩
    rw [total_size, if_pos hdir, output_len, if_pos hdir, get_compress_bound,
      Nat.mod_eq_of_lt (by omega)]
  · cases hd

/-! ## What a call needs of the library -/

/-- Given room for `LZ4_compressBound` bytes an encoder makes a block of 1 to that many bytes. -/
structure RoomSpec (encode : Encoder) : Prop where
  length : ∀ w source n level, source.length ≤ LZ4_MAX_INPUT_SIZE →
    LZ4_compressBound source.length ≤ n →
    1 ≤ (encode w source n level).length ∧
      (encode w source n level).length ≤ LZ4_compressBound source.length

/-- The library hands its encoder the source as it lies on the page, whatever the window is. -/
theorem compress_generic_block (coder : StreamCoder) (context : CompressContext)
    (source : List UInt8) :
    ∃ encode, (encode = coder.fast ∨ encode = coder.hc) ∧ ∃ w level,
      (compress_generic coder (copied context source) source.length).1 =
        encode w source context.output_len level := by
  unfold compress_generic
  cases hstate : (copied context source).lz4_state with
  | fast st =>
    refine ⟨coder.fast, Or.inl rfl, ?_⟩
    simp only [copied, LZ4_compress_fast_continue, double_buffer.page, load_store]
    exact ⟨_, _, by split_ifs <;> rfl⟩
  | hc ctx =>
    refine ⟨coder.hc, Or.inr rfl, ?_⟩
    simp only [copied, LZ4_compress_HC_continue, double_buffer.page, load_store]
    exact ⟨_, _, rfl⟩

theorem length_store_block_length {n k : Nat} {header : List UInt8}
    (h : store_block_length n k = some header) : header.length = k := by
  unfold store_block_length at h
  split at h
  · obtain rfl := Option.some.inj h
    rfl
  all_goals first
    | cases h
    | split_ifs at h
      obtain rfl := Option.some.inj h
      exact length_leBytes _ _

/-- A block that respects the bound of a page has a header. -/
theorem store_block_length_of_le {n k : Nat} (hk : k ∈ [0, 1, 2, 4]) (hn : n ≤ store_max_size k)
    (hint : n ≤ INT_MAX) : ∃ header, store_block_length n k = some header := by
  simp only [List.mem_cons, List.not_mem_nil, or_false] at hk
  simp only [store_max_size, GET_MAX_UINT32] at hn
  rcases hk with rfl | rfl | rfl | rfl
  · exact ⟨_, rfl⟩
  · exact ⟨_, if_neg (by simp at hn; omega)⟩
  · exact ⟨_, if_neg (by simp at hn; omega)⟩
  · exact ⟨_, if_neg (by omega)⟩

/-! ## Every operation inside its type -/

/-- `_compress` with every conversion and sum checked, and every write to the output buffer of
`total_size` bytes. -/
def compressCall_checked (total_size : Nat) (context : CompressContext) (call : CompressCall) :
    Option (Except PyErr PyBytes × CompressContext) :=
  if context.double_buffer.page_size < call.source.length then
    some (.error ⟨.OverflowError, "Input too large for LZ4 API"⟩, context)
  else
    (exactInt call.source.length).bind fun source_size =>
      (exactInt context.output_len).bind fun dest_size =>
        -- the library may fill its capacity behind the header
        if (total_size : Int) < context.store_comp_size + dest_size then none
        else
          let context := copied context call.source
          let r := compress_generic call.coder context source_size.toNat
          (exactInt r.1.length).bind fun output_size =>
            if output_size ≤ 0 then
              some (.error ⟨.LZ4StreamError, "Compression failed"⟩, context)
            else
              let context := { context with lz4_state := r.2 }
              match store_block_length output_size.toNat context.store_comp_size with
              | none => some (.error ⟨.LZ4StreamError, "Compressed stream size too large"⟩, context)
              | some header =>
                (exactInt (output_size + context.store_comp_size)).bind fun output_size =>
                  if (total_size : Int) < output_size then none
                  else if call.allocated then
                    some (.ok ⟨context.return_bytearray, header ++ r.1⟩,
                      { context with
                        double_buffer := double_buffer_update_index context.double_buffer })
                  else some (.error PyErr_NoMemory, context)

/-- What becomes of a chunk that fits. -/
theorem Sized.block (hsized : Sized args c)
    (hcreate : create_context args place mem = .ok (.compress c₀)) {call : CompressCall}
    (hfast : RoomSpec call.coder.fast) (hhc : RoomSpec call.coder.hc)
    (hfits : call.source.length ≤ args.buffer_size) :
    ∃ block state header,
      compress_generic call.coder (copied c call.source) call.source.length = (block, state) ∧
      1 ≤ block.length ∧ block.length ≤ get_compress_bound args.buffer_size ∧
      store_block_length block.length c.store_comp_size = some header ∧
      header.length = args.store_comp_size := by
  obtain ⟨hscs, hmax, hheader, -⟩ := create_context_sizes hcreate
  have hsource : call.source.length ≤ LZ4_MAX_INPUT_SIZE := Nat.le_trans hfits hmax
  have hbound : LZ4_compressBound call.source.length ≤ get_compress_bound args.buffer_size := by
    rw [get_compress_bound, compressBound_of_le hsource, compressBound_of_le hmax]
    have hdiv : call.source.length / 255 ≤ args.buffer_size / 255 := Nat.div_le_div_right hfits
    omega
  have hint : LZ4_compressBound args.buffer_size + 4 ≤ INT_MAX := Container.compressBound_add_hdr_le
  obtain ⟨encode, hencode, w, level, hblock⟩ := compress_generic_block call.coder c call.source
  have hspec : RoomSpec encode := by
    rcases hencode with rfl | rfl
    · exact hfast
    · exact hhc
  obtain ⟨hpos, hle⟩ := hspec.length w call.source c.output_len level hsource
    (by rw [hsized.output_len]; exact hbound)
  rw [← hblock] at hpos hle
  cases hgeneric : compress_generic call.coder (copied c call.source) call.source.length with
  | mk block state =>
    rw [hgeneric] at hpos hle
    have hle' : block.length ≤ get_compress_bound args.buffer_size := Nat.le_trans hle hbound
    obtain ⟨header, hstore⟩ := store_block_length_of_le hscs (Nat.le_trans hle' hheader)
      (by rw [get_compress_bound] at hle'; omega)
    refine ⟨block, state, header, rfl, hpos, hle', ?_, length_store_block_length hstore⟩
    rw [hsized.store_comp_size]
    exact hstore

/-- No operation of a call leaves its type or the output buffer. -/
theorem Sized.compressCall_checked (hsized : Sized args c)
    (hcreate : create_context args place mem = .ok (.compress c₀)) {call : CompressCall}
    (hfast : RoomSpec call.coder.fast) (hhc : RoomSpec call.coder.hc) :
    compressCall_checked (total_size args) c call = some (CompressRuns.compressCall c call) := by
  unfold CompressRuns.compressCall_checked CompressRuns.compressCall
  by_cases hlong : c.double_buffer.page_size < call.source.length
  · rw [if_pos hlong, if_pos hlong]
  rw [if_neg hlong, if_neg hlong]
  have hfits : call.source.length ≤ args.buffer_size := by
    rw [← hsized.page_size]
    exact Nat.le_of_not_lt hlong
  obtain ⟨hscs, hmax, -, htotal⟩ := create_context_sizes hcreate
  have hM : LZ4_MAX_INPUT_SIZE = 2113929216 := rfl
  have hI : INT_MAX = 2147483647 := rfl
  have hint : get_compress_bound args.buffer_size + 4 ≤ INT_MAX := Container.compressBound_add_hdr_le
  have hscs4 : args.store_comp_size ≤ 4 := by
    simp only [List.mem_cons, List.not_mem_nil, or_false] at hscs
    omega
  obtain ⟨block, state, header, hgeneric, hpos, hle, hstore, -⟩ :=
    hsized.block hcreate hfast hhc hfits
  have hlen := hsized.output_len
  have hcs := hsized.store_comp_size
  have hcopied : store_block_length block.length (copied c call.source).store_comp_size =
      some header := hstore
  have hsum : ((block.length : Nat) : Int) + (copied c call.source).store_comp_size =
      ((block.length + args.store_comp_size : Nat) : Int) := by
    rw [Int.natCast_add, ← hcs]
    rfl
  rw [exactInt_natCast (by omega), Option.bind_some, exactInt_natCast (by omega),
    Option.bind_some, if_neg (by omega)]
  simp only [Int.toNat_natCast, hgeneric, hcopied]
  rw [exactInt_natCast (by omega), Option.bind_some, if_neg (by omega), if_neg (by omega)]
  simp only [Int.toNat_natCast, hcopied, hsum]
  rw [exactInt_natCast (by omega), Option.bind_some, if_neg (by omega)]
  split_ifs <;> rfl

/-- In every reachable state a chunk is compressed exactly when it fits in a page. Then the library
makes a block, the block has a header, both fit in the output buffer, and none of the sums and
conversions on the way wraps. -/
theorem compress_succeeds_iff (hcreate : create_context args place mem = .ok (.compress c₀))
    (hreachable : Reachable c₀ c) {call : CompressCall} (hfast : RoomSpec call.coder.fast)
    (hhc : RoomSpec call.coder.hc) (hallocated : call.allocated = true) :
    ((∃ result, (compressCall c call).1 = .ok result) ↔
      call.source.length ≤ args.buffer_size) ∧
    (call.source.length ≤ args.buffer_size → ∃ block state header,
      compress_generic call.coder (copied c call.source) call.source.length = (block, state) ∧
      0 < block.length ∧
      store_block_length block.length c.store_comp_size = some header ∧
      (compressCall c call).1 = .ok ⟨c.return_bytearray, header ++ block⟩ ∧
      args.store_comp_size + block.length ≤ total_size args) ∧
    get_compress_bound_checked args.buffer_size = some (get_compress_bound args.buffer_size) ∧
    total_size args = get_compress_bound args.buffer_size + args.store_comp_size ∧
    args.buffer_size * 2 < 2 ^ 32 ∧
    compressCall_checked (total_size args) c call = some (compressCall c call) := by
  obtain ⟨calls, rfl⟩ := hreachable
  have hsized := (sized_create hcreate).runCalls calls
  obtain ⟨-, hmax, -, htotal⟩ := create_context_sizes hcreate
  have hM : LZ4_MAX_INPUT_SIZE = 2113929216 := rfl
  generalize (runCalls c₀ calls).2 = context at hsized ⊢
  have hmade : call.source.length ≤ args.buffer_size → ∃ block state header,
      compress_generic call.coder (copied context call.source) call.source.length =
        (block, state) ∧
      0 < block.length ∧
      store_block_length block.length context.store_comp_size = some header ∧
      (compressCall context call).1 = .ok ⟨context.return_bytearray, header ++ block⟩ ∧
      args.store_comp_size + block.length ≤ total_size args := by
    intro hfits
    obtain ⟨block, state, header, hgeneric, hpos, hle, hstore, -⟩ :=
      hsized.block hcreate hfast hhc hfits
    refine ⟨block, state, header, hgeneric, hpos, hstore, ?_, by omega⟩
    have hcopied : store_block_length block.length (copied context call.source).store_comp_size =
        some header := hstore
    have hpage := hsized.page_size
    unfold compressCall
    rw [if_neg (by omega)]
    simp only [hgeneric]
    rw [if_neg (by omega)]
    simp only [hcopied]
    rw [if_pos hallocated]
    rfl
  refine ⟨⟨?_, fun hfits => ?_⟩, hmade, get_compress_bound_checked_eq (by omega), htotal,
    by omega, hsized.compressCall_checked hcreate hfast hhc⟩
  · rintro ⟨result, hresult⟩
    by_contra hlong
    -- a chunk that is too long is turned down before anything else
    have hpage := hsized.page_size
    unfold compressCall at hresult
    rw [if_pos (by omega)] at hresult
    cases hresult
  · obtain ⟨block, state, header, -, -, -, hresult, -⟩ := hmade hfits
    exact ⟨_, hresult⟩

theorem literalEncoder_room : RoomSpec literalEncoder where
  length w source n level hsource hn := by
    obtain ⟨hpos, hlt⟩ := literalEncoder_spec.length w source n level hsource hn
    exact ⟨hpos, Nat.le_of_lt hlt⟩

/-- A chunk of three bytes, after one that is too long and one whose result could not be
allocated. -/
theorem compress_succeeds_three :
    ∃ c₀ c, create_context smallArgs lowPlacement (fun _ => 0) = .ok (.compress c₀) ∧
      Reachable c₀ c ∧
      ((∃ result, (compressCall c ⟨⟨literalEncoder, literalEncoder⟩, [1, 2, 3], true⟩).1 =
        .ok result) ↔ ([1, 2, 3] : List UInt8).length ≤ smallArgs.buffer_size) := by
  have hcreate : create_context smallArgs lowPlacement (fun _ => 0) =
      .ok (.compress (compressContext smallArgs lowPlacement (fun _ => 0) .DEFAULT)) := rfl
  have hreachable : Reachable (compressContext smallArgs lowPlacement (fun _ => 0) .DEFAULT)
      (runCalls (compressContext smallArgs lowPlacement (fun _ => 0) .DEFAULT)
        [⟨⟨literalEncoder, literalEncoder⟩, List.replicate 17 0, true⟩,
          ⟨⟨literalEncoder, literalEncoder⟩, [1], false⟩]).2 := ⟨_, rfl⟩
  exact ⟨_, _, hcreate, hreachable,
    (@compress_succeeds_iff smallArgs lowPlacement (fun _ => 0) _ _ hcreate hreachable
      ⟨⟨literalEncoder, literalEncoder⟩, [1, 2, 3], true⟩ literalEncoder_room literalEncoder_room
      rfl).1⟩

end PythonLz4.Stream.CompressRuns
