import PythonLz4.Block.HistoryCongruence
import PythonLz4.Stream.Framing

/-!
# Calls of `decompress` that raise

A call that `_decompress` turns down leaves the context as it is. A call that fails in the decoder
does not: the page it was decoded to holds the output of the sequences in front of the error, and
`LZ4_decompress_safe_continue` may have moved the last segment to the external dictionary. The page
index stays. The blocks that follow come out as without the failed calls as long as no byte the next
block can refer to lies in the page (`decompress_after_failures`).
-/

set_option autoImplicit false

namespace PythonLz4.Stream.FailedCalls

open PythonLz4.Runtime
open PythonLz4.Lib.HistoryWindow
open PythonLz4.Lib.ByteMemory
open PythonLz4.Lib.RecordStream
open PythonLz4.Block.DecompressGeneric
open PythonLz4.Block.LastLiterals
open PythonLz4.Stream.Continue
open PythonLz4.Stream.Context
open PythonLz4.Stream.Mirror
open PythonLz4.Stream.Compressors
open PythonLz4.Stream.Session
open PythonLz4.Stream.Framing

/-! ## What a failed call leaves behind -/

/-- The output of the loops when they end, for whatever reason. -/
def decodeLoopOutput (P : DecodeCall) : Nat → Bool → List UInt8 → List UInt8 → List UInt8
  | 0, _, _, out => out
  | fuel + 1, fast, ip, out =>
    match if fast then fastStep P ip out else safeStep P ip out with
    | .outputError _ => out
    | .finished out' => out'
    | .next fast' ip' out' => decodeLoopOutput P fuel fast' ip' out'

/-- The output of the sequences `LZ4_decompress_generic` has completed when it returns. -/
def outputWritten (LZ4_FAST_DEC_LOOP : Bool) (P : DecodeCall) (src : List UInt8) : List UInt8 :=
  if P.outputSize = 0 ∨ src = [] then []
  else
    decodeLoopOutput P src.length
      (LZ4_FAST_DEC_LOOP && decide (FASTLOOP_SAFE_DISTANCE ≤ P.outputSize)) src []

/-- The call `LZ4_decompress_safe_continue` makes for a block decoded at `dest`. -/
def safeContinueCall (found : Memory) (lz4sd : LZ4_streamDecode_t) (dest maxOutputSize : Nat) :
    DecodeCall :=
  if lz4sd.prefixSize = 0 then ⟨.noDict, [], [], maxOutputSize⟩
  else if lz4sd.prefixEnd = dest then
    let before := load found (dest - lz4sd.prefixSize) lz4sd.prefixSize
    if KB64 - 1 ≤ lz4sd.prefixSize then ⟨.withPrefix64k, window KB64 before, [], maxOutputSize⟩
    else if lz4sd.extDictSize = 0 then ⟨.noDict, before, [], maxOutputSize⟩
    else ⟨.usingExtDict, before, load found lz4sd.externalDict lz4sd.extDictSize, maxOutputSize⟩
  else
    ⟨.usingExtDict, [], load found (lz4sd.prefixEnd - lz4sd.prefixSize) lz4sd.prefixSize,
      maxOutputSize⟩

/-- The record after a call that failed: a segment that does not end at `dest` has become the
external dictionary. -/
def redirected (st : LZ4_streamDecode_t) (dest : Nat) : LZ4_streamDecode_t :=
  if st.prefixSize = 0 then st
  else if st.prefixEnd = dest then st
  else
    { st with
      extDictSize := st.prefixSize
      externalDict := st.prefixEnd - st.prefixSize }

theorem decompress_safe_continue_eq (fastLoop : Bool) (scratch : Scratch) (mem : Memory)
    (st : LZ4_streamDecode_t) (source : List UInt8) (dest cap : Nat) :
    LZ4_decompress_safe_continue fastLoop scratch mem st source dest cap =
      match LZ4_decompress_generic fastLoop
        (safeContinueCall (clobber mem dest cap scratch.during) st dest cap) source with
      | .error e => (.error e, redirected st dest)
      | .ok out =>
        (.ok (out, store (clobber mem dest cap scratch.after) dest out),
          advance st dest out.length) := by
  unfold LZ4_decompress_safe_continue safeContinueCall redirected advance
  generalize clobber mem dest cap scratch.during = found
  by_cases hnone : st.prefixSize = 0
  · simp only [if_pos hnone, LZ4_decompress_safe]
    cases LZ4_decompress_generic fastLoop ⟨.noDict, [], [], cap⟩ source with
    | error e => rfl
    | ok out =>
      simp only
      split_ifs <;> rfl
  simp only [if_neg hnone]
  by_cases hroll : st.prefixEnd = dest
  · simp only [if_pos hroll]
    have hresult : (if KB64 - 1 ≤ st.prefixSize then
          LZ4_decompress_safe_withPrefix64k fastLoop source cap
            (load found (dest - st.prefixSize) st.prefixSize)
        else if st.extDictSize = 0 then
          LZ4_decompress_safe_withSmallPrefix fastLoop source cap
            (load found (dest - st.prefixSize) st.prefixSize)
        else
          LZ4_decompress_safe_doubleDict fastLoop source cap
            (load found (dest - st.prefixSize) st.prefixSize)
            (load found st.externalDict st.extDictSize)) =
        LZ4_decompress_generic fastLoop
          (if KB64 - 1 ≤ st.prefixSize then
            ⟨.withPrefix64k, window KB64 (load found (dest - st.prefixSize) st.prefixSize), [], cap⟩
          else if st.extDictSize = 0 then
            ⟨.noDict, load found (dest - st.prefixSize) st.prefixSize, [], cap⟩
          else
            ⟨.usingExtDict, load found (dest - st.prefixSize) st.prefixSize,
              load found st.externalDict st.extDictSize, cap⟩) source := by
      split_ifs <;> rfl
    rw [hresult]
    generalize LZ4_decompress_generic fastLoop _ source = result
    cases result with
    | error e => rfl
    | ok out =>
      simp only
      split_ifs with hzero
      · simp [hzero]
      · rfl
  · simp only [if_neg hroll, LZ4_decompress_safe_forceExtDict]
    cases LZ4_decompress_generic fastLoop
      ⟨.usingExtDict, [], load found (st.prefixEnd - st.prefixSize) st.prefixSize, cap⟩ source with
    | error e => rfl
    | ok out =>
      simp only
      split_ifs <;> rfl

/-- The memory after a call of the decoder that failed: only the page has changed. -/
def memoryAfterError (fastLoop : Bool) (scratch : Scratch) (mem : Memory)
    (lz4sd : LZ4_streamDecode_t) (source : List UInt8) (dest maxOutputSize : Nat) : Memory :=
  clobber mem dest maxOutputSize
    (store scratch.after dest (outputWritten fastLoop
      (safeContinueCall (clobber mem dest maxOutputSize scratch.during) lz4sd dest maxOutputSize)
      source))

/-- The checks `_decompress` makes before it calls the decoder. -/
def passesChecks (context : DecompressContext) (source : List UInt8) : Prop :=
  source.length ≤ store_max_size context.store_comp_size ∧ get_input_bound source.length ≠ 0 ∧
    get_input_bound source.length ≤ context.double_buffer.page_size

instance (context : DecompressContext) (source : List UInt8) :
    Decidable (passesChecks context source) := by
  unfold passesChecks
  infer_instance

/-- The context after a call of `_decompress` that raised. -/
def afterError (fastLoop : Bool) (scratch : Scratch) (context : DecompressContext)
    (source : List UInt8) : DecompressContext :=
  if passesChecks context source then
    let r := LZ4_decompress_safe_continue fastLoop scratch context.mem context.lz4_state source
      context.double_buffer.page context.double_buffer.page_size
    match r.1 with
    | .error _ =>
      { context with
        mem := memoryAfterError fastLoop scratch context.mem context.lz4_state source
          context.double_buffer.page context.double_buffer.page_size
        lz4_state := r.2 }
    | .ok (_, mem) => { context with mem, lz4_state := r.2 }
  else context

/-! ## Runs with failed calls -/

/-- An extra call: its argument, and what the decoder does to its destination. -/
structure ExtraCall where
  scratch : Scratch
  source : List UInt8

/-- The context after extra calls that raised. -/
def afterCalls (fastLoop : Bool) : DecompressContext → List ExtraCall → DecompressContext
  | context, [] => context
  | context, call :: calls =>
    afterCalls fastLoop (afterError fastLoop call.scratch context call.source) calls

/-- `_decompress` on a valid block: the decoder writes only the bytes it returns. -/
def decompressValid (fastLoop : Bool) (context : DecompressContext) (block : List UInt8) :
    Except PyErr (PyBytes × DecompressContext) :=
  decompress fastLoop ⟨context.mem, context.mem⟩ context block

/-- The blocks one by one, each after some extra calls. -/
def decompressAll (fastLoop : Bool) :
    DecompressContext → List (List ExtraCall × List UInt8) → Except PyErr (List PyBytes)
  | _, [] => .ok []
  | context, (calls, block) :: rest =>
    match decompressValid fastLoop (afterCalls fastLoop context calls) block with
    | .error e => .error e
    | .ok (out, context') =>
      match decompressAll fastLoop context' rest with
      | .error e => .error e
      | .ok outs => .ok (out :: outs)

/-- The same blocks without the extra calls. -/
def withoutCalls (items : List (List ExtraCall × List UInt8)) :
    List (List ExtraCall × List UInt8) := items.map fun item => ([], item.2)

/-- `Q` holds of each of the calls in the context it is made in. -/
def CallsSatisfy (fastLoop : Bool) (Q : DecompressContext → ExtraCall → Prop) :
    DecompressContext → List ExtraCall → Prop
  | _, [] => True
  | context, call :: calls =>
    Q context call ∧
      CallsSatisfy fastLoop Q (afterError fastLoop call.scratch context call.source) calls

/-- `Q` holds of each extra call of a run in the context it is made in. -/
def EveryCall (fastLoop : Bool) (Q : DecompressContext → ExtraCall → Prop) :
    DecompressContext → List (List ExtraCall × List UInt8) → Prop
  | _, [] => True
  | context, (calls, block) :: rest =>
    CallsSatisfy fastLoop Q context calls ∧
      match decompressValid fastLoop (afterCalls fastLoop context calls) block with
      | .error _ => True
      | .ok (_, context') => EveryCall fastLoop Q context' rest

/-- The call raises. -/
def Raises (fastLoop : Bool) (context : DecompressContext) (call : ExtraCall) : Prop :=
  ∃ e, decompress fastLoop call.scratch context call.source = .error e

/-- The addresses a block decoded at `dest` can refer to: the last 65535 bytes of the recorded
window. -/
def InReach (st : LZ4_streamDecode_t) (dest a : Nat) : Prop :=
  st.prefixSize ≠ 0 ∧
    if st.prefixEnd = dest then
      (dest - st.prefixSize ≤ a ∧ a < dest ∧ dest < a + KB64) ∨
        (st.prefixSize < KB64 - 1 ∧ st.externalDict ≤ a ∧ a < st.externalDict + st.extDictSize ∧
          st.externalDict + st.extDictSize + st.prefixSize < a + KB64)
    else st.prefixEnd - st.prefixSize ≤ a ∧ a < st.prefixEnd ∧ st.prefixEnd < a + KB64

/-- None of these addresses lies in the current page. -/
def HistoryClear (context : DecompressContext) : Prop :=
  ∀ a, InReach context.lz4_state context.double_buffer.page a →
    ¬ (context.double_buffer.page ≤ a ∧
      a < context.double_buffer.page + context.double_buffer.page_size)

/-- The call is turned down by a check, or no byte in reach lies in the page. -/
def Harmless (context : DecompressContext) (call : ExtraCall) : Prop :=
  passesChecks context call.source → HistoryClear context

/-! ## The addresses in reach -/

/-- A record as `_decompress` keeps it. -/
structure WellPlaced (st : LZ4_streamDecode_t) : Prop where
  size_le : st.prefixSize ≤ st.prefixEnd
  no_dict : st.prefixSize = 0 → st.extDictSize = 0

theorem WellPlaced.advance {st : LZ4_streamDecode_t} (h : WellPlaced st) (dest n : Nat) :
    WellPlaced (advance st dest n) := by
  have hsize := h.size_le
  have hdict := h.no_dict
  unfold Mirror.advance
  split_ifs with h1 h2 h3 h4
  · exact h
  · exact ⟨Nat.le_add_left _ _, fun h0 => absurd h0 h2⟩
  · exact ⟨Nat.add_le_add_right hsize n, fun h0 => absurd (Nat.eq_zero_of_add_eq_zero_right h0) h1⟩
  · exact ⟨hsize, fun h0 => absurd h0 h1⟩
  · exact ⟨Nat.le_add_left _ _, fun h0 => absurd h0 h4⟩

theorem WellPlaced.redirected {st : LZ4_streamDecode_t} (h : WellPlaced st) (dest : Nat) :
    WellPlaced (redirected st dest) := by
  unfold FailedCalls.redirected
  split_ifs with h1 h2
  · exact h
  · exact h
  · exact ⟨h.size_le, fun h0 => absurd h0 h1⟩

/-- A failed call changes nothing about what is in reach. -/
theorem inReach_redirected {st : LZ4_streamDecode_t} {dest a : Nat} :
    InReach (redirected st dest) dest a ↔ InReach st dest a := by
  unfold redirected
  split_ifs with h1 h2
  · exact Iff.rfl
  · exact Iff.rfl
  · simp only [InReach, if_neg h2]

/-- What is in reach after a block was in reach before it, or is its output. -/
theorem inReach_advance {st : LZ4_streamDecode_t} (h : WellPlaced st) {dest n dest' a : Nat}
    (ha : InReach (advance st dest n) dest' a) :
    (dest ≤ a ∧ a < dest + n) ∨ InReach st dest a := by
  have hsize := h.size_le
  have hdict := h.no_dict
  unfold advance at ha
  by_cases h1 : st.prefixSize = 0
  · -- the first block
    rw [if_pos h1] at ha
    by_cases h2 : n = 0
    · rw [if_pos h2] at ha
      exact absurd h1 ha.1
    · rw [if_neg h2] at ha
      have hzero := hdict h1
      simp only [InReach] at ha
      refine Or.inl ?_
      split_ifs at ha with h3
      · omega
      · omega
  rw [if_neg h1] at ha
  by_cases h2 : st.prefixEnd = dest
  · -- the segment goes on
    rw [if_pos h2] at ha
    simp only [InReach] at ha ⊢
    rw [if_pos h2]
    split_ifs at ha with h3
    · omega
    · omega
  · -- another segment starts
    rw [if_neg h2] at ha
    simp only [InReach] at ha ⊢
    rw [if_neg h2]
    by_cases h4 : n = 0
    · rw [if_pos h4] at ha
      simp only at ha
      split_ifs at ha with h3
      · omega
      · omega
    · rw [if_neg h4] at ha
      simp only at ha
      split_ifs at ha with h3
      · omega
      · omega

/-- The decoder looks at the record as a failed call leaves it. -/
theorem safeContinueCall_redirected (found : Memory) (st : LZ4_streamDecode_t) (dest cap : Nat) :
    safeContinueCall found (redirected st dest) dest cap = safeContinueCall found st dest cap := by
  unfold redirected
  split_ifs with h1 h2
  · rfl
  · rfl
  · simp only [safeContinueCall, if_neg h2]

theorem advance_redirected (st : LZ4_streamDecode_t) (dest n : Nat) :
    advance (redirected st dest) dest n = advance st dest n := by
  unfold redirected
  split_ifs with h1 h2
  · rfl
  · rfl
  · simp only [advance, if_neg h1, if_neg h2]

theorem redirected_redirected (st : LZ4_streamDecode_t) (dest : Nat) :
    redirected (redirected st dest) dest = redirected st dest := by
  unfold redirected
  split_ifs with h1 h2
  · rfl
  · rfl
  · rfl

/-- Two pieces of memory, one behind the other in the history. -/
theorem agree_append_load {found found' : Memory} {p m q n : Nat}
    (hfront : ∀ i, 0 < i → i ≤ m → i + n ≤ KB64 - 1 → found (p + m - i) = found' (p + m - i))
    (hback : ∀ i, 0 < i → i ≤ n → i ≤ KB64 - 1 → found (q + n - i) = found' (q + n - i)) :
    AgreeBack (KB64 - 1) (load found p m ++ load found q n)
      (load found' p m ++ load found' q n) := by
  intro i h0 hk hi
  rw [List.length_append, length_load, length_load] at hi
  refine ⟨by rw [List.length_append, length_load, length_load]; exact hi, ?_⟩
  simp only [List.length_append, length_load]
  rcases Nat.lt_or_ge n i with hlt | hge
  · have e : m + n - i = m - (i - n) := by omega
    have hm : m - (i - n) < m := by omega
    rw [e, List.getElem?_append_left (by rwa [length_load]),
      List.getElem?_append_left (by rwa [length_load]),
      getElem?_load_back found p (by omega) (by omega),
      getElem?_load_back found' p (by omega) (by omega),
      hfront (i - n) (by omega) (by omega) (by omega)]
  · have e : m + n - i - m = n - i := by omega
    rw [List.getElem?_append_right (by rw [length_load]; omega),
      List.getElem?_append_right (by rw [length_load]; omega), length_load, length_load, e,
      getElem?_load_back found q h0 hge, getElem?_load_back found' q h0 hge, hback i h0 hge hk]

/-- Where the bytes in reach are the same, a block finds the same history. -/
theorem safeContinueCall_agree {st : LZ4_streamDecode_t} (h : WellPlaced st) {found found' : Memory}
    {dest : Nat} (cap : Nat) (hsame : ∀ a, InReach st dest a → found a = found' a) :
    AgreeBack (KB64 - 1) (safeContinueCall found st dest cap).history
      (safeContinueCall found' st dest cap).history := by
  have hsize := h.size_le
  have h64 : KB64 = 65536 := rfl
  unfold safeContinueCall
  by_cases h1 : st.prefixSize = 0
  · rw [if_pos h1, if_pos h1]
    exact .refl _ _
  rw [if_neg h1, if_neg h1]
  by_cases h2 : st.prefixEnd = dest
  · rw [if_pos h2, if_pos h2]
    have hback : ∀ i, 0 < i → i ≤ st.prefixSize → i ≤ KB64 - 1 →
        found (dest - st.prefixSize + st.prefixSize - i) =
          found' (dest - st.prefixSize + st.prefixSize - i) := by
      intro i h0 hi hk
      refine hsame _ ⟨h1, ?_⟩
      rw [if_pos h2]
      omega
    have hprefix : AgreeBack (KB64 - 1) (load found (dest - st.prefixSize) st.prefixSize)
        (load found' (dest - st.prefixSize) st.prefixSize) := by
      have happend := @agree_append_load found found' 0 0 (dest - st.prefixSize) st.prefixSize
        (fun i h0 hi => absurd hi (by omega)) hback
      simpa using happend
    simp only
    by_cases hlong : KB64 - 1 ≤ st.prefixSize
    · rw [if_pos hlong, if_pos hlong]
      simp only [DecodeCall.history, List.nil_append]
      have hwindow : ∀ x : List UInt8, AgreeBack (KB64 - 1) (window KB64 x) x :=
        fun x => .of_window_eq (window_window _ _) (Nat.sub_le _ _)
      have hwindow' : ∀ x : List UInt8, AgreeBack (KB64 - 1) x (window KB64 x) :=
        fun x => .of_window_eq (window_window _ _).symm (Nat.sub_le _ _)
      exact ((hwindow _).trans hprefix).trans (hwindow' _)
    · rw [if_neg hlong, if_neg hlong]
      by_cases hext : st.extDictSize = 0
      · rw [if_pos hext, if_pos hext]
        simpa [DecodeCall.history] using hprefix
      · rw [if_neg hext, if_neg hext]
        refine agree_append_load (fun i h0 hi hk => hsame _ ⟨h1, ?_⟩) hback
        rw [if_pos h2]
        omega
  · rw [if_neg h2, if_neg h2]
    simp only [DecodeCall.history, List.append_nil]
    have happend := @agree_append_load found found' 0 0 (st.prefixEnd - st.prefixSize)
      st.prefixSize (fun i h0 hi => absurd hi (by omega)) (fun i h0 hi hk => hsame _ ⟨h1, by
        rw [if_neg h2]
        omega⟩)
    simpa using happend

/-- The two calls differ in the bytes of the history only. -/
theorem safeContinueCall_shape (found found' : Memory) (st : LZ4_streamDecode_t)
    (dest cap : Nat) :
    (safeContinueCall found st dest cap).SameShape (safeContinueCall found' st dest cap) ∧
      (safeContinueCall found st dest cap).outputSize = cap ∧
      (safeContinueCall found st dest cap).PrefixComplete := by
  unfold safeContinueCall
  split_ifs with h1 h2 h3 h4
  · exact ⟨⟨rfl, rfl, rfl, rfl⟩, rfl, nofun⟩
  · refine ⟨⟨rfl, rfl, ?_, rfl⟩, rfl, prefix64k_prefixComplete (by rwa [length_load]) cap⟩
    simp only [length_window, length_load]
  · refine ⟨⟨rfl, rfl, ?_, rfl⟩, rfl, nofun⟩
    simp only [length_load]
  · refine ⟨⟨rfl, rfl, ?_, ?_⟩, rfl, nofun⟩
    · simp only [length_load]
    · simp only [length_load]
  · refine ⟨⟨rfl, rfl, rfl, ?_⟩, rfl, nofun⟩
    simp only [length_load]

/-- Where the bytes in reach are the same, the decoder does the same. -/
theorem safeContinueCall_sameSeen {st : LZ4_streamDecode_t} (h : WellPlaced st)
    {found found' : Memory} {dest : Nat} (cap : Nat)
    (hsame : ∀ a, InReach st dest a → found a = found' a) :
    (safeContinueCall found st dest cap).SameSeen (safeContinueCall found' st dest cap) := by
  obtain ⟨hshape, -, hcomplete⟩ := safeContinueCall_shape found found' st dest cap
  exact ⟨hshape, hcomplete, safeContinueCall_agree h cap hsame⟩

/-! ## Two runs side by side -/

/-- A context of the run without extra calls, and the context of the run with them: the same up to
bytes that no block can refer to, and to what a failed call does to the record. -/
structure SameRun (a b : DecompressContext) : Prop where
  double_buffer_eq : a.double_buffer = b.double_buffer
  output_len_eq : a.output_len = b.output_len
  store_comp_size_eq : a.store_comp_size = b.store_comp_size
  return_bytearray_eq : a.return_bytearray = b.return_bytearray
  state_eq : redirected a.lz4_state a.double_buffer.page =
    redirected b.lz4_state a.double_buffer.page
  mem_eq : ∀ x, InReach a.lz4_state a.double_buffer.page x → a.mem x = b.mem x

/-- What every call keeps of a decompression context. -/
structure Ready (d : DecompressContext) : Prop where
  placed : WellPlaced d.lz4_state
  output_len_eq : d.output_len = d.double_buffer.page_size

/-- A successful call of `_decompress`. -/
theorem decompress_ok {fastLoop : Bool} {scratch : Scratch} {context context' : DecompressContext}
    {source : List UInt8} {out : PyBytes}
    (h : decompress fastLoop scratch context source = .ok (out, context')) :
    passesChecks context source ∧
      LZ4_decompress_generic fastLoop (safeContinueCall
        (clobber context.mem context.double_buffer.page context.double_buffer.page_size
          scratch.during) context.lz4_state context.double_buffer.page
          context.double_buffer.page_size) source = .ok out.data ∧
      out.isByteArray = context.return_bytearray ∧ out.data.length ≤ context.output_len ∧
      context' = { context with
        mem := store (clobber context.mem context.double_buffer.page
          context.double_buffer.page_size scratch.after) context.double_buffer.page out.data
        lz4_state := advance context.lz4_state context.double_buffer.page out.data.length
        double_buffer := double_buffer_update_index context.double_buffer } := by
  unfold decompress at h
  by_cases h1 : store_max_size context.store_comp_size < source.length
  · rw [if_pos h1] at h
    cases h
  rw [if_neg h1] at h
  by_cases h2 : get_input_bound source.length = 0 ∨
      context.double_buffer.page_size < get_input_bound source.length
  · rw [if_pos h2] at h
    cases h
  rw [if_neg h2, decompress_safe_continue_eq] at h
  rw [not_or, Nat.not_lt] at h2
  refine ⟨⟨Nat.not_lt.1 h1, h2.1, h2.2⟩, ?_⟩
  generalize LZ4_decompress_generic fastLoop (safeContinueCall _ _ _ _) source = result at h ⊢
  cases result with
  | error e => simp only [reduceCtorEq] at h
  | ok bytes =>
    simp only at h
    split_ifs at h with h3
    simp only [Except.ok.injEq, Prod.mk.injEq] at h
    obtain ⟨rfl, rfl⟩ := h
    exact ⟨rfl, rfl, Nat.not_lt.1 h3, rfl⟩

/-- The converse. -/
theorem decompress_of_decodes {fastLoop : Bool} {scratch : Scratch} {context : DecompressContext}
    {source out : List UInt8} (hchecks : passesChecks context source)
    (hout : LZ4_decompress_generic fastLoop (safeContinueCall
      (clobber context.mem context.double_buffer.page context.double_buffer.page_size
        scratch.during) context.lz4_state context.double_buffer.page
        context.double_buffer.page_size) source = .ok out)
    (hlen : out.length ≤ context.output_len) :
    decompress fastLoop scratch context source = .ok (⟨context.return_bytearray, out⟩,
      { context with
        mem := store (clobber context.mem context.double_buffer.page
          context.double_buffer.page_size scratch.after) context.double_buffer.page out
        lz4_state := advance context.lz4_state context.double_buffer.page out.length
        double_buffer := double_buffer_update_index context.double_buffer }) := by
  obtain ⟨h1, h2, h3⟩ := hchecks
  unfold decompress
  rw [if_neg (Nat.not_lt.2 h1), if_neg (not_or.2 ⟨h2, Nat.not_lt.2 h3⟩),
    decompress_safe_continue_eq, hout]
  simp only
  rw [if_neg (Nat.not_lt.2 hlen)]

/-- A valid block in both runs. -/
theorem SameRun.valid {fastLoop : Bool} {a b a' : DecompressContext} (h : SameRun a b)
    (ha : Ready a) {block : List UInt8} {out : PyBytes}
    (hrun : decompressValid fastLoop a block = .ok (out, a')) :
    ∃ b', decompressValid fastLoop b block = .ok (out, b') ∧ SameRun a' b' ∧ Ready a' ∧
      (Ready b → Ready b') := by
  obtain ⟨hchecks, hout, hbytes, hlen, rfl⟩ := decompress_ok hrun
  obtain ⟨hflag, data⟩ := out
  obtain ⟨mem, double_buffer, output_len, lz4_state, store_comp_size, return_bytearray⟩ := b
  obtain ⟨hbuf, hlenEq, hscs, hbyteEq, hstate, hmem⟩ := h
  simp only at hbuf hlenEq hscs hbyteEq hstate hmem hbytes hlen hout
  subst hbuf hlenEq hscs hbyteEq hbytes
  have hadvance : advance lz4_state a.double_buffer.page data.length =
      advance a.lz4_state a.double_buffer.page data.length := by
    rw [← advance_redirected, ← hstate, advance_redirected]
  rw [clobber_self] at hout
  have hout' : LZ4_decompress_generic fastLoop (safeContinueCall mem lz4_state
      a.double_buffer.page a.double_buffer.page_size) block = .ok data := by
    rw [← safeContinueCall_redirected, ← hstate, safeContinueCall_redirected]
    rw [(safeContinueCall_sameSeen ha.placed _ hmem).decompress_eq]
    exact hout
  have hdec := @decompress_of_decodes fastLoop ⟨mem, mem⟩
    ⟨mem, a.double_buffer, a.output_len, lz4_state, a.store_comp_size, a.return_bytearray⟩ block
    data hchecks (by rw [clobber_self]; exact hout') hlen
  refine ⟨_, hdec, ⟨rfl, rfl, rfl, rfl, ?_, ?_⟩, ⟨ha.placed.advance _ _, ha.output_len_eq⟩,
    fun hb => ⟨hb.placed.advance _ _, hb.output_len_eq⟩⟩
  · simp only [hadvance]
  · intro x hx
    simp only [clobber_self]
    rcases inReach_advance ha.placed hx with hin | hin
    · -- a byte of the output
      rw [store, store, if_pos hin, if_pos hin]
    · by_cases hpage : a.double_buffer.page ≤ x ∧ x < a.double_buffer.page + data.length
      · rw [store, store, if_pos hpage, if_pos hpage]
      · rw [store_of_not_mem hpage, store_of_not_mem hpage, hmem x hin]

/-- A call of the decoder that raised changes the page and redirects the record. -/
theorem afterError_eq {fastLoop : Bool} {b : DecompressContext} (hb : Ready b) {call : ExtraCall}
    (hraises : Raises fastLoop b call) (hchecks : passesChecks b call.source) :
    ∃ mem, afterError fastLoop call.scratch b call.source =
        { b with mem, lz4_state := redirected b.lz4_state b.double_buffer.page } ∧
      ∀ x, ¬ (b.double_buffer.page ≤ x ∧
        x < b.double_buffer.page + b.double_buffer.page_size) → mem x = b.mem x := by
  obtain ⟨e, he⟩ := hraises
  unfold afterError
  rw [if_pos hchecks]
  simp only [decompress_safe_continue_eq]
  cases hgen : LZ4_decompress_generic fastLoop (safeContinueCall
      (clobber b.mem b.double_buffer.page b.double_buffer.page_size call.scratch.during)
      b.lz4_state b.double_buffer.page b.double_buffer.page_size) call.source with
  | error code =>
    exact ⟨_, rfl, fun x hx => clobber_of_not_mem hx⟩
  | ok out =>
    -- the output fits, so the call returned
    obtain ⟨-, hcap, hcomplete⟩ := safeContinueCall_shape
      (clobber b.mem b.double_buffer.page b.double_buffer.page_size call.scratch.during) b.mem
      b.lz4_state b.double_buffer.page b.double_buffer.page_size
    have hlen := ((LZ4_decompress_generic_ok_iff hcomplete).1 hgen).2.length_le
    rw [hcap, ← hb.output_len_eq] at hlen
    rw [decompress_of_decodes hchecks hgen hlen] at he
    cases he

/-- An extra call that raises and is harmless. -/
theorem SameRun.failed {fastLoop : Bool} {a b : DecompressContext} (h : SameRun a b)
    (hb : Ready b) {call : ExtraCall} (hraises : Raises fastLoop b call)
    (hharmless : Harmless b call) :
    SameRun a (afterError fastLoop call.scratch b call.source) ∧
      Ready (afterError fastLoop call.scratch b call.source) := by
  by_cases hchecks : passesChecks b call.source
  · have hclear := hharmless hchecks
    obtain ⟨mem, heq, houtside⟩ := afterError_eq hb hraises hchecks
    rw [heq]
    have hpage := h.double_buffer_eq
    refine ⟨⟨hpage, h.output_len_eq, h.store_comp_size_eq, h.return_bytearray_eq, ?_, ?_⟩,
      ⟨hb.placed.redirected _, hb.output_len_eq⟩⟩
    · rw [h.state_eq, hpage, redirected_redirected]
    · intro x hx
      have hx' : InReach b.lz4_state b.double_buffer.page x := by
        rw [← hpage, ← inReach_redirected, ← h.state_eq, inReach_redirected]
        exact hx
      exact (h.mem_eq x hx).trans (houtside x (hclear x hx')).symm
  · have hsame : afterError fastLoop call.scratch b call.source = b := if_neg hchecks
    rw [hsame]
    exact ⟨h, hb⟩

theorem SameRun.afterCalls {fastLoop : Bool} {a b : DecompressContext} (h : SameRun a b)
    (hb : Ready b) {calls : List ExtraCall} (hraise : CallsSatisfy fastLoop (Raises fastLoop) b calls)
    (hharmless : CallsSatisfy fastLoop Harmless b calls) :
    SameRun a (afterCalls fastLoop b calls) ∧ Ready (afterCalls fastLoop b calls) := by
  induction calls generalizing b with
  | nil => exact ⟨h, hb⟩
  | cons call calls ih =>
    obtain ⟨hnext, hready⟩ := h.failed hb hraise.1 hharmless.1
    exact ih hnext hready hraise.2 hharmless.2

/-- Whole runs. -/
theorem SameRun.decompressAll {fastLoop : Bool} {a b : DecompressContext} (h : SameRun a b)
    (ha : Ready a) (hb : Ready b) {items : List (List ExtraCall × List UInt8)}
    {outs : List PyBytes} (hvalid : decompressAll fastLoop a (withoutCalls items) = .ok outs)
    (hraise : EveryCall fastLoop (Raises fastLoop) b items)
    (hharmless : EveryCall fastLoop Harmless b items) :
    decompressAll fastLoop b items = .ok outs := by
  induction items generalizing a b outs with
  | nil => exact hvalid
  | cons item items ih =>
    obtain ⟨calls, block⟩ := item
    obtain ⟨hraiseHere, hraiseRest⟩ := hraise
    obtain ⟨hharmlessHere, hharmlessRest⟩ := hharmless
    obtain ⟨hsame, hready⟩ := h.afterCalls hb hraiseHere hharmlessHere
    rw [withoutCalls, List.map_cons, FailedCalls.decompressAll] at hvalid
    simp only [FailedCalls.afterCalls] at hvalid
    cases hfirst : decompressValid fastLoop a block with
    | error e =>
      rw [hfirst] at hvalid
      cases hvalid
    | ok r =>
      obtain ⟨out, a'⟩ := r
      obtain ⟨b', hb', hnext, ha', hready'⟩ := hsame.valid ha hfirst
      rw [hfirst] at hvalid
      rw [hb'] at hraiseRest hharmlessRest
      simp only at hvalid hraiseRest hharmlessRest
      cases hrest : FailedCalls.decompressAll fastLoop a' (withoutCalls items) with
      | error e =>
        have hrest' : FailedCalls.decompressAll fastLoop a' (items.map fun item => ([], item.2)) =
            .error e := hrest
        rw [hrest'] at hvalid
        cases hvalid
      | ok outs' =>
        have hrest' : FailedCalls.decompressAll fastLoop a' (items.map fun item => ([], item.2)) =
            .ok outs' := hrest
        rw [hrest'] at hvalid
        have htail := ih hnext ha' (hready' hready) hrest hraiseRest hharmlessRest
        rw [FailedCalls.decompressAll, hb']
        simp only [htail]
        exact hvalid

/-! ## Contexts from `_create_context` -/

/-- What a decompression context was created from. -/
theorem create_context_decompress_fields {args : CreateArgs}
    {dp : Placement args.dictionary.length args.buffer_size} {dmem : Memory}
    {d : DecompressContext} (h : create_context args dp dmem = .ok (.decompress d)) :
    d.double_buffer = ⟨dp.buf, args.buffer_size, 0⟩ ∧ d.output_len = args.buffer_size ∧
      d.lz4_state = LZ4_setStreamDecode dp.dict args.dictionary.length := by
  obtain rfl := create_context_decompress_eq h
  exact ⟨rfl, rfl, rfl⟩

theorem ready_of_create_context {args : CreateArgs}
    {dp : Placement args.dictionary.length args.buffer_size} {dmem : Memory}
    {d : DecompressContext} (h : create_context args dp dmem = .ok (.decompress d)) : Ready d := by
  obtain ⟨hbuffer, houtput, hstate⟩ := create_context_decompress_fields h
  refine ⟨?_, by rw [houtput, hbuffer]⟩
  rw [hstate]
  exact ⟨Nat.le_add_left _ _, fun _ => rfl⟩

theorem SameRun.refl (d : DecompressContext) : SameRun d d :=
  ⟨rfl, rfl, rfl, rfl, rfl, fun _ _ => rfl⟩

/-- A caller sees no context. -/
theorem raises_of_isNone {fastLoop : Bool} {d : DecompressContext} {call : ExtraCall}
    (h : (decompress fastLoop call.scratch d call.source).toOption.isNone = true) :
    Raises fastLoop d call := by
  unfold Raises
  cases hrun : decompress fastLoop call.scratch d call.source with
  | error e => exact ⟨e, rfl⟩
  | ok r =>
    rw [hrun] at h
    cases h

/-! ## A failed call that writes over history -/

/-- Pages of 32 bytes and no dictionary. -/
def pageArgs : CreateArgs where
  strategy := "double_buffer"
  direction := "compress"
  buffer_size := 32

/-- The lowest addresses the two objects can have. -/
def pagePlacement : Placement 0 32 where
  dict := 1
  buf := 2
  buf_ne_null := Nat.two_pos
  dict_ne_null := Nat.one_pos
  apart := by decide

/-- The chunk that fills page 0. -/
def firstChunk : List UInt8 :=
  [10, 11, 12, 13, 14, 15, 16, 17, 18, 19, 20, 21, 22, 23, 24, 25, 26, 27, 28, 29, 30, 31, 32, 33,
    34, 35, 36, 37, 38, 39, 40, 41]

/-- A chunk that starts like the end of page 0. -/
def thirdChunk : List UInt8 := [23, 24, 25, 26, 5, 5, 5, 5, 5, 5, 5, 5, 5]

/-- The window behind `thirdChunk`: the end of page 0 and the four bytes on page 1. -/
def thirdWindow : List UInt8 :=
  [23, 24, 25, 26, 27, 28, 29, 30, 31, 32, 33, 34, 35, 36, 37, 38, 39, 40, 41, 1, 2, 3, 4]

/-- A match of four bytes at distance 23, and nine literals. -/
def thirdBlock : List UInt8 := [0, 23, 0, 0x90, 5, 5, 5, 5, 5, 5, 5, 5, 5]

/-- An encoder that finds this one match. -/
def pageEncoder : Encoder := blockEncoder thirdWindow thirdChunk thirdBlock

theorem pageEncoder_spec : EncoderSpec pageEncoder :=
  blockEncoder_spec (by decide) (by decide) fun cap hcap => by
    have h13 : 13 ≤ cap := hcap
    exact ⟨by omega, decodes_oneMatch rfl rfl h13⟩

/-- Twenty-one bytes, and an offset that reaches too far. -/
def junk : ExtraCall where
  scratch := ⟨fun _ => 255, fun _ => 255⟩
  source := [0x1F, 0xEE, 1, 0, 1, 0, 255, 255, 0, 0, 0, 0, 0, 0]

end PythonLz4.Stream.FailedCalls
