import PythonLz4.Stream.FailedCalls

/-!
# The dictionary after the constructor

`_create_context` hands the address of the caller's dictionary to the library and releases the
buffer: the context keeps a reference, no copy. A run in which the caller writes to that memory
between the calls gives the results of the run without these writes as long as no write changes a
byte that is still in the recorded window (`dictionary_lifetime`).
-/

set_option autoImplicit false

namespace PythonLz4.Stream.DictionaryLifetime

open PythonLz4.Runtime
open PythonLz4.Lib.HistoryWindow
open PythonLz4.Lib.ByteMemory
open PythonLz4.Block.DecompressGeneric
open PythonLz4.Block.LastLiterals
open PythonLz4.Stream.Continue
open PythonLz4.Stream.Context
open PythonLz4.Stream.Mirror
open PythonLz4.Stream.Compressors
open PythonLz4.Stream.Session
open PythonLz4.Stream.FailedCalls

/-! ## Runs with a caller that writes -/

/-- The caller leaves the memory of its dictionary object alone, or it holds `bytes` now. -/
def callerWrites {L B : Nat} (place : Placement L B) (write : Option Memory) (mem : Memory) :
    Memory :=
  match write with
  | none => mem
  | some bytes => clobber mem place.dict L bytes

/-- The context after a call of `_compress` that raised. -/
def afterCompressError (coder : StreamCoder) (context : CompressContext) (source : List UInt8) :
    CompressContext :=
  if context.double_buffer.page_size < source.length then context
  else
    let context := { context with mem := store context.mem context.double_buffer.page source }
    { context with lz4_state := (compress_generic coder context source.length).2 }

/-- `_compress`, with the context after the call. -/
def compressCall (coder : StreamCoder) (context : CompressContext) (source : List UInt8) :
    Except PyErr PyBytes × CompressContext :=
  match compress coder context source with
  | .ok (result, context') => (.ok result, context')
  | .error e => (.error e, afterCompressError coder context source)

/-- `_decompress`, with the context after the call. -/
def decompressCall (fastLoop : Bool) (scratch : Scratch) (context : DecompressContext)
    (source : List UInt8) : Except PyErr PyBytes × DecompressContext :=
  match decompress fastLoop scratch context source with
  | .ok (result, context') => (.ok result, context')
  | .error e => (.error e, afterError fastLoop scratch context source)

/-- The results of compressing chunks one by one, with a write of the caller before each. -/
def compressRun (coder : StreamCoder) {L B : Nat} (place : Placement L B) :
    CompressContext → List (Option Memory × List UInt8) → List (Except PyErr PyBytes)
  | _, [] => []
  | context, (write, chunk) :: rest =>
    let r := compressCall coder { context with mem := callerWrites place write context.mem } chunk
    r.1 :: compressRun coder place r.2 rest

/-- The results of decompressing blocks one by one, with a write of the caller before each. -/
def decompressRun (fastLoop : Bool) {L B : Nat} (place : Placement L B) :
    DecompressContext → List (Option Memory × ExtraCall) → List (Except PyErr PyBytes)
  | _, [] => []
  | context, (write, call) :: rest =>
    let r := decompressCall fastLoop call.scratch
      { context with mem := callerWrites place write context.mem } call.source
    r.1 :: decompressRun fastLoop place r.2 rest

/-- The same calls with a caller that leaves the memory alone. -/
def withoutWrites {α : Type} (items : List (Option Memory × α)) : List (Option Memory × α) :=
  items.map fun item => (none, item.2)

/-! ## Writes that do no harm -/

/-- The addresses in the window a compressor has recorded. -/
def InWindow : CompressState → Nat → Prop
  | .fast st, a => st.dictionary ≤ a ∧ a < st.dictionary + st.dictSize
  | .hc ctx, a => (ctx.dictStart ≤ a ∧ a < ctx.dictStart + ctx.extSize) ∨
      (ctx.prefixStart ≤ a ∧ a < ctx.bufEnd)

/-- The write changes no byte of the window. -/
def Spares {L B : Nat} (place : Placement L B) (window : Nat → Prop) (mem : Memory)
    (write : Option Memory) : Prop :=
  ∀ a, window a → callerWrites place write mem a = mem a

/-- Every write of the run changes no byte of the window recorded when it is made. -/
def CompressSpared (coder : StreamCoder) {L B : Nat} (place : Placement L B) :
    CompressContext → List (Option Memory × List UInt8) → Prop
  | _, [] => True
  | context, (write, chunk) :: rest =>
    Spares place (InWindow context.lz4_state) context.mem write ∧
      CompressSpared coder place
        (compressCall coder { context with mem := callerWrites place write context.mem } chunk).2
        rest

/-- Every write of the run changes no byte that is in reach of the next block. -/
def DecompressSpared (fastLoop : Bool) {L B : Nat} (place : Placement L B) :
    DecompressContext → List (Option Memory × ExtraCall) → Prop
  | _, [] => True
  | context, (write, call) :: rest =>
    Spares place (InReach context.lz4_state context.double_buffer.page) context.mem write ∧
      DecompressSpared fastLoop place
        (decompressCall fastLoop call.scratch
          { context with mem := callerWrites place write context.mem } call.source).2 rest

/-- Outside the dictionary, and on the window, the two memories are the same. -/
def AgreeApart {L B : Nat} (place : Placement L B) (window : Nat → Prop) (mem mem' : Memory) :
    Prop :=
  ∀ a, window a ∨ ¬ (place.dict ≤ a ∧ a < place.dict + L) → mem a = mem' a

theorem AgreeApart.write {L B : Nat} {place : Placement L B} {window : Nat → Prop}
    {mem mem' : Memory} (h : AgreeApart place window mem mem') {write : Option Memory}
    (hspares : Spares place window mem' write) :
    AgreeApart place window mem (callerWrites place write mem') := by
  intro a ha
  rcases ha with hw | hout
  · rw [hspares a hw]
    exact h a (Or.inl hw)
  · have hsame : callerWrites place write mem' a = mem' a := by
      cases write with
      | none => rfl
      | some bytes => exact clobber_of_not_mem hout
    rw [hsame]
    exact h a (Or.inr hout)

/-- After the same bytes have been stored on both sides, the new window may go over them. -/
theorem AgreeApart.store {L B : Nat} {place : Placement L B} {window window' : Nat → Prop}
    {mem mem' : Memory} (h : AgreeApart place window mem mem') (p : Nat) (bytes : List UInt8)
    (hwindow : ∀ a, window' a → (p ≤ a ∧ a < p + bytes.length) ∨ window a) :
    AgreeApart place window' (store mem p bytes) (store mem' p bytes) := by
  intro a ha
  by_cases hin : p ≤ a ∧ a < p + bytes.length
  · rw [Lib.ByteMemory.store, Lib.ByteMemory.store, if_pos hin, if_pos hin]
  · rw [store_of_not_mem hin, store_of_not_mem hin]
    refine h a (ha.imp (fun hw => ?_) id)
    exact (hwindow a hw).resolve_left hin

theorem AgreeApart.clobber {L B : Nat} {place : Placement L B} {window : Nat → Prop}
    {mem mem' : Memory} (h : AgreeApart place window mem mem') (p n : Nat) (scratch : Memory) :
    AgreeApart place window (clobber mem p n scratch) (clobber mem' p n scratch) := by
  intro a ha
  unfold Lib.ByteMemory.clobber
  split_ifs
  · rfl
  · exact h a ha

/-! ## The compressor -/

/-- The window of `LZ4_compress_fast_continue` and the record after it stay inside the window
recorded before, and the source. -/
theorem fastWindow_inWindow (st : LZ4_stream_t) {source : Nat} (hsource : 0 < source) (n : Nat) :
    (∀ a, (fastWindow st source n).1.dictionary ≤ a →
      a < (fastWindow st source n).1.dictionary + (fastWindow st source n).1.dictSize →
        InWindow (.fast st) a) ∧
    (∀ a, InWindow (.fast (fastNext (fastWindow st source n) source n)) a →
      (source ≤ a ∧ a < source + n) ∨ InWindow (.fast st) a) := by
  have hcases := fastWindow_cases st hsource n
  have heq := fun h => @fastNext_of_eq (fastWindow st source n) source n h
  have hne := fun h => @fastNext_of_ne (fastWindow st source n) source n h
  simp only [InWindow]
  generalize fastWindow st source n = r at hcases heq hne ⊢
  rcases hcases with ⟨hend, hzero, hdict, -⟩ | ⟨hend, hzero, -⟩ | ⟨-, hend, hsum, hle, -, -, -⟩
  · obtain ⟨hd, hs⟩ := heq hend
    exact ⟨fun a h1 h2 => by omega, fun a ha => by omega⟩
  · obtain ⟨hd, hs⟩ := hne hend
    exact ⟨fun a h1 h2 => by omega, fun a ha => by omega⟩
  · refine ⟨fun a h1 h2 => by omega, fun a ha => ?_⟩
    by_cases hprefix : r.2 = source
    · obtain ⟨hd, hs⟩ := heq hprefix
      omega
    · obtain ⟨hd, hs⟩ := hne hprefix
      omega

/-- The same for `LZ4_compress_HC_continue`. -/
theorem hcWindow_inWindow (ctx : LZ4_streamHC_t) (src n : Nat) :
    (∀ a, InWindow (.hc (hcWindow ctx src n)) a → InWindow (.hc ctx) a) ∧
    (hcWindow ctx src n).bufEnd = src := by
  have hinit := hcInit_cases ctx src
  simp only [hcWindow, InWindow]
  generalize hcInit ctx src = q at hinit ⊢
  -- what "auto-init" and "Check overflow" leave is part of what was recorded
  have hq : ∀ a, (q.dictStart ≤ a ∧ a < q.dictStart + q.extSize) ∨
      (q.prefixStart ≤ a ∧ a < q.bufEnd) →
      (ctx.dictStart ≤ a ∧ a < ctx.dictStart + ctx.extSize) ∨
        (ctx.prefixStart ≤ a ∧ a < ctx.bufEnd) := by
    intro a ha
    rcases hinit with ⟨-, h1, h2, h3⟩ | ⟨-, rfl⟩ | ⟨-, h1, h2, h3⟩
    · omega
    · exact ha
    · omega
  by_cases hroll : src = q.bufEnd
  · rw [if_neg (not_not.2 hroll)]
    obtain ⟨ht1, ht2, htrim⟩ := hcTrimOverlap_spec q src n
    generalize hcTrimOverlap q src n = r at ht1 ht2 htrim ⊢
    refine ⟨fun a ha => hq a ?_, ht2.trans hroll.symm⟩
    omega
  · rw [if_pos hroll]
    obtain ⟨hs1, hs2, hs3, hs4⟩ := setExternalDict_spec q src
    obtain ⟨ht1, ht2, htrim⟩ := hcTrimOverlap_spec (LZ4HC_setExternalDict q src) src n
    generalize hcTrimOverlap (LZ4HC_setExternalDict q src) src n = r at ht1 ht2 htrim ⊢
    refine ⟨fun a ha => hq a ?_, ht2.trans hs2⟩
    omega

/-- The encoder sees the window and the source, and the new window goes over these. -/
theorem compress_generic_congr (coder : StreamCoder) {c : CompressContext}
    (hpage : 0 < c.double_buffer.page) {mem mem' : Memory} {n : Nat}
    (hsource : load mem c.double_buffer.page n = load mem' c.double_buffer.page n)
    (hwindow : ∀ a, InWindow c.lz4_state a → mem a = mem' a) :
    compress_generic coder { c with mem := mem' } n = compress_generic coder { c with mem } n ∧
      ∀ a, InWindow (compress_generic coder { c with mem } n).2 a →
        (c.double_buffer.page ≤ a ∧ a < c.double_buffer.page + n) ∨ InWindow c.lz4_state a := by
  unfold compress_generic
  simp only
  cases hs : c.lz4_state with
  | fast st =>
    rw [hs] at hwindow
    obtain ⟨hin, hnext⟩ := fastWindow_inWindow st hpage n
    simp only [compress_fast_continue_eq]
    refine ⟨?_, hnext⟩
    rw [hsource, load_congr fun a h1 h2 => hwindow a (hin a h1 h2)]
  | hc ctx =>
    rw [hs] at hwindow
    obtain ⟨hin, hend⟩ := hcWindow_inWindow ctx c.double_buffer.page n
    simp only [LZ4_compress_HC_continue]
    have hhistory : hcHistory mem (hcWindow ctx c.double_buffer.page n) =
        hcHistory mem' (hcWindow ctx c.double_buffer.page n) := by
      unfold hcHistory
      rw [load_congr fun a h1 h2 => hwindow a (hin a (Or.inl ⟨h1, h2⟩)),
        load_congr (n := (hcWindow ctx c.double_buffer.page n).bufEnd -
          (hcWindow ctx c.double_buffer.page n).prefixStart)
          fun a h1 h2 => hwindow a (hin a (Or.inr ⟨h1, by omega⟩))]
    rw [hsource, hhistory]
    refine ⟨rfl, fun a ha => ?_⟩
    have hin' := hin a
    simp only [InWindow, LZ4_streamHC_t.extSize] at ha hin' ⊢
    omega

/-- One call on both sides. -/
theorem compressCall_agree (coder : StreamCoder) {L B : Nat} {place : Placement L B}
    {c : CompressContext} (hpage : 0 < c.double_buffer.buf) {mem' : Memory}
    (h : AgreeApart place (InWindow c.lz4_state) c.mem mem') (chunk : List UInt8) :
    (compressCall coder { c with mem := mem' } chunk).1 = (compressCall coder c chunk).1 ∧
      0 < (compressCall coder c chunk).2.double_buffer.buf ∧
      ∃ mem'', (compressCall coder { c with mem := mem' } chunk).2 =
          { (compressCall coder c chunk).2 with mem := mem'' } ∧
        AgreeApart place (InWindow (compressCall coder c chunk).2.lz4_state)
          (compressCall coder c chunk).2.mem mem'' := by
  unfold compressCall compress afterCompressError
  by_cases hbig : c.double_buffer.page_size < chunk.length
  · simp only [if_pos hbig]
    exact ⟨trivial, hpage, mem', rfl, h⟩
  simp only [if_neg hbig]
  have hpage' : 0 < c.double_buffer.page := Nat.add_pos_left hpage _
  have hsource : load (store c.mem c.double_buffer.page chunk) c.double_buffer.page chunk.length =
      load (store mem' c.double_buffer.page chunk) c.double_buffer.page chunk.length := by
    rw [load_store, load_store]
  have hwindow : ∀ a, InWindow c.lz4_state a →
      store c.mem c.double_buffer.page chunk a = store mem' c.double_buffer.page chunk a :=
    fun a ha => h.store c.double_buffer.page chunk (fun _ => Or.inr) a (Or.inl ha)
  obtain ⟨hsame, hnext⟩ := compress_generic_congr coder hpage' hsource hwindow
  rw [hsame]
  have hagree := h.store c.double_buffer.page chunk hnext
  generalize compress_generic coder
    { c with mem := store c.mem c.double_buffer.page chunk } chunk.length = r at hagree ⊢
  by_cases hfail : r.1.length = 0
  · simp only [if_pos hfail]
    exact ⟨trivial, hpage, _, rfl, hagree⟩
  simp only [if_neg hfail]
  cases store_block_length r.1.length c.store_comp_size with
  | none => exact ⟨rfl, hpage, _, rfl, hagree⟩
  | some header => exact ⟨rfl, hpage, _, rfl, hagree⟩

theorem compressRun_agree (coder : StreamCoder) {L B : Nat} {place : Placement L B}
    {items : List (Option Memory × List UInt8)} {c : CompressContext}
    (hpage : 0 < c.double_buffer.buf) {mem' : Memory}
    (h : AgreeApart place (InWindow c.lz4_state) c.mem mem')
    (hspared : CompressSpared coder place { c with mem := mem' } items) :
    compressRun coder place { c with mem := mem' } items =
      compressRun coder place c (withoutWrites items) := by
  induction items generalizing c mem' with
  | nil => rfl
  | cons item items ih =>
    obtain ⟨write, chunk⟩ := item
    obtain ⟨hhere, hrest⟩ := hspared
    obtain ⟨hresult, hpage', mem'', hcontext, hagree⟩ :=
      compressCall_agree coder hpage (h.write hhere) chunk
    have hctx : ({ ({ c with mem := mem' } : CompressContext) with
        mem := callerWrites place write mem' } : CompressContext) =
        { c with mem := callerWrites place write mem' } := rfl
    rw [hctx, hcontext] at hrest
    have htail := ih hpage' hagree hrest
    simp only [compressRun, withoutWrites, List.map_cons] at htail ⊢
    rw [hresult, hcontext, htail]
    rfl

/-! ## The decompressor -/

theorem decodeLoopOutput_eq {P P' : DecodeCall} (h : P.SameSeen P') (fuel : Nat) (fast : Bool)
    (ip out : List UInt8) :
    decodeLoopOutput P' fuel fast ip out = decodeLoopOutput P fuel fast ip out := by
  induction fuel generalizing fast ip out with
  | zero => rfl
  | succ fuel ih =>
    rw [decodeLoopOutput, decodeLoopOutput, h.fastStep_eq, h.safeStep_eq]
    cases hstep : (if fast then fastStep P ip out else safeStep P ip out) with
    | outputError ip' => rfl
    | finished out' => rfl
    | next fast' ip' out' => exact ih fast' ip' out'

theorem outputWritten_eq {P P' : DecodeCall} (h : P.SameSeen P') (fastLoop : Bool)
    (src : List UInt8) : outputWritten fastLoop P' src = outputWritten fastLoop P src := by
  unfold outputWritten
  rw [← h.shape.outputSize_eq, decodeLoopOutput_eq h]

/-- One call on both sides. -/
theorem decompressCall_agree (fastLoop : Bool) (scratch : Scratch) {L B : Nat}
    {place : Placement L B} {d : DecompressContext} (hd : WellPlaced d.lz4_state) {mem' : Memory}
    (h : AgreeApart place (InReach d.lz4_state d.double_buffer.page) d.mem mem')
    (block : List UInt8) :
    (decompressCall fastLoop scratch { d with mem := mem' } block).1 =
        (decompressCall fastLoop scratch d block).1 ∧
      WellPlaced (decompressCall fastLoop scratch d block).2.lz4_state ∧
      ∃ mem'', (decompressCall fastLoop scratch { d with mem := mem' } block).2 =
          { (decompressCall fastLoop scratch d block).2 with mem := mem'' } ∧
        AgreeApart place (InReach (decompressCall fastLoop scratch d block).2.lz4_state
            (decompressCall fastLoop scratch d block).2.double_buffer.page)
          (decompressCall fastLoop scratch d block).2.mem mem'' := by
  have hreach : ∀ a, InReach d.lz4_state d.double_buffer.page a → clobber d.mem
      d.double_buffer.page d.double_buffer.page_size scratch.during a =
        clobber mem' d.double_buffer.page d.double_buffer.page_size scratch.during a :=
    fun a ha => h.clobber _ _ _ a (Or.inl ha)
  have hseen := safeContinueCall_sameSeen hd d.double_buffer.page_size hreach
  by_cases hchecks : passesChecks d block
  · have hchecks' : passesChecks { d with mem := mem' } block := hchecks
    obtain ⟨h1, h2, h3⟩ := hchecks
    have h1' := Nat.not_lt.2 h1
    have h2' : ¬ (get_input_bound block.length = 0 ∨
        d.double_buffer.page_size < get_input_bound block.length) :=
      not_or.2 ⟨h2, Nat.not_lt.2 h3⟩
    unfold decompressCall decompress afterError
    simp only [if_pos hchecks', if_pos (show passesChecks d block from ⟨h1, h2, h3⟩), if_neg h1',
      if_neg h2', decompress_safe_continue_eq, hseen.decompress_eq]
    have hpage := h.clobber d.double_buffer.page d.double_buffer.page_size scratch.after
    cases LZ4_decompress_generic fastLoop (safeContinueCall (clobber d.mem d.double_buffer.page
        d.double_buffer.page_size scratch.during) d.lz4_state d.double_buffer.page
        d.double_buffer.page_size) block with
    | error e =>
      refine ⟨rfl, hd.redirected _, _, rfl, ?_⟩
      simp only [memoryAfterError, outputWritten_eq hseen]
      intro a ha
      exact h.clobber _ _ _ a (ha.imp inReach_redirected.1 id)
    | ok out =>
      simp only
      by_cases hlong : d.output_len < out.length
      · simp only [if_pos hlong]
        exact ⟨trivial, hd.advance _ _, _, rfl, hpage.store _ out fun a ha => inReach_advance hd ha⟩
      · simp only [if_neg hlong]
        exact ⟨trivial, hd.advance _ _, _, rfl, hpage.store _ out fun a ha => inReach_advance hd ha⟩
  · have hchecks' : ¬ passesChecks { d with mem := mem' } block := hchecks
    unfold decompressCall decompress afterError
    simp only [if_neg hchecks, if_neg hchecks']
    by_cases h1 : store_max_size d.store_comp_size < block.length
    · simp only [if_pos h1]
      exact ⟨trivial, hd, mem', rfl, h⟩
    · have h2 : get_input_bound block.length = 0 ∨
          d.double_buffer.page_size < get_input_bound block.length := by
        by_contra hno
        rw [not_or] at hno
        exact hchecks ⟨Nat.not_lt.1 h1, hno.1, Nat.not_lt.1 hno.2⟩
      simp only [if_neg h1, if_pos h2]
      exact ⟨trivial, hd, mem', rfl, h⟩

theorem decompressRun_agree (fastLoop : Bool) {L B : Nat} {place : Placement L B}
    {items : List (Option Memory × ExtraCall)} {d : DecompressContext}
    (hd : WellPlaced d.lz4_state) {mem' : Memory}
    (h : AgreeApart place (InReach d.lz4_state d.double_buffer.page) d.mem mem')
    (hspared : DecompressSpared fastLoop place { d with mem := mem' } items) :
    decompressRun fastLoop place { d with mem := mem' } items =
      decompressRun fastLoop place d (withoutWrites items) := by
  induction items generalizing d mem' with
  | nil => rfl
  | cons item items ih =>
    obtain ⟨write, call⟩ := item
    obtain ⟨hhere, hrest⟩ := hspared
    obtain ⟨hresult, hd', mem'', hcontext, hagree⟩ :=
      decompressCall_agree fastLoop call.scratch hd (h.write hhere) call.source
    have hctx : ({ ({ d with mem := mem' } : DecompressContext) with
        mem := callerWrites place write mem' } : DecompressContext) =
        { d with mem := callerWrites place write mem' } := rfl
    rw [hctx, hcontext] at hrest
    have htail := ih hd' hagree hrest
    simp only [decompressRun, withoutWrites, List.map_cons] at htail ⊢
    rw [hresult, hcontext, htail]
    rfl

/-! ## The life of a dictionary -/

/-- The dictionary of the examples. -/
def smallDictionary : List UInt8 := [1, 2, 3, 4, 6, 7, 8, 9]

/-- A decompressor with this dictionary and pages of 16 bytes. -/
def dictionaryArgs : CreateArgs where
  strategy := "double_buffer"
  direction := "decompress"
  buffer_size := 16
  dictionary := smallDictionary

/-- The dictionary in front of the pages. -/
def dictionaryPlacement : Placement 8 16 where
  dict := 1
  buf := 10
  buf_ne_null := by decide
  dict_ne_null := Nat.one_pos
  apart := by decide

/-- The first four bytes of the dictionary, and nine fives. -/
def dictionaryBlock : List UInt8 := [0, 8, 0, 0x90, 5, 5, 5, 5, 5, 5, 5, 5, 5]

/-- The call on that block. -/
def dictionaryCall : ExtraCall := ⟨⟨fun _ => 0, fun _ => 0⟩, dictionaryBlock⟩

/-- The same compressor, with an encoder that finds the match. -/
def dictionaryCompressArgs : CreateArgs := { dictionaryArgs with direction := "compress" }

def dictionaryCoder : StreamCoder :=
  ⟨blockEncoder smallDictionary [1, 2, 3, 4, 5, 5, 5, 5, 5, 5, 5, 5, 5] dictionaryBlock,
    blockEncoder smallDictionary [1, 2, 3, 4, 5, 5, 5, 5, 5, 5, 5, 5, 5] dictionaryBlock⟩

end PythonLz4.Stream.DictionaryLifetime
