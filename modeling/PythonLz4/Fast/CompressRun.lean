import PythonLz4.Fast.Matches

/-!
# The main loop of the compressor

The invariant of the main loop is `Running`: the bytes written so far decode to the source up to
`anchor`, in front of every block that decodes to the rest (`Encodes`), they are at most one byte in
255 longer than what they stand for, and no store has gone past the destination. `Jump.Good` adds
what holds at each label. One jump keeps it and comes nearer to the end (`findMatch_good`,
`nextMatch_good`), so the loop ends, and what it returns is what `Compresses` says.
-/

set_option autoImplicit false

namespace PythonLz4.Fast.CompressRun

open PythonLz4.Lib.ByteMemory
open PythonLz4.Lib.LittleEndian
open PythonLz4.Block.DecompressGeneric
open PythonLz4.Block.LastLiterals
open PythonLz4.Block.Container (LZ4_MAX_INPUT_SIZE LZ4_compressBound compressBound_of_le)
open PythonLz4.Frame.CompressionContext (tableType_t LZ4_64Klimit)
open PythonLz4.Fast.CompressGeneric
open PythonLz4.Fast.Sequences
open PythonLz4.Fast.Matches

variable {C : CompressCall}

/-! ## What the output stands for -/

/-- The call that decodes a block with the history in a buffer of its own. -/
def decoder (C : CompressCall) (cap : Nat) : DecodeCall := callOf false (history C) cap

/-- In front of a block that goes on from `n` bytes of the source, `op` makes one that decodes from
the start. -/
def Encodes (C : CompressCall) (op : List UInt8) (n : Nat) : Prop :=
  ∀ (cap : Nat) (rest final : List UInt8), C.inputSize ≤ cap → LASTLITERALS + 1 ≤ rest.length →
    Decodes (decoder C cap) rest (text C n) final → Decodes (decoder C cap) (op ++ rest) [] final

theorem encodes_nil (C : CompressCall) : Encodes C [] 0 := by
  intro cap rest final _ _ h
  exact h

/-- The window up to a match gives the match. -/
theorem matchBytes_window {m : Found} {d n len : Nat} (h : Matched C m d n)
    (hsame : ∀ k, k < len → win C (place C m.ip d + k) = win C (place C m.ip d + d + k)) :
    matchBytes (history C ++ text C (m.ip - C.source)) d len = load C.mem m.ip len := by
  have hplace := place_add h.reach
  have hlen : (history C ++ text C (m.ip - C.source)).length = C.dictSize + (m.ip - C.source) := by
    simp
  have hwhole : history C ++ text C (m.ip - C.source) ++ load C.mem m.ip len =
      history C ++ text C (m.ip - C.source + len) := by
    rw [List.append_assoc, text_add, Nat.add_sub_cancel' h.source_le]
  have hcopy : matchBytes (history C ++ text C (m.ip - C.source)) d len =
      (load C.mem m.ip len).take len := by
    apply matchBytes_of_same h.pos
    · rw [hlen]
      exact h.reach
    · rw [length_load]
    · intro k hk
      have h1 : C.dictSize + (m.ip - C.source) + k = place C m.ip d + d + k := by omega
      have h2 : C.dictSize + (m.ip - C.source) + k - d = place C m.ip d + k := by omega
      rw [hwhole, hlen, h2, h1, getElem?_history_text (by omega), getElem?_history_text (by omega),
        hsame k hk]
  rw [hcopy, List.take_of_length_le (by rw [length_load])]

/-- A sequence is added to the output. -/
theorem Encodes.sequence {op : List UInt8} {anchor : Nat} {m : Found} {d n matchCode : Nat}
    (henc : Encodes C op (anchor - C.source)) (hsource : C.source ≤ anchor)
    (h : Matched C m d n) (hanchor : anchor ≤ m.ip) (hroom : m.ip + MFLIMIT ≤ C.iend)
    (hend : m.ip + (matchCode + MINMATCH) ≤ C.matchlimit)
    (hsame : ∀ k, k < matchCode + MINMATCH →
      win C (place C m.ip d + k) = win C (place C m.ip d + d + k)) :
    Encodes C (op ++ sequenceBytes (load C.mem anchor (m.ip - anchor)) d matchCode)
      (m.ip + (matchCode + MINMATCH) - C.source) := by
  intro cap rest final hcap hrest hnext
  have hiend : C.iend = C.source + C.inputSize := rfl
  have hlimit : C.matchlimit = C.iend - LASTLITERALS := rfl
  have h5 : LASTLITERALS = 5 := rfl
  have h12 : MFLIMIT = 12 := rfl
  have hmax := h.le_max
  have hmax' : LZ4_DISTANCE_MAX = 65535 := rfl
  have h64 : KB64 = 65536 := rfl
  have hlits : text C (anchor - C.source) ++ load C.mem anchor (m.ip - anchor) =
      text C (m.ip - C.source) := by
    have hsplit : m.ip - C.source = anchor - C.source + (m.ip - anchor) := by omega
    rw [hsplit, text_add, Nat.add_sub_cancel' hsource]
  have hhist : (decoder C cap).history = history C := callOf_history false _ cap
  have hcopy := matchBytes_window h hsame
  rw [List.append_assoc]
  apply henc cap _ final hcap
  · rw [List.length_append]
    omega
  · refine decodes_sequence (by omega) hrest ?_ ?_ ?_
    · rw [length_text, length_load, decoder, callOf_outputSize]
      omega
    · rw [hlits]
      constructor
      · intro _
        have hreach := h.reach
        rw [length_text]
        simp only [decoder, callOf, Bool.false_eq_true, if_false, List.length_nil, length_history]
        omega
      · rw [length_text, decoder, callOf_outputSize]
        omega
    · have hgoes : text C (m.ip - C.source) ++ load C.mem m.ip (matchCode + MINMATCH) =
          text C (m.ip + (matchCode + MINMATCH) - C.source) := by
        have hsum : m.ip + (matchCode + MINMATCH) - C.source =
            m.ip - C.source + (matchCode + MINMATCH) := by
          have hip := h.source_le
          omega
        rw [hsum, text_add, Nat.add_sub_cancel' h.source_le]
      rw [hlits, hhist, hcopy, hgoes]
      exact hnext

/-! ## The invariant -/

/-- The size of the destination: what the caller says, or what the caller of an unlimited call
promises. -/
def bound (C : CompressCall) : Nat :=
  if C.limitedOutput then C.maxOutputSize else LZ4_compressBound C.inputSize

theorem le_bound (hmax : C.inputSize ≤ LZ4_MAX_INPUT_SIZE) {x : Nat}
    (hlimited : C.limitedOutput = true → x ≤ C.maxOutputSize)
    (hworst : x ≤ C.inputSize + C.inputSize / 255 + 16) : x ≤ bound C := by
  rw [bound]
  split_ifs with h
  · exact hlimited h
  · rwa [compressBound_of_le hmax]

/-- What holds of the output whenever a sequence is complete. -/
structure Running (C : CompressCall) (s : Progress) : Prop where
  source_le : C.source ≤ s.anchor
  encodes : Encodes C s.op (s.anchor - C.source)
  length_le : s.op.length ≤ s.anchor - C.source + (s.anchor - C.source) / 255
  room : C.limitedOutput = true → s.op = [] ∨ s.op.length + (1 + LASTLITERALS) ≤ C.maxOutputSize
  touched_le : s.touched ≤ bound C

/-- What holds where the main loop goes on. A match of `n` bytes has been compared up to four bytes
behind the last position in the table. -/
def Jump.Good (C : CompressCall) (old : Nat → Prop) : Jump → Prop
  | .findMatch ip s => Running C s ∧ ip = s.anchor + 1 ∧ ip ≤ C.mflimitPlusOne ∧
      Entries C old s.hashTable ip
  | .nextMatch token behind m s => Running C s ∧ ∃ d n, Matched C m d n ∧ MINMATCH ≤ n ∧
      s.anchor ≤ m.ip ∧ m.ip + n + (MFLIMIT - MINMATCH) ≤ C.iend ∧
      token = runCode (m.ip - s.anchor) <<< ML_BITS ∧
      behind = runBytes (m.ip - s.anchor) ++ load C.mem s.anchor (m.ip - s.anchor) ∧
      (C.limitedOutput = true → s.op.length + 1 + behind.length + 2 ≤ C.maxOutputSize) ∧
      Entries C old s.hashTable (m.ip + n - MINMATCH + 1)
  | .lastLiterals s => Running C s ∧ s.anchor + LASTLITERALS ≤ C.iend ∧
      Entries C old s.hashTable C.mflimitPlusOne
  | .returnZero s => C.limitedOutput = true ∧ C.maxOutputSize < LZ4_compressBound C.inputSize ∧
      s.touched ≤ bound C ∧ Entries C old s.hashTable C.mflimitPlusOne

/-- How far the loop is from its end. -/
def Jump.left (C : CompressCall) : Jump → Nat
  | .findMatch _ s => 2 * (C.iend - s.anchor) + 1
  | .nextMatch _ _ _ s => 2 * (C.iend - s.anchor)
  | .lastLiterals _ => 0
  | .returnZero _ => 0

section Steps

variable {old : Nat → Prop}

/-- The table is no part of the output. -/
theorem Running.with_table {s : Progress} (h : Running C s) (hashTable : HashTable) :
    Running C { s with hashTable } :=
  ⟨h.source_le, h.encodes, h.length_le, h.room, h.touched_le⟩

theorem Running.with_touched {s : Progress} (h : Running C s) {touched : Nat}
    (ht : touched ≤ bound C) : Running C { s with touched } :=
  ⟨h.source_le, h.encodes, h.length_le, h.room, ht⟩

/-- From the top of the main loop to the next label. -/
theorem findMatch_good (hv : Valid C) (hfits : ∀ e, old e → e < C.startIndex → Fits C e)
    (hsize : MFLIMIT < C.inputSize) (hmax : C.inputSize ≤ LZ4_MAX_INPUT_SIZE) {ip : Nat}
    {s : Progress} (h : Jump.Good C old (.findMatch ip s)) :
    ∃ j, findMatch C ip s = some j ∧ Jump.Good C old j ∧
      Jump.left C j < Jump.left C (.findMatch ip s) := by
  obtain ⟨hrun, rfl, hlim, hentries⟩ := h
  have hiend : C.iend = C.source + C.inputSize := rfl
  have hmf : C.mflimitPlusOne = C.iend - MFLIMIT + 1 := rfl
  have h12 : MFLIMIT = 12 := rfl
  have h4 : MINMATCH = 4 := rfl
  have h5 : LASTLITERALS = 5 := rfl
  have hsource := hrun.source_le
  have hnb : 1 <<< LZ4_skipTrigger ≤ C.acceleration <<< LZ4_skipTrigger := by
    rw [Nat.shiftLeft_eq, Nat.shiftLeft_eq]
    exact Nat.mul_le_mul_right _ hv.acceleration_pos
  have hfuel : C.mflimitPlusOne - (s.anchor + 1) < C.inputSize := by omega
  rw [findMatch]
  rcases search_spec hv hfits hsize (Nat.le_succ_of_le hsource) hlim Nat.one_pos hnb hfuel
    hentries with ⟨t, hsearch, ht⟩ | ⟨m, d, t, hsearch, hge, hend, hmatched, ht⟩
  · rw [hsearch]
    refine ⟨_, rfl, ⟨hrun.with_table t, ?_, ht⟩, Nat.succ_pos _⟩
    simp only
    omega
  · rw [hsearch]
    obtain ⟨i, hcaught, hi, hback⟩ := hmatched.caught hv hsource (by omega)
    simp only [hcaught]
    have hlen := hrun.length_le
    have hbytes := length_runBytes (m.ip - i - s.anchor)
    by_cases hfull : C.limitedOutput = true ∧ C.maxOutputSize <
        s.op.length + 1 + (m.ip - i - s.anchor) + (2 + 1 + LASTLITERALS) +
          (m.ip - i - s.anchor) / 255
    · rw [if_pos hfull]
      refine ⟨_, rfl, ⟨hfull.1, ?_, hrun.touched_le, ht.mono (by omega)⟩, Nat.succ_pos _⟩
      rw [compressBound_of_le hmax]
      omega
    · rw [if_neg hfull]
      have htouched : s.op.length + 1 + (runBytes (m.ip - i - s.anchor)).length +
          LZ4_wildCopy8 (m.ip - i - s.anchor) ≤ bound C := by
        apply le_bound hmax
        · intro hl
          have hok : ¬ _ := fun hcon => hfull ⟨hl, hcon⟩
          rw [LZ4_wildCopy8]
          omega
        · rw [LZ4_wildCopy8]
          omega
      refine ⟨_, rfl, ⟨(hrun.with_table t).with_touched (Nat.max_le.2 ⟨hrun.touched_le, htouched⟩),
        d, i + MINMATCH, hback, Nat.le_add_left _ _, ?_, ?_, rfl, rfl, ?_, ?_⟩, Nat.lt_succ_self _⟩
      · simp only
        omega
      · simp only
        omega
      · intro hl
        have hok : ¬ _ := fun hcon => hfull ⟨hl, hcon⟩
        simp only [List.length_append, length_load]
        omega
      · simp only
        have hplace : m.ip - i + (i + MINMATCH) - MINMATCH + 1 = m.ip + 1 := by omega
        rw [hplace]
        exact ht

/-- The bytes of a match length reach no further than three bytes behind its end. -/
theorem matchStores_le (op matchCode : Nat) :
    matchStores op matchCode ≤ op + (matchCode + 240) / 255 + 3 := by
  have hml : ML_MASK = 15 := rfl
  rw [matchStores, length_runBytes]
  split_ifs with h
  · apply Nat.max_le.2
    constructor <;> omega
  · omega

/-- What `_next_match:` adds to the output is a sequence. -/
theorem nextMatch_op {s : Progress} {m : Found} {token matchCode d : Nat} {behind : List UInt8}
    (htoken : token = runCode (m.ip - s.anchor) <<< ML_BITS)
    (hbehind : behind =
      runBytes (m.ip - s.anchor) ++ load C.mem s.anchor (m.ip - s.anchor)) :
    s.op ++ UInt8.ofNat (token + runCode matchCode) ::
        (behind ++ leBytes 2 d ++ runBytes matchCode) =
      s.op ++ sequenceBytes (load C.mem s.anchor (m.ip - s.anchor)) d matchCode := by
  rw [sequenceBytes, tokenOf, length_load, htoken, hbehind]

/-- From `_next_match:` to the next label. -/
theorem nextMatch_good (hv : Valid C) (hfits : ∀ e, old e → e < C.startIndex → Fits C e)
    (hmax : C.inputSize ≤ LZ4_MAX_INPUT_SIZE) {token : Nat} {behind : List UInt8} {m : Found}
    {s : Progress} (h : Jump.Good C old (.nextMatch token behind m s)) :
    Jump.Good C old (nextMatch C token behind m s) ∧
      Jump.left C (nextMatch C token behind m s) <
        Jump.left C (.nextMatch token behind m s) := by
  obtain ⟨hrun, d, n, hmatched, hn, hanchor, hend, htoken, hbehind, hroom, hentries⟩ := h
  have hiend : C.iend = C.source + C.inputSize := rfl
  have hmf : C.mflimitPlusOne = C.iend - MFLIMIT + 1 := rfl
  have hml : C.matchlimit = C.iend - LASTLITERALS := rfl
  have h12 : MFLIMIT = 12 := rfl
  have h4 : MINMATCH = 4 := rfl
  have h5 : LASTLITERALS = 5 := rfl
  have hsource := hrun.source_le
  obtain ⟨hip, hle, hfit, hsame⟩ := countMatch_spec hv hmatched hn (by omega)
  generalize hcounted : countMatch C m = counted at hip hle hfit hsame
  obtain ⟨matchCode, ip⟩ := counted
  simp only at hip hle hfit hsame
  have henc := hrun.encodes.sequence hsource hmatched hanchor (by omega) hfit hsame
  have hlen := hrun.length_le
  have hbytes : behind.length = m.ip - s.anchor + (m.ip - s.anchor + 240) / 255 := by
    rw [hbehind, List.length_append, length_runBytes, length_load, Nat.add_comm]
  have hstores := matchStores_le (s.op.length + 1 + behind.length + 2) matchCode
  simp only [nextMatch, hcounted, hmatched.offset_eq, nextMatch_op htoken hbehind]
  have hworst : s.op.length + 1 + behind.length + 2 + (matchCode + 240) / 255 + 3 ≤
      C.inputSize + C.inputSize / 255 + 16 := by omega
  by_cases hfull : C.limitedOutput = true ∧ C.maxOutputSize <
      s.op.length + 1 + behind.length + 2 + (1 + LASTLITERALS) + (matchCode + 240) / 255
  · rw [if_pos hfull]
    refine ⟨⟨hfull.1, ?_, ?_, hentries.mono (by omega)⟩, ?_⟩
    · rw [compressBound_of_le hmax]
      omega
    · exact Nat.max_le.2 ⟨hrun.touched_le, le_bound hmax hroom (by omega)⟩
    · simp only [Jump.left]
      omega
  · rw [if_neg hfull]
    have hok : C.limitedOutput = true → s.op.length + 1 + behind.length + 2 + (1 + LASTLITERALS) +
        (matchCode + 240) / 255 ≤ C.maxOutputSize := by
      intro hl
      by_contra hcon
      exact hfull ⟨hl, Nat.lt_of_not_le hcon⟩
    generalize hop : s.op ++ sequenceBytes (load C.mem s.anchor (m.ip - s.anchor)) d matchCode = op
      at henc ⊢
    have hoplen : op.length = s.op.length + 1 + behind.length + 2 + (matchCode + 240) / 255 := by
      rw [← hop, List.length_append, length_sequenceBytes, length_load]
      omega
    have htouched : max s.touched (max (s.op.length + 1 + behind.length + 2)
        (matchStores (s.op.length + 1 + behind.length + 2) matchCode)) ≤ bound C := by
      refine Nat.max_le.2 ⟨hrun.touched_le, Nat.max_le.2 ⟨le_bound hmax hroom (by omega), ?_⟩⟩
      apply le_bound hmax
      · intro hl
        have hl' := hok hl
        omega
      · omega
    generalize max s.touched (max (s.op.length + 1 + behind.length + 2)
      (matchStores (s.op.length + 1 + behind.length + 2) matchCode)) = touched at htouched ⊢
    have hnext : ∀ t, Running C ⟨ip, op, touched, t⟩ := by
      intro t
      refine ⟨by simp only; omega, ?_, ?_, ?_, htouched⟩
      · rw [hip]
        exact henc
      · simp only
        omega
      · intro hl
        have hl' := hok hl
        right
        simp only
        omega
    have hrest := hentries.mono (show m.ip + n - MINMATCH + 1 ≤ ip by omega)
    by_cases hlast : C.mflimitPlusOne ≤ ip
    · rw [if_pos hlast]
      refine ⟨⟨hnext _, by simp only; omega, hentries.mono (by omega)⟩, ?_⟩
      simp only [Jump.left]
      omega
    · rw [if_neg hlast]
      have hput := hrest.put hv (p := ip - 2) (by omega) (by omega) (by omega)
      have hput' := (hput.mono (Nat.le_succ ip)).put hv (p := ip) (by omega) (Nat.lt_succ_self ip)
        (by omega)
      by_cases hacc : C.accepts (C.putPosition (ip - 2) s.hashTable (C.hash ip)) (C.index ip) ip
      · rw [if_pos hacc]
        obtain ⟨d', hmatched'⟩ := accepts_matched hv hfits hput (by omega) (by omega) hacc
        refine ⟨⟨(hnext _).with_touched ?_, d', MINMATCH, hmatched', Nat.le_refl _,
          Nat.le_refl _, ?_, ?_, ?_, ?_, ?_⟩, ?_⟩
        · refine Nat.max_le.2 ⟨htouched, le_bound hmax ?_ (by omega)⟩
          intro hl
          have hl' := hok hl
          omega
        · simp only [CompressCall.found]
          omega
        · simp only [CompressCall.found, Nat.sub_self]
          rfl
        · simp only [CompressCall.found, Nat.sub_self]
          rfl
        · intro hl
          have hl' := hok hl
          simp only [List.length_nil]
          omega
        · simp only [CompressCall.found, Nat.add_sub_cancel]
          exact hput'
        · simp only [Jump.left]
          omega
      · rw [if_neg hacc]
        refine ⟨⟨hnext _, rfl, by omega, hput'⟩, ?_⟩
        simp only [Jump.left]
        omega

/-! ## The whole run -/

/-- What a call leaves in the table: old entries, and positions of the source with twelve bytes
behind them. -/
def Leaves (C : CompressCall) (old : Nat → Prop) (hashTable : HashTable) : Prop :=
  ∀ h, old (hashTable h) ∨
    ∃ q, C.source ≤ q ∧ q + MFLIMIT ≤ C.iend ∧ hashTable h = C.startIndex + (q - C.source)

theorem leaves_of_entries (hsize : MFLIMIT < C.inputSize) {hashTable : HashTable}
    (h : Entries C old hashTable C.mflimitPlusOne) : Leaves C old hashTable := by
  intro i
  rcases h i with ⟨hold, -⟩ | ⟨q, hq, hlt, heq⟩
  · exact Or.inl hold
  · have hiend : C.iend = C.source + C.inputSize := rfl
    rw [CompressCall.mflimitPlusOne] at hlt
    exact Or.inr ⟨q, hq, by omega, heq⟩

/-- What a call returns. -/
structure Compresses (C : CompressCall) (old : Nat → Prop) (r : Compressed) : Prop where
  decodes : r.block ≠ [] → ∀ cap, C.inputSize ≤ cap →
    Decodes (decoder C cap) r.block [] (text C C.inputSize)
  empty : C.inputSize = 0 → r.block ≠ [] → r.block = [0]
  length_le : r.block.length ≤ bound C
  length_lt : r.block.length < C.inputSize + C.inputSize / 255 + 16
  touched_le : r.touched ≤ bound C
  succeeds : (C.limitedOutput = true → LZ4_compressBound C.inputSize ≤ C.maxOutputSize) →
    r.block ≠ []
  leaves : Leaves C old r.hashTable

/-- The last literals close the block. -/
theorem lastRun_compresses (hpos : 0 < C.inputSize) (hmax : C.inputSize ≤ LZ4_MAX_INPUT_SIZE)
    {s : Progress} (hrun : Running C s) (hanchor : s.anchor ≤ C.iend)
    (hlast : s.op = [] ∧ s.anchor = C.source ∨ s.anchor + LASTLITERALS ≤ C.iend)
    (hleaves : Leaves C old s.hashTable) : Compresses C old (lastRun C s) := by
  have hiend : C.iend = C.source + C.inputSize := rfl
  have h5 : LASTLITERALS = 5 := rfl
  have h15 : RUN_MASK = 15 := rfl
  have hsource := hrun.source_le
  have hlen := hrun.length_le
  have hlits : (lastLiterals (load C.mem s.anchor (C.iend - s.anchor))).length =
      C.iend - s.anchor + 1 + (C.iend - s.anchor + 240) / 255 := by
    rw [Sequences.length_lastLiterals, length_load]
  rw [lastRun]
  by_cases hfull : C.limitedOutput = true ∧ C.maxOutputSize <
      s.op.length + (C.iend - s.anchor) + 1 + (C.iend - s.anchor + 255 - RUN_MASK) / 255
  · simp only [if_pos hfull]
    refine ⟨fun h => absurd rfl h, fun _ h => absurd rfl h, Nat.zero_le _, Nat.succ_pos _,
      hrun.touched_le, ?_, hleaves⟩
    intro hcap
    have hle := hcap hfull.1
    rw [compressBound_of_le hmax] at hle
    omega
  · simp only [if_neg hfull]
    have hworst : (s.op ++ lastLiterals (load C.mem s.anchor (C.iend - s.anchor))).length <
        C.inputSize + C.inputSize / 255 + 16 := by
      rw [List.length_append, hlits]
      omega
    have hblock : (s.op ++ lastLiterals (load C.mem s.anchor (C.iend - s.anchor))).length ≤
        bound C := by
      rw [List.length_append, hlits] at hworst ⊢
      apply le_bound hmax
      · intro hl
        by_contra hcon
        exact hfull ⟨hl, by omega⟩
      · omega
    refine ⟨?_, fun h0 => absurd h0 (Nat.ne_of_gt hpos), hblock, hworst,
      Nat.max_le.2 ⟨hrun.touched_le, hblock⟩, ?_, hleaves⟩
    · intro _ cap hcap
      have hwhole : text C (s.anchor - C.source) ++ load C.mem s.anchor (C.iend - s.anchor) =
          text C C.inputSize := by
        have hsize : C.inputSize = s.anchor - C.source + (C.iend - s.anchor) := by omega
        rw [hsize, text_add, Nat.add_sub_cancel' hsource]
      have hdecodes : Decodes (decoder C cap)
          (lastLiterals (load C.mem s.anchor (C.iend - s.anchor)))
          (text C (s.anchor - C.source)) (text C C.inputSize) := by
        rw [← hwhole]
        apply Sequences.decodes_lastLiterals
        rw [length_text, length_load, decoder, callOf_outputSize]
        omega
      rcases hlast with ⟨hnil, hstart⟩ | hfive
      · rw [hnil, List.nil_append]
        have hzero : text C (s.anchor - C.source) = [] := by
          rw [hstart, Nat.sub_self]
          rfl
        rwa [hzero] at hdecodes
      · exact hrun.encodes cap _ _ hcap (by omega) hdecodes
    · intro _ hnil
      have hzero := congrArg List.length hnil
      rw [List.length_append, hlits, List.length_nil] at hzero
      omega

theorem returnZero_compresses (hsize : MFLIMIT < C.inputSize) {s : Progress}
    (h : Jump.Good C old (.returnZero s)) :
    Compresses C old ⟨[], s.hashTable, s.touched⟩ := by
  obtain ⟨hlimited, hcap, htouched, hentries⟩ := h
  refine ⟨fun h => absurd rfl h, fun _ h => absurd rfl h, Nat.zero_le _, Nat.succ_pos _, htouched,
    ?_, leaves_of_entries hsize hentries⟩
  intro hle
  exact absurd (hle hlimited) (Nat.not_le.2 hcap)

/-- The main loop ends, from wherever it is good. -/
theorem mainLoop_compresses (hv : Valid C) (hfits : ∀ e, old e → e < C.startIndex → Fits C e)
    (hsize : MFLIMIT < C.inputSize) (hmax : C.inputSize ≤ LZ4_MAX_INPUT_SIZE) {fuel : Nat}
    {j : Jump} (h : Jump.Good C old j) (hfuel : Jump.left C j ≤ fuel) :
    ∃ r, mainLoop C fuel j = some r ∧ Compresses C old r := by
  induction fuel generalizing j with
  | zero =>
    cases j with
    | lastLiterals s =>
      exact ⟨_, rfl, lastRun_compresses (Nat.zero_lt_of_lt hsize) hmax h.1 (Nat.le_of_add_right_le h.2.1) (Or.inr h.2.1)
        (leaves_of_entries hsize h.2.2)⟩
    | returnZero s => exact ⟨_, rfl, returnZero_compresses hsize h⟩
    | findMatch ip s => exact absurd hfuel (Nat.not_succ_le_zero _)
    | nextMatch token behind m s =>
      have hlt := (nextMatch_good hv hfits hmax h).2
      exact absurd (Nat.lt_of_lt_of_le hlt hfuel) (Nat.not_lt_zero _)
  | succ fuel ih =>
    cases j with
    | lastLiterals s =>
      exact ⟨_, rfl, lastRun_compresses (Nat.zero_lt_of_lt hsize) hmax h.1 (Nat.le_of_add_right_le h.2.1) (Or.inr h.2.1)
        (leaves_of_entries hsize h.2.2)⟩
    | returnZero s => exact ⟨_, rfl, returnZero_compresses hsize h⟩
    | findMatch ip s =>
      obtain ⟨j, hj, hgood, hlt⟩ := findMatch_good hv hfits hsize hmax h
      obtain ⟨r, hr, hcompresses⟩ := ih hgood (Nat.le_of_lt_succ (Nat.lt_of_lt_of_le hlt hfuel))
      refine ⟨r, ?_, hcompresses⟩
      rw [mainLoop, hj]
      exact hr
    | nextMatch token behind m s =>
      obtain ⟨hgood, hlt⟩ := nextMatch_good hv hfits hmax h
      exact ih hgood (Nat.le_of_lt_succ (Nat.lt_of_lt_of_le hlt hfuel))

/-- Before the first byte. -/
theorem running_start (C : CompressCall) (hashTable : HashTable) :
    Running C ⟨C.source, [], 0, hashTable⟩ := by
  refine ⟨Nat.le_refl _, ?_, Nat.zero_le _, fun _ => Or.inl rfl, Nat.zero_le _⟩
  simp only [Nat.sub_self]
  exact encodes_nil C

/-- The entries a call may find: of earlier calls, in front of its own positions. An empty entry is
zero, which is the position of the source when nothing has been compressed before. -/
def Finds (C : CompressCall) (old : Nat → Prop) (hashTable : HashTable) : Prop :=
  ∀ h, old (hashTable h) ∧ (hashTable h < C.startIndex ∨ hashTable h = C.startIndex)

theorem Finds.leaves {hashTable : HashTable} (h : Finds C old hashTable) :
    Leaves C old hashTable := fun i => Or.inl (h i).1

theorem Finds.entries {hashTable : HashTable} (h : Finds C old hashTable) :
    Entries C old hashTable (C.source + 1) := by
  intro i
  obtain ⟨hold, hlt | heq⟩ := h i
  · exact Or.inl ⟨hold, hlt⟩
  · exact Or.inr ⟨C.source, Nat.le_refl _, Nat.lt_succ_self _, by rw [heq, Nat.sub_self]; rfl⟩

theorem validated_compresses (hv : Valid C) (hfits : ∀ e, old e → e < C.startIndex → Fits C e)
    (hpos : 0 < C.inputSize) (hmax : C.inputSize ≤ LZ4_MAX_INPUT_SIZE) {hashTable : HashTable}
    (hfinds : Finds C old hashTable) :
    ∃ r, LZ4_compress_generic_validated C hashTable = some r ∧ Compresses C old r := by
  have hiend : C.iend = C.source + C.inputSize := rfl
  have hml : LZ4_minLength = 13 := rfl
  have h12 : MFLIMIT = 12 := rfl
  have hmf : C.mflimitPlusOne = C.iend - MFLIMIT + 1 := rfl
  rw [LZ4_compress_generic_validated]
  by_cases h16 : C.tableType = .byU16 ∧ LZ4_64Klimit ≤ C.inputSize
  · have hlt := hv.byU16_lt h16.1
    omega
  · rw [if_neg h16]
    by_cases hshort : C.inputSize < LZ4_minLength
    · rw [if_pos hshort]
      exact ⟨_, rfl, lastRun_compresses hpos hmax (running_start C _) (by simp only; omega)
        (Or.inl ⟨rfl, rfl⟩) hfinds.leaves⟩
    · rw [if_neg hshort]
      have hput := hfinds.entries.put hv (Nat.le_refl C.source) (Nat.lt_succ_self _) (by omega)
      apply mainLoop_compresses hv hfits (by omega) hmax
      · exact ⟨running_start C _, rfl, by omega, hput⟩
      · simp only [Jump.left]
        omega

/-- An empty source: a block of one zero token, if there is room for it. -/
theorem empty_compresses (hzero : C.inputSize = 0) {hashTable : HashTable}
    (hleaves : Leaves C old hashTable) :
    Compresses C old (LZ4_compress_generic C hashTable) := by
  rw [LZ4_compress_generic, if_neg (by rw [hzero]; exact Nat.not_lt_zero _), if_pos hzero]
  by_cases hroom : C.limitedOutput = true ∧ C.maxOutputSize = 0
  · rw [if_pos hroom]
    refine ⟨fun h => absurd rfl h, fun _ h => absurd rfl h, Nat.zero_le _, Nat.succ_pos _,
      Nat.zero_le _, ?_, hleaves⟩
    intro hle
    have hbound := hle hroom.1
    rw [hroom.2, hzero] at hbound
    exact absurd hbound (by decide)
  · rw [if_neg hroom]
    have hone : 1 ≤ bound C := by
      apply le_bound (by rw [hzero]; exact Nat.zero_le _)
      · intro hl
        by_contra hcon
        exact hroom ⟨hl, by omega⟩
      · omega
    refine ⟨?_, fun _ _ => rfl, hone, Nat.succ_lt_succ (Nat.succ_pos _), hone,
      fun _ => List.cons_ne_nil _ _, hleaves⟩
    intro _ cap _
    have hblock : ([0] : List UInt8) = lastLiterals [] := rfl
    have h := @Sequences.decodes_lastLiterals (decoder C cap) [] [] (Nat.zero_le _)
    rw [hzero, hblock]
    exact h

/-- `LZ4_compress_generic` on a source the library takes. -/
theorem LZ4_compress_generic_compresses (hv : Valid C)
    (hfits : ∀ e, old e → e < C.startIndex → Fits C e)
    (hmax : C.inputSize ≤ LZ4_MAX_INPUT_SIZE) {hashTable : HashTable}
    (hfinds : Finds C old hashTable) : Compresses C old (LZ4_compress_generic C hashTable) := by
  by_cases hzero : C.inputSize = 0
  · exact empty_compresses hzero hfinds.leaves
  · rw [LZ4_compress_generic, if_neg (Nat.not_lt.2 hmax), if_neg hzero]
    obtain ⟨r, hr, hcompresses⟩ := validated_compresses hv hfits (Nat.pos_of_ne_zero hzero) hmax hfinds
    rw [hr]
    exact hcompresses

/-- The block decodes with the history as dictionary, wherever the dictionary lies. -/
theorem Compresses.usingDict {r : Compressed} (h : Compresses C old r) (hne : r.block ≠ [])
    (fastLoop adjacent : Bool) {n : Nat} (hn : C.inputSize ≤ n) :
    LZ4_decompress_safe_usingDict fastLoop r.block n (history C) adjacent =
      .ok (text C C.inputSize) := by
  apply usingDict_of_external
  rw [LZ4_decompress_safe_usingDict_ok_iff, callOf_ok_iff]
  refine ⟨?_, h.decodes hne n hn⟩
  intro h0
  exact h.empty (by omega) hne

end Steps

end PythonLz4.Fast.CompressRun
