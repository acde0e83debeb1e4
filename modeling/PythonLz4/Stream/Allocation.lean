import PythonLz4.Stream.Session

/-!
# The buffers behind a stream context

What `_create_context` allocates, followed from the Python integer that is passed for
`buffer_size`: it is reduced modulo `2 ^ 32` on entry, doubled in `unsigned int` for the one
allocation of the two pages, and becomes an `int` where the decompressor hands its page to the
library. The two pages lie inside the allocation for exactly the integers from 0 to `2 ^ 31`, or
the constructor raises (`buffers_iff`).
-/

set_option autoImplicit false

namespace PythonLz4.Stream.Allocation

open PythonLz4.Runtime
open PythonLz4.Lib.ByteMemory
open PythonLz4.Block.Container (LZ4_MAX_INPUT_SIZE LZ4_compressBound compressBound_of_le)
open PythonLz4.Stream.Context
open PythonLz4.Stream.Session

/-! ## Regions -/

/-- The `size` bytes from `base` on. -/
structure Region where
  base : Nat
  size : Nat
  deriving DecidableEq, Repr

def Region.Within (r s : Region) : Prop := s.base ≤ r.base ∧ r.base + r.size ≤ s.base + s.size

def Region.Disjoint (r s : Region) : Prop :=
  r.base + r.size ≤ s.base ∨ s.base + s.size ≤ r.base

/-! ## Conversions -/

/-- The unit `I` of `PyArg_ParseTuple`: no overflow checking. -/
def parseUnsignedInt (v : Int) : Nat := (v % 2 ^ 32).toNat

/-- An `unsigned int` passed for an `int`. -/
def intOfUnsigned (n : Nat) : Int := Int.bmod n (2 ^ 32)

theorem parseUnsignedInt_eq_iff {v : Int} :
    (parseUnsignedInt v : Int) = v ↔ 0 ≤ v ∧ v < 2 ^ 32 := by
  have hpos : 0 ≤ v % 2 ^ 32 := Int.emod_nonneg v (by decide)
  rw [parseUnsignedInt, Int.toNat_of_nonneg hpos]
  constructor
  · intro h
    rw [← h]
    exact ⟨hpos, Int.emod_lt_of_pos v (by decide)⟩
  · rintro ⟨h0, hlt⟩
    exact Int.emod_eq_of_lt h0 hlt

theorem intOfUnsigned_of_lt {n : Nat} (h : n < 2 ^ 31) : intOfUnsigned n = n :=
  Int.bmod_eq_of_le (by omega) (by omega)

/-! ## `_create_context` -/

/-- The answers of the runtime to the requests one call of `_create_context` makes. -/
structure Allocator where
  context : Bool
  /-- The double buffer, for a number of bytes. -/
  buffer : Nat → Option Nat
  /-- The output buffer, for a number of bytes. -/
  output : Nat → Option Nat
  lz4_state : Bool
  capsule : Bool

/-- `strategy.data.double_buffer`, with the size its `buf` was allocated with. -/
structure reserved_buffer where
  buf : Nat
  allocated : Nat
  page_size : Nat
  pages : Fin 2 → Nat

/-- The buffers of a context. -/
structure stream_resources where
  double_buffer : reserved_buffer
  output_buf : Nat
  output_len : Nat
  total_size : Nat

/-- `double_buffer_reserve_resources`. -/
def double_buffer_reserve_resources (PyMem_Malloc : Nat → Option Nat) (buffer_size : Nat) :
    Except PyErr reserved_buffer :=
  let size := buffer_size * 2 % 2 ^ 32
  match PyMem_Malloc size with
  | none => .error ⟨.MemoryError, "Could not allocate double-buffer"⟩
  | some buf => .ok ⟨buf, size, buffer_size, fun i => buf + i * buffer_size % 2 ^ 32⟩

/-- `output.len` as `_create_context` sets it. -/
def output_len (args : CreateArgs) : Nat :=
  if args.direction = "compress" then get_compress_bound args.buffer_size else args.buffer_size

/-- The size of the output buffer. -/
def total_size (args : CreateArgs) : Nat :=
  if args.direction = "compress" then (output_len args + args.store_comp_size) % 2 ^ 32
  else output_len args

/-- `_create_context`, seen from its buffers. -/
def create_resources (alloc : Allocator) (args : CreateArgs) : Except PyErr stream_resources :=
  if INT_MAX < args.dictionary.length then
    .error ⟨.OverflowError, "Dictionary too large for LZ4 API"⟩
  else if args.store_comp_size ∉ [0, 1, 2, 4] then
    .error ⟨.ValueError, "Invalid store_comp_size, valid values: 0, 1, 2 or 4"⟩
  else if alloc.context = false then .error PyErr_NoMemory
  else if args.strategy ∉ ["double_buffer", "ring_buffer"] then
    .error ⟨.ValueError, "Invalid strategy argument: " ++ args.strategy ++
      ". Must be one of: double_buffer, ring_buffer"⟩
  else if args.direction ∉ ["compress", "decompress"] then
    .error ⟨.ValueError, "Invalid direction argument: " ++ args.direction ++
      ". Must be one of: compress, decompress"⟩
  else if parseMode args.mode = none then
    .error ⟨.ValueError, "Invalid mode argument: " ++ args.mode ++
      ". Must be one of: default, fast, high_compression"⟩
  else if args.direction = "compress" ∧ output_len args = 0 then
    .error ⟨.ValueError, "Invalid buffer_size argument: " ++ toString args.buffer_size ++
      ". Cannot define output buffer size. Must be lesser or equal to " ++
      toString LZ4_MAX_INPUT_SIZE⟩
  else if args.direction = "compress" ∧
      store_max_size args.store_comp_size < output_len args then
    .error ⟨.LZ4StreamError, "Inconsistent buffer_size/store_comp_size values. " ++
      "Maximal compressed length (" ++ toString args.buffer_size ++
      ") cannot fit in a " ++ toString args.store_comp_size ++ " byte-long integer"⟩
  else if args.strategy = "ring_buffer" then
    .error ⟨.NotImplementedError, "Buffer strategy not implemented: ring_buffer"⟩
  else
    match double_buffer_reserve_resources alloc.buffer args.buffer_size with
    | .error e => .error e
    | .ok double_buffer =>
      match alloc.output (total_size args) with
      | none => .error ⟨.MemoryError, "Could not allocate output buffer"⟩
      | some output_buf =>
        if alloc.lz4_state = false then .error ⟨.MemoryError, "Could not create LZ4 state"⟩
        else if alloc.capsule = false then .error PyErr_NoMemory
        else .ok ⟨double_buffer, output_buf, output_len args, total_size args⟩

/-- `LZ4StreamCompressor (strategy, v, …)`. -/
def LZ4StreamCompressor (alloc : Allocator) (args : CreateArgs) (v : Int) :
    Except PyErr stream_resources :=
  create_resources alloc
    { args with direction := "compress", buffer_size := parseUnsignedInt v }

/-- `LZ4StreamDecompressor (strategy, v, …)`. -/
def LZ4StreamDecompressor (alloc : Allocator) (args : CreateArgs) (v : Int) :
    Except PyErr stream_resources :=
  create_resources alloc
    { decompressArgs args args.return_bytearray with buffer_size := parseUnsignedInt v }

/-- The capacity `_decompress` passes to `LZ4_decompress_safe_continue`. -/
def dest_capacity (r : stream_resources) : Int := intOfUnsigned r.double_buffer.page_size

/-! ## When a constructor raises -/

/-- The arguments `_create_context` turns down, the strategy and the direction being valid. -/
def RejectsArgs (args : CreateArgs) : Prop :=
  INT_MAX < args.dictionary.length ∨ args.store_comp_size ∉ [0, 1, 2, 4] ∨
    parseMode args.mode = none ∨
    (args.direction = "compress" ∧ (get_compress_bound args.buffer_size = 0 ∨
      store_max_size args.store_comp_size < get_compress_bound args.buffer_size))

/-- The arguments are turned down, or a request of the call is. -/
def Refused (alloc : Allocator) (args : CreateArgs) : Prop :=
  RejectsArgs args ∨ alloc.context = false ∨ alloc.buffer (args.buffer_size * 2 % 2 ^ 32) = none ∨
    alloc.output (total_size args) = none ∨ alloc.lz4_state = false ∨ alloc.capsule = false

/-- A call of `_create_context` either raises for one of these reasons, or makes its buffers. -/
theorem create_resources_cases (alloc : Allocator) (args : CreateArgs)
    (hstrategy : args.strategy = "double_buffer")
    (hdirection : args.direction ∈ ["compress", "decompress"]) :
    (Refused alloc args ∧ ∃ e, create_resources alloc args = .error e) ∨
    (¬ Refused alloc args ∧ ∃ buf output_buf,
      alloc.buffer (args.buffer_size * 2 % 2 ^ 32) = some buf ∧
      create_resources alloc args = .ok
        ⟨⟨buf, args.buffer_size * 2 % 2 ^ 32, args.buffer_size,
            fun i => buf + i * args.buffer_size % 2 ^ 32⟩,
          output_buf, output_len args, total_size args⟩) := by
  have hknown : ¬ args.strategy ∉ ["double_buffer", "ring_buffer"] := by
    rw [hstrategy]
    decide
  have hring : args.strategy ≠ "ring_buffer" := by
    rw [hstrategy]
    decide
  have hlen : args.direction = "compress" → output_len args = get_compress_bound args.buffer_size :=
    fun h => if_pos h
  unfold create_resources Refused RejectsArgs
  by_cases h1 : INT_MAX < args.dictionary.length
  · rw [if_pos h1]
    exact Or.inl ⟨Or.inl (Or.inl h1), _, rfl⟩
  by_cases h2 : args.store_comp_size ∉ [0, 1, 2, 4]
  · rw [if_neg h1, if_pos h2]
    exact Or.inl ⟨Or.inl (Or.inr (Or.inl h2)), _, rfl⟩
  by_cases h3 : alloc.context = false
  · rw [if_neg h1, if_neg h2, if_pos h3]
    exact Or.inl ⟨Or.inr (Or.inl h3), _, rfl⟩
  rw [if_neg h1, if_neg h2, if_neg h3, if_neg hknown, if_neg (not_not.2 hdirection)]
  by_cases h4 : parseMode args.mode = none
  · rw [if_pos h4]
    exact Or.inl ⟨Or.inl (Or.inr (Or.inr (Or.inl h4))), _, rfl⟩
  by_cases h5 : args.direction = "compress" ∧ output_len args = 0
  · rw [if_neg h4, if_pos h5]
    have hbound : get_compress_bound args.buffer_size = 0 := (hlen h5.1).symm.trans h5.2
    exact Or.inl ⟨Or.inl (Or.inr (Or.inr (Or.inr ⟨h5.1, Or.inl hbound⟩))), _, rfl⟩
  by_cases h6 : args.direction = "compress" ∧
      store_max_size args.store_comp_size < output_len args
  · rw [if_neg h4, if_neg h5, if_pos h6]
    have hfits := h6.2
    rw [hlen h6.1] at hfits
    exact Or.inl ⟨Or.inl (Or.inr (Or.inr (Or.inr ⟨h6.1, Or.inr hfits⟩))), _, rfl⟩
  rw [if_neg h4, if_neg h5, if_neg h6, if_neg hring]
  -- what is left are the allocations
  cases h7 : alloc.buffer (args.buffer_size * 2 % 2 ^ 32) with
  | none =>
    simp only [double_buffer_reserve_resources, h7]
    exact Or.inl ⟨Or.inr (Or.inr (Or.inl trivial)), _, rfl⟩
  | some buf =>
    simp only [double_buffer_reserve_resources, h7]
    cases h8 : alloc.output (total_size args) with
    | none => exact Or.inl ⟨Or.inr (Or.inr (Or.inr (Or.inl rfl))), _, rfl⟩
    | some output_buf =>
      by_cases h9 : alloc.lz4_state = false
      · simp only [if_pos h9]
        exact Or.inl ⟨Or.inr (Or.inr (Or.inr (Or.inr (Or.inl h9)))), _, rfl⟩
      by_cases h10 : alloc.capsule = false
      · simp only [if_neg h9, if_pos h10]
        exact Or.inl ⟨Or.inr (Or.inr (Or.inr (Or.inr (Or.inr h10)))), _, rfl⟩
      simp only [if_neg h9, if_neg h10]
      refine Or.inr ⟨?_, buf, output_buf, rfl, rfl⟩
      rintro ((h | h | h | ⟨hdir, h | h⟩) | h | h | h | h | h)
      · exact h1 h
      · exact h2 h
      · exact h4 h
      · exact h5 ⟨hdir, (hlen hdir).trans h⟩
      · exact h6 ⟨hdir, by rw [hlen hdir]; exact h⟩
      · exact h3 h
      · cases h
      · cases h
      · exact h9 h
      · exact h10 h

/-- A context of `_create_context` comes from a call that also makes the buffers it describes, when
every request is granted and twice the page fits in an `unsigned int`. -/
theorem create_resources_of_create_context {alloc : Allocator} {args : CreateArgs}
    {place : Placement args.dictionary.length args.buffer_size} {mem : Memory}
    {context : stream_context_t} (hcreate : create_context args place mem = .ok context)
    (hsize : args.buffer_size * 2 < 2 ^ 32) (hcontext : alloc.context = true)
    (hbuffer : alloc.buffer (args.buffer_size * 2) = some place.buf) {output_buf : Nat}
    (houtput : alloc.output (total_size args) = some output_buf) (hstate : alloc.lz4_state = true)
    (hcapsule : alloc.capsule = true) :
    ∃ r, create_resources alloc args = .ok r ∧
      r.double_buffer.allocated = 2 * args.buffer_size ∧
      ∀ i : Fin 2, r.double_buffer.pages i =
        (double_buffer.mk place.buf args.buffer_size i).page := by
  obtain ⟨hdict, hscs, hstrategy, comp, hmode, hdirection⟩ := create_context_cases hcreate
  have hmod : args.buffer_size * 2 % 2 ^ 32 = args.buffer_size * 2 := Nat.mod_eq_of_lt hsize
  have hknown : args.direction ∈ ["compress", "decompress"] := by
    rcases hdirection with ⟨h, -⟩ | ⟨h, -⟩ <;> rw [h] <;> decide
  have haccepted : ¬ RejectsArgs args := by
    rintro (h | h | h | ⟨hdir, h⟩)
    · exact absurd h (Nat.not_lt.2 hdict)
    · exact h hscs
    · rw [hmode] at h
      cases h
    · rcases hdirection with ⟨-, hne, hfits, -⟩ | ⟨hdec, -⟩
      · exact h.elim hne (Nat.not_lt.2 hfits)
      · rw [hdec] at hdir
        exact absurd hdir (by decide)
  rcases create_resources_cases alloc args hstrategy hknown with
    ⟨hrefused, -⟩ | ⟨-, buf, output_buf, hgranted, hok⟩
  · exfalso
    rw [Refused, hcontext, hmod, hbuffer, houtput, hstate, hcapsule] at hrefused
    rcases hrefused with h | h | h | h | h | h
    · exact haccepted h
    all_goals cases h
  · rw [hmod, hbuffer] at hgranted
    obtain rfl := Option.some.inj hgranted
    refine ⟨_, hok, by show args.buffer_size * 2 % 2 ^ 32 = _; omega, fun i => ?_⟩
    have hi : (i : Nat) * args.buffer_size ≤ 1 * args.buffer_size :=
      Nat.mul_le_mul_right _ (Nat.le_of_lt_succ i.isLt)
    show place.buf + i * args.buffer_size % 2 ^ 32 = place.buf + i * args.buffer_size
    rw [Nat.mod_eq_of_lt (by omega)]

/-! ## The pages -/

/-- Two pages of exactly `v` bytes in the one allocation, apart from one another. -/
structure PagesExact (v : Int) (r : stream_resources) : Prop where
  size : (r.double_buffer.page_size : Int) = v
  within : ∀ i, Region.Within ⟨r.double_buffer.pages i, r.double_buffer.page_size⟩
    ⟨r.double_buffer.buf, r.double_buffer.allocated⟩
  disjoint : Region.Disjoint ⟨r.double_buffer.pages 0, r.double_buffer.page_size⟩
    ⟨r.double_buffer.pages 1, r.double_buffer.page_size⟩

theorem pagesExact_iff {buf output_buf output_len total_size n : Nat} {v : Int}
    (hn : n = parseUnsignedInt v) :
    PagesExact v ⟨⟨buf, n * 2 % 2 ^ 32, n, fun i => buf + i * n % 2 ^ 32⟩, output_buf, output_len,
      total_size⟩ ↔ 0 ≤ v ∧ v < 2 ^ 31 := by
  constructor
  · rintro ⟨hsize, hwithin, -⟩
    obtain ⟨h0, hlt⟩ := parseUnsignedInt_eq_iff.1 (by rw [← hn]; exact hsize)
    refine ⟨h0, ?_⟩
    -- page 0 alone does not fit in what is left of the doubled size
    have hfits := (hwithin 0).2
    simp only [Fin.val_zero, Nat.zero_mul, Nat.zero_mod, Nat.add_zero] at hfits hsize
    omega
  · rintro ⟨h0, hlt⟩
    have hv : (n : Int) = v := by
      rw [hn]
      exact parseUnsignedInt_eq_iff.2 ⟨h0, by omega⟩
    have hn31 : n < 2 ^ 31 := by omega
    have hdouble : n * 2 % 2 ^ 32 = n * 2 := Nat.mod_eq_of_lt (by omega)
    have hpage : ∀ i : Fin 2, (i : Nat) * n ≤ n ∧ (i : Nat) * n % 2 ^ 32 = i * n := by
      intro i
      have hi : (i : Nat) * n ≤ 1 * n := Nat.mul_le_mul_right _ (Nat.le_of_lt_succ i.isLt)
      exact ⟨by omega, Nat.mod_eq_of_lt (by omega)⟩
    refine ⟨hv, fun i => ?_, Or.inl ?_⟩
    · simp only [Region.Within, hdouble, (hpage i).2]
      have hle := (hpage i).1
      omega
    · simp only [Fin.val_zero, Fin.val_one, Nat.zero_mul, Nat.one_mul, Nat.zero_mod]
      omega

/-- A call raises or makes buffers with a property, which those it can make have for certain
integers only. -/
theorem raises_or_iff {alloc : Allocator} {args : CreateArgs}
    (hstrategy : args.strategy = "double_buffer")
    (hdirection : args.direction ∈ ["compress", "decompress"]) {Q : stream_resources → Prop}
    {range : Prop}
    (hQ : ∀ buf output_buf, Q ⟨⟨buf, args.buffer_size * 2 % 2 ^ 32, args.buffer_size,
        fun i => buf + i * args.buffer_size % 2 ^ 32⟩, output_buf, output_len args,
        total_size args⟩ ↔ range) :
    ((∃ e, create_resources alloc args = .error e) ∨
        ∃ r, create_resources alloc args = .ok r ∧ Q r) ↔ Refused alloc args ∨ range := by
  rcases create_resources_cases alloc args hstrategy hdirection with
    ⟨hrefused, he⟩ | ⟨hgranted, buf, output_buf, -, hok⟩
  · exact ⟨fun _ => Or.inl hrefused, fun _ => Or.inl he⟩
  · rw [hok]
    constructor
    · rintro (⟨e, he⟩ | ⟨r, hr, hq⟩)
      · cases he
      · obtain rfl := Except.ok.inj hr
        exact Or.inr ((hQ buf output_buf).1 hq)
    · rintro (hrefused | hrange)
      · exact absurd hrefused hgranted
      · exact Or.inr ⟨_, rfl, (hQ buf output_buf).2 hrange⟩

/-- A constructor raises or makes two pages of exactly the bytes asked for, and the decompressor
decodes to them with that capacity, exactly when the request is refused or the size is one of
`0, …, 2 ^ 31 - 1`. -/
theorem buffers_iff (alloc : Allocator) {args : CreateArgs}
    (hstrategy : args.strategy = "double_buffer") (v : Int) :
    (((∃ e, LZ4StreamCompressor alloc args v = .error e) ∨
        ∃ r, LZ4StreamCompressor alloc args v = .ok r ∧ PagesExact v r) ↔
      Refused alloc { args with direction := "compress", buffer_size := parseUnsignedInt v } ∨
        (0 ≤ v ∧ v < 2 ^ 31)) ∧
    (((∃ e, LZ4StreamDecompressor alloc args v = .error e) ∨
        ∃ r, LZ4StreamDecompressor alloc args v = .ok r ∧ PagesExact v r ∧
          dest_capacity r = v ∧ 0 ≤ dest_capacity r) ↔
      Refused alloc { decompressArgs args args.return_bytearray with
          buffer_size := parseUnsignedInt v } ∨
        (0 ≤ v ∧ v < 2 ^ 31)) := by
  refine ⟨@raises_or_iff alloc
      { args with direction := "compress", buffer_size := parseUnsignedInt v } hstrategy (by simp)
      _ _ fun buf output_buf => pagesExact_iff rfl,
    @raises_or_iff alloc
      { decompressArgs args args.return_bytearray with buffer_size := parseUnsignedInt v } hstrategy
      (by simp [decompressArgs]) (fun r => PagesExact v r ∧ dest_capacity r = v ∧
        0 ≤ dest_capacity r) _ fun buf output_buf => ?_⟩
  constructor
  · rintro ⟨hpages, -, -⟩
    exact (pagesExact_iff rfl).1 hpages
  · intro hv
    -- the page is small enough to be an `int`
    have hsize : (parseUnsignedInt v : Int) = v := parseUnsignedInt_eq_iff.2 ⟨hv.1, by omega⟩
    have hcapacity : intOfUnsigned (parseUnsignedInt v) = v := by
      rw [intOfUnsigned_of_lt (by omega), hsize]
    refine ⟨(pagesExact_iff rfl).2 hv, hcapacity, ?_⟩
    rw [dest_capacity, hcapacity]
    exact hv.1

/-- An allocator that grants every request. -/
def generous : Allocator where
  context := true
  buffer := fun _ => some 4096
  output := fun _ => some 4096
  lz4_state := true
  capsule := true

/-- Pages of 16 bytes are what the two constructors make of the integer 16. -/
theorem buffers_sixteen :
    smallArgs.strategy = "double_buffer" ∧
    (((∃ e, LZ4StreamCompressor generous smallArgs 16 = .error e) ∨
        ∃ r, LZ4StreamCompressor generous smallArgs 16 = .ok r ∧ PagesExact 16 r) ↔
      Refused generous { smallArgs with direction := "compress", buffer_size := parseUnsignedInt 16 } ∨
        ((0 : Int) ≤ 16 ∧ (16 : Int) < 2 ^ 31)) :=
  ⟨rfl, (@buffers_iff generous smallArgs rfl 16).1⟩

/-- The decompressor takes `2 ^ 32 - 1`, the size the tests ask it to take: a page is larger than
the allocation, page 1 starts behind it, and the capacity is negative. -/
theorem buffers_outside :
    ∃ r, LZ4StreamDecompressor generous smallArgs (2 ^ 32 - 1) = .ok r ∧
      ¬ PagesExact (2 ^ 32 - 1) r ∧
      r.double_buffer.allocated < r.double_buffer.page_size ∧
      r.double_buffer.buf + r.double_buffer.allocated < r.double_buffer.pages 1 ∧
      dest_capacity r = -1 := by
  refine ⟨_, rfl, ?_, by decide, by decide, by decide⟩
  rintro ⟨-, hwithin, -⟩
  exact absurd (hwithin 0).2 (by decide)

end PythonLz4.Stream.Allocation
