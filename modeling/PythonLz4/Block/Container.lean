import PythonLz4.Runtime
import PythonLz4.Block.LastLiterals

/-!
# `lz4.block.compress` and `lz4.block.decompress`

The two functions of `_block.c`. The encoder is a parameter (`BlockCoder`): what the wrapper needs
of it is `BlockCoder.Spec`. The decoder is the one of `DecompressGeneric`.
-/

set_option autoImplicit false

namespace PythonLz4.Block.Container

open PythonLz4.Runtime
open PythonLz4.Lib.LittleEndian
open PythonLz4.Block.DecompressGeneric
open PythonLz4.Block.LastLiterals

/-- `LZ4_MAX_INPUT_SIZE`. -/
def LZ4_MAX_INPUT_SIZE : Nat := 0x7E000000

/-- `LZ4_compressBound` of a non-negative `int`. -/
def LZ4_compressBound (isize : Nat) : Nat :=
  if LZ4_MAX_INPUT_SIZE < isize then 0 else isize + isize / 255 + 16

/-- `hdr_size`. -/
def hdr_size : Nat := 4

def store_le32 (x : Nat) : List UInt8 := leBytes 4 x

def load_le32 (c : List UInt8) : Nat := leNat (c.take 4)

inductive compression_type where
  | DEFAULT
  | FAST
  | HIGH_COMPRESSION
  deriving DecidableEq, Repr

/-- The library's encoders on a fresh state, after `LZ4_loadDict` or `LZ4_loadDictHC` when there
is a dictionary. A return value of zero is the empty list. -/
structure BlockCoder where
  LZ4_compress_fast_continue (dict : Option (List UInt8)) (source : List UInt8)
    (maxOutputSize : Nat) (acceleration : Int) : List UInt8
  LZ4_compress_HC_continue (dict : Option (List UInt8)) (source : List UInt8)
    (maxOutputSize : Nat) (compressionLevel : Int) : List UInt8

def lz4_compress_generic (coder : BlockCoder) (comp : compression_type) (source : List UInt8)
    (dest_size : Nat) (dict : Option (List UInt8)) (acceleration compression : Int) :
    List UInt8 :=
  if comp ≠ .HIGH_COMPRESSION then
    let acceleration := if comp ≠ .FAST then 1 else acceleration
    coder.LZ4_compress_fast_continue dict source dest_size acceleration
  else coder.LZ4_compress_HC_continue dict source dest_size compression

/-- The arguments of `compress` besides the source, with the defaults of the C function. -/
structure CompressArgs where
  mode : String := "default"
  store_size : Bool := true
  acceleration : Int := 1
  compression : Int := 9
  return_bytearray : Bool := false
  dict : Option (List UInt8) := none

/-- The arguments of `decompress` besides the source. -/
structure DecompressArgs where
  uncompressed_size : Int := -1
  return_bytearray : Bool := false
  dict : Option (List UInt8) := none

/-- The content of an optional buffer; an absent one has length zero. -/
def dictBytes (dict : Option (List UInt8)) : List UInt8 := dict.getD []

/-- The `mode` argument, compared with its terminating NUL. -/
def parseMode (mode : String) : Option compression_type :=
  if mode = "default" then some .DEFAULT
  else if mode = "fast" then some .FAST
  else if mode = "high_compression" then some .HIGH_COMPRESSION
  else none

/-- `compress` of `_block.c`; allocation succeeds. -/
def compress (coder : BlockCoder) (source : List UInt8) (args : CompressArgs) :
    Except PyErr PyBytes :=
  if INT_MAX < source.length then .error ⟨.OverflowError, "Input too large for LZ4 API"⟩
  else if INT_MAX < (dictBytes args.dict).length then
    .error ⟨.OverflowError, "Dictionary too large for LZ4 API"⟩
  else
    match parseMode args.mode with
    | none => .error ⟨.ValueError, "Invalid mode argument: " ++ args.mode ++
        ". Must be one of: standard, fast, high_compression"⟩
    | some comp =>
      let dest_size := LZ4_compressBound source.length
      let output := lz4_compress_generic coder comp source dest_size args.dict
        args.acceleration args.compression
      if output.length = 0 then .error ⟨.LZ4BlockError, "Compression failed"⟩
      else if args.store_size then
        .ok ⟨args.return_bytearray, store_le32 source.length ++ output⟩
      else .ok ⟨args.return_bytearray, output⟩

/-- `decompress` of `_block.c` from the allocation of `dest` on; allocation succeeds. `adjacent` is
whether the dictionary happens to lie in front of `dest`. -/
def decompressInto (fastLoop adjacent : Bool) (source : List UInt8) (dest_size : Nat)
    (args : DecompressArgs) : Except PyErr PyBytes :=
  if INT_MAX < dest_size then .error ⟨.ValueError, "Invalid size: 0x" ++ toString dest_size⟩
  else
    match LZ4_decompress_safe_usingDict fastLoop source dest_size (dictBytes args.dict)
        adjacent with
    | .error code => .error ⟨.LZ4BlockError, "Decompression failed: corrupt input or " ++
        "insufficient space in destination buffer. Error code: " ++ toString code⟩
    | .ok output =>
      if output.length ≠ dest_size ∧ args.uncompressed_size < 0 then
        .error ⟨.LZ4BlockError, "Decompressor wrote " ++ toString output.length ++
          " bytes, but " ++ toString dest_size ++ " bytes expected from header"⟩
      else .ok ⟨args.return_bytearray, output⟩

/-- `decompress` of `_block.c`. -/
def decompress (fastLoop adjacent : Bool) (source : List UInt8) (args : DecompressArgs) :
    Except PyErr PyBytes :=
  if INT_MAX < source.length then .error ⟨.OverflowError, "Input too large for LZ4 API"⟩
  else if INT_MAX < (dictBytes args.dict).length then
    .error ⟨.OverflowError, "Dictionary too large for LZ4 API"⟩
  else if 0 ≤ args.uncompressed_size then
    decompressInto fastLoop adjacent source args.uncompressed_size.toNat args
  else if source.length < hdr_size then
    .error ⟨.ValueError, "Input source data size too small"⟩
  else
    decompressInto fastLoop adjacent (source.drop hdr_size) (load_le32 source) args

/-! ## What the wrapper needs of the encoder -/

/-- A block decodes to `source` with the dictionary content as history, into any capacity that
holds it, wherever the dictionary lies. -/
def DecodesTo (block : List UInt8) (dict : Option (List UInt8)) (source : List UInt8) : Prop :=
  ∀ (fastLoop adjacent : Bool) (n : Nat), source.length ≤ n →
    LZ4_decompress_safe_usingDict fastLoop block n (dictBytes dict) adjacent = .ok source

/-- The documented contract of one encoder: the block fits in the destination, it decodes to the
source, and there is one when the destination holds `LZ4_compressBound` bytes. -/
structure EncodeSpec (encode : Option (List UInt8) → List UInt8 → Nat → Int → List UInt8) :
    Prop where
  length_le : ∀ dict source n level, (encode dict source n level).length ≤ n
  decodes : ∀ dict source n level, encode dict source n level ≠ [] →
    DecodesTo (encode dict source n level) dict source
  succeeds : ∀ dict source n level, source.length ≤ LZ4_MAX_INPUT_SIZE →
    LZ4_compressBound source.length ≤ n → encode dict source n level ≠ []

structure BlockCoder.Spec (coder : BlockCoder) : Prop where
  fast : EncodeSpec coder.LZ4_compress_fast_continue
  hc : EncodeSpec coder.LZ4_compress_HC_continue

/-- Every compression type is one of the two encoders at some level. -/
theorem lz4_compress_generic_eq (coder : BlockCoder) (comp : compression_type)
    (acceleration compression : Int) :
    ∃ (encode : Option (List UInt8) → List UInt8 → Nat → Int → List UInt8) (level : Int),
      (encode = coder.LZ4_compress_fast_continue ∨ encode = coder.LZ4_compress_HC_continue) ∧
      ∀ source n dict, lz4_compress_generic coder comp source n dict acceleration compression =
        encode dict source n level := by
  cases comp with
  | DEFAULT => exact ⟨_, 1, Or.inl rfl, fun _ _ _ => rfl⟩
  | FAST => exact ⟨_, acceleration, Or.inl rfl, fun _ _ _ => rfl⟩
  | HIGH_COMPRESSION => exact ⟨_, compression, Or.inr rfl, fun _ _ _ => rfl⟩

/-- The contract of the encoders, for the compression type the wrapper has chosen. -/
theorem BlockCoder.Spec.generic {coder : BlockCoder} (h : coder.Spec) (comp : compression_type)
    (acceleration compression : Int) :
    EncodeSpec fun dict source n _ =>
      lz4_compress_generic coder comp source n dict acceleration compression := by
  obtain ⟨encode, level, hencode, heq⟩ :=
    lz4_compress_generic_eq coder comp acceleration compression
  have hspec : EncodeSpec encode := by
    rcases hencode with rfl | rfl
    · exact h.fast
    · exact h.hc
  simp only [heq]
  exact ⟨fun dict source n _ => hspec.length_le dict source n level,
    fun dict source n _ => hspec.decodes dict source n level,
    fun dict source n _ => hspec.succeeds dict source n level⟩

/-! ## Lengths and the header -/

theorem load_store_le32 {n : Nat} (hn : n < 2 ^ 32) (rest : List UInt8) :
    load_le32 (store_le32 n ++ rest) = n := by
  have hlen : (store_le32 n).length = 4 := length_leBytes 4 n
  rw [load_le32, List.take_left' hlen, store_le32, leNat_leBytes_of_lt (by simpa using hn)]

theorem length_store_le32 (n : Nat) : (store_le32 n).length = hdr_size := length_leBytes 4 n

theorem compressBound_of_le {n : Nat} (hn : n ≤ LZ4_MAX_INPUT_SIZE) :
    LZ4_compressBound n = n + n / 255 + 16 := if_neg (Nat.not_lt.2 hn)

/-- The whole container of a source within the limit still fits in an `int`. -/
theorem compressBound_add_hdr_le {n : Nat} : LZ4_compressBound n + hdr_size ≤ INT_MAX := by
  unfold LZ4_compressBound
  split_ifs with hn
  · decide
  · simp only [LZ4_MAX_INPUT_SIZE, hdr_size, INT_MAX] at hn ⊢
    omega

/-! ## The two functions on a good block -/

/-- What `compress` returns once the source and the dictionary are within the limits: the block of
the chosen encoder, behind the header where it is asked for. -/
theorem compress_of_block {coder : BlockCoder} (hcoder : coder.Spec) {source : List UInt8}
    (hsource : source.length ≤ LZ4_MAX_INPUT_SIZE) {args : CompressArgs}
    (hmode : parseMode args.mode ≠ none) (hdict : (dictBytes args.dict).length ≤ INT_MAX) :
    ∃ block, block.length ≤ LZ4_compressBound source.length ∧
      DecodesTo block args.dict source ∧
      ∀ store_size, compress coder source { args with store_size } =
        .ok ⟨args.return_bytearray,
          if store_size then store_le32 source.length ++ block else block⟩ := by
  obtain ⟨comp, hcomp⟩ := Option.ne_none_iff_exists'.1 hmode
  have hspec := hcoder.generic comp args.acceleration args.compression
  have hne := hspec.succeeds args.dict source _ 0 hsource (Nat.le_refl _)
  have hlimit : ¬ INT_MAX < source.length := by
    simp only [LZ4_MAX_INPUT_SIZE, INT_MAX] at hsource ⊢
    omega
  refine ⟨_, hspec.length_le args.dict source _ 0, hspec.decodes args.dict source _ 0 hne, ?_⟩
  intro store_size
  rw [compress, if_neg hlimit, if_neg (Nat.not_lt.2 hdict)]
  simp only [hcomp]
  rw [if_neg (fun h => hne (List.eq_nil_of_length_eq_zero h))]
  cases store_size <;> rfl

/-- A source over the limit has no room in `dest` and is refused. -/
theorem compress_too_large {coder : BlockCoder} (hcoder : coder.Spec) {source : List UInt8}
    (hsource : LZ4_MAX_INPUT_SIZE < source.length) (args : CompressArgs) :
    ∃ e, compress coder source args = .error e := by
  unfold compress
  by_cases hlen : INT_MAX < source.length
  · rw [if_pos hlen]
    exact ⟨_, rfl⟩
  rw [if_neg hlen]
  by_cases hdict : INT_MAX < (dictBytes args.dict).length
  · rw [if_pos hdict]
    exact ⟨_, rfl⟩
  · rw [if_neg hdict]
    cases hcomp : parseMode args.mode with
    | none => exact ⟨_, rfl⟩
    | some comp =>
      have hle := (hcoder.generic comp args.acceleration args.compression).length_le
        args.dict source (LZ4_compressBound source.length) 0
      have hbound : LZ4_compressBound source.length = 0 := if_pos hsource
      rw [hbound, Nat.le_zero] at hle
      simp only [hbound, hle, if_true]
      exact ⟨_, rfl⟩

theorem decompressInto_of_block {fastLoop adjacent : Bool} {block source : List UInt8}
    {args : DecompressArgs} (hblock : DecodesTo block args.dict source) {n : Nat}
    (hn : source.length ≤ n) (hmax : n ≤ INT_MAX)
    (hexact : args.uncompressed_size < 0 → source.length = n) :
    decompressInto fastLoop adjacent block n args = .ok ⟨args.return_bytearray, source⟩ := by
  rw [decompressInto, if_neg (Nat.not_lt.2 hmax), hblock fastLoop adjacent n hn]
  exact if_neg (fun h => h.1 (hexact h.2))

/-- The header path accepts only blocks that fill the size in the header. -/
theorem decompressInto_ok {fastLoop adjacent : Bool} {block : List UInt8} {n : Nat}
    {args : DecompressArgs} {out : PyBytes}
    (h : decompressInto fastLoop adjacent block n args = .ok out)
    (hargs : args.uncompressed_size < 0) :
    out.data.length = n ∧
      LZ4_decompress_safe_usingDict fastLoop block n (dictBytes args.dict) adjacent =
        .ok out.data := by
  unfold decompressInto at h
  split_ifs at h
  cases hd : LZ4_decompress_safe_usingDict fastLoop block n (dictBytes args.dict) adjacent with
  | error code => simp [hd] at h
  | ok output =>
    simp only [hd] at h
    split_ifs at h with hwrote
    obtain rfl := Except.ok.inj h
    refine ⟨?_, rfl⟩
    by_contra hne
    exact hwrote ⟨hne, hargs⟩

theorem decompress_header {fastLoop adjacent : Bool} {source : List UInt8} {args : DecompressArgs}
    {out : PyBytes} (h : decompress fastLoop adjacent source args = .ok out)
    (hargs : args.uncompressed_size < 0) :
    hdr_size ≤ source.length ∧ decompressInto fastLoop adjacent (source.drop hdr_size)
      (load_le32 source) args = .ok out := by
  unfold decompress at h
  split_ifs at h with h1 h2 h3 h4
  · omega
  · exact ⟨Nat.le_of_not_lt h4, h⟩

/-! ## Round trip -/

theorem compress_decompress_roundtrip (coder : BlockCoder) (hcoder : coder.Spec) :
    (∀ (x : List UInt8) (args : CompressArgs), x.length ≤ LZ4_MAX_INPUT_SIZE →
      args.mode ∈ ["default", "fast", "high_compression"] →
      (dictBytes args.dict).length ≤ INT_MAX →
      ∃ block : List UInt8,
        compress coder x { args with store_size := true } =
          .ok ⟨args.return_bytearray, store_le32 x.length ++ block⟩ ∧
        compress coder x { args with store_size := false } = .ok ⟨args.return_bytearray, block⟩ ∧
        ∀ (fastLoop adjacent : Bool) (dargs : DecompressArgs), dargs.dict = args.dict →
          (dargs.uncompressed_size < 0 →
            decompress fastLoop adjacent (store_le32 x.length ++ block) dargs =
              .ok ⟨dargs.return_bytearray, x⟩) ∧
          ((x.length : Int) ≤ dargs.uncompressed_size → dargs.uncompressed_size ≤ INT_MAX →
            decompress fastLoop adjacent block dargs = .ok ⟨dargs.return_bytearray, x⟩)) ∧
    ∀ (x : List UInt8) (args : CompressArgs), LZ4_MAX_INPUT_SIZE < x.length →
      ∃ e, compress coder x args = .error e := by
  refine ⟨fun x args hx hmode hdict => ?_, fun x args hx => compress_too_large hcoder hx args⟩
  have hparse : parseMode args.mode ≠ none := by
    simp only [List.mem_cons, List.not_mem_nil, or_false] at hmode
    rcases hmode with h | h | h <;> rw [h] <;> decide
  obtain ⟨block, hlen, hblock, hcompress⟩ := compress_of_block hcoder hx hparse hdict
  refine ⟨block, hcompress true, hcompress false, fun fastLoop adjacent dargs hsame => ?_⟩
  have hbound := compressBound_add_hdr_le (n := x.length)
  have hhdr := length_store_le32 x.length
  have hxmax : x.length ≤ INT_MAX := by
    simp only [LZ4_MAX_INPUT_SIZE, INT_MAX] at hx ⊢
    omega
  rw [← hsame] at hblock hdict
  constructor
  · intro hneg
    have hsize : ¬ INT_MAX < (store_le32 x.length ++ block).length := by
      rw [List.length_append, hhdr]
      omega
    have hlong : ¬ (store_le32 x.length ++ block).length < hdr_size := by
      rw [List.length_append, hhdr]
      omega
    have hload : load_le32 (store_le32 x.length ++ block) = x.length :=
      load_store_le32 (by simp only [INT_MAX] at hxmax; omega) block
    rw [decompress, if_neg hsize, if_neg (Nat.not_lt.2 hdict), if_neg (by omega), if_neg hlong,
      hload, List.drop_left' hhdr]
    exact decompressInto_of_block hblock (Nat.le_refl _) hxmax (fun _ => rfl)
  · intro hlo hhi
    have hsize : ¬ INT_MAX < block.length := by omega
    rw [decompress, if_neg hsize, if_neg (Nat.not_lt.2 hdict), if_pos (by omega)]
    exact decompressInto_of_block hblock (by omega) (by omega) (fun h => absurd h (by omega))

/-- The encoder that finds no match, as the library does on short sources. -/
def literalEncode (_dict : Option (List UInt8)) (source : List UInt8) (n : Nat) (_level : Int) :
    List UInt8 :=
  if source.length ≤ LZ4_MAX_INPUT_SIZE ∧ (lastLiterals source).length ≤ n then
    lastLiterals source
  else []

theorem literalEncode_spec : EncodeSpec literalEncode where
  length_le dict source n level := by
    unfold literalEncode
    split_ifs with h
    · exact h.2
    · exact Nat.zero_le n
  decodes dict source n level h := by
    unfold literalEncode at h ⊢
    split_ifs at h ⊢
    · intro fastLoop adjacent m hm
      exact usingDict_lastLiterals fastLoop adjacent source (dictBytes dict) hm
    · exact absurd rfl h
  succeeds dict source n level hsource hn := by
    obtain ⟨hle, hpos⟩ := length_lastLiterals source
    rw [compressBound_of_le hsource] at hn
    rw [literalEncode, if_pos ⟨hsource, Nat.le_trans (Nat.le_of_lt hle) hn⟩]
    exact List.ne_nil_of_length_pos hpos

def literalCoder : BlockCoder where
  LZ4_compress_fast_continue := literalEncode
  LZ4_compress_HC_continue := literalEncode

theorem literalCoder_spec : literalCoder.Spec := ⟨literalEncode_spec, literalEncode_spec⟩

theorem compress_decompress_roundtrip_three :
    ∃ block : List UInt8,
      compress literalCoder [7, 8, 9] { mode := "fast", store_size := true } =
        .ok ⟨false, [3, 0, 0, 0] ++ block⟩ ∧
      decompress true true ([3, 0, 0, 0] ++ block) {} = .ok ⟨false, [7, 8, 9]⟩ ∧
      decompress true true block { uncompressed_size := 10 } = .ok ⟨false, [7, 8, 9]⟩ := by
  obtain ⟨block, hstore, -, hdecompress⟩ :=
    (compress_decompress_roundtrip literalCoder literalCoder_spec).1 [7, 8, 9]
      { mode := "fast" } (by decide) (by decide) (by decide)
  exact ⟨block, hstore, (hdecompress true true {} rfl).1 (by decide),
    (hdecompress true true { uncompressed_size := 10 } rfl).2 (by decide) (by decide)⟩

/-! ## Truncations and trailers -/

/-- A block that fills the size in the header neither extends to nor is extended from another one
that does. -/
theorem usingDict_append_fails {fastLoop adjacent : Bool} {block dict out t : List UInt8} {n : Nat}
    (h : LZ4_decompress_safe_usingDict fastLoop block n dict adjacent = .ok out)
    (hfull : out.length = n) (ht : t ≠ []) (out' : List UInt8) :
    LZ4_decompress_safe_usingDict fastLoop (block ++ t) n dict adjacent ≠ .ok out' := by
  intro h'
  rw [LZ4_decompress_safe_usingDict_ok_iff] at h h'
  exact decode_append_fails (callOf_prefixComplete _ _ _) h (by simpa using hfull) ht out' h'

theorem container_self_delimiting {coder : BlockCoder} (hcoder : coder.Spec) {x : List UInt8}
    {args : CompressArgs} (hstore : args.store_size = true) {b : PyBytes}
    (hb : compress coder x args = .ok b) {dargs : DecompressArgs}
    (hdict : dargs.dict = args.dict) (hsize : dargs.uncompressed_size < 0)
    (fastLoop adjacent : Bool) :
    (∀ k < b.data.length, ∃ e, decompress fastLoop adjacent (b.data.take k) dargs = .error e) ∧
      ∀ t : List UInt8, t ≠ [] →
        ∃ e, decompress fastLoop adjacent (b.data ++ t) dargs = .error e := by
  have hx : x.length ≤ LZ4_MAX_INPUT_SIZE := by
    by_contra hlong
    obtain ⟨e, he⟩ := compress_too_large hcoder (Nat.lt_of_not_le hlong) args
    rw [hb] at he
    cases he
  have hmode : parseMode args.mode ≠ none := by
    intro hnone
    simp only [compress, hnone] at hb
    split_ifs at hb
  have hdictlen : (dictBytes args.dict).length ≤ INT_MAX := by
    by_contra hlong
    have hlt : INT_MAX < (dictBytes args.dict).length := Nat.lt_of_not_le hlong
    simp only [compress, if_pos hlt] at hb
    split_ifs at hb
  obtain ⟨block, -, hblock, hcompress⟩ := compress_of_block hcoder hx hmode hdictlen
  have hbytes := hcompress true
  have hsame : ({ args with store_size := true } : CompressArgs) = args := by
    rw [← hstore]
  rw [hsame, hb, Except.ok.injEq, if_pos rfl] at hbytes
  subst hbytes
  have hhdr := length_store_le32 x.length
  have hx32 : x.length < 2 ^ 32 := by
    simp only [LZ4_MAX_INPUT_SIZE] at hx
    omega
  have hgood := hblock fastLoop adjacent x.length (Nat.le_refl _)
  constructor
  · intro k hk
    cases hd : decompress fastLoop adjacent ((store_le32 x.length ++ block).take k) dargs with
    | error e => exact ⟨e, rfl⟩
    | ok out =>
      obtain ⟨hlen, hinto⟩ := decompress_header hd hsize
      have hk4 : hdr_size ≤ k := by
        rw [List.length_take] at hlen
        omega
      have htake : (store_le32 x.length ++ block).take k =
          store_le32 x.length ++ block.take (k - hdr_size) := by
        rw [List.take_append, List.take_of_length_le (by omega), hhdr]
      rw [htake, load_store_le32 hx32, List.drop_left' hhdr] at hinto
      obtain ⟨hfull, hout⟩ := decompressInto_ok hinto hsize
      have hrest : block.drop (k - hdr_size) ≠ [] := by
        rw [List.length_append] at hk
        intro hnil
        rw [List.drop_eq_nil_iff] at hnil
        omega
      have hfails := usingDict_append_fails hout hfull hrest x
      rw [List.take_append_drop, hdict] at hfails
      exact absurd hgood hfails
  · intro t ht
    cases hd : decompress fastLoop adjacent ((store_le32 x.length ++ block) ++ t) dargs with
    | error e => exact ⟨e, rfl⟩
    | ok out =>
      obtain ⟨-, hinto⟩ := decompress_header hd hsize
      rw [List.append_assoc, load_store_le32 hx32, List.drop_left' hhdr] at hinto
      obtain ⟨-, hout⟩ := decompressInto_ok hinto hsize
      rw [hdict] at hout
      exact absurd hout (usingDict_append_fails hgood rfl ht out.data)

theorem container_self_delimiting_three :
    ∃ b : PyBytes, compress literalCoder [7, 8, 9] {} = .ok b ∧
      (∃ e, decompress true true (b.data.take 6) {} = .error e) ∧
      ∃ e, decompress true true (b.data ++ [0]) {} = .error e := by
  have hb : compress literalCoder [7, 8, 9] {} = .ok ⟨false, [3, 0, 0, 0, 48, 7, 8, 9]⟩ := by
    decide
  obtain ⟨htrunc, htrail⟩ := @container_self_delimiting literalCoder literalCoder_spec [7, 8, 9] {}
    rfl _ hb {} rfl (by decide) true true
  exact ⟨_, hb, htrunc 6 (by decide), htrail [0] (by decide)⟩

end PythonLz4.Block.Container
