import PythonLz4.Fast.StreamRuns

/-!
# `lz4.block.compress` with the compressor of the library

In the modes "default" and "fast" the block functions use the compressor of `Fast.StreamState`, so
their round trip needs no assumption on an encoder. What it needs is that the dictionary and the
source are not given as two views of one buffer in one particular way (`Buffers.Aliased`): the
compressor tells a match in the dictionary from one in the source by comparing the start of the
buffer the match lies in with the start of the dictionary.
-/

set_option autoImplicit false

namespace PythonLz4.Fast.BlockFunctions

open PythonLz4.Runtime
open PythonLz4.Lib.HistoryWindow (AgreeBack)
open PythonLz4.Lib.ByteMemory
open PythonLz4.Block.DecompressGeneric
open PythonLz4.Block.Container
open PythonLz4.Stream.Continue (LZ4_stream_t HASH_UNIT fastWindow)
open PythonLz4.Stream.Compressors
open PythonLz4.Fast.CompressGeneric
open PythonLz4.Fast.StreamState
open PythonLz4.Fast.StreamRuns

/-! ## The buffers of a call -/

/-- Where the two arguments of a call lie. -/
structure Buffers where
  mem : Memory
  source : Nat
  dict : Nat

/-- The arguments lie in the buffers. -/
structure Buffers.Hold (B : Buffers) (dict : Option (List UInt8)) (source : List UInt8) : Prop where
  source_eq : load B.mem B.source source.length = source
  dict_eq : load B.mem B.dict (dictBytes dict).length = dictBytes dict
  source_pos : 0 < B.source

/-- The part of the dictionary that is used begins where the source does, and is shorter. -/
def Buffers.Aliased (B : Buffers) (dict_size source_size : Nat) : Prop :=
  HASH_UNIT ≤ dict_size ∧ B.dict + (dict_size - KB64) = B.source ∧
    min dict_size KB64 < source_size

/-- The stream of `lz4_compress_generic` when it calls the compressor. -/
def loadedState (B : Buffers) (dict : Option (List UInt8)) : LZ4_stream_t_internal :=
  match dict with
  | none => LZ4_initStream
  | some dict => LZ4_loadDict B.mem B.dict dict.length

/-- The calls of `lz4_compress_generic` in the modes "default" and "fast". -/
def fastEncode (B : Buffers) (dict : Option (List UInt8)) (source : List UInt8) (dest_size : Nat)
    (acceleration : Int) : List UInt8 :=
  (LZ4_compress_fast_continue B.mem (loadedState B dict) B.source source.length dest_size
    acceleration).1.block

/-- The library with the fast compressor on these buffers. -/
def blockCoder (hc : Option (List UInt8) → List UInt8 → Nat → Int → List UInt8) (B : Buffers) :
    BlockCoder where
  LZ4_compress_fast_continue := fastEncode B
  LZ4_compress_HC_continue := hc

/-! ## One block -/

theorem loadedState_run (B : Buffers) (dict : Option (List UInt8)) :
    StreamRun (loadedState B dict) := by
  cases dict with
  | none => exact StreamRun.initStream
  | some dict => exact StreamRun.loadDict _ _ _

theorem loadedState_tableType (B : Buffers) (dict : Option (List UInt8)) :
    (loadedState B dict).tableType ≠ .byU16 := by
  intro htype
  cases dict with
  | none => cases htype
  | some dict =>
    simp only [loadedState, LZ4_loadDict] at htype
    split_ifs at htype
    cases htype

/-- The stream records the last bytes of the dictionary, 64 KB at most, if there are enough. -/
theorem loadedState_stream (B : Buffers) (dict : Option (List UInt8)) :
    (loadedState B dict).stream.currentOffset ≤ KB64 ∧
      ((loadedState B dict).stream.dictSize = 0 ∨
        HASH_UNIT ≤ (dictBytes dict).length ∧
        (loadedState B dict).stream.dictionary = B.dict + ((dictBytes dict).length - KB64) ∧
        (loadedState B dict).stream.dictSize = min (dictBytes dict).length KB64) := by
  cases dict with
  | none => exact ⟨Nat.zero_le _, Or.inl rfl⟩
  | some dict =>
    have h64 : KB64 = 65536 := rfl
    simp only [loadedState, LZ4_loadDict, PythonLz4.Stream.Continue.LZ4_loadDict, dictBytes,
      Option.getD_some]
    by_cases hsmall : dict.length < HASH_UNIT
    · simp only [if_pos hsmall]
      exact ⟨Nat.le_refl _, Or.inl rfl⟩
    · simp only [if_neg hsmall]
      refine ⟨Nat.le_refl _, Or.inr ⟨Nat.le_of_not_lt hsmall, ?_⟩⟩
      split_ifs <;> omega

/-- A dictionary that ends before the source does is used as it is. -/
theorem fastWindow_of_behind {s : LZ4_stream_t} {source n : Nat}
    (hoff : s.currentOffset + n ≤ 0x80000000) (hfour : 4 ≤ s.dictSize)
    (hend : s.dictionary + s.dictSize ≤ source + n) : (fastWindow s source n).1 = s := by
  have hrenorm : PythonLz4.Stream.Continue.LZ4_renormDictT s n = s := if_neg (Nat.not_lt.2 hoff)
  have hdictEnd : s.dictEnd = s.dictionary + s.dictSize := if_pos (by omega)
  have htiny : PythonLz4.Stream.Continue.invalidateTiny s s.dictEnd source n = (s, s.dictEnd) :=
    if_neg (by omega)
  simp only [fastWindow, hrenorm, htiny]
  exact if_neg (by omega)

section Call

variable {B : Buffers} {dict : Option (List UInt8)} {source : List UInt8}

/-- Buffers that are not aliased are apart in the sense of the stream. -/
theorem apart_of_not_aliased (hsource : 0 < B.source)
    (hmax : source.length ≤ LZ4_MAX_INPUT_SIZE)
    (h : ¬ B.Aliased (dictBytes dict).length source.length) :
    Apart (loadedState B dict) B.source source.length := by
  have h64 : KB64 = 65536 := rfl
  have hM : LZ4_MAX_INPUT_SIZE = 2113929216 := rfl
  obtain ⟨hoff, hstream⟩ := loadedState_stream B dict
  intro hext
  rcases fastWindow_cases (loadedState B dict).stream hsource source.length with
    ⟨heq, -⟩ | ⟨-, -, hzero⟩ | ⟨hne, hsnd, hend, hle, hclear, -⟩
  · exact absurd heq hext
  · exact Or.inr (by omega)
  · by_contra hcon
    rw [not_or, not_not, Nat.not_le] at hcon
    obtain ⟨hstart, hshort⟩ := hcon
    rcases hstream with h0 | ⟨hunit, hdictionary, hsize⟩
    · exact hne h0
    · -- the source reaches behind the end of the dictionary, which is used as it is
      have h8 : HASH_UNIT = 8 := rfl
      have hwhole := @fastWindow_of_behind (loadedState B dict).stream B.source source.length
        (by omega) (by omega) (by omega)
      rw [hwhole] at hstart hshort
      apply h
      exact ⟨hunit, by omega, by omega⟩

/-- The window is the end of the dictionary. -/
theorem window_suffix (hhold : B.Hold dict source) :
    ∃ g, dictBytes dict = g ++ window B.mem (loadedState B dict) B.source source.length := by
  have h64 : KB64 = 65536 := rfl
  obtain ⟨-, hstream⟩ := loadedState_stream B dict
  rw [window]
  rcases fastWindow_cases (loadedState B dict).stream hhold.source_pos source.length with
    ⟨-, h0, -⟩ | ⟨-, h0, -⟩ | ⟨hne, -, hend, hle, -⟩
  · exact ⟨dictBytes dict, by rw [h0, load_zero, List.append_nil]⟩
  · exact ⟨dictBytes dict, by rw [h0, load_zero, List.append_nil]⟩
  · rcases hstream with h0 | ⟨-, hdictionary, hsize⟩
    · exact absurd h0 hne
    · have hload := hhold.dict_eq
      generalize (dictBytes dict).length = len at hload hdictionary hsize
      generalize (fastWindow (loadedState B dict).stream B.source source.length).1 = w at hend hle ⊢
      refine ⟨load B.mem B.dict (len - w.dictSize), ?_⟩
      have hlen : len = len - w.dictSize + w.dictSize := by omega
      have hstart : w.dictionary = B.dict + (len - w.dictSize) := by omega
      rw [hstart, ← load_add, ← hlen, hload]

/-- A block decodes with more bytes in front of its dictionary. -/
theorem usingDict_append {fastLoop : Bool} {block g w out : List UInt8} {n : Nat}
    (h : LZ4_decompress_safe_usingDict fastLoop block n w false = .ok out) (adjacent : Bool) :
    LZ4_decompress_safe_usingDict fastLoop block n (g ++ w) adjacent = .ok out := by
  rw [LZ4_decompress_safe_usingDict_ok_iff] at h ⊢
  refine decode_of_refined (callOf_prefixComplete _ _ _) (callOf_prefixComplete _ _ _)
    (callOf_external_refinedBy (by simp) ?_) h
  rw [callOf_history]
  exact AgreeBack.append_left _ _ _

/-- A source over the limit is refused by the compressor itself. -/
theorem compressGeneric_too_large {C : CompressCall} (hmax : LZ4_MAX_INPUT_SIZE < C.inputSize)
    (cctx : LZ4_stream_t_internal) : (compressGeneric C cctx).1.block = [] := by
  have hblock : (LZ4_compress_generic C cctx.hashTable).block = [] := by
    rw [LZ4_compress_generic, if_pos hmax]
  rw [compressGeneric]
  split_ifs <;> exact hblock

theorem fastEncode_too_large (hmax : LZ4_MAX_INPUT_SIZE < source.length) (n : Nat)
    (acceleration : Int) : fastEncode B dict source n acceleration = [] := by
  rw [fastEncode, LZ4_compress_fast_continue]
  split_ifs <;> exact compressGeneric_too_large hmax _

/-- The contract of the encoder at these arguments. -/
theorem fastEncode_good (hhold : B.Hold dict source) (hmax : source.length ≤ LZ4_MAX_INPUT_SIZE)
    (halias : ¬ B.Aliased (dictBytes dict).length source.length) (n : Nat) (acceleration : Int) :
    (fastEncode B dict source n acceleration).length ≤ n ∧
      (fastEncode B dict source n acceleration ≠ [] →
        DecodesTo (fastEncode B dict source n acceleration) dict source) ∧
      (LZ4_compressBound source.length ≤ n → fastEncode B dict source n acceleration ≠ []) := by
  have hgood := continue_good (loadedState_run B dict).ok hmax (loadedState_tableType B dict)
    hhold.source_pos (apart_of_not_aliased hhold.source_pos hmax halias) B.mem n acceleration
  rw [hhold.source_eq] at hgood
  obtain ⟨g, hg⟩ := window_suffix hhold
  refine ⟨hgood.length_le, ?_, hgood.succeeds⟩
  intro hne fastLoop adjacent cap hcap
  rw [hg]
  exact usingDict_append (hgood.decodes hne fastLoop false cap hcap) adjacent

end Call

/-! ## The block functions -/

/-- The compressor at one source and dictionary, and anywhere else an encoder that finds no match.
-/
def pointEncode (B : Buffers) (dict : Option (List UInt8)) (source : List UInt8)
    (dict' : Option (List UInt8)) (source' : List UInt8) (n : Nat) (level : Int) : List UInt8 :=
  if dict' = dict ∧ source' = source then fastEncode B dict source n level
  else literalEncode dict' source' n level

def pointCoder (B : Buffers) (dict : Option (List UInt8)) (source : List UInt8) : BlockCoder where
  LZ4_compress_fast_continue := pointEncode B dict source
  LZ4_compress_HC_continue := pointEncode B dict source

theorem pointCoder_spec {B : Buffers} {dict : Option (List UInt8)} {source : List UInt8}
    (h : source.length ≤ LZ4_MAX_INPUT_SIZE →
      B.Hold dict source ∧ ¬ B.Aliased (dictBytes dict).length source.length) :
    (pointCoder B dict source).Spec := by
  suffices hspec : EncodeSpec (pointEncode B dict source) from ⟨hspec, hspec⟩
  have hpoint : ∀ n level, (fastEncode B dict source n level).length ≤ n ∧
      (fastEncode B dict source n level ≠ [] →
        DecodesTo (fastEncode B dict source n level) dict source) ∧
      (source.length ≤ LZ4_MAX_INPUT_SIZE → LZ4_compressBound source.length ≤ n →
        fastEncode B dict source n level ≠ []) := by
    intro n level
    by_cases hmax : source.length ≤ LZ4_MAX_INPUT_SIZE
    · obtain ⟨hlen, hdecodes, hsucceeds⟩ := fastEncode_good (h hmax).1 hmax (h hmax).2 n level
      exact ⟨hlen, hdecodes, fun _ => hsucceeds⟩
    · have hnil := @fastEncode_too_large B dict source (Nat.lt_of_not_le hmax) n level
      rw [hnil]
      exact ⟨Nat.zero_le n, fun hne => absurd rfl hne, fun hle => absurd hle hmax⟩
  constructor
  · intro dict' source' n level
    rw [pointEncode]
    split_ifs
    · exact (hpoint n level).1
    · exact literalEncode_spec.length_le dict' source' n level
  · intro dict' source' n level
    rw [pointEncode]
    split_ifs with heq
    · rw [heq.1, heq.2]
      exact (hpoint n level).2.1
    · exact literalEncode_spec.decodes dict' source' n level
  · intro dict' source' n level
    rw [pointEncode]
    split_ifs with heq
    · rw [heq.2]
      exact (hpoint n level).2.2
    · exact literalEncode_spec.succeeds dict' source' n level

/-- In the modes of the fast compressor the other one plays no part. -/
theorem compress_eq_point {hc : Option (List UInt8) → List UInt8 → Nat → Int → List UInt8}
    {B : Buffers} {x : List UInt8} {args : CompressArgs}
    (hmode : args.mode ∈ ["default", "fast"]) :
    compress (blockCoder hc B) x args =
      compress (pointCoder B args.dict x) x args := by
  have hcomp : ∃ comp, parseMode args.mode = some comp ∧ comp ≠ .HIGH_COMPRESSION := by
    simp only [List.mem_cons, List.not_mem_nil, or_false] at hmode
    rcases hmode with h | h
    · exact ⟨.DEFAULT, by rw [h]; rfl, nofun⟩
    · exact ⟨.FAST, by rw [h]; rfl, nofun⟩
  obtain ⟨comp, hparse, hne⟩ := hcomp
  simp only [compress, hparse, lz4_compress_generic, if_pos hne, blockCoder, pointCoder,
    pointEncode, and_self, if_true]

section Decompress

variable {block x : List UInt8} {args : DecompressArgs} {fastLoop adjacent : Bool}

/-- A good block behind the header. -/
theorem decompress_container (hblock : DecodesTo block args.dict x)
    (hlen : block.length ≤ LZ4_compressBound x.length) (hx : x.length ≤ LZ4_MAX_INPUT_SIZE)
    (hdict : (dictBytes args.dict).length ≤ INT_MAX) (hneg : args.uncompressed_size < 0) :
    decompress fastLoop adjacent (store_le32 x.length ++ block) args =
      .ok ⟨args.return_bytearray, x⟩ := by
  have hM : LZ4_MAX_INPUT_SIZE = 2113929216 := rfl
  have hI : INT_MAX = 2147483647 := rfl
  have hhdr := length_store_le32 x.length
  have hwhole : (store_le32 x.length ++ block).length = hdr_size + block.length := by
    rw [List.length_append, hhdr]
  have hbound := @compressBound_add_hdr_le x.length
  rw [decompress, if_neg (by omega), if_neg (Nat.not_lt.2 hdict), if_neg (by omega),
    if_neg (by omega), load_store_le32 (by omega), List.drop_left' hhdr]
  exact decompressInto_of_block hblock (Nat.le_refl _) (by omega) fun _ => rfl

/-- A good block on its own. -/
theorem decompress_bare (hblock : DecodesTo block args.dict x)
    (hlen : block.length ≤ INT_MAX) (hdict : (dictBytes args.dict).length ≤ INT_MAX)
    (hlo : (x.length : Int) ≤ args.uncompressed_size) (hhi : args.uncompressed_size ≤ INT_MAX) :
    decompress fastLoop adjacent block args = .ok ⟨args.return_bytearray, x⟩ := by
  rw [decompress, if_neg (Nat.not_lt.2 hlen), if_neg (Nat.not_lt.2 hdict), if_pos (by omega)]
  exact decompressInto_of_block hblock (by omega) (by omega) fun h => absurd h (by omega)

end Decompress

/-- A source and a dictionary that are two views of one buffer. -/
def viewed : List UInt8 :=
  [1, 2, 3, 4, 5, 6, 7, 8, 11, 12, 13, 14, 15, 16, 17, 18, 1, 2, 3, 4, 5, 6, 7, 8,
    1, 2, 3, 4, 5, 6, 7, 8, 21, 22, 23, 24, 25]

def viewBuffers : Buffers := ⟨store (fun _ => 0) 100 viewed, 100, 100⟩

/-- The same arguments with the dictionary in a buffer of its own. -/
def apartBuffers : Buffers := ⟨store viewBuffers.mem 200 (viewed.take 8), 100, 200⟩

end PythonLz4.Fast.BlockFunctions
