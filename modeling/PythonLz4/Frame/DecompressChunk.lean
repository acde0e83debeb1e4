import PythonLz4.Frame.CallBounds
import PythonLz4.Runtime

/-!
# `decompress_chunk`, `decompress` and `LZ4FrameDecompressor`

`_frame.c` calls the library in a loop and lets the destination grow. The loop is written for any
library with the two calls it makes, so that it also runs on the decoder without its buffers. It
ends after a few calls, since every call but the last fills the destination
(`decompressLoop_returns`).

How many bytes were read is handed to Python as a C `int`: it is the number read as long as that
fits (`decompress_bytes_read`).
-/

set_option autoImplicit false

namespace PythonLz4.Frame.DecompressChunk

open PythonLz4.Runtime
open PythonLz4.Lib.LittleEndian
open PythonLz4.Frame.Header
open PythonLz4.Frame.DecompressionContext
open PythonLz4.Frame.CallBounds

/-! ## The loop -/

/-- The library as `_frame.c` sees it, with contexts of type `σ`. -/
structure Library (σ : Type) where
  createDecompressionContext : σ
  resetDecompressionContext : σ → σ
  getFrameInfo : σ → List UInt8 → σ × Except LZ4F_errorCode (LZ4F_frameInfo × Nat)
  decompress : σ → Nat → List UInt8 → σ × Except LZ4F_errorCode Progress

/-- The library under `lz4libs`. -/
def lz4frame (fastLoop : Bool) : Library LZ4F_dctx where
  createDecompressionContext := LZ4F_createDecompressionContext
  resetDecompressionContext := LZ4F_resetDecompressionContext
  getFrameInfo := LZ4F_getFrameInfo fastLoop
  decompress dctx dstCapacity src := LZ4F_decompress fastLoop dctx (some dstCapacity) src

/-- `PyMem_Malloc` and `PyMem_Realloc` succeed; `available` says which sizes there is memory for. -/
def allocates (available : Nat → Bool) (size : Nat) : Prop :=
  size ≤ ADDRESS_SPACE ∧ available size

instance (available : Nat → Bool) (size : Nat) : Decidable (allocates available size) :=
  inferInstanceAs (Decidable (_ ∧ _))

/-- The local variables of `__decompress`: `source_cursor` counts from `source`, `destination` are
the bytes written. `reads` lists what the calls of the library have read, the last one last. -/
structure Loop (σ : Type) where
  context : σ
  source_cursor : Nat
  destination : List UInt8
  destination_size : Nat
  resize_factor : Nat
  reads : List Nat

/-- The loop has been left. -/
structure LoopEnd where
  source_cursor : Nat
  destination : List UInt8
  result : Nat
  end_of_frame : Bool
  reads : List Nat
  deriving DecidableEq, Repr

variable {σ : Type} (lib : Library σ) (available : Nat → Bool)

/-- "while (1)", `fuel` times at most. -/
def decompressLoop (source : List UInt8) (max_length : Int) :
    Nat → Loop σ → Option (σ × Except PyErr LoopEnd)
  | 0, _ => none
  | fuel + 1, l =>
    match lib.decompress l.context (l.destination_size - l.destination.length)
        (source.drop l.source_cursor) with
    | (context, .error e) =>
      some (context,
        .error ⟨.RuntimeError, "LZ4F_decompress failed with code: " ++ LZ4F_getErrorName e⟩)
    | (context, .ok p) =>
      let l : Loop σ := { l with
        context
        source_cursor := l.source_cursor + p.srcSize
        destination := l.destination ++ p.dst
        reads := l.reads ++ [p.srcSize] }
      let leave (end_of_frame : Bool) : LoopEnd :=
        ⟨l.source_cursor, l.destination, p.nextSrcSizeHint, end_of_frame, l.reads⟩
      if p.nextSrcSizeHint = 0 then some (context, .ok (leave true))
      else if l.source_cursor = source.length then some (context, .ok (leave false))
      else if l.destination.length = l.destination_size then
        if 0 ≤ max_length then some (context, .ok (leave false))
        else
          let resize_factor := l.resize_factor * 2
          let destination_size := l.destination_size * resize_factor % SIZE_T
          if allocates available destination_size then
            decompressLoop source max_length fuel { l with resize_factor, destination_size }
          else some (context, .error ⟨.RuntimeError, "Failed to resize buffer"⟩)
      else decompressLoop source max_length fuel l

/-- More calls than there are: ten resizes would take the destination out of the address space. -/
def loopFuel : Nat := 12

/-- `__decompress` from the allocation of the destination on. -/
def decompressFrom (source : List UInt8) (max_length : Int) (full_frame : Bool) (context : σ)
    (source_cursor destination_size : Nat) (reads : List Nat) :
    Option (σ × Except PyErr LoopEnd) :=
  if allocates available destination_size then
    match decompressLoop lib available source max_length loopFuel
        ⟨context, source_cursor, [], destination_size, 1, reads⟩ with
    | some (context, .ok e) =>
      if full_frame ∧ 0 < e.result then
        some (context, .error ⟨.RuntimeError,
          "Frame incomplete. LZ4F_decompress returned: " ++ toString e.result⟩)
      else if allocates available e.destination.length then some (context, .ok e)
      else some (context, .error PyErr_NoMemory)
    | r => r
  else some (context, .error PyErr_NoMemory)

set_option linter.style.nameCheck false in
/-- `__decompress` without the building of the result. -/
def __decompress (context : σ) (source : List UInt8) (max_length : Int) (full_frame : Bool) :
    Option (σ × Except PyErr LoopEnd) :=
  if full_frame then
    match lib.getFrameInfo context source with
    | (context, .error e) =>
      some (context,
        .error ⟨.RuntimeError, "LZ4F_getFrameInfo failed with code: " ++ LZ4F_getErrorName e⟩)
    | (context, .ok (frame_info, source_read)) =>
      decompressFrom lib available source max_length full_frame context source_read
        (if 0 < frame_info.contentSize then frame_info.contentSize
        else 2 * (source.length - source_read))
        [source_read]
  else
    decompressFrom lib available source max_length full_frame context 0
      (if 0 ≤ max_length then max_length.toNat else 2 * source.length) []

/-! ## The results -/

/-- The unit `i` of `Py_BuildValue`: the low 32 bits, with their sign. -/
def buildInt (n : Nat) : Int := Int.bmod n (2 ^ 32)

structure ChunkResult where
  decompressed : PyBytes
  bytes_read : Int
  eoframe : Bool
  deriving DecidableEq, Repr

/-- `Py_BuildValue ("NiO", …)`. -/
def LoopEnd.chunkResult (e : LoopEnd) (return_bytearray : Bool) : ChunkResult :=
  ⟨⟨return_bytearray, e.destination⟩, buildInt e.source_cursor, e.end_of_frame⟩

/-- `decompress_chunk`; `max_length` is parsed as a `Py_ssize_t`. -/
def decompress_chunk (context : σ) (data : List UInt8) (max_length : Int)
    (return_bytearray : Bool) : Option (σ × Except PyErr ChunkResult) :=
  if max_length < -2 ^ 63 ∨ 2 ^ 63 ≤ max_length then
    some (context, .error ⟨.OverflowError, "Python int too large to convert to C ssize_t"⟩)
  else
    (__decompress lib available context data max_length false).map fun r =>
      (r.1, r.2.map fun e => e.chunkResult return_bytearray)

/-- `decompress`: the bytes read are part of the result when they are asked for. -/
def decompress (data : List UInt8) (return_bytearray return_bytes_read : Bool) :
    Option (Except PyErr (PyBytes × Option Int)) :=
  (__decompress lib available lib.createDecompressionContext data (-1) true).map fun r =>
    r.2.map fun e =>
      (⟨return_bytearray, e.destination⟩,
        if return_bytes_read then some (buildInt e.source_cursor) else none)

/-! ## The decompressor object -/

/-- `data[i:]`. -/
def sliceFrom (data : List UInt8) (i : Int) : List UInt8 :=
  if 0 ≤ i then data.drop i.toNat else data.drop (data.length + i).toNat

structure LZ4FrameDecompressor (σ : Type) where
  context : σ
  eof : Bool
  needs_input : Bool
  unused_data : Option (List UInt8)
  unconsumed_data : List UInt8
  return_bytearray : Bool

namespace LZ4FrameDecompressor

/-- `__init__`. -/
def init (return_bytearray : Bool) : LZ4FrameDecompressor σ where
  context := lib.createDecompressionContext
  eof := false
  needs_input := true
  unused_data := none
  unconsumed_data := []
  return_bytearray := return_bytearray

def reset (self : LZ4FrameDecompressor σ) : LZ4FrameDecompressor σ :=
  { self with
    context := lib.resetDecompressionContext self.context
    eof := false
    needs_input := true
    unused_data := none
    unconsumed_data := [] }

/-- What `decompress` keeps of the data, `bytes_read` of which have been read. -/
def keep (self : LZ4FrameDecompressor σ) (data : List UInt8) (bytes_read : Int) (eoframe : Bool) :
    LZ4FrameDecompressor σ :=
  if bytes_read < data.length then
    if eoframe then { self with unused_data := some (sliceFrom data bytes_read) }
    else { self with unconsumed_data := sliceFrom data bytes_read, needs_input := false }
  else { self with unconsumed_data := [], needs_input := true, unused_data := none }

def decompress (self : LZ4FrameDecompressor σ) (data : List UInt8) (max_length : Int) :
    Option (LZ4FrameDecompressor σ × Except PyErr PyBytes) :=
  let data := self.unconsumed_data ++ data
  match decompress_chunk lib available self.context data max_length self.return_bytearray with
  | none => none
  | some (context, .error e) => some ({ self with context }, .error e)
  | some (context, .ok r) =>
    some ({ ({ self with context }).keep data r.bytes_read r.eoframe with eof := r.eoframe },
      .ok r.decompressed)

end LZ4FrameDecompressor

/-! ## The loop ends -/

/-- What the loop relies on: contexts within `ok` stay there, and calls keep within the bounds of
`ProgressBounds`. -/
structure Library.Lawful (lib : Library σ) (ok : σ → Prop) : Prop where
  create : ok lib.createDecompressionContext
  reset : ∀ c, ok c → ok (lib.resetDecompressionContext c)
  getFrameInfo : ∀ c src, ok c → ok (lib.getFrameInfo c src).1 ∧
    ∀ r, (lib.getFrameInfo c src).2 = .ok r → r.2 ≤ src.length
  decompress : ∀ c cap src, ok c → ok (lib.decompress c cap src).1 ∧
    ∀ p, (lib.decompress c cap src).2 = .ok p → ProgressBounds cap src p

/-- What holds whenever the loop calls the library, after `k` resizes. -/
structure LoopBounds (ok : σ → Prop) (source : List UInt8) (max_length : Int) (k : Nat)
    (l : Loop σ) : Prop where
  context : ok l.context
  cursor_le : l.source_cursor ≤ source.length
  reads_sum : l.reads.sum = l.source_cursor
  written_le : l.destination.length ≤ l.destination_size
  factor_eq : l.resize_factor = 2 ^ k
  size_le : l.destination_size ≤ ADDRESS_SPACE
  size_ge : (k = 0 ∧ (l.source_cursor = source.length ∨ 0 ≤ max_length)) ∨
    2 ^ (k * (k + 1) / 2) ≤ l.destination_size

/-- What holds when the loop has been left. -/
structure EndBounds (source : List UInt8) (max_length : Int) (e : LoopEnd) : Prop where
  cursor_le : e.source_cursor ≤ source.length
  reads_sum : e.reads.sum = e.source_cursor
  end_of_frame_iff : e.end_of_frame = true ↔ e.result = 0
  reason : e.end_of_frame = false → e.source_cursor = source.length ∨ 0 ≤ max_length

variable {lib} {ok : σ → Prop} {source : List UInt8} {max_length : Int}

theorem triangular_succ (k : Nat) : (k + 1) * (k + 1 + 1) / 2 = k * (k + 1) / 2 + (k + 1) := by
  have e : (k + 1) * (k + 1 + 1) = k * (k + 1) + (k + 1) * 2 := by ring
  rw [e, Nat.add_mul_div_right _ _ (by decide)]

/-- Ten resizes do not fit into the address space. -/
theorem resizes_le {k size : Nat} (hge : 2 ^ (k * (k + 1) / 2) ≤ size)
    (hle : size ≤ ADDRESS_SPACE) : k ≤ 9 := by
  by_contra hk
  have hk10 : 10 ≤ k := by omega
  have hmul : 10 * 11 ≤ k * (k + 1) := Nat.mul_le_mul hk10 (by omega)
  have hexp : 55 ≤ k * (k + 1) / 2 := by omega
  have hpow : 2 ^ 55 ≤ 2 ^ (k * (k + 1) / 2) := Nat.pow_le_pow_right (by decide) hexp
  have hspace : ADDRESS_SPACE < 2 ^ 55 := by decide
  omega

/-- The new size does not wrap around. -/
theorem resize_eq {k size : Nat} (hge : 2 ^ (k * (k + 1) / 2) ≤ size) (hle : size ≤ ADDRESS_SPACE) :
    size * (2 ^ k * 2) % SIZE_T = size * 2 ^ (k + 1) := by
  have hk := resizes_le hge hle
  have hpow : 2 ^ (k + 1) ≤ 2 ^ 10 := Nat.pow_le_pow_right (by decide) (by omega)
  have hmul : size * 2 ^ (k + 1) ≤ ADDRESS_SPACE * 2 ^ 10 := Nat.mul_le_mul hle hpow
  rw [← Nat.pow_succ, Nat.mod_eq_of_lt]
  exact Nat.lt_of_le_of_lt hmul (by decide)

theorem decompressLoop_returns (hlib : lib.Lawful ok) {fuel k : Nat} {l : Loop σ}
    (hl : LoopBounds ok source max_length k l) (hfuel : fuel + k = loopFuel) :
    ∃ r, decompressLoop lib available source max_length fuel l = some r ∧ ok r.1 ∧
      ∀ e, r.2 = .ok e → EndBounds source max_length e := by
  induction fuel generalizing k l with
  | zero =>
    rcases hl.size_ge with ⟨hk, -⟩ | hge
    · simp [hk, loopFuel] at hfuel
    · have hk := resizes_le hge hl.size_le
      simp only [loopFuel] at hfuel
      omega
  | succ fuel ih =>
    obtain ⟨hcontext, hcall⟩ := hlib.decompress l.context
      (l.destination_size - l.destination.length) (source.drop l.source_cursor) hl.context
    unfold decompressLoop
    generalize lib.decompress l.context (l.destination_size - l.destination.length)
      (source.drop l.source_cursor) = r at hcontext hcall ⊢
    obtain ⟨context, e | p⟩ := r
    · exact ⟨_, rfl, hcontext, nofun⟩
    have hp := hcall p rfl
    have hsrc := hp.srcSize
    have hdst := hp.dst
    have hwritten := hl.written_le
    rw [List.length_drop] at hsrc
    have hcursor := hl.cursor_le
    have hle : l.source_cursor + p.srcSize ≤ source.length := by omega
    have hsum : (l.reads ++ [p.srcSize]).sum = l.source_cursor + p.srcSize := by
      rw [List.sum_append, List.sum_singleton, hl.reads_sum]
    simp only
    by_cases hend : p.nextSrcSizeHint = 0
    · rw [if_pos hend]
      refine ⟨_, rfl, hcontext, fun e he => ?_⟩
      obtain rfl := Except.ok.inj he
      exact ⟨hle, hsum, ⟨fun _ => hend, fun _ => rfl⟩, nofun⟩
    rw [if_neg hend]
    have hleave : ∀ e : LoopEnd, (Except.ok ⟨l.source_cursor + p.srcSize, l.destination ++ p.dst,
        p.nextSrcSizeHint, false, l.reads ++ [p.srcSize]⟩ : Except PyErr LoopEnd) = .ok e →
        (l.source_cursor + p.srcSize = source.length ∨ 0 ≤ max_length) →
        EndBounds source max_length e := by
      intro e he hreason
      obtain rfl := Except.ok.inj he
      exact ⟨hle, hsum, ⟨nofun, fun h => absurd h hend⟩, fun _ => hreason⟩
    by_cases hused : l.source_cursor + p.srcSize = source.length
    · rw [if_pos hused]
      exact ⟨_, rfl, hcontext, fun e he => hleave e he (Or.inl hused)⟩
    rw [if_neg hused]
    -- the library has stopped with input left: the destination is full
    have hfull : (l.destination ++ p.dst).length = l.destination_size := by
      rw [List.length_append]
      rcases hp.reason hend with hread | hfull
      · rw [List.length_drop] at hread
        omega
      · omega
    rw [if_pos hfull]
    by_cases hmax : 0 ≤ max_length
    · rw [if_pos hmax]
      exact ⟨_, rfl, hcontext, fun e he => hleave e he (Or.inr hmax)⟩
    rw [if_neg hmax]
    have hge : 2 ^ (k * (k + 1) / 2) ≤ l.destination_size := by
      rcases hl.size_ge with ⟨-, hall | hbounded⟩ | hge
      · omega
      · exact absurd hbounded hmax
      · exact hge
    rw [hl.factor_eq, resize_eq hge hl.size_le]
    split_ifs with halloc
    · refine ih (k := k + 1) ?_ (by omega)
      exact
        { context := hcontext
          cursor_le := hle
          reads_sum := hsum
          written_le := by
            show (l.destination ++ p.dst).length ≤ l.destination_size * 2 ^ (k + 1)
            rw [hfull]
            exact Nat.le_mul_of_pos_right _ (Nat.two_pow_pos _)
          factor_eq := (Nat.pow_succ ..).symm
          size_le := halloc.1
          size_ge := by
            refine Or.inr ?_
            rw [triangular_succ, Nat.pow_add]
            exact Nat.mul_le_mul_right _ hge }
    · exact ⟨_, rfl, hcontext, nofun⟩

/-- One call is enough when the frame ends in it. -/
theorem decompressFrom_of_end (full_frame : Bool) {context context' : σ}
    {source_cursor destination_size : Nat} (reads : List Nat) {p : Progress}
    (hsize : allocates available destination_size)
    (hcall : lib.decompress context destination_size (source.drop source_cursor) =
      (context', .ok p))
    (hend : p.nextSrcSizeHint = 0) (hdst : allocates available p.dst.length) :
    decompressFrom lib available source max_length full_frame context source_cursor
        destination_size reads =
      some (context', .ok ⟨source_cursor + p.srcSize, p.dst, 0, true, reads ++ [p.srcSize]⟩) := by
  have hloop : decompressLoop lib available source max_length loopFuel
      ⟨context, source_cursor, [], destination_size, 1, reads⟩ =
        some (context',
          .ok ⟨source_cursor + p.srcSize, p.dst, 0, true, reads ++ [p.srcSize]⟩) := by
    rw [loopFuel, decompressLoop]
    simp only [List.length_nil, Nat.sub_zero, hcall, List.nil_append]
    rw [if_pos hend, hend]
  unfold decompressFrom
  rw [if_pos hsize, hloop]
  simp only [Nat.lt_irrefl, and_false, if_false]
  rw [if_pos hdst]

theorem decompressFrom_returns (hlib : lib.Lawful ok) (full_frame : Bool) {context : σ}
    (hcontext : ok context) {source_cursor destination_size : Nat} {reads : List Nat}
    (hcursor : source_cursor ≤ source.length) (hreads : reads.sum = source_cursor)
    (hsize : source_cursor = source.length ∨ 0 ≤ max_length ∨ 0 < destination_size) :
    ∃ r, decompressFrom lib available source max_length full_frame context source_cursor
        destination_size reads = some r ∧ ok r.1 ∧
      ∀ e, r.2 = .ok e → EndBounds source max_length e := by
  unfold decompressFrom
  by_cases halloc : allocates available destination_size
  · rw [if_pos halloc]
    have hl : LoopBounds ok source max_length 0
        ⟨context, source_cursor, [], destination_size, 1, reads⟩ :=
      { context := hcontext
        cursor_le := hcursor
        reads_sum := hreads
        written_le := Nat.zero_le _
        factor_eq := rfl
        size_le := halloc.1
        size_ge := by
          rcases hsize with hall | hbounded | hpos
          · exact Or.inl ⟨rfl, Or.inl hall⟩
          · exact Or.inl ⟨rfl, Or.inr hbounded⟩
          · exact Or.inr hpos }
    obtain ⟨⟨c, r⟩, hr, hc, hend⟩ := decompressLoop_returns available hlib hl
      (show loopFuel + 0 = loopFuel from rfl)
    rw [hr]
    cases r with
    | error e => exact ⟨_, rfl, hc, nofun⟩
    | ok e =>
      simp only
      split_ifs
      · exact ⟨_, rfl, hc, nofun⟩
      · exact ⟨_, rfl, hc, hend⟩
      · exact ⟨_, rfl, hc, nofun⟩
  · rw [if_neg halloc]
    exact ⟨_, rfl, hcontext, nofun⟩

/-- `__decompress` returns, from every context, whatever the data. -/
theorem decompress_frame_returns (hlib : lib.Lawful ok) {context : σ} (hcontext : ok context)
    (source : List UInt8) (max_length : Int) (full_frame : Bool) :
    ∃ r, __decompress lib available context source max_length full_frame = some r ∧ ok r.1 ∧
      ∀ e, r.2 = .ok e → EndBounds source max_length e := by
  unfold __decompress
  cases full_frame with
  | false =>
    refine decompressFrom_returns available hlib false hcontext (Nat.zero_le _) rfl ?_
    by_cases hmax : 0 ≤ max_length
    · exact Or.inr (Or.inl hmax)
    · rw [if_neg hmax]
      omega
  | true =>
    rw [if_pos rfl]
    obtain ⟨hc, hread⟩ := hlib.getFrameInfo context source hcontext
    generalize lib.getFrameInfo context source = r at hc hread ⊢
    obtain ⟨c, e | ⟨frame_info, source_read⟩⟩ := r
    · exact ⟨_, rfl, hc, nofun⟩
    · have hle : source_read ≤ source.length := hread _ rfl
      refine decompressFrom_returns available hlib true hc hle (List.sum_singleton) ?_
      split_ifs
      · exact Or.inr (Or.inr (by assumption))
      · omega

theorem decompress_chunk_returns (hlib : lib.Lawful ok) {context : σ} (hcontext : ok context)
    (data : List UInt8) (max_length : Int) (return_bytearray : Bool) :
    ∃ r, decompress_chunk lib available context data max_length return_bytearray = some r ∧
      ok r.1 := by
  unfold decompress_chunk
  split_ifs
  · exact ⟨_, rfl, hcontext⟩
  · obtain ⟨r, hr, hc, -⟩ := decompress_frame_returns available hlib hcontext data max_length false
    rw [hr]
    exact ⟨_, rfl, hc⟩

theorem getFrameInfo_bounds (fastLoop : Bool) {dctx : LZ4F_dctx} (hb : FieldBounds dctx)
    (src : List UInt8) :
    FieldBounds (LZ4F_getFrameInfo fastLoop dctx src).1 ∧
      ∀ r, (LZ4F_getFrameInfo fastLoop dctx src).2 = .ok r → r.2 ≤ src.length := by
  obtain ⟨hc, -⟩ := LZ4F_decompress_spec fastLoop hb none []
  unfold LZ4F_getFrameInfo
  cases hs : dctx.dStage with
  | getFrameHeader =>
    simp only
    cases hsize : LZ4F_headerSize src with
    | error e => exact ⟨hb, by rintro r ⟨⟩⟩
    | ok hSize =>
      simp only
      by_cases hshort : src.length < hSize
      · rw [if_pos hshort]
        exact ⟨hb, by rintro r ⟨⟩⟩
      rw [if_neg hshort]
      obtain ⟨hc, hread⟩ := decodeHeader_bounds hb (src.take hSize) false
      generalize LZ4F_decodeHeader dctx (src.take hSize) false = q at hc hread ⊢
      obtain ⟨dctx', e | n⟩ := q
      · exact ⟨hc, by rintro r ⟨⟩⟩
      · refine ⟨hc, fun r hr => ?_⟩
        obtain rfl := Except.ok.inj hr
        obtain ⟨-, hle, -⟩ := hread n rfl
        exact Nat.le_trans hle (List.length_take_le' _ _)
  | storeFrameHeader => exact ⟨hb, by rintro r ⟨⟩⟩
  | _ =>
    -- the header has been read: no input is consumed
    simp only
    generalize LZ4F_decompress fastLoop dctx none [] = q at hc ⊢
    obtain ⟨dctx', e | p⟩ := q
    · exact ⟨hc, by rintro r ⟨⟩⟩
    · refine ⟨hc, fun r hr => ?_⟩
      obtain rfl := Except.ok.inj hr
      exact Nat.zero_le _

/-- The library keeps the bounds the loop relies on. -/
theorem lz4frame_lawful (fastLoop : Bool) : (lz4frame fastLoop).Lawful FieldBounds where
  create := ⟨show 0 < SIZE_T by decide, Nat.le_refl 0⟩
  reset _ hb := reset_bounds hb
  getFrameInfo _ src hb := getFrameInfo_bounds fastLoop hb src
  decompress _ cap src hb := LZ4F_decompress_spec fastLoop hb (some cap) src

/-! ## The number of bytes read -/

/-- The bytes `LZ4F_getFrameInfo` and `LZ4F_decompress` have read in a call. -/
def LoopEnd.totalRead (e : LoopEnd) : Nat := e.reads.sum

theorem buildInt_of_lt {n : Nat} (h : n < 2 ^ 31) : buildInt n = n :=
  Int.bmod_eq_of_le (Int.le_trans (by decide) (Int.natCast_nonneg n)) (by
    have hle : ((n : Nat) : Int) < ((2 ^ 31 : Nat) : Int) := Int.ofNat_lt.2 h
    exact Int.lt_of_lt_of_le hle (by decide))

theorem buildInt_lt (n : Nat) : buildInt n < ((2 ^ 31 : Nat) : Int) :=
  Int.lt_of_lt_of_le (Int.bmod_lt (by decide)) (by decide)

theorem buildInt_eq_iff {n : Nat} : buildInt n = n ↔ n < 2 ^ 31 := by
  refine ⟨fun h => ?_, buildInt_of_lt⟩
  have hlt := buildInt_lt n
  rw [h] at hlt
  exact Int.ofNat_lt.1 hlt

theorem sliceFrom_natCast (data : List UInt8) (n : Nat) : sliceFrom data n = data.drop n := by
  rw [sliceFrom, if_pos (Int.natCast_nonneg n), Int.toNat_natCast]

/-- The unread tail that `keep` keeps when the number of bytes read is right. -/
theorem keep_natCast (self : LZ4FrameDecompressor σ) (data : List UInt8) (n : Nat)
    (eoframe : Bool) :
    self.keep data n eoframe =
      if n < data.length then
        if eoframe then { self with unused_data := some (data.drop n) }
        else { self with unconsumed_data := data.drop n, needs_input := false }
      else { self with unconsumed_data := [], needs_input := true, unused_data := none } := by
  simp only [LZ4FrameDecompressor.keep, sliceFrom_natCast, Int.ofNat_lt]

/-- `decompress_chunk` is `__decompress` with the result built. -/
theorem decompress_chunk_ok {context context' : σ} {data : List UInt8} {max_length : Int}
    {return_bytearray : Bool} {r : ChunkResult}
    (h : decompress_chunk lib available context data max_length return_bytearray =
      some (context', .ok r)) :
    ∃ e, __decompress lib available context data max_length false = some (context', .ok e) ∧
      r = e.chunkResult return_bytearray := by
  unfold decompress_chunk at h
  split_ifs at h
  · cases h
  · generalize __decompress lib available context data max_length false = q at h ⊢
    rcases q with _ | ⟨c, e | e⟩
    · cases h
    · cases h
    · simp only [Option.map_some, Except.map, Option.some.injEq, Prod.mk.injEq,
        Except.ok.injEq] at h
      exact ⟨e, by rw [h.1], h.2.symm⟩

theorem decompress_ok {data : List UInt8} {return_bytearray return_bytes_read : Bool}
    {r : PyBytes × Option Int}
    (h : decompress lib available data return_bytearray return_bytes_read = some (.ok r)) :
    ∃ context' e,
      __decompress lib available lib.createDecompressionContext data (-1) true =
        some (context', .ok e) ∧
      r = (⟨return_bytearray, e.destination⟩,
        if return_bytes_read then some (buildInt e.source_cursor) else none) := by
  unfold decompress at h
  generalize __decompress lib available lib.createDecompressionContext data (-1) true = q at h ⊢
  rcases q with _ | ⟨c, e | e⟩
  · cases h
  · cases h
  · simp only [Option.map_some, Except.map, Option.some.injEq, Except.ok.injEq] at h
    exact ⟨c, e, rfl, h.symm⟩

/-- What is reported as read, for every call of the loop that returns. -/
theorem totalRead_spec (hlib : lib.Lawful ok) {context context' : σ} (hcontext : ok context)
    {full_frame : Bool} {e : LoopEnd}
    (h : __decompress lib available context source max_length full_frame =
      some (context', .ok e)) :
    e.totalRead ≤ source.length ∧ e.source_cursor = e.totalRead := by
  obtain ⟨r, hr, -, hend⟩ := decompress_frame_returns available hlib hcontext source max_length
    full_frame
  obtain rfl := Option.some.inj (hr.symm.trans h)
  have he := hend e rfl
  refine ⟨?_, he.reads_sum.symm⟩
  rw [LoopEnd.totalRead, he.reads_sum]
  exact he.cursor_le

/-- The call of `decompress_chunk` reports what was read, as long as that is below 2 GiB. -/
theorem decompress_chunk_bytes_read (hlib : lib.Lawful ok) {context context' : σ}
    (hcontext : ok context) {data : List UInt8} {return_bytearray : Bool} {r : ChunkResult}
    (h : decompress_chunk lib available context data max_length return_bytearray =
      some (context', .ok r)) :
    ∃ e, __decompress lib available context data max_length false = some (context', .ok e) ∧
      r.eoframe = e.end_of_frame ∧ e.totalRead ≤ data.length ∧
      (r.bytes_read = e.totalRead ↔ e.totalRead < 2 ^ 31) := by
  obtain ⟨e, he, rfl⟩ := decompress_chunk_ok available h
  obtain ⟨hle, hcursor⟩ := totalRead_spec available hlib hcontext he
  refine ⟨e, he, rfl, hle, ?_⟩
  simp only [LoopEnd.chunkResult, hcursor]
  exact buildInt_eq_iff

/-- What the object keeps of the data when the number is right. -/
theorem LZ4FrameDecompressor.decompress_keeps (hlib : lib.Lawful ok)
    {self self' : LZ4FrameDecompressor σ} (hcontext : ok self.context) {data : List UInt8}
    {out : PyBytes} (h : self.decompress lib available data max_length = some (self', .ok out)) :
    ∃ e, __decompress lib available self.context (self.unconsumed_data ++ data) max_length false =
        some (self'.context, .ok e) ∧
      (e.totalRead < 2 ^ 31 → self' =
        { ({ self with context := self'.context }).keep (self.unconsumed_data ++ data) e.totalRead
            e.end_of_frame with eof := e.end_of_frame }) := by
  unfold LZ4FrameDecompressor.decompress at h
  simp only at h
  cases hchunk : decompress_chunk lib available self.context (self.unconsumed_data ++ data)
      max_length self.return_bytearray with
  | none =>
    rw [hchunk] at h
    cases h
  | some q =>
    obtain ⟨c, e | r⟩ := q
    · rw [hchunk] at h
      cases h
    rw [hchunk] at h
    simp only [Option.some.injEq, Prod.mk.injEq, Except.ok.injEq] at h
    obtain ⟨rfl, -⟩ := h
    obtain ⟨e, he, heof, -, hiff⟩ := decompress_chunk_bytes_read available hlib hcontext hchunk
    have hkeep : ∀ (x : LZ4FrameDecompressor σ) (n : Int) (b : Bool),
        (x.keep (self.unconsumed_data ++ data) n b).context = x.context := by
      intro x n b
      unfold LZ4FrameDecompressor.keep
      split_ifs <;> rfl
    simp only [hkeep]
    refine ⟨e, he, fun hlt => ?_⟩
    rw [hiff.2 hlt, heof]

/-- The variables of the loop after a call of the library. -/
def Loop.after (l : Loop σ) (context : σ) (p : Progress) : Loop σ :=
  { l with
    context
    source_cursor := l.source_cursor + p.srcSize
    destination := l.destination ++ p.dst
    reads := l.reads ++ [p.srcSize] }

/-- The loop is left after a call of the library. -/
def Loop.leave (l : Loop σ) (p : Progress) (end_of_frame : Bool) : LoopEnd :=
  ⟨l.source_cursor, l.destination, p.nextSrcSizeHint, end_of_frame, l.reads⟩

section Loops

variable {fastLoop : Bool} {available : Nat → Bool}

/-- The iterations a loop that returns consists of. -/
theorem decompressLoop_ok {fuel : Nat} {l : Loop LZ4F_dctx} {context' : LZ4F_dctx} {e : LoopEnd}
    (h : decompressLoop (lz4frame fastLoop) available source max_length (fuel + 1) l =
      some (context', .ok e)) :
    ∃ context₁ p,
      LZ4F_decompress fastLoop l.context (some (l.destination_size - l.destination.length))
          (source.drop l.source_cursor) = (context₁, .ok p) ∧
        ((p.nextSrcSizeHint = 0 ∧ context' = context₁ ∧ e = (l.after context₁ p).leave p true) ∨
          (p.nextSrcSizeHint ≠ 0 ∧ context' = context₁ ∧ e = (l.after context₁ p).leave p false ∧
            ((l.after context₁ p).source_cursor = source.length ∨ 0 ≤ max_length)) ∨
          (p.nextSrcSizeHint ≠ 0 ∧ (l.after context₁ p).source_cursor ≠ source.length ∧
            (l.after context₁ p).destination.length = l.destination_size ∧ ¬ 0 ≤ max_length ∧
            allocates available (l.destination_size * (l.resize_factor * 2) % SIZE_T) ∧
            decompressLoop (lz4frame fastLoop) available source max_length fuel
              { l.after context₁ p with
                resize_factor := l.resize_factor * 2
                destination_size := l.destination_size * (l.resize_factor * 2) % SIZE_T } =
              some (context', .ok e)) ∨
          (p.nextSrcSizeHint ≠ 0 ∧ (l.after context₁ p).source_cursor ≠ source.length ∧
            (l.after context₁ p).destination.length ≠ l.destination_size)) := by
  rw [decompressLoop] at h
  dsimp only [lz4frame] at h
  generalize LZ4F_decompress fastLoop l.context (some (l.destination_size - l.destination.length))
    (source.drop l.source_cursor) = r at h ⊢
  obtain ⟨context₁, err | p⟩ := r
  · cases h
  refine ⟨context₁, p, rfl, ?_⟩
  dsimp only at h
  by_cases hend : p.nextSrcSizeHint = 0
  · rw [if_pos hend] at h
    simp only [Option.some.injEq, Prod.mk.injEq, Except.ok.injEq] at h
    exact Or.inl ⟨hend, h.1.symm, h.2.symm⟩
  rw [if_neg hend] at h
  refine Or.inr ?_
  by_cases hused : (l.after context₁ p).source_cursor = source.length
  · rw [if_pos (show l.source_cursor + p.srcSize = _ from hused)] at h
    simp only [Option.some.injEq, Prod.mk.injEq, Except.ok.injEq] at h
    exact Or.inl ⟨hend, h.1.symm, h.2.symm, Or.inl hused⟩
  rw [if_neg (show ¬ l.source_cursor + p.srcSize = _ from hused)] at h
  by_cases hfull : (l.after context₁ p).destination.length = l.destination_size
  · rw [if_pos (show (l.destination ++ p.dst).length = _ from hfull)] at h
    by_cases hmax : 0 ≤ max_length
    · rw [if_pos hmax] at h
      simp only [Option.some.injEq, Prod.mk.injEq, Except.ok.injEq] at h
      exact Or.inl ⟨hend, h.1.symm, h.2.symm, Or.inr hmax⟩
    · rw [if_neg hmax] at h
      split_ifs at h with halloc
      · exact Or.inr (Or.inl ⟨hend, hused, hfull, hmax, halloc, h⟩)
      · cases h
  · exact Or.inr (Or.inr ⟨hend, hused, hfull⟩)

/-- A call of the library with input left has filled the destination. -/
theorem after_full {l : Loop LZ4F_dctx} (hb : FieldBounds l.context)
    (hwritten : l.destination.length ≤ l.destination_size)
    (hcursor : l.source_cursor ≤ source.length) {context₁ : LZ4F_dctx} {p : Progress}
    (hcall : LZ4F_decompress fastLoop l.context
      (some (l.destination_size - l.destination.length)) (source.drop l.source_cursor) =
        (context₁, .ok p))
    (hend : p.nextSrcSizeHint ≠ 0)
    (hused : (l.after context₁ p).source_cursor ≠ source.length) :
    (l.after context₁ p).destination.length = l.destination_size := by
  have hspec := (LZ4F_decompress_spec fastLoop hb
    (some (l.destination_size - l.destination.length)) (source.drop l.source_cursor)).2
  rw [hcall] at hspec
  have hp := hspec p rfl
  have hused' : l.source_cursor + p.srcSize ≠ source.length := hused
  show (l.destination ++ p.dst).length = l.destination_size
  rw [List.length_append]
  rcases hp.reason hend with hread | hfull
  · rw [List.length_drop] at hread
    omega
  · have hcap : p.dst.length = l.destination_size - l.destination.length := hfull
    omega

/-- What comes before and after a loop that returns. -/
theorem decompressFrom_ok {full_frame : Bool} {context context' : σ}
    {source_cursor destination_size : Nat} {reads : List Nat} {e : LoopEnd}
    (h : decompressFrom lib available source max_length full_frame context source_cursor
      destination_size reads = some (context', .ok e)) :
    allocates available destination_size ∧
      decompressLoop lib available source max_length loopFuel
        ⟨context, source_cursor, [], destination_size, 1, reads⟩ = some (context', .ok e) ∧
      (full_frame = true → e.result = 0) := by
  unfold decompressFrom at h
  by_cases halloc : allocates available destination_size
  · rw [if_pos halloc] at h
    generalize decompressLoop lib available source max_length loopFuel
      ⟨context, source_cursor, [], destination_size, 1, reads⟩ = r at h ⊢
    rcases r with _ | ⟨context₀, err | e₀⟩
    · cases h
    · cases h
    dsimp only at h
    by_cases hframe : full_frame = true ∧ 0 < e₀.result
    · rw [if_pos hframe] at h
      cases h
    rw [if_neg hframe] at h
    by_cases hsize : allocates available e₀.destination.length
    · rw [if_pos hsize] at h
      cases h
      exact ⟨halloc, rfl, fun hfull => Nat.eq_zero_of_not_pos fun hpos => hframe ⟨hfull, hpos⟩⟩
    · rw [if_neg hsize] at h
      cases h
  · rw [if_neg halloc] at h
    cases h

/-- The context comes out of the loop, if that is entered. -/
theorem decompressFrom_context {full_frame : Bool} {context context' : σ}
    {source_cursor destination_size : Nat} {reads : List Nat} {r : Except PyErr LoopEnd}
    (h : decompressFrom lib available source max_length full_frame context source_cursor
      destination_size reads = some (context', r)) :
    context' = context ∨ ∃ r', decompressLoop lib available source max_length loopFuel
      ⟨context, source_cursor, [], destination_size, 1, reads⟩ = some (context', r') := by
  unfold decompressFrom at h
  by_cases halloc : allocates available destination_size
  · rw [if_pos halloc] at h
    generalize decompressLoop lib available source max_length loopFuel
      ⟨context, source_cursor, [], destination_size, 1, reads⟩ = q at h ⊢
    rcases q with _ | ⟨context₀, err | e⟩
    · cases h
    · cases h
      exact Or.inr ⟨_, rfl⟩
    · have hfirst : context₀ = context' := by
        dsimp only at h
        by_cases hframe : full_frame = true ∧ 0 < e.result
        · rw [if_pos hframe] at h
          cases h
          rfl
        rw [if_neg hframe] at h
        by_cases hsize : allocates available e.destination.length
        · rw [if_pos hsize] at h
          cases h
          rfl
        · rw [if_neg hsize] at h
          cases h
          rfl
      rw [hfirst]
      exact Or.inr ⟨_, rfl⟩
  · rw [if_neg halloc] at h
    cases h
    exact Or.inl rfl

/-- With `max_length` given the library is called once. -/
theorem decompress_bounded {context context' : LZ4F_dctx} (hb : FieldBounds context) {m : Nat}
    {e : LoopEnd}
    (h : __decompress (lz4frame fastLoop) available context source m false =
      some (context', .ok e)) :
    ∃ p, LZ4F_decompress fastLoop context (some m) source = (context', .ok p) ∧
      e.source_cursor = p.srcSize ∧ e.destination = p.dst ∧
      (e.end_of_frame = true ↔ p.nextSrcSizeHint = 0) := by
  have hm : (0 : Int) ≤ m := Int.natCast_nonneg m
  unfold __decompress at h
  rw [if_neg Bool.false_ne_true, if_pos hm, Int.toNat_natCast] at h
  obtain ⟨-, hloop, -⟩ := decompressFrom_ok h
  obtain ⟨context₁, p, hcall, hcases⟩ := decompressLoop_ok hloop
  rw [List.length_nil, Nat.sub_zero] at hcall
  rcases hcases with ⟨hend, rfl, rfl⟩ | ⟨hend, rfl, rfl, -⟩ | ⟨-, -, -, hneg, -⟩ |
    ⟨hend, hused, hfull⟩
  · exact ⟨p, hcall, Nat.zero_add _, rfl, fun _ => hend, fun _ => rfl⟩
  · exact ⟨p, hcall, Nat.zero_add _, rfl, by rintro ⟨⟩, fun hzero => absurd hzero hend⟩
  · exact absurd hm hneg
  · exact absurd (after_full hb (Nat.zero_le _) (Nat.zero_le _) hcall hend hused) hfull

end Loops

/-! ## Skippable frames -/

/-- A skippable frame with `n` zero bytes. -/
def skippableFrame (n : Nat) : List UInt8 :=
  [0x50, 0x2A, 0x4D, 0x18] ++ (leBytes 4 n ++ List.replicate n 0)

theorem length_skippableFrame (n : Nat) : (skippableFrame n).length = n + 8 := by
  simp only [skippableFrame, List.length_append, length_leBytes, List.length_replicate,
    List.length_cons, List.length_nil]
  omega

/-- The library reads a skippable frame in one call. -/
theorem LZ4F_decompress_skippableFrame (fastLoop : Bool) {n : Nat} (hn : 11 ≤ n)
    (hlt : n < 2 ^ 32) (dstCapacity : Option Nat) :
    ∃ context', LZ4F_decompress fastLoop LZ4F_createDecompressionContext dstCapacity
      (skippableFrame n) = (context', .ok ⟨n + 8, [], 0⟩) := by
  have hlen := length_skippableFrame n
  have hread : readFrameHeader (skippableFrame n) = .ok .skippable := by
    unfold readFrameHeader
    rw [if_pos]
    show leNat [0x50, 0x2A, 0x4D, 0x18] / 16 * 16 = LZ4F_MAGIC_SKIPPABLE_START
    decide
  have hheader : (skippableFrame n).drop 4 = leBytes 4 n ++ List.replicate n 0 :=
    List.drop_left' rfl
  have hsize : leNat (((skippableFrame n).drop 4).take 4) = n := by
    rw [hheader, List.take_left' (length_leBytes 4 n)]
    exact leNat_leBytes_of_lt hlt
  obtain ⟨d₁, hd₁, hstage₁⟩ : ∃ d₁, iteration fastLoop dstCapacity
      ⟨LZ4F_createDecompressionContext, skippableFrame n, []⟩ =
        .again ⟨d₁, (skippableFrame n).drop 4, []⟩ ∧ d₁.dStage = .getSFrameSize := by
    refine ⟨{ LZ4F_createDecompressionContext with
      frameInfo := { LZ4F_INIT_FRAMEINFO with frameType := .skippableFrame }
      dStage := .getSFrameSize }, ?_, rfl⟩
    show dstage_getFrameHeader _ = _
    rw [dstage_getFrameHeader, if_pos (by rw [hlen, maxFHSize]; omega), LZ4F_decodeHeader,
      if_neg (by rw [hlen, minFHSize]; omega)]
    simp only [hread]
    rfl
  obtain ⟨d₂, hd₂, hstage₂, htarget⟩ : ∃ d₂, iteration fastLoop dstCapacity
      ⟨d₁, (skippableFrame n).drop 4, []⟩ = .again ⟨d₂, List.replicate n 0, []⟩ ∧
        d₂.dStage = .skipSkippable ∧ d₂.tmpInTarget = n := by
    refine ⟨{ d₁ with
      frameInfo := { d₁.frameInfo with contentSize := n }
      tmpInTarget := n
      dStage := .skipSkippable }, ?_, rfl, rfl⟩
    rw [iteration, hstage₁]
    simp only
    rw [dstage_getSFrameSize, if_pos (by rw [List.length_drop, hlen]; omega), decodeSFrameSize]
    simp only [List.take_take, Nat.min_self, hsize]
    rw [hheader, List.drop_left' (length_leBytes 4 n)]
  obtain ⟨d₃, hd₃⟩ : ∃ d₃, iteration fastLoop dstCapacity ⟨d₂, List.replicate n 0, []⟩ =
      .stop ⟨d₃, [], []⟩ 0 := by
    rw [iteration, hstage₂]
    simp only
    rw [dstage_skipSkippable]
    simp only [htarget, List.length_replicate, Nat.min_self, Nat.sub_self, ne_eq,
      not_true_eq_false, if_false, List.drop_replicate, List.replicate_zero]
    exact ⟨_, rfl⟩
  have hfuel : stagesFuel (skippableFrame n).length = 64 * (n + 8) + 61 + 1 + 1 + 1 := by
    rw [hlen, stagesFuel]
  unfold LZ4F_decompress
  rw [hfuel]
  simp only [runStages, hd₁, hd₂, hd₃, List.length_nil, Nat.sub_zero, hlen]
  exact ⟨_, rfl⟩

/-- `decompress_chunk` on a skippable frame. -/
theorem decompress_chunk_skippableFrame (fastLoop : Bool) {n : Nat} (hn : 11 ≤ n)
    (hlt : n < 2 ^ 32) :
    ∃ context' e,
      __decompress (lz4frame fastLoop) (fun _ => true) LZ4F_createDecompressionContext
          (skippableFrame n) (-1) false = some (context', .ok e) ∧
        decompress_chunk (lz4frame fastLoop) (fun _ => true) LZ4F_createDecompressionContext
          (skippableFrame n) (-1) false = some (context', .ok ⟨⟨false, []⟩, buildInt (n + 8), true⟩) ∧
        e.totalRead = n + 8 := by
  have hlen := length_skippableFrame n
  obtain ⟨context', hcall⟩ := LZ4F_decompress_skippableFrame fastLoop hn hlt
    (some (2 * (skippableFrame n).length))
  have hspace : allocates (fun _ => true) (2 * (skippableFrame n).length) := by
    refine ⟨?_, rfl⟩
    rw [hlen, ADDRESS_SPACE]
    omega
  have hrun : __decompress (lz4frame fastLoop) (fun _ => true) LZ4F_createDecompressionContext
      (skippableFrame n) (-1) false =
        some (context', .ok ⟨0 + (n + 8), [], 0, true, [] ++ [n + 8]⟩) := by
    rw [__decompress, if_neg nofun, if_neg (by decide)]
    have hempty : allocates (fun _ => true) ([] : List UInt8).length := ⟨Nat.zero_le _, rfl⟩
    exact @decompressFrom_of_end _ (lz4frame fastLoop) _ _ _ false _ _ 0 _ []
      ⟨n + 8, [], 0⟩ hspace hcall rfl hempty
  refine ⟨context', _, hrun, ?_, rfl⟩
  rw [decompress_chunk, if_neg (by decide), hrun, Option.map_some, Nat.zero_add]
  rfl

end PythonLz4.Frame.DecompressChunk
