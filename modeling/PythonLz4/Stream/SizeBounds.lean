import PythonLz4.Stream.FailedCalls

/-!
# `get_compress_bound` and `get_input_bound`

The two bounds of `_stream.c` and the checks `_decompress` makes with them. `get_input_bound` is a
one-sided inverse of `get_compress_bound` on the whole range of sizes (`input_bound_inverse`): both
are divisions, and a size is taken apart into its quotient and remainder by 255. The checked
versions of the two functions fail where an operation of the source would leave its type; they
never do.

The checks of `_decompress` turn down a block only when the input bound is the size of a whole page
and one more (`size_checks_admit_iff`).
-/

set_option autoImplicit false

namespace PythonLz4.Stream.SizeBounds

open PythonLz4.Runtime
open PythonLz4.Lib.ByteMemory
open PythonLz4.Block
open PythonLz4.Block.Container (LZ4_MAX_INPUT_SIZE LZ4_compressBound compressBound_of_le)
open PythonLz4.Stream.Continue
open PythonLz4.Stream.Context
open PythonLz4.Stream.Session

/-! ## Operations that stay inside their types -/

/-- An `int`. -/
def exactInt (x : Int) : Option Int := if -(2 : Int) ^ 31 ≤ x ∧ x < 2 ^ 31 then some x else none

/-- An unsigned value of `w` bits. -/
def exactUnsigned (w : Nat) (x : Int) : Option Nat :=
  if 0 ≤ x ∧ x < 2 ^ w then some x.toNat else none

theorem exactInt_natCast {n : Nat} (h : n < 2 ^ 31) : exactInt n = some (n : Int) :=
  if_pos ⟨by omega, by omega⟩

theorem exactUnsigned_natCast {w n : Nat} (h : n < 2 ^ w) : exactUnsigned w n = some n := by
  have hlt : ((n : Nat) : Int) < 2 ^ w := by exact_mod_cast h
  rw [exactUnsigned, if_pos ⟨Int.natCast_nonneg n, hlt⟩, Int.toNat_natCast]

/-- `LZ4_compressBound` on an `int`, every operation checked. -/
def LZ4_compressBound_checked (isize : Int) : Option Int :=
  if (LZ4_MAX_INPUT_SIZE : Int) < isize % 2 ^ 32 then some 0
  else
    (exactInt (isize / 255)).bind fun share =>
      (exactInt (isize + share)).bind fun sum => exactInt (sum + 16)

/-- `get_compress_bound`, every operation checked; the argument is converted to an `int`. -/
def get_compress_bound_checked (input_size : Nat) : Option Nat :=
  (LZ4_compressBound_checked (Int.bmod input_size (2 ^ 32))).bind fun bound =>
    exactUnsigned 32 bound

/-- `get_input_bound`, every operation checked. -/
def get_input_bound_checked (compress_max_size : Nat) : Option Nat :=
  let csize := if compress_max_size < 16 then 17 else compress_max_size
  (get_compress_bound_checked LZ4_MAX_INPUT_SIZE).bind fun limit =>
    if csize ≤ limit then
      (exactUnsigned 64 (csize * 256)).bind fun shifted =>
        (exactUnsigned 64 ((shifted : Int) - csize)).bind fun scaled =>
          (exactUnsigned 64 ((scaled : Int) - 4080)).bind fun rest =>
            let isize := rest / 256
            if LZ4_MAX_INPUT_SIZE < isize then some 0
            else (exactUnsigned 64 (isize + 1)).bind fun isize => exactUnsigned 32 isize
    else some 0

/-- The largest value of `get_compress_bound`. -/
theorem compress_bound_max : get_compress_bound LZ4_MAX_INPUT_SIZE = 2122219150 := by decide

theorem get_compress_bound_checked_eq {n : Nat} (hn : n < 2 ^ 32) :
    get_compress_bound_checked n = some (get_compress_bound n) := by
  have hM : LZ4_MAX_INPUT_SIZE = 2113929216 := rfl
  unfold get_compress_bound_checked LZ4_compressBound_checked get_compress_bound LZ4_compressBound
  have hmod : Int.bmod (n : Int) (2 ^ 32) % 2 ^ 32 = n := by
    rw [show ((2 : Int) ^ 32) = ((2 ^ 32 : Nat) : Int) from rfl, Int.bmod_emod]
    exact Int.emod_eq_of_lt (Int.natCast_nonneg n) (by exact_mod_cast hn)
  rw [hmod, hM]
  by_cases hbig : 2113929216 < n
  · rw [if_pos (by exact_mod_cast hbig), if_pos hbig]
    rfl
  · rw [if_neg (by exact_mod_cast hbig), if_neg hbig]
    -- a size within the limit is a non-negative `int`
    have hint : Int.bmod (n : Int) (2 ^ 32) = n :=
      Int.bmod_eq_of_le (by omega) (by omega)
    have hshare : ((n : Int) / 255) = ((n / 255 : Nat) : Int) := by omega
    rw [hint, hshare, exactInt_natCast (by omega), Option.bind_some, ← Int.natCast_add,
      exactInt_natCast (by omega), Option.bind_some]
    have hsum : ((n + n / 255 : Nat) : Int) + 16 = ((n + n / 255 + 16 : Nat) : Int) := by omega
    rw [hsum, exactInt_natCast (by omega), Option.bind_some, exactUnsigned_natCast (by omega)]

theorem get_input_bound_checked_eq {c : Nat} (hc : c < 2 ^ 32) :
    get_input_bound_checked c = some (get_input_bound c) := by
  have hM : LZ4_MAX_INPUT_SIZE = 2113929216 := rfl
  unfold get_input_bound_checked get_input_bound
  rw [get_compress_bound_checked_eq (by decide), Option.bind_some, compress_bound_max, hM]
  obtain ⟨csize, hcsize⟩ : ∃ csize, csize = if c < 16 then 17 else c := ⟨_, rfl⟩
  have hge : 16 ≤ csize := by
    rw [hcsize]
    split_ifs <;> omega
  simp only [← hcsize]
  by_cases hlimit : csize ≤ 2122219150
  · rw [if_pos hlimit, if_pos hlimit]
    have hshift : ((csize : Int) * 256) = ((csize * 256 : Nat) : Int) := by omega
    have hscale : ((csize * 256 : Nat) : Int) - csize = ((csize * 256 - csize : Nat) : Int) := by
      omega
    have hrest : ((csize * 256 - csize : Nat) : Int) - 4080 =
        ((csize * 256 - csize - 4080 : Nat) : Int) := by omega
    rw [hshift, exactUnsigned_natCast (by omega), Option.bind_some, hscale,
      exactUnsigned_natCast (by omega), Option.bind_some, hrest,
      exactUnsigned_natCast (by omega), Option.bind_some]
    split_ifs with hover
    · rfl
    · have hone : (((csize * 256 - csize - 4080) / 256 : Nat) : Int) + 1 =
          (((csize * 256 - csize - 4080) / 256 + 1 : Nat) : Int) := by omega
      rw [hone, exactUnsigned_natCast (by omega), Option.bind_some,
        exactUnsigned_natCast (by omega)]
  · rw [if_neg hlimit, if_neg hlimit]

/-! ## The inverse -/

/-- `get_input_bound` inside its range. -/
theorem get_input_bound_eq {c : Nat} (hge : 16 ≤ c) (hle : c ≤ 2122219150) :
    get_input_bound c = (c * 255 - 4080) / 256 + 1 := by
  have hM : LZ4_MAX_INPUT_SIZE = 2113929216 := rfl
  have hscale : c * 256 - c - 4080 = c * 255 - 4080 := by omega
  simp only [get_input_bound, if_neg (Nat.not_lt.2 hge), compress_bound_max, if_pos hle, hscale]
  rw [if_neg (by omega)]

/-- Lengths below 16 are taken for 17. -/
theorem get_input_bound_small {c : Nat} (hlt : c < 16) : get_input_bound c = 1 := by
  simp only [get_input_bound, if_pos hlt]
  decide

theorem get_input_bound_of_gt {c : Nat} (hgt : 2122219150 < c) : get_input_bound c = 0 := by
  simp only [get_input_bound, compress_bound_max, if_neg (show ¬ c < 16 by omega)]
  rw [if_neg (by omega)]

/-- A size is recovered, or exceeded by one when 255 divides it. -/
theorem get_input_bound_compress_bound {n : Nat} (hn : n ≤ LZ4_MAX_INPUT_SIZE) :
    get_input_bound (get_compress_bound n) = if n % 255 = 0 then n + 1 else n := by
  have hM : LZ4_MAX_INPUT_SIZE = 2113929216 := rfl
  rw [get_compress_bound, compressBound_of_le hn, get_input_bound_eq (by omega) (by omega)]
  -- with n = 255 q + r the quotient is 255 q + (255 r) / 256
  obtain ⟨q, r, hr, rfl⟩ : ∃ q r, r < 255 ∧ n = 255 * q + r :=
    ⟨n / 255, n % 255, Nat.mod_lt _ (by decide), by omega⟩
  have hdiv : (255 * q + r) / 255 = q := by omega
  have hmod : (255 * q + r) % 255 = r := by omega
  rw [hdiv, hmod]
  have hscale : (255 * q + r + q + 16) * 255 - 4080 = 256 * (255 * q) + 255 * r := by omega
  rw [hscale, Nat.mul_add_div (by decide)]
  split_ifs with h0
  · subst h0
    rfl
  · omega

theorem get_input_bound_mono {c c' : Nat} (hle : c ≤ c') (hmax : c' ≤ 2122219150) :
    get_input_bound c ≤ get_input_bound c' := by
  rcases Nat.lt_or_ge c 16 with hc | hc
  · rw [get_input_bound_small hc]
    rcases Nat.lt_or_ge c' 16 with hc' | hc'
    · rw [get_input_bound_small hc']
    · rw [get_input_bound_eq hc' hmax]
      exact Nat.le_add_left _ _
  · rw [get_input_bound_eq hc (Nat.le_trans hle hmax), get_input_bound_eq (Nat.le_trans hc hle) hmax]
    exact Nat.add_le_add_right (Nat.div_le_div_right (by omega)) 1

theorem get_input_bound_pos {c : Nat} (hmax : c ≤ 2122219150) : 1 ≤ get_input_bound c := by
  rcases Nat.lt_or_ge c 16 with hc | hc
  · rw [get_input_bound_small hc]
  · rw [get_input_bound_eq hc hmax]
    exact Nat.le_add_left _ _

/-- `get_input_bound` undoes `get_compress_bound` up to one byte upwards, is monotone between 1 and
`LZ4_MAX_INPUT_SIZE`, and refuses what is out of range; no operation leaves its type. -/
theorem input_bound_inverse :
    (∀ n, n ≤ LZ4_MAX_INPUT_SIZE → get_input_bound (get_compress_bound n) = n ∨
      get_input_bound (get_compress_bound n) = n + 1) ∧
    (∀ c c', c ≤ c' → c' ≤ get_compress_bound LZ4_MAX_INPUT_SIZE →
      1 ≤ get_input_bound c ∧ get_input_bound c ≤ get_input_bound c' ∧
        get_input_bound c' ≤ LZ4_MAX_INPUT_SIZE) ∧
    (∀ n c, n ≤ LZ4_MAX_INPUT_SIZE → get_compress_bound n ≤ c →
      c ≤ get_compress_bound LZ4_MAX_INPUT_SIZE → n ≤ get_input_bound c) ∧
    (∀ c, c < 2 ^ 32 → get_compress_bound LZ4_MAX_INPUT_SIZE < c → get_input_bound c = 0) ∧
    (∀ n, n < 2 ^ 32 → get_compress_bound_checked n = some (get_compress_bound n)) ∧
    (∀ c, c < 2 ^ 32 → get_input_bound_checked c = some (get_input_bound c)) := by
  rw [compress_bound_max]
  refine ⟨fun n hn => ?_, fun c c' hle hmax => ?_, fun n c hn hle hmax => ?_,
    fun c _ hgt => get_input_bound_of_gt hgt, fun n hn => get_compress_bound_checked_eq hn,
    fun c hc => get_input_bound_checked_eq hc⟩
  · rw [get_input_bound_compress_bound hn]
    split_ifs
    · exact Or.inr rfl
    · exact Or.inl rfl
  · refine ⟨get_input_bound_pos (Nat.le_trans hle hmax), get_input_bound_mono hle hmax, ?_⟩
    -- 255 does not divide the largest size, so it is recovered
    have htop := get_input_bound_compress_bound (Nat.le_refl LZ4_MAX_INPUT_SIZE)
    rw [compress_bound_max, if_neg (by decide)] at htop
    exact Nat.le_trans (get_input_bound_mono hmax (Nat.le_refl _)) (Nat.le_of_eq htop)
  · have hmono := get_input_bound_mono hle hmax
    rw [get_input_bound_compress_bound hn] at hmono
    split_ifs at hmono <;> omega

theorem input_bound_inverse_max :
    2113929216 ≤ LZ4_MAX_INPUT_SIZE ∧
      (get_input_bound (get_compress_bound 2113929216) = 2113929216 ∨
        get_input_bound (get_compress_bound 2113929216) = 2113929216 + 1) :=
  ⟨by decide, input_bound_inverse.1 2113929216 (by decide)⟩

/-! ## The checks of `_decompress` -/

/-- The input bound of the block of a chunk of `n` bytes fits in a page of `B` bytes, unless it is
the bound of a full page and rounded up. -/
theorem get_input_bound_le_iff {B n c : Nat} (hB : B ≤ LZ4_MAX_INPUT_SIZE) (hn : n ≤ B)
    (hc : c ≤ get_compress_bound n) :
    get_input_bound c ≤ B ↔ 1 ≤ B ∧ ¬ (n = B ∧ 255 ∣ B ∧ c = get_compress_bound B) := by
  have hM : LZ4_MAX_INPUT_SIZE = 2113929216 := rfl
  have hnM : n ≤ LZ4_MAX_INPUT_SIZE := Nat.le_trans hn hB
  have hbound : get_compress_bound n = n + n / 255 + 16 := compressBound_of_le hnM
  have hboundB : get_compress_bound B = B + B / 255 + 16 := compressBound_of_le hB
  have hmax : c ≤ 2122219150 := by omega
  have hpos := get_input_bound_pos hmax
  rw [hboundB]
  rcases Nat.lt_or_ge c 16 with hsmall | hlarge
  · rw [get_input_bound_small hsmall]
    omega
  · rw [get_input_bound_eq hlarge hmax]
    constructor
    · intro hle
      refine ⟨by omega, ?_⟩
      rintro ⟨rfl, ⟨q, rfl⟩, rfl⟩
      omega
    · rintro ⟨hB1, hne⟩
      by_contra hgt
      -- the bound exceeds the page: the chunk fills it, and 255 divides its size
      refine hne ⟨?_, ?_, ?_⟩ <;> omega

/-- A block of `c` bytes passes the checks `_decompress` makes on its size. -/
def SizeChecksAdmit (context : DecompressContext) (c : Nat) : Prop :=
  c ≤ store_max_size context.store_comp_size ∧ 0 < get_input_bound c ∧
    get_input_bound c ≤ context.double_buffer.page_size

/-- A block that does not pass them is turned down with one of two errors. -/
theorem decompress_refused (fastLoop : Bool) (scratch : Scratch) {d : DecompressContext}
    {source : List UInt8} (h : ¬ SizeChecksAdmit d source.length) :
    decompress fastLoop scratch d source = .error ⟨.OverflowError, "Source length (" ++
        toString source.length ++ ") too large for LZ4 store_comp_size (" ++
        toString d.store_comp_size ++ ") value"⟩ ∨
      decompress fastLoop scratch d source = .error ⟨.LZ4StreamError,
        "Maximal decompressed data (" ++ toString (get_input_bound source.length) ++
        ") cannot fit in LZ4 internal buffer (" ++ toString d.double_buffer.page_size ++ ")"⟩ := by
  unfold decompress
  by_cases hmax : store_max_size d.store_comp_size < source.length
  · rw [if_pos hmax]
    exact Or.inl rfl
  · rw [if_neg hmax]
    have hbound : get_input_bound source.length = 0 ∨
        d.double_buffer.page_size < get_input_bound source.length := by
      by_contra hfits
      rw [not_or] at hfits
      exact h ⟨Nat.le_of_not_lt hmax, Nat.pos_of_ne_zero hfits.1, Nat.le_of_not_lt hfits.2⟩
    rw [if_pos hbound]
    exact Or.inr rfl

/-- A compression context with pages of `B` bytes, and a decompression context with the same page
and header size: a block of any length the library may need for a chunk is admitted, except on
empty pages, and except the longest block of a full page whose size 255 divides. -/
theorem size_checks_admit_iff {args dargs : CreateArgs}
    {cp : Placement args.dictionary.length args.buffer_size} {cmem : Memory} {c : CompressContext}
    (hc : create_context args cp cmem = .ok (.compress c))
    {dp : Placement dargs.dictionary.length dargs.buffer_size} {dmem : Memory}
    {d : DecompressContext} (hd : create_context dargs dp dmem = .ok (.decompress d))
    (hsize : dargs.buffer_size = args.buffer_size)
    (hheader : dargs.store_comp_size = args.store_comp_size) {n k : Nat}
    (hn : n ≤ args.buffer_size) (hbound : k ≤ LZ4_compressBound n) :
    SizeChecksAdmit d k ↔ 1 ≤ args.buffer_size ∧
      ¬ (n = args.buffer_size ∧ 255 ∣ args.buffer_size ∧
        k = LZ4_compressBound args.buffer_size) := by
  obtain ⟨-, -, -, hne, hfits, -⟩ := create_context_compress hc
  obtain rfl := create_context_decompress_eq hd
  have hmax : args.buffer_size ≤ LZ4_MAX_INPUT_SIZE := by
    by_contra hbig
    exact hne (if_pos (Nat.lt_of_not_le hbig))
  have hM : LZ4_MAX_INPUT_SIZE = 2113929216 := rfl
  -- the constructor has compared the largest bound with the header
  have hkB : k ≤ get_compress_bound args.buffer_size := by
    rw [get_compress_bound, compressBound_of_le hmax]
    rw [compressBound_of_le (Nat.le_trans hn hmax)] at hbound
    omega
  have hk32 : k ≤ 2122219150 := by
    rw [get_compress_bound, compressBound_of_le hmax] at hkB
    omega
  refine Iff.trans ?_ (get_input_bound_le_iff hmax hn hbound)
  constructor
  · rintro ⟨-, -, hpage⟩
    exact Nat.le_trans hpage (Nat.le_of_eq hsize)
  · intro hpage
    refine ⟨?_, get_input_bound_pos hk32, Nat.le_trans hpage (Nat.le_of_eq hsize.symm)⟩
    show k ≤ store_max_size dargs.store_comp_size
    rw [hheader]
    exact Nat.le_trans hkB hfits

/-- The longest block of a chunk of 15 bytes, on pages of 16. -/
theorem size_checks_admit_fifteen :
    ∃ c d, create_context smallArgs lowPlacement (fun _ => 0) = .ok (.compress c) ∧
      create_context (decompressArgs smallArgs false) lowPlacement (fun _ => 0) =
        .ok (.decompress d) ∧
      (SizeChecksAdmit d 31 ↔ 1 ≤ smallArgs.buffer_size ∧
        ¬ (15 = smallArgs.buffer_size ∧ 255 ∣ smallArgs.buffer_size ∧
          31 = LZ4_compressBound smallArgs.buffer_size)) :=
  ⟨_, _, rfl, rfl, @size_checks_admit_iff smallArgs (decompressArgs smallArgs false) lowPlacement
    (fun _ => 0) _ rfl lowPlacement (fun _ => 0) _ rfl rfl rfl 15 31 (by decide) (by decide)⟩

/-- A compressor with pages of no bytes. -/
def emptyArgs : CreateArgs where
  strategy := "double_buffer"
  direction := "compress"
  buffer_size := 0

/-- The lowest addresses the two objects can have. -/
def emptyPlacement : Placement 0 0 where
  dict := 1
  buf := 2
  buf_ne_null := Nat.two_pos
  dict_ne_null := Nat.one_pos
  apart := by decide

/-- The compressor makes a block of one byte of the empty chunk, and the decompressor turns it
down. -/
theorem size_checks_refuse_empty_page :
    ∃ c d stream c', create_context emptyArgs emptyPlacement (fun _ => 0) = .ok (.compress c) ∧
      create_context (decompressArgs emptyArgs false) emptyPlacement (fun _ => 0) =
        .ok (.decompress d) ∧
      compress ⟨literalEncoder, literalEncoder⟩ c [] = .ok (stream, c') ∧
      blockOf d stream.data = .ok [0] ∧ 1 ≤ LZ4_compressBound 0 ∧ ¬ SizeChecksAdmit d 1 :=
  ⟨_, _, ⟨false, [1, 0, 0, 0, 0]⟩, _, rfl, rfl, rfl, rfl, by decide, fun h => absurd h.2.2 (by decide)⟩

end PythonLz4.Stream.SizeBounds
