import PythonLz4.Block.DecodeBlock

/-!
# Blocks of literals only

What `LZ4_compress_generic` writes from its `_last_literals:` label on when it has found no match:
a token, the bytes that extend the literal length, and the source itself. Such a block decodes to
the source whatever the history is, and fits in `LZ4_compressBound`.
-/

set_option autoImplicit false

namespace PythonLz4.Block.LastLiterals

open PythonLz4.Block.DecompressGeneric

/-- The bytes that extend a length field by `n`. -/
def lengthBytes (n : Nat) : List UInt8 := List.replicate (n / 255) 255 ++ [UInt8.ofNat (n % 255)]

/-- `_last_literals:` with `anchor` at the start of the source. -/
def lastLiterals (source : List UInt8) : List UInt8 :=
  if RUN_MASK ≤ source.length then
    UInt8.ofNat (RUN_MASK * 16) :: (lengthBytes (source.length - RUN_MASK) ++ source)
  else UInt8.ofNat (source.length * 16) :: source

theorem readLengthLoop_replicate (k r ilimit : Nat) (hr : r < 255) {rest : List UInt8}
    (hrest : ilimit ≤ rest.length) :
    readLengthLoop ilimit (List.replicate k 255 ++ UInt8.ofNat r :: rest) =
      .ok (255 * k + r, rest) := by
  have hlast : (UInt8.ofNat r).toNat = r := by
    rw [UInt8.toNat_ofNat']
    omega
  induction k with
  | zero =>
    have hne : UInt8.ofNat r ≠ 255 := by
      intro h
      have h255 := congrArg UInt8.toNat h
      rw [hlast] at h255
      exact absurd h255 (Nat.ne_of_lt hr)
    rw [List.replicate_zero, List.nil_append, readLengthLoop, if_neg (by omega), if_neg hne, hlast]
    simp
  | succ k ih =>
    have hlen : ¬ (List.replicate k 255 ++ UInt8.ofNat r :: rest).length < ilimit := by
      rw [List.length_append, List.length_cons]
      omega
    rw [List.replicate_succ, List.cons_append, readLengthLoop, if_neg hlen, if_pos rfl, ih]
    have h255 : (255 : UInt8).toNat = 255 := rfl
    simp only [h255, Except.ok.injEq, Prod.mk.injEq, and_true]
    omega

theorem readLengthLoop_lengthBytes (n ilimit : Nat) {rest : List UInt8}
    (hrest : ilimit ≤ rest.length) :
    readLengthLoop ilimit (lengthBytes n ++ rest) = .ok (n, rest) := by
  have hread := readLengthLoop_replicate (n / 255) (n % 255) ilimit (Nat.mod_lt n (by omega)) hrest
  rw [lengthBytes, List.append_assoc, List.singleton_append, hread, Nat.div_add_mod]

theorem literalLength_lastLiterals (source : List UInt8) :
    ∃ token afterToken, lastLiterals source = token :: afterToken ∧
      literalLength token afterToken = .ok (source.length, source) := by
  have h15 : RUN_MASK = 15 := rfl
  unfold lastLiterals
  by_cases hlong : RUN_MASK ≤ source.length
  · rw [if_pos hlong]
    refine ⟨_, _, rfl, ?_⟩
    have htoken : (UInt8.ofNat (RUN_MASK * 16)).toNat / 16 = RUN_MASK := rfl
    have hcheck : ¬ (true && decide ((lengthBytes (source.length - RUN_MASK) ++ source).length ≤
        RUN_MASK)) = true := by
      simp only [lengthBytes, List.length_append, List.length_singleton, Bool.true_and,
        decide_eq_true_eq]
      omega
    rw [literalLength, if_pos htoken, read_variable_length, if_neg hcheck,
      readLengthLoop_lengthBytes _ _ hlong, htoken]
    simp only [Except.ok.injEq, Prod.mk.injEq, and_true]
    omega
  · rw [if_neg hlong]
    refine ⟨_, _, rfl, ?_⟩
    have htoken : (UInt8.ofNat (source.length * 16)).toNat / 16 = source.length := by
      rw [UInt8.toNat_ofNat']
      omega
    rw [literalLength_of_ne (by omega), htoken]

theorem decodes_lastLiterals (P : DecodeCall) (source : List UInt8)
    (hcap : source.length ≤ P.outputSize) : Decodes P (lastLiterals source) [] source := by
  obtain ⟨token, afterToken, he, hl⟩ := literalLength_lastLiterals source
  have h : Decodes P (lastLiterals source) [] ([] ++ source) :=
    .lastLiterals he hl (by simpa using hcap)
  exact h

theorem usingDict_lastLiterals (fastLoop adjacent : Bool) (source dictStart : List UInt8) {n : Nat}
    (hcap : source.length ≤ n) :
    LZ4_decompress_safe_usingDict fastLoop (lastLiterals source) n dictStart adjacent =
      .ok source := by
  rw [LZ4_decompress_safe_usingDict_ok_iff, callOf_ok_iff]
  refine ⟨fun h0 => ?_, decodes_lastLiterals _ source (by simpa using hcap)⟩
  have hnil : source = [] := List.eq_nil_of_length_eq_zero (by omega)
  subst hnil
  rfl

theorem length_lastLiterals (source : List UInt8) :
    (lastLiterals source).length < source.length + source.length / 255 + 16 ∧
      0 < (lastLiterals source).length := by
  have h15 : RUN_MASK = 15 := rfl
  unfold lastLiterals
  split_ifs with hlong
  · simp only [lengthBytes, List.length_cons, List.length_append, List.length_replicate,
      List.length_nil]
    omega
  · simp only [List.length_cons]
    omega

end PythonLz4.Block.LastLiterals
