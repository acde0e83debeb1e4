import PythonLz4.Fast.CompressGeneric

/-!
# Sequences as the compressor writes them

A token, the literals, the offset and the match length, written with `runCode` and `runBytes`. The
decoder reads the two lengths back (`literalLength_runBytes`, `matchLength_runBytes`), so a sequence
in front of a rest that decodes decodes too (`decodes_sequence`), as long as the block does not end
too soon behind it. A match whose bytes have been compared in the window gives these bytes back
(`matchBytes_of_same`).
-/

set_option autoImplicit false

namespace PythonLz4.Fast.Sequences

open PythonLz4.Lib.LittleEndian
open PythonLz4.Block.DecompressGeneric
open PythonLz4.Block.LastLiterals
open PythonLz4.Fast.CompressGeneric

/-! ## Lengths -/

theorem runCode_le (length : Nat) : runCode length ≤ 15 := Nat.min_le_right _ _

theorem runBytes_of_lt {length : Nat} (h : length < RUN_MASK) : runBytes length = [] :=
  if_neg (Nat.not_le.2 h)

theorem runBytes_of_le {length : Nat} (h : RUN_MASK ≤ length) :
    runBytes length = lengthBytes (length - RUN_MASK) := if_pos h

theorem length_lengthBytes (n : Nat) : (lengthBytes n).length = n / 255 + 1 := by
  simp [lengthBytes]

/-- A length takes one more byte for each 255. -/
theorem length_runBytes (length : Nat) : (runBytes length).length = (length + 240) / 255 := by
  have h15 : RUN_MASK = 15 := rfl
  rcases Nat.lt_or_ge length RUN_MASK with h | h
  · rw [runBytes_of_lt h, List.length_nil]
    omega
  · rw [runBytes_of_le h, length_lengthBytes]
    omega

theorem literalLength_runBytes {token : UInt8} {n : Nat} {rest : List UInt8}
    (htoken : token.toNat / 16 = runCode n) (hrest : n ≤ rest.length) :
    literalLength token (runBytes n ++ rest) = .ok (n, rest) := by
  have h15 : RUN_MASK = 15 := rfl
  rcases Nat.lt_or_ge n RUN_MASK with hshort | hlong
  · have hcode : token.toNat / 16 = n := by
      rw [htoken, runCode]
      omega
    have hne : token.toNat / 16 ≠ RUN_MASK := by omega
    rw [runBytes_of_lt hshort, literalLength_of_ne hne, hcode, List.nil_append]
  · have hcode : token.toNat / 16 = RUN_MASK := by
      rw [htoken, runCode]
      omega
    have hcheck : ¬ (true && decide ((runBytes n ++ rest).length ≤ RUN_MASK)) = true := by
      simp only [List.length_append, length_runBytes, Bool.true_and, decide_eq_true_eq]
      omega
    have hread := readLengthLoop_lengthBytes (n - RUN_MASK) RUN_MASK (Nat.le_trans hlong hrest)
    rw [literalLength, if_pos hcode, read_variable_length, if_neg hcheck, runBytes_of_le hlong,
      hread, hcode]
    simp only [Except.ok.injEq, Prod.mk.injEq, and_true]
    omega

theorem matchLength_runBytes {n : Nat} {rest : List UInt8} (hrest : LASTLITERALS - 1 ≤ rest.length) :
    matchLength (runCode n) (runBytes n ++ rest) = .ok (n + MINMATCH, rest) := by
  have h15 : RUN_MASK = 15 := rfl
  have hml : ML_MASK = 15 := rfl
  rcases Nat.lt_or_ge n RUN_MASK with hshort | hlong
  · have hcode : runCode n = n := by
      rw [runCode]
      omega
    have hne : n ≠ ML_MASK := by omega
    rw [runBytes_of_lt hshort, hcode, matchLength_of_ne hne, List.nil_append]
  · have hcode : runCode n = ML_MASK := by
      rw [runCode]
      omega
    have hread := readLengthLoop_lengthBytes (n - RUN_MASK) (LASTLITERALS - 1) hrest
    have hcheck : ¬ (false && decide ((runBytes n ++ rest).length ≤ LASTLITERALS - 1)) = true := by
      simp
    rw [matchLength, if_pos hcode, read_variable_length, if_neg hcheck, runBytes_of_le hlong,
      hread, hcode]
    simp only [Except.ok.injEq, Prod.mk.injEq, and_true]
    omega

/-- The token of a sequence. -/
def tokenOf (litLength matchCode : Nat) : UInt8 :=
  UInt8.ofNat (runCode litLength <<< ML_BITS + runCode matchCode)

theorem tokenOf_div (litLength matchCode : Nat) :
    (tokenOf litLength matchCode).toNat / 16 = runCode litLength := by
  have hl := runCode_le litLength
  have hm := runCode_le matchCode
  have hshift : runCode litLength <<< ML_BITS = runCode litLength * 16 := Nat.shiftLeft_eq _ _
  rw [tokenOf, hshift, UInt8.toNat_ofNat']
  omega

theorem tokenOf_mod (litLength matchCode : Nat) :
    (tokenOf litLength matchCode).toNat % 16 = runCode matchCode := by
  have hl := runCode_le litLength
  have hm := runCode_le matchCode
  have hshift : runCode litLength <<< ML_BITS = runCode litLength * 16 := Nat.shiftLeft_eq _ _
  rw [tokenOf, hshift, UInt8.toNat_ofNat']
  omega

/-! ## A sequence in front of a block -/

/-- What stands in a block for `literals` and a match of length `matchCode + MINMATCH` at distance
`d`. -/
def sequenceBytes (literals : List UInt8) (d matchCode : Nat) : List UInt8 :=
  tokenOf literals.length matchCode ::
    (runBytes literals.length ++ literals ++ leBytes 2 d ++ runBytes matchCode)

theorem length_sequenceBytes (literals : List UInt8) (d matchCode : Nat) :
    (sequenceBytes literals d matchCode).length =
      literals.length + (literals.length + 240) / 255 + (matchCode + 240) / 255 + 3 := by
  simp only [sequenceBytes, List.length_cons, List.length_append, length_runBytes, length_leBytes]
  omega

/-- A sequence is decoded when at least a token and five literals follow it, twelve bytes of output
are left behind its literals, and the match ends before the last five. -/
theorem decodes_sequence {P : DecodeCall} {literals rest out final : List UInt8}
    {d matchCode : Nat} (hd : d < KB64) (hrest : LASTLITERALS + 1 ≤ rest.length)
    (hroom : out.length + literals.length + MFLIMIT ≤ P.outputSize)
    (hallowed : matchAllowed P d (matchCode + MINMATCH) (out ++ literals))
    (hnext : Decodes P rest (out ++ literals ++
      matchBytes (P.history ++ (out ++ literals)) d (matchCode + MINMATCH)) final) :
    Decodes P (sequenceBytes literals d matchCode ++ rest) out final := by
  have hoff : leNat [UInt8.ofNat d, UInt8.ofNat (d / 256)] = d :=
    @leNat_leBytes_of_lt 2 d (Nat.lt_of_lt_of_le hd (by decide))
  let s : Sequence :=
    { token := tokenOf literals.length matchCode
      afterToken := runBytes literals.length ++
        (literals ++ UInt8.ofNat d :: UInt8.ofNat (d / 256) :: (runBytes matchCode ++ rest))
      literals
      b0 := UInt8.ofNat d
      b1 := UInt8.ofNat (d / 256)
      afterOffset := runBytes matchCode ++ rest
      matchLen := matchCode + MINMATCH
      rest }
  have hat : s.At (sequenceBytes literals d matchCode ++ rest) := by
    constructor
    · simp [s, sequenceBytes, leBytes]
    · apply literalLength_runBytes (tokenOf_div _ _)
      rw [List.length_append]
      exact Nat.le_add_right _ _
    · rw [tokenOf_mod]
      apply matchLength_runBytes
      exact Nat.le_trans (by decide) hrest
  have hafter : LASTLITERALS + 1 ≤ s.afterOffset.length := by
    simp only [s, List.length_append]
    omega
  have hallowed' : matchAllowed P s.offset s.matchLen (out ++ s.literals) := by
    simp only [s, Sequence.offset, hoff]
    exact hallowed
  refine Decodes.sequence hat (Or.inr ⟨Or.inr ⟨hroom, hafter⟩, hallowed'⟩) ?_
  simp only [s, Sequence.apply, Sequence.offset, hoff]
  exact hnext

/-- The last literals decode behind whatever has been written. -/
theorem decodes_lastLiterals {P : DecodeCall} {literals out : List UInt8}
    (hroom : out.length + literals.length ≤ P.outputSize) :
    Decodes P (lastLiterals literals) out (out ++ literals) := by
  obtain ⟨token, afterToken, he, hl⟩ := literalLength_lastLiterals literals
  exact .lastLiterals he hl hroom

theorem length_lastLiterals (literals : List UInt8) :
    (lastLiterals literals).length = literals.length + 1 + (literals.length + 240) / 255 := by
  have h15 : RUN_MASK = 15 := rfl
  rw [lastLiterals]
  split_ifs with h
  · rw [List.length_cons, List.length_append, length_lengthBytes]
    omega
  · rw [List.length_cons]
    omega

/-! ## Matches in a window -/

/-- Copying from `d` places back gives the next bytes of a window that repeats itself at that
distance. -/
theorem matchBytes_of_same {win tail : List UInt8} {d n : Nat} (hd : 0 < d) (hreach : d ≤ win.length)
    (hn : n ≤ tail.length)
    (hsame : ∀ k, k < n → (win ++ tail)[win.length + k]? = (win ++ tail)[win.length + k - d]?) :
    matchBytes win d n = tail.take n := by
  induction n generalizing win tail with
  | zero => rfl
  | succ n ih =>
    cases tail with
    | nil => exact absurd hn (Nat.not_succ_le_zero n)
    | cons b tail =>
      have hsplit : win ++ b :: tail = win ++ [b] ++ tail := by simp
      have hb : win[win.length - d]?.getD 0 = b := by
        have h0 := hsame 0 (Nat.succ_pos n)
        have hfirst : (win ++ b :: tail)[win.length + 0]? = some b := by simp
        have hback : (win ++ b :: tail)[win.length + 0 - d]? = win[win.length - d]? := by
          rw [Nat.add_zero, List.getElem?_append_left (by omega)]
        rw [hfirst, hback] at h0
        rw [← h0]
        rfl
      have hrest : matchBytes (win ++ [b]) d n = tail.take n := by
        apply ih
        · rw [List.length_append]
          exact Nat.le_add_right_of_le hreach
        · exact Nat.le_of_succ_le_succ hn
        · intro k hk
          have h := hsame (k + 1) (Nat.succ_lt_succ hk)
          rw [hsplit] at h
          rw [List.length_append, List.length_singleton]
          have hplace : win.length + 1 + k = win.length + (k + 1) := by omega
          rw [hplace]
          exact h
      rw [matchBytes]
      simp only [hb, hrest, List.take_succ_cons]

end PythonLz4.Fast.Sequences
