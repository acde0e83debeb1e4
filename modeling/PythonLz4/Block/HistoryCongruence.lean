import PythonLz4.Block.DecodeBlock

/-!
# The history as far as the decoder sees it

Two calls of `LZ4_decompress_generic` that differ only in bytes of the history further back than a
match can reach do the same on every input, also where they fail.
-/

set_option autoImplicit false

namespace PythonLz4.Block.DecompressGeneric

open PythonLz4.Lib.HistoryWindow
open PythonLz4.Lib.LittleEndian

/-- The two calls differ in the bytes of the history only. -/
structure DecodeCall.SameShape (P P' : DecodeCall) : Prop where
  dict_eq : P.dict = P'.dict
  outputSize_eq : P.outputSize = P'.outputSize
  lowPrefix_length : P.lowPrefix.length = P'.lowPrefix.length
  dictStart_length : P.dictStart.length = P'.dictStart.length

section Congruence

variable {P P' : DecodeCall}

/-- The two calls cannot be told apart. -/
structure DecodeCall.SameSeen (P P' : DecodeCall) : Prop where
  shape : P.SameShape P'
  complete : P.PrefixComplete
  agree : AgreeBack (KB64 - 1) P.history P'.history

namespace DecodeCall.SameSeen

theorem matchBytes_eq (h : P.SameSeen P') {offset : Nat} (ho : offset < KB64) {out : List UInt8}
    (hle : offset ≤ P.history.length + out.length) (n : Nat) :
    matchBytes (P.history ++ out) offset n = matchBytes (P'.history ++ out) offset n :=
  matchBytes_congr (h.agree.append_right out) (Nat.le_sub_one_of_lt ho)
    (by rwa [List.length_append]) n

theorem checkOffset_eq (h : P.SameSeen P') : P'.checkOffset = P.checkOffset := by
  rw [DecodeCall.checkOffset, DecodeCall.checkOffset, h.shape.dictStart_length]

/-- An offset that passes the check reaches into the history. -/
theorem le_history_of_check {offset n : Nat} (ho : offset < KB64)
    (hcheck : ¬ (P.checkOffset = true ∧ P.lowPrefix.length + n + P.dictStart.length < offset)) :
    offset ≤ P.history.length + n := by
  refine DecodeCall.Reaches.le_history (fun hc => ?_) ho
  have hle : ¬ P.lowPrefix.length + n + P.dictStart.length < offset := fun hlt => hcheck ⟨hc, hlt⟩
  omega

theorem safeMatchCopy_eq (h : P.SameSeen P') {offset : Nat} (ho : offset < KB64) (length : Nat)
    (ip out : List UInt8) :
    safeMatchCopy P' offset length ip out = safeMatchCopy P offset length ip out := by
  unfold safeMatchCopy
  rw [h.checkOffset_eq, ← h.shape.lowPrefix_length, ← h.shape.dictStart_length,
    ← h.shape.outputSize_eq, ← h.shape.dict_eq]
  by_cases hcheck : P.checkOffset = true ∧
      P.lowPrefix.length + out.length + P.dictStart.length < offset
  · rw [if_pos hcheck, if_pos hcheck]
  · rw [if_neg hcheck, if_neg hcheck, h.matchBytes_eq ho (le_history_of_check ho hcheck) length]

theorem copyMatch_eq (h : P.SameSeen P') {offset : Nat} (ho : offset < KB64) (length : Nat)
    (ip out : List UInt8) : copyMatch P' length offset ip out = copyMatch P length offset ip out := by
  unfold copyMatch
  by_cases hcode : length = ML_MASK
  · rw [if_pos hcode, if_pos hcode]
    cases read_variable_length ip (LASTLITERALS - 1) false with
    | error ip' => rfl
    | ok r => exact h.safeMatchCopy_eq ho _ _ _
  · rw [if_neg hcode, if_neg hcode]
    exact h.safeMatchCopy_eq ho _ _ _

theorem safeLiteralCopy_eq (h : P.SameSeen P') (token : UInt8) (length : Nat)
    (ip out : List UInt8) :
    safeLiteralCopy P' token length ip out = safeLiteralCopy P token length ip out := by
  unfold safeLiteralCopy
  rw [← h.shape.outputSize_eq]
  split_ifs
  · rfl
  · rfl
  · split
    · exact h.copyMatch_eq (leNat_pair_lt _ _) _ _ _
    · rfl

theorem safeStep_eq (h : P.SameSeen P') (ip out : List UInt8) :
    safeStep P' ip out = safeStep P ip out := by
  cases ip with
  | nil => rfl
  | cons token ip =>
    simp only [safeStep, ← h.shape.outputSize_eq]
    split_ifs with hquick hlong
    · -- the two-stage shortcut
      split
      · rename_i b0 b1 ip' _
        have ho := leNat_pair_lt b0 b1
        rw [← h.shape.dict_eq, ← h.shape.lowPrefix_length]
        split_ifs with hmatch
        · have hreach : P.ReachesQuick (leNat [b0, b1])
              (out ++ List.take (token.toNat / 16) ip).length := hmatch.2.2
          rw [h.matchBytes_eq ho (DecodeCall.ReachesQuick.le_history h.complete hreach ho)]
        · exact h.copyMatch_eq ho _ _ _
      · rfl
    · cases read_variable_length ip RUN_MASK true with
      | error ip' => rfl
      | ok r => exact h.safeLiteralCopy_eq _ _ _ _
    · exact h.safeLiteralCopy_eq _ _ _ _

theorem fastMatchCopy_eq (h : P.SameSeen P') {offset : Nat} (ho : offset < KB64) (length : Nat)
    (ip out : List UInt8) :
    fastMatchCopy P' offset length ip out = fastMatchCopy P offset length ip out := by
  unfold fastMatchCopy
  rw [h.checkOffset_eq, ← h.shape.lowPrefix_length, ← h.shape.dictStart_length,
    ← h.shape.outputSize_eq, ← h.shape.dict_eq]
  by_cases hcheck : P.checkOffset = true ∧
      P.lowPrefix.length + out.length + P.dictStart.length < offset
  · rw [if_pos hcheck, if_pos hcheck]
  · rw [if_neg hcheck, if_neg hcheck, h.matchBytes_eq ho (le_history_of_check ho hcheck) length]

theorem fastMatch_eq (h : P.SameSeen P') (token : UInt8) (ip out : List UInt8) :
    fastMatch P' token ip out = fastMatch P token ip out := by
  match ip with
  | [] => rfl
  | [_] => rfl
  | b0 :: b1 :: ip =>
    have ho := leNat_pair_lt b0 b1
    simp only [fastMatch, h.checkOffset_eq, ← h.shape.lowPrefix_length,
      ← h.shape.dictStart_length, ← h.shape.outputSize_eq, ← h.shape.dict_eq]
    by_cases hcode : token.toNat % 16 = ML_MASK
    · rw [if_pos hcode, if_pos hcode]
      cases read_variable_length ip (LASTLITERALS - 1) false with
      | error ip' => rfl
      | ok r =>
        simp only
        split_ifs
        · rfl
        · exact h.safeMatchCopy_eq ho _ _ _
        · exact h.fastMatchCopy_eq ho _ _ _
    · rw [if_neg hcode, if_neg hcode]
      split_ifs with hroom hquick
      · exact h.safeMatchCopy_eq ho _ _ _
      · have hreach : P.ReachesQuick (leNat [b0, b1]) out.length := hquick.1
        rw [h.matchBytes_eq ho (DecodeCall.ReachesQuick.le_history h.complete hreach ho)]
      · exact h.fastMatchCopy_eq ho _ _ _

theorem fastStep_eq (h : P.SameSeen P') (ip out : List UInt8) :
    fastStep P' ip out = fastStep P ip out := by
  cases ip with
  | nil => rfl
  | cons token ip =>
    simp only [fastStep, ← h.shape.outputSize_eq]
    split_ifs with hlong
    · cases read_variable_length ip RUN_MASK true with
      | error ip' => rfl
      | ok r =>
        simp only
        split_ifs
        · exact h.safeLiteralCopy_eq _ _ _ _
        · exact h.fastMatch_eq _ _ _
    · exact h.safeLiteralCopy_eq _ _ _ _
    · exact h.fastMatch_eq _ _ _

theorem decodeLoop_eq (h : P.SameSeen P') (fuel : Nat) (fast : Bool) (ip out : List UInt8) :
    decodeLoop P' fuel fast ip out = decodeLoop P fuel fast ip out := by
  induction fuel generalizing fast ip out with
  | zero => rfl
  | succ fuel ih =>
    rw [decodeLoop, decodeLoop, h.fastStep_eq, h.safeStep_eq]
    cases hstep : (if fast then fastStep P ip out else safeStep P ip out) with
    | outputError ip' => rfl
    | finished out' => rfl
    | next fast' ip' out' => exact ih fast' ip' out'

/-- The two calls return the same, the error code included. -/
theorem decompress_eq (h : P.SameSeen P') (fastLoop : Bool) (src : List UInt8) :
    LZ4_decompress_generic fastLoop P' src = LZ4_decompress_generic fastLoop P src := by
  unfold LZ4_decompress_generic
  rw [← h.shape.outputSize_eq, h.decodeLoop_eq]

end DecodeCall.SameSeen

end Congruence

end PythonLz4.Block.DecompressGeneric
