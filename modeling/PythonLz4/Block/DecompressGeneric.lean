import PythonLz4.Lib.HistoryWindow
import PythonLz4.Lib.LittleEndian

/-!
# The LZ4 block decoder

`LZ4_decompress_generic` of `lz4libs/lz4.c` for `partialDecoding = decode_full_block`, the only
directive the bindings and the frame decoder use, with the entry points that instantiate it. The
input is the unread part `ip` of the block, so `iend - ip` is `ip.length`; the output is the list
`out` decoded so far, so `op - dst` is `out.length` and `oend - op` is `outputSize - out.length`.
Copies are modelled by the bytes they leave below `op`: a match reads the bytes in front of `op`
one at a time, the external dictionary and the prefix standing in front of `dst`. Bytes written
past `op` are not part of the result and are overwritten by the next sequence.

Both loops are here. `fastStep` is one iteration of the loop compiled under `LZ4_FAST_DEC_LOOP`,
`safeStep` one iteration of the main loop with its two-stage shortcut.
-/

set_option autoImplicit false

namespace PythonLz4.Block.DecompressGeneric

open PythonLz4.Lib.HistoryWindow
open PythonLz4.Lib.LittleEndian

def MINMATCH : Nat := 4
def LASTLITERALS : Nat := 5
def MFLIMIT : Nat := 12
def MATCH_SAFEGUARD_DISTANCE : Nat := 12
def FASTLOOP_SAFE_DISTANCE : Nat := 64
def ML_MASK : Nat := 15
def RUN_MASK : Nat := 15

/-- `64 KB`. -/
def KB64 : Nat := 65536

/-- `dict_directive`. -/
inductive dict_directive where
  | noDict
  | withPrefix64k
  | usingExtDict
  deriving DecidableEq, Repr

/-- What one call of `LZ4_decompress_generic` keeps fixed: the directive, the bytes in
`[lowPrefix, dst)`, the external dictionary, and the capacity of `dst`. -/
structure DecodeCall where
  dict : dict_directive
  lowPrefix : List UInt8
  dictStart : List UInt8
  outputSize : Nat

/-- Bytes a match may reach, oldest first. -/
def DecodeCall.history (P : DecodeCall) : List UInt8 := P.dictStart ++ P.lowPrefix

/-- `checkOffset`: offsets need no check against 64 KB of external dictionary. -/
def DecodeCall.checkOffset (P : DecodeCall) : Bool := decide (P.dictStart.length < KB64)

/-- Outcome of one loop iteration: the jump to `_output_error` with the input left there, the end
of the block with the output, or the next iteration, in the fast loop or in the main loop. -/
inductive Step where
  | outputError (ip : List UInt8)
  | finished (out : List UInt8)
  | next (fast : Bool) (ip out : List UInt8)
  deriving DecidableEq, Repr

/-- The bytes of a match of length `n` at distance `offset` behind the end of `win`, each one
visible to the next. A zero offset is not rejected by the decoder, which has zeroed the place it
then copies from. -/
def matchBytes (win : List UInt8) (offset : Nat) : Nat → List UInt8
  | 0 => []
  | n + 1 =>
    let b := win[win.length - offset]?.getD 0
    b :: matchBytes (win ++ [b]) offset n

/-- The summing loop of `read_variable_length`, with `ilimit` given as the number of input bytes
behind it. On the error the position reached is returned. -/
def readLengthLoop (ilimit : Nat) : List UInt8 → Except (List UInt8) (Nat × List UInt8)
  | [] => .error []
  | s :: ip =>
    if ip.length < ilimit then .error ip
    else if s = 255 then
      match readLengthLoop ilimit ip with
      | .error ip' => .error ip'
      | .ok (length, ip') => .ok (s.toNat + length, ip')
    else .ok (s.toNat, ip)

def read_variable_length (ip : List UInt8) (ilimit : Nat) (initial_check : Bool) :
    Except (List UInt8) (Nat × List UInt8) :=
  if initial_check && decide (ip.length ≤ ilimit) then .error ip else readLengthLoop ilimit ip

/-- From `safe_match_copy:` to the end of the main loop's body. -/
def safeMatchCopy (P : DecodeCall) (offset length : Nat) (ip out : List UInt8) : Step :=
  if P.checkOffset ∧ P.lowPrefix.length + out.length + P.dictStart.length < offset then
    .outputError ip
  else if P.dict = .usingExtDict ∧ P.lowPrefix.length + out.length < offset then
    -- match starting within the external dictionary
    if P.outputSize < out.length + length + LASTLITERALS then .outputError ip
    else .next false ip (out ++ matchBytes (P.history ++ out) offset length)
  else if P.outputSize < out.length + length + MATCH_SAFEGUARD_DISTANCE ∧
      P.outputSize < out.length + length + LASTLITERALS then
    .outputError ip
  else .next false ip (out ++ matchBytes (P.history ++ out) offset length)

/-- From `_copy_match:` on, with the match length code of the token. -/
def copyMatch (P : DecodeCall) (length offset : Nat) (ip out : List UInt8) : Step :=
  if length = ML_MASK then
    match read_variable_length ip (LASTLITERALS - 1) false with
    | .error ip' => .outputError ip'
    | .ok (addl, ip') => safeMatchCopy P offset (length + addl + MINMATCH) ip' out
  else safeMatchCopy P offset (length + MINMATCH) ip out

/-- From `safe_literal_copy:` on: `length` literals stand at `ip`. -/
def safeLiteralCopy (P : DecodeCall) (token : UInt8) (length : Nat) (ip out : List UInt8) :
    Step :=
  if P.outputSize < out.length + length + MFLIMIT ∨
      ip.length < length + (2 + 1 + LASTLITERALS) then
    -- must be the last sequence
    if ip.length ≠ length ∨ P.outputSize < out.length + length then .outputError ip
    else .finished (out ++ ip)
  else
    match ip.drop length with
    | b0 :: b1 :: ip' =>
      copyMatch P (token.toNat % 16) (leNat [b0, b1]) ip' (out ++ ip.take length)
    | _ => .outputError ip

/-- One iteration of the main loop. -/
def safeStep (P : DecodeCall) : List UInt8 → List UInt8 → Step
  | [], _ => .outputError []
  | token :: ip, out =>
    let length := token.toNat / 16
    if length ≠ RUN_MASK ∧ 16 < ip.length ∧ out.length + 32 ≤ P.outputSize then
      -- the two-stage shortcut
      match ip.drop length with
      | b0 :: b1 :: ip' =>
        let out' := out ++ ip.take length
        let offset := leNat [b0, b1]
        if token.toNat % 16 ≠ ML_MASK ∧ 8 ≤ offset ∧
            (P.dict = .withPrefix64k ∨ offset ≤ P.lowPrefix.length + out'.length) then
          .next false ip'
            (out' ++ matchBytes (P.history ++ out') offset (token.toNat % 16 + MINMATCH))
        else copyMatch P (token.toNat % 16) offset ip' out'
      | _ => .outputError ip
    else if length = RUN_MASK then
      match read_variable_length ip RUN_MASK true with
      | .error ip' => .outputError ip'
      | .ok (addl, ip') => safeLiteralCopy P token (length + addl) ip' out
    else safeLiteralCopy P token length ip out

/-- The copy at the end of the fast loop's body. -/
def fastMatchCopy (P : DecodeCall) (offset length : Nat) (ip out : List UInt8) : Step :=
  if P.checkOffset ∧ P.lowPrefix.length + out.length + P.dictStart.length < offset then
    .outputError ip
  else if P.dict = .usingExtDict ∧ P.lowPrefix.length + out.length < offset then
    if P.outputSize < out.length + length + LASTLITERALS then .outputError ip
    else .next true ip (out ++ matchBytes (P.history ++ out) offset length)
  else .next true ip (out ++ matchBytes (P.history ++ out) offset length)

/-- The match part of the fast loop's body, from `get offset` on. -/
def fastMatch (P : DecodeCall) (token : UInt8) : List UInt8 → List UInt8 → Step
  | b0 :: b1 :: ip, out =>
    let offset := leNat [b0, b1]
    if token.toNat % 16 = ML_MASK then
      match read_variable_length ip (LASTLITERALS - 1) false with
      | .error ip' => .outputError ip'
      | .ok (addl, ip') =>
        let length := token.toNat % 16 + addl + MINMATCH
        if P.checkOffset ∧ P.lowPrefix.length + out.length + P.dictStart.length < offset then
          .outputError ip'
        else if P.outputSize ≤ out.length + length + FASTLOOP_SAFE_DISTANCE then
          safeMatchCopy P offset length ip' out
        else fastMatchCopy P offset length ip' out
    else
      let length := token.toNat % 16 + MINMATCH
      if P.outputSize ≤ out.length + length + FASTLOOP_SAFE_DISTANCE then
        safeMatchCopy P offset length ip out
      else if (P.dict = .withPrefix64k ∨ offset ≤ P.lowPrefix.length + out.length) ∧
          8 ≤ offset then
        .next true ip (out ++ matchBytes (P.history ++ out) offset length)
      else fastMatchCopy P offset length ip out
  | ip, _ => .outputError ip

/-- One iteration of the fast loop. -/
def fastStep (P : DecodeCall) : List UInt8 → List UInt8 → Step
  | [], _ => .outputError []
  | token :: ip, out =>
    let length := token.toNat / 16
    if length = RUN_MASK then
      match read_variable_length ip RUN_MASK true with
      | .error ip' => .outputError ip'
      | .ok (addl, ip') =>
        if P.outputSize < out.length + (length + addl) + 32 ∨
            ip'.length < length + addl + 32 then
          safeLiteralCopy P token (length + addl) ip' out
        else
          fastMatch P token (ip'.drop (length + addl)) (out ++ ip'.take (length + addl))
    else if ip.length < 16 + 1 then safeLiteralCopy P token length ip out
    else fastMatch P token (ip.drop length) (out ++ ip.take length)

/-- The two loops, `fuel` iterations at most. Every iteration reads a token, so the length of the
block is fuel enough. -/
def decodeLoop (P : DecodeCall) :
    Nat → Bool → List UInt8 → List UInt8 → Except (List UInt8) (List UInt8)
  | 0, _, ip, _ => .error ip
  | fuel + 1, fast, ip, out =>
    match if fast then fastStep P ip out else safeStep P ip out with
    | .outputError ip' => .error ip'
    | .finished out' => .ok out'
    | .next fast' ip' out' => decodeLoop P fuel fast' ip' out'

/-- `LZ4_decompress_generic`. The result is the decoded bytes, or the absolute value of the
negative return code. -/
def LZ4_decompress_generic (LZ4_FAST_DEC_LOOP : Bool) (P : DecodeCall) (src : List UInt8) :
    Except Nat (List UInt8) :=
  if P.outputSize = 0 then
    -- empty output buffer
    if src = [0] then .ok [] else .error 1
  else if src = [] then .error 1
  else
    match decodeLoop P src.length
        (LZ4_FAST_DEC_LOOP && decide (FASTLOOP_SAFE_DISTANCE ≤ P.outputSize)) src [] with
    | .ok out => .ok out
    | .error ip => .error (src.length - ip.length + 1)

/-- `LZ4_decompress_safe`: no history. -/
def LZ4_decompress_safe (fastLoop : Bool) (source : List UInt8) (maxOutputSize : Nat) :
    Except Nat (List UInt8) :=
  LZ4_decompress_generic fastLoop ⟨.noDict, [], [], maxOutputSize⟩ source

/-- `LZ4_decompress_safe_withPrefix64k`: `dest` is preceded in memory by `before`. -/
def LZ4_decompress_safe_withPrefix64k (fastLoop : Bool) (source : List UInt8)
    (maxOutputSize : Nat) (before : List UInt8) : Except Nat (List UInt8) :=
  LZ4_decompress_generic fastLoop ⟨.withPrefix64k, window KB64 before, [], maxOutputSize⟩ source

/-- `LZ4_decompress_safe_withSmallPrefix`: `dest` is preceded in memory by `before`. -/
def LZ4_decompress_safe_withSmallPrefix (fastLoop : Bool) (source : List UInt8)
    (maxOutputSize : Nat) (before : List UInt8) : Except Nat (List UInt8) :=
  LZ4_decompress_generic fastLoop ⟨.noDict, before, [], maxOutputSize⟩ source

/-- `LZ4_decompress_safe_forceExtDict`. -/
def LZ4_decompress_safe_forceExtDict (fastLoop : Bool) (source : List UInt8)
    (maxOutputSize : Nat) (dictStart : List UInt8) : Except Nat (List UInt8) :=
  LZ4_decompress_generic fastLoop ⟨.usingExtDict, [], dictStart, maxOutputSize⟩ source

/-- `LZ4_decompress_safe_usingDict`; `adjacent` is the comparison `dictStart + dictSize == dest`. -/
def LZ4_decompress_safe_usingDict (fastLoop : Bool) (source : List UInt8) (maxOutputSize : Nat)
    (dictStart : List UInt8) (adjacent : Bool) : Except Nat (List UInt8) :=
  if dictStart.length = 0 then LZ4_decompress_safe fastLoop source maxOutputSize
  else if adjacent then
    if KB64 - 1 ≤ dictStart.length then
      LZ4_decompress_safe_withPrefix64k fastLoop source maxOutputSize dictStart
    else LZ4_decompress_safe_withSmallPrefix fastLoop source maxOutputSize dictStart
  else LZ4_decompress_safe_forceExtDict fastLoop source maxOutputSize dictStart

end PythonLz4.Block.DecompressGeneric
