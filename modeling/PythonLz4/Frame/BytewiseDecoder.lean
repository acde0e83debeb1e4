import PythonLz4.Frame.AbstractDecoder

/-!
# The decoder one byte at a time

What a frame decoder has to know between two bytes of its input: the field it is in, with the bytes
of it that are there, and for linked blocks the last 64 KB of the content. `absorb` takes one byte.
`feed` takes many and gathers the content; `run` does the same in a call of `LZ4F_decompress` with
room for `cap` bytes, which stops when a block does not fit. How the input is cut into calls plays
no part in `absorb`, and neither does the place a block is decoded to:
`PythonLz4.Frame.BytewiseRefinement` shows that the calls of the library do what `run` does.

A block decoder accepts more with the history in front of the block than with the history
elsewhere, and decodes the same when it accepts. `adjacent` says which of the two is meant.
-/

set_option autoImplicit false

namespace PythonLz4.Frame.BytewiseDecoder

open PythonLz4.Lib.HistoryWindow
open PythonLz4.Lib.LittleEndian
open PythonLz4.Block.DecompressGeneric
open PythonLz4.Frame.XXHash
open PythonLz4.Frame.Header
open PythonLz4.Frame.AbstractDecoder (Body Decoder)

/-! ## The state -/

/-- What is fixed by the header of a data frame and what has been decoded of it. -/
structure Content where
  frameInfo : LZ4F_frameInfo
  hashed : List UInt8
  history : List UInt8
  deriving DecidableEq, Repr

def Content.maxBlockSize (c : Content) : Nat := LZ4F_getBlockSize c.frameInfo.blockSizeID

/-- `piece` has been decoded. -/
def Content.add (c : Content) (piece : List UInt8) : Content where
  frameInfo := c.frameInfo
  hashed := if c.frameInfo.contentChecksumFlag then c.hashed ++ piece else c.hashed
  history :=
    if c.frameInfo.blockMode = .blockLinked then window KB64 (c.history ++ piece) else c.history

@[simp] theorem add_frameInfo (c : Content) (piece : List UInt8) :
    (c.add piece).frameInfo = c.frameInfo := rfl

/-- The declared size that is still to come after `n` bytes of content. -/
def Content.remainingAfter (c : Content) (remaining n : Nat) : Nat :=
  if c.frameInfo.contentSize ≠ 0 then sizeSub remaining n else remaining

/-- The bytes an uncompressed block is summed over. -/
def Content.sum (c : Content) (summed piece : List UInt8) : List UInt8 :=
  if c.frameInfo.blockChecksumFlag then summed ++ piece else summed

/-- The field the next byte belongs to, with the bytes that are there; `copyDirect` and `skip` count
the bytes that are missing. -/
inductive Field where
  | header (target : Nat) (got : List UInt8)
  | blockHeader (c : Content) (got : List UInt8)
  | copyDirect (c : Content) (target : Nat) (summed : List UInt8)
  | blockChecksum (c : Content) (summed got : List UInt8)
  | cBlock (c : Content) (target : Nat) (got : List UInt8)
  | suffix (hashed got : List UInt8)
  | skippableSize (got : List UInt8)
  | skip (target : Nat)
  deriving DecidableEq, Repr

/-- `remaining` is the declared size that is still to come, also from a frame that was left. -/
structure Reader where
  remaining : Nat
  field : Field
  deriving DecidableEq, Repr

/-- A reader in front of a frame. -/
def Reader.start (remaining : Nat) : Reader := ⟨remaining, .header minFHSize []⟩

/-- What a byte leads to: an error, the end of the frame, or a state with more of the content. -/
inductive Event where
  | fail
  | finish (remaining : Nat)
  | next (s : Reader) (out : List UInt8)
  deriving DecidableEq, Repr

/-! ## One byte -/

/-- The bytes of a field that is gathered before it is looked at. -/
def Field.append : Field → List UInt8 → Field
  | .header target got, bytes => .header target (got ++ bytes)
  | .blockHeader c got, bytes => .blockHeader c (got ++ bytes)
  | .copyDirect c target summed, _ => .copyDirect c target summed
  | .blockChecksum c summed got, bytes => .blockChecksum c summed (got ++ bytes)
  | .cBlock c target got, bytes => .cBlock c target (got ++ bytes)
  | .suffix hashed got, bytes => .suffix hashed (got ++ bytes)
  | .skippableSize got, bytes => .skippableSize (got ++ bytes)
  | .skip target, _ => .skip target

/-- The bytes a field is short of. -/
def Field.missing : Field → Nat
  | .header target got => target - got.length
  | .blockHeader _ got => BHSize - got.length
  | .copyDirect _ target _ => target
  | .blockChecksum _ _ got => 4 - got.length
  | .cBlock _ target got => target - got.length
  | .suffix _ got => 4 - got.length
  | .skippableSize got => 4 - got.length
  | .skip target => target

/-- The field is gathered before it is looked at. -/
def Field.gathers : Field → Bool
  | .copyDirect _ _ _ => false
  | .skip _ => false
  | _ => true

/-- `target` bytes of an uncompressed block are to come. -/
def copyFrom (remaining : Nat) (c : Content) (target : Nat) (summed : List UInt8) : Event :=
  if target = 0 then
    if c.frameInfo.blockChecksumFlag then .next ⟨remaining, .blockChecksum c summed []⟩ []
    else .next ⟨remaining, .blockHeader c []⟩ []
  else .next ⟨remaining, .copyDirect c target summed⟩ []

/-- The end mark has been read. -/
def suffixFrom (remaining : Nat) (contentChecksumFlag : Bool) (hashed : List UInt8) : Event :=
  if remaining ≠ 0 then .fail
  else if contentChecksumFlag = false then .finish remaining
  else .next ⟨remaining, .suffix hashed []⟩ []

/-- `target` bytes of a skippable frame are to come. -/
def skipFrom (remaining target : Nat) : Event :=
  if target = 0 then .finish remaining else .next ⟨remaining, .skip target⟩ []

/-- More of the content comes first. -/
def Event.emit (piece : List UInt8) : Event → Event
  | .next s out => .next s (piece ++ out)
  | e => e

def readHeader (remaining target : Nat) (got : List UInt8) : Event :=
  match readFrameHeader (got.take target) with
  | .error _ => .fail
  | .ok .skippable => .next ⟨remaining, .skippableSize ((got.take target).drop 4)⟩ []
  | .ok (.incomplete frameHeaderSize) =>
    .next ⟨remaining, .header frameHeaderSize (got.take target)⟩ []
  | .ok (.complete _ frameInfo contentSizeFlag) =>
    .next ⟨if contentSizeFlag then frameInfo.contentSize else remaining,
      .blockHeader ⟨frameInfo, [], []⟩ []⟩ []

def readBlockHeader (remaining : Nat) (c : Content) (got : List UInt8) : Event :=
  let blockHeader := leNat (got.take 4)
  let nextCBlockSize := blockHeader % 0x80000000
  let crcSize := if c.frameInfo.blockChecksumFlag then BFSize else 0
  if blockHeader = 0 then suffixFrom remaining c.frameInfo.contentChecksumFlag c.hashed
  else if c.maxBlockSize < nextCBlockSize then .fail
  else if LZ4F_BLOCKUNCOMPRESSED_FLAG ≤ blockHeader then copyFrom remaining c nextCBlockSize []
  else .next ⟨remaining, .cBlock c (nextCBlockSize + crcSize) []⟩ []

section Absorb

variable (fastLoop adjacent : Bool)

/-- The compressed block `got` is decoded, with its checksum if there is one. -/
def readCBlock (remaining : Nat) (c : Content) (target : Nat) (got : List UInt8) : Event :=
  let target' := if c.frameInfo.blockChecksumFlag then sizeSub target 4 else target
  if c.frameInfo.blockChecksumFlag ∧
      leNat ((got.drop target').take 4) ≠ XXH32_digest (got.take target') then .fail
  else
    match LZ4_decompress_safe_usingDict fastLoop (got.take target') c.maxBlockSize c.history
        adjacent with
    | .error _ => .fail
    | .ok decoded =>
      .next ⟨c.remainingAfter remaining decoded.length, .blockHeader (c.add decoded) []⟩ decoded

/-- A field that is gathered is there. -/
def readField (remaining : Nat) : Field → Event
  | .header target got => readHeader remaining target got
  | .blockHeader c got => readBlockHeader remaining c got
  | .blockChecksum c summed got =>
    if leNat (got.take 4) ≠ XXH32_digest summed then .fail
    else .next ⟨remaining, .blockHeader c []⟩ []
  | .cBlock c target got => readCBlock fastLoop adjacent remaining c target got
  | .suffix hashed got =>
    if leNat (got.take 4) ≠ XXH32_digest hashed then .fail else .finish remaining
  | .skippableSize got => skipFrom remaining (leNat (got.take 4))
  | .copyDirect c target summed => copyFrom remaining c target summed
  | .skip target => skipFrom remaining target

/-- One byte. -/
def absorb (s : Reader) (x : UInt8) : Event :=
  match s.field with
  | .copyDirect c target summed =>
    (copyFrom (c.remainingAfter s.remaining 1) (c.add [x]) (target - 1) (c.sum summed [x])).emit [x]
  | .skip target => skipFrom s.remaining (target - 1)
  | f =>
    if f.missing ≤ 1 then readField fastLoop adjacent s.remaining (f.append [x])
    else .next ⟨s.remaining, f.append [x]⟩ []

/-! ## Many bytes -/

/-- What many bytes lead to: an error, the end of the frame with the bytes behind it, or a state;
with the content that was decoded. -/
inductive Fed where
  | fail
  | finish (remaining : Nat) (out rest : List UInt8)
  | next (s : Reader) (out : List UInt8)
  deriving DecidableEq, Repr

def Fed.emit (piece : List UInt8) : Fed → Fed
  | .fail => .fail
  | .finish remaining out rest => .finish remaining (piece ++ out) rest
  | .next s out => .next s (piece ++ out)

def feed (s : Reader) : List UInt8 → Fed
  | [] => .next s []
  | x :: xs =>
    match absorb fastLoop adjacent s x with
    | .fail => .fail
    | .finish remaining => .finish remaining [] xs
    | .next s' out => (feed s' xs).emit out

/-- How a call ends: with an error, with the frame, or between two bytes; `pending` is decoded and
did not fit. -/
inductive Outcome where
  | fail
  | finish (remaining : Nat) (dst rest : List UInt8)
  | stop (s : Reader) (pending dst rest : List UInt8)
  deriving DecidableEq, Repr

/-- A compressed block starts here. -/
def Field.entersCBlock : Field → Bool
  | .cBlock _ _ [] => true
  | _ => false

/-- The field can go on only with room for content. -/
def Field.copies : Field → Bool
  | .copyDirect _ _ _ => true
  | _ => false

/-- A call with room for `cap` bytes, of which `dst` have been written. What is pending is written
first. -/
def run (cap : Nat) : Reader → List UInt8 → List UInt8 → List UInt8 → Outcome
  | s, pending, dst, [] => .stop s (pending.drop (cap - dst.length))
      (dst ++ pending.take (cap - dst.length)) []
  | s, pending, dst, x :: xs =>
    if cap - dst.length < pending.length ∨ (s.field.copies = true ∧ cap ≤ (dst ++ pending).length)
    then
      .stop s (pending.drop (cap - dst.length)) (dst ++ pending.take (cap - dst.length)) (x :: xs)
    else
      match absorb fastLoop adjacent s x with
      | .fail => .fail
      | .finish remaining => .finish remaining (dst ++ pending) xs
      | .next s' out =>
        if s'.field.entersCBlock = true ∧ cap ≤ (dst ++ pending).length then
          .stop s' out (dst ++ pending) xs
        else run cap s' out (dst ++ pending) xs

/-- The call goes on after an event. -/
def resume (cap : Nat) (e : Event) (dst src : List UInt8) : Outcome :=
  match e with
  | .fail => .fail
  | .finish remaining => .finish remaining dst src
  | .next s pending => run fastLoop adjacent cap s pending dst src

/-- The call goes on after a byte that was read: in front of a compressed block it stops when the
destination is full. -/
def advance (cap : Nat) (e : Event) (dst src : List UInt8) : Outcome :=
  match e with
  | .fail => .fail
  | .finish remaining => .finish remaining dst src
  | .next s out =>
    if s.field.entersCBlock = true ∧ cap ≤ dst.length then .stop s out dst src
    else run fastLoop adjacent cap s out dst src

end Absorb

/-! ## Runs -/

section Runs

variable {fastLoop adjacent : Bool} {cap : Nat} {s : Reader} {dst : List UInt8}

/-- What is pending fits. -/
theorem run_pending {pending : List UInt8} (hfits : pending.length ≤ cap - dst.length)
    (src : List UInt8) :
    run fastLoop adjacent cap s pending dst src =
      run fastLoop adjacent cap s [] (dst ++ pending) src := by
  have hroom : ¬ cap - dst.length < pending.length := Nat.not_lt.2 hfits
  cases src with
  | nil => simp only [run, List.drop_eq_nil_of_le hfits, List.take_of_length_le hfits, List.drop_nil,
      List.take_nil, List.append_nil]
  | cons x xs =>
    simp only [run, hroom, false_or, List.drop_eq_nil_of_le hfits, List.take_of_length_le hfits,
      List.drop_nil, List.take_nil, List.append_nil, List.length_nil, Nat.not_lt_zero]

/-- What is pending does not fit. -/
theorem run_stuck {pending : List UInt8} (hfull : cap - dst.length < pending.length)
    (src : List UInt8) :
    run fastLoop adjacent cap s pending dst src =
      .stop s (pending.drop (cap - dst.length)) (dst ++ pending.take (cap - dst.length)) src := by
  cases src with
  | nil => rfl
  | cons x xs => simp only [run, hfull, true_or, if_true]

theorem run_nil : run fastLoop adjacent cap s [] dst [] = .stop s [] dst [] := by
  simp only [run, List.drop_nil, List.take_nil, List.append_nil]

/-- A byte is taken. -/
theorem run_cons (hroom : s.field.copies = true → dst.length < cap) (x : UInt8)
    (xs : List UInt8) :
    run fastLoop adjacent cap s [] dst (x :: xs) =
      advance fastLoop adjacent cap (absorb fastLoop adjacent s x) dst xs := by
  have hcopies : ¬ (s.field.copies = true ∧ cap ≤ dst.length) :=
    fun h => Nat.not_le.2 (hroom h.1) h.2
  simp only [run, List.length_nil, Nat.not_lt_zero, false_or, List.append_nil, if_neg hcopies]
  rfl

/-- An uncompressed block stops where the destination is full. -/
theorem run_full (hcopies : s.field.copies = true) (hfull : cap ≤ dst.length) (src : List UInt8) :
    run fastLoop adjacent cap s [] dst src = .stop s [] dst src := by
  cases src with
  | nil => exact run_nil
  | cons x xs =>
    simp only [run, hcopies, List.append_nil, hfull, and_self, or_true, if_true, List.drop_nil,
      List.take_nil]

theorem advance_next (h : s.field.entersCBlock = false) (piece src : List UInt8) :
    advance fastLoop adjacent cap (.next s piece) dst src =
      run fastLoop adjacent cap s piece dst src := by
  have hin : ¬ (s.field.entersCBlock = true ∧ cap ≤ dst.length) := by
    rw [h]
    rintro ⟨⟨⟩, -⟩
  exact if_neg hin

theorem gathers_append {f : Field} (bytes : List UInt8) : (f.append bytes).gathers = f.gathers := by
  cases f <;> rfl

theorem not_copies_of_gathers {f : Field} (h : f.gathers = true) : f.copies = false := by
  cases f <;> first | rfl | cases h

theorem append_append (f : Field) (bytes bytes' : List UInt8) :
    (f.append bytes).append bytes' = f.append (bytes ++ bytes') := by
  cases f <;> simp only [Field.append, List.append_assoc]

theorem append_nil (f : Field) : f.append [] = f := by
  cases f <;> simp only [Field.append, List.append_nil]

theorem missing_append {f : Field} (h : f.gathers = true) (bytes : List UInt8) :
    (f.append bytes).missing = f.missing - bytes.length := by
  cases f with
  | copyDirect => cases h
  | skip => cases h
  | _ => simp only [Field.append, Field.missing, List.length_append, Nat.sub_sub]

/-- A field that has bytes is not at its start. -/
theorem not_entersCBlock_append (f : Field) {bytes : List UInt8} (h : bytes ≠ []) :
    (f.append bytes).entersCBlock = false ∨ f.gathers = false := by
  cases f with
  | copyDirect => exact Or.inr rfl
  | skip => exact Or.inr rfl
  | cBlock c target got =>
    refine Or.inl ?_
    cases got with
    | nil =>
      obtain ⟨x, xs, rfl⟩ := List.exists_cons_of_ne_nil h
      rfl
    | cons x xs => rfl
  | _ => exact Or.inl rfl

theorem absorb_gathers (h : s.field.gathers = true) (x : UInt8) :
    absorb fastLoop adjacent s x =
      if s.field.missing ≤ 1 then readField fastLoop adjacent s.remaining (s.field.append [x])
      else .next ⟨s.remaining, s.field.append [x]⟩ [] := by
  obtain ⟨remaining, field⟩ := s
  cases field with
  | copyDirect => cases h
  | skip => cases h
  | _ => rfl

/-- Bytes of a field that is still short of some. -/
theorem run_gather (h : s.field.gathers = true) {bytes : List UInt8}
    (hlt : bytes.length < s.field.missing) (rest : List UInt8) :
    run fastLoop adjacent cap s [] dst (bytes ++ rest) =
      run fastLoop adjacent cap ⟨s.remaining, s.field.append bytes⟩ [] dst rest := by
  induction bytes generalizing s with
  | nil => rw [append_nil, List.nil_append]
  | cons x bytes ih =>
    rw [List.length_cons] at hlt
    have hmore : ¬ s.field.missing ≤ 1 := by omega
    have hin : ¬ ((s.field.append [x]).entersCBlock = true ∧ cap ≤ dst.length) := by
      rintro ⟨henters, -⟩
      rcases not_entersCBlock_append s.field (List.cons_ne_nil x []) with hnot | hnot
      · rw [hnot] at henters
        cases henters
      · rw [hnot] at h
        cases h
    rw [List.cons_append, run_cons (by rw [not_copies_of_gathers h]; rintro ⟨⟩),
      absorb_gathers h, if_neg hmore]
    simp only [advance]
    rw [if_neg hin, ih (by rw [gathers_append]; exact h) (by
      rw [missing_append h, List.length_singleton]
      omega)]
    simp only [append_append, List.singleton_append]

/-- The last bytes of a field. -/
theorem run_gathered (h : s.field.gathers = true) {bytes : List UInt8} (hpos : 0 < s.field.missing)
    (hlen : bytes.length = s.field.missing) (rest : List UInt8) :
    run fastLoop adjacent cap s [] dst (bytes ++ rest) =
      advance fastLoop adjacent cap
        (readField fastLoop adjacent s.remaining (s.field.append bytes)) dst rest := by
  obtain ⟨init, x, rfl⟩ := (List.eq_nil_or_concat bytes).resolve_left (by
    rintro rfl
    rw [List.length_nil] at hlen
    omega)
  rw [List.concat_eq_append] at hlen ⊢
  rw [List.length_append, List.length_singleton] at hlen
  have hgathers : (s.field.append init).gathers = true := by
    rw [gathers_append]
    exact h
  have hlast : (s.field.append init).missing ≤ 1 := by
    rw [missing_append h]
    omega
  rw [List.append_assoc, run_gather h (by omega), List.singleton_append,
    run_cons (by
      simp only
      rw [not_copies_of_gathers hgathers]
      rintro ⟨⟩),
    absorb_gathers hgathers]
  simp only
  rw [if_pos hlast, append_append]

/-! ## Bytes that are passed on -/

theorem sizeSub_lt (a b : Nat) : sizeSub a b < SIZE_T := Nat.mod_lt _ (Nat.two_pow_pos 64)

theorem sizeSub_zero {a : Nat} (ha : a < SIZE_T) : sizeSub a 0 = a :=
  sizeSub_of_le (Nat.zero_le a) ha

theorem sizeSub_sub {a m n : Nat} (ha : a < SIZE_T) (hn : m + n ≤ SIZE_T) :
    sizeSub (sizeSub a m) n = sizeSub a (m + n) := by
  unfold sizeSub SIZE_T at *
  omega

theorem remainingAfter_lt (c : Content) {remaining : Nat} (hr : remaining < SIZE_T) (n : Nat) :
    c.remainingAfter remaining n < SIZE_T := by
  unfold Content.remainingAfter
  split_ifs
  · exact sizeSub_lt _ _
  · exact hr

theorem remainingAfter_zero (c : Content) {remaining : Nat} (hr : remaining < SIZE_T) :
    c.remainingAfter remaining 0 = remaining := by
  unfold Content.remainingAfter
  rw [sizeSub_zero hr, ite_self]

theorem remainingAfter_add (c : Content) {remaining m n : Nat} (hr : remaining < SIZE_T)
    (hn : m + n ≤ SIZE_T) (piece : List UInt8) :
    (c.add piece).remainingAfter (c.remainingAfter remaining m) n =
      c.remainingAfter remaining (m + n) := by
  unfold Content.remainingAfter
  rw [add_frameInfo]
  split_ifs
  · exact sizeSub_sub hr hn
  · rfl

/-- The history of the content is what a block can refer to. -/
def Content.Windowed (c : Content) : Prop := c.history.length ≤ KB64

theorem Content.Windowed.add {c : Content} (h : c.Windowed) (piece : List UInt8) :
    (c.add piece).Windowed := by
  unfold Content.Windowed Content.add
  dsimp only
  split_ifs
  · exact length_window_le _ _
  · exact h

theorem Content.Windowed.add_nil {c : Content} (h : c.Windowed) : c.add [] = c := by
  obtain ⟨frameInfo, hashed, history⟩ := c
  unfold Content.add
  simp only [List.append_nil, ite_self, window_of_length_le h]

theorem add_append (c : Content) (piece piece' : List UInt8) :
    (c.add piece).add piece' = c.add (piece ++ piece') := by
  unfold Content.add
  dsimp only
  split_ifs <;> simp only [List.append_assoc, window_window_append]

theorem sum_nil (c : Content) (summed : List UInt8) : c.sum summed [] = summed := by
  unfold Content.sum
  rw [List.append_nil, ite_self]

theorem sum_append (c : Content) (summed piece piece' : List UInt8) (q : List UInt8) :
    (c.add q).sum (c.sum summed piece) piece' = c.sum summed (piece ++ piece') := by
  unfold Content.sum
  rw [add_frameInfo]
  split_ifs
  · rw [List.append_assoc]
  · rfl

theorem copyFrom_pos {remaining target : Nat} {c : Content} {summed : List UInt8}
    (h : target ≠ 0) :
    copyFrom remaining c target summed = .next ⟨remaining, .copyDirect c target summed⟩ [] :=
  if_neg h

/-- An uncompressed block, or what is left of it, starts no compressed one. -/
theorem advance_copyFrom (remaining target : Nat) (c : Content) (summed src : List UInt8) :
    advance fastLoop adjacent cap (copyFrom remaining c target summed) dst src =
      resume fastLoop adjacent cap (copyFrom remaining c target summed) dst src := by
  unfold copyFrom
  split_ifs <;> simp [advance, resume, Field.entersCBlock]

theorem advance_emit_copyFrom (remaining target : Nat) (c : Content) (summed src : List UInt8)
    {piece : List UInt8} (hfits : piece.length ≤ cap - dst.length) :
    advance fastLoop adjacent cap ((copyFrom remaining c target summed).emit piece) dst src =
      resume fastLoop adjacent cap (copyFrom remaining c target summed) (dst ++ piece) src := by
  unfold copyFrom
  split_ifs <;>
    simp [advance, resume, Event.emit, Field.entersCBlock, run_pending hfits src]

/-- Bytes of an uncompressed block. -/
theorem run_copy {c : Content} (hc : c.Windowed) {remaining target : Nat}
    (hr : remaining < SIZE_T) (ht : target ≤ SIZE_T) (summed : List UInt8) {piece : List UInt8}
    (hle : piece.length ≤ target) (hfits : piece.length ≤ cap - dst.length) (rest : List UInt8) :
    resume fastLoop adjacent cap (copyFrom remaining c target summed) dst (piece ++ rest) =
      resume fastLoop adjacent cap
        (copyFrom (c.remainingAfter remaining piece.length) (c.add piece) (target - piece.length)
          (c.sum summed piece)) (dst ++ piece) rest := by
  induction piece generalizing c remaining target summed dst with
  | nil =>
    rw [List.length_nil, remainingAfter_zero c hr, hc.add_nil, sum_nil, List.append_nil,
      List.nil_append, Nat.sub_zero]
  | cons x piece ih =>
    rw [List.length_cons] at hle hfits
    have hone : [x].length ≤ cap - dst.length := Nat.le_trans (Nat.le_add_left 1 _) hfits
    have hroom : dst.length < cap := by
      rw [List.length_singleton] at hone
      omega
    have hpos : target ≠ 0 := by omega
    have hlength : (dst ++ [x]).length = dst.length + 1 := List.length_append
    have hsplit := remainingAfter_add c hr (m := 1) (n := piece.length) (by omega) [x]
    have hstep : resume fastLoop adjacent cap (copyFrom remaining c target summed) dst
        (x :: (piece ++ rest)) =
        resume fastLoop adjacent cap (copyFrom (c.remainingAfter remaining 1) (c.add [x])
          (target - 1) (c.sum summed [x])) (dst ++ [x]) (piece ++ rest) := by
      rw [copyFrom_pos hpos]
      show run fastLoop adjacent cap _ [] dst (x :: (piece ++ rest)) = _
      rw [run_cons (fun _ => hroom)]
      exact advance_emit_copyFrom _ _ _ _ _ hone
    rw [List.cons_append, hstep,
      ih (hc.add [x]) (remainingAfter_lt c hr 1) (by omega) _ (by omega) (by omega), hsplit,
      add_append, sum_append, List.append_assoc, List.singleton_append, List.length_cons,
      Nat.add_comm 1, Nat.sub_sub, Nat.add_comm 1]

/-- Bytes of a skippable frame. -/
theorem run_skip {remaining target : Nat} {piece : List UInt8} (hle : piece.length ≤ target)
    (rest : List UInt8) :
    resume fastLoop adjacent cap (skipFrom remaining target) dst (piece ++ rest) =
      resume fastLoop adjacent cap (skipFrom remaining (target - piece.length)) dst rest := by
  induction piece generalizing target with
  | nil => rfl
  | cons x piece ih =>
    rw [List.length_cons] at hle
    have hstep : resume fastLoop adjacent cap (skipFrom remaining target) dst
        (x :: (piece ++ rest)) =
        resume fastLoop adjacent cap (skipFrom remaining (target - 1)) dst (piece ++ rest) := by
      rw [skipFrom, if_neg (by omega)]
      show run fastLoop adjacent cap _ [] dst (x :: (piece ++ rest)) = _
      rw [run_cons (by rintro ⟨⟩)]
      show advance fastLoop adjacent cap (skipFrom remaining (target - 1)) dst _ = _
      unfold skipFrom
      split_ifs
      · rfl
      · rfl
    rw [List.cons_append, hstep, ih (by omega), List.length_cons, Nat.sub_sub, Nat.add_comm 1]

/-! ## Headers that are there -/

theorem advance_readHeader (remaining target : Nat) (got src : List UInt8) :
    advance fastLoop adjacent cap (readHeader remaining target got) dst src =
      resume fastLoop adjacent cap (readHeader remaining target got) dst src := by
  unfold readHeader
  split <;> simp [advance, resume, Field.entersCBlock]

/-- The magic number of a skippable frame may be looked at before more bytes are there. -/
theorem run_skippableSize {remaining : Nat} {bytes : List UInt8} (hlt : bytes.length < 4)
    (rest : List UInt8) :
    run fastLoop adjacent cap ⟨remaining, .skippableSize bytes⟩ [] dst rest =
      run fastLoop adjacent cap ⟨remaining, .skippableSize []⟩ [] dst (bytes ++ rest) := by
  rw [run_gather (s := ⟨remaining, .skippableSize []⟩) rfl hlt]
  rfl

/-- Where the header that `src` starts with leads to. -/
def headerRead (remaining : Nat) (src : List UInt8) : Event × List UInt8 :=
  match readFrameHeader src with
  | .error _ => (.fail, [])
  | .ok .skippable => (.next ⟨remaining, .skippableSize []⟩ [], src.drop 4)
  | .ok (.incomplete _) => (.fail, [])
  | .ok (.complete frameHeaderSize frameInfo contentSizeFlag) =>
    (.next ⟨if contentSizeFlag then frameInfo.contentSize else remaining,
      .blockHeader ⟨frameInfo, [], []⟩ []⟩ [], src.drop frameHeaderSize)

theorem run_header_gather {remaining k n : Nat} {src : List UInt8} (hk : k < n)
    (hn : n ≤ src.length) :
    run fastLoop adjacent cap ⟨remaining, .header n (src.take k)⟩ [] dst (src.drop k) =
      resume fastLoop adjacent cap (readHeader remaining n (src.take n)) dst (src.drop n) := by
  have htake : (src.take k).length = k := by rw [List.length_take, Nat.min_eq_left (by omega)]
  have hbytes : ((src.drop k).take (n - k)).length = n - k := by
    rw [List.length_take, List.length_drop, Nat.min_eq_left (by omega)]
  have hsplit : src.drop k = (src.drop k).take (n - k) ++ src.drop n := by
    have hdrop : src.drop n = (src.drop k).drop (n - k) := by
      rw [List.drop_drop, Nat.add_sub_cancel' (Nat.le_of_lt hk)]
    rw [hdrop, List.take_append_drop]
  have hgot : src.take k ++ (src.drop k).take (n - k) = src.take n := by
    rw [← List.take_add, Nat.add_sub_cancel' (Nat.le_of_lt hk)]
  have hmissing : (Field.header n (src.take k)).missing = n - k := by rw [Field.missing, htake]
  rw [hsplit, run_gathered rfl (by rw [hmissing]; omega) (by rw [hbytes, hmissing])]
  show advance fastLoop adjacent cap (readHeader remaining n _) dst _ = _
  rw [advance_readHeader, hgot]

/-- A header that is there is read in one go or byte by byte. -/
theorem run_header {remaining : Nat} {src : List UInt8} (hlen : maxFHSize ≤ src.length) :
    run fastLoop adjacent cap ⟨remaining, .header minFHSize []⟩ [] dst src =
      resume fastLoop adjacent cap (headerRead remaining src).1 dst (headerRead remaining src).2 := by
  obtain ⟨n, hn⟩ : ∃ n, n = frameHeaderSizeOf (flagByte src) := ⟨_, rfl⟩
  have hge : minFHSize ≤ n := hn ▸ frameHeaderSizeOf_ge _
  have hle : n ≤ src.length := Nat.le_trans (hn ▸ frameHeaderSizeOf_le _) hlen
  have hmin : minFHSize ≤ src.length := Nat.le_trans hge hle
  have hfirst := @run_header_gather fastLoop adjacent cap dst remaining 0 minFHSize src
    (Nat.succ_pos 6) hmin
  rw [List.take_zero, List.drop_zero] at hfirst
  rw [hfirst]
  -- what the whole header says is what its bytes say
  have hwhole : minFHSize < n → readFrameHeader (src.take minFHSize) = .ok (.incomplete n) →
      resume fastLoop adjacent cap (readHeader remaining minFHSize (src.take minFHSize)) dst
          (src.drop minFHSize) =
        resume fastLoop adjacent cap (readHeader remaining n (src.take n)) dst (src.drop n) := by
    intro hlt hread
    rw [← run_header_gather hlt hle, readHeader]
    simp only [List.take_take, Nat.min_self, hread]
    rfl
  have hsame := @readFrameHeader_take src n hle (Nat.le_of_eq hn.symm)
  have hcases : readFrameHeader (src.take minFHSize) = readFrameHeader src ∨
      (minFHSize < n ∧ readFrameHeader (src.take minFHSize) = .ok (.incomplete n)) := by
    rcases Nat.eq_or_lt_of_le hge with heq | hlt
    · rw [heq]
      exact Or.inl hsame
    · rcases readFrameHeader_take_short (Nat.le_refl minFHSize) (hn ▸ hlt) with hshort | hshort
      · exact Or.inl hshort
      · exact Or.inr ⟨hlt, hn ▸ hshort⟩
  cases hread : readFrameHeader src with
  | error e =>
    have hfail : (headerRead remaining src).1 = .fail := by
      rw [headerRead, hread]
    rw [hfail]
    rcases hcases with hshort | ⟨hlt, hshort⟩
    · rw [readHeader, List.take_take, Nat.min_self, hshort, hread]
      rfl
    · rw [hwhole hlt hshort, readHeader, List.take_take, Nat.min_self, hsame, hread]
      rfl
  | ok said =>
    cases said with
    | skippable =>
      have hskip := readFrameHeader_skippable_iff.1 hread
      have hshort : readFrameHeader (src.take minFHSize) = .ok .skippable :=
        readFrameHeader_skippable_iff.2 ((isSkippable_take (by decide)).2 hskip)
      rw [readHeader, headerRead, List.take_take, Nat.min_self, hshort, hread]
      show run fastLoop adjacent cap ⟨remaining, .skippableSize ((src.take minFHSize).drop 4)⟩ [] dst
          (src.drop minFHSize) =
        run fastLoop adjacent cap ⟨remaining, .skippableSize []⟩ [] dst (src.drop 4)
      have hsplit : (src.take minFHSize).drop 4 ++ src.drop minFHSize = src.drop 4 := by
        rw [List.drop_take]
        conv_rhs => rw [← List.take_append_drop (minFHSize - 4) (src.drop 4)]
        rw [List.drop_drop]
        rfl
      rw [run_skippableSize (by
        rw [List.length_drop, List.length_take]
        unfold minFHSize
        omega), hsplit]
    | incomplete m =>
      obtain ⟨hlt, hmax⟩ := readFrameHeader_incomplete hread
      exact absurd (Nat.le_trans hmax hlen) (Nat.not_le.2 hlt)
    | complete m frameInfo contentSizeFlag =>
      have hm : m = n := (readFrameHeader_complete_iff.1 hread).1.size_eq.trans hn.symm
      have hall : headerRead remaining src =
          (.next ⟨if contentSizeFlag then frameInfo.contentSize else remaining,
            .blockHeader ⟨frameInfo, [], []⟩ []⟩ [], src.drop n) := by
        rw [headerRead, hread, hm]
      rcases hcases with hshort | ⟨hlt, hshort⟩
      · rw [hread] at hshort
        have hbound := (readFrameHeader_complete_iff.1 hshort).1.size_le
        rw [List.length_take, Nat.min_eq_left hmin, hm] at hbound
        rw [readHeader, List.take_take, Nat.min_self, hshort, hall,
          Nat.le_antisymm hge hbound]
      · rw [hwhole hlt hshort, readHeader, List.take_take, Nat.min_self, hsame, hread, hall]

/-! ## Fields that are read in one go -/

/-- The input ends inside a field. -/
theorem run_short (h : s.field.gathers = true) {src : List UInt8}
    (hlt : src.length < s.field.missing) :
    run fastLoop adjacent cap s [] dst src = .stop ⟨s.remaining, s.field.append src⟩ [] dst [] := by
  have hrun := @run_gather fastLoop adjacent cap s dst h src hlt []
  rw [List.append_nil, run_nil] at hrun
  exact hrun

/-- The input goes beyond a field. -/
theorem run_complete (h : s.field.gathers = true) (hpos : 0 < s.field.missing) {src : List UInt8}
    (hle : s.field.missing ≤ src.length) :
    run fastLoop adjacent cap s [] dst src =
      advance fastLoop adjacent cap
        (readField fastLoop adjacent s.remaining (s.field.append (src.take s.field.missing))) dst
        (src.drop s.field.missing) := by
  have hlen : (src.take s.field.missing).length = s.field.missing := by
    rw [List.length_take, Nat.min_eq_left hle]
  have hrun := @run_gathered fastLoop adjacent cap s dst h _ hpos hlen (src.drop s.field.missing)
  rwa [List.take_append_drop] at hrun

theorem advance_suffixFrom (remaining : Nat) (contentChecksumFlag : Bool) (hashed src : List UInt8) :
    advance fastLoop adjacent cap (suffixFrom remaining contentChecksumFlag hashed) dst src =
      resume fastLoop adjacent cap (suffixFrom remaining contentChecksumFlag hashed) dst src := by
  unfold suffixFrom
  split_ifs <;> simp [advance, resume, Field.entersCBlock]

theorem advance_skipFrom (remaining target : Nat) (src : List UInt8) :
    advance fastLoop adjacent cap (skipFrom remaining target) dst src =
      resume fastLoop adjacent cap (skipFrom remaining target) dst src := by
  unfold skipFrom
  split_ifs <;> simp [advance, resume, Field.entersCBlock]

end Runs

end PythonLz4.Frame.BytewiseDecoder
