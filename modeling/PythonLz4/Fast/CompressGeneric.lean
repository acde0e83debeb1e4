import PythonLz4.Block.Container
import PythonLz4.Frame.CompressionContext
import PythonLz4.Fast.MatchLength

/-!
# The fast compressor of `lz4.c`

`LZ4_compress_generic` and `LZ4_compress_generic_validated` with their hash table, for the
directives the bindings reach: tables of `U32` or `U16` indexes, output that is limited or not, and
a history that is absent, lies in front of the source, or lies in an external dictionary. A machine
with 64-bit little-endian registers is assumed, so the table of pointers is not there, and neither
are `usingDictCtx` and `fillOutput`, which nobody asks for.

Pointers into the source and the dictionary are addresses of `mem`. The output is the list `op` of
the bytes below the source's `op`, so a check against `olimit` is one of lengths; `touched` is how
far from `dest` a store has reached, bytes that are overwritten later included. The two loops run
on fuel: `none` is fuel that has run out, which does not happen.
-/

set_option autoImplicit false

namespace PythonLz4.Fast.CompressGeneric

open PythonLz4.Lib.ByteMemory
open PythonLz4.Lib.LittleEndian
open PythonLz4.Block.DecompressGeneric
open PythonLz4.Block.LastLiterals
open PythonLz4.Block.Container (LZ4_MAX_INPUT_SIZE)
open PythonLz4.Frame.CompressionContext (tableType_t LZ4_64Klimit)
open PythonLz4.Fast.MatchLength

def LZ4_HASHLOG : Nat := 12
def LZ4_DISTANCE_MAX : Nat := 65535
def LZ4_skipTrigger : Nat := 6
def LZ4_minLength : Nat := MFLIMIT + 1
def ML_BITS : Nat := 4

/-! ## The hash table -/

/-- `hashTable`: the index kept for each hash. -/
abbrev HashTable := Nat → Nat

def LZ4_hash4 (sequence : Nat) (tableType : tableType_t) : Nat :=
  if tableType = .byU16 then
    (sequence * 2654435761 % 2 ^ 32) >>> (MINMATCH * 8 - (LZ4_HASHLOG + 1))
  else (sequence * 2654435761 % 2 ^ 32) >>> (MINMATCH * 8 - LZ4_HASHLOG)

def LZ4_hash5 (sequence : Nat) (tableType : tableType_t) : Nat :=
  let hashLog := if tableType = .byU16 then LZ4_HASHLOG + 1 else LZ4_HASHLOG
  let prime5bytes := 889523592379
  ((sequence <<< 24 % 2 ^ 64) * prime5bytes % 2 ^ 64) >>> (64 - hashLog)

def LZ4_hashPosition (mem : Memory) (p : Nat) (tableType : tableType_t) : Nat :=
  if tableType ≠ .byU16 then LZ4_hash5 (LZ4_read_ARCH mem p) tableType
  else LZ4_hash4 (LZ4_read32 mem p) tableType

/-- What a table of the type keeps of an index. -/
def stored (tableType : tableType_t) (idx : Nat) : Nat :=
  if tableType = .byU16 then idx % 2 ^ 16 else idx % 2 ^ 32

def LZ4_putIndexOnHash (idx h : Nat) (hashTable : HashTable) (tableType : tableType_t) :
    HashTable := Function.update hashTable h (stored tableType idx)

/-! ## One call -/

/-- What one call of `LZ4_compress_generic` keeps fixed: its arguments, and the fields of the
context on entry. -/
structure CompressCall where
  mem : Memory
  source : Nat
  inputSize : Nat
  maxOutputSize : Nat
  limitedOutput : Bool
  tableType : tableType_t
  dictDirective : dict_directive
  dictSmall : Bool
  acceleration : Nat
  startIndex : Nat
  dictionary : Nat
  dictSize : Nat

namespace CompressCall

def iend (C : CompressCall) : Nat := C.source + C.inputSize
def mflimitPlusOne (C : CompressCall) : Nat := C.iend - MFLIMIT + 1
def matchlimit (C : CompressCall) : Nat := C.iend - LASTLITERALS
def prefixIdxLimit (C : CompressCall) : Nat := C.startIndex - C.dictSize
def dictEnd (C : CompressCall) : Nat := C.dictionary + C.dictSize

/-- `maybe_extMem`. -/
def maybe_extMem (C : CompressCall) : Bool := decide (C.dictDirective = .usingExtDict)

/-- `(U32)(p - base)`. -/
def index (C : CompressCall) (p : Nat) : Nat := (C.startIndex + (p - C.source)) % 2 ^ 32

def hash (C : CompressCall) (p : Nat) : Nat := LZ4_hashPosition C.mem p C.tableType

/-- `LZ4_putPosition`. -/
def putPosition (C : CompressCall) (p : Nat) (hashTable : HashTable) : HashTable :=
  LZ4_putIndexOnHash (C.index p) (C.hash p) hashTable C.tableType

/-- `match` and `lowLimit` for an index found in the table. -/
def candidate (C : CompressCall) (matchIndex : Nat) : Nat × Nat :=
  if C.dictDirective = .usingExtDict then
    if matchIndex < C.startIndex then
      (C.dictEnd + matchIndex - C.startIndex, C.dictionary)
    else (C.source + matchIndex - C.startIndex, C.source)
  else
    -- single continuous memory segment
    (C.source + matchIndex - C.startIndex,
      C.source - if C.dictDirective = .withPrefix64k then C.dictSize else 0)

/-- The candidate is within the valid area and not too far, and its first four bytes are those
at `ip`. -/
def accepts (C : CompressCall) (matchIndex current ip : Nat) : Prop :=
  ¬ (C.dictSmall = true ∧ matchIndex < C.prefixIdxLimit) ∧
    ¬ (C.tableType ≠ .byU16 ∧ (matchIndex + LZ4_DISTANCE_MAX) % 2 ^ 32 < current) ∧
    LZ4_read32 C.mem (C.candidate matchIndex).1 = LZ4_read32 C.mem ip

instance (C : CompressCall) (matchIndex current ip : Nat) :
    Decidable (C.accepts matchIndex current ip) := by
  unfold accepts
  infer_instance

end CompressCall

/-! ## Find a match -/

/-- A match in hand. The source's `match` is `pMatch`. -/
structure Found where
  ip : Nat
  pMatch : Nat
  lowLimit : Nat
  offset : Nat
  deriving DecidableEq, Repr

/-- The match for the index the table gives. -/
def CompressCall.found (C : CompressCall) (ip current matchIndex : Nat) : Found where
  ip
  pMatch := (C.candidate matchIndex).1
  lowLimit := (C.candidate matchIndex).2
  offset := current - matchIndex

/-- The loop "Find a match". The hash of `forwardIp` is `forwardH`. Without a match the table is
left for `_last_literals:`. -/
def search (C : CompressCall) : Nat → Nat → Nat → Nat → HashTable →
    Option (Option Found × HashTable)
  | 0, _, _, _, _ => none
  | fuel + 1, forwardIp, step, searchMatchNb, hashTable =>
    let h := C.hash forwardIp
    let current := C.index forwardIp
    let matchIndex := hashTable h
    let ip := forwardIp
    let forwardIp := forwardIp + step
    let step := searchMatchNb >>> LZ4_skipTrigger
    if C.mflimitPlusOne < forwardIp then some (none, hashTable)
    else
      let hashTable := LZ4_putIndexOnHash current h hashTable C.tableType
      if C.accepts matchIndex current ip then
        some (some (C.found ip current matchIndex), hashTable)
      else search C fuel forwardIp step (searchMatchNb + 1) hashTable

/-- "Catch up": the new `ip` and `match`. -/
def catchUp (mem : Memory) (anchor lowLimit : Nat) : Nat → Nat → Nat × Nat
  | 0, pMatch => (0, pMatch)
  | ip + 1, pMatch =>
    if anchor < ip + 1 ∧ lowLimit < pMatch ∧ mem ip = mem (pMatch - 1) then
      catchUp mem anchor lowLimit ip (pMatch - 1)
    else (ip + 1, pMatch)

/-! ## The main loop -/

/-- What goes into the token of a length. -/
def runCode (length : Nat) : Nat := min length RUN_MASK

/-- The bytes that extend the token by a length. -/
def runBytes (length : Nat) : List UInt8 :=
  if RUN_MASK ≤ length then lengthBytes (length - RUN_MASK) else []

/-- How many bytes `LZ4_wildCopy8` stores to copy `n`. -/
def LZ4_wildCopy8 (n : Nat) : Nat := 8 * max 1 ((n + 7) / 8)

/-- The variables the main loop carries along. -/
structure Progress where
  anchor : Nat
  op : List UInt8
  touched : Nat
  hashTable : HashTable

/-- Where the main loop goes on: at its top, at `_next_match:` with the token and the bytes behind
it, at `_last_literals:`, or at a `return 0`. -/
inductive Jump where
  | findMatch (ip : Nat) (s : Progress)
  | nextMatch (token : Nat) (behind : List UInt8) (m : Found) (s : Progress)
  | lastLiterals (s : Progress)
  | returnZero (s : Progress)

/-- From the top of the main loop to `_next_match:`. -/
def findMatch (C : CompressCall) (ip : Nat) (s : Progress) : Option Jump :=
  match search C C.inputSize ip 1 (C.acceleration <<< LZ4_skipTrigger) s.hashTable with
  | none => none
  | some (none, hashTable) => some (.lastLiterals { s with hashTable })
  | some (some m, hashTable) =>
    let caught := catchUp C.mem s.anchor m.lowLimit m.ip m.pMatch
    let m := { m with ip := caught.1, pMatch := caught.2 }
    let litLength := m.ip - s.anchor
    -- behind the token
    let op := s.op.length + 1
    if C.limitedOutput = true ∧
        C.maxOutputSize < op + litLength + (2 + 1 + LASTLITERALS) + litLength / 255 then
      some (.returnZero { s with hashTable })
    else
      let touched := max s.touched (op + (runBytes litLength).length + LZ4_wildCopy8 litLength)
      some (.nextMatch (runCode litLength <<< ML_BITS)
        (runBytes litLength ++ load C.mem s.anchor litLength) m { s with hashTable, touched })

/-- "Encode MatchLength": `matchCode` and the new `ip`. -/
def countMatch (C : CompressCall) (m : Found) : Nat × Nat :=
  if C.maybe_extMem = true ∧ m.lowLimit = C.dictionary then
    -- match within extDict
    let limit := min (m.ip + (C.dictEnd - m.pMatch)) C.matchlimit
    let matchCode := LZ4_count C.mem (m.ip + MINMATCH) (m.pMatch + MINMATCH) limit
    let ip := m.ip + (matchCode + MINMATCH)
    if ip = limit then
      let more := LZ4_count C.mem limit C.source C.matchlimit
      (matchCode + more, ip + more)
    else (matchCode, ip)
  else
    let matchCode := LZ4_count C.mem (m.ip + MINMATCH) (m.pMatch + MINMATCH) C.matchlimit
    (matchCode, m.ip + (matchCode + MINMATCH))

/-- How far the stores of a match length reach that is encoded at `op`; four bytes are written at
a time. -/
def matchStores (op matchCode : Nat) : Nat :=
  if ML_MASK ≤ matchCode then
    max (op + 4 * ((matchCode - ML_MASK) / (4 * 255)) + 4) (op + (runBytes matchCode).length)
  else op

/-- From `_next_match:` on. -/
def nextMatch (C : CompressCall) (token : Nat) (behind : List UInt8) (m : Found) (s : Progress) :
    Jump :=
  let offset := if C.maybe_extMem then m.offset else m.ip - m.pMatch
  -- behind the offset
  let op := s.op.length + 1 + behind.length + 2
  let counted := countMatch C m
  let matchCode := counted.1
  let ip := counted.2
  if C.limitedOutput = true ∧
      C.maxOutputSize < op + (1 + LASTLITERALS) + (matchCode + 240) / 255 then
    .returnZero { s with touched := max s.touched op }
  else
    let s :=
      { anchor := ip
        op := s.op ++ UInt8.ofNat (token + runCode matchCode) ::
          (behind ++ leBytes 2 offset ++ runBytes matchCode)
        touched := max s.touched (max op (matchStores op matchCode))
        hashTable := s.hashTable }
    if C.mflimitPlusOne ≤ ip then .lastLiterals s
    else
      -- fill table
      let hashTable := C.putPosition (ip - 2) s.hashTable
      -- test next position
      let current := C.index ip
      let matchIndex := hashTable (C.hash ip)
      let hashTable := C.putPosition ip hashTable
      if C.accepts matchIndex current ip then
        .nextMatch 0 [] (C.found ip current matchIndex)
          { s with touched := max s.touched (s.op.length + 1), hashTable }
      else .findMatch (ip + 1) { s with hashTable }

/-- What a call returns: the block, which is empty for the result 0, the table it leaves behind, and
how far it has stored. -/
structure Compressed where
  block : List UInt8
  hashTable : HashTable
  touched : Nat

/-- From `_last_literals:` on. -/
def lastRun (C : CompressCall) (s : Progress) : Compressed :=
  let lastRun := C.iend - s.anchor
  if C.limitedOutput = true ∧
      C.maxOutputSize < s.op.length + lastRun + 1 + (lastRun + 255 - RUN_MASK) / 255 then
    ⟨[], s.hashTable, s.touched⟩
  else
    let block := s.op ++ lastLiterals (load C.mem s.anchor lastRun)
    ⟨block, s.hashTable, max s.touched block.length⟩

/-- The main loop, `fuel` jumps at most. -/
def mainLoop (C : CompressCall) : Nat → Jump → Option Compressed
  | _, .lastLiterals s => some (lastRun C s)
  | _, .returnZero s => some ⟨[], s.hashTable, s.touched⟩
  | 0, _ => none
  | fuel + 1, .findMatch ip s =>
    match findMatch C ip s with
    | none => none
    | some jump => mainLoop C fuel jump
  | fuel + 1, .nextMatch token behind m s => mainLoop C fuel (nextMatch C token behind m s)

/-- `LZ4_compress_generic_validated`. A sequence takes at least four bytes of the source and two
jumps. -/
def LZ4_compress_generic_validated (C : CompressCall) (hashTable : HashTable) :
    Option Compressed :=
  if C.tableType = .byU16 ∧ LZ4_64Klimit ≤ C.inputSize then some ⟨[], hashTable, 0⟩
  else if C.inputSize < LZ4_minLength then
    -- input too small, no compression
    mainLoop C 0 (.lastLiterals ⟨C.source, [], 0, hashTable⟩)
  else
    mainLoop C (2 * C.inputSize + 2)
      (.findMatch (C.source + 1) ⟨C.source, [], 0, C.putPosition C.source hashTable⟩)

/-- `LZ4_compress_generic`. -/
def LZ4_compress_generic (C : CompressCall) (hashTable : HashTable) : Compressed :=
  if LZ4_MAX_INPUT_SIZE < C.inputSize then ⟨[], hashTable, 0⟩
  else if C.inputSize = 0 then
    if C.limitedOutput = true ∧ C.maxOutputSize = 0 then ⟨[], hashTable, 0⟩
    else ⟨[0], hashTable, 1⟩
  else (LZ4_compress_generic_validated C hashTable).getD ⟨[], hashTable, 0⟩

end PythonLz4.Fast.CompressGeneric
