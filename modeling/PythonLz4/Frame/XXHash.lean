import PythonLz4.Lib.LittleEndian

/-!
# XXH32

The 32-bit hash of `xxhash.c`. A hash state is modelled by the bytes it was updated with since its
reset, so `XXH32_digest` is `XXH32` of those bytes with the seed 0 that every caller uses.
-/

set_option autoImplicit false

namespace PythonLz4.Frame.XXHash

open PythonLz4.Lib.LittleEndian

def PRIME32_1 : UInt32 := 2654435761
def PRIME32_2 : UInt32 := 2246822519
def PRIME32_3 : UInt32 := 3266489917
def PRIME32_4 : UInt32 := 668265263
def PRIME32_5 : UInt32 := 374761393

def XXH_rotl32 (x r : UInt32) : UInt32 := (x <<< r) ||| (x >>> (32 - r))

/-- `XXH_get32bits` at the head of `p`. -/
def XXH_get32bits (p : List UInt8) : UInt32 := UInt32.ofNat (leNat (p.take 4))

def XXH32_round (seed input : UInt32) : UInt32 :=
  XXH_rotl32 (seed + input * PRIME32_2) 13 * PRIME32_1

/-- Mix all bits. -/
def XXH32_avalanche (h32 : UInt32) : UInt32 :=
  let h32 := h32 ^^^ (h32 >>> 15)
  let h32 := h32 * PRIME32_2
  let h32 := h32 ^^^ (h32 >>> 13)
  let h32 := h32 * PRIME32_3
  h32 ^^^ (h32 >>> 16)

/-- The bytes behind the last full stripe: words first, then single bytes. -/
def XXH32_finalize (h32 : UInt32) : List UInt8 → UInt32
  | b0 :: b1 :: b2 :: b3 :: p =>
    XXH32_finalize
      (XXH_rotl32 (h32 + XXH_get32bits [b0, b1, b2, b3] * PRIME32_3) 17 * PRIME32_4) p
  | b :: p => XXH32_finalize (XXH_rotl32 (h32 + UInt32.ofNat b.toNat * PRIME32_5) 11 * PRIME32_1) p
  | [] => XXH32_avalanche h32

/-- The four accumulators. -/
structure Lanes where
  v1 : UInt32
  v2 : UInt32
  v3 : UInt32
  v4 : UInt32

/-- The loop over `n` stripes of 16 bytes. -/
def XXH32_stripes : Nat → Lanes → List UInt8 → Lanes
  | 0, v, _ => v
  | n + 1, v, p =>
    XXH32_stripes n
      ⟨XXH32_round v.v1 (XXH_get32bits p), XXH32_round v.v2 (XXH_get32bits (p.drop 4)),
        XXH32_round v.v3 (XXH_get32bits (p.drop 8)), XXH32_round v.v4 (XXH_get32bits (p.drop 12))⟩
      (p.drop 16)

def XXH32 (input : List UInt8) (seed : UInt32) : UInt32 :=
  let n := input.length / 16
  let h32 :=
    if n = 0 then seed + PRIME32_5
    else
      let v := XXH32_stripes n
        ⟨seed + PRIME32_1 + PRIME32_2, seed + PRIME32_2, seed, seed - PRIME32_1⟩ input
      XXH_rotl32 v.v1 1 + XXH_rotl32 v.v2 7 + XXH_rotl32 v.v3 12 + XXH_rotl32 v.v4 18
  XXH32_finalize (h32 + UInt32.ofNat input.length) (input.drop (16 * n))

/-- `XXH32_digest` of the state that was updated with `hashed`, as the number that is stored. -/
def XXH32_digest (hashed : List UInt8) : Nat := (XXH32 hashed 0).toNat

/-- The four bytes of a stored checksum. -/
def checksumBytes (hashed : List UInt8) : List UInt8 := leBytes 4 (XXH32_digest hashed)

@[simp] theorem length_checksumBytes (hashed : List UInt8) : (checksumBytes hashed).length = 4 :=
  length_leBytes _ _

/-- A stored checksum reads back as the digest. -/
theorem leNat_checksumBytes (hashed : List UInt8) :
    leNat (checksumBytes hashed) = XXH32_digest hashed :=
  leNat_leBytes_of_lt (XXH32 hashed 0).toNat_lt

/-- Four bytes that read as the digest are the stored checksum. -/
theorem eq_checksumBytes {bytes hashed : List UInt8} (hlen : bytes.length = 4)
    (h : leNat bytes = XXH32_digest hashed) : bytes = checksumBytes hashed := by
  apply leNat_injective_of_length
  · rw [hlen, length_checksumBytes]
  · rw [h, leNat_checksumBytes]

theorem XXH32_digest_nil : XXH32_digest [] = 0x02CC5D05 := by decide +kernel

attribute [irreducible] XXH32_digest

end PythonLz4.Frame.XXHash
