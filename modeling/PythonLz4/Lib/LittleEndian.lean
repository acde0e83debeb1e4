import Mathlib.Tactic

/-!
# Fixed-width little-endian numbers

`leBytes k x` is `x` modulo `256 ^ k` written in `k` bytes, least significant byte first, and
`leNat` reads such a field back. The two are inverse on fields of `k` bytes and on numbers below
`256 ^ k`.
-/

set_option autoImplicit false

namespace PythonLz4.Lib.LittleEndian

/-- `x` modulo `256 ^ k` in `k` bytes, least significant first. -/
def leBytes : Nat → Nat → List UInt8
  | 0, _ => []
  | k + 1, x => UInt8.ofNat x :: leBytes k (x / 256)

/-- The number a little-endian field stands for. -/
def leNat : List UInt8 → Nat
  | [] => 0
  | b :: bs => b.toNat + 256 * leNat bs

@[simp] theorem length_leBytes (k x : Nat) : (leBytes k x).length = k := by
  induction k generalizing x with
  | zero => rfl
  | succ k ih => simp [leBytes, ih]

/-- Reading a written number gives the number back modulo the width of the field. -/
theorem leNat_leBytes (k x : Nat) : leNat (leBytes k x) = x % 256 ^ k := by
  induction k generalizing x with
  | zero => simp [leBytes, leNat, Nat.mod_one]
  | succ k ih =>
    have hmod : x % 256 ^ (k + 1) = x % 256 + 256 * (x / 256 % 256 ^ k) := by
      rw [Nat.pow_succ, Nat.mul_comm, Nat.mod_mul]
    rw [leBytes, leNat, ih, hmod]
    simp

theorem leNat_leBytes_of_lt {k x : Nat} (h : x < 256 ^ k) : leNat (leBytes k x) = x := by
  rw [leNat_leBytes, Nat.mod_eq_of_lt h]

theorem leNat_lt (bs : List UInt8) : leNat bs < 256 ^ bs.length := by
  induction bs with
  | nil => simp [leNat]
  | cons b bs ih =>
    have hb := b.toNat_lt
    simp only [leNat, List.length_cons, Nat.pow_succ]
    omega

/-- Writing the number a field stands for gives the field back. -/
theorem leBytes_leNat (bs : List UInt8) : leBytes bs.length (leNat bs) = bs := by
  induction bs with
  | nil => rfl
  | cons b bs ih =>
    have hb := b.toNat_lt
    have hlow : UInt8.ofNat (b.toNat + 256 * leNat bs) = b := by
      apply UInt8.toNat_inj.1
      simp
    have hdiv : (b.toNat + 256 * leNat bs) / 256 = leNat bs := by omega
    rw [leNat, List.length_cons, leBytes, hdiv, ih, hlow]

theorem leBytes_mod (k x : Nat) : leBytes k (x % 256 ^ k) = leBytes k x := by
  have h := leBytes_leNat (leBytes k x)
  rwa [length_leBytes, leNat_leBytes] at h

theorem leNat_injective_of_length {as bs : List UInt8} (hl : as.length = bs.length)
    (h : leNat as = leNat bs) : as = bs := by
  rw [← leBytes_leNat as, ← leBytes_leNat bs, hl, h]

end PythonLz4.Lib.LittleEndian
