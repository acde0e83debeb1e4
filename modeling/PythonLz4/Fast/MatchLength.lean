import PythonLz4.Lib.ByteMemory
import PythonLz4.Lib.LongestMatch
import PythonLz4.Lib.LittleEndian

/-!
# Counting the bytes of a match

`LZ4_count` of `lz4.c` on a little-endian machine with 64-bit registers, where `STEPSIZE` is 8: the
words that are equal, then the number of equal bytes of the first two words that differ, or the
last seven bytes one power of two at a time. `LZ4_count_commonRun` says that the result is the
number of bytes in common before the limit.
-/

set_option autoImplicit false

namespace PythonLz4.Fast.MatchLength

open PythonLz4.Lib.ByteMemory
open PythonLz4.Lib.LongestMatch
open PythonLz4.Lib.LittleEndian

/-- `LZ4_read16`. -/
def LZ4_read16 (mem : Memory) (p : Nat) : Nat := leNat (load mem p 2)

/-- `LZ4_read32`. -/
def LZ4_read32 (mem : Memory) (p : Nat) : Nat := leNat (load mem p 4)

/-- `LZ4_read_ARCH`. -/
def LZ4_read_ARCH (mem : Memory) (p : Nat) : Nat := leNat (load mem p 8)

def STEPSIZE : Nat := 8

/-- `__builtin_ctzll`, on the lowest `fuel` bits. -/
def ctz : Nat → Nat → Nat
  | 0, _ => 0
  | fuel + 1, val => if val % 2 = 1 then 0 else ctz fuel (val / 2) + 1

/-- `LZ4_NbCommonBytes` of a `U64`. -/
def LZ4_NbCommonBytes (val : Nat) : Nat := ctz 64 val / 8

/-- The last bytes: four, two and one at a time. The result is the final `pIn`. -/
def countTail (mem : Memory) (pInLimit pIn pMatch : Nat) : Nat :=
  let four := pIn + 3 < pInLimit ∧ LZ4_read32 mem pMatch = LZ4_read32 mem pIn
  let pMatch := if four then pMatch + 4 else pMatch
  let pIn := if four then pIn + 4 else pIn
  let two := pIn + 1 < pInLimit ∧ LZ4_read16 mem pMatch = LZ4_read16 mem pIn
  let pMatch := if two then pMatch + 2 else pMatch
  let pIn := if two then pIn + 2 else pIn
  if pIn < pInLimit ∧ mem pMatch = mem pIn then pIn + 1 else pIn

/-- The loop over words, whose first round stands in front of the loop in the source. -/
def countLoop (mem : Memory) (pInLimit : Nat) : Nat → Nat → Nat → Nat
  | 0, pIn, _ => pIn
  | fuel + 1, pIn, pMatch =>
    if pIn + (STEPSIZE - 1) < pInLimit then
      let diff := LZ4_read_ARCH mem pMatch ^^^ LZ4_read_ARCH mem pIn
      if diff = 0 then countLoop mem pInLimit fuel (pIn + STEPSIZE) (pMatch + STEPSIZE)
      else pIn + LZ4_NbCommonBytes diff
    else countTail mem pInLimit pIn pMatch

/-- `LZ4_count`. Every round of the loop comes nearer to the limit, so the distance is fuel
enough. -/
def LZ4_count (mem : Memory) (pIn pMatch pInLimit : Nat) : Nat :=
  countLoop mem pInLimit (pInLimit - pIn) pIn pMatch - pIn

/-! ## Words and bytes -/

theorem load_eq_iff {mem : Memory} {p q n : Nat} :
    load mem p n = load mem q n ↔ ∀ k, k < n → mem (p + k) = mem (q + k) := by
  simp [load, List.map_inj_left]

theorem leNat_load_eq_iff {mem : Memory} {p q n : Nat} :
    leNat (load mem p n) = leNat (load mem q n) ↔ ∀ k, k < n → mem (p + k) = mem (q + k) := by
  rw [← load_eq_iff]
  constructor
  · exact leNat_injective_of_length (by rw [length_load, length_load])
  · exact congrArg leNat

theorem ctz_eq_zero_of_odd {fuel val : Nat} (h : val % 2 = 1) : ctz fuel val = 0 := by
  cases fuel with
  | zero => rfl
  | succ fuel => exact if_pos h

theorem ctz_double (fuel val : Nat) : ctz (fuel + 1) (2 * val) = ctz fuel val + 1 := by
  have heven : ¬ (2 * val % 2 = 1) := by omega
  have hhalf : 2 * val / 2 = val := by omega
  rw [ctz, if_neg heven, hhalf]

/-- A zero byte in front adds eight zero bits. -/
theorem ctz_byte (fuel val : Nat) : ctz (fuel + 8) (256 * val) = ctz fuel val + 8 := by
  have hpow : 256 * val = 2 * (2 * (2 * (2 * (2 * (2 * (2 * (2 * val))))))) := by omega
  rw [hpow]
  simp only [ctz_double]

/-- A word whose lowest byte is not zero has a bit among the lowest eight. -/
theorem ctz_lt_eight {fuel val : Nat} (h : val % 256 ≠ 0) : ctz fuel val < 8 := by
  have step : ∀ k fuel val : Nat, val % 2 ^ k ≠ 0 → ctz fuel val < k := by
    intro k
    induction k with
    | zero =>
      intro fuel val h
      exact absurd (Nat.mod_one val) h
    | succ k ih =>
      intro fuel val h
      cases fuel with
      | zero => exact Nat.succ_pos k
      | succ fuel =>
        by_cases hodd : val % 2 = 1
        · rw [ctz_eq_zero_of_odd hodd]
          exact Nat.succ_pos k
        · have hhalf : val / 2 % 2 ^ k ≠ 0 := by
            intro h0
            apply h
            rw [Nat.pow_succ', Nat.mod_mul, h0]
            omega
          have hlt := ih fuel (val / 2) hhalf
          rw [ctz, if_neg hodd]
          exact Nat.succ_lt_succ hlt
  exact step 8 fuel val h

/-- Exclusive or works byte by byte. -/
theorem xor_cons (a b : UInt8) (m n : Nat) :
    (a.toNat + 256 * m) ^^^ (b.toNat + 256 * n) = (a ^^^ b).toNat + 256 * (m ^^^ n) := by
  have ha := a.toNat_lt
  have hb := b.toNat_lt
  have hab := (a ^^^ b).toNat_lt
  have hlow : ((a.toNat + 256 * m) ^^^ (b.toNat + 256 * n)) % 2 ^ 8 = (a ^^^ b).toNat := by
    rw [Nat.xor_mod_two_pow, UInt8.toNat_xor]
    congr 1 <;> omega
  have hhigh : ((a.toNat + 256 * m) ^^^ (b.toNat + 256 * n)) / 2 ^ 8 = m ^^^ n := by
    rw [Nat.xor_div_two_pow]
    congr 1 <;> omega
  omega

/-- The lowest zero bytes of the exclusive or are the bytes in common. -/
theorem ctz_xor {xs ys : List UInt8} (hlen : xs.length = ys.length) (hne : xs ≠ ys)
    {fuel : Nat} (hfuel : 8 * xs.length ≤ fuel) :
    CommonRun (fun k => xs[k]?) (fun k => ys[k]?) xs.length
      (ctz fuel (leNat xs ^^^ leNat ys) / 8) := by
  induction xs generalizing ys fuel with
  | nil =>
    cases ys with
    | nil => exact absurd rfl hne
    | cons y ys => simp at hlen
  | cons x xs ih =>
    cases ys with
    | nil => simp at hlen
    | cons y ys =>
      have hlen' : xs.length = ys.length := Nat.succ_injective hlen
      rw [leNat, leNat, xor_cons]
      by_cases hxy : x = y
      · subst hxy
        have hne' : xs ≠ ys := by
          intro h
          exact hne (congrArg (x :: ·) h)
        obtain ⟨fuel, rfl⟩ : ∃ rest, fuel = rest + 8 := ⟨fuel - 8, by simp at hfuel; omega⟩
        have hrest := @ih ys hlen' hne' fuel (by simp at hfuel; omega)
        have hcount : ctz (fuel + 8) ((x ^^^ x).toNat + 256 * (leNat xs ^^^ leNat ys)) / 8 =
            1 + ctz fuel (leNat xs ^^^ leNat ys) / 8 := by
          rw [UInt8.xor_self, UInt8.toNat_zero, Nat.zero_add, ctz_byte]
          omega
        rw [hcount]
        refine CommonRun.shift (by simp) ?_ ?_
        · intro k hk
          obtain rfl : k = 0 := by omega
          rfl
        · simpa [Nat.add_comm 1] using hrest
      · have hbyte : (x ^^^ y).toNat ≠ 0 := by
          intro h0
          apply hxy
          exact UInt8.xor_eq_zero_iff.1 (UInt8.toNat_inj.1 h0)
        have hlt : ctz fuel ((x ^^^ y).toNat + 256 * (leNat xs ^^^ leNat ys)) < 8 := by
          apply ctz_lt_eight
          have h256 := (x ^^^ y).toNat_lt
          omega
        rw [Nat.div_eq_of_lt hlt]
        apply CommonRun.nil
        intro _ h
        exact hxy (Option.some.inj h)

/-! ## `LZ4_count` -/

section Count

variable {mem : Memory} {pInLimit pIn pMatch : Nat}

/-- The bytes from `p` on. -/
def bytesFrom (mem : Memory) (p : Nat) (k : Nat) : UInt8 := mem (p + k)

theorem bytesFrom_add (mem : Memory) (p m : Nat) :
    (fun k => bytesFrom mem p (m + k)) = bytesFrom mem (p + m) := by
  funext k
  rw [bytesFrom, bytesFrom, Nat.add_assoc]

/-- The bytes in common at `pMatch` and `pIn`, before the limit. -/
abbrev CountsTo (mem : Memory) (pInLimit pIn pMatch n : Nat) : Prop :=
  CommonRun (bytesFrom mem pMatch) (bytesFrom mem pIn) (pInLimit - pIn) n

/-- `w` equal bytes are counted. -/
theorem CountsTo.shift {w n : Nat} (hw : pIn + w ≤ pInLimit)
    (hsame : ∀ k, k < w → mem (pMatch + k) = mem (pIn + k))
    (h : CountsTo mem pInLimit (pIn + w) (pMatch + w) n) :
    CountsTo mem pInLimit pIn pMatch (w + n) := by
  refine @CommonRun.shift _ _ _ _ _ _ (by omega) hsame ?_
  rw [bytesFrom_add, bytesFrom_add, Nat.sub_sub]
  exact h

/-- Fewer than `b` bytes are in common before the limit. -/
abbrev CountsBelow (mem : Memory) (pInLimit pIn pMatch b : Nat) : Prop :=
  Shorter (bytesFrom mem pMatch) (bytesFrom mem pIn) (pInLimit - pIn) b

/-- The check of a unit of `w` bytes succeeds. -/
theorem unit_taken {w : Nat} (hw : 0 < w) (hshort : CountsBelow mem pInLimit pIn pMatch (w + w))
    (h : pIn + (w - 1) < pInLimit ∧ leNat (load mem pMatch w) = leNat (load mem pIn w)) :
    pIn + w ≤ pInLimit ∧ (∀ k, k < w → mem (pMatch + k) = mem (pIn + k)) ∧
      CountsBelow mem pInLimit (pIn + w) (pMatch + w) w := by
  have hsame := leNat_load_eq_iff.1 h.2
  have hrest := hshort.shift (by omega) hsame
  rw [bytesFrom_add, bytesFrom_add, Nat.sub_sub] at hrest
  exact ⟨by omega, hsame, hrest⟩

/-- The check of a unit of `w` bytes fails. -/
theorem unit_left {w : Nat} (hw : 0 < w)
    (h : ¬ (pIn + (w - 1) < pInLimit ∧ leNat (load mem pMatch w) = leNat (load mem pIn w))) :
    CountsBelow mem pInLimit pIn pMatch w := by
  apply Shorter.of_not
  rintro ⟨hle, hsame⟩
  apply h
  constructor
  · omega
  · exact leNat_load_eq_iff.2 hsame

/-- The last check leaves nothing. -/
theorem byte_counted (hshort : CountsBelow mem pInLimit pIn pMatch 2) :
    ∃ n, (if pIn < pInLimit ∧ mem pMatch = mem pIn then pIn + 1 else pIn) = pIn + n ∧
      CountsTo mem pInLimit pIn pMatch n := by
  have hcheck : leNat (load mem pMatch 1) = leNat (load mem pIn 1) ↔ mem pMatch = mem pIn := by
    rw [leNat_load_eq_iff]
    simp
  by_cases hc : pIn < pInLimit ∧ mem pMatch = mem pIn
  · rw [if_pos hc]
    obtain ⟨hle, hsame, hrest⟩ := unit_taken Nat.one_pos hshort ⟨hc.1, hcheck.2 hc.2⟩
    exact ⟨1 + 0, rfl, CountsTo.shift hle hsame hrest.commonRun_nil⟩
  · rw [if_neg hc]
    have hrest : CountsBelow mem pInLimit pIn pMatch 1 := by
      apply unit_left Nat.one_pos
      rw [hcheck]
      exact hc
    exact ⟨0, rfl, hrest.commonRun_nil⟩

theorem halfWord_counted (hshort : CountsBelow mem pInLimit pIn pMatch 4) :
    ∃ n, (let two := pIn + 1 < pInLimit ∧ LZ4_read16 mem pMatch = LZ4_read16 mem pIn
      let pMatch := if two then pMatch + 2 else pMatch
      let pIn := if two then pIn + 2 else pIn
      if pIn < pInLimit ∧ mem pMatch = mem pIn then pIn + 1 else pIn) = pIn + n ∧
      CountsTo mem pInLimit pIn pMatch n := by
  by_cases hc : pIn + 1 < pInLimit ∧ LZ4_read16 mem pMatch = LZ4_read16 mem pIn
  · obtain ⟨hle, hsame, hrest⟩ := unit_taken Nat.two_pos hshort hc
    obtain ⟨n, heq, hrun⟩ := byte_counted hrest
    simp only [if_pos hc, heq]
    exact ⟨2 + n, Nat.add_assoc _ _ _, CountsTo.shift hle hsame hrun⟩
  · simp only [if_neg hc]
    exact byte_counted (unit_left Nat.two_pos hc)

theorem countTail_counted (h : pInLimit - pIn < 8) :
    ∃ n, countTail mem pInLimit pIn pMatch = pIn + n ∧ CountsTo mem pInLimit pIn pMatch n := by
  have hshort : CountsBelow mem pInLimit pIn pMatch (4 + 4) := Shorter.of_limit h
  rw [countTail]
  by_cases hc : pIn + 3 < pInLimit ∧ LZ4_read32 mem pMatch = LZ4_read32 mem pIn
  · obtain ⟨hle, hsame, hrest⟩ := unit_taken (Nat.succ_pos 3) hshort hc
    obtain ⟨n, heq, hrun⟩ := halfWord_counted hrest
    simp only [if_pos hc]
    exact ⟨4 + n, heq.trans (Nat.add_assoc _ _ _), CountsTo.shift hle hsame hrun⟩
  · simp only [if_neg hc]
    exact halfWord_counted (unit_left (Nat.succ_pos 3) hc)

/-- Two words that differ before the limit. -/
theorem word_counted (hroom : pIn + (STEPSIZE - 1) < pInLimit)
    (hdiff : LZ4_read_ARCH mem pMatch ^^^ LZ4_read_ARCH mem pIn ≠ 0) :
    CountsTo mem pInLimit pIn pMatch
      (LZ4_NbCommonBytes (LZ4_read_ARCH mem pMatch ^^^ LZ4_read_ARCH mem pIn)) := by
  have hne : load mem pMatch 8 ≠ load mem pIn 8 := by
    intro h
    apply hdiff
    rw [LZ4_read_ARCH, LZ4_read_ARCH, h, Nat.xor_self]
  have hrun : CommonRun (fun k => (load mem pMatch 8)[k]?) (fun k => (load mem pIn 8)[k]?)
      (load mem pMatch 8).length
      (LZ4_NbCommonBytes (LZ4_read_ARCH mem pMatch ^^^ LZ4_read_ARCH mem pIn)) := by
    apply ctz_xor (by rw [length_load, length_load]) hne
    rw [length_load]
  generalize LZ4_NbCommonBytes (LZ4_read_ARCH mem pMatch ^^^ LZ4_read_ARCH mem pIn) = n at hrun ⊢
  rw [length_load] at hrun
  have hsame : ∀ k, k < n → mem (pMatch + k) = mem (pIn + k) := by
    intro k hk
    have h8 : k < 8 := Nat.lt_of_lt_of_le hk hrun.le
    have hbyte := hrun.same k hk
    simpa [getElem?_load mem _ h8] using hbyte
  -- the words differ, so the count ends inside the first eight bytes
  have hlt : n < 8 := by
    apply Nat.lt_of_le_of_ne hrun.le
    rintro rfl
    exact hne (load_eq_iff.2 hsame)
  have hcount : CommonRun (bytesFrom mem pMatch) (bytesFrom mem pIn) 8 n := by
    refine ⟨hrun.le, hsame, ?_⟩
    intro _ h
    apply hrun.stops hlt
    simp only [getElem?_load mem _ hlt]
    exact congrArg some h
  apply hcount.of_lt hlt
  simp only [STEPSIZE] at hroom
  omega

theorem eq_of_xor_eq_zero {a b : Nat} (h : a ^^^ b = 0) : a = b := by
  have hb : a ^^^ b ^^^ b = 0 ^^^ b := congrArg (· ^^^ b) h
  rwa [Nat.xor_assoc, Nat.xor_self, Nat.xor_zero, Nat.zero_xor] at hb

theorem countLoop_counted {fuel : Nat} (hfuel : pInLimit - pIn ≤ fuel) :
    ∃ n, countLoop mem pInLimit fuel pIn pMatch = pIn + n ∧
      CountsTo mem pInLimit pIn pMatch n := by
  induction fuel generalizing pIn pMatch with
  | zero =>
    refine ⟨0, rfl, CommonRun.nil ?_⟩
    intro hpos
    omega
  | succ fuel ih =>
    rw [countLoop]
    by_cases hroom : pIn + (STEPSIZE - 1) < pInLimit
    · rw [if_pos hroom]
      by_cases hdiff : LZ4_read_ARCH mem pMatch ^^^ LZ4_read_ARCH mem pIn = 0
      · simp only [if_pos hdiff]
        have h8 : STEPSIZE = 8 := rfl
        obtain ⟨n, heq, hrun⟩ := @ih (pIn + STEPSIZE) (pMatch + STEPSIZE) (by omega)
        refine ⟨8 + n, by omega, hrun.shift (by omega) ?_⟩
        exact leNat_load_eq_iff.1 (eq_of_xor_eq_zero hdiff)
      · simp only [if_neg hdiff]
        exact ⟨_, rfl, word_counted hroom hdiff⟩
    · rw [if_neg hroom]
      have h8 : STEPSIZE = 8 := rfl
      exact countTail_counted (by omega)

/-- `LZ4_count` counts the bytes in common before the limit. -/
theorem LZ4_count_counts (mem : Memory) (pIn pMatch pInLimit : Nat) :
    CountsTo mem pInLimit pIn pMatch (LZ4_count mem pIn pMatch pInLimit) := by
  obtain ⟨n, heq, hrun⟩ := @countLoop_counted mem pInLimit pIn pMatch _
    (Nat.le_refl (pInLimit - pIn))
  rw [LZ4_count, heq, Nat.add_sub_cancel_left]
  exact hrun

end Count

end PythonLz4.Fast.MatchLength
