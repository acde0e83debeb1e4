import Mathlib.Tactic

/-!
# How far two sequences agree

`CommonRun f g limit n` says that `n` is the length of the longest common beginning of `f` and `g`
within the first `limit` places: what a match finder counts. A count by larger units is put together
from smaller ones with `CommonRun.shift`, `CommonRun.of_lt` and the rules for `Shorter`.
-/

set_option autoImplicit false

namespace PythonLz4.Lib.LongestMatch

universe u

variable {α : Type u} {f g : Nat → α} {limit n m : Nat}

/-- `f` and `g` agree on the first `n` places, and on no more of the first `limit`. -/
structure CommonRun (f g : Nat → α) (limit n : Nat) : Prop where
  le : n ≤ limit
  same : ∀ k, k < n → f k = g k
  stops : n < limit → f n ≠ g n

theorem CommonRun.nil (h : 0 < limit → f 0 ≠ g 0) : CommonRun f g limit 0 where
  le := Nat.zero_le limit
  same := by
    intro k hk
    exact absurd hk (Nat.not_lt_zero k)
  stops := h

/-- The length of the common beginning is determined. -/
theorem CommonRun.unique (h : CommonRun f g limit n) (h' : CommonRun f g limit m) : n = m := by
  rcases Nat.lt_trichotomy n m with hlt | heq | hgt
  · exact absurd (h'.same n hlt) (h.stops (Nat.lt_of_lt_of_le hlt h'.le))
  · exact heq
  · exact absurd (h.same m hgt) (h'.stops (Nat.lt_of_lt_of_le hgt h.le))

/-- The first `m` places agree, and the count goes on behind them. -/
theorem CommonRun.shift (hm : m ≤ limit) (hsame : ∀ k, k < m → f k = g k)
    (h : CommonRun (fun k => f (m + k)) (fun k => g (m + k)) (limit - m) n) :
    CommonRun f g limit (m + n) where
  le := by
    have hle := h.le
    omega
  same := by
    intro k hk
    rcases Nat.lt_or_ge k m with hlt | hge
    · exact hsame k hlt
    · obtain ⟨i, rfl⟩ := Nat.exists_eq_add_of_le hge
      exact h.same i (Nat.lt_of_add_lt_add_left hk)
  stops := by
    intro hlt
    apply h.stops
    omega

/-- A count that stops before its limit does not depend on it. -/
theorem CommonRun.of_lt {limit' : Nat} (h : CommonRun f g limit n) (hn : n < limit)
    (hle : limit ≤ limit') : CommonRun f g limit' n where
  le := Nat.le_trans h.le hle
  same := h.same
  stops := by
    intro _
    exact h.stops hn

/-- Fewer than `b` places agree within the first `limit`. -/
def Shorter (f g : Nat → α) (limit b : Nat) : Prop :=
  ∀ n, n ≤ limit → (∀ k, k < n → f k = g k) → n < b

theorem Shorter.of_limit {b : Nat} (h : limit < b) : Shorter f g limit b := by
  intro n hn _
  exact Nat.lt_of_le_of_lt hn h

/-- Where one unit of `w` places agrees, less than a unit is left of a count below two units. -/
theorem Shorter.shift {w : Nat} (h : Shorter f g limit (w + w)) (hw : w ≤ limit)
    (hsame : ∀ k, k < w → f k = g k) :
    Shorter (fun k => f (w + k)) (fun k => g (w + k)) (limit - w) w := by
  intro n hn hrest
  have hlt : w + n < w + w := by
    apply h (w + n) (by omega)
    intro k hk
    rcases Nat.lt_or_ge k w with hkw | hkw
    · exact hsame k hkw
    · obtain ⟨i, rfl⟩ := Nat.exists_eq_add_of_le hkw
      exact hrest i (Nat.lt_of_add_lt_add_left hk)
  exact Nat.lt_of_add_lt_add_left hlt

/-- Where a unit of `w` places does not agree, the count is below it. -/
theorem Shorter.of_not {w : Nat} (h : ¬ (w ≤ limit ∧ ∀ k, k < w → f k = g k)) :
    Shorter f g limit w := by
  intro n hn hsame
  by_contra hge
  apply h
  constructor
  · omega
  · intro k hk
    exact hsame k (by omega)

/-- Below one place there is nothing to count. -/
theorem Shorter.commonRun_nil (h : Shorter f g limit 1) : CommonRun f g limit 0 := by
  apply CommonRun.nil
  intro hlimit h0
  have hlt : 1 < 1 := by
    apply h 1 hlimit
    intro k hk
    obtain rfl : k = 0 := Nat.lt_one_iff.1 hk
    exact h0
  exact absurd hlt (Nat.lt_irrefl 1)

end PythonLz4.Lib.LongestMatch
