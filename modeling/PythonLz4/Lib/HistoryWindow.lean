import Mathlib.Data.List.Basic
import Mathlib.Tactic

/-!
# Suffix windows of a history

A back-reference coder sees only the last `n` elements of what came before. `window n h` is that
suffix of the history `h`. Two histories with the same window are interchangeable for every reader
that looks back at most `n` places, and stay so when both are extended by the same data
(`window_append_congr`); a reader that keeps only the window loses nothing
(`window_window_append`).
-/

set_option autoImplicit false

namespace PythonLz4.Lib.HistoryWindow

universe u

variable {α : Type u}

/-- The last `n` elements of `h`, or all of `h` when it is shorter. -/
def window (n : Nat) (h : List α) : List α := (h.reverse.take n).reverse

theorem window_eq_drop (n : Nat) (h : List α) : window n h = h.drop (h.length - n) := by
  rw [window, List.take_reverse, List.reverse_reverse]

@[simp] theorem window_nil (n : Nat) : window n ([] : List α) = [] := by
  simp [window]

theorem length_window (n : Nat) (h : List α) : (window n h).length = min h.length n := by
  simp only [window_eq_drop, List.length_drop]
  omega

theorem length_window_le (n : Nat) (h : List α) : (window n h).length ≤ n := by
  rw [length_window]
  exact Nat.min_le_right _ _

theorem window_of_length_le {n : Nat} {h : List α} (hn : h.length ≤ n) : window n h = h := by
  have e : h.length - n = 0 := by omega
  rw [window_eq_drop, e, List.drop_zero]

@[simp] theorem window_window (n : Nat) (h : List α) : window n (window n h) = window n h :=
  window_of_length_le (length_window_le n h)

/-- A window of data at least as long as the window does not see what precedes it. -/
theorem window_append_of_le {n : Nat} (h d : List α) (hd : n ≤ d.length) :
    window n (h ++ d) = window n d := by
  have e : (h ++ d).length - n = h.length + (d.length - n) := by
    rw [List.length_append]
    omega
  rw [window_eq_drop, e, window_eq_drop, List.drop_append]
  simp

theorem window_append_of_ge {n : Nat} (h d : List α) (hd : d.length ≤ n) :
    window n (h ++ d) = window (n - d.length) h ++ d := by
  have e : (h ++ d).length - n = h.length - (n - d.length) := by
    rw [List.length_append]
    omega
  rw [window_eq_drop, e, window_eq_drop, List.drop_append_of_le_length (by omega)]

/-- Extending a windowed history gives the same window as extending the whole history. -/
theorem window_window_append (n : Nat) (h d : List α) :
    window n (window n h ++ d) = window n (h ++ d) := by
  rcases Nat.le_total n d.length with hd | hd
  · rw [window_append_of_le _ d hd, window_append_of_le _ d hd]
  · rw [window_append_of_ge _ d hd, window_append_of_ge _ d hd]
    congr 1
    simp only [window_eq_drop, List.drop_drop, List.length_drop]
    congr 1
    omega

/-- Histories with one window stay indistinguishable when the same data follows. -/
theorem window_append_congr {n : Nat} {h k : List α} (hk : window n h = window n k)
    (d : List α) : window n (h ++ d) = window n (k ++ d) := by
  rw [← window_window_append n h, hk, window_window_append]

theorem min_length_of_window_eq {n : Nat} {h k : List α} (hk : window n h = window n k) :
    min h.length n = min k.length n := by
  rw [← length_window, hk, length_window]

/-- Below the window size, one window means one history. -/
theorem eq_of_window_eq {n : Nat} {h k : List α} (hk : window n h = window n k)
    (hn : h.length < n) : h = k := by
  have hl := min_length_of_window_eq hk
  have hkn : k.length ≤ n := by omega
  rw [← window_of_length_le (Nat.le_of_lt hn), hk, window_of_length_le hkn]

/-- Reading back `i` places from the end, with `i` inside the window. -/
theorem getElem?_window_back (n : Nat) (h : List α) {i : Nat} (hi : i ≤ n) (hl : i ≤ h.length) :
    (window n h)[(window n h).length - i]? = h[h.length - i]? := by
  rw [length_window, window_eq_drop, List.getElem?_drop]
  congr 1
  omega

theorem getElem?_back_congr {n : Nat} {h k : List α} (hk : window n h = window n k) {i : Nat}
    (hi : i ≤ n) (hh : i ≤ h.length) (hkl : i ≤ k.length) :
    h[h.length - i]? = k[k.length - i]? := by
  rw [← getElem?_window_back n h hi hh, hk, getElem?_window_back n k hi hkl]

/-- Taking the last `n` elements of the part of `h` that a take leaves, when the take is the
whole of a longer list cut at its end. -/
theorem window_eq_drop_of_length {n : Nat} {h : List α} {m : Nat} (hm : h.length = m) :
    window n h = h.drop (m - n) := by
  rw [window_eq_drop, hm]

/-- A smaller window sees no more than a larger one keeps. -/
theorem window_window_of_le {k n : Nat} (hk : k ≤ n) (h : List α) :
    window k (window n h) = window k h := by
  simp only [window_eq_drop, List.drop_drop, List.length_drop]
  congr 1
  omega

theorem window_congr_of_le {k n : Nat} (hk : k ≤ n) {h h' : List α}
    (hw : window n h = window n h') : window k h = window k h' := by
  rw [← window_window_of_le hk, hw, window_window_of_le hk]

/-- A suffix that is as long as the window has the same window. -/
theorem window_of_suffix {n : Nat} {a h : List α} (hs : a <:+ h) (hn : min a.length n = min h.length n) :
    window n a = window n h := by
  obtain ⟨g, rfl⟩ := hs
  rcases Nat.le_total n a.length with hle | hle
  · rw [window_append_of_le _ _ hle]
  · rw [List.length_append] at hn
    rcases Nat.eq_or_lt_of_le hle with heq | hlt
    · rw [window_append_of_le _ _ (Nat.le_of_eq heq.symm)]
    · have hg : g = [] := List.eq_nil_of_length_eq_zero (by omega)
      rw [hg, List.nil_append]

/-- Cutting a history to at least the window, or to all there is, keeps the window. -/
theorem window_window_min (n : Nat) (h : List α) {k : Nat} (hk : min n h.length ≤ k) :
    window n (window k h) = window n h := by
  rcases Nat.lt_or_ge k n with hlt | hle
  · have hlen : h.length ≤ k := by omega
    rw [window_of_length_le hlen]
  · exact window_window_of_le hle h

theorem window_suffix (n : Nat) (h : List α) : window n h <:+ h := by
  rw [window_eq_drop]
  exact List.drop_suffix _ _

/-- The part of the history in front of its window, followed by the window. -/
theorem take_append_window (n : Nat) (h : List α) :
    h.take (h.length - n) ++ window n h = h := by
  rw [window_eq_drop]
  exact List.take_append_drop _ _

attribute [irreducible] window

/-! ## Histories that agree up to a distance -/

/-- Whatever a reader finds in `h` at a distance of at most `k` behind its end, it finds in `h'` at
the same distance. -/
def AgreeBack (k : Nat) (h h' : List α) : Prop :=
  ∀ i, 0 < i → i ≤ k → i ≤ h.length → i ≤ h'.length ∧ h[h.length - i]? = h'[h'.length - i]?

theorem AgreeBack.refl (k : Nat) (h : List α) : AgreeBack k h h := fun _ _ _ hi => ⟨hi, rfl⟩

theorem AgreeBack.trans {k : Nat} {h h' h'' : List α} (h₁ : AgreeBack k h h')
    (h₂ : AgreeBack k h' h'') : AgreeBack k h h'' := by
  intro i h0 hk hi
  obtain ⟨hi', heq⟩ := h₁ i h0 hk hi
  obtain ⟨hi'', heq'⟩ := h₂ i h0 hk hi'
  exact ⟨hi'', heq.trans heq'⟩

theorem AgreeBack.nil (k : Nat) (h : List α) : AgreeBack k [] h :=
  fun _ h0 _ hi => absurd h0 (Nat.not_lt.2 hi)

theorem AgreeBack.of_window_eq {n k : Nat} {h h' : List α} (hw : window n h = window n h')
    (hk : k ≤ n) : AgreeBack k h h' := by
  intro i _ hik hi
  have hmin := min_length_of_window_eq hw
  have hi' : i ≤ h'.length := by omega
  exact ⟨hi', getElem?_back_congr hw (Nat.le_trans hik hk) hi hi'⟩

/-- More history in front changes nothing for a reader of the shorter one. -/
theorem AgreeBack.append_left (k : Nat) (g h : List α) : AgreeBack k h (g ++ h) := by
  intro i h0 _ hi
  have hlen : (g ++ h).length = g.length + h.length := List.length_append
  refine ⟨by omega, ?_⟩
  rw [List.getElem?_append_right (by omega)]
  congr 1
  omega

theorem AgreeBack.mono {k k' : Nat} {h h' : List α} (hagree : AgreeBack k h h') (hk : k' ≤ k) :
    AgreeBack k' h h' := fun i h0 hi hlen => hagree i h0 (Nat.le_trans hi hk) hlen

/-- Behind the same data a reader reaches less far. -/
theorem AgreeBack.append_reach {k : Nat} {h h' : List α} (d : List α)
    (hagree : AgreeBack (k - d.length) h h') : AgreeBack k (h ++ d) (h' ++ d) := by
  intro i h0 hk hi
  rw [List.length_append] at hi
  rcases Nat.le_total i d.length with hd | hd
  · refine ⟨by rw [List.length_append]; omega, ?_⟩
    rw [List.length_append, List.length_append, List.getElem?_append_right (by omega),
      List.getElem?_append_right (by omega)]
    congr 1
    omega
  · rcases Nat.eq_or_lt_of_le hd with rfl | hlt
    · refine ⟨by rw [List.length_append]; omega, ?_⟩
      rw [List.length_append, List.length_append, List.getElem?_append_right (by omega),
        List.getElem?_append_right (by omega)]
      congr 1
      omega
    · obtain ⟨hi', heq⟩ := hagree (i - d.length) (by omega) (by omega) (by omega)
      have e : h.length + d.length - i = h.length - (i - d.length) := by omega
      have e' : h'.length + d.length - i = h'.length - (i - d.length) := by omega
      refine ⟨by rw [List.length_append]; omega, ?_⟩
      rw [List.length_append, List.length_append, e, e', List.getElem?_append_left (by omega),
        List.getElem?_append_left (by omega), heq]

/-- Both histories grow by the same data. -/
theorem AgreeBack.append_right {k : Nat} {h h' : List α} (hagree : AgreeBack k h h')
    (d : List α) : AgreeBack k (h ++ d) (h' ++ d) :=
  (hagree.mono (Nat.sub_le k d.length)).append_reach d

end PythonLz4.Lib.HistoryWindow
