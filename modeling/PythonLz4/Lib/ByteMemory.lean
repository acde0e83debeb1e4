import PythonLz4.Lib.HistoryWindow

/-!
# Memory as a function of the address

`load` and `store` move byte strings out of and into a memory. Storing is seen by exactly the loads
that overlap it: `load_store_before` and `load_store_after` for those that do not,
`load_store_append` for one that ends where the stored bytes end. `Written` says what is left of a
memory when bytes have been stored and some more addresses behind them may have changed.
-/

set_option autoImplicit false

namespace PythonLz4.Lib.ByteMemory

open PythonLz4.Lib.HistoryWindow

abbrev Memory := Nat → UInt8

/-- The `n` bytes from `p` on. -/
def load (mem : Memory) (p n : Nat) : List UInt8 := (List.range n).map fun i => mem (p + i)

/-- `memcpy` of `bytes` to `p`. -/
def store (mem : Memory) (p : Nat) (bytes : List UInt8) : Memory := fun a =>
  if p ≤ a ∧ a < p + bytes.length then bytes[a - p]?.getD 0 else mem a

/-- The `n` bytes from `p` on replaced by those of `scratch`. -/
def clobber (mem : Memory) (p n : Nat) (scratch : Memory) : Memory := fun a =>
  if p ≤ a ∧ a < p + n then scratch a else mem a

@[simp] theorem length_load (mem : Memory) (p n : Nat) : (load mem p n).length = n := by
  simp [load]

theorem getElem?_load (mem : Memory) (p : Nat) {n i : Nat} (hi : i < n) :
    (load mem p n)[i]? = some (mem (p + i)) := by
  simp [load, hi]

theorem load_congr {mem mem' : Memory} {p n : Nat}
    (h : ∀ a, p ≤ a → a < p + n → mem a = mem' a) : load mem p n = load mem' p n := by
  simp only [load, List.map_inj_left, List.mem_range]
  exact fun i hi => h (p + i) (by omega) (by omega)

theorem load_add (mem : Memory) (p m n : Nat) :
    load mem p (m + n) = load mem p m ++ load mem (p + m) n := by
  simp only [load, List.range_add, List.map_append, List.map_map]
  congr 1
  exact List.map_congr_left fun i _ => by rw [Function.comp_apply, Nat.add_assoc]

@[simp] theorem load_store (mem : Memory) (p : Nat) (bytes : List UInt8) :
    load (store mem p bytes) p bytes.length = bytes := by
  refine List.ext_getElem? fun i => ?_
  rcases Nat.lt_or_ge i bytes.length with hi | hi
  · rw [getElem?_load _ _ hi, store, if_pos (by omega), Nat.add_sub_cancel_left,
      List.getElem?_eq_getElem hi]
    rfl
  · rw [List.getElem?_eq_none (by simpa using hi), List.getElem?_eq_none hi]

theorem store_of_not_mem {mem : Memory} {p a : Nat} {bytes : List UInt8}
    (h : ¬ (p ≤ a ∧ a < p + bytes.length)) : store mem p bytes a = mem a := if_neg h

theorem clobber_of_not_mem {mem scratch : Memory} {p n a : Nat} (h : ¬ (p ≤ a ∧ a < p + n)) :
    clobber mem p n scratch a = mem a := if_neg h

@[simp] theorem load_zero (mem : Memory) (p : Nat) : load mem p 0 = [] := rfl

theorem load_store_before (mem : Memory) {p q n : Nat} (bytes : List UInt8) (h : q + n ≤ p) :
    load (store mem p bytes) q n = load mem q n :=
  load_congr fun a _ hq => store_of_not_mem (by omega)

theorem load_store_after (mem : Memory) {p q n : Nat} (bytes : List UInt8)
    (h : p + bytes.length ≤ q) : load (store mem p bytes) q n = load mem q n :=
  load_congr fun a hq _ => store_of_not_mem (by omega)

/-- What is stored behind `n` bytes continues them. -/
theorem load_store_append (mem : Memory) (q n : Nat) (bytes : List UInt8) :
    load (store mem (q + n) bytes) q (n + bytes.length) = load mem q n ++ bytes := by
  rw [load_add, load_store, load_store_before _ _ (Nat.le_refl _)]

theorem drop_load (mem : Memory) (p n k : Nat) : (load mem p n).drop k = load mem (p + k) (n - k) := by
  rcases Nat.le_total k n with hk | hk
  · obtain ⟨m, rfl⟩ := Nat.exists_eq_add_of_le hk
    rw [load_add, List.drop_left' (length_load mem p k), Nat.add_sub_cancel_left]
  · rw [List.drop_eq_nil_of_le (by rwa [length_load]), Nat.sub_eq_zero_of_le hk, load_zero]

theorem take_load (mem : Memory) (p n k : Nat) : (load mem p n).take k = load mem p (min k n) := by
  rcases Nat.le_total k n with hk | hk
  · obtain ⟨m, rfl⟩ := Nat.exists_eq_add_of_le hk
    rw [load_add, List.take_left' (length_load mem p k), Nat.min_eq_left hk]
  · rw [List.take_of_length_le (by rwa [length_load]), Nat.min_eq_right hk]

/-- The last bytes of a load are the load of the last addresses. -/
theorem window_load (mem : Memory) (p n k : Nat) :
    window k (load mem p n) = load mem (p + (n - k)) (n - (n - k)) := by
  rw [window_eq_drop_of_length (length_load mem p n), drop_load]

/-- Two memories that agree outside the `n` addresses from `p` on. -/
def SameOutside (m m' : Memory) (p n : Nat) : Prop := ∀ a, ¬ (p ≤ a ∧ a < p + n) → m' a = m a

theorem sameOutside_clobber (m scratch : Memory) (p n : Nat) :
    SameOutside m (clobber m p n scratch) p n := fun _ h => clobber_of_not_mem h

theorem SameOutside.mono {m m' : Memory} {p n n' : Nat} (h : SameOutside m m' p n) (hn : n ≤ n') :
    SameOutside m m' p n' := fun a ha => h a (by omega)

/-- Replacing bytes by themselves changes nothing. -/
@[simp] theorem clobber_self (m : Memory) (p n : Nat) : clobber m p n m = m := by
  funext a
  exact ite_self _

/-- Bytes that come from a memory changed in `k` addresses only. -/
theorem sameOutside_clobber_clobber (m scratch : Memory) (p k n : Nat) :
    SameOutside m (clobber m p n (clobber m p k scratch)) p k := by
  intro a ha
  by_cases hn : p ≤ a ∧ a < p + n
  · rw [clobber, if_pos hn, clobber_of_not_mem ha]
  · rw [clobber_of_not_mem hn]

/-- `m'` holds `bytes` at `p`, and is `m` outside the `n` addresses from `p` on. -/
structure Written (m m' : Memory) (p n : Nat) (bytes : List UInt8) : Prop where
  length_le : bytes.length ≤ n
  outside : SameOutside m m' p n
  load_eq : load m' p bytes.length = bytes

/-- Storing, whatever happens to the addresses behind the bytes. -/
theorem SameOutside.store {m m' : Memory} {p n : Nat} (h : SameOutside m m' p n)
    {bytes : List UInt8} (hn : bytes.length ≤ n) : Written m (store m' p bytes) p n bytes where
  length_le := hn
  outside := by
    intro a ha
    rw [store_of_not_mem (by omega)]
    exact h a ha
  load_eq := load_store m' p bytes

theorem written_store (m : Memory) (p : Nat) {bytes : List UInt8} {n : Nat}
    (hn : bytes.length ≤ n) : Written m (store m p bytes) p n bytes :=
  SameOutside.store (fun _ _ => rfl) hn

/-- A byte that has been written, counted from the end. -/
theorem Written.back {m m' : Memory} {p n : Nat} {bytes : List UInt8}
    (h : Written m m' p n bytes) {i : Nat} (h0 : 0 < i) (hi : i ≤ bytes.length) :
    m' (p + bytes.length - i) = bytes[bytes.length - i]?.getD 0 := by
  have hload := getElem?_load m' p (show bytes.length - i < bytes.length by omega)
  rw [h.load_eq] at hload
  have haddr : p + bytes.length - i = p + (bytes.length - i) := by omega
  rw [hload, haddr]
  rfl

end PythonLz4.Lib.ByteMemory
