import Mathlib.Data.List.Basic

/-!
# Reading a concatenation of records

A loop takes one record after the other off the front of its input. When every record is recognised
whatever follows it, and no proper part of it is accepted, the loop on any cut of the concatenation
returns the records that lie wholly inside the cut, and it ends normally exactly on a boundary
(`readAll_take`).
-/

set_option autoImplicit false

namespace PythonLz4.Lib.RecordStream

variable {α β ε : Type}

/-- How the loop ends; `running` when it has used up its fuel. -/
inductive Ending (ε : Type) where
  | finished
  | failed (e : ε)
  | running
  deriving DecidableEq, Repr

/-- `next` gives the value of the first record and its length. -/
def readAll (next : List α → Except ε (β × Nat)) : Nat → List α → List β × Ending ε
  | _, [] => ([], .finished)
  | 0, _ :: _ => ([], .running)
  | fuel + 1, x :: xs =>
    match next (x :: xs) with
    | .error e => ([], .failed e)
    | .ok (b, n) =>
      let r := readAll next fuel ((x :: xs).drop n)
      (b :: r.1, r.2)

/-- `next` recognises the record in front of anything, up to a total of `limit`, and rejects every
proper part of it with a `bad` error. -/
structure Reads (next : List α → Except ε (β × Nat)) (limit : Nat) (bad : ε → Prop)
    (record : List α) (value : β) : Prop where
  nonempty : 0 < record.length
  complete : ∀ rest, (record ++ rest).length ≤ limit →
    next (record ++ rest) = .ok (value, record.length)
  cut : ∀ n, 0 < n → n < record.length → record.length ≤ limit →
    ∃ e, next (record.take n) = .error e ∧ bad e

/-- The records in the first `n` elements. -/
def wholly : Nat → List (List α × β) → List (List α × β)
  | _, [] => []
  | n, r :: rs => if r.1.length ≤ n then r :: wholly (n - r.1.length) rs else []

/-- The concatenation of the records. -/
def joined (rs : List (List α × β)) : List α := (rs.map Prod.fst).flatten

@[simp] theorem joined_nil : joined ([] : List (List α × β)) = [] := rfl

@[simp] theorem joined_cons (r : List α × β) (rs : List (List α × β)) :
    joined (r :: rs) = r.1 ++ joined rs := rfl

/-- `n` is the end of one of the records, or 0. -/
def Boundary (n : Nat) (rs : List (List α × β)) : Prop := ∃ k, n = (joined (rs.take k)).length

theorem boundary_zero (rs : List (List α × β)) : Boundary 0 rs := ⟨0, by simp⟩

theorem boundary_cons_of_le {n : Nat} {r : List α × β} {rs : List (List α × β)}
    (hpos : 0 < r.1.length) (hn : r.1.length ≤ n) :
    Boundary n (r :: rs) ↔ Boundary (n - r.1.length) rs := by
  constructor
  · rintro ⟨k, hk⟩
    cases k with
    | zero =>
      rw [List.take_zero, joined_nil, List.length_nil] at hk
      omega
    | succ k =>
      rw [List.take_succ_cons, joined_cons, List.length_append] at hk
      exact ⟨k, by omega⟩
  · rintro ⟨k, hk⟩
    refine ⟨k + 1, ?_⟩
    rw [List.take_succ_cons, joined_cons, List.length_append]
    omega

theorem not_boundary_cons_of_lt {n : Nat} {r : List α × β} {rs : List (List α × β)}
    (hpos : 0 < n) (hn : n < r.1.length) : ¬ Boundary n (r :: rs) := by
  rintro ⟨k, hk⟩
  cases k with
  | zero =>
    rw [List.take_zero, joined_nil, List.length_nil] at hk
    omega
  | succ k =>
    rw [List.take_succ_cons, joined_cons, List.length_append] at hk
    omega

theorem readAll_of_ne_nil (next : List α → Except ε (β × Nat)) (fuel : Nat) {input : List α}
    (h : 0 < input.length) :
    readAll next (fuel + 1) input =
      match next input with
      | .error e => ([], .failed e)
      | .ok (b, n) =>
        (b :: (readAll next fuel (input.drop n)).1, (readAll next fuel (input.drop n)).2) := by
  cases input with
  | nil => exact absurd h (Nat.lt_irrefl 0)
  | cons x xs => rfl

/-- The loop on a cut of the concatenation. -/
theorem readAll_take {next : List α → Except ε (β × Nat)} {limit : Nat} {bad : ε → Prop}
    {rs : List (List α × β)} (hrs : ∀ r ∈ rs, Reads next limit bad r.1 r.2)
    (hlimit : (joined rs).length ≤ limit) {n fuel : Nat} (hn : n ≤ (joined rs).length)
    (hfuel : n ≤ fuel) :
    (readAll next fuel ((joined rs).take n)).1 = (wholly n rs).map Prod.snd ∧
      (Boundary n rs → (readAll next fuel ((joined rs).take n)).2 = .finished) ∧
      (¬ Boundary n rs →
        ∃ e, (readAll next fuel ((joined rs).take n)).2 = .failed e ∧ bad e) := by
  induction rs generalizing n fuel with
  | nil =>
    have hzero : n = 0 := Nat.le_zero.1 hn
    subst hzero
    have hread : readAll next fuel ((joined ([] : List (List α × β))).take 0) =
        ([], .finished) := by
      cases fuel <;> rfl
    rw [hread]
    exact ⟨rfl, fun _ => rfl, fun h => absurd (boundary_zero _) h⟩
  | cons r rs ih =>
    have hr := hrs r List.mem_cons_self
    rw [joined_cons, List.length_append] at hlimit hn
    rcases Nat.eq_zero_or_pos n with rfl | hpos
    · -- nothing to read
      have hread : readAll next fuel ((joined (r :: rs)).take 0) = ([], .finished) := by
        cases fuel <;> rfl
      have hempty : wholly 0 (r :: rs) = [] := if_neg (Nat.not_le.2 hr.nonempty)
      rw [hread, hempty]
      exact ⟨rfl, fun _ => rfl, fun h => absurd (boundary_zero _) h⟩
    obtain ⟨fuel, rfl⟩ : ∃ m, fuel = m + 1 := ⟨fuel - 1, by omega⟩
    rcases Nat.lt_or_ge n r.1.length with hlt | hge
    · -- the cut falls into the first record
      have htake : (joined (r :: rs)).take n = r.1.take n := by
        rw [joined_cons, List.take_append_of_le_length (Nat.le_of_lt hlt)]
      have hlen : 0 < (r.1.take n).length := by
        rw [List.length_take]
        omega
      obtain ⟨e, hnext, hbad⟩ := hr.cut n hpos hlt (by omega)
      have hempty : wholly n (r :: rs) = [] := if_neg (Nat.not_le.2 hlt)
      rw [htake, readAll_of_ne_nil next fuel hlen, hnext, hempty]
      exact ⟨rfl, fun h => absurd h (not_boundary_cons_of_lt hpos hlt), fun _ => ⟨e, rfl, hbad⟩⟩
    · -- the first record is read, the rest follows by induction
      have htake : (joined (r :: rs)).take n = r.1 ++ (joined rs).take (n - r.1.length) := by
        rw [joined_cons, List.take_append, List.take_of_length_le hge]
      have hlen : 0 < (r.1 ++ (joined rs).take (n - r.1.length)).length := by
        rw [List.length_append]
        exact Nat.add_pos_left hr.nonempty _
      have hnext := hr.complete ((joined rs).take (n - r.1.length)) (by
        rw [List.length_append, List.length_take]
        omega)
      have hwhole : wholly n (r :: rs) = r :: wholly (n - r.1.length) rs := if_pos hge
      obtain ⟨hblocks, hfinished, hfailed⟩ := ih
        (fun r' hr' => hrs r' (List.mem_cons_of_mem _ hr')) (by omega)
        (show n - r.1.length ≤ (joined rs).length by omega) (show n - r.1.length ≤ fuel by
          have hpos := hr.nonempty
          omega)
      rw [htake, readAll_of_ne_nil next fuel hlen, hnext, hwhole]
      simp only [List.drop_left]
      refine ⟨by rw [hblocks, List.map_cons], fun hb => ?_, fun hb => ?_⟩
      · exact hfinished ((boundary_cons_of_le hr.nonempty hge).1 hb)
      · exact hfailed fun h => hb ((boundary_cons_of_le hr.nonempty hge).2 h)

end PythonLz4.Lib.RecordStream
