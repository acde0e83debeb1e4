import PythonLz4.Block.DecompressGeneric

/-!
# One iteration of the block decoder

What an iteration of the main loop does when it goes on (`safeStep_next`,
`safeStep_of_accepted`), when it ends the block (`safeStep_finished_iff`), and that an iteration
of the fast loop does the same (`FastAgrees.step`). `Sequence` is the sequence an iteration reads
and `Sequence.Accepted` the checks it passes.
-/

set_option autoImplicit false

namespace PythonLz4.Block.DecompressGeneric

open PythonLz4.Lib.HistoryWindow
open PythonLz4.Lib.LittleEndian

theorem leNat_pair_lt (b0 b1 : UInt8) : leNat [b0, b1] < KB64 := by
  have h := leNat_lt [b0, b1]
  simpa [KB64] using h

@[simp] theorem length_matchBytes (win : List UInt8) (offset n : Nat) :
    (matchBytes win offset n).length = n := by
  induction n generalizing win with
  | zero => rfl
  | succ n ih => simp [matchBytes, ih]

/-- A match reads alike from two histories that agree as far back as it reaches. -/
theorem matchBytes_congr {k : Nat} {win win' : List UInt8} (hagree : AgreeBack k win win')
    {offset : Nat} (ho : offset ≤ k) (hl : offset ≤ win.length) (n : Nat) :
    matchBytes win offset n = matchBytes win' offset n := by
  induction n generalizing win win' with
  | zero => rfl
  | succ n ih =>
    have hb : win[win.length - offset]? = win'[win'.length - offset]? := by
      rcases Nat.eq_zero_or_pos offset with rfl | hpos
      · simp
      · exact (hagree offset hpos ho hl).2
    have hnext := ih (hagree.append_right [win'[win'.length - offset]?.getD 0])
      (by rw [List.length_append]; omega)
    simp only [matchBytes, hb, hnext]

/-! ## The length fields -/

theorem readLengthLoop_append {ilimit : Nat} {ip rest : List UInt8} {length : Nat}
    (h : readLengthLoop ilimit ip = .ok (length, rest)) (t : List UInt8) :
    readLengthLoop ilimit (ip ++ t) = .ok (length, rest ++ t) := by
  induction ip generalizing length with
  | nil => simp [readLengthLoop] at h
  | cons s ip ih =>
    have hlen : ¬ ip.length < ilimit := by
      intro hlt
      simp [readLengthLoop, hlt] at h
    have hlen' : ¬ (ip ++ t).length < ilimit := by
      rw [List.length_append]
      omega
    rw [List.cons_append, readLengthLoop, if_neg hlen']
    rw [readLengthLoop, if_neg hlen] at h
    by_cases hs : s = 255
    · rw [if_pos hs] at h ⊢
      cases hr : readLengthLoop ilimit ip with
      | error ip' => simp [hr] at h
      | ok r =>
        rcases r with ⟨length', rest'⟩
        simp only [hr, Except.ok.injEq, Prod.mk.injEq] at h
        obtain ⟨rfl, rfl⟩ := h
        simp only [ih hr]
    · rw [if_neg hs] at h ⊢
      simp only [Except.ok.injEq, Prod.mk.injEq] at h
      obtain ⟨rfl, rfl⟩ := h
      rfl

theorem read_variable_length_append {ip rest : List UInt8} {ilimit length : Nat} {c : Bool}
    (h : read_variable_length ip ilimit c = .ok (length, rest)) (t : List UInt8) :
    read_variable_length (ip ++ t) ilimit c = .ok (length, rest ++ t) := by
  unfold read_variable_length at h ⊢
  cases c with
  | false => exact readLengthLoop_append h t
  | true =>
    simp only [Bool.true_and, decide_eq_true_eq, List.length_append] at h ⊢
    by_cases hc : ip.length ≤ ilimit
    · simp [hc] at h
    · rw [if_neg hc] at h
      rw [if_neg (by omega)]
      exact readLengthLoop_append h t

theorem readLengthLoop_length_le {ilimit : Nat} {ip rest : List UInt8} {length : Nat}
    (h : readLengthLoop ilimit ip = .ok (length, rest)) : rest.length < ip.length := by
  induction ip generalizing length with
  | nil => simp [readLengthLoop] at h
  | cons s ip ih =>
    rw [readLengthLoop] at h
    split_ifs at h with hlt hs
    · cases hr : readLengthLoop ilimit ip with
      | error ip' => simp [hr] at h
      | ok r =>
        simp only [hr, Except.ok.injEq, Prod.mk.injEq] at h
        obtain ⟨-, rfl⟩ := h
        exact Nat.lt_succ_of_lt (ih hr)
    · simp only [Except.ok.injEq, Prod.mk.injEq] at h
      obtain ⟨-, rfl⟩ := h
      exact Nat.lt_succ_self _

/-- The length of a match, with the bytes that extend it. -/
def matchLength (code : Nat) (ip : List UInt8) : Except (List UInt8) (Nat × List UInt8) :=
  if code = ML_MASK then
    match read_variable_length ip (LASTLITERALS - 1) false with
    | .error ip' => .error ip'
    | .ok (addl, ip') => .ok (code + addl + MINMATCH, ip')
  else .ok (code + MINMATCH, ip)

theorem matchLength_append {code : Nat} {ip rest : List UInt8} {length : Nat}
    (h : matchLength code ip = .ok (length, rest)) (t : List UInt8) :
    matchLength code (ip ++ t) = .ok (length, rest ++ t) := by
  unfold matchLength at h ⊢
  by_cases hc : code = ML_MASK
  · rw [if_pos hc] at h ⊢
    cases hr : read_variable_length ip (LASTLITERALS - 1) false with
    | error ip' => simp [hr] at h
    | ok r =>
      rcases r with ⟨addl, ip'⟩
      simp only [hr, Except.ok.injEq, Prod.mk.injEq] at h
      obtain ⟨rfl, rfl⟩ := h
      simp only [read_variable_length_append hr t]
  · rw [if_neg hc] at h ⊢
    simp only [Except.ok.injEq, Prod.mk.injEq] at h
    obtain ⟨rfl, rfl⟩ := h
    rfl

theorem matchLength_of_ne {code : Nat} (hc : code ≠ ML_MASK) (ip : List UInt8) :
    matchLength code ip = .ok (code + MINMATCH, ip) := if_neg hc

/-! ## One iteration -/

/-- A match the main loop accepts: in reach, and ending before the last five bytes of `dst`. -/
def matchAllowed (P : DecodeCall) (offset length : Nat) (out : List UInt8) : Prop :=
  (P.checkOffset = true → offset ≤ P.lowPrefix.length + out.length + P.dictStart.length) ∧
    out.length + length + LASTLITERALS ≤ P.outputSize

instance (P : DecodeCall) (offset length : Nat) (out : List UInt8) :
    Decidable (matchAllowed P offset length out) := by
  unfold matchAllowed
  infer_instance

theorem safeMatchCopy_eq (P : DecodeCall) (offset length : Nat) (ip out : List UInt8) :
    safeMatchCopy P offset length ip out =
      if matchAllowed P offset length out then
        .next false ip (out ++ matchBytes (P.history ++ out) offset length)
      else .outputError ip := by
  by_cases hreach : P.checkOffset = true →
      offset ≤ P.lowPrefix.length + out.length + P.dictStart.length
  · have hnear : ¬ (P.checkOffset = true ∧
        P.lowPrefix.length + out.length + P.dictStart.length < offset) :=
      fun h => Nat.not_lt.2 (hreach h.1) h.2
    have hguard : (P.outputSize < out.length + length + MATCH_SAFEGUARD_DISTANCE ∧
        P.outputSize < out.length + length + LASTLITERALS) ↔
        P.outputSize < out.length + length + LASTLITERALS := by
      simp only [LASTLITERALS, MATCH_SAFEGUARD_DISTANCE]
      omega
    simp only [safeMatchCopy, if_neg hnear, hguard, ite_self]
    by_cases hfit : out.length + length + LASTLITERALS ≤ P.outputSize
    · have hallowed : matchAllowed P offset length out := ⟨hreach, hfit⟩
      rw [if_pos hallowed, if_neg (Nat.not_lt.2 hfit)]
    · have hallowed : ¬ matchAllowed P offset length out := fun h => hfit h.2
      rw [if_neg hallowed, if_pos (Nat.lt_of_not_le hfit)]
  · have hallowed : ¬ matchAllowed P offset length out := fun h => hreach h.1
    rw [Classical.not_imp, not_le] at hreach
    rw [safeMatchCopy, if_pos hreach, if_neg hallowed]

theorem copyMatch_eq (P : DecodeCall) (code offset : Nat) (ip out : List UInt8) :
    copyMatch P code offset ip out =
      match matchLength code ip with
      | .error ip' => .outputError ip'
      | .ok (length, ip') => safeMatchCopy P offset length ip' out := by
  unfold copyMatch matchLength
  by_cases hc : code = ML_MASK
  · simp only [if_pos hc]
    cases read_variable_length ip (LASTLITERALS - 1) false with
    | error ip' => rfl
    | ok r => rfl
  · simp only [if_neg hc]

theorem copyMatch_next {P : DecodeCall} {code offset : Nat} {ip out ip' out' : List UInt8}
    {fast : Bool} (h : copyMatch P code offset ip out = .next fast ip' out') :
    ∃ length, matchLength code ip = .ok (length, ip') ∧ matchAllowed P offset length out ∧
      fast = false ∧ out' = out ++ matchBytes (P.history ++ out) offset length := by
  rw [copyMatch_eq] at h
  cases hm : matchLength code ip with
  | error e => simp [hm] at h
  | ok r =>
    rcases r with ⟨length, rest⟩
    simp only [hm, safeMatchCopy_eq] at h
    by_cases ha : matchAllowed P offset length out
    · rw [if_pos ha] at h
      injection h with hf hip hout
      subst hip
      exact ⟨length, rfl, ha, hf.symm, hout.symm⟩
    · rw [if_neg ha] at h
      exact Step.noConfusion h

theorem copyMatch_of_allowed {P : DecodeCall} {code offset length : Nat}
    {ip ip' out : List UInt8} (hm : matchLength code ip = .ok (length, ip'))
    (ha : matchAllowed P offset length out) :
    copyMatch P code offset ip out =
      .next false ip' (out ++ matchBytes (P.history ++ out) offset length) := by
  rw [copyMatch_eq, hm]
  simp only [safeMatchCopy_eq, if_pos ha]

theorem copyMatch_ne_finished (P : DecodeCall) (code offset : Nat) (ip out o : List UInt8) :
    copyMatch P code offset ip out ≠ .finished o := by
  rw [copyMatch_eq]
  cases matchLength code ip with
  | error e => exact Step.noConfusion
  | ok r =>
    simp only [safeMatchCopy_eq]
    split_ifs <;> exact Step.noConfusion

/-! ## Sequences -/

/-- The number of literals of a token, with the bytes that extend it. -/
def literalLength (token : UInt8) (ip : List UInt8) :
    Except (List UInt8) (Nat × List UInt8) :=
  if token.toNat / 16 = RUN_MASK then
    match read_variable_length ip RUN_MASK true with
    | .error ip' => .error ip'
    | .ok (addl, ip') => .ok (token.toNat / 16 + addl, ip')
  else .ok (token.toNat / 16, ip)

theorem literalLength_of_ne {token : UInt8} (h : token.toNat / 16 ≠ RUN_MASK)
    (ip : List UInt8) : literalLength token ip = .ok (token.toNat / 16, ip) := if_neg h

theorem literalLength_append {token : UInt8} {ip rest : List UInt8} {length : Nat}
    (h : literalLength token ip = .ok (length, rest)) (t : List UInt8) :
    literalLength token (ip ++ t) = .ok (length, rest ++ t) := by
  unfold literalLength at h ⊢
  by_cases hc : token.toNat / 16 = RUN_MASK
  · rw [if_pos hc] at h ⊢
    cases hr : read_variable_length ip RUN_MASK true with
    | error ip' => simp [hr] at h
    | ok r =>
      rcases r with ⟨addl, ip'⟩
      simp only [hr, Except.ok.injEq, Prod.mk.injEq] at h
      obtain ⟨rfl, rfl⟩ := h
      simp only [read_variable_length_append hr t]
  · rw [if_neg hc] at h ⊢
    simp only [Except.ok.injEq, Prod.mk.injEq] at h
    obtain ⟨rfl, rfl⟩ := h
    rfl

theorem read_variable_length_length_le {ip rest : List UInt8} {ilimit length : Nat} {c : Bool}
    (h : read_variable_length ip ilimit c = .ok (length, rest)) : rest.length < ip.length := by
  unfold read_variable_length at h
  split_ifs at h
  exact readLengthLoop_length_le h

theorem literalLength_length_le {token : UInt8} {ip rest : List UInt8} {length : Nat}
    (h : literalLength token ip = .ok (length, rest)) : rest.length ≤ ip.length := by
  unfold literalLength at h
  split_ifs at h
  · cases hr : read_variable_length ip RUN_MASK true with
    | error ip' => simp [hr] at h
    | ok r =>
      simp only [hr, Except.ok.injEq, Prod.mk.injEq] at h
      obtain ⟨-, rfl⟩ := h
      exact Nat.le_of_lt (read_variable_length_length_le hr)
  · simp only [Except.ok.injEq, Prod.mk.injEq] at h
    obtain ⟨-, rfl⟩ := h
    exact Nat.le_refl _

theorem matchLength_length_le {code : Nat} {ip rest : List UInt8} {length : Nat}
    (h : matchLength code ip = .ok (length, rest)) : rest.length ≤ ip.length := by
  unfold matchLength at h
  split_ifs at h
  · cases hr : read_variable_length ip (LASTLITERALS - 1) false with
    | error ip' => simp [hr] at h
    | ok r =>
      simp only [hr, Except.ok.injEq, Prod.mk.injEq] at h
      obtain ⟨-, rfl⟩ := h
      exact Nat.le_of_lt (read_variable_length_length_le hr)
  · simp only [Except.ok.injEq, Prod.mk.injEq] at h
    obtain ⟨-, rfl⟩ := h
    exact Nat.le_refl _

/-- A sequence as it stands in a block: the token, the bytes after it, the literals, the two
offset bytes, the bytes after them, and the match length with the bytes after the sequence. -/
structure Sequence where
  token : UInt8
  afterToken : List UInt8
  literals : List UInt8
  b0 : UInt8
  b1 : UInt8
  afterOffset : List UInt8
  matchLen : Nat
  rest : List UInt8

namespace Sequence

def offset (s : Sequence) : Nat := leNat [s.b0, s.b1]

/-- The input starts with the sequence. -/
structure At (s : Sequence) (ip : List UInt8) : Prop where
  token_eq : ip = s.token :: s.afterToken
  literals_eq : literalLength s.token s.afterToken =
    .ok (s.literals.length, s.literals ++ s.b0 :: s.b1 :: s.afterOffset)
  match_eq : matchLength (s.token.toNat % 16) s.afterOffset = .ok (s.matchLen, s.rest)

/-- The sequence followed by more input. -/
def append (s : Sequence) (t : List UInt8) : Sequence :=
  { s with
    afterToken := s.afterToken ++ t
    afterOffset := s.afterOffset ++ t
    rest := s.rest ++ t }

/-- The first stage of the shortcut: the literals are copied in one go. -/
def quickLiterals (P : DecodeCall) (token : UInt8) (afterToken out : List UInt8) : Prop :=
  token.toNat / 16 ≠ RUN_MASK ∧ 16 < afterToken.length ∧ out.length + 32 ≤ P.outputSize

instance (P : DecodeCall) (token : UInt8) (afterToken out : List UInt8) :
    Decidable (quickLiterals P token afterToken out) := by
  unfold quickLiterals
  infer_instance

/-- The second stage: the match is copied in one go. -/
def quickMatch (P : DecodeCall) (token : UInt8) (offset : Nat) (out : List UInt8) : Prop :=
  token.toNat % 16 ≠ ML_MASK ∧ 8 ≤ offset ∧
    (P.dict = .withPrefix64k ∨ offset ≤ P.lowPrefix.length + out.length)

instance (P : DecodeCall) (token : UInt8) (offset : Nat) (out : List UInt8) :
    Decidable (quickMatch P token offset out) := by
  unfold quickMatch
  infer_instance

/-- The sequence is decoded with `out` written so far. -/
def Accepted (P : DecodeCall) (s : Sequence) (out : List UInt8) : Prop :=
  (quickLiterals P s.token s.afterToken out ∧
    quickMatch P s.token s.offset (out ++ s.literals)) ∨
  ((quickLiterals P s.token s.afterToken out ∨
      (out.length + s.literals.length + MFLIMIT ≤ P.outputSize ∧
        LASTLITERALS + 1 ≤ s.afterOffset.length)) ∧
    matchAllowed P s.offset s.matchLen (out ++ s.literals))

/-- The output after the sequence. -/
def apply (P : DecodeCall) (s : Sequence) (out : List UInt8) : List UInt8 :=
  out ++ s.literals ++ matchBytes (P.history ++ (out ++ s.literals)) s.offset s.matchLen

theorem At.append {s : Sequence} {ip : List UInt8} (h : s.At ip) (t : List UInt8) :
    (s.append t).At (ip ++ t) where
  token_eq := by rw [h.token_eq]; rfl
  literals_eq := by
    have hl := literalLength_append h.literals_eq t
    rwa [List.append_assoc] at hl
  match_eq := matchLength_append h.match_eq t

theorem Accepted.append {P : DecodeCall} {s : Sequence} {out : List UInt8}
    (h : s.Accepted P out) (t : List UInt8) : (s.append t).Accepted P out := by
  have hquick : quickLiterals P s.token s.afterToken out →
      quickLiterals P s.token (s.afterToken ++ t) out :=
    fun q => ⟨q.1, Nat.lt_of_lt_of_le q.2.1 (by rw [List.length_append]; omega), q.2.2⟩
  rcases h with ⟨hq, hm⟩ | ⟨hq | ⟨hc, hr⟩, hm⟩
  · exact Or.inl ⟨hquick hq, hm⟩
  · exact Or.inr ⟨Or.inl (hquick hq), hm⟩
  · refine Or.inr ⟨Or.inr ⟨hc, ?_⟩, hm⟩
    exact Nat.le_trans hr (by simp only [Sequence.append, List.length_append]; omega)

theorem At.rest_length_lt {s : Sequence} {ip : List UInt8} (h : s.At ip) :
    s.rest.length < ip.length := by
  have hm := matchLength_length_le h.match_eq
  have hl := literalLength_length_le h.literals_eq
  rw [h.token_eq, List.length_cons]
  simp only [List.length_append, List.length_cons] at hl
  omega

theorem length_apply (P : DecodeCall) (s : Sequence) (out : List UInt8) :
    (s.apply P out).length = out.length + s.literals.length + s.matchLen := by
  simp [apply, Nat.add_assoc]

theorem At.matchLen_le_of_quick {s : Sequence} {ip : List UInt8} (h : s.At ip)
    (hq : s.token.toNat % 16 ≠ ML_MASK) : s.matchLen ≤ 18 := by
  have hm := h.match_eq
  rw [matchLength_of_ne hq, Except.ok.injEq, Prod.mk.injEq] at hm
  have h16 := Nat.mod_lt s.token.toNat (Nat.zero_lt_succ 15)
  have h4 : MINMATCH = 4 := rfl
  have h15 : ML_MASK = 15 := rfl
  omega

theorem At.literals_le_of_quick {s : Sequence} {ip : List UInt8} (h : s.At ip)
    (hq : s.token.toNat / 16 ≠ RUN_MASK) : s.literals.length ≤ 14 := by
  have hl := h.literals_eq
  rw [literalLength_of_ne hq, Except.ok.injEq, Prod.mk.injEq] at hl
  have h256 := s.token.toNat_lt
  have h15 : RUN_MASK = 15 := rfl
  omega

/-- A decoded sequence stays within the capacity. -/
theorem length_apply_le {P : DecodeCall} {s : Sequence} {ip out : List UInt8} (h : s.At ip)
    (ha : s.Accepted P out) : (s.apply P out).length ≤ P.outputSize := by
  rw [length_apply]
  rcases ha with ⟨hq, hm⟩ | ⟨-, hm⟩
  · have hl := h.literals_le_of_quick hq.1
    have hmatch := h.matchLen_le_of_quick hm.1
    have hroom := hq.2.2
    omega
  · have hfit := hm.2
    rw [List.length_append] at hfit
    omega

end Sequence

/-! ## One iteration of the main loop -/

theorem safeStep_cons (P : DecodeCall) (token : UInt8) (ip out : List UInt8) :
    safeStep P (token :: ip) out =
      if Sequence.quickLiterals P token ip out then
        match ip.drop (token.toNat / 16) with
        | b0 :: b1 :: ip' =>
          let out' := out ++ ip.take (token.toNat / 16)
          if Sequence.quickMatch P token (leNat [b0, b1]) out' then
            .next false ip' (out' ++ matchBytes (P.history ++ out') (leNat [b0, b1])
              (token.toNat % 16 + MINMATCH))
          else copyMatch P (token.toNat % 16) (leNat [b0, b1]) ip' out'
        | _ => .outputError ip
      else
        match literalLength token ip with
        | .error ip' => .outputError ip'
        | .ok (length, ip') => safeLiteralCopy P token length ip' out := by
  have hq : Sequence.quickLiterals P token ip out ↔
      token.toNat / 16 ≠ RUN_MASK ∧ 16 < ip.length ∧ out.length + 32 ≤ P.outputSize := Iff.rfl
  rw [safeStep]
  by_cases hquick : Sequence.quickLiterals P token ip out
  · rw [if_pos hquick]
    simp only [if_pos (hq.1 hquick)]
    rfl
  · rw [if_neg hquick]
    simp only [if_neg (fun h => hquick (hq.2 h)), literalLength]
    by_cases hc : token.toNat / 16 = RUN_MASK
    · simp only [if_pos hc]
      cases read_variable_length ip RUN_MASK true with
      | error ip' => rfl
      | ok r => rfl
    · simp only [if_neg hc]

theorem copyMatch_next_iff {P : DecodeCall} {code offset : Nat} {ip out ip' out' : List UInt8}
    {fast : Bool} :
    copyMatch P code offset ip out = .next fast ip' out' ↔
      ∃ length, matchLength code ip = .ok (length, ip') ∧ matchAllowed P offset length out ∧
        fast = false ∧ out' = out ++ matchBytes (P.history ++ out) offset length := by
  constructor
  · exact copyMatch_next
  · rintro ⟨length, hm, ha, rfl, rfl⟩
    exact copyMatch_of_allowed hm ha

theorem take_append_of_drop_eq {n : Nat} {ip : List UInt8} {b0 b1 : UInt8} {r : List UInt8}
    (h : ip.drop n = b0 :: b1 :: r) :
    (ip.take n).length = n ∧ ip = ip.take n ++ b0 :: b1 :: r := by
  have hlen : (ip.drop n).length = r.length + 2 := by rw [h]; rfl
  rw [List.length_drop] at hlen
  refine ⟨?_, ?_⟩
  · rw [List.length_take]
    omega
  · rw [← h, List.take_append_drop]

theorem safeLiteralCopy_next {P : DecodeCall} {token : UInt8} {length : Nat}
    {ip out ip' out' : List UInt8} {fast : Bool}
    (h : safeLiteralCopy P token length ip out = .next fast ip' out') :
    out.length + length + MFLIMIT ≤ P.outputSize ∧ length + (LASTLITERALS + 3) ≤ ip.length ∧
      ∃ b0 b1 r, ip.drop length = b0 :: b1 :: r ∧
        copyMatch P (token.toNat % 16) (leNat [b0, b1]) r (out ++ ip.take length) =
          .next fast ip' out' := by
  unfold safeLiteralCopy at h
  by_cases hlast : P.outputSize < out.length + length + MFLIMIT ∨
      ip.length < length + (2 + 1 + LASTLITERALS)
  · rw [if_pos hlast] at h
    split_ifs at h
  · rw [if_neg hlast] at h
    rw [not_or, Nat.not_lt, Nat.not_lt] at hlast
    refine ⟨hlast.1, by omega, ?_⟩
    cases hd : ip.drop length with
    | nil => simp [hd] at h
    | cons b0 l =>
      cases l with
      | nil => simp [hd] at h
      | cons b1 r =>
        simp only [hd] at h
        exact ⟨b0, b1, r, rfl, h⟩

theorem safeLiteralCopy_of_room {P : DecodeCall} {token b0 b1 : UInt8} {lits r out : List UInt8}
    (hc : out.length + lits.length + MFLIMIT ≤ P.outputSize)
    (hr : LASTLITERALS + 1 ≤ r.length) :
    safeLiteralCopy P token lits.length (lits ++ b0 :: b1 :: r) out =
      copyMatch P (token.toNat % 16) (leNat [b0, b1]) r (out ++ lits) := by
  have hlast : ¬ (P.outputSize < out.length + lits.length + MFLIMIT ∨
      (lits ++ b0 :: b1 :: r).length < lits.length + (2 + 1 + LASTLITERALS)) := by
    simp only [List.length_append, List.length_cons]
    omega
  rw [safeLiteralCopy, if_neg hlast, List.drop_left, List.take_left]

theorem safeLiteralCopy_finished_iff {P : DecodeCall} {token : UInt8} {length : Nat}
    {ip out out' : List UInt8} :
    safeLiteralCopy P token length ip out = .finished out' ↔
      ip.length = length ∧ out.length + length ≤ P.outputSize ∧ out' = out ++ ip := by
  unfold safeLiteralCopy
  by_cases hlast : P.outputSize < out.length + length + MFLIMIT ∨
      ip.length < length + (2 + 1 + LASTLITERALS)
  · rw [if_pos hlast]
    by_cases hbad : ip.length ≠ length ∨ P.outputSize < out.length + length
    · rw [if_pos hbad]
      refine ⟨fun h => Step.noConfusion h, ?_⟩
      rintro ⟨hl, hc, -⟩
      exact absurd hbad (by omega)
    · rw [if_neg hbad]
      rw [not_or, not_not, Nat.not_lt] at hbad
      exact ⟨fun h => ⟨hbad.1, hbad.2, (Step.finished.inj h).symm⟩,
        fun h => congrArg Step.finished h.2.2.symm⟩
  · rw [if_neg hlast]
    constructor
    · intro h
      cases hd : ip.drop length with
      | nil => simp [hd] at h
      | cons b0 l =>
        cases l with
        | nil => simp [hd] at h
        | cons b1 r =>
          simp only [hd] at h
          exact absurd h (copyMatch_ne_finished _ _ _ _ _ _)
    · rintro ⟨hl, -, -⟩
      exact absurd hlast (by omega)

/-- What one iteration of the main loop can do when it goes on. -/
theorem safeStep_next {P : DecodeCall} {ip out ip' out' : List UInt8} {fast : Bool}
    (h : safeStep P ip out = .next fast ip' out') :
    fast = false ∧ ∃ s : Sequence, s.At ip ∧ s.Accepted P out ∧ ip' = s.rest ∧
      out' = s.apply P out := by
  cases ip with
  | nil => exact Step.noConfusion h
  | cons token ip =>
    rw [safeStep_cons] at h
    by_cases hquick : Sequence.quickLiterals P token ip out
    · rw [if_pos hquick] at h
      have hlit := literalLength_of_ne hquick.1 ip
      cases hd : ip.drop (token.toNat / 16) with
      | nil => simp [hd] at h
      | cons b0 l =>
        cases l with
        | nil => simp [hd] at h
        | cons b1 r =>
          simp only [hd] at h
          obtain ⟨htake, hip⟩ := take_append_of_drop_eq hd
          have hlits : literalLength token ip = .ok ((ip.take (token.toNat / 16)).length,
              ip.take (token.toNat / 16) ++ b0 :: b1 :: r) := by
            rw [htake, ← hip, hlit]
          by_cases hmatch : Sequence.quickMatch P token (leNat [b0, b1])
              (out ++ ip.take (token.toNat / 16))
          · rw [if_pos hmatch] at h
            injection h with hf hi ho
            exact ⟨hf.symm, ⟨token, ip, ip.take (token.toNat / 16), b0, b1, r,
              token.toNat % 16 + MINMATCH, r⟩, ⟨rfl, hlits, matchLength_of_ne hmatch.1 r⟩,
              Or.inl ⟨hquick, hmatch⟩, hi.symm, ho.symm⟩
          · rw [if_neg hmatch] at h
            obtain ⟨length, hm, ha, hf, ho⟩ := copyMatch_next h
            exact ⟨hf, ⟨token, ip, ip.take (token.toNat / 16), b0, b1, r, length, ip'⟩,
              ⟨rfl, hlits, hm⟩, Or.inr ⟨Or.inl hquick, ha⟩, rfl, ho⟩
    · rw [if_neg hquick] at h
      cases hl : literalLength token ip with
      | error e => simp [hl] at h
      | ok p =>
        rcases p with ⟨n, q⟩
        simp only [hl] at h
        obtain ⟨hc, hlen, b0, b1, r, hd, hcopy⟩ := safeLiteralCopy_next h
        obtain ⟨htake, hq⟩ := take_append_of_drop_eq hd
        obtain ⟨length, hm, ha, hf, ho⟩ := copyMatch_next hcopy
        have hlits : literalLength token ip =
            .ok ((q.take n).length, q.take n ++ b0 :: b1 :: r) := by
          rw [htake, ← hq, hl]
        have hrest : LASTLITERALS + 1 ≤ r.length := by
          have hdl : (q.drop n).length = r.length + 2 := by rw [hd]; rfl
          rw [List.length_drop] at hdl
          omega
        exact ⟨hf, ⟨token, ip, q.take n, b0, b1, r, length, ip'⟩, ⟨rfl, hlits, hm⟩,
          Or.inr ⟨Or.inr ⟨by rw [htake]; exact hc, hrest⟩, ha⟩, rfl, ho⟩

theorem safeStep_of_accepted {P : DecodeCall} {s : Sequence} {ip out : List UInt8} (h : s.At ip)
    (ha : s.Accepted P out) : safeStep P ip out = .next false s.rest (s.apply P out) := by
  rw [h.token_eq, safeStep_cons]
  by_cases hquick : Sequence.quickLiterals P s.token s.afterToken out
  · rw [if_pos hquick]
    have hlit := h.literals_eq
    rw [literalLength_of_ne hquick.1, Except.ok.injEq, Prod.mk.injEq] at hlit
    obtain ⟨hn, hq⟩ := hlit
    have hd : s.afterToken.drop (s.token.toNat / 16) = s.b0 :: s.b1 :: s.afterOffset := by
      rw [hn, hq, List.drop_left]
    have ht : s.afterToken.take (s.token.toNat / 16) = s.literals := by
      rw [hn, hq, List.take_left]
    have hoff : leNat [s.b0, s.b1] = s.offset := rfl
    simp only [hd, ht, hoff]
    by_cases hmatch : Sequence.quickMatch P s.token s.offset (out ++ s.literals)
    · have hm := h.match_eq
      rw [matchLength_of_ne hmatch.1, Except.ok.injEq, Prod.mk.injEq] at hm
      rw [if_pos hmatch, hm.1, hm.2]
      rfl
    · rw [if_neg hmatch]
      rcases ha with ⟨-, hbad⟩ | ⟨-, hallowed⟩
      · exact absurd hbad hmatch
      · exact copyMatch_of_allowed h.match_eq hallowed
  · rw [if_neg hquick]
    simp only [h.literals_eq]
    rcases ha with ⟨hbad, -⟩ | ⟨hbad | ⟨hc, hr⟩, hallowed⟩
    · exact absurd hbad hquick
    · exact absurd hbad hquick
    · rw [safeLiteralCopy_of_room hc hr]
      exact copyMatch_of_allowed h.match_eq hallowed

/-- The last iteration copies literals up to the end of the block. -/
theorem safeStep_finished_iff {P : DecodeCall} {ip out out' : List UInt8} :
    safeStep P ip out = .finished out' ↔
      ∃ token afterToken lits, ip = token :: afterToken ∧
        literalLength token afterToken = .ok (lits.length, lits) ∧
        out.length + lits.length ≤ P.outputSize ∧ out' = out ++ lits := by
  cases ip with
  | nil =>
    refine ⟨fun h => Step.noConfusion h, ?_⟩
    rintro ⟨token, afterToken, lits, h, -⟩
    exact absurd h (List.cons_ne_nil _ _).symm
  | cons token ip =>
    rw [safeStep_cons]
    by_cases hquick : Sequence.quickLiterals P token ip out
    · rw [if_pos hquick]
      constructor
      · intro h
        cases hd : ip.drop (token.toNat / 16) with
        | nil => simp [hd] at h
        | cons b0 l =>
          cases l with
          | nil => simp [hd] at h
          | cons b1 r =>
            simp only [hd] at h
            split_ifs at h
            exact absurd h (copyMatch_ne_finished _ _ _ _ _ _)
      · -- a short literal run cannot reach the end of an input of more than 16 bytes
        rintro ⟨token', afterToken, lits, he, hl, -⟩
        obtain ⟨rfl, rfl⟩ := List.cons.inj he
        rw [literalLength_of_ne hquick.1, Except.ok.injEq, Prod.mk.injEq] at hl
        have h16 := hquick.2.1
        rw [hl.2, ← hl.1] at h16
        have h256 := token.toNat_lt
        omega
    · rw [if_neg hquick]
      cases hl : literalLength token ip with
      | error e =>
        refine ⟨fun h => Step.noConfusion h, ?_⟩
        rintro ⟨token', afterToken, lits, he, hl', -⟩
        obtain ⟨rfl, rfl⟩ := List.cons.inj he
        rw [hl] at hl'
        cases hl'
      | ok p =>
        rcases p with ⟨n, q⟩
        simp only [safeLiteralCopy_finished_iff]
        constructor
        · rintro ⟨rfl, hc, rfl⟩
          exact ⟨token, ip, q, rfl, hl, hc, rfl⟩
        · rintro ⟨token', afterToken, lits, he, hl', hc, rfl⟩
          obtain ⟨rfl, rfl⟩ := List.cons.inj he
          rw [hl, Except.ok.injEq, Prod.mk.injEq] at hl'
          obtain ⟨rfl, rfl⟩ := hl'
          exact ⟨rfl, hc, rfl⟩

/-! ## One iteration of the fast loop -/

/-- `LZ4_decompress_safe_withPrefix64k` is called with 64 KB, or all of it but one byte, of
history in front of `dst`. -/
def DecodeCall.PrefixComplete (P : DecodeCall) : Prop :=
  P.dict = .withPrefix64k → KB64 - 1 ≤ P.lowPrefix.length

/-- `a` is what the fast loop does where the main loop does `b`: errors may be noticed at another
place of the input, and the fast loop is left in time. -/
inductive FastAgrees (P : DecodeCall) : Step → Step → Prop where
  | outputError (ip ip' : List UInt8) : FastAgrees P (.outputError ip) (.outputError ip')
  | finished (out : List UInt8) : FastAgrees P (.finished out) (.finished out)
  | next (fast : Bool) (ip out : List UInt8)
      (room : fast = true → out.length + FASTLOOP_SAFE_DISTANCE ≤ P.outputSize) :
      FastAgrees P (.next fast ip out) (.next false ip out)

theorem FastAgrees.of_safe {P : DecodeCall} {st : Step}
    (h : ∀ fast ip out, st = .next fast ip out → fast = false) : FastAgrees P st st := by
  cases st with
  | outputError ip => exact .outputError ip ip
  | finished out => exact .finished out
  | next fast ip out =>
    obtain rfl := h fast ip out rfl
    exact .next false ip out (fun hf => Bool.noConfusion hf)

theorem fastMatchCopy_eq (P : DecodeCall) {offset length : Nat} (ip : List UInt8)
    {out : List UInt8}
    (hroom : ¬ P.outputSize ≤ out.length + length + FASTLOOP_SAFE_DISTANCE) :
    fastMatchCopy P offset length ip out =
      if matchAllowed P offset length out then
        .next true ip (out ++ matchBytes (P.history ++ out) offset length)
      else .outputError ip := by
  have h64 : FASTLOOP_SAFE_DISTANCE = 64 := rfl
  have h5 : LASTLITERALS = 5 := rfl
  have hfit : ¬ P.outputSize < out.length + length + LASTLITERALS := by omega
  by_cases hreach : P.checkOffset = true →
      offset ≤ P.lowPrefix.length + out.length + P.dictStart.length
  · have hnear : ¬ (P.checkOffset = true ∧
        P.lowPrefix.length + out.length + P.dictStart.length < offset) :=
      fun h => Nat.not_lt.2 (hreach h.1) h.2
    have hallowed : matchAllowed P offset length out := ⟨hreach, Nat.le_of_not_lt hfit⟩
    rw [fastMatchCopy, if_neg hnear, if_neg hfit, ite_self, if_pos hallowed]
  · have hallowed : ¬ matchAllowed P offset length out := fun h => hreach h.1
    rw [Classical.not_imp, not_le] at hreach
    rw [fastMatchCopy, if_pos hreach, if_neg hallowed]

theorem FastAgrees.matchCopy {P : DecodeCall} {offset length : Nat} (ip : List UInt8)
    {out : List UInt8}
    (hroom : ¬ P.outputSize ≤ out.length + length + FASTLOOP_SAFE_DISTANCE) :
    FastAgrees P (fastMatchCopy P offset length ip out)
      (safeMatchCopy P offset length ip out) := by
  rw [fastMatchCopy_eq P ip hroom, safeMatchCopy_eq]
  by_cases hallowed : matchAllowed P offset length out
  · rw [if_pos hallowed, if_pos hallowed]
    refine .next true _ _ (fun _ => ?_)
    rw [List.length_append, length_matchBytes]
    omega
  · rw [if_neg hallowed, if_neg hallowed]
    exact .outputError _ _

theorem safeMatchCopy_next {P : DecodeCall} {offset length : Nat} {ip out ip' out' : List UInt8}
    {fast : Bool} (h : safeMatchCopy P offset length ip out = .next fast ip' out') :
    fast = false := by
  rw [safeMatchCopy_eq] at h
  split_ifs at h
  injection h with hf
  exact hf.symm

/-- A match in reach is in reach for the 64 KB check too. -/
theorem matchAllowed_of_reach {P : DecodeCall} (hP : P.PrefixComplete) {offset length : Nat}
    {out : List UInt8} (ho : offset < KB64)
    (hreach : P.dict = .withPrefix64k ∨ offset ≤ P.lowPrefix.length + out.length)
    (hfit : out.length + length + LASTLITERALS ≤ P.outputSize) :
    matchAllowed P offset length out := by
  refine ⟨fun _ => ?_, hfit⟩
  rcases hreach with hd | hr
  · have hlow := hP hd
    omega
  · omega

/-- The match part of the fast loop against the main loop's `_copy_match:`. -/
theorem FastAgrees.copyMatch {P : DecodeCall} (hP : P.PrefixComplete) (token b0 b1 : UInt8)
    (ip out : List UInt8) :
    FastAgrees P (fastMatch P token (b0 :: b1 :: ip) out)
      (copyMatch P (token.toNat % 16) (leNat [b0, b1]) ip out) := by
  rw [copyMatch_eq]
  unfold fastMatch matchLength
  by_cases hc : token.toNat % 16 = ML_MASK
  · simp only [if_pos hc]
    cases read_variable_length ip (LASTLITERALS - 1) false with
    | error ip' => exact .outputError _ _
    | ok r =>
      rcases r with ⟨addl, ip'⟩
      by_cases hfar : P.checkOffset = true ∧
          P.lowPrefix.length + out.length + P.dictStart.length < leNat [b0, b1]
      · simp only [if_pos hfar, safeMatchCopy]
        exact .outputError _ _
      · simp only [if_neg hfar]
        split_ifs with hroom
        · exact .of_safe (fun _ _ _ h => safeMatchCopy_next h)
        · exact .matchCopy ip' hroom
  · simp only [if_neg hc]
    split_ifs with hroom hquick
    · exact .of_safe (fun _ _ _ h => safeMatchCopy_next h)
    · have h64 : FASTLOOP_SAFE_DISTANCE = 64 := rfl
      have h5 : LASTLITERALS = 5 := rfl
      have hallowed : matchAllowed P (leNat [b0, b1]) (token.toNat % 16 + MINMATCH) out :=
        matchAllowed_of_reach hP (leNat_pair_lt b0 b1) hquick.1 (by omega)
      rw [safeMatchCopy_eq, if_pos hallowed]
      refine .next true _ _ (fun _ => ?_)
      rw [List.length_append, length_matchBytes]
      omega
    · exact .matchCopy ip hroom

/-- With room left the main loop's shortcut makes no difference: the match is decoded as from
`_copy_match:` on. -/
theorem copyMatch_of_quickMatch {P : DecodeCall} (hP : P.PrefixComplete) {token b0 b1 : UInt8}
    {ip out : List UInt8} (hquick : Sequence.quickMatch P token (leNat [b0, b1]) out)
    (hroom : out.length + 23 ≤ P.outputSize) :
    copyMatch P (token.toNat % 16) (leNat [b0, b1]) ip out =
      .next false ip (out ++ matchBytes (P.history ++ out) (leNat [b0, b1])
        (token.toNat % 16 + MINMATCH)) := by
  have h16 := Nat.mod_lt token.toNat (Nat.zero_lt_succ 15)
  have h15 : ML_MASK = 15 := rfl
  have h4 : MINMATCH = 4 := rfl
  have h5 : LASTLITERALS = 5 := rfl
  have hne := hquick.1
  exact copyMatch_of_allowed (matchLength_of_ne hne ip)
    (matchAllowed_of_reach hP (leNat_pair_lt b0 b1) hquick.2.2 (by omega))

theorem copyMatch_fast {P : DecodeCall} {code offset : Nat} {ip out : List UInt8} :
    ∀ fast ip' out', copyMatch P code offset ip out = .next fast ip' out' → fast = false :=
  fun _ _ _ h => (copyMatch_next h).choose_spec.2.2.1

theorem safeLiteralCopy_fast {P : DecodeCall} {token : UInt8} {length : Nat}
    {ip out : List UInt8} :
    ∀ fast ip' out', safeLiteralCopy P token length ip out = .next fast ip' out' →
      fast = false := by
  intro fast ip' out' h
  obtain ⟨-, -, b0, b1, r, -, hcopy⟩ := safeLiteralCopy_next h
  exact copyMatch_fast fast ip' out' hcopy

theorem FastAgrees.step {P : DecodeCall} (hP : P.PrefixComplete) (ip : List UInt8)
    {out : List UInt8} (hroom : out.length + FASTLOOP_SAFE_DISTANCE ≤ P.outputSize) :
    FastAgrees P (fastStep P ip out) (safeStep P ip out) := by
  have h64 : FASTLOOP_SAFE_DISTANCE = 64 := rfl
  have h12 : MFLIMIT = 12 := rfl
  have h5 : LASTLITERALS = 5 := rfl
  have h15 : RUN_MASK = 15 := rfl
  cases ip with
  | nil => exact .outputError [] []
  | cons token ip =>
    rw [safeStep_cons, fastStep]
    by_cases hc : token.toNat / 16 = RUN_MASK
    · have hslow : ¬ Sequence.quickLiterals P token ip out := fun h => h.1 hc
      simp only [if_pos hc, if_neg hslow, literalLength]
      cases read_variable_length ip RUN_MASK true with
      | error ip' => exact .outputError _ _
      | ok r =>
        rcases r with ⟨addl, q⟩
        simp only []
        split_ifs with hend
        · exact .of_safe safeLiteralCopy_fast
        · rw [not_or, Nat.not_lt, Nat.not_lt] at hend
          have hlast : ¬ (P.outputSize < out.length + (token.toNat / 16 + addl) + MFLIMIT ∨
              q.length < token.toNat / 16 + addl + (2 + 1 + LASTLITERALS)) := by
            omega
          rw [safeLiteralCopy, if_neg hlast]
          have hlen : (q.drop (token.toNat / 16 + addl)).length =
            q.length - (token.toNat / 16 + addl) := List.length_drop
          cases hd : q.drop (token.toNat / 16 + addl) with
          | nil =>
            rw [hd, List.length_nil] at hlen
            omega
          | cons b0 l =>
            cases l with
            | nil =>
              rw [hd, List.length_singleton] at hlen
              omega
            | cons b1 r => exact .copyMatch hP token b0 b1 r _
    · simp only [if_neg hc]
      by_cases hshort : ip.length < 16 + 1
      · have hslow : ¬ Sequence.quickLiterals P token ip out :=
          fun h => Nat.not_lt.2 (Nat.succ_le_of_lt h.2.1) hshort
        rw [if_pos hshort, if_neg hslow, literalLength_of_ne hc]
        exact .of_safe safeLiteralCopy_fast
      · have hquick : Sequence.quickLiterals P token ip out := ⟨hc, by omega, by omega⟩
        have hnibble : token.toNat / 16 ≤ 14 := by
          have h256 := token.toNat_lt
          omega
        rw [if_neg hshort, if_pos hquick]
        have hlen : (ip.drop (token.toNat / 16)).length = ip.length - token.toNat / 16 :=
          List.length_drop
        cases hd : ip.drop (token.toNat / 16) with
        | nil =>
          rw [hd, List.length_nil] at hlen
          omega
        | cons b0 l =>
          cases l with
          | nil =>
            rw [hd, List.length_singleton] at hlen
            omega
          | cons b1 r =>
            have hout : (out ++ ip.take (token.toNat / 16)).length + 23 ≤ P.outputSize := by
              rw [List.length_append, List.length_take]
              omega
            simp only []
            split_ifs with hmatch
            · rw [← copyMatch_of_quickMatch hP hmatch hout]
              exact .copyMatch hP token b0 b1 r _
            · exact .copyMatch hP token b0 b1 r _

end PythonLz4.Block.DecompressGeneric
