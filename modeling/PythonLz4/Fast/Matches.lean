import PythonLz4.Fast.Sequences

/-!
# The matches the compressor finds

`win` is the history followed by the source, the string the decoder will see. An entry of the hash
table is an index into it, of this call or of an earlier one; what has to be known of an old entry
is `Fits`. `Matched` says that a match in hand is a repetition in the window at its offset. The
search finds one (`search_spec`), catching up and counting extend it (`Matched.caught`,
`countMatch_spec`). The count is at least what has been compared before, so the table never holds
an index ahead of the next position.
-/

set_option autoImplicit false

namespace PythonLz4.Fast.Matches

open PythonLz4.Lib.ByteMemory
open PythonLz4.Lib.LongestMatch
open PythonLz4.Block.DecompressGeneric
open PythonLz4.Frame.CompressionContext (tableType_t LZ4_64Klimit)
open PythonLz4.Fast.MatchLength
open PythonLz4.Fast.CompressGeneric

variable {C : CompressCall}

/-! ## The window -/

/-- Where the history begins. -/
def dictStart (C : CompressCall) : Nat :=
  if C.dictDirective = .usingExtDict then C.dictionary else C.source - C.dictSize

/-- The bytes a match can refer to besides the source. -/
def history (C : CompressCall) : List UInt8 := load C.mem (dictStart C) C.dictSize

/-- The first `n` bytes of the source. -/
def text (C : CompressCall) (n : Nat) : List UInt8 := load C.mem C.source n

/-- The byte at a place of the history followed by the source. -/
def win (C : CompressCall) (j : Nat) : UInt8 :=
  if j < C.dictSize then C.mem (dictStart C + j) else C.mem (C.source + (j - C.dictSize))

/-- What holds of the arguments of a call: indexes fit in the table and in a `U32`, the history
lies where the directive says, and an external dictionary does not begin where the source does,
unless it is as long: `lowLimit` tells the two segments apart. -/
structure Valid (C : CompressCall) : Prop where
  index_lt : C.startIndex + C.inputSize < 2 ^ 32
  byU16_lt : C.tableType = .byU16 → C.startIndex + C.inputSize < LZ4_64Klimit
  dictSize_le : C.dictSize ≤ C.startIndex
  noDict : C.dictDirective = .noDict → C.dictSize = 0
  prefix_le : C.dictDirective = .withPrefix64k → C.dictSize ≤ C.source
  apart : C.dictDirective = .usingExtDict → C.dictionary ≠ C.source ∨ C.inputSize ≤ C.dictSize
  acceleration_pos : 0 < C.acceleration

theorem Valid.dictSize_le_source (h : Valid C) (hd : C.dictDirective ≠ .usingExtDict) :
    C.dictSize ≤ C.source := by
  cases hdir : C.dictDirective with
  | noDict =>
    rw [h.noDict hdir]
    exact Nat.zero_le _
  | withPrefix64k => exact h.prefix_le hdir
  | usingExtDict => exact absurd hdir hd

/-- The window behind the history is the source. -/
theorem win_source {p : Nat} (hp : C.source ≤ p) :
    win C (C.dictSize + (p - C.source)) = C.mem p := by
  rw [win, if_neg (Nat.not_lt.2 (Nat.le_add_right _ _)), Nat.add_sub_cancel_left,
    Nat.add_sub_cancel' hp]

/-- Without an external dictionary the window is one piece of memory. -/
theorem win_segment (h : Valid C) (hd : C.dictDirective ≠ .usingExtDict) {p j : Nat}
    (hp : C.dictSize + p = C.source + j) : win C j = C.mem p := by
  have hle := h.dictSize_le_source hd
  rw [win, dictStart, if_neg hd]
  split_ifs with hj
  · congr 1
    omega
  · congr 1
    omega

theorem win_dictionary (hd : C.dictDirective = .usingExtDict) {j : Nat} (hj : j < C.dictSize) :
    win C j = C.mem (C.dictionary + j) := by
  rw [win, if_pos hj, dictStart, if_pos hd]

@[simp] theorem length_history (C : CompressCall) : (history C).length = C.dictSize :=
  length_load _ _ _

@[simp] theorem length_text (C : CompressCall) (n : Nat) : (text C n).length = n :=
  length_load _ _ _

theorem text_add (C : CompressCall) (m n : Nat) :
    text C (m + n) = text C m ++ load C.mem (C.source + m) n := load_add _ _ _ _

/-- The history followed by the source, place by place. -/
theorem getElem?_history_text {n j : Nat} (hj : j < C.dictSize + n) :
    (history C ++ text C n)[j]? = some (win C j) := by
  rw [win]
  split_ifs with h
  · rw [List.getElem?_append_left (by rwa [length_history]), history, getElem?_load _ _ h]
  · rw [List.getElem?_append_right (by rw [length_history]; omega), length_history, text,
      getElem?_load _ _ (by omega)]

/-! ## Entries of the table -/

/-- An entry of an earlier call that is not sorted out lies in the history; in an external
dictionary, with four bytes to be read. -/
def Fits (C : CompressCall) (e : Nat) : Prop :=
  ¬ (C.dictSmall = true ∧ e < C.prefixIdxLimit) →
    ¬ (C.tableType ≠ .byU16 ∧ (e + LZ4_DISTANCE_MAX) % 2 ^ 32 < C.startIndex) →
      C.startIndex ≤ e + C.dictSize ∧
        (C.dictDirective = .usingExtDict → e + MINMATCH ≤ C.startIndex)

/-- Every entry is an old one, or the index of a position before `p`. -/
def Entries (C : CompressCall) (old : Nat → Prop) (hashTable : HashTable) (p : Nat) : Prop :=
  ∀ h, (old (hashTable h) ∧ hashTable h < C.startIndex) ∨
    ∃ q, C.source ≤ q ∧ q < p ∧ hashTable h = C.startIndex + (q - C.source)

theorem Entries.mono {old : Nat → Prop} {hashTable : HashTable} {p q : Nat}
    (h : Entries C old hashTable p) (hpq : p ≤ q) : Entries C old hashTable q := by
  intro i
  rcases h i with hold | ⟨r, hr, hlt, heq⟩
  · exact Or.inl hold
  · exact Or.inr ⟨r, hr, Nat.lt_of_lt_of_le hlt hpq, heq⟩

theorem index_eq (hv : Valid C) {p : Nat} (hp : C.source ≤ p) (hend : p ≤ C.iend) :
    C.index p = C.startIndex + (p - C.source) := by
  have hlt := hv.index_lt
  rw [CompressCall.iend] at hend
  rw [CompressCall.index, Nat.mod_eq_of_lt (by omega)]

/-- Indexes of positions that are hashed are kept as they are. -/
theorem stored_index (hv : Valid C) {p : Nat} (hp : C.source ≤ p) (hend : p + MFLIMIT ≤ C.iend) :
    stored C.tableType (C.index p) = C.startIndex + (p - C.source) := by
  have hlt := hv.index_lt
  have h12 : MFLIMIT = 12 := rfl
  have h64 : LZ4_64Klimit = 65547 := rfl
  rw [index_eq hv hp (by omega), stored]
  rw [CompressCall.iend] at hend
  split_ifs with h16
  · have hle := hv.byU16_lt h16
    rw [Nat.mod_eq_of_lt (by omega)]
  · rw [Nat.mod_eq_of_lt (by omega)]

/-- A position is put into the table. -/
theorem Entries.put {old : Nat → Prop} {hashTable : HashTable} {p q : Nat} (hv : Valid C)
    (h : Entries C old hashTable q) (hp : C.source ≤ p) (hpq : p < q)
    (hend : p + MFLIMIT ≤ C.iend) : Entries C old (C.putPosition p hashTable) q := by
  intro i
  rw [CompressCall.putPosition, LZ4_putIndexOnHash]
  by_cases hi : i = C.hash p
  · subst hi
    rw [Function.update_self, stored_index hv hp hend]
    exact Or.inr ⟨p, hp, hpq, rfl⟩
  · rw [Function.update_of_ne hi]
    exact h i

/-! ## A match in hand -/

/-- The place in the window that is `d` bytes in front of `ip`. -/
def place (C : CompressCall) (ip d : Nat) : Nat := C.dictSize + (ip - C.source) - d

/-- The segment of memory `match` lies in: the external dictionary, where `n` bytes are left behind
it, or the one that goes on with the source. -/
inductive Segment (C : CompressCall) (m : Found) (d n : Nat) : Prop where
  | dictionary (ext : C.dictDirective = .usingExtDict) (lowLimit_eq : m.lowLimit = C.dictionary)
      (pMatch_eq : m.pMatch = C.dictionary + place C m.ip d) (inside : place C m.ip d < C.dictSize)
      (room : place C m.ip d + n ≤ C.dictSize)
  | source (pMatch_eq : C.dictSize + m.pMatch = C.source + place C m.ip d)
      (lowLimit_le : m.lowLimit ≤ m.pMatch) (source_le : C.source ≤ m.lowLimit + C.dictSize)
      (lowLimit_eq : C.dictDirective = .usingExtDict → m.lowLimit = C.source)

/-- `m` repeats the `n` bytes `d` places back in the window. -/
structure Matched (C : CompressCall) (m : Found) (d n : Nat) : Prop where
  source_le : C.source ≤ m.ip
  pos : 0 < d
  le_max : d ≤ LZ4_DISTANCE_MAX
  reach : d ≤ C.dictSize + (m.ip - C.source)
  same : ∀ k, k < n → win C (place C m.ip d + k) = win C (place C m.ip d + d + k)
  offset_eq : (if C.maybe_extMem then m.offset else m.ip - m.pMatch) = d
  segment : Segment C m d n

/-- What stands at `match`, as far as it is in the segment. -/
theorem Segment.win_eq (hv : Valid C) {m : Found} {d n k : Nat} (h : Segment C m d n)
    (hk : C.dictDirective = .usingExtDict → place C m.ip d < C.dictSize →
      place C m.ip d + k < C.dictSize) :
    win C (place C m.ip d + k) = C.mem (m.pMatch + k) := by
  cases h with
  | dictionary hd hlow hp hinside =>
    rw [win_dictionary hd (hk hd hinside), hp, Nat.add_assoc]
  | source hp hlow hsource hext =>
    by_cases hd : C.dictDirective = .usingExtDict
    · have hlim := hext hd
      have hplace : place C m.ip d + k = C.dictSize + (m.pMatch + k - C.source) := by omega
      rw [hplace, win_source (by omega)]
    · apply win_segment hv hd
      omega

/-- `n` bytes are left in the segment of the match. -/
theorem Segment.room {m : Found} {d n k : Nat} (h : Segment C m d n) (hk : k < n)
    (hd : C.dictDirective = .usingExtDict) (hinside : place C m.ip d < C.dictSize) :
    place C m.ip d + k < C.dictSize := by
  cases h with
  | dictionary _ _ _ _ hroom => omega
  | source hp hlow _ hext =>
    have hlim := hext hd
    omega

theorem place_add {ip d : Nat} (h : d ≤ C.dictSize + (ip - C.source)) :
    place C ip d + d = C.dictSize + (ip - C.source) := Nat.sub_add_cancel h

/-- What stands at `ip`. -/
theorem win_ip {ip d : Nat} (hip : C.source ≤ ip) (h : d ≤ C.dictSize + (ip - C.source))
    (k : Nat) : win C (place C ip d + d + k) = C.mem (ip + k) := by
  have hplace : place C ip d + d + k = C.dictSize + (ip + k - C.source) := by
    rw [place_add h]
    omega
  rw [hplace, win_source (by omega)]

/-- In one piece of memory the offset is the distance of the two pointers. -/
theorem Segment.sub_eq {m : Found} {d n : Nat} (h : Segment C m d n) (hip : C.source ≤ m.ip)
    (hreach : d ≤ C.dictSize + (m.ip - C.source)) (hd : C.dictDirective ≠ .usingExtDict) :
    m.ip - m.pMatch = d := by
  have hplace := place_add hreach
  cases h with
  | dictionary hext => exact absurd hext hd
  | source hp => omega

/-! ## The candidate of a hash -/

section Candidate

variable {old : Nat → Prop} {hashTable : HashTable} {p e : Nat}

/-- The segment of a candidate within the window. -/
theorem segment_found (hv : Valid C) (he : e < C.startIndex + (p - C.source))
    (hreach : C.startIndex ≤ e + C.dictSize)
    (hext : C.dictDirective = .usingExtDict → e < C.startIndex → e + MINMATCH ≤ C.startIndex) :
    Segment C (C.found p (C.startIndex + (p - C.source)) e)
      (C.startIndex + (p - C.source) - e) MINMATCH := by
  have hle := hv.dictSize_le
  have hplace : place C p (C.startIndex + (p - C.source) - e) + C.startIndex = C.dictSize + e := by
    rw [place]
    omega
  by_cases hd : C.dictDirective = .usingExtDict
  · by_cases hold : e < C.startIndex
    · have hcand : C.candidate e = (C.dictEnd + e - C.startIndex, C.dictionary) := by
        rw [CompressCall.candidate, if_pos hd, if_pos hold]
      have hfour := hext hd hold
      have hroom : place C p (C.startIndex + (p - C.source) - e) + MINMATCH ≤ C.dictSize := by omega
      have hinside := Nat.lt_of_lt_of_le (Nat.lt_add_of_pos_right (Nat.succ_pos 3)) hroom
      refine .dictionary hd (congrArg Prod.snd hcand) ?_ hinside hroom
      simp only [CompressCall.found, hcand, CompressCall.dictEnd]
      omega
    · have hcand : C.candidate e = (C.source + e - C.startIndex, C.source) := by
        rw [CompressCall.candidate, if_pos hd, if_neg hold]
      simp only [CompressCall.found, hcand]
      refine .source ?_ ?_ ?_ ?_
      · simp only
        omega
      · simp only
        omega
      · exact Nat.le_add_right _ _
      · intro _
        rfl
  · have hsource := hv.dictSize_le_source hd
    have hlow : (if C.dictDirective = .withPrefix64k then C.dictSize else 0) = C.dictSize := by
      split_ifs with hprefix
      · rfl
      · cases hdir : C.dictDirective with
        | noDict => exact (hv.noDict hdir).symm
        | withPrefix64k => exact absurd hdir hprefix
        | usingExtDict => exact absurd hdir hd
    have hcand : C.candidate e = (C.source + e - C.startIndex, C.source - C.dictSize) := by
      rw [CompressCall.candidate, if_neg hd, hlow]
    simp only [CompressCall.found, hcand]
    refine .source ?_ ?_ ?_ ?_
    · simp only
      omega
    · simp only
      omega
    · simp only
      omega
    · intro h
      exact absurd h hd

/-- A candidate that is not sorted out is near enough. -/
theorem distance_le (hv : Valid C) (hp : C.source ≤ p) (hend : p + MFLIMIT ≤ C.iend)
    (he : e < C.startIndex + (p - C.source))
    (hfar : ¬ (C.tableType ≠ .byU16 ∧
      (e + LZ4_DISTANCE_MAX) % 2 ^ 32 < C.startIndex + (p - C.source))) :
    C.startIndex + (p - C.source) - e ≤ LZ4_DISTANCE_MAX := by
  have hlt := hv.index_lt
  have hmax : LZ4_DISTANCE_MAX = 65535 := rfl
  have h12 : MFLIMIT = 12 := rfl
  have h64 : LZ4_64Klimit = 65547 := rfl
  rw [CompressCall.iend] at hend
  by_cases h16 : C.tableType = .byU16
  · have hle := hv.byU16_lt h16
    omega
  · -- the sum does not wrap around: it would be below the index then
    have hnear : C.startIndex + (p - C.source) ≤ (e + LZ4_DISTANCE_MAX) % 2 ^ 32 := by
      by_contra hcon
      exact hfar ⟨h16, Nat.lt_of_not_le hcon⟩
    omega

/-- The comparison of four bytes. -/
theorem same_of_read32 (hv : Valid C) {m : Found} {d : Nat} (hip : C.source ≤ m.ip)
    (hreach : d ≤ C.dictSize + (m.ip - C.source)) (hseg : Segment C m d MINMATCH)
    (hread : LZ4_read32 C.mem m.pMatch = LZ4_read32 C.mem m.ip) :
    ∀ k, k < MINMATCH → win C (place C m.ip d + k) = win C (place C m.ip d + d + k) := by
  intro k hk
  have hbytes := leNat_load_eq_iff.1 hread k hk
  rw [win_ip hip hreach, ← hbytes]
  exact hseg.win_eq hv (hseg.room hk)

/-- A candidate that is accepted is a match of four bytes. -/
theorem accepts_matched (hv : Valid C) (hfits : ∀ e, old e → e < C.startIndex → Fits C e)
    (hentries : Entries C old hashTable p) (hp : C.source ≤ p) (hend : p + MFLIMIT ≤ C.iend)
    {h : Nat} (hacc : C.accepts (hashTable h) (C.index p) p) :
    ∃ d, Matched C (C.found p (C.index p) (hashTable h)) d MINMATCH := by
  rw [index_eq hv hp (by omega)] at hacc ⊢
  obtain ⟨hsmall, hfar, hread⟩ := hacc
  -- the index lies in the window: an old one because it fits, a new one by its position
  have hcases : hashTable h < C.startIndex + (p - C.source) ∧
      C.startIndex ≤ hashTable h + C.dictSize ∧ (C.dictDirective = .usingExtDict →
        hashTable h < C.startIndex → hashTable h + MINMATCH ≤ C.startIndex) := by
    rcases hentries h with ⟨hold, hlt⟩ | ⟨q, hq, hqp, heq⟩
    · have hnear : ¬ (C.tableType ≠ .byU16 ∧
          (hashTable h + LZ4_DISTANCE_MAX) % 2 ^ 32 < C.startIndex) := by
        rintro ⟨h16, hcon⟩
        exact hfar ⟨h16, Nat.lt_of_lt_of_le hcon (Nat.le_add_right _ _)⟩
      obtain ⟨hreach, hext⟩ := hfits _ hold hlt hsmall hnear
      refine ⟨by omega, hreach, ?_⟩
      intro hd _
      exact hext hd
    · refine ⟨by omega, by omega, ?_⟩
      intro _ hlt
      omega
  obtain ⟨he, hreach, hext⟩ := hcases
  have hseg := segment_found hv he hreach hext
  have hback : C.startIndex + (p - C.source) - hashTable h ≤ C.dictSize + (p - C.source) := by omega
  refine ⟨C.startIndex + (p - C.source) - hashTable h, ?_⟩
  refine ⟨hp, by omega, distance_le hv hp hend he hfar, hback, ?_, ?_, hseg⟩
  · exact same_of_read32 hv hp hback hseg hread
  · by_cases hd : C.dictDirective = .usingExtDict
    · rw [CompressCall.maybe_extMem, decide_eq_true hd]
      rfl
    · rw [CompressCall.maybe_extMem, decide_eq_false hd]
      exact hseg.sub_eq hp hback hd

end Candidate

/-! ## The search -/

/-- The search stops at the end of the source, or with a match of four bytes at a position that has
been put into the table. -/
theorem search_spec (hv : Valid C) {old : Nat → Prop}
    (hfits : ∀ e, old e → e < C.startIndex → Fits C e) (hsize : MFLIMIT < C.inputSize)
    {fuel forwardIp step searchMatchNb : Nat} {hashTable : HashTable}
    (hp : C.source ≤ forwardIp) (hlim : forwardIp ≤ C.mflimitPlusOne) (hstep : 0 < step)
    (hnb : 1 <<< LZ4_skipTrigger ≤ searchMatchNb) (hfuel : C.mflimitPlusOne - forwardIp < fuel)
    (hentries : Entries C old hashTable forwardIp) :
    (∃ hashTable', search C fuel forwardIp step searchMatchNb hashTable = some (none, hashTable') ∧
      Entries C old hashTable' C.mflimitPlusOne) ∨
    ∃ m d hashTable', search C fuel forwardIp step searchMatchNb hashTable =
        some (some m, hashTable') ∧
      forwardIp ≤ m.ip ∧ m.ip + MFLIMIT ≤ C.iend ∧ Matched C m d MINMATCH ∧
      Entries C old hashTable' (m.ip + 1) := by
  induction fuel generalizing forwardIp step searchMatchNb hashTable with
  | zero => exact absurd hfuel (Nat.not_lt_zero _)
  | succ fuel ih =>
    rw [search]
    by_cases hlast : C.mflimitPlusOne < forwardIp + step
    · left
      refine ⟨hashTable, ?_, hentries.mono hlim⟩
      simp only [if_pos hlast]
    · have hend : forwardIp + MFLIMIT ≤ C.iend := by
        rw [CompressCall.mflimitPlusOne] at hlast
        rw [CompressCall.iend] at hlast ⊢
        omega
      have hput : Entries C old (C.putPosition forwardIp hashTable) (forwardIp + 1) :=
        (hentries.mono (Nat.le_succ _)).put hv hp (Nat.lt_succ_self _) hend
      simp only [if_neg hlast]
      by_cases hacc : C.accepts (hashTable (C.hash forwardIp)) (C.index forwardIp) forwardIp
      · right
        obtain ⟨d, hmatched⟩ := accepts_matched hv hfits hentries hp hend hacc
        refine ⟨_, d, _, if_pos hacc, Nat.le_refl _, hend, hmatched, hput⟩
      · rw [if_neg hacc]
        have hnext : 0 < searchMatchNb >>> LZ4_skipTrigger := by
          rw [Nat.shiftRight_eq_div_pow]
          exact Nat.div_pos hnb (by decide)
        have hnb' : 1 <<< LZ4_skipTrigger ≤ searchMatchNb + 1 := Nat.le_succ_of_le hnb
        have hmono := hput.mono (Nat.add_le_add_left hstep forwardIp)
        rcases ih (by omega) (by omega) hnext hnb' (by omega) hmono with hnone | ⟨m, d, t, h⟩
        · exact Or.inl hnone
        · right
          exact ⟨m, d, t, h.1, by omega, h.2.2⟩

/-! ## Catching up -/

/-- Catching up goes back over bytes that are equal, no further than to the anchor and to the lower
end of the segment. -/
theorem catchUp_spec (mem : Memory) {anchor lowLimit ip pMatch : Nat} (hanchor : anchor ≤ ip)
    (hlow : lowLimit ≤ pMatch) :
    ∃ i, catchUp mem anchor lowLimit ip pMatch = (ip - i, pMatch - i) ∧ anchor + i ≤ ip ∧
      lowLimit + i ≤ pMatch ∧ ∀ k, k < i → mem (pMatch - i + k) = mem (ip - i + k) := by
  have hstay : ∃ i, (ip, pMatch) = (ip - i, pMatch - i) ∧ anchor + i ≤ ip ∧
      lowLimit + i ≤ pMatch ∧ ∀ k, k < i → mem (pMatch - i + k) = mem (ip - i + k) := by
    refine ⟨0, rfl, hanchor, hlow, ?_⟩
    intro k hk
    exact absurd hk (Nat.not_lt_zero k)
  induction ip generalizing pMatch with
  | zero => exact hstay
  | succ ip ih =>
    rw [catchUp]
    by_cases hback : anchor < ip + 1 ∧ lowLimit < pMatch ∧ mem ip = mem (pMatch - 1)
    · rw [if_pos hback]
      obtain ⟨ha, hl, hbyte⟩ := hback
      obtain ⟨i, heq, hanchor', hlow', hsame⟩ := ih (by omega) (by omega : lowLimit ≤ pMatch - 1) (by
        refine ⟨0, rfl, by omega, by omega, ?_⟩
        intro k hk
        exact absurd hk (Nat.not_lt_zero k))
      refine ⟨i + 1, ?_, by omega, by omega, ?_⟩
      · rw [heq]
        congr 1 <;> omega
      · intro k hk
        have hp : pMatch - (i + 1) = pMatch - 1 - i := by omega
        have hi : ip + 1 - (i + 1) = ip - i := by omega
        rw [hp, hi]
        rcases Nat.lt_or_ge k i with hlt | hge
        · exact hsame k hlt
        · -- the byte the step itself has compared
          obtain rfl : k = i := by omega
          rw [Nat.sub_add_cancel (by omega), Nat.sub_add_cancel (by omega)]
          exact hbyte.symm
    · rw [if_neg hback]
      exact hstay

theorem Segment.lowLimit_le {m : Found} {d n : Nat} (h : Segment C m d n) :
    m.lowLimit ≤ m.pMatch := by
  cases h with
  | dictionary _ hlow hp =>
    rw [hp, hlow]
    exact Nat.le_add_right _ _
  | source _ hlow => exact hlow

/-- As far as `match` can be moved back in its segment, there are places in the window. -/
theorem Segment.le_place {m : Found} {d n i : Nat} (h : Segment C m d n)
    (hi : m.lowLimit + i ≤ m.pMatch) : i ≤ place C m.ip d := by
  cases h with
  | dictionary _ hlow hp =>
    rw [hp, hlow] at hi
    exact Nat.le_of_add_le_add_left hi
  | source hp _ hsource => omega

/-- The match with both pointers moved back. -/
def Found.back (m : Found) (i : Nat) : Found := { m with ip := m.ip - i, pMatch := m.pMatch - i }

theorem Segment.back {m : Found} {d n i : Nat} (h : Segment C m d n)
    (hi : m.lowLimit + i ≤ m.pMatch) (hplace : place C (m.ip - i) d + i = place C m.ip d) :
    Segment C (Found.back m i) d (i + n) := by
  cases h with
  | dictionary hd hlow hp hinside hroom =>
    refine .dictionary hd hlow ?_ ?_ ?_
    all_goals
      simp only [Found.back]
      omega
  | source hp hlow hsource hext =>
    refine .source ?_ ?_ hsource hext
    · simp only [Found.back]
      omega
    · exact Nat.le_sub_of_add_le hi

/-- A match that is moved back over equal bytes. -/
theorem Matched.caught (hv : Valid C) {m : Found} {d n : Nat} (h : Matched C m d n) {anchor : Nat}
    (hsource : C.source ≤ anchor) (hanchor : anchor ≤ m.ip) :
    ∃ i, catchUp C.mem anchor m.lowLimit m.ip m.pMatch = (m.ip - i, m.pMatch - i) ∧
      anchor + i ≤ m.ip ∧ Matched C (Found.back m i) d (i + n) := by
  obtain ⟨i, heq, hle, hlow, hbytes⟩ := catchUp_spec C.mem hanchor h.segment.lowLimit_le
  have hi := h.segment.le_place hlow
  have hplace := place_add h.reach
  have hback : place C (m.ip - i) d + i = place C m.ip d := by
    simp only [place] at hi hplace ⊢
    omega
  have hreach : d ≤ C.dictSize + (m.ip - i - C.source) := by omega
  have hseg := h.segment.back hlow hback
  have hip : C.source ≤ m.ip - i := by omega
  refine ⟨i, heq, hle, hip, h.pos, h.le_max, hreach, ?_, ?_, hseg⟩
  · intro k hk
    rcases Nat.lt_or_ge k i with hlt | hge
    · have hread : win C (place C (m.ip - i) d + k) = C.mem (m.pMatch - i + k) :=
        hseg.win_eq hv (hseg.room (Nat.lt_add_right n hlt))
      have hcur := win_ip hip hreach k
      exact (hread.trans (hbytes k hlt)).trans hcur.symm
    · obtain ⟨j, rfl⟩ := Nat.exists_eq_add_of_le hge
      have hold := h.same j (by omega)
      have h1 : place C (m.ip - i) d + (i + j) = place C m.ip d + j := by omega
      have h2 : place C (m.ip - i) d + d + (i + j) = place C m.ip d + d + j := by omega
      simp only [Found.back]
      rw [h1, h2]
      exact hold
  · have hoff := h.offset_eq
    by_cases hd : C.dictDirective = .usingExtDict
    · rw [CompressCall.maybe_extMem, decide_eq_true hd] at hoff ⊢
      exact hoff
    · rw [CompressCall.maybe_extMem, decide_eq_false hd]
      exact hseg.sub_eq hip hreach hd

/-! ## Counting -/

/-- Counting on from the first four bytes, up to a limit that the segment of the match reaches. -/
theorem Matched.counted (hv : Valid C) {m : Found} {d n limit : Nat} (h : Matched C m d n)
    (hn : MINMATCH ≤ n) (hend : m.ip + n ≤ limit)
    (hroom : C.dictDirective = .usingExtDict → place C m.ip d < C.dictSize →
      place C m.ip d + (limit - m.ip) ≤ C.dictSize) {c : Nat}
    (hc : c = LZ4_count C.mem (m.ip + MINMATCH) (m.pMatch + MINMATCH) limit) :
    n ≤ c + MINMATCH ∧ m.ip + (c + MINMATCH) ≤ limit ∧ ∀ k, k < c + MINMATCH →
      win C (place C m.ip d + k) = win C (place C m.ip d + d + k) := by
  have hrun : CountsTo C.mem limit (m.ip + MINMATCH) (m.pMatch + MINMATCH) c :=
    hc ▸ LZ4_count_counts C.mem _ _ limit
  have hle := hrun.le
  have hfit : m.ip + (c + MINMATCH) ≤ limit := by omega
  have hread : ∀ k, m.ip + k < limit →
      win C (place C m.ip d + k) = C.mem (m.pMatch + k) := by
    intro k hk
    apply h.segment.win_eq hv
    intro hd hinside
    have hr := hroom hd hinside
    omega
  have hshift : ∀ a k : Nat, a + (MINMATCH + k) = a + MINMATCH + k := by
    intro a k
    omega
  refine ⟨?_, hfit, ?_⟩
  · -- otherwise the count has stopped at two bytes that have been compared before
    by_contra hcon
    have hsame := h.same (MINMATCH + c) (by omega)
    rw [hread _ (by omega), win_ip h.source_le h.reach, hshift, hshift] at hsame
    exact hrun.stops (by omega) hsame
  · intro k hk
    rcases Nat.lt_or_ge k MINMATCH with hlt | hge
    · exact h.same k (Nat.lt_of_lt_of_le hlt hn)
    · obtain ⟨j, rfl⟩ := Nat.exists_eq_add_of_le hge
      rw [hread _ (by omega), win_ip h.source_le h.reach, hshift, hshift]
      exact hrun.same j (by omega)

/-- What `countMatch` finds for a match of `n` bytes: at least these, and a repetition up to the
last five bytes of the source. -/
theorem countMatch_spec (hv : Valid C) {m : Found} {d n : Nat} (h : Matched C m d n)
    (hn : MINMATCH ≤ n) (hend : m.ip + n ≤ C.matchlimit) :
    (countMatch C m).2 = m.ip + ((countMatch C m).1 + MINMATCH) ∧
      n ≤ (countMatch C m).1 + MINMATCH ∧
      m.ip + ((countMatch C m).1 + MINMATCH) ≤ C.matchlimit ∧
      ∀ k, k < (countMatch C m).1 + MINMATCH →
        win C (place C m.ip d + k) = win C (place C m.ip d + d + k) := by
  have hpos := h.pos
  have hip := place_add h.reach
  have hle := h.source_le
  rw [countMatch]
  by_cases hin : C.maybe_extMem = true ∧ m.lowLimit = C.dictionary
  · simp only [if_pos hin]
    rw [CompressCall.maybe_extMem, decide_eq_true_eq] at hin
    generalize hL : min (m.ip + (C.dictEnd - m.pMatch)) C.matchlimit = limit
    -- the limit is where the dictionary ends, or where the matches do
    have hlimit : m.ip + n ≤ limit ∧ limit ≤ C.matchlimit ∧
        (place C m.ip d < C.dictSize → place C m.ip d + (limit - m.ip) ≤ C.dictSize) ∧
        (limit = C.matchlimit ∨ place C m.ip d + (limit - m.ip) = C.dictSize) := by
      rw [CompressCall.dictEnd] at hL
      cases h.segment with
      | dictionary _ _ hp hinside hroom => omega
      | source hp hlow _ hext =>
        have hlim := hext hin.1
        have hiend : C.iend = C.source + C.inputSize := rfl
        have hml : C.matchlimit = C.iend - LASTLITERALS := rfl
        rcases hv.apart hin.1 with hne | hlong
        · exact absurd (hin.2.symm.trans hlim) hne
        · omega
    obtain ⟨hn', hlimit', hroom, hwhere⟩ := hlimit
    generalize hc : LZ4_count C.mem (m.ip + MINMATCH) (m.pMatch + MINMATCH) limit = c
    obtain ⟨hcount, hfit, hsame⟩ := h.counted hv hn hn' (fun _ => hroom) hc.symm
    by_cases hstop : m.ip + (c + MINMATCH) = limit
    · simp only [if_pos hstop]
      have hmore := LZ4_count_counts C.mem limit C.source C.matchlimit
      generalize LZ4_count C.mem limit C.source C.matchlimit = more at hmore ⊢
      have hmle := hmore.le
      refine ⟨by omega, by omega, by omega, ?_⟩
      intro k hk
      rcases Nat.lt_or_ge k (c + MINMATCH) with hlt | hge
      · exact hsame k hlt
      · -- the dictionary has ended: the source follows it
        obtain ⟨j, rfl⟩ := Nat.exists_eq_add_of_le hge
        have hj : j < more := by omega
        have hplace : place C m.ip d + (c + MINMATCH + j) =
            C.dictSize + (C.source + j - C.source) := by omega
        rw [hplace, win_source (Nat.le_add_right _ _), win_ip h.source_le h.reach, ← Nat.add_assoc,
          hstop]
        exact hmore.same j hj
    · simp only [if_neg hstop]
      exact ⟨trivial, hcount, by omega, hsame⟩
  · simp only [if_neg hin]
    have hroom : C.dictDirective = .usingExtDict → place C m.ip d < C.dictSize →
        place C m.ip d + (C.matchlimit - m.ip) ≤ C.dictSize := by
      intro hd hinside
      exfalso
      apply hin
      rw [CompressCall.maybe_extMem, decide_eq_true hd]
      cases h.segment with
      | dictionary _ hlow => exact ⟨rfl, hlow⟩
      | source hp hlow _ hext =>
        have hlim := hext hd
        omega
    obtain ⟨hcount, hfit, hsame⟩ := h.counted hv hn hend hroom rfl
    exact ⟨trivial, hcount, hfit, hsame⟩

end PythonLz4.Fast.Matches
