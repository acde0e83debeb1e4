import PythonLz4.Block.DecoderFacts

/-!
# Decoding a whole block

`Decodes` is the run of the main loop from one iteration to the end of the block, and
`LZ4_decompress_generic_ok_iff` says that `LZ4_decompress_generic` computes it with either loop.
From it: the output never exceeds the capacity (`Decodes.length_le`), a block that fills its
capacity cannot be continued (`decode_append_fails`), and a call whose history reaches further
decodes at least as much (`decode_of_refined`). The last part compares the places the history of
one block can lie in: only its last 64 KB matter (`usingDict_congr_window`), and a block accepted
with its history in an external dictionary is accepted with the history in front of `dst`
(`usingDict_of_external`).
-/

set_option autoImplicit false

namespace PythonLz4.Block.DecompressGeneric

open PythonLz4.Lib.HistoryWindow
open PythonLz4.Lib.LittleEndian

/-! ## Whole blocks -/

/-- `ip` is decoded behind `out` to the end of the block, leaving `final`. -/
inductive Decodes (P : DecodeCall) : List UInt8 → List UInt8 → List UInt8 → Prop where
  | lastLiterals {ip out afterToken lits : List UInt8} {token : UInt8}
      (token_eq : ip = token :: afterToken)
      (literals_eq : literalLength token afterToken = .ok (lits.length, lits))
      (fits : out.length + lits.length ≤ P.outputSize) : Decodes P ip out (out ++ lits)
  | sequence {ip out final : List UInt8} {s : Sequence} (at_ip : s.At ip)
      (accepted : s.Accepted P out) (next : Decodes P s.rest (s.apply P out) final) :
      Decodes P ip out final

theorem Decodes.ne_nil {P : DecodeCall} {ip out final : List UInt8}
    (h : Decodes P ip out final) : ip ≠ [] := by
  cases h with
  | lastLiterals he =>
    rw [he]
    exact List.cons_ne_nil _ _
  | sequence hat =>
    rw [hat.token_eq]
    exact List.cons_ne_nil _ _

/-- The output stays within the capacity. -/
theorem Decodes.length_le {P : DecodeCall} {ip out final : List UInt8}
    (h : Decodes P ip out final) : final.length ≤ P.outputSize := by
  induction h with
  | lastLiterals _ _ hfits => rwa [List.length_append]
  | sequence _ _ _ ih => exact ih

/-- The output already written stays. -/
theorem Decodes.isPrefix {P : DecodeCall} {ip out final : List UInt8}
    (h : Decodes P ip out final) : out <+: final := by
  induction h with
  | lastLiterals => exact List.prefix_append _ _
  | sequence _ _ _ ih =>
    refine List.IsPrefix.trans ?_ ih
    rw [Sequence.apply, List.append_assoc]
    exact List.prefix_append _ _

theorem Sequence.At.unique {s s' : Sequence} {ip : List UInt8} (h : s.At ip) (h' : s'.At ip) :
    s = s' := by
  rcases s with ⟨token, afterToken, lits, b0, b1, afterOffset, matchLen, rest⟩
  rcases s' with ⟨token', afterToken', lits', b0', b1', afterOffset', matchLen', rest'⟩
  have htoken := h.token_eq.symm.trans h'.token_eq
  injection htoken with ht ha
  simp only at ht ha
  subst ht ha
  have hlits := h.literals_eq.symm.trans h'.literals_eq
  simp only [Except.ok.injEq, Prod.mk.injEq] at hlits
  obtain ⟨hl, htail⟩ := List.append_inj hlits.2 hlits.1
  simp only [List.cons.injEq] at htail
  obtain ⟨rfl, rfl, rfl⟩ := htail
  subst hl
  have hmatch := h.match_eq.symm.trans h'.match_eq
  simp only [Except.ok.injEq, Prod.mk.injEq] at hmatch
  obtain ⟨rfl, rfl⟩ := hmatch
  rfl

/-- No input both ends the block and goes on with a sequence. -/
theorem Sequence.At.not_last {s : Sequence} {ip afterToken lits : List UInt8} {token : UInt8}
    (h : s.At ip) (he : ip = token :: afterToken) :
    literalLength token afterToken ≠ .ok (lits.length, lits) := by
  intro hl
  have htoken := h.token_eq.symm.trans he
  injection htoken with ht ha
  have hlits := h.literals_eq
  rw [ht, ha, hl, Except.ok.injEq, Prod.mk.injEq] at hlits
  have hlen := congrArg List.length hlits.2
  rw [hlits.1, List.length_append, List.length_cons] at hlen
  omega

theorem Decodes.unique {P : DecodeCall} {ip out final final' : List UInt8}
    (h : Decodes P ip out final) (h' : Decodes P ip out final') : final = final' := by
  induction h with
  | lastLiterals he hl hfits =>
    cases h' with
    | lastLiterals he' hl' =>
      rw [he] at he'
      obtain ⟨rfl, rfl⟩ := List.cons.inj he'
      rw [hl, Except.ok.injEq, Prod.mk.injEq] at hl'
      rw [hl'.2]
    | sequence hat => exact absurd hl (hat.not_last he)
  | sequence hat _ _ ih =>
    cases h' with
    | lastLiterals he' hl' => exact absurd hl' (hat.not_last he')
    | sequence hat' _ hnext' =>
      obtain rfl := hat.unique hat'
      exact ih hnext'

/-- The main loop computes `Decodes`. -/
theorem decodeLoop_safe_ok {P : DecodeCall} {fuel : Nat} {ip out final : List UInt8}
    (h : decodeLoop P fuel false ip out = .ok final) : Decodes P ip out final := by
  induction fuel generalizing ip out with
  | zero => simp [decodeLoop] at h
  | succ fuel ih =>
    simp only [decodeLoop, Bool.false_eq_true, if_false] at h
    cases hs : safeStep P ip out with
    | outputError ip' => simp [hs] at h
    | finished out' =>
      simp only [hs, Except.ok.injEq] at h
      subst h
      obtain ⟨token, afterToken, lits, he, hl, hc, rfl⟩ := safeStep_finished_iff.1 hs
      exact .lastLiterals he hl hc
    | next fast ip' out' =>
      obtain ⟨rfl, s, hat, ha, rfl, rfl⟩ := safeStep_next hs
      simp only [hs] at h
      exact .sequence hat ha (ih h)

theorem Decodes.decodeLoop_safe {P : DecodeCall} {ip out final : List UInt8}
    (h : Decodes P ip out final) {fuel : Nat} (hfuel : ip.length ≤ fuel) :
    decodeLoop P fuel false ip out = .ok final := by
  induction h generalizing fuel with
  | @lastLiterals ip out afterToken lits token he hl hfits =>
    subst he
    cases fuel with
    | zero => simp at hfuel
    | succ fuel =>
      have hs : safeStep P (token :: afterToken) out = .finished (out ++ lits) :=
        safeStep_finished_iff.2 ⟨token, afterToken, lits, rfl, hl, hfits, rfl⟩
      simp only [decodeLoop, Bool.false_eq_true, if_false, hs]
  | @sequence ip out final s hat ha _ ih =>
    cases fuel with
    | zero =>
      rw [hat.token_eq] at hfuel
      simp at hfuel
    | succ fuel =>
      have hlt := hat.rest_length_lt
      simp only [decodeLoop, Bool.false_eq_true, if_false, safeStep_of_accepted hat ha]
      exact ih (by omega)

/-- The fast loop accepts what the main loop accepts, with the same output. -/
theorem decodeLoop_fast {P : DecodeCall} (hP : P.PrefixComplete) (fuel : Nat) (fast : Bool)
    (ip : List UInt8) {out : List UInt8}
    (hroom : fast = true → out.length + FASTLOOP_SAFE_DISTANCE ≤ P.outputSize)
    (final : List UInt8) :
    decodeLoop P fuel fast ip out = .ok final ↔ decodeLoop P fuel false ip out = .ok final := by
  induction fuel generalizing fast ip out with
  | zero => simp [decodeLoop]
  | succ fuel ih =>
    cases fast with
    | false => exact Iff.rfl
    | true =>
      have hstep := FastAgrees.step hP ip (hroom rfl)
      simp only [decodeLoop, if_true, Bool.false_eq_true, if_false]
      generalize fastStep P ip out = a at hstep ⊢
      generalize safeStep P ip out = b at hstep ⊢
      cases hstep with
      | outputError ip' ip'' => simp
      | finished out' => exact Iff.rfl
      | next fast ip' out' hroom' => exact ih fast ip' hroom'

theorem decodeLoop_ok_iff {P : DecodeCall} (hP : P.PrefixComplete) {fuel : Nat} {fast : Bool}
    {ip out : List UInt8}
    (hroom : fast = true → out.length + FASTLOOP_SAFE_DISTANCE ≤ P.outputSize)
    (hfuel : ip.length ≤ fuel) {final : List UInt8} :
    decodeLoop P fuel fast ip out = .ok final ↔ Decodes P ip out final :=
  (decodeLoop_fast hP fuel fast ip hroom final).trans
    ⟨decodeLoop_safe_ok, fun h => h.decodeLoop_safe hfuel⟩

/-- `LZ4_decompress_generic` succeeds exactly on the blocks that decode; into an empty buffer only
the block of one zero token does. -/
theorem LZ4_decompress_generic_ok_iff {fastLoop : Bool} {P : DecodeCall} (hP : P.PrefixComplete)
    {src out : List UInt8} :
    LZ4_decompress_generic fastLoop P src = .ok out ↔
      (P.outputSize = 0 → src = [0]) ∧ Decodes P src [] out := by
  unfold LZ4_decompress_generic
  by_cases hcap : P.outputSize = 0
  · rw [if_pos hcap]
    by_cases hsrc : src = [0]
    · have hlast : Decodes P src [] [] := @Decodes.lastLiterals P src [] [] [] 0 hsrc rfl (by simp)
      rw [if_pos hsrc]
      constructor
      · intro h
        rw [← Except.ok.inj h]
        exact ⟨fun _ => hsrc, hlast⟩
      · rintro ⟨-, h⟩
        rw [h.unique hlast]
    · rw [if_neg hsrc]
      exact ⟨nofun, fun h => absurd (h.1 hcap) hsrc⟩
  · rw [if_neg hcap]
    by_cases hsrc : src = []
    · rw [if_pos hsrc]
      exact ⟨nofun, fun h => absurd hsrc h.2.ne_nil⟩
    · rw [if_neg hsrc]
      have hiff : decodeLoop P src.length
          (fastLoop && decide (FASTLOOP_SAFE_DISTANCE ≤ P.outputSize)) src [] = .ok out ↔
            Decodes P src [] out :=
        decodeLoop_ok_iff hP (fun h => by
          rw [Bool.and_eq_true, decide_eq_true_eq] at h
          simpa using h.2) (Nat.le_refl src.length)
      constructor
      · intro h
        refine ⟨fun h0 => absurd h0 hcap, hiff.1 ?_⟩
        cases hd : decodeLoop P src.length
            (fastLoop && decide (FASTLOOP_SAFE_DISTANCE ≤ P.outputSize)) src [] with
        | error ip => simp [hd] at h
        | ok o => simpa [hd] using h
      · rintro ⟨-, h⟩
        rw [hiff.2 h]

/-! ## Blocks that fill the capacity -/

/-- A block that fills its capacity is followed by nothing: its last literals would have to be
the last for a match to follow. -/
theorem Decodes.append_fails {P : DecodeCall} {ip out final : List UInt8}
    (h : Decodes P ip out final) (hfull : final.length = P.outputSize) {t : List UInt8}
    (ht : t ≠ []) (final' : List UInt8) : ¬ Decodes P (ip ++ t) out final' := by
  induction h generalizing final' with
  | @lastLiterals ip out afterToken lits token he hl hfits =>
    have hl' := literalLength_append hl t
    have he' : ip ++ t = token :: (afterToken ++ t) := by rw [he, List.cons_append]
    rw [List.length_append] at hfull
    intro hd
    cases hd with
    | @lastLiterals _ _ afterToken' lits' token' he'' hl'' =>
      rw [he'] at he''
      obtain ⟨rfl, rfl⟩ := List.cons.inj he''
      rw [hl', Except.ok.injEq, Prod.mk.injEq] at hl''
      have hlen := congrArg List.length hl''.2
      rw [← hl''.1, List.length_append] at hlen
      exact ht (List.eq_nil_of_length_eq_zero (by omega))
    | @sequence _ _ _ s hat hacc =>
      have htoken := hat.token_eq.symm.trans he'
      injection htoken with h1 h2
      have hlits := hat.literals_eq
      rw [h1, h2, hl', Except.ok.injEq, Prod.mk.injEq] at hlits
      have h12 : MFLIMIT = 12 := rfl
      rcases hacc with ⟨hq, -⟩ | ⟨hq | ⟨hc, -⟩, -⟩
      · have h14 := hat.literals_le_of_quick hq.1
        have h32 := hq.2.2
        omega
      · have h14 := hat.literals_le_of_quick hq.1
        have h32 := hq.2.2
        omega
      · omega
  | @sequence ip out final s hat hacc _ ih =>
    have hat' := hat.append t
    intro hd
    cases hd with
    | lastLiterals he' hl' => exact hat'.not_last he' hl'
    | @sequence _ _ _ s' hat'' hacc' hnext =>
      obtain rfl := hat'.unique hat''
      exact ih hfull final' hnext

theorem decode_append_fails {fastLoop : Bool} {P : DecodeCall} (hP : P.PrefixComplete)
    {src out t : List UInt8} (h : LZ4_decompress_generic fastLoop P src = .ok out)
    (hfull : out.length = P.outputSize) (ht : t ≠ []) (out' : List UInt8) :
    LZ4_decompress_generic fastLoop P (src ++ t) ≠ .ok out' := by
  intro h'
  exact ((LZ4_decompress_generic_ok_iff hP).1 h).2.append_fails hfull ht out'
    ((LZ4_decompress_generic_ok_iff hP).1 h').2

/-! ## Two calls on one block -/

/-- Whatever the first call decodes, the second decodes to the same bytes. -/
structure DecodeCall.RefinedBy (P P' : DecodeCall) : Prop where
  outputSize_eq : P.outputSize = P'.outputSize
  accepted : ∀ {s : Sequence} {out : List UInt8}, s.Accepted P out →
    s.Accepted P' out ∧ s.apply P out = s.apply P' out

theorem Decodes.of_refined {P P' : DecodeCall} (hP : P.RefinedBy P') {ip out final : List UInt8}
    (h : Decodes P ip out final) : Decodes P' ip out final := by
  induction h with
  | lastLiterals he hl hfits => exact .lastLiterals he hl (hP.outputSize_eq ▸ hfits)
  | sequence hat hacc _ ih =>
    obtain ⟨hacc', happly⟩ := hP.accepted hacc
    exact .sequence hat hacc' (happly ▸ ih)

theorem decode_of_refined {fastLoop : Bool} {P P' : DecodeCall} (hP : P.PrefixComplete)
    (hP' : P'.PrefixComplete) (hr : P.RefinedBy P') {src out : List UInt8}
    (h : LZ4_decompress_generic fastLoop P src = .ok out) :
    LZ4_decompress_generic fastLoop P' src = .ok out := by
  obtain ⟨hcap, hd⟩ := (LZ4_decompress_generic_ok_iff hP).1 h
  exact (LZ4_decompress_generic_ok_iff hP').2 ⟨hr.outputSize_eq ▸ hcap, hd.of_refined hr⟩

/-! ## Where the history lies -/

/-- The distances the shortcut accepts with `n` bytes written. -/
def DecodeCall.ReachesQuick (P : DecodeCall) (offset n : Nat) : Prop :=
  P.dict = .withPrefix64k ∨ offset ≤ P.lowPrefix.length + n

/-- The distances the 64 KB check accepts with `n` bytes written. -/
def DecodeCall.Reaches (P : DecodeCall) (offset n : Nat) : Prop :=
  P.checkOffset = true → offset ≤ P.lowPrefix.length + n + P.dictStart.length

theorem DecodeCall.Reaches.le_history {P : DecodeCall} {offset n : Nat}
    (h : P.Reaches offset n) (ho : offset < KB64) : offset ≤ P.history.length + n := by
  rw [DecodeCall.history, List.length_append]
  by_cases hc : P.checkOffset = true
  · have hr := h hc
    omega
  · rw [DecodeCall.checkOffset, decide_eq_true_eq] at hc
    omega

theorem DecodeCall.ReachesQuick.le_history {P : DecodeCall} (hP : P.PrefixComplete)
    {offset n : Nat} (h : P.ReachesQuick offset n) (ho : offset < KB64) :
    offset ≤ P.history.length + n := by
  rw [DecodeCall.history, List.length_append]
  rcases h with hd | hr
  · have hlow := hP hd
    omega
  · omega

theorem DecodeCall.RefinedBy.of_reach {P P' : DecodeCall} (hP : P.PrefixComplete)
    (hcap : P.outputSize = P'.outputSize)
    (hagree : AgreeBack (KB64 - 1) P.history P'.history)
    (hquick : ∀ offset n, offset < KB64 → P.ReachesQuick offset n → P'.ReachesQuick offset n)
    (hreach : ∀ offset n, offset < KB64 → P.Reaches offset n → P'.Reaches offset n) :
    P.RefinedBy P' := by
  refine ⟨hcap, fun {s out} hacc => ?_⟩
  have ho : s.offset < KB64 := leNat_pair_lt s.b0 s.b1
  have hbytes : s.offset ≤ P.history.length + (out ++ s.literals).length →
      s.apply P out = s.apply P' out := by
    intro hle
    rw [Sequence.apply, Sequence.apply, matchBytes_congr (hagree.append_right _)
      (Nat.le_sub_one_of_lt ho) (by rwa [List.length_append])]
  have hlits : ∀ q, Sequence.quickLiterals P s.token s.afterToken q →
      Sequence.quickLiterals P' s.token s.afterToken q :=
    fun q h => ⟨h.1, h.2.1, hcap ▸ h.2.2⟩
  rcases hacc with ⟨hq, hm⟩ | ⟨hroom, hm⟩
  · exact ⟨Or.inl ⟨hlits _ hq, hm.1, hm.2.1, hquick _ _ ho hm.2.2⟩,
      hbytes (DecodeCall.ReachesQuick.le_history hP hm.2.2 ho)⟩
  · refine ⟨Or.inr ⟨?_, hreach _ _ ho hm.1, hcap ▸ hm.2⟩,
      hbytes (DecodeCall.Reaches.le_history hm.1 ho)⟩
    rcases hroom with hq | ⟨hc, hr⟩
    · exact Or.inl (hlits _ hq)
    · exact Or.inr ⟨hcap ▸ hc, hr⟩

/-- The call that decodes with the history in front of `dst`, or in a buffer of its own. -/
def callOf (adjacent : Bool) (history : List UInt8) (outputSize : Nat) : DecodeCall :=
  if adjacent then ⟨.noDict, history, [], outputSize⟩
  else ⟨.usingExtDict, [], history, outputSize⟩

@[simp] theorem callOf_outputSize (adjacent : Bool) (history : List UInt8) (n : Nat) :
    (callOf adjacent history n).outputSize = n := by
  cases adjacent <;> rfl

@[simp] theorem callOf_history (adjacent : Bool) (history : List UInt8) (n : Nat) :
    (callOf adjacent history n).history = history := by
  cases adjacent
  · exact List.append_nil _
  · rfl

theorem callOf_prefixComplete (adjacent : Bool) (history : List UInt8) (n : Nat) :
    (callOf adjacent history n).PrefixComplete := by
  cases adjacent <;> exact nofun

theorem callOf_true_reaches {history : List UInt8} {cap offset n : Nat} :
    (callOf true history cap).Reaches offset n ↔ offset ≤ history.length + n := by
  have hcheck : (callOf true history cap).checkOffset = true := by
    simp [callOf, DecodeCall.checkOffset, KB64]
  rw [DecodeCall.Reaches, hcheck]
  simp [callOf]

theorem callOf_false_reaches {history : List UInt8} {cap offset n : Nat} (ho : offset < KB64) :
    (callOf false history cap).Reaches offset n ↔ offset ≤ history.length + n := by
  simp only [DecodeCall.Reaches, DecodeCall.checkOffset, callOf, Bool.false_eq_true, if_false,
    List.length_nil, decide_eq_true_eq]
  omega

theorem callOf_true_reachesQuick {history : List UInt8} {cap offset n : Nat} :
    (callOf true history cap).ReachesQuick offset n ↔ offset ≤ history.length + n := by
  simp [DecodeCall.ReachesQuick, callOf]

theorem callOf_false_reachesQuick {history : List UInt8} {cap offset n : Nat} :
    (callOf false history cap).ReachesQuick offset n ↔ offset ≤ n := by
  simp [DecodeCall.ReachesQuick, callOf]

/-- A match has at least four bytes. -/
theorem Sequence.At.minmatch_le {s : Sequence} {ip : List UInt8} (h : s.At ip) :
    MINMATCH ≤ s.matchLen := by
  have hm := h.match_eq
  unfold matchLength at hm
  split_ifs at hm
  · cases hr : read_variable_length s.afterOffset (LASTLITERALS - 1) false with
    | error ip' => simp [hr] at hm
    | ok r =>
      simp only [hr, Except.ok.injEq, Prod.mk.injEq] at hm
      omega
  · simp only [Except.ok.injEq, Prod.mk.injEq] at hm
    omega

/-- A block that adds nothing refers to nothing. -/
theorem Decodes.of_length_le {P P' : DecodeCall} (hcap : P.outputSize = P'.outputSize)
    {ip out final : List UInt8} (h : Decodes P ip out final) (hlen : final.length ≤ out.length) :
    Decodes P' ip out final := by
  cases h with
  | lastLiterals he hl hfits => exact .lastLiterals he hl (hcap ▸ hfits)
  | @sequence _ _ _ s hat _ hnext =>
    have hpre := hnext.isPrefix.length_le
    have hmin := hat.minmatch_le
    rw [Sequence.length_apply] at hpre
    simp only [MINMATCH] at hmin
    omega

theorem decode_nil_of_decode_nil {fastLoop : Bool} {P P' : DecodeCall} (hP : P.PrefixComplete)
    (hP' : P'.PrefixComplete) (hcap : P.outputSize = P'.outputSize) {src : List UInt8}
    (h : LZ4_decompress_generic fastLoop P src = .ok []) :
    LZ4_decompress_generic fastLoop P' src = .ok [] := by
  obtain ⟨hzero, hd⟩ := (LZ4_decompress_generic_ok_iff hP).1 h
  exact (LZ4_decompress_generic_ok_iff hP').2
    ⟨hcap ▸ hzero, hd.of_length_le hcap (Nat.le_refl _)⟩

/-- Only the last 64 KB of the history matter. -/
theorem callOf_refinedBy_of_window (adjacent : Bool) {h h' : List UInt8}
    (hw : window KB64 h = window KB64 h') (n : Nat) :
    (callOf adjacent h n).RefinedBy (callOf adjacent h' n) := by
  have hmin := min_length_of_window_eq hw
  refine .of_reach (callOf_prefixComplete _ _ _) (by simp)
    (by simpa using AgreeBack.of_window_eq hw (Nat.sub_le _ _)) ?_ ?_
  · intro offset m ho hr
    cases adjacent with
    | false => exact callOf_false_reachesQuick.2 (callOf_false_reachesQuick.1 hr)
    | true =>
      have hle := callOf_true_reachesQuick.1 hr
      exact callOf_true_reachesQuick.2 (by omega)
  · intro offset m ho hr
    cases adjacent with
    | false =>
      have hle := (callOf_false_reaches ho).1 hr
      exact (callOf_false_reaches ho).2 (by omega)
    | true =>
      have hle := callOf_true_reaches.1 hr
      exact callOf_true_reaches.2 (by omega)

/-- A block accepted with its history in a buffer of its own is accepted by every call whose
history agrees with that one, wherever it lies. -/
theorem callOf_external_refinedBy {h : List UInt8} {P : DecodeCall} {n : Nat}
    (hcap : n = P.outputSize) (hagree : AgreeBack (KB64 - 1) h P.history) :
    (callOf false h n).RefinedBy P := by
  refine .of_reach (callOf_prefixComplete _ _ _) (by simpa using hcap) (by simpa using hagree) ?_ ?_
  · intro offset m _ hr
    have hle := callOf_false_reachesQuick.1 hr
    exact Or.inr (by omega)
  · intro offset m ho hr _
    have hle := (callOf_false_reaches ho).1 hr
    have hlen : P.history.length = P.dictStart.length + P.lowPrefix.length := List.length_append
    rcases Nat.lt_or_ge m offset with hlt | hge
    · have hfar := (hagree (offset - m) (by omega) (by omega) (by omega)).1
      omega
    · omega

theorem callOf_false_refinedBy_true (h : List UInt8) (n : Nat) :
    (callOf false h n).RefinedBy (callOf true h n) := by
  exact callOf_external_refinedBy (by simp)
    (by simpa using AgreeBack.refl _ _)

/-- Without history its place does not matter. -/
theorem callOf_nil_refinedBy (adjacent adjacent' : Bool) (n : Nat) :
    (callOf adjacent [] n).RefinedBy (callOf adjacent' [] n) := by
  refine .of_reach (callOf_prefixComplete _ _ _) (by simp) (by simpa using AgreeBack.nil _ _) ?_ ?_
  · intro offset m _ hr
    cases adjacent <;> cases adjacent' <;>
      simpa [callOf_true_reachesQuick, callOf_false_reachesQuick] using hr
  · intro offset m ho hr
    cases adjacent <;> cases adjacent' <;>
      simpa [callOf_true_reaches, callOf_false_reaches ho] using hr

theorem prefix64k_prefixComplete {h : List UInt8} (hl : KB64 - 1 ≤ h.length) (n : Nat) :
    (DecodeCall.mk .withPrefix64k (window KB64 h) [] n).PrefixComplete := by
  intro _
  have hlow := length_window KB64 h
  simp only
  omega

/-- 64 KB in front of `dst`, whatever else stands there. -/
theorem prefix64k_refinedBy {h : List UInt8} (hl : KB64 - 1 ≤ h.length) (n : Nat) :
    (DecodeCall.mk .withPrefix64k (window KB64 h) [] n).RefinedBy (callOf true h n) ∧
      (callOf true h n).RefinedBy ⟨.withPrefix64k, window KB64 h, [], n⟩ := by
  have hlow := length_window KB64 h
  have hwindow : window KB64 (DecodeCall.mk .withPrefix64k (window KB64 h) [] n).history =
      window KB64 (callOf true h n).history := by
    have hlow : (DecodeCall.mk .withPrefix64k (window KB64 h) [] n).history = window KB64 h :=
      List.nil_append _
    rw [hlow, callOf_history, window_window]
  constructor
  · refine .of_reach (prefix64k_prefixComplete hl n) (by simp)
      (.of_window_eq hwindow (Nat.sub_le _ _)) ?_ ?_
    · intro offset m ho _
      exact callOf_true_reachesQuick.2 (by omega)
    · intro offset m ho _
      exact callOf_true_reaches.2 (by omega)
  · refine .of_reach (callOf_prefixComplete _ _ _) (by simp)
      (.of_window_eq hwindow.symm (Nat.sub_le _ _)) ?_ ?_
    · intro offset m _ _
      exact Or.inl rfl
    · intro offset m ho _ _
      simp only
      omega

theorem callOf_ok_iff {fastLoop adjacent : Bool} {h src out : List UInt8} {n : Nat} :
    LZ4_decompress_generic fastLoop (callOf adjacent h n) src = .ok out ↔
      (n = 0 → src = [0]) ∧ Decodes (callOf adjacent h n) src [] out := by
  rw [LZ4_decompress_generic_ok_iff (callOf_prefixComplete _ _ _), callOf_outputSize]

/-- `LZ4_decompress_safe_usingDict` decodes with the whole dictionary as history. -/
theorem LZ4_decompress_safe_usingDict_ok_iff {fastLoop adjacent : Bool}
    {source dictStart out : List UInt8} {n : Nat} :
    LZ4_decompress_safe_usingDict fastLoop source n dictStart adjacent = .ok out ↔
      LZ4_decompress_generic fastLoop (callOf adjacent dictStart n) source = .ok out := by
  unfold LZ4_decompress_safe_usingDict
  by_cases hnil : dictStart.length = 0
  · obtain rfl := List.eq_nil_of_length_eq_zero hnil
    rw [if_pos hnil]
    exact ⟨decode_of_refined (callOf_prefixComplete true [] n) (callOf_prefixComplete _ _ _)
        (callOf_nil_refinedBy true adjacent n),
      decode_of_refined (callOf_prefixComplete _ _ _) (callOf_prefixComplete true [] n)
        (callOf_nil_refinedBy adjacent true n)⟩
  · rw [if_neg hnil]
    cases adjacent with
    | false => exact Iff.rfl
    | true =>
      by_cases hlong : KB64 - 1 ≤ dictStart.length
      · have hcomplete := prefix64k_prefixComplete hlong n
        obtain ⟨h1, h2⟩ := prefix64k_refinedBy hlong n
        simp only [if_true, if_pos hlong]
        exact ⟨decode_of_refined hcomplete (callOf_prefixComplete _ _ _) h1,
          decode_of_refined (callOf_prefixComplete _ _ _) hcomplete h2⟩
      · simp only [if_true, if_neg hlong]
        exact Iff.rfl

theorem usingDict_length_le {fastLoop adjacent : Bool} {source dictStart out : List UInt8}
    {n : Nat}
    (h : LZ4_decompress_safe_usingDict fastLoop source n dictStart adjacent = .ok out) :
    out.length ≤ n := by
  have hd := (callOf_ok_iff.1 (LZ4_decompress_safe_usingDict_ok_iff.1 h)).2
  simpa using hd.length_le

theorem usingDict_congr_window {fastLoop adjacent : Bool} {source d d' out : List UInt8}
    {n : Nat} (hw : window KB64 d = window KB64 d') :
    LZ4_decompress_safe_usingDict fastLoop source n d adjacent = .ok out ↔
      LZ4_decompress_safe_usingDict fastLoop source n d' adjacent = .ok out := by
  rw [LZ4_decompress_safe_usingDict_ok_iff, LZ4_decompress_safe_usingDict_ok_iff]
  exact ⟨decode_of_refined (callOf_prefixComplete _ _ _) (callOf_prefixComplete _ _ _)
      (callOf_refinedBy_of_window adjacent hw n),
    decode_of_refined (callOf_prefixComplete _ _ _) (callOf_prefixComplete _ _ _)
      (callOf_refinedBy_of_window adjacent hw.symm n)⟩

theorem usingDict_of_external {fastLoop : Bool} {source d out : List UInt8} {n : Nat}
    (h : LZ4_decompress_safe_usingDict fastLoop source n d false = .ok out)
    (adjacent : Bool) :
    LZ4_decompress_safe_usingDict fastLoop source n d adjacent = .ok out := by
  cases adjacent with
  | false => exact h
  | true =>
    rw [LZ4_decompress_safe_usingDict_ok_iff] at h ⊢
    exact decode_of_refined (callOf_prefixComplete _ _ _) (callOf_prefixComplete _ _ _)
      (callOf_false_refinedBy_true d n) h

end PythonLz4.Block.DecompressGeneric
