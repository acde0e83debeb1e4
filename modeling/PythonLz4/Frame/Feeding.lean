import PythonLz4.Frame.BytewiseDecoder

/-!
# Runs and the bytes they take

A call takes some of its input, and what it has written together with what is pending is what these
bytes decode to (`run_stop_feed`). It stops early only when its destination is full
(`run_stop_full`). With all of the input taken, output is left behind only when the content fits
without the last byte and does not fit with it (`run_leaves_output`).
-/

set_option autoImplicit false

namespace PythonLz4.Frame.BytewiseDecoder

open PythonLz4.Lib.LittleEndian
open PythonLz4.Block.DecompressGeneric
open PythonLz4.Frame.XXHash
open PythonLz4.Frame.Header

section Feeding

variable {fastLoop adjacent : Bool} {cap : Nat}

/-! ## Feeding -/

theorem emit_nil (f : Fed) : f.emit [] = f := by
  cases f <;> rfl

theorem emit_emit (f : Fed) (piece piece' : List UInt8) :
    (f.emit piece').emit piece = f.emit (piece ++ piece') := by
  cases f <;> simp only [Fed.emit, List.append_assoc]

theorem emit_eq_next {f : Fed} {piece out : List UInt8} {s : Reader}
    (h : f.emit piece = .next s out) : ∃ out', f = .next s out' ∧ out = piece ++ out' := by
  cases f with
  | fail => cases h
  | finish => cases h
  | next s' out' =>
    obtain ⟨rfl, rfl⟩ := Fed.next.inj h
    exact ⟨out', rfl, rfl⟩

theorem feed_cons {s s₁ : Reader} {x : UInt8} {piece : List UInt8}
    (h : absorb fastLoop adjacent s x = .next s₁ piece) (xs : List UInt8) :
    feed fastLoop adjacent s (x :: xs) = (feed fastLoop adjacent s₁ xs).emit piece := by
  simp only [feed, h]

theorem feed_cons_eq_next {s s' : Reader} {x : UInt8} {xs out : List UInt8}
    (h : feed fastLoop adjacent s (x :: xs) = .next s' out) :
    ∃ s₁ piece out', absorb fastLoop adjacent s x = .next s₁ piece ∧
      feed fastLoop adjacent s₁ xs = .next s' out' ∧ out = piece ++ out' := by
  unfold feed at h
  cases hx : absorb fastLoop adjacent s x with
  | fail =>
    rw [hx] at h
    cases h
  | finish remaining =>
    rw [hx] at h
    cases h
  | next s₁ piece =>
    rw [hx] at h
    obtain ⟨out', h', rfl⟩ := emit_eq_next h
    exact ⟨s₁, piece, out', rfl, h', rfl⟩

theorem emit_eq_finish {f : Fed} {piece out rest : List UInt8} {remaining : Nat}
    (h : f.emit piece = .finish remaining out rest) :
    ∃ out', f = .finish remaining out' rest ∧ out = piece ++ out' := by
  cases f with
  | fail => cases h
  | next => cases h
  | finish remaining' out' rest' =>
    obtain ⟨rfl, rfl, rfl⟩ := Fed.finish.inj h
    exact ⟨out', rfl, rfl⟩

theorem feed_cons_eq_finish {s : Reader} {x : UInt8} {xs out rest : List UInt8} {remaining : Nat}
    (h : feed fastLoop adjacent s (x :: xs) = .finish remaining out rest) :
    (absorb fastLoop adjacent s x = .finish remaining ∧ out = [] ∧ rest = xs) ∨
      ∃ s₁ piece out', absorb fastLoop adjacent s x = .next s₁ piece ∧
        feed fastLoop adjacent s₁ xs = .finish remaining out' rest ∧ out = piece ++ out' := by
  unfold feed at h
  cases hx : absorb fastLoop adjacent s x with
  | fail =>
    rw [hx] at h
    cases h
  | finish remaining' =>
    rw [hx] at h
    obtain ⟨rfl, rfl, rfl⟩ := Fed.finish.inj h
    exact Or.inl ⟨rfl, rfl, rfl⟩
  | next s₁ piece =>
    rw [hx] at h
    obtain ⟨out', h', rfl⟩ := emit_eq_finish h
    exact Or.inr ⟨s₁, piece, out', rfl, h', rfl⟩

/-- What is fed in two parts. -/
theorem feed_append {s s' : Reader} {bytes out : List UInt8}
    (h : feed fastLoop adjacent s bytes = .next s' out) (rest : List UInt8) :
    feed fastLoop adjacent s (bytes ++ rest) = (feed fastLoop adjacent s' rest).emit out := by
  induction bytes generalizing s out with
  | nil =>
    obtain ⟨rfl, rfl⟩ := Fed.next.inj h
    rw [emit_nil]
    rfl
  | cons x bytes ih =>
    obtain ⟨s₁, piece, out', hx, h', rfl⟩ := feed_cons_eq_next h
    rw [List.cons_append, feed_cons hx, ih h', emit_emit]

/-- The state behind the first part. -/
theorem feed_of_append {s s' : Reader} {bytes rest out : List UInt8}
    (h : feed fastLoop adjacent s (bytes ++ rest) = .next s' out) :
    ∃ s₁ out₁ out₂, feed fastLoop adjacent s bytes = .next s₁ out₁ ∧
      feed fastLoop adjacent s₁ rest = .next s' out₂ ∧ out = out₁ ++ out₂ := by
  induction bytes generalizing s out with
  | nil => exact ⟨s, [], out, rfl, h, rfl⟩
  | cons x bytes ih =>
    obtain ⟨s₁, piece, out', hx, h', rfl⟩ := feed_cons_eq_next h
    obtain ⟨s₂, out₁, out₂, h₁, h₂, rfl⟩ := ih h'
    refine ⟨s₂, piece ++ out₁, out₂, ?_, h₂, (List.append_assoc _ _ _).symm⟩
    rw [feed_cons hx, h₁]
    rfl

/-- An error is not undone. -/
theorem feed_fail_append {s : Reader} {bytes : List UInt8}
    (h : feed fastLoop adjacent s bytes = .fail) (more : List UInt8) :
    feed fastLoop adjacent s (bytes ++ more) = .fail := by
  induction bytes generalizing s with
  | nil => cases h
  | cons x xs ih =>
    rw [List.cons_append]
    unfold feed at h ⊢
    cases hx : absorb fastLoop adjacent s x with
    | fail => rfl
    | finish remaining =>
      rw [hx] at h
      cases h
    | next s₁ piece =>
      rw [hx] at h
      have hxs : feed fastLoop adjacent s₁ xs = .fail := by
        cases hfed : feed fastLoop adjacent s₁ xs with
        | fail => rfl
        | _ =>
          dsimp only at h
          rw [hfed] at h
          cases h
      dsimp only
      rw [ih hxs]
      rfl

/-- A frame that ends, with the bytes behind it. -/
theorem feed_finish_split {s : Reader} {bytes out rest : List UInt8} {remaining : Nat}
    (h : feed fastLoop adjacent s bytes = .finish remaining out rest) :
    ∃ taken, taken ≠ [] ∧ bytes = taken ++ rest ∧
      feed fastLoop adjacent s taken = .finish remaining out [] := by
  induction bytes generalizing s out with
  | nil => cases h
  | cons x xs ih =>
    rcases feed_cons_eq_finish h with ⟨hx, rfl, rfl⟩ | ⟨s₁, piece, out', hx, h', rfl⟩
    · exact ⟨[x], List.cons_ne_nil _ _, rfl, by simp only [feed, hx]⟩
    · obtain ⟨taken, -, rfl, hfeed⟩ := ih h'
      refine ⟨x :: taken, List.cons_ne_nil _ _, rfl, ?_⟩
      rw [feed_cons hx, hfeed]
      rfl

/-- More bytes stay behind the frame. -/
theorem feed_finish_append {s : Reader} {bytes out rest : List UInt8} {remaining : Nat}
    (h : feed fastLoop adjacent s bytes = .finish remaining out rest) (more : List UInt8) :
    feed fastLoop adjacent s (bytes ++ more) = .finish remaining out (rest ++ more) := by
  induction bytes generalizing s out with
  | nil => cases h
  | cons x xs ih =>
    rw [List.cons_append]
    rcases feed_cons_eq_finish h with ⟨hx, rfl, rfl⟩ | ⟨s₁, piece, out', hx, h', rfl⟩
    · simp only [feed, hx]
    · rw [feed_cons hx, ih h']
      rfl

/-- A call that stops has taken a part of its input, and what is written and what is pending is what
that part decodes to. -/
theorem run_stop_feed {s s' : Reader} {pending dst src pending' dst' rest : List UInt8}
    (h : run fastLoop adjacent cap s pending dst src = .stop s' pending' dst' rest) :
    ∃ taken out, src = taken ++ rest ∧ feed fastLoop adjacent s taken = .next s' out ∧
      dst ++ (pending ++ out) = dst' ++ pending' := by
  induction src generalizing s pending dst with
  | nil =>
    obtain ⟨rfl, rfl, rfl, rfl⟩ := Outcome.stop.inj h
    refine ⟨[], [], rfl, rfl, ?_⟩
    rw [List.append_nil, List.append_assoc, List.take_append_drop]
  | cons x xs ih =>
    unfold run at h
    split_ifs at h with hstuck
    · obtain ⟨rfl, rfl, rfl, rfl⟩ := Outcome.stop.inj h
      refine ⟨[], [], rfl, rfl, ?_⟩
      rw [List.append_nil, List.append_assoc, List.take_append_drop]
    · cases hx : absorb fastLoop adjacent s x with
      | fail =>
        rw [hx] at h
        cases h
      | finish remaining =>
        rw [hx] at h
        cases h
      | next s₁ piece =>
        rw [hx] at h
        dsimp only at h
        have hone : ∀ taken out, feed fastLoop adjacent s₁ taken = .next s' out →
            feed fastLoop adjacent s (x :: taken) = .next s' (piece ++ out) := by
          intro taken out hfeed
          simp only [feed, hx, hfeed, Fed.emit]
        split_ifs at h with henters
        · obtain ⟨rfl, rfl, rfl, rfl⟩ := Outcome.stop.inj h
          refine ⟨[x], piece ++ [], rfl, hone [] [] rfl, ?_⟩
          rw [List.append_nil, List.append_assoc]
        · obtain ⟨taken, out, rfl, hfeed, hout⟩ := ih h
          refine ⟨x :: taken, piece ++ out, rfl, hone taken out hfeed, ?_⟩
          rw [← hout, List.append_assoc]

/-- A call that ends with the frame has decoded all of it. -/
theorem run_finish_feed {s : Reader} {pending dst src dst' rest : List UInt8} {remaining : Nat}
    (h : run fastLoop adjacent cap s pending dst src = .finish remaining dst' rest) :
    ∃ taken out, src = taken ++ rest ∧ taken ≠ [] ∧
      feed fastLoop adjacent s taken = .finish remaining out [] ∧
      dst' = dst ++ (pending ++ out) := by
  induction src generalizing s pending dst with
  | nil => cases h
  | cons x xs ih =>
    unfold run at h
    split_ifs at h with hstuck
    cases hx : absorb fastLoop adjacent s x with
    | fail =>
      rw [hx] at h
      cases h
    | finish remaining =>
      rw [hx] at h
      obtain ⟨rfl, rfl, rfl⟩ := Outcome.finish.inj h
      refine ⟨[x], [], rfl, List.cons_ne_nil _ _, ?_, ?_⟩
      · simp only [feed, hx]
      · rw [List.append_nil]
    | next s₁ piece =>
      rw [hx] at h
      dsimp only at h
      split_ifs at h with henters
      obtain ⟨taken, out, rfl, -, hfeed, rfl⟩ := ih h
      refine ⟨x :: taken, piece ++ out, rfl, List.cons_ne_nil _ _, ?_, ?_⟩
      · simp only [feed, hx, hfeed, Fed.emit]
      · rw [List.append_assoc]

/-! ## Where output stays behind -/

/-- A compressed block is being collected. -/
def Field.inCBlock : Field → Bool
  | .cBlock _ _ _ => true
  | _ => false

theorem inCBlock_of_enters {f : Field} (h : f.entersCBlock = true) : f.inCBlock = true := by
  cases f with
  | cBlock => rfl
  | _ => cases h

/-- The event brings no content, and enters a compressed block at its start only. -/
def Event.Quiet (e : Event) : Prop :=
  ∀ s out, e = .next s out → out = [] ∧ (s.field.inCBlock = true → s.field.entersCBlock = true)

theorem quiet_next {s : Reader} (h : s.field.inCBlock = true → s.field.entersCBlock = true) :
    (Event.next s []).Quiet := by
  intro s' out he
  obtain ⟨rfl, rfl⟩ := Event.next.inj he
  exact ⟨rfl, h⟩

theorem quiet_fail : Event.fail.Quiet := by
  intro s out he
  cases he

theorem quiet_finish (remaining : Nat) : (Event.finish remaining).Quiet := by
  intro s out he
  cases he

theorem quiet_copyFrom (remaining target : Nat) (c : Content) (summed : List UInt8) :
    (copyFrom remaining c target summed).Quiet := by
  unfold copyFrom
  split_ifs
  · exact quiet_next (by rintro ⟨⟩)
  · exact quiet_next (by rintro ⟨⟩)
  · exact quiet_next (by rintro ⟨⟩)

theorem quiet_suffixFrom (remaining : Nat) (contentChecksumFlag : Bool) (hashed : List UInt8) :
    (suffixFrom remaining contentChecksumFlag hashed).Quiet := by
  unfold suffixFrom
  split_ifs
  · exact quiet_fail
  · exact quiet_finish remaining
  · exact quiet_next (by rintro ⟨⟩)

theorem quiet_skipFrom (remaining target : Nat) : (skipFrom remaining target).Quiet := by
  unfold skipFrom
  split_ifs
  · exact quiet_finish remaining
  · exact quiet_next (by rintro ⟨⟩)

/-- Only a compressed block brings content when it is read. -/
theorem quiet_readField {remaining : Nat} {f : Field} (hf : f.inCBlock = false) :
    (readField fastLoop adjacent remaining f).Quiet := by
  cases f with
  | header target got =>
    show (readHeader remaining target got).Quiet
    unfold readHeader
    split
    · exact quiet_fail
    · exact quiet_next (by rintro ⟨⟩)
    · exact quiet_next (by rintro ⟨⟩)
    · exact quiet_next (by rintro ⟨⟩)
  | blockHeader c got =>
    show (readBlockHeader remaining c got).Quiet
    unfold readBlockHeader
    dsimp only
    split_ifs
    · exact quiet_suffixFrom _ _ _
    · exact quiet_fail
    · exact quiet_copyFrom _ _ _ _
    · exact quiet_next fun _ => rfl
    · exact quiet_next fun _ => rfl
  | copyDirect c target summed => exact quiet_copyFrom _ _ _ _
  | blockChecksum c summed got =>
    unfold readField
    dsimp only
    split_ifs
    · exact quiet_fail
    · exact quiet_next (by rintro ⟨⟩)
  | cBlock => cases hf
  | suffix hashed got =>
    unfold readField
    dsimp only
    split_ifs
    · exact quiet_fail
    · exact quiet_finish remaining
  | skippableSize got => exact quiet_skipFrom _ _
  | skip target => exact quiet_skipFrom _ _

theorem inCBlock_append (f : Field) (bytes : List UInt8) :
    (f.append bytes).inCBlock = f.inCBlock := by
  cases f <;> rfl

/-- A compressed block that is complete leads to the next block header. -/
theorem readCBlock_next {remaining target : Nat} {c : Content} {got out : List UInt8} {s : Reader}
    (h : readCBlock fastLoop adjacent remaining c target got = .next s out) :
    s.field.inCBlock = false ∧ s.field.copies = false := by
  unfold readCBlock at h
  dsimp only at h
  generalize (if c.frameInfo.blockChecksumFlag then sizeSub target 4 else target) = t at h
  split_ifs at h
  split at h
  · cases h
  · cases h
    exact ⟨rfl, rfl⟩

/-- Content comes from an uncompressed block or at the end of a compressed one. -/
theorem absorb_out {s s₁ : Reader} {x : UInt8} {piece : List UInt8}
    (h : absorb fastLoop adjacent s x = .next s₁ piece) (hpiece : piece ≠ []) :
    s.field.copies = true ∨ s.field.inCBlock = true := by
  by_contra hnot
  rw [not_or] at hnot
  obtain ⟨hcopies, hin⟩ := hnot
  have hin' : s.field.inCBlock = false := Bool.eq_false_of_not_eq_true hin
  obtain ⟨remaining, field⟩ := s
  by_cases hgathers : field.gathers = true
  · rw [absorb_gathers hgathers] at h
    have hquiet : (readField fastLoop adjacent remaining (field.append [x])).Quiet := by
      apply quiet_readField
      rw [inCBlock_append]
      exact hin'
    dsimp only at h
    split_ifs at h
    · exact hpiece (hquiet _ _ h).1
    · exact hpiece (Event.next.inj h).2.symm
  · cases field with
    | copyDirect => exact hcopies rfl
    | skip target => exact hpiece (quiet_skipFrom _ _ _ _ h).1
    | _ => exact hgathers rfl

/-- A compressed block is entered without content. -/
theorem absorb_inCBlock {s s₁ : Reader} {x : UInt8} {piece : List UInt8}
    (h : absorb fastLoop adjacent s x = .next s₁ piece) (hin : s₁.field.inCBlock = true) :
    piece = [] ∧ (s₁.field.entersCBlock = true ∨ s.field.inCBlock = true) := by
  obtain ⟨remaining, field⟩ := s
  by_cases hgathers : field.gathers = true
  · rw [absorb_gathers hgathers] at h
    dsimp only at h
    by_cases hfield : field.inCBlock = true
    · refine ⟨?_, Or.inr hfield⟩
      split_ifs at h
      · cases field with
        | cBlock c target got =>
          rw [(readCBlock_next h).1] at hin
          cases hin
        | _ => cases hfield
      · exact (Event.next.inj h).2.symm
    · have hfield' : field.inCBlock = false := Bool.eq_false_of_not_eq_true hfield
      have hquiet : (readField fastLoop adjacent remaining (field.append [x])).Quiet := by
        apply quiet_readField
        rw [inCBlock_append]
        exact hfield'
      split_ifs at h
      · obtain ⟨hnil, henters⟩ := hquiet _ _ h
        exact ⟨hnil, Or.inl (henters hin)⟩
      · obtain ⟨rfl, rfl⟩ := Event.next.inj h
        rw [inCBlock_append, hfield'] at hin
        cases hin
  · cases field with
    | copyDirect c target summed =>
      unfold absorb copyFrom at h
      dsimp only at h
      split_ifs at h
      all_goals
        cases h
        cases hin
    | skip target =>
      obtain ⟨hnil, henters⟩ := quiet_skipFrom _ _ _ _ h
      exact ⟨hnil, Or.inl (henters hin)⟩
    | _ => exact absurd rfl hgathers

/-- A byte of an uncompressed block is content. -/
theorem absorb_copies {s s₁ : Reader} {x : UInt8} {piece : List UInt8}
    (h : absorb fastLoop adjacent s x = .next s₁ piece) (hcopies : s.field.copies = true) :
    piece = [x] := by
  obtain ⟨remaining, field⟩ := s
  cases field with
  | copyDirect c target summed =>
    unfold absorb copyFrom at h
    dsimp only at h
    split_ifs at h
    all_goals
      cases h
      rfl
  | _ => cases hcopies

/-- A call that stops with input or with output left has filled its destination. -/
theorem run_stop_full {s s' : Reader} {pending dst src pending' dst' rest : List UInt8}
    (h : run fastLoop adjacent cap s pending dst src = .stop s' pending' dst' rest)
    (hfits : dst.length ≤ cap) :
    dst'.length ≤ cap ∧ (rest ≠ [] ∨ pending' ≠ [] → dst'.length = cap) := by
  have hstuck : ∀ pending dst : List UInt8, dst.length ≤ cap →
      (dst ++ pending.take (cap - dst.length)).length ≤ cap ∧
        (pending.drop (cap - dst.length) ≠ [] →
          (dst ++ pending.take (cap - dst.length)).length = cap) := by
    intro pending dst hle
    rw [List.length_append, List.length_take, ne_eq, List.drop_eq_nil_iff]
    omega
  induction src generalizing s pending dst with
  | nil =>
    obtain ⟨rfl, rfl, rfl, rfl⟩ := Outcome.stop.inj h
    obtain ⟨hle, hfull⟩ := hstuck pending dst hfits
    exact ⟨hle, fun hor => hfull (hor.resolve_left fun hne => hne rfl)⟩
  | cons x xs ih =>
    unfold run at h
    split_ifs at h with hstop
    · obtain ⟨rfl, rfl, rfl, rfl⟩ := Outcome.stop.inj h
      refine ⟨(hstuck pending dst hfits).1, fun _ => ?_⟩
      rcases hstop with hmore | ⟨-, hfull⟩
      · rw [List.length_append, List.length_take]
        omega
      · rw [List.length_append] at hfull
        rw [List.length_append, List.length_take]
        omega
    · rw [not_or, Nat.not_lt] at hstop
      have hfits' : (dst ++ pending).length ≤ cap := by
        rw [List.length_append]
        omega
      cases hx : absorb fastLoop adjacent s x with
      | fail =>
        rw [hx] at h
        cases h
      | finish remaining =>
        rw [hx] at h
        cases h
      | next s₁ piece =>
        rw [hx] at h
        dsimp only at h
        split_ifs at h with henters
        · obtain ⟨rfl, rfl, rfl, rfl⟩ := Outcome.stop.inj h
          exact ⟨hfits', fun _ => Nat.le_antisymm hfits' henters.2⟩
        · exact ih h hfits'

/-- A call that has taken all of its input and left output behind was not full in front of the last
byte. Only a block that was entered in an earlier call can be completed without room. -/
theorem run_leaves_output {s s' : Reader} {pending dst src pending' dst' : List UInt8}
    (h : run fastLoop adjacent cap s pending dst src = .stop s' pending' dst' [])
    (hsrc : src ≠ []) (hpending : pending' ≠ [])
    (hroom : s.field.inCBlock = true → (dst ++ pending).length < cap) :
    ∃ s₁ out₁, feed fastLoop adjacent s src.dropLast = .next s₁ out₁ ∧
      (dst ++ (pending ++ out₁)).length < cap := by
  induction src generalizing s pending dst with
  | nil => exact absurd rfl hsrc
  | cons x xs ih =>
    unfold run at h
    split_ifs at h with hstop
    · cases h
    rw [not_or, Nat.not_lt] at hstop
    obtain ⟨hfits, hcopies⟩ := hstop
    cases hx : absorb fastLoop adjacent s x with
    | fail =>
      rw [hx] at h
      cases h
    | finish remaining =>
      rw [hx] at h
      cases h
    | next s₁ piece =>
      rw [hx] at h
      dsimp only at h
      split_ifs at h with henters
      · -- the next block is not entered
        obtain ⟨rfl, rfl, rfl, rfl⟩ := Outcome.stop.inj h
        exact absurd (absorb_inCBlock hx (inCBlock_of_enters henters.1)).1 hpending
      cases xs with
      | nil =>
        obtain ⟨rfl, rfl, rfl, -⟩ := Outcome.stop.inj h
        refine ⟨s, [], rfl, ?_⟩
        rw [List.append_nil]
        have hne : piece ≠ [] := by
          rintro rfl
          exact hpending List.drop_nil
        rcases absorb_out hx hne with hcopy | hin
        · exact Nat.not_le.1 fun hle => hcopies ⟨hcopy, hle⟩
        · exact hroom hin
      | cons y ys =>
        have hroom' : s₁.field.inCBlock = true → ((dst ++ pending) ++ piece).length < cap := by
          intro hin
          obtain ⟨rfl, hstart⟩ := absorb_inCBlock hx hin
          rw [List.append_nil]
          rcases hstart with hstart | hbefore
          · exact Nat.not_le.1 fun hle => henters ⟨hstart, hle⟩
          · exact hroom hbefore
        obtain ⟨s₂, out₂, hfeed, hlt⟩ := ih h (List.cons_ne_nil y ys) hroom'
        refine ⟨s₂, piece ++ out₂, ?_, ?_⟩
        · rw [List.dropLast_cons_cons, feed_cons hx, hfeed]
          rfl
        · rwa [← List.append_assoc, ← List.append_assoc, List.append_assoc (dst ++ pending)]

/-- A compressed block is completed by a call without room only when its bytes end the input. -/
theorem run_no_room {s s' : Reader} {src pending' dst' rest : List UInt8}
    (hin : s.field.inCBlock = true) (hpos : 0 < s.field.missing)
    (h : run fastLoop adjacent 0 s [] [] src = .stop s' pending' dst' rest) :
    (rest = [] → pending' ≠ [] → src.length = s.field.missing) ∧
      (src.length = s.field.missing → rest = []) := by
  obtain ⟨remaining, field⟩ := s
  cases field with
  | cBlock c target got =>
    rcases Nat.lt_or_ge src.length (Field.cBlock c target got).missing with hlt | hge
    · rw [run_short rfl hlt] at h
      obtain ⟨-, rfl, -, -⟩ := Outcome.stop.inj h
      exact ⟨fun _ hne => absurd rfl hne, fun heq => absurd heq (Nat.ne_of_lt hlt)⟩
    rw [run_complete rfl hpos hge] at h
    cases hread : readField fastLoop adjacent remaining
        ((Field.cBlock c target got).append (src.take (Field.cBlock c target got).missing)) with
    | fail =>
      rw [hread] at h
      cases h
    | finish =>
      rw [hread] at h
      cases h
    | next s₁ piece =>
      obtain ⟨hnot, -⟩ := readCBlock_next hread
      rw [hread] at h
      have henters : s₁.field.entersCBlock = false := by
        by_contra he
        rw [inCBlock_of_enters (Bool.eq_true_of_not_eq_false he)] at hnot
        cases hnot
      have hrun : run fastLoop adjacent 0 s₁ piece [] (src.drop (Field.cBlock c target got).missing) =
          .stop s' pending' dst' rest := by
        rw [← h, advance_next henters]
      constructor
      · rintro rfl hne
        by_contra hlen
        have hmore : src.drop (Field.cBlock c target got).missing ≠ [] := by
          rw [ne_eq, List.drop_eq_nil_iff]
          exact fun hle => hlen (Nat.le_antisymm hle hge)
        obtain ⟨s₂, out₂, -, hlt⟩ := run_leaves_output hrun hmore hne fun hyes => by
          rw [hnot] at hyes
          cases hyes
        exact Nat.not_lt_zero _ hlt
      · intro hlen
        have hnil : src.drop (Field.cBlock c target got).missing = [] := by
          rw [List.drop_eq_nil_iff]
          exact Nat.le_of_eq hlen
        rw [hnil] at hrun
        exact (Outcome.stop.inj hrun).2.2.2.symm
  | _ => cases hin

/-! ## Events -/

/-- What the bytes behind an event lead to. -/
def Event.feed (fastLoop adjacent : Bool) (e : Event) (src : List UInt8) : Fed :=
  match e with
  | .fail => .fail
  | .finish remaining => .finish remaining [] src
  | .next s out => (BytewiseDecoder.feed fastLoop adjacent s src).emit out

/-- A compressed block that is being collected is short of bytes, and nothing is pending. -/
def Event.Ready (e : Event) : Prop :=
  ∀ s pending, e = .next s pending → s.field.inCBlock = true → pending = [] ∧ 0 < s.field.missing

/-- The bytes of an event that has a state come one after another. -/
theorem Event.feed_append {e : Event} {s : Reader} {bytes out : List UInt8}
    (h : e.feed fastLoop adjacent bytes = .next s out) (rest : List UInt8) :
    e.feed fastLoop adjacent (bytes ++ rest) =
      (BytewiseDecoder.feed fastLoop adjacent s rest).emit out := by
  cases e with
  | fail => cases h
  | finish remaining => cases h
  | next s₀ piece =>
    obtain ⟨out', h', rfl⟩ := emit_eq_next h
    show (BytewiseDecoder.feed fastLoop adjacent s₀ (bytes ++ rest)).emit piece = _
    rw [BytewiseDecoder.feed_append h', emit_emit]

theorem Event.feed_of_append {e : Event} {s' : Reader} {bytes rest out : List UInt8}
    (h : e.feed fastLoop adjacent (bytes ++ rest) = .next s' out) :
    ∃ s₁ out₁ out₂, e.feed fastLoop adjacent bytes = .next s₁ out₁ ∧
      BytewiseDecoder.feed fastLoop adjacent s₁ rest = .next s' out₂ ∧ out = out₁ ++ out₂ := by
  cases e with
  | fail => cases h
  | finish remaining => cases h
  | next s₀ piece =>
    obtain ⟨out', h', rfl⟩ := emit_eq_next h
    obtain ⟨s₁, out₁, out₂, h₁, h₂, rfl⟩ := BytewiseDecoder.feed_of_append h'
    refine ⟨s₁, piece ++ out₁, out₂, ?_, h₂, (List.append_assoc _ _ _).symm⟩
    show (BytewiseDecoder.feed fastLoop adjacent s₀ bytes).emit piece = _
    rw [h₁]
    rfl

/-- More bytes stay behind the frame. -/
theorem Event.feed_finish_append {e : Event} {bytes out rest : List UInt8} {remaining : Nat}
    (h : e.feed fastLoop adjacent bytes = .finish remaining out rest) (more : List UInt8) :
    e.feed fastLoop adjacent (bytes ++ more) = .finish remaining out (rest ++ more) := by
  cases e with
  | fail => cases h
  | finish remaining' =>
    obtain ⟨rfl, rfl, rfl⟩ := Fed.finish.inj h
    rfl
  | next s piece =>
    obtain ⟨out', h', rfl⟩ := emit_eq_finish h
    show (BytewiseDecoder.feed fastLoop adjacent s (bytes ++ more)).emit piece = _
    rw [BytewiseDecoder.feed_finish_append h']
    rfl

/-- More bytes determine more content. -/
theorem Event.feed_length_le {e : Event} {s s' : Reader} {bytes rest out out' : List UInt8}
    (h : e.feed fastLoop adjacent bytes = .next s out)
    (h' : e.feed fastLoop adjacent (bytes ++ rest) = .next s' out') : out.length ≤ out'.length := by
  obtain ⟨s₁, out₁, out₂, h₁, -, rfl⟩ := Event.feed_of_append h'
  obtain ⟨-, rfl⟩ := Fed.next.inj (h.symm.trans h₁)
  rw [List.length_append]
  exact Nat.le_add_right _ _

theorem resume_stop_feed {e : Event} {s' : Reader} {dst src pending' dst' rest : List UInt8}
    (h : resume fastLoop adjacent cap e dst src = .stop s' pending' dst' rest) :
    ∃ taken out, src = taken ++ rest ∧ e.feed fastLoop adjacent taken = .next s' out ∧
      dst ++ out = dst' ++ pending' := by
  cases e with
  | fail => cases h
  | finish => cases h
  | next s pending =>
    obtain ⟨taken, out, hsrc, hfeed, hout⟩ := run_stop_feed h
    refine ⟨taken, pending ++ out, hsrc, ?_, hout⟩
    show (BytewiseDecoder.feed fastLoop adjacent s taken).emit pending = _
    rw [hfeed]
    rfl

theorem resume_finish_feed {e : Event} {src dst' rest : List UInt8} {remaining : Nat}
    (h : resume fastLoop adjacent cap e [] src = .finish remaining dst' rest) :
    ∃ taken, src = taken ++ rest ∧ e.feed fastLoop adjacent taken = .finish remaining dst' [] := by
  cases e with
  | fail => cases h
  | finish remaining' =>
    obtain ⟨rfl, rfl, rfl⟩ := Outcome.finish.inj h
    exact ⟨[], rfl, rfl⟩
  | next s pending =>
    obtain ⟨taken, out, hsrc, -, hfeed, rfl⟩ := run_finish_feed h
    refine ⟨taken, hsrc, ?_⟩
    show (BytewiseDecoder.feed fastLoop adjacent s taken).emit pending = _
    rw [hfeed]
    rfl

theorem resume_stop_full {e : Event} {s' : Reader} {dst src pending' dst' rest : List UInt8}
    (h : resume fastLoop adjacent cap e dst src = .stop s' pending' dst' rest)
    (hfits : dst.length ≤ cap) :
    dst'.length ≤ cap ∧ (rest ≠ [] ∨ pending' ≠ [] → dst'.length = cap) := by
  cases e with
  | fail => cases h
  | finish => cases h
  | next s pending => exact run_stop_full h hfits

/-- With all the input taken and output left behind, the content did not fit because of the last
byte. -/
theorem resume_leaves_output {e : Event} (he : e.Ready) {s' : Reader}
    {src pending' dst' : List UInt8} (hcap : 0 < cap)
    (h : resume fastLoop adjacent cap e [] src = .stop s' pending' dst' [])
    (hsrc : src ≠ []) (hpending : pending' ≠ []) :
    ∃ s₁ out₁, e.feed fastLoop adjacent src.dropLast = .next s₁ out₁ ∧ out₁.length < cap := by
  cases e with
  | fail => cases h
  | finish => cases h
  | next s pending =>
    obtain ⟨s₁, out₁, hfeed, hlt⟩ := run_leaves_output h hsrc hpending fun hin => by
      obtain ⟨rfl, -⟩ := he s pending rfl hin
      exact hcap
    refine ⟨s₁, pending ++ out₁, ?_, hlt⟩
    show (BytewiseDecoder.feed fastLoop adjacent s src.dropLast).emit pending = _
    rw [hfeed]
    rfl

end Feeding
end PythonLz4.Frame.BytewiseDecoder
