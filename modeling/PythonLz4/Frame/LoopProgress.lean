import Mathlib.Logic.Relation
import PythonLz4.Frame.DecompressChunk

/-!
# The loop of `__decompress`, variable by variable

The loop with the local variables of the source: cursors, the in-out parameters of
`LZ4F_decompress`, the size of the destination in `size_t` and the resize factor. It computes what
`decompressLoop` does (`runLoop_eq`). Every iteration that goes on has filled the destination, so
it resizes it; the resize factor is a power of two and the size at least the power of two of a
triangular number, so no product wraps before the address space is used up (`loop_progress`).
-/

set_option autoImplicit false

namespace PythonLz4.Frame.LoopProgress

open PythonLz4.Runtime
open PythonLz4.Frame.Header
open PythonLz4.Frame.DecompressionContext
open PythonLz4.Frame.CallBounds
open PythonLz4.Frame.DecompressChunk

/-! ## The variables -/

/-- The local variables of `__decompress` when the loop calls the library. `allocated` is the size
that was last asked for to hold the destination; pointers count from the start of their buffer. -/
structure LoopVars (σ : Type) where
  context : σ
  source_cursor : Nat
  source_read : Nat
  destination : List UInt8
  destination_cursor : Nat
  destination_write : Nat
  destination_written : Nat
  destination_size : Nat
  resize_factor : Nat
  allocated : Nat
  reads : List Nat

/-- What one iteration does: the loop is left, the destination is to be resized, or the loop goes
on. -/
inductive Iterated (σ : Type) where
  | leave (context : σ) (r : Except PyErr LoopEnd)
  | resize (v : LoopVars σ)
  | next (v : LoopVars σ)

variable {σ : Type} (lib : Library σ) (available : Nat → Bool)

/-- The variables once the library has reported what it has read and written. -/
def LoopVars.called (v : LoopVars σ) (source : List UInt8) (context : σ) (p : Progress) :
    LoopVars σ :=
  { v with
    context
    destination := v.destination.take v.destination_cursor ++ p.dst
    destination_write := p.dst.length
    destination_written := v.destination_written + p.dst.length
    source_cursor := v.source_cursor + p.srcSize
    source_read := source.length - (v.source_cursor + p.srcSize)
    reads := v.reads ++ [p.srcSize] }

/-- "resize_factor *= 2; destination_size *= resize_factor;" -/
def LoopVars.grow (v : LoopVars σ) : LoopVars σ :=
  { v with
    resize_factor := v.resize_factor * 2
    destination_size := v.destination_size * (v.resize_factor * 2) % SIZE_T }

/-- The cursor and the room for the next iteration. -/
def LoopVars.advance (v : LoopVars σ) : LoopVars σ :=
  { v with
    destination_cursor := v.destination_written
    destination_write := sizeSub v.destination_size v.destination_written }

/-- The body of the loop up to the resize. -/
def loopIteration (source : List UInt8) (max_length : Int) (v : LoopVars σ) : Iterated σ :=
  match lib.decompress v.context v.destination_write
      ((source.drop v.source_cursor).take v.source_read) with
  | (context, .error e) =>
    .leave context
      (.error ⟨.RuntimeError, "LZ4F_decompress failed with code: " ++ LZ4F_getErrorName e⟩)
  | (context, .ok p) =>
    let v := v.called source context p
    let leave (end_of_frame : Bool) : LoopEnd :=
      ⟨v.source_cursor, v.destination, p.nextSrcSizeHint, end_of_frame, v.reads⟩
    if p.nextSrcSizeHint = 0 then .leave context (.ok (leave true))
    else if v.source_cursor = source.length then .leave context (.ok (leave false))
    else if v.destination_written = v.destination_size then
      if 0 ≤ max_length then .leave context (.ok (leave false)) else .resize v
    else .next v.advance

/-- The loop, `fuel` iterations at most. -/
def runLoop (source : List UInt8) (max_length : Int) :
    Nat → LoopVars σ → Option (σ × Except PyErr LoopEnd)
  | 0, _ => none
  | fuel + 1, v =>
    match loopIteration lib source max_length v with
    | .leave context r => some (context, r)
    | .next v => runLoop source max_length fuel v
    | .resize v =>
      if allocates available v.grow.destination_size then
        runLoop source max_length fuel
          { v.grow with allocated := v.grow.destination_size }.advance
      else some (v.context, .error ⟨.RuntimeError, "Failed to resize buffer"⟩)

/-- One iteration after which the loop goes on. -/
inductive Continues (source : List UInt8) (max_length : Int) (v : LoopVars σ) : LoopVars σ → Prop
  | next {w : LoopVars σ} (h : loopIteration lib source max_length v = .next w) :
      Continues source max_length v w
  | resized {w : LoopVars σ} (h : loopIteration lib source max_length v = .resize w)
      (halloc : allocates available w.grow.destination_size) :
      Continues source max_length v { w.grow with allocated := w.grow.destination_size }.advance

/-- The variables when the loop is entered, if it is. -/
def loopEntry (context : σ) (source : List UInt8) (max_length : Int) (full_frame : Bool) :
    Option (LoopVars σ) :=
  let enter (context : σ) (source_read destination_size : Nat) (reads : List Nat) :
      Option (LoopVars σ) :=
    if allocates available destination_size then
      some
        { context
          source_cursor := source_read
          source_read := source.length - source_read
          destination := []
          destination_cursor := 0
          destination_write := destination_size
          destination_written := 0
          destination_size
          resize_factor := 1
          allocated := destination_size
          reads }
    else none
  if full_frame then
    match lib.getFrameInfo context source with
    | (_, .error _) => none
    | (context, .ok (frame_info, source_read)) =>
      enter context source_read
        (if 0 < frame_info.contentSize then frame_info.contentSize
        else 2 * (source.length - source_read))
        [source_read]
  else enter context 0 (if 0 ≤ max_length then max_length.toNat else 2 * source.length) []

/-! ## The invariant -/

/-- The variables as `decompressLoop` has them. -/
def LoopVars.toLoop (v : LoopVars σ) : Loop σ :=
  ⟨v.context, v.source_cursor, v.destination, v.destination_size, v.resize_factor, v.reads⟩

/-- What holds whenever the loop calls the library, after `k` resizes. -/
structure VarsBounds (ok : σ → Prop) (source : List UInt8) (max_length : Int) (k : Nat)
    (v : LoopVars σ) : Prop where
  loop : LoopBounds ok source max_length k v.toLoop
  read_eq : v.source_read = source.length - v.source_cursor
  cursor_eq : v.destination_cursor = v.destination.length
  written_eq : v.destination_written = v.destination.length
  write_eq : v.destination_write = v.destination_size - v.destination.length
  allocated_eq : v.allocated = v.destination_size

variable {lib available} {ok : σ → Prop} {source : List UInt8} {max_length : Int} {k : Nat}
  {v v' w : LoopVars σ}

/-- The call of the library, in the terms of `decompressLoop`. -/
theorem VarsBounds.call_eq (hv : VarsBounds ok source max_length k v) :
    lib.decompress v.context v.destination_write
        ((source.drop v.source_cursor).take v.source_read) =
      lib.decompress v.context (v.destination_size - v.destination.length)
        (source.drop v.source_cursor) := by
  rw [hv.write_eq, hv.read_eq, List.take_of_length_le]
  rw [List.length_drop]

/-- An iteration that does not leave the loop wants to resize, and has filled a destination that is
not empty. -/
theorem VarsBounds.iteration (hlib : lib.Lawful ok) (hv : VarsBounds ok source max_length k v) :
    (∃ context r, loopIteration lib source max_length v = .leave context r ∧ ok context ∧
      ∀ e, r = .ok e → EndBounds source max_length e) ∨
    ∃ context p, loopIteration lib source max_length v = .resize (v.called source context p) ∧
      ok context ∧ v.source_cursor + p.srcSize ≤ source.length ∧
      (v.destination ++ p.dst).length = v.destination_size ∧
      2 ^ (k * (k + 1) / 2) ≤ v.destination_size := by
  obtain ⟨hcontext, hcall⟩ := hlib.decompress v.context
    (v.destination_size - v.destination.length) (source.drop v.source_cursor) hv.loop.context
  unfold loopIteration
  rw [hv.call_eq]
  generalize lib.decompress v.context (v.destination_size - v.destination.length)
    (source.drop v.source_cursor) = r at hcontext hcall ⊢
  obtain ⟨context, e | p⟩ := r
  · exact Or.inl ⟨context, _, rfl, hcontext, nofun⟩
  have hp := hcall p rfl
  have hsrc := hp.srcSize
  have hdst := hp.dst
  have hwritten : v.destination.length ≤ v.destination_size := hv.loop.written_le
  have hcursor : v.source_cursor ≤ source.length := hv.loop.cursor_le
  rw [List.length_drop] at hsrc
  have hle : v.source_cursor + p.srcSize ≤ source.length := by omega
  have hsum : (v.reads ++ [p.srcSize]).sum = v.source_cursor + p.srcSize := by
    have hreads : v.reads.sum = v.source_cursor := hv.loop.reads_sum
    rw [List.sum_append, List.sum_singleton, hreads]
  dsimp only
  by_cases hend : p.nextSrcSizeHint = 0
  · rw [if_pos hend]
    refine Or.inl ⟨context, _, rfl, hcontext, fun e he => ?_⟩
    obtain rfl := Except.ok.inj he
    exact ⟨hle, hsum, ⟨fun _ => hend, fun _ => rfl⟩, nofun⟩
  rw [if_neg hend]
  by_cases hused : (v.called source context p).source_cursor = source.length
  · rw [if_pos hused]
    refine Or.inl ⟨context, _, rfl, hcontext, fun e he => ?_⟩
    obtain rfl := Except.ok.inj he
    exact ⟨hle, hsum, ⟨nofun, fun h => absurd h hend⟩, fun _ => Or.inl hused⟩
  rw [if_neg hused]
  have hmore : v.source_cursor + p.srcSize ≠ source.length := hused
  -- the library has stopped with input left: the destination is full
  have hfull : v.destination.length + p.dst.length = v.destination_size := by
    rcases hp.reason hend with hread | hfull
    · rw [List.length_drop] at hread
      omega
    · omega
  have hsize : (v.called source context p).destination_written =
      (v.called source context p).destination_size := by
    show v.destination_written + p.dst.length = v.destination_size
    rw [hv.written_eq]
    exact hfull
  rw [if_pos hsize]
  by_cases hmax : 0 ≤ max_length
  · rw [if_pos hmax]
    refine Or.inl ⟨context, _, rfl, hcontext, fun e he => ?_⟩
    obtain rfl := Except.ok.inj he
    exact ⟨hle, hsum, ⟨nofun, fun h => absurd h hend⟩, fun _ => Or.inr hmax⟩
  rw [if_neg hmax]
  refine Or.inr ⟨context, p, rfl, hcontext, hle, by rw [List.length_append]; exact hfull, ?_⟩
  rcases hv.loop.size_ge with ⟨-, hall | hbounded⟩ | hge
  · have hall' : v.source_cursor = source.length := hall
    omega
  · exact absurd hbounded hmax
  · exact hge

/-- What the library writes is put behind what has been written. -/
theorem VarsBounds.called_destination (hv : VarsBounds ok source max_length k v)
    (source : List UInt8) (context : σ) (p : Progress) : (v.called source context p).destination = v.destination ++ p.dst := by
  rw [LoopVars.called, hv.cursor_eq, List.take_of_length_le (Nat.le_refl _)]

/-- A resize multiplies the size by the next power of two: the product is exact, and the factor an
`int`. -/
theorem VarsBounds.grow (hv : VarsBounds ok source max_length k v)
    (hge : 2 ^ (k * (k + 1) / 2) ≤ v.destination_size) (context : σ) (p : Progress) :
    (v.called source context p).grow.resize_factor = 2 ^ (k + 1) ∧
      (v.called source context p).grow.destination_size = v.destination_size * 2 ^ (k + 1) ∧
      (v.called source context p).grow.resize_factor ≤ INT_MAX ∧
      v.destination_size * 2 ^ (k + 1) < SIZE_T ∧
      0 < v.destination_size ∧ v.destination_size < v.destination_size * 2 ^ (k + 1) := by
  have hle : v.destination_size ≤ ADDRESS_SPACE := hv.loop.size_le
  have hfactor : v.resize_factor = 2 ^ k := hv.loop.factor_eq
  have hk := resizes_le hge hle
  have hpow : 2 ^ (k + 1) ≤ 2 ^ 10 := Nat.pow_le_pow_right (by decide) (by omega)
  have hsize := resize_eq hge hle
  have hlt : v.destination_size * 2 ^ (k + 1) < SIZE_T := by
    rw [← hsize]
    exact Nat.mod_lt _ (by decide)
  have hpos : 0 < v.destination_size := Nat.lt_of_lt_of_le (Nat.two_pow_pos _) hge
  have htwo : 1 < 2 ^ (k + 1) := Nat.one_lt_two_pow (Nat.succ_ne_zero k)
  refine ⟨?_, ?_, ?_, hlt, hpos, ?_⟩
  · show v.resize_factor * 2 = 2 ^ (k + 1)
    rw [hfactor, Nat.pow_succ]
  · show v.destination_size * (v.resize_factor * 2) % SIZE_T = _
    rw [hfactor]
    exact hsize
  · show v.resize_factor * 2 ≤ INT_MAX
    rw [hfactor, ← Nat.pow_succ]
    exact Nat.le_trans hpow (by decide)
  · exact (Nat.lt_mul_iff_one_lt_right hpos).2 htwo

/-- The invariant after one more resize. -/
theorem VarsBounds.resized (hv : VarsBounds ok source max_length k v) {context : σ} {p : Progress}
    (hcontext : ok context) (hle : v.source_cursor + p.srcSize ≤ source.length)
    (hfull : (v.destination ++ p.dst).length = v.destination_size)
    (hge : 2 ^ (k * (k + 1) / 2) ≤ v.destination_size)
    (halloc : allocates available (v.called source context p).grow.destination_size) :
    VarsBounds ok source max_length (k + 1)
      { (v.called source context p).grow with
        allocated := (v.called source context p).grow.destination_size }.advance := by
  obtain ⟨hfactor, hsize, -, hlt, -, hgrows⟩ := hv.grow hge context p
  have hdestination := hv.called_destination source context p
  have hwritten : v.destination_written + p.dst.length = (v.destination ++ p.dst).length := by
    rw [List.length_append, hv.written_eq]
  have hreads : v.reads.sum = v.source_cursor := hv.loop.reads_sum
  refine
    { loop :=
        { context := hcontext
          cursor_le := hle
          reads_sum := by
            show (v.reads ++ [p.srcSize]).sum = v.source_cursor + p.srcSize
            rw [List.sum_append, List.sum_singleton, hreads]
          written_le := ?_
          factor_eq := hfactor
          size_le := halloc.1
          size_ge := Or.inr ?_ }
      read_eq := rfl
      cursor_eq := ?_
      written_eq := ?_
      write_eq := ?_
      allocated_eq := rfl }
  · show (v.called source context p).destination.length ≤
      (v.called source context p).grow.destination_size
    rw [hdestination, hsize, hfull]
    exact Nat.le_of_lt hgrows
  · show _ ≤ (v.called source context p).grow.destination_size
    rw [hsize, triangular_succ, Nat.pow_add]
    exact Nat.mul_le_mul_right _ hge
  · show v.destination_written + p.dst.length = (v.called source context p).destination.length
    rw [hdestination, hwritten]
  · show v.destination_written + p.dst.length = (v.called source context p).destination.length
    rw [hdestination, hwritten]
  · show sizeSub (v.called source context p).grow.destination_size
        (v.destination_written + p.dst.length) =
      (v.called source context p).grow.destination_size -
        (v.called source context p).destination.length
    rw [hdestination, hwritten, hsize, hfull]
    exact sizeSub_of_le (Nat.le_of_lt hgrows) hlt

/-- An iteration after which the loop goes on has resized the destination. -/
theorem VarsBounds.continues (hlib : lib.Lawful ok) (hv : VarsBounds ok source max_length k v)
    (h : Continues lib available source max_length v v') :
    VarsBounds ok source max_length (k + 1) v' ∧ v.destination_size < v'.destination_size := by
  rcases hv.iteration hlib with ⟨context, r, hleave, -, -⟩ | ⟨context, p, hresize, hc, hle, hfull, hge⟩
  · cases h with
    | next hnext =>
      rw [hleave] at hnext
      cases hnext
    | resized hresize _ =>
      rw [hleave] at hresize
      cases hresize
  · cases h with
    | next hnext =>
      rw [hresize] at hnext
      cases hnext
    | resized hresize' halloc =>
      rw [hresize] at hresize'
      cases hresize'
      obtain ⟨-, hsize, -, -, -, hgrows⟩ := hv.grow hge context p
      refine ⟨hv.resized hc hle hfull hge halloc, ?_⟩
      show v.destination_size < (v.called source context p).grow.destination_size
      rw [hsize]
      exact hgrows

/-! ## Runs -/

/-- One iteration of `decompressLoop`, in terms of the variables. -/
theorem VarsBounds.decompressLoop_succ (hv : VarsBounds ok source max_length k v) (fuel : Nat) :
    decompressLoop lib available source max_length (fuel + 1) v.toLoop =
      match loopIteration lib source max_length v with
      | .leave context r => some (context, r)
      | .next w => decompressLoop lib available source max_length fuel w.toLoop
      | .resize w =>
        if allocates available w.grow.destination_size then
          decompressLoop lib available source max_length fuel w.grow.toLoop
        else some (w.context, .error ⟨.RuntimeError, "Failed to resize buffer"⟩) := by
  rw [decompressLoop, loopIteration, hv.call_eq]
  show (match lib.decompress v.context (v.destination_size - v.destination.length)
    (source.drop v.source_cursor) with | (context, .error e) => _ | (context, .ok p) => _) = _
  generalize lib.decompress v.context (v.destination_size - v.destination.length)
    (source.drop v.source_cursor) = r
  obtain ⟨context, e | p⟩ := r
  · rfl
  have hdestination := hv.called_destination source context p
  have hwritten : v.destination_written + p.dst.length = (v.destination ++ p.dst).length := by
    rw [List.length_append, hv.written_eq]
  dsimp only
  rw [hdestination]
  by_cases hend : p.nextSrcSizeHint = 0
  · rw [if_pos hend, if_pos hend]
    rfl
  rw [if_neg hend, if_neg hend]
  by_cases hused : v.source_cursor + p.srcSize = source.length
  · rw [if_pos (show v.toLoop.source_cursor + p.srcSize = _ from hused),
      if_pos (show (v.called source context p).source_cursor = _ from hused)]
    rfl
  rw [if_neg (show ¬ v.toLoop.source_cursor + p.srcSize = _ from hused),
    if_neg (show ¬ (v.called source context p).source_cursor = _ from hused)]
  by_cases hfull : (v.destination ++ p.dst).length = v.destination_size
  · have hsize : (v.called source context p).destination_written =
        (v.called source context p).destination_size := hwritten.trans hfull
    rw [if_pos (show (v.toLoop.destination ++ p.dst).length = v.toLoop.destination_size from hfull),
      if_pos hsize]
    by_cases hmax : 0 ≤ max_length
    · rw [if_pos hmax, if_pos hmax]
      rfl
    · rw [if_neg hmax, if_neg hmax]
      dsimp only [LoopVars.toLoop, LoopVars.grow]
      rw [hdestination]
      rfl
  · have hsize : ¬ (v.called source context p).destination_written =
        (v.called source context p).destination_size := fun h => hfull (hwritten.symm.trans h)
    rw [if_neg (show ¬ (v.toLoop.destination ++ p.dst).length = v.toLoop.destination_size from
      hfull), if_neg hsize]
    dsimp only [LoopVars.toLoop, LoopVars.advance]
    rw [hdestination]
    rfl

/-- The loop with all its variables is the loop of the model. -/
theorem VarsBounds.runLoop_eq (hlib : lib.Lawful ok) (fuel : Nat)
    (hv : VarsBounds ok source max_length k v) :
    runLoop lib available source max_length fuel v =
      decompressLoop lib available source max_length fuel v.toLoop := by
  induction fuel generalizing k v with
  | zero => rfl
  | succ fuel ih =>
    rw [hv.decompressLoop_succ fuel, runLoop]
    rcases hv.iteration hlib with ⟨context, r, hleave, -, -⟩ |
      ⟨context, p, hresize, hc, hle, hfull, hge⟩
    · rw [hleave]
    · rw [hresize]
      dsimp only
      split_ifs with halloc
      · exact ih (hv.resized hc hle hfull hge halloc)
      · rfl

/-- Every state of the loop is within the bounds. -/
theorem VarsBounds.reached (hlib : lib.Lawful ok) (hv : VarsBounds ok source max_length 0 v)
    (h : Relation.ReflTransGen (Continues lib available source max_length) v w) :
    ∃ k, VarsBounds ok source max_length k w := by
  induction h with
  | refl => exact ⟨0, hv⟩
  | tail _ hstep ih =>
    obtain ⟨k, hk⟩ := ih
    exact ⟨k + 1, (hk.continues hlib hstep).1⟩

/-- The loop is entered within the bounds. -/
theorem loopEntry_bounds (hlib : lib.Lawful ok) {context : σ} (hcontext : ok context)
    {full_frame : Bool} (h : loopEntry lib available context source max_length full_frame = some v) :
    VarsBounds ok source max_length 0 v := by
  have hkey : ∀ (context : σ) (source_read destination_size : Nat) (reads : List Nat), ok context →
      source_read ≤ source.length → reads.sum = source_read →
      (source_read = source.length ∨ 0 ≤ max_length ∨ 0 < destination_size) →
      (if allocates available destination_size then
        some (⟨context, source_read, source.length - source_read, [], 0, destination_size, 0,
          destination_size, 1, destination_size, reads⟩ : LoopVars σ)
      else none) = some v → VarsBounds ok source max_length 0 v := by
    intro context source_read destination_size reads hc hle hreads hsize hv
    split_ifs at hv with halloc
    obtain rfl := Option.some.inj hv
    exact
      { loop :=
          { context := hc
            cursor_le := hle
            reads_sum := hreads
            written_le := Nat.zero_le _
            factor_eq := rfl
            size_le := halloc.1
            size_ge := by
              rcases hsize with hall | hbounded | hpos
              · exact Or.inl ⟨rfl, Or.inl hall⟩
              · exact Or.inl ⟨rfl, Or.inr hbounded⟩
              · exact Or.inr hpos }
        read_eq := rfl
        cursor_eq := rfl
        written_eq := rfl
        write_eq := rfl
        allocated_eq := rfl }
  unfold loopEntry at h
  cases full_frame with
  | false =>
    refine hkey context 0 _ [] hcontext (Nat.zero_le _) rfl ?_ h
    by_cases hmax : 0 ≤ max_length
    · exact Or.inr (Or.inl hmax)
    · rw [if_neg hmax]
      omega
  | true =>
    simp only [if_true] at h
    obtain ⟨hc, hread⟩ := hlib.getFrameInfo context source hcontext
    generalize lib.getFrameInfo context source = r at hc hread h
    obtain ⟨c, e | ⟨frame_info, source_read⟩⟩ := r
    · cases h
    · have hle : source_read ≤ source.length := hread _ rfl
      refine hkey c source_read _ [source_read] hc hle List.sum_singleton ?_ h
      split_ifs
      · exact Or.inr (Or.inr (by assumption))
      · omega

/-- What `__decompress` makes of the end of the loop. -/
def afterLoop (available : Nat → Bool) (full_frame : Bool) :
    σ × Except PyErr LoopEnd → σ × Except PyErr LoopEnd
  | (context, .ok e) =>
    if full_frame ∧ 0 < e.result then
      (context, .error ⟨.RuntimeError,
        "Frame incomplete. LZ4F_decompress returned: " ++ toString e.result⟩)
    else if allocates available e.destination.length then (context, .ok e)
    else (context, .error PyErr_NoMemory)
  | r => r

/-- `__decompress` enters this loop, and returns what comes after it. -/
theorem decompress_of_loopEntry (hlib : lib.Lawful ok) {context : σ} (hcontext : ok context)
    {full_frame : Bool} (h : loopEntry lib available context source max_length full_frame = some v) :
    ∃ r, runLoop lib available source max_length loopFuel v = some r ∧
      __decompress lib available context source max_length full_frame =
        some (afterLoop available full_frame r) := by
  have hv := loopEntry_bounds hlib hcontext h
  obtain ⟨r, hr, -, -⟩ := decompressLoop_returns available hlib hv.loop
    (show loopFuel + 0 = loopFuel from rfl)
  refine ⟨r, (hv.runLoop_eq hlib loopFuel).trans hr, ?_⟩
  have hkey : ∀ (context : σ) (source_read destination_size : Nat) (reads : List Nat),
      (if allocates available destination_size then
        some (⟨context, source_read, source.length - source_read, [], 0, destination_size, 0,
          destination_size, 1, destination_size, reads⟩ : LoopVars σ)
      else none) = some v →
      decompressFrom lib available source max_length full_frame context source_read
        destination_size reads = some (afterLoop available full_frame r) := by
    intro context source_read destination_size reads hv
    split_ifs at hv with halloc
    obtain rfl := Option.some.inj hv
    have hloop : decompressLoop lib available source max_length loopFuel
        ⟨context, source_read, [], destination_size, 1, reads⟩ = some r := hr
    obtain ⟨c, e | e⟩ := r
    · rw [decompressFrom, if_pos halloc, hloop]
      rfl
    · rw [decompressFrom, if_pos halloc, hloop]
      simp only [afterLoop]
      split_ifs <;> rfl
  unfold loopEntry at h
  unfold __decompress
  cases full_frame with
  | false => exact hkey context 0 _ [] h
  | true =>
    simp only [if_true] at h ⊢
    generalize lib.getFrameInfo context source = q at h ⊢
    obtain ⟨c, e | ⟨frame_info, source_read⟩⟩ := q
    · cases h
    · exact hkey c source_read _ [source_read] h

/-! ## Contexts of the library -/

/-- A context that calls of the library have led to. -/
inductive ContextReached (fastLoop : Bool) : LZ4F_dctx → Prop
  | create : ContextReached fastLoop LZ4F_createDecompressionContext
  | reset {c : LZ4F_dctx} (h : ContextReached fastLoop c) :
      ContextReached fastLoop (LZ4F_resetDecompressionContext c)
  | getFrameInfo {c : LZ4F_dctx} (src : List UInt8) (h : ContextReached fastLoop c) :
      ContextReached fastLoop (LZ4F_getFrameInfo fastLoop c src).1
  | decompress {c : LZ4F_dctx} (dstCapacity : Nat) (src : List UInt8)
      (h : ContextReached fastLoop c) :
      ContextReached fastLoop (LZ4F_decompress fastLoop c (some dstCapacity) src).1

theorem ContextReached.bounds {fastLoop : Bool} {context : LZ4F_dctx}
    (h : ContextReached fastLoop context) : FieldBounds context := by
  have hlib := lz4frame_lawful fastLoop
  induction h with
  | create => exact hlib.create
  | reset _ ih => exact hlib.reset _ ih
  | getFrameInfo src _ ih => exact (hlib.getFrameInfo _ src ih).1
  | decompress dstCapacity src _ ih => exact (hlib.decompress _ dstCapacity src ih).1

/-- The loop ends. Until it does, the room given to the library is what is allocated less what is
written; an iteration that wants a resize has a destination to enlarge and enlarges it by an exact
product; and an iteration after which the loop goes on has moved forward. -/
theorem loop_progress (fastLoop : Bool) (available : Nat → Bool) {context : LZ4F_dctx}
    (hcontext : ContextReached fastLoop context) (source : List UInt8) (max_length : Int)
    (full_frame : Bool) :
    (∃ r, __decompress (lz4frame fastLoop) available context source max_length full_frame =
      some r) ∧
    ∀ v₀, loopEntry (lz4frame fastLoop) available context source max_length full_frame = some v₀ →
      (∃ r, runLoop (lz4frame fastLoop) available source max_length loopFuel v₀ = some r ∧
        __decompress (lz4frame fastLoop) available context source max_length full_frame =
          some (afterLoop available full_frame r)) ∧
      ∀ v, Relation.ReflTransGen
          (Continues (lz4frame fastLoop) available source max_length) v₀ v →
        v.allocated = v.destination_size ∧
        v.destination_write + v.destination_written = v.allocated ∧
        v.destination_written = v.destination.length ∧
        (∀ w, loopIteration (lz4frame fastLoop) source max_length v = .resize w →
          0 < w.destination_size ∧ w.destination_size < w.grow.destination_size ∧
          w.grow.destination_size = w.destination_size * (w.resize_factor * 2) ∧
          w.resize_factor * 2 ≤ INT_MAX) ∧
        ∀ v', Continues (lz4frame fastLoop) available source max_length v v' →
          v.source_cursor < v'.source_cursor ∨ v.destination_written < v'.destination_written ∨
            v.destination_size < v'.destination_size := by
  have hlib := lz4frame_lawful fastLoop
  have hok := hcontext.bounds
  obtain ⟨r, hr, -⟩ := decompress_frame_returns available hlib hok source max_length full_frame
  refine ⟨⟨r, hr⟩, fun v₀ hentry => ⟨decompress_of_loopEntry hlib hok hentry, fun v hreached => ?_⟩⟩
  obtain ⟨k, hv⟩ := (loopEntry_bounds hlib hok hentry).reached hlib hreached
  have hwritten : v.destination.length ≤ v.destination_size := hv.loop.written_le
  refine ⟨hv.allocated_eq, ?_, hv.written_eq, fun w hw => ?_, fun v' hv' => ?_⟩
  · rw [hv.write_eq, hv.written_eq, hv.allocated_eq]
    omega
  · rcases hv.iteration hlib with ⟨context, r, hleave, -, -⟩ | ⟨context, p, hresize, -, -, -, hge⟩
    · rw [hleave] at hw
      cases hw
    · rw [hresize] at hw
      cases hw
      obtain ⟨hfactor, hsize, hint, -, hpos, hgrows⟩ := hv.grow hge context p
      have hfactor' : (v.called source context p).resize_factor * 2 = 2 ^ (k + 1) := hfactor
      refine ⟨hpos, ?_, ?_, hint⟩
      · rw [hsize]
        exact hgrows
      · rw [hsize, hfactor']
        rfl
  · exact Or.inr (Or.inr (hv.continues hlib hv').2)

/-- The loop on the magic number of a frame, with room for eight bytes. -/
theorem loop_progress_magic :
    ContextReached true LZ4F_createDecompressionContext ∧
    ∃ v₀, loopEntry (lz4frame true) (fun _ => true) LZ4F_createDecompressionContext
        [4, 34, 77, 24] (-1) false = some v₀ ∧
      ∃ r, runLoop (lz4frame true) (fun _ => true) [4, 34, 77, 24] (-1) loopFuel v₀ = some r := by
  obtain ⟨v₀, hentry⟩ : ∃ v₀, loopEntry (lz4frame true) (fun _ => true)
      LZ4F_createDecompressionContext [4, 34, 77, 24] (-1) false = some v₀ := by
    have hroom : allocates (fun _ => true) (2 * [4, 34, 77, 24].length) := ⟨by decide, rfl⟩
    rw [loopEntry, if_neg (by decide), if_neg (by decide)]
    exact ⟨_, if_pos hroom⟩
  obtain ⟨⟨r, hr, -⟩, -⟩ :=
    (@loop_progress true (fun _ => true) _ .create [4, 34, 77, 24] (-1) false).2 v₀ hentry
  exact ⟨.create, v₀, hentry, r, hr⟩

end PythonLz4.Frame.LoopProgress
