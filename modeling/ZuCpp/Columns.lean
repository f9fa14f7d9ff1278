import ZuCpp.Error
import ZuCpp.Lib.Run
import ZuCpp.Lib.Tiles

/-!
# The columns of a result, whole and by the chunk

A column is read as a span over the engine's memory.  The engine fills some columns while it
runs the statement and converts others when they are read, a chunk into a buffer that the next
call for the same column and accessor may fill anew.

* **A span that is good reads its rows** (`spans_right`): in every state of every program, the
  span of a column and the last span of a chunk reach the values of the rows they are over, and
  no others.
* **The chunks are the column** (`chunks_cover`): a loop over the chunks, each read before the
  next is asked for, reads what the whole column has.
-/

namespace ZuCpp.Columns

open Lib

inductive Accessor
  | ints | doubles | nodeOffsets | valid
  deriving DecidableEq, Repr

def Accessor.whole : Accessor → Str
  | .ints => ascii "zu_result_col_i64"
  | .doubles => ascii "zu_result_col_f64"
  | .nodeOffsets => ascii "zu_result_col_node_offset"
  | .valid => ascii "zu_result_col_valid"

def Accessor.chunk : Accessor → Str
  | .ints => ascii "zu_result_chunk_col_i64"
  | .doubles => ascii "zu_result_chunk_col_f64"
  | .nodeOffsets => ascii "zu_result_chunk_col_node_offset"
  | .valid => ascii "zu_result_chunk_col_valid"

structure ChunkExtent where
  offset : UInt64 := 0
  rows : UInt64 := 0
  deriving DecidableEq, Repr

/-- Where the engine has values: its own buffer of a column, which stays as it is while the
result is there, or the one it converts chunks into. -/
inductive Place
  | own | converted
  deriving DecidableEq, Repr

structure Pointer where
  place : Place
  accessor : Accessor
  col : UInt32
  index : Nat
  deriving DecidableEq, Repr

structure Span where
  p : Option Pointer := none
  size : UInt64 := 0
  deriving DecidableEq, Repr

/-- What a call of the engine's answers: the status, and the pointer it wrote. -/
abbrev Answer := Status × Option Pointer

/-! ### The readers -/

/-- `Result::span_impl`, `answer` being what `fn` answers. -/
def spanImpl (answer : Answer) (rows : UInt64) (what : Str) : MemM (Outcome Span) := do
  match ← checkedStatus answer.1 what with
  | some e => return .error e
  | none =>
    if answer.1 = .done ∨ answer.2 = none then return .ok {}
    else return .ok ⟨answer.2, rows⟩

/-- `Result::chunk_column_impl`, `extent` being what `zu_result_chunk` answers. -/
def chunkColumnImpl (extent : Status × ChunkExtent) (answer : Answer) (what : Str) :
    MemM (Outcome Span) := do
  match ← checkedStatus extent.1 (ascii "zu_result_chunk") with
  | some e => return .error e
  | none =>
    match ← checkedStatus answer.1 what with
    | some e => return .error e
    | none =>
      if answer.2 = none then return .ok {}
      else return .ok ⟨answer.2, extent.2.rows⟩

/-! ### The engine -/

def ChunkExtent.piece (extent : ChunkExtent) : Nat × Nat := (extent.offset.toNat, extent.rows.toNat)

/-- A `zu_result`, as far as its columns go.  A value is its 64 bits. -/
structure EngineColumns where
  /-- `zu_result_rows` -/
  rows : UInt64
  chunks : List ChunkExtent
  /-- a column as an accessor reads it, and `none` where it refuses to -/
  column : Accessor → UInt32 → Option (List UInt64)
  full : ∀ a col c, column a col = some c → c.length = rows.toNat
  tiled : Tiles 0 (chunks.map ChunkExtent.piece) rows.toNat
  /-- `zu_result_chunk_count` is a number of 64 bits -/
  countable : chunks.length < 2 ^ 64

namespace EngineColumns

variable (t : EngineColumns)

def chunk (i : UInt64) : Status × ChunkExtent :=
  match t.chunks[i.toNat]? with
  | some extent => (.ok, extent)
  | none => (.misuse, {})

/-- What the call for a whole column may answer: its own buffer, or that there is nothing to
read where there are no rows. -/
def WholeAnswer (a : Accessor) (col : UInt32) (answer : Answer) : Prop :=
  (t.column a col = none → ¬ (answer.1 = .ok ∨ answer.1 = .done)) ∧
  (t.column a col ≠ none → answer = (.ok, some ⟨.own, a, col, 0⟩) ∨
    t.rows = 0 ∧ (answer.1 = .done ∨ answer = (.ok, none)))

/-- What the call for a chunk may answer, and leave in the buffer that chunks are converted
into: a place in its own buffer, or the converted rows. -/
def ChunkAnswer (extent : ChunkExtent) (a : Accessor) (col : UInt32) (answer : Answer)
    (left : List UInt64) : Prop :=
  (t.column a col = none → ¬ (answer.1 = .ok ∨ answer.1 = .done)) ∧
  (t.column a col ≠ none → answer = (.ok, some ⟨.own, a, col, extent.offset.toNat⟩) ∨
    answer = (.ok, some ⟨.converted, a, col, 0⟩) ∧
      piece ((t.column a col).getD []) extent.piece <+: left ∨
    extent.rows = 0 ∧ (answer = (.ok, none) ∨ answer = (.done, none)))

instance (a : Accessor) (col : UInt32) (answer : Answer) :
    Decidable (t.WholeAnswer a col answer) := inferInstanceAs (Decidable (_ ∧ _))

instance (extent : ChunkExtent) (a : Accessor) (col : UInt32) (answer : Answer)
    (left : List UInt64) : Decidable (t.ChunkAnswer extent a col answer left) :=
  inferInstanceAs (Decidable (_ ∧ _))

end EngineColumns

/-! ### Programs -/

/-- A span that was handed out, and the rows it was asked for. -/
structure Issued where
  span : Span
  accessor : Accessor
  col : UInt32
  extent : ChunkExtent
  /-- it is over a chunk, -/
  chunked : Bool
  /-- and there was a later call for its column and accessor -/
  stale : Bool := false
  deriving DecidableEq, Repr

/-- A result, the spans into it, and what is in the buffers that chunks are converted into. -/
structure World where
  table : EngineColumns
  alive : Bool := true
  mem : Mem := {}
  converted : Accessor → UInt32 → List UInt64 := fun _ _ => []
  spans : List Issued := []

/-- One call, with what the engine answers to it and what it leaves in the buffer that chunks
are converted into. -/
inductive Op
  /-- `r.ints(col)` and its like -/
  | whole (a : Accessor) (col : UInt32) (answer : Answer) (left : List UInt64)
  /-- `r.chunk_ints(i, col)` and its like -/
  | chunk (i : UInt64) (a : Accessor) (col : UInt32) (answer : Answer) (left : List UInt64)
  /-- `~Result()` -/
  | destroy
  deriving DecidableEq, Repr

/-- The span of a chunk of this column and accessor is not good any more. -/
def Issued.touch (a : Accessor) (col : UInt32) (x : Issued) : Issued :=
  if x.chunked = true ∧ x.accessor = a ∧ x.col = col then { x with stale := true } else x

namespace World

variable (w : World)

def answered (a : Accessor) (col : UInt32) (left : List UInt64) (extent : ChunkExtent)
    (chunked : Bool) (o : Outcome Span × Mem) : World :=
  { w with
    mem := o.2
    converted := fun a' col' => if a' = a ∧ col' = col then left else w.converted a' col'
    spans := w.spans.map (Issued.touch a col) ++
      match o.1 with
      | .ok span => [⟨span, a, col, extent, chunked, false⟩]
      | .error _ => [] }

/-- One call.  `none`: the result is gone, or the engine does not answer so. -/
def step : Op → Option World
  | .whole a col answer left =>
    if w.alive = true ∧ w.table.WholeAnswer a col answer then
      some (w.answered a col left ⟨0, w.table.rows⟩ false
        (spanImpl answer w.table.rows a.whole w.mem))
    else none
  | .chunk i a col answer left =>
    let extent := w.table.chunk i
    let o := chunkColumnImpl extent answer a.chunk w.mem
    if w.alive = false then none
    else if extent.1 ≠ .ok then
      -- the column is not asked for
      some { w with mem := o.2 }
    else if w.table.ChunkAnswer extent.2 a col answer left then
      some (w.answered a col left extent.2 true o)
    else none
  | .destroy => if w.alive then some { w with alive := false } else none

def buffer (p : Pointer) : List UInt64 :=
  match p.place with
  | .own => (w.table.column p.accessor p.col).getD []
  | .converted => w.converted p.accessor p.col

/-- What is read through a span.  `none`: it is not there, or not that much of it. -/
def contents (s : Span) : Option (List UInt64) :=
  match s.p with
  | none => if s.size = 0 then some [] else none
  | some p =>
    let run := (w.buffer p).drop p.index
    if w.alive = true ∧ s.size.toNat ≤ run.length then some (run.take s.size.toNat) else none

def start (t : EngineColumns) : World := { table := t }

/-! ### A span that is good -/

/-- The invariant: a span is over the buffer of its own column, and one that is good reaches its
rows. -/
structure Sound (w : World) : Prop where
  place : ∀ x ∈ w.spans, ∀ p, x.span.p = some p → p.accessor = x.accessor ∧ p.col = x.col ∧
    (x.chunked = false → p.place = .own)
  good : w.alive = true → ∀ x ∈ w.spans, x.stale = false →
    ∃ c, w.table.column x.accessor x.col = some c ∧
      w.contents x.span = some (piece c x.extent.piece)

variable {w : World} {a : Accessor} {col : UInt32} {c left : List UInt64} {extent : ChunkExtent}

theorem sound_start (t : EngineColumns) : Sound (start t) :=
  ⟨fun _ hx => absurd hx List.not_mem_nil, fun _ _ hx => absurd hx List.not_mem_nil⟩

theorem contents_congr {w' : World} {s : Span} (halive : w'.alive = w.alive)
    (h : ∀ p, s.p = some p → w'.buffer p = w.buffer p) : w'.contents s = w.contents s := by
  rw [contents, contents]
  cases hp : s.p with
  | none => rfl
  | some p =>
    dsimp only
    rw [h p hp, halive]

theorem buffer_answered {chunked : Bool} {o : Outcome Span × Mem} {p : Pointer}
    (h : p.place = .own ∨ ¬ (p.accessor = a ∧ p.col = col)) :
    (w.answered a col left extent chunked o).buffer p = w.buffer p := by
  rw [buffer, buffer]
  cases hp : p.place with
  | own => rfl
  | converted =>
    have hkey : ¬ (p.accessor = a ∧ p.col = col) := by simpa [hp] using h
    exact if_neg hkey

/-- What the new span has to be, for the others are good as long as they count as it. -/
theorem sound_answered (hw : Sound w) {chunked : Bool} {o : Outcome Span × Mem}
    (hnew : ∀ span, o.1 = .ok span →
      (∀ p, span.p = some p → p.accessor = a ∧ p.col = col ∧ (chunked = false → p.place = .own)) ∧
      (w.alive = true → ∃ c, w.table.column a col = some c ∧
        (w.answered a col left extent chunked o).contents span = some (piece c extent.piece))) :
    Sound (w.answered a col left extent chunked o) := by
  -- a span of before: touched, or over another buffer
  have hmem : ∀ x ∈ (w.answered a col left extent chunked o).spans,
      (∃ y ∈ w.spans, y.touch a col = x) ∨
        ∃ span, o.1 = .ok span ∧ x = ⟨span, a, col, extent, chunked, false⟩ := by
    intro x hx
    rcases List.mem_append.mp hx with hx | hx
    · exact .inl (List.mem_map.mp hx)
    · cases ho : o.1 with
      | error e => simp [ho] at hx
      | ok span => exact .inr ⟨span, rfl, by simpa [ho] using hx⟩
  have htouch : ∀ y : Issued, (y.touch a col).span = y.span ∧
      (y.touch a col).accessor = y.accessor ∧ (y.touch a col).col = y.col ∧
      (y.touch a col).extent = y.extent ∧ (y.touch a col).chunked = y.chunked := by
    intro y
    rw [Issued.touch]
    split <;> exact ⟨rfl, rfl, rfl, rfl, rfl⟩
  constructor
  · intro x hx
    rcases hmem x hx with ⟨y, hy, rfl⟩ | ⟨span, ho, rfl⟩
    · obtain ⟨hspan, ha, hcol, -, hchunked⟩ := htouch y
      rw [hspan, ha, hcol, hchunked]
      exact hw.place y hy
    · exact (hnew span ho).1
  · intro halive x hx hfresh
    rcases hmem x hx with ⟨y, hy, rfl⟩ | ⟨span, ho, rfl⟩
    · have hkept : y.stale = false ∧ ¬ (y.chunked = true ∧ y.accessor = a ∧ y.col = col) := by
        rw [Issued.touch] at hfresh
        split at hfresh
        · cases hfresh
        · rename_i h
          exact ⟨hfresh, h⟩
      obtain ⟨hspan, ha, hcol, hextent, -⟩ := htouch y
      rw [hspan, ha, hcol, hextent]
      obtain ⟨c, hc, hcontents⟩ := hw.good halive y hy hkept.1
      refine ⟨c, hc, ?_⟩
      rw [← hcontents]
      refine contents_congr rfl fun p hp => buffer_answered ?_
      obtain ⟨hpa, hpcol, hpown⟩ := hw.place y hy p hp
      cases hchunked : y.chunked with
      | false => exact .inl (hpown hchunked)
      | true => exact .inr fun hkey => hkept.2 ⟨hchunked, hpa ▸ hkey.1, hpcol ▸ hkey.2⟩
    · exact (hnew span ho).2 halive

/-! ### What the readers answer -/

theorem spanImpl_eq (answer : Answer) (rows : UInt64) (what : Str) (m : Mem) :
    spanImpl answer rows what m
      = (if answer.1 = .ok ∨ answer.1 = .done then
          .ok (if answer.1 = .done ∨ answer.2 = none then {} else ⟨answer.2, rows⟩)
        else .error (.ofStatus answer.1 what), m) := by
  rw [spanImpl, bind_of_eq (checkedStatus_eq _ _ m)]
  by_cases h : answer.1 = .ok ∨ answer.1 = .done
  · simp only [if_pos h]
    split <;> rfl
  · simp only [if_neg h]
    rfl

theorem chunkColumnImpl_refused {extent : Status × ChunkExtent}
    (h : ¬ (extent.1 = .ok ∨ extent.1 = .done)) (answer : Answer) (what : Str) (m : Mem) :
    chunkColumnImpl extent answer what m
      = (.error (.ofStatus extent.1 (ascii "zu_result_chunk")), m) := by
  rw [chunkColumnImpl, bind_of_eq (checkedStatus_eq _ _ m)]
  simp only [if_neg h]
  rfl

theorem chunkColumnImpl_eq {extent : Status × ChunkExtent}
    (hextent : extent.1 = .ok ∨ extent.1 = .done) (answer : Answer) (what : Str) (m : Mem) :
    chunkColumnImpl extent answer what m
      = (if answer.1 = .ok ∨ answer.1 = .done then
          .ok (if answer.2 = none then {} else ⟨answer.2, extent.2.rows⟩)
        else .error (.ofStatus answer.1 what), m) := by
  rw [chunkColumnImpl, bind_of_eq (checkedStatus_eq _ _ m)]
  simp only [if_pos hextent]
  rw [bind_of_eq (checkedStatus_eq _ _ m)]
  by_cases h : answer.1 = .ok ∨ answer.1 = .done
  · simp only [if_pos h]
    split <;> rfl
  · simp only [if_neg h]
    rfl

/-- What is read through a pointer that has its rows behind it. -/
theorem contents_of_buffer (halive : w.alive = true) {p : Pointer} {n : UInt64}
    (hle : p.index + n.toNat ≤ (w.buffer p).length) :
    w.contents ⟨some p, n⟩ = some (piece (w.buffer p) (p.index, n.toNat)) := by
  have hrun : n.toNat ≤ ((w.buffer p).drop p.index).length := by
    rw [List.length_drop]
    omega
  rw [contents]
  exact if_pos ⟨halive, hrun⟩

theorem chunk_ok {t : EngineColumns} {i : UInt64} (h : (t.chunk i).1 = .ok) :
    t.chunks[i.toNat]? = some (t.chunk i).2 := by
  rw [EngineColumns.chunk] at h ⊢
  cases hi : t.chunks[i.toNat]? with
  | none =>
    rw [hi] at h
    cases h
  | some extent => rfl

def Over (a : Accessor) (col : UInt32) (c left : List UInt64) (extent : ChunkExtent)
    (chunked : Bool) (s : Span) : Prop :=
  s = ⟨some ⟨.own, a, col, extent.offset.toNat⟩, extent.rows⟩ ∨
    chunked = true ∧ s = ⟨some ⟨.converted, a, col, 0⟩, extent.rows⟩ ∧
      piece c extent.piece <+: left ∨
    s = {} ∧ extent.rows = 0

theorem contents_of_over {chunked : Bool} {o : Outcome Span × Mem} {s : Span}
    (halive : w.alive = true) (hc : w.table.column a col = some c)
    (hle : extent.offset.toNat + extent.rows.toNat ≤ c.length)
    (hs : Over a col c left extent chunked s) :
    (w.answered a col left extent chunked o).contents s = some (piece c extent.piece) := by
  rcases hs with rfl | ⟨-, rfl, behind, rfl⟩ | ⟨rfl, hrows⟩
  · have hbuffer : (w.answered a col left extent chunked o).buffer
        ⟨.own, a, col, extent.offset.toNat⟩ = c := by
      show (w.table.column a col).getD [] = c
      rw [hc]
      rfl
    rw [contents_of_buffer (w := w.answered a col left extent chunked o) halive
      (by rw [hbuffer]; exact hle), hbuffer]
    rfl
  · have hlength : (piece c extent.piece).length = extent.rows.toNat := length_piece hle
    have hbuffer : (w.answered a col (piece c extent.piece ++ behind) extent chunked o).buffer
        ⟨.converted, a, col, 0⟩ = piece c extent.piece ++ behind := if_pos ⟨rfl, rfl⟩
    have hreach : 0 + extent.rows.toNat ≤ (piece c extent.piece ++ behind).length := by
      rw [List.length_append]
      omega
    rw [contents_of_buffer (w := w.answered a col _ extent chunked o) halive
      (by rw [hbuffer]; exact hreach), hbuffer]
    exact congrArg some (List.take_left' hlength)
  · rw [piece, ChunkExtent.piece, hrows]
    rfl

theorem sound_of_over (hw : Sound w) {chunked : Bool} {o : Outcome Span × Mem}
    (ho : ∀ s, o.1 = .ok s → ∃ c, w.table.column a col = some c ∧
      extent.offset.toNat + extent.rows.toNat ≤ c.length ∧ Over a col c left extent chunked s) :
    Sound (w.answered a col left extent chunked o) := by
  refine sound_answered hw fun s hs => ?_
  obtain ⟨c, hc, hle, hover⟩ := ho s hs
  refine ⟨?_, fun halive => ⟨c, hc, contents_of_over halive hc hle hover⟩⟩
  intro p hp
  rcases hover with rfl | ⟨hchunked, rfl, -⟩ | ⟨rfl, -⟩
  · cases hp
    exact ⟨rfl, rfl, fun _ => rfl⟩
  · cases hp
    exact ⟨rfl, rfl, fun h => by rw [hchunked] at h; cases h⟩
  · cases hp

theorem sound_whole (hw : Sound w) {answer : Answer} (hanswer : w.table.WholeAnswer a col answer) :
    Sound (w.answered a col left ⟨0, w.table.rows⟩ false
      (spanImpl answer w.table.rows a.whole w.mem)) := by
  refine sound_of_over hw fun s hs => ?_
  rw [spanImpl_eq] at hs
  cases hc : w.table.column a col with
  | none =>
    rw [if_neg (hanswer.1 hc)] at hs
    cases hs
  | some c =>
    have hfull := w.table.full a col c hc
    refine ⟨c, rfl, by rw [hfull]; exact Nat.le_of_eq (Nat.zero_add _), ?_⟩
    rcases hanswer.2 (by simp [hc]) with rfl | ⟨hrows, hdone | rfl⟩
    · cases hs
      exact .inl rfl
    · simp only [hdone, or_true, true_or, if_true, Except.ok.injEq] at hs
      exact .inr (.inr ⟨hs.symm, hrows⟩)
    · cases hs
      exact .inr (.inr ⟨rfl, hrows⟩)

theorem sound_chunk (hw : Sound w) {answer : Answer} (hmem : extent ∈ w.table.chunks)
    (hanswer : w.table.ChunkAnswer extent a col answer left) :
    Sound (w.answered a col left extent true
      (chunkColumnImpl (.ok, extent) answer a.chunk w.mem)) := by
  refine sound_of_over hw fun s hs => ?_
  rw [chunkColumnImpl_eq (Or.inl rfl)] at hs
  cases hc : w.table.column a col with
  | none =>
    rw [if_neg (hanswer.1 hc)] at hs
    cases hs
  | some c =>
    refine ⟨c, rfl, ?_, ?_⟩
    · rw [w.table.full a col c hc]
      exact w.table.tiled.le_of_mem (List.mem_map_of_mem hmem)
    · rcases hanswer.2 (by simp [hc]) with rfl | ⟨rfl, hleft⟩ | ⟨hrows, rfl | rfl⟩
      · cases hs
        exact .inl rfl
      · cases hs
        rw [hc] at hleft
        exact .inr (.inl ⟨rfl, rfl, hleft⟩)
      · cases hs
        exact .inr (.inr ⟨rfl, hrows⟩)
      · cases hs
        exact .inr (.inr ⟨rfl, hrows⟩)

/-! ### The runs -/

theorem sound_step {w' : World} {op : Op} (hw : Sound w) (h : w.step op = some w') :
    Sound w' ∧ w'.table = w.table := by
  cases op with
  | whole a col answer left =>
    rw [step] at h
    split at h
    · rename_i hanswer
      cases h
      exact ⟨sound_whole hw hanswer.2, rfl⟩
    · cases h
  | chunk i a col answer left =>
    simp only [step] at h
    split at h
    · cases h
    · split at h
      · cases h
        exact ⟨⟨hw.place, hw.good⟩, rfl⟩
      · rename_i hok
        rw [not_not] at hok
        split at h
        · rename_i hanswer
          cases h
          have hmem := List.mem_of_getElem? (chunk_ok hok)
          have hextent : w.table.chunk i = (.ok, (w.table.chunk i).2) := Prod.ext hok rfl
          refine ⟨?_, rfl⟩
          rw [hextent]
          exact sound_chunk hw hmem hanswer
        · cases h
  | destroy =>
    rw [step] at h
    split at h
    · cases h
      exact ⟨⟨hw.place, fun halive => by cases halive⟩, rfl⟩
    · cases h

theorem sound_exec {t : EngineColumns} {ops : List Op} (h : exec step (start t) ops = some w) :
    Sound w ∧ w.table = t := by
  refine exec_invariant (I := fun w => Sound w ∧ w.table = t) ?_ ⟨sound_start t, rfl⟩ h
  rintro w op w' ⟨hw, htable⟩ hstep
  obtain ⟨hw', htable'⟩ := sound_step hw hstep
  exact ⟨hw', htable'.trans htable⟩

/-- **A span that is good reads its rows.**  In every state of every program, as long as the result
is there, the span of a whole column, and that of a chunk that no later call was for the column
and accessor of, reaches as many values as its rows are, and they are the values of these rows. -/
theorem spans_right {t : EngineColumns} {ops : List Op} (h : exec step (start t) ops = some w)
    (halive : w.alive = true) {x : Issued} (hx : x ∈ w.spans) (hfresh : x.stale = false) :
    ∃ c, t.column x.accessor x.col = some c ∧
      w.contents x.span = some (piece c x.extent.piece) := by
  obtain ⟨hw, rfl⟩ := sound_exec h
  exact hw.good halive x hx hfresh

def twoChunks : EngineColumns where
  rows := 3
  chunks := [⟨0, 2⟩, ⟨2, 1⟩]
  column a col := if a = .ints ∧ col = 0 then some [4, 8, 15] else none
  full a col c h := by
    split at h
    · cases h
      rfl
    · cases h
  tiled := ⟨rfl, rfl, rfl⟩
  countable := by decide

def intoBuffer : Answer := (.ok, some ⟨.converted, .ints, 0, 0⟩)

def bothConverted : List Op :=
  [.chunk 0 .ints 0 intoBuffer [4, 8], .chunk 1 .ints 0 intoBuffer [15, 8]]

theorem spans_right_twoChunks : ∃ w x, exec step (start twoChunks) bothConverted = some w ∧
    w.spans.getLast? = some x ∧ w.contents x.span = some [15] := by
  have h : exec step (start twoChunks) bothConverted = some _ := rfl
  obtain ⟨c, hc, hcontents⟩ := spans_right h rfl (.tail _ (.head _)) rfl
  cases hc
  exact ⟨_, _, h, rfl, hcontents⟩

/-! ### Chunk by chunk -/

/-- The loop over `k` chunks from the `i`-th on that reads each before it asks for the next, and
what it has read. -/
def readChunks (a : Accessor) (col : UInt32) (answers : Nat → Answer × List UInt64) :
    Nat → Nat → World → Option (World × List UInt64)
  | 0, _, w => some (w, [])
  | k + 1, i, w => do
    let w ← w.step (.chunk (.ofNat i) a col (answers i).1 (answers i).2)
    let v ← w.spans.getLast?
    let run ← w.contents v.span
    let (w, read) ← readChunks a col answers k (i + 1) w
    some (w, run ++ read)

/-- One turn of the loop: the chunk is answered, and its span is good. -/
theorem chunk_turn (hw : Sound w) (halive : w.alive = true) (hc : w.table.column a col = some c)
    {i : Nat} (hi : w.table.chunks[i]? = some extent) {answer : Answer}
    (hanswer : w.table.ChunkAnswer extent a col answer left) :
    ∃ w' v, w.step (.chunk (.ofNat i) a col answer left) = some w' ∧ w'.alive = true ∧
      w'.table = w.table ∧ w'.spans.getLast? = some v ∧
      w'.contents v.span = some (piece c extent.piece) := by
  have hlt : i < w.table.chunks.length := (List.getElem?_eq_some_iff.mp hi).1
  have hnat : (UInt64.ofNat i).toNat = i := by
    rw [UInt64.toNat_ofNat']
    exact Nat.mod_eq_of_lt (hlt.trans w.table.countable)
  have hchunk : w.table.chunk (.ofNat i) = (.ok, extent) := by
    rw [EngineColumns.chunk, hnat, hi]
  have hstep : w.step (.chunk (.ofNat i) a col answer left)
      = some (w.answered a col left extent true
          (chunkColumnImpl (.ok, extent) answer a.chunk w.mem)) := by
    rw [step]
    simp [hchunk, halive, hanswer]
  have hok : answer.1 = .ok ∨ answer.1 = .done := by
    rcases hanswer.2 (by simp [hc]) with rfl | ⟨rfl, -⟩ | ⟨-, rfl | rfl⟩ <;> simp
  obtain ⟨span, hspan⟩ :
      ∃ span, (chunkColumnImpl (.ok, extent) answer a.chunk w.mem).1 = .ok span := by
    rw [chunkColumnImpl_eq (Or.inl rfl)]
    exact ⟨_, if_pos hok⟩
  have hlast : (w.answered a col left extent true
      (chunkColumnImpl (.ok, extent) answer a.chunk w.mem)).spans.getLast?
        = some ⟨span, a, col, extent, true, false⟩ := by
    rw [answered, hspan]
    simp
  have hsound := (sound_step hw hstep).1
  obtain ⟨c', hc', hcontents⟩ := hsound.good halive _ (List.mem_of_getLast? hlast) rfl
  cases hc.symm.trans hc'
  exact ⟨_, _, hstep, halive, rfl, hlast, hcontents⟩

theorem readChunks_right {answers : Nat → Answer × List UInt64} {k i : Nat} (hw : Sound w)
    (halive : w.alive = true) (hc : w.table.column a col = some c)
    (hk : w.table.chunks.length = i + k)
    (hanswers : ∀ j extent, w.table.chunks[j]? = some extent →
      w.table.ChunkAnswer extent a col (answers j).1 (answers j).2) :
    ∃ w', readChunks a col answers k i w
      = some (w', ((w.table.chunks.drop i).map ChunkExtent.piece).flatMap (piece c)) := by
  induction k generalizing i w with
  | zero =>
    refine ⟨w, ?_⟩
    rw [readChunks, List.drop_of_length_le (by omega)]
    rfl
  | succ k ih =>
    have hlt : i < w.table.chunks.length := by omega
    have hi := List.getElem?_eq_getElem hlt
    obtain ⟨w₁, v, hstep, halive₁, htable, hlast, hcontents⟩ :=
      chunk_turn hw halive hc hi (hanswers i _ hi)
    have hw₁ := (sound_step hw hstep).1
    obtain ⟨w', hrest⟩ := ih (i := i + 1) (w := w₁) hw₁ halive₁ (by rw [htable, hc])
      (by rw [htable]; omega) (by rw [htable]; exact hanswers)
    rw [htable] at hrest
    refine ⟨w', ?_⟩
    rw [readChunks, hstep]
    simp only [Option.bind_eq_bind, Option.bind_some, hlast, hcontents, hrest]
    rw [List.drop_eq_getElem_cons hlt]
    rfl

/-- **The chunks are the column.**  In any state that a program reaches, whatever it has read and
whichever chunks the engine converts, the loop over the chunks of a column is not refused, and
reads the values of the whole column, in their order. -/
theorem chunks_cover {t : EngineColumns} {ops : List Op} (h : exec step (start t) ops = some w)
    (halive : w.alive = true) (hc : t.column a col = some c)
    {answers : Nat → Answer × List UInt64}
    (hanswers : ∀ j extent, t.chunks[j]? = some extent →
      t.ChunkAnswer extent a col (answers j).1 (answers j).2) :
    ∃ w', readChunks a col answers t.chunks.length 0 w = some (w', c) := by
  obtain ⟨hw, rfl⟩ := sound_exec h
  obtain ⟨w', hread⟩ := readChunks_right (k := w.table.chunks.length) (i := 0) hw halive hc
    (Nat.zero_add _).symm hanswers
  have htiled := w.table.tiled
  rw [← w.table.full a col c hc] at htiled
  refine ⟨w', ?_⟩
  rw [hread, List.drop_zero, htiled.flatMap_piece, List.drop_zero]

theorem chunks_cover_twoChunks :
    ∃ w', readChunks .ints 0 (fun i => (intoBuffer, if i = 0 then [4, 8] else [15, 8])) 2 0
      (start twoChunks) = some (w', [4, 8, 15]) := by
  have h : exec step (start twoChunks) [] = some _ := rfl
  refine chunks_cover h rfl (c := [4, 8, 15]) rfl ?_
  rintro (_ | _ | j) extent ⟨⟩
  · decide
  · decide

end World

end ZuCpp.Columns
