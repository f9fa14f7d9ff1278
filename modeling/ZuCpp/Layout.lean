import ZuCpp.Bulk
import ZuCpp.Lib.Bytes

/-!
# What a bulk call is read as

The bulk calls copy nothing: the engine reads the caller's memory where it lies, and knows what
lies there from the pointers, the counts, the width and the sign that it is handed.

**A column is read as what it is** (`column_arrives`): where the spans of a call have a column in
the layouts of Arrow, numbers of any type, bits, texts behind offsets of either width, views, or
edges, then whenever the call reaches the engine, what the engine reads by its arguments is that
column under that name.
-/

namespace ZuCpp

open Lib

inductive Column
  /-- integers, with what one is multiplied by and what it counts -/
  | ints (rows : List Int) (scale : Int64) (temporal : TemporalKind)
  /-- the bits of floats of `width` bytes -/
  | floats (width : Nat) (rows : List Nat)
  | bools (rows : List Bool)
  | strings (rows : List Str)
  | edges (rows : List (Nat × Nat))
  deriving DecidableEq, Repr

/-! ### The engine -/

/-- A view of Arrow's: a text of up to twelve bytes is in it, and of a longer one are a buffer
and a place in it.  `data` is where the pointers to the buffers are. -/
def view (mem : Memory) (e : ByteOrder) (data a : Nat) : Str :=
  let len := e.value (mem.read a 4)
  if len ≤ 12 then mem.read (a + 4) len
  else
    let buffer := e.value (mem.read (a + 8) 4)
    let offset := e.value (mem.read (a + 12) 4)
    mem.read (e.value (mem.read (data + buffer * 8) 8) + offset) len

namespace BulkCall

def nameRead (mem : Memory) : BulkCall → Str
  | zuFrameColInt name .. | zuFrameColFloat name .. | zuFrameColBool name ..
  | zuFrameColStr name .. | zuFrameColView name .. => mem.read name.data name.size.toNat
  | zuLoaderEdges .. => []

/-- **What the engine reads**, by the layouts of Arrow. -/
def columnRead (mem : Memory) (e : ByteOrder) : BulkCall → Column
  | zuFrameColInt _ values count bits isSigned scale temporal =>
    .ints (mem.ints e (isSigned ≠ 0) (bytesOf bits) values count.toNat) scale temporal
  | zuFrameColFloat _ values count bits =>
    .floats (bytesOf bits) (mem.words e (bytesOf bits) values count.toNat)
  | zuFrameColBool _ bitmap count => .bools (mem.bits bitmap count.toNat)
  | zuFrameColStr _ offsets wide data _ count =>
    .strings (mem.slices data
      ((mem.ints e true (if wide = 0 then 4 else 8) offsets (count.toNat + 1)).map Int.toNat))
  | zuFrameColView _ views data _ _ count =>
    .strings (Memory.every 16 (view mem e data) views count.toNat)
  | zuLoaderEdges src dst count =>
    .edges ((mem.words e 4 src count.toNat).zip (mem.words e 4 dst count.toNat))

end BulkCall

/-! ### The caller -/

section Spans

variable (mem : Memory) (e : ByteOrder) (s : Span)

def Span.Text (t : Str) : Prop := s.size.toNat = t.length ∧ mem.Has s.data t

def Span.Words (w : Nat) (ns : List Nat) : Prop :=
  s.size.toNat = ns.length ∧ (∀ n ∈ ns, n < 256 ^ w) ∧ mem.Has s.data (ns.flatMap (e.bytes w))

def Span.Ints (signed : Bool) (w : Nat) (xs : List Int) : Prop :=
  s.size.toNat = xs.length ∧ (∀ x ∈ xs, IntRange signed w x) ∧
    mem.Has s.data (xs.flatMap fun x => e.bytes w (wordOf w x))

instance (t : Str) : Decidable (s.Text mem t) := inferInstanceAs (Decidable (_ ∧ _))

instance (w : Nat) (ns : List Nat) : Decidable (s.Words mem e w ns) :=
  inferInstanceAs (Decidable (_ ∧ _))

instance (signed : Bool) (w : Nat) (xs : List Int) : Decidable (s.Ints mem e signed w xs) :=
  inferInstanceAs (Decidable (_ ∧ _))

end Spans

/-- The sixteen bytes of a view of the text `t`, which is at `offset` in the buffer `buffer` if
it is longer than twelve bytes. -/
def viewOf (e : ByteOrder) (t : Str) (buffer offset : Nat) : List UInt8 :=
  e.bytes 4 t.length ++
    if t.length ≤ 12 then t ++ List.replicate (12 - t.length) 0
    else t.take 4 ++ (e.bytes 4 buffer ++ e.bytes 4 offset)

structure Placed where
  text : Str
  buffer : Nat := 0
  offset : Nat := 0
  deriving DecidableEq, Repr

/-- A view can tell of it, and it is there, `ptrs` being where the buffers are. -/
structure Placed.There (mem : Memory) (ptrs : List Nat) (r : Placed) : Prop where
  short : r.text.length < 2 ^ 31
  buffer : 12 < r.text.length → r.buffer < 2 ^ 31
  offset : 12 < r.text.length → r.offset < 2 ^ 31
  text : 12 < r.text.length → ∃ p, ptrs[r.buffer]? = some p ∧ mem.Has (p + r.offset) r.text

inductive Bulk.Holds (M : Target) (mem : Memory) (e : ByteOrder) : Bulk → Str → Column → Prop
  | ints {name : Span} {R : NumericRange} {text : Str} {rows : List Int} (scale : Int64)
      (temporal : TemporalKind) (named : name.Text mem text) (integral : R.elem.isFloating = false)
      (values : R.values.Ints mem e (M.isSigned R.elem) (M.sizeof R.elem) rows) :
      Holds M mem e (.column name R scale temporal) text (.ints rows scale temporal)
  | floats {name : Span} {R : NumericRange} {text : Str} {rows : List Nat} (scale : Int64)
      (temporal : TemporalKind) (named : name.Text mem text) (floating : R.elem.isFloating = true)
      (values : R.values.Words mem e (M.sizeof R.elem) rows) :
      Holds M mem e (.column name R scale temporal) text (.floats (M.sizeof R.elem) rows)
  | bools {name bitmap : Span} {count : UInt64} {text : Str} {rows : List Bool}
      (named : name.Text mem text) (counted : count.toNat = rows.length)
      (bits : mem.Has bitmap.data (bitmapOf rows)) :
      Holds M mem e (.bools name bitmap count) text (.bools rows)
  /-- The first text starts at `start` in the data, which may be a slice of a longer column. -/
  | strings {wide : Bool} {name offsets data : Span} {text : Str} {rows : List Str} (start : Nat)
      (named : name.Text mem text)
      (ends : offsets.Ints mem e true (if wide then 8 else 4)
        ((offsetsFrom start rows).map Int.ofNat))
      (chars : mem.Has (data.data + start) rows.flatten) :
      Holds M mem e (.strings wide name offsets data) text (.strings rows)
  | views {name viewsBuffer buffers lens : Span} {count : UInt64} {text : Str}
      {rows : List Placed} {ptrs : List Nat} (named : name.Text mem text)
      (counted : count.toNat = rows.length) (pointers : buffers.Words mem e 8 ptrs)
      (views : mem.Has viewsBuffer.data (rows.flatMap fun r => viewOf e r.text r.buffer r.offset))
      (there : ∀ r ∈ rows, r.There mem ptrs) :
      Holds M mem e (.views name viewsBuffer buffers lens count) text
        (.strings (rows.map Placed.text))
  | edges {src dst : Span} {rows : List (Nat × Nat)}
      (sources : src.Words mem e 4 (rows.map Prod.fst))
      (targets : dst.Words mem e 4 (rows.map Prod.snd)) :
      Holds M mem e (.edges src dst) [] (.edges rows)

/-! ### The reading of what is there -/

section Reading

variable {mem : Memory} {e : ByteOrder} {s : Span}

theorem Span.Text.read {t : Str} (h : s.Text mem t) : mem.read s.data s.size.toNat = t := by
  rw [h.1]
  exact h.2

theorem Span.Words.read {w : Nat} {ns : List Nat} (h : s.Words mem e w ns) :
    mem.words e w s.data s.size.toNat = ns := by
  rw [h.1]
  exact Memory.words_of_has h.2.2 h.2.1

theorem Span.Ints.read {signed : Bool} {w : Nat} {xs : List Int} (h : s.Ints mem e signed w xs) :
    mem.ints e signed w s.data s.size.toNat = xs := by
  rw [h.1]
  exact Memory.ints_of_has h.2.2 h.2.1

theorem Span.Words.get {w k n : Nat} {ns : List Nat} (h : s.Words mem e w ns)
    (hk : ns[k]? = some n) : e.value (mem.read (s.data + k * w) w) = n := by
  have hlt : k < s.size.toNat := by
    rw [h.1]
    exact (List.getElem?_eq_some_iff.mp hk).1
  have hread : (mem.words e w s.data s.size.toNat)[k]?
      = some (e.value (mem.read (s.data + k * w) w)) := Memory.getElem?_every hlt
  rw [h.read, hk, Option.some.injEq] at hread
  exact hread.symm

@[simp] theorem length_viewOf (e : ByteOrder) (t : Str) (buffer offset : Nat) :
    (viewOf e t buffer offset).length = 16 := by
  rw [viewOf]
  split
  · simp only [List.length_append, ByteOrder.length_bytes, List.length_replicate]
    omega
  · simp only [List.length_append, ByteOrder.length_bytes, List.length_take]
    omega

/-- **A view is read as its text.** -/
theorem view_of_has {buffers : Span} {ptrs : List Nat} (hptrs : buffers.Words mem e 8 ptrs)
    {r : Placed} (hr : r.There mem ptrs) {a : Nat}
    (h : mem.Has a (viewOf e r.text r.buffer r.offset)) : view mem e buffers.data a = r.text := by
  have hword : ∀ n, n < 2 ^ 31 → n < 256 ^ 4 := fun n hn => by omega
  rw [viewOf, Memory.has_append, ByteOrder.length_bytes] at h
  obtain ⟨hlen, h⟩ := h
  rw [view, Memory.value_read hlen (hword _ hr.short)]
  dsimp only
  split at h
  · rename_i hshort
    rw [if_pos hshort]
    exact (Memory.has_append.mp h).1
  · rename_i hlong
    rw [if_neg hlong]
    have h12 : 12 < r.text.length := by omega
    have htake : (r.text.take 4).length = 4 := by
      rw [List.length_take]
      omega
    rw [Memory.has_append, Memory.has_append, htake, ByteOrder.length_bytes, Nat.add_assoc,
      Nat.add_assoc] at h
    obtain ⟨-, hbuffer, hoffset⟩ := h
    obtain ⟨p, hp, htext⟩ := hr.text h12
    rw [Memory.value_read hbuffer (hword _ (hr.buffer h12)),
      Memory.value_read hoffset (hword _ (hr.offset h12)), hptrs.get hp]
    exact htext

end Reading

/-! ### The calls -/

namespace Bulk

variable {M : Target} {mem : Memory} {e : ByteOrder} {name : Span} {text : Str} {call : BulkCall}

/-- A column of integers reaches the engine with the width and the sign of its elements. -/
theorem ints_arrive {R : NumericRange} {scale : Int64} {temporal : TemporalKind} {rows : List Int}
    (named : name.Text mem text) (integral : R.elem.isFloating = false)
    (values : R.values.Ints mem e (M.isSigned R.elem) (M.sizeof R.elem) rows)
    (hrun : numericImpl M name R scale temporal = .ok call) :
    call.nameRead mem = text ∧ call.columnRead mem e = .ints rows scale temporal := by
  rw [numericImpl, integral] at hrun
  obtain rfl := Except.ok.inj hrun
  refine ⟨named.read, ?_⟩
  have hsigned : decide ((if M.isSigned R.elem = true then 1 else 0 : Int32) ≠ 0)
      = M.isSigned R.elem := by
    cases M.isSigned R.elem <;> rfl
  rw [BulkCall.columnRead, hsigned, bytesOf_sizeof, values.read]

/-- A column of floats reaches it with the width alone, or not at all. -/
theorem floats_arrive {R : NumericRange} {scale : Int64} {temporal : TemporalKind}
    {rows : List Nat} (named : name.Text mem text) (floating : R.elem.isFloating = true)
    (values : R.values.Words mem e (M.sizeof R.elem) rows)
    (hrun : numericImpl M name R scale temporal = .ok call) :
    call.nameRead mem = text ∧ call.columnRead mem e = .floats (M.sizeof R.elem) rows := by
  rw [numericImpl, floating] at hrun
  simp only [if_true] at hrun
  split at hrun
  · cases hrun
  · obtain rfl := Except.ok.inj hrun
    refine ⟨named.read, ?_⟩
    rw [BulkCall.columnRead, bytesOf_sizeof, values.read]

/-- The engine is told of one offset less than there are, and reads one more. -/
theorem strings_arrive {wide : Bool} {offsets data : Span} {rows : List Str} {start : Nat}
    (named : name.Text mem text)
    (ends : offsets.Ints mem e true (if wide then 8 else 4)
      ((offsetsFrom start rows).map Int.ofNat))
    (chars : mem.Has (data.data + start) rows.flatten)
    (hrun : (Bulk.strings wide name offsets data).run M = .ok call) :
    call.nameRead mem = text ∧ call.columnRead mem e = .strings rows := by
  have hsize : 1 ≤ offsets.size.toNat := by
    rw [ends.1, List.length_map, length_offsetsFrom]
    omega
  have hwidth : (if (if wide then 1 else 0 : Int32) = 0 then 4 else 8)
      = if wide then 8 else 4 := by
    cases wide <;> rfl
  obtain rfl := Except.ok.inj hrun
  refine ⟨named.read, ?_⟩
  rw [BulkCall.columnRead, stringsCount_succ hsize, hwidth, ends.read, List.map_map]
  have hnat : (offsetsFrom start rows).map (Int.toNat ∘ Int.ofNat) = offsetsFrom start rows :=
    List.map_id _
  rw [hnat, Memory.slices_of_has chars]

/-- **A column is read as what it is.**  Where the spans of a bulk call have a column, and a name,
in the layouts of Arrow, then whenever the engine is called, what it reads by the pointers, the
counts, the width and the sign that it is handed is that column under that name, in either order
of the bytes of a word and on every machine. -/
theorem column_arrives {b : Bulk} {col : Column} (h : b.Holds M mem e text col)
    (hrun : b.run M = .ok call) :
    call.nameRead mem = text ∧ call.columnRead mem e = col := by
  cases h with
  | ints scale temporal named integral values => exact ints_arrive named integral values hrun
  | floats scale temporal named floating values => exact floats_arrive named floating values hrun
  | bools named counted bits =>
    obtain rfl := Except.ok.inj hrun
    refine ⟨named.read, ?_⟩
    rw [BulkCall.columnRead, counted, Memory.bits_of_has bits]
  | strings start named ends chars => exact strings_arrive named ends chars hrun
  | views named counted pointers views there =>
    obtain rfl := Except.ok.inj hrun
    refine ⟨named.read, ?_⟩
    rw [BulkCall.columnRead, counted]
    exact congrArg Column.strings (Memory.every_of_has (fun r => length_viewOf e _ _ _)
      (fun r hr a ha => view_of_has pointers (there r hr) ha) views)
  | @edges src dst rows sources targets =>
    have hsize : src.size = dst.size := by
      rw [← UInt64.toNat_inj, sources.1, targets.1, List.length_map, List.length_map]
    rw [run, edgesImpl, if_neg (not_not_intro hsize)] at hrun
    obtain rfl := Except.ok.inj hrun
    refine ⟨rfl, ?_⟩
    have htargets := targets.read
    rw [← hsize] at htargets
    rw [BulkCall.columnRead, sources.read, htargets, List.zip_map']
    exact congrArg Column.edges (List.map_id rows)

def threeSixteen : List Placed := [⟨ascii "ada", 0, 0⟩, ⟨ascii "augusta ada king", 0, 0⟩]

def packed : List UInt8 :=
  ascii "w" ++ threeSixteen.flatMap (fun r => viewOf .little r.text r.buffer r.offset) ++
    ByteOrder.little.bytes 8 41 ++ ascii "augusta ada king"

theorem column_arrives_threeSixteen :
    ∃ call, (views ⟨0, 1⟩ ⟨1, 32⟩ ⟨33, 1⟩ ⟨33, 1⟩ 2).run Target.linux = .ok call ∧
      call.columnRead (packed.getD · 0) .little
        = .strings [ascii "ada", ascii "augusta ada king"] := by
  refine ⟨_, rfl, ?_⟩
  have hthere : ∀ r ∈ threeSixteen, r.There (packed.getD · 0) [41] := by
    intro r hr
    have hcases : r = ⟨ascii "ada", 0, 0⟩ ∨ r = ⟨ascii "augusta ada king", 0, 0⟩ := by
      simpa [threeSixteen] using hr
    rcases hcases with rfl | rfl
    · exact ⟨by decide, fun _ => by decide, fun _ => by decide, fun h => absurd h (by decide)⟩
    · exact ⟨by decide, fun _ => by decide, fun _ => by decide, fun _ => ⟨41, rfl, by decide⟩⟩
  have hname : Span.Text (packed.getD · 0) ⟨0, 1⟩ (ascii "w") := by decide
  exact (column_arrives (M := Target.linux)
    (.views hname rfl (by decide) (by decide) hthere) rfl).2

end Bulk

/-! ### The columns of the loader -/

/-- The calls of zu.h that the columns of `Loader` make, but for its strings. -/
inductive LoaderCall
  | zuLoaderColI64 (name : Span) (values : Nat) (count : UInt64)
  | zuLoaderColF64 (name : Span) (values : Nat) (count : UInt64)
  | zuLoaderColBool (name : Span) (values : Nat) (count : UInt64)
  | zuLoaderColTemporal (name : Span) (kind : TemporalKind) (values : Nat) (count : UInt64)
  deriving DecidableEq, Repr

/-- What the engine reads: 64 bits of a number or a count, and one `int32` for a flag, which is
true where it is not zero. -/
def LoaderCall.columnRead (mem : Memory) (e : ByteOrder) : LoaderCall → Column
  | zuLoaderColI64 _ values count => .ints (mem.ints e true 8 values count.toNat) 1 .plain
  | zuLoaderColF64 _ values count => .floats 8 (mem.words e 8 values count.toNat)
  | zuLoaderColBool _ values count =>
    .bools ((mem.ints e true 4 values count.toNat).map fun x => x ≠ 0)
  | zuLoaderColTemporal _ kind values count =>
    .ints (mem.ints e true 8 values count.toNat) 1 kind

def colIntsImpl (name values : Span) : LoaderCall :=
  .zuLoaderColI64 name values.data values.size

def colDoublesImpl (name values : Span) : LoaderCall :=
  .zuLoaderColF64 name values.data values.size

def colBoolsImpl (name values : Span) : LoaderCall :=
  .zuLoaderColBool name values.data values.size

def colTemporalImpl (name : Span) (kind : TemporalKind) (values : Span) : LoaderCall :=
  .zuLoaderColTemporal name kind values.data values.size

/-- **The columns of a loader are read as what they are.** -/
theorem loader_columns_arrive {mem : Memory} {e : ByteOrder} (name : Span) {values : Span} :
    (∀ rows, values.Ints mem e true 8 rows →
      (colIntsImpl name values).columnRead mem e = .ints rows 1 .plain ∧
        ∀ kind, (colTemporalImpl name kind values).columnRead mem e = .ints rows 1 kind) ∧
    (∀ rows, values.Words mem e 8 rows →
      (colDoublesImpl name values).columnRead mem e = .floats 8 rows) ∧
    ∀ rows, values.Ints mem e true 4 rows →
      (colBoolsImpl name values).columnRead mem e = .bools (rows.map fun x => x ≠ 0) := by
  refine ⟨fun rows h => ?_, fun rows h => ?_, fun rows h => ?_⟩
  · have hread := h.read
    refine ⟨?_, fun kind => ?_⟩
    · rw [colIntsImpl, LoaderCall.columnRead, hread]
    · rw [colTemporalImpl, LoaderCall.columnRead, hread]
  · rw [colDoublesImpl, LoaderCall.columnRead, h.read]
  · rw [colBoolsImpl, LoaderCall.columnRead, h.read]

end ZuCpp
