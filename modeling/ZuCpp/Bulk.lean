import ZuCpp.Error
import ZuCpp.Types
import ZuCpp.Lib.Extent
import Mathlib.Tactic.IntervalCases

/-!
# The bulk calls and the memory they declare

`Frame::column`, `Frame::bools`, `Frame::strings`, `Frame::views` and `Loader::edges` hand
the engine pointers into the caller's memory, and with each a count.  What the engine
reads behind a pointer follows from the counts by Arrow's layouts (`BulkCall.reads`);
what the caller passed is its spans (`Bulk.passed`).

A count that is a span's own size always fits.  `bools` and `views` take theirs as an
argument, `strings` takes one less than the size of a span that may be empty, and `views`
asks for as many lengths as another span has buffers.  `edges` compares its two spans and
none of the others compares anything, so **a call keeps within the spans exactly when the
caller's own counts do** (`Bulk.within_spans_iff`).
-/

namespace ZuCpp

open Lib

/-- A `std::span`, or a `std::string_view`: where the first element is and how many there
are. -/
structure Span where
  data : Nat
  size : UInt64
  deriving DecidableEq, Repr

def Span.extent (width : Nat) (s : Span) : Extent := ⟨s.data, s.size.toNat * width⟩

/-! ### What the engine is asked -/

inductive BulkCall
  | zuFrameColInt (name : Span) (values : Nat) (count : UInt64) (bits isSigned : Int32)
      (scale : Int64) (temporal : TemporalKind)
  | zuFrameColFloat (name : Span) (values : Nat) (count : UInt64) (bits : Int32)
  | zuFrameColBool (name : Span) (bitmap : Nat) (count : UInt64)
  | zuFrameColStr (name : Span) (offsets : Nat) (wide : Int32) (data : Nat) (dataLen count : UInt64)
  | zuFrameColView (name : Span) (views data lens : Nat) (buffers count : UInt64)
  | zuLoaderEdges (src dst : Nat) (count : UInt64)
  deriving DecidableEq, Repr

def bytesOf (bits : Int32) : Nat := bits.toInt.toNat / 8

/-- **What the engine reads**, by the layouts of Arrow: `count` elements of a numeric
column, a bit for each row of a bitmap, one offset more than there are strings, sixteen
bytes for each view, and a pointer and a length for each buffer. -/
def BulkCall.reads : BulkCall → List Extent
  | zuFrameColInt name values count bits _ _ _ =>
    [name.extent 1, ⟨values, count.toNat * bytesOf bits⟩]
  | zuFrameColFloat name values count bits =>
    [name.extent 1, ⟨values, count.toNat * bytesOf bits⟩]
  | zuFrameColBool name bitmap count =>
    [name.extent 1, ⟨bitmap, (count.toNat + 7) / 8⟩]
  | zuFrameColStr name offsets wide data dataLen count =>
    [name.extent 1, ⟨offsets, (count.toNat + 1) * (if wide = 0 then 4 else 8)⟩,
      ⟨data, dataLen.toNat⟩]
  | zuFrameColView name views data lens buffers count =>
    [name.extent 1, ⟨views, 16 * count.toNat⟩, ⟨data, buffers.toNat * 8⟩,
      ⟨lens, buffers.toNat * 8⟩]
  | zuLoaderEdges src dst count => [⟨src, count.toNat * 4⟩, ⟨dst, count.toNat * 4⟩]

/-! ### The calls of the header -/

/-- A range that `detail::NumericRange` takes: contiguous, sized, and of numbers that are
not `bool`. -/
structure NumericRange where
  elem : Arith
  notBool : elem ≠ .bool
  values : Span

def numericImpl (M : Target) (name : Span) (R : NumericRange) (scale : Int64)
    (temporal : TemporalKind) : Outcome BulkCall :=
  let bits := Int32.ofNat (M.sizeof R.elem * 8)
  if R.elem.isFloating then
    if scale ≠ 1 ∨ temporal ≠ .plain then
      .error (Error.ofStatus .misuse
        (ascii "a column of floats carries no scale and no temporal meaning"))
    else
      .ok (.zuFrameColFloat name R.values.data R.values.size bits)
  else
    .ok (.zuFrameColInt name R.values.data R.values.size bits (if M.isSigned R.elem then 1 else 0)
      scale temporal)

def colBoolImpl (name : Span) (bitmap : Nat) (count : UInt64) : Outcome BulkCall :=
  .ok (.zuFrameColBool name bitmap count)

def colStrImpl (name : Span) (offsets : Nat) (wide : Int32) (data : Nat) (dataLen count : UInt64) :
    Outcome BulkCall :=
  .ok (.zuFrameColStr name offsets wide data dataLen count)

def colViewImpl (name : Span) (views data lens : Nat) (buffers count : UInt64) :
    Outcome BulkCall :=
  .ok (.zuFrameColView name views data lens buffers count)

def edgesImpl (src dst : Span) : Outcome BulkCall :=
  if src.size ≠ dst.size then
    .error (Error.ofStatus .misuse
      (ascii ("an edge starts somewhere and ends somewhere, so the two arrays are " ++
        "the same length")))
  else
    .ok (.zuLoaderEdges src.data dst.data src.size)

/-- A bulk call, with what its caller gives it.  `strings` is called with offsets of 32
bits or of 64 (`wide`). -/
inductive Bulk
  | column (name : Span) (R : NumericRange) (scale : Int64) (temporal : TemporalKind)
  | bools (name bitmap : Span) (count : UInt64)
  | strings (wide : Bool) (name offsets data : Span)
  | views (name viewsBuffer buffers lens : Span) (count : UInt64)
  | edges (src dst : Span)

namespace Bulk

/-- What the call does before the engine has done anything: it is refused, or the engine
is called. -/
def run (M : Target) : Bulk → Outcome BulkCall
  | column name R scale temporal => numericImpl M name R scale temporal
  | bools name bitmap count => colBoolImpl name bitmap.data count
  | strings wide name offsets data =>
    colStrImpl name offsets.data (if wide then 1 else 0) data.data data.size
      (if offsets.size = 0 then 0 else offsets.size - 1)
  | views name viewsBuffer buffers lens count =>
    colViewImpl name viewsBuffer.data buffers.data lens.data buffers.size count
  | edges src dst => edgesImpl src dst

/-- **The memory the caller passed**, in the order the engine is given it. -/
def passed (M : Target) : Bulk → List Extent
  | column name R _ _ => [name.extent 1, R.values.extent (M.sizeof R.elem)]
  | bools name bitmap _ => [name.extent 1, bitmap.extent 1]
  | strings wide name offsets data =>
    [name.extent 1, offsets.extent (if wide then 8 else 4), data.extent 1]
  | views name viewsBuffer buffers lens _ =>
    [name.extent 1, viewsBuffer.extent 1, buffers.extent 8, lens.extent 8]
  | edges src dst => [src.extent 4, dst.extent 4]

/-- The spans and the count of a call fit each other. -/
def Fits : Bulk → Prop
  | column .. => True
  | bools _ bitmap count => (count.toNat + 7) / 8 ≤ bitmap.size.toNat
  | strings _ _ offsets _ => 1 ≤ offsets.size.toNat
  | views _ viewsBuffer buffers lens count =>
    16 * count.toNat ≤ viewsBuffer.size.toNat ∧ buffers.size.toNat ≤ lens.size.toNat
  | edges src dst => src.size = dst.size

/-- A call that keeps within what it was passed: when it reaches the engine, each extent it
declares is within the span it is of, and when its spans and its count do not fit it is
refused as a misuse. -/
structure Safe (M : Target) (b : Bulk) : Prop where
  declares : ∀ call, b.run M = .ok call →
    List.Forall₂ Extent.Within call.reads (b.passed M)
  refuses : ¬ b.Fits → ∃ e, b.run M = .error e ∧ e.status = .misuse

/-- **The engine reads no address outside the spans** of a call that keeps within them. -/
theorem Safe.mem_passed {M : Target} {b : Bulk} (h : Safe M b) {call : BulkCall}
    (hrun : b.run M = .ok call) {e : Extent} (he : e ∈ call.reads) {a : Nat}
    (ha : a ∈ e.addresses) : ∃ f ∈ b.passed M, a ∈ f.addresses :=
  Extent.mem_passed (h.declares call hrun) he ha

/-! ### The numeric columns -/

theorem bytesOf_sizeof (M : Target) (t : Arith) :
    bytesOf (Int32.ofNat (M.sizeof t * 8)) = M.sizeof t := by
  have h := M.sizeof_le t
  generalize M.sizeof t = n at h
  interval_cases n <;> decide

theorem numericImpl_ok {M : Target} {name : Span} {R : NumericRange} {scale : Int64}
    {temporal : TemporalKind} {call : BulkCall}
    (h : numericImpl M name R scale temporal = .ok call) :
    call.reads = [name.extent 1, R.values.extent (M.sizeof R.elem)] := by
  unfold numericImpl at h
  simp only at h
  split at h
  · split at h
    · exact absurd h (by simp)
    · obtain rfl := Except.ok.inj h
      rw [BulkCall.reads, bytesOf_sizeof]
      rfl
  · obtain rfl := Except.ok.inj h
    rw [BulkCall.reads, bytesOf_sizeof]
    rfl

theorem safe_column (M : Target) (name : Span) (R : NumericRange) (scale : Int64)
    (temporal : TemporalKind) : Safe M (column name R scale temporal) := by
  refine ⟨?_, fun h => absurd trivial h⟩
  intro call h
  rw [numericImpl_ok h]
  exact .cons Extent.within_rfl (.cons Extent.within_rfl .nil)

/-! ### The edges -/

theorem safe_edges (M : Target) (src dst : Span) : Safe M (edges src dst) := by
  by_cases hs : src.size = dst.size
  · refine ⟨?_, fun h => absurd hs h⟩
    intro call h
    rw [run, edgesImpl, if_neg (not_not_intro hs)] at h
    obtain rfl := Except.ok.inj h
    refine .cons Extent.within_rfl (.cons ?_ .nil)
    rw [hs]
    exact Extent.within_rfl
  · have hrun : (edges src dst).run M = .error (Error.ofStatus .misuse
        (ascii ("an edge starts somewhere and ends somewhere, so the two arrays are " ++
          "the same length"))) := if_pos hs
    refine ⟨?_, fun _ => ⟨_, hrun, rfl⟩⟩
    intro call h
    rw [hrun] at h
    exact absurd h (by simp)

/-! ### The calls that compare nothing -/

/-- A call that reaches the engine whatever it was given is safe only if it fits. -/
theorem safe_iff_of_run {M : Target} {b : Bulk} {call : BulkCall} (hrun : b.run M = .ok call) :
    Safe M b ↔ List.Forall₂ Extent.Within call.reads (b.passed M) ∧ b.Fits := by
  constructor
  · intro h
    refine ⟨h.declares call hrun, ?_⟩
    by_contra hf
    obtain ⟨e, he, -⟩ := h.refuses hf
    rw [hrun] at he
    exact absurd he (by simp)
  · rintro ⟨hw, hf⟩
    refine ⟨?_, fun h => absurd hf h⟩
    intro call' h
    rw [hrun] at h
    obtain rfl := Except.ok.inj h
    exact hw

theorem safe_bools_iff (M : Target) (name bitmap : Span) (count : UInt64) :
    Safe M (bools name bitmap count) ↔ (count.toNat + 7) / 8 ≤ bitmap.size.toNat := by
  rw [safe_iff_of_run rfl]
  constructor
  · exact And.right
  · intro h
    refine ⟨.cons Extent.within_rfl (.cons (Extent.within_iff.mpr ?_) .nil), h⟩
    omega

/-- One offset more than the count `strings` works out is what the span has, unless the
span is empty. -/
theorem stringsCount_succ {size : UInt64} (h : 1 ≤ size.toNat) :
    (if size = 0 then 0 else size - 1 : UInt64).toNat + 1 = size.toNat := by
  have hne : size ≠ 0 := by
    rintro rfl
    exact absurd h (by decide)
  have hle : (1 : UInt64) ≤ size := UInt64.le_iff_toNat_le.mpr h
  rw [if_neg hne, UInt64.toNat_sub_of_le _ _ hle]
  have hone : (1 : UInt64).toNat = 1 := rfl
  omega

theorem safe_strings_iff (M : Target) (wide : Bool) (name offsets data : Span) :
    Safe M (strings wide name offsets data) ↔ 1 ≤ offsets.size.toNat := by
  rw [safe_iff_of_run rfl]
  constructor
  · exact And.right
  · intro h
    refine ⟨.cons Extent.within_rfl (.cons ?_ (.cons ?_ .nil)), h⟩
    · rw [stringsCount_succ h]
      cases wide with
      | false => exact Extent.within_rfl
      | true => exact Extent.within_rfl
    · rw [Span.extent, Nat.mul_one]
      exact Extent.within_rfl

theorem safe_views_iff (M : Target) (name viewsBuffer buffers lens : Span) (count : UInt64) :
    Safe M (views name viewsBuffer buffers lens count) ↔
      16 * count.toNat ≤ viewsBuffer.size.toNat ∧ buffers.size.toNat ≤ lens.size.toNat := by
  rw [safe_iff_of_run rfl]
  constructor
  · exact And.right
  · intro h
    refine ⟨.cons Extent.within_rfl (.cons (Extent.within_iff.mpr ?_)
      (.cons Extent.within_rfl (.cons (Extent.within_iff.mpr ?_) .nil))), h⟩
    · omega
    · exact Nat.mul_le_mul_right 8 h.2

def CallerCounts : Bulk → Prop
  | column .. => True
  | bools _ bitmap count => (count.toNat + 7) / 8 ≤ bitmap.size.toNat
  | strings _ _ offsets _ => offsets.size ≠ 0
  | views _ viewsBuffer buffers lens count =>
    16 * count.toNat ≤ viewsBuffer.size.toNat ∧ buffers.size.toNat ≤ lens.size.toNat
  | edges .. => True

/-- **A bulk call tells the engine to read no further than its spans, and is refused when
it would, exactly when the caller's own counts are right**: columns and edges always,
`bools` when the bitmap has a bit for each row, `strings` when there is an offset, `views`
when there are sixteen bytes for each row and a length for each buffer. -/
theorem within_spans_iff (M : Target) (b : Bulk) : Safe M b ↔ b.CallerCounts := by
  cases b with
  | column name R scale temporal => exact iff_of_true (safe_column M name R scale temporal) trivial
  | bools name bitmap count => exact safe_bools_iff M name bitmap count
  | strings wide name offsets data =>
    rw [safe_strings_iff, CallerCounts, Nat.one_le_iff_ne_zero]
    exact not_congr (UInt64.toNat_inj (b := 0))
  | views name viewsBuffer buffers lens count =>
    exact safe_views_iff M name viewsBuffer buffers lens count
  | edges src dst => exact iff_of_true (safe_edges M src dst) trivial

/-- Nine rows over one byte of bitmap: the engine is told of two. -/
theorem bools_past_the_bitmap :
    ¬ ∀ (M : Target) (b : Bulk), Safe M b := by
  intro h
  have hb := (h Target.linux (bools ⟨64, 4⟩ ⟨4096, 1⟩ 9)).declares _ rfl
  cases hb with
  | cons _ hb =>
    cases hb with
    | cons hw _ => exact absurd (Extent.within_iff.mp hw) (by decide)

end Bulk

end ZuCpp
