import ZuCpp.Bulk
import ZuCpp.Columns
import ZuCpp.Get
import ZuCpp.Notices
import ZuCpp.Strings

/-!
# The fallible calls of the header

Every class of the header keeps its calls of the engine in `_impl` members, which the throwing
spelling unwraps and the `try_` spelling answers.  Here is each of them, as the family it is of
with its own call, its own text and the value it makes of what the engine wrote; those of a
value and of the columns are where their readers are.

A few calls ask the engine past these members, or past what they answer: `column` reads the
names through `names()`, `notices` asks for an error and checks nothing, and the `noexcept`
ones and `is_memory` drop the status.  `Call` is all of them.
-/

namespace ZuCpp.Calls

/-- What the engine answers to a call that is given `&err`: the status, and the error that is
left in the slot. -/
abbrev Reply := Status × Option EngineError

abbrev adopted (out : Option Nat) : Handle Nat := ⟨out⟩

namespace Value

def fieldImpl (st : Status) (p : Option Str) : MemM (Outcome Str) :=
  structuralImpl "zu_value_field" st (p.getD [])

end Value

namespace Result

def nameImpl (st : Status) (p : Option Str) : MemM (Outcome Str) :=
  structuralImpl "zu_result_col_name" st (p.getD [])

/-- It is the call that `names()` makes for a column. -/
theorem nameImpl_colName (self : ZuCpp.Result) (fails : Failures) (col : Nat) (m : Mem) :
    nameImpl (self.colName fails col).1 (self.colName fails col).2 m
      = (self.nameImpl fails col, m) := by
  rw [nameImpl, structuralImpl, impl, callChecked, bind_of_eq (checkedStatus_eq _ _ m),
    ZuCpp.Result.nameImpl]
  by_cases h : (self.colName fails col).1 = .ok ∨ (self.colName fails col).1 = .done
  · simp only [if_pos h]
    rfl
  · simp only [if_neg h]
    rfl

def intsImpl (answer : Columns.Answer) (rows : UInt64) : MemM (Outcome Columns.Span) :=
  Columns.spanImpl answer rows (ascii "zu_result_col_i64")

def doublesImpl (answer : Columns.Answer) (rows : UInt64) : MemM (Outcome Columns.Span) :=
  Columns.spanImpl answer rows (ascii "zu_result_col_f64")

def nodeOffsetsImpl (answer : Columns.Answer) (rows : UInt64) : MemM (Outcome Columns.Span) :=
  Columns.spanImpl answer rows (ascii "zu_result_col_node_offset")

def validImpl (answer : Columns.Answer) (rows : UInt64) : MemM (Outcome Columns.Span) :=
  Columns.spanImpl answer rows (ascii "zu_result_col_valid")

def chunkImpl (st : Status) (out : Columns.ChunkExtent) : MemM (Outcome Columns.ChunkExtent) :=
  structuralImpl "zu_result_chunk" st out

section Chunks

variable (extent : Status × Columns.ChunkExtent) (answer : Columns.Answer)

def chunkIntsImpl : MemM (Outcome Columns.Span) :=
  Columns.chunkColumnImpl extent answer (ascii "zu_result_chunk_col_i64")

def chunkDoublesImpl : MemM (Outcome Columns.Span) :=
  Columns.chunkColumnImpl extent answer (ascii "zu_result_chunk_col_f64")

def chunkNodeOffsetsImpl : MemM (Outcome Columns.Span) :=
  Columns.chunkColumnImpl extent answer (ascii "zu_result_chunk_col_node_offset")

def chunkValidImpl : MemM (Outcome Columns.Span) :=
  Columns.chunkColumnImpl extent answer (ascii "zu_result_chunk_col_valid")

end Chunks

/-- The status is stored before `checked` is called. -/
def arrowImpl (answer : Reply) : MemM (Outcome Unit) :=
  explainedImpl .callFirst "zu_result_arrow" answer ()

end Result

namespace Statement

def bindIntImpl (st : Status) : MemM (Outcome Unit) := structuralImpl "zu_bind_i64" st ()

def bindDoubleImpl (st : Status) : MemM (Outcome Unit) := structuralImpl "zu_bind_f64" st ()

def bindBoolImpl (st : Status) : MemM (Outcome Unit) := structuralImpl "zu_bind_bool" st ()

def bindStrImpl (st : Status) : MemM (Outcome Unit) := structuralImpl "zu_bind_str" st ()

def bindTemporalImpl (st : Status) : MemM (Outcome Unit) :=
  structuralImpl "zu_bind_temporal" st ()

def bindNullImpl (st : Status) : MemM (Outcome Unit) := structuralImpl "zu_bind_null" st ()

def executeImpl (order : EvalOrder) (answer : Reply) (out : Option Nat) :
    MemM (Outcome (Handle Nat)) :=
  explainedImpl order "zu_execute" answer (adopted out)

end Statement

namespace Appender

variable (order : EvalOrder) (answer : Reply)

def appendBoolImpl : MemM (Outcome Unit) := explainedImpl order "zu_append_bool" answer ()

def appendIntImpl : MemM (Outcome Unit) := explainedImpl order "zu_append_i64" answer ()

def appendDoubleImpl : MemM (Outcome Unit) := explainedImpl order "zu_append_f64" answer ()

def appendStrImpl : MemM (Outcome Unit) := explainedImpl order "zu_append_str" answer ()

def appendBytesImpl : MemM (Outcome Unit) := explainedImpl order "zu_append_bytes" answer ()

def appendTemporalImpl : MemM (Outcome Unit) := explainedImpl order "zu_append_temporal" answer ()

def endRowImpl : MemM (Outcome Unit) := explainedImpl order "zu_append_end_row" answer ()

def flushImpl : MemM (Outcome Unit) := explainedImpl order "zu_appender_flush" answer ()

/-- The call answers no status, and a null pointer for a column that is not there. -/
def colNameImpl (p : Option Str) : MemM (Outcome Str) :=
  match p with
  | none => return .error (← Error.take .misuse none (ascii "zu_appender_col_name: no such column"))
  | some name => return .ok name

def colsImpl (st : Status) (out : UInt32) : MemM (Outcome UInt32) :=
  structuralImpl "zu_appender_cols" st out

def countImpl (st : Status) (out : UInt64) : MemM (Outcome UInt64) :=
  structuralImpl "zu_appender count" st out

def discardImpl (st : Status) (out : UInt64) : MemM (Outcome UInt64) :=
  structuralImpl "zu_appender_discard" st out

def closeImpl (out : UInt64) : MemM (Outcome UInt64) :=
  explainedImpl order "zu_appender_close" answer out

end Appender

def callName : BulkCall → String
  | .zuFrameColInt .. => "zu_frame_col_int"
  | .zuFrameColFloat .. => "zu_frame_col_float"
  | .zuFrameColBool .. => "zu_frame_col_bool"
  | .zuFrameColStr .. => "zu_frame_col_str"
  | .zuFrameColView .. => "zu_frame_col_view"
  | .zuLoaderEdges .. => "zu_loader_edges"

def sendImpl (order : EvalOrder) (call : Outcome BulkCall) (answer : Reply) :
    MemM (Outcome Unit) :=
  match call with
  | .error e => return .error e
  | .ok call => explainedImpl order (callName call) answer ()

namespace Loader

variable (order : EvalOrder) (answer : Reply)

def createImpl (out : Option Nat) : MemM (Outcome (Handle Nat)) :=
  explainedImpl order "zu_loader_create" answer (adopted out)

def tableImpl : MemM (Outcome Unit) := explainedImpl order "zu_loader_table" answer ()

def edgesImpl (src dst : Span) : MemM (Outcome Unit) :=
  sendImpl order (ZuCpp.edgesImpl src dst) answer

def colIntsImpl : MemM (Outcome Unit) := explainedImpl order "zu_loader_col_i64" answer ()

def colDoublesImpl : MemM (Outcome Unit) := explainedImpl order "zu_loader_col_f64" answer ()

def colBoolsImpl : MemM (Outcome Unit) := explainedImpl order "zu_loader_col_bool" answer ()

def colStrsImpl (name : Str) (values : List View) (heap : Heap) : MemM (Outcome Unit) :=
  (ZuCpp.colStrsImpl order name values heap (.explained answer.1 answer.2)).2

def colTemporalImpl : MemM (Outcome Unit) :=
  explainedImpl order "zu_loader_col_temporal" answer ()

def finishImpl : MemM (Outcome Unit) := explainedImpl order "zu_loader_finish" answer ()

end Loader

namespace Frame

/-- The status is stored before `checked` is called. -/
def createImpl (answer : Reply) (out : Option Nat) : MemM (Outcome (Handle Nat)) :=
  explainedImpl .callFirst "zu_frame_new" answer (adopted out)

variable (order : EvalOrder) (answer : Reply)

def numericImpl (M : Target) (name : Span) (R : NumericRange) (scale : Int64)
    (temporal : TemporalKind) : MemM (Outcome Unit) :=
  sendImpl order (ZuCpp.numericImpl M name R scale temporal) answer

def colBoolImpl (name : Span) (bitmap : Nat) (count : UInt64) : MemM (Outcome Unit) :=
  sendImpl order (ZuCpp.colBoolImpl name bitmap count) answer

def colStrImpl (name : Span) (offsets : Nat) (wide : Int32) (data : Nat) (dataLen count : UInt64) :
    MemM (Outcome Unit) :=
  sendImpl order (ZuCpp.colStrImpl name offsets wide data dataLen count) answer

def colViewImpl (name : Span) (views data lens : Nat) (buffers count : UInt64) :
    MemM (Outcome Unit) :=
  sendImpl order (ZuCpp.colViewImpl name views data lens buffers count) answer

end Frame

namespace Config

def setImpl (order : EvalOrder) (answer : Reply) : MemM (Outcome Unit) :=
  explainedImpl order "zu_config_set" answer ()

end Config

namespace Database

variable (order : EvalOrder) (answer : Reply) (out : Option Nat)

def openImpl : MemM (Outcome (Handle Nat)) :=
  explainedImpl order "zu_database_open" answer (adopted out)

def createImpl : MemM (Outcome (Handle Nat)) :=
  explainedImpl order "zu_database_create" answer (adopted out)

def memoryImpl : MemM (Outcome (Handle Nat)) :=
  explainedImpl order "zu_database_memory" answer (adopted out)

def pathImpl (st : Status) (p : Option Str) : MemM (Outcome Str) :=
  structuralImpl "zu_database_path" st (p.getD [])

def connectImpl : MemM (Outcome (Handle Nat)) :=
  explainedImpl order "zu_connect" answer (adopted out)

/-- `Database::is_memory`, for which the status is the answer. -/
def isMemory (st : Status) : Bool := st = .ok

end Database

namespace Connection

section Explained

variable (order : EvalOrder) (answer : Reply) (out : Option Nat)

def openImpl : MemM (Outcome (Handle Nat)) := explainedImpl order "zu_open" answer (adopted out)

def createImpl : MemM (Outcome (Handle Nat)) :=
  explainedImpl order "zu_create" answer (adopted out)

def memoryImpl : MemM (Outcome (Handle Nat)) :=
  explainedImpl order "zu_memory" answer (adopted out)

def duplicateImpl : MemM (Outcome (Handle Nat)) :=
  explainedImpl order "zu_conn_duplicate" answer (adopted out)

def queryImpl : MemM (Outcome (Handle Nat)) := explainedImpl order "zu_query" answer (adopted out)

def prepareImpl : MemM (Outcome (Handle Nat)) :=
  explainedImpl order "zu_prepare" answer (adopted out)

def beginImpl : MemM (Outcome Unit) := explainedImpl order "zu_begin" answer ()

def commitImpl : MemM (Outcome Unit) := explainedImpl order "zu_commit" answer ()

def rollbackImpl : MemM (Outcome Unit) := explainedImpl order "zu_rollback" answer ()

def appenderImpl : MemM (Outcome (Handle Nat)) :=
  explainedImpl order "zu_appender_open" answer (adopted out)

def registerImpl : MemM (Outcome Unit) := explainedImpl order "zu_conn_register" answer ()

def unregisterImpl (gone : Int32) : MemM (Outcome Bool) :=
  explainedImpl order "zu_conn_unregister" answer (gone != 0)

end Explained

def interruptImpl (st : Status) : MemM (Outcome Unit) := structuralImpl "zu_conn_interrupt" st ()

def rowsReadImpl (st : Status) (out : UInt64) : MemM (Outcome UInt64) :=
  structuralImpl "zu_conn_rows_read" st out

/-- The status is stored before `checked` is called. -/
def setProgressImpl (st : Status) : MemM (Outcome Unit) :=
  structuralImpl "zu_conn_set_progress" st ()

def inTransactionImpl (st : Status) (out : Int32) : MemM (Outcome Bool) :=
  structuralImpl "zu_conn_in_transaction" st (out != 0)

/-- The loop of `registered_impl`, with `k` names to go and the `i`-th next. -/
def registeredFrom (name : Nat → Option Str) : Nat → Nat → List Str
  | 0, _ => []
  | k + 1, i =>
    match name i with
    | none => []
    | some s => s :: registeredFrom name k (i + 1)

def registeredImpl (st : Status) (n : UInt64) (name : Nat → Option Str) :
    MemM (Outcome (List Str)) :=
  structuralImpl "zu_conn_registered_count" st (registeredFrom name n.toNat 0)

/-- The call answers no status, and is not made on a null handle. -/
def tableNameImpl (h : Handle Nat) (p : Option Str) : MemM (Outcome (Option Str)) :=
  match h.p with
  | none => return .error (← Error.take .misuse none (ascii "zu_conn_table_name"))
  | some _ => return .ok p

/-- `clear_progress_quietly`, where there is something to clear: the status is dropped. -/
def clearProgressQuietly (_ : Status) : MemM Unit := pure ()

end Connection

namespace Transaction

/-- `Transaction::undo`, with what the engine answers to the two calls. -/
def undo (order : EvalOrder) (st : Status) (out : Int32) (rollback : Reply) : MemM Unit := do
  match ← Connection.inTransactionImpl st out with
  | .ok true =>
    let _ ← Connection.rollbackImpl order rollback
    return ()
  | _ => return ()

end Transaction

/-! ### All of them -/

/-- A call of an `_impl` member other than `column_impl`, with what the engine answers to it.
`T` is what it answers. -/
inductive Member (F : Type) : Type → Type
  | asBool (C : CellReads F) (self : Value) : Member F Bool
  | asInt (C : Cells) (self : Value) : Member F Int64
  | asDouble (C : CellReads F) (self : Value) : Member F F
  | asString (C : CellReads F) (self : Value) : Member F Str
  | asBytes (C : CellReads F) (self : Value) : Member F Str
  | asDecimal (C : CellReads F) (self : Value) : Member F Decimal
  | asTemporal (C : CellReads F) (self : Value) : Member F Temporal
  | asNode (C : CellReads F) (self : Value) : Member F Node
  | asRel (C : CellReads F) (self : Value) : Member F Rel
  | atCall (C : Cells) (self : Value) (i : UInt64) : Member F Value
  | field (st : Status) (p : Option Str) : Member F Str
  | nameOf (st : Status) (p : Option Str) : Member F Str
  | type (C : RowReads F) (self : ZuCpp.Result) (row : UInt64) (col : UInt32) : Member F ValueType
  | ints (answer : Columns.Answer) (rows : UInt64) : Member F Columns.Span
  | doubles (answer : Columns.Answer) (rows : UInt64) : Member F Columns.Span
  | nodeOffsets (answer : Columns.Answer) (rows : UInt64) : Member F Columns.Span
  | valid (answer : Columns.Answer) (rows : UInt64) : Member F Columns.Span
  | str (C : RowReads F) (self : ZuCpp.Result) (row : UInt64) (col : UInt32) : Member F Str
  | cell (C : Cells) (self : ZuCpp.Result) (row : UInt64) (col : UInt32) : Member F Value
  | chunk (st : Status) (out : Columns.ChunkExtent) : Member F Columns.ChunkExtent
  | chunkInts (extent : Status × Columns.ChunkExtent) (answer : Columns.Answer) :
    Member F Columns.Span
  | chunkDoubles (extent : Status × Columns.ChunkExtent) (answer : Columns.Answer) :
    Member F Columns.Span
  | chunkNodeOffsets (extent : Status × Columns.ChunkExtent) (answer : Columns.Answer) :
    Member F Columns.Span
  | chunkValid (extent : Status × Columns.ChunkExtent) (answer : Columns.Answer) :
    Member F Columns.Span
  | toArrow (answer : Reply) : Member F Unit
  | bindInt (st : Status) : Member F Unit
  | bindDouble (st : Status) : Member F Unit
  | bindBool (st : Status) : Member F Unit
  | bindStr (st : Status) : Member F Unit
  | bindTemporal (st : Status) : Member F Unit
  | bindNull (st : Status) : Member F Unit
  | execute (answer : Reply) (out : Option Nat) : Member F (Handle Nat)
  | appendBool (answer : Reply) : Member F Unit
  | appendInt (answer : Reply) : Member F Unit
  | appendDouble (answer : Reply) : Member F Unit
  | appendStr (answer : Reply) : Member F Unit
  | appendBytes (answer : Reply) : Member F Unit
  | appendTemporal (answer : Reply) : Member F Unit
  | endRow (answer : Reply) : Member F Unit
  | flush (answer : Reply) : Member F Unit
  | colName (p : Option Str) : Member F Str
  | cols (st : Status) (out : UInt32) : Member F UInt32
  | countOf (st : Status) (out : UInt64) : Member F UInt64
  | discard (st : Status) (out : UInt64) : Member F UInt64
  | close (answer : Reply) (out : UInt64) : Member F UInt64
  | createLoader (answer : Reply) (out : Option Nat) : Member F (Handle Nat)
  | table (answer : Reply) : Member F Unit
  | edges (answer : Reply) (src dst : Span) : Member F Unit
  | loadInts (answer : Reply) : Member F Unit
  | loadDoubles (answer : Reply) : Member F Unit
  | loadBools (answer : Reply) : Member F Unit
  | loadStrings (answer : Reply) (name : Str) (values : List View) (heap : Heap) : Member F Unit
  | loadTemporal (answer : Reply) : Member F Unit
  | finish (answer : Reply) : Member F Unit
  | createFrame (answer : Reply) (out : Option Nat) : Member F (Handle Nat)
  | frameColumn (answer : Reply) (M : Target) (name : Span) (R : NumericRange) (scale : Int64)
    (temporal : TemporalKind) : Member F Unit
  | frameBools (answer : Reply) (name : Span) (bitmap : Nat) (count : UInt64) : Member F Unit
  | frameStrings (answer : Reply) (name : Span) (offsets : Nat) (wide : Int32) (data : Nat)
    (dataLen count : UInt64) : Member F Unit
  | frameViews (answer : Reply) (name : Span) (views data lens : Nat) (buffers count : UInt64) :
    Member F Unit
  | set (answer : Reply) : Member F Unit
  | openDatabase (answer : Reply) (out : Option Nat) : Member F (Handle Nat)
  | createDatabase (answer : Reply) (out : Option Nat) : Member F (Handle Nat)
  | memoryDatabase (answer : Reply) (out : Option Nat) : Member F (Handle Nat)
  | path (st : Status) (p : Option Str) : Member F Str
  | connect (answer : Reply) (out : Option Nat) : Member F (Handle Nat)
  | openConnection (answer : Reply) (out : Option Nat) : Member F (Handle Nat)
  | createConnection (answer : Reply) (out : Option Nat) : Member F (Handle Nat)
  | memoryConnection (answer : Reply) (out : Option Nat) : Member F (Handle Nat)
  | duplicate (answer : Reply) (out : Option Nat) : Member F (Handle Nat)
  | query (answer : Reply) (out : Option Nat) : Member F (Handle Nat)
  | prepare (answer : Reply) (out : Option Nat) : Member F (Handle Nat)
  | interrupt (st : Status) : Member F Unit
  | rowsRead (st : Status) (out : UInt64) : Member F UInt64
  | setProgress (st : Status) : Member F Unit
  | begin (answer : Reply) : Member F Unit
  | commit (answer : Reply) : Member F Unit
  | rollback (answer : Reply) : Member F Unit
  | inTransaction (st : Status) (out : Int32) : Member F Bool
  | appender (answer : Reply) (out : Option Nat) : Member F (Handle Nat)
  | register (answer : Reply) : Member F Unit
  | unregister (answer : Reply) (gone : Int32) : Member F Bool
  | registered (st : Status) (n : UInt64) (name : Nat → Option Str) : Member F (List Str)
  | tableName (h : Handle Nat) (p : Option Str) : Member F (Option Str)

namespace Member

variable {F : Type}

def run (order : EvalOrder) : {T : Type} → Member F T → MemM (Outcome T)
  | _, .asBool C self => self.boolImpl C
  | _, .asInt C self => self.intImpl C
  | _, .asDouble C self => self.doubleImpl C
  | _, .asString C self => self.stringImpl C
  | _, .asBytes C self => self.bytesImpl C
  | _, .asDecimal C self => self.decimalImpl C
  | _, .asTemporal C self => self.temporalImpl C
  | _, .asNode C self => self.nodeImpl C
  | _, .asRel C self => self.relImpl C
  | _, .atCall C self i => self.atImpl C i
  | _, .field st p => Value.fieldImpl st p
  | _, .nameOf st p => Result.nameImpl st p
  | _, .type C self row col => self.typeImpl C row col
  | _, .ints answer rows => Result.intsImpl answer rows
  | _, .doubles answer rows => Result.doublesImpl answer rows
  | _, .nodeOffsets answer rows => Result.nodeOffsetsImpl answer rows
  | _, .valid answer rows => Result.validImpl answer rows
  | _, .str C self row col => self.strImpl C row col
  | _, .cell C self row col => self.cellImpl C row col
  | _, .chunk st out => Result.chunkImpl st out
  | _, .chunkInts extent answer => Result.chunkIntsImpl extent answer
  | _, .chunkDoubles extent answer => Result.chunkDoublesImpl extent answer
  | _, .chunkNodeOffsets extent answer => Result.chunkNodeOffsetsImpl extent answer
  | _, .chunkValid extent answer => Result.chunkValidImpl extent answer
  | _, .toArrow answer => Result.arrowImpl answer
  | _, .bindInt st => Statement.bindIntImpl st
  | _, .bindDouble st => Statement.bindDoubleImpl st
  | _, .bindBool st => Statement.bindBoolImpl st
  | _, .bindStr st => Statement.bindStrImpl st
  | _, .bindTemporal st => Statement.bindTemporalImpl st
  | _, .bindNull st => Statement.bindNullImpl st
  | _, .execute answer out => Statement.executeImpl order answer out
  | _, .appendBool answer => Appender.appendBoolImpl order answer
  | _, .appendInt answer => Appender.appendIntImpl order answer
  | _, .appendDouble answer => Appender.appendDoubleImpl order answer
  | _, .appendStr answer => Appender.appendStrImpl order answer
  | _, .appendBytes answer => Appender.appendBytesImpl order answer
  | _, .appendTemporal answer => Appender.appendTemporalImpl order answer
  | _, .endRow answer => Appender.endRowImpl order answer
  | _, .flush answer => Appender.flushImpl order answer
  | _, .colName p => Appender.colNameImpl p
  | _, .cols st out => Appender.colsImpl st out
  | _, .countOf st out => Appender.countImpl st out
  | _, .discard st out => Appender.discardImpl st out
  | _, .close answer out => Appender.closeImpl order answer out
  | _, .createLoader answer out => Loader.createImpl order answer out
  | _, .table answer => Loader.tableImpl order answer
  | _, .edges answer src dst => Loader.edgesImpl order answer src dst
  | _, .loadInts answer => Loader.colIntsImpl order answer
  | _, .loadDoubles answer => Loader.colDoublesImpl order answer
  | _, .loadBools answer => Loader.colBoolsImpl order answer
  | _, .loadStrings answer name values heap => Loader.colStrsImpl order answer name values heap
  | _, .loadTemporal answer => Loader.colTemporalImpl order answer
  | _, .finish answer => Loader.finishImpl order answer
  | _, .createFrame answer out => Frame.createImpl answer out
  | _, .frameColumn answer M name R scale temporal =>
    Frame.numericImpl order answer M name R scale temporal
  | _, .frameBools answer name bitmap count => Frame.colBoolImpl order answer name bitmap count
  | _, .frameStrings answer name offsets wide data dataLen count =>
    Frame.colStrImpl order answer name offsets wide data dataLen count
  | _, .frameViews answer name views data lens buffers count =>
    Frame.colViewImpl order answer name views data lens buffers count
  | _, .set answer => Config.setImpl order answer
  | _, .openDatabase answer out => Database.openImpl order answer out
  | _, .createDatabase answer out => Database.createImpl order answer out
  | _, .memoryDatabase answer out => Database.memoryImpl order answer out
  | _, .path st p => Database.pathImpl st p
  | _, .connect answer out => Database.connectImpl order answer out
  | _, .openConnection answer out => Connection.openImpl order answer out
  | _, .createConnection answer out => Connection.createImpl order answer out
  | _, .memoryConnection answer out => Connection.memoryImpl order answer out
  | _, .duplicate answer out => Connection.duplicateImpl order answer out
  | _, .query answer out => Connection.queryImpl order answer out
  | _, .prepare answer out => Connection.prepareImpl order answer out
  | _, .interrupt st => Connection.interruptImpl st
  | _, .rowsRead st out => Connection.rowsReadImpl st out
  | _, .setProgress st => Connection.setProgressImpl st
  | _, .begin answer => Connection.beginImpl order answer
  | _, .commit answer => Connection.commitImpl order answer
  | _, .rollback answer => Connection.rollbackImpl order answer
  | _, .inTransaction st out => Connection.inTransactionImpl st out
  | _, .appender answer out => Connection.appenderImpl order answer out
  | _, .register answer => Connection.registerImpl order answer
  | _, .unregister answer gone => Connection.unregisterImpl order answer gone
  | _, .registered st n name => Connection.registeredImpl st n name
  | _, .tableName h p => Connection.tableNameImpl h p

end Member

/-- A call of the header that can fail, or that makes one of the engine's. -/
inductive Call (F : Type) : Type → Type 1
  | member {T : Type} (c : Member F T) : Call F T
  /-- `column` and `try_column` -/
  | column (self : ZuCpp.Result) (fails : Failures) (name : Str) : Call F Nat
  | notices (A : Notices) (n : UInt32) : Call F (List Error)
  | undo (st : Status) (out : Int32) (rollback : Reply) : Call F Unit
  | clearProgressQuietly (st : Status) : Call F Unit
  | isMemory (st : Status) : Call F Bool

namespace Call

variable {F : Type}

/-- What both spellings make of: an outcome, or what is thrown on the way to one.  A call that is
no `_impl` answers a value. -/
def run (order : EvalOrder) : {T : Type} → Call F T → MemM (Except Exception (Outcome T))
  | _, .member c => return .ok (← c.run order)
  | _, .column self fails name => return (self.columnImpl fails name).2
  | _, .notices A n => return .ok (.ok (← ZuCpp.notices A n))
  | _, .undo st out rollback => return .ok (.ok (← Transaction.undo order st out rollback))
  | _, .clearProgressQuietly st => return .ok (.ok (← Connection.clearProgressQuietly st))
  | _, .isMemory st => return .ok (.ok (Database.isMemory st))

def throwing (order : EvalOrder) {T : Type} (c : Call F T) : MemM (Except Exception T) :=
  return (← c.run order).bind unwrap

/-- The `try_` spelling: what is thrown past the `Error` it would return. -/
def trying (order : EvalOrder) {T : Type} (c : Call F T) :
    MemM (Except Exception (Except Error T)) :=
  return (← c.run order).map toExpected

/-- The two spellings of the lookup are `column` and `try_column`. -/
theorem spellings_column (order : EvalOrder) (self : ZuCpp.Result) (fails : Failures) (name : Str)
    (m : Mem) :
    (Call.column (F := F) self fails name).throwing order m = ((self.column fails name).2, m) ∧
      (Call.column (F := F) self fails name).trying order m
        = ((self.tryColumn fails name).2, m) :=
  ⟨rfl, rfl⟩

end Call

end ZuCpp.Calls
