import RecordFlow.Csv.Reader
import RecordFlow.Evaluation
import RecordFlow.Memory.Grouping
import RecordFlow.Memory.Matching
import RecordFlow.Source.Files

/-! The backend whose datasets are lists of records. Reads take tables by locator, else files; every
operation that makes records shapes them by the schema of its step. -/

namespace RecordFlow.Memory

structure Sources where
  /-- Tables by locator, the first of one locator counts. -/
  tables : List (String × List Record) := []
  files : Files := {}
  csv : Csv.Dialect := {}

namespace Sources

def table? (s : Sources) (context : StepContext) (locator : String) : Option (List Record) :=
  (s.tables.lookup locator).map (·.map context.schema.conform)

/-- All records of a file of delimited text. Without a header its columns are the fields of the
step's record type, whatever the schema keeps of them. A directory is found but gives no text. -/
def readCsvFile (s : Sources) (context : StepContext) (locator : String) :
    Except ReadError (List Record) := do
  match s.files.find? (Path.ofLocator locator) with
  | none => throw .io
  | some (.directory _) | some .start => throw .csv
  | some (.file text) =>
    let reader ← if s.csv.hasHeader then Csv.openText s.csv context.schema text
      else Csv.openColumns s.csv context.schema context.step.seed.fieldNames text
    reader.readAll.1

def readCsv (s : Sources) (context : StepContext) (locator : String) :
    Except Error (List Record) :=
  match s.table? context locator with
  | some records => .ok records
  | none => (s.readCsvFile context locator).mapError .ofRead

def readParquet (s : Sources) (name : String) (context : StepContext) (locator : String) :
    Except Error (List Record) :=
  match s.table? context locator with
  | some records => .ok records
  | none => .error (.notImplemented name "read_parquet")

end Sources

def engineName : String := "local"

def engine (s : Sources) : Engine Id (List Record) where
  name := engineName
  emptyDataset _ := ExceptT.mk (.ok [])
  readCsv context locator := ExceptT.mk (s.readCsv context locator)
  readParquet context locator := ExceptT.mk (s.readParquet engineName context locator)
  filter _ records predicate := ExceptT.mk (.ok (records.filter predicate))
  map context records function :=
    ExceptT.mk (.ok (records.map fun r => context.schema.conform (function r)))
  flatMap context records function :=
    ExceptT.mk (.ok (records.flatMap fun r => (function r).map context.schema.conform))
  aggregate context records builder layout :=
    ExceptT.mk (Memory.aggregate records builder layout context.schema)
  joinLeft context left key inputs :=
    ExceptT.mk (Memory.joinLeft left key inputs context.schema)
  limit _ records count := ExceptT.mk (.ok (records.take count))
  materialize _ records := ExceptT.mk (.ok records)

end RecordFlow.Memory
