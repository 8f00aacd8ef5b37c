import RecordFlow.Parquet.Assembly
import RecordFlow.Schema.Conform
import RecordFlow.Source.Reader

/-! Records from the rows of a columnar file, of which only the projected fields are read. -/

namespace RecordFlow.Parquet

structure File where
  root : FileType
  /-- The row groups, each row as the cells of the top-level fields. -/
  groups : List (List (List Cell))

/-- The projected fields of the rows of one row group. -/
def readGroup (file : File) (projected : FileType) (rows : List (List Cell)) :
    List (List (String × Field)) :=
  let (fields, layout) :=
    (assembleAll (stripes file.root.fields rows) {} projected.fields).run {}
  let most := (layout.feeds.map (·.ahead.length)).foldl max 0 + 1
  Assembly.readRows most fields rows.length layout.feeds

/-- The record of the fields of a row. -/
def recordOf (fields : List (String × Field)) : Record := ⟨Field.toFields fields⟩

/-- Reads a file by a schema. A file has fields, and the projection has to be a part of it; each row
group is read from its start. -/
def openFile (file : File) (schema : Schema) : Except ReadError Reader := do
  if file.root.fields.isEmpty then throw .parquet
  let projected ← project file.root schema
  unless includesAll file.root.fields projected.fields do throw .parquet
  let rows := file.groups.flatMap (readGroup file projected)
  return { rows := rows.map fun fields => .ok (schema.conform (recordOf fields)) }

end RecordFlow.Parquet
