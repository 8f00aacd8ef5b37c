import RecordFlow.Csv.Cell
import RecordFlow.Csv.Rows
import RecordFlow.Source.Projection
import RecordFlow.Source.Reader
import RecordFlow.Text.Blank

/-! Records from delimited text. Columns are found by the names in the header, or by a given layout;
cells that a row lacks are null. -/

namespace RecordFlow.Csv

/-- The texts of the fields of a row, all of which have to be well-formed UTF-8. -/
def decodeRow (d : Dialect) (row : List Bytes) : Except ReadError (List String) :=
  match row.mapM fun field => String.fromUTF8? ⟨field.toArray⟩ with
  | some texts => .ok (if d.trim then texts.map Text.strip else texts)
  | none => .error .csv

/-- The fields of a record: for each column the cell at its position. -/
def parseColumns (texts : List String) :
    List Column → List (Option Nat) → Except ReadError (List (String × Value))
  | c :: cs, position :: positions => do
    let v ← match position.bind (texts[·]?) with
      | some text => parseCell text c
      | none => .ok .null
    return (c.name, v) :: (← parseColumns texts cs positions)
  | _, _ => .ok []

def parseRecord (schema : Schema) (p : Projection) (texts : List String) :
    Except ReadError Record := do
  return ⟨← parseColumns texts schema.columns p.positions⟩

/-- Reads rows whose columns have the given names. -/
def readerOf (d : Dialect) (schema : Schema) (names : List String) (rows : List (List Bytes)) :
    Except ReadError Reader := do
  let p ← Projection.ofNames schema names
  return { rows := rows.map fun row => do parseRecord schema p (← decodeRow d row) }

/-- Reads a text with a header, or without one a text whose columns are those of the schema. -/
def openText (d : Dialect) (schema : Schema) (text : Bytes) : Except ReadError Reader :=
  if d.hasHeader then do
    let names ← decodeRow d ((rows d text).headD [])
    readerOf d schema names (rows d text).tail
  else readerOf d schema schema.names (rows d text)

/-- Reads a text whose columns are given; a header is passed over. -/
def openColumns (d : Dialect) (schema : Schema) (names : List String) (text : Bytes) :
    Except ReadError Reader :=
  readerOf d schema names (if d.hasHeader then (rows d text).tail else rows d text)

end RecordFlow.Csv
