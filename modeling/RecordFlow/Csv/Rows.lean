/-! Delimited text as rows of fields. A field that starts with the quote runs to the closing quote, a
doubled quote in it standing for one; what follows the closing quote is taken as it is. Line feed,
carriage return and both together end a row; lines without any character are no rows. -/

namespace RecordFlow.Csv

/-- The bytes of one field, and the fields of one row. -/
abbrev Bytes := List UInt8

structure Dialect where
  hasHeader : Bool := true
  delimiter : UInt8 := 0x2c
  quote : UInt8 := 0x22
  /-- Whether white space around headers and fields is dropped. -/
  trim : Bool := false

/-- Where in a row the reading is. -/
inductive Place where
  /-- Before the first character of a row. -/
  | rowStart
  | fieldStart
  | field
  | quoted
  /-- After a quote in a quoted field: it closes the field unless another one follows. -/
  | quotedQuote

def isLineEnd (b : UInt8) : Bool := b == 0x0a || b == 0x0d

/-- What one byte does. -/
inductive Move where
  | skip (next : Place)
  | keep (next : Place)
  | endField
  | endRow

/-- The move inside an unquoted field. -/
def unquoted (d : Dialect) (b : UInt8) : Move :=
  if b == d.delimiter then .endField
  else if isLineEnd b then .endRow
  else .keep .field

def move (d : Dialect) (b : UInt8) : Place → Move
  | .rowStart =>
    if isLineEnd b then .skip .rowStart
    else if b == d.quote then .skip .quoted
    else unquoted d b
  | .fieldStart => if b == d.quote then .skip .quoted else unquoted d b
  | .field => unquoted d b
  | .quoted => if b == d.quote then .skip .quotedQuote else .keep .quoted
  | .quotedQuote => if b == d.quote then .keep .quoted else unquoted d b

/-- The rows of a text, given the place, the field so far and the fields of the row so far, both with
their last part first. The end of the text ends a row that was begun. -/
def split (d : Dialect) : Place → Bytes → List Bytes → Bytes → List (List Bytes)
  | .rowStart, _, _, [] => []
  | _, field, fields, [] => [(field.reverse :: fields).reverse]
  | place, field, fields, b :: rest =>
    match move d b place with
    | .skip next => split d next field fields rest
    | .keep next => split d next (b :: field) fields rest
    | .endField => split d .fieldStart [] (field.reverse :: fields) rest
    | .endRow => (field.reverse :: fields).reverse :: split d .rowStart [] [] rest

/-- The mark that may stand at the start of a text. -/
def dropByteOrderMark : Bytes → Bytes
  | 0xef :: 0xbb :: 0xbf :: rest => rest
  | bytes => bytes

def rows (d : Dialect) (text : Bytes) : List (List Bytes) :=
  split d .rowStart [] [] (dropByteOrderMark text)

end RecordFlow.Csv
