import RecordFlow.Calendar
import RecordFlow.Decimal
import RecordFlow.Parquet.FileType
import RecordFlow.Text.Quoted
import RecordFlow.Value
import RecordFlow.Whole

/-! What a columnar file stores for the fields of a row, and the values that they stand for. -/

namespace RecordFlow.Parquet

/-- What is stored for one field of a row. -/
inductive Cell where
  /-- An optional field that is absent. -/
  | null
  | bool (b : Bool)
  | int (n : Int64)
  /-- Three words of 32 bits: a time of day in nanoseconds, low word first, and a day. -/
  | int96 (low high day : UInt32)
  | float (x : Double)
  | bytes (b : List UInt8)
  | group (cells : List Cell)
  /-- The occurrences of a repeated field. -/
  | repeated (items : List Cell)

/-- The cells of the fields of a group. -/
def Cell.cells : Cell → List Cell
  | .group cells => cells
  | _ => []

/-! ### Fields -/

/-- A field of a row as the file means it. -/
inductive Field where
  | null
  | bool (b : Bool)
  | int (n : Int)
  /-- A day, counted from the epoch. -/
  | date (day : Int)
  /-- A point in time, counted from the epoch in parts of a second. -/
  | instant (n : Int) (perSecond : Nat)
  | float (x : Double) (isSingle : Bool)
  | text (s : String)
  | bytes (b : List UInt8)
  | decimal (unscaled : Int) (scale : Nat)
  | group (fields : List (String × Field))
  | list (items : List Field)
  | map (entries : List (Field × Field))

/-- A whole number as its low `width` bits. -/
def truncate (signed : Bool) (width : Nat) (n : Int64) : Int :=
  if signed then n.toInt.bmod (Nat.pow 2 width) else n.toInt.emod (Nat.pow 2 width)

/-- Bytes as a number in two's complement, the highest byte first. -/
def signedOfBytes (bytes : List UInt8) : Int :=
  let n : Nat := bytes.foldl (fun n b => 256 * n + b.toNat) 0
  if bytes.headD 0 < 128 then n else n - Nat.pow 256 bytes.length

/-- The day number of the epoch in the count of days that timestamps of 96 bits use. -/
def epochDay : Int := 2440588

/-- A timestamp of 96 bits in milliseconds since the epoch. -/
def millis (low high day : UInt32) : Int :=
  let nanos : Int := ((high.toNat * 0x100000000 + low.toNat : Nat) : Int).bmod 0x10000000000000000
  ((day.toNat : Int) - epochDay) * 86400000 + nanos.tdiv 1000000

def wholeField (converted : Converted) (scale : Nat) (n : Int64) : Field :=
  match converted with
  | .int8 => .int (truncate true 8 n)
  | .int16 => .int (truncate true 16 n)
  | .uint8 => .int (truncate false 8 n)
  | .uint16 => .int (truncate false 16 n)
  | .uint32 => .int (truncate false 32 n)
  | .uint64 => .int (truncate false 64 n)
  | .decimal => .decimal n.toInt scale
  | .date => .date n.toInt
  | .timestampMillis => .instant n.toInt 1000
  | .timestampMicros => .instant n.toInt 1000000
  | _ => .int n.toInt

def bytesField (converted : Converted) (scale : Nat) (bytes : List UInt8) : Field :=
  match converted with
  | .utf8 | .enum | .json =>
    match String.fromUTF8? ⟨bytes.toArray⟩ with
    | some s => .text s
    | none => .bytes bytes
  | .decimal => .decimal (signedOfBytes bytes) scale
  | _ => .bytes bytes

/-- A single-precision leaf holds the nearest number of that precision. -/
def floatField (physical : Physical) (x : Double) : Field :=
  match physical with
  | .float => .float (.ofFloat x.toFloat.toFloat32.toFloat) true
  | _ => .float x false

def leafField (physical : Physical) (converted : Converted) (scale : Nat) : Cell → Field
  | .bool b => .bool b
  | .int n => wholeField converted scale n
  | .int96 low high day => .instant (millis low high day) 1000
  | .float x => floatField physical x
  | .bytes b => bytesField converted scale b
  | _ => .null

/-! ### Texts and values -/

/-- A decimal with exactly `scale` places, a point in any case. -/
def decimalText (unscaled : Int) (scale : Nat) : String :=
  let digits := Decimal.numeral unscaled.natAbs
  let padded := if digits.length ≤ scale then
    Decimal.zeros (scale + 1 - digits.length) ++ digits else digits
  let whole := padded.length - scale
  (if unscaled < 0 then "-" else "") ++ String.ofList (padded.toList.take whole) ++ "." ++
    String.ofList (padded.toList.drop whole)

/-- A float in the text of a map: a whole one keeps one place; one that is negative, very small or
very large has an exponent. The bounds are numbers of the float's own precision. -/
def floatText (x : Double) (isSingle : Bool) : String :=
  let bound (b : Float) : Float := if isSingle then b.toFloat32.toFloat else b
  if x.isFinite then
    let d := if isSingle then Decimal.shortestSingle x else Decimal.shortest x
    if bound 1e-15 ≤ x.toFloat && x.toFloat ≤ bound 1e19 then
      if x.toFloat.floor == x.toFloat then d.positional ++ ".0" else d.positional
    else
      let digits := Decimal.numeral d.digits
      let places := digits.toList.drop 1
      (if d.negative then "-" else "") ++ String.ofList (digits.toList.take 1) ++
        (if places.isEmpty then "" else "." ++ String.ofList places) ++
        "E" ++ toString (d.exponent + (places.length : Int))
  else x.text

mutual

def Field.display : Field → String
  | .null => "null"
  | .bool b => if b then "true" else "false"
  | .int n => toString n
  | .date day => Calendar.dateText day
  | .instant n perSecond => Calendar.timeText (n.tdiv perSecond)
  | .float x isSingle => floatText x isSingle
  | .text s => "\"" ++ s ++ "\""
  | .bytes b => Text.bracketed (b.map fun byte => toString byte.toNat)
  | .decimal unscaled scale => decimalText unscaled scale
  | .group fields => "\x7b" ++ ", ".intercalate (Field.textFields fields) ++ "\x7d"
  | .list items => Text.bracketed (Field.textAll items)
  | .map entries => "\x7b" ++ ", ".intercalate (Field.textEntries entries) ++ "\x7d"

def Field.textAll : List Field → List String
  | [] => []
  | f :: fs => f.display :: Field.textAll fs

def Field.textFields : List (String × Field) → List String
  | [] => []
  | (name, f) :: fs => (name ++ ": " ++ f.display) :: Field.textFields fs

def Field.textEntries : List (Field × Field) → List String
  | [] => []
  | (k, v) :: es => (k.display ++ " -> " ++ v.display) :: Field.textEntries es

end

/-- Whole numbers beyond the signed range become null. -/
def wholeValue (n : Int) : Value :=
  ((Whole.ofInt? n).map Value.int).getD .null

mutual

/-- Days and times become their counts, decimals and maps their texts. -/
def Field.toValue : Field → Value
  | .null => .null
  | .bool b => .bool b
  | .int n => wholeValue n
  | .date day => wholeValue day
  | .instant n _ => wholeValue n
  | .float x _ => .float x
  | .text s => .text s
  | .bytes b => .bytes b
  | .decimal unscaled scale => .text (decimalText unscaled scale)
  | .group fields => .record ⟨Field.toFields fields⟩
  | .list items => .list (Field.toValues items)
  | .map entries => .text (Field.display (.map entries))

def Field.toValues : List Field → List Value
  | [] => []
  | f :: fs => f.toValue :: Field.toValues fs

def Field.toFields : List (String × Field) → List (String × Value)
  | [] => []
  | (name, f) :: fs => (name, f.toValue) :: Field.toFields fs

end

end RecordFlow.Parquet
